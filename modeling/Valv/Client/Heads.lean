import Valv.Client.Pull
import Valv.Server.Gc

/-!
# Heads and cursors

A client asks for the ops above its cursor, and takes an answer that ends below it for a regression of the
server.  The server has no record of a folder's head: it is the last op that the log still has.

* `Heads.step`: calls of `submitOp`, truncation passes, purges and any number of pulls, each query and each
  statement on its own.
* `Heads.vouched`: the cursors that answers have ended with, and those that open answers will end with.
* `cursors_advance`: along every run whose truncations leave the folder an op at or above every vouched
  cursor, no answer ends below the cursor that was asked for.
* `cursor_regresses`: the log of an idle folder is dropped, and the next answer ends at 0.
-/

namespace Valv.Client

open Valv.Conc Valv.Server

/-! ### Runs -/

/-- A pull between its row query and its head query. On the server these are two statements, and ops that are
committed between them count in the head but are not in the rows. -/
inductive OpenPull where
  /-- `pullDelta`. -/
  | delta (since : ℕ) (rows : List OpLogRow)
  /-- `pullTree`. -/
  | tree (scopeNodeId : String) (rows : List NodeRow)

/-- The end of the page that an open pull has read; an empty page and a tree end with the head. -/
def OpenPull.last : OpenPull → Option ℕ
  | .delta _ rows => rows.getLast?.map OpLogRow.serverSeq
  | .tree _ _ => none

/-- Calls in flight, the truncation passes and the pulls between their queries, and what was answered. -/
structure Heads where
  ops : Pool Db DbKey ApiError SubmitOpResponse
  /-- The ops that each open truncation pass has selected. -/
  passes : List (List ℕ) := []
  pulls : List OpenPull := []
  /-- Every `up_to_seq` that was answered. -/
  handed : List ℕ := []
  /-- The answers of `pullDelta` to a `since` that had been handed out, with that `since`. -/
  answers : List (ℕ × DeltaPullResponse) := []

inductive HeadsEvent where
  /-- Call `i` makes its next statement. -/
  | call (i : ℕ)
  /-- A truncation pass selects its ops. -/
  | select (args : GcArgs)
  /-- The `k`-th open pass deletes its ops. -/
  | truncate (k : ℕ)
  /-- A purge deletes the nodes that it has selected. -/
  | purge (ids : List String)
  /-- The row query of `pullDelta` for a reader of the scope. -/
  | rows (scopeNodeId : String) (since : ℕ)
  /-- The row query of `pullTree` for a reader of the scope. -/
  | tree (scopeNodeId : String)
  /-- The head query of the `k`-th open pull, and its answer. -/
  | head (k : ℕ)

namespace Heads

variable (folderId : String)

/-- The database. -/
abbrev db (st : Heads) : Db := st.ops.state

/-- The answer to a pull whose head query has come back. -/
def receive (st : Heads) (head : ℕ) : OpenPull → Heads
  | .delta since rows =>
    let response := deltaResponse rows head
    { st with
      handed := st.handed ++ [response.upToSeq]
      answers := if since ∈ st.handed then st.answers ++ [(since, response)] else st.answers }
  | .tree scopeNodeId rows =>
    { st with handed := st.handed ++ [(treeResponse scopeNodeId rows head).upToSeq] }

def step (st : Heads) : HeadsEvent → Option Heads
  | .call i => (st.ops.step i).map fun ops => { st with ops }
  | .select args => some { st with passes := st.passes ++ [args.selectedOps st.db] }
  | .truncate k => st.passes[k]?.map fun seqs =>
    { st with ops := { st.ops with state := ((deleteOps seqs).runBody st.db).1 }, passes := st.passes.eraseIdx k }
  | .purge ids => some { st with ops := { st.ops with state := ((deleteNodes ids).runBody st.db).1 } }
  | .rows scopeNodeId since =>
    some { st with
      pulls := st.pulls ++ [.delta since (st.db.deltaRows folderId scopeNodeId since)] }
  | .tree scopeNodeId =>
    some { st with pulls := st.pulls ++ [.tree scopeNodeId (st.db.treeRows folderId scopeNodeId)] }
  | .head k => st.pulls[k]?.map fun pull =>
    { st with pulls := st.pulls.eraseIdx k }.receive (st.db.folderHeadSeq folderId) pull

/-- No call has made a statement, and nobody has pulled. -/
def start (be : Backend) (s₀ : Db) (calls : List SubmitCall) : Heads := { ops := startOps be s₀ calls }

/-! ### What is said of them, and when it holds -/

/-- **No answer ends below a cursor that had been handed out**: a client at that cursor does not take it for
a regression, and its cursor does not go back. -/
def Advances (st : Heads) : Prop :=
  ∀ since response, (since, response) ∈ st.answers → since ≤ response.upToSeq ∧
    ∀ (m : Mirror) (now : ℕ), m.getCursor folderId = since →
      since ≤ (m.applyPage now folderId response).1.getCursor folderId ∧
      ∀ upToSeq cursor, (m.applyPage now folderId response).2 ≠ .error (.regressed upToSeq cursor)

/-- The cursors that were handed out, and those that open pulls are about to hand out. -/
def vouched (st : Heads) : List ℕ := st.handed ++ st.pulls.filterMap OpenPull.last

/-- The condition on an event: a truncation leaves the folder an op at or above every vouched cursor. -/
def Ok (st : Heads) : HeadsEvent → Prop
  | .truncate k => ∀ seqs ∈ st.passes[k]?, ∀ c ∈ st.vouched, c ≤ (st.db.dropOps seqs).folderHeadSeq folderId
  | _ => True

instance (st : Heads) : ∀ ev, Decidable (Ok folderId st ev)
  | .truncate k => inferInstanceAs (Decidable (∀ seqs ∈ st.passes[k]?, ∀ c ∈ st.vouched,
      c ≤ (st.db.dropOps seqs).folderHeadSeq folderId))
  | .call _ | .select _ | .purge _ | .rows _ _ | .tree _ | .head _ => isTrue True.intro

end Heads

/-! ### The head only grows, truncations aside -/

/-- No op is dropped from the log. -/
def LogStays (s s' : Db) : Prop := ∀ e ∈ s.opLog, e ∈ s'.opLog

instance : Std.Refl LogStays := ⟨fun _ _ he => he⟩

instance : IsTrans Db LogStays := ⟨fun _ _ _ h h' e he => h' e (h e he)⟩

theorem tolerates_logStays (manifest : List ChunkRef) : Tolerates manifest LogStays where
  nodes _ _ _ he := he
  draw _ _ he := he
  append _ _ _ he := List.mem_append_left _ he
  version _ _ _ _ he := he
  refs _ _ _ _ he := he
  counts _ _ _ _ _ he := he

theorem deleteNodes_logStays (ids : List String) (s : Db) : LogStays s ((deleteNodes ids).runBody s).1 :=
  Proc.Writes.runBody (Proc.Writes.stmt fun _ _ _ he => he) s

theorem start_confined (be : Backend) (s₀ : Db) (calls : List SubmitCall) :
    Pool.Confined (fun _ => LogStays) (startOps be s₀ calls) := by
  refine Pool.Confined.start fun i prog hprog => ?_
  obtain ⟨call, -, rfl⟩ := List.mem_map.mp (List.mem_of_getElem? hprog)
  exact submitOp_tolerates (tolerates_logStays _)

/-! ### The invariant -/

open Heads

/-- Every vouched cursor is at or below the head, and so is what was asked for in every answer. -/
structure HeadsInv (folderId : String) (st : Heads) : Prop where
  confined : Pool.Confined (fun _ => LogStays) st.ops
  vouched : ∀ c ∈ st.vouched, c ≤ st.db.folderHeadSeq folderId
  above : ∀ since rows, OpenPull.delta since rows ∈ st.pulls → ∀ e ∈ rows, since < e.serverSeq
  answers : ∀ since response, (since, response) ∈ st.answers → since ≤ response.upToSeq

section Invariant

variable {folderId : String} {st st' : Heads}

theorem mem_vouched {c : ℕ} :
    c ∈ st.vouched ↔ c ∈ st.handed ∨ ∃ pull ∈ st.pulls, OpenPull.last pull = some c := by
  simp [Heads.vouched]

/-- A step that leaves the pulls and the answers alone, and the head at or above the vouched cursors. -/
theorem HeadsInv.moved (h : HeadsInv folderId st) {ops : Pool Db DbKey ApiError SubmitOpResponse}
    {passes : List (List ℕ)} (hconfined : Pool.Confined (fun _ => LogStays) ops)
    (hhead : ∀ c ∈ st.vouched, c ≤ ops.state.folderHeadSeq folderId) :
    HeadsInv folderId { st with ops, passes } :=
  ⟨hconfined, hhead, h.above, h.answers⟩

/-- The log stays, and the head with it. -/
theorem HeadsInv.stays (h : HeadsInv folderId st) {ops : Pool Db DbKey ApiError SubmitOpResponse}
    (hconfined : Pool.Confined (fun _ => LogStays) ops) (hstays : LogStays st.db ops.state) :
    HeadsInv folderId { st with ops } :=
  h.moved hconfined fun c hc => (h.vouched c hc).trans (folderHeadSeq_mono hstays)

/-- A pull that has read its rows: they end at or below the head. -/
theorem HeadsInv.pulled (h : HeadsInv folderId st) {pull : OpenPull}
    (hlast : ∀ c, pull.last = some c → c ≤ st.db.folderHeadSeq folderId)
    (habove : ∀ since rows, pull = .delta since rows → ∀ e ∈ rows, since < e.serverSeq) :
    HeadsInv folderId { st with pulls := st.pulls ++ [pull] } := by
  refine ⟨h.confined, fun c hc => ?_, fun since rows hmem => ?_, h.answers⟩
  · rcases mem_vouched.mp hc with hhanded | ⟨pull', hmem, hc'⟩
    · exact h.vouched c (mem_vouched.mpr (.inl hhanded))
    · rcases List.mem_append.mp hmem with hold | hnew
      · exact h.vouched c (mem_vouched.mpr (.inr ⟨pull', hold, hc'⟩))
      · rw [List.mem_singleton.mp hnew] at hc'
        exact hlast c hc'
  · rcases List.mem_append.mp hmem with hold | hnew
    · exact h.above since rows hold
    · exact habove since rows (List.mem_singleton.mp hnew).symm

/-- The end of a page is at or below the head. -/
theorem upToSeq_le_head {rows : List OpLogRow}
    (hlast : ∀ c, rows.getLast?.map OpLogRow.serverSeq = some c → c ≤ st.db.folderHeadSeq folderId) :
    (deltaResponse rows (st.db.folderHeadSeq folderId)).upToSeq ≤ st.db.folderHeadSeq folderId := by
  rw [deltaResponse]
  cases hl : rows.getLast? with
  | none => exact le_rfl
  | some l => exact hlast l.serverSeq (by rw [hl, Option.map_some])

/-- **An answer** ends at or above a cursor that had been handed out, and at or below the head. -/
theorem HeadsInv.received (h : HeadsInv folderId st) {k : ℕ} {pull : OpenPull} (hpull : st.pulls[k]? = some pull) :
    HeadsInv folderId
      ({ st with pulls := st.pulls.eraseIdx k }.receive (st.db.folderHeadSeq folderId) pull) := by
  have hmem : pull ∈ st.pulls := List.mem_of_getElem? hpull
  have hlast : ∀ c, pull.last = some c → c ≤ st.db.folderHeadSeq folderId := fun c hc =>
    h.vouched c (mem_vouched.mpr (.inr ⟨pull, hmem, hc⟩))
  have hvouched : ∀ up, up ≤ st.db.folderHeadSeq folderId → ∀ c,
      (c ∈ st.handed ++ [up] ∨ ∃ pull ∈ st.pulls.eraseIdx k, OpenPull.last pull = some c) →
      c ≤ st.db.folderHeadSeq folderId := by
    intro up hup c hc
    rcases hc with hhanded | ⟨pull', hmem', hc⟩
    · rcases List.mem_append.mp hhanded with hold | hnew
      · exact h.vouched c (mem_vouched.mpr (.inl hold))
      · rw [List.mem_singleton.mp hnew]
        exact hup
    · exact h.vouched c (mem_vouched.mpr (.inr ⟨pull', List.mem_of_mem_eraseIdx hmem', hc⟩))
  cases pull with
  | tree scopeNodeId rows =>
    exact ⟨h.confined, fun c hc => hvouched _ le_rfl c (mem_vouched.mp hc),
      fun since rows hdelta => h.above since rows (List.mem_of_mem_eraseIdx hdelta), h.answers⟩
  | delta since rows =>
    have hup : (deltaResponse rows (st.db.folderHeadSeq folderId)).upToSeq ≤ st.db.folderHeadSeq folderId :=
      upToSeq_le_head hlast
    refine ⟨h.confined, fun c hc => hvouched _ hup c (mem_vouched.mp hc),
      fun since rows hdelta => h.above since rows (List.mem_of_mem_eraseIdx hdelta), fun since' response hanswer => ?_⟩
    by_cases hissued : since ∈ st.handed
    · simp only [Heads.receive, hissued, if_true, List.mem_append, List.mem_singleton, Prod.mk.injEq] at hanswer
      rcases hanswer with hold | ⟨rfl, rfl⟩
      · exact h.answers since' response hold
      · -- the end of the page is above `since`, and the head is not below it
        have hhead := h.vouched since' (mem_vouched.mpr (.inl hissued))
        rw [deltaResponse]
        cases hl : rows.getLast? with
        | none => exact hhead
        | some l => exact (h.above since' rows hmem l (List.mem_of_getLast? hl)).le
    · simp only [Heads.receive, hissued, if_false] at hanswer
      exact h.answers since' response hanswer

/-- One event that meets the condition. -/
theorem HeadsInv.step {ev : HeadsEvent} (h : HeadsInv folderId st) (hok : Ok folderId st ev)
    (hs : Heads.step folderId st ev = some st') : HeadsInv folderId st' := by
  cases ev with
  | call i =>
    obtain ⟨ops, hops, rfl⟩ := Option.map_eq_some_iff.mp hs
    obtain ⟨hconfined, hstays⟩ := h.confined.step hops
    exact h.stays hconfined hstays
  | select args =>
    cases hs
    exact h.moved h.confined h.vouched
  | truncate k =>
    obtain ⟨seqs, hseqs, rfl⟩ := Option.map_eq_some_iff.mp hs
    refine h.moved h.confined ?_
    show ∀ c ∈ st.vouched, c ≤ ((deleteOps seqs).runBody st.db).1.folderHeadSeq folderId
    rcases runBody_deleteOps seqs st.db with hdrops | hsame
    · rw [hdrops]
      exact hok seqs hseqs
    · rw [hsame]
      exact h.vouched
  | purge ids =>
    cases hs
    exact h.stays h.confined (deleteNodes_logStays ids st.db)
  | rows scopeNodeId since =>
    cases hs
    refine h.pulled (fun c hc => ?_) fun since' rows hpull e he => ?_
    · obtain ⟨l, hl, rfl⟩ := Option.map_eq_some_iff.mp hc
      obtain ⟨hlog, hfolder, -⟩ := mem_deltaRows (List.mem_of_getLast? hl)
      exact le_folderHeadSeq hlog hfolder
    · cases hpull
      exact (mem_deltaRows he).2.2
  | tree scopeNodeId =>
    cases hs
    exact h.pulled (fun c hc => by cases hc) fun since rows hpull => by cases hpull
  | head k =>
    obtain ⟨pull, hpull, rfl⟩ := Option.map_eq_some_iff.mp hs
    exact h.received hpull

theorem HeadsInv.start (be : Backend) (s₀ : Db) (calls : List SubmitCall) :
    HeadsInv folderId (Heads.start be s₀ calls) where
  confined := start_confined be s₀ calls
  vouched c hc := by
    rcases mem_vouched.mp hc with hhanded | ⟨pull, hpull, -⟩
    · cases hhanded
    · cases hpull
  above since rows hmem := by cases hmem
  answers since response hmem := by cases hmem

end Invariant

/-- **Cursors advance.**  Calls of `submitOp`, truncations with any retention and batch size, purges and
pulls of any scopes, in any order.  Along every run in which each truncation leaves the folder an op at or
above every cursor that was, or is about to be, handed out: no answer ends below a cursor that had been. -/
theorem cursors_advance (be : Backend) (s₀ : Db) (calls : List SubmitCall) (folderId : String)
    (es : List HeadsEvent) (hok : Run.Along (Heads.step folderId) (Ok folderId) (Heads.start be s₀ calls) es) :
    Advances folderId (Run.run (Heads.step folderId) (Heads.start be s₀ calls) es) := by
  have hinv := Run.run_invariant (I := HeadsInv folderId) (fun _ _ _ h hok hs => h.step hok hs)
    (HeadsInv.start be s₀ calls) hok
  intro since response hmem
  have hle := hinv.answers since response hmem
  refine ⟨hle, fun m now hm => ?_⟩
  subst hm
  exact applyPage_cursor hle

/-! ### An idle folder -/

/-- A folder whose ops were applied at the given times. -/
def agedDb (times : List ℕ) : Db :=
  { raceDb with
    opLog := times.zipIdx.map fun p =>
      { serverSeq := p.2 + 1, folderId := "f", nodeId := "n", payload := .rename "a.txt", basedOnSeq := none,
        actorDeviceId := "d", appliedAt := p.1, request := 0 }
    lastSeq := times.length }

/-- A client pulls up to the head, a truncation follows, and the client pulls again. -/
def pullTruncatePull : List HeadsEvent :=
  [.rows "root" 0, .head 0, .select { now := 100, retentionMs := 90 }, .truncate 0, .rows "root" 2, .head 0]

/-- The last op of the folder is young enough to stay. -/
theorem cursors_advance_young :
    Advances "f" (Run.run (Heads.step "f") (Heads.start .pg (agedDb [5, 50]) []) pullTruncatePull) :=
  cursors_advance .pg (agedDb [5, 50]) [] "f" pullTruncatePull (by decide +kernel)

/-- **Nothing happened for longer than the retention period**: the log is empty, and the client that asks for
the ops above its cursor is sent back to 0. -/
theorem cursor_regresses :
    ¬ Advances "f" (Run.run (Heads.step "f") (Heads.start .pg (agedDb [5, 6]) []) pullTruncatePull) := by
  intro h
  have hanswers : (Run.run (Heads.step "f") (Heads.start .pg (agedDb [5, 6]) []) pullTruncatePull).answers =
      [(2, { ops := [], upToSeq := 0 })] := by decide +kernel
  have hmem : (2, { ops := [], upToSeq := 0 }) ∈
      (Run.run (Heads.step "f") (Heads.start .pg (agedDb [5, 6]) []) pullTruncatePull).answers := by
    rw [hanswers]
    exact List.mem_singleton.mpr rfl
  have hle := (h _ _ hmem).1
  simp at hle

end Valv.Client
