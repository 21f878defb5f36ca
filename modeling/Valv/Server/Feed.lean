import Valv.Server.Delta

/-!
# The delta feed of a root-scoped reader

A client that starts from a tree (or from `since = 0`) and then pulls page after page, beside
any number of `submitOp` calls.  Each request is two events, its row query and its head query;
a call moves one statement at a time, so on Postgres an op's `server_seq` is allocated before
the op is visible.

* `Feed.step`: the events.
* `FeedInv`: every op up to the cursor has been returned or is in the snapshot, and a request
  between its two queries has read every op it is about to vouch for.
* `feed_complete`: along every run in which ops become visible in the order of the feed and
  stay below the root, nothing is skipped and nothing comes twice.
* `feed_skips_commit`, `feed_skips_late_commit`: an op committed between the two queries, or
  committed late, is skipped.
-/

namespace Valv.Server

open Valv.Conc

/-! ### The reader -/

/-- A tree that the reader was given and, as a ghost, the database its rows were read from. -/
structure Snapshot where
  nodes : List NodeSnapshot
  seen : Db

/-- A request between its row query and its head query. The head it answers may be that of a later database than its
rows. -/
inductive Pending where
  | tree (rows : List NodeRow) (seen : Db)
  | delta (rows : List OpLogRow)

/-- The calls in flight, and one reader of the folder with what it has received so far. -/
structure Feed where
  ops : Pool Db DbKey ApiError SubmitOpResponse
  started : Bool := false
  cursor : ℕ := 0
  received : List OpLogEntry := []
  snapshot : Option Snapshot := none
  pending : Option Pending := none

inductive FeedEvent where
  /-- Call `i` makes its next statement. -/
  | call (i : ℕ)
  /-- The row query of `pullTree`, only as the first request. -/
  | tree
  /-- The row query of `pullDelta` with `since` the cursor. -/
  | rows
  /-- The head query of the request, and its answer. -/
  | head

/-- An op with this `server_seq` may become visible while the request is between its queries:
the request is a page that is not empty, and the op is above its last row. -/
def Pending.Admits (m : ℕ) : Pending → Bool
  | .tree _ _ => false
  | .delta rows => rows.getLast?.any fun l => l.serverSeq < m

namespace Feed

variable (folderId root : String)

/-- The reader takes the answer to its request. -/
def receive (st : Feed) (head : ℕ) : Pending → Feed
  | .tree rows seen =>
    let response := treeResponse root rows head
    { st with pending := none, snapshot := some { nodes := response.nodes, seen },
              cursor := response.upToSeq }
  | .delta rows =>
    let response := deltaResponse rows head
    { st with pending := none, received := st.received ++ response.ops,
              cursor := response.upToSeq }

def step (st : Feed) : FeedEvent → Option Feed
  | .call i => (st.ops.step i).map fun ops => { st with ops }
  | .tree =>
    if st.started then none
    else some { st with started := true,
                        pending := some (.tree (st.ops.state.treeRows folderId root) st.ops.state) }
  | .rows =>
    if st.pending.isSome then none
    else some { st with started := true,
                        pending := some (.delta (st.ops.state.deltaRows folderId root st.cursor)) }
  | .head => st.pending.map (st.receive root (st.ops.state.folderHeadSeq folderId))

/-- The calls at their first statement, and a reader that has not started. -/
def start (be : Backend) (s₀ : Db) (calls : List SubmitCall) : Feed :=
  { ops := startOps be s₀ calls }

/-! ### What a watermark promises and when the promise holds -/

/-- The snapshot was read after the op was committed, and shows the op's node as it was then. -/
def Reflects (sn : Snapshot) (e : OpLogRow) : Prop :=
  e ∈ sn.seen.opLog ∧ ∀ r, sn.seen.node e.nodeId = some r → r.snapshot root ∈ sn.nodes

/-- Every op of the folder up to the cursor was returned, exactly once, or is reflected in
the snapshot; and nothing else was returned. -/
structure Complete (st : Feed) : Prop where
  covered : ∀ e ∈ st.ops.state.opLog, e.folderId = folderId → e.serverSeq ≤ st.cursor →
    e.entry ∈ st.received ∨ ∃ sn, st.snapshot = some sn ∧ Reflects root sn e
  once : (st.received.map OpLogEntry.serverSeq).Nodup
  only : ∀ x ∈ st.received, ∃ e ∈ st.ops.state.opLog, e.folderId = folderId ∧ x = e.entry

/-- The ops of the folder that the next statement of call `i` makes visible. -/
def visible (st : Feed) (i : ℕ) : List OpLogRow :=
  ((st.ops.step i).elim [] fun ops => ops.state.opLog).filter fun e =>
    e.folderId = folderId && e ∉ st.ops.state.opLog

/-- An op may become visible: it is above the cursor and above what the open request has
read, and the open request is neither a tree nor an empty page. -/
def Admits (st : Feed) (m : ℕ) : Bool := st.cursor < m && st.pending.all (Pending.Admits m)

/-- The condition on an event, in the state before it. -/
def Ok (st : Feed) : FeedEvent → Prop
  | .call i => ∀ e ∈ st.visible folderId i, st.Admits e.serverSeq
  | .tree => ∀ e ∈ st.ops.state.opLog, e.folderId = folderId →
      (st.ops.state.node e.nodeId).all fun r =>
        r.folderId = folderId && r.nodeId ∈ st.ops.state.subtree root
  | .rows => ∀ e ∈ st.ops.state.opLog, e.folderId = folderId → st.cursor < e.serverSeq →
      e.nodeId ∈ st.ops.state.subtree root
  | .head => True

instance (st : Feed) : ∀ ev, Decidable (Ok folderId root st ev)
  | .call i => inferInstanceAs (Decidable (∀ e ∈ st.visible folderId i, st.Admits e.serverSeq = true))
  | .tree => inferInstanceAs (Decidable (∀ e ∈ st.ops.state.opLog, e.folderId = folderId →
      ((st.ops.state.node e.nodeId).all fun r =>
        r.folderId = folderId && r.nodeId ∈ st.ops.state.subtree root) = true))
  | .rows => inferInstanceAs (Decidable (∀ e ∈ st.ops.state.opLog, e.folderId = folderId →
      st.cursor < e.serverSeq → e.nodeId ∈ st.ops.state.subtree root))
  | .head => isTrue True.intro

end Feed

/-! ### The invariant -/

open Feed

variable {be : Backend} {s₀ : Db} {folderId root : String}

/-- What a request between its queries knows. -/
def PendingInv (folderId : String) (st : Feed) : Pending → Prop
  | .tree rows seen => st.cursor = 0 ∧ st.received = [] ∧
      (∀ e ∈ st.ops.state.opLog, e.folderId = folderId → e ∈ seen.opLog ∧
        ∀ r, seen.node e.nodeId = some r → r ∈ rows)
  | .delta rows =>
      (∀ e ∈ rows, e ∈ st.ops.state.opLog ∧ e.folderId = folderId ∧ st.cursor < e.serverSeq) ∧
      (rows.Pairwise fun a b => a.serverSeq < b.serverSeq) ∧
      ∀ e ∈ st.ops.state.opLog, e.folderId = folderId → st.cursor < e.serverSeq →
        (∀ l, rows.getLast? = some l → e.serverSeq ≤ l.serverSeq) → e ∈ rows

structure FeedInv (be : Backend) (s₀ : Db) (folderId root : String) (st : Feed) : Prop where
  running : OpsRunning be s₀ st.ops
  drawn : st.ops.state.SeqsDrawn
  complete : Complete folderId root st
  below : ∀ x ∈ st.received, x.serverSeq ≤ st.cursor
  fresh : st.started = false → st.cursor = 0 ∧ st.received = [] ∧ st.pending = none
  cursorHead : st.cursor ≤ st.ops.state.folderHeadSeq folderId
  pending : ∀ p, st.pending = some p → PendingInv folderId st p

/-! ### One event -/

/-- A statement of a call: what becomes visible is above everything the reader has seen. -/
theorem FeedInv.call {st : Feed} {i : ℕ} {ops : Pool Db DbKey ApiError SubmitOpResponse}
    (h : FeedInv be s₀ folderId root st) (hok : Ok folderId root st (.call i))
    (hs : st.ops.step i = some ops) : FeedInv be s₀ folderId root { st with ops } := by
  obtain ⟨hrun, hgrow⟩ := h.running.step hs
  have hnew : ∀ e ∈ ops.state.opLog, e.folderId = folderId → e ∈ st.ops.state.opLog ∨
      (st.cursor < e.serverSeq ∧ ∀ p, st.pending = some p → p.Admits e.serverSeq) := by
    intro e he hf
    by_cases hold : e ∈ st.ops.state.opLog
    · exact .inl hold
    · have hvis : e ∈ st.visible folderId i := by
        rw [visible, hs]
        simp [he, hf, hold]
      have hadm := hok e hvis
      simp only [Admits, Bool.and_eq_true, decide_eq_true_eq, Option.all_eq_true] at hadm
      exact .inr hadm
  refine ⟨hrun, hgrow.drawn h.drawn, ⟨?_, h.complete.once, ?_⟩, h.below, h.fresh,
    h.cursorHead.trans (folderHeadSeq_mono hgrow.mem), ?_⟩
  · intro e he hf hle
    rcases hnew e he hf with hold | hadm
    · exact h.complete.covered e hold hf hle
    · have hlt : st.cursor < e.serverSeq := hadm.1
      exact absurd hle (Nat.not_le_of_lt hlt)
  · intro x hx
    obtain ⟨e, he, hf, hxe⟩ := h.complete.only x hx
    exact ⟨e, hgrow.mem e he, hf, hxe⟩
  · intro p hp
    have hinv := h.pending p hp
    cases p with
    | tree rows seen =>
      refine ⟨hinv.1, hinv.2.1, fun e he hf => ?_⟩
      rcases hnew e he hf with hold | hadm
      · exact hinv.2.2 e hold hf
      · exact absurd (hadm.2 _ hp) (by simp [Pending.Admits])
    | delta rows =>
      refine ⟨fun e he => ?_, hinv.2.1, fun e he hf hlt hlast => ?_⟩
      · obtain ⟨hmem, hf, hlt⟩ := hinv.1 e he
        exact ⟨hgrow.mem e hmem, hf, hlt⟩
      · rcases hnew e he hf with hold | hadm
        · exact hinv.2.2 e hold hf hlt hlast
        · have hpage := hadm.2 _ hp
          simp only [Pending.Admits, Option.any_eq_true, decide_eq_true_eq] at hpage
          obtain ⟨l, hl, hgt⟩ := hpage
          have hle := hlast l hl
          omega

theorem FeedInv.tree {st : Feed} (h : FeedInv be s₀ folderId root st)
    (hok : Ok folderId root st .tree) (hs : st.started = false) :
    FeedInv be s₀ folderId root { st with
      started := true
      pending := some (.tree (st.ops.state.treeRows folderId root) st.ops.state) } := by
  refine ⟨h.running, h.drawn, ⟨h.complete.covered, h.complete.once, h.complete.only⟩, h.below, nofun,
    h.cursorHead, ?_⟩
  rintro p ⟨⟩
  refine ⟨(h.fresh hs).1, (h.fresh hs).2.1, fun e he hf => ⟨he, fun r hr => ?_⟩⟩
  have hrow := hok e he hf
  rw [hr] at hrow
  simp only [Option.all_some, Bool.and_eq_true, decide_eq_true_eq] at hrow
  obtain ⟨hfolder, hbelow⟩ := hrow
  exact mem_treeRows.mpr ⟨Table.mem_of_lookup hr, hfolder, hbelow⟩

theorem FeedInv.rows {st : Feed} (h : FeedInv be s₀ folderId root st)
    (hok : Ok folderId root st .rows) :
    FeedInv be s₀ folderId root { st with
      started := true
      pending := some (.delta (st.ops.state.deltaRows folderId root st.cursor)) } := by
  refine ⟨h.running, h.drawn, ⟨h.complete.covered, h.complete.once, h.complete.only⟩, h.below, nofun,
    h.cursorHead, ?_⟩
  rintro p ⟨⟩
  refine ⟨fun e he => mem_deltaRows he, deltaRows_increasing h.drawn.nodup, fun e he hf hlt hlast => ?_⟩
  exact deltaRows_complete h.drawn.nodup (mem_servable.mpr ⟨he, hf, hlt, hok e he hf hlt⟩) hlast

/-- The answer to a tree request: everything up to the head was in the log when the rows
were read. -/
theorem FeedInv.receive_tree {st : Feed} {rows : List NodeRow} {seen : Db}
    (h : FeedInv be s₀ folderId root st) (hp : st.pending = some (.tree rows seen)) :
    FeedInv be s₀ folderId root
      (st.receive root (st.ops.state.folderHeadSeq folderId) (.tree rows seen)) := by
  obtain ⟨-, hnil, hseen⟩ := h.pending _ hp
  have hnone : st.received = [] := hnil
  refine ⟨h.running, h.drawn, ⟨?_, h.complete.once, h.complete.only⟩, ?_, ?_, le_rfl, nofun⟩
  · intro e he hf _
    obtain ⟨hmem, hrow⟩ := hseen e he hf
    refine .inr ⟨_, rfl, hmem, fun r hr => ?_⟩
    exact List.mem_map_of_mem (hrow r hr)
  · intro x hx
    have hx' : x ∈ st.received := hx
    rw [hnone] at hx'
    cases hx'
  · intro hfalse
    rw [(h.fresh hfalse).2.2] at hp
    cases hp

theorem getLast_le {rows : List OpLogRow} {l e : OpLogRow}
    (h : rows.Pairwise fun a b => a.serverSeq < b.serverSeq) (hl : rows.getLast? = some l)
    (he : e ∈ rows) : e.serverSeq ≤ l.serverSeq := by
  obtain ⟨init, rfl⟩ := List.getLast?_eq_some_iff.mp hl
  rcases List.mem_append.mp he with he | he
  · exact (List.pairwise_append.mp h).2.2 e he l (by simp) |>.le
  · rw [List.mem_singleton.mp he]

/-- The cursor after a page is at or above every op of the page, and never moves back. -/
theorem FeedInv.upToSeq_le {st : Feed} {rows : List OpLogRow}
    (h : FeedInv be s₀ folderId root st) (hp : st.pending = some (.delta rows)) :
    st.cursor ≤ (deltaResponse rows (st.ops.state.folderHeadSeq folderId)).upToSeq ∧
      ∀ e ∈ rows, e.serverSeq ≤ (deltaResponse rows (st.ops.state.folderHeadSeq folderId)).upToSeq := by
  obtain ⟨hrows, hinc, -⟩ := h.pending _ hp
  rw [deltaResponse]
  cases hl : rows.getLast? with
  | none =>
    have hnil : rows = [] := List.getLast?_eq_none_iff.mp hl
    subst hnil
    exact ⟨h.cursorHead, nofun⟩
  | some l =>
    have hlt : st.cursor < l.serverSeq := (hrows l (List.mem_of_getLast? hl)).2.2
    exact ⟨hlt.le, fun e he => getLast_le hinc hl he⟩

/-- The answer to a page. -/
theorem FeedInv.receive_delta {st : Feed} {rows : List OpLogRow}
    (h : FeedInv be s₀ folderId root st) (hp : st.pending = some (.delta rows)) :
    FeedInv be s₀ folderId root
      (st.receive root (st.ops.state.folderHeadSeq folderId) (.delta rows)) := by
  obtain ⟨hrows, hinc, hall⟩ := h.pending _ hp
  obtain ⟨hmono, hcursor⟩ := h.upToSeq_le hp
  have hhead : (deltaResponse rows (st.ops.state.folderHeadSeq folderId)).upToSeq ≤
      st.ops.state.folderHeadSeq folderId := by
    rw [deltaResponse]
    cases hl : rows.getLast? with
    | none => exact le_rfl
    | some l =>
      obtain ⟨hmem, hf, -⟩ := hrows l (List.mem_of_getLast? hl)
      exact le_folderHeadSeq hmem hf
  refine ⟨h.running, h.drawn, ⟨?_, ?_, ?_⟩, ?_, ?_, hhead, nofun⟩
  · intro e he hf hle
    by_cases hold : e.serverSeq ≤ st.cursor
    · rcases h.complete.covered e he hf hold with hr | hsn
      · exact .inl (List.mem_append_left _ hr)
      · exact .inr hsn
    · -- above the old cursor and vouched for now: the page has it
      have hlast : ∀ l, rows.getLast? = some l → e.serverSeq ≤ l.serverSeq := fun l hl => by
        have hup : (deltaResponse rows (st.ops.state.folderHeadSeq folderId)).upToSeq = l.serverSeq := by
          rw [deltaResponse, hl]
          rfl
        exact hup ▸ hle
      have hmem : e ∈ rows := hall e he hf (Nat.lt_of_not_le hold) hlast
      exact .inl (List.mem_append_right _ (List.mem_map_of_mem hmem))
  · have hnew : ((rows.map OpLogRow.entry).map OpLogEntry.serverSeq).Nodup := by
      rw [List.map_map]
      exact List.pairwise_map.mpr (hinc.imp fun hlt => Nat.ne_of_lt hlt)
    change ((st.received ++ rows.map OpLogRow.entry).map OpLogEntry.serverSeq).Nodup
    rw [List.map_append]
    refine List.nodup_append.mpr ⟨h.complete.once, hnew, fun a ha b hb => ?_⟩
    obtain ⟨x, hx, rfl⟩ := List.mem_map.mp ha
    obtain ⟨y, hy, rfl⟩ := List.mem_map.mp hb
    obtain ⟨e, he, rfl⟩ := List.mem_map.mp hy
    have hxle : x.serverSeq ≤ st.cursor := h.below x hx
    have hlt : st.cursor < e.entry.serverSeq := (hrows e he).2.2
    omega
  · intro x hx
    rcases List.mem_append.mp hx with hx | hx
    · exact h.complete.only x hx
    · obtain ⟨e, he, rfl⟩ := List.mem_map.mp hx
      exact ⟨e, (hrows e he).1, (hrows e he).2.1, rfl⟩
  · intro x hx
    rcases List.mem_append.mp hx with hx | hx
    · exact (h.below x hx).trans hmono
    · obtain ⟨e, he, rfl⟩ := List.mem_map.mp hx
      exact hcursor e he
  · intro hfalse
    rw [(h.fresh hfalse).2.2] at hp
    cases hp

/-- **One event** of a run that meets the condition. -/
theorem FeedInv.step {st st' : Feed} {ev : FeedEvent} (h : FeedInv be s₀ folderId root st)
    (hok : Ok folderId root st ev) (hs : st.step folderId root ev = some st') :
    FeedInv be s₀ folderId root st' := by
  cases ev with
  | call i =>
    obtain ⟨ops, hops, rfl⟩ := Option.map_eq_some_iff.mp hs
    exact h.call hok hops
  | tree =>
    rw [Feed.step] at hs
    split at hs
    · cases hs
    · next hstart =>
      rw [Option.some.injEq] at hs
      subst hs
      exact h.tree hok (Bool.eq_false_iff.mpr hstart)
  | rows =>
    rw [Feed.step] at hs
    split at hs
    · cases hs
    · rw [Option.some.injEq] at hs
      subst hs
      exact h.rows hok
  | head =>
    obtain ⟨p, hp, rfl⟩ := Option.map_eq_some_iff.mp hs
    cases p with
    | tree rows seen => exact h.receive_tree hp
    | delta rows => exact h.receive_delta hp

variable (be) in
theorem FeedInv.start (h₀ : s₀.SeqsValid) (hpos : ∀ e ∈ s₀.opLog, 0 < e.serverSeq)
    (calls : List SubmitCall) : FeedInv be s₀ folderId root (Feed.start be s₀ calls) where
  running := OpsRunning.start h₀ calls
  drawn := h₀.drawn
  complete := by
    refine ⟨fun e he _ hle => ?_, List.nodup_nil, nofun⟩
    have hlt : 0 < e.serverSeq := hpos e he
    have hzero : e.serverSeq ≤ 0 := hle
    omega
  below := nofun
  fresh _ := ⟨rfl, rfl, rfl⟩
  cursorHead := Nat.zero_le _
  pending := nofun

/-- **Feed completeness.**  Calls of `submitOp` and one reader, in any order.  Along every run
in which an op of the folder becomes visible only above the reader's cursor and above the
rows its open request has read (and not at all while a tree or an empty page is open), and
in which, when rows are read, the ops that are still to come are about nodes below the root:
the reader has, exactly once or through its snapshot, every op up to its cursor. -/
theorem feed_complete (be : Backend) (s₀ : Db) (h₀ : s₀.SeqsValid)
    (hpos : ∀ e ∈ s₀.opLog, 0 < e.serverSeq) (calls : List SubmitCall) (folderId root : String)
    (es : List FeedEvent)
    (hok : Run.Along (Feed.step folderId root) (Ok folderId root) (Feed.start be s₀ calls) es) :
    Complete folderId root (Run.run (Feed.step folderId root) (Feed.start be s₀ calls) es) :=
  (Run.run_invariant (fun _ _ _ h hok hs => FeedInv.step h hok hs)
    (FeedInv.start be h₀ hpos calls) hok).complete

/-! ### Two runs that skip an op -/

/-- The reader starts from the tree, a call commits, and the reader pulls a page. -/
def pullAfterCommit : List FeedEvent :=
  [.tree, .head] ++ List.replicate 20 (.call 0) ++ [.rows, .head]

/-- A run that meets the condition. -/
theorem feed_complete_pullAfterCommit :
    Complete "f" "root" (Run.run (Feed.step "f" "root") (Feed.start .sqlite raceDb [raceCall "v1"])
      pullAfterCommit) :=
  feed_complete .sqlite raceDb raceDb_seqsValid (by decide) [raceCall "v1"] "f" "root"
    pullAfterCommit (by decide +kernel)

/-- A new version of another file of `raceDb`. -/
def otherCall : SubmitCall :=
  { raceCall "w" with op := .mutate "m" 0 (.newVersion "w" "h" 0 []) }

def twoFilesDb : Db :=
  { raceDb with nodes := raceDb.nodes ++
      [{ nodeId := "m", folderId := "f", parentId := some "root", name := "b.txt", type := .file }] }

/-- The reader has lost an op: it is at or below the cursor and was not returned, and there is no snapshot that
could show it. -/
def Skips (folderId : String) (st : Feed) : Prop :=
  ∃ e ∈ st.ops.state.opLog, e.folderId = folderId ∧ e.serverSeq ≤ st.cursor ∧
    e.entry ∉ st.received ∧ st.snapshot.isNone

instance (folderId : String) (st : Feed) : Decidable (Skips folderId st) :=
  inferInstanceAs (Decidable (∃ e ∈ st.ops.state.opLog, e.folderId = folderId ∧
    e.serverSeq ≤ st.cursor ∧ e.entry ∉ st.received ∧ st.snapshot.isNone = true))

theorem Skips.not_complete {st : Feed} (h : Skips folderId st) : ¬ Complete folderId root st := by
  intro hc
  obtain ⟨e, he, hf, hle, hnot, hnone⟩ := h
  rcases hc.covered e he hf hle with hr | ⟨sn, hsn, -⟩
  · exact hnot hr
  · rw [hsn] at hnone
    cases hnone

/-- A reader on SQLite; the call commits between the two queries of an empty page. -/
def midRequest : Feed :=
  Run.run (Feed.step "f" "root") (Feed.start .sqlite raceDb [raceCall "v1"])
    ([.rows] ++ List.replicate 20 (.call 0) ++ [.head])

/-- A reader on Postgres; the first call has drawn its `server_seq`, the second one commits,
the reader pulls, and only then the first one commits. -/
def lateCommit : Feed :=
  Run.run (Feed.step "f" "root") (Feed.start .pg twoFilesDb [raceCall "v1", otherCall])
    (List.replicate 14 (.call 0) ++ List.replicate 30 (.call 1) ++ [.rows, .head] ++
      List.replicate 20 (.call 0))

/-- An op committed between the two queries of a request, or after a later one was pulled,
is never returned: the cursor has passed it. -/
theorem feed_skips_ops :
    ¬ Complete "f" "root" midRequest ∧ ¬ Complete "f" "root" lateCommit :=
  ⟨Skips.not_complete (by decide +kernel), Skips.not_complete (by decide +kernel)⟩

end Valv.Server
