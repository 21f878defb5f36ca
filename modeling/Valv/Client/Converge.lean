import Valv.Client.Submit
import Valv.Lib.Run

/-!
# Convergence of the mirror

One device that starts from a tree snapshot, pulls pages and records the answers to its own
submissions, while any devices submit ops to its folder.

* `SyncState.step`: the server, the mirror, the rows and answers the device holds in memory.
* `RecordOk`, `SubmitOk`, `PullOk`: the conditions on a step.
* `SyncInv.step`: one step keeps every row of the mirror on the server's history of its node.
* `mirror_converges`: so the mirror is the server's at the head of the folder.
* `mirror_diverges`: without the conditions it is not.
-/

namespace Valv.Client

open Valv.Conc Valv.Table Valv.Server Valv.Replica

/-! ### The device -/

/-- The server's database flavour, and the folder that is mirrored, with its root node. -/
structure SyncConfig where
  be : Backend
  folderId : String
  root : String

/-- The server, the mirror, the rows the device holds in memory and the answers it has not
recorded. -/
structure SyncState where
  server : Db
  mirror : Mirror
  held : List LocalNode := []
  outstanding : List Reply := []

inductive SyncEvent where
  /-- A call of another device. -/
  | call (call : SubmitCall)
  /-- A page of `pull_delta`; the connection is locked from the request to its last op. -/
  | pull (now : ℕ)
  /-- A row of the mirror is read into memory. -/
  | hold (nodeId : String)
  /-- A call of the device; a rename or a move has a row in memory. -/
  | submit (call : SubmitCall) (row : Option ℕ)
  /-- An answer is recorded. -/
  | record (i now : ℕ)
  /-- An answer is lost, or not recorded. -/
  | drop (i : ℕ)

/-- The op is submitted for a row in memory, and recorded by writing that row. -/
def ofRow : SubmitOpRequest → Bool
  | .mutate _ _ (.rename _) => true
  | .mutate _ _ (.move _) => true
  | _ => false

/-- The row in memory of a rename or a move. -/
def SyncState.heldRow (st : SyncState) (op : SubmitOpRequest) (row : Option ℕ) : Option LocalNode :=
  if ofRow op then (row.bind fun k => st.held[k]?).filter fun r => r.nodeId = op.nodeId else none

/-- A call of the device, answered. -/
def SyncState.submit (c : SyncConfig) (st : SyncState) (call : SubmitCall) (row : Option ℕ) : SyncState :=
  let served := serve c.be call st.server
  let row := submittedRow call.op (st.heldRow call.op row) served.2
  { st with
    server := served.1
    held := st.held ++ row.toList
    outstanding := st.outstanding ++ [{ op := call.op, row, answer := served.2 }] }

def SyncState.step (c : SyncConfig) (st : SyncState) : SyncEvent → Option SyncState
  | .call call => some { st with server := (serve c.be call st.server).1 }
  | .pull now => some { st with mirror := (st.mirror.pullPage now st.server c.folderId c.root).1 }
  | .hold nodeId => (st.mirror.getNode nodeId).map fun r => { st with held := st.held ++ [r] }
  | .submit call row => some (st.submit c call row)
  | .record i now => st.outstanding[i]?.map fun reply =>
      { st with mirror := st.mirror.record c.folderId now reply, outstanding := st.outstanding.eraseIdx i }
  | .drop i => some { st with outstanding := st.outstanding.eraseIdx i }

/-- The device starts from a tree snapshot. -/
def SyncState.start (c : SyncConfig) (s : Db) (m : Mirror) : SyncState where
  server := s
  mirror := m.treeResync s c.folderId c.root

/-- What has to hold at the snapshot: the folder is mounted, every node of it is below its root,
and the mirror's rows of other folders are about nodes of other folders. -/
structure SyncStart (c : SyncConfig) (s : Db) (m : Mirror) : Prop where
  mounted : (lookup LocalMount.folderId c.folderId m.mounts).isSome
  root : ∀ r ∈ s.node c.root, r.parentId = none
  below : ∀ r ∈ s.nodes, r.folderId = c.folderId → r.nodeId ∈ s.subtree c.root
  others : ∀ r ∈ m.nodes, r.folderId ≠ c.folderId → ∃ r' ∈ s.node r.nodeId, r'.folderId ≠ c.folderId

/-! ### Convergence -/

/-- The mirror's row has the place, the life, the version and the number that the server's row has. -/
def SameRow (x : LocalNode) (r : NodeRow) : Prop :=
  x.parentId = r.parentId ∧ x.name = r.name ∧ x.deletedAt.isSome = r.deletedAt.isSome ∧
    x.currentVersionId = r.currentVersionId ∧ x.serverSeq = r.serverSeq

instance (x : LocalNode) (r : NodeRow) : Decidable (SameRow x r) :=
  inferInstanceAs (Decidable (_ ∧ _ ∧ _ ∧ _ ∧ _))

/-- With nothing outstanding and the cursor at the head, every node of the folder has the same
row on both sides. -/
def SyncState.Converged (c : SyncConfig) (st : SyncState) : Prop :=
  st.outstanding = [] → st.mirror.getCursor c.folderId = st.server.folderHeadSeq c.folderId →
    ∀ r ∈ st.server.nodes, r.folderId = c.folderId → ∃ x ∈ st.mirror.getNode r.nodeId, SameRow x r

instance (c : SyncConfig) (st : SyncState) : Decidable (st.Converged c) :=
  inferInstanceAs (Decidable (_ → _ → ∀ _ ∈ _, _ → ∃ _ ∈ _, _))

/-! ### Conditions -/

/-- The payload a request is logged with, by its answer. -/
def loggedPayload (op : SubmitOpRequest) (response : SubmitOpResponse) : OpPayload :=
  match op, response with
  | .create nodeId parentId name type, _ => .create nodeId parentId name type
  | .mutate _ _ m, .conflictCopy _ _ conflictVersionId => m.logged conflictVersionId true
  | .mutate _ _ m, _ => m.logged "" false

/-- The `server_seq` of the op an answer is about, if one was committed. -/
def committedSeq : SubmitOpResponse → Option ℕ
  | .applied serverSeq _ => some serverSeq
  | .conflictCopy serverSeq _ _ => some serverSeq
  | .superseded _ => none

/-- The answer is recorded by an `UPDATE` of the mirror's row. -/
def updatesRow : SubmitOpRequest → Bool
  | .mutate _ _ (.newVersion _ _ _ _) => true
  | .mutate _ _ .delete => true
  | _ => false

/-- The ops of a node between two `server_seq`s write no other columns than these. -/
def Overwritten (s : Db) (folderId nodeId : String) (written : List Field) (low high : ℕ) : Prop :=
  ∀ e ∈ s.opLog, e.folderId = folderId → e.nodeId = nodeId → low < e.serverSeq → e.serverSeq < high →
    ∀ f ∈ fields e.payload, f ∈ written

instance (s : Db) (folderId nodeId : String) (written : List Field) (low high : ℕ) :
    Decidable (Overwritten s folderId nodeId written low high) := inferInstanceAs (Decidable (∀ _ ∈ _, _))

/-- An answer is recorded before any later op of the node is pulled, and what it advances the row
past writes nothing that the answer does not write. -/
def RecordOk (c : SyncConfig) (st : SyncState) (reply : Reply) : Prop :=
  ∀ response ∈ reply.answer.toOption, ∀ seq ∈ committedSeq response,
    (∀ e ∈ st.server.opLog, e.folderId = c.folderId → e.nodeId = reply.op.nodeId → seq < e.serverSeq →
      st.mirror.getCursor c.folderId < e.serverSeq) ∧
    (updatesRow reply.op → ∀ r ∈ st.mirror.getNode reply.op.nodeId,
      Overwritten st.server c.folderId reply.op.nodeId (fields (loggedPayload reply.op response))
        r.serverSeq seq)

instance (c : SyncConfig) (st : SyncState) (reply : Reply) : Decidable (RecordOk c st reply) :=
  inferInstanceAs (Decidable (∀ _ ∈ _, ∀ _ ∈ _, _ ∧ (_ → ∀ _ ∈ _, _)))

/-- The call is about the folder, and an applied rename or move is of a row that misses nothing
but what it writes. -/
def SubmitOk (c : SyncConfig) (st : SyncState) (call : SubmitCall) (row : Option ℕ) : Prop :=
  st.server.Admits call ∧ call.folderId = c.folderId ∧
    ∀ r ∈ st.heldRow call.op row, isApplied (serve c.be call st.server).2 →
      Overwritten st.server c.folderId call.op.nodeId (fields (loggedPayload call.op (.superseded 0)))
        r.serverSeq (st.server.lastSeq + 1)

instance (c : SyncConfig) (st : SyncState) (call : SubmitCall) (row : Option ℕ) :
    Decidable (SubmitOk c st call row) := inferInstanceAs (Decidable (_ ∧ _ ∧ ∀ _ ∈ _, _ → _))

/-- When a page is read, every op of the folder above the cursor is about a node below the root. The endpoint leaves
others out, and the cursor passes them. -/
def PullOk (c : SyncConfig) (st : SyncState) : Prop :=
  ∀ e ∈ st.server.opLog, e.folderId = c.folderId → st.mirror.getCursor c.folderId < e.serverSeq →
    e.nodeId ∈ st.server.subtree c.root

instance (c : SyncConfig) (st : SyncState) : Decidable (PullOk c st) :=
  inferInstanceAs (Decidable (∀ _ ∈ _, _))

/-- The condition on an event. -/
def SyncOk (c : SyncConfig) (st : SyncState) : SyncEvent → Prop
  | .call call => st.server.Admits call ∧ call.folderId = c.folderId
  | .pull _ => PullOk c st
  | .submit call row => SubmitOk c st call row
  | .record i _ => ∀ reply ∈ st.outstanding[i]?, RecordOk c st reply
  | .hold _ | .drop _ => True

instance (c : SyncConfig) (st : SyncState) (ev : SyncEvent) : Decidable (SyncOk c st ev) :=
  match ev with
  | .call _ => inferInstanceAs (Decidable (_ ∧ _))
  | .pull _ => inferInstanceAs (Decidable (PullOk c st))
  | .submit call row => inferInstanceAs (Decidable (SubmitOk c st call row))
  | .record _ _ => inferInstanceAs (Decidable (∀ _ ∈ _, _))
  | .hold _ | .drop _ => isTrue True.intro

/-! ### What a call commits -/

/-- A call has appended the op `e`. -/
structure Appended (s s' : Db) (e : OpLogRow) : Prop where
  opLog : s'.opLog = s.opLog ++ [e]
  seq : e.serverSeq = s.lastSeq + 1
  lastSeq : s'.lastSeq = s.lastSeq + 1
  other : ∀ m, m ≠ e.nodeId → s'.node m = s.node m
  row : (∃ r r', s.node e.nodeId = some r ∧ s'.node e.nodeId = some r' ∧ r'.folderId = r.folderId ∧
      serverCopy r' = putEntry (serverCopy r) e) ∨
    (s.node e.nodeId = none ∧ isCreate e.entry = true ∧ ∃ r', s'.node e.nodeId = some r' ∧
      r'.folderId = e.folderId ∧ ∀ z, serverCopy r' = putEntry z e)

section Served

variable {call : SubmitCall} {s s' : Db} {a : SubmitOpResponse}

/-- **The answer tells the op**: its number and its payload, and for an applied op its node. -/
theorem Served.appended (h : Served call s s' a) :
    (Refused s s' ∧ committedSeq a = none) ∨ ∃ e, Appended s s' e ∧ e.folderId = call.folderId ∧
      e.nodeId = call.op.nodeId ∧ committedSeq a = some e.serverSeq ∧
      e.payload = loggedPayload call.op a ∧ ∀ q n, a = .applied q n → n = call.op.nodeId := by
  cases h with
  | superseded seq h => exact .inl ⟨h, rfl⟩
  | created deviceId n parentId name type hop hnew hparent hname h =>
    rw [hop]
    refine .inr ⟨_, ⟨h.opLog, rfl, h.lastSeq, h.other, .inr ⟨hnew, rfl, _, h.node, rfl, fun z => ?_⟩⟩,
      rfl, rfl, rfl, rfl, fun q n' ha => by cases ha; rfl⟩
    exact serverCopy_created call n parentId name type
      (opLogRow call n deviceId (.create n parentId name type) none s.now (s.lastSeq + 1)) rfl z
  | applied deviceId n b m r hop hr hb hname hchunks h =>
    rw [hop]
    have hfolder : (m.applyRow call.now r).folderId = r.folderId := by cases m <;> rfl
    refine .inr ⟨_, ⟨h.opLog, rfl, h.lastSeq, h.other, .inl ⟨r, _, hr, h.node, hfolder, ?_⟩⟩,
      rfl, rfl, rfl, ?_, fun q n' ha => by cases ha; rfl⟩
    · exact serverCopy_applied m call.newId call.now r
        (opLogRow call n deviceId (m.logged call.newId false) (some b) s.now (s.lastSeq + 1)) rfl
    · cases m <;> rfl
  | conflictCopy deviceId n b versionId contentHash sizeBytes manifest r hop hr hb hchunks h =>
    rw [hop]
    refine .inr ⟨_, ⟨h.opLog, rfl, h.lastSeq, h.other, .inl ⟨r, _, hr, h.node, rfl, ?_⟩⟩,
      rfl, rfl, rfl, rfl, nofun⟩
    exact serverCopy_conflict r (opLogRow call n deviceId
      (.newVersion call.newId contentHash sizeBytes manifest true) (some b) s.now (s.lastSeq + 1)) rfl

end Served

/-! ### The invariant -/

/-- The ops of a node. -/
def opsOf (log : List OpLogRow) (n : String) : List OpLogRow := log.filter fun e => e.nodeId = n

/-- The node belongs to the folder, if it exists. -/
def InFolder (folderId : String) (s : Db) (n : String) : Prop :=
  ∀ r, s.node n = some r → r.folderId = folderId

/-- A row in the client's hands is exact on the ops since the snapshot: it shows what these have made of its node up
to its own number, and nothing else. -/
def RowExact (s : Db) (log : List OpLogRow) (x : LocalNode) : Prop :=
  ∃ r, s.node x.nodeId = some r ∧
    Exact entrySeq entryWrites (opsOf log x.nodeId) (serverCopy r) (mirrorCopy x)

/-- The mirror follows the server on every node of the folder: each row shows what the ops since the snapshot have
made of its node, and misses none at or below the cursor. -/
def Kept (folderId : String) (s : Db) (log : List OpLogRow) (cursor : ℕ) (m : Mirror) : Prop :=
  ∀ n, InFolder folderId s n →
    Follows entrySeq entryWrites (opsOf log n) cursor ((s.node n).map serverCopy) (m.copy n)

/-- An answer that was not recorded yet: its op is in the log, and its row is exact. -/
structure ReplyInv (folderId : String) (s : Db) (log : List OpLogRow) (reply : Reply) : Prop where
  node : ∀ q n, reply.answer = .ok (.applied q n) → n = reply.op.nodeId
  logged : ∀ a q, reply.answer = .ok a → committedSeq a = some q →
    ∃ e ∈ log, e.nodeId = reply.op.nodeId ∧ e.serverSeq = q ∧ e.payload = loggedPayload reply.op a
  rowNode : ∀ x, reply.row = some x → x.nodeId = reply.op.nodeId
  row : ∀ x q n, reply.row = some x → reply.answer = .ok (.applied q n) →
    InFolder folderId s reply.op.nodeId → RowExact s log x ∧ x.serverSeq = q

/-- The invariant of a client with its server, over any history of commits, pages and answers; `log` are the ops
since the snapshot that the client began with. -/
structure SyncInv (c : SyncConfig) (s₀ : Db) (log : List OpLogRow) (st : SyncState) : Prop where
  server : st.server.Consistent
  opLog : st.server.opLog = s₀.opLog ++ log
  folder : ∀ e ∈ log, e.folderId = c.folderId
  ascending : Ascending entrySeq log
  known : ∀ e ∈ s₀.opLog, e.folderId = c.folderId → e.serverSeq ≤ st.mirror.getCursor c.folderId
  cursor : st.mirror.getCursor c.folderId ≤ st.server.lastSeq
  mounted : (lookup LocalMount.folderId c.folderId st.mirror.mounts).isSome
  grown : ∀ n r, st.server.node n = some r → Grown entrySeq entryWrites (opsOf log n) (serverCopy r)
  kept : Kept c.folderId st.server log (st.mirror.getCursor c.folderId) st.mirror
  held : ∀ x ∈ st.held, InFolder c.folderId st.server x.nodeId → RowExact st.server log x
  outstanding : ∀ reply ∈ st.outstanding, ReplyInv c.folderId st.server log reply

/-- The ops since the snapshot, before and after a call of the server: a refused call adds none, and any other one
adds its own. -/
def LogStep (folderId : String) (log log' : List OpLogRow) (s s' : Db) : Prop :=
  (log' = log ∧ Refused s s') ∨ ∃ e, log' = log ++ [e] ∧ Appended s s' e ∧ e.folderId = folderId

section Ops

variable {log : List OpLogRow} {e : OpLogRow} {n : String}

theorem mem_opsOf : e ∈ opsOf log n ↔ e ∈ log ∧ e.nodeId = n := by
  rw [opsOf, List.mem_filter, decide_eq_true_eq]

theorem opsOf_concat_self : opsOf (log ++ [e]) e.nodeId = opsOf log e.nodeId ++ [e] := by
  rw [opsOf, List.filter_append, List.filter_cons_of_pos (by simp), List.filter_nil, opsOf]

theorem opsOf_concat_ne (h : n ≠ e.nodeId) : opsOf (log ++ [e]) n = opsOf log n := by
  rw [opsOf, List.filter_append, List.filter_cons_of_neg (by simpa using h.symm), List.filter_nil,
    List.append_nil, opsOf]

theorem ascending_opsOf (h : Ascending entrySeq log) (n : String) : Ascending entrySeq (opsOf log n) :=
  List.Pairwise.sublist List.filter_sublist h

end Ops

/-! ### Commits and the mirror -/

section Commit

variable {c : SyncConfig} {s₀ s' : Db} {log : List OpLogRow} {st : SyncState} {e : OpLogRow}
variable {folderId n : String}

theorem SyncInv.le_lastSeq (h : SyncInv c s₀ log st) {a : OpLogRow} (ha : a ∈ log) :
    a.serverSeq ≤ st.server.lastSeq :=
  h.server.drawn.le a (h.opLog ▸ List.mem_append_right _ ha)

/-- The ops of a node are at or below its row. -/
theorem SyncInv.le_row (h : SyncInv c s₀ log st) {r : NodeRow} (hr : st.server.node n = some r) :
    ∀ a ∈ opsOf log n, entrySeq a ≤ (serverCopy r).seq := by
  intro a ha
  obtain ⟨hmem, rfl⟩ := mem_opsOf.mp ha
  obtain ⟨r', hr', hle⟩ := h.server.ops a (h.opLog ▸ List.mem_append_right _ hmem)
  rw [hr] at hr'
  cases hr'
  exact hle

/-- A row keeps its folder. -/
theorem Appended.inFolder (ha : Appended st.server s' e) (hn : InFolder folderId s' n) :
    InFolder folderId st.server n := by
  intro r hr
  by_cases hne : n = e.nodeId
  · subst hne
    rcases ha.row with ⟨r₁, r', hr₁, hr', hfolder, -⟩ | ⟨hnone, -⟩
    · rw [hr] at hr₁
      cases hr₁
      exact hfolder ▸ hn r' hr'
    · rw [hr] at hnone
      cases hnone
  · exact hn r ((ha.other n hne).trans hr)

/-- A row in memory stays exact. -/
theorem SyncInv.rowExact_commit (h : SyncInv c s₀ log st) (ha : Appended st.server s' e) {x : LocalNode}
    (hx : RowExact st.server log x) : RowExact s' (log ++ [e]) x := by
  obtain ⟨r, hr, hexact⟩ := hx
  by_cases hne : x.nodeId = e.nodeId
  · rcases ha.row with ⟨r₁, r', hr₁, hr', -, hput⟩ | ⟨hnone, -⟩
    · rw [hne] at hr hexact
      rw [hr] at hr₁
      cases hr₁
      refine ⟨r', hne ▸ hr', ?_⟩
      have hle := hexact.seq_le (h.le_row hr)
      have hrow := h.server.rows _ r hr
      have hlt : (mirrorCopy x).seq < entrySeq e := by
        have hseq : entrySeq e = st.server.lastSeq + 1 := ha.seq
        have hserver : (serverCopy r).seq = r.serverSeq := rfl
        omega
      rw [hne, opsOf_concat_self, hput]
      exact hexact.extend hlt
    · rw [← hne, hr] at hnone
      cases hnone
  · exact ⟨r, (ha.other _ hne).trans hr, by rwa [opsOf_concat_ne hne]⟩

/-- **A commit** on any node. -/
theorem SyncInv.commit (h : SyncInv c s₀ log st) (hs : s'.Consistent) (ha : Appended st.server s' e)
    (hf : e.folderId = c.folderId) : SyncInv c s₀ (log ++ [e]) { st with server := s' } where
  server := hs
  opLog := by rw [ha.opLog, h.opLog, List.append_assoc]
  folder a hmem := by
    rcases List.mem_append.mp hmem with hmem | hmem
    · exact h.folder a hmem
    · rw [List.mem_singleton.mp hmem]
      exact hf
  ascending := by
    refine List.pairwise_append.mpr ⟨h.ascending, List.pairwise_singleton _ _, fun a hmem b hb => ?_⟩
    have hle := h.le_lastSeq hmem
    have hseq := ha.seq
    rw [List.mem_singleton.mp hb]
    show a.serverSeq < e.serverSeq
    omega
  known := h.known
  cursor := by
    have hle := h.cursor
    have hlast := ha.lastSeq
    show st.mirror.getCursor c.folderId ≤ s'.lastSeq
    omega
  mounted := h.mounted
  grown n r hr := by
    by_cases hne : n = e.nodeId
    · subst hne
      rw [opsOf_concat_self]
      rcases ha.row with ⟨r₁, r', hr₁, hr', -, hput⟩ | ⟨hnone, -, r', hr', -, hput⟩
      · rw [hr'] at hr
        cases hr
        rw [hput]
        exact (h.grown _ r₁ hr₁).extend e
      · rw [hr'] at hr
        cases hr
        have hnil : opsOf log e.nodeId = [] := by
          refine List.eq_nil_iff_forall_not_mem.mpr fun a hmem => ?_
          obtain ⟨hmem, hn⟩ := mem_opsOf.mp hmem
          obtain ⟨r₁, hr₁, -⟩ := h.server.ops a (h.opLog ▸ List.mem_append_right _ hmem)
          rw [hn, hnone] at hr₁
          cases hr₁
        rw [hnil, hput (serverCopy r)]
        exact Grown.single _ e
    · rw [opsOf_concat_ne hne]
      exact h.grown n r ((ha.other n hne).symm.trans hr)
  kept n hn := by
    have hfollows := h.kept n (ha.inFolder hn)
    by_cases hne : n = e.nodeId
    · subst hne
      have hcursor : st.mirror.getCursor c.folderId < entrySeq e := by
        have hseq : entrySeq e = st.server.lastSeq + 1 := ha.seq
        have hle := h.cursor
        omega
      show Follows _ _ (opsOf (log ++ [e]) e.nodeId) _ ((s'.node e.nodeId).map serverCopy) _
      rw [opsOf_concat_self]
      rcases ha.row with ⟨r, r', hr, hr', -, hput⟩ | ⟨hnone, hcreate, r', hr', -, hput⟩
      · rw [hr] at hfollows
        rw [hr', Option.map_some, hput]
        refine Follows.extend hfollows (h.le_row hr) ?_ hcursor
        have hrow := h.server.rows _ r hr
        have hseq := ha.seq
        show r.serverSeq < e.serverSeq
        omega
      · rw [hnone] at hfollows
        rw [hr', Option.map_some, hput (serverCopy r')]
        obtain ⟨hnil, -, hnew⟩ := Follows.create hfollows ((full_iff e).mpr hcreate) hcursor (serverCopy r')
        rw [hnil]
        exact hnew
    · show Follows _ _ (opsOf (log ++ [e]) n) _ ((s'.node n).map serverCopy) _
      rw [opsOf_concat_ne hne, ha.other n hne]
      exact hfollows
  held x hx hn := h.rowExact_commit ha (h.held x hx (ha.inFolder hn))
  outstanding reply hmem := by
    have hreply := h.outstanding reply hmem
    refine ⟨hreply.node, fun a q hans hq => ?_, hreply.rowNode, fun x q n hx hans hn => ?_⟩
    · obtain ⟨e', he', hrest⟩ := hreply.logged a q hans hq
      exact ⟨e', List.mem_append_left _ he', hrest⟩
    · obtain ⟨hexact, hseq⟩ := hreply.row x q n hx hans (ha.inFolder hn)
      exact ⟨h.rowExact_commit ha hexact, hseq⟩

/-- A refused call shows nowhere. -/
theorem SyncInv.refuse (h : SyncInv c s₀ log st) (hr : Refused st.server s') :
    SyncInv c s₀ log { st with server := s' } := by
  have hnode := hr.node
  have hfolder : ∀ {n}, InFolder c.folderId s' n → InFolder c.folderId st.server n :=
    fun hn r hr' => hn r ((hnode _).trans hr')
  have hexact : ∀ {x}, RowExact st.server log x → RowExact s' log x := by
    rintro x ⟨r, hrow, hx⟩
    exact ⟨r, (hnode _).trans hrow, hx⟩
  exact {
    server := hr.consistent h.server
    opLog := hr.opLog.trans h.opLog
    folder := h.folder
    ascending := h.ascending
    known := h.known
    cursor := h.cursor.trans hr.lastSeq
    mounted := h.mounted
    grown := fun n r hr' => h.grown n r ((hnode n).symm.trans hr')
    kept := fun n hn => by
      show Follows _ _ _ _ ((s'.node n).map serverCopy) _
      rw [hnode n]
      exact h.kept n (hfolder hn)
    held := fun x hx hn => hexact (h.held x hx (hfolder hn))
    outstanding := fun reply hmem => by
      have hreply := h.outstanding reply hmem
      refine ⟨hreply.node, hreply.logged, hreply.rowNode, fun x q n hx hans hn => ?_⟩
      obtain ⟨hx', hseq⟩ := hreply.row x q n hx hans (hfolder hn)
      exact ⟨hexact hx', hseq⟩ }

/-- **A call** of any device. -/
theorem SyncInv.call (h : SyncInv c s₀ log st) {call : SubmitCall} (ha : st.server.Admits call)
    (hf : call.folderId = c.folderId) :
    ∃ log', SyncInv c s₀ log' { st with server := (serve c.be call st.server).1 } ∧
      LogStep call.folderId log log' st.server (serve c.be call st.server).1 ∧
      ReplyInv c.folderId (serve c.be call st.server).1 log'
        { op := call.op, row := none, answer := (serve c.be call st.server).2 } ∧
      ∀ q n, (serve c.be call st.server).2 = .ok (.applied q n) → ∃ e, log' = log ++ [e] ∧
        Appended st.server (serve c.be call st.server).1 e ∧ e.nodeId = call.op.nodeId ∧
        e.serverSeq = q ∧ e.payload = loggedPayload call.op (.applied q n) := by
  have hout := serve_outcome c.be h.server.drawn ha
  have hcons := serve_consistent c.be h.server ha
  rcases hs : serve c.be call st.server with ⟨s', err | a⟩
  · rw [hs] at hout
    exact ⟨log, h.refuse hout, Or.inl ⟨rfl, hout⟩, ⟨nofun, nofun, nofun, nofun⟩, nofun⟩
  · rw [hs] at hout hcons
    rcases Served.appended hout with ⟨hrefused, hseq⟩ | ⟨e, happ, hfolder, hnode, hseq, hpayload, hn⟩
    · refine ⟨log, h.refuse hrefused, Or.inl ⟨rfl, hrefused⟩, ⟨?_, ?_, nofun, nofun⟩, ?_⟩
      · intro q n ha'
        cases ha'
        cases hseq
      · intro a' q ha' hq
        cases ha'
        rw [hseq] at hq
        cases hq
      · intro q n ha'
        cases ha'
        cases hseq
    · refine ⟨log ++ [e], h.commit hcons happ (hfolder.trans hf), Or.inr ⟨e, rfl, happ, hfolder⟩,
        ⟨?_, ?_, nofun, nofun⟩, ?_⟩
      · intro q n ha'
        cases ha'
        exact hn q n rfl
      · intro a' q ha' hq
        cases ha'
        rw [hseq] at hq
        cases hq
        exact ⟨e, by simp, hnode, rfl, hpayload⟩
      · intro q n ha'
        cases ha'
        cases hseq
        exact ⟨e, rfl, happ, hnode, rfl, hpayload⟩

end Commit

/-! ### Submissions -/

theorem submittedRow_eq_some {op : SubmitOpRequest} {row : Option LocalNode}
    {answer : Except ApiError SubmitOpResponse} {x' : LocalNode} (h : submittedRow op row answer = some x') :
    ∃ q n k b m x, answer = .ok (.applied q n) ∧ op = .mutate k b m ∧ row = some x ∧
      x' = x.submitted m q := by
  cases answer with
  | error err => cases h
  | ok a =>
    cases a with
    | conflictCopy q n v => cases h
    | superseded q => cases h
    | applied q n =>
      cases op with
      | create k parentId name type => cases h
      | mutate k b m =>
        obtain ⟨x, hx, rfl⟩ := Option.map_eq_some_iff.mp h
        exact ⟨q, n, k, b, m, x, rfl, rfl, hx, rfl⟩

theorem heldRow_eq_some {st : SyncState} {op : SubmitOpRequest} {row : Option ℕ} {x : LocalNode}
    (h : st.heldRow op row = some x) : ofRow op = true ∧ x ∈ st.held ∧ x.nodeId = op.nodeId := by
  rw [SyncState.heldRow] at h
  split at h
  · next hop =>
    obtain ⟨hrow, hnode⟩ := Option.filter_eq_some_iff.mp h
    obtain ⟨k, -, hk⟩ := Option.bind_eq_some_iff.mp hrow
    exact ⟨hop, List.mem_of_getElem? hk, by simpa using hnode⟩
  · cases h

theorem mutation_of_ofRow {k : String} {b : ℕ} {m : Mutation} (h : ofRow (.mutate k b m) = true) :
    (∃ newName, m = .rename newName) ∨ ∃ newParentId, m = .move newParentId := by
  cases m with
  | rename newName => exact .inl ⟨newName, rfl⟩
  | move newParentId => exact .inr ⟨newParentId, rfl⟩
  | delete => cases h
  | newVersion versionId contentHash sizeBytes manifest => cases h

@[simp] theorem submitted_nodeId (m : Mutation) (q : ℕ) (x : LocalNode) :
    (x.submitted m q).nodeId = x.nodeId := by
  cases m <;> rfl

section Steps

variable {c : SyncConfig} {s₀ : Db} {log : List OpLogRow} {st : SyncState} {e : OpLogRow}

/-- An op of the node writes what the ops between the row and it write. -/
theorem covers_of_overwritten {s : Db} {n : String} {x : LocalNode} {written : List Field}
    (hfolder : ∀ a ∈ log, a.folderId = c.folderId) (hlog : ∀ a ∈ log, a ≠ e → a ∈ s.opLog)
    (h : Overwritten s c.folderId n written x.serverSeq e.serverSeq)
    (hwritten : ∀ f ∈ written, (entryWrites e f).isSome) :
    Covers entrySeq entryWrites (opsOf log n) e (mirrorCopy x) := by
  intro a ha hlow hhigh f hf
  obtain ⟨hmem, hn⟩ := mem_opsOf.mp ha
  have hne : a ≠ e := by
    rintro rfl
    exact absurd hhigh (lt_irrefl _)
  exact hwritten f (h a (hlog a hmem hne) (hfolder a hmem) hn hlow hhigh f ((writes_isSome _ f).mp hf))

/-- What a row in memory misses below the op that is committed for it is written by the op. -/
theorem SyncInv.covers_submitted (h : SyncInv c s₀ log st) {s' : Db} (happ : Appended st.server s' e)
    {x : LocalNode} {written : List Field}
    (hover : Overwritten st.server c.folderId x.nodeId written x.serverSeq (st.server.lastSeq + 1))
    (hwritten : ∀ f ∈ written, (entryWrites e f).isSome) :
    Covers entrySeq entryWrites (opsOf (log ++ [e]) x.nodeId) e (mirrorCopy x) := by
  rw [← happ.seq] at hover
  intro a ha hlow hhigh f hf
  obtain ⟨hmem, hn⟩ := mem_opsOf.mp ha
  rcases List.mem_append.mp hmem with hmem | hmem
  · exact hwritten f (hover a (h.opLog ▸ List.mem_append_right _ hmem) (h.folder a hmem) hn hlow hhigh f
      ((writes_isSome _ f).mp hf))
  · rw [List.mem_singleton.mp hmem] at hhigh
    exact absurd hhigh (lt_irrefl _)

/-- The row has taken an op that writes what it missed below the op. -/
structure Taken (log : List OpLogRow) (e : OpLogRow) (x x' : LocalNode) : Prop where
  mem : e ∈ opsOf log x.nodeId
  node : x'.nodeId = x.nodeId
  put : mirrorCopy x' = putEntry (mirrorCopy x) e
  covers : Covers entrySeq entryWrites (opsOf log x.nodeId) e (mirrorCopy x)

/-- The row in memory takes the op that was just committed. -/
theorem SyncInv.taken (h : SyncInv c s₀ log st) {call : SubmitCall} {row : Option LocalNode} {x' : LocalNode}
    {answer : Except ApiError SubmitOpResponse} {s' : Db} {log' : List OpLogRow}
    (hrow : ∀ x, row = some x → ofRow call.op = true ∧ x ∈ st.held ∧ x.nodeId = call.op.nodeId)
    (hover : ∀ x, row = some x → isApplied answer →
      Overwritten st.server c.folderId call.op.nodeId (fields (loggedPayload call.op (.superseded 0)))
        x.serverSeq (st.server.lastSeq + 1))
    (happlied : ∀ q n, answer = .ok (.applied q n) → ∃ e, log' = log ++ [e] ∧ Appended st.server s' e ∧
      e.nodeId = call.op.nodeId ∧ e.serverSeq = q ∧ e.payload = loggedPayload call.op (.applied q n))
    (hsub : submittedRow call.op row answer = some x') :
    ∃ x e n, row = some x ∧ answer = .ok (.applied e.serverSeq n) ∧ e.serverSeq = st.server.lastSeq + 1 ∧
      Taken log' e x x' := by
  obtain ⟨q, n, k, b, m, x, hans, hop, hx, rfl⟩ := submittedRow_eq_some hsub
  obtain ⟨hof, hheld, hnode⟩ := hrow x hx
  obtain ⟨e, rfl, happ, hen, rfl, hpayload⟩ := happlied q n hans
  have hover := hover x hx (by rw [hans]; rfl)
  have hm := mutation_of_ofRow (hop ▸ hof)
  have hlogged : e.payload = m.logged "" false := by rw [hpayload, hop]; rfl
  refine ⟨x, e, n, hx, hans, happ.seq, mem_opsOf.mpr ⟨by simp, hen.trans hnode.symm⟩, submitted_nodeId m _ x,
    mirrorCopy_submitted hlogged hm, h.covers_submitted happ (hnode ▸ hover) fun f hf => ?_⟩
  refine (writes_isSome e.payload f).mpr ?_
  rw [hlogged]
  rw [hop] at hf
  exact hf

/-- **A call of the device**: the row in memory is exact with the answer in it. -/
theorem SyncInv.submitRow (h : SyncInv c s₀ log st) {call : SubmitCall} {row : Option LocalNode}
    (ha : st.server.Admits call) (hf : call.folderId = c.folderId)
    (hrow : ∀ x, row = some x → ofRow call.op = true ∧ x ∈ st.held ∧ x.nodeId = call.op.nodeId)
    (hover : ∀ x, row = some x → isApplied (serve c.be call st.server).2 →
      Overwritten st.server c.folderId call.op.nodeId (fields (loggedPayload call.op (.superseded 0)))
        x.serverSeq (st.server.lastSeq + 1)) :
    ∃ log', LogStep c.folderId log log' st.server (serve c.be call st.server).1 ∧ SyncInv c s₀ log' { st with
      server := (serve c.be call st.server).1
      held := st.held ++ (submittedRow call.op row (serve c.be call st.server).2).toList
      outstanding := st.outstanding ++ [{ op := call.op
                                          row := submittedRow call.op row (serve c.be call st.server).2
                                          answer := (serve c.be call st.server).2 }] } ∧
      ∀ x', submittedRow call.op row (serve c.be call st.server).2 = some x' →
        ∃ x e, row = some x ∧ e.serverSeq = st.server.lastSeq + 1 ∧ Taken log' e x x' := by
  obtain ⟨log', hinv, hstep, hreply, happlied⟩ := h.call ha hf
  have htaken := fun y (hsub : submittedRow call.op row (serve c.be call st.server).2 = some y) =>
    h.taken hrow hover happlied hsub
  have hnew : ∀ x', submittedRow call.op row (serve c.be call st.server).2 = some x' →
      x'.nodeId = call.op.nodeId ∧ (InFolder c.folderId (serve c.be call st.server).1 call.op.nodeId →
        RowExact (serve c.be call st.server).1 log' x' ∧
          ∀ q n, (serve c.be call st.server).2 = .ok (.applied q n) → x'.serverSeq = q) := by
    intro x' hsub
    obtain ⟨x, e, n, hx, hans, -, ht⟩ := htaken x' hsub
    obtain ⟨-, hheld, hnode⟩ := hrow x hx
    refine ⟨ht.node.trans hnode, fun hin => ⟨?_, fun q n' hq => ?_⟩⟩
    · obtain ⟨r, hr, hx'⟩ := hinv.held x hheld (hnode.symm ▸ hin)
      refine ⟨r, ht.node.symm ▸ hr, ?_⟩
      rw [ht.node, ht.put]
      exact hx'.put (hinv.grown _ r hr) (ascending_opsOf hinv.ascending _) ht.mem ht.covers
    · rw [hans] at hq
      cases hq
      exact congrArg Copy.seq ht.put
  refine ⟨log', hf ▸ hstep, { hinv with held := fun y hy hin => ?_, outstanding := fun reply hmem => ?_ },
    fun x' hsub => ?_⟩
  · rcases List.mem_append.mp hy with hy | hy
    · exact hinv.held y hy hin
    · have hsub := Option.mem_toList.mp hy
      exact ((hnew y hsub).2 ((hnew y hsub).1 ▸ hin)).1
  · rcases List.mem_append.mp hmem with hmem | hmem
    · exact hinv.outstanding reply hmem
    · rw [List.mem_singleton.mp hmem]
      refine ⟨hreply.node, hreply.logged, fun y hy => (hnew y hy).1, fun y q n hy hans hin => ?_⟩
      exact ⟨((hnew y hy).2 hin).1, ((hnew y hy).2 hin).2 q n hans⟩
  · obtain ⟨x, e, n, hx, -, hseq, ht⟩ := htaken x' hsub
    exact ⟨x, e, hx, hseq, ht⟩

/-- A call of the device with a row it holds. -/
theorem SyncInv.submit (h : SyncInv c s₀ log st) {call : SubmitCall} {row : Option ℕ}
    (hok : SubmitOk c st call row) : ∃ log', SyncInv c s₀ log' (st.submit c call row) := by
  obtain ⟨log', -, hinv, -⟩ := h.submitRow hok.1 hok.2.1 (fun x hx => heldRow_eq_some hx) hok.2.2
  exact ⟨log', hinv⟩

/-! ### Recorded answers -/

theorem mounts_record (m : Mirror) (folderId : String) (now : ℕ) (reply : Reply) :
    (m.record folderId now reply).mounts = m.mounts := by
  rcases reply with ⟨op, row, answer⟩
  cases answer with
  | error err => rfl
  | ok a =>
    rcases op with _ | ⟨_, _, _ | _ | _ | _⟩
    · cases a <;> rfl
    · cases a <;> cases row <;> rfl
    · cases a <;> cases row <;> rfl
    · cases a <;> rfl
    · cases a <;> rfl

/-- An answer recorded by an update writes the columns of its op. -/
theorem copy_record_update {m : Mirror} {reply : Reply} (folderId : String) (now : ℕ)
    (hop : updatesRow reply.op = true) :
    (m.record folderId now reply).copy reply.op.nodeId = m.copy reply.op.nodeId ∨
    ∃ a q, reply.answer = .ok a ∧ committedSeq a = some q ∧ ∀ e : OpLogRow, e.serverSeq = q →
      e.payload = loggedPayload reply.op a → (m.record folderId now reply).copy reply.op.nodeId =
        (m.copy reply.op.nodeId).map fun x => putEntry x e := by
  rcases reply with ⟨op, row, answer⟩
  cases answer with
  | error err => exact .inl rfl
  | ok a =>
    cases op with
    | create n parentId name type => cases hop
    | mutate n b mu =>
      cases mu with
      | rename newName => cases hop
      | move newParentId => cases hop
      | delete =>
        cases a with
        | applied q k =>
          refine .inr ⟨_, q, rfl, rfl, fun e hq hp => ?_⟩
          subst hq
          exact copy_markDeleted hp
        | conflictCopy q k v => exact .inl rfl
        | superseded q => exact .inl rfl
      | newVersion versionId contentHash sizeBytes manifest =>
        cases a with
        | applied q k =>
          refine .inr ⟨_, q, rfl, rfl, fun e hq hp => ?_⟩
          subst hq
          exact copy_recordVersion hp
        | conflictCopy q k v =>
          refine .inr ⟨_, q, rfl, rfl, fun e hq hp => ?_⟩
          subst hq
          exact copy_recordVersion hp
        | superseded q => exact .inl rfl

/-- Any other recorded answer writes a whole row: of a created node, or the one in memory. -/
theorem copy_record_row {m : Mirror} {reply : Reply} (folderId : String) (now : ℕ)
    (hop : updatesRow reply.op = false) (hnode : ∀ q n, reply.answer = .ok (.applied q n) → n = reply.op.nodeId)
    (hrow : ∀ x, reply.row = some x → x.nodeId = reply.op.nodeId) :
    (m.record folderId now reply).copy reply.op.nodeId = m.copy reply.op.nodeId ∨
    ∃ q, reply.answer = .ok (.applied q reply.op.nodeId) ∧
      ((∃ n parentId name type, reply.op = .create n parentId name type ∧
          (m.record folderId now reply).copy reply.op.nodeId =
            some (mirrorCopy (createdNode folderId reply.op.nodeId parentId name type q))) ∨
        ∃ x, reply.row = some x ∧ (m.record folderId now reply).copy reply.op.nodeId = some (mirrorCopy x)) := by
  rcases reply with ⟨op, row, answer⟩
  cases answer with
  | error err => exact .inl rfl
  | ok a =>
    cases a with
    | superseded q =>
      refine .inl ?_
      rcases op with _ | ⟨_, _, _ | _ | _ | _⟩ <;> rfl
    | conflictCopy q k v =>
      rcases op with _ | ⟨_, _, _ | _ | _ | _⟩
      · exact .inl rfl
      · exact .inl rfl
      · exact .inl rfl
      · cases hop
      · cases hop
    | applied q k =>
      have hk : k = op.nodeId := hnode q k rfl
      subst hk
      have hupsert : ∀ x, row = some x → (m.upsertNode x).copy op.nodeId = some (mirrorCopy x) := by
        intro x hx
        rw [← hrow x hx]
        exact copy_upsertNode x
      cases op with
      | create n parentId name type =>
        exact .inr ⟨q, rfl, .inl ⟨n, parentId, name, type, rfl, copy_upsertNode
          (createdNode folderId n parentId name type q)⟩⟩
      | mutate n b mu =>
        have hrows : (row.elim m m.upsertNode).copy n = m.copy n ∨
            ∃ x, row = some x ∧ (row.elim m m.upsertNode).copy n = some (mirrorCopy x) := by
          cases row with
          | none => exact .inl rfl
          | some x => exact .inr ⟨x, rfl, hupsert x rfl⟩
        cases mu with
        | newVersion versionId contentHash sizeBytes manifest => cases hop
        | delete => cases hop
        | rename newName => exact hrows.imp id fun hx => ⟨q, rfl, .inr hx⟩
        | move newParentId => exact hrows.imp id fun hx => ⟨q, rfl, .inr hx⟩

/-- **A recorded answer** keeps the mirror on the server's history. -/
theorem SyncInv.record_kept (h : SyncInv c s₀ log st) {reply : Reply} {now : ℕ}
    (hmem : reply ∈ st.outstanding) (hok : RecordOk c st reply) :
    Kept c.folderId st.server log (st.mirror.getCursor c.folderId)
      (st.mirror.record c.folderId now reply) := by
  have hreply := h.outstanding reply hmem
  intro n hn
  have hfollows := h.kept n hn
  by_cases hne : n = reply.op.nodeId
  case neg =>
    rwa [copy_record_ne hne hreply.rowNode hreply.node]
  subst hne
  have hasc := ascending_opsOf h.ascending reply.op.nodeId
  -- nothing of the node above the answer was pulled
  have hnew : ∀ a q, reply.answer = .ok a → committedSeq a = some q →
      ∀ b ∈ opsOf log reply.op.nodeId, q < entrySeq b → st.mirror.getCursor c.folderId < entrySeq b := by
    intro a q hans hq b hb hlt
    obtain ⟨hb, hbn⟩ := mem_opsOf.mp hb
    have hok' := (hok a (by rw [hans]; rfl) q hq).1
    exact hok' b (h.opLog ▸ List.mem_append_right _ hb) (h.folder b hb) hbn hlt
  cases hop : updatesRow reply.op with
  | true =>
    rcases copy_record_update (m := st.mirror) c.folderId now hop with
      hsame | ⟨a, q, hans, hq, hput⟩
    · rwa [hsame]
    obtain ⟨e, he, hen, heq, hpayload⟩ := hreply.logged a q hans hq
    rw [hput e heq hpayload]
    cases hcopy : st.mirror.getNode reply.op.nodeId with
    | none =>
      have hcopy' : st.mirror.copy reply.op.nodeId = none := by rw [Mirror.copy, hcopy]; rfl
      rw [hcopy'] at hfollows ⊢
      exact hfollows
    | some x =>
      have hcopy' : st.mirror.copy reply.op.nodeId = some (mirrorCopy x) := by rw [Mirror.copy, hcopy]; rfl
      rw [hcopy'] at hfollows ⊢
      have he' : e ∈ opsOf log reply.op.nodeId := mem_opsOf.mpr ⟨he, hen⟩
      obtain ⟨y, hy⟩ := Follows.exists_of_mem hfollows he'
      obtain ⟨r, hr, rfl⟩ := Option.map_eq_some_iff.mp hy
      rw [hr] at hfollows ⊢
      have hover := (hok a (by rw [hans]; rfl) q hq).2 hop x hcopy
      have hcov : Covers entrySeq entryWrites (opsOf log reply.op.nodeId) e (mirrorCopy x) := by
        rw [← heq] at hover
        refine covers_of_overwritten h.folder
          (fun b hb _ => h.opLog ▸ List.mem_append_right _ hb) hover fun f hf => ?_
        refine (writes_isSome e.payload f).mpr ?_
        rwa [hpayload]
      have hexact := (Tracks.exact hfollows).put (h.grown _ r hr) hasc he' hcov
      refine Tracks.record hexact fun b hb hlt => hnew a q hans hq b hb ?_
      rw [← heq]
      exact hlt
  | false =>
    rcases copy_record_row (m := st.mirror) c.folderId now hop hreply.node
        hreply.rowNode with hsame | ⟨q, hans, hwhole⟩
    · rwa [hsame]
    obtain ⟨e, he, hen, heq, hpayload⟩ := hreply.logged _ q hans rfl
    have he' : e ∈ opsOf log reply.op.nodeId := mem_opsOf.mpr ⟨he, hen⟩
    obtain ⟨y, hy⟩ := Follows.exists_of_mem hfollows he'
    obtain ⟨r, hr, rfl⟩ := Option.map_eq_some_iff.mp hy
    have hgrown := h.grown _ r hr
    rcases hwhole with ⟨n, parentId, name, type, hcreate, hcopy⟩ | ⟨x, hx, hcopy⟩
    · rw [hcopy, hr]
      rw [hcreate] at hpayload
      have hpayload' : e.payload = .create n parentId name type := hpayload
      have hfull : Full entryWrites e := by
        intro f
        rw [entryWrites, hpayload']
        rfl
      rw [← hen, ← heq, mirrorCopy_created _ hpayload' (serverCopy r), hen]
      refine Tracks.record (Exact.full hgrown hasc he' hfull _) fun b hb hlt => ?_
      refine hnew _ q hans rfl b hb ?_
      rw [← heq]
      exact hlt
    · rw [hcopy, hr]
      obtain ⟨⟨r', hr', hexact⟩, hseq⟩ := hreply.row x q _ hx hans hn
      rw [hreply.rowNode x hx] at hr' hexact
      rw [hr] at hr'
      cases hr'
      refine Tracks.record hexact fun b hb hlt => hnew _ q hans rfl b hb ?_
      rw [← hseq]
      exact hlt

/-- A recorded answer stays in memory. -/
theorem SyncInv.recordKeep (h : SyncInv c s₀ log st) {reply : Reply} (now : ℕ) (hmem : reply ∈ st.outstanding)
    (hok : RecordOk c st reply) :
    SyncInv c s₀ log { st with mirror := st.mirror.record c.folderId now reply } := by
  have hmounts := mounts_record st.mirror c.folderId now reply
  have hcursor : (st.mirror.record c.folderId now reply).getCursor c.folderId =
      st.mirror.getCursor c.folderId := by rw [Mirror.getCursor, hmounts, Mirror.getCursor]
  exact { h with
    known := fun e he hf => hcursor ▸ h.known e he hf
    cursor := hcursor ▸ h.cursor
    mounted := by
      show (lookup LocalMount.folderId c.folderId (st.mirror.record c.folderId now reply).mounts).isSome
      rw [hmounts]
      exact h.mounted
    kept := hcursor ▸ h.record_kept hmem hok }

/-- Less is in memory. -/
theorem SyncInv.less (h : SyncInv c s₀ log st) {held : List LocalNode} {outstanding : List Reply}
    (hheld : ∀ x ∈ held, x ∈ st.held) (hout : ∀ reply ∈ outstanding, reply ∈ st.outstanding) :
    SyncInv c s₀ log { st with held, outstanding } :=
  { h with
    held := fun x hx => h.held x (hheld x hx)
    outstanding := fun reply hr => h.outstanding reply (hout reply hr) }

theorem SyncInv.record (h : SyncInv c s₀ log st) {reply : Reply} {i now : ℕ}
    (hi : st.outstanding[i]? = some reply) (hok : RecordOk c st reply) :
    SyncInv c s₀ log { st with
      mirror := st.mirror.record c.folderId now reply, outstanding := st.outstanding.eraseIdx i } :=
  (h.recordKeep now (List.mem_of_getElem? hi) hok).less (fun _ => id) fun _ => List.mem_of_mem_eraseIdx

/-- A row of the mirror is exact. -/
theorem SyncInv.rowExact (h : SyncInv c s₀ log st) {n : String} {x : LocalNode} (hx : st.mirror.getNode n = some x)
    (hin : InFolder c.folderId st.server n) : RowExact st.server log x := by
  have hnode : x.nodeId = n := lookup_key hx
  have hfollows := h.kept n hin
  rw [Mirror.copy, hx] at hfollows
  cases hr : st.server.node n with
  | none =>
    rw [hr] at hfollows
    exact hfollows.elim
  | some r =>
    rw [hr] at hfollows
    exact ⟨r, hnode ▸ hr, hnode ▸ Tracks.exact hfollows⟩

/-- A row of the mirror is read. -/
theorem SyncInv.hold (h : SyncInv c s₀ log st) {n : String} {x : LocalNode} (hx : st.mirror.getNode n = some x) :
    SyncInv c s₀ log { st with held := st.held ++ [x] } := by
  refine { h with held := fun y hy hin => ?_ }
  rcases List.mem_append.mp hy with hy | hy
  · exact h.held y hy hin
  · rw [List.mem_singleton.mp hy] at hin ⊢
    have hnode : x.nodeId = n := lookup_key hx
    exact h.rowExact hx (hnode ▸ hin)

end Steps

/-! ### Pulled pages -/

section Pull

variable {c : SyncConfig} {s₀ : Db} {log : List OpLogRow} {st : SyncState} {m m' : Mirror}
variable {folderId : String} {s : Db} {e : OpLogRow} {k now : ℕ}

/-- **A pulled op**, the next one above the cursor, takes the cursor with it. -/
theorem Kept.deliver (h : Kept folderId s log k m) (hasc : Ascending entrySeq log)
    (hgrown : ∀ n r, s.node n = some r → Grown entrySeq entryWrites (opsOf log n) (serverCopy r))
    (he : e ∈ log) (hnext : ∀ a ∈ log, k < entrySeq a → entrySeq e ≤ entrySeq a)
    (hm : m.applyOpLogEntry now e.entry = .ok m') : Kept folderId s log (entrySeq e) m' := by
  intro n hn
  have hfollows := h n hn
  have hnext' : ∀ a ∈ opsOf log n, k < entrySeq a → entrySeq e ≤ entrySeq a :=
    fun a ha => hnext a (mem_opsOf.mp ha).1
  by_cases hne : n = e.nodeId
  case neg =>
    have hframe : m'.copy n = m.copy n := by
      rw [Mirror.copy, getNode_applyOpLogEntry_ne hm hne, Mirror.copy]
    rw [hframe]
    refine Follows.skip hfollows fun a ha hle => ?_
    by_contra hlt
    have heq : entrySeq a = entrySeq e := le_antisymm hle (hnext' a ha (not_le.mp hlt))
    obtain ⟨hmem, han⟩ := mem_opsOf.mp ha
    have hae : a = e := by
      obtain ⟨xs, ys, rfl⟩ := List.append_of_mem he
      rcases Ascending.lt_iff hasc hmem with ⟨-, hlt⟩ | hae | ⟨-, hlt⟩
      · omega
      · exact hae
      · omega
    exact hne (han.symm.trans (congrArg OpLogRow.nodeId hae))
  subst hne
  have he' : e ∈ opsOf log e.nodeId := mem_opsOf.mpr ⟨he, rfl⟩
  have hasc' := ascending_opsOf hasc e.nodeId
  obtain ⟨y, hy⟩ := Follows.exists_of_mem hfollows he'
  obtain ⟨r, hr, rfl⟩ := Option.map_eq_some_iff.mp hy
  rw [hy] at hfollows ⊢
  cases hc : isCreate e.entry with
  | true =>
    rw [copy_applyOpLogEntry_create hc hm (serverCopy r)]
    exact Tracks.reset (hgrown _ r hr) hasc' he' ((full_iff e).mpr hc) _
  | false =>
    rw [copy_applyOpLogEntry hc hm]
    cases hcopy : m.copy e.nodeId with
    | none =>
      rw [hcopy] at hfollows
      have hfull := Follows.full_of_absent hfollows hasc' he' hnext'
      rw [(full_iff e).mp hfull] at hc
      cases hc
    | some x =>
      rw [hcopy] at hfollows
      exact Tracks.receive hfollows hasc' he' hnext'

theorem Kept.mono (h : Kept folderId s log k m) {k' : ℕ} (hle : k' ≤ k) : Kept folderId s log k' m :=
  fun n hn => (h n hn).mono hle

variable (now) in
/-- **The ops of a page**, of which an error may leave some out: what every op preserves that is the next one above a
cursor, with the cursor. -/
theorem applyOps_rule {P : ℕ → Mirror → Prop} {ops rest : List OpLogRow}
    (hstep : ∀ k m m' e, P k m → e ∈ log → (∀ a ∈ log, k < entrySeq a → entrySeq e ≤ entrySeq a) →
      m.applyOpLogEntry now e.entry = .ok m' → P (entrySeq e) m')
    (h : P k m) (hasc : Ascending entrySeq log) (hpage : log.filter (fun a => k < entrySeq a) = ops ++ rest) :
    ∃ k', k ≤ k' ∧ P k' (m.applyOps now (ops.map OpLogRow.entry)).1 ∧
      ((m.applyOps now (ops.map OpLogRow.entry)).2.toOption.isSome → ∀ a ∈ ops, entrySeq a ≤ k') := by
  induction ops generalizing k m with
  | nil => exact ⟨k, le_rfl, h, fun _ a ha => absurd ha List.not_mem_nil⟩
  | cons e ops ih =>
    have hmem : e ∈ log.filter fun a => k < entrySeq a := by rw [hpage]; simp
    obtain ⟨he, hk⟩ := List.mem_filter.mp hmem
    have hk : k < entrySeq e := by simpa using hk
    have hsorted : Ascending entrySeq (e :: (ops ++ rest)) := by
      have hsub : Ascending entrySeq (log.filter fun a => k < entrySeq a) :=
        List.Pairwise.sublist List.filter_sublist hasc
      rwa [hpage] at hsub
    have hnext : ∀ a ∈ log, k < entrySeq a → entrySeq e ≤ entrySeq a := by
      intro a ha hlt
      have ha' : a ∈ e :: (ops ++ rest) := by
        rw [← List.cons_append, ← hpage]
        exact List.mem_filter.mpr ⟨ha, by simpa using hlt⟩
      rcases List.mem_cons.mp ha' with rfl | ha'
      · exact le_rfl
      · exact (List.rel_of_pairwise_cons hsorted ha').le
    -- above `e` the rest of the page is next
    have hpage' : log.filter (fun a => entrySeq e < entrySeq a) = ops ++ rest := by
      have hfilter : log.filter (fun a => entrySeq e < entrySeq a) =
          (log.filter fun a => k < entrySeq a).filter fun a => entrySeq e < entrySeq a := by
        rw [List.filter_filter]
        refine List.filter_congr fun a _ => ?_
        by_cases hlt : entrySeq e < entrySeq a
        · have hk' : k < entrySeq a := hk.trans hlt
          simp [hlt, hk']
        · simp [hlt]
      rw [hfilter, hpage]
      have hsorted' : Ascending entrySeq ([] ++ e :: (ops ++ rest)) := hsorted
      exact hsorted'.filter_above
    rw [List.map_cons, Mirror.applyOps]
    split
    · exact ⟨k, le_rfl, h, fun hok => by cases hok⟩
    next m' hm =>
    have h' := hstep k m m' e h he hnext hm
    obtain ⟨k', hle, hend, hall⟩ := ih h' hpage'
    split
    · exact ⟨entrySeq e, hk.le, h', fun hok => by cases hok⟩
    cases hrest : m'.applyOps now (ops.map OpLogRow.entry) with
    | mk m'' result =>
      rw [hrest] at hend hall
      cases result with
      | error err => exact ⟨k', hk.le.trans hle, hend, fun hok => by cases hok⟩
      | ok pulled =>
        refine ⟨k', hk.le.trans hle, hend, fun _ a ha => ?_⟩
        rcases List.mem_cons.mp ha with rfl | ha
        · exact hle
        · exact hall rfl a ha

variable (now) in
/-- The mirror follows the server through the ops of a page. -/
theorem Kept.applyOps {ops rest : List OpLogRow} (h : Kept folderId s log k m)
    (hasc : Ascending entrySeq log)
    (hgrown : ∀ n r, s.node n = some r → Grown entrySeq entryWrites (opsOf log n) (serverCopy r))
    (hpage : log.filter (fun a => k < entrySeq a) = ops ++ rest) :
    Kept folderId s log k (m.applyOps now (ops.map OpLogRow.entry)).1 ∧
    ((m.applyOps now (ops.map OpLogRow.entry)).2.toOption.isSome → ∀ k',
      (∀ a ∈ log, entrySeq a ≤ k' → entrySeq a ≤ k ∨ a ∈ ops) →
        Kept folderId s log k' (m.applyOps now (ops.map OpLogRow.entry)).1) := by
  obtain ⟨k', hle, hend, hall⟩ := applyOps_rule (P := Kept folderId s log) now
    (fun k m m' e h he hnext hm => h.deliver hasc hgrown he hnext hm) h hasc hpage
  refine ⟨hend.mono hle, fun hok l hl n hn => (hend n hn).skip fun a ha hal => ?_⟩
  rcases hl a (mem_opsOf.mp ha).1 hal with hlow | hops
  · exact hlow.trans hle
  · exact hall hok a hops

/-- The page the server answers: the first ops of the log above the cursor. -/
theorem SyncInv.deltaRows (h : SyncInv c s₀ log st) (hok : PullOk c st) :
    st.server.deltaRows c.folderId c.root (st.mirror.getCursor c.folderId) =
      (log.filter fun a => st.mirror.getCursor c.folderId < entrySeq a).take pageLimit := by
  have hservable : st.server.servable c.folderId c.root (st.mirror.getCursor c.folderId) =
      log.filter fun a => st.mirror.getCursor c.folderId < entrySeq a := by
    rw [Db.servable, h.opLog, List.filter_append, List.filter_eq_nil_iff.mpr, List.nil_append]
    · refine List.filter_congr fun a ha => ?_
      by_cases hlt : st.mirror.getCursor c.folderId < a.serverSeq
      · have hsub := hok a (h.opLog ▸ List.mem_append_right _ ha) (h.folder a ha) hlt
        simp [h.folder a ha, hlt, hsub, entrySeq]
      · simp [hlt, entrySeq]
    · intro a ha hcond
      simp only [Bool.and_eq_true, decide_eq_true_eq] at hcond
      have hle := h.known a ha hcond.1.1
      omega
  have hsorted : (log.filter fun a => st.mirror.getCursor c.folderId < entrySeq a).Pairwise bySeq :=
    (h.ascending.sublist List.filter_sublist).imp fun hlt => Nat.le_of_lt hlt
  rw [Db.deltaRows, hservable, hsorted.insertionSort_eq]

/-- The cursor of a page is the server's, and the page has every op up to it. -/
theorem SyncInv.upToSeq_bound (h : SyncInv c s₀ log st) {cursor : ℕ} :
    let page := (log.filter fun a => cursor < entrySeq a).take pageLimit
    let upToSeq := (deltaResponse page (st.server.folderHeadSeq c.folderId)).upToSeq
    upToSeq ≤ st.server.lastSeq ∧
      ∀ a ∈ log, entrySeq a ≤ upToSeq → entrySeq a ≤ cursor ∨ a ∈ page := by
  intro page upToSeq
  have hpage : ∀ {a}, a ∈ log → cursor < entrySeq a →
      a ∈ page ∨ a ∈ (log.filter fun a => cursor < entrySeq a).drop pageLimit := by
    intro a ha hlt
    have hmem : a ∈ log.filter fun a => cursor < entrySeq a := List.mem_filter.mpr ⟨ha, by simpa using hlt⟩
    rw [← List.take_append_drop pageLimit (List.filter _ log)] at hmem
    exact List.mem_append.mp hmem
  cases hlast : page.getLast? with
  | none =>
    have hup : upToSeq = st.server.folderHeadSeq c.folderId := by
      show (page.getLast?.map OpLogRow.serverSeq).getD _ = _
      rw [hlast]
      rfl
    have hnil : (log.filter fun a => cursor < entrySeq a) = [] := by
      rcases List.take_eq_nil_iff.mp (List.getLast?_eq_none_iff.mp hlast) with h0 | h0
      · simp [pageLimit] at h0
      · exact h0
    refine ⟨hup ▸ folderHeadSeq_le h.server.drawn, fun a ha _ => .inl ?_⟩
    by_contra hlt
    have hmem : a ∈ log.filter fun a => cursor < entrySeq a :=
      List.mem_filter.mpr ⟨ha, by simpa using hlt⟩
    rw [hnil] at hmem
    cases hmem
  | some l =>
    have hup : upToSeq = l.serverSeq := by
      show (page.getLast?.map OpLogRow.serverSeq).getD _ = _
      rw [hlast]
      rfl
    have hl : l ∈ page := List.mem_of_getLast? hlast
    have hlog : l ∈ log := (List.mem_filter.mp (List.mem_of_mem_take hl)).1
    refine ⟨hup ▸ h.le_lastSeq hlog, fun a ha hle => ?_⟩
    by_cases hlt : cursor < entrySeq a
    · rcases hpage ha hlt with hin | hlater
      · exact .inr hin
      · have hsorted : Ascending entrySeq (log.filter fun a => cursor < entrySeq a) :=
          List.Pairwise.sublist List.filter_sublist h.ascending
        rw [← List.take_append_drop pageLimit (List.filter _ log)] at hsorted
        have hgt : entrySeq l < entrySeq a := (List.pairwise_append.mp hsorted).2.2 l hl a hlater
        have hle' : entrySeq a ≤ entrySeq l := hle.trans hup.le
        omega
    · exact .inl (not_lt.mp hlt)

/-- **A page**, pulled whole or in part. -/
theorem SyncInv.pull (h : SyncInv c s₀ log st) (hok : PullOk c st) :
    SyncInv c s₀ log { st with mirror := (st.mirror.pullPage now st.server c.folderId c.root).1 } := by
  set cursor := st.mirror.getCursor c.folderId with hcursor
  set above := log.filter fun a => cursor < entrySeq a with habove
  have hrows := h.deltaRows hok
  have hops := h.kept.applyOps now h.ascending h.grown
    (List.take_append_drop pageLimit above).symm
  have hmounts := mounts_applyOps now ((above.take pageLimit).map OpLogRow.entry) st.mirror
  -- what every outcome keeps that leaves the cursor alone
  have hstay : ∀ m, m.mounts = st.mirror.mounts → Kept c.folderId st.server log cursor m →
      SyncInv c s₀ log { st with mirror := m } := by
    intro m hm hkept
    have hcur : m.getCursor c.folderId = cursor := by rw [Mirror.getCursor, hm, hcursor, Mirror.getCursor]
    exact { h with
      known := fun e he hf => hcur ▸ h.known e he hf
      cursor := hcur ▸ h.cursor
      mounted := by
        show (lookup LocalMount.folderId c.folderId m.mounts).isSome
        rw [hm]
        exact h.mounted
      kept := hcur ▸ hkept }
  rw [Mirror.pullPage, Mirror.applyPage, Client.deltaPage, ← hcursor, hrows]
  split
  · exact hstay st.mirror rfl h.kept
  next hregressed =>
  have hresponse : (deltaResponse (above.take pageLimit) (st.server.folderHeadSeq c.folderId)).ops =
      (above.take pageLimit).map OpLogRow.entry := rfl
  rw [hresponse]
  cases hres : st.mirror.applyOps now ((above.take pageLimit).map OpLogRow.entry) with
  | mk m' result =>
    rw [hres] at hops hmounts
    cases result with
    | error err => exact hstay m' hmounts hops.1
    | ok pulled =>
      set upToSeq := (deltaResponse (above.take pageLimit) (st.server.folderHeadSeq c.folderId)).upToSeq
        with hupTo
      have hmounted : (lookup LocalMount.folderId c.folderId m'.mounts).isSome := by
        rw [hmounts]
        exact h.mounted
      have hcur : (m'.setCursor c.folderId upToSeq).getCursor c.folderId = upToSeq :=
        getCursor_setCursor m' hmounted
      have hbound : upToSeq ≤ st.server.lastSeq ∧
          ∀ a ∈ log, entrySeq a ≤ upToSeq → entrySeq a ≤ cursor ∨ a ∈ above.take pageLimit :=
        h.upToSeq_bound
      have hkept := hops.2 rfl upToSeq hbound.2
      exact { h with
        known := fun e he hf => by
          show e.serverSeq ≤ (m'.setCursor c.folderId upToSeq).getCursor c.folderId
          rw [hcur]
          exact (h.known e he hf).trans (not_lt.mp hregressed)
        cursor := by
          show (m'.setCursor c.folderId upToSeq).getCursor c.folderId ≤ _
          rw [hcur]
          exact hbound.1
        mounted := mounted_setCursor m' hmounted
        kept := by
          show Kept _ _ _ ((m'.setCursor c.folderId upToSeq).getCursor c.folderId) _
          rw [hcur]
          exact hkept }

end Pull

/-! ### The snapshot -/

section Start

variable {c : SyncConfig} {s : Db} {m : Mirror} {folderId : String}

variable (folderId) in
/-- A snapshot's rows are inserted into the mirror's. -/
theorem getNode_insertSnapshotNodes {nodes : List NodeSnapshot} (hnd : (nodes.map NodeSnapshot.nodeId).Nodup)
    (m : Mirror) (n : String) :
    (∀ sn ∈ nodes, sn.nodeId ≠ n) ∧
      (nodes.foldl (Mirror.insertSnapshotNode folderId) m).getNode n = m.getNode n ∨
    ∃ sn ∈ nodes, sn.nodeId = n ∧
      ((nodes.foldl (Mirror.insertSnapshotNode folderId) m).copy n) =
        some ⟨sn.serverSeq, columns sn.parentId sn.name sn.deletedAt.isSome sn.currentVersionId⟩ := by
  induction nodes generalizing m with
  | nil => exact .inl ⟨nofun, rfl⟩
  | cons sn nodes ih =>
    rw [List.map_cons, List.nodup_cons] at hnd
    rcases ih hnd.2 (m.insertSnapshotNode folderId sn) with ⟨hnone, hget⟩ | ⟨sn', hsn', hn, hcopy⟩
    · by_cases hn : sn.nodeId = n
      · refine .inr ⟨sn, by simp, hn, ?_⟩
        rw [List.foldl_cons, Mirror.copy, hget, ← hn]
        exact copy_upsertNode _
      · refine .inl ⟨fun sn' hsn' => ?_, ?_⟩
        · rcases List.mem_cons.mp hsn' with rfl | hsn'
          · exact hn
          · exact hnone sn' hsn'
        · rw [List.foldl_cons, hget]
          exact getNode_upsertNode_ne _ fun h => hn h.symm
    · exact .inr ⟨sn', List.mem_cons_of_mem sn hsn', hn, hcopy⟩

theorem mounts_insertSnapshotNodes (nodes : List NodeSnapshot) (m : Mirror) :
    (nodes.foldl (Mirror.insertSnapshotNode folderId) m).mounts = m.mounts := by
  induction nodes generalizing m with
  | nil => rfl
  | cons sn nodes ih => exact ih _

/-- A snapshot has one row for a node. -/
theorem nodup_treePage (hk : s.NodeKeys) (folderId scope : String) :
    ((treePage s folderId scope).nodes.map NodeSnapshot.nodeId).Nodup := by
  have hmap : (treePage s folderId scope).nodes.map NodeSnapshot.nodeId =
      (s.treeRows folderId scope).map NodeRow.nodeId := by
    rw [treePage, treeResponse, List.map_map]
    rfl
  rw [hmap, Db.treeRows]
  refine ((List.perm_insertionSort _ _).map NodeRow.nodeId).nodup_iff.mpr ?_
  exact hk.sublist (List.filter_sublist.map _)

/-- A node that has a row on the server has the same row in the snapshot. -/
theorem kept_start (hs : s.Consistent) (h : SyncStart c s m) {n : String} (hn : InFolder c.folderId s n)
    {cursor : ℕ} : Follows entrySeq entryWrites (opsOf [] n) cursor ((s.node n).map serverCopy)
      ((SyncState.start c s m).mirror.copy n) := by
  have hkeys := nodup_treePage hs.keys c.folderId c.root
  -- a snapshot's row is the server's
  have hrow : ∀ sn ∈ (treePage s c.folderId c.root).nodes, sn.nodeId = n →
      ∃ r, s.node n = some r ∧ sn = r.snapshot c.root := by
    intro sn hsn hn'
    obtain ⟨r, hr, rfl⟩ := List.mem_map.mp hsn
    have hr' : r ∈ s.nodes := (mem_treeRows.mp hr).1
    have hnode : r.nodeId = n := hn'
    exact ⟨r, hnode ▸ lookup_of_mem hs.keys hr', rfl⟩
  have hstart : (SyncState.start c s m).mirror.copy n =
      ((treePage s c.folderId c.root).nodes.foldl (Mirror.insertSnapshotNode c.folderId) { m with
        versions := m.versions.filter fun r => r.folderId ≠ c.folderId
        nodes := m.nodes.filter fun r => r.folderId ≠ c.folderId }).copy n := rfl
  rw [hstart]
  rcases getNode_insertSnapshotNodes c.folderId hkeys { m with
      versions := m.versions.filter fun r => r.folderId ≠ c.folderId
      nodes := m.nodes.filter fun r => r.folderId ≠ c.folderId } n with
    ⟨habsent, hget⟩ | ⟨sn, hsn, hn', hcopy⟩
  · cases hr : s.node n with
    | some r =>
      have hmem : r ∈ s.nodes := mem_of_lookup hr
      have hnode : r.nodeId = n := lookup_key hr
      have htree : r ∈ s.treeRows c.folderId c.root :=
        mem_treeRows.mpr ⟨hmem, hn r hr, h.below r hmem (hn r hr)⟩
      exact absurd hnode (habsent _ (List.mem_map_of_mem htree))
    | none =>
      rw [Mirror.copy, hget]
      cases hx : Mirror.getNode { m with
          versions := m.versions.filter fun r => r.folderId ≠ c.folderId
          nodes := m.nodes.filter fun r => r.folderId ≠ c.folderId } n with
      | none => exact rfl
      | some x =>
        obtain ⟨hmem, hfolder⟩ := List.mem_filter.mp (mem_of_lookup hx)
        obtain ⟨r', hr', -⟩ := h.others x hmem (by simpa using hfolder)
        have hnode : x.nodeId = n := lookup_key hx
        rw [hnode, hr] at hr'
        cases hr'
  · obtain ⟨r, hr, rfl⟩ := hrow sn hsn hn'
    rw [hcopy, hr]
    have hsame : (⟨(r.snapshot c.root).serverSeq, columns (r.snapshot c.root).parentId
        (r.snapshot c.root).name (r.snapshot c.root).deletedAt.isSome
        (r.snapshot c.root).currentVersionId⟩ : Copy Field.Value) = serverCopy r := by
      refine copy_ext rfl ?_ rfl rfl rfl
      show (if r.nodeId = c.root then none else r.parentId) = r.parentId
      split
      · next hroot =>
        have hnode : r.nodeId = n := lookup_key hr
        exact (h.root r (by rw [← hroot, hnode]; exact hr)).symm
      · rfl
    rw [hsame]
    exact ⟨Exact.self fun e he => absurd he List.not_mem_nil, fun e he => absurd he List.not_mem_nil⟩

/-- **The snapshot** is the server's folder. -/
theorem SyncInv.start (hs : s.Consistent) (h : SyncStart c s m) :
    SyncInv c s [] (SyncState.start c s m) := by
  have hmounted : (lookup LocalMount.folderId c.folderId ((treePage s c.folderId c.root).nodes.foldl
      (Mirror.insertSnapshotNode c.folderId) { m with
        versions := m.versions.filter fun r => r.folderId ≠ c.folderId
        nodes := m.nodes.filter fun r => r.folderId ≠ c.folderId }).mounts).isSome := by
    rw [mounts_insertSnapshotNodes]
    exact h.mounted
  have hcursor : (SyncState.start c s m).mirror.getCursor c.folderId = s.folderHeadSeq c.folderId :=
    getCursor_setCursor _ hmounted
  exact {
    server := hs
    opLog := (List.append_nil _).symm
    folder := nofun
    ascending := List.Pairwise.nil
    known := fun e he hf => hcursor ▸ le_folderHeadSeq he hf
    cursor := hcursor ▸ folderHeadSeq_le hs.drawn
    mounted := mounted_setCursor _ hmounted
    grown := fun n r _ => ⟨serverCopy r, rfl⟩
    kept := fun n hn => kept_start hs h hn
    held := fun x hx => absurd hx List.not_mem_nil
    outstanding := fun reply hmem => absurd hmem List.not_mem_nil }

end Start

/-! ### Runs -/

section Runs

variable {c : SyncConfig} {s₀ : Db} {log : List OpLogRow} {st st' : SyncState}

/-- **One step** of anyone. -/
theorem SyncInv.step {ev : SyncEvent} (h : ∃ log, SyncInv c s₀ log st) (hok : SyncOk c st ev)
    (hs : st.step c ev = some st') : ∃ log, SyncInv c s₀ log st' := by
  obtain ⟨log, h⟩ := h
  cases ev with
  | call call =>
    cases hs
    obtain ⟨log', hinv, -⟩ := h.call hok.1 hok.2
    exact ⟨log', hinv⟩
  | pull now =>
    cases hs
    exact ⟨log, h.pull hok⟩
  | hold n =>
    obtain ⟨x, hx, rfl⟩ := Option.map_eq_some_iff.mp hs
    exact ⟨log, h.hold hx⟩
  | submit call row =>
    cases hs
    exact h.submit hok
  | record i now =>
    obtain ⟨reply, hi, rfl⟩ := Option.map_eq_some_iff.mp hs
    exact ⟨log, h.record hi (hok reply hi)⟩
  | drop i =>
    cases hs
    exact ⟨log, h.less (fun _ => id) fun _ => List.mem_of_mem_eraseIdx⟩

/-- At the head of the folder nothing is missing. -/
theorem SyncInv.converged (h : SyncInv c s₀ log st) : st.Converged c := by
  intro _ hhead r hr hf
  have hrow : st.server.node r.nodeId = some r := lookup_of_mem h.server.keys hr
  have hin : InFolder c.folderId st.server r.nodeId := by
    intro r' hr'
    rw [hrow] at hr'
    cases hr'
    exact hf
  have hall : ∀ e ∈ opsOf log r.nodeId, entrySeq e ≤ st.mirror.getCursor c.folderId := by
    intro e he
    obtain ⟨hmem, -⟩ := mem_opsOf.mp he
    rw [hhead]
    exact le_folderHeadSeq (h.opLog ▸ List.mem_append_right _ hmem) (h.folder e hmem)
  have hsame := Follows.caughtUp (h.kept r.nodeId hin) hall
  rw [hrow] at hsame
  obtain ⟨x, hx, hcopy⟩ := Option.map_eq_some_iff.mp hsame
  have hvalue : ∀ f, (mirrorCopy x).value f = (serverCopy r).value f := fun f => by rw [hcopy]
  exact ⟨x, hx, hvalue .parentId, hvalue .name, hvalue .deleted, hvalue .currentVersionId,
    congrArg Copy.seq hcopy⟩

end Runs

/-- **Mirror convergence.**  From a tree snapshot, in every order of calls of any device, pulled
pages and recorded answers whose steps meet the conditions: with no answer outstanding and the
cursor at the head of the folder, every node of the folder has the same row in the mirror. -/
theorem mirror_converges (c : SyncConfig) (s : Db) (m : Mirror) (hs : s.Consistent) (h : SyncStart c s m)
    (evs : List SyncEvent) (hok : Run.Along (SyncState.step c) (SyncOk c) (SyncState.start c s m) evs) :
    (Run.run (SyncState.step c) (SyncState.start c s m) evs).Converged c := by
  obtain ⟨log, hinv⟩ := Run.run_invariant (I := fun st => ∃ log, SyncInv c s log st)
    (fun _ _ _ h hok hs => SyncInv.step h hok hs) ⟨[], SyncInv.start hs h⟩ hok
  exact hinv.converged

/-! ### Two devices -/

/-- `raceDb`, served on Postgres. -/
def syncConfig : SyncConfig := { be := .pg, folderId := "f", root := "root" }

def mounted : Mirror := { mounts := [{ folderId := "f" }] }

/-- An op on the file. -/
def fileCall (b : ℕ) (m : Mutation) : SubmitCall := { raceCall "" with op := .mutate "n" b m }

theorem syncStart_mounted : SyncStart syncConfig raceDb mounted where
  mounted := by decide
  root := by decide
  below := by decide +kernel
  others := nofun

/-- The device creates a file and gives it a version, another renames it, and the device pulls
the rename before it moves the file under its new name. -/
def syncAll : List SyncEvent :=
  [.submit { fileCall 0 .delete with op := .create "m" "root" "new.txt" .file } none, .record 0 0,
   .submit { fileCall 0 .delete with op := .mutate "m" 1 (.newVersion "v" "h" 0 []) } none, .record 0 0,
   .call { fileCall 0 .delete with op := .mutate "m" 2 (.rename "newer.txt") }, .pull 0, .hold "m",
   .submit { fileCall 0 .delete with op := .mutate "m" 3 (.move "root") } (some 0), .record 0 0, .pull 0]

/-- The mirror is the server's afterwards. -/
theorem mirror_converges_syncAll :
    (Run.run (SyncState.step syncConfig) (SyncState.start syncConfig raceDb mounted) syncAll).Converged
      syncConfig :=
  mirror_converges syncConfig raceDb mounted raceDb_consistent syncStart_mounted syncAll
    (by decide +kernel)

/-- Another device renames the file; the device, which has not pulled that, submits a version. -/
def syncRename : List SyncEvent :=
  [.call (fileCall 0 (.rename "b.txt")), .submit (fileCall 0 (.newVersion "v" "h" 0 [])) none,
   .record 0 0, .pull 0]

/-- The conflict copy takes the row past the rename, which is passed over when it is pulled. -/
theorem mirror_diverges :
    ¬ (Run.run (SyncState.step syncConfig) (SyncState.start syncConfig raceDb mounted)
      syncRename).Converged syncConfig := by
  decide +kernel

end Valv.Client
