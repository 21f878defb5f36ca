import Valv.Client.Converge
import Valv.Server.Reads
import Valv.Server.Refs

/-!
# A reader of a subtree

One device whose only grant is on a node of a folder.  It starts from a tree snapshot and pulls pages, while any
devices submit ops, tombstones are purged and the log is truncated.

* `ScopeState.step`: the server and the mirror, with the ops since the snapshot as a ghost.
* `PageOk`, `Unbroken`: what has to hold when a page is read: no node has left the scope, none has entered it but by
  being created there, and no op is missing.
* `Shadow`: the last row of every node that the server has had, also of the purged ones.
* `Following.applyOps`: the rows of the mirror that miss nothing but the ops to come, through a page.
* `ScopeInv.step`: what every event keeps.
* `scope_converges`: so every page can be applied, and the last one leaves the live nodes of the server's subtree.
* `scope_wedges`: a node that is moved into the scope, or out of it.
-/

namespace Valv.Client

open Valv.Conc Valv.Table Valv.Server Valv.Replica

/-! ### The reader -/

/-- The server's database flavour, the folder, the reader, and the node its grant is on: the root of all that the
reader's mirror may show. -/
structure ScopeConfig where
  be : Backend
  folderId : String
  principal : Principal
  scope : String

/-- The server and the mirror; as ghosts the ops since the snapshot, and those of them whose node was in the scope
once they were committed. -/
structure ScopeState where
  server : Db
  mirror : Mirror
  log : List OpLogRow := []
  concerned : List OpLogRow := []

inductive ScopeEvent where
  /-- A call of any device. -/
  | call (call : SubmitCall)
  /-- A truncation pass. -/
  | truncate (args : GcArgs)
  /-- A purge of tombstones. -/
  | purge (args : GcArgs)
  /-- A change of other tables than the nodes and the log. -/
  | other (server : Db)
  /-- A page of `pull_delta`. -/
  | pull (now : ℕ)

namespace ScopeState

variable (c : ScopeConfig) (st : ScopeState)

abbrev cursor : ℕ := st.mirror.getCursor c.folderId

/-- A call, answered. -/
def serve (call : SubmitCall) : ScopeState :=
  let server := (Server.serve c.be call st.server).1
  let made := server.opLog.drop st.server.opLog.length
  { st with
    server
    log := st.log ++ made
    concerned := st.concerned ++ made.filter fun e => e.nodeId ∈ server.subtree c.scope }

/-- The server's answer to `GET /ops`. -/
def answer : Except ApiError DeltaPullResponse :=
  ((pullDelta c.folderId c.principal (st.cursor c)).runBody st.server).2

/-- The mirror after a page, and whether all of it could be applied. -/
def receive (now : ℕ) (delta : DeltaPullResponse) : Mirror × Except MirrorError (List PulledNode) :=
  st.mirror.applyPage now c.folderId delta

def step : ScopeEvent → Option ScopeState
  | .call call => some (st.serve c call)
  | .truncate args => some { st with server := ((runOpLogTruncationOnce args).runBody st.server).1 }
  | .purge args => some { st with server := ((runTombstonePurgeOnce args).runBody st.server).1 }
  | .other server => some { st with server }
  | .pull now => some { st with mirror := (st.answer c).toOption.elim st.mirror fun delta => (st.receive c now delta).1 }

end ScopeState

/-- The device starts from a tree snapshot. -/
def ScopeState.start (c : ScopeConfig) (s : Db) (m : Mirror) : ScopeState where
  server := s
  mirror := m.treeResync s c.folderId c.scope

/-- The only grant that the reader has in the folder is on the scope. -/
def OnlyGrant (c : ScopeConfig) (s : Db) : Prop :=
  ∀ g ∈ s.folderGrants, g.folderId = c.folderId → s.grantee c.principal g = true → g.scopeNodeId = c.scope

/-- What has to hold at the snapshot: the folder is mounted, and the server has drawn all of its sequences. -/
structure ScopeStart (c : ScopeConfig) (s : Db) (m : Mirror) : Prop where
  drawn : s.SeqsDrawn
  keys : s.NodeKeys
  rows : ∀ r ∈ s.nodes, r.serverSeq ≤ s.lastSeq
  grant : OnlyGrant c s
  mounted : (lookup LocalMount.folderId c.folderId m.mounts).isSome

/-! ### What is asked for -/

/-- The live row of the folder that the mirror has for a node. -/
def ScopeConfig.live (c : ScopeConfig) (m : Mirror) (n : String) : Option LocalNode :=
  (m.getNode n).filter fun x => x.folderId = c.folderId && x.deletedAt.isNone

/-- The parent of a node, masked for the scope. -/
def ScopeConfig.parent (c : ScopeConfig) (r : NodeRow) : Option String :=
  if r.nodeId = c.scope then none else r.parentId

/-- The live nodes of the mirror are those of the server's subtree. -/
structure LiveSame (c : ScopeConfig) (s : Db) (m : Mirror) : Prop where
  shown : ∀ n x, c.live m n = some x → ∃ r, s.node n = some r ∧ n ∈ s.subtree c.scope ∧ r.deletedAt = none ∧
    x.name = r.name ∧ x.parentId = c.parent r ∧ x.currentVersionId = r.currentVersionId
  complete : ∀ n r, s.node n = some r → n ∈ s.subtree c.scope → r.deletedAt = none → ∃ x, c.live m n = some x

/-- The pull does its work in this state: the page can be applied, unless the cursor is above it, and if the page
leads to the head the mirror is left with the server's live nodes of the scope. -/
def PullsWell (c : ScopeConfig) (st : ScopeState) : Prop :=
  ∀ now delta, st.answer c = .ok delta →
    (∀ e, (st.receive c now delta).2 = .error e → e = .regressed delta.upToSeq (st.cursor c)) ∧
    ∀ pulled, (st.receive c now delta).2 = .ok pulled → delta.upToSeq = st.server.folderHeadSeq c.folderId →
      LiveSame c st.server (st.receive c now delta).1

/-! ### Conditions -/

section Conditions

variable (c : ScopeConfig) (st : ScopeState)

/-- The ops that the server has for the reader. -/
def ScopeState.served : List OpLogRow := st.server.servable c.folderId c.scope (st.cursor c)

/-- The mirror will know the node when it comes to the op `seq`: it has a row of the folder for it, or an earlier op
of the page creates it. -/
def ScopeState.Known (n : String) (seq : ℕ) : Prop :=
  (∃ x ∈ st.mirror.getNode n, x.folderId = c.folderId) ∨
    ∃ a ∈ st.served c, a.serverSeq < seq ∧ isCreate a.entry = true ∧ a.nodeId = n

/-- The node that has to be known before an op can be applied. -/
def neededNode (e : OpLogRow) : String :=
  match e.payload with
  | .create _ parentId _ _ => parentId
  | _ => e.nodeId

/-- The condition on a page.  No live row of the mirror is of a node that has left the scope; nodes that have entered
it were created there, under nodes that are known; and the scope itself was not moved. -/
structure PageOk : Prop where
  stayed : ∀ x ∈ st.mirror.nodes, x.folderId = c.folderId → x.deletedAt = none → x.nodeId ∈ st.server.subtree c.scope
  grounded : ∀ e ∈ st.served c, st.Known c (neededNode e) e.serverSeq
  created : ∀ r ∈ st.server.nodes, r.nodeId ∈ st.server.subtree c.scope → r.deletedAt = none →
    (c.live st.mirror r.nodeId).isSome ∨ ∃ a ∈ st.served c, isCreate a.entry = true ∧ a.nodeId = r.nodeId
  rooted : ∀ e ∈ st.served c, e.nodeId = c.scope → .parentId ∉ fields e.payload

/-- No op of a node in the scope is missing above the cursor: none was truncated, and none was written for another
folder. -/
def Unbroken : Prop :=
  ∀ e ∈ st.log, e.nodeId ∈ st.server.subtree c.scope → st.cursor c < e.serverSeq →
    e ∈ st.server.opLog ∧ e.folderId = c.folderId

instance (n : String) (seq : ℕ) : Decidable (st.Known c n seq) := inferInstanceAs (Decidable (_ ∨ _))

instance : Decidable (PageOk c st) :=
  decidable_of_iff ((∀ x ∈ st.mirror.nodes, x.folderId = c.folderId → x.deletedAt = none →
      x.nodeId ∈ st.server.subtree c.scope) ∧
    (∀ e ∈ st.served c, st.Known c (neededNode e) e.serverSeq) ∧
    (∀ r ∈ st.server.nodes, r.nodeId ∈ st.server.subtree c.scope → r.deletedAt = none →
      (c.live st.mirror r.nodeId).isSome ∨ ∃ a ∈ st.served c, isCreate a.entry = true ∧ a.nodeId = r.nodeId) ∧
    ∀ e ∈ st.served c, e.nodeId = c.scope → .parentId ∉ fields e.payload)
    ⟨fun h => ⟨h.1, h.2.1, h.2.2.1, h.2.2.2⟩, fun h => ⟨h.stayed, h.grounded, h.created, h.rooted⟩⟩

instance : Decidable (Unbroken c st) := inferInstanceAs (Decidable (∀ _ ∈ _, _ → _ → _))

/-- What the reader is served is the same on both databases, and the reader still has no other grant than on the
scope. -/
def Elsewhere (s s' : Db) : Prop :=
  s'.nodes = s.nodes ∧ s'.opLog = s.opLog ∧ s'.lastSeq = s.lastSeq ∧ OnlyGrant c s'

/-- The condition on an event, given the one on pages. -/
def EventOk (page : Prop) : ScopeEvent → Prop
  | .call call => st.server.Admits call
  | .other server => Elsewhere c st.server server
  | .pull _ => page
  | .truncate _ | .purge _ => True

/-- The condition on an event: where the event is a pull, the page is in order and no op above the cursor is
missing. -/
def ScopeOk (ev : ScopeEvent) : Prop := EventOk c st (PageOk c st ∧ Unbroken c st) ev

instance (s s' : Db) : Decidable (Elsewhere c s s') := inferInstanceAs (Decidable (_ ∧ _ ∧ _ ∧ ∀ _ ∈ _, _ → _ → _))

instance (page : Prop) [Decidable page] : (ev : ScopeEvent) → Decidable (EventOk c st page ev)
  | .call call => inferInstanceAs (Decidable (st.server.Admits call))
  | .other server => inferInstanceAs (Decidable (Elsewhere c st.server server))
  | .pull _ => inferInstanceAs (Decidable page)
  | .truncate _ | .purge _ => isTrue True.intro

instance (ev : ScopeEvent) : Decidable (ScopeOk c st ev) := inferInstanceAs (Decidable (EventOk _ _ _ _))

end Conditions

/-! ### The server's rows -/

/-- A column of a node, the parent of the scope masked. -/
def maskedValue (c : ScopeConfig) (n : String) : (f : Field) → f.Value → f.Value
  | .parentId, parent => if n = c.scope then (none : Option String) else parent
  | .name, name => name
  | .deleted, deleted => deleted
  | .currentVersionId, version => version

/-- A row of a node, the parent of the scope masked. -/
def masked (c : ScopeConfig) (n : String) (y : Copy Field.Value) : Copy Field.Value :=
  ⟨y.seq, fun f => maskedValue c n f (y.value f)⟩

/-- What an op writes, the parent of the scope masked. -/
def scopedWrites (c : ScopeConfig) (e : OpLogRow) (f : Field) : Option f.Value :=
  (entryWrites e f).map (maskedValue c e.nodeId f)

/-- What the server's row of a node was last, also when it was purged; `log` are the ops since the snapshot. -/
structure Shadow (c : ScopeConfig) (s : Db) (log : List OpLogRow) (last : String → Option (Copy Field.Value)) :
    Prop where
  row : ∀ n r, s.node n = some r → last n = some (masked c n (serverCopy r))
  known : ∀ e ∈ log, (last e.nodeId).isSome
  grown : ∀ n y, last n = some y → Grown entrySeq (scopedWrites c) (opsOf log n) y
  above : ∀ n y, last n = some y → ∀ e ∈ opsOf log n, entrySeq e ≤ y.seq
  drawn : ∀ n y, last n = some y → y.seq ≤ s.lastSeq

section Shadow

variable {c : ScopeConfig} {s s' : Db} {log : List OpLogRow} {last : String → Option (Copy Field.Value)} {e : OpLogRow}

theorem full_scoped (e : OpLogRow) : Full (scopedWrites c) e ↔ isCreate e.entry = true := by
  rw [← full_iff]
  simp [Full, scopedWrites]

/-- An op that does not place the scope writes what it says. -/
theorem scopedWrites_eq (h : e.nodeId = c.scope → .parentId ∉ fields e.payload) : scopedWrites c e = entryWrites e := by
  funext f
  have hsame : ∀ g, (e.nodeId = c.scope → g = Field.parentId → writes e.payload g = none) →
      (writes e.payload g).map (maskedValue c e.nodeId g) = writes e.payload g := by
    intro g hg
    cases g with
    | parentId =>
      by_cases hscope : e.nodeId = c.scope
      · rw [hg hscope rfl]
        rfl
      · have hid : maskedValue c e.nodeId .parentId = id := by
          funext v
          exact if_neg hscope
        rw [hid, Option.map_id, id]
    | name => exact congrFun Option.map_id _
    | deleted => exact congrFun Option.map_id _
    | currentVersionId => exact congrFun Option.map_id _
  refine hsame f fun hscope hf => ?_
  rw [hf, ← Option.not_isSome_iff_eq_none, writes_isSome]
  exact h hscope

/-- Masking and writing commute. -/
theorem masked_put (y : Copy Field.Value) (e : OpLogRow) :
    masked c e.nodeId (putEntry y e) = (masked c e.nodeId y).put entrySeq (scopedWrites c) e := by
  refine Copy.ext rfl (funext fun f => ?_)
  rw [put_value, scopedWrites]
  show maskedValue c e.nodeId f ((entryWrites e f).getD (y.value f)) = _
  cases entryWrites e f <;> rfl

/-- Rows that go are remembered. -/
theorem Shadow.rows (h : Shadow c s log last) (hrow : ∀ n r, s'.node n = some r → s.node n = some r)
    (hseq : s.lastSeq ≤ s'.lastSeq) : Shadow c s' log last where
  row n r hr := h.row n r (hrow n r hr)
  known := h.known
  grown := h.grown
  above := h.above
  drawn n y hy := (h.drawn n y hy).trans hseq

theorem node_dropNodes (hk : s.NodeKeys) {ids : List String} {n : String} {r : NodeRow}
    (hr : (s.dropNodes ids).node n = some r) : s.node n = some r := by
  obtain ⟨hmem, -⟩ := List.mem_filter.mp (mem_of_lookup hr)
  have hnode : r.nodeId = n := lookup_key hr
  exact hnode ▸ lookup_of_mem hk hmem

/-- The rows after an op. -/
def lastAfter (c : ScopeConfig) (s' : Db) (last : String → Option (Copy Field.Value)) (e : OpLogRow) (n : String) :
    Option (Copy Field.Value) :=
  if n = e.nodeId then (s'.node n).map fun r => masked c n (serverCopy r) else last n

/-- The row of the node takes the op. -/
theorem Shadow.put (h : Shadow c s log last) (ha : Appended s s' e) :
    ∃ z, lastAfter c s' last e e.nodeId = some (((last e.nodeId).getD z).put entrySeq (scopedWrites c) e) := by
  have hself : lastAfter c s' last e e.nodeId = (s'.node e.nodeId).map fun r => masked c e.nodeId (serverCopy r) :=
    if_pos rfl
  rcases ha.row with ⟨r, r', hr, hr', -, hput⟩ | ⟨-, hcreate, r', hr', -, hput⟩
  · refine ⟨masked c e.nodeId (serverCopy r), ?_⟩
    rw [hself, hr', h.row _ r hr, Option.map_some, hput, masked_put, Option.getD_some]
  · -- a create leaves nothing of what was there
    refine ⟨masked c e.nodeId (serverCopy r'), ?_⟩
    have hmasked := masked_put (c := c) (serverCopy r') e
    rw [← hput (serverCopy r')] at hmasked
    rw [hself, hr', Option.map_some, hmasked]
    exact congrArg some (put_of_full ((full_scoped e).mpr hcreate) _ _)

/-- **A commit** on any node. -/
theorem Shadow.commit (h : Shadow c s log last) (ha : Appended s s' e) (hle : ∀ a ∈ log, a.serverSeq ≤ s.lastSeq) :
    Shadow c s' (log ++ [e]) (lastAfter c s' last e) := by
  obtain ⟨z, hz⟩ := h.put ha
  have hseq := ha.seq
  have hlast := ha.lastSeq
  have hother : ∀ n, n ≠ e.nodeId → lastAfter c s' last e n = last n := fun n hn => if_neg hn
  refine ⟨fun n r hr => ?_, fun a hmem => ?_, fun n y hy => ?_, fun n y hy a hmem => ?_, fun n y hy => ?_⟩
  · by_cases hn : n = e.nodeId
    · subst hn
      rw [lastAfter, if_pos rfl, hr, Option.map_some]
    · rw [hother n hn]
      exact h.row n r ((ha.other n hn).symm.trans hr)
  · by_cases hn : a.nodeId = e.nodeId
    · rw [hn, hz]
      rfl
    · rw [hother _ hn]
      rcases List.mem_append.mp hmem with hmem | hmem
      · exact h.known a hmem
      · exact absurd (congrArg OpLogRow.nodeId (List.mem_singleton.mp hmem)) hn
  · by_cases hn : n = e.nodeId
    · subst hn
      rw [hz] at hy
      cases hy
      rw [opsOf_concat_self]
      cases hold : last e.nodeId with
      | some y => exact (h.grown _ y hold).extend e
      | none =>
        have hnil : opsOf log e.nodeId = [] := by
          refine List.eq_nil_iff_forall_not_mem.mpr fun a hmem => ?_
          obtain ⟨hmem, hn⟩ := mem_opsOf.mp hmem
          have hknown := h.known a hmem
          rw [hn, hold] at hknown
          cases hknown
        rw [hnil]
        exact Grown.single z e
    · rw [hother n hn] at hy
      rw [opsOf_concat_ne hn]
      exact h.grown n y hy
  · by_cases hn : n = e.nodeId
    · subst hn
      rw [hz] at hy
      cases hy
      show a.serverSeq ≤ e.serverSeq
      rcases List.mem_append.mp (mem_opsOf.mp hmem).1 with hmem | hmem
      · have hbound := hle a hmem
        omega
      · rw [List.mem_singleton.mp hmem]
    · rw [hother n hn] at hy
      rw [opsOf_concat_ne hn] at hmem
      exact h.above n y hy a hmem
  · by_cases hn : n = e.nodeId
    · subst hn
      rw [hz] at hy
      cases hy
      show e.serverSeq ≤ s'.lastSeq
      omega
    · rw [hother n hn] at hy
      have hbound := h.drawn n y hy
      omega

end Shadow

/-! ### Rows of the mirror -/

/-- The mirror's copy of a node misses nothing but the ops above `k`: the ops of the node up to there have made it
what it is. -/
def FollowsNode (c : ScopeConfig) (log : List OpLogRow) (last : String → Option (Copy Field.Value)) (k : ℕ)
    (m : Mirror) (n : String) : Prop :=
  ∃ x y, m.copy n = some x ∧ last n = some y ∧ Tracks entrySeq (scopedWrites c) (opsOf log n) k y x

/-- The copies of all nodes that the mirror shows as live follow the server's, up to the ops above `k`. -/
def Held (c : ScopeConfig) (log : List OpLogRow) (last : String → Option (Copy Field.Value)) (k : ℕ)
    (m : Mirror) : Prop :=
  ∀ n x, c.live m n = some x → FollowsNode c log last k m n

/-- The mirror has a row of the folder. -/
def ScopeConfig.Has (c : ScopeConfig) (m : Mirror) (n : String) : Prop :=
  ∃ x, m.getNode n = some x ∧ x.folderId = c.folderId

section Rows

variable {c : ScopeConfig} {s s' : Db} {log : List OpLogRow} {last : String → Option (Copy Field.Value)} {e : OpLogRow}
variable {m m' : Mirror} {k now : ℕ} {n : String} {x : LocalNode}

theorem live_some : c.live m n = some x ↔ m.getNode n = some x ∧ x.folderId = c.folderId ∧ x.deletedAt = none := by
  rw [ScopeConfig.live, Option.filter_eq_some_iff]
  simp

/-- A commit leaves the mirror behind by one op. -/
theorem Held.commit (h : Held c log last k m) (hs : Shadow c s log last) (ha : Appended s s' e) (hk : k ≤ s.lastSeq) :
    Held c (log ++ [e]) (lastAfter c s' last e) k m := by
  intro n x hx
  obtain ⟨copy, y, hcopy, hy, htracks⟩ := h n x hx
  have hseq : entrySeq e = s.lastSeq + 1 := ha.seq
  by_cases hn : n = e.nodeId
  · subst hn
    obtain ⟨z, hz⟩ := hs.put ha
    rw [hy] at hz
    refine ⟨copy, _, hcopy, hz, ?_⟩
    have hle := htracks.exact.seq_le (hs.above _ y hy)
    have hdrawn := hs.drawn _ y hy
    rw [opsOf_concat_self]
    exact htracks.extend (by omega) (by omega)
  · refine ⟨copy, y, hcopy, (if_neg hn).trans hy, ?_⟩
    rwa [opsOf_concat_ne hn]

/-- What an op other than a create does to the row of its node. -/
theorem getNode_applyOpLogEntry {entry : OpLogEntry} (hc : isCreate entry = false)
    (h : m.applyOpLogEntry now entry = .ok m') :
    ∃ f : LocalNode → LocalNode, m'.getNode entry.nodeId = (m.getNode entry.nodeId).map f ∧
      ∀ x, (f x).folderId = x.folderId ∧ ((f x).deletedAt = none → x.deletedAt = none) := by
  have hupdate : ∀ f : LocalNode → LocalNode, (∀ r, (f r).nodeId = r.nodeId) →
      (m.updateNode entry.nodeId f).getNode entry.nodeId = (m.getNode entry.nodeId).map f :=
    fun f hf => getNode_updateNode_self hf
  rw [Mirror.applyOpLogEntry] at h
  split at h
  · cases h
    exact ⟨id, by simp, fun x => ⟨rfl, id⟩⟩
  rw [Mirror.applyPayload] at h
  split at h
  · next hp =>
    rw [isCreate, hp] at hc
    cases hc
  · cases h
    exact ⟨_, hupdate _ fun _ => rfl, fun x => ⟨rfl, id⟩⟩
  · cases h
    exact ⟨_, hupdate _ fun _ => rfl, fun x => ⟨rfl, id⟩⟩
  · cases h
    refine ⟨_, hupdate _ fun _ => rfl, fun x => ⟨rfl, fun hdead => ?_⟩⟩
    cases hdead
  · rw [Mirror.applyNewVersion] at h
    split at h
    · cases h
    · cases h
      rw [Mirror.recordVersion]
      split
      · exact ⟨_, hupdate _ fun _ => rfl, fun x => ⟨rfl, id⟩⟩
      · exact ⟨_, hupdate _ fun _ => rfl, fun x => ⟨rfl, id⟩⟩

/-- A pulled create leaves a row in the folder of the parent. -/
theorem getNode_applyOpLogEntry_create (hc : isCreate e.entry = true) (h : m.applyOpLogEntry now e.entry = .ok m') :
    ∃ parent x, m.getNode (neededNode e) = some parent ∧ m'.getNode e.nodeId = some x ∧
      x.folderId = parent.folderId := by
  have hstale : m.stale e.entry = false := by rw [Mirror.stale, hc, Bool.not_true, Bool.false_and]
  rw [Mirror.applyOpLogEntry, hstale, if_neg (by simp), Mirror.applyPayload] at h
  split at h
  · next n parentId name type hp =>
    have hp' : e.payload = .create n parentId name type := hp
    have hneeds : neededNode e = parentId := by rw [neededNode, hp']
    rw [Mirror.applyCreate] at h
    split at h
    · cases h
    · next parent hparent =>
      cases h
      refine ⟨parent, _, hneeds ▸ hparent, getNode_upsertNode_self
        (createdNode parent.folderId e.nodeId parentId name type e.serverSeq), ?_⟩
      cases m.getNode _ <;> rfl
  all_goals
    next hp =>
    rw [isCreate, hp] at hc
    cases hc

/-- **Nothing is unknown** to an op whose node is there, or its parent. -/
theorem applyOpLogEntry_ok (now : ℕ) (h : (m.getNode (neededNode e)).isSome) :
    ∃ m' node, m.applyOpLogEntry now e.entry = .ok m' ∧
      buildPulledNode e.entry (m'.getNode e.nodeId) (m.getNode e.nodeId) = .ok node := by
  obtain ⟨x, hx⟩ := Option.isSome_iff_exists.mp h
  have happlied : ∃ m', m.applyOpLogEntry now e.entry = .ok m' := by
    rw [Mirror.applyOpLogEntry]
    split
    · exact ⟨m, rfl⟩
    rw [Mirror.applyPayload]
    split
    · next n parentId name type hp =>
      have hp' : e.payload = .create n parentId name type := hp
      rw [neededNode, hp'] at hx
      rw [Mirror.applyCreate, hx]
      exact ⟨_, rfl⟩
    · exact ⟨_, rfl⟩
    · exact ⟨_, rfl⟩
    · exact ⟨_, rfl⟩
    · next versionId contentHash sizeBytes manifest isConflictCopy hp =>
      have hp' : e.payload = .newVersion versionId contentHash sizeBytes manifest isConflictCopy := hp
      rw [neededNode, hp'] at hx
      have hx' : m.getNode e.entry.nodeId = some x := hx
      rw [Mirror.applyNewVersion, hx']
      exact ⟨_, rfl⟩
  obtain ⟨m', hm⟩ := happlied
  -- the row of the node is there afterwards
  have hafter : ∃ x', m'.getNode e.nodeId = some x' := by
    cases hc : isCreate e.entry with
    | true =>
      obtain ⟨parent, x', -, hx', -⟩ := getNode_applyOpLogEntry_create hc hm
      exact ⟨x', hx'⟩
    | false =>
      obtain ⟨f, hf, -⟩ := getNode_applyOpLogEntry hc hm
      have hneeds : neededNode e = e.nodeId := by
        rw [neededNode]
        split
        · next hp =>
          rw [isCreate, OpLogRow.entry, hp] at hc
          cases hc
        · rfl
      rw [hneeds] at hx
      have hf' : m'.getNode e.nodeId = (m.getNode e.nodeId).map f := hf
      rw [hx] at hf'
      exact ⟨f x, hf'⟩
  obtain ⟨x', hx'⟩ := hafter
  exact ⟨m', _, hm, by rw [hx', buildPulledNode, Option.some_or]⟩

/-- A row of the folder stays one. -/
theorem ScopeConfig.Has.applyOpLogEntry (h : c.Has m n) (hneeds : c.Has m (neededNode e))
    (hm : m.applyOpLogEntry now e.entry = .ok m') : c.Has m' n := by
  obtain ⟨x, hx, hfolder⟩ := h
  by_cases hn : n = e.nodeId
  case neg => exact ⟨x, (getNode_applyOpLogEntry_ne hm hn).trans hx, hfolder⟩
  subst hn
  cases hc : isCreate e.entry with
  | true =>
    obtain ⟨parent, hparent, hin⟩ := hneeds
    obtain ⟨parent', x', hparent', hx', hsame⟩ := getNode_applyOpLogEntry_create hc hm
    rw [hparent] at hparent'
    cases hparent'
    exact ⟨x', hx', hsame.trans hin⟩
  | false =>
    obtain ⟨f, hf, hsame⟩ := getNode_applyOpLogEntry hc hm
    have hf' : m'.getNode e.nodeId = (m.getNode e.nodeId).map f := hf
    rw [hx] at hf'
    exact ⟨f x, hf', (hsame x).1.trans hfolder⟩

/-- A created node has a row of the folder. -/
theorem has_created (hc : isCreate e.entry = true) (hneeds : c.Has m (neededNode e))
    (hm : m.applyOpLogEntry now e.entry = .ok m') : c.Has m' e.nodeId := by
  obtain ⟨parent, hparent, hin⟩ := hneeds
  obtain ⟨parent', x', hparent', hx', hsame⟩ := getNode_applyOpLogEntry_create hc hm
  rw [hparent] at hparent'
  cases hparent'
  exact ⟨x', hx', hsame.trans hin⟩

/-- Only a create makes a row live. -/
theorem live_applyOpLogEntry (hm : m.applyOpLogEntry now e.entry = .ok m') (hx : c.live m' n = some x) :
    (∃ x₀, c.live m n = some x₀) ∨ n = e.nodeId ∧ isCreate e.entry = true := by
  obtain ⟨hget, hfolder, halive⟩ := live_some.mp hx
  by_cases hn : n = e.nodeId
  case neg => exact .inl ⟨x, live_some.mpr ⟨(getNode_applyOpLogEntry_ne hm hn).symm.trans hget, hfolder, halive⟩⟩
  subst hn
  cases hc : isCreate e.entry with
  | true => exact .inr ⟨rfl, rfl⟩
  | false =>
    obtain ⟨f, hf, hsame⟩ := getNode_applyOpLogEntry hc hm
    have hf' : m'.getNode e.nodeId = (m.getNode e.nodeId).map f := hf
    rw [hget] at hf'
    obtain ⟨x₀, hx₀, rfl⟩ := Option.map_eq_some_iff.mp hf'.symm
    exact .inl ⟨x₀, live_some.mpr ⟨hx₀, (hsame x₀).1.symm.trans hfolder, (hsame x₀).2 halive⟩⟩

end Rows

/-! ### Pages -/

/-- The ops of a page that are still to be delivered; `inside` are the nodes in the scope, and `top` is where the
page ends. -/
structure Pending (c : ScopeConfig) (log : List OpLogRow) (inside : List String) (top k : ℕ) (m : Mirror)
    (ops : List OpLogRow) : Prop where
  sorted : Ascending entrySeq ops
  above : ∀ e ∈ ops, k < entrySeq e
  below : ∀ e ∈ ops, entrySeq e ≤ top
  logged : ∀ e ∈ ops, e ∈ log
  nodes : ∀ e ∈ ops, e.nodeId ∈ inside
  rooted : ∀ e ∈ ops, scopedWrites c e = entryWrites e
  complete : ∀ e ∈ log, e.nodeId ∈ inside → k < entrySeq e → entrySeq e ≤ top → e ∈ ops
  grounded : ∀ e ∈ ops, c.Has m (neededNode e) ∨
    ∃ a ∈ ops, entrySeq a < entrySeq e ∧ isCreate a.entry = true ∧ a.nodeId = neededNode e

/-- The copies of the tracked nodes miss nothing but the ops above `k`, and no other node is live. -/
structure Following (c : ScopeConfig) (log : List OpLogRow) (last : String → Option (Copy Field.Value))
    (inside : List String) (tracked : String → Prop) (k : ℕ) (m : Mirror) : Prop where
  live : ∀ n x, c.live m n = some x → tracked n
  nodes : ∀ n, tracked n → n ∈ inside
  has : ∀ n, tracked n → c.Has m n
  follows : ∀ n, tracked n → FollowsNode c log last k m n

section Pages

variable {c : ScopeConfig} {s : Db} {log ops : List OpLogRow} {last : String → Option (Copy Field.Value)}
variable {inside : List String} {tracked : String → Prop} {e : OpLogRow} {m m' : Mirror} {top k now : ℕ}

/-- The first op needs nothing that is not there. -/
theorem Pending.needed (h : Pending c log inside top k m (e :: ops)) : c.Has m (neededNode e) := by
  refine (h.grounded e (by simp)).resolve_right ?_
  rintro ⟨a, ha, hlt, -⟩
  rcases List.mem_cons.mp ha with rfl | ha
  · omega
  · have hgt := List.rel_of_pairwise_cons h.sorted ha
    omega

/-- After it the others are still to be delivered. -/
theorem Pending.tail (h : Pending c log inside top k m (e :: ops)) (hm : m.applyOpLogEntry now e.entry = .ok m') :
    Pending c log inside top (entrySeq e) m' ops where
  sorted := h.sorted.of_cons
  above a ha := List.rel_of_pairwise_cons h.sorted ha
  below a ha := h.below a (List.mem_cons_of_mem e ha)
  logged a ha := h.logged a (List.mem_cons_of_mem e ha)
  nodes a ha := h.nodes a (List.mem_cons_of_mem e ha)
  rooted a ha := h.rooted a (List.mem_cons_of_mem e ha)
  complete a ha hn hlt hle := by
    have hk := h.above e (by simp)
    rcases List.mem_cons.mp (h.complete a ha hn (hk.trans hlt) hle) with rfl | hmem
    · omega
    · exact hmem
  grounded a ha := by
    rcases h.grounded a (List.mem_cons_of_mem e ha) with hhas | ⟨b, hb, hlt, hc, hn⟩
    · exact .inl (hhas.applyOpLogEntry h.needed hm)
    rcases List.mem_cons.mp hb with rfl | hb
    · exact .inl (hn ▸ has_created hc h.needed hm)
    · exact .inr ⟨b, hb, hlt, hc, hn⟩

/-- The first op is the next one of every node in the scope. -/
theorem Pending.next (h : Pending c log inside top k m (e :: ops)) {n : String} (hn : n ∈ inside) :
    ∀ a ∈ opsOf log n, k < entrySeq a → entrySeq e ≤ entrySeq a ∧ (entrySeq a = entrySeq e → a = e) := by
  intro a ha hlt
  obtain ⟨hlog, rfl⟩ := mem_opsOf.mp ha
  have hbelow := h.below e (by simp)
  by_cases hle : entrySeq a ≤ top
  case neg => exact ⟨by omega, fun heq => by omega⟩
  rcases List.mem_cons.mp (h.complete a hlog hn hlt hle) with rfl | hmem
  · exact ⟨le_rfl, fun _ => rfl⟩
  · have hgt := List.rel_of_pairwise_cons h.sorted hmem
    exact ⟨hgt.le, fun heq => by omega⟩

/-- **One op**: the nodes that were tracked still are, and a created one is from now on. -/
theorem Following.deliver (h : Following c log last inside tracked k m) (hs : Shadow c s log last)
    (hasc : Ascending entrySeq log) (hp : Pending c log inside top k m (e :: ops))
    (hm : m.applyOpLogEntry now e.entry = .ok m') :
    Following c log last inside (fun n => tracked n ∨ n = e.nodeId ∧ isCreate e.entry = true) (entrySeq e) m' where
  live n x hx := by
    rcases live_applyOpLogEntry hm hx with ⟨x₀, hx₀⟩ | hcreated
    · exact .inl (h.live n x₀ hx₀)
    · exact .inr hcreated
  nodes n hn := by
    rcases hn with hn | ⟨rfl, -⟩
    · exact h.nodes n hn
    · exact hp.nodes e (by simp)
  has n hn := by
    rcases hn with hn | ⟨rfl, hc⟩
    · exact (h.has n hn).applyOpLogEntry hp.needed hm
    · exact has_created hc hp.needed hm
  follows n hn := by
    have hlog : e ∈ log := hp.logged e (by simp)
    have hinside : n ∈ inside := by
      rcases hn with hn | ⟨rfl, -⟩
      · exact h.nodes n hn
      · exact hp.nodes e (by simp)
    by_cases hne : n = e.nodeId
    case neg =>
      obtain ⟨x, y, hx, hy, htracks⟩ := h.follows n (hn.resolve_right fun h => hne h.1)
      have hframe : m'.copy n = m.copy n := by
        rw [Mirror.copy, getNode_applyOpLogEntry_ne hm hne, Mirror.copy]
      refine ⟨x, y, hframe.trans hx, hy, htracks.skip fun a ha hle => ?_⟩
      by_contra hlt
      obtain ⟨hge, heq⟩ := hp.next hinside a ha (by omega)
      have hae := heq (by omega)
      exact hne ((mem_opsOf.mp ha).2.symm.trans (congrArg OpLogRow.nodeId hae))
    subst hne
    have hmem : e ∈ opsOf log e.nodeId := mem_opsOf.mpr ⟨hlog, rfl⟩
    have hsorted := ascending_opsOf hasc e.nodeId
    have hwrites : scopedWrites c e = entryWrites e := hp.rooted e (by simp)
    cases hc : isCreate e.entry with
    | true =>
      obtain ⟨y, hy⟩ := Option.isSome_iff_exists.mp (hs.known e hlog)
      have hcopy := copy_applyOpLogEntry_create hc hm y
      refine ⟨_, y, hcopy, hy, ?_⟩
      have hput : putEntry y e = y.put entrySeq (scopedWrites c) e := by rw [putEntry, Copy.put, Copy.put, hwrites]
      rw [hput]
      exact Tracks.reset (hs.grown _ y hy) hsorted hmem ((full_scoped e).mpr hc) y
    | false =>
      have htracked : tracked e.nodeId := hn.resolve_right fun h => by rw [hc] at h; cases h.2
      obtain ⟨x, y, hx, hy, htracks⟩ := h.follows _ htracked
      have hcopy := copy_applyOpLogEntry hc hm
      rw [hx] at hcopy
      refine ⟨_, y, hcopy, hy, ?_⟩
      have hreceive : x.receive entrySeq entryWrites e = x.receive entrySeq (scopedWrites c) e := by
        rw [Copy.receive, Copy.receive, Copy.put, Copy.put, hwrites]
      show Tracks _ _ _ _ _ (x.receive entrySeq entryWrites e)
      rw [hreceive]
      exact htracks.receive hsorted hmem fun a ha hlt => (hp.next hinside a ha hlt).1

/-- The cursor passes numbers that no op in the scope has. -/
theorem Following.skip (h : Following c log last inside tracked k m) {k' : ℕ}
    (hgap : ∀ a ∈ log, a.nodeId ∈ inside → entrySeq a ≤ k' → entrySeq a ≤ k) :
    Following c log last inside tracked k' m where
  live := h.live
  nodes := h.nodes
  has := h.has
  follows n hn := by
    obtain ⟨x, y, hx, hy, htracks⟩ := h.follows n hn
    refine ⟨x, y, hx, hy, htracks.skip fun a ha hle => ?_⟩
    obtain ⟨hlog, rfl⟩ := mem_opsOf.mp ha
    exact hgap a hlog (h.nodes _ hn) hle

/-- What the mirror follows, it follows also after rows of its cursor are set. -/
theorem Following.setCursor (h : Following c log last inside tracked k m) (folderId : String) (seq : ℕ) :
    Following c log last inside tracked k (m.setCursor folderId seq) :=
  ⟨h.live, h.nodes, h.has, h.follows⟩

variable (now) in
/-- **The ops of a page** can all be applied. -/
theorem Following.applyOps (h : Following c log last inside tracked k m) (hs : Shadow c s log last)
    (hasc : Ascending entrySeq log) (hp : Pending c log inside top k m ops) :
    ∃ pulled tracked', (m.applyOps now (ops.map OpLogRow.entry)).2 = .ok pulled ∧
      Following c log last inside tracked' top (m.applyOps now (ops.map OpLogRow.entry)).1 ∧
      (∀ n, tracked n → tracked' n) ∧ ∀ a ∈ ops, isCreate a.entry = true → tracked' a.nodeId := by
  induction ops generalizing k m tracked with
  | nil =>
    refine ⟨[], tracked, rfl, h.skip fun a ha hn hle => ?_, fun n hn => hn, by simp⟩
    by_contra hlt
    exact absurd (hp.complete a ha hn (by omega) hle) List.not_mem_nil
  | cons e ops ih =>
    obtain ⟨x, hx, -⟩ := hp.needed
    obtain ⟨m', node, hm, hnode⟩ := applyOpLogEntry_ok now (e := e) (m := m) (by rw [hx]; rfl)
    obtain ⟨pulled, tracked', hres, hfollowing, hkept, hcreated⟩ := ih (h.deliver hs hasc hp hm) (hp.tail hm)
    have happly : m.applyOps now ((e :: ops).map OpLogRow.entry) =
        ((m'.applyOps now (ops.map OpLogRow.entry)).1, .ok (node :: pulled)) := by
      have hnode' : buildPulledNode e.entry (m'.getNode e.entry.nodeId) (m.getNode e.entry.nodeId) = .ok node := hnode
      rw [List.map_cons, Mirror.applyOps, hm]
      dsimp only
      rw [hnode']
      dsimp only
      rcases hrest : m'.applyOps now (ops.map OpLogRow.entry) with ⟨m'', result⟩
      rw [hrest] at hres
      cases hres
      rfl
    rw [happly]
    refine ⟨node :: pulled, tracked', rfl, hfollowing, fun n hn => hkept n (.inl hn), fun a ha hc => ?_⟩
    rcases List.mem_cons.mp ha with rfl | ha
    · exact hkept _ (.inr ⟨rfl, hc⟩)
    · exact hcreated a ha hc

end Pages

/-! ### The invariant -/

/-- The invariant; `last` are the last rows of the nodes. -/
structure ScopeInv (c : ScopeConfig) (last : String → Option (Copy Field.Value)) (st : ScopeState) : Prop where
  drawn : st.server.SeqsDrawn
  keys : st.server.NodeKeys
  grant : OnlyGrant c st.server
  mounted : (lookup LocalMount.folderId c.folderId st.mirror.mounts).isSome
  ascending : Ascending entrySeq st.log
  bounded : ∀ e ∈ st.log, e.serverSeq ≤ st.server.lastSeq
  logged : ∀ e ∈ st.server.opLog, e.folderId = c.folderId → e ∈ st.log ∨ e.serverSeq ≤ st.cursor c
  cursor : st.cursor c ≤ st.server.lastSeq
  shadow : Shadow c st.server st.log last
  held : Held c st.log last (st.cursor c) st.mirror

/-- The page that the server has for the reader. -/
def ScopeState.nextPage (c : ScopeConfig) (st : ScopeState) : DeltaPullResponse :=
  deltaPage st.server c.folderId c.scope (st.cursor c)

/-- No op of a node in the scope is missing from the page. -/
def Whole (c : ScopeConfig) (st : ScopeState) : Prop :=
  ∀ e ∈ st.log, e.nodeId ∈ st.server.subtree c.scope → st.cursor c < e.serverSeq →
    e.serverSeq ≤ (st.nextPage c).upToSeq → e ∈ st.server.opLog ∧ e.folderId = c.folderId

section Invariant

variable {c : ScopeConfig} {s : Db} {st : ScopeState} {last : String → Option (Copy Field.Value)} {now : ℕ}

theorem Unbroken.whole (h : Unbroken c st) : Whole c st := fun e he hn hlt _ => h e he hn hlt

/-- A call leaves the grants alone. -/
theorem OnlyGrant.fixed {s' : Db} (h : OnlyGrant c s) (hf : Fixed s s') : OnlyGrant c s' := by
  intro g hg hfolder hgrantee
  have hsame : s'.grantee c.principal g = s.grantee c.principal g := by
    rw [Db.grantee, Db.grantee, Db.principalUser.eq_def, Db.principalUser.eq_def, hf.devices]
  exact h g (hf.folderGrants ▸ hg) hfolder (hsame ▸ hgrantee)

theorem entry_scope (hg : OnlyGrant c s) {n : String} (h : s.entry c.folderId c.principal = some n) : n = c.scope := by
  obtain ⟨root, -, h⟩ := Option.bind_eq_some_iff.mp h
  split at h
  · next hany =>
    cases h
    obtain ⟨g, hat, -⟩ := (Option.any_eq_true _ _).mp hany
    obtain ⟨hmem, hscope, hfolder, hgrantee⟩ := Db.grantAt_some hat
    rw [← hscope]
    exact hg g hmem hfolder hgrantee
  · obtain ⟨g, hfirst, rfl⟩ := Option.map_eq_some_iff.mp h
    obtain ⟨hfound, -⟩ := Option.filter_eq_some_iff.mp hfirst
    have hcond := List.find?_some hfound
    rw [Bool.and_eq_true, decide_eq_true_eq] at hcond
    exact hg g (List.mem_of_find?_eq_some hfound) hcond.1 hcond.2

/-- What the server answers is a page of the scope. -/
theorem ScopeInv.answer (h : ScopeInv c last st) {delta : DeltaPullResponse} (hd : st.answer c = .ok delta) :
    delta = st.nextPage c := by
  rw [ScopeState.answer] at hd
  cases hentry : st.server.entry c.folderId c.principal with
  | none =>
    obtain ⟨e, he⟩ := (runBody_pull_error h.keys hentry).2 (st.cursor c)
    rw [he] at hd
    cases hd
  | some n =>
    rw [entry_scope h.grant hentry] at hentry
    rw [runBody_pullDelta h.keys hentry] at hd
    cases hd
    rfl

/-- Before a page every live node is tracked. -/
theorem ScopeInv.following (h : ScopeInv c last st) (hok : PageOk c st) :
    Following c st.log last (st.server.subtree c.scope) (fun n => ∃ x, c.live st.mirror n = some x) (st.cursor c)
      st.mirror where
  live n x hx := ⟨x, hx⟩
  nodes n hn := by
    obtain ⟨x, hx⟩ := hn
    obtain ⟨hget, hfolder, halive⟩ := live_some.mp hx
    have hnode : x.nodeId = n := lookup_key hget
    exact hnode ▸ hok.stayed x (mem_of_lookup hget) hfolder halive
  has n hn := by
    obtain ⟨x, hx⟩ := hn
    obtain ⟨hget, hfolder, -⟩ := live_some.mp hx
    exact ⟨x, hget, hfolder⟩
  follows n hn := by
    obtain ⟨x, hx⟩ := hn
    exact h.held n x hx

/-- A page ends at its last op, or at the head. -/
theorem deltaPage_upToSeq (hd : s.SeqsDrawn) (folderId scope : String) (since : ℕ) :
    (Client.deltaPage s folderId scope since).upToSeq ≤ s.lastSeq ∧
      ∀ l, (s.deltaRows folderId scope since).getLast? = some l →
        (Client.deltaPage s folderId scope since).upToSeq = l.serverSeq := by
  rw [Client.deltaPage, deltaResponse]
  dsimp only
  cases hlast : (s.deltaRows folderId scope since).getLast? with
  | none => exact ⟨folderHeadSeq_le hd, fun l hl => by cases hl⟩
  | some l =>
    refine ⟨hd.le l (mem_deltaRows (List.mem_of_getLast? hlast)).1, fun l' hl => ?_⟩
    cases hl
    rfl

/-- The ops of the page. -/
theorem ScopeInv.pending (h : ScopeInv c last st) (hok : PageOk c st) (hwhole : Whole c st) :
    Pending c st.log (st.server.subtree c.scope) (st.nextPage c).upToSeq (st.cursor c) st.mirror
      (st.server.deltaRows c.folderId c.scope (st.cursor c)) := by
  have hsorted : (st.server.deltaRows c.folderId c.scope (st.cursor c)).Pairwise
      fun a b => a.serverSeq < b.serverSeq := deltaRows_increasing h.drawn.nodup
  have hserved : ∀ e ∈ st.server.deltaRows c.folderId c.scope (st.cursor c), e ∈ st.served c :=
    fun e he => (List.mem_insertionSort bySeq).mp (List.mem_of_mem_take he)
  -- what is at or below the end of the page is in the page
  have hcomplete : ∀ a ∈ st.served c, a.serverSeq ≤ (st.nextPage c).upToSeq →
      a ∈ st.server.deltaRows c.folderId c.scope (st.cursor c) := by
    intro a ha hle
    refine deltaRows_complete h.drawn.nodup ha fun l hl => ?_
    have hend := (deltaPage_upToSeq h.drawn c.folderId c.scope (st.cursor c)).2 l hl
    exact hle.trans hend.le
  have hbelow : ∀ e ∈ st.server.deltaRows c.folderId c.scope (st.cursor c), e.serverSeq ≤ (st.nextPage c).upToSeq := by
    intro e he
    cases hlast : (st.server.deltaRows c.folderId c.scope (st.cursor c)).getLast? with
    | none =>
      rw [List.getLast?_eq_none_iff.mp hlast] at he
      cases he
    | some l =>
      have hend := (deltaPage_upToSeq h.drawn c.folderId c.scope (st.cursor c)).2 l hlast
      exact (le_getLast hsorted hlast he).trans hend.ge
  refine ⟨hsorted, fun e he => (mem_deltaRows he).2.2, hbelow, fun e he => ?_, fun e he => ?_, fun e he => ?_,
    fun e he hn hlt hle => ?_, fun e he => ?_⟩
  · obtain ⟨hmem, hfolder, hlt⟩ := mem_deltaRows he
    exact (h.logged e hmem hfolder).resolve_right (by omega)
  · exact (mem_servable.mp (hserved e he)).2.2.2
  · exact scopedWrites_eq (hok.rooted e (hserved e he))
  · obtain ⟨hmem, hfolder⟩ := hwhole e he hn hlt hle
    exact hcomplete e (mem_servable.mpr ⟨hmem, hfolder, hlt, hn⟩) hle
  · rcases hok.grounded e (hserved e he) with ⟨x, hx, hfolder⟩ | ⟨a, ha, hlt, hc, hn⟩
    · exact .inl ⟨x, hx, hfolder⟩
    · have hle := hbelow e he
      exact .inr ⟨a, hcomplete a ha (by omega), hlt, hc, hn⟩

/-- **A page**: all of it can be applied, and the mirror follows the server up to its end. -/
theorem ScopeInv.page (h : ScopeInv c last st) (hok : PageOk c st) (hwhole : Whole c st) (now : ℕ) :
    ∃ pulled tracked m', st.mirror.applyOps now (st.nextPage c).ops = (m', .ok pulled) ∧
      Following c st.log last (st.server.subtree c.scope) tracked (st.nextPage c).upToSeq m' ∧
      (∀ n x, c.live st.mirror n = some x → tracked n) ∧
      ∀ a ∈ st.server.deltaRows c.folderId c.scope (st.cursor c), isCreate a.entry = true → tracked a.nodeId := by
  obtain ⟨pulled, tracked, hres, hfollowing, hkept, hcreated⟩ :=
    (h.following hok).applyOps now h.shadow h.ascending (h.pending hok hwhole)
  refine ⟨pulled, tracked, _, Prod.ext rfl hres, hfollowing, fun n x hx => hkept n ⟨x, hx⟩, hcreated⟩

/-- What has caught up has the columns of the server's row. -/
theorem Shadow.same (h : Shadow c s st.log last) {m : Mirror} {n : String} {r : NodeRow} {k : ℕ}
    (hf : FollowsNode c st.log last k m n) (hr : s.node n = some r) (hall : ∀ a ∈ opsOf st.log n, entrySeq a ≤ k) :
    ∃ x, m.getNode n = some x ∧ x.name = r.name ∧ x.parentId = c.parent r ∧
      x.currentVersionId = r.currentVersionId ∧ (x.deletedAt = none ↔ r.deletedAt = none) := by
  obtain ⟨x', y, hcopy, hy, htracks⟩ := hf
  obtain ⟨x, hx, rfl⟩ := Option.map_eq_some_iff.mp hcopy
  rw [h.row n r hr] at hy
  cases hy
  have hsame := htracks.caughtUp hall
  have hid : r.nodeId = n := lookup_key hr
  have hvalue : ∀ f, (mirrorCopy x).value f = maskedValue c n f ((serverCopy r).value f) := fun f => by rw [hsame]; rfl
  have hdeleted : x.deletedAt.isSome = r.deletedAt.isSome := hvalue .deleted
  have hparent : x.parentId = if n = c.scope then none else r.parentId := hvalue .parentId
  refine ⟨x, hx, hvalue .name, ?_, hvalue .currentVersionId, ?_⟩
  · rw [hparent, ScopeConfig.parent, hid]
  · rw [← Option.not_isSome_iff_eq_none, ← Option.not_isSome_iff_eq_none, hdeleted]

/-- **With nothing above the cursor** the live nodes are the server's. -/
theorem ScopeInv.liveSame (h : ScopeInv c last st) (hok : PageOk c st) {tracked : String → Prop} {m : Mirror} {top : ℕ}
    (hf : Following c st.log last (st.server.subtree c.scope) tracked top m)
    (htop : ∀ a ∈ st.log, a.nodeId ∈ st.server.subtree c.scope → a.serverSeq ≤ top)
    (hlive : ∀ n x, c.live st.mirror n = some x → tracked n)
    (hcreated : ∀ a ∈ st.served c, isCreate a.entry = true → tracked a.nodeId) : LiveSame c st.server m := by
  have hall : ∀ n, tracked n → ∀ a ∈ opsOf st.log n, entrySeq a ≤ top := by
    intro n hn a ha
    obtain ⟨hlog, rfl⟩ := mem_opsOf.mp ha
    exact htop a hlog (hf.nodes _ hn)
  constructor
  · intro n x hx
    have htracked := hf.live n x hx
    have hn := hf.nodes n htracked
    obtain ⟨hget, -, halive⟩ := live_some.mp hx
    obtain ⟨r, hr⟩ := node_of_mem_subtree h.keys hn
    obtain ⟨x', hx', hname, hparent, hversion, hdead⟩ :=
      h.shadow.same (hf.follows n htracked) hr (hall n htracked)
    rw [hget] at hx'
    cases hx'
    exact ⟨r, hr, hn, hdead.mp halive, hname, hparent, hversion⟩
  · intro n r hr hn halive
    have hid : r.nodeId = n := lookup_key hr
    have htracked : tracked n := by
      rcases hok.created r (mem_of_lookup hr) (hid ▸ hn) halive with hsome | ⟨a, ha, hc, han⟩
      · obtain ⟨x, hx⟩ := Option.isSome_iff_exists.mp hsome
        exact hlive n x (hid ▸ hx)
      · exact hid ▸ han ▸ hcreated a ha hc
    obtain ⟨x, hx, -, -, -, hdead⟩ := h.shadow.same (hf.follows n htracked) hr (hall n htracked)
    obtain ⟨x', hx', hfolder⟩ := hf.has n htracked
    rw [hx] at hx'
    cases hx'
    exact ⟨x, live_some.mpr ⟨hx, hfolder, hdead.mpr halive⟩⟩

/-- A page that nothing served is above has every op that is served. -/
theorem deltaRows_of_top (hd : s.SeqsDrawn) {folderId scope : String} {since : ℕ} {e : OpLogRow}
    (htop : e.serverSeq ≤ (Client.deltaPage s folderId scope since).upToSeq)
    (he : e ∈ s.servable folderId scope since) : e ∈ s.deltaRows folderId scope since := by
  refine deltaRows_complete hd.nodup he fun l hl => ?_
  rwa [(deltaPage_upToSeq hd _ _ _).2 l hl] at htop

/-- **A page goes well** where the condition holds. -/
theorem ScopeInv.pullsWell (h : ScopeInv c last st) (hok : PageOk c st) (hunbroken : Unbroken c st) :
    PullsWell c st := by
  intro now delta hd
  cases h.answer hd
  obtain ⟨pulled, tracked, m', happly, hf, hlive, hcreated⟩ := h.page hok hunbroken.whole now
  rw [ScopeState.receive, Mirror.applyPage]
  by_cases hlt : (st.nextPage c).upToSeq < st.cursor c
  · rw [if_pos hlt]
    exact ⟨fun e he => by cases he; rfl, fun _ hres => by cases hres⟩
  · rw [if_neg hlt, happly]
    refine ⟨fun e he => by (cases he), fun _ _ hhead => ?_⟩
    refine h.liveSame hok (hf.setCursor c.folderId _) (fun a ha hn => ?_) hlive fun a ha hc => ?_
    · -- an op above the cursor is still in the log of the folder
      by_cases habove : st.cursor c < a.serverSeq
      · obtain ⟨hmem, hfolder⟩ := hunbroken a ha hn habove
        exact hhead ▸ le_folderHeadSeq hmem hfolder
      · omega
    · obtain ⟨hmem, hfolder, -⟩ := mem_servable.mp ha
      exact hcreated a (deltaRows_of_top h.drawn (hhead.ge.trans' (le_folderHeadSeq hmem hfolder)) ha) hc

/-- **A page** keeps the invariant. -/
theorem ScopeInv.pull (h : ScopeInv c last st) (hok : PageOk c st) (hwhole : Whole c st) {delta : DeltaPullResponse}
    (hd : st.answer c = .ok delta) : ScopeInv c last { st with mirror := (st.receive c now delta).1 } := by
  cases h.answer hd
  obtain ⟨pulled, tracked, m', happly, hf, -⟩ := h.page hok hwhole now
  have hmounts := mounts_applyOps now (st.nextPage c).ops st.mirror
  rw [happly] at hmounts
  rw [ScopeState.receive, Mirror.applyPage]
  by_cases hlt : (st.nextPage c).upToSeq < st.cursor c
  · rw [if_pos hlt]
    exact h
  · rw [if_neg hlt, happly]
    have hmounted : (lookup LocalMount.folderId c.folderId m'.mounts).isSome := hmounts ▸ h.mounted
    have hcursor : (m'.setCursor c.folderId (st.nextPage c).upToSeq).getCursor c.folderId =
        (st.nextPage c).upToSeq := getCursor_setCursor m' hmounted
    exact {
      drawn := h.drawn
      keys := h.keys
      grant := h.grant
      mounted := mounted_setCursor m' hmounted
      ascending := h.ascending
      bounded := h.bounded
      logged := fun e he hfolder => (h.logged e he hfolder).imp id fun hle => by
        show e.serverSeq ≤ (m'.setCursor c.folderId _).getCursor c.folderId
        omega
      cursor := by
        show (m'.setCursor c.folderId _).getCursor c.folderId ≤ st.server.lastSeq
        rw [hcursor]
        exact (deltaPage_upToSeq h.drawn _ _ _).1
      shadow := h.shadow
      held := fun n x hx => by
        show FollowsNode c st.log last ((m'.setCursor c.folderId _).getCursor c.folderId) _ n
        rw [hcursor]
        exact hf.follows n (hf.live n x hx) }

/-! ### Events -/

/-- Rows and ops may go. -/
theorem ScopeInv.keep (h : ScopeInv c last st) (hlog : s.opLog.Sublist st.server.opLog)
    (hseq : st.server.lastSeq ≤ s.lastSeq) (hk : s.NodeKeys) (hg : OnlyGrant c s)
    (hrow : ∀ n r, s.node n = some r → st.server.node n = some r) : ScopeInv c last { st with server := s } where
  drawn := ⟨fun e he => (h.drawn.le e (hlog.subset he)).trans hseq, h.drawn.nodup.sublist (hlog.map _)⟩
  keys := hk
  grant := hg
  mounted := h.mounted
  ascending := h.ascending
  bounded e he := (h.bounded e he).trans hseq
  logged e he hfolder := h.logged e (hlog.subset he) hfolder
  cursor := h.cursor.trans hseq
  shadow := h.shadow.rows hrow hseq
  held := h.held

/-- **A commit.** -/
theorem ScopeInv.commit (h : ScopeInv c last st) {e : OpLogRow} (ha : Appended st.server s e) (hk : s.NodeKeys)
    (hf : Fixed st.server s) (concerned : List OpLogRow) :
    ScopeInv c (lastAfter c s last e)
      { server := s, mirror := st.mirror, log := st.log ++ [e], concerned := concerned } where
  drawn := by
    have hseq := ha.seq
    have hlast := ha.lastSeq
    constructor
    · intro a hmem
      show a.serverSeq ≤ s.lastSeq
      rcases List.mem_append.mp (ha.opLog ▸ hmem) with hmem | hmem
      · have hle := h.drawn.le a hmem
        omega
      · rw [List.mem_singleton.mp hmem]
        omega
    · show (s.opLog.map OpLogRow.serverSeq).Nodup
      rw [ha.opLog]
      refine nodup_append h.drawn.nodup fun a hmem => ?_
      have hle := h.drawn.le a hmem
      omega
  keys := hk
  grant := h.grant.fixed hf
  mounted := h.mounted
  ascending := by
    refine List.pairwise_append.mpr ⟨h.ascending, List.pairwise_singleton _ _, fun a hmem b hb => ?_⟩
    have hle := h.bounded a hmem
    have hseq := ha.seq
    rw [List.mem_singleton.mp hb]
    show a.serverSeq < e.serverSeq
    omega
  bounded a hmem := by
    have hseq := ha.seq
    have hlast := ha.lastSeq
    show a.serverSeq ≤ s.lastSeq
    rcases List.mem_append.mp hmem with hmem | hmem
    · have hle := h.bounded a hmem
      omega
    · rw [List.mem_singleton.mp hmem]
      omega
  logged a hmem hfolder := by
    rcases List.mem_append.mp (ha.opLog ▸ hmem) with hmem | hmem
    · exact (h.logged a hmem hfolder).imp (List.mem_append_left _) id
    · exact .inl (List.mem_append_right _ hmem)
  cursor := by
    have hle := h.cursor
    have hlast := ha.lastSeq
    show st.cursor c ≤ s.lastSeq
    omega
  shadow := h.shadow.commit ha h.bounded
  held := h.held.commit h.shadow ha h.cursor

/-- **A call** of any device. -/
theorem ScopeInv.serve (h : ScopeInv c last st) {call : SubmitCall} (ha : st.server.Admits call) :
    ∃ last', ScopeInv c last' (st.serve c call) := by
  have hout := serve_outcome c.be h.drawn ha
  have hkeys := serve_keys c.be call h.keys
  have hfixed := serve_fixed c.be h.drawn ha
  have hrefused : Refused st.server (Server.serve c.be call st.server).1 →
      ∃ last', ScopeInv c last' (st.serve c call) := by
    intro hr
    have hst : st.serve c call = { st with server := (Server.serve c.be call st.server).1 } := by
      rw [ScopeState.serve]
      simp [hr.opLog]
    rw [hst]
    refine ⟨last, h.keep (by rw [hr.opLog]) hr.lastSeq hkeys (h.grant.fixed hfixed) fun n r hrow => ?_⟩
    exact (hr.node n).symm.trans hrow
  rcases hs : Server.serve c.be call st.server with ⟨s', err | a⟩
  · rw [hs] at hout
    exact hrefused (by rw [hs]; exact hout)
  · rw [hs] at hout hkeys hfixed
    rcases Served.appended hout with ⟨hr, -⟩ | ⟨e, happ, -⟩
    · exact hrefused (by rw [hs]; exact hr)
    · have hmade : (Server.serve c.be call st.server).1.opLog.drop st.server.opLog.length = [e] := by
        rw [hs, happ.opLog, List.drop_left]
      refine ⟨lastAfter c s' last e, ?_⟩
      rw [ScopeState.serve, hmade, hs]
      exact h.commit happ hkeys hfixed _

/-- **One event.** -/
theorem ScopeInv.step {st' : ScopeState} {ev : ScopeEvent} {page : Prop} (h : ∃ last, ScopeInv c last st)
    (hok : EventOk c st page ev) (hpage : page → PageOk c st ∧ Whole c st) (hs : st.step c ev = some st') :
    ∃ last, ScopeInv c last st' := by
  obtain ⟨last, h⟩ := h
  cases ev with
  | call call =>
    cases hs
    exact h.serve hok
  | truncate args =>
    cases hs
    rw [runBody_runOpLogTruncationOnce]
    exact ⟨last, h.keep List.filter_sublist le_rfl h.keys h.grant fun _ _ hr => hr⟩
  | purge args =>
    cases hs
    rw [runBody_runTombstonePurgeOnce]
    refine ⟨last, h.keep (List.Sublist.refl _) le_rfl ?_ h.grant fun _ _ hr => node_dropNodes h.keys hr⟩
    exact h.keys.sublist (List.filter_sublist.map _)
  | other server =>
    cases hs
    obtain ⟨hnodes, hlog, hseq, hgrant⟩ := hok
    refine ⟨last, h.keep (by rw [hlog]) hseq.ge ?_ hgrant fun n r hr => ?_⟩
    · rw [Db.NodeKeys, hnodes]
      exact h.keys
    · rwa [Db.node, hnodes] at hr
  | pull now =>
    cases hs
    cases hd : st.answer c with
    | error e => exact ⟨last, h⟩
    | ok delta => exact ⟨last, h.pull (hpage hok).1 (hpage hok).2 hd⟩

/-- A row of the snapshot has the columns of the server's row. -/
theorem copy_start (hk : s.NodeKeys) {m : Mirror} {n : String} {x : LocalNode}
    (hx : (ScopeState.start c s m).mirror.getNode n = some x) (hfolder : x.folderId = c.folderId) :
    ∃ r, s.node n = some r ∧ (ScopeState.start c s m).mirror.copy n = some (masked c n (serverCopy r)) := by
  have hkeys := nodup_treePage hk c.folderId c.scope
  rcases getNode_insertSnapshotNodes c.folderId hkeys { m with
      versions := m.versions.filter fun r => r.folderId ≠ c.folderId
      nodes := m.nodes.filter fun r => r.folderId ≠ c.folderId } n with ⟨-, hget⟩ | ⟨sn, hsn, hn, hcopy⟩
  · have hold := hget.symm.trans hx
    obtain ⟨-, hne⟩ := List.mem_filter.mp (mem_of_lookup hold)
    simp [hfolder] at hne
  · obtain ⟨r, hr, rfl⟩ := List.mem_map.mp hsn
    have hnode : r.nodeId = n := hn
    have hrow : s.node n = some r := hnode ▸ lookup_of_mem hk (mem_treeRows.mp hr).1
    have hsame : (⟨(r.snapshot c.scope).serverSeq, columns (r.snapshot c.scope).parentId
        (r.snapshot c.scope).name (r.snapshot c.scope).deletedAt.isSome
        (r.snapshot c.scope).currentVersionId⟩ : Copy Field.Value) = masked c n (serverCopy r) := by
      refine copy_ext rfl ?_ rfl rfl rfl
      show (if r.nodeId = c.scope then none else r.parentId) = if n = c.scope then none else r.parentId
      rw [hnode]
    exact ⟨r, hrow, hsame ▸ hcopy⟩

/-- **The snapshot** is the server's subtree. -/
theorem ScopeInv.start {m : Mirror} (h : ScopeStart c s m) :
    ScopeInv c (fun n => (s.node n).map fun r => masked c n (serverCopy r)) (ScopeState.start c s m) := by
  have hmounted : (lookup LocalMount.folderId c.folderId ((treePage s c.folderId c.scope).nodes.foldl
      (Mirror.insertSnapshotNode c.folderId) { m with
        versions := m.versions.filter fun r => r.folderId ≠ c.folderId
        nodes := m.nodes.filter fun r => r.folderId ≠ c.folderId }).mounts).isSome := by
    rw [mounts_insertSnapshotNodes]
    exact h.mounted
  have hcursor : (ScopeState.start c s m).cursor c = s.folderHeadSeq c.folderId := getCursor_setCursor _ hmounted
  have hdrawn : ∀ n r, s.node n = some r → r.serverSeq ≤ s.lastSeq := fun n r hr => h.rows r (mem_of_lookup hr)
  refine ⟨h.drawn, h.keys, h.grant, mounted_setCursor _ hmounted, List.Pairwise.nil, nofun, ?_, ?_, ?_, ?_⟩
  · intro e he hfolder
    rw [hcursor]
    exact .inr (le_folderHeadSeq he hfolder)
  · rw [hcursor]
    exact folderHeadSeq_le h.drawn
  · refine ⟨fun n r hr => congrArg (Option.map fun r => masked c n (serverCopy r)) hr, nofun, fun n y _ => ⟨y, rfl⟩, fun n y _ => nofun, ?_⟩
    intro n y hy
    obtain ⟨r, hr, rfl⟩ := Option.map_eq_some_iff.mp hy
    exact hdrawn n r hr
  · intro n x hx
    obtain ⟨hget, hfolder, -⟩ := live_some.mp hx
    obtain ⟨r, hr, hcopy⟩ := copy_start h.keys hget hfolder
    refine ⟨_, masked c n (serverCopy r), hcopy, congrArg (Option.map fun r => masked c n (serverCopy r)) hr, ?_⟩
    exact ⟨Exact.self fun e he => absurd he List.not_mem_nil, fun e he => absurd he List.not_mem_nil⟩

end Invariant

/-- **A scoped reader converges.**  From a tree snapshot, in every order of calls of any device, purges of
tombstones, truncations of the log and pulled pages that meet the condition: every page can be applied, unless it
ends below the cursor, and the last one leaves the live nodes of the server's subtree. -/
theorem scope_converges (c : ScopeConfig) (s : Db) (m : Mirror) (h : ScopeStart c s m) (evs : List ScopeEvent)
    (hok : Run.Along (ScopeState.step c) (ScopeOk c) (ScopeState.start c s m) evs) :
    Run.Along (ScopeState.step c) (fun st ev => ∀ now, ev = .pull now → PullsWell c st)
      (ScopeState.start c s m) evs := by
  refine Run.Along.of_invariant (I := fun st => ∃ last, ScopeInv c last st)
    (fun _ _ _ h hok hs => ScopeInv.step h hok (fun hpage => ⟨hpage.1, hpage.2.whole⟩) hs) ?_ ⟨_, ScopeInv.start h⟩ hok
  rintro st ev ⟨last, hinv⟩ hevent now rfl
  exact hinv.pullsWell hevent.1 hevent.2

/-! ### A folder next to the scope -/

/-- A folder with two directories that have a file each; one device may write all of it, the other may read one
directory. -/
def sharedDb : Db where
  sharedFolders := ["f"]
  devices := [{ deviceId := "d", userId := none }, { deviceId := "e", userId := none }]
  folderGrants := [{ grantId := "g", folderId := "f", scopeNodeId := "root", userId := none, deviceId := some "d",
                     canRead := true, canWrite := true },
    { grantId := "h", folderId := "f", scopeNodeId := "docs", userId := none, deviceId := some "e",
      canRead := true, canWrite := false }]
  nodes := [{ nodeId := "root", folderId := "f", parentId := none, name := "", type := .folder },
    { nodeId := "docs", folderId := "f", parentId := some "root", name := "docs", type := .folder },
    { nodeId := "drafts", folderId := "f", parentId := some "root", name := "drafts", type := .folder },
    { nodeId := "a", folderId := "f", parentId := some "docs", name := "a.txt", type := .file },
    { nodeId := "b", folderId := "f", parentId := some "drafts", name := "b.txt", type := .file }]

/-- The device that may read one directory. -/
def docsReader : ScopeConfig := { be := .pg, folderId := "f", principal := .device "e", scope := "docs" }

def docsCall (op : SubmitOpRequest) : ScopeEvent := .call { fileCall 0 .delete with op := op }

theorem scopeStart_sharedDb : ScopeStart docsReader sharedDb mounted where
  drawn := ⟨nofun, List.nodup_nil⟩
  keys := by
    rw [Db.NodeKeys]
    decide
  rows := by decide
  grant := by
    rw [OnlyGrant]
    decide
  mounted := by decide

/-- A file is created in the directory and written, the other one renamed, deleted and purged. -/
def docsEdits : List ScopeEvent :=
  [docsCall (.create "m" "docs" "new.txt" .file), docsCall (.mutate "m" 1 (.newVersion "v" "h" 0 [])),
   docsCall (.mutate "a" 0 (.rename "c.txt")), .pull 0, docsCall (.mutate "b" 0 (.rename "d.txt")),
   docsCall (.mutate "a" 3 .delete), .pull 0, .purge { now := 1, retentionMs := 0 }, .pull 0]

theorem scope_converges_docsEdits :
    Run.Along (ScopeState.step docsReader) (fun st ev => ∀ now, ev = .pull now → PullsWell docsReader st)
      (ScopeState.start docsReader sharedDb mounted) docsEdits :=
  scope_converges docsReader sharedDb mounted scopeStart_sharedDb docsEdits (by decide +kernel)

/-- The state in which a page is pulled after one call. -/
def afterCall (op : SubmitOpRequest) : ScopeState :=
  ((ScopeState.start docsReader sharedDb mounted).step docsReader (docsCall op)).getD
    (ScopeState.start docsReader sharedDb mounted)

/-- A file from next to the directory is moved into it: the reader is sent the move only, of a node that it has
never had. -/
theorem not_pullsWell_moveIn : ¬ PullsWell docsReader (afterCall (.mutate "b" 0 (.move "docs"))) := by
  intro h
  have hanswer : (afterCall (.mutate "b" 0 (.move "docs"))).answer docsReader =
      .ok (Client.deltaPage (afterCall (.mutate "b" 0 (.move "docs"))).server "f" "docs" 0) := by decide +kernel
  have herror := (h 0 _ hanswer).1 (.unknownNodeAfterApply "move" "b") (by decide +kernel)
  cases herror

/-- A file of the directory is moved out: the reader is sent nothing, and goes on to show it. -/
theorem not_pullsWell_moveOut : ¬ PullsWell docsReader (afterCall (.mutate "a" 0 (.move "drafts"))) := by
  intro h
  have hanswer : (afterCall (.mutate "a" 0 (.move "drafts"))).answer docsReader =
      .ok { ops := [], upToSeq := 1 } := by decide +kernel
  have hsame := (h 0 _ hanswer).2 [] (by decide +kernel) (by decide +kernel)
  obtain ⟨x, hx⟩ : ∃ x, docsReader.live ((afterCall (.mutate "a" 0 (.move "drafts"))).receive docsReader 0
      { ops := [], upToSeq := 1 }).1 "a" = some x := Option.isSome_iff_exists.mp (by decide +kernel)
  obtain ⟨r, -, hin, -⟩ := hsame.shown "a" x hx
  exact absurd hin (by decide +kernel)

/-- A file is moved into the scope, or out of it, before a page is pulled. -/
theorem scope_wedges : ScopeStart docsReader sharedDb mounted ∧
    ∀ op ∈ [SubmitOpRequest.mutate "b" 0 (.move "docs"), .mutate "a" 0 (.move "drafts")],
      ¬ Run.Along (ScopeState.step docsReader) (fun st ev => ∀ now, ev = .pull now → PullsWell docsReader st)
        (ScopeState.start docsReader sharedDb mounted) [docsCall op, .pull 0] := by
  refine ⟨scopeStart_sharedDb, fun op hop h => ?_⟩
  have hwell : PullsWell docsReader (afterCall op) := h.2.1 0 rfl
  rcases List.mem_cons.mp hop with rfl | hop
  · exact not_pullsWell_moveIn hwell
  · rw [List.mem_singleton.mp hop] at hwell
    exact not_pullsWell_moveOut hwell

end Valv.Client
