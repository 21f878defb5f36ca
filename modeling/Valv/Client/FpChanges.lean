import Valv.Client.Scope
import Valv.Client.Upload
import Valv.Lib.ChangeFeed
import Valv.Server.Visible

/-!
# The change feed of the File Provider

`fp_changes` of `valvd/src/fp.rs`: the rows of a folder that have changed since a `server_seq`, without the
deletions of nodes that are being uploaded, which are reported when the upload has ended.

* `fpChanges`: a request.
* `ChangesState.step`: the server, the daemon and one replica of a folder.
* `ReportsWell`: what is asked for.
* `ChangesOk`: the conditions on a pull, a resync and a recorded answer.
* `ChangesInv.step`: what every such event keeps.
* `fp_changes_converges`, `fp_changes_misses`: every run.
-/

namespace Valv.Client

open Valv.Conc Valv.Table Valv.Server Valv.ChangeFeed

/-! ### Items -/

/-- `FpItem`: a node as the File Provider gets to see it. -/
structure FpItem where
  nodeId : String
  parentId : Option String
  folderId : String
  name : String
  nodeType : NodeType
  versionId : Option String
  contentHash : Option String
  sizeBytes : Option ℕ
  serverSeq : ℕ
  deleted : Bool
  deriving DecidableEq, Repr

/-- `fp_item_from_node`. -/
def fpItemFromNode (m : Mirror) (node : LocalNode) : FpItem :=
  let version := node.currentVersionId.bind m.getVersion
  { nodeId := node.nodeId
    parentId := node.parentId
    folderId := node.folderId
    name := node.name
    nodeType := node.nodeType
    versionId := node.currentVersionId
    contentHash := version.map LocalVersion.contentHash
    sizeBytes := version.map LocalVersion.sizeBytes
    serverSeq := node.serverSeq
    deleted := node.deletedAt.isSome }

/-- What an item has of its node, without the columns of its version. -/
def FpItem.node (i : FpItem) : FpItem := { i with contentHash := none, sizeBytes := none }

/-- `list_changed_since`. -/
def Mirror.listChangedSince (m : Mirror) (folderId : String) (sinceSeq : ℕ) : List LocalNode :=
  (m.nodes.filter fun r => r.folderId = folderId && sinceSeq < r.serverSeq).insertionSort
    fun a b => a.serverSeq ≤ b.serverSeq

/-! ### A request -/

/-- What the request uses of the daemon's state; a folder without an entry in `deferred_deletes` has an empty set. -/
structure FpDaemon where
  mirror : Mirror
  pendingUploads : List String := []
  deferredDeletes : String → List String := fun _ => []

/-- `FpChangesQuery`: the number since which the changes are asked for. -/
structure FpChangesQuery where
  folderId : Option String
  sinceSeq : Option ℕ
  deriving DecidableEq, Repr

/-- `FpChangesResponse`: the changed items, and the number to ask from next. -/
structure FpChangesResponse where
  items : List FpItem
  currentSeq : ℕ
  moreComing : Bool
  deriving DecidableEq, Repr

namespace FpDaemon

variable (d : FpDaemon) (folderId : String) (since : ℕ)

/-- The items of the rows that have changed. -/
def changed : List FpItem := (d.mirror.listChangedSince folderId since).map (fpItemFromNode d.mirror)

/-- A deletion is held back while its node is being uploaded. -/
def defers (item : FpItem) : Bool := item.deleted && item.nodeId ∈ d.pendingUploads

/-- The deferred deletions of the folder, with the new ones. -/
def allDeferred : List String :=
  d.deferredDeletes folderId ∪ ((d.changed folderId since).filter d.defers).map FpItem.nodeId

def readyDeferred : List String := (d.allDeferred folderId since).filter fun n => n ∉ d.pendingUploads

/-- The items that are reported. -/
def reported : List FpItem :=
  (d.changed folderId since).filter (fun item => !d.defers item) ++
    ((d.readyDeferred folderId since).filterMap d.mirror.getNode).map (fpItemFromNode d.mirror)

/-- The deletions that stay deferred; one that was ready is no more, reported or not. -/
def stillDeferred : List String :=
  (d.allDeferred folderId since).filter fun n => n ∉ d.readyDeferred folderId since

end FpDaemon

/-- `fp_changes`. -/
def fpChanges (d : FpDaemon) (query : FpChangesQuery) : Except DaemonError (FpChangesResponse × FpDaemon) :=
  match resolveMountForQuery d.mirror query.folderId with
  | .error e => .error e
  | .ok mount =>
    let since := query.sinceSeq.getD 0
    .ok
      ({ items := d.reported mount.folderId since
         currentSeq := d.mirror.getCursor mount.folderId
         moreComing := false },
       { d with deferredDeletes :=
          Function.update d.deferredDeletes mount.folderId (d.stillDeferred mount.folderId since) })

/-! ### Runs -/

/-- The server, the daemon, and the items and the last `current_seq` of one replica of the folder. -/
structure ChangesState where
  server : Db
  daemon : FpDaemon
  items : String → Option FpItem
  since : ℕ

inductive ChangesEvent where
  /-- A call of any device. -/
  | call (call : SubmitCall)
  /-- A truncation pass of the server. -/
  | truncate (args : GcArgs)
  /-- A purge of tombstones by the server. -/
  | purge (args : GcArgs)
  /-- A page of `pull_delta`. -/
  | pull (now : ℕ)
  /-- `tree_resync`, after a 410. -/
  | resync
  /-- The answer to a request of the device is recorded; a rename or a move has a row in memory. -/
  | record (now : ℕ) (op : SubmitOpRequest) (row : Option LocalNode) (answer : Except ApiError SubmitOpResponse)
  | uploadStarted (nodeId : String)
  | uploadEnded (nodeId : String)
  /-- The replica asks for changes. -/
  | changes

namespace ChangesState

variable (c : SyncConfig) (st : ChangesState)

abbrev mirror : Mirror := st.daemon.mirror

/-- The deferred deletions of the folder. -/
abbrev deferred : List String := st.daemon.deferredDeletes c.folderId

def setMirror (m : Mirror) : ChangesState := { st with daemon := { st.daemon with mirror := m } }

/-- The mirror after the answer to a request is recorded. -/
def recorded (now : ℕ) (op : SubmitOpRequest) (row : Option LocalNode) (answer : Except ApiError SubmitOpResponse) :
    Mirror := st.mirror.record c.folderId now { op, row := submittedRow op row answer, answer }

/-- The daemon's answer to the replica. -/
def answer : Except DaemonError (FpChangesResponse × FpDaemon) :=
  fpChanges st.daemon { folderId := some c.folderId, sinceSeq := some st.since }

/-- The replica takes an answer. -/
def take (response : FpChangesResponse) (daemon : FpDaemon) : ChangesState :=
  { st with
    daemon
    items := applyItems FpItem.nodeId FpItem.deleted st.items response.items
    since := response.currentSeq }

def step : ChangesEvent → Option ChangesState
  | .call call => some { st with server := (serve c.be call st.server).1 }
  | .truncate args => some { st with server := ((runOpLogTruncationOnce args).runBody st.server).1 }
  | .purge args => some { st with server := ((runTombstonePurgeOnce args).runBody st.server).1 }
  | .pull now => some (st.setMirror (st.mirror.pullPage now st.server c.folderId c.root).1)
  | .resync => some (st.setMirror (st.mirror.treeResync st.server c.folderId c.root))
  | .record now op row answer => some (st.setMirror (st.recorded c now op row answer))
  | .uploadStarted nodeId =>
    some { st with daemon := { st.daemon with pendingUploads := st.daemon.pendingUploads.insert nodeId } }
  | .uploadEnded nodeId =>
    some { st with daemon := { st.daemon with pendingUploads := st.daemon.pendingUploads.filter (· ≠ nodeId) } }
  | .changes => (st.answer c).toOption.map fun answer => st.take answer.1 answer.2

end ChangesState

/-- The item of a node of the folder, as far as the mirror's row has it. -/
def Mirror.item (m : Mirror) (folderId n : String) : Option FpItem :=
  ((m.getNode n).filter fun r => r.folderId = folderId).map fun r => (fpItemFromNode m r).node

/-- The items of a full enumeration of the folder. -/
def Mirror.enumerate (m : Mirror) (folderId n : String) : Option FpItem :=
  ((m.getNode n).filter fun r => r.folderId = folderId && r.deletedAt.isNone).map (fpItemFromNode m)

/-- The replica starts from a full enumeration. -/
def ChangesState.start (c : SyncConfig) (s : Db) (d : FpDaemon) : ChangesState where
  server := s
  daemon := d
  items := d.mirror.enumerate c.folderId
  since := d.mirror.getCursor c.folderId

/-- What has to hold at the start: the folder is mounted, and what is deferred has a row. -/
structure ChangesStart (c : SyncConfig) (s : Db) (d : FpDaemon) : Prop where
  named : c.folderId ≠ ""
  mounted : (lookup LocalMount.folderId c.folderId d.mirror.mounts).isSome
  drawn : s.SeqsDrawn
  cursor : d.mirror.getCursor c.folderId ≤ s.lastSeq
  keys : (d.mirror.nodes.map LocalNode.nodeId).Nodup
  deferred : ∀ n ∈ d.deferredDeletes c.folderId, (d.mirror.item c.folderId n).isSome

/-! ### What is asked for -/

section Wanted

variable (c : SyncConfig) (st : ChangesState)

/-- What the replica has of the nodes. -/
def ChangesState.replica (n : String) : Option FpItem := (st.items n).map FpItem.node

/-- After a request the replica has the node if and only if it is live in the mirror, and as it is there. -/
def CaughtUp (n : String) : Prop :=
  ∀ st' ∈ st.step c .changes, st'.replica n = shown FpItem.deleted (st'.mirror.item c.folderId) n

instance (n : String) : Decidable (CaughtUp c st n) := inferInstanceAs (Decidable (∀ _ ∈ _, _))

/-- The node is not missed: any answer of `fp_changes` has it as the mirror's row has it, marked as deleted if it
is. -/
def Delivered (n : String) : Prop :=
  ∀ answer ∈ (st.answer c).toOption, ∃ i ∈ answer.1.items, st.mirror.item c.folderId n = some i.node

instance (n : String) : Decidable (Delivered c st n) := inferInstanceAs (Decidable (∀ _ ∈ _, ∃ _ ∈ _, _))

/-- Every request is answered; without a pending upload the replica has the live nodes afterwards, and what was
deferred is delivered once its upload has ended. -/
def ReportsWell : ChangesEvent → Prop
  | .changes => (st.step c .changes).isSome ∧ (st.daemon.pendingUploads = [] → ∀ n, CaughtUp c st n) ∧
      ∀ n ∈ st.deferred c, n ∉ st.daemon.pendingUploads → Delivered c st n
  | _ => True

end Wanted

/-! ### Conditions -/

section Conditions

variable (c : SyncConfig) (st : ChangesState)

/-- No node leaves the folder, so that its row stays among those the query looks at. -/
def KeepsFolder (folderId : String) (m m' : Mirror) : Prop :=
  ∀ x ∈ m.nodes, x.folderId = folderId → ∀ x' ∈ m'.getNode x.nodeId, x'.folderId = folderId

instance (folderId : String) (m m' : Mirror) : Decidable (KeepsFolder folderId m m') :=
  inferInstanceAs (Decidable (∀ _ ∈ _, _ → ∀ _ ∈ _, _))

/-- A resync leaves the row of a node as it is or gives it a `server_seq` above the replica's last `current_seq`;
another row may go or change if its node is neither in the replica nor deferred, and is not live afterwards. -/
def ResyncOk : Prop :=
  let m := st.mirror.treeResync st.server c.folderId c.root
  ∀ n ∈ st.mirror.nodes.map LocalNode.nodeId ++ m.nodes.map LocalNode.nodeId,
    Writes FpItem.serverSeq FpItem.deleted (st.mirror.item c.folderId) (m.item c.folderId) st.replica st.since
      (st.deferred c) n

instance : Decidable (ResyncOk c st) := inferInstanceAs (Decidable (∀ _ ∈ _, _))

/-- The answer does no harm when it is recorded: its op is above the `current_seq` that the replica was last given,
or recording it changes no row. A row written with a lower number would never be asked for again. -/
def AnswerOk (now : ℕ) (op : SubmitOpRequest) (row : Option LocalNode) (answer : Except ApiError SubmitOpResponse) :
    Prop :=
  ((∀ response ∈ answer.toOption, ∀ seq ∈ committedSeq response, st.since < seq) ∨
    (st.recorded c now op row answer).nodes = st.mirror.nodes) ∧
  KeepsFolder c.folderId st.mirror (st.recorded c now op row answer)

instance (now : ℕ) (op : SubmitOpRequest) (row : Option LocalNode) (answer : Except ApiError SubmitOpResponse) :
    Decidable (AnswerOk c st now op row answer) := inferInstanceAs (Decidable ((_ ∨ _) ∧ _))

def ChangesOk : ChangesEvent → Prop
  | .pull now => KeepsFolder c.folderId st.mirror (st.mirror.pullPage now st.server c.folderId c.root).1
  | .resync => ResyncOk c st
  | .record now op row answer => AnswerOk c st now op row answer
  | _ => True

instance : ∀ ev, Decidable (ChangesOk c st ev)
  | .pull _ => inferInstanceAs (Decidable (KeepsFolder _ _ _))
  | .resync => inferInstanceAs (Decidable (ResyncOk _ _))
  | .record _ _ _ _ => inferInstanceAs (Decidable (AnswerOk _ _ _ _ _ _))
  | .call _ | .truncate _ | .purge _ | .uploadStarted _ | .uploadEnded _ | .changes => isTrue True.intro

end Conditions

/-! ### Writes of the mirror -/

/-- The rows that a write of the mirror changes are left with a `server_seq` above `since`. -/
structure Touches (since : ℕ) (m m' : Mirror) : Prop where
  keys : (m.nodes.map LocalNode.nodeId).Nodup → (m'.nodes.map LocalNode.nodeId).Nodup
  rows : ∀ n, m'.getNode n = m.getNode n ∨ ∃ x ∈ m'.getNode n, since < x.serverSeq

section Writes

variable {since : ℕ} {m m' m'' : Mirror}

theorem Touches.of_nodes (h : m'.nodes = m.nodes) : Touches since m m' where
  keys := by rw [h]; exact id
  rows n := .inl (by rw [Mirror.getNode, h, Mirror.getNode])

theorem Touches.trans (h : Touches since m m') (h' : Touches since m' m'') : Touches since m m'' where
  keys hnd := h'.keys (h.keys hnd)
  rows n := by
    rcases h'.rows n with hsame | hnew
    · rw [hsame]
      exact h.rows n
    · exact .inr hnew

theorem touches_updateNode {nodeId : String} {f : LocalNode → LocalNode} (hkey : ∀ r, (f r).nodeId = r.nodeId)
    (hseq : ∀ r, since < (f r).serverSeq) : Touches since m (m.updateNode nodeId f) where
  keys := nodup_updateNode hkey
  rows n := by
    by_cases hn : n = nodeId
    · rw [hn, getNode_updateNode_self hkey]
      cases hx : m.getNode nodeId with
      | none => exact .inl rfl
      | some x => exact .inr ⟨f x, rfl, hseq x⟩
    · exact .inl (getNode_updateNode_ne hkey hn)

theorem touches_upsertNode {r : LocalNode} (hseq : since < r.serverSeq) : Touches since m (m.upsertNode r) where
  keys := nodup_upsertNode r
  rows n := by
    by_cases hn : n = r.nodeId
    · rw [hn, getNode_upsertNode_self]
      refine .inr ⟨_, rfl, ?_⟩
      cases m.getNode r.nodeId with
      | none => exact hseq
      | some old => exact hseq
    · exact .inl (getNode_upsertNode_ne r hn)

/-- A new version. -/
theorem touches_recordVersion {r : LocalVersion} {nodeId versionId : String} {seq : ℕ} {isConflictCopy : Bool}
    (hseq : since < seq) :
    Touches since m ((m.upsertVersion r).recordVersion nodeId versionId seq isConflictCopy) := by
  have hversion : Touches since m (m.upsertVersion r) := Touches.of_nodes rfl
  refine hversion.trans ?_
  rw [Mirror.recordVersion]
  split
  · exact touches_updateNode (fun _ => rfl) fun _ => hseq
  · exact touches_updateNode (fun _ => rfl) fun _ => hseq

/-- A pulled op. -/
theorem touches_applyOpLogEntry {now : ℕ} {entry : OpLogEntry} (hseq : since < entry.serverSeq)
    (h : m.applyOpLogEntry now entry = .ok m') : Touches since m m' := by
  rw [Mirror.applyOpLogEntry] at h
  split at h
  · cases h
    exact Touches.of_nodes rfl
  rw [Mirror.applyPayload] at h
  split at h
  · rw [Mirror.applyCreate] at h
    split at h
    · cases h
    · cases h
      exact touches_upsertNode hseq
  · cases h
    exact touches_updateNode (fun _ => rfl) fun _ => hseq
  · cases h
    exact touches_updateNode (fun _ => rfl) fun _ => hseq
  · cases h
    exact touches_updateNode (fun _ => rfl) fun _ => hseq
  · rw [Mirror.applyNewVersion] at h
    split at h
    · cases h
    · cases h
      exact touches_recordVersion hseq

/-- The ops of a page, up to the one that cannot be applied. -/
theorem touches_applyOps (now : ℕ) (ops : List OpLogEntry) (m : Mirror) (hseq : ∀ op ∈ ops, since < op.serverSeq) :
    Touches since m (m.applyOps now ops).1 := by
  induction ops generalizing m with
  | nil => exact Touches.of_nodes rfl
  | cons op ops ih =>
    rw [Mirror.applyOps]
    split
    · exact Touches.of_nodes rfl
    next m' hm =>
    have hhead : Touches since m m' := touches_applyOpLogEntry (hseq op (by simp)) hm
    split
    · exact hhead
    have htail := hhead.trans (ih m' fun op' hop => hseq op' (List.mem_cons_of_mem op hop))
    split
    · next hrest =>
      rw [hrest] at htail
      exact htail
    · next hrest =>
      rw [hrest] at htail
      exact htail

/-- A recorded answer. -/
theorem touches_record (folderId : String) (now : ℕ) (op : SubmitOpRequest) (row : Option LocalNode)
    (answer : Except ApiError SubmitOpResponse)
    (hseq : ∀ response ∈ answer.toOption, ∀ seq ∈ committedSeq response, since < seq) :
    Touches since m (m.record folderId now { op, row := submittedRow op row answer, answer }) := by
  have hsame : Touches since m m := Touches.of_nodes rfl
  cases answer with
  | error e => exact hsame
  | ok response =>
    have hlt : ∀ seq ∈ committedSeq response, since < seq := hseq response rfl
    cases op with
    | create nodeId parentId name type =>
      cases response with
      | applied seq n =>
        have hrow : Touches since m (m.upsertNode (createdNode folderId n parentId name type seq)) :=
          touches_upsertNode (hlt seq rfl)
        exact hrow
      | conflictCopy seq n v => exact hsame
      | superseded seq => exact hsame
    | mutate nodeId b mu =>
      have hsubmitted : ∀ seq, since < seq → (∀ r, (LocalNode.submitted mu seq r).serverSeq = seq) →
          Touches since m ((row.map (LocalNode.submitted mu seq)).elim m m.upsertNode) := by
        intro seq hnew hrow
        cases row with
        | none => exact hsame
        | some r => exact touches_upsertNode ((hrow r).symm ▸ hnew)
      cases mu with
      | newVersion v contentHash sz mf =>
        cases response with
        | applied seq n =>
          have hversion : Touches since m
              ((m.upsertVersion ⟨v, nodeId, folderId, contentHash, sz, mf, false⟩).recordVersion nodeId v seq false) :=
            touches_recordVersion (hlt seq rfl)
          exact hversion
        | conflictCopy seq n v' =>
          have hversion : Touches since m
              ((m.upsertVersion ⟨v', nodeId, folderId, contentHash, sz, mf, false⟩).recordVersion nodeId v' seq true) :=
            touches_recordVersion (hlt seq rfl)
          exact hversion
        | superseded seq => exact hsame
      | delete =>
        cases response with
        | applied seq n => exact touches_updateNode (fun _ => rfl) fun _ => hlt seq rfl
        | conflictCopy seq n v => exact hsame
        | superseded seq => exact hsame
      | rename newName =>
        cases response with
        | applied seq n => exact hsubmitted seq (hlt seq rfl) fun _ => rfl
        | conflictCopy seq n v => exact hsame
        | superseded seq => exact hsame
      | move newParentId =>
        cases response with
        | applied seq n => exact hsubmitted seq (hlt seq rfl) fun _ => rfl
        | conflictCopy seq n v => exact hsame
        | superseded seq => exact hsame

end Writes

/-! ### Items of the mirror -/

section Rows

variable {since : ℕ} {m m' : Mirror} {folderId n : String} {i : FpItem}

theorem item_eq_some : m.item folderId n = some i ↔
    ∃ x, m.getNode n = some x ∧ x.folderId = folderId ∧ (fpItemFromNode m x).node = i := by
  rw [Mirror.item, Option.map_eq_some_iff]
  constructor
  · rintro ⟨x, hx, rfl⟩
    obtain ⟨hrow, hfolder⟩ := Option.filter_eq_some_iff.mp hx
    exact ⟨x, hrow, by simpa using hfolder, rfl⟩
  · rintro ⟨x, hx, hfolder, rfl⟩
    exact ⟨x, Option.filter_eq_some_iff.mpr ⟨hx, by simpa using hfolder⟩, rfl⟩

theorem item_congr (h : m'.getNode n = m.getNode n) : m'.item folderId n = m.item folderId n := by
  rw [Mirror.item, h]
  rfl

/-- A write that leaves the nodes in their folder. -/
theorem Touches.item (h : Touches since m m') (hkeeps : KeepsFolder folderId m m') (n : String) :
    m'.item folderId n = m.item folderId n ∨ ∃ i ∈ m'.item folderId n, since < i.serverSeq := by
  rcases h.rows n with hsame | ⟨x', hx', hlt⟩
  · exact .inl (item_congr hsame)
  by_cases hfolder : x'.folderId = folderId
  · exact .inr ⟨_, item_eq_some.mpr ⟨x', hx', hfolder, rfl⟩, hlt⟩
  -- the new row is of another folder, so the old one was, too
  have hnone' : m'.item folderId n = none := by
    rw [Mirror.item, hx', Option.filter_some, if_neg (by simpa using hfolder)]
    rfl
  have hnone : m.item folderId n = none := by
    refine Option.eq_none_iff_forall_ne_some.mpr fun i hi => hfolder ?_
    obtain ⟨x, hx, hold, -⟩ := item_eq_some.mp hi
    exact hkeeps x (mem_of_lookup hx) hold x' (by rw [lookup_key hx]; exact hx')
  exact .inl (hnone'.trans hnone.symm)

/-- An enumeration has the live nodes. -/
theorem enumerate_eq (m : Mirror) (folderId : String) :
    (fun n => (m.enumerate folderId n).map FpItem.node) = shown FpItem.deleted (m.item folderId) := by
  funext n
  rw [Mirror.enumerate, shown, Mirror.item]
  cases m.getNode n with
  | none => rfl
  | some x =>
    by_cases hfolder : x.folderId = folderId
    · cases hdeleted : x.deletedAt with
      | none => simp [Option.filter_some, hfolder, hdeleted, FpItem.node, fpItemFromNode]
      | some at' => simp [Option.filter_some, hfolder, hdeleted, FpItem.node, fpItemFromNode]
    · simp [Option.filter_some, hfolder]

end Rows

/-! ### An answer -/

section Answers

variable {d : FpDaemon} {folderId n : String} {since : ℕ}

theorem mem_changed {item : FpItem} : item ∈ d.changed folderId since ↔
    ∃ x ∈ d.mirror.nodes, x.folderId = folderId ∧ since < x.serverSeq ∧ fpItemFromNode d.mirror x = item := by
  simp only [FpDaemon.changed, Mirror.listChangedSince, List.mem_map, List.mem_insertionSort, List.mem_filter,
    Bool.and_eq_true, decide_eq_true_eq, and_assoc]

theorem mem_allDeferred : n ∈ d.allDeferred folderId since ↔ n ∈ d.deferredDeletes folderId ∨
    ∃ item ∈ d.changed folderId since, d.defers item = true ∧ item.nodeId = n := by
  simp only [FpDaemon.allDeferred, List.mem_union_iff, List.mem_map, List.mem_filter, and_assoc]

theorem mem_readyDeferred : n ∈ d.readyDeferred folderId since ↔
    n ∈ d.allDeferred folderId since ∧ n ∉ d.pendingUploads := by
  simp [FpDaemon.readyDeferred]

/-- What stays deferred is being uploaded. -/
theorem mem_stillDeferred : n ∈ d.stillDeferred folderId since ↔
    n ∈ d.allDeferred folderId since ∧ n ∈ d.pendingUploads := by
  simp only [FpDaemon.stillDeferred, List.mem_filter, mem_readyDeferred, decide_eq_true_eq]
  tauto

theorem pending_of_defers {item : FpItem} (h : d.defers item = true) : item.nodeId ∈ d.pendingUploads := by
  rw [FpDaemon.defers, Bool.and_eq_true, decide_eq_true_eq] at h
  exact h.2

theorem mem_reported {item : FpItem} : item ∈ d.reported folderId since ↔
    item ∈ d.changed folderId since ∧ d.defers item = false ∨
    ∃ n ∈ d.readyDeferred folderId since, ∃ x, d.mirror.getNode n = some x ∧ fpItemFromNode d.mirror x = item := by
  simp only [FpDaemon.reported, List.mem_append, List.mem_filter, List.mem_map, List.mem_filterMap, Bool.not_eq_true']
  constructor
  · rintro (h | ⟨x, ⟨n, hn, hx⟩, rfl⟩)
    · exact .inl h
    · exact .inr ⟨n, hn, x, hx, rfl⟩
  · rintro (h | ⟨n, hn, x, hx, rfl⟩)
    · exact .inl h
    · exact .inr ⟨x, ⟨n, hn, hx⟩, rfl⟩

/-- A row that has changed is reported or deferred. -/
theorem changed_cases {x : LocalNode} (hx : x ∈ d.mirror.nodes) (hfolder : x.folderId = folderId)
    (hlt : since < x.serverSeq) : fpItemFromNode d.mirror x ∈ d.reported folderId since ∨
      x.nodeId ∈ d.stillDeferred folderId since := by
  have hmem : fpItemFromNode d.mirror x ∈ d.changed folderId since := mem_changed.mpr ⟨x, hx, hfolder, hlt, rfl⟩
  cases hdefers : d.defers (fpItemFromNode d.mirror x) with
  | true =>
    have hall : x.nodeId ∈ d.allDeferred folderId since := mem_allDeferred.mpr (.inr ⟨_, hmem, hdefers, rfl⟩)
    exact .inr (mem_stillDeferred.mpr ⟨hall, pending_of_defers hdefers⟩)
  | false => exact .inl (mem_reported.mpr (.inl ⟨hmem, hdefers⟩))

/-- A deletion is deferred for a row of the folder. -/
theorem item_of_deferred (hkeys : (d.mirror.nodes.map LocalNode.nodeId).Nodup)
    (hthere : ∀ n ∈ d.deferredDeletes folderId, (d.mirror.item folderId n).isSome)
    (hn : n ∈ d.allDeferred folderId since) : (d.mirror.item folderId n).isSome := by
  rcases mem_allDeferred.mp hn with hold | ⟨item, hitem, -, rfl⟩
  · exact hthere n hold
  · obtain ⟨x, hx, hfolder, -, rfl⟩ := mem_changed.mp hitem
    exact Option.isSome_of_eq_some (item_eq_some.mpr ⟨x, lookup_of_mem hkeys hx, hfolder, rfl⟩)

/-- **The answer** is one of a change feed. -/
theorem FpDaemon.reports (hkeys : (d.mirror.nodes.map LocalNode.nodeId).Nodup)
    (hthere : ∀ n ∈ d.deferredDeletes folderId, (d.mirror.item folderId n).isSome) :
    Reports FpItem.nodeId FpItem.serverSeq (d.mirror.item folderId) ((d.reported folderId since).map FpItem.node) since
      (d.deferredDeletes folderId) (d.stillDeferred folderId since) where
  keyed n i hi := by
    obtain ⟨x, hx, -, rfl⟩ := item_eq_some.mp hi
    have hkey : x.nodeId = n := lookup_key hx
    exact hkey
  row i hi := by
    obtain ⟨item, hitem, rfl⟩ := List.mem_map.mp hi
    rcases mem_reported.mp hitem with ⟨hchanged, -⟩ | ⟨n, hn, x, hx, rfl⟩
    · obtain ⟨x, hx, hfolder, -, rfl⟩ := mem_changed.mp hchanged
      exact item_eq_some.mpr ⟨x, lookup_of_mem hkeys hx, hfolder, rfl⟩
    · have hitem := item_of_deferred hkeys hthere (mem_readyDeferred.mp hn).1
      obtain ⟨j, hj⟩ := Option.isSome_iff_exists.mp hitem
      obtain ⟨y, hy, hfolder, -⟩ := item_eq_some.mp hj
      rw [hx] at hy
      cases hy
      have hkey : x.nodeId = n := lookup_key hx
      show d.mirror.item folderId x.nodeId = _
      rw [hkey]
      exact item_eq_some.mpr ⟨x, hx, hfolder, rfl⟩
  changed n i hi hlt := by
    obtain ⟨x, hx, hfolder, rfl⟩ := item_eq_some.mp hi
    have hkey : x.nodeId = n := lookup_key hx
    rcases changed_cases (mem_of_lookup hx) hfolder hlt with hreported | hdeferred
    · exact .inl (List.mem_map_of_mem hreported)
    · exact .inr (hkey ▸ hdeferred)
  ready n hn i hi := by
    obtain ⟨x, hx, hfolder, rfl⟩ := item_eq_some.mp hi
    have hall : n ∈ d.allDeferred folderId since := mem_allDeferred.mpr (.inl hn)
    by_cases hpending : n ∈ d.pendingUploads
    · exact .inr (mem_stillDeferred.mpr ⟨hall, hpending⟩)
    · have hready : n ∈ d.readyDeferred folderId since := mem_readyDeferred.mpr ⟨hall, hpending⟩
      exact .inl (List.mem_map_of_mem (mem_reported.mpr (.inr ⟨n, hready, x, hx, rfl⟩)))
  there n hn := item_of_deferred hkeys hthere (mem_stillDeferred.mp hn).1

end Answers

/-! ### The invariant -/

/-- The invariant: the replica follows the folder's items, and every op above the cursor is above `since`. -/
structure ChangesInv (c : SyncConfig) (st : ChangesState) : Prop where
  named : c.folderId ≠ ""
  mounted : (lookup LocalMount.folderId c.folderId st.mirror.mounts).isSome
  drawn : st.server.SeqsDrawn
  cursor : st.mirror.getCursor c.folderId ≤ st.server.lastSeq
  since : st.since ≤ st.server.lastSeq
  above : ∀ e ∈ st.server.opLog, e.folderId = c.folderId → st.mirror.getCursor c.folderId < e.serverSeq →
    st.since < e.serverSeq
  keys : (st.mirror.nodes.map LocalNode.nodeId).Nodup
  follows : Follows FpItem.serverSeq FpItem.deleted (st.mirror.item c.folderId) st.replica st.since (st.deferred c)

section Invariant

variable {c : SyncConfig} {st st' : ChangesState}

theorem ChangesInv.start {s : Db} {d : FpDaemon} (h : ChangesStart c s d) :
    ChangesInv c (ChangesState.start c s d) where
  named := h.named
  mounted := h.mounted
  drawn := h.drawn
  cursor := h.cursor
  since := h.cursor
  above _ _ _ hlt := hlt
  keys := h.keys
  follows := by
    have hreplica : (ChangesState.start c s d).replica = shown FpItem.deleted (d.mirror.item c.folderId) :=
      enumerate_eq d.mirror c.folderId
    rw [hreplica]
    exact Follows.start h.deferred

/-- The server goes on, and what it adds to its log is new. -/
theorem ChangesInv.serve (h : ChangesInv c st) {s : Db} (hdrawn : s.SeqsDrawn) (hlast : st.server.lastSeq ≤ s.lastSeq)
    (hlog : ∀ e ∈ s.opLog, e ∈ st.server.opLog ∨ st.server.lastSeq < e.serverSeq) :
    ChangesInv c { st with server := s } where
  named := h.named
  mounted := h.mounted
  drawn := hdrawn
  cursor := h.cursor.trans hlast
  since := h.since.trans hlast
  above e he hfolder hlt := by
    rcases hlog e he with hold | hnew
    · exact h.above e hold hfolder hlt
    · exact h.since.trans_lt hnew
  keys := h.keys
  follows := h.follows

/-- The server drops ops or nodes. -/
theorem ChangesInv.drop (h : ChangesInv c st) {s : Db} (hlast : s.lastSeq = st.server.lastSeq)
    (hlog : s.opLog.Sublist st.server.opLog) : ChangesInv c { st with server := s } := by
  have hdrawn : s.SeqsDrawn :=
    ⟨fun e he => hlast ▸ h.drawn.le e (hlog.subset he), h.drawn.nodup.sublist (hlog.map _)⟩
  exact h.serve hdrawn hlast.ge fun e he => .inl (hlog.subset he)

/-- Uploads start and end. -/
theorem ChangesInv.pending (h : ChangesInv c st) (pendingUploads : List String) :
    ChangesInv c { st with daemon := { st.daemon with pendingUploads } } where
  named := h.named
  mounted := h.mounted
  drawn := h.drawn
  cursor := h.cursor
  since := h.since
  above := h.above
  keys := h.keys
  follows := h.follows

/-- The mirror is written. -/
theorem ChangesInv.write (h : ChangesInv c st) {m : Mirror}
    (hmounted : (lookup LocalMount.folderId c.folderId m.mounts).isSome)
    (hkeys : (m.nodes.map LocalNode.nodeId).Nodup) (hcursor : m.getCursor c.folderId ≤ st.server.lastSeq)
    (habove : ∀ e ∈ st.server.opLog, e.folderId = c.folderId → m.getCursor c.folderId < e.serverSeq →
      st.since < e.serverSeq)
    (hw : ∀ n, Writes FpItem.serverSeq FpItem.deleted (st.mirror.item c.folderId) (m.item c.folderId) st.replica st.since
      (st.deferred c) n) : ChangesInv c (st.setMirror m) where
  named := h.named
  mounted := hmounted
  drawn := h.drawn
  cursor := hcursor
  since := h.since
  above := habove
  keys := hkeys
  follows := h.follows.write hw

/-- The rows that are written get new `server_seq`s, and the cursor does not go back. -/
theorem ChangesInv.touch (h : ChangesInv c st) {m : Mirror} (ht : Touches st.since st.mirror m)
    (hkeeps : KeepsFolder c.folderId st.mirror m) (hmounted : (lookup LocalMount.folderId c.folderId m.mounts).isSome)
    (hcursor : m.getCursor c.folderId ≤ st.server.lastSeq)
    (hforward : st.mirror.getCursor c.folderId ≤ m.getCursor c.folderId) : ChangesInv c (st.setMirror m) := by
  refine h.write hmounted (ht.keys h.keys) hcursor (fun e he hfolder hlt => ?_) fun n => ?_
  · exact h.above e he hfolder (hforward.trans_lt hlt)
  · rcases ht.item hkeeps n with hsame | hnew
    · exact .inl hsame
    · exact .inr (.inl hnew)

/-- **A page.** -/
theorem ChangesInv.pull (h : ChangesInv c st) {now : ℕ}
    (hkeeps : KeepsFolder c.folderId st.mirror (st.mirror.pullPage now st.server c.folderId c.root).1) :
    ChangesInv c (st.setMirror (st.mirror.pullPage now st.server c.folderId c.root).1) := by
  set page := deltaPage st.server c.folderId c.root (st.mirror.getCursor c.folderId) with hpage
  have hops : ∀ op ∈ page.ops, st.since < op.serverSeq := by
    intro op hop
    obtain ⟨e, he, rfl⟩ := List.mem_map.mp hop
    obtain ⟨hlog, hfolder, hlt⟩ := mem_deltaRows he
    exact h.above e hlog hfolder hlt
  have htouches := touches_applyOps now page.ops st.mirror hops
  have hmounts := mounts_applyOps now page.ops st.mirror
  have hmounted : (lookup LocalMount.folderId c.folderId (st.mirror.applyOps now page.ops).1.mounts).isSome := by
    rw [hmounts]
    exact h.mounted
  have hsame : (st.mirror.applyOps now page.ops).1.getCursor c.folderId = st.mirror.getCursor c.folderId := by
    rw [Mirror.getCursor, hmounts, Mirror.getCursor]
  rw [Mirror.pullPage, Mirror.applyPage, ← hpage] at hkeeps ⊢
  split at hkeeps
  · next hlt =>
    rw [if_pos hlt]
    exact h
  next hlt =>
  rw [if_neg hlt]
  rcases hres : st.mirror.applyOps now page.ops with ⟨m, e | pulled⟩
  · rw [hres] at hkeeps htouches hmounted hsame
    exact h.touch htouches hkeeps hmounted (hsame ▸ h.cursor) hsame.ge
  · rw [hres] at hkeeps htouches hmounted
    have hcursor : (m.setCursor c.folderId page.upToSeq).getCursor c.folderId = page.upToSeq :=
      getCursor_setCursor m hmounted
    have hset : Touches st.since m (m.setCursor c.folderId page.upToSeq) := Touches.of_nodes rfl
    refine h.touch (htouches.trans hset) hkeeps (mounted_setCursor m hmounted) ?_ ?_
    · rw [hcursor]
      exact (deltaPage_upToSeq h.drawn _ _ _).1
    · rw [hcursor]
      omega

/-- **A resync.** -/
theorem ChangesInv.resync (h : ChangesInv c st) (hok : ResyncOk c st) :
    ChangesInv c (st.setMirror (st.mirror.treeResync st.server c.folderId c.root)) := by
  set tree := treePage st.server c.folderId c.root with htree
  set rows := tree.nodes.foldl (Mirror.insertSnapshotNode c.folderId)
    { st.mirror with
      versions := st.mirror.versions.filter fun r => r.folderId ≠ c.folderId
      nodes := st.mirror.nodes.filter fun r => r.folderId ≠ c.folderId } with hrows
  have hmounted : (lookup LocalMount.folderId c.folderId rows.mounts).isSome := by
    rw [hrows, mounts_insertSnapshotNodes]
    exact h.mounted
  have hcursor : (st.mirror.treeResync st.server c.folderId c.root).getCursor c.folderId =
      st.server.folderHeadSeq c.folderId := getCursor_setCursor rows hmounted
  refine h.write (mounted_setCursor rows hmounted) (nodup_applyTreeSnapshot h.keys) ?_ (fun e he hfolder hlt => ?_)
    fun n => ?_
  · rw [hcursor]
    exact folderHeadSeq_le h.drawn
  · -- nothing in the log is above the head
    have hle := le_folderHeadSeq he hfolder
    rw [hcursor] at hlt
    omega
  · by_cases hn : n ∈ st.mirror.nodes.map LocalNode.nodeId ++
        (st.mirror.treeResync st.server c.folderId c.root).nodes.map LocalNode.nodeId
    · exact hok n hn
    · -- neither mirror has a row of the node
      have habsent : ∀ m : Mirror, n ∉ m.nodes.map LocalNode.nodeId → m.getNode n = none := by
        intro m hm
        refine lookup_eq_none.mpr fun r hr hkey => hm ?_
        rw [← hkey]
        exact List.mem_map_of_mem hr
      rw [List.mem_append, not_or] at hn
      exact .inl (item_congr ((habsent _ hn.2).trans (habsent _ hn.1).symm))

/-- **An answer** that is recorded. -/
theorem ChangesInv.record (h : ChangesInv c st) {now : ℕ} {op : SubmitOpRequest} {row : Option LocalNode}
    {answer : Except ApiError SubmitOpResponse} (hok : AnswerOk c st now op row answer) :
    ChangesInv c (st.setMirror (st.recorded c now op row answer)) := by
  have hmounts : (st.recorded c now op row answer).mounts = st.mirror.mounts := mounts_record _ _ _ _
  have hmounted : (lookup LocalMount.folderId c.folderId (st.recorded c now op row answer).mounts).isSome := by
    rw [hmounts]
    exact h.mounted
  have hcursor : (st.recorded c now op row answer).getCursor c.folderId = st.mirror.getCursor c.folderId := by
    rw [Mirror.getCursor, hmounts, Mirror.getCursor]
  have htouches : Touches st.since st.mirror (st.recorded c now op row answer) := by
    rcases hok.1 with hnew | hsame
    · exact touches_record c.folderId now op row answer hnew
    · exact Touches.of_nodes hsame
  exact h.touch htouches hok.2 hmounted (hcursor ▸ h.cursor) hcursor.ge

/-- The request is answered. -/
theorem ChangesInv.answer (h : ChangesInv c st) : st.answer c = .ok
    ({ items := st.daemon.reported c.folderId st.since, currentSeq := st.mirror.getCursor c.folderId, moreComing := false },
     { st.daemon with deferredDeletes :=
        Function.update st.daemon.deferredDeletes c.folderId (st.daemon.stillDeferred c.folderId st.since) }) := by
  obtain ⟨mount, hmount⟩ := Option.isSome_iff_exists.mp h.mounted
  have hfolder : mount.folderId = c.folderId := lookup_key hmount
  have hresolve : resolveMountForQuery st.daemon.mirror (some c.folderId) = .ok mount := by
    rw [resolveMountForQuery]
    simp only [h.named, if_false]
    rw [hmount]
    rfl
  rw [ChangesState.answer, fpChanges]
  simp only [hresolve, hfolder, Option.getD_some]

/-- The replica after an answer. -/
theorem replica_take (response : FpChangesResponse) (daemon : FpDaemon) :
    (st.take response daemon).replica =
      applyItems FpItem.nodeId FpItem.deleted st.replica (response.items.map FpItem.node) := by
  funext n
  exact applyItems_map (f := FpItem.node) (fun _ => rfl) (fun _ => rfl) response.items st.items n

theorem ChangesInv.reports (h : ChangesInv c st) : Reports FpItem.nodeId FpItem.serverSeq (st.mirror.item c.folderId)
    ((st.daemon.reported c.folderId st.since).map FpItem.node) st.since (st.deferred c)
    (st.daemon.stillDeferred c.folderId st.since) := FpDaemon.reports h.keys h.follows.there

/-- **A request.** -/
theorem ChangesInv.changes (h : ChangesInv c st) (hs : st.step c .changes = some st') : ChangesInv c st' := by
  rw [ChangesState.step, h.answer] at hs
  cases hs
  have hfollows := h.follows.report h.reports (st.mirror.getCursor c.folderId)
  exact {
    named := h.named
    mounted := h.mounted
    drawn := h.drawn
    cursor := h.cursor
    since := h.cursor
    above := fun _ _ _ hlt => hlt
    keys := h.keys
    follows := by
      rw [replica_take]
      show Follows _ _ _ _ _ (Function.update st.daemon.deferredDeletes c.folderId _ c.folderId)
      rw [Function.update_self]
      exact hfollows }

/-- **One event.** -/
theorem ChangesInv.step {ev : ChangesEvent} (h : ChangesInv c st) (hok : ChangesOk c st ev)
    (hs : st.step c ev = some st') : ChangesInv c st' := by
  cases ev with
  | call call =>
    cases hs
    exact h.serve (serve_seqsDrawn c.be call h.drawn) (serve_reshapes c.be call st.server).lastSeq
      (serve_newer c.be call h.drawn)
  | truncate args =>
    cases hs
    rw [runBody_runOpLogTruncationOnce]
    exact h.drop rfl List.filter_sublist
  | purge args =>
    cases hs
    rw [runBody_runTombstonePurgeOnce]
    exact h.drop rfl (List.Sublist.refl _)
  | pull now =>
    cases hs
    exact h.pull hok
  | resync =>
    cases hs
    exact h.resync hok
  | record now op row answer =>
    cases hs
    exact h.record hok
  | uploadStarted nodeId =>
    cases hs
    exact h.pending _
  | uploadEnded nodeId =>
    cases hs
    exact h.pending _
  | changes => exact h.changes hs

/-- Without a pending upload nothing stays deferred, and the replica has what is live. -/
theorem ChangesInv.caughtUp (h : ChangesInv c st) (hpending : st.daemon.pendingUploads = []) (n : String) :
    CaughtUp c st n := by
  intro st' hs
  have hnone : n ∉ st.daemon.stillDeferred c.folderId st.since := by
    rw [mem_stillDeferred, hpending]
    exact fun hn => List.not_mem_nil hn.2
  rw [ChangesState.step, h.answer] at hs
  cases hs
  rw [replica_take]
  exact h.follows.settle h.reports hnone

/-- What was deferred, and is not being uploaded, is reported. -/
theorem ChangesInv.delivered (h : ChangesInv c st) {n : String} (hn : n ∈ st.deferred c)
    (hended : n ∉ st.daemon.pendingUploads) : Delivered c st n := by
  intro answer hanswer
  rw [h.answer] at hanswer
  cases hanswer
  obtain ⟨i, hi⟩ := Option.isSome_iff_exists.mp (h.follows.there n hn)
  rcases h.reports.ready n hn i hi with hreported | hdeferred
  · obtain ⟨item, hitem, rfl⟩ := List.mem_map.mp hreported
    exact ⟨item, hitem, hi⟩
  · exact absurd (mem_stillDeferred.mp hdeferred).2 hended

theorem ChangesInv.reportsWell (h : ChangesInv c st) (ev : ChangesEvent) : ReportsWell c st ev := by
  cases ev with
  | changes =>
    refine ⟨?_, fun hpending n => h.caughtUp hpending n, fun n hn hended => h.delivered hn hended⟩
    rw [ChangesState.step, h.answer]
    rfl
  | call _ => exact True.intro
  | truncate _ => exact True.intro
  | purge _ => exact True.intro
  | pull _ => exact True.intro
  | resync => exact True.intro
  | record _ _ _ _ => exact True.intro
  | uploadStarted _ => exact True.intro
  | uploadEnded _ => exact True.intro

end Invariant

/-! ### Runs -/

/-- **The feed converges** in every run whose pulls and recorded answers leave the nodes in their folder, whose
recorded answers are new to the replica, and whose resyncs take no row away that the replica has to hear of. -/
theorem fp_changes_converges (c : SyncConfig) (s : Db) (d : FpDaemon) (h : ChangesStart c s d) (evs : List ChangesEvent)
    (hok : Run.Along (ChangesState.step c) (ChangesOk c) (ChangesState.start c s d) evs) :
    Run.Along (ChangesState.step c) (ReportsWell c) (ChangesState.start c s d) evs :=
  Run.Along.of_invariant (I := ChangesInv c) (fun _ _ _ hI hev hs => hI.step hev hs) (fun _ ev hI _ => hI.reportsWell ev)
    (ChangesInv.start h) hok

/-! ### A replica of a folder -/

/-- A device that has mounted the folder of `raceDb`, and its replica. -/
def racedDaemon : FpDaemon := { mirror := mounted.treeResync raceDb "f" "root" }

def racedFeed : ChangesState := ChangesState.start syncConfig raceDb racedDaemon

theorem changesStart_raced : ChangesStart syncConfig raceDb racedDaemon where
  named := by decide
  mounted := by decide +kernel
  drawn := raceDb_consistent.drawn
  cursor := by decide +kernel
  keys := by decide +kernel
  deferred n hn := absurd hn List.not_mem_nil

/-- Every op and tombstone is old enough. -/
def collectAll : GcArgs := { now := 100, retentionMs := 0 }

/-- The file is renamed, and deleted while it is being uploaded; a file is created ahead of the cursor, and the
folder is read anew before the upload ends. -/
def uploadedDay : List ChangesEvent :=
  [.call (fileCall 0 (.rename "b.txt")), .pull 0, .changes, .uploadStarted "n", .call (fileCall 1 .delete), .pull 5,
   .changes, .call { fileCall 0 .delete with op := .create "m" "root" "new.txt" .file },
   .record 0 (.create "m" "root" "new.txt" .file) none (.ok (.applied 3 "m")), .changes, .truncate collectAll, .resync,
   .uploadEnded "n", .changes]

theorem fp_changes_converges_day :
    Run.Along (ChangesState.step syncConfig) (ReportsWell syncConfig) racedFeed uploadedDay :=
  fp_changes_converges syncConfig raceDb racedDaemon changesStart_raced uploadedDay (by decide +kernel)

/-- The file is deleted, its tombstone is purged and the log truncated before the device pulls; the server answers
410. -/
def purgedAway : List ChangesEvent :=
  [.call (fileCall 0 .delete), .purge collectAll, .truncate collectAll, .resync, .changes]

/-- The deletion is pulled and deferred, and the tombstone is gone after a resync when the upload ends. -/
def purgedDeferred : List ChangesEvent :=
  [.uploadStarted "n", .call (fileCall 0 .delete), .pull 0, .changes, .purge collectAll, .truncate collectAll, .resync,
   .uploadEnded "n", .changes]

/-- The replica keeps the file; the deferred deletion is not reported, and no longer deferred. -/
theorem fp_changes_misses :
    ¬ Run.Along (ChangesState.step syncConfig) (ReportsWell syncConfig) racedFeed purgedAway ∧
    ¬ Run.Along (ChangesState.step syncConfig) (ReportsWell syncConfig) racedFeed purgedDeferred := by
  have haway : ¬ CaughtUp syncConfig (Run.run (ChangesState.step syncConfig) racedFeed (purgedAway.take 4)) "n" := by
    decide +kernel
  have hdeferred : ¬ Delivered syncConfig
      (Run.run (ChangesState.step syncConfig) racedFeed (purgedDeferred.take 8)) "n" := by
    decide +kernel
  have hsplit : purgedAway = purgedAway.take 4 ++ [.changes] := rfl
  have hsplit' : purgedDeferred = purgedDeferred.take 8 ++ [.changes] := rfl
  constructor
  · intro h
    rw [hsplit] at h
    have hlast := (Run.along_append.mp h).2.1
    exact haway (hlast.2.1 (by decide +kernel) "n")
  · intro h
    rw [hsplit'] at h
    have hlast := (Run.along_append.mp h).2.1
    exact hdeferred (hlast.2.2 "n" (by decide +kernel) (by decide +kernel))

end Valv.Client
