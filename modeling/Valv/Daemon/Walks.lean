import Valv.Client.Scope
import Valv.Client.Walks
import Valv.Daemon.PathResolution
import Valv.Server.Tree

/-!
# Walks over a pulled mirror

None of the walks over the mirror has a bound of its own.  They end where following parents does, and it is the log
that has to see to that: a pulled op writes what the server accepted.

* `nodeAbsPathLoop`, `materializeMountFiles`: the loops of `valvd`, with the turns they may take.
* `WalksReturn`: what is asked for.
* `LinksApart`: the condition on what is pulled.
* `walksReturn_iff`: a mirror.
* `walks_return`, `walks_do_not_return`: the states of a mirror.
-/

namespace Valv.Daemon

open Valv.Server Valv.Table Valv.Paths Valv.Forest StateTransition

/-! ### The walks -/

/-- The loop of `node_abs_path`, if it ends within `fuel` turns: the names from the top, or nothing where a node on
the way is missing. -/
def nodeAbsPathLoop (nodesById : List Client.LocalNode) (scopeNodeId : Option String) :
    ℕ → String → Option (Option (List String))
  | 0, _ => none
  | fuel + 1, currentId =>
    match lookup Client.LocalNode.nodeId currentId nodesById with
    | none => some none
    | some node =>
      if scopeNodeId = some node.nodeId then some (some [])
      else node.parentId.elim (some (some [])) fun parentId =>
        (nodeAbsPathLoop nodesById scopeNodeId fuel parentId).map (Option.map (· ++ [node.name]))

/-- What the search of `materialize_mount_files` has come to. -/
structure Placing where
  queue : List String
  paths : List (String × PathBuf)
  visited : List (Client.LocalNode × PathBuf) := []

def Placing.path (w : Placing) (nodeId : String) : PathBuf :=
  ((w.paths.find? fun e => e.1 = nodeId).map Prod.snd).getD []

/-- A child is visited. -/
def Placing.visit (w : Placing) (parentId : String) (node : Client.LocalNode) : Placing :=
  let path := under (w.path parentId) node
  { queue := w.queue ++ [node.nodeId]
    paths := (node.nodeId, path) :: w.paths
    visited := w.visited ++ [(node, path)] }

section Materialize

variable (fails : ℕ → Bool) (nodes : List Client.LocalNode)

/-- The loop over the children of a node, up to the first that fails; whether the end was reached.  Whether a visit
fails is told by the visits before it. -/
def placeChildren (parentId : String) : List Client.LocalNode → Placing → Placing × Bool
  | [], w => (w, true)
  | node :: rest, w =>
    if fails w.visited.length then (w.visit parentId node, false)
    else placeChildren parentId rest (w.visit parentId node)

/-- The loop over the queue, if it ends within `fuel` turns. -/
def placeAll : ℕ → Placing → Option (Placing × Bool)
  | 0, _ => none
  | fuel + 1, w =>
    match w.queue with
    | [] => some (w, true)
    | parentId :: queue =>
      match placeChildren fails parentId (Client.childrenOf nodes parentId) { w with queue } with
      | (w', false) => some (w', false)
      | (w', true) => placeAll fuel w'

/-- The nodes below the first one without a parent, with their paths. -/
def placeNodes (mount : MountState) (fuel : ℕ) : Option (List (Client.LocalNode × PathBuf) × Bool) :=
  match rootOf nodes with
  | none => some ([], true)
  | some root =>
    (placeAll fails nodes fuel { queue := [root.nodeId], paths := [(root.nodeId, components mount.path)] }).map
      fun e => (e.1.visited, e.2)

end Materialize

section Mount

variable (m : Client.Mirror) (mount : MountState)

/-- `ORDER BY parent_id IS NOT NULL, name ASC`. -/
def rootFirst (a b : Client.LocalNode) : Prop :=
  if a.parentId.isSome = b.parentId.isSome then a.name ≤ b.name else a.parentId.isNone

instance : DecidableRel rootFirst := fun a b =>
  inferInstanceAs (Decidable (if a.parentId.isSome = b.parentId.isSome then a.name ≤ b.name else a.parentId.isNone))

/-- `materialize_mount_files`, if its own search ends within `fuel` turns: the visits, and whether none failed. -/
def materializeMountFiles (answers : List Removal) (fails : ℕ → Bool) (fuel : ℕ) :
    Option (List (Client.LocalNode × PathBuf) × Bool) :=
  if (cleanupDeletedMountPaths m mount answers).2 then
    placeNodes fails ((liveNodes m mount).insertionSort rootFirst) mount fuel
  else some ([], false)

end Mount

/-! ### What is asked for -/

/-- A search comes to an end, and visits no node twice. -/
def VisitsOnce (search : ℕ → Option (List (Client.LocalNode × PathBuf) × Bool)) : Prop :=
  ∃ fuel visits ok, search fuel = some (visits, ok) ∧ (visits.map fun v => v.1.nodeId).Nodup

/-- Every walk over the mirror returns, whatever mount it is for, and those down visit no node twice. -/
structure WalksReturn (m : Client.Mirror) : Prop where
  nodeAbsPath : ∀ mount : MountState, ∀ nodeId,
    ∃ fuel, (nodeAbsPathLoop (folderNodes m mount) mount.scopeNodeId fuel nodeId).isSome
  localNodeAbsPath : ∀ mount : MountState, ∀ node ∈ m.liveNodes mount.folderId,
    ∃ fuel, (Client.localNodeAbsPath (m.liveNodes mount.folderId) mount.scopeNodeId fuel node).isSome
  submitDeletesForMissing : ∀ folderId, m.SweepReturns folderId
  cleanup : ∀ mount, VisitsOnce (placeNodes (fun _ => false) (folderNodes m mount) mount)
  materializeMountFiles : ∀ mount answers fails, VisitsOnce (materializeMountFiles m mount answers fails)

/-! ### One mirror -/

section OneMirror

variable {m : Client.Mirror} {mount : MountState} {nodes : List Client.LocalNode}

theorem rows_folderNodes (hkeys : (m.nodes.map Client.LocalNode.nodeId).Nodup) (mount : MountState) :
    Client.Rows m mount.folderId (folderNodes m mount) :=
  Client.Rows.of_sublist hkeys List.filter_sublist fun r hr => by simpa using (List.mem_filter.1 hr).2

theorem rows_liveNodes (hkeys : (m.nodes.map Client.LocalNode.nodeId).Nodup) (mount : MountState) :
    Client.Rows m mount.folderId (liveNodes m mount) :=
  Client.Rows.of_sublist hkeys (List.filter_sublist.trans List.filter_sublist) fun r hr => by
    simpa using (List.mem_filter.1 (List.mem_of_mem_filter hr)).2

/-- **Up**: the loop ends where following parents does, whatever the scope. -/
theorem nodeAbsPathLoop_returns (hrows : Client.Rows m mount.folderId nodes)
    (hg : Grounded (m.parentIn mount.folderId)) (scopeNodeId : Option String) (nodeId : String) :
    ∃ fuel, (nodeAbsPathLoop nodes scopeNodeId fuel nodeId).isSome := by
  induction nodeId using hg.induction with
  | _ nodeId ih =>
    cases hfound : lookup Client.LocalNode.nodeId nodeId nodes with
    | none => exact ⟨1, by simp [nodeAbsPathLoop, hfound]⟩
    | some node =>
      have hup : m.parentIn mount.folderId nodeId = node.parentId := by
        rw [← lookup_key hfound]
        exact hrows.parents node (mem_of_lookup hfound)
      by_cases hscope : scopeNodeId = some node.nodeId
      · exact ⟨1, by simp [nodeAbsPathLoop, hfound, hscope]⟩
      cases hparent : node.parentId with
      | none => exact ⟨1, by simp [nodeAbsPathLoop, hfound, hscope, hparent]⟩
      | some p =>
        obtain ⟨fuel, hfuel⟩ := ih p (hup.trans hparent)
        exact ⟨fuel + 1, by simpa [nodeAbsPathLoop, hfound, hscope, hparent] using hfuel⟩

/-- The loop without a scope goes all the way up. -/
theorem acc_of_nodeAbsPathLoop (hkeys : (m.nodes.map Client.LocalNode.nodeId).Nodup) {fuel : ℕ} {nodeId : String}
    (h : (nodeAbsPathLoop (folderNodes m mount) none fuel nodeId).isSome) :
    Acc (fun p n => m.parentIn mount.folderId n = some p) nodeId := by
  induction fuel generalizing nodeId with
  | zero => cases h
  | succ fuel ih =>
    refine Acc.intro nodeId fun p hlink => ?_
    obtain ⟨r, hr, rfl, hfolder, hp⟩ := Client.parentIn_some hlink
    have hmem : r ∈ folderNodes m mount := List.mem_filter.2 ⟨hr, by simpa using hfolder⟩
    have hfound := lookup_of_mem (rows_folderNodes hkeys mount).keys hmem
    have hnext : (nodeAbsPathLoop (folderNodes m mount) none fuel p).isSome := by
      simpa [nodeAbsPathLoop, hfound, hp] using h
    exact ih hnext

/-- What the loop over the children leaves. -/
theorem placeChildren_ids (fails : ℕ → Bool) (parentId : String) (children : List Client.LocalNode) (w : Placing) :
    let run := placeChildren fails parentId children w
    ∃ now, now <+: children.map Client.LocalNode.nodeId ∧
      run.1.visited.map (fun v => v.1.nodeId) = w.visited.map (fun v => v.1.nodeId) ++ now ∧
      (run.2 = true → now = children.map Client.LocalNode.nodeId ∧ run.1.queue = w.queue ++ now) := by
  induction children generalizing w with
  | nil => exact ⟨[], List.nil_prefix, (List.append_nil _).symm, fun _ => ⟨rfl, (List.append_nil _).symm⟩⟩
  | cons node rest ih =>
    rw [placeChildren]
    split
    · refine ⟨[node.nodeId], ?_, ?_, fun hok => ?_⟩
      · exact List.cons_prefix_cons.2 ⟨rfl, List.nil_prefix⟩
      · simp [Placing.visit]
      · cases hok
    · obtain ⟨now, hfirst, hvisited, hall⟩ := ih (w.visit parentId node)
      refine ⟨node.nodeId :: now, List.cons_prefix_cons.2 ⟨rfl, hfirst⟩, ?_, fun hok => ?_⟩
      · rw [hvisited]
        simp [Placing.visit]
      · obtain ⟨hnow, hqueue⟩ := hall hok
        refine ⟨by rw [hnow]; rfl, ?_⟩
        rw [hqueue]
        simp [Placing.visit]

/-- The search visits what is opened from its queue, up to the first visit that fails. -/
theorem placeAll_ids (fails : ℕ → Bool) {fuel : ℕ} {w : Placing} {l : List String}
    (h : opened (Client.kidsOf (fun _ => true) nodes) fuel w.queue = some l) :
    ∃ w' ok now, placeAll fails nodes fuel w = some (w', ok) ∧ w.queue ++ now <+: l ∧
      w'.visited.map (fun v => v.1.nodeId) = w.visited.map (fun v => v.1.nodeId) ++ now := by
  induction fuel generalizing w l with
  | zero => cases h
  | succ fuel ih =>
    rw [placeAll]
    cases hqueue : w.queue with
    | nil =>
      exact ⟨w, true, [], rfl, List.nil_prefix, (List.append_nil _).symm⟩
    | cons parentId queue =>
      rw [hqueue, opened, Option.map_eq_some_iff] at h
      obtain ⟨l', hl', rfl⟩ := h
      have hkids : Client.kidsOf (fun _ => true) nodes parentId =
          (Client.childrenOf nodes parentId).map Client.LocalNode.nodeId := by simp [Client.kidsOf]
      obtain ⟨now, hfirst, hvisited, hall⟩ :=
        placeChildren_ids fails parentId (Client.childrenOf nodes parentId) { w with queue }
      rw [← hkids] at hfirst hall
      dsimp only
      rcases hrun : placeChildren fails parentId (Client.childrenOf nodes parentId) { w with queue } with ⟨w₁, ok⟩
      rw [hrun] at hvisited hall
      cases ok with
      | false =>
        refine ⟨w₁, false, now, rfl, ?_, hvisited⟩
        have hnow : queue ++ now <+: l' := ((List.prefix_append_right_inj queue).2 hfirst).trans (queue_of_opened hl')
        exact List.cons_prefix_cons.2 ⟨rfl, hnow⟩
      | true =>
        obtain ⟨rfl, hqueue₁⟩ := hall rfl
        have hopened : opened (Client.kidsOf (fun _ => true) nodes) fuel w₁.queue = some l' := by
          rw [hqueue₁]
          exact hl'
        obtain ⟨w', ok, later, hplace, hlater, hvisited'⟩ := ih hopened
        refine ⟨w', ok, Client.kidsOf (fun _ => true) nodes parentId ++ later, hplace, ?_, ?_⟩
        · rw [hqueue₁] at hlater
          rw [List.append_assoc] at hlater
          exact List.cons_prefix_cons.2 ⟨rfl, hlater⟩
        · rw [hvisited', hvisited, List.append_assoc]

/-- **Down**: a search ends where following parents does. -/
theorem placeNodes_returns (hrows : Client.Rows m mount.folderId nodes) (hg : Grounded (m.parentIn mount.folderId))
    (fails : ℕ → Bool) : VisitsOnce (placeNodes fails nodes mount) := by
  cases hroot : rootOf nodes with
  | none => exact ⟨0, [], true, by rw [placeNodes, hroot], List.nodup_nil⟩
  | some root =>
    have hmem : root ∈ nodes := List.mem_of_find?_eq_some hroot
    obtain ⟨l, hl, hnd⟩ := hrows.opened hg (fun _ => true) hmem (Nat.lt_succ_self _)
    let start : Placing := { queue := [root.nodeId], paths := [(root.nodeId, components mount.path)] }
    obtain ⟨w', ok, now, hplace, hfirst, hvisited⟩ := placeAll_ids (w := start) fails hl
    refine ⟨nodes.length + 1, w'.visited, ok, ?_, ?_⟩
    · rw [placeNodes, hroot]
      show (placeAll fails nodes (nodes.length + 1) start).map _ = _
      rw [hplace]
      rfl
    · rw [hvisited]
      exact (hnd.sublist hfirst.sublist).of_append_right

/-- **A mirror**: the walks return if and only if following parents ends in every folder. -/
theorem walksReturn_iff (hkeys : (m.nodes.map Client.LocalNode.nodeId).Nodup) :
    WalksReturn m ↔ ∀ folderId, Grounded (m.parentIn folderId) := by
  constructor
  · intro h folderId
    let mount : MountState := { path := "", folderId }
    refine ⟨fun nodeId => ?_⟩
    obtain ⟨fuel, hfuel⟩ := h.nodeAbsPath mount nodeId
    exact acc_of_nodeAbsPathLoop hkeys hfuel
  · intro hg
    constructor
    · exact fun mount nodeId => nodeAbsPathLoop_returns (rows_folderNodes hkeys mount) (hg _) _ nodeId
    · intro mount node hnode
      exact Client.localNodeAbsPath_returns (Client.rows_liveNodes hkeys mount.folderId) (hg _) _ hnode
    · exact fun folderId => Client.sweepReturns hkeys (hg folderId)
    · exact fun mount => placeNodes_returns (rows_folderNodes hkeys mount) (hg _) _
    · intro mount answers fails
      by_cases hclean : (cleanupDeletedMountPaths m mount answers).2 = true
      · have hrows := (rows_liveNodes hkeys mount).perm (List.perm_insertionSort rootFirst (liveNodes m mount))
        obtain ⟨fuel, visits, ok, hvisits, hnd⟩ := placeNodes_returns hrows (hg _) fails
        exact ⟨fuel, visits, ok, by rw [materializeMountFiles, if_pos hclean, hvisits], hnd⟩
      · exact ⟨0, [], false, by rw [materializeMountFiles, if_neg hclean], List.nodup_nil⟩

end OneMirror

/-! ### What an event does to the links -/

/-- The folder and the parent that an op puts its node in. -/
def newLink (m : Client.Mirror) (entry : OpLogEntry) : Option (String × String) :=
  match entry.payload with
  | .create _ parentId _ _ => (m.getNode parentId).map fun parent => (parent.folderId, parentId)
  | .move newParentId =>
    if m.stale entry then none else (m.getNode entry.nodeId).map fun node => (node.folderId, newParentId)
  | _ => none

/-- The parents in a snapshot; of two rows with one id, the last counts. -/
def treeParent (tree : FolderTreeResponse) (nodeId : String) : Option String :=
  (lookup NodeSnapshot.nodeId nodeId tree.nodes.reverse).bind NodeSnapshot.parentId

/-- An op does not put its node below itself, and in a snapshot no node is below itself. -/
def LinksApart (m : Client.Mirror) : MirrorEvent → Prop
  | .pulled _ entry => ∀ link ∈ newLink m entry, ¬ Reaches (m.parentIn link.1) link.2 entry.nodeId
  | .resynced _ tree => ∀ nodeId p, treeParent tree nodeId = some p → ¬ Reaches (treeParent tree) p nodeId
  | .cleaned => True

section Steps

variable {m m' : Client.Mirror} {now : ℕ} {entry : OpLogEntry} {folderId : String}

theorem parentIn_congr {nodeId : String} (h : m'.getNode nodeId = m.getNode nodeId) (folderId : String) :
    m'.parentIn folderId nodeId = m.parentIn folderId nodeId := by
  rw [Client.Mirror.parentIn, Client.Mirror.parentIn, h]

/-- A row that keeps its folder and its parent. -/
theorem parentIn_updateNode {nodeId : String} {f : Client.LocalNode → Client.LocalNode}
    (hid : ∀ r, (f r).nodeId = r.nodeId)
    (hkeep : ∀ r, m.getNode nodeId = some r → (f r).folderId = r.folderId ∧ (f r).parentId = r.parentId) :
    (m.updateNode nodeId f).parentIn = m.parentIn := by
  funext folderId k
  by_cases hk : k = nodeId
  · subst hk
    rw [Client.Mirror.parentIn, Client.Mirror.parentIn, Client.getNode_updateNode_self hid]
    cases hr : m.getNode k with
    | none => rfl
    | some r =>
      obtain ⟨hfolder, hparent⟩ := hkeep r hr
      simp [hfolder, hparent]
  · exact parentIn_congr (Client.getNode_updateNode_ne hid hk) folderId

/-- **An op without a new parent** leaves the links as they are. -/
theorem parentIn_of_no_link (h : m.applyOpLogEntry now entry = .ok m') (hlink : newLink m entry = none) :
    m'.parentIn = m.parentIn := by
  rw [Client.Mirror.applyOpLogEntry] at h
  split at h
  · cases h
    rfl
  next hstale =>
  rw [newLink] at hlink
  rw [Client.Mirror.applyPayload] at h
  split at h
  · next n parentId name nodeType hpayload =>
    rw [hpayload] at hlink
    rw [Client.Mirror.applyCreate, Option.map_eq_none_iff.1 hlink] at h
    cases h
  · cases h
    exact parentIn_updateNode (fun _ => rfl) fun _ _ => ⟨rfl, rfl⟩
  · next newParentId hpayload =>
    cases h
    rw [hpayload] at hlink
    dsimp only at hlink
    rw [if_neg hstale] at hlink
    refine parentIn_updateNode (fun _ => rfl) fun r hr => ?_
    rw [hr] at hlink
    cases hlink
  · cases h
    exact parentIn_updateNode (fun _ => rfl) fun _ _ => ⟨rfl, rfl⟩
  · rw [Client.Mirror.applyNewVersion] at h
    split at h
    · cases h
    · cases h
      rw [Client.Mirror.recordVersion]
      split
      · exact parentIn_updateNode (fun _ => rfl) fun _ _ => ⟨rfl, rfl⟩
      · exact parentIn_updateNode (fun _ => rfl) fun _ _ => ⟨rfl, rfl⟩

/-- **An op with a new parent** leaves it in its node's row. -/
theorem getNode_of_link {p : String} (h : m.applyOpLogEntry now entry = .ok m')
    (hlink : newLink m entry = some (folderId, p)) :
    ∃ r, m'.getNode entry.nodeId = some r ∧ r.folderId = folderId ∧ r.parentId = some p := by
  rw [newLink] at hlink
  split at hlink
  · next n parentId name nodeType hpayload =>
    obtain ⟨parent, hparent, he⟩ := Option.map_eq_some_iff.1 hlink
    cases he
    have hstale : m.stale entry = false := by simp [Client.Mirror.stale, Client.isCreate, hpayload]
    rw [Client.Mirror.applyOpLogEntry, if_neg (by simp [hstale]), Client.Mirror.applyPayload, hpayload] at h
    dsimp only at h
    rw [Client.Mirror.applyCreate, hparent] at h
    cases h
    refine ⟨_, Client.getNode_upsertNode_self _, ?_⟩
    cases m.getNode _ <;> exact ⟨rfl, rfl⟩
  · next newParentId hpayload =>
    split at hlink
    · cases hlink
    · next hstale =>
      obtain ⟨node, hnode, he⟩ := Option.map_eq_some_iff.1 hlink
      cases he
      rw [Client.Mirror.applyOpLogEntry, if_neg hstale, Client.Mirror.applyPayload, hpayload] at h
      cases h
      refine ⟨{ node with parentId := some p, serverSeq := entry.serverSeq }, ?_, rfl, rfl⟩
      refine (Client.getNode_updateNode_self fun _ => ?_).trans ?_
      · rfl
      · rw [hnode]
        rfl
  · cases hlink

/-- What cannot be applied has no new parent. -/
theorem newLink_of_error {e : Client.MirrorError} (h : m.applyOpLogEntry now entry = .error e) :
    newLink m entry = none := by
  rw [Client.Mirror.applyOpLogEntry] at h
  split at h
  · cases h
  rw [Client.Mirror.applyPayload] at h
  split at h
  · next n parentId name nodeType hpayload =>
    rw [newLink, hpayload]
    rw [Client.Mirror.applyCreate] at h
    split at h
    · next hparent =>
      show (m.getNode parentId).map _ = none
      rw [hparent]
      rfl
    · cases h
  · cases h
  · cases h
  · cases h
  · next hpayload => rw [newLink, hpayload]

/-- **A pulled op** keeps every way up ending if and only if it does not put its node below itself. -/
theorem grounded_applyOpLogEntry (hg : ∀ folderId, Grounded (m.parentIn folderId))
    (h : m.applyOpLogEntry now entry = .ok m') :
    (∀ folderId, Grounded (m'.parentIn folderId)) ↔
      ∀ link ∈ newLink m entry, ¬ Reaches (m.parentIn link.1) link.2 entry.nodeId := by
  cases hlink : newLink m entry with
  | none =>
    rw [parentIn_of_no_link h hlink]
    exact ⟨fun _ link hlink => absurd hlink (Option.not_mem_none link), fun _ => hg⟩
  | some link =>
    obtain ⟨folderId, p⟩ := link
    obtain ⟨r, hr, hfolder, hparent⟩ := getNode_of_link h hlink
    have hframe : ∀ g k, k ≠ entry.nodeId → m'.parentIn g k = m.parentIn g k := fun g k hk =>
      parentIn_congr (Client.getNode_applyOpLogEntry_ne h hk) g
    have hself : m'.parentIn folderId entry.nodeId = some p := by
      rw [Client.Mirror.parentIn, hr, Option.bind_some, if_pos hfolder, hparent]
    have hrelink := grounded_relink (hframe folderId) hself (hg folderId)
    constructor
    · intro hg' link hmem
      cases hmem
      exact hrelink.1 (hg' folderId)
    · intro hapart g
      by_cases hgf : g = folderId
      · subst hgf
        exact hrelink.2 (hapart _ rfl)
      · -- in another folder the node is no longer there
        refine (hg g).mono fun k q hq => ?_
        by_cases hk : k = entry.nodeId
        · subst hk
          rw [Client.Mirror.parentIn, hr, Option.bind_some, hfolder, if_neg (Ne.symm hgf)] at hq
          cases hq
        · exact (hframe g k hk).symm.trans hq

/-! ### Snapshots -/

theorem parentIn_insertSnapshotNode (folderId : String) (m : Client.Mirror) (node : NodeSnapshot) (k : String) :
    (Client.Mirror.insertSnapshotNode folderId m node).parentIn folderId k =
      if node.nodeId = k then node.parentId else m.parentIn folderId k := by
  split
  · next he =>
    subst he
    have hrow : (Client.Mirror.insertSnapshotNode folderId m node).getNode node.nodeId = some _ :=
      Client.getNode_upsertNode_self _
    rw [Client.Mirror.parentIn, hrow]
    cases m.getNode _ <;> simp [Client.LocalNode.keepPushCache]
  · next hne => exact parentIn_congr (Client.getNode_upsertNode_ne _ (Ne.symm hne)) folderId

/-- A row of a snapshot is in no other folder. -/
theorem parentIn_insertSnapshotNode_ne {g k q : String} (node : NodeSnapshot) (hne : g ≠ folderId)
    (h : (Client.Mirror.insertSnapshotNode folderId m node).parentIn g k = some q) : m.parentIn g k = some q := by
  by_cases hk : k = node.nodeId
  · subst hk
    have hrow : (Client.Mirror.insertSnapshotNode folderId m node).getNode node.nodeId = some _ :=
      Client.getNode_upsertNode_self _
    rw [Client.Mirror.parentIn, hrow] at h
    cases hold : m.getNode node.nodeId <;> simp [hold, Client.LocalNode.keepPushCache, Ne.symm hne] at h
  · exact (parentIn_congr (Client.getNode_upsertNode_ne _ hk) g).symm.trans h

/-- The links after a snapshot's rows: those of the last row for each id, else the ones before. -/
theorem parentIn_insertSnapshotNodes (m : Client.Mirror) (nodes : List NodeSnapshot) (k : String) :
    (nodes.foldl (Client.Mirror.insertSnapshotNode folderId) m).parentIn folderId k =
      (lookup NodeSnapshot.nodeId k nodes.reverse).elim (m.parentIn folderId k) NodeSnapshot.parentId := by
  induction nodes using List.reverseRecOn with
  | nil => rfl
  | append_singleton nodes node ih =>
    rw [List.foldl_append, List.reverse_append, List.reverse_singleton, List.singleton_append, lookup_cons]
    show (Client.Mirror.insertSnapshotNode folderId (nodes.foldl _ m) node).parentIn folderId k = _
    rw [parentIn_insertSnapshotNode, ih]
    split <;> rfl

theorem parentIn_insertSnapshotNodes_ne {g k q : String} (nodes : List NodeSnapshot) (hne : g ≠ folderId)
    (h : (nodes.foldl (Client.Mirror.insertSnapshotNode folderId) m).parentIn g k = some q) :
    m.parentIn g k = some q := by
  induction nodes generalizing m with
  | nil => exact h
  | cons node nodes ih => exact parentIn_insertSnapshotNode_ne node hne (ih h)

/-- **A snapshot** leaves its own links in its folder, and no new ones in another. -/
theorem parentIn_applyTreeSnapshot (m : Client.Mirror) (folderId : String) (tree : FolderTreeResponse) :
    (m.applyTreeSnapshot folderId tree).parentIn folderId = treeParent tree := by
  funext k
  let kept : Client.Mirror :=
    { m with
      versions := m.versions.filter fun r => r.folderId ≠ folderId
      nodes := m.nodes.filter fun r => r.folderId ≠ folderId }
  have hgone : kept.parentIn folderId k = none := by
    cases hp : kept.parentIn folderId k with
    | none => rfl
    | some q =>
      obtain ⟨r, hr, -, hfolder, -⟩ := Client.parentIn_some hp
      exact absurd hfolder (by simpa using (List.mem_filter.1 hr).2)
  show (tree.nodes.foldl (Client.Mirror.insertSnapshotNode folderId) kept).parentIn folderId k = _
  rw [parentIn_insertSnapshotNodes, hgone, treeParent]
  cases lookup NodeSnapshot.nodeId k tree.nodes.reverse <;> rfl

theorem parentIn_applyTreeSnapshot_ne (hkeys : (m.nodes.map Client.LocalNode.nodeId).Nodup)
    {tree : FolderTreeResponse} {g k q : String} (hne : g ≠ folderId)
    (h : (m.applyTreeSnapshot folderId tree).parentIn g k = some q) : m.parentIn g k = some q := by
  obtain ⟨r, hr, rfl, hfolder, hparent⟩ := Client.parentIn_some (parentIn_insertSnapshotNodes_ne tree.nodes hne h)
  exact (Client.parentIn_of_mem hkeys (List.mem_of_mem_filter hr) hfolder).trans hparent

theorem finite_treeParent (tree : FolderTreeResponse) : {nodeId | (treeParent tree nodeId).isSome}.Finite := by
  refine (tree.nodes.map NodeSnapshot.nodeId).finite_toSet.subset fun nodeId h => ?_
  obtain ⟨p, hp⟩ := Option.isSome_iff_exists.1 h
  obtain ⟨r, hr, -⟩ := Option.bind_eq_some_iff.1 hp
  have hmem : r ∈ tree.nodes := List.mem_reverse.1 (mem_of_lookup hr)
  exact List.mem_map.2 ⟨r, hmem, lookup_key hr⟩

/-- A snapshot keeps every way up ending if and only if none of its nodes is below itself. -/
theorem grounded_applyTreeSnapshot (hkeys : (m.nodes.map Client.LocalNode.nodeId).Nodup)
    (hg : ∀ folderId, Grounded (m.parentIn folderId)) (folderId : String) (tree : FolderTreeResponse) :
    (∀ g, Grounded ((m.applyTreeSnapshot folderId tree).parentIn g)) ↔
      ∀ nodeId p, treeParent tree nodeId = some p → ¬ Reaches (treeParent tree) p nodeId := by
  rw [← grounded_iff_acyclic (finite_treeParent tree)]
  constructor
  · intro h
    rw [← parentIn_applyTreeSnapshot m folderId tree]
    exact h folderId
  · intro h g
    by_cases hgf : g = folderId
    · rw [hgf, parentIn_applyTreeSnapshot]
      exact h
    · exact (hg g).mono fun k q hq => parentIn_applyTreeSnapshot_ne hkeys hgf hq

end Steps

/-! ### The states of a mirror -/

/-- **One event** keeps every way up ending if and only if the links it brings are apart. -/
theorem grounded_mirrorStep {m : Client.Mirror} (hkeys : (m.nodes.map Client.LocalNode.nodeId).Nodup)
    (hg : ∀ folderId, Grounded (m.parentIn folderId)) (ev : MirrorEvent) :
    (∀ folderId, Grounded (((mirrorStep m ev).getD m).parentIn folderId)) ↔ LinksApart m ev := by
  cases ev with
  | pulled now entry =>
    rw [mirrorStep]
    cases happly : m.applyOpLogEntry now entry with
    | error e =>
      rw [LinksApart, newLink_of_error happly]
      exact ⟨fun _ link hlink => absurd hlink (Option.not_mem_none link), fun _ => hg⟩
    | ok m' => exact grounded_applyOpLogEntry hg happly
  | resynced folderId tree => exact grounded_applyTreeSnapshot hkeys hg folderId tree
  | cleaned => exact ⟨fun _ => True.intro, fun _ => hg⟩

/-- The ids are different, and the walks return. -/
def Sound (m : Client.Mirror) : Prop :=
  (m.nodes.map Client.LocalNode.nodeId).Nodup ∧ WalksReturn m

theorem nodup_getD_mirrorStep {m : Client.Mirror} (hkeys : (m.nodes.map Client.LocalNode.nodeId).Nodup)
    (ev : MirrorEvent) : (((mirrorStep m ev).getD m).nodes.map Client.LocalNode.nodeId).Nodup := by
  cases hstep : mirrorStep m ev with
  | none => exact hkeys
  | some m' => exact nodup_mirrorStep hkeys hstep

/-- **The walks return** from every state of a mirror, in exactly the runs in which no op puts its node below itself
and no snapshot has a node below itself. -/
theorem walks_return (m : Client.Mirror) (hkeys : (m.nodes.map Client.LocalNode.nodeId).Nodup)
    (hstart : WalksReturn m) (evs : List MirrorEvent) :
    Run.Along mirrorStep (fun m ev => WalksReturn ((mirrorStep m ev).getD m)) m evs ↔
      Run.Along mirrorStep LinksApart m evs := by
  have hstep : ∀ m ev, Sound m → (Sound ((mirrorStep m ev).getD m) ↔ LinksApart m ev) := by
    rintro m ev ⟨hkeys, hreturn⟩
    have hkeys' := nodup_getD_mirrorStep hkeys ev
    rw [Sound, walksReturn_iff hkeys', ← grounded_mirrorStep hkeys ((walksReturn_iff hkeys).1 hreturn) ev]
    exact and_iff_right hkeys'
  rw [← Run.Along.iff_of_step hstep ⟨hkeys, hstart⟩]
  constructor
  · intro h
    refine Run.Along.of_invariant (I := fun m => (m.nodes.map Client.LocalNode.nodeId).Nodup)
      (fun m ev m' hm _ he => nodup_mirrorStep hm he) (fun m ev hm hreturn => ⟨nodup_getD_mirrorStep hm ev, hreturn⟩)
      hkeys h
  · exact fun h => h.mono fun _ _ hsound => hsound.2

/-! ### Two logs -/

/-- The condition, by climbing. -/
def linksSeen (m : Client.Mirror) : MirrorEvent → Bool
  | .pulled _ entry =>
    (newLink m entry).all fun link => avoids (m.parentIn link.1) entry.nodeId (m.nodes.length + 1) link.2
  | .resynced _ tree => tree.nodes.all fun r =>
      (treeParent tree r.nodeId).all fun p => avoids (treeParent tree) r.nodeId (tree.nodes.length + 1) p
  | .cleaned => true

theorem linksApart_of_seen {m : Client.Mirror} {ev : MirrorEvent} (h : linksSeen m ev = true) : LinksApart m ev := by
  cases ev with
  | pulled now entry => exact fun link hlink => not_reaches_of_avoids (Option.all_eq_true _ _ |>.1 h link hlink)
  | resynced folderId tree =>
    intro nodeId p hp
    obtain ⟨r, hr, -⟩ := Option.bind_eq_some_iff.1 hp
    have hmem : r ∈ tree.nodes := List.mem_reverse.1 (mem_of_lookup hr)
    have hseen := List.all_eq_true.1 h r hmem
    rw [lookup_key hr] at hseen
    exact not_reaches_of_avoids (Option.all_eq_true _ _ |>.1 hseen p hp)
  | cleaned => exact True.intro

/-- An empty database. -/
theorem walksReturn_empty : WalksReturn {} := by
  have hkeys : (({} : Client.Mirror).nodes.map Client.LocalNode.nodeId).Nodup := List.nodup_nil
  exact (walksReturn_iff hkeys).2 fun _ => ⟨fun _ => Acc.intro _ fun _ => nofun⟩

/-- The snapshot of a new folder, and the whole log of calls on it. -/
def logOf (calls : List SubmitCall) : List MirrorEvent :=
  let s := ((createFolder .pg newFolder).exec newDb none).1
  .resynced "f" (Client.treePage s "f" "root") ::
    ((startOps .pg s calls).run (inTurn calls)).state.opLog.map fun e => .pulled 0 e.entry

theorem walks_return_out :
    Run.Along mirrorStep (fun m ev => WalksReturn ((mirrorStep m ev).getD m)) {} (logOf outCalls) := by
  apply (walks_return {} List.nodup_nil walksReturn_empty (logOf outCalls)).2
  have hseen : Run.Along mirrorStep (fun m ev => linksSeen m ev = true) {} (logOf outCalls) := by decide +kernel
  exact hseen.mono fun _ _ => linksApart_of_seen

/-- Two nodes above each other. -/
theorem not_walksReturn {m : Client.Mirror} (hkeys : (m.nodes.map Client.LocalNode.nodeId).Nodup)
    {folderId a b : String} (hab : m.parentIn folderId a = some b) (hba : m.parentIn folderId b = some a) :
    ¬ WalksReturn m := fun h =>
  ((walksReturn_iff hkeys).1 h folderId).acyclic hab (Reaches.step hba (Reaches.refl a))

open Client in
/-- In the directory of a reader, `x` has a directory `n` in it.  `p` is moved away, `n` into `p`, `p` back and `x`
into `n`, and the reader pulls after each move. -/
def nestEdits : List ScopeEvent :=
  [docsCall (.create "x" "docs" "x" .folder), docsCall (.create "p" "docs" "p" .folder),
   docsCall (.create "n" "x" "n" .folder), .pull 0, docsCall (.mutate "p" 2 (.move "drafts")), .pull 0,
   docsCall (.mutate "n" 3 (.move "p")), .pull 0, docsCall (.mutate "p" 4 (.move "docs")), .pull 0,
   docsCall (.mutate "x" 1 (.move "n")), .pull 0]

def nestState : Client.ScopeState :=
  Run.run (Client.ScopeState.step Client.docsReader)
    (Client.ScopeState.start Client.docsReader Client.sharedDb Client.mounted) nestEdits

/-- **The walks do not return.**  The log of two directories that are moved into each other leaves them so in the
mirror.  Where a reader of one directory pulls, the server's tree need not have had a cycle: the move of `n` is out of
the scope when it is made, and is passed over. -/
theorem walks_do_not_return : ¬ WalksReturn (Run.run mirrorStep {} (logOf cycleCalls)) ∧
    Client.ScopeStart Client.docsReader Client.sharedDb Client.mounted ∧
    (nestState.server.parentOf "x" = some "n" ∧ nestState.server.parentOf "n" = some "p" ∧
      nestState.server.parentOf "p" = some "docs") ∧
    ¬ WalksReturn nestState.mirror := by
  refine ⟨?_, Client.scopeStart_sharedDb, ?_, ?_⟩
  · have hlinks : (Run.run mirrorStep {} (logOf cycleCalls)).parentIn "f" "a" = some "b" ∧
        (Run.run mirrorStep {} (logOf cycleCalls)).parentIn "f" "b" = some "a" := by decide +kernel
    exact not_walksReturn (by decide +kernel) hlinks.1 hlinks.2
  · decide +kernel
  · have hlinks : nestState.mirror.parentIn "f" "x" = some "n" ∧ nestState.mirror.parentIn "f" "n" = some "x" := by
      decide +kernel
    exact not_walksReturn (by decide +kernel) hlinks.1 hlinks.2

end Valv.Daemon
