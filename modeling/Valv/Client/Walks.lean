import Valv.Client.Sweep
import Valv.Lib.Forest

/-!
# Walks over the mirror

What follows parents or children through the rows of a folder has no bound of its own: `local_node_abs_path` up from a
node, `submit_deletes_for_missing` and `folder_descendant_files_are_local` down from one.

* `parentIn`: the parent of a node, by the rows of the folder.
* `localNodeAbsPath`: the loop, with the turns it may take.
* `SweepReturns`: the sweep comes to an end and visits no node twice.
* `localNodeAbsPath_returns`, `sweepReturns`: where following parents ends, the walks do.
-/

namespace Valv.Client

open Valv.Conc Valv.Table Valv.Forest Valv.Server Valv.Files

/-! ### Parent links -/

/-- The parent of a node, by the rows of the folder. -/
def Mirror.parentIn (m : Mirror) (folderId nodeId : String) : Option String :=
  (m.getNode nodeId).bind fun r => if r.folderId = folderId then r.parentId else none

/-- `nodes` are rows of the folder, with different ids. -/
structure Rows (m : Mirror) (folderId : String) (nodes : List LocalNode) : Prop where
  keys : (nodes.map LocalNode.nodeId).Nodup
  parents : ∀ r ∈ nodes, m.parentIn folderId r.nodeId = r.parentId

section Links

variable {m : Mirror} {folderId : String} {nodes : List LocalNode}

theorem parentIn_of_mem (hkeys : (m.nodes.map LocalNode.nodeId).Nodup) {r : LocalNode} (hr : r ∈ m.nodes)
    (hfolder : r.folderId = folderId) : m.parentIn folderId r.nodeId = r.parentId := by
  have hfound : m.getNode r.nodeId = some r := lookup_of_mem hkeys hr
  rw [Mirror.parentIn, hfound, Option.bind_some, if_pos hfolder]

theorem parentIn_some {nodeId p : String} (h : m.parentIn folderId nodeId = some p) :
    ∃ r ∈ m.nodes, r.nodeId = nodeId ∧ r.folderId = folderId ∧ r.parentId = some p := by
  obtain ⟨r, hr, hp⟩ := Option.bind_eq_some_iff.1 h
  split at hp
  · next hfolder => exact ⟨r, mem_of_lookup hr, lookup_key hr, hfolder, hp⟩
  · cases hp

/-- Some of the folder's rows, in their order. -/
theorem Rows.of_sublist (hkeys : (m.nodes.map LocalNode.nodeId).Nodup) (hsub : nodes.Sublist m.nodes)
    (hfolder : ∀ r ∈ nodes, r.folderId = folderId) : Rows m folderId nodes where
  keys := hkeys.sublist (hsub.map LocalNode.nodeId)
  parents r hr := parentIn_of_mem hkeys (hsub.subset hr) (hfolder r hr)

theorem Rows.perm {nodes' : List LocalNode} (hperm : nodes'.Perm nodes) (h : Rows m folderId nodes) :
    Rows m folderId nodes' where
  keys := (hperm.map LocalNode.nodeId).nodup_iff.2 h.keys
  parents r hr := h.parents r (hperm.mem_iff.1 hr)

theorem rows_liveNodes (hkeys : (m.nodes.map LocalNode.nodeId).Nodup) (folderId : String) :
    Rows m folderId (m.liveNodes folderId) := by
  refine Rows.of_sublist hkeys List.filter_sublist fun r hr => ?_
  have hlive := (List.mem_filter.1 hr).2
  rw [Bool.and_eq_true, decide_eq_true_eq] at hlive
  exact hlive.1

end Links

/-! ### Up -/

section Walks

variable {m : Mirror} {folderId : String} {nodes : List LocalNode}

/-- **Up**: the loop ends where following parents does, whatever the scope. -/
theorem localNodeAbsPath_returns (hrows : Rows m folderId nodes) (hg : Grounded (m.parentIn folderId))
    (scopeNodeId : Option String) {node : LocalNode} (hnode : node ∈ nodes) :
    ∃ fuel, (localNodeAbsPath nodes scopeNodeId fuel node).isSome := by
  -- by induction on the node's ancestors
  generalize hid : node.nodeId = nodeId
  induction nodeId using hg.induction generalizing node with
  | _ nodeId ih =>
    have hup : m.parentIn folderId nodeId = node.parentId := hid ▸ hrows.parents node hnode
    by_cases hscope : scopeNodeId = some node.nodeId
    · exact ⟨1, by rw [localNodeAbsPath, if_pos hscope]; rfl⟩
    cases hparent : node.parentId with
    | none => exact ⟨1, by rw [localNodeAbsPath, if_neg hscope, hparent]; rfl⟩
    | some p =>
      cases hfound : lookup LocalNode.nodeId p nodes with
      | none => exact ⟨1, by rw [localNodeAbsPath, if_neg hscope, hparent]; simp only [hfound]; rfl⟩
      | some parent =>
        have hlink : m.parentIn folderId nodeId = some p := hup.trans hparent
        obtain ⟨fuel, hfuel⟩ := ih p hlink (mem_of_lookup hfound) (lookup_key hfound)
        refine ⟨fuel + 1, ?_⟩
        rw [localNodeAbsPath, if_neg hscope, hparent]
        simp only [hfound, Option.isSome_map]
        exact hfuel

/-! ### Down -/

/-- The ids of the children of a node that `keep` selects. -/
def kidsOf (keep : LocalNode → Bool) (nodes : List LocalNode) (nodeId : String) : List String :=
  ((childrenOf nodes nodeId).filter keep).map LocalNode.nodeId

/-- A search down from a row. -/
theorem Rows.opened (hrows : Rows m folderId nodes) (hg : Grounded (m.parentIn folderId)) (keep : LocalNode → Bool)
    {seed : LocalNode} (hseed : seed ∈ nodes) {fuel : ℕ} (hfuel : nodes.length < fuel) :
    ∃ l, opened (kidsOf keep nodes) fuel [seed.nodeId] = some l ∧ l.Nodup := by
  have hlen : (nodes.map LocalNode.nodeId).length < fuel := by simpa using hfuel
  refine opened_of_grounded hg ?_ ?_ (List.mem_map_of_mem hseed) hlen
  · intro k c hc
    obtain ⟨r, hr, rfl⟩ := List.mem_map.1 hc
    obtain ⟨hmem, hlink⟩ := List.mem_filter.1 (List.mem_of_mem_filter hr)
    refine ⟨(hrows.parents r hmem).trans ?_, List.mem_map_of_mem hmem⟩
    simpa using hlink
  · intro k
    exact hrows.keys.sublist ((List.filter_sublist.trans List.filter_sublist).map _)

/-- `folder_descendant_files_are_local` ends. -/
theorem folderDescendantFilesAreLocal_returns (m' : Mirror) {fuel : ℕ} {queue l : List String}
    (h : Forest.opened (kidsOf (fun c => c.nodeType = .folder) nodes) fuel queue = some l) :
    (folderDescendantFilesAreLocal m' nodes fuel queue).isSome := by
  induction fuel generalizing queue l with
  | zero => cases h
  | succ fuel ih =>
    cases queue with
    | nil => rfl
    | cons nodeId queue =>
      rw [Forest.opened, Option.map_eq_some_iff] at h
      obtain ⟨l', hl', -⟩ := h
      rw [folderDescendantFilesAreLocal]
      split
      · exact ih hl'
      · rfl

theorem shouldDelete_returns (hrows : Rows m folderId nodes) (hg : Grounded (m.parentIn folderId)) (m' : Mirror)
    {fuel : ℕ} (hfuel : nodes.length < fuel) {node : LocalNode} (hnode : node ∈ nodes) :
    (shouldDelete m' nodes fuel node).isSome := by
  rw [shouldDelete]
  cases node.nodeType with
  | folder =>
    obtain ⟨l, hl, -⟩ := hrows.opened hg (fun c => c.nodeType = .folder) hnode hfuel
    exact folderDescendantFilesAreLocal_returns m' hl
  | file => rfl

/-! ### What the sweep visits -/

theorem visitChildren_ids (deferred : List String) (parentId : String) (children : List LocalNode) (w : Sweep) :
    let ids := (children.filter fun c => c.nodeId ∉ deferred).map LocalNode.nodeId
    (visitChildren deferred parentId children w).1.map (fun v => v.node.nodeId) = ids ∧
      (visitChildren deferred parentId children w).2.queue = w.queue ++ ids := by
  induction children generalizing w with
  | nil => exact ⟨rfl, (List.append_nil _).symm⟩
  | cons node rest ih =>
    by_cases hdeferred : node.nodeId ∈ deferred
    · simpa [visitChildren, hdeferred] using ih w
    · obtain ⟨hids, hqueue⟩ := ih (w.reach parentId node)
      rw [visitChildren, if_neg hdeferred]
      simp only [List.map_cons, hids, hqueue]
      simp [hdeferred, Sweep.reach]

/-- The queue and what is visited from it are what a search opens. -/
theorem visits_ids {deferred : List String} {fuel : ℕ} {w : Sweep} {l : List String}
    (h : Forest.opened (kidsOf (fun c => c.nodeId ∉ deferred) nodes) fuel w.queue = some l) :
    w.queue ++ (visits nodes deferred fuel w).map (fun v => v.node.nodeId) = l := by
  induction fuel generalizing w l with
  | zero => cases h
  | succ fuel ih =>
    rw [visits]
    cases hqueue : w.queue with
    | nil =>
      rw [hqueue] at h
      cases h
      rfl
    | cons parentId queue =>
      rw [hqueue, Forest.opened, Option.map_eq_some_iff] at h
      obtain ⟨l', hl', rfl⟩ := h
      obtain ⟨hids, hafter⟩ := visitChildren_ids deferred parentId (childrenOf nodes parentId) { w with queue }
      have hrest := ih (w := (visitChildren deferred parentId (childrenOf nodes parentId) { w with queue }).2) (by
        rw [hafter]
        exact hl')
      rw [hafter] at hrest
      rw [← hrest]
      simp [hids, List.append_assoc]

end Walks

/-! ### The sweep ends -/

/-- The program does not run out of turns. -/
def Unstuck {α : Type} (p : PushProc α) : Prop := ∀ s, (p.runBody s).2 ≠ .error .stuck

theorem Unstuck.bind {α β : Type} {p : PushProc α} {f : α → PushProc β} (hp : Unstuck p) (hf : ∀ a, Unstuck (f a)) :
    Unstuck (p >>= f) := by
  intro s
  rw [Proc.runBody_bind]
  have hps := hp s
  rcases hrun : p.runBody s with ⟨s', error | a⟩
  · rw [hrun] at hps
    exact fun he => hps (congrArg _ (Except.error.inj he))
  · exact hf a s'

theorem ok_ne_stuck {α : Type} (a : α) : (.ok a : Except Halt α) ≠ .error .stuck := by
  intro he
  cases he

theorem updateRequired_ne_stuck {α : Type} : (.error .updateRequired : Except Halt α) ≠ .error .stuck := by
  intro he
  cases he

theorem unstuck_pure {α : Type} (a : α) : Unstuck (pure a) := fun _ => ok_ne_stuck a

theorem unstuck_change (f : Pass → Pass) : Unstuck (change f) := fun _ => ok_ne_stuck ()

section Ends

variable {env : PushEnv} {W : Pass} {done : List Visit} {s : Pass} {nodes : List LocalNode}

theorem unstuck_ensureNotUpdateRequired (env : PushEnv) : Unstuck (ensureNotUpdateRequired env) := by
  intro s
  rw [runBody_ensureNotUpdateRequired]
  split
  · exact updateRequired_ne_stuck
  · exact ok_ne_stuck ()

theorem unstuck_propagateUpdateRequired (e : SubmitError) : Unstuck (propagateUpdateRequired e) := by
  intro s
  rw [propagateUpdateRequired]
  split
  · exact updateRequired_ne_stuck
  · exact ok_ne_stuck ()

theorem unstuck_finishDelete (env : PushEnv) (node : LocalNode) (result : SubmitResult) :
    Unstuck (finishDelete env node result) := by
  cases result with
  | applied => exact (unstuck_change _).bind fun _ => unstuck_change _
  | error e => exact (unstuck_propagateUpdateRequired e).bind fun _ => unstuck_change _
  | conflictCopy => exact unstuck_change _
  | superseded => exact unstuck_change _
  | conflict => exact unstuck_change _

theorem unstuck_submitDelete (env : PushEnv) (node : LocalNode) (path : Path) :
    Unstuck (submitDelete env node path) :=
  Unstuck.bind (fun _ => ok_ne_stuck _) fun result => unstuck_finishDelete env node result

theorem unstuck_sweepNode {node : LocalNode} (hjudged : ∀ m', (shouldDelete m' nodes env.fuel node).isSome)
    (path : Path) : Unstuck (sweepNode env nodes node path) := by
  intro s
  rw [runBody_sweepNode]
  split
  · have hsome := hjudged s.mirror
    cases h : shouldDelete s.mirror nodes env.fuel node with
    | none => simp [h] at hsome
    | some judged =>
      cases judged with
      | false => exact unstuck_pure () _
      | true => exact unstuck_submitDelete env node path _
  · exact ok_ne_stuck ()

theorem unstuck_sweepChildren {children : List LocalNode}
    (hjudged : ∀ node ∈ children, ∀ m', (shouldDelete m' nodes env.fuel node).isSome) (deferred : List String)
    (parentId : String) (w : Sweep) : Unstuck (sweepChildren env nodes deferred parentId children w) := by
  induction children generalizing w with
  | nil => exact unstuck_pure w
  | cons node rest ih =>
    have hrest := ih fun r hr => hjudged r (List.mem_cons_of_mem _ hr)
    refine (unstuck_ensureNotUpdateRequired env).bind fun _ => ?_
    split
    · exact hrest w
    · have hnode := unstuck_sweepNode (hjudged node List.mem_cons_self) (w.path parentId ++ [node.name])
      exact hnode.bind fun _ => hrest _

/-- The sweep ends where a search through its children does. -/
theorem Swept.sweep_unstuck (h : Swept env W done s)
    (hjudged : ∀ node ∈ W.mirror.liveNodes env.folderId, ∀ m',
      (shouldDelete m' (W.mirror.liveNodes env.folderId) env.fuel node).isSome) {fuel : ℕ} {w : Sweep}
    {l : List String} (hopened : Forest.opened (kidsOf (fun c => c.nodeId ∉ W.deferred)
      (W.mirror.liveNodes env.folderId)) fuel w.queue = some l) :
    ((Client.sweep env (W.mirror.liveNodes env.folderId) W.deferred fuel w).runBody s).2 ≠ .error .stuck := by
  induction fuel generalizing s done w l with
  | zero => cases hopened
  | succ fuel ih =>
    rw [Client.sweep]
    cases hqueue : w.queue with
    | nil => exact ok_ne_stuck ()
    | cons parentId queue =>
      rw [hqueue, Forest.opened, Option.map_eq_some_iff] at hopened
      obtain ⟨l', hl', -⟩ := hopened
      let children := childrenOf (W.mirror.liveNodes env.folderId) parentId
      have hchildren : ∀ node ∈ children, ∀ m',
          (shouldDelete m' (W.mirror.liveNodes env.folderId) env.fuel node).isSome :=
        fun node hnode => hjudged node (List.mem_of_mem_filter hnode)
      have hends := unstuck_sweepChildren hchildren W.deferred parentId { w with queue } s
      obtain ⟨now, -, hswept, hall⟩ := h.sweepChildren parentId children { w with queue }
      dsimp only
      rw [Proc.runBody_bind]
      split
      · next s₁ w' hrun =>
        rw [hrun] at hswept hall
        obtain ⟨-, rfl⟩ := hall w' rfl
        refine ih hswept (l := l') ?_
        rw [(visitChildren_ids W.deferred parentId children { w with queue }).2]
        exact hl'
      · next s₁ error hrun =>
        rw [hrun] at hends
        exact fun he => hends (congrArg _ (Except.error.inj he))

end Ends

/-- `submit_deletes_for_missing` comes to an end, whatever it finds, and visits no node twice. -/
def Mirror.SweepReturns (m : Mirror) (folderId : String) : Prop :=
  ∃ turns, ∀ (env : PushEnv) (W : Pass), env.folderId = folderId → W.mirror = m → turns ≤ env.fuel →
    ((submitDeletesForMissing env).runBody W).2 ≠ .error .stuck ∧
      ((W.visits env).map fun v => v.node.nodeId).Nodup

theorem mem_of_seedNode {env : PushEnv} {nodes : List LocalNode} {seed : LocalNode}
    (h : seedNode env nodes = some seed) : seed ∈ nodes := by
  rw [seedNode] at h
  split at h
  · exact List.mem_of_find?_eq_some h
  · exact List.mem_of_find?_eq_some h

/-- **Down**: the sweep ends where following parents does. -/
theorem sweepReturns {m : Mirror} {folderId : String} (hkeys : (m.nodes.map LocalNode.nodeId).Nodup)
    (hg : Grounded (m.parentIn folderId)) : m.SweepReturns folderId := by
  refine ⟨(m.liveNodes folderId).length + 1, fun env W hfolder hm hfuel => ?_⟩
  subst hfolder hm
  have hrows := rows_liveNodes hkeys env.folderId
  have hturns : (W.mirror.liveNodes env.folderId).length < env.fuel := by omega
  constructor
  · have hlook := (Swept.start env W).ensureNotUpdateRequired
    rw [runBody_ensureNotUpdateRequired] at hlook
    rw [submitDeletesForMissing, Proc.runBody_bind, runBody_ensureNotUpdateRequired]
    cases hhalts : env.halts W.looks with
    | true => exact updateRequired_ne_stuck
    | false =>
      rw [hhalts] at hlook
      rw [if_neg Bool.false_ne_true]
      dsimp only
      rw [Proc.runBody_bind, Proc.runBody_read]
      dsimp only
      rw [Proc.runBody_bind, Proc.runBody_read]
      dsimp only
      cases hseed : seedNode env (W.mirror.liveNodes env.folderId) with
      | none => exact ok_ne_stuck ()
      | some seed =>
        obtain ⟨l, hl, -⟩ := hrows.opened hg (fun c => c.nodeId ∉ W.deferred) (mem_of_seedNode hseed) hturns
        exact hlook.sweep_unstuck (fun node hnode m' => shouldDelete_returns hrows hg m' hturns hnode) hl
  · rw [Pass.visits]
    cases hseed : seedNode env (W.mirror.liveNodes env.folderId) with
    | none => exact List.nodup_nil
    | some seed =>
      obtain ⟨l, hl, hnd⟩ := hrows.opened hg (fun c => c.nodeId ∉ W.deferred) (mem_of_seedNode hseed) hturns
      have hvisits := visits_ids (w := Sweep.start seed) hl
      rw [← hvisits] at hnd
      exact hnd.of_append_right

end Valv.Client
