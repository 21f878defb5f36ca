import Valv.Client.Sends

/-!
# What a push deletes

The walk lists directories; the sweep behind it asks for each node of the mirror once more whether
something is found at its path.  A delete should be submitted only for a node that the walk has seen
to be gone.

* `Gone`: a directory on the way was listed without an error, and lacks the name that leads on.
* `visits`: the nodes the sweep comes to, told from the mirror.
* `Swept`: what the sweep has done after some visits.
* `push_deletes`: the deletes of a pass are of nodes seen to be gone when, and for a pass that
  ends without an error only when, every node that is not seen to be gone is found.
-/

namespace Valv.Client

open Valv.Conc Valv.Table Valv.Server Valv.Files

/-! ### Deletes -/

/-- The request is a delete. -/
def isDelete : SubmitOpRequest → Bool
  | .mutate _ _ .delete => true
  | _ => false

/-- No new delete. -/
def NoDelete (s s' : Pass) : Prop := ∀ e ∈ s'.sent, e ∈ s.sent ∨ isDelete e.op = false

instance : Std.Refl NoDelete := ⟨fun _ _ he => .inl he⟩

instance : IsTrans Pass NoDelete where
  trans _ _ _ h h' e he := by
    rcases h' e he with he' | hnot
    · exact h e he'
    · exact .inr hnot

theorem noDelete_append {s : Pass} {e : Sent} (he : isDelete e.op = false) :
    NoDelete s { s with sent := s.sent ++ [e] } := by
  intro e' he'
  rcases List.mem_append.mp he' with hold | hnew
  · exact .inl hold
  · rw [List.mem_singleton.mp hnew]
    exact .inr he

theorem noDelete_sends : SendsMoves NoDelete where
  quiet s s' hsent e he := by
    rw [hsent] at he
    exact .inl he
  create _ _ _ _ s e he := noDelete_append (by rw [he]; rfl)
  version _ _ _ _ _ _ s e he := noDelete_append (by rw [he]; rfl)
  rename _ _ _ s e he := noDelete_append (by rw [he]; rfl)
  move _ _ _ s e he := noDelete_append (by rw [he]; rfl)

/-- **The walk deletes nothing.** -/
theorem pushTree_noDelete {env : PushEnv} : (pushTree env).Writes NoDelete := pushTree_sends noDelete_sends

/-! ### What the sweep comes to -/

/-- A node that the sweep comes to, and its path. -/
structure Visit where
  node : LocalNode
  path : Path
  deriving DecidableEq, Repr

/-- The delete of the node. -/
def Visit.delete (v : Visit) : SubmitOpRequest × Path :=
  (.mutate v.node.nodeId v.node.serverSeq .delete, v.path)

/-- The visits of the loop over children, and what is known after them. -/
def visitChildren (deferred : List String) (parentId : String) : List LocalNode → Sweep → List Visit × Sweep
  | [], w => ([], w)
  | node :: rest, w =>
    if node.nodeId ∈ deferred then visitChildren deferred parentId rest w
    else
      let (later, w') := visitChildren deferred parentId rest (w.reach parentId node)
      ({ node, path := w.path parentId ++ [node.name] } :: later, w')

/-- The visits of the sweep. -/
def visits (nodes : List LocalNode) (deferred : List String) : ℕ → Sweep → List Visit
  | 0, _ => []
  | fuel + 1, w =>
    match w.queue with
    | [] => []
    | parentId :: queue =>
      let (now, w') := visitChildren deferred parentId (childrenOf nodes parentId) { w with queue }
      now ++ visits nodes deferred fuel w'

/-- The visits of the sweep behind a walk. -/
def Pass.visits (env : PushEnv) (W : Pass) : List Visit :=
  let nodes := W.mirror.liveNodes env.folderId
  (seedNode env nodes).elim [] fun seed => Client.visits nodes W.deferred env.fuel (Sweep.start seed)

/-- The visit leads to a delete: nothing is found when the sweep asks for the `k`-th time, and the content
below is local. -/
def Pass.condemns (env : PushEnv) (W : Pass) (k : ℕ) (v : Visit) : Bool :=
  (env.fails (W.calls + k) || !env.finds W.disk v.path) &&
    shouldDelete W.mirror (W.mirror.liveNodes env.folderId) env.fuel v.node == some true

/-- The visits that lead to a delete. -/
def Pass.condemned (env : PushEnv) (W : Pass) (vs : List Visit) : List Visit :=
  (vs.zipIdx.filter fun e => W.condemns env e.2 e.1).map Prod.fst

/-- The deletes of a pass. -/
def Pass.deletes (s : Pass) : List (SubmitOpRequest × Path) :=
  (s.sent.filter fun e => isDelete e.op).map fun e => (e.op, e.path)

theorem condemned_append_singleton (env : PushEnv) (W : Pass) (vs : List Visit) (v : Visit) :
    W.condemned env (vs ++ [v]) = W.condemned env vs ++ if W.condemns env vs.length v then [v] else [] := by
  cases hv : W.condemns env vs.length v <;>
    simp [Pass.condemned, List.zipIdx_append, List.filter_append, hv]

/-- The visits that lead to a delete, by their places. -/
theorem mem_condemned {env : PushEnv} {W : Pass} {vs : List Visit} {v : Visit} :
    v ∈ W.condemned env vs ↔ ∃ k, vs[k]? = some v ∧ W.condemns env k v := by
  simp only [Pass.condemned, List.mem_map, List.mem_filter, Prod.exists, List.mk_mem_zipIdx_iff_getElem?]
  constructor
  · intro h
    obtain ⟨a, k, hk, rfl⟩ := h
    exact ⟨k, hk⟩
  · intro h
    obtain ⟨k, hk⟩ := h
    exact ⟨v, k, hk, rfl⟩

/-! ### The sweep, visit by visit -/

theorem hasLocalVersion_congr {m m' : Mirror} (hversions : m.versions = m'.versions)
    (huploaded : m.uploadedChunks = m'.uploadedChunks) : m.hasLocalVersion = m'.hasLocalVersion := by
  funext versionId
  simp only [Mirror.hasLocalVersion, Mirror.getVersion, Mirror.isUploaded, hversions, huploaded]

theorem shouldDelete_congr {m m' : Mirror} (hversions : m.versions = m'.versions)
    (huploaded : m.uploadedChunks = m'.uploadedChunks) (nodes : List LocalNode) (fuel : ℕ) (node : LocalNode) :
    shouldDelete m nodes fuel node = shouldDelete m' nodes fuel node := by
  have hlocal := hasLocalVersion_congr hversions huploaded
  have hfiles : ∀ fuel queue, folderDescendantFilesAreLocal m nodes fuel queue =
      folderDescendantFilesAreLocal m' nodes fuel queue := by
    intro fuel
    induction fuel with
    | zero => exact fun _ => rfl
    | succ fuel ih =>
      intro queue
      cases queue with
      | nil => rfl
      | cons nodeId queue => simp only [folderDescendantFilesAreLocal, hlocal, ih]
  simp only [shouldDelete, hfiles, hlocal]

/-- After the visits `done` of the sweep behind `W`. -/
structure Swept (env : PushEnv) (W : Pass) (done : List Visit) (s : Pass) : Prop where
  disk : s.disk = W.disk
  listed : s.listed = W.listed
  versions : s.mirror.versions = W.mirror.versions
  uploaded : s.mirror.uploadedChunks = W.mirror.uploadedChunks
  calls : s.calls = W.calls + done.length
  deletes : s.deletes = W.deletes ++ (W.condemned env done).map Visit.delete

section Sweep

variable {env : PushEnv} {W : Pass} {done : List Visit} {s : Pass}

theorem Swept.start (env : PushEnv) (W : Pass) : Swept env W [] W where
  disk := rfl
  listed := rfl
  versions := rfl
  uploaded := rfl
  calls := rfl
  deletes := (List.append_nil _).symm

theorem runBody_ensureNotUpdateRequired (env : PushEnv) (s : Pass) : (ensureNotUpdateRequired env).runBody s =
    ({ s with looks := s.looks + 1 }, if env.halts s.looks then .error .updateRequired else .ok ()) := by
  rw [ensureNotUpdateRequired, Proc.runBody]
  split <;> rfl

/-- A look at the flag changes nothing else. -/
theorem Swept.ensureNotUpdateRequired (h : Swept env W done s) :
    Swept env W done ((ensureNotUpdateRequired env).runBody s).1 := by
  rw [runBody_ensureNotUpdateRequired]
  exact ⟨h.disk, h.listed, h.versions, h.uploaded, h.calls, h.deletes⟩

theorem runBody_pathExists (env : PushEnv) (p : Path) (s : Pass) : (pathExists env p).runBody s =
    ({ s with calls := s.calls + 1 }, .ok (!env.fails s.calls && env.finds s.disk p)) := by
  have hfound : (if env.fails s.calls then none else if env.finds s.disk p then some () else none).isSome =
      (!env.fails s.calls && env.finds s.disk p) := by
    cases env.fails s.calls <;> cases env.finds s.disk p <;> rfl
  rw [← hfound]
  rfl

/-- The pass is as it was, but for the nodes of the mirror, the counters, and a request at the end. -/
structure SentMore (s s' : Pass) (e : List Sent) : Prop where
  disk : s'.disk = s.disk
  listed : s'.listed = s.listed
  versions : s'.mirror.versions = s.mirror.versions
  uploaded : s'.mirror.uploadedChunks = s.mirror.uploadedChunks
  calls : s'.calls = s.calls
  sent : s'.sent = s.sent ++ e

theorem submitDelete_sentMore (env : PushEnv) (node : LocalNode) (path : Path) (s : Pass) :
    ∃ e : Sent, (isDelete e.op ∧ (e.op, e.path) = Visit.delete { node, path }) ∧
      SentMore s ((submitDelete env node path).runBody s).1 [e] := by
  let op : SubmitOpRequest := .mutate node.nodeId node.serverSeq .delete
  let e : Sent := { op, path, result := env.answer s.sent op }
  refine ⟨e, ⟨rfl, rfl⟩, ?_⟩
  have hrun : (submitDelete env node path).runBody s =
      (finishDelete env node (env.answer s.sent op)).runBody { s with sent := s.sent ++ [e] } := rfl
  rw [hrun]
  cases env.answer s.sent op with
  | applied serverSeq nodeId => exact ⟨rfl, rfl, rfl, rfl, rfl, rfl⟩
  | conflictCopy serverSeq nodeId conflictVersionId => exact ⟨rfl, rfl, rfl, rfl, rfl, rfl⟩
  | superseded currentSeq => exact ⟨rfl, rfl, rfl, rfl, rfl, rfl⟩
  | conflict => exact ⟨rfl, rfl, rfl, rfl, rfl, rfl⟩
  | error error =>
    -- the pass stops here when the error asks for an update
    cases error <;> exact ⟨rfl, rfl, rfl, rfl, rfl, rfl⟩

theorem runBody_sweepNode (env : PushEnv) (nodes : List LocalNode) (node : LocalNode) (path : Path) (s : Pass) :
    (Client.sweepNode env nodes node path).runBody s =
      if env.fails s.calls || !env.finds s.disk path then
        (sweepMissing env node path (shouldDelete s.mirror nodes env.fuel node)).runBody
          { s with calls := s.calls + 1 }
      else ({ s with calls := s.calls + 1 }, .ok ()) := by
  rw [sweepNode, Proc.runBody_bind_of_ok (runBody_pathExists env path s)]
  cases env.fails s.calls <;> cases env.finds s.disk path <;> rfl

/-- One visit: one more call, and the delete of a node that is condemned. -/
theorem Swept.sweepNode (h : Swept env W done s) (v : Visit) : Swept env W (done ++ [v])
    ((sweepNode env (W.mirror.liveNodes env.folderId) v.node v.path).runBody s).1 := by
  let nodes := W.mirror.liveNodes env.folderId
  have hcalls : s.calls + 1 = W.calls + (done ++ [v]).length := by
    have := h.calls
    simp
    omega
  have hcondemns : W.condemns env done.length v = ((env.fails s.calls || !env.finds s.disk v.path) &&
      shouldDelete s.mirror nodes env.fuel v.node == some true) := by
    rw [Pass.condemns, h.calls, h.disk, shouldDelete_congr h.versions h.uploaded]
  have hdeletes := condemned_append_singleton env W done v
  -- a visit that submits nothing
  have hkeep : W.condemns env done.length v = false →
      Swept env W (done ++ [v]) { s with calls := s.calls + 1 } := by
    intro hv
    refine ⟨h.disk, h.listed, h.versions, h.uploaded, hcalls, ?_⟩
    rw [hdeletes, hv]
    simpa [Pass.deletes] using h.deletes
  rw [runBody_sweepNode]
  split
  · next hmissing =>
    cases hjudged : shouldDelete s.mirror nodes env.fuel v.node with
    | none => exact hkeep (by simp [hcondemns, hjudged])
    | some judged =>
      cases judged with
      | false => exact hkeep (by simp [hcondemns, hjudged])
      | true =>
        have hv : W.condemns env done.length v = true := by simp [hcondemns, hjudged, hmissing]
        obtain ⟨e, ⟨hdelete, he⟩, hmore⟩ := submitDelete_sentMore env v.node v.path { s with calls := s.calls + 1 }
        refine ⟨hmore.disk.trans h.disk, hmore.listed.trans h.listed, hmore.versions.trans h.versions,
          hmore.uploaded.trans h.uploaded, hmore.calls.trans hcalls, ?_⟩
        rw [hdeletes, hv]
        have hs := h.deletes
        rw [Pass.deletes] at hs
        simp [sweepMissing, Pass.deletes, hmore.sent, hs, hdelete, he]
  · next hfound => exact hkeep (by simp [hcondemns, Bool.eq_false_iff.mpr hfound])

/-- The loop over children makes visits in order, and all of them when it ends without an error. -/
theorem Swept.sweepChildren (h : Swept env W done s) (parentId : String) (children : List LocalNode) (w : Sweep) :
    let run := (sweepChildren env (W.mirror.liveNodes env.folderId) W.deferred parentId children w).runBody s
    let all := visitChildren W.deferred parentId children w
    ∃ now, now <+: all.1 ∧ Swept env W (done ++ now) run.1 ∧
      ∀ w', run.2 = .ok w' → now = all.1 ∧ w' = all.2 := by
  induction children generalizing s done w with
  | nil =>
    refine ⟨[], List.nil_prefix, ?_, fun w' hw' => ?_⟩
    · rw [List.append_nil]
      exact h
    · cases hw'
      exact ⟨rfl, rfl⟩
  | cons node rest ih =>
    have hlook := h.ensureNotUpdateRequired
    simp only [Client.sweepChildren, visitChildren, Proc.runBody_bind]
    rcases hrun : (Client.ensureNotUpdateRequired env).runBody s with ⟨s₁, error | u⟩
    · rw [hrun] at hlook
      refine ⟨[], List.nil_prefix, ?_, fun w' hw' => ?_⟩
      · rw [List.append_nil]
        exact hlook
      · cases hw'
    rw [hrun] at hlook
    dsimp only
    split
    · exact ih hlook w
    · let v : Visit := { node, path := w.path parentId ++ [node.name] }
      have hvisit := hlook.sweepNode v
      rw [Proc.runBody_bind]
      rcases hnode : (Client.sweepNode env (W.mirror.liveNodes env.folderId) node (w.path parentId ++ [node.name])).runBody
        s₁ with ⟨s₂, error | u⟩
      · rw [hnode] at hvisit
        refine ⟨[v], by simp [v], hvisit, fun w' hw' => ?_⟩
        cases hw'
      · rw [hnode] at hvisit
        obtain ⟨now, hfirst, hswept, hall⟩ := ih hvisit (w.reach parentId node)
        refine ⟨v :: now, ?_, ?_, fun w' hw' => ?_⟩
        · exact List.cons_prefix_cons.mpr ⟨rfl, hfirst⟩
        · rw [List.append_cons]
          exact hswept
        · obtain ⟨hnow, hw⟩ := hall w' hw'
          exact ⟨by rw [hnow], hw⟩

/-- The sweep makes visits in order, and all of them when it ends without an error. -/
theorem Swept.sweep (h : Swept env W done s) (fuel : ℕ) (w : Sweep) :
    let run := (sweep env (W.mirror.liveNodes env.folderId) W.deferred fuel w).runBody s
    let all := visits (W.mirror.liveNodes env.folderId) W.deferred fuel w
    ∃ now, now <+: all ∧ Swept env W (done ++ now) run.1 ∧ (run.2 = .ok () → now = all) := by
  induction fuel generalizing s done w with
  | zero =>
    refine ⟨[], List.nil_prefix, ?_, fun _ => rfl⟩
    rw [List.append_nil]
    exact h
  | succ fuel ih =>
    rw [Client.sweep, visits]
    cases hqueue : w.queue with
    | nil =>
      refine ⟨[], List.nil_prefix, ?_, fun _ => rfl⟩
      rw [List.append_nil]
      exact h
    | cons parentId queue =>
      obtain ⟨now, hfirst, hswept, hall⟩ :=
        h.sweepChildren parentId (childrenOf (W.mirror.liveNodes env.folderId) parentId) { w with queue }
      dsimp only
      rw [Proc.runBody_bind]
      split
      · next s₁ w' hrun =>
        rw [hrun] at hswept hall
        obtain ⟨rfl, rfl⟩ := hall w' rfl
        obtain ⟨later, hlater, hswept', hall'⟩ := ih hswept (visitChildren _ _ _ _).2
        refine ⟨_ ++ later, List.prefix_append_right_inj _ |>.mpr hlater, ?_, fun hok => ?_⟩
        · rw [← List.append_assoc]
          exact hswept'
        · rw [hall' hok]
      · next s₁ error hrun =>
        rw [hrun] at hswept
        exact ⟨now, hfirst.trans (List.prefix_append _ _), hswept, fun hok => by cases hok⟩

/-- **What the sweep deletes**: it makes visits in order, and all of them when it ends without an error. -/
theorem submitDeletesForMissing_swept (env : PushEnv) (W : Pass) :
    let run := (submitDeletesForMissing env).runBody W
    ∃ done, done <+: W.visits env ∧ Swept env W done run.1 ∧ (run.2 = .ok () → done = W.visits env) := by
  have hlook := (Swept.start env W).ensureNotUpdateRequired
  rw [runBody_ensureNotUpdateRequired] at hlook
  rw [submitDeletesForMissing, Proc.runBody_bind, runBody_ensureNotUpdateRequired]
  cases env.halts W.looks with
  | true => exact ⟨[], List.nil_prefix, hlook, fun hok => by cases hok⟩
  | false =>
    rw [if_neg Bool.false_ne_true, Pass.visits]
    dsimp only
    rw [Proc.runBody_bind, Proc.runBody_read]
    dsimp only
    rw [Proc.runBody_bind, Proc.runBody_read]
    dsimp only
    cases seedNode env (W.mirror.liveNodes env.folderId) with
    | none => exact ⟨[], List.nil_prefix, hlook, fun _ => rfl⟩
    | some seed => exact hlook.sweep env.fuel (Sweep.start seed)

end Sweep

/-! ### The paths of the visits -/

/-- The path of a live node below the mount's own. -/
inductive LivePath (nodes : List LocalNode) (seedId : String) : String → Path → Prop
  | seed : LivePath nodes seedId seedId []
  | child {parentId : String} {path : Path} {node : LocalNode} (h : LivePath nodes seedId parentId path)
      (hnode : node ∈ childrenOf nodes parentId) : LivePath nodes seedId node.nodeId (path ++ [node.name])

/-- What the sweep has come to are live nodes, with their paths. -/
structure Sweep.Live (nodes : List LocalNode) (seedId : String) (w : Sweep) : Prop where
  known : ∀ nodeId ∈ w.queue, ∃ path, (nodeId, path) ∈ w.paths
  paths : ∀ nodeId path, (nodeId, path) ∈ w.paths → LivePath nodes seedId nodeId path

section Live

variable {nodes : List LocalNode} {seedId : String} {w : Sweep}

/-- The path of a node that was come to. -/
theorem Sweep.Live.path (h : w.Live nodes seedId) {nodeId : String} (hknown : ∃ path, (nodeId, path) ∈ w.paths) :
    LivePath nodes seedId nodeId (w.path nodeId) := by
  obtain ⟨path, hpath⟩ := hknown
  cases hfind : w.paths.find? fun e => e.1 = nodeId with
  | none => simpa using List.find?_eq_none.mp hfind _ hpath
  | some e =>
    have he : e.1 = nodeId := by simpa using List.find?_some hfind
    have hlive := h.paths e.1 e.2 (List.mem_of_find?_eq_some hfind)
    rw [Sweep.path, hfind, ← he]
    exact hlive

theorem Sweep.Live.reach (h : w.Live nodes seedId) {parentId : String} {node : LocalNode}
    (hnode : LivePath nodes seedId node.nodeId (w.path parentId ++ [node.name])) :
    (w.reach parentId node).Live nodes seedId where
  known nodeId hmem := by
    rcases List.mem_append.mp hmem with hold | hnew
    · obtain ⟨path, hpath⟩ := h.known nodeId hold
      exact ⟨path, List.mem_cons_of_mem _ hpath⟩
    · rw [List.mem_singleton.mp hnew]
      exact ⟨_, List.mem_cons_self⟩
  paths nodeId path hmem := by
    rcases List.mem_cons.mp hmem with heq | hold
    · cases heq
      exact hnode
    · exact h.paths nodeId path hold

/-- The visit is of a live node, with the path that the names above it give. -/
def Visit.Live (nodes : List LocalNode) (seedId : String) (v : Visit) : Prop :=
  v.node ∈ nodes ∧ LivePath nodes seedId v.node.nodeId v.path

theorem visitChildren_live {deferred : List String} {parentId : String} {children : List LocalNode}
    (hchildren : ∀ node ∈ children, node ∈ childrenOf nodes parentId) (h : w.Live nodes seedId)
    (hknown : ∃ path, (parentId, path) ∈ w.paths) :
    (∀ v ∈ (visitChildren deferred parentId children w).1, v.Live nodes seedId) ∧
      (visitChildren deferred parentId children w).2.Live nodes seedId := by
  induction children generalizing w with
  | nil => exact ⟨fun v hv => absurd hv List.not_mem_nil, h⟩
  | cons node rest ih =>
    have hrest : ∀ node ∈ rest, node ∈ childrenOf nodes parentId := fun r hr => hchildren r (List.mem_cons_of_mem _ hr)
    rw [visitChildren]
    split
    · exact ih hrest h hknown
    · have hnode := hchildren node List.mem_cons_self
      have hlive := (h.path hknown).child hnode
      obtain ⟨path, hpath⟩ := hknown
      obtain ⟨hlater, hw⟩ := ih hrest (h.reach hlive) ⟨path, List.mem_cons_of_mem _ hpath⟩
      refine ⟨fun v hv => ?_, hw⟩
      rcases List.mem_cons.mp hv with rfl | hv
      · exact ⟨(List.mem_filter.mp hnode).1, hlive⟩
      · exact hlater v hv

theorem visits_live {deferred : List String} (fuel : ℕ) (h : w.Live nodes seedId) :
    ∀ v ∈ visits nodes deferred fuel w, v.Live nodes seedId := by
  induction fuel generalizing w with
  | zero => exact fun v hv => absurd hv List.not_mem_nil
  | succ fuel ih =>
    rw [visits]
    cases hqueue : w.queue with
    | nil => exact fun v hv => absurd hv List.not_mem_nil
    | cons parentId queue =>
      have hknown : ∃ path, (parentId, path) ∈ w.paths := h.known parentId (by simp [hqueue])
      have hpop : Sweep.Live nodes seedId { w with queue } :=
        ⟨fun nodeId hmem => h.known nodeId (by simp [hqueue, hmem]), h.paths⟩
      obtain ⟨hnow, hw⟩ := visitChildren_live (fun _ hr => hr) hpop hknown
      intro v hv
      rcases List.mem_append.mp hv with hv | hv
      · exact hnow v hv
      · exact ih hw v hv

end Live

/-- The visits of a sweep are of live nodes, with their paths. -/
theorem Pass.visits_live {env : PushEnv} {W : Pass} {v : Visit} (hv : v ∈ W.visits env) :
    ∃ seed, seedNode env (W.mirror.liveNodes env.folderId) = some seed ∧
      v.Live (W.mirror.liveNodes env.folderId) seed.nodeId := by
  rw [Pass.visits] at hv
  cases hseed : seedNode env (W.mirror.liveNodes env.folderId) with
  | none =>
    rw [hseed] at hv
    exact absurd hv List.not_mem_nil
  | some seed =>
    rw [hseed] at hv
    have hstart : (Sweep.start seed).Live (W.mirror.liveNodes env.folderId) seed.nodeId := by
      refine ⟨fun nodeId hmem => ⟨[], ?_⟩, fun nodeId path hmem => ?_⟩
      · rw [List.mem_singleton.mp hmem]
        exact List.mem_singleton_self _
      · cases List.mem_singleton.mp hmem
        exact .seed
    exact ⟨seed, rfl, Client.visits_live env.fuel hstart v hv⟩

/-! ### The deletes of a pass -/

/-- The path was seen to be gone: a directory on the way to it was listed without an error, and lacks the name that
leads on. A call that failed tells nothing about the path. -/
def Gone (listed : List (Path × List String)) (path : Path) : Prop :=
  ∃ dir name rest names, path = dir ++ name :: rest ∧ (dir, names) ∈ listed ∧ name ∉ names

/-- Every delete that was sent is of a node whose path was seen to be gone. -/
def Pass.DeletesGone (s : Pass) : Prop := ∀ e ∈ s.sent, isDelete e.op → Gone s.listed e.path

/-- The pass after its walk. -/
def PushEnv.walked (env : PushEnv) (mirror : Mirror) (disk : Disk FileData) : Pass :=
  ((pushTree env).runBody { mirror, disk }).1

/-- The pass at its end, and its result. -/
def PushEnv.pushed (env : PushEnv) (mirror : Mirror) (disk : Disk FileData) : Pass × Except Halt Unit :=
  (pushLocal env).runBody { mirror, disk }

theorem mem_deletes {s : Pass} {d : SubmitOpRequest × Path} :
    d ∈ s.deletes ↔ ∃ e ∈ s.sent, isDelete e.op ∧ (e.op, e.path) = d := by
  simp only [Pass.deletes, List.mem_map, List.mem_filter, and_assoc]

/-- The deletes of a pass are those of its sweep: of visits that condemn, all of them when the pass ends
without an error. -/
theorem pushed_deletes (env : PushEnv) (mirror : Mirror) (disk : Disk FileData) :
    let W := env.walked mirror disk
    let run := env.pushed mirror disk
    run.1.listed = W.listed ∧ ∃ done, done <+: W.visits env ∧
      run.1.deletes = (W.condemned env done).map Visit.delete ∧ (run.2 = .ok () → done = W.visits env) := by
  intro W run
  have hnone : W.deletes = [] := by
    refine List.map_eq_nil_iff.mpr (List.filter_eq_nil_iff.mpr fun e he => ?_)
    rcases pushTree_noDelete.runBody (R := NoDelete) { mirror, disk } e he with hold | hnot
    · exact absurd hold List.not_mem_nil
    · simp [hnot]
  have hrun : run = _ := Proc.runBody_bind (pushTree env) (fun _ => submitDeletesForMissing env) { mirror, disk }
  rcases htree : (pushTree env).runBody { mirror, disk } with ⟨s, error | u⟩
  · have hW : W = s := congrArg Prod.fst htree
    rw [htree] at hrun
    subst hW
    rw [hrun]
    exact ⟨rfl, [], List.nil_prefix, hnone, fun hok => by cases hok⟩
  · have hW : W = s := congrArg Prod.fst htree
    rw [htree] at hrun
    subst hW
    rw [hrun]
    obtain ⟨done, hfirst, hswept, hall⟩ := submitDeletesForMissing_swept env W
    refine ⟨hswept.listed, done, hfirst, ?_, hall⟩
    rw [hswept.deletes, hnone, List.nil_append]

/-- **Deletes of what is gone**: a delete is of a live node.  When each visit of the sweep that leads to
a delete is to a path that the walk has seen to be gone, every delete is of a node that was seen to be gone;
for a pass that ends without an error, only then. -/
theorem push_deletes (env : PushEnv) (mirror : Mirror) (disk : Disk FileData) :
    let W := env.walked mirror disk
    let run := env.pushed mirror disk
    let seen : Prop := ∀ k v, (W.visits env)[k]? = some v → W.condemns env k v → Gone W.listed v.path
    (∀ e ∈ run.1.sent, isDelete e.op → ∃ seed, ∃ v : Visit, seedNode env (W.mirror.liveNodes env.folderId) = some seed ∧
      v.Live (W.mirror.liveNodes env.folderId) seed.nodeId ∧ (e.op, e.path) = v.delete) ∧
    (seen → run.1.DeletesGone) ∧ (run.2 = .ok () → run.1.DeletesGone → seen) := by
  intro W run seen
  obtain ⟨hlisted, done, hfirst, hdeletes, hall⟩ := pushed_deletes env mirror disk
  have hvisit : ∀ e ∈ run.1.sent, isDelete e.op → ∃ v ∈ W.condemned env done, v.delete = (e.op, e.path) := by
    intro e he hdelete
    have hmem : (e.op, e.path) ∈ run.1.deletes := mem_deletes.mpr ⟨e, he, hdelete, rfl⟩
    rw [hdeletes] at hmem
    exact List.mem_map.mp hmem
  refine ⟨fun e he hdelete => ?_, fun hseen e he hdelete => ?_, fun hok hgone k v hv hcondemns => ?_⟩
  · obtain ⟨v, hv, heq⟩ := hvisit e he hdelete
    obtain ⟨k, hk, -⟩ := mem_condemned.mp hv
    obtain ⟨seed, hseed, hlive⟩ := Pass.visits_live (hfirst.subset (List.mem_of_getElem? hk))
    exact ⟨seed, v, hseed, hlive, heq.symm⟩
  · obtain ⟨v, hv, heq⟩ := hvisit e he hdelete
    obtain ⟨k, hk, hcondemns⟩ := mem_condemned.mp hv
    have hpath : v.path = e.path := congrArg Prod.snd heq
    have hplace : (W.visits env)[k]? = some v := by
      obtain ⟨later, hlater⟩ := hfirst
      rw [← hlater, List.getElem?_append_left (List.getElem?_eq_some_iff.mp hk).1]
      exact hk
    have hgone := hseen k v hplace hcondemns
    rw [hpath, ← hlisted] at hgone
    exact hgone
  · have hmem : v.delete ∈ run.1.deletes := by
      rw [hdeletes, hall hok]
      exact List.mem_map_of_mem (mem_condemned.mpr ⟨k, hv, hcondemns⟩)
    obtain ⟨e, he, hdelete, heq⟩ := mem_deletes.mp hmem
    have hgone' := hgone e he hdelete
    have hpath : e.path = v.path := congrArg Prod.snd heq
    rw [hpath, hlisted] at hgone'
    exact hgone'

/-- A device where nothing fails but what the disk lacks, and a server that applies every op. -/
def calmDevice : PushEnv where
  folderId := "folder"
  newUuid n := "uuid" ++ toString n
  contentHash _ := "hash"
  fails _ := false
  odd _ := false
  halts _ := false
  answer _ _ := .applied 3 "node"
  upload _ _ := ([], none)
  fuel := 8

/-- A mirror with one file in the root folder, whose content is local. -/
def oneFile : Mirror where
  nodes := [
    { nodeId := "root", folderId := "folder", parentId := none, name := "", nodeType := .folder,
      currentVersionId := none, serverSeq := 1, deletedAt := none },
    { nodeId := "file", folderId := "folder", parentId := some "root", name := "a", nodeType := .file,
      currentVersionId := some "version", serverSeq := 2, deletedAt := none }]
  versions := [
    { versionId := "version", nodeId := "file", folderId := "folder", contentHash := "hash", sizeBytes := 0,
      manifest := [] }]

end Valv.Client
