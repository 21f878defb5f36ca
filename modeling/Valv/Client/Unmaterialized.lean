import Valv.Client.Sweep
import Valv.Lib.Forest

/-!
# Nodes that were never on the disk

A push takes a path that is not found for something the user did.  For a delete it asks first whether the
content of the files is local; for a move or a rename it asks nothing, and an empty folder is always local.

* `PushEnv.missingMoves`, `Pass.infers`: the node that a new entry is taken for.
* `PushEnv.inferred`: these nodes, over the whole walk; `walk_moves`: the walk moves and renames them, and no others.
* `NeverOnDisk`: the nodes that were never on the disk, and the folders that such a node is below.
* `push_spares`: when a pass spares these.
-/

namespace Valv.Client

open Valv.Conc Valv.Table Valv.Server Valv.Files

/-! ### What an entry is taken for -/

/-- A node that the entry could be: of its type, and in the same folder or of the same name. -/
def LocalNode.like (node : LocalNode) (entry : EntryInfo) (parentNodeId : String) (nodeType : NodeType) : Bool :=
  node.nodeType = nodeType && (node.parentId = some parentNodeId || node.name = entry.name)

/-- The nodes that the entry could be and that are not found; the disk is asked from the call `calls` on. -/
def PushEnv.missingMoves (env : PushEnv) (disk : Disk FileData) (nodes : List LocalNode) (entry : EntryInfo)
    (parentNodeId : String) (nodeType : NodeType) : ℕ → List LocalNode → List LocalNode
  | _, [] => []
  | calls, node :: rest =>
    if node.like entry parentNodeId nodeType then
      match localNodeAbsPath nodes env.scopeNodeId (nodes.length + 1) node with
      | none => env.missingMoves disk nodes entry parentNodeId nodeType calls rest
      | some none => env.missingMoves disk nodes entry parentNodeId nodeType calls rest
      | some (some path) =>
        let later := env.missingMoves disk nodes entry parentNodeId nodeType (calls + 1) rest
        if (env.fails calls || !env.finds disk path) && path ≠ entry.path then node :: later else later
    else env.missingMoves disk nodes entry parentNodeId nodeType calls rest

/-- Looking for the path of one of these nodes never ends. -/
def PushEnv.loops (env : PushEnv) (nodes : List LocalNode) (entry : EntryInfo) (parentNodeId : String)
    (nodeType : NodeType) (rest : List LocalNode) : Bool :=
  rest.any fun node => node.like entry parentNodeId nodeType &&
    (localNodeAbsPath nodes env.scopeNodeId (nodes.length + 1) node).isNone

/-- The node that a new entry is taken for: the only one. -/
def Pass.infers (env : PushEnv) (s : Pass) (entry : EntryInfo) (parentNodeId : String) (nodeType : NodeType) :
    Option LocalNode :=
  let nodes := s.mirror.liveNodes env.folderId
  if env.loops nodes entry parentNodeId nodeType nodes then none
  else match env.missingMoves s.disk nodes entry parentNodeId nodeType s.calls nodes with
    | [node] => some node
    | _ => none

/-- The type of a node for the entry, when it is a new one. -/
def Pass.newType (env : PushEnv) (s : Pass) (parentNodeId : String) (entry : EntryInfo) : Option NodeType :=
  if (s.mirror.getNodeByParentAndName env.folderId (some parentNodeId) entry.name).isSome then none
  else match entry.type with
    | .dir => some .folder
    | .file => if isConflictCopyName entry.name then none else some .file
    | _ => none

/-- The node that the entry is taken for. -/
def Pass.inferredAt (env : PushEnv) (s : Pass) (parentNodeId : String) (entry : EntryInfo) : Option LocalNode :=
  if env.halts s.looks then none
  else (s.newType env parentNodeId entry).bind (s.infers env entry parentNodeId)

/-- The nodes that the entries of a directory are taken for, one after the other. -/
def inferredEntries (env : PushEnv) (parentNodeId : String) : List EntryInfo → Pass → List LocalNode
  | [], _ => []
  | entry :: entries, s => (s.inferredAt env parentNodeId entry).toList ++
      match (processEntry env parentNodeId entry).runBody s with
      | (s', .ok _) => inferredEntries env parentNodeId entries s'
      | (_, .error _) => []

/-- The listing of a directory: what comes before the loop over its entries. -/
def listEntries (env : PushEnv) (dir : Path) : PushProc (Option (List EntryInfo)) := do
  ensureNotUpdateRequired env
  match ← readDir env dir with
  | none => do
    countError
    pure none
  | some names => do
    let (entries, complete) ← readEntries env dir names
    recordListed dir names complete
    pure (some (entries.insertionSort entryBefore))

def inferredDir (env : PushEnv) (dir : Path) (parentNodeId : String) (s : Pass) : List LocalNode :=
  match (listEntries env dir).runBody s with
  | (s', .ok (some entries)) => inferredEntries env parentNodeId entries s'
  | _ => []

def inferredWalk (env : PushEnv) : ℕ → Pass → List LocalNode
  | 0, _ => []
  | fuel + 1, s =>
    match s.queue with
    | [] => []
    | (dir, parentNodeId) :: queue =>
      inferredDir env dir parentNodeId { s with queue } ++
        match (processDir env dir parentNodeId).runBody { s with queue } with
        | (s', .ok _) => inferredWalk env fuel s'
        | (_, .error _) => []

/-- The nodes that entries are taken for in a pass. -/
def PushEnv.inferred (env : PushEnv) (mirror : Mirror) (disk : Disk FileData) : List LocalNode :=
  if env.halts 0 then []
  else (mirror.getRootNode env.folderId).elim [] fun root =>
    inferredWalk env env.fuel { mirror, disk, looks := 1, queue := [([], env.scopeNodeId.getD root.nodeId)] }

/-! ### What is moved -/

/-- The node of a move or a rename. -/
def movedNode : SubmitOpRequest → Option String
  | .mutate nodeId _ (.move _) => some nodeId
  | .mutate nodeId _ (.rename _) => some nodeId
  | _ => none

def Pass.movedNodes (s : Pass) : List String := s.sent.filterMap fun e => movedNode e.op

/-- Moves and renames of these nodes, and of no others. -/
def Moves (nodes : List LocalNode) (s s' : Pass) : Prop :=
  ∀ nodeId, nodeId ∈ s'.movedNodes ↔ nodeId ∈ s.movedNodes ∨ nodeId ∈ nodes.map LocalNode.nodeId

section Moves

variable {env : PushEnv} {s s₁ s₂ : Pass} {nodes later : List LocalNode} {α β : Type}

theorem Moves.of_sent (hsent : s₁.sent = s.sent) : Moves [] s s₁ := by
  intro nodeId
  simp [Pass.movedNodes, hsent]

theorem Moves.trans (h : Moves nodes s s₁) (h' : Moves later s₁ s₂) : Moves (nodes ++ later) s s₂ := by
  intro nodeId
  rw [h' nodeId, h nodeId, List.map_append, List.mem_append, or_assoc]

theorem moves_sent {e : Sent} (he : movedNode e.op = none) : Moves [] s { s with sent := s.sent ++ [e] } := by
  intro nodeId
  simp [Pass.movedNodes, he]

theorem moves_sent_of {e : Sent} {node : LocalNode} (he : movedNode e.op = some node.nodeId) :
    Moves [node] s { s with sent := s.sent ++ [e] } := by
  intro nodeId
  simp [Pass.movedNodes, he]

theorem noMoves_sends : Sends (Moves []) where
  quiet s s' hsent := Moves.of_sent hsent
  create _ _ _ _ s e he := moves_sent (by rw [he]; rfl)
  version _ _ _ _ _ _ s e he := moves_sent (by rw [he]; rfl)

instance : Std.Refl (Moves []) := ⟨fun _ => Moves.of_sent rfl⟩

instance : IsTrans Pass (Moves []) := ⟨fun _ _ _ h h' => h.trans h'⟩

/-- What follows moves nothing. -/
theorem Moves.bind {p : PushProc α} {f : α → PushProc β} (hp : Moves nodes s (p.runBody s).1)
    (hf : ∀ a, (f a).Writes (Moves [])) : Moves nodes s ((p >>= f).runBody s).1 := by
  refine Proc.runBody_bind_keeps hp fun a s₁ h => ?_
  have hlater := h.trans ((hf a).runBody s₁)
  rwa [List.append_nil] at hlater

/-- What comes before moves nothing, and ends without an error. -/
theorem Moves.after {p : PushProc α} {f : α → PushProc β} {a : α} (hrun : p.runBody s = (s₁, .ok a))
    (hsent : s₁.sent = s.sent) (hf : Moves nodes s₁ ((f a).runBody s₁).1) :
    Moves nodes s ((p >>= f).runBody s).1 := by
  rw [Proc.runBody_bind_of_ok hrun]
  exact (Moves.of_sent hsent).trans hf

end Moves

/-! ### One entry -/

section Entry

variable (env : PushEnv) (entry : EntryInfo) (parentNodeId : String) (nodeType : NodeType)

theorem runBody_isMissingMove (nodes : List LocalNode) (node : LocalNode) (s : Pass) :
    (isMissingMove env nodes entry parentNodeId nodeType node).runBody s =
      if node.like entry parentNodeId nodeType then
        match localNodeAbsPath nodes env.scopeNodeId (nodes.length + 1) node with
        | none => (s, .error .stuck)
        | some none => (s, .ok false)
        | some (some path) => ({ s with calls := s.calls + 1 },
            .ok ((env.fails s.calls || !env.finds s.disk path) && decide (path ≠ entry.path)))
      else (s, .ok false) := by
  rw [isMissingMove, LocalNode.like]
  split
  · cases localNodeAbsPath nodes env.scopeNodeId (nodes.length + 1) node with
    | none => rfl
    | some path =>
      cases path with
      | none => rfl
      | some path =>
        dsimp only
        rw [Proc.runBody_bind_of_ok (runBody_pathExists env path s), Proc.runBody_pure, Bool.not_and, Bool.not_not]
  · rfl

/-- `find_missing_move_candidate` asks the disk for each node that the entry could be, until one has no end of
parents. -/
theorem runBody_missingMoveCandidates (nodes rest : List LocalNode) (s : Pass) :
    ∃ calls, (missingMoveCandidates env nodes entry parentNodeId nodeType rest).runBody s =
      ({ s with calls }, if env.loops nodes entry parentNodeId nodeType rest then .error .stuck
        else .ok (env.missingMoves s.disk nodes entry parentNodeId nodeType s.calls rest)) := by
  induction rest generalizing s with
  | nil => exact ⟨s.calls, rfl⟩
  | cons node rest ih =>
    have hrest : ∀ (missing : Bool) (calls : ℕ),
        (isMissingMove env nodes entry parentNodeId nodeType node).runBody s = ({ s with calls }, .ok missing) →
        ∃ calls', (missingMoveCandidates env nodes entry parentNodeId nodeType (node :: rest)).runBody s =
          ({ s with calls := calls' }, if env.loops nodes entry parentNodeId nodeType rest then .error .stuck
            else .ok (if missing then node :: env.missingMoves s.disk nodes entry parentNodeId nodeType calls rest
              else env.missingMoves s.disk nodes entry parentNodeId nodeType calls rest)) := by
      intro missing calls hhead
      obtain ⟨calls', hlater⟩ := ih { s with calls }
      refine ⟨calls', ?_⟩
      rw [missingMoveCandidates, Proc.runBody_bind_of_ok hhead, Proc.runBody_bind, hlater]
      cases env.loops nodes entry parentNodeId nodeType rest <;> rfl
    have hhead := runBody_isMissingMove env entry parentNodeId nodeType nodes node s
    rw [PushEnv.missingMoves, PushEnv.loops, List.any_cons]
    by_cases hlike : node.like entry parentNodeId nodeType
    · rw [if_pos hlike] at hhead ⊢
      cases hpath : localNodeAbsPath nodes env.scopeNodeId (nodes.length + 1) node with
      | none =>
        rw [hpath] at hhead
        refine ⟨s.calls, ?_⟩
        rw [missingMoveCandidates, Proc.runBody_bind, hhead, hlike]
        rfl
      | some path =>
        rw [hpath] at hhead
        rw [Option.isNone_some, Bool.and_false, Bool.false_or]
        cases path with
        | none => exact hrest false s.calls hhead
        | some path => exact hrest _ (s.calls + 1) hhead
    · rw [if_neg hlike] at hhead ⊢
      rw [Bool.eq_false_iff.mpr hlike, Bool.false_and, Bool.false_or]
      exact hrest false s.calls hhead

theorem runBody_findMissingMoveCandidate (s : Pass) :
    ∃ calls, (findMissingMoveCandidate env entry parentNodeId nodeType).runBody s =
      ({ s with calls }, if env.loops (s.mirror.liveNodes env.folderId) entry parentNodeId nodeType
          (s.mirror.liveNodes env.folderId) then .error .stuck
        else .ok (s.infers env entry parentNodeId nodeType)) := by
  let nodes := s.mirror.liveNodes env.folderId
  obtain ⟨calls, hrun⟩ := runBody_missingMoveCandidates env entry parentNodeId nodeType nodes nodes s
  refine ⟨calls, ?_⟩
  rw [findMissingMoveCandidate, Proc.runBody_bind, Proc.runBody_read]
  dsimp only
  rw [Proc.runBody_bind, hrun, Pass.infers]
  cases env.loops nodes entry parentNodeId nodeType nodes with
  | true => rfl
  | false =>
    show (match env.missingMoves s.disk nodes entry parentNodeId nodeType s.calls nodes with
      | [node] => (pure (some node) : PushProc (Option LocalNode))
      | _ => pure none).runBody { s with calls } = _
    rw [if_neg Bool.false_ne_true]
    split <;> rename_i heq <;> simp [nodes, heq]

/-- A node that the entry could be and that is not found. -/
theorem missingMoves_spec {disk : Disk FileData} {nodes rest : List LocalNode} {calls : ℕ} {node : LocalNode}
    (h : node ∈ env.missingMoves disk nodes entry parentNodeId nodeType calls rest) :
    node ∈ rest ∧ node.like entry parentNodeId nodeType = true ∧
      ∃ path k, localNodeAbsPath nodes env.scopeNodeId (nodes.length + 1) node = some (some path) ∧
        (env.fails k || !env.finds disk path) = true := by
  induction rest generalizing calls with
  | nil => exact absurd h List.not_mem_nil
  | cons first rest ih =>
    have hlater : ∀ calls, node ∈ env.missingMoves disk nodes entry parentNodeId nodeType calls rest →
        node ∈ first :: rest ∧ node.like entry parentNodeId nodeType = true ∧
          ∃ path k, localNodeAbsPath nodes env.scopeNodeId (nodes.length + 1) node = some (some path) ∧
            (env.fails k || !env.finds disk path) = true :=
      fun calls hmem => ⟨List.mem_cons_of_mem _ (ih hmem).1, (ih hmem).2⟩
    rw [PushEnv.missingMoves] at h
    split at h
    · next hlike =>
      split at h
      · exact hlater _ h
      · exact hlater _ h
      · next path hpath =>
        dsimp only at h
        split at h
        · next hmissing =>
          rw [Bool.and_eq_true] at hmissing
          rcases List.mem_cons.mp h with rfl | h
          · exact ⟨List.mem_cons_self, hlike, path, calls, hpath, hmissing.1⟩
          · exact hlater _ h
        · exact hlater _ h
    · exact hlater _ h

/-- An entry is taken for the only such node. -/
theorem infers_some {s : Pass} {node : LocalNode} (h : s.infers env entry parentNodeId nodeType = some node) :
    env.loops (s.mirror.liveNodes env.folderId) entry parentNodeId nodeType (s.mirror.liveNodes env.folderId) = false ∧
      env.missingMoves s.disk (s.mirror.liveNodes env.folderId) entry parentNodeId nodeType s.calls
        (s.mirror.liveNodes env.folderId) = [node] := by
  rw [Pass.infers] at h
  split at h
  · cases h
  · next hloops =>
    refine ⟨Bool.eq_false_iff.mpr hloops, ?_⟩
    split at h
    · next first heq =>
      cases h
      exact heq
    · cases h

theorem infers_mem {s : Pass} {node : LocalNode} (h : s.infers env entry parentNodeId nodeType = some node) :
    node ∈ s.mirror.liveNodes env.folderId := by
  have hmem := List.mem_singleton_self node
  rw [← (infers_some env entry parentNodeId nodeType h).2] at hmem
  exact (missingMoves_spec env entry parentNodeId nodeType hmem).1

/-- The node of a new entry is not where the entry is. -/
theorem newType_differs {s : Pass} {node : LocalNode} (hnew : s.newType env parentNodeId entry = some nodeType)
    (hnode : node ∈ s.mirror.liveNodes env.folderId) : node.parentId ≠ some parentNodeId ∨ node.name ≠ entry.name := by
  rw [Pass.newType] at hnew
  split at hnew
  · cases hnew
  · next hnone =>
    by_contra hsame
    obtain ⟨hparent, hname⟩ := not_or.mp hsame
    apply hnone
    rw [Mirror.getNodeByParentAndName, List.find?_isSome]
    have hlive := List.mem_filter.mp hnode
    refine ⟨node, hlive.1, ?_⟩
    simpa [not_not.mp hparent, not_not.mp hname] using hlive.2

/-- The rename moves its node at most. -/
theorem renameMoved_moves (node : LocalNode) (s : Pass) :
    ∃ nodes, (nodes = [] ∨ nodes = [node]) ∧ (node.name ≠ entry.name → nodes = [node]) ∧
      Moves nodes s ((renameMoved env entry nodeType node).runBody s).1 := by
  have hfinish : ∀ node s, Moves [] s ((finishMove entry nodeType node).runBody s).1 := fun node s =>
    (finishMove_sends noMoves_sends entry nodeType node).runBody s
  by_cases hname : node.name = entry.name
  · refine ⟨[], .inl rfl, fun hne => absurd hname hne, ?_⟩
    rw [renameMoved, if_pos hname]
    exact hfinish node s
  · refine ⟨[node], .inr rfl, fun _ => rfl, ?_⟩
    rw [renameMoved, if_neg hname]
    refine Moves.bind (moves_sent_of rfl) fun result => ?_
    cases result with
    | error e =>
      exact (propagateUpdateRequired_composes noMoves_sends.composes e).bind fun _ =>
        (updateMirror_sends noMoves_sends _).bind fun _ =>
          (updateSummary_composes noMoves_sends.composes _).bind fun _ => deferDelete_composes noMoves_sends.composes _
    | applied serverSeq nodeId => exact finishMove_sends noMoves_sends _ _ _
    | conflictCopy serverSeq nodeId conflictVersionId => exact updateSummary_composes noMoves_sends.composes _
    | superseded currentSeq => exact updateSummary_composes noMoves_sends.composes _
    | conflict => exact updateSummary_composes noMoves_sends.composes _

/-- A node that is not where the entry is, is moved or renamed. -/
theorem moveEntry_moves {node : LocalNode} (hdiffers : node.parentId ≠ some parentNodeId ∨ node.name ≠ entry.name)
    (s : Pass) : Moves [node] s ((moveEntry env entry parentNodeId nodeType node).runBody s).1 := by
  by_cases hparent : node.parentId = some parentNodeId
  · obtain ⟨nodes, -, hnodes, hmoves⟩ := renameMoved_moves env entry nodeType node s
    rw [hnodes (hdiffers.resolve_left fun hne => hne hparent)] at hmoves
    rw [moveEntry, if_pos hparent]
    exact hmoves
  · let op : SubmitOpRequest := .mutate node.nodeId node.serverSeq (.move parentNodeId)
    let e : Sent := { op, path := entry.path, result := env.answer s.sent op }
    have hsent : Moves [node] s { s with sent := s.sent ++ [e] } := moves_sent_of rfl
    rw [moveEntry, if_neg hparent, Proc.runBody_bind_of_ok (show (pushOp env entry.path op).runBody s =
      ({ s with sent := s.sent ++ [e] }, .ok (env.answer s.sent op)) from rfl)]
    have hquiet : ∀ p : PushProc Unit, p.Writes (Moves []) →
        Moves [node] s (p.runBody { s with sent := s.sent ++ [e] }).1 := fun p hp => by
      simpa using hsent.trans (hp.runBody _)
    cases env.answer s.sent op with
    | error error =>
      exact hquiet _ ((propagateUpdateRequired_composes noMoves_sends.composes error).bind fun _ =>
        (updateSummary_composes noMoves_sends.composes _).bind fun _ => deferDelete_composes noMoves_sends.composes _)
    | applied serverSeq nodeId =>
      -- the rename that may follow is of the same node
      obtain ⟨nodes, hnodes, -, hmoves⟩ := renameMoved_moves env entry nodeType
        { node with parentId := some parentNodeId, serverSeq } { s with sent := s.sent ++ [e] }
      intro nodeId
      rw [hmoves nodeId, hsent nodeId]
      rcases hnodes with rfl | rfl <;> simp
    | conflictCopy serverSeq nodeId conflictVersionId => exact hquiet _ (updateSummary_composes noMoves_sends.composes _)
    | superseded currentSeq => exact hquiet _ (updateSummary_composes noMoves_sends.composes _)
    | conflict => exact hquiet _ (updateSummary_composes noMoves_sends.composes _)

/-- A new entry: the node that it is taken for is moved or renamed. -/
theorem processNewEntry_moves {s : Pass} (hnew : s.newType env parentNodeId entry = some nodeType) :
    Moves (s.infers env entry parentNodeId nodeType).toList s
      ((processNewEntry env entry parentNodeId nodeType).runBody s).1 := by
  obtain ⟨calls, hfind⟩ := runBody_findMissingMoveCandidate env entry parentNodeId nodeType s
  have hmoved : Moves (s.infers env entry parentNodeId nodeType).toList s
      ((processMovedEntry env entry parentNodeId nodeType).runBody s).1 := by
    split at hfind
    · next hloops =>
      have hnone : s.infers env entry parentNodeId nodeType = none := by rw [Pass.infers, if_pos hloops]
      rw [hnone, processMovedEntry, Proc.runBody_bind, hfind]
      exact Moves.of_sent rfl
    · refine Moves.after hfind rfl ?_
      cases hinfers : s.infers env entry parentNodeId nodeType with
      | none => exact Moves.of_sent rfl
      | some node =>
        have hdiffers := newType_differs env entry parentNodeId nodeType hnew
          (infers_mem env entry parentNodeId nodeType hinfers)
        exact (moveEntry_moves env entry parentNodeId nodeType hdiffers _).bind fun _ => True.intro
  refine hmoved.bind fun moved => ?_
  split
  · exact True.intro
  · exact createEntry_sends noMoves_sends _ _ _

/-- **One entry**: the node that it is taken for is moved or renamed, and no other. -/
theorem processEntry_moves (s : Pass) : Moves (s.inferredAt env parentNodeId entry).toList s
    ((processEntry env parentNodeId entry).runBody s).1 := by
  rw [Pass.inferredAt]
  by_cases hhalts : env.halts s.looks
  · rw [if_pos hhalts, processEntry, Proc.runBody_bind, runBody_ensureNotUpdateRequired, if_pos hhalts]
    exact Moves.of_sent rfl
  have hlook : (ensureNotUpdateRequired env).runBody s = ({ s with looks := s.looks + 1 }, .ok ()) := by
    rw [runBody_ensureNotUpdateRequired, if_neg hhalts]
  rw [if_neg hhalts]
  refine Moves.after hlook rfl ?_
  let t : Pass := { s with looks := s.looks + 1 }
  show Moves ((t.newType env parentNodeId entry).bind (t.infers env entry parentNodeId)).toList t _
  have hnew : ∀ type, t.newType env parentNodeId entry = some type →
      Moves ((t.newType env parentNodeId entry).bind (t.infers env entry parentNodeId)).toList t
        ((processNewEntry env entry parentNodeId type).runBody t).1 := by
    intro type htype
    rw [htype]
    exact processNewEntry_moves env entry parentNodeId type htype
  have hquiet : ∀ p : PushProc Unit, t.newType env parentNodeId entry = none → p.Writes (Moves []) →
      Moves ((t.newType env parentNodeId entry).bind (t.infers env entry parentNodeId)).toList t (p.runBody t).1 := by
    intro p htype hp
    rw [htype]
    exact hp.runBody t
  have hskip : countSkipped.Writes (Moves []) := updateSummary_composes noMoves_sends.composes _
  by_cases hlink : entry.type = .symlink
  · rw [if_pos hlink]
    refine hquiet _ ?_ hskip
    rw [Pass.newType, hlink]
    split <;> rfl
  rw [if_neg hlink, Proc.runBody_bind, Proc.runBody_read]
  dsimp only
  cases hnode : t.mirror.getNodeByParentAndName env.folderId (some parentNodeId) entry.name with
  | some node =>
    have hnone : t.newType env parentNodeId entry = none := by simp [Pass.newType, hnode]
    rw [Option.isNone_some, Bool.and_false, Bool.false_and, if_neg Bool.false_ne_true]
    cases entry.type with
    | dir => exact hquiet _ hnone (enqueue_composes noMoves_sends.composes _ _)
    | file => exact hquiet _ hnone (processExistingFile_sends noMoves_sends _ _)
    | symlink => exact hquiet _ hnone hskip
    | other => exact hquiet _ hnone hskip
  | none =>
    cases htype : entry.type with
    | dir => exact hnew .folder (by simp [Pass.newType, hnode, htype])
    | file =>
      by_cases hcopy : isConflictCopyName entry.name
      · simp only [hcopy]
        exact hquiet _ (by simp [Pass.newType, hnode, htype, hcopy]) hskip
      · simp only [hcopy]
        exact hnew .file (by simp [Pass.newType, hnode, htype, hcopy])
    | symlink => exact absurd htype hlink
    | other => exact hquiet _ (by simp [Pass.newType, hnode, htype]) hskip

end Entry

/-! ### The walk -/

section Walk

variable (env : PushEnv)

theorem processEntries_moves (parentNodeId : String) (entries : List EntryInfo) (s : Pass) :
    Moves (inferredEntries env parentNodeId entries s) s ((processEntries env parentNodeId entries).runBody s).1 := by
  induction entries generalizing s with
  | nil => exact Moves.of_sent rfl
  | cons entry entries ih =>
    have hentry := processEntry_moves env entry parentNodeId s
    rw [processEntries, inferredEntries, Proc.runBody_bind]
    rcases hrun : (processEntry env parentNodeId entry).runBody s with ⟨s₁, error | u⟩
    · rw [hrun] at hentry
      rw [List.append_nil]
      exact hentry
    · rw [hrun] at hentry
      exact hentry.trans (ih s₁)

theorem runBody_processDir (dir : Path) (parentNodeId : String) (s : Pass) :
    (processDir env dir parentNodeId).runBody s = (listEntries env dir >>= fun entries =>
      entries.elim (pure ()) (processEntries env parentNodeId)).runBody s := by
  rw [processDir, listEntries, Proc.runBody_bind, Proc.runBody_bind, Proc.runBody_bind]
  rcases (ensureNotUpdateRequired env).runBody s with ⟨s₁, error | u⟩
  · rfl
  · dsimp only
    rw [Proc.runBody_bind, Proc.runBody_bind]
    rcases (readDir env dir).runBody s₁ with ⟨s₂, error | names⟩
    · rfl
    · cases names with
      | none => rfl
      | some names =>
        dsimp only
        rw [Proc.runBody_bind, Proc.runBody_bind]
        rcases (readEntries env dir names).runBody s₂ with ⟨s₃, error | entries⟩
        · rfl
        · dsimp only
          rw [Proc.runBody_bind, Proc.runBody_bind]
          rcases (recordListed dir names entries.2).runBody s₃ with ⟨s₄, error | u⟩ <;> rfl

theorem listEntries_moves (dir : Path) : (listEntries env dir).Writes (Moves []) := by
  refine (ensureNotUpdateRequired_composes noMoves_sends.composes).bind fun _ =>
    (fsCall_composes noMoves_sends.composes _).bind fun names => ?_
  cases names with
  | none => exact (updateSummary_composes noMoves_sends.composes _).bind fun _ => True.intro
  | some names =>
    exact (readEntries_composes noMoves_sends.composes dir names).bind fun result =>
      (recordListed_composes noMoves_sends.composes dir names result.2).bind fun _ => True.intro

/-- One directory. -/
theorem processDir_moves (dir : Path) (parentNodeId : String) (s : Pass) :
    Moves (inferredDir env dir parentNodeId s) s ((processDir env dir parentNodeId).runBody s).1 := by
  have hlist := (listEntries_moves env dir).runBody s
  rw [runBody_processDir, inferredDir, Proc.runBody_bind]
  rcases hrun : (listEntries env dir).runBody s with ⟨s₁, error | entries⟩
  · rw [hrun] at hlist
    exact hlist
  · rw [hrun] at hlist
    cases entries with
    | none => exact hlist
    | some entries => exact hlist.trans (processEntries_moves env parentNodeId entries s₁)

theorem walk_moves (fuel : ℕ) (s : Pass) : Moves (inferredWalk env fuel s) s ((walk env fuel).runBody s).1 := by
  induction fuel generalizing s with
  | zero => exact Moves.of_sent rfl
  | succ fuel ih =>
    have hpop : popQueue.runBody s = ({ s with queue := s.queue.tail }, .ok s.queue.head?) := rfl
    rw [walk, inferredWalk]
    refine Moves.after hpop rfl ?_
    cases hqueue : s.queue with
    | nil => exact Moves.of_sent rfl
    | cons next queue =>
      have hdir := processDir_moves env next.1 next.2 { s with queue }
      dsimp only [List.head?_cons, List.tail_cons]
      rw [Proc.runBody_bind]
      rcases hrun : (processDir env next.1 next.2).runBody { s with queue } with ⟨s₁, error | u⟩
      · rw [hrun] at hdir
        rw [List.append_nil]
        exact hdir
      · rw [hrun] at hdir
        exact hdir.trans (ih s₁)

/-- **What a walk moves**: the nodes that entries are taken for, and no others. -/
theorem pushTree_moves (mirror : Mirror) (disk : Disk FileData) :
    Moves (env.inferred mirror disk) { mirror, disk } (env.walked mirror disk) := by
  rw [PushEnv.walked, PushEnv.inferred, pushTree]
  by_cases hhalts : env.halts 0
  · rw [if_pos hhalts, Proc.runBody_bind, runBody_ensureNotUpdateRequired, if_pos hhalts]
    exact Moves.of_sent rfl
  let s : Pass := { mirror, disk, looks := 1 }
  have hlook : (ensureNotUpdateRequired env).runBody { mirror, disk } = (s, .ok ()) := by
    rw [runBody_ensureNotUpdateRequired, if_neg hhalts]
  have hroot : (Proc.read fun s : Pass => s.mirror.getRootNode env.folderId : PushProc _).runBody s =
      (s, .ok (mirror.getRootNode env.folderId)) := rfl
  rw [if_neg hhalts]
  refine Moves.after hlook rfl (Moves.after hroot rfl ?_)
  cases mirror.getRootNode env.folderId with
  | none => exact Moves.of_sent rfl
  | some root => exact walk_moves env env.fuel { s with queue := [([], env.scopeNodeId.getD root.nodeId)] }

/-! ### The whole pass -/

theorem submitDelete_noMoves (node : LocalNode) (path : Path) : (submitDelete env node path).Writes (Moves []) := by
  have hsent : (pushOp env path (.mutate node.nodeId node.serverSeq .delete)).Writes (Moves []) :=
    pushOp_sends fun s e he => moves_sent (by rw [he]; rfl)
  have hskip : countSkipped.Writes (Moves []) := updateSummary_composes noMoves_sends.composes _
  refine hsent.bind fun result => ?_
  cases result with
  | applied serverSeq nodeId =>
    exact (updateMirror_sends noMoves_sends _).bind fun _ => updateSummary_composes noMoves_sends.composes _
  | error e => exact recordError_composes noMoves_sends.composes e
  | conflictCopy serverSeq nodeId conflictVersionId => exact hskip
  | superseded currentSeq => exact hskip
  | conflict => exact hskip

theorem submitDeletesForMissing_noMoves : (submitDeletesForMissing env).Writes (Moves []) :=
  submitDeletes_composes noMoves_sends.composes (submitDelete_noMoves env)

/-- **What a pass moves**: what its walk does. -/
theorem pushed_moves (mirror : Mirror) (disk : Disk FileData) :
    Moves (env.inferred mirror disk) { mirror, disk } (env.pushed mirror disk).1 :=
  (pushTree_moves env mirror disk).bind fun _ => submitDeletesForMissing_noMoves env

end Walk

/-! ### What was never on the disk -/

/-- The folder that a node is in. -/
def folderOf (nodes : List LocalNode) (nodeId : String) : Option String :=
  (lookup LocalNode.nodeId nodeId nodes).bind LocalNode.parentId

/-- A node that was never on the disk is there, or below.  `onDisk`: the nodes whose content or directory the
device has had on its disk. -/
def NeverOnDisk (nodes : List LocalNode) (onDisk : List String) (nodeId : String) : Prop :=
  ∃ node ∈ nodes, node.nodeId ∉ onDisk ∧ StateTransition.Reaches (folderOf nodes) node.nodeId nodeId

/-- The node that a move, a rename or a delete is for. -/
def takenAway : SubmitOpRequest → Option String
  | .mutate nodeId _ .delete => some nodeId
  | op => movedNode op

/-- No move, rename or delete is for one of these. -/
def Pass.Spares (s : Pass) (spared : String → Prop) : Prop := ∀ e ∈ s.sent, ∀ nodeId ∈ takenAway e.op, ¬spared nodeId

/-- Moves and renames, and deletes. -/
theorem spares_iff {s : Pass} {spared : String → Prop} : s.Spares spared ↔
    (∀ nodeId ∈ s.movedNodes, ¬spared nodeId) ∧ ∀ d ∈ s.deletes, ¬spared d.1.nodeId := by
  have hdelete : ∀ op nodeId, nodeId ∈ takenAway op ↔ nodeId ∈ movedNode op ∨ isDelete op ∧ op.nodeId = nodeId := by
    intro op nodeId
    cases op with
    | create => simp [takenAway, movedNode, isDelete]
    | mutate node basedOnSeq m => cases m <;> simp [takenAway, movedNode, isDelete, SubmitOpRequest.nodeId]
  constructor
  · intro h
    refine ⟨fun nodeId hmem => ?_, fun d hd => ?_⟩
    · obtain ⟨e, he, hmoved⟩ := List.mem_filterMap.mp hmem
      exact h e he nodeId ((hdelete e.op nodeId).mpr (.inl hmoved))
    · obtain ⟨e, he, hdel, rfl⟩ := mem_deletes.mp hd
      exact h e he _ ((hdelete e.op _).mpr (.inr ⟨hdel, rfl⟩))
  · intro h e he nodeId hnode
    rcases (hdelete e.op nodeId).mp hnode with hmoved | ⟨hd, rfl⟩
    · exact h.1 nodeId (List.mem_filterMap.mpr ⟨e, he, hmoved⟩)
    · exact h.2 (e.op, e.path) (mem_deletes.mpr ⟨e, he, hd, rfl⟩)

/-- **Nodes that were never on the disk**: when no entry is taken for such a node or a folder with one below, and
no visit of the sweep to one leads to a delete, the pass spares them all; a pass that ends without an error, only
then. -/
theorem push_spares (env : PushEnv) (mirror : Mirror) (disk : Disk FileData) (onDisk : List String) :
    let never := NeverOnDisk (mirror.liveNodes env.folderId) onDisk
    let W := env.walked mirror disk
    let run := env.pushed mirror disk
    let noneTaken : Prop := (∀ node ∈ env.inferred mirror disk, ¬never node.nodeId) ∧
      ∀ k v, (W.visits env)[k]? = some v → W.condemns env k v → ¬never v.node.nodeId
    (noneTaken → run.1.Spares never) ∧ (run.2 = .ok () → run.1.Spares never → noneTaken) := by
  intro never W run noneTaken
  obtain ⟨-, done, hfirst, hdeletes, hall⟩ := pushed_deletes env mirror disk
  have hmoves : ∀ nodeId, nodeId ∈ run.1.movedNodes ↔ nodeId ∈ (env.inferred mirror disk).map LocalNode.nodeId :=
    fun nodeId => by simpa [Pass.movedNodes] using pushed_moves env mirror disk nodeId
  have hspares : run.1.Spares never ↔ (∀ node ∈ env.inferred mirror disk, ¬never node.nodeId) ∧
      ∀ v ∈ W.condemned env done, ¬never v.node.nodeId := by
    rw [spares_iff, hdeletes]
    simp only [hmoves, List.forall_mem_map]
    rfl
  constructor
  · intro h
    refine hspares.mpr ⟨h.1, fun v hv => ?_⟩
    obtain ⟨k, hk, hcondemns⟩ := mem_condemned.mp hv
    obtain ⟨later, hlater⟩ := hfirst
    refine h.2 k v ?_ hcondemns
    rw [← hlater, List.getElem?_append_left (List.getElem?_eq_some_iff.mp hk).1]
    exact hk
  · intro hok h
    obtain ⟨hinferred, hcondemned⟩ := hspares.mp h
    rw [hall hok] at hcondemned
    exact ⟨hinferred, fun k v hk hcondemns => hcondemned v (mem_condemned.mpr ⟨k, hk, hcondemns⟩)⟩

end Valv.Client
