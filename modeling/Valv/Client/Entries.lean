import Valv.Client.Standing

/-!
# What becomes of an entry

Where no call of the filesystem fails and the server's answers fit together, an entry that the walk comes to has one
of four ends: nothing happens to the tree, a known directory is walked into, a node is put where the entry is, or a new
node is made there.

* `PushEnv.Steady`: the calls and answers.
* `Outcome`: the three ends, each with what is known of the pass behind it.
* `moveEntry_outcome`, `createEntry_outcome`: the two ways in which the tree changes.
* `processEntry_outcome`: every entry has one of these ends.
-/

namespace Valv.Client

open Valv.Conc Valv.Table Valv.Server Valv.Files Valv.NamedTree

/-- No call of the filesystem fails, ids are drawn once, and the server's answers fit together: a node is created under
the id that was asked for, and a rename right behind an applied move of the node is not refused. -/
structure PushEnv.Steady (env : PushEnv) : Prop where
  quiet : ∀ n, env.fails n = false
  distinct : Function.Injective env.newUuid
  created : ∀ sent nodeId parentId name nodeType serverSeq n,
    env.answer sent (.create nodeId parentId name nodeType) = .applied serverSeq n → n = nodeId
  renamed : ∀ sent path nodeId seq parentId serverSeq n name e,
    env.answer (sent ++ [{ op := .mutate nodeId seq (.move parentId), path, result := .applied serverSeq n }])
      (.mutate nodeId serverSeq (.rename name)) = .error e → e = .updateRequired

/-- The live node of the folder with this parent and name. -/
def Pass.known (env : PushEnv) (s : Pass) (parentNodeId : String) (entry : EntryInfo) : Option LocalNode :=
  s.mirror.getNodeByParentAndName env.folderId (some parentNodeId) entry.name

/-- A known directory is walked into. -/
structure Entered (entry : EntryInfo) (nodeId : String) (s t : Pass) : Prop where
  mirror : t.mirror = s.mirror
  disk : t.disk = s.disk
  listed : t.listed = s.listed
  sent : t.sent = s.sent
  queue : t.queue = s.queue ++ [(entry.path, nodeId)]

/-- What becomes of an entry.  A node that is put where the entry is, is the one that the entry was taken for, or a new
one with an id that was drawn. -/
inductive Outcome (env : PushEnv) (parentNodeId : String) (entry : EntryInfo) (s t : Pass) : Prop
  | still {x : Option String} (h : Still env x s t)
      (hfile : ∀ k, x = some k → entry.type = .file ∧ ∃ node ∈ s.known env parentNodeId entry, node.nodeId = k)
      (hnew : entry.type = .dir → s.known env parentNodeId entry = none)
  | entered {node : LocalNode} (hdir : entry.type = .dir) (hnode : s.known env parentNodeId entry = some node)
      (h : Entered entry node.nodeId s t)
  | put {nodeType : NodeType} {nodeId : String} (htype : s.newType env parentNodeId entry = some nodeType)
      (hnode : (∃ node, s.inferredAt env parentNodeId entry = some node ∧ node.nodeId = nodeId) ∨
        nodeId = env.newUuid s.sent.length ∧ s.sent.length < t.sent.length)
      (h : Relinked env entry parentNodeId nodeType nodeId s t)

section Outcome

variable {env : PushEnv} {entry : EntryInfo} {parentNodeId : String} {nodeType : NodeType} {node : LocalNode} {s t : Pass}

/-! ### Moves -/

theorem runBody_finishMove : (finishMove entry nodeType node).runBody s =
    ({ s with mirror := s.mirror.upsertNode node,
              queue := s.queue ++ if nodeType = .folder then [(entry.path, node.nodeId)] else [],
              summary := { s.summary with skipped := s.summary.skipped + 1 } }, .ok ()) := by
  cases nodeType with
  | folder => rfl
  | file =>
    show (_, _) = _
    rw [if_neg nofun, List.append_nil]

theorem Still.skip {x : Option String} {u : Pass} (h : Still env x s t) (hrun : countSkipped.runBody t = (u, .ok ())) :
    Still env x s u := by
  have hstill : Stills env x countSkipped := stills_updateSummary _
  have hlater := hstill.runBody t
  rw [hrun] at hlater
  exact h.trans hlater

/-- A live node of the folder, with the type and the parent of the entry. -/
structure LocalNode.Fits (env : PushEnv) (parentNodeId : String) (nodeType : NodeType) (node : LocalNode) : Prop where
  folder : node.folderId = env.folderId
  live : node.deletedAt = none
  kind : node.nodeType = nodeType
  parent : node.parentId = some parentNodeId

theorem finishMove_relinked (h : node.Fits env parentNodeId nodeType) (hname : node.name = entry.name)
    (hrun : (finishMove entry nodeType node).runBody s = (t, .ok ())) :
    Relinked env entry parentNodeId nodeType node.nodeId s t := by
  rw [runBody_finishMove] at hrun
  cases hrun
  refine relinked_upsertNode ?_ h.folder h.live rfl rfl rfl rfl rfl
  rw [LocalNode.place, h.parent, hname, h.kind]
  rfl

/-- A refusal that is no demand for an update is counted, and the pass goes on. -/
theorem refused_ok {e : SubmitError} {p : PushProc Unit}
    (hrun : (propagateUpdateRequired e >>= fun _ => p).runBody s = (t, .ok ())) :
    e ≠ .updateRequired ∧ p.runBody s = (t, .ok ()) := by
  rw [propagateUpdateRequired] at hrun
  split at hrun
  · cases hrun
  · next hne => exact ⟨hne, hrun⟩

/-- The rename of a node that is in the entry's folder. -/
theorem renameMoved_outcome (h : node.Fits env parentNodeId nodeType)
    (hrefused : ∀ e, env.answer s.sent (.mutate node.nodeId node.serverSeq (.rename entry.name)) = .error e →
      e ≠ .updateRequired → s.mirror.upsertNode node = s.mirror)
    (hrun : (renameMoved env entry nodeType node).runBody s = (t, .ok ())) :
    Still env none s t ∨ Relinked env entry parentNodeId nodeType node.nodeId s t := by
  rw [renameMoved] at hrun
  split at hrun
  · next hname => exact .inr (finishMove_relinked h hname hrun)
  · rw [Proc.runBody_bind_of_ok (runBody_pushOp env s _ _)] at hrun
    let op : SubmitOpRequest := .mutate node.nodeId node.serverSeq (.rename entry.name)
    let s₁ : Pass := { s with sent := s.sent ++ [{ op, path := entry.path, result := env.answer s.sent op }] }
    have hsent : Still env none s s₁ := .of_same rfl rfl rfl rfl (by simp [s₁])
    have hskip : ∀ {u}, countSkipped.runBody s₁ = (u, .ok ()) → Still env none s u := fun hu => hsent.skip hu
    cases hanswer : env.answer s.sent op with
    | error e =>
      rw [hanswer] at hrun
      dsimp only at hrun
      obtain ⟨hne, hrun⟩ := refused_ok hrun
      cases hrun
      left
      exact .of_same (hrefused e hanswer hne) rfl rfl rfl (by simp)
    | applied serverSeq n =>
      rw [hanswer] at hrun
      dsimp only at hrun
      right
      have hfits : ({ node with name := entry.name, serverSeq } : LocalNode).Fits env parentNodeId nodeType :=
        ⟨h.folder, h.live, h.kind, h.parent⟩
      have hdone := finishMove_relinked hfits rfl hrun
      rw [← hanswer] at hdone
      exact .after hsent (by simp) hdone
    | conflictCopy serverSeq n conflictVersionId | superseded currentSeq | conflict =>
      rw [hanswer] at hrun
      dsimp only at hrun
      rw [← hanswer] at hrun
      exact .inl (hskip hrun)

/-- A row that is written over itself. -/
theorem upsertNode_self {m : Mirror} (hkeyed : (m.nodes.map LocalNode.nodeId).Nodup) (hnode : node ∈ m.nodes) :
    m.upsertNode node = m := by
  have hrow : lookup LocalNode.nodeId node.nodeId m.nodes = some node := lookup_of_mem hkeyed hnode
  rw [Mirror.upsertNode, upsert, hrow, if_pos Option.isSome_some, update_of_fixed hkeyed hrow rfl]

/-- The end of an entry that is taken for a node. -/
theorem moveEntry_outcome (henv : env.Steady) (hkeyed : (s.mirror.nodes.map LocalNode.nodeId).Nodup)
    (hnode : node ∈ s.mirror.liveNodes env.folderId) (hkind : node.nodeType = nodeType)
    (hrun : (moveEntry env entry parentNodeId nodeType node).runBody s = (t, .ok ())) :
    Still env none s t ∨ Relinked env entry parentNodeId nodeType node.nodeId s t := by
  obtain ⟨hmem, hlive⟩ := List.mem_filter.mp hnode
  rw [Bool.and_eq_true, decide_eq_true_eq, Option.isNone_iff_eq_none] at hlive
  rw [moveEntry] at hrun
  split at hrun
  · next hparent =>
    exact renameMoved_outcome ⟨hlive.1, hlive.2, hkind, hparent⟩ (fun _ _ _ => upsertNode_self hkeyed hmem) hrun
  · rw [Proc.runBody_bind_of_ok (runBody_pushOp env s _ _)] at hrun
    let op : SubmitOpRequest := .mutate node.nodeId node.serverSeq (.move parentNodeId)
    let s₁ : Pass := { s with sent := s.sent ++ [{ op, path := entry.path, result := env.answer s.sent op }] }
    have hsent : Still env none s s₁ := .of_same rfl rfl rfl rfl (by simp [s₁])
    have hskip : ∀ {u}, countSkipped.runBody s₁ = (u, .ok ()) → Still env none s u := fun hu => hsent.skip hu
    cases hanswer : env.answer s.sent op with
    | error e =>
      rw [hanswer] at hrun
      dsimp only at hrun
      obtain ⟨-, hrun⟩ := refused_ok hrun
      cases hrun
      exact .inl (.of_same rfl rfl rfl rfl (by simp))
    | applied serverSeq n =>
      rw [hanswer] at hrun
      dsimp only at hrun
      have hfits : ({ node with parentId := some parentNodeId, serverSeq } : LocalNode).Fits env parentNodeId nodeType :=
        ⟨hlive.1, hlive.2, hkind, rfl⟩
      rcases renameMoved_outcome hfits (fun e he hne => absurd (henv.renamed _ _ _ _ _ _ _ _ _ he) hne) hrun with
        hstill | hrelinked
      · rw [← hanswer] at hstill
        exact .inl (hsent.trans hstill)
      · rw [← hanswer] at hrelinked
        exact .inr (.after hsent (by simp) hrelinked)
    | conflictCopy serverSeq n conflictVersionId | superseded currentSeq | conflict =>
      rw [hanswer] at hrun
      dsimp only at hrun
      rw [← hanswer] at hrun
      exact .inl (hskip hrun)

/-! ### Creates -/

/-- A look at the flag that lets the pass go on. -/
theorem look_ok {α : Type} {p : PushProc α} {a : α}
    (hrun : (ensureNotUpdateRequired env >>= fun _ => p).runBody s = (t, .ok a)) :
    env.halts s.looks = false ∧ p.runBody { s with looks := s.looks + 1 } = (t, .ok a) := by
  rw [Proc.runBody_bind, runBody_ensureNotUpdateRequired] at hrun
  cases hhalts : env.halts s.looks with
  | true =>
    rw [hhalts] at hrun
    cases hrun
  | false =>
    rw [hhalts] at hrun
    exact ⟨rfl, hrun⟩

/-- The end of an entry that is new. -/
theorem createEntry_outcome (henv : env.Steady) (hne : entry.path ≠ [])
    (hrun : (createEntry env entry parentNodeId nodeType).runBody s = (t, .ok ())) :
    Still env none s t ∨ (Relinked env entry parentNodeId nodeType (env.newUuid s.sent.length) s t ∧
      s.sent.length < t.sent.length) := by
  obtain ⟨-, hrun⟩ := look_ok hrun
  rw [newUuid, Proc.runBody_bind, Proc.runBody_read] at hrun
  dsimp only at hrun
  rw [Proc.runBody_bind_of_ok (runBody_pushOp env _ _ _)] at hrun
  generalize hid : env.newUuid s.sent.length = id at hrun ⊢
  generalize hanswer : env.answer s.sent (.create id parentNodeId entry.name nodeType) = result at hrun
  let s₁ : Pass := { s with
    looks := s.looks + 1
    sent := s.sent ++ [{ op := .create id parentNodeId entry.name nodeType, path := entry.path, result }] }
  have hsent : Still env none s s₁ := .of_same rfl rfl rfl rfl (by simp [s₁])
  have hlt : s.sent.length < s₁.sent.length := by simp [s₁]
  cases result with
  | error e =>
    obtain ⟨-, hrun⟩ := refused_ok hrun
    cases hrun
    exact .inl (.of_same rfl rfl rfl rfl (by simp))
  | applied serverSeq n =>
    obtain rfl : n = id := henv.created _ _ _ _ _ _ _ hanswer
    let row := createdNode env.folderId n parentNodeId entry.name nodeType serverSeq
    have hmade : ∀ u : Pass, u.mirror = s₁.mirror.upsertNode row →
        u.queue = s₁.queue ++ (if nodeType = .folder then [(entry.path, n)] else []) → u.listed = s₁.listed →
        u.sent = s₁.sent → u.disk = s₁.disk → Relinked env entry parentNodeId nodeType n s u := by
      intro u hmirror hqueue hlisted hsame hdisk
      exact .after hsent (by simp) (relinked_upsertNode rfl rfl rfl hmirror hqueue hlisted hsame hdisk)
    right
    cases nodeType with
    | folder =>
      cases hrun
      exact ⟨hmade _ rfl rfl rfl rfl rfl, hlt⟩
    | file =>
      let u : Pass := { s₁ with
        mirror := s₁.mirror.upsertNode row
        summary := { s₁.summary with createsSubmitted := s₁.summary.createsSubmitted + 1 } }
      have hcontent : (pushCreatedContent env entry n serverSeq).runBody u = (t, .ok ()) := hrun
      have hstill := (stills_pushCreatedContent henv.quiet hne n serverSeq).runBody u
      rw [hcontent] at hstill
      have hlinked := hmade u rfl (List.append_nil _).symm rfl rfl rfl
      exact ⟨hlinked.before hstill fun k hk => (Option.some.inj hk).symm, Nat.lt_of_lt_of_le hlt hstill.sent⟩
  | conflictCopy serverSeq n conflictVersionId =>
    cases hrun
    exact .inl (.of_same rfl rfl rfl rfl (by simp))
  | superseded currentSeq =>
    cases hrun
    exact .inl (.of_same rfl rfl rfl rfl (by simp))
  | conflict =>
    cases hrun
    exact .inl (.of_same rfl rfl rfl rfl (by simp))

/-! ### Every entry -/

/-- The end of an entry whose name the folder does not have. -/
theorem processNewEntry_outcome (henv : env.Steady) (hkeyed : (s.mirror.nodes.map LocalNode.nodeId).Nodup)
    (hne : entry.path ≠ []) (htype : s.newType env parentNodeId entry = some nodeType)
    (hinferred : s.inferredAt env parentNodeId entry = s.infers env entry parentNodeId nodeType) {looks : ℕ}
    (hrun : (processNewEntry env entry parentNodeId nodeType).runBody { s with looks } = (t, .ok ())) :
    Outcome env parentNodeId entry s t := by
  have hnone : s.known env parentNodeId entry = none := by
    rw [Pass.newType] at htype
    split at htype
    · cases htype
    · next hsome => exact Option.not_isSome_iff_eq_none.mp hsome
  obtain ⟨calls, hfind⟩ := runBody_findMissingMoveCandidate env entry parentNodeId nodeType { s with looks }
  let s₁ : Pass := { s with looks, calls }
  have hcalls : Still env none s s₁ := .of_same rfl rfl rfl rfl le_rfl
  have hstill : ∀ u, Still env none s₁ u → Outcome env parentNodeId entry s u := fun u hu =>
    .still (hcalls.trans hu) (by simp) fun _ => hnone
  rw [processNewEntry, processMovedEntry, Proc.runBody_bind, Proc.runBody_bind, hfind] at hrun
  split at hrun
  · next u moved hmoved =>
    split at hmoved
    · next v found hfound =>
      split at hfound
      · cases hfound
      · obtain ⟨rfl, hinfers⟩ : s₁ = v ∧ s.infers env entry parentNodeId nodeType = found := by
          cases hfound
          exact ⟨rfl, rfl⟩
        cases found with
        | none =>
          cases hmoved
          rcases createEntry_outcome henv hne hrun with hend | ⟨hend, hsent⟩
          · exact hstill _ hend
          · exact .put htype (.inr ⟨rfl, hsent⟩) (.after hcalls (by simp) hend)
        | some node =>
          rw [Proc.runBody_bind] at hmoved
          split at hmoved
          · next w _ hmove =>
            obtain ⟨rfl, rfl⟩ : w = u ∧ moved = true := by
              cases hmoved
              exact ⟨rfl, rfl⟩
            cases hrun
            have hmem := infers_mem env entry parentNodeId nodeType hinfers
            have hkind : node.nodeType = nodeType := by
              have hone := List.mem_singleton_self node
              rw [← (infers_some env entry parentNodeId nodeType hinfers).2] at hone
              have hlike := (missingMoves_spec env entry parentNodeId nodeType hone).2.1
              rw [LocalNode.like, Bool.and_eq_true, decide_eq_true_eq] at hlike
              exact hlike.1
            rcases moveEntry_outcome (s := s₁) henv hkeyed hmem hkind hmove with hend | hend
            · exact hstill _ hend
            · exact .put htype (.inl ⟨node, hinferred.trans hinfers, rfl⟩) (.after hcalls (by simp) hend)
          · cases hmoved
    · cases hmoved
  · cases hrun

/-- **What becomes of an entry.** -/
theorem processEntry_outcome (henv : env.Steady) (hkeyed : (s.mirror.nodes.map LocalNode.nodeId).Nodup)
    (hne : entry.path ≠ []) (hrun : (processEntry env parentNodeId entry).runBody s = (t, .ok ())) :
    Outcome env parentNodeId entry s t := by
  obtain ⟨hhalts, hrun⟩ := look_ok hrun
  let s₁ : Pass := { s with looks := s.looks + 1 }
  have hlook : ∀ {x : Option String}, Still env x s s₁ := .of_same rfl rfl rfl rfl le_rfl
  have hnew : ∀ nodeType, s.newType env parentNodeId entry = some nodeType →
      (processNewEntry env entry parentNodeId nodeType).runBody s₁ = (t, .ok ()) → Outcome env parentNodeId entry s t := by
    intro nodeType htype hnext
    refine processNewEntry_outcome henv hkeyed hne htype ?_ hnext
    rw [Pass.inferredAt, hhalts, htype]
    rfl
  have hskip : (entry.type = .dir → s.known env parentNodeId entry = none) → countSkipped.runBody s₁ = (t, .ok ()) →
      Outcome env parentNodeId entry s t := by
    intro hdir hnext
    have hstill : Still env none s t := hlook.skip hnext
    exact .still hstill (by simp) hdir
  have hother : entry.type ≠ .dir → countSkipped.runBody s₁ = (t, .ok ()) → Outcome env parentNodeId entry s t :=
    fun hdir => hskip fun htype => absurd htype hdir
  split at hrun
  · next hlink => exact hother (by simp [hlink]) hrun
  · next hlink =>
    rw [Proc.runBody_bind, Proc.runBody_read] at hrun
    dsimp only at hrun
    have hknown : s.mirror.getNodeByParentAndName env.folderId (some parentNodeId) entry.name =
        s.known env parentNodeId entry := rfl
    rw [hknown] at hrun
    cases hnode : s.known env parentNodeId entry with
    | some node =>
      rw [hnode, Option.isNone_some, Bool.and_false, Bool.false_and, if_neg Bool.false_ne_true] at hrun
      cases htype : entry.type with
      | dir =>
        rw [htype] at hrun
        cases hrun
        exact .entered htype hnode ⟨rfl, rfl, rfl, rfl, rfl⟩
      | file =>
        rw [htype] at hrun
        have hstill := (stills_processExistingFile henv.quiet hne node).runBody s₁
        rw [show (processExistingFile env entry.path node).runBody s₁ = (t, .ok ()) from hrun] at hstill
        refine .still (hlook.trans hstill) (fun k hk => ⟨htype, node, hnode, Option.some.inj hk⟩) fun hdir => ?_
        rw [htype] at hdir
        cases hdir
      | symlink => exact absurd htype hlink
      | other =>
        rw [htype] at hrun
        exact hother (by simp [htype]) hrun
    | none =>
      have hnone : (s.mirror.getNodeByParentAndName env.folderId (some parentNodeId) entry.name).isSome = false := by
        rw [hknown, hnode]
        rfl
      rw [hnode] at hrun
      cases htype : entry.type with
      | dir =>
        rw [htype] at hrun
        refine hnew .folder ?_ hrun
        rw [Pass.newType, hnone, htype]
        rfl
      | file =>
        rw [htype] at hrun
        cases hcopy : isConflictCopyName entry.name with
        | true =>
          rw [hcopy] at hrun
          exact hother (by simp [htype]) hrun
        | false =>
          rw [hcopy] at hrun
          refine hnew .file ?_ hrun
          rw [Pass.newType, hnone, htype, hcopy]
          rfl
      | symlink => exact absurd htype hlink
      | other =>
        rw [htype] at hrun
        exact hother (by simp [htype]) hrun

end Outcome

end Valv.Client
