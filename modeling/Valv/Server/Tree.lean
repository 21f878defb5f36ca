import Valv.Server.Folders
import Valv.Server.Confine

/-!
# The tree of a folder

Moves and creates, from any number of devices and statement by statement, on a folder that
`POST /folders` has made.

* `Forest`: the nodes of each folder are a tree below one root.
* `Forest.reshapes`: a statement that gives a node a parent keeps the trees, if the parent is a
  folder node of the node's own folder and not below it.
* `tree_run`: so do all schedules of all calls whose statements do.
-/

namespace Valv.Server

open Valv.Conc Valv.Table Valv.Forest StateTransition

/-! ### The invariant -/

/-- The node is a root of the folder. -/
def Db.IsRoot (s : Db) (folderId n : String) : Prop :=
  ∃ r, s.node n = some r ∧ r.folderId = folderId ∧ r.parentId = none

/-- The node may have children in the folder. -/
def Db.folderNode (s : Db) (folderId p : String) : Bool :=
  (s.node p).any fun r => r.type = .folder && r.folderId = folderId

/-- **The parent relation of each folder is a tree**: every node reaches its folder's root, and a
parent is a folder node of the same folder. -/
structure Db.Forest (s : Db) : Prop where
  folder : ∀ n r, s.node n = some r → r.folderId ∈ s.sharedFolders
  parent : ∀ n r p, s.node n = some r → r.parentId = some p → s.folderNode r.folderId p = true
  root : ∀ n r, s.node n = some r → ∃ a, s.IsRoot r.folderId a ∧ Reaches s.parentOf n a
  unique : ∀ folderId a b, s.IsRoot folderId a → s.IsRoot folderId b → a = b

section Forest

variable {s s' : Db} {call : SubmitCall} {n m p folderId : String} {r : NodeRow}

theorem folderNode_iff : s.folderNode folderId p = true ↔
    ∃ r, s.node p = some r ∧ r.type = .folder ∧ r.folderId = folderId := by
  rw [Db.folderNode, Option.any_eq_true]
  simp only [Bool.and_eq_true, decide_eq_true_eq]

theorem parentOf_some (h : s.parentOf n = some p) : ∃ r, s.node n = some r ∧ r.parentId = some p := by
  rw [Db.parentOf] at h
  exact Option.bind_eq_some_iff.mp h

theorem parentOf_of_node (h : s.node n = some r) : s.parentOf n = r.parentId := by
  rw [Db.parentOf, h, Option.bind_some]

theorem parentOf_absent (h : s.node n = none) : s.parentOf n = none := by
  rw [Db.parentOf, h, Option.bind_none]

/-- Everything above a node is in its folder. -/
theorem Db.Forest.above (hf : s.Forest) (h : Reaches s.parentOf n m) (hr : s.node n = some r) :
    ∃ r', s.node m = some r' ∧ r'.folderId = r.folderId := by
  induction h using Relation.ReflTransGen.head_induction_on generalizing r with
  | refl => exact ⟨r, hr, rfl⟩
  | @head n p hlink _ ih =>
    have hp : r.parentId = some p := (parentOf_of_node hr).symm.trans hlink
    obtain ⟨r', hr', -, hfolder⟩ := folderNode_iff.mp (hf.parent n r p hr hp)
    obtain ⟨r'', hr'', hfolder'⟩ := ih hr'
    exact ⟨r'', hr'', hfolder'.trans hfolder⟩

/-! ### One statement of a call -/

/-- The parent that the call gives its node is a folder node of the node's folder, and not the
node itself or below it. -/
def Db.LinksWell (s : Db) (call : SubmitCall) : Prop :=
  match call.op with
  | .create _ parentId _ _ => s.folderNode call.folderId parentId = true
  | .mutate n _ m => ∀ p ∈ m.newParentId, ∃ r, s.node n = some r ∧ s.folderNode r.folderId p = true ∧
      ¬ Reaches s.parentOf p n

/-- A statement that gives the call's node another parent gives it a good one: a folder node of the same folder that
is not the node itself or below it. -/
def LinkOk (call : SubmitCall) (s s' : Db) : Prop :=
  s'.parentOf call.op.nodeId ≠ s.parentOf call.op.nodeId → s.LinksWell call

theorem Reshapes.folderNode (h : Reshapes call s s') (hp : s.folderNode folderId p = true) :
    s'.folderNode folderId p = true := by
  obtain ⟨r, hr, htype, hfolder⟩ := folderNode_iff.mp hp
  obtain ⟨r', hr', hfolder', htype', -⟩ := h.kept p r hr
  exact folderNode_iff.mpr ⟨r', hr', htype'.trans htype, hfolder'.trans hfolder⟩

/-- Only the node of the call gets another parent. -/
theorem Reshapes.parentOf_ne (h : Reshapes call s s') (hm : m ≠ call.op.nodeId) :
    s'.parentOf m = s.parentOf m := by
  cases hr : s.node m with
  | some r =>
    obtain ⟨r', hr', -, -, hparent⟩ := h.kept m r hr
    rw [parentOf_of_node hr', parentOf_of_node hr]
    rcases hparent with hsame | ⟨b, p, hop, -⟩
    · exact hsame
    · exact absurd (by rw [hop, SubmitOpRequest.nodeId]) hm
  | none =>
    cases hr' : s'.node m with
    | none => rw [parentOf_absent hr', parentOf_absent hr]
    | some r' =>
      obtain ⟨parentId, name, hop, -, -⟩ := h.added m r' hr hr'
      exact absurd (by rw [hop, SubmitOpRequest.nodeId]) hm

/-- The new parent of the call's node is a good one. -/
theorem Reshapes.linked (hf : s.Forest) (h : Reshapes call s s') (hok : LinkOk call s s')
    (hchange : s'.parentOf call.op.nodeId ≠ s.parentOf call.op.nodeId) :
    ∃ p r', s'.node call.op.nodeId = some r' ∧ r'.parentId = some p ∧ s.folderNode r'.folderId p = true ∧
      ¬ Reaches s.parentOf p call.op.nodeId := by
  have hlinks := hok hchange
  cases hr : s.node call.op.nodeId with
  | some r =>
    obtain ⟨r', hr', hfolder, -, hparent⟩ := h.kept _ r hr
    rcases hparent with hsame | ⟨b, p, hop, hp⟩
    · rw [parentOf_of_node hr', parentOf_of_node hr] at hchange
      exact absurd hsame hchange
    · rw [Db.LinksWell, hop] at hlinks
      obtain ⟨r₁, hr₁, hfolderNode, hbelow⟩ := hlinks p rfl
      cases hr.symm.trans hr₁
      exact ⟨p, r', hr', hp, by rw [hfolder]; exact hfolderNode, hbelow⟩
  | none =>
    cases hr' : s'.node call.op.nodeId with
    | none =>
      rw [parentOf_absent hr', parentOf_absent hr] at hchange
      exact absurd rfl hchange
    | some r' =>
      obtain ⟨parentId, name, hop, hfolder, hp⟩ := h.added _ r' hr hr'
      rw [Db.LinksWell, hop] at hlinks
      refine ⟨parentId, r', rfl, hp, by rw [hfolder]; exact hlinks, fun hreach => ?_⟩
      obtain ⟨rp, hrp, -⟩ := folderNode_iff.mp hlinks
      obtain ⟨r₁, hr₁, -⟩ := hf.above hreach hrp
      exact absurd (hr.symm.trans hr₁) nofun

/-- A root was there before, and was a root. -/
theorem Reshapes.isRoot_of (h : Reshapes call s s') (ha : s'.IsRoot folderId n) : s.IsRoot folderId n := by
  obtain ⟨r', hr', hfolder', hparent'⟩ := ha
  cases hr : s.node n with
  | none =>
    obtain ⟨parentId, name, -, -, hp⟩ := h.added n r' hr hr'
    exact absurd (hparent'.symm.trans hp) nofun
  | some r =>
    obtain ⟨r₁, hr₁, hfolder, -, hparent⟩ := h.kept n r hr
    cases hr'.symm.trans hr₁
    rcases hparent with hsame | ⟨b, p, -, hp⟩
    · exact ⟨r, hr, hfolder.symm.trans hfolder', hsame.symm.trans hparent'⟩
    · exact absurd (hparent'.symm.trans hp) nofun

/-- A root whose parent does not change stays a root. -/
theorem Reshapes.isRoot (h : Reshapes call s s') (ha : s.IsRoot folderId n)
    (hsame : s'.parentOf n = s.parentOf n) : s'.IsRoot folderId n := by
  obtain ⟨r, hr, hfolder, hparent⟩ := ha
  obtain ⟨r', hr', hfolder', -, -⟩ := h.kept n r hr
  rw [parentOf_of_node hr', parentOf_of_node hr] at hsame
  exact ⟨r', hr', hfolder'.trans hfolder, hsame.trans hparent⟩

/-- A node that is not the call's was there before, in its folder. -/
theorem Reshapes.node_of (h : Reshapes call s s') {r' : NodeRow} (hr' : s'.node n = some r')
    (hsame : s'.parentOf n = s.parentOf n) : ∃ r, s.node n = some r ∧ r'.folderId = r.folderId := by
  cases hr : s.node n with
  | none =>
    obtain ⟨parentId, name, -, -, hp⟩ := h.added n r' hr hr'
    rw [parentOf_of_node hr', parentOf_absent hr, hp] at hsame
    cases hsame
  | some r =>
    obtain ⟨r₁, hr₁, hfolder, -⟩ := h.kept n r hr
    cases hr'.symm.trans hr₁
    exact ⟨r, rfl, hfolder⟩

/-- The path to the root, after a statement that moves no node. -/
theorem Db.Forest.root_same (hf : s.Forest) (h : Reshapes call s s')
    (hsame : s'.parentOf call.op.nodeId = s.parentOf call.op.nodeId) {r' : NodeRow} (hr' : s'.node n = some r') :
    ∃ a, s'.IsRoot r'.folderId a ∧ Reaches s'.parentOf n a := by
  have hall : ∀ m, s'.parentOf m = s.parentOf m := by
    intro m
    by_cases hm : m = call.op.nodeId
    · rw [hm]
      exact hsame
    · exact h.parentOf_ne hm
  obtain ⟨r, hr, hfolder⟩ := h.node_of hr' (hall n)
  obtain ⟨a, ha, hreach⟩ := hf.root n r hr
  refine ⟨a, by rw [hfolder]; exact h.isRoot ha (hall a), ?_⟩
  rw [funext hall]
  exact hreach

/-- The path to the root, after a statement that puts the call's node under another parent. -/
theorem Db.Forest.root_linked (hf : s.Forest) (h : Reshapes call s s') (hok : LinkOk call s s')
    (hchange : s'.parentOf call.op.nodeId ≠ s.parentOf call.op.nodeId) {r' : NodeRow}
    (hr' : s'.node n = some r') : ∃ a, s'.IsRoot r'.folderId a ∧ Reaches s'.parentOf n a := by
  obtain ⟨p, rk, hrk, hp, hfolderNode, hbelow⟩ := h.linked hf hok hchange
  obtain ⟨rp, hrp, -, hpfolder⟩ := folderNode_iff.mp hfolderNode
  obtain ⟨a, ha, hpa⟩ := hf.root p rp hrp
  rw [hpfolder] at ha
  have hoff : ∀ m, m ≠ call.op.nodeId → s'.parentOf m = s.parentOf m := fun m hm => h.parentOf_ne hm
  have hlink : s'.parentOf call.op.nodeId = some p := (parentOf_of_node hrk).trans hp
  -- The node of the call is no root of its folder: its new parent would be below it.
  have hnoroot : ∀ folderId b, s.IsRoot folderId b → b ≠ call.op.nodeId := by
    intro folderId b hb hbk
    rw [hbk] at hb
    have hb' := hb
    obtain ⟨rb, hrb, hbfolder, -⟩ := hb'
    obtain ⟨r₁, hr₁, hkfolder, -⟩ := h.kept _ rb hrb
    cases hrk.symm.trans hr₁
    have hab : a = call.op.nodeId := hf.unique folderId a _ (by rw [← hbfolder, ← hkfolder]; exact ha) hb
    exact hbelow (hab ▸ hpa)
  by_cases hn : n = call.op.nodeId
  · subst hn
    cases hr'.symm.trans hrk
    have hroot' := h.isRoot ha (hoff a (hnoroot _ a ha))
    exact ⟨a, hroot', Reaches.step hlink (Reaches.off hoff hpa hbelow)⟩
  · obtain ⟨r, hr, hfolder⟩ := h.node_of hr' (hoff n hn)
    obtain ⟨b, hb, hnb⟩ := hf.root n r hr
    have hroot' := h.isRoot hb (hoff b (hnoroot _ b hb))
    refine ⟨b, by rw [hfolder]; exact hroot', ?_⟩
    by_cases hnk : Reaches s.parentOf n call.op.nodeId
    · obtain ⟨rk₀, hrk₀, hkfolder⟩ := hf.above hnk hr
      obtain ⟨r₁, hr₁, hkfolder', -⟩ := h.kept _ rk₀ hrk₀
      cases hrk.symm.trans hr₁
      have hab : a = b := hf.unique r.folderId a b (by rw [← hkfolder, ← hkfolder']; exact ha) hb
      exact Reaches.relink hoff hlink (hab ▸ hpa) hbelow hnb
    · exact Reaches.off hoff hnb hnk

/-- **One statement of a call** keeps the trees, if the parent it gives its node is a good one. -/
theorem Db.Forest.reshapes (hf : s.Forest) (h : Reshapes call s s') (hok : LinkOk call s s') : s'.Forest where
  folder n r' hr' := by
    rw [h.sharedFolders]
    by_cases hsame : s'.parentOf n = s.parentOf n
    · obtain ⟨r, hr, hfolder⟩ := h.node_of hr' hsame
      rw [hfolder]
      exact hf.folder n r hr
    · have hn : n = call.op.nodeId := by_contra fun hn => hsame (h.parentOf_ne hn)
      subst hn
      obtain ⟨p, r₁, hr₁, -, hfolderNode, -⟩ := h.linked hf hok hsame
      cases hr'.symm.trans hr₁
      obtain ⟨rp, hrp, -, hpfolder⟩ := folderNode_iff.mp hfolderNode
      rw [← hpfolder]
      exact hf.folder p rp hrp
  parent n r' p hr' hp := by
    by_cases hsame : s'.parentOf n = s.parentOf n
    · obtain ⟨r, hr, hfolder⟩ := h.node_of hr' hsame
      rw [parentOf_of_node hr', parentOf_of_node hr, hp] at hsame
      rw [hfolder]
      exact h.folderNode (hf.parent n r p hr hsame.symm)
    · have hn : n = call.op.nodeId := by_contra fun hn => hsame (h.parentOf_ne hn)
      subst hn
      obtain ⟨p₁, r₁, hr₁, hp₁, hfolderNode, -⟩ := h.linked hf hok hsame
      cases hr'.symm.trans hr₁
      cases hp.symm.trans hp₁
      exact h.folderNode hfolderNode
  root n r' hr' := by
    by_cases hsame : s'.parentOf call.op.nodeId = s.parentOf call.op.nodeId
    · exact hf.root_same h hsame hr'
    · exact hf.root_linked h hok hsame hr'
  unique folderId a b ha hb := hf.unique folderId a b (h.isRoot_of ha) (h.isRoot_of hb)

end Forest

/-! ### A new folder -/

section Folder

variable {be : Backend} {s s' : Db} {folderId : String}

/-- The trees are about the nodes and the folders only. -/
theorem Db.Forest.congr (hf : s.Forest) (hn : s'.nodes = s.nodes)
    (hfolders : ∀ folderId ∈ s.sharedFolders, folderId ∈ s'.sharedFolders) : s'.Forest := by
  have hnode : s'.node = s.node := by
    funext n
    rw [Db.node, hn, Db.node]
  have hparent : s'.parentOf = s.parentOf := by
    funext n
    rw [Db.parentOf, hnode, Db.parentOf]
  have hroot : s'.IsRoot = s.IsRoot := by
    funext folderId n
    rw [Db.IsRoot, hnode, Db.IsRoot]
  constructor
  · intro n r hr
    rw [hnode] at hr
    exact hfolders _ (hf.folder n r hr)
  · intro n r p hr hp
    rw [hnode] at hr
    rw [Db.folderNode, hnode]
    exact hf.parent n r p hr hp
  · rw [hnode, hparent, hroot]
    exact hf.root
  · rw [hroot]
    exact hf.unique

/-- A root for a folder that has no nodes yet. -/
theorem Db.Forest.insertRoot (hf : s.Forest) (root : NodeRow) (hparent : root.parentId = none)
    (hnew : s.node root.nodeId = none) (hfolder : root.folderId ∈ s.sharedFolders)
    (hempty : ∀ n r, s.node n = some r → r.folderId ≠ root.folderId) :
    Db.Forest { s with nodes := s.nodes ++ [root] } := by
  have hnode : ∀ n, Db.node { s with nodes := s.nodes ++ [root] } n =
      if n = root.nodeId then some root else s.node n := by
    intro n
    rw [Db.node, lookup_append, lookup_cons, lookup_nil]
    by_cases hn : n = root.nodeId
    · subst hn
      rw [if_pos rfl, if_pos rfl]
      rw [Db.node] at hnew
      rw [hnew, Option.none_or]
    · rw [if_neg hn, if_neg (Ne.symm hn), Option.or_none, Db.node]
  have hparentOf : Db.parentOf { s with nodes := s.nodes ++ [root] } = s.parentOf := by
    funext n
    rw [Db.parentOf, hnode]
    split
    · next hn => rw [Option.bind_some, hparent, hn, parentOf_absent hnew]
    · rfl
  have hold : ∀ {n r}, s.node n = some r →
      Db.node { s with nodes := s.nodes ++ [root] } n = some r := by
    intro n r hr
    rw [hnode, if_neg, hr]
    rintro rfl
    exact absurd (hr.symm.trans hnew) (Option.some_ne_none r)
  have hcases : ∀ {n r}, Db.node { s with nodes := s.nodes ++ [root] } n = some r →
      (n = root.nodeId ∧ r = root) ∨ s.node n = some r := by
    intro n r hr
    rw [hnode] at hr
    split at hr
    · next hn => exact .inl ⟨hn, (Option.some.inj hr).symm⟩
    · exact .inr hr
  constructor
  · intro n r hr
    rcases hcases hr with ⟨-, rfl⟩ | hr
    · exact hfolder
    · exact hf.folder n r hr
  · intro n r p hr hp
    rcases hcases hr with ⟨-, rfl⟩ | hr
    · rw [hparent] at hp
      cases hp
    · obtain ⟨rp, hrp, hrest⟩ := folderNode_iff.mp (hf.parent n r p hr hp)
      exact folderNode_iff.mpr ⟨rp, hold hrp, hrest⟩
  · intro n r hr
    rw [hparentOf]
    rcases hcases hr with ⟨rfl, rfl⟩ | hr
    · exact ⟨_, ⟨_, hr, rfl, hparent⟩, Reaches.refl _⟩
    · obtain ⟨a, ⟨ra, hra, hrest⟩, hreach⟩ := hf.root n r hr
      exact ⟨a, ⟨ra, hold hra, hrest⟩, hreach⟩
  · rintro folderId a b ⟨ra, hra, hafolder, ha⟩ ⟨rb, hrb, hbfolder, hb⟩
    rcases hcases hra with ⟨han, hroota⟩ | hra
    · rcases hcases hrb with ⟨hbn, -⟩ | hrb
      · exact han.trans hbn.symm
      · exact absurd (hbfolder.trans (hafolder.symm.trans (by rw [hroota]))) (hempty b rb hrb)
    · rcases hcases hrb with ⟨-, hrootb⟩ | hrb
      · exact absurd (hafolder.trans (hbfolder.symm.trans (by rw [hrootb]))) (hempty a ra hra)
      · exact hf.unique folderId a b ⟨ra, hra, hafolder, ha⟩ ⟨rb, hrb, hbfolder, hb⟩

variable (be) in
theorem forest_createFolderBody (hf : s.Forest) (call : FolderCall) (ownerUserId : String) :
    ((createFolderBody be call ownerUserId).runBody s).1.Forest := by
  refine Proc.runBody_stmt_bind hf fun hcheck => ?_
  have htaken : call.folderId ∉ s.sharedFolders := by
    intro hin
    rw [if_pos hin] at hcheck
    cases hcheck
  have hf₁ : Db.Forest { s with sharedFolders := s.sharedFolders ++ [call.folderId] } :=
    hf.congr rfl fun _ h => List.mem_append_left _ h
  rw [Proc.runBody_bind_of_ok (runBody_lockKey _)]
  refine Proc.runBody_stmt_bind hf₁ fun hcheck₂ => ?_
  have hnew : s.node call.rootNodeId = none := by
    split at hcheck₂
    · cases hcheck₂
    · next hnone => exact Option.not_isSome_iff_eq_none.mp hnone
  have hin : call.folderId ∈ s.sharedFolders ++ [call.folderId] :=
    List.mem_append_right _ (List.mem_singleton.mpr rfl)
  have hf₂ := hf₁.insertRoot call.root rfl hnew hin fun n r hr he =>
    htaken (Eq.subst (motive := (· ∈ s.sharedFolders)) he (hf.folder n r hr))
  exact Proc.runBody_stmt_bind hf₂ fun _ => hf₂.congr rfl fun _ h => h

/-- **`POST /folders`** keeps the trees. -/
theorem forest_createFolder (hf : s.Forest) (call : FolderCall) : ((createFolder be call).exec s none).1.Forest := by
  have howner := resolveEffectiveUserId_readOnly call.principal
  rw [createFolder, Proc.exec_bind _ _ howner.unbracketed]
  rcases howner.runBody_cases s with ⟨owner, hrun⟩ | ⟨e, hrun⟩
  · rw [hrun]
    dsimp only
    cases truthy owner with
    | none => exact hf
    | some ownerUserId =>
      have hbody := forest_createFolderBody be hf call ownerUserId
      rcases exec_inTransaction (n := call.rootNodeId) (callback_createFolderBody be call ownerUserId) s with
        ⟨s', a, hrun, hexec⟩ | ⟨s', s'', e, hrun, hexec, hstate⟩
      · rw [hrun] at hbody
        dsimp only
        rw [hexec]
        exact hbody
      · rw [hrun] at hbody
        dsimp only
        rw [hexec]
        rcases hstate with rfl | hrefused
        · exact hbody
        · exact hf.congr hrefused.nodes fun _ h => hrefused.fixed.sharedFolders ▸ h
  · rw [hrun]
    exact hf

end Folder

/-! ### Runs -/

section Runs

variable {be : Backend} {s₀ : Db} {calls : List SubmitCall}

/-- What thread `i` can do to the places of the nodes and to the log in one step. -/
def CallReshapes (calls : List SubmitCall) (i : ℕ) (s s' : Db) : Prop :=
  (tagCalls calls)[i]?.elim (s' = s) fun call => Reshapes call s s'

instance (i : ℕ) : Std.Refl (CallReshapes calls i) := by
  refine ⟨fun s => ?_⟩
  rw [CallReshapes]
  cases (tagCalls calls)[i]? with
  | none => rfl
  | some call => exact refl_of (Reshapes call) s

instance (i : ℕ) : IsTrans Db (CallReshapes calls i) := by
  refine ⟨fun s s' s'' h h' => ?_⟩
  rw [CallReshapes] at h h' ⊢
  cases hcall : (tagCalls calls)[i]? with
  | none =>
    rw [hcall] at h h'
    exact h'.trans h
  | some call =>
    rw [hcall] at h h'
    exact Reshapes.trans h h'

/-- When thread `i` gives its node another parent, it is a good one. -/
def LinksOk (calls : List SubmitCall) (p : Pool Db DbKey ApiError SubmitOpResponse) (i : ℕ) : Prop :=
  ∀ call ∈ (tagCalls calls)[i]?, ∀ p' ∈ p.step i, LinkOk call p.state p'.state

theorem confined_startOps (be : Backend) (s₀ : Db) (calls : List SubmitCall) :
    Pool.Confined (CallReshapes calls) (startOps be s₀ calls) := by
  refine Pool.Confined.start fun i prog hprog => ?_
  rw [List.getElem?_map, Option.map_eq_some_iff] at hprog
  obtain ⟨call, hcall, rfl⟩ := hprog
  refine submitOp_writes.mono fun s s' h => ?_
  rw [CallReshapes, hcall]
  exact h

/-- **The tree of a folder**: in every run of calls on folders made by `POST /folders`, whatever
their statements interleave to, the parents stay a tree if every new parent is a folder node of
the same folder and not below its new child. -/
theorem submitOp_forest (be : Backend) (s₀ : Db) (hs₀ : s₀.Forest) (folder : FolderCall)
    (calls : List SubmitCall) (is : List ℕ)
    (hok : Pool.Along (LinksOk calls) (startOps be ((createFolder be folder).exec s₀ none).1 calls) is) :
    ((startOps be ((createFolder be folder).exec s₀ none).1 calls).run is).state.Forest := by
  have hstep : ∀ p i p', Pool.Confined (CallReshapes calls) p ∧ p.state.Forest → LinksOk calls p i →
      p.step i = some p' → Pool.Confined (CallReshapes calls) p' ∧ p'.state.Forest := by
    rintro p i p' ⟨hconf, hf⟩ hlink hs
    obtain ⟨hconf', hshape⟩ := hconf.step hs
    refine ⟨hconf', ?_⟩
    rw [CallReshapes] at hshape
    cases hcall : (tagCalls calls)[i]? with
    | none =>
      rw [hcall] at hshape
      have hsame : p'.state = p.state := hshape
      rw [hsame]
      exact hf
    | some call =>
      rw [hcall] at hshape
      exact hf.reshapes hshape (hlink call (Option.mem_def.mpr hcall) p' (Option.mem_def.mpr hs))
  exact (Run.run_invariant hstep ⟨confined_startOps be _ calls, forest_createFolder hs₀ folder⟩ hok).2

end Runs

/-! ### Two directories -/

/-- A database with one device of one user and no folder yet. -/
def newDb : Db where
  devices := [{ deviceId := "d", userId := some "u" }]

theorem newDb_forest : newDb.Forest where
  folder n r hr := by cases hr
  parent n r p hr _ := by cases hr
  root n r hr := by cases hr
  unique folderId a b ha _ := by
    obtain ⟨r, hr, -⟩ := ha
    cases hr

def newFolder : FolderCall where
  principal := .device "d"
  folderId := "f"
  rootNodeId := "root"
  grantId := "g"

/-- A call of the device on the new folder. -/
def treeCall (op : SubmitOpRequest) : SubmitCall where
  folderId := "f"
  principal := .device "d"
  op := op
  newId := ""
  now := 0
  request := 0

/-- A directory is made in the root, another one in it, and that one is moved to the root. -/
def outCalls : List SubmitCall :=
  [treeCall (.create "a" "root" "a" .folder), treeCall (.create "b" "a" "b" .folder),
    treeCall (.mutate "b" 2 (.move "root"))]

/-- One call after the other. -/
def inTurn (calls : List SubmitCall) : List ℕ := (List.range calls.length).flatMap (List.replicate 30)

/-- The new parent of a move has no parent itself. -/
def Db.linksToRoot (s : Db) (call : SubmitCall) : Bool :=
  match call.op with
  | .create _ parentId _ _ => s.folderNode call.folderId parentId
  | .mutate n _ m => m.newParentId.all fun p =>
      ((s.node n).any fun r => s.folderNode r.folderId p) && (s.parentOf p = none && p ≠ n)

theorem linksWell_of_linksToRoot {s : Db} {call : SubmitCall} (h : s.linksToRoot call = true) :
    s.LinksWell call := by
  rw [Db.linksToRoot] at h
  rw [Db.LinksWell]
  cases hop : call.op with
  | create n parentId name type =>
    rw [hop] at h
    exact h
  | mutate n b m =>
    rw [hop] at h
    intro p hp
    have hall := Option.all_eq_true _ _ |>.mp h p hp
    rw [Bool.and_eq_true, Bool.and_eq_true, decide_eq_true_eq, decide_eq_true_eq] at hall
    obtain ⟨hfolder, hroot, hne⟩ := hall
    obtain ⟨r, hr, hnode⟩ := (Option.any_eq_true _ _).mp hfolder
    exact ⟨r, hr, hnode, fun hreach => hne (eq_of_root hroot hreach).symm⟩

/-- Every move of the run goes to a root. -/
def linksSeen (calls : List SubmitCall) (p : Pool Db DbKey ApiError SubmitOpResponse) (i : ℕ) : Prop :=
  (((tagCalls calls)[i]?).all fun call => (p.step i).all fun p' =>
    p'.state.parentOf call.op.nodeId = p.state.parentOf call.op.nodeId || p.state.linksToRoot call) = true

instance (calls : List SubmitCall) (p : Pool Db DbKey ApiError SubmitOpResponse) (i : ℕ) :
    Decidable (linksSeen calls p i) := inferInstanceAs (Decidable (_ = _))

theorem linksOk_of_seen {calls : List SubmitCall} {p : Pool Db DbKey ApiError SubmitOpResponse} {i : ℕ}
    (h : linksSeen calls p i) : LinksOk calls p i := by
  intro call hcall p' hp' hchange
  have hcalls := (Option.all_eq_true _ _).mp h call hcall
  have hstep := (Option.all_eq_true _ _).mp hcalls p' hp'
  rw [Bool.or_eq_true, decide_eq_true_eq] at hstep
  rcases hstep with hsame | hlinks
  · exact absurd hsame hchange
  · exact linksWell_of_linksToRoot hlinks

theorem submitOp_forest_out :
    ((startOps .pg ((createFolder .pg newFolder).exec newDb none).1 outCalls).run (inTurn outCalls)).state.Forest := by
  have hseen : (startOps .pg ((createFolder .pg newFolder).exec newDb none).1 outCalls).Along
      (linksSeen outCalls) (inTurn outCalls) := by decide +kernel
  exact submitOp_forest .pg newDb newDb_forest newFolder outCalls (inTurn outCalls)
    (hseen.mono fun _ _ => linksOk_of_seen)

/-- Two directories are made in the root, and each is moved into the other. -/
def cycleCalls : List SubmitCall :=
  [treeCall (.create "a" "root" "a" .folder), treeCall (.create "b" "root" "b" .folder),
    treeCall (.mutate "a" 1 (.move "b")), treeCall (.mutate "b" 2 (.move "a"))]

/-- Two nodes that are each other's parents reach nothing else. -/
theorem reaches_of_cycle {up : String → Option String} {a b c : String} (ha : up a = some b)
    (hb : up b = some a) (h : Reaches up a c) : c = a ∨ c = b := by
  induction h with
  | refl => exact .inl rfl
  | tail _ hlink ih =>
    rcases ih with rfl | rfl
    · exact .inr (Option.some.inj (hlink.symm.trans ha))
    · exact .inl (Option.some.inj (hlink.symm.trans hb))

/-- The database once all four calls have returned. -/
def cycleDb : Db :=
  ((startOps .pg ((createFolder .pg newFolder).exec newDb none).1 cycleCalls).run (inTurn cycleCalls)).state

/-- The two directories are each other's parents, and neither reaches the root. -/
theorem submitOp_builds_cycle : newDb.Forest ∧ ¬ cycleDb.Forest := by
  refine ⟨newDb_forest, fun hf => ?_⟩
  have hup : cycleDb.parentOf "a" = some "b" ∧ cycleDb.parentOf "b" = some "a" := by decide +kernel
  obtain ⟨r, hr, -⟩ := parentOf_some hup.1
  obtain ⟨c, ⟨rc, hrc, -, hroot⟩, hreach⟩ := hf.root "a" r hr
  have hparent : cycleDb.parentOf c = none := (parentOf_of_node hrc).trans hroot
  rcases reaches_of_cycle hup.1 hup.2 hreach with rfl | rfl
  · exact absurd (hparent.symm.trans hup.1) nofun
  · exact absurd (hparent.symm.trans hup.2) nofun

end Valv.Server
