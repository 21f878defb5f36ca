import Mathlib.Data.Finset.Card
import Valv.Server.Issue
import Valv.Server.Tree

/-!
# What a principal is shown

`pullTree` and `pullDelta` serve one subtree of a folder, `checkGrant` judges one node at a time.

* `mem_subtree_iff`: in a tree, the recursive query finds everything below its scope.
* `Db.entry`: the scope that the two endpoints serve, told from the rows of the principal.
* `ReadsAgree`: a node is shown, and its ops are, as `checkGrant` decides.
* `reads_agree`: that is so for all nodes of a folder just when each of the principal's grants allows
  read inside the served subtree and nowhere else, and no node is too deep below it.
* `reads_disagree`: with two grants next to each other one of them is not served.
-/

namespace Valv.Server

open Valv.Conc Valv.Table Valv.Forest StateTransition

/-! ### The subtree of a scope -/

section Subtree

variable {s : Db} {n m p folderId : String} {r : NodeRow}

/-- A tree has no cycle. -/
theorem Db.Forest.acyclic (hf : s.Forest) (hup : s.parentOf n = some p) : ¬ Reaches s.parentOf p n := by
  intro hcycle
  obtain ⟨r, hr, -⟩ := parentOf_some hup
  obtain ⟨a, ⟨ra, hra, -, hroot⟩, hreach⟩ := hf.root n r hr
  -- everything that `n` reaches, it reaches from its parent too, and so do not get to a root
  have hback : ∀ b, Reaches s.parentOf n b → Reaches s.parentOf b n := by
    intro b hb
    induction hb with
    | refl => exact Reaches.refl n
    | @tail b c _ hlink ih =>
      rcases Relation.ReflTransGen.cases_head ih with he | ⟨d, hd, hdn⟩
      · subst he
        cases hlink.symm.trans hup
        exact hcycle
      · cases hd.symm.trans hlink
        exact hdn
  have hna : n = a := eq_of_root ((parentOf_of_node hra).trans hroot) (hback a hreach)
  rw [hna, parentOf_of_node hra, hroot] at hup
  cases hup

open Classical in
/-- The nodes above a node, itself among them. -/
noncomputable def Db.above (s : Db) (n : String) : Finset String :=
  (s.nodes.map NodeRow.nodeId).toFinset.filter fun m => Reaches s.parentOf n m

theorem mem_above (hr : s.node m = some r) : m ∈ s.above n ↔ Reaches s.parentOf n m := by
  have hmem : m ∈ s.nodes.map NodeRow.nodeId := by
    rw [← lookup_key hr]
    exact List.mem_map_of_mem (mem_of_lookup hr)
  simp only [Db.above, Finset.mem_filter, List.mem_toFinset, hmem, true_and]

theorem above_card_le (n : String) : (s.above n).card ≤ s.nodes.length := by
  have hle : (s.above n).card ≤ (s.nodes.map NodeRow.nodeId).toFinset.card := by
    refine Finset.card_le_card fun m hm => ?_
    simp only [Db.above, Finset.mem_filter] at hm
    exact hm.1
  have hlen : (s.nodes.map NodeRow.nodeId).toFinset.card ≤ (s.nodes.map NodeRow.nodeId).length :=
    List.toFinset_card_le _
  simp only [List.length_map] at hlen
  omega

/-- There is one node more above a child than above its parent. -/
theorem above_card_lt (hf : s.Forest) (hup : s.parentOf n = some p) : (s.above p).card < (s.above n).card := by
  obtain ⟨r, hr, -⟩ := parentOf_some hup
  refine Finset.card_lt_card ⟨fun m hm => ?_, fun hsub => ?_⟩
  · simp only [Db.above, Finset.mem_filter] at hm ⊢
    exact ⟨hm.1, Reaches.step hup hm.2⟩
  · have hself : n ∈ s.above n := (mem_above hr).mpr (Reaches.refl n)
    exact hf.acyclic hup ((mem_above hr).mp (hsub hself))

theorem mem_levels (hf : s.Forest) {fuel : ℕ} {level : List String} (h : Reaches s.parentOf n m)
    (hm : m ∈ level) (hfuel : (s.above n).card < fuel + (s.above m).card) : n ∈ s.levels fuel level := by
  induction h generalizing fuel level with
  | refl =>
    obtain ⟨fuel, rfl⟩ : ∃ f, fuel = f + 1 := ⟨fuel - 1, by omega⟩
    rw [Db.levels, if_neg (List.ne_nil_of_mem hm)]
    exact List.mem_append_left _ hm
  | @tail c m hnc hlink ih =>
    have hlt := above_card_lt hf hlink
    have hsub : (s.above c).card ≤ (s.above n).card := by
      refine Finset.card_le_card fun a ha => ?_
      simp only [Db.above, Finset.mem_filter] at ha ⊢
      exact ⟨ha.1, hnc.trans ha.2⟩
    obtain ⟨fuel, rfl⟩ : ∃ f, fuel = f + 1 := ⟨fuel - 1, by omega⟩
    rw [Db.levels, if_neg (List.ne_nil_of_mem hm)]
    refine List.mem_append_right _ (ih ?_ (by omega))
    obtain ⟨r, hr, hp⟩ := parentOf_some hlink
    refine List.mem_map.mpr ⟨r, List.mem_filter.mpr ⟨mem_of_lookup hr, ?_⟩, lookup_key hr⟩
    simp [hp, hm]

/-- **The recursive query**: in a tree it finds the nodes below the scope, and no others. -/
theorem mem_subtree_iff (hk : s.NodeKeys) (hf : s.Forest) (hr : s.node n = some r) :
    n ∈ s.subtree m ↔ Reaches s.parentOf n m := by
  refine ⟨reaches_of_mem_subtree hk, fun h => ?_⟩
  obtain ⟨rm, hrm, -⟩ := hf.above h hr
  have hself : m ∈ s.above m := (mem_above hrm).mpr (Reaches.refl m)
  have hpos := Finset.card_pos.mpr ⟨m, hself⟩
  have hle := above_card_le (s := s) n
  rw [Db.subtree, hrm]
  exact mem_levels hf h (by simp) (by omega)

/-- Every node of the subtree has a row. -/
theorem node_of_mem_subtree (hk : s.NodeKeys) (h : n ∈ s.subtree m) : ∃ r, s.node n = some r := by
  obtain ⟨a, ha, hreach⟩ := reaches_of_mem_levels hk h
  split at ha
  · next hscope =>
    rw [List.mem_singleton] at ha
    subst ha
    rcases Relation.ReflTransGen.cases_head hreach with rfl | ⟨p, hup, -⟩
    · exact Option.isSome_iff_exists.mp hscope
    · obtain ⟨r, hr, -⟩ := parentOf_some hup
      exact ⟨r, hr⟩
  · cases ha

end Subtree

/-! ### The served scope -/

/-- The scope of a grant that was found. -/
def AuthzResult.scope : AuthzResult → Option String
  | .granted _ scopeNodeId _ => some scopeNodeId
  | .denied _ => none

namespace Db

/-- The first of the principal's rows in a folder. -/
def firstGrant (s : Db) (folderId : String) (principal : Principal) : Option FolderGrantRow :=
  s.folderGrants.find? fun g => g.folderId = folderId && s.grantee principal g

/-- The node whose subtree the principal is shown: the root, when a grant on the root allows read, and
the scope of the first row otherwise. -/
def entry (s : Db) (folderId : String) (principal : Principal) : Option String :=
  (truthy (s.folderRoot folderId)).bind fun rootNodeId =>
    if (s.grantAt folderId rootNodeId principal).any fun g => g.allows .read then some rootNodeId
    else ((s.firstGrant folderId principal).filter fun g => g.allows .read).map FolderGrantRow.scopeNodeId

end Db

section Entry

variable {s : Db} {folderId n : String} {principal : Principal}

theorem folderRoot_some (hk : s.NodeKeys) {root : String} (h : s.folderRoot folderId = some root) :
    s.IsRoot folderId root := by
  obtain ⟨r, hfind, rfl⟩ := Option.map_eq_some_iff.mp h
  have hcond := List.find?_some hfind
  rw [Bool.and_eq_true, decide_eq_true_eq, Option.isNone_iff_eq_none] at hcond
  exact ⟨r, lookup_of_mem hk (List.mem_of_find?_eq_some hfind), hcond⟩

theorem scope_grantResult (g : FolderGrantRow) (require : GrantRequirement) :
    (grantResult g require).scope = if g.allows require then some g.scopeNodeId else none := by
  rw [grantResult_eq]
  split <;> rfl

/-- `checkGrant` on a root looks at the root's own grant only. -/
theorem authz_root {root : String} {require : GrantRequirement} (hne : root ≠ "") (h : s.IsRoot folderId root) :
    s.authz root principal require =
      ((s.grantAt folderId root principal).map (grantResult · require)).getD (.denied .noGrant) := by
  obtain ⟨r, hr, hfolder, hparent⟩ := h
  have hid : r.nodeId = root := lookup_key hr
  rw [Db.authz, hr]
  show s.walk r.folderId principal require maxGrantWalkDepth (some r.nodeId) r.parentId = _
  rw [hfolder, hid, hparent, maxGrantWalkDepth, Db.walk, truthy_of_ne hne]
  dsimp only
  cases s.grantAt folderId root principal with
  | none => rfl
  | some g => rfl

variable (principal) in
/-- **What `readableGrantForFolder` lets in**: the scope is the one of `entry`. -/
theorem readable_scope (hk : s.NodeKeys) {root : String} (hroot : s.folderRoot folderId = some root)
    (hne : root ≠ "") : (s.readable folderId root principal).scope = s.entry folderId principal := by
  have hfirst : (s.folderGrants.find? fun g => g.folderId = folderId && s.grantee principal g) =
      s.firstGrant folderId principal := rfl
  rw [Db.entry, hroot, truthy_of_ne hne, Option.bind_some, Db.readable,
    authz_root hne (folderRoot_some hk hroot), hfirst]
  cases hat : s.grantAt folderId root principal with
  | none =>
    show AuthzResult.scope _ = _
    cases hg : s.firstGrant folderId principal with
    | none => rfl
    | some g => simp [scope_grantResult, Option.filter_some]
  | some g =>
    have hscope := (Db.grantAt_some hat).2.1
    simp only [Option.map_some, Option.getD_some, Option.any_some, grantResult_eq g]
    by_cases hallows : g.allows .read = true
    · simp [hallows, hscope, AuthzResult.scope]
    · simp only [hallows]
      cases hg : s.firstGrant folderId principal with
      | none => rfl
      | some g' => simp [scope_grantResult, Option.filter_some]

variable {scopeNodeId : String}

theorem entry_isSome_root (h : s.entry folderId principal = some scopeNodeId) :
    ∃ root, s.folderRoot folderId = some root ∧ root ≠ "" := by
  rw [Db.entry] at h
  obtain ⟨root, hroot, -⟩ := Option.bind_eq_some_iff.mp h
  refine ⟨root, truthy_some hroot, fun hnil => ?_⟩
  rw [truthy_some hroot, hnil] at hroot
  cases hroot

/-- The checks of both endpoints come out as `entry` says. -/
theorem runBody_readScope (hk : s.NodeKeys) (h : s.entry folderId principal = some scopeNodeId) :
    (readScope folderId principal).runBody s = (s, .ok scopeNodeId) := by
  obtain ⟨root, hroot, hne⟩ := entry_isSome_root h
  have hread : (getFolderRoot folderId).runBody s = (s, .ok (s.folderRoot folderId)) := rfl
  rw [readScope, Proc.runBody_bind_of_ok hread, hroot, truthy_of_ne hne]
  dsimp only
  rw [Proc.runBody_bind_of_ok (runBody_readableGrantForFolder s folderId root principal)]
  have hscope := readable_scope principal hk hroot hne
  rw [h] at hscope
  cases hres : s.readable folderId root principal with
  | denied reason =>
    rw [hres] at hscope
    cases hscope
  | granted grantId scope canWrite =>
    rw [hres] at hscope
    cases hscope
    rfl

theorem runBody_readScope_error (hk : s.NodeKeys) (h : s.entry folderId principal = none) :
    ∃ e, (readScope folderId principal).runBody s = (s, .error e) := by
  have hread : (getFolderRoot folderId).runBody s = (s, .ok (s.folderRoot folderId)) := rfl
  rw [readScope, Proc.runBody_bind_of_ok hread]
  cases htruthy : truthy (s.folderRoot folderId) with
  | none => exact ⟨_, rfl⟩
  | some root =>
    have hroot := truthy_some htruthy
    have hne : root ≠ "" := by
      rintro rfl
      rw [hroot] at htruthy
      cases htruthy
    dsimp only
    rw [Proc.runBody_bind_of_ok (runBody_readableGrantForFolder s folderId root principal)]
    have hscope := readable_scope principal hk hroot hne
    rw [h] at hscope
    cases hres : s.readable folderId root principal with
    | denied reason => exact ⟨_, rfl⟩
    | granted grantId scope canWrite =>
      rw [hres] at hscope
      cases hscope

theorem runBody_pullTree (hk : s.NodeKeys) (h : s.entry folderId principal = some scopeNodeId) :
    (pullTree folderId principal).runBody s =
      (s, .ok (treeResponse scopeNodeId (s.treeRows folderId scopeNodeId) (s.folderHeadSeq folderId))) := by
  rw [pullTree, Proc.runBody_bind_of_ok (runBody_readScope hk h)]
  rfl

theorem runBody_pullDelta (hk : s.NodeKeys) (h : s.entry folderId principal = some scopeNodeId) (since : ℕ) :
    (pullDelta folderId principal since).runBody s =
      (s, .ok (deltaResponse (s.deltaRows folderId scopeNodeId since) (s.folderHeadSeq folderId))) := by
  rw [pullDelta, Proc.runBody_bind_of_ok (runBody_readScope hk h)]
  rfl

theorem runBody_pull_error (hk : s.NodeKeys) (h : s.entry folderId principal = none) :
    (∃ e, (pullTree folderId principal).runBody s = (s, .error e)) ∧
    ∀ since, ∃ e, (pullDelta folderId principal since).runBody s = (s, .error e) := by
  obtain ⟨e, he⟩ := runBody_readScope_error hk h
  refine ⟨⟨e, ?_⟩, fun since => ⟨e, ?_⟩⟩
  · rw [pullTree, Proc.runBody_bind, he]
  · rw [pullDelta, Proc.runBody_bind, he]

end Entry

/-! ### Shown and granted -/

/-- The tree answer lists the node. -/
def Db.Listed (s : Db) (folderId : String) (principal : Principal) (n : String) : Prop :=
  ∃ resp, ((pullTree folderId principal).runBody s).2 = .ok resp ∧ n ∈ resp.nodes.map NodeSnapshot.nodeId

/-- **The endpoints agree with `checkGrant` on a node.**  It is listed if it is granted for reading, and
only then; each of its ops comes with every page that starts before it and does not end before it; and
when it is not granted no page has an op of it. -/
structure ReadsAgree (s : Db) (folderId : String) (principal : Principal) (n : String) : Prop where
  listed : s.Listed folderId principal n ↔ s.grants n principal .read = true
  opsServed : s.grants n principal .read = true → ∀ e ∈ s.opLog, e.folderId = folderId → e.nodeId = n →
    ∀ since, since < e.serverSeq → ∃ resp, ((pullDelta folderId principal since).runBody s).2 = .ok resp ∧
      (e.entry ∈ resp.ops ∨ resp.upToSeq < e.serverSeq)
  opsHidden : s.grants n principal .read ≠ true → ∀ since resp,
    ((pullDelta folderId principal since).runBody s).2 = .ok resp → ∀ o ∈ resp.ops, o.nodeId ≠ n

/-- The node is in the subtree that the endpoints serve. -/
def Db.Entered (s : Db) (folderId : String) (principal : Principal) (n : String) : Prop :=
  ∃ scopeNodeId, s.entry folderId principal = some scopeNodeId ∧ Reaches s.parentOf n scopeNodeId

/-- **The condition**: the grant that `checkGrant` finds on a node of the folder allows read inside the
served subtree and nowhere else, and every served node is less than `MAX_GRANT_WALK_DEPTH` levels below
a node with a grant. -/
structure Db.OneScope (s : Db) (folderId : String) (principal : Principal) : Prop where
  scopes : ∀ m r g, s.node m = some r → r.folderId = folderId → m ≠ "" →
    s.grantAt folderId m principal = some g → (g.allows .read = true ↔ s.Entered folderId principal m)
  depth : ∀ n r, s.node n = some r → r.folderId = folderId → s.Entered folderId principal n →
    ∃ k m, k < maxGrantWalkDepth ∧ s.Climbs k n m ∧ (s.grantAt folderId m principal).isSome

section Agree

variable {s : Db} {folderId n m : String} {principal : Principal} {r : NodeRow}

theorem Db.Climbs.reaches {k : ℕ} (h : s.Climbs k n m) : Reaches s.parentOf n m := by
  induction h with
  | here _ => exact Reaches.refl _
  | up _ hup _ _ ih => exact Reaches.step hup ih

theorem Db.Climbs.end_ne_nil {k : ℕ} (h : s.Climbs k n m) : m ≠ "" := by
  induction h with
  | here hn => exact hn
  | up _ _ _ _ ih => exact ih

theorem nearest_self {fuel : ℕ} {g : FolderGrantRow} (hne : n ≠ "") (hat : s.grantAt folderId n principal = some g) :
    s.nearest folderId principal (fuel + 1) n = some g := by
  rw [Db.nearest, if_neg hne, hat]

/-- The grants that `checkGrant` finds for a node. -/
theorem grants_iff_of_node (hr : s.node n = some r) (hfolder : r.folderId = folderId) :
    s.grants n principal .read = true ↔
      ∃ g, s.nearest folderId principal maxGrantWalkDepth n = some g ∧ g.allows .read = true := by
  rw [grants_iff_nearest]
  constructor
  · rintro ⟨r', g, hr', hg, hallows⟩
    cases hr.symm.trans hr'
    exact ⟨g, hfolder ▸ hg, hallows⟩
  · rintro ⟨g, hg, hallows⟩
    exact ⟨r, g, hr, hfolder ▸ hg, hallows⟩

/-- The scope that is served has a grant. -/
theorem entry_grant {scopeNodeId : String} (h : s.entry folderId principal = some scopeNodeId) :
    (s.grantAt folderId scopeNodeId principal).isSome := by
  rw [Db.entry] at h
  obtain ⟨root, -, hscope⟩ := Option.bind_eq_some_iff.mp h
  split at hscope
  · next hany =>
    cases hscope
    obtain ⟨g, hg, -⟩ := (Option.any_eq_true _ _).mp hany
    simp [hg]
  · obtain ⟨g, hg, rfl⟩ := Option.map_eq_some_iff.mp hscope
    have hfirst := (Option.filter_eq_some_iff.mp hg).1
    have hcond := List.find?_some hfirst
    rw [Bool.and_eq_true, decide_eq_true_eq] at hcond
    rw [Db.grantAt, List.find?_isSome]
    exact ⟨g, List.mem_of_find?_eq_some hfirst, by simp [hcond]⟩

theorem listed_iff (hk : s.NodeKeys) (hf : s.Forest) (hr : s.node n = some r) (hfolder : r.folderId = folderId) :
    s.Listed folderId principal n ↔ s.Entered folderId principal n := by
  rw [Db.Listed, Db.Entered]
  cases hentry : s.entry folderId principal with
  | none =>
    obtain ⟨⟨e, he⟩, -⟩ := runBody_pull_error hk hentry
    rw [he]
    simp
  | some scope =>
    rw [runBody_pullTree hk hentry]
    simp only [Except.ok.injEq, exists_eq_left', Option.some.injEq]
    have hid : r.nodeId = n := lookup_key hr
    rw [← mem_subtree_iff hk hf hr, treeResponse]
    simp only [List.map_map, List.mem_map, Function.comp, mem_treeRows]
    constructor
    · rintro ⟨r', ⟨-, -, hsub⟩, rfl⟩
      exact hsub
    · intro hsub
      exact ⟨r, ⟨mem_of_lookup hr, hfolder, hid ▸ hsub⟩, hid⟩

/-- **The two agree on every node as soon as they agree on the shown ones.** -/
theorem readsAgree_of_entered (hk : s.NodeKeys) (hseqs : s.opSeqs.Nodup) (hf : s.Forest) (hr : s.node n = some r)
    (hfolder : r.folderId = folderId)
    (h : s.Entered folderId principal n ↔ s.grants n principal .read = true) : ReadsAgree s folderId principal n where
  listed := (listed_iff hk hf hr hfolder).trans h
  opsServed hgrant e he hefolder hnode since hsince := by
    obtain ⟨scope, hentry, hreach⟩ := h.mpr hgrant
    rw [runBody_pullDelta hk hentry]
    refine ⟨_, rfl, ?_⟩
    have hservable : e ∈ s.servable folderId scope since :=
      mem_servable.mpr ⟨he, hefolder, hsince, hnode ▸ (mem_subtree_iff hk hf hr).mpr hreach⟩
    -- the op is on the page unless the page ends before it
    by_cases hlast : ∀ l, (s.deltaRows folderId scope since).getLast? = some l → e.serverSeq ≤ l.serverSeq
    · exact .inl (List.mem_map_of_mem (deltaRows_complete hseqs hservable hlast))
    · simp only [not_forall, not_le] at hlast
      obtain ⟨l, hl, hlt⟩ := hlast
      refine .inr ?_
      show ((s.deltaRows folderId scope since).getLast?.map OpLogRow.serverSeq).getD _ < e.serverSeq
      rw [hl]
      exact hlt
  opsHidden hgrant since resp hresp o ho hnode := by
    refine hgrant (h.mp ?_)
    cases hentry : s.entry folderId principal with
    | none =>
      obtain ⟨e, he⟩ := (runBody_pull_error hk hentry).2 since
      rw [he] at hresp
      cases hresp
    | some scope =>
      rw [runBody_pullDelta hk hentry] at hresp
      cases hresp
      obtain ⟨e, he, rfl⟩ := List.mem_map.mp ho
      have hmem := (List.mem_insertionSort bySeq).mp (List.mem_of_mem_take he)
      obtain ⟨-, -, -, hsub⟩ := mem_servable.mp hmem
      have hnode' : e.nodeId = n := hnode
      exact ⟨scope, hentry, reaches_of_mem_subtree hk (hnode' ▸ hsub)⟩

/-- A walk that starts inside the served subtree ends inside it. -/
theorem nearest_between {scopeNodeId : String} {fuel : ℕ} {g : FolderGrantRow}
    (hentry : s.entry folderId principal = some scopeNodeId) (hreach : Reaches s.parentOf n scopeNodeId)
    (hg : s.nearest folderId principal fuel n = some g) :
    ∃ d, d ≠ "" ∧ Reaches s.parentOf n d ∧ Reaches s.parentOf d scopeNodeId ∧
      s.grantAt folderId d principal = some g := by
  induction hreach using Relation.ReflTransGen.head_induction_on generalizing fuel with
  | refl =>
    obtain ⟨g', hat⟩ := Option.isSome_iff_exists.mp (entry_grant hentry)
    cases fuel with
    | zero => cases hg
    | succ fuel =>
      rw [Db.nearest] at hg
      split at hg
      · cases hg
      next hne =>
      rw [hat] at hg
      cases hg
      exact ⟨scopeNodeId, hne, Reaches.refl _, Reaches.refl _, hat⟩
  | @head n p hlink hrest ih =>
    cases fuel with
    | zero => cases hg
    | succ fuel =>
      rw [Db.nearest] at hg
      split at hg
      · cases hg
      next hne =>
      cases hat : s.grantAt folderId n principal with
      | some g' =>
        rw [hat] at hg
        cases hg
        exact ⟨n, hne, Reaches.refl n, Reaches.step hlink hrest, hat⟩
      | none =>
        rw [hat] at hg
        obtain ⟨q, hq, hcont⟩ := Option.bind_eq_some_iff.mp hg
        cases (truthy_some hq).symm.trans hlink
        split at hcont
        · obtain ⟨d, hd, hpd, hdscope, hatd⟩ := ih hcont
          exact ⟨d, hd, Reaches.step hlink hpd, hdscope, hatd⟩
        · cases hcont

theorem entered_iff_grants (hf : s.Forest) (hone : s.OneScope folderId principal) (hr : s.node n = some r)
    (hfolder : r.folderId = folderId) : s.Entered folderId principal n ↔ s.grants n principal .read = true := by
  rw [grants_iff_of_node hr hfolder]
  constructor
  · rintro ⟨scope, hentry, hreach⟩
    obtain ⟨k, a, hlt, hclimbs, hsome⟩ := hone.depth n r hr hfolder ⟨scope, hentry, hreach⟩
    obtain ⟨g, hg⟩ := Option.isSome_iff_exists.mp (nearest_of_climbs hclimbs hlt hsome)
    obtain ⟨d, hne, hnd, hdscope, hat⟩ := nearest_between hentry hreach hg
    obtain ⟨rd, hrd, hrdFolder⟩ := hf.above hnd hr
    exact ⟨g, hg, (hone.scopes d rd g hrd (hrdFolder.trans hfolder) hne hat).mpr ⟨scope, hentry, hdscope⟩⟩
  · rintro ⟨g, hg, hallows⟩
    obtain ⟨k, d, -, hclimbs, hat⟩ := climbs_of_nearest hg
    have hnd := hclimbs.reaches
    obtain ⟨rd, hrd, hrdFolder⟩ := hf.above hnd hr
    have hne := hclimbs.end_ne_nil
    obtain ⟨scope, hentry, hdscope⟩ := (hone.scopes d rd g hrd (hrdFolder.trans hfolder) hne hat).mp hallows
    exact ⟨scope, hentry, hnd.trans hdscope⟩

/-- **Reads agree with `checkGrant`**, on every node of a folder, exactly when the principal's grants in the
folder come to one scope. -/
theorem reads_agree (s : Db) (hk : s.NodeKeys) (hseqs : s.opSeqs.Nodup) (hf : s.Forest) (principal : Principal)
    (folderId : String) :
    (∀ n r, s.node n = some r → r.folderId = folderId → ReadsAgree s folderId principal n) ↔
      s.OneScope folderId principal := by
  constructor
  · intro h
    have hagree : ∀ n r, s.node n = some r → r.folderId = folderId →
        (s.Entered folderId principal n ↔ s.grants n principal .read = true) := fun n r hr hfolder =>
      (listed_iff hk hf hr hfolder).symm.trans (h n r hr hfolder).listed
    refine ⟨fun m r g hr hfolder hne hat => ?_, fun n r hr hfolder hentered => ?_⟩
    · rw [hagree m r hr hfolder, grants_iff_of_node hr hfolder, maxGrantWalkDepth, nearest_self hne hat]
      simp
    · obtain ⟨g, hg, -⟩ := (grants_iff_of_node hr hfolder).mp ((hagree n r hr hfolder).mp hentered)
      obtain ⟨k, m, hk', hclimbs, hat⟩ := climbs_of_nearest hg
      exact ⟨k, m, hk', hclimbs, by simp [hat]⟩
  · intro hone n r hr hfolder
    exact readsAgree_of_entered hk hseqs hf hr hfolder (entered_iff_grants hf hone hr hfolder)

end Agree

/-! ### Two grants -/

/-- A folder with two directories, each with a grant of its own for the user `u`; the user `v` has one
grant on the root. -/
def twoGrants : Db where
  sharedFolders := ["f"]
  folderGrants :=
    [{ grantId := "g", folderId := "f", scopeNodeId := "a", userId := some "u", deviceId := none,
       canRead := true, canWrite := false },
     { grantId := "h", folderId := "f", scopeNodeId := "b", userId := some "u", deviceId := none,
       canRead := true, canWrite := false },
     { grantId := "i", folderId := "f", scopeNodeId := "root", userId := some "v", deviceId := none,
       canRead := true, canWrite := true }]
  nodes :=
    [{ nodeId := "root", folderId := "f", parentId := none, name := "f", type := .folder },
     { nodeId := "a", folderId := "f", parentId := some "root", name := "a", type := .folder },
     { nodeId := "b", folderId := "f", parentId := some "root", name := "b", type := .folder }]

/-- Every node of the folder is the root or right below it. -/
theorem twoGrants_node {n : String} {r : NodeRow} (hr : twoGrants.node n = some r) :
    r.folderId = "f" ∧ ((n = "root" ∧ r.parentId = none) ∨ ((n = "a" ∨ n = "b") ∧ r.parentId = some "root")) := by
  have hid : r.nodeId = n := lookup_key hr
  have hmem : r ∈ twoGrants.nodes := mem_of_lookup hr
  simp only [twoGrants, List.mem_cons, List.not_mem_nil, or_false] at hmem
  rcases hmem with rfl | rfl | rfl <;> simp [← hid]

theorem twoGrants_root : twoGrants.IsRoot "f" "root" := ⟨_, rfl, rfl, rfl⟩

theorem twoGrants_forest : twoGrants.Forest where
  folder n r hr := by
    rw [(twoGrants_node hr).1]
    decide
  parent n r p hr hp := by
    obtain ⟨hfolder, ⟨-, hnone⟩ | ⟨-, hsome⟩⟩ := twoGrants_node hr
    · rw [hnone] at hp
      cases hp
    · rw [hsome] at hp
      cases hp
      rw [hfolder]
      decide
  root n r hr := by
    obtain ⟨hfolder, ⟨rfl, -⟩ | ⟨-, hsome⟩⟩ := twoGrants_node hr
    · exact ⟨"root", hfolder ▸ twoGrants_root, Reaches.refl _⟩
    · exact ⟨"root", hfolder ▸ twoGrants_root,
        Reaches.step ((parentOf_of_node hr).trans hsome) (Reaches.refl _)⟩
  unique folderId a b ha hb := by
    have hroot : ∀ {c : String}, twoGrants.IsRoot folderId c → c = "root" := by
      rintro c ⟨r, hr, -, hnone⟩
      obtain ⟨-, ⟨hc, -⟩ | ⟨-, hsome⟩⟩ := twoGrants_node hr
      · exact hc
      · rw [hsome] at hnone
        cases hnone
    rw [hroot ha, hroot hb]

/-- The user with the one grant is shown the whole folder, and may read it. -/
theorem reads_agree_root : twoGrants.OneScope "f" (.user "v") ∧
    ReadsAgree twoGrants "f" (.user "v") "b" := by
  have hkeys : twoGrants.NodeKeys := by
    rw [Db.NodeKeys]
    decide
  have hentry : twoGrants.entry "f" (.user "v") = some "root" := by decide
  have hat : ∀ m g, twoGrants.grantAt "f" m (.user "v") = some g → g.allows .read = true := by
    intro m g hg
    have hmem := (Db.grantAt_some hg).1
    simp only [twoGrants, List.mem_cons, List.not_mem_nil, or_false] at hmem
    rcases hmem with rfl | rfl | rfl <;> rfl
  have hentered : ∀ n r, twoGrants.node n = some r → twoGrants.Entered "f" (.user "v") n := by
    intro n r hr
    obtain ⟨a, ha, hreach⟩ := twoGrants_forest.root n r hr
    rw [(twoGrants_node hr).1] at ha
    rw [twoGrants_forest.unique "f" a "root" ha twoGrants_root] at hreach
    exact ⟨"root", hentry, hreach⟩
  have hroot : twoGrants.Climbs 0 "root" "root" := .here (by decide)
  have hone : twoGrants.OneScope "f" (.user "v") := by
    refine ⟨fun m r g hr _ _ hg => ⟨fun _ => hentered m r hr, fun _ => hat m g hg⟩, fun n r hr _ _ => ?_⟩
    obtain ⟨-, ⟨rfl, -⟩ | ⟨hn, hsome⟩⟩ := twoGrants_node hr
    · exact ⟨0, "root", by decide, hroot, by decide⟩
    · refine ⟨1, "root", by decide, .up ?_ ((parentOf_of_node hr).trans hsome) (by decide) hroot, by decide⟩
      rcases hn with rfl | rfl <;> decide
  exact ⟨hone, (reads_agree twoGrants hkeys (by decide) twoGrants_forest (.user "v") "f").mpr hone "b" _ rfl rfl⟩

/-- **What is granted is not shown**: the second of two directories is missing from the tree answer. -/
theorem reads_disagree : twoGrants.NodeKeys ∧ twoGrants.opSeqs.Nodup ∧ twoGrants.Forest ∧
    ¬ ∀ n r, twoGrants.node n = some r → r.folderId = "f" → ReadsAgree twoGrants "f" (.user "u") n := by
  refine ⟨by rw [Db.NodeKeys]; decide, by decide, twoGrants_forest, fun h => ?_⟩
  obtain ⟨resp, hresp, hmem⟩ := (h "b" _ rfl rfl).listed.mpr (by decide)
  have hnodes : resp.nodes.map NodeSnapshot.nodeId = ["a"] := by
    cases hresp
    decide
  rw [hnodes] at hmem
  simp at hmem

end Valv.Server
