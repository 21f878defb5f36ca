import Mathlib.Data.List.Find
import Valv.Server.Edit

/-!
# Grants and their issuers

A request that adds a grant has a user behind it: the one who asks for a key, or who made the
invite that is accepted.  The grant should let nobody do with a node of the folder what that user
was not himself granted at the time.

* `Through`: a grant is what `checkGrant`, or `readableGrantForFolder`, lets a principal in by.
* `Bounded`: nobody is let in by the grant where the issuing user was not.
* `Ledger`: the database and, as a ghost, the databases in which the invites were made.
* `grants_bounded`: when every grant asked for is `Covered` by the user's own, every new grant is
  bounded, and each is scoped to a node of its folder.
* `grants_cross_folders`: without that, a stranger issues a key for a folder.
-/

namespace Valv.Server

open Valv.Conc Valv.Table Valv.Forest StateTransition

/-! ### What a grant is good for -/

/-- `readableGrantForFolder`. -/
def Db.readable (s : Db) (folderId rootNodeId : String) (principal : Principal) : AuthzResult :=
  match s.authz rootNodeId principal .read with
  | .granted grantId scopeNodeId canWrite => .granted grantId scopeNodeId canWrite
  | .denied reason =>
    match s.folderGrants.find? fun g => g.folderId = folderId && s.grantee principal g with
    | none => .denied reason
    | some g => grantResult g .read

theorem runBody_readableGrantForFolder (s : Db) (folderId rootNodeId : String) (principal : Principal) :
    (readableGrantForFolder folderId rootNodeId principal).runBody s =
      (s, .ok (s.readable folderId rootNodeId principal)) := by
  rw [readableGrantForFolder, Proc.runBody_bind_of_ok (runBody_checkGrant _ _ _), Db.readable]
  cases s.authz rootNodeId principal .read with
  | granted grantId scopeNodeId canWrite => rfl
  | denied reason =>
    have huser : (principalUserId principal).runBody s = (s, .ok (s.principalUser principal)) := by
      cases principal <;> rfl
    dsimp only
    rw [Proc.runBody_bind_of_ok huser, Proc.runBody_bind_of_ok (Proc.runBody_read _ s)]
    have hgrantee : (fun g : FolderGrantRow => decide (g.folderId = folderId) &&
        principalCondition principal (s.principalUser principal) g) =
        fun g => decide (g.folderId = folderId) && s.grantee principal g := rfl
    rw [hgrantee]
    cases s.folderGrants.find? fun g => g.folderId = folderId && s.grantee principal g <;> rfl

/-- The grant lets the principal read or write the node: `checkGrant` finds it, or the delta and tree
queries serve the node for it. -/
inductive Db.Through (s : Db) (principal : Principal) (grantId : String) : GrantRequirement → String → Prop
  | checked {n scopeNodeId : String} {require : GrantRequirement} {canWrite : Bool} :
      s.authz n principal require = .granted grantId scopeNodeId canWrite → Through s principal grantId require n
  | served {n root scopeNodeId : String} {r : NodeRow} {canWrite : Bool} :
      s.node n = some r → s.folderRoot r.folderId = some root →
      s.readable r.folderId root principal = .granted grantId scopeNodeId canWrite →
      n ∈ s.subtree scopeNodeId → Through s principal grantId .read n

/-- Every grant is scoped to a node of its folder. -/
def Db.scopesInside (s : Db) : Prop :=
  ∀ g ∈ s.folderGrants, (s.node g.scopeNodeId).any (fun r => r.folderId = g.folderId) = true

instance (s : Db) : Decidable s.scopesInside := inferInstanceAs (Decidable (∀ g ∈ s.folderGrants, _))

/-- **The bound on a new grant**, issued by the user `u` in `t`: he had a grant in the folder, and
where the new one lets somebody in, he was granted the same. -/
structure Bounded (t s : Db) (u : String) (g : FolderGrantRow) : Prop where
  holds : ∃ g' ∈ t.folderGrants, g'.folderId = g.folderId ∧ t.grantee (.user u) g' = true
  within : ∀ principal require n, s.Through principal g.grantId require n → t.grants n (.user u) require = true

/-! ### The condition -/

/-- The grants of the user `u` in `t` cover the grant `g` that is added in `s`.

* Its scope is a node of its folder.
* No grant of his below the scope allows less.
* No node below the scope is `MAX_GRANT_WALK_DEPTH` levels or more below his grants.
* Since `t`, no node has come to another place below the scope. -/
structure Covered (t s : Db) (u : String) (g : FolderGrantRow) : Prop where
  folder : (s.node g.scopeNodeId).any (fun r => r.folderId = g.folderId) = true
  narrower : ∀ d g', d ≠ g.scopeNodeId → Reaches t.parentOf d g.scopeNodeId →
    t.grantAt g.folderId d (.user u) = some g' → ∀ require, g.allows require = true → g'.allows require = true
  depth : ∀ n r, s.node n = some r → r.folderId = g.folderId → Reaches s.parentOf n g.scopeNodeId →
    ∃ k m, k < maxGrantWalkDepth ∧ t.Climbs k n m ∧ (t.grantAt g.folderId m (.user u)).isSome
  unmoved : ∀ n, n ≠ g.scopeNodeId → Reaches s.parentOf n g.scopeNodeId → t.parentOf n = s.parentOf n

section Bound

variable {t s : Db} {u n : String} {g : FolderGrantRow} {require : GrantRequirement}

/-- What keeps its parent all the way up to `m` is still below it. -/
theorem reaches_of_unmoved {m : String} (h : Reaches s.parentOf n m)
    (hsame : ∀ a, a ≠ m → Reaches s.parentOf a m → t.parentOf a = s.parentOf a) : Reaches t.parentOf n m := by
  induction h using Relation.ReflTransGen.head_induction_on with
  | refl => exact Reaches.refl m
  | @head a p hlink hrest ih =>
    by_cases ham : a = m
    · rw [ham]
      exact Reaches.refl m
    · exact Reaches.step ((hsame a ham (Reaches.step hlink hrest)).trans hlink) ih

/-- **Covered grants are bounded by the issuer's**: a user with write access to the scope is
granted on every node below it what the new grant allows. -/
theorem granted_below (hcov : Covered t s u g) (hwrite : t.grants g.scopeNodeId (.user u) .write = true)
    (hkept : ∀ n r, t.node n = some r → ∃ r', s.node n = some r' ∧ r'.folderId = r.folderId)
    {r : NodeRow} (hr : s.node n = some r) (hfolder : r.folderId = g.folderId)
    (hreach : Reaches s.parentOf n g.scopeNodeId) (hallows : g.allows require = true) :
    t.grants n (.user u) require = true := by
  have hbelow := reaches_of_unmoved hreach hcov.unmoved
  obtain ⟨rS, gS, hrS, hgS, hwriteS⟩ := grants_iff_nearest.mp hwrite
  -- the node was there when the issuer's rights are judged, and in the same folder
  have hnode : ∃ rt, t.node n = some rt := by
    by_cases hn : n = g.scopeNodeId
    · exact ⟨rS, hn ▸ hrS⟩
    · rcases Relation.ReflTransGen.cases_head hbelow with he | ⟨p, hlink, -⟩
      · exact absurd he hn
      · obtain ⟨rt, hrt, -⟩ := Option.bind_eq_some_iff.mp hlink
        exact ⟨rt, hrt⟩
  obtain ⟨rt, hrt⟩ := hnode
  have hfolderOf : ∀ {m : String} {rm rm' : NodeRow}, t.node m = some rm → s.node m = some rm' →
      rm.folderId = rm'.folderId := by
    intro m rm rm' hrm hrm'
    obtain ⟨r', hr', he⟩ := hkept m rm hrm
    cases hr'.symm.trans hrm'
    exact he.symm
  have hrtFolder : rt.folderId = g.folderId := (hfolderOf hrt hr).trans hfolder
  have hrSFolder : rS.folderId = g.folderId := by
    obtain ⟨r', hr', he⟩ := hkept _ _ hrS
    obtain ⟨r'', hr'', hin⟩ := (Option.any_eq_true _ _).mp hcov.folder
    cases hr'.symm.trans hr''
    exact he.symm.trans (decide_eq_true_eq.mp hin)
  obtain ⟨k, m, hk, hclimbs, hm⟩ := hcov.depth n r hr hfolder hreach
  obtain ⟨g', hg'⟩ := Option.isSome_iff_exists.mp (nearest_of_climbs hclimbs hk hm)
  refine grants_iff_nearest.mpr ⟨rt, g', hrt, hrtFolder ▸ hg', ?_⟩
  rcases nearest_below hbelow hg' with ⟨d, hd, hdreach, hat⟩ | ⟨fuel, hle, hscope⟩
  · exact hcov.narrower d g' hd hdreach hat require hallows
  · -- nothing of his is nearer: it is the grant that let him issue this one
    have hsame := nearest_mono hle hscope
    rw [← hrSFolder] at hsame
    cases hsame.symm.trans hgS
    exact FolderGrantRow.allows_of_write hwriteS require

end Bound

/-! ### The kept facts -/

/-- What every history keeps of the grants. -/
structure Db.GrantsKept (s : Db) : Prop where
  keys : s.NodeKeys
  ids : (s.folderGrants.map FolderGrantRow.grantId).Nodup
  scopes : s.scopesInside
  devices : ∀ g ∈ s.folderGrants, ∀ d, g.deviceId = some d → s.userless d

section Kept

variable {s : Db} {n u : String} {g : FolderGrantRow} {principal : Principal} {require : GrantRequirement}

/-- A principal with a user behind it has the grants of the user. -/
theorem grantee_effectiveUser (hk : s.GrantsKept) (hu : s.effectiveUser principal = some u) (hg : g ∈ s.folderGrants) :
    s.grantee principal g = s.grantee (.user u) g := by
  cases principal with
  | user userId =>
    cases truthy_some hu
    rfl
  | device deviceId =>
    have huser : truthy (s.principalUser (.device deviceId)) = some u := hu
    have hne : g.deviceId ≠ some deviceId := by
      intro hd
      obtain ⟨r, hr, hnone⟩ := hk.devices g hg deviceId hd
      have hprincipal : s.principalUser (.device deviceId) = none := by
        rw [Db.principalUser, hr, Option.bind_some, hnone]
      rw [hprincipal] at huser
      cases huser
    rw [Db.grantee, principalCondition, huser]
    simp [Db.grantee, principalCondition, hne]

theorem grantAt_effectiveUser (hk : s.GrantsKept) (hu : s.effectiveUser principal = some u)
    (folderId scopeNodeId : String) :
    s.grantAt folderId scopeNodeId principal = s.grantAt folderId scopeNodeId (.user u) := by
  rw [Db.grantAt, Db.grantAt]
  refine List.find?_congr fun g hg => ?_
  rw [grantee_effectiveUser hk hu hg]

theorem nearest_effectiveUser (hk : s.GrantsKept) (hu : s.effectiveUser principal = some u) (folderId : String)
    (fuel : ℕ) : s.nearest folderId principal fuel n = s.nearest folderId (.user u) fuel n := by
  induction fuel generalizing n with
  | zero => rfl
  | succ fuel ih =>
    rw [Db.nearest, Db.nearest, grantAt_effectiveUser hk hu]
    simp only [ih]

/-- What a principal is granted, the user behind it is. -/
theorem grants_effectiveUser (hk : s.GrantsKept) (hu : s.effectiveUser principal = some u)
    (h : s.grants n principal require = true) : s.grants n (.user u) require = true := by
  obtain ⟨r, g, hr, hg, hallows⟩ := grants_iff_nearest.mp h
  rw [nearest_effectiveUser hk hu] at hg
  exact grants_iff_nearest.mpr ⟨r, g, hr, hg, hallows⟩

/-- Grants have their ids to themselves. -/
theorem eq_of_grantId (hk : s.GrantsKept) {g' : FolderGrantRow} (hg : g ∈ s.folderGrants) (hg' : g' ∈ s.folderGrants)
    (hid : g'.grantId = g.grantId) : g' = g := by
  have h := lookup_of_mem hk.ids hg
  have h' := lookup_of_mem hk.ids hg'
  rw [hid] at h'
  exact Option.some.inj (h'.symm.trans h)

/-- A node of the subtree is below its top. -/
theorem reaches_of_mem_levels (hk : s.NodeKeys) {fuel : ℕ} {level : List String} (h : n ∈ s.levels fuel level) :
    ∃ m ∈ level, Reaches s.parentOf n m := by
  induction fuel generalizing level with
  | zero => cases h
  | succ fuel ih =>
    rw [Db.levels] at h
    split at h
    · cases h
    · rcases List.mem_append.mp h with h | h
      · exact ⟨n, h, Reaches.refl n⟩
      · obtain ⟨m, hm, hreach⟩ := ih h
        obtain ⟨r, hr, rfl⟩ := List.mem_map.mp hm
        obtain ⟨hmem, hany⟩ := List.mem_filter.mp hr
        obtain ⟨p, hp, hlevel⟩ := (Option.any_eq_true _ _).mp hany
        have hlink : s.parentOf r.nodeId = some p := by
          rw [Db.parentOf, Db.node, lookup_of_mem hk hmem, Option.bind_some, hp]
        exact ⟨p, of_decide_eq_true hlevel, hreach.trans (Reaches.step hlink (Reaches.refl p))⟩

theorem reaches_of_mem_subtree (hk : s.NodeKeys) {m : String} (h : n ∈ s.subtree m) : Reaches s.parentOf n m := by
  obtain ⟨a, ha, hreach⟩ := reaches_of_mem_levels hk h
  split at ha
  · rw [List.mem_singleton] at ha
    exact ha ▸ hreach
  · cases ha

/-- Whoever is let in by a grant is below its scope, in its folder, and allowed by it. -/
theorem below_of_through (hk : s.GrantsKept) (hg : g ∈ s.folderGrants)
    (h : s.Through principal g.grantId require n) :
    ∃ r, s.node n = some r ∧ r.folderId = g.folderId ∧ Reaches s.parentOf n g.scopeNodeId ∧
      g.allows require = true := by
  cases h with
  | checked h =>
    obtain ⟨r, g', hr, hby, hid, -, -⟩ := authz_granted h
    cases eq_of_grantId hk hg hby.mem hid
    exact ⟨r, hr, hby.folder.symm, hby.reaches, allows_of_granted hby.allows⟩
  | @served _ root scopeNodeId r canWrite hr hroot hreadable hmem =>
    have hreach := reaches_of_mem_subtree hk.keys hmem
    rw [Db.readable] at hreadable
    split at hreadable
    · next hauthz =>
      cases hreadable
      obtain ⟨rr, g', hrr, hby, hid, hscope, -⟩ := authz_granted hauthz
      cases eq_of_grantId hk hg hby.mem hid
      -- a root of the folder: its row is the one of its id
      obtain ⟨row, hfind, hrow⟩ := Option.map_eq_some_iff.mp hroot
      have hcond := List.find?_some hfind
      rw [Bool.and_eq_true, decide_eq_true_eq] at hcond
      have hsame : rr = row := by
        have hlookup := lookup_of_mem hk.keys (List.mem_of_find?_eq_some hfind)
        rw [hrow] at hlookup
        exact Option.some.inj (hrr.symm.trans hlookup)
      refine ⟨r, hr, ?_, hscope ▸ hreach, allows_of_granted hby.allows⟩
      rw [← hcond.1, ← hsame]
      exact hby.folder.symm
    · split at hreadable
      · cases hreadable
      · next g' hfind =>
        obtain ⟨-, hid, hscope, -⟩ := grantResult_granted hreadable
        have hcond := List.find?_some hfind
        rw [Bool.and_eq_true, decide_eq_true_eq] at hcond
        cases eq_of_grantId hk hg (List.mem_of_find?_eq_some hfind) hid
        exact ⟨r, hr, hcond.1.symm, hscope ▸ hreach, allows_of_granted hreadable⟩

end Kept

/-! ### Steps -/

/-- A change that keeps `GrantsKept`: nodes stay in their folders, devices stay, and new grants
satisfy `adds`. -/
structure GrantStep (adds : FolderGrantRow → Prop) (s s' : Db) : Prop where
  kept : ∀ n r, s.node n = some r → ∃ r', s'.node n = some r' ∧ r'.folderId = r.folderId
  keys : s.NodeKeys → s'.NodeKeys
  devices : KeepsDevices s s'
  ids : (s.folderGrants.map FolderGrantRow.grantId).Nodup → (s'.folderGrants.map FolderGrantRow.grantId).Nodup
  grants : ∀ g ∈ s'.folderGrants, g ∈ s.folderGrants ∨ (adds g ∧ ∀ d, g.deviceId = some d → s'.userless d)

section Steps

variable {be : Backend} {adds adds' : FolderGrantRow → Prop} {invites : FolderInviteRow → Prop} {s s' : Db}

theorem Edit.grantStep (h : Edit adds invites s s') : GrantStep adds s s' where
  kept n r hr := ⟨r, by rw [Db.node, h.nodes]; exact hr, rfl⟩
  keys hk := by
    rw [Db.NodeKeys, h.nodes]
    exact hk
  devices := h.devices
  ids := h.ids
  grants := h.grants

/-- **One step keeps the grants well**, if the new ones are scoped inside their folders. -/
theorem GrantStep.grantsKept (h : GrantStep adds s s') (hk : s.GrantsKept)
    (hadds : ∀ g, adds g → (s'.node g.scopeNodeId).any (fun r => r.folderId = g.folderId) = true) :
    s'.GrantsKept where
  keys := h.keys hk.keys
  ids := h.ids hk.ids
  scopes g hg := by
    rcases h.grants g hg with hold | ⟨hnew, -⟩
    · obtain ⟨r, hr, hfolder⟩ := (Option.any_eq_true _ _).mp (hk.scopes g hold)
      obtain ⟨r', hr', he⟩ := h.kept _ r hr
      have hfolder' : r.folderId = g.folderId := of_decide_eq_true hfolder
      rw [hr']
      exact decide_eq_true (he.trans hfolder')
    · exact hadds g hnew
  devices g hg d hd := by
    rcases h.grants g hg with hold | ⟨-, huserless⟩
    · exact h.devices.userless (hk.devices g hold d hd)
    · exact huserless d hd

theorem grantStep_submitOp (be : Backend) (call : SubmitCall) (s : Db) :
    GrantStep (fun _ => False) s (serve be call s).1 := by
  have hshape := serve_reshapes be call s
  refine ⟨fun n r hr => ?_, serve_keys be call, .of_eq hshape.devices, fun hnd => ?_, fun g hg => .inl ?_⟩
  · obtain ⟨r', hr', hfolder, -, -⟩ := hshape.kept n r hr
    exact ⟨r', hr', hfolder⟩
  · rw [hshape.folderGrants]
    exact hnd
  · rw [← hshape.folderGrants]
    exact hg

/-- A new folder has no grants but its owner's own on the root. -/
def founds (s s' : Db) (g : FolderGrantRow) : Prop :=
  g.folderId ∉ s.sharedFolders ∧ g.userId = g.createdByUserId ∧ g.deviceId = none ∧
    (s'.node g.scopeNodeId).any (fun r => r.folderId = g.folderId) = true

/-- What a step of `POST /folders` has done so far. -/
def Founding (s s' : Db) : Prop :=
  GrantStep (founds s s') s s' ∧ s'.folderInvites = s.folderInvites

theorem founding_same {s' : Db} (hn : s'.nodes = s.nodes) (hd : s'.devices = s.devices)
    (hg : s'.folderGrants = s.folderGrants) (hi : s'.folderInvites = s.folderInvites) : Founding s s' := by
  refine ⟨⟨fun n r hr => ⟨r, by rw [Db.node, hn]; exact hr, rfl⟩, fun hk => ?_, .of_eq hd, fun hnd => ?_,
    fun g hg' => .inl (hg ▸ hg')⟩, hi⟩
  · rw [Db.NodeKeys, hn]
    exact hk
  · rw [hg]
    exact hnd

theorem founding_createFolderBody (call : FolderCall) (ownerUserId : String) :
    Founding s ((createFolderBody be call ownerUserId).runBody s).1 := by
  refine Proc.runBody_stmt_bind (founding_same rfl rfl rfl rfl) fun hcheck => ?_
  have htaken : call.folderId ∉ s.sharedFolders := by
    intro hin
    rw [if_pos hin] at hcheck
    cases hcheck
  rw [Proc.runBody_bind_of_ok (runBody_lockKey _)]
  refine Proc.runBody_stmt_bind (founding_same rfl rfl rfl rfl) fun hcheck₂ => ?_
  have hnew : s.node call.rootNodeId = none := by
    split at hcheck₂
    · cases hcheck₂
    · next hnone => exact Option.not_isSome_iff_eq_none.mp hnone
  have hold : ∀ n r, s.node n = some r → lookup NodeRow.nodeId n (s.nodes ++ [call.root]) = some r := by
    intro n r hr
    rw [Db.node] at hr
    rw [lookup_append, hr]
    rfl
  have hroot : lookup NodeRow.nodeId call.rootNodeId (s.nodes ++ [call.root]) = some call.root := by
    rw [Db.node] at hnew
    have hid : call.root.nodeId = call.rootNodeId := rfl
    rw [lookup_append, hnew, Option.none_or, lookup_cons, if_pos hid]
  have hkeys : s.NodeKeys → ((s.nodes ++ [call.root]).map NodeRow.nodeId).Nodup := by
    intro hk
    rw [Db.node, lookup_eq_none] at hnew
    exact nodup_append hk hnew
  have hfounded : ∀ v : Db, v.nodes = s.nodes ++ [call.root] → v.devices = s.devices →
      v.folderGrants = s.folderGrants → v.folderInvites = s.folderInvites → Founding s v := by
    intro v hn hd hg hi
    refine ⟨⟨fun n r hr => ⟨r, by rw [Db.node, hn]; exact hold n r hr, rfl⟩, fun hk => ?_, .of_eq hd,
      fun hnd => ?_, fun g hg' => .inl (hg ▸ hg')⟩, hi⟩
    · rw [Db.NodeKeys, hn]
      exact hkeys hk
    · rw [hg]
      exact hnd
  refine Proc.runBody_stmt_bind (hfounded _ rfl rfl rfl rfl) fun hcheck₃ => ?_
  refine ⟨⟨fun n r hr => ⟨r, hold n r hr, rfl⟩, hkeys, .of_eq rfl, fun hnd => ?_, fun g hg => ?_⟩, rfl⟩
  · refine nodup_append hnd fun g hg he => ?_
    rw [Db.grantViolation, if_pos (List.any_eq_true.mpr ⟨g, hg, by simpa using he⟩)] at hcheck₃
    cases hcheck₃
  · rcases List.mem_append.mp hg with hg | hg
    · exact .inl hg
    · rw [List.mem_singleton.mp hg]
      refine .inr ⟨⟨htaken, rfl, rfl, ?_⟩, fun d hd => by cases hd⟩
      show (lookup NodeRow.nodeId call.rootNodeId (s.nodes ++ [call.root])).any _ = true
      rw [hroot]
      exact decide_eq_true rfl

theorem founding_createFolder (be : Backend) (call : FolderCall) (s : Db) :
    Founding s ((createFolder be call).exec s none).1 := by
  refine (resolveEffectiveUserId_readOnly call.principal).exec_bind (founding_same rfl rfl rfl rfl) fun owner _ => ?_
  cases truthy owner with
  | none => exact founding_same rfl rfl rfl rfl
  | some ownerUserId =>
    exact state_inTransaction (callback_createFolderBody be call ownerUserId)
      (founding_createFolderBody call ownerUserId) fun k => founding_same rfl rfl rfl rfl

end Steps

/-! ### Histories -/

/-- The database, and as a ghost the database that each invite was made in. -/
structure Ledger where
  db : Db
  madeIn : String → Option Db

namespace Ledger

/-- No folder yet. -/
def start (devices : List DeviceRow) : Ledger := { db := { devices }, madeIn := fun _ => none }

/-- The invite that a request would make. -/
def invited : Request → Option String
  | .createInvite call => some call.inviteToken
  | _ => none

/-- The ledger after a request. -/
def next (be : Backend) (l : Ledger) (req : Request) : Ledger where
  db := req.serve be l.db
  madeIn := fun token =>
    if invited req = some token ∧ (l.db.invite token).isNone then some l.db else l.madeIn token

def step (be : Backend) (l : Ledger) (req : Request) : Option Ledger := some (l.next be req)

/-- The database in which the issuer of a request's grant is judged. -/
def judged (l : Ledger) : Request → Option Db
  | .acceptInvite call => l.madeIn call.inviteToken
  | _ => some l.db

/-- The condition on a request: the grant that it may issue is covered by those that its issuing user had when it
was judged. -/
def IssueOk (l : Ledger) (req : Request) : Prop :=
  ∀ g u t, req.issues l.db g → g.createdByUserId = some u → l.judged req = some t → Covered t l.db u g

/-- **Grants within their issuer's**: after the request every grant is scoped to a node of its
folder, and a new one is the owner's own in a new folder or bounded. -/
structure Issued (be : Backend) (l : Ledger) (req : Request) : Prop where
  scopes : (l.next be req).db.scopesInside
  bounded : ∀ g ∈ (l.next be req).db.folderGrants, g ∉ l.db.folderGrants →
    (g.folderId ∉ l.db.sharedFolders ∧ g.userId = g.createdByUserId) ∨
    ∃ u t, g.createdByUserId = some u ∧ l.judged req = some t ∧ Bounded t (l.next be req).db u g

/-- What is known of the database that an invite was made in: its maker could write to the scope then, and its
grants and nodes are still told by the one of now. -/
structure MadeIn (t s : Db) (i : FolderInviteRow) : Prop where
  grantsKept : t.GrantsKept
  write : t.grants i.scopeNodeId (.user i.invitedByUserId) .write = true
  kept : ∀ n r, t.node n = some r → ∃ r', s.node n = some r' ∧ r'.folderId = r.folderId

/-- **The invariant** of a history: the tables are in order, and for every invite the database it was made in is
known, with its maker able to write to the scope there. -/
structure Kept (l : Ledger) : Prop where
  db : l.db.GrantsKept
  invites : ∀ i ∈ l.db.folderInvites, ∃ t, l.madeIn i.inviteToken = some t ∧ MadeIn t l.db i

section Invariant

variable {be : Backend} {l : Ledger} {req : Request} {g : FolderGrantRow}

/-- What a grant is asked for with: write access of its issuer to its scope. -/
theorem Kept.issued (h : l.Kept) (hissues : req.issues l.db g) : ∃ u t, g.createdByUserId = some u ∧
    l.judged req = some t ∧ t.grants g.scopeNodeId (.user u) .write = true ∧
    ∀ n r, t.node n = some r → ∃ r', l.db.node n = some r' ∧ r'.folderId = r.folderId := by
  have hself : ∀ n r, l.db.node n = some r → ∃ r', l.db.node n = some r' ∧ r'.folderId = r.folderId :=
    fun n r hr => ⟨r, hr, rfl⟩
  cases req with
  | createGrant call =>
    obtain ⟨scopeNodeId, u, hmay, -, rfl⟩ := hissues
    exact ⟨u, l.db, rfl, rfl, grants_effectiveUser h.db hmay.user hmay.write, hself⟩
  | regenerateGrant call =>
    obtain ⟨old, u, hmay, -, rfl⟩ := hissues
    exact ⟨u, l.db, rfl, rfl, grants_effectiveUser h.db hmay.user hmay.write, hself⟩
  | acceptInvite call =>
    obtain ⟨invite, userId, -, hinvite, -, -, rfl⟩ := hissues
    obtain ⟨t, ht, hmade⟩ := h.invites invite (mem_of_lookup hinvite)
    have htoken : invite.inviteToken = call.inviteToken := lookup_key hinvite
    rw [htoken] at ht
    exact ⟨invite.invitedByUserId, t, rfl, ht, hmade.write, hmade.kept⟩
  | createFolder call => exact hissues.elim
  | deleteGrant principal grantId => exact hissues.elim
  | createInvite call => exact hissues.elim
  | deleteInvite principal folderId inviteId => exact hissues.elim
  | submitOp call => exact hissues.elim

/-- A token that is taken keeps its entry. -/
theorem madeIn_next_old {token : String} (h : l.db.invite token ≠ none) :
    (l.next be req).madeIn token = l.madeIn token :=
  if_neg fun hnew => h (Option.isNone_iff_eq_none.mp hnew.2)

theorem madeIn_next_new {call : InviteCall} (h : l.db.invite call.inviteToken = none) :
    (l.next be (.createInvite call)).madeIn call.inviteToken = some l.db :=
  if_pos ⟨rfl, Option.isNone_iff_eq_none.mpr h⟩

/-- What happens after an invite was made keeps what is known of it. -/
theorem Kept.oldInvite (h : l.Kept) {s' : Db} {i j : FolderInviteRow} (hj : j ∈ l.db.folderInvites) (hsame : j.sameTerms i)
    (hkept : ∀ n r, l.db.node n = some r → ∃ r', s'.node n = some r' ∧ r'.folderId = r.folderId) :
    ∃ t, (l.next be req).madeIn i.inviteToken = some t ∧ MadeIn t s' i := by
  obtain ⟨t, ht, hmade⟩ := h.invites j hj
  rw [FolderInviteRow.sameTerms] at hsame
  have htoken : i.inviteToken = j.inviteToken := by rw [← hsame]
  have hthere : l.db.invite j.inviteToken ≠ none := fun hnone => lookup_eq_none.mp hnone j hj rfl
  refine ⟨t, ?_, hmade.grantsKept, ?_, fun n r hr => ?_⟩
  · rw [htoken, madeIn_next_old hthere]
    exact ht
  · rw [← hsame]
    exact hmade.write
  · obtain ⟨r', hr', he⟩ := hmade.kept n r hr
    obtain ⟨r'', hr'', he'⟩ := hkept n r' hr'
    exact ⟨r'', hr'', he'.trans he⟩

/-- A grant that lets the issuer write is a row of the folder. -/
theorem row_of_grants {t : Db} {n : String} {principal : Principal} {require : GrantRequirement}
    (h : t.grants n principal require = true) : ∃ r g', t.node n = some r ∧ g' ∈ t.folderGrants ∧
      g'.folderId = r.folderId ∧ t.grantee principal g' = true := by
  rw [Db.grants, runBody_checkGrant] at h
  cases hauthz : t.authz n principal require with
  | denied reason =>
    rw [hauthz] at h
    cases h
  | granted grantId scopeNodeId canWrite =>
    obtain ⟨r, g', hr, hby, -⟩ := authz_granted hauthz
    exact ⟨r, g', hr, hby.mem, hby.folder, hby.grantee⟩

/-- **An edit of the grants** keeps the invariant and stays within the issuers' grants. -/
theorem Kept.edit (h : l.Kept) (hok : l.IssueOk req)
    (hedit : Edit (req.issues l.db) (req.invites l.db) l.db (req.serve be l.db)) :
    (l.next be req).Kept ∧ l.Issued be req := by
  have hnode : (req.serve be l.db).node = l.db.node := by
    funext n
    rw [Db.node, hedit.nodes, Db.node]
  have hparent : (req.serve be l.db).parentOf = l.db.parentOf := by
    funext n
    rw [Db.parentOf, hnode, Db.parentOf]
  have hscope : ∀ g, req.issues l.db g →
      ((req.serve be l.db).node g.scopeNodeId).any (fun r => r.folderId = g.folderId) = true := by
    intro g hissues
    obtain ⟨u, t, hu, ht, -, -⟩ := h.issued hissues
    rw [hnode]
    exact (hok g u t hissues hu ht).folder
  have hkept := hedit.grantStep.grantsKept h.db hscope
  refine ⟨⟨hkept, fun i hi => ?_⟩, hkept.scopes, fun g hg hnew => ?_⟩
  · rcases hedit.folderInvites i hi with ⟨j, hj, hsame⟩ | hinvites
    · exact h.oldInvite hj hsame hedit.grantStep.kept
    · cases req with
      | createInvite call =>
        obtain ⟨scopeNodeId, u, hmay, hfresh, rfl⟩ := hinvites
        exact ⟨l.db, madeIn_next_new hfresh, h.db, grants_effectiveUser h.db hmay.user hmay.write,
          hedit.grantStep.kept⟩
      | createFolder call => exact hinvites.elim
      | createGrant call => exact hinvites.elim
      | deleteGrant principal grantId => exact hinvites.elim
      | regenerateGrant call => exact hinvites.elim
      | acceptInvite call => exact hinvites.elim
      | deleteInvite principal folderId inviteId => exact hinvites.elim
      | submitOp call => exact hinvites.elim
  · rcases hedit.grants g hg with hold | ⟨hissues, -⟩
    · exact absurd hold hnew
    obtain ⟨u, t, hu, ht, hwrite, htkept⟩ := h.issued hissues
    have hcov := hok g u t hissues hu ht
    refine .inr ⟨u, t, hu, ht, ?_, fun principal require n hthrough => ?_⟩
    · obtain ⟨r, g', hr, hg', hfolder, hgrantee⟩ := row_of_grants hwrite
      obtain ⟨r', hr', he⟩ := htkept _ r hr
      obtain ⟨r'', hr'', hin⟩ := (Option.any_eq_true _ _).mp hcov.folder
      cases hr'.symm.trans hr''
      exact ⟨g', hg', (hfolder.trans he.symm).trans (of_decide_eq_true hin), hgrantee⟩
    · obtain ⟨r, hr, hfolder, hreach, hallows⟩ := below_of_through hkept hg hthrough
      rw [hnode] at hr
      rw [hparent] at hreach
      exact granted_below hcov hwrite htkept hr hfolder hreach hallows

/-- **One request**: the invariant is kept, and what it adds is within its issuer's grants. -/
theorem Kept.next (h : l.Kept) (hok : l.IssueOk req) : (l.next be req).Kept ∧ l.Issued be req := by
  rcases edit_request be l.db req with hedit | ⟨call, rfl⟩ | ⟨call, rfl⟩
  · exact h.edit hok hedit
  · obtain ⟨hstep, hinvites⟩ := founding_createFolder be call l.db
    have hkept := hstep.grantsKept h.db fun g hg => hg.2.2.2
    refine ⟨⟨hkept, fun i hi => ?_⟩, hkept.scopes, fun g hg hnew => ?_⟩
    · exact h.oldInvite (hinvites ▸ hi) rfl hstep.kept
    · rcases hstep.grants g hg with hold | ⟨hfounds, -⟩
      · exact absurd hold hnew
      · exact .inl ⟨hfounds.1, hfounds.2.1⟩
  · have hstep := grantStep_submitOp be call l.db
    have hkept := hstep.grantsKept h.db fun g hg => hg.elim
    refine ⟨⟨hkept, fun i hi => ?_⟩, hkept.scopes, fun g hg hnew => ?_⟩
    · exact h.oldInvite ((serve_reshapes be call l.db).folderInvites ▸ hi) rfl hstep.kept
    · rcases hstep.grants g hg with hold | ⟨hfalse, -⟩
      · exact absurd hold hnew
      · exact hfalse.elim

theorem Kept.start (devices : List DeviceRow) : (start devices).Kept where
  db := ⟨List.nodup_nil, List.nodup_nil, fun _ hg => absurd hg List.not_mem_nil, fun _ hg => absurd hg List.not_mem_nil⟩
  invites _ hi := absurd hi List.not_mem_nil

end Invariant

end Ledger

/-- **Grants never exceed their issuer** in a history all of whose grants are asked for by users
whose own grants cover them. -/
theorem grants_bounded (be : Backend) (devices : List DeviceRow) (reqs : List Request)
    (hok : Run.Along (Ledger.step be) Ledger.IssueOk (Ledger.start devices) reqs) :
    Run.Along (Ledger.step be) (Ledger.Issued be) (Ledger.start devices) reqs := by
  have hrun : ∀ (l : Ledger) (reqs : List Request), l.Kept → Run.Along (Ledger.step be) Ledger.IssueOk l reqs →
      Run.Along (Ledger.step be) (Ledger.Issued be) l reqs := by
    intro l reqs
    induction reqs generalizing l with
    | nil => exact fun _ _ => True.intro
    | cons req reqs ih =>
      intro hkept hok
      obtain ⟨hkept', hissued⟩ := Ledger.Kept.next hkept hok.1
      exact ⟨hissued, ih _ hkept' hok.2⟩
  exact hrun _ _ (Ledger.Kept.start devices) hok

/-! ### Runs -/

/-- The user's grants in the folder allow no less, and reach every node. -/
def Db.covers (s t : Db) (u : String) (g : FolderGrantRow) : Bool :=
  (s.node g.scopeNodeId).any (fun r => r.folderId = g.folderId) &&
  (t.folderGrants.all fun g' => g'.folderId ≠ g.folderId || !t.grantee (.user u) g' || g'.canWrite) &&
  (s.nodes.all fun r => r.folderId ≠ g.folderId ||
    (t.nearest g.folderId (.user u) maxGrantWalkDepth r.nodeId).isSome) && t.nodes = s.nodes

theorem covered_of_covers {t s : Db} {u : String} {g : FolderGrantRow} (h : s.covers t u g = true) :
    Covered t s u g := by
  simp only [Db.covers, Bool.and_eq_true, List.all_eq_true, Bool.or_eq_true, decide_eq_true_eq] at h
  obtain ⟨⟨⟨hfolder, hrows⟩, hreach⟩, hnodes⟩ := h
  refine ⟨hfolder, fun d g' _ _ hat require _ => ?_, fun n r hr hin _ => ?_, fun n _ _ => ?_⟩
  · obtain ⟨hmem, -, hin, hgrantee⟩ := Db.grantAt_some hat
    rcases hrows g' hmem with (hout | hother) | hwrite
    · exact absurd hin hout
    · rw [hgrantee] at hother
      cases hother
    · exact FolderGrantRow.allows_of_write hwrite require
  · have hid : r.nodeId = n := lookup_key hr
    rcases hreach r (mem_of_lookup hr) with hout | hnear
    · exact absurd hin hout
    · obtain ⟨g', hg'⟩ := Option.isSome_iff_exists.mp (hid ▸ hnear)
      obtain ⟨k, m, hk, hclimbs, hat⟩ := climbs_of_nearest hg'
      exact ⟨k, m, hk, hclimbs, by simp [hat]⟩
  · rw [Db.parentOf, Db.parentOf, Db.node, Db.node, hnodes]

/-- The condition, checked for the grant that a request asks for. -/
def Ledger.issueSeen (l : Ledger) : Request → Bool
  | .createGrant call => (call.scopeNodeId.orElse (l.db.folderRoot call.folderId)).all fun scopeNodeId =>
      (l.db.effectiveUser call.principal).all fun u => l.db.covers l.db u (call.row scopeNodeId u)
  | .regenerateGrant call => (l.db.grant call.grantId).all fun old =>
      (l.db.effectiveUser call.principal).all fun u => l.db.covers l.db u (call.row old u)
  | .acceptInvite call => (l.db.invite call.inviteToken).all fun invite =>
      (l.madeIn call.inviteToken).all fun t =>
        match call.principal with
        | .user userId => l.db.covers t invite.invitedByUserId (call.row invite userId)
        | .device _ => true
  | _ => true

theorem Ledger.issueOk_of_seen {l : Ledger} {req : Request} (h : l.issueSeen req = true) : l.IssueOk req := by
  intro g u t hissues hu ht
  cases req with
  | createGrant call =>
    obtain ⟨scopeNodeId, u', hmay, hscope, rfl⟩ := hissues
    cases hu
    cases ht
    have hscopes := (Option.all_eq_true _ _).mp h scopeNodeId hscope
    exact covered_of_covers ((Option.all_eq_true _ _).mp hscopes u hmay.user)
  | regenerateGrant call =>
    obtain ⟨old, u', hmay, hold, rfl⟩ := hissues
    cases hu
    cases ht
    have holds := (Option.all_eq_true _ _).mp h old hold
    exact covered_of_covers ((Option.all_eq_true _ _).mp holds u hmay.user)
  | acceptInvite call =>
    obtain ⟨invite, userId, hp, hinvite, -, -, rfl⟩ := hissues
    cases hu
    have hinvites := (Option.all_eq_true _ _).mp h invite hinvite
    have hcovers := (Option.all_eq_true _ _).mp hinvites t ht
    rw [hp] at hcovers
    exact covered_of_covers hcovers
  | createFolder call => exact hissues.elim
  | deleteGrant principal grantId => exact hissues.elim
  | createInvite call => exact hissues.elim
  | deleteInvite principal folderId inviteId => exact hissues.elim
  | submitOp call => exact hissues.elim

/-- A device of alice. -/
def aliceDevices : List DeviceRow := [{ deviceId := "d", userId := some "alice" }]

/-- Alice makes a folder with a directory in it, issues a key for the directory that only reads
and regenerates it, and invites bob, who accepts. -/
def sharedReqs : List Request :=
  [.createFolder { principal := .user "alice", folderId := "f", rootNodeId := "root", grantId := "g0" },
    .submitOp { folderId := "f", principal := .device "d", op := .create "dir" "root" "dir" .folder, newId := "",
                now := 0, request := 0 },
    .createGrant { principal := .device "d", folderId := "f", scopeNodeId := .string "dir", name := .undefined,
                   canRead := true, canWrite := false, planAllowed := true, deviceId := "k1", grantId := "g1",
                   tokenHash := "h1" },
    .regenerateGrant { principal := .user "alice", grantId := "g1", onBeforeCommit := none, deviceId := "k2",
                       newGrantId := "g2", tokenHash := "h2" },
    .createInvite { principal := .user "alice", folderId := "f", invitedEmail := .string "bob@b",
                    scopeNodeId := .undefined, canWrite := true, now := 0, inviteId := "i", inviteToken := "t" },
    .acceptInvite { principal := .user "bob", inviteToken := "t", now := 0, grantId := "g3" }]

theorem grants_bounded_shared :
    Run.Along (Ledger.step .pg) (Ledger.Issued .pg) (Ledger.start aliceDevices) sharedReqs ∧
      (Run.run (Ledger.step .pg) (Ledger.start aliceDevices) sharedReqs).db.folderGrants.map
        FolderGrantRow.grantId = ["g0", "g2", "g3"] := by
  refine ⟨?_, by decide +kernel⟩
  have hseen : Run.Along (Ledger.step .pg) (fun l req => l.issueSeen req = true) (Ledger.start aliceDevices)
      sharedReqs := by decide +kernel
  exact grants_bounded .pg aliceDevices sharedReqs (hseen.mono fun _ _ => Ledger.issueOk_of_seen)

/-- Bob, who has a folder of his own and no grant in alice's, issues a key for her folder with a
scope in his. -/
def crossReqs : List Request :=
  [.createFolder { principal := .user "alice", folderId := "f", rootNodeId := "root", grantId := "g0" },
    .submitOp { folderId := "f", principal := .device "d", op := .create "dir" "root" "dir" .folder, newId := "",
                now := 0, request := 0 },
    .createFolder { principal := .user "bob", folderId := "g", rootNodeId := "groot", grantId := "g1" },
    .createGrant { principal := .user "bob", folderId := "f", scopeNodeId := .string "groot", name := .undefined,
                   canRead := true, canWrite := true, planAllowed := true, deviceId := "k", grantId := "g2",
                   tokenHash := "h" }]

/-- **A key of a stranger**: the grant names alice's folder, its scope is not in it, bob has no other
grant there, and with the key he reads the head of her log. -/
theorem grants_cross_folders :
    ¬ Run.Along (Ledger.step .pg) (Ledger.Issued .pg) (Ledger.start aliceDevices) crossReqs ∧
      (∀ g ∈ (Run.run (Ledger.step .pg) (Ledger.start aliceDevices) (crossReqs.take 3)).db.folderGrants,
        g.folderId = "f" → g.userId ≠ some "bob") ∧
      ((pullDelta "f" (.device "k") 0).exec
        (Run.run (Ledger.step .pg) (Ledger.start aliceDevices) crossReqs).db none).2 =
          .ok { ops := [], upToSeq := 1 } := by
  refine ⟨fun h => ?_, by decide +kernel, by decide +kernel⟩
  obtain ⟨-, -, -, hlast, -⟩ := h
  have hscopes : ¬ (Run.run (Ledger.step .pg) (Ledger.start aliceDevices) crossReqs).db.scopesInside := by
    decide +kernel
  exact hscopes hlast.scopes

end Valv.Server
