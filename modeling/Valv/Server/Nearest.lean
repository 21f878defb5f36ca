import Valv.Lib.Run
import Valv.Server.Reads

/-!
# The nearest grant

`checkGrant` asks for one row at a time, at the node, at its parent and so on, and takes the first row that the
query gives it.

* `Db.IsNearest`: a row of the principal on the node or above it, and none nearer.
* `nearest_spec`, `nearest_eq_none`: what the walk finds, told from the rows.
* `checkGrant_nearest`, `checkGrant_too_deep`: the answer is that of the nearest row, up to the depth of the walk.
* `Db.OrderFree`, `Db.Agrees`: the order of the rows does not matter when those agree that may come first.
* `decisions_order_free`, `decisions_by_order`: every history of requests.
-/

namespace Valv.Server

open Valv.Conc Valv.Table Valv.Forest StateTransition

namespace Db

/-- A grant row of the principal for the folder that is scoped to the node `m`. -/
structure Carries (s : Db) (folderId : String) (principal : Principal) (m : String) (g : FolderGrantRow) : Prop where
  mem : g ∈ s.folderGrants
  folder : g.folderId = folderId
  scope : g.scopeNodeId = m
  grantee : s.grantee principal g = true

/-- The row is scoped `k` levels above the node, and no row of the principal is scoped to a nearer node on the way
up. -/
structure IsNearest (s : Db) (folderId : String) (principal : Principal) (n : String) (k : ℕ) (g : FolderGrantRow) :
    Prop where
  climbs : s.Climbs k n g.scopeNodeId
  carries : s.Carries folderId principal g.scopeNodeId g
  least : ∀ j m g', j < k → s.Climbs j n m → ¬ s.Carries folderId principal m g'

end Db

section Walk

variable {s : Db} {folderId n m : String} {principal : Principal} {require : GrantRequirement} {g g' : FolderGrantRow}

/-- What is `k` levels above a node. -/
theorem Db.Climbs.unique {k : ℕ} {m' : String} (h : s.Climbs k n m) (h' : s.Climbs k n m') : m = m' := by
  induction h with
  | here _ =>
    cases h'
    rfl
  | up _ hp _ _ ih =>
    cases h' with
    | up _ hp' _ hrest =>
      cases hp.symm.trans hp'
      exact ih hrest

theorem Db.grantAt_eq_none : s.grantAt folderId m principal = none ↔ ∀ g, ¬ s.Carries folderId principal m g := by
  rw [Db.grantAt, List.find?_eq_none]
  constructor
  · intro h g hg
    exact h g hg.mem (by simp [hg.folder, hg.scope, hg.grantee])
  · intro h g hg hcond
    rw [Bool.and_eq_true, Bool.and_eq_true, decide_eq_true_eq, decide_eq_true_eq] at hcond
    exact h g ⟨hg, hcond.1.2, hcond.1.1, hcond.2⟩

theorem Db.carries_of_grantAt (h : s.grantAt folderId m principal = some g) : s.Carries folderId principal m g := by
  obtain ⟨hmem, hscope, hfolder, hgrantee⟩ := Db.grantAt_some h
  exact ⟨hmem, hfolder, hscope, hgrantee⟩

theorem Db.IsNearest.level {k k' : ℕ} (h : s.IsNearest folderId principal n k g)
    (h' : s.IsNearest folderId principal n k' g') : k = k' ∧ g.scopeNodeId = g'.scopeNodeId := by
  have hlevel : k = k' := by
    rcases Nat.lt_trichotomy k k' with hlt | heq | hlt
    · exact absurd h.carries (h'.least k _ g hlt h.climbs)
    · exact heq
    · exact absurd h'.carries (h.least k' _ g' hlt h'.climbs)
  subst hlevel
  exact ⟨rfl, h.climbs.unique h'.climbs⟩

/-- **The walk** finds a nearest row, the first that the query at its scope gives. -/
theorem nearest_spec {fuel : ℕ} (h : s.nearest folderId principal fuel n = some g) :
    s.grantAt folderId g.scopeNodeId principal = some g ∧ ∃ k < fuel, s.IsNearest folderId principal n k g := by
  induction fuel generalizing n with
  | zero => cases h
  | succ fuel ih =>
    rw [Db.nearest] at h
    split at h
    · cases h
    next hn =>
    cases hat : s.grantAt folderId n principal with
    | some g' =>
      rw [hat] at h
      cases h
      have hcarries := Db.carries_of_grantAt hat
      have hscope : g.scopeNodeId = n := hcarries.scope
      refine ⟨hscope ▸ hat, 0, by omega, ?_, hscope ▸ hcarries, fun j m g' hj => absurd hj (Nat.not_lt_zero j)⟩
      exact hscope.symm ▸ .here hn
    | none =>
      rw [hat] at h
      obtain ⟨p, hp, hcont⟩ := Option.bind_eq_some_iff.mp h
      split at hcont
      · next hnode =>
        obtain ⟨hfound, k, hk, hnearest⟩ := ih hcont
        have hparent := truthy_some hp
        refine ⟨hfound, k + 1, by omega, .up hn hparent hnode hnearest.climbs, hnearest.carries, ?_⟩
        intro j m g' hj hclimbs hcarries
        cases hclimbs with
        | here _ => exact Db.grantAt_eq_none.mp hat g' hcarries
        | up _ hp' _ hrest =>
          cases hparent.symm.trans hp'
          exact hnearest.least _ m g' (by omega) hrest hcarries
      · cases hcont

/-- It finds none when there is none that near. -/
theorem nearest_eq_none {fuel : ℕ} : s.nearest folderId principal fuel n = none ↔
    ∀ k m g, k < fuel → s.Climbs k n m → ¬ s.Carries folderId principal m g := by
  constructor
  · intro h k m g hk hclimbs hcarries
    have hsome : (s.grantAt folderId m principal).isSome := by
      rw [Option.isSome_iff_ne_none]
      exact fun hnone => Db.grantAt_eq_none.mp hnone g hcarries
    have hfound := nearest_of_climbs hclimbs hk hsome
    rw [h] at hfound
    cases hfound
  · intro h
    refine Option.eq_none_iff_forall_ne_some.mpr fun g hg => ?_
    obtain ⟨-, k, hk, hnearest⟩ := nearest_spec hg
    exact h k _ g hk hnearest.climbs hnearest.carries

/-- A nearest row within the depth of the walk has one that the walk finds at its scope. -/
theorem nearest_of_isNearest {fuel k : ℕ} (h : s.IsNearest folderId principal n k g) (hk : k < fuel) :
    ∃ g', s.nearest folderId principal fuel n = some g' ∧ s.IsNearest folderId principal n k g' ∧
      g'.scopeNodeId = g.scopeNodeId := by
  cases hnearest : s.nearest folderId principal fuel n with
  | none => exact absurd h.carries (nearest_eq_none.mp hnearest k _ g hk h.climbs)
  | some g' =>
    obtain ⟨-, k', -, h'⟩ := nearest_spec hnearest
    obtain ⟨rfl, hscope⟩ := h.level h'
    exact ⟨g', rfl, h', hscope.symm⟩

/-- The answer of `checkGrant` is what the row says that the walk finds. -/
theorem authz_eq_nearest {r : NodeRow} (hr : s.node n = some r) : s.authz n principal require =
    (s.nearest r.folderId principal maxGrantWalkDepth n).elim (.denied .noGrant) (grantResult · require) := by
  have hparent : s.parentOf n = r.parentId := by rw [Db.parentOf, hr, Option.bind_some]
  have hid : r.nodeId = n := lookup_key hr
  rw [Db.authz, hr]
  show s.walk r.folderId principal require maxGrantWalkDepth (some r.nodeId) r.parentId = _
  rw [hid, ← hparent, walk_eq_nearest]
  cases s.nearest r.folderId principal maxGrantWalkDepth n <;> rfl

end Walk

/-! ### The answer -/

/-- The answer is that of the nearest row, of the rows on a node that is in reach. -/
structure DecidedBy (s : Db) (reach : ℕ → Prop) (n folderId : String) (principal : Principal)
    (require : GrantRequirement) (answer : AuthzResult) : Prop where
  granted : ∀ grantId scopeNodeId canWrite, answer = .granted grantId scopeNodeId canWrite ↔
    ∃ k g, reach k ∧ s.IsNearest folderId principal n k g ∧ g.allows require = true ∧ g.grantId = grantId ∧
      g.scopeNodeId = scopeNodeId ∧ g.canWrite = canWrite
  insufficient : answer = .denied .insufficientPermission ↔
    ∃ k g, reach k ∧ s.IsNearest folderId principal n k g ∧ g.allows require = false
  noGrant : answer = .denied .noGrant ↔
    ∀ k m g, reach k → s.Climbs k n m → ¬ s.Carries folderId principal m g

/-- The principal has at most one row for a folder and a scope. -/
def Db.OneRow (s : Db) (principal : Principal) : Prop :=
  ∀ g ∈ s.folderGrants, ∀ g' ∈ s.folderGrants, s.grantee principal g = true → s.grantee principal g' = true →
    g.folderId = g'.folderId → g.scopeNodeId = g'.scopeNodeId → g = g'

instance (s : Db) (principal : Principal) : Decidable (s.OneRow principal) :=
  inferInstanceAs (Decidable (∀ _ ∈ _, ∀ _ ∈ _, _))

theorem Db.IsNearest.eq {s : Db} {folderId n : String} {principal : Principal} {k k' : ℕ} {g g' : FolderGrantRow}
    (hone : s.OneRow principal) (h : s.IsNearest folderId principal n k g)
    (h' : s.IsNearest folderId principal n k' g') : g = g' :=
  hone g h.carries.mem g' h'.carries.mem h.carries.grantee h'.carries.grantee
    (h.carries.folder.trans h'.carries.folder.symm) (h.level h').2

/-- **`checkGrant`** answers by the nearest row on the node or fewer than `maxGrantWalkDepth` levels above it. -/
theorem checkGrant_nearest (s : Db) (n : String) (principal : Principal) (require : GrantRequirement) (r : NodeRow)
    (hr : s.node n = some r) (hone : s.OneRow principal) :
    ∃ answer, (checkGrant n principal require).runBody s = (s, .ok answer) ∧
      DecidedBy s (· < maxGrantWalkDepth) n r.folderId principal require answer := by
  refine ⟨s.authz n principal require, runBody_checkGrant n principal require, ?_⟩
  rw [authz_eq_nearest hr]
  cases hnearest : s.nearest r.folderId principal maxGrantWalkDepth n with
  | none =>
    have hnone := nearest_eq_none.mp hnearest
    have hnot : ∀ k g, k < maxGrantWalkDepth → ¬ s.IsNearest r.folderId principal n k g :=
      fun k g hk h => hnone k _ g hk h.climbs h.carries
    refine ⟨fun grantId scopeNodeId canWrite => ?_, ?_, iff_of_true rfl hnone⟩
    · refine iff_of_false (fun h => by cases h) ?_
      rintro ⟨k, g, hk, h, -⟩
      exact hnot k g hk h
    · refine iff_of_false (fun h => by cases h) ?_
      rintro ⟨k, g, hk, h, -⟩
      exact hnot k g hk h
  | some g =>
    obtain ⟨-, k, hk, h⟩ := nearest_spec hnearest
    have hcarried : ¬ ∀ k m g, k < maxGrantWalkDepth → s.Climbs k n m → ¬ s.Carries r.folderId principal m g :=
      fun hnone => hnone k _ g hk h.climbs h.carries
    show DecidedBy s _ n r.folderId principal require (grantResult g require)
    rw [grantResult_eq]
    by_cases hallows : g.allows require = true
    · rw [if_pos hallows]
      refine ⟨fun grantId scopeNodeId canWrite => ⟨fun heq => ?_, ?_⟩, iff_of_false (fun h => by cases h) ?_,
        iff_of_false (fun h => by cases h) hcarried⟩
      · cases heq
        exact ⟨k, g, hk, h, hallows, rfl, rfl, rfl⟩
      · rintro ⟨k', g', -, h', -, rfl, rfl, rfl⟩
        rw [h.eq hone h']
      · rintro ⟨k', g', -, h', hdenied⟩
        rw [h.eq hone h', hdenied] at hallows
        cases hallows
    · rw [if_neg hallows]
      refine ⟨fun grantId scopeNodeId canWrite => iff_of_false (fun h => by cases h) ?_, iff_of_true rfl ?_,
        iff_of_false (fun h => by cases h) hcarried⟩
      · rintro ⟨k', g', -, h', hgranted, -⟩
        exact hallows (h.eq hone h' ▸ hgranted)
      · exact ⟨k, g, hk, h, by simpa using hallows⟩

/-! ### A deep tree -/

/-- The nodes of a path of directories. -/
def levelName (k : ℕ) : String := "level" ++ toString k

def deepGrant : FolderGrantRow where
  grantId := "g"
  folderId := "f"
  scopeNodeId := levelName 0
  userId := some "owner"
  deviceId := none
  canRead := true
  canWrite := true

/-- A path of 51 directories, and its owner's grant on the topmost. -/
def deepDb : Db where
  sharedFolders := ["f"]
  nodes := (List.range 51).map fun k =>
    { nodeId := levelName k, folderId := "f", parentId := if k = 0 then none else some (levelName (k - 1)),
      name := levelName k, type := .folder }
  folderGrants := [deepGrant]

theorem deepDb_climbs (k : ℕ) (hk : k < 51) : deepDb.Climbs k (levelName k) (levelName 0) := by
  have hne : ∀ k < 51, levelName k ≠ "" := by decide +kernel
  have hparent : ∀ k < 50, deepDb.parentOf (levelName (k + 1)) = some (levelName k) := by decide +kernel
  have hnode : ∀ k < 51, (deepDb.node (levelName k)).isSome = true := by decide +kernel
  induction k with
  | zero => exact .here (hne 0 hk)
  | succ k ih => exact .up (hne (k + 1) hk) (hparent k (by omega)) (hnode k (by omega)) (ih (by omega))

/-- The row that reaches from the directory on level 9 is nearest to it. -/
theorem checkGrant_nearest_deep : ∃ answer,
    (checkGrant (levelName 9) (.user "owner") .write).runBody deepDb = (deepDb, .ok answer) ∧
      DecidedBy deepDb (· < maxGrantWalkDepth) (levelName 9) "f" (.user "owner") .write answer :=
  checkGrant_nearest deepDb (levelName 9) (.user "owner") .write
    { nodeId := levelName 9, folderId := "f", parentId := some (levelName 8), name := levelName 9, type := .folder }
    (by decide +kernel) (by decide +kernel)

/-- The lowest directory is 50 levels below the grant, and out of its reach. -/
theorem checkGrant_too_deep : deepDb.OneRow (.user "owner") ∧ ∃ answer,
    (checkGrant (levelName 50) (.user "owner") .read).runBody deepDb = (deepDb, .ok answer) ∧
      ¬ DecidedBy deepDb (fun _ => True) (levelName 50) "f" (.user "owner") .read answer := by
  have hdenied : deepDb.authz (levelName 50) (.user "owner") .read = .denied .noGrant := by decide +kernel
  refine ⟨by decide +kernel, _, runBody_checkGrant _ _ _, fun h => ?_⟩
  have hnone := h.noGrant.mp hdenied
  have hclimbs := deepDb_climbs 50 (by omega)
  exact hnone 50 (levelName 0) deepGrant True.intro hclimbs ⟨List.mem_singleton_self _, rfl, rfl, rfl⟩

/-! ### The order of the rows -/

/-- An answer but for the id of the grant. -/
def AuthzResult.decision : AuthzResult → Except DenyReason (String × Bool)
  | .granted _ scopeNodeId canWrite => .ok (scopeNodeId, canWrite)
  | .denied reason => .error reason

/-- What a row decides when it is found. -/
def FolderGrantRow.given (g : FolderGrantRow) (require : GrantRequirement) : Option (String × Bool) :=
  if g.allows require then some (g.scopeNodeId, g.canWrite) else none

namespace Db

/-- The same database with its grants in another order. -/
def reorder (s : Db) (rows : List FolderGrantRow) : Db := { s with folderGrants := rows }

/-- The order of the grants makes no difference. -/
structure OrderFree (s : Db) : Prop where
  checkGrant : ∀ rows : List FolderGrantRow, rows.Perm s.folderGrants → ∀ n principal require,
    ((s.reorder rows).authz n principal require).decision = (s.authz n principal require).decision
  readableGrantForFolder : ∀ rows : List FolderGrantRow, rows.Perm s.folderGrants → ∀ folderId root principal,
    s.folderRoot folderId = some root →
      ((s.reorder rows).readable folderId root principal).decision = (s.readable folderId root principal).decision

/-- Rows that may come first agree: those that are nearest to one node, and, for a principal that no nearest row
allows to read the root, all of the folder. -/
structure Agrees (s : Db) : Prop where
  nearest : ∀ n r, s.node n = some r → ∀ principal require k g g', k < maxGrantWalkDepth →
    s.IsNearest r.folderId principal n k g → s.IsNearest r.folderId principal n k g' → g.given require = g'.given require
  first : ∀ folderId root principal, s.folderRoot folderId = some root →
    (∀ r k g, s.node root = some r → k < maxGrantWalkDepth → s.IsNearest r.folderId principal root k g →
      g.allows .read = false) →
    ∀ g ∈ s.folderGrants, ∀ g' ∈ s.folderGrants, g.folderId = folderId → g'.folderId = folderId →
      s.grantee principal g = true → s.grantee principal g' = true → g.given .read = g'.given .read

end Db

section Order

variable {s : Db} {folderId n : String} {principal : Principal} {require : GrantRequirement} {g g' : FolderGrantRow}
  {rows : List FolderGrantRow}

theorem decision_grantResult : (grantResult g require).decision = (grantResult g' require).decision ↔
    g.given require = g'.given require := by
  rw [grantResult_eq, grantResult_eq, FolderGrantRow.given, FolderGrantRow.given]
  by_cases h : g.allows require = true <;> by_cases h' : g'.allows require = true <;>
    simp [h, h', AuthzResult.decision]

/-- The row that is moved to the front. -/
theorem exists_front (hg : g ∈ s.folderGrants) : ∃ rest, (g :: rest).Perm s.folderGrants :=
  ⟨s.folderGrants.erase g, (List.perm_cons_erase hg).symm⟩

theorem carries_reorder (h : rows.Perm s.folderGrants) {m : String} :
    (s.reorder rows).Carries folderId principal m g ↔ s.Carries folderId principal m g :=
  ⟨fun hc => ⟨h.mem_iff.mp hc.mem, hc.folder, hc.scope, hc.grantee⟩,
    fun hc => ⟨h.mem_iff.mpr hc.mem, hc.folder, hc.scope, hc.grantee⟩⟩

theorem climbs_reorder {k : ℕ} {m : String} : (s.reorder rows).Climbs k n m ↔ s.Climbs k n m := by
  constructor
  · intro h
    induction h with
    | here hn => exact .here hn
    | up hn hp hnode _ ih => exact .up hn hp hnode ih
  · intro h
    induction h with
    | here hn => exact .here hn
    | up hn hp hnode _ ih => exact .up hn hp hnode ih

theorem isNearest_reorder (h : rows.Perm s.folderGrants) {k : ℕ} :
    (s.reorder rows).IsNearest folderId principal n k g ↔ s.IsNearest folderId principal n k g := by
  constructor
  · intro hn
    refine ⟨climbs_reorder.mp hn.climbs, (carries_reorder h).mp hn.carries, fun j m g' hj hclimbs hc => ?_⟩
    exact hn.least j m g' hj (climbs_reorder.mpr hclimbs) ((carries_reorder h).mpr hc)
  · intro hn
    refine ⟨climbs_reorder.mpr hn.climbs, (carries_reorder h).mpr hn.carries, fun j m g' hj hclimbs hc => ?_⟩
    exact hn.least j m g' hj (climbs_reorder.mp hclimbs) ((carries_reorder h).mp hc)

/-- A nearest row that comes first is what `checkGrant` answers by. -/
theorem authz_of_front {r : NodeRow} (hr : s.node n = some r) {k : ℕ} (hk : k < maxGrantWalkDepth)
    (hnearest : s.IsNearest r.folderId principal n k g) {rest : List FolderGrantRow}
    (hperm : (g :: rest).Perm s.folderGrants) :
    (s.reorder (g :: rest)).authz n principal require = grantResult g require := by
  have hr' : (s.reorder (g :: rest)).node n = some r := hr
  obtain ⟨g', hg', hnearest', hscope⟩ := nearest_of_isNearest ((isNearest_reorder hperm).mpr hnearest) hk
  have hfound := (nearest_spec hg').1
  have hfirst : (s.reorder (g :: rest)).grantAt r.folderId g.scopeNodeId principal = some g := by
    have hcond : (decide (g.scopeNodeId = g.scopeNodeId) && decide (g.folderId = r.folderId) &&
        s.grantee principal g) = true := by
      simp [hnearest.carries.folder, hnearest.carries.grantee]
    exact List.find?_cons_of_pos hcond
  rw [hscope, hfirst] at hfound
  cases hfound
  rw [authz_eq_nearest hr', hg']
  rfl

/-- `checkGrant` decides alike when the nearest rows agree. -/
theorem Db.Agrees.authz (h : s.Agrees) (hperm : rows.Perm s.folderGrants) (n : String) (principal : Principal)
    (require : GrantRequirement) :
    ((s.reorder rows).authz n principal require).decision = (s.authz n principal require).decision := by
  cases hr : s.node n with
  | none =>
    have hr' : (s.reorder rows).node n = none := hr
    rw [Db.authz, hr', Db.authz, hr]
  | some r =>
    have hr' : (s.reorder rows).node n = some r := hr
    rw [authz_eq_nearest hr', authz_eq_nearest hr]
    cases hfound : s.nearest r.folderId principal maxGrantWalkDepth n with
    | none =>
      have hnone : (s.reorder rows).nearest r.folderId principal maxGrantWalkDepth n = none := by
        refine nearest_eq_none.mpr fun k m g hk hclimbs hc => ?_
        exact nearest_eq_none.mp hfound k m g hk (climbs_reorder.mp hclimbs) ((carries_reorder hperm).mp hc)
      rw [hnone]
    | some g =>
      obtain ⟨-, k, hk, hnearest⟩ := nearest_spec hfound
      obtain ⟨g', hg', hnearest', -⟩ := nearest_of_isNearest ((isNearest_reorder hperm).mpr hnearest) hk
      rw [hg']
      exact decision_grantResult.mpr
        (h.nearest n r hr principal require k g' g hk ((isNearest_reorder hperm).mp hnearest') hnearest)

theorem decision_error {answer : AuthzResult} {reason : DenyReason} :
    answer.decision = .error reason ↔ answer = .denied reason := by
  cases answer <;> simp [AuthzResult.decision]

/-- A check that is denied has been denied by a row that does not allow it, or has found none. -/
theorem allows_of_denied {reason : DenyReason} (h : s.authz n principal require = .denied reason) {r : NodeRow}
    (hr : s.node n = some r) {k : ℕ} (hk : k < maxGrantWalkDepth) (hnearest : s.IsNearest r.folderId principal n k g) :
    ∃ g', s.IsNearest r.folderId principal n k g' ∧ g'.given require = none := by
  obtain ⟨g', hg', hnearest', -⟩ := nearest_of_isNearest hnearest hk
  rw [authz_eq_nearest hr, hg'] at h
  refine ⟨g', hnearest', ?_⟩
  have hresult : grantResult g' require = .denied reason := h
  rw [grantResult_eq] at hresult
  rw [FolderGrantRow.given]
  split at hresult
  · cases hresult
  · next hnot => rw [if_neg hnot]

theorem readable_of_granted {root grantId scopeNodeId : String} {canWrite : Bool}
    (h : s.authz root principal .read = .granted grantId scopeNodeId canWrite) :
    s.readable folderId root principal = .granted grantId scopeNodeId canWrite := by
  rw [Db.readable, h]

theorem readable_of_denied {root : String} {reason : DenyReason} (h : s.authz root principal .read = .denied reason) :
    s.readable folderId root principal = (s.firstGrant folderId principal).elim (.denied reason) (grantResult · .read) := by
  rw [Db.readable, h, Db.firstGrant]
  dsimp only
  cases s.folderGrants.find? fun g => g.folderId = folderId && s.grantee principal g <;> rfl

theorem firstGrant_some (h : s.firstGrant folderId principal = some g) :
    g ∈ s.folderGrants ∧ g.folderId = folderId ∧ s.grantee principal g = true := by
  have hcond := List.find?_some h
  rw [Bool.and_eq_true, decide_eq_true_eq] at hcond
  exact ⟨List.mem_of_find?_eq_some h, hcond⟩

theorem firstGrant_eq_none : s.firstGrant folderId principal = none ↔
    ∀ g ∈ s.folderGrants, g.folderId = folderId → s.grantee principal g = true → False := by
  rw [Db.firstGrant, List.find?_eq_none]
  simp only [Bool.and_eq_true, decide_eq_true_eq, not_and]

/-- `readableGrantForFolder` decides alike when the rows that may come first agree. -/
theorem Db.Agrees.readable (h : s.Agrees) (hperm : rows.Perm s.folderGrants) {root : String}
    (hroot : s.folderRoot folderId = some root) (principal : Principal) :
    ((s.reorder rows).readable folderId root principal).decision = (s.readable folderId root principal).decision := by
  have hsame := h.authz hperm root principal .read
  cases hauthz : s.authz root principal .read with
  | granted grantId scopeNodeId canWrite =>
    cases hauthz' : (s.reorder rows).authz root principal .read with
    | granted grantId' scopeNodeId' canWrite' =>
      rw [hauthz, hauthz'] at hsame
      rw [readable_of_granted hauthz, readable_of_granted hauthz']
      exact hsame
    | denied reason =>
      rw [hauthz, hauthz'] at hsame
      cases hsame
  | denied reason =>
    rw [hauthz] at hsame
    have hauthz' : (s.reorder rows).authz root principal .read = .denied reason := decision_error.mp hsame
    rw [readable_of_denied hauthz, readable_of_denied hauthz']
    cases hfirst : s.firstGrant folderId principal with
    | none =>
      have hnone : (s.reorder rows).firstGrant folderId principal = none :=
        firstGrant_eq_none.mpr fun g hg => firstGrant_eq_none.mp hfirst g (hperm.mem_iff.mp hg)
      rw [hnone]
    | some g =>
      obtain ⟨hg, hfolder, hgrantee⟩ := firstGrant_some hfirst
      cases hfirst' : (s.reorder rows).firstGrant folderId principal with
      | none => exact (firstGrant_eq_none.mp hfirst' g (hperm.mem_iff.mpr hg) hfolder hgrantee).elim
      | some g' =>
        obtain ⟨hg', hfolder', hgrantee'⟩ := firstGrant_some hfirst'
        refine decision_grantResult.mpr (h.first folderId root principal hroot (fun r k g₀ hr hk hnearest => ?_) g'
          (hperm.mem_iff.mp hg') g hg hfolder' hfolder hgrantee' hgrantee)
        obtain ⟨g₁, hnearest₁, hdenied⟩ := allows_of_denied hauthz hr hk hnearest
        have hgiven := h.nearest root r hr principal .read k g₀ g₁ hk hnearest hnearest₁
        rw [hdenied, FolderGrantRow.given] at hgiven
        simpa using hgiven

/-- What comes first decides. -/
theorem Db.OrderFree.agrees (h : s.OrderFree) : s.Agrees where
  nearest n r hr principal require k g g' hk hnearest hnearest' := by
    obtain ⟨rest, hperm⟩ := exists_front hnearest.carries.mem
    obtain ⟨rest', hperm'⟩ := exists_front hnearest'.carries.mem
    have hsame := (h.checkGrant _ hperm n principal require).trans (h.checkGrant _ hperm' n principal require).symm
    rw [authz_of_front hr hk hnearest hperm, authz_of_front hr hk hnearest' hperm'] at hsame
    exact decision_grantResult.mp hsame
  first folderId root principal hroot hdenies g hg g' hg' hfolder hfolder' hgrantee hgrantee' := by
    have hdenied : ∃ reason, s.authz root principal .read = .denied reason := by
      cases hauthz : s.authz root principal .read with
      | denied reason => exact ⟨reason, rfl⟩
      | granted grantId scopeNodeId canWrite =>
        obtain ⟨r, -, hr, -⟩ := authz_granted hauthz
        rw [authz_eq_nearest hr] at hauthz
        cases hfound : s.nearest r.folderId principal maxGrantWalkDepth root with
        | none =>
          rw [hfound] at hauthz
          cases hauthz
        | some g₀ =>
          rw [hfound] at hauthz
          obtain ⟨-, k, hk, hnearest⟩ := nearest_spec hfound
          have hresult : grantResult g₀ .read = .granted grantId scopeNodeId canWrite := hauthz
          have hallows := allows_of_granted hresult
          rw [hdenies r k g₀ hr hk hnearest] at hallows
          cases hallows
    obtain ⟨reason, hdenied⟩ := hdenied
    -- a row that is moved to the front is the one that is answered by
    have hfront : ∀ g₀ ∈ s.folderGrants, g₀.folderId = folderId → s.grantee principal g₀ = true →
        (s.readable folderId root principal).decision = (grantResult g₀ .read).decision := by
      intro g₀ hg₀ hin hgranted
      obtain ⟨rest, hperm⟩ := exists_front hg₀
      have hsame := h.checkGrant _ hperm root principal .read
      rw [hdenied] at hsame
      have hdenied' : (s.reorder (g₀ :: rest)).authz root principal .read = .denied reason := decision_error.mp hsame
      have hfirst : (s.reorder (g₀ :: rest)).firstGrant folderId principal = some g₀ := by
        have hcond : (decide (g₀.folderId = folderId) && s.grantee principal g₀) = true := by simp [hin, hgranted]
        exact List.find?_cons_of_pos hcond
      rw [← h.readableGrantForFolder _ hperm folderId root principal hroot, readable_of_denied hdenied', hfirst]
      rfl
    exact decision_grantResult.mp ((hfront g hg hfolder hgrantee).symm.trans (hfront g' hg' hfolder' hgrantee'))

/-- **The order of the rows** makes no difference just when the rows that may come first agree. -/
theorem orderFree_iff : s.OrderFree ↔ s.Agrees :=
  ⟨Db.OrderFree.agrees, fun h => ⟨fun _ hperm n principal require => h.authz hperm n principal require,
    fun _ hperm _ _ principal hroot => h.readable hperm hroot principal⟩⟩

end Order

/-! ### Histories -/

/-- The database after a request. -/
def Db.request (be : Backend) (s : Db) (req : Request) : Option Db := some (req.serve be s)

/-- **Decisions without an order**: in every history they do not depend on the order of the rows as long as, and only
as long as, the rows that may come first agree. -/
theorem decisions_order_free (be : Backend) (devices : List DeviceRow) (reqs : List Request) :
    Run.Along (Db.request be) (fun s req => (req.serve be s).OrderFree) { devices } reqs ↔
      Run.Along (Db.request be) (fun s req => (req.serve be s).Agrees) { devices } reqs :=
  ⟨fun h => h.mono fun _ _ => orderFree_iff.mp, fun h => h.mono fun _ _ => orderFree_iff.mpr⟩

/-- Bob accepts two invites to the folder, one to read and one to write. -/
def twiceInvited : List Request :=
  [.createFolder { principal := .user "alice", folderId := "f", rootNodeId := "root", grantId := "g0" },
    .createInvite { principal := .user "alice", folderId := "f", invitedEmail := .string "bob@b",
                    scopeNodeId := .undefined, canWrite := false, now := 0, inviteId := "i1", inviteToken := "t1" },
    .createInvite { principal := .user "alice", folderId := "f", invitedEmail := .string "bob@b",
                    scopeNodeId := .undefined, canWrite := true, now := 0, inviteId := "i2", inviteToken := "t2" },
    .acceptInvite { principal := .user "bob", inviteToken := "t1", now := 0, grantId := "g1" },
    .acceptInvite { principal := .user "bob", inviteToken := "t2", now := 0, grantId := "g2" }]

/-- Whether he may write depends on which row comes first. -/
theorem decisions_by_order :
    ¬ Run.Along (Db.request .pg) (fun s req => (req.serve .pg s).OrderFree) { devices := [] } twiceInvited := by
  intro h
  have hlast := h.2.2.2.2.1
  have hsame := hlast.checkGrant _ (List.reverse_perm _) "root" (.user "bob") .write
  revert hsame
  decide +kernel

end Valv.Server
