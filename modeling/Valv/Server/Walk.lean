import Valv.Lib.Exec
import Valv.Lib.Forest
import Valv.Server.Accept

/-!
# Where a grant is found

`checkGrant` told as a function of the database, and what a grant it finds says: a row of the
principal for the node's folder, scoped to the node or to something above it.

* `authz`: the answer of `checkGrant`; `runBody_checkGrant`.
* `authz_granted`: the row behind an answer.
-/

namespace Valv.Server

open Valv.Conc Valv.Table Valv.Forest StateTransition

namespace Db

/-- The parent of a node that has one. -/
def parentOf (s : Db) (n : String) : Option String := (s.node n).bind NodeRow.parentId

/-- What the walk knows about the user behind a principal. -/
def principalUser (s : Db) : Principal → Option String
  | .user _ => none
  | .device deviceId => (lookup DeviceRow.deviceId deviceId s.devices).bind DeviceRow.userId

/-- The grant is one of the principal's. -/
def grantee (s : Db) (principal : Principal) (g : FolderGrantRow) : Bool :=
  principalCondition principal (s.principalUser principal) g

/-- The principal's grant for a scope. -/
def grantAt (s : Db) (folderId scopeNodeId : String) (principal : Principal) : Option FolderGrantRow :=
  s.folderGrants.find? fun g =>
    g.scopeNodeId = scopeNodeId && g.folderId = folderId && s.grantee principal g

/-- The loop of `checkGrant`. -/
def walk (s : Db) (folderId : String) (principal : Principal) (require : GrantRequirement) :
    ℕ → Option String → Option String → AuthzResult
  | 0, _, _ => .denied .noGrant
  | fuel + 1, currentId, parentId =>
    match truthy currentId with
    | none => .denied .noGrant
    | some current =>
      match s.grantAt folderId current principal with
      | some g => grantResult g require
      | none =>
        match truthy parentId with
        | none => .denied .noGrant
        | some p => s.walk folderId principal require fuel ((s.node p).map NodeRow.nodeId) (s.parentOf p)

/-- The answer of `checkGrant`. -/
def authz (s : Db) (n : String) (principal : Principal) (require : GrantRequirement) : AuthzResult :=
  match s.node n with
  | none => .denied .noGrant
  | some target => s.walk target.folderId principal require maxGrantWalkDepth (some target.nodeId) target.parentId

end Db

variable {s : Db} {folderId n : String} {principal : Principal} {require : GrantRequirement}

theorem runBody_loadGrant (scopeNodeId : String) :
    (loadGrant folderId scopeNodeId principal).runBody s =
      (s, .ok (s.grantAt folderId scopeNodeId principal)) := by
  cases principal <;> rfl

theorem runBody_walkGrants (fuel : ℕ) (currentId parentId : Option String) :
    (walkGrants folderId principal require fuel currentId parentId).runBody s =
      (s, .ok (s.walk folderId principal require fuel currentId parentId)) := by
  induction fuel generalizing currentId parentId with
  | zero => rfl
  | succ fuel ih =>
    rw [walkGrants, Db.walk]
    cases truthy currentId with
    | none => rfl
    | some current =>
      dsimp only
      rw [Proc.runBody_bind_of_ok (runBody_loadGrant current)]
      cases s.grantAt folderId current principal with
      | some g => rfl
      | none =>
        cases truthy parentId with
        | none => rfl
        | some p =>
          dsimp only
          rw [loadNode, Proc.runBody_bind_of_ok (Proc.runBody_read _ s)]
          exact ih _ _

/-- **`checkGrant` as a function.** -/
theorem runBody_checkGrant (n : String) (principal : Principal) (require : GrantRequirement) :
    (checkGrant n principal require).runBody s = (s, .ok (s.authz n principal require)) := by
  rw [checkGrant, loadNode, Proc.runBody_bind_of_ok (Proc.runBody_read _ s), Db.authz]
  cases s.node n with
  | none => rfl
  | some target => exact runBody_walkGrants _ _ _

/-- The row that a grant for a scope comes from. -/
theorem Db.grantAt_some {scopeNodeId : String} {g : FolderGrantRow}
    (h : s.grantAt folderId scopeNodeId principal = some g) :
    g ∈ s.folderGrants ∧ g.scopeNodeId = scopeNodeId ∧ g.folderId = folderId ∧ s.grantee principal g = true := by
  have hmem := List.mem_of_find?_eq_some h
  have hcond := List.find?_some h
  rw [Bool.and_eq_true, Bool.and_eq_true, decide_eq_true_eq, decide_eq_true_eq] at hcond
  exact ⟨hmem, hcond.1.1, hcond.1.2, hcond.2⟩

theorem truthy_some {id : Option String} {a : String} (h : truthy id = some a) : id = some a :=
  (Option.filter_eq_some_iff.mp h).1

/-- What a granted answer says about the row it comes from. -/
structure GrantedBy (s : Db) (folderId : String) (principal : Principal) (require : GrantRequirement)
    (n : String) (g : FolderGrantRow) : Prop where
  mem : g ∈ s.folderGrants
  folder : g.folderId = folderId
  grantee : s.grantee principal g = true
  reaches : Reaches s.parentOf n g.scopeNodeId
  allows : grantResult g require = .granted g.grantId g.scopeNodeId g.canWrite

theorem grantResult_granted {g : FolderGrantRow} {grantId scopeNodeId : String} {canWrite : Bool}
    (h : grantResult g require = .granted grantId scopeNodeId canWrite) :
    grantResult g require = .granted g.grantId g.scopeNodeId g.canWrite ∧ g.grantId = grantId ∧
      g.scopeNodeId = scopeNodeId ∧ g.canWrite = canWrite := by
  have hsame : grantResult g require = .granted g.grantId g.scopeNodeId g.canWrite := by
    cases require with
    | read =>
      rw [grantResult] at h ⊢
      split at h
      · next hread => rw [if_pos hread]
      · cases h
    | write =>
      rw [grantResult] at h ⊢
      split at h
      · next hwrite => rw [if_pos hwrite]
      · cases h
  have hinj := hsame.symm.trans h
  injection hinj with h₁ h₂ h₃
  exact ⟨hsame, h₁, h₂, h₃⟩

theorem walk_granted {fuel : ℕ} {grantId scopeNodeId : String} {canWrite : Bool}
    (h : s.walk folderId principal require fuel (some n) (s.parentOf n) = .granted grantId scopeNodeId canWrite) :
    ∃ g, GrantedBy s folderId principal require n g ∧ g.grantId = grantId ∧ g.scopeNodeId = scopeNodeId ∧
      g.canWrite = canWrite := by
  induction fuel generalizing n with
  | zero => cases h
  | succ fuel ih =>
    rw [Db.walk] at h
    cases hcur : truthy (some n) with
    | none =>
      rw [hcur] at h
      cases h
    | some current =>
      rw [hcur] at h
      dsimp only at h
      cases truthy_some hcur
      cases hg : s.grantAt folderId n principal with
      | some g =>
        rw [hg] at h
        obtain ⟨hmem, hscope, hfolder, hgrantee⟩ := Db.grantAt_some hg
        obtain ⟨hallows, hid, hscope', hwrite⟩ := grantResult_granted h
        have hself : Reaches s.parentOf n g.scopeNodeId := by
          rw [hscope]
          exact Reaches.refl n
        exact ⟨g, ⟨hmem, hfolder, hgrantee, hself, hallows⟩, hid, hscope', hwrite⟩
      | none =>
        rw [hg] at h
        dsimp only at h
        cases hp : truthy (s.parentOf n) with
        | none =>
          rw [hp] at h
          cases h
        | some p =>
          rw [hp] at h
          dsimp only at h
          cases hr : s.node p with
          | none =>
            rw [hr] at h
            cases fuel <;> cases h
          | some r =>
            rw [hr, Option.map_some, lookup_key hr] at h
            obtain ⟨g, hgranted, hrest⟩ := ih h
            exact ⟨g, { hgranted with reaches := Reaches.step (truthy_some hp) hgranted.reaches }, hrest⟩

/-- **The row behind a grant**: a row of the principal for the folder of the node, scoped to the
node or above it. -/
theorem authz_granted {grantId scopeNodeId : String} {canWrite : Bool}
    (h : s.authz n principal require = .granted grantId scopeNodeId canWrite) :
    ∃ r g, s.node n = some r ∧ GrantedBy s r.folderId principal require n g ∧ g.grantId = grantId ∧
      g.scopeNodeId = scopeNodeId ∧ g.canWrite = canWrite := by
  rw [Db.authz] at h
  cases hr : s.node n with
  | none =>
    rw [hr] at h
    cases h
  | some r =>
    rw [hr] at h
    dsimp only at h
    have hparent : s.parentOf n = r.parentId := by rw [Db.parentOf, hr, Option.bind_some]
    rw [← hparent, lookup_key hr] at h
    obtain ⟨g, hg⟩ := walk_granted h
    exact ⟨r, g, rfl, hg⟩

/-! ### The nearest grant -/

/-- What the columns of a grant allow. -/
def FolderGrantRow.allows (g : FolderGrantRow) : GrantRequirement → Bool
  | .write => g.canWrite
  | .read => g.canRead || g.canWrite

theorem FolderGrantRow.allows_of_write {g : FolderGrantRow} (h : g.allows .write = true)
    (require : GrantRequirement) : g.allows require = true := by
  have hwrite : g.canWrite = true := h
  cases require with
  | read => rw [allows, hwrite, Bool.or_true]
  | write => exact h

theorem grantResult_eq (g : FolderGrantRow) (require : GrantRequirement) : grantResult g require =
    if g.allows require = true then .granted g.grantId g.scopeNodeId g.canWrite
    else .denied .insufficientPermission := by
  cases require <;> rfl

theorem allows_of_granted {g : FolderGrantRow} {grantId scopeNodeId : String} {canWrite : Bool}
    (h : grantResult g require = .granted grantId scopeNodeId canWrite) : g.allows require = true := by
  rw [grantResult_eq] at h
  split at h
  · next hallows => exact hallows
  · cases h

namespace Db

/-- The grant that the walk from a node finds first; the first argument is the depth that is left. -/
def nearest (s : Db) (folderId : String) (principal : Principal) : ℕ → String → Option FolderGrantRow
  | 0, _ => none
  | fuel + 1, n =>
    if n = "" then none
    else match s.grantAt folderId n principal with
      | some g => some g
      | none => (truthy (s.parentOf n)).bind fun p =>
          if (s.node p).isSome then s.nearest folderId principal fuel p else none

/-- `m` is `k` levels above `n`, and the walk comes to it. -/
inductive Climbs (s : Db) : ℕ → String → String → Prop
  | here {n : String} : n ≠ "" → Climbs s 0 n n
  | up {k : ℕ} {n p m : String} : n ≠ "" → s.parentOf n = some p → (s.node p).isSome → Climbs s k p m →
      Climbs s (k + 1) n m

end Db

theorem truthy_of_ne {a : String} (h : a ≠ "") : truthy (some a) = some a := by simp [truthy, h]

theorem Db.Climbs.ne_nil {k : ℕ} {m : String} (h : s.Climbs k n m) : n ≠ "" := by
  cases h with
  | here hn => exact hn
  | up hn _ _ _ => exact hn

/-- The walk is the search for the nearest grant. -/
theorem walk_eq_nearest (fuel : ℕ) (n : String) :
    s.walk folderId principal require fuel (some n) (s.parentOf n) =
      match s.nearest folderId principal fuel n with
      | some g => grantResult g require
      | none => .denied .noGrant := by
  induction fuel generalizing n with
  | zero => rfl
  | succ fuel ih =>
    rw [Db.walk, Db.nearest]
    by_cases hn : n = ""
    · rw [if_pos hn, hn]
      rfl
    · rw [if_neg hn, truthy_of_ne hn]
      dsimp only
      cases s.grantAt folderId n principal with
      | some g => rfl
      | none =>
        dsimp only
        cases truthy (s.parentOf n) with
        | none => rfl
        | some p =>
          dsimp only [Option.bind_some]
          cases hp : s.node p with
          | none =>
            rw [if_neg (by simp), Option.map_none]
            cases fuel <;> rfl
          | some r =>
            rw [if_pos (by simp), Option.map_some, lookup_key hp]
            exact ih p

/-- **`checkGrant` grants** what the nearest grant allows. -/
theorem grants_iff_nearest : s.grants n principal require = true ↔ ∃ r g, s.node n = some r ∧
    s.nearest r.folderId principal maxGrantWalkDepth n = some g ∧ g.allows require = true := by
  rw [Db.grants, runBody_checkGrant, Db.authz]
  cases hr : s.node n with
  | none => simp
  | some r =>
    have hparent : s.parentOf n = r.parentId := by rw [Db.parentOf, hr, Option.bind_some]
    have hid : r.nodeId = n := lookup_key hr
    dsimp only
    rw [hid, ← hparent, walk_eq_nearest]
    cases hnearest : s.nearest r.folderId principal maxGrantWalkDepth n with
    | none => simp [hnearest]
    | some g =>
      dsimp only
      rw [grantResult_eq]
      by_cases hallows : g.allows require = true
      · simp [hnearest, hallows]
      · simp [hnearest, hallows]

theorem nearest_succ {fuel : ℕ} {g : FolderGrantRow} (h : s.nearest folderId principal fuel n = some g) :
    s.nearest folderId principal (fuel + 1) n = some g := by
  induction fuel generalizing n with
  | zero => cases h
  | succ fuel ih =>
    rw [Db.nearest] at h ⊢
    split at h
    · cases h
    next hn =>
    rw [if_neg hn]
    cases hg : s.grantAt folderId n principal with
    | some g' =>
      rw [hg] at h
      exact h
    | none =>
      rw [hg] at h
      dsimp only at h ⊢
      obtain ⟨p, hp, hrest⟩ := Option.bind_eq_some_iff.mp h
      rw [hp, Option.bind_some]
      split at hrest
      · next hnode =>
        rw [if_pos hnode]
        exact ih hrest
      · cases hrest

theorem nearest_mono {fuel fuel' : ℕ} {g : FolderGrantRow} (hle : fuel ≤ fuel')
    (h : s.nearest folderId principal fuel n = some g) : s.nearest folderId principal fuel' n = some g := by
  induction hle with
  | refl => exact h
  | step _ ih => exact nearest_succ ih

/-- A grant above a node, not too far away, is found unless one is nearer. -/
theorem nearest_of_climbs {k fuel : ℕ} {m : String} (h : s.Climbs k n m) (hk : k < fuel)
    (hm : (s.grantAt folderId m principal).isSome) : (s.nearest folderId principal fuel n).isSome := by
  induction h generalizing fuel with
  | @here n hn =>
    obtain ⟨fuel, rfl⟩ : ∃ f, fuel = f + 1 := ⟨fuel - 1, by omega⟩
    obtain ⟨g, hg⟩ := Option.isSome_iff_exists.mp hm
    rw [Db.nearest, if_neg hn, hg]
    rfl
  | @up k n p m hn hp hnode hclimbs ih =>
    obtain ⟨fuel, rfl⟩ : ∃ f, fuel = f + 1 := ⟨fuel - 1, by omega⟩
    rw [Db.nearest, if_neg hn]
    cases s.grantAt folderId n principal with
    | some g => rfl
    | none =>
      dsimp only
      rw [hp, truthy_of_ne hclimbs.ne_nil, Option.bind_some, if_pos hnode]
      exact ih (by omega) hm

/-- The walk comes to the scope of the grant that it finds. -/
theorem climbs_of_nearest {fuel : ℕ} {g : FolderGrantRow} (h : s.nearest folderId principal fuel n = some g) :
    ∃ k m, k < fuel ∧ s.Climbs k n m ∧ s.grantAt folderId m principal = some g := by
  induction fuel generalizing n with
  | zero => cases h
  | succ fuel ih =>
    rw [Db.nearest] at h
    split at h
    · cases h
    next hn =>
    cases hat : s.grantAt folderId n principal with
    | some g' =>
      rw [hat] at h
      cases h
      exact ⟨0, n, by omega, .here hn, hat⟩
    | none =>
      rw [hat] at h
      obtain ⟨p, hp, hcont⟩ := Option.bind_eq_some_iff.mp h
      split at hcont
      · next hnode =>
        obtain ⟨k, m, hk, hclimbs, hm⟩ := ih hcont
        exact ⟨k + 1, m, by omega, .up hn (truthy_some hp) hnode hclimbs, hm⟩
      · cases hcont

/-- The nearest grant of a node below `m` is scoped below `m`, or it is the nearest one of `m`. -/
theorem nearest_below {m : String} (h : Reaches s.parentOf n m) {fuel : ℕ} {g : FolderGrantRow}
    (hg : s.nearest folderId principal fuel n = some g) :
    (∃ d, d ≠ m ∧ Reaches s.parentOf d m ∧ s.grantAt folderId d principal = some g) ∨
    ∃ fuel' ≤ fuel, s.nearest folderId principal fuel' m = some g := by
  induction h using Relation.ReflTransGen.head_induction_on generalizing fuel with
  | refl => exact .inr ⟨fuel, le_rfl, hg⟩
  | @head n p hlink hrest ih =>
    by_cases hnm : n = m
    · exact .inr ⟨fuel, le_rfl, hnm ▸ hg⟩
    cases fuel with
    | zero => cases hg
    | succ fuel =>
      rw [Db.nearest] at hg
      split at hg
      · cases hg
      cases hat : s.grantAt folderId n principal with
      | some g' =>
        rw [hat] at hg
        cases hg
        exact .inl ⟨n, hnm, Reaches.step hlink hrest, hat⟩
      | none =>
        rw [hat] at hg
        obtain ⟨q, hq, hcont⟩ := Option.bind_eq_some_iff.mp hg
        cases (truthy_some hq).symm.trans hlink
        split at hcont
        · rcases ih hcont with hbelow | ⟨fuel', hle, hm⟩
          · exact .inl hbelow
          · exact .inr ⟨fuel', by omega, hm⟩
        · cases hcont

end Valv.Server
