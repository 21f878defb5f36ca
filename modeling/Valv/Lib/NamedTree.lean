import Mathlib.Data.List.Induction
import Mathlib.Tactic.Common

/-!
# Trees of named places

A tree is told by its places: each has a key and a name, and the key of the place above it.  The path of a place is
the names on the way down to it.

* `PathFrom`: the path of a place below another one.
* `IsTree`: one place at the top, and no two of one name below the same place; then paths and keys tell each other.
* `Grafted`: a place is put below another one, wherever it was before.
* `PathFrom.kept`, `PathFrom.grafted_cases`: the paths before and after.
-/

namespace Valv.NamedTree

/-- A place of a tree, and what is there. -/
structure Place (κ ν τ : Type) where
  key : κ
  parent : Option κ
  name : ν
  kind : τ
  deriving DecidableEq, Repr

variable {κ ν τ : Type} {ps ps' : List (Place κ ν τ)} {r c : Place κ ν τ} {a b k j top : κ} {p q d : List ν} {n : ν}

/-- The names on the way down from `a`. -/
inductive PathFrom (ps : List (Place κ ν τ)) (a : κ) : κ → List ν → Prop
  | here : PathFrom ps a a []
  | child {b : κ} {p : List ν} {c : Place κ ν τ} (h : PathFrom ps a b p) (hc : c ∈ ps) (hparent : c.parent = some b) :
      PathFrom ps a c.key (p ++ [c.name])

/-- There is one place at the top, keys are keys, and names tell the places below one place apart. -/
structure IsTree (ps : List (Place κ ν τ)) (top : κ) : Prop where
  keyed : ∀ c ∈ ps, ∀ c' ∈ ps, c.key = c'.key → c = c'
  top : ∀ c ∈ ps, c.parent = none ↔ c.key = top
  siblings : ∀ c ∈ ps, ∀ c' ∈ ps, c.parent = c'.parent → c.name = c'.name → c = c'

/-! ### Paths -/

theorem PathFrom.key_of_nil (h : PathFrom ps a k []) : k = a := by
  generalize hp : ([] : List ν) = p at h
  cases h with
  | here => rfl
  | child h hc hparent => simp at hp

/-- The last step of a path. -/
theorem PathFrom.last (h : PathFrom ps a k (p ++ [n])) :
    ∃ c ∈ ps, c.key = k ∧ c.name = n ∧ ∃ b, c.parent = some b ∧ PathFrom ps a b p := by
  generalize hp : p ++ [n] = p' at h
  cases h with
  | here => simp at hp
  | @child b p' c h hc hparent =>
    obtain ⟨rfl, hname⟩ := List.append_inj' hp rfl
    exact ⟨c, hc, rfl, (List.singleton_inj.mp hname).symm, b, hparent, h⟩

/-- What is above a place on its path. -/
theorem PathFrom.above (h : PathFrom ps a k (p ++ q)) : ∃ j, PathFrom ps a j p := by
  induction q using List.reverseRecOn generalizing k with
  | nil =>
    rw [List.append_nil] at h
    exact ⟨k, h⟩
  | append_singleton q n ih =>
    rw [← List.append_assoc] at h
    obtain ⟨c, -, -, -, b, -, hb⟩ := h.last
    exact ih hb

theorem PathFrom.trans (h : PathFrom ps a b p) (h' : PathFrom ps b k q) : PathFrom ps a k (p ++ q) := by
  induction h' with
  | here =>
    rw [List.append_nil]
    exact h
  | @child j q c _ hc hparent ih =>
    rw [← List.append_assoc]
    exact ih.child hc hparent

/-- A path that leads on begins with something below. -/
theorem PathFrom.first (h : PathFrom ps a k p) (hne : p ≠ []) : ∃ c ∈ ps, c.parent = some a := by
  induction h with
  | here => exact absurd rfl hne
  | @child b p c hb hc hparent ih =>
    by_cases hp : p = []
    · subst hp
      exact ⟨c, hc, hb.key_of_nil ▸ hparent⟩
    · exact ih hp

section Tree

variable (h : IsTree ps top)
include h

/-- A place has one path. -/
theorem IsTree.path_unique (hp : PathFrom ps top k p) (hq : PathFrom ps top k q) : p = q := by
  induction hp generalizing q with
  | here =>
    rcases List.eq_nil_or_concat q with rfl | ⟨q, n, rfl⟩
    · rfl
    · rw [List.concat_eq_append] at hq
      obtain ⟨c, hc, hkey, -, b, hparent, -⟩ := hq.last
      rw [(h.top c hc).mpr hkey] at hparent
      cases hparent
  | @child b p c hb hc hparent ih =>
    rcases List.eq_nil_or_concat q with rfl | ⟨q, n, rfl⟩
    · rw [(h.top c hc).mpr hq.key_of_nil] at hparent
      cases hparent
    · rw [List.concat_eq_append] at hq ⊢
      obtain ⟨c', hc', hkey, rfl, b', hparent', hb'⟩ := hq.last
      obtain rfl := h.keyed c' hc' c hc hkey
      rw [hparent] at hparent'
      cases hparent'
      rw [ih hb']

/-- A path leads to one place. -/
theorem IsTree.key_unique (hk : PathFrom ps top k p) (hj : PathFrom ps top j p) : k = j := by
  induction hk generalizing j with
  | here => exact hj.key_of_nil.symm
  | @child b p c hb hc hparent ih =>
    obtain ⟨c', hc', rfl, hname, b', hparent', hb'⟩ := hj.last
    obtain rfl := ih hb'
    rw [h.siblings c hc c' hc' (hparent.trans hparent'.symm) hname.symm]

/-- The path to a place leads over those that the place is below. -/
theorem IsTree.split (hq : PathFrom ps a k q) (hp : PathFrom ps top k p) :
    ∃ p', PathFrom ps top a p' ∧ p = p' ++ q := by
  induction hq generalizing p with
  | here => exact ⟨p, hp, (List.append_nil p).symm⟩
  | @child b q c hb hc hparent ih =>
    rcases List.eq_nil_or_concat p with rfl | ⟨p, n, rfl⟩
    · rw [(h.top c hc).mpr hp.key_of_nil] at hparent
      cases hparent
    · rw [List.concat_eq_append] at hp ⊢
      obtain ⟨c', hc', hkey, rfl, b', hparent', hb'⟩ := hp.last
      obtain rfl := h.keyed c' hc' c hc hkey
      rw [hparent] at hparent'
      cases hparent'
      obtain ⟨p', ha, rfl⟩ := ih hb'
      exact ⟨p', ha, List.append_assoc p' q [c'.name]⟩

end Tree

/-! ### A place that is put elsewhere -/

/-- The place `r` is there, in place of the one with its key. -/
def Grafted (ps ps' : List (Place κ ν τ)) (r : Place κ ν τ) : Prop :=
  ∀ c, c ∈ ps' ↔ (c ∈ ps ∧ c.key ≠ r.key) ∨ c = r

section Grafted

variable (hg : Grafted ps ps' r)
include hg

theorem Grafted.tree (h : IsTree ps top) (hparent : r.parent = some b) (htop : r.key ≠ top)
    (hfree : ∀ c ∈ ps, c.parent = some b → c.name = r.name → c.key = r.key) : IsTree ps' top where
  keyed c hc c' hc' hkey := by
    rcases (hg c).mp hc with ⟨hc, hne⟩ | rfl
    · rcases (hg c').mp hc' with ⟨hc', -⟩ | rfl
      · exact h.keyed c hc c' hc' hkey
      · exact absurd hkey hne
    · rcases (hg c').mp hc' with ⟨-, hne⟩ | rfl
      · exact absurd hkey.symm hne
      · rfl
  top c hc := by
    rcases (hg c).mp hc with ⟨hc, -⟩ | rfl
    · exact h.top c hc
    · rw [hparent]
      exact ⟨nofun, fun he => absurd he htop⟩
  siblings c hc c' hc' hparents hname := by
    rcases (hg c).mp hc with ⟨hc, hne⟩ | rfl
    · rcases (hg c').mp hc' with ⟨hc', -⟩ | rfl
      · exact h.siblings c hc c' hc' hparents hname
      · exact absurd (hfree c hc (hparents.trans hparent) hname) hne
    · rcases (hg c').mp hc' with ⟨hc', hne⟩ | rfl
      · exact absurd (hfree c' hc' (hparents.symm.trans hparent) hname.symm) hne
      · rfl

/-- A place keeps its path when the one that is grafted is not on it. -/
theorem PathFrom.kept (h : PathFrom ps a k p) (hoff : ∀ p', p' <+: p → ¬ PathFrom ps a r.key p') :
    PathFrom ps' a k p := by
  induction h with
  | here => exact .here
  | @child b p c hb hc hparent ih =>
    have hpath := hb.child hc hparent
    have hne : c.key ≠ r.key := fun he => hoff _ List.prefix_rfl (he ▸ hpath)
    exact (ih fun p' hp' => hoff p' (hp'.trans (List.prefix_append p [c.name]))).child ((hg c).mpr (.inl ⟨hc, hne⟩)) hparent

/-- The way from the grafted place on is the way from where it was. -/
theorem PathFrom.grafted_cases (h : IsTree ps top) (hparent : r.parent = some b) (hb : PathFrom ps top b d)
    (hoff : ∀ p', p' <+: d → ¬ PathFrom ps top r.key p') (hk : PathFrom ps' top k p) :
    PathFrom ps top k p ∨ ∃ q, p = d ++ r.name :: q ∧ PathFrom ps r.key k q := by
  induction hk with
  | here => exact .inl .here
  | @child b' p c hb' hc hparent' ih =>
    rcases (hg c).mp hc with ⟨hc, -⟩ | rfl
    · rcases ih with hold | ⟨q, rfl, hq⟩
      · exact .inl (hold.child hc hparent')
      · exact .inr ⟨q ++ [c.name], by simp, hq.child hc hparent'⟩
    · rw [hparent] at hparent'
      cases hparent'
      refine .inr ⟨[], ?_, .here⟩
      rcases ih with hold | ⟨q, -, hq⟩
      · rw [h.path_unique hold hb]
      · -- the place would be below itself
        obtain ⟨p', hp', rfl⟩ := h.split hq hb
        exact absurd hp' (hoff p' (List.prefix_append p' q))

end Grafted

end Valv.NamedTree
