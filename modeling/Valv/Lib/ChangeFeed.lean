import Mathlib.Data.List.Basic
import Mathlib.Logic.Function.Basic
import Mathlib.Tactic.Common

/-!
# Change feeds

A table keeps the item of every key, a deleted one included, with the number of its last change.  A replica asks
for what has changed since a number; a deletion may be held back, and is then in a set of deferred keys.

* `applyItems`: what the replica makes of an answer.
* `Follows`: each key is as in the table, or numbered above `since`, or deferred.
* `Writes`, `Follows.write`: what may happen to a row of the table.
* `Reports`, `Follows.report`: an answer; afterwards each key that is not deferred is as in the table.
-/

namespace Valv.ChangeFeed

variable {κ ι : Type} [DecidableEq κ]

section Items

variable (key : ι → κ) (gone : ι → Bool)

/-- A live item is added or replaced, a deleted one is removed. -/
def applyItem (replica : κ → Option ι) (i : ι) : κ → Option ι :=
  Function.update replica (key i) (if gone i then none else some i)

def applyItems (replica : κ → Option ι) (items : List ι) : κ → Option ι := items.foldl (applyItem key gone) replica

/-- What a table shows for a key. -/
def shown (table : κ → Option ι) (n : κ) : Option ι := (table n).filter fun i => !gone i

end Items

section Feeds

variable (seq : ι → ℕ) (gone : ι → Bool)

/-- The replica is behind the table on what the feed will report only. -/
structure Follows (table replica : κ → Option ι) (since : ℕ) (deferred : List κ) : Prop where
  there : ∀ n ∈ deferred, (table n).isSome
  known : ∀ n, replica n = shown gone table n ∨ (∃ i ∈ table n, since < seq i) ∨ n ∈ deferred

/-- What may happen to the row of a key: nothing, or a change numbered above `since`, or any change as long as the
key is neither shown nor in the replica. -/
def Writes (table table' replica : κ → Option ι) (since : ℕ) (deferred : List κ) (n : κ) : Prop :=
  table' n = table n ∨ (∃ i ∈ table' n, since < seq i) ∨
    replica n = none ∧ n ∉ deferred ∧ ∀ i ∈ table' n, gone i = true

instance [DecidableEq ι] (table table' replica : κ → Option ι) (since : ℕ) (deferred : List κ) (n : κ) :
    Decidable (Writes seq gone table table' replica since deferred n) := inferInstanceAs (Decidable (_ ∨ _ ∨ _))

end Feeds

/-- An answer: rows of the table, and among them all that have changed since and all that were deferred, but for
those that are deferred now. -/
structure Reports (key : ι → κ) (seq : ι → ℕ) (table : κ → Option ι) (items : List ι) (since : ℕ)
    (deferred deferred' : List κ) : Prop where
  keyed : ∀ n i, table n = some i → key i = n
  row : ∀ i ∈ items, table (key i) = some i
  changed : ∀ n i, table n = some i → since < seq i → i ∈ items ∨ n ∈ deferred'
  ready : ∀ n ∈ deferred, ∀ i, table n = some i → i ∈ items ∨ n ∈ deferred'
  there : ∀ n ∈ deferred', (table n).isSome

variable {key : ι → κ} {seq : ι → ℕ} {gone : ι → Bool} {table table' replica : κ → Option ι} {since : ℕ}
  {deferred deferred' : List κ}

/-- The last item of a key is what counts. -/
theorem applyItems_cases (items : List ι) (replica : κ → Option ι) (n : κ) :
    (∀ i ∈ items, key i ≠ n) ∧ applyItems key gone replica items n = replica n ∨
    ∃ i ∈ items, key i = n ∧ applyItems key gone replica items n = if gone i then none else some i := by
  induction items generalizing replica with
  | nil => exact .inl ⟨fun i hi => absurd hi List.not_mem_nil, rfl⟩
  | cons i items ih =>
    show _ ∧ applyItems key gone (applyItem key gone replica i) items n = _ ∨ _
    rcases ih (applyItem key gone replica i) with ⟨hnone, hrest⟩ | ⟨j, hj, hkey, hlast⟩
    · by_cases hn : key i = n
      · refine .inr ⟨i, by simp, hn, ?_⟩
        show applyItems key gone (applyItem key gone replica i) items n = _
        rw [hrest, applyItem, hn, Function.update_self]
      · refine .inl ⟨fun j hj => ?_, ?_⟩
        · rcases List.mem_cons.mp hj with rfl | hj
          · exact hn
          · exact hnone j hj
        · rw [hrest, applyItem, Function.update_of_ne (Ne.symm hn)]
    · exact .inr ⟨j, List.mem_cons_of_mem i hj, hkey, hlast⟩

/-- Items are applied through a function that keeps their keys and whether they are deleted. -/
theorem applyItems_map {f : ι → ι} (hkey : ∀ i, key (f i) = key i) (hgone : ∀ i, gone (f i) = gone i) (items : List ι)
    (replica : κ → Option ι) (n : κ) : (applyItems key gone replica items n).map f =
      applyItems key gone (fun k => (replica k).map f) (items.map f) n := by
  induction items generalizing replica with
  | nil => rfl
  | cons i items ih =>
    have hhead : (fun k => (applyItem key gone replica i k).map f) =
        applyItem key gone (fun k => (replica k).map f) (f i) := by
      funext k
      simp only [applyItem, hkey, hgone, Function.update_apply]
      split
      · cases gone i <;> rfl
      · rfl
    show (applyItems key gone (applyItem key gone replica i) items n).map f =
      applyItems key gone (applyItem key gone (fun k => (replica k).map f) (f i)) (items.map f) n
    rw [ih, hhead]

omit [DecidableEq κ] in
theorem shown_of_some {i : ι} {n : κ} (h : table n = some i) : shown gone table n = if gone i then none else some i := by
  rw [shown, h, Option.filter_some]
  cases gone i <;> rfl

omit [DecidableEq κ] in
/-- A replica that has what the table shows. -/
theorem Follows.start (hthere : ∀ n ∈ deferred, (table n).isSome) :
    Follows seq gone table (shown gone table) since deferred := ⟨hthere, fun _ => .inl rfl⟩

omit [DecidableEq κ] in
/-- **A write** of any number of rows. -/
theorem Follows.write (h : Follows seq gone table replica since deferred)
    (hw : ∀ n, Writes seq gone table table' replica since deferred n) :
    Follows seq gone table' replica since deferred where
  there n hn := by
    rcases hw n with hsame | ⟨i, hi, -⟩ | ⟨-, hnot, -⟩
    · rw [hsame]
      exact h.there n hn
    · rw [hi]
      rfl
    · exact absurd hn hnot
  known n := by
    rcases hw n with hsame | hnew | ⟨hnone, -, hgone⟩
    · rw [shown, hsame]
      exact h.known n
    · exact .inr (.inl hnew)
    · refine .inl (hnone.trans ?_)
      cases hrow : table' n with
      | none => rw [shown, hrow, Option.filter_none]
      | some i => rw [shown_of_some hrow, if_pos (hgone i hrow)]

/-- **An answer** brings every key up to date that is not deferred. -/
theorem Follows.settle (h : Follows seq gone table replica since deferred) {items : List ι}
    (hr : Reports key seq table items since deferred deferred') {n : κ} (hn : n ∉ deferred') :
    applyItems key gone replica items n = shown gone table n := by
  have hcases : (∀ i ∈ items, key i ≠ n) ∧ applyItems key gone replica items n = replica n ∨
      ∃ i ∈ items, key i = n ∧ applyItems key gone replica items n = if gone i then none else some i :=
    applyItems_cases items replica n
  rcases hcases with ⟨hnone, hsame⟩ | ⟨i, hi, hkey, hlast⟩
  · -- no item of the key was reported, so none had to be
    have hquiet : ∀ i, table n = some i → ¬ (i ∈ items ∨ n ∈ deferred') := by
      intro i hrow hmem
      rcases hmem with hmem | hmem
      · exact hnone i hmem (hr.keyed n i hrow)
      · exact hn hmem
    rw [hsame]
    rcases h.known n with hcurrent | ⟨i, hi, hlt⟩ | hdeferred
    · exact hcurrent
    · exact absurd (hr.changed n i hi hlt) (hquiet i hi)
    · obtain ⟨i, hi⟩ := Option.isSome_iff_exists.mp (h.there n hdeferred)
      exact absurd (hr.ready n hdeferred i hi) (hquiet i hi)
  · have hrow := hr.row i hi
    rw [hkey] at hrow
    rw [hlast, shown_of_some hrow]

/-- And it leaves the replica behind by the deferred keys only, from any number on. -/
theorem Follows.report (h : Follows seq gone table replica since deferred) {items : List ι}
    (hr : Reports key seq table items since deferred deferred') (since' : ℕ) :
    Follows seq gone table (applyItems key gone replica items) since' deferred' where
  there := hr.there
  known n := by
    by_cases hn : n ∈ deferred'
    · exact .inr (.inr hn)
    · exact .inl (h.settle hr hn)

end Valv.ChangeFeed
