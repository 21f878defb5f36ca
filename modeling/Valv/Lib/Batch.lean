import Mathlib.Data.List.Nodup
import Mathlib.Logic.Function.Iterate

/-!
# Batches

A pass comes to the first `n` items of a list, again and again.

* `clear`: one pass takes away the items that are not stuck, each on its own.  `cleared_iff`: passes take away
  all of them when fewer than `n` stuck items stand before each.
* `reaches_iff`: passes that go from stage to stage until one cannot be left.
-/

namespace Valv.Batch

/-! ### One item at a time -/

section Clear

variable {α : Type} {n : ℕ} {stuck : α → Bool} {xs ys : List α}

/-- A pass over the first `n` items: what is not stuck goes. -/
def clear (n : ℕ) (stuck : α → Bool) (xs : List α) : List α := (xs.take n).filter stuck ++ xs.drop n

/-- Fewer than `n` stuck items stand before each of the others. -/
def Open (n : ℕ) (stuck : α → Bool) (xs : List α) : Prop :=
  ∀ before x after, xs = before ++ x :: after → stuck x = false → before.countP stuck < n

theorem clear_eq_filter [DecidableEq α] (h : xs.Nodup) : clear n stuck xs = xs.filter fun x => x ∉ xs.take n || stuck x := by
  have hdisjoint : List.Disjoint (xs.take n) (xs.drop n) := by
    rw [← List.take_append_drop n xs] at h
    exact (List.nodup_append'.mp h).2.2
  have hfirst : (xs.take n).filter (fun x => x ∉ xs.take n || stuck x) = (xs.take n).filter stuck :=
    List.filter_congr fun x hx => by simp [hx]
  have hlater : (xs.drop n).filter (fun x => x ∉ xs.take n || stuck x) = xs.drop n := by
    rw [List.filter_eq_self]
    intro x hx
    have hnot : x ∉ xs.take n := fun hmem => hdisjoint hmem hx
    simp [hnot]
  have hsplit : xs.filter (fun x => x ∉ xs.take n || stuck x) =
      (xs.take n ++ xs.drop n).filter fun x => x ∉ xs.take n || stuck x := by
    rw [List.take_append_drop]
  rw [hsplit, List.filter_append, hfirst, hlater, clear]

theorem countP_clear : (clear n stuck xs).countP stuck = xs.countP stuck := by
  have hsplit : xs.countP stuck = (xs.take n).countP stuck + (xs.drop n).countP stuck := by
    rw [← List.countP_append, List.take_append_drop]
  rw [hsplit, clear, List.countP_append, List.countP_filter]
  simp

theorem clear_append (h : n ≤ xs.length) : clear n stuck (xs ++ ys) = clear n stuck xs ++ ys := by
  rw [clear, clear, List.take_append_of_le_length h, List.drop_append_of_le_length h, List.append_assoc]

/-- An item that is not stuck, in a list after a pass, stands in the part that the pass has not come to. -/
theorem clear_split {before after : List α} {x : α} (h : clear n stuck xs = before ++ x :: after)
    (hx : stuck x = false) : ∃ mid, before = (xs.take n).filter stuck ++ mid ∧ xs.drop n = mid ++ x :: after := by
  rcases List.append_eq_append_iff.mp h with ⟨mid, hbefore, hdrop⟩ | ⟨mid, htake, hafter⟩
  · exact ⟨mid, hbefore, hdrop⟩
  · cases mid with
    | nil => exact ⟨[], by simp [htake], by simpa using hafter.symm⟩
    | cons y mid =>
      have hy : x = y := by
        rw [List.cons_append] at hafter
        exact (List.cons.inj hafter).1
      have hmem : x ∈ (xs.take n).filter stuck := by
        rw [htake, hy]
        simp
      rw [(List.mem_filter.mp hmem).2] at hx
      cases hx

theorem Open.clear (h : Open n stuck xs) : Open n stuck (clear n stuck xs) := by
  intro before x after heq hx
  obtain ⟨mid, rfl, hdrop⟩ := clear_split heq hx
  have hxs : xs = (xs.take n ++ mid) ++ x :: after := by
    rw [List.append_assoc, ← hdrop, List.take_append_drop]
  have hcount := h _ x after hxs hx
  rw [List.countP_append] at hcount ⊢
  rw [List.countP_filter]
  simpa using hcount

/-- A pass takes an item away. -/
theorem Open.progress (h : Open n stuck xs) {x : α} (hmem : x ∈ xs) (hx : stuck x = false) :
    (Batch.clear n stuck xs).countP (!stuck ·) < xs.countP (!stuck ·) := by
  have hsplit : xs.countP (!stuck ·) = (xs.take n).countP (!stuck ·) + (xs.drop n).countP (!stuck ·) := by
    rw [← List.countP_append, List.take_append_drop]
  have hcleared : ((xs.take n).filter stuck).countP (!stuck ·) = 0 := by
    rw [List.countP_filter]
    simp
  have hfirst : 0 < (xs.take n).countP (!stuck ·) := by
    by_contra hzero
    have hall : ∀ y ∈ xs.take n, stuck y = true := by simpa using hzero
    -- then the item stands behind `n` stuck ones
    have hlater : x ∈ xs.drop n := by
      rw [← List.take_append_drop n xs, List.mem_append] at hmem
      exact hmem.resolve_left fun htake => by simp [hall x htake] at hx
    obtain ⟨mid, after, hdrop⟩ := List.append_of_mem hlater
    have hxs : xs = (xs.take n ++ mid) ++ x :: after := by
      rw [List.append_assoc, ← hdrop, List.take_append_drop]
    have hcount := h _ x after hxs hx
    have hlong : n ≤ xs.length := by
      by_contra hshort
      rw [List.drop_eq_nil_of_le (by omega)] at hlater
      cases hlater
    have hstuck : (xs.take n).countP stuck = n := by
      rw [List.countP_eq_length.mpr hall, List.length_take]
      omega
    rw [List.countP_append] at hcount
    omega
  rw [Batch.clear, List.countP_append, hcleared, hsplit]
  omega

/-- Behind `n` stuck items nothing goes. -/
theorem iterate_clear_keeps {before after : List α} {x : α} (h : n ≤ before.countP stuck) (k : ℕ) :
    x ∈ (clear n stuck)^[k] (before ++ x :: after) := by
  induction k generalizing before with
  | zero => simp
  | succ k ih =>
    rw [Function.iterate_succ_apply, clear_append (Nat.le_trans h List.countP_le_length)]
    apply ih
    rw [countP_clear]
    exact h

/-- **When passes take away all that is not stuck.** -/
theorem cleared_iff : (∃ k, ∀ x ∈ (clear n stuck)^[k] xs, stuck x = true) ↔ Open n stuck xs := by
  constructor
  · intro h before x after heq hx
    obtain ⟨k, hk⟩ := h
    by_contra hfull
    rw [heq] at hk
    have hstuck := hk x (iterate_clear_keeps (by omega) k)
    rw [hx] at hstuck
    cases hstuck
  · intro h
    -- the number of items that are not stuck goes down
    induction hcount : xs.countP (!stuck ·) using Nat.strongRecOn generalizing xs with
    | ind count ih =>
      by_cases hall : ∀ x ∈ xs, stuck x = true
      · exact ⟨0, hall⟩
      · simp only [not_forall, Bool.not_eq_true] at hall
        obtain ⟨x, hmem, hx⟩ := hall
        obtain ⟨k, hk⟩ := ih _ (hcount ▸ h.progress hmem hx) h.clear rfl
        exact ⟨k + 1, hk⟩

end Clear

/-! ### Stages -/

section Stages

variable {σ : Type} {f : σ → σ} {stage : ℕ → σ} {ok : ℕ → Prop}

theorem iterate_stages (hok : ∀ j, ok j → f (stage j) = stage (j + 1)) {k : ℕ} (h : ∀ j < k, ok j) :
    f^[k] (stage 0) = stage k := by
  induction k with
  | zero => rfl
  | succ k ih => rw [Function.iterate_succ_apply', ih fun j hj => h j (by omega), hok k (h k (by omega))]

/-- **What passes reach**: a stage that none before it is stuck at. -/
theorem reaches_iff (hok : ∀ j, ok j → f (stage j) = stage (j + 1)) (hstuck : ∀ j, ¬ok j → f (stage j) = stage j)
    {P : σ → Prop} : (∃ k, P (f^[k] (stage 0))) ↔ ∃ k, (∀ j < k, ok j) ∧ P (stage k) := by
  have hstage : ∀ k, ∃ m, (∀ j < m, ok j) ∧ f^[k] (stage 0) = stage m := by
    intro k
    induction k with
    | zero => exact ⟨0, fun j hj => absurd hj (Nat.not_lt_zero j), rfl⟩
    | succ k ih =>
      obtain ⟨m, hm, hrun⟩ := ih
      rw [Function.iterate_succ_apply', hrun]
      by_cases hnext : ok m
      · refine ⟨m + 1, fun j hj => ?_, hok m hnext⟩
        rcases Nat.lt_succ_iff_lt_or_eq.mp hj with hlt | rfl
        · exact hm j hlt
        · exact hnext
      · exact ⟨m, hm, hstuck m hnext⟩
  constructor
  · intro h
    obtain ⟨k, hk⟩ := h
    obtain ⟨m, hm, hrun⟩ := hstage k
    exact ⟨m, hm, hrun ▸ hk⟩
  · intro h
    obtain ⟨k, hk, hP⟩ := h
    exact ⟨k, by rwa [iterate_stages hok hk]⟩

end Stages

end Valv.Batch
