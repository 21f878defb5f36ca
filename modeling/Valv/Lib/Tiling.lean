import Mathlib.Algebra.GroupWithZero.Nat
import Mathlib.Data.List.Forall2
import Mathlib.Data.List.Sort
import Mathlib.Tactic.Common

/-!
# Tilings of a list

A segment of a list is told by its start and its length.  Segments tile the stretch from `a` to `b`
when each starts where the one before it ends.

* `Tiles.flatten`: the segments of a list, put together, are the stretch they tile.
* `Tiles.placed`: pieces of the lengths of segments that tile, put together, lie at the segments.
* `Tiles.pairwise`: the starts ascend when no segment is empty.
* `insertionSort_eq_of_perm`: a list in ascending order of a key is what sorting makes of its permutations.
-/

namespace Valv.Tiling

variable {α : Type}

/-- The segment of a list with a start and a length. -/
def segment (data : List α) (start length : ℕ) : List α := (data.drop start).take length

/-- The segments start at `a`, each where the one before it ends, and the last one ends at `b`. -/
inductive Tiles : ℕ → List (ℕ × ℕ) → ℕ → Prop
  | nil (a : ℕ) : Tiles a [] a
  | cons {a length b : ℕ} {segments : List (ℕ × ℕ)} (h : Tiles (a + length) segments b) :
      Tiles a ((a, length) :: segments) b

section Segments

variable {a b : ℕ} {segments : List (ℕ × ℕ)}

theorem Tiles.le (h : Tiles a segments b) : a ≤ b := by
  induction h with
  | nil a => exact le_refl a
  | cons _ ih => omega

theorem Tiles.start_le (h : Tiles a segments b) : ∀ s ∈ segments, a ≤ s.1 := by
  induction h with
  | nil a => simp
  | cons _ ih =>
    intro s hs
    rcases List.mem_cons.mp hs with rfl | hs
    · exact le_refl _
    · have := ih s hs
      omega

theorem Tiles.pairwise (h : Tiles a segments b) (hpos : ∀ s ∈ segments, 0 < s.2) :
    segments.Pairwise fun s t => s.1 < t.1 := by
  induction h with
  | nil a => exact List.Pairwise.nil
  | @cons a length b segments h ih =>
    have hlength : 0 < length := hpos (a, length) List.mem_cons_self
    have hlater := h.start_le
    refine List.pairwise_cons.mpr ⟨fun t ht => ?_, ih fun s hs => hpos s (List.mem_cons_of_mem _ hs)⟩
    have := hlater t ht
    show a < t.1
    omega

theorem Tiles.stop_le (h : Tiles a segments b) : ∀ s ∈ segments, s.1 + s.2 ≤ b := by
  induction h with
  | nil a => simp
  | cons h ih =>
    intro s hs
    rcases List.mem_cons.mp hs with rfl | hs
    · exact h.le
    · exact ih s hs

/-- The lengths add up to the stretch. -/
theorem Tiles.sum_lengths (h : Tiles a segments b) : a + (segments.map Prod.snd).sum = b := by
  induction h with
  | nil a => simp
  | cons _ ih =>
    rw [List.map_cons, List.sum_cons]
    omega

theorem segment_append (data : List α) (a l k : ℕ) :
    segment data a l ++ segment data (a + l) k = segment data a (l + k) := by
  simp only [segment]
  rw [List.take_add, List.drop_drop]

/-- The segments that tile a stretch, put together, are the stretch. -/
theorem Tiles.flatten (h : Tiles a segments b) (data : List α) :
    (segments.map fun s => segment data s.1 s.2).flatten = segment data a (b - a) := by
  induction h with
  | nil a => simp [segment]
  | @cons a length b segments h ih =>
    have hle := h.le
    have hlength : length + (b - (a + length)) = b - a := by omega
    rw [List.map_cons, List.flatten_cons, ih, segment_append, hlength]

/-- A piece behind a prefix of the right length lies at its segment. -/
theorem segment_append_piece (front piece rest : List α) :
    segment (front ++ (piece ++ rest)) front.length piece.length = piece := by
  simp [segment]

/-- Pieces of the lengths of segments that tile, put together, lie at the segments: whatever holds of the entries
and their pieces holds of the entries and what lies at their segments. -/
theorem Tiles.placed {β : Type} {place : β → ℕ × ℕ} {R : β → List α → Prop} {entries : List β} {pieces : List (List α)}
    (hR : List.Forall₂ R entries pieces) (hlengths : ∀ x piece, R x piece → (place x).2 = piece.length)
    (h : Tiles a (entries.map place) b) {front : List α} (hfront : front.length = a) :
    (front ++ pieces.flatten).length = b ∧
      ∀ x ∈ entries, R x (segment (front ++ pieces.flatten) (place x).1 (place x).2) := by
  induction hR generalizing a front with
  | nil =>
    cases h
    exact ⟨by simpa using hfront, fun x hx => absurd hx List.not_mem_nil⟩
  | @cons x piece entries pieces hx _ ih =>
    have hpiece := hlengths x piece hx
    generalize hplace : place x = s at hpiece
    rw [List.map_cons, hplace] at h
    obtain ⟨start, length⟩ := s
    cases h with
    | cons h =>
      have hpiece : length = piece.length := hpiece
      have hnext : (front ++ piece).length = a + length := by
        rw [List.length_append]
        omega
      obtain ⟨hstop, hplaced⟩ := ih h hnext
      have hflat : front ++ (piece :: pieces).flatten = front ++ piece ++ pieces.flatten := by
        rw [List.flatten_cons, List.append_assoc]
      rw [hflat]
      refine ⟨hstop, fun y hy => ?_⟩
      rcases List.mem_cons.mp hy with rfl | hy
      · rw [hplace, List.append_assoc]
        show R y (segment (front ++ (piece ++ pieces.flatten)) a length)
        rw [← hfront, hpiece, segment_append_piece]
        exact hx
      · exact hplaced y hy

end Segments

/-- Sorting by a key finds a list in ascending order of the key back from any permutation of it. -/
theorem insertionSort_eq_of_perm {key : α → ℕ} {l l' : List α} (hperm : l.Perm l')
    (hasc : l'.Pairwise fun x y => key x < key y) : l.insertionSort (fun x y => key x ≤ key y) = l' := by
  have htotal : Std.Total fun x y : α => key x ≤ key y := ⟨fun x y => le_total _ _⟩
  have htrans : IsTrans α fun x y => key x ≤ key y := ⟨fun _ _ _ => le_trans⟩
  have hsorted := List.pairwise_insertionSort (fun x y : α => key x ≤ key y) l
  have hsame := (List.perm_insertionSort (fun x y : α => key x ≤ key y) l).trans hperm
  refine List.Perm.eq_of_pairwise (fun x y hx hy hxy hyx => ?_) hsorted (hasc.imp le_of_lt) hsame
  -- two entries of one key are one entry, as the keys of the ascending list differ
  have hx' : x ∈ l' := hsame.subset hx
  have hkey : key x = key y := le_antisymm hxy hyx
  have hinj : l'.Pairwise fun x y => key x ≠ key y := hasc.imp fun hlt => Nat.ne_of_lt hlt
  have hnodup : (l'.map key).Nodup := List.pairwise_map.mpr hinj
  exact List.inj_on_of_nodup_map hnodup hx' hy hkey

end Valv.Tiling
