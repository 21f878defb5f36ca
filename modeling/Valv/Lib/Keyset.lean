import Mathlib.Data.List.Sort
import Mathlib.Tactic.Common

/-!
# Keyset pagination

Rows with a key, read page by page in the order of the key; a page starts behind the last key of the page before.

* `ordered`, `page`: the rows in order, and the next of them.
* `page_split`: behind the first rows of the order come the rows that follow them in it.
* `head_least`: the row with the least key comes first.
-/

namespace Valv.Keyset

variable {α κ : Type} [LinearOrder κ] (key : α → κ)

/-- `ORDER BY key`. -/
def ordered (rows : List α) : List α := rows.insertionSort fun a b => key a ≤ key b

/-- `WHERE last < key ORDER BY key LIMIT n`; the first page has no `last`. -/
def page (n : ℕ) (last : Option κ) (rows : List α) : List α :=
  (ordered key (rows.filter fun r => last.all fun k => k < key r)).take n

variable {key} {rows pre post : List α} {a : α} {n : ℕ}

theorem perm_ordered (rows : List α) : (ordered key rows).Perm rows := List.perm_insertionSort _ rows

@[simp] theorem length_ordered (rows : List α) : (ordered key rows).length = rows.length :=
  (perm_ordered rows).length_eq

@[simp] theorem mem_ordered : a ∈ ordered key rows ↔ a ∈ rows := (perm_ordered rows).mem_iff

/-- Different keys go up strictly. -/
theorem ordered_strict (hkeys : (rows.map key).Nodup) : (ordered key rows).Pairwise fun a b => key a < key b := by
  have hle : (ordered key rows).Pairwise fun a b => key a ≤ key b := by
    have : Std.Total fun a b : α => key a ≤ key b := ⟨fun a b => le_total (key a) (key b)⟩
    have : IsTrans α fun a b => key a ≤ key b := ⟨fun a b c => le_trans⟩
    exact List.pairwise_insertionSort _ rows
  have hne : (ordered key rows).Pairwise fun a b => key a ≠ key b := by
    have hnodup : ((ordered key rows).map key).Nodup := ((perm_ordered rows).map key).nodup_iff.2 hkeys
    exact List.pairwise_map.1 hnodup
  exact (hle.and hne).imp fun {a b} h => lt_of_le_of_ne h.1 h.2

/-- Two strictly ordered lists of the same rows are one. -/
theorem eq_of_strict {l l' : List α} (h : l.Pairwise fun a b => key a < key b)
    (h' : l'.Pairwise fun a b => key a < key b) (hperm : l.Perm l') : l = l' :=
  hperm.eq_of_pairwise (fun _ _ _ _ hab hba => absurd hab (lt_asymm hba)) h h'

/-- The rows behind `a`, of a list that is in order. -/
theorem filter_behind (h : (pre ++ a :: post).Pairwise fun a b => key a < key b) :
    (pre ++ a :: post).filter (fun r => key a < key r) = post := by
  obtain ⟨-, hpost, hbefore⟩ := List.pairwise_append.1 h
  obtain ⟨hbehind, -⟩ := List.pairwise_cons.1 hpost
  have hpre : pre.filter (fun r => key a < key r) = [] := by
    refine List.filter_eq_nil_iff.2 fun r hr => ?_
    have hlt : key r < key a := hbefore r hr a List.mem_cons_self
    simpa using hlt.le
  have hall : post.filter (fun r => key a < key r) = post :=
    List.filter_eq_self.2 fun r hr => by simpa using hbehind r hr
  rw [List.filter_append, hpre, List.nil_append, List.filter_cons_of_neg (by simp), hall]

theorem page_none : page key n none rows = (ordered key rows).take n := by
  show (ordered key (rows.filter fun _ => true)).take n = _
  rw [List.filter_true]

/-- **The next page**: behind the rows `pre` of the order come the first of the others. -/
theorem page_split (hkeys : (rows.map key).Nodup) (hsplit : ordered key rows = pre ++ post) :
    page key n (pre.getLast?.map key) rows = post.take n := by
  have hstrict := ordered_strict hkeys
  rcases List.eq_nil_or_concat pre with rfl | ⟨pre, a, rfl⟩
  · show page key n none rows = post.take n
    rw [page_none, hsplit, List.nil_append]
  · have hlast : (pre.concat a).getLast?.map key = some (key a) := by simp
    have hcut : pre.concat a ++ post = pre ++ a :: post := by simp
    rw [hcut] at hsplit
    rw [hlast]
    show (ordered key (rows.filter fun r => key a < key r)).take n = post.take n
    have hfilter : (ordered key rows).filter (fun r => key a < key r) = post := by
      rw [hsplit] at hstrict ⊢
      exact filter_behind hstrict
    have hperm : (ordered key (rows.filter fun r => key a < key r)).Perm post := by
      rw [← hfilter]
      exact (perm_ordered _).trans ((perm_ordered rows).filter _).symm
    have hpost : post.Pairwise fun a b => key a < key b := by
      rw [← hfilter]
      exact hstrict.sublist List.filter_sublist
    have hbehind := ordered_strict (hkeys.sublist ((List.filter_sublist (p := fun r => key a < key r)).map key))
    rw [eq_of_strict hbehind hpost hperm]

/-- No row comes before one with the least key. -/
theorem head_least (hkeys : (rows.map key).Nodup) (hsplit : ordered key rows = pre ++ a :: post)
    (hleast : ∀ b ∈ rows, key a ≤ key b) : pre = [] := by
  have hstrict := ordered_strict hkeys
  rw [hsplit] at hstrict
  refine List.eq_nil_iff_forall_not_mem.2 fun b hb => ?_
  have hlt : key b < key a := (List.pairwise_append.1 hstrict).2.2 b hb a List.mem_cons_self
  have hmem : b ∈ ordered key rows := by
    rw [hsplit]
    exact List.mem_append_left _ hb
  exact absurd hlt (not_lt.2 (hleast b (mem_ordered.1 hmem)))

end Valv.Keyset
