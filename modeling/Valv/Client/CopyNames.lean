import Mathlib.Data.List.Infix
import Valv.Client.Push
import Valv.Lib.Paths

/-!
# Names of conflict copies

A conflict copy is called by a mark in its name, in front of the extension; a counter may follow it.

* `splitFileName_cases`, `toList_joinFileName`: stem and extension, taken apart and put together.
* `isConflictCopyName_conflictCopyName`, `isConflictCopyName_numbered`: the names that are made up have the mark.
* `plain_conflictCopyName`: they are names that a directory can have.
-/

namespace Valv.Client

open Valv.Paths

/-- What is cut at an element that does not occur in it lies on one side. -/
theorem infix_of_cut {α : Type} {m a b : List α} {c : α} (h : m <:+: a ++ c :: b) (hc : c ∉ m) :
    m <:+: a ∨ m <:+: b := by
  induction a with
  | nil =>
    rcases List.infix_cons_iff.mp h with hstart | hrest
    · cases m with
      | nil => exact .inl List.nil_infix
      | cons x m =>
        rw [(List.cons_prefix_cons.mp hstart).1] at hc
        exact absurd List.mem_cons_self hc
    · exact .inr hrest
  | cons x a ih =>
    rcases List.infix_cons_iff.mp h with hstart | hrest
    · rcases List.prefix_or_prefix_of_prefix hstart (List.prefix_append (x :: a) (c :: b)) with hm | ⟨t, rfl⟩
      · exact .inl hm.isInfix
      · cases t with
        | nil =>
          rw [List.append_nil]
          exact .inl List.infix_rfl
        | cons y t =>
          have hy := (List.prefix_append_right_inj (x :: a)).mp hstart
          rw [(List.cons_prefix_cons.mp hy).1] at hc
          exact absurd (List.mem_append_right _ List.mem_cons_self) hc
    · exact (ih hrest).imp_left fun hm => hm.trans (List.suffix_cons x a).isInfix

variable {name stem deviceName date : String} {extension : Option String}

/-- What stands behind the last dot, and before it. -/
theorem cut_at_last_dot (chars : List Char) {behind : List Char} (h : chars.reverse.takeWhile (· ≠ '.') = behind) :
    behind.length = chars.length ∨ chars = chars.take (chars.length - behind.length - 1) ++ '.' :: behind.reverse := by
  have hsplit := List.takeWhile_append_dropWhile (p := (· ≠ '.')) (l := chars.reverse)
  rw [h] at hsplit
  cases hrest : chars.reverse.dropWhile (· ≠ '.') with
  | nil =>
    rw [hrest, List.append_nil] at hsplit
    rw [hsplit, List.length_reverse]
    exact .inl rfl
  | cons c rest =>
    have hdot : c = '.' := by
      have hhead := List.head?_dropWhile_not (· ≠ '.') chars.reverse
      rw [hrest] at hhead
      simpa using hhead
    rw [hrest, hdot] at hsplit
    have hlist : chars = rest.reverse ++ '.' :: behind.reverse := by
      rw [← List.reverse_reverse chars, ← hsplit]
      simp
    have hlen := congrArg List.length hlist
    rw [List.length_append, List.length_cons, List.length_reverse, List.length_reverse] at hlen
    refine .inr ?_
    have hcount : chars.length - behind.length - 1 = rest.reverse.length := by
      rw [List.length_reverse]
      omega
    rw [hcount]
    nth_rewrite 2 [hlist]
    rw [List.take_left]
    exact hlist

/-- A name is a stem and an extension, or a stem only. -/
theorem splitFileName_cases (name : String) : splitFileName name = (name, none) ∨
    ∃ stem extension, splitFileName name = (stem, some extension) ∧
      name.toList = stem.toList ++ '.' :: extension.toList := by
  rw [splitFileName]
  split
  · exact .inl rfl
  next hcut =>
  refine .inr ⟨_, _, rfl, ?_⟩
  rw [String.toList_ofList, String.toList_ofList, List.length_reverse]
  refine (cut_at_last_dot name.toList rfl).resolve_left fun hlen => hcut ?_
  rw [List.length_reverse, hlen]
  simp

/-- The letters of a stem and of an extension are those of the name. -/
theorem mem_of_splitFileName {c : Char} (h : c ∈ (splitFileName name).1.toList ∨
    ∃ extension ∈ (splitFileName name).2, c ∈ extension.toList) : c ∈ name.toList := by
  rcases splitFileName_cases name with hname | ⟨stem, extension, hname, hlist⟩
  · rw [hname] at h
    rcases h with h | ⟨extension, hmem, -⟩
    · exact h
    · cases hmem
  · rw [hname] at h
    rw [hlist]
    rcases h with h | ⟨extension, hmem, h⟩
    · exact List.mem_append_left _ h
    · cases hmem
      exact List.mem_append_right _ (List.mem_cons_of_mem _ h)

/-- The letters of a name that is put together. -/
theorem toList_joinFileName (stem : String) (extension : Option String) :
    (joinFileName stem extension).toList =
      stem.toList ++ (extension.elim [] fun extension => '.' :: extension.toList) := by
  cases extension with
  | none => simp [joinFileName]
  | some extension => simp [joinFileName, String.toList_append]

/-- What a conflict copy is called by. -/
def copyMark : List Char := " (conflicted copy, ".toList

theorem isConflictCopyName_iff : isConflictCopyName name = true ↔ copyMark <:+: name.toList := by
  rw [isConflictCopyName, List.any_eq_true]
  constructor
  · rintro ⟨cs, hcs, hmark⟩
    exact (List.isPrefixOf_iff_prefix.mp hmark).isInfix.trans ((List.mem_tails _ _).mp hcs).isInfix
  · intro h
    obtain ⟨t, hstart, hend⟩ := List.infix_iff_prefix_suffix.mp h
    exact ⟨t, (List.mem_tails _ _).mpr hend, List.isPrefixOf_iff_prefix.mpr hstart⟩

theorem isConflictCopyName_conflictCopyName :
    isConflictCopyName (conflictCopyName name deviceName date) = true := by
  rw [isConflictCopyName_iff, conflictCopyName]
  split
  next stem extension hsplit =>
  rw [toList_joinFileName]
  simp only [String.toList_append, List.append_assoc]
  exact List.infix_append' _ _ _ 

/-- A counter in front of the extension leaves the mark as it is. -/
theorem isConflictCopyName_numbered {suffix : String} (h : isConflictCopyName name = true) :
    isConflictCopyName
      (joinFileName ((splitFileName name).1 ++ suffix) (splitFileName name).2) = true := by
  rw [isConflictCopyName_iff] at h ⊢
  rw [toList_joinFileName, String.toList_append]
  rcases splitFileName_cases name with hname | ⟨stem, extension, hname, hlist⟩
  · rw [hname, List.append_assoc]
    exact h.trans (List.prefix_append _ _).isInfix
  · rw [hname, List.append_assoc]
    rw [hlist] at h
    rcases infix_of_cut h (by decide) with hstem | hextension
    · exact hstem.trans (List.prefix_append _ _).isInfix
    · refine hextension.trans (List.IsSuffix.isInfix ?_)
      exact (List.suffix_cons '.' _).trans ((List.suffix_append _ _).trans (List.suffix_append _ _))

/-- No letter of the parts is a slash. -/
theorem plain_joinFileName {suffix : String} (hlen : 3 ≤ suffix.toList.length) (hname : '/' ∉ name.toList)
    (hsuffix : '/' ∉ suffix.toList) :
    Plain (joinFileName ((splitFileName name).1 ++ suffix) (splitFileName name).2) := by
  refine plain_of_long ?_ fun hslash => ?_
  · rw [toList_joinFileName, String.toList_append]
    simp only [List.length_append]
    omega
  · rw [toList_joinFileName, String.toList_append, List.mem_append, List.mem_append] at hslash
    rcases hslash with (hstem | hslash) | hextension
    · exact hname (mem_of_splitFileName (.inl hstem))
    · exact hsuffix hslash
    · cases hsplit : (splitFileName name).2 with
      | none =>
        rw [hsplit] at hextension
        cases hextension
      | some extension =>
        rw [hsplit] at hextension
        rcases List.mem_cons.mp hextension with he | hextension
        · exact absurd he (by decide)
        · exact hname (mem_of_splitFileName (.inr ⟨extension, hsplit, hextension⟩))

theorem plain_conflictCopyName (hname : '/' ∉ name.toList) (hdevice : '/' ∉ deviceName.toList)
    (hdate : '/' ∉ date.toList) : Plain (conflictCopyName name deviceName date) := by
  have hsuffix : conflictCopyName name deviceName date = joinFileName
      ((splitFileName name).1 ++ (" (conflicted copy, " ++ deviceName ++ ", " ++ date ++ ")"))
      (splitFileName name).2 := by
    rw [conflictCopyName]
    simp only [String.append_assoc]
  rw [hsuffix]
  refine plain_joinFileName ?_ hname ?_
  · simp only [String.toList_append, List.length_append]
    have : " (conflicted copy, ".toList.length = 19 := by decide
    omega
  · simp only [String.toList_append, List.mem_append, not_or]
    exact ⟨⟨⟨⟨by decide, hdevice⟩, by decide⟩, hdate⟩, by decide⟩

end Valv.Client
