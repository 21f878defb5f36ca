import Mathlib.Data.List.Induction
import Mathlib.Data.String.Basic
import Mathlib.Tactic.Common

/-!
# Paths

Unix paths as the list of their components, which is how two paths are compared.

* `components`, `join`, `stripPrefix`: reading a path, appending to it, taking a prefix off.
* `normalize`: `..` takes the component before it away.
* `join_plain`: a plain name is one more component.
* `normalize_join_plain`, `normalize_plain`: plain names stay where they are.
* `normalize_cases`: what a normal form looks like.
-/

namespace Valv.Paths

/-- A component of a path. -/
inductive Component where
  | rootDir
  | curDir
  | parentDir
  | normal (name : String)
  deriving DecidableEq, Repr

/-- A path. -/
abbrev PathBuf := List Component

/-- The pieces between separators. -/
def pieces (path : String) : List String := (path.toList.splitOn '/').map String.ofList

/-- A piece after the first: empty ones and `.` are not there. -/
def piece (name : String) : Option Component :=
  if name = "" ∨ name = "." then none else if name = ".." then some .parentDir else some (.normal name)

def isAbsolute (path : String) : Bool := path.toList.head? = some '/'

/-- The components of a path. -/
def components (path : String) : PathBuf :=
  if isAbsolute path then .rootDir :: (pieces path).filterMap piece
  else if (pieces path).head? = some "." then .curDir :: (pieces path).filterMap piece
  else (pieces path).filterMap piece

/-- `base` with `name` behind it; an absolute `name` takes its place. -/
def join (base : PathBuf) (name : String) : PathBuf :=
  if isAbsolute name ∨ base = [] then components name else base ++ (pieces name).filterMap piece

/-- What is left of `path` behind `base`. -/
def stripPrefix (base path : PathBuf) : Option PathBuf :=
  if base <+: path then some (path.drop base.length) else none

/-- One component more, lexically. -/
def walk (path : PathBuf) : Component → PathBuf
  | .rootDir => [.rootDir]
  | .curDir => path
  | .normal name => path ++ [.normal name]
  | .parentDir =>
    match path.getLast? with
    | some (.normal _) => path.dropLast
    | some .rootDir => path
    | _ => path ++ [.parentDir]

/-- The path without `.` and, as far as it goes, without `..`. -/
def normalize (path : PathBuf) : PathBuf := path.foldl walk []

/-- A name that is one plain component: nothing special and no separator in it. -/
def Plain (name : String) : Prop := name ≠ "" ∧ name ≠ "." ∧ name ≠ ".." ∧ '/' ∉ name.toList

instance (name : String) : Decidable (Plain name) := inferInstanceAs (Decidable (_ ∧ _))

variable {base path : PathBuf} {name : String} {names : List String}

/-! ### Plain names -/

theorem pieces_plain (h : Plain name) : pieces name = [name] := by
  have hsplit : name.toList.splitOn '/' = [name.toList] :=
    List.splitOn_eq_singleton h.2.2.2
  rw [pieces, hsplit]
  simp

theorem piece_plain (h : Plain name) : piece name = some (.normal name) := by
  obtain ⟨hempty, hdot, hdots, -⟩ := h
  simp [piece, hempty, hdot, hdots]

theorem not_isAbsolute (h : Plain name) : isAbsolute name = false := by
  have hslash : name.toList.head? ≠ some '/' := fun he => h.2.2.2 (List.mem_of_head? he)
  simp [isAbsolute, hslash]

theorem components_plain (h : Plain name) : components name = [.normal name] := by
  have hdot : ¬ (pieces name).head? = some "." := by
    rw [pieces_plain h]
    simpa using h.2.1
  rw [components, not_isAbsolute h, if_neg (by simp), if_neg hdot, pieces_plain h]
  simp [piece_plain h]

/-- A name of three letters is not empty and no dots. -/
theorem plain_of_long (hlen : 3 ≤ name.toList.length) (hslash : '/' ∉ name.toList) : Plain name := by
  refine ⟨fun he => ?_, fun he => ?_, fun he => ?_, hslash⟩
  · rw [he] at hlen
    exact absurd hlen (by decide)
  · rw [he] at hlen
    exact absurd hlen (by decide)
  · rw [he] at hlen
    exact absurd hlen (by decide)

/-- **A plain name** is one more component. -/
theorem join_plain (h : Plain name) : join base name = base ++ [.normal name] := by
  by_cases hbase : base = []
  · rw [join, if_pos (Or.inr hbase), components_plain h, hbase, List.nil_append]
  · rw [join, not_isAbsolute h, if_neg (by simp [hbase]), pieces_plain h]
    simp [piece_plain h]

/-! ### Prefixes -/

theorem stripPrefix_append : stripPrefix base (base ++ path) = some path := by
  rw [stripPrefix, if_pos (List.prefix_append base path), List.drop_left]

theorem stripPrefix_eq_some {rest : PathBuf} : stripPrefix base path = some rest ↔ path = base ++ rest := by
  constructor
  · intro h
    rw [stripPrefix] at h
    split at h
    · next hp =>
      obtain ⟨tail, rfl⟩ := hp
      cases h
      rw [List.drop_left]
    · cases h
  · rintro rfl
    exact stripPrefix_append

/-! ### Lexical normal form -/

theorem normalize_append : normalize (path ++ base) = base.foldl walk (normalize path) := List.foldl_append

theorem foldl_walk_normal : (names.map Component.normal).foldl walk path = path ++ names.map .normal := by
  induction names generalizing path with
  | nil => simp
  | cons name names ih =>
    show (names.map Component.normal).foldl walk (path ++ [.normal name]) = _
    rw [ih]
    simp

/-- A path that goes down only, behind any other. -/
theorem normalize_plain : normalize (path ++ names.map .normal) = normalize path ++ names.map .normal := by
  rw [normalize_append, foldl_walk_normal]

/-- A normal form is the root with plain names below it, or has no root in it. -/
theorem normalize_cases (path : PathBuf) :
    (∃ names : List String, normalize path = .rootDir :: names.map .normal) ∨ .rootDir ∉ normalize path := by
  induction path using List.reverseRecOn with
  | nil => exact Or.inr (by simp [normalize])
  | append_singleton path component ih =>
    rw [normalize_append]
    show (∃ names : List String, walk (normalize path) component = .rootDir :: names.map .normal) ∨
      .rootDir ∉ walk (normalize path) component
    cases component with
    | rootDir => exact Or.inl ⟨[], rfl⟩
    | curDir => exact ih
    | normal name =>
      rcases ih with ⟨names, hnames⟩ | hnot
      · refine Or.inl ⟨names ++ [name], ?_⟩
        rw [walk, hnames]
        simp
      · refine Or.inr ?_
        rw [walk]
        simpa using hnot
    | parentDir =>
      rw [walk]
      rcases ih with ⟨names, hnames⟩ | hnot
      · rw [hnames]
        -- the last name goes, and above the root there is nothing
        rcases List.eq_nil_or_concat names with rfl | ⟨init, name, rfl⟩
        · exact Or.inl ⟨[], rfl⟩
        · refine Or.inl ⟨init, ?_⟩
          have hlist : Component.rootDir :: (init ++ [name]).map .normal
              = (.rootDir :: init.map .normal) ++ [.normal name] := by simp
          simp only [List.concat_eq_append, hlist, List.getLast?_append, List.getLast?_singleton, Option.some_or,
            List.dropLast_concat]
      · refine Or.inr ?_
        split
        · exact fun hmem => hnot ((List.dropLast_sublist _).mem hmem)
        · exact hnot
        · simpa using hnot

/-- A normal form is not longer. -/
theorem length_normalize_le (path : PathBuf) : (normalize path).length ≤ path.length := by
  induction path using List.reverseRecOn with
  | nil => exact Nat.le_refl _
  | append_singleton path component ih =>
    rw [normalize_append, List.length_append, List.length_singleton]
    show (walk (normalize path) component).length ≤ path.length + 1
    cases component with
    | rootDir => simp [walk]
    | curDir => exact Nat.le_succ_of_le ih
    | normal name => simpa [walk] using ih
    | parentDir =>
      rw [walk]
      split
      · simp only [List.length_dropLast]
        omega
      · omega
      · simpa using ih

/-- What is left of a normal form behind a path from the root is plain. -/
theorem plain_of_normalize_eq {rest : PathBuf} (h : normalize path = normalize base ++ rest)
    (hroot : (normalize base).head? = some .rootDir) : ∃ names : List String, rest = names.map .normal := by
  have hmem : Component.rootDir ∈ normalize base := List.mem_of_head? hroot
  rcases normalize_cases path with ⟨names, hnames⟩ | hnot
  · rcases normalize_cases base with ⟨above, habove⟩ | hnot
    · rw [hnames, habove, List.cons_append, List.cons.injEq] at h
      obtain ⟨before, after, rfl, -, hafter⟩ := List.map_eq_append_iff.1 h.2
      exact ⟨after, hafter.symm⟩
    · exact absurd hmem hnot
  · rw [h] at hnot
    exact absurd (List.mem_append_left _ hmem) hnot

end Valv.Paths
