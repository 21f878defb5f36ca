import Mathlib.Data.List.Dedup
import Mathlib.Tactic.Common

/-!
# Disks

A disk is a tree of named entries below a root, told by the entry that stands at each path.

* `Disk.lstat`: what stands at a path; symbolic links are not followed.
* `Disk.present`: whether something is found at a path; symbolic links are followed.
* `Disk.names`: the names in a directory.
-/

namespace Valv.Files

/-- A path below the root: the names on the way to it. -/
abbrev Path := List String

/-- What stands at a path.  Of a symbolic link it is told what is found behind it, for each way on. -/
inductive Entry (φ : Type) where
  | dir
  | file (data : φ)
  | symlink (behind : Path → Bool)
  | other

/-- The entries of a disk.  An entry counts when directories lead to it. -/
structure Disk (φ : Type) where
  entries : List (Path × Entry φ)

/-- A name that a directory can have. -/
def plainName (name : String) : Bool :=
  name ≠ "" && name ≠ "." && name ≠ ".." && !name.toList.contains '/'

variable {φ : Type}

def Entry.isDir : Entry φ → Bool
  | .dir => true
  | _ => false

def Entry.isFile : Entry φ → Bool
  | .file _ => true
  | _ => false

def Entry.isSymlink : Entry φ → Bool
  | .symlink _ => true
  | _ => false

namespace Disk

/-- The entry with this path. -/
def entry (d : Disk φ) (p : Path) : Option (Entry φ) := (d.entries.find? fun e => e.1 = p).map Prod.snd

/-- The entry at `q` below `p`, by way of directories. -/
def lstatFrom (d : Disk φ) (p : Path) : Path → Option (Entry φ)
  | [] => d.entry p
  | n :: q =>
    match d.entry p with
    | some .dir => d.lstatFrom (p ++ [n]) q
    | _ => none

/-- What stands at a path. -/
def lstat (d : Disk φ) (p : Path) : Option (Entry φ) := d.lstatFrom [] p

/-- Something is found at `q` below `p`. -/
def presentFrom (d : Disk φ) (p : Path) : Path → Bool
  | [] =>
    match d.entry p with
    | some (.symlink behind) => behind []
    | some _ => true
    | none => false
  | n :: q =>
    match d.entry p with
    | some .dir => d.presentFrom (p ++ [n]) q
    | some (.symlink behind) => behind (n :: q)
    | _ => false

/-- Something is found at the path. -/
def present (d : Disk φ) (p : Path) : Bool := d.presentFrom [] p

/-- A directory stands at the path. -/
def isDir (d : Disk φ) (p : Path) : Bool := (d.lstat p).any Entry.isDir

/-- The names of the entries with the parent `p`. -/
def names (d : Disk φ) (p : Path) : List String :=
  (d.entries.filterMap fun e => if e.1.dropLast = p then e.1.getLast? else none).dedup

/-- A file with these data stands at the path. -/
def write (d : Disk φ) (p : Path) (data : φ) : Disk φ :=
  { entries := (p, .file data) :: d.entries.filter fun e => e.1 ≠ p }

end Disk

section Lemmas

variable {d : Disk φ} {p q : Path} {n : String}

theorem entry_isSome_iff : (d.entry p).isSome ↔ ∃ e ∈ d.entries, e.1 = p := by
  rw [Disk.entry, Option.isSome_map, List.find?_isSome]
  simp

/-- The names of a directory are those of its entries. -/
theorem mem_names : n ∈ d.names p ↔ (d.entry (p ++ [n])).isSome := by
  rw [Disk.names, List.mem_dedup, List.mem_filterMap, entry_isSome_iff]
  constructor
  · intro ⟨e, he, hn⟩
    split at hn
    · next hp =>
      refine ⟨e, he, ?_⟩
      rw [← hp]
      exact (List.dropLast_append_getLast? n hn).symm
    · cases hn
  · intro ⟨e, he, hp⟩
    refine ⟨e, he, ?_⟩
    rw [hp, if_pos List.dropLast_concat, List.getLast?_concat]

theorem lstatFrom_append (r : Path) : d.lstatFrom r (p ++ [n]) =
    if (d.lstatFrom r p).any Entry.isDir then d.entry (r ++ p ++ [n]) else none := by
  induction p generalizing r with
  | nil =>
    rw [List.nil_append, Disk.lstatFrom, Disk.lstatFrom, List.append_nil]
    cases d.entry r with
    | none => rfl
    | some e => cases e <;> rfl
  | cons m p ih =>
    rw [List.cons_append, Disk.lstatFrom, Disk.lstatFrom]
    cases d.entry r with
    | none => rfl
    | some e =>
      cases e with
      | dir =>
        dsimp only
        rw [ih, List.append_assoc r [m] p]
        rfl
      | file data => rfl
      | symlink behind => rfl
      | other => rfl

/-- What stands at a path is the entry with this path. -/
theorem mem_of_lstat {e : Entry φ} (h : d.lstat p = some e) : (p, e) ∈ d.entries := by
  have hentry : ∀ (q r : Path), d.lstatFrom r q = some e → d.entry (r ++ q) = some e := by
    intro q
    induction q with
    | nil =>
      intro r hr
      rw [List.append_nil]
      exact hr
    | cons n q ih =>
      intro r hr
      rw [Disk.lstatFrom] at hr
      split at hr
      · have hrest := ih (r ++ [n]) hr
        rwa [List.append_assoc] at hrest
      · cases hr
  have hfound := hentry p [] h
  obtain ⟨x, hx, hdata⟩ := Option.map_eq_some_iff.mp hfound
  have hpath : x.1 = p := by simpa using List.find?_some hx
  have hmem := List.mem_of_find?_eq_some hx
  rwa [← hpath, ← hdata]

/-- An entry of a directory stands in it. -/
theorem lstat_append : d.lstat (p ++ [n]) = if d.isDir p then d.entry (p ++ [n]) else none := by
  rw [Disk.lstat, lstatFrom_append]
  rfl

/-- What is found below a directory is found below one of its entries. -/
theorem presentFrom_append (r : Path) (hdir : (d.lstatFrom r p).any Entry.isDir = true) :
    d.presentFrom r (p ++ q) = d.presentFrom (r ++ p) q := by
  induction p generalizing r with
  | nil => rw [List.nil_append, List.append_nil]
  | cons m p ih =>
    rw [Disk.lstatFrom] at hdir
    rw [List.cons_append, Disk.presentFrom]
    cases he : d.entry r with
    | none =>
      rw [he] at hdir
      cases hdir
    | some e =>
      rw [he] at hdir
      cases e with
      | dir =>
        dsimp only at hdir ⊢
        rw [ih _ hdir, List.append_assoc r [m] p]
        rfl
      | file data => cases hdir
      | symlink behind => cases hdir
      | other => cases hdir

end Lemmas

end Valv.Files
