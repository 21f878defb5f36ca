import Mathlib.Data.List.Sort
import Mathlib.Data.String.Basic
import Mathlib.Tactic.Common
import Valv.Lib.Table

/-!
# The mounts table

`mounts` of the local database and the statements of `persistence/mounts.rs` about whole rows.  `path` is the primary
key and `folder_id` is unique: a statement whose result would break that fails.

* `MountTable`: the rows, with both keys.
* `mem_deleteMount`, `mem_updateMountPath`, `mem_upsertMount`: the rows after a statement.
* `updateMountPath_isSome`, `upsertMount_isSome`: when a statement does not fail.
-/

namespace Valv.Daemon

open Valv.Table

/-- A row of `mounts` in the local database, with the token and the cursor of the mount. -/
structure MountRow where
  path : String
  folderId : String
  grantId : Option String := none
  scopeNodeId : Option String := none
  mountToken : Option String := none
  cursor : ℕ := 0
  canWrite : Bool := true
  name : Option String := none
  deriving DecidableEq, Repr

/-- Both keys of `mounts`: no two rows share their path, and no two share their folder. -/
def Keys (rows : List MountRow) : Prop := (rows.map MountRow.path).Nodup ∧ (rows.map MountRow.folderId).Nodup

instance (rows : List MountRow) : Decidable (Keys rows) := inferInstanceAs (Decidable (_ ∧ _))

/-- A statement that writes other columns. -/
theorem keys_map {rows : List MountRow} (h : Keys rows) {f : MountRow → MountRow}
    (hf : ∀ r, (f r).path = r.path ∧ (f r).folderId = r.folderId) : Keys (rows.map f) := by
  have hpath : MountRow.path ∘ f = MountRow.path := funext fun r => (hf r).1
  have hfolder : MountRow.folderId ∘ f = MountRow.folderId := funext fun r => (hf r).2
  rw [Keys, List.map_map, List.map_map, hpath, hfolder]
  exact h

/-- `mounts`. -/
structure MountTable where
  rows : List MountRow := []
  keys : Keys rows := by decide
  deriving DecidableEq

namespace MountTable

variable (t : MountTable)

/-- A statement with this result. -/
def ofRows (rows : List MountRow) : Option MountTable := if h : Keys rows then some ⟨rows, h⟩ else none

/-- `list_mounts`. -/
def listMounts : List MountRow := t.rows.insertionSort fun a b => a.path ≤ b.path

/-- `get_mount`. -/
def getMount (path : String) : Option MountRow := lookup MountRow.path path t.rows

/-- `upsert_mount`; a row that is there keeps its cursor and its name. -/
def upsertMount (r : MountRow) : Option MountTable :=
  ofRows (upsert MountRow.path r (fun old => { r with cursor := old.cursor, name := old.name }) t.rows)

/-- `set_mount_name`. -/
def setMountName (path name : String) : MountTable where
  rows := t.rows.map fun r => if r.path = path then { r with name := some name } else r
  keys := keys_map t.keys fun r => by split <;> exact ⟨rfl, rfl⟩

/-- `set_cursor`. -/
def setCursor (folderId : String) (seq : ℕ) : MountTable where
  rows := t.rows.map fun r => if r.folderId = folderId then { r with cursor := seq } else r
  keys := keys_map t.keys fun r => by split <;> exact ⟨rfl, rfl⟩

/-- `delete_mount`. -/
def deleteMount (path : String) : MountTable where
  rows := t.rows.filter fun r => r.path ≠ path
  keys := ⟨t.keys.1.sublist (List.filter_sublist.map _), t.keys.2.sublist (List.filter_sublist.map _)⟩

/-- `update_mount_path`. -/
def updateMountPath (oldPath newPath : String) : Option MountTable :=
  ofRows (t.rows.map fun r => if r.path = oldPath then { r with path := newPath } else r)

end MountTable

/-! ### Rows after a statement -/

section Rows

variable {t t' : MountTable} {m : MountRow} {path oldPath newPath : String}

theorem MountTable.eq_of_path (t : MountTable) {a b : MountRow} (ha : a ∈ t.rows) (hb : b ∈ t.rows)
    (h : a.path = b.path) : a = b := List.inj_on_of_nodup_map t.keys.1 ha hb h

theorem MountTable.eq_of_folder (t : MountTable) {a b : MountRow} (ha : a ∈ t.rows) (hb : b ∈ t.rows)
    (h : a.folderId = b.folderId) : a = b := List.inj_on_of_nodup_map t.keys.2 ha hb h

theorem rows_ofRows {rows : List MountRow} (h : MountTable.ofRows rows = some t) : t.rows = rows := by
  rw [MountTable.ofRows] at h
  split at h
  · cases h
    rfl
  · cases h

theorem ofRows_isSome {rows : List MountRow} (h : Keys rows) : ∃ t, MountTable.ofRows rows = some t := by
  rw [MountTable.ofRows, dif_pos h]
  exact ⟨_, rfl⟩

theorem mem_listMounts : m ∈ t.listMounts ↔ m ∈ t.rows := List.mem_insertionSort _

theorem getMount_eq_some (h : t.getMount path = some m) : m ∈ t.rows ∧ m.path = path :=
  ⟨mem_of_lookup h, lookup_key h⟩

theorem getMount_eq_none : t.getMount path = none ↔ ∀ m ∈ t.rows, m.path ≠ path := lookup_eq_none

theorem mem_deleteMount : m ∈ (t.deleteMount path).rows ↔ m ∈ t.rows ∧ m.path ≠ path := by
  simp [MountTable.deleteMount]

theorem mem_updateMountPath (h : t.updateMountPath oldPath newPath = some t') :
    m ∈ t'.rows ↔ ∃ r ∈ t.rows, m = if r.path = oldPath then { r with path := newPath } else r := by
  rw [rows_ofRows h, List.mem_map]
  constructor
  · rintro ⟨r, hr, rfl⟩
    exact ⟨r, hr, rfl⟩
  · rintro ⟨r, hr, rfl⟩
    exact ⟨r, hr, rfl⟩

/-- A path that no row has yet can be set. -/
theorem updateMountPath_isSome (h : ∀ m ∈ t.rows, m.path ≠ newPath) :
    ∃ t', t.updateMountPath oldPath newPath = some t' := by
  have hrows : t.rows.Nodup := t.keys.1.of_map
  refine ofRows_isSome ⟨?_, ?_⟩
  · rw [List.map_map]
    refine hrows.map_on fun a ha b hb hab => t.eq_of_path ha hb ?_
    simp only [Function.comp] at hab
    split at hab <;> split at hab
    · next ha' hb' => rw [ha', hb']
    · exact absurd hab.symm (h b hb)
    · exact absurd hab (h a ha)
    · exact hab
  · rw [List.map_map]
    refine hrows.map_on fun a ha b hb hab => t.eq_of_folder ha hb ?_
    simp only [Function.comp] at hab
    split at hab <;> split at hab <;> exact hab

/-- A row with a new path and a new folder is appended. -/
theorem upsertMount_new {r : MountRow} (hpath : ∀ m ∈ t.rows, m.path ≠ r.path)
    (hfolder : ∀ m ∈ t.rows, m.folderId ≠ r.folderId) : ∃ t', t.upsertMount r = some t' ∧ t'.rows = t.rows ++ [r] := by
  have hrows : upsert MountRow.path r (fun old => { r with cursor := old.cursor, name := old.name }) t.rows =
      t.rows ++ [r] := by
    rw [upsert, lookup_eq_none.mpr hpath]
    rfl
  have hkeys : Keys (t.rows ++ [r]) :=
    ⟨nodup_append t.keys.1 hpath, nodup_append t.keys.2 hfolder⟩
  rw [MountTable.upsertMount, hrows]
  obtain ⟨t', ht'⟩ := ofRows_isSome hkeys
  exact ⟨t', ht', rows_ofRows ht'⟩

/-- A new path for a folder that is mounted fails. -/
theorem upsertMount_taken {r : MountRow} (hpath : ∀ m ∈ t.rows, m.path ≠ r.path) (hm : m ∈ t.rows)
    (hfolder : m.folderId = r.folderId) : t.upsertMount r = none := by
  have hrows : upsert MountRow.path r (fun old => { r with cursor := old.cursor, name := old.name }) t.rows =
      t.rows ++ [r] := by
    rw [upsert, lookup_eq_none.mpr hpath]
    rfl
  rw [MountTable.upsertMount, hrows, MountTable.ofRows, dif_neg]
  rintro ⟨-, hnd⟩
  rw [List.map_append] at hnd
  exact (List.nodup_append.mp hnd).2.2 _ (List.mem_map_of_mem hm) _ (by simp) hfolder

end Rows

end Valv.Daemon
