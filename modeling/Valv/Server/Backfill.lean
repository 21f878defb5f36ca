import Mathlib.Data.Char
import Mathlib.Data.String.Basic
import Valv.Lib.Keyset
import Valv.Server.Commit
import Valv.Server.Parity

/-!
# A backfill that ends

`backfillVersionChunks` of `Valv.Server.Parity`, on tables whose rows it has not written: pages in the order of the
version ids, each read behind the last id of the page before.

* `Backfilled`, `BackfillWorks`: what is asked for.
* `Db.LoneEmptyId`, `Db.PagesFit`: where the loop comes back to its start, and where no statement is too long.
* `runBody_backfillPages`: the loop, from any page on.
* `backfillWorks_iff`: every table, every page size.
-/

namespace Valv.Server

open Valv.Conc Valv.Table

/-! ### The rows of a page -/

/-- The primary key of `version_chunks`. -/
def VersionChunkRow.key (r : VersionChunkRow) : String × String := (r.versionId, r.chunkHash)

/-- The row of a version and a chunk. -/
def VersionRow.reference (v : VersionRow) (chunkHash : String) : VersionChunkRow :=
  { versionId := v.versionId, nodeId := v.nodeId, chunkHash }

/-- `values`. -/
def backfillValues (versions : List VersionRow) : List VersionChunkRow := versions.flatMap VersionRow.chunkRows

/-! ### What is asked for -/

namespace Db

variable (s : Db)

/-- The row is of a version of the table and of a chunk of its manifest. -/
def NamesChunk (r : VersionChunkRow) : Prop := ∃ v ∈ s.versions, ∃ chunk ∈ v.manifest, r = v.reference chunk.chunkHash

/-- The primary keys and foreign keys hold, every manifest names chunks that are there, by non-empty hashes, and every
row of `version_chunks` is a correct one. -/
structure Backfillable : Prop where
  versionKeys : (s.versions.map VersionRow.versionId).Nodup
  nodes : ∀ v ∈ s.versions, (s.node v.nodeId).isSome
  chunks : ∀ v ∈ s.versions, ∀ chunk ∈ v.manifest, chunk.chunkHash ≠ "" ∧ (s.chunk chunk.chunkHash).isSome
  rowKeys : (s.versionChunks.map VersionChunkRow.key).Nodup
  correct : ∀ r ∈ s.versionChunks, s.NamesChunk r

/-- The empty version id is on a page of its own, where the loop takes it for the end: pages have one version, or
there is no other version. -/
def LoneEmptyId (pageSize : ℕ) : Prop :=
  "" ∈ s.versions.map VersionRow.versionId ∧ (pageSize = 1 ∨ s.versions.length = 1)

instance (pageSize : ℕ) : Decidable (s.LoneEmptyId pageSize) := inferInstanceAs (Decidable (_ ∧ _))

/-- The values of each page of these versions fit into one statement, which has three parameters for each. -/
def Fits (pageSize : ℕ) (versions : List VersionRow) : Prop :=
  ∀ j, 3 * (backfillValues ((versions.drop (j * pageSize)).take pageSize)).length ≤ s.maxParams

/-- The database with these rows in `version_chunks`. -/
def withVersionChunks (t : List VersionChunkRow) : Db := { s with versionChunks := t }

end Db

/-- One row for each version and chunk of its manifest and no other, nothing else changed, and all versions are
counted. -/
structure Backfilled (s s' : Db) (result : VersionChunksBackfillResult) : Prop where
  once : s'.versionChunks.Nodup
  rows : ∀ r, r ∈ s'.versionChunks ↔ s.NamesChunk r
  same : s'.withVersionChunks s.versionChunks = s
  scanned : result.versionsScanned = s.versions.length

/-- The backfill ends with all rows there. Started again on its result it ends the same way and changes nothing. -/
def BackfillWorks (pageSize : ℕ) (s : Db) : Prop :=
  ∃ enough s' result, Backfilled s s' result ∧ ∀ turns, enough ≤ turns →
    (backfillVersionChunks pageSize turns).runBody s = (s', .ok (some result)) ∧
      (backfillVersionChunks pageSize turns).runBody s' = (s', .ok (some result))

/-! ### A page -/

section Page

variable {s : Db} {versions versions' : List VersionRow} {t : List VersionChunkRow} {r : VersionChunkRow}

theorem backfillValues_append :
    backfillValues (versions ++ versions') = backfillValues versions ++ backfillValues versions' :=
  List.flatMap_append

theorem mem_backfillValues : r ∈ backfillValues versions ↔
    ∃ v ∈ versions, ∃ chunk ∈ v.manifest, chunk.chunkHash ≠ "" ∧ r = v.reference chunk.chunkHash := by
  simp only [backfillValues, VersionRow.chunkRows, List.mem_flatMap, List.mem_map, List.mem_eraseDups,
    List.mem_filter, decide_eq_true_eq]
  constructor
  · rintro ⟨v, hv, hash, ⟨⟨chunk, hchunk, rfl⟩, hne⟩, rfl⟩
    exact ⟨v, hv, chunk, hchunk, hne, rfl⟩
  · rintro ⟨v, hv, chunk, hchunk, hne, rfl⟩
    exact ⟨v, hv, chunk.chunkHash, ⟨⟨chunk, hchunk, rfl⟩, hne⟩, rfl⟩

/-- The values of versions are correct rows. -/
theorem Db.Backfillable.mem_values (hs : s.Backfillable) (hversions : ∀ v ∈ versions, v ∈ s.versions) :
    r ∈ backfillValues versions ↔ ∃ v ∈ versions, ∃ chunk ∈ v.manifest, r = v.reference chunk.chunkHash := by
  rw [mem_backfillValues]
  constructor
  · rintro ⟨v, hv, chunk, hchunk, -, hr⟩
    exact ⟨v, hv, chunk, hchunk, hr⟩
  · rintro ⟨v, hv, chunk, hchunk, hr⟩
    exact ⟨v, hv, chunk, hchunk, (hs.chunks v (hversions v hv) chunk hchunk).1, hr⟩

theorem Db.Backfillable.names (hs : s.Backfillable) (hversions : ∀ v ∈ versions, v ∈ s.versions)
    (hr : r ∈ backfillValues versions) : s.NamesChunk r := by
  obtain ⟨v, hv, chunk, hchunk, rfl⟩ := (hs.mem_values hversions).1 hr
  exact ⟨v, hversions v hv, chunk, hchunk, rfl⟩

/-- The primary key tells correct rows from each other. -/
theorem Db.Backfillable.key_inj (hs : s.Backfillable) {a b : VersionChunkRow} (ha : s.NamesChunk a)
    (hb : s.NamesChunk b) (h : a.key = b.key) : a = b := by
  obtain ⟨v, hv, chunk, -, rfl⟩ := ha
  obtain ⟨w, hw, chunk', -, rfl⟩ := hb
  have hids : v.versionId = w.versionId := congrArg Prod.fst h
  have hhashes : chunk.chunkHash = chunk'.chunkHash := congrArg Prod.snd h
  rw [List.inj_on_of_nodup_map hs.versionKeys hv hw hids, hhashes]

theorem keyTaken_iff (s : Db) (row : VersionChunkRow) :
    s.keyTaken row = (lookup VersionChunkRow.key row.key s.versionChunks).isSome := by
  rw [Bool.eq_iff_iff, isSome_lookup, Db.keyTaken, List.any_eq_true]
  simp [VersionChunkRow.key]

/-- The insertion of rows, one after the other. -/
theorem foldl_insertMissing (s : Db) (rows : List VersionChunkRow) :
    rows.foldl (fun s row => if s.keyTaken row then s else { s with versionChunks := s.versionChunks ++ [row] }) s =
      s.withVersionChunks (insertIfAbsent VersionChunkRow.key rows s.versionChunks) := by
  induction rows generalizing s with
  | nil => rfl
  | cons row rows ih =>
    rw [List.foldl_cons, ih, insertIfAbsent_cons, keyTaken_iff]
    split <;> rfl

/-- **The insertion of a page** that fits into a statement breaks no foreign key. -/
theorem runBody_insertPage_of_versions (hs : s.Backfillable) (hversions : ∀ v ∈ versions, v ∈ s.versions)
    (hfits : 3 * (backfillValues versions).length ≤ s.maxParams) (t : List VersionChunkRow) :
    (insertPage (backfillValues versions)).runBody (s.withVersionChunks t) =
      (s.withVersionChunks (insertIfAbsent VersionChunkRow.key (backfillValues versions) t), .ok ()) := by
  have hvalid : ((backfillValues versions).any fun row => !(s.withVersionChunks t).keyTaken row &&
      (((s.withVersionChunks t).version row.versionId).isNone || ((s.withVersionChunks t).node row.nodeId).isNone ||
        ((s.withVersionChunks t).chunk row.chunkHash).isNone)) = false := by
    refine List.any_eq_false.2 fun r hr => ?_
    obtain ⟨v, hv, chunk, hchunk, rfl⟩ := hs.names hversions hr
    have hversion : ((s.withVersionChunks t).version v.versionId).isSome := isSome_lookup.2 ⟨v, hv, rfl⟩
    have hnode : ((s.withVersionChunks t).node v.nodeId).isSome := hs.nodes v hv
    have hthere : ((s.withVersionChunks t).chunk chunk.chunkHash).isSome := (hs.chunks v hv chunk hchunk).2
    rw [Option.isSome_iff_ne_none] at hversion hnode hthere
    simp [VersionRow.reference, hversion, hnode, hthere]
  by_cases hnil : backfillValues versions = []
  · rw [insertPage, if_pos hnil, hnil]
    rfl
  · have hlimit : ¬ (s.withVersionChunks t).maxParams < 3 * (backfillValues versions).length := Nat.not_lt.2 hfits
    rw [insertPage, if_neg hnil, insertMissingChunkRows, Proc.runBody_stmt, if_neg hlimit]
    rw [if_neg (by rw [hvalid]; decide)]
    dsimp only
    rw [foldl_insertMissing]
    rfl

/-- A page that does not fit is rejected. -/
theorem insertPage_rejected (h : s.maxParams < 3 * (backfillValues versions).length) (t : List VersionChunkRow) :
    (insertPage (backfillValues versions)).runBody (s.withVersionChunks t) =
      (s.withVersionChunks t, .error .tooManyParams) := by
  have hnil : backfillValues versions ≠ [] := by
    intro hnil
    rw [hnil] at h
    exact absurd h (Nat.not_lt_zero _)
  have hlimit : (s.withVersionChunks t).maxParams < 3 * (backfillValues versions).length := h
  rw [insertPage, if_neg hnil, insertMissingChunkRows, Proc.runBody_stmt, if_pos hlimit]

/-- The values of a page are no more than those of all versions. -/
theorem length_backfillValues_le {page : List VersionRow} (h : page.Sublist versions) :
    (backfillValues page).length ≤ (backfillValues versions).length := by
  induction h with
  | slnil => exact le_rfl
  | cons v _ ih => exact ih.trans (by simp [backfillValues])
  | cons_cons v _ ih => simpa [backfillValues] using ih

theorem Db.Fits.first {pageSize : ℕ} (h : s.Fits pageSize versions) :
    3 * (backfillValues (versions.take pageSize)).length ≤ s.maxParams := by
  simpa using h 0

theorem Db.Fits.rest {pageSize : ℕ} (h : s.Fits pageSize versions) : s.Fits pageSize (versions.drop pageSize) := by
  intro j
  have hnext := h (j + 1)
  have hskip : (j + 1) * pageSize = pageSize + j * pageSize := by rw [Nat.succ_mul, Nat.add_comm]
  rw [hskip] at hnext
  rw [List.drop_drop]
  exact hnext

theorem Db.Fits.cons {pageSize : ℕ} (hfirst : 3 * (backfillValues (versions.take pageSize)).length ≤ s.maxParams)
    (hrest : s.Fits pageSize (versions.drop pageSize)) : s.Fits pageSize versions := by
  intro j
  cases j with
  | zero => simpa using hfirst
  | succ j =>
    have hnext := hrest j
    have hskip : (j + 1) * pageSize = pageSize + j * pageSize := by rw [Nat.succ_mul, Nat.add_comm]
    rw [List.drop_drop] at hnext
    rw [hskip]
    exact hnext

end Page

/-! ### The loop -/

section Loop

variable {s : Db} {pageSize : ℕ}

/-- `ORDER BY version_id`. -/
def Db.versionsInOrder (s : Db) : List VersionRow := Keyset.ordered VersionRow.versionId s.versions

/-- No page of the backfill has more values than fit into one statement. -/
def Db.PagesFit (s : Db) (pageSize : ℕ) : Prop := s.Fits pageSize s.versionsInOrder

@[simp] theorem mem_versionsInOrder {v : VersionRow} : v ∈ s.versionsInOrder ↔ v ∈ s.versions := Keyset.mem_ordered

@[simp] theorem length_versionsInOrder (s : Db) : s.versionsInOrder.length = s.versions.length :=
  Keyset.length_ordered s.versions

/-- A page of the versions is a page of a keyset. -/
theorem selectVersionPage_eq (pageSize : ℕ) (last : Option String) (s : Db) : selectVersionPage pageSize last s =
    Keyset.page VersionRow.versionId pageSize (truthy last) s.versions := by
  rw [selectVersionPage, Keyset.page, Keyset.ordered]
  cases truthy last with
  | none => simp
  | some id => simp

/-- A version with the empty id comes first. -/
theorem Db.Backfillable.empty_first (hs : s.Backfillable) {pre post : List VersionRow} {v : VersionRow}
    (hsplit : s.versionsInOrder = pre ++ v :: post) (hv : v.versionId = "") : pre = [] := by
  refine Keyset.head_least hs.versionKeys hsplit fun w _ => ?_
  rw [hv, String.le_iff_toList_le]
  exact not_lt.1 (List.not_lt_nil w.versionId.toList)

/-- The next page starts behind the versions that are done, unless the last of them has the empty id. -/
theorem Db.Backfillable.next_page (hs : s.Backfillable) {pre post : List VersionRow}
    (hsplit : s.versionsInOrder = pre ++ post) (hlast : ∀ v ∈ pre.getLast?, v.versionId ≠ "") :
    Keyset.page VersionRow.versionId pageSize (truthy (pre.getLast?.map VersionRow.versionId)) s.versions =
      post.take pageSize := by
  have hkey : truthy (pre.getLast?.map VersionRow.versionId) = pre.getLast?.map VersionRow.versionId := by
    cases hpre : pre.getLast? with
    | none => rfl
    | some v =>
      have hne : v.versionId ≠ "" := hlast v (by rw [hpre]; rfl)
      simp [truthy, hne]
  rw [hkey]
  exact Keyset.page_split hs.versionKeys hsplit

/-- A page does not end with the empty id, where that is not on a page of its own. -/
theorem Db.Backfillable.page_last (hs : s.Backfillable) (hlone : ¬ s.LoneEmptyId pageSize)
    {pre post : List VersionRow}
    (hsplit : s.versionsInOrder = pre ++ post) {v : VersionRow}
    (hv : (post.take pageSize).getLast? = some v) : v.versionId ≠ "" := by
  intro hempty
  obtain ⟨page, hpage⟩ := List.getLast?_eq_some_iff.1 hv
  have hcut : s.versionsInOrder = (pre ++ page) ++ v :: post.drop pageSize := by
    have hpost := List.take_append_drop pageSize post
    rw [hpage] at hpost
    rw [hsplit]
    nth_rewrite 1 [← hpost]
    simp only [List.append_assoc, List.singleton_append]
  have hfirst : pre ++ page = [] := hs.empty_first hcut hempty
  obtain ⟨hpre, hnil⟩ := List.append_eq_nil_iff.1 hfirst
  have hmem : v ∈ s.versions := by
    have hordered : v ∈ s.versionsInOrder := by
      rw [hcut]
      simp
    exact mem_versionsInOrder.1 hordered
  have hlength := congrArg List.length hpage
  have hall := congrArg List.length hsplit
  rw [hnil, List.length_take] at hlength
  rw [hpre, length_versionsInOrder] at hall
  refine hlone ⟨List.mem_map.2 ⟨v, hmem, hempty⟩, ?_⟩
  simp only [List.nil_append, List.length_cons, List.length_nil] at hlength hall
  omega

/-- **The loop from any page on**: it goes through the versions that are left. -/
theorem runBody_backfillPages (hs : s.Backfillable) (hsize : 1 ≤ pageSize) (hlone : ¬ s.LoneEmptyId pageSize)
    (turns : ℕ) {pre post : List VersionRow} (hsplit : s.versionsInOrder = pre ++ post) (hfits : s.Fits pageSize post)
    (hlast : ∀ v ∈ pre.getLast?, v.versionId ≠ "") (hturns : post.length < turns) {t : List VersionChunkRow}
    (ht : ∀ r ∈ t, s.NamesChunk r) (result : VersionChunksBackfillResult) :
    (backfillPages pageSize turns (pre.getLast?.map VersionRow.versionId) result).runBody (s.withVersionChunks t) =
      (s.withVersionChunks (insertIfAbsent VersionChunkRow.key (backfillValues post) t),
        .ok (some { versionsScanned := result.versionsScanned + post.length
                    rowsAttempted := result.rowsAttempted + (backfillValues post).length })) := by
  induction turns generalizing pre post t result with
  | zero => omega
  | succ turns ih =>
    have hpage : selectVersionPage pageSize (pre.getLast?.map VersionRow.versionId) (s.withVersionChunks t) =
        post.take pageSize := (selectVersionPage_eq _ _ _).trans (hs.next_page hsplit hlast)
    rw [backfillPages, Proc.runBody_bind_of_ok (Proc.runBody_read _ _), hpage]
    cases hend : (post.take pageSize).getLast? with
    | none =>
      have hnil : post = [] := by
        have htake : post.take pageSize = [] := List.getLast?_eq_none_iff.1 hend
        have hlength := congrArg List.length htake
        rw [List.length_take, List.length_nil] at hlength
        exact List.length_eq_zero_iff.1 (by omega)
      rw [hnil]
      rfl
    | some last =>
      have hmem : ∀ v ∈ post.take pageSize, v ∈ s.versions := by
        intro v hv
        have hordered : v ∈ s.versionsInOrder := by
          rw [hsplit]
          exact List.mem_append_right _ (List.mem_of_mem_take hv)
        exact mem_versionsInOrder.1 hordered
      have hcut : pre ++ post = (pre ++ post.take pageSize) ++ post.drop pageSize := by
        rw [List.append_assoc, List.take_append_drop]
      have hnext : (pre ++ post.take pageSize).getLast? = some last := by
        rw [List.getLast?_append, hend]
        rfl
      have hnonempty : 0 < (post.take pageSize).length := List.length_pos_of_mem (List.mem_of_getLast? hend)
      have hrest := List.length_drop (i := pageSize) (l := post)
      have htake := List.length_take (i := pageSize) (l := post)
      have hnames : ∀ r ∈ insertIfAbsent VersionChunkRow.key (backfillValues (post.take pageSize)) t,
          s.NamesChunk r := by
        intro r hr
        have hvalues := (mem_insertIfAbsent (fun a b => hs.key_inj) ht fun r => hs.names hmem).1 hr
        exact hvalues.elim (ht r) (hs.names hmem)
      have hstep := ih (hsplit.trans hcut) hfits.rest (fun v hv => ?_) (by omega) hnames
        { versionsScanned := result.versionsScanned + (post.take pageSize).length
          rowsAttempted := result.rowsAttempted + (backfillValues (post.take pageSize)).length }
      · dsimp only
        refine (Proc.runBody_bind_of_ok (runBody_insertPage_of_versions hs hmem hfits.first t) _).trans ?_
        rw [hnext] at hstep
        have hsum : (post.take pageSize).length + (post.drop pageSize).length = post.length := by omega
        have hvalues : backfillValues post =
            backfillValues (post.take pageSize) ++ backfillValues (post.drop pageSize) := by
          rw [← backfillValues_append, List.take_append_drop]
        rw [hvalues, insertIfAbsent_append, List.length_append, ← hsum, ← Nat.add_assoc, ← Nat.add_assoc]
        exact hstep
      · rw [hnext] at hv
        cases hv
        exact hs.page_last hlone hsplit hend

/-- **A loop that comes to its end** has inserted all pages that were left, so they fit. -/
theorem fits_of_backfillPages (hs : s.Backfillable) (hsize : 1 ≤ pageSize) (hlone : ¬ s.LoneEmptyId pageSize)
    (turns : ℕ) {pre post : List VersionRow} (hsplit : s.versionsInOrder = pre ++ post)
    (hlast : ∀ v ∈ pre.getLast?, v.versionId ≠ "") {t : List VersionChunkRow}
    {result result' : VersionChunksBackfillResult} {s' : Db}
    (hrun : (backfillPages pageSize turns (pre.getLast?.map VersionRow.versionId) result).runBody
      (s.withVersionChunks t) = (s', .ok (some result'))) : s.Fits pageSize post := by
  induction turns generalizing pre post t result with
  | zero => cases hrun
  | succ turns ih =>
    have hpage : selectVersionPage pageSize (pre.getLast?.map VersionRow.versionId) (s.withVersionChunks t) =
        post.take pageSize := (selectVersionPage_eq _ _ _).trans (hs.next_page hsplit hlast)
    rw [backfillPages, Proc.runBody_bind_of_ok (Proc.runBody_read _ _), hpage] at hrun
    cases hend : (post.take pageSize).getLast? with
    | none =>
      have hnil : post = [] := by
        have hlength := congrArg List.length (List.getLast?_eq_none_iff.1 hend)
        rw [List.length_take, List.length_nil] at hlength
        exact List.length_eq_zero_iff.1 (by omega)
      intro j
      simp [hnil, backfillValues]
    | some last =>
      rw [hend] at hrun
      dsimp only at hrun
      have hmem : ∀ v ∈ post.take pageSize, v ∈ s.versions := by
        intro v hv
        have hordered : v ∈ s.versionsInOrder := by
          rw [hsplit]
          exact List.mem_append_right _ (List.mem_of_mem_take hv)
        exact mem_versionsInOrder.1 hordered
      by_cases hfirst : 3 * (backfillValues (post.take pageSize)).length ≤ s.maxParams
      · have hcut : pre ++ post = (pre ++ post.take pageSize) ++ post.drop pageSize := by
          rw [List.append_assoc, List.take_append_drop]
        have hnext : (pre ++ post.take pageSize).getLast? = some last := by
          rw [List.getLast?_append, hend]
          rfl
        have hinsert := Proc.runBody_bind_of_ok (runBody_insertPage_of_versions hs hmem hfirst t)
          (fun _ => backfillPages pageSize turns (some last.versionId)
            ⟨result.versionsScanned + (post.take pageSize).length,
              result.rowsAttempted + (backfillValues (post.take pageSize)).length⟩)
        have hlast' : ∀ v ∈ (pre ++ post.take pageSize).getLast?, v.versionId ≠ "" := by
          intro v hv
          rw [hnext] at hv
          cases hv
          exact hs.page_last hlone hsplit hend
        have hrest := hinsert.symm.trans hrun
        have hkey : some last.versionId = (pre ++ post.take pageSize).getLast?.map VersionRow.versionId := by
          rw [hnext]
          rfl
        rw [hkey] at hrest
        exact Db.Fits.cons hfirst (ih (hsplit.trans hcut) hlast' hrest)
      · -- the insert of the page is rejected, and the loop with it
        have hrejected := insertPage_rejected (Nat.not_le.1 hfirst) t
        rw [backfillValues] at hrejected
        rw [Proc.runBody_bind, hrejected] at hrun
        cases hrun

/-- Where the empty id is on a page of its own, the loop reads that page again and again, or its insert is rejected. -/
theorem runBody_backfillPages_lone (hs : s.Backfillable) (hsize : 1 ≤ pageSize) (hlone : s.LoneEmptyId pageSize)
    (turns : ℕ) {last : Option String} (hlast : truthy last = none) {t : List VersionChunkRow}
    (ht : ∀ r ∈ t, s.NamesChunk r) (result result' : VersionChunksBackfillResult) :
    ((backfillPages pageSize turns last result).runBody (s.withVersionChunks t)).2 ≠ .ok (some result') := by
  obtain ⟨hid, hsingle⟩ := hlone
  obtain ⟨v, hv, hempty⟩ := List.mem_map.1 hid
  have hordered : v ∈ s.versionsInOrder := mem_versionsInOrder.2 hv
  obtain ⟨pre, post, hsplit⟩ := List.append_of_mem hordered
  have hpre := hs.empty_first hsplit hempty
  rw [hpre, List.nil_append] at hsplit
  have hpage : (v :: post).take pageSize = [v] := by
    have hlength := congrArg List.length hsplit
    rw [length_versionsInOrder, List.length_cons] at hlength
    obtain ⟨n, rfl⟩ := Nat.exists_eq_succ_of_ne_zero (Nat.one_le_iff_ne_zero.1 hsize)
    rw [List.take_succ_cons]
    rcases hsingle with hone | hone
    · have hzero : n = 0 := by omega
      rw [hzero, List.take_zero]
    · have hnil : post = [] := List.length_eq_zero_iff.1 (by omega)
      rw [hnil, List.take_nil]
  have hmem : ∀ w ∈ [v], w ∈ s.versions := fun w hw => by rw [List.mem_singleton.1 hw]; exact hv
  have hread : ∀ last t, truthy last = none → selectVersionPage pageSize last (s.withVersionChunks t) = [v] := by
    intro last t hlast
    rw [selectVersionPage_eq, hlast, Keyset.page_none]
    exact (congrArg (List.take pageSize) hsplit).trans hpage
  induction turns generalizing t result last with
  | zero => exact fun hrun => by cases hrun
  | succ turns ih =>
    rw [backfillPages, Proc.runBody_bind_of_ok (Proc.runBody_read _ _), hread last t hlast]
    dsimp only [List.getLast?_singleton]
    have hnames : ∀ r ∈ insertIfAbsent VersionChunkRow.key (backfillValues [v]) t, s.NamesChunk r := by
      intro r hr
      have hvalues := (mem_insertIfAbsent (fun a b => hs.key_inj) ht fun r => hs.names hmem).1 hr
      exact hvalues.elim (ht r) (hs.names hmem)
    have hagain : truthy (some v.versionId) = none := by
      rw [hempty]
      rfl
    by_cases hfirst : 3 * (backfillValues [v]).length ≤ s.maxParams
    · have hinsert := Proc.runBody_bind_of_ok (runBody_insertPage_of_versions hs hmem hfirst t)
        (fun _ => backfillPages pageSize turns (some v.versionId)
          ⟨result.versionsScanned + [v].length, result.rowsAttempted + (backfillValues [v]).length⟩)
      exact fun hrun => ih hagain hnames _ ((congrArg Prod.snd hinsert).symm.trans hrun)
    · have hrejected := insertPage_rejected (Nat.not_le.1 hfirst) t
      rw [backfillValues] at hrejected
      rw [Proc.runBody_bind, hrejected]
      exact fun hrun => by cases hrun

end Loop

/-! ### Every table -/

section Works

variable {s : Db} {pageSize turns : ℕ}

/-- The rows that a backfill leaves. -/
def Db.filled (s : Db) : List VersionChunkRow :=
  insertIfAbsent VersionChunkRow.key (backfillValues s.versionsInOrder) s.versionChunks

theorem Db.Backfillable.mem_filled (hs : s.Backfillable) {r : VersionChunkRow} : r ∈ s.filled ↔ s.NamesChunk r := by
  have hversions : ∀ v ∈ s.versionsInOrder, v ∈ s.versions := fun v => mem_versionsInOrder.1
  rw [Db.filled, mem_insertIfAbsent (fun a b => hs.key_inj) hs.correct fun r => hs.names hversions]
  constructor
  · exact fun h => h.elim (hs.correct r) (hs.names hversions)
  · rintro ⟨v, hv, chunk, hchunk, rfl⟩
    exact .inr ((hs.mem_values hversions).2 ⟨v, mem_versionsInOrder.2 hv, chunk, hchunk, rfl⟩)

/-- **A backfill that is not caught** from any correct rows. -/
theorem runBody_backfillVersionChunks (hs : s.Backfillable) (hsize : 1 ≤ pageSize)
    (hlone : ¬ s.LoneEmptyId pageSize) (hfits : s.PagesFit pageSize) (hturns : s.versions.length < turns)
    {t : List VersionChunkRow} (ht : ∀ r ∈ t, s.NamesChunk r) :
    (backfillVersionChunks pageSize turns).runBody (s.withVersionChunks t) =
      (s.withVersionChunks (insertIfAbsent VersionChunkRow.key (backfillValues s.versionsInOrder) t),
        .ok (some { versionsScanned := s.versions.length
                    rowsAttempted := (backfillValues s.versionsInOrder).length })) := by
  have hsplit : s.versionsInOrder = [] ++ s.versionsInOrder := rfl
  have henough : s.versionsInOrder.length < turns := by
    rw [length_versionsInOrder]
    exact hturns
  have hrun := runBody_backfillPages hs hsize hlone turns hsplit hfits (fun v hv => by cases hv) henough ht {}
  rw [length_versionsInOrder, Nat.zero_add, Nat.zero_add] at hrun
  exact hrun

/-- A backfill that is caught does not end with a result. -/
theorem not_backfillWorks (hs : s.Backfillable) (hsize : 1 ≤ pageSize) (hlone : s.LoneEmptyId pageSize) :
    ¬ BackfillWorks pageSize s := by
  intro hworks
  obtain ⟨enough, s', result, -, hruns⟩ := hworks
  have hstart : truthy none = none := rfl
  have hended := (hruns enough le_rfl).1
  rw [backfillVersionChunks] at hended
  exact runBody_backfillPages_lone hs hsize hlone enough hstart hs.correct {} result (congrArg Prod.snd hended)

/-- A backfill that works has inserted every page. -/
theorem BackfillWorks.pagesFit (hs : s.Backfillable) (hsize : 1 ≤ pageSize) (hlone : ¬ s.LoneEmptyId pageSize)
    (hworks : BackfillWorks pageSize s) : s.PagesFit pageSize := by
  obtain ⟨enough, s', result, -, hruns⟩ := hworks
  have hended := (hruns enough le_rfl).1
  have hsplit : s.versionsInOrder = [] ++ s.versionsInOrder := rfl
  exact fits_of_backfillPages hs hsize hlone enough hsplit (fun v hv => by cases hv) hended

/-- **Backfill** is complete, exact and repeatable, unless the empty id is on a page of its own or the values of a page
do not fit into one statement. -/
theorem backfillWorks_iff (hs : s.Backfillable) (hsize : 1 ≤ pageSize) :
    BackfillWorks pageSize s ↔ ¬ s.LoneEmptyId pageSize ∧ s.PagesFit pageSize := by
  constructor
  · intro hworks
    have hlone : ¬ s.LoneEmptyId pageSize := fun hlone => not_backfillWorks hs hsize hlone hworks
    exact ⟨hlone, hworks.pagesFit hs hsize hlone⟩
  · intro hcondition
    obtain ⟨hlone, hfits⟩ := hcondition
    let result : VersionChunksBackfillResult :=
      ⟨s.versions.length, (backfillValues s.versionsInOrder).length⟩
    refine ⟨s.versions.length + 1, s.withVersionChunks (s.filled), result, ⟨?_, fun r => hs.mem_filled, rfl, rfl⟩, ?_⟩
    · exact List.Nodup.of_map VersionChunkRow.key (nodup_insertIfAbsent hs.rowKeys)
    · intro turns hturns
      refine ⟨runBody_backfillVersionChunks hs hsize hlone hfits hturns hs.correct, ?_⟩
      have hagain := runBody_backfillVersionChunks hs hsize hlone hfits hturns fun r => (hs.mem_filled).1
      have hthere : ∀ r ∈ backfillValues s.versionsInOrder, r ∈ s.filled :=
        fun r hr => hs.mem_filled.2 (hs.names (fun v => mem_versionsInOrder.1) hr)
      rw [insertIfAbsent_of_present hthere] at hagain
      exact hagain

end Works

/-- Two versions of one file, with a chunk in both and one row already there. -/
def backfillDb : Db :=
  { raceDb with
    versions := [
      { versionId := "w", nodeId := "n", manifest := [⟨"c", 0, 1⟩, ⟨"e", 1, 1⟩, ⟨"e", 2, 1⟩], contentHash := "",
        sizeBytes := 3, authorDeviceId := "d", isConflictCopy := false },
      { versionId := "v", nodeId := "n", manifest := [⟨"c", 0, 1⟩], contentHash := "",
        sizeBytes := 1, authorDeviceId := "d", isConflictCopy := false }]
    chunks := [
      { chunkHash := "c", sizeBytes := 1, createdAt := 0 }, { chunkHash := "e", sizeBytes := 1, createdAt := 0 }]
    versionChunks := [{ versionId := "w", nodeId := "n", chunkHash := "e" }] }

theorem backfillDb_backfillable : backfillDb.Backfillable where
  versionKeys := by decide
  nodes := by decide
  chunks := by decide
  rowKeys := by decide
  correct := by
    simp only [Db.NamesChunk]
    decide

/-- A table of two versions and three chunks is far from the limit. -/
theorem backfillDb_fits : backfillDb.PagesFit 1 := by
  intro j
  have hpage := length_backfillValues_le
    ((List.take_sublist 1 _).trans (List.drop_sublist (j * 1) backfillDb.versionsInOrder))
  have hall : (backfillValues backfillDb.versionsInOrder).length = 3 := by decide +kernel
  have hlimit : backfillDb.maxParams = 32766 := rfl
  omega

theorem backfillWorks_iff_pages : BackfillWorks 1 backfillDb :=
  (backfillWorks_iff backfillDb_backfillable le_rfl).2 ⟨by decide, backfillDb_fits⟩

/-- `raceDb` after a call that names its version with the empty string. -/
def emptyIdDb : Db := (serve .sqlite (raceCall "") raceDb).1

theorem emptyIdDb_backfillable : emptyIdDb.Backfillable where
  versionKeys := by decide +kernel
  nodes := by decide +kernel
  chunks := by decide +kernel
  rowKeys := by decide +kernel
  correct := by
    simp only [Db.NamesChunk]
    decide +kernel

/-- A table that a call leaves and whose backfill does not end. -/
theorem backfill_never_ends : emptyIdDb.Backfillable ∧ ¬ BackfillWorks 500 emptyIdDb := by
  have hlone : emptyIdDb.LoneEmptyId 500 := by decide +kernel
  exact ⟨emptyIdDb_backfillable, not_backfillWorks emptyIdDb_backfillable (by decide) hlone⟩

end Valv.Server
