import Valv.Lib.Batch
import Valv.Server.Gc

/-!
# Collecting chunks, batch after batch

A pass of `runChunkGcOnce` comes to the first chunks past the grace period that have no reference counted.  The
row of one that a version still refers to cannot be deleted, and is selected again by the next pass.

* `GcArgs.collect`: a pass that nothing interleaves with.
* `collect_store`: what it leaves.
* `chunks_collected`: when passes come to every chunk.
-/

namespace Valv.Server

open Valv.Conc Valv.Table Valv.Batch

/-! ### One pass -/

/-- The next statement of a pass, when every `DELETE` of an object succeeds. -/
def ChunkGc.advance (p : ChunkGc × Store) : ChunkGc × Store := p.1.next true p.2

/-- A pass that nothing interleaves with: two statements at most for each chunk. -/
def GcArgs.collect (args : GcArgs) (store : Store) : Store :=
  let g := ChunkGc.start args store.db
  (ChunkGc.advance^[2 * g.todo.length] (g, store)).2

/-- The chunk's row can be deleted. -/
def Db.deletable (s : Db) (hash : String) : Bool := s.uncounted hash && !s.referenced hash

/-- A chunk's row and its object are deleted. -/
def Store.dropChunk (store : Store) (hash : String) : Store where
  db := { store.db with chunks := store.db.chunks.filter fun c => !(c.chunkHash = hash && c.refcount = 0) }
  objects := store.objects.filter (· ≠ chunkKey hash)

/-- What a pass makes of the chunk. -/
def Store.collectOne (store : Store) (hash : String) : Store :=
  if store.db.deletable hash then store.dropChunk hash else store

section Pass

/-- The statements of a pass for one chunk: two when its row is deleted, one when it is not. -/
theorem advance_collectOne (store : Store) {g : ChunkGc} {hash : String} {todo : List String} (hobject : g.object = none)
    (htodo : g.todo = hash :: todo) : ∃ g' : ChunkGc, g'.object = none ∧ g'.todo = todo ∧
      (ChunkGc.advance (g, store) = (g', store.collectOne hash) ∨
        ChunkGc.advance (ChunkGc.advance (g, store)) = (g', store.collectOne hash)) := by
  cases huncounted : store.db.uncounted hash with
  | false =>
    have hrun : (deleteChunkRow hash).runBody store.db = (store.db, .ok false) := by
      simp [deleteChunkRow, Proc.runBody, huncounted]
    have hone : store.collectOne hash = store := by simp [Store.collectOne, Db.deletable, huncounted]
    refine ⟨{ g with todo }, hobject, rfl, .inl ?_⟩
    simp [ChunkGc.advance, ChunkGc.next, hobject, htodo, hrun, hone]
  | true =>
    cases hreferenced : store.db.referenced hash with
    | true =>
      have hrun : (deleteChunkRow hash).runBody store.db = (store.db, .error (.constraint .foreignKey)) := by
        simp [deleteChunkRow, Proc.runBody, huncounted, hreferenced]
      have hone : store.collectOne hash = store := by simp [Store.collectOne, Db.deletable, hreferenced]
      refine ⟨{ g with todo, result.errorCount := g.result.errorCount + 1 }, hobject, rfl, .inl ?_⟩
      simp [ChunkGc.advance, ChunkGc.next, hobject, htodo, hrun, hone]
    | false =>
      have hrun : (deleteChunkRow hash).runBody store.db = ((store.dropChunk hash).db, .ok true) := by
        simp [deleteChunkRow, Proc.runBody, huncounted, hreferenced, Store.dropChunk]
      have hone : store.collectOne hash = store.dropChunk hash := by
        simp [Store.collectOne, Db.deletable, huncounted, hreferenced]
      refine ⟨{ g with todo, result.deletedCount := g.result.deletedCount + 1 }, hobject, rfl, .inr ?_⟩
      simp [ChunkGc.advance, ChunkGc.next, hobject, htodo, hrun, hone, Store.dropChunk]

/-- A pass comes to each chunk that it has selected. -/
theorem iterate_advance {store : Store} {g : ChunkGc} {todo : List String} (hobject : g.object = none) (htodo : g.todo = todo)
    {steps : ℕ} (hsteps : 2 * todo.length ≤ steps) :
    (ChunkGc.advance^[steps] (g, store)).2 = todo.foldl Store.collectOne store := by
  induction todo generalizing g store steps with
  | nil =>
    have hfixed : ChunkGc.advance (g, store) = (g, store) := by simp [ChunkGc.advance, ChunkGc.next, hobject, htodo]
    rw [Function.iterate_fixed hfixed]
    rfl
  | cons hash todo ih =>
    rw [List.length_cons] at hsteps
    obtain ⟨g', hobject', htodo', hone | htwo⟩ := advance_collectOne store hobject htodo
    · obtain ⟨m, rfl⟩ : ∃ m, steps = m + 1 := ⟨steps - 1, by omega⟩
      rw [Function.iterate_succ_apply, hone, List.foldl_cons]
      exact ih hobject' htodo' (by omega)
    · obtain ⟨m, rfl⟩ : ∃ m, steps = m + 2 := ⟨steps - 2, by omega⟩
      rw [Function.iterate_succ_apply, Function.iterate_succ_apply, htwo, List.foldl_cons]
      exact ih hobject' htodo' (by omega)

theorem collect_eq (args : GcArgs) (hmode : args.mode = .delete) (store : Store) : args.collect store =
    (withLimit args.batchSize (store.db.eligibleChunks args.cutoff)).foldl Store.collectOne store := by
  have htodo : (ChunkGc.start args store.db).todo = withLimit args.batchSize (store.db.eligibleChunks args.cutoff) := by
    rw [ChunkGc.start, hmode]
  rw [GcArgs.collect, ← htodo]
  exact iterate_advance rfl rfl (Nat.le_refl _)

/-- **What a pass leaves** of the rows. -/
theorem foldl_collectOne_db (hashes : List String) (store : Store) : (hashes.foldl Store.collectOne store).db =
    { store.db with chunks := store.db.chunks.filter fun c =>
        !(c.chunkHash ∈ hashes && c.refcount = 0 && !store.db.referenced c.chunkHash) } := by
  induction hashes generalizing store with
  | nil => simp
  | cons hash hashes ih =>
    have hone : (store.collectOne hash).db = { store.db with chunks := store.db.chunks.filter fun c =>
        !(c.chunkHash = hash && c.refcount = 0 && !store.db.referenced hash) } := by
      rw [Store.collectOne]
      by_cases hdeletable : store.db.deletable hash = true
      · have hfree : store.db.referenced hash = false := by
          simpa using (Bool.and_eq_true_iff.mp hdeletable).2
        simp [hdeletable, hfree, Store.dropChunk]
      · rw [if_neg hdeletable]
        have hkeep : store.db.chunks.filter (fun c =>
            !(c.chunkHash = hash && c.refcount = 0 && !store.db.referenced hash)) = store.db.chunks := by
          rw [List.filter_eq_self]
          intro c hc
          by_contra hgone
          have hc' : (c.chunkHash = hash ∧ c.refcount = 0) ∧ store.db.referenced hash = false := by simpa using hgone
          have huncounted : store.db.uncounted hash = true := by
            rw [Db.uncounted, List.any_eq_true]
            exact ⟨c, hc, by simpa using hc'.1⟩
          exact hdeletable (by simp [Db.deletable, huncounted, hc'.2])
        rw [hkeep]
    have hreferenced : ∀ h, (store.collectOne hash).db.referenced h = store.db.referenced h := by
      intro h
      rw [Db.referenced, hone]
      rfl
    rw [List.foldl_cons, ih]
    simp only [hreferenced]
    rw [hone]
    simp only [List.filter_filter]
    congr 1
    refine List.filter_congr fun c _ => ?_
    by_cases heq : c.chunkHash = hash
    · cases hr : store.db.referenced hash <;> by_cases hcount : c.refcount = 0 <;> simp [heq, hr, hcount]
    · simp [heq]

/-- And of the objects: the object of a row that is gone is gone. -/
theorem foldl_collectOne_objects (hashes : List String) (store : Store) {key : String} :
    key ∈ (hashes.foldl Store.collectOne store).objects ↔
      key ∈ store.objects ∧ ∀ hash ∈ hashes, store.db.deletable hash → key ≠ chunkKey hash := by
  induction hashes generalizing store with
  | nil => simp
  | cons hash hashes ih =>
    have hobjects : key ∈ (store.collectOne hash).objects ↔
        key ∈ store.objects ∧ (store.db.deletable hash → key ≠ chunkKey hash) := by
      rw [Store.collectOne]
      split
      · next hdeletable => simp [Store.dropChunk, hdeletable]
      · next hdeletable => simp [hdeletable]
    have hdeletable : ∀ h, (store.collectOne hash).db.deletable h = true ↔ store.db.deletable h = true ∧ h ≠ hash := by
      intro h
      rw [Store.collectOne]
      by_cases hfirst : store.db.deletable hash = true
      · rw [if_pos hfirst]
        have huncounted : (store.dropChunk hash).db.uncounted h = true ↔ store.db.uncounted h = true ∧ h ≠ hash := by
          simp only [Store.dropChunk, Db.uncounted, List.any_eq_true, List.mem_filter]
          grind
        have hreferenced : (store.dropChunk hash).db.referenced h = store.db.referenced h := rfl
        simp only [Db.deletable, Bool.and_eq_true, huncounted, hreferenced]
        exact and_right_comm
      · rw [if_neg hfirst]
        refine ⟨fun hh => ⟨hh, ?_⟩, And.left⟩
        rintro rfl
        exact hfirst hh
    rw [List.foldl_cons, ih, hobjects]
    simp only [hdeletable, List.mem_cons, forall_eq_or_imp]
    grind

end Pass

/-! ### Pass after pass -/

/-- The row can be collected: past the grace period, no reference counted, and no version refers to it. -/
def Db.collectable (s : Db) (cutoff : ℕ) (c : ChunkRow) : Bool :=
  c.refcount = 0 && c.createdAt < cutoff && !s.referenced c.chunkHash

/-- Every row that can be collected is gone, and its object; no other row is. -/
structure Collected (cutoff : ℕ) (store store' : Store) : Prop where
  gone : ∀ c ∈ store.db.chunks, store.db.collectable cutoff c →
    c ∉ store'.db.chunks ∧ chunkKey c.chunkHash ∉ store'.objects
  kept : ∀ c ∈ store.db.chunks, store.db.collectable cutoff c = false → c ∈ store'.db.chunks
  others : store'.db = { store.db with chunks := store'.db.chunks }

/-- The size of a batch. -/
def GcArgs.chunkLimit (args : GcArgs) (s : Db) : ℕ := args.batchSize.getD (s.eligibleChunks args.cutoff).length

/-- What passes may have done. -/
structure Passed (args : GcArgs) (store store' : Store) : Prop where
  others : store'.db = { store.db with chunks := store'.db.chunks }
  rows : store'.db.chunks.Sublist store.db.chunks
  removed : ∀ c ∈ store.db.chunks, c ∉ store'.db.chunks →
    store.db.collectable args.cutoff c ∧ chunkKey c.chunkHash ∉ store'.objects

section Passes

variable {args : GcArgs} {store store' : Store}

theorem Passed.start (args : GcArgs) (store : Store) : Passed args store store where
  others := rfl
  rows := List.Sublist.refl _
  removed _ hc hnot := absurd hc hnot

theorem Passed.referenced (h : Passed args store store') : store'.db.referenced = store.db.referenced := by
  funext hash
  rw [Db.referenced, h.others]
  rfl

theorem mem_eligibleChunks {s : Db} {cutoff : ℕ} {hash : String} : hash ∈ s.eligibleChunks cutoff ↔
    ∃ c ∈ s.chunks, (c.refcount = 0 ∧ c.createdAt < cutoff) ∧ c.chunkHash = hash := by
  simp [Db.eligibleChunks, and_assoc]

theorem Passed.limit (h : Passed args store store') :
    withLimit args.batchSize (store'.db.eligibleChunks args.cutoff) =
      (store'.db.eligibleChunks args.cutoff).take (args.chunkLimit store.db) := by
  rw [GcArgs.chunkLimit]
  cases args.batchSize with
  | none =>
    have hshort : (store'.db.eligibleChunks args.cutoff).Sublist (store.db.eligibleChunks args.cutoff) :=
      (h.rows.filter _).map _
    exact (List.take_of_length_le hshort.length_le).symm
  | some n => rfl

/-- One more pass. -/
theorem Passed.collect (h : Passed args store store') (hmode : args.mode = .delete)
    (hkeys : (store.db.chunks.map ChunkRow.chunkHash).Nodup) : Passed args store (args.collect store') := by
  let batch := withLimit args.batchSize (store'.db.eligibleChunks args.cutoff)
  have hdb : (args.collect store').db = { store'.db with chunks := store'.db.chunks.filter fun c =>
      !(c.chunkHash ∈ batch && c.refcount = 0 && !store'.db.referenced c.chunkHash) } := by
    rw [collect_eq args hmode]
    exact foldl_collectOne_db batch store'
  have hobjects : ∀ key, key ∈ (args.collect store').objects ↔
      key ∈ store'.objects ∧ ∀ hash ∈ batch, store'.db.deletable hash → key ≠ chunkKey hash := by
    intro key
    rw [collect_eq args hmode]
    exact foldl_collectOne_objects batch store'
  refine ⟨?_, ?_, fun c hc hgone => ?_⟩
  · rw [hdb, h.others]
  · rw [hdb]
    exact List.filter_sublist.trans h.rows
  · by_cases hold : c ∈ store'.db.chunks
    · -- the row goes in this pass
      have hfilter : (c.chunkHash ∈ batch ∧ c.refcount = 0) ∧ store'.db.referenced c.chunkHash = false := by
        rw [hdb] at hgone
        by_contra hnot
        apply hgone
        refine List.mem_filter.mpr ⟨hold, ?_⟩
        by_contra hfalse
        apply hnot
        simpa using hfalse
      obtain ⟨⟨hbatch, hcount⟩, hfree⟩ := hfilter
      obtain ⟨c', hc', helig, heq⟩ := mem_eligibleChunks.mp ((withLimit_sublist _ _).subset hbatch)
      have hsame : c' = c := List.inj_on_of_nodup_map hkeys (h.rows.subset hc') hc heq
      rw [hsame] at helig
      refine ⟨?_, fun hobject => ?_⟩
      · rw [h.referenced] at hfree
        simp [Db.collectable, helig, hfree]
      · have huncounted : store'.db.uncounted c.chunkHash = true := by
          rw [Db.uncounted, List.any_eq_true]
          exact ⟨c, hold, by simp [hcount]⟩
        exact ((hobjects _).mp hobject).2 c.chunkHash hbatch (by simp [Db.deletable, huncounted, hfree]) rfl
    · obtain ⟨hcollectable, hobject⟩ := h.removed c hc hold
      exact ⟨hcollectable, fun hmem => hobject ((hobjects _).mp hmem).1⟩

/-- It clears the batch of what no version refers to. -/
theorem Passed.eligibleChunks (h : Passed args store store') (hmode : args.mode = .delete)
    (hkeys : (store.db.chunks.map ChunkRow.chunkHash).Nodup) : (args.collect store').db.eligibleChunks args.cutoff =
      clear (args.chunkLimit store.db) store.db.referenced (store'.db.eligibleChunks args.cutoff) := by
  have hnodup : (store'.db.eligibleChunks args.cutoff).Nodup :=
    hkeys.sublist ((List.filter_sublist.map _).trans (h.rows.map _))
  rw [clear_eq_filter hnodup, ← h.limit, ← h.referenced, collect_eq args hmode]
  generalize withLimit args.batchSize (store'.db.eligibleChunks args.cutoff) = batch
  rw [Db.eligibleChunks, foldl_collectOne_db, Db.eligibleChunks]
  simp only [List.filter_filter, List.filter_map]
  congr 1
  refine List.filter_congr fun c _ => ?_
  rw [Bool.eq_iff_iff]
  by_cases hcount : c.refcount = 0
  · simp [hcount]
    tauto
  · simp [hcount]

/-- **When passes collect every chunk**: fewer chunks than fit in a batch stand before each that can be collected,
among those past the grace period with no reference counted that a version refers to. -/
theorem chunks_collected (now gracePeriodMs : ℕ) (batchSize : Option ℕ) (store : Store)
    (hkeys : (store.db.chunks.map ChunkRow.chunkHash).Nodup) :
    let args : GcArgs := { now, retentionMs := gracePeriodMs, batchSize }
    (∃ k, Collected args.cutoff store (args.collect^[k] store)) ↔
      Open (args.chunkLimit store.db) store.db.referenced (store.db.eligibleChunks args.cutoff) := by
  intro args
  have hpassed : ∀ k, Passed args store (args.collect^[k] store) := by
    intro k
    induction k with
    | zero => exact Passed.start args store
    | succ k ih =>
      rw [Function.iterate_succ_apply']
      exact ih.collect rfl hkeys
  have heligible : ∀ k, (args.collect^[k] store).db.eligibleChunks args.cutoff =
      (clear (args.chunkLimit store.db) store.db.referenced)^[k] (store.db.eligibleChunks args.cutoff) := by
    intro k
    induction k with
    | zero => rfl
    | succ k ih => rw [Function.iterate_succ_apply', (hpassed k).eligibleChunks rfl hkeys, ih, Function.iterate_succ_apply']
  rw [← cleared_iff]
  refine exists_congr fun k => ?_
  rw [← heligible k]
  constructor
  · intro h hash hmem
    obtain ⟨c, hc, helig, rfl⟩ := mem_eligibleChunks.mp hmem
    by_contra hfree
    have hcollectable : store.db.collectable args.cutoff c := by
      simpa [Db.collectable, helig] using hfree
    exact (h.gone c ((hpassed k).rows.subset hc) hcollectable).1 hc
  · intro h
    refine ⟨fun c hc hcollectable => ?_, fun c hc hnot => ?_, (hpassed k).others⟩
    · have hgone : c ∉ (args.collect^[k] store).db.chunks := by
        intro hstays
        have hc' : (c.refcount = 0 ∧ c.createdAt < args.cutoff) ∧ store.db.referenced c.chunkHash = false := by
          simpa [Db.collectable] using hcollectable
        have hreferenced := h c.chunkHash (mem_eligibleChunks.mpr ⟨c, hstays, hc'.1, rfl⟩)
        rw [hc'.2] at hreferenced
        cases hreferenced
      exact ⟨hgone, ((hpassed k).removed c hc hgone).2⟩
    · by_contra hgone
      rw [((hpassed k).removed c hc hgone).1] at hnot
      cases hnot

end Passes

/-- A chunk that a replaced version still refers to, and one that nothing refers to. -/
def replacedVersion : Store where
  db := {
    versionChunks := [{ versionId := "old", nodeId := "n", chunkHash := "a" }]
    chunks := [{ chunkHash := "a", sizeBytes := 1, createdAt := 0 }, { chunkHash := "b", sizeBytes := 1, createdAt := 0 }] }
  objects := [chunkKey "a", chunkKey "b"]

/-- A batch of two has room for both. -/
theorem chunks_collected_two : ∃ k, Collected 5 replacedVersion
    ((GcArgs.collect { now := 10, retentionMs := 5, batchSize := some 2 })^[k] replacedVersion) := by
  refine (chunks_collected 10 5 (some 2) replacedVersion (by decide)).mpr fun before x after heq _ => ?_
  have hlength : 2 = (before ++ x :: after).length := congrArg List.length heq
  have hcount := List.countP_le_length (p := replacedVersion.db.referenced) (l := before)
  show before.countP replacedVersion.db.referenced < 2
  simp only [List.length_append, List.length_cons] at hlength
  omega

/-- In a batch of one the first is selected again and again, and the other never. -/
theorem chunks_withheld : ¬∃ k, Collected 5 replacedVersion
    ((GcArgs.collect { now := 10, retentionMs := 5, batchSize := some 1 })^[k] replacedVersion) := by
  intro h
  obtain ⟨k, hk⟩ := h
  have hfixed : GcArgs.collect { now := 10, retentionMs := 5, batchSize := some 1 } replacedVersion = replacedVersion := rfl
  rw [Function.iterate_fixed hfixed] at hk
  let row : ChunkRow := { chunkHash := "b", sizeBytes := 1, createdAt := 0 }
  have hrow : row ∈ replacedVersion.db.chunks := by decide
  exact (hk.gone row hrow (by decide)).1 hrow

end Valv.Server
