import Valv.Lib.Batch
import Valv.Server.Refs

/-!
# Purging tombstones, batch after batch

A pass of `runTombstonePurgeOnce` deletes the first tombstones past retention in one statement, which fails as
a whole when a row that stays refers to one of them.  Then the next pass selects the same tombstones again.

* `Db.Held`: a tombstone that has to stay.
* `purgeViolation_dropNodes`: batches that go one after the other are a batch that goes at once.
* `tombstones_purged`: what passes remove.
-/

namespace Valv.Server

open Valv.Conc Valv.Table Valv.Batch

/-! ### References -/

/-- The node's row refers to the other, as its parent or by its current version. -/
def Db.nodeRefers (s : Db) (r : NodeRow) (nodeId : String) : Prop :=
  r.parentId = some nodeId ∨ ∃ v ∈ s.versions, r.currentVersionId = some v.versionId ∧ v.nodeId = nodeId

/-- A tombstone that has to stay: a row that is not purged refers to it, or one of a node that has to stay.  A
chunk's reference goes with the version it belongs to. -/
inductive Db.Held (s : Db) (cutoff : ℕ) : String → Prop
  | grant {g : FolderGrantRow} (hg : g ∈ s.folderGrants) : s.Held cutoff g.scopeNodeId
  | invite {i : FolderInviteRow} (hi : i ∈ s.folderInvites) : s.Held cutoff i.scopeNodeId
  | node {r : NodeRow} {nodeId : String} (hr : r ∈ s.nodes) (href : s.nodeRefers r nodeId)
      (hstays : r.nodeId ∉ s.eligibleNodes cutoff) : s.Held cutoff nodeId
  | descendant {r : NodeRow} {nodeId : String} (hr : r ∈ s.nodes) (href : s.nodeRefers r nodeId)
      (hheld : s.Held cutoff r.nodeId) : s.Held cutoff nodeId
  | chunk {r : VersionChunkRow} (hr : r ∈ s.versionChunks)
      (hstays : ∀ v ∈ s.versions, v.versionId = r.versionId → v.nodeId ∉ s.eligibleNodes cutoff) :
      s.Held cutoff r.nodeId
  | chunkOf {r : VersionChunkRow} {v : VersionRow} (hr : r ∈ s.versionChunks) (hv : v ∈ s.versions)
      (hid : v.versionId = r.versionId) (hheld : s.Held cutoff v.nodeId) : s.Held cutoff r.nodeId

/-- The nodes can be removed: no row that stays refers to one of them, and the grants and invites on them are gone.
-/
structure Db.Removable (s : Db) (ids : List String) : Prop where
  nodes : ∀ r ∈ s.nodes, r.nodeId ∉ ids → ∀ nodeId ∈ ids, ¬s.nodeRefers r nodeId
  chunks : ∀ r ∈ s.versionChunks, r.nodeId ∈ ids → ∃ v ∈ s.versions, v.versionId = r.versionId ∧ v.nodeId ∈ ids
  grants : ∀ g ∈ s.folderGrants, g.scopeNodeId ∉ ids
  invites : ∀ i ∈ s.folderInvites, i.scopeNodeId ∉ ids

section Removable

variable {s : Db} {ids first later : List String}

/-- What the statement checks. -/
theorem removable_iff : s.Removable ids ↔ s.purgeViolation ids = none := by
  let e : ApiError := .constraint .foreignKey
  have hchecks : ∀ a b c d : Bool, (if a then some e else if b then some e else if c then some e
      else if d then some e else none) = none ↔ a = false ∧ b = false ∧ c = false ∧ d = false := by
    intro a b c d
    cases a <;> cases b <;> cases c <;> cases d <;> simp
  have hgone : ∀ versionId : String, versionId ∈ (s.versions.filter fun v => v.nodeId ∈ ids).map VersionRow.versionId ↔
      ∃ v ∈ s.versions, v.versionId = versionId ∧ v.nodeId ∈ ids := by
    intro versionId
    simp only [List.mem_map, List.mem_filter, decide_eq_true_eq]
    grind
  rw [Db.purgeViolation, hchecks]
  simp only [List.any_eq_false, hgone, Bool.and_eq_true, Bool.or_eq_true, Option.any_eq_true, decide_eq_true_eq]
  constructor
  · intro h
    refine ⟨fun r hr => ?_, fun r hr => ?_, h.grants, h.invites⟩
    · intro hviolates
      obtain ⟨hstays, hparent | hcurrent⟩ := hviolates
      · obtain ⟨p, hp, hmem⟩ := hparent
        exact h.nodes r hr hstays p hmem (.inl hp)
      · obtain ⟨versionId, hcurrent, v, hv, rfl, hmem⟩ := hcurrent
        exact h.nodes r hr hstays v.nodeId hmem (.inr ⟨v, hv, hcurrent, rfl⟩)
    · intro hviolates
      exact hviolates.1 (h.chunks r hr hviolates.2)
  · intro h
    obtain ⟨hnodes, hchunks, hgrants, hinvites⟩ := h
    refine ⟨fun r hr hstays nodeId hmem href => ?_, fun r hr hmem => ?_, hgrants, hinvites⟩
    · rcases href with hp | ⟨v, hv, hcurrent, rfl⟩
      · exact hnodes r hr ⟨hstays, .inl ⟨nodeId, hp, hmem⟩⟩
      · exact hnodes r hr ⟨hstays, .inr ⟨v.versionId, hcurrent, v, hv, rfl, hmem⟩⟩
    · by_contra hno
      exact hchunks r hr ⟨hno, hmem⟩

theorem Db.Removable.nil : s.Removable [] where
  nodes _ _ _ _ h := absurd h List.not_mem_nil
  chunks _ _ h := absurd h List.not_mem_nil
  grants _ _ := List.not_mem_nil
  invites _ _ := List.not_mem_nil

/-- **Two batches**: when the first goes, the second goes behind it just when both would go at once. -/
theorem removable_dropNodes (h : s.Removable first) :
    (s.dropNodes first).Removable later ↔ s.Removable (first ++ later) := by
  constructor
  · intro h'
    refine ⟨fun r hr hstays nodeId hmem href => ?_, fun r hr hmem => ?_, fun g hg => ?_, fun i hi => ?_⟩
    · rw [List.mem_append, not_or] at hstays
      have hfirst : nodeId ∉ first := fun hf => h.nodes r hr hstays.1 nodeId hf href
      have hlater : nodeId ∈ later := (List.mem_append.mp hmem).resolve_left hfirst
      refine h'.nodes r (mem_dropNodes_nodes.mpr ⟨hr, hstays.1⟩) hstays.2 nodeId hlater ?_
      rcases href with hp | ⟨v, hv, hcurrent, rfl⟩
      · exact .inl hp
      · exact .inr ⟨v, mem_dropNodes_versions.mpr ⟨hv, hfirst⟩, hcurrent, rfl⟩
    · by_cases hgone : ∃ v ∈ s.versions, v.versionId = r.versionId ∧ v.nodeId ∈ first
      · obtain ⟨v, hv, hid, hnode⟩ := hgone
        exact ⟨v, hv, hid, List.mem_append_left _ hnode⟩
      · have hnot : r.nodeId ∉ first := fun hf => hgone (h.chunks r hr hf)
        have hkept : r ∈ (s.dropNodes first).versionChunks :=
          mem_dropNodes_versionChunks.mpr ⟨hr, fun v hv hid hnode => hgone ⟨v, hv, hid, hnode⟩⟩
        obtain ⟨v, hv, hid, hnode⟩ := h'.chunks r hkept ((List.mem_append.mp hmem).resolve_left hnot)
        exact ⟨v, (mem_dropNodes_versions.mp hv).1, hid, List.mem_append_right _ hnode⟩
    · simp [h.grants g hg, h'.grants g hg]
    · simp [h.invites i hi, h'.invites i hi]
  · intro h'
    refine ⟨fun r hr hstays nodeId hmem href => ?_, fun r hr hmem => ?_, fun g hg => ?_, fun i hi => ?_⟩
    · obtain ⟨hold, hfirst⟩ := mem_dropNodes_nodes.mp hr
      refine h'.nodes r hold (by simp [hfirst, hstays]) nodeId (List.mem_append_right _ hmem) ?_
      rcases href with hp | ⟨v, hv, hcurrent, rfl⟩
      · exact .inl hp
      · exact .inr ⟨v, (mem_dropNodes_versions.mp hv).1, hcurrent, rfl⟩
    · obtain ⟨hold, hkept⟩ := mem_dropNodes_versionChunks.mp hr
      obtain ⟨v, hv, hid, hnode⟩ := h'.chunks r hold (List.mem_append_right _ hmem)
      have hnot : v.nodeId ∉ first := hkept v hv hid
      exact ⟨v, mem_dropNodes_versions.mpr ⟨hv, hnot⟩, hid, (List.mem_append.mp hnode).resolve_left hnot⟩
    · exact fun hmem => h'.grants g hg (List.mem_append_right _ hmem)
    · exact fun hmem => h'.invites i hi (List.mem_append_right _ hmem)

theorem dropNodes_append : (s.dropNodes first).dropNodes later = s.dropNodes (first ++ later) := by
  have hchunks : ((s.dropNodes first).dropNodes later).versionChunks = (s.dropNodes (first ++ later)).versionChunks := by
    simp only [Db.dropNodes, List.filter_filter]
    refine List.filter_congr fun r _ => ?_
    rw [Bool.eq_iff_iff]
    simp only [Bool.and_eq_true, decide_eq_true_eq, List.mem_map, List.mem_filter, List.mem_append]
    grind
  have hrest : ∀ a b : Db, { a with versionChunks := b.versionChunks } = b → a.versionChunks = b.versionChunks → a = b :=
    fun a b heq hc => by rw [← heq, ← hc]
  refine hrest _ _ ?_ hchunks
  simp [Db.dropNodes, List.filter_filter, Bool.and_comm]

theorem eligibleNodes_dropNodes (cutoff : ℕ) :
    (s.dropNodes ids).eligibleNodes cutoff = (s.eligibleNodes cutoff).filter (· ∉ ids) := by
  simp only [Db.eligibleNodes, Db.dropNodes, List.filter_map, List.filter_filter]
  congr 1
  refine List.filter_congr fun r _ => ?_
  simp [Bool.and_comm]

/-- A tombstone does not have to stay just when it is one of some that can go at once. -/
theorem not_held_iff {cutoff : ℕ} {nodeId : String} (hversions : (s.versions.map VersionRow.versionId).Nodup)
    (hmem : nodeId ∈ s.eligibleNodes cutoff) :
    ¬s.Held cutoff nodeId ↔ ∃ ids, nodeId ∈ ids ∧ (∀ n ∈ ids, n ∈ s.eligibleNodes cutoff) ∧ s.Removable ids := by
  classical
  constructor
  · intro hfree
    let ids := (s.eligibleNodes cutoff).filter fun n => ¬s.Held cutoff n
    have hids : ∀ n, n ∈ ids ↔ n ∈ s.eligibleNodes cutoff ∧ ¬s.Held cutoff n := by simp [ids]
    refine ⟨ids, (hids nodeId).mpr ⟨hmem, hfree⟩, fun n hn => ((hids n).mp hn).1, ?_⟩
    refine ⟨fun r hr hstays n hn href => ?_, fun r hr hn => ?_, fun g hg hn => ?_, fun i hi hn => ?_⟩
    · by_cases hr' : r.nodeId ∈ s.eligibleNodes cutoff
      · have hheld : s.Held cutoff r.nodeId := by
          by_contra hnot
          exact hstays ((hids _).mpr ⟨hr', hnot⟩)
        exact ((hids n).mp hn).2 (.descendant hr href hheld)
      · exact ((hids n).mp hn).2 (.node hr href hr')
    · by_contra hno
      refine ((hids _).mp hn).2 (.chunk hr fun v hv hid hv' => ?_)
      have hheld : s.Held cutoff v.nodeId := by
        by_contra hnot
        exact hno ⟨v, hv, hid, (hids _).mpr ⟨hv', hnot⟩⟩
      exact ((hids _).mp hn).2 (.chunkOf hr hv hid hheld)
    · exact ((hids _).mp hn).2 (.grant hg)
    · exact ((hids _).mp hn).2 (.invite hi)
  · intro h
    obtain ⟨ids, hn, hids, hremovable⟩ := h
    intro hheld
    -- no way of having to stay starts from one of these
    induction hheld with
    | grant hg => exact hremovable.grants _ hg hn
    | invite hi => exact hremovable.invites _ hi hn
    | @node r _ hr href hstays =>
      by_cases hr' : r.nodeId ∈ ids
      · exact hstays (hids _ hr')
      · exact hremovable.nodes r hr hr' _ hn href
    | @descendant r _ hr href _ ih =>
      by_cases hr' : r.nodeId ∈ ids
      · exact ih (hids _ hr') hr'
      · exact hremovable.nodes r hr hr' _ hn href
    | chunk hr hstays =>
      obtain ⟨v, hv, hid, hv'⟩ := hremovable.chunks _ hr hn
      exact hstays v hv hid (hids _ hv')
    | chunkOf hr hv hid _ ih =>
      obtain ⟨v, hv', hid', hn'⟩ := hremovable.chunks _ hr hn
      have hsame := List.inj_on_of_nodup_map hversions hv' hv (hid'.trans hid.symm)
      rw [hsame] at hn'
      exact ih (hids _ hn') hn'

end Removable

/-! ### One pass -/

/-- A pass that nothing interleaves with. -/
def GcArgs.purge (args : GcArgs) (s : Db) : Db := ((runTombstonePurgeOnce args).exec s none).1

section Pass

variable {s : Db} {ids : List String}

theorem eligibleNodes_sublist (cutoff : ℕ) : (s.eligibleNodes cutoff).Sublist (s.nodes.map NodeRow.nodeId) :=
  List.filter_sublist.map _

theorem length_dropNodes (hkeys : (s.nodes.map NodeRow.nodeId).Nodup) (hids : ids.Sublist (s.nodes.map NodeRow.nodeId)) :
    ids.length + (s.dropNodes ids).nodes.length = s.nodes.length := by
  have hremoved : ((s.nodes.map NodeRow.nodeId).filter (· ∈ ids)).Perm ids := by
    refine (List.perm_ext_iff_of_nodup (hkeys.filter _) (hkeys.sublist hids)).mpr fun nodeId => ?_
    simp only [List.mem_filter, decide_eq_true_eq, and_iff_right_iff_imp]
    exact fun hmem => hids.subset hmem
  have hlength := hremoved.length_eq
  rw [List.filter_map, List.length_map] at hlength
  have hsplit := List.length_eq_length_filter_add (l := s.nodes) fun r => r.nodeId ∈ ids
  have hkept : s.nodes.filter (fun r => !decide (r.nodeId ∈ ids)) = (s.dropNodes ids).nodes := by
    simp [Db.dropNodes]
  rw [hkept] at hsplit
  rw [hsplit, ← hlength]
  rfl

/-- The run of a pass that deletes, told from what it selects. -/
theorem exec_purge (args : GcArgs) (hmode : args.mode = .delete) (s : Db) :
    let eligible := s.eligibleNodes args.cutoff
    let ids := withLimit args.batchSize eligible
    let result : GcPassResult := { eligibleCount := ids.length, totalEligibleCount := eligible.length }
    (runTombstonePurgeOnce args).exec s none = if ids = [] then (s, .ok result)
      else if (s.deleteViolation ids).isNone then (s.dropNodes ids, .ok { result with deletedCount := ids.length })
      else (s, .ok { result with errorCount := 1 }) := by
  intro eligible ids result
  have hdirect : (runTombstonePurgeOnce args).Unbracketed := by
    rw [runTombstonePurgeOnce_eq]
    exact unbracketed_runIdBatchPass _ _ args fun _ => .stmt _ _
  rw [Proc.exec_eq_runBody hdirect, runTombstonePurgeOnce, Proc.runBody_bind_of_ok (Proc.runBody_read _ s)]
  show Proc.runBody (if args.mode = .audit || ids = [] then pure result else purgeNodes ids result) s = _
  by_cases hids : ids = []
  · rw [if_pos hids, if_pos (by simp [hids])]
    rfl
  · rw [if_neg hids, if_neg (by simp [hids, hmode]), purgeNodes, Proc.runBody_attempt, Proc.runBody_bind, deleteNodes,
      Proc.runBody_stmt]
    cases s.deleteViolation ids with
    | none => rfl
    | some e => rfl

theorem purge_eq (args : GcArgs) (s : Db) : args.purge s = s.dropNodes (args.purged s) := exec_runTombstonePurgeOnce args s

/-- **What a pass counts** is what it removes. -/
theorem purge_counts (args : GcArgs) (hmode : args.mode = .delete) (hkeys : (s.nodes.map NodeRow.nodeId).Nodup) :
    ∃ result, ((runTombstonePurgeOnce args).exec s none).2 = .ok result ∧
      result.deletedCount + (args.purge s).nodes.length = s.nodes.length := by
  rw [GcArgs.purge, exec_purge args hmode s]
  split
  · exact ⟨_, rfl, Nat.zero_add _⟩
  · split
    · have hids := (withLimit_sublist args.batchSize (s.eligibleNodes args.cutoff)).trans (eligibleNodes_sublist args.cutoff)
      exact ⟨_, rfl, length_dropNodes hkeys hids⟩
    · exact ⟨_, rfl, Nat.zero_add _⟩

end Pass

/-! ### Pass after pass -/

section Passes

variable (args : GcArgs) (s : Db)

/-- The size of a batch. -/
def GcArgs.limit : ℕ := args.batchSize.getD (s.eligibleNodes args.cutoff).length

/-- The database when the first `j` batches are gone. -/
def GcArgs.stage (j : ℕ) : Db := s.dropNodes ((s.eligibleNodes args.cutoff).take (j * args.limit s))

variable {args s}

theorem stage_zero : args.stage s 0 = s := by simp [GcArgs.stage, dropNodes_nil]

theorem eligibleNodes_stage (hkeys : (s.nodes.map NodeRow.nodeId).Nodup) (j : ℕ) :
    (args.stage s j).eligibleNodes args.cutoff = (s.eligibleNodes args.cutoff).drop (j * args.limit s) := by
  rw [GcArgs.stage, eligibleNodes_dropNodes]
  have hclear : clear (j * args.limit s) (fun _ => false) (s.eligibleNodes args.cutoff) = _ :=
    clear_eq_filter (hkeys.sublist (eligibleNodes_sublist args.cutoff))
  simpa [clear] using hclear.symm

/-- What the pass selects. -/
theorem selected_stage (hkeys : (s.nodes.map NodeRow.nodeId).Nodup) (j : ℕ) :
    withLimit args.batchSize ((args.stage s j).eligibleNodes args.cutoff) =
      ((s.eligibleNodes args.cutoff).drop (j * args.limit s)).take (args.limit s) := by
  rw [eligibleNodes_stage hkeys, GcArgs.limit]
  cases args.batchSize with
  | none =>
    show List.drop _ _ = _
    rw [List.take_of_length_le]
    simp
  | some n => rfl

/-- The pass that comes to the `j`-th batch removes it, when its statement is accepted. -/
theorem purge_stage (hmode : args.mode = .delete) (hkeys : (s.nodes.map NodeRow.nodeId).Nodup) (j : ℕ) :
    args.purge (args.stage s j) = if ((args.stage s j).deleteViolation
      (((s.eligibleNodes args.cutoff).drop (j * args.limit s)).take (args.limit s))).isNone
      then args.stage s (j + 1) else args.stage s j := by
  rw [purge_eq, GcArgs.purged, hmode]
  simp only [selected_stage hkeys]
  split
  · rw [GcArgs.stage, dropNodes_append, GcArgs.stage, Nat.succ_mul, List.take_add]
  · rw [dropNodes_nil]

/-- The first batches go one after the other when no row that stays refers to them. -/
theorem batches_removable (k : ℕ) : (∀ j < k, (args.stage s j).purgeViolation
      (((s.eligibleNodes args.cutoff).drop (j * args.limit s)).take (args.limit s)) = none) ↔
    ∀ j ≤ k, s.purgeViolation ((s.eligibleNodes args.cutoff).take (j * args.limit s)) = none := by
  induction k with
  | zero =>
    simp only [Nat.not_lt_zero, Nat.le_zero, forall_eq, Nat.zero_mul, List.take_zero]
    exact iff_of_true (fun _ h => absurd h not_false) (removable_iff.mp .nil)
  | succ k ih =>
    have hsucc : ∀ P : ℕ → Prop, (∀ j ≤ k + 1, P j) ↔ (∀ j ≤ k, P j) ∧ P (k + 1) := by
      intro P
      constructor
      · exact fun h => ⟨fun j hj => h j (by omega), h (k + 1) (Nat.le_refl _)⟩
      · intro h j hj
        rcases Nat.lt_or_eq_of_le hj with hlt | rfl
        · exact h.1 j (by omega)
        · exact h.2
    rw [hsucc, Nat.forall_lt_succ_right, ih]
    refine and_congr_right fun h => ?_
    rw [← removable_iff, ← removable_iff, GcArgs.stage, removable_dropNodes (removable_iff.mpr (h k (Nat.le_refl k))),
      Nat.succ_mul, List.take_add]

/-- The later batches are no longer than the first, so that one of them all fits into a statement when the first does. -/
theorem batches_fit (k : ℕ) : (∀ j < k, (args.stage s j).overLimit
      (((s.eligibleNodes args.cutoff).drop (j * args.limit s)).take (args.limit s)).length = none) ↔
    (0 < k → (withLimit args.batchSize (s.eligibleNodes args.cutoff)).length ≤ s.maxParams) := by
  have hfits : ∀ j, (args.stage s j).overLimit
      (((s.eligibleNodes args.cutoff).drop (j * args.limit s)).take (args.limit s)).length = none ↔
      min (args.limit s) ((s.eligibleNodes args.cutoff).length - j * args.limit s) ≤ s.maxParams := by
    intro j
    rw [Db.overLimit, List.length_take, List.length_drop]
    show (if s.maxParams < _ then some ApiError.tooManyParams else none) = none ↔ _
    by_cases hover : s.maxParams < min (args.limit s) ((s.eligibleNodes args.cutoff).length - j * args.limit s)
    · simp only [if_pos hover, reduceCtorEq, false_iff]
      omega
    · simp only [if_neg hover, true_iff]
      omega
  have hfirst : (withLimit args.batchSize (s.eligibleNodes args.cutoff)).length =
      min (args.limit s) (s.eligibleNodes args.cutoff).length := by
    rw [GcArgs.limit]
    cases args.batchSize with
    | none => exact (Nat.min_self _).symm
    | some n => exact List.length_take
  simp only [hfits, hfirst]
  constructor
  · intro h hpos
    simpa using h 0 hpos
  · intro h j hj
    exact le_trans (by omega) (h (by omega))

/-- **What passes remove**: each counts what it removes.  They remove every tombstone past retention that does
not have to stay when, for some number of first batches, these are among them, a batch has no more ids than a
statement has parameters, and no row outside of the first `j` batches refers to one of these, for any `j` up to that
number; and only then. -/
theorem tombstones_purged (now retentionMs : ℕ) (batchSize : Option ℕ) (s : Db)
    (hkeys : (s.nodes.map NodeRow.nodeId).Nodup) :
    let args : GcArgs := { now, retentionMs, batchSize }
    let eligible := s.eligibleNodes args.cutoff
    (∀ k, ∃ result, ((runTombstonePurgeOnce args).exec (args.purge^[k] s) none).2 = .ok result ∧
      result.deletedCount + (args.purge^[k + 1] s).nodes.length = (args.purge^[k] s).nodes.length) ∧
    ((∃ k, ∀ nodeId ∈ eligible, ¬s.Held args.cutoff nodeId → (args.purge^[k] s).node nodeId = none) ↔
      ∃ k, (∀ j ≤ k, s.purgeViolation (eligible.take (j * args.limit s)) = none) ∧
        (0 < k → (withLimit batchSize eligible).length ≤ s.maxParams) ∧
        ∀ nodeId ∈ eligible, ¬s.Held args.cutoff nodeId → nodeId ∈ eligible.take (k * args.limit s)) := by
  intro args eligible
  have hnodes : ∀ k, ((args.purge^[k] s).nodes.map NodeRow.nodeId).Nodup := by
    intro k
    induction k with
    | zero => exact hkeys
    | succ k ih =>
      rw [Function.iterate_succ_apply', purge_eq]
      exact ih.sublist (List.filter_sublist.map _)
  refine ⟨fun k => ?_, ?_⟩
  · rw [Function.iterate_succ_apply']
    exact purge_counts args rfl (hnodes k)
  · let fine (j : ℕ) : Prop := (args.stage s j).deleteViolation
      ((eligible.drop (j * args.limit s)).take (args.limit s)) = none
    have hgo : ∀ j, fine j → args.purge (args.stage s j) = args.stage s (j + 1) := by
      intro j hj
      rw [purge_stage rfl hkeys j, if_pos]
      exact Option.isNone_iff_eq_none.mpr hj
    have hstuck : ∀ j, ¬fine j → args.purge (args.stage s j) = args.stage s j := by
      intro j hj
      rw [purge_stage rfl hkeys j, if_neg]
      exact fun hnone => hj (Option.isNone_iff_eq_none.mp hnone)
    have hgone : ∀ k, ∀ nodeId ∈ eligible, (args.stage s k).node nodeId = none ↔
        nodeId ∈ eligible.take (k * args.limit s) := by
      intro k nodeId hmem
      obtain ⟨r, hr, rfl⟩ := List.mem_map.mp hmem
      rw [Db.node, lookup_eq_none]
      constructor
      · intro hnone
        by_contra hnot
        exact hnone r (mem_dropNodes_nodes.mpr ⟨(List.mem_filter.mp hr).1, hnot⟩) rfl
      · intro htake r' hr' heq
        rw [← heq] at htake
        exact (mem_dropNodes_nodes.mp hr').2 htake
    have hreach := reaches_iff (P := fun t => ∀ nodeId ∈ eligible, ¬s.Held args.cutoff nodeId → t.node nodeId = none)
      hgo hstuck
    rw [stage_zero] at hreach
    rw [hreach]
    refine exists_congr fun k => ?_
    have hparts : (∀ j < k, fine j) ↔ (∀ j < k, (args.stage s j).purgeViolation
          ((eligible.drop (j * args.limit s)).take (args.limit s)) = none) ∧
        ∀ j < k, (args.stage s j).overLimit ((eligible.drop (j * args.limit s)).take (args.limit s)).length = none := by
      simp only [fine, Db.deleteViolation, Option.or_eq_none_iff]
      exact ⟨fun h => ⟨fun j hj => (h j hj).2, fun j hj => (h j hj).1⟩, fun h j hj => ⟨h.2 j hj, h.1 j hj⟩⟩
    rw [hparts, and_assoc]
    refine and_congr (batches_removable k) (and_congr (batches_fit k) ?_)
    exact forall₂_congr fun nodeId hmem => imp_congr_right fun _ => hgone k nodeId hmem

end Passes

/-- A folder with a folder in it, both deleted, and a grant for a third one that is deleted. -/
def tombstones (scopes : List String) : Db where
  nodes := [
    { nodeId := "root", folderId := "f", parentId := none, name := "", type := .folder },
    { nodeId := "granted", folderId := "f", parentId := some "root", name := "g", type := .folder, deletedAt := some 1 },
    { nodeId := "dir", folderId := "f", parentId := some "root", name := "d", type := .folder, deletedAt := some 1 },
    { nodeId := "sub", folderId := "f", parentId := some "dir", name := "s", type := .folder, deletedAt := some 1 }]
  folderGrants := scopes.map fun scope =>
    { grantId := "grant", folderId := "f", scopeNodeId := scope, userId := some "u", deviceId := none,
      canRead := true, canWrite := true }

theorem tombstones_free (scopes : List String) (h : (tombstones scopes).purgeViolation ["dir", "sub"] = none) {nodeId : String}
    (hmem : nodeId ∈ ["dir", "sub"]) : ¬(tombstones scopes).Held 5 nodeId := by
  have hversions : ((tombstones scopes).versions.map VersionRow.versionId).Nodup := List.nodup_nil
  have heligible : ∀ n ∈ ["dir", "sub"], n ∈ (tombstones scopes).eligibleNodes 5 := by
    show ∀ n ∈ ["dir", "sub"], n ∈ ["granted", "dir", "sub"]
    decide
  exact (not_held_iff hversions (heligible nodeId hmem)).mpr ⟨_, hmem, heligible, removable_iff.mpr h⟩

/-- One pass removes the three when no grant is left and they are in one batch. -/
theorem tombstones_purged_all : ∃ k, ∀ nodeId ∈ (tombstones []).eligibleNodes 5, ¬(tombstones []).Held 5 nodeId →
    ((GcArgs.purge { now := 10, retentionMs := 5, batchSize := some 3 })^[k] (tombstones [])).node nodeId = none := by
  refine (tombstones_purged 10 5 (some 3) (tombstones []) (by decide)).2.mpr ⟨1, by decide, fun _ => by decide, fun nodeId hmem _ => ?_⟩
  -- the batch holds them all
  show nodeId ∈ ["granted", "dir", "sub"].take 3
  exact hmem

/-- **Tombstones that are never removed**, although nothing refers to them but each other: the batch ends between
a folder and the one in it, or another tombstone in the batch has a grant. -/
theorem tombstones_stuck :
    (∀ k, (((GcArgs.purge { now := 10, retentionMs := 5, batchSize := some 2 })^[k] (tombstones [])).node "dir").isSome) ∧
    ¬(tombstones []).Held 5 "dir" ∧
    (∀ k, (((GcArgs.purge { now := 10, retentionMs := 5 })^[k] (tombstones ["granted"])).node "dir").isSome) ∧
    ¬(tombstones ["granted"]).Held 5 "dir" := by
  refine ⟨fun k => ?_, tombstones_free [] (by decide) (by decide), fun k => ?_,
    tombstones_free ["granted"] (by decide) (by decide)⟩
  · rw [Function.iterate_fixed (show GcArgs.purge _ (tombstones []) = tombstones [] from rfl)]
    rfl
  · rw [Function.iterate_fixed (show GcArgs.purge _ (tombstones ["granted"]) = tombstones ["granted"] from rfl)]
    rfl

end Valv.Server
