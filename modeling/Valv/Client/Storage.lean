import Mathlib.Algebra.GroupWithZero.Nat
import Valv.Client.Sweep
import Valv.Server.Blobstore

/-!
# Chunk transfers

`upload_chunks` and `download_chunks` of `storage/mod.rs`, the other upload loop of `watch/mod.rs`, and
the submissions behind them.  Chunks that are not in `uploaded_chunks` are offered in one batch; the answer
names a URL for those that the server wants, and nothing for those it has.  Left out are errors of the local
database, the headers of a request and the file of a conflict copy.

* `Depot`: a client's database, and the bucket.
* `Depot.putObjects`: the loop of both uploads.
* `uploadChunks_marks`, `markPending_marks`: which chunks an upload leaves marked.
* `pushed_deletable`: when what was pushed can be deleted.
-/

namespace Valv.Client

open Valv.Table Valv.Server Valv.Files

/-! ### Chunks -/

abbrev Bytes := List UInt8

/-- `Chunk`: the bytes of a chunk, with their hash. -/
structure Chunk where
  hash : String
  offset : ℕ
  length : ℕ
  data : Bytes
  deriving DecidableEq, Repr

/-- A chunk's entry in a manifest. -/
def Chunk.ref (c : Chunk) : ChunkRef := { chunkHash := c.hash, offset := c.offset, length := c.length }

/-- The bytes of a string. -/
def asBytes (s : String) : Bytes := s.toUTF8.data.toList

/-- `manifest_content_hash`; `sha256` is in hexadecimal. -/
def manifestContentHash (sha256 : Bytes → String) (manifest : List ChunkRef) : String :=
  sha256 (manifest.map fun chunk => asBytes chunk.chunkHash).flatten

/-- What a client works on: its database, and the objects of the bucket by their keys, the last one first. -/
structure Depot where
  mirror : Mirror := {}
  objects : List (String × Bytes) := []
  deriving DecidableEq, Repr

/-- What the backend and the bucket answer to the calls of an upload. -/
structure Remote where
  /-- The objects in the answer to a batch, told by its operation and objects; none when the request fails. -/
  batch : String → List BatchObject → Option (List BatchResponseObject)
  /-- Whether a `PUT` fails, told by the objects before it. -/
  refuses : List (String × Bytes) → String → Bool
  /-- The answer to an op. -/
  submit : SubmitOpRequest → SubmitResult

/-! ### Uploads -/

/-- The chunks that are to be uploaded. -/
def Depot.pending (d : Depot) (chunks : List Chunk) : List Chunk := chunks.filter fun c => !d.mirror.isUploaded c.hash

/-- The objects of a batch. -/
def batchObjects (chunks : List Chunk) : List BatchObject := chunks.map fun c => { oid := c.hash, size := c.length }

/-- Where an object is to be stored. -/
def uploadHref (o : BatchResponseObject) : Option String :=
  match o.actions with
  | some (.upload href) => some href
  | _ => none

/-- A `PUT`, and `mark_uploaded` behind it where the loop has it. -/
def Depot.put (d : Depot) (marks : Bool) (href : String) (chunk : Chunk) : Depot where
  mirror := if marks then d.mirror.markUploaded chunk.hash else d.mirror
  objects := (href, chunk.data) :: d.objects

/-- The loop over the objects of an answer; `chunkOf` finds the chunk of an oid. -/
def Depot.putObjects (remote : Remote) (chunkOf : String → Option Chunk) (marks : Bool) :
    List BatchResponseObject → Depot → Depot × Except String Unit
  | [], d => (d, .ok ())
  | o :: objects, d =>
    match o.error with
    | some error => (d, .error ("batch upload error for " ++ o.oid ++ ": " ++ error.2))
    | none =>
      match uploadHref o with
      | none => putObjects remote chunkOf marks objects d
      | some href =>
        match chunkOf o.oid with
        | none => (d, .error ("batch response referenced unknown oid " ++ o.oid))
        | some chunk =>
          if remote.refuses d.objects href then (d, .error ("PUT " ++ href))
          else putObjects remote chunkOf marks objects (d.put marks href chunk)

/-- A batch for chunks, and the loop over its answer. -/
def Depot.offer (remote : Remote) (chunkOf : String → Option Chunk) (marks : Bool) (pending : List Chunk) (d : Depot) :
    Depot × Except String Unit :=
  if pending = [] then (d, .ok ())
  else
    match remote.batch "upload" (batchObjects pending) with
    | none => (d, .error "POST /objects/batch")
    | some objects => d.putObjects remote chunkOf marks objects

/-- `upload_chunks`; its map keeps the last of the chunks with one hash. -/
def Depot.uploadChunks (remote : Remote) (chunks : List Chunk) (d : Depot) : Depot × Except String Unit :=
  let pending := d.pending chunks
  d.offer remote (fun oid => pending.reverse.find? fun c => c.hash = oid) true pending

/-- `upload_pending_chunks`. -/
def Depot.uploadPendingChunks (remote : Remote) (pending : List Chunk) (d : Depot) : Depot × Except String Unit :=
  d.offer remote (fun oid => pending.find? fun c => c.hash = oid) false pending

/-- `mark_uploaded` for every chunk that was pending. -/
def Depot.markPending (pending : List Chunk) (d : Depot) : Depot :=
  { d with mirror := (pending.map Chunk.hash).foldl Mirror.markUploaded d.mirror }

/-! ### New versions -/

/-- The upload of a file: the node, the chunks of the file, its time, and the new uuid. -/
structure FileUpload where
  folderId : String
  nodeId : String
  basedOnSeq : ℕ
  chunks : List Chunk
  mtimeNanos : Option ℕ := none
  versionId : String
  deriving DecidableEq, Repr

def FileUpload.manifest (u : FileUpload) : List ChunkRef := u.chunks.map Chunk.ref

def FileUpload.sizeBytes (u : FileUpload) : ℕ := (u.chunks.map Chunk.length).sum

/-- The op that is submitted. -/
def FileUpload.op (u : FileUpload) (sha256 : Bytes → String) : SubmitOpRequest :=
  .mutate u.nodeId u.basedOnSeq
    (.newVersion u.versionId (manifestContentHash sha256 u.manifest) u.sizeBytes u.manifest)

/-- `apply_submitted_new_version`. -/
def Depot.record (sha256 : Bytes → String) (u : FileUpload) (result : SubmitResult) (d : Depot) : Depot :=
  { d with mirror := result.response.elim d.mirror fun response =>
      d.mirror.applySubmittedNewVersion u.folderId u.nodeId (u.op sha256) response }

/-- `submit_op`, and `apply_submitted_new_version` behind it. -/
def Depot.submitVersion (remote : Remote) (sha256 : Bytes → String) (u : FileUpload) (d : Depot) :
    Depot × Except String SubmitResult :=
  match remote.submit (u.op sha256) with
  | .error _ => (d, .error "submit_op")
  | result => (d.record sha256 u result, .ok result)

/-- `upload_then_submit_new_version`. -/
def Depot.uploadThenSubmitNewVersion (remote : Remote) (sha256 : Bytes → String) (u : FileUpload) (d : Depot) :
    Depot × Except String SubmitResult :=
  match d.uploadChunks remote u.chunks with
  | (d, .error e) => (d, .error e)
  | (d, .ok ()) => d.submitVersion remote sha256 u

/-- The node's current version is the file already. -/
def Depot.isCurrent (sha256 : Bytes → String) (u : FileUpload) (d : Depot) : Bool :=
  (((d.mirror.getNode u.nodeId).bind LocalNode.currentVersionId).bind d.mirror.getVersion).any fun version =>
    version.sizeBytes = u.sizeBytes && version.contentHash = manifestContentHash sha256 u.manifest

/-- `update_pushed_cache`, behind an applied version of a file whose time is known. -/
def Depot.warmApplied (u : FileUpload) (result : SubmitResult) (d : Depot) : Depot :=
  match result, u.mtimeNanos with
  | .applied _ _, some mtimeNanos => { d with mirror := d.mirror.updatePushedCache u.nodeId u.sizeBytes mtimeNanos }
  | _, _ => d

/-- `upload_file_new_version` of the watcher; no value when there is nothing to submit. -/
def Depot.uploadFileNewVersion (remote : Remote) (sha256 : Bytes → String) (u : FileUpload) (d : Depot) :
    Depot × Except String (Option SubmitResult) :=
  if d.isCurrent sha256 u then (d, .ok none)
  else
    let pending := d.pending u.chunks
    match d.uploadPendingChunks remote pending with
    | (d, .error e) => (d, .error e)
    | (d, .ok ()) =>
      match (d.markPending pending).submitVersion remote sha256 u with
      | (d, .error e) => (d, .error e)
      | (d, .ok result) => (d.warmApplied u result, .ok (some result))

/-! ### What an upload marks -/

section Marks

variable {remote : Remote} {chunkOf : String → Option Chunk} {objects : List BatchResponseObject} {d d' : Depot}

/-- The answer names a URL for the hash. -/
def Wanted (objects : List BatchResponseObject) (hash : String) : Prop :=
  ∃ o ∈ objects, o.oid = hash ∧ (uploadHref o).isSome

instance (objects : List BatchResponseObject) (hash : String) : Decidable (Wanted objects hash) :=
  inferInstanceAs (Decidable (∃ o ∈ objects, _))

/-- **One object** of a loop that ends without an error: it names no URL, or its chunk is stored there. -/
theorem putObjects_cons {marks : Bool} {o : BatchResponseObject}
    (hrun : d.putObjects remote chunkOf marks (o :: objects) = (d', .ok ())) :
    ∃ d₁, d₁.putObjects remote chunkOf marks objects = (d', .ok ()) ∧
      (uploadHref o = none ∧ d₁ = d ∨
        ∃ href chunk, uploadHref o = some href ∧ chunkOf o.oid = some chunk ∧ d₁ = d.put marks href chunk) := by
  rw [Depot.putObjects] at hrun
  cases herror : o.error with
  | some error =>
    rw [herror] at hrun
    cases hrun
  | none =>
    rw [herror] at hrun
    cases hhref : uploadHref o with
    | none =>
      rw [hhref] at hrun
      exact ⟨d, hrun, .inl ⟨rfl, rfl⟩⟩
    | some href =>
      rw [hhref] at hrun
      cases hc : chunkOf o.oid with
      | none =>
        rw [hc] at hrun
        cases hrun
      | some chunk =>
        rw [hc] at hrun
        simp only at hrun
        split at hrun
        · cases hrun
        · exact ⟨_, hrun, .inr ⟨href, chunk, rfl, rfl, rfl⟩⟩

/-- A loop that marks, and ends without an error, marks what the answer names a URL for. -/
theorem putObjects_marks (hchunk : ∀ oid c, chunkOf oid = some c → c.hash = oid)
    (hrun : d.putObjects remote chunkOf true objects = (d', .ok ())) (hash : String) :
    hash ∈ d'.mirror.uploadedChunks ↔ hash ∈ d.mirror.uploadedChunks ∨ Wanted objects hash := by
  induction objects generalizing d with
  | nil =>
    cases hrun
    simp [Wanted]
  | cons o objects ih =>
    obtain ⟨d₁, hrest, ⟨hhref, rfl⟩ | ⟨href, chunk, hhref, hc, rfl⟩⟩ := putObjects_cons hrun
    · simp [ih hrest, Wanted, hhref]
    · have hput : hash ∈ (d.put true href chunk).mirror.uploadedChunks ↔
          hash ∈ d.mirror.uploadedChunks ∨ hash = o.oid := by
        show hash ∈ (d.mirror.markUploaded chunk.hash).uploadedChunks ↔ _
        rw [mem_markUploaded, hchunk o.oid chunk hc]
      rw [ih hrest, hput, eq_comm (a := hash)]
      simp [Wanted, hhref, or_assoc]

/-- It finds a chunk for each of these. -/
theorem putObjects_known {marks : Bool} (hrun : d.putObjects remote chunkOf marks objects = (d', .ok ())) {hash : String}
    (hwanted : Wanted objects hash) : ∃ c, chunkOf hash = some c := by
  induction objects generalizing d with
  | nil => simp [Wanted] at hwanted
  | cons o objects ih =>
    obtain ⟨d₁, hrest, hcase⟩ := putObjects_cons hrun
    obtain ⟨o', ho', rfl, hsome⟩ := hwanted
    rcases List.mem_cons.mp ho' with rfl | hmem
    · rcases hcase with ⟨hhref, -⟩ | ⟨href, chunk, -, hc, -⟩
      · simp [hhref] at hsome
      · exact ⟨chunk, hc⟩
    · exact ih hrest ⟨o', hmem, rfl, hsome⟩

/-- A loop that does not mark leaves the database alone. -/
theorem putObjects_mirror (objects : List BatchResponseObject) (d : Depot) :
    (d.putObjects remote chunkOf false objects).1.mirror = d.mirror := by
  induction objects generalizing d with
  | nil => rfl
  | cons o objects ih =>
    rw [Depot.putObjects]
    cases o.error with
    | some error => rfl
    | none =>
      cases uploadHref o with
      | none => exact ih d
      | some href =>
        cases chunkOf o.oid with
        | none => rfl
        | some chunk =>
          simp only
          split
          · rfl
          · exact ih (d.put false href chunk)

/-- The answer to the batch names a URL for the hash. -/
def Depot.wanted (remote : Remote) (chunks : List Chunk) (d : Depot) (hash : String) : Prop :=
  ∃ objects ∈ remote.batch "upload" (batchObjects (d.pending chunks)), Wanted objects hash

theorem pending_eq_nil {chunks : List Chunk} (h : d.pending chunks = []) :
    ∀ c ∈ chunks, c.hash ∈ d.mirror.uploadedChunks := by
  intro c hc
  have hnot := List.filter_eq_nil_iff.mp h c hc
  simpa [Mirror.isUploaded] using hnot

/-- **What `upload_chunks` marks**: the chunks that were stored, and no other. -/
theorem uploadChunks_marks {chunks : List Chunk} (hrun : d.uploadChunks remote chunks = (d', .ok ())) :
    (∀ hash ∈ d'.mirror.uploadedChunks, hash ∈ d.mirror.uploadedChunks ∨ ∃ c ∈ chunks, c.hash = hash) ∧
      ∀ c ∈ chunks, c.hash ∈ d'.mirror.uploadedChunks ↔
        c.hash ∈ d.mirror.uploadedChunks ∨ d.wanted remote chunks c.hash := by
  rw [Depot.uploadChunks, Depot.offer] at hrun
  by_cases hpending : d.pending chunks = []
  · rw [if_pos hpending] at hrun
    cases hrun
    have hall := pending_eq_nil hpending
    exact ⟨fun hash h => .inl h, fun c hc => ⟨.inl, fun _ => hall c hc⟩⟩
  · rw [if_neg hpending] at hrun
    cases hbatch : remote.batch "upload" (batchObjects (d.pending chunks)) with
    | none =>
      rw [hbatch] at hrun
      cases hrun
    | some objects =>
      rw [hbatch] at hrun
      have hfound : ∀ oid c, ((d.pending chunks).reverse.find? fun c => c.hash = oid) = some c →
          c.hash = oid ∧ c ∈ chunks := by
        intro oid c hc
        have hmem := List.mem_reverse.mp (List.mem_of_find?_eq_some hc)
        exact ⟨by simpa using List.find?_some hc, (List.mem_filter.mp hmem).1⟩
      have hmarks := putObjects_marks (fun oid c hc => (hfound oid c hc).1) hrun
      refine ⟨fun hash h => ?_, fun c hc => ?_⟩
      · rcases (hmarks hash).mp h with hold | hwanted
        · exact .inl hold
        · obtain ⟨c, hc⟩ := putObjects_known hrun hwanted
          exact .inr ⟨c, (hfound hash c hc).2, (hfound hash c hc).1⟩
      · rw [hmarks c.hash]
        simp [Depot.wanted, hbatch]

/-- No mark is taken away. -/
theorem uploadChunks_keeps {chunks : List Chunk} (hrun : d.uploadChunks remote chunks = (d', .ok ())) (hash : String)
    (hold : hash ∈ d.mirror.uploadedChunks) : hash ∈ d'.mirror.uploadedChunks := by
  rw [Depot.uploadChunks, Depot.offer] at hrun
  split at hrun
  · cases hrun
    exact hold
  · cases hbatch : remote.batch "upload" (batchObjects (d.pending chunks)) with
    | none =>
      rw [hbatch] at hrun
      cases hrun
    | some objects =>
      rw [hbatch] at hrun
      refine (putObjects_marks (fun oid c hc => ?_) hrun hash).mpr (.inl hold)
      simpa using List.find?_some hc

/-- `upload_pending_chunks` marks nothing. -/
theorem uploadPendingChunks_mirror (remote : Remote) (pending : List Chunk) (d : Depot) :
    (d.uploadPendingChunks remote pending).1.mirror = d.mirror := by
  rw [Depot.uploadPendingChunks, Depot.offer]
  split
  · rfl
  · cases remote.batch "upload" (batchObjects pending) with
    | none => rfl
    | some objects => exact putObjects_mirror objects d

theorem mem_foldl_markUploaded {hash : String} (hashes : List String) (m : Mirror) :
    hash ∈ (hashes.foldl Mirror.markUploaded m).uploadedChunks ↔ hash ∈ m.uploadedChunks ∨ hash ∈ hashes := by
  induction hashes generalizing m with
  | nil => simp
  | cons first hashes ih =>
    rw [List.foldl_cons, ih, mem_markUploaded, List.mem_cons]
    exact or_assoc

/-- **What the watcher marks**: every chunk of the file. -/
theorem markPending_marks (chunks : List Chunk) (hsame : d'.mirror = d.mirror) (hash : String) :
    hash ∈ (d'.markPending (d.pending chunks)).mirror.uploadedChunks ↔
      hash ∈ d.mirror.uploadedChunks ∨ ∃ c ∈ chunks, c.hash = hash := by
  show hash ∈ (((d.pending chunks).map Chunk.hash).foldl Mirror.markUploaded d'.mirror).uploadedChunks ↔ _
  rw [mem_foldl_markUploaded, hsame]
  by_cases hmem : hash ∈ d.mirror.uploadedChunks
  · simp [hmem]
  · simp only [hmem, false_or, List.mem_map, Depot.pending, List.mem_filter]
    constructor
    · intro h
      obtain ⟨c, hc, heq⟩ := h
      exact ⟨c, hc.1, heq⟩
    · intro h
      obtain ⟨c, hc, heq⟩ := h
      refine ⟨c, ⟨hc, ?_⟩, heq⟩
      simpa [Mirror.isUploaded, heq] using hmem

end Marks

/-! ### What can be deleted later -/

section Delete

variable {remote : Remote} {sha256 : Bytes → String} {u : FileUpload} {d d' : Depot}

/-- After an applied version, its content is local when every chunk of it is marked. -/
theorem hasLocalVersion_record {serverSeq : ℕ} {nodeId : String} :
    (d.record sha256 u (.applied serverSeq nodeId)).mirror.hasLocalVersion u.versionId ↔
      ∀ c ∈ u.chunks, c.hash ∈ d.mirror.uploadedChunks := by
  let row : LocalVersion :=
    ⟨u.versionId, u.nodeId, u.folderId, manifestContentHash sha256 u.manifest, u.sizeBytes, u.manifest, false⟩
  have hmirror : (d.record sha256 u (.applied serverSeq nodeId)).mirror =
      (d.mirror.upsertVersion row).recordVersion u.nodeId u.versionId serverSeq false := rfl
  have hversions : ((d.mirror.upsertVersion row).recordVersion u.nodeId u.versionId serverSeq false).getVersion
      u.versionId = (d.mirror.upsertVersion row).getVersion row.versionId := rfl
  have hfound : ∃ version, (d.mirror.upsertVersion row).getVersion row.versionId = some version ∧
      version.manifest = u.manifest := by
    have hrow : (d.mirror.upsertVersion row).getVersion row.versionId = some (((d.mirror.getVersion row.versionId).map
        fun old => { row with contentMaterialized := old.contentMaterialized }).getD row) :=
      lookup_upsert_self fun _ _ => rfl
    refine ⟨_, hrow, ?_⟩
    cases d.mirror.getVersion row.versionId <;> rfl
  obtain ⟨version, hversion, hmanifest⟩ := hfound
  rw [hmirror, Mirror.hasLocalVersion, hversions, hversion, Option.any_some, hmanifest]
  simp only [FileUpload.manifest, List.all_map, List.all_eq_true]
  show (∀ c ∈ u.chunks, decide (c.hash ∈ d.mirror.uploadedChunks) = true) ↔ _
  simp

/-- An answer that is recorded marks nothing. -/
theorem record_uploadedChunks (result : SubmitResult) (d : Depot) :
    (d.record sha256 u result).mirror.uploadedChunks = d.mirror.uploadedChunks := by
  cases result <;> rfl

/-- The version is local, and a later pass that ends without an error deletes its node: one whose walk leaves the
version and the marks, whose sweep comes to the node, and that finds nothing at its path. -/
structure Depot.Deletable (u : FileUpload) (d : Depot) : Prop where
  content : d.mirror.hasLocalVersion u.versionId
  deleted : ∀ (env : PushEnv) (disk : Disk FileData),
    (env.pushed d.mirror disk).2 = .ok () →
    (env.walked d.mirror disk).mirror.getVersion u.versionId = d.mirror.getVersion u.versionId →
    (∀ hash ∈ d.mirror.uploadedChunks, hash ∈ (env.walked d.mirror disk).mirror.uploadedChunks) →
    ∀ k v, ((env.walked d.mirror disk).visits env)[k]? = some v → v.node.nodeType = .file →
      v.node.currentVersionId = some u.versionId →
      (env.fails ((env.walked d.mirror disk).calls + k) || !env.finds (env.walked d.mirror disk).disk v.path) →
      v.delete ∈ (env.pushed d.mirror disk).1.deletes

/-- Where the version is local, its node can be deleted. -/
theorem deletable_iff : d.Deletable u ↔ d.mirror.hasLocalVersion u.versionId := by
  refine ⟨fun h => h.content, fun hlocal => ⟨hlocal, ?_⟩⟩
  intro env disk hok hversion hmarks k v hv htype hcurrent hgone
  obtain ⟨-, done, -, hdeletes, hall⟩ := pushed_deletes env d.mirror disk
  rw [hdeletes, hall hok]
  refine List.mem_map_of_mem (mem_condemned.mpr ⟨k, hv, ?_⟩)
  have hstill : (env.walked d.mirror disk).mirror.hasLocalVersion u.versionId = true := by
    rw [Mirror.hasLocalVersion] at hlocal ⊢
    rw [hversion]
    cases hfound : d.mirror.getVersion u.versionId with
    | none => simp [hfound] at hlocal
    | some version =>
      rw [hfound, Option.any_some, List.all_eq_true] at hlocal
      rw [Option.any_some, List.all_eq_true]
      intro chunk hchunk
      have hmarked := hlocal chunk hchunk
      rw [Mirror.isUploaded, decide_eq_true_eq] at hmarked ⊢
      exact hmarks _ hmarked
  rw [Pass.condemns, hgone, shouldDelete, htype]
  simp [hcurrent, hstill]

/-- The batch asks for every chunk that the client has not marked: the server has none of them yet, so none is
answered as being there already. -/
def Depot.AllWanted (remote : Remote) (u : FileUpload) (d : Depot) : Prop :=
  ∀ c ∈ u.chunks, c.hash ∈ d.mirror.uploadedChunks ∨ d.wanted remote u.chunks c.hash

variable {d₁ d₂ : Depot} {serverSeq : ℕ} {nodeId : String}

theorem submitVersion_applied
    (h : d.submitVersion remote sha256 u = (d', .ok (.applied serverSeq nodeId))) :
    d' = d.record sha256 u (.applied serverSeq nodeId) := by
  rw [Depot.submitVersion] at h
  cases hsubmit : remote.submit (u.op sha256) with
  | error e =>
    rw [hsubmit] at h
    cases h
  | applied serverSeq' nodeId' =>
    rw [hsubmit] at h
    cases h
    rfl
  | conflictCopy serverSeq' nodeId' conflictVersionId =>
    rw [hsubmit] at h
    cases h
  | superseded currentSeq =>
    rw [hsubmit] at h
    cases h
  | conflict =>
    rw [hsubmit] at h
    cases h

/-- What an applied version leaves behind `upload_chunks`. -/
theorem uploadThenSubmit_applied
    (h : d.uploadThenSubmitNewVersion remote sha256 u = (d₁, .ok (.applied serverSeq nodeId))) :
    ∃ d', d.uploadChunks remote u.chunks = (d', .ok ()) ∧ d₁ = d'.record sha256 u (.applied serverSeq nodeId) := by
  rw [Depot.uploadThenSubmitNewVersion] at h
  rcases hrun : d.uploadChunks remote u.chunks with ⟨d', error | ok⟩
  · rw [hrun] at h
    cases h
  · rw [hrun] at h
    exact ⟨d', rfl, submitVersion_applied h⟩

/-- What an applied version leaves behind the watcher's upload. -/
theorem uploadFile_applied
    (h : d.uploadFileNewVersion remote sha256 u = (d₂, .ok (some (.applied serverSeq nodeId)))) :
    ∃ d' : Depot, d'.mirror = d.mirror ∧
      d₂ = ((d'.markPending (d.pending u.chunks)).record sha256 u (.applied serverSeq nodeId)).warmApplied u
        (.applied serverSeq nodeId) := by
  rw [Depot.uploadFileNewVersion] at h
  split at h
  · cases h
  · have hmirror := uploadPendingChunks_mirror remote (d.pending u.chunks) d
    rcases hrun : d.uploadPendingChunks remote (d.pending u.chunks) with ⟨d', error | ok⟩
    · simp only [hrun] at h
      cases h
    · rw [hrun] at hmirror
      simp only [hrun] at h
      rcases hsubmit : (d'.markPending (d.pending u.chunks)).submitVersion remote sha256 u with ⟨d₃, error | result⟩
      · simp only [hsubmit] at h
        cases h
      · simp only [hsubmit] at h
        cases h
        exact ⟨d', hmirror, by rw [submitVersion_applied hsubmit]⟩

/-- The chunks that are marked once a version is applied. -/
theorem warmApplied_uploadedChunks (d : Depot) :
    (d.warmApplied u (.applied serverSeq nodeId)).mirror.uploadedChunks = d.mirror.uploadedChunks := by
  cases htime : u.mtimeNanos with
  | none => simp only [Depot.warmApplied, htime]
  | some mtimeNanos =>
    simp only [Depot.warmApplied, htime]
    rfl

theorem warmApplied_hasLocalVersion (d : Depot) :
    (d.warmApplied u (.applied serverSeq nodeId)).mirror.hasLocalVersion u.versionId =
      d.mirror.hasLocalVersion u.versionId := by
  cases htime : u.mtimeNanos with
  | none => simp only [Depot.warmApplied, htime]
  | some mtimeNanos =>
    simp only [Depot.warmApplied, htime]
    rfl

/-- **What was pushed can be deleted** behind `upload_chunks`, and both uploads mark the same chunks, exactly when the
server wanted every chunk that was not marked; behind the watcher's upload it always can. -/
theorem pushed_deletable (remote : Remote) (sha256 : Bytes → String) (u : FileUpload) (d : Depot) :
    (∀ d₁ seq n, d.uploadThenSubmitNewVersion remote sha256 u = (d₁, .ok (.applied seq n)) →
      (d₁.Deletable u ↔ d.AllWanted remote u)) ∧
    (∀ d₂ seq n, d.uploadFileNewVersion remote sha256 u = (d₂, .ok (some (.applied seq n))) → d₂.Deletable u) ∧
    ∀ d₁ d₂ seq n, d.uploadThenSubmitNewVersion remote sha256 u = (d₁, .ok (.applied seq n)) →
      d.uploadFileNewVersion remote sha256 u = (d₂, .ok (some (.applied seq n))) →
      ((∀ hash, hash ∈ d₁.mirror.uploadedChunks ↔ hash ∈ d₂.mirror.uploadedChunks) ↔ d.AllWanted remote u) := by
  refine ⟨fun d₁ seq n h => ?_, fun d₂ seq n h => ?_, fun d₁ d₂ seq n h₁ h₂ => ?_⟩
  · obtain ⟨d', hrun, rfl⟩ := uploadThenSubmit_applied h
    rw [deletable_iff, hasLocalVersion_record, Depot.AllWanted]
    exact forall₂_congr (uploadChunks_marks hrun).2
  · obtain ⟨d', hsame, rfl⟩ := uploadFile_applied h
    rw [deletable_iff, warmApplied_hasLocalVersion, hasLocalVersion_record]
    exact fun c hc => (markPending_marks u.chunks hsame c.hash).mpr (.inr ⟨c, hc, rfl⟩)
  · obtain ⟨d', hrun, rfl⟩ := uploadThenSubmit_applied h₁
    obtain ⟨d'', hsame, rfl⟩ := uploadFile_applied h₂
    obtain ⟨hfrom, hmarks⟩ := uploadChunks_marks hrun
    have hall := markPending_marks u.chunks hsame
    simp only [warmApplied_uploadedChunks, record_uploadedChunks]
    constructor
    · intro h c hc
      have hmarked := (h c.hash).mpr ((hall c.hash).mpr (.inr ⟨c, hc, rfl⟩))
      exact (hmarks c hc).mp hmarked
    · intro h hash
      rw [hall hash]
      constructor
      · exact hfrom hash
      · rintro (hold | ⟨c, hc, rfl⟩)
        · exact uploadChunks_keeps hrun hash hold
        · exact (hmarks c hc).mpr (h c hc)

end Delete

/-- A backend with these tables that applies every op. -/
def backendOf (s : Db) : Remote where
  batch operation objects := ((handleBatch { principal := .device "a", operation, objects }).exec s none).2.toOption
  refuses _ _ := false
  submit _ := .applied 3 "file"

/-- A new file with one chunk. -/
def newFile : FileUpload where
  folderId := "folder"
  nodeId := "file"
  basedOnSeq := 2
  chunks := [{ hash := "c", offset := 0, length := 1, data := [0] }]
  versionId := "v"

/-- The mirror with the file's node. -/
def newDepot : Depot where
  mirror := { oneFile with versions := [] }

theorem pushed_deletable_new : let d₁ := (newDepot.uploadThenSubmitNewVersion (backendOf {}) (fun _ => "hash") newFile).1
    let d₂ := (newDepot.uploadFileNewVersion (backendOf {}) (fun _ => "hash") newFile).1
    d₁.Deletable newFile ∧ d₂.Deletable newFile ∧
      ∀ hash, hash ∈ d₁.mirror.uploadedChunks ↔ hash ∈ d₂.mirror.uploadedChunks := by
  have hwanted : newDepot.AllWanted (backendOf {}) newFile := by
    intro c hc
    rw [List.mem_singleton.mp hc]
    exact .inr ⟨_, rfl, by decide +kernel⟩
  obtain ⟨hpush, hwatch, hsame⟩ := pushed_deletable (backendOf {}) (fun _ => "hash") newFile newDepot
  exact ⟨(hpush _ 3 "file" (by decide +kernel)).mpr hwanted, hwatch _ 3 "file" (by decide +kernel),
    (hsame _ _ 3 "file" (by decide +kernel) (by decide +kernel)).mpr hwanted⟩

/-- A server that has the chunk already. -/
def seenBefore : Db where
  chunks := [{ chunkHash := "c", sizeBytes := 1, refcount := 1, createdAt := 0 }]

/-- **A file that cannot be deleted**: its chunk was there already, so it is not marked; once the file is removed the
next pass ends without an error and leaves its node alone.  The watcher's upload marks the chunk. -/
theorem pushed_kept : let remote := backendOf seenBefore
    let run := newDepot.uploadThenSubmitNewVersion remote (fun _ => "hash") newFile
    let watched := newDepot.uploadFileNewVersion remote (fun _ => "hash") newFile
    let next := calmDevice.pushed run.1.mirror { entries := [([], .dir)] }
    run.2 = .ok (.applied 3 "file") ∧ ¬run.1.Deletable newFile ∧ next.2 = .ok () ∧ next.1.deletes = [] ∧
      watched.2 = .ok (some (.applied 3 "file")) ∧ run.1.mirror.uploadedChunks ≠ watched.1.mirror.uploadedChunks := by
  refine ⟨by decide +kernel, fun h => ?_, by decide +kernel, by decide +kernel, by decide +kernel, by decide +kernel⟩
  exact absurd h.content (by decide +kernel)

end Valv.Client
