import Valv.Client.Storage
import Valv.Lib.Tiling

/-!
# The content of a file

`chunk_file` cuts a file and names each chunk by its hash; `download_verified_version` of `valvd/src/tasks.rs`
puts the chunks of a manifest together again.  FastCDC and SHA-256 are parameters.

* `Codec.chunkFile`, `Depot.uploadChunks`: the way out.
* `downloadChunks`, `downloadVerifiedVersion`: the way back.
* `Faithful`: what the way back needs of the store.
* `content_round_trip`: what was uploaded is downloaded, and what a download of any manifest is.
-/

namespace Valv.Client

open Valv.Table Valv.Server Valv.Tiling

/-! ### Out -/

/-- What the client computes with bytes: the cuts of FastCDC, as offsets and lengths, and SHA-256 in hexadecimal.
Both are code from outside of the repository. -/
structure Codec where
  cuts : Bytes → List (ℕ × ℕ)
  sha256 : Bytes → String

/-- The chunk at an offset. -/
def Codec.chunk (codec : Codec) (source : Bytes) (offset length : ℕ) : Chunk where
  hash := codec.sha256 (Tiling.segment source offset length)
  offset := offset
  length := length
  data := Tiling.segment source offset length

/-- `chunk_file`, on the bytes that were read. -/
def Codec.chunkFile (codec : Codec) (data : Bytes) : List Chunk :=
  if data = [] then [] else (codec.cuts data).map fun s => codec.chunk data s.1 s.2

/-! ### Back -/

/-- `RemoteVersion`. -/
structure RemoteVersion where
  versionId : String
  contentHash : String
  sizeBytes : ℕ
  manifest : List ChunkRef
  deriving DecidableEq, Repr

/-- Where an object is. -/
def downloadHref (o : BatchResponseObject) : Option String :=
  match o.actions with
  | some (.download href) => some href
  | _ => none

/-- The body of the loop of `download_chunks`; its map keeps the last of the objects with one oid. -/
def fetchChunk (sha256 : Bytes → String) (get : String → Option Bytes) (objects : List BatchResponseObject)
    (chunk : ChunkRef) : Except String Bytes :=
  match objects.reverse.find? fun o => o.oid = chunk.chunkHash with
  | none => .error ("batch response missing oid " ++ chunk.chunkHash)
  | some o =>
    match o.error with
    | some error => .error ("batch download error for " ++ o.oid ++ ": " ++ error.2)
    | none =>
      match downloadHref o with
      | none => .error ("batch response missing download action for " ++ o.oid)
      | some href =>
        match get href with
        | none => .error ("GET " ++ href)
        | some bytes =>
          if sha256 bytes = chunk.chunkHash then .ok bytes
          else .error ("chunk hash mismatch for " ++ o.oid ++ ": expected " ++ chunk.chunkHash ++ ", got " ++
            sha256 bytes)

/-- The loop of `download_chunks`. -/
def fetchChunks (sha256 : Bytes → String) (get : String → Option Bytes) (objects : List BatchResponseObject) :
    List ChunkRef → Except String Bytes
  | [] => .ok []
  | chunk :: refs => do
    let bytes ← fetchChunk sha256 get objects chunk
    let rest ← fetchChunks sha256 get objects refs
    .ok (bytes ++ rest)

/-- The entries by their offsets. -/
def byOffset (manifest : List ChunkRef) : List ChunkRef := manifest.insertionSort fun a b => a.offset ≤ b.offset

/-- The objects of the batch. -/
def refObjects (refs : List ChunkRef) : List BatchObject := refs.map fun c => { oid := c.chunkHash, size := c.length }

/-- `download_chunks`; `get` is what the bucket has. -/
def downloadChunks (remote : Remote) (sha256 : Bytes → String) (get : String → Option Bytes)
    (manifest : List ChunkRef) : Except String Bytes :=
  match remote.batch "download" (refObjects (byOffset manifest)) with
  | none => .error "POST /objects/batch"
  | some objects => fetchChunks sha256 get objects (byOffset manifest)

/-- `fetch_remote_version`, from the versions that the backend lists. -/
def fetchRemoteVersion (versions : List RemoteVersion) (nodeId versionId : String) : Except String RemoteVersion :=
  (versions.find? fun v => v.versionId = versionId).elim
    (.error ("version " ++ versionId ++ " not found for node " ++ nodeId)) .ok

/-- `download_verified_version`. -/
def downloadVerifiedVersion (remote : Remote) (sha256 : Bytes → String) (get : String → Option Bytes)
    (versions : List RemoteVersion) (nodeId versionId : String) : Except String (RemoteVersion × Bytes) := do
  let version ← fetchRemoteVersion versions nodeId versionId
  let bytes ← downloadChunks remote sha256 get version.manifest
  let actualHash := manifestContentHash sha256 version.manifest
  if actualHash ≠ version.contentHash then
    .error ("content hash mismatch for version " ++ version.versionId ++ ": expected " ++ version.contentHash ++
      ", got " ++ actualHash)
  else if bytes.length ≠ version.sizeBytes then
    .error ("content size mismatch for version " ++ version.versionId ++ ": expected " ++
      toString version.sizeBytes ++ ", got " ++ toString bytes.length)
  else .ok (version, bytes)

/-! ### What a download is -/

section Download

variable {remote : Remote} {sha256 : Bytes → String} {get : String → Option Bytes}

/-- A chunk that is fetched is an object with its hash. -/
theorem fetchChunk_ok {objects : List BatchResponseObject} {chunk : ChunkRef} {bytes : Bytes}
    (h : fetchChunk sha256 get objects chunk = .ok bytes) :
    sha256 bytes = chunk.chunkHash ∧ ∃ href, get href = some bytes := by
  rw [fetchChunk] at h
  cases hobject : objects.reverse.find? fun o => o.oid = chunk.chunkHash with
  | none =>
    rw [hobject] at h
    cases h
  | some o =>
    rw [hobject] at h
    simp only at h
    cases herror : o.error with
    | some error =>
      rw [herror] at h
      cases h
    | none =>
      rw [herror] at h
      simp only at h
      cases hhref : downloadHref o with
      | none =>
        rw [hhref] at h
        cases h
      | some href =>
        rw [hhref] at h
        simp only at h
        cases hget : get href with
        | none =>
          rw [hget] at h
          cases h
        | some found =>
          rw [hget] at h
          simp only at h
          split at h
          · next hhash =>
            cases h
            exact ⟨hhash, href, hget⟩
          · cases h

/-- The chunks that are fetched are objects with their hashes, put together in order. -/
theorem fetchChunks_ok {objects : List BatchResponseObject} {refs : List ChunkRef} {bytes : Bytes}
    (h : fetchChunks sha256 get objects refs = .ok bytes) :
    ∃ pieces : List Bytes, bytes = pieces.flatten ∧
      List.Forall₂ (fun chunk piece => sha256 piece = chunk.chunkHash ∧ ∃ href, get href = some piece) refs pieces := by
  induction refs generalizing bytes with
  | nil =>
    cases h
    exact ⟨[], rfl, .nil⟩
  | cons chunk refs ih =>
    rw [fetchChunks] at h
    cases hfirst : fetchChunk sha256 get objects chunk with
    | error e =>
      rw [hfirst] at h
      cases h
    | ok first =>
      rw [hfirst] at h
      cases hrest : fetchChunks sha256 get objects refs with
      | error e =>
        rw [hrest] at h
        cases h
      | ok rest =>
        rw [hrest] at h
        cases h
        obtain ⟨pieces, rfl, hpieces⟩ := ih hrest
        exact ⟨first :: pieces, rfl, .cons (fetchChunk_ok hfirst) hpieces⟩

/-- **A download that succeeds** passed all of its checks. -/
theorem downloadVerifiedVersion_ok {versions : List RemoteVersion} {nodeId versionId : String}
    {version : RemoteVersion} {bytes : Bytes}
    (h : downloadVerifiedVersion remote sha256 get versions nodeId versionId = .ok (version, bytes)) :
    downloadChunks remote sha256 get version.manifest = .ok bytes ∧
      manifestContentHash sha256 version.manifest = version.contentHash ∧ bytes.length = version.sizeBytes := by
  rw [downloadVerifiedVersion] at h
  cases hversion : fetchRemoteVersion versions nodeId versionId with
  | error e =>
    rw [hversion] at h
    cases h
  | ok found =>
    rw [hversion] at h
    simp only [bind, Except.bind] at h
    cases hbytes : downloadChunks remote sha256 get found.manifest with
    | error e =>
      rw [hbytes] at h
      cases h
    | ok got =>
      rw [hbytes] at h
      simp only at h
      split at h
      · cases h
      · split at h
        · cases h
        · next hhash hsize =>
          cases h
          exact ⟨hbytes, not_not.mp hhash, not_not.mp hsize⟩

end Download

/-! ### What the way back needs of the store -/

/-- The last object with a key. -/
def Depot.object (d : Depot) (key : String) : Option Bytes := (d.objects.find? fun e => e.1 = key).map Prod.snd

/-- The bucket has an object under the key of the hash. -/
def Depot.has (d : Depot) (hash : String) : Prop := (d.object (chunkKey hash)).isSome

/-- The answer to a batch of uploads: each chunk is wanted under its own key, or is there. -/
structure UploadAnswer (d : Depot) (pending : List Chunk) (objects : List BatchResponseObject) : Prop where
  clean : ∀ o ∈ objects, o.error = none
  keys : ∀ o ∈ objects, ∀ href ∈ uploadHref o, href = chunkKey o.oid
  asked : ∀ o ∈ objects, ∃ c ∈ pending, c.hash = o.oid
  rest : ∀ c ∈ pending, Wanted objects c.hash ∨ d.has c.hash

/-- The answer to a batch of downloads: each chunk is under its own key. -/
structure DownloadAnswer (refs : List ChunkRef) (objects : List BatchResponseObject) : Prop where
  found : ∀ c ∈ refs, ∃ o ∈ objects, o.oid = c.chunkHash
  keys : ∀ c ∈ refs, ∀ o ∈ objects, o.oid = c.chunkHash → o.error = none ∧ downloadHref o = some (chunkKey c.chunkHash)

/-- The bytes that are considered: the chunks of the data, and what is in the bucket. -/
def Considered (codec : Codec) (d : Depot) (data : Bytes) : Set Bytes :=
  {bytes | (∃ c ∈ codec.chunkFile data, c.data = bytes) ∨ ∃ key, (key, bytes) ∈ d.objects}

/-- FastCDC cuts into slices that follow one another, SHA-256 tells the bytes that are considered apart, and
the store returns what was stored under each hash. -/
structure Faithful (codec : Codec) (remote : Remote) (d : Depot) (data : Bytes) : Prop where
  tiles : data ≠ [] → Tiles 0 (codec.cuts data) data.length
  pos : ∀ s ∈ codec.cuts data, 0 < s.2
  injective : Set.InjOn codec.sha256 (Considered codec d data)
  named : ∀ hash bytes, d.object (chunkKey hash) = some bytes → codec.sha256 bytes = hash
  marked : ∀ hash ∈ d.mirror.uploadedChunks, d.has hash
  accepts : ∀ objects key, remote.refuses objects key = false
  uploads : d.pending (codec.chunkFile data) ≠ [] →
    ∃ objects, remote.batch "upload" (batchObjects (d.pending (codec.chunkFile data))) = some objects ∧
      UploadAnswer d (d.pending (codec.chunkFile data)) objects
  downloads : ∀ refs, (∀ r ∈ refs, r ∈ (codec.chunkFile data).map Chunk.ref) →
    ∃ objects, remote.batch "download" (refObjects refs) = some objects ∧ DownloadAnswer refs objects

/-- The bucket is in order: each object has the hash that its key says, and belongs to the byte strings that the
hash is taken to tell apart. -/
structure Stocked (sha256 : Bytes → String) (considered : Set Bytes) (d : Depot) : Prop where
  named : ∀ hash bytes, d.object (chunkKey hash) = some bytes → sha256 bytes = hash
  known : ∀ key bytes, (key, bytes) ∈ d.objects → bytes ∈ considered

section Upload

variable {sha256 : Bytes → String} {considered : Set Bytes} {d : Depot} {remote : Remote}
  {chunkOf : String → Option Chunk}

theorem chunkKey_injective : Function.Injective chunkKey := fun _ _ h => (String.append_right_inj "chunks/").mp h

theorem object_put (marks : Bool) (href key : String) (chunk : Chunk) :
    (d.put marks href chunk).object key = if href = key then some chunk.data else d.object key := by
  show (((href, chunk.data) :: d.objects).find? fun e => e.1 = key).map Prod.snd = _
  by_cases hkey : href = key
  · simp [hkey]
  · simp [hkey, Depot.object]

/-- One `PUT` of a chunk under its own key. -/
theorem Stocked.put (h : Stocked sha256 considered d) (marks : Bool) {chunk : Chunk} (hhash : sha256 chunk.data = chunk.hash)
    (hknown : chunk.data ∈ considered) : Stocked sha256 considered (d.put marks (chunkKey chunk.hash) chunk) where
  named hash bytes hbytes := by
    rw [object_put] at hbytes
    split at hbytes
    · next hkey =>
      cases hbytes
      rw [hhash]
      exact chunkKey_injective hkey
    · exact h.named hash bytes hbytes
  known key bytes hmem := by
    rcases List.mem_cons.mp hmem with heq | hold
    · cases heq
      exact hknown
    · exact h.known key bytes hold

theorem has_put (marks : Bool) {chunk : Chunk} {hash : String} (h : hash = chunk.hash ∨ d.has hash) :
    (d.put marks (chunkKey chunk.hash) chunk).has hash := by
  rw [Depot.has, object_put]
  split
  · rfl
  · next hkey =>
    rcases h with rfl | hold
    · exact absurd rfl hkey
    · exact hold

/-- **The loop of an upload** ends, and stores every chunk that the answer names a URL for. -/
theorem putObjects_stocks (marks : Bool) {objects : List BatchResponseObject} (h : Stocked sha256 considered d)
    (haccepts : ∀ objects key, remote.refuses objects key = false)
    (hclean : ∀ o ∈ objects, o.error = none) (hkeys : ∀ o ∈ objects, ∀ href ∈ uploadHref o, href = chunkKey o.oid)
    (hchunk : ∀ o ∈ objects, ∃ c, chunkOf o.oid = some c ∧ c.hash = o.oid ∧ sha256 c.data = c.hash ∧
      c.data ∈ considered) :
    ∃ d', d.putObjects remote chunkOf marks objects = (d', .ok ()) ∧ Stocked sha256 considered d' ∧
      ∀ hash, Wanted objects hash ∨ d.has hash → d'.has hash := by
  induction objects generalizing d with
  | nil => exact ⟨d, rfl, h, fun hash hhash => by simpa [Wanted] using hhash⟩
  | cons o objects ih =>
    have hrest : ∀ {d₁ : Depot}, Stocked sha256 considered d₁ → _ := fun {d₁} h₁ => ih (d := d₁) h₁
      (fun o ho => hclean o (List.mem_cons_of_mem _ ho)) (fun o ho => hkeys o (List.mem_cons_of_mem _ ho))
      (fun o ho => hchunk o (List.mem_cons_of_mem _ ho))
    have herror := hclean o List.mem_cons_self
    rw [Depot.putObjects, herror]
    cases hhref : uploadHref o with
    | none =>
      obtain ⟨d', hrun, hstocked, hhas⟩ := hrest h
      refine ⟨d', hrun, hstocked, fun hash hhash => hhas hash ?_⟩
      simpa [Wanted, hhref] using hhash
    | some href =>
      obtain ⟨chunk, hc, hoid, hhash, hknown⟩ := hchunk o List.mem_cons_self
      have hkey : href = chunkKey chunk.hash := by
        rw [hoid]
        exact hkeys o List.mem_cons_self href hhref
      obtain ⟨d', hrun, hstocked, hhas⟩ := hrest (h.put marks hhash hknown)
      refine ⟨d', ?_, hstocked, fun hash hwanted => hhas hash ?_⟩
      · simp only [hc, haccepts, hkey]
        exact hrun
      · rcases hwanted with ⟨o', ho', rfl, hsome⟩ | hold
        · rcases List.mem_cons.mp ho' with rfl | hmem
          · exact .inr (has_put marks (.inl hoid.symm))
          · exact .inl ⟨o', hmem, rfl, hsome⟩
        · exact .inr (has_put marks (.inr hold))

end Upload

/-! ### There and back -/

section RoundTrip

variable {codec : Codec} {remote : Remote} {d : Depot} {data : Bytes}

theorem mem_chunkFile {c : Chunk} (h : c ∈ codec.chunkFile data) :
    codec.sha256 c.data = c.hash ∧ c.data ∈ Considered codec d data := by
  have hmem := h
  rw [Codec.chunkFile] at h
  split at h
  · exact absurd h List.not_mem_nil
  · obtain ⟨s, -, rfl⟩ := List.mem_map.mp h
    exact ⟨rfl, .inl ⟨_, hmem, rfl⟩⟩

/-- A chunk is found by its hash. -/
theorem find?_of_mem {chunks : List Chunk} {c : Chunk} (hc : c ∈ chunks) :
    ∃ c', (chunks.find? fun c' => c'.hash = c.hash) = some c' := by
  rw [← Option.isSome_iff_exists, List.find?_isSome]
  exact ⟨c, hc, by simp⟩

/-- **The way out** succeeds, and leaves every chunk of the data in the bucket. -/
theorem Faithful.offer (h : Faithful codec remote d data) (chunkOf : String → Option Chunk) (marks : Bool)
    (hchunk : ∀ c ∈ d.pending (codec.chunkFile data), ∃ c' ∈ d.pending (codec.chunkFile data),
      chunkOf c.hash = some c' ∧ c'.hash = c.hash) :
    ∃ d', d.offer remote chunkOf marks (d.pending (codec.chunkFile data)) = (d', .ok ()) ∧
      Stocked codec.sha256 (Considered codec d data) d' ∧ ∀ c ∈ codec.chunkFile data, d'.has c.hash := by
  have hstart : Stocked codec.sha256 (Considered codec d data) d :=
    ⟨h.named, fun key bytes hmem => .inr ⟨key, hmem⟩⟩
  rw [Depot.offer]
  by_cases hpending : d.pending (codec.chunkFile data) = []
  · rw [if_pos hpending]
    exact ⟨d, rfl, hstart, fun c hc => h.marked c.hash (pending_eq_nil hpending c hc)⟩
  · rw [if_neg hpending]
    obtain ⟨objects, hbatch, hanswer⟩ := h.uploads hpending
    rw [hbatch]
    have hobjects : ∀ o ∈ objects, ∃ c, chunkOf o.oid = some c ∧ c.hash = o.oid ∧ codec.sha256 c.data = c.hash ∧
        c.data ∈ Considered codec d data := by
      intro o ho
      obtain ⟨c, hc, hoid⟩ := hanswer.asked o ho
      obtain ⟨c', hc', hfound, hhash⟩ := hchunk c hc
      have hdata := mem_chunkFile (d := d) (List.mem_filter.mp hc').1
      rw [hoid] at hfound hhash
      exact ⟨c', hfound, hhash, hdata⟩
    obtain ⟨d', hrun, hstocked, hhas⟩ :=
      putObjects_stocks marks hstart h.accepts hanswer.clean hanswer.keys hobjects
    refine ⟨d', hrun, hstocked, fun c hc => hhas c.hash ?_⟩
    by_cases hmarked : c.hash ∈ d.mirror.uploadedChunks
    · exact .inr (h.marked c.hash hmarked)
    · exact hanswer.rest c (List.mem_filter.mpr ⟨hc, by simp [Mirror.isUploaded, hmarked]⟩)

/-- One chunk of the data is fetched as it was cut. -/
theorem fetchChunk_stocked {d' : Depot} {c : Chunk} {refs : List ChunkRef} {objects : List BatchResponseObject}
    (hinj : Set.InjOn codec.sha256 (Considered codec d data))
    (hstocked : Stocked codec.sha256 (Considered codec d data) d') (hhas : d'.has c.hash)
    (hanswer : DownloadAnswer refs objects) (hc : c ∈ codec.chunkFile data) (href : c.ref ∈ refs) :
    fetchChunk codec.sha256 d'.object objects c.ref = .ok c.data := by
  obtain ⟨hhash, hknown⟩ := mem_chunkFile (d := d) hc
  obtain ⟨bytes, hbytes⟩ := Option.isSome_iff_exists.mp hhas
  have hname : codec.sha256 bytes = c.hash := hstocked.named c.hash bytes hbytes
  have hmem : bytes ∈ Considered codec d data := by
    rw [Depot.object, Option.map_eq_some_iff] at hbytes
    obtain ⟨e, he, rfl⟩ := hbytes
    exact hstocked.known e.1 e.2 (List.mem_of_find?_eq_some he)
  have hsame : bytes = c.data := hinj hmem hknown (hname.trans hhash.symm)
  have hfound : ∃ o, objects.reverse.find? (fun o => o.oid = c.ref.chunkHash) = some o := by
    obtain ⟨o, ho, hoid⟩ := hanswer.found c.ref href
    rw [← Option.isSome_iff_exists, List.find?_isSome]
    exact ⟨o, List.mem_reverse.mpr ho, by simpa using hoid⟩
  obtain ⟨o, ho⟩ := hfound
  have hoid : o.oid = c.ref.chunkHash := by simpa using List.find?_some ho
  obtain ⟨herror, hwhere⟩ :=
    hanswer.keys c.ref href o (List.mem_reverse.mp (List.mem_of_find?_eq_some ho)) hoid
  have hget : d'.object (chunkKey c.ref.chunkHash) = some bytes := hbytes
  rw [fetchChunk, ho]
  simp only [herror, hwhere, hget]
  rw [if_pos (show codec.sha256 bytes = c.ref.chunkHash from hname), hsame]

/-- **The loop of a download** finds the chunks of the data in their order. -/
theorem fetchChunks_stocked {d' : Depot} {refs : List ChunkRef} {objects : List BatchResponseObject}
    (hinj : Set.InjOn codec.sha256 (Considered codec d data))
    (hstocked : Stocked codec.sha256 (Considered codec d data) d') (hanswer : DownloadAnswer refs objects)
    (chunks : List Chunk) (hchunks : ∀ c ∈ chunks, c ∈ codec.chunkFile data ∧ d'.has c.hash ∧ c.ref ∈ refs) :
    fetchChunks codec.sha256 d'.object objects (chunks.map Chunk.ref) = .ok (chunks.map Chunk.data).flatten := by
  induction chunks with
  | nil => rfl
  | cons c chunks ih =>
    obtain ⟨hc, hhas, href⟩ := hchunks c List.mem_cons_self
    have hfirst := fetchChunk_stocked hinj hstocked hhas hanswer hc href
    have hrest := ih fun c hc => hchunks c (List.mem_cons_of_mem _ hc)
    rw [List.map_cons, fetchChunks, hfirst, hrest]
    rfl

/-- What FastCDC cuts, put together, is the data. -/
theorem Faithful.flatten (h : Faithful codec remote d data) : ((codec.chunkFile data).map Chunk.data).flatten = data := by
  rw [Codec.chunkFile]
  split
  · next hempty => simp [hempty]
  · next hdata =>
    have hflat := (h.tiles hdata).flatten data
    rw [List.map_map]
    show ((codec.cuts data).map fun s => Tiling.segment data s.1 s.2).flatten = data
    rw [hflat]
    simp [Tiling.segment]

/-- The lengths in the manifest add up to the size of the data. -/
theorem Faithful.size (h : Faithful codec remote d data) :
    ((codec.chunkFile data).map Chunk.length).sum = data.length := by
  rw [Codec.chunkFile]
  split
  · next hempty => simp [hempty]
  · next hdata =>
    have hsum := (h.tiles hdata).sum_lengths
    rw [List.map_map]
    show ((codec.cuts data).map Prod.snd).sum = data.length
    omega

/-- The manifest's own order is found back from any order of its entries. -/
theorem Faithful.byOffset (h : Faithful codec remote d data) {manifest : List ChunkRef}
    (hperm : manifest.Perm ((codec.chunkFile data).map Chunk.ref)) :
    Client.byOffset manifest = (codec.chunkFile data).map Chunk.ref := by
  refine insertionSort_eq_of_perm hperm ?_
  rw [Codec.chunkFile]
  split
  · exact List.Pairwise.nil
  · next hdata =>
    rw [List.map_map, List.pairwise_map]
    exact (h.tiles hdata).pairwise h.pos

/-- The version that the chunks of the data were submitted as, its manifest in any order with the same hash. -/
structure SubmittedAs (codec : Codec) (data : Bytes) (version : RemoteVersion) : Prop where
  entries : version.manifest.Perm ((codec.chunkFile data).map Chunk.ref)
  contentHash : version.contentHash = manifestContentHash codec.sha256 ((codec.chunkFile data).map Chunk.ref)
  sameHash : manifestContentHash codec.sha256 version.manifest = version.contentHash
  sizeBytes : version.sizeBytes = ((codec.chunkFile data).map Chunk.length).sum

/-- **The way back**: where every chunk is in the bucket, the data is downloaded. -/
theorem Faithful.back (h : Faithful codec remote d data) {d' : Depot}
    (hstocked : Stocked codec.sha256 (Considered codec d data) d') (hhas : ∀ c ∈ codec.chunkFile data, d'.has c.hash)
    {versions : List RemoteVersion} {nodeId versionId : String} {version : RemoteVersion}
    (hlisted : versions.find? (fun v => v.versionId = versionId) = some version)
    (hsubmitted : SubmittedAs codec data version) :
    downloadVerifiedVersion remote codec.sha256 d'.object versions nodeId versionId = .ok (version, data) := by
  have horder := h.byOffset hsubmitted.entries
  obtain ⟨objects, hbatch, hanswer⟩ := h.downloads _ fun r hr => hr
  have hdownload : downloadChunks remote codec.sha256 d'.object version.manifest = .ok data := by
    have hfetch := fetchChunks_stocked h.injective hstocked hanswer (codec.chunkFile data)
      fun c hc => ⟨hc, hhas c hc, List.mem_map_of_mem hc⟩
    rw [h.flatten] at hfetch
    rw [downloadChunks, horder, hbatch]
    exact hfetch
  have hsize : data.length = version.sizeBytes := by rw [hsubmitted.sizeBytes, h.size]
  have hfetched : fetchRemoteVersion versions nodeId versionId = .ok version := by rw [fetchRemoteVersion, hlisted]; rfl
  rw [downloadVerifiedVersion, hfetched]
  simp only [bind, Except.bind]
  rw [hdownload]
  simp [hsubmitted.sameHash, hsize]

/-- A manifest entry fits the bytes: they have, at the offset of the entry, as many bytes as its length, and these
have its hash. -/
def Placed (sha256 : Bytes → String) (bytes : Bytes) (c : ChunkRef) : Prop :=
  c.offset + c.length ≤ bytes.length ∧ sha256 (Tiling.segment bytes c.offset c.length) = c.chunkHash

/-- The entries follow one another from the start, each as long as what the bucket has for its hash. -/
structure Contiguous (sha256 : Bytes → String) (get : String → Option Bytes) (manifest : List ChunkRef) : Prop where
  tiles : ∃ stop, Tiles 0 ((byOffset manifest).map fun c => (c.offset, c.length)) stop
  lengths : ∀ c ∈ manifest, ∀ href bytes, get href = some bytes → sha256 bytes = c.chunkHash → bytes.length = c.length

/-- What a download puts together, by the offsets of the entries. -/
theorem downloadChunks_ok {sha256 : Bytes → String} {get : String → Option Bytes} {manifest : List ChunkRef}
    {bytes : Bytes} (h : downloadChunks remote sha256 get manifest = .ok bytes) :
    ∃ pieces : List Bytes, bytes = pieces.flatten ∧
      List.Forall₂ (fun chunk piece => sha256 piece = chunk.chunkHash ∧ ∃ href, get href = some piece)
        (byOffset manifest) pieces := by
  rw [downloadChunks] at h
  cases hbatch : remote.batch "download" (refObjects (Client.byOffset manifest)) with
  | none =>
    rw [hbatch] at h
    cases h
  | some objects =>
    rw [hbatch] at h
    exact fetchChunks_ok h

/-- Where the entries are contiguous, a download has each chunk at its place. -/
theorem Contiguous.placed {sha256 : Bytes → String} {get : String → Option Bytes} {manifest : List ChunkRef}
    {pieces : List Bytes} (h : Contiguous sha256 get manifest)
    (hpieces : List.Forall₂ (fun chunk piece => sha256 piece = chunk.chunkHash ∧ ∃ href, get href = some piece)
      (byOffset manifest) pieces) : ∀ c ∈ manifest, Placed sha256 pieces.flatten c := by
  obtain ⟨stop, htiles⟩ := h.tiles
  have hmem : ∀ c ∈ byOffset manifest, c ∈ manifest := fun c hc => (List.perm_insertionSort _ _).subset hc
  obtain ⟨hstop, hplaced⟩ := Tiles.placed ((List.forall₂_and_left _ _).mpr ⟨hmem, hpieces⟩)
    (fun c piece hpiece => (h.lengths c hpiece.1 _ piece hpiece.2.2.choose_spec hpiece.2.1).symm) htiles
    (show ([] : Bytes).length = 0 from rfl)
  rw [List.nil_append] at hstop
  intro c hc
  have hc' : c ∈ byOffset manifest := (List.perm_insertionSort _ _).symm.subset hc
  have hend := htiles.stop_le (c.offset, c.length) (List.mem_map.mpr ⟨c, hc', rfl⟩)
  refine ⟨by rw [hstop]; exact hend, ?_⟩
  exact (hplaced c hc').2.1

/-- **There and back**: what either upload stored is downloaded as it was, from the manifest in any order with the same
hash.  A download that succeeds, of any manifest, is made of chunks with the hashes of the entries, by their
offsets, and has the size of the version; it has each chunk at its place where the entries are contiguous. -/
theorem content_round_trip (codec : Codec) (remote : Remote) :
    (∀ data d, Faithful codec remote d data → ∀ versions nodeId versionId version,
      versions.find? (fun v => v.versionId = versionId) = some version → SubmittedAs codec data version →
      (∃ d', d.uploadChunks remote (codec.chunkFile data) = (d', .ok ()) ∧
        downloadVerifiedVersion remote codec.sha256 d'.object versions nodeId versionId = .ok (version, data)) ∧
      ∃ d', d.uploadPendingChunks remote (d.pending (codec.chunkFile data)) = (d', .ok ()) ∧
        downloadVerifiedVersion remote codec.sha256 d'.object versions nodeId versionId = .ok (version, data)) ∧
    ∀ get versions nodeId versionId version bytes,
      downloadVerifiedVersion remote codec.sha256 get versions nodeId versionId = .ok (version, bytes) →
      bytes.length = version.sizeBytes ∧
      (∃ pieces : List Bytes, bytes = pieces.flatten ∧
        List.Forall₂ (fun c piece => codec.sha256 piece = c.chunkHash) (byOffset version.manifest) pieces) ∧
      (Contiguous codec.sha256 get version.manifest → ∀ c ∈ version.manifest, Placed codec.sha256 bytes c) := by
  refine ⟨fun data d h versions nodeId versionId version hlisted hsubmitted => ?_,
    fun get versions nodeId versionId version bytes hok => ?_⟩
  · constructor
    · let last oid := (d.pending (codec.chunkFile data)).reverse.find? fun c => c.hash = oid
      have hlast : ∀ c ∈ d.pending (codec.chunkFile data), ∃ c' ∈ d.pending (codec.chunkFile data),
          last c.hash = some c' ∧ c'.hash = c.hash := by
        intro c hc
        obtain ⟨c', hc'⟩ := find?_of_mem (List.mem_reverse.mpr hc)
        exact ⟨c', List.mem_reverse.mp (List.mem_of_find?_eq_some hc'), hc', by simpa using List.find?_some hc'⟩
      obtain ⟨d', hrun, hstocked, hhas⟩ := h.offer last true hlast
      exact ⟨d', hrun, h.back hstocked hhas hlisted hsubmitted⟩
    · let first oid := (d.pending (codec.chunkFile data)).find? fun c => c.hash = oid
      have hfirst : ∀ c ∈ d.pending (codec.chunkFile data), ∃ c' ∈ d.pending (codec.chunkFile data),
          first c.hash = some c' ∧ c'.hash = c.hash := by
        intro c hc
        obtain ⟨c', hc'⟩ := find?_of_mem hc
        exact ⟨c', List.mem_of_find?_eq_some hc', hc', by simpa using List.find?_some hc'⟩
      obtain ⟨d', hrun, hstocked, hhas⟩ := h.offer first false hfirst
      exact ⟨d', hrun, h.back hstocked hhas hlisted hsubmitted⟩
  · obtain ⟨hdownload, -, hsize⟩ := downloadVerifiedVersion_ok hok
    obtain ⟨pieces, rfl, hpieces⟩ := downloadChunks_ok hdownload
    exact ⟨hsize, ⟨pieces, rfl, hpieces.imp fun _ _ h => h.1⟩, fun hcontiguous => hcontiguous.placed hpieces⟩

end RoundTrip

/-- A codec that cuts every byte off, and has the bytes themselves for a hash. -/
def byteCodec : Codec where
  cuts data := (List.range data.length).map fun i => (i, 1)
  sha256 data := String.ofList (data.map fun byte => Char.ofNat byte.toNat)

/-- A store that wants every chunk and has every chunk. -/
def openStore : Remote where
  batch operation objects := some (objects.map fun o =>
    let action : BatchAction := if operation = "upload" then .upload (chunkKey o.oid) else .download (chunkKey o.oid)
    { oid := o.oid, size := o.size, actions := some action })
  refuses _ _ := false
  submit _ := .conflict

/-- Three bytes, the first and the last alike. -/
def threeBytes : Bytes := [1, 2, 1]

theorem threeBytes_faithful : Faithful byteCodec openStore {} threeBytes where
  tiles _ := .cons (.cons (.cons (.nil 3)))
  pos := by decide
  injective := by
    rintro x (⟨c, hc, rfl⟩ | ⟨key, hkey⟩) y (⟨c', hc', rfl⟩ | ⟨key', hkey'⟩)
    · have hall : ∀ c ∈ byteCodec.chunkFile threeBytes, ∀ c' ∈ byteCodec.chunkFile threeBytes,
          byteCodec.sha256 c.data = byteCodec.sha256 c'.data → c.data = c'.data := by decide
      exact hall c hc c' hc'
    · exact absurd hkey' List.not_mem_nil
    · exact absurd hkey List.not_mem_nil
    · exact absurd hkey List.not_mem_nil
  named _ _ h := by cases h
  marked _ h := absurd h List.not_mem_nil
  accepts _ _ := rfl
  uploads _ := by
    refine ⟨_, rfl, ?_⟩
    constructor
    · decide
    · decide
    · decide
    · have hwanted : ∀ c ∈ Depot.pending {} (byteCodec.chunkFile threeBytes), Wanted
          ((batchObjects (Depot.pending {} (byteCodec.chunkFile threeBytes))).map fun o =>
            { oid := o.oid, size := o.size, actions := some (.upload (chunkKey o.oid)) }) c.hash := by decide
      exact fun c hc => .inl (hwanted c hc)
  downloads refs _ := by
    refine ⟨_, rfl, fun c hc => ?_, fun c hc o ho hoid => ?_⟩
    · exact ⟨_, List.mem_map_of_mem (List.mem_map_of_mem hc), rfl⟩
    · obtain ⟨r, -, rfl⟩ := List.mem_map.mp ho
      have hoid : r.oid = c.chunkHash := hoid
      exact ⟨rfl, by rw [← hoid]; rfl⟩

/-- The bytes as they are listed, the entries of the byte that repeats swapped. -/
def swapped : RemoteVersion where
  versionId := "v"
  contentHash := manifestContentHash byteCodec.sha256 ((byteCodec.chunkFile threeBytes).map Chunk.ref)
  sizeBytes := 3
  manifest := [{ chunkHash := "\x01", offset := 2, length := 1 }, { chunkHash := "\x02", offset := 1, length := 1 },
    { chunkHash := "\x01", offset := 0, length := 1 }]

theorem content_round_trip_swapped : ∃ d', Depot.uploadChunks openStore (byteCodec.chunkFile threeBytes) {} = (d', .ok ()) ∧
    downloadVerifiedVersion openStore byteCodec.sha256 d'.object [swapped] "n" "v" = .ok (swapped, threeBytes) := by
  have hsubmitted : SubmittedAs byteCodec threeBytes swapped :=
    ⟨by decide +kernel, rfl, by decide +kernel, by decide +kernel⟩
  exact ((content_round_trip byteCodec openStore).1 threeBytes {} threeBytes_faithful [swapped] "n" "v" swapped rfl
    hsubmitted).1

/-- An entry that does not start where its chunk is, and is longer. -/
def misplaced : RemoteVersion where
  versionId := "v"
  contentHash := manifestContentHash byteCodec.sha256 [{ chunkHash := "\x01", offset := 5, length := 7 }]
  sizeBytes := 1
  manifest := [{ chunkHash := "\x01", offset := 5, length := 7 }]

/-- **A download with nothing at the entry's offset**: one byte is returned, and the entry has seven from the fifth. -/
theorem content_misplaced :
    downloadVerifiedVersion openStore byteCodec.sha256 (fun _ => some [1]) [misplaced] "n" "v" = .ok (misplaced, [1]) ∧
      ∀ c ∈ misplaced.manifest, ¬Placed byteCodec.sha256 [1] c := by
  refine ⟨by decide +kernel, fun c hc hplaced => ?_⟩
  rw [List.mem_singleton.mp hc] at hplaced
  exact absurd hplaced.1 (by decide)

end Valv.Client
