import Valv.Client.Mirror
import Valv.Lib.Run
import Valv.Server.Gc

/-!
# The upload cache

`uploaded_chunks` tells a device which chunks it need not upload.  It is filled by uploads and by
downloads and never emptied, while the server collects chunks.

* `CacheState.step`: one device, with the ops of others, purges and passes of the chunk collector
  between any two of its steps.
* `CacheOk`: no chunk is collected that the device has in its cache.
* `Stored`: what is submitted is on the server, or is uploaded by the next attempt.
* `cache_stored`: runs that meet the condition submit nothing else.
-/

namespace Valv.Client

open Valv.Conc Valv.Table Valv.Server

/-! ### The device and the server -/

/-- The server, the passes under way, the device's database, and the chunks that the server has
answered for and the device has not marked. -/
structure CacheState where
  store : Store := {}
  passes : List ChunkGc := []
  mirror : Mirror := {}
  answered : List String := []
  deriving DecidableEq, Repr

inductive CacheEvent where
  /-- An op of any device, this one's other ops included. -/
  | op (call : SubmitCall)
  /-- A batch of another device. -/
  | batch (call : BatchCall)
  | purge (args : GcArgs)
  | gcStart (args : GcArgs)
  | gcNext (i : ℕ) (deletes : Bool)
  /-- A batch of the device. -/
  | upload (call : BatchCall)
  /-- A version that is materialized. -/
  | fetch (versionId : String)
  /-- `mark_uploaded`: behind a `PUT`, for every chunk of an upload, or for every chunk of a version. -/
  | mark (hash : String)
  /-- An upload or a download ends. -/
  | leave
  /-- A new version of the device. -/
  | submit (call : SubmitCall)

/-- The chunks that a batch's answer has no error for. -/
def accepted (objects : List BatchResponseObject) : List String :=
  (objects.filter fun o => o.error.isNone).map BatchResponseObject.oid

/-- Every chunk is in the cache, or was answered for. -/
def CacheState.canSubmit (st : CacheState) (manifest : List ChunkRef) : Bool :=
  manifest.all fun c => st.mirror.isUploaded c.chunkHash || c.chunkHash ∈ st.answered

/-- The chunks that an attempt uploads. -/
def Mirror.pendingChunks (m : Mirror) (manifest : List ChunkRef) : List ChunkRef :=
  manifest.filter fun c => !m.isUploaded c.chunkHash

def CacheState.setDb (st : CacheState) (db : Db) : CacheState := { st with store := { st.store with db } }

def CacheState.step (be : Backend) (st : CacheState) : CacheEvent → Option CacheState
  | .op call => some (st.setDb (serve be call st.store.db).1)
  | .batch call => some (st.setDb ((handleBatch call).exec st.store.db none).1)
  | .purge args => some (st.setDb ((runTombstonePurgeOnce args).exec st.store.db none).1)
  | .gcStart args => some { st with passes := st.passes ++ [ChunkGc.start args st.store.db] }
  | .gcNext i deletes => st.passes[i]?.map fun g =>
      { st with passes := st.passes.set i (g.next deletes st.store).1, store := (g.next deletes st.store).2 }
  | .upload call =>
    match (handleBatch call).exec st.store.db none with
    | (db, .ok objects) => some { st.setDb db with answered := st.answered ++ accepted objects }
    | (db, .error _) => some (st.setDb db)
  | .fetch versionId => (st.store.db.version versionId).map fun v =>
      { st with answered := st.answered ++ chunkHashes v.manifest }
  | .mark hash => if hash ∈ st.answered then some { st with mirror := st.mirror.markUploaded hash } else none
  | .leave => some { st with answered := [] }
  | .submit call =>
    if st.canSubmit call.op.manifest then some (st.setDb (serve be call st.store.db).1) else none

/-! ### What is submitted -/

/-- **Nothing is withheld**: when a version is submitted, each chunk of it has its row on the server, or
the next attempt uploads it. -/
def Stored (st : CacheState) : CacheEvent → Prop
  | .submit call => st.canSubmit call.op.manifest → ∀ c ∈ call.op.manifest,
      (st.store.db.chunk c.chunkHash).isSome ∨ c ∈ st.mirror.pendingChunks call.op.manifest
  | _ => True

/-- A row that is collected is of no chunk in the cache, and a chunk that is marked has its row. -/
def CacheOk (st : CacheState) : CacheEvent → Prop
  | .gcNext i _ => ∀ g ∈ st.passes[i]?, ∀ hash ∈ st.mirror.uploadedChunks, g.collects st.store.db hash = false
  | .mark hash => (st.store.db.chunk hash).isSome
  | _ => True

/-- The upload cache is sound: every chunk that the client has marked as uploaded has its row on the server. A chunk
that is marked is not sent again, so without its row a version would be submitted that nobody can read. -/
def CacheState.Sound (st : CacheState) : Prop :=
  ∀ hash ∈ st.mirror.uploadedChunks, (st.store.db.chunk hash).isSome

/-! ### The rows of the chunks -/

/-- No chunk loses its row between the two databases. -/
def KeepsChunks (s s' : Db) : Prop := ∀ hash, (s.chunk hash).isSome → (s'.chunk hash).isSome

instance : Std.Refl KeepsChunks := ⟨fun _ _ h => h⟩

instance : IsTrans Db KeepsChunks := ⟨fun _ _ _ h h' hash hs => h' hash (h hash hs)⟩

theorem tolerates_keepsChunks (manifest : List ChunkRef) : Tolerates manifest KeepsChunks where
  nodes _ _ _ h := h
  draw _ _ h := h
  append _ _ _ h := h
  version _ _ _ _ h := h
  refs _ _ _ _ h := h
  counts s hashes f _ hash h := by
    obtain ⟨c, hc, heq⟩ := chunk_isSome.mp h
    refine chunk_isSome.mpr ⟨_, List.mem_map_of_mem hc, ?_⟩
    split <;> exact heq

theorem serve_keepsChunks (be : Backend) (call : SubmitCall) (s : Db) : KeepsChunks s (serve be call s).1 :=
  (submitOp_tolerates (tolerates_keepsChunks _)).exec s fun _ hu => absurd hu (Option.not_mem_none _)

theorem handleBatch_keepsChunks (call : BatchCall) (s : Db) :
    KeepsChunks s ((handleBatch call).exec s none).1 := by
  intro hash h
  have hadds : AddsChunks s ((handleBatch call).exec s none).1 :=
    (handleBatch_writes call).exec s fun _ hu => absurd hu (Option.not_mem_none _)
  obtain ⟨c, hc, heq⟩ := chunk_isSome.mp h
  exact chunk_isSome.mpr ⟨c, hadds.grows.subset hc, heq⟩

theorem purge_keepsChunks (args : GcArgs) (s : Db) :
    KeepsChunks s ((runTombstonePurgeOnce args).exec s none).1 := by
  have hdelete : ∀ ids, (deleteNodes ids).Writes KeepsChunks :=
    fun ids => Proc.Writes.stmt fun _ _ _ h => h
  have hnodes : ∀ ids result, (purgeNodes ids result).Writes KeepsChunks :=
    fun ids result => Proc.Writes.attempt ((hdelete ids).bind fun _ => True.intro) fun _ => True.intro
  have hpurge : (runTombstonePurgeOnce args).Writes KeepsChunks := by
    refine (Proc.Writes.read _).bind fun eligible => ?_
    dsimp only
    split
    · exact True.intro
    · exact hnodes _ _
  exact hpurge.exec s fun _ hu => absurd hu (Option.not_mem_none _)

/-- **A statement of a pass** deletes no row but that of the chunk it collects. -/
theorem gcNext_chunk (g : ChunkGc) (deletes : Bool) (store : Store) {hash : String}
    (hg : g.collects store.db hash = false) (h : (store.db.chunk hash).isSome) :
    ((g.next deletes store).2.db.chunk hash).isSome := by
  rw [ChunkGc.next]
  cases hobject : g.object with
  | some o =>
    dsimp only
    split <;> exact h
  | none =>
    cases htodo : g.todo with
    | nil => exact h
    | cons first todo =>
      have hdb : (((deleteChunkRow first).runBody store.db).1.chunk hash).isSome := by
        rw [runBody_deleteChunkRow]
        split
        · next hcollects =>
          have hne : first ≠ hash := by
            rintro rfl
            simp [ChunkGc.collects, hobject, htodo, hcollects] at hg
          obtain ⟨c, hc, heq⟩ := chunk_isSome.mp h
          exact chunk_isSome.mpr ⟨c, List.mem_filter.mpr ⟨hc, by simp [heq, hne.symm]⟩, heq⟩
        · exact h
      dsimp only
      rcases hrun : (deleteChunkRow first).runBody store.db with ⟨db, error | deleted⟩
      · rw [hrun] at hdb
        exact hdb
      · rw [hrun] at hdb
        cases deleted <;> exact hdb

/-! ### Runs -/

section Run

variable {be : Backend} {st st' : CacheState} {e : CacheEvent}

theorem CacheState.Sound.setDb {db : Db} (h : st.Sound) (hdb : KeepsChunks st.store.db db) : (st.setDb db).Sound :=
  fun hash hmem => hdb hash (h hash hmem)

/-- **One event** keeps the rows of the chunks in the cache. -/
theorem CacheState.Sound.step (h : st.Sound) (hok : CacheOk st e) (hstep : st.step be e = some st') : st'.Sound := by
  cases e with
  | op call =>
    cases hstep
    exact h.setDb (serve_keepsChunks be call _)
  | batch call =>
    cases hstep
    exact h.setDb (handleBatch_keepsChunks call _)
  | purge args =>
    cases hstep
    exact h.setDb (purge_keepsChunks args _)
  | gcStart args =>
    cases hstep
    exact h
  | gcNext i deletes =>
    obtain ⟨g, hg, rfl⟩ := Option.map_eq_some_iff.mp hstep
    exact fun hash hmem => gcNext_chunk g deletes st.store (hok g hg hash hmem) (h hash hmem)
  | upload call =>
    have hkeeps := handleBatch_keepsChunks call st.store.db
    rw [CacheState.step] at hstep
    rcases hrun : (handleBatch call).exec st.store.db none with ⟨db, error | objects⟩
    · rw [hrun] at hstep hkeeps
      cases hstep
      exact h.setDb hkeeps
    · rw [hrun] at hstep hkeeps
      cases hstep
      exact h.setDb hkeeps
  | fetch versionId =>
    obtain ⟨v, hv, rfl⟩ := Option.map_eq_some_iff.mp hstep
    exact h
  | mark hash =>
    rw [CacheState.step] at hstep
    split at hstep
    · cases hstep
      intro hash' hmem
      rcases mem_markUploaded.mp hmem with hold | rfl
      · exact h hash' hold
      · exact hok
    · cases hstep
  | leave =>
    cases hstep
    exact h
  | submit call =>
    rw [CacheState.step] at hstep
    split at hstep
    · cases hstep
      exact h.setDb (serve_keepsChunks be call _)
    · cases hstep

/-- Where every chunk in the cache has its row, nothing is withheld. -/
theorem CacheState.Sound.stored (h : st.Sound) (e : CacheEvent) : Stored st e := by
  cases e with
  | submit call =>
    intro _ c hc
    by_cases hcached : c.chunkHash ∈ st.mirror.uploadedChunks
    · exact .inl (h _ hcached)
    · exact .inr (List.mem_filter.mpr ⟨hc, by simp [Mirror.isUploaded, hcached]⟩)
  | _ => exact True.intro

end Run

instance (st : CacheState) (e : CacheEvent) : Decidable (Stored st e) :=
  match e with
  | .submit _ => inferInstanceAs (Decidable (_ → ∀ _ ∈ _, _))
  | .op _ | .batch _ | .purge _ | .gcStart _ | .gcNext _ _ | .upload _ | .fetch _ | .mark _ | .leave => isTrue True.intro

instance (st : CacheState) (e : CacheEvent) : Decidable (CacheOk st e) :=
  match e with
  | .gcNext _ _ => inferInstanceAs (Decidable (∀ _ ∈ _, ∀ _ ∈ _, _))
  | .mark _ => inferInstanceAs (Decidable (_ = _))
  | .op _ | .batch _ | .purge _ | .gcStart _ | .upload _ | .fetch _ | .leave | .submit _ => isTrue True.intro

/-- **The cache withholds nothing** in a run in which no chunk is collected that is in the cache. -/
theorem cache_stored (be : Backend) (store : Store) (events : List CacheEvent)
    (hok : Run.Along (CacheState.step be) CacheOk { store } events) :
    Run.Along (CacheState.step be) Stored { store } events :=
  hok.of_invariant (I := CacheState.Sound) (fun _ _ _ hsound hok hstep => hsound.step hok hstep)
    (fun _ e hsound _ => hsound.stored e) fun _ hmem => absurd hmem List.not_mem_nil

/-- A folder with an empty file. -/
def fileStore : Store where
  db := {
    sharedFolders := ["f"]
    devices := [{ deviceId := "a", userId := some "alice" }]
    folderGrants := [{ grantId := "g", folderId := "f", scopeNodeId := "root", userId := some "alice",
                       deviceId := none, canRead := true, canWrite := true }]
    nodes := [{ nodeId := "root", folderId := "f", parentId := none, name := "", type := .folder },
              { nodeId := "file", folderId := "f", parentId := some "root", name := "x", type := .file }] }

/-- A chunk is uploaded and marked. -/
def uploadChunk : List CacheEvent :=
  [.upload { principal := .device "a", operation := "upload", objects := [{ oid := "c", size := 1 }] }, .mark "c",
    .leave]

/-- A version of the file with the chunk. -/
def fileVersion : SubmitCall where
  folderId := "f"
  principal := .device "a"
  op := .mutate "file" 0 (.newVersion "v" "h" 1 [{ chunkHash := "c", offset := 0, length := 1 }])
  newId := ""
  now := 0
  request := 0

theorem cache_stored_upload :
    Run.Along (CacheState.step .pg) Stored { store := fileStore } (uploadChunk ++ [.submit fileVersion]) ∧
      isApplied (serve .pg fileVersion (Run.run (CacheState.step .pg) { store := fileStore } uploadChunk).store.db).2 :=
  ⟨cache_stored .pg fileStore (uploadChunk ++ [.submit fileVersion]) (by decide +kernel), by decide +kernel⟩

/-- The device stops behind the upload; a day later the chunk is collected. -/
def collectChunk : List CacheEvent := [.gcStart { now := 2, retentionMs := 1 }, .gcNext 0 true, .gcNext 0 true]

/-- **A chunk that is lost for the device**: the version is refused, and no later attempt uploads the chunk. -/
theorem cache_withholds : let st := Run.run (CacheState.step .pg) { store := fileStore } (uploadChunk ++ collectChunk)
    ¬ Run.Along (CacheState.step .pg) Stored { store := fileStore } (uploadChunk ++ collectChunk ++ [.submit fileVersion]) ∧
      (serve .pg fileVersion st.store.db).2 = .error (.constraint .foreignKey) ∧
      st.mirror.pendingChunks fileVersion.op.manifest = [] := by
  decide +kernel

end Valv.Client
