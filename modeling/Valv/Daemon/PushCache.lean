import Valv.Client.Deletes
import Valv.Daemon.FsEvents
import Valv.Lib.Run

/-!
# The push cache of a mount

Passes of `push_local`, events of the watcher and pulls, one after the other, with whatever happens on the
disk between them.

* `CacheEvent`: what writes the rows of nodes.
* `CacheEvent.Tells`: the events that leave every pair of size and time with the version it describes.
* `push_cache_sound`: in a run of such events, a file that has the size and the time recorded for a node is the node's
  current version, after each of them.
* `push_cache_stale`: not after a pulled version, nor behind an answer that was not applied.
-/

namespace Valv.Daemon

open Valv.Conc Valv.Table Valv.Paths Valv.Server Valv.Files Valv.Client

/-! ### Runs -/

inductive CacheEvent where
  | push (env : PushEnv)
  /-- An event of the watcher; the file that it reads, and whether its time is found. -/
  | watch (mount : MountState) (e : FsEvent) (file : Option FileData) (timed : Bool) (a : HandlerAnswers)
  | pull (now : ℕ) (folderId : String) (delta : DeltaPullResponse)
  | resync (folderId : String) (resp : FolderTreeResponse)
  | edit (disk : Disk FileData)

/-- What the watcher makes of a file. -/
def readOf (contentHash : List ChunkRef → String) (timed : Bool) : Option FileData → Except WatchError FileRead
  | none => .error .failed
  | some f => .ok
    { contentHash := contentHash f.chunks
      sizeBytes := f.sizeBytes
      manifest := f.chunks
      mtimeNanos := if timed then some f.mtimeNanos else none }

/-- The answers with this file read. -/
def HandlerAnswers.reads (a : HandlerAnswers) (file : Except WatchError FileRead) : HandlerAnswers :=
  { a with upload := { a.upload with read := file } }

/-- The surroundings of a pass, with this hash. -/
def hashing (contentHash : List ChunkRef → String) (env : PushEnv) : PushEnv := { env with contentHash }

/-- The event as a program; a pass that ends with an error is over. -/
def CacheEvent.proc (contentHash : List ChunkRef → String) : CacheEvent → PushProc Unit
  | .push env => do
    change fun s => { mirror := s.mirror, disk := s.disk }
    (pushLocal (hashing contentHash env)).attempt fun _ => pure ()
  | .watch mount e file timed a =>
    updateMirror fun m => (handleFsEvent mount m e (a.reads (readOf contentHash timed file))).mirror
  | .pull now folderId delta => updateMirror fun m => (m.applyPage now folderId delta).1
  | .resync folderId resp => updateMirror fun m => m.applyTreeSnapshot folderId resp
  | .edit disk => change fun s => { s with disk }

def syncRun (contentHash : List ChunkRef → String) : List CacheEvent → PushProc Unit
  | [] => pure ()
  | e :: es => do
    e.proc contentHash
    syncRun contentHash es

/-- Every state that a run goes through, the ones within an event included. -/
def states (contentHash : List ChunkRef → String) (s : Pass) (es : List CacheEvent) : List Pass :=
  (syncRun contentHash es).history s

/-- The state that an event leaves. -/
def afterEvent (contentHash : List ChunkRef → String) (s : Pass) (e : CacheEvent) : Pass :=
  ((e.proc contentHash).runBody s).1

/-- The states between the events: where the daemon holds no lock of the mount. -/
def between (contentHash : List ChunkRef → String) : Pass → List CacheEvent → List Pass
  | s, [] => [s]
  | s, e :: es => s :: between contentHash (afterEvent contentHash s e) es

/-- A mirror that nothing was pulled into, and a disk. -/
def unpulled (mounts : List LocalMount) (disk : Disk FileData) : Pass := { mirror := { mounts }, disk }

/-- The files that the watcher reads are told by size and time. -/
def CacheEvent.Reads (content : ℕ → ℕ → List ChunkRef) : CacheEvent → Prop
  | .watch _ _ file _ _ => ∀ f ∈ file, f.chunks = content f.sizeBytes f.mtimeNanos
  | _ => True

/-! ### Conditions on the events -/

/-- The id under which an upload of the watcher records its version. -/
def UploadAnswers.recordedId (a : UploadAnswers) : String :=
  match a.submit with
  | .ok (.conflictCopy _ _ conflictVersionId) => conflictVersionId
  | _ => a.versionId

/-- The upload comes to its end and the server answers `applied`, so that the watcher has recorded the version in
the mirror. -/
def UploadAnswers.Applies (a : UploadAnswers) : Prop := ∃ serverSeq n, a.submit = .ok (.applied serverSeq n)

/-- An event of the watcher that tells: its version is a new one, a node that is made has no pair, and where the
server applies the version, the file's time is found or the node had no pair that stays. -/
def WatchTells (mount : MountState) (m : Mirror) (e : FsEvent) (timed : Bool) (a : HandlerAnswers) : Prop :=
  m.getVersion a.upload.recordedId = none ∧
    match e with
    | .create _ => ∀ serverSeq n, a.submit = .ok (.applied serverSeq n) → m.Unrecorded n
    | .modify path => timed = true ∨ ¬a.upload.Applies ∨
        ∀ node, resolveAbsPath m (components mount.path) mount.folderId path = .ok (some node) →
          m.Unrecorded node.nodeId

/-- **The condition on an event**, in the state before it.  A pass has its versions applied, or its requests fail; a
page or a snapshot has no other version of a node with a pair. -/
def CacheEvent.Tells (content : ℕ → ℕ → List ChunkRef) (contentHash : List ChunkRef → String) (s : Pass) :
    CacheEvent → Prop
  | .push env => env.Tells s.mirror
  | .watch mount e _ timed a => WatchTells mount s.mirror e timed a
  | .pull now folderId delta =>
    delta.upToSeq < s.mirror.getCursor folderId ∨ s.mirror.PageTells content contentHash now delta.ops
  | .resync folderId resp => s.mirror.ResyncTells folderId resp
  | .edit _ => True

/-! ### What the watcher records -/

section Watcher

variable {content : ℕ → ℕ → List ChunkRef} {contentHash : List ChunkRef → String} {m : Mirror} {mount : MountState}

/-- What the watcher reads of a file agrees with what the disk tells of it: the content of a file that is read with
its time is the one that its size and its time stand for. -/
def Readable (content : ℕ → ℕ → List ChunkRef) (contentHash : List ChunkRef → String) (a : UploadAnswers) : Prop :=
  ∀ file, a.read = .ok file → ∀ mtimeNanos ∈ file.mtimeNanos,
    file.contentHash = contentHash (content file.sizeBytes mtimeNanos)

theorem readable_readOf {file : Option FileData} (timed : Bool)
    (hfile : ∀ f ∈ file, f.chunks = content f.sizeBytes f.mtimeNanos) (a : UploadAnswers) :
    Readable content contentHash { a with read := readOf contentHash timed file } := by
  intro read hread time htime
  cases file with
  | none => cases hread
  | some f =>
    cases hread
    cases timed with
    | false => cases htime
    | true =>
      cases htime
      show contentHash f.chunks = contentHash (content f.sizeBytes f.mtimeNanos)
      rw [← hfile f rfl]

theorem sound_markAllUploaded (h : m.Sound content contentHash) (manifest : List ChunkRef) :
    (m.markAllUploaded manifest).Sound content contentHash := by
  obtain ⟨hnodes, hversions⟩ := tables_markAll (manifest.map ChunkRef.chunkHash) m
  exact h.of_tables hnodes hversions

theorem getVersion_markAllUploaded (m : Mirror) (manifest : List ChunkRef) (k : String) :
    (m.markAllUploaded manifest).getVersion k = m.getVersion k := by
  have hversions := (tables_markAll (manifest.map ChunkRef.chunkHash) m).2
  rw [Mirror.getVersion, Mirror.getVersion, Mirror.markAllUploaded, hversions]

theorem unrecorded_markAllUploaded {nodeId : String} (h : m.Unrecorded nodeId) (manifest : List ChunkRef) :
    (m.markAllUploaded manifest).Unrecorded nodeId := by
  have hnodes := (tables_markAll (manifest.map ChunkRef.chunkHash) m).1
  have hrow : RowKept nodeId m (m.markAllUploaded manifest) := by
    rw [RowKept, Mirror.getNode, Mirror.getNode, Mirror.markAllUploaded, hnodes]
  exact fun a b hc => h a b (caches_of_rowKept hrow hc)

/-- The answer to an upload: the watcher records a pair for an applied version only. -/
theorem sound_uploadAnswered (h : m.Sound content contentHash) {nodeId : String} {basedOnSeq : ℕ} {file : FileRead}
    {a : UploadAnswers} {response : SubmitOpResponse} (hsubmit : a.submit = .ok response)
    (hnew : m.getVersion a.recordedId = none)
    (hfile : ∀ mtimeNanos ∈ file.mtimeNanos, file.contentHash = contentHash (content file.sizeBytes mtimeNanos))
    (hpair : file.mtimeNanos ≠ none ∨ ¬a.Applies ∨ m.Unrecorded nodeId) :
    (uploadAnswered mount m nodeId basedOnSeq file a response).mirror.Sound content contentHash := by
  have hmarked := sound_markAllUploaded h file.manifest
  have hagrees : ∀ hash, (m.markAllUploaded file.manifest).Agrees a.recordedId hash := by
    intro hash old hold
    rw [getVersion_markAllUploaded, hnew] at hold
    cases hold
  rw [UploadAnswers.recordedId, hsubmit] at hagrees
  cases response with
  | superseded seq => exact hmarked
  | conflictCopy serverSeq n conflictVersionId => exact sound_recordVersion_copy hmarked (hagrees _)
  | applied serverSeq n =>
    cases htime : file.mtimeNanos with
    | none =>
      have happlies : a.Applies := ⟨serverSeq, n, hsubmit⟩
      have hunrecorded : m.Unrecorded nodeId := by
        cases hpair with
        | inl hsome => exact absurd htime hsome
        | inr hrest => exact hrest.resolve_left fun hnot => hnot happlies
      simp only [uploadAnswered, htime]
      exact sound_recordVersion_unrecorded hmarked (hagrees _) (unrecorded_markAllUploaded hunrecorded _)
    | some time =>
      simp only [uploadAnswered, htime]
      exact sound_pushed hmarked (hagrees _) (hfile time htime)

/-- An upload of the watcher. -/
theorem sound_uploadFileNewVersion (h : m.Sound content contentHash) {nodeId : String} (basedOnSeq : ℕ)
    {a : UploadAnswers} (hread : Readable content contentHash a) (hnew : m.getVersion a.recordedId = none)
    (hpair : (∀ file, a.read = .ok file → file.mtimeNanos ≠ none) ∨ ¬a.Applies ∨ m.Unrecorded nodeId) :
    (uploadFileNewVersion mount m nodeId basedOnSeq a).mirror.Sound content contentHash := by
  rw [uploadFileNewVersion]
  split
  · exact h
  · next file hfile =>
    split
    · exact h
    · split
      · exact h
      · split
        · exact sound_markAllUploaded h _
        · next response hsubmit =>
          exact sound_uploadAnswered h hsubmit hnew (hread file hfile) (hpair.imp_left fun htimes => htimes file hfile)

/-- A file that is read with its time. -/
theorem timed_readOf {file : Option FileData} (a : UploadAnswers) :
    ∀ read, { a with read := readOf contentHash true file }.read = .ok read → read.mtimeNanos ≠ none := by
  intro read hread
  cases file with
  | none => cases hread
  | some f =>
    cases hread
    exact Option.some_ne_none _

/-- **An event of the watcher.** -/
theorem sound_handleFsEvent (h : m.Sound content contentHash) {e : FsEvent} {file : Option FileData} {timed : Bool}
    {a : HandlerAnswers} (hfile : ∀ f ∈ file, f.chunks = content f.sizeBytes f.mtimeNanos)
    (htells : WatchTells mount m e timed a) :
    (handleFsEvent mount m e (a.reads (readOf contentHash timed file))).mirror.Sound content contentHash := by
  obtain ⟨hnew, hevent⟩ := htells
  have hread : Readable content contentHash { a.upload with read := readOf contentHash timed file } :=
    readable_readOf timed hfile a.upload
  cases e with
  | modify path =>
    rw [handleFsEvent, handleModify]
    split
    · exact h
    · exact h
    · next node hnode =>
      split
      · refine sound_uploadFileNewVersion h _ hread hnew ?_
        obtain rfl | hrest := hevent
        · exact .inl (timed_readOf a.upload)
        · exact .inr (hrest.imp_right fun hnone => hnone node hnode)
      · exact h
  | create path =>
    rw [handleFsEvent, handleCreate]
    split
    · exact h
    · exact h
    · split
      · exact h
      · split
        · exact h
        · split
          · exact h
          · exact h
          · next parent _ =>
            rw [createIn]
            split
            · exact h
            · next serverSeq n hanswer =>
              have hunrecorded : m.Unrecorded n := hevent serverSeq n hanswer
              have hcreated : ∀ name type, (m.upsertNode
                  (createdNode mount.folderId n parent.nodeId name type serverSeq)).Sound content contentHash :=
                fun name type => sound_upsertNode_new h rfl hunrecorded
              split
              · exact hcreated _ _
              · refine sound_uploadFileNewVersion (hcreated _ _) _ hread hnew (.inr (.inr fun x y hc => ?_))
                exact hunrecorded x y (caches_upsertNode rfl hc)
            · exact h

end Watcher

/-! ### Whole runs -/

section Runs

variable {content : ℕ → ℕ → List ChunkRef} {contentHash : List ChunkRef → String} {s : Pass} {e : CacheEvent}

/-- **An event** that meets the condition leaves the mirror sound. -/
theorem proc_keepsAt (h : s.mirror.Sound content contentHash) (hreads : e.Reads content)
    (htells : e.Tells content contentHash s) :
    (e.proc contentHash).KeepsAt (fun s => Determined content s.disk) (fun s => s.mirror.Sound content contentHash) s := by
  cases e with
  | push env =>
    have hw : (hashing contentHash env).Tells s.mirror :=
      ⟨htells.newVersions, htells.newNodes, htells.distinct, htells.applied, htells.created⟩
    have hreset : (change fun s : Pass => ({ mirror := s.mirror, disk := s.disk } : Pass)).KeepsAt
        (fun s => Determined content s.disk) (fun s => s.mirror.Sound content contentHash) s := fun _ => h
    refine hreset.bind fun t _ hrun ht => ?_
    cases hrun
    have hstart : Holding content (hashing contentHash env) { mirror := s.mirror, disk := s.disk } :=
      ⟨h, fun k _ => hw.newVersions k, fun k _ => hw.newNodes k⟩
    have hpass : (pushLocal (hashing contentHash env)).KeepsAt (fun s => Determined content s.disk)
        (fun s => s.mirror.Sound content contentHash) { mirror := s.mirror, disk := s.disk } :=
      fun hD => (pushLocal_keeping hw _ hstart hD).sound
    exact hpass.attempt fun _ _ hs _ => hs
  | watch mount ev file timed a => exact fun _ => sound_handleFsEvent h hreads htells
  | pull now folderId delta => exact fun _ => sound_applyPage h htells
  | resync folderId resp => exact fun _ => sound_applyTreeSnapshot h htells
  | edit disk => exact fun _ => h

theorem runBody_proc (s : Pass) (e : CacheEvent) : (e.proc contentHash).runBody s = (afterEvent contentHash s e, .ok ()) := by
  have hok : ((e.proc contentHash).runBody s).2 = .ok () := by
    cases e with
    | push env =>
      have hrun : ((CacheEvent.push env).proc contentHash).runBody s =
          ((pushLocal (hashing contentHash env)).attempt fun _ => pure ()).runBody { mirror := s.mirror, disk := s.disk } := rfl
      rw [hrun, Proc.runBody_attempt]
      split
      · rfl
      · rfl
    | watch mount ev file timed a => rfl
    | pull now folderId delta => rfl
    | resync folderId resp => rfl
    | edit disk => rfl
  rw [afterEvent, ← hok]

/-- **A run** of such events: the mirror is sound between them. -/
theorem between_sound {es : List CacheEvent} (h : s.mirror.Sound content contentHash)
    (hdisks : ∀ t ∈ states contentHash s es, Determined content t.disk) (hreads : ∀ e ∈ es, e.Reads content)
    (htells : Run.Along (fun s e => some (afterEvent contentHash s e)) (CacheEvent.Tells content contentHash) s es) :
    ∀ t ∈ between contentHash s es, t.mirror.Sound content contentHash ∧ Determined content t.disk := by
  have hhere : s.mirror.Sound content contentHash ∧ Determined content s.disk :=
    ⟨h, hdisks s (Proc.mem_history _ s)⟩
  induction es generalizing s with
  | nil => exact List.forall_mem_singleton.mpr hhere
  | cons e es ih =>
    obtain ⟨hread, hreads⟩ := List.forall_mem_cons.mp hreads
    obtain ⟨htell, htells⟩ := htells
    have hrun : (e.proc contentHash).runBody s = (afterEvent contentHash s e, .ok ()) := runBody_proc s e
    have hnext := proc_keepsAt h hread htell fun t ht => hdisks t (Proc.mem_history_bind _ ht)
    have hdisks' : ∀ t ∈ states contentHash (afterEvent contentHash s e) es, Determined content t.disk :=
      fun t ht => hdisks t (Proc.mem_history_bind_ok hrun ht)
    refine List.forall_mem_cons.mpr ⟨hhere, ih hnext hdisks' hreads htells ?_⟩
    exact ⟨hnext, hdisks' _ (Proc.mem_history _ _)⟩

end Runs

/-- **The push cache is sound** in a run whose events meet the condition: between any two of them, a file that has the
size and the time recorded for a node holds the node's current version. -/
theorem push_cache_sound (contentHash : List ChunkRef → String) (content : ℕ → ℕ → List ChunkRef)
    (mounts : List LocalMount) (disk : Disk FileData) (es : List CacheEvent)
    (hdisks : ∀ s ∈ states contentHash (unpulled mounts disk) es, Determined content s.disk)
    (hreads : ∀ e ∈ es, e.Reads content)
    (htells : Run.Along (fun s e => some (afterEvent contentHash s e)) (CacheEvent.Tells content contentHash)
      (unpulled mounts disk) es)
    (s : Pass) (hs : s ∈ between contentHash (unpulled mounts disk) es) (nodeId : String) (p : Path) (f : FileData)
    (hfile : fileAt s.disk p = some f) (hcache : s.mirror.caches nodeId f.sizeBytes f.mtimeNanos) :
    s.mirror.currentContent nodeId = some (contentHash f.chunks) := by
  have hstart : (unpulled mounts disk).mirror.Sound content contentHash := ⟨List.nodup_nil, fun _ _ _ hc => nomatch hc⟩
  obtain ⟨hsound, hdisk⟩ := between_sound hstart hdisks hreads htells s hs
  rw [fileAt_determined hdisk hfile]
  exact hsound.told nodeId _ _ hcache

/-- The hash of a file of one chunk is the chunk's. -/
def joinedHash (chunks : List ChunkRef) : String := String.join (chunks.map ChunkRef.chunkHash)

/-- A file, on a disk with nothing else. -/
def notes : FileData where
  chunks := [{ chunkHash := "one", offset := 0, length := 1 }]
  mtimeNanos := 7

def notesDisk : Disk FileData := { entries := [([], .dir), (["a"], .file notes)] }

/-- The mirror is filled: a root folder, and a node for the file. -/
def filledNotes : CacheEvent := .resync "folder"
  { nodes := [
      { nodeId := "root", parentId := none, name := "", type := .folder, currentVersionId := none, serverSeq := 1,
        deletedAt := none },
      { nodeId := "file", parentId := some "root", name := "a", type := .file, currentVersionId := none,
        serverSeq := 2, deletedAt := none }]
    upToSeq := 2 }

theorem push_cache_sound_notes : (afterEvent joinedHash (afterEvent joinedHash (unpulled [] notesDisk) filledNotes)
    (.push drawingDevice)).mirror.currentContent "file" = some "one" :=
  push_cache_sound joinedHash (fun _ _ => notes.chunks) [] notesDisk [filledNotes, .push drawingDevice]
    (by decide +kernel) (List.forall_mem_cons.mpr ⟨True.intro, List.forall_mem_singleton.mpr True.intro⟩)
    ⟨nofun, ⟨fun _ => rfl,
      fun k => lookup_eq_none.mpr (List.forall_mem_cons.mpr ⟨(drawn_ne k (by decide)).symm,
        List.forall_mem_singleton.mpr (drawn_ne k (by decide)).symm⟩),
      distinct_drawn, fun _ _ _ _ _ _ _ => .inl ⟨_, _, rfl⟩, fun _ _ _ _ _ _ _ h => by cases h; rfl⟩, True.intro⟩
    _ (List.mem_cons_of_mem _ (List.mem_cons_of_mem _ (List.mem_singleton_self _))) "file" ["a"] notes
    (by decide +kernel) (by decide +kernel)

/-- Another device's version of the file is pulled. -/
def pulledNotes : CacheEvent := .pull 0 "folder"
  { ops := [
      { serverSeq := 4, nodeId := "file",
        payload := .newVersion "theirs" "two" 1 [{ chunkHash := "two", offset := 0, length := 1 }] false,
        actorDeviceId := "b", appliedAt := 0 }]
    upToSeq := 4 }

/-- A server that has another version of everything. -/
def supersedingDevice : PushEnv := { drawingDevice with answer := fun _ _ => .superseded 9 }

/-- The state that a run ends in. -/
def lastState (es : List CacheEvent) : Pass := es.foldl (afterEvent joinedHash) (unpulled [] notesDisk)

/-- The file is on the disk with the size and the time recorded for its node, and is not the node's current version;
the next pass sends nothing. -/
def PassedOver (es : List CacheEvent) : Prop :=
  lastState es ∈ between joinedHash (unpulled [] notesDisk) es ∧
    (∀ t ∈ states joinedHash (unpulled [] notesDisk) es, Determined (fun _ _ => notes.chunks) t.disk) ∧
    ((lastState es).mirror.getNode "file").bind (localNodeAbsPath (lastState es).mirror.nodes none 3) = some (some ["a"]) ∧
    fileAt (lastState es).disk ["a"] = some notes ∧
    (lastState es).mirror.caches "file" notes.sizeBytes notes.mtimeNanos ∧
    (lastState es).mirror.currentContent "file" ≠ some (joinedHash notes.chunks) ∧
    (lastState (es ++ [.push drawingDevice])).sent = []

/-- **Files that are passed over**: one was pushed, and then another device's version was pulled; another was pushed
and answered `superseded`, and has its pair all the same. -/
theorem push_cache_stale : PassedOver [filledNotes, .push drawingDevice, pulledNotes] ∧
    PassedOver [filledNotes, .push supersedingDevice] := by
  constructor
  · refine ⟨?_, by decide +kernel⟩
    exact List.mem_cons_of_mem _ (List.mem_cons_of_mem _ (List.mem_cons_of_mem _ (List.mem_singleton_self _)))
  · refine ⟨?_, by decide +kernel⟩
    exact List.mem_cons_of_mem _ (List.mem_cons_of_mem _ (List.mem_singleton_self _))

end Valv.Daemon
