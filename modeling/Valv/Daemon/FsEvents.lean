import Valv.Client.Push
import Valv.Client.Upload
import Valv.Daemon.PathResolution

/-!
# File system events

What the watcher makes of an event: `map_notify_event`, `collapse_events` and `handle_fs_event` of
`crates/valv-sync/src/watch/mod.rs`.

* `mapNotifyEvent`, `collapsed`, `byDepth`: from the file system's events to a batch.
* `handleCreate`, `handleModify`: the handlers, with the answers of the file system and of the backend.
* `mem_collapsed`: a batch has the paths of its events.
* `handleFsEvent_settled`: what a handler brings to the server.
-/

namespace Valv.Daemon

open Valv.Table Valv.Paths Valv.Server

/-! ### Events -/

inductive FsEvent where
  | create (path : PathBuf)
  | modify (path : PathBuf)
  deriving DecidableEq, Repr

def FsEvent.path : FsEvent → PathBuf
  | .create path => path
  | .modify path => path

inductive WatchSignal where
  | event (e : FsEvent)
  | dirty
  deriving DecidableEq, Repr

/-- `notify::EventKind`, as far as the mapping tells them apart. -/
inductive EventKind where
  | create
  | modifyData
  | modifyName
  | modifyMetadata
  | modifyOther
  | remove
  | other (needRescan : Bool)
  | access
  deriving DecidableEq, Repr

/-- `map_notify_event`. -/
def mapNotifyEvent (kind : EventKind) (paths : List PathBuf) : Option WatchSignal :=
  match kind with
  | .create => paths.head?.map fun path => .event (.create path)
  | .modifyData => paths.head?.map fun path => .event (.modify path)
  | .modifyName => some .dirty
  | .modifyMetadata => none
  | .modifyOther => some .dirty
  | .remove => some .dirty
  | .other needRescan => if needRescan then some .dirty else none
  | .access => none

/-- `should_mark_suppressed_during_pause`. -/
def shouldMarkSuppressedDuringPause (userPaused materializing : Bool) (mapped : Option WatchSignal) : Bool :=
  userPaused && !materializing && mapped.isSome

/-- One event into the map of `collapse_events`: a `Modify` gives way to a `Create` of its path. -/
def collapseInto (collapsed : List FsEvent) (e : FsEvent) : List FsEvent :=
  match e with
  | .create _ => upsert FsEvent.path e (fun _ => e) collapsed
  | .modify path =>
    if lookup FsEvent.path path collapsed = some (.create path) then collapsed
    else upsert FsEvent.path e (fun _ => e) collapsed

/-- The values of the map. -/
def collapsed (events : List FsEvent) : List FsEvent := events.foldl collapseInto []

/-- `collapse_events`, from the values in whatever order the map gives them. -/
def byDepth (values : List FsEvent) : List FsEvent := values.insertionSort fun a b => a.path.length ≤ b.path.length

/-! ### Handlers -/

/-- What is at a path. -/
inductive Entry where
  | folder
  | file (contentHash : String) (sizeBytes : ℕ)
  deriving DecidableEq, Repr

def Entry.type : Entry → NodeType
  | .folder => .folder
  | .file _ _ => .file

/-- The errors `handle_fs_events` tells apart. -/
inductive WatchError where
  | updateRequired
  | failed
  deriving DecidableEq, Repr

/-- What `chunk_file` and the manifest make of a file. -/
structure FileRead where
  contentHash : String
  sizeBytes : ℕ
  manifest : List ChunkRef := []
  mtimeNanos : Option ℕ := none
  deriving DecidableEq, Repr

def FileRead.entry (file : FileRead) : Entry := .file file.contentHash file.sizeBytes

/-- What `upload_file_new_version` gets to know. -/
structure UploadAnswers where
  read : Except WatchError FileRead
  chunks : Except WatchError Unit
  versionId : String
  submit : Except WatchError SubmitOpResponse
  copied : Bool := true

/-- What a handler gets to know; `metadata` is `none` where the path is gone. -/
structure HandlerAnswers where
  metadata : Except WatchError (Option Entry)
  submit : Except WatchError SubmitOpResponse
  upload : UploadAnswers

/-- The mirror after a handler, what of the path the server has now, and the result. -/
structure Handled where
  mirror : Client.Mirror
  settled : Option Entry
  result : Except WatchError Unit

section Handlers

variable (mount : MountState) (m : Client.Mirror)

/-- The current version of the node is this file already. -/
def unchanged (nodeId : String) (file : FileRead) : Bool :=
  (((m.getNode nodeId).bind Client.LocalNode.currentVersionId).bind m.getVersion).any fun version =>
    version.sizeBytes = file.sizeBytes && version.contentHash = file.contentHash

/-- The version that is submitted. -/
def newVersionOp (nodeId : String) (basedOnSeq : ℕ) (file : FileRead) (versionId : String) : SubmitOpRequest :=
  .mutate nodeId basedOnSeq (.newVersion versionId file.contentHash file.sizeBytes file.manifest)

/-- After the answer to `new_version`. -/
def uploadAnswered (nodeId : String) (basedOnSeq : ℕ) (file : FileRead) (a : UploadAnswers)
    (response : SubmitOpResponse) : Handled :=
  let m' := (m.markAllUploaded file.manifest).applySubmittedNewVersion mount.folderId nodeId
    (newVersionOp nodeId basedOnSeq file a.versionId) response
  match response with
  | .applied _ _ =>
    ⟨file.mtimeNanos.elim m' (m'.updatePushedCache nodeId file.sizeBytes), some file.entry, .ok ()⟩
  | .conflictCopy _ _ _ => ⟨m', some file.entry, if a.copied then .ok () else .error .failed⟩
  | .superseded _ => ⟨m', none, .ok ()⟩

/-- `upload_file_new_version`. -/
def uploadFileNewVersion (nodeId : String) (basedOnSeq : ℕ) (a : UploadAnswers) : Handled :=
  match a.read with
  | .error e => ⟨m, none, .error e⟩
  | .ok file =>
    if unchanged m nodeId file then ⟨m, some file.entry, .ok ()⟩
    else
      match a.chunks with
      | .error e => ⟨m, none, .error e⟩
      | .ok _ =>
        match a.submit with
        | .error e => ⟨m.markAllUploaded file.manifest, none, .error e⟩
        | .ok response => uploadAnswered mount m nodeId basedOnSeq file a response

/-- `file_name`. -/
def fileName (path : PathBuf) : Option String :=
  match path.getLast? with
  | some (.normal name) => some name
  | _ => none

/-- `Path::parent`. -/
def parentPath (path : PathBuf) : Option PathBuf :=
  match path.getLast? with
  | none => none
  | some .rootDir => none
  | some _ => some path.dropLast

/-- `resolve_parent_for_path`. -/
def resolveParentForPath (path : PathBuf) : Except WatchPathError (Option Client.LocalNode) :=
  match parentPath path with
  | none => .ok none
  | some parent => resolveAbsPath m (components mount.path) mount.folderId parent

/-- `handle_create` once the node is to be created. -/
def createIn (parent : Client.LocalNode) (name : String) (entry : Entry) (a : HandlerAnswers) : Handled :=
  match a.submit with
  | .error e => ⟨m, none, .error e⟩
  | .ok (.applied serverSeq nodeId) =>
    let m' := m.upsertNode (Client.createdNode mount.folderId nodeId parent.nodeId name entry.type serverSeq)
    match entry with
    | .folder => ⟨m', some .folder, .ok ()⟩
    | .file _ _ => uploadFileNewVersion mount m' nodeId serverSeq a.upload
  | .ok _ => ⟨m, none, .ok ()⟩

/-- `handle_create`. -/
def handleCreate (path : PathBuf) (a : HandlerAnswers) : Handled :=
  match a.metadata with
  | .error e => ⟨m, none, .error e⟩
  | .ok none => ⟨m, none, .ok ()⟩
  | .ok (some entry) =>
    match fileName path with
    | none => ⟨m, none, .error .failed⟩
    | some name =>
      if entry.type = .file && Client.isConflictCopyName name then ⟨m, none, .ok ()⟩
      else
        match resolveParentForPath mount m path with
        | .error _ => ⟨m, none, .error .failed⟩
        | .ok none => ⟨m, none, .ok ()⟩
        | .ok (some parent) => createIn mount m parent name entry a

/-- `handle_modify`. -/
def handleModify (path : PathBuf) (a : HandlerAnswers) : Handled :=
  match resolveAbsPath m (components mount.path) mount.folderId path with
  | .error _ => ⟨m, none, .error .failed⟩
  | .ok none => ⟨m, none, .ok ()⟩
  | .ok (some node) =>
    match node.nodeType with
    | .file => uploadFileNewVersion mount m node.nodeId node.serverSeq a.upload
    | .folder => ⟨m, some .folder, .ok ()⟩

/-- `handle_fs_event`. -/
def handleFsEvent (e : FsEvent) (a : HandlerAnswers) : Handled :=
  match e with
  | .create path => handleCreate mount m path a
  | .modify path => handleModify mount m path a

end Handlers

/-! ### Paths of a batch -/

theorem mem_collapseInto {values : List FsEvent} {e : FsEvent} {path : PathBuf} :
    path ∈ (collapseInto values e).map FsEvent.path ↔ path ∈ values.map FsEvent.path ∨ path = e.path := by
  have hupsert : path ∈ (upsert FsEvent.path e (fun _ => e) values).map FsEvent.path ↔
      path ∈ values.map FsEvent.path ∨ path = e.path := by
    rw [upsert]
    cases hold : lookup FsEvent.path e.path values with
    | none =>
      show path ∈ (values ++ [e]).map FsEvent.path ↔ _
      simp
    | some old =>
      show path ∈ (update FsEvent.path e.path (fun _ => e) values).map FsEvent.path ↔ _
      rw [map_key_update fun _ _ => rfl]
      have hmem : e.path ∈ values.map FsEvent.path :=
        List.mem_map.2 ⟨old, mem_of_lookup hold, lookup_key hold⟩
      constructor
      · exact Or.inl
      · rintro (h | rfl)
        · exact h
        · exact hmem
  cases e with
  | create p => exact hupsert
  | modify p =>
    rw [collapseInto]
    split
    · next hold =>
      have hmem : p ∈ values.map FsEvent.path := List.mem_map.2 ⟨.create p, mem_of_lookup hold, rfl⟩
      constructor
      · exact Or.inl
      · rintro (h | rfl)
        · exact h
        · exact hmem
    · exact hupsert

/-- A batch has the paths of its events. -/
theorem mem_collapsed {events : List FsEvent} {path : PathBuf} :
    path ∈ (collapsed events).map FsEvent.path ↔ path ∈ events.map FsEvent.path := by
  have hfold : ∀ values, path ∈ (events.foldl collapseInto values).map FsEvent.path ↔
      path ∈ values.map FsEvent.path ∨ path ∈ events.map FsEvent.path := by
    induction events with
    | nil => simp
    | cons e events ih =>
      intro values
      rw [List.foldl_cons, ih, mem_collapseInto, List.map_cons, List.mem_cons, or_assoc]
  rw [collapsed, hfold]
  simp

theorem mem_byDepth {values : List FsEvent} {path : PathBuf} :
    path ∈ (byDepth values).map FsEvent.path ↔ path ∈ values.map FsEvent.path :=
  ((List.perm_insertionSort _ values).map FsEvent.path).mem_iff

/-! ### The events of a batch -/

section Batch

variable {events events' values : List FsEvent} {e : FsEvent} {path : PathBuf}

theorem collapsed_concat : collapsed (events ++ [e]) = collapseInto (collapsed events) e := by
  simp [collapsed, List.foldl_append]

theorem nodup_collapseInto (h : (values.map FsEvent.path).Nodup) :
    ((collapseInto values e).map FsEvent.path).Nodup := by
  have hupsert : ((upsert FsEvent.path e (fun _ => e) values).map FsEvent.path).Nodup :=
    nodup_upsert (fun _ _ => rfl) h
  cases e with
  | create p => exact hupsert
  | modify p =>
    rw [collapseInto]
    split
    · exact h
    · exact hupsert

/-- The map has one value for a path. -/
theorem nodup_collapsed (events : List FsEvent) : ((collapsed events).map FsEvent.path).Nodup := by
  induction events using List.reverseRecOn with
  | nil => exact List.nodup_nil
  | append_singleton events e ih =>
    rw [collapsed_concat]
    exact nodup_collapseInto ih

theorem lookup_collapseInto_ne (h : path ≠ e.path) :
    lookup FsEvent.path path (collapseInto values e) = lookup FsEvent.path path values := by
  have hupsert : lookup FsEvent.path path (upsert FsEvent.path e (fun _ => e) values) =
      lookup FsEvent.path path values := lookup_upsert_ne h fun _ _ => rfl
  cases e with
  | create p => exact hupsert
  | modify p =>
    rw [collapseInto]
    split
    · rfl
    · exact hupsert

theorem lookup_collapseInto_create : lookup FsEvent.path path (collapseInto values (.create path)) =
    some (.create path) := by
  have hself : lookup FsEvent.path path (upsert FsEvent.path (.create path) (fun _ => .create path) values) =
      some (.create path) := lookup_upsert_replace (r := FsEvent.create path)
  exact hself

theorem lookup_collapseInto_modify : lookup FsEvent.path path (collapseInto values (.modify path)) =
    if lookup FsEvent.path path values = some (.create path) then some (.create path) else some (.modify path) := by
  have hself : lookup FsEvent.path path (upsert FsEvent.path (.modify path) (fun _ => .modify path) values) =
      some (.modify path) := lookup_upsert_replace (r := FsEvent.modify path)
  rw [collapseInto]
  split
  · next hcreate => exact hcreate
  · exact hself

/-- **The value of a path**: a `Create` if there has been one. -/
theorem lookup_collapsed : lookup FsEvent.path path (collapsed events) =
    if .create path ∈ events then some (.create path)
    else if .modify path ∈ events then some (.modify path) else none := by
  induction events using List.reverseRecOn with
  | nil => rfl
  | append_singleton events e ih =>
    rw [collapsed_concat]
    by_cases hpath : path = e.path
    · cases e with
      | create p =>
        have hp : path = p := hpath
        rw [← hp, lookup_collapseInto_create]
        simp
      | modify p =>
        have hp : path = p := hpath
        rw [← hp, lookup_collapseInto_modify, ih]
        by_cases hcreate : FsEvent.create path ∈ events
        · simp [hcreate]
        · by_cases hmodify : FsEvent.modify path ∈ events <;> simp [hcreate, hmodify]
    · have hcreate : FsEvent.create path ≠ e := fun he => hpath (by rw [← he]; rfl)
      have hmodify : FsEvent.modify path ≠ e := fun he => hpath (by rw [← he]; rfl)
      rw [lookup_collapseInto_ne hpath, ih]
      simp [hcreate, hmodify]

/-- What `events` collapse to: one event for each of their paths, a `Create` if there is one among them, and no path
behind one that is below it; so the `Create` of a folder comes before those of what is in it. -/
structure Collapses (events batch : List FsEvent) : Prop where
  once : ∀ path, (batch.map FsEvent.path).count path = if path ∈ events.map FsEvent.path then 1 else 0
  kind : ∀ e ∈ batch, e = if .create e.path ∈ events then .create e.path else .modify e.path
  order : batch.Pairwise fun earlier later => ¬ later.path <+: earlier.path
  foldersFirst : ∀ folder path, folder <+: path → folder ≠ path → .create folder ∈ events → .create path ∈ events →
    [.create folder, .create path].Sublist batch

/-- Sorted by depth, nothing stands behind what is below it. -/
theorem byDepth_order (h : (values.map FsEvent.path).Nodup) :
    (byDepth values).Pairwise fun earlier later => ¬ later.path <+: earlier.path := by
  have hdepth : (byDepth values).Pairwise fun a b => a.path.length ≤ b.path.length :=
    List.pairwise_insertionSort _ values
  have hpaths : ((byDepth values).map FsEvent.path).Nodup :=
    (((List.perm_insertionSort _ values).map FsEvent.path).nodup_iff).2 h
  have hne : (byDepth values).Pairwise fun a b => a.path ≠ b.path := List.pairwise_map.1 hpaths
  refine (hdepth.and hne).imp fun {a b} hab hstarts => ?_
  have hlength : b.path.length = a.path.length := by
    have hle := hstarts.length_le
    omega
  exact hab.2 (hstarts.eq_of_length hlength).symm

/-- What may not stand behind the other stands before it. -/
theorem pair_sublist {R : FsEvent → FsEvent → Prop} {a b : FsEvent} (h : values.Pairwise R) (ha : a ∈ values)
    (hb : b ∈ values) (hne : a ≠ b) (hback : ¬ R b a) : [a, b].Sublist values := by
  obtain ⟨before, after, rfl⟩ := List.append_of_mem hb
  rcases List.mem_append.1 ha with hbefore | hafter
  · show ([a] ++ [b]).Sublist (before ++ b :: after)
    exact (List.singleton_sublist.2 hbefore).append (List.singleton_sublist.2 List.mem_cons_self)
  · rcases List.mem_cons.1 hafter with heq | hafter
    · exact absurd heq hne
    · have htail := (List.pairwise_append.1 h).2.1
      exact absurd ((List.pairwise_cons.1 htail).1 a hafter) hback

/-- **Batches are collapsed correctly**, in whatever order the events come and the map gives its values. -/
theorem collapse_events_collapses (hevents : events'.Perm events) (hvalues : values.Perm (collapsed events')) :
    Collapses events (byDepth values) := by
  have hbatch : (byDepth values).Perm (collapsed events') := (List.perm_insertionSort _ values).trans hvalues
  have hvaluePaths : (values.map FsEvent.path).Nodup :=
    ((hvalues.map FsEvent.path).nodup_iff).2 (nodup_collapsed events')
  have hbatchPaths : ((byDepth values).map FsEvent.path).Nodup :=
    ((hbatch.map FsEvent.path).nodup_iff).2 (nodup_collapsed events')
  have hmem : ∀ e : FsEvent, e ∈ byDepth values ↔ lookup FsEvent.path e.path (collapsed events') = some e := by
    intro e
    rw [hbatch.mem_iff]
    exact ⟨lookup_of_mem (nodup_collapsed events'), mem_of_lookup⟩
  have horder := byDepth_order hvaluePaths
  have hcreate : ∀ path, .create path ∈ events → FsEvent.create path ∈ byDepth values := by
    intro path hpath
    rw [hmem, lookup_collapsed]
    exact if_pos (hevents.mem_iff.2 hpath)
  refine ⟨fun path => ?_, fun e he => ?_, horder, fun folder path hbelow hne hfolder hpath => ?_⟩
  · have hpaths : path ∈ (byDepth values).map FsEvent.path ↔ path ∈ events.map FsEvent.path := by
      rw [mem_byDepth, (hvalues.map FsEvent.path).mem_iff, mem_collapsed, (hevents.map FsEvent.path).mem_iff]
    by_cases hin : path ∈ events.map FsEvent.path
    · rw [if_pos hin]
      exact List.count_eq_one_of_mem hbatchPaths (hpaths.2 hin)
    · rw [if_neg hin]
      exact List.count_eq_zero_of_not_mem fun h => hin (hpaths.1 h)
  · have hlookup := (hmem e).1 he
    rw [lookup_collapsed] at hlookup
    simp only [hevents.mem_iff] at hlookup
    split_ifs at hlookup with hc hm
    · rw [if_pos hc]
      exact (Option.some.inj hlookup).symm
    · rw [if_neg hc]
      exact (Option.some.inj hlookup).symm
  · have hne' : FsEvent.create folder ≠ .create path := fun h => hne (FsEvent.create.inj h)
    exact pair_sublist horder (hcreate folder hfolder) (hcreate path hpath) hne' fun h => h hbelow

/-- A folder that is changed, created, and has a file created in it. -/
def docsEvents : List FsEvent :=
  [.modify [.rootDir, .normal "docs"], .create [.rootDir, .normal "docs"],
    .create [.rootDir, .normal "docs", .normal "a"]]

theorem collapse_events_collapses_docs : Collapses docsEvents (byDepth
    [.create [.rootDir, .normal "docs", .normal "a"], .create [.rootDir, .normal "docs"]]) := by
  have hevents : docsEvents.reverse.Perm docsEvents := List.reverse_perm docsEvents
  exact collapse_events_collapses hevents (by decide)

end Batch

/-! ### What is submitted -/

section Submitted

variable (mount : MountState) (m : Client.Mirror)

/-- The content is that of the current version, or the backend takes it as a version. -/
inductive UploadSubmits (nodeId : String) (a : UploadAnswers) : Entry → Prop
  | unchanged (file : FileRead) (hread : a.read = .ok file) (hsame : unchanged m nodeId file = true) :
      UploadSubmits nodeId a file.entry
  | accepted (file : FileRead) (hread : a.read = .ok file) (hchunks : a.chunks = .ok ())
      (response : SubmitOpResponse) (hsubmit : a.submit = .ok response)
      (hkept : ∀ seq, response ≠ .superseded seq) : UploadSubmits nodeId a file.entry

/-- The handler brings `entry` to the server: a `Create` under a parent that the mirror has, with a name that is no
conflict copy's, that the server applies; a `Modify` of a node that the mirror has. -/
inductive Submits : FsEvent → HandlerAnswers → Entry → Prop
  | createFolder (path : PathBuf) (a : HandlerAnswers) (name : String) (parent : Client.LocalNode) (seq : ℕ)
      (nodeId : String) (hthere : a.metadata = .ok (some .folder)) (hname : fileName path = some name)
      (hparent : resolveParentForPath mount m path = .ok (some parent)) (hsubmit : a.submit = .ok (.applied seq nodeId)) :
      Submits (.create path) a .folder
  | createFile (path : PathBuf) (a : HandlerAnswers) (name hash : String) (size : ℕ) (parent : Client.LocalNode)
      (seq : ℕ) (nodeId : String) (entry : Entry) (hthere : a.metadata = .ok (some (.file hash size)))
      (hname : fileName path = some name) (hcopy : Client.isConflictCopyName name = false)
      (hparent : resolveParentForPath mount m path = .ok (some parent)) (hsubmit : a.submit = .ok (.applied seq nodeId))
      (hupload : UploadSubmits (m.upsertNode (Client.createdNode mount.folderId nodeId parent.nodeId name .file seq))
        nodeId a.upload entry) :
      Submits (.create path) a entry
  | modifyFile (path : PathBuf) (a : HandlerAnswers) (node : Client.LocalNode) (entry : Entry)
      (hnode : resolveAbsPath m (components mount.path) mount.folderId path = .ok (some node))
      (htype : node.nodeType = .file) (hupload : UploadSubmits m node.nodeId a.upload entry) :
      Submits (.modify path) a entry
  | modifyFolder (path : PathBuf) (a : HandlerAnswers) (node : Client.LocalNode)
      (hnode : resolveAbsPath m (components mount.path) mount.folderId path = .ok (some node))
      (htype : node.nodeType = .folder) : Submits (.modify path) a .folder

variable {mount m}

theorem uploadFileNewVersion_settled {nodeId : String} {seq : ℕ} {a : UploadAnswers} {entry : Entry} :
    (uploadFileNewVersion mount m nodeId seq a).settled = some entry ↔ UploadSubmits m nodeId a entry := by
  rw [uploadFileNewVersion]
  constructor
  · intro h
    split at h
    · cases h
    next file hread =>
    split at h
    · next hsame =>
      cases h
      exact .unchanged file hread hsame
    split at h
    · cases h
    next hchunks =>
    split at h
    · cases h
    next response hsubmit =>
    cases response with
    | applied s n =>
      cases h
      exact .accepted file hread hchunks _ hsubmit (by simp)
    | conflictCopy s n v =>
      cases h
      exact .accepted file hread hchunks _ hsubmit (by simp)
    | superseded s => cases h
  · intro h
    cases h with
    | unchanged file hread hsame => simp [hread, hsame]
    | accepted file hread hchunks response hsubmit hkept =>
      by_cases hsame : unchanged m nodeId file = true
      · simp [hread, hsame]
      · cases response with
        | applied s n => simp [hread, hchunks, hsubmit, uploadAnswered, hsame]
        | conflictCopy s n v => simp [hread, hchunks, hsubmit, uploadAnswered, hsame]
        | superseded s => exact absurd rfl (hkept s)

/-- **What a handler brings to the server.** -/
theorem handleFsEvent_settled {e : FsEvent} {a : HandlerAnswers} {entry : Entry} :
    (handleFsEvent mount m e a).settled = some entry ↔ Submits mount m e a entry := by
  constructor
  · intro h
    cases e with
    | create path =>
      rw [handleFsEvent, handleCreate] at h
      split at h
      · cases h
      · cases h
      next there hthere =>
      split at h
      · cases h
      next name hname =>
      split at h
      · cases h
      next hcopy =>
      split at h
      · cases h
      · cases h
      next parent hparent =>
      rw [createIn] at h
      split at h
      · cases h
      · next seq nodeId hsubmit =>
        cases there with
        | folder =>
          cases h
          exact .createFolder path a name parent seq nodeId hthere hname hparent hsubmit
        | file hash size =>
          have hcopy : Client.isConflictCopyName name = false := by simpa [Entry.type] using hcopy
          exact .createFile path a name hash size parent seq nodeId entry hthere hname hcopy hparent hsubmit
            (uploadFileNewVersion_settled.1 h)
      · cases h
    | modify path =>
      rw [handleFsEvent, handleModify] at h
      split at h
      · cases h
      · cases h
      next node hnode =>
      split at h
      · next htype => exact .modifyFile path a node entry hnode htype (uploadFileNewVersion_settled.1 h)
      · next htype =>
        cases h
        exact .modifyFolder path a node hnode htype
  · intro h
    cases h with
    | createFolder path a name parent seq nodeId hthere hname hparent hsubmit =>
      simp [handleFsEvent, handleCreate, hthere, hname, hparent, createIn, hsubmit, Entry.type]
    | createFile path a name hash size parent seq nodeId entry hthere hname hcopy hparent hsubmit hupload =>
      simp [handleFsEvent, handleCreate, hthere, hname, hparent, createIn, hsubmit, Entry.type, hcopy,
        uploadFileNewVersion_settled.2 hupload]
    | modifyFile path a node entry hnode htype hupload =>
      simp [handleFsEvent, handleModify, hnode, htype, uploadFileNewVersion_settled.2 hupload]
    | modifyFolder path a node hnode htype => simp [handleFsEvent, handleModify, hnode, htype]

end Submitted

end Valv.Daemon
