import Mathlib.Algebra.GroupWithZero.Nat
import Valv.Client.Pull
import Valv.Lib.Text
import Valv.Server.Commit

/-!
# File Provider uploads

`fp_upload` of `valvd/src/fp.rs` and its background job: the context is resolved from the
mirror when the request comes in, and the job submits its ops later, while the mirror and the
server move on.

* `resolveUploadContext`: whether to create the node, and the base of the new version.
* `UploadState.step`: the request, the phases of its job, pulls and the calls of others.
* `fpUpload_safe`: when every request meets `RequestOk`, no upload is applied over a version
  its author had not seen, and each goes to the node its content belongs to.
* `fpUpload_overwrites`: without that, both fail.
-/

namespace Valv.Client

open Valv.Conc Valv.Table Valv.Text Valv.Server

/-! ### The request -/

/-- `FpUploadRequest`, without the file it names, whose chunks are the job's. -/
structure FpUploadRequest where
  nodeId : Option String
  parentId : String
  name : String
  basedOnSeq : Option ℕ
  deriving DecidableEq, Repr

/-- What a handler of the daemon answers instead. -/
inductive DaemonError where
  | badRequest (message : String)
  | notFound (message : String)
  | conflict (error message : String)
  | backend (e : ApiError)
  deriving DecidableEq, Repr

/-- `validate_upload_request`. -/
def validateUploadRequest (req : FpUploadRequest) : Except DaemonError Unit :=
  if req.nodeId.any fun n => n = "" then .error (.badRequest "node_id cannot be empty")
  else if isBlank req.parentId then .error (.badRequest "parent_id is required")
  else if isBlank req.name then .error (.badRequest "name is required")
  else .ok ()

/-- `resolve_mount_for_query`. -/
def resolveMountForQuery (m : Mirror) (folderId : Option String) : Except DaemonError LocalMount :=
  match folderId with
  | some folderId =>
    if folderId = "" then .error (.badRequest "folder_id cannot be empty")
    else (lookup LocalMount.folderId folderId m.mounts).elim (.error (.notFound "mount_not_found")) .ok
  | none =>
    match m.mounts with
    | [mount] => .ok mount
    | [] => .error (.notFound "mount_not_found")
    | _ => .error (.badRequest "folder_id is required when multiple folders are mounted")

/-- `resolve_mount_for_folder_id`. -/
def resolveMountForFolderId (m : Mirror) (folderId : String) : Except DaemonError LocalMount :=
  (lookup LocalMount.folderId folderId m.mounts).elim (.error (.notFound "mount_not_found")) .ok

/-- `resolve_parent_id`. -/
def resolveParentId (m : Mirror) (mount : LocalMount) (parent : String) : Option String :=
  if parent ≠ "root" then some parent
  else mount.scopeNodeId.or ((m.getRootNode mount.folderId).map LocalNode.nodeId)

/-- The parent's row, found before anything else. -/
def resolveParent (m : Mirror) (req : FpUploadRequest) : Except DaemonError LocalNode :=
  if req.parentId = "root" then do
    let mount ← resolveMountForQuery m none
    match resolveParentId m mount req.parentId with
    | none => .error (.notFound ("parent node not found: " ++ req.parentId))
    | some parentId =>
      (m.getNode parentId).elim (.error (.notFound ("parent node not found: " ++ parentId))) .ok
  else
    match m.getNode req.parentId with
    | none => .error (.notFound ("parent node not found: " ++ req.parentId))
    | some parent => do
      let _ ← resolveMountForFolderId m parent.folderId
      .ok parent

/-- `UploadContext`. -/
structure UploadContext where
  folderId : String
  createFirst : Bool
  basedOnSeq : ℕ
  parentId : String
  deriving DecidableEq, Repr

/-- The row the upload is taken to be about: the one with its id, else a live one with its
parent and name. -/
def existingNode (m : Mirror) (parent : LocalNode) (name nodeId : String) : Option LocalNode :=
  (m.getNode nodeId).or (m.getNodeByParentAndName parent.folderId (some parent.nodeId) name)

/-- `resolve_upload_context`. -/
def resolveUploadContext (m : Mirror) (req : FpUploadRequest) (nodeId : String) :
    Except DaemonError UploadContext := do
  let parent ← resolveParent m req
  let existing := existingNode m parent req.name nodeId
  .ok { folderId := parent.folderId
        createFirst := existing.isNone
        basedOnSeq := ((existing.map LocalNode.serverSeq).or req.basedOnSeq).getD parent.serverSeq
        parentId := parent.nodeId }

/-! ### The job -/

/-- Where `upload_job_inner` is. -/
inductive UploadPhase where
  | queued
  | based (basedOnSeq : ℕ)
  | chunked (basedOnSeq : ℕ) (manifest : List ChunkRef)
  | submitted
  | failed
  deriving DecidableEq, Repr

/-- As a ghost, the submission of a new version, with the database before and after it. -/
structure Submission where
  op : SubmitOpRequest
  answer : Except ApiError SubmitOpResponse
  before : Db
  after : Db

/-- An upload: its request, the mirror and context it was resolved with, and its job.  `created`
and `submission` are ghosts. -/
structure UploadJob where
  req : FpUploadRequest
  nodeId : String
  mirror : Mirror
  context : UploadContext
  phase : UploadPhase := .queued
  created : Bool := false
  submission : Option Submission := none

/-- What does not change during a run: the server's database, the device, and the hash of a
manifest. -/
structure UploadConfig where
  be : Backend
  deviceId : String
  manifestContentHash : List ChunkRef → String

/-- The server, the mirror and one upload, with everything between its awaits left to other clients. -/
structure UploadState where
  server : Db
  mirror : Mirror
  job : Option UploadJob := none

inductive UploadEvent where
  /-- A call of any device. -/
  | call (call : SubmitCall)
  /-- A page pulled into the mirror. -/
  | pull (folderId scopeNodeId : String) (now : ℕ)
  /-- A tree pulled into the mirror. -/
  | resync (folderId scopeNodeId : String)
  /-- `fp_upload`; `freshId` is the new uuid. -/
  | request (req : FpUploadRequest) (freshId : String)
  /-- The job creates its node, or finds that it need not. -/
  | create (newId : String) (now : ℕ)
  /-- The job cuts the file into chunks and uploads the ones that are not uploaded yet. -/
  | upload (manifest : List ChunkRef)
  /-- The job submits its new version. -/
  | submit (versionId newId : String) (now : ℕ)
  /-- A step of the job fails. -/
  | fail

/-- A call of the job. -/
def UploadConfig.call (c : UploadConfig) (job : UploadJob) (op : SubmitOpRequest) (newId : String)
    (now : ℕ) : SubmitCall :=
  { folderId := job.context.folderId, principal := .device c.deviceId, op, newId, now, request := 0 }

/-- The create op of the job. -/
def UploadJob.createOp (job : UploadJob) : SubmitOpRequest :=
  .create job.nodeId job.context.parentId job.req.name .file

/-- The new version of the job: always of `node_id`. -/
def UploadJob.versionOp (c : UploadConfig) (job : UploadJob) (basedOnSeq : ℕ) (versionId : String)
    (manifest : List ChunkRef) : SubmitOpRequest :=
  .mutate job.nodeId basedOnSeq (.newVersion versionId (c.manifestContentHash manifest)
    (manifest.map ChunkRef.length).sum manifest)

/-- The job after its create op was answered. -/
def UploadJob.afterCreate (job : UploadJob) : Except ApiError SubmitOpResponse → UploadJob
  | .ok (.applied serverSeq _) => { job with phase := .based serverSeq, created := true }
  | .ok (.superseded _) => { job with phase := .failed }
  | .ok (.conflictCopy _ _ _) => { job with phase := .based job.context.basedOnSeq }
  | .error _ => { job with phase := .failed }

/-- The chunks of the manifest are marked as uploaded. -/
def Mirror.markAllUploaded (m : Mirror) (manifest : List ChunkRef) : Mirror :=
  (manifest.map ChunkRef.chunkHash).foldl Mirror.markUploaded m

/-- `fp_upload` as far as it answers at once. -/
def fpUpload (m : Mirror) (req : FpUploadRequest) (freshId : String) : Except DaemonError UploadJob := do
  validateUploadRequest req
  let nodeId := req.nodeId.getD freshId
  let context ← resolveUploadContext m req nodeId
  .ok { req, nodeId, mirror := m, context }

/-- The job's own steps. -/
def UploadState.stepJob (c : UploadConfig) (st : UploadState) (job : UploadJob) :
    UploadEvent → Option UploadState
  | .create newId now =>
    match job.phase with
    | .queued =>
      if job.context.createFirst then
        let served := serve c.be (c.call job job.createOp newId now) st.server
        some { st with server := served.1, job := some (job.afterCreate served.2) }
      else some { st with job := some { job with phase := .based job.context.basedOnSeq } }
    | _ => none
  | .upload manifest =>
    match job.phase with
    | .based basedOnSeq =>
      some { st with mirror := st.mirror.markAllUploaded manifest
                     job := some { job with phase := .chunked basedOnSeq manifest } }
    | _ => none
  | .submit versionId newId now =>
    match job.phase with
    | .chunked basedOnSeq manifest =>
      let op := job.versionOp c basedOnSeq versionId manifest
      let served := serve c.be (c.call job op newId now) st.server
      some { st with server := served.1
                     job := some { job with
                       phase := .submitted
                       submission := some { op, answer := served.2, before := st.server, after := served.1 } } }
    | _ => none
  | .fail =>
    match job.phase with
    | .submitted => none
    | _ => some { st with job := some { job with phase := .failed } }
  | _ => none

def UploadState.step (c : UploadConfig) (st : UploadState) (ev : UploadEvent) : Option UploadState :=
  match ev with
  | .call call => some { st with server := (serve c.be call st.server).1 }
  | .pull folderId scopeNodeId now =>
    some { st with mirror := (st.mirror.pullPage now st.server folderId scopeNodeId).1 }
  | .resync folderId scopeNodeId =>
    some { st with mirror := st.mirror.treeResync st.server folderId scopeNodeId }
  | .request req freshId =>
    match st.job with
    | some _ => none
    | none =>
      match fpUpload st.mirror req freshId with
      | .ok job => some { st with job := some job }
      | .error _ => none
  | ev => st.job.bind fun job => st.stepJob c job ev

/-! ### What an upload must not do -/

/-- The op is a version of the node. -/
def OpLogRow.isVersion (e : OpLogRow) : Bool :=
  match e.payload with
  | .newVersion _ _ _ _ _ => true
  | _ => false

/-- A version of the node was committed after the number that the request's content is based on; to put the content
over it would lose that version. -/
def NewerVersion (s : Db) (nodeId : String) (basedOnSeq : ℕ) : Prop :=
  ∃ e ∈ s.opLog, e.nodeId = nodeId ∧ OpLogRow.isVersion e = true ∧ basedOnSeq < e.serverSeq

instance (s : Db) (nodeId : String) (basedOnSeq : ℕ) : Decidable (NewerVersion s nodeId basedOnSeq) :=
  inferInstanceAs (Decidable (∃ e ∈ s.opLog, _))

def currentVersion (s : Db) (nodeId : String) : Option String :=
  (s.node nodeId).bind NodeRow.currentVersionId

/-- The node the content belongs to: the live one with the upload's id, else the live one with
its parent and name, else (`none`) the one the job creates. -/
def contentNode (m : Mirror) (folderId parentId name nodeId : String) : Option String :=
  ((m.getNode nodeId).filter fun r => r.deletedAt.isNone).or
    (m.getNodeByParentAndName folderId (some parentId) name) |>.map LocalNode.nodeId

/-- `contentNode` at the time of the request. -/
def UploadJob.content (job : UploadJob) : Option String :=
  contentNode job.mirror job.context.folderId job.context.parentId job.req.name job.nodeId

/-- No version its author had not seen is replaced: after one was committed, the new version is
not applied and the current version stays. -/
def UploadJob.NoOverwrite (job : UploadJob) : Prop :=
  ∀ sub ∈ job.submission, ∀ b ∈ job.req.basedOnSeq, NewerVersion sub.before job.nodeId b →
    isApplied sub.answer = false ∧
      currentVersion sub.after job.nodeId = currentVersion sub.before job.nodeId

instance (job : UploadJob) : Decidable job.NoOverwrite := inferInstanceAs (Decidable (∀ _ ∈ _, _))

/-- The new version is submitted for the node the content belongs to: the one named, or one that the upload has just
created. -/
def UploadJob.RightNode (job : UploadJob) : Prop :=
  ∀ sub ∈ job.submission, sub.op.nodeId = job.content.getD job.nodeId ∧
    (job.content = none → job.created = true)

instance (job : UploadJob) : Decidable job.RightNode := inferInstanceAs (Decidable (∀ _ ∈ _, _))

/-! ### When it does not -/

/-- A request whose node is in the mirror, live, or is nowhere to be found there; and, if it is
there, the mirror has not pulled a version of it that the request is not based on. -/
def RequestOk (s : Db) (m : Mirror) (req : FpUploadRequest) (nodeId : String) : Prop :=
  (∀ r ∈ m.getNode nodeId, r.deletedAt = none ∧ ∀ b ∈ req.basedOnSeq, ∀ e ∈ s.opLog, e.nodeId = nodeId →
    OpLogRow.isVersion e = true → b < e.serverSeq → r.serverSeq < e.serverSeq) ∧
  (m.getNode nodeId = none → ∀ parent ∈ (resolveParent m req).toOption,
    m.getNodeByParentAndName parent.folderId (some parent.nodeId) req.name = none)

instance (s : Db) (m : Mirror) (req : FpUploadRequest) (nodeId : String) :
    Decidable (RequestOk s m req nodeId) :=
  inferInstanceAs (Decidable ((∀ _ ∈ _, _) ∧ (_ → ∀ _ ∈ _, _)))

/-- The condition on an event: requests as above, and calls of registered devices on existing
folders. -/
def UploadOk (c : UploadConfig) (st : UploadState) : UploadEvent → Prop
  | .call call => st.server.Admits call
  | .request req freshId => RequestOk st.server st.mirror req (req.nodeId.getD freshId) ∧
      ∀ job ∈ (fpUpload st.mirror req freshId).toOption, st.server.Admits (c.call job job.createOp "" 0)
  | _ => True

instance (c : UploadConfig) (st : UploadState) (ev : UploadEvent) : Decidable (UploadOk c st ev) :=
  match ev with
  | .call call => inferInstanceAs (Decidable (st.server.Admits call))
  | .request req freshId => inferInstanceAs (Decidable (RequestOk st.server st.mirror req
      (req.nodeId.getD freshId) ∧ ∀ job ∈ (fpUpload st.mirror req freshId).toOption,
        st.server.Admits (c.call job job.createOp "" 0)))
  | .pull _ _ _ | .resync _ _ | .create _ _ | .upload _ | .submit _ _ _ | .fail => isTrue True.intro

/-! ### The invariant -/

section Invariant

variable {c : UploadConfig} {st st' : UploadState} {job : UploadJob} {s s' : Db}

/-- Every version that the request is not based on is newer than the base of the job. -/
structure BaseSafe (s : Db) (nodeId : String) (requested : Option ℕ) (base : ℕ) : Prop where
  le : base ≤ s.lastSeq
  newer : ∀ b, requested = some b → ∀ e ∈ s.opLog, e.nodeId = nodeId →
    OpLogRow.isVersion e = true → b < e.serverSeq → base < e.serverSeq

/-- What is known of a job in each of its phases: which node it is about, what its base is safe against, and that
nothing was submitted before its time. -/
def UploadJob.Inv (s : Db) (job : UploadJob) : Prop :=
  match job.phase with
  | .queued => job.submission = none ∧
      (job.context.createFirst = true → job.content = none) ∧
      (job.context.createFirst = false → job.content = some job.nodeId ∧
        BaseSafe s job.nodeId job.req.basedOnSeq job.context.basedOnSeq)
  | .based base | .chunked base _ => job.submission = none ∧
      (job.content = some job.nodeId ∨ (job.content = none ∧ job.created = true)) ∧
      BaseSafe s job.nodeId job.req.basedOnSeq base
  | .submitted => job.NoOverwrite ∧ job.RightNode
  | .failed => job.submission = none

structure UploadInv (c : UploadConfig) (st : UploadState) : Prop where
  server : st.server.Consistent
  mirror : st.mirror.Bounded st.server.lastSeq
  job : ∀ job, st.job = some job → job.Inv st.server ∧ ∀ op newId now,
    st.server.Admits (c.call job op newId now)

/-- A committed op is newer than every base there was. -/
theorem BaseSafe.called {nodeId : String} {requested : Option ℕ} {base : ℕ} {be : Backend}
    {call : SubmitCall} (h : BaseSafe s nodeId requested base) (hd : s.SeqsDrawn) (ha : s.Admits call) :
    BaseSafe (serve be call s).1 nodeId requested base := by
  rcases serve_log be hd ha with hr | ⟨deviceId, payload, row, hcommit⟩
  · refine ⟨h.le.trans hr.lastSeq, fun b hb e he => h.newer b hb e ?_⟩
    rwa [hr.opLog] at he
  · have hle := h.le
    refine ⟨by rw [hcommit.lastSeq]; omega, fun b hb e he hn hv hlt => ?_⟩
    rcases hcommit.mem_opLog.mp he with he | rfl
    · exact h.newer b hb e he hn hv hlt
    · show base < s.lastSeq + 1
      omega

theorem UploadJob.Inv.called {be : Backend} {call : SubmitCall} (h : job.Inv s) (hd : s.SeqsDrawn)
    (ha : s.Admits call) : job.Inv (serve be call s).1 := by
  unfold UploadJob.Inv at h ⊢
  split at h
  · exact ⟨h.1, h.2.1, fun hf => ⟨(h.2.2 hf).1, (h.2.2 hf).2.called hd ha⟩⟩
  · exact ⟨h.1, h.2.1, h.2.2.called hd ha⟩
  · exact ⟨h.1, h.2.1, h.2.2.called hd ha⟩
  · exact h
  · exact h

/-- A call of anyone keeps the invariant, for whatever becomes of the job. -/
theorem UploadInv.called {be : Backend} {call : SubmitCall} {job' : Option UploadJob}
    (h : UploadInv c st) (ha : st.server.Admits call)
    (hjob : ∀ job, job' = some job → job.Inv (serve be call st.server).1 ∧
      ∀ op newId now, st.server.Admits (c.call job op newId now)) :
    UploadInv c { st with server := (Server.serve be call st.server).1, job := job' } where
  server := serve_consistent be h.server ha
  mirror := h.mirror.mono (serve_lastSeq be h.server.drawn ha)
  job job hj := ⟨(hjob job hj).1, fun op newId now =>
    ((hjob job hj).2 op newId now).fixed (serve_fixed be h.server.drawn ha)⟩

/-! ### The request -/

/-- What a queued job starts from. -/
theorem fpUpload_ok {m : Mirror} {req : FpUploadRequest} {freshId : String}
    (h : fpUpload m req freshId = .ok job) :
    ∃ parent, resolveParent m req = .ok parent ∧
      job = { req, nodeId := req.nodeId.getD freshId, mirror := m,
              context := { folderId := parent.folderId
                           createFirst := (existingNode m parent req.name (req.nodeId.getD freshId)).isNone
                           basedOnSeq := (((existingNode m parent req.name
                             (req.nodeId.getD freshId)).map LocalNode.serverSeq).or
                               req.basedOnSeq).getD parent.serverSeq
                           parentId := parent.nodeId } } := by
  unfold fpUpload resolveUploadContext at h
  cases hv : validateUploadRequest req with
  | error e =>
    rw [hv] at h
    cases h
  | ok u =>
    rw [hv] at h
    cases hp : resolveParent m req with
    | error e =>
      rw [hp] at h
      cases h
    | ok parent =>
      rw [hp] at h
      cases h
      exact ⟨parent, rfl, rfl⟩

/-- **The request**: a job that meets the condition starts in its invariant. -/
theorem inv_request {m : Mirror} {req : FpUploadRequest} {freshId : String} (hm : m.Bounded s.lastSeq)
    (hok : RequestOk s m req (req.nodeId.getD freshId)) (h : fpUpload m req freshId = .ok job) :
    job.Inv s := by
  obtain ⟨parent, hparent, rfl⟩ := fpUpload_ok h
  refine ⟨rfl, ?_⟩
  cases hr : m.getNode (req.nodeId.getD freshId) with
  | some r =>
    have hlive := hok.1 r hr
    have hexisting : existingNode m parent req.name (req.nodeId.getD freshId) = some r := by
      rw [existingNode, hr]
      rfl
    simp only [hexisting, Option.isNone_some, Option.map_some, Option.some_or, Option.getD_some]
    refine ⟨nofun, fun _ => ⟨?_, hm.getNode hr, hlive.2⟩⟩
    rw [UploadJob.content, contentNode, hr, Option.filter_some, if_pos (by simp [hlive.1])]
    exact congrArg some (lookup_key hr)
  | none =>
    have hname := hok.2 hr parent (by rw [hparent]; rfl)
    have hexisting : existingNode m parent req.name (req.nodeId.getD freshId) = none := by
      rw [existingNode, hr, hname]
      rfl
    simp only [hexisting, Option.isNone_none]
    refine ⟨fun _ => ?_, nofun⟩
    rw [UploadJob.content, contentNode, hr, hname]
    rfl

/-! ### The ops of the job -/

/-- The node a job has created has no version yet. -/
theorem baseSafe_created {call : SubmitCall} {nodeId parentId name : String} {type : NodeType}
    {requested : Option ℕ} {seq : ℕ} {n : String} (hc : s.Consistent)
    (hop : call.op = .create nodeId parentId name type) (h : Served call s s' (.applied seq n)) :
    BaseSafe s' nodeId requested seq := by
  cases h with
  | created deviceId n parentId' name' type' hop' hnew hparent hname hcommit =>
    rw [hop] at hop'
    cases hop'
    refine ⟨by rw [hcommit.lastSeq], fun b hb e he hn hv hlt => ?_⟩
    rcases hcommit.mem_opLog.mp he with he | rfl
    · obtain ⟨r, hr, -⟩ := hc.ops e he
      rw [hn, hnew] at hr
      cases hr
    · cases hv
  | applied deviceId n b m r hop' =>
    rw [hop] at hop'
    cases hop'

/-- **The new version**: applied only when there is no version that its author had not seen. -/
theorem noOverwrite_of_base {be : Backend} {call : SubmitCall} {base : ℕ} {m : Mutation}
    {requested : Option ℕ} {nodeId : String} {b : ℕ} (hc : s.Consistent) (ha : s.Admits call)
    (hop : call.op = .mutate nodeId base m) (hbase : BaseSafe s nodeId requested base)
    (hb : requested = some b) (hnewer : NewerVersion s nodeId b) :
    isApplied (serve be call s).2 = false ∧
      currentVersion (serve be call s).1 nodeId = currentVersion s nodeId := by
  obtain ⟨e, he, hn, hv, hlt⟩ := hnewer
  have hlate := hbase.newer b hb e he hn hv hlt
  have hout := serve_outcome be hc.drawn ha
  rcases hs : serve be call s with ⟨s', err | a⟩
  · rw [hs] at hout
    have hrefused : Refused s s' := hout
    refine ⟨rfl, ?_⟩
    rw [currentVersion, hrefused.node, currentVersion]
  · rw [hs] at hout
    have hserved : Served call s s' a := hout
    cases hserved with
    | created deviceId n parentId name type hop' =>
      rw [hop] at hop'
      cases hop'
    | applied deviceId n b' m' r hop' hr hbr =>
      rw [hop] at hop'
      cases hop'
      obtain ⟨r', hr', hle⟩ := hc.ops e he
      rw [hn, hr] at hr'
      cases hr'
      omega
    | conflictCopy deviceId n b' versionId contentHash sizeBytes manifest r hop' hr hbr hchunks hcommit =>
      rw [hop] at hop'
      cases hop'
      refine ⟨rfl, ?_⟩
      rw [currentVersion, hcommit.node, currentVersion, hr]
      rfl
    | superseded seq hrefused =>
      refine ⟨rfl, ?_⟩
      rw [currentVersion, hrefused.node, currentVersion]

/-- The call of the job and the calls of others have one folder and device: only the op and the
clock change. -/
theorem admits_call {op op' : SubmitOpRequest} {newId newId' : String} {now now' : ℕ}
    (h : s.Admits (c.call job op newId now)) : s.Admits (c.call job op' newId' now') :=
  ⟨h.folder, h.device⟩

theorem UploadInv.step_create {newId : String} {now : ℕ} (h : UploadInv c st) (hj : st.job = some job)
    (hs : st.stepJob c job (.create newId now) = some st') : UploadInv c st' := by
  obtain ⟨hinv, hadm⟩ := h.job job hj
  rw [UploadState.stepJob] at hs
  split at hs
  case h_2 => cases hs
  next hphase =>
  simp only [UploadJob.Inv, hphase] at hinv
  split at hs
  · next hfirst =>
    have hcontent := hinv.2.1 hfirst
    have hout := serve_outcome c.be h.server.drawn (hadm job.createOp newId now)
    cases hs
    refine h.called (hadm job.createOp newId now) fun job' hj' => ?_
    cases hj'
    cases hans : (serve c.be (c.call job job.createOp newId now) st.server).2 with
    | error e => exact ⟨hinv.1, fun op newId now => admits_call (hadm op newId now)⟩
    | ok a =>
      have hserved : Served (c.call job job.createOp newId now) st.server
          (serve c.be (c.call job job.createOp newId now) st.server).1 a := by
        rw [show serve c.be (c.call job job.createOp newId now) st.server = (_, .ok a) from
          Prod.ext rfl hans] at hout
        exact hout
      cases a with
      | applied seq n =>
        exact ⟨⟨hinv.1, .inr ⟨hcontent, rfl⟩, baseSafe_created h.server rfl hserved⟩,
          fun op newId now => admits_call (hadm op newId now)⟩
      | superseded seq => exact ⟨hinv.1, fun op newId now => admits_call (hadm op newId now)⟩
      | conflictCopy seq n versionId =>
        cases hserved with
        | conflictCopy deviceId n b versionId contentHash sizeBytes manifest r hop => cases hop
  · next hfirst =>
    cases hs
    have hlive := hinv.2.2 (Bool.eq_false_iff.mpr hfirst)
    refine ⟨h.server, h.mirror, fun job' hj' => ?_⟩
    cases hj'
    exact ⟨⟨hinv.1, .inl hlive.1, hlive.2⟩, fun op newId now => admits_call (hadm op newId now)⟩

theorem UploadInv.step_upload {manifest : List ChunkRef} (h : UploadInv c st) (hj : st.job = some job)
    (hs : st.stepJob c job (.upload manifest) = some st') : UploadInv c st' := by
  obtain ⟨hinv, hadm⟩ := h.job job hj
  rw [UploadState.stepJob] at hs
  split at hs
  case h_2 => cases hs
  next base hphase =>
  cases hs
  simp only [UploadJob.Inv, hphase] at hinv
  have hnodes : (st.mirror.markAllUploaded manifest).nodes = st.mirror.nodes := by
    rw [Mirror.markAllUploaded]
    generalize st.mirror = m
    induction manifest.map ChunkRef.chunkHash generalizing m with
    | nil => rfl
    | cons hash hashes ih => exact ih (m.markUploaded hash)
  refine ⟨h.server, fun r hr => h.mirror r (hnodes ▸ hr), fun job' hj' => ?_⟩
  cases hj'
  exact ⟨hinv, fun op newId now => admits_call (hadm op newId now)⟩

theorem UploadInv.step_submit {versionId newId : String} {now : ℕ} (h : UploadInv c st)
    (hj : st.job = some job) (hs : st.stepJob c job (.submit versionId newId now) = some st') :
    UploadInv c st' := by
  obtain ⟨hinv, hadm⟩ := h.job job hj
  rw [UploadState.stepJob] at hs
  split at hs
  case h_2 => cases hs
  next base manifest hphase =>
  cases hs
  simp only [UploadJob.Inv, hphase] at hinv
  have hcall := hadm (job.versionOp c base versionId manifest) newId now
  refine h.called hcall fun job' hj' => ?_
  cases hj'
  refine ⟨⟨?_, ?_⟩, fun op newId now => admits_call (hadm op newId now)⟩
  · intro sub hsub b hb hnewer
    cases hsub
    exact noOverwrite_of_base h.server hcall rfl hinv.2.2 hb hnewer
  · intro sub hsub
    cases hsub
    rcases hinv.2.1 with hcontent | ⟨hcontent, hcreated⟩
    · have hsome : (some job.nodeId).getD job.nodeId = job.nodeId := rfl
      exact ⟨(congrArg (Option.getD · job.nodeId) hcontent).trans hsome |>.symm,
        fun hnone => absurd (hcontent.symm.trans hnone) nofun⟩
    · exact ⟨(congrArg (Option.getD · job.nodeId) hcontent).symm, fun _ => hcreated⟩

theorem UploadInv.step_fail (h : UploadInv c st) (hj : st.job = some job)
    (hs : st.stepJob c job .fail = some st') : UploadInv c st' := by
  obtain ⟨hinv, hadm⟩ := h.job job hj
  have hnone (hphase : job.phase ≠ .submitted) : job.submission = none := by
    unfold UploadJob.Inv at hinv
    split at hinv
    · exact hinv.1
    · exact hinv.1
    · exact hinv.1
    · next hsubmitted => exact absurd hsubmitted hphase
    · exact hinv
  rw [UploadState.stepJob] at hs
  split at hs
  · cases hs
  next hphase =>
  cases hs
  refine ⟨h.server, h.mirror, fun job' hj' => ?_⟩
  cases hj'
  exact ⟨hnone hphase, fun op newId now => admits_call (hadm op newId now)⟩

/-- **One step**, of the job, of a pull or of anyone else. -/
theorem UploadInv.step {ev : UploadEvent} (h : UploadInv c st) (hok : UploadOk c st ev)
    (hs : st.step c ev = some st') : UploadInv c st' := by
  cases ev with
  | call call =>
    cases hs
    exact h.called hok fun job hj =>
      ⟨(h.job job hj).1.called h.server.drawn hok, (h.job job hj).2⟩
  | pull folderId scopeNodeId now =>
    cases hs
    exact ⟨h.server, bounded_pullPage h.mirror h.server.drawn, h.job⟩
  | resync folderId scopeNodeId =>
    cases hs
    exact ⟨h.server, bounded_treeResync h.mirror h.server, h.job⟩
  | request req freshId =>
    rw [UploadState.step] at hs
    split at hs
    · cases hs
    split at hs
    · next job hjob =>
      cases hs
      refine ⟨h.server, h.mirror, fun job' hj' => ?_⟩
      cases hj'
      have hadm := hok.2 job (by rw [hjob]; rfl)
      exact ⟨inv_request h.mirror hok.1 hjob, fun op newId now => admits_call hadm⟩
    · cases hs
  | create newId now =>
    obtain ⟨job, hj, hs⟩ := Option.bind_eq_some_iff.mp hs
    exact h.step_create hj hs
  | upload manifest =>
    obtain ⟨job, hj, hs⟩ := Option.bind_eq_some_iff.mp hs
    exact h.step_upload hj hs
  | submit versionId newId now =>
    obtain ⟨job, hj, hs⟩ := Option.bind_eq_some_iff.mp hs
    exact h.step_submit hj hs
  | fail =>
    obtain ⟨job, hj, hs⟩ := Option.bind_eq_some_iff.mp hs
    exact h.step_fail hj hs

theorem UploadJob.Inv.safe (h : job.Inv s) : job.NoOverwrite ∧ job.RightNode := by
  have hnone (hsub : job.submission = none) : job.NoOverwrite ∧ job.RightNode := by
    constructor
    · intro sub h'
      rw [hsub] at h'
      cases h'
    · intro sub h'
      rw [hsub] at h'
      cases h'
  unfold UploadJob.Inv at h
  split at h
  · exact hnone h.1
  · exact hnone h.1
  · exact hnone h.1
  · exact h
  · exact hnone h

end Invariant

/-- **Uploads are safe.**  From any mirror that is not ahead of the server, in every order of
pulls, calls of other devices and steps of the job, when the request meets its condition: the
new version is not applied and does not become current once a version was committed that the
request is not based on, and it is submitted for the node its content belongs to. -/
theorem fpUpload_safe (c : UploadConfig) (st : UploadState) (hserver : st.server.Consistent)
    (hmirror : st.mirror.Bounded st.server.lastSeq) (hidle : st.job = none) (evs : List UploadEvent)
    (hok : Run.Along (UploadState.step c) (UploadOk c) st evs) :
    ∀ job ∈ (Run.run (UploadState.step c) st evs).job, job.NoOverwrite ∧ job.RightNode := by
  intro job hjob
  have hstart : UploadInv c st := ⟨hserver, hmirror, fun job hj => by rw [hidle] at hj; cases hj⟩
  have hinv := Run.run_invariant (I := UploadInv c)
    (fun _ _ _ h hok hs => UploadInv.step h hok hs) hstart hok
  exact (hinv.job job hjob).1.safe

/-! ### Three uploads -/

/-- `raceDb`, served on Postgres, and the mirror of a device that has pulled all of it. -/
def uploadConfig : UploadConfig := { be := .pg, deviceId := "d", manifestContentHash := fun _ => "h" }

def uploadStart : UploadState where
  server := raceDb
  mirror :=
    { mounts := [{ folderId := "f" }]
      nodes :=
        [{ nodeId := "root", folderId := "f", parentId := none, name := "", nodeType := .folder,
           serverSeq := 0 },
         { nodeId := "n", folderId := "f", parentId := some "root", name := "a.txt", nodeType := .file,
           serverSeq := 0 }] }

/-- The steps of a job, after a request for the file or for a new one. -/
def uploadRun (nodeId : Option String) (basedOnSeq : ℕ) : List UploadEvent :=
  [.request { nodeId, parentId := "root", name := "a.txt", basedOnSeq := some basedOnSeq } "fresh",
   .create "x" 0, .upload [], .submit "v2" "copy" 0]

/-- Another device commits `v1` while the job is under way. -/
def uploadMeanwhile : List UploadEvent :=
  (uploadRun (some "n") 0).take 3 ++ .call (raceCall "v1") :: (uploadRun (some "n") 0).drop 3

/-- The upload that was under way becomes a conflict copy. -/
theorem fpUpload_safe_meanwhile :
    ∃ job, (Run.run (UploadState.step uploadConfig) uploadStart uploadMeanwhile).job = some job ∧
      job.NoOverwrite ∧ job.RightNode := by
  have hsome : (Run.run (UploadState.step uploadConfig) uploadStart uploadMeanwhile).job.isSome := by
    decide +kernel
  obtain ⟨job, hjob⟩ := Option.isSome_iff_exists.mp hsome
  have hbounded : uploadStart.mirror.Bounded uploadStart.server.lastSeq := by
    rw [Mirror.Bounded]
    decide
  have hsafe := fpUpload_safe uploadConfig uploadStart raceDb_consistent hbounded rfl uploadMeanwhile
    (by decide +kernel)
  exact ⟨job, hjob, hsafe job hjob⟩

/-- Another device commits `v1` and the mirror pulls it before a request that is based on the
version before. -/
def uploadStale : List UploadEvent :=
  [.call (raceCall "v1"), .pull "f" "root" 0] ++ uploadRun (some "n") 0

/-- The stale request takes the base of the fresh mirror: its version is applied over `v1`.  And
a new file whose name is taken is uploaded under the new id, which no node has. -/
theorem fpUpload_overwrites :
    (¬ ∀ job ∈ (Run.run (UploadState.step uploadConfig) uploadStart uploadStale).job, job.NoOverwrite) ∧
    ¬ ∀ job ∈ (Run.run (UploadState.step uploadConfig) uploadStart (uploadRun none 0)).job,
      job.RightNode :=
  ⟨by decide +kernel, by decide +kernel⟩

end Valv.Client
