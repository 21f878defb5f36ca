import Valv.Client.Converge
import Valv.Client.Upload

/-!
# File Provider moves

`fp_move` of `valvd/src/fp.rs`: a row is read, one or two requests are made without the sync lock, and the row is
written back whole after each of them, while others pull, submit and record.

* `FpState.step`: the calls, with the server and the mirror of `Converge`.
* `Forward`, `FpState.Converged`: what is asked for.
* `FpOk`: the condition on a step.
* `FpInv.step`: a step.
* `fp_move_forward`, `fp_move_rolls_back`: every run.
-/

namespace Valv.Client

open Valv.Conc Valv.Table Valv.Text Valv.Server Valv.Replica

/-! ### A call -/

/-- `FpMoveRequest`: a node, with the parent and the name that it is to have. -/
structure FpMoveRequest where
  nodeId : String
  basedOnSeq : ℕ
  newName : Option String
  newParentId : Option String
  deriving DecidableEq, Repr

/-- What `fp_move` answers instead; a conflict has the number that its body has next to `error`. -/
inductive MoveError where
  | daemon (e : DaemonError)
  | conflict (error : String) (seq : Option (String × ℕ))
  /-- The call is dropped, or a request of it fails on its way. -/
  | dropped
  deriving DecidableEq

/-- `validate_move_request`. -/
def validateMoveRequest (req : FpMoveRequest) : Except DaemonError Unit :=
  if isBlank req.nodeId then .error (.badRequest "node_id is required")
  else if req.newName.isNone && req.newParentId.isNone then
    .error (.badRequest "new_name or new_parent_id is required")
  else if req.newName.any fun n => n = "" then .error (.badRequest "new_name cannot be empty")
  else if req.newParentId.any fun p => p = "" then .error (.badRequest "new_parent_id cannot be empty")
  else .ok ()

/-- `applied_server_seq`. -/
def appliedServerSeq : Except ApiError SubmitOpResponse → Except MoveError ℕ
  | .error e => .error (.daemon (.backend e))
  | .ok (.applied serverSeq _) => .ok serverSeq
  | .ok (.superseded currentSeq) => .error (.conflict "superseded" (some ("current_seq", currentSeq)))
  | .ok (.conflictCopy serverSeq _ _) => .error (.conflict "conflict_copy" (some ("server_seq", serverSeq)))

/-- Where a call is. -/
inductive MoveStage where
  /-- The request is to be made. -/
  | submitting (mutation : Mutation)
  /-- Its answer is there, and not recorded. -/
  | answered (mutation : Mutation) (answer : Except ApiError SubmitOpResponse)
  /-- The folder of the new parent is to be looked at. -/
  | checking (newParentId : String)
  | returned (result : Except MoveError ℕ)
  /-- `applied_seq.expect`. -/
  | panicked
  deriving DecidableEq

/-- `updated_node`, `based_on_seq` and `applied_seq` of a call. -/
structure MoveCall where
  req : FpMoveRequest
  row : LocalNode
  basedOnSeq : ℕ
  appliedSeq : Option ℕ := none
  stage : MoveStage
  deriving DecidableEq

namespace MoveCall

variable (a : MoveCall)

def returned : Bool :=
  match a.stage with
  | .returned _ => true
  | .panicked => true
  | _ => false

/-- After the move, or where there is none. -/
def finish : MoveCall := { a with stage := a.appliedSeq.elim .panicked fun seq => .returned (.ok seq) }

/-- After the rename, or where there is none. -/
def toMove : MoveCall :=
  match a.req.newParentId with
  | some newParentId => { a with stage := .checking newParentId }
  | none => a.finish

/-- The request of a mutation. -/
def op (mutation : Mutation) : SubmitOpRequest := .mutate a.req.nodeId a.basedOnSeq mutation

/-- An answer with the row as it will be written. -/
def reply (mutation : Mutation) (answer : Except ApiError SubmitOpResponse) : Reply :=
  { op := a.op mutation, row := submittedRow (a.op mutation) (some a.row) answer, answer }

/-- The mutation that is to be submitted. -/
def submitting : Option Mutation :=
  match a.stage with
  | .submitting mutation => some mutation
  | _ => none

/-- The mutation that is under way. -/
def mutation : Option Mutation :=
  match a.stage with
  | .submitting mutation => some mutation
  | .answered mutation _ => some mutation
  | _ => none

/-- The answer that is not recorded yet. -/
def pending : Option Reply :=
  match a.stage with
  | .answered mutation answer => some (a.reply mutation answer)
  | _ => none

/-- After an answer: the row and the numbers take it, and the call goes on. -/
def record (mutation : Mutation) (answer : Except ApiError SubmitOpResponse) : MoveCall :=
  match appliedServerSeq answer with
  | .error e => { a with stage := .returned (.error e) }
  | .ok serverSeq =>
    let a' := { a with row := a.row.submitted mutation serverSeq, basedOnSeq := serverSeq, appliedSeq := some serverSeq }
    match mutation with
    | .rename _ => a'.toMove
    | _ => a'.finish

/-- The check of the new parent. -/
def check (m : Mirror) (newParentId : String) : MoveCall :=
  if (m.getNode newParentId).any fun parent => parent.folderId ≠ a.row.folderId then
    { a with stage := .returned (.error (.conflict "cross_folder_move_rejected" none)) }
  else { a with stage := .submitting (.move newParentId) }

end MoveCall

/-- What follows once the row is read. -/
def MoveCall.begin (req : FpMoveRequest) (row : LocalNode) : MoveCall :=
  let a : MoveCall := { req, row, basedOnSeq := req.basedOnSeq, stage := .panicked }
  match req.newName with
  | some newName => { a with stage := .submitting (.rename newName) }
  | none => a.toMove

/-- The first lock of the database; `token` is the credential of a mount. -/
def beginMove (m : Mirror) (token : LocalMount → Option String) (req : FpMoveRequest) : Except DaemonError MoveCall :=
  (validateMoveRequest req).bind fun _ =>
    match m.getNode req.nodeId with
    | none => .error (.notFound "node_not_found")
    | some row =>
      (resolveMountForFolderId m row.folderId).bind fun mount =>
        (token mount).elim (.error (.badRequest "mount_has_no_credential")) fun _ => .ok (.begin req row)

/-! ### Steps -/

/-- The server, the mirror, what others hold in memory, and the calls. -/
structure FpState where
  sync : SyncState
  moves : List MoveCall := []

inductive MoveEvent where
  /-- The folder of the new parent is looked at. -/
  | checked
  /-- A request is answered; `call` is what else the server sees of it. -/
  | submitted (call : SubmitCall)
  | recorded (now : ℕ)
  | dropped

inductive FpEvent where
  /-- Pulls, the watcher, uploads, and other devices. -/
  | sync (ev : SyncEvent)
  | began (req : FpMoveRequest) (token : LocalMount → Option String)
  | move (i : ℕ) (ev : MoveEvent)

/-- The call of a request. -/
def MoveCall.submitCall (a : MoveCall) (mutation : Mutation) (call : SubmitCall) : SubmitCall :=
  { call with folderId := a.row.folderId, op := a.op mutation }

namespace FpState

variable (c : SyncConfig) (st : FpState)

/-- A call for another mount is left out, as is one about a node of another folder. -/
def begin (req : FpMoveRequest) (token : LocalMount → Option String) : Option FpState :=
  match beginMove st.sync.mirror token req with
  | .error _ => some st
  | .ok a =>
    if a.row.folderId = c.folderId ∧ ∀ r ∈ st.sync.server.node a.row.nodeId, r.folderId = c.folderId then
      some { st with moves := st.moves ++ [a] }
    else none

def stepMove (i : ℕ) (a : MoveCall) : MoveEvent → Option FpState
  | .checked =>
    match a.stage with
    | .checking newParentId => some { st with moves := st.moves.set i (a.check st.sync.mirror newParentId) }
    | _ => none
  | .submitted call =>
    match a.stage with
    | .submitting mutation =>
      let served := serve c.be (a.submitCall mutation call) st.sync.server
      some
        { st with
          sync := { st.sync with server := served.1 }
          moves := st.moves.set i { a with stage := .answered mutation served.2 } }
    | _ => none
  | .recorded now =>
    match a.stage with
    | .answered mutation answer =>
      some
        { st with
          sync := { st.sync with mirror := st.sync.mirror.record c.folderId now (a.reply mutation answer) }
          moves := st.moves.set i (a.record mutation answer) }
    | _ => none
  | .dropped =>
    if a.returned then none
    else some { st with moves := st.moves.set i { a with stage := .returned (.error .dropped) } }

def step : FpEvent → Option FpState
  | .sync ev => (st.sync.step c ev).map fun sync => { st with sync }
  | .began req token => st.begin c req token
  | .move i ev => st.moves[i]?.bind fun a => st.stepMove c i a ev

end FpState

/-! ### What is asked for -/

def Field.all : List Field := [.parentId, .name, .deleted, .currentVersionId]

instance (f : Field) : DecidableEq f.Value :=
  match f with
  | .parentId => inferInstanceAs (DecidableEq (Option String))
  | .name => inferInstanceAs (DecidableEq String)
  | .deleted => inferInstanceAs (DecidableEq Bool)
  | .currentVersionId => inferInstanceAs (DecidableEq (Option String))

/-- A write lowers no `server_seq` and takes back nothing that an op has put into the row: a column that it changes
has the value of a later op. -/
def Forward (log : List OpLogRow) (x x' : LocalNode) : Prop :=
  x.serverSeq ≤ x'.serverSeq ∧ ∀ f ∈ Field.all, ∀ e ∈ log, e.nodeId = x.nodeId → e.serverSeq ≤ x.serverSeq →
    entryWrites e f = some ((mirrorCopy x).value f) → (mirrorCopy x').value f = (mirrorCopy x).value f ∨
      ∃ e' ∈ log, e'.nodeId = x.nodeId ∧ e.serverSeq < e'.serverSeq ∧
        entryWrites e' f = some ((mirrorCopy x').value f)

instance (log : List OpLogRow) (x x' : LocalNode) : Decidable (Forward log x x') :=
  inferInstanceAs (Decidable (_ ∧ ∀ _ ∈ _, ∀ _ ∈ _, _ → _ → _ → _))

namespace FpState

variable (c : SyncConfig) (st : FpState)

/-- The write of a call, if the event is one. -/
def WritesForward : FpEvent → Prop
  | .move i (.recorded now) => ∀ a ∈ st.moves[i]?, ∀ st' ∈ st.step c (.move i (.recorded now)),
      ∀ x ∈ st.sync.mirror.getNode a.req.nodeId, ∀ x' ∈ st'.sync.mirror.getNode a.req.nodeId,
        Forward st.sync.server.opLog x x'
  | _ => True

instance (ev : FpEvent) : Decidable (st.WritesForward c ev) :=
  match ev with
  | .move _ (.recorded _) => inferInstanceAs (Decidable (∀ _ ∈ _, ∀ _ ∈ _, ∀ _ ∈ _, ∀ _ ∈ _, _))
  | .move _ .checked | .move _ (.submitted _) | .move _ .dropped | .sync _ | .began _ _ => isTrue trivial

/-- Once all calls have returned, nothing is outstanding and the cursor is at the head, the rows are the server's.
-/
def Converged : Prop := (∀ a ∈ st.moves, a.returned = true) → st.sync.Converged c

instance : Decidable (st.Converged c) := inferInstanceAs (Decidable (_ → _))

end FpState

/-! ### Conditions -/

/-- No op of the node that is later than the answer has reached the mirror yet. Else recording the answer would put
an older number and older columns over it. -/
def Unpassed (c : SyncConfig) (st : SyncState) (reply : Reply) : Prop :=
  ∀ response ∈ reply.answer.toOption, ∀ seq ∈ committedSeq response, ∀ e ∈ st.server.opLog,
    e.folderId = c.folderId → e.nodeId = reply.op.nodeId → seq < e.serverSeq →
      ∀ x ∈ st.mirror.getNode reply.op.nodeId, x.serverSeq < e.serverSeq

instance (c : SyncConfig) (st : SyncState) (reply : Reply) : Decidable (Unpassed c st reply) :=
  inferInstanceAs (Decidable (∀ _ ∈ _, ∀ _ ∈ _, ∀ _ ∈ _, _ → _ → _ → ∀ _ ∈ _, _))

/-- The answer that the event records. -/
def recordedBy (st : SyncState) : SyncEvent → Option Reply
  | .record i _ => st.outstanding[i]?
  | _ => none

namespace FpState

variable (c : SyncConfig) (st : FpState)

/-- The condition on a step of a call: an applied request is of a row that misses nothing but what it writes, and its
answer is recorded before any later op of the node reaches the mirror. -/
def MoveOk (a : MoveCall) : MoveEvent → Prop
  | .submitted call => ∀ mutation ∈ a.submitting,
      st.sync.server.Admits (a.submitCall mutation call) ∧
        (isApplied (serve c.be (a.submitCall mutation call) st.sync.server).2 = true →
          Overwritten st.sync.server c.folderId a.req.nodeId (fields (mutation.logged "" false)) a.row.serverSeq
            (st.sync.server.lastSeq + 1))
  | .recorded _ => ∀ reply ∈ a.pending, RecordOk c st.sync reply ∧ Unpassed c st.sync reply
  | .checked | .dropped => True

instance (a : MoveCall) (ev : MoveEvent) : Decidable (st.MoveOk c a ev) :=
  match ev with
  | .submitted _ => inferInstanceAs (Decidable (∀ _ ∈ _, _ ∧ (_ → _)))
  | .recorded _ => inferInstanceAs (Decidable (∀ _ ∈ _, _ ∧ _))
  | .checked | .dropped => isTrue trivial

/-- The condition on a step; the answers of others are recorded in time, too. -/
def FpOk : FpEvent → Prop
  | .sync ev => SyncOk c st.sync ev ∧ ∀ reply ∈ recordedBy st.sync ev, Unpassed c st.sync reply
  | .began _ _ => True
  | .move i ev => ∀ a ∈ st.moves[i]?, st.MoveOk c a ev

instance (ev : FpEvent) : Decidable (st.FpOk c ev) :=
  match ev with
  | .sync _ => inferInstanceAs (Decidable (_ ∧ ∀ _ ∈ _, _))
  | .began _ _ => isTrue trivial
  | .move _ _ => inferInstanceAs (Decidable (∀ _ ∈ _, _))

end FpState

/-! ### Rows as of their number -/

/-- What the replay of a node's ops since the snapshot starts from. -/
def firstCopy (s₀ : Db) (n : String) : Copy Field.Value :=
  ((s₀.node n).map serverCopy).getD ⟨0, columns none "" false none⟩

/-- The copy of a node is what the ops since the snapshot, up to the copy's own number, have made of the node. -/
def CopyAsOf (s₀ : Db) (log : List OpLogRow) (n : String) (z : Copy Field.Value) : Prop :=
  AsOf entrySeq entryWrites (firstCopy s₀ n) (opsOf log n) z

/-- The rows of the mirror and in memory are as of their numbers. -/
structure RowsInv (c : SyncConfig) (s₀ : Db) (log : List OpLogRow) (st : SyncState) : Prop where
  fresh : ∀ e ∈ log, s₀.lastSeq < e.serverSeq
  lastSeq : s₀.lastSeq ≤ st.server.lastSeq
  mirror : ∀ n, InFolder c.folderId st.server n → ∀ z, st.mirror.copy n = some z → CopyAsOf s₀ log n z
  held : ∀ x ∈ st.held, InFolder c.folderId st.server x.nodeId → CopyAsOf s₀ log x.nodeId (mirrorCopy x)
  outstanding : ∀ reply ∈ st.outstanding, ∀ x q n, reply.row = some x → reply.answer = .ok (.applied q n) →
    InFolder c.folderId st.server x.nodeId → CopyAsOf s₀ log x.nodeId (mirrorCopy x)

section Rows

variable {c : SyncConfig} {s₀ s' : Db} {log log' : List OpLogRow} {st : SyncState} {e : OpLogRow} {x x' : LocalNode}
  {n : String} {z : Copy Field.Value}

/-- A node of the folder stays one. -/
theorem LogStep.inFolder_iff (hstep : LogStep c.folderId log log' st.server s') :
    InFolder c.folderId s' n ↔ InFolder c.folderId st.server n := by
  rcases hstep with ⟨-, hrefused⟩ | ⟨e, -, happ, hfolder⟩
  · rw [InFolder, InFolder, hrefused.node n]
  · constructor
    · exact happ.inFolder
    · intro hin r hr
      by_cases hne : n = e.nodeId
      · subst hne
        rcases happ.row with ⟨r₁, r', hr₁, hr', hkept, -⟩ | ⟨-, -, r', hr', hnew, -⟩
        · rw [hr'] at hr
          cases hr
          exact hkept.trans (hin r₁ hr₁)
        · rw [hr'] at hr
          cases hr
          exact hnew.trans hfolder
      · exact hin r ((happ.other n hne).symm.trans hr)

/-- What is exact is below the next op. -/
theorem SyncInv.seq_lt (h : SyncInv c s₀ log st) (hx : RowExact st.server log x) :
    x.serverSeq < st.server.lastSeq + 1 := by
  obtain ⟨r, hr, hexact⟩ := hx
  have hle : x.serverSeq ≤ r.serverSeq := hexact.seq_le (h.le_row hr)
  have hrow := h.server.rows _ r hr
  omega

/-- A commit leaves the copy as of its number. -/
theorem CopyAsOf.step (hz : CopyAsOf s₀ log n z) (hstep : LogStep c.folderId log log' st.server s')
    (hlt : z.seq < st.server.lastSeq + 1) : CopyAsOf s₀ log' n z := by
  rcases hstep with ⟨rfl, -⟩ | ⟨e, rfl, happ, -⟩
  · exact hz
  · rw [← happ.seq] at hlt
    by_cases hne : n = e.nodeId
    · subst hne
      rw [CopyAsOf, opsOf_concat_self]
      exact AsOf.extend hz hlt
    · rw [CopyAsOf, opsOf_concat_ne hne]
      exact hz

/-- **A call** of any device. -/
theorem RowsInv.call (hr : RowsInv c s₀ log st) (h : SyncInv c s₀ log st)
    (hstep : LogStep c.folderId log log' st.server s') : RowsInv c s₀ log' { st with server := s' } where
  fresh e he := by
    rcases hstep with ⟨rfl, -⟩ | ⟨e', rfl, happ, -⟩
    · exact hr.fresh e he
    · rcases List.mem_append.mp he with he | he
      · exact hr.fresh e he
      · have hseq := happ.seq
        have hle := hr.lastSeq
        rw [List.mem_singleton.mp he]
        omega
  lastSeq := by
    have hle := hr.lastSeq
    show s₀.lastSeq ≤ s'.lastSeq
    rcases hstep with ⟨-, hrefused⟩ | ⟨e', -, happ, -⟩
    · exact hle.trans hrefused.lastSeq
    · have hlast := happ.lastSeq
      omega
  mirror n hin z hz := by
    have hin' := (LogStep.inFolder_iff hstep).mp hin
    obtain ⟨x, hx, rfl⟩ := Option.map_eq_some_iff.mp hz
    exact (hr.mirror n hin' _ hz).step hstep (h.seq_lt (h.rowExact hx hin'))
  held x hx hin := by
    have hin' := (LogStep.inFolder_iff hstep).mp hin
    exact (hr.held x hx hin').step hstep (h.seq_lt (h.held x hx hin'))
  outstanding reply hreply x q n hx hans hin := by
    have hin' := (LogStep.inFolder_iff hstep).mp hin
    have hinv := h.outstanding reply hreply
    have hexact := (hinv.row x q n hx hans (hinv.rowNode x hx ▸ hin')).1
    exact (hr.outstanding reply hreply x q n hx hans hin').step hstep (h.seq_lt hexact)

/-- A row that has taken an op. -/
theorem CopyAsOf.taken (hz : CopyAsOf s₀ log x.nodeId (mirrorCopy x)) (hasc : Ascending entrySeq log)
    (ht : Taken log e x x') (hle : x.serverSeq ≤ e.serverSeq) : CopyAsOf s₀ log x'.nodeId (mirrorCopy x') := by
  rw [CopyAsOf, ht.node, ht.put]
  exact AsOf.put hz (ascending_opsOf hasc _) ht.mem hle ht.covers

theorem firstCopy_seq_le (hs : s₀.Consistent) (n : String) : (firstCopy s₀ n).seq ≤ s₀.lastSeq := by
  rw [firstCopy]
  cases hr : s₀.node n with
  | none => exact Nat.zero_le _
  | some r => exact hs.rows n r hr

/-- No later op of the node has reached the mirror: the row is not past the answer. -/
theorem RowsInv.seq_le (hr : RowsInv c s₀ log st) (h : SyncInv c s₀ log st) (hs : s₀.Consistent) {reply : Reply}
    {response : SubmitOpResponse} {q : ℕ} (hmem : reply ∈ st.outstanding) (hun : Unpassed c st reply)
    (hans : reply.answer = .ok response) (hq : committedSeq response = some q)
    (hx : st.mirror.getNode reply.op.nodeId = some x) (hin : InFolder c.folderId st.server reply.op.nodeId) :
    x.serverSeq ≤ q := by
  by_contra hgt
  obtain ⟨e, he, -, rfl, -⟩ := (h.outstanding reply hmem).logged response q hans hq
  have hfresh := hr.fresh e he
  have hfirst := firstCopy_seq_le hs reply.op.nodeId
  have hcopy : st.mirror.copy reply.op.nodeId = some (mirrorCopy x) := by rw [Mirror.copy, hx]; rfl
  rcases AsOf.seq_cases (hr.mirror _ hin _ hcopy) with hseq | ⟨a, ha, hseq⟩
  · have hx' : x.serverSeq = (firstCopy s₀ reply.op.nodeId).seq := hseq
    omega
  · have hx' : a.serverSeq = x.serverSeq := hseq
    obtain ⟨hlog, hn⟩ := mem_opsOf.mp ha
    have hlt := hun response (by rw [hans]; rfl) e.serverSeq hq a (h.opLog ▸ List.mem_append_right _ hlog)
      (h.folder a hlog) hn (by omega) x hx
    omega

/-- What an answer leaves in the row of its node is as of its number. -/
theorem RowsInv.record_copy (hr : RowsInv c s₀ log st) (h : SyncInv c s₀ log st) (hs : s₀.Consistent)
    {reply : Reply} {now : ℕ} (hmem : reply ∈ st.outstanding) (hok : RecordOk c st reply)
    (hun : Unpassed c st reply) (hin : InFolder c.folderId st.server reply.op.nodeId)
    (hz : (st.mirror.record c.folderId now reply).copy reply.op.nodeId = some z) :
    CopyAsOf s₀ log reply.op.nodeId z := by
  have hreply := h.outstanding reply hmem
  have hasc := ascending_opsOf h.ascending reply.op.nodeId
  cases hop : updatesRow reply.op with
  | true =>
    rcases copy_record_update (m := st.mirror) c.folderId now hop with hsame | ⟨a, q, hans, hq, hput⟩
    · exact hr.mirror _ hin z (hsame ▸ hz)
    obtain ⟨e, he, hen, rfl, hpayload⟩ := hreply.logged a q hans hq
    rw [hput e rfl hpayload] at hz
    obtain ⟨y, hy, rfl⟩ := Option.map_eq_some_iff.mp hz
    obtain ⟨x, hx, rfl⟩ := Option.map_eq_some_iff.mp hy
    have hle : x.serverSeq ≤ e.serverSeq := hr.seq_le h hs hmem hun hans hq hx hin
    have hover := (hok a (by rw [hans]; rfl) e.serverSeq hq).2 hop x hx
    have hcov : Covers entrySeq entryWrites (opsOf log reply.op.nodeId) e (mirrorCopy x) := by
      refine covers_of_overwritten h.folder (fun b hb _ => h.opLog ▸ List.mem_append_right _ hb) hover fun f hf => ?_
      refine (writes_isSome e.payload f).mpr ?_
      rwa [hpayload]
    exact AsOf.put (hr.mirror _ hin _ hy) hasc (mem_opsOf.mpr ⟨he, hen⟩) hle hcov
  | false =>
    rcases copy_record_row (m := st.mirror) c.folderId now hop hreply.node hreply.rowNode with hsame | ⟨q, hans, hwhole⟩
    · exact hr.mirror _ hin z (hsame ▸ hz)
    obtain ⟨e, he, hen, rfl, hpayload⟩ := hreply.logged _ q hans rfl
    rcases hwhole with ⟨n, parentId, name, type, hcreate, hcopy⟩ | ⟨x, hx, hcopy⟩
    · rw [hcreate] at hpayload
      have hpayload' : e.payload = .create n parentId name type := hpayload
      have hfull : Full entryWrites e := by
        intro f
        rw [entryWrites, hpayload']
        rfl
      rw [hcopy, ← hen, mirrorCopy_created _ hpayload' (firstCopy s₀ e.nodeId)] at hz
      cases hz
      rw [← hen]
      exact AsOf.full (hen ▸ hasc) (mem_opsOf.mpr ⟨he, rfl⟩) hfull _
    · rw [hcopy] at hz
      cases hz
      have hnode := hreply.rowNode x hx
      rw [← hnode] at hin ⊢
      exact hr.outstanding reply hmem x _ _ hx hans hin

/-- **A recorded answer**, if no later op of its node has reached the mirror. -/
theorem RowsInv.record (hr : RowsInv c s₀ log st) (h : SyncInv c s₀ log st) (hs : s₀.Consistent) {reply : Reply}
    (now : ℕ) (hmem : reply ∈ st.outstanding) (hok : RecordOk c st reply) (hun : Unpassed c st reply) :
    RowsInv c s₀ log { st with mirror := st.mirror.record c.folderId now reply } := by
  refine { hr with mirror := fun n hin z hz => ?_ }
  by_cases hne : n = reply.op.nodeId
  · subst hne
    exact hr.record_copy h hs hmem hok hun hin hz
  · have hreply := h.outstanding reply hmem
    rw [copy_record_ne hne hreply.rowNode hreply.node] at hz
    exact hr.mirror n hin z hz

/-- **A page.** -/
theorem RowsInv.pull (hr : RowsInv c s₀ log st) (h : SyncInv c s₀ log st) (hok : PullOk c st) (now : ℕ) :
    RowsInv c s₀ log { st with mirror := (st.mirror.pullPage now st.server c.folderId c.root).1 } := by
  set cursor := st.mirror.getCursor c.folderId with hcursor
  set above := log.filter fun a => cursor < entrySeq a with habove
  have hrows := h.deltaRows hok
  -- each op of the page finds the row of its node as of its number
  have hstep : ∀ k (m m' : Mirror) (e : OpLogRow),
      (Kept c.folderId st.server log k m ∧ ∀ n, InFolder c.folderId st.server n → ∀ z, m.copy n = some z →
        CopyAsOf s₀ log n z) → e ∈ log → (∀ a ∈ log, k < entrySeq a → entrySeq e ≤ entrySeq a) →
      m.applyOpLogEntry now e.entry = .ok m' →
      Kept c.folderId st.server log (entrySeq e) m' ∧ ∀ n, InFolder c.folderId st.server n → ∀ z,
        m'.copy n = some z → CopyAsOf s₀ log n z := by
    rintro k m m' e ⟨hkept, hcopies⟩ he hnext hm
    refine ⟨hkept.deliver h.ascending h.grown he hnext hm, fun n hin z hz => ?_⟩
    by_cases hne : n = e.nodeId
    · subst hne
      have hasc := ascending_opsOf h.ascending e.nodeId
      have he' : e ∈ opsOf log e.nodeId := mem_opsOf.mpr ⟨he, rfl⟩
      cases hc : isCreate e.entry with
      | true =>
        rw [copy_applyOpLogEntry_create hc hm (firstCopy s₀ e.nodeId)] at hz
        cases hz
        exact AsOf.full hasc he' ((full_iff e).mpr hc) _
      | false =>
        rw [copy_applyOpLogEntry hc hm] at hz
        obtain ⟨y, hy, rfl⟩ := Option.map_eq_some_iff.mp hz
        have hyasof := hcopies _ hin y hy
        rw [Copy.receive]
        split
        · exact hyasof
        · next hgt =>
          refine AsOf.put hyasof hasc he' (Nat.le_of_not_le hgt) fun a ha hlow hhigh => ?_
          -- nothing lies between the row and the next op above the cursor
          have hfollows := hkept _ hin
          rw [hy] at hfollows
          obtain ⟨w, hw⟩ := Follows.exists_of_mem hfollows he'
          rw [hw] at hfollows
          have hup := Tracks.upTo hfollows a ha
          have hle := hnext a (mem_opsOf.mp ha).1
          omega
    · have hframe : m'.copy n = m.copy n := by
        rw [Mirror.copy, getNode_applyOpLogEntry_ne hm hne, Mirror.copy]
      rw [hframe] at hz
      exact hcopies n hin z hz
  obtain ⟨k, -, hend, -⟩ := applyOps_rule now hstep ⟨h.kept, hr.mirror⟩ h.ascending
    (List.take_append_drop pageLimit above).symm
  refine { hr with mirror := ?_ }
  show ∀ n, InFolder c.folderId st.server n → ∀ z,
    (st.mirror.pullPage now st.server c.folderId c.root).1.copy n = some z → CopyAsOf s₀ log n z
  rw [Mirror.pullPage, Mirror.applyPage, Client.deltaPage, ← hcursor, hrows]
  split
  · exact hr.mirror
  have hresponse : (deltaResponse (above.take pageLimit) (st.server.folderHeadSeq c.folderId)).ops =
      (above.take pageLimit).map OpLogRow.entry := rfl
  rw [hresponse]
  cases hres : st.mirror.applyOps now ((above.take pageLimit).map OpLogRow.entry) with
  | mk m' result =>
    rw [hres] at hend
    cases result with
    | error err => exact hend.2
    | ok pulled => exact hend.2

/-- The row of an applied request is held. -/
theorem SyncInv.holdReply (h : SyncInv c s₀ log st) {reply : Reply} {q : ℕ} {k : String}
    (hmem : reply ∈ st.outstanding) (hx : reply.row = some x) (hans : reply.answer = .ok (.applied q k)) :
    SyncInv c s₀ log { st with held := st.held ++ [x] } := by
  refine { h with held := fun y hy hin => ?_ }
  rcases List.mem_append.mp hy with hy | hy
  · exact h.held y hy hin
  · have hreply := h.outstanding reply hmem
    rw [List.mem_singleton.mp hy] at hin ⊢
    exact (hreply.row x q k hx hans (hreply.rowNode x hx ▸ hin)).1

theorem RowsInv.holdReply (hr : RowsInv c s₀ log st) {reply : Reply} {q : ℕ} {k : String}
    (hmem : reply ∈ st.outstanding) (hx : reply.row = some x) (hans : reply.answer = .ok (.applied q k)) :
    RowsInv c s₀ log { st with held := st.held ++ [x] } := by
  refine { hr with held := fun y hy hin => ?_ }
  rcases List.mem_append.mp hy with hy | hy
  · exact hr.held y hy hin
  · rw [List.mem_singleton.mp hy] at hin ⊢
    exact hr.outstanding reply hmem x q k hx hans hin

/-- A row of the mirror is read. -/
theorem RowsInv.hold (hr : RowsInv c s₀ log st) (hx : st.mirror.getNode n = some x) :
    RowsInv c s₀ log { st with held := st.held ++ [x] } := by
  refine { hr with held := fun y hy hin => ?_ }
  rcases List.mem_append.mp hy with hy | hy
  · exact hr.held y hy hin
  · rw [List.mem_singleton.mp hy] at hin ⊢
    have hnode : x.nodeId = n := lookup_key hx
    subst hnode
    refine hr.mirror _ hin _ ?_
    rw [Mirror.copy, hx]
    rfl

/-- **A call of the device.** -/
theorem RowsInv.submitRow (hr : RowsInv c s₀ log st) (h : SyncInv c s₀ log st) {row : Option LocalNode}
    {op : SubmitOpRequest} {answer : Except ApiError SubmitOpResponse}
    (hstep : LogStep c.folderId log log' st.server s') (hasc : Ascending entrySeq log')
    (hrow : ∀ x, row = some x → x ∈ st.held)
    (htaken : ∀ x', submittedRow op row answer = some x' →
      ∃ x e, row = some x ∧ e.serverSeq = st.server.lastSeq + 1 ∧ Taken log' e x x') :
    RowsInv c s₀ log' { st with
      server := s'
      held := st.held ++ (submittedRow op row answer).toList
      outstanding := st.outstanding ++ [{ op, row := submittedRow op row answer, answer }] } := by
  have hcall := hr.call h hstep
  have hnew : ∀ x', submittedRow op row answer = some x' → InFolder c.folderId s' x'.nodeId →
      CopyAsOf s₀ log' x'.nodeId (mirrorCopy x') := by
    intro x' hsub hin
    obtain ⟨x, e, hx, hseq, ht⟩ := htaken x' hsub
    have hin' : InFolder c.folderId s' x.nodeId := ht.node ▸ hin
    have hold := (LogStep.inFolder_iff hstep).mp hin'
    have hlt := h.seq_lt (h.held x (hrow x hx) hold)
    exact (hcall.held x (hrow x hx) hin').taken hasc ht (by omega)
  refine { hcall with held := fun y hy hin => ?_, outstanding := fun reply hmem => ?_ }
  · rcases List.mem_append.mp hy with hy | hy
    · exact hcall.held y hy hin
    · exact hnew y (Option.mem_toList.mp hy) hin
  · rcases List.mem_append.mp hmem with hmem | hmem
    · exact hcall.outstanding reply hmem
    · rw [List.mem_singleton.mp hmem]
      exact fun x' _ _ hsub _ hin => hnew x' hsub hin

/-- **The snapshot.** -/
theorem RowsInv.start {s : Db} {m : Mirror} (hs : s.Consistent) (h : SyncStart c s m) :
    RowsInv c s [] (SyncState.start c s m) where
  fresh := nofun
  lastSeq := le_rfl
  mirror n hin z hz := by
    have hfollows : Follows entrySeq entryWrites (opsOf [] n) 0 ((s.node n).map serverCopy)
        ((SyncState.start c s m).mirror.copy n) := kept_start hs h hin
    rw [hz] at hfollows
    cases hr : s.node n with
    | none =>
      rw [hr] at hfollows
      exact hfollows.elim
    | some r =>
      rw [hr] at hfollows
      have hfirst : firstCopy s n = serverCopy r := by rw [firstCopy, hr]; rfl
      rw [CopyAsOf, hfirst]
      exact (Tracks.exact hfollows).symm
  held x hx := absurd hx List.not_mem_nil
  outstanding reply hreply := absurd hreply List.not_mem_nil

end Rows

/-! ### The calls -/

/-- A call is about the row of a node of the folder, and of its two mutations. -/
structure MoveInv (c : SyncConfig) (s : Db) (a : MoveCall) : Prop where
  node : a.row.nodeId = a.req.nodeId
  folder : a.row.folderId = c.folderId
  inFolder : InFolder c.folderId s a.req.nodeId
  mutation : ∀ mutation, a.mutation = some mutation → ofRow (a.op mutation) = true

/-- What the calls hold in memory belongs to the device, too. -/
def FpState.all (st : FpState) : SyncState :=
  { st.sync with
    held := st.sync.held ++ st.moves.map MoveCall.row
    outstanding := st.sync.outstanding ++ st.moves.filterMap MoveCall.pending }

/-- The invariant. -/
structure FpInv (c : SyncConfig) (s₀ : Db) (log : List OpLogRow) (st : FpState) : Prop where
  sync : SyncInv c s₀ log st.all
  rows : RowsInv c s₀ log st.all
  moves : ∀ a ∈ st.moves, MoveInv c st.sync.server a

section Calls

variable {c : SyncConfig} {s₀ s' : Db} {log log' : List OpLogRow} {st st' : FpState} {S : SyncState} {a a' : MoveCall}

theorem mem_all_held {x : LocalNode} : x ∈ st.all.held ↔ x ∈ st.sync.held ∨ ∃ a ∈ st.moves, a.row = x := by
  simp [FpState.all]

theorem mem_all_outstanding {reply : Reply} :
    reply ∈ st.all.outstanding ↔ reply ∈ st.sync.outstanding ∨ ∃ a ∈ st.moves, a.pending = some reply := by
  simp [FpState.all]

/-- What is in memory after a step was there in a state with the same server and mirror. -/
theorem FpInv.of (hsync : SyncInv c s₀ log S) (hrows : RowsInv c s₀ log S) (hserver : st'.sync.server = S.server)
    (hmirror : st'.sync.mirror = S.mirror) (hheld : ∀ x ∈ st'.all.held, x ∈ S.held)
    (hout : ∀ reply ∈ st'.all.outstanding, reply ∈ S.outstanding) (hmoves : ∀ a ∈ st'.moves, MoveInv c S.server a) :
    FpInv c s₀ log st' := by
  have hall : st'.all = { S with held := st'.all.held, outstanding := st'.all.outstanding } := by
    rw [← hserver, ← hmirror]
    rfl
  refine ⟨?_, ?_, hserver ▸ hmoves⟩
  · rw [hall]
    exact hsync.less hheld hout
  · rw [hall]
    exact { hrows with
      held := fun x hx => hrows.held x (hheld x hx)
      outstanding := fun reply hr => hrows.outstanding reply (hout reply hr) }

/-- A call takes another stage, with what `S` has in memory. -/
theorem FpInv.set (hsync : SyncInv c s₀ log S) (hrows : RowsInv c s₀ log S)
    (h : ∀ a ∈ st.moves, MoveInv c S.server a) (hheld : ∀ x ∈ st.all.held, x ∈ S.held)
    (hout : ∀ reply ∈ st.all.outstanding, reply ∈ S.outstanding) {i : ℕ} (hrow : a'.row ∈ S.held)
    (hpending : ∀ reply, a'.pending = some reply → reply ∈ S.outstanding) (ha : MoveInv c S.server a') :
    FpInv c s₀ log { sync := { S with held := st.sync.held, outstanding := st.sync.outstanding }
                     moves := st.moves.set i a' } := by
  have hmem : ∀ b ∈ st.moves.set i a', b = a' ∨ b ∈ st.moves := fun b hb => (List.mem_or_eq_of_mem_set hb).symm
  refine FpInv.of hsync hrows rfl rfl (fun x hx => ?_) (fun reply hr => ?_) fun b hb => ?_
  · rcases mem_all_held.mp hx with hx | ⟨b, hb, rfl⟩
    · exact hheld x (mem_all_held.mpr (Or.inl hx))
    · rcases hmem b hb with rfl | hb
      · exact hrow
      · exact hheld _ (mem_all_held.mpr (Or.inr ⟨b, hb, rfl⟩))
  · rcases mem_all_outstanding.mp hr with hothers | ⟨b, hb, hb'⟩
    · exact hout reply (mem_all_outstanding.mpr (Or.inl hothers))
    · rcases hmem b hb with rfl | hb
      · exact hpending reply hb'
      · exact hout reply (mem_all_outstanding.mpr (Or.inr ⟨b, hb, hb'⟩))
  · rcases hmem b hb with rfl | hb
    · exact ha
    · exact h b hb

/-! A call by itself. -/

theorem pending_of_mutation (h : a.mutation = none) : a.pending = none := by
  rw [MoveCall.mutation.eq_def] at h
  rw [MoveCall.pending.eq_def]
  split at h
  · cases h
  · cases h
  · next hno =>
    split
    · next mutation answer hstage => exact absurd hstage (hno mutation answer)
    · rfl

theorem finish_row (a : MoveCall) : a.finish.req = a.req ∧ a.finish.row = a.row ∧ a.finish.mutation = none := by
  refine ⟨rfl, rfl, ?_⟩
  rw [MoveCall.finish, MoveCall.mutation]
  cases a.appliedSeq <;> rfl

theorem toMove_row (a : MoveCall) : a.toMove.req = a.req ∧ a.toMove.row = a.row ∧ a.toMove.mutation = none := by
  rw [MoveCall.toMove.eq_def]
  cases a.req.newParentId with
  | some newParentId => exact ⟨rfl, rfl, rfl⟩
  | none => exact finish_row a

/-- After an answer no mutation is under way, and the row is the one that is written. -/
theorem record_row (a : MoveCall) (mutation : Mutation) (answer : Except ApiError SubmitOpResponse) :
    (a.record mutation answer).req = a.req ∧ (a.record mutation answer).mutation = none ∧
      (a.record mutation answer).row = (a.reply mutation answer).row.getD a.row := by
  have happlied : ∀ q n, answer = .ok (.applied q n) → (a.record mutation answer).req = a.req ∧
      (a.record mutation answer).mutation = none ∧ (a.record mutation answer).row = a.row.submitted mutation q := by
    rintro q n rfl
    set a₁ : MoveCall :=
      { a with row := a.row.submitted mutation q, basedOnSeq := q, appliedSeq := some q } with ha₁
    have hfinish := finish_row a₁
    have hmove := toMove_row a₁
    cases mutation with
    | rename newName => exact ⟨hmove.1, hmove.2.2, hmove.2.1⟩
    | move newParentId => exact ⟨hfinish.1, hfinish.2.2, hfinish.2.1⟩
    | delete => exact ⟨hfinish.1, hfinish.2.2, hfinish.2.1⟩
    | newVersion versionId contentHash sizeBytes manifest => exact ⟨hfinish.1, hfinish.2.2, hfinish.2.1⟩
  cases answer with
  | error e => exact ⟨rfl, rfl, rfl⟩
  | ok response =>
    cases response with
    | applied q n => exact happlied q n rfl
    | conflictCopy q n v => exact ⟨rfl, rfl, rfl⟩
    | superseded q => exact ⟨rfl, rfl, rfl⟩

theorem MoveInv.of_row (h : MoveInv c s' a) (hreq : a'.req = a.req) (hnode : a'.row.nodeId = a.row.nodeId)
    (hfolder : a'.row.folderId = a.row.folderId)
    (hmutation : ∀ mutation, a'.mutation = some mutation → ofRow (a'.op mutation) = true) : MoveInv c s' a' where
  node := by rw [hnode, hreq, h.node]
  folder := hfolder.trans h.folder
  inFolder := hreq ▸ h.inFolder
  mutation := hmutation

theorem beginMove_row {m : Mirror} {token : LocalMount → Option String} {req : FpMoveRequest}
    (h : beginMove m token req = .ok a) : a.req = req ∧ m.getNode req.nodeId = some a.row ∧ a.pending = none ∧
      ∀ mutation, a.mutation = some mutation → ofRow (a.op mutation) = true := by
  have hbegin : ∃ row, m.getNode req.nodeId = some row ∧ a = .begin req row := by
    rw [beginMove] at h
    cases hvalid : validateMoveRequest req with
    | error e =>
      rw [hvalid] at h
      cases h
    | ok _ =>
      rw [hvalid, Except.bind] at h
      cases hrow : m.getNode req.nodeId with
      | none =>
        rw [hrow] at h
        cases h
      | some row =>
        simp only [hrow] at h
        cases hmount : resolveMountForFolderId m row.folderId with
        | error e =>
          rw [hmount] at h
          cases h
        | ok mount =>
          simp only [hmount, Except.bind] at h
          cases htoken : token mount with
          | none =>
            rw [htoken] at h
            cases h
          | some t =>
            rw [htoken] at h
            cases h
            exact ⟨row, rfl, rfl⟩
  obtain ⟨row, hrow, rfl⟩ := hbegin
  rw [MoveCall.begin]
  cases hname : req.newName with
  | some newName =>
    refine ⟨rfl, hrow, rfl, fun mutation hm => ?_⟩
    cases hm
    rfl
  | none =>
    obtain ⟨hreq, hsame, hm⟩ := toMove_row { req, row, basedOnSeq := req.basedOnSeq, stage := .panicked }
    refine ⟨hreq, hsame.symm ▸ hrow, pending_of_mutation hm, fun mutation hm' => ?_⟩
    rw [hm] at hm'
    cases hm'

/-- Pulls, the watcher, uploads, and other devices. -/
theorem FpInv.syncStep (hs : s₀.Consistent) (h : FpInv c s₀ log st) {ev : SyncEvent} {sync : SyncState}
    (hok : SyncOk c st.sync ev) (hun : ∀ reply ∈ recordedBy st.sync ev, Unpassed c st.sync reply)
    (hstep : st.sync.step c ev = some sync) : ∃ log, FpInv c s₀ log { st with sync } := by
  have hmoves : ∀ {log'} {s' : Db}, LogStep c.folderId log log' st.sync.server s' →
      ∀ a ∈ st.moves, MoveInv c s' a := by
    intro log' s' hlog a ha
    have hmove := h.moves a ha
    exact { hmove with inFolder := (LogStep.inFolder_iff hlog).mpr hmove.inFolder }
  cases ev with
  | call call =>
    cases hstep
    obtain ⟨log', hsync, hlog, -⟩ := h.sync.call hok.1 hok.2
    rw [hok.2] at hlog
    exact ⟨log', FpInv.of hsync (h.rows.call h.sync hlog) rfl rfl (fun _ => id) (fun _ => id) (hmoves hlog)⟩
  | pull now =>
    cases hstep
    exact ⟨log, FpInv.of (h.sync.pull hok) (h.rows.pull h.sync hok now) rfl rfl (fun _ => id) (fun _ => id) h.moves⟩
  | hold n =>
    obtain ⟨x, hx, rfl⟩ := Option.map_eq_some_iff.mp hstep
    refine ⟨log, FpInv.of (h.sync.hold hx) (h.rows.hold hx) rfl rfl (fun y hy => ?_) (fun _ => id) h.moves⟩
    simp only [mem_all_held, List.mem_append] at hy ⊢
    exact or_right_comm.mp hy
  | submit call row =>
    cases hstep
    have hrow : ∀ x, st.sync.heldRow call.op row = some x →
        ofRow call.op = true ∧ x ∈ st.all.held ∧ x.nodeId = call.op.nodeId := by
      intro x hx
      obtain ⟨hop, hheld, hnode⟩ := heldRow_eq_some hx
      exact ⟨hop, mem_all_held.mpr (Or.inl hheld), hnode⟩
    obtain ⟨log', hlog, hsync, htaken⟩ := h.sync.submitRow hok.1 hok.2.1 hrow hok.2.2
    have hrows := h.rows.submitRow h.sync hlog hsync.ascending (fun x hx => (hrow x hx).2.1) htaken
    refine ⟨log', FpInv.of hsync hrows rfl rfl (fun x hx => ?_) (fun reply hr => ?_) (hmoves hlog)⟩
    · simp only [mem_all_held, SyncState.submit, List.mem_append] at hx ⊢
      exact or_right_comm.mp hx
    · simp only [mem_all_outstanding, SyncState.submit, List.mem_append] at hr ⊢
      exact or_right_comm.mp hr
  | record i now =>
    obtain ⟨reply, hi, rfl⟩ := Option.map_eq_some_iff.mp hstep
    have hmem : reply ∈ st.all.outstanding := mem_all_outstanding.mpr (Or.inl (List.mem_of_getElem? hi))
    have hrecord := hok reply hi
    refine ⟨log, FpInv.of (h.sync.recordKeep now hmem hrecord)
      (h.rows.record h.sync hs now hmem hrecord (hun reply hi)) rfl rfl (fun _ => id) (fun r hr => ?_) h.moves⟩
    refine mem_all_outstanding.mpr ?_
    exact (mem_all_outstanding.mp hr).imp_left List.mem_of_mem_eraseIdx
  | drop i =>
    cases hstep
    refine ⟨log, FpInv.of h.sync h.rows rfl rfl (fun _ => id) (fun r hr => ?_) h.moves⟩
    refine mem_all_outstanding.mpr ?_
    exact (mem_all_outstanding.mp hr).imp_left List.mem_of_mem_eraseIdx

/-- A step of a call. -/
theorem FpInv.moveStep (hs : s₀.Consistent) (h : FpInv c s₀ log st) {i : ℕ} {ev : MoveEvent} (ha : a ∈ st.moves)
    (hok : st.MoveOk c a ev) (hstep : st.stepMove c i a ev = some st') : ∃ log, FpInv c s₀ log st' := by
  have hmove := h.moves a ha
  have hrow : a.row ∈ st.all.held := mem_all_held.mpr (Or.inr ⟨a, ha, rfl⟩)
  have hpending : ∀ reply, a.pending = some reply → reply ∈ st.all.outstanding :=
    fun reply hr => mem_all_outstanding.mpr (Or.inr ⟨a, ha, hr⟩)
  -- a stage in which nothing is under way
  have hquiet : ∀ a' : MoveCall, a'.req = a.req → a'.row = a.row → a'.pending = none →
      (∀ mutation, a'.mutation = some mutation → ofRow (a'.op mutation) = true) →
      FpInv c s₀ log { st with moves := st.moves.set i a' } := by
    intro a' hreq hsame hnone hmutation
    refine FpInv.set (S := st.all) h.sync h.rows h.moves (fun _ => id) (fun _ => id) (hsame ▸ hrow)
      (fun reply hr => ?_) ?_
    · rw [hnone] at hr
      cases hr
    · exact hmove.of_row hreq (by rw [hsame]) (by rw [hsame]) hmutation
  cases ev with
  | checked =>
    rw [FpState.stepMove] at hstep
    split at hstep
    · next newParentId hstage =>
      cases hstep
      refine ⟨log, hquiet _ ?_ ?_ ?_ ?_⟩
      · rw [MoveCall.check]
        split <;> rfl
      · rw [MoveCall.check]
        split <;> rfl
      · rw [MoveCall.check]
        split <;> rfl
      · intro mutation hm
        rw [MoveCall.check] at hm ⊢
        split at hm
        · cases hm
        · cases hm
          rfl
    · cases hstep
  | submitted call =>
    rw [FpState.stepMove] at hstep
    split at hstep
    · next mutation hstage =>
      cases hstep
      have hmutation : a.mutation = some mutation := by rw [MoveCall.mutation, hstage]
      obtain ⟨hadmits, hover⟩ := hok mutation (by rw [MoveCall.submitting, hstage]; rfl)
      have hheld : ∀ x, some a.row = some x → ofRow (a.op mutation) = true ∧ x ∈ st.all.held ∧
          x.nodeId = (a.op mutation).nodeId := by
        rintro x ⟨⟩
        exact ⟨hmove.mutation mutation hmutation, hrow, hmove.node⟩
      have hover' : ∀ x, some a.row = some x → isApplied (serve c.be (a.submitCall mutation call) st.sync.server).2 →
          Overwritten st.sync.server c.folderId a.req.nodeId (fields (mutation.logged "" false)) x.serverSeq
            (st.sync.server.lastSeq + 1) := by
        rintro x ⟨⟩ happlied
        exact hover happlied
      obtain ⟨log', hlog, hsync, htaken⟩ := h.sync.submitRow hadmits hmove.folder hheld hover'
      have hrows := h.rows.submitRow h.sync hlog hsync.ascending (fun x hx => (hheld x hx).2.1) htaken
      have hmoves : ∀ b ∈ st.moves, MoveInv c (serve c.be (a.submitCall mutation call) st.sync.server).1 b := by
        intro b hb
        have hb' := h.moves b hb
        exact { hb' with inFolder := (LogStep.inFolder_iff hlog).mpr hb'.inFolder }
      refine ⟨log', FpInv.set hsync hrows hmoves (fun x hx => List.mem_append_left _ hx)
        (fun reply hr => List.mem_append_left _ hr) (List.mem_append_left _ hrow) (fun reply hr => ?_) ?_⟩
      · cases hr
        exact List.mem_append_right _ (List.mem_singleton.mpr rfl)
      · refine (hmoves a ha).of_row rfl rfl rfl fun m hm => ?_
        cases hm
        exact hmove.mutation mutation hmutation
    · cases hstep
  | recorded now =>
    rw [FpState.stepMove] at hstep
    split at hstep
    · next mutation answer hstage =>
      cases hstep
      have hpend : a.pending = some (a.reply mutation answer) := by rw [MoveCall.pending, hstage]
      have hmem := hpending _ hpend
      obtain ⟨hrecord, hun⟩ := hok _ hpend
      have hsync := h.sync.recordKeep now hmem hrecord
      have hrows := h.rows.record h.sync hs now hmem hrecord hun
      obtain ⟨hreq, hnone, hsame⟩ := record_row a mutation answer
      have hdone : ∀ m, (a.record mutation answer).mutation = some m →
          ofRow ((a.record mutation answer).op m) = true := by
        intro m hm
        rw [hnone] at hm
        cases hm
      have hnoreply : ∀ (S : SyncState) reply, (a.record mutation answer).pending = some reply →
          reply ∈ S.outstanding := by
        intro S reply hr
        rw [pending_of_mutation hnone] at hr
        cases hr
      cases hwritten : (a.reply mutation answer).row with
      | none =>
        rw [hwritten, Option.getD_none] at hsame
        have hheld : (a.record mutation answer).row ∈ st.all.held := by rw [hsame]; exact hrow
        exact ⟨log, FpInv.set hsync hrows h.moves (fun _ => id) (fun _ => id) hheld (hnoreply _)
          (hmove.of_row hreq (by rw [hsame]) (by rw [hsame]) hdone)⟩
      | some x =>
        rw [hwritten, Option.getD_some] at hsame
        have hsub : submittedRow (a.op mutation) (some a.row) answer = some x := hwritten
        obtain ⟨q, k, -, -, m, y, hans, -, hy, rfl⟩ := submittedRow_eq_some hsub
        cases hy
        have hfolder : (a.row.submitted m q).folderId = a.row.folderId := by cases m <;> rfl
        refine ⟨log, FpInv.set (hsync.holdReply hmem hwritten hans) (hrows.holdReply hmem hwritten hans) h.moves
          (fun y hy => List.mem_append_left _ hy) (fun _ => id) ?_ (hnoreply _)
          (hmove.of_row hreq (by rw [hsame, submitted_nodeId]) (by rw [hsame, hfolder]) hdone)⟩
        rw [hsame]
        exact List.mem_append_right _ (List.mem_singleton.mpr rfl)
    · cases hstep
  | dropped =>
    rw [FpState.stepMove] at hstep
    split at hstep
    · cases hstep
    · cases hstep
      exact ⟨log, hquiet _ rfl rfl rfl fun mutation hm => by cases hm⟩

/-- **A step.** -/
theorem FpInv.step (hs : s₀.Consistent) {ev : FpEvent} (h : ∃ log, FpInv c s₀ log st) (hok : st.FpOk c ev)
    (hstep : st.step c ev = some st') : ∃ log, FpInv c s₀ log st' := by
  obtain ⟨log, h⟩ := h
  cases ev with
  | sync ev =>
    obtain ⟨sync, hsync, rfl⟩ := Option.map_eq_some_iff.mp hstep
    exact h.syncStep hs hok.1 hok.2 hsync
  | began req token =>
    rw [FpState.step, FpState.begin] at hstep
    cases hbegin : beginMove st.sync.mirror token req with
    | error e =>
      rw [hbegin] at hstep
      cases hstep
      exact ⟨log, h⟩
    | ok a =>
      simp only [hbegin, Option.ite_none_right_eq_some, Option.some.injEq] at hstep
      obtain ⟨⟨hfolder, hin⟩, rfl⟩ := hstep
      obtain ⟨hreq, hrow, hnone, hmutation⟩ := beginMove_row hbegin
      have hnode : a.row.nodeId = a.req.nodeId := (lookup_key hrow).trans (congrArg FpMoveRequest.nodeId hreq.symm)
      have hmove : MoveInv c st.sync.server a := ⟨hnode, hfolder, fun r hr => hin r (hnode.symm ▸ hr), hmutation⟩
      refine ⟨log, FpInv.of (h.sync.hold hrow) (h.rows.hold hrow) rfl rfl (fun x hx => ?_) (fun reply hr => ?_)
        fun b hb => ?_⟩
      · rcases mem_all_held.mp hx with hx | ⟨b, hb, rfl⟩
        · exact List.mem_append_left _ (mem_all_held.mpr (Or.inl hx))
        · rcases List.mem_append.mp hb with hb | hb
          · exact List.mem_append_left _ (mem_all_held.mpr (Or.inr ⟨b, hb, rfl⟩))
          · rw [List.mem_singleton.mp hb]
            exact List.mem_append_right _ (List.mem_singleton.mpr rfl)
      · rcases mem_all_outstanding.mp hr with hothers | ⟨b, hb, hb'⟩
        · exact mem_all_outstanding.mpr (Or.inl hothers)
        · rcases List.mem_append.mp hb with hb | hb
          · exact mem_all_outstanding.mpr (Or.inr ⟨b, hb, hb'⟩)
          · rw [List.mem_singleton.mp hb, hnone] at hb'
            cases hb'
      · rcases List.mem_append.mp hb with hb | hb
        · exact h.moves b hb
        · rw [List.mem_singleton.mp hb]
          exact hmove
  | move i ev =>
    obtain ⟨a, ha, hmove⟩ := Option.bind_eq_some_iff.mp hstep
    exact h.moveStep hs (List.mem_of_getElem? ha) (hok a ha) hmove

/-- The row that an applied request leaves has the number of its op. -/
theorem FpInv.record_seq (hs : s₀.Consistent) (h : FpInv c s₀ log st) {mutation : Mutation}
    {answer : Except ApiError SubmitOpResponse} {now : ℕ} (ha : a ∈ st.moves)
    (hpend : a.pending = some (a.reply mutation answer)) (hof : ofRow (a.op mutation) = true)
    (hun : Unpassed c st.sync (a.reply mutation answer)) {x x' : LocalNode}
    (hx : st.sync.mirror.getNode a.req.nodeId = some x)
    (hx' : (st.sync.mirror.record c.folderId now (a.reply mutation answer)).getNode a.req.nodeId = some x') :
    x.serverSeq ≤ x'.serverSeq := by
  have hmove := h.moves a ha
  have hmem : a.reply mutation answer ∈ st.all.outstanding := mem_all_outstanding.mpr (Or.inr ⟨a, ha, hpend⟩)
  have hreply := h.sync.outstanding _ hmem
  have hop : updatesRow (a.reply mutation answer).op = false := by
    have hm : ofRow (.mutate a.req.nodeId a.basedOnSeq mutation) = true := hof
    rcases mutation_of_ofRow hm with ⟨newName, rfl⟩ | ⟨newParentId, rfl⟩ <;> rfl
  have hcopy' : (st.sync.mirror.record c.folderId now (a.reply mutation answer)).copy a.req.nodeId =
      some (mirrorCopy x') := by rw [Mirror.copy, hx']; rfl
  rcases copy_record_row (m := st.sync.mirror) c.folderId now hop hreply.node hreply.rowNode with
    hsame | ⟨q, hans, hwhole⟩
  · have hsame' : st.sync.mirror.copy a.req.nodeId = some (mirrorCopy x') := hsame.symm.trans hcopy'
    rw [Mirror.copy, hx] at hsame'
    exact (congrArg Copy.seq (Option.some.inj hsame')).le
  · rcases hwhole with ⟨n, parentId, name, type, hcreate, -⟩ | ⟨y, hy, hcopy⟩
    · cases hcreate
    · have hyx : mirrorCopy y = mirrorCopy x' := Option.some.inj (hcopy.symm.trans hcopy')
      have hyseq : y.serverSeq = q := (hreply.row y q _ hy hans hmove.inFolder).2
      have hle : x.serverSeq ≤ q := h.rows.seq_le h.sync hs hmem hun hans rfl hx hmove.inFolder
      have hseq : y.serverSeq = x'.serverSeq := congrArg Copy.seq hyx
      omega

/-- **The write of a call.** -/
theorem FpInv.forward (hs : s₀.Consistent) (h : FpInv c s₀ log st) {ev : FpEvent} (hok : st.FpOk c ev) :
    st.WritesForward c ev := by
  cases ev with
  | sync ev => exact trivial
  | began req token => exact trivial
  | move i ev =>
    cases ev with
    | checked => exact trivial
    | submitted call => exact trivial
    | dropped => exact trivial
    | recorded now =>
      intro a ha st' hst' x hx x' hx'
      have hmem := List.mem_of_getElem? ha
      have hmove := h.moves a hmem
      have hstep : st.stepMove c i a (.recorded now) = some st' := by
        have hbind : st.moves[i]?.bind (fun a => st.stepMove c i a (.recorded now)) = some st' := hst'
        rw [ha] at hbind
        exact hbind
      rw [FpState.stepMove] at hstep
      split at hstep
      · next mutation answer hstage =>
        cases hstep
        have hpend : a.pending = some (a.reply mutation answer) := by rw [MoveCall.pending, hstage]
        have hmutation : a.mutation = some mutation := by rw [MoveCall.mutation, hstage]
        obtain ⟨hrecord, hun⟩ := hok a ha _ hpend
        have hout : a.reply mutation answer ∈ st.all.outstanding := mem_all_outstanding.mpr (Or.inr ⟨a, hmem, hpend⟩)
        have hle : x.serverSeq ≤ x'.serverSeq :=
          h.record_seq hs hmem hpend (hmove.mutation mutation hmutation) hun hx hx'
        have hasof : CopyAsOf s₀ log a.req.nodeId (mirrorCopy x) :=
          h.rows.mirror _ hmove.inFolder _ (by rw [Mirror.copy]; exact Option.map_eq_some_iff.mpr ⟨x, hx, rfl⟩)
        have hasof' : CopyAsOf s₀ log a.req.nodeId (mirrorCopy x') :=
          h.rows.record_copy h.sync hs hout hrecord hun hmove.inFolder
            (Option.map_eq_some_iff.mpr ⟨x', hx', rfl⟩)
        refine ⟨hle, fun f _ e he hn hlow hw => ?_⟩
        have hnode : x.nodeId = a.req.nodeId := lookup_key hx
        rcases AsOf.value_cases hasof hasof' (ascending_opsOf h.sync.ascending _) hle f with hsame | ⟨e', he', hlt, hw'⟩
        · exact Or.inl hsame
        · obtain ⟨hlog, hn'⟩ := mem_opsOf.mp he'
          have hlog' : e' ∈ st.all.server.opLog := h.sync.opLog ▸ List.mem_append_right _ hlog
          have hlt' : x.serverSeq < e'.serverSeq := hlt
          exact Or.inr ⟨e', hlog', hn'.trans hnode.symm, by omega, hw'⟩
      · cases hstep

/-- Once all calls have returned nothing is outstanding. -/
theorem FpInv.converged (h : FpInv c s₀ log st) : st.Converged c := by
  intro hreturned hout
  refine h.sync.converged ?_
  show st.sync.outstanding ++ st.moves.filterMap MoveCall.pending = []
  have hnone : st.moves.filterMap MoveCall.pending = [] := by
    apply List.filterMap_eq_nil_iff.mpr
    intro a ha
    have hr := hreturned a ha
    rw [MoveCall.returned.eq_def] at hr
    rw [MoveCall.pending.eq_def]
    split
    · next hstage =>
      rw [hstage] at hr
      cases hr
    · rfl
  rw [hout, hnone]
  rfl

end Calls

/-! ### Every run -/

/-- **A move never rolls the mirror back** along every run whose steps meet the condition, and once all calls have
returned the mirror is the server's at the head of the folder. -/
theorem fp_move_forward (c : SyncConfig) (s : Db) (m : Mirror) (hs : s.Consistent) (h : SyncStart c s m)
    (evs : List FpEvent)
    (hok : Run.Along (FpState.step c) (FpState.FpOk c) { sync := SyncState.start c s m } evs) :
    Run.Along (FpState.step c) (FpState.WritesForward c) { sync := SyncState.start c s m } evs ∧
      (Run.run (FpState.step c) { sync := SyncState.start c s m } evs).Converged c := by
  have hstart : ∃ log, FpInv c s log { sync := SyncState.start c s m } := by
    refine ⟨[], FpInv.of (SyncInv.start hs h) (RowsInv.start hs h) rfl rfl (fun x hx => ?_) (fun reply hr => ?_)
      fun a ha => absurd ha List.not_mem_nil⟩
    · simpa [mem_all_held] using hx
    · simpa [mem_all_outstanding] using hr
  constructor
  · refine Run.Along.of_invariant (I := fun st => ∃ log, FpInv c s log st)
      (fun _ _ _ hst hev hstep => FpInv.step hs hst hev hstep) ?_ hstart hok
    rintro st ev ⟨log, hst⟩ hev
    exact hst.forward hs hev
  · obtain ⟨log, hst⟩ := Run.run_invariant (I := fun st => ∃ log, FpInv c s log st)
      (fun _ _ _ hst hev hstep => FpInv.step hs hst hev hstep) hstart hok
    exact hst.converged

def fpStart : FpState := { sync := SyncState.start syncConfig raceDb mounted }

/-- The File Provider renames and moves a file; in between another call uploads a file next to it, and the rename is
pulled. -/
def movedDay : List FpEvent :=
  [.began { nodeId := "n", basedOnSeq := 0, newName := some "c.txt", newParentId := some "root" } fun _ => some "t",
    .move 0 (.submitted (raceCall "")), .move 0 (.recorded 0),
    .sync (.submit { fileCall 0 .delete with op := .create "m" "root" "new.txt" .file } none), .sync (.record 0 0),
    .sync (.pull 0), .move 0 .checked, .move 0 (.submitted (raceCall "")), .move 0 (.recorded 0), .sync (.pull 0)]

theorem fp_move_forward_day :
    Run.Along (FpState.step syncConfig) (FpState.WritesForward syncConfig) fpStart movedDay ∧
      (Run.run (FpState.step syncConfig) fpStart movedDay).Converged syncConfig :=
  fp_move_forward syncConfig raceDb mounted raceDb_consistent syncStart_mounted movedDay (by decide +kernel)

/-- Between the answer to a rename and its recording, another device renames the file and that is pulled. -/
def movedBack : List FpEvent :=
  [.began { nodeId := "n", basedOnSeq := 0, newName := some "c.txt", newParentId := none } fun _ => some "t",
    .move 0 (.submitted (raceCall "")), .sync (.call (fileCall 1 (.rename "d.txt"))), .sync (.pull 0),
    .move 0 (.recorded 0), .sync (.pull 0)]

/-- **A move rolls the mirror back**, and the op it takes back is not pulled again. -/
theorem fp_move_rolls_back :
    ¬ Run.Along (FpState.step syncConfig) (FpState.WritesForward syncConfig) fpStart movedBack ∧
      ¬ (Run.run (FpState.step syncConfig) fpStart movedBack).Converged syncConfig := by
  constructor
  · decide +kernel
  · decide +kernel

end Valv.Client
