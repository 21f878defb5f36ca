import Valv.Server.OpChain

/-!
# The op log under concurrency

However the calls of `submitOp` interleave, the log only grows and no two of its ops share a
`server_seq`.  On Postgres this follows from ownership of the drawn `server_seq`; on SQLite
every single statement keeps it, also when the sections of two calls overlap.

* `direct_submitOp`: every statement of a call on SQLite grows the log.
* `OpsRunning.step`: every statement of any number of calls, on both databases.
-/

namespace Valv.Server

open Valv.Conc Valv.Table

/-- The ops stay, and go on having `server_seq`s of their own. -/
structure LogGrows (s s' : Db) : Prop where
  mem : ∀ e ∈ s.opLog, e ∈ s'.opLog
  drawn : s.SeqsDrawn → s'.SeqsDrawn

theorem LogGrows.refl (s : Db) : LogGrows s s := ⟨fun _ h => h, id⟩

theorem Frame.logGrows {P : DbKey → Prop} {s s' : Db} (h : Frame P s s') : LogGrows s s' where
  mem e he := by
    have hmem : e ∈ s.nodeOps e.nodeId := List.mem_filter.mpr ⟨he, by simp⟩
    exact (List.mem_filter.mp ((h.grows e.nodeId).subset hmem)).1
  drawn := h.drawn

theorem NodeWrite.logGrows {n : String} {put : Db → Db} (h : NodeWrite n put) (s : Db) :
    LogGrows s (put s) :=
  (h.frame (P := fun _ => False) id s).logGrows

/-! ### SQLite: statement by statement -/

theorem Quiet.direct {α : Type} {n : String} {p : DbProc α} (h : Quiet n p) :
    p.Direct LogGrows := by
  induction p with
  | done a => exact True.intro
  | fail e => exact True.intro
  | act put next ih => exact ⟨fun s => (h.1 s).logGrows s, fun s => ih s (h.2.2 s)⟩
  | draw next _ => exact h.elim
  | ctl c next ih =>
    cases c with
    | lock k => exact ih h.2.2
    | _ => exact h.elim

theorem direct_stmt {check : Db → Option ApiError} {write : Db → Db → Db}
    (h : ∀ s, LogGrows s (write s s)) : (Proc.stmt check write : DbProc Unit).Direct LogGrows := by
  refine ⟨fun s => ?_, fun s => ?_⟩
  · dsimp only
    cases check s with
    | none => exact h s
    | some e => exact LogGrows.refl s
  · dsimp only
    cases check s <;> exact True.intro

theorem direct_insertOpLog {call : SubmitCall} {n deviceId : String} {payload : OpPayload}
    {b : Option ℕ} : (insertOpLog .sqlite call n deviceId payload b).Direct LogGrows :=
  direct_stmt fun _ => (frame_bump_appendOp (P := fun _ => False) id rfl).logGrows

theorem direct_setServerSeq {folderId n : String} : (setServerSeq folderId n).Direct LogGrows := by
  have hread : (latestSeqForNode folderId n).Direct LogGrows :=
    (Proc.readOnly_read _).direct LogGrows.refl
  refine hread.bind fun m => ?_
  have hid : ∀ r : NodeRow, { r with serverSeq := m }.nodeId = r.nodeId := fun _ => rfl
  have hupdate : (updateNodes n fun r => { r with serverSeq := m }).Direct LogGrows :=
    direct_stmt fun s => (nodeWrite_update (n := n) hid).logGrows s
  exact hupdate.bind fun _ => True.intro

theorem direct_insertVersionAndOp {call : SubmitCall} {n deviceId : String} {b : ℕ} {m : Mutation}
    {isConflictCopy : Bool} :
    (insertVersionAndOp .sqlite call n deviceId b m isConflictCopy).Direct LogGrows := by
  cases m with
  | newVersion versionId contentHash sizeBytes manifest =>
    have hversion := quiet_insertVersion .sqlite (n := n) deviceId
      (if isConflictCopy then call.newId else versionId) contentHash sizeBytes manifest isConflictCopy
    exact hversion.direct.bind fun _ => direct_insertOpLog.bind fun _ => True.intro
  | rename newName => exact direct_insertOpLog.bind fun _ => True.intro
  | move newParentId => exact direct_insertOpLog.bind fun _ => True.intro
  | delete => exact direct_insertOpLog.bind fun _ => True.intro

theorem direct_applyOp {call : SubmitCall} {deviceId n : String} {b : ℕ} {m : Mutation} :
    (applyOp .sqlite call deviceId n b m).Direct LogGrows :=
  (quiet_checkCollision call.folderId m).direct.bind fun _ =>
    (quiet_previousParentId m).direct.bind fun _ =>
      (quiet_applyMetadataMutation call.now m).direct.bind fun _ =>
        direct_insertVersionAndOp.bind fun _ => direct_setServerSeq.bind fun _ => True.intro

theorem direct_staleOp {call : SubmitCall} {deviceId n : String} {b current : ℕ} {m : Mutation} :
    (staleOp .sqlite call deviceId n b m current).Direct LogGrows := by
  cases m with
  | newVersion versionId contentHash sizeBytes manifest =>
    exact direct_insertVersionAndOp.bind fun _ => direct_setServerSeq.bind fun _ => True.intro
  | _ => exact True.intro

theorem direct_mutateBody {call : SubmitCall} {deviceId n : String} {b : ℕ} {m : Mutation} :
    (mutateBody .sqlite call deviceId n b m).Direct LogGrows := by
  have hload : (loadNode n).Direct LogGrows := (Proc.readOnly_read _).direct LogGrows.refl
  refine hload.bind fun row => ?_
  cases row with
  | none => exact True.intro
  | some node =>
    dsimp only
    split
    · exact direct_applyOp
    · exact direct_staleOp

theorem direct_createBody {call : SubmitCall} {deviceId n parentId name : String} {type : NodeType} :
    (createBody .sqlite call deviceId n parentId name type).Direct LogGrows := by
  have hinsert : (insertNode { nodeId := n, folderId := call.folderId, parentId := some parentId,
                               name, type }).Direct LogGrows :=
    direct_stmt fun s => (nodeWrite_insert _).logGrows s
  exact hinsert.bind fun _ => direct_insertOpLog.bind fun _ =>
    direct_setServerSeq.bind fun _ => True.intro

/-- **SQLite**: every statement of a call grows the log. -/
theorem direct_submitOp (call : SubmitCall) : (submitOp .sqlite call).Direct LogGrows := by
  rw [submitOp]
  cases call.principal with
  | user userId => exact True.intro
  | device deviceId =>
    cases call.op with
    | create nodeId parentId name type =>
      refine ((requireWrite_readOnly _ _).direct LogGrows.refl).bind fun _ => ?_
      refine (Proc.Direct.unprotected direct_createBody).attempt fun e => ?_
      have hread : (Proc.read fun s => Db.winner s call.folderId parentId name :
          DbProc (Option NodeRow)).Direct LogGrows :=
        (Proc.readOnly_read _).direct LogGrows.refl
      refine hread.bind fun winner => ?_
      cases winner <;> exact True.intro
    | mutate nodeId b m =>
      refine ((requireWrite_readOnly _ _).direct LogGrows.refl).bind fun _ => ?_
      refine ((checkMoveTarget_readOnly _ _).direct LogGrows.refl).bind fun _ => ?_
      exact Proc.Direct.unprotected direct_mutateBody

/-! ### Both databases -/

/-- A pool of calls that started on `s₀`. -/
def OpsRunning (be : Backend) (s₀ : Db) (p : Pool Db DbKey ApiError SubmitOpResponse) : Prop :=
  match be with
  | .pg => Pool.Sound (opDiscipline .pg s₀) (fun _ _ _ _ _ => True) p
  | .sqlite => Pool.AllDirect LogGrows p

theorem OpsRunning.start {be : Backend} {s₀ : Db} (h₀ : s₀.SeqsValid) (calls : List SubmitCall) :
    OpsRunning be s₀ (startOps be s₀ calls) := by
  cases be with
  | pg =>
    refine Pool.Sound.start (fun k n hk => h₀.nodeInv n) fun i prog hprog => ?_
    rw [List.getElem?_map, Option.map_eq_some_iff] at hprog
    obtain ⟨call, -, rfl⟩ := hprog
    exact (sat_submitOp .pg s₀ call s₀).mono fun _ _ _ _ _ => True.intro
  | sqlite =>
    intro t ht
    simp only [startOps, Pool.start, List.map_map, List.mem_map, Function.comp_apply] at ht
    obtain ⟨call, -, rfl⟩ := ht
    exact ⟨direct_submitOp call, rfl⟩

/-- **One statement of one call**, on either database, grows the log. -/
theorem OpsRunning.step {be : Backend} {s₀ : Db} {p p' : Pool Db DbKey ApiError SubmitOpResponse}
    {i : ℕ} (h : OpsRunning be s₀ p) (hs : p.step i = some p') :
    OpsRunning be s₀ p' ∧ LogGrows p.state p'.state := by
  cases be with
  | pg =>
    obtain ⟨hsound, t, -, hguar⟩ := Pool.Sound.step h nofun hs
    exact ⟨hsound, Frame.logGrows hguar⟩
  | sqlite => exact Pool.AllDirect.step LogGrows.refl h hs

end Valv.Server
