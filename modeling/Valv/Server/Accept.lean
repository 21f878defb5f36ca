import Valv.Server.Commit

/-!
# Which calls are accepted

The statements of a call that nobody interleaves with, told from the database before it: which
calls get an op into the log, and which fail after they have written.

* `Accepts`: every check and every statement of the call is accepted.
* `FailsLate`: a statement is rejected that comes after a write.
* `serve_verdict`: a call is committed exactly when it is accepted; a call that is not leaves the
  tables as they were, unless it fails late on SQLite.
-/

namespace Valv.Server

open Valv.Conc Valv.Table

/-! ### What is checked -/

/-- The answer reports an op in the log. -/
def committed : Except ApiError SubmitOpResponse → Bool
  | .ok (.applied _ _) => true
  | .ok (.conflictCopy _ _ _) => true
  | _ => false

/-- The tables an op writes are the same. -/
structure Untouched (s s' : Db) : Prop where
  nodes : s'.nodes = s.nodes
  versions : s'.versions = s.versions
  versionChunks : s'.versionChunks = s.versionChunks
  chunks : s'.chunks = s.chunks
  opLog : s'.opLog = s.opLog

instance (s s' : Db) : Decidable (Untouched s s') :=
  decidable_of_iff (s'.nodes = s.nodes ∧ s'.versions = s.versions ∧ s'.versionChunks = s.versionChunks ∧
    s'.chunks = s.chunks ∧ s'.opLog = s.opLog)
    ⟨fun h => ⟨h.1, h.2.1, h.2.2.1, h.2.2.2.1, h.2.2.2.2⟩,
     fun h => ⟨h.nodes, h.versions, h.versionChunks, h.chunks, h.opLog⟩⟩

/-- `checkGrant` grants the principal access. -/
def Db.grants (s : Db) (nodeId : String) (principal : Principal) (require : GrantRequirement) : Bool :=
  match ((checkGrant nodeId principal require).runBody s).2 with
  | .ok (.granted _ _ _) => true
  | _ => false

/-- The new parent of a move is a folder node of the folder. -/
def Db.moveTargetOk (s : Db) (folderId : String) : Mutation → Bool
  | .move newParentId => (s.node newParentId).any fun r => r.type = .folder && r.folderId = folderId
  | _ => true

/-- The checks in front of `inTransaction`. -/
def Db.passes (s : Db) (call : SubmitCall) : Bool :=
  match call.op with
  | .create _ parentId _ _ => s.grants parentId call.principal .write
  | .mutate nodeId _ m => s.grants nodeId call.principal .write && s.moveTargetOk call.folderId m

/-- The name and parent that a rename or a move leads to. -/
def Db.nextNameAndParent (s : Db) (nodeId : String) : Mutation → Option String × Option String
  | .rename newName => (some newName, (s.node nodeId).bind NodeRow.parentId)
  | .move newParentId => ((s.node nodeId).map NodeRow.name, some newParentId)
  | _ => (none, none)

/-- The collision check finds another live node. -/
def Db.collides (s : Db) (folderId nodeId : String) (m : Mutation) : Bool :=
  match truthy (s.nextNameAndParent nodeId m).1, truthy (s.nextNameAndParent nodeId m).2 with
  | some name, some parentId => (s.collision folderId parentId name nodeId).isSome
  | _, _ => false

/-- The version a call stores. -/
def SubmitCall.versionRow (call : SubmitCall) (deviceId nodeId versionId contentHash : String)
    (sizeBytes : ℕ) (manifest : List ChunkRef) (isConflictCopy : Bool) : VersionRow :=
  { versionId := if isConflictCopy then call.newId else versionId, nodeId, manifest, contentHash,
    sizeBytes, authorDeviceId := deviceId, isConflictCopy }

/-- The op itself is accepted by the log. -/
def Db.logs (s : Db) (call : SubmitCall) (deviceId : String) : Prop :=
  s.opLogViolation call.folderId deviceId = none

instance (s : Db) (call : SubmitCall) (deviceId : String) : Decidable (s.logs call deviceId) :=
  inferInstanceAs (Decidable (_ = _))

/-! ### Accepted and failing late -/

/-- Every statement that stores a version and its op is accepted: the version's row, the rows of its chunks, and the
op. -/
def Db.acceptsVersion (s : Db) (call : SubmitCall) (deviceId : String) (row : VersionRow) : Prop :=
  s.versionViolation row = none ∧ ¬ s.chunksRejected row ∧ s.logs call deviceId

/-- The version's row is accepted, and a statement behind it is not: one on its chunks, or its op. -/
def Db.failsVersion (s : Db) (call : SubmitCall) (deviceId : String) (row : VersionRow) : Prop :=
  s.versionViolation row = none ∧ (s.chunksRejected row ∨ ¬ s.logs call deviceId)

/-- The callback commits an op on the node's row `r`. -/
def Db.acceptsMutation (s : Db) (call : SubmitCall) (deviceId n : String) (b : ℕ) (r : NodeRow) :
    Mutation → Prop
  | .newVersion versionId contentHash sizeBytes manifest => s.acceptsVersion call deviceId
      (call.versionRow deviceId n versionId contentHash sizeBytes manifest (r.serverSeq ≠ b))
  | m => r.serverSeq = b ∧ s.collides call.folderId n m = false ∧
      s.nodeViolation (some r) (m.applyRow call.now r) = none ∧ s.logs call deviceId

/-- A statement for an op on the node's row `r` is rejected after one that has changed a table. -/
def Db.failsMutation (s : Db) (call : SubmitCall) (deviceId n : String) (b : ℕ) (r : NodeRow) :
    Mutation → Prop
  | .newVersion versionId contentHash sizeBytes manifest => s.failsVersion call deviceId
      (call.versionRow deviceId n versionId contentHash sizeBytes manifest (r.serverSeq ≠ b))
  | m => r.serverSeq = b ∧ s.collides call.folderId n m = false ∧
      s.nodeViolation (some r) (m.applyRow call.now r) = none ∧
      update NodeRow.nodeId n (m.applyRow call.now) s.nodes ≠ s.nodes ∧ ¬ s.logs call deviceId

/-- The callback of a call commits. -/
def Db.acceptsOp (s : Db) (call : SubmitCall) (deviceId : String) : Prop :=
  match call.op with
  | .create n parentId name type => s.node n = none ∧
      s.nodeViolation none (call.createdRow n parentId name type) = none ∧ s.logs call deviceId
  | .mutate n b m => ∃ r, s.node n = some r ∧ s.acceptsMutation call deviceId n b r m

/-- A statement of the callback is rejected after one that has changed a table. -/
def Db.failsOp (s : Db) (call : SubmitCall) (deviceId : String) : Prop :=
  match call.op with
  | .create n parentId name type => s.node n = none ∧
      s.nodeViolation none (call.createdRow n parentId name type) = none ∧ ¬ s.logs call deviceId
  | .mutate n b m => ∃ r, s.node n = some r ∧ s.failsMutation call deviceId n b r m

/-- **The call is accepted**: it comes from a device, the device may write there, and every check and every
statement of the callback passes. -/
def Db.Accepts (s : Db) (call : SubmitCall) : Prop :=
  ∃ deviceId, call.principal = .device deviceId ∧ s.passes call = true ∧ s.acceptsOp call deviceId

/-- **The call fails late**: it passes the checks, and a statement is rejected after another one has changed a
table. Without a transaction around the callback, the change stays. -/
def Db.FailsLate (s : Db) (call : SubmitCall) : Prop :=
  ∃ deviceId, call.principal = .device deviceId ∧ s.passes call = true ∧ s.failsOp call deviceId

/-- What became of a program with the answer `r.2`, on the database `s`: it was accepted and committed, or refused
with the tables as they were, or it failed late with a change that stays. -/
def Verdict (accepts fails : Prop) (s : Db) (r : Db × Except ApiError SubmitOpResponse) : Prop :=
  (accepts ∧ ¬ fails ∧ committed r.2 = true) ∨
  (¬ accepts ∧ ¬ fails ∧ committed r.2 = false ∧ Untouched s r.1) ∨
  (¬ accepts ∧ fails ∧ committed r.2 = false ∧ ¬ Untouched s r.1)

/-- The same for a callback, which has an error for its answer where it fails late. -/
def BodyVerdict (accepts fails : Prop) (s : Db) (r : Db × Except ApiError SubmitOpResponse) : Prop :=
  Verdict accepts fails s r ∧ (fails → ∃ e, r.2 = .error e)

theorem Untouched.refl (s : Db) : Untouched s s := ⟨rfl, rfl, rfl, rfl, rfl⟩

/-! ### The checks -/

section Checks

variable {call : SubmitCall} {principal : Principal} {n folderId : String} {s : Db} {m : Mutation}

variable (principal) in
theorem runBody_requireWrite :
    (s.grants n principal .write = true ∧ (requireWrite n principal).runBody s = (s, .ok ())) ∨
    (s.grants n principal .write = false ∧ ∃ e, (requireWrite n principal).runBody s = (s, .error e)) := by
  rw [Db.grants, requireWrite, Proc.runBody_bind]
  rcases (checkGrant_readOnly n principal .write).runBody_cases s with ⟨a, h⟩ | ⟨e, h⟩
  · rw [h]
    cases a with
    | granted grantId scopeNodeId canWrite => exact .inl ⟨rfl, rfl⟩
    | denied reason => exact .inr ⟨rfl, _, rfl⟩
  · rw [h]
    exact .inr ⟨rfl, e, rfl⟩

variable (folderId) in
theorem runBody_checkMoveTarget :
    (s.moveTargetOk folderId m = true ∧ (checkMoveTarget folderId m).runBody s = (s, .ok ())) ∨
    (s.moveTargetOk folderId m = false ∧ ∃ e, (checkMoveTarget folderId m).runBody s = (s, .error e)) := by
  cases m with
  | rename newName => exact .inl ⟨rfl, rfl⟩
  | delete => exact .inl ⟨rfl, rfl⟩
  | newVersion versionId contentHash sizeBytes manifest => exact .inl ⟨rfl, rfl⟩
  | move newParentId =>
    rw [Db.moveTargetOk, checkMoveTarget, loadNode, Proc.runBody_bind_of_ok (Proc.runBody_read _ s)]
    cases hr : s.node newParentId with
    | none => exact .inr ⟨rfl, _, rfl⟩
    | some r =>
      dsimp only
      by_cases htype : r.type = .folder
      · by_cases hfolder : r.folderId = folderId
        · rw [if_neg (not_not.mpr htype), if_neg (not_not.mpr hfolder)]
          exact .inl ⟨by simp [htype, hfolder], rfl⟩
        · rw [if_neg (not_not.mpr htype), if_pos hfolder]
          exact .inr ⟨by simp [htype, hfolder], _, rfl⟩
      · rw [if_pos htype]
        exact .inr ⟨by simp [htype], _, rfl⟩

theorem runBody_nextNameAndParent :
    (nextNameAndParent n m).runBody s = (s, .ok (s.nextNameAndParent n m)) := by
  cases m <;> rfl

variable (folderId) in
theorem runBody_checkCollision :
    (s.collides folderId n m = false ∧ (checkCollision folderId n m).runBody s = (s, .ok ())) ∨
    (s.collides folderId n m = true ∧ ∃ e, (checkCollision folderId n m).runBody s = (s, .error e)) := by
  rw [checkCollision, Proc.runBody_bind_of_ok runBody_nextNameAndParent, Db.collides]
  dsimp only
  cases hname : truthy (s.nextNameAndParent n m).1 with
  | none => exact .inl ⟨rfl, rfl⟩
  | some name =>
    cases hparent : truthy (s.nextNameAndParent n m).2 with
    | none => exact .inl ⟨rfl, rfl⟩
    | some parentId =>
      dsimp only
      rw [Proc.runBody_bind_of_ok (Proc.runBody_read _ s)]
      cases hcol : (s.collision folderId parentId name n).isSome with
      | true => exact .inr ⟨rfl, _, rfl⟩
      | false => exact .inl ⟨rfl, rfl⟩

end Checks

/-! ### The callbacks -/

section Bodies

variable {be : Backend} {call : SubmitCall} {deviceId n : String} {s : Db}

variable (be) in
/-- An op the log rejects shows in no table. -/
theorem runBody_insertOpLog_rejected (payload : OpPayload) (b : Option ℕ) (h : ¬ s.logs call deviceId) :
    ∃ s' e, (insertOpLog be call n deviceId payload b).runBody s = (s', .error e) ∧ Untouched s s' := by
  cases hv : s.opLogViolation call.folderId deviceId with
  | none => exact absurd hv h
  | some e =>
    cases be with
    | pg =>
      have hv' : (Sequence.bump DbKey s).opLogViolation call.folderId deviceId = some e := hv
      refine ⟨Sequence.bump DbKey s, e, ?_, ⟨rfl, rfl, rfl, rfl, rfl⟩⟩
      rw [insertOpLog, Proc.runBody, Proc.runBody_stmt, hv']
    | sqlite =>
      refine ⟨s, e, ?_, Untouched.refl s⟩
      rw [insertOpLog, Proc.runBody_stmt, hv]

/-- The end of a body, once the op is in the log. -/
theorem runBody_setServerSeq_ok (folderId : String) :
    ∃ s' q, (setServerSeq folderId n).runBody s = (s', .ok q) :=
  ⟨_, _, runBody_setServerSeq folderId⟩

theorem logs_of_fixed {s' : Db} (h : Fixed s s') : s'.logs call deviceId ↔ s.logs call deviceId := by
  rw [Db.logs, Db.logs, Db.opLogViolation, Db.opLogViolation, h.sharedFolders, h.devices]

/-- **Storing a version and its op.** -/
theorem verdict_version {versionId contentHash : String} {sizeBytes : ℕ} {manifest : List ChunkRef}
    (b : ℕ) (isConflictCopy : Bool) (answer : String → ℕ → SubmitOpResponse)
    (hanswer : ∀ v q, committed (.ok (answer v q)) = true) :
    BodyVerdict
      (s.acceptsVersion call deviceId
        (call.versionRow deviceId n versionId contentHash sizeBytes manifest isConflictCopy))
      (s.failsVersion call deviceId
        (call.versionRow deviceId n versionId contentHash sizeBytes manifest isConflictCopy)) s
      ((do
        let versionId ← insertVersionAndOp be call n deviceId b
          (.newVersion versionId contentHash sizeBytes manifest) isConflictCopy
        let serverSeq ← setServerSeq call.folderId n
        pure (answer versionId serverSeq) : DbProc SubmitOpResponse).runBody s) := by
  have hgrows : ∀ row : VersionRow, s.versions ++ [row] ≠ s.versions := by
    intro row h
    have hlen := congrArg List.length h
    simp at hlen
  rw [insertVersionAndOp, Proc.runBody_bind, Proc.runBody_bind]
  rcases runBody_insertVersion be (s := s)
    (call.versionRow deviceId n versionId contentHash sizeBytes manifest isConflictCopy) with
    ⟨hrow, href, s', hrun, hstored⟩ | ⟨hrow, href, s', e, hrun, hhalf⟩ | ⟨hrow, e, hrun⟩
  · have hrun' := hrun
    rw [SubmitCall.versionRow] at hrun'
    rw [hrun']
    dsimp only
    by_cases hlog : s.logs call deviceId
    · have hlog' := (logs_of_fixed hstored.fixed).mpr hlog
      rw [Proc.runBody_bind_of_ok (runBody_insertOpLog _ _ hlog')]
      obtain ⟨s'', q, hset⟩ := runBody_setServerSeq_ok (n := n) (s := Db.appendOp _ _) call.folderId
      rw [Proc.runBody_pure]
      dsimp only
      rw [Proc.runBody_bind_of_ok hset]
      refine ⟨.inl ⟨⟨hrow, href, hlog⟩, ?_, hanswer _ _⟩, ?_⟩
      · rintro ⟨-, hrej | hnolog⟩
        · exact href hrej
        · exact hnolog hlog
      · rintro ⟨-, hrej | hnolog⟩
        · exact absurd hrej href
        · exact absurd hlog hnolog
    · have hlog' : ¬ s'.logs call deviceId := fun h => hlog ((logs_of_fixed hstored.fixed).mp h)
      obtain ⟨s'', e, hins, hsame⟩ := runBody_insertOpLog_rejected be (n := n)
        (.newVersion (if isConflictCopy then call.newId else versionId) contentHash sizeBytes manifest
          isConflictCopy) (some b) hlog'
      rw [Proc.runBody_bind, hins]
      refine ⟨.inr (.inr ⟨fun h => hlog h.2.2, ⟨hrow, .inr hlog⟩, rfl, fun h => ?_⟩), fun _ => ⟨e, rfl⟩⟩
      have hversions : s''.versions = s.versions := h.versions
      rw [hsame.versions, hstored.versions] at hversions
      exact hgrows _ hversions
  · rw [SubmitCall.versionRow] at hrun
    rw [hrun]
    refine ⟨.inr (.inr ⟨fun h => h.2.1 href, ⟨hrow, .inl href⟩, rfl, fun h => ?_⟩), fun _ => ⟨e, rfl⟩⟩
    exact hgrows _ (hhalf.versions.symm.trans h.versions)
  · rw [SubmitCall.versionRow] at hrun
    rw [hrun]
    exact ⟨.inr (.inl ⟨fun h => hrow h.1, fun h => hrow h.1, rfl, Untouched.refl s⟩),
      fun h => absurd h.1 hrow⟩

variable (be call deviceId) in
/-- **Renaming, moving or deleting, and its op.** -/
theorem verdict_metadata {m : Mutation} {r : NodeRow} (b : ℕ) (hr : s.node n = some r)
    (hm : ∀ versionId contentHash sizeBytes manifest,
      m ≠ .newVersion versionId contentHash sizeBytes manifest) :
    BodyVerdict (s.nodeViolation (some r) (m.applyRow call.now r) = none ∧ s.logs call deviceId)
      (s.nodeViolation (some r) (m.applyRow call.now r) = none ∧
        update NodeRow.nodeId n (m.applyRow call.now) s.nodes ≠ s.nodes ∧ ¬ s.logs call deviceId) s
      ((do
        applyMetadataMutation be n call.now m
        let _ ← insertVersionAndOp be call n deviceId b m false
        let serverSeq ← setServerSeq call.folderId n
        pure (SubmitOpResponse.applied serverSeq n) : DbProc SubmitOpResponse).runBody s) := by
  have hmut : applyMetadataMutation be n call.now m = updateNamed be n (m.applyRow call.now) := by
    cases m with
    | newVersion versionId contentHash sizeBytes manifest => exact absurd rfl (hm _ _ _ _)
    | _ => rfl
  rw [hmut, Proc.runBody_bind, runBody_updateNamed, updateNodes, Proc.runBody_stmt, hr, Option.bind_some]
  cases hv : s.nodeViolation (some r) (m.applyRow call.now r) with
  | some e =>
    have hviolated : some e ≠ none := Option.some_ne_none e
    exact ⟨.inr (.inl ⟨fun h => hviolated h.1, fun h => hviolated h.1, rfl, Untouched.refl s⟩),
      fun h => absurd h.1 hviolated⟩
  | none =>
    dsimp only
    have hlogs : Db.logs { s with nodes := update NodeRow.nodeId n (m.applyRow call.now) s.nodes }
        call deviceId ↔ s.logs call deviceId := Iff.rfl
    by_cases hlog : s.logs call deviceId
    · rw [Proc.runBody_bind_of_ok (runBody_insertOpAndNothing b (hlogs.mpr hlog) hm)]
      obtain ⟨s', q, hset⟩ := runBody_setServerSeq_ok (n := n) (s := Db.logged _ call n deviceId
        (m.logged call.newId false) (some b)) call.folderId
      rw [Proc.runBody_bind_of_ok hset]
      exact ⟨.inl ⟨⟨rfl, hlog⟩, fun h => h.2.2 hlog, rfl⟩, fun h => absurd hlog h.2.2⟩
    · have hins : insertVersionAndOp be call n deviceId b m false =
          (insertOpLog be call n deviceId (m.logged call.newId false) (some b) >>= fun _ => pure "") := by
        cases m with
        | newVersion versionId contentHash sizeBytes manifest => exact absurd rfl (hm _ _ _ _)
        | _ => rfl
      obtain ⟨s', e, hrun, hsame⟩ := runBody_insertOpLog_rejected be (n := n)
        (m.logged call.newId false) (some b) fun h => hlog (hlogs.mp h)
      rw [hins, Proc.runBody_bind, Proc.runBody_bind, hrun]
      by_cases hchange : update NodeRow.nodeId n (m.applyRow call.now) s.nodes = s.nodes
      · refine ⟨.inr (.inl ⟨fun h => hlog h.2, fun h => h.2.1 hchange, rfl, ?_⟩), fun _ => ⟨e, rfl⟩⟩
        exact ⟨hsame.nodes.trans hchange, hsame.versions, hsame.versionChunks, hsame.chunks, hsame.opLog⟩
      · refine ⟨.inr (.inr ⟨fun h => hlog h.2, ⟨rfl, hchange, hlog⟩, rfl, fun h => ?_⟩), fun _ => ⟨e, rfl⟩⟩
        exact hchange (hsame.nodes.symm.trans h.nodes)

theorem BodyVerdict.congr {accepts accepts' fails fails' : Prop} (ha : accepts ↔ accepts')
    (hf : fails ↔ fails') {r : Db × Except ApiError SubmitOpResponse} (h : BodyVerdict accepts fails s r) :
    BodyVerdict accepts' fails' s r := by
  rw [← propext ha, ← propext hf]
  exact h

/-- Nothing was written. -/
theorem BodyVerdict.refused {accepts fails : Prop} (ha : ¬ accepts) (hf : ¬ fails)
    {r : Except ApiError SubmitOpResponse} (hr : committed r = false) :
    BodyVerdict accepts fails s (s, r) :=
  ⟨.inr (.inl ⟨ha, hf, hr, Untouched.refl s⟩), fun h => absurd h hf⟩

theorem acceptsMutation_metadata {b : ℕ} {r : NodeRow} {m : Mutation}
    (hm : ∀ versionId contentHash sizeBytes manifest,
      m ≠ .newVersion versionId contentHash sizeBytes manifest) :
    s.acceptsMutation call deviceId n b r m ↔ r.serverSeq = b ∧ s.collides call.folderId n m = false ∧
      s.nodeViolation (some r) (m.applyRow call.now r) = none ∧ s.logs call deviceId := by
  cases m with
  | newVersion versionId contentHash sizeBytes manifest => exact absurd rfl (hm _ _ _ _)
  | _ => exact Iff.rfl

theorem failsMutation_metadata {b : ℕ} {r : NodeRow} {m : Mutation}
    (hm : ∀ versionId contentHash sizeBytes manifest,
      m ≠ .newVersion versionId contentHash sizeBytes manifest) :
    s.failsMutation call deviceId n b r m ↔ r.serverSeq = b ∧ s.collides call.folderId n m = false ∧
      s.nodeViolation (some r) (m.applyRow call.now r) = none ∧
      update NodeRow.nodeId n (m.applyRow call.now) s.nodes ≠ s.nodes ∧ ¬ s.logs call deviceId := by
  cases m with
  | newVersion versionId contentHash sizeBytes manifest => exact absurd rfl (hm _ _ _ _)
  | _ => exact Iff.rfl

/-- **An op on its node's current `server_seq`.** -/
theorem verdict_applyOp {m : Mutation} {r : NodeRow} {b : ℕ} (hr : s.node n = some r)
    (hb : r.serverSeq = b) : BodyVerdict (s.acceptsMutation call deviceId n b r m)
      (s.failsMutation call deviceId n b r m) s ((applyOp be call deviceId n b m).runBody s) := by
  obtain ⟨p, hprev⟩ : ∃ p, (previousParentId n m).runBody s = (s, .ok p) := by
    cases m <;> exact ⟨_, rfl⟩
  by_cases hm : ∃ versionId contentHash sizeBytes manifest,
      m = .newVersion versionId contentHash sizeBytes manifest
  · obtain ⟨versionId, contentHash, sizeBytes, manifest, rfl⟩ := hm
    have hcol : (checkCollision call.folderId n
        (.newVersion versionId contentHash sizeBytes manifest)).runBody s = (s, .ok ()) := rfl
    have hmut : (applyMetadataMutation be n call.now
        (.newVersion versionId contentHash sizeBytes manifest)).runBody s = (s, .ok ()) := rfl
    rw [applyOp, Proc.runBody_bind_of_ok hcol, Proc.runBody_bind_of_ok hprev, Proc.runBody_bind_of_ok hmut]
    have hconf : decide (r.serverSeq ≠ b) = false := by simp [hb]
    rw [Db.acceptsMutation, Db.failsMutation, hconf]
    exact verdict_version b false (fun _ seq => .applied seq n) fun _ _ => rfl
  · have hm' : ∀ versionId contentHash sizeBytes manifest,
        m ≠ .newVersion versionId contentHash sizeBytes manifest :=
      fun versionId contentHash sizeBytes manifest h => hm ⟨_, _, _, _, h⟩
    rw [propext (acceptsMutation_metadata hm'), propext (failsMutation_metadata hm')]
    rcases runBody_checkCollision call.folderId (s := s) (n := n) (m := m) with
      ⟨hfree, hcol⟩ | ⟨htaken, e, hcol⟩
    · rw [applyOp, Proc.runBody_bind_of_ok hcol, Proc.runBody_bind_of_ok hprev]
      refine (verdict_metadata be call deviceId b hr hm').congr ?_ ?_
      · exact ⟨fun h => ⟨hb, hfree, h⟩, fun h => h.2.2⟩
      · exact ⟨fun h => ⟨hb, hfree, h⟩, fun h => h.2.2⟩
    · rw [applyOp, Proc.runBody_bind, hcol]
      refine BodyVerdict.refused (fun h => ?_) (fun h => ?_) rfl
      · rw [htaken] at h
        cases h.2.1
      · rw [htaken] at h
        cases h.2.1

variable (be deviceId) in
/-- **The callback for an op on a node.** -/
theorem verdict_mutateBody {m : Mutation} (b : ℕ) (hop : call.op = .mutate n b m) :
    BodyVerdict (s.acceptsOp call deviceId) (s.failsOp call deviceId) s
      ((mutateBody be call deviceId n b m).runBody s) := by
  have haccepts : s.acceptsOp call deviceId ↔
      ∃ r, s.node n = some r ∧ s.acceptsMutation call deviceId n b r m := by
    rw [Db.acceptsOp, hop]
  have hfails : s.failsOp call deviceId ↔
      ∃ r, s.node n = some r ∧ s.failsMutation call deviceId n b r m := by
    rw [Db.failsOp, hop]
  rw [propext haccepts, propext hfails, mutateBody, Proc.runBody_bind_of_ok (runBody_lockKey _), loadNode,
    Proc.runBody_bind_of_ok (Proc.runBody_read _ s)]
  cases hr : s.node n with
  | none =>
    refine BodyVerdict.refused ?_ ?_ rfl
    · rintro ⟨r, hr', -⟩
      cases hr'
    · rintro ⟨r, hr', -⟩
      cases hr'
  | some r =>
    have hthe : ∀ P : NodeRow → Prop, (∃ r', some r = some r' ∧ P r') ↔ P r := by
      intro P
      constructor
      · rintro ⟨r', hr', h⟩
        cases hr'
        exact h
      · exact fun h => ⟨r, rfl, h⟩
    rw [propext (hthe _), propext (hthe _)]
    dsimp only
    split
    · next hb => exact verdict_applyOp hr hb
    · next hb =>
      have hconf : decide (r.serverSeq ≠ b) = true := by simp [hb]
      cases m with
      | newVersion versionId contentHash sizeBytes manifest =>
        rw [Db.acceptsMutation, Db.failsMutation, hconf]
        exact verdict_version b true (fun versionId seq => .conflictCopy seq n versionId) fun _ _ => rfl
      | rename newName => exact BodyVerdict.refused (fun h => hb h.1) (fun h => hb h.1) rfl
      | move newParentId => exact BodyVerdict.refused (fun h => hb h.1) (fun h => hb h.1) rfl
      | delete => exact BodyVerdict.refused (fun h => hb h.1) (fun h => hb h.1) rfl

variable (be deviceId) in
/-- **The callback for a create.** -/
theorem verdict_createBody {parentId name : String} {type : NodeType}
    (hop : call.op = .create n parentId name type) :
    BodyVerdict (s.acceptsOp call deviceId) (s.failsOp call deviceId) s
      ((createBody be call deviceId n parentId name type).runBody s) := by
  have hgrows : ∀ row : NodeRow, s.nodes ++ [row] ≠ s.nodes := by
    intro row h
    have hlen := congrArg List.length h
    simp at hlen
  rw [Db.acceptsOp, Db.failsOp, hop, createBody, Proc.runBody_bind_of_ok (runBody_lockKey _),
    Proc.runBody_bind_of_ok (runBody_lockKey _), Proc.runBody_bind, insertNode, Proc.runBody_stmt]
  dsimp only
  by_cases hnew : (s.node n).isSome
  · rw [if_pos hnew]
    have hne : s.node n ≠ none := Option.isSome_iff_ne_none.mp hnew
    exact BodyVerdict.refused (fun h => hne h.1) (fun h => hne h.1) rfl
  rw [if_neg hnew]
  have hnone : s.node n = none := Option.not_isSome_iff_eq_none.mp hnew
  cases hv : s.nodeViolation none (call.createdRow n parentId name type) with
  | some e =>
    rw [SubmitCall.createdRow] at hv
    rw [hv]
    exact BodyVerdict.refused (fun h => by cases h.2.1) (fun h => by cases h.2.1) rfl
  | none =>
    rw [SubmitCall.createdRow] at hv
    rw [hv]
    show BodyVerdict _ _ s (Proc.runBody _
      { s with nodes := s.nodes ++ [call.createdRow n parentId name type] })
    have hlogs : Db.logs { s with nodes := s.nodes ++ [call.createdRow n parentId name type] }
        call deviceId ↔ s.logs call deviceId := Iff.rfl
    by_cases hlog : s.logs call deviceId
    · rw [Proc.runBody_bind_of_ok (runBody_insertOpLog _ _ (hlogs.mpr hlog))]
      obtain ⟨s', q, hset⟩ := runBody_setServerSeq_ok (n := n) (s := Db.appendOp _ _) call.folderId
      rw [Proc.runBody_bind_of_ok hset]
      exact ⟨.inl ⟨⟨hnone, rfl, hlog⟩, fun h => h.2.2 hlog, rfl⟩, fun h => absurd hlog h.2.2⟩
    · obtain ⟨s', e, hrun, hsame⟩ := runBody_insertOpLog_rejected be (n := n)
        (.create n parentId name type) none fun h => hlog (hlogs.mp h)
      rw [Proc.runBody_bind, hrun]
      refine ⟨.inr (.inr ⟨fun h => hlog h.2.2, ⟨hnone, rfl, hlog⟩, rfl, fun h => ?_⟩), fun _ => ⟨e, rfl⟩⟩
      exact hgrows _ (hsame.nodes.symm.trans h.nodes)

end Bodies

/-! ### The call -/

section Serve

variable {be : Backend} {call : SubmitCall} {deviceId n : String} {s : Db}

/-- A failed transaction leaves at most draws behind. -/
theorem untouched_bump (k : ℕ) (s : Db) : Untouched s ((Sequence.bump DbKey)^[k] s) := by
  rw [bump_iterate]
  exact ⟨rfl, rfl, rfl, rfl, rfl⟩

/-- Late failures show on SQLite only. -/
def fails (be : Backend) (late : Prop) : Prop := be = .sqlite ∧ late

/-- **In `inTransaction`**: the transaction of Postgres takes a late failure back. -/
theorem BodyVerdict.inTransaction {body : DbProc SubmitOpResponse} {accepts late : Prop}
    (hb : Callback be body) (h : BodyVerdict accepts late s (body.runBody s)) :
    BodyVerdict accepts (fails be late) s ((inTransaction be n body).exec s none) := by
  cases be with
  | sqlite =>
    have hexec : (Server.inTransaction .sqlite n body).exec s none = body.runBody s :=
      (Proc.exec_eq_runBody (Proc.Unbracketed.unprotected hb _) s).trans
        (Proc.runBody_unprotected _ body s)
    rw [hexec]
    exact h.congr Iff.rfl ⟨fun hl => ⟨rfl, hl⟩, fun hl => hl.2⟩
  | pg =>
    have hno : ¬ fails .pg late := fun h => by cases h.1
    rcases Proc.exec_transaction hb s with ⟨s', a, hrun, hexec⟩ | ⟨s', e, k, hrun, hexec⟩
    · have hexec' : (Server.inTransaction .pg n body).exec s none = (s', .ok a) := hexec
      rw [hexec']
      rw [hrun] at h
      rcases h with ⟨⟨hacc, -, hcom⟩ | ⟨hacc, -, hcom, hsame⟩ | ⟨-, hlate, -⟩, herr⟩
      · exact ⟨.inl ⟨hacc, hno, hcom⟩, fun h => absurd h hno⟩
      · exact ⟨.inr (.inl ⟨hacc, hno, hcom, hsame⟩), fun h => absurd h hno⟩
      · obtain ⟨e, he⟩ := herr hlate
        cases he
    · have hexec' : (Server.inTransaction .pg n body).exec s none =
          ((Sequence.bump DbKey)^[k] s, .error e) := hexec
      rw [hexec']
      rw [hrun] at h
      have hacc : ¬ accepts := by
        rcases h.1 with ⟨-, -, hcom⟩ | ⟨hacc, -⟩ | ⟨hacc, -⟩
        · cases hcom
        · exact hacc
        · exact hacc
      exact ⟨.inr (.inl ⟨hacc, hno, rfl, untouched_bump k s⟩), fun h => absurd h hno⟩

/-- The handler of `createNode` looks for the winner of the name and writes nothing. -/
theorem verdict_createNode {parentId name : String} {type : NodeType}
    (hop : call.op = .create n parentId name type) :
    Verdict (s.acceptsOp call deviceId) (fails be (s.failsOp call deviceId)) s
      ((createNode be call deviceId n parentId name type).exec s none) := by
  have hcallback := callback_createBody be call deviceId n parentId name type
  have h := (verdict_createBody be deviceId (s := s) hop).inTransaction (n := n) hcallback
  rcases exec_createNode be call deviceId n parentId name type s with
    ⟨s', a, htx, hexec⟩ | ⟨s', e, r, htx, hexec, hr⟩
  · rw [hexec]
    rw [htx] at h
    exact h.1
  · rw [hexec]
    rw [htx] at h
    have hcommitted : committed r = false := by
      rcases hr with ⟨e', rfl⟩ | ⟨seq, rfl⟩
      · rfl
      · rfl
    rcases h.1 with ⟨-, -, hcom⟩ | ⟨hacc, hlate, -, hsame⟩ | ⟨hacc, hlate, -, hsame⟩
    · cases hcom
    · exact .inr (.inl ⟨hacc, hlate, hcommitted, hsame⟩)
    · exact .inr (.inr ⟨hacc, hlate, hcommitted, hsame⟩)

theorem Verdict.refused {accepts fails : Prop} (ha : ¬ accepts) (hf : ¬ fails)
    {r : Except ApiError SubmitOpResponse} (hr : committed r = false) : Verdict accepts fails s (s, r) :=
  .inr (.inl ⟨ha, hf, hr, Untouched.refl s⟩)

/-- Behind its checks a call is what its callback is. -/
theorem Verdict.checked {r : Db × Except ApiError SubmitOpResponse}
    (hp : call.principal = .device deviceId) (hpass : s.passes call = true)
    (h : Verdict (s.acceptsOp call deviceId) (fails be (s.failsOp call deviceId)) s r) :
    Verdict (s.Accepts call) (fails be (s.FailsLate call)) s r := by
  have hthe : ∀ P : String → Prop,
      (∃ d, call.principal = .device d ∧ s.passes call = true ∧ P d) ↔ P deviceId := by
    intro P
    constructor
    · rintro ⟨d, hd, -, h⟩
      rw [hp] at hd
      cases hd
      exact h
    · exact fun h => ⟨deviceId, hp, hpass, h⟩
  rw [Db.Accepts, Db.FailsLate, propext (hthe _), propext (hthe _)]
  exact h

/-- **A call, told from the database before it**: it is committed exactly when it is accepted,
and what is not committed is without a trace unless it fails late on SQLite. -/
theorem serve_verdict (be : Backend) (call : SubmitCall) (s : Db) :
    Verdict (s.Accepts call) (fails be (s.FailsLate call)) s (serve be call s) := by
  rw [serve, submitOp]
  cases hp : call.principal with
  | user userId =>
    refine Verdict.refused ?_ ?_ rfl
    · rintro ⟨d, hd, -⟩
      rw [hp] at hd
      cases hd
    · rintro ⟨-, d, hd, -⟩
      rw [hp] at hd
      cases hd
  | device deviceId =>
    have hdenied (hpass : s.passes call = false) {r : Except ApiError SubmitOpResponse}
        (hr : committed r = false) :
        Verdict (s.Accepts call) (fails be (s.FailsLate call)) s (s, r) := by
      refine Verdict.refused ?_ ?_ hr
      · rintro ⟨d, -, h, -⟩
        rw [hpass] at h
        cases h
      · rintro ⟨-, d, -, h, -⟩
        rw [hpass] at h
        cases h
    cases hop : call.op with
    | create n parentId name type =>
      dsimp only
      have hpasses : s.passes call = s.grants parentId (.device deviceId) .write := by
        rw [Db.passes, hop, hp]
      rw [Proc.exec_bind _ _ (requireWrite_readOnly parentId (.device deviceId)).unbracketed]
      rcases runBody_requireWrite (.device deviceId) (s := s) (n := parentId) with
        ⟨hgrant, h⟩ | ⟨hgrant, e, h⟩
      · rw [h]
        exact Verdict.checked hp (hpasses.trans hgrant) (verdict_createNode hop)
      · rw [h]
        exact hdenied (hpasses.trans hgrant) rfl
    | mutate n b m =>
      dsimp only
      have hpasses : s.passes call = (s.grants n (.device deviceId) .write &&
          s.moveTargetOk call.folderId m) := by rw [Db.passes, hop, hp]
      rw [Proc.exec_bind _ _ (requireWrite_readOnly n (.device deviceId)).unbracketed]
      rcases runBody_requireWrite (.device deviceId) (s := s) (n := n) with
        ⟨hgrant, h⟩ | ⟨hgrant, e, h⟩
      case inr =>
        rw [h]
        refine hdenied ?_ rfl
        rw [hpasses, hgrant, Bool.false_and]
      rw [h]
      dsimp only
      rw [Proc.exec_bind _ _ (checkMoveTarget_readOnly call.folderId m).unbracketed]
      rcases runBody_checkMoveTarget call.folderId (s := s) (m := m) with
        ⟨htarget, h⟩ | ⟨htarget, e, h⟩
      case inr =>
        rw [h]
        refine hdenied ?_ rfl
        rw [hpasses, htarget, Bool.and_false]
      rw [h]
      refine Verdict.checked hp (by rw [hpasses, hgrant, htarget]; rfl) ?_
      exact ((verdict_mutateBody be deviceId (s := s) b hop).inTransaction
        (callback_mutateBody be call deviceId n b m)).1

end Serve

/-! ### Atomicity of failures -/

/-- A call that is not committed leaves the tables as they were, so that a client may send it again. -/
def FailureAtomic (be : Backend) (call : SubmitCall) (s : Db) : Prop :=
  committed (serve be call s).2 = false → Untouched s (serve be call s).1

instance (be : Backend) (call : SubmitCall) (s : Db) : Decidable (FailureAtomic be call s) :=
  inferInstanceAs (Decidable (_ → _))

/-- **Failure atomicity**: always on Postgres, and on SQLite exactly when the call does not fail
late. -/
theorem submitOp_failureAtomic (be : Backend) (call : SubmitCall) (s : Db) :
    FailureAtomic be call s ↔ be = .pg ∨ ¬ s.FailsLate call := by
  have hverdict := serve_verdict be call s
  have hfails : be = .pg ∨ ¬ s.FailsLate call ↔ ¬ fails be (s.FailsLate call) := by
    cases be with
    | pg => exact ⟨fun _ h => absurd h.1 nofun, fun _ => .inl rfl⟩
    | sqlite =>
      constructor
      · rintro (h | h) hl
        · cases h
        · exact h hl.2
      · exact fun h => .inr fun hl => h ⟨rfl, hl⟩
  rw [hfails]
  rcases hverdict with ⟨-, hlate, hcom⟩ | ⟨-, hlate, -, hsame⟩ | ⟨-, hlate, hcom, hsame⟩
  · refine iff_of_true (fun h => ?_) hlate
    rw [hcom] at h
    cases h
  · exact iff_of_true (fun _ => hsame) hlate
  · exact iff_of_false (fun h => hsame (h hcom)) (not_not.mpr hlate)

/-- A version of the file with a chunk that has no row: on SQLite its `versions` row stays. -/
theorem submitOp_leaves_version : ¬ FailureAtomic .sqlite
    { raceCall "" with op := .mutate "n" 0 (.newVersion "v" "h" 1 [{ chunkHash := "c", offset := 0, length := 1 }]) }
    raceDb := by
  decide +kernel

end Valv.Server
