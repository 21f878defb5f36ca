import Valv.Server.Blobstore
import Valv.Server.Edit

/-!
# Who is given the chunks

A download is granted for a node with a version that refers to the chunk, and versions are
submitted by whoever may write to a node.  What a principal can download should be its own, or
shown to it by somebody else.

* `Db.shows`: another principal's version with the chunk belongs to a node that is readable.
* `Submitted`: what a call adds to the versions and to the chunks they refer to.
* `Vault`: the database and, as a ghost, the databases before it.
* `downloads_sealed`: when nobody submits a version with chunks it neither has nor was shown, it is
  given no others.
* `downloads_by_hash`: without that, a stranger's hash is all that is needed.
-/

namespace Valv.Server

open Valv.Conc Valv.Table

/-! ### What a call stores -/

/-- The call submits the version `v`, and the checks in front of it pass. -/
structure Db.Submits (s : Db) (call : SubmitCall) (v : VersionRow) : Prop where
  author : call.principal = .device v.authorDeviceId
  op : ∃ b versionId contentHash sizeBytes,
    call.op = .mutate v.nodeId b (.newVersion versionId contentHash sizeBytes v.manifest)
  write : s.grants v.nodeId call.principal .write = true
  present : ∀ hash ∈ chunkHashes v.manifest, (s.chunk hash).isSome

/-- **What a call adds** to the references: they are of chunks that a version it submits itself refers to. -/
structure Submitted (call : SubmitCall) (s s' : Db) : Prop where
  versions : ∀ v ∈ s.versions, v ∈ s'.versions
  refs : ∀ r ∈ s'.versionChunks, r ∈ s.versionChunks ∨
    ∃ v ∈ s'.versions, s.Submits call v ∧ v.nodeId = r.nodeId ∧ r.chunkHash ∈ chunkHashes v.manifest

section Stores

variable {be : Backend} {call : SubmitCall} {deviceId n : String} {s s₁ s₂ : Db}

theorem Submitted.of_same (h : SameVersions s s₁) : Submitted call s s₁ where
  versions v hv := by
    rw [h.versions]
    exact hv
  refs r hr := by
    rw [h.versionChunks] at hr
    exact .inl hr

theorem Submitted.same (h : Submitted call s s₁) (h' : SameVersions s₁ s₂) : Submitted call s s₂ where
  versions v hv := by
    rw [h'.versions]
    exact h.versions v hv
  refs r hr := by
    rw [h'.versionChunks] at hr
    rw [h'.versions]
    exact h.refs r hr

/-- A statement on another table. -/
theorem updateNodes_sameVersions (f : NodeRow → NodeRow) : (updateNodes n f).Writes SameVersions :=
  Proc.Writes.stmt fun _ _ => ⟨rfl, rfl⟩

theorem insertOpLog_sameVersions (payload : OpPayload) (b : Option ℕ) :
    (insertOpLog be call n deviceId payload b).Writes SameVersions :=
  insertOpLog_writes_of (fun _ => ⟨rfl, rfl⟩) fun _ _ _ _ => ⟨rfl, rfl⟩

theorem setServerSeq_sameVersions (folderId : String) : (setServerSeq folderId n).Writes SameVersions :=
  setServerSeq_writes_of folderId fun _ => updateNodes_sameVersions _

theorem createBody_sameVersions (parentId name : String) (type : NodeType) :
    (createBody be call deviceId n parentId name type).Writes SameVersions := by
  have hinsert : (insertNode (call.createdRow n parentId name type)).Writes SameVersions :=
    Proc.Writes.stmt fun _ _ => ⟨rfl, rfl⟩
  exact (lockKey_writes _).bind fun _ => (lockKey_writes _).bind fun _ => hinsert.bind fun _ =>
    (insertOpLog_sameVersions _ _).bind fun _ => (setServerSeq_sameVersions _).bind fun _ => True.intro

theorem applyMetadataMutation_sameVersions (now : ℕ) (m : Mutation) :
    (applyMetadataMutation be n now m).Writes SameVersions := by
  cases m with
  | newVersion versionId contentHash sizeBytes manifest => exact True.intro
  | rename newName => exact updateNamed_writes (updateNodes_sameVersions _)
  | move newParentId => exact updateNamed_writes (updateNodes_sameVersions _)
  | delete => exact updateNamed_writes (updateNodes_sameVersions _)

variable (be) in
/-- A version and its chunks. -/
theorem submitted_insertVersion (row : VersionRow)
    (hsubmits : (∀ hash ∈ chunkHashes row.manifest, (s.chunk hash).isSome) → s.Submits call row) :
    Submitted call s ((insertVersion be row.nodeId row.authorDeviceId row.versionId row.contentHash row.sizeBytes
      row.manifest row.isConflictCopy).runBody s).1 := by
  have hstored : ∀ s' : Db, (∀ hash ∈ chunkHashes row.manifest, (s.chunk hash).isSome) →
      s'.versions = s.versions ++ [row] →
      s'.versionChunks = s.versionChunks ++ (chunkHashes row.manifest).map (fun chunkHash =>
        { versionId := row.versionId, nodeId := row.nodeId, chunkHash }) → Submitted call s s' := by
    intro s' hpresent hversions hchunks
    refine ⟨fun v hv => ?_, fun r hr => ?_⟩
    · rw [hversions]
      exact List.mem_append_left _ hv
    · rw [hchunks] at hr
      rcases List.mem_append.mp hr with hr | hr
      · exact .inl hr
      · obtain ⟨hash, hmem, he⟩ := List.mem_map.mp hr
        refine .inr ⟨row, ?_, hsubmits hpresent, ?_, ?_⟩
        · rw [hversions]
          simp
        · rw [← he]
        · rw [← he]
          exact hmem
  rcases runBody_insertVersion be (s := s) row with
    ⟨-, -, s', hrun, hnew⟩ | ⟨-, -, s', e, hrun, hhalf⟩ | ⟨-, e, hrun⟩
  · rw [hrun]
    exact hstored s' hnew.present hnew.versions hnew.versionChunks
  · rw [hrun]
    rcases hhalf.versionChunks with hsame | ⟨hpresent, hchunks⟩
    · refine ⟨fun v hv => ?_, fun r hr => .inl (hsame ▸ hr)⟩
      show v ∈ s'.versions
      rw [hhalf.versions]
      exact List.mem_append_left _ hv
    · exact hstored s' hpresent hhalf.versions hchunks
  · rw [hrun]
    exact Submitted.of_same (SameVersions.refl s)

/-- The end of every callback. -/
theorem submitted_answer {b : ℕ} {m : Mutation} {isConflictCopy : Bool} (answer : String → ℕ → SubmitOpResponse)
    (hp : call.principal = .device deviceId) (hop : call.op = .mutate n b m)
    (hwrite : s.grants n call.principal .write = true) : Submitted call s ((do
      let versionId ← insertVersionAndOp be call n deviceId b m isConflictCopy
      let serverSeq ← setServerSeq call.folderId n
      pure (answer versionId serverSeq) : DbProc SubmitOpResponse).runBody s).1 := by
  have hend : ∀ versionId s₁, Submitted call s s₁ → Submitted call s ((do
      let serverSeq ← setServerSeq call.folderId n
      pure (answer versionId serverSeq) : DbProc SubmitOpResponse).runBody s₁).1 := by
    intro versionId s₁ h
    have hset : (setServerSeq call.folderId n >>= fun serverSeq =>
        (pure (answer versionId serverSeq) : DbProc SubmitOpResponse)).Writes SameVersions :=
      (setServerSeq_sameVersions _).bind fun _ => True.intro
    exact h.same (hset.runBody s₁)
  have hlog : ∀ (payload : OpPayload) (versionId : String) (s₁ : Db), Submitted call s s₁ →
      Submitted call s ((insertOpLog be call n deviceId payload (some b) >>= fun _ =>
        (pure versionId : DbProc String)).runBody s₁).1 := by
    intro payload versionId s₁ h
    have hinsert : (insertOpLog be call n deviceId payload (some b) >>= fun _ =>
        (pure versionId : DbProc String)).Writes SameVersions :=
      (insertOpLog_sameVersions _ _).bind fun _ => True.intro
    exact h.same (hinsert.runBody s₁)
  have hstart : Submitted call s s := Submitted.of_same (SameVersions.refl s)
  refine Proc.runBody_bind_keeps ?_ hend
  cases m with
  | rename newName => exact hlog _ _ s hstart
  | move newParentId => exact hlog _ _ s hstart
  | delete => exact hlog _ _ s hstart
  | newVersion versionId contentHash sizeBytes manifest =>
    refine Proc.runBody_bind_keeps ?_ fun _ => hlog _ _
    let row := call.versionRow deviceId n versionId contentHash sizeBytes manifest isConflictCopy
    exact submitted_insertVersion be row fun hpresent =>
      ⟨hp, ⟨b, versionId, contentHash, sizeBytes, hop⟩, hwrite, hpresent⟩

theorem submitted_mutateBody {b : ℕ} {m : Mutation} (hp : call.principal = .device deviceId)
    (hop : call.op = .mutate n b m) (hwrite : s.grants n call.principal .write = true) :
    Submitted call s ((mutateBody be call deviceId n b m).runBody s).1 := by
  have hstart : Submitted call s s := Submitted.of_same (SameVersions.refl s)
  rw [mutateBody, Proc.runBody_bind_of_ok (runBody_lockKey _), loadNode,
    Proc.runBody_bind_of_ok (Proc.runBody_read _ s)]
  cases s.node n with
  | none => exact hstart
  | some r =>
    dsimp only
    split
    · -- only a new version touches the versions, and it changes nothing before
      have hreads : ∀ {α : Type} {p : DbProc α}, p.ReadOnly → ∀ {f : α → DbProc SubmitOpResponse},
          (∀ a, Submitted call s ((f a).runBody s).1) → Submitted call s ((p >>= f).runBody s).1 := by
        intro α p hp f hf
        rw [Proc.runBody_bind]
        rcases hp.runBody_cases s with ⟨a, hrun⟩ | ⟨e, hrun⟩
        · rw [hrun]
          exact hf a
        · rw [hrun]
          exact hstart
      refine hreads (checkCollision_readOnly call.folderId n m) fun _ => ?_
      refine hreads (previousParentId_readOnly n m) fun _ => ?_
      by_cases hm : ∃ versionId contentHash sizeBytes manifest, m = .newVersion versionId contentHash sizeBytes manifest
      · obtain ⟨versionId, contentHash, sizeBytes, manifest, rfl⟩ := hm
        exact submitted_answer (fun _ seq => .applied seq n) hp hop hwrite
      · have hinsert : (insertVersionAndOp be call n deviceId b m false).Writes SameVersions := by
          cases m with
          | newVersion versionId contentHash sizeBytes manifest => exact absurd ⟨_, _, _, _, rfl⟩ hm
          | rename newName => exact (insertOpLog_sameVersions _ _).bind fun _ => True.intro
          | move newParentId => exact (insertOpLog_sameVersions _ _).bind fun _ => True.intro
          | delete => exact (insertOpLog_sameVersions _ _).bind fun _ => True.intro
        have hall : (applyMetadataMutation be n call.now m >>= fun _ =>
            insertVersionAndOp be call n deviceId b m false >>= fun _ =>
              setServerSeq call.folderId n >>= fun serverSeq =>
                (pure (.applied serverSeq n) : DbProc SubmitOpResponse)).Writes SameVersions :=
          (applyMetadataMutation_sameVersions _ m).bind fun _ => hinsert.bind fun _ =>
            (setServerSeq_sameVersions _).bind fun _ => True.intro
        exact Submitted.of_same (hall.runBody s)
    · cases m with
      | newVersion versionId contentHash sizeBytes manifest =>
        exact submitted_answer (fun versionId seq => .conflictCopy seq n versionId) hp hop hwrite
      | rename newName => exact hstart
      | move newParentId => exact hstart
      | delete => exact hstart

/-- **A call alone** adds only chunks of the version it submits. -/
theorem serve_submitted (be : Backend) (call : SubmitCall) (s : Db) : Submitted call s (serve be call s).1 := by
  have hstart : Submitted call s s := Submitted.of_same (SameVersions.refl s)
  have hbumped : ∀ k, Submitted call s { s with lastSeq := s.lastSeq + k } := fun k => Submitted.of_same ⟨rfl, rfl⟩
  rw [serve, submitOp]
  cases hp : call.principal with
  | user userId => exact hstart
  | device deviceId =>
    cases hop : call.op with
    | create n parentId name type =>
      refine (requireWrite_readOnly parentId (.device deviceId)).exec_bind hstart fun _ _ => ?_
      have htx : Submitted call s
          ((inTransaction be n (createBody be call deviceId n parentId name type)).exec s none).1 :=
        state_inTransaction (callback_createBody be call deviceId n parentId name type)
          (Submitted.of_same ((createBody_sameVersions parentId name type).runBody s)) hbumped
      rcases exec_createNode be call deviceId n parentId name type s with
        ⟨s', a, hrun, hexec⟩ | ⟨s', e, r, hrun, hexec, -⟩
      · rw [hrun] at htx
        rw [hexec]
        exact htx
      · rw [hrun] at htx
        rw [hexec]
        exact htx
    | mutate n b m =>
      refine (requireWrite_readOnly n (.device deviceId)).exec_bind hstart fun _ hgrant => ?_
      have hwrite : s.grants n call.principal .write = true := by
        rw [hp]
        exact runBody_requireWrite_ok hgrant
      refine (checkMoveTarget_readOnly call.folderId m).exec_bind hstart fun _ _ => ?_
      exact state_inTransaction (callback_mutateBody be call deviceId n b m) (submitted_mutateBody hp hop hwrite)
        hbumped

theorem AddsChunks.sameVersions (h : AddsChunks s s₁) : SameVersions s s₁ where
  versions := by
    have hsame := congrArg Db.versions h.same
    exact hsame
  versionChunks := by
    have hsame := congrArg Db.versionChunks h.same
    exact hsame

theorem createFolder_sameVersions (be : Backend) (call : FolderCall) (s : Db) :
    SameVersions s ((createFolder be call).exec s none).1 := by
  refine (resolveEffectiveUserId_readOnly call.principal).exec_bind (SameVersions.refl s) fun owner _ => ?_
  cases truthy owner with
  | none => exact SameVersions.refl s
  | some ownerUserId =>
    have hfolder : (insertSharedFolder call.folderId).Writes SameVersions := Proc.Writes.stmt fun _ _ => ⟨rfl, rfl⟩
    have hroot : (insertNode call.root).Writes SameVersions := Proc.Writes.stmt fun _ _ => ⟨rfl, rfl⟩
    have hgrant : (insertFolderGrant (call.ownerGrant ownerUserId)).Writes SameVersions :=
      Proc.Writes.stmt fun _ _ => ⟨rfl, rfl⟩
    have hbody : (createFolderBody be call ownerUserId).Writes SameVersions :=
      hfolder.bind fun _ => (lockKey_writes _).bind fun _ => hroot.bind fun _ => hgrant.bind fun _ => True.intro
    exact state_inTransaction (callback_createFolderBody be call ownerUserId) (hbody.runBody s) fun _ => ⟨rfl, rfl⟩

end Stores

/-! ### Histories -/

/-- A request to the metadata router or to the blobstore. -/
inductive Event where
  | request (req : Request)
  | batch (call : BatchCall)
  deriving DecidableEq, Repr

/-- The database after the request. -/
def Event.serve (be : Backend) (s : Db) : Event → Db
  | .request req => req.serve be s
  | .batch call => ((handleBatch call).exec s none).1

/-- Some version with the chunk, submitted by another principal, belongs to a node that the principal
may read. -/
def Db.shows (s : Db) (principal : Principal) (hash : String) : Prop :=
  ∃ v ∈ s.versions, hash ∈ chunkHashes v.manifest ∧ principal ≠ .device v.authorDeviceId ∧
    s.grants v.nodeId principal .read = true

instance (s : Db) (principal : Principal) (hash : String) : Decidable (s.shows principal hash) :=
  inferInstanceAs (Decidable (∃ _ ∈ _, _))

/-- The database, and as a ghost the databases before it. -/
structure Vault where
  db : Db
  past : List Db := []

namespace Vault

/-- No folder and no chunk yet. -/
def start (devices : List DeviceRow) : Vault := { db := { devices } }

/-- The vault after a request. -/
def next (be : Backend) (l : Vault) (e : Event) : Vault := { db := e.serve be l.db, past := l.db :: l.past }

def step (be : Backend) (l : Vault) (e : Event) : Option Vault := some (l.next be e)

/-- The principal knows the chunk: it had the bytes from the start, or at some time the server showed it a version
with the chunk by another principal. -/
def Knows (holds : Principal → Set String) (l : Vault) (principal : Principal) (hash : String) : Prop :=
  hash ∈ holds principal ∨ ∃ s ∈ l.db :: l.past, s.shows principal hash

/-- A version is submitted with chunks that its author knows. -/
def SubmitOk (holds : Principal → Set String) (l : Vault) : Event → Prop
  | .request (.submitOp call) => ∀ v, l.db.Submits call v → ∀ hash ∈ chunkHashes v.manifest,
      l.Knows holds call.principal hash
  | _ => True

/-- **No access by hash**: whoever is given a download has the chunk itself, or was shown it. -/
def Sealed (holds : Principal → Set String) (l : Vault) : Event → Prop
  | .batch call => ∀ hash, givesDownload ((handleBatch call).exec l.db none).2 hash →
      l.Knows holds call.principal hash
  | _ => True

/-- **The invariant** of a history: every chunk that is referred to is known to the author of a version
of the node. -/
def Kept (holds : Principal → Set String) (l : Vault) : Prop :=
  ∀ r ∈ l.db.versionChunks, ∃ v ∈ l.db.versions, v.nodeId = r.nodeId ∧ r.chunkHash ∈ chunkHashes v.manifest ∧
    l.Knows holds (.device v.authorDeviceId) r.chunkHash

section Invariant

variable {be : Backend} {holds : Principal → Set String} {l : Vault} {e : Event}

theorem Knows.next {principal : Principal} {hash : String} (h : l.Knows holds principal hash) :
    (l.next be e).Knows holds principal hash := by
  rcases h with hown | ⟨s, hs, hshows⟩
  · exact .inl hown
  · exact .inr ⟨s, List.mem_cons_of_mem _ hs, hshows⟩

/-- Requests that leave the versions alone. -/
theorem Kept.same (h : l.Kept holds) (hsame : SameVersions l.db (e.serve be l.db)) : (l.next be e).Kept holds := by
  intro r hr
  have hold : r ∈ l.db.versionChunks := by
    rw [← hsame.versionChunks]
    exact hr
  obtain ⟨v, hv, hnode, hhash, hknows⟩ := h r hold
  refine ⟨v, ?_, hnode, hhash, hknows.next⟩
  show v ∈ (e.serve be l.db).versions
  rw [hsame.versions]
  exact hv

theorem Kept.submitOp {call : SubmitCall} (h : l.Kept holds) (hok : l.SubmitOk holds (.request (.submitOp call))) :
    (l.next be (.request (.submitOp call))).Kept holds := by
  intro r hr
  have hstep := serve_submitted be call l.db
  rcases hstep.refs r hr with hold | ⟨v, hv, hsubmits, hnode, hhash⟩
  · obtain ⟨v, hv, hnode, hhash, hknows⟩ := h r hold
    exact ⟨v, hstep.versions v hv, hnode, hhash, hknows.next⟩
  · have hknows := hok v hsubmits r.chunkHash hhash
    rw [hsubmits.author] at hknows
    exact ⟨v, hv, hnode, hhash, hknows.next⟩

/-- **One request** keeps the invariant. -/
theorem Kept.next (h : l.Kept holds) (hok : l.SubmitOk holds e) : (l.next be e).Kept holds := by
  cases e with
  | batch call =>
    have hadds : AddsChunks l.db ((handleBatch call).exec l.db none).1 :=
      (handleBatch_writes call).exec l.db fun u hu => absurd hu (Option.not_mem_none u)
    exact h.same hadds.sameVersions
  | request req =>
    rcases edit_request be l.db req with hedit | ⟨call, rfl⟩ | ⟨call, rfl⟩
    · exact h.same hedit.toSameVersions
    · exact h.same (createFolder_sameVersions be call l.db)
    · exact h.submitOp hok

/-- Under the invariant every download is known. -/
theorem Kept.sealed (h : l.Kept holds) : l.Sealed holds e := by
  cases e with
  | request req => exact True.intro
  | batch call =>
    intro hash hgives
    have hdown := downloadable_of_handleBatch hgives
    rw [Db.downloadable, List.any_eq_true] at hdown
    obtain ⟨r, hr, hcond⟩ := hdown
    rw [Bool.and_eq_true, decide_eq_true_eq] at hcond
    obtain ⟨rfl, hread⟩ := hcond
    obtain ⟨v, hv, hnode, hhash, hknows⟩ := h r hr
    by_cases hself : call.principal = .device v.authorDeviceId
    · rw [hself]
      exact hknows
    · refine .inr ⟨l.db, List.mem_cons_self, v, hv, hhash, hself, ?_⟩
      rw [hnode]
      exact hread

end Invariant

end Vault

/-- **Knowing a hash gives no access** in a history in which every version is submitted with chunks that
its author has or was shown. -/
theorem downloads_sealed (be : Backend) (holds : Principal → Set String) (devices : List DeviceRow)
    (events : List Event)
    (hok : Run.Along (Vault.step be) (Vault.SubmitOk holds) (Vault.start devices) events) :
    Run.Along (Vault.step be) (Vault.Sealed holds) (Vault.start devices) events := by
  refine hok.of_invariant (I := Vault.Kept holds) (fun l e l' hkept hok hstep => ?_) (fun l e hkept _ => hkept.sealed)
    fun r hr => absurd hr List.not_mem_nil
  cases hstep
  exact hkept.next hok

/-! ### Runs -/

/-- The devices of alice and of bob. -/
def twoDevices : List DeviceRow :=
  [{ deviceId := "a", userId := some "alice" }, { deviceId := "b", userId := some "bob" }]

/-- Only alice's device has the chunk `c`. -/
def aliceHolds (principal : Principal) : Set String := { hash | principal = .device "a" ∧ hash = "c" }

instance (principal : Principal) (hash : String) : Decidable (hash ∈ aliceHolds principal) :=
  inferInstanceAs (Decidable (principal = .device "a" ∧ hash = "c"))

instance (l : Vault) (principal : Principal) (hash : String) : Decidable (l.Knows aliceHolds principal hash) :=
  inferInstanceAs (Decidable (hash ∈ aliceHolds principal ∨ ∃ s ∈ l.db :: l.past, s.shows principal hash))

/-- The condition, checked for every version that a request asks for. -/
def Vault.submitSeen (l : Vault) : Event → Bool
  | .request (.submitOp { op := .mutate _ _ (.newVersion _ _ _ manifest), principal, .. }) =>
      (chunkHashes manifest).all fun hash => l.Knows aliceHolds principal hash
  | _ => true

theorem Vault.submitOk_of_seen {l : Vault} {e : Event} (h : l.submitSeen e = true) : l.SubmitOk aliceHolds e := by
  cases e with
  | batch call => exact True.intro
  | request req =>
    cases req with
    | submitOp call =>
      intro v hsubmits hash hhash
      obtain ⟨folderId, principal, op, newId, now, request⟩ := call
      obtain ⟨b, versionId, contentHash, sizeBytes, hop⟩ := hsubmits.op
      dsimp only at hop
      rw [hop] at h
      have hall := List.all_eq_true.mp h hash hhash
      exact of_decide_eq_true hall
    | createFolder call => exact True.intro
    | createGrant call => exact True.intro
    | deleteGrant principal grantId => exact True.intro
    | regenerateGrant call => exact True.intro
    | createInvite call => exact True.intro
    | acceptInvite call => exact True.intro
    | deleteInvite principal folderId inviteId => exact True.intro

/-- A new file with the chunk `c`. -/
def fileEvents (deviceId folderId rootNodeId nodeId : String) (basedOnSeq : ℕ) : List Event :=
  let call op : SubmitCall := { folderId, principal := .device deviceId, op, newId := "", now := 0, request := 0 }
  [.request (.submitOp (call (.create nodeId rootNodeId "x" .file))),
    .request (.submitOp (call (.mutate nodeId basedOnSeq
      (.newVersion nodeId "h" 1 [{ chunkHash := "c", offset := 0, length := 1 }]))))]

/-- A batch for the chunk `c`. -/
def chunkBatch (deviceId operation : String) : Event :=
  .batch { principal := .device deviceId, operation, objects := [{ oid := "c", size := 1 }] }

/-- Alice makes a file. -/
def aliceEvents : List Event :=
  [.request (.createFolder { principal := .user "alice", folderId := "f", rootNodeId := "root", grantId := "g0" }),
    chunkBatch "a" "upload"] ++ fileEvents "a" "f" "root" "n" 1

/-- Alice invites bob, who accepts and downloads. -/
def sharedEvents : List Event :=
  aliceEvents ++
    [.request (.createInvite { principal := .device "a", folderId := "f", invitedEmail := .string "bob@b",
                               scopeNodeId := .undefined, canWrite := false, now := 0, inviteId := "i",
                               inviteToken := "t" }),
      .request (.acceptInvite { principal := .user "bob", inviteToken := "t", now := 0, grantId := "g1" }),
      chunkBatch "b" "download"]

/-- The answer to a batch. -/
def Vault.answer (l : Vault) : Event → Except ApiError (List BatchResponseObject)
  | .batch call => ((handleBatch call).exec l.db none).2
  | _ => .ok []

/-- The download that is given for the chunk `c`. -/
def givenDownload : Except ApiError (List BatchResponseObject) :=
  .ok [{ oid := "c", size := 1, actions := some (.download "chunks/c") }]

theorem downloads_sealed_shared :
    Run.Along (Vault.step .pg) (Vault.Sealed aliceHolds) (Vault.start twoDevices) sharedEvents ∧
      (Run.run (Vault.step .pg) (Vault.start twoDevices) sharedEvents).answer (chunkBatch "b" "download") =
        givenDownload := by
  refine ⟨?_, by decide +kernel⟩
  have hseen : Run.Along (Vault.step .pg) (fun l e => l.submitSeen e = true) (Vault.start twoDevices)
      sharedEvents := by decide +kernel
  exact downloads_sealed .pg aliceHolds twoDevices sharedEvents (hseen.mono fun _ _ => Vault.submitOk_of_seen)

/-- Bob has no grant of alice's.  He makes a file in a folder of his own and submits a version with the
hash of her chunk. -/
def stolenEvents : List Event :=
  aliceEvents ++
    [.request (.createFolder { principal := .user "bob", folderId := "g", rootNodeId := "groot", grantId := "g1" })] ++
    fileEvents "b" "g" "groot" "m" 3

/-- **A stranger's hash**: bob is given the download of a chunk that he neither has nor was shown. -/
theorem downloads_by_hash :
    ¬ Run.Along (Vault.step .pg) (Vault.Sealed aliceHolds) (Vault.start twoDevices)
      (stolenEvents ++ [chunkBatch "b" "download"]) := by
  have hgiven : (Run.run (Vault.step .pg) (Vault.start twoDevices) stolenEvents).answer
      (chunkBatch "b" "download") = givenDownload := by decide +kernel
  have hunknown : ¬ (Run.run (Vault.step .pg) (Vault.start twoDevices) stolenEvents).Knows aliceHolds
      (.device "b") "c" := by decide +kernel
  intro h
  refine hunknown ((Run.along_append.mp h).2.1 "c" ?_)
  exact ⟨_, hgiven, _, List.mem_singleton_self _, rfl, _, rfl⟩

end Valv.Server
