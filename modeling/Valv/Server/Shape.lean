import Valv.Lib.Effect
import Valv.Server.Accept

/-!
# What a call can write

No statement of a call touches the shared folders, the devices or the grants.  A row of `nodes`
keeps its folder and its type for good, and its parent unless the call moves it there; a new row
is the one the call creates; a new op is about the node of the call and under the folder of its
URL.

* `Reshapes`: the above, as a relation between two databases; `Unlogged`: without a new op.
* `submitOp_writes`: every write of a call is such a change.
* `serve_logs`: a call that is not committed leaves the log as it was.
-/

namespace Valv.Server

open Valv.Conc Valv.Table

/-- The tables that say who may do what are the same. -/
structure SameGrants (s s' : Db) : Prop where
  sharedFolders : s'.sharedFolders = s.sharedFolders
  devices : s'.devices = s.devices
  folderGrants : s'.folderGrants = s.folderGrants
  folderInvites : s'.folderInvites = s.folderInvites

/-- A change that a call can make to the nodes' places and to the log. -/
structure Reshapes (call : SubmitCall) (s s' : Db) : Prop extends SameGrants s s' where
  kept : ∀ n r, s.node n = some r → ∃ r', s'.node n = some r' ∧ r'.folderId = r.folderId ∧
    r'.type = r.type ∧ (r'.parentId = r.parentId ∨
      ∃ b p, call.op = .mutate n b (.move p) ∧ r'.parentId = some p)
  added : ∀ n r', s.node n = none → s'.node n = some r' → ∃ parentId name,
    call.op = .create n parentId name r'.type ∧ r'.folderId = call.folderId ∧ r'.parentId = some parentId
  ids : s'.nodes.map NodeRow.nodeId = s.nodes.map NodeRow.nodeId ∨
    ∃ n parentId name type, call.op = .create n parentId name type
  logged : ∀ e ∈ s'.opLog, e ∈ s.opLog ∨ (e.folderId = call.folderId ∧ e.nodeId = call.op.nodeId)
  lastSeq : s.lastSeq ≤ s'.lastSeq

/-- The same without a new op. -/
structure Unlogged (call : SubmitCall) (s s' : Db) : Prop extends Reshapes call s s' where
  opLog : s'.opLog = s.opLog

variable {call : SubmitCall} {s s' s'' : Db}

theorem SameGrants.refl (s : Db) : SameGrants s s := ⟨rfl, rfl, rfl, rfl⟩

theorem SameGrants.trans (h : SameGrants s s') (h' : SameGrants s' s'') : SameGrants s s'' :=
  ⟨h'.sharedFolders.trans h.sharedFolders, h'.devices.trans h.devices,
    h'.folderGrants.trans h.folderGrants, h'.folderInvites.trans h.folderInvites⟩

/-- A change to other tables. -/
theorem Unlogged.of_same (hg : SameGrants s s') (hn : s'.nodes = s.nodes) (ho : s'.opLog = s.opLog)
    (hl : s.lastSeq ≤ s'.lastSeq) : Unlogged call s s' where
  kept n r hr := ⟨r, by rw [Db.node, hn]; exact hr, rfl, rfl, .inl rfl⟩
  added n r' hnone hr' := by
    rw [Db.node, hn] at hr'
    exact absurd (hr'.symm.trans hnone) (Option.some_ne_none r')
  ids := .inl (by rw [hn])
  logged e he := .inl (ho ▸ he)
  toSameGrants := hg
  lastSeq := hl
  opLog := ho

instance : Std.Refl (Unlogged call) := ⟨fun s => Unlogged.of_same (SameGrants.refl s) rfl rfl le_rfl⟩

instance : Std.Refl (Reshapes call) := ⟨fun s => (refl_of (Unlogged call) s).toReshapes⟩

theorem Reshapes.trans (h : Reshapes call s s') (h' : Reshapes call s' s'') : Reshapes call s s'' where
  kept n r hr := by
    obtain ⟨r', hr', hfolder', htype', hparent'⟩ := h.kept n r hr
    obtain ⟨r'', hr'', hfolder'', htype'', hparent''⟩ := h'.kept n r' hr'
    refine ⟨r'', hr'', hfolder''.trans hfolder', htype''.trans htype', ?_⟩
    rcases hparent'' with hsame | hmoved
    · rw [hsame]
      exact hparent'
    · exact .inr hmoved
  added n r'' hnone hr'' := by
    cases hr' : s'.node n with
    | none =>
      obtain ⟨parentId, name, hop, hfolder, hparent⟩ := h'.added n r'' hr' hr''
      exact ⟨parentId, name, hop, hfolder.trans rfl, hparent⟩
    | some r' =>
      obtain ⟨parentId, name, hop, hfolder, hparent⟩ := h.added n r' hnone hr'
      obtain ⟨r₂, hr₂, hfolder', htype', hparent'⟩ := h'.kept n r' hr'
      cases hr''.symm.trans hr₂
      refine ⟨parentId, name, by rw [hop, htype'], hfolder'.trans hfolder, ?_⟩
      rcases hparent' with hsame | ⟨b, p, hmove, -⟩
      · exact hsame.trans hparent
      · rw [hop] at hmove
        cases hmove
  ids := by
    rcases h'.ids with hids' | hcreate
    · rcases h.ids with hids | hcreate
      · exact .inl (hids'.trans hids)
      · exact .inr hcreate
    · exact .inr hcreate
  logged e he := by
    rcases h'.logged e he with he' | hnew
    · exact h.logged e he'
    · exact .inr hnew
  toSameGrants := h.toSameGrants.trans h'.toSameGrants
  lastSeq := h.lastSeq.trans h'.lastSeq

instance : IsTrans Db (Reshapes call) := ⟨fun _ _ _ => Reshapes.trans⟩

instance : IsTrans Db (Unlogged call) :=
  ⟨fun _ _ _ h h' => ⟨h.toReshapes.trans h'.toReshapes, h'.opLog.trans h.opLog⟩⟩

/-- An update of rows that leaves their places alone, or moves the node of the call. -/
theorem Unlogged.of_update {n : String} {f : NodeRow → NodeRow} (hid : ∀ r, (f r).nodeId = r.nodeId)
    (hfolder : ∀ r, (f r).folderId = r.folderId) (htype : ∀ r, (f r).type = r.type)
    (hparent : (∀ r, (f r).parentId = r.parentId) ∨
      ∃ b p, call.op = .mutate n b (.move p) ∧ ∀ r, (f r).parentId = some p) (s : Db) :
    Unlogged call s { s with nodes := update NodeRow.nodeId n f s.nodes } where
  kept m r hr := by
    by_cases hm : m = n
    · subst hm
      have hself : Db.node { s with nodes := update NodeRow.nodeId m f s.nodes } m = some (f r) := by
        rw [Db.node, lookup_update_self fun r hr => (hid r).trans hr]
        rw [Db.node] at hr
        rw [hr]
        rfl
      refine ⟨f r, hself, hfolder r, htype r, ?_⟩
      rcases hparent with hsame | ⟨b, p, hop, hmoved⟩
      · exact .inl (hsame r)
      · exact .inr ⟨b, p, hop, hmoved r⟩
    · refine ⟨r, ?_, rfl, rfl, .inl rfl⟩
      rw [Db.node, lookup_update_ne hm fun r hr => (hid r).trans hr]
      exact hr
  added m r' hnone hr' := by
    by_cases hm : m = n
    · subst hm
      rw [Db.node, lookup_update_self fun r hr => (hid r).trans hr] at hr'
      rw [Db.node] at hnone
      rw [hnone] at hr'
      cases hr'
    · rw [Db.node, lookup_update_ne hm fun r hr => (hid r).trans hr] at hr'
      exact absurd (hr'.symm.trans hnone) (Option.some_ne_none r')
  ids := .inl (map_key_update fun r hr => (hid r).trans hr)
  logged e he := .inl he
  toSameGrants := ⟨rfl, rfl, rfl, rfl⟩
  lastSeq := le_rfl
  opLog := rfl

/-- The row of a create. -/
theorem Unlogged.of_insert {n parentId name : String} {type : NodeType}
    (hop : call.op = .create n parentId name type) (s : Db) :
    Unlogged call s { s with nodes := s.nodes ++ [call.createdRow n parentId name type] } where
  kept m r hr := by
    refine ⟨r, ?_, rfl, rfl, .inl rfl⟩
    rw [Db.node] at hr
    rw [Db.node, lookup_append, hr]
    rfl
  added m r' hnone hr' := by
    rw [Db.node] at hnone
    rw [Db.node, lookup_append, hnone, Option.none_or, lookup_cons] at hr'
    split at hr'
    · next hm =>
      have hm' : n = m := hm
      subst hm'
      cases hr'
      exact ⟨parentId, name, hop, rfl, rfl⟩
    · rw [lookup_nil] at hr'
      cases hr'
  ids := .inr ⟨n, parentId, name, type, hop⟩
  logged e he := .inl he
  toSameGrants := ⟨rfl, rfl, rfl, rfl⟩
  lastSeq := le_rfl
  opLog := rfl

/-- An op about the node of the call. -/
theorem Reshapes.of_append {e : OpLogRow} (hfolder : e.folderId = call.folderId) (hnode : e.nodeId = call.op.nodeId)
    (s : Db) : Reshapes call s (Db.appendOp e s) where
  kept n r hr := ⟨r, hr, rfl, rfl, .inl rfl⟩
  added n r' hnone hr' := by
    have hr : s.node n = some r' := hr'
    exact absurd (hnone.symm.trans hr) nofun
  ids := .inl rfl
  logged e' he' := by
    rcases List.mem_append.mp he' with he' | he'
    · exact .inl he'
    · rw [List.mem_singleton.mp he']
      exact .inr ⟨hfolder, hnode⟩
  toSameGrants := ⟨rfl, rfl, rfl, rfl⟩
  lastSeq := le_rfl

theorem Unlogged.bump (s : Db) : Unlogged call s (Sequence.bump DbKey s) :=
  of_same ⟨rfl, rfl, rfl, rfl⟩ rfl rfl (Nat.le_succ _)

/-! ### The statements -/

section Writes

variable {be : Backend} {call : SubmitCall} {deviceId n : String}

theorem lockKey_writes {R : Db → Db → Prop} (k : DbKey) : (lockKey be k).Writes R := by
  cases be <;> exact True.intro

theorem lockKeys_writes {R : Db → Db → Prop} (ks : List DbKey) : (lockKeys be ks).Writes R := by
  induction ks with
  | nil => exact True.intro
  | cons k ks ih => exact (lockKey_writes k).bind fun _ => ih

theorem updateNamed_writes {R : Db → Db → Prop} [Std.Refl R] {f : NodeRow → NodeRow}
    (h : (updateNodes n f).Writes R) : (updateNamed be n f).Writes R := by
  cases be with
  | pg => exact (Proc.Writes.read _).bind fun row => (lockKeys_writes _).bind fun _ => h
  | sqlite => exact h

/-- An update that leaves the node where it is. -/
theorem updateNodes_writes {f : NodeRow → NodeRow} (hid : ∀ r, (f r).nodeId = r.nodeId)
    (hfolder : ∀ r, (f r).folderId = r.folderId) (htype : ∀ r, (f r).type = r.type)
    (hparent : ∀ r, (f r).parentId = r.parentId) : (updateNodes n f).Writes (Unlogged call) :=
  Proc.Writes.stmt fun _ => Unlogged.of_update hid hfolder htype (.inl hparent)

/-- The insertion of an op takes a `server_seq` and adds a row. -/
theorem insertOpLog_writes_of {R : Db → Db → Prop} [Std.Refl R] [IsTrans Db R] {payload : OpPayload} {b : Option ℕ}
    (hbump : ∀ s, R s (Sequence.bump DbKey s))
    (happend : ∀ e s, e.folderId = call.folderId → e.nodeId = n → R s (Db.appendOp e s)) :
    (insertOpLog be call n deviceId payload b).Writes R := by
  cases be with
  | pg => exact ⟨hbump, fun q => Proc.Writes.stmt fun v s => happend _ s rfl rfl⟩
  | sqlite => exact Proc.Writes.stmt fun v s => IsTrans.trans _ _ _ (hbump s) (happend _ _ rfl rfl)

theorem setServerSeq_writes_of {R : Db → Db → Prop} [Std.Refl R] (folderId : String)
    (h : ∀ serverSeq, (updateNodes n fun r => { r with serverSeq }).Writes R) :
    (setServerSeq folderId n).Writes R := by
  have hread : (latestSeqForNode folderId n).Writes R := Proc.Writes.read _
  exact hread.bind fun serverSeq => (h serverSeq).bind fun _ => True.intro

variable (be deviceId) in
theorem insertOpLog_writes (payload : OpPayload) (b : Option ℕ) (hn : call.op.nodeId = n) :
    (insertOpLog be call n deviceId payload b).Writes (Reshapes call) :=
  insertOpLog_writes_of (fun s => (Unlogged.bump s).toReshapes) fun _ s hfolder hnode =>
    Reshapes.of_append hfolder (hnode.trans hn.symm) s

variable (call) in
theorem setServerSeq_writes (folderId : String) : (setServerSeq folderId n).Writes (Reshapes call) := by
  refine setServerSeq_writes_of folderId fun serverSeq => ?_
  have hupdate : (updateNodes n fun r => { r with serverSeq }).Writes (Unlogged call) :=
    updateNodes_writes (fun _ => rfl) (fun _ => rfl) (fun _ => rfl) fun _ => rfl
  exact hupdate.mono fun _ _ h => h.toReshapes

/-- A statement on another table. -/
theorem stmt_writes {check : Db → Option ApiError} {write : Db → Db → Db}
    (hg : ∀ v s, SameGrants s (write v s)) (hn : ∀ v s, (write v s).nodes = s.nodes)
    (ho : ∀ v s, (write v s).opLog = s.opLog) (hl : ∀ v s, s.lastSeq ≤ (write v s).lastSeq) :
    (Proc.stmt check write : DbProc Unit).Writes (Unlogged call) :=
  Proc.Writes.stmt fun v s => Unlogged.of_same (hg v s) (hn v s) (ho v s) (hl v s)

theorem updateRefcounts_writes (hashes : List String) (f : ℕ → ℕ) :
    (updateRefcounts hashes f).Writes (Unlogged call) :=
  stmt_writes (fun _ _ => ⟨rfl, rfl, rfl, rfl⟩) (fun _ _ => rfl) (fun _ _ => rfl) fun _ _ => le_rfl

variable (be call deviceId) in
theorem insertVersion_writes (versionId contentHash : String) (sizeBytes : ℕ) (manifest : List ChunkRef)
    (isConflictCopy : Bool) :
    (insertVersion be n deviceId versionId contentHash sizeBytes manifest isConflictCopy).Writes
      (Unlogged call) := by
  have hprevious : (previousManifest n isConflictCopy).Writes (Unlogged call) := by
    rw [previousManifest]
    split
    · exact True.intro
    · exact Proc.Writes.read _
  have hrow : ∀ row : VersionRow, (insertVersionRow row).Writes (Unlogged call) := fun row =>
    stmt_writes (fun _ _ => ⟨rfl, rfl, rfl, rfl⟩) (fun _ _ => rfl) (fun _ _ => rfl) fun _ _ => le_rfl
  have hreference : (referenceChunks versionId n (chunkHashes manifest)).Writes (Unlogged call) := by
    rw [referenceChunks]
    split
    · exact True.intro
    · have hchunks : (insertVersionChunks ((chunkHashes manifest).map fun chunkHash =>
          { versionId, nodeId := n, chunkHash })).Writes (Unlogged call) :=
        stmt_writes (fun _ _ => ⟨rfl, rfl, rfl, rfl⟩) (fun _ _ => rfl) (fun _ _ => rfl) fun _ _ => le_rfl
      exact hchunks.bind fun _ => updateRefcounts_writes _ _
  have hreplace : ∀ previous, (replaceCurrent n versionId previous isConflictCopy).Writes (Unlogged call) := by
    intro previous
    rw [replaceCurrent]
    split
    · exact True.intro
    · have hrelease : (releaseChunks (chunkHashes previous)).Writes (Unlogged call) := by
        rw [releaseChunks]
        split
        · exact True.intro
        · exact updateRefcounts_writes _ _
      exact hrelease.bind fun _ => updateNodes_writes (fun _ => rfl) (fun _ => rfl) (fun _ => rfl) fun _ => rfl
  exact hprevious.bind fun previous => (lockKey_writes _).bind fun _ => (hrow _).bind fun _ =>
    hreference.bind fun _ => hreplace previous

variable (be deviceId) in
theorem insertVersionAndOp_writes (b : ℕ) (m : Mutation) (isConflictCopy : Bool)
    (hn : call.op.nodeId = n) :
    (insertVersionAndOp be call n deviceId b m isConflictCopy).Writes (Reshapes call) := by
  cases m with
  | newVersion versionId contentHash sizeBytes manifest =>
    have hversion := (insertVersion_writes be call deviceId (n := n)
      (if isConflictCopy then call.newId else versionId) contentHash sizeBytes manifest isConflictCopy).mono
      fun _ _ h => h.toReshapes
    exact hversion.bind fun _ => (insertOpLog_writes be deviceId _ _ hn).bind fun _ => True.intro
  | rename newName => exact (insertOpLog_writes be deviceId _ _ hn).bind fun _ => True.intro
  | move newParentId => exact (insertOpLog_writes be deviceId _ _ hn).bind fun _ => True.intro
  | delete => exact (insertOpLog_writes be deviceId _ _ hn).bind fun _ => True.intro

variable (be) in
theorem applyMetadataMutation_writes {b : ℕ} {m : Mutation} (now : ℕ) (hop : call.op = .mutate n b m) :
    (applyMetadataMutation be n now m).Writes (Unlogged call) := by
  cases m with
  | newVersion versionId contentHash sizeBytes manifest => exact True.intro
  | rename newName =>
    exact updateNamed_writes (updateNodes_writes (fun _ => rfl) (fun _ => rfl) (fun _ => rfl) fun _ => rfl)
  | delete =>
    exact updateNamed_writes (updateNodes_writes (fun _ => rfl) (fun _ => rfl) (fun _ => rfl) fun _ => rfl)
  | move newParentId =>
    exact updateNamed_writes (Proc.Writes.stmt fun _ =>
      Unlogged.of_update (fun _ => rfl) (fun _ => rfl) (fun _ => rfl) (.inr ⟨b, newParentId, hop, fun _ => rfl⟩))

theorem mutateBody_writes {b : ℕ} {m : Mutation} (hop : call.op = .mutate n b m) :
    (mutateBody be call deviceId n b m).Writes (Reshapes call) := by
  have hn : call.op.nodeId = n := by rw [hop, SubmitOpRequest.nodeId]
  have hload : (loadNode n).Writes (Reshapes call) := Proc.Writes.read _
  refine (lockKey_writes _).bind fun _ => hload.bind fun row => ?_
  cases row with
  | none => exact True.intro
  | some r =>
    dsimp only
    split
    · have hcollision := (checkCollision_readOnly call.folderId n m).writes (R := Reshapes call)
      have hprevious := (previousParentId_readOnly n m).writes (R := Reshapes call)
      exact hcollision.bind fun _ => hprevious.bind fun _ =>
        ((applyMetadataMutation_writes be call.now hop).mono fun _ _ h => h.toReshapes).bind fun _ =>
          (insertVersionAndOp_writes be deviceId b m false hn).bind fun _ =>
            (setServerSeq_writes call call.folderId).bind fun _ => True.intro
    · cases m with
      | newVersion versionId contentHash sizeBytes manifest =>
        exact (insertVersionAndOp_writes be deviceId b _ true hn).bind fun _ =>
          (setServerSeq_writes call call.folderId).bind fun _ => True.intro
      | rename newName => exact True.intro
      | move newParentId => exact True.intro
      | delete => exact True.intro

theorem createBody_writes {parentId name : String} {type : NodeType}
    (hop : call.op = .create n parentId name type) :
    (createBody be call deviceId n parentId name type).Writes (Reshapes call) := by
  have hn : call.op.nodeId = n := by rw [hop, SubmitOpRequest.nodeId]
  have hinsert : (insertNode (call.createdRow n parentId name type)).Writes (Reshapes call) :=
    Proc.Writes.stmt fun _ s => (Unlogged.of_insert hop s).toReshapes
  exact (lockKey_writes _).bind fun _ => (lockKey_writes _).bind fun _ => hinsert.bind fun _ =>
    (insertOpLog_writes be deviceId _ _ hn).bind fun _ => (setServerSeq_writes call call.folderId).bind fun _ => True.intro

theorem inTransaction_writes {α : Type} {R : Db → Db → Prop} {body : DbProc α} (h : body.Writes R) :
    (inTransaction be n body).Writes R := by
  cases be with
  | pg => exact h.transaction
  | sqlite => exact h.unprotected _

/-- **Every write of a call** is a change of the shape it may make. -/
theorem submitOp_writes : (submitOp be call).Writes (Reshapes call) := by
  rw [submitOp]
  cases hp : call.principal with
  | user userId => exact True.intro
  | device deviceId =>
    cases hop : call.op with
    | create nodeId parentId name type =>
      have hgrant := (requireWrite_readOnly parentId (.device deviceId)).writes (R := Reshapes call)
      refine hgrant.bind fun _ => (inTransaction_writes (createBody_writes hop)).attempt fun e => ?_
      have hwinner : (Proc.read fun s => s.winner call.folderId parentId name : DbProc _).Writes
          (Reshapes call) := Proc.Writes.read _
      refine hwinner.bind fun winner => ?_
      cases winner <;> exact True.intro
    | mutate nodeId b m =>
      have hgrant := (requireWrite_readOnly nodeId (.device deviceId)).writes (R := Reshapes call)
      have htarget := (checkMoveTarget_readOnly call.folderId m).writes (R := Reshapes call)
      exact hgrant.bind fun _ => htarget.bind fun _ => inTransaction_writes (mutateBody_writes hop)

variable (be call) in
/-- A call that nobody interleaves with reshapes the database. -/
theorem serve_reshapes (s : Db) : Reshapes call s (serve be call s).1 :=
  submitOp_writes.exec s fun _ hu => absurd hu nofun

end Writes

/-! ### The log and the answer -/

section Logs

variable {be : Backend} {call : SubmitCall} {deviceId n : String} {s : Db}

variable {α : Type}

/-- The op of a committed call has a node, and a call that is not committed has no op. -/
def Logs (n : String) (s : Db) (r : Db × Except ApiError SubmitOpResponse) : Prop :=
  (committed r.2 = true ∧ (r.1.node n).isSome) ∨ (committed r.2 = false ∧ r.1.opLog = s.opLog)

theorem Logs.unlogged {p : DbProc α} {f : α → DbProc SubmitOpResponse} (hp : p.Writes (Unlogged call))
    (hf : ∀ a s₁, p.runBody s = (s₁, .ok a) → Logs n s₁ ((f a).runBody s₁)) :
    Logs n s ((p >>= f).runBody s) := by
  have hsame : (p.runBody s).1.opLog = s.opLog := (hp.runBody s).opLog
  rw [Proc.runBody_bind]
  rcases hrun : p.runBody s with ⟨s₁, e | a⟩
  · rw [hrun] at hsame
    exact .inr ⟨rfl, hsame⟩
  · rw [hrun] at hsame
    rcases hf a s₁ hrun with hcommitted | ⟨hcom, hlog⟩
    · exact .inl hcommitted
    · exact .inr ⟨hcom, hlog.trans hsame⟩

/-- An op that the log rejects is in no log. -/
theorem runBody_insertOpLog_error {payload : OpPayload} {b : Option ℕ} {s' : Db} {e : ApiError}
    (h : (insertOpLog be call n deviceId payload b).runBody s = (s', .error e)) : s'.opLog = s.opLog := by
  by_cases hlog : s.logs call deviceId
  · rw [runBody_insertOpLog payload b hlog] at h
    cases h
  · obtain ⟨s₁, e₁, hrun, hsame⟩ := runBody_insertOpLog_rejected be (n := n) payload b hlog
    rw [hrun] at h
    cases h
    exact hsame.opLog

theorem runBody_insertVersionAndOp_error {b : ℕ} {m : Mutation} {isConflictCopy : Bool} {s' : Db} {e : ApiError}
    (h : (insertVersionAndOp be call n deviceId b m isConflictCopy).runBody s = (s', .error e)) :
    s'.opLog = s.opLog := by
  have hop : ∀ (payload : OpPayload) (a : String) (s₁ : Db),
      ((insertOpLog be call n deviceId payload (some b) >>= fun _ => pure a : DbProc String).runBody s₁ =
        (s', .error e)) → s'.opLog = s₁.opLog := by
    intro payload a s₁ h
    rw [Proc.runBody_bind] at h
    rcases hrun : (insertOpLog be call n deviceId payload (some b)).runBody s₁ with ⟨s₂, e₂ | u⟩
    · rw [hrun] at h
      cases h
      exact runBody_insertOpLog_error hrun
    · rw [hrun] at h
      cases h
  cases m with
  | rename newName => exact hop _ _ _ h
  | move newParentId => exact hop _ _ _ h
  | delete => exact hop _ _ _ h
  | newVersion versionId contentHash sizeBytes manifest =>
    have hversion := (insertVersion_writes be call deviceId (n := n)
      (if isConflictCopy then call.newId else versionId) contentHash sizeBytes manifest isConflictCopy).runBody s
    rw [insertVersionAndOp, Proc.runBody_bind] at h
    rcases hrun : (insertVersion be n deviceId (if isConflictCopy then call.newId else versionId) contentHash
      sizeBytes manifest isConflictCopy).runBody s with ⟨s₁, e₁ | u⟩
    · rw [hrun] at h hversion
      cases h
      exact hversion.opLog
    · rw [hrun] at h hversion
      exact (hop _ _ _ h).trans hversion.opLog

/-- The end of every callback: the op goes into the log, and nothing fails after that. -/
theorem logs_answer {b : ℕ} {m : Mutation} {isConflictCopy : Bool} (answer : String → ℕ → SubmitOpResponse)
    (hanswer : ∀ v q, committed (.ok (answer v q)) = true) (hop : call.op.nodeId = n)
    (hnode : (s.node n).isSome) : Logs n s ((do
      let versionId ← insertVersionAndOp be call n deviceId b m isConflictCopy
      let serverSeq ← setServerSeq call.folderId n
      pure (answer versionId serverSeq) : DbProc SubmitOpResponse).runBody s) := by
  have hshape := (insertVersionAndOp_writes be deviceId b m isConflictCopy hop).runBody s
  rw [Proc.runBody_bind]
  rcases hrun : (insertVersionAndOp be call n deviceId b m isConflictCopy).runBody s with ⟨s₁, e | versionId⟩
  · exact .inr ⟨rfl, runBody_insertVersionAndOp_error hrun⟩
  · rw [hrun] at hshape
    dsimp only
    have hset := (setServerSeq_writes call (n := n) call.folderId).runBody s₁
    obtain ⟨s₂, q, hrun₂⟩ := runBody_setServerSeq_ok (n := n) (s := s₁) call.folderId
    rw [hrun₂] at hset
    rw [Proc.runBody_bind_of_ok hrun₂]
    obtain ⟨r, hr⟩ := Option.isSome_iff_exists.mp hnode
    obtain ⟨r', hr', -⟩ := (hshape.trans hset).kept n r hr
    exact .inl ⟨hanswer versionId q, Option.isSome_iff_exists.mpr ⟨r', hr'⟩⟩

theorem logs_readOnly {p : DbProc α} (hp : p.ReadOnly) {f : α → DbProc SubmitOpResponse}
    (hf : ∀ a, Logs n s ((f a).runBody s)) : Logs n s ((p >>= f).runBody s) := by
  rw [Proc.runBody_bind]
  rcases hp.runBody_cases s with ⟨a, hrun⟩ | ⟨e, hrun⟩
  · rw [hrun]
    exact hf a
  · rw [hrun]
    exact .inr ⟨rfl, rfl⟩

theorem logs_mutateBody {b : ℕ} {m : Mutation} (hop : call.op = .mutate n b m) :
    Logs n s ((mutateBody be call deviceId n b m).runBody s) := by
  have hn : call.op.nodeId = n := by rw [hop, SubmitOpRequest.nodeId]
  rw [mutateBody, Proc.runBody_bind_of_ok (runBody_lockKey _), loadNode,
    Proc.runBody_bind_of_ok (Proc.runBody_read _ s)]
  cases hr : s.node n with
  | none => exact .inr ⟨rfl, rfl⟩
  | some r =>
    have hnode : (s.node n).isSome := by rw [hr, Option.isSome_some]
    dsimp only
    split
    · refine logs_readOnly (checkCollision_readOnly call.folderId n m) fun _ => ?_
      refine logs_readOnly (previousParentId_readOnly n m) fun _ => ?_
      have happly := applyMetadataMutation_writes be call.now hop
      refine Logs.unlogged happly fun _ s₁ hrun => ?_
      have hshape := happly.runBody s
      rw [hrun] at hshape
      obtain ⟨r₁, hr₁, -⟩ := hshape.kept n r hr
      have hnode₁ : (s₁.node n).isSome := Option.isSome_iff_exists.mpr ⟨r₁, hr₁⟩
      exact logs_answer (fun _ seq => .applied seq n) (fun _ _ => rfl) hn hnode₁
    · cases m with
      | newVersion versionId contentHash sizeBytes manifest =>
        exact logs_answer (fun versionId seq => .conflictCopy seq n versionId) (fun _ _ => rfl) hn hnode
      | rename newName => exact .inr ⟨rfl, rfl⟩
      | move newParentId => exact .inr ⟨rfl, rfl⟩
      | delete => exact .inr ⟨rfl, rfl⟩

variable (be deviceId s) in
theorem logs_createBody {parentId name : String} {type : NodeType} (hop : call.op = .create n parentId name type) :
    Logs n s ((createBody be call deviceId n parentId name type).runBody s) := by
  have hn : call.op.nodeId = n := by rw [hop, SubmitOpRequest.nodeId]
  rw [createBody, Proc.runBody_bind_of_ok (runBody_lockKey _), Proc.runBody_bind_of_ok (runBody_lockKey _)]
  have hinsert : (insertNode (call.createdRow n parentId name type)).Writes (Unlogged call) :=
    Proc.Writes.stmt fun _ => Unlogged.of_insert hop
  refine Logs.unlogged hinsert fun _ s₁ hrun => ?_
  have hnode : (s₁.node n).isSome := by
    have hs₁ := (Proc.runBody_stmt_ok hrun).2
    rw [hs₁, Db.node, lookup_append, Option.isSome_or, Bool.or_eq_true]
    exact .inr (by rw [lookup_cons, if_pos rfl, Option.isSome_some])
  have hshape := (insertOpLog_writes be deviceId (.create n parentId name type) none hn).runBody s₁
  rw [Proc.runBody_bind]
  rcases hrun₂ : (insertOpLog be call n deviceId (.create n parentId name type) none).runBody s₁ with ⟨s₂, e | u⟩
  · exact .inr ⟨rfl, runBody_insertOpLog_error hrun₂⟩
  · rw [hrun₂] at hshape
    dsimp only
    have hset := (setServerSeq_writes call (n := n) call.folderId).runBody s₂
    obtain ⟨s₃, q, hrun₃⟩ := runBody_setServerSeq_ok (n := n) (s := s₂) call.folderId
    rw [hrun₃] at hset
    rw [Proc.runBody_bind_of_ok hrun₃]
    obtain ⟨r, hr⟩ := Option.isSome_iff_exists.mp hnode
    obtain ⟨r', hr', -⟩ := (hshape.trans hset).kept n r hr
    exact .inl ⟨rfl, Option.isSome_iff_exists.mpr ⟨r', hr'⟩⟩

theorem logs_inTransaction {body : DbProc SubmitOpResponse} (hb : Callback be body)
    (h : Logs n s (body.runBody s)) : Logs n s ((inTransaction be n body).exec s none) := by
  rcases exec_inTransaction (n := n) hb s with ⟨s', a, hrun, hexec⟩ | ⟨s', s'', e, hrun, hexec, hstate⟩
  · rw [hexec, ← hrun]
    exact h
  · rw [hexec]
    refine .inr ⟨rfl, ?_⟩
    rcases hstate with rfl | hrefused
    · rw [hrun] at h
      rcases h with ⟨hcom, -⟩ | ⟨-, hlog⟩
      · cases hcom
      · exact hlog
    · exact hrefused.opLog

theorem logs_createNode {parentId name : String} {type : NodeType} (hop : call.op = .create n parentId name type) :
    Logs n s ((createNode be call deviceId n parentId name type).exec s none) := by
  have hcallback := callback_createBody be call deviceId n parentId name type
  have h := logs_inTransaction hcallback (logs_createBody be deviceId s hop)
  rcases exec_createNode be call deviceId n parentId name type s with
    ⟨s', a, htx, hexec⟩ | ⟨s', e, r, htx, hexec, hr⟩
  · rw [hexec]
    rw [htx] at h
    exact h
  · rw [hexec]
    rw [htx] at h
    have hlog : s'.opLog = s.opLog := by
      rcases h with ⟨hcom, -⟩ | ⟨-, hlog⟩
      · cases hcom
      · exact hlog
    rcases hr with ⟨e', rfl⟩ | ⟨seq, rfl⟩
    · exact .inr ⟨rfl, hlog⟩
    · exact .inr ⟨rfl, hlog⟩

theorem logs_check {p : DbProc α} (hp : p.ReadOnly) {f : α → DbProc SubmitOpResponse}
    (hf : ∀ a, Logs n s ((f a).exec s none)) : Logs n s ((p >>= f).exec s none) := by
  rw [Proc.exec_bind _ _ hp.unbracketed]
  rcases hp.runBody_cases s with ⟨a, hrun⟩ | ⟨e, hrun⟩
  · rw [hrun]
    exact hf a
  · rw [hrun]
    exact .inr ⟨rfl, rfl⟩

/-- **The op log of a call alone**: a committed call is about a node that is there, and a call
that is not committed leaves the log as it was. -/
theorem serve_logs (be : Backend) (call : SubmitCall) (s : Db) : Logs call.op.nodeId s (serve be call s) := by
  rw [serve, submitOp]
  cases hp : call.principal with
  | user userId => exact .inr ⟨rfl, rfl⟩
  | device deviceId =>
    cases hop : call.op with
    | create nodeId parentId name type =>
      exact logs_check (requireWrite_readOnly parentId (.device deviceId)) fun _ => logs_createNode hop
    | mutate nodeId b m =>
      refine logs_check (requireWrite_readOnly nodeId (.device deviceId)) fun _ => ?_
      refine logs_check (checkMoveTarget_readOnly call.folderId m) fun _ => ?_
      exact logs_inTransaction (callback_mutateBody be call deviceId nodeId b m) (logs_mutateBody hop)

end Logs

/-! ### The keys of the nodes -/

section Keys

variable {be : Backend} {call : SubmitCall} {deviceId n : String} {s : Db}

/-- The nodes are the same, one by one. -/
def SameIds (s s' : Db) : Prop := s'.nodes.map NodeRow.nodeId = s.nodes.map NodeRow.nodeId

instance : Std.Refl SameIds := ⟨fun _ => rfl⟩

instance : IsTrans Db SameIds := ⟨fun _ _ _ h h' => Eq.trans h' h⟩

theorem SameIds.keys {s' : Db} (h : SameIds s s') (hk : s.NodeKeys) : s'.NodeKeys := by
  rw [Db.NodeKeys, h]
  exact hk

theorem keys_createBody {parentId name : String} {type : NodeType} (hk : s.NodeKeys) :
    ((createBody be call deviceId n parentId name type).runBody s).1.NodeKeys := by
  rw [createBody, Proc.runBody_bind_of_ok (runBody_lockKey _), Proc.runBody_bind_of_ok (runBody_lockKey _)]
  refine Proc.runBody_stmt_bind hk fun hcheck => ?_
  have hnew : s.node n = none := by
    split at hcheck
    · cases hcheck
    · next hnone => exact Option.not_isSome_iff_eq_none.mp hnone
  have hinserted : Db.NodeKeys { s with nodes := s.nodes ++ [call.createdRow n parentId name type] } := by
    rw [Db.node, lookup_eq_none] at hnew
    exact nodup_append hk hnew
  -- the op and its `server_seq` leave the ids alone
  have hlog : (insertOpLog be call n deviceId (.create n parentId name type) none).Writes SameIds :=
    insertOpLog_writes_of (fun _ => rfl) fun _ _ _ _ => rfl
  have hseq : (setServerSeq call.folderId n).Writes SameIds :=
    setServerSeq_writes_of call.folderId fun _ => Proc.Writes.stmt fun _ _ => map_key_update fun _ hr => hr
  have hrest : (insertOpLog be call n deviceId (.create n parentId name type) none >>= fun _ =>
      setServerSeq call.folderId n >>= fun serverSeq =>
        (pure (.applied serverSeq n) : DbProc SubmitOpResponse)).Writes SameIds :=
    hlog.bind fun _ => hseq.bind fun _ => True.intro
  exact SameIds.keys (hrest.runBody _) hinserted

variable (be call) in
/-- **A call keeps the primary key** of the nodes. -/
theorem serve_keys (hk : s.NodeKeys) : (serve be call s).1.NodeKeys := by
  rcases (serve_reshapes be call s).ids with hids | ⟨n, parentId, name, type, hop⟩
  · exact SameIds.keys hids hk
  · rw [serve, submitOp, hop]
    cases hp : call.principal with
    | user userId => exact hk
    | device deviceId =>
      dsimp only
      rcases exec_check (requireWrite_readOnly parentId (.device deviceId)) s with ⟨a, h⟩ | ⟨e, h⟩
      · rw [h]
        have htx : ((inTransaction be n (createBody be call deviceId n parentId name type)).exec s none).1.NodeKeys :=
          state_inTransaction (callback_createBody be call deviceId n parentId name type) (keys_createBody hk)
            fun _ => hk
        rcases exec_createNode be call deviceId n parentId name type s with
          ⟨s', a', hrun, hexec⟩ | ⟨s', e, r, hrun, hexec, -⟩
        · rw [hrun] at htx
          rw [hexec]
          exact htx
        · rw [hrun] at htx
          rw [hexec]
          exact htx
      · rw [h]
        exact hk

end Keys

end Valv.Server
