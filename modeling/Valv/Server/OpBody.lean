import Valv.Server.OpRules

/-!
# The body of an op

* `quiet_checkCollision`, `quiet_applyMetadataMutation`, `quiet_insertVersion`: what comes
  before the insertion into the log is quiet.
* `Placed`: the answered op is in the log, right after the op it was based on.
* `body_mutateBody`, `body_createBody`: a body ends with the node's invariant restored, and
  an `applied` answer is placed.
* `sat_submitOp`: the same for the whole call, on both databases.
-/

namespace Valv.Server

open Valv.Conc Valv.Table

variable {be : Backend} {s₀ : Db} {tx : Bool} {n : String} {L : List DbKey}

/-! ### The quiet parts -/

theorem quiet_loadNode (m : String) : Quiet n (loadNode m) := Quiet.read _

theorem quiet_nextNameAndParent (m : Mutation) :
    Quiet n (nextNameAndParent n m) := by
  cases m with
  | rename newName => exact (quiet_loadNode n).bind fun _ => Quiet.pure _
  | move newParentId => exact (quiet_loadNode n).bind fun _ => Quiet.pure _
  | delete => exact Quiet.pure _
  | newVersion versionId contentHash sizeBytes manifest => exact Quiet.pure _

theorem quiet_checkCollision (folderId : String) (m : Mutation) :
    Quiet n (checkCollision folderId n m) := by
  refine (quiet_nextNameAndParent m).bind fun next => ?_
  obtain ⟨nextName, nextParentId⟩ := next
  dsimp only
  cases truthy nextName with
  | none => exact Quiet.pure ()
  | some name =>
    cases truthy nextParentId with
    | none => exact Quiet.pure ()
    | some parentId =>
      refine (Quiet.read _).bind fun collision => ?_
      split
      · exact Quiet.fail _
      · exact Quiet.pure ()

theorem quiet_previousParentId (m : Mutation) : Quiet n (previousParentId n m) := by
  cases m with
  | move newParentId => exact (quiet_loadNode n).bind fun _ => Quiet.pure _
  | _ => exact Quiet.pure _

theorem quiet_applyMetadataMutation (now : ℕ) (m : Mutation) :
    Quiet n (applyMetadataMutation be n now m) := by
  cases m with
  | rename newName => exact Quiet.updateNamed (fun _ => rfl) fun _ => rfl
  | move newParentId => exact Quiet.updateNamed (fun _ => rfl) fun _ => rfl
  | delete => exact Quiet.updateNamed (fun _ => rfl) fun _ => rfl
  | newVersion versionId contentHash sizeBytes manifest => exact Quiet.pure ()

/-- A statement on another table. -/
theorem Quiet.elsewhere {check : Db → Option ApiError} {write : Db → Db}
    (hn : ∀ s, (write s).nodes = s.nodes) (ho : ∀ s, (write s).opLog = s.opLog)
    (hl : ∀ s, (write s).lastSeq = s.lastSeq)
    (hb : ∀ s, write (Sequence.bump DbKey s) = Sequence.bump DbKey (write s)) :
    Quiet n (Proc.stmt check fun _ s => write s) := by
  refine Quiet.stmt (fun _ => nodeWrite_elsewhere hn ho hl hb) (fun v hr => ?_) fun v _ => ?_
  · simpa only [Db.node, hn] using hr
  · simp only [Db.nodeSeq, Db.node, hn]

theorem quiet_updateRefcounts (hashes : List String) (f : ℕ → ℕ) :
    Quiet n (updateRefcounts hashes f) :=
  Quiet.elsewhere (fun _ => rfl) (fun _ => rfl) (fun _ => rfl) fun _ => rfl

theorem quiet_insertVersionRow (r : VersionRow) : Quiet n (insertVersionRow r) :=
  Quiet.elsewhere (fun _ => rfl) (fun _ => rfl) (fun _ => rfl) fun _ => rfl

theorem quiet_insertVersionChunks (rows : List VersionChunkRow) :
    Quiet n (insertVersionChunks rows) :=
  Quiet.elsewhere (fun _ => rfl) (fun _ => rfl) (fun _ => rfl) fun _ => rfl

theorem quiet_previousManifest (isConflictCopy : Bool) :
    Quiet n (previousManifest n isConflictCopy) := by
  cases isConflictCopy with
  | true => exact Quiet.pure _
  | false => exact Quiet.read _

theorem quiet_referenceChunks (versionId : String) (hashes : List String) :
    Quiet n (referenceChunks versionId n hashes) := by
  rw [referenceChunks]
  split
  · exact Quiet.pure ()
  · exact (quiet_insertVersionChunks _).bind fun _ => quiet_updateRefcounts _ _

theorem quiet_replaceCurrent (versionId : String) (previous : List ChunkRef)
    (isConflictCopy : Bool) :
    Quiet n (replaceCurrent n versionId previous isConflictCopy) := by
  cases isConflictCopy with
  | true => exact Quiet.pure ()
  | false =>
    refine Quiet.bind ?_ fun _ => Quiet.updateNodes (fun _ => rfl) fun _ => rfl
    rw [releaseChunks]
    split
    · exact Quiet.pure ()
    · exact quiet_updateRefcounts _ _

variable (be) in
theorem quiet_insertVersion (deviceId versionId contentHash : String) (sizeBytes : ℕ)
    (manifest : List ChunkRef) (isConflictCopy : Bool) :
    Quiet n
      (insertVersion be n deviceId versionId contentHash sizeBytes manifest isConflictCopy) := by
  refine (quiet_previousManifest isConflictCopy).bind fun previous => ?_
  refine (Quiet.lockKey (k := .version versionId) nofun nofun).bind fun _ => ?_
  refine (quiet_insertVersionRow _).bind fun _ => ?_
  exact (quiet_referenceChunks versionId _).bind fun _ =>
    quiet_replaceCurrent versionId previous isConflictCopy

/-! ### The insertion and the row's new `server_seq` -/

/-- The payload an op is logged with. -/
def Mutation.logged (m : Mutation) (newId : String) (isConflictCopy : Bool) : OpPayload :=
  match m with
  | .rename newName => .rename newName
  | .move newParentId => .move newParentId
  | .delete => .delete
  | .newVersion versionId contentHash sizeBytes manifest =>
    .newVersion (if isConflictCopy then newId else versionId) contentHash sizeBytes manifest
      isConflictCopy

theorem Mutation.logged_applied (m : Mutation) (newId : String) :
    (m.logged newId false).isConflict = false := by
  cases m <;> rfl

theorem body_insertVersionAndOp {call : SubmitCall} {deviceId : String} {b : ℕ} {m : Mutation}
    {isConflictCopy : Bool} {v : Db} (htx : be = .sqlite → tx = false) (hL : OwnsOnly n L)
    (hd : v.SeqsDrawn) :
    Body (opDiscipline be s₀) tx (insertVersionAndOp be call n deviceId b m isConflictCopy) L v
      fun r L' v' => OwnsOnly n L' ∧ match r with
        | .ok _ => ∃ w e, Keeps n v w ∧ Logged call n (m.logged call.newId isConflictCopy) (some b) w v' e
        | .error _ => Keeps n v v' := by
  cases m with
  | newVersion versionId contentHash sizeBytes manifest =>
    refine Body.bind (((quiet_insertVersion be deviceId _ contentHash sizeBytes manifest
      isConflictCopy).body hL).mono ?_)
    rintro (e | _) L' w ⟨hL', hk⟩
    · exact ⟨hL', hk⟩
    refine Body.bind ((body_insertOpLog htx hL' (hk.drawn hd)).mono ?_)
    rintro (e | _) L'' w' ⟨hL'', hlog⟩
    · exact ⟨hL'', hk.trans hlog⟩
    · obtain ⟨e, hlog⟩ := hlog
      exact fun v' hv => ⟨hL'', w, e, hk, hlog.keeps (Frame.keeps hv hL''.1)⟩
  | _ =>
    refine Body.bind ((body_insertOpLog htx hL hd).mono ?_)
    rintro (e | _) L' w ⟨hL', hlog⟩
    · exact ⟨hL', hlog⟩
    · obtain ⟨e, hlog⟩ := hlog
      exact fun v' hv => ⟨hL', v, e, Frame.keeps (Frame.refl (fun _ => True) v) trivial,
        hlog.keeps (Frame.keeps hv hL'.1)⟩

theorem maxSeq_append_of_le {es : List OpLogRow} {e : OpLogRow}
    (h : ∀ f ∈ es, f.serverSeq ≤ e.serverSeq) : maxSeq (es ++ [e]) = e.serverSeq := by
  induction es with
  | nil => simp [maxSeq]
  | cons f es ih =>
    rw [List.cons_append, maxSeq, ih fun g hg => h g (List.mem_cons_of_mem f hg)]
    exact Nat.max_eq_right (h f (by simp))

/-- `latestSeqForNode` finds the op that was just inserted. -/
theorem Logged.latest {call : SubmitCall} {payload : OpPayload} {b : Option ℕ} {v v' : Db}
    {e : OpLogRow} (h : Logged call n payload b v v' e) (hd : v.SeqsDrawn) :
    maxSeq ((v'.nodeOps n).filter fun e => e.folderId = call.folderId) = e.serverSeq := by
  rw [h.ops, List.filter_append, List.filter_singleton]
  simp only [h.folderId, decide_true]
  refine maxSeq_append_of_le fun f hf => ?_
  have hmem : f ∈ v.opLog := (List.mem_filter.mp (List.mem_filter.mp hf).1).1
  exact (hd.le f hmem).trans h.fresh.le

/-- Setting the `server_seq` of a row violates no constraint. -/
theorem nodeViolation_setServerSeq (s : Db) (r : NodeRow) (serverSeq : ℕ) :
    s.nodeViolation (some r) { r with serverSeq } = none := by
  simp [Db.nodeViolation, NodeRow.liveName]

/-- The row takes the `server_seq` of the node's latest op; this statement is never refused. -/
theorem body_setServerSeq {folderId : String} {v : Db} {m : ℕ} (hL : OwnsOnly n L)
    (hm : maxSeq ((v.nodeOps n).filter fun e => e.folderId = folderId) = m) :
    Body (opDiscipline be s₀) tx (setServerSeq folderId n) L v fun r L' v' =>
      OwnsOnly n L' ∧ r = .ok m ∧ v'.nodeOps n = v.nodeOps n ∧ (v.SeqsDrawn → v'.SeqsDrawn) ∧
        ((v.node n).isSome → v'.nodeSeq n = m) := by
  refine Body.bind (Body.read fun v' v'' hv hv' => ?_)
  have hk := Frame.keeps hv hL.1
  simp only [hk.ops, hm]
  have hid : ∀ r : NodeRow, { r with serverSeq := m }.nodeId = r.nodeId := fun _ => rfl
  have hnw := nodeWrite_update (n := n) hid
  refine Body.bind (Body.stmt (fun w e hw hc => ?_) fun w hw _ => ?_)
  · simp [nodeViolation_setServerSeq] at hc
  · refine ⟨fun _ => hnw.replayable hL.1, fun w' _ _ => hnw.frame (fun h => h hL.1) w', ?_⟩
    intro w' hw' w'' hw''
    have hkw : Keeps n v w := (hk.trans (Frame.keeps hv' hL.1)).trans (Frame.keeps hw hL.1)
    have hend := (Frame.keeps hw' hL.1).trans (Frame.keeps hw'' hL.1)
    refine ⟨hL, rfl, hend.ops.trans ((hnw.nodeOps w n).trans hkw.ops),
      fun hd => hend.drawn (hnw.seqsDrawn.mpr (hkw.drawn hd)), fun hr => ?_⟩
    obtain ⟨r, hr⟩ := Option.isSome_iff_exists.mp (hkw.row hr)
    rw [hend.seq, Db.nodeSeq, node_update_self hid, hr]
    rfl

/-! ### Where an answered op ends up -/

/-- The op answered with `seq` is in the log since `s₀`, and with the ops before it forms a
chain. -/
def Placed (s₀ : Db) (request : ℕ) (n : String) (b : Option ℕ) (seq : ℕ) (s : Db) : Prop :=
  ∃ pre e post, s.nodeOps n = s₀.nodeOps n ++ (pre ++ e :: post) ∧ e.serverSeq = seq ∧
    e.request = request ∧ e.payload.isConflict = false ∧ e.basedOnSeq = b ∧
    Chain (s₀.nodeSeq n) (pre ++ [e])

theorem Placed.grows {request seq : ℕ} {b : Option ℕ} {s s' : Db}
    (h : Placed s₀ request n b seq s) (hg : s.nodeOps n <+: s'.nodeOps n) :
    Placed s₀ request n b seq s' := by
  obtain ⟨pre, e, post, hops, hrest⟩ := h
  obtain ⟨more, hmore⟩ := hg
  refine ⟨pre, e, post ++ more, ?_, hrest⟩
  rw [← hmore, hops]
  simp

/-- One more op, based on the node's `server_seq` unless it is a conflict copy, and the row
moved to it: the chain is one longer. -/
theorem NodeInv.extend {call : SubmitCall} {payload : OpPayload} {b : Option ℕ} {v w v' v'' : Db}
    {e : OpLogRow} (h : NodeInv s₀ n v) (hk : Keeps n v w) (hlog : Logged call n payload b w v' e)
    (hf : e.follows (v.nodeSeq n)) (hops : v''.nodeOps n = v'.nodeOps n)
    (hd : v''.SeqsDrawn) (hseq : v''.nodeSeq n = e.serverSeq) :
    NodeInv s₀ n v'' ∧ (payload.isConflict = false → Placed s₀ call.request n b e.serverSeq v'') := by
  obtain ⟨es, hes, hch, hend⟩ := h.chain
  have hnew : v''.nodeOps n = s₀.nodeOps n ++ (es ++ [e]) := by
    rw [hops, hlog.ops, hk.ops, hes, List.append_assoc]
  have hch' : Chain (s₀.nodeSeq n) (es ++ [e]) := by
    refine chain_append.mpr ⟨hch, hend ▸ hf, ?_, True.intro⟩
    rw [← hend]
    exact (h.le.trans hk.lastSeq).trans_lt hlog.fresh
  refine ⟨⟨hd, ?_, es ++ [e], hnew, hch', by rw [chainEnd_append]; exact hseq⟩, fun hc => ?_⟩
  · have hmem : e ∈ v''.nodeOps n := by
      rw [hnew]
      simp
    rw [hseq]
    exact hd.le e (List.mem_filter.mp hmem).1
  · exact ⟨es, e, [], hnew, rfl, hlog.request, hlog.payload ▸ hc, hlog.basedOnSeq, hch'⟩

/-- What an op's body ends with: the node's invariant, and an `applied` answer placed. -/
def Settled (s₀ : Db) (request : ℕ) (n : String) (b : Option ℕ) (r : Except ApiError SubmitOpResponse)
    (L : List DbKey) (v : Db) : Prop :=
  OwnsOnly n L ∧ NodeInv s₀ n v ∧
    ∀ seq m, r = .ok (.applied seq m) → m = n ∧ Placed s₀ request n b seq v

/-- The row takes the `server_seq` of the op just inserted, and the body answers. -/
theorem body_finish {call : SubmitCall} {payload : OpPayload} {b : Option ℕ} {v w v' : Db}
    {e : OpLogRow} {answer : ℕ → SubmitOpResponse} (hL : OwnsOnly n L) (h : NodeInv s₀ n v)
    (hk : Keeps n v w) (hrow : (w.node n).isSome) (hlog : Logged call n payload b w v' e)
    (hf : e.follows (v.nodeSeq n))
    (ha : ∀ m seq k, answer m = .applied seq k → seq = m ∧ k = n ∧ payload.isConflict = false) :
    Body (opDiscipline be s₀) tx (setServerSeq call.folderId n >>= fun seq => pure (answer seq)) L v'
      (Settled s₀ call.request n b) := by
  have hd : w.SeqsDrawn := hk.drawn h.drawn
  refine Body.bind ((body_setServerSeq hL (hlog.latest hd)).mono ?_)
  rintro r L' v'' ⟨hL', rfl, hops, hdr, hseq⟩ u hu
  have hke := Frame.keeps hu hL'.1
  obtain ⟨hinv, hplaced⟩ := h.extend hk hlog hf (hke.ops.trans hops) (hke.drawn (hdr hlog.drawn))
    (hke.seq.trans (hseq (hlog.row hrow)))
  refine ⟨hL', hinv, fun seq m hans => ?_⟩
  obtain ⟨rfl, rfl, hc⟩ := ha e.serverSeq seq m (by simpa using hans)
  exact ⟨rfl, hplaced hc⟩

theorem Logged.follows_of_conflict {call : SubmitCall} {payload : OpPayload} {b : Option ℕ}
    {v v' : Db} {e : OpLogRow} (h : Logged call n payload b v v' e)
    (hc : payload.isConflict = true) (base : ℕ) : e.follows base := by
  intro hf
  rw [h.payload, hc] at hf
  cases hf

theorem Logged.follows_of_base {call : SubmitCall} {payload : OpPayload} {b : Option ℕ}
    {v v' : Db} {e : OpLogRow} (h : Logged call n payload b v v' e) {base : ℕ}
    (hb : ∀ c, b = some c → c = base) : e.follows base :=
  fun _ c hc => hb c (h.basedOnSeq.symm.trans hc)

/-! ### The bodies -/

/-- An error or a refusal leaves the node as it was. -/
theorem Settled.of_keeps {request : ℕ} {b : Option ℕ} {r : Except ApiError SubmitOpResponse}
    {v v' : Db} (hL : OwnsOnly n L) (h : NodeInv s₀ n v) (hk : Keeps n v v')
    (hr : ∀ seq m, r ≠ .ok (.applied seq m)) : Settled s₀ request n b r L v' :=
  ⟨hL, h.keeps hk, fun seq m h => absurd h (hr seq m)⟩

/-- A quiet part at the start of a body. -/
theorem Quiet.settled {α : Type} {p : DbProc α} {f : α → DbProc SubmitOpResponse} {request : ℕ}
    {b : Option ℕ} {v : Db} (hp : Quiet n p) (hL : OwnsOnly n L) (h : NodeInv s₀ n v)
    (hf : ∀ a L' v', OwnsOnly n L' → Keeps n v v' →
      Body (opDiscipline be s₀) tx (f a) L' v' (Settled s₀ request n b)) :
    Body (opDiscipline be s₀) tx (p >>= f) L v (Settled s₀ request n b) := by
  refine Body.bind ((hp.body hL).mono ?_)
  rintro (e | a) L' v' ⟨hL', hk⟩
  · exact Settled.of_keeps hL' h hk nofun
  · exact hf a L' v' hL' hk

/-- The insertion of an op whose base fits, or of a conflict copy, up to the answer. -/
theorem body_logAndAnswer {call : SubmitCall} {deviceId : String} {b : ℕ} {m : Mutation}
    {isConflictCopy : Bool} {answer : String → ℕ → SubmitOpResponse} {v : Db}
    (htx : be = .sqlite → tx = false) (hL : OwnsOnly n L) (h : NodeInv s₀ n v)
    (hrow : (v.node n).isSome)
    (hf : (m.logged call.newId isConflictCopy).isConflict = true ∨ v.nodeSeq n = b)
    (ha : ∀ id m' seq k, answer id m' = .applied seq k →
      seq = m' ∧ k = n ∧ (m.logged call.newId isConflictCopy).isConflict = false) :
    Body (opDiscipline be s₀) tx (do
      let id ← insertVersionAndOp be call n deviceId b m isConflictCopy
      let serverSeq ← setServerSeq call.folderId n
      pure (answer id serverSeq)) L v (Settled s₀ call.request n (some b)) := by
  refine Body.bind ((body_insertVersionAndOp htx hL h.drawn).mono ?_)
  rintro (e | id) L' v' ⟨hL', hlog⟩
  · exact Settled.of_keeps hL' h hlog nofun
  · obtain ⟨w, e, hk, hlog⟩ := hlog
    refine body_finish hL' h hk (hk.row hrow) hlog ?_ (ha id)
    rcases hf with hc | hb
    · exact hlog.follows_of_conflict hc _
    · exact hlog.follows_of_base fun c hc => by rw [hb, ← Option.some.inj hc]

theorem body_applyOp {call : SubmitCall} {deviceId : String} {b : ℕ} {m : Mutation} {v : Db}
    (htx : be = .sqlite → tx = false) (hL : OwnsOnly n L) (h : NodeInv s₀ n v)
    (hrow : (v.node n).isSome) (hb : v.nodeSeq n = b) :
    Body (opDiscipline be s₀) tx (applyOp be call deviceId n b m) L v
      (Settled s₀ call.request n (some b)) := by
  refine (quiet_checkCollision call.folderId m).settled hL h fun _ L₁ v₁ hL₁ hk₁ => ?_
  refine (quiet_previousParentId m).settled hL₁ (h.keeps hk₁) fun _ L₂ v₂ hL₂ hk₂ => ?_
  refine (quiet_applyMetadataMutation call.now m).settled hL₂ ((h.keeps hk₁).keeps hk₂)
    fun _ L₃ v₃ hL₃ hk₃ => ?_
  have hk := (hk₁.trans hk₂).trans hk₃
  refine body_logAndAnswer htx hL₃ (h.keeps hk) (hk.row hrow) (.inr (hk.seq.trans hb)) ?_
  rintro id m' seq k ⟨⟩
  exact ⟨rfl, rfl, m.logged_applied call.newId⟩

theorem body_staleOp {call : SubmitCall} {deviceId : String} {b current : ℕ} {m : Mutation} {v : Db}
    (htx : be = .sqlite → tx = false) (hL : OwnsOnly n L) (h : NodeInv s₀ n v)
    (hrow : (v.node n).isSome) :
    Body (opDiscipline be s₀) tx (staleOp be call deviceId n b m current) L v
      (Settled s₀ call.request n (some b)) := by
  cases m with
  | newVersion versionId contentHash sizeBytes manifest =>
    exact body_logAndAnswer htx hL h hrow (.inl rfl) nofun
  | _ => exact fun v' hv => Settled.of_keeps hL h (Frame.keeps hv hL.1) nofun

/-- **An op on an existing node**, from the moment its key is taken. -/
theorem body_mutate {call : SubmitCall} {deviceId : String} {b : ℕ} {m : Mutation} {v : Db}
    (htx : be = .sqlite → tx = false) (hL : OwnsOnly n L) (h : NodeInv s₀ n v) :
    Body (opDiscipline be s₀) tx (loadNode n >>= fun row => match row with
      | none => .fail (.response 404 "node_not_found")
      | some node =>
        if node.serverSeq = b then applyOp be call deviceId n b m
        else staleOp be call deviceId n b m node.serverSeq) L v
      (Settled s₀ call.request n (some b)) := by
  refine Body.bind (Body.read fun v' v'' hv hv' => ?_)
  have hk := (Frame.keeps hv hL.1).trans (Frame.keeps hv' hL.1)
  have hrow : v'.node n = v''.node n := ((hv'.node n hL.1).1).symm
  rw [hrow]
  cases hr : v''.node n with
  | none => exact fun u hu => Settled.of_keeps hL h (hk.trans (Frame.keeps hu hL.1)) nofun
  | some node =>
    have hsome : (v''.node n).isSome := by rw [hr]; rfl
    have hseq : v''.nodeSeq n = node.serverSeq := by rw [Db.nodeSeq, hr]; rfl
    dsimp only
    split
    · next hb => exact body_applyOp htx hL (h.keeps hk) hsome (hseq.trans hb)
    · exact body_staleOp htx hL (h.keeps hk) hsome

theorem body_insertNode {r : NodeRow} {v : Db} (hr : r.nodeId = n) (h0 : r.serverSeq = 0)
    (hL : OwnsOnly n L) :
    Body (opDiscipline be s₀) tx (insertNode r) L v fun res L' v' =>
      OwnsOnly n L' ∧ Keeps n v v' ∧ (res = .ok () → (v'.node n).isSome) := by
  subst hr
  refine Body.stmt (fun v' e hv _ v'' hv' => ?_) fun v' hv hc => ?_
  · exact ⟨hL, (Frame.keeps hv hL.1).trans (Frame.keeps hv' hL.1), nofun⟩
  · have hnw := nodeWrite_insert r
    refine ⟨fun _ => hnw.replayable hL.1, fun v'' _ _ => hnw.frame (fun h => h hL.1) v'', ?_⟩
    intro v'' hv'
    have hnone : v'.node r.nodeId = none := by
      cases hn : v'.node r.nodeId with
      | none => rfl
      | some r' => simp [hn] at hc
    have hnew : { v' with nodes := v'.nodes ++ [r] : Db }.node r.nodeId = some r := by
      rw [Db.node, lookup_append, ← Db.node, hnone, lookup_cons, if_pos rfl]
      rfl
    have hstep : Keeps r.nodeId v' { v' with nodes := v'.nodes ++ [r] } :=
      ⟨fun _ => by rw [hnew]; rfl, hnw.nodeOps v' r.nodeId, by rw [Db.nodeSeq, hnew, Db.nodeSeq, hnone, ← h0]; rfl,
        le_rfl, hnw.seqsDrawn.mpr⟩
    have hend := Frame.keeps hv' hL.1
    exact ⟨hL, ((Frame.keeps hv hL.1).trans hstep).trans hend, fun _ => hend.row (by rw [hnew]; rfl)⟩

/-- **A create**, from the moment the key of the new node is taken. -/
theorem body_create {call : SubmitCall} (deviceId parentId name : String) (type : NodeType) {v : Db}
    (htx : be = .sqlite → tx = false) (hL : OwnsOnly n L) (h : NodeInv s₀ n v) :
    Body (opDiscipline be s₀) tx (do
      insertNode { nodeId := n, folderId := call.folderId, parentId := some parentId, name, type }
      insertOpLog be call n deviceId (.create n parentId name type) none
      let serverSeq ← setServerSeq call.folderId n
      pure (.applied serverSeq n)) L v (Settled s₀ call.request n none) := by
  refine Body.bind ((body_insertNode rfl rfl hL).mono ?_)
  rintro (e | _) L' w ⟨hL', hk, hrow⟩
  · exact Settled.of_keeps hL' h hk nofun
  refine Body.bind ((body_insertOpLog htx hL' (hk.drawn h.drawn)).mono ?_)
  rintro (e | _) L'' v' ⟨hL'', hlog⟩
  · exact Settled.of_keeps hL'' h (hk.trans hlog) nofun
  · obtain ⟨e, hlog⟩ := hlog
    refine body_finish hL'' h hk (hrow rfl) hlog (hlog.follows_of_base nofun) ?_
    rintro m' seq k ⟨⟩
    exact ⟨rfl, rfl, rfl⟩

end Valv.Server
