import Valv.Client.Converge

/-!
# Ops that come again

A page brings an op that the mirror has applied already: one that was pulled before, or one of the device's own
that was recorded from its answer.  `apply_op_log_entry` passes over what is stale, but never over a create.

* `Reached`: the mirrors that pulls and recorded answers lead to, in any order.
* `Reached.fits`: a row with the `server_seq` of a create is the created row.
* `redelivery_harmless`: an op comes again without effect exactly when nothing was applied behind its create.
-/

namespace Valv.Client

open Valv.Table Valv.Server

/-! ### A mirror and a log -/

/-- The log of a folder, in the order of `server_seq`. A node is created once. -/
structure FolderLog where
  folderId : String
  entries : List OpLogEntry
  ascending : entries.Pairwise fun e e' => e.serverSeq < e'.serverSeq
  once : ∀ e ∈ entries, ∀ e' ∈ entries, isCreate e = true → isCreate e' = true → e.nodeId = e'.nodeId → e = e'

/-- The op creates a node with this parent, name and type. -/
def Creates (e : OpLogEntry) (parentId name : String) (type : NodeType) : Prop :=
  ∃ n, e.payload = .create n parentId name type

/-- The log is about the node: an op is on it, or creates a node below it. -/
def FolderLog.Names (log : FolderLog) (k : String) : Prop :=
  ∃ e ∈ log.entries, e.nodeId = k ∨ ∃ name type, Creates e k name type

/-- The row is as the create left it, but for the push cache, which the create leaves alone. -/
def AsCreated (e : OpLogEntry) (parentId name : String) (type : NodeType) (r : LocalNode) : Prop :=
  (createdNode r.folderId e.nodeId parentId name type e.serverSeq).keepPushCache r = r

/-- The rows that the log is about are of its folder, created nodes have their parents, and a row with the
`server_seq` of a create is as the create left it. -/
structure Mirror.Fits (m : Mirror) (log : FolderLog) : Prop where
  keys : (m.nodes.map LocalNode.nodeId).Nodup
  folder : ∀ k, log.Names k → ∀ r ∈ m.getNode k, r.folderId = log.folderId
  parents : ∀ e ∈ log.entries, ∀ parentId name type, Creates e parentId name type →
    (m.getNode e.nodeId).isSome → (m.getNode parentId).isSome
  created : ∀ e ∈ log.entries, ∀ parentId name type, Creates e parentId name type →
    ∀ r ∈ m.getNode e.nodeId, r.serverSeq = e.serverSeq → AsCreated e parentId name type r

/-- The answer is to an op of the log; the row it carries was read from the mirror. -/
structure OfLog (log : FolderLog) (m : Mirror) (reply : Reply) : Prop where
  node : ∀ q n, reply.answer = .ok (.applied q n) → n = reply.op.nodeId
  logged : ∀ a q, reply.answer = .ok a → committedSeq a = some q →
    ∃ e ∈ log.entries, e.nodeId = reply.op.nodeId ∧ e.serverSeq = q ∧ e.payload = loggedPayload reply.op a
  row : ∀ x ∈ reply.row, x.nodeId = reply.op.nodeId ∧ (m.getNode x.nodeId).isSome ∧ x.folderId = log.folderId ∧
    ∀ q n, reply.answer = .ok (.applied q n) → x.serverSeq = q
  parent : ∀ n parentId name type, reply.op = .create n parentId name type → (m.getNode parentId).isSome

/-- What pulls and recorded answers lead to, one op at a time and in any order, with whatever else the device
writes to a row in between: its push cache. -/
inductive Reached (log : FolderLog) : Mirror → Prop
  | start {m : Mirror} (h : m.Fits log) : Reached log m
  | pull {m m' : Mirror} {e : OpLogEntry} (now : ℕ) (h : Reached log m) (he : e ∈ log.entries)
      (happly : m.applyOpLogEntry now e = .ok m') : Reached log m'
  | record {m : Mirror} {reply : Reply} (now : ℕ) (h : Reached log m) (hreply : OfLog log m reply) :
      Reached log (m.record log.folderId now reply)
  | cache {m : Mirror} (nodeId : String) (sizeBytes mtimeNanos : ℕ) (h : Reached log m) :
      Reached log (m.updatePushedCache nodeId sizeBytes mtimeNanos)

/-- The ops of the log up to `n` are applied: each of their nodes has a row with at least that number. -/
def Mirror.AppliedUpTo (m : Mirror) (log : FolderLog) (n : ℕ) : Prop :=
  ∀ e ∈ log.entries, e.serverSeq ≤ n → ∃ r ∈ m.getNode e.nodeId, e.serverSeq ≤ r.serverSeq

/-- If the op is a create, nothing was applied to its node behind it, so that applying the create again changes
nothing. -/
def Mirror.Still (m : Mirror) (e : OpLogEntry) : Prop :=
  isCreate e = true → ∀ r ∈ m.getNode e.nodeId, r.serverSeq = e.serverSeq

/-! ### One write -/

/-- A write of an op: to the row of its node, with its `server_seq`, or none at all. -/
structure WritesOp (log : FolderLog) (e : OpLogEntry) (m m' : Mirror) : Prop where
  keys : (m.nodes.map LocalNode.nodeId).Nodup → (m'.nodes.map LocalNode.nodeId).Nodup
  others : ∀ k, k ≠ e.nodeId → m'.getNode k = m.getNode k
  own : m'.getNode e.nodeId = m.getNode e.nodeId ∨ ∃ r, m'.getNode e.nodeId = some r ∧ r.serverSeq = e.serverSeq ∧
    r.folderId = log.folderId ∧ (isCreate e = false → (m.getNode e.nodeId).isSome) ∧
    ∀ parentId name type, Creates e parentId name type →
      AsCreated e parentId name type r ∧ (m.getNode parentId).isSome

section Write

variable {log : FolderLog} {m m' : Mirror} {e : OpLogEntry}

theorem isCreate_iff : isCreate e = true ↔ ∃ parentId name type, Creates e parentId name type := by
  rw [isCreate]
  constructor
  · intro h
    cases hp : e.payload with
    | create n parentId name type => exact ⟨parentId, name, type, n, hp⟩
    | rename newName =>
      rw [hp] at h
      cases h
    | move newParentId =>
      rw [hp] at h
      cases h
    | delete =>
      rw [hp] at h
      cases h
    | newVersion versionId contentHash sizeBytes manifest isConflictCopy =>
      rw [hp] at h
      cases h
  · rintro ⟨parentId, name, type, n, hp⟩
    rw [hp]

/-- No two ops of a log have one `server_seq`. -/
theorem FolderLog.eq_of_serverSeq (log : FolderLog) {a b : OpLogEntry} (ha : a ∈ log.entries) (hb : b ∈ log.entries)
    (h : a.serverSeq = b.serverSeq) : a = b := by
  have hnodup : (log.entries.map OpLogEntry.serverSeq).Nodup :=
    List.pairwise_map.mpr (log.ascending.imp fun hlt => Nat.ne_of_lt hlt)
  exact List.inj_on_of_nodup_map hnodup ha hb h

theorem FolderLog.names_own (log : FolderLog) (he : e ∈ log.entries) : log.Names e.nodeId := ⟨e, he, .inl rfl⟩

/-- A write of an op of the log leaves a mirror that fits the log. -/
theorem Mirror.Fits.write (h : m.Fits log) (he : e ∈ log.entries) (hw : WritesOp log e m m') : m'.Fits log := by
  have hsome : ∀ k, (m.getNode k).isSome → (m'.getNode k).isSome := by
    intro k hk
    by_cases hne : k = e.nodeId
    · subst hne
      rcases hw.own with hsame | ⟨r, hr, -⟩
      · rw [hsame]
        exact hk
      · rw [hr]
        rfl
    · rw [hw.others k hne]
      exact hk
  refine ⟨hw.keys h.keys, fun k hk r hr => ?_, fun a ha parentId name type hc hpresent => ?_,
    fun a ha parentId name type hc r hr hseq => ?_⟩
  · by_cases hne : k = e.nodeId
    · subst hne
      rcases hw.own with hsame | ⟨r', hr', -, hfolder, -⟩
      · rw [hsame] at hr
        exact h.folder _ hk r hr
      · rw [hr'] at hr
        cases hr
        exact hfolder
    · rw [hw.others k hne] at hr
      exact h.folder k hk r hr
  · by_cases hne : a.nodeId = e.nodeId
    · rcases hw.own with hsame | ⟨r', hr', -, -, hold, hnew⟩
      · rw [hne, hsame, ← hne] at hpresent
        exact hsome _ (h.parents a ha parentId name type hc hpresent)
      · cases hcreate : isCreate e with
        | false =>
          have hthere := hold hcreate
          rw [← hne] at hthere
          exact hsome _ (h.parents a ha parentId name type hc hthere)
        | true =>
          have hsame : a = e := log.once a ha e he (isCreate_iff.mpr ⟨parentId, name, type, hc⟩) hcreate hne
          subst hsame
          exact hsome _ (hnew parentId name type hc).2
    · rw [hw.others _ hne] at hpresent
      exact hsome _ (h.parents a ha parentId name type hc hpresent)
  · by_cases hne : a.nodeId = e.nodeId
    · rcases hw.own with hsame | ⟨r', hr', hr'seq, -, -, hnew⟩
      · rw [hne, hsame, ← hne] at hr
        exact h.created a ha parentId name type hc r hr hseq
      · rw [hne, hr'] at hr
        cases hr
        -- the row has the number of one op only
        have hsame : a = e := log.eq_of_serverSeq ha he (hseq.symm.trans hr'seq)
        subst hsame
        exact (hnew parentId name type hc).1
    · rw [hw.others _ hne] at hr
      exact h.created a ha parentId name type hc r hr hseq

/-- An update of a node's row that keeps its folder and takes the number of an op other than a create. -/
theorem writesOp_update {f : LocalNode → LocalNode} (h : m.Fits log) (he : e ∈ log.entries) (hcreate : isCreate e = false)
    (hnodes : m'.nodes = (m.updateNode e.nodeId f).nodes) (hnode : ∀ r, (f r).nodeId = r.nodeId)
    (hfolder : ∀ r, (f r).folderId = r.folderId) (hseq : ∀ r, (f r).serverSeq = e.serverSeq) : WritesOp log e m m' := by
  have hget : ∀ k, m'.getNode k = (m.updateNode e.nodeId f).getNode k := fun k => by
    rw [Mirror.getNode, Mirror.getNode, hnodes]
  refine ⟨fun hnd => ?_, fun k hk => ?_, ?_⟩
  · rw [hnodes]
    exact nodup_updateNode hnode hnd
  · rw [hget]
    exact getNode_updateNode_ne hnode hk
  · rw [hget, getNode_updateNode_self hnode]
    cases hr : m.getNode e.nodeId with
    | none => exact .inl rfl
    | some r =>
      refine .inr ⟨f r, rfl, hseq r, ?_, fun _ => rfl, fun parentId name type hc => ?_⟩
      · rw [hfolder]
        exact h.folder e.nodeId (log.names_own he) r hr
      · rw [isCreate_iff.mpr ⟨parentId, name, type, hc⟩] at hcreate
        cases hcreate

/-- A version that is recorded. -/
theorem writesOp_recordVersion {version : LocalVersion} {versionId : String} {isConflictCopy : Bool} (h : m.Fits log)
    (he : e ∈ log.entries) (hcreate : isCreate e = false) :
    WritesOp log e m ((m.upsertVersion version).recordVersion e.nodeId versionId e.serverSeq isConflictCopy) := by
  rw [Mirror.recordVersion]
  split
  · exact writesOp_update h he hcreate rfl (fun _ => rfl) (fun _ => rfl) fun _ => rfl
  · exact writesOp_update h he hcreate rfl (fun _ => rfl) (fun _ => rfl) fun _ => rfl

/-- The row of a created node. -/
theorem writesOp_create {parentId name : String} {type : NodeType} (hc : Creates e parentId name type)
    (hparent : (m.getNode parentId).isSome) :
    WritesOp log e m (m.upsertNode (createdNode log.folderId e.nodeId parentId name type e.serverSeq)) := by
  let row := createdNode log.folderId e.nodeId parentId name type e.serverSeq
  have hcreate : isCreate e = true := isCreate_iff.mpr ⟨parentId, name, type, hc⟩
  have hself : (m.upsertNode row).getNode e.nodeId = some (((m.getNode e.nodeId).map row.keepPushCache).getD row) :=
    getNode_upsertNode_self row
  refine ⟨fun hnd => nodup_upsertNode row hnd, fun k hk => getNode_upsertNode_ne row hk, .inr ⟨_, hself, ?_⟩⟩
  have hwritten : ∀ r : LocalNode, r = row ∨ (∃ old, r = row.keepPushCache old) →
      r.serverSeq = e.serverSeq ∧ r.folderId = log.folderId ∧ AsCreated e parentId name type r := by
    rintro r (rfl | ⟨old, rfl⟩)
    · exact ⟨rfl, rfl, rfl⟩
    · exact ⟨rfl, rfl, rfl⟩
  obtain ⟨hseq, hfolder, hcreated⟩ := hwritten (((m.getNode e.nodeId).map row.keepPushCache).getD row) (by
    cases m.getNode e.nodeId with
    | none => exact .inl rfl
    | some old => exact .inr ⟨old, rfl⟩)
  refine ⟨hseq, hfolder, fun hnot => ?_, fun parentId' name' type' hc' => ?_⟩
  · rw [hcreate] at hnot
    cases hnot
  · obtain ⟨n, hp⟩ := hc
    obtain ⟨n', hp'⟩ := hc'
    rw [hp] at hp'
    cases hp'
    exact ⟨hcreated, hparent⟩

/-- **A pulled op** writes to the row of its node. -/
theorem writesOp_pull {now : ℕ} (h : m.Fits log) (he : e ∈ log.entries) (happly : m.applyOpLogEntry now e = .ok m') :
    WritesOp log e m m' ∨ m' = m := by
  rw [Mirror.applyOpLogEntry] at happly
  split at happly
  · cases happly
    exact .inr rfl
  · refine .inl ?_
    rw [Mirror.applyPayload] at happly
    cases hp : e.payload with
    | create n parentId name type =>
      simp only [hp, Mirror.applyCreate] at happly
      cases hparent : m.getNode parentId with
      | none =>
        rw [hparent] at happly
        cases happly
      | some parent =>
        rw [hparent] at happly
        cases happly
        have hc : Creates e parentId name type := ⟨n, hp⟩
        have hfolder : parent.folderId = log.folderId :=
          h.folder parentId ⟨e, he, .inr ⟨name, type, hc⟩⟩ parent hparent
        rw [hfolder]
        exact writesOp_create hc (by rw [hparent]; rfl)
    | rename newName =>
      simp only [hp] at happly
      cases happly
      exact writesOp_update h he (by rw [isCreate, hp]) rfl (fun _ => rfl) (fun _ => rfl) fun _ => rfl
    | move newParentId =>
      simp only [hp] at happly
      cases happly
      exact writesOp_update h he (by rw [isCreate, hp]) rfl (fun _ => rfl) (fun _ => rfl) fun _ => rfl
    | delete =>
      simp only [hp] at happly
      cases happly
      exact writesOp_update h he (by rw [isCreate, hp]) rfl (fun _ => rfl) (fun _ => rfl) fun _ => rfl
    | newVersion versionId contentHash sizeBytes manifest isConflictCopy =>
      have hcreate : isCreate e = false := by rw [isCreate, hp]
      simp only [hp, Mirror.applyNewVersion] at happly
      cases hnode : m.getNode e.nodeId with
      | none =>
        rw [hnode] at happly
        cases happly
      | some node =>
        rw [hnode] at happly
        cases happly
        exact writesOp_recordVersion h he hcreate

/-- A row that was read from the mirror, with the number of an op other than a create. -/
theorem writesOp_row {x : LocalNode} (hcreate : isCreate e = false) (hnode : x.nodeId = e.nodeId)
    (hthere : (m.getNode x.nodeId).isSome) (hfolder : x.folderId = log.folderId) (hseq : x.serverSeq = e.serverSeq) :
    WritesOp log e m (m.upsertNode x) := by
  refine ⟨fun hnd => nodup_upsertNode x hnd, fun k hk => getNode_upsertNode_ne x (hnode ▸ hk), ?_⟩
  rw [← hnode, getNode_upsertNode_self]
  obtain ⟨old, hold⟩ := Option.isSome_iff_exists.mp hthere
  rw [hold]
  refine .inr ⟨x.keepPushCache old, rfl, hseq, hfolder, fun _ => rfl, fun parentId name type hc => ?_⟩
  rw [isCreate_iff.mpr ⟨parentId, name, type, hc⟩] at hcreate
  cases hcreate

/-- **A recorded answer** writes to the row of its node. -/
theorem writesOp_record {reply : Reply} (now : ℕ) (h : m.Fits log) (hreply : OfLog log m reply) :
    (∃ e ∈ log.entries, WritesOp log e m (m.record log.folderId now reply)) ∨ m.record log.folderId now reply = m := by
  have hlogged := hreply.logged
  have hnode := hreply.node
  have hrow := hreply.row
  have hparent := hreply.parent
  rw [Mirror.record]
  cases hanswer : reply.answer with
  | error error => exact .inr rfl
  | ok response =>
    simp only [hanswer] at hlogged hnode hrow
    cases hop : reply.op with
    | create n parentId name type =>
      simp only [hop] at hlogged hnode
      cases response with
      | superseded currentSeq => exact .inr rfl
      | conflictCopy serverSeq n' conflictVersionId => exact .inr rfl
      | applied serverSeq n' =>
        obtain ⟨e, he, hid, hseq, hp⟩ := hlogged _ serverSeq rfl rfl
        have hid : e.nodeId = n := hid
        have hn' : n' = n := hnode serverSeq n' rfl
        subst hn' hid hseq
        exact .inl ⟨e, he, writesOp_create ⟨_, hp⟩ (hparent _ parentId name type hop)⟩
    | mutate n b mutation =>
      simp only [hop] at hlogged hnode hrow
      have hcopy : ∀ {response : SubmitOpResponse} {e : OpLogEntry},
          e.payload = loggedPayload (.mutate n b mutation) response → isCreate e = false := by
        intro response e hp
        rw [isCreate, hp]
        cases response <;> cases mutation <;> rfl
      cases mutation with
      | newVersion versionId contentHash sizeBytes manifest =>
        cases response with
        | superseded currentSeq => exact .inr rfl
        | applied serverSeq n' =>
          obtain ⟨e, he, hid, hseq, hp⟩ := hlogged _ serverSeq rfl rfl
          have hid : e.nodeId = n := hid
          subst hid hseq
          exact .inl ⟨e, he, writesOp_recordVersion h he (hcopy hp)⟩
        | conflictCopy serverSeq n' conflictVersionId =>
          obtain ⟨e, he, hid, hseq, hp⟩ := hlogged _ serverSeq rfl rfl
          have hid : e.nodeId = n := hid
          subst hid hseq
          exact .inl ⟨e, he, writesOp_recordVersion h he (hcopy hp)⟩
      | delete =>
        cases response with
        | superseded currentSeq => exact .inr rfl
        | conflictCopy serverSeq n' conflictVersionId => exact .inr rfl
        | applied serverSeq n' =>
          obtain ⟨e, he, hid, hseq, hp⟩ := hlogged _ serverSeq rfl rfl
          have hid : e.nodeId = n := hid
          subst hid hseq
          exact .inl ⟨e, he, writesOp_update h he (hcopy hp) rfl (fun _ => rfl) (fun _ => rfl) fun _ => rfl⟩
      | rename newName =>
        cases response with
        | superseded currentSeq => exact .inr rfl
        | conflictCopy serverSeq n' conflictVersionId => exact .inr rfl
        | applied serverSeq n' =>
          cases hx : reply.row with
          | none => exact .inr rfl
          | some x =>
            obtain ⟨e, he, hid, hseq, hp⟩ := hlogged _ serverSeq rfl rfl
            obtain ⟨hxid, hthere, hfolder, hxseq⟩ := hrow x hx
            exact .inl ⟨e, he, writesOp_row (hcopy hp) (hxid.trans hid.symm) hthere hfolder
              ((hxseq serverSeq n' rfl).trans hseq.symm)⟩
      | move newParentId =>
        cases response with
        | superseded currentSeq => exact .inr rfl
        | conflictCopy serverSeq n' conflictVersionId => exact .inr rfl
        | applied serverSeq n' =>
          cases hx : reply.row with
          | none => exact .inr rfl
          | some x =>
            obtain ⟨e, he, hid, hseq, hp⟩ := hlogged _ serverSeq rfl rfl
            obtain ⟨hxid, hthere, hfolder, hxseq⟩ := hrow x hx
            exact .inl ⟨e, he, writesOp_row (hcopy hp) (hxid.trans hid.symm) hthere hfolder
              ((hxseq serverSeq n' rfl).trans hseq.symm)⟩

/-- The push cache is not among what the log is about. -/
theorem Mirror.Fits.cache (h : m.Fits log) (nodeId : String) (sizeBytes mtimeNanos : ℕ) :
    (m.updatePushedCache nodeId sizeBytes mtimeNanos).Fits log := by
  have hget : ∀ k, (m.updatePushedCache nodeId sizeBytes mtimeNanos).getNode k = m.getNode k ∨
      ∃ r, m.getNode k = some r ∧ (m.updatePushedCache nodeId sizeBytes mtimeNanos).getNode k =
        some { r with pushedSizeBytes := some sizeBytes, pushedMtimeNanos := some mtimeNanos } := by
    intro k
    by_cases hk : k = nodeId
    · subst hk
      have hself : (m.updatePushedCache k sizeBytes mtimeNanos).getNode k = (m.getNode k).map fun r =>
          { r with pushedSizeBytes := some sizeBytes, pushedMtimeNanos := some mtimeNanos } :=
        getNode_updateNode_self fun _ => rfl
      rw [hself]
      cases hr : m.getNode k with
      | none => exact .inl rfl
      | some r => exact .inr ⟨r, rfl, rfl⟩
    · exact .inl (getNode_updateNode_ne (fun _ => rfl) hk)
  have hsome : ∀ k, ((m.updatePushedCache nodeId sizeBytes mtimeNanos).getNode k).isSome ↔ (m.getNode k).isSome := by
    intro k
    rcases hget k with hsame | ⟨r, hr, hr'⟩
    · rw [hsame]
    · simp [hr, hr']
  refine ⟨nodup_updateNode (fun _ => rfl) h.keys, fun k hk r hr => ?_, fun a ha parentId name type hc hpresent => ?_,
    fun a ha parentId name type hc r hr hseq => ?_⟩
  · rcases hget k with hsame | ⟨r', hr', hnew⟩
    · rw [hsame] at hr
      exact h.folder k hk r hr
    · rw [hnew] at hr
      cases hr
      exact h.folder k hk r' hr'
  · exact (hsome parentId).mpr (h.parents a ha parentId name type hc ((hsome a.nodeId).mp hpresent))
  · rcases hget a.nodeId with hsame | ⟨r', hr', hnew⟩
    · rw [hsame] at hr
      exact h.created a ha parentId name type hc r hr hseq
    · rw [hnew] at hr
      cases hr
      have hold := h.created a ha parentId name type hc r' hr' hseq
      rw [AsCreated] at hold ⊢
      rw [← hold]
      rfl

end Write

/-- **Every mirror that pulls and recorded answers lead to** fits the log. -/
theorem Reached.fits {log : FolderLog} {m : Mirror} (h : Reached log m) : m.Fits log := by
  induction h with
  | start h => exact h
  | pull now h he happly ih =>
    rcases writesOp_pull ih he happly with hw | rfl
    · exact ih.write he hw
    · exact ih
  | record now h hreply ih =>
    rcases writesOp_record now ih hreply with ⟨e, he, hw⟩ | hsame
    · exact ih.write he hw
    · rw [hsame]
      exact ih
  | cache nodeId sizeBytes mtimeNanos h ih => exact ih.cache nodeId sizeBytes mtimeNanos

/-! ### Redelivery -/

section Redelivery

variable {log : FolderLog} {m : Mirror} {e : OpLogEntry} {n : ℕ}

/-- What a create makes of a mirror that has its parent. -/
theorem applyOpLogEntry_create {now : ℕ} {parentId name : String} {type : NodeType} {parent : LocalNode}
    (hc : Creates e parentId name type) (hparent : m.getNode parentId = some parent) :
    m.applyOpLogEntry now e = .ok (m.upsertNode (createdNode parent.folderId e.nodeId parentId name type e.serverSeq)) := by
  have hcreate : isCreate e = true := isCreate_iff.mpr ⟨parentId, name, type, hc⟩
  have hstale : m.stale e = false := by rw [Mirror.stale, hcreate, Bool.not_true, Bool.false_and]
  obtain ⟨k, hp⟩ := hc
  rw [Mirror.applyOpLogEntry, hstale, if_neg Bool.false_ne_true, Mirror.applyPayload, hp]
  show m.applyCreate e parentId name type = _
  rw [Mirror.applyCreate, hparent]
  rfl

/-- The parent of a created node that is in the mirror. -/
theorem Mirror.Fits.parent (h : m.Fits log) (he : e ∈ log.entries) {parentId name : String} {type : NodeType}
    (hc : Creates e parentId name type) (hthere : (m.getNode e.nodeId).isSome) :
    ∃ parent, m.getNode parentId = some parent ∧ parent.folderId = log.folderId := by
  obtain ⟨parent, hparent⟩ := Option.isSome_iff_exists.mp (h.parents e he parentId name type hc hthere)
  exact ⟨parent, hparent, h.folder parentId ⟨e, he, .inr ⟨name, type, hc⟩⟩ parent hparent⟩

/-- **An op that comes again** has no effect exactly when nothing was applied behind its create. -/
theorem applyOpLogEntry_again (h : m.Fits log) (he : e ∈ log.entries)
    (happlied : ∃ r ∈ m.getNode e.nodeId, e.serverSeq ≤ r.serverSeq) (now : ℕ) :
    m.applyOpLogEntry now e = .ok m ↔ m.Still e := by
  obtain ⟨r, hr, hle⟩ := happlied
  have hr : m.getNode e.nodeId = some r := hr
  cases hcreate : isCreate e with
  | false =>
    have hstale : m.stale e = true := by
      rw [Mirror.stale, hcreate, hr]
      simpa using hle
    constructor
    · intro _ hnot
      rw [hcreate] at hnot
      cases hnot
    · intro _
      rw [Mirror.applyOpLogEntry, hstale, if_pos rfl]
  | true =>
    obtain ⟨parentId, name, type, hc⟩ := isCreate_iff.mp hcreate
    obtain ⟨parent, hparent, hfolder⟩ := h.parent he hc (by rw [hr]; rfl)
    let row := createdNode parent.folderId e.nodeId parentId name type e.serverSeq
    rw [applyOpLogEntry_create hc hparent, Except.ok.injEq]
    constructor
    · intro hsame _ r' hr'
      have hself : (m.upsertNode row).getNode e.nodeId = some (((m.getNode e.nodeId).map row.keepPushCache).getD row) :=
        getNode_upsertNode_self row
      rw [hsame, hr', Option.map_some, Option.getD_some, Option.some.injEq] at hself
      rw [hself]
      rfl
    · intro hstill
      have hcreated := h.created e he parentId name type hc r hr (hstill hcreate r hr)
      have hrow : row.keepPushCache r = r := by
        rw [AsCreated, h.folder e.nodeId (log.names_own he) r hr, ← hfolder] at hcreated
        exact hcreated
      have hnodes : upsert LocalNode.nodeId row row.keepPushCache m.nodes = m.nodes := by
        have hfound : (lookup LocalNode.nodeId row.nodeId m.nodes).isSome := by
          show (m.getNode e.nodeId).isSome
          rw [hr]
          rfl
        rw [upsert, if_pos hfound]
        exact update_of_fixed h.keys hr hrow
      show { m with nodes := upsert LocalNode.nodeId row row.keepPushCache m.nodes } = m
      rw [hnodes]

/-- An op that comes again is applied or passed over; it is not an error. -/
theorem applyOpLogEntry_total (h : m.Fits log) (he : e ∈ log.entries)
    (happlied : ∃ r ∈ m.getNode e.nodeId, e.serverSeq ≤ r.serverSeq) (now : ℕ) :
    ∃ m', m.applyOpLogEntry now e = .ok m' := by
  cases hcreate : isCreate e with
  | false =>
    have hstill : m.Still e := fun hnot => by
      rw [hcreate] at hnot
      cases hnot
    exact ⟨m, (applyOpLogEntry_again h he happlied now).mpr hstill⟩
  | true =>
    obtain ⟨r, hr, -⟩ := happlied
    have hr : m.getNode e.nodeId = some r := hr
    obtain ⟨parentId, name, type, hc⟩ := isCreate_iff.mp hcreate
    obtain ⟨parent, hparent, -⟩ := h.parent he hc (by rw [hr]; rfl)
    exact ⟨_, applyOpLogEntry_create hc hparent⟩

/-- The loop over a page, past an op of a node that the mirror has. -/
theorem applyOps_cons {m' : Mirror} {now : ℕ} {ops : List OpLogEntry} (hthere : (m.getNode e.nodeId).isSome)
    (happly : m.applyOpLogEntry now e = .ok m') : (m.applyOps now (e :: ops)).1 = (m'.applyOps now ops).1 := by
  obtain ⟨r, hr⟩ := Option.isSome_iff_exists.mp hthere
  have hnode : ∃ node, buildPulledNode e (m'.getNode e.nodeId) (m.getNode e.nodeId) = .ok node := by
    rw [buildPulledNode, hr]
    cases m'.getNode e.nodeId <;> exact ⟨_, rfl⟩
  obtain ⟨node, hnode⟩ := hnode
  rw [Mirror.applyOps, happly]
  simp only [hnode]
  rcases m'.applyOps now ops with ⟨m'', error | pulled⟩ <;> rfl

/-- **A page that comes again**, however far it is applied. -/
theorem applyOps_again (h : m.Fits log) (now : ℕ) {range : List OpLogEntry}
    (hrange : ∀ e ∈ range, e ∈ log.entries ∧ ∃ r ∈ m.getNode e.nodeId, e.serverSeq ≤ r.serverSeq) :
    (∀ es, es <+: range → (m.applyOps now es).1 = m) ↔ ∀ e ∈ range, m.Still e := by
  induction range with
  | nil =>
    refine ⟨fun _ e he => absurd he List.not_mem_nil, fun _ es hes => ?_⟩
    rw [List.prefix_nil.mp hes]
    rfl
  | cons e range ih =>
    obtain ⟨he, happlied⟩ := hrange e List.mem_cons_self
    have hthere : (m.getNode e.nodeId).isSome := by
      obtain ⟨r, hr, -⟩ := happlied
      exact Option.isSome_iff_exists.mpr ⟨r, hr⟩
    have hrest := ih fun e he => hrange e (List.mem_cons_of_mem _ he)
    constructor
    · intro hall
      obtain ⟨m', happly⟩ := applyOpLogEntry_total h he happlied now
      have hfirst : m' = m := by
        have hone := hall [e] (by simp)
        rw [applyOps_cons hthere happly] at hone
        exact hone
      subst hfirst
      have hothers : ∀ es, es <+: range → (m'.applyOps now es).1 = m' := by
        intro es hes
        rw [← applyOps_cons hthere happly]
        exact hall (e :: es) (List.cons_prefix_cons.mpr ⟨rfl, hes⟩)
      intro a ha
      rcases List.mem_cons.mp ha with rfl | ha
      · exact (applyOpLogEntry_again h he happlied now).mp happly
      · exact hrest.mp hothers a ha
    · intro hstill es hes
      have happly := (applyOpLogEntry_again h he happlied now).mpr (hstill e List.mem_cons_self)
      cases es with
      | nil => rfl
      | cons a es =>
        obtain ⟨rfl, htail⟩ := List.cons_prefix_cons.mp hes
        rw [applyOps_cons hthere happly]
        exact hrest.mpr (fun b hb => hstill b (List.mem_cons_of_mem _ hb)) es htail

/-- **Redelivery is harmless** exactly for the ops behind whose create nothing was applied: of a log that is applied
up to `n`, one entry that comes again, or any part of a page from its start, leaves the mirror as it is. -/
theorem redelivery_harmless (log : FolderLog) (m : Mirror) (h : Reached log m) (n : ℕ) (happlied : m.AppliedUpTo log n) :
    (∀ now, ∀ e ∈ log.entries, e.serverSeq ≤ n → (m.applyOpLogEntry now e = .ok m ↔ m.Still e)) ∧
    ∀ now range, (∀ e ∈ range, e ∈ log.entries ∧ e.serverSeq ≤ n) →
      ((∀ es, es <+: range → (m.applyOps now es).1 = m) ↔ ∀ e ∈ range, m.Still e) := by
  refine ⟨fun now e he hle => applyOpLogEntry_again h.fits he (happlied e he hle) now, fun now range hrange => ?_⟩
  exact applyOps_again h.fits now fun e he => ⟨(hrange e he).1, happlied e (hrange e he).1 (hrange e he).2⟩

end Redelivery

/-- A file that is created, and gets its content. -/
def writtenFile : FolderLog where
  folderId := "f"
  entries := [
    { serverSeq := 2, nodeId := "n", payload := .create "n" "root" "a" .file, actorDeviceId := "a", appliedAt := 0 },
    { serverSeq := 3, nodeId := "n", payload := .newVersion "v" "h" 0 [] false, actorDeviceId := "a", appliedAt := 0 }]
  ascending := by decide
  once := by decide

/-- A mirror of the folder before that. -/
def rootOnly : Mirror where
  nodes := [{ nodeId := "root", folderId := "f", parentId := none, name := "", nodeType := .folder, serverSeq := 1 }]

/-- The mirror after the ops of a page. -/
def afterOps (k : ℕ) : Mirror := (rootOnly.applyOps 0 (writtenFile.entries.take k)).1

theorem rootOnly_fits : rootOnly.Fits writtenFile where
  keys := by decide
  folder k _ r hr := by
    have hall : ∀ r ∈ rootOnly.nodes, r.folderId = "f" := by decide
    exact hall r (mem_of_lookup hr)
  parents e he parentId name type _ hthere := by
    have hnone : ∀ e ∈ writtenFile.entries, rootOnly.getNode e.nodeId = none := by decide
    rw [hnone e he] at hthere
    cases hthere
  created e he parentId name type _ r hr := by
    have hnone : ∀ e ∈ writtenFile.entries, rootOnly.getNode e.nodeId = none := by decide
    rw [hnone e he] at hr
    cases hr

theorem afterOps_reached : Reached writtenFile (afterOps 1) ∧ Reached writtenFile (afterOps 2) := by
  have hfirst : Reached writtenFile (afterOps 1) := .pull 0 (.start rootOnly_fits) List.mem_cons_self rfl
  exact ⟨hfirst, .pull 0 hfirst (List.mem_cons_of_mem _ List.mem_cons_self) rfl⟩

theorem redelivery_harmless_created :
    (afterOps 1).applyOpLogEntry 5 (writtenFile.entries.head (List.cons_ne_nil _ _)) = .ok (afterOps 1) := by
  have happlied : (afterOps 1).AppliedUpTo writtenFile 2 := by
    intro e he hle
    have hall : ∀ e ∈ writtenFile.entries, e.serverSeq ≤ 2 →
        ∃ r ∈ (afterOps 1).getNode e.nodeId, e.serverSeq ≤ r.serverSeq := by decide
    exact hall e he hle
  refine ((redelivery_harmless writtenFile (afterOps 1) afterOps_reached.1 2 happlied).1 5 _ List.mem_cons_self
    (le_refl 2)).mpr fun _ r hr => ?_
  cases hr
  rfl

/-- **A create that comes again** takes the file's content away, until the op behind it comes again as well. -/
theorem redelivery_resets : let m := afterOps 2
    Reached writtenFile m ∧ m.AppliedUpTo writtenFile 3 ∧
      (m.applyOps 5 (writtenFile.entries.take 1)).1 ≠ m ∧
      ((m.getNode "n").bind LocalNode.currentVersionId = some "v") ∧
      (((m.applyOps 5 (writtenFile.entries.take 1)).1.getNode "n").map fun r => (r.currentVersionId, r.serverSeq)) =
        some (none, 2) := by
  refine ⟨afterOps_reached.2, ?_, by decide +kernel, by decide +kernel, by decide +kernel⟩
  intro e he hle
  have hall : ∀ e ∈ writtenFile.entries, ∃ r ∈ (afterOps 2).getNode e.nodeId, e.serverSeq ≤ r.serverSeq := by decide
  exact hall e he

end Valv.Client
