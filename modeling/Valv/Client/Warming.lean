import Valv.Client.PushCache
import Valv.Client.Unmaterialized
import Valv.Lib.History

/-!
# What a pass records

`push_local` writes size and time of a file into its node's row when it has found the file to be the node's version,
and when it has submitted it.  Between the answer and the pair the row is ahead of its pair; a pass is followed from
one such pair to the next.

* `PushEnv.Tells`: the answers behind which the pairs describe the current versions.
* `Holding`: the invariant of a pass.
* `uploadThenSubmitNewVersion_holding`: an upload and the pair that goes with it.
* `pushLocal_keeping`: a pass.
-/

namespace Valv.Client

open Valv.Conc Valv.Table Valv.Server Valv.Files

/-! ### Answers -/

/-- The regular file in an entry. -/
def entryFile : Entry FileData → Option FileData
  | .file f => some f
  | _ => none

/-- The chunks of every file on the disk are told by its size and its time. The push cache relies on this: it takes
a file with the size and the time it has recorded for the content it has recorded. -/
def Determined (content : ℕ → ℕ → List ChunkRef) (d : Disk FileData) : Prop :=
  ∀ f ∈ d.entries.filterMap fun e => entryFile e.2, f.chunks = content f.sizeBytes f.mtimeNanos

instance (content : ℕ → ℕ → List ChunkRef) (d : Disk FileData) : Decidable (Determined content d) :=
  inferInstanceAs (Decidable (∀ f : FileData, f ∈ _ → f.chunks = content f.sizeBytes f.mtimeNanos))

theorem fileAt_determined {content : ℕ → ℕ → List ChunkRef} {d : Disk FileData} {p : Path} {f : FileData}
    (h : Determined content d) (hf : fileAt d p = some f) : f.chunks = content f.sizeBytes f.mtimeNanos := by
  rw [fileAt] at hf
  split at hf
  · next data hentry =>
    cases hf
    exact h f (List.mem_filterMap.mpr ⟨_, mem_of_lstat hentry, rfl⟩)
  · cases hf

/-- What a pass over this mirror may be answered so that the pairs describe the current versions behind it: a version
that is submitted is applied, or the request fails; and the ids that are drawn are new, to the mirror and to each
other, and are the ids of the nodes that the server makes. -/
structure PushEnv.Tells (env : PushEnv) (m : Mirror) : Prop where
  newVersions (k : ℕ) : m.getVersion (env.newUuid k) = none
  newNodes (k : ℕ) : m.getNode (env.newUuid k) = none
  distinct : Function.Injective env.newUuid
  applied (sent : List Sent) (nodeId : String) (seq : ℕ) (versionId hash : String) (size : ℕ) (chunks : List ChunkRef) :
    (∃ serverSeq n, env.answer sent (.mutate nodeId seq (.newVersion versionId hash size chunks)) = .applied serverSeq n) ∨
      ∃ e, env.answer sent (.mutate nodeId seq (.newVersion versionId hash size chunks)) = .error e
  created (sent : List Sent) (nodeId parentId name : String) (nodeType : NodeType) (serverSeq : ℕ) (n : String)
    (h : env.answer sent (.create nodeId parentId name nodeType) = .applied serverSeq n) : n = nodeId

/-- The invariant of a pass: the mirror is sound, and the ids that are still to be drawn are not in it. -/
structure Holding (content : ℕ → ℕ → List ChunkRef) (env : PushEnv) (s : Pass) : Prop where
  sound : s.mirror.Sound content env.contentHash
  newVersions (k : ℕ) (h : s.sent.length ≤ k) : s.mirror.getVersion (env.newUuid k) = none
  newNodes (k : ℕ) (h : s.sent.length ≤ k) : s.mirror.getNode (env.newUuid k) = none

section Steps

variable {D : Pass → Prop} {env : PushEnv} {content : ℕ → ℕ → List ChunkRef} {m₀ : Mirror} {s t : Pass}

/-- A part of the pass keeps the invariant, if `D` holds on the way. -/
def Keeping (D : Pass → Prop) (content : ℕ → ℕ → List ChunkRef) (env : PushEnv) (α : Type) (p : PushProc α) : Prop :=
  p.Keeps D (Holding content env)

theorem Holding.of_same (h : Holding content env s) (hmirror : t.mirror = s.mirror) (hsent : t.sent = s.sent) :
    Holding content env t := by
  refine ⟨?_, ?_, ?_⟩
  · rw [hmirror]
    exact h.sound
  · rw [hmirror, hsent]
    exact h.newVersions
  · rw [hmirror, hsent]
    exact h.newNodes

theorem keeping_composes : Composes (Keeping D content env) where
  done _ _ hs _ := hs
  fail _ _ hs _ := hs
  bind hp hf := hp.bind hf
  quiet hmirror hsent hnext := by
    intro s hs hD
    exact hnext s _ (hs.of_same (hmirror s s) (hsent s s)) fun t ht => hD t (List.mem_cons_of_mem _ ht)

theorem getNode_of_keeps {m m' : Mirror} {n : String} (h : (m'.getNode n).isSome → (m.getNode n).isSome)
    (hnone : m.getNode n = none) : m'.getNode n = none := by
  rw [hnone] at h
  exact Option.not_isSome_iff_eq_none.mp fun hsome => Bool.false_ne_true (h hsome)

/-- A change of the mirror's rows that has no version and no node anew. -/
theorem updateMirror_keeping {f : Mirror → Mirror} (hs : Holding content env s)
    (hsound : (f s.mirror).Sound content env.contentHash) (hversions : (f s.mirror).versions = s.mirror.versions)
    (hnodes : ∀ n, ((f s.mirror).getNode n).isSome → (s.mirror.getNode n).isSome) :
    (updateMirror f).KeepsAt D (Holding content env) s := by
  intro _
  refine ⟨hsound, fun k hk => ?_, fun k hk => ?_⟩
  · show (f s.mirror).getVersion (env.newUuid k) = none
    rw [Mirror.getVersion, hversions]
    exact hs.newVersions k hk
  · exact getNode_of_keeps (hnodes _) (hs.newNodes k hk)

theorem isSome_updateNode {m : Mirror} {nodeId : String} {f : LocalNode → LocalNode}
    (hid : ∀ r, (f r).nodeId = r.nodeId) (n : String) (h : ((m.updateNode nodeId f).getNode n).isSome) :
    (m.getNode n).isSome := by
  by_cases hn : n = nodeId
  · subst hn
    rw [getNode_updateNode_self hid, Option.isSome_map] at h
    exact h
  · rw [getNode_updateNode_ne hid hn] at h
    exact h

theorem isSome_updatePushedCache {m : Mirror} {nodeId : String} {sizeBytes mtimeNanos : ℕ} (n : String)
    (h : ((m.updatePushedCache nodeId sizeBytes mtimeNanos).getNode n).isSome) : (m.getNode n).isSome :=
  isSome_updateNode (f := fun r => { r with pushedSizeBytes := some sizeBytes, pushedMtimeNanos := some mtimeNanos })
    (fun _ => rfl) n h

theorem isSome_recordVersion {m : Mirror} {nodeId versionId : String} {serverSeq : ℕ} (n : String)
    (h : ((m.recordVersion nodeId versionId serverSeq false).getNode n).isSome) : (m.getNode n).isSome :=
  isSome_updateNode (f := fun r => { r with currentVersionId := some versionId, serverSeq }) (fun _ => rfl) n h

theorem runBody_pushOp (env : PushEnv) (s : Pass) (path : Path) (op : SubmitOpRequest) :
    (pushOp env path op).runBody s =
      ({ s with sent := s.sent ++ [{ op, path, result := env.answer s.sent op }] }, .ok (env.answer s.sent op)) := rfl

theorem pushOp_keeping (path : Path) (op : SubmitOpRequest) :
    Keeping D content env SubmitResult (pushOp env path op) := by
  intro s hs _
  rw [runBody_pushOp]
  have hlater : ∀ k, (s.sent ++ [({ op, path, result := env.answer s.sent op } : Sent)]).length ≤ k → s.sent.length ≤ k := by
    intro k hk
    rw [List.length_append] at hk
    exact Nat.le_of_add_right_le hk
  exact ⟨hs.sound, fun k hk => hs.newVersions k (hlater k hk), fun k hk => hs.newNodes k (hlater k hk)⟩

theorem tables_markAll (hashes : List String) (m : Mirror) :
    (hashes.foldl Mirror.markUploaded m).nodes = m.nodes ∧ (hashes.foldl Mirror.markUploaded m).versions = m.versions := by
  induction hashes generalizing m with
  | nil => exact ⟨rfl, rfl⟩
  | cons hash hashes ih => exact ih (m.markUploaded hash)

theorem uploadChunks_keeping (chunks : List ChunkRef) :
    Keeping D content env (Option SubmitError) (uploadChunks env chunks) := by
  have h : Composes (Keeping D content env) := keeping_composes
  refine h.bind (read_composes h _) fun pending => ?_
  split
  · exact h.done _
  · refine h.bind (read_composes h _) fun result => h.bind (fun s hs => ?_) fun _ => h.done _
    obtain ⟨hnodes, hversions⟩ := tables_markAll
      (result.1.filter fun h => pending.any fun c => c.chunkHash = h) s.mirror
    refine updateMirror_keeping hs (hs.sound.of_tables hnodes hversions) hversions fun n hn => ?_
    rw [Mirror.getNode, hnodes] at hn
    exact hn

/-- A part of the state stays. -/
def Same {β : Type} (g : Pass → β) (s s' : Pass) : Prop := g s' = g s

instance {β : Type} (g : Pass → β) : Std.Refl (Same g) := ⟨fun _ => rfl⟩

instance {β : Type} (g : Pass → β) : IsTrans Pass (Same g) := ⟨fun _ _ _ h h' => h'.trans h⟩

theorem sameMirror_composes : Composes fun _ p => p.Writes (Same Pass.mirror) where
  done _ := True.intro
  fail _ := True.intro
  bind hp hf := hp.bind hf
  quiet hmirror _ hnext := ⟨hmirror, hnext⟩

theorem sameContent_sameDisk (path : Path) (sizeBytes : ℕ) (stored : Option LocalVersion) :
    (sameContent env path sizeBytes stored).Writes (Same Pass.disk) := by
  cases stored with
  | none => exact True.intro
  | some version =>
    have hchunks : (chunkFile env path).Writes (Same Pass.disk) := ⟨fun _ _ => rfl, fun _ => True.intro⟩
    rw [sameContent]
    split
    · exact hchunks.bind fun _ => True.intro
    · exact True.intro

/-- A call of the filesystem that succeeds. -/
theorem fsCall_ok {α : Type} {f : Disk FileData → Option α} {a : α} (h : (fsCall env f).runBody s = (t, .ok (some a))) :
    t = { s with calls := s.calls + 1 } ∧ f s.disk = some a := by
  have hrun : (fsCall env f).runBody s =
      ({ s with calls := s.calls + 1 }, .ok (if env.fails s.calls then none else f s.disk)) := rfl
  rw [hrun] at h
  obtain ⟨hstate, hvalue⟩ := Prod.mk.inj h
  refine ⟨hstate.symm, ?_⟩
  have hfound := Except.ok.inj hvalue
  split at hfound
  · cases hfound
  · exact hfound

/-- The state behind `update_pushed_cache` with size and time of the file. -/
def Pass.pushed (s : Pass) (nodeId : String) (f : FileData) : Pass :=
  { s with mirror := s.mirror.updatePushedCache nodeId f.sizeBytes f.mtimeNanos }

/-- The version that an applied request has left, with the pair of its file. -/
theorem holding_pushed (hw : env.Tells m₀) (hs : Holding content env s) {nodeId : String} (serverSeq : ℕ)
    {f : FileData} {v : LocalVersion} {e : Sent} (hv : v.versionId = env.newUuid s.sent.length)
    (hhash : v.contentHash = env.contentHash (content f.sizeBytes f.mtimeNanos)) :
    Holding content env (Pass.pushed
      { s with
        mirror := (s.mirror.upsertVersion v).recordVersion nodeId v.versionId serverSeq false
        sent := s.sent ++ [e] } nodeId f) := by
  have hnew : s.mirror.getVersion v.versionId = none := by
    rw [hv]
    exact hs.newVersions _ le_rfl
  have hlater : ∀ k, (s.sent ++ [e]).length ≤ k → s.sent.length < k := by
    intro k hk
    rw [List.length_append, List.length_singleton] at hk
    exact hk
  refine ⟨sound_pushed hs.sound (fun old hold => ?_) hhash, fun k hk => ?_, fun k hk => ?_⟩
  · rw [hnew] at hold
    cases hold
  · have hlt := hlater k hk
    have hne : env.newUuid k ≠ v.versionId := by
      rw [hv]
      exact fun h => absurd (hw.distinct h) hlt.ne'
    show (s.mirror.upsertVersion v).getVersion (env.newUuid k) = none
    rw [getVersion_upsertVersion_ne v hne]
    exact hs.newVersions k hlt.le
  · refine getNode_of_keeps (fun hn => ?_) (hs.newNodes k (hlater k hk).le)
    have hrecorded := isSome_updatePushedCache (env.newUuid k) hn
    exact isSome_recordVersion (env.newUuid k) hrecorded

/-- **An upload**: it fails and keeps the invariant, or it succeeds, and the pair of the file restores it. -/
theorem uploadThenSubmitNewVersion_holding (hw : env.Tells m₀) (hs : Holding content env s)
    (hdisk : Determined content s.disk) {nodeId : String} {basedOnSeq : ℕ} {path : Path}
    {res : Except Halt (Option SubmitError)}
    (hrun : (uploadThenSubmitNewVersion env nodeId basedOnSeq path).runBody s = (t, res)) :
    res ≠ .ok none ∧ Holding content env t ∨
      ∃ f, fileAt s.disk path = some f ∧ res = .ok none ∧ Holding content env (t.pushed nodeId f) := by
  have hother : ∀ e : SubmitError, (Except.ok (some e) : Except Halt (Option SubmitError)) ≠ .ok none := nofun
  have hchunk : (chunkFile env path).runBody s = ({ s with calls := s.calls + 1 },
      .ok (if env.fails s.calls then none else (fileAt s.disk path).map FileData.chunks)) := rfl
  have hs₁ : Holding content env { s with calls := s.calls + 1 } := hs.of_same rfl rfl
  rw [uploadThenSubmitNewVersion, Proc.runBody_bind_of_ok hchunk] at hrun
  cases hread : (if env.fails s.calls then none else (fileAt s.disk path).map FileData.chunks) with
  | none =>
    rw [hread] at hrun
    cases hrun
    exact .inl ⟨hother _, hs₁⟩
  | some chunks =>
    rw [hread] at hrun
    have hfile : (fileAt s.disk path).map FileData.chunks = some chunks := by
      split at hread
      · cases hread
      · exact hread
    obtain ⟨f, hf, rfl⟩ := Option.map_eq_some_iff.mp hfile
    have hupload := uploadChunks_keeping (D := fun _ => True) f.chunks _ hs₁ fun _ _ => True.intro
    dsimp only at hrun
    rw [Proc.runBody_bind] at hrun
    cases hup : (uploadChunks env f.chunks).runBody { s with calls := s.calls + 1 } with
    | mk s₂ result =>
      rw [hup] at hrun hupload
      cases result with
      | error e =>
        cases hrun
        exact .inl ⟨nofun, hupload⟩
      | ok error =>
        cases error with
        | some e =>
          cases hrun
          exact .inl ⟨hother _, hupload⟩
        | none =>
          let op : SubmitOpRequest := .mutate nodeId basedOnSeq (.newVersion (env.newUuid s₂.sent.length)
            (env.contentHash f.chunks) ((f.chunks.map ChunkRef.length).foldl (· + ·) 0) f.chunks)
          have hpush := runBody_pushOp env s₂ path op
          have hversion : (newUuid env).runBody s₂ = (s₂, .ok (env.newUuid s₂.sent.length)) := rfl
          dsimp only at hrun
          rw [Proc.runBody_bind_of_ok hversion, Proc.runBody_bind_of_ok hpush] at hrun
          cases hw.applied s₂.sent nodeId basedOnSeq (env.newUuid s₂.sent.length) (env.contentHash f.chunks)
            ((f.chunks.map ChunkRef.length).foldl (· + ·) 0) f.chunks with
          | inl happlied =>
            obtain ⟨serverSeq, n, hanswer⟩ := happlied
            have hanswer' : env.answer s₂.sent op = .applied serverSeq n := hanswer
            rw [hanswer'] at hrun
            cases hrun
            refine .inr ⟨f, hf, rfl, ?_⟩
            exact holding_pushed hw hupload serverSeq (v := {
              versionId := env.newUuid s₂.sent.length, nodeId, folderId := env.folderId,
              contentHash := env.contentHash f.chunks,
              sizeBytes := (f.chunks.map ChunkRef.length).foldl (· + ·) 0, manifest := f.chunks }) rfl
              (congrArg env.contentHash (fileAt_determined hdisk hf))
          | inr hfailed =>
            obtain ⟨e, hanswer⟩ := hfailed
            have hanswer' : env.answer s₂.sent op = .error e := hanswer
            have hsent := pushOp_keeping (D := fun _ => True) path op s₂ hupload fun _ _ => True.intro
            rw [hpush] at hsent
            rw [hanswer'] at hrun
            cases hrun
            rw [hanswer'] at hsent
            exact .inl ⟨hother _, hsent⟩

/-- An upload and what follows it, with the file's size and time before it. -/
theorem pushVersion_keeping (hw : env.Tells m₀) (hs : Holding content env s) {nodeId : String} {basedOnSeq : ℕ}
    {path : Path} {f : FileData} (hf : fileAt s.disk path = some f) :
    (uploadThenSubmitNewVersion env nodeId basedOnSeq path >>= finishVersion nodeId (f.sizeBytes, f.mtimeNanos)).KeepsAt
      (fun s => Determined content s.disk) (Holding content env) s := by
  intro hD
  have hdisk : Determined content s.disk := hD s (Proc.mem_history _ s)
  rw [Proc.runBody_bind]
  cases hrun : (uploadThenSubmitNewVersion env nodeId basedOnSeq path).runBody s with
  | mk t res =>
    cases uploadThenSubmitNewVersion_holding hw hs hdisk hrun with
    | inl hfailed =>
      obtain ⟨hres, ht⟩ := hfailed
      cases res with
      | error e => exact ht
      | ok error =>
        cases error with
        | none => exact absurd rfl hres
        | some e =>
          have h : Composes (Keeping (fun _ => True) content env) := keeping_composes
          exact recordError_composes h e t ht fun _ _ => True.intro
    | inr hpushed =>
      obtain ⟨g, hg, rfl, ht⟩ := hpushed
      have hfg : f = g := Option.some.inj (hf.symm.trans hg)
      subst hfg
      exact ht.of_same rfl rfl

/-- The file is the stored version. -/
theorem sameContent_ok {path : Path} {sizeBytes : ℕ} {stored : Option LocalVersion}
    (hrun : (sameContent env path sizeBytes stored).runBody s = (t, .ok (some true))) :
    ∃ version f, stored = some version ∧ fileAt s.disk path = some f ∧
      env.contentHash f.chunks = version.contentHash := by
  cases stored with
  | none => cases hrun
  | some version =>
    rw [sameContent] at hrun
    split at hrun
    · obtain ⟨s₁, chunks, hchunks, hrun⟩ := Proc.runBody_bind_ok hrun
      cases chunks with
      | none => cases hrun
      | some chunks =>
        obtain ⟨-, hfile⟩ := fsCall_ok hchunks
        obtain ⟨f, hf, rfl⟩ := Option.map_eq_some_iff.mp hfile
        have hsame : decide (env.contentHash f.chunks = version.contentHash) = true :=
          Option.some.inj (Except.ok.inj (Prod.mk.inj hrun).2)
        exact ⟨version, f, rfl, hf, of_decide_eq_true hsame⟩
    · cases hrun

/-! ### Entries -/

/-- A file that has a node: what it is found to hold is the node's version, or becomes it. -/
theorem processExistingFile_keeping (hw : env.Tells m₀) {path : Path} {node : LocalNode}
    (hs : Holding content env s) (hnode : s.mirror.getNode node.nodeId = some node) :
    (processExistingFile env path node).KeepsAt (fun s => Determined content s.disk) (Holding content env) s := by
  have h : Composes (Keeping (fun s => Determined content s.disk) content env) := keeping_composes
  refine (ensureNotUpdateRequired_composes h s hs).bind fun s₁ _ hlook hs₁ => ?_
  have hmirror₁ : s₁.mirror = s.mirror := (ensureNotUpdateRequired_composes sameMirror_composes).of_runBody hlook
  refine (fsCall_composes h _ s₁ hs₁).bind fun s₂ stat hstat hs₂ => ?_
  cases stat with
  | none => exact updateSummary_composes h _ s₂ hs₂
  | some stat =>
    obtain ⟨rfl, hfile⟩ := fsCall_ok hstat
    obtain ⟨f, hf, rfl⟩ := Option.map_eq_some_iff.mp hfile
    dsimp only
    split
    · exact updateSummary_composes h _ _ hs₂
    · refine (read_composes h _ _ hs₂).bind fun s₃ stored hstored hs₃ => ?_
      cases hstored
      refine (sameContent_composes h path f.sizeBytes _ _ hs₃).bind fun s₄ same hsame hs₄ => ?_
      have hmirror : s₄.mirror = s.mirror :=
        ((sameContent_composes sameMirror_composes path f.sizeBytes _).of_runBody hsame).trans hmirror₁
      have hkept := (sameContent_sameDisk path f.sizeBytes _).of_runBody hsame
      have hdisk : s₄.disk = s₁.disk := hkept
      cases same with
      | none => exact updateSummary_composes h _ s₄ hs₄
      | some same =>
        cases same with
        | false =>
          rw [← hdisk] at hf
          exact pushVersion_keeping hw hs₄ hf
        | true =>
          obtain ⟨version, g, hversion, hg, hhash⟩ := sameContent_ok hsame
          have hfg : f = g := Option.some.inj (hf.symm.trans hg)
          subst hfg
          refine (updateSummary_composes h _ s₄ hs₄).bind fun u _ hsummary hu => ?_
          cases hsummary
          have hversion' : s.mirror.getVersion (node.currentVersionId.getD "") = some version := by
            rw [← hmirror₁]
            exact hversion
          have hcurrent : s₄.mirror.currentContent node.nodeId = some version.contentHash := by
            rw [hmirror, Mirror.currentContent, hnode, Option.bind_some, hversion', Option.map_some]
          intro hD
          have hhere := hD _ (Proc.mem_history _ _)
          have hdet : Determined content s₄.disk := hhere
          rw [hdisk] at hdet
          have hsound : (s₄.mirror.updatePushedCache node.nodeId f.sizeBytes f.mtimeNanos).Sound content env.contentHash := by
            refine sound_updatePushedCache hs₄.sound.keyed (fun k _ => hs₄.sound.told k) fun _ => ?_
            rw [hcurrent, ← hhash, ← fileAt_determined hdet hf]
          exact updateMirror_keeping hu hsound rfl isSome_updatePushedCache hD

theorem pushCreatedContent_keeping (hw : env.Tells m₀) (entry : EntryInfo) (nodeId : String) (serverSeq : ℕ) :
    Keeping (fun s => Determined content s.disk) content env Unit (pushCreatedContent env entry nodeId serverSeq) := by
  have h : Composes (Keeping (fun s => Determined content s.disk) content env) := keeping_composes
  intro s hs
  refine (fsCall_composes h _ s hs).bind fun s₁ stat hstat hs₁ => ?_
  cases stat with
  | none => exact updateSummary_composes h _ s₁ hs₁
  | some stat =>
    obtain ⟨rfl, hfile⟩ := fsCall_ok hstat
    obtain ⟨f, hf, rfl⟩ := Option.map_eq_some_iff.mp hfile
    exact pushVersion_keeping hw hs₁ hf

/-- A node that the server has made has a row of its own. -/
theorem holding_created (hw : env.Tells m₀) (hs : Holding content env s) (path : Path) (folderId : String)
    {parentId name : String} {nodeType : NodeType} {serverSeq : ℕ} {n : String}
    (hanswer : env.answer s.sent (.create (env.newUuid s.sent.length) parentId name nodeType) = .applied serverSeq n) :
    Holding content env { s with
      mirror := s.mirror.upsertNode (createdNode folderId n parentId name nodeType serverSeq)
      sent := s.sent ++ [⟨.create (env.newUuid s.sent.length) parentId name nodeType, path, .applied serverSeq n⟩] } := by
  have hn := hw.created _ _ _ _ _ _ _ hanswer
  have hnone : s.mirror.getNode n = none := by
    rw [hn]
    exact hs.newNodes _ le_rfl
  have hlater : ∀ k, (s.sent ++ [(⟨.create (env.newUuid s.sent.length) parentId name nodeType, path,
      .applied serverSeq n⟩ : Sent)]).length ≤ k → s.sent.length < k := by
    intro k hk
    rw [List.length_append, List.length_singleton] at hk
    exact hk
  refine ⟨sound_upsertNode_new hs.sound rfl (unrecorded_of_none hnone), fun k hk => ?_, fun k hk => ?_⟩
  · exact hs.newVersions k (hlater k hk).le
  · have hne : env.newUuid k ≠ n := by
      rw [hn]
      exact fun h => absurd (hw.distinct h) (hlater k hk).ne'
    show (s.mirror.upsertNode (createdNode folderId n parentId name nodeType serverSeq)).getNode (env.newUuid k) = none
    rw [getNode_upsertNode_ne _ hne]
    exact hs.newNodes k (hlater k hk).le

theorem createEntry_keeping (hw : env.Tells m₀) (entry : EntryInfo) (parentNodeId : String) (nodeType : NodeType) :
    Keeping (fun s => Determined content s.disk) content env Unit (createEntry env entry parentNodeId nodeType) := by
  have h : Composes (Keeping (fun s => Determined content s.disk) content env) := keeping_composes
  refine h.bind (ensureNotUpdateRequired_composes h) fun _ => fun s hs => ?_
  refine (read_composes h _ s hs).bind fun s₁ nodeId hread hs₁ => ?_
  cases hread
  have hpush := runBody_pushOp env s entry.path
    (.create (env.newUuid s.sent.length) parentNodeId entry.name nodeType)
  refine (pushOp_keeping _ _ s hs).bind fun t result hrun ht => ?_
  rw [hpush] at hrun
  cases result with
  | error e => exact recordError_composes h e t ht
  | superseded currentSeq => exact updateSummary_composes h _ t ht
  | conflictCopy serverSeq nodeId conflictVersionId => exact h.done _ t ht
  | conflict => exact h.done _ t ht
  | applied serverSeq n =>
    obtain ⟨hstate, hanswer⟩ := Prod.mk.inj hrun
    have hanswer' := Except.ok.inj hanswer
    rw [hanswer'] at hstate
    subst hstate
    have hcreated := holding_created hw hs entry.path env.folderId hanswer'
    have hrow : (updateMirror fun m =>
        m.upsertNode (createdNode env.folderId n parentNodeId entry.name nodeType serverSeq)).KeepsAt
        (fun s => Determined content s.disk) (Holding content env)
        { s with sent := s.sent ++ [⟨.create (env.newUuid s.sent.length) parentNodeId entry.name nodeType, entry.path,
          .applied serverSeq n⟩] } :=
      fun _ => hcreated
    refine hrow.bind fun u _ _ hu => ?_
    refine (updateSummary_composes h _ u hu).bind fun v _ _ hv => ?_
    cases nodeType with
    | folder => exact enqueue_composes h _ _ v hv
    | file => exact pushCreatedContent_keeping hw entry n serverSeq v hv

/-! ### Moves -/

/-- The row in the walk's hands has the version that the node's row in the mirror has. -/
def Pass.HasRow (s : Pass) (node : LocalNode) : Prop :=
  ∃ old, s.mirror.getNode node.nodeId = some old ∧ node.currentVersionId = old.currentVersionId

theorem Pass.HasRow.of_mirror {node : LocalNode} (h : s.HasRow node) (hmirror : t.mirror = s.mirror) : t.HasRow node := by
  rw [Pass.HasRow, hmirror]
  exact h

/-- A row that is there is written again. -/
theorem upsertNode_keeping {node : LocalNode} (hs : Holding content env s) (hnode : s.HasRow node) :
    (updateMirror fun m => m.upsertNode node).KeepsAt D (Holding content env) s := by
  obtain ⟨old, hold, hversion⟩ := hnode
  refine updateMirror_keeping hs (sound_upsertNode_again hs.sound hold hversion) rfl fun n hn => ?_
  by_cases hid : n = node.nodeId
  · rw [hid, hold]
    rfl
  · rw [getNode_upsertNode_ne node hid] at hn
    exact hn

theorem finishMove_keeping {entry : EntryInfo} {nodeType : NodeType} {node : LocalNode}
    (hs : Holding content env s) (hnode : s.HasRow node) :
    (finishMove entry nodeType node).KeepsAt D (Holding content env) s := by
  have h : Composes (Keeping D content env) := keeping_composes
  refine (upsertNode_keeping hs hnode).bind fun t _ _ ht => ?_
  exact h.bind (enqueueFolder_composes h _ _ _) (fun _ => updateSummary_composes h _) t ht

theorem mirror_pushOp {path : Path} {op : SubmitOpRequest} {result : SubmitResult}
    (h : (pushOp env path op).runBody s = (t, .ok result)) : t.mirror = s.mirror := by
  cases h
  rfl

theorem renameMoved_keeping {entry : EntryInfo} {nodeType : NodeType} {node : LocalNode}
    (hs : Holding content env s) (hnode : s.HasRow node) :
    (renameMoved env entry nodeType node).KeepsAt D (Holding content env) s := by
  have h : Composes (Keeping D content env) := keeping_composes
  rw [renameMoved]
  split
  · exact finishMove_keeping hs hnode
  · refine (pushOp_keeping _ _ s hs).bind fun t result hpush ht => ?_
    have hnode' : t.HasRow node := hnode.of_mirror (mirror_pushOp hpush)
    cases result with
    | applied serverSeq n => exact finishMove_keeping ht hnode'
    | error e =>
      refine (propagateUpdateRequired_composes h e t ht).bind fun u _ hpropagate hu => ?_
      have hmirror : u.mirror = t.mirror := (propagateUpdateRequired_composes sameMirror_composes e).of_runBody hpropagate
      refine (upsertNode_keeping hu (hnode'.of_mirror hmirror)).bind fun w _ _ hw => ?_
      exact h.bind (updateSummary_composes h _) (fun _ => deferDelete_composes h _) w hw
    | conflictCopy serverSeq n conflictVersionId => exact updateSummary_composes h _ t ht
    | superseded currentSeq => exact updateSummary_composes h _ t ht
    | conflict => exact updateSummary_composes h _ t ht

theorem moveEntry_keeping {entry : EntryInfo} {parentNodeId : String} {nodeType : NodeType} {node : LocalNode}
    (hs : Holding content env s) (hnode : s.HasRow node) :
    (moveEntry env entry parentNodeId nodeType node).KeepsAt D (Holding content env) s := by
  have h : Composes (Keeping D content env) := keeping_composes
  rw [moveEntry]
  split
  · exact renameMoved_keeping hs hnode
  · refine (pushOp_keeping _ _ s hs).bind fun t result hpush ht => ?_
    have hnode' : t.HasRow node := hnode.of_mirror (mirror_pushOp hpush)
    cases result with
    | applied serverSeq n => exact renameMoved_keeping ht hnode'
    | error e =>
      exact h.bind (propagateUpdateRequired_composes h e) (fun _ => h.bind (updateSummary_composes h _) fun _ =>
        deferDelete_composes h _) t ht
    | conflictCopy serverSeq n conflictVersionId => exact updateSummary_composes h _ t ht
    | superseded currentSeq => exact updateSummary_composes h _ t ht
    | conflict => exact updateSummary_composes h _ t ht

theorem processMovedEntry_keeping (entry : EntryInfo) (parentNodeId : String) (nodeType : NodeType) :
    Keeping D content env Bool (processMovedEntry env entry parentNodeId nodeType) := by
  have h : Composes (Keeping D content env) := keeping_composes
  intro s hs
  refine (findMissingMoveCandidate_composes h entry parentNodeId nodeType s hs).bind fun t found hfind ht => ?_
  obtain ⟨calls, hrun⟩ := runBody_findMissingMoveCandidate env entry parentNodeId nodeType s
  rw [hrun] at hfind
  cases found with
  | none => exact h.done _ t ht
  | some node =>
    -- the candidate is a row of the mirror
    obtain ⟨rfl, hinfers⟩ := Prod.mk.inj hfind
    split at hinfers
    · cases hinfers
    have hlive := infers_mem env entry parentNodeId nodeType (Except.ok.inj hinfers)
    have hmem : node ∈ s.mirror.nodes := (List.mem_filter.mp hlive).1
    have hrow : s.HasRow node := ⟨node, lookup_of_mem hs.sound.keyed hmem, rfl⟩
    exact (moveEntry_keeping ht hrow).bind fun u _ _ hu => h.done _ u hu

/-! ### The pass -/

theorem processEntry_keeping (hw : env.Tells m₀) (parentNodeId : String) (entry : EntryInfo) :
    Keeping (fun s => Determined content s.disk) content env Unit (processEntry env parentNodeId entry) := by
  have h : Composes (Keeping (fun s => Determined content s.disk) content env) := keeping_composes
  have hnew : ∀ nodeType, Keeping (fun s => Determined content s.disk) content env Unit
      (processNewEntry env entry parentNodeId nodeType) := by
    intro nodeType
    refine h.bind (processMovedEntry_keeping entry parentNodeId nodeType) fun moved => ?_
    split
    · exact h.done _
    · exact createEntry_keeping hw entry parentNodeId nodeType
  intro s hs
  refine (ensureNotUpdateRequired_composes h s hs).bind fun s₁ _ _ hs₁ => ?_
  split
  · exact updateSummary_composes h _ s₁ hs₁
  · refine (read_composes h _ s₁ hs₁).bind fun s₂ node hread hs₂ => ?_
    cases hread
    split
    · exact updateSummary_composes h _ s₁ hs₂
    · split
      · exact enqueue_composes h _ _ s₁ hs₂
      · exact hnew .folder s₁ hs₂
      · next node htype hfound =>
        have hfind : s₁.mirror.getNodeByParentAndName env.folderId (some parentNodeId) entry.name = some node := hfound
        have hmem : node ∈ s₁.mirror.nodes := List.mem_of_find?_eq_some hfind
        exact processExistingFile_keeping hw hs₂ (lookup_of_mem hs₂.sound.keyed hmem)
      · exact hnew .file s₁ hs₂
      · exact updateSummary_composes h _ s₁ hs₂

theorem submitDelete_keeping (node : LocalNode) (path : Path) :
    Keeping D content env Unit (submitDelete env node path) := by
  have h : Composes (Keeping D content env) := keeping_composes
  have hskip : Keeping D content env Unit countSkipped := updateSummary_composes h _
  refine h.bind (pushOp_keeping _ _) fun result => ?_
  cases result with
  | applied serverSeq n =>
    have hmark : Keeping D content env Unit (updateMirror fun m => m.markDeleted node.nodeId serverSeq env.now) := by
      intro s hs
      refine updateMirror_keeping hs (sound_updateNode hs.sound (fun _ => rfl) fun _ => rfl) rfl fun n hn => ?_
      exact isSome_updateNode (f := fun r => { r with deletedAt := some env.now, serverSeq }) (fun _ => rfl) n hn
    exact h.bind hmark fun _ => updateSummary_composes h _
  | error e => exact recordError_composes h e
  | conflictCopy serverSeq n conflictVersionId => exact hskip
  | superseded currentSeq => exact hskip
  | conflict => exact hskip

/-- **A pass** keeps the invariant, in surroundings that tell. -/
theorem pushLocal_keeping (hw : env.Tells m₀) :
    Keeping (fun s => Determined content s.disk) content env Unit (pushLocal env) := by
  have h : Composes (Keeping (fun s => Determined content s.disk) content env) := keeping_composes
  exact h.bind (pushTree_composes h (processEntry_keeping hw)) fun _ => submitDeletes_composes h submitDelete_keeping

end Steps

end Valv.Client
