import Valv.Daemon.Checkout

/-!
# What a pulled op can touch

The background sync applies what it has pulled while the user works on the same files.  An op is about one node: it
rewrites the file of the node through a temporary file next to it, moves what is at the old path of the node, or puts
a conflict copy next to it.

* `rewrites`, `movesAway`, `copies`: the paths of an op.
* `Touched`, `Entered`: the places that can change, and those where a directory can appear.
* `Within`: the effect of a program that keeps to some places.
* `writes_writeAtomic`, `writes_applyPulledFsChange`: the programs, from the bottom up.
* `apply_pulled_changes_keeps_to_its_nodes`: a batch, whatever runs in between.
-/

namespace Valv.Daemon

open Valv.Conc Valv.Table Valv.Server Valv.Files Valv.Paths

variable {φ : Type}

/-! ### Places -/

namespace CheckoutEnv

variable (env : CheckoutEnv φ)

/-- The place of the path. -/
def At (path : PathBuf) (q : Path) : Prop := env.place path = some q

/-- The place of the path, and what is below it. -/
def Below (path : PathBuf) (q : Path) : Prop := ∃ p, env.place path = some p ∧ p <+: q

/-- A place on the way to the path. -/
def Leading (path : PathBuf) (q : Path) : Prop := ∃ above, above <+: path ∧ env.place above = some q

/-- The path itself, or a temporary file next to it with a name that is made of a UUID: what `write_atomic` may
change. -/
def Rewritten (path : PathBuf) (q : Path) : Prop :=
  env.Below path q ∨ ∃ name n, fileName path = some name ∧ env.Below (Checkout.tempPath path name (env.newUuid n)) q

end CheckoutEnv

namespace Checkout

variable (env : CheckoutEnv φ) (nodesById : List Client.LocalNode) (pulled : Client.PulledNode)

/-- The old and the new path of a node that is renamed or moved. -/
def renamePaths : Option (PathBuf × PathBuf) :=
  if pulled.opType = "rename" ∨ pulled.opType = "move" then
    match preOpPath env nodesById pulled, nodePath env nodesById pulled.nodeId with
    | some old, some new => if old = new then none else some (old, new)
    | _, _ => none
  else none

/-- The content of the node comes with the op. -/
def bringsContent : Bool :=
  pulled.newVersionId.isSome &&
    (pulled.opType = "create" && pulled.nodeType = .file ||
      pulled.opType = "new_version" && !pulled.isConflictCopy && decide (pulled.oldVersionId ≠ pulled.newVersionId))

/-- The paths that an op can write a file to. -/
def rewrites : List PathBuf :=
  (if bringsContent pulled then (nodePath env nodesById pulled.nodeId).toList else []) ++
    ((renamePaths env nodesById pulled).map Prod.snd).toList

/-- The paths that an op moves something away from. -/
def movesAway : List PathBuf := ((renamePaths env nodesById pulled).map Prod.fst).toList

/-- The paths of a conflict copy. -/
def candidates (desired : PathBuf) : List PathBuf :=
  desired :: match fileName desired with
    | none => []
    | some name => (List.range 19).map fun i => withFileName desired
        (Client.joinFileName ((Client.splitFileName name).1 ++ " (" ++ toString (i + 2) ++ ")")
          (Client.splitFileName name).2)

/-- The paths where an op can put a conflict copy. -/
def copies : List PathBuf :=
  if pulled.opType = "new_version" ∧ pulled.isConflictCopy ∧ pulled.actorDeviceId ≠ env.deviceId ∧
      pulled.newVersionId.isSome then
    (nodePath env nodesById pulled.nodeId).toList.flatMap fun original =>
      (fileName original).toList.flatMap fun name => candidates
        (withFileName original (Client.conflictCopyName name pulled.actorDeviceId (env.dateOf pulled.appliedAt)))
  else []

/-- The places that the op of a pulled node can change: those that it rewrites or moves something away from, with
all that is below them, and those of its conflict copies. -/
def Touched (q : Path) : Prop :=
  (∃ path ∈ rewrites env nodesById pulled, env.Rewritten path q) ∨
    (∃ path ∈ movesAway env nodesById pulled, env.Below path q) ∨ ∃ path ∈ copies env nodesById pulled, env.At path q

/-- The places where an op can make a directory that is missing: on the way to its node's path, and on the way to a
conflict copy. -/
def Entered (q : Path) : Prop :=
  (∃ path, nodePath env nodesById pulled.nodeId = some path ∧ env.Leading path q) ∨
    ∃ path ∈ copies env nodesById pulled, env.Leading path q

end Checkout

/-! ### Effects -/

/-- Nothing changes outside of `T`, but that directories appear in `D`; the nodes stay. -/
structure Within (T D : Path → Prop) (s s' : Checkout φ) : Prop where
  disk : ∀ q, ¬ T q → s'.disk.lstat q = s.disk.lstat q ∨
    D q ∧ s.disk.lstat q = none ∧ s'.disk.lstat q = some .dir
  nodes : s'.mirror.nodes = s.mirror.nodes

instance (T D : Path → Prop) : Std.Refl (Within T D : Checkout φ → Checkout φ → Prop) :=
  ⟨fun _ => ⟨fun _ _ => .inl rfl, rfl⟩⟩

instance (T D : Path → Prop) : IsTrans (Checkout φ) (Within T D) := by
  refine ⟨fun a b c hab hbc => ⟨fun q hq => ?_, hbc.nodes.trans hab.nodes⟩⟩
  rcases hab.disk q hq with h | ⟨hD, hnone, hdir⟩
  · rcases hbc.disk q hq with h' | ⟨hD, hnone, hdir⟩
    · exact .inl (h'.trans h)
    · exact .inr ⟨hD, h ▸ hnone, hdir⟩
  · rcases hbc.disk q hq with h' | ⟨-, hnone', -⟩
    · exact .inr ⟨hD, hnone, h'.trans hdir⟩
    · rw [hdir] at hnone'
      cases hnone'

theorem Within.mono {T T' D D' : Path → Prop} {s s' : Checkout φ} (h : Within T D s s') (hT : ∀ q, T q → T' q)
    (hD : ∀ q, D q → D' q) : Within T' D' s s' :=
  ⟨fun q hq => (h.disk q fun ht => hq (hT q ht)).imp_right fun hd => ⟨hD q hd.1, hd.2⟩, h.nodes⟩

namespace Checkout

variable {env : CheckoutEnv φ} {T D T' D' : Path → Prop} {path old new : PathBuf}

theorem writes_mono {α : Type} {p : CheckoutProc φ α} (h : p.Writes (Within T D)) (hT : ∀ q, T q → T' q)
    (hD : ∀ q, D q → D' q) : p.Writes (Within T' D') := h.mono fun _ _ hw => hw.mono hT hD

/-! ### Calls -/

theorem within_called {s : Checkout φ} {d : Disk φ} {paths : List PathBuf}
    (h : ∀ q, ¬ T q → d.lstat q = s.disk.lstat q ∨ D q ∧ s.disk.lstat q = none ∧ d.lstat q = some .dir) :
    Within T D s (s.called d paths) := ⟨h, rfl⟩

/-- What holds of the disk as it is, and of what a call can make of it. -/
theorem effect_cases {f : Path → Option (Disk φ)} {d : Disk φ} {n : ℕ} {P : Disk φ → Prop} (hsame : P d)
    (h : ∀ p d', env.place path = some p → f p = some d' → P d') : P (env.effect n d path f).1 := by
  rw [CheckoutEnv.effect]
  split
  · exact hsame
  next p hp =>
  split
  · exact hsame
  split
  · exact hsame
  split
  · next d' hd' => exact h p d' hp hd'
  · exact hsame

theorem writes_fsAt {f : Disk φ → Path → Option (Disk φ)}
    (h : ∀ d d' p, env.place path = some p → f d p = some d' → ∀ q, ¬ T q →
      d'.lstat q = d.lstat q ∨ D q ∧ d.lstat q = none ∧ d'.lstat q = some .dir) :
    (fsAt env path f).Writes (Within T D) := by
  refine ⟨fun _ s => within_called fun q hq => ?_, fun _ => True.intro⟩
  exact effect_cases (P := fun d' => d'.lstat q = s.disk.lstat q ∨ D q ∧ s.disk.lstat q = none ∧ d'.lstat q = some .dir)
    (.inl rfl) fun p d' hp hd' => h s.disk d' p hp hd' q hq

/-- A call that changes what stands at one place. -/
theorem writes_fsAt_at {f : Disk φ → Path → Option (Disk φ)}
    (h : ∀ d d' p, f d p = some d' → ∀ q, q ≠ p → d'.lstat q = d.lstat q) :
    (fsAt env path f).Writes (Within (env.At path) D) :=
  writes_fsAt fun d d' p hp hd' q hq => .inl (h d d' p hd' q fun hqp => by
    rw [hqp] at hq
    exact hq hp)

theorem writes_create {data : φ} : (fsAt env path fun d p => d.create p data).Writes (Within (env.At path) D) :=
  writes_fsAt_at fun _ _ _ hd' _ hq => (lstat_create hd').1.trans (if_neg hq)

theorem writes_unlink : (fsAt env path Disk.unlink).Writes (Within (env.At path) D) :=
  writes_fsAt_at fun _ _ _ hd' _ hq => (lstat_unlink hd').trans (if_neg hq)

theorem writes_sync : (fsAt env path fun d _ => some d).Writes (Within T D) :=
  writes_fsAt fun _ _ _ _ hd' _ _ => .inl (by cases hd'; rfl)

theorem writes_mkdir : (fsAt env path Disk.mkdir).Writes (Within T (env.At path)) := by
  refine writes_fsAt fun d d' p hp hd' q _ => ?_
  obtain ⟨hq, hold⟩ := lstat_mkdir (r := q) hd'
  by_cases hqp : q = p
  · subst hqp
    rcases hold with hnone | rfl
    · exact .inr ⟨hp, hnone, hq.trans (if_pos rfl)⟩
    · exact .inl rfl
  · exact .inl (hq.trans (if_neg hqp))

theorem writes_pathExists : (pathExists env path).Writes (Within T D) :=
  ⟨fun _ _ => within_called fun _ _ => .inl rfl, fun _ => True.intro⟩

theorem writes_fsFill {bytes : Client.Bytes} : (fsFill env path bytes).Writes (Within (env.At path) D) := by
  refine ⟨fun _ s => within_called fun q hq => .inl ?_, fun _ => True.intro⟩
  rw [CheckoutEnv.fillEffect]
  split
  · rfl
  next p hp =>
  split
  · rfl
  cases hd : s.disk.create p (if env.fails s.calls then env.torn s.calls else env.file s.calls bytes) with
  | none => rfl
  | some d' => exact (lstat_create hd).1.trans (if_neg fun hqp => hq (by rw [hqp]; exact hp))

/-- A rename changes what is below its two paths. -/
theorem writes_fsRename : (fsRename env old new).Writes (Within (fun q => env.Below old q ∨ env.Below new q) D) := by
  refine ⟨fun _ s => within_called fun q hq => .inl ?_, fun _ => True.intro⟩
  rw [CheckoutEnv.renameEffect]
  split
  · next p r hp hr =>
    split
    · rfl
    split
    · rfl
    split
    · next d' hd' =>
      have hnew : ¬ r <+: q := fun h => hq (.inr ⟨r, hr, h⟩)
      have hold : ¬ p <+: q := fun h => hq (.inl ⟨p, hp, h⟩)
      rw [lstat_rename hd', if_neg hnew, if_neg hold]
    · rfl
  · rfl

theorem writes_required {call : CheckoutProc φ Bool} (h : call.Writes (Within T D)) :
    (required call).Writes (Within T D) := by
  refine h.bind fun b => ?_
  cases b <;> exact True.intro

/-! ### Files -/

theorem writes_mkdirs {paths : List PathBuf} (h : ∀ path ∈ paths, ∀ q, env.At path q → D q) :
    (mkdirs env paths).Writes (Within T D) := by
  induction paths with
  | nil => exact True.intro
  | cons path paths ih =>
    refine (writes_mono writes_mkdir (fun _ ht => ht) (h path List.mem_cons_self)).bind fun b => ?_
    cases b with
    | false => exact True.intro
    | true => exact ih fun path hp => h path (List.mem_cons_of_mem _ hp)

theorem writes_createDirAll : (createDirAll env path).Writes (Within T (env.Leading path)) := by
  refine writes_mkdirs fun above habove q hq => ⟨above, ?_, hq⟩
  exact (List.mem_inits above path).mp (List.mem_of_mem_filter habove)

theorem parentPath_isPrefix {parent : PathBuf} (h : parentPath path = some parent) : parent <+: path := by
  rw [parentPath] at h
  split at h
  · cases h
  · cases h
  · cases h
    exact List.dropLast_prefix path

theorem writes_createParent : (createParent env path).Writes (Within T (env.Leading path)) := by
  rw [createParent]
  split
  · exact True.intro
  · next parent hparent =>
    refine writes_required (writes_mono writes_createDirAll (fun _ ht => ht) ?_)
    rintro q ⟨above, habove, hq⟩
    exact ⟨above, habove.trans (parentPath_isPrefix hparent), hq⟩

theorem writes_writeFile {bytes : Client.Bytes} : (writeFile env path bytes).Writes (Within (env.At path) D) := by
  refine (Proc.Writes.read _).bind fun n => writes_create.bind fun b => ?_
  cases b with
  | false => exact True.intro
  | true => exact writes_fsFill

/-- The temporary file and the path. -/
theorem writes_writeAndRename {bytes : Client.Bytes} :
    (writeAndRename env old new bytes).Writes (Within (fun q => env.Below old q ∨ env.Below new q) D) := by
  have hat : ∀ q, env.At old q → env.Below old q ∨ env.Below new q := fun q hq => .inl ⟨q, hq, List.prefix_rfl⟩
  refine (writes_mono writes_writeFile hat fun _ hd => hd).bind fun b => ?_
  cases b with
  | false => exact True.intro
  | true =>
    refine writes_sync.bind fun b => ?_
    cases b with
    | false => exact True.intro
    | true => exact writes_fsRename

/-- **A file is rewritten** through a temporary one. -/
theorem writes_writeAtomic {bytes : Client.Bytes} :
    (writeAtomic env path bytes).Writes (Within (env.Rewritten path) (env.Leading path)) := by
  refine writes_createParent.bind fun _ => ?_
  cases hname : fileName path with
  | none => exact True.intro
  | some name =>
    have huuid : (.read fun s => env.newUuid s.calls : CheckoutProc φ String).Returns fun uuid =>
        ∃ n, env.newUuid n = uuid := fun v => ⟨v.calls, rfl⟩
    refine (Proc.Writes.read _).bind_of_returns huuid fun uuid hfresh => ?_
    obtain ⟨n, rfl⟩ := hfresh
    have htemp : ∀ q, env.Below (tempPath path name (env.newUuid n)) q → env.Rewritten path q := fun q hq =>
      .inr ⟨name, n, hname, hq⟩
    refine (writes_mono writes_writeAndRename (fun q hq => hq.elim (htemp q) .inl) fun _ hd => hd).bind fun b => ?_
    cases b with
    | true => exact True.intro
    | false =>
      refine (writes_mono writes_unlink (fun q hq => htemp q ⟨q, hq, List.prefix_rfl⟩) fun _ hd => hd).bind fun _ => ?_
      exact True.intro

/-! ### Versions -/

theorem writes_downloadVerifiedVersion {nodeId versionId : String} :
    (downloadVerifiedVersion env nodeId versionId).Writes (Within T D) := by
  refine ⟨fun _ _ => within_called fun _ _ => .inl rfl, fun v => ?_⟩
  dsimp only
  split <;> exact True.intro

theorem nodes_foldl_markUploaded (m : Client.Mirror) (hashes : List String) :
    (hashes.foldl Client.Mirror.markUploaded m).nodes = m.nodes := by
  induction hashes generalizing m with
  | nil => rfl
  | cons hash hashes ih => exact ih _

theorem writes_updateMirror {f : Client.Mirror → Client.Mirror} (h : ∀ m, (f m).nodes = m.nodes) :
    (updateMirror f : CheckoutProc φ Unit).Writes (Within T D) :=
  ⟨fun _ s => ⟨fun _ _ => .inl rfl, h s.mirror⟩, fun _ => True.intro⟩

theorem writes_persistVersionMetadata {nodeId : String} {version : Client.RemoteVersion} :
    (persistVersionMetadata env nodeId version).Writes (Within T D) :=
  writes_updateMirror fun _ => nodes_foldl_markUploaded _ _

theorem writes_materializeVersion {nodeId versionId : String} :
    (materializeVersion env nodeId versionId path).Writes (Within (env.Rewritten path) (env.Leading path)) := by
  refine writes_downloadVerifiedVersion.bind fun r => writes_writeAtomic.bind fun _ => ?_
  exact writes_persistVersionMetadata.bind fun _ => writes_updateMirror fun _ => rfl

theorem writes_downloadAndStoreVersion {nodeId versionId : String} :
    (downloadAndStoreVersion env nodeId versionId).Writes (Within T D) :=
  writes_downloadVerifiedVersion.bind fun _ => writes_persistVersionMetadata.bind fun _ => True.intro

/-! ### Conflict copies -/

theorem returns_disambiguateFrom {desired : PathBuf} {stem : String} {extension : Option String} {left : ℕ}
    (hleft : left ≤ 19) :
    (disambiguateFrom env desired stem extension left).Returns fun path => ∃ i ∈ List.range 19,
      withFileName desired (Client.joinFileName (stem ++ " (" ++ toString (i + 2) ++ ")") extension) = path := by
  induction left with
  | zero => exact True.intro
  | succ left ih =>
    refine (Proc.Returns.trivial _).bind fun b _ => ?_
    cases b with
    | true => exact ih (by omega)
    | false =>
      refine ⟨18 - left, List.mem_range.mpr (by omega), ?_⟩
      have hcounter : 18 - left + 2 = 20 - left := by omega
      rw [hcounter]

/-- The path that is found is one of the candidates. -/
theorem returns_disambiguateConflictPath {desired : PathBuf} :
    (disambiguateConflictPath env desired).Returns fun path => path ∈ candidates desired := by
  refine (Proc.Returns.trivial _).bind fun b _ => ?_
  cases b with
  | false => exact List.mem_cons_self
  | true =>
    rw [if_pos rfl]
    cases hname : fileName desired with
    | none => exact True.intro
    | some name =>
      refine (returns_disambiguateFrom (Nat.le_refl 19)).mono fun path hpath => List.mem_cons_of_mem _ ?_
      rw [hname]
      exact List.mem_map.mpr hpath

theorem writes_disambiguateFrom {desired : PathBuf} {stem : String} {extension : Option String} {left : ℕ} :
    (disambiguateFrom env desired stem extension left).Writes (Within T D) := by
  induction left with
  | zero => exact True.intro
  | succ left ih =>
    refine writes_pathExists.bind fun b => ?_
    cases b with
    | true => exact ih
    | false => exact True.intro

theorem writes_conflictCopyPath {deviceName date : String} :
    (conflictCopyPath env path deviceName date).Writes (Within T D) := by
  rw [conflictCopyPath]
  split
  · exact True.intro
  · refine writes_pathExists.bind fun b => ?_
    cases b with
    | false => exact True.intro
    | true =>
      rw [if_pos rfl]
      split
      · exact True.intro
      · exact writes_disambiguateFrom

/-! ### Ops -/

section Ops

variable {nodesById : List Client.LocalNode} {pulled : Client.PulledNode}

theorem writes_materializeNode {node : Client.LocalNode} :
    (materializeNode env node path).Writes (Within (env.Rewritten path) (env.Leading path)) := by
  rw [materializeNode]
  split
  · exact writes_required writes_createDirAll
  · split
    · exact True.intro
    · refine (Proc.Writes.read _).bind fun marked => ?_
      cases marked with
      | false => exact writes_materializeVersion
      | true =>
        refine writes_pathExists.bind fun found => ?_
        cases found with
        | false => exact writes_materializeVersion
        | true => exact True.intro

theorem writes_writeCanonicalVersion {scope : MaterializeScope} {versionId : String}
    (hbrings : bringsContent pulled = true) :
    (writeCanonicalVersion env nodesById scope pulled versionId).Writes
      (Within (Touched env nodesById pulled) (Entered env nodesById pulled)) := by
  have hshould : (shouldMaterializeCanonical env scope pulled (nodePath env nodesById pulled.nodeId)).Writes
      (Within (Touched env nodesById pulled) (Entered env nodesById pulled)) := by
    rw [shouldMaterializeCanonical.eq_def]
    split
    · exact True.intro
    · split
      · exact True.intro
      · refine (Proc.Writes.read _).bind fun prior => ?_
        cases prior with
        | false => exact True.intro
        | true => exact writes_pathExists
  refine hshould.bind fun should => ?_
  cases should with
  | false => exact True.intro
  | true =>
    rw [if_pos rfl]
    split
    · exact True.intro
    · next path hpath =>
      refine writes_mono writes_materializeVersion (fun q hq => .inl ⟨path, ?_, hq⟩) fun q hq => .inl ⟨path, hpath, hq⟩
      rw [rewrites, if_pos hbrings, hpath]
      exact List.mem_append_left _ (List.mem_singleton.mpr rfl)

theorem writes_applyRename (hop : pulled.opType = "rename" ∨ pulled.opType = "move") :
    (applyRename env nodesById pulled).Writes
      (Within (Touched env nodesById pulled) (Entered env nodesById pulled)) := by
  rw [applyRename]
  split
  · next oldPath newPath hold hnew =>
    split
    · exact True.intro
    next hne =>
    have hpaths : renamePaths env nodesById pulled = some (oldPath, newPath) := by
      rw [renamePaths, if_pos hop, hold, hnew]
      exact if_neg hne
    have hrewritten : ∀ q, env.Rewritten newPath q → Touched env nodesById pulled q := fun q hq => by
      refine .inl ⟨newPath, ?_, hq⟩
      rw [rewrites, hpaths]
      exact List.mem_append_right _ (List.mem_singleton.mpr rfl)
    have hmoved : ∀ q, env.Below oldPath q → Touched env nodesById pulled q := fun q hq => by
      refine .inr (.inl ⟨oldPath, ?_, hq⟩)
      rw [movesAway, hpaths]
      exact List.mem_singleton.mpr rfl
    have hentered : ∀ q, env.Leading newPath q → Entered env nodesById pulled q := fun q hq => .inl ⟨newPath, hnew, hq⟩
    refine writes_pathExists.bind fun found => ?_
    cases found with
    | true =>
      refine (writes_mono writes_createParent (fun _ ht => ht) hentered).bind fun _ => ?_
      refine writes_required (writes_mono writes_fsRename (fun q hq => ?_) fun _ hd => hd)
      exact hq.elim (hmoved q) fun hq => hrewritten q (.inl hq)
    | false =>
      rw [if_neg Bool.false_ne_true]
      split
      · exact True.intro
      · exact writes_mono writes_materializeNode hrewritten hentered
  · exact True.intro

theorem writes_applyConflictCopy (hop : pulled.opType = "new_version") (hcopy : pulled.isConflictCopy = true) :
    (applyConflictCopy env nodesById pulled).Writes
      (Within (Touched env nodesById pulled) (Entered env nodesById pulled)) := by
  rw [applyConflictCopy]
  split
  · exact True.intro
  next hactor =>
  split
  · next versionId canonicalPath hversion hpath =>
    have hreturns : (conflictCopyPath env canonicalPath pulled.actorDeviceId (env.dateOf pulled.appliedAt)).Returns
        fun path => path ∈ copies env nodesById pulled := by
      rw [conflictCopyPath]
      split
      · exact True.intro
      · next name hname =>
        refine returns_disambiguateConflictPath.mono fun path hcandidate => ?_
        rw [copies, if_pos ⟨hop, hcopy, hactor, by rw [hversion]; rfl⟩, hpath]
        refine List.mem_flatMap.mpr ⟨canonicalPath, List.mem_singleton.mpr rfl, ?_⟩
        rw [hname]
        exact List.mem_flatMap.mpr ⟨name, List.mem_singleton.mpr rfl, hcandidate⟩
    refine writes_conflictCopyPath.bind_of_returns hreturns fun conflictPath hmem => ?_
    refine (writes_mono writes_createParent (fun _ ht => ht) fun q hq => .inr ⟨conflictPath, hmem, hq⟩).bind fun _ => ?_
    refine writes_downloadAndStoreVersion.bind fun bytes => writes_required ?_
    exact writes_mono writes_writeFile (fun q hq => .inr (.inr ⟨conflictPath, hmem, hq⟩)) fun _ hd => hd
  · exact True.intro

/-- **An op** keeps to the places of its node. -/
theorem writes_applyPulledFsChange {scope : MaterializeScope} :
    (applyPulledFsChange env nodesById scope pulled).Writes
      (Within (Touched env nodesById pulled) (Entered env nodesById pulled)) := by
  rw [applyPulledFsChange]
  split
  · next hop =>
    split
    · split
      · exact True.intro
      · next path hpath =>
        exact writes_required (writes_mono writes_createDirAll (fun _ ht => ht) fun q hq => .inl ⟨path, hpath, hq⟩)
    · next htype =>
      split
      · exact True.intro
      · next versionId hversion =>
        refine writes_writeCanonicalVersion ?_
        rw [bringsContent, hversion, hop, htype]
        rfl
  split
  · next hop => exact writes_applyRename hop
  split
  · next hop =>
    split
    · next hcopy => exact writes_applyConflictCopy hop hcopy
    next hcopy =>
    split
    · exact True.intro
    next hsame =>
    split
    · exact True.intro
    · next versionId hversion =>
      refine writes_writeCanonicalVersion ?_
      have hnot : pulled.isConflictCopy = false := by simpa using hcopy
      rw [bringsContent, hop, hnot, decide_eq_true hsame, hversion]
      simp
  · exact True.intro

/-- **A batch** keeps to the places of its nodes. -/
theorem writes_applyEach {scope : MaterializeScope} (batch : List Client.PulledNode) :
    (applyEach env nodesById scope batch).Writes
      (Within (fun q => ∃ pulled ∈ batch, Touched env nodesById pulled q)
        fun q => ∃ pulled ∈ batch, Entered env nodesById pulled q) := by
  induction batch with
  | nil => exact True.intro
  | cons pulled rest ih =>
    have hone : (applyPulledFsChange env nodesById scope pulled).Writes
        (Within (Touched env nodesById pulled) (Entered env nodesById pulled)) := writes_applyPulledFsChange
    have hattempt := hone.attempt (f := fun _ => pure ()) fun _ => True.intro
    refine (writes_mono hattempt (fun q hq => ?_) fun q hq => ?_).bind fun _ => writes_mono ih (fun q hq => ?_) fun q hq => ?_
    · exact ⟨pulled, List.mem_cons_self, hq⟩
    · exact ⟨pulled, List.mem_cons_self, hq⟩
    · obtain ⟨other, hother, hq⟩ := hq
      exact ⟨other, List.mem_cons_of_mem _ hother, hq⟩
    · obtain ⟨other, hother, hq⟩ := hq
      exact ⟨other, List.mem_cons_of_mem _ hother, hq⟩

end Ops

end Checkout

/-- The thread at the front keeps to its places, and the others do what they do. -/
def keepsTo (T D : Path → Prop) : ℕ → Checkout φ → Checkout φ → Prop
  | 0 => Within T D
  | _ + 1 => fun _ _ => True

instance (T D : Path → Prop) (i : ℕ) : Std.Refl (keepsTo T D i : Checkout φ → Checkout φ → Prop) := by
  cases i with
  | zero => exact inferInstanceAs (Std.Refl (Within T D))
  | succ i => exact ⟨fun _ => True.intro⟩

instance (T D : Path → Prop) (i : ℕ) : IsTrans (Checkout φ) (keepsTo T D i) := by
  cases i with
  | zero => exact inferInstanceAs (IsTrans (Checkout φ) (Within T D))
  | succ i => exact ⟨fun _ _ _ _ _ => True.intro⟩

theorem writes_any {α : Type} (p : CheckoutProc φ α) : p.Writes fun _ _ => True := by
  induction p with
  | done a => exact True.intro
  | fail e => exact True.intro
  | act put next ih => exact ⟨fun _ _ => True.intro, ih⟩
  | draw next ih => exact ⟨fun _ => True.intro, ih⟩
  | ctl c next ih => exact ih

open Checkout in
/-- **A batch keeps to its nodes.**  Whatever runs in between, of the user or of the daemon, each statement of the batch
that finds no symbolic link on the disk leaves every place alone that is not one of its nodes'; elsewhere at most a
directory appears on the way to such a node, where nothing was.  The nodes of the mirror stay.  A link could lead the
operating system back into the mount, to a place of another node, which the model of a call does not follow. -/
theorem pulled_batch_keeps_to_its_nodes (env : CheckoutEnv φ) (nodesById : List Client.LocalNode)
    (scope : MaterializeScope) (batch : List Client.PulledNode) (s : Checkout φ) (others : List (CheckoutProc φ Unit))
    (sched : List ℕ) :
    (Pool.start s (applyEach env nodesById scope batch :: others)).Along
      (fun p i => i = 0 → Unlinked p.state.disk → Within (fun q => ∃ pulled ∈ batch, Touched env nodesById pulled q)
        (fun q => ∃ pulled ∈ batch, Entered env nodesById pulled q) p.state ((p.step i).getD p).state) sched := by
  let T : Path → Prop := fun q => ∃ pulled ∈ batch, Touched env nodesById pulled q
  let D : Path → Prop := fun q => ∃ pulled ∈ batch, Entered env nodesById pulled q
  have hall : (Pool.start s (applyEach env nodesById scope batch :: others)).Along (fun _ _ => True) sched :=
    Run.Along.of_forall (fun _ _ => True.intro) _ _
  refine Run.Along.of_invariant (I := Pool.Confined (keepsTo T D))
    (fun p i p' hp _ hs => (Pool.Confined.step hp hs).1) (fun p i hp _ hi _ => ?_) ?_ hall
  · cases hs : p.step i with
    | none => exact refl p.state
    | some p' =>
      have hR := (Pool.Confined.step hp hs).2
      rw [hi] at hR
      exact hR
  · refine Pool.Confined.start fun i prog hprog => ?_
    cases i with
    | zero =>
      cases hprog
      exact writes_applyEach batch
    | succ i => exact writes_any prog

end Valv.Daemon
