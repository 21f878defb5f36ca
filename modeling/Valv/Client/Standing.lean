import Valv.Client.CopyNames
import Valv.Client.Warming
import Valv.Lib.FileOps
import Valv.Lib.NamedTree

/-!
# What a walk leaves where it is

Where no call of the filesystem fails, a walk of `push_local` relinks a node only when nothing is found at its path.  So
the nodes that are found on the disk stay where they are in the tree, and so does what is found on the disk.

* `DiskGrown`: a disk to which conflict copies may have been added.
* `Still`: the tree is as it was, but for the content of one node.
* `Relinked`: a node has been put where a new entry is.
* `processEntry_outcome`: what becomes of an entry.
-/

namespace Valv.Client

open Valv.Conc Valv.Table Valv.Server Valv.Files Valv.NamedTree

/-! ### The disk -/

/-- The names on the disk are names of entries, and links are as links are. -/
structure DiskOk (d : Disk FileData) : Prop where
  plain : ∀ x ∈ d.entries, Path.plain x.1
  links : d.LinksClosed

/-- The disk after some conflict copies: files with names of such, where nothing was found before. -/
structure DiskGrown (d d' : Disk FileData) : Prop where
  ok : DiskOk d'
  found : ∀ p, d.present p = true → d'.present p = true
  stays : ∀ p, (d.lstat p).isSome → (d'.lstat p).isSome
  old : ∀ p e, d.lstat p = some e → e.isSymlink = false → d'.lstat p = some e
  new : ∀ p e, d'.lstat p = some e → d.lstat p = some e ∨
    d.present p = false ∧ e.isFile = true ∧ ∃ name, p.getLast? = some name ∧ isConflictCopyName name = true
  appears : ∀ p, d'.present p = true → d.present p = true ∨
    ∃ name, p.getLast? = some name ∧ isConflictCopyName name = true
  chunks : ∀ p f, d'.lstat p = some (.file f) → ∃ p' f', d.lstat p' = some (.file f') ∧ f.chunks = f'.chunks

section Disk

variable {env : PushEnv} {d d' d'' : Disk FileData} {p q : Path} {name : String}

theorem DiskGrown.refl (h : DiskOk d) : DiskGrown d d :=
  ⟨h, fun _ hp => hp, fun _ hp => hp, fun _ _ hp _ => hp, fun _ _ hp => .inl hp, fun _ hp => .inl hp,
    fun p f hp => ⟨p, f, hp, rfl⟩⟩

theorem DiskGrown.trans (h : DiskGrown d d') (h' : DiskGrown d' d'') : DiskGrown d d'' where
  ok := h'.ok
  found p hp := h'.found p (h.found p hp)
  stays p hp := h'.stays p (h.stays p hp)
  old p e hp he := h'.old p e (h.old p e hp he) he
  new p e hp := by
    rcases h'.new p e hp with hp | ⟨habsent, hfile⟩
    · exact h.new p e hp
    · refine .inr ⟨?_, hfile⟩
      cases hpresent : d.present p with
      | false => rfl
      | true => rw [h.found p hpresent] at habsent; cases habsent
  appears p hp := (h'.appears p hp).elim (h.appears p) .inr
  chunks p f hp := by
    obtain ⟨p', f', hp', hchunks⟩ := h'.chunks p f hp
    obtain ⟨p'', f'', hp'', hchunks'⟩ := h.chunks p' f' hp'
    exact ⟨p'', f'', hp'', hchunks.trans hchunks'⟩

/-- No directory comes or goes. -/
theorem DiskGrown.isDir_iff (h : DiskGrown d d') : d'.isDir p = true ↔ d.isDir p = true := by
  rw [isDir_eq, isDir_eq]
  constructor
  · intro hp
    rcases h.new p .dir hp with hp | ⟨-, hfile, -⟩
    · exact hp
    · cases hfile
  · exact fun hp => h.old p .dir hp rfl

/-- A copy of a file with a name that is free. -/
theorem grown_write (h : DiskOk d) {source : Path} {f f' : FileData} (hsource : d.lstat source = some (.file f))
    (hne : source ≠ []) (hname : isConflictCopyName name = true) (hplain : Path.plain (source.dropLast ++ [name]))
    (habsent : d.present (source.dropLast ++ [name]) = false) (hchunks : f'.chunks = f.chunks) :
    DiskGrown d (d.write (source.dropLast ++ [name]) f') := by
  have hdir : d.isDir source.dropLast = true := by
    refine isDir_eq.mpr (lstat_above hsource (List.dropLast_prefix source) fun he => ?_)
    have hlength := congrArg List.length he
    rw [List.length_dropLast] at hlength
    have hpos := List.length_pos_iff.mpr hne
    omega
  have hleads : d.leads (source.dropLast ++ [name]) = true := by
    rw [Disk.leads, List.dropLast_concat, hdir, Bool.or_true]
  have hentry : d.entry (source.dropLast ++ [name]) ≠ some .dir := by
    rcases entry_of_absent hleads habsent with hnone | ⟨behind, hlink, -⟩
    · simp [hnone]
    · simp [hlink]
  have hlstat : ∀ r, (d.write (source.dropLast ++ [name]) f').lstat r =
      if r = source.dropLast ++ [name] then some (.file f') else d.lstat r := fun r => lstat_write hleads hentry
  refine ⟨⟨fun x hx => ?_, fun r behind hmem => ?_⟩, fun r hr => present_write h.links hleads habsent hr,
    fun r hr => ?_, fun r e hr he => ?_, fun r e hr => ?_, fun r hr => ?_, fun r g hr => ?_⟩
  · rcases List.mem_cons.mp hx with rfl | hx
    · exact hplain
    · exact h.plain x (List.mem_filter.mp hx).1
  · rcases List.mem_cons.mp hmem with heq | hmem
    · cases heq
    · exact h.links r behind (List.mem_filter.mp hmem).1
  · rw [hlstat]
    split
    · rfl
    · exact hr
  · rw [hlstat]
    split
    · next hsame =>
      subst hsame
      rw [present_of_lstat hr he] at habsent
      cases habsent
    · exact hr
  · rw [hlstat] at hr
    split at hr
    · next hsame =>
      cases hr
      rw [hsame]
      exact .inr ⟨habsent, rfl, name, List.getLast?_concat, hname⟩
    · exact .inl hr
  · refine (present_of_write hr).imp_right fun hsame => ?_
    rw [hsame]
    exact ⟨name, List.getLast?_concat, hname⟩
  · rw [hlstat] at hr
    split at hr
    · cases hr
      exact ⟨source, f, hsource, hchunks⟩
    · exact ⟨r, g, hr, rfl⟩

theorem plain_of_lstat (h : DiskOk d) {e : Entry FileData} (hp : d.lstat p = some e) : Path.plain p :=
  h.plain _ (mem_of_lstat hp)

end Disk

/-! ### The tree -/

/-- Where a node is in the tree. -/
def LocalNode.place (r : LocalNode) : Place String String NodeType :=
  { key := r.nodeId, parent := r.parentId, name := r.name, kind := r.nodeType }

/-- The places of the live nodes of a folder. -/
def Mirror.places (m : Mirror) (folderId : String) : List (Place String String NodeType) :=
  (m.liveNodes folderId).map LocalNode.place

/-- The version that a node holds. -/
def Mirror.current (m : Mirror) (nodeId : String) : Option (Option String) :=
  (m.getNode nodeId).map LocalNode.currentVersionId

/-- The tree of the folder is the same, and so is what each node holds but `x`. -/
structure Mirror.Alike (folderId : String) (x : Option String) (m m' : Mirror) : Prop where
  ids : m'.nodes.map LocalNode.nodeId = m.nodes.map LocalNode.nodeId
  places : m'.places folderId = m.places folderId
  current : ∀ k, x ≠ some k → m'.current k = m.current k

/-- A version that is not made up in the pass: its id is neither drawn nor the server's choice. -/
def PushEnv.Foreign (env : PushEnv) (versionId : String) : Prop :=
  (∀ k, env.newUuid k ≠ versionId) ∧
    ∀ sent op serverSeq nodeId, env.answer sent op ≠ .conflictCopy serverSeq nodeId versionId

/-- The tree of the pass is the same, and so is what each node holds but `x`; the disk has grown. -/
structure Still (env : PushEnv) (x : Option String) (s t : Pass) : Prop where
  mirror : s.mirror.Alike env.folderId x t.mirror
  versions : ∀ v, env.Foreign v → t.mirror.getVersion v = s.mirror.getVersion v
  queue : t.queue = s.queue
  listed : t.listed = s.listed
  sent : s.sent.length ≤ t.sent.length
  disk : DiskOk s.disk → DiskGrown s.disk t.disk
  uploaded : DiskOk s.disk → ∀ h, t.mirror.isUploaded h = true → s.mirror.isUploaded h = true ∨
    ∃ p f, s.disk.lstat p = some (.file f) ∧ ∃ c ∈ f.chunks, c.chunkHash = h

section Still

variable {env : PushEnv} {x : Option String} {s t u : Pass} {m m' : Mirror} {folderId : String} {α : Type}

theorem Mirror.Alike.refl (m : Mirror) : m.Alike folderId x m := ⟨rfl, rfl, fun _ _ => rfl⟩

theorem Still.of_same (hmirror : t.mirror = s.mirror) (hdisk : t.disk = s.disk) (hqueue : t.queue = s.queue)
    (hlisted : t.listed = s.listed) (hsent : s.sent.length ≤ t.sent.length) : Still env x s t where
  mirror := by
    rw [hmirror]
    exact .refl _
  versions v _ := by rw [hmirror]
  queue := hqueue
  listed := hlisted
  sent := hsent
  disk h := by
    rw [hdisk]
    exact .refl h
  uploaded _ h hup := by
    rw [hmirror] at hup
    exact .inl hup

theorem Still.refl (s : Pass) : Still env x s s := .of_same rfl rfl rfl rfl le_rfl

theorem Still.trans (h : Still env x s t) (h' : Still env x t u) : Still env x s u where
  mirror := ⟨h'.mirror.ids.trans h.mirror.ids, h'.mirror.places.trans h.mirror.places,
    fun k hk => (h'.mirror.current k hk).trans (h.mirror.current k hk)⟩
  versions v hv := (h'.versions v hv).trans (h.versions v hv)
  queue := h'.queue.trans h.queue
  listed := h'.listed.trans h.listed
  sent := h.sent.trans h'.sent
  disk hs := (h.disk hs).trans (h'.disk (h.disk hs).ok)
  uploaded hs hash hup := by
    rcases h'.uploaded (h.disk hs).ok hash hup with hup | ⟨p, f, hf, c, hc, hhash⟩
    · exact h.uploaded hs hash hup
    · obtain ⟨p', f', hf', hchunks⟩ := (h.disk hs).chunks p f hf
      exact .inr ⟨p', f', hf', c, hchunks ▸ hc, hhash⟩

/-- A change of the mirror that leaves the tree alone. -/
theorem Still.of_mirror {f : Mirror → Mirror} (hmirror : s.mirror.Alike env.folderId x (f s.mirror))
    (hversions : ∀ v, env.Foreign v → (f s.mirror).getVersion v = s.mirror.getVersion v)
    (huploaded : (f s.mirror).uploadedChunks = s.mirror.uploadedChunks) :
    Still env x s { s with mirror := f s.mirror } where
  mirror := hmirror
  versions := hversions
  queue := rfl
  listed := rfl
  sent := le_rfl
  disk := .refl
  uploaded _ h hup := by
    rw [Mirror.isUploaded, huploaded] at hup
    exact .inl hup

theorem places_congr (h : m'.nodes = m.nodes) : m'.places folderId = m.places folderId := by
  rw [Mirror.places, Mirror.liveNodes, h]
  rfl

/-- Rows that keep their place. -/
theorem places_updateNode {k : String} {f : LocalNode → LocalNode}
    (hf : ∀ r, (f r).place = r.place ∧ (f r).folderId = r.folderId ∧ (f r).deletedAt = r.deletedAt) :
    (m.updateNode k f).places folderId = m.places folderId := by
  have hrow : ∀ r, (if r.nodeId = k then f r else r).place = r.place ∧
      (if r.nodeId = k then f r else r).folderId = r.folderId ∧
      (if r.nodeId = k then f r else r).deletedAt = r.deletedAt := by
    intro r
    split
    · exact hf r
    · exact ⟨rfl, rfl, rfl⟩
  show ((update LocalNode.nodeId k f m.nodes).filter _).map _ = _
  rw [update, List.filter_map, List.map_map, Mirror.places, Mirror.liveNodes]
  have hlive : ((fun r : LocalNode => decide (r.folderId = folderId) && r.deletedAt.isNone) ∘
      fun r => if r.nodeId = k then f r else r) = fun r => decide (r.folderId = folderId) && r.deletedAt.isNone := by
    funext r
    dsimp only [Function.comp_apply]
    rw [(hrow r).2.1, (hrow r).2.2]
  rw [hlive]
  exact List.map_congr_left fun r _ => (hrow r).1

theorem alike_updateNode {k : String} {f : LocalNode → LocalNode}
    (hf : ∀ r, (f r).place = r.place ∧ (f r).folderId = r.folderId ∧ (f r).deletedAt = r.deletedAt)
    (hcurrent : x = some k ∨ ∀ r, (f r).currentVersionId = r.currentVersionId) :
    m.Alike folderId x (m.updateNode k f) where
  ids := map_key_update fun r hr => (congrArg Place.key (hf r).1).trans hr
  places := places_updateNode hf
  current j hj := by
    have hid : ∀ r, (f r).nodeId = r.nodeId := fun r => congrArg Place.key (hf r).1
    rw [Mirror.current, Mirror.current]
    by_cases hjk : j = k
    · subst hjk
      rw [getNode_updateNode_self hid, Option.map_map]
      rcases hcurrent with hx | hsame
      · exact absurd hx hj
      · congr 1
        funext r
        exact hsame r
    · rw [getNode_updateNode_ne hid hjk]

/-- What comes with a version that was submitted. -/
theorem alike_applySubmittedNewVersion {nodeId : String} {op : SubmitOpRequest} {response : SubmitOpResponse} :
    m.Alike folderId (some nodeId) (m.applySubmittedNewVersion folderId nodeId op response) := by
  have hrecord : ∀ (v : LocalVersion) (versionId : String) (serverSeq : ℕ) (copy : Bool),
      m.Alike folderId (some nodeId) ((m.upsertVersion v).recordVersion nodeId versionId serverSeq copy) := by
    intro v versionId serverSeq copy
    have halike : (m.upsertVersion v).Alike folderId (some nodeId)
        ((m.upsertVersion v).recordVersion nodeId versionId serverSeq copy) := by
      rw [Mirror.recordVersion]
      split <;> exact alike_updateNode (fun _ => ⟨rfl, rfl, rfl⟩) (.inl rfl)
    exact ⟨halike.ids, halike.places, halike.current⟩
  have hreply : ∀ versionId hash size chunks seq, m.Alike folderId (some nodeId) (m.applySubmittedNewVersion folderId nodeId
      (.mutate nodeId seq (.newVersion versionId hash size chunks)) response) := by
    intro versionId hash size chunks seq
    cases response with
    | applied serverSeq n => exact hrecord _ _ _ _
    | conflictCopy serverSeq n conflictVersionId => exact hrecord _ _ _ _
    | superseded currentSeq => exact .refl m
  cases op with
  | create n parentId name type => exact .refl m
  | mutate n seq mutation =>
    cases mutation with
    | newVersion versionId hash size chunks => exact hreply versionId hash size chunks seq
    | rename name => exact .refl m
    | move parentId => exact .refl m
    | delete => exact .refl m

theorem versions_applySubmittedNewVersion {nodeId versionId hash : String} (seq : ℕ) {size : ℕ} {chunks : List ChunkRef}
    {response : SubmitOpResponse} {v : String} (hdrawn : versionId ≠ v)
    (hcopy : ∀ serverSeq n, response ≠ .conflictCopy serverSeq n v) :
    (m.applySubmittedNewVersion folderId nodeId (.mutate nodeId seq (.newVersion versionId hash size chunks))
      response).getVersion v = m.getVersion v := by
  have hrecord : ∀ (m' : Mirror) (id : String) (serverSeq : ℕ) (copy : Bool),
      (m'.recordVersion nodeId id serverSeq copy).getVersion v = m'.getVersion v := by
    intro m' id serverSeq copy
    rw [Mirror.recordVersion]
    split <;> rfl
  cases response with
  | applied serverSeq n => exact (hrecord _ _ _ _).trans (getVersion_upsertVersion_ne _ fun he => hdrawn he.symm)
  | conflictCopy serverSeq n conflictVersionId =>
    refine (hrecord _ _ _ _).trans (getVersion_upsertVersion_ne _ fun he => hcopy serverSeq n ?_)
    rw [he]
  | superseded currentSeq => rfl

end Still

/-! ### Calls that leave the tree alone -/

section Stills

variable {env : PushEnv} {x : Option String} {α β : Type}

/-- The program leaves the tree alone, but for what `x` holds. -/
def Stills (env : PushEnv) (x : Option String) (p : PushProc α) : Prop := ∀ s₀, p.Keeps (fun _ => True) (Still env x s₀)

theorem Stills.runBody {p : PushProc α} (h : Stills env x p) (s : Pass) : Still env x s (p.runBody s).1 :=
  h s s (.refl s) fun _ _ => trivial

theorem stills_pure (a : α) : Stills env x (pure a) := fun _ _ hs _ => hs

theorem stills_fail (e : Halt) : Stills env x (.fail e : PushProc α) := fun _ _ hs _ => hs

theorem Stills.bind {p : PushProc α} {f : α → PushProc β} (hp : Stills env x p) (hf : ∀ a, Stills env x (f a)) :
    Stills env x (p >>= f) := fun s₀ => (hp s₀).bind fun a => hf a s₀

/-- A step with what follows it. -/
theorem stills_act {put : Pass → Pass → Pass} {next : Pass → PushProc α} (hput : ∀ s, Still env x s (put s s))
    (hnext : ∀ v, Stills env x (next v)) : Stills env x (.act put next) := fun s₀ s hs _ =>
  hnext s s₀ _ (hs.trans (hput s)) fun _ _ => trivial

theorem stills_read (f : Pass → α) : Stills env x (.read f) := stills_act .refl fun _ => stills_pure _

theorem stills_fsCall (f : Disk FileData → Option α) : Stills env x (fsCall env f) :=
  stills_act (fun _ => .of_same rfl rfl rfl rfl le_rfl) fun _ => stills_pure _

theorem stills_updateSummary (f : PushSummary → PushSummary) : Stills env x (updateSummary f) :=
  stills_act (fun _ => .of_same rfl rfl rfl rfl le_rfl) fun _ => stills_pure _

theorem stills_ensureNotUpdateRequired : Stills env x (ensureNotUpdateRequired env) := by
  refine stills_act (fun _ => .of_same rfl rfl rfl rfl le_rfl) fun v => ?_
  split
  · exact stills_fail _
  · exact stills_pure _

theorem stills_recordError (e : SubmitError) :
    Stills env x (propagateUpdateRequired e >>= fun _ => recordPushError e) := by
  refine .bind ?_ fun _ => stills_updateSummary _
  rw [propagateUpdateRequired]
  split
  · exact stills_fail _
  · exact stills_pure _

theorem stills_pushOp (path : Path) (op : SubmitOpRequest) : Stills env x (pushOp env path op) := by
  refine stills_act (fun s => .of_same rfl rfl rfl rfl ?_) fun _ => stills_pure _
  simp

theorem stills_updateMirror {f : Mirror → Mirror} (hmirror : ∀ m : Mirror, m.Alike env.folderId x (f m))
    (hversions : ∀ m v, env.Foreign v → (f m).getVersion v = m.getVersion v)
    (huploaded : ∀ m, (f m).uploadedChunks = m.uploadedChunks) : Stills env x (updateMirror f) :=
  stills_act (fun s => .of_mirror (hmirror s.mirror) (hversions s.mirror) (huploaded s.mirror)) fun _ => stills_pure _

theorem stills_pathExists (p : Path) : Stills env x (pathExists env p) :=
  (stills_fsCall _).bind fun _ => stills_pure _

/-! ### Conflict copies -/

theorem stills_disambiguateFrom (dir : Path) (stem : String) (extension : Option String) (left : ℕ) :
    Stills env x (disambiguateFrom env dir stem extension left) := by
  induction left with
  | zero => exact stills_pure _
  | succ left ih =>
    refine (stills_pathExists _).bind fun found => ?_
    split
    · exact ih
    · exact stills_pure _

theorem stills_disambiguateConflictPath (dir : Path) (name : String) :
    Stills env x (disambiguateConflictPath env dir name) := by
  refine (stills_pathExists _).bind fun found => ?_
  split
  · exact stills_disambiguateFrom _ _ _ _
  · exact stills_pure _

/-- Where no call fails, nothing was found at the path that is chosen. -/
theorem disambiguateFrom_absent (hfails : ∀ n, env.fails n = false) {dir : Path} {stem : String}
    {extension : Option String} {left : ℕ} {s t : Pass} {target : Path}
    (h : (disambiguateFrom env dir stem extension left).runBody s = (t, .ok (some target))) :
    env.finds t.disk target = false ∧
      ∃ k : ℕ, target = dir ++ [joinFileName (stem ++ " (" ++ toString k ++ ")") extension] := by
  induction left generalizing s with
  | zero => cases h
  | succ left ih =>
    rw [disambiguateFrom, Proc.runBody_bind_of_ok (runBody_pathExists env _ s), hfails] at h
    cases hfinds : env.finds s.disk (dir ++ [joinFileName (stem ++ " (" ++ toString (20 - left) ++ ")") extension]) with
    | true =>
      rw [hfinds] at h
      exact ih h
    | false =>
      rw [hfinds] at h
      cases h
      exact ⟨hfinds, 20 - left, rfl⟩

theorem disambiguateConflictPath_absent (hfails : ∀ n, env.fails n = false) {dir : Path} {name : String}
    (hname : isConflictCopyName name = true) {s t : Pass} {target : Path}
    (h : (disambiguateConflictPath env dir name).runBody s = (t, .ok (some target))) :
    env.finds t.disk target = false ∧ ∃ name, isConflictCopyName name = true ∧ target = dir ++ [name] := by
  rw [disambiguateConflictPath, Proc.runBody_bind_of_ok (runBody_pathExists env _ s), hfails] at h
  cases hfinds : env.finds s.disk (dir ++ [name]) with
  | true =>
    rw [hfinds] at h
    obtain ⟨habsent, k, rfl⟩ := disambiguateFrom_absent hfails h
    have hnumbered : isConflictCopyName (joinFileName ((splitFileName name).1 ++ (" (" ++ toString k ++ ")"))
        (splitFileName name).2) = true := isConflictCopyName_numbered hname
    rw [← String.append_assoc, ← String.append_assoc] at hnumbered
    exact ⟨habsent, _, hnumbered, rfl⟩
  | false =>
    rw [hfinds] at h
    cases h
    exact ⟨hfinds, name, hname, rfl⟩

/-- A copy to a path where nothing is found. -/
theorem copyFile_still {source target : Path} {name : String} (hname : isConflictCopyName name = true)
    (htarget : target = source.dropLast ++ [name]) (hne : source ≠ []) {s : Pass}
    (habsent : env.finds s.disk target = false) :
    Still env x s ((copyFile env source target).runBody s).1 := by
  have hcalls : Still env x s { s with calls := s.calls + 1 } := .of_same rfl rfl rfl rfl le_rfl
  show Still env x s (if env.fails s.calls || !Path.plain target then { s with calls := s.calls + 1 } else _)
  split
  · exact hcalls
  · next hgoes =>
    rw [Bool.or_eq_true, not_or, Bool.not_eq_true', Bool.not_eq_false] at hgoes
    cases hfile : fileAt s.disk source with
    | none => exact hcalls
    | some f =>
      have hsource : s.disk.lstat source = some (.file f) := by
        rw [fileAt] at hfile
        split at hfile
        · next hentry =>
          cases hfile
          exact hentry
        · cases hfile
      rw [PushEnv.finds, if_pos hgoes.2] at habsent
      subst htarget
      refine ⟨.refl _, fun _ _ => rfl, rfl, rfl, le_rfl, fun h => ?_, fun _ _ hup => .inl hup⟩
      exact grown_write h hsource hne hname hgoes.2 habsent rfl

theorem stills_copyOnConflict (hfails : ∀ n, env.fails n = false) {path : Path} (hne : path ≠ []) (result : SubmitResult) :
    Stills env x (copyOnConflict env path result) := by
  cases result with
  | applied serverSeq n => exact stills_pure _
  | superseded currentSeq => exact stills_pure _
  | conflict => exact stills_pure _
  | error e => exact stills_pure _
  | conflictCopy serverSeq n conflictVersionId =>
    refine Stills.bind (fun s₀ s hs => ?_) fun copied => stills_pure _
    have hpath : Stills env x (disambiguateConflictPath env path.dropLast
        (conflictCopyName (path.getLast?.getD "") env.deviceName env.date)) := stills_disambiguateConflictPath _ _
    refine (hpath s₀ s hs).bind fun t target hrun ht => ?_
    cases target with
    | none => exact fun _ => ht
    | some target =>
      obtain ⟨habsent, name, hname, htarget⟩ :=
        disambiguateConflictPath_absent hfails isConflictCopyName_conflictCopyName hrun
      exact fun _ => ht.trans (copyFile_still hname htarget hne habsent)

/-! ### Contents -/

theorem stills_finishVersion {nodeId : String} (stat : ℕ × ℕ) (error : Option SubmitError) :
    Stills env x (finishVersion nodeId stat error) := by
  cases error with
  | none =>
    refine (stills_updateSummary _).bind fun _ => stills_updateMirror (fun m => ?_) (fun _ _ _ => rfl) fun _ => rfl
    exact alike_updateNode (fun _ => ⟨rfl, rfl, rfl⟩) (.inr fun _ => rfl)
  | some e => exact stills_recordError e

theorem isUploaded_markAll {hashes : List String} {m : Mirror} {h : String}
    (hup : (hashes.foldl Mirror.markUploaded m).isUploaded h = true) : m.isUploaded h = true ∨ h ∈ hashes := by
  induction hashes generalizing m with
  | nil => exact .inl hup
  | cons hash hashes ih =>
    rcases ih hup with hup | hmem
    · rw [Mirror.isUploaded, Mirror.markUploaded, decide_eq_true_eq] at hup
      split at hup
      · exact .inl (by rw [Mirror.isUploaded, decide_eq_true_eq]; exact hup)
      · rcases List.mem_append.mp hup with hup | hnew
        · exact .inl (by rw [Mirror.isUploaded, decide_eq_true_eq]; exact hup)
        · rw [List.mem_singleton.mp hnew]
          exact .inr List.mem_cons_self
    · exact .inr (List.mem_cons_of_mem _ hmem)

/-- Chunks of a file on the disk are stored. -/
theorem uploadChunks_still {s : Pass} {p : Path} {f : FileData} (hf : s.disk.lstat p = some (.file f)) :
    Still env x s ((uploadChunks env f.chunks).runBody s).1 := by
  rw [uploadChunks, Proc.runBody_bind, Proc.runBody_read]
  dsimp only
  split
  · exact .refl s
  rw [Proc.runBody_bind, Proc.runBody_read]
  dsimp only
  obtain ⟨hnodes, hversions⟩ := tables_markAll ((env.upload s.sent.length (f.chunks.filter fun c =>
    !s.mirror.isUploaded c.chunkHash)).1.filter fun h => (f.chunks.filter fun c =>
    !s.mirror.isUploaded c.chunkHash).any fun c => c.chunkHash = h) s.mirror
  refine ⟨⟨?_, ?_, fun k _ => ?_⟩, fun v _ => ?_, rfl, rfl, le_rfl, .refl, fun _ h hup => ?_⟩
  · exact congrArg (List.map LocalNode.nodeId) hnodes
  · exact places_congr hnodes
  · exact congrArg (fun rows => (lookup LocalNode.nodeId k rows).map LocalNode.currentVersionId) hnodes
  · exact congrArg (lookup LocalVersion.versionId v) hversions
  · refine (isUploaded_markAll hup).imp_right fun hmem => ⟨p, f, hf, ?_⟩
    obtain ⟨c, hc, hhash⟩ := List.any_eq_true.mp (List.mem_filter.mp hmem).2
    exact ⟨c, (List.mem_filter.mp hc).1, by simpa using hhash⟩

/-- The chunks of a file that was read. -/
theorem chunkFile_ok {s t : Pass} {p : Path} {chunks : List ChunkRef}
    (h : (chunkFile env p).runBody s = (t, .ok (some chunks))) :
    ∃ f, t.disk.lstat p = some (.file f) ∧ f.chunks = chunks := by
  obtain ⟨rfl, hfile⟩ := fsCall_ok h
  obtain ⟨f, hf, rfl⟩ := Option.map_eq_some_iff.mp hfile
  refine ⟨f, ?_, rfl⟩
  rw [fileAt] at hf
  split at hf
  · next hentry =>
    cases hf
    exact hentry
  · cases hf

/-- A version is submitted for the node `x`. -/
theorem stills_uploadThenSubmitNewVersion (hfails : ∀ n, env.fails n = false) {path : Path} (hne : path ≠ [])
    (nodeId : String) (basedOnSeq : ℕ) :
    Stills env (some nodeId) (uploadThenSubmitNewVersion env nodeId basedOnSeq path) := by
  intro s₀ s hs
  have hread : Stills env (some nodeId) (chunkFile env path) := stills_fsCall _
  refine (hread s₀ s hs).bind fun t chunks hrun ht => ?_
  cases chunks with
  | none => exact fun _ => ht
  | some chunks =>
    obtain ⟨f, hf, rfl⟩ := chunkFile_ok hrun
    have hupload : (uploadChunks env f.chunks).KeepsAt (fun _ => True) (Still env (some nodeId) s₀) t :=
      fun _ => ht.trans (uploadChunks_still hf)
    refine hupload.bind fun u error _ hu => ?_
    cases error with
    | some e => exact fun _ => hu
    | none =>
      let versionId := env.newUuid u.sent.length
      let op : SubmitOpRequest := .mutate nodeId basedOnSeq (.newVersion versionId (env.contentHash f.chunks)
        ((f.chunks.map ChunkRef.length).foldl (· + ·) 0) f.chunks)
      have hanswer : Stills env (some nodeId) (pushOp env path op) := stills_pushOp path op
      have hrecord : ∀ result : SubmitResult, env.answer u.sent op = result →
          Stills env (some nodeId) (updateMirror (fun m => result.response.elim m
            (m.applySubmittedNewVersion env.folderId nodeId op)) >>= fun _ => copyOnConflict env path result) := by
        intro result hresult
        refine (stills_updateMirror (fun m => ?_) (fun m v hv => ?_) fun m => ?_).bind fun _ =>
          stills_copyOnConflict hfails hne result
        · cases result.response with
          | none => exact .refl m
          | some response =>
            show m.Alike env.folderId (some nodeId) (m.applySubmittedNewVersion env.folderId nodeId op response)
            exact alike_applySubmittedNewVersion
        · cases hresponse : result.response with
          | none => rfl
          | some response =>
            refine versions_applySubmittedNewVersion basedOnSeq (hv.1 _) fun serverSeq n hcopy => ?_
            have hconflict : result = .conflictCopy serverSeq n v := by
              subst hcopy
              cases result <;> cases hresponse
              rfl
            exact hv.2 u.sent op serverSeq n (hresult.trans hconflict)
        · cases result.response with
          | none => rfl
          | some response =>
            cases response with
            | applied serverSeq n => rfl
            | conflictCopy serverSeq n conflictVersionId => rfl
            | superseded currentSeq => rfl
      refine (stills_read _ s₀ u hu).bind fun v id hid hv => ?_
      cases hid
      refine (hanswer s₀ u hv).bind fun w result hresult hw => ?_
      rw [runBody_pushOp] at hresult
      have hsame : env.answer u.sent op = result := by
        cases hresult
        rfl
      cases result with
      | error e => exact fun _ => hw
      | applied serverSeq n => exact hrecord _ hsame s₀ w hw
      | conflictCopy serverSeq n conflictVersionId => exact hrecord _ hsame s₀ w hw
      | superseded currentSeq => exact hrecord _ hsame s₀ w hw
      | conflict => exact hrecord _ hsame s₀ w hw

theorem stills_processExistingFile (hfails : ∀ n, env.fails n = false) {path : Path} (hne : path ≠ [])
    (node : LocalNode) : Stills env (some node.nodeId) (processExistingFile env path node) := by
  refine stills_ensureNotUpdateRequired.bind fun _ => (stills_fsCall _).bind fun stat => ?_
  cases stat with
  | none => exact stills_updateSummary _
  | some stat =>
    dsimp only
    split
    · exact stills_updateSummary _
    · refine (stills_read _).bind fun stored => Stills.bind ?_ fun same => ?_
      · cases stored with
        | none => exact stills_pure _
        | some version =>
          rw [sameContent]
          split
          · exact (stills_fsCall _).bind fun _ => stills_pure _
          · exact stills_pure _
      · cases same with
        | none => exact stills_updateSummary _
        | some same =>
          cases same with
          | true =>
            refine (stills_updateSummary _).bind fun _ => stills_updateMirror (fun m => ?_) (fun _ _ _ => rfl) fun _ => rfl
            exact alike_updateNode (fun _ => ⟨rfl, rfl, rfl⟩) (.inr fun _ => rfl)
          | false =>
            exact (stills_uploadThenSubmitNewVersion hfails hne _ _).bind fun _ => stills_finishVersion _ _

theorem stills_pushCreatedContent (hfails : ∀ n, env.fails n = false) {entry : EntryInfo} (hne : entry.path ≠ [])
    (nodeId : String) (serverSeq : ℕ) : Stills env (some nodeId) (pushCreatedContent env entry nodeId serverSeq) := by
  refine (stills_fsCall _).bind fun stat => ?_
  cases stat with
  | none => exact stills_updateSummary _
  | some stat => exact (stills_uploadThenSubmitNewVersion hfails hne _ _).bind fun _ => stills_finishVersion _ _

end Stills

/-! ### A node that is relinked -/

/-- The place of a node where a new entry is. -/
def EntryInfo.place (entry : EntryInfo) (parentNodeId : String) (nodeType : NodeType) (nodeId : String) :
    Place String String NodeType :=
  { key := nodeId, parent := some parentNodeId, name := entry.name, kind := nodeType }

/-- The node is where the new entry is, and a folder is walked into; the rest of the tree is the same. -/
structure Relinked (env : PushEnv) (entry : EntryInfo) (parentNodeId : String) (nodeType : NodeType) (nodeId : String)
    (s t : Pass) : Prop where
  ids : ∀ k ∈ t.mirror.nodes.map LocalNode.nodeId, k ∈ s.mirror.nodes.map LocalNode.nodeId ∨ k = nodeId
  keyed : (s.mirror.nodes.map LocalNode.nodeId).Nodup → (t.mirror.nodes.map LocalNode.nodeId).Nodup
  places : Grafted (s.mirror.places env.folderId) (t.mirror.places env.folderId) (entry.place parentNodeId nodeType nodeId)
  current : ∀ k, k ≠ nodeId → t.mirror.current k = s.mirror.current k
  versions : ∀ v, env.Foreign v → t.mirror.getVersion v = s.mirror.getVersion v
  queue : t.queue = s.queue ++ if nodeType = .folder then [(entry.path, nodeId)] else []
  listed : t.listed = s.listed
  sent : s.sent.length ≤ t.sent.length
  disk : DiskOk s.disk → DiskGrown s.disk t.disk
  uploaded : DiskOk s.disk → ∀ h, t.mirror.isUploaded h = true → s.mirror.isUploaded h = true ∨
    ∃ p f, s.disk.lstat p = some (.file f) ∧ ∃ c ∈ f.chunks, c.chunkHash = h

section Relinked

variable {env : PushEnv} {entry : EntryInfo} {parentNodeId nodeId folderId : String} {nodeType : NodeType} {s t u : Pass}
  {m : Mirror}

theorem Relinked.after {x : Option String} (h : Still env x s t) (hx : ∀ k, x = some k → k = nodeId)
    (h' : Relinked env entry parentNodeId nodeType nodeId t u) : Relinked env entry parentNodeId nodeType nodeId s u where
  ids k hk := by
    have hids := h'.ids k hk
    rwa [h.mirror.ids] at hids
  keyed hs := h'.keyed (by rw [h.mirror.ids]; exact hs)
  places := by
    have hplaces := h'.places
    rwa [h.mirror.places] at hplaces
  current k hk := (h'.current k hk).trans (h.mirror.current k fun he => hk (hx k he))
  versions v hv := (h'.versions v hv).trans (h.versions v hv)
  queue := by rw [h'.queue, h.queue]
  listed := h'.listed.trans h.listed
  sent := h.sent.trans h'.sent
  disk hs := (h.disk hs).trans (h'.disk (h.disk hs).ok)
  uploaded hs hash hup := by
    rcases h'.uploaded (h.disk hs).ok hash hup with hup | ⟨p, f, hf, c, hc, hhash⟩
    · exact h.uploaded hs hash hup
    · obtain ⟨p', f', hf', hchunks⟩ := (h.disk hs).chunks p f hf
      exact .inr ⟨p', f', hf', c, hchunks ▸ hc, hhash⟩

theorem Relinked.before {x : Option String} (h : Relinked env entry parentNodeId nodeType nodeId s t)
    (h' : Still env x t u) (hx : ∀ k, x = some k → k = nodeId) : Relinked env entry parentNodeId nodeType nodeId s u where
  ids k hk := by
    rw [h'.mirror.ids] at hk
    exact h.ids k hk
  keyed hs := by
    rw [h'.mirror.ids]
    exact h.keyed hs
  places := by
    rw [h'.mirror.places]
    exact h.places
  current k hk := (h'.mirror.current k fun he => hk (hx k he)).trans (h.current k hk)
  versions v hv := (h'.versions v hv).trans (h.versions v hv)
  queue := h'.queue.trans h.queue
  listed := h'.listed.trans h.listed
  sent := h.sent.trans h'.sent
  disk hs := (h.disk hs).trans (h'.disk (h.disk hs).ok)
  uploaded hs hash hup := by
    rcases h'.uploaded (h.disk hs).ok hash hup with hup | ⟨p, f, hf, c, hc, hhash⟩
    · exact h.uploaded hs hash hup
    · obtain ⟨p', f', hf', hchunks⟩ := (h.disk hs).chunks p f hf
      exact .inr ⟨p', f', hf', c, hchunks ▸ hc, hhash⟩

theorem mem_places {c : Place String String NodeType} : c ∈ m.places folderId ↔
    ∃ r ∈ m.nodes, r.folderId = folderId ∧ r.deletedAt = none ∧ r.place = c := by
  simp only [Mirror.places, Mirror.liveNodes, List.mem_map, List.mem_filter, Bool.and_eq_true, decide_eq_true_eq,
    Option.isNone_iff_eq_none, and_assoc]

/-- A row that is written is the node's place. -/
theorem grafted_upsertNode {r : LocalNode} (hfolder : r.folderId = folderId) (hlive : r.deletedAt = none) :
    Grafted (m.places folderId) ((m.upsertNode r).places folderId) r.place := by
  intro c
  have hrows : ∀ row, row ∈ (m.upsertNode r).nodes ↔ (row ∈ m.nodes ∧ row.nodeId ≠ r.nodeId) ∨
      if (m.getNode r.nodeId).isSome then ∃ old ∈ m.nodes, old.nodeId = r.nodeId ∧ row = r.keepPushCache old
      else row = r := by
    intro row
    show row ∈ upsert LocalNode.nodeId r r.keepPushCache m.nodes ↔ _
    rw [upsert]
    by_cases hsome : (m.getNode r.nodeId).isSome
    · rw [if_pos hsome, if_pos (show (lookup LocalNode.nodeId r.nodeId m.nodes).isSome from hsome), mem_update]
      constructor
      · intro h
        obtain ⟨old, hold, rfl⟩ := h
        split
        · next hid => exact .inr ⟨old, hold, hid, rfl⟩
        · next hid => exact .inl ⟨hold, hid⟩
      · intro h
        rcases h with ⟨hrow, hne⟩ | ⟨old, hold, hid, rfl⟩
        · exact ⟨row, hrow, (if_neg hne).symm⟩
        · exact ⟨old, hold, (if_pos hid).symm⟩
    · rw [if_neg hsome, if_neg (show ¬(lookup LocalNode.nodeId r.nodeId m.nodes).isSome from hsome), List.mem_append,
        List.mem_singleton]
      have habsent : ∀ row ∈ m.nodes, row.nodeId ≠ r.nodeId :=
        lookup_eq_none.mp (Option.not_isSome_iff_eq_none.mp hsome)
      constructor
      · exact fun h => h.imp_left fun hrow => ⟨hrow, habsent row hrow⟩
      · exact fun h => h.imp_left And.left
  rw [mem_places, mem_places]
  constructor
  · rintro ⟨row, hrow, hf, hl, rfl⟩
    rcases (hrows row).mp hrow with ⟨hrow, hne⟩ | hnew
    · exact .inl ⟨⟨row, hrow, hf, hl, rfl⟩, hne⟩
    · right
      split at hnew
      · obtain ⟨old, -, -, rfl⟩ := hnew
        rfl
      · rw [hnew]
  · rintro (⟨⟨row, hrow, hf, hl, rfl⟩, hne⟩ | rfl)
    · exact ⟨row, (hrows row).mpr (.inl ⟨hrow, hne⟩), hf, hl, rfl⟩
    · by_cases hsome : (m.getNode r.nodeId).isSome
      · obtain ⟨old, hold⟩ := Option.isSome_iff_exists.mp hsome
        refine ⟨r.keepPushCache old, (hrows _).mpr (.inr ?_), hfolder, hlive, rfl⟩
        rw [if_pos hsome]
        exact ⟨old, mem_of_lookup hold, lookup_key hold, rfl⟩
      · refine ⟨r, (hrows _).mpr (.inr ?_), hfolder, hlive, rfl⟩
        rw [if_neg hsome]

/-- The node's row is written with its new place, and a folder is walked into. -/
theorem relinked_upsertNode {r : LocalNode} (hplace : r.place = entry.place parentNodeId nodeType nodeId)
    (hfolder : r.folderId = env.folderId) (hlive : r.deletedAt = none) (hmirror : t.mirror = s.mirror.upsertNode r)
    (hqueue : t.queue = s.queue ++ if nodeType = .folder then [(entry.path, nodeId)] else [])
    (hlisted : t.listed = s.listed) (hsent : t.sent = s.sent) (hdisk : t.disk = s.disk) :
    Relinked env entry parentNodeId nodeType nodeId s t := by
  have hid : r.nodeId = nodeId := congrArg Place.key hplace
  have hrows : ∀ row ∈ (s.mirror.upsertNode r).nodes,
      row.nodeId ∈ s.mirror.nodes.map LocalNode.nodeId ∨ row.nodeId = nodeId := by
    intro row hrow
    rcases mem_upsert hrow with hrow | rfl | ⟨old, -, rfl⟩
    · exact .inl (List.mem_map_of_mem hrow)
    · exact .inr hid
    · exact .inr hid
  refine ⟨fun k hk => ?_, fun hs => ?_, ?_, fun k hk => ?_, fun v _ => ?_, hqueue, hlisted, ?_, fun h => ?_, fun _ h hup => ?_⟩
  · rw [hmirror] at hk
    obtain ⟨row, hrow, rfl⟩ := List.mem_map.mp hk
    exact hrows row hrow
  · rw [hmirror]
    exact nodup_upsert (fun _ _ => rfl) hs
  · rw [hmirror, ← hplace]
    exact grafted_upsertNode hfolder hlive
  · rw [hmirror, Mirror.current, getNode_upsertNode_ne r fun he => hk (he.trans hid)]
    rfl
  · rw [hmirror]
    rfl
  · rw [hsent]
  · rw [hdisk]
    exact .refl h
  · rw [hmirror] at hup
    exact .inl hup

end Relinked

end Valv.Client
