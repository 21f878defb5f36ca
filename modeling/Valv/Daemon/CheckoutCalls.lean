import Valv.Daemon.CheckoutFrame
import Valv.Lib.Crash

/-!
# What the calls of a checkout keep

All that the daemon does to the files of a mount is a call of the file system.  What each call keeps of a disk is kept
by every program.

* `FsCalls`, `Calls`: a relation that each call is in; then the programs are in it.
* `KeptByCalls`, `SameMirror`, `Idle`: relations between disks, between mirrors, and between both.
* `Unlinked`: a disk without symbolic links stays one.
* `place_below`, `tempPath_below`: paths of plain names.
* `marked_persisted`, `marked_of_recorded`: what a write marks.
* `fsAt_true`, `writeAtomic_ok`, `materializeVersion_ok`: what stands where after a call that has succeeded.
-/

namespace Valv.Daemon

open Valv.Conc Valv.Table Valv.Server Valv.Files Valv.Paths

variable {φ : Type}

/-! ### Relations that every call is in -/

/-- Every call of the file system is in the relation, a removal apart. -/
structure FsCalls (env : CheckoutEnv φ) (R : Checkout φ → Checkout φ → Prop) : Prop where
  refl : ∀ s, R s s
  mkdir : ∀ path, (Checkout.fsAt env path Disk.mkdir).Writes R
  create : ∀ path data, (Checkout.fsAt env path fun d p => d.create p data).Writes R
  sync : ∀ path, (Checkout.fsAt env path fun d _ => some d).Writes R
  unlink : ∀ path, (Checkout.fsAt env path Disk.unlink).Writes R
  pathExists : ∀ path, (Checkout.pathExists env path).Writes R
  fsFill : ∀ path bytes, (Checkout.fsFill env path bytes).Writes R
  fsRename : ∀ old new, (Checkout.fsRename env old new).Writes R

/-- Every call is in the relation. -/
structure Calls (env : CheckoutEnv φ) (R : Checkout φ → Checkout φ → Prop) : Prop extends FsCalls env R where
  fsRemove : ∀ path type, (Checkout.fsRemove env path type).Writes R
  download : ∀ nodeId versionId, (Checkout.downloadVerifiedVersion env nodeId versionId).Writes R
  updateMirror : ∀ f, (Checkout.updateMirror f : CheckoutProc φ Unit).Writes R

section Programs

variable {env : CheckoutEnv φ} {R : Checkout φ → Checkout φ → Prop} {path : PathBuf}

open Checkout

theorem writes_of_required {call : CheckoutProc φ Bool} (h : call.Writes R) : (required call).Writes R := by
  refine h.bind fun b => ?_
  cases b <;> exact True.intro

namespace FsCalls

variable (h : FsCalls env R)
include h

theorem read {α : Type} (f : Checkout φ → α) : (.read f : CheckoutProc φ α).Writes R :=
  ⟨fun _ s => h.refl s, fun _ => True.intro⟩

theorem mkdirs (paths : List PathBuf) : (mkdirs env paths).Writes R := by
  induction paths with
  | nil => exact True.intro
  | cons path paths ih =>
    refine (h.mkdir path).bind fun b => ?_
    cases b with
    | false => exact True.intro
    | true => exact ih

theorem createDirAll : (createDirAll env path).Writes R := h.mkdirs _

theorem createParent : (createParent env path).Writes R := by
  rw [Checkout.createParent]
  split
  · exact True.intro
  · exact writes_of_required h.createDirAll

theorem writeFile {bytes : Client.Bytes} : (writeFile env path bytes).Writes R := by
  refine (h.read _).bind fun n => (h.create path _).bind fun b => ?_
  cases b with
  | false => exact True.intro
  | true => exact h.fsFill path bytes

theorem writeAndRename {temp : PathBuf} {bytes : Client.Bytes} : (writeAndRename env temp path bytes).Writes R := by
  refine h.writeFile.bind fun b => ?_
  cases b with
  | false => exact True.intro
  | true =>
    refine (h.sync temp).bind fun b => ?_
    cases b with
    | false => exact True.intro
    | true => exact h.fsRename temp path

theorem writeAtomic {bytes : Client.Bytes} : (writeAtomic env path bytes).Writes R := by
  refine h.createParent.bind fun _ => ?_
  cases fileName path with
  | none => exact True.intro
  | some name =>
    refine (h.read _).bind fun uuid => h.writeAndRename.bind fun b => ?_
    cases b with
    | true => exact True.intro
    | false => exact (h.unlink _).bind fun _ => True.intro

end FsCalls

namespace Calls

variable (h : Calls env R)
include h

theorem materializeVersion {nodeId versionId : String} : (materializeVersion env nodeId versionId path).Writes R :=
  (h.download nodeId versionId).bind fun _ => h.writeAtomic.bind fun _ =>
    (h.updateMirror _).bind fun _ => h.updateMirror _

theorem materializeNode {node : Client.LocalNode} : (materializeNode env node path).Writes R := by
  rw [Checkout.materializeNode]
  split
  · exact writes_of_required h.createDirAll
  · split
    · exact True.intro
    · refine (h.read _).bind fun marked => ?_
      cases marked with
      | false => exact h.materializeVersion
      | true =>
        refine (h.pathExists path).bind fun found => ?_
        cases found with
        | false => exact h.materializeVersion
        | true => exact True.intro

theorem removeDead (dead : List (PathBuf × NodeType)) : (removeDead env dead).Writes R := by
  induction dead with
  | nil => exact True.intro
  | cons e dead ih =>
    refine (h.fsRemove e.1 e.2).bind fun answer => ?_
    cases answer with
    | failed => exact True.intro
    | _ => exact ih

theorem cleanupDeletedMountPaths : (Checkout.cleanupDeletedMountPaths env).Writes R :=
  (h.read _).bind fun _ => h.removeDead _

theorem materializeEach (visits : List (Client.LocalNode × PathBuf)) : (materializeEach env visits).Writes R := by
  induction visits with
  | nil => exact True.intro
  | cons visit visits ih => exact h.materializeNode.bind fun _ => ih

/-- **The whole tree.** -/
theorem materializeMountFiles : (Checkout.materializeMountFiles env).Writes R := by
  refine h.cleanupDeletedMountPaths.bind fun _ => (h.read _).bind fun visits => ?_
  cases visits with
  | none => exact True.intro
  | some visits => exact (writes_of_required h.createDirAll).bind fun _ => h.materializeEach visits

end Calls

end Programs

/-! ### Relations between disks -/

/-- Every change of a disk by a call is in the relation. -/
structure KeptByCalls (P : Disk φ → Disk φ → Prop) : Prop where
  refl : ∀ d, P d d
  trans : ∀ d d' d'', P d d' → P d' d'' → P d d''
  mkdir : ∀ d d' p, d.mkdir p = some d' → P d d'
  create : ∀ d d' p data, d.create p data = some d' → P d d'
  rename : ∀ d d' p q, d.rename p q = some d' → P d d'
  unlink : ∀ d d' p, d.unlink p = some d' → P d d'
  removeTree : ∀ d d' p, d.removeTree p = some d' → P d d'
  spare : ∀ d p spared, P d (d.spare p spared)

/-- The relation, of the disks of two states. -/
def OnDisk (P : Disk φ → Disk φ → Prop) (s s' : Checkout φ) : Prop := P s.disk s'.disk

section KeptByCalls

variable {env : CheckoutEnv φ} {P : Disk φ → Disk φ → Prop} (h : KeptByCalls P)
include h

theorem KeptByCalls.fsAt {path : PathBuf} {f : Disk φ → Path → Option (Disk φ)}
    (hf : ∀ d d' p, f d p = some d' → P d d') : (Checkout.fsAt env path f).Writes (OnDisk P) :=
  ⟨fun _ s => Checkout.effect_cases (P := fun d' => P s.disk d') (h.refl _) fun p d' _ hd' => hf _ d' p hd',
    fun _ => True.intro⟩

/-- What every call keeps of the disk, every program keeps. -/
theorem KeptByCalls.calls : Calls env (OnDisk P) where
  refl s := h.refl s.disk
  mkdir _ := h.fsAt h.mkdir
  create _ data := h.fsAt fun d d' p hd => h.create d d' p data hd
  sync _ := h.fsAt fun d d' _ hd => by
    cases hd
    exact h.refl d
  unlink _ := h.fsAt h.unlink
  pathExists _ := ⟨fun _ s => h.refl s.disk, fun _ => True.intro⟩
  updateMirror _ := ⟨fun _ s => h.refl s.disk, fun _ => True.intro⟩
  download nodeId versionId := by
    refine ⟨fun _ s => h.refl s.disk, fun v => ?_⟩
    dsimp only
    split <;> exact True.intro
  fsFill path bytes := by
    refine ⟨fun _ s => ?_, fun _ => True.intro⟩
    show P s.disk (env.fillEffect s.calls s.disk path bytes).1
    rw [CheckoutEnv.fillEffect]
    split
    · exact h.refl _
    next p hp =>
    split
    · exact h.refl _
    cases hd : s.disk.create p (if env.fails s.calls then env.torn s.calls else env.file s.calls bytes) with
    | none => exact h.refl _
    | some d' => exact h.create _ _ _ _ hd
  fsRename old new := by
    refine ⟨fun _ s => ?_, fun _ => True.intro⟩
    show P s.disk (env.renameEffect s.calls s.disk old new).1
    rw [CheckoutEnv.renameEffect]
    split
    · split
      · exact h.refl _
      split
      · exact h.refl _
      split
      · next d' hd' => exact h.rename _ _ _ _ hd'
      · exact h.refl _
    · exact h.refl _
  fsRemove path type := by
    refine ⟨fun _ s => ?_, fun _ => True.intro⟩
    show P s.disk (env.removeEffect s.calls s.disk path type).1
    rw [CheckoutEnv.removeEffect]
    split
    · exact h.refl _
    next p hp =>
    split
    · exact h.refl _
    split
    · cases type with
      | folder => exact h.spare _ p (env.spared s.calls)
      | file => exact h.refl _
    cases type with
    | folder =>
      cases hd : s.disk.removeTree p with
      | none => exact h.refl _
      | some d' => exact h.removeTree _ _ _ hd
    | file =>
      cases hd : s.disk.unlink p with
      | none => exact h.refl _
      | some d' => exact h.unlink _ _ _ hd

end KeptByCalls

/-- The mirror stays. -/
def SameMirror (s s' : Checkout φ) : Prop := s'.mirror = s.mirror

instance : Std.Refl (SameMirror : Checkout φ → Checkout φ → Prop) := ⟨fun _ => rfl⟩

instance : IsTrans (Checkout φ) SameMirror := ⟨fun _ _ _ hab hbc => hbc.trans hab⟩

/-- No call of the file system changes the mirror. -/
theorem sameMirror_calls (env : CheckoutEnv φ) : FsCalls env SameMirror where
  refl _ := rfl
  mkdir _ := ⟨fun _ _ => rfl, fun _ => True.intro⟩
  create _ _ := ⟨fun _ _ => rfl, fun _ => True.intro⟩
  sync _ := ⟨fun _ _ => rfl, fun _ => True.intro⟩
  unlink _ := ⟨fun _ _ => rfl, fun _ => True.intro⟩
  pathExists _ := ⟨fun _ _ => rfl, fun _ => True.intro⟩
  fsFill _ _ := ⟨fun _ _ => rfl, fun _ => True.intro⟩
  fsRename _ _ := ⟨fun _ _ => rfl, fun _ => True.intro⟩

/-- The disk and the mirror stay. -/
def Idle (s t : Checkout φ) : Prop := t.disk = s.disk ∧ t.mirror = s.mirror

instance : Std.Refl (Idle : Checkout φ → Checkout φ → Prop) := ⟨fun _ => ⟨rfl, rfl⟩⟩

instance : IsTrans (Checkout φ) Idle := ⟨fun _ _ _ hab hbc => ⟨hbc.1.trans hab.1, hbc.2.trans hab.2⟩⟩

theorem idle_pathExists {env : CheckoutEnv φ} {path : PathBuf} : (Checkout.pathExists env path).Writes Idle :=
  ⟨fun _ _ => ⟨rfl, rfl⟩, fun _ => True.intro⟩

theorem idle_download {env : CheckoutEnv φ} {nodeId versionId : String} :
    (Checkout.downloadVerifiedVersion env nodeId versionId).Writes Idle := by
  refine ⟨fun _ s => ⟨rfl, rfl⟩, fun v => ?_⟩
  dsimp only
  split <;> exact True.intro

/-! ### Disks without links -/

/-- What stands on the second disk is a directory, a file, or something that stood on the first. -/
theorem unlinked_keptByCalls : KeptByCalls fun d d' : Disk φ => Unlinked d → Unlinked d' where
  refl _ h := h
  trans _ _ _ h h' hd := h' (h hd)
  mkdir d d' p hd' hd q behind hq := by
    rw [(lstat_mkdir hd').1] at hq
    split at hq
    · cases hq
    · exact hd q behind hq
  create d d' p data hd' hd q behind hq := by
    rw [(lstat_create hd').1] at hq
    split at hq
    · cases hq
    · exact hd q behind hq
  rename d d' p r hd' hd q behind hq := by
    rw [lstat_rename hd'] at hq
    split at hq
    · exact hd _ behind hq
    · split at hq
      · cases hq
      · exact hd q behind hq
  unlink d d' p hd' hd q behind hq := by
    rw [lstat_unlink hd'] at hq
    split at hq
    · cases hq
    · exact hd q behind hq
  removeTree d d' p hd' hd q behind hq := by
    rw [lstat_removeTree hd'] at hq
    split at hq
    · cases hq
    · exact hd q behind hq
  spare d p spared hd q behind hq := hd q behind (lstat_of_spare hq)

/-- No link appears. -/
def Unlinking (s s' : Checkout φ) : Prop := Unlinked s.disk → Unlinked s'.disk

instance : Std.Refl (Unlinking : Checkout φ → Checkout φ → Prop) := ⟨fun _ h => h⟩

instance : IsTrans (Checkout φ) Unlinking := ⟨fun _ _ _ hab hbc h => hbc (hab h)⟩

/-- No program makes a link. -/
theorem unlinking_calls (env : CheckoutEnv φ) : Calls env Unlinking := unlinked_keptByCalls.calls

theorem linked_eq_false {d : Disk φ} (h : Unlinked d) (p : Path) : linked d p = false := by
  rw [linked, List.any_eq_false]
  intro r _ hr
  obtain ⟨e, he, hlink⟩ := (Option.any_eq_true _ _).mp hr
  cases e with
  | symlink behind => exact h r behind he
  | dir => cases hlink
  | file data => cases hlink
  | other => cases hlink

theorem linkedAbove_eq_false {d : Disk φ} (h : Unlinked d) (p : Path) : linkedAbove d p = false := by
  rw [linkedAbove, linked_eq_false h, Bool.and_false]

/-- Without links, what is found at a path stands there. -/
theorem present_iff_of_unlinked {d : Disk φ} (h : Unlinked d) {p : Path} :
    d.present p = true ↔ (d.lstat p).isSome := by
  refine ⟨lstat_of_present h, fun hp => ?_⟩
  obtain ⟨e, he⟩ := Option.isSome_iff_exists.mp hp
  refine present_of_lstat he ?_
  cases e with
  | symlink behind => exact absurd he (h p behind)
  | dir => rfl
  | file data => rfl
  | other => rfl

/-! ### Paths of plain names -/

/-- The path with these names below the mount root. -/
def CheckoutEnv.below (env : CheckoutEnv φ) (names : List String) : PathBuf := env.root ++ names.map .normal

section Places

variable {env : CheckoutEnv φ} {names : List String} {name uuid : String}

theorem plainPath_map (names : List String) : plainPath (names.map .normal) = some names := by
  induction names with
  | nil => rfl
  | cons name names ih =>
    rw [List.map_cons, plainPath, ih]
    rfl

theorem place_below (env : CheckoutEnv φ) (names : List String) : env.place (env.below names) = some names := by
  rw [CheckoutEnv.place, inside, CheckoutEnv.below, normalize_plain, stripPrefix_append, Option.bind_some, plainPath_map]

theorem below_snoc : env.below (names ++ [name]) = env.below names ++ [.normal name] := by
  rw [CheckoutEnv.below, CheckoutEnv.below, List.map_append, List.append_assoc]
  rfl

theorem fileName_below : fileName (env.below (names ++ [name])) = some name := by
  rw [below_snoc, fileName, List.getLast?_concat]

theorem parentPath_below : parentPath (env.below (names ++ [name])) = some (env.below names) := by
  rw [below_snoc, parentPath, List.getLast?_concat, List.dropLast_concat]

/-- The name of a temporary file. -/
def tempName (name uuid : String) : String := "." ++ name ++ ".valv-tmp-" ++ uuid

theorem withFileName_below {other : String} (h : Plain other) :
    withFileName (env.below (names ++ [name])) other = env.below (names ++ [other]) := by
  rw [withFileName, fileName_below, Option.isSome_some, if_pos rfl, below_snoc, List.dropLast_concat, join_plain h,
    below_snoc]

theorem tempPath_below (h : Plain (tempName name uuid)) :
    Checkout.tempPath (env.below (names ++ [name])) name uuid = env.below (names ++ [tempName name uuid]) :=
  withFileName_below h

/-- On the way to a path of names there are those above it, where the path of the mount is in normal form. -/
theorem leading_below (hroot : normalize env.root = env.root) {q : Path} (h : env.Leading (env.below names) q) :
    q <+: names := by
  obtain ⟨above, habove, hq⟩ := h
  rw [CheckoutEnv.below] at habove
  rcases List.prefix_or_prefix_of_prefix habove (List.prefix_append env.root _) with hpre | ⟨t, rfl⟩
  · -- a path above the mount is outside
    have hlen := length_normalize_le above
    rw [CheckoutEnv.place, inside, hroot] at hq
    obtain ⟨rest, hrest, hplain⟩ := Option.bind_eq_some_iff.mp hq
    have hsplit := stripPrefix_eq_some.mp hrest
    have hle := hpre.length_le
    have hnil : rest = [] := by
      rw [hsplit, List.length_append] at hlen
      exact List.length_eq_zero_iff.mp (by omega)
    rw [hnil, plainPath] at hplain
    cases hplain
    exact List.nil_prefix
  · obtain ⟨rest, hrest⟩ := (List.prefix_append_right_inj env.root).mp habove
    obtain ⟨before, after, rfl, rfl, -⟩ := List.map_eq_append_iff.mp hrest.symm
    have hplace := place_below env before
    rw [CheckoutEnv.below] at hplace
    rw [hplace] at hq
    cases hq
    exact List.prefix_append _ _

end Places

/-! ### Calls that succeed -/

namespace Checkout

section Specs

variable {env : CheckoutEnv φ} {s s' : Checkout φ} {path : PathBuf} {p q : Path} {bytes : Client.Bytes}

theorem unlinked_runBody {α : Type} {prog : CheckoutProc φ α} {r : Except CheckoutError α}
    (h : prog.Writes Unlinking) (hrun : prog.runBody s = (s', r)) (hlinks : Unlinked s.disk) : Unlinked s'.disk :=
  h.of_runBody hrun hlinks

theorem effect_of_unlinked {f : Path → Option (Disk φ)} {d : Disk φ} {n : ℕ} (hlinks : Unlinked d)
    (hp : env.place path = some p) (h : (env.effect n d path f).2 = true) : f p = some (env.effect n d path f).1 := by
  rw [CheckoutEnv.effect, hp] at h ⊢
  dsimp only at h ⊢
  rw [if_neg (by rw [linked_eq_false hlinks]; exact Bool.false_ne_true)] at h ⊢
  split at h
  · cases h
  · next hfails =>
    rw [if_neg hfails]
    split at h
    · next hd' => rw [hd']
    · cases h

theorem fsAt_true {f : Disk φ → Path → Option (Disk φ)} (hlinks : Unlinked s.disk) (hp : env.place path = some p)
    (hrun : (fsAt env path f).runBody s = (s', .ok true)) : f s.disk p = some s'.disk := by
  obtain ⟨rfl, hok⟩ := Prod.mk.inj hrun
  exact effect_of_unlinked hlinks hp (Except.ok.inj hok)

theorem fsFill_true {old : φ} (hlinks : Unlinked s.disk) (hp : env.place path = some p)
    (hfile : s.disk.lstat p = some (.file old)) (hrun : (fsFill env path bytes).runBody s = (s', .ok true)) :
    s.disk.create p (env.file s.calls bytes) = some s'.disk := by
  obtain ⟨rfl, hok⟩ := Prod.mk.inj hrun
  have hok := Except.ok.inj hok
  show _ = some (env.fillEffect s.calls s.disk path bytes).1
  rw [CheckoutEnv.fillEffect, hp] at hok ⊢
  dsimp only at hok ⊢
  rw [if_neg (by rw [linked_eq_false hlinks]; exact Bool.false_ne_true)] at hok ⊢
  have hfails : env.fails s.calls = false := by simpa using hok
  rw [hfails, if_neg Bool.false_ne_true]
  obtain ⟨d', hd'⟩ : ∃ d', s.disk.create p (env.file s.calls bytes) = some d' := create_of_file hfile
  rw [hd']
  rfl

theorem fsRename_true {old new : PathBuf} (hlinks : Unlinked s.disk) (hp : env.place old = some p)
    (hq : env.place new = some q) (hrun : (fsRename env old new).runBody s = (s', .ok true)) :
    s.disk.rename p q = some s'.disk := by
  obtain ⟨rfl, hok⟩ := Prod.mk.inj hrun
  have hok := Except.ok.inj hok
  show _ = some (env.renameEffect s.calls s.disk old new).1
  rw [CheckoutEnv.renameEffect, hp, hq] at hok ⊢
  dsimp only at hok ⊢
  rw [linkedAbove_eq_false hlinks, linkedAbove_eq_false hlinks, Bool.or_self, if_neg Bool.false_ne_true] at hok ⊢
  split at hok
  · cases hok
  · next hfails =>
    rw [if_neg hfails]
    split at hok
    · next hd' => rw [hd']
    · cases hok

theorem required_ok {call : CheckoutProc φ Bool} {u : Unit} (hrun : (required call).runBody s = (s', .ok u)) :
    call.runBody s = (s', .ok true) := by
  obtain ⟨s₁, b, hcall, hrest⟩ := Proc.runBody_bind_ok hrun
  cases b with
  | true =>
    cases hrest
    exact hcall
  | false => cases hrest

/-! ### Programs that succeed -/

theorem mkdirs_append {paths : List PathBuf} (hrun : (mkdirs env (paths ++ [path])).runBody s = (s', .ok true)) :
    ∃ s₁, (mkdirs env paths).runBody s = (s₁, .ok true) ∧ (fsAt env path Disk.mkdir).runBody s₁ = (s', .ok true) := by
  induction paths generalizing s with
  | nil =>
    obtain ⟨s₁, ok, hcall, hrest⟩ := Proc.runBody_bind_ok hrun
    cases ok with
    | true =>
      cases hrest
      exact ⟨s, rfl, hcall⟩
    | false => cases hrest
  | cons other paths ih =>
    obtain ⟨s₁, ok, hcall, hrest⟩ := Proc.runBody_bind_ok hrun
    cases ok with
    | true =>
      obtain ⟨s₂, hpaths, hlast⟩ := ih hrest
      exact ⟨s₂, (Proc.runBody_bind_of_ok hcall _).trans hpaths, hlast⟩
    | false => cases hrest

theorem steps_snoc (env : CheckoutEnv φ) (path : PathBuf) : ∃ before, steps env path = before ++ [path] := by
  have hinits : ∃ before, path.inits = before ++ [path] := by
    rw [List.inits_eq_tails, ← List.map_reverse]
    cases hrev : path.reverse with
    | nil =>
      rw [List.reverse_eq_nil_iff.mp hrev]
      exact ⟨[], rfl⟩
    | cons c rest =>
      rw [List.tails_cons, List.reverse_cons, List.map_append, ← hrev]
      exact ⟨_, by rw [List.map_singleton, List.reverse_reverse]⟩
  obtain ⟨before, hbefore⟩ := hinits
  refine ⟨before.filter fun above => (env.place above).isSome || above = path, ?_⟩
  rw [steps, hbefore, List.filter_append, List.filter_singleton]
  simp

/-- **A directory** stands where `create_dir_all` has made one. -/
theorem createDirAll_true (hlinks : Unlinked s.disk) (hp : env.place path = some p)
    (hrun : (createDirAll env path).runBody s = (s', .ok true)) : s'.disk.lstat p = some .dir := by
  obtain ⟨before, hbefore⟩ := steps_snoc env path
  rw [createDirAll, hbefore] at hrun
  obtain ⟨s₁, hfirst, hlast⟩ := mkdirs_append hrun
  have hlinks₁ := unlinked_runBody ((unlinking_calls env).mkdirs before) hfirst hlinks
  have hmkdir := fsAt_true hlinks₁ hp hlast
  exact (lstat_mkdir hmkdir).1.trans (if_pos rfl)

/-- **A file** stands where one was written, and nothing else has changed. -/
theorem writeFile_true (hlinks : Unlinked s.disk) (hp : env.place path = some p)
    (hrun : (writeFile env path bytes).runBody s = (s', .ok true)) :
    ∃ n, ∀ r, s'.disk.lstat r = if r = p then some (.file (env.file n bytes)) else s.disk.lstat r := by
  obtain ⟨s₁, n, hread, hrest⟩ := Proc.runBody_bind_ok hrun
  cases hread
  obtain ⟨s₁, created, hcreate, hfill⟩ := Proc.runBody_bind_ok hrest
  cases created with
  | false => cases hfill
  | true =>
    have hd := fsAt_true hlinks hp hcreate
    have hlinks₁ : Unlinked s₁.disk := unlinked_keptByCalls.create _ _ _ _ hd hlinks
    have hfile := (lstat_create (r := p) hd).1.trans (if_pos rfl)
    have hd' := fsFill_true hlinks₁ hp hfile hfill
    refine ⟨s₁.calls, fun r => ?_⟩
    rw [(lstat_create hd').1, (lstat_create hd).1]
    split <;> rfl

/-- **A file** stands at the path, nothing stands below the temporary one, and nothing else has appeared. -/
theorem writeAndRename_true {temp : PathBuf} (hlinks : Unlinked s.disk) (hq : env.place temp = some q)
    (hp : env.place path = some p) (hrun : (writeAndRename env temp path bytes).runBody s = (s', .ok true)) :
    (∃ n, s'.disk.lstat p = some (.file (env.file n bytes))) ∧
      ∀ r, s'.disk.lstat r ≠ none → s.disk.lstat r ≠ none ∨ r = p := by
  obtain ⟨s₁, written, hwrite, hrest⟩ := Proc.runBody_bind_ok hrun
  cases written with
  | false => cases hrest
  | true =>
    obtain ⟨s₂, synced, hsync, hrename⟩ := Proc.runBody_bind_ok hrest
    cases synced with
    | false => cases hrename
    | true =>
      have hlinks₁ := unlinked_runBody (unlinking_calls env).writeFile hwrite hlinks
      obtain ⟨n, hfile⟩ := writeFile_true hlinks hq hwrite
      have hsame : s₂.disk = s₁.disk := (Option.some.inj (fsAt_true hlinks₁ hq hsync)).symm
      rw [← hsame] at hlinks₁ hfile
      have hd := fsRename_true hlinks₁ hq hp hrename
      have htemp : s₂.disk.lstat q = some (.file (env.file n bytes)) := (hfile q).trans (if_pos rfl)
      refine ⟨⟨n, ?_⟩, fun r hr => ?_⟩
      · rw [lstat_rename hd, if_pos List.prefix_rfl, List.drop_length, List.append_nil]
        exact htemp
      · rw [lstat_rename hd] at hr
        split at hr
        · next hpr =>
          obtain ⟨u, rfl⟩ := hpr
          rw [List.drop_left] at hr
          -- below the temporary file there is nothing
          refine .inr ?_
          by_contra hne
          refine hr (lstat_below (p := q) ?_ (List.prefix_append q u) fun he => hne ?_)
          · rw [htemp]
            exact fun he => by cases he
          · rw [List.append_right_eq_self.mp he, List.append_nil]
        · split at hr
          · exact absurd rfl hr
          · next hqr =>
            have hne : r ≠ q := fun he => hqr (by rw [he])
            rw [hfile, if_neg hne] at hr
            exact .inl hr

/-- **A file is rewritten** when `write_atomic` succeeds, and nothing else appears but directories on the way. -/
theorem writeAtomic_ok {names : List String} {name : String} (hroot : normalize env.root = env.root)
    (hlinks : Unlinked s.disk) (htemp : ∀ n, Plain (tempName name (env.newUuid n)))
    (hrun : (writeAtomic env (env.below (names ++ [name])) bytes).runBody s = (s', .ok ())) :
    (∃ n, s'.disk.lstat (names ++ [name]) = some (.file (env.file n bytes))) ∧
      ∀ r, s'.disk.lstat r ≠ none → s.disk.lstat r ≠ none ∨ r <+: names ++ [name] := by
  obtain ⟨s₁, u, hparent, hrest⟩ := Proc.runBody_bind_ok hrun
  have hlinks₁ := unlinked_runBody (unlinking_calls env).createParent hparent hlinks
  have hways : Within (fun _ => False) (env.Leading (env.below (names ++ [name]))) s s₁ :=
    writes_createParent.of_runBody hparent
  rw [fileName_below] at hrest
  obtain ⟨s₁, uuid, hread, hrest⟩ := Proc.runBody_bind_ok hrest
  cases hread
  obtain ⟨s₂, moved, hmove, hrest⟩ := Proc.runBody_bind_ok hrest
  cases moved with
  | true =>
    cases hrest
    have hplace := place_below env (names ++ [tempName name (env.newUuid s₁.calls)])
    rw [← tempPath_below (htemp s₁.calls)] at hplace
    obtain ⟨hfile, hnew⟩ := writeAndRename_true hlinks₁ hplace (place_below env _) hmove
    refine ⟨hfile, fun r hr => ?_⟩
    rcases hnew r hr with hr | rfl
    · rcases hways.disk r not_false with hsame | ⟨hlead, -, -⟩
      · exact .inl (hsame ▸ hr)
      · exact .inr (leading_below hroot hlead)
    · exact .inr List.prefix_rfl
  | false =>
    obtain ⟨s₃, b, -, hrest⟩ := Proc.runBody_bind_ok hrest
    cases hrest

/-! ### Versions -/

/-- What `download_verified_version` returns from some answer. -/
def Downloaded (env : CheckoutEnv φ) (nodeId versionId : String) (version : Client.RemoteVersion) (bytes : Client.Bytes) :
    Prop :=
  ∃ n, Client.downloadVerifiedVersion (env.backend n).remote env.sha256 (env.backend n).get
    ((env.backend n).versions nodeId) nodeId versionId = .ok (version, bytes)

/-- The bytes were downloaded as this version, and have the hashes of its manifest in its order. -/
structure ContentOf (env : CheckoutEnv φ) (nodeId versionId : String) (version : Client.RemoteVersion)
    (bytes : Client.Bytes) : Prop where
  downloaded : Downloaded env nodeId versionId version bytes
  id : version.versionId = versionId
  hash : Client.manifestContentHash env.sha256 version.manifest = version.contentHash
  size : bytes.length = version.sizeBytes
  pieces : ∃ pieces : List Client.Bytes, bytes = pieces.flatten ∧
    List.Forall₂ (fun chunk piece => env.sha256 piece = chunk.chunkHash) (Client.byOffset version.manifest) pieces

/-- The version that is downloaded is the one that was asked for. -/
theorem versionId_of_download {remote : Client.Remote} {sha256 : Client.Bytes → String}
    {get : String → Option Client.Bytes} {versions : List Client.RemoteVersion} {nodeId versionId : String}
    {r : Client.RemoteVersion × Client.Bytes}
    (h : Client.downloadVerifiedVersion remote sha256 get versions nodeId versionId = .ok r) :
    r.1.versionId = versionId := by
  rw [Client.downloadVerifiedVersion, Client.fetchRemoteVersion] at h
  cases hversion : versions.find? fun v => v.versionId = versionId with
  | none =>
    rw [hversion] at h
    cases h
  | some version =>
    rw [hversion] at h
    simp only [Option.elim, bind, Except.bind] at h
    split at h
    · cases h
    · split at h
      · cases h
      · split at h
        · cases h
        · cases h
          simpa using List.find?_some hversion

/-- **What is downloaded** is the content of the version, whatever the backend and the bucket answer. -/
theorem downloadVerifiedVersion_ok {nodeId versionId : String} {r : Client.RemoteVersion × Client.Bytes}
    (hrun : (downloadVerifiedVersion env nodeId versionId).runBody s = (s', .ok r)) :
    ContentOf env nodeId versionId r.1 r.2 ∧ s'.disk = s.disk ∧ s'.mirror = s.mirror := by
  rw [downloadVerifiedVersion, Proc.runBody] at hrun
  dsimp only at hrun
  split at hrun
  · next r' hanswer =>
    cases hrun
    obtain ⟨hbytes, hhash, hsize⟩ := Client.downloadVerifiedVersion_ok hanswer
    rw [Client.downloadChunks] at hbytes
    split at hbytes
    · cases hbytes
    · obtain ⟨pieces, hflatten, hpieces⟩ := Client.fetchChunks_ok hbytes
      refine ⟨⟨⟨s.calls, hanswer⟩, versionId_of_download hanswer, hhash, hsize, pieces, hflatten, ?_⟩, rfl, rfl⟩
      exact hpieces.imp fun _ _ h => h.1
  · cases hrun

/-- The row of a version, marked or not. -/
def versionRow (env : CheckoutEnv φ) (nodeId : String) (version : Client.RemoteVersion) (contentMaterialized : Bool) :
    Client.LocalVersion where
  versionId := version.versionId
  nodeId := nodeId
  folderId := env.mount.folderId
  contentHash := version.contentHash
  sizeBytes := version.sizeBytes
  manifest := version.manifest
  contentMaterialized := contentMaterialized

/-- The mirror after the row of a version was written. -/
def recorded (env : CheckoutEnv φ) (nodeId : String) (version : Client.RemoteVersion) (m : Client.Mirror) :
    Client.Mirror :=
  (version.manifest.map ChunkRef.chunkHash).foldl Client.Mirror.markUploaded
    (m.upsertVersion (versionRow env nodeId version false))

/-- The mirror after a version was written. -/
def persisted (env : CheckoutEnv φ) (nodeId : String) (version : Client.RemoteVersion) (m : Client.Mirror) :
    Client.Mirror := (recorded env nodeId version m).markContentMaterialized version.versionId

/-- **A version is written.** -/
theorem materializeVersion_ok {names : List String} {name nodeId versionId : String}
    (hroot : normalize env.root = env.root) (hlinks : Unlinked s.disk)
    (htemp : ∀ n, Plain (tempName name (env.newUuid n)))
    (hrun : (materializeVersion env nodeId versionId (env.below (names ++ [name]))).runBody s = (s', .ok ())) :
    ∃ version bytes, ContentOf env nodeId versionId version bytes ∧
      (∃ n, s'.disk.lstat (names ++ [name]) = some (.file (env.file n bytes))) ∧
      (∀ r, s'.disk.lstat r ≠ none → s.disk.lstat r ≠ none ∨ r <+: names ++ [name]) ∧
      s'.mirror = persisted env nodeId version s.mirror := by
  obtain ⟨s₁, r, hdownload, hrest⟩ := Proc.runBody_bind_ok hrun
  obtain ⟨hcontent, hdisk, hmirror⟩ := downloadVerifiedVersion_ok hdownload
  obtain ⟨s₂, u, hwrite, hrest⟩ := Proc.runBody_bind_ok hrest
  rw [← hdisk] at hlinks ⊢
  obtain ⟨hfile, hnew⟩ := writeAtomic_ok hroot hlinks htemp hwrite
  have hmirror₂ : SameMirror s₁ s₂ := (sameMirror_calls env).writeAtomic.of_runBody hwrite
  cases hrest
  refine ⟨r.1, r.2, hcontent, hfile, hnew, ?_⟩
  show persisted env nodeId r.1 s₂.mirror = _
  rw [show s₂.mirror = s₁.mirror from hmirror₂, hmirror]

end Specs

end Checkout

/-! ### Marks -/

section Marks

variable {m : Client.Mirror} {versionId : String}

theorem marked_iff : m.hasMaterializedContentForVersion versionId = true ↔
    ∃ r ∈ m.versions, r.versionId = versionId ∧ r.contentMaterialized = true := by
  rw [Client.Mirror.hasMaterializedContentForVersion, List.any_eq_true]
  simp only [Bool.and_eq_true, decide_eq_true_eq]

/-- What `mark_content_materialized` makes of a row. -/
def markRow (r : Client.LocalVersion) : Client.LocalVersion := { r with contentMaterialized := true }

theorem versions_foldl_markUploaded (m : Client.Mirror) (hashes : List String) :
    (hashes.foldl Client.Mirror.markUploaded m).versions = m.versions := by
  induction hashes generalizing m with
  | nil => rfl
  | cons hash hashes ih => exact ih _

/-- The versions after one was written. -/
theorem versions_persisted {env : CheckoutEnv φ} {nodeId : String} {version : Client.RemoteVersion} :
    (Checkout.persisted env nodeId version m).versions =
      update Client.LocalVersion.versionId version.versionId markRow
        (upsert Client.LocalVersion.versionId (Checkout.versionRow env nodeId version false)
          (fun old => Checkout.versionRow env nodeId version old.contentMaterialized) m.versions) := by
  show update _ _ _ ((version.manifest.map ChunkRef.chunkHash).foldl Client.Mirror.markUploaded _).versions = _
  rw [versions_foldl_markUploaded]
  rfl

/-- **What is written has its row.** -/
theorem getVersion_persisted {env : CheckoutEnv φ} {nodeId : String} {version : Client.RemoteVersion} :
    (Checkout.persisted env nodeId version m).getVersion versionId =
      if versionId = version.versionId then some (Checkout.versionRow env nodeId version true)
      else m.getVersion versionId := by
  rw [Client.Mirror.getVersion, versions_persisted]
  have hkeep : ∀ r : Client.LocalVersion, r.versionId = version.versionId →
      (Checkout.versionRow env nodeId version r.contentMaterialized).versionId = version.versionId := fun _ _ => rfl
  have hmark : ∀ r : Client.LocalVersion, r.versionId = version.versionId →
      (markRow r).versionId = version.versionId := fun _ h => h
  split
  · next hid =>
    rw [hid, lookup_update_self hmark]
    have hrow := lookup_upsert_self (r := Checkout.versionRow env nodeId version false) (t := m.versions) hkeep
    rw [show lookup _ version.versionId _ = _ from hrow]
    cases lookup Client.LocalVersion.versionId _ m.versions <;> rfl
  · next hid => exact (lookup_update_ne hid hmark).trans (lookup_upsert_ne hid hkeep)

/-- **What is written is marked**, and no other version. -/
theorem marked_persisted {env : CheckoutEnv φ} {nodeId : String} {version : Client.RemoteVersion} :
    (Checkout.persisted env nodeId version m).hasMaterializedContentForVersion versionId = true ↔
      m.hasMaterializedContentForVersion versionId = true ∨ versionId = version.versionId := by
  rw [marked_iff, marked_iff, versions_persisted]
  constructor
  · rintro ⟨r, hr, rfl, hmark⟩
    obtain ⟨r', hr', rfl⟩ := mem_update.mp hr
    split
    · next hid => exact .inr hid
    · next hid =>
      rw [if_neg hid] at hmark
      rcases mem_upsert hr' with hold | rfl | ⟨old, hold, rfl⟩
      · exact .inl ⟨r', hold, rfl, hmark⟩
      · cases hmark
      · exact absurd rfl hid
  · intro h
    by_cases hid : versionId = version.versionId
    · -- the row of the version
      have hrow : (Checkout.persisted env nodeId version m).getVersion versionId = _ := getVersion_persisted
      rw [if_pos hid, Client.Mirror.getVersion, versions_persisted] at hrow
      exact ⟨_, mem_of_lookup hrow, lookup_key hrow, rfl⟩
    · obtain ⟨r, hr, hrid, hmark⟩ := h.resolve_right hid
      have hne : r.versionId ≠ version.versionId := fun he => hid (hrid.symm.trans he)
      refine ⟨r, mem_update.mpr ⟨r, ?_, (if_neg hne).symm⟩, hrid, hmark⟩
      rw [upsert]
      split
      · exact mem_update.mpr ⟨r, hr, (if_neg hne).symm⟩
      · exact List.mem_append_left _ hr

/-- The row of a version that is written is not marked yet. -/
theorem marked_of_recorded {env : CheckoutEnv φ} {nodeId : String} {version : Client.RemoteVersion} {v : String}
    (h : (Checkout.recorded env nodeId version m).hasMaterializedContentForVersion v = true) :
    m.hasMaterializedContentForVersion v = true := by
  rw [marked_iff, Checkout.recorded, versions_foldl_markUploaded] at h
  rw [marked_iff]
  obtain ⟨r, hr, rfl, hmark⟩ := h
  rw [Client.Mirror.upsertVersion, upsert] at hr
  split at hr
  · obtain ⟨old, hold, rfl⟩ := mem_update.mp hr
    split at hmark
    · next hid =>
      rw [if_pos hid]
      exact ⟨old, hold, hid, hmark⟩
    · next hid =>
      rw [if_neg hid]
      exact ⟨old, hold, rfl, hmark⟩
  · rcases List.mem_append.mp hr with hold | hnew
    · exact ⟨r, hold, rfl, hmark⟩
    · rw [List.mem_singleton.mp hnew] at hmark
      cases hmark

end Marks

end Valv.Daemon
