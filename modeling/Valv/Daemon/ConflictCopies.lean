import Valv.Client.CopyNames
import Valv.Daemon.MountFiles

/-!
# Conflict copies

When two devices have changed one file, the one that lost stays as a conflict copy: the other devices write it next to
the file.  The daemon looks for a name that is free first, and the push passes over files with such names.

* `candidates_recognized`: the names of conflict copies are those that the push passes over.
* `Spared`: what stands outside of some places stays.
* `Free`: a path with nothing to overwrite.
* `applyConflictCopy_ensures`, `applyEach_ensures`: each moment of a conflict copy, and of a batch.
* `pulled_batch_spares_what_stands`: what no op rewrites or moves.
* `conflict_copy_is_added`: a conflict copy that is written.
-/

namespace Valv.Daemon

open Valv.Conc Valv.Table Valv.Server Valv.Files Valv.Paths

variable {φ : Type}

/-! ### What stands stays -/

/-- Whatever stands outside of `T` stays as it is. Where nothing stood before there may be something new. -/
def Spared (T : Path → Prop) (s t : Checkout φ) : Prop :=
  ∀ q, s.disk.lstat q ≠ none → ¬ T q → t.disk.lstat q = s.disk.lstat q

/-- Nothing can be overwritten at this path: nothing stands there, or a symbolic link stands on the way and what is
written goes elsewhere. -/
def Free (env : CheckoutEnv φ) (d : Disk φ) (path : PathBuf) : Prop :=
  ∀ p, env.place path = some p → linked d p = true ∨ d.lstat p = none

section Spared

variable {env : CheckoutEnv φ} {T D : Path → Prop} {s s' t u : Checkout φ} {path : PathBuf}

theorem Spared.refl (T : Path → Prop) (s : Checkout φ) : Spared T s s := fun _ _ _ => rfl

theorem Spared.trans (h : Spared T s t) (h' : Spared T t u) : Spared T s u := fun q hq hT => by
  have hsame := h q hq hT
  exact (h' q (hsame ▸ hq) hT).trans hsame

theorem Spared.mono {T' : Path → Prop} (h : Spared T s t) (hT : ∀ q, T q → T' q) : Spared T' s t := fun q hq hq' =>
  h q hq fun hTq => hq' (hT q hTq)

theorem Within.spared (h : Within T D s t) : Spared T s t := fun q hq hT =>
  (h.disk q hT).resolve_right fun hd => hq hd.2.1

/-- Where a link stands on the way, it stays. -/
theorem linked_of_within (h : Within (fun _ => False) D s t) {p : Path} (hlinked : linked s.disk p = true) :
    linked t.disk p = true := by
  rw [linked, List.any_eq_true] at hlinked ⊢
  obtain ⟨r, hr, hsymlink⟩ := hlinked
  refine ⟨r, hr, ?_⟩
  have hstands : s.disk.lstat r ≠ none := fun hnone => by
    rw [hnone] at hsymlink
    cases hsymlink
  rw [h.spared r hstands not_false]
  exact hsymlink

/-- What is not found does not stand there, or is behind a link. -/
theorem free_of_absent {d : Disk φ} {p : Path} (h : d.present p = false) : linked d p = true ∨ d.lstat p = none := by
  cases hp : d.lstat p with
  | none => exact .inr rfl
  | some e =>
    refine .inl ?_
    cases hlink : e.isSymlink with
    | true =>
      rw [linked, List.any_eq_true]
      refine ⟨p, (List.mem_inits p p).mpr List.prefix_rfl, ?_⟩
      rw [hp]
      exact hlink
    | false =>
      rw [present_of_lstat hp hlink] at h
      cases h

end Spared

/-! ### A conflict copy -/

section ConflictCopy

variable {env : CheckoutEnv φ} {s s' t : Checkout φ} {path desired : PathBuf} {bytes : Client.Bytes}
  {nodesById : List Client.LocalNode} {pulled : Client.PulledNode}

open Checkout

/-- What `exists` denies is free, where it does not fail to look. -/
theorem pathExists_false (hhidden : ∀ n, env.hidden n = false)
    (hrun : (pathExists env path).runBody s = (s', .ok false)) : Free env s.disk path := by
  obtain ⟨-, hfound⟩ := Prod.mk.inj hrun
  intro p hp
  have hfinds : env.finds s.calls s.disk path = false := Except.ok.inj hfound
  rw [CheckoutEnv.finds, hp] at hfinds
  dsimp only at hfinds
  rw [hhidden, Bool.not_false, Bool.true_and] at hfinds
  exact free_of_absent hfinds

theorem idle_disambiguateFrom {stem : String} {extension : Option String} {left : ℕ} :
    (disambiguateFrom env desired stem extension left).Writes Idle := by
  induction left with
  | zero => exact True.intro
  | succ left ih =>
    refine idle_pathExists.bind fun found => ?_
    cases found with
    | true => exact ih
    | false => exact True.intro

theorem idle_conflictCopyPath {deviceName date : String} : (conflictCopyPath env path deviceName date).Writes Idle := by
  rw [conflictCopyPath]
  split
  · exact True.intro
  · refine idle_pathExists.bind fun found => ?_
    cases found with
    | false => exact True.intro
    | true =>
      rw [if_pos rfl]
      split
      · exact True.intro
      · exact idle_disambiguateFrom

theorem disambiguateFrom_free {stem : String} {extension : Option String} {left : ℕ}
    (hhidden : ∀ n, env.hidden n = false)
    (hrun : (disambiguateFrom env desired stem extension left).runBody s = (s', .ok path)) : Free env s.disk path := by
  induction left generalizing s with
  | zero => cases hrun
  | succ left ih =>
    obtain ⟨s₁, found, hexists, hrest⟩ := Proc.runBody_bind_ok hrun
    cases found with
    | true =>
      have hidle : Idle s s₁ := idle_pathExists.of_runBody hexists
      rw [← hidle.1]
      exact ih hrest
    | false =>
      cases hrest
      exact pathExists_false hhidden hexists

/-- **The path of a conflict copy** is free. -/
theorem conflictCopyPath_free {original : PathBuf} {deviceName date : String} (hhidden : ∀ n, env.hidden n = false)
    (hrun : (conflictCopyPath env original deviceName date).runBody s = (s', .ok path)) : Free env s.disk path := by
  rw [conflictCopyPath] at hrun
  split at hrun
  · cases hrun
  · obtain ⟨s₁, found, hexists, hrest⟩ := Proc.runBody_bind_ok hrun
    cases found with
    | false =>
      cases hrest
      exact pathExists_false hhidden hexists
    | true =>
      have hidle : Idle s s₁ := idle_pathExists.of_runBody hexists
      rw [if_pos rfl] at hrest
      split at hrest
      · cases hrest
      · rw [← hidle.1]
        exact disambiguateFrom_free hhidden hrest

/-- A file that is written at a free path. -/
theorem writeFile_spared (hfree : Free env s.disk path) (hmade : Spared (fun _ => False) s t)
    (hlinked : ∀ p, linked s.disk p = true → linked t.disk p = true) :
    (writeFile env path bytes).Ensures (Spared (fun _ => False) s) (fun _ _ => True) (fun _ _ => True) t := by
  by_cases hbehind : ∃ p, env.place path = some p ∧ linked s.disk p = true
  · -- what is written goes elsewhere
    obtain ⟨p, hp, hlink⟩ := hbehind
    have hstay : ∀ u : Checkout φ, u.disk = t.disk → ∀ data,
        (env.effect u.calls u.disk path fun p => u.disk.create p data).1 = t.disk := fun u hu data => by
      rw [CheckoutEnv.effect, hp, hu]
      dsimp only
      rw [if_pos (hlinked p hlink)]
    have hfill : ∀ u : Checkout φ, u.disk = t.disk → (env.fillEffect u.calls u.disk path bytes).1 = t.disk :=
      fun u hu => by
        rw [CheckoutEnv.fillEffect, hp, hu]
        dsimp only
        rw [if_pos (hlinked p hlink)]
    have hsame : ∀ u : Checkout φ, u.disk = t.disk → Spared (fun _ => False) s u := fun u hu q hq hT => by
      rw [hu]
      exact hmade q hq hT
    refine .bind (.read (hsame t rfl) (.bind (.act (hsame t rfl) (hsame _ (hstay t rfl _)) ?_)))
    split
    · exact .act (hsame _ (hstay t rfl _)) (hsame _ (hfill _ (hstay t rfl _))) True.intro
    · exact .pure (hsame _ (hstay t rfl _)) True.intro
  · have hnone : ∀ q, env.At path q → s.disk.lstat q = none := fun q hq =>
      (hfree q hq).resolve_left fun hlink => hbehind ⟨q, hq, hlink⟩
    have hwrite : (writeFile env path bytes).Ensures (Within (env.At path) (fun _ => False) t) _ _ t :=
      .of_writes writes_writeFile t
    refine hwrite.mono (fun u hu => ?_) (fun _ _ _ _ => True.intro) fun _ _ _ _ => True.intro
    exact fun q hq _ => (hmade.mono fun _ => False.elim).trans hu.spared q hq fun hat => hq (hnone q hat)

/-- **Each moment of a conflict copy**: nothing that stands is changed. -/
theorem applyConflictCopy_ensures (hhidden : ∀ n, env.hidden n = false) :
    (applyConflictCopy env nodesById pulled).Ensures (Spared (fun _ => False) s) (fun _ _ => True)
      (fun _ _ => True) s := by
  have hstart := Spared.refl (fun _ => False) s
  have hidle : ∀ u v : Checkout φ, Spared (fun _ => False) s u → Idle u v → Spared (fun _ => False) s v :=
    fun u v hu huv q hq hT => by
      rw [huv.1]
      exact hu q hq hT
  rw [applyConflictCopy]
  split
  · exact .pure hstart True.intro
  split
  · next versionId canonicalPath _ _ =>
    have hpath : (conflictCopyPath env canonicalPath pulled.actorDeviceId (env.dateOf pulled.appliedAt)).Ensures
        (fun _ => True) (fun path _ => Free env s.disk path) (fun _ _ => True) s :=
      .of_run fun path t hrun => conflictCopyPath_free hhidden hrun
    refine .bind (((Proc.Ensures.of_writes idle_conflictCopyPath s).and hpath).mono
      (fun t ht => hidle s t hstart ht.1) (fun conflictPath t _ ht => ?_) fun _ _ _ _ => True.intro)
    obtain ⟨hidle₁, hfree⟩ := ht
    have hparents : (createParent env conflictPath).Ensures
        (Within (fun _ => False) (env.Leading conflictPath) t) _ _ t := .of_writes writes_createParent t
    refine .bind (hparents.mono (fun u hu => (hidle s t hstart hidle₁).trans hu.spared) (fun _ u _ hu => ?_)
      fun _ _ _ _ => True.intro)
    have hmade : Spared (fun _ => False) s u := (hidle s t hstart hidle₁).trans hu.spared
    have hlinked : ∀ p, linked s.disk p = true → linked u.disk p = true := fun p hp =>
      linked_of_within hu (by rw [hidle₁.1]; exact hp)
    have hstored : (downloadAndStoreVersion env pulled.nodeId versionId).Ensures
        (Within (fun _ => False) (fun _ => False) u) _ _ u := .of_writes writes_downloadAndStoreVersion u
    refine .bind (hstored.mono (fun v hv => hmade.trans hv.spared) (fun bytes v _ hv => ?_) fun _ _ _ _ => True.intro)
    refine .bind ((writeFile_spared hfree (hmade.trans hv.spared) fun p hp => linked_of_within hv (hlinked p hp)).mono
      (fun _ hi => hi) (fun written w hw _ => ?_) fun _ _ _ he => he)
    cases written with
    | true => exact .pure hw True.intro
    | false => exact .fail hw True.intro
  · exact .pure hstart True.intro

end ConflictCopy

/-! ### A batch -/

/-- The places that an op rewrites or moves something away from; those of conflict copies are not among them. -/
def Checkout.Changed (env : CheckoutEnv φ) (nodesById : List Client.LocalNode) (pulled : Client.PulledNode) (q : Path) :
    Prop :=
  (∃ path ∈ rewrites env nodesById pulled, env.Rewritten path q) ∨
    ∃ path ∈ movesAway env nodesById pulled, env.Below path q

section Batch

variable {env : CheckoutEnv φ} {s s₀ : Checkout φ} {nodesById : List Client.LocalNode} {pulled : Client.PulledNode}

open Checkout

/-- **Each moment of an op.** -/
theorem applyPulledFsChange_ensures {scope : MaterializeScope} (hhidden : ∀ n, env.hidden n = false) :
    (applyPulledFsChange env nodesById scope pulled).Ensures (Spared (Changed env nodesById pulled) s) (fun _ _ => True)
      (fun _ _ => True) s := by
  by_cases hcopy : pulled.opType = "new_version" ∧ pulled.isConflictCopy = true
  · have hprogram : applyPulledFsChange env nodesById scope pulled = applyConflictCopy env nodesById pulled := by
      rw [applyPulledFsChange, if_neg (by rw [hcopy.1]; decide), if_neg (by rw [hcopy.1]; decide), if_pos hcopy.1,
        if_pos hcopy.2]
    rw [hprogram]
    exact (applyConflictCopy_ensures hhidden).mono (fun _ h => h.mono fun _ => False.elim) (fun _ _ _ h => h)
      fun _ _ _ h => h
  · have hcopies : copies env nodesById pulled = [] := if_neg fun h => hcopy ⟨h.1, h.2.1⟩
    have hwithin : (applyPulledFsChange env nodesById scope pulled).Ensures
        (Within (Touched env nodesById pulled) (Entered env nodesById pulled) s) _ _ s :=
      .of_writes writes_applyPulledFsChange s
    refine hwithin.mono (fun _ h => h.spared.mono fun q hq => ?_) (fun _ _ _ _ => True.intro) fun _ _ _ _ => True.intro
    rcases hq with hq | hq | ⟨path, hpath, -⟩
    · exact .inl hq
    · exact .inr hq
    · rw [hcopies] at hpath
      cases hpath

/-- **Each moment of a batch.** -/
theorem applyEach_ensures {scope : MaterializeScope} {T : Path → Prop} (hhidden : ∀ n, env.hidden n = false)
    {batch : List Client.PulledNode} (hT : ∀ pulled ∈ batch, ∀ q, Changed env nodesById pulled q → T q)
    (h : Spared T s₀ s) :
    (applyEach env nodesById scope batch).Ensures (Spared T s₀) (fun _ _ => True) (fun _ _ => True) s := by
  induction batch generalizing s with
  | nil => exact .pure h True.intro
  | cons pulled rest ih =>
    have hkept : ∀ t, Spared (Changed env nodesById pulled) s t → Spared T s₀ t := fun t ht =>
      h.trans (ht.mono (hT pulled List.mem_cons_self))
    have hone : (applyPulledFsChange env nodesById scope pulled).Ensures (Spared T s₀) (fun _ => Spared T s₀)
        (fun _ => Spared T s₀) s :=
      (applyPulledFsChange_ensures hhidden).mono hkept (fun _ t ht _ => hkept t ht) fun _ t ht _ => hkept t ht
    refine .bind (.attempt (hone.mono (fun _ ht => ht) (fun _ t _ ht => ?_) fun _ t _ ht => ?_))
    · exact ih (fun other hother => hT other (List.mem_cons_of_mem _ hother)) ht
    · exact .pure ht (ih (fun other hother => hT other (List.mem_cons_of_mem _ hother)) ht)

end Batch

open Checkout in
/-- **A batch spares what stands.**  Wherever it is stopped: what stood at a place that no op of the batch rewrites or
moves is as it was, also where conflict copies are put.  The paths are those over the nodes at the start; that something
exists must not be hidden from the daemon.  No symbolic link is on the disk when the batch begins, and so none later: a
link that leads back into the mount could bring a write to a place that no op names. -/
theorem pulled_batch_spares_what_stands (env : CheckoutEnv φ) (hhidden : ∀ n, env.hidden n = false)
    (scope : MaterializeScope) (batch : List Client.PulledNode) (s : Checkout φ) (n : ℕ) (q : Path)
    (_ : Unlinked s.disk) (hstands : s.disk.lstat q ≠ none)
    (hkept : ∀ pulled ∈ batch, ¬ Changed env (folderNodes s.mirror env.mount) pulled q) :
    ((applyPulledFsChanges env scope batch).stateAfter n s).disk.lstat q = s.disk.lstat q := by
  have hall : (applyPulledFsChanges env scope batch).Ensures
      (Spared (fun q => ∃ pulled ∈ batch, Changed env (folderNodes s.mirror env.mount) pulled q) s)
      (fun _ _ => True) (fun _ _ => True) s := by
    have hstart := Spared.refl (fun q => ∃ pulled ∈ batch, Changed env (folderNodes s.mirror env.mount) pulled q) s
    rw [applyPulledFsChanges]
    split
    · exact .pure hstart True.intro
    · exact .bind (.read hstart (applyEach_ensures hhidden (fun pulled hmem q hq => ⟨pulled, hmem, hq⟩) hstart))
  exact hall.always n q hstands fun hchanged => by
    obtain ⟨pulled, hmem, hq⟩ := hchanged
    exact hkept pulled hmem hq

/-- Another device has lost with its version of `sub/a.txt`. -/
def docsCopy : Client.PulledNode where
  nodeId := "inner"
  opType := "new_version"
  isConflictCopy := true
  actorDeviceId := "laptop"
  appliedAt := 3
  oldName := none
  oldParentId := none
  oldVersionId := none
  newName := "a.txt"
  newParentId := some "sub"
  newVersionId := some "v1"
  nodeType := .file

/-- `sub/a.txt` is there. -/
def docsWritten : Checkout Client.Bytes :=
  { docsCheckout with disk := { entries := [([], .dir), (["sub"], .dir), (["sub", "a.txt"], .file [104])] } }

theorem docsWritten_unlinked : Unlinked docsWritten.disk := by
  intro q behind h
  have hentry := mem_of_lstat h
  simp [docsWritten] at hentry

theorem docs_batch_spares_file : ((Checkout.applyPulledFsChanges docsEnv .background [docsCopy, docsCopy]).stateAfter 20
    docsWritten).disk.lstat ["sub", "a.txt"] = docsWritten.disk.lstat ["sub", "a.txt"] := by
  refine pulled_batch_spares_what_stands docsEnv (fun _ => rfl) .background [docsCopy, docsCopy] docsWritten 20
    ["sub", "a.txt"] docsWritten_unlinked (Option.some_ne_none _) fun pulled hmem hchanged => ?_
  obtain rfl : pulled = docsCopy := by simpa using hmem
  have hrewrites : Checkout.rewrites docsEnv (folderNodes docsWritten.mirror docsEnv.mount) docsCopy = [] := by
    decide +kernel
  have hmoves : Checkout.movesAway docsEnv (folderNodes docsWritten.mirror docsEnv.mount) docsCopy = [] := by
    decide +kernel
  rw [Checkout.Changed, hrewrites, hmoves] at hchanged
  rcases hchanged with ⟨path, hpath, -⟩ | ⟨path, hpath, -⟩ <;> cases hpath

/-! ### A conflict copy that is written -/

section Added

variable {env : CheckoutEnv φ} {before : List String} {last deviceName date : String} {path : PathBuf}

open Checkout

/-- What is put in front of the extension. -/
theorem counter_plain : ∀ i ∈ List.range 19, 3 ≤ (" (" ++ toString (i + 2) ++ ")").toList.length ∧
    '/' ∉ (" (" ++ toString (i + 2) ++ ")").toList := by decide +kernel

/-- The candidates are names next to the file, with the mark. -/
theorem candidates_recognized (hname : '/' ∉ last.toList) (hdevice : '/' ∉ deviceName.toList)
    (hdate : '/' ∉ date.toList)
    (h : path ∈ candidates (env.below (before ++ [Client.conflictCopyName last deviceName date]))) :
    ∃ name, path = env.below (before ++ [name]) ∧ Client.isConflictCopyName name = true := by
  have hplain := Client.plain_conflictCopyName hname hdevice hdate
  have hmark : Client.isConflictCopyName (Client.conflictCopyName last deviceName date) = true :=
    Client.isConflictCopyName_conflictCopyName
  generalize Client.conflictCopyName last deviceName date = desired at h hplain hmark
  rw [candidates, fileName_below] at h
  rcases List.mem_cons.mp h with rfl | h
  · exact ⟨desired, rfl, hmark⟩
  · obtain ⟨i, hi, rfl⟩ := List.mem_map.mp h
    obtain ⟨hlen, hslash⟩ := counter_plain i hi
    have hnumbered := Client.plain_joinFileName hlen hplain.2.2.2 hslash
    have hmarked : Client.isConflictCopyName (Client.joinFileName
        ((Client.splitFileName desired).1 ++ (" (" ++ toString (i + 2) ++ ")")) (Client.splitFileName desired).2) = true :=
      Client.isConflictCopyName_numbered hmark
    simp only [← String.append_assoc] at hnumbered hmarked
    exact ⟨_, withFileName_below hnumbered, hmarked⟩

/-- The path that is found for a conflict copy is a candidate. -/
theorem conflictCopyPath_candidate {s s' : Checkout φ} (hname : '/' ∉ last.toList) (hdevice : '/' ∉ deviceName.toList)
    (hdate : '/' ∉ date.toList)
    (hrun : (conflictCopyPath env (env.below (before ++ [last])) deviceName date).runBody s = (s', .ok path)) :
    ∃ name, path = env.below (before ++ [name]) ∧ Client.isConflictCopyName name = true := by
  refine candidates_recognized hname hdevice hdate ?_
  rw [conflictCopyPath, fileName_below] at hrun
  dsimp only at hrun
  rw [withFileName_below (Client.plain_conflictCopyName hname hdevice hdate)] at hrun
  exact returns_disambiguateConflictPath.of_runBody hrun

end Added

open Checkout in
/-- **A conflict copy is added.**  When the daemon has written a conflict copy of another device: next to the file there
is one more, with the verified content of that version and a name that the push passes over, where nothing was; all
that stood is as it was; nothing else has appeared but directories above; and no node or mark of the mirror has changed. -/
theorem conflict_copy_is_added (env : CheckoutEnv φ) (nodesById : List Client.LocalNode) (pulled : Client.PulledNode)
    (s s' : Checkout φ) (before : List String) (last versionId : String) (hroot : normalize env.root = env.root)
    (hhidden : ∀ n, env.hidden n = false) (hlinks : Unlinked s.disk) (hactor : pulled.actorDeviceId ≠ env.deviceId)
    (hversion : pulled.newVersionId = some versionId)
    (hpath : nodePath env nodesById pulled.nodeId = some (env.below (before ++ [last]))) (hname : '/' ∉ last.toList)
    (hdevice : '/' ∉ pulled.actorDeviceId.toList) (hdate : '/' ∉ (env.dateOf pulled.appliedAt).toList)
    (hrun : (applyConflictCopy env nodesById pulled).runBody s = (s', .ok ())) :
    (∃ name version bytes n, Client.isConflictCopyName name = true ∧ s.disk.lstat (before ++ [name]) = none ∧
        ContentOf env pulled.nodeId versionId version bytes ∧
        s'.disk.lstat (before ++ [name]) = some (.file (env.file n bytes)) ∧
        ∀ r, s'.disk.lstat r ≠ none → s.disk.lstat r ≠ none ∨ r = before ++ [name] ∨ r <+: before) ∧
      (∀ r, s.disk.lstat r ≠ none → s'.disk.lstat r = s.disk.lstat r) ∧ s'.mirror.nodes = s.mirror.nodes ∧
      ∀ v, s'.mirror.hasMaterializedContentForVersion v = true → s.mirror.hasMaterializedContentForVersion v = true := by
  have hspared : Spared (fun _ => False) s s' := ((applyConflictCopy_ensures hhidden).of_runBody_ok hrun).1
  rw [applyConflictCopy, if_neg hactor, hversion, hpath] at hrun
  obtain ⟨s₁, conflictPath, hfind, hrest⟩ := Proc.runBody_bind_ok hrun
  have hidle : Idle s s₁ := idle_conflictCopyPath.of_runBody hfind
  have hfree := conflictCopyPath_free hhidden hfind
  obtain ⟨name, rfl, hmark⟩ := conflictCopyPath_candidate hname hdevice hdate hfind
  have hnone : s.disk.lstat (before ++ [name]) = none := (hfree _ (place_below env _)).resolve_left (by
    rw [linked_eq_false hlinks]
    exact Bool.false_ne_true)
  -- the directories above
  obtain ⟨s₂, u, hparent, hrest⟩ := Proc.runBody_bind_ok hrest
  have hlinks₁ : Unlinked s₁.disk := by rw [hidle.1]; exact hlinks
  have hlinks₂ := unlinked_runBody (unlinking_calls env).createParent hparent hlinks₁
  have hmirror₂ : SameMirror s₁ s₂ := (sameMirror_calls env).createParent.of_runBody hparent
  rw [createParent, parentPath_below] at hparent
  have hways : Within (fun _ => False) (env.Leading (env.below before)) s₁ s₂ :=
    (writes_required writes_createDirAll).of_runBody hparent
  -- the content
  obtain ⟨s₃, bytes, hstore, hwrite⟩ := Proc.runBody_bind_ok hrest
  obtain ⟨s₀, r, hdownload, hrecord⟩ := Proc.runBody_bind_ok hstore
  obtain ⟨version, bytes'⟩ := r
  obtain ⟨hcontent, hdisk₃, hmirror₃⟩ := downloadVerifiedVersion_ok hdownload
  obtain ⟨rfl, hbytes⟩ := Prod.mk.inj hrecord
  obtain rfl : bytes' = bytes := Except.ok.inj hbytes
  have hwritten := required_ok hwrite
  have hmirror₄ : SameMirror _ s' := (sameMirror_calls env).writeFile.of_runBody hwritten
  obtain ⟨n, hfile⟩ := writeFile_true (by show Unlinked s₀.disk; rw [hdisk₃]; exact hlinks₂) (place_below env _) hwritten
  have hbefore : ∀ q, s₀.disk.lstat q = s.disk.lstat q ∨ q <+: before := fun q => by
    rw [hdisk₃]
    rcases hways.disk q not_false with hsame | ⟨hlead, -, -⟩
    · exact .inl (by rw [hsame, hidle.1])
    · exact .inr (leading_below hroot hlead)
  have hmirror : s'.mirror = recorded env pulled.nodeId version s.mirror := by
    rw [show s'.mirror = recorded env pulled.nodeId version s₀.mirror from hmirror₄, hmirror₃,
      show s₂.mirror = s₁.mirror from hmirror₂, hidle.2]
  refine ⟨⟨name, version, bytes', n, hmark, hnone, hcontent, (hfile _).trans (if_pos rfl), fun r hr => ?_⟩,
    fun r hr => hspared r hr not_false, ?_, fun v hv => ?_⟩
  · rw [hfile] at hr
    split at hr
    · next heq => exact .inr (.inl heq)
    · rcases hbefore r with hsame | habove
      · exact .inl (hsame ▸ hr)
      · exact .inr (.inr habove)
  · rw [hmirror]
    exact nodes_foldl_markUploaded _ _
  · rw [hmirror] at hv
    exact marked_of_recorded hv

/-- The checkout with the conflict copy. -/
def docsCopied : Checkout Client.Bytes × Except CheckoutError Unit :=
  (Checkout.applyConflictCopy docsEnv docsWritten.mirror.nodes docsCopy).runBody docsWritten

theorem docs_copy_is_added : ∃ name, Client.isConflictCopyName name = true ∧
    docsWritten.disk.lstat ["sub", name] = none ∧ (docsCopied.1.disk.lstat ["sub", name]).isSome := by
  have hok : docsCopied.2 = .ok () := by decide +kernel
  have hrun : (Checkout.applyConflictCopy docsEnv docsWritten.mirror.nodes docsCopy).runBody docsWritten =
      (docsCopied.1, .ok ()) := Prod.ext rfl hok
  obtain ⟨⟨name, version, bytes, n, hmark, hnone, -, hfile, -⟩, -⟩ := conflict_copy_is_added docsEnv
    docsWritten.mirror.nodes docsCopy docsWritten docsCopied.1 ["sub"] "a.txt" "v1" docs_ready.root (fun _ => rfl)
    docsWritten_unlinked (by decide) rfl (by decide +kernel) (by decide) (by decide) (by decide) hrun
  exact ⟨name, hmark, hnone, Option.isSome_of_eq_some hfile⟩

end Valv.Daemon
