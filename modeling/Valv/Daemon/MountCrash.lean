import Mathlib.Logic.Relation
import Valv.Daemon.MountFiles

/-!
# A mount whose daemon is stopped

The daemon can be stopped while it writes the files of a mount, and the next start goes through the whole mount again.
A file is written next to its place and takes the place when it is complete; the mark of the version follows.  So what
is found at the place of a live file is never a part of it, and a mark is only found behind complete content.

* `Complete`: the place holds the verified content of the version.
* `writeAtomic_ensures`, `materializeVersion_ensures`: each moment of one write.
* `Whole`: what holds of the live files at each moment of a pass.
* `stopped_pass_leaves_whole_files`: wherever the pass is stopped.
* `resumed_mount_shows_verified_files`: a pass that succeeds after any number of stopped ones.
-/

namespace Valv.Daemon

open Valv.Conc Valv.Table Valv.Server Valv.Files Valv.Paths Valv.Traverse

variable {φ : Type}

/-- The place holds a file with the whole content of this version of the node, and the content is what was
downloaded and verified for it. -/
def Complete (env : CheckoutEnv φ) (d : Disk φ) (nodeId versionId : String) (p : Path) : Prop :=
  ∃ version bytes n, Checkout.ContentOf env nodeId versionId version bytes ∧ d.lstat p = some (.file (env.file n bytes))

/-! ### One write -/

section OneWrite

variable {env : CheckoutEnv φ} {s : Checkout φ} {p q : Path} {path temp : PathBuf} {bytes : Client.Bytes}

open Checkout

/-- The place is as it was, or holds all of these bytes. What a crash must never leave is a third thing, such as a
part of them. -/
def OldOrNew (env : CheckoutEnv φ) (s : Checkout φ) (bytes : Client.Bytes) (p : Path) (t : Checkout φ) : Prop :=
  t.disk.lstat p = s.disk.lstat p ∨ ∃ n, t.disk.lstat p = some (.file (env.file n bytes))

theorem OldOrNew.of_within {T D : Path → Prop} {s₁ t : Checkout φ} (h : OldOrNew env s bytes p s₁)
    (hw : Within T D s₁ t) (hT : ¬ T p) (hD : ¬ D p) : OldOrNew env s bytes p t := by
  have hsame : t.disk.lstat p = s₁.disk.lstat p := (hw.disk p hT).resolve_right fun hd => hD hd.1
  rw [OldOrNew, hsame]
  exact h

/-- A program that keeps away from the place. -/
theorem ensures_away {α : Type} {T D : Path → Prop} {prog : CheckoutProc φ α} {s₁ : Checkout φ}
    (hprog : prog.Writes (Within T D)) (hT : ¬ T p) (hD : ¬ D p) (h : OldOrNew env s bytes p s₁) :
    prog.Ensures (OldOrNew env s bytes p) (fun _ => OldOrNew env s bytes p) (fun _ => OldOrNew env s bytes p) s₁ :=
  (Proc.Ensures.of_writes hprog s₁).mono (fun _ ht => h.of_within ht hT hD) (fun _ _ ht _ => h.of_within ht hT hD)
    fun _ _ ht _ => h.of_within ht hT hD

/-- The place is exchanged in one step. -/
theorem fsRename_ensures {n : ℕ} {s₁ : Checkout φ} (hlinks : Unlinked s₁.disk) (hq : env.place temp = some q)
    (hp : env.place path = some p) (hfile : s₁.disk.lstat q = some (.file (env.file n bytes)))
    (h : OldOrNew env s bytes p s₁) :
    (fsRename env temp path).Ensures (OldOrNew env s bytes p) (fun _ => OldOrNew env s bytes p)
      (fun _ => OldOrNew env s bytes p) s₁ := by
  have hafter : OldOrNew env s bytes p (s₁.called (env.renameEffect s₁.calls s₁.disk temp path).1 [temp, path]) := by
    show (env.renameEffect s₁.calls s₁.disk temp path).1.lstat p = _ ∨
      ∃ n, (env.renameEffect s₁.calls s₁.disk temp path).1.lstat p = _
    rw [CheckoutEnv.renameEffect, hq, hp]
    dsimp only
    rw [linkedAbove_eq_false hlinks, linkedAbove_eq_false hlinks, Bool.or_self, if_neg Bool.false_ne_true]
    split
    · exact h
    split
    · next d' hd' =>
      refine .inr ⟨n, ?_⟩
      rw [lstat_rename hd', if_pos List.prefix_rfl, List.drop_length, List.append_nil]
      exact hfile
    · exact h
  exact .act h hafter hafter

/-- The temporary file is away from the place, whatever becomes of it. -/
theorem writeAndRename_ensures {s₁ : Checkout φ} (hlinks : Unlinked s₁.disk) (hq : env.place temp = some q)
    (hp : env.place path = some p) (hne : p ≠ q) (h : OldOrNew env s bytes p s₁) :
    (writeAndRename env temp path bytes).Ensures (OldOrNew env s bytes p) (fun _ => OldOrNew env s bytes p)
      (fun _ => OldOrNew env s bytes p) s₁ := by
  have haway : ¬ env.At temp p := fun hat => hne (Option.some.inj (hat.symm.trans hq))
  have hwritten : (writeFile env temp bytes).Ensures (fun _ => True) (fun written t =>
      written = true → Unlinked t.disk ∧ ∃ n, t.disk.lstat q = some (.file (env.file n bytes))) (fun _ _ => True) s₁ :=
    Proc.Ensures.of_run fun written t hrun htrue => by
      subst htrue
      obtain ⟨n, hfile⟩ := writeFile_true hlinks hq hrun
      exact ⟨unlinked_runBody (unlinking_calls env).writeFile hrun hlinks, n, (hfile q).trans (if_pos rfl)⟩
  refine .bind (((ensures_away (D := fun _ => False) writes_writeFile haway not_false h).and hwritten).mono
    (fun _ ht => ht.1) (fun written t _ ht => ?_) fun _ _ _ ht => ht.1)
  cases written with
  | false => exact .pure ht.1 ht.1
  | true =>
    obtain ⟨hlinks₁, n, hfile⟩ := ht.2 rfl
    have hsynced : (fsAt env temp fun d _ => some d).Ensures (fun _ => True)
        (fun _ t' => t'.disk = t.disk) (fun _ _ => True) t := .of_run fun ok t' hrun => by
      obtain ⟨rfl, -⟩ := Prod.mk.inj hrun
      exact effect_cases (P := fun d' => d' = t.disk) rfl fun _ d' _ hd' => (Option.some.inj hd').symm
    have hsync : (fsAt env temp fun d _ => some d).Writes (Within (fun _ => False) fun _ => False) := writes_sync
    have hkept := ensures_away hsync not_false not_false ht.1
    refine .bind ((hkept.and hsynced).mono (fun _ ht' => ht'.1) (fun synced t' _ ht' => ?_) fun _ _ _ ht' => ht'.1)
    cases synced with
    | false => exact .pure ht'.1 ht'.1
    | true => exact fsRename_ensures (by rw [ht'.2]; exact hlinks₁) hq hp (by rw [ht'.2]; exact hfile) ht'.1

/-- **Each moment of `write_atomic`**: what was there, or all of the bytes. -/
theorem writeAtomic_ensures {before : List String} {last : String} {s₁ : Checkout φ}
    (hroot : normalize env.root = env.root) (hlinks : Unlinked s₁.disk)
    (htemp : ∀ n, Plain (tempName last (env.newUuid n))) (h : OldOrNew env s bytes (before ++ [last]) s₁) :
    (writeAtomic env (env.below (before ++ [last])) bytes).Ensures (OldOrNew env s bytes (before ++ [last]))
      (fun _ => OldOrNew env s bytes (before ++ [last])) (fun _ => OldOrNew env s bytes (before ++ [last])) s₁ := by
  have hparents : (createParent env (env.below (before ++ [last]))).Ensures (OldOrNew env s bytes (before ++ [last]))
      (fun _ => OldOrNew env s bytes (before ++ [last])) (fun _ => OldOrNew env s bytes (before ++ [last])) s₁ := by
    rw [createParent, parentPath_below]
    refine ensures_away (T := fun _ => False) (writes_required writes_createDirAll) not_false (fun hlead => ?_) h
    have hlen := (leading_below hroot hlead).length_le
    rw [List.length_append, List.length_singleton] at hlen
    omega
  have hlinked : (createParent env (env.below (before ++ [last]))).Ensures (fun _ => True)
      (fun _ t => Unlinked t.disk) (fun _ _ => True) s₁ := .of_run fun _ t hrun =>
    unlinked_runBody (unlinking_calls env).createParent hrun hlinks
  refine .bind ((hparents.and hlinked).mono (fun _ ht => ht.1) (fun _ t _ ht => ?_) fun _ _ _ ht => ht.1)
  rw [fileName_below]
  refine .bind (.read ht.1 ?_)
  have hplace := place_below env (before ++ [tempName last (env.newUuid t.calls)])
  have hne : before ++ [last] ≠ before ++ [tempName last (env.newUuid t.calls)] := fun he => by
    have hname : last = tempName last (env.newUuid t.calls) := by simpa using he
    have hlen := congrArg (fun n : String => n.toList.length) hname
    simp [tempName, String.toList_append] at hlen
    omega
  rw [tempPath_below (htemp t.calls)]
  refine .bind ((writeAndRename_ensures ht.2 hplace (place_below env _) hne ht.1).mono (fun _ ht' => ht')
    (fun renamed t' _ ht' => ?_) fun _ _ _ ht' => ht')
  cases renamed with
  | true => exact .pure ht' ht'
  | false =>
    have haway : ¬ env.At (env.below (before ++ [tempName last (env.newUuid t.calls)])) (before ++ [last]) := fun hat =>
      hne (Option.some.inj (hat.symm.trans hplace))
    refine .bind ((ensures_away (D := fun _ => False) writes_unlink haway not_false ht').mono (fun _ hi => hi)
      (fun _ _ hi _ => ?_) fun _ _ _ he => he)
    exact .fail hi hi

end OneWrite

/-! ### One visit -/

section OneVisit

variable {env : CheckoutEnv φ} {m : Client.Mirror} {node : Client.LocalNode} {names : List String} {s t : Checkout φ}
  {nodeId versionId : String}

open Checkout

/-- What one visit may do at its own place, and with the marks of materialized versions. Either both are as before,
or the place is complete and the version of the visit is the only one newly marked. -/
def Own (env : CheckoutEnv φ) (nodeId versionId : String) (p : Path) (s t : Checkout φ) : Prop :=
  (t.disk.lstat p = s.disk.lstat p ∧
      ∀ v, t.mirror.hasMaterializedContentForVersion v = true → s.mirror.hasMaterializedContentForVersion v = true) ∨
    (Complete env t.disk nodeId versionId p ∧ ∀ v, t.mirror.hasMaterializedContentForVersion v = true →
      s.mirror.hasMaterializedContentForVersion v = true ∨ v = versionId)

theorem Own.refl (env : CheckoutEnv φ) (nodeId versionId : String) (p : Path) (s : Checkout φ) :
    Own env nodeId versionId p s s := .inl ⟨rfl, fun _ hv => hv⟩

theorem Own.of_idle {p : Path} {s₁ : Checkout φ} (h : Own env nodeId versionId p s s₁) (hidle : Idle s₁ t) :
    Own env nodeId versionId p s t := by
  rw [Own, hidle.1, hidle.2]
  exact h

/-- **Each moment of a version that is written**: the content takes its place, and then the mark is set. -/
theorem materializeVersion_ensures {before : List String} {last : String} (hroot : normalize env.root = env.root)
    (hlinks : Unlinked s.disk) (htemp : ∀ n, Plain (tempName last (env.newUuid n))) :
    (materializeVersion env nodeId versionId (env.below (before ++ [last]))).Ensures
      (Own env nodeId versionId (before ++ [last]) s) (fun _ _ => True) (fun _ _ => True) s := by
  have hstart := Own.refl env nodeId versionId (before ++ [last]) s
  have hdownloaded : (downloadVerifiedVersion env nodeId versionId).Ensures (fun _ => True)
      (fun r t => ContentOf env nodeId versionId r.1 r.2 ∧ t.disk = s.disk ∧ t.mirror = s.mirror) (fun _ _ => True) s :=
    .of_run fun r t hrun => downloadVerifiedVersion_ok hrun
  refine .bind (((Proc.Ensures.of_writes idle_download s).and hdownloaded).mono
    (fun _ ht => hstart.of_idle ht.1) (fun r t _ ht => ?_) fun _ _ _ _ => True.intro)
  obtain ⟨version, bytes⟩ := r
  obtain ⟨-, hcontent, hdisk, hmirror⟩ := ht
  have hlinks₁ : Unlinked t.disk := by rw [hdisk]; exact hlinks
  -- the bytes, while the mirror stays
  have hold : OldOrNew env s bytes (before ++ [last]) t := .inl (by rw [hdisk])
  have hbytes := writeAtomic_ensures hroot hlinks₁ htemp hold
  have hsame := Proc.Ensures.of_writes (sameMirror_calls env).writeAtomic (R := SameMirror)
    (p := writeAtomic env (env.below (before ++ [last])) bytes) t
  have hwritten : (writeAtomic env (env.below (before ++ [last])) bytes).Ensures (fun _ => True)
      (fun _ t' => ∃ n, t'.disk.lstat (before ++ [last]) = some (.file (env.file n bytes))) (fun _ _ => True) t :=
    .of_run fun _ t' hrun => (writeAtomic_ok hroot hlinks₁ htemp hrun).1
  refine .bind (((hbytes.and hsame).and hwritten).mono (fun t' ht' => ?_) (fun _ t' _ ht' => ?_)
    fun _ _ _ _ => True.intro)
  · obtain ⟨⟨hplace, hmirror'⟩, -⟩ := ht'
    have hmarks : t'.mirror = s.mirror := Eq.trans hmirror' hmirror
    rcases hplace with hold | ⟨n, hnew⟩
    · exact .inl ⟨hold, fun v hv => hmarks ▸ hv⟩
    · exact .inr ⟨⟨version, bytes, n, hcontent, hnew⟩, fun v hv => .inl (hmarks ▸ hv)⟩
  · obtain ⟨⟨-, hmirror'⟩, n, hnew⟩ := ht'
    have hmarks : t'.mirror = s.mirror := Eq.trans hmirror' hmirror
    have hcomplete : Complete env t'.disk nodeId versionId (before ++ [last]) := ⟨version, bytes, n, hcontent, hnew⟩
    have hrow : Own env nodeId versionId (before ++ [last]) s t' := .inr ⟨hcomplete, fun v hv => .inl (hmarks ▸ hv)⟩
    have hmarked : ∀ v, (persisted env nodeId version t'.mirror).hasMaterializedContentForVersion v = true →
        s.mirror.hasMaterializedContentForVersion v = true ∨ v = versionId := fun v hv => by
      rw [← hmarks, ← hcontent.id]
      exact marked_persisted.mp hv
    have hmarking : Own env nodeId versionId (before ++ [last]) s
        { t' with mirror := recorded env nodeId version t'.mirror } :=
      .inr ⟨hcomplete, fun v hv => .inl (hmarks ▸ marked_of_recorded hv)⟩
    exact .bind (.act hrow hmarking (.act hmarking (.inr ⟨hcomplete, hmarked⟩) True.intro))

end OneVisit

/-! ### A pass -/

/-- What holds of the live files at each moment of a pass: a file is gone with what a tombstone stands for, or as it
was, or complete; and a mark is as it was, or behind complete content. -/
structure Whole (env : CheckoutEnv φ) (s t : Checkout φ) : Prop where
  links : Unlinked t.disk
  nodes : t.mirror.nodes = s.mirror.nodes
  files : ∀ node names v, Shown s.mirror env.mount node names → node.nodeType = .file →
    node.currentVersionId = some v →
    (t.disk.lstat names = none ∧ ∃ dead ∈ deletedPaths s.mirror env.mount, env.Below dead.1 names) ∨
      (t.disk.lstat names = s.disk.lstat names ∧ (t.mirror.hasMaterializedContentForVersion v = true →
        s.mirror.hasMaterializedContentForVersion v = true)) ∨
      Complete env t.disk node.nodeId v names

section Pass

variable {env : CheckoutEnv φ} {s₀ s t : Checkout φ} {node : Client.LocalNode} {names : List String} {versionId : String}

open Checkout

theorem Whole.refl (hlinks : Unlinked s.disk) : Whole env s s :=
  ⟨hlinks, rfl, fun _ _ _ _ _ _ => .inr (.inl ⟨rfl, fun hv => hv⟩)⟩

/-- What a moment keeps of the place of a file and of its mark. -/
theorem Whole.of_same (h : Whole env s₀ s) (hlinks : Unlinked t.disk) (hnodes : t.mirror.nodes = s.mirror.nodes)
    (hsame : ∀ node names v, Shown s₀.mirror env.mount node names → node.nodeType = .file →
      node.currentVersionId = some v → t.disk.lstat names = s.disk.lstat names ∧
        (t.mirror.hasMaterializedContentForVersion v = true → s.mirror.hasMaterializedContentForVersion v = true) ∨
      Complete env t.disk node.nodeId v names) : Whole env s₀ t := by
  refine ⟨hlinks, hnodes.trans h.nodes, fun node names v hshown hfile hv => ?_⟩
  rcases hsame node names v hshown hfile hv with ⟨hplace, hmark⟩ | hcomplete
  · rcases h.files node names v hshown hfile hv with ⟨hnone, hdead⟩ | ⟨hold, hmark₀⟩ | ⟨version, bytes, n, hcontent, hdata⟩
    · exact .inl ⟨hplace.trans hnone, hdead⟩
    · exact .inr (.inl ⟨hplace.trans hold, fun hm => hmark₀ (hmark hm)⟩)
    · exact .inr (.inr ⟨version, bytes, n, hcontent, hplace.trans hdata⟩)
  · exact .inr (.inr hcomplete)

theorem Whole.of_idle (h : Whole env s₀ s) (hidle : Idle s t) : Whole env s₀ t :=
  h.of_same (by rw [hidle.1]; exact h.links) (by rw [hidle.2])
    fun _ _ _ _ _ _ => .inl ⟨by rw [hidle.1], fun hv => hidle.2 ▸ hv⟩

/-- The removals take away what is below the paths of tombstones. -/
theorem Whole.of_removed (hlinks : Unlinked s.disk)
    (h : Removed env ((deletedPaths s.mirror env.mount).map Prod.fst) s t) : Whole env s t := by
  refine ⟨h.links hlinks, by rw [h.mirror], fun node names v _ _ _ => ?_⟩
  by_cases hdead : ∃ dead ∈ deletedPaths s.mirror env.mount, env.Below dead.1 names
  · cases hplace : t.disk.lstat names with
    | none => exact .inl ⟨rfl, hdead⟩
    | some e => exact .inr (.inl ⟨(h.shrinks names e hplace).symm, fun hv => h.mirror ▸ hv⟩)
  · refine .inr (.inl ⟨h.keeps names fun path hp => ?_, fun hv => h.mirror ▸ hv⟩)
    obtain ⟨e, he, rfl⟩ := List.mem_map.mp hp
    exact fun hbelow => hdead ⟨e, he, hbelow⟩

/-- A file is not on the way to a node. -/
theorem not_leading (hroot : normalize env.root = env.root) {m : Client.Mirror} (hclean : CleanTree m env.mount)
    {other : Client.LocalNode} {names' : List String} (hnode : Shown m env.mount node names)
    (hother : Shown m env.mount other names') (hfile : other.nodeType = .file) (hne : other ≠ node) :
    ¬ env.Leading (env.below names) names' := by
  intro hlead
  have habove := leading_below hroot hlead
  by_cases heq : names' = names
  · exact hne (Shown.unique hclean hother (heq ▸ hnode))
  · have hfolder := Shown.folder_of_above hclean hother hnode habove heq
    rw [hfile] at hfolder
    cases hfolder

/-- A directory is made on the way to a node that is no file, or to the mount root. -/
theorem createDirAll_ensures (h : Whole env s₀ s)
    (haway : ∀ other names', Shown s₀.mirror env.mount other names' → other.nodeType = .file →
      ¬ env.Leading (env.below names) names') :
    (required (createDirAll env (env.below names))).Ensures (Whole env s₀) (fun _ _ => True) (fun _ _ => True) s := by
  have hways : (required (createDirAll env (env.below names))).Ensures
      (Within (fun _ => False) (env.Leading (env.below names)) s) _ _ s :=
    .of_writes (writes_required writes_createDirAll) s
  have hmirror : (required (createDirAll env (env.below names))).Ensures (SameMirror s) _ _ s :=
    .of_writes (writes_of_required (sameMirror_calls env).createDirAll) s
  have hlinks : (required (createDirAll env (env.below names))).Ensures (Unlinking s) _ _ s :=
    .of_writes (writes_of_required (unlinking_calls env).createDirAll) s
  refine ((hways.and hmirror).and hlinks).mono (fun t ht => ?_) (fun _ _ _ _ => True.intro) fun _ _ _ _ => True.intro
  obtain ⟨⟨hwithin, hsame⟩, hunlinked⟩ := ht
  refine h.of_same (hunlinked h.links) hwithin.nodes fun other names' v hother hfile _ => .inl ⟨?_, fun hv => ?_⟩
  · exact (hwithin.disk names' not_false).resolve_right fun hd => haway other names' hother hfile hd.1
  · rw [show t.mirror = s.mirror from hsame] at hv
    exact hv

/-- A file is written. -/
theorem materializeVersion_whole (hroot : normalize env.root = env.root) (hclean : CleanTree s₀.mirror env.mount)
    (htemp : TempNames s₀.mirror env) (hnode : Shown s₀.mirror env.mount node names) (hfile : node.nodeType = .file)
    (hversion : node.currentVersionId = some versionId) (h : Whole env s₀ s) :
    (materializeVersion env node.nodeId versionId (env.below names)).Ensures (Whole env s₀) (fun _ _ => True)
      (fun _ _ => True) s := by
  obtain ⟨before, last, rfl, hplain⟩ := hnode.snoc hclean
  have hown : (materializeVersion env node.nodeId versionId (env.below (before ++ [last]))).Ensures
      (Own env node.nodeId versionId (before ++ [last]) s) _ _ s :=
    materializeVersion_ensures hroot h.links fun n => plain_tempName hplain (htemp.slash n)
  have hways : (materializeVersion env node.nodeId versionId (env.below (before ++ [last]))).Ensures
      (Within (env.Rewritten (env.below (before ++ [last]))) (env.Leading (env.below (before ++ [last]))) s) _ _ s :=
    .of_writes writes_materializeVersion s
  have hlinks : (materializeVersion env node.nodeId versionId (env.below (before ++ [last]))).Ensures (Unlinking s) _ _ s :=
    .of_writes (unlinking_calls env).materializeVersion s
  refine ((hown.and hways).and hlinks).mono (fun t ht => ?_) (fun _ _ _ _ => True.intro) fun _ _ _ _ => True.intro
  obtain ⟨⟨hown, hwithin⟩, hunlinked⟩ := ht
  refine h.of_same (hunlinked h.links) hwithin.nodes fun other names' v hother hotherFile hv => ?_
  by_cases heq : other = node
  · -- the place of the node itself
    subst heq
    obtain rfl : versionId = v := Option.some.inj (hversion.symm.trans hv)
    rw [Shown.names_unique hclean hother hnode]
    exact hown.imp (fun hold => ⟨hold.1, hold.2 versionId⟩) fun hnew => hnew.1
  · refine .inl ⟨?_, fun hmark => ?_⟩
    · refine (hwithin.disk names' ?_).resolve_right fun hd => ?_
      · exact not_rewritten hclean htemp hnode hfile hother (Ne.symm heq)
      · exact not_leading hroot hclean hnode hother hotherFile heq hd.1
    · rcases hown with hold | hnew
      · exact hold.2 v hmark
      · refine (hnew.2 v hmark).resolve_right fun hid => heq ?_
        exact hclean.versions other hother.live node hnode.live (by rw [hv]; rfl) (by rw [hv, hversion, hid])

/-- **Each moment of a visit.** -/
theorem materializeNode_ensures (hroot : normalize env.root = env.root) (hclean : CleanTree s₀.mirror env.mount)
    (htemp : TempNames s₀.mirror env) (hnode : Shown s₀.mirror env.mount node names) (h : Whole env s₀ s) :
    (materializeNode env node (env.below names)).Ensures (Whole env s₀) (fun _ _ => True) (fun _ _ => True) s := by
  rw [materializeNode]
  cases htype : node.nodeType with
  | folder =>
    refine createDirAll_ensures h fun other names' hother hfile => ?_
    refine not_leading hroot hclean hnode hother hfile fun heq => ?_
    rw [heq, htype] at hfile
    cases hfile
  | file =>
    cases hversion : node.currentVersionId with
    | none => exact .pure h True.intro
    | some versionId =>
      refine .bind (.read h ?_)
      split
      · have hcall : Whole env s₀ (s.called s.disk [env.below names]) := h.of_idle ⟨rfl, rfl⟩
        refine .bind (.act h hcall ?_)
        split
        · exact .pure hcall True.intro
        · exact materializeVersion_whole hroot hclean htemp hnode htype hversion hcall
      · exact materializeVersion_whole hroot hclean htemp hnode htype hversion h

/-- Each moment of the visits. -/
theorem materializeEach_ensures (hroot : normalize env.root = env.root) (hclean : CleanTree s₀.mirror env.mount)
    (htemp : TempNames s₀.mirror env) {visits : List (Client.LocalNode × PathBuf)}
    (hshown : ∀ e ∈ visits, ∃ names, Shown s₀.mirror env.mount e.1 names ∧ e.2 = env.below names)
    (h : Whole env s₀ s) :
    (materializeEach env visits).Ensures (Whole env s₀) (fun _ _ => True) (fun _ _ => True) s := by
  induction visits generalizing s with
  | nil => exact .pure h True.intro
  | cons visit visits ih =>
    obtain ⟨node, path⟩ := visit
    obtain ⟨names, hnode, rfl⟩ := hshown (node, path) List.mem_cons_self
    refine .bind ((materializeNode_ensures hroot hclean htemp hnode h).mono (fun _ ht => ht) (fun _ t ht _ => ?_)
      fun _ _ _ he => he)
    exact ih (fun e he => hshown e (List.mem_cons_of_mem _ he)) ht

/-- **Each moment of a pass.** -/
theorem materializeMountFiles_ensures (hroot : normalize env.root = env.root)
    (hclean : CleanTree s.mirror env.mount) (htemp : TempNames s.mirror env) (hlinks : Unlinked s.disk) :
    (Checkout.materializeMountFiles env).Ensures (Whole env s) (fun _ _ => True) (fun _ _ => True) s := by
  have hstart : Whole env s s := .refl hlinks
  have hclear : (Checkout.cleanupDeletedMountPaths env).Ensures (Whole env s) (fun _ t => t.mirror = s.mirror)
      (fun _ _ => True) s := by
    refine .bind (.read hstart ?_)
    exact (Proc.Ensures.of_writes (writes_cleanupDeletedMountPaths s) s).mono (fun _ ht => .of_removed hlinks ht)
      (fun _ _ ht _ => ht.mirror) fun _ _ _ _ => True.intro
  refine .bind (hclear.mono (fun _ ht => ht) (fun _ t ht hmirror => ?_) fun _ _ _ he => he)
  refine .bind (.read ht ?_)
  rw [hmirror]
  cases hvisits : visitsOf s.mirror env.mount with
  | none => exact .pure ht True.intro
  | some visits =>
    have hbelowRoot : env.root = env.below [] := by rw [CheckoutEnv.below, List.map_nil, List.append_nil]
    have hmkdir : (required (createDirAll env (env.below []))).Ensures (Whole env s) _ _ t :=
      createDirAll_ensures ht fun other names' hother _ hlead => by
        obtain ⟨-, -, -, hnonempty, -⟩ := hother
        exact hnonempty (List.prefix_nil.mp (leading_below hroot hlead))
    rw [← hbelowRoot] at hmkdir
    refine .bind (hmkdir.mono (fun _ hi => hi) (fun _ t' hi _ => ?_) fun _ _ _ he => he)
    exact materializeEach_ensures hroot hclean htemp (fun e he => ((visits_spec hclean hvisits).1 e).mp he) hi

end Pass

open Checkout in
/-- **Wherever a pass is stopped**, the place of a live file holds what it held before, or the verified content of the
current version, never a part of it; nothing is there at most where a tombstone's path was cleared.  A version gets its
mark behind its content only. -/
theorem stopped_pass_leaves_whole_files (env : CheckoutEnv φ) (s : Checkout φ) (n : ℕ)
    (hroot : normalize env.root = env.root) (hclean : CleanTree s.mirror env.mount) (htemp : TempNames s.mirror env)
    (hlinks : Unlinked s.disk) (node : Client.LocalNode) (names : List String) (v : String)
    (hshown : Shown s.mirror env.mount node names) (hfile : node.nodeType = .file)
    (hv : node.currentVersionId = some v) :
    let t := (Checkout.materializeMountFiles env).stateAfter n s
    (t.disk.lstat names = none ∧ ∃ dead ∈ deletedPaths s.mirror env.mount, env.Below dead.1 names) ∨
      (t.disk.lstat names = s.disk.lstat names ∧ (t.mirror.hasMaterializedContentForVersion v = true →
        s.mirror.hasMaterializedContentForVersion v = true)) ∨
      Complete env t.disk node.nodeId v names :=
  ((materializeMountFiles_ensures hroot hclean htemp hlinks).always n).files node names v hshown hfile hv

theorem stopped_docs_leave_no_part :
    let t := (Checkout.materializeMountFiles docsEnv).stateAfter 12 docsCheckout
    (t.disk.lstat ["sub", "a.txt"] = none ∧
        ∃ dead ∈ deletedPaths docsCheckout.mirror docsEnv.mount, docsEnv.Below dead.1 ["sub", "a.txt"]) ∨
      (t.disk.lstat ["sub", "a.txt"] = docsCheckout.disk.lstat ["sub", "a.txt"] ∧
        (t.mirror.hasMaterializedContentForVersion "v1" = true →
          docsCheckout.mirror.hasMaterializedContentForVersion "v1" = true)) ∨
      Complete docsEnv t.disk "inner" "v1" ["sub", "a.txt"] :=
  stopped_pass_leaves_whole_files docsEnv docsCheckout 12 docs_ready.root docs_ready.clean docs_ready.temp
    docs_ready.links docsText ["sub", "a.txt"] "v1" docs_ready.text rfl rfl

/-! ### After a restart -/

/-- A pass that is stopped somewhere: the state after the first `n` of its calls, for some `n`. -/
def Stopped (env : CheckoutEnv φ) (s t : Checkout φ) : Prop :=
  ∃ n, t = (Checkout.materializeMountFiles env).stateAfter n s

/-- A mark is behind complete content. Where the local database says that the content of a version is materialized
and there is something at the node's path, this is the complete content of that version. -/
def Honest (env : CheckoutEnv φ) (s : Checkout φ) : Prop :=
  ∀ node names v, Shown s.mirror env.mount node names → node.nodeType = .file → node.currentVersionId = some v →
    s.mirror.hasMaterializedContentForVersion v = true → s.disk.lstat names ≠ none →
    Complete env s.disk node.nodeId v names

section Restart

variable {m m' : Client.Mirror} {mount : MountState} {env : CheckoutEnv φ} {s t : Checkout φ}

theorem liveNodes_congr (h : m'.nodes = m.nodes) : liveNodes m' mount = liveNodes m mount := by
  rw [liveNodes, liveNodes, folderNodes, folderNodes, h]

theorem shown_congr (h : m'.nodes = m.nodes) {node : Client.LocalNode} {names : List String} :
    Shown m' mount node names ↔ Shown m mount node names := by
  simp only [Shown, LiveRoot, liveNodes_congr h]

theorem CleanTree.congr (hclean : CleanTree m mount) (h : m'.nodes = m.nodes) : CleanTree m' mount where
  keys := h ▸ hclean.keys
  siblings := h ▸ hclean.siblings
  names := h ▸ hclean.names
  depth := h ▸ hclean.depth
  named := by
    rw [liveNodes_congr h]
    exact hclean.named
  parents := by
    rw [liveNodes_congr h]
    exact hclean.parents
  versions := by
    rw [liveNodes_congr h]
    exact hclean.versions

theorem TempNames.congr (htemp : TempNames m env) (h : m'.nodes = m.nodes) : TempNames m' env :=
  ⟨htemp.slash, by
    rw [liveNodes_congr h]
    exact htemp.apart⟩

/-- What holds of a mount before and after a pass that is stopped. -/
structure Resumable (env : CheckoutEnv φ) (s t : Checkout φ) : Prop where
  links : Unlinked t.disk
  nodes : t.mirror.nodes = s.mirror.nodes
  honest : Honest env t

/-- **A stopped pass** can be resumed. -/
theorem Resumable.stopped {t' : Checkout φ} (hroot : normalize env.root = env.root)
    (hclean : CleanTree s.mirror env.mount) (htemp : TempNames s.mirror env) (h : Resumable env s t)
    (hstop : Stopped env t t') : Resumable env s t' := by
  obtain ⟨n, rfl⟩ := hstop
  have hwhole := (materializeMountFiles_ensures hroot (hclean.congr h.nodes) (htemp.congr h.nodes) h.links).always n
  refine ⟨hwhole.links, hwhole.nodes.trans h.nodes, fun node names v hshown hfile hv hmark hstands => ?_⟩
  have hshown' := (shown_congr hwhole.nodes).mp hshown
  rcases hwhole.files node names v hshown' hfile hv with ⟨hnone, -⟩ | ⟨hsame, hmarked⟩ | hcomplete
  · exact absurd hnone hstands
  · obtain ⟨version, bytes, k, hcontent, hdata⟩ :=
      h.honest node names v hshown' hfile hv (hmarked hmark) (hsame ▸ hstands)
    exact ⟨version, bytes, k, hcontent, hsame.trans hdata⟩
  · exact hcomplete

end Restart

open Checkout in
/-- **A mount recovers.**  However often the daemon is stopped while it writes the files of an honest mount, the first
pass that succeeds leaves each live folder as a directory and each live file with its verified content, marked. -/
theorem resumed_mount_shows_verified_files (env : CheckoutEnv φ) (s t s' : Checkout φ)
    (hroot : normalize env.root = env.root) (hclean : CleanTree s.mirror env.mount) (htemp : TempNames s.mirror env)
    (hlinks : Unlinked s.disk) (hhonest : Honest env s) (hstart : ∃ root, LiveRoot s.mirror env.mount root)
    (hstops : Relation.ReflTransGen (Stopped env) s t)
    (hrun : (Checkout.materializeMountFiles env).runBody t = (s', .ok ())) (node : Client.LocalNode)
    (names : List String) (hshown : Shown s.mirror env.mount node names) :
    (node.nodeType = .folder → s'.disk.lstat names = some .dir) ∧
      (node.nodeType = .file → ∀ v, node.currentVersionId = some v →
        s'.mirror.hasMaterializedContentForVersion v = true ∧ Complete env s'.disk node.nodeId v names) := by
  have hresumable : Resumable env s t := by
    clear hrun
    induction hstops with
    | refl => exact ⟨hlinks, rfl, hhonest⟩
    | tail _ hstop ih => exact ih.stopped hroot hclean htemp hstop
  obtain ⟨s₁, s₂, visits, hparts⟩ := materializeMountFiles_ok hroot (hclean.congr hresumable.nodes)
    (htemp.congr hresumable.nodes) hresumable.links
    (by simp only [LiveRoot, liveNodes_congr hresumable.nodes]; exact hstart) hrun
  have hshown' := (shown_congr hresumable.nodes).mpr hshown
  have hrealized := hparts.realized hshown'
  rw [Realized] at hrealized
  refine ⟨fun hfolder => ?_, fun hfile v hv => ?_⟩
  · rw [hfolder] at hrealized
    exact hrealized
  · rw [hfile] at hrealized
    obtain ⟨hmark, ⟨hbefore, hstood, hsame⟩ | ⟨version, bytes, n, hcontent, hdata, -⟩⟩ := hrealized v hv
    · obtain ⟨version, bytes, n, hcontent, hdata⟩ := hresumable.honest node names v hshown' hfile hv hbefore hstood
      exact ⟨hmark, version, bytes, n, hcontent, hsame.trans hdata⟩
    · exact ⟨hmark, version, bytes, n, hcontent, hdata⟩

/-- The checkout when the pass was stopped at the twelfth statement. -/
def docsStopped : Checkout Client.Bytes := (Checkout.materializeMountFiles docsEnv).stateAfter 12 docsCheckout

theorem resumed_docs_show_file : Complete docsEnv
    ((Checkout.materializeMountFiles docsEnv).runBody docsStopped).1.disk "inner" "v1" ["sub", "a.txt"] := by
  have hhonest : Honest docsEnv docsCheckout := fun _ _ _ _ _ _ hmark => by cases hmark
  have hok : ((Checkout.materializeMountFiles docsEnv).runBody docsStopped).2 = .ok () := by decide +kernel
  have hrun : (Checkout.materializeMountFiles docsEnv).runBody docsStopped =
      (((Checkout.materializeMountFiles docsEnv).runBody docsStopped).1, .ok ()) := Prod.ext rfl hok
  exact ((resumed_mount_shows_verified_files docsEnv docsCheckout docsStopped _ docs_ready.root docs_ready.clean
    docs_ready.temp docs_ready.links hhonest ⟨docsRoot, docs_ready.live⟩ (.single ⟨12, rfl⟩) hrun docsText
    ["sub", "a.txt"] docs_ready.text).2 rfl "v1" rfl).2

end Valv.Daemon
