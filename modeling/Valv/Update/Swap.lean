import Valv.Lib.Crash
import Valv.Lib.FileOps

/-!
# Binaries that take each other's place

`valv update` and the daemon's own update put new binaries in the place of old ones: the old one is renamed, the new
one takes its name, and where that fails the old one gets its name back.  A call of the file system may fail, and the
machine may stop between any two of them.

* `replaceBinary`: one binary; `swap`, `rollback`, `swapAndRestart`: the source's uses of it.
* `Component`: the paths of a binary, what is there and what is to come.
* `Component.Safe`: what holds of it at each moment.
* `update_is_all_or_nothing`, `self_update_keeps_a_binary`: both updates.
-/

namespace Valv.Update

open Valv.Conc Valv.Files

/-! ### State and surroundings -/

structure Binary where
  content : String
  executable : Bool
  deriving DecidableEq, Repr

/-- The file system that an update works on, and how many calls it has made of it. -/
structure Install where
  disk : Disk Binary
  /-- Calls so far. -/
  calls : ℕ := 0

/-- What the surroundings answer. -/
structure SwapEnv where
  /-- Whether a call of the file system fails, told by the calls before it. -/
  fails : ℕ → Bool
  /-- What a removal that fails leaves of a directory. -/
  spared : ℕ → Path → Bool
  /-- The service manager's error, when it is asked for a restart after so many calls. -/
  restartError : ℕ → Option String
  /-- Whether the daemon that it starts comes as far as `run`. -/
  starts : ℕ → Bool
  /-- The error of `restart_and_confirm` behind a restart that was accepted: no `/status` with the new version in time. -/
  confirmError : ℕ → Option String

inductive SwapError where
  | rename (src dst : Path)
  | message (text : String)
  deriving DecidableEq, Repr

def SwapError.text : SwapError → String
  | .rename src dst => "failed to rename /" ++ "/".intercalate src ++ " -> /" ++ "/".intercalate dst
  | .message text => text

instance : Sequence Install Unit where
  value _ := 0
  bump s := s
  key _ := ()

abbrev SwapProc := Proc Install Unit SwapError

section Calls

variable (env : SwapEnv)

/-- A call; whether it succeeds. -/
def call (f : Disk Binary → Option (Disk Binary)) : SwapProc Bool :=
  .act (fun _ s => { disk := if env.fails s.calls then s.disk else (f s.disk).getD s.disk, calls := s.calls + 1 })
    fun v => pure (!env.fails v.calls && (f v.disk).isSome)

/-- `rename_atomic`. -/
def renameAtomic (src dst : Path) : SwapProc Bool := call env fun d => d.rename src dst

/-- `restore_binary`; an error is dropped. -/
def restoreBinary (backup current : Path) : SwapProc Unit := do
  let _ ← renameAtomic env backup current
  pure ()

/-- `set_executable`. -/
def setExecutable (path : Path) : SwapProc Bool :=
  call env fun d =>
    match d.lstat path with
    | some (.file b) => d.create path { b with executable := true }
    | _ => none

/-- `fs::remove_dir_all`; an error is dropped. -/
def removeDirAll (path : Path) : SwapProc Unit :=
  .act (fun _ s =>
      { disk := if env.fails s.calls then s.disk.spare path (env.spared s.calls)
          else (s.disk.removeTree path).getD s.disk, calls := s.calls + 1 })
    fun _ => pure ()

/-- `fs::remove_file`; an error is dropped. -/
def removeFile (path : Path) : SwapProc Unit := do
  let _ ← call env fun d => d.unlink path
  pure ()

end Calls

/-! ### The updates -/

section Updates

variable (env : SwapEnv)

/-- A binary takes the place of another.  `undoBackup` follows a failure before anything was changed, `undo` a later
one. -/
def replaceBinary (current backup staged : Path) (name : String) (backupError : SwapError)
    (undoBackup undo : SwapProc Unit) : SwapProc Unit := do
  if ← renameAtomic env current backup then
    if ← renameAtomic env staged current then
      if ← setExecutable env current then pure ()
      else do
        restoreBinary env backup current
        undo
        .fail (.message ("failed to set executable permission on new " ++ name ++ " binary"))
    else do
      restoreBinary env backup current
      undo
      .fail (.message ("failed to install new " ++ name ++ " binary"))
  else do
    undoBackup
    .fail backupError

/-- `SwapBackup`. -/
structure SwapBackup where
  valvCurrent : Option Path := none
  valvBackup : Option Path := none
  valvdCurrent : Option Path := none
  valvdBackup : Option Path := none
  deriving DecidableEq, Repr

/-- `rollback_optional`. -/
def rollbackOptional (backup current : Option Path) : SwapProc Unit :=
  match backup, current with
  | some backup, some current => restoreBinary env backup current
  | _, _ => pure ()

/-- The first part of `UnixBinarySwap::swap`. -/
def swapValv (installDir : Path) : Option Path → SwapProc (Option Path × Option Path)
  | some staged => do
    let current := installDir ++ ["valv"]
    let backup := installDir ++ ["valv.old"]
    replaceBinary env current backup staged "valv" (.rename current backup) (pure ()) (pure ())
    pure (some current, some backup)
  | none => pure (none, none)

/-- The second part; the first is undone where it fails. -/
def swapValvd (installDir : Path) (valvBackup valvCurrent : Option Path) :
    Option Path → SwapProc (Option Path × Option Path)
  | some staged => do
    let current := installDir ++ ["valvd"]
    let backup := installDir ++ ["valvd.old"]
    replaceBinary env current backup staged "valvd" (.message "failed to back up valvd binary")
      (rollbackOptional env valvBackup valvCurrent) (rollbackOptional env valvBackup valvCurrent)
    pure (some current, some backup)
  | none => pure (none, none)

/-- `UnixBinarySwap::swap`. -/
def swap (installDir : Path) (stagedValv stagedValvd : Option Path) : SwapProc SwapBackup := do
  let (valvCurrent, valvBackup) ← swapValv env installDir stagedValv
  let (valvdCurrent, valvdBackup) ← swapValvd env installDir valvBackup valvCurrent stagedValvd
  pure { valvCurrent, valvBackup, valvdCurrent, valvdBackup }

/-- One half of `rollback`. -/
def rollbackBinary (current backup : Option Path) (name : String) : SwapProc Unit :=
  match current, backup with
  | some current, some backup => do
    if ← renameAtomic env backup current then pure ()
    else .fail (.message ("failed to roll back " ++ name ++ " binary"))
  | _, _ => pure ()

/-- `UnixBinarySwap::rollback`. -/
def rollback (backup : SwapBackup) : SwapProc Unit := do
  rollbackBinary env backup.valvCurrent backup.valvBackup "valv"
  rollbackBinary env backup.valvdCurrent backup.valvdBackup "valvd"

/-- `restart_daemon`; its error.  A restart that is refused starts no daemon.  One that is accepted may: a daemon that
starts begins with `reap_stale_backup`, so that whatever becomes of the update afterwards, the backup of its binary is
gone. -/
def restart (backup : Path) : SwapProc (Option String) := do
  let (error, starts) ← (.read fun s => (env.restartError s.calls, env.starts s.calls) : SwapProc _)
  match error with
  | some e => pure (some e)
  | none => do
    if starts then removeFile env backup else pure ()
    pure none

/-- `restart_and_confirm`; its error. -/
def restartAndConfirm (backup : Path) : SwapProc (Option String) := do
  match ← restart env backup with
  | some e => pure (some e)
  | none => .read fun s => env.confirmError s.calls

/-- What `handle_failed_restart` reports. -/
def rollbackReport (originalError : String) : Option SwapError → String
  | none => "update failed and was rolled back: " ++ originalError
  | some e => "update failed (" ++ originalError ++ ") AND the rollback also failed (" ++ e.text ++
      ") - the installed valv/valvd binaries may be in an inconsistent state; reinstall with install.sh"

/-- `handle_failed_restart`; the restart is of the daemon whose backup is `valvdBackup`. -/
def handleFailedRestart (backup : SwapBackup) (valvdBackup : Path) (originalError : String) : SwapProc Unit := do
  let rollbackError ← ((do
    rollback env backup
    pure none) : SwapProc (Option SwapError)).attempt fun e => pure (some e)
  let _ ← restart env valvdBackup
  .fail (.message (rollbackReport originalError rollbackError))

/-- `remove_dir_all` of what was extracted. -/
def removeExtracted : Option Path → SwapProc Unit
  | some extractDir => removeDirAll env extractDir
  | none => pure ()

/-- `cmd_update`, from the swap on; each component that was staged comes with the directory it was extracted to. -/
def installUpdate (installDir : Path) (cli valvd : Option Path) : SwapProc Unit := do
  let backup ← swap env installDir (cli.map (· ++ ["valv"])) (valvd.map (· ++ ["valvd"]))
  removeExtracted env cli
  removeExtracted env valvd
  if valvd.isSome then
    let valvdBackup := installDir ++ ["valvd.old"]
    match ← restartAndConfirm env valvdBackup with
    | none => pure ()
    | some e => handleFailedRestart env backup valvdBackup e
  else pure ()

/-- `swap_and_restart`. -/
def swapAndRestart (currentExe backup staged extractDir : Path) : SwapProc Unit := do
  replaceBinary env currentExe backup staged "valvd" (.rename currentExe backup) (pure ()) (removeDirAll env extractDir)
  removeDirAll env extractDir
  match ← restart env backup with
  | none => removeFile env backup
  | some _ => do
    restoreBinary env backup currentExe
    .fail (.message "failed to trigger valvd restart after self-update")

end Updates

/-! ### Components -/

/-- A binary that is to be replaced: its paths, and what is there and what is to come. -/
structure Component where
  current : Path
  backup : Path
  extractDir : Path
  name : String
  old : Binary
  new : Binary

namespace Component

variable (c : Component)

def staged : Path := c.extractDir ++ [c.name]

/-- The new binary, once it is executable. -/
def enabled : Binary := { c.new with executable := true }

/-- The paths at or below which the replacement changes something. -/
def paths : List Path := [c.current, c.backup, c.extractDir]

/-- Before the replacement. -/
structure Ready (d : Disk Binary) : Prop where
  current : d.lstat c.current = some (.file c.old)
  staged : d.lstat c.staged = some (.file c.new)
  backup : d.lstat c.backup = none ∨ ∃ b, d.lstat c.backup = some (.file b)
  leads : d.leads c.backup = true
  apart : c.paths.Pairwise fun p q => ¬ p <+: q ∧ ¬ q <+: p

/-- The old binary is in place. -/
def Untouched (d : Disk Binary) : Prop := d.lstat c.current = some (.file c.old)

/-- The new binary is in place, and the old one is kept. -/
def Replaced (d : Disk Binary) : Prop :=
  d.lstat c.current = some (.file c.enabled) ∧ d.lstat c.backup = some (.file c.old)

/-- Nothing is lost: the old binary is in place, or it is kept under the name of the backup, and in its place is the
new one or nothing. -/
def Safe (d : Disk Binary) : Prop :=
  c.Untouched d ∨ d.lstat c.backup = some (.file c.old) ∧
    (d.lstat c.current = none ∨ d.lstat c.current = some (.file c.new) ∨ d.lstat c.current = some (.file c.enabled))

theorem Replaced.safe {c : Component} {d : Disk Binary} (h : c.Replaced d) : c.Safe d := .inr ⟨h.2, .inr (.inr h.1)⟩

theorem Untouched.safe {c : Component} {d : Disk Binary} (h : c.Untouched d) : c.Safe d := .inl h

end Component

/-- The component is updated: the new binary is in place, and the old one is kept, or was taken away by a daemon
that has started. -/
def Component.Renewed (c : Component) (d : Disk Binary) : Prop :=
  d.lstat c.current = some (.file c.enabled) ∧
    (d.lstat c.backup = some (.file c.old) ∨ d.lstat c.backup = none)

theorem Component.Replaced.renewed {c : Component} {d : Disk Binary} (h : c.Replaced d) : c.Renewed d := ⟨h.1, .inl h.2⟩

/-- A binary is in place or kept: of the daemon, the old one may be gone once the new one has run. -/
def Component.Kept (c : Component) (d : Disk Binary) : Prop := c.Safe d ∨ d.lstat c.current = some (.file c.enabled)

/-- Nothing changes but at or below these paths, and calls are counted. -/
structure Within (ps : List Path) (s t : Install) : Prop where
  disk : ∀ r, (∀ p ∈ ps, ¬ p <+: r) → t.disk.lstat r = s.disk.lstat r
  calls : s.calls ≤ t.calls

/-- One of the calls so far has failed. -/
def SwapEnv.Failed (env : SwapEnv) (calls : ℕ) : Prop := ∃ n, n < calls ∧ env.fails n = true

/-- Two of the calls so far have failed. -/
def SwapEnv.Twice (env : SwapEnv) (calls : ℕ) : Prop :=
  ∃ n m, n < m ∧ m < calls ∧ env.fails n = true ∧ env.fails m = true

/-! ### Calls -/

section Calls

variable {env : SwapEnv} {s t u : Install} {ps : List Path} {p q : Path} {b : Binary} {I : Install → Prop}
  {Q : Bool → Install → Prop} {E : SwapError → Install → Prop}

theorem Within.refl (ps : List Path) (s : Install) : Within ps s s := ⟨fun _ _ => rfl, Nat.le_refl _⟩

theorem Within.trans (h : Within ps s t) (h' : Within ps t u) : Within ps s u :=
  ⟨fun r hr => (h'.disk r hr).trans (h.disk r hr), Nat.le_trans h.calls h'.calls⟩

theorem Within.mono {ps' : List Path} (h : Within ps s t) (hsub : ∀ p ∈ ps, p ∈ ps') : Within ps' s t :=
  ⟨fun r hr => h.disk r fun p hp => hr p (hsub p hp), h.calls⟩

theorem SwapEnv.Twice.mono {n m : ℕ} (h : env.Twice n) (hle : n ≤ m) : env.Twice m := by
  obtain ⟨i, j, hij, hj, hi, hfails⟩ := h
  exact ⟨i, j, hij, by omega, hi, hfails⟩

theorem SwapEnv.Failed.twice {n : ℕ} (h : env.Failed n) (hfails : env.fails n = true) : env.Twice (n + 1) := by
  obtain ⟨i, hi, hfailed⟩ := h
  exact ⟨i, n, hi, by omega, hfailed, hfails⟩

theorem SwapEnv.Failed.mono {n m : ℕ} (h : env.Failed n) (hle : n ≤ m) : env.Failed m := by
  obtain ⟨i, hi, hfailed⟩ := h
  exact ⟨i, by omega, hfailed⟩

/-- A call that the disk allows. -/
theorem call_ensures {f : Disk Binary → Option (Disk Binary)} {d : Disk Binary} (hd : f s.disk = some d) (hI : I s)
    (hfail : env.fails s.calls = true → I { s with calls := s.calls + 1 } ∧ Q false { s with calls := s.calls + 1 })
    (hok : I { disk := d, calls := s.calls + 1 } ∧ Q true { disk := d, calls := s.calls + 1 }) :
    (call env f).Ensures I Q E s := by
  rw [call]
  cases hfails : env.fails s.calls with
  | true =>
    obtain ⟨hI', hQ⟩ := hfail hfails
    exact .act hI (by rw [if_pos hfails]; exact hI') (by rw [if_pos hfails, hfails]; exact hQ)
  | false =>
    have hnot : ¬ env.fails s.calls = true := by rw [hfails]; exact Bool.false_ne_true
    exact .act hI (by rw [if_neg hnot, hd]; exact hok.1) (by rw [if_neg hnot, hfails, hd]; exact hok.2)

/-- The parent of a path stays a directory. -/
theorem leads_congr {d d' : Disk Binary} (hleads : d.leads p = true)
    (hsame : d'.lstat p.dropLast = d.lstat p.dropLast) : d'.leads p = true := by
  rw [Disk.leads, Bool.or_eq_true] at hleads ⊢
  refine hleads.imp_right fun hdir => ?_
  rw [isDir_eq] at hdir ⊢
  exact hsame.trans hdir

/-- A file is renamed to a place where no directory is. -/
theorem rename_file {d : Disk Binary} (hp : d.lstat p = some (.file b))
    (hq : d.lstat q = none ∨ ∃ b', d.lstat q = some (.file b')) (hleads : d.leads q = true) (hpq : ¬ p <+: q)
    (hqp : ¬ q <+: p) : ∃ d', d.rename p q = some d' ∧ d'.lstat q = some (.file b) ∧ d'.lstat p = none ∧
      ∀ r, ¬ p <+: r → ¬ q <+: r → d'.lstat r = d.lstat r := by
  have hreplace : d.replaceable (.file b) q = true := by
    rw [Disk.replaceable, ← lstat_of_leads hleads]
    rcases hq with hq | ⟨b', hq⟩
    · rw [hq]
    · rw [hq]
      rfl
  have hguard : (p.isPrefixOf q || q.isPrefixOf p || !d.leads q || !d.replaceable (.file b) q) = false := by
    have hpq' : p.isPrefixOf q = false := Bool.eq_false_iff.mpr fun h => hpq (List.isPrefixOf_iff_prefix.mp h)
    have hqp' : q.isPrefixOf p = false := Bool.eq_false_iff.mpr fun h => hqp (List.isPrefixOf_iff_prefix.mp h)
    rw [hleads, hreplace, hpq', hqp']
    rfl
  have hne : p ≠ q := fun he => hpq (he ▸ List.prefix_rfl)
  have hrename : d.rename p q = some (d.move p q) := by
    rw [Disk.rename, hp]
    dsimp only
    rw [if_neg hne, hguard, if_neg Bool.false_ne_true]
  refine ⟨_, hrename, ?_, ?_, fun r hpr hqr => ?_⟩
  · rw [lstat_rename hrename, if_pos List.prefix_rfl, List.drop_length, List.append_nil, hp]
  · rw [lstat_rename hrename, if_neg hqp, if_pos List.prefix_rfl]
  · rw [lstat_rename hrename, if_neg hqr, if_neg hpr]

theorem renameAtomic_ensures (hp : s.disk.lstat p = some (.file b))
    (hq : s.disk.lstat q = none ∨ ∃ b', s.disk.lstat q = some (.file b')) (hleads : s.disk.leads q = true)
    (hpq : ¬ p <+: q) (hqp : ¬ q <+: p) (hI : I s)
    (hfail : env.fails s.calls = true → I { s with calls := s.calls + 1 } ∧ Q false { s with calls := s.calls + 1 })
    (hok : ∀ d, d.lstat q = some (.file b) → d.lstat p = none →
      (∀ r, ¬ p <+: r → ¬ q <+: r → d.lstat r = s.disk.lstat r) →
      I { disk := d, calls := s.calls + 1 } ∧ Q true { disk := d, calls := s.calls + 1 }) :
    (renameAtomic env p q).Ensures I Q E s := by
  obtain ⟨d, hd, hnew, hgone, hsame⟩ := rename_file hp hq hleads hpq hqp
  exact call_ensures hd hI hfail (hok d hnew hgone hsame)

theorem setExecutable_ensures (hp : s.disk.lstat p = some (.file b)) (hI : I s)
    (hfail : env.fails s.calls = true → I { s with calls := s.calls + 1 } ∧ Q false { s with calls := s.calls + 1 })
    (hok : ∀ d, (∀ r, d.lstat r = if r = p then some (.file { b with executable := true }) else s.disk.lstat r) →
      I { disk := d, calls := s.calls + 1 } ∧ Q true { disk := d, calls := s.calls + 1 }) :
    (setExecutable env p).Ensures I Q E s := by
  have hcreate : ∃ d, s.disk.create p { b with executable := true } = some d := create_of_file hp
  obtain ⟨d, hd⟩ := hcreate
  have hcall : (match s.disk.lstat p with
      | some (.file b) => s.disk.create p { b with executable := true }
      | _ => none) = some d := by
    rw [hp]
    exact hd
  exact call_ensures hcall hI hfail (hok d fun r => (lstat_create hd).1)

/-- A call that the disk refuses. -/
theorem call_refused {f : Disk Binary → Option (Disk Binary)} (hf : f s.disk = none) (hI : I s)
    (hstays : I { s with calls := s.calls + 1 } ∧ Q false { s with calls := s.calls + 1 }) :
    (call env f).Ensures I Q E s := by
  have hdisk : (if env.fails s.calls then s.disk else (f s.disk).getD s.disk) = s.disk := by
    rw [hf]
    split <;> rfl
  have hresult : (!env.fails s.calls && (f s.disk).isSome) = false := by
    rw [hf]
    exact Bool.and_false _
  rw [call]
  exact .act hI (by rw [hdisk]; exact hstays.1) (by rw [hdisk, hresult]; exact hstays.2)

/-- A file is removed, or nothing changes. -/
theorem removeFile_ensures {Q : Unit → Install → Prop} (hI : I s)
    (hQ : ∀ t, Within [p] s t → t.disk.lstat p = none ∨ t.disk = s.disk ∧ (s.disk.unlink p = none ∨ env.Failed t.calls) →
      I t ∧ Q () t) : (removeFile env p).Ensures I Q E s := by
  have hcount : Within [p] s { s with calls := s.calls + 1 } := ⟨fun _ _ => rfl, Nat.le_succ _⟩
  cases hunlink : s.disk.unlink p with
  | none =>
    have hstays := hQ _ hcount (.inr ⟨rfl, .inl hunlink⟩)
    exact .bind (call_refused hunlink hI ⟨hstays.1, .pure hstays.1 hstays.2⟩)
  | some d =>
    refine .bind (call_ensures hunlink hI (fun hfails => ?_) ?_)
    · have hstays := hQ _ hcount (.inr ⟨rfl, .inr ⟨s.calls, Nat.lt_succ_self _, hfails⟩⟩)
      exact ⟨hstays.1, .pure hstays.1 hstays.2⟩
    · have hwithin : Within [p] s { disk := d, calls := s.calls + 1 } := by
        refine ⟨fun r hr => (lstat_unlink hunlink).trans (if_neg fun he => ?_), Nat.le_succ _⟩
        exact hr p (List.mem_singleton_self p) (he ▸ List.prefix_rfl)
      have hgone := hQ _ hwithin (.inl ((lstat_unlink hunlink).trans (if_pos rfl)))
      exact ⟨hgone.1, .pure hgone.1 hgone.2⟩

/-- A restart is refused, or it is accepted and the daemon that starts has taken its backup away. -/
theorem restart_ensures {backup : Path} {Q : Option String → Install → Prop} (hI : I s) (hrefused : ∀ e, Q (some e) s)
    (hQ : ∀ t, Within [backup] s t → t.disk.lstat backup = none ∨ t.disk = s.disk → I t ∧ Q none t) :
    (restart env backup).Ensures I Q E s := by
  refine .bind (.read hI ?_)
  dsimp only
  cases env.restartError s.calls with
  | some e => exact .pure hI (hrefused e)
  | none =>
    cases env.starts s.calls with
    | true =>
      refine .bind (removeFile_ensures hI fun t ht hgone => ?_)
      have ht' := hQ t ht (hgone.imp_right And.left)
      exact ⟨ht'.1, .pure ht'.1 ht'.2⟩
    | false =>
      have hs := hQ s (.refl _ s) (.inr rfl)
      exact .bind (.pure hI (.pure hI hs.2))

end Calls

/-! ### One component -/

section Replace

variable {env : SwapEnv} {s t : Install} {c : Component} {d : Disk Binary} {p : Path} {I : Install → Prop}
  {E : SwapError → Install → Prop}

/-- What is apart from the directory is so from the file in it. -/
theorem staged_apart (h : ¬ p <+: c.extractDir ∧ ¬ c.extractDir <+: p) : ¬ p <+: c.staged ∧ ¬ c.staged <+: p := by
  have hin : c.extractDir <+: c.staged := List.prefix_append _ _
  exact ⟨fun hp => (List.prefix_or_prefix_of_prefix hp hin).elim h.1 h.2, fun hp => h.2 (hin.trans hp)⟩

theorem apart_of_pairwise {a b c : Path} (h : [a, b, c].Pairwise fun p q => ¬ p <+: q ∧ ¬ q <+: p) :
    (¬ a <+: b ∧ ¬ b <+: a) ∧ (¬ a <+: c ∧ ¬ c <+: a) ∧ ¬ b <+: c ∧ ¬ c <+: b := by
  obtain ⟨ha, hbc⟩ := List.pairwise_cons.mp h
  have hb := (List.pairwise_cons.mp hbc).1
  exact ⟨ha b (by simp), ha c (by simp), hb c (by simp)⟩

/-- The paths are apart. -/
theorem Component.Ready.separate (h : c.Ready d) : (¬ c.current <+: c.backup ∧ ¬ c.backup <+: c.current) ∧
    (¬ c.current <+: c.staged ∧ ¬ c.staged <+: c.current) ∧ ¬ c.backup <+: c.staged ∧ ¬ c.staged <+: c.backup := by
  obtain ⟨hcb, hce, hbe⟩ := apart_of_pairwise h.apart
  exact ⟨hcb, staged_apart hce, staged_apart hbe⟩

/-- Nothing but the paths of the component changes where a call is about two of them. -/
theorem within_called {q : Path} {d' : Disk Binary} (hp : ∃ o ∈ c.paths, o <+: p) (hq : ∃ o ∈ c.paths, o <+: q)
    (hsame : ∀ r, ¬ p <+: r → ¬ q <+: r → d'.lstat r = s.disk.lstat r) :
    Within c.paths s { disk := d', calls := s.calls + 1 } := by
  obtain ⟨o, ho, hop⟩ := hp
  obtain ⟨o', ho', hoq⟩ := hq
  exact ⟨fun r hr => hsame r (fun hpr => hr o ho (hop.trans hpr)) fun hqr => hr o' ho' (hoq.trans hqr), Nat.le_succ _⟩

/-- The parent of the binary's place is not one of the places. -/
theorem parent_apart {q : Path} (hne : p ≠ []) (hqp : ¬ q <+: p) : ¬ p <+: p.dropLast ∧ ¬ q <+: p.dropLast := by
  refine ⟨fun h => ?_, fun h => hqp (h.trans (List.dropLast_prefix p))⟩
  have hlength := h.length_le
  have hpos := List.length_pos_iff.mpr hne
  rw [List.length_dropLast] at hlength
  omega

/-- **The old binary** gets its name back, or a second call has failed. -/
theorem restoreBinary_ensures (hcb : ¬ c.current <+: c.backup ∧ ¬ c.backup <+: c.current)
    (hbackup : t.disk.lstat c.backup = some (.file c.old))
    (hcurrent : t.disk.lstat c.current = none ∨ ∃ b, t.disk.lstat c.current = some (.file b))
    (hleads : t.disk.leads c.current = true) (hsafe : c.Safe t.disk) (hfailed : env.Failed t.calls)
    (hwithin : Within c.paths s t) (hI : ∀ u, Within c.paths s u → c.Safe u.disk → I u) :
    (restoreBinary env c.backup c.current).Ensures I
      (fun _ u => Within c.paths s u ∧ (c.Untouched u.disk ∨ c.Safe u.disk ∧ env.Twice u.calls) ∧
        env.Failed u.calls) E t := by
  have hstep : Within c.paths t { t with calls := t.calls + 1 } := ⟨fun _ _ => rfl, Nat.le_succ _⟩
  have hnext : env.Failed (t.calls + 1) := hfailed.mono (Nat.le_succ _)
  refine .bind (renameAtomic_ensures hbackup hcurrent hleads hcb.2 hcb.1 (hI t hwithin hsafe) (fun hfails => ?_)
    fun d hnew _ hsame => ?_)
  · have hu := hwithin.trans hstep
    exact ⟨hI _ hu hsafe, .pure (hI _ hu hsafe) ⟨hu, .inr ⟨hsafe, hfailed.twice hfails⟩, hnext⟩⟩
  · have hu : Within c.paths s { disk := d, calls := t.calls + 1 } :=
      hwithin.trans (within_called ⟨c.backup, by simp [Component.paths], List.prefix_rfl⟩
        ⟨c.current, by simp [Component.paths], List.prefix_rfl⟩ hsame)
    exact ⟨hI _ hu (.inl hnew), .pure (hI _ hu (.inl hnew)) ⟨hu, .inl hnew, hnext⟩⟩

/-- **A binary** takes the place of another, or what was there is back. -/
theorem replaceBinary_ensures {Q : Unit → Install → Prop} {name : String} {backupError : SwapError}
    {undoBackup undo : SwapProc Unit} (h : c.Ready s.disk) (hI : ∀ t, Within c.paths s t → c.Safe t.disk → I t)
    (hdone : ∀ t, Within c.paths s t → c.Replaced t.disk → Q () t)
    (hundoBackup : ∀ t, Within c.paths s t → c.Untouched t.disk → env.Failed t.calls →
      undoBackup.Ensures I (fun _ => E backupError) E t)
    (hundo : ∀ t e, Within c.paths s t → c.Untouched t.disk ∨ c.Safe t.disk ∧ env.Twice t.calls → env.Failed t.calls →
      undo.Ensures I (fun _ => E e) E t) :
    (replaceBinary env c.current c.backup c.staged name backupError undoBackup undo).Ensures I Q E s := by
  obtain ⟨hcb, hcs, hbs⟩ := h.separate
  have hcurrentMem : ∃ o ∈ c.paths, o <+: c.current := ⟨c.current, by simp [Component.paths], List.prefix_rfl⟩
  have hbackupMem : ∃ o ∈ c.paths, o <+: c.backup := ⟨c.backup, by simp [Component.paths], List.prefix_rfl⟩
  have hstagedMem : ∃ o ∈ c.paths, o <+: c.staged :=
    ⟨c.extractDir, by simp [Component.paths], List.prefix_append _ _⟩
  have hne : c.current ≠ [] := by
    intro hnil
    exact hcb.1 (hnil ▸ List.nil_prefix)
  have hstart : I s := hI s (.refl _ s) (.inl h.current)
  -- an undo behind a failure
  have hback : ∀ (t : Install) (e : SwapError), Within c.paths s t → t.disk.lstat c.backup = some (.file c.old) →
      t.disk.lstat c.current = none ∨ (∃ b, t.disk.lstat c.current = some (.file b)) → t.disk.leads c.current = true →
      c.Safe t.disk → env.Failed t.calls → (do
        restoreBinary env c.backup c.current
        undo
        .fail e : SwapProc Unit).Ensures I Q E t := by
    intro t e hwithin hbackup hcurrent hleads hsafe hfailed
    refine .bind ((restoreBinary_ensures hcb hbackup hcurrent hleads hsafe hfailed hwithin hI).mono (fun _ hu => hu)
      (fun _ u hIu hu => ?_) fun _ _ _ he => he)
    exact .bind ((hundo u e hu.1 hu.2.1 hu.2.2).mono (fun _ hv => hv) (fun _ v hIv hv => .fail hIv hv)
      fun _ _ _ he => he)
  refine .bind (renameAtomic_ensures h.current h.backup h.leads hcb.1 hcb.2 hstart (fun hfails => ?_)
    fun d₁ hbackup₁ hgone₁ hsame₁ => ?_)
  · have hwithin : Within c.paths s { s with calls := s.calls + 1 } := ⟨fun _ _ => rfl, Nat.le_succ _⟩
    have hfailed : env.Failed (s.calls + 1) := ⟨s.calls, Nat.lt_succ_self _, hfails⟩
    refine ⟨hI _ hwithin (.inl h.current), ?_⟩
    rw [if_neg Bool.false_ne_true]
    exact .bind ((hundoBackup _ hwithin h.current hfailed).mono (fun _ hv => hv) (fun _ v hIv hv => .fail hIv hv)
      fun _ _ _ he => he)
  -- the old binary has its other name
  have hwithin₁ : Within c.paths s { disk := d₁, calls := s.calls + 1 } := within_called hcurrentMem hbackupMem hsame₁
  have hsafe₁ : c.Safe d₁ := .inr ⟨hbackup₁, .inl hgone₁⟩
  have hleads₁ : d₁.leads c.current = true := by
    obtain ⟨hself, hother⟩ := parent_apart hne hcb.2
    exact leads_congr (leads_of_lstat h.current) (hsame₁ _ hself hother)
  have hstaged₁ : d₁.lstat c.staged = some (.file c.new) := (hsame₁ _ hcs.1 hbs.1).trans h.staged
  refine ⟨hI _ hwithin₁ hsafe₁, ?_⟩
  rw [if_pos rfl]
  refine .bind (renameAtomic_ensures hstaged₁ (.inl hgone₁) hleads₁ hcs.2 hcs.1 (hI _ hwithin₁ hsafe₁)
    (fun hfails => ?_) fun d₂ hcurrent₂ _ hsame₂ => ?_)
  · have hwithin : Within c.paths s { disk := d₁, calls := s.calls + 1 + 1 } := ⟨hwithin₁.disk, by simp only; omega⟩
    refine ⟨hI _ hwithin hsafe₁, ?_⟩
    rw [if_neg Bool.false_ne_true]
    exact hback _ _ hwithin hbackup₁ (.inl hgone₁) hleads₁ hsafe₁ ⟨s.calls + 1, Nat.lt_succ_self _, hfails⟩
  -- the new binary has the name
  have hwithin₂ : Within c.paths s { disk := d₂, calls := s.calls + 1 + 1 } :=
    hwithin₁.trans (within_called hstagedMem hcurrentMem hsame₂)
  have hbackup₂ : d₂.lstat c.backup = some (.file c.old) := (hsame₂ _ hbs.2 hcb.1).trans hbackup₁
  have hsafe₂ : c.Safe d₂ := .inr ⟨hbackup₂, .inr (.inl hcurrent₂)⟩
  refine ⟨hI _ hwithin₂ hsafe₂, ?_⟩
  rw [if_pos rfl]
  refine .bind (setExecutable_ensures hcurrent₂ (hI _ hwithin₂ hsafe₂) (fun hfails => ?_) fun d₃ hsame₃ => ?_)
  · have hwithin : Within c.paths s { disk := d₂, calls := s.calls + 1 + 1 + 1 } := ⟨hwithin₂.disk, by simp only; omega⟩
    refine ⟨hI _ hwithin hsafe₂, ?_⟩
    rw [if_neg Bool.false_ne_true]
    exact hback _ _ hwithin hbackup₂ (.inr ⟨_, hcurrent₂⟩) (leads_of_lstat hcurrent₂) hsafe₂
      ⟨s.calls + 1 + 1, Nat.lt_succ_self _, hfails⟩
  · have hreplaced : c.Replaced d₃ := by
      refine ⟨(hsame₃ _).trans (if_pos rfl), ((hsame₃ _).trans (if_neg fun he => ?_)).trans hbackup₂⟩
      exact hcb.1 (he ▸ List.prefix_rfl)
    have hwithin₃ : Within c.paths s { disk := d₃, calls := s.calls + 1 + 1 + 1 } := by
      refine hwithin₂.trans (within_called hcurrentMem hcurrentMem fun r hr _ => (hsame₃ r).trans (if_neg fun he => ?_))
      exact hr (he ▸ List.prefix_rfl)
    refine ⟨hI _ hwithin₃ hreplaced.safe, ?_⟩
    rw [if_pos rfl]
    exact .pure (hI _ hwithin₃ hreplaced.safe) (hdone _ hwithin₃ hreplaced)

end Replace

/-! ### The command -/

section Command

variable {env : SwapEnv} {s t u : Install} {c o : Component} {cli valvd : Option Component} {d d' : Disk Binary}
  {installDir : Path} {I : Install → Prop} {E : SwapError → Install → Prop}

/-- No path of one component is at or below a path of the other, so that the two do not disturb each other. -/
def Component.Apart (c o : Component) : Prop := ∀ p ∈ c.paths, ∀ q ∈ o.paths, ¬ p <+: q ∧ ¬ q <+: p

theorem Component.Apart.symm (h : c.Apart o) : o.Apart c := fun p hp q hq => (h q hq p hp).symm

/-- What is at or below the paths of a component is the same. -/
def Component.Same (c : Component) (d d' : Disk Binary) : Prop := ∀ p ∈ c.paths, ∀ r, p <+: r → d'.lstat r = d.lstat r

theorem Component.Same.current (h : c.Same d d') : d'.lstat c.current = d.lstat c.current :=
  h c.current (by simp [Component.paths]) _ List.prefix_rfl

theorem Component.Same.backup (h : c.Same d d') : d'.lstat c.backup = d.lstat c.backup :=
  h c.backup (by simp [Component.paths]) _ List.prefix_rfl

theorem Component.Same.untouched (h : c.Same d d') (hd : c.Untouched d) : c.Untouched d' := h.current.trans hd

theorem Component.Same.replaced (h : c.Same d d') (hd : c.Replaced d) : c.Replaced d' :=
  ⟨h.current.trans hd.1, h.backup.trans hd.2⟩

theorem Component.Same.safe (h : c.Same d d') (hd : c.Safe d) : c.Safe d' := by
  rw [Component.Safe, Component.Untouched, h.current, h.backup]
  exact hd

/-- What changes one component leaves the other alone. -/
theorem Within.same (h : Within o.paths s t) (hapart : c.Apart o) : c.Same s.disk t.disk := by
  intro p hp r hpr
  apply h.disk r
  intro q hq hqr
  obtain ⟨hpq, hqp⟩ := hapart p hp q hq
  exact (List.prefix_or_prefix_of_prefix hpr hqr).elim hpq hqp

theorem Within.ready (h : Within o.paths s t) (hapart : c.Apart o) (hready : c.Ready s.disk) : c.Ready t.disk := by
  have hsame := h.same hapart
  have hparent : t.disk.lstat c.backup.dropLast = s.disk.lstat c.backup.dropLast := by
    apply h.disk
    intro q hq hqr
    exact (hapart c.backup (by simp [Component.paths]) q hq).2 (hqr.trans (List.dropLast_prefix _))
  constructor
  · exact hsame.current.trans hready.current
  · exact (hsame c.extractDir (by simp [Component.paths]) _ (List.prefix_append _ _)).trans hready.staged
  · rw [hsame.backup]
    exact hready.backup
  · exact leads_congr hready.leads hparent
  · exact hready.apart

/-- A component is where the command looks for it. -/
structure Component.In (c : Component) (installDir : Path) (name backup : String) : Prop where
  current : c.current = installDir ++ [name]
  backup : c.backup = installDir ++ [backup]
  name : c.name = name

/-- What an update is about: the components that were staged, each with its paths in the install directory and with
its new binary where the staging has put it. -/
structure Plan (installDir : Path) (cli valvd : Option Component) (d : Disk Binary) : Prop where
  command : ∀ c ∈ cli, c.In installDir "valv" "valv.old" ∧ c.Ready d
  daemon : ∀ c ∈ valvd, c.In installDir "valvd" "valvd.old" ∧ c.Ready d
  apart : ∀ c ∈ cli, ∀ o ∈ valvd, c.Apart o

/-- The paths of what is there. -/
def touched (o : Option Component) : List Path := o.elim [] Component.paths

/-- The backups that a swap of these components makes. -/
def backups (cli valvd : Option Component) : SwapBackup :=
  { valvCurrent := cli.map (·.current), valvBackup := cli.map (·.backup),
    valvdCurrent := valvd.map (·.current), valvdBackup := valvd.map (·.backup) }

/-- What holds of one component holds of both. -/
def Both (cli valvd : Option Component) (P : Component → Prop) : Prop := (∀ c ∈ cli, P c) ∧ ∀ c ∈ valvd, P c

theorem Both.mono {P Q : Component → Prop} (h : Both cli valvd P) (hPQ : ∀ c, P c → Q c) : Both cli valvd Q :=
  ⟨fun c hc => hPQ c (h.1 c hc), fun c hc => hPQ c (h.2 c hc)⟩

/-- What holds at each moment of the command: nothing but the components' paths has changed, the old command is in
place or kept, and so is the old daemon, unless the new one is in place. -/
structure Moment (cli valvd : Option Component) (s t : Install) : Prop where
  within : Within (touched cli ++ touched valvd) s t
  command : ∀ c ∈ cli, c.Safe t.disk
  daemon : ∀ o ∈ valvd, o.Kept t.disk

theorem Moment.of_safe (hwithin : Within (touched cli ++ touched valvd) s t)
    (hsafe : Both cli valvd fun c => c.Safe t.disk) : Moment cli valvd s t :=
  ⟨hwithin, hsafe.1, fun o ho => .inl (hsafe.2 o ho)⟩

theorem Moment.after (h : Moment cli valvd t u) (hwithin : Within (touched cli ++ touched valvd) s t) :
    Moment cli valvd s u :=
  ⟨hwithin.trans h.within, h.command, h.daemon⟩

theorem Within.left (h : Within (touched cli) s t) : Within (touched cli ++ touched valvd) s t :=
  h.mono fun _ hp => List.mem_append_left _ hp

theorem Within.right (h : Within (touched valvd) s t) : Within (touched cli ++ touched valvd) s t :=
  h.mono fun _ hp => List.mem_append_right _ hp

/-- Only the new parts of one of them change. -/
theorem Within.others (h : Within (touched cli) s t) (hapart : ∀ c ∈ cli, c.Apart o) : o.Same s.disk t.disk := by
  cases cli with
  | none => exact fun p _ r _ => h.disk r (by simp [touched])
  | some c => exact Within.same (o := c) h (hapart c rfl).symm

theorem swapValv_ensures (hcli : ∀ c ∈ cli, c.In installDir "valv" "valv.old" ∧ c.Ready s.disk)
    (hI : ∀ t, Within (touched cli) s t → (∀ c ∈ cli, c.Safe t.disk) → I t) :
    (swapValv env installDir (cli.map (·.extractDir ++ ["valv"]))).Ensures I
      (fun r t => Within (touched cli) s t ∧ (∀ c ∈ cli, c.Replaced t.disk) ∧
        r = (cli.map (·.current), cli.map (·.backup)))
      (fun _ t => Within (touched cli) s t ∧ ((∀ c ∈ cli, c.Untouched t.disk) ∨ env.Twice t.calls)) s := by
  cases cli with
  | none => exact .pure (hI s (.refl _ s) (by simp)) ⟨.refl _ s, by simp, rfl⟩
  | some c =>
    obtain ⟨hin, hready⟩ := hcli c rfl
    have hstart : ∀ t, Within c.paths s t → c.Safe t.disk → I t := by
      intro t hwithin hsafe
      exact hI t hwithin (by simpa using hsafe)
    simp only [Option.map_some, swapValv, ← hin.current, ← hin.backup]
    rw [← hin.name]
    refine .bind (replaceBinary_ensures hready hstart (fun t hwithin hreplaced => ?_)
      (fun t hwithin huntouched _ => ?_) fun t e hwithin huntouched _ => ?_)
    · exact .pure (hstart t hwithin hreplaced.safe) ⟨hwithin, by simpa using hreplaced, rfl⟩
    · exact .pure (hstart t hwithin huntouched.safe) ⟨hwithin, .inl (by simpa using huntouched)⟩
    · have hsafe : c.Safe t.disk := huntouched.elim Component.Untouched.safe And.left
      refine .pure (hstart t hwithin hsafe) ⟨hwithin, huntouched.imp (fun h => ?_) And.right⟩
      simpa using h

/-- **The first component** gets its old binary back where the second fails. -/
theorem rollbackOptional_ensures (hready : ∀ c ∈ cli, c.Ready d) (hreplaced : ∀ c ∈ cli, c.Replaced s.disk)
    (hfailed : env.Failed s.calls) (hI : ∀ t, Within (touched cli) s t → (∀ c ∈ cli, c.Safe t.disk) → I t) :
    (rollbackOptional env (cli.map (·.backup)) (cli.map (·.current))).Ensures I
      (fun _ t => Within (touched cli) s t ∧ ((∀ c ∈ cli, c.Untouched t.disk) ∨ env.Twice t.calls)) E s := by
  cases cli with
  | none => exact .pure (hI s (.refl _ s) (by simp)) ⟨.refl _ s, .inl (by simp)⟩
  | some c =>
    have hdone := hreplaced c rfl
    refine (restoreBinary_ensures (hready c rfl).separate.1 hdone.2 (.inr ⟨_, hdone.1⟩) (leads_of_lstat hdone.1)
      hdone.safe hfailed (.refl _ s) fun t hwithin hsafe => hI t hwithin (by simpa using hsafe)).mono (fun _ ht => ht)
      (fun _ t _ ht => ⟨ht.1, ht.2.1.imp (fun h => ?_) And.right⟩) fun _ _ _ he => he
    simpa using h

/-- **The second component**, after the first. -/
theorem swapValvd_ensures (hcli : ∀ c ∈ cli, c.Ready d) (hreplaced : ∀ c ∈ cli, c.Replaced s.disk)
    (hvalvd : ∀ c ∈ valvd, c.In installDir "valvd" "valvd.old" ∧ c.Ready s.disk)
    (hapart : ∀ c ∈ cli, ∀ o ∈ valvd, c.Apart o) (hI : ∀ t, Moment cli valvd s t → I t) :
    (swapValvd env installDir (cli.map (·.backup)) (cli.map (·.current))
        (valvd.map (·.extractDir ++ ["valvd"]))).Ensures I
      (fun r t => Within (touched cli ++ touched valvd) s t ∧ Both cli valvd (fun c => c.Replaced t.disk) ∧
        r = (valvd.map (·.current), valvd.map (·.backup)))
      (fun _ t => Within (touched cli ++ touched valvd) s t ∧
        (Both cli valvd (fun c => c.Untouched t.disk) ∨ env.Twice t.calls)) s := by
  cases valvd with
  | none =>
    have hsafe : Both cli none fun c => c.Safe s.disk := ⟨fun c hc => (hreplaced c hc).safe, by simp⟩
    exact .pure (hI s (.of_safe (.refl _ s) hsafe)) ⟨.refl _ s, ⟨hreplaced, by simp⟩, rfl⟩
  | some o =>
    obtain ⟨hin, hready⟩ := hvalvd o rfl
    have hapart' : ∀ c ∈ cli, c.Apart o := fun c hc => hapart c hc o rfl
    have hright : ∀ t, Within o.paths s t → Within (touched cli ++ touched (some o)) s t := fun t ht =>
      ht.mono fun _ hp => List.mem_append_right _ hp
    -- the first component as long as only the second changes
    have hfirst : ∀ t, Within o.paths s t → ∀ c ∈ cli, c.Replaced t.disk := fun t hwithin c hc =>
      (hwithin.same (hapart' c hc)).replaced (hreplaced c hc)
    have hsecond : ∀ t, Within o.paths s t → o.Safe t.disk → I t := by
      intro t hwithin hsafe
      apply hI t
      exact .of_safe (hright t hwithin) ⟨fun c hc => (hfirst t hwithin c hc).safe, by simpa using hsafe⟩
    have hundo : ∀ (t : Install) (e : SwapError), Within o.paths s t →
        o.Untouched t.disk ∨ o.Safe t.disk ∧ env.Twice t.calls → env.Failed t.calls →
        (rollbackOptional env (cli.map (·.backup)) (cli.map (·.current))).Ensures I
          (fun _ u => Within (touched cli ++ touched (some o)) s u ∧
            (Both cli (some o) (fun c => c.Untouched u.disk) ∨ env.Twice u.calls))
          (fun _ u => Within (touched cli ++ touched (some o)) s u ∧
            (Both cli (some o) (fun c => c.Untouched u.disk) ∨ env.Twice u.calls)) t := by
      intro t e hwithin huntouched hfailed
      have hsafe : o.Safe t.disk := huntouched.elim Component.Untouched.safe And.left
      have hwhole : Within (touched cli ++ touched (some o)) s t := hright t hwithin
      refine (rollbackOptional_ensures hcli (hfirst t hwithin) hfailed fun u hu hcliSafe => ?_).mono (fun _ hu => hu)
        (fun _ u _ hu => ?_) fun _ _ _ he => he
      · apply hI u
        refine .of_safe (hwhole.trans hu.left) ⟨hcliSafe, ?_⟩
        simpa using (hu.others hapart').safe hsafe
      · refine ⟨hwhole.trans hu.1.left, ?_⟩
        rcases huntouched with huntouched | htwice
        · refine hu.2.imp_left fun hcliUntouched => ⟨hcliUntouched, ?_⟩
          simpa using (hu.1.others hapart').untouched huntouched
        · exact .inr (htwice.2.mono hu.1.calls)
    simp only [Option.map_some, swapValvd, ← hin.current, ← hin.backup]
    rw [← hin.name]
    refine .bind (replaceBinary_ensures hready hsecond (fun t hwithin hdone => ?_)
      (fun t hwithin huntouched hfailed => hundo t (.message "") hwithin (.inl huntouched) hfailed)
      fun t e hwithin huntouched hfailed => hundo t e hwithin huntouched hfailed)
    refine .pure (hsecond t hwithin hdone.safe) ⟨hright t hwithin, ⟨hfirst t hwithin, ?_⟩, rfl⟩
    simpa using hdone

/-- **The swap**: both new binaries are in place, or both old ones, or two calls have failed. -/
theorem swap_ensures (hplan : Plan installDir cli valvd s.disk) (hI : ∀ t, Moment cli valvd s t → I t) :
    (swap env installDir (cli.map (·.extractDir ++ ["valv"])) (valvd.map (·.extractDir ++ ["valvd"]))).Ensures I
      (fun b t => Within (touched cli ++ touched valvd) s t ∧ Both cli valvd (fun c => c.Replaced t.disk) ∧
        b = backups cli valvd)
      (fun _ t => Within (touched cli ++ touched valvd) s t ∧
        (Both cli valvd (fun c => c.Untouched t.disk) ∨ env.Twice t.calls)) s := by
  have hsecond : ∀ t, Within (touched cli) s t → ∀ o ∈ valvd, o.Same s.disk t.disk := fun t ht o ho =>
    ht.others fun c hc => hplan.apart c hc o ho
  have hfirst : ∀ t, Within (touched cli) s t → (∀ c ∈ cli, c.Safe t.disk) → I t := by
    intro t ht hsafe
    apply hI t
    refine .of_safe ht.left ⟨hsafe, fun o ho => ?_⟩
    exact (hsecond t ht o ho).safe (.inl (hplan.daemon o ho).2.current)
  refine .bind ((swapValv_ensures hplan.command hfirst).mono (fun _ ht => ht) (fun r t _ ht => ?_) fun _ t _ ht => ?_)
  · obtain ⟨hwithin, hreplaced, rfl⟩ := ht
    have hready : ∀ o ∈ valvd, o.In installDir "valvd" "valvd.old" ∧ o.Ready t.disk := by
      intro o ho
      refine ⟨(hplan.daemon o ho).1, ?_⟩
      cases cli with
      | none =>
        have hdisk : t.disk.lstat = s.disk.lstat := funext fun r => hwithin.disk r (by simp [touched])
        obtain ⟨hcurrent, hstaged, hbackup, hleads, hapart⟩ := (hplan.daemon o ho).2
        rw [← hdisk] at hcurrent hstaged hbackup
        exact ⟨hcurrent, hstaged, hbackup, leads_congr hleads (congrFun hdisk _), hapart⟩
      | some c => exact Within.ready (o := c) hwithin (hplan.apart c rfl o ho).symm (hplan.daemon o ho).2
    refine .bind ((swapValvd_ensures (fun c hc => (hplan.command c hc).2) hreplaced hready hplan.apart
      fun u hu => hI u (hu.after hwithin.left)).mono (fun _ hu => hu) (fun r u hIu hu => ?_)
      fun _ u _ hu => ⟨hwithin.left.trans hu.1, hu.2⟩)
    obtain ⟨hwithin', hboth, rfl⟩ := hu
    exact .pure hIu ⟨hwithin.left.trans hwithin', hboth, rfl⟩
  · refine ⟨ht.1.left, ht.2.imp_left fun huntouched => ⟨huntouched, fun o ho => ?_⟩⟩
    exact (hsecond t ht.1 o ho).untouched (hplan.daemon o ho).2.current

/-- The old binary's name is given back, or the rollback fails: so it does where the backup is gone. -/
theorem rollbackBinary_ensures {name : String} {K : Component → Disk Binary → Prop} (hready : ∀ c ∈ cli, c.Ready d)
    (hrenewed : ∀ c ∈ cli, c.Renewed s.disk) (hK : ∀ c ∈ cli, K c s.disk) (huntouched : ∀ c d, c.Untouched d → K c d)
    (hI : ∀ t, Within (touched cli) s t → (∀ c ∈ cli, K c t.disk) → I t) :
    (rollbackBinary env (cli.map (·.current)) (cli.map (·.backup)) name).Ensures I
      (fun _ t => Within (touched cli) s t ∧ ∀ c ∈ cli, c.Untouched t.disk) (fun _ t => t.disk = s.disk) s := by
  cases cli with
  | none => exact .pure (hI s (.refl _ s) (by simp)) ⟨.refl _ s, by simp⟩
  | some c =>
    obtain ⟨hcurrent, hbackup⟩ := hrenewed c rfl
    obtain ⟨hcb, -⟩ := (hready c rfl).separate
    have hat : ∀ t, Within c.paths s t → K c t.disk → I t := by
      intro t ht hkept
      exact hI t ht (by simpa using hkept)
    have hhere : I s := hat s (.refl _ s) (hK c rfl)
    have hcount : Within c.paths s { s with calls := s.calls + 1 } := ⟨fun _ _ => rfl, Nat.le_succ _⟩
    have hstays : I { s with calls := s.calls + 1 } := hat _ hcount (hK c rfl)
    cases hbackup with
    | inl hold =>
      refine .bind (renameAtomic_ensures hold (.inr ⟨_, hcurrent⟩) (leads_of_lstat hcurrent) hcb.2 hcb.1 hhere
        (fun _ => ⟨hstays, .fail hstays rfl⟩) fun d hback _ hsame => ?_)
      have hwithin : Within c.paths s { disk := d, calls := s.calls + 1 } :=
        within_called ⟨c.backup, by simp [Component.paths], List.prefix_rfl⟩
          ⟨c.current, by simp [Component.paths], List.prefix_rfl⟩ hsame
      have hthere : c.Untouched d := hback
      have hkept := hat _ hwithin (huntouched c d hthere)
      exact ⟨hkept, .pure hkept ⟨hwithin, by simpa using hthere⟩⟩
    | inr hgone =>
      -- nothing to rename
      have hrename : s.disk.rename c.backup c.current = none := by rw [Disk.rename, hgone]
      exact .bind (call_refused hrename hhere ⟨hstays, .fail hstays rfl⟩)

theorem Component.Renewed.kept {c : Component} {d : Disk Binary} (h : c.Renewed d) : c.Kept d := .inr h.1

theorem Component.Same.renewed (h : c.Same d d') (hd : c.Renewed d) : c.Renewed d' := by
  rw [Component.Renewed, h.current, h.backup]
  exact hd

/-- **The rollback**: both old binaries have their names again, or it says that it failed. -/
theorem rollback_ensures (hcli : ∀ c ∈ cli, c.Ready d) (hvalvd : ∀ c ∈ valvd, c.Ready d)
    (hapart : ∀ c ∈ cli, ∀ o ∈ valvd, c.Apart o) (hcommand : ∀ c ∈ cli, c.Replaced s.disk)
    (hdaemon : ∀ o ∈ valvd, o.Renewed s.disk) (hI : ∀ t, Moment cli valvd s t → I t) :
    (rollback env (backups cli valvd)).Ensures I
      (fun _ t => Within (touched cli ++ touched valvd) s t ∧ Both cli valvd fun c => c.Untouched t.disk)
      (fun _ t => ∀ o ∈ valvd, o.Renewed t.disk) s := by
  have hsecond : ∀ t, Within (touched cli) s t → ∀ o ∈ valvd, o.Renewed t.disk := fun t ht o ho =>
    (ht.others fun c hc => hapart c hc o ho).renewed (hdaemon o ho)
  have hfirst : ∀ t, Within (touched cli) s t → (∀ c ∈ cli, c.Safe t.disk) → I t := fun t ht hsafe =>
    hI t ⟨ht.left, hsafe, fun o ho => (hsecond t ht o ho).kept⟩
  refine .bind ((rollbackBinary_ensures hcli (fun c hc => (hcommand c hc).renewed) (fun c hc => (hcommand c hc).safe)
    (fun _ _ h => h.safe) hfirst).mono (fun _ ht => ht) (fun _ t _ ht => ?_)
    fun _ t _ (hsame : t.disk = s.disk) => by rw [hsame]; exact hdaemon)
  obtain ⟨hwithin, huntouched⟩ := ht
  have hkept : ∀ u, Within (touched valvd) t u → ∀ c ∈ cli, c.Untouched u.disk := fun u hu c hc =>
    (hu.others fun o ho => (hapart c hc o ho).symm).untouched (huntouched c hc)
  refine (rollbackBinary_ensures hvalvd (hsecond t hwithin) (fun o ho => (hsecond t hwithin o ho).kept)
    (fun _ _ h => .inl h.safe) fun u hu hdaemon => ?_).mono (fun _ hu => hu)
    (fun _ u _ hu => ⟨hwithin.left.trans hu.1.right, hkept u hu.1, hu.2⟩)
    fun _ u _ (hsame : u.disk = t.disk) => by rw [hsame]; exact hsecond t hwithin
  exact hI u ⟨hwithin.left.trans hu.right, fun c hc => (hkept u hu c hc).safe, hdaemon⟩

/-- What is not in the directory stays. -/
theorem removeDirAll_ensures {p : Path} {Q : Unit → Install → Prop} (hI : I s)
    (hQ : ∀ t, Within [p] s t → I t ∧ Q () t) : (removeDirAll env p).Ensures I Q E s := by
  have hwithin : Within [p] s { disk := if env.fails s.calls then s.disk.spare p (env.spared s.calls)
      else (s.disk.removeTree p).getD s.disk, calls := s.calls + 1 } := by
    refine ⟨fun r hr => ?_, Nat.le_succ _⟩
    have hout : ¬ p <+: r := hr p (by simp)
    dsimp only
    split
    · exact lstat_spare hout
    · cases hremove : s.disk.removeTree p with
      | none => rfl
      | some d => exact (lstat_removeTree hremove).trans (if_neg hout)
  exact .act hI (hQ _ hwithin).1 (hQ _ hwithin).2

/-- The directory is apart from the binary's two names. -/
theorem Within.beside (h : Within [c.extractDir] s t) (hready : c.Ready d) :
    t.disk.lstat c.current = s.disk.lstat c.current ∧ t.disk.lstat c.backup = s.disk.lstat c.backup := by
  obtain ⟨-, hce, hbe⟩ := apart_of_pairwise hready.apart
  constructor
  · apply h.disk
    intro p hp
    rw [List.mem_singleton.mp hp]
    exact hce.2
  · apply h.disk
    intro p hp
    rw [List.mem_singleton.mp hp]
    exact hbe.2

theorem Within.extracted (h : Within [c.extractDir] s t) : Within c.paths s t := by
  apply h.mono
  intro p hp
  rw [List.mem_singleton.mp hp]
  simp [Component.paths]

theorem removeExtracted_ensures (hready : ∀ c ∈ cli, c.Ready d) (hreplaced : ∀ c ∈ cli, c.Replaced s.disk)
    (hI : ∀ t, Within (touched cli) s t → (∀ c ∈ cli, c.Replaced t.disk) → I t) :
    (removeExtracted env (cli.map (·.extractDir))).Ensures I
      (fun _ t => Within (touched cli) s t ∧ ∀ c ∈ cli, c.Replaced t.disk) E s := by
  cases cli with
  | none => exact .pure (hI s (.refl _ s) (by simp)) ⟨.refl _ s, by simp⟩
  | some c =>
    refine removeDirAll_ensures (hI s (.refl _ s) hreplaced) fun t ht => ?_
    obtain ⟨hcurrent, hbackup⟩ := ht.beside (hready c rfl)
    have hreplaced' : c.Replaced t.disk := ⟨hcurrent.trans (hreplaced c rfl).1, hbackup.trans (hreplaced c rfl).2⟩
    have hdone : ∀ o ∈ some c, o.Replaced t.disk := by simpa using hreplaced'
    exact ⟨hI t ht.extracted hdone, ht.extracted, hdone⟩

/-- A restart of the daemon takes nothing but its backup away. -/
theorem Within.restarted (h : Within [o.backup] s t) : Within o.paths s t := by
  apply h.mono
  intro p hp
  rw [List.mem_singleton.mp hp]
  simp [Component.paths]

theorem Within.current (h : Within [o.backup] s t) (hready : o.Ready d) :
    t.disk.lstat o.current = s.disk.lstat o.current := by
  apply h.disk
  intro p hp
  rw [List.mem_singleton.mp hp]
  exact hready.separate.1.2

/-- **`valv update`**, statement by statement. -/
theorem installUpdate_ensures (env : SwapEnv) (hplan : Plan installDir cli valvd s.disk) :
    (installUpdate env installDir (cli.map (·.extractDir)) (valvd.map (·.extractDir))).Ensures (Moment cli valvd s)
      (fun _ t => (∀ c ∈ cli, c.Replaced t.disk) ∧ ∀ o ∈ valvd, o.Renewed t.disk)
      (fun e t => Both cli valvd (fun c => c.Untouched t.disk) ∨ env.Twice t.calls ∨
        ∃ e₀ e₁, e = .message (rollbackReport e₀ (some e₁))) s := by
  have hcli : ∀ c ∈ cli, c.Ready s.disk := fun c hc => (hplan.command c hc).2
  have hvalvd : ∀ o ∈ valvd, o.Ready s.disk := fun o ho => (hplan.daemon o ho).2
  have hmap : ∀ (o : Option Component) (n : String), (o.map (·.extractDir)).map (· ++ [n]) =
      o.map (·.extractDir ++ [n]) := fun o n => Option.map_map _ _ o
  have hmoment : ∀ t, Within (touched cli ++ touched valvd) s t → (∀ c ∈ cli, c.Replaced t.disk) →
      (∀ o ∈ valvd, o.Renewed t.disk) → Moment cli valvd s t := fun t ht hcommand hdaemon =>
    ⟨ht, fun c hc => (hcommand c hc).safe, fun o ho => (hdaemon o ho).kept⟩
  rw [installUpdate, hmap, hmap]
  refine .bind ((swap_ensures hplan fun t ht => ht).mono (fun _ ht => ht) (fun b t _ ht => ?_)
    fun _ t _ ht => ht.2.imp_right .inl)
  obtain ⟨ht, hreplaced, rfl⟩ := ht
  -- the directory of the first component goes
  have hother : ∀ u, Within (touched cli) t u → ∀ o ∈ valvd, o.Replaced u.disk := fun u hu o ho =>
    (hu.others fun c hc => hplan.apart c hc o ho).replaced (hreplaced.2 o ho)
  refine .bind ((removeExtracted_ensures hcli hreplaced.1 fun u hu hdone =>
    hmoment u (ht.trans hu.left) hdone fun o ho => (hother u hu o ho).renewed).mono (fun _ hu => hu) (fun _ u _ hu => ?_)
    fun _ _ _ he => he)
  have hu' : Within (touched cli ++ touched valvd) s u := ht.trans hu.1.left
  -- and that of the second
  have hfirst : ∀ v, Within (touched valvd) u v → ∀ c ∈ cli, c.Replaced v.disk := fun v hv c hc =>
    (hv.others fun o ho => (hplan.apart c hc o ho).symm).replaced (hu.2 c hc)
  refine .bind ((removeExtracted_ensures hvalvd (hother u hu.1) fun v hv hdone =>
    hmoment v (hu'.trans hv.right) (hfirst v hv) fun o ho => (hdone o ho).renewed).mono (fun _ hv => hv)
    (fun _ v _ hv => ?_) fun _ _ _ he => he)
  have hv' : Within (touched cli ++ touched valvd) s v := hu'.trans hv.1.right
  have hcommand : ∀ c ∈ cli, c.Replaced v.disk := hfirst v hv.1
  have hat := hmoment v hv' hcommand fun o ho => (hv.2 o ho).renewed
  cases valvd with
  | none => exact .pure hat ⟨hcommand, by simp⟩
  | some o =>
    have hready := hvalvd o rfl
    obtain ⟨hin, -⟩ := hplan.daemon o rfl
    rw [Option.map_some, Option.isSome_some, if_pos rfl, ← hin.backup]
    -- a restart in a state where the new binaries are in place, or the old ones
    have hrestart : ∀ {w : Install}, Within [o.backup] v w →
        w.disk.lstat o.backup = none ∨ w.disk = v.disk → (∀ c ∈ cli, c.Replaced w.disk) ∧ o.Renewed w.disk := by
      intro w hw hbackup
      have hnew := hv.2 o rfl
      refine ⟨fun c hc => (hw.restarted.same (hplan.apart c hc o rfl)).replaced (hcommand c hc), ?_⟩
      refine ⟨(hw.current hready).trans hnew.1, hbackup.symm.imp_left fun hsame => ?_⟩
      rw [hsame]
      exact hnew.2
    have hwithin : ∀ {w : Install}, Within [o.backup] v w → Within (touched cli ++ touched (some o)) s w := fun hw =>
      hv'.trans (hw.restarted.mono fun _ hp => List.mem_append_right _ hp)
    have hrenewed : ∀ {w : Install}, o.Renewed w.disk → ∀ o' ∈ some o, o'.Renewed w.disk := by
      intro w hw
      simpa using hw
    -- behind the restart
    have hfailed : ∀ {w : Install} (e : String), Within [o.backup] v w →
        w.disk.lstat o.backup = none ∨ w.disk = v.disk →
        (handleFailedRestart env (backups cli (some o)) o.backup e).Ensures (Moment cli (some o) s)
          (fun _ t => (∀ c ∈ cli, c.Replaced t.disk) ∧ ∀ o' ∈ some o, o'.Renewed t.disk)
          (fun e t => Both cli (some o) (fun c => c.Untouched t.disk) ∨ env.Twice t.calls ∨
            ∃ e₀ e₁, e = .message (rollbackReport e₀ (some e₁))) w := by
      intro w e hw hbackup
      obtain ⟨hreplaced, hnew⟩ := hrestart hw hbackup
      have hback : (rollback env (backups cli (some o))).Ensures (Moment cli (some o) s)
          (fun _ t => Within (touched cli ++ touched (some o)) w t ∧ Both cli (some o) fun c => c.Untouched t.disk)
          (fun _ t => ∀ o' ∈ some o, o'.Renewed t.disk) w :=
        rollback_ensures hcli hvalvd hplan.apart hreplaced (hrenewed hnew) fun x hx => hx.after (hwithin hw)
      refine .bind (.attempt (.bind (hback.mono (fun _ hx => hx) (fun _ x hIx hx => ?_) fun e' x hIx hx => ?_)))
      · refine .pure hIx (.bind (restart_ensures hIx (fun _ => .fail hIx (.inl hx.2)) fun y hy _ => ?_))
        have huntouched : Both cli (some o) fun c => c.Untouched y.disk := by
          refine ⟨fun c hc => ((hy.restarted.same (hplan.apart c hc o rfl)).untouched (hx.2.1 c hc)), ?_⟩
          have hcurrent : o.Untouched y.disk := (hy.current hready).trans (hx.2.2 o rfl)
          simpa using hcurrent
        have hmoved : Within (touched cli ++ touched (some o)) s y :=
          ((hwithin hw).trans hx.1).trans (hy.restarted.mono fun _ hp => List.mem_append_right _ hp)
        have hIy : Moment cli (some o) s y := .of_safe hmoved (huntouched.mono fun _ h => h.safe)
        exact ⟨hIy, .fail hIy (.inl huntouched)⟩
      · refine .pure hIx (.bind (restart_ensures hIx (fun _ => .fail hIx (.inr (.inr ⟨_, _, rfl⟩))) fun y hy _ => ?_))
        have hmoved : Within (touched cli ++ touched (some o)) s y :=
          hIx.within.trans (hy.restarted.mono fun _ hp => List.mem_append_right _ hp)
        have hcurrent : o.Kept y.disk := .inr ((hy.current hready).trans (hx o rfl).1)
        have hIy : Moment cli (some o) s y :=
          ⟨hmoved, fun c hc => (hy.restarted.same (hplan.apart c hc o rfl)).safe (hIx.command c hc), by simpa using hcurrent⟩
        exact ⟨hIy, .fail hIy (.inr (.inr ⟨_, _, rfl⟩))⟩
    refine .bind (.bind (restart_ensures hat (fun e => .pure hat ?_) fun w hw hbackup => ?_))
    · exact hfailed e (.refl _ v) (.inr rfl)
    · obtain ⟨hreplaced, hnew⟩ := hrestart hw hbackup
      have hIw := hmoment w (hwithin hw) hreplaced (hrenewed hnew)
      refine ⟨hIw, .read hIw ?_⟩
      cases env.confirmError w.calls with
      | none => exact .pure hIw ⟨hreplaced, hrenewed hnew⟩
      | some e => exact hfailed e hw hbackup

end Command

/-! ### Both updates -/

/-- **`valv update` is all or nothing.**  At each moment of it, whatever fails, the old command is in place or kept
under its other name, so is the old daemon unless the new one is in place, and nothing else has changed.  When it
returns, both new binaries are in place; when it fails, both old ones are, unless two calls of the file system have
failed or the error says that the rollback has failed too.  A daemon that starts takes its backup away, so that a
rollback behind it fails. -/
theorem update_is_all_or_nothing (env : SwapEnv) (installDir : Path) (cli valvd : Option Component) (s : Install)
    (hplan : Plan installDir cli valvd s.disk) :
    let p := installUpdate env installDir (cli.map (·.extractDir)) (valvd.map (·.extractDir))
    (∀ n, Moment cli valvd s (p.stateAfter n s)) ∧
      (∀ t, p.runBody s = (t, .ok ()) → (∀ c ∈ cli, c.Replaced t.disk) ∧ ∀ o ∈ valvd, o.Renewed t.disk) ∧
      ∀ t e, p.runBody s = (t, .error e) → Both cli valvd (fun c => c.Untouched t.disk) ∨ env.Twice t.calls ∨
        ∃ e₀ e₁, e = .message (rollbackReport e₀ (some e₁)) := by
  intro p
  have h := installUpdate_ensures env hplan
  exact ⟨h.always, fun t hrun => (h.of_runBody_ok hrun).2, fun t e hrun => (h.of_runBody_error hrun).2⟩

/-- A binary called `name`, and a new one for it. -/
def sample (name : String) : Component :=
  { current := ["bin", name], backup := ["bin", name ++ ".old"], extractDir := ["tmp", name ++ ".new"], name := name,
    old := ⟨"1.0.0", true⟩, new := ⟨"1.1.0", false⟩ }

/-- Both binaries as they are before an update. -/
def sampleInstall : Install :=
  { disk := { entries :=
      [([], .dir), (["bin"], .dir), (["tmp"], .dir), (["bin", "valv"], .file ⟨"1.0.0", true⟩),
       (["bin", "valvd"], .file ⟨"1.0.0", true⟩), (["tmp", "valv.new"], .dir), (["tmp", "valvd.new"], .dir),
       (["tmp", "valv.new", "valv"], .file ⟨"1.1.0", false⟩),
       (["tmp", "valvd.new", "valvd"], .file ⟨"1.1.0", false⟩)] } }

/-- No call fails, and each restart does. -/
def restartFails : SwapEnv :=
  { fails := fun _ => false, spared := fun _ _ => false, restartError := fun _ => some "timeout", starts := fun _ => true,
    confirmError := fun _ => some "timeout" }

theorem sample_ready : (sample "valv").Ready sampleInstall.disk ∧ (sample "valvd").Ready sampleInstall.disk :=
  ⟨⟨rfl, rfl, .inl rfl, by decide, by decide⟩, rfl, rfl, .inl rfl, by decide, by decide⟩

theorem sample_plan : Plan ["bin"] (some (sample "valv")) (some (sample "valvd")) sampleInstall.disk := by
  refine ⟨fun c hc => ?_, fun c hc => ?_, fun c hc o ho => ?_⟩
  · cases hc
    exact ⟨⟨rfl, rfl, rfl⟩, sample_ready.1⟩
  · cases hc
    exact ⟨⟨rfl, rfl, rfl⟩, sample_ready.2⟩
  · cases hc
    cases ho
    unfold Component.Apart
    decide

theorem sample_update_is_undone :
    let p := installUpdate restartFails ["bin"] (some ["tmp", "valv.new"]) (some ["tmp", "valvd.new"])
    (∀ n, Moment (some (sample "valv")) (some (sample "valvd")) sampleInstall (p.stateAfter n sampleInstall)) ∧
      (p.runBody sampleInstall).2 = .error (.message "update failed and was rolled back: timeout") := by
  refine ⟨(update_is_all_or_nothing restartFails ["bin"] (some (sample "valv")) (some (sample "valvd")) sampleInstall
    sample_plan).1, ?_⟩
  decide +kernel

/-- A new daemon that starts and is never heard of has taken its backup away before the rollback comes to it. -/
example :
    ((installUpdate { restartFails with restartError := fun _ => none } ["bin"] (some ["tmp", "valv.new"])
      (some ["tmp", "valvd.new"])).runBody sampleInstall).2 =
      .error (.message (rollbackReport "timeout" (some (.message "failed to roll back valvd binary")))) := by
  decide +kernel

/-- **The daemon's update of itself**, statement by statement. -/
theorem swapAndRestart_ensures (env : SwapEnv) {c : Component} {s : Install} (hready : c.Ready s.disk) :
    (swapAndRestart env c.current c.backup c.staged c.extractDir).Ensures
      (fun t => Within c.paths s t ∧ (c.Safe t.disk ∨ t.disk.lstat c.current = some (.file c.enabled)))
      (fun _ t => t.disk.lstat c.current = some (.file c.enabled) ∧
        (t.disk.lstat c.backup = none ∨ env.Failed t.calls))
      (fun e t => c.Untouched t.disk ∨ env.Twice t.calls ∨
        e = .message "failed to trigger valvd restart after self-update" ∧ c.Replaced t.disk ∧
          env.Failed t.calls) s := by
  obtain ⟨hcb, -⟩ := hready.separate
  refine .bind (replaceBinary_ensures hready (fun t ht hsafe => ⟨ht, .inl hsafe⟩) (fun t ht hreplaced => ?_)
    (fun t ht huntouched _ => ?_) fun t e ht huntouched _ => ?_)
  · refine .bind (removeDirAll_ensures ⟨ht, .inl hreplaced.safe⟩ fun u hu => ?_)
    obtain ⟨hcurrent, hbackup⟩ := hu.beside hready
    have hu' := ht.trans hu.extracted
    have hdone : c.Replaced u.disk := ⟨hcurrent.trans hreplaced.1, hbackup.trans hreplaced.2⟩
    have hat : Within c.paths s u ∧ (c.Safe u.disk ∨ u.disk.lstat c.current = some (.file c.enabled)) :=
      ⟨hu', .inl hdone.safe⟩
    have hcount : Within c.paths s { u with calls := u.calls + 1 } :=
      ⟨hu'.disk, Nat.le_trans hu'.calls (Nat.le_succ _)⟩
    refine ⟨hat, .bind (restart_ensures hat (fun _ => ?_) fun w hw hbackup' => ?_)⟩
    case refine_2 =>
      -- the backup goes, or is gone
      have hw' : w.disk.lstat c.current = some (.file c.enabled) := (hw.current hready).trans hdone.1
      have hIw : Within c.paths s w ∧ (c.Safe w.disk ∨ w.disk.lstat c.current = some (.file c.enabled)) :=
        ⟨hu'.trans hw.restarted, .inr hw'⟩
      refine ⟨hIw, removeFile_ensures hIw fun x hx hgone => ?_⟩
      have hx' : x.disk.lstat c.current = some (.file c.enabled) := (hx.current hready).trans hw'
      refine ⟨⟨hIw.1.trans hx.restarted, .inr hx'⟩, hx', ?_⟩
      cases hgone with
      | inl hnone => exact .inl hnone
      | inr hstays =>
        obtain ⟨hsame, hrefused⟩ := hstays
        refine hrefused.imp (fun hunlink => ?_) id
        rw [hsame]
        cases hbackup' with
        | inl hnone => exact hnone
        | inr hthere =>
          rw [hthere, Disk.unlink, hdone.2] at hunlink
          cases hunlink
    case refine_1 =>
      -- the old binary comes back
      refine .bind (.bind (renameAtomic_ensures hdone.2 (.inr ⟨_, hdone.1⟩) (leads_of_lstat hdone.1) hcb.2 hcb.1 hat
        (fun hfails => ?_) fun d hold _ hsame => ?_))
      · have hfailed : env.Failed (u.calls + 1) := ⟨u.calls, Nat.lt_succ_self _, hfails⟩
        exact ⟨⟨hcount, hat.2⟩, .pure ⟨hcount, hat.2⟩ (.fail ⟨hcount, hat.2⟩ (.inr (.inr ⟨rfl, hdone, hfailed⟩)))⟩
      · have hwithin : Within c.paths s { disk := d, calls := u.calls + 1 } :=
          hu'.trans (within_called ⟨c.backup, by simp [Component.paths], List.prefix_rfl⟩
            ⟨c.current, by simp [Component.paths], List.prefix_rfl⟩ hsame)
        have hback : c.Untouched d := hold
        exact ⟨⟨hwithin, .inl hback.safe⟩, .pure ⟨hwithin, .inl hback.safe⟩
          (.fail ⟨hwithin, .inl hback.safe⟩ (.inl hback))⟩
  · exact .pure ⟨ht, .inl huntouched.safe⟩ (.inl huntouched)
  · have hsafe : c.Safe t.disk := huntouched.elim Component.Untouched.safe And.left
    refine removeDirAll_ensures ⟨ht, .inl hsafe⟩ fun u hu => ?_
    obtain ⟨hcurrent, hbackup⟩ := hu.beside hready
    have hkept : c.Safe u.disk := by
      rw [Component.Safe, Component.Untouched, hcurrent, hbackup]
      exact hsafe
    refine ⟨⟨ht.trans hu.extracted, .inl hkept⟩, huntouched.imp (fun h => ?_) fun h => ?_⟩
    · exact hcurrent.trans h
    · exact .inl (h.2.mono hu.calls)

/-- **The daemon's update of itself keeps a binary.**  At each moment of it, whatever fails, the old binary is in
place or kept under its other name, or the new one is in place.  When it returns, the new one is in place; when it
fails, the old one is, unless two calls of the file system have failed, or the restart and a call. -/
theorem self_update_keeps_a_binary (env : SwapEnv) (c : Component) (s : Install) (hready : c.Ready s.disk) :
    let p := swapAndRestart env c.current c.backup c.staged c.extractDir
    (∀ n, let t := p.stateAfter n s
      Within c.paths s t ∧ (c.Safe t.disk ∨ t.disk.lstat c.current = some (.file c.enabled))) ∧
      (∀ t, p.runBody s = (t, .ok ()) → t.disk.lstat c.current = some (.file c.enabled) ∧
        (t.disk.lstat c.backup = none ∨ env.Failed t.calls)) ∧
      ∀ t e, p.runBody s = (t, .error e) → c.Untouched t.disk ∨ env.Twice t.calls ∨
        e = .message "failed to trigger valvd restart after self-update" ∧ c.Replaced t.disk ∧ env.Failed t.calls := by
  intro p
  have h := swapAndRestart_ensures env hready
  exact ⟨h.always, fun t hrun => (h.of_runBody_ok hrun).2, fun t e hrun => (h.of_runBody_error hrun).2⟩

theorem sample_self_update_keeps_a_binary :
    let c := sample "valvd"
    let p := swapAndRestart restartFails c.current c.backup c.staged c.extractDir
    (∀ n, let t := p.stateAfter n sampleInstall
      Within c.paths sampleInstall t ∧ (c.Safe t.disk ∨ t.disk.lstat c.current = some (.file c.enabled))) ∧
      (p.runBody sampleInstall).2 = .error (.message "failed to trigger valvd restart after self-update") := by
  refine ⟨(self_update_keeps_a_binary restartFails (sample "valvd") sampleInstall sample_ready.2).1, ?_⟩
  decide +kernel

end Valv.Update
