import Valv.Lib.Text
import Valv.Update.Release
import Valv.Update.Swap

/-!
# The update of the daemon, from the download on

The daemon downloads a release, compares its hash with the one that is listed for it, verifies the signature of the
list, and unpacks it; then the binaries are swapped.  The network, the hash, the signature and `tar` are parameters.

* `checksumForAsset`: the hash that a list has for a file.
* `downloadRelease`: the downloads and their checks.
* `attemptSelfUpdate`: the whole update.
* `only_signed_binaries_take_over`: what it leaves, wherever it is stopped.
-/

namespace Valv.Update

open Valv.Conc Valv.Files Valv.Text

/-! ### The list of hashes -/

/-- `split_whitespace`. -/
def splitWhitespace (line : List Char) : List String :=
  ((line.splitOnP isWhitespace).filter fun word => !word.isEmpty).map String.ofList

/-- `checksum_for_asset`.  The end of a line is whitespace too. -/
def checksumForAsset (sha256sums asset : String) : Option String :=
  (sha256sums.toList.splitOn '\n').findSome? fun line =>
    match splitWhitespace line with
    | hash :: name :: _ => if name = asset || name = "*" ++ asset then some hash else none
    | _ => none

/-! ### The update -/

/-- What the update meets; files are told by values of a type. -/
structure ReleaseEnv (Bytes : Type) where
  os : String
  arch : String
  download : String → Except String Bytes
  fromUtf8 : Bytes → Option String
  sha256Hex : Bytes → String
  /-- The signature is one of the embedded key. -/
  signed : Bytes → Bytes → Bool
  extractDir : Path
  /-- `extract_tarball`: what it leaves, and its error. -/
  unpack : Bytes → Disk Binary → Disk Binary × Option String
  currentExe : Option Path

def detectTarget (os arch : String) : Except String String :=
  if os = "macos" && arch = "aarch64" then .ok "aarch64-apple-darwin"
  else if os = "linux" && arch = "x86_64" then .ok "x86_64-unknown-linux-gnu"
  else .error ("unsupported platform " ++ os ++ "/" ++ arch ++
    "; supported targets are macOS arm64 and Linux x86_64")

def componentAssetName (binaryName version target : String) : String :=
  binaryName ++ "-" ++ version ++ "-" ++ target ++ ".tar.gz"

def componentReleaseBase (repo : String) (component : ReleaseComponent) (version : String) : String :=
  "https://github.com/" ++ repo ++ "/releases/download/" ++ component.tagPrefix ++ version

section Attempt

variable {Bytes : Type} (rel : ReleaseEnv Bytes)

def verifyTarballChecksum (asset : String) (tarball sha256sums : Bytes) : Except String Unit :=
  match rel.fromUtf8 sha256sums with
  | none => .error "SHA256SUMS is not valid UTF-8"
  | some text =>
    match checksumForAsset text asset with
    | none => .error ("SHA256SUMS does not contain " ++ asset)
    | some expected =>
      let actual := rel.sha256Hex tarball
      if actual = expected then .ok ()
      else .error ("checksum mismatch for " ++ asset ++ ": expected " ++ expected ++ ", got " ++ actual)

/-- `attempt_self_update` until the tarball is unpacked: the name of the asset, and the tarball. -/
def downloadRelease (repo latestVersion : String) : Except String (String × Bytes) := do
  let target ← detectTarget rel.os rel.arch
  let asset := componentAssetName "valvd" latestVersion target
  let releaseBase := componentReleaseBase repo .valvd latestVersion
  let tarball ← rel.download (releaseBase ++ "/" ++ asset)
  let sha256sums ← rel.download (releaseBase ++ "/SHA256SUMS")
  let minisig ← rel.download (releaseBase ++ "/SHA256SUMS.minisig")
  verifyTarballChecksum rel asset tarball sha256sums
  if rel.signed sha256sums minisig then pure (asset, tarball)
  else throw "SHA256SUMS.minisig did not verify against SHA256SUMS"

/-- `extract_tarball`. -/
def extractTarball (tarball : Bytes) : SwapProc (Option String) :=
  .act (fun _ s => { s with disk := (rel.unpack tarball s.disk).1 }) fun s => pure (rel.unpack tarball s.disk).2

/-- `attempt_self_update`; `backup` is the name of the binary with the extension `old`. -/
def attemptSelfUpdate (env : SwapEnv) (backup : Path) (repo latestVersion : String) : SwapProc Unit :=
  match downloadRelease rel repo latestVersion with
  | .error e => .fail (.message e)
  | .ok (asset, tarball) => do
    match ← extractTarball rel tarball with
    | some e => .fail (.message e)
    | none =>
      let staged := rel.extractDir ++ ["valvd"]
      let found ← Proc.read fun s => s.disk.present staged
      if !found then do
        removeDirAll env rel.extractDir
        .fail (.message (asset ++ " did not contain valvd"))
      else
        match rel.currentExe with
        | none => .fail (.message "failed to determine current executable path")
        | some currentExe => swapAndRestart env currentExe backup staged rel.extractDir

end Attempt

/-! ### What is verified -/

section Verified

variable {Bytes : Type} {rel : ReleaseEnv Bytes} {repo version asset : String} {tarball sha256sums : Bytes}

/-- The tarball is the one of the version: it was downloaded under the version's name, its hash is in the release's
list, and the list has a good signature. -/
def ReleaseEnv.Verified (rel : ReleaseEnv Bytes) (repo version : String) (tarball : Bytes) : Prop :=
  ∃ target sha256sums minisig text, detectTarget rel.os rel.arch = .ok target ∧
    let asset := componentAssetName "valvd" version target
    let releaseBase := componentReleaseBase repo .valvd version
    rel.download (releaseBase ++ "/" ++ asset) = .ok tarball ∧
      rel.download (releaseBase ++ "/SHA256SUMS") = .ok sha256sums ∧
      rel.download (releaseBase ++ "/SHA256SUMS.minisig") = .ok minisig ∧
      rel.signed sha256sums minisig = true ∧ rel.fromUtf8 sha256sums = some text ∧
      checksumForAsset text asset = some (rel.sha256Hex tarball)

theorem verifyTarballChecksum_ok (h : verifyTarballChecksum rel asset tarball sha256sums = .ok ()) :
    ∃ text, rel.fromUtf8 sha256sums = some text ∧ checksumForAsset text asset = some (rel.sha256Hex tarball) := by
  rw [verifyTarballChecksum] at h
  cases htext : rel.fromUtf8 sha256sums with
  | none =>
    rw [htext] at h
    cases h
  | some text =>
    rw [htext] at h
    dsimp only at h
    cases hexpected : checksumForAsset text asset with
    | none =>
      rw [hexpected] at h
      cases h
    | some expected =>
      rw [hexpected] at h
      dsimp only at h
      split at h
      · next hsame => exact ⟨text, rfl, by rw [hexpected, hsame]⟩
      · cases h

theorem bind_eq_ok {α β : Type} {x : Except String α} {f : α → Except String β} {b : β} (h : (x >>= f) = .ok b) :
    ∃ a, x = .ok a ∧ f a = .ok b := by
  cases x with
  | error e => cases h
  | ok a => exact ⟨a, rfl, h⟩

/-- What is returned by the downloads is verified. -/
theorem verified_downloadRelease (h : downloadRelease rel repo version = .ok (asset, tarball)) :
    rel.Verified repo version tarball := by
  rw [downloadRelease] at h
  obtain ⟨target, htarget, h⟩ := bind_eq_ok h
  obtain ⟨tarball', htarball, h⟩ := bind_eq_ok h
  obtain ⟨sums, hsums, h⟩ := bind_eq_ok h
  obtain ⟨minisig, hminisig, h⟩ := bind_eq_ok h
  obtain ⟨_, hchecksum, h⟩ := bind_eq_ok h
  obtain ⟨text, htext, hlisted⟩ := verifyTarballChecksum_ok hchecksum
  split at h
  · next hsigned =>
    obtain rfl := (Prod.mk.inj (Except.ok.inj h)).2
    exact ⟨target, sums, minisig, text, htarget, htarball, hsums, hminisig, hsigned, htext, hlisted⟩
  · cases h

end Verified

/-! ### Where the update is stopped -/

section Attempted

variable {Bytes : Type} {rel : ReleaseEnv Bytes} {env : SwapEnv} {current backup : Path} {old : Binary} {s : Install}
  {repo version : String} {tarball : Bytes}

/-- The daemon's binary and what is to come. -/
def ReleaseEnv.component (rel : ReleaseEnv Bytes) (current backup : Path) (old new : Binary) : Component :=
  { current, backup, extractDir := rel.extractDir, name := "valvd", old, new }

/-- What unpacking does: nothing outside its directory, and what is then found as `valvd` is the tarball's file. -/
structure ReleaseEnv.Unpacks (rel : ReleaseEnv Bytes) (packed : Bytes → Option Binary) : Prop where
  within : ∀ tarball (d : Disk Binary) r, ¬ rel.extractDir <+: r → (rel.unpack tarball d).1.lstat r = d.lstat r
  staged : ∀ tarball (d : Disk Binary), (rel.unpack tarball d).2 = none →
    (rel.unpack tarball d).1.present (rel.extractDir ++ ["valvd"]) = true →
      ∃ new, packed tarball = some new ∧
        (rel.unpack tarball d).1.lstat (rel.extractDir ++ ["valvd"]) = some (.file new)

/-- How things are before the update: the old binary is in place, the name of the backup is free or has a file, and
the paths that the update uses are apart. -/
structure ReleaseEnv.Before (rel : ReleaseEnv Bytes) (current backup : Path) (old : Binary) (d : Disk Binary) :
    Prop where
  exe : rel.currentExe = none ∨ rel.currentExe = some current
  inPlace : d.lstat current = some (.file old)
  free : d.lstat backup = none ∨ ∃ b, d.lstat backup = some (.file b)
  leads : d.leads backup = true
  apart : [current, backup, rel.extractDir].Pairwise fun p q => ¬ p <+: q ∧ ¬ q <+: p

/-- A binary from a verified tarball. -/
def ReleaseEnv.Fresh (rel : ReleaseEnv Bytes) (packed : Bytes → Option Binary) (repo version : String)
    (new : Binary) : Prop :=
  ∃ tarball, rel.Verified repo version tarball ∧ packed tarball = some new

/-- At a moment of the update the daemon can be started again: the old binary is in place, or it makes way for a
fresh one and is kept until that is there. No other path has changed. -/
def ReleaseEnv.Moment (rel : ReleaseEnv Bytes) (packed : Bytes → Option Binary) (repo version : String)
    (current backup : Path) (old : Binary) (s t : Install) : Prop :=
  Within [current, backup, rel.extractDir] s t ∧ (t.disk.lstat current = some (.file old) ∨
    ∃ new, rel.Fresh packed repo version new ∧ ((rel.component current backup old new).Safe t.disk ∨
      t.disk.lstat current = some (.file { new with executable := true })))

/-- The unpacked binary is ready to be swapped in. -/
theorem ready_unpack {packed : Bytes → Option Binary} (hunpacks : rel.Unpacks packed)
    (hbefore : rel.Before current backup old s.disk) {new : Binary}
    (hstaged : (rel.unpack tarball s.disk).1.lstat (rel.extractDir ++ ["valvd"]) = some (.file new)) :
    (rel.component current backup old new).Ready (rel.unpack tarball s.disk).1 := by
  obtain ⟨-, hce, hbe⟩ := apart_of_pairwise hbefore.apart
  have hcurrent := hunpacks.within tarball s.disk current hce.2
  have hbackup := hunpacks.within tarball s.disk backup hbe.2
  constructor
  · exact hcurrent.trans hbefore.inPlace
  · exact hstaged
  · show (rel.unpack tarball s.disk).1.lstat backup = none ∨
      ∃ b, (rel.unpack tarball s.disk).1.lstat backup = some (.file b)
    rw [hbackup]
    exact hbefore.free
  · refine leads_congr hbefore.leads (hunpacks.within tarball s.disk _ fun hpre => ?_)
    exact hbe.2 (hpre.trans (List.dropLast_prefix backup))
  · exact hbefore.apart

/-- **The update**, statement by statement. -/
theorem attemptSelfUpdate_ensures (env : SwapEnv) {packed : Bytes → Option Binary} (hunpacks : rel.Unpacks packed)
    (hbefore : rel.Before current backup old s.disk) (repo version : String) :
    (attemptSelfUpdate rel env backup repo version).Ensures (rel.Moment packed repo version current backup old s)
      (fun _ t => ∃ new, rel.Fresh packed repo version new ∧
        t.disk.lstat current = some (.file { new with executable := true }))
      (fun e t => t.disk.lstat current = some (.file old) ∨ env.Twice t.calls ∨
        e = .message "failed to trigger valvd restart after self-update" ∧ env.Failed t.calls) s := by
  obtain ⟨-, hce, -⟩ := apart_of_pairwise hbefore.apart
  have hstart : rel.Moment packed repo version current backup old s s := ⟨.refl _ s, .inl hbefore.inPlace⟩
  rw [attemptSelfUpdate]
  cases hdownload : downloadRelease rel repo version with
  | error e => exact .fail hstart (.inl hbefore.inPlace)
  | ok release =>
    obtain ⟨asset, tarball⟩ := release
    have hverified := verified_downloadRelease hdownload
    -- unpacking leaves the binary alone
    have hwithin : ∀ {t : Install}, Within [rel.extractDir] { s with disk := (rel.unpack tarball s.disk).1 } t →
        Within [current, backup, rel.extractDir] s t ∧ t.disk.lstat current = some (.file old) := by
      intro t ht
      have hout : ∀ r, (∀ p ∈ [rel.extractDir], ¬ p <+: r) →
          (rel.unpack tarball s.disk).1.lstat r = s.disk.lstat r := by
        intro r hr
        exact hunpacks.within tarball s.disk r (hr rel.extractDir (by simp))
      have hall : Within [rel.extractDir] s t := ⟨fun r hr => (ht.disk r hr).trans (hout r hr), ht.calls⟩
      refine ⟨hall.mono (by simp), (hall.disk current fun p hp => ?_).trans hbefore.inPlace⟩
      rw [List.mem_singleton.mp hp]
      exact hce.2
    obtain ⟨hunpacked, hcurrent⟩ := hwithin (.refl _ _)
    have hmoment : rel.Moment packed repo version current backup old s
        { s with disk := (rel.unpack tarball s.disk).1 } := ⟨hunpacked, .inl hcurrent⟩
    refine .bind (.act hstart hmoment ?_)
    cases hresult : (rel.unpack tarball s.disk).2 with
    | some e => exact .fail hmoment (.inl hcurrent)
    | none =>
      refine .bind (.read hmoment ?_)
      cases hfound : (rel.unpack tarball s.disk).1.present (rel.extractDir ++ ["valvd"]) with
      | false =>
        -- the tarball has no such file
        refine .bind (removeDirAll_ensures hmoment fun t ht => ?_)
        obtain ⟨hremoved, hcurrent'⟩ := hwithin ht
        exact ⟨⟨hremoved, .inl hcurrent'⟩, .fail ⟨hremoved, .inl hcurrent'⟩ (.inl hcurrent')⟩
      | true =>
        obtain ⟨new, hpacked, hstaged⟩ := hunpacks.staged tarball s.disk hresult hfound
        have hfresh : rel.Fresh packed repo version new := ⟨tarball, hverified, hpacked⟩
        rcases hbefore.exe with hexe | hexe
        · rw [hexe]
          exact .fail hmoment (.inl hcurrent)
        · rw [hexe]
          have hswap := swapAndRestart_ensures env (s := { s with disk := (rel.unpack tarball s.disk).1 })
            (ready_unpack hunpacks hbefore hstaged)
          refine hswap.mono (fun t ht => ?_) (fun _ t _ ht => ?_) fun e t _ ht => ?_
          · exact ⟨hunpacked.trans ht.1, .inr ⟨new, hfresh, ht.2⟩⟩
          · exact ⟨new, hfresh, ht.1⟩
          · refine ht.imp_right fun hfailed => hfailed.imp_right fun hrestart => ?_
            exact ⟨hrestart.1, hrestart.2.2⟩

end Attempted

/-- **Only signed binaries take over.**  At each moment of an update, whatever the network, the disk and the restart
do, the binary of the daemon is the old one, or the old one is kept under its other name or has made way for a binary
out of a tarball whose hash is in a list with a valid signature; nothing else has changed but the directory of the
download.  When the update returns, such a binary is in place; when it fails, the old one is, unless two calls of the
file system have failed, or the restart and a call. -/
theorem only_signed_binaries_take_over {Bytes : Type} (rel : ReleaseEnv Bytes) (packed : Bytes → Option Binary)
    (hunpacks : rel.Unpacks packed) (env : SwapEnv) (current backup : Path) (old : Binary) (s : Install)
    (hbefore : rel.Before current backup old s.disk) (repo version : String) :
    let p := attemptSelfUpdate rel env backup repo version
    (∀ n, rel.Moment packed repo version current backup old s (p.stateAfter n s)) ∧
      (∀ t, p.runBody s = (t, .ok ()) → ∃ new, rel.Fresh packed repo version new ∧
        t.disk.lstat current = some (.file { new with executable := true })) ∧
      ∀ t e, p.runBody s = (t, .error e) → t.disk.lstat current = some (.file old) ∨ env.Twice t.calls ∨
        e = .message "failed to trigger valvd restart after self-update" ∧ env.Failed t.calls := by
  intro p
  have h := attemptSelfUpdate_ensures env hunpacks hbefore repo version
  exact ⟨h.always, fun t hrun => (h.of_runBody_ok hrun).2, fun t e hrun => (h.of_runBody_error hrun).2⟩

/-- A tarball with one file, unpacked to an empty directory. -/
def unpackOne (dir : Path) (new : Binary) (d : Disk Binary) : Disk Binary × Option String :=
  match (d.prune dir).mkdir dir with
  | none => (d.prune dir, some "failed to create the directory")
  | some made =>
    match made.create (dir ++ ["valvd"]) new with
    | none => (d.prune dir, some "tar extraction failed")
    | some d' => (d', none)

theorem lstat_unpackOne {dir : Path} {new : Binary} {d : Disk Binary} :
    (∀ r, ¬ dir <+: r → (unpackOne dir new d).1.lstat r = d.lstat r) ∧
      ((unpackOne dir new d).2 = none → (unpackOne dir new d).1.lstat (dir ++ ["valvd"]) = some (.file new)) := by
  have hpruned : ∀ r, ¬ dir <+: r → (d.prune dir).lstat r = d.lstat r := by
    intro r hr
    exact lstat_prune.trans (if_neg hr)
  rw [unpackOne]
  cases hmade : (d.prune dir).mkdir dir with
  | none => exact ⟨hpruned, fun he => by cases he⟩
  | some made =>
    dsimp only
    cases hcreated : made.create (dir ++ ["valvd"]) new with
    | none => exact ⟨hpruned, fun he => by cases he⟩
    | some d' =>
      refine ⟨fun r hr => ?_, fun _ => ?_⟩
      · have hne : r ≠ dir ++ ["valvd"] := fun he => hr (he ▸ List.prefix_append _ _)
        have hne' : r ≠ dir := fun he => hr (he ▸ List.prefix_rfl)
        rw [(lstat_create hcreated).1, if_neg hne, (lstat_mkdir hmade).1, if_neg hne']
        exact hpruned r hr
      · rw [(lstat_create hcreated).1, if_pos rfl]

/-- A release with a list and its signature. -/
def sampleRelease : ReleaseEnv String where
  os := "linux"
  arch := "x86_64"
  download url :=
    let releaseBase := "https://github.com/DRNKNDev/valv/releases/download/valvd-v1.1.0"
    if url = releaseBase ++ "/SHA256SUMS" then .ok "d2a84f  *valvd-1.1.0-x86_64-unknown-linux-gnu.tar.gz\n"
    else if url = releaseBase ++ "/SHA256SUMS.minisig" then .ok "signature"
    else .ok "tarball"
  fromUtf8 := some
  sha256Hex _ := "d2a84f"
  signed _ minisig := minisig = "signature"
  extractDir := ["tmp", "valvd.new"]
  unpack _ := unpackOne ["tmp", "valvd.new"] ⟨"1.1.0", false⟩
  currentExe := some ["bin", "valvd"]

theorem sample_release_takes_over :
    let env : SwapEnv := { fails := fun _ => false, spared := fun _ _ => false, restartError := fun _ => none,
                           starts := fun _ => true, confirmError := fun _ => none }
    let p := attemptSelfUpdate sampleRelease env ["bin", "valvd.old"] "DRNKNDev/valv" "1.1.0"
    (∀ n, sampleRelease.Moment (fun _ => some ⟨"1.1.0", false⟩) "DRNKNDev/valv" "1.1.0" ["bin", "valvd"]
      ["bin", "valvd.old"] ⟨"1.0.0", true⟩ sampleInstall (p.stateAfter n sampleInstall)) ∧
      (p.runBody sampleInstall).2 = .ok () := by
  intro env p
  refine ⟨(only_signed_binaries_take_over sampleRelease (fun _ => some ⟨"1.1.0", false⟩)
    ⟨fun _ _ r hr => lstat_unpackOne.1 r hr, fun _ _ hdone _ => ⟨_, rfl, lstat_unpackOne.2 hdone⟩⟩ env
    ["bin", "valvd"] ["bin", "valvd.old"] ⟨"1.0.0", true⟩ sampleInstall ⟨.inr rfl, rfl, .inl rfl, by decide, by decide⟩
    "DRNKNDev/valv" "1.1.0").1, ?_⟩
  decide +kernel

end Valv.Update
