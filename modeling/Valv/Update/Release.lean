import Mathlib.Data.List.Lex
import Mathlib.Data.List.MinMax
import Mathlib.Tactic.Common

/-!
# Which release is the latest

The releases of a repository are listed page by page, and the first highest version of a component is taken.  The
daemon asks for it again and again, and replaces its binary when the version is newer than its own.

* `parseSemverPrefix`, `isNewerVersion`: versions and their order.
* `resolveLatestVersionFrom`: the listing, with its errors.
* `latest_version_is_highest`: what a listing resolves to.
* `pollUpdateStatusOnce`: one poll of the daemon.
* `self_updates_go_up`: what any number of polls does.
-/

namespace Valv.Update

/-! ### Versions -/

/-- `parse` of a `u64`: digits behind at most one plus sign. -/
def parseU64 (s : List Char) : Option ℕ :=
  let digits := if s.head? = some '+' then s.tail else s
  if digits.isEmpty || !digits.all Char.isDigit then none
  else
    let n := digits.foldl (fun n c => 10 * n + (c.toNat - '0'.toNat)) 0
    if n < UInt64.size then some n else none

/-- The three numbers of a version, in the order of their weight. -/
def parseSemverPrefix (version : String) : Option (List ℕ) :=
  let core := (version.toList.splitOnP fun c => c = '-' || c = '+').headD version.toList
  match core.splitOn '.' with
  | [major, minor, patch] => do
    let major ← parseU64 major
    let minor ← parseU64 minor
    let patch ← parseU64 patch
    pure [major, minor, patch]
  | _ => none

def isNewerVersion (candidate current : String) : Bool :=
  match parseSemverPrefix candidate, parseSemverPrefix current with
  | some candidate, some current => current < candidate
  | _, _ => false

/-! ### The listing -/

inductive ReleaseComponent where
  | cli
  | valvd
  deriving DecidableEq, Repr

def ReleaseComponent.tagPrefix : ReleaseComponent → String
  | .cli => "cli-v"
  | .valvd => "valvd-v"

def releasesPageSize : ℕ := 100

def maxReleasesPages : ℕ := 20

/-- An answer to the request of a page. -/
inductive ListingAnswer where
  | unsent
  /-- A status that is no success. -/
  | refused (status : String)
  | unreadable
  | releases (tagNames : List String)
  deriving DecidableEq, Repr

/-- What the loop has found so far: a version with its numbers. -/
abbrev BestRelease := Option (List ℕ × String)

/-- `strip_prefix`. -/
def stripTagPrefix (component : ReleaseComponent) (tagName : String) : Option String :=
  if component.tagPrefix.toList <+: tagName.toList then
    some (String.ofList (tagName.toList.drop component.tagPrefix.length))
  else none

/-- The body of the loop over the releases of a page. -/
def considerRelease (component : ReleaseComponent) (best : BestRelease) (tagName : String) : BestRelease :=
  match stripTagPrefix component tagName with
  | none => best
  | some version =>
    if version.isEmpty then best
    else
      match parseSemverPrefix version with
      | none => best
      | some parsed => if best.all fun current => current.1 < parsed then some (parsed, version) else best

def listingUrl (apiBase repo : String) (page : ℕ) : String :=
  apiBase ++ "/repos/" ++ repo ++ "/releases?per_page=" ++ toString releasesPageSize ++ "&page=" ++ toString page

section Listing

variable (apiBase repo : String) (component : ReleaseComponent) (answer : ℕ → ListingAnswer)

/-- The loop over the pages, with the number of pages that are left. -/
def listReleases : ℕ → ℕ → BestRelease → Except String BestRelease
  | 0, _, best => .ok best
  | left + 1, page, best =>
    match answer page with
    | .unsent => .error ("failed to list releases from " ++ listingUrl apiBase repo page)
    | .refused status => .error ("GitHub releases listing for " ++ repo ++ " returned " ++ status)
    | .unreadable => .error "failed to parse GitHub releases listing response"
    | .releases tagNames =>
      let best := tagNames.foldl (considerRelease component) best
      if tagNames.length < releasesPageSize then .ok best else listReleases left (page + 1) best

/-- `pinned` is the value of the variable of the environment, if it is set. -/
def resolveLatestVersionFrom (pinned : Option String) : Except String String :=
  match pinned.filter fun version => !version.isEmpty with
  | some version => .ok (String.ofList (version.toList.dropWhile (· = 'v')))
  | none =>
    match listReleases apiBase repo component answer maxReleasesPages 1 none with
    | .error e => .error e
    | .ok none => .error ("no " ++ component.tagPrefix ++ "* release found for " ++ repo)
    | .ok (some best) => .ok best.2

end Listing

/-- The answers of a repository with these tags, from page 1 on. -/
def pagesOf (tagNames : List String) (page : ℕ) : ListingAnswer :=
  .releases ((tagNames.drop (releasesPageSize * (page - 1))).take releasesPageSize)

/-- The version that a tag stands for, if the loop does not skip it. -/
def versionOf (component : ReleaseComponent) (tagName : String) : Option String :=
  (stripTagPrefix component tagName).filter fun version => !version.isEmpty && (parseSemverPrefix version).isSome

/-- The versions of a component, in the order of their tags. -/
def versionsOf (component : ReleaseComponent) (tagNames : List String) : List String :=
  tagNames.filterMap (versionOf component)

section Order

variable {component : ReleaseComponent} {tagNames : List String} {a b c version : String}

/-! ### The order of versions -/

theorem isNewerVersion_iff : isNewerVersion a b = true ↔
    ∃ p q, parseSemverPrefix a = some p ∧ parseSemverPrefix b = some q ∧ q < p := by
  rw [isNewerVersion]
  cases parseSemverPrefix a with
  | none => simp
  | some p =>
    cases parseSemverPrefix b with
    | none => simp
    | some q => simp

theorem isNewerVersion_trans (hab : isNewerVersion a b = true) (hbc : isNewerVersion b c = true) :
    isNewerVersion a c = true := by
  obtain ⟨p, q, hp, hq, hlt⟩ := isNewerVersion_iff.mp hab
  obtain ⟨q', r, hq', hr, hlt'⟩ := isNewerVersion_iff.mp hbc
  rw [hq] at hq'
  cases hq'
  exact isNewerVersion_iff.mpr ⟨p, r, hp, hr, hlt'.trans hlt⟩

/-- The numbers of a version. -/
def numbers (version : String) : List ℕ := (parseSemverPrefix version).getD []

/-- Of two versions with numbers, either the first is newer or its numbers are at most those of the second. -/
theorem isNewerVersion_eq_false_iff (ha : (parseSemverPrefix a).isSome = true)
    (hb : (parseSemverPrefix b).isSome = true) : isNewerVersion a b = false ↔ numbers a ≤ numbers b := by
  obtain ⟨p, hp⟩ := Option.isSome_iff_exists.mp ha
  obtain ⟨q, hq⟩ := Option.isSome_iff_exists.mp hb
  simp [isNewerVersion, numbers, hp, hq]

theorem parse_of_mem (h : version ∈ versionsOf component tagNames) : (parseSemverPrefix version).isSome = true := by
  obtain ⟨tagName, -, htag⟩ := List.mem_filterMap.mp h
  obtain ⟨-, hversion⟩ := Option.filter_eq_some_iff.mp htag
  rw [Bool.and_eq_true] at hversion
  exact hversion.2

/-! ### What the loops find -/

/-- The best release is the first highest of the versions. -/
def bestOf (versions : List String) : BestRelease :=
  (versions.argmax numbers).map fun version => (numbers version, version)

theorem bestOf_concat (versions : List String) (version : String) : bestOf (versions ++ [version]) =
    if (bestOf versions).all fun current => current.1 < numbers version then some (numbers version, version)
    else bestOf versions := by
  rw [bestOf, bestOf, List.argmax_concat]
  rcases Option.eq_none_or_eq_some (versions.argmax numbers) with hnone | ⟨best, hbest⟩
  · simp [hnone]
  · by_cases hlt : numbers best < numbers version
    · simp [hbest, hlt]
    · simp [hbest, hlt]

theorem considerRelease_bestOf (versions : List String) (tagName : String) :
    considerRelease component (bestOf versions) tagName =
      bestOf (versions ++ (versionOf component tagName).toList) := by
  rw [considerRelease, versionOf]
  cases stripTagPrefix component tagName with
  | none => simp
  | some version =>
    by_cases hempty : version.isEmpty = true
    · simp [Option.filter_some, hempty]
    · cases hparsed : parseSemverPrefix version with
      | none => simp [Option.filter_some, hempty, hparsed]
      | some parsed =>
        have hnumbers : numbers version = parsed := by rw [numbers, hparsed, Option.getD_some]
        simp [Option.filter_some, hempty, hparsed, bestOf_concat, hnumbers]

theorem foldl_considerRelease (versions tagNames : List String) :
    tagNames.foldl (considerRelease component) (bestOf versions) =
      bestOf (versions ++ versionsOf component tagNames) := by
  induction tagNames generalizing versions with
  | nil => simp [versionsOf]
  | cons tagName tagNames ih =>
    rw [List.foldl_cons, considerRelease_bestOf, ih, versionsOf, versionsOf, List.filterMap_cons, List.append_assoc]
    cases versionOf component tagName with
    | none => rfl
    | some version => rfl

/-- The pages that are left of a repository. -/
theorem listReleases_pagesOf (apiBase repo : String) (tagNames versions : List String) (left page : ℕ) :
    listReleases apiBase repo component (pagesOf tagNames) left (page + 1) (bestOf versions) =
      .ok (bestOf (versions ++ versionsOf component
        ((tagNames.drop (releasesPageSize * page)).take (releasesPageSize * left)))) := by
  induction left generalizing page versions with
  | zero => simp [listReleases, versionsOf]
  | succ left ih =>
    rw [listReleases, pagesOf, Nat.add_sub_cancel]
    dsimp only
    rw [foldl_considerRelease]
    split
    · next hshort =>
      -- the page is the last one: nothing is behind it
      rw [List.length_take, List.length_drop] at hshort
      have hall : (tagNames.drop (releasesPageSize * page)).length ≤ releasesPageSize := by
        rw [List.length_drop]
        omega
      rw [List.take_of_length_le hall, List.take_of_length_le (hall.trans (Nat.le_mul_of_pos_right _ (by omega)))]
    · rw [ih, List.append_assoc]
      congr 3
      rw [versionsOf, versionsOf, versionsOf, ← List.filterMap_append, Nat.mul_succ, Nat.mul_succ, Nat.add_comm
        (releasesPageSize * left), List.take_add, List.drop_drop]

/-- What the listing of a repository resolves to. -/
theorem resolve_pagesOf (apiBase repo : String) (component : ReleaseComponent) (tagNames : List String)
    (pinned : Option String) (hunpinned : pinned.all String.isEmpty = true) :
    resolveLatestVersionFrom apiBase repo component (pagesOf tagNames) pinned =
      match (versionsOf component (tagNames.take (releasesPageSize * maxReleasesPages))).argmax numbers with
      | none => .error ("no " ++ component.tagPrefix ++ "* release found for " ++ repo)
      | some version => .ok version := by
  have hpinned : pinned.filter (fun version => !version.isEmpty) = none := by
    cases pinned with
    | none => rfl
    | some version =>
      rw [Option.all_some] at hunpinned
      rw [Option.filter_some, hunpinned]
      rfl
  have hlisted : listReleases apiBase repo component (pagesOf tagNames) maxReleasesPages 1 none =
      .ok (bestOf (versionsOf component (tagNames.take (releasesPageSize * maxReleasesPages)))) :=
    listReleases_pagesOf apiBase repo tagNames [] maxReleasesPages 0
  rw [resolveLatestVersionFrom, hpinned]
  dsimp only
  rw [hlisted, bestOf]
  cases (versionsOf component (tagNames.take (releasesPageSize * maxReleasesPages))).argmax numbers with
  | none => rfl
  | some version => rfl

end Order

/-- **The highest version is found.**  Of a repository whose listing does not change meanwhile, the resolved version
is one of the first 2000 tags' of the component, none of these is newer, and it is the first of those that are as
high; there is an error exactly if no tag among them has a version. -/
theorem latest_version_is_highest (apiBase repo : String) (component : ReleaseComponent) (tagNames : List String)
    (pinned : Option String) (hunpinned : pinned.all String.isEmpty = true) :
    let versions := versionsOf component (tagNames.take (releasesPageSize * maxReleasesPages))
    let resolved := resolveLatestVersionFrom apiBase repo component (pagesOf tagNames) pinned
    (∀ version, resolved = .ok version ↔ version ∈ versions ∧
      (∀ v ∈ versions, isNewerVersion v version = false) ∧
      ∀ v ∈ versions, isNewerVersion version v = false → versions.idxOf version ≤ versions.idxOf v) ∧
      ∀ e, resolved = .error e ↔
        versions = [] ∧ e = "no " ++ component.tagPrefix ++ "* release found for " ++ repo := by
  intro versions resolved
  have hresolved := resolve_pagesOf apiBase repo component tagNames pinned hunpinned
  change resolved = _ at hresolved
  constructor
  · intro version
    have hmax : resolved = .ok version ↔ versions.argmax numbers = some version := by
      rw [hresolved]
      cases versions.argmax numbers with
      | none => simp
      | some best => simp
    have hfirst : versions.argmax numbers = some version ↔ version ∈ versions ∧
        (∀ v ∈ versions, numbers v ≤ numbers version) ∧
        ∀ v ∈ versions, numbers version ≤ numbers v → versions.idxOf version ≤ versions.idxOf v := by
      convert List.argmax_eq_some_iff
    rw [hmax, hfirst]
    refine and_congr_right fun hmem => and_congr ?_ ?_
    · refine forall₂_congr fun v hv => ?_
      exact (isNewerVersion_eq_false_iff (parse_of_mem hv) (parse_of_mem hmem)).symm
    · refine forall₂_congr fun v hv => ?_
      rw [isNewerVersion_eq_false_iff (parse_of_mem hmem) (parse_of_mem hv)]
  · intro e
    rw [← List.argmax_eq_none (f := numbers), hresolved]
    cases versions.argmax numbers with
    | none => simp [eq_comm]
    | some best => simp

/-- The highest version is neither the first nor the last of the listing. -/
theorem sample_latest_version :
    resolveLatestVersionFrom "https://api.github.com" "test/repo" .cli
      (pagesOf ["valvd-v0.5.0", "cli-v0.3.1", "cli-v0.4.0", "cli-v0.2.9"]) none = .ok "0.4.0" :=
  ((latest_version_is_highest "https://api.github.com" "test/repo" .cli _ none rfl).1 "0.4.0").mpr
    ⟨by decide, by decide, by decide⟩

/-! ### The polls of the daemon -/

structure UpdateStatus where
  latestVersion : Option String := none
  updateAvailable : Option Bool := none
  deriving DecidableEq, Repr

def applyUpdateCheckOutcome (status : UpdateStatus) (outcome : Except String String) (runningVersion : String) :
    UpdateStatus :=
  match outcome with
  | .ok latestVersion =>
    { latestVersion := some latestVersion, updateAvailable := some (isNewerVersion latestVersion runningVersion) }
  | .error _ => status

def shouldAttemptSelfUpdate (noSelfUpdateEnv : Option String) : Bool := noSelfUpdateEnv ≠ some "1"

/-- What a poll meets. -/
structure UpdatePoll where
  answer : ℕ → ListingAnswer
  /-- `VALVD_VERSION`. -/
  pinned : Option String := none
  appManaged : Bool := true
  noSelfUpdateEnv : Option String := none
  /-- The new binary is downloaded, verified, swapped in and started. -/
  installs : Bool := true

structure UpdatingDaemon where
  runningVersion : String
  status : UpdateStatus := {}
  deriving DecidableEq, Repr

/-- `poll_update_status_once`.  A daemon that was replaced begins anew; its binary has the version of its tag, without
which the release workflow builds none. -/
def pollUpdateStatusOnce (st : UpdatingDaemon) (poll : UpdatePoll) : UpdatingDaemon :=
  let outcome := resolveLatestVersionFrom "https://api.github.com" "DRNKNDev/valv" .valvd poll.answer poll.pinned
  let polled := { st with status := applyUpdateCheckOutcome st.status outcome st.runningVersion }
  match outcome with
  | .error _ => polled
  | .ok latestVersion =>
    if !isNewerVersion latestVersion st.runningVersion then polled
    else if !poll.appManaged then polled
    else if !shouldAttemptSelfUpdate poll.noSelfUpdateEnv then polled
    else if poll.installs then { runningVersion := latestVersion }
    else polled

/-- The polls one after the other. -/
def pollUpdateStatus : UpdatingDaemon → List UpdatePoll → UpdatingDaemon := List.foldl pollUpdateStatusOnce

/-- A poll that replaces the daemon when it finds a newer version. -/
structure UpdatePoll.Unhindered (poll : UpdatePoll) : Prop where
  unpinned : poll.pinned.all String.isEmpty = true
  appManaged : poll.appManaged = true
  wanted : shouldAttemptSelfUpdate poll.noSelfUpdateEnv = true
  installs : poll.installs = true

/-- What the daemon reports is about the version that it runs. -/
def UpdatingDaemon.Honest (st : UpdatingDaemon) : Prop :=
  ∀ available, st.status.updateAvailable = some available →
    ∃ latest, st.status.latestVersion = some latest ∧ available = isNewerVersion latest st.runningVersion

section Polls

variable {st : UpdatingDaemon}

/-- **One poll**: the daemon stays, or the version that it found is newer and is run from now on. -/
theorem poll_cases (st : UpdatingDaemon) (poll : UpdatePoll) :
    (∃ outcome, pollUpdateStatusOnce st poll =
      { st with status := applyUpdateCheckOutcome st.status outcome st.runningVersion }) ∨
    ∃ latest, isNewerVersion latest st.runningVersion = true ∧
      pollUpdateStatusOnce st poll = { runningVersion := latest } := by
  rw [pollUpdateStatusOnce]
  cases resolveLatestVersionFrom "https://api.github.com" "DRNKNDev/valv" .valvd poll.answer poll.pinned with
  | error e => exact .inl ⟨.error e, rfl⟩
  | ok latest =>
    dsimp only
    split
    · exact .inl ⟨.ok latest, rfl⟩
    · next hnewer =>
      split
      · exact .inl ⟨.ok latest, rfl⟩
      split
      · exact .inl ⟨.ok latest, rfl⟩
      split
      · refine .inr ⟨latest, ?_, rfl⟩
        simpa using hnewer
      · exact .inl ⟨.ok latest, rfl⟩

theorem honest_poll (h : st.Honest) (poll : UpdatePoll) : (pollUpdateStatusOnce st poll).Honest := by
  rcases poll_cases st poll with ⟨outcome, heq⟩ | ⟨latest, -, heq⟩
  · rw [heq]
    cases outcome with
    | error e => exact h
    | ok latest =>
      intro available havailable
      exact ⟨latest, rfl, (Option.some.inj havailable).symm⟩
  · rw [heq]
    intro available havailable
    cases havailable

theorem newer_poll (st : UpdatingDaemon) (poll : UpdatePoll) :
    (pollUpdateStatusOnce st poll).runningVersion = st.runningVersion ∨
      isNewerVersion (pollUpdateStatusOnce st poll).runningVersion st.runningVersion = true := by
  rcases poll_cases st poll with ⟨outcome, heq⟩ | ⟨latest, hnewer, heq⟩
  · left
    rw [heq]
  · right
    rw [heq]
    exact hnewer

/-- An unhindered poll leaves no newer version behind. -/
theorem highest_poll (st : UpdatingDaemon) {poll : UpdatePoll} (hpoll : poll.Unhindered) {tagNames : List String}
    (hanswer : poll.answer = pagesOf tagNames) {version : String}
    (hversion : version ∈ versionsOf .valvd (tagNames.take (releasesPageSize * maxReleasesPages))) :
    isNewerVersion version (pollUpdateStatusOnce st poll).runningVersion = false := by
  rw [pollUpdateStatusOnce, hanswer, resolve_pagesOf _ _ _ _ _ hpoll.unpinned]
  generalize hversions : versionsOf .valvd (tagNames.take (releasesPageSize * maxReleasesPages)) = versions
    at hversion ⊢
  have hparsed : ∀ v ∈ versions, (parseSemverPrefix v).isSome = true := by
    intro v hv
    rw [← hversions] at hv
    exact parse_of_mem hv
  rcases Option.eq_none_or_eq_some (versions.argmax numbers) with hnone | ⟨latest, hmax⟩
  · rw [List.argmax_eq_none.mp hnone] at hversion
    exact absurd hversion List.not_mem_nil
  have hlatest := hparsed latest (List.argmax_mem hmax)
  have hle : isNewerVersion version latest = false :=
    (isNewerVersion_eq_false_iff (hparsed version hversion) hlatest).mpr
      (not_lt.mp (List.not_lt_of_mem_argmax hversion hmax))
  rw [hmax]
  dsimp only
  cases hnewer : isNewerVersion latest st.runningVersion with
  | true =>
    simp only [hpoll.appManaged, hpoll.wanted, hpoll.installs, Bool.not_true, Bool.false_eq_true, if_false, if_true]
    exact hle
  | false =>
    -- what is newer than the daemon's version is newer than the highest one
    simp only [Bool.not_false, if_true]
    rw [Bool.eq_false_iff]
    intro hversion'
    obtain ⟨p, q, hp, hq, hlt⟩ := isNewerVersion_iff.mp hversion'
    have hrunning : (parseSemverPrefix st.runningVersion).isSome = true := by rw [hq, Option.isSome_some]
    have hlatestLe := (isNewerVersion_eq_false_iff hlatest hrunning).mp hnewer
    have hversionLe := (isNewerVersion_eq_false_iff (hparsed version hversion) hlatest).mp hle
    have hboth : numbers version ≤ numbers st.runningVersion := hversionLe.trans hlatestLe
    rw [numbers, numbers, hp, hq] at hboth
    exact absurd hlt (not_lt.mpr hboth)

/-! ### Any number of polls -/

theorem honest_polls (h : st.Honest) (polls : List UpdatePoll) : (pollUpdateStatus st polls).Honest := by
  induction polls generalizing st with
  | nil => exact h
  | cons poll polls ih => exact ih (honest_poll h poll)

theorem newer_polls (st : UpdatingDaemon) (polls : List UpdatePoll) :
    (pollUpdateStatus st polls).runningVersion = st.runningVersion ∨
      isNewerVersion (pollUpdateStatus st polls).runningVersion st.runningVersion = true := by
  induction polls generalizing st with
  | nil => exact .inl rfl
  | cons poll polls ih =>
    have hlater := ih (pollUpdateStatusOnce st poll)
    change (pollUpdateStatus (pollUpdateStatusOnce st poll) polls).runningVersion = _ ∨ isNewerVersion
      (pollUpdateStatus (pollUpdateStatusOnce st poll) polls).runningVersion _ = true
    rcases newer_poll st poll with hsame | hup
    · rw [hsame] at hlater
      exact hlater
    · right
      rcases hlater with hlast | hlast
      · rw [hlast]
        exact hup
      · exact isNewerVersion_trans hlast hup

end Polls

/-- **Self-updates go up.**  Whatever the listings, the pins and the failures of its polls were, a daemon runs the
version it ran before or a newer one, so it never comes back to a version it has left; it reports about the version
that it runs; and an unhindered poll leaves it with a version than which none of the first 2000 tags' is newer. -/
theorem self_updates_go_up (firstVersion : String) (polls later : List UpdatePoll) :
    let before := pollUpdateStatus { runningVersion := firstVersion } polls
    let after := pollUpdateStatus before later
    (after.runningVersion = before.runningVersion ∨
      isNewerVersion after.runningVersion before.runningVersion = true) ∧ after.Honest ∧
      ∀ (poll : UpdatePoll) (tagNames : List String), poll.Unhindered → poll.answer = pagesOf tagNames →
        ∀ version ∈ versionsOf .valvd (tagNames.take (releasesPageSize * maxReleasesPages)),
          isNewerVersion version (pollUpdateStatusOnce after poll).runningVersion = false := by
  intro before after
  refine ⟨newer_polls before later, honest_polls (honest_polls ?_ polls) later, ?_⟩
  · intro available havailable
    cases havailable
  · exact fun poll tagNames hpoll hanswer version => highest_poll after hpoll hanswer

/-- A pin to a lower version holds the daemon back for one poll only. -/
example :
    let pages := pagesOf ["cli-v0.5.0", "valvd-v0.3.1", "valvd-v0.4.0"]
    (pollUpdateStatus { runningVersion := "0.3.1" } [{ answer := pages, pinned := some "v0.2.0" },
      { answer := pages }]).runningVersion = "0.4.0" := by decide

end Valv.Update
