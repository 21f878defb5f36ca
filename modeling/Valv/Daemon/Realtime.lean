import Valv.Daemon.SyncLoop
import Mathlib.Order.Lattice
import Mathlib.Order.Defs.LinearOrder

/-!
# Commits on their way to a mirror

A commit is told to the sockets of a folder, the socket's frames are put in the channel of the mount, and the sync
loop pulls.  Sockets break and connect again, the loop pauses and fails, and commits come at any time.

* `Realtime.step`: the server's head, the socket, `connect_and_forward` and the sync loop.
* `Realtime.OnTheWay`: something on the way will make the loop pull what it has not seen.
* `Realtime.StepOk`: the condition on a step.
* `commits_stay_on_the_way`: every run.
-/

namespace Valv.Daemon

/-! ### State -/

/-- Where `ws_push_loop` is with its connection to the hub. The three places are told apart because a commit reaches
the mount in a different way at each of them: by the catch-up that is still to be sent, or by a frame. -/
inductive LinkStage where
  /-- It waits, or connects. -/
  | down
  /-- It has sent its subscription. -/
  | asked
  /-- It has sent the catch-up, and reads frames. -/
  | forwarding
  deriving DecidableEq, Repr

/-- A mount and the server of its folder. -/
structure Realtime where
  /-- The last operation of the folder on the server. -/
  head : ℕ := 0
  cursor : ℕ := 0
  link : LinkStage := .down
  /-- The hub has the socket. -/
  subscribed : Bool := false
  /-- The frames that the link has not read. -/
  wire : List ℕ := []
  loop : SyncLoop := {}
  /-- The head at the last answer to the pull under way. -/
  seen : Option ℕ := none
  deriving DecidableEq, Repr

inductive RealtimeEvent where
  /-- A commit, of one operation and some more; whether the hub comes to tell the socket. -/
  | commit (more : ℕ) (told : Bool)
  | connect
  /-- The hub has heard the subscription. -/
  | subscribe
  /-- The link sends the catch-up of a connect. -/
  | greet
  | forward
  | disconnect
  /-- The pull writes a page. -/
  | page (upToSeq : ℕ)
  /-- The last page of the pull is answered. -/
  | answered
  | loop (ev : LoopEvent)
  deriving DecidableEq, Repr

namespace Realtime

variable (folderId : String) (st : Realtime)

def step : RealtimeEvent → Option Realtime
  | .commit more told =>
    let head := st.head + more + 1
    some { st with head, wire := if told && st.subscribed then st.wire ++ [head] else st.wire }
  | .connect => if st.link = .down then some { st with link := .asked } else none
  | .subscribe => if st.link = .down then none else some { st with subscribed := true }
  | .greet =>
    if st.link = .asked then
      some { st with link := .forwarding,
                     loop := { st.loop with notifications := st.loop.notifications ++ [⟨folderId, 0⟩] } }
    else none
  | .forward =>
    match st.link, st.wire with
    | .forwarding, serverSeq :: wire =>
      some { st with wire,
                     loop := { st.loop with notifications := st.loop.notifications ++ [⟨folderId, serverSeq⟩] } }
    | _, _ => none
  | .disconnect => some { st with link := .down, subscribed := false, wire := [] }
  | .page upToSeq =>
    if st.loop.stage = .pulling ∧ st.cursor ≤ upToSeq ∧ upToSeq ≤ st.head then some { st with cursor := upToSeq }
    else none
  | .answered => if st.loop.stage = .pulling then some { st with seen := some st.head } else none
  | .loop ev => do
    let loop ← st.loop.step folderId ev
    let seen := if loop.stage = st.loop.stage then st.seen else none
    if ev = .pulled true then
      let serverSeq ← st.seen
      some { st with loop, seen, cursor := max st.cursor serverSeq }
    else some { st with loop, seen }

end Realtime

/-! ### What is asked for -/

/-- The loop has been told that there is something to do for the folder: a notification of the folder is in its
channel, a debounce of one is running, or the mount is dirty and a permit of `notify_one` is left. In each of these
cases the `select!` of the loop will not sleep for good. -/
def SyncLoop.Told (folderId : String) (l : SyncLoop) : Prop :=
  (∃ n ∈ l.notifications, n.folderId = folderId) ∨ l.notifyDeadline = true ∨ l.dirty = true ∧ l.permit = true

/-- The loop has left its `select!` and is on its way to a pull. From some stages it reaches the pull only if the
mount is still dirty; `reads` tells of a pull that is under way and has read up to some `server_seq` already. -/
def SyncLoop.Works (l : SyncLoop) (reads : Prop) : Prop :=
  match l.stage with
  | .woken .periodic => True
  | .woken .dirty => l.dirty = true
  | .debouncing => l.dirty = true
  | .pushing => True
  | .pulling => reads
  | _ => False

namespace Realtime

variable (folderId : String) (st : Realtime)

/-- A wake of the loop is to come. The link is down or has not sent its catch-up, or a frame of the hub is on the
wire, or the loop has been told already: one of these holds at every moment between a commit and the pull that
brings it. -/
def Coming : Prop := st.link ≠ .forwarding ∨ st.wire ≠ [] ∨ st.loop.Told folderId

/-- The pull under way, if there is one that has read its page, reads up to the head. What is committed after it has
read is not in its page, and another wake has to follow. -/
def Reads (head : ℕ) : Prop := ∀ serverSeq, st.seen = some serverSeq → head ≤ serverSeq

/-- The loop has not ended and will pull what there is up to the head: either a wake is to come, or the loop is on
its way to a pull that reads that far. -/
def OnTheWay (head : ℕ) : Prop :=
  st.loop.stage ≠ .ended ∧ (st.Coming folderId ∨ st.loop.Works (st.Reads head))

/-- What is asked for: as long as the mount's cursor is behind the head of the folder, a pull is on its way that
reads up to the head. A state without this is one in which another device's change waits for the next periodic wake.
-/
def Pending : Prop := st.cursor < st.head → st.OnTheWay folderId st.head

end Realtime

/-- The loop gives up the wake it is at: in a pause, where an update is required, where the pull fails, or where the
work is given up. -/
def SyncLoop.Drops (l : SyncLoop) : LoopEvent → Prop
  | .checked => l.paused = true ∧ ∃ wake, l.stage = .woken wake
  | .pushed outcome => l.stage = .pushing ∧ outcome = .failed true
  | .pulled ok => l.stage = .pulling ∧ ok = false
  | .abandoned => l.stage = .pushing ∨ l.stage = .pulling ∨ l.stage = .materializing
  | _ => False

/-- The condition: a commit that is not told, and a wake that is given up, find another wake on its way; and the loop
does not end. -/
def Realtime.StepOk (folderId : String) (st : Realtime) : RealtimeEvent → Prop
  | .commit more told => st.cursor < st.head + more + 1 → st.loop.stage ≠ .ended ∧
    (told = true ∧ st.subscribed = true ∨ st.Coming folderId ∨ st.loop.Works (st.Reads (st.head + more + 1)))
  | .loop .closed => st.loop.stage = .selecting ∧ st.loop.notifications = [] → st.head ≤ st.cursor
  | .loop ev => st.loop.Drops ev → st.cursor < st.head → st.Coming folderId
  | _ => True

/-! ### The loop -/

section Loop

open SyncLoop

variable {folderId : String} {l l' : SyncLoop} {ev : LoopEvent} {reads : Prop}

theorem told_sent (n : WsPushNotification) (h : l.Told folderId) :
    ({ l with notifications := l.notifications ++ [n] } : SyncLoop).Told folderId := by
  rcases h with ⟨m, hm, hfolder⟩ | h
  · exact .inl ⟨m, List.mem_append_left _ hm, hfolder⟩
  · exact .inr h

theorem told_catchUp (serverSeq : ℕ) :
    ({ l with notifications := l.notifications ++ [⟨folderId, serverSeq⟩] } : SyncLoop).Told folderId :=
  .inl ⟨⟨folderId, serverSeq⟩, List.mem_append_right _ List.mem_cons_self, rfl⟩

theorem told_mark : l.mark.Told folderId := .inr (.inr ⟨rfl, rfl⟩)

theorem told_respawn (h : l.Told folderId) (r : Respawn) : (l.respawn r).Told folderId := by
  cases r with
  | noCredential => exact h
  | gone => exact h
  | spawned => exact told_mark

theorem stage_respawn (r : Respawn) : (l.respawn r).stage = l.stage := by
  cases r with
  | noCredential => rfl
  | gone => rfl
  | spawned => rfl

/-- The end of a watcher marks the mount. -/
theorem told_handleWatcherExit (lived : ℕ) (r : Respawn) : (l.handleWatcherExit lived r).Told folderId := by
  rw [handleWatcherExit]
  split
  · apply told_respawn
    exact .inr (.inr ⟨rfl, rfl⟩)
  · exact .inr (.inr ⟨rfl, rfl⟩)

theorem stage_handleWatcherExit (lived : ℕ) (r : Respawn) : (l.handleWatcherExit lived r).stage = l.stage := by
  rw [handleWatcherExit]
  split
  · exact stage_respawn r
  · rfl

/-- A notification that is read tells the loop. -/
theorem told_receive {n : WsPushNotification} {rest : List WsPushNotification} (hl : l.notifications = n :: rest)
    (h : l.Told folderId) : (l.receive folderId n rest).Told folderId := by
  rw [receive]
  by_cases hfolder : n.folderId ≠ folderId
  · rw [if_pos hfolder]
    rcases h with ⟨m, hm, hm'⟩ | h
    · rw [hl] at hm
      rcases List.mem_cons.mp hm with rfl | hm
      · exact absurd hm' hfolder
      · exact .inl ⟨m, hm, hm'⟩
    · exact .inr h
  · rw [if_neg hfolder]
    split
    · exact told_mark
    · exact .inr (.inl rfl)

/-- The same stage, with no mark less. -/
theorem works_mono {reads' : Prop} (h : l.Works reads) (hstage : l'.stage = l.stage)
    (hdirty : l.dirty = true → l'.dirty = true) (hreads : reads → reads') : l'.Works reads' := by
  rw [Works] at h ⊢
  rw [hstage]
  split
  · trivial
  · next hs =>
    rw [hs] at h
    exact hdirty h
  · next hs =>
    rw [hs] at h
    exact hdirty h
  · trivial
  · next hs =>
    rw [hs] at h
    exact hreads h
  · next h1 h2 h3 h4 h5 =>
    split at h
    · next hs => exact h1 hs
    · next hs => exact h2 hs
    · next hs => exact h3 hs
    · next hs => exact h4 hs
    · next hs => exact h5 hs
    · exact h

/-- In a stage that is at no wake, the loop has been told. -/
theorem told_of_idle (h : l.Told folderId ∨ l.Works reads)
    (hidle : l.stage = .selecting ∨ l.stage = .materializing) : l.Told folderId := by
  refine h.resolve_right fun hworks => ?_
  rcases hidle with hstage | hstage
  · rw [Works, hstage] at hworks
    exact hworks
  · rw [Works, hstage] at hworks
    exact hworks

/-- After the select, without a pause. -/
theorem onTheWay_check {wake : SyncLoopWake} (hstage : l.stage = .woken wake) (hpaused : l.paused = false) :
    (l.check wake).stage ≠ .ended ∧ (l.Told folderId ∨ l.Works reads →
      (l.check wake).Told folderId ∨ (l.check wake).Works ((l.check wake).stage = l.stage → reads)) := by
  have hnot : ¬ l.paused = true := by rw [hpaused]; exact Bool.false_ne_true
  rw [check.eq_def, if_neg hnot]
  cases wake with
  | periodic =>
    dsimp only
    split
    · exact ⟨fun he => (by cases he), fun _ => .inr trivial⟩
    · refine ⟨fun he => (by cases he), fun _ => .inr fun he => ?_⟩
      rw [hstage] at he
      cases he
  | dirty =>
    refine ⟨fun he => (by cases he), fun h => h.imp_right fun hworks => ?_⟩
    rw [Works, hstage] at hworks
    exact hworks

/-- After the sleep of a dirty wake. -/
theorem onTheWay_wakeDirty (hstage : l.stage = .debouncing) :
    l.wakeDirty.stage ≠ .ended ∧ (l.Told folderId ∨ l.Works reads →
      l.wakeDirty.Told folderId ∨ l.wakeDirty.Works (l.wakeDirty.stage = l.stage → reads)) := by
  rw [wakeDirty]
  by_cases hdirty : l.dirty = true
  · rw [if_pos hdirty]
    exact ⟨fun he => (by cases he), fun _ => .inr trivial⟩
  · rw [if_neg hdirty]
    refine ⟨fun he => (by cases he), fun h => .inl (h.resolve_right fun hworks => ?_)⟩
    rw [Works, hstage] at hworks
    exact hdirty hworks

/-- **A step of the loop** that gives up nothing keeps a wake on its way. -/
theorem onTheWay_loop (reads : Prop) (hstep : l.step folderId ev = some l') (hdrops : ¬ l.Drops ev)
    (hclosed : ev ≠ .closed) (hpulled : ∀ ok, ev ≠ .pulled ok) (hended : l.stage ≠ .ended) : l'.stage ≠ .ended ∧
      (l.Told folderId ∨ l.Works reads → l'.Told folderId ∨ l'.Works (l'.stage = l.stage → reads)) := by
  cases ev with
  | ticked =>
    rw [step] at hstep
    split at hstep
    · cases hstep
      exact ⟨fun he => (by cases he), fun _ => .inr trivial⟩
    · cases hstep
  | received =>
    rw [step] at hstep
    split at hstep
    · next hstage hl =>
      cases hstep
      refine ⟨fun he => ?_, fun h => .inl (told_receive hl (told_of_idle h (.inl hstage)))⟩
      rw [receive] at he
      split at he
      · exact hended he
      · split at he
        · exact hended he
        · exact hended he
    · cases hstep
  | closed => exact absurd rfl hclosed
  | deadlineReached =>
    rw [step] at hstep
    split at hstep
    · cases hstep
      exact ⟨fun he => (by cases he), fun _ => .inr trivial⟩
    · cases hstep
  | dirtyNotified =>
    rw [step] at hstep
    split at hstep
    · next hcond =>
      cases hstep
      refine ⟨fun he => (by cases he), fun h => ?_⟩
      -- a mark whose permit is taken is looked at behind the wake
      rcases told_of_idle h (.inl hcond.1) with hn | hd | hm
      · exact .inl (.inl hn)
      · exact .inl (.inr (.inl hd))
      · exact .inr hm.1
    · cases hstep
  | watcherExited lived r =>
    rw [step] at hstep
    split at hstep
    · cases hstep
      exact ⟨by rwa [stage_handleWatcherExit], fun _ => .inl (told_handleWatcherExit lived r)⟩
    · cases hstep
  | respawnReached r =>
    rw [step] at hstep
    split at hstep
    · next hcond =>
      cases hstep
      refine ⟨?_, fun h => .inl (told_respawn ?_ r)⟩
      · rw [stage_respawn]
        exact hended
      · exact told_of_idle h (.inl hcond.1)
    · cases hstep
  | checked =>
    rw [step] at hstep
    split at hstep
    · next wake hstage =>
      cases hstep
      have hpaused : l.paused = false := by
        apply Bool.eq_false_iff.mpr
        exact fun hp => hdrops ⟨hp, wake, hstage⟩
      exact onTheWay_check hstage hpaused
    · cases hstep
  | debounced =>
    rw [step] at hstep
    split at hstep
    · next hstage =>
      cases hstep
      exact onTheWay_wakeDirty hstage
    · cases hstep
  | pushed outcome =>
    rw [step] at hstep
    split at hstep
    · next hstage =>
      cases hstep
      have hgoes : outcome ≠ .failed true := fun he => hdrops ⟨hstage, he⟩
      rw [push, if_neg hgoes]
      refine ⟨fun he => (by cases he), fun _ => .inr fun he => ?_⟩
      rw [hstage] at he
      cases he
    · cases hstep
  | pulled ok => exact absurd rfl (hpulled ok)
  | materialized =>
    rw [step] at hstep
    split at hstep
    · next hstage =>
      cases hstep
      refine ⟨fun he => (by cases he), fun h => ?_⟩
      have htold := told_of_idle h (.inr hstage)
      exact .inl htold
    · cases hstep
  | abandoned =>
    rw [step] at hstep
    split at hstep
    · next hcond => exact absurd hcond hdrops
    · cases hstep
  | userPaused paused =>
    cases hstep
    exact ⟨hended, fun h => h.imp_right fun hworks => works_mono hworks rfl id fun hr _ => hr⟩
  | sent n =>
    cases hstep
    exact ⟨hended, fun h => h.imp (told_sent n) fun hworks => works_mono hworks rfl id fun hr _ => hr⟩
  | marked =>
    cases hstep
    exact ⟨hended, fun _ => .inl told_mark⟩
  | pushedElsewhere outcome =>
    cases hstep
    exact ⟨hended, fun h => h.imp_right fun hworks => works_mono hworks rfl id fun hr _ => hr⟩

/-- What the loop does with a wake that it gives up. -/
theorem step_of_drops (folderId : String) (h : l.Drops ev) : ∃ l', l.step folderId ev = some l' ∧ l'.stage = .selecting ∧
    (l'.Told folderId ↔ l.Told folderId) := by
  cases ev with
  | checked =>
    obtain ⟨hpaused, wake, hstage⟩ := h
    refine ⟨{ l with stage := .selecting }, ?_, rfl, Iff.rfl⟩
    rw [step, hstage]
    dsimp only
    rw [check.eq_def, if_pos hpaused]
  | pushed outcome =>
    obtain ⟨hstage, houtcome⟩ := h
    refine ⟨{ l with unsubmitted := outcome.left, stage := .selecting }, ?_, rfl, Iff.rfl⟩
    rw [step, if_pos hstage, push, if_pos houtcome]
  | pulled ok =>
    obtain ⟨hstage, hok⟩ := h
    refine ⟨{ l with stage := .selecting }, ?_, rfl, Iff.rfl⟩
    rw [step, if_pos hstage, hok]
    rfl
  | abandoned =>
    refine ⟨{ l with stage := .selecting }, ?_, rfl, Iff.rfl⟩
    rw [step]
    exact if_pos h
  | _ => exact absurd h id

end Loop

/-! ### One step -/

section Steps

open Realtime

variable {folderId : String} {st : Realtime} {ev : LoopEvent}

theorem stepOk_loop (hclosed : ev ≠ .closed) : st.StepOk folderId (.loop ev) ↔
    (st.loop.Drops ev → st.cursor < st.head → st.Coming folderId) := by
  cases ev with
  | closed => exact absurd rfl hclosed
  | _ => exact Iff.rfl

/-- A commit. -/
theorem pending_commit (more : ℕ) (told : Bool) :
    ((st.step folderId (.commit more told)).getD st).Pending folderId ↔ st.StepOk folderId (.commit more told) := by
  show (st.cursor < st.head + more + 1 → st.loop.stage ≠ .ended ∧ ((st.link ≠ .forwarding ∨
    (if told && st.subscribed then st.wire ++ [st.head + more + 1] else st.wire) ≠ [] ∨ st.loop.Told folderId) ∨
      st.loop.Works (st.Reads (st.head + more + 1)))) ↔ _
  rw [StepOk]
  refine imp_congr_right fun _ => and_congr_right fun _ => ?_
  by_cases htold : (told && st.subscribed) = true
  · rw [if_pos htold]
    refine iff_of_true (.inl (.inr (.inl ?_))) (.inl ?_)
    · exact List.append_ne_nil_of_right_ne_nil _ (List.cons_ne_nil _ _)
    · rwa [Bool.and_eq_true] at htold
  · rw [if_neg htold]
    rw [Bool.and_eq_true] at htold
    exact (or_iff_right htold).symm

/-- The loop takes a step that ends no pull. -/
theorem step_loop {l' : SyncLoop} (hne : ev ≠ .pulled true) (hstep : st.loop.step folderId ev = some l') :
    st.step folderId (.loop ev) =
      some { st with loop := l', seen := if l'.stage = st.loop.stage then st.seen else none } := by
  rw [Realtime.step, hstep]
  exact if_neg hne

/-- A wake is given up. -/
theorem pending_drop (hdrops : st.loop.Drops ev) :
    ((st.step folderId (.loop ev)).getD st).Pending folderId ↔ (st.cursor < st.head → st.Coming folderId) := by
  obtain ⟨l', hstep, hstage, htold⟩ := step_of_drops folderId hdrops
  have hne : ev ≠ .pulled true := by
    rintro rfl
    cases hdrops.2
  rw [step_loop hne hstep, Option.getD_some]
  refine imp_congr_right fun _ => ?_
  show l'.stage ≠ .ended ∧ ((st.link ≠ .forwarding ∨ st.wire ≠ [] ∨ l'.Told folderId) ∨ l'.Works _) ↔ _
  rw [SyncLoop.Works, hstage, htold]
  exact ⟨fun hboth => hboth.2.resolve_right id, fun hcoming => ⟨fun he => (by cases he), .inl hcoming⟩⟩

/-- A pull ends well. -/
theorem pending_pulled (h : st.Pending folderId) :
    ((st.step folderId (.loop (.pulled true))).getD st).Pending folderId := by
  cases hseen : st.seen with
  | none =>
    have hnext : st.step folderId (.loop (.pulled true)) = none := by
      rw [Realtime.step]
      cases st.loop.step folderId (.pulled true) with
      | none => rfl
      | some l' => simp [hseen]
    rw [hnext]
    exact h
  | some serverSeq =>
    by_cases hstage : st.loop.stage = .pulling
    · have hnext : st.step folderId (.loop (.pulled true)) = some { st with
          loop := { st.loop with stage := .materializing }, seen := none, cursor := max st.cursor serverSeq } := by
        rw [Realtime.step, SyncLoop.step, if_pos hstage]
        simp [hseen, hstage]
      rw [hnext, Option.getD_some]
      intro hlt
      have hmax : max st.cursor serverSeq < st.head := hlt
      have hcursor : st.cursor < st.head := by omega
      obtain ⟨-, hway⟩ := h hcursor
      -- the pull has not read what came behind its last answer
      refine ⟨fun he => (by cases he), .inl (hway.resolve_right fun hworks => ?_)⟩
      rw [SyncLoop.Works, hstage] at hworks
      have hle : st.head ≤ serverSeq := hworks serverSeq hseen
      omega
    · have hnext : st.step folderId (.loop (.pulled true)) = none := by
        rw [Realtime.step, SyncLoop.step, if_neg hstage]
        rfl
      rw [hnext]
      exact h

/-- The channel is closed. -/
theorem pending_closed (h : st.Pending folderId) :
    ((st.step folderId (.loop .closed)).getD st).Pending folderId ↔ st.StepOk folderId (.loop .closed) := by
  rw [StepOk]
  by_cases hcond : st.loop.stage = .selecting ∧ st.loop.notifications = []
  · have hnext : st.step folderId (.loop .closed) = some
        { st with loop := { st.loop with stage := .ended },
                  seen := if LoopStage.ended = st.loop.stage then st.seen else none } := by
      rw [Realtime.step, SyncLoop.step, if_pos hcond]
      rfl
    rw [hnext, Option.getD_some]
    constructor
    · intro hpending _
      exact Nat.not_lt.mp fun hlt => (hpending hlt).1 rfl
    · intro hok hlt
      exact absurd hlt (Nat.not_lt.mpr (hok hcond))
  · have hnext : st.step folderId (.loop .closed) = none := by
      rw [Realtime.step, SyncLoop.step, if_neg hcond]
      rfl
    rw [hnext]
    exact iff_of_true h fun hc => absurd hc hcond

/-- The loop takes a step that gives up nothing. -/
theorem pending_loop {l' : SyncLoop} (h : st.Pending folderId) (hstep : st.loop.step folderId ev = some l')
    (hdrops : ¬ st.loop.Drops ev) (hclosed : ev ≠ .closed) (hpulled : ev ≠ .pulled true) :
    ((st.step folderId (.loop ev)).getD st).Pending folderId := by
  have hno : ∀ ok, ev ≠ .pulled ok := by
    rintro ok rfl
    cases ok with
    | true => exact hpulled rfl
    | false =>
      rw [SyncLoop.step] at hstep
      split at hstep
      · next hstage => exact hdrops ⟨hstage, rfl⟩
      · cases hstep
  -- a pull that begins has seen nothing
  have hreads : (l'.stage = st.loop.stage → st.Reads st.head) →
      Realtime.Reads
        { st with loop := l', seen := if l'.stage = st.loop.stage then st.seen else none } st.head := by
    intro hsame serverSeq hseen
    by_cases hstage : l'.stage = st.loop.stage
    · exact hsame hstage serverSeq ((if_pos hstage).symm.trans hseen)
    · cases (if_neg hstage).symm.trans hseen
  rw [step_loop hpulled hstep, Option.getD_some]
  intro hlt
  obtain ⟨hended, hway⟩ := h hlt
  obtain ⟨hended', hkept⟩ := onTheWay_loop (st.Reads st.head) hstep hdrops hclosed hno hended
  refine ⟨hended', ?_⟩
  have hloop : st.loop.Told folderId ∨ st.loop.Works (st.Reads st.head) →
      (st.link ≠ .forwarding ∨ st.wire ≠ [] ∨ l'.Told folderId) ∨ l'.Works (Realtime.Reads
        { st with loop := l', seen := if l'.stage = st.loop.stage then st.seen else none } st.head) := by
    intro hfound
    rcases hkept hfound with htold | hworks
    · exact .inl (.inr (.inr htold))
    · exact .inr (works_mono hworks rfl id hreads)
  rcases hway with (hlink | hwire | htold) | hworks
  · exact .inl (.inl hlink)
  · exact .inl (.inr (.inl hwire))
  · exact hloop (.inl htold)
  · exact hloop (.inr hworks)

/-- **Each step** keeps a wake on its way exactly if it meets the condition. -/
theorem pending_realtime (h : st.Pending folderId) (ev : RealtimeEvent) :
    ((st.step folderId ev).getD st).Pending folderId ↔ st.StepOk folderId ev := by
  cases ev with
  | commit more told => exact pending_commit more told
  | connect =>
    refine iff_of_true ?_ trivial
    rw [Realtime.step]
    split
    · exact fun hlt => ⟨(h hlt).1, .inl (.inl fun he => by cases he)⟩
    · exact h
  | subscribe =>
    refine iff_of_true ?_ trivial
    rw [Realtime.step]
    split
    · exact h
    · exact h
  | greet =>
    refine iff_of_true ?_ trivial
    rw [Realtime.step]
    split
    · exact fun hlt => ⟨(h hlt).1, .inl (.inr (.inr (told_catchUp 0)))⟩
    · exact h
  | forward =>
    refine iff_of_true ?_ trivial
    rw [Realtime.step]
    split
    · next serverSeq wire _ _ => exact fun hlt => ⟨(h hlt).1, .inl (.inr (.inr (told_catchUp serverSeq)))⟩
    · exact h
  | disconnect => exact iff_of_true (fun hlt => ⟨(h hlt).1, .inl (.inl fun he => by cases he)⟩) trivial
  | page upToSeq =>
    refine iff_of_true ?_ trivial
    rw [Realtime.step]
    split
    · next hcond => exact fun hlt => h (Nat.lt_of_le_of_lt hcond.2.1 hlt)
    · exact h
  | answered =>
    refine iff_of_true ?_ trivial
    rw [Realtime.step]
    split
    · next hstage =>
      intro _
      refine ⟨fun he => ?_, .inr ?_⟩
      · rw [show st.loop.stage = .ended from he] at hstage
        cases hstage
      · rw [SyncLoop.Works]
        show match st.loop.stage with
          | .woken .periodic => True
          | .woken .dirty => st.loop.dirty = true
          | .debouncing => st.loop.dirty = true
          | .pushing => True
          | .pulling => Realtime.Reads { st with seen := some st.head } st.head
          | _ => False
        rw [hstage]
        intro serverSeq hseen
        exact le_of_eq (Option.some.inj hseen)
    · exact h
  | loop ev =>
    by_cases hclosed : ev = .closed
    · rw [hclosed]
      exact pending_closed h
    rw [stepOk_loop hclosed]
    by_cases hdrops : st.loop.Drops ev
    · rw [pending_drop hdrops]
      exact ⟨fun hok _ => hok, fun hok => hok hdrops⟩
    refine iff_of_true ?_ fun hd => absurd hd hdrops
    by_cases hpulled : ev = .pulled true
    · rw [hpulled]
      exact pending_pulled h
    cases hstep : st.loop.step folderId ev with
    | none =>
      rw [Realtime.step, hstep]
      exact h
    | some l' => exact pending_loop h hstep hdrops hclosed hpulled

end Steps

/-! ### Every run -/

/-- **Commits stay on their way** in exactly the runs whose steps meet the condition: from the start of the daemon,
with any cursor, there is at each moment something on its way that makes the loop pull what the mirror lacks.  In such
a run a mirror whose loop is idle, with no wake to come, has everything. -/
theorem commits_stay_on_the_way (folderId : String) (head cursor : ℕ) (evs : List RealtimeEvent) :
    let start : Realtime := { head, cursor }
    let st := Run.run (Realtime.step folderId) start evs
    (Run.Along (Realtime.step folderId) (fun st ev => ((st.step folderId ev).getD st).Pending folderId) start evs ↔
      Run.Along (Realtime.step folderId) (Realtime.StepOk folderId) start evs) ∧
    (Run.Along (Realtime.step folderId) (Realtime.StepOk folderId) start evs →
      st.loop.stage = .selecting → ¬ st.Coming folderId → st.head ≤ st.cursor) := by
  intro start st
  -- the link is down, and will send a catch-up
  have hstart : start.Pending folderId := by
    intro _
    refine ⟨fun he => (by cases he), .inl (.inl fun he => ?_)⟩
    cases he
  constructor
  · exact Run.Along.iff_of_step (I := Realtime.Pending folderId) (fun _ ev hst => pending_realtime hst ev) hstart
  · intro hok hidle hnone
    have hpending : st.Pending folderId := by
      refine Run.run_invariant (I := Realtime.Pending folderId) (fun st ev st' hst hev hstep => ?_) hstart hok
      have hnext := (pending_realtime hst ev).mpr hev
      rw [hstep] at hnext
      exact hnext
    by_contra hlt
    obtain ⟨-, hway⟩ := hpending (Nat.not_le.mp hlt)
    have hworks := hway.resolve_left hnone
    rw [SyncLoop.Works, hidle] at hworks
    exact hworks

/-- **A commit is missed.**  The pull of the connect is answered before the hub has heard the subscription, and the
commit comes in between: nothing tells the mirror of it. -/
theorem commit_between_catchUp_and_subscription :
    ¬ Run.Along (Realtime.step "f") (fun st ev => ((st.step "f" ev).getD st).Pending "f") { head := 4, cursor := 4 }
      [.connect, .greet, .loop .received, .loop .dirtyNotified, .loop .checked, .loop .debounced,
        .loop (.pushed (.summary {} 0)), .answered, .loop (.pulled true), .loop .materialized, .commit 0 true,
        .subscribe] := by
  intro h
  have hcommit := h.2.2.2.2.2.2.2.2.2.2.1
  obtain ⟨-, hway⟩ := hcommit (by decide)
  rcases hway with (hlink | hwire | ⟨n, hn, -⟩ | hdeadline | ⟨hdirty, -⟩) | hworks
  · exact hlink rfl
  · exact hwire rfl
  · exact List.not_mem_nil hn
  · cases hdeadline
  · cases hdirty
  · exact hworks

end Valv.Daemon
