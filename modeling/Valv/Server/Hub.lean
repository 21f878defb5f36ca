import Valv.Lib.Run
import Mathlib.Data.List.Nodup

/-!
# The hub of the websockets

A connection subscribes to folders, and each commit in a folder is told to the sockets that are subscribed to it.  A
subscription is asked for by a message, whose handler waits for two answers of the database; commits, messages,
answers and the closing of sockets come in any order.

* `Hub`: `createHub`, its sets as lists in the order of insertion.
* `HubState.step`: the router, the handlers of its messages, and commits.
* `HubState.Agrees`: the hub has the subscriptions that the connections believe to have.
* `subscribers_are_notified`: whom a commit is told.
-/

namespace Valv.Server

/-! ### The hub -/

/-- `Set.add`. -/
def addNew {α : Type} [DecidableEq α] (a : α) (l : List α) : List α := if a ∈ l then l else l ++ [a]

/-- What `createHub` closes over; a socket is told by the number of its connection. -/
structure Hub where
  /-- `subscriptions`, with the folder of each. -/
  subscriptions : List (String × ℕ) := []
  socketFolders : List (ℕ × String) := []
  /-- The sockets that `socketFolders` has a set for. -/
  known : List ℕ := []
  deriving DecidableEq, Repr

namespace Hub

def subscribe (h : Hub) (folderId : String) (ws : ℕ) : Hub :=
  { subscriptions := addNew (folderId, ws) h.subscriptions, socketFolders := addNew (ws, folderId) h.socketFolders,
    known := addNew ws h.known }

def unsubscribe (h : Hub) (folderId : String) (ws : ℕ) : Hub :=
  { h with subscriptions := h.subscriptions.filter (· ≠ (folderId, ws)),
           socketFolders := h.socketFolders.filter (· ≠ (ws, folderId)) }

def unsubscribeAll (h : Hub) (ws : ℕ) : Hub :=
  { h with subscriptions := h.subscriptions.filter fun x => !(x.2 = ws && h.socketFolders.contains (ws, x.1)),
           socketFolders := h.socketFolders.filter (·.1 ≠ ws) }

/-- The sockets of a folder. -/
def sockets (h : Hub) (folderId : String) : List ℕ :=
  (h.subscriptions.filter (·.1 = folderId)).map Prod.snd

/-- The loop of `notify`, with the sockets that are told; a `send` that throws ends it. -/
def notifyEach (isOpen throws : ℕ → Bool) (folderId : String) : List ℕ → Hub → Hub × List ℕ
  | [], h => (h, [])
  | ws :: sockets, h =>
    if isOpen ws then
      if throws ws then (h, [])
      else
        let rest := notifyEach isOpen throws folderId sockets h
        (rest.1, ws :: rest.2)
    else notifyEach isOpen throws folderId sockets (h.unsubscribe folderId ws)

def notify (h : Hub) (isOpen throws : ℕ → Bool) (folderId : String) : Hub × List ℕ :=
  notifyEach isOpen throws folderId (h.sockets folderId) h

end Hub

/-- The two maps of the hub tell the same: each is the other one, read the other way. Removing a connection goes by
the one, broadcasting by the other. -/
def Hub.Paired (h : Hub) : Prop := ∀ folderId ws, (folderId, ws) ∈ h.subscriptions ↔ (ws, folderId) ∈ h.socketFolders

section Lemmas

variable {h h' : Hub} {folderId folderId' : String} {ws ws' : ℕ} {sockets told : List ℕ} {isOpen throws : ℕ → Bool}

theorem mem_addNew {α : Type} [DecidableEq α] {a b : α} {l : List α} : b ∈ addNew a l ↔ b ∈ l ∨ b = a := by
  rw [addNew]
  split
  · next ha => exact ⟨.inl, fun hb => hb.elim id fun he => he ▸ ha⟩
  · rw [List.mem_append, List.mem_singleton]

theorem nodup_addNew {α : Type} [DecidableEq α] {a : α} {l : List α} (hl : l.Nodup) : (addNew a l).Nodup := by
  rw [addNew]
  split
  · exact hl
  · next ha => exact List.nodup_append.mpr ⟨hl, List.nodup_singleton a, fun b hb c hc he => by
      rw [List.mem_singleton.mp hc] at he
      exact ha (he ▸ hb)⟩

theorem mem_sockets : ws ∈ h.sockets folderId ↔ (folderId, ws) ∈ h.subscriptions := by
  simp [Hub.sockets]

theorem nodup_sockets (hnodup : h.subscriptions.Nodup) : (h.sockets folderId).Nodup := by
  refine List.Nodup.map_on (fun x hx y hy he => Prod.ext ?_ he) (hnodup.filter _)
  have hxf := of_decide_eq_true (List.mem_filter.mp hx).2
  have hyf := of_decide_eq_true (List.mem_filter.mp hy).2
  exact hxf.trans hyf.symm

theorem mem_subscribe : (folderId', ws') ∈ (h.subscribe folderId ws).subscriptions ↔
    (folderId', ws') ∈ h.subscriptions ∨ folderId' = folderId ∧ ws' = ws := by
  rw [Hub.subscribe, mem_addNew, Prod.mk.injEq]

theorem mem_unsubscribe : (folderId', ws') ∈ (h.unsubscribe folderId ws).subscriptions ↔
    (folderId', ws') ∈ h.subscriptions ∧ ¬ (folderId' = folderId ∧ ws' = ws) := by
  rw [Hub.unsubscribe, List.mem_filter, decide_eq_true_eq, ne_eq, Prod.mk.injEq]

theorem paired_subscribe (hpaired : h.Paired) : (h.subscribe folderId ws).Paired := by
  intro f i
  rw [mem_subscribe, Hub.subscribe, mem_addNew, hpaired f i, Prod.mk.injEq, and_comm (a := f = folderId)]

theorem paired_unsubscribe (hpaired : h.Paired) : (h.unsubscribe folderId ws).Paired := by
  intro f i
  rw [mem_unsubscribe, hpaired f i, Hub.unsubscribe, List.mem_filter, decide_eq_true_eq, ne_eq, Prod.mk.injEq,
    and_comm (a := i = ws)]

theorem paired_unsubscribeAll (hpaired : h.Paired) : (h.unsubscribeAll ws).Paired := by
  intro f i
  have hpair := hpaired f i
  simp only [Hub.unsubscribeAll, List.mem_filter, hpair, Bool.not_eq_true', Bool.and_eq_false_iff,
    decide_eq_false_iff_not, ne_eq, decide_eq_true_eq]
  constructor
  · rintro ⟨hmem, hne⟩
    refine ⟨hmem, fun he => ?_⟩
    subst he
    rcases hne with hne | hne
    · exact hne rfl
    · rw [List.contains_eq_mem, decide_eq_false_iff_not] at hne
      exact hne hmem
  · rintro ⟨hmem, hne⟩
    exact ⟨hmem, .inl hne⟩

/-! ### A commit is told -/

/-- What the loop over these sockets does. -/
structure Hub.Notified (h h' : Hub) (isOpen throws : ℕ → Bool) (folderId : String) (sockets told : List ℕ) :
    Prop where
  paired : h.Paired → h'.Paired
  fewer : h'.subscriptions.Sublist h.subscriptions
  dropped : ∀ f i, (f, i) ∈ h.subscriptions → (f, i) ∈ h'.subscriptions ∨ isOpen i = false
  inOrder : told.Sublist sockets
  open_of_told : ∀ i ∈ told, isOpen i = true
  told_of_open : ∀ i ∈ sockets, isOpen i = true → i ∈ told ∨ ∃ j ∈ sockets, isOpen j = true ∧ throws j = true
  pruned : ∀ i ∈ sockets, (folderId, i) ∈ h'.subscriptions → isOpen i = true ∨
    ∃ j ∈ sockets, isOpen j = true ∧ throws j = true

theorem notifyEach_notified (isOpen throws : ℕ → Bool) (folderId : String) (sockets : List ℕ) (h : Hub) :
    h.Notified (Hub.notifyEach isOpen throws folderId sockets h).1 isOpen throws folderId sockets
      (Hub.notifyEach isOpen throws folderId sockets h).2 := by
  induction sockets generalizing h with
  | nil =>
    constructor
    · exact id
    · exact List.Sublist.refl _
    · exact fun f i hi => .inl hi
    · exact List.Sublist.refl _
    · exact fun i hi => absurd hi List.not_mem_nil
    · exact fun i hi => absurd hi List.not_mem_nil
    · exact fun i hi => absurd hi List.not_mem_nil
  | cons ws sockets ih =>
    rw [Hub.notifyEach]
    -- whoever throws further on throws here too
    have hlater : (∃ j ∈ sockets, isOpen j = true ∧ throws j = true) →
        ∃ j ∈ ws :: sockets, isOpen j = true ∧ throws j = true := List.exists_mem_cons_of_exists
    by_cases hopen : isOpen ws = true
    · rw [if_pos hopen]
      by_cases hthrows : throws ws = true
      · -- the loop ends here
        rw [if_pos hthrows]
        constructor
        · exact id
        · exact List.Sublist.refl _
        · exact fun f i hi => .inl hi
        · exact List.nil_sublist _
        · exact fun i hi => absurd hi List.not_mem_nil
        · exact fun i _ _ => .inr ⟨ws, List.mem_cons_self, hopen, hthrows⟩
        · exact fun i _ _ => .inr ⟨ws, List.mem_cons_self, hopen, hthrows⟩
      · rw [if_neg hthrows]
        have hrest := ih h
        constructor
        · exact hrest.paired
        · exact hrest.fewer
        · exact hrest.dropped
        · exact hrest.inOrder.cons_cons ws
        · intro i hi
          rcases List.mem_cons.mp hi with rfl | hi
          · exact hopen
          · exact hrest.open_of_told i hi
        · intro i hi hi'
          rcases List.mem_cons.mp hi with rfl | hi
          · exact .inl List.mem_cons_self
          · exact (hrest.told_of_open i hi hi').imp (List.mem_cons_of_mem ws) hlater
        · intro i hi hi'
          rcases List.mem_cons.mp hi with rfl | hi
          · exact .inl hopen
          · exact (hrest.pruned i hi hi').imp_right hlater
    · -- a socket that is not open is dropped
      rw [if_neg hopen]
      have hrest := ih (h.unsubscribe folderId ws)
      constructor
      · exact fun hpaired => hrest.paired (paired_unsubscribe hpaired)
      · exact hrest.fewer.trans List.filter_sublist
      · intro f i hi
        by_cases hsame : f = folderId ∧ i = ws
        · right
          rw [hsame.2]
          exact Bool.eq_false_iff.mpr hopen
        · exact hrest.dropped f i (mem_unsubscribe.mpr ⟨hi, hsame⟩)
      · exact hrest.inOrder.cons ws
      · exact hrest.open_of_told
      · intro i hi hi'
        rcases List.mem_cons.mp hi with rfl | hi
        · exact absurd hi' hopen
        · exact (hrest.told_of_open i hi hi').imp_right hlater
      · intro i hi hi'
        rcases List.mem_cons.mp hi with rfl | hi
        · exact absurd ⟨rfl, rfl⟩ (mem_unsubscribe.mp (hrest.fewer.subset hi')).2
        · exact (hrest.pruned i hi hi').imp_right hlater

end Lemmas

/-! ### The router -/

/-- A handler of a message; whether the root of the folder is known. -/
structure HubHandler where
  folderId : String
  rooted : Bool := false
  deriving DecidableEq, Repr

structure HubConnection where
  /-- Its socket has `addEventListener` or `on`. -/
  listens : Bool
  /-- `readyState` is that of an open socket. -/
  isOpen : Bool := true
  /-- The `folders` of the router. -/
  folders : List String := []
  handlers : List HubHandler := []
  deriving DecidableEq, Repr

structure HubMessage where
  socket : ℕ
  folderId : String
  serverSeq : ℕ
  deriving DecidableEq, Repr

structure HubState where
  hub : Hub := {}
  connections : List HubConnection := []
  sent : List HubMessage := []
  deriving DecidableEq, Repr

inductive HubEvent where
  | connect (listens : Bool)
  /-- A message asks for a subscription. -/
  | subscribe (i : ℕ) (folderId : String)
  /-- `getFolderRoot` answers a handler. -/
  | rooted (i k : ℕ) (found : Bool)
  /-- `checkGrant` answers a handler. -/
  | checked (i k : ℕ) (granted : Bool)
  /-- The socket is not open any more. -/
  | closing (i : ℕ)
  /-- The listeners of `close` run. -/
  | closed (i : ℕ)
  /-- `notifyCommitted`; which sockets throw. -/
  | notify (folderId : String) (serverSeq : ℕ) (throws : ℕ → Bool)

namespace HubState

def setConnection (st : HubState) (i : ℕ) (c : HubConnection) : HubState :=
  { st with connections := st.connections.set i c }

def isOpen (st : HubState) (i : ℕ) : Bool := st.connections[i]?.any HubConnection.isOpen

def step (st : HubState) : HubEvent → Option HubState
  | .connect listens => some { st with connections := st.connections ++ [{ listens }] }
  | .subscribe i folderId => do
    let c ← st.connections[i]?
    pure (st.setConnection i { c with handlers := c.handlers ++ [{ folderId }] })
  | .rooted i k found => do
    let c ← st.connections[i]?
    let handler ← c.handlers[k]?
    if handler.rooted then none
    else if found then
      pure (st.setConnection i { c with handlers := c.handlers.set k { handler with rooted := true } })
    else pure (st.setConnection i { c with handlers := c.handlers.eraseIdx k })
  | .checked i k granted => do
    let c ← st.connections[i]?
    let handler ← c.handlers[k]?
    if !handler.rooted then none
    else
      let ended := { c with handlers := c.handlers.eraseIdx k }
      if granted then
        pure { st.setConnection i { ended with folders := addNew handler.folderId ended.folders } with
          hub := st.hub.subscribe handler.folderId i }
      else pure (st.setConnection i ended)
  | .closing i => do
    let c ← st.connections[i]?
    pure (st.setConnection i { c with isOpen := false })
  | .closed i => do
    let c ← st.connections[i]?
    if c.isOpen then none
    else
      let hub := c.folders.foldl (fun h folderId => h.unsubscribe folderId i) st.hub
      let hub := if c.listens && st.hub.known.contains i then hub.unsubscribeAll i else hub
      pure { st.setConnection i { c with folders := [] } with hub }
  | .notify folderId serverSeq throws =>
    let notified := st.hub.notify st.isOpen throws folderId
    some { st with hub := notified.1, sent := st.sent ++ notified.2.map fun ws => ⟨ws, folderId, serverSeq⟩ }

/-- The connection is open and has been told that it is subscribed to the folder. -/
def Subscribed (st : HubState) (i : ℕ) (folderId : String) : Prop :=
  ∃ c, st.connections[i]? = some c ∧ c.isOpen = true ∧ folderId ∈ c.folders

/-- What the hub has is what the connections believe; it may have lost a socket that is not open. -/
structure Agrees (st : HubState) : Prop where
  nodup : st.hub.subscriptions.Nodup
  paired : st.hub.Paired
  believed : ∀ folderId i, (folderId, i) ∈ st.hub.subscriptions →
    ∃ c, st.connections[i]? = some c ∧ folderId ∈ c.folders
  kept : ∀ folderId i, st.Subscribed i folderId → (folderId, i) ∈ st.hub.subscriptions

end HubState

section Steps

open HubState

variable {st st' : HubState} {i k : ℕ} {c c' : HubConnection} {hub : Hub}

/-! ### One step -/

theorem setConnection_get (hc : st.connections[i]? = some c) (j : ℕ) :
    (st.setConnection i c').connections[j]? = if i = j then some c' else st.connections[j]? := by
  obtain ⟨hlt, -⟩ := List.getElem?_eq_some_iff.mp hc
  show (st.connections.set i c')[j]? = _
  by_cases hij : i = j
  · rw [if_pos hij, ← hij, List.getElem?_set_self hlt]
  · rw [if_neg hij, List.getElem?_set_ne hij]

/-- A connection keeps what it believes; it may stop to be open. -/
theorem agrees_setConnection (h : st.Agrees) (hc : st.connections[i]? = some c)
    (hopen : c'.isOpen = true → c.isOpen = true) (hfolders : c'.folders = c.folders) :
    (st.setConnection i c').Agrees := by
  constructor
  · exact h.nodup
  · exact h.paired
  · intro f j hj
    obtain ⟨d, hd, hf⟩ := h.believed f j hj
    rw [setConnection_get hc]
    by_cases hij : i = j
    · rw [if_pos hij]
      rw [← hij, hc] at hd
      rw [← Option.some.inj hd, ← hfolders] at hf
      exact ⟨c', rfl, hf⟩
    · rw [if_neg hij]
      exact ⟨d, hd, hf⟩
  · intro f j hj
    obtain ⟨d, hd, hlive, hf⟩ := hj
    apply h.kept f j
    rw [setConnection_get hc] at hd
    by_cases hij : i = j
    · rw [if_pos hij] at hd
      rw [← Option.some.inj hd] at hlive hf
      exact ⟨c, hij ▸ hc, hopen hlive, hfolders ▸ hf⟩
    · rw [if_neg hij] at hd
      exact ⟨d, hd, hlive, hf⟩

/-- A handler subscribes its connection. -/
theorem agrees_subscribe (h : st.Agrees) (hc : st.connections[i]? = some c) (handlers : List HubHandler)
    (folderId : String) :
    ({ st.setConnection i { c with handlers, folders := addNew folderId c.folders } with
        hub := st.hub.subscribe folderId i } : HubState).Agrees := by
  have hget : ∀ j, (st.setConnection i { c with handlers, folders := addNew folderId c.folders }).connections[j]? =
      if i = j then some { c with handlers, folders := addNew folderId c.folders } else st.connections[j]? :=
    setConnection_get hc
  constructor
  · exact nodup_addNew h.nodup
  · exact paired_subscribe h.paired
  · intro f j hj
    rw [hget]
    rcases mem_subscribe.mp hj with hj | ⟨rfl, rfl⟩
    · obtain ⟨d, hd, hf⟩ := h.believed f j hj
      by_cases hij : i = j
      · rw [if_pos hij]
        rw [← hij, hc] at hd
        rw [← Option.some.inj hd] at hf
        exact ⟨_, rfl, mem_addNew.mpr (.inl hf)⟩
      · rw [if_neg hij]
        exact ⟨d, hd, hf⟩
    · rw [if_pos rfl]
      exact ⟨_, rfl, mem_addNew.mpr (.inr rfl)⟩
  · intro f j hj
    obtain ⟨d, hd, hlive, hf⟩ := hj
    rw [hget] at hd
    apply mem_subscribe.mpr
    by_cases hij : i = j
    · rw [if_pos hij] at hd
      rw [← Option.some.inj hd] at hlive hf
      rcases mem_addNew.mp hf with hf | rfl
      · exact .inl (h.kept f j ⟨c, hij ▸ hc, hlive, hf⟩)
      · exact .inr ⟨rfl, hij.symm⟩
    · rw [if_neg hij] at hd
      exact .inl (h.kept f j ⟨d, hd, hlive, hf⟩)

/-- What the folders of a connection leave of the hub when they are given up. -/
theorem foldl_unsubscribe (folders : List String) (i : ℕ) (h : Hub) :
    let h' := folders.foldl (fun h folderId => h.unsubscribe folderId i) h
    (h.Paired → h'.Paired) ∧ h'.subscriptions.Sublist h.subscriptions ∧
      ∀ f j, (f, j) ∈ h'.subscriptions ↔ (f, j) ∈ h.subscriptions ∧ ¬ (f ∈ folders ∧ j = i) := by
  induction folders generalizing h with
  | nil => exact ⟨id, List.Sublist.refl _, fun f j => by simp⟩
  | cons folderId folders ih =>
    obtain ⟨hpaired, hfewer, hmem⟩ := ih (h.unsubscribe folderId i)
    refine ⟨fun hp => hpaired (paired_unsubscribe hp), hfewer.trans List.filter_sublist, fun f j => ?_⟩
    rw [List.foldl_cons, hmem f j, mem_unsubscribe, List.mem_cons]
    tauto

/-- The listeners of `close`. -/
theorem agrees_closed (h : st.Agrees) (hc : st.connections[i]? = some c)
    (hnodup : hub.subscriptions.Nodup) (hpaired : hub.Paired)
    (hmem : ∀ f j, (f, j) ∈ hub.subscriptions ↔ (f, j) ∈ st.hub.subscriptions ∧ j ≠ i) :
    ({ st.setConnection i { c with folders := [] } with hub } : HubState).Agrees := by
  have hget : ∀ j, (st.setConnection i { c with folders := [] }).connections[j]? =
      if i = j then some { c with folders := [] } else st.connections[j]? := setConnection_get hc
  constructor
  · exact hnodup
  · exact hpaired
  · intro f j hj
    obtain ⟨hj, hne⟩ := (hmem f j).mp hj
    rw [hget, if_neg (Ne.symm hne)]
    exact h.believed f j hj
  · intro f j hj
    obtain ⟨d, hd, hlive, hf⟩ := hj
    rw [hget] at hd
    by_cases hij : i = j
    · rw [if_pos hij] at hd
      rw [← Option.some.inj hd] at hf
      exact absurd hf List.not_mem_nil
    · rw [if_neg hij] at hd
      exact (hmem f j).mpr ⟨h.kept f j ⟨d, hd, hlive, hf⟩, Ne.symm hij⟩

/-- What the listeners of `close` leave of the hub: nothing of the socket. -/
theorem mem_closed (h : st.Agrees) (hc : st.connections[i]? = some c) (all : Bool) :
    let left := c.folders.foldl (fun h folderId => h.unsubscribe folderId i) st.hub
    let hub := if all then left.unsubscribeAll i else left
    hub.subscriptions.Nodup ∧ hub.Paired ∧
      ∀ f j, (f, j) ∈ hub.subscriptions ↔ (f, j) ∈ st.hub.subscriptions ∧ j ≠ i := by
  intro left hub
  obtain ⟨hpaired, hfewer, hmem⟩ := foldl_unsubscribe c.folders i st.hub
  -- each subscription of the socket is one of the connection's folders
  have hleft : ∀ f j, (f, j) ∈ left.subscriptions ↔ (f, j) ∈ st.hub.subscriptions ∧ j ≠ i := by
    intro f j
    rw [hmem f j]
    refine and_congr_right fun hj => ⟨fun hnot he => ?_, fun hne hboth => hne hboth.2⟩
    obtain ⟨d, hd, hf⟩ := h.believed f j hj
    rw [he, hc] at hd
    rw [← Option.some.inj hd] at hf
    exact hnot ⟨hf, he⟩
  cases all with
  | false => exact ⟨h.nodup.sublist hfewer, hpaired h.paired, hleft⟩
  | true =>
    refine ⟨(h.nodup.sublist hfewer).sublist List.filter_sublist, paired_unsubscribeAll (hpaired h.paired), ?_⟩
    intro f j
    show (f, j) ∈ left.subscriptions.filter _ ↔ _
    rw [List.mem_filter, hleft f j]
    refine and_iff_left_of_imp fun hj => ?_
    simp [hj.2]

/-- **Each step** keeps the hub and the connections in agreement. -/
theorem agrees_step (h : st.Agrees) {ev : HubEvent} (hstep : st.step ev = some st') : st'.Agrees := by
  cases ev with
  | connect listens =>
    cases hstep
    constructor
    · exact h.nodup
    · exact h.paired
    · intro f j hj
      obtain ⟨d, hd, hf⟩ := h.believed f j hj
      refine ⟨d, ?_, hf⟩
      rw [List.getElem?_append_left (List.getElem?_eq_some_iff.mp hd).1]
      exact hd
    · intro f j hj
      obtain ⟨d, hd, hlive, hf⟩ := hj
      by_cases hlt : j < st.connections.length
      · rw [List.getElem?_append_left hlt] at hd
        exact h.kept f j ⟨d, hd, hlive, hf⟩
      · rw [List.getElem?_append_right (by omega)] at hd
        rw [List.mem_singleton.mp (List.mem_of_getElem? hd)] at hf
        exact absurd hf List.not_mem_nil
  | subscribe i folderId =>
    rw [step] at hstep
    obtain ⟨c, hc, hstep⟩ := Option.bind_eq_some_iff.mp hstep
    cases hstep
    exact agrees_setConnection h hc id rfl
  | rooted i k found =>
    rw [step] at hstep
    obtain ⟨c, hc, hstep⟩ := Option.bind_eq_some_iff.mp hstep
    obtain ⟨handler, -, hstep⟩ := Option.bind_eq_some_iff.mp hstep
    split at hstep
    · cases hstep
    split at hstep
    · cases hstep
      exact agrees_setConnection h hc id rfl
    · cases hstep
      exact agrees_setConnection h hc id rfl
  | checked i k granted =>
    rw [step] at hstep
    obtain ⟨c, hc, hstep⟩ := Option.bind_eq_some_iff.mp hstep
    obtain ⟨handler, -, hstep⟩ := Option.bind_eq_some_iff.mp hstep
    split at hstep
    · cases hstep
    dsimp only at hstep
    split at hstep
    · cases hstep
      exact agrees_subscribe h hc _ _
    · cases hstep
      exact agrees_setConnection h hc id rfl
  | closing i =>
    rw [step] at hstep
    obtain ⟨c, hc, hstep⟩ := Option.bind_eq_some_iff.mp hstep
    cases hstep
    exact agrees_setConnection h hc (fun hopen => by cases hopen) rfl
  | closed i =>
    rw [step] at hstep
    obtain ⟨c, hc, hstep⟩ := Option.bind_eq_some_iff.mp hstep
    split at hstep
    · cases hstep
    · cases hstep
      obtain ⟨hnodup, hpaired, hmem⟩ := mem_closed h hc (c.listens && st.hub.known.contains i)
      exact agrees_closed h hc hnodup hpaired hmem
  | notify folderId serverSeq throws =>
    cases hstep
    have hnotified := notifyEach_notified st.isOpen throws folderId (st.hub.sockets folderId) st.hub
    constructor
    · exact h.nodup.sublist hnotified.fewer
    · exact hnotified.paired h.paired
    · exact fun f j hj => h.believed f j (hnotified.fewer.subset hj)
    · intro f j hj
      refine (hnotified.dropped f j (h.kept f j hj)).resolve_right fun hclosed => ?_
      obtain ⟨d, hd, hlive, -⟩ := hj
      rw [HubState.isOpen, show st.connections[j]? = some d from hd, Option.any_some, hlive] at hclosed
      cases hclosed

end Steps

/-! ### Every run -/

theorem agrees_run (evs : List HubEvent) : (Run.run HubState.step {} evs).Agrees := by
  have hstart : HubState.Agrees {} := by
    constructor
    · exact List.nodup_nil
    · exact fun f j => ⟨fun hj => absurd hj List.not_mem_nil, fun hj => absurd hj List.not_mem_nil⟩
    · exact fun f j hj => absurd hj List.not_mem_nil
    · rintro f j ⟨d, hd, -⟩
      cases hd
  have hany : Run.Along HubState.step (fun _ _ => True) {} evs := Run.Along.of_forall (fun _ _ => trivial) evs _
  exact Run.run_invariant (fun _ _ _ hst _ hstep => agrees_step hst hstep) hstart hany

/-- **Whom a commit is told.**  Behind any run, in whatever order messages, answers, closings and commits came, a
commit is told once to each open connection that believes to be subscribed, and to no other, unless one of them
throws; and only open sockets are left in the folder's subscriptions.  The hub has no subscription that its connection
does not believe to have, so none of a connection whose `close` was heard behind its last handler. -/
theorem subscribers_are_notified (evs : List HubEvent) (folderId : String) (serverSeq : ℕ) (throws : ℕ → Bool) :
    let st := Run.run HubState.step {} evs
    let st' := (st.step (.notify folderId serverSeq throws)).getD st
    ∃ told : List ℕ, st'.sent = st.sent ++ told.map (fun i => ⟨i, folderId, serverSeq⟩) ∧ told.Nodup ∧
      (∀ i ∈ told, st.Subscribed i folderId) ∧
      (∀ i, st.Subscribed i folderId → i ∈ told ∨ ∃ j, st.Subscribed j folderId ∧ throws j = true) ∧
      (∀ i, (folderId, i) ∈ st'.hub.subscriptions →
        st.Subscribed i folderId ∨ ∃ j, st.Subscribed j folderId ∧ throws j = true) ∧
      ∀ f i c, st.connections[i]? = some c → f ∉ c.folders → (f, i) ∉ st.hub.subscriptions := by
  intro st st'
  have h : st.Agrees := agrees_run evs
  have hnotified := notifyEach_notified st.isOpen throws folderId (st.hub.sockets folderId) st.hub
  -- an open socket of the folder is that of a connection that believes to be subscribed
  have hsubscribed : ∀ i ∈ st.hub.sockets folderId, st.isOpen i = true → st.Subscribed i folderId := by
    intro i hi hlive
    obtain ⟨c, hc, hf⟩ := h.believed folderId i (mem_sockets.mp hi)
    rw [HubState.isOpen, hc, Option.any_some] at hlive
    exact ⟨c, hc, hlive, hf⟩
  have hsocket : ∀ i, st.Subscribed i folderId → i ∈ st.hub.sockets folderId ∧ st.isOpen i = true := by
    intro i hi
    refine ⟨mem_sockets.mpr (h.kept folderId i hi), ?_⟩
    obtain ⟨c, hc, hlive, -⟩ := hi
    rw [HubState.isOpen, hc, Option.any_some, hlive]
  have hthrown : (∃ j ∈ st.hub.sockets folderId, st.isOpen j = true ∧ throws j = true) →
      ∃ j, st.Subscribed j folderId ∧ throws j = true := by
    rintro ⟨j, hj, hlive, hthrows⟩
    exact ⟨j, hsubscribed j hj hlive, hthrows⟩
  refine ⟨(st.hub.notify st.isOpen throws folderId).2, rfl, ?_, fun i hi => ?_, fun i hi => ?_, fun i hi => ?_, ?_⟩
  · exact (nodup_sockets h.nodup).sublist hnotified.inOrder
  · exact hsubscribed i (hnotified.inOrder.subset hi) (hnotified.open_of_told i hi)
  · obtain ⟨hmem, hlive⟩ := hsocket i hi
    exact (hnotified.told_of_open i hmem hlive).imp_right hthrown
  · have hmem : i ∈ st.hub.sockets folderId := mem_sockets.mpr (hnotified.fewer.subset hi)
    exact (hnotified.pruned i hmem hi).imp (hsubscribed i hmem) hthrown
  · intro f i c hc hf hi
    obtain ⟨d, hd, hfd⟩ := h.believed f i hi
    rw [hc] at hd
    rw [← Option.some.inj hd] at hfd
    exact hf hfd

/-- The socket closes while its handler waits: the hub keeps it until the next commit. -/
example :
    let st := Run.run HubState.step {} [.connect false, .subscribe 0 "docs", .rooted 0 0 true, .closing 0, .closed 0,
      .checked 0 0 true]
    st.hub.subscriptions = [("docs", 0)] ∧
      ((st.step (.notify "docs" 1 fun _ => false)).getD st).hub.subscriptions = [] := by decide

end Valv.Server
