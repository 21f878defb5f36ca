import Valv.Lib.Effect
import Valv.Server.Edit

/-!
# Invites under concurrency

Requests that accept one invite, and requests that revoke invites, statement by statement.  The status
of the invite is checked before the transaction that inserts the grant, and the conditional update of
the status does not guard the insert.

* `InviteRequest`: a request and its program.
* `Lone`: the order of statements in which the check still counts when the grant is inserted.
* `AcceptStage`, `RevokeStage`: how far a request has come.
* `invite_granted_once`: under `Lone`, one grant at most, and none behind a revocation.
* `invite_granted_twice`, `invite_granted_revoked`: what other orders lead to.
-/

namespace Valv.Server

open Valv.Conc Valv.Table

/-! ### Requests -/

/-- `POST /invites/:token/accept` or `DELETE /folders/:id/invites/:inviteId`: the requests that race for an invite.
-/
inductive InviteRequest where
  | accept (call : AcceptCall)
  | revoke (principal : Principal) (folderId inviteId : String)
  deriving DecidableEq, Repr

/-- The handler. -/
def InviteRequest.program (be : Backend) : InviteRequest → DbProc Unit
  | .accept call => acceptInvite be call
  | .revoke principal folderId inviteId => deleteInvite principal folderId inviteId

abbrev InvitePool := Pool Db DbKey ApiError Unit

/-- All requests at their first statement. -/
def startInvites (be : Backend) (s : Db) (reqs : List InviteRequest) : InvitePool :=
  Pool.start s (reqs.map (InviteRequest.program be))

/-! ### The invite -/

/-- The invite can be accepted. -/
def Db.pending (s : Db) (inviteToken : String) : Bool :=
  s.folderInvites.any fun i => i.inviteToken = inviteToken && i.status = .pending

/-- The invite was accepted. -/
def Db.accepted (s : Db) (inviteToken : String) : Bool :=
  s.folderInvites.any fun i => i.inviteToken = inviteToken && i.status = .accepted

/-- The token is the one of this invite. -/
def Db.Names (s : Db) (inviteToken inviteId : String) : Prop :=
  ∀ i ∈ s.folderInvites, i.inviteToken = inviteToken → i.inviteId = inviteId

/-- `UPDATE folder_invites SET status = 'accepted' …`, on the rows. -/
def acceptRows (inviteToken : String) (rows : List FolderInviteRow) : List FolderInviteRow :=
  rows.map fun r => if r.inviteToken = inviteToken ∧ r.status = .pending then { r with status := .accepted } else r

/-! ### What comes next -/

namespace InvitePool

/-- What the next statement of thread `i` leaves. -/
def after (p : InvitePool) (i : ℕ) : Db := ((p.step i).map Pool.state).getD p.state

/-- The next statement of thread `i` puts a grant in the table: the insert itself or, inside of a transaction, the
commit behind it. -/
def Inserts (p : InvitePool) (i : ℕ) : Prop := p.state.folderGrants.length < (p.after i).folderGrants.length

/-- Thread `i` is between its insert and its update of the status, with no transaction around them; a revocation
that comes now still finds the invite pending. -/
def Midway (inviteToken : String) (p : InvitePool) (i : ℕ) : Prop :=
  (p.threads[i]?.any fun t => t.pending.isNone) = true ∧ p.state.pending inviteToken = true ∧
    (p.after i).pending inviteToken = false ∧ (p.after i).accepted inviteToken = true

/-- **The check still counts**: a grant is put in the table only while the invite is pending, and while nobody
else is between the insert and the update. -/
def Lone (inviteToken : String) (p : InvitePool) (i : ℕ) : Prop :=
  p.Inserts i → p.state.pending inviteToken = true ∧ ∀ j < p.threads.length, ¬ p.Midway inviteToken j

instance (p : InvitePool) (i : ℕ) : Decidable (p.Inserts i) := inferInstanceAs (Decidable (_ < _))

instance (inviteToken : String) (p : InvitePool) (i : ℕ) : Decidable (p.Midway inviteToken i) :=
  inferInstanceAs (Decidable (_ ∧ _ ∧ _ ∧ _))

instance (inviteToken : String) (p : InvitePool) (i : ℕ) : Decidable (p.Lone inviteToken i) :=
  inferInstanceAs (Decidable (p.Inserts i → _ ∧ ∀ j < p.threads.length, ¬ p.Midway inviteToken j))

/-- A revocation of the invite was answered with 204, so its sender takes the invite for dead. -/
def Revoked (reqs : List InviteRequest) (inviteId : String) (p : InvitePool) : Prop :=
  ∃ i < reqs.length, (∃ principal folderId, reqs[i]? = some (.revoke principal folderId inviteId)) ∧
    p.threads[i]?.bind Thread.result = some (.ok ())

end InvitePool

/-! ### How far a request has come -/

/-- A body inside its brackets. -/
def closing (onError onOk : Ctl DbKey) (body : DbProc Unit) : DbProc Unit :=
  (body.attempt fun e => .ctl onError (.fail e)) >>= fun a => .ctl onOk (.done a)

/-- The rest of an accept whose grant is inserted, with no transaction around it. -/
def halfAccepted (inviteToken : String) : DbProc Unit := closing .release .release (acceptFolderInvite inviteToken)

/-- An accept, with the writes of its open transaction. -/
inductive AcceptStage (be : Backend) (inviteToken : String) : Option (Db → Db) → DbProc Unit → Prop
  | done : AcceptStage be inviteToken none (.done ())
  | fail (e : ApiError) : AcceptStage be inviteToken none (.fail e)
  | reads (put : Db → Db → Db) (next : Db → DbProc Unit) : (∀ v s, put v s = s) →
      (∀ v, AcceptStage be inviteToken none (next v)) → AcceptStage be inviteToken none (.act put next)
  | enters (n : String) (row : FolderGrantRow) :
      AcceptStage be inviteToken none (inTransaction be n (acceptBody inviteToken row))
  -- in a transaction
  | begun (row : FolderGrantRow) (w : Db → Db) : (∀ s, w s = s) →
      AcceptStage be inviteToken (some w) (closing .rollback .commit (acceptBody inviteToken row))
  | inserted (row : FolderGrantRow) (w : Db → Db) :
      (∀ s, w s = { s with folderGrants := s.folderGrants ++ [row] }) →
      AcceptStage be inviteToken (some w) (closing .rollback .commit (acceptFolderInvite inviteToken))
  | updated (row : FolderGrantRow) (w : Db → Db) :
      (∀ s, w s = { s with
        folderGrants := s.folderGrants ++ [row], folderInvites := acceptRows inviteToken s.folderInvites }) →
      AcceptStage be inviteToken (some w) (.ctl .commit (.done ()))
  | rollsBack (e : ApiError) (w : Db → Db) : AcceptStage be inviteToken (some w) (.ctl .rollback (.fail e))
  -- with none around it
  | claimed (row : FolderGrantRow) :
      AcceptStage be inviteToken none (closing .release .release (acceptBody inviteToken row))
  | half : AcceptStage be inviteToken none (halfAccepted inviteToken)
  | leaves : AcceptStage be inviteToken none (.ctl .release (.done ()))
  | givesUp (e : ApiError) : AcceptStage be inviteToken none (.ctl .release (.fail e))

/-- The invites are those that there were, and none has become pending again. -/
def InvitesKept (s s' : Db) : Prop :=
  ∀ i ∈ s'.folderInvites, ∃ j ∈ s.folderInvites, j.inviteToken = i.inviteToken ∧ j.inviteId = i.inviteId ∧
    (i.status = .pending → j.status = .pending)

/-- What a statement does about the grants: nothing, or it puts one in the table, and then either the invite
is not pending any more, or the thread goes on to change that. -/
inductive GrantTurn (inviteToken : String) (s s' : Db) (t' : Thread Db DbKey ApiError Unit) : Prop
  | quiet : s'.folderGrants = s.folderGrants → GrantTurn inviteToken s s' t'
  | inserts (row : FolderGrantRow) : s'.folderGrants = s.folderGrants ++ [row] →
      (s'.pending inviteToken = false ∨ (t'.pending = none ∧ t'.prog = halfAccepted inviteToken)) →
      GrantTurn inviteToken s s' t'

section Stages

variable {be : Backend} {inviteToken : String} {s s' : Db}

theorem invitesKept_of_eq (h : s'.folderInvites = s.folderInvites) : InvitesKept s s' := by
  intro i hi
  rw [h] at hi
  exact ⟨i, hi, rfl, rfl, id⟩

theorem InvitesKept.pending (h : InvitesKept s s') (hp : s'.pending inviteToken = true) :
    s.pending inviteToken = true := by
  obtain ⟨i, hi, hcond⟩ := List.any_eq_true.mp hp
  simp only [Bool.and_eq_true, decide_eq_true_eq] at hcond
  obtain ⟨j, hj, htoken, -, hstatus⟩ := h i hi
  exact List.any_eq_true.mpr ⟨j, hj, by simp [htoken, hcond.1, hstatus hcond.2]⟩

theorem InvitesKept.names {inviteId : String} (h : InvitesKept s s') (hn : s.Names inviteToken inviteId) :
    s'.Names inviteToken inviteId := by
  intro i hi htoken
  obtain ⟨j, hj, htoken', hid, -⟩ := h i hi
  rw [← hid]
  exact hn j hj (htoken'.trans htoken)

theorem acceptRows_kept (h : s'.folderInvites = acceptRows inviteToken s.folderInvites) : InvitesKept s s' := by
  intro i hi
  rw [h, acceptRows] at hi
  obtain ⟨j, hj, rfl⟩ := List.mem_map.mp hi
  refine ⟨j, hj, ?_⟩
  split <;> simp

/-- Nothing is pending behind the update. -/
theorem pending_acceptRows (h : s'.folderInvites = acceptRows inviteToken s.folderInvites) :
    s'.pending inviteToken = false := by
  rw [Db.pending, h, acceptRows, List.any_eq_false]
  intro i hi
  obtain ⟨j, hj, rfl⟩ := List.mem_map.mp hi
  by_cases hcond : j.inviteToken = inviteToken ∧ j.status = .pending
  · simp [hcond]
  · rw [if_neg hcond]
    simpa using hcond

theorem accepted_acceptRows (h : s'.folderInvites = acceptRows inviteToken s.folderInvites)
    (hp : s.pending inviteToken = true) : s'.accepted inviteToken = true := by
  obtain ⟨i, hi, hcond⟩ := List.any_eq_true.mp hp
  simp only [Bool.and_eq_true, decide_eq_true_eq] at hcond
  rw [Db.accepted, h, acceptRows]
  refine List.any_eq_true.mpr ⟨_, List.mem_map_of_mem hi, ?_⟩
  simp [hcond]

/-- The insert, with no transaction around it. -/
theorem step_insert {busy : DbKey → Bool} {t t' : Thread Db DbKey ApiError Unit} {onError onOk : Ctl DbKey}
    {row : FolderGrantRow} (hprog : t.prog = closing onError onOk (acceptBody inviteToken row))
    (hpending : t.pending = none) (hs : t.step busy s = some (s', t')) :
    t'.pending = none ∧ ((∃ e, s' = s ∧ t'.prog = .ctl onError (.fail e)) ∨
      (s' = { s with folderGrants := s.folderGrants ++ [row] } ∧
        t'.prog = closing onError onOk (acceptFolderInvite inviteToken))) := by
  obtain ⟨prog, held, pending⟩ := t
  dsimp only at hprog hpending
  subst hprog hpending
  have hstep : some ((if (s.grantViolation row).isNone then { s with folderGrants := s.folderGrants ++ [row] } else s),
      ({ prog := _, held, pending := none } : Thread Db DbKey ApiError Unit)) = some (s', t') := hs
  cases hstep
  refine ⟨rfl, ?_⟩
  cases hcheck : s.grantViolation row with
  | some e =>
    refine .inl ⟨e, rfl, ?_⟩
    simp only [hcheck]
    rfl
  | none =>
    refine .inr ⟨rfl, ?_⟩
    simp only [hcheck]
    rfl

/-- The insert in a transaction. -/
theorem step_insert_pending {busy : DbKey → Bool} {t t' : Thread Db DbKey ApiError Unit} {onError onOk : Ctl DbKey}
    {row : FolderGrantRow} {w : Db → Db} (hprog : t.prog = closing onError onOk (acceptBody inviteToken row))
    (hpending : t.pending = some w) (hw : ∀ s, w s = s) (hs : t.step busy s = some (s', t')) :
    s' = s ∧ ∃ w', t'.pending = some w' ∧ ((∃ e, t'.prog = .ctl onError (.fail e)) ∨
      ((∀ s, w' s = { s with folderGrants := s.folderGrants ++ [row] }) ∧
        t'.prog = closing onError onOk (acceptFolderInvite inviteToken))) := by
  obtain ⟨prog, held, pending⟩ := t
  dsimp only at hprog hpending
  subst hprog hpending
  have hstep : some (s, ({ prog := _, held, pending := some fun x =>
      if ((w s).grantViolation row).isNone then { w x with folderGrants := (w x).folderGrants ++ [row] } else w x } :
      Thread Db DbKey ApiError Unit)) = some (s', t') := hs
  cases hstep
  refine ⟨rfl, _, rfl, ?_⟩
  cases hcheck : (w s).grantViolation row with
  | some e =>
    refine .inl ⟨e, ?_⟩
    simp only [hcheck]
    rfl
  | none =>
    refine .inr ⟨fun x => ?_, ?_⟩
    · rw [hw x]
      rfl
    · simp only [hcheck]
      rfl

/-- **One statement of an accept.** -/
theorem AcceptStage.step {busy : DbKey → Bool} {t t' : Thread Db DbKey ApiError Unit}
    (h : AcceptStage be inviteToken t.pending t.prog) (hs : t.step busy s = some (s', t')) :
    AcceptStage be inviteToken t'.pending t'.prog ∧ InvitesKept s s' ∧ GrantTurn inviteToken s s' t' := by
  obtain ⟨prog, held, pending⟩ := t
  dsimp only at h
  cases h with
  | done => cases hs
  | fail e => cases hs
  | reads put next hput hnext =>
    cases hs
    rw [hput]
    exact ⟨hnext s, invitesKept_of_eq rfl, .quiet rfl⟩
  | enters n row =>
    cases be with
    | pg =>
      cases hs
      exact ⟨.begun row id fun _ => rfl, invitesKept_of_eq rfl, .quiet rfl⟩
    | sqlite =>
      cases hs
      exact ⟨.claimed row, invitesKept_of_eq rfl, .quiet rfl⟩
  | begun row w hw =>
    obtain ⟨rfl, w', hpending, ⟨e, hprog⟩ | ⟨hw', hprog⟩⟩ := step_insert_pending rfl rfl hw hs
    · rw [hpending, hprog]
      exact ⟨.rollsBack e w', invitesKept_of_eq rfl, .quiet rfl⟩
    · rw [hpending, hprog]
      exact ⟨.inserted row w' hw', invitesKept_of_eq rfl, .quiet rfl⟩
  | inserted row w hw =>
    cases hs
    refine ⟨.updated row _ fun x => ?_, invitesKept_of_eq rfl, .quiet rfl⟩
    dsimp only
    rw [hw x]
    rfl
  | updated row w hw =>
    cases hs
    have hrows : (w s).folderInvites = acceptRows inviteToken s.folderInvites := by rw [hw]
    have hgrants : (w s).folderGrants = s.folderGrants ++ [row] := by rw [hw]
    exact ⟨.done, acceptRows_kept hrows, .inserts row hgrants (.inl (pending_acceptRows hrows))⟩
  | rollsBack e w =>
    cases hs
    exact ⟨.fail e, invitesKept_of_eq rfl, .quiet rfl⟩
  | claimed row =>
    obtain ⟨hpending, ⟨e, rfl, hprog⟩ | ⟨rfl, hprog⟩⟩ := step_insert rfl rfl hs
    · rw [hpending, hprog]
      exact ⟨.givesUp e, invitesKept_of_eq rfl, .quiet rfl⟩
    · rw [hpending, hprog]
      exact ⟨.half, invitesKept_of_eq rfl, .inserts row rfl (.inr ⟨hpending, hprog⟩)⟩
  | half =>
    cases hs
    exact ⟨.leaves, acceptRows_kept rfl, .quiet rfl⟩
  | leaves =>
    cases hs
    exact ⟨.done, invitesKept_of_eq rfl, .quiet rfl⟩
  | givesUp e =>
    cases hs
    exact ⟨.fail e, invitesKept_of_eq rfl, .quiet rfl⟩

theorem AcceptStage.bind {α : Type} {p : DbProc α} {f : α → DbProc Unit} (hp : p.ReadOnly)
    (hf : ∀ a, AcceptStage be inviteToken none (f a)) : AcceptStage be inviteToken none (p >>= f) := by
  induction p with
  | done a => exact hf a
  | fail e => exact .fail e
  | act put next ih => exact .reads put _ hp.1 fun v => ih v (hp.2 v)
  | draw next ih => exact hp.elim
  | ctl c next ih => exact hp.elim

/-- The checks in front of the transaction. -/
theorem acceptStage_start {call : AcceptCall} (hcall : call.inviteToken = inviteToken) :
    AcceptStage be inviteToken none (acceptInvite be call) := by
  subst hcall
  rw [acceptInvite]
  cases call.principal with
  | device deviceId => exact .fail _
  | user userId =>
    refine AcceptStage.bind (Proc.readOnly_read _) fun invite => ?_
    cases invite with
    | none => exact .fail _
    | some invite =>
      dsimp only
      split
      · exact .done
      · split
        · exact .fail _
        · split
          · exact .fail _
          · exact .enters _ _

/-- A revocation that has not deleted the invite. -/
inductive Revoking (inviteId : String) : DbProc Unit → Prop
  | fail (e : ApiError) : Revoking inviteId (.fail e)
  | reads (put : Db → Db → Db) (next : Db → DbProc Unit) : (∀ v s, put v s = s) →
      (∀ v, Revoking inviteId (next v)) → Revoking inviteId (.act put next)
  | deletes : Revoking inviteId (deleteFolderInvite inviteId)

theorem Revoking.bind {α : Type} {inviteId : String} {p : DbProc α} {f : α → DbProc Unit} (hp : p.ReadOnly)
    (hf : ∀ a, Revoking inviteId (f a)) : Revoking inviteId (p >>= f) := by
  induction p with
  | done a => exact hf a
  | fail e => exact .fail e
  | act put next ih => exact .reads put _ hp.1 fun v => ih v (hp.2 v)
  | draw next ih => exact hp.elim
  | ctl c next ih => exact hp.elim

theorem revoking_deleteInvite (principal : Principal) (folderId inviteId : String) :
    Revoking inviteId (deleteInvite principal folderId inviteId) := by
  have hroot : (getFolderRoot folderId).ReadOnly := Proc.readOnly_read _
  refine Revoking.bind hroot fun root => ?_
  refine Revoking.bind (requireFound_readOnly _ _) fun rootNodeId => ?_
  refine Revoking.bind (requireUserBackedPrincipal_readOnly _) fun u => ?_
  refine Revoking.bind (requireWrite_readOnly _ _) fun _ => ?_
  refine Revoking.bind (Proc.readOnly_read _) fun invite => ?_
  cases invite with
  | none => exact .fail _
  | some invite =>
    dsimp only
    split
    · exact .fail _
    · split
      · exact .fail _
      · exact .deletes

/-- A revocation that goes on, or has made sure that the invite it names is not pending. -/
def RevokeStage (inviteToken inviteId revokedId : String) (s : Db) (t : Thread Db DbKey ApiError Unit) : Prop :=
  t.pending = none ∧ (Revoking revokedId t.prog ∨
    (t.prog = .done () ∧ (revokedId = inviteId → s.pending inviteToken = false)))

/-- **One statement of a revocation.** -/
theorem RevokeStage.step {busy : DbKey → Bool} {inviteId revokedId : String}
    {t t' : Thread Db DbKey ApiError Unit} (h : RevokeStage inviteToken inviteId revokedId s t)
    (hn : s.Names inviteToken inviteId) (hs : t.step busy s = some (s', t')) :
    RevokeStage inviteToken inviteId revokedId s' t' ∧ InvitesKept s s' ∧ s'.folderGrants = s.folderGrants := by
  obtain ⟨prog, held, pending⟩ := t
  obtain ⟨rfl, hrevoking | ⟨rfl, -⟩⟩ := h
  · dsimp only at hrevoking
    cases hrevoking with
    | fail e => cases hs
    | reads put next hput hnext =>
      cases hs
      rw [hput]
      exact ⟨⟨rfl, .inl (hnext s)⟩, invitesKept_of_eq rfl, rfl⟩
    | deletes =>
      cases hs
      refine ⟨⟨rfl, .inr ⟨rfl, fun hid => ?_⟩⟩, fun i hi => ⟨i, (List.mem_filter.mp hi).1, rfl, rfl, id⟩, rfl⟩
      refine List.any_eq_false.mpr fun i hi => ?_
      obtain ⟨hold, hkept⟩ := List.mem_filter.mp hi
      have hother : i.inviteToken ≠ inviteToken := by
        intro htoken
        simp [hn i hold htoken, hid] at hkept
      simp [hother]
  · cases hs

end Stages

/-! ### The invariant -/

/-- How far the thread of a request has come. -/
def InviteRequest.Stage (be : Backend) (inviteToken inviteId : String) (s : Db) (t : Thread Db DbKey ApiError Unit) :
    InviteRequest → Prop
  | .accept _ => AcceptStage be inviteToken t.pending t.prog
  | .revoke _ _ revokedId => RevokeStage inviteToken inviteId revokedId s t

/-- One grant at most has been put in the table, and while the invite is still pending behind it, the thread
that did so is about to change that. -/
structure InviteInv (be : Backend) (inviteToken inviteId : String) (s₀ : Db) (reqs : List InviteRequest)
    (p : InvitePool) : Prop where
  names : p.state.Names inviteToken inviteId
  stages : ∀ (i : ℕ) (t : Thread Db DbKey ApiError Unit), p.threads[i]? = some t →
    ∃ req : InviteRequest, reqs[i]? = some req ∧ req.Stage be inviteToken inviteId p.state t
  granted : ∃ new, p.state.folderGrants = s₀.folderGrants ++ new ∧ new.length ≤ 1 ∧
    (new ≠ [] → p.state.pending inviteToken = true →
      ∃ (i : ℕ) (t : Thread Db DbKey ApiError Unit), p.threads[i]? = some t ∧ t.pending = none ∧
        t.prog = halfAccepted inviteToken)

section Invariant

variable {be : Backend} {inviteToken inviteId : String} {s₀ : Db} {reqs : List InviteRequest} {p p' : InvitePool}
  {i : ℕ}

open InvitePool

/-- What the update of the status leaves. -/
theorem step_half {t : Thread Db DbKey ApiError Unit} (ht : p.threads[i]? = some t) (hpending : t.pending = none)
    (hprog : t.prog = halfAccepted inviteToken) :
    (p.after i).folderInvites = acceptRows inviteToken p.state.folderInvites := by
  obtain ⟨prog, held, pending⟩ := t
  dsimp only at hpending hprog
  subst hpending hprog
  simp only [InvitePool.after, Pool.step, ht]
  rfl

theorem after_of_step (hs : p.step i = some p') : p.after i = p'.state := by
  rw [InvitePool.after, hs]
  rfl

/-- **One statement of any request** keeps the invariant. -/
theorem InviteInv.step (h : InviteInv be inviteToken inviteId s₀ reqs p) (hok : p.Lone inviteToken i)
    (hs : p.step i = some p') : InviteInv be inviteToken inviteId s₀ reqs p' := by
  obtain ⟨new, hgrants, hlength, hhalf⟩ := h.granted
  have hafter := after_of_step hs
  obtain ⟨t, t', s', ht, hstep, rfl⟩ := Pool.step_cases hs
  obtain ⟨req, hreq, hstage⟩ := h.stages i t ht
  have hturn : req.Stage be inviteToken inviteId s' t' ∧ InvitesKept p.state s' ∧
      GrantTurn inviteToken p.state s' t' := by
    cases req with
    | accept call => exact AcceptStage.step hstage hstep
    | revoke principal folderId revokedId =>
      obtain ⟨hstage', hkept, hsame⟩ := RevokeStage.step hstage h.names hstep
      exact ⟨hstage', hkept, .quiet hsame⟩
  obtain ⟨hstage', hkept, hturn⟩ := hturn
  refine ⟨hkept.names h.names, fun j u hu => ?_, ?_⟩
  · rcases Pool.getElem?_set_cases hu with ⟨rfl, rfl⟩ | ⟨-, hu⟩
    · exact ⟨req, hreq, hstage'⟩
    · obtain ⟨req', hreq', hold⟩ := h.stages j u hu
      refine ⟨req', hreq', ?_⟩
      cases req' with
      | accept call => exact hold
      | revoke principal folderId revokedId =>
        refine ⟨hold.1, hold.2.imp_right fun hdone => ⟨hdone.1, fun hid => ?_⟩⟩
        by_contra hpending
        have hwas := hkept.pending (Bool.not_eq_false _ ▸ hpending)
        rw [hdone.2 hid] at hwas
        cases hwas
  · cases hturn with
    | quiet hsame =>
      refine ⟨new, hsame.trans hgrants, hlength, fun hnew hpending => ?_⟩
      obtain ⟨j, u, hu, hu', hprog⟩ := hhalf hnew (hkept.pending hpending)
      by_cases hij : i = j
      · -- the thread makes its update
        subst hij
        have hrows := step_half hu hu' hprog
        rw [hafter] at hrows
        rw [pending_acceptRows hrows] at hpending
        cases hpending
      · refine ⟨j, u, ?_, hu', hprog⟩
        rw [List.getElem?_set_ne hij]
        exact hu
    | inserts row hinsert hnext =>
      have hinserts : p.Inserts i := by
        rw [Inserts, hafter]
        show p.state.folderGrants.length < s'.folderGrants.length
        rw [hinsert, List.length_append]
        simp
      obtain ⟨hpending, hlone⟩ := hok hinserts
      have hnone : new = [] := by
        by_contra hnew
        obtain ⟨j, u, hu, hu', hprog⟩ := hhalf hnew hpending
        have hrows := step_half hu hu' hprog
        refine hlone j (List.getElem?_eq_some_iff.mp hu).1 ⟨?_, hpending, pending_acceptRows hrows,
          accepted_acceptRows hrows hpending⟩
        rw [hu, Option.any_some, hu']
        rfl
      subst hnone
      refine ⟨[row], ?_, le_rfl, fun _ hstill => ?_⟩
      · show s'.folderGrants = _
        rw [hinsert, hgrants, List.append_nil]
      · rcases hnext with hgone | ⟨hnext, hprog⟩
        · rw [hgone] at hstill
          cases hstill
        · refine ⟨i, t', ?_, hnext, hprog⟩
          rw [List.getElem?_set_self (List.getElem?_eq_some_iff.mp ht).1]

theorem InviteInv.start (hnames : s₀.Names inviteToken inviteId)
    (htoken : ∀ call, .accept call ∈ reqs → call.inviteToken = inviteToken) :
    InviteInv be inviteToken inviteId s₀ reqs (startInvites be s₀ reqs) where
  names := hnames
  stages i t ht := by
    simp only [startInvites, Pool.start, List.map_map, List.getElem?_map, Option.map_eq_some_iff] at ht
    obtain ⟨req, hreq, rfl⟩ := ht
    refine ⟨req, hreq, ?_⟩
    cases req with
    | accept call => exact acceptStage_start (htoken call (List.mem_of_getElem? hreq))
    | revoke principal folderId revokedId => exact ⟨rfl, .inl (revoking_deleteInvite principal folderId revokedId)⟩
  granted := ⟨[], (List.append_nil _).symm, Nat.zero_le 1, fun hne => absurd rfl hne⟩

/-- Once a revocation was answered, no grant is put in the table. -/
theorem InviteInv.revoked (h : InviteInv be inviteToken inviteId s₀ reqs p) (hok : p.Lone inviteToken i)
    (hrevoked : p.Revoked reqs inviteId) : ¬ p.Inserts i := by
  intro hinserts
  obtain ⟨j, -, ⟨principal, folderId, hreq⟩, hresult⟩ := hrevoked
  obtain ⟨t, ht, hdone⟩ := Option.bind_eq_some_iff.mp hresult
  obtain ⟨req, hreq', hstage⟩ := h.stages j t ht
  cases hreq.symm.trans hreq'
  obtain ⟨prog, held, pending⟩ := t
  obtain ⟨-, hrevoking | ⟨-, hgone⟩⟩ := hstage
  · dsimp only at hrevoking
    cases hrevoking with
    | fail e => cases hdone
    | reads put next hput hnext => cases hdone
    | deletes => cases hdone
  · have hpending := (hok hinserts).1
    rw [hgone rfl] at hpending
    cases hpending

end Invariant

/-- What is asked for: the requests put one grant in the table at most, and none once a revocation of the
invite was answered. -/
def GrantedOnce (s₀ : Db) (be : Backend) (inviteId : String) (reqs : List InviteRequest) (schedule : List ℕ) : Prop :=
  (∃ new, (Pool.run (startInvites be s₀ reqs) schedule).state.folderGrants = s₀.folderGrants ++ new ∧
      new.length ≤ 1) ∧
    Pool.Along (fun p i => InvitePool.Revoked reqs inviteId p → ¬ InvitePool.Inserts p i)
      (startInvites be s₀ reqs) schedule

/-- **One invite, one grant.**  Any number of accepts of one token, by any users, and any number of revocations,
in any order of their statements, on Postgres and on SQLite.  Along every schedule in which a grant is put in
the table only while the invite is pending and nobody else is between the insert and the update of its status:
there is one grant at most, and none behind a revocation that was answered. -/
theorem invite_granted_once (be : Backend) (s₀ : Db) (inviteToken inviteId : String) (reqs : List InviteRequest)
    (schedule : List ℕ) (hnames : s₀.Names inviteToken inviteId)
    (htoken : ∀ call, .accept call ∈ reqs → call.inviteToken = inviteToken)
    (hok : Pool.Along (InvitePool.Lone inviteToken) (startInvites be s₀ reqs) schedule) :
    GrantedOnce s₀ be inviteId reqs schedule := by
  have hstart : InviteInv be inviteToken inviteId s₀ reqs (startInvites be s₀ reqs) := .start hnames htoken
  have hstep : ∀ p i p', InviteInv be inviteToken inviteId s₀ reqs p → InvitePool.Lone inviteToken p i →
      p.step i = some p' → InviteInv be inviteToken inviteId s₀ reqs p' := fun _ _ _ h hok hs => h.step hok hs
  refine ⟨?_, hok.of_invariant hstep (fun _ _ h hok => h.revoked hok) hstart⟩
  obtain ⟨new, hgrants, hlength, -⟩ := (Run.run_invariant hstep hstart hok).granted
  exact ⟨new, hgrants, hlength⟩

/-! ### Runs -/

/-- A folder of alice's, and an invite to it. -/
def inviteDb : Db where
  sharedFolders := ["f"]
  nodes := [{ nodeId := "root", folderId := "f", parentId := none, name := "", type := .folder }]
  folderGrants := [{ grantId := "g", folderId := "f", scopeNodeId := "root", userId := some "alice", deviceId := none,
                     canRead := true, canWrite := true }]
  folderInvites := [{ inviteId := "i", inviteToken := "t", folderId := "f", scopeNodeId := "root",
                      invitedByUserId := "alice", canWrite := true, expiresAt := 10 }]

/-- The user accepts the invite. -/
def acceptBy (userId grantId : String) : InviteRequest :=
  .accept { principal := .user userId, inviteToken := "t", now := 0, grantId }

/-- Bob and carol accept, and alice revokes. -/
def inviteReqs : List InviteRequest :=
  [acceptBy "bob" "g1", acceptBy "carol" "g2", .revoke (.user "alice") "f" "i"]

/-- Carol looks at the invite once bob's request has gone through. -/
theorem invite_granted_once_turns : GrantedOnce inviteDb .pg "i" inviteReqs ([0, 0, 0, 0, 2, 0, 1] ++ List.replicate 9 2) :=
  invite_granted_once .pg inviteDb "t" "i" inviteReqs _ (by simp [Db.Names, inviteDb])
    (by simp [inviteReqs, acceptBy]) (by decide +kernel)

/-- Bob and carol both see a pending invite. -/
def bothCheck : List ℕ := [0, 1] ++ List.replicate 4 0 ++ List.replicate 4 1

/-- Alice revokes behind bob's check, which then goes on to its insert. -/
def revokeBehindCheck : List ℕ := [0] ++ List.replicate 9 2 ++ [0]

/-- **The check is stale when the grant is inserted**: two grants for one invite, and a grant for an invite that
was revoked. -/
theorem invite_granted_twice : ¬ GrantedOnce inviteDb .pg "i" inviteReqs bothCheck ∧
    ¬ GrantedOnce inviteDb .sqlite "i" inviteReqs (revokeBehindCheck ++ [0]) := by
  constructor
  · intro h
    obtain ⟨new, hgrants, hlength⟩ := h.1
    have hthree : (Pool.run (startInvites .pg inviteDb inviteReqs) bothCheck).state.folderGrants.length = 3 := by
      decide +kernel
    rw [hgrants, List.length_append] at hthree
    simp [inviteDb] at hthree
    omega
  · intro h
    have hrevoked : (Pool.run (startInvites .sqlite inviteDb inviteReqs) revokeBehindCheck).threads[2]?.bind
        Thread.result = some (.ok ()) := by decide +kernel
    have hinserts : InvitePool.Inserts (Pool.run (startInvites .sqlite inviteDb inviteReqs) revokeBehindCheck) 0 := by
      decide +kernel
    exact (Run.along_append.mp h.2).2.1 ⟨2, by decide, ⟨_, _, rfl⟩, hrevoked⟩ hinserts

end Valv.Server
