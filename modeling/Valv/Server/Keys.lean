import Valv.Lib.Effect
import Valv.Lib.Isolation
import Valv.Server.Edit
import Valv.Server.Sqlite

/-!
# Access keys under concurrency

Requests that revoke one access key, and requests that regenerate it, statement by statement.  A revocation
deletes the grant and then marks the token, with nothing around the two; a regeneration reads the grant in its
transaction and does not lock it.

* `AccessKey`: the key that the requests are about.
* `RevokeKeyStage`, `RegenerateStage`, `CallbackStage`: how far a request has come.
* `KeyInv`: the key and all requests, over the committed database; `KeyInv.step`: one statement of any of them.
* `keyFinal_pool`, `keyFinal_connection`: whole runs, on Postgres and, through `Pooled`, on one connection.
* `key_revoked_for_good`: both, under the order of statements that each of them needs.
* `key_replaced_behind_revocation`: what other orders lead to.
-/

namespace Valv.Server

open Valv.Conc Valv.Table

/-! ### The key -/

/-- `authenticateRequest`, for the hash of a token. -/
def Db.authenticate (s : Db) (tokenHash : String) : Option String :=
  (s.devices.find? fun r => r.tokenHash = tokenHash).map DeviceRow.deviceId

/-- An access key: its grant, its device and the hash of its token, which is not the mark of a revocation. -/
structure AccessKey where
  row : FolderGrantRow
  deviceId : String
  tokenHash : String
  device : truthy row.deviceId = some deviceId
  hashed : revokedHash row.grantId ≠ tokenHash

namespace AccessKey

variable (key : AccessKey)

/-- The grant is as it was made, or gone, and the token is one of this device. -/
structure Sound (s : Db) : Prop where
  grant : ∀ g, s.grant key.row.grantId = some g → g = key.row
  token : ∀ r ∈ s.devices, r.tokenHash = key.tokenHash → r.deviceId = key.deviceId

/-- The grant is gone. -/
def Gone (s : Db) : Prop := s.grant key.row.grantId = none

/-- The token authenticates nobody any more. -/
def Dead (s : Db) : Prop := s.authenticate key.tokenHash = none

/-- What is gone stays gone. -/
structure Later (s s' : Db) : Prop where
  sound : key.Sound s → key.Sound s'
  gone : key.Gone s → key.Gone s'
  dead : key.Dead s → key.Dead s'

/-- `DELETE FROM folder_grants …`, on the database. -/
def deleted (s : Db) : Db :=
  { s with folderGrants := s.folderGrants.filter fun g => g.grantId ≠ key.row.grantId }

/-- `UPDATE devices SET token_hash = 'revoked:…' …`, on the database. -/
def marked (s : Db) : Db :=
  { s with
    devices := update DeviceRow.deviceId key.deviceId (fun r => { r with tokenHash := revokedHash key.row.grantId })
      s.devices }

end AccessKey

section Effects

variable {key : AccessKey} {s : Db}

theorem AccessKey.Later.refl (s : Db) : key.Later s s := ⟨id, id, id⟩

theorem AccessKey.Later.trans {s' s'' : Db} (h : key.Later s s') (h' : key.Later s' s'') : key.Later s s'' :=
  ⟨fun hs => h'.sound (h.sound hs), fun hs => h'.gone (h.gone hs), fun hs => h'.dead (h.dead hs)⟩

theorem dead_iff : key.Dead s ↔ ∀ r ∈ s.devices, r.tokenHash ≠ key.tokenHash := by
  rw [AccessKey.Dead, Db.authenticate, Option.map_eq_none_iff, List.find?_eq_none]
  simp

theorem gone_iff : key.Gone s ↔ ∀ g ∈ s.folderGrants, g.grantId ≠ key.row.grantId := lookup_eq_none

theorem gone_deleted : key.Gone (key.deleted s) := by
  refine gone_iff.mpr fun g hg => ?_
  simpa using (List.mem_filter.mp hg).2

theorem later_deleted : key.Later s (key.deleted s) where
  sound h := by
    refine ⟨fun g hg => ?_, h.token⟩
    have hgone : (key.deleted s).grant key.row.grantId = none := gone_deleted
    rw [hgone] at hg
    cases hg
  gone _ := gone_deleted
  dead h := h

/-- A device is one of before, perhaps marked. -/
theorem mem_marked {r : DeviceRow} (h : r ∈ (key.marked s).devices) :
    (r.tokenHash = revokedHash key.row.grantId ∧ r.deviceId = key.deviceId) ∨ (r ∈ s.devices ∧ r.deviceId ≠ key.deviceId) := by
  obtain ⟨r', hr', rfl⟩ := mem_update.mp h
  split
  · next hid => exact .inl ⟨rfl, hid⟩
  · next hid => exact .inr ⟨hr', hid⟩

/-- **The mark ends the token.** -/
theorem dead_marked (h : key.Sound s) : key.Dead (key.marked s) := by
  refine dead_iff.mpr fun r hr => ?_
  rcases mem_marked hr with ⟨htoken, -⟩ | ⟨hold, hid⟩
  · rw [htoken]
    exact key.hashed
  · exact fun htoken => hid (h.token r hold htoken)

theorem later_marked : key.Later s (key.marked s) where
  sound h := by
    refine ⟨h.grant, fun r hr htoken => ?_⟩
    rcases mem_marked hr with ⟨-, hid⟩ | ⟨hold, -⟩
    · exact hid
    · exact h.token r hold htoken
  gone h := h
  dead h := by
    refine dead_iff.mpr fun r hr => ?_
    rcases mem_marked hr with ⟨htoken, -⟩ | ⟨hold, -⟩
    · rw [htoken]
      exact key.hashed
    · exact dead_iff.mp h r hold

/-- Another device, with another token. -/
theorem later_device {r : DeviceRow} (hne : r.tokenHash ≠ key.tokenHash) :
    key.Later s { s with devices := s.devices ++ [r] } where
  sound h := by
    refine ⟨h.grant, fun r' hr' htoken => ?_⟩
    rcases List.mem_append.mp hr' with hr' | hr'
    · exact h.token r' hr' htoken
    · rw [List.mem_singleton.mp hr'] at htoken
      exact absurd htoken hne
  gone h := h
  dead h := by
    refine dead_iff.mpr fun r' hr' => ?_
    rcases List.mem_append.mp hr' with hr' | hr'
    · exact dead_iff.mp h r' hr'
    · rw [List.mem_singleton.mp hr']
      exact hne

/-- Another grant. -/
theorem later_grant {g : FolderGrantRow} (hne : g.grantId ≠ key.row.grantId) :
    key.Later s { s with folderGrants := s.folderGrants ++ [g] } where
  sound h := by
    refine ⟨fun g' hg' => h.grant g' ?_, h.token⟩
    have hfound : lookup FolderGrantRow.grantId key.row.grantId (s.folderGrants ++ [g]) = some g' := hg'
    rw [lookup_append, lookup_cons, if_neg hne, lookup_nil, Option.or_none] at hfound
    exact hfound
  gone h := by
    refine gone_iff.mpr fun g' hg' => ?_
    rcases List.mem_append.mp hg' with hg' | hg'
    · exact gone_iff.mp h g' hg'
    · rw [List.mem_singleton.mp hg']
      exact hne
  dead h := h

end Effects

/-! ### Requests -/

/-- `DELETE /folders/:id/grants/:grantId` or `POST /folders/:id/grants/:grantId/regenerate`. -/
inductive KeyRequest where
  | revoke (principal : Principal)
  | regenerate (call : RegenerateCall)
  deriving DecidableEq, Repr

/-- The handler. -/
def KeyRequest.program (grantId : String) : KeyRequest → DbProc String
  | .revoke principal => deleteGrant principal grantId
  | .regenerate call => regenerateGrant call

/-- The request is about the key; a new key has an id and a token of its own. -/
def KeyRequest.About (key : AccessKey) : KeyRequest → Prop
  | .revoke _ => True
  | .regenerate call => call.grantId = key.row.grantId ∧ call.newGrantId ≠ key.row.grantId ∧
      call.tokenHash ≠ key.tokenHash

/-! ### Revocations -/

/-- A revocation that has checked the grant. -/
def deletesKey (key : AccessKey) : DbProc String := do
  deleteFolderGrant key.row.grantId
  updateTokenHash key.deviceId (revokedHash key.row.grantId)
  pure key.row.grantId

/-- A revocation that has deleted the grant. -/
def marksKey (key : AccessKey) : DbProc String := do
  updateTokenHash key.deviceId (revokedHash key.row.grantId)
  pure key.row.grantId

/-- How far a revocation has come, in the database `s`. -/
inductive RevokeKeyStage (key : AccessKey) (s : Db) : DbProc String → Prop
  | fail (e : ApiError) : RevokeKeyStage key s (.fail e)
  | reads (put : Db → Db → Db) (next : Db → DbProc String) : (∀ v s, put v s = s) →
      (∀ v, key.Sound v → RevokeKeyStage key s (next v)) → RevokeKeyStage key s (.act put next)
  | deletes : RevokeKeyStage key s (deletesKey key)
  | marks : key.Gone s → RevokeKeyStage key s (marksKey key)
  | done : key.Gone s → key.Dead s → RevokeKeyStage key s (.done key.row.grantId)

section Revoke

variable {key : AccessKey} {s s' : Db} {prog : DbProc String}

theorem RevokeKeyStage.bind {α : Type} {P : α → Prop} {p : DbProc α} {f : α → DbProc String}
    (hp : p.Yields key.Sound P) (hf : ∀ a, P a → RevokeKeyStage key s (f a)) : RevokeKeyStage key s (p >>= f) := by
  induction p with
  | done a => exact hf a hp
  | fail e => exact .fail e
  | act put next ih => exact .reads put _ hp.1 fun v hv => ih v (hp.2 v hv)
  | draw next _ => exact hp.elim
  | ctl c next _ => exact hp.elim

theorem RevokeKeyStage.later (h : RevokeKeyStage key s prog) (hs : key.Later s s') : RevokeKeyStage key s' prog := by
  induction h with
  | fail e => exact .fail e
  | reads put next hput _ ih => exact .reads put next hput ih
  | deletes => exact .deletes
  | marks hgone => exact .marks (hs.gone hgone)
  | done hgone hdead => exact .done (hs.gone hgone) (hs.dead hdead)

/-- The grant that the checks find is the one of the key. -/
theorem checkGrantTarget_yields (principal : Principal) (errorCode : String) :
    (checkGrantTarget principal key.row.grantId errorCode).Yields key.Sound fun target => target.1 = key.row := by
  refine (requireUserBackedPrincipal_readOnly _).yields.bind fun u _ => ?_
  refine Proc.Yields.bind (Proc.yields_read (P := fun g => ∀ row, g = some row → row = key.row)
    fun v hv row hrow => hv.grant row hrow) fun g hg => ?_
  cases g with
  | none => exact True.intro
  | some target => exact (requireWrite_readOnly _ _).yields.bind fun _ _ => hg target rfl

theorem revokeKeyStage_start (principal : Principal) : RevokeKeyStage key s (deleteGrant principal key.row.grantId) := by
  refine RevokeKeyStage.bind (checkGrantTarget_yields principal _) fun target htarget => ?_
  obtain ⟨row, u⟩ := target
  have hrow : row = key.row := htarget
  subst hrow
  have hrest : (deleteFolderGrant key.row.grantId >>= fun _ => revokeToken key.row.grantId key.row.deviceId >>= fun _ =>
      (pure key.row.grantId : DbProc String)) = deletesKey key := by
    rw [revokeToken, key.device]
    rfl
  dsimp only
  rw [hrest]
  exact .deletes

/-- **One statement of a revocation.** -/
theorem RevokeKeyStage.act (h : RevokeKeyStage key s prog) {put : Db → Db → Db} {next : Db → DbProc String}
    (hprog : prog = .act put next) (hs : key.Sound s) :
    RevokeKeyStage key (put s s) (next s) ∧ key.Later s (put s s) ∧
      ∀ g ∈ (put s s).folderGrants, g ∈ s.folderGrants := by
  cases h with
  | fail e => cases hprog
  | reads put' next' hput hnext =>
    cases hprog
    rw [hput]
    exact ⟨hnext s hs, .refl s, fun _ hg => hg⟩
  | deletes =>
    obtain ⟨rfl, rfl⟩ := Proc.act.inj (show Proc.act _ _ = Proc.act put next from hprog)
    exact ⟨.marks gone_deleted, later_deleted, fun _ hg => (List.mem_filter.mp hg).1⟩
  | marks hgone =>
    obtain ⟨rfl, rfl⟩ := Proc.act.inj (show Proc.act _ _ = Proc.act put next from hprog)
    exact ⟨.done (later_marked.gone hgone) (dead_marked hs), later_marked, fun _ hg => hg⟩
  | done hgone hdead => cases hprog

/-- A revocation begins no transaction. -/
theorem RevokeKeyStage.no_ctl (h : RevokeKeyStage key s prog) {c : Ctl DbKey} {next : DbProc String} :
    prog ≠ .ctl c next := by
  cases h with
  | fail e => exact fun he => by cases he
  | reads put next hput hnext => exact fun he => by cases he
  | deletes => exact fun he => by cases he
  | marks hgone => exact fun he => by cases he
  | done hgone hdead => exact fun he => by cases he

end Revoke

/-! ### Regenerations -/

/-- What the callback's value is answered with. -/
def regenerated : Option String → DbProc String
  | none => .fail (.response 400 "grant_has_no_token")
  | some grantId => pure grantId

/-- What is left of a regeneration whose callback has come to `body`. -/
def inCallback (body : DbProc (Option String)) : DbProc String :=
  ((body.attempt fun e => .ctl .rollback (.fail e)) >>= fun a => .ctl .commit (.done a)) >>= regenerated

/-- The hook. -/
def runHook (call : RegenerateCall) : DbProc (Option String) :=
  match call.onBeforeCommit with
  | some error => .fail error
  | none => pure (some call.newGrantId)

/-- The callback from the insert of the grant on. -/
def insertsGrant (key : AccessKey) (call : RegenerateCall) (u : String) : DbProc (Option String) :=
  insertFolderGrant (call.row key.row u) >>= fun _ => runHook call

/-- The callback from the insert of the device on. -/
def insertsDevice (key : AccessKey) (call : RegenerateCall) (u name : String) : DbProc (Option String) :=
  insertDevice (call.device name) >>= fun _ => insertsGrant key call u

/-- The callback from the mark on. -/
def marksOld (key : AccessKey) (call : RegenerateCall) (u name : String) : DbProc (Option String) :=
  updateTokenHash key.deviceId (revokedHash call.grantId) >>= fun _ => insertsDevice key call u name

/-- The callback from the delete on. -/
def deletesOld (key : AccessKey) (call : RegenerateCall) (u name : String) : DbProc (Option String) :=
  deleteFolderGrant call.grantId >>= fun _ => marksOld key call u name

/-- The callback from the name of the device on. -/
def readsName (key : AccessKey) (call : RegenerateCall) (u : String) : DbProc (Option String) :=
  loadDeviceName key.deviceId >>= fun name => deletesOld key call u name

/-- The callback from the answer to its first read on. -/
def grantFound (call : RegenerateCall) (u : String) : Option FolderGrantRow → DbProc (Option String)
  | none => pure none
  | some old =>
    match truthy old.deviceId with
    | none => pure none
    | some oldDeviceId => do
      let name ← loadDeviceName oldDeviceId
      deleteFolderGrant call.grantId
      updateTokenHash oldDeviceId (revokedHash call.grantId)
      insertDevice (call.device name)
      insertFolderGrant (call.row old u)
      runHook call

theorem grantFound_row (key : AccessKey) (call : RegenerateCall) (u : String) :
    grantFound call u (some key.row) = readsName key call u := by
  rw [grantFound, key.device]
  rfl

/-- The database with the new key instead of the old one. -/
def AccessKey.replaced (key : AccessKey) (call : RegenerateCall) (u name : String) (s : Db) : Db :=
  let old := key.marked (key.deleted s)
  { old with devices := old.devices ++ [call.device name], folderGrants := old.folderGrants ++ [call.row key.row u] }

/-- A regeneration before its transaction, or one that was refused. -/
inductive RegenerateStage (key : AccessKey) (call : RegenerateCall) : DbProc String → Prop
  | fail (e : ApiError) : RegenerateStage key call (.fail e)
  | reads (put : Db → Db → Db) (next : Db → DbProc String) : (∀ v s, put v s = s) →
      (∀ v, key.Sound v → RegenerateStage key call (next v)) → RegenerateStage key call (.act put next)
  | begins (u : String) : RegenerateStage key call (.ctl .begin (inCallback (regenerateBody call u)))

/-- A regeneration in its transaction, with the writes it has made so far; `seen` is what it may rely on once it has
found the grant. -/
inductive CallbackStage (key : AccessKey) (call : RegenerateCall) (seen : Prop) : (Db → Db) → DbProc String → Prop
  | starts (u : String) (w : Db → Db) : (∀ s, w s = s) →
      CallbackStage key call seen w (inCallback (regenerateBody call u))
  | name (u : String) (w : Db → Db) : seen → (∀ s, w s = s) →
      CallbackStage key call seen w (inCallback (readsName key call u))
  | deletes (u name : String) (w : Db → Db) : seen → (∀ s, w s = s) →
      CallbackStage key call seen w (inCallback (deletesOld key call u name))
  | marks (u name : String) (w : Db → Db) : seen → (∀ s, w s = key.deleted s) →
      CallbackStage key call seen w (inCallback (marksOld key call u name))
  | device (u name : String) (w : Db → Db) : seen → (∀ s, w s = key.marked (key.deleted s)) →
      CallbackStage key call seen w (inCallback (insertsDevice key call u name))
  | grant (u name : String) (w : Db → Db) : seen → (∀ s, w s = { key.marked (key.deleted s) with
        devices := (key.marked (key.deleted s)).devices ++ [call.device name] }) →
      CallbackStage key call seen w (inCallback (insertsGrant key call u))
  | commits (u name : String) (w : Db → Db) : seen → (∀ s, w s = key.replaced call u name s) →
      CallbackStage key call seen w (.ctl .commit (.done call.newGrantId))
  | leaves (e : ApiError) (w : Db → Db) : (∀ s, w s = s) → CallbackStage key call seen w (.ctl .commit (.fail e))
  | rollsBack (e : ApiError) (w : Db → Db) : (∀ s, key.Later s (w s)) →
      CallbackStage key call seen w (.ctl .rollback (.fail e))

section Regenerate

variable {key : AccessKey} {call : RegenerateCall} {s s' : Db} {w : Db → Db} {seen : Prop} {prog : DbProc String}

theorem RegenerateStage.bind {α : Type} {P : α → Prop} {p : DbProc α} {f : α → DbProc String}
    (hp : p.Yields key.Sound P) (hf : ∀ a, P a → RegenerateStage key call (f a)) :
    RegenerateStage key call (p >>= f) := by
  induction p with
  | done a => exact hf a hp
  | fail e => exact .fail e
  | act put next ih => exact .reads put _ hp.1 fun v hv => ih v (hp.2 v hv)
  | draw next _ => exact hp.elim
  | ctl c next _ => exact hp.elim

theorem regenerateStage_start (hcall : call.grantId = key.row.grantId) :
    RegenerateStage key call (regenerateGrant call) := by
  have htarget : (checkGrantTarget call.principal key.row.grantId "access_key_cannot_issue_keys").Yields key.Sound
      fun target => target.1 = key.row := checkGrantTarget_yields _ _
  rw [← hcall] at htarget
  refine RegenerateStage.bind htarget fun target _ => ?_
  exact RegenerateStage.bind (refuseIf_readOnly _ _ _).yields fun _ _ => .begins target.2

/-- Nothing is answered in front of the transaction. -/
theorem RegenerateStage.unanswered (h : RegenerateStage key call prog) (id : String) : prog ≠ .done id := by
  rintro rfl
  cases h

theorem later_replaced (hcall : KeyRequest.About key (.regenerate call)) (u name : String) (s : Db) :
    key.Later s (key.replaced call u name s) := by
  obtain ⟨-, hid, htoken⟩ := hcall
  have hold : key.Later s (key.marked (key.deleted s)) := later_deleted.trans later_marked
  exact hold.trans ((later_device htoken).trans (later_grant hid))

theorem gone_replaced (hcall : KeyRequest.About key (.regenerate call)) (u name : String) (s : Db) :
    key.Gone (key.replaced call u name s) := by
  obtain ⟨-, hid, htoken⟩ := hcall
  have hrest : key.Later (key.deleted s) (key.replaced call u name s) :=
    later_marked.trans ((later_device htoken).trans (later_grant hid))
  exact hrest.gone gone_deleted

/-- What stands next in a transaction. -/
theorem CallbackStage.next (h : CallbackStage key call seen w prog) : (∃ put next, prog = .act put next) ∨
    (seen ∧ prog = .ctl .commit (.done call.newGrantId) ∧ ∃ u name, ∀ s, w s = key.replaced call u name s) ∨
    (∃ e, prog = .ctl .commit (.fail e) ∧ ∀ s, w s = s) ∨ ∃ e, prog = .ctl .rollback (.fail e) := by
  cases h with
  | starts u w hw => exact .inl ⟨_, _, rfl⟩
  | name u w hseen hw => exact .inl ⟨_, _, rfl⟩
  | deletes u name w hseen hw => exact .inl ⟨_, _, rfl⟩
  | marks u name w hseen hw => exact .inl ⟨_, _, rfl⟩
  | device u name w hseen hw => exact .inl ⟨_, _, rfl⟩
  | grant u name w hseen hw => exact .inl ⟨_, _, rfl⟩
  | commits u name w hseen hw => exact .inr (.inl ⟨hseen, rfl, u, name, hw⟩)
  | leaves e w hw => exact .inr (.inr (.inl ⟨e, rfl, hw⟩))
  | rollsBack e w hw => exact .inr (.inr (.inr ⟨e, rfl⟩))

/-- What a transaction has written so far takes nothing back. -/
theorem CallbackStage.later_writes (h : CallbackStage key call seen w prog)
    (hcall : KeyRequest.About key (.regenerate call)) (s : Db) : key.Later s (w s) := by
  have hmarked : key.Later s (key.marked (key.deleted s)) := later_deleted.trans later_marked
  cases h with
  | starts u w hw => rw [hw]; exact .refl s
  | name u w hseen hw => rw [hw]; exact .refl s
  | deletes u name w hseen hw => rw [hw]; exact .refl s
  | marks u name w hseen hw => rw [hw]; exact later_deleted
  | device u name w hseen hw => rw [hw]; exact hmarked
  | grant u name w hseen hw => rw [hw]; exact hmarked.trans (later_device hcall.2.2)
  | commits u name w hseen hw => rw [hw]; exact later_replaced hcall u name s
  | leaves e w hw => rw [hw]; exact .refl s
  | rollsBack e w hw => exact hw s

/-- **One statement in the transaction**, which sees `w s`. -/
theorem CallbackStage.act (h : CallbackStage key call seen w prog) (hcall : KeyRequest.About key (.regenerate call))
    {put : Db → Db → Db} {next : Db → DbProc String} (hprog : prog = .act put next) (hs : key.Sound s)
    (hseen : ¬ key.Gone s → seen) : CallbackStage key call seen (fun x => put (w s) (w x)) (next (w s)) := by
  have hlater := fun x => h.later_writes hcall x
  have hid := hcall.1
  cases h with
  | starts u w hw =>
    obtain ⟨rfl, rfl⟩ := Proc.act.inj (show Proc.act _ _ = Proc.act put next from hprog)
    show CallbackStage key call seen w (inCallback (grantFound call u ((w s).grant call.grantId)))
    rw [hw, hid]
    cases hfound : s.grant key.row.grantId with
    | none => exact .leaves _ w hw
    | some g =>
      have hrow := hs.grant g hfound
      subst hrow
      have hthere : seen := hseen fun hgone => by
        rw [AccessKey.Gone, hfound] at hgone
        cases hgone
      rw [grantFound_row]
      exact .name u w hthere hw
  | name u w hthere hw =>
    obtain ⟨rfl, rfl⟩ := Proc.act.inj (show Proc.act _ _ = Proc.act put next from hprog)
    exact .deletes u _ _ hthere hw
  | deletes u name w hthere hw =>
    obtain ⟨rfl, rfl⟩ := Proc.act.inj (show Proc.act _ _ = Proc.act put next from hprog)
    refine .marks u name _ hthere fun x => ?_
    rw [hw x, hid]
    rfl
  | marks u name w hthere hw =>
    obtain ⟨rfl, rfl⟩ := Proc.act.inj (show Proc.act _ _ = Proc.act put next from hprog)
    refine .device u name _ hthere fun x => ?_
    rw [hw x, hid]
    rfl
  | device u name w hthere hw =>
    obtain ⟨rfl, rfl⟩ := Proc.act.inj (show Proc.act _ _ = Proc.act put next from hprog)
    cases hcheck : (lookup DeviceRow.deviceId (call.device name).deviceId (w s).devices).isSome with
    | true =>
      simp only [hcheck]
      exact .rollsBack _ _ hlater
    | false =>
      simp only [hcheck]
      refine .grant u name _ hthere fun x => ?_
      show ({ w x with devices := (w x).devices ++ [call.device name] } : Db) = _
      rw [hw x]
  | grant u name w hthere hw =>
    obtain ⟨rfl, rfl⟩ := Proc.act.inj (show Proc.act _ _ = Proc.act put next from hprog)
    cases hcheck : (w s).grantViolation (call.row key.row u) with
    | some e =>
      simp only [hcheck]
      exact .rollsBack _ _ hlater
    | none =>
      have hwrites : ∀ x, ({ w x with folderGrants := (w x).folderGrants ++ [call.row key.row u] } : Db) =
          key.replaced call u name x := fun x => by rw [hw x]; rfl
      cases hhook : call.onBeforeCommit with
      | none =>
        simp only [hcheck, runHook, hhook]
        exact .commits u name _ hthere hwrites
      | some e =>
        simp only [hcheck, runHook, hhook]
        refine .rollsBack _ _ fun x => ?_
        show key.Later x ({ w x with folderGrants := (w x).folderGrants ++ [call.row key.row u] } : Db)
        rw [hwrites]
        exact later_replaced hcall u name x
  | commits u name w hthere hw => cases hprog
  | leaves e w hw => cases hprog
  | rollsBack e w hw => cases hprog

end Regenerate

/-! ### Threads -/

/-- Requests on one key. -/
abbrev KeyPool := Pool Db DbKey ApiError String

/-- All requests at their first statement. -/
def startKeys (key : AccessKey) (s₀ : Db) (reqs : List KeyRequest) : KeyPool :=
  .start s₀ (reqs.map (KeyRequest.program key.row.grantId))

/-- The next statement commits an answer. -/
def answersNext (t : Thread Db DbKey ApiError String) : Bool :=
  match t.prog with
  | .ctl .commit (.done _) => true
  | _ => false

instance (key : AccessKey) (s : Db) : Decidable (key.Gone s) := inferInstanceAs (Decidable (_ = _))

/-- A new key is committed only while the old one is there. Else the revocation has come between, and the new key
would outlive it. -/
def FreshCommit (key : AccessKey) (p : KeyPool) (i : ℕ) : Prop :=
  (p.threads[i]?.any answersNext) = true → ¬ key.Gone p.state

instance (key : AccessKey) (p : KeyPool) (i : ℕ) : Decidable (FreshCommit key p i) :=
  inferInstanceAs (Decidable (_ → _))

/-- How far the thread of a request has come. -/
def KeyRequest.Stage (key : AccessKey) (seen : Prop) (s : Db) (t : Thread Db DbKey ApiError String) : KeyRequest → Prop
  | .revoke _ => t.pending = none ∧ RevokeKeyStage key s t.prog
  | .regenerate call => (t.pending = none ∧ (RegenerateStage key call t.prog ∨
      (t.prog = .done call.newGrantId ∧ key.Gone s))) ∨ ∃ w, t.pending = some w ∧ CallbackStage key call seen w t.prog

/-- What a statement has done to the database. -/
inductive KeyTurn (key : AccessKey) (s s' : Db) (t' : Thread Db DbKey ApiError String) : KeyRequest → Prop
  | quiet (req : KeyRequest) : s' = s → (∀ call, req = .regenerate call → ∀ id, t'.prog ≠ .done id) →
      KeyTurn key s s' t' req
  | revokes (principal : Principal) : (∀ g ∈ s'.folderGrants, g ∈ s.folderGrants) → t'.pending = none →
      KeyTurn key s s' t' (.revoke principal)
  | replaces (call : RegenerateCall) : ¬ key.Gone s → t'.prog = .done call.newGrantId → t'.pending = none →
      KeyTurn key s s' t' (.regenerate call)

section Turns

variable {key : AccessKey} {seen seen' : Prop} {s s' : Db} {t t' : Thread Db DbKey ApiError String}
  {req : KeyRequest} {busy : DbKey → Bool}

theorem CallbackStage.mono {call : RegenerateCall} {w : Db → Db} {prog : DbProc String}
    (h : CallbackStage key call seen w prog) (hseen : seen → seen') : CallbackStage key call seen' w prog := by
  cases h with
  | starts u w hw => exact .starts u w hw
  | name u w hthere hw => exact .name u w (hseen hthere) hw
  | deletes u name w hthere hw => exact .deletes u name w (hseen hthere) hw
  | marks u name w hthere hw => exact .marks u name w (hseen hthere) hw
  | device u name w hthere hw => exact .device u name w (hseen hthere) hw
  | grant u name w hthere hw => exact .grant u name w (hseen hthere) hw
  | commits u name w hthere hw => exact .commits u name w (hseen hthere) hw
  | leaves e w hw => exact .leaves e w hw
  | rollsBack e w hw => exact .rollsBack e w hw

/-- A thread that others have run besides. -/
theorem KeyRequest.Stage.later (h : req.Stage key seen s t) (hs : key.Later s s')
    (hseen : t.pending ≠ none → seen → seen') : req.Stage key seen' s' t := by
  cases req with
  | revoke principal => exact ⟨h.1, h.2.later hs⟩
  | regenerate call =>
    rcases h with ⟨hpending, hstage | ⟨hprog, hgone⟩⟩ | ⟨w, hpending, hstage⟩
    · exact .inl ⟨hpending, .inl hstage⟩
    · exact .inl ⟨hpending, .inr ⟨hprog, hs.gone hgone⟩⟩
    · refine .inr ⟨w, hpending, hstage.mono (hseen ?_)⟩
      rw [hpending]
      exact Option.some_ne_none w

/-- **One statement of any request.** -/
theorem KeyRequest.Stage.step (h : req.Stage key seen s t) (habout : req.About key) (hsound : key.Sound s)
    (hseen : ¬ key.Gone s → seen) (hfresh : answersNext t = true → ¬ key.Gone s)
    (hs : t.step busy s = some (s', t')) :
    req.Stage key seen s' t' ∧ key.Later s s' ∧ KeyTurn key s s' t' req := by
  obtain ⟨prog, held, pending⟩ := t
  cases req with
  | revoke principal =>
    obtain ⟨rfl, hstage⟩ := h
    dsimp only at hstage
    cases prog with
    | done a => cases hs
    | fail e => cases hs
    | draw next => cases hstage
    | ctl c next => exact absurd rfl hstage.no_ctl
    | act put next =>
      cases hs
      obtain ⟨hnext, hlater, hgrants⟩ := hstage.act rfl hsound
      exact ⟨⟨rfl, hnext⟩, hlater, .revokes principal hgrants rfl⟩
  | regenerate call =>
    rcases h with ⟨rfl, hstage | ⟨rfl, hgone⟩⟩ | ⟨w, rfl, hstage⟩
    · dsimp only at hstage
      cases hstage with
      | fail e => cases hs
      | reads put next hput hnext =>
        cases hs
        rw [hput]
        refine ⟨.inl ⟨rfl, .inl (hnext s hsound)⟩, .refl s, .quiet _ rfl fun call' hcall id hdone => ?_⟩
        exact (hnext s hsound).unanswered id hdone
      | begins u =>
        cases hs
        exact ⟨.inr ⟨id, rfl, .starts u id fun _ => rfl⟩, .refl s, .quiet _ rfl fun _ _ _ hdone => by cases hdone⟩
    · cases hs
    · dsimp only at hstage
      rcases hstage.next with ⟨put, next, rfl⟩ | ⟨hthere, rfl, u, name, hw⟩ | ⟨e, rfl, hw⟩ | ⟨e, rfl⟩
      · cases hs
        have hnext := hstage.act habout rfl hsound hseen
        refine ⟨.inr ⟨_, rfl, hnext⟩, .refl s, .quiet _ rfl fun call' hcall id hdone => ?_⟩
        rw [show next (w s) = .done id from hdone] at hnext
        rcases hnext.next with ⟨_, _, h⟩ | ⟨_, h, _⟩ | ⟨_, h, _⟩ | ⟨_, h⟩ <;> cases h
      · cases hs
        show KeyRequest.Stage key seen (w s) _ _ ∧ key.Later s (w s) ∧ _
        rw [hw]
        exact ⟨.inl ⟨rfl, .inr ⟨rfl, gone_replaced habout u name s⟩⟩, later_replaced habout u name s,
          .replaces call (hfresh rfl) rfl rfl⟩
      · cases hs
        show KeyRequest.Stage key seen (w s) _ _ ∧ key.Later s (w s) ∧ KeyTurn key s (w s) _ _
        rw [hw]
        exact ⟨.inl ⟨rfl, .inl (.fail e)⟩, .refl s, .quiet _ rfl fun _ _ _ hdone => by cases hdone⟩
      · cases hs
        exact ⟨.inl ⟨rfl, .inl (.fail e)⟩, .refl s, .quiet _ rfl fun _ _ _ hdone => by cases hdone⟩

/-- What stands next in the thread of a request. -/
theorem KeyRequest.Stage.next (h : req.Stage key seen s t) : (∃ e, t.prog = .fail e) ∨
    (∃ put next, t.prog = .act put next) ∨
    (∃ id, t.prog = .done id ∧ key.Gone s ∧ (∀ principal, req = .revoke principal → key.Dead s)) ∨
    (∃ next, t.prog = .ctl .begin next ∧ t.pending = none) ∨
    (∃ id, t.prog = .ctl .commit (.done id) ∧ t.pending ≠ none ∧ seen) ∨
    (∃ e, t.prog = .ctl .commit (.fail e) ∧ t.pending ≠ none) ∨
    (∃ e, t.prog = .ctl .rollback (.fail e) ∧ t.pending ≠ none) := by
  obtain ⟨prog, held, pending⟩ := t
  cases req with
  | revoke principal =>
    obtain ⟨rfl, hstage⟩ := h
    dsimp only at hstage
    cases hstage with
    | fail e => exact .inl ⟨e, rfl⟩
    | reads put next hput hnext => exact .inr (.inl ⟨put, next, rfl⟩)
    | deletes => exact .inr (.inl ⟨_, _, rfl⟩)
    | marks hgone => exact .inr (.inl ⟨_, _, rfl⟩)
    | done hgone hdead => exact .inr (.inr (.inl ⟨_, rfl, hgone, fun _ _ => hdead⟩))
  | regenerate call =>
    rcases h with ⟨rfl, hstage | ⟨rfl, hgone⟩⟩ | ⟨w, rfl, hstage⟩
    · dsimp only at hstage
      cases hstage with
      | fail e => exact .inl ⟨e, rfl⟩
      | reads put next hput hnext => exact .inr (.inl ⟨put, next, rfl⟩)
      | begins u => exact .inr (.inr (.inr (.inl ⟨_, rfl, rfl⟩)))
    · exact .inr (.inr (.inl ⟨_, rfl, hgone, fun _ h => by cases h⟩))
    · dsimp only at hstage
      have hsome : some w ≠ none := Option.some_ne_none w
      rcases hstage.next with ⟨put, next, rfl⟩ | ⟨hthere, rfl, -⟩ | ⟨e, rfl, -⟩ | ⟨e, rfl⟩
      · exact .inr (.inl ⟨put, next, rfl⟩)
      · exact .inr (.inr (.inr (.inr (.inl ⟨_, rfl, hsome, hthere⟩))))
      · exact .inr (.inr (.inr (.inr (.inr (.inl ⟨e, rfl, hsome⟩)))))
      · exact .inr (.inr (.inr (.inr (.inr (.inr ⟨e, rfl, hsome⟩)))))

/-- A request that was answered has taken the grant away, and a revocation has ended the token as well. -/
theorem KeyRequest.Stage.answered {id : String} (h : req.Stage key seen s t) (ha : t.result = some (.ok id)) :
    key.Gone s ∧ ∀ principal, req = .revoke principal → key.Dead s := by
  obtain ⟨prog, held, pending⟩ := t
  rcases h.next with ⟨e, rfl⟩ | ⟨put, next, rfl⟩ | ⟨id, rfl, hgone⟩ | ⟨next, rfl, -⟩ | ⟨id, rfl, -⟩ | ⟨e, rfl, -⟩ |
    ⟨e, rfl, -⟩
  · cases ha
  · cases ha
  · exact hgone
  · cases ha
  · cases ha
  · cases ha
  · cases ha

/-- No request draws a number or waits for a key, and its brackets match. -/
theorem KeyRequest.Stage.plain (h : req.Stage key seen s t) : t.Plain := by
  obtain ⟨prog, held, pending⟩ := t
  rcases h.next with ⟨e, rfl⟩ | ⟨put, next, rfl⟩ | ⟨id, rfl, -⟩ | ⟨next, rfl, hpending⟩ | ⟨id, rfl, hpending, -⟩ |
    ⟨e, rfl, hpending⟩ | ⟨e, rfl, hpending⟩
  · exact True.intro
  · exact True.intro
  · exact True.intro
  · exact hpending
  · exact hpending
  · exact hpending
  · exact hpending

/-- Who commits an answer has found the grant. -/
theorem KeyRequest.Stage.hasSeen (h : req.Stage key seen s t) (ha : answersNext t = true) : seen := by
  obtain ⟨prog, held, pending⟩ := t
  rcases h.next with ⟨e, rfl⟩ | ⟨put, next, rfl⟩ | ⟨id, rfl, -⟩ | ⟨next, rfl, -⟩ | ⟨id, rfl, -, hseen⟩ | ⟨e, rfl, -⟩ |
    ⟨e, rfl, -⟩
  · cases ha
  · cases ha
  · cases ha
  · cases ha
  · exact hseen
  · cases ha
  · cases ha

end Turns

/-! ### The invariant -/

/-- **The invariant.**  The key is as it was or gone, every thread is in its stage, and one regeneration at most was
answered.  Where transactions are alone, who has found the grant can rely on it. -/
structure KeyInv (key : AccessKey) (reqs : List KeyRequest) (alone : Prop) (p : KeyPool) : Prop where
  sound : key.Sound p.state
  stages : ∀ (i : ℕ) (t : Thread Db DbKey ApiError String), p.threads[i]? = some t →
    ∃ req : KeyRequest, reqs[i]? = some req ∧ req.About key ∧ req.Stage key (alone → ¬ key.Gone p.state) p.state t
  once : ∀ (i j : ℕ) (call call' : RegenerateCall) (id id' : String), reqs[i]? = some (.regenerate call) →
    reqs[j]? = some (.regenerate call') → p.answer i = some (.ok id) → p.answer j = some (.ok id') → i = j

section Invariant

variable {key : AccessKey} {reqs : List KeyRequest} {alone : Prop} {s₀ : Db} {p p' : KeyPool} {i : ℕ}

theorem KeyInv.start (hsound : key.Sound s₀) (habout : ∀ req ∈ reqs, req.About key) :
    KeyInv key reqs alone (startKeys key s₀ reqs) where
  sound := hsound
  stages i t ht := by
    simp only [startKeys, Pool.start, List.map_map, List.getElem?_map, Option.map_eq_some_iff] at ht
    obtain ⟨req, hreq, rfl⟩ := ht
    refine ⟨req, hreq, habout req (List.mem_of_getElem? hreq), ?_⟩
    cases req with
    | revoke principal => exact ⟨rfl, revokeKeyStage_start principal⟩
    | regenerate call =>
      exact .inl ⟨rfl, .inl (regenerateStage_start (habout _ (List.mem_of_getElem? hreq)).1)⟩
  once i j call call' id id' hi hj ha hb := by
    -- nobody is
    obtain ⟨t, ht, hresult⟩ := Option.bind_eq_some_iff.mp ha
    simp only [startKeys, Pool.start, List.map_map, List.getElem?_map, hi, Option.map_some, Option.some.injEq] at ht
    subst ht
    have hcall := (habout _ (List.mem_of_getElem? hi)).1
    have hprog : regenerateGrant call = .done id := by
      have hresult' : Thread.result { prog := regenerateGrant call } = some (.ok id) := hresult
      rw [Thread.result] at hresult'
      split at hresult'
      · next a hdone =>
        cases hresult'
        exact hdone
      · cases hresult'
      · cases hresult'
    exact absurd hprog ((regenerateStage_start hcall).unanswered id)

/-- Where transactions are alone, a commit is of what was read. -/
theorem KeyInv.fresh (h : KeyInv key reqs True p) : FreshCommit key p i := by
  intro hanswers
  obtain ⟨t, ht, ha⟩ := (Option.any_eq_true _ _).mp hanswers
  obtain ⟨req, -, -, hstage⟩ := h.stages i t ht
  exact hstage.hasSeen ha True.intro

/-- The request of whoever was answered. -/
theorem KeyInv.answered (h : KeyInv key reqs alone p) {id : String} (ha : p.answer i = some (.ok id)) :
    ∃ req, reqs[i]? = some req ∧ key.Gone p.state ∧ ∀ principal, req = .revoke principal → key.Dead p.state := by
  obtain ⟨t, ht, hresult⟩ := Option.bind_eq_some_iff.mp ha
  obtain ⟨req, hreq, -, hstage⟩ := h.stages i t ht
  exact ⟨req, hreq, hstage.answered hresult⟩

/-- **One statement of any request** keeps the invariant. -/
theorem KeyInv.step (h : KeyInv key reqs alone p) (hfresh : FreshCommit key p i) (halone : alone → p.Alone i)
    (hs : p.step i = some p') : KeyInv key reqs alone p' ∧ ∃ t' req, p'.threads[i]? = some t' ∧ reqs[i]? = some req ∧
      KeyTurn key p.state p'.state t' req := by
  obtain ⟨t, t', s', ht, hstep, rfl⟩ := Pool.step_cases hs
  obtain ⟨req, hreq, habout, hstage⟩ := h.stages i t ht
  have hfresh' : answersNext t = true → ¬ key.Gone p.state := fun ha => hfresh (by rw [ht]; exact ha)
  obtain ⟨hstage', hlater, hturn⟩ := hstage.step habout h.sound (fun hthere _ => hthere) hfresh' hstep
  have hnext : (p.threads.set i t')[i]? = some t' := List.getElem?_set_self (List.getElem?_eq_some_iff.mp ht).1
  refine ⟨⟨hlater.sound h.sound, fun j u hu => ?_, ?_⟩, t', req, hnext, hreq, hturn⟩
  · rcases Pool.getElem?_set_cases hu with ⟨rfl, rfl⟩ | ⟨hij, hu⟩
    · refine ⟨req, hreq, habout, hstage'.later (.refl s') fun hpending hseen => ?_⟩
      cases hturn with
      | quiet req hsame hdone => exact hsame ▸ hseen
      | revokes principal hgrants hnone => exact absurd hnone hpending
      | replaces call hthere hprog hnone => exact absurd hnone hpending
    · obtain ⟨req', hreq', habout', hold⟩ := h.stages j u hu
      refine ⟨req', hreq', habout', hold.later hlater fun hpending hseen hal => ?_⟩
      exact absurd (halone hal j u (Ne.symm hij) hu) hpending
  · -- who was answered just now has found the grant, and nobody else was answered before
    have hnow : ∀ call id, reqs[i]? = some (.regenerate call) →
        (Pool.mk s' (p.threads.set i t')).answer i = some (.ok id) → ¬ key.Gone p.state := by
      intro call id hcall ha
      rw [Pool.answer, hnext, Option.bind_some] at ha
      cases hreq.symm.trans hcall
      cases hturn with
      | quiet req hsame hdone =>
        obtain ⟨prog, held, pending⟩ := t'
        cases prog with
        | done a => exact absurd rfl (hdone call rfl a)
        | fail e => cases ha
        | act put next => cases ha
        | draw next => cases ha
        | ctl c next => cases ha
      | replaces call hthere hprog hnone => exact hthere
    have hbefore : ∀ k id, k ≠ i → (Pool.mk s' (p.threads.set i t')).answer k = some (.ok id) →
        p.answer k = some (.ok id) := by
      intro k id hk ha
      rw [Pool.answer, List.getElem?_set_ne (Ne.symm hk)] at ha
      exact ha
    have hgone : ∀ k id, p.answer k = some (.ok id) → key.Gone p.state := by
      intro k id ha
      obtain ⟨-, -, hgone, -⟩ := h.answered ha
      exact hgone
    intro j k call call' id id' hj hk ha hb
    by_cases hji : j = i
    · by_cases hki : k = i
      · rw [hji, hki]
      · subst hji
        exact absurd (hgone k id' (hbefore k id' hki hb)) (hnow call id hj ha)
    · by_cases hki : k = i
      · subst hki
        exact absurd (hgone j id (hbefore j id hji ha)) (hnow call' id' hk hb)
      · exact h.once j k call call' id id' hj hk (hbefore j id hji ha) (hbefore k id' hki hb)

/-- What a statement of a schedule may rely on: a commit is fresh and, where transactions are alone, so is this one.
-/
def Allowed (key : AccessKey) (alone : Prop) (p : KeyPool) (i : ℕ) : Prop :=
  FreshCommit key p i ∧ (alone → p.Alone i)

/-- The invariant, whether or not there is a statement to make. -/
theorem KeyInv.getD (h : KeyInv key reqs alone p) (hok : Allowed key alone p i) :
    KeyInv key reqs alone ((p.step i).getD p) := by
  cases hs : p.step i with
  | none => exact h
  | some p' => exact (h.step hok.1 hok.2 hs).1

/-- **Once a request was answered**, a statement puts no grant in the table. -/
theorem KeyInv.revoked (h : KeyInv key reqs alone p) (hok : Allowed key alone p i) {j : ℕ} {id : String}
    (ha : p.answer j = some (.ok id)) (hs : p.step i = some p') : ∀ g ∈ p'.state.folderGrants, g ∈ p.state.folderGrants := by
  obtain ⟨-, t', req, -, -, hturn⟩ := h.step hok.1 hok.2 hs
  obtain ⟨-, -, hgone, -⟩ := h.answered ha
  cases hturn with
  | quiet req hsame hdone => rw [hsame]; exact fun _ hg => hg
  | revokes principal hgrants hnone => exact hgrants
  | replaces call hthere hprog hnone => exact absurd hgone hthere

end Invariant

/-! ### Runs -/

/-- What is asked for, of the committed database `db` after a schedule and of what an authentication sees, `view`.
Behind a revocation that was answered, the token authenticates nobody and no grant is put in the table; one
regeneration at most is answered; one that is not leaves what there would be without it. -/
structure KeyFinal (key : AccessKey) (reqs : List KeyRequest) (db view : List ℕ → Db)
    (answer : List ℕ → ℕ → Option (Except ApiError String)) (schedule : List ℕ) : Prop where
  revoked : ∀ (is is' : List ℕ) (i : ℕ) (principal : Principal) (id : String), schedule = is ++ is' →
    reqs[i]? = some (.revoke principal) → answer is i = some (.ok id) →
    (view schedule).authenticate key.tokenHash = none ∧ ∀ g ∈ (db schedule).folderGrants, g ∈ (db is).folderGrants
  once : ∀ (i j : ℕ) (call call' : RegenerateCall) (id id' : String), reqs[i]? = some (.regenerate call) →
    reqs[j]? = some (.regenerate call') → answer schedule i = some (.ok id) → answer schedule j = some (.ok id') → i = j
  unchanged : ∀ (i : ℕ) (call : RegenerateCall), reqs[i]? = some (.regenerate call) →
    (∀ id, answer schedule i ≠ some (.ok id)) → db (schedule.filter (· ≠ i)) = db schedule

/-- All requests at their first statement, on one connection. -/
def connectKeys (key : AccessKey) (s₀ : Db) (reqs : List KeyRequest) : Conn Db DbKey ApiError String :=
  Conn.start s₀ (reqs.map (KeyRequest.program key.row.grantId))

/-- On Postgres an authentication sees what is committed. -/
def FinalOnPg (key : AccessKey) (s₀ : Db) (reqs : List KeyRequest) (schedule : List ℕ) : Prop :=
  KeyFinal key reqs (fun is => (Pool.run (startKeys key s₀ reqs) is).state)
    (fun is => (Pool.run (startKeys key s₀ reqs) is).state)
    (fun is i => (Pool.run (startKeys key s₀ reqs) is).answer i) schedule

/-- On SQLite it sees what the open transaction has written as well. -/
def FinalOnSqlite (key : AccessKey) (s₀ : Db) (reqs : List KeyRequest) (schedule : List ℕ) : Prop :=
  KeyFinal key reqs (fun is => (Run.run (Conn.step internalError) (connectKeys key s₀ reqs) is).base)
    (fun is => (Run.run (Conn.step internalError) (connectKeys key s₀ reqs) is).state)
    (fun is i => (Run.run (Conn.step internalError) (connectKeys key s₀ reqs) is).answer i) schedule

section Runs

variable {key : AccessKey} {reqs : List KeyRequest} {alone : Prop} {s₀ : Db} {schedule : List ℕ}

/-- A step of a regeneration that is not its answer. -/
theorem KeyInv.without {p q : KeyPool} {i : ℕ} {call : RegenerateCall} (h : KeyInv key reqs alone p)
    (hok : Allowed key alone p i) (hcall : reqs[i]? = some (.regenerate call)) (hsame : p.Without i q)
    (hnot : ¬ ∃ id, ((p.step i).getD p).answer i = some (.ok id)) : Pool.Without i ((p.step i).getD p) q := by
  cases hs : p.step i with
  | none => exact hsame
  | some p' =>
    obtain ⟨-, t', req, ht', hreq, hturn⟩ := h.step hok.1 hok.2 hs
    rw [hs, Option.getD_some] at hnot
    cases hcall.symm.trans hreq
    cases hturn with
    | quiet req hstate hdone => exact hsame.skip hs hstate
    | replaces call hthere hprog hnone =>
      refine absurd ⟨call.newGrantId, ?_⟩ hnot
      rw [Pool.answer, ht', Option.bind_some, Thread.result, hprog]

/-- A run with a regeneration that is not answered, and the run without it. -/
theorem without_regenerate {i : ℕ} {call : RegenerateCall} (hstart : KeyInv key reqs alone (startKeys key s₀ reqs))
    (hok : Pool.Along (Allowed key alone) (startKeys key s₀ reqs) schedule)
    (hcall : reqs[i]? = some (.regenerate call))
    (hnot : ∀ id, (Pool.run (startKeys key s₀ reqs) schedule).answer i ≠ some (.ok id)) :
    (Pool.run (startKeys key s₀ reqs) (schedule.filter (· ≠ i))).state =
        (Pool.run (startKeys key s₀ reqs) schedule).state ∧
      Pool.Along (fun p j => alone → p.Alone j) (startKeys key s₀ reqs) (schedule.filter (· ≠ i)) := by
  have hstays : ∀ (p : KeyPool) (j : ℕ) (p' : KeyPool), (∃ id, p.answer i = some (.ok id)) → p.step j = some p' →
      ∃ id, p'.answer i = some (.ok id) := by
    rintro p j p' ⟨id, ha⟩ hs
    exact ⟨id, Pool.answer_step ha hs⟩
  have hnever : Pool.Along (fun p j => ¬ ∃ id, ((p.step j).getD p).answer i = some (.ok id))
      (startKeys key s₀ reqs) schedule := Run.Along.of_not hstays (not_exists.mpr hnot)
  have hidle : Pool.Without i (startKeys key s₀ reqs) (startKeys key s₀ reqs) := by
    refine .refl fun t ht => ?_
    simp only [startKeys, Pool.start, List.getElem?_map, Option.map_eq_some_iff] at ht
    obtain ⟨prog, -, rfl⟩ := ht
    rfl
  have hkeep : ∀ j : ℕ, decide (j ≠ i) = true ↔ j ≠ i := fun j => decide_eq_true_iff
  have hboth : ∀ (p q : KeyPool) (j : ℕ), KeyInv key reqs alone p ∧ Pool.Without i p q →
      (Allowed key alone p j ∧ ¬ ∃ id, ((p.step j).getD p).answer i = some (.ok id)) → decide (j ≠ i) = true →
      KeyInv key reqs alone ((p.step j).getD p) ∧ Pool.Without i ((p.step j).getD p) ((q.step j).getD q) := by
    rintro p q j ⟨hinv, hsame⟩ ⟨hallowed, -⟩ hj
    refine ⟨hinv.getD hallowed, hsame.step ((hkeep j).mp hj) fun t ht k next hlock => ?_⟩
    obtain ⟨req, -, -, hstage⟩ := hinv.stages j t ht
    have hplain := hstage.plain
    rw [Thread.Plain, hlock] at hplain
    exact hplain
  have hone : ∀ (p q : KeyPool) (j : ℕ), KeyInv key reqs alone p ∧ Pool.Without i p q →
      (Allowed key alone p j ∧ ¬ ∃ id, ((p.step j).getD p).answer i = some (.ok id)) → decide (j ≠ i) = false →
      KeyInv key reqs alone ((p.step j).getD p) ∧ Pool.Without i ((p.step j).getD p) q := by
    rintro p q j ⟨hinv, hsame⟩ ⟨hallowed, hnot⟩ hj
    have hji : j = i := by simpa using hj
    subst hji
    exact ⟨hinv.getD hallowed, hinv.without hallowed hcall hsame hnot⟩
  have hrun := Run.run_simulates hboth hone ⟨hstart, hidle⟩ (hok.and hnever)
  refine ⟨hrun.2.state, Run.along_simulates hboth hone ?_ ⟨hstart, hidle⟩ (hok.and hnever)⟩
  exact fun p q j hR hallowed hj halone => hR.2.alone (hallowed.1.2 halone)

/-- **On a pool.** -/
theorem keyFinal_pool (hstart : KeyInv key reqs alone (startKeys key s₀ reqs))
    (hok : Pool.Along (Allowed key alone) (startKeys key s₀ reqs) schedule) : FinalOnPg key s₀ reqs schedule := by
  have hstep : ∀ p i p', KeyInv key reqs alone p → Allowed key alone p i → p.step i = some p' →
      KeyInv key reqs alone p' := fun p i p' h hallowed hs => (h.step hallowed.1 hallowed.2 hs).1
  refine ⟨?_, (Run.run_invariant hstep hstart hok).once, fun i call hcall hnot =>
    (without_regenerate hstart hok hcall hnot).1⟩
  rintro is is' i principal id rfl hreq ha
  obtain ⟨hok₁, hok₂⟩ := Run.along_append.mp hok
  have hmid := Run.run_invariant hstep hstart hok₁
  -- from the answer on: it stays, and the grants are among those of then
  let p₁ := Pool.run (startKeys key s₀ reqs) is
  have hrest : ∀ p j p', (KeyInv key reqs alone p ∧ p.answer i = some (.ok id) ∧
        ∀ g ∈ p.state.folderGrants, g ∈ p₁.state.folderGrants) → Allowed key alone p j → p.step j = some p' →
      (KeyInv key reqs alone p' ∧ p'.answer i = some (.ok id) ∧
        ∀ g ∈ p'.state.folderGrants, g ∈ p₁.state.folderGrants) := by
    rintro p j p' ⟨hinv, hanswer, hgrants⟩ hallowed hs
    exact ⟨hstep p j p' hinv hallowed hs, Pool.answer_step hanswer hs,
      fun g hg => hgrants g (hinv.revoked hallowed hanswer hs g hg)⟩
  have hend := Run.run_invariant hrest ⟨hmid, ha, fun _ hg => hg⟩ hok₂
  dsimp only [Pool.run]
  rw [Run.run_append]
  obtain ⟨hinv, hanswer, hgrants⟩ := hend
  obtain ⟨req, hreq', -, hdead⟩ := hinv.answered hanswer
  cases hreq.symm.trans hreq'
  exact ⟨hdead principal rfl, hgrants⟩

/-- What an open transaction shows of a token that is dead. -/
theorem dead_inside {c : Conn Db DbKey ApiError String} {p : KeyPool} (hc : Pooled c p) (hinv : KeyInv key reqs alone p)
    (hdead : key.Dead p.state) : key.Dead c.state := by
  cases ho : c.opened with
  | none =>
    have hsame : p.state = c.state := by rw [hc.state, Conn.base, ho]; rfl
    rw [← hsame]
    exact hdead
  | some o =>
    have hsaved : p.state = o.saved := by rw [hc.state, Conn.base, ho]; rfl
    obtain ⟨t, w, ht, hw, hstate⟩ := hc.inside o ho
    obtain ⟨req, -, habout, hstage⟩ := hinv.stages o.owner t ht
    rw [hstate, ← hsaved]
    cases req with
    | revoke principal =>
      rw [hstage.1] at hw
      cases hw
    | regenerate call =>
      rcases hstage with ⟨hpending, -⟩ | ⟨w', hpending, hstage⟩
      · rw [hpending] at hw
        cases hw
      · rw [hpending] at hw
        cases hw
        exact (hstage.later_writes habout p.state).dead hdead

/-- The connection and its pool, after one statement. -/
theorem KeyInv.pooled {c : Conn Db DbKey ApiError String} {p : KeyPool} {i : ℕ} (hinv : KeyInv key reqs True p)
    (hc : Pooled c p) (halone : p.Alone i) :
    KeyInv key reqs True ((p.step i).getD p) ∧ Pooled ((c.step internalError i).getD c) ((p.step i).getD p) := by
  refine ⟨hinv.getD ⟨hinv.fresh, fun _ => halone⟩, hc.step (hc.alone_iff.mpr halone) fun t ht => ?_⟩
  obtain ⟨req, -, -, hstage⟩ := hinv.stages i t ht
  exact hstage.plain

/-- A schedule that leaves transactions alone does the same on the connection and on the pool. -/
theorem pooled_run (hstart : KeyInv key reqs True (startKeys key s₀ reqs))
    (hok : Pool.Along Pool.Alone (startKeys key s₀ reqs) schedule) :
    Pooled (Run.run (Conn.step internalError) (connectKeys key s₀ reqs) schedule)
      (Pool.run (startKeys key s₀ reqs) schedule) := by
  have hboth : ∀ (p : KeyPool) (c : Conn Db DbKey ApiError String) (j : ℕ), KeyInv key reqs True p ∧ Pooled c p →
      p.Alone j → true = true →
      KeyInv key reqs True ((p.step j).getD p) ∧ Pooled ((c.step internalError j).getD c) ((p.step j).getD p) :=
    fun p c j h halone _ => h.1.pooled h.2 halone
  have hrun := Run.run_simulates hboth (fun _ _ _ _ _ hno => by cases hno)
    ⟨hstart, Pooled.start s₀ (reqs.map (KeyRequest.program key.row.grantId))⟩ hok
  rw [List.filter_true] at hrun
  exact hrun.2

theorem alone_pool (hstart : KeyInv key reqs True (startKeys key s₀ reqs))
    (hok : Run.Along (Conn.step internalError) Conn.Alone (connectKeys key s₀ reqs) schedule) :
    Pool.Along Pool.Alone (startKeys key s₀ reqs) schedule := by
  have hboth : ∀ (c : Conn Db DbKey ApiError String) (p : KeyPool) (j : ℕ), KeyInv key reqs True p ∧ Pooled c p →
      c.Alone j → true = true →
      KeyInv key reqs True ((p.step j).getD p) ∧ Pooled ((c.step internalError j).getD c) ((p.step j).getD p) :=
    fun c p j h halone _ => h.1.pooled h.2 (h.2.alone_iff.mp halone)
  have halong := Run.along_simulates hboth (fun _ _ _ _ _ hno => by cases hno)
    (fun _ _ _ h halone _ => h.2.alone_iff.mp halone)
    ⟨hstart, Pooled.start s₀ (reqs.map (KeyRequest.program key.row.grantId))⟩ hok
  rw [List.filter_true] at halong
  exact halong

/-- **On one connection**: the pool, where every transaction is alone. -/
theorem keyFinal_connection (hstart : KeyInv key reqs True (startKeys key s₀ reqs))
    (hok : Run.Along (Conn.step internalError) Conn.Alone (connectKeys key s₀ reqs) schedule) :
    FinalOnSqlite key s₀ reqs schedule := by
  have hpool := alone_pool hstart hok
  have hallowed : Pool.Along (Allowed key True) (startKeys key s₀ reqs) schedule :=
    Run.Along.of_invariant (fun p i p' hinv halone hs => (hinv.step hinv.fresh (fun _ => halone) hs).1)
      (fun p i hinv halone => ⟨hinv.fresh, fun _ => halone⟩) hstart hpool
  have hfinal := keyFinal_pool hstart hallowed
  have hend := pooled_run hstart hpool
  have hinv : KeyInv key reqs True (Pool.run (startKeys key s₀ reqs) schedule) :=
    Run.run_invariant (fun p i p' hinv hok hs => (hinv.step hok.1 hok.2 hs).1) hstart hallowed
  refine ⟨?_, fun i j call call' id id' hi hj ha hb => ?_, fun i call hcall hnot => ?_⟩
  · rintro is is' i principal id rfl hreq ha
    have hmid := pooled_run hstart (Run.along_append.mp hpool).1
    have ha' : (Pool.run (startKeys key s₀ reqs) is).answer i = some (.ok id) := (hmid.answer i).trans ha
    obtain ⟨hdead, hgrants⟩ := hfinal.revoked is is' i principal id rfl hreq ha'
    refine ⟨dead_inside hend hinv hdead, fun g hg => ?_⟩
    rw [← hend.state] at hg
    rw [← hmid.state]
    exact hgrants g hg
  · exact hfinal.once i j call call' id id' hi hj ((hend.answer i).trans ha) ((hend.answer j).trans hb)
  · have hnot' : ∀ id, (Pool.run (startKeys key s₀ reqs) schedule).answer i ≠ some (.ok id) :=
      fun id ha => hnot id ((hend.answer i).symm.trans ha)
    obtain ⟨hsame, hrest⟩ := without_regenerate hstart hallowed hcall hnot'
    have hwithout := pooled_run hstart (hrest.mono fun p j h => h True.intro)
    rw [← hwithout.state, ← hend.state]
    exact hsame

end Runs

/-- **A revoked key stays revoked.**  Any number of revocations and regenerations of one key, in any order of their
statements.  On Postgres: along every schedule in which a regeneration commits its new key only while the old grant
is there.  On SQLite: along every schedule in which nobody makes a statement in somebody else's transaction. -/
theorem key_revoked_for_good (key : AccessKey) (s₀ : Db) (reqs : List KeyRequest) (schedule : List ℕ)
    (hsound : key.Sound s₀) (habout : ∀ req ∈ reqs, req.About key) :
    (Pool.Along (FreshCommit key) (startKeys key s₀ reqs) schedule → FinalOnPg key s₀ reqs schedule) ∧
    (Run.Along (Conn.step internalError) Conn.Alone (connectKeys key s₀ reqs) schedule →
      FinalOnSqlite key s₀ reqs schedule) := by
  refine ⟨fun hok => ?_, keyFinal_connection (.start hsound habout)⟩
  have hstart : KeyInv key reqs False (startKeys key s₀ reqs) := .start hsound habout
  exact keyFinal_pool hstart (hok.mono fun _ _ h => ⟨h, False.elim⟩)

/-- The key of `tokenDb`. -/
def agentKey : AccessKey where
  row := { grantId := "gk", folderId := "f", scopeNodeId := "root", userId := none, deviceId := some "k", canRead := true,
           canWrite := true, name := some "Agent", createdByUserId := some "alice" }
  deviceId := "k"
  tokenHash := "h"
  device := by decide
  hashed := by decide

/-- A folder of alice's, with the key. -/
def tokenDb : Db := { keyDb with devices := [{ deviceId := "k", userId := none, tokenHash := "h" }] }

/-- Alice regenerates the key; the hook may fail. -/
def regenerateAgent (onBeforeCommit : Option ApiError) : KeyRequest :=
  .regenerate { principal := .user "alice", grantId := "gk", onBeforeCommit, deviceId := "d1", newGrantId := "g1",
                tokenHash := "h1" }

/-- Alice revokes it. -/
def revokeAgent : KeyRequest := .revoke (.user "alice")

/-- A regeneration that fails, a revocation, and a regeneration that comes too late. -/
theorem key_revoked_for_good_turns :
    FinalOnPg agentKey tokenDb [regenerateAgent (some internalError), revokeAgent, regenerateAgent none]
        (List.replicate 20 0 ++ List.replicate 20 1 ++ List.replicate 20 2) ∧
      FinalOnSqlite agentKey tokenDb [regenerateAgent (some internalError), revokeAgent, regenerateAgent none]
        (List.replicate 20 0 ++ List.replicate 20 1 ++ List.replicate 20 2) := by
  have hgood := key_revoked_for_good agentKey tokenDb
    [regenerateAgent (some internalError), revokeAgent, regenerateAgent none]
    (List.replicate 20 0 ++ List.replicate 20 1 ++ List.replicate 20 2)
    ⟨by simp [Db.grant, Table.lookup, agentKey, tokenDb, keyDb], by simp [agentKey, tokenDb]⟩
    (by simp [regenerateAgent, revokeAgent, KeyRequest.About, agentKey])
  exact ⟨hgood.1 (by decide +kernel), hgood.2 (by decide +kernel)⟩

/-- The regeneration has found the grant when alice revokes the key. -/
def foundThenRevoked : List ℕ := List.replicate 6 0 ++ List.replicate 9 1

/-- **A revocation in between.**  On Postgres the regeneration commits a new key behind it; on SQLite the hook fails,
and the rollback gives the old token back. -/
theorem key_replaced_behind_revocation :
    ¬ FinalOnPg agentKey tokenDb [regenerateAgent none, revokeAgent] (foundThenRevoked ++ List.replicate 9 0) ∧
      ¬ FinalOnSqlite agentKey tokenDb [regenerateAgent (some internalError), revokeAgent]
        (foundThenRevoked ++ List.replicate 9 0) := by
  constructor
  · intro h
    have hanswer : (Pool.run (startKeys agentKey tokenDb [regenerateAgent none, revokeAgent])
        foundThenRevoked).answer 1 = some (.ok "gk") := by decide +kernel
    obtain ⟨-, hgrants⟩ := h.revoked foundThenRevoked (List.replicate 9 0) 1 (.user "alice") "gk" rfl rfl hanswer
    have hnew : ¬ ∀ g ∈ (Pool.run (startKeys agentKey tokenDb [regenerateAgent none, revokeAgent])
        (foundThenRevoked ++ List.replicate 9 0)).state.folderGrants, g ∈ (Pool.run
          (startKeys agentKey tokenDb [regenerateAgent none, revokeAgent]) foundThenRevoked).state.folderGrants := by
      decide +kernel
    exact hnew hgrants
  · intro h
    have hanswer : (Run.run (Conn.step internalError)
        (connectKeys agentKey tokenDb [regenerateAgent (some internalError), revokeAgent])
        foundThenRevoked).answer 1 = some (.ok "gk") := by decide +kernel
    obtain ⟨hdead, -⟩ := h.revoked foundThenRevoked (List.replicate 9 0) 1 (.user "alice") "gk" rfl rfl hanswer
    have halive : ((Run.run (Conn.step internalError)
        (connectKeys agentKey tokenDb [regenerateAgent (some internalError), revokeAgent])
        (foundThenRevoked ++ List.replicate 9 0)).state).authenticate "h" = some "k" := by decide +kernel
    have hsame : agentKey.tokenHash = "h" := rfl
    rw [hsame, halive] at hdead
    cases hdead

end Valv.Server
