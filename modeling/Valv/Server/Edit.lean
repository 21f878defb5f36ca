import Valv.Server.Grants
import Valv.Server.Shape
import Valv.Server.Walk

/-!
# What a request does to the grants

A request about grants and invites leaves the tree alone.  Each grant it leaves behind was there,
or is the one that the request asks for and may ask for.

* `Request.issues`: the request may ask for the grant, told from the database before it.
* `Edit`: the change a request makes to the tables that say who may do what.
* `edit_createGrant`, …: every request is such a change.
-/

namespace Valv.Server

open Valv.Conc Valv.Table

/-! ### What a request may ask for -/

/-- The user a principal acts for. -/
def Db.effectiveUser (s : Db) : Principal → Option String
  | .user userId => truthy (some userId)
  | .device deviceId => truthy (s.principalUser (.device deviceId))

/-- The root of a folder. -/
def Db.folderRoot (s : Db) (folderId : String) : Option String :=
  (s.nodes.find? fun r => r.folderId = folderId && r.parentId.isNone).map NodeRow.nodeId

/-- The principal may issue grants on a scope, for the user `u`. -/
structure Db.MayIssue (s : Db) (principal : Principal) (scopeNodeId u : String) : Prop where
  user : s.effectiveUser principal = some u
  write : s.grants scopeNodeId principal .write = true

/-- The request may ask for the grant `g`. -/
def Request.issues (s : Db) : Request → FolderGrantRow → Prop
  | .createGrant call, g => ∃ scopeNodeId u, s.MayIssue call.principal scopeNodeId u ∧
      call.scopeNodeId.orElse (s.folderRoot call.folderId) = some scopeNodeId ∧ g = call.row scopeNodeId u
  | .regenerateGrant call, g => ∃ old u, s.MayIssue call.principal old.scopeNodeId u ∧
      s.grant call.grantId = some old ∧ g = call.row old u
  | .acceptInvite call, g => ∃ invite userId, call.principal = .user userId ∧
      s.invite call.inviteToken = some invite ∧ invite.status = .pending ∧ call.now < invite.expiresAt ∧
      g = call.row invite userId
  | _, _ => False

/-- The request may ask for the invite `i`. -/
def Request.invites (s : Db) : Request → FolderInviteRow → Prop
  | .createInvite call, i => ∃ scopeNodeId u, s.MayIssue call.principal scopeNodeId u ∧
      s.invite call.inviteToken = none ∧ i = call.row scopeNodeId u
  | _, _ => False

/-! ### Edits -/

/-- The device has no user behind it. -/
def Db.userless (s : Db) (deviceId : String) : Prop :=
  ∃ r, lookup DeviceRow.deviceId deviceId s.devices = some r ∧ r.userId = none

/-- The invites are the same but for their status. -/
def FolderInviteRow.sameTerms (i j : FolderInviteRow) : Prop := { i with status := j.status } = j

/-- The versions and the chunks they refer to are the same. -/
structure SameVersions (s s' : Db) : Prop where
  versions : s'.versions = s.versions
  versionChunks : s'.versionChunks = s.versionChunks

theorem SameVersions.refl (s : Db) : SameVersions s s := ⟨rfl, rfl⟩

instance : Std.Refl SameVersions := ⟨SameVersions.refl⟩

instance : IsTrans Db SameVersions where
  trans _ _ _ h h' := ⟨h'.versions.trans h.versions, h'.versionChunks.trans h.versionChunks⟩

/-- The devices are still there, with their users. -/
def KeepsDevices (s s' : Db) : Prop := ∀ d r, lookup DeviceRow.deviceId d s.devices = some r →
  ∃ r', lookup DeviceRow.deviceId d s'.devices = some r' ∧ r'.userId = r.userId

theorem KeepsDevices.of_eq {s s' : Db} (h : s'.devices = s.devices) : KeepsDevices s s' :=
  fun d r hr => ⟨r, by rw [h]; exact hr, rfl⟩

theorem KeepsDevices.userless {s s' : Db} (h : KeepsDevices s s') {d : String} (hd : s.userless d) : s'.userless d := by
  obtain ⟨r, hr, hnone⟩ := hd
  obtain ⟨r', hr', huser⟩ := h d r hr
  exact ⟨r', hr', huser.trans hnone⟩

/-- A change to the tables that say who may do what: new grants satisfy `adds`, those of a device
are about a device that is no user's, and new invites satisfy `invites`. -/
structure Edit (adds : FolderGrantRow → Prop) (invites : FolderInviteRow → Prop) (s s' : Db) : Prop extends
    SameVersions s s' where
  nodes : s'.nodes = s.nodes
  devices : KeepsDevices s s'
  ids : (s.folderGrants.map FolderGrantRow.grantId).Nodup → (s'.folderGrants.map FolderGrantRow.grantId).Nodup
  grants : ∀ g ∈ s'.folderGrants, g ∈ s.folderGrants ∨ (adds g ∧ ∀ d, g.deviceId = some d → s'.userless d)
  folderInvites : ∀ i ∈ s'.folderInvites, (∃ j ∈ s.folderInvites, j.sameTerms i) ∨ invites i

namespace Edit

variable {adds : FolderGrantRow → Prop} {invites : FolderInviteRow → Prop} {s v : Db}

theorem bump (s : Db) (k : ℕ) : Edit adds invites s { s with lastSeq := s.lastSeq + k } :=
  ⟨⟨rfl, rfl⟩, rfl, .of_eq rfl, id, fun _ hg => .inl hg, fun i hi => .inl ⟨i, hi, rfl⟩⟩

theorem refl (s : Db) : Edit adds invites s s :=
  ⟨⟨rfl, rfl⟩, rfl, .of_eq rfl, id, fun _ hg => .inl hg, fun i hi => .inl ⟨i, hi, rfl⟩⟩

/-- A change to the devices that keeps their users. -/
theorem changeDevices (h : Edit adds invites s v) {devices : List DeviceRow}
    (hkeeps : KeepsDevices v { v with devices }) : Edit adds invites s { v with devices } where
  toSameVersions := ⟨h.versions, h.versionChunks⟩
  nodes := h.nodes
  devices d r hr := by
    obtain ⟨r₁, hr₁, huser₁⟩ := h.devices d r hr
    obtain ⟨r₂, hr₂, huser₂⟩ := hkeeps d r₁ hr₁
    exact ⟨r₂, hr₂, huser₂.trans huser₁⟩
  ids := h.ids
  grants g hg := by
    rcases h.grants g hg with hold | ⟨hadds, huserless⟩
    · exact .inl hold
    · exact .inr ⟨hadds, fun d hd => hkeeps.userless (huserless d hd)⟩
  folderInvites := h.folderInvites

theorem insertDevice (h : Edit adds invites s v) (r : DeviceRow) :
    Edit adds invites s { v with devices := v.devices ++ [r] } := by
  refine h.changeDevices fun d r' hr => ⟨r', ?_, rfl⟩
  rw [lookup_append, hr]
  rfl

theorem updateTokenHash (h : Edit adds invites s v) (deviceId tokenHash : String) :
    Edit adds invites s { v with
      devices := update DeviceRow.deviceId deviceId (fun r => { r with tokenHash }) v.devices } := by
  have hkey : ∀ r : DeviceRow, r.deviceId = deviceId → ({ r with tokenHash } : DeviceRow).deviceId = deviceId :=
    fun _ hr => hr
  refine h.changeDevices fun d r hr => ?_
  by_cases hd : d = deviceId
  · subst hd
    refine ⟨{ r with tokenHash }, ?_, rfl⟩
    show lookup _ _ (update _ _ _ _) = _
    rw [lookup_update_self hkey, hr]
    rfl
  · refine ⟨r, ?_, rfl⟩
    show lookup _ _ (update _ _ _ _) = _
    rw [lookup_update_ne hd hkey]
    exact hr

theorem insertGrant (h : Edit adds invites s v) {g : FolderGrantRow} (hcheck : v.grantViolation g = none)
    (hadds : adds g) (hdevice : ∀ d, g.deviceId = some d → v.userless d) :
    Edit adds invites s { v with folderGrants := v.folderGrants ++ [g] } where
  toSameVersions := ⟨h.versions, h.versionChunks⟩
  nodes := h.nodes
  devices := h.devices
  ids hnd := by
    have hfresh : ∀ g' ∈ v.folderGrants, g'.grantId ≠ g.grantId := by
      intro g' hg' he
      rw [Db.grantViolation, if_pos (List.any_eq_true.mpr ⟨g', hg', by simpa using he⟩)] at hcheck
      cases hcheck
    exact nodup_append (h.ids hnd) hfresh
  grants g' hg' := by
    rcases List.mem_append.mp hg' with hg' | hg'
    · exact h.grants g' hg'
    · rw [List.mem_singleton.mp hg']
      exact .inr ⟨hadds, hdevice⟩
  folderInvites := h.folderInvites

theorem deleteGrant (h : Edit adds invites s v) (p : FolderGrantRow → Bool) :
    Edit adds invites s { v with folderGrants := v.folderGrants.filter p } where
  toSameVersions := ⟨h.versions, h.versionChunks⟩
  nodes := h.nodes
  devices := h.devices
  ids hnd := (h.ids hnd).sublist (List.filter_sublist.map _)
  grants g hg := h.grants g (List.mem_filter.mp hg).1
  folderInvites := h.folderInvites

theorem insertInvite (h : Edit adds invites s v) {i : FolderInviteRow} (hi : invites i) :
    Edit adds invites s { v with folderInvites := v.folderInvites ++ [i] } where
  toSameVersions := ⟨h.versions, h.versionChunks⟩
  nodes := h.nodes
  devices := h.devices
  ids := h.ids
  grants := h.grants
  folderInvites j hj := by
    rcases List.mem_append.mp hj with hj | hj
    · exact h.folderInvites j hj
    · rw [List.mem_singleton.mp hj]
      exact .inr hi

theorem deleteInvite (h : Edit adds invites s v) (p : FolderInviteRow → Bool) :
    Edit adds invites s { v with folderInvites := v.folderInvites.filter p } where
  toSameVersions := ⟨h.versions, h.versionChunks⟩
  nodes := h.nodes
  devices := h.devices
  ids := h.ids
  grants := h.grants
  folderInvites i hi := h.folderInvites i (List.mem_filter.mp hi).1

/-- Accepted invites keep their terms. -/
theorem acceptInvite {adds : FolderGrantRow → Prop} (h : Edit adds (fun _ => False) s v) (inviteToken : String) :
    Edit adds (fun _ => False) s { v with
      folderInvites := v.folderInvites.map fun r =>
        if r.inviteToken = inviteToken ∧ r.status = .pending then { r with status := .accepted } else r } where
  toSameVersions := ⟨h.versions, h.versionChunks⟩
  nodes := h.nodes
  devices := h.devices
  ids := h.ids
  grants := h.grants
  folderInvites i hi := by
    obtain ⟨j, hj, rfl⟩ := List.mem_map.mp hi
    rcases h.folderInvites j hj with ⟨j₀, hj₀, hsame⟩ | hfalse
    · refine .inl ⟨j₀, hj₀, ?_⟩
      split
      · rw [FolderInviteRow.sameTerms] at hsame ⊢
        rw [← hsame]
      · exact hsame
    · exact hfalse.elim

end Edit

/-! ### The checks -/

section Checks

variable {s : Db} {principal : Principal}

variable (s principal) in
theorem runBody_resolveEffectiveUserId :
    ∃ id, (resolveEffectiveUserId principal).runBody s = (s, .ok id) ∧ truthy id = s.effectiveUser principal := by
  cases principal with
  | user userId => exact ⟨some userId, rfl, rfl⟩
  | device deviceId => exact ⟨_, rfl, rfl⟩

theorem requireUserBackedPrincipal_readOnly (errorCode : String) :
    (requireUserBackedPrincipal principal errorCode).ReadOnly := by
  refine (resolveEffectiveUserId_readOnly principal).bind fun id => ?_
  cases truthy id <;> exact True.intro

theorem runBody_requireUserBackedPrincipal_ok {errorCode u : String} {s' : Db}
    (h : (requireUserBackedPrincipal principal errorCode).runBody s = (s', .ok u)) :
    s.effectiveUser principal = some u := by
  obtain ⟨id, hrun, hid⟩ := runBody_resolveEffectiveUserId s principal
  rw [requireUserBackedPrincipal, Proc.runBody_bind_of_ok hrun] at h
  rw [← hid]
  cases hu : truthy id with
  | none =>
    rw [hu] at h
    cases h
  | some userId =>
    rw [hu] at h
    cases h
    rfl

theorem requireFound_readOnly (error : String) (id : Option String) : (requireFound error id).ReadOnly := by
  rw [requireFound]
  cases truthy id <;> exact True.intro

theorem runBody_requireFound_ok {error id : String} {found : Option String} {s' : Db}
    (h : (requireFound error found).runBody s = (s', .ok id)) : found = some id := by
  rw [requireFound] at h
  cases hid : truthy found with
  | none =>
    rw [hid] at h
    cases h
  | some id' =>
    rw [hid] at h
    cases h
    exact truthy_some hid

theorem runBody_requireWrite_ok {n : String} {s' : Db} {u : Unit}
    (h : (requireWrite n principal).runBody s = (s', .ok u)) : s.grants n principal .write = true := by
  rcases runBody_requireWrite principal (s := s) (n := n) with ⟨hgrant, -⟩ | ⟨-, e, hrun⟩
  · exact hgrant
  · rw [hrun] at h
    cases h

theorem refuseIf_readOnly (c : Prop) [Decidable c] (status : ℕ) (error : String) :
    (refuseIf c status error).ReadOnly := by
  rw [refuseIf]
  split <;> exact True.intro

end Checks

/-! ### The requests -/

section Requests

variable {be : Backend} {s : Db}

theorem checkGrantRequest_readOnly (call : GrantCall) : (checkGrantRequest call).ReadOnly := by
  refine (refuseIf_readOnly _ _ _).bind fun _ => (Proc.readOnly_read _).bind fun root => ?_
  refine (requireFound_readOnly _ _).bind fun scopeNodeId => ?_
  refine (requireUserBackedPrincipal_readOnly _).bind fun u => ?_
  exact (requireWrite_readOnly _ _).bind fun _ => (refuseIf_readOnly _ _ _).bind fun _ => True.intro

theorem runBody_checkGrantRequest_ok {call : GrantCall} {s' : Db} {scopeNodeId u : String}
    (h : (checkGrantRequest call).runBody s = (s', .ok (scopeNodeId, u))) :
    s.MayIssue call.principal scopeNodeId u ∧
      call.scopeNodeId.orElse (s.folderRoot call.folderId) = some scopeNodeId := by
  obtain ⟨_, -, h₁⟩ := (refuseIf_readOnly _ _ _).runBody_bind_ok h
  obtain ⟨root, hroot, h₂⟩ := (Proc.readOnly_read _).runBody_bind_ok h₁
  obtain ⟨scope, hscope, h₃⟩ := (requireFound_readOnly _ _).runBody_bind_ok h₂
  obtain ⟨user, huser, h₄⟩ := (requireUserBackedPrincipal_readOnly _).runBody_bind_ok h₃
  obtain ⟨_, hwrite, h₅⟩ := (requireWrite_readOnly _ _).runBody_bind_ok h₄
  obtain ⟨_, -, h₆⟩ := (refuseIf_readOnly _ _ _).runBody_bind_ok h₅
  cases h₆
  cases hroot
  exact ⟨⟨runBody_requireUserBackedPrincipal_ok huser, runBody_requireWrite_ok hwrite⟩,
    runBody_requireFound_ok hscope⟩

/-- A device for a new grant, and the grant. -/
theorem edit_deviceAndGrant {α : Type} {adds : FolderGrantRow → Prop} {invites : FolderInviteRow → Prop}
    {v : Db} {device : DeviceRow} {row : FolderGrantRow} {rest : Unit → DbProc α} (hv : Edit adds invites s v)
    (huser : device.userId = none) (hadds : adds row) (hdevice : row.deviceId = some device.deviceId)
    (hrest : ∀ w, Edit adds invites s w → Edit adds invites s ((rest ()).runBody w).1) :
    Edit adds invites s
      ((insertDevice device >>= fun _ => insertFolderGrant row >>= rest).runBody v).1 := by
  refine Proc.runBody_stmt_bind hv fun hcheck => ?_
  have hnone : lookup DeviceRow.deviceId device.deviceId v.devices = none := by
    split at hcheck
    · cases hcheck
    · next h => exact Option.not_isSome_iff_eq_none.mp h
  have hinserted := hv.insertDevice device
  refine Proc.runBody_stmt_bind hinserted fun hcheck' => hrest _ (hinserted.insertGrant hcheck' hadds fun d hd => ?_)
  cases hdevice.symm.trans hd
  refine ⟨device, ?_, huser⟩
  rw [lookup_append, hnone, Option.none_or, lookup_cons, if_pos rfl]

variable (be) in
theorem callback_createGrantBody (device : DeviceRow) (row : FolderGrantRow) :
    Callback be (createGrantBody device row) := by
  have hdevice : Callback be (insertDevice device) := Callback.stmt fun _ _ => ⟨rfl, rfl⟩
  have hgrant : Callback be (insertFolderGrant row) := Callback.stmt fun _ _ => ⟨rfl, rfl⟩
  exact hdevice.bind fun _ => hgrant.bind fun _ => Callback.pure _

theorem edit_createGrant (call : GrantCall) :
    Edit (Request.issues s (.createGrant call)) (fun _ => False) s ((createGrant be call).exec s none).1 := by
  refine (checkGrantRequest_readOnly call).exec_bind (Edit.refl s) fun a hrun => ?_
  obtain ⟨scopeNodeId, u⟩ := a
  obtain ⟨hmay, hscope⟩ := runBody_checkGrantRequest_ok hrun
  have hcallback := callback_createGrantBody be call.device (call.row scopeNodeId u)
  have hcatch : ∀ e, (nameTaken e).ReadOnly := by
    intro e
    rw [nameTaken]
    split <;> exact True.intro
  dsimp only
  rw [state_inTransaction_attempt hcallback hcatch]
  refine state_inTransaction hcallback ?_ (Edit.bump s)
  exact edit_deviceAndGrant (Edit.refl s) rfl ⟨scopeNodeId, u, hmay, hscope, rfl⟩ rfl fun w hw => hw

theorem checkGrantTarget_readOnly (principal : Principal) (grantId errorCode : String) :
    (checkGrantTarget principal grantId errorCode).ReadOnly := by
  refine (requireUserBackedPrincipal_readOnly _).bind fun u => (Proc.readOnly_read _).bind fun target => ?_
  cases target with
  | none => exact True.intro
  | some target => exact (requireWrite_readOnly _ _).bind fun _ => True.intro

theorem runBody_checkGrantTarget_ok {principal : Principal} {grantId errorCode u : String} {s' : Db}
    {target : FolderGrantRow} (h : (checkGrantTarget principal grantId errorCode).runBody s = (s', .ok (target, u))) :
    s.MayIssue principal target.scopeNodeId u ∧ s.grant grantId = some target := by
  obtain ⟨user, huser, h₁⟩ := (requireUserBackedPrincipal_readOnly _).runBody_bind_ok h
  obtain ⟨found, hfound, h₂⟩ := (Proc.readOnly_read _).runBody_bind_ok h₁
  cases found with
  | none => cases h₂
  | some row =>
    obtain ⟨_, hwrite, h₃⟩ := (requireWrite_readOnly _ _).runBody_bind_ok h₂
    cases h₃
    rw [Proc.runBody_read, Prod.mk.injEq, Except.ok.injEq] at hfound
    exact ⟨⟨runBody_requireUserBackedPrincipal_ok huser, runBody_requireWrite_ok hwrite⟩, hfound.2⟩

theorem unbracketed_revokeToken (grantId : String) (deviceId : Option String) :
    (revokeToken grantId deviceId).Unbracketed := by
  rw [revokeToken]
  cases truthy deviceId with
  | none => exact True.intro
  | some deviceId => exact .stmt _ _

theorem edit_deleteGrant (principal : Principal) (grantId : String) :
    Edit (fun _ => False) (fun _ => False) s ((deleteGrant principal grantId).exec s none).1 := by
  refine (checkGrantTarget_readOnly principal grantId _).exec_bind (Edit.refl s) fun target _ => ?_
  dsimp only
  have hdelete : (deleteFolderGrant grantId).Unbracketed := .stmt _ _
  have hrest : (deleteFolderGrant grantId >>= fun _ => revokeToken grantId target.1.deviceId >>= fun _ =>
      (pure grantId : DbProc String)).Unbracketed :=
    hdelete.bind fun _ => (unbracketed_revokeToken _ _).bind fun _ => True.intro
  rw [Proc.exec_eq_runBody hrest]
  refine Proc.runBody_stmt_bind (Edit.refl s) fun _ => ?_
  have hrefl : Edit (fun _ => False) (fun _ => False) s s := Edit.refl s
  have hdeleted := hrefl.deleteGrant fun g => g.grantId ≠ grantId
  rw [revokeToken]
  cases truthy target.1.deviceId with
  | none => exact hdeleted
  | some deviceId => exact hdeleted.updateTokenHash deviceId (revokedHash grantId)

theorem edit_regenerateGrant (call : RegenerateCall) :
    Edit (Request.issues s (.regenerateGrant call)) (fun _ => False) s ((regenerateGrant call).exec s none).1 := by
  refine (checkGrantTarget_readOnly _ _ _).exec_bind (Edit.refl s) fun a hrun => ?_
  obtain ⟨target, u⟩ := a
  obtain ⟨hmay, htarget⟩ := runBody_checkGrantTarget_ok hrun
  dsimp only
  refine (refuseIf_readOnly _ _ _).exec_bind (Edit.refl s) fun _ _ => ?_
  have hcallback : Callback .pg (regenerateBody call u) := by
    refine Callback.bind (Callback.readOnly (Proc.readOnly_read _)) fun old => ?_
    cases old with
    | none => exact Callback.pure _
    | some old =>
      dsimp only
      cases truthy old.deviceId with
      | none => exact Callback.pure _
      | some oldDeviceId =>
        have hname : Callback .pg (loadDeviceName oldDeviceId) := Callback.readOnly (Proc.readOnly_read _)
        have hdelete : Callback .pg (deleteFolderGrant call.grantId) := Callback.stmt fun _ _ => ⟨rfl, rfl⟩
        have htoken : Callback .pg (updateTokenHash oldDeviceId (revokedHash call.grantId)) :=
          Callback.stmt fun _ _ => ⟨rfl, rfl⟩
        have hdevice : ∀ name, Callback .pg (insertDevice (call.device name)) := fun _ =>
          Callback.stmt fun _ _ => ⟨rfl, rfl⟩
        have hgrant : Callback .pg (insertFolderGrant (call.row old u)) := Callback.stmt fun _ _ => ⟨rfl, rfl⟩
        refine hname.bind fun name => hdelete.bind fun _ => htoken.bind fun _ => (hdevice name).bind fun _ =>
          hgrant.bind fun _ => ?_
        cases call.onBeforeCommit <;> exact True.intro
  have hbody : Edit (Request.issues s (.regenerateGrant call)) (fun _ => False) s ((regenerateBody call u).runBody s).1 := by
    rw [regenerateBody, Proc.runBody_bind_of_ok (Proc.runBody_read _ s), htarget]
    dsimp only
    cases truthy target.deviceId with
    | none => exact Edit.refl s
    | some oldDeviceId =>
      dsimp only
      rw [loadDeviceName, Proc.runBody_bind_of_ok (Proc.runBody_read _ s)]
      refine Proc.runBody_stmt_bind (Edit.refl s) fun _ => ?_
      have hrefl : Edit (Request.issues s (.regenerateGrant call)) (fun _ => False) s s := Edit.refl s
      have hdeleted := hrefl.deleteGrant fun g => g.grantId ≠ call.grantId
      refine Proc.runBody_stmt_bind hdeleted fun _ => ?_
      have hrevoked := hdeleted.updateTokenHash oldDeviceId (revokedHash call.grantId)
      refine edit_deviceAndGrant hrevoked rfl ⟨target, u, hmay, htarget, rfl⟩ rfl fun w hw => ?_
      cases call.onBeforeCommit <;> exact hw
  have hstate := state_inTransaction (n := target.scopeNodeId) hcallback hbody (Edit.bump s)
  rw [inTransaction] at hstate
  rw [inAtomicTransaction, Proc.exec_transaction_bind hcallback]
  rcases hexec : (Proc.transaction (regenerateBody call u)).exec s none with ⟨s', e | a⟩
  · rw [hexec] at hstate
    exact hstate
  · rw [hexec] at hstate
    cases a <;> exact hstate

theorem checkInviteRequest_readOnly (call : InviteCall) : (checkInviteRequest call).ReadOnly := by
  refine (refuseIf_readOnly _ _ _).bind fun _ => (Proc.readOnly_read _).bind fun root => ?_
  refine (requireFound_readOnly _ _).bind fun scopeNodeId => (requireWrite_readOnly _ _).bind fun _ => ?_
  exact (requireUserBackedPrincipal_readOnly _).bind fun _ => True.intro

theorem runBody_checkInviteRequest_ok {call : InviteCall} {s' : Db} {scopeNodeId u : String}
    (h : (checkInviteRequest call).runBody s = (s', .ok (scopeNodeId, u))) :
    s.MayIssue call.principal scopeNodeId u := by
  obtain ⟨_, -, h₁⟩ := (refuseIf_readOnly _ _ _).runBody_bind_ok h
  obtain ⟨root, -, h₂⟩ := (Proc.readOnly_read _).runBody_bind_ok h₁
  obtain ⟨scope, -, h₃⟩ := (requireFound_readOnly _ _).runBody_bind_ok h₂
  obtain ⟨_, hwrite, h₄⟩ := (requireWrite_readOnly _ _).runBody_bind_ok h₃
  obtain ⟨user, huser, h₅⟩ := (requireUserBackedPrincipal_readOnly _).runBody_bind_ok h₄
  cases h₅
  exact ⟨runBody_requireUserBackedPrincipal_ok huser, runBody_requireWrite_ok hwrite⟩

theorem edit_createInvite (call : InviteCall) :
    Edit (fun _ => False) (Request.invites s (.createInvite call)) s ((createInvite be call).exec s none).1 := by
  refine (checkInviteRequest_readOnly call).exec_bind (Edit.refl s) fun a hrun => ?_
  obtain ⟨scopeNodeId, u⟩ := a
  have hmay := runBody_checkInviteRequest_ok hrun
  have hcallback : Callback be (insertFolderInvite (call.row scopeNodeId u)) := Callback.stmt fun _ _ => ⟨rfl, rfl⟩
  refine state_inTransaction hcallback ?_ (Edit.bump s)
  rw [insertFolderInvite, Proc.runBody_stmt]
  cases hcheck : s.inviteViolation (call.row scopeNodeId u) with
  | some e => exact Edit.refl s
  | none =>
    have hfresh : s.invite call.inviteToken = none := by
      refine lookup_eq_none.mpr fun i hi he => ?_
      have htaken : i.inviteToken = (call.row scopeNodeId u).inviteToken := he
      rw [Db.inviteViolation, if_pos (List.any_eq_true.mpr ⟨i, hi, decide_eq_true htaken⟩)] at hcheck
      cases hcheck
    exact (Edit.refl s).insertInvite ⟨scopeNodeId, u, hmay, hfresh, rfl⟩

theorem edit_acceptInvite (call : AcceptCall) :
    Edit (Request.issues s (.acceptInvite call)) (fun _ => False) s ((acceptInvite be call).exec s none).1 := by
  rw [acceptInvite]
  cases hp : call.principal with
  | device deviceId => exact Edit.refl s
  | user userId =>
    have hread : (Proc.read fun s => s.invite call.inviteToken : DbProc (Option FolderInviteRow)).ReadOnly :=
      Proc.readOnly_read _
    refine hread.exec_bind (Edit.refl s) fun a hrun => ?_
    rw [Proc.runBody_read] at hrun
    cases hrun
    cases hinvite : s.invite call.inviteToken with
    | none => exact Edit.refl s
    | some invite =>
      dsimp only
      split
      · exact Edit.refl s
      split
      · exact Edit.refl s
      next hpending =>
      split
      · exact Edit.refl s
      next hexpired =>
      have hissues : Request.issues s (.acceptInvite call) (call.row invite userId) := by
        refine ⟨invite, userId, hp, hinvite, not_not.mp hpending, ?_, rfl⟩
        omega
      have hgrant : Callback be (insertFolderGrant (call.row invite userId)) := Callback.stmt fun _ _ => ⟨rfl, rfl⟩
      have hstatus : Callback be (acceptFolderInvite call.inviteToken) := Callback.stmt fun _ _ => ⟨rfl, rfl⟩
      refine state_inTransaction (hgrant.bind fun _ => hstatus) ?_ (Edit.bump s)
      refine Proc.runBody_stmt_bind (Edit.refl s) fun hcheck => ?_
      have hstart : Edit (Request.issues s (.acceptInvite call)) (fun _ => False) s s := Edit.refl s
      exact (hstart.insertGrant hcheck hissues fun d hd => by cases hd).acceptInvite call.inviteToken

theorem edit_deleteInvite (principal : Principal) (folderId inviteId : String) :
    Edit (fun _ => False) (fun _ => False) s ((deleteInvite principal folderId inviteId).exec s none).1 := by
  have hroot : (getFolderRoot folderId).ReadOnly := Proc.readOnly_read _
  refine hroot.exec_bind (Edit.refl s) fun root _ => ?_
  refine (requireFound_readOnly _ _).exec_bind (Edit.refl s) fun rootNodeId _ => ?_
  refine (requireUserBackedPrincipal_readOnly _).exec_bind (Edit.refl s) fun u _ => ?_
  refine (requireWrite_readOnly _ _).exec_bind (Edit.refl s) fun _ _ => ?_
  have hread : (Proc.read fun s => lookup FolderInviteRow.inviteId inviteId s.folderInvites :
      DbProc (Option FolderInviteRow)).ReadOnly := Proc.readOnly_read _
  refine hread.exec_bind (Edit.refl s) fun invite _ => ?_
  cases invite with
  | none => exact Edit.refl s
  | some invite =>
    dsimp only
    split
    · exact Edit.refl s
    split
    · exact Edit.refl s
    · exact (Edit.refl s).deleteInvite _

/-! ### The tables they write to -/

section Writes

variable {R : Db → Db → Prop} [Std.Refl R]

/-- The relation allows every change to the tables that say who may do what. -/
def AllowsEdits (R : Db → Db → Prop) : Prop :=
  ∀ s devices folderGrants folderInvites, R s { s with devices, folderGrants, folderInvites }

theorem createGrant_writes (hR : AllowsEdits R) (call : GrantCall) : (createGrant be call).Writes R := by
  refine (checkGrantRequest_readOnly call).writes.bind fun scope => ?_
  have hdevice : ∀ r, (insertDevice r).Writes R := fun r => Proc.Writes.stmt fun _ s => hR s _ _ _
  have hgrant : ∀ g, (insertFolderGrant g).Writes R := fun g => Proc.Writes.stmt fun _ s => hR s _ _ _
  have hbody : ∀ g, (createGrantBody call.device g).Writes R := fun g =>
    (hdevice _).bind fun _ => (hgrant g).bind fun _ => True.intro
  refine (inTransaction_writes (hbody _)).attempt fun error => ?_
  rw [nameTaken]
  split <;> exact True.intro

theorem deleteGrant_writes (hR : AllowsEdits R) (principal : Principal) (grantId : String) :
    (deleteGrant principal grantId).Writes R := by
  have hdelete : (deleteFolderGrant grantId).Writes R := Proc.Writes.stmt fun _ s => hR s _ _ _
  have htoken : ∀ d, (revokeToken grantId d).Writes R := by
    intro d
    rw [revokeToken]
    cases truthy d with
    | none => exact True.intro
    | some deviceId => exact Proc.Writes.stmt fun _ s => hR s _ _ _
  exact (checkGrantTarget_readOnly principal grantId _).writes.bind fun target => hdelete.bind fun _ =>
    (htoken target.1.deviceId).bind fun _ => True.intro

theorem regenerateGrant_writes (hR : AllowsEdits R) (call : RegenerateCall) : (regenerateGrant call).Writes R := by
  have hdelete : ∀ grantId, (deleteFolderGrant grantId).Writes R := fun _ => Proc.Writes.stmt fun _ s => hR s _ _ _
  have hdevice : ∀ r, (insertDevice r).Writes R := fun r => Proc.Writes.stmt fun _ s => hR s _ _ _
  have hgrant : ∀ g, (insertFolderGrant g).Writes R := fun g => Proc.Writes.stmt fun _ s => hR s _ _ _
  have hbody : ∀ u, (regenerateBody call u).Writes R := by
    intro u
    refine (Proc.Writes.read _).bind fun old => ?_
    cases old with
    | none => exact True.intro
    | some old =>
      dsimp only
      cases truthy old.deviceId with
      | none => exact True.intro
      | some oldDeviceId =>
        have hname : (loadDeviceName oldDeviceId).Writes R := Proc.Writes.read _
        have htoken : (updateTokenHash oldDeviceId (revokedHash call.grantId)).Writes R :=
          Proc.Writes.stmt fun _ s => hR s _ _ _
        refine hname.bind fun name => (hdelete _).bind fun _ => htoken.bind fun _ => (hdevice _).bind fun _ =>
          (hgrant _).bind fun _ => ?_
        cases call.onBeforeCommit <;> exact True.intro
  refine (checkGrantTarget_readOnly call.principal call.grantId _).writes.bind fun target => ?_
  refine (refuseIf_readOnly _ _ _).writes.bind fun _ => (hbody _).transaction.bind fun grantId => ?_
  cases grantId <;> exact True.intro

theorem createInvite_writes (hR : AllowsEdits R) (call : InviteCall) : (createInvite be call).Writes R := by
  refine (checkInviteRequest_readOnly call).writes.bind fun scope => inTransaction_writes ?_
  exact Proc.Writes.stmt fun _ s => hR s _ _ _

theorem acceptInvite_writes (hR : AllowsEdits R) (call : AcceptCall) : (acceptInvite be call).Writes R := by
  rw [acceptInvite]
  cases call.principal with
  | device deviceId => exact True.intro
  | user userId =>
    refine (Proc.Writes.read _).bind fun invite => ?_
    cases invite with
    | none => exact True.intro
    | some invite =>
      have hgrant : ∀ g, (insertFolderGrant g).Writes R := fun g => Proc.Writes.stmt fun _ s => hR s _ _ _
      have hstatus : (acceptFolderInvite call.inviteToken).Writes R := Proc.Writes.stmt fun _ s => hR s _ _ _
      dsimp only
      split
      · exact True.intro
      split
      · exact True.intro
      split
      · exact True.intro
      · exact inTransaction_writes ((hgrant _).bind fun _ => hstatus)

theorem deleteInvite_writes (hR : AllowsEdits R) (principal : Principal) (folderId inviteId : String) :
    (deleteInvite principal folderId inviteId).Writes R := by
  have hroot : (getFolderRoot folderId).ReadOnly := Proc.readOnly_read _
  refine hroot.writes.bind fun root => (requireFound_readOnly _ _).writes.bind fun rootNodeId => ?_
  refine (requireUserBackedPrincipal_readOnly _).writes.bind fun u => (requireWrite_readOnly _ _).writes.bind fun _ => ?_
  refine (Proc.Writes.read _).bind fun invite => ?_
  cases invite with
  | none => exact True.intro
  | some invite =>
    have hdelete : (deleteFolderInvite inviteId).Writes R := Proc.Writes.stmt fun _ s => hR s _ _ _
    dsimp only
    split
    · exact True.intro
    split
    · exact True.intro
    · exact hdelete

/-- A request about grants leaves the other tables alone. -/
theorem request_allowed [IsTrans Db R] (hR : AllowsEdits R) (be : Backend) (s : Db) (req : Request) : R s (req.serve be s) ∨
    (∃ call, req = .createFolder call) ∨ ∃ call, req = .submitOp call := by
  have hexec : ∀ {α : Type} {p : DbProc α}, p.Writes R → R s (p.exec s none).1 := fun h =>
    h.exec s fun _ hu => absurd hu (Option.not_mem_none _)
  cases req with
  | createFolder call => exact .inr (.inl ⟨call, rfl⟩)
  | createGrant call => exact .inl (hexec (createGrant_writes hR call))
  | deleteGrant principal grantId => exact .inl (hexec (deleteGrant_writes hR principal grantId))
  | regenerateGrant call => exact .inl (hexec (regenerateGrant_writes hR call))
  | createInvite call => exact .inl (hexec (createInvite_writes hR call))
  | acceptInvite call => exact .inl (hexec (acceptInvite_writes hR call))
  | deleteInvite principal folderId inviteId =>
    exact .inl (hexec (deleteInvite_writes hR principal folderId inviteId))
  | submitOp call => exact .inr (.inr ⟨call, rfl⟩)

end Writes

/-- **A request about grants** is an edit: it adds what it may ask for and nothing else. -/
theorem edit_request (be : Backend) (s : Db) (req : Request) :
    Edit (req.issues s) (req.invites s) s (req.serve be s) ∨
      (∃ call, req = .createFolder call) ∨ ∃ call, req = .submitOp call := by
  cases req with
  | createFolder call => exact .inr (.inl ⟨call, rfl⟩)
  | createGrant call => exact .inl (edit_createGrant call)
  | deleteGrant principal grantId => exact .inl (edit_deleteGrant principal grantId)
  | regenerateGrant call => exact .inl (edit_regenerateGrant call)
  | createInvite call => exact .inl (edit_createInvite call)
  | acceptInvite call => exact .inl (edit_acceptInvite call)
  | deleteInvite principal folderId inviteId => exact .inl (edit_deleteInvite principal folderId inviteId)
  | submitOp call => exact .inr (.inr ⟨call, rfl⟩)

end Requests

end Valv.Server
