import Valv.Server.Shape
import Valv.Server.Walk

/-!
# Where a principal can write

What the answer of a call says about the nodes it touches.  `submitOp` looks for a grant on the
node of an op, or on the parent of a create, and compares the folder of the URL with the folder of
a move's new parent.  Nothing compares it with the folder of the node or of a create's parent, and
neither parent of a move has its grant checked.

* `Confinement`: a committed call stays in the folder of its URL and within the principal's grants.
* `submitOp_confinement`: it does exactly when what the code leaves unchecked holds.
-/

namespace Valv.Server

open Valv.Conc Valv.Table Valv.Forest StateTransition

/-- The node is in the folder. -/
def Db.inFolder (s : Db) (folderId n : String) : Bool := (s.node n).any fun r => r.folderId = folderId

/-- Where a mutation puts its node. -/
def Mutation.newParentId : Mutation → Option String
  | .move newParentId => some newParentId
  | _ => none

/-- The nodes of the database that a call is about: the node of the op, and the parent it is to
be under. -/
def SubmitCall.places (call : SubmitCall) : List String :=
  match call.op with
  | .create _ parentId _ _ => [parentId]
  | .mutate n _ m => n :: m.newParentId.toList

/-- The parents of a move, the new one and the one the node leaves. -/
def Db.parentsOfMove (s : Db) (n : String) (m : Mutation) : List String :=
  match m.newParentId with
  | some newParentId => newParentId :: (s.parentOf n).toList
  | none => []

/-- The nodes that the principal's grants should cover: the node of the op or the parent of a
create, and both parents of a move. -/
def Db.guarded (s : Db) (call : SubmitCall) : List String :=
  match call.op with
  | .create _ parentId _ _ => [parentId]
  | .mutate n _ m => n :: s.parentsOfMove n m

/-- The principal's grants that allow to write are all scoped to `root`, in whatever folder they are. -/
def Db.WritesBelow (s : Db) (principal : Principal) (root : String) : Prop :=
  ∀ g ∈ s.folderGrants, s.grantee principal g = true → g.canWrite = true → g.scopeNodeId = root

/-- A committed call is about nodes of its folder, and about nodes that the principal may write
to; whoever may write only below `root` touches nothing else. -/
structure Db.Confined (s : Db) (call : SubmitCall) : Prop where
  folder : ∀ n ∈ call.places, s.inFolder call.folderId n = true
  granted : ∀ n ∈ s.guarded call, s.grants n call.principal .write = true
  below : ∀ root, s.WritesBelow call.principal root → ∀ n ∈ s.guarded call, Reaches s.parentOf n root

/-- **Confinement**: a committed call changes nothing outside of what its principal may write to, and every new op
is in the log of the folder that its node is in. -/
def Confinement (be : Backend) (call : SubmitCall) (s : Db) : Prop :=
  (committed (serve be call s).2 = true → s.Confined call) ∧
  ∀ e ∈ (serve be call s).1.opLog, e ∈ s.opLog ∨ (serve be call s).1.inFolder e.folderId e.nodeId = true

/-- What nothing in the code checks: that the node, or the parent of a create, is in the folder of the request, and
that the target of a move may be written to. -/
def Db.staysInside (s : Db) (call : SubmitCall) : Prop :=
  match call.op with
  | .create _ parentId _ _ => s.inFolder call.folderId parentId = true
  | .mutate n _ m => s.inFolder call.folderId n = true ∧
      ∀ p ∈ s.parentsOfMove n m, s.grants p call.principal .write = true

variable {be : Backend} {call : SubmitCall} {s : Db}

/-- A write that is granted comes from a row scoped to the node or above it. -/
theorem reaches_of_grants {n root : String} {principal : Principal}
    (h : s.grants n principal .write = true) (hroot : s.WritesBelow principal root) :
    Reaches s.parentOf n root := by
  rw [Db.grants, runBody_checkGrant] at h
  cases hauthz : s.authz n principal .write with
  | denied reason =>
    rw [hauthz] at h
    cases h
  | granted grantId scopeNodeId canWrite =>
    obtain ⟨r, g, -, hg, -, -, -⟩ := authz_granted hauthz
    have hwrite : g.canWrite = true := by
      have hallows := hg.allows
      rw [grantResult] at hallows
      split at hallows
      · next hw => exact hw
      · cases hallows
    rw [← hroot g hg.mem hg.grantee hwrite]
    exact hg.reaches

/-- A call is confined when its grants and folders are. -/
theorem confined_of_granted (hfolder : ∀ n ∈ call.places, s.inFolder call.folderId n = true)
    (hgranted : ∀ n ∈ s.guarded call, s.grants n call.principal .write = true) : s.Confined call where
  folder := hfolder
  granted := hgranted
  below _ hroot n hn := reaches_of_grants (hgranted n hn) hroot

theorem inFolder_of_moveTargetOk {m : Mutation} {folderId p : String} (h : s.moveTargetOk folderId m = true)
    (hp : m.newParentId = some p) : s.inFolder folderId p = true := by
  cases m with
  | move newParentId =>
    cases hp
    rw [Db.moveTargetOk] at h
    obtain ⟨r, hr, hok⟩ := (Option.any_eq_true _ _).mp h
    rw [Bool.and_eq_true] at hok
    exact (Option.any_eq_true _ _).mpr ⟨r, hr, hok.2⟩
  | rename newName => cases hp
  | delete => cases hp
  | newVersion versionId contentHash sizeBytes manifest => cases hp

/-- What passes the checks and stays inside is confined. -/
theorem confined_of_passes (hpass : s.passes call = true) (hinside : s.staysInside call) : s.Confined call := by
  cases hop : call.op with
  | create n parentId name type =>
    rw [Db.passes, hop] at hpass
    rw [Db.staysInside, hop] at hinside
    refine confined_of_granted (fun m hm => ?_) fun m hm => ?_
    · rw [SubmitCall.places, hop] at hm
      rw [List.mem_singleton.mp hm]
      exact hinside
    · rw [Db.guarded, hop] at hm
      rw [List.mem_singleton.mp hm]
      exact hpass
  | mutate n b m =>
    rw [Db.passes, hop] at hpass
    rw [Db.staysInside, hop] at hinside
    obtain ⟨hgrant, htarget⟩ := Bool.and_eq_true_iff.mp hpass
    refine confined_of_granted (fun q hq => ?_) fun q hq => ?_
    · rw [SubmitCall.places, hop] at hq
      rcases List.mem_cons.mp hq with rfl | hq
      · exact hinside.1
      · exact inFolder_of_moveTargetOk htarget (Option.mem_toList.mp hq)
    · rw [Db.guarded, hop] at hq
      rcases List.mem_cons.mp hq with rfl | hq
      · exact hgrant
      · exact hinside.2 q hq

/-- A confined call stays inside. -/
theorem Db.Confined.staysInside (h : s.Confined call) : s.staysInside call := by
  cases hop : call.op with
  | create n parentId name type =>
    rw [Db.staysInside, hop]
    exact h.folder parentId (by rw [SubmitCall.places, hop]; exact List.mem_singleton.mpr rfl)
  | mutate n b m =>
    rw [Db.staysInside, hop]
    refine ⟨h.folder n ?_, fun p hp => h.granted p ?_⟩
    · rw [SubmitCall.places, hop]
      exact List.mem_cons_self
    · rw [Db.guarded, hop]
      exact List.mem_cons_of_mem n hp

/-- The node of a committed call is in the folder of the URL, if the call stays inside. -/
theorem inFolder_of_reshapes {s' : Db} (h : Reshapes call s s') (hnode : (s'.node call.op.nodeId).isSome)
    (hold : ∀ r, s.node call.op.nodeId = some r → r.folderId = call.folderId) :
    s'.inFolder call.folderId call.op.nodeId = true := by
  obtain ⟨r', hr'⟩ := Option.isSome_iff_exists.mp hnode
  refine (Option.any_eq_true _ _).mpr ⟨r', hr', decide_eq_true_eq.mpr ?_⟩
  cases hr : s.node call.op.nodeId with
  | none =>
    obtain ⟨parentId, name, -, hfolder, -⟩ := h.added _ r' hr hr'
    exact hfolder
  | some r =>
    obtain ⟨r₁, hr₁, hfolder, -⟩ := h.kept _ r hr
    cases hr'.symm.trans hr₁
    exact hfolder.trans (hold r hr)

/-- The node of a call that is accepted and stays inside is new or in the folder. -/
theorem folder_of_inside (haccepts : s.Accepts call) (hinside : s.staysInside call) {r : NodeRow}
    (hr : s.node call.op.nodeId = some r) : r.folderId = call.folderId := by
  obtain ⟨deviceId, -, -, hop⟩ := haccepts
  rw [Db.acceptsOp] at hop
  rw [Db.staysInside] at hinside
  cases hcall : call.op with
  | create n parentId name type =>
    rw [hcall] at hop hr
    exact absurd (hr.symm.trans hop.1) (Option.some_ne_none r)
  | mutate n b m =>
    rw [hcall] at hr hinside
    obtain ⟨r₁, hr₁, hfolder⟩ := (Option.any_eq_true _ _).mp hinside.1
    cases hr₁.symm.trans hr
    exact decide_eq_true_eq.mp hfolder

theorem Db.Accepts.passes (h : s.Accepts call) : s.passes call = true := by
  obtain ⟨deviceId, -, hpass, -⟩ := h
  exact hpass

variable (be call) in
theorem committed_iff_accepts : committed (serve be call s).2 = true ↔ s.Accepts call := by
  rcases serve_verdict be call s with ⟨hacc, -, hcom⟩ | ⟨hacc, -, hcom, -⟩ | ⟨hacc, -, hcom, -⟩
  · exact iff_of_true hcom hacc
  · exact iff_of_false (by rw [hcom]; nofun) hacc
  · exact iff_of_false (by rw [hcom]; nofun) hacc

/-- **Confinement of writes**: a call is confined exactly when it is refused or keeps to what
nothing checks. -/
theorem submitOp_confinement (be : Backend) (call : SubmitCall) (s : Db) :
    Confinement be call s ↔ (s.Accepts call → s.staysInside call) := by
  constructor
  · intro h haccepts
    exact (h.1 ((committed_iff_accepts be call).mpr haccepts)).staysInside
  · intro h
    refine ⟨fun hcom => ?_, fun e he => ?_⟩
    · have haccepts := (committed_iff_accepts be call).mp hcom
      exact confined_of_passes haccepts.passes (h haccepts)
    · have hshape := serve_reshapes be call s
      rcases serve_logs be call s with ⟨hcom, hnode⟩ | ⟨-, hlog⟩
      · rcases hshape.logged e he with hold | ⟨hfolder, hn⟩
        · exact .inl hold
        · have haccepts := (committed_iff_accepts be call).mp hcom
          rw [hfolder, hn]
          exact .inr (inFolder_of_reshapes hshape hnode fun r hr =>
            folder_of_inside haccepts (h haccepts) hr)
      · exact .inl (hlog ▸ he)

/-- `raceDb` with a second shared folder, on which the device has no grant. -/
def twoFoldersDb : Db :=
  { raceDb with
    sharedFolders := ["f", "g"]
    nodes := raceDb.nodes ++ [{ nodeId := "other", folderId := "g", parentId := none, name := "", type := .folder }] }

/-- The file of the first folder goes into the second one, under the URL of the second. -/
theorem submitOp_moves_across : ¬ Confinement .sqlite
    { raceCall "" with folderId := "g", op := .mutate "n" 0 (.move "other") } twoFoldersDb := by
  intro h
  have hgranted := (h.1 (by decide +kernel)).granted "other" (by decide +kernel)
  exact absurd hgranted (by decide +kernel)

end Valv.Server
