import Mathlib.Logic.Function.Basic
import Valv.Server.Tree

/-!
# Accepted writes below deleted folders

A delete marks one row, and no check of `submitOp` asks whether a node or a folder above it is
deleted.

* `Visible`: the node of an applied create, rename, move or new version is live, and everything
  above it.  `submitOp_visible_iff` says for which calls this is so.
* `Orderly`: the histories whose applied ops leave nothing behind in a deleted folder.
* `submitOp_visible`: at the end of such a history every node with an applied op is deleted itself
  or live up to its root.
-/

namespace Valv.Server

open Valv.Conc Valv.Table Valv.Forest StateTransition

/-! ### Live nodes -/

/-- The node is there and not deleted. -/
def Db.live (s : Db) (n : String) : Bool := (s.node n).any fun r => r.deletedAt.isNone

/-- The node and everything above it is live. -/
def Db.visible (s : Db) (n : String) : Prop := ∀ a, Reaches s.parentOf n a → s.live a = true

/-- The op deletes its node. -/
def SubmitOpRequest.isDelete : SubmitOpRequest → Bool
  | .mutate _ _ .delete => true
  | _ => false

/-- The call will be answered with `applied`: it is accepted, and an op on a node is based on the node's current
`server_seq`. -/
def Db.applies (s : Db) (call : SubmitCall) : Prop :=
  s.Accepts call ∧ ∀ n b m, call.op = .mutate n b m → ∃ r, s.node n = some r ∧ r.serverSeq = b

/-- The parents once the call is applied. -/
def Db.parentAfter (s : Db) (call : SubmitCall) : String → Option String :=
  match call.op with
  | .create n parentId _ _ => Function.update s.parentOf n (some parentId)
  | .mutate n _ m => m.newParentId.elim s.parentOf fun p => Function.update s.parentOf n (some p)

/-- The write lands in a live place: the node is live or made by the call, and everything above the place it is
given is live. -/
def Db.landsLive (s : Db) (call : SubmitCall) : Prop :=
  ∀ a, Reaches (s.parentAfter call) call.op.nodeId a →
    s.live a = true ∨ (a = call.op.nodeId ∧ s.node a = none)

/-- **An applied write is visible**: its node is live afterwards, and so is everything above it. -/
def Visible (be : Backend) (call : SubmitCall) (s : Db) : Prop :=
  isApplied (serve be call s).2 = true → call.op.isDelete = false →
    (serve be call s).1.visible call.op.nodeId

section Step

variable {be : Backend} {call : SubmitCall} {s s' : Db}

/-- What an applied call makes of the nodes. -/
structure Applied (call : SubmitCall) (s s' : Db) : Prop where
  parents : s'.parentOf = s.parentAfter call
  node : s'.live call.op.nodeId =
    (!call.op.isDelete && (s.live call.op.nodeId || (s.node call.op.nodeId).isNone))
  live : ∀ a, a ≠ call.op.nodeId → s'.live a = s.live a

/-- The nodes are where they were, and each is as live as it was. -/
structure Kept (s s' : Db) : Prop where
  parents : s'.parentOf = s.parentOf
  live : s'.live = s.live

theorem Kept.of_node (h : ∀ n, (s'.node n).map (fun r => (r.parentId, r.deletedAt)) =
    (s.node n).map fun r => (r.parentId, r.deletedAt)) : Kept s s' where
  parents := by
    funext n
    have hn := h n
    rw [Db.parentOf, Db.parentOf]
    cases hr : s.node n with
    | none =>
      rw [hr, Option.map_none, Option.map_eq_none_iff] at hn
      rw [hn]
    | some r =>
      rw [hr, Option.map_some, Option.map_eq_some_iff] at hn
      obtain ⟨r', hr', heq⟩ := hn
      rw [hr', Option.bind_some, Option.bind_some]
      exact congrArg Prod.fst heq
  live := by
    funext n
    have hn := h n
    rw [Db.live, Db.live]
    cases hr : s.node n with
    | none =>
      rw [hr, Option.map_none, Option.map_eq_none_iff] at hn
      rw [hn]
    | some r =>
      rw [hr, Option.map_some, Option.map_eq_some_iff] at hn
      obtain ⟨r', hr', heq⟩ := hn
      rw [hr', Option.any_some, Option.any_some]
      exact congrArg (fun x => Option.isNone x.2) heq

theorem Kept.of_nodes (h : s'.nodes = s.nodes) : Kept s s' := by
  refine Kept.of_node fun n => ?_
  rw [Db.node, h, Db.node]

/-- A conflict copy. -/
theorem Commits.kept {n deviceId : String} {payload : OpPayload} {b : Option ℕ} {r : NodeRow}
    (h : Commits call n deviceId payload b r s s') (hr : s.node n = some r) : Kept s s' := by
  refine Kept.of_node fun m => ?_
  by_cases hm : m = n
  · subst hm
    rw [h.node, hr]
    rfl
  · rw [h.other m hm]

/-- A new node. -/
theorem Commits.applied_create {n deviceId parentId name : String} {type : NodeType} {payload : OpPayload}
    {b : Option ℕ} (hop : call.op = .create n parentId name type)
    (h : Commits call n deviceId payload b (call.createdRow n parentId name type) s s')
    (hnew : s.node n = none) : Applied call s s' where
  parents := by
    rw [Db.parentAfter, hop]
    funext m
    dsimp only
    by_cases hm : m = n
    · subst hm
      rw [Db.parentOf, h.node, Function.update_self]
      rfl
    · rw [Db.parentOf, h.other m hm, Function.update_of_ne hm, Db.parentOf]
  node := by
    rw [hop]
    show s'.live n = (!false && (s.live n || (s.node n).isNone))
    rw [Db.live, h.node, hnew, Option.isNone_none, Bool.or_true]
    rfl
  live a ha := by
    rw [hop] at ha
    rw [Db.live, h.other a ha, Db.live]

/-- An op on a node. -/
theorem Commits.applied_mutate {n deviceId : String} {b₀ : ℕ} {m : Mutation} {payload : OpPayload} {b : Option ℕ}
    {r : NodeRow} (hop : call.op = .mutate n b₀ m)
    (h : Commits call n deviceId payload b (m.applyRow call.now r) s s') (hr : s.node n = some r) :
    Applied call s s' where
  parents := by
    rw [Db.parentAfter, hop]
    funext k
    dsimp only
    by_cases hk : k = n
    · subst hk
      cases m with
      | move newParentId =>
        show s'.parentOf k = Function.update s.parentOf k (some newParentId) k
        rw [Db.parentOf, h.node, Function.update_self]
        rfl
      | rename newName => exact (parentOf_of_node h.node).trans (parentOf_of_node hr).symm
      | delete => exact (parentOf_of_node h.node).trans (parentOf_of_node hr).symm
      | newVersion versionId contentHash sizeBytes manifest =>
        exact (parentOf_of_node h.node).trans (parentOf_of_node hr).symm
    · have hother : s'.parentOf k = s.parentOf k := by rw [Db.parentOf, h.other k hk, Db.parentOf]
      rw [hother]
      cases m with
      | move newParentId => exact (Function.update_of_ne hk _ _).symm
      | rename newName => rfl
      | delete => rfl
      | newVersion versionId contentHash sizeBytes manifest => rfl
  node := by
    rw [hop]
    show s'.live n = (!(SubmitOpRequest.mutate n b₀ m).isDelete && (s.live n || (s.node n).isNone))
    rw [Db.live, Db.live, h.node, hr, Option.any_some, Option.any_some, Option.isNone_some, Bool.or_false]
    cases m <;> rfl
  live a ha := by
    rw [hop] at ha
    rw [Db.live, h.other a ha, Db.live]

/-- What the log accepts has its folder and its device. -/
theorem Db.Accepts.admits (h : s.Accepts call) : s.Admits call := by
  obtain ⟨deviceId, hp, -, hop⟩ := h
  have hlogs : s.logs call deviceId := by
    rw [Db.acceptsOp] at hop
    cases hcall : call.op with
    | create n parentId name type =>
      rw [hcall] at hop
      exact hop.2.2
    | mutate n b m =>
      rw [hcall] at hop
      obtain ⟨r, -, hm⟩ := hop
      cases m with
      | newVersion versionId contentHash sizeBytes manifest => exact hm.2.2
      | rename newName => exact hm.2.2.2
      | move newParentId => exact hm.2.2.2
      | delete => exact hm.2.2.2
  rw [Db.logs, Db.opLogViolation] at hlogs
  split at hlogs
  · cases hlogs
  · next hfolder =>
    split at hlogs
    · cases hlogs
    · next hdevice =>
      refine ⟨not_not.mp hfolder, fun d hd => ?_⟩
      cases hp.symm.trans hd
      exact not_not.mp hdevice

theorem isApplied_of_not_committed {r : Except ApiError SubmitOpResponse} (h : committed r = false) :
    isApplied r = false := by
  rcases r with e | a
  · rfl
  · cases a with
    | applied seq n => cases h
    | conflictCopy seq n v => rfl
    | superseded seq => rfl

/-- The call does no damage without an answer: it names a shared folder and a known device, or does not fail after a
write. -/
def Db.Tidy (be : Backend) (s : Db) (call : SubmitCall) : Prop :=
  s.Admits call ∨ ¬ fails be (s.FailsLate call)

/-- **One call**, as far as visibility goes. -/
theorem serve_applied (be : Backend) (call : SubmitCall) (hd : s.SeqsDrawn) :
    (s.applies call ∧ isApplied (serve be call s).2 = true ∧ Applied call s (serve be call s).1) ∨
    (¬ s.applies call ∧ isApplied (serve be call s).2 = false ∧
      (s.Tidy be call → Kept s (serve be call s).1)) := by
  have hrefuse : committed (serve be call s).2 = false →
      (s.Tidy be call → Kept s (serve be call s).1) →
      ¬ s.applies call ∧ isApplied (serve be call s).2 = false ∧
        (s.Tidy be call → Kept s (serve be call s).1) := by
    intro hcom hkept
    refine ⟨fun happlies => ?_, isApplied_of_not_committed hcom, hkept⟩
    have hcom' := (committed_iff_accepts be call).mpr happlies.1
    exact absurd (hcom.symm.trans hcom') nofun
  by_cases ha : s.Admits call
  · have hout := serve_outcome be hd ha
    rcases hserve : serve be call s with ⟨s', e | a⟩
    · rw [hserve] at hout hrefuse
      exact .inr (hrefuse rfl fun _ => Kept.of_nodes hout.nodes)
    · rw [hserve] at hout hrefuse
      have haccepts : committed (.ok a) = true → s.Accepts call := by
        intro hcom
        refine (committed_iff_accepts be call).mp ?_
        rw [hserve]
        exact hcom
      cases hout with
      | created deviceId n parentId name type hop hnew hparent hname h =>
        refine .inl ⟨⟨haccepts rfl, fun k b m hm => ?_⟩, rfl, h.applied_create hop hnew⟩
        rw [hop] at hm
        cases hm
      | applied deviceId n b m r hop hr hb hname hchunks h =>
        refine .inl ⟨⟨haccepts rfl, fun k b' m' hm => ?_⟩, rfl, h.applied_mutate hop hr⟩
        rw [hop] at hm
        cases hm
        exact ⟨r, hr, hb⟩
      | conflictCopy deviceId n b versionId contentHash sizeBytes manifest r hop hr hb hchunks h =>
        refine .inr ⟨fun happlies => ?_, rfl, fun _ => h.kept hr⟩
        obtain ⟨r', hr', hb'⟩ := happlies.2 n b _ hop
        cases hr.symm.trans hr'
        exact hb hb'
      | superseded seq h => exact .inr (hrefuse rfl fun _ => Kept.of_nodes h.nodes)
  · have hnot : ¬ s.Accepts call := fun h => ha h.admits
    rcases serve_verdict be call s with ⟨hacc, -, -⟩ | ⟨-, -, hcom, hsame⟩ | ⟨-, hfails, hcom, -⟩
    · exact absurd hacc hnot
    · exact .inr (hrefuse hcom fun _ => Kept.of_nodes hsame.nodes)
    · refine .inr (hrefuse hcom fun htidy => ?_)
      rcases htidy with h | h
      · exact absurd h ha
      · exact absurd hfails h

/-- What an applied write leaves live, told from the database before it. -/
theorem Applied.visible_iff (h : Applied call s s') (hdelete : call.op.isDelete = false) :
    s'.visible call.op.nodeId ↔ s.landsLive call := by
  have hlive : ∀ a, s'.live a = true ↔ s.live a = true ∨ (a = call.op.nodeId ∧ s.node a = none) := by
    intro a
    by_cases ha : a = call.op.nodeId
    · subst ha
      rw [h.node, hdelete, Bool.not_false, Bool.true_and, Bool.or_eq_true, Option.isNone_iff_eq_none]
      exact or_congr_right ⟨fun hn => ⟨rfl, hn⟩, fun hn => hn.2⟩
    · rw [h.live a ha]
      exact ⟨.inl, fun hor => hor.resolve_right fun hn => ha hn.1⟩
  rw [Db.visible, Db.landsLive, h.parents]
  exact forall_congr' fun a => imp_congr_right fun _ => hlive a

/-- **Which applied writes are visible.** -/
theorem visible_iff (be : Backend) (call : SubmitCall) (hd : s.SeqsDrawn) :
    Visible be call s ↔ (s.applies call → call.op.isDelete = false → s.landsLive call) := by
  rcases serve_applied be call hd with ⟨happlies, hans, h⟩ | ⟨happlies, hans, -⟩
  · constructor
    · exact fun hv _ hdelete => (h.visible_iff hdelete).mp (hv hans hdelete)
    · exact fun hl _ hdelete => (h.visible_iff hdelete).mpr (hl happlies hdelete)
  · refine iff_of_true (fun h => ?_) fun h => absurd h happlies
    exact absurd (hans.symm.trans h) nofun

/-- Every call keeps the `server_seq`s drawn. -/
theorem serve_seqsDrawn (be : Backend) (call : SubmitCall) (hd : s.SeqsDrawn) :
    (serve be call s).1.SeqsDrawn := by
  rcases serve_logs be call s with ⟨hcom, -⟩ | ⟨-, hlog⟩
  · have ha := ((committed_iff_accepts be call).mp hcom).admits
    rcases serve_log be hd ha with h | ⟨deviceId, payload, row, h⟩
    · exact ⟨fun e he => (hd.le e (h.opLog ▸ he)).trans h.lastSeq, by rw [Db.opSeqs, h.opLog]; exact hd.nodup⟩
    · exact h.seqsDrawn hd
  · have hlast := (serve_reshapes be call s).lastSeq
    exact ⟨fun e he => (hd.le e (hlog ▸ he)).trans hlast, by rw [Db.opSeqs, hlog]; exact hd.nodup⟩

/-- An op that a call adds to the log is above all `server_seq`s drawn before. -/
theorem serve_newer (be : Backend) (call : SubmitCall) (hd : s.SeqsDrawn) :
    ∀ e ∈ (serve be call s).1.opLog, e ∈ s.opLog ∨ s.lastSeq < e.serverSeq := by
  intro e he
  rcases serve_logs be call s with ⟨hcom, -⟩ | ⟨-, hlog⟩
  · have ha := ((committed_iff_accepts be call).mp hcom).admits
    rcases serve_log be hd ha with h | ⟨deviceId, payload, row, h⟩
    · exact .inl (h.opLog ▸ he)
    · rcases h.mem_opLog.mp he with hold | rfl
      · exact .inl hold
      · exact .inr (Nat.lt_succ_self _)
  · exact .inl (hlog ▸ he)

end Step

/-! ### Histories of calls -/

/-- The database, and the nodes that a create, rename, move or new version was applied to. -/
structure History where
  db : Db
  answered : List String := []

/-- One more call. -/
def History.next (be : Backend) (h : History) (call : SubmitCall) : History where
  db := (serve be call h.db).1
  answered := if isApplied (serve be call h.db).2 && !call.op.isDelete then call.op.nodeId :: h.answered
    else h.answered

/-- The calls one after the other, whoever they are from. -/
def History.run (be : Backend) (h : History) (calls : List SubmitCall) : History :=
  calls.foldl (History.next be) h

/-- One of the calls deletes the node. -/
def DeletedBy (be : Backend) (n : String) : Db → List SubmitCall → Prop
  | _, [] => False
  | s, call :: calls => (s.applies call ∧ call.op.isDelete = true ∧ call.op.nodeId = n) ∨
      DeletedBy be n (serve be call s).1 calls

/-- Nothing that was written stays behind: an applied write lands where everything is live, and
after an applied delete the rest of the calls deletes all live nodes below that were written to. -/
def Orderly (be : Backend) : History → List SubmitCall → Prop
  | _, [] => True
  | h, call :: calls =>
    h.db.Tidy be call ∧
    (h.db.applies call → call.op.isDelete = false → h.db.landsLive call) ∧
    (h.db.applies call → call.op.isDelete = true → ∀ n ∈ h.answered, n ≠ call.op.nodeId →
      h.db.live n = true → Reaches h.db.parentOf n call.op.nodeId →
        DeletedBy be n (serve be call h.db).1 calls) ∧
    Orderly be (h.next be call) calls

/-- A node that was written to is deleted, or live up to its root, or still to be deleted. -/
def History.Settled (be : Backend) (h : History) (calls : List SubmitCall) : Prop :=
  ∀ n ∈ h.answered, h.db.live n = true → h.db.visible n ∨ DeletedBy be n h.db calls

section History

variable {be : Backend} {call : SubmitCall} {calls : List SubmitCall} {s s' : Db} {h : History} {n : String}

theorem Kept.visible (h : Kept s s') : s'.visible n ↔ s.visible n := by
  rw [Db.visible, h.parents, h.live, Db.visible]

theorem parentAfter_ne {m : String} (hm : m ≠ call.op.nodeId) : s.parentAfter call m = s.parentOf m := by
  rw [Db.parentAfter]
  cases hop : call.op with
  | create k parentId name type =>
    rw [hop] at hm
    exact Function.update_of_ne hm _ _
  | mutate k b mutation =>
    rw [hop] at hm
    dsimp only
    cases mutation.newParentId with
    | none => rfl
    | some p => exact Function.update_of_ne hm _ _

theorem parentAfter_delete (hdelete : call.op.isDelete = true) : s.parentAfter call = s.parentOf := by
  rw [Db.parentAfter]
  cases hop : call.op with
  | create k parentId name type =>
    rw [hop] at hdelete
    cases hdelete
  | mutate k b m =>
    rw [hop] at hdelete
    cases m with
    | delete => rfl
    | rename newName => cases hdelete
    | move newParentId => cases hdelete
    | newVersion versionId contentHash sizeBytes manifest => cases hdelete

theorem Db.visible.up {p : String} (hv : s.visible n) (hp : s.parentOf n = some p) : s.visible p :=
  fun a ha => hv a (Reaches.step hp ha)

/-- An applied write that lands where everything is live hides no other node. -/
theorem Applied.visible_write (h : Applied call s s') (hdelete : call.op.isDelete = false)
    (hlands : s.landsLive call) (hv : s.visible n) : s'.visible n := by
  have hself : s'.visible call.op.nodeId := (h.visible_iff hdelete).mpr hlands
  intro a ha
  induction ha using Relation.ReflTransGen.head_induction_on with
  | refl =>
    by_cases hne : a = call.op.nodeId
    · exact hself a (hne ▸ Reaches.refl _)
    · rw [h.live a hne]
      exact hv a (Reaches.refl a)
  | @head m p hlink hpa ih =>
    by_cases hne : m = call.op.nodeId
    · subst hne
      exact hself a (Reaches.step hlink hpa)
    · have hp : s.parentOf m = some p := by
        rw [Option.mem_def, h.parents, parentAfter_ne hne] at hlink
        exact hlink
      exact ih (hv.up hp)

/-- An applied delete hides what is below. -/
theorem Applied.visible_delete (h : Applied call s s') (hdelete : call.op.isDelete = true) (hv : s.visible n)
    (hn : ¬ Reaches s.parentOf n call.op.nodeId) : s'.visible n := by
  intro a ha
  rw [h.parents, parentAfter_delete hdelete] at ha
  have hne : a ≠ call.op.nodeId := fun he => hn (he ▸ ha)
  rw [h.live a hne]
  exact hv a ha

theorem DeletedBy.later (h : DeletedBy be n s (call :: calls))
    (hcall : s.applies call → call.op.isDelete = true → call.op.nodeId ≠ n) :
    DeletedBy be n (serve be call s).1 calls := by
  rcases h with ⟨happlies, hdelete, hn⟩ | h
  · exact absurd hn (hcall happlies hdelete)
  · exact h

theorem Applied.live_of (h : Applied call s s') (hn : n ≠ call.op.nodeId) (hlive : s'.live n = true) :
    s.live n = true := by
  rw [h.live n hn] at hlive
  exact hlive

/-- **One call** of an orderly history. -/
theorem History.Settled.next (hd : h.db.SeqsDrawn) (hs : h.Settled be (call :: calls))
    (ho : Orderly be h (call :: calls)) : (h.next be call).Settled be calls := by
  obtain ⟨htidy, hwrite, hdel, -⟩ := ho
  intro n hn hlive
  rcases serve_applied be call hd with ⟨happlies, hans, happ⟩ | ⟨happlies, hans, hkept⟩
  · cases hdelete : call.op.isDelete with
    | false =>
      have hlands := hwrite happlies hdelete
      by_cases hne : n = call.op.nodeId
      · subst hne
        exact .inl ((happ.visible_iff hdelete).mpr hlands)
      · have hmem : n ∈ h.answered := by
          rw [History.next, hans, hdelete] at hn
          exact (List.mem_cons.mp hn).resolve_left hne
        rcases hs n hmem (happ.live_of hne hlive) with hv | hlater
        · exact .inl (happ.visible_write hdelete hlands hv)
        · exact .inr (hlater.later fun _ htrue => absurd (hdelete.symm.trans htrue) nofun)
    | true =>
      have hmem : n ∈ h.answered := by
        rw [History.next, hdelete, Bool.not_true, Bool.and_false] at hn
        exact hn
      have hne : n ≠ call.op.nodeId := by
        rintro rfl
        have hgone := happ.node
        rw [hdelete, Bool.not_true, Bool.false_and] at hgone
        exact absurd (hgone.symm.trans hlive) nofun
      have hlive' := happ.live_of hne hlive
      rcases hs n hmem hlive' with hv | hlater
      · by_cases hreach : Reaches h.db.parentOf n call.op.nodeId
        · exact .inr (hdel happlies hdelete n hmem hne hlive' hreach)
        · exact .inl (happ.visible_delete hdelete hv hreach)
      · exact .inr (hlater.later fun _ _ => hne.symm)
  · have hsame := hkept htidy
    have hmem : n ∈ h.answered := by
      rw [History.next, hans, Bool.false_and] at hn
      exact hn
    have hlive' : h.db.live n = true := by
      have hlives : (serve be call h.db).1.live n = h.db.live n := congrFun hsame.live n
      exact hlives.symm.trans hlive
    rcases hs n hmem hlive' with hv | hlater
    · exact .inl (hsame.visible.mpr hv)
    · exact .inr (hlater.later fun hyes _ => absurd hyes happlies)

/-- **A whole history.** -/
theorem settled_run (hd : h.db.SeqsDrawn) (hs : h.Settled be calls) (ho : Orderly be h calls) :
    (h.run be calls).Settled be [] := by
  induction calls generalizing h with
  | nil => exact hs
  | cons call calls ih => exact ih (serve_seqsDrawn be call hd) (hs.next hd ho) ho.2.2.2

/-- **Accepted writes are visible**: an applied write that lands where everything is live, and no
other; and at the end of an orderly history no node that was written to is live in a deleted
folder. -/
theorem submitOp_visible (be : Backend) (s : Db) (hd : s.SeqsDrawn) :
    (∀ call, Visible be call s ↔
      (s.applies call → call.op.isDelete = false → s.landsLive call)) ∧
    ∀ calls, Orderly be { db := s } calls → ∀ n ∈ (History.run be { db := s } calls).answered,
      (History.run be { db := s } calls).db.live n = true →
        (History.run be { db := s } calls).db.visible n := by
  refine ⟨fun call => visible_iff be call hd, fun calls ho n hn hlive => ?_⟩
  have hstart : History.Settled be { db := s } calls := fun n hn => absurd hn List.not_mem_nil
  rcases settled_run (h := { db := s }) hd hstart ho n hn hlive with hv | hlater
  · exact hv
  · exact hlater.elim

end History

/-! ### A file in a directory -/

/-- `raceDb` with its file in a directory. -/
def dirDb : Db :=
  { raceDb with nodes := [
      { nodeId := "root", folderId := "f", parentId := none, name := "", type := .folder },
      { nodeId := "dir", folderId := "f", parentId := some "root", name := "dir", type := .folder },
      { nodeId := "n", folderId := "f", parentId := some "dir", name := "a.txt", type := .file }] }

/-- A delete of a node based on `b`. -/
def deleteCall (n : String) (b : ℕ) : SubmitCall := { raceCall "" with op := .mutate n b .delete }

theorem dirDb_seqsDrawn : dirDb.SeqsDrawn where
  le _ he := absurd he List.not_mem_nil
  nodup := List.nodup_nil

/-- A node without a parent. -/
theorem visible_root {s : Db} {n : String} (hlive : s.live n = true) (hp : s.parentOf n = none) : s.visible n := by
  intro a ha
  rw [eq_of_root hp ha]
  exact hlive

theorem visible_child {s : Db} {n p : String} (hlive : s.live n = true) (hp : s.parentOf n = some p)
    (hv : s.visible p) : s.visible n := by
  intro a ha
  rcases Relation.ReflTransGen.cases_head ha with rfl | ⟨q, hlink, hreach⟩
  · exact hlive
  · cases hp.symm.trans hlink
    exact hv a hreach

/-- The file is written to, its directory is deleted, and then the file. -/
def dirCalls : List SubmitCall := [raceCall "v", deleteCall "dir" 0, deleteCall "n" 1]

theorem dirCalls_orderly : Orderly .pg { db := dirDb } dirCalls := by
  have hv : dirDb.visible "n" :=
    visible_child (p := "dir") (by decide) (by decide)
      (visible_child (p := "root") (by decide) (by decide) (visible_root (by decide) (by decide)))
  have hanswered : ((History.next .pg { db := dirDb } (raceCall "v")).next .pg (deleteCall "dir" 0)).answered =
      ["n"] := by decide +kernel
  refine ⟨.inl (by decide), fun _ _ a ha => .inl (hv a ha), fun _ h => absurd h (by decide), ?_⟩
  refine ⟨.inl (by decide +kernel), fun _ h => absurd h (by decide), fun _ _ n hn _ _ _ => ?_, ?_⟩
  · have hfile : n = "n" := List.mem_singleton.mp hn
    have haccepts := (committed_iff_accepts .pg (deleteCall "n" 1)
      (s := ((History.next .pg { db := dirDb } (raceCall "v")).next .pg (deleteCall "dir" 0)).db)).mp (by decide +kernel)
    refine .inl ⟨⟨haccepts, fun k b m hop => ?_⟩, rfl, hfile.symm⟩
    cases hop
    obtain ⟨r, hr, hb⟩ := (Option.any_eq_true (fun r : NodeRow => decide (r.serverSeq = 1))
      (((History.next .pg { db := dirDb } (raceCall "v")).next .pg (deleteCall "dir" 0)).db.node "n")).mp (by decide +kernel)
    exact ⟨r, hr, decide_eq_true_eq.mp hb⟩
  · refine ⟨.inl (by decide +kernel), fun _ h => absurd h (by decide), fun _ _ n hn hne _ _ => ?_, True.intro⟩
    rw [hanswered] at hn
    exact absurd (List.mem_singleton.mp hn) hne

theorem submitOp_visible_dir :
    (Visible .pg (raceCall "v") dirDb ↔ (dirDb.applies (raceCall "v") → (raceCall "v").op.isDelete = false →
      dirDb.landsLive (raceCall "v"))) ∧
    ∀ n ∈ (History.run .pg { db := dirDb } dirCalls).answered,
      (History.run .pg { db := dirDb } dirCalls).db.live n = true →
        (History.run .pg { db := dirDb } dirCalls).db.visible n :=
  ⟨(submitOp_visible .pg dirDb dirDb_seqsDrawn).1 (raceCall "v"),
    (submitOp_visible .pg dirDb dirDb_seqsDrawn).2 dirCalls dirCalls_orderly⟩

/-- A new version of a file whose directory has just been deleted: applied, and not visible. -/
theorem submitOp_writes_below_deleted :
    ¬ Visible .pg (raceCall "v") (serve .pg (deleteCall "dir" 0) dirDb).1 := by
  intro h
  have hv := h (by decide +kernel) (by decide)
  have hreach : Reaches (serve .pg (raceCall "v") (serve .pg (deleteCall "dir" 0) dirDb).1).1.parentOf "n" "dir" :=
    Reaches.step (by decide +kernel) (Reaches.refl "dir")
  exact absurd (hv "dir" hreach) (by decide +kernel)

end Valv.Server
