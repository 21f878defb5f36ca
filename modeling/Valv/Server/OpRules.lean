import Valv.Server.Ownership

/-!
# Rules for the statements of an op

* `NodeWrite`: a write to one node's row; it respects the frame of whoever holds the node
  and commutes with the others.  Writes to other tables are a special case.
* `Quiet`: a part of an op that keeps the node's `server_seq` and ops.  Everything between
  the version check and the insertion into the log is quiet.
* `body_insertOpLog`, `body_setServerSeq`: the two statements that are not.
-/

namespace Valv.Server

open Valv.Conc Valv.Table

variable {be : Backend} {s₀ : Db} {tx : Bool} {n : String} {L : List DbKey}

/-! ### Writes to one node's row -/

/-- A write to the row of `n` that depends on nothing else of `nodes`. -/
structure NodeWrite (n : String) (put : Db → Db) : Prop where
  congr : ∀ s s', s'.node n = s.node n → (put s').node n = (put s).node n
  other : ∀ s m, m ≠ n → (put s).node m = s.node m
  opLog : ∀ s, (put s).opLog = s.opLog
  lastSeq : ∀ s, (put s).lastSeq = s.lastSeq
  bump : ∀ s, put (Sequence.bump DbKey s) = Sequence.bump DbKey (put s)

namespace NodeWrite

variable {put : Db → Db} {P : DbKey → Prop} {s s' : Db}

theorem nodeOps (h : NodeWrite n put) (s : Db) (m : String) : (put s).nodeOps m = s.nodeOps m := by
  rw [Db.nodeOps, h.opLog, Db.nodeOps]

theorem seqsDrawn (h : NodeWrite n put) : (put s).SeqsDrawn ↔ s.SeqsDrawn := by
  constructor
  · rintro ⟨hle, hnd⟩
    exact ⟨by simpa only [h.opLog, h.lastSeq] using hle, by simpa only [Db.opSeqs, h.opLog] using hnd⟩
  · rintro ⟨hle, hnd⟩
    exact ⟨by simpa only [h.opLog, h.lastSeq] using hle, by simpa only [Db.opSeqs, h.opLog] using hnd⟩

/-- Only the node's own key is affected. -/
theorem frame (h : NodeWrite n put) (hn : ¬ P (.node n)) (s : Db) : Frame P s (put s) where
  node m hm := ⟨h.other s m fun e => hn (e ▸ hm), h.nodeOps s m⟩
  grows m := h.nodeOps s m ▸ List.prefix_rfl
  lastSeq := (h.lastSeq s).ge
  unused m _ _ hu := by simpa only [Db.opSeqs, h.opLog] using hu
  drawn hd := h.seqsDrawn.mpr hd

/-- The write has the same effect after the others have moved on. -/
theorem mono (h : NodeWrite n put) (hn : P (.node n)) (hf : Frame P s s') :
    Frame P (put s) (put s') where
  node m hm := by
    rw [h.nodeOps, h.nodeOps]
    refine ⟨?_, (hf.node m hm).2⟩
    by_cases e : m = n
    · subst e
      exact h.congr s s' (hf.node m hm).1
    · rw [h.other s' m e, h.other s m e]
      exact (hf.node m hm).1
  grows m := by
    rw [h.nodeOps, h.nodeOps]
    exact hf.grows m
  lastSeq := by
    rw [h.lastSeq, h.lastSeq]
    exact hf.lastSeq
  unused m hm hle hu := by
    rw [h.lastSeq] at hle
    simp only [Db.opSeqs, h.opLog] at hu ⊢
    exact hf.unused m hm hle hu
  drawn hd := h.seqsDrawn.mpr (hf.drawn (h.seqsDrawn.mp hd))

theorem replayable (h : NodeWrite n put) (hL : .node n ∈ L) :
    Replayable (opDiscipline be s₀) L put :=
  ⟨fun hsub hf => h.mono (hsub hL) hf, fun s => by simp only [Sequence.value, h.lastSeq], h.bump⟩

end NodeWrite

theorem node_update_self {f : NodeRow → NodeRow} (hf : ∀ r, (f r).nodeId = r.nodeId) (s : Db) :
    { s with nodes := update NodeRow.nodeId n f s.nodes : Db }.node n = (s.node n).map f :=
  lookup_update_self fun r hr => (hf r).trans hr

theorem nodeWrite_update {f : NodeRow → NodeRow} (hf : ∀ r, (f r).nodeId = r.nodeId) :
    NodeWrite n fun s => { s with nodes := update NodeRow.nodeId n f s.nodes } where
  congr s s' h := by
    simp only [Db.node] at h ⊢
    rw [lookup_update_self fun r hr => (hf r).trans hr, lookup_update_self fun r hr => (hf r).trans hr, h]
  other s m hm := lookup_update_ne hm fun r hr => (hf r).trans hr
  opLog _ := rfl
  lastSeq _ := rfl
  bump _ := rfl

theorem nodeWrite_insert (r : NodeRow) :
    NodeWrite r.nodeId fun s => { s with nodes := s.nodes ++ [r] } where
  congr s s' h := by
    simp only [Db.node] at h ⊢
    rw [lookup_append, lookup_append, h]
  other s m hm := by
    simp only [Db.node, lookup_append, lookup_cons, if_neg (Ne.symm hm), lookup_nil, Option.or_none]
  opLog _ := rfl
  lastSeq _ := rfl
  bump _ := rfl

theorem nodeWrite_id (n : String) : NodeWrite n fun s => s :=
  ⟨fun _ _ h => h, fun _ _ _ => rfl, fun _ => rfl, fun _ => rfl, fun _ => rfl⟩

/-- A write that leaves `nodes`, the log and the sequence as they are. -/
theorem nodeWrite_elsewhere {put : Db → Db} (hn : ∀ s, (put s).nodes = s.nodes)
    (ho : ∀ s, (put s).opLog = s.opLog) (hl : ∀ s, (put s).lastSeq = s.lastSeq)
    (hb : ∀ s, put (Sequence.bump DbKey s) = Sequence.bump DbKey (put s)) : NodeWrite n put where
  congr s s' h := by simpa only [Db.node, hn] using h
  other s m _ := by simp only [Db.node, hn]
  opLog := ho
  lastSeq := hl
  bump := hb

/-! ### Quiet parts -/

/-- The node keeps its row, its `server_seq` and its ops. -/
structure Keeps (n : String) (s s' : Db) : Prop where
  row : (s.node n).isSome → (s'.node n).isSome
  ops : s'.nodeOps n = s.nodeOps n
  seq : s'.nodeSeq n = s.nodeSeq n
  lastSeq : s.lastSeq ≤ s'.lastSeq
  drawn : s.SeqsDrawn → s'.SeqsDrawn

theorem Keeps.refl (s : Db) : Keeps n s s := ⟨id, rfl, rfl, le_rfl, id⟩

theorem Keeps.trans {s s' s'' : Db} (h : Keeps n s s') (h' : Keeps n s' s'') : Keeps n s s'' :=
  ⟨fun hr => h'.row (h.row hr), h'.ops.trans h.ops, h'.seq.trans h.seq,
    h.lastSeq.trans h'.lastSeq, fun hd => h'.drawn (h.drawn hd)⟩

theorem Frame.keeps {P : DbKey → Prop} {s s' : Db} (h : Frame P s s') (hn : P (.node n)) :
    Keeps n s s' where
  row hr := by rwa [(h.node n hn).1]
  ops := (h.node n hn).2
  seq := h.nodeSeq hn
  lastSeq := h.lastSeq
  drawn := h.drawn

theorem Keeps.bump (s : Db) : Keeps n s (Sequence.bump DbKey s) :=
  ⟨id, rfl, rfl, Nat.le_succ _, (Frame.bump (fun _ => True) s).drawn⟩

theorem NodeInv.keeps {s s' : Db} (h : NodeInv s₀ n s) (hk : Keeps n s s') : NodeInv s₀ n s' where
  drawn := hk.drawn h.drawn
  le := by
    rw [hk.seq]
    exact h.le.trans hk.lastSeq
  chain := by
    rw [hk.ops, hk.seq]
    exact h.chain

/-- The node is the only one whose key is held. -/
def OwnsOnly (n : String) (L : List DbKey) : Prop := .node n ∈ L ∧ ∀ m, .node m ∈ L → m = n

theorem OwnsOnly.cons (h : OwnsOnly n L) {k : DbKey} (hk : ∀ m, k ≠ .node m) :
    OwnsOnly n (k :: L) := by
  refine ⟨List.mem_cons_of_mem k h.1, fun m hm => ?_⟩
  rcases List.mem_cons.mp hm with e | hm
  · exact absurd e.symm (hk m)
  · exact h.2 m hm

/-- A part of an op on `n` that keeps the node's `server_seq` and ops: its writes are writes
to the node's row or to other tables, and it waits for no node and no `server_seq`. -/
def Quiet (n : String) {α : Type} : DbProc α → Prop
  | .done _ => True
  | .fail _ => True
  | .act put next =>
    (∀ v, NodeWrite n (put v)) ∧ (∀ v, Keeps n v (put v v)) ∧ ∀ v, Quiet n (next v)
  | .draw _ => False
  | .ctl (.lock k) next => (∀ m, k ≠ .node m) ∧ (∀ m, k ≠ .seq m) ∧ Quiet n next
  | .ctl _ _ => False

namespace Quiet

variable {α β : Type}

theorem pure (a : α) : Quiet n (Pure.pure a : DbProc α) := True.intro

theorem fail (e : ApiError) : Quiet n (.fail e : DbProc α) := True.intro

theorem bind {p : DbProc α} {f : α → DbProc β} (hp : Quiet n p) (hf : ∀ a, Quiet n (f a)) :
    Quiet n (p >>= f) := by
  induction p with
  | done a => exact hf a
  | fail e => exact True.intro
  | act put next ih => exact ⟨hp.1, hp.2.1, fun v => ih v (hp.2.2 v)⟩
  | draw next _ => exact hp.elim
  | ctl c next ih =>
    cases c with
    | lock k => exact ⟨hp.1, hp.2.1, ih hp.2.2⟩
    | _ => exact hp.elim

/-- A quiet part, run by whoever owns the node, keeps it whatever the others do. -/
theorem body {p : DbProc α} (hp : Quiet n p) {v : Db} (hL : OwnsOnly n L) :
    Body (opDiscipline be s₀) tx p L v fun _ L' v' => OwnsOnly n L' ∧ Keeps n v v' := by
  induction p generalizing L v with
  | done a => exact fun v' hv => ⟨hL, Frame.keeps hv hL.1⟩
  | fail e => exact fun v' hv => ⟨hL, Frame.keeps hv hL.1⟩
  | act put next ih =>
    intro v' hv
    have hw : NodeWrite n (put v') := hp.1 v'
    have hk : Keeps n v (put v' v') := (Frame.keeps hv hL.1).trans (hp.2.1 v')
    refine ⟨fun _ => hw.replayable hL.1, fun v'' _ _ => hw.frame (fun h => h hL.1) v'', ?_⟩
    exact (ih v' (hp.2.2 v') hL).mono fun _ _ _ h => ⟨h.1, hk.trans h.2⟩
  | draw next _ => exact hp.elim
  | ctl c next ih =>
    cases c with
    | lock k =>
      intro v' hv _ _
      have hk : Keeps n v v' := Frame.keeps hv hL.1
      refine ⟨fun _ m hm => absurd hm (hp.2.1 m), ?_⟩
      exact (ih hp.2.2 (hL.cons hp.1)).mono fun _ _ _ h => ⟨h.1, hk.trans h.2⟩
    | _ => exact hp.elim

theorem read (f : Db → α) : Quiet n (Proc.read f) :=
  ⟨fun _ => nodeWrite_id n, fun v => Keeps.refl v, fun _ => True.intro⟩

/-- Waiting for a key that is neither a node nor a drawn `server_seq`. -/
theorem lockKey {k : DbKey} (hk : ∀ m, k ≠ .node m) (hs : ∀ m, k ≠ .seq m) :
    Quiet n (lockKey be k) := by
  cases be with
  | sqlite => exact True.intro
  | pg => exact ⟨hk, hs, True.intro⟩

theorem lockKeys {ks : List DbKey} (hk : ∀ k ∈ ks, (∀ m, k ≠ .node m) ∧ ∀ m, k ≠ .seq m) :
    Quiet n (lockKeys be ks) := by
  induction ks with
  | nil => exact True.intro
  | cons k ks ih =>
    have hhead := hk k (by simp)
    have htail : Quiet n (Server.lockKeys be ks) := ih fun j hj => hk j (List.mem_cons_of_mem k hj)
    exact (lockKey hhead.1 hhead.2).bind fun _ => htail

/-- A write to the node's row, or to another table, that keeps the `server_seq`. -/
theorem stmt {check : Db → Option ApiError} {write : Db → Db → Db} (hw : ∀ v, NodeWrite n (write v))
    (hrow : ∀ v, (v.node n).isSome → ((write v v).node n).isSome)
    (hseq : ∀ v, check v = none → (write v v).nodeSeq n = v.nodeSeq n) :
    Quiet n (Proc.stmt check write) := by
  refine ⟨fun v => ?_, fun v => ?_, fun v => ?_⟩
  · dsimp only
    cases check v with
    | none => exact hw v
    | some e => exact nodeWrite_id n
  · dsimp only
    cases hc : check v with
    | none =>
      exact ⟨hrow v, (hw v).nodeOps v n, hseq v hc, ((hw v).lastSeq v).ge, (hw v).seqsDrawn.mpr⟩
    | some e => exact Keeps.refl v
  · dsimp only
    cases check v <;> exact True.intro

theorem updateNodes {f : NodeRow → NodeRow} (hid : ∀ r, (f r).nodeId = r.nodeId)
    (hseq : ∀ r, (f r).serverSeq = r.serverSeq) : Quiet n (updateNodes n f) := by
  refine stmt (fun _ => nodeWrite_update hid) (fun v hr => ?_) fun v _ => ?_
  · rw [node_update_self hid, Option.isSome_map]
    exact hr
  · rw [Db.nodeSeq, node_update_self hid, Db.nodeSeq]
    cases v.node n with
    | none => rfl
    | some r => exact hseq r

theorem updateNamed {f : NodeRow → NodeRow} (hid : ∀ r, (f r).nodeId = r.nodeId)
    (hseq : ∀ r, (f r).serverSeq = r.serverSeq) : Quiet n (updateNamed be n f) := by
  cases be with
  | sqlite => exact updateNodes hid hseq
  | pg =>
    refine (read _).bind fun row => Quiet.bind (lockKeys fun k hk => ?_) fun _ => updateNodes hid hseq
    cases row with
    | none => cases hk
    | some r =>
      obtain ⟨folderId, p, name, rfl⟩ := mem_liveNameKeys hk
      exact ⟨nofun, nofun⟩

end Quiet

/-! ### The op log -/

section AppendOp

variable {e : OpLogRow} {s s' : Db} {P : DbKey → Prop}

theorem nodeOps_appendOp_self : (s.appendOp e).nodeOps e.nodeId = s.nodeOps e.nodeId ++ [e] := by
  simp [Db.nodeOps, Db.appendOp]

theorem nodeOps_appendOp_ne {m : String} (h : m ≠ e.nodeId) :
    (s.appendOp e).nodeOps m = s.nodeOps m := by
  simp [Db.nodeOps, Db.appendOp, Ne.symm h]

theorem opSeqs_appendOp : (s.appendOp e).opSeqs = s.opSeqs ++ [e.serverSeq] := by
  simp [Db.opSeqs, Db.appendOp]

theorem seqsDrawn_appendOp : (s.appendOp e).SeqsDrawn ↔
    s.SeqsDrawn ∧ e.serverSeq ≤ s.lastSeq ∧ e.serverSeq ∉ s.opSeqs := by
  constructor
  · rintro ⟨hle, hnd⟩
    rw [opSeqs_appendOp, List.nodup_append] at hnd
    refine ⟨⟨fun f hf => hle f (by simp [Db.appendOp, hf]), hnd.1⟩, hle e (by simp [Db.appendOp]), ?_⟩
    exact fun hmem => hnd.2.2 _ hmem _ (by simp) rfl
  · rintro ⟨hd, hle, hu⟩
    refine ⟨fun f hf => ?_, ?_⟩
    · rcases List.mem_append.mp hf with hf | hf
      · exact hd.le f hf
      · rw [List.mem_singleton.mp hf]
        exact hle
    · rw [opSeqs_appendOp, List.nodup_append]
      refine ⟨hd.nodup, by simp, fun a ha b hb => ?_⟩
      rw [List.mem_singleton.mp hb]
      exact fun h => hu (h ▸ ha)

/-- An op may be appended by whoever holds its node and its `server_seq`. -/
theorem frame_appendOp (hn : ¬ P (.node e.nodeId)) (hs : ¬ P (.seq e.serverSeq))
    (hle : e.serverSeq ≤ s.lastSeq) (hu : e.serverSeq ∉ s.opSeqs) : Frame P s (s.appendOp e) where
  node m hm := ⟨rfl, nodeOps_appendOp_ne fun h => hn (h ▸ hm)⟩
  grows m := by
    by_cases h : m = e.nodeId
    · subst h
      exact nodeOps_appendOp_self ▸ List.prefix_append _ _
    · exact nodeOps_appendOp_ne h ▸ List.prefix_rfl
  lastSeq := le_rfl
  unused m hm _ hmem := by
    rw [opSeqs_appendOp, List.mem_append, List.mem_singleton]
    rintro (h | rfl)
    · exact hmem h
    · exact hs hm
  drawn hd := seqsDrawn_appendOp.mpr ⟨hd, hle, hu⟩

theorem mono_appendOp (hn : P (.node e.nodeId)) (hs : P (.seq e.serverSeq)) (hf : Frame P s s') :
    Frame P (s.appendOp e) (s'.appendOp e) where
  node m hm := by
    refine ⟨(hf.node m hm).1, ?_⟩
    by_cases h : m = e.nodeId
    · subst h
      rw [nodeOps_appendOp_self, nodeOps_appendOp_self, (hf.node _ hm).2]
    · rw [nodeOps_appendOp_ne h, nodeOps_appendOp_ne h, (hf.node m hm).2]
  grows m := by
    by_cases h : m = e.nodeId
    · subst h
      have hops : (s'.appendOp e).nodeOps e.nodeId = (s.appendOp e).nodeOps e.nodeId := by
        rw [nodeOps_appendOp_self, nodeOps_appendOp_self, (hf.node _ hn).2]
      exact hops ▸ List.prefix_rfl
    · rw [nodeOps_appendOp_ne h, nodeOps_appendOp_ne h]
      exact hf.grows m
  lastSeq := hf.lastSeq
  unused m hm hle hu := by
    rw [opSeqs_appendOp, List.mem_append, not_or] at hu ⊢
    exact ⟨hf.unused m hm hle hu.1, hu.2⟩
  drawn hd := by
    obtain ⟨hd, hle, hu⟩ := seqsDrawn_appendOp.mp hd
    exact seqsDrawn_appendOp.mpr ⟨hf.drawn hd, hle.trans hf.lastSeq, hf.unused _ hs hle hu⟩

theorem replayable_appendOp (hn : .node e.nodeId ∈ L) (hs : .seq e.serverSeq ∈ L) :
    Replayable (opDiscipline be s₀) L (Db.appendOp e) :=
  ⟨fun hsub hf => mono_appendOp (hsub hn) (hsub hs) hf, fun _ => rfl, fun _ => rfl⟩

/-- A `server_seq` that has just been drawn is not in the log. -/
theorem Db.SeqsDrawn.next_unused (hd : s.SeqsDrawn) : s.lastSeq + 1 ∉ s.opSeqs := by
  intro hmem
  obtain ⟨e, he, hseq⟩ := List.mem_map.mp hmem
  have := hd.le e he
  omega

/-- Drawing and appending in one statement. -/
theorem frame_bump_appendOp (hn : ¬ P (.node e.nodeId)) (hseq : e.serverSeq = s.lastSeq + 1) :
    Frame P s ((Sequence.bump DbKey s).appendOp e) where
  node m hm := ⟨rfl, nodeOps_appendOp_ne fun h => hn (h ▸ hm)⟩
  grows m := by
    by_cases h : m = e.nodeId
    · subst h
      exact nodeOps_appendOp_self ▸ List.prefix_append _ _
    · exact nodeOps_appendOp_ne h ▸ List.prefix_rfl
  lastSeq := Nat.le_succ _
  unused m _ hle hmem := by
    rw [opSeqs_appendOp, List.mem_append, List.mem_singleton]
    rintro (h | rfl)
    · exact hmem h
    · omega
  drawn hd := by
    refine seqsDrawn_appendOp.mpr ⟨(Frame.bump P s).drawn hd, hseq.le, ?_⟩
    rw [hseq]
    exact hd.next_unused

end AppendOp

/-- What an insertion into the log leads to. -/
structure Logged (call : SubmitCall) (n : String) (payload : OpPayload) (basedOnSeq : Option ℕ)
    (s s' : Db) (e : OpLogRow) : Prop where
  row : (s.node n).isSome → (s'.node n).isSome
  ops : s'.nodeOps n = s.nodeOps n ++ [e]
  seq : s'.nodeSeq n = s.nodeSeq n
  drawn : s'.SeqsDrawn
  fresh : s.lastSeq < e.serverSeq
  folderId : e.folderId = call.folderId
  payload : e.payload = payload
  basedOnSeq : e.basedOnSeq = basedOnSeq
  request : e.request = call.request

theorem Logged.keeps {call : SubmitCall} {payload : OpPayload} {b : Option ℕ} {s s' s'' : Db}
    {e : OpLogRow} (h : Logged call n payload b s s' e) (hk : Keeps n s' s'') :
    Logged call n payload b s s'' e :=
  { h with row := fun hr => hk.row (h.row hr), ops := hk.ops.trans h.ops, seq := hk.seq.trans h.seq, drawn := hk.drawn h.drawn }

/-- Appending an op with a fresh, unused `server_seq`. -/
theorem Keeps.logged {call : SubmitCall} {deviceId : String} {payload : OpPayload}
    {b : Option ℕ} {now m : ℕ} {v w : Db} (hk : Keeps n v w) (hd : v.SeqsDrawn)
    (hfresh : v.lastSeq < m) (hle : m ≤ w.lastSeq) (hu : m ∉ w.opSeqs) :
    Logged call n payload b v (w.appendOp (opLogRow call n deviceId payload b now m))
      (opLogRow call n deviceId payload b now m) where
  row := hk.row
  ops := (nodeOps_appendOp_self (e := opLogRow call n deviceId payload b now m)).trans
    (congrArg (· ++ _) hk.ops)
  seq := hk.seq
  drawn := seqsDrawn_appendOp.mpr ⟨hk.drawn hd, hle, hu⟩
  fresh := hfresh
  folderId := rfl
  payload := rfl
  basedOnSeq := rfl
  request := rfl

/-- The op ends up in the log with a `server_seq` above all that were drawn before, or the
statement is refused and nothing changes. -/
theorem body_insertOpLog {call : SubmitCall} {deviceId : String} {payload : OpPayload}
    {b : Option ℕ} {v : Db} (htx : be = .sqlite → tx = false) (hL : OwnsOnly n L)
    (hd : v.SeqsDrawn) :
    Body (opDiscipline be s₀) tx (insertOpLog be call n deviceId payload b) L v fun r L' v' =>
      OwnsOnly n L' ∧ match r with
        | .ok _ => ∃ e, Logged call n payload b v v' e
        | .error _ => Keeps n v v' := by
  cases be with
  | sqlite =>
    refine Body.stmt (fun v' e hv _ v'' hv' => ?_) fun v' hv _ => ?_
    · exact ⟨hL, (Frame.keeps hv hL.1).trans (Frame.keeps hv' hL.1)⟩
    · have hk : Keeps n v (Sequence.bump DbKey v') := (Frame.keeps hv hL.1).trans (Keeps.bump v')
      refine ⟨fun h => absurd (htx rfl) (by simp [h]), fun v'' _ hv'' => ?_, fun v'' hv'' => ?_⟩
      · rw [hv'' (htx rfl)]
        exact frame_bump_appendOp (fun h => h hL.1) rfl
      · exact ⟨hL, _, (hk.logged hd (Nat.lt_succ_of_le hv.lastSeq) le_rfl
          (hv.drawn hd).next_unused).keeps (Frame.keeps hv'' hL.1)⟩
  | pg =>
    intro v' hv
    have hL' : OwnsOnly n (DbKey.seq (v'.lastSeq + 1) :: L) := hL.cons nofun
    have hseq : DbKey.seq (v'.lastSeq + 1) ∈ DbKey.seq (v'.lastSeq + 1) :: L := by simp
    have hk : Keeps n v (Sequence.bump DbKey v') := (Frame.keeps hv hL.1).trans (Keeps.bump v')
    have hu0 : v'.lastSeq + 1 ∉ (Sequence.bump DbKey v').opSeqs := (hv.drawn hd).next_unused
    refine Body.stmt (fun w e hw _ w' hw' => ?_) fun w hw _ => ?_
    · exact ⟨hL', (hk.trans (Frame.keeps hw hL'.1)).trans (Frame.keeps hw' hL'.1)⟩
    · -- the drawn `server_seq` is still unused, whatever was committed meanwhile
      have hle : v'.lastSeq + 1 ≤ w.lastSeq := hw.lastSeq
      have hu : v'.lastSeq + 1 ∉ w.opSeqs := hw.unused _ hseq le_rfl hu0
      have hkw : Keeps n v w := hk.trans (Frame.keeps hw hL'.1)
      refine ⟨fun _ => replayable_appendOp hL'.1 hseq, fun w' hw' _ => ?_, fun w' hw' => ⟨hL', ?_⟩⟩
      · exact frame_appendOp (fun h => h hL'.1) (fun h => h hseq) (hle.trans hw'.lastSeq)
          (hw'.unused _ hseq hle hu)
      · exact ⟨_, (hkw.logged hd (Nat.lt_succ_of_le hv.lastSeq) hle hu).keeps (Frame.keeps hw' hL'.1)⟩

end Valv.Server
