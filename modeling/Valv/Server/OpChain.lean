import Valv.Server.OpBody

/-!
# Concurrent ops form a chain

* `sat_submitOp`: one call, whatever runs beside it, ends with its op placed.
* `submitOp_applied_chain`: any number of calls along any schedule.  On Postgres nothing is
  assumed about the schedule; on SQLite, that no call enters the section of a node while
  another is inside its own section for that node.
* `submitOp_applied_twice`: without that, two calls with the same base are both applied.
-/

namespace Valv.Server

open Valv.Conc Valv.Table

variable {be : Backend} {s₀ : Db} {n : String}

/-! ### One call -/

/-- What an answer says: an `applied` op is placed. -/
def Answered (s₀ : Db) (request : ℕ) (n : String) (b : Option ℕ) (a : SubmitOpResponse)
    (s : Db) : Prop :=
  ∀ seq m, a = .applied seq m → m = n ∧ Placed s₀ request n b seq s

theorem Answered.rely {request : ℕ} {b : Option ℕ} {a : SubmitOpResponse} {s s' : Db}
    {P : DbKey → Prop} (hf : Frame P s s') (h : Answered s₀ request n b a s) :
    Answered s₀ request n b a s' :=
  fun seq m ha => ⟨(h seq m ha).1, (h seq m ha).2.grows (hf.grows n)⟩

theorem Settled.inv {request : ℕ} {b : Option ℕ} {r : Except ApiError SubmitOpResponse}
    {L : List DbKey} {v : Db} (h : Settled s₀ request n b r L v) :
    ∀ j ∈ L, (opDiscipline be s₀).inv j v := by
  rintro j hj m rfl
  rw [h.1.2 m hj]
  exact h.2.1

theorem ownsOnly_singleton : OwnsOnly n [.node n] := ⟨by simp, fun m hm => by simpa using hm⟩

/-- A section that starts by taking the node's key, on both databases. -/
theorem sat_inTransaction {rest : DbProc SubmitOpResponse} {request : ℕ} {b : Option ℕ} {s : Db}
    (h : ∀ tx L v, (be = .sqlite → tx = false) → OwnsOnly n L → NodeInv s₀ n v →
      Body (opDiscipline be s₀) tx rest L v (Settled s₀ request n b)) :
    Sat (opDiscipline be s₀) (inTransaction be n (lockKey be (.node n) >>= fun _ => rest)) [] none s
      fun r L w s' => L = [] ∧ w = none ∧ ∀ a, r = .ok a → Answered s₀ request n b a s' := by
  have hstable : ∀ a s s', (opDiscipline be s₀).rely [] s s' → Answered s₀ request n b a s →
      Answered s₀ request n b a s' := fun _ _ _ hf ha => Answered.rely hf ha
  cases be with
  | pg =>
    refine Sat.transaction hstable fun v' hv _ hi => ⟨(fun _ m hm => nomatch hm), ?_⟩
    refine (h true [.node n] v' nofun ownsOnly_singleton (hi n rfl)).mono ?_
    rintro r L v hset a rfl
    exact ⟨hset.inv, fun seq m ha => hset.2.2 seq m (ha ▸ rfl)⟩
  | sqlite =>
    refine Sat.unprotected rfl hstable (fun _ m hm => nomatch hm) fun v _ hi => ?_
    refine (h false [.node n] v (fun _ => rfl) ownsOnly_singleton (hi n rfl)).mono ?_
    intro r L v' hset
    exact ⟨hset.inv, fun a hr seq m ha => hset.2.2 seq m (ha ▸ hr)⟩

/-- What a call has said when it returns. -/
def Returned (s₀ : Db) (call : SubmitCall) (r : Except ApiError SubmitOpResponse)
    (L : List DbKey) (w : Option (Db → Db)) (s : Db) : Prop :=
  L = [] ∧ w = none ∧
    ∀ a, r = .ok a → Answered s₀ call.request call.op.nodeId call.op.basedOnSeq a s

theorem Returned.error {call : SubmitCall} {e : ApiError} {s : Db} :
    Returned s₀ call (.error e) [] none s := ⟨rfl, rfl, nofun⟩

theorem requireWrite_readOnly (nodeId : String) (principal : Principal) :
    (requireWrite nodeId principal).ReadOnly := by
  refine (checkGrant_readOnly nodeId principal .write).bind fun grant => ?_
  cases grant with
  | denied reason => exact True.intro
  | granted grantId scopeNodeId canWrite => exact True.intro

theorem checkMoveTarget_readOnly (folderId : String) (m : Mutation) :
    (checkMoveTarget folderId m).ReadOnly := by
  cases m with
  | move newParentId =>
    refine (Proc.readOnly_read _).bind fun parent => ?_
    cases parent with
    | none => exact True.intro
    | some parent =>
      dsimp only
      split
      · exact True.intro
      · split <;> exact True.intro
  | _ => exact True.intro

/-- A check that only reads, in front of a call. -/
theorem sat_check {call : SubmitCall} {p : DbProc Unit} {f : Unit → DbProc SubmitOpResponse} {s : Db}
    (hp : p.ReadOnly) (hf : ∀ s, Sat (opDiscipline be s₀) (f ()) [] none s (Returned s₀ call)) :
    Sat (opDiscipline be s₀) (p >>= f) [] none s (Returned s₀ call) := by
  refine Sat.bind (Sat.readOnly hp fun r s' _ => ?_)
  cases r with
  | error e => exact Returned.error
  | ok a => exact hf s'

theorem sat_createNode {call : SubmitCall} {deviceId parentId name : String} {type : NodeType}
    {s : Db} :
    Sat (opDiscipline be s₀) (createNode be call deviceId n parentId name type) [] none s
      fun r L w s' => L = [] ∧ w = none ∧ ∀ a, r = .ok a → Answered s₀ call.request n none a s' := by
  have hwait : Quiet n (lockKey be (.liveName call.folderId parentId name)) :=
    Quiet.lockKey nofun nofun
  have hbody : ∀ tx L v, (be = .sqlite → tx = false) → OwnsOnly n L → NodeInv s₀ n v →
      Body (opDiscipline be s₀) tx _ L v (Settled s₀ call.request n none) := fun tx L v htx hL hi =>
    hwait.settled hL hi
      fun _ L' v' hL' hk => body_create deviceId parentId name type htx hL' (hi.keeps hk)
  refine Sat.attempt ((sat_inTransaction hbody).mono ?_)
  rintro (e | a) L w s' ⟨rfl, rfl, ha⟩
  · -- the handler looks for the winner and never answers `applied`
    refine Sat.bind (Sat.readOnly (Proc.readOnly_read _) fun r s'' _ => ?_)
    cases r with
    | error e => exact ⟨rfl, rfl, nofun⟩
    | ok winner =>
      cases winner with
      | none => exact fun _ _ => ⟨rfl, rfl, nofun⟩
      | some winner =>
        refine fun _ _ => ⟨rfl, rfl, ?_⟩
        rintro a ⟨⟩ seq m h
        cases h
  · exact ⟨rfl, rfl, ha⟩

/-- **One call of `submitOp`**, whatever the others do in between. -/
theorem sat_submitOp (be : Backend) (s₀ : Db) (call : SubmitCall) (s : Db) :
    Sat (opDiscipline be s₀) (submitOp be call) [] none s (Returned s₀ call) := by
  rw [submitOp]
  cases hp : call.principal with
  | user userId => exact fun _ _ => Returned.error
  | device deviceId =>
    cases hop : call.op with
    | create nodeId parentId name type =>
      refine sat_check (requireWrite_readOnly _ _) fun s => sat_createNode.mono fun r L w s' h => ?_
      rw [Returned, hop]
      exact h
    | mutate nodeId b m =>
      refine sat_check (requireWrite_readOnly _ _) fun s => ?_
      refine sat_check (checkMoveTarget_readOnly _ _) fun s => ?_
      refine (sat_inTransaction fun tx L v htx hL hi => body_mutate htx hL hi).mono fun r L w s' h => ?_
      rw [Returned, hop]
      exact h

/-! ### Any number of calls -/

/-- The calls, each tagged with its place in the list. -/
def tagCalls (calls : List SubmitCall) : List SubmitCall :=
  calls.zipIdx.map fun c => { c.1 with request := c.2 }

/-- The calls at their first statement. -/
def startOps (be : Backend) (s₀ : Db) (calls : List SubmitCall) :
    Pool Db DbKey ApiError SubmitOpResponse :=
  Pool.start s₀ ((tagCalls calls).map (submitOp be))

/-- What call `i` has answered, if it has returned a response. -/
def answer (p : Pool Db DbKey ApiError SubmitOpResponse) (i : ℕ) : Option SubmitOpResponse :=
  (p.threads[i]?.bind Thread.result).bind Except.toOption

/-- A database whose `server_seq`s all come from the sequence. -/
structure Db.SeqsValid (s : Db) : Prop where
  drawn : s.SeqsDrawn
  nodeSeq_le : ∀ n, s.nodeSeq n ≤ s.lastSeq

theorem tagCalls_getElem? {calls : List SubmitCall} {i : ℕ} :
    (tagCalls calls)[i]? = calls[i]?.map fun c => { c with request := i } := by
  simp only [tagCalls, List.getElem?_map, List.getElem?_zipIdx, Option.map_map, Nat.zero_add]
  rfl

theorem Db.SeqsValid.nodeInv (h : s₀.SeqsValid) (n : String) : NodeInv s₀ n s₀ where
  drawn := h.drawn
  le := h.nodeSeq_le n
  chain := ⟨[], by simp, True.intro, rfl⟩

/-- What the calls that run together have said, at any moment of any schedule. -/
theorem answer_placed {calls : List SubmitCall} {is : List ℕ} (h₀ : s₀.SeqsValid)
    (hex : be = .sqlite → Pool.Along Pool.Exclusive (startOps be s₀ calls) is)
    {i seq : ℕ} {m : String} (ha : answer ((startOps be s₀ calls).run is) i = some (.applied seq m)) :
    ∃ call, calls[i]? = some call ∧ m = call.op.nodeId ∧
      Placed s₀ i m call.op.basedOnSeq seq ((startOps be s₀ calls).run is).state := by
  have hsound : Pool.Sound (opDiscipline be s₀) (fun i r L w s => ∃ call, calls[i]? = some call ∧
      Returned s₀ { call with request := i } r L w s) (startOps be s₀ calls) := by
    refine Pool.Sound.start (fun k n hk => h₀.nodeInv n) fun i prog hprog => ?_
    simp only [List.getElem?_map, tagCalls_getElem?, Option.map_map, Option.map_eq_some_iff] at hprog
    obtain ⟨call, hcall, rfl⟩ := hprog
    exact (sat_submitOp be s₀ { call with request := i } s₀).mono fun r L w s h => ⟨call, hcall, h⟩
  simp only [answer, Option.bind_eq_some_iff] at ha
  obtain ⟨r, ⟨t, ht, hr⟩, hok⟩ := ha
  obtain ⟨call, hcall, -, -, hans⟩ := (hsound.run hex).result ht hr
  obtain ⟨rfl, hplaced⟩ := hans (.applied seq m) (by cases r <;> simp_all [Except.toOption]) seq m rfl
  exact ⟨call, hcall, rfl, hplaced⟩

/-- In one log, two chains of ops that end in the same `server_seq` are the same. -/
theorem chain_unique {base b : ℕ} {pre pre' post post' : List OpLogRow} {e e' : OpLogRow}
    (hops : pre ++ e :: post = pre' ++ e' :: post')
    (h : Chain base (pre ++ [e])) (h' : Chain base (pre' ++ [e']))
    (hb : chainEnd base pre = b) (hb' : chainEnd base pre' = b) : e = e' := by
  induction pre generalizing base pre' with
  | nil =>
    cases pre' with
    | nil => exact (List.cons.inj hops).1
    | cons f fs =>
      have hlt : base < f.serverSeq := h'.2.1
      have hle : f.serverSeq ≤ chainEnd f.serverSeq fs := chain_le_end (chain_append.mp h'.2.2).1
      simp only [chainEnd] at hb hb'
      omega
  | cons f fs ih =>
    cases pre' with
    | nil =>
      have hlt : base < f.serverSeq := h.2.1
      have hle : f.serverSeq ≤ chainEnd f.serverSeq fs := chain_le_end (chain_append.mp h.2.2).1
      simp only [chainEnd] at hb hb'
      omega
    | cons f' fs' =>
      obtain ⟨rfl, hrest⟩ := List.cons.inj hops
      exact ih hrest h.2.2 h'.2.2 hb hb'

/-- An applied op is based on the op before it, and on nothing older. -/
theorem Placed.based {request b seq : ℕ} {s : Db} (h : Placed s₀ request n (some b) seq s) :
    ∃ pre e post, s.nodeOps n = s₀.nodeOps n ++ (pre ++ e :: post) ∧ e.serverSeq = seq ∧
      e.request = request ∧ chainEnd (s₀.nodeSeq n) pre = b ∧ Chain (s₀.nodeSeq n) (pre ++ [e]) := by
  obtain ⟨pre, e, post, hops, hseq, hreq, hc, hbase, hch⟩ := h
  refine ⟨pre, e, post, hops, hseq, hreq, ?_, hch⟩
  exact ((chain_append.mp hch).2.1 hc b hbase).symm

/-- **Optimistic concurrency.**  Any number of `submitOp` calls run together, along any
schedule `is`; on SQLite no call enters its section for a node while another is inside its
own.  An op on an existing node that was answered `applied` is in the log right after the op
whose `server_seq` it was based on (the row's `server_seq` at the start, for the first one),
every op of the node committed before it had been seen, and no two calls with the same base
are both applied. -/
theorem submitOp_applied_chain (be : Backend) (s₀ : Db) (h₀ : s₀.SeqsValid)
    (calls : List SubmitCall) (is : List ℕ)
    (hex : be = .sqlite → Pool.Along Pool.Exclusive (startOps be s₀ calls) is) :
    (∀ i seq m b call, answer ((startOps be s₀ calls).run is) i = some (.applied seq m) →
      calls[i]? = some call → call.op.basedOnSeq = some b →
      m = call.op.nodeId ∧ ∃ pre e post,
        ((startOps be s₀ calls).run is).state.nodeOps m = s₀.nodeOps m ++ (pre ++ e :: post) ∧
        e.serverSeq = seq ∧ e.request = i ∧ chainEnd (s₀.nodeSeq m) pre = b ∧
        ∀ f ∈ pre, f.serverSeq ≤ b) ∧
    (∀ i j si sj m b ci cj, i ≠ j →
      answer ((startOps be s₀ calls).run is) i = some (.applied si m) →
      answer ((startOps be s₀ calls).run is) j = some (.applied sj m) →
      calls[i]? = some ci → calls[j]? = some cj →
      ci.op.basedOnSeq = some b → cj.op.basedOnSeq ≠ some b) := by
  constructor
  · intro i seq m b call ha hcall hb
    obtain ⟨call', hcall', rfl, hplaced⟩ := answer_placed h₀ hex ha
    rw [hcall, Option.some.injEq] at hcall'
    subst hcall'
    rw [hb] at hplaced
    obtain ⟨pre, e, post, hops, hseq, hreq, hend, hch⟩ := hplaced.based
    refine ⟨rfl, pre, e, post, hops, hseq, hreq, hend, fun f hf => ?_⟩
    exact hend ▸ (chain_bounds (chain_append.mp hch).1 hf).2
  · intro i j si sj m b ci cj hij hai haj hci hcj hbi hbj
    obtain ⟨ci', hci', -, hpi⟩ := answer_placed h₀ hex hai
    obtain ⟨cj', hcj', -, hpj⟩ := answer_placed h₀ hex haj
    rw [hci, Option.some.injEq] at hci'
    rw [hcj, Option.some.injEq] at hcj'
    subst hci' hcj'
    rw [hbi] at hpi
    rw [hbj] at hpj
    obtain ⟨pre, e, post, hops, -, hreq, hend, hch⟩ := hpi.based
    obtain ⟨pre', e', post', hops', -, hreq', hend', hch'⟩ := hpj.based
    have heq : e = e' :=
      chain_unique (List.append_cancel_left (hops.symm.trans hops')) hch hch' hend hend'
    exact hij (hreq.symm.trans (heq ▸ hreq'))

/-! ### Two calls with one base -/

/-- A shared folder with one file and one device that may write it. -/
def raceDb : Db where
  sharedFolders := ["f"]
  devices := [{ deviceId := "d", userId := none }]
  folderGrants := [{ grantId := "g", folderId := "f", scopeNodeId := "root", userId := none,
                     deviceId := some "d", canRead := true, canWrite := true }]
  nodes := [{ nodeId := "root", folderId := "f", parentId := none, name := "", type := .folder },
    { nodeId := "n", folderId := "f", parentId := some "root", name := "a.txt", type := .file }]

/-- An empty version of the file, based on its `server_seq` 0. -/
def raceCall (versionId : String) : SubmitCall where
  folderId := "f"
  principal := .device "d"
  op := .mutate "n" 0 (.newVersion versionId "h" 0 [])
  newId := "copy"
  now := 0
  request := 0

theorem raceDb_seqsValid : raceDb.SeqsValid where
  drawn := ⟨by decide, by decide⟩
  nodeSeq_le n := by
    rw [Db.nodeSeq]
    cases h : raceDb.node n with
    | none => exact le_rfl
    | some r =>
      have hr : r ∈ raceDb.nodes := mem_of_lookup h
      have hall : ∀ r ∈ raceDb.nodes, r.serverSeq = 0 := by decide
      exact (hall r hr).le

/-- One call after the other on SQLite: the sections do not overlap. -/
theorem submitOp_applied_chain_sequential :
    ∃ pre e post, ((startOps .sqlite raceDb [raceCall "v1", raceCall "v2"]).run
        (List.replicate 20 0 ++ List.replicate 20 1)).state.nodeOps "n" =
          raceDb.nodeOps "n" ++ (pre ++ e :: post) ∧
      e.serverSeq = 1 ∧ e.request = 0 ∧ chainEnd (raceDb.nodeSeq "n") pre = 0 ∧
      ∀ f ∈ pre, f.serverSeq ≤ 0 :=
  ((submitOp_applied_chain .sqlite raceDb raceDb_seqsValid [raceCall "v1", raceCall "v2"]
    (List.replicate 20 0 ++ List.replicate 20 1) fun _ => by decide +kernel).1 0 1 "n" 0
    (raceCall "v1") (by decide +kernel) rfl rfl).2

/-- On SQLite the second call runs from start to end between the first one's version check
and its writes: both are applied on base 0. -/
theorem submitOp_applied_twice :
    let p := (startOps .sqlite raceDb [raceCall "v1", raceCall "v2"]).run
      (List.replicate 8 0 ++ List.replicate 20 1 ++ List.replicate 20 0)
    raceDb.SeqsValid ∧ (raceCall "v1").op.basedOnSeq = (raceCall "v2").op.basedOnSeq ∧
      answer p 1 = some (.applied 1 "n") ∧ answer p 0 = some (.applied 2 "n") ∧
      (p.state.node "n").bind NodeRow.currentVersionId = some "v1" :=
  ⟨raceDb_seqsValid, rfl, by decide +kernel, by decide +kernel, by decide +kernel⟩

end Valv.Server
