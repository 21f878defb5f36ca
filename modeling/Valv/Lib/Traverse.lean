import Mathlib.Data.List.Perm.Subperm
import Mathlib.Data.List.Nodup
import Mathlib.Tactic.Common

/-!
# Breadth-first placement of a tree

Rows with a key and the key of their parent; each row gets a value made from its parent's, going
down from a start.  `bfs` keeps a queue of the keys still to be opened and returns every row it
comes by with its value.

* `Placed`: the value a key has, by the links alone.
* `Placed.unique`: in a tree a key has one value.
* `nodup_bfs`: no row is returned twice.
* `mem_bfs`: what a search from a row without parent returns, once it may open as many keys as there are rows.
-/

namespace Valv.Traverse

variable {α κ β : Type} [DecidableEq κ] (key : α → κ) (parent : α → Option κ) (rows : List α) (extend : β → α → β)

/-- The key `p` has the value `y` when `k` has `x`. -/
inductive Placed (k : κ) (x : β) : κ → β → Prop
  | start : Placed k x k x
  | child {p : κ} {y : β} {c : α} (hp : Placed k x p y) (hc : c ∈ rows) (hlink : parent c = some p) :
      Placed k x (key c) (extend y c)

/-- The rows under a key, with their values. -/
def children (k : κ) (x : β) : List (α × β) :=
  (rows.filter fun c => parent c = some k).map fun c => (c, extend x c)

/-- The queue after `k` is opened. -/
def push (queue : List (κ × β)) (k : κ) (x : β) : List (κ × β) :=
  queue ++ (children parent rows extend k x).map fun c => (key c.1, c.2)

/-- The rows found while at most `n` keys are opened. -/
def bfs : ℕ → List (κ × β) → List (α × β)
  | 0, _ => []
  | _, [] => []
  | n + 1, (k, x) :: queue =>
    children parent rows extend k x ++ bfs n (push key parent rows extend queue k x)

/-- The keys opened so far and the keys in the queue are all different, and whatever is among them
came there through its parent. -/
structure Frontier (opened : List κ) (queue : List (κ × β)) : Prop where
  nodup : (opened ++ queue.map Prod.fst).Nodup
  known : ∀ k ∈ opened ++ queue.map Prod.fst, k ∈ rows.map key
  above : ∀ r ∈ rows, key r ∈ opened ++ queue.map Prod.fst → ∀ p, parent r = some p → p ∈ opened

variable {key parent rows extend} {k p : κ} {x y : β} {c : α} {queue : List (κ × β)} {opened : List κ}

theorem mem_children :
    (c, y) ∈ children parent rows extend k x ↔ c ∈ rows ∧ parent c = some k ∧ y = extend x c := by
  simp only [children, List.mem_map, List.mem_filter, decide_eq_true_eq, Prod.mk.injEq]
  constructor
  · rintro ⟨c', ⟨hc, hlink⟩, rfl, rfl⟩
    exact ⟨hc, hlink, rfl⟩
  · rintro ⟨hc, hlink, rfl⟩
    exact ⟨c, ⟨hc, hlink⟩, rfl, rfl⟩

theorem mem_push_of_child (hc : c ∈ rows) (hlink : parent c = some k) :
    (key c, extend x c) ∈ push key parent rows extend queue k x := by
  apply List.mem_append_right
  exact List.mem_map.2 ⟨(c, extend x c), mem_children.2 ⟨hc, hlink, rfl⟩, rfl⟩

omit [DecidableEq κ] in
/-- The first step down, instead of the last. -/
theorem Placed.head (h : Placed key parent rows extend k x p y) :
    (p = k ∧ y = x) ∨
      ∃ c ∈ rows, parent c = some k ∧ Placed key parent rows extend (key c) (extend x c) p y := by
  induction h with
  | start => exact Or.inl ⟨rfl, rfl⟩
  | @child p y c _ hc hlink ih =>
    rcases ih with ⟨rfl, rfl⟩ | ⟨c', hc', hlink', hp'⟩
    · exact Or.inr ⟨c, hc, hlink, .start⟩
    · exact Or.inr ⟨c', hc', hlink', hp'.child hc hlink⟩

omit [DecidableEq κ] in
theorem Placed.cons (hc : c ∈ rows) (hlink : parent c = some k)
    (h : Placed key parent rows extend (key c) (extend x c) p y) : Placed key parent rows extend k x p y := by
  induction h with
  | start => exact Placed.start.child hc hlink
  | child _ hd hlink' ih => exact ih.child hd hlink'

omit [DecidableEq κ] in
theorem Placed.mono {rows' : List α} (hsub : rows ⊆ rows') (h : Placed key parent rows extend k x p y) :
    Placed key parent rows' extend k x p y := by
  induction h with
  | start => exact .start
  | child _ hc hlink ih => exact ih.child (hsub hc) hlink

/-! ### Trees

Every key has a depth that is greater than its parent's. -/

section Tree

variable {depth : κ → ℕ} (hdepth : ∀ r ∈ rows, ∀ q, parent r = some q → depth q < depth (key r))

include hdepth

omit [DecidableEq κ] in
theorem Placed.depth_le (h : Placed key parent rows extend k x p y) : depth k ≤ depth p := by
  induction h with
  | start => exact Nat.le_refl _
  | child _ hc hlink ih =>
    have hlt := hdepth _ hc _ hlink
    omega

omit [DecidableEq κ] in
/-- The start is not among the keys below it. -/
theorem Placed.key_ne (h : Placed key parent rows extend k x p y) (hc : c ∈ rows) (hlink : parent c = some p) :
    key c ≠ k := by
  intro he
  have hle := h.depth_le hdepth
  have hlt := hdepth c hc p hlink
  rw [he] at hlt
  omega

omit [DecidableEq κ] in
/-- **A key has one value.** -/
theorem Placed.unique (hkeys : (rows.map key).Nodup) {y' : β} (h : Placed key parent rows extend k x p y)
    (h' : Placed key parent rows extend k x p y') : y = y' := by
  induction h generalizing y' with
  | start =>
    cases h' with
    | start => rfl
    | child hq hd hlink => exact absurd rfl (hq.key_ne hdepth hd hlink)
  | @child p y c hp hc hlink ih =>
    generalize hk : key c = kc at h'
    cases h' with
    | start => exact absurd hk (hp.key_ne hdepth hc hlink)
    | @child q z d hq hd hlink' =>
      have hcd : c = d := List.inj_on_of_nodup_map hkeys hc hd hk
      subst hcd
      rw [hlink] at hlink'
      cases hlink'
      rw [ih hq]

end Tree

/-! ### Soundness -/

/-- Whatever the search returns lies under a key of the queue. -/
theorem placed_of_mem_bfs {n : ℕ} (h : (c, y) ∈ bfs key parent rows extend n queue) :
    ∃ e ∈ queue, ∃ p z, Placed key parent rows extend e.1 e.2 p z ∧ c ∈ rows ∧ parent c = some p ∧
      y = extend z c := by
  induction n generalizing queue with
  | zero => simp [bfs] at h
  | succ n ih =>
    cases queue with
    | nil => simp [bfs] at h
    | cons e queue =>
      obtain ⟨k, x⟩ := e
      rw [bfs, List.mem_append] at h
      rcases h with h | h
      · exact ⟨(k, x), List.mem_cons_self, k, x, .start, mem_children.1 h⟩
      obtain ⟨e, he, p, z, hp, hc⟩ := ih h
      rcases List.mem_append.1 he with he | he
      · exact ⟨e, List.mem_cons_of_mem _ he, p, z, hp, hc⟩
      -- a child that was pushed: one more step above it
      obtain ⟨d, hd, rfl⟩ := List.mem_map.1 he
      obtain ⟨hrow, hlink, hval⟩ := mem_children.1 hd
      rw [hval] at hp
      exact ⟨(k, x), List.mem_cons_self, p, z, hp.cons hrow hlink, hc⟩

/-! ### Completeness -/

/-- Opening a key keeps the frontier. -/
theorem Frontier.open (hkeys : (rows.map key).Nodup) (h : Frontier key parent rows opened ((k, x) :: queue)) :
    Frontier key parent rows (opened ++ [k]) (push key parent rows extend queue k x) := by
  have hmap : (push key parent rows extend queue k x).map Prod.fst
      = queue.map Prod.fst ++ (rows.filter fun c => parent c = some k).map key := by
    simp [push, children, List.map_map, Function.comp_def]
  have hlist : opened ++ [k] ++ (push key parent rows extend queue k x).map Prod.fst
      = (opened ++ k :: queue.map Prod.fst) ++ (rows.filter fun c => parent c = some k).map key := by
    rw [hmap]
    simp
  have hnot : k ∉ opened := fun hk =>
    (List.nodup_append.1 h.nodup).2.2 k hk k List.mem_cons_self rfl
  constructor
  · rw [hlist, List.nodup_append]
    refine ⟨h.nodup, hkeys.sublist (List.filter_sublist.map key), ?_⟩
    intro j hj j' hj' he
    subst he
    obtain ⟨c, hc, rfl⟩ := List.mem_map.1 hj'
    -- a child of `k` that was there already would have come through `k`, which is not opened yet
    have hlink : parent c = some k := by simpa using (List.mem_filter.1 hc).2
    exact hnot (h.above c (List.mem_of_mem_filter hc) hj k hlink)
  · rw [hlist]
    intro j hj
    rcases List.mem_append.1 hj with hj | hj
    · exact h.known j hj
    · obtain ⟨c, hc, rfl⟩ := List.mem_map.1 hj
      exact List.mem_map.2 ⟨c, List.mem_of_mem_filter hc, rfl⟩
  · rw [hlist]
    intro r hr hmem p hp
    rcases List.mem_append.1 hmem with hmem | hmem
    · exact List.mem_append_left _ (h.above r hr hmem p hp)
    · obtain ⟨c, hc, he⟩ := List.mem_map.1 hmem
      have hcr : c = r := List.inj_on_of_nodup_map hkeys (List.mem_of_mem_filter hc) hr he
      have hlink : parent c = some k := by simpa using (List.mem_filter.1 hc).2
      have hpk : p = k := by
        rw [hcr, hp] at hlink
        exact Option.some.inj hlink
      rw [hpk]
      exact List.mem_append_right _ List.mem_cons_self

omit [DecidableEq κ] in
theorem Frontier.length_le (h : Frontier key parent rows opened queue) :
    opened.length + queue.length ≤ rows.length := by
  have hsub : opened ++ queue.map Prod.fst ⊆ rows.map key := fun k hk => h.known k hk
  have hle := (List.Nodup.subperm h.nodup hsub).length_le
  simpa using hle

/-- Every row under a key of the queue is returned. -/
theorem mem_bfs_of_placed {n : ℕ} (hkeys : (rows.map key).Nodup) (h : Frontier key parent rows opened queue)
    (hfuel : rows.length ≤ n + opened.length) {e : κ × β} (he : e ∈ queue)
    (hp : Placed key parent rows extend e.1 e.2 p y) (hc : c ∈ rows) (hlink : parent c = some p) :
    (c, extend y c) ∈ bfs key parent rows extend n queue := by
  induction n generalizing opened queue e with
  | zero =>
    have hle := h.length_le
    have hpos := List.length_pos_of_mem he
    omega
  | succ n ih =>
    cases queue with
    | nil => cases he
    | cons e' queue =>
      obtain ⟨k, x⟩ := e'
      rw [bfs, List.mem_append]
      have hfuel' : rows.length ≤ n + (opened ++ [k]).length := by
        rw [List.length_append, List.length_singleton]
        omega
      rcases List.mem_cons.1 he with rfl | he
      · rcases hp.head with ⟨rfl, rfl⟩ | ⟨d, hd, hlink', hp'⟩
        · exact Or.inl (mem_children.2 ⟨hc, hlink, rfl⟩)
        · exact Or.inr (ih (h.open hkeys) hfuel' (mem_push_of_child hd hlink') hp')
      · exact Or.inr (ih (h.open hkeys) hfuel' (List.mem_append_left _ he) hp)

omit [DecidableEq κ] in
theorem frontier_root (hkeys : (rows.map key).Nodup) {root : α} (hroot : root ∈ rows) (htop : parent root = none) :
    Frontier key parent rows [] [(key root, x)] := by
  refine ⟨by simp, ?_, ?_⟩
  · intro k hk
    have hk : k = key root := by simpa using hk
    exact hk ▸ List.mem_map_of_mem hroot
  · intro r hr hmem q hq
    have hk : key r = key root := by simpa using hmem
    have he : r = root := List.inj_on_of_nodup_map hkeys hr hroot hk
    rw [he, htop] at hq
    cases hq

/-- **The search from a row without parent** returns the rows below it, each with its value. -/
theorem mem_bfs (hkeys : (rows.map key).Nodup) {root : α} (hroot : root ∈ rows) (htop : parent root = none) :
    (c, y) ∈ bfs key parent rows extend rows.length [(key root, x)] ↔
      ∃ p z, Placed key parent rows extend (key root) x p z ∧ c ∈ rows ∧ parent c = some p ∧ y = extend z c := by
  constructor
  · intro h
    obtain ⟨e, he, hp⟩ := placed_of_mem_bfs h
    rw [List.mem_singleton.1 he] at hp
    exact hp
  · rintro ⟨p, z, hp, hc, hlink, rfl⟩
    exact mem_bfs_of_placed hkeys (frontier_root hkeys hroot htop) (by simp) List.mem_cons_self hp hc hlink

/-- No row is returned twice, and none that was opened or waits in the queue. -/
theorem nodup_bfs {n : ℕ} (hkeys : (rows.map key).Nodup) (h : Frontier key parent rows opened queue) :
    ((bfs key parent rows extend n queue).map fun e => key e.1).Nodup ∧
      ∀ e ∈ bfs key parent rows extend n queue, key e.1 ∉ opened ++ queue.map Prod.fst := by
  induction n generalizing opened queue with
  | zero => exact ⟨List.nodup_nil, fun _ he => by cases he⟩
  | succ n ih =>
    cases queue with
    | nil => exact ⟨List.nodup_nil, fun _ he => by cases he⟩
    | cons e queue =>
      obtain ⟨k, x⟩ := e
      have hopen : Frontier key parent rows (opened ++ [k]) (push key parent rows extend queue k x) := h.open hkeys
      obtain ⟨hnd, hnew⟩ := ih hopen
      have hkids : (children parent rows extend k x).map (fun e => key e.1) =
          (rows.filter fun c => parent c = some k).map key := by simp [children, List.map_map, Function.comp_def]
      have hpush : (push key parent rows extend queue k x).map Prod.fst =
          queue.map Prod.fst ++ (children parent rows extend k x).map fun e => key e.1 := by
        simp [push, List.map_map, Function.comp_def]
      -- the keys of the frontier after `k` is opened
      have hall : opened ++ [k] ++ (push key parent rows extend queue k x).map Prod.fst =
          (opened ++ k :: queue.map Prod.fst) ++ (children parent rows extend k x).map fun e => key e.1 := by
        rw [hpush]
        simp
      have hfrontier := hopen.nodup
      rw [hall, List.nodup_append] at hfrontier
      rw [hall] at hnew
      rw [bfs, List.map_append]
      constructor
      · rw [List.nodup_append]
        refine ⟨hfrontier.2.1, hnd, ?_⟩
        intro a ha b hb hab
        obtain ⟨e, he, rfl⟩ := List.mem_map.1 hb
        exact hnew e he (List.mem_append_right _ (hab ▸ ha))
      · intro e he hmem
        rcases List.mem_append.1 he with he | he
        · exact hfrontier.2.2 _ hmem _ (List.mem_map_of_mem he) rfl
        · exact hnew e he (List.mem_append_left _ hmem)

end Valv.Traverse
