import Mathlib.Computability.StateTransition
import Mathlib.Data.List.Perm.Subperm
import Mathlib.Order.WellFoundedSet

/-!
# Parent links

A partial map `up` from nodes to their parents, over any type of nodes; `Reaches up a b` says
that finitely many parent steps lead from `a` to `b`.

* `root_unique`: a node reaches one root at most.
* `Reaches.off`, `Reaches.relink`: a node gets another parent.  Whoever reached a root reaches
  it still, as long as the new parent was not below the node.
* `Grounded`: every way up ends.  `grounded_relink`: what a new parent makes of that;
  `grounded_iff_acyclic`: where there are finitely many links, no node is above itself.
* `opened`: a search over a queue, down from some nodes.  `opened_of_grounded`: it ends, and opens no node twice.
-/

namespace Valv.Forest

open StateTransition Relation

variable {ν : Type} {up up' : ν → Option ν} {a b c n p r : ν}

theorem Reaches.refl (a : ν) : Reaches up a a := ReflTransGen.refl

theorem Reaches.step (hlink : up a = some p) (h : Reaches up p b) : Reaches up a b :=
  ReflTransGen.head hlink h

/-- A root reaches itself only. -/
theorem eq_of_root (hroot : up a = none) (h : Reaches up a b) : b = a := by
  rcases ReflTransGen.cases_head h with he | ⟨p, hlink, -⟩
  · exact he.symm
  · rw [Option.mem_def, hroot] at hlink
    cases hlink

/-- A path that avoids `n` does not see what becomes of the parent of `n`. -/
theorem Reaches.off (hup : ∀ m, m ≠ n → up' m = up m) (h : Reaches up a b) (hn : ¬ Reaches up a n) :
    Reaches up' a b := by
  induction h using ReflTransGen.head_induction_on with
  | refl => exact Reaches.refl b
  | @head a p hlink _ ih =>
    have hne : a ≠ n := fun he => hn (he ▸ Reaches.refl a)
    exact Reaches.step ((hup a hne).trans hlink) (ih fun hpn => hn (Reaches.step hlink hpn))

/-- **A new parent**: `n` goes under `p`, which is not below it.  Who reached `r` does so still,
if `p` does. -/
theorem Reaches.relink (hup : ∀ m, m ≠ n → up' m = up m) (hn : up' n = some p) (hp : Reaches up p r)
    (hbelow : ¬ Reaches up p n) (h : Reaches up a r) : Reaches up' a r := by
  induction h using ReflTransGen.head_induction_on with
  | refl => exact Reaches.refl r
  | @head a q hlink _ ih =>
    by_cases hne : a = n
    · subst hne
      exact Reaches.step hn (Reaches.off hup hp hbelow)
    · exact Reaches.step ((hup a hne).trans hlink) ih

/-- The way to `n` itself does not use the link of `n`. -/
theorem Reaches.upTo (hup : ∀ m, m ≠ n → up' m = up m) (h : Reaches up a n) : Reaches up' a n := by
  induction h using ReflTransGen.head_induction_on with
  | refl => exact Reaches.refl n
  | @head a q hlink _ ih =>
    by_cases hne : a = n
    · subst hne
      exact Reaches.refl a
    · exact Reaches.step ((hup a hne).trans hlink) ih

/-! ### Ways up that end -/

/-- Every way up ends: nobody has ancestors without end. -/
def Grounded (up : ν → Option ν) : Prop := WellFounded fun p n => up n = some p

/-- Fewer links. -/
theorem Grounded.mono (hup : ∀ m q, up' m = some q → up m = some q) (h : Grounded up) : Grounded up' :=
  Subrelation.wf (fun {q m} hlink => hup m q hlink) h

/-- A node is not above its own parent. -/
theorem Grounded.acyclic (h : Grounded up) (hlink : up n = some p) : ¬ Reaches up p n := by
  induction n using h.induction generalizing p with
  | _ n ih =>
    intro hback
    -- the parent has a parent too, and is above it
    have hnext : ∃ q, up p = some q ∧ Reaches up q p := by
      rcases ReflTransGen.cases_head hback with he | ⟨q, hq, hqn⟩
      · subst he
        exact ⟨p, hlink, Reaches.refl p⟩
      · exact ⟨q, hq, ReflTransGen.tail hqn hlink⟩
    obtain ⟨q, hq, hqp⟩ := hnext
    exact ih p hlink hq hqp

/-- **A new parent** keeps every way up ending if and only if the node is not above it. -/
theorem grounded_relink (hup : ∀ m, m ≠ n → up' m = up m) (hn : up' n = some p) (h : Grounded up) :
    Grounded up' ↔ ¬ Reaches up p n := by
  constructor
  · intro h' hback
    exact h'.acyclic hn (Reaches.upTo hup hback)
  intro hbelow
  -- first those that do not come by `n`, then `n`, then all
  have hoff : ∀ a, ¬ Reaches up a n → Acc (fun q m => up' m = some q) a := by
    intro a
    induction a using h.induction with
    | _ a ih =>
      intro ha
      have hne : a ≠ n := fun he => ha (he ▸ Reaches.refl a)
      refine Acc.intro a fun q hq => ?_
      have hlink : up a = some q := (hup a hne).symm.trans hq
      exact ih q hlink fun hqn => ha (Reaches.step hlink hqn)
  have hat : Acc (fun q m => up' m = some q) n := by
    refine Acc.intro n fun q hq => ?_
    have hqp : q = p := Option.some.inj (hq.symm.trans hn)
    exact hqp ▸ hoff p hbelow
  refine ⟨fun a => ?_⟩
  induction a using h.induction with
  | _ a ih =>
    by_cases hne : a = n
    · exact hne ▸ hat
    · exact Acc.intro a fun q hq => ih q ((hup a hne).symm.trans hq)

/-- **Finitely many links**: every way up ends if and only if nobody is above its own parent. -/
theorem grounded_iff_acyclic (hfin : {n | (up n).isSome}.Finite) :
    Grounded up ↔ ∀ n p, up n = some p → ¬ Reaches up p n := by
  constructor
  · intro h n p hlink
    exact h.acyclic hlink
  intro h
  let above : ν → ν → Prop := TransGen fun p n => up n = some p
  have : IsStrictOrder ν above :=
    { irrefl := fun n hn => by
        obtain ⟨p, hnp, hlink⟩ := TransGen.tail'_iff.1 hn
        exact h n p hlink (reflTransGen_swap.1 hnp)
      trans := fun _ _ _ => TransGen.trans }
  have hwf := hfin.wellFoundedOn (r := above)
  have hacc : ∀ n, (up n).isSome → Acc (fun p n => up n = some p) n := by
    intro n hn
    refine hwf.induction hn fun n _ ih => Acc.intro n fun p hlink => ?_
    by_cases hp : (up p).isSome
    · exact ih p hp (TransGen.single hlink)
    · exact Acc.intro p fun q hq => absurd (by simp [hq]) hp
  refine ⟨fun n => ?_⟩
  by_cases hn : (up n).isSome
  · exact hacc n hn
  · exact Acc.intro n fun p hlink => absurd (by simp [hlink]) hn

/-- The way up from a node ends within `fuel` steps, and does not come by `n`. -/
def avoids [DecidableEq ν] (up : ν → Option ν) (n : ν) : ℕ → ν → Bool
  | 0, _ => false
  | fuel + 1, a => a ≠ n && (up a).all (avoids up n fuel)

theorem not_reaches_of_avoids [DecidableEq ν] {fuel : ℕ} (h : avoids up n fuel a = true) : ¬ Reaches up a n := by
  induction fuel generalizing a with
  | zero => cases h
  | succ fuel ih =>
    rw [avoids, Bool.and_eq_true, decide_eq_true_eq] at h
    intro hreach
    rcases ReflTransGen.cases_head hreach with he | ⟨p, hlink, hp⟩
    · exact h.1 he
    · exact ih (Option.all_eq_true _ _ |>.1 h.2 p hlink) hp

/-! ### Searches down -/

section Down

variable (kids : ν → List ν)

/-- What comes to the front of the queue, if the queue is empty before the `fuel`-th turn. -/
def opened : ℕ → List ν → Option (List ν)
  | 0, _ => none
  | _ + 1, [] => some []
  | fuel + 1, k :: queue => (opened fuel (queue ++ kids k)).map (k :: ·)

variable {kids} {known done queue : List ν} {seed k : ν}

/-- What is in the queue comes first. -/
theorem queue_of_opened {fuel : ℕ} {l : List ν} (h : opened kids fuel queue = some l) : queue <+: l := by
  induction fuel generalizing queue l with
  | zero => cases h
  | succ fuel ih =>
    cases queue with
    | nil => exact List.nil_prefix
    | cons k queue =>
      rw [opened, Option.map_eq_some_iff] at h
      obtain ⟨l', hl', rfl⟩ := h
      have hrest : queue <+: l' := (List.prefix_append queue (kids k)).trans (ih hl')
      exact List.cons_prefix_cons.2 ⟨rfl, hrest⟩

/-- Between two turns of a search from `seed`, the nodes in `done` are behind it. -/
structure Search (up : ν → Option ν) (known : List ν) (seed : ν) (done queue : List ν) : Prop where
  nodup : (done ++ queue).Nodup
  known : ∀ k ∈ done ++ queue, k ∈ known
  below : ∀ k ∈ done ++ queue, Reaches up k seed
  above : ∀ k ∈ done ++ queue, k = seed ∨ ∃ p ∈ done, up k = some p

/-- **One turn**: what is added to the queue was neither behind nor in it. -/
theorem Search.turn (hg : Grounded up) (hlinks : ∀ k, ∀ c ∈ kids k, up c = some k ∧ c ∈ known)
    (hnodup : ∀ k, (kids k).Nodup) (h : Search up known seed done (k :: queue)) :
    Search up known seed (done ++ [k]) (queue ++ kids k) := by
  have hlist : done ++ [k] ++ (queue ++ kids k) = (done ++ k :: queue) ++ kids k := by simp
  have hk : k ∈ done ++ k :: queue := List.mem_append_right _ List.mem_cons_self
  have hnot : k ∉ done := fun hd => (List.nodup_append.1 h.nodup).2.2 k hd k List.mem_cons_self rfl
  refine ⟨?_, ?_, ?_, ?_⟩
  · rw [hlist, List.nodup_append]
    refine ⟨h.nodup, hnodup k, fun c hc c' hc' he => ?_⟩
    subst he
    have hlink : up c = some k := (hlinks k c hc').1
    rcases h.above c hc with hseed | ⟨p, hp, hcp⟩
    · -- the start is not below itself
      exact hg.acyclic hlink (hseed ▸ h.below k hk)
    · have hpk : p = k := Option.some.inj (hcp.symm.trans hlink)
      exact hnot (hpk ▸ hp)
  · rw [hlist]
    intro c hc
    rcases List.mem_append.1 hc with hc | hc
    · exact h.known c hc
    · exact (hlinks k c hc).2
  · rw [hlist]
    intro c hc
    rcases List.mem_append.1 hc with hc | hc
    · exact h.below c hc
    · exact Reaches.step (hlinks k c hc).1 (h.below k hk)
  · rw [hlist]
    intro c hc
    rcases List.mem_append.1 hc with hc | hc
    · rcases h.above c hc with hseed | ⟨p, hp, hcp⟩
      · exact Or.inl hseed
      · exact Or.inr ⟨p, List.mem_append_left _ hp, hcp⟩
    · exact Or.inr ⟨k, List.mem_append_right _ List.mem_cons_self, (hlinks k c hc).1⟩

theorem Search.length_le (h : Search up known seed done queue) : done.length + queue.length ≤ known.length := by
  have hle := (List.Nodup.subperm h.nodup h.known).length_le
  simpa using hle

/-- The turns that are left. -/
theorem Search.run (hg : Grounded up) (hlinks : ∀ k, ∀ c ∈ kids k, up c = some k ∧ c ∈ known)
    (hnodup : ∀ k, (kids k).Nodup) {fuel : ℕ} (hfuel : known.length < fuel + done.length)
    (h : Search up known seed done queue) : ∃ l, opened kids fuel queue = some l ∧ (done ++ l).Nodup := by
  induction fuel generalizing done queue with
  | zero =>
    have hle := h.length_le
    omega
  | succ fuel ih =>
    cases queue with
    | nil => exact ⟨[], rfl, h.nodup⟩
    | cons k queue =>
      have hfuel' : known.length < fuel + (done ++ [k]).length := by
        rw [List.length_append, List.length_singleton]
        omega
      obtain ⟨l, hl, hnd⟩ := ih hfuel' (h.turn hg hlinks hnodup)
      refine ⟨k :: l, ?_, ?_⟩
      · rw [opened, hl, Option.map_some]
      · rw [List.append_cons]
        exact hnd

/-- **A search down from a node** ends after no more turns than there are nodes, and opens none of them twice. -/
theorem opened_of_grounded (hg : Grounded up) (hlinks : ∀ k, ∀ c ∈ kids k, up c = some k ∧ c ∈ known)
    (hnodup : ∀ k, (kids k).Nodup) (hseed : seed ∈ known) {fuel : ℕ} (hfuel : known.length < fuel) :
    ∃ l, opened kids fuel [seed] = some l ∧ l.Nodup := by
  have hstart : Search up known seed [] [seed] := by
    refine ⟨by simp, ?_, ?_, ?_⟩
    · intro k hk
      have hks : k = seed := by simpa using hk
      exact hks ▸ hseed
    · intro k hk
      have hks : k = seed := by simpa using hk
      exact hks ▸ Reaches.refl k
    · intro k hk
      have hks : k = seed := by simpa using hk
      exact Or.inl hks
  have hlen : known.length < fuel + ([] : List ν).length := hfuel
  exact hstart.run hg hlinks hnodup hlen

end Down

end Valv.Forest
