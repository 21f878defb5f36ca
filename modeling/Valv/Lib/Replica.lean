import Mathlib.Data.List.Basic
import Mathlib.Data.Nat.Basic
import Mathlib.Order.Basic
import Mathlib.Tactic.Common

/-!
# Replicas of a log

A record with fields, changed by numbered ops that each write some of them.  A replica holds a
copy with the number of the last op it knows of; the ops above its cursor are delivered to it in
order, and one that is not above the copy's number is passed over.

* `Copy.put`, `replay`: an op, and a log of them.
* `Exact`: from its own number on, the rest of the log leads to the value of the whole log.
* `Exact.put`: a copy learns of an op from elsewhere; what it misses must be covered by the op.
* `Tracks`: the copy is exact, and nothing at or below the cursor is above it.
* `Tracks.receive`, `Tracks.reset`, `Tracks.record`, `Tracks.caughtUp`.
* `Follows`: the same where the record may not exist yet, on either side.
* `AsOf`: the copy is what the log up to its number makes of a first one; `AsOf.value_cases`.
-/

namespace Valv.Replica

variable {F O : Type} {α : F → Type}

/-- The fields of a record and the number of the last op on it. -/
@[ext] structure Copy (α : F → Type) where
  seq : ℕ
  value : (f : F) → α f

variable (seq : O → ℕ) (writes : O → (f : F) → Option (α f))

/-- The copy after an op. -/
def Copy.put (x : Copy α) (e : O) : Copy α := ⟨seq e, fun f => (writes e f).getD (x.value f)⟩

/-- The copy after a log of ops. -/
def replay (x : Copy α) (log : List O) : Copy α := log.foldl (Copy.put seq writes) x

/-- The op writes every field. -/
def Full (e : O) : Prop := ∀ f, (writes e f).isSome

/-- The log is in the order of its numbers. -/
def Ascending (log : List O) : Prop := log.Pairwise fun a b => seq a < seq b

/-- The ops of the log above the copy lead to `y`. -/
def Exact (log : List O) (y x : Copy α) : Prop :=
  replay seq writes x (log.filter fun e => x.seq < seq e) = y

/-- What the copy misses below `e` is written by `e`, too. -/
def Covers (log : List O) (e : O) (x : Copy α) : Prop :=
  ∀ a ∈ log, x.seq < seq a → seq a < seq e → ∀ f, (writes a f).isSome → (writes e f).isSome

/-- The copy is exact and not behind the cursor. -/
structure Tracks (log : List O) (c : ℕ) (y x : Copy α) : Prop where
  exact : Exact seq writes log y x
  upTo : ∀ e ∈ log, seq e ≤ c → seq e ≤ x.seq

/-- What a log makes of some first copy. -/
def Grown (log : List O) (y : Copy α) : Prop := ∃ y₀, y = replay seq writes y₀ log

/-- An op is delivered to a copy that exists. -/
def Copy.receive (x : Copy α) (e : O) : Copy α := if seq e ≤ x.seq then x else x.put seq writes e

/-- A replica `v` of the record `w`, where either may not exist yet. -/
def Follows (log : List O) (c : ℕ) : Option (Copy α) → Option (Copy α) → Prop
  | none, none => log = []
  | none, some _ => False
  | some _, none => (∃ e es, log = e :: es ∧ Full writes e) ∧ ∀ e ∈ log, c < seq e
  | some y, some x => Tracks seq writes log c y x

variable {seq writes} {x y z : Copy α} {log xs ys : List O} {e : O} {c : ℕ}

/-! ### Replaying -/

theorem put_value (x : Copy α) (e : O) (f : F) :
    (x.put seq writes e).value f = (writes e f).getD (x.value f) := rfl

/-- Either some op of the log writes the field, or none does. -/
theorem written_or_not (writes : O → (f : F) → Option (α f)) (log : List O) (f : F) :
    (∃ e ∈ log, (writes e f).isSome) ∨ ∀ e ∈ log, writes e f = none := by
  by_cases h : ∃ e ∈ log, (writes e f).isSome
  · exact .inl h
  · refine .inr fun e he => Option.not_isSome_iff_eq_none.mp fun hw => h ⟨e, he, hw⟩

theorem replay_append (x : Copy α) (xs ys : List O) :
    replay seq writes x (xs ++ ys) = replay seq writes (replay seq writes x xs) ys :=
  List.foldl_append

theorem replay_concat (x : Copy α) (xs : List O) (e : O) :
    replay seq writes x (xs ++ [e]) = (replay seq writes x xs).put seq writes e := by
  rw [replay_append]
  rfl

/-- A field that no op writes stays. -/
theorem replay_value_of_unwritten {f : F} (h : ∀ e ∈ log, writes e f = none) :
    (replay seq writes x log).value f = x.value f := by
  induction log generalizing x with
  | nil => rfl
  | cons e es ih =>
    have htail := ih (x := x.put seq writes e) fun e' he' => h e' (List.mem_cons_of_mem e he')
    show (replay seq writes (x.put seq writes e) es).value f = x.value f
    rw [htail, put_value, h e (by simp)]
    rfl

/-- A field that some op writes does not depend on where the replay starts. -/
theorem replay_value_of_written {f : F} (h : ∃ e ∈ log, (writes e f).isSome) :
    (replay seq writes x log).value f = (replay seq writes y log).value f := by
  induction log generalizing x y with
  | nil =>
    obtain ⟨e, he, -⟩ := h
    cases he
  | cons a es ih =>
    show (replay seq writes (x.put seq writes a) es).value f =
      (replay seq writes (y.put seq writes a) es).value f
    rcases written_or_not writes es f with hlater | hnone
    · exact ih hlater
    · rw [replay_value_of_unwritten hnone, replay_value_of_unwritten hnone]
      obtain ⟨e, he, hf⟩ := h
      rcases List.mem_cons.mp he with rfl | he
      · obtain ⟨v, hv⟩ := Option.isSome_iff_exists.mp hf
        rw [put_value, put_value, hv]
        rfl
      · rw [hnone e he] at hf
        cases hf

/-- Two copies with the same number differ only in fields the log writes: the log leads to one. -/
theorem replay_congr (hseq : x.seq = y.seq)
    (h : ∀ f, x.value f = y.value f ∨ ∃ e ∈ log, (writes e f).isSome) :
    replay seq writes x log = replay seq writes y log := by
  have hend : (replay seq writes x log).seq = (replay seq writes y log).seq := by
    rcases List.eq_nil_or_concat' log with rfl | ⟨es, e, rfl⟩
    · exact hseq
    · rw [replay_concat, replay_concat]
      rfl
  refine Copy.ext hend (funext fun f => ?_)
  rcases written_or_not writes log f with hw | hnone
  · exact replay_value_of_written hw
  · rw [replay_value_of_unwritten hnone, replay_value_of_unwritten hnone]
    rcases h f with heq | ⟨e, he, hf⟩
    · exact heq
    · rw [hnone e he] at hf
      cases hf

theorem put_of_full (h : Full writes e) (x y : Copy α) : x.put seq writes e = y.put seq writes e := by
  refine Copy.ext rfl (funext fun f => ?_)
  obtain ⟨v, hv⟩ := Option.isSome_iff_exists.mp (h f)
  rw [put_value, put_value, hv]
  rfl

theorem Grown.extend (h : Grown seq writes log y) (e : O) :
    Grown seq writes (log ++ [e]) (y.put seq writes e) := by
  obtain ⟨y₀, rfl⟩ := h
  exact ⟨y₀, (replay_concat y₀ log e).symm⟩

theorem Grown.single (z : Copy α) (e : O) : Grown seq writes [e] (z.put seq writes e) := ⟨z, rfl⟩

/-! ### Logs in order -/

theorem Ascending.filter_above (h : Ascending seq (xs ++ e :: ys)) :
    (xs ++ e :: ys).filter (fun a => seq e < seq a) = ys := by
  obtain ⟨-, htail, hcross⟩ := List.pairwise_append.mp h
  have hxs : xs.filter (fun a => seq e < seq a) = [] := by
    refine List.filter_eq_nil_iff.mpr fun a ha => ?_
    have hlt := hcross a ha e (by simp)
    simpa using hlt.le
  have hys : ys.filter (fun a => seq e < seq a) = ys :=
    List.filter_eq_self.mpr fun a ha => by simpa using List.rel_of_pairwise_cons htail ha
  rw [List.filter_append, List.filter_cons_of_neg (by simp), hxs, hys, List.nil_append]

theorem Ascending.lt_iff (h : Ascending seq (xs ++ e :: ys)) {a : O} (ha : a ∈ xs ++ e :: ys) :
    a ∈ xs ∧ seq a < seq e ∨ a = e ∨ a ∈ ys ∧ seq e < seq a := by
  obtain ⟨-, htail, hcross⟩ := List.pairwise_append.mp h
  rcases List.mem_append.mp ha with ha | ha
  · exact .inl ⟨ha, hcross a ha e (by simp)⟩
  · rcases List.mem_cons.mp ha with rfl | ha
    · exact .inr (.inl rfl)
    · exact .inr (.inr ⟨ha, List.rel_of_pairwise_cons htail ha⟩)

/-! ### Exact copies -/

theorem Exact.self (h : ∀ e ∈ log, seq e ≤ y.seq) : Exact seq writes log y y := by
  have hnil : log.filter (fun e => y.seq < seq e) = [] :=
    List.filter_eq_nil_iff.mpr fun e he => by simpa using h e he
  rw [Exact, hnil]
  rfl

/-- With nothing above it, an exact copy has the value of the whole log. -/
theorem Exact.eq (h : Exact seq writes log y x) (hx : ∀ e ∈ log, seq e ≤ x.seq) : x = y := by
  have hself : Exact seq writes log x x := Exact.self hx
  exact hself.symm.trans h

theorem Exact.seq_le (h : Exact seq writes log y x) (hy : ∀ e ∈ log, seq e ≤ y.seq) :
    x.seq ≤ y.seq := by
  by_cases hx : ∀ e ∈ log, seq e ≤ x.seq
  · exact (h.eq hx ▸ le_rfl)
  · simp only [not_forall, not_le] at hx
    obtain ⟨e, he, hlt⟩ := hx
    exact hlt.le.trans (hy e he)

/-- A new op. -/
theorem Exact.extend (h : Exact seq writes log y x) (hx : x.seq < seq e) :
    Exact seq writes (log ++ [e]) (y.put seq writes e) x := by
  have hlast : [e].filter (fun a => decide (x.seq < seq a)) = [e] :=
    List.filter_eq_self.mpr fun a ha => by
      rw [List.mem_singleton.mp ha]
      simpa using hx
  rw [Exact, List.filter_append, hlast, replay_concat]
  exact congrArg (Copy.put seq writes · e) h

/-- **An op from elsewhere**: what the copy misses below it is written by the op, so the copy is
exact again, now at the number of the op. -/
theorem Exact.put (h : Exact seq writes log y x) (hgrown : Grown seq writes log y)
    (hasc : Ascending seq log) (he : e ∈ log) (hcov : Covers seq writes log e x) :
    Exact seq writes log y (x.put seq writes e) := by
  obtain ⟨xs, ys, rfl⟩ := List.append_of_mem he
  obtain ⟨y₀, hy⟩ := hgrown
  have hy' : y = replay seq writes ((replay seq writes y₀ xs).put seq writes e) ys := by
    rw [hy, replay_append]
    rfl
  have hrest : ((xs ++ e :: ys).filter fun a => (x.put seq writes e).seq < seq a) = ys :=
    hasc.filter_above
  rw [Exact, hrest, hy']
  refine replay_congr rfl fun f => ?_
  rcases written_or_not writes ys f with hlater | hys
  · exact .inr hlater
  left
  cases hw : writes e f with
  | some v =>
    rw [put_value, put_value, hw]
    rfl
  | none =>
    -- neither side has seen a write of this field since the copy
    have hx : y.value f = x.value f := by
      rw [← h]
      refine replay_value_of_unwritten fun a ha => ?_
      obtain ⟨ha, habove⟩ := List.mem_filter.mp ha
      rcases hasc.lt_iff ha with ⟨-, hlt⟩ | rfl | ⟨ha, -⟩
      · cases hwa : writes a f with
        | none => rfl
        | some v =>
          have hcover := hcov a ha (by simpa using habove) hlt f (by rw [hwa]; rfl)
          rw [hw] at hcover
          cases hcover
      · exact hw
      · exact hys a ha
    have hmid : y.value f = (replay seq writes y₀ xs).value f := by
      rw [hy', replay_value_of_unwritten hys, put_value, hw]
      rfl
    rw [put_value, put_value, hw]
    exact hx.symm.trans hmid

/-- **A full op** makes any copy exact. -/
theorem Exact.full (hgrown : Grown seq writes log y) (hasc : Ascending seq log) (he : e ∈ log)
    (hfull : Full writes e) (z : Copy α) : Exact seq writes log y (z.put seq writes e) := by
  obtain ⟨xs, ys, rfl⟩ := List.append_of_mem he
  obtain ⟨y₀, hy⟩ := hgrown
  have hrest : ((xs ++ e :: ys).filter fun a => (z.put seq writes e).seq < seq a) = ys :=
    hasc.filter_above
  rw [Exact, hrest, hy, replay_append, put_of_full hfull z (replay seq writes y₀ xs)]
  rfl

/-! ### Copies and cursors -/

theorem Tracks.mono (h : Tracks seq writes log c y x) {c' : ℕ} (hle : c' ≤ c) :
    Tracks seq writes log c' y x := ⟨h.exact, fun e he hc => h.upTo e he (hc.trans hle)⟩

/-- The cursor passes numbers that no op of the log has. -/
theorem Tracks.skip (h : Tracks seq writes log c y x) {c' : ℕ}
    (hgap : ∀ e ∈ log, seq e ≤ c' → seq e ≤ c) : Tracks seq writes log c' y x :=
  ⟨h.exact, fun e he hc => h.upTo e he (hgap e he hc)⟩

theorem Tracks.extend (h : Tracks seq writes log c y x) (hx : x.seq < seq e) (hc : c < seq e) :
    Tracks seq writes (log ++ [e]) c (y.put seq writes e) x where
  exact := h.exact.extend hx
  upTo a ha hle := by
    rcases List.mem_append.mp ha with ha | ha
    · exact h.upTo a ha hle
    · rw [List.mem_singleton.mp ha] at hle
      omega

/-- **Recording**: an exact copy replaces the replica; the ops above it are still to come. -/
theorem Tracks.record (h : Exact seq writes log y x) (hnew : ∀ e ∈ log, x.seq < seq e → c < seq e) :
    Tracks seq writes log c y x where
  exact := h
  upTo e he hle := by
    by_contra hlt
    have hc := hnew e he (not_le.mp hlt)
    omega

/-- **Delivery** of the next op above the cursor to a copy. -/
theorem Tracks.receive (h : Tracks seq writes log c y x) (hasc : Ascending seq log) (he : e ∈ log)
    (hnext : ∀ a ∈ log, c < seq a → seq e ≤ seq a) :
    Tracks seq writes log (seq e) y (x.receive seq writes e) := by
  have hbelow : ∀ a ∈ log, seq a < seq e → seq a ≤ x.seq := by
    intro a ha hlt
    by_cases hc : c < seq a
    · have hle := hnext a ha hc
      omega
    · exact h.upTo a ha (by omega)
  rw [Copy.receive]
  split
  · next hle => exact ⟨h.exact, fun a ha hc => by
      rcases Nat.lt_or_eq_of_le hc with hlt | heq
      · exact hbelow a ha hlt
      · rwa [heq]⟩
  · next hgt =>
    refine ⟨?_, fun a _ hc => hc⟩
    obtain ⟨xs, ys, rfl⟩ := List.append_of_mem he
    have hrest : ((xs ++ e :: ys).filter fun a => (x.put seq writes e).seq < seq a) = ys :=
      hasc.filter_above
    have hfilter : ((xs ++ e :: ys).filter fun a => x.seq < seq a) = e :: ys := by
      obtain ⟨-, htail, hcross⟩ := List.pairwise_append.mp hasc
      rw [List.filter_append, List.filter_eq_nil_iff.mpr, List.nil_append]
      · refine List.filter_eq_self.mpr fun a ha => ?_
        rcases List.mem_cons.mp ha with rfl | ha
        · simpa using hgt
        · have hlt := List.rel_of_pairwise_cons htail ha
          simp only [decide_eq_true_eq]
          omega
      · intro a ha
        have hle := hbelow a (List.mem_append_left _ ha) (hcross a ha e (by simp))
        simpa using hle
    have hexact : replay seq writes x _ = y := h.exact
    rw [hfilter] at hexact
    rw [Exact, hrest]
    exact hexact

/-- **Reset**: a full op is delivered to a copy, whatever its number. -/
theorem Tracks.reset (hgrown : Grown seq writes log y) (hasc : Ascending seq log) (he : e ∈ log)
    (hfull : Full writes e) (z : Copy α) : Tracks seq writes log (seq e) y (z.put seq writes e) :=
  ⟨Exact.full hgrown hasc he hfull z, fun _ _ hc => hc⟩

/-- **Caught up**: with nothing above its cursor the replica has the value of the whole log. -/
theorem Tracks.caughtUp (h : Tracks seq writes log c y x) (hc : ∀ e ∈ log, seq e ≤ c) : x = y :=
  h.exact.eq fun e he => h.upTo e he (hc e he)

/-! ### Records that may not exist -/

variable {v w : Option (Copy α)}

theorem Follows.mono (h : Follows seq writes log c w v) {c' : ℕ} (hle : c' ≤ c) :
    Follows seq writes log c' w v := by
  cases w with
  | none => cases v <;> exact h
  | some y =>
    cases v with
    | none => exact ⟨h.1, fun e he => hle.trans_lt (h.2 e he)⟩
    | some x => exact Tracks.mono h hle

theorem Follows.skip (h : Follows seq writes log c w v) {c' : ℕ}
    (hgap : ∀ e ∈ log, seq e ≤ c' → seq e ≤ c) : Follows seq writes log c' w v := by
  cases w with
  | none => cases v <;> exact h
  | some y =>
    cases v with
    | none =>
      refine ⟨h.1, fun e he => ?_⟩
      by_contra hlt
      have hle := hgap e he (not_lt.mp hlt)
      have hgt := h.2 e he
      omega
    | some x => exact Tracks.skip h hgap

/-- The record is created. -/
theorem Follows.create (h : Follows seq writes log c none v) (hfull : Full writes e) (hc : c < seq e)
    (z : Copy α) : log = [] ∧ v = none ∧ Follows seq writes [e] c (some (z.put seq writes e)) v := by
  cases v with
  | some x => exact h.elim
  | none =>
    refine ⟨h, rfl, ⟨e, [], rfl, hfull⟩, fun a ha => ?_⟩
    rwa [List.mem_singleton.mp ha]

/-- A new op on it. -/
theorem Follows.extend (h : Follows seq writes log c (some y) v) (hy : ∀ e ∈ log, seq e ≤ y.seq)
    (hnew : y.seq < seq e) (hc : c < seq e) :
    Follows seq writes (log ++ [e]) c (some (y.put seq writes e)) v := by
  cases v with
  | some x => exact Tracks.extend h ((Exact.seq_le (Tracks.exact h) hy).trans_lt hnew) hc
  | none =>
    obtain ⟨⟨a, as, rfl, hfull⟩, habove⟩ := h
    refine ⟨⟨a, as ++ [e], rfl, hfull⟩, fun b hb => ?_⟩
    rcases List.mem_append.mp hb with hb | hb
    · exact habove b hb
    · rwa [List.mem_singleton.mp hb]

/-- The next op of a record that the replica has not got yet creates it. -/
theorem Follows.full_of_absent (h : Follows seq writes log c w none) (hasc : Ascending seq log)
    (he : e ∈ log) (hnext : ∀ a ∈ log, c < seq a → seq e ≤ seq a) : Full writes e := by
  cases w with
  | none =>
    have hnil : log = [] := h
    rw [hnil] at he
    cases he
  | some y =>
    obtain ⟨⟨a, as, rfl, hfull⟩, habove⟩ := h
    rcases List.mem_cons.mp he with rfl | he
    · exact hfull
    · have hlt := List.rel_of_pairwise_cons hasc he
      have hle := hnext a (by simp) (habove a (by simp))
      omega

theorem Follows.exists_of_mem (h : Follows seq writes log c w v) (he : e ∈ log) : ∃ y, w = some y := by
  cases w with
  | some y => exact ⟨y, rfl⟩
  | none =>
    cases v with
    | none =>
      have hnil : log = [] := h
      rw [hnil] at he
      cases he
    | some x => exact h.elim

theorem Follows.caughtUp (h : Follows seq writes log c w v) (hc : ∀ e ∈ log, seq e ≤ c) : v = w := by
  cases w with
  | none =>
    cases v with
    | none => rfl
    | some x => exact h.elim
  | some y =>
    cases v with
    | some x => exact congrArg some (Tracks.caughtUp h hc)
    | none =>
      obtain ⟨⟨a, as, rfl, -⟩, habove⟩ := h
      have hlt := habove a (by simp)
      have hle := hc a (by simp)
      omega

/-! ### Copies as of their number -/

section AsOf

variable {y₀ : Copy α} {x' : Copy α}

variable (seq writes) in
/-- The copy is what the log up to its number makes of a first copy. -/
def AsOf (y₀ : Copy α) (log : List O) (x : Copy α) : Prop :=
  replay seq writes y₀ (log.filter fun e => seq e ≤ x.seq) = x

/-- The ops up to one number, and from there up to a higher one. -/
theorem Ascending.filter_le (hasc : Ascending seq log) {k l : ℕ} (hle : k ≤ l) :
    log.filter (fun e => seq e ≤ l) =
      log.filter (fun e => seq e ≤ k) ++ log.filter (fun e => k < seq e ∧ seq e ≤ l) := by
  induction log with
  | nil => rfl
  | cons e es ih =>
    have htail : Ascending seq es := List.Pairwise.of_cons hasc
    by_cases hk : seq e ≤ k
    · have hl : seq e ≤ l := by omega
      have hbelow : ¬ (k < seq e ∧ seq e ≤ l) := by omega
      rw [List.filter_cons_of_pos (by simpa using hl), List.filter_cons_of_pos (by simpa using hk),
        List.filter_cons_of_neg (by simpa using hbelow), ih htail]
      rfl
    · -- nothing from here on is at or below `k`
      have habove : ∀ a ∈ e :: es, k < seq a := by
        intro a ha
        rcases List.mem_cons.mp ha with rfl | ha
        · omega
        · have hrel := List.rel_of_pairwise_cons hasc ha
          omega
      have hnil : (e :: es).filter (fun e => seq e ≤ k) = [] := by
        apply List.filter_eq_nil_iff.mpr
        intro a ha
        simpa using habove a ha
      rw [hnil, List.nil_append]
      apply List.filter_congr
      intro a ha
      simp [habove a ha]

/-- The ops between the copy and a higher number lead on from the copy. -/
theorem AsOf.advance (h : AsOf seq writes y₀ log x) (hasc : Ascending seq log) {k : ℕ} (hle : x.seq ≤ k) :
    replay seq writes y₀ (log.filter fun e => seq e ≤ k) =
      replay seq writes x (log.filter fun e => x.seq < seq e ∧ seq e ≤ k) := by
  rw [hasc.filter_le hle, replay_append]
  exact congrArg (fun z => replay seq writes z _) h

/-- The number is the first copy's or an op's. -/
theorem AsOf.seq_cases (h : AsOf seq writes y₀ log x) : x.seq = y₀.seq ∨ ∃ e ∈ log, seq e = x.seq := by
  rcases List.eq_nil_or_concat' (log.filter fun e => seq e ≤ x.seq) with hnil | ⟨es, e, hconcat⟩
  · left
    rw [AsOf, hnil] at h
    exact (congrArg Copy.seq h).symm
  · right
    have he : e ∈ log := by
      have hmem : e ∈ log.filter fun e => seq e ≤ x.seq := by simp [hconcat]
      exact (List.mem_filter.mp hmem).1
    rw [AsOf, hconcat, replay_concat] at h
    exact ⟨e, he, congrArg Copy.seq h⟩

/-- A new op. -/
theorem AsOf.extend (h : AsOf seq writes y₀ log x) (hx : x.seq < seq e) :
    AsOf seq writes y₀ (log ++ [e]) x := by
  have hlast : [e].filter (fun a => decide (seq a ≤ x.seq)) = [] := by simpa using hx
  rw [AsOf, List.filter_append, hlast, List.append_nil]
  exact h

/-- **An op from elsewhere**: what the copy misses below it is written by the op. -/
theorem AsOf.put (h : AsOf seq writes y₀ log x) (hasc : Ascending seq log) (he : e ∈ log) (hle : x.seq ≤ seq e)
    (hcov : Covers seq writes log e x) : AsOf seq writes y₀ log (x.put seq writes e) := by
  have hadvance := h.advance hasc hle
  show replay seq writes y₀ (log.filter fun a => seq a ≤ seq e) = x.put seq writes e
  rw [hadvance]
  by_cases hlt : x.seq < seq e
  · -- the ops in between end with `e`
    obtain ⟨xs, ys, rfl⟩ := List.append_of_mem he
    have hys : ys.filter (fun a => x.seq < seq a ∧ seq a ≤ seq e) = [] := by
      apply List.filter_eq_nil_iff.mpr
      intro a ha
      have hrel := List.rel_of_pairwise_cons (List.pairwise_append.mp hasc).2.1 ha
      simp only [decide_eq_true_eq]
      omega
    rw [List.filter_append, List.filter_cons_of_pos (by simpa using hlt), hys, replay_concat]
    refine Copy.ext rfl (funext fun f => ?_)
    rw [put_value, put_value]
    cases hw : writes e f with
    | some v => rfl
    | none =>
      apply replay_value_of_unwritten
      intro a ha
      obtain ⟨hmem, hbetween⟩ := List.mem_filter.mp ha
      simp only [decide_eq_true_eq] at hbetween
      have hrel : seq a < seq e := (List.pairwise_append.mp hasc).2.2 a hmem e (by simp)
      by_contra hne
      have hsome := hcov a (List.mem_append_left _ hmem) hbetween.1 hrel f (Option.isSome_iff_ne_none.mpr hne)
      rw [hw] at hsome
      cases hsome
  · -- the copy has `e` already
    have heq : x.seq = seq e := by omega
    have hnil : log.filter (fun a => x.seq < seq a ∧ seq a ≤ seq e) = [] := by
      apply List.filter_eq_nil_iff.mpr
      intro a _
      simp only [decide_eq_true_eq]
      omega
    rw [hnil]
    obtain ⟨xs, ys, rfl⟩ := List.append_of_mem he
    have hbelow : (xs ++ e :: ys).filter (fun a => seq a ≤ x.seq) = xs.filter (fun a => seq a ≤ x.seq) ++ [e] := by
      have hys : ys.filter (fun a => seq a ≤ x.seq) = [] := by
        apply List.filter_eq_nil_iff.mpr
        intro a ha
        have hrel := List.rel_of_pairwise_cons (List.pairwise_append.mp hasc).2.1 ha
        simp only [decide_eq_true_eq]
        omega
      rw [List.filter_append, List.filter_cons_of_pos (by simpa using heq.ge), hys]
    rw [AsOf, hbelow, replay_concat] at h
    refine Copy.ext heq (funext fun f => ?_)
    show x.value f = (writes e f).getD (x.value f)
    cases hw : writes e f with
    | none => rfl
    | some v => rw [← h, put_value, hw, Option.getD_some, Option.getD_some]

/-- **A full op** makes any copy one as of its number. -/
theorem AsOf.full (hasc : Ascending seq log) (he : e ∈ log) (hfull : Full writes e) (z : Copy α) :
    AsOf seq writes y₀ log (z.put seq writes e) := by
  obtain ⟨xs, ys, rfl⟩ := List.append_of_mem he
  show replay seq writes y₀ ((xs ++ e :: ys).filter fun a => seq a ≤ seq e) = z.put seq writes e
  have hys : ys.filter (fun a => seq a ≤ seq e) = [] := by
    apply List.filter_eq_nil_iff.mpr
    intro a ha
    have hrel := List.rel_of_pairwise_cons (List.pairwise_append.mp hasc).2.1 ha
    simp only [decide_eq_true_eq]
    omega
  rw [List.filter_append, List.filter_cons_of_pos (by simp), hys, replay_concat]
  exact put_of_full hfull _ z

/-- A value that a replay changes is the value of one of its ops. -/
theorem replay_value_cases (x : Copy α) (log : List O) (f : F) :
    (replay seq writes x log).value f = x.value f ∨
      ∃ e ∈ log, writes e f = some ((replay seq writes x log).value f) := by
  induction log generalizing x with
  | nil => exact Or.inl rfl
  | cons e es ih =>
    show (replay seq writes (x.put seq writes e) es).value f = x.value f ∨ _
    rcases ih (x.put seq writes e) with hsame | ⟨a, ha, hw⟩
    · rw [put_value] at hsame
      cases hw : writes e f with
      | none =>
        rw [hw] at hsame
        exact Or.inl hsame
      | some v =>
        rw [hw] at hsame
        refine Or.inr ⟨e, by simp, ?_⟩
        show writes e f = some ((replay seq writes (x.put seq writes e) es).value f)
        rw [hw, hsame, Option.getD_some]
    · exact Or.inr ⟨a, List.mem_cons_of_mem e ha, hw⟩

/-- **Nothing is taken back**: of two copies the later one differs in what later ops have written. -/
theorem AsOf.value_cases (h : AsOf seq writes y₀ log x) (h' : AsOf seq writes y₀ log x') (hasc : Ascending seq log)
    (hle : x.seq ≤ x'.seq) (f : F) :
    x'.value f = x.value f ∨ ∃ e ∈ log, x.seq < seq e ∧ writes e f = some (x'.value f) := by
  have hadvance : replay seq writes x (log.filter fun e => x.seq < seq e ∧ seq e ≤ x'.seq) = x' :=
    (h.advance hasc hle).symm.trans h'
  rcases replay_value_cases x (log.filter fun e => x.seq < seq e ∧ seq e ≤ x'.seq) f with hsame | ⟨e, he, hw⟩
  · rw [hadvance] at hsame
    exact Or.inl hsame
  · rw [hadvance] at hw
    obtain ⟨hmem, hbetween⟩ := List.mem_filter.mp he
    simp only [decide_eq_true_eq] at hbetween
    exact Or.inr ⟨e, hmem, hbetween.1, hw⟩

end AsOf

end Valv.Replica
