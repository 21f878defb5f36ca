import Mathlib.Data.List.Basic
import Mathlib.Tactic.Common

/-!
# Runs of a step function

A system is a partial step function: `step s e` is the state after the event `e`, or `none`
when `e` cannot happen in `s`.

* `run`: the state after a list of events; an event that cannot happen is passed over.
* `Along ok`: the runs all of whose events satisfy `ok` in the state they happen in.
* `Along.iff_of_step`: a condition on steps that is exact is exact on runs.
* `run_invariant`: what every event preserves that satisfies `ok` holds at the end.
* `run_simulates`: what relates two systems, one of which leaves out some of the events.
-/

namespace Valv.Run

variable {S E : Type} (step : S → E → Option S)

/-- The state after the events `es`. -/
def run (s : S) : List E → S
  | [] => s
  | e :: es => run ((step s e).getD s) es

/-- Every event satisfies `ok` in the state it happens in. -/
def Along (ok : S → E → Prop) (s : S) : List E → Prop
  | [] => True
  | e :: es => ok s e ∧ Along ok ((step s e).getD s) es

instance Along.decidable {ok : S → E → Prop} [∀ s e, Decidable (ok s e)] :
    ∀ (es : List E) (s : S), Decidable (Along step ok s es)
  | [], _ => isTrue True.intro
  | e :: es, s =>
    haveI : Decidable (Along step ok ((step s e).getD s) es) := Along.decidable es _
    inferInstanceAs (Decidable (ok s e ∧ Along step ok ((step s e).getD s) es))

variable {step} {ok ok' : S → E → Prop}

theorem Along.mono {es : List E} {s : S} (h : Along step ok s es) (hok : ∀ s e, ok s e → ok' s e) :
    Along step ok' s es := by
  induction es generalizing s with
  | nil => exact h
  | cons e es ih => exact ⟨hok s e h.1, ih h.2⟩

theorem Along.of_forall (hok : ∀ s e, ok s e) (es : List E) (s : S) : Along step ok s es := by
  induction es generalizing s with
  | nil => exact True.intro
  | cons e es ih => exact ⟨hok s e, ih _⟩

/-- What every event preserves that satisfies `ok` holds after the whole run. -/
theorem run_invariant {I : S → Prop} (hstep : ∀ s e s', I s → ok s e → step s e = some s' → I s')
    {es : List E} {s : S} (hs : I s) (hok : Along step ok s es) : I (run step s es) := by
  induction es generalizing s with
  | nil => exact hs
  | cons e es ih =>
    rw [run]
    cases he : step s e with
    | none =>
      rw [Along, he] at hok
      exact ih hs hok.2
    | some s' =>
      rw [Along, he] at hok
      exact ih (hstep s e s' hs hok.1 he) hok.2

/-- What holds in every state that the events lead through, along the whole run. -/
theorem Along.of_invariant {I : S → Prop} (hstep : ∀ s e s', I s → ok s e → step s e = some s' → I s')
    (hI : ∀ s e, I s → ok s e → ok' s e) {es : List E} {s : S} (hs : I s) (hok : Along step ok s es) :
    Along step ok' s es := by
  induction es generalizing s with
  | nil => exact True.intro
  | cons e es ih =>
    refine ⟨hI s e hs hok.1, ih ?_ hok.2⟩
    cases he : step s e with
    | none => exact hs
    | some s' => exact hstep s e s' hs hok.1 he

/-- A condition that tells of each step whether it keeps `I` tells of each run whether `I` holds throughout. -/
theorem Along.iff_of_step {I : S → Prop} (hstep : ∀ s e, I s → (I ((step s e).getD s) ↔ ok s e)) {es : List E} {s : S}
    (hs : I s) : Along step (fun s e => I ((step s e).getD s)) s es ↔ Along step ok s es := by
  induction es generalizing s with
  | nil => exact Iff.rfl
  | cons e es ih =>
    constructor
    · rintro ⟨hhead, htail⟩
      exact ⟨(hstep s e hs).1 hhead, (ih hhead).1 htail⟩
    · rintro ⟨hhead, htail⟩
      have hnext := (hstep s e hs).2 hhead
      exact ⟨hnext, (ih hnext).2 htail⟩

/-- What stays once it holds, and does not hold at the end, has not held before. -/
theorem Along.of_not {P : S → Prop} (hstays : ∀ s e s', P s → step s e = some s' → P s') {es : List E} {s : S}
    (h : ¬ P (run step s es)) : Along step (fun s e => ¬ P ((step s e).getD s)) s es := by
  induction es generalizing s with
  | nil => exact True.intro
  | cons e es ih =>
    refine ⟨fun hP => h ?_, ih h⟩
    have hall : Along step (fun _ _ => True) ((step s e).getD s) es := Along.of_forall (fun _ _ => True.intro) es _
    show P (run step ((step s e).getD s) es)
    exact run_invariant (fun s e s' hs _ he => hstays s e s' hs he) hP hall

theorem Along.and {es : List E} {s : S} (h : Along step ok s es) (h' : Along step ok' s es) :
    Along step (fun s e => ok s e ∧ ok' s e) s es := by
  induction es generalizing s with
  | nil => exact True.intro
  | cons e es ih => exact ⟨⟨h.1, h'.1⟩, ih h.2 h'.2⟩

theorem run_append (s : S) (es fs : List E) : run step s (es ++ fs) = run step (run step s es) fs := by
  induction es generalizing s with
  | nil => rfl
  | cons e es ih => exact ih _

theorem along_append {s : S} {es fs : List E} :
    Along step ok s (es ++ fs) ↔ Along step ok s es ∧ Along step ok (run step s es) fs := by
  induction es generalizing s with
  | nil => simp [Along, run]
  | cons e es ih =>
    rw [List.cons_append, Along, Along, run, ih, and_assoc]

/-! ### Two runs -/

section Simulation

variable {T : Type} {step' : T → E → Option T} {R : S → T → Prop} {keep : E → Bool} {okT : T → E → Prop}

/-- What relates two systems before and after every event that `keep` selects, and after the first of them
makes one of the others, relates them at the end. -/
theorem run_simulates
    (hboth : ∀ s t e, R s t → ok s e → keep e = true → R ((step s e).getD s) ((step' t e).getD t))
    (hone : ∀ s t e, R s t → ok s e → keep e = false → R ((step s e).getD s) t)
    {es : List E} {s : S} {t : T} (hR : R s t) (hok : Along step ok s es) :
    R (run step s es) (run step' t (es.filter keep)) := by
  induction es generalizing s t with
  | nil => exact hR
  | cons e es ih =>
    cases he : keep e with
    | true =>
      rw [List.filter_cons_of_pos he]
      exact ih (hboth s t e hR hok.1 he) hok.2
    | false =>
      rw [List.filter_cons_of_neg (by simp [he])]
      exact ih (hone s t e hR hok.1 he) hok.2

/-- The second run is one that `okT` allows. -/
theorem along_simulates
    (hboth : ∀ s t e, R s t → ok s e → keep e = true → R ((step s e).getD s) ((step' t e).getD t))
    (hone : ∀ s t e, R s t → ok s e → keep e = false → R ((step s e).getD s) t)
    (hallowed : ∀ s t e, R s t → ok s e → keep e = true → okT t e)
    {es : List E} {s : S} {t : T} (hR : R s t) (hok : Along step ok s es) :
    Along step' okT t (es.filter keep) := by
  induction es generalizing s t with
  | nil => exact True.intro
  | cons e es ih =>
    cases he : keep e with
    | true =>
      rw [List.filter_cons_of_pos he]
      exact ⟨hallowed s t e hR hok.1 he, ih (hboth s t e hR hok.1 he) hok.2⟩
    | false =>
      rw [List.filter_cons_of_neg (by simp [he])]
      exact ih (hone s t e hR hok.1 he) hok.2

end Simulation

end Valv.Run
