import Valv.Lib.Proc

/-!
# Reasoning about concurrent programs by ownership of keys

A `Discipline` says, for the keys a program holds, what the others may do meanwhile
(`rely`), what the program itself may do (`guar`), and what is true of a key nobody holds
(`inv`).  Two judgements follow the structure of a program from the last state it has seen.

* `Sat p L w s Q`: every statement of `p`, run by a thread that holds `L` with uncommitted
  writes `w`, keeps the guarantee, whatever the others do in between, and `p` ends in `Q`.
* `Body tx p L v Q`: the same for a body inside brackets, said about the view `v` the body
  sees.  With `tx = true` the writes must also be right when they are replayed later.

The results:

* `Body.direct`, `Body.deferred`: a body that satisfies `Body` satisfies `Sat`, statement by
  statement on the shared state or held back until the commit.
* `Sat.unprotected`, `Sat.transaction`: the two kinds of brackets.
* `Pool.Sound.step`, `Pool.Sound.run`: threads that satisfy `Sat` keep their judgements, and
  the invariant of every free key, along every schedule; where programs claim keys, along
  every schedule in which no unprotected section overlaps another for the same key.
-/

namespace Valv.Conc

/-- What the holder of a list of keys may rely on, must guarantee, and gets with a key. -/
structure Discipline (σ κ : Type) [Sequence σ κ] where
  rely : List κ → σ → σ → Prop
  guar : List κ → σ → σ → Prop
  inv : κ → σ → Prop
  drawn : σ → κ → Prop
  /-- Whether programs may claim keys at all. -/
  shared : Prop
  rely_refl : ∀ L s, rely L s s
  rely_trans : ∀ {L s s' s''}, rely L s s' → rely L s' s'' → rely L s s''
  rely_cons : ∀ {k L s s'}, rely (k :: L) s s' → rely L s s'
  guar_refl : ∀ L s, guar L s s
  guar_trans : ∀ {L s s' s''}, guar L s s' → guar L s' s'' → guar L s s''
  guar_cons : ∀ {k L s s'}, guar L s s' → guar (k :: L) s s'
  guar_rely : ∀ {L L' s s'}, L.Disjoint L' → guar L s s' → rely L' s s'
  inv_guar : ∀ {k L s s'}, k ∉ L → guar L s s' → inv k s → inv k s'
  inv_rely : ∀ {k L s s'}, k ∈ L → rely L s s' → inv k s → inv k s'
  drawn_guar : ∀ {k L s s'}, guar L s s' → drawn s k → drawn s' k
  inv_key : ∀ n s, inv (Sequence.key σ n) s
  bump_guar : ∀ L s, guar L s (Sequence.bump κ s)
  bump_fresh : ∀ s, ¬ drawn s (Sequence.key σ (Sequence.value κ s))
  bump_drawn : ∀ s, drawn (Sequence.bump κ s) (Sequence.key σ (Sequence.value κ s))

variable {σ κ ε α β : Type} [Sequence σ κ] (D : Discipline σ κ)

/-- Every statement of the program keeps the guarantee under interference, and it ends in
`Q`.  `s` is the last state the thread has seen. -/
def Sat : Proc σ κ ε α → List κ → Option (σ → σ) → σ →
    (Except ε α → List κ → Option (σ → σ) → σ → Prop) → Prop
  | .done a, L, w, s, Q => ∀ s', D.rely L s s' → Q (.ok a) L w s'
  | .fail e, L, w, s, Q => ∀ s', D.rely L s s' → Q (.error e) L w s'
  | .act put next, L, none, s, Q => ∀ s', D.rely L s s' →
      D.guar L s' (put s' s') ∧ Sat (next s') L none (put s' s') Q
  | .act put next, L, some w, s, Q => ∀ s', D.rely L s s' →
      Sat (next (w s')) L (some fun x => put (w s') (w x)) s' Q
  | .draw next, L, w, s, Q => ∀ s', D.rely L s s' →
      let n := Sequence.value κ s'
      Sat (next n) (Sequence.key σ n :: L) w (Sequence.bump κ s') Q
  | .ctl .begin next, L, _, s, Q => Sat next L (some id) s Q
  | .ctl .commit next, L, w, s, Q => ∀ s', D.rely L s s' →
      D.guar L s' (w.getD id s') ∧ (∀ k ∈ L, D.inv k (w.getD id s')) ∧
        Sat next [] none (w.getD id s') Q
  | .ctl .rollback next, L, _, s, Q => ∀ s', D.rely L s s' →
      (∀ k ∈ L, D.inv k s') ∧ Sat next [] none s' Q
  | .ctl (.lock k) next, L, w, s, Q => ∀ s', D.rely L s s' → k ∉ L → D.inv k s' →
      D.drawn s' k ∧ Sat next (k :: L) w s' Q
  | .ctl (.claim k) next, L, w, s, Q => D.shared ∧ ∀ s', D.rely L s s' → k ∉ L →
      D.inv k s' → D.drawn s' k ∧ Sat next (k :: L) w s' Q
  | .ctl .release next, L, w, s, Q => ∀ s', D.rely L s s' →
      (∀ k ∈ L, D.inv k s') ∧ Sat next [] w s' Q

/-- A write that commutes with what the others do while the keys `L₀` are held, and with
the sequence, so that replaying it on a later state has the same effect. -/
structure Replayable (L₀ : List κ) (put : σ → σ) : Prop where
  mono : ∀ {L s s'}, L₀ ⊆ L → D.rely L s s' → D.rely L (put s) (put s')
  value : ∀ s, Sequence.value κ (put s) = Sequence.value κ s
  bump : ∀ s, put (Sequence.bump κ s) = Sequence.bump κ (put s)

/-- The judgement for a body inside brackets, about the view it sees.  With `tx` every
write must be replayable and keep the guarantee whenever it is replayed. -/
def Body (tx : Bool) : Proc σ κ ε α → List κ → σ → (Except ε α → List κ → σ → Prop) → Prop
  | .done a, L, v, Q => ∀ v', D.rely L v v' → Q (.ok a) L v'
  | .fail e, L, v, Q => ∀ v', D.rely L v v' → Q (.error e) L v'
  | .act put next, L, v, Q => ∀ v', D.rely L v v' →
      (tx = true → Replayable D L (put v')) ∧
      (∀ v'', D.rely L v' v'' → (tx = false → v'' = v') → D.guar L v'' (put v' v'')) ∧
      Body tx (next v') L (put v' v') Q
  | .draw next, L, v, Q => ∀ v', D.rely L v v' →
      let n := Sequence.value κ v'
      Body tx (next n) (Sequence.key σ n :: L) (Sequence.bump κ v') Q
  | .ctl (.lock k) next, L, v, Q => ∀ v', D.rely L v v' → k ∉ L → D.inv k v' →
      (∀ v'', D.drawn v'' k) ∧ Body tx next (k :: L) v' Q
  | .ctl _ _, _, _, _ => False

variable {D}

/-! ### Weakening and interference -/

theorem Sat.mono {p : Proc σ κ ε α} {L : List κ} {w : Option (σ → σ)} {s : σ}
    {Q Q' : Except ε α → List κ → Option (σ → σ) → σ → Prop}
    (h : Sat D p L w s Q) (hQ : ∀ r L w s, Q r L w s → Q' r L w s) : Sat D p L w s Q' := by
  induction p generalizing L w s with
  | done a => exact fun s' hs => hQ _ _ _ _ (h s' hs)
  | fail e => exact fun s' hs => hQ _ _ _ _ (h s' hs)
  | act put next ih =>
    cases w with
    | none => exact fun s' hs => ⟨(h s' hs).1, ih _ (h s' hs).2⟩
    | some w => exact fun s' hs => ih _ (h s' hs)
  | draw next ih => exact fun s' hs => ih _ (h s' hs)
  | ctl c next ih =>
    cases c with
    | begin => exact ih (s := s) h
    | commit => exact fun s' hs => ⟨(h s' hs).1, (h s' hs).2.1, ih (h s' hs).2.2⟩
    | rollback => exact fun s' hs => ⟨(h s' hs).1, ih (h s' hs).2⟩
    | lock k => exact fun s' hs hk hi => ⟨(h s' hs hk hi).1, ih (h s' hs hk hi).2⟩
    | claim k => exact ⟨h.1, fun s' hs hk hi => ⟨(h.2 s' hs hk hi).1, ih (h.2 s' hs hk hi).2⟩⟩
    | release => exact fun s' hs => ⟨(h s' hs).1, ih (h s' hs).2⟩

/-- The judgement survives what the others do. -/
theorem Sat.rely {p : Proc σ κ ε α} {L : List κ} {w : Option (σ → σ)} {s s' : σ}
    {Q : Except ε α → List κ → Option (σ → σ) → σ → Prop}
    (h : Sat D p L w s Q) (hr : D.rely L s s') : Sat D p L w s' Q := by
  induction p generalizing w s s' with
  | done a => exact fun t ht => h t (D.rely_trans hr ht)
  | fail e => exact fun t ht => h t (D.rely_trans hr ht)
  | act put next _ =>
    cases w with
    | none => exact fun t ht => h t (D.rely_trans hr ht)
    | some w => exact fun t ht => h t (D.rely_trans hr ht)
  | draw next _ => exact fun t ht => h t (D.rely_trans hr ht)
  | ctl c next ih =>
    cases c with
    | begin => exact ih (w := some id) h hr
    | commit => exact fun t ht => h t (D.rely_trans hr ht)
    | rollback => exact fun t ht => h t (D.rely_trans hr ht)
    | lock k => exact fun t ht => h t (D.rely_trans hr ht)
    | claim k => exact ⟨h.1, fun t ht => h.2 t (D.rely_trans hr ht)⟩
    | release => exact fun t ht => h t (D.rely_trans hr ht)

theorem Body.mono {tx : Bool} {p : Proc σ κ ε α} {L : List κ} {v : σ}
    {Q Q' : Except ε α → List κ → σ → Prop}
    (h : Body D tx p L v Q) (hQ : ∀ r L v, Q r L v → Q' r L v) : Body D tx p L v Q' := by
  induction p generalizing L v with
  | done a => exact fun v' hv => hQ _ _ _ (h v' hv)
  | fail e => exact fun v' hv => hQ _ _ _ (h v' hv)
  | act put next ih => exact fun v' hv => ⟨(h v' hv).1, (h v' hv).2.1, ih _ (h v' hv).2.2⟩
  | draw next ih => exact fun v' hv => ih _ (h v' hv)
  | ctl c next ih =>
    cases c with
    | lock k => exact fun v' hv hk hi => ⟨(h v' hv hk hi).1, ih (h v' hv hk hi).2⟩
    | _ => exact h

/-! ### Sequencing -/

/-- Run the first part, then the second from wherever the first ends. -/
theorem Sat.bind {p : Proc σ κ ε α} {f : α → Proc σ κ ε β} {L : List κ} {w : Option (σ → σ)}
    {s : σ} {Q : Except ε β → List κ → Option (σ → σ) → σ → Prop}
    (h : Sat D p L w s fun r L' w' s' => match r with
      | .ok a => Sat D (f a) L' w' s' Q
      | .error e => Q (.error e) L' w' s') : Sat D (p >>= f) L w s Q := by
  induction p generalizing L w s with
  | done a => exact h s (D.rely_refl L s)
  | fail e => exact fun s' hs => h s' hs
  | act put next ih =>
    cases w with
    | none => exact fun s' hs => ⟨(h s' hs).1, ih _ (h s' hs).2⟩
    | some w => exact fun s' hs => ih _ (h s' hs)
  | draw next ih => exact fun s' hs => ih _ (h s' hs)
  | ctl c next ih =>
    cases c with
    | begin => exact ih (w := some id) (s := s) h
    | commit => exact fun s' hs => ⟨(h s' hs).1, (h s' hs).2.1, ih (h s' hs).2.2⟩
    | rollback => exact fun s' hs => ⟨(h s' hs).1, ih (h s' hs).2⟩
    | lock k => exact fun s' hs hk hi => ⟨(h s' hs hk hi).1, ih (h s' hs hk hi).2⟩
    | claim k => exact ⟨h.1, fun s' hs hk hi => ⟨(h.2 s' hs hk hi).1, ih (h.2 s' hs hk hi).2⟩⟩
    | release => exact fun s' hs => ⟨(h s' hs).1, ih (h s' hs).2⟩

/-- The handler runs from wherever the error left the body. -/
theorem Sat.attempt {p : Proc σ κ ε α} {f : ε → Proc σ κ ε α} {L : List κ}
    {w : Option (σ → σ)} {s : σ} {Q : Except ε α → List κ → Option (σ → σ) → σ → Prop}
    (h : Sat D p L w s fun r L' w' s' => match r with
      | .ok a => Q (.ok a) L' w' s'
      | .error e => Sat D (f e) L' w' s' Q) : Sat D (p.attempt f) L w s Q := by
  induction p generalizing L w s with
  | done a => exact fun s' hs => h s' hs
  | fail e => exact h s (D.rely_refl L s)
  | act put next ih =>
    cases w with
    | none => exact fun s' hs => ⟨(h s' hs).1, ih _ (h s' hs).2⟩
    | some w => exact fun s' hs => ih _ (h s' hs)
  | draw next ih => exact fun s' hs => ih _ (h s' hs)
  | ctl c next ih =>
    cases c with
    | begin => exact ih (w := some id) (s := s) h
    | commit => exact fun s' hs => ⟨(h s' hs).1, (h s' hs).2.1, ih (h s' hs).2.2⟩
    | rollback => exact fun s' hs => ⟨(h s' hs).1, ih (h s' hs).2⟩
    | lock k => exact fun s' hs hk hi => ⟨(h s' hs hk hi).1, ih (h s' hs hk hi).2⟩
    | claim k => exact ⟨h.1, fun s' hs hk hi => ⟨(h.2 s' hs hk hi).1, ih (h.2 s' hs hk hi).2⟩⟩
    | release => exact fun s' hs => ⟨(h s' hs).1, ih (h s' hs).2⟩

theorem Body.bind {tx : Bool} {p : Proc σ κ ε α} {f : α → Proc σ κ ε β} {L : List κ} {v : σ}
    {Q : Except ε β → List κ → σ → Prop}
    (h : Body D tx p L v fun r L' v' => match r with
      | .ok a => Body D tx (f a) L' v' Q
      | .error e => Q (.error e) L' v') : Body D tx (p >>= f) L v Q := by
  induction p generalizing L v with
  | done a => exact h v (D.rely_refl L v)
  | fail e => exact fun v' hv => h v' hv
  | act put next ih => exact fun v' hv => ⟨(h v' hv).1, (h v' hv).2.1, ih _ (h v' hv).2.2⟩
  | draw next ih => exact fun v' hv => ih _ (h v' hv)
  | ctl c next ih =>
    cases c with
    | lock k => exact fun v' hv hk hi => ⟨(h v' hv hk hi).1, ih (h v' hv hk hi).2⟩
    | _ => exact h

/-! ### Reading and writing -/

/-- A read in a body returns something about a state the others may lead to. -/
theorem Body.read {tx : Bool} {f : σ → α} {L : List κ} {v : σ} {Q : Except ε α → List κ → σ → Prop}
    (h : ∀ v' v'', D.rely L v v' → D.rely L v' v'' → Q (.ok (f v')) L v'') :
    Body D tx (Proc.read f) L v Q :=
  fun v' hv => ⟨fun _ => ⟨fun _ hr => hr, fun _ => rfl, fun _ => rfl⟩,
    fun _ _ _ => D.guar_refl L _, fun v'' hv' => h v' v'' hv hv'⟩

/-- A statement of a body either fails and leaves everything as it was, or writes. -/
theorem Body.stmt {tx : Bool} {check : σ → Option ε} {write : σ → σ → σ} {L : List κ} {v : σ}
    {Q : Except ε Unit → List κ → σ → Prop}
    (herr : ∀ v' e, D.rely L v v' → check v' = some e → ∀ v'', D.rely L v' v'' → Q (.error e) L v'')
    (hok : ∀ v', D.rely L v v' → check v' = none →
      (tx = true → Replayable D L (write v')) ∧
      (∀ v'', D.rely L v' v'' → (tx = false → v'' = v') → D.guar L v'' (write v' v'')) ∧
      ∀ v'', D.rely L (write v' v') v'' → Q (.ok ()) L v'') :
    Body D tx (Proc.stmt check write) L v Q := by
  intro v' hv
  cases hc : check v' with
  | none =>
    obtain ⟨hr, hg, hq⟩ := hok v' hv hc
    simp only [hc, Option.isNone_none, if_true, Body]
    exact ⟨hr, hg, hq⟩
  | some e =>
    simp only [hc, Option.isNone_some, Bool.false_eq_true, if_false, Body]
    exact ⟨fun _ => ⟨fun _ hr => hr, fun _ => rfl, fun _ => rfl⟩,
      fun _ _ _ => D.guar_refl L _, herr v' e hv hc⟩

/-- A program that only reads ends in whatever interference can lead to. -/
theorem Sat.readOnly {p : Proc σ κ ε α} {L : List κ} {s : σ}
    {Q : Except ε α → List κ → Option (σ → σ) → σ → Prop} (hp : p.ReadOnly)
    (hQ : ∀ r s', D.rely L s s' → Q r L none s') : Sat D p L none s Q := by
  induction p generalizing s with
  | done a => exact fun s' hs => hQ _ s' hs
  | fail e => exact fun s' hs => hQ _ s' hs
  | act put next ih =>
    intro s' hs
    rw [hp.1 s' s']
    exact ⟨D.guar_refl L s', ih s' (hp.2 s') fun r t ht => hQ r t (D.rely_trans hs ht)⟩
  | draw next _ => exact hp.elim
  | ctl c next _ => exact hp.elim

end Valv.Conc
