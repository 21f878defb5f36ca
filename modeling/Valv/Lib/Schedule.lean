import Valv.Lib.Owned

/-!
# Brackets and schedules

* `Body.direct` / `Body.deferred`: the statements of a body, on the shared state or held
  back until a commit.
* `Sat.unprotected` / `Sat.transaction`: the judgement for a body in its brackets.
* `Pool.Sound.step` / `Pool.Sound.run`: what one scheduled statement, and a whole schedule,
  preserves.
-/

namespace Valv.Conc

variable {σ κ ε α β : Type} [Sequence σ κ] {D : Discipline σ κ}

theorem Discipline.rely_nil : ∀ {L : List κ} {s s' : σ}, D.rely L s s' → D.rely [] s s'
  | [], _, _, h => h
  | _ :: _, _, _, h => Discipline.rely_nil (D.rely_cons h)

/-- Taking a value out of the sequence disturbs nobody. -/
theorem Discipline.rely_bump (L : List κ) (s : σ) : D.rely L s (Sequence.bump κ s) :=
  D.guar_rely (L := []) (by simp [List.Disjoint]) (D.bump_guar [] s)

/-! ### Bodies on the shared state -/

/-- A body whose statements take effect one by one. -/
theorem Body.direct {p : Proc σ κ ε α} {L : List κ} {v : σ} {Q : Except ε α → List κ → σ → Prop}
    (h : Body D false p L v Q) : Sat D p L none v fun r L' w s => w = none ∧ Q r L' s := by
  induction p generalizing L v with
  | done a => exact fun s hs => ⟨rfl, h s hs⟩
  | fail e => exact fun s hs => ⟨rfl, h s hs⟩
  | act put next ih =>
    intro s hs
    obtain ⟨-, hg, hn⟩ := h s hs
    exact ⟨hg s (D.rely_refl L s) fun _ => rfl, ih s hn⟩
  | draw next ih => exact fun s hs => ih _ (h s hs)
  | ctl c next ih =>
    cases c with
    | lock k =>
      intro s hs hk hi
      obtain ⟨hd, hn⟩ := h s hs hk hi
      exact ⟨hd s, ih hn⟩
    | _ => exact h.elim

/-! ### Bodies held back until the commit -/

/-- A write that may be replayed while `L` is held may be replayed while more is held. -/
theorem Replayable.cons {L : List κ} {put : σ → σ} (h : Replayable D L put) (k : κ) :
    Replayable D (k :: L) put :=
  ⟨fun hL => h.mono fun _ hj => hL (List.mem_cons_of_mem k hj), h.value, h.bump⟩

/-- The uncommitted writes `w` on top of the shared state show the view `v`, from the
shared state `s` on. -/
structure Tracks (D : Discipline σ κ) (w : σ → σ) (L : List κ) (s v : σ) : Prop where
  view : ∀ s', D.rely L s s' → D.rely L v (w s')
  guar : ∀ s', D.rely L s s' → D.guar L s' (w s')
  replay : Replayable D L w
  inv : ∀ k ∈ L, D.inv k s

namespace Tracks

variable {w : σ → σ} {L : List κ} {s s' v : σ}

theorem start (s : σ) : Tracks D id [] s s where
  view _ hs := hs
  guar s' _ := D.guar_refl _ s'
  replay := ⟨fun _ h => h, fun _ => rfl, fun _ => rfl⟩
  inv := by simp

theorem rely (h : Tracks D w L s v) (hs : D.rely L s s') : Tracks D w L s' (w s') where
  view _ ht := h.replay.mono (List.Subset.refl L) ht
  guar _ ht := h.guar _ (D.rely_trans hs ht)
  replay := h.replay
  inv k hk := D.inv_rely hk hs (h.inv k hk)

/-- One more write on top of the uncommitted ones. -/
theorem put {q : σ → σ} (h : Tracks D w L s v) (hq : Replayable D L q)
    (hg : ∀ v', D.rely L v v' → D.guar L v' (q v')) :
    Tracks D (fun x => q (w x)) L s (q v) where
  view _ ht := hq.mono (List.Subset.refl L) (h.view _ ht)
  guar s' ht := D.guar_trans (h.guar s' ht) (hg _ (h.view s' ht))
  replay :=
    ⟨fun hL ht => hq.mono hL (h.replay.mono hL ht), fun x => (hq.value _).trans (h.replay.value x),
      fun x => by rw [h.replay.bump, hq.bump]⟩
  inv := h.inv

/-- A draw moves the shared state and the view together. -/
theorem draw (h : Tracks D w L s v) (hs : D.rely L s s') :
    Tracks D w (Sequence.key σ (Sequence.value κ s') :: L) (Sequence.bump κ s')
      (Sequence.bump κ (w s')) where
  view t ht := by
    rw [← h.replay.bump]
    exact h.replay.mono (List.subset_cons_self _ L) ht
  guar t ht := D.guar_cons (h.guar t (D.rely_trans (D.rely_trans hs (D.rely_bump L s')) (D.rely_cons ht)))
  replay := h.replay.cons _
  inv k hk := by
    rcases List.mem_cons.mp hk with rfl | hk
    · exact D.inv_key _ _
    · exact D.inv_rely hk (D.rely_trans hs (D.rely_bump L s')) (h.inv k hk)

theorem lock {k : κ} (h : Tracks D w L s v) (hi : D.inv k s) (hv : v = w s) :
    Tracks D w (k :: L) s v where
  view t ht := by
    rw [hv]
    exact h.replay.mono (List.subset_cons_self _ L) ht
  guar t ht := D.guar_cons (h.guar t (D.rely_cons ht))
  replay := h.replay.cons k
  inv j hj := by
    rcases List.mem_cons.mp hj with rfl | hj
    · exact hi
    · exact h.inv j hj

end Tracks

/-- A body whose writes are held back: the view it sees follows the shared state. -/
theorem Body.deferred {p : Proc σ κ ε α} {L : List κ} {w : σ → σ} {s v : σ}
    {Q : Except ε α → List κ → σ → Prop} (h : Body D true p L v Q) (ht : Tracks D w L s v) :
    Sat D p L (some w) s fun r L' w' s' =>
      ∃ u v', w' = some u ∧ Tracks D u L' s' v' ∧ Q r L' v' := by
  induction p generalizing L w s v with
  | done a => exact fun s' hs => ⟨w, w s', rfl, ht.rely hs, h _ (ht.view s' hs)⟩
  | fail e => exact fun s' hs => ⟨w, w s', rfl, ht.rely hs, h _ (ht.view s' hs)⟩
  | act put next ih =>
    intro s' hs
    obtain ⟨hr, hg, hn⟩ := h _ (ht.view s' hs)
    exact ih _ hn ((ht.rely hs).put (hr rfl) fun v' hv => hg v' hv (by simp))
  | draw next ih =>
    intro s' hs
    have hn := h _ (ht.view s' hs)
    simp only [ht.replay.value] at hn
    exact ih _ hn (ht.draw hs)
  | ctl c next ih =>
    cases c with
    | lock k =>
      intro s' hs hk hi
      have hv : D.inv k (w s') := D.inv_guar hk (ht.guar s' hs) hi
      obtain ⟨hd, hn⟩ := h _ (ht.view s' hs) hk hv
      exact ⟨hd s', ih hn ((ht.rely hs).lock hi rfl)⟩
    | _ => exact h.elim

/-! ### The two kinds of brackets -/

/-- A body that runs statement by statement between a claim and its release. -/
theorem Sat.unprotected {k : κ} {body : Proc σ κ ε α} {s : σ} {Q : α → σ → Prop}
    (hsh : D.shared)
    (hstable : ∀ a s s', D.rely [] s s' → Q a s → Q a s') (hd : ∀ s, D.drawn s k)
    (h : ∀ s', D.rely [] s s' → D.inv k s' → Body D false body [k] s' fun r L v =>
      (∀ j ∈ L, D.inv j v) ∧ ∀ a, r = .ok a → Q a v) :
    Sat D (Proc.unprotected k body) [] none s fun r L w s' =>
      L = [] ∧ w = none ∧ ∀ a, r = .ok a → Q a s' := by
  refine ⟨hsh, fun s' hs _ hi => ?_⟩
  refine ⟨hd s', Sat.bind (Sat.attempt ((h s' hs hi).direct.mono ?_))⟩
  rintro (e | a) L w t ⟨rfl, hinv, hq⟩
  · intro u hu
    exact ⟨fun j hj => D.inv_rely hj hu (hinv j hj), fun x _ => ⟨rfl, rfl, by simp⟩⟩
  · intro u hu
    refine ⟨fun j hj => D.inv_rely hj hu (hinv j hj), fun x hx => ⟨rfl, rfl, ?_⟩⟩
    rintro b ⟨⟩
    exact hstable a t x (D.rely_trans (Discipline.rely_nil hu) hx) (hq a rfl)

/-- A body inside a transaction. -/
theorem Sat.transaction {body : Proc σ κ ε α} {s : σ} {Q : α → σ → Prop}
    (hstable : ∀ a s s', D.rely [] s s' → Q a s → Q a s')
    (h : Body D true body [] s fun r L v =>
      ∀ a, r = .ok a → (∀ j ∈ L, D.inv j v) ∧ Q a v) :
    Sat D (Proc.transaction body) [] none s fun r L w s' =>
      L = [] ∧ w = none ∧ ∀ a, r = .ok a → Q a s' := by
  refine Sat.bind (Sat.attempt ((h.deferred (Tracks.start s)).mono ?_))
  rintro (e | a) L w t ⟨u, v, rfl, ht, hq⟩
  · intro x hx
    exact ⟨fun j hj => D.inv_rely hj hx (ht.inv j hj), fun y _ => ⟨rfl, rfl, by simp⟩⟩
  · obtain ⟨hinv, hqa⟩ := hq a rfl
    intro x hx
    have hv := ht.view x hx
    refine ⟨ht.guar x hx, fun j hj => D.inv_rely hj hv (hinv j hj), fun y hy => ⟨rfl, rfl, ?_⟩⟩
    rintro b ⟨⟩
    exact hstable a v y (D.rely_trans (Discipline.rely_nil hv) hy) hqa

/-! ### One statement of a thread -/

/-- What one statement of a thread does: it keeps the judgement and the guarantee, its new
keys were free or fresh, and the keys it gives back satisfy their invariant. -/
theorem Sat.step {t t' : Thread σ κ ε α} {s s' : σ} {busy : κ → Bool}
    {Q : Except ε α → List κ → Option (σ → σ) → σ → Prop}
    (h : Sat D t.prog t.held t.pending s Q) (hs : t.step busy s = some (s', t'))
    (hfree : ∀ k, busy k = false → k ∉ t.held ∧ D.inv k s)
    (hclaim : D.shared → ∀ k, t.claims = some k → busy k = false) :
    Sat D t'.prog t'.held t'.pending s' Q ∧ D.guar t.held s s' ∧
      (∀ k ∈ t'.held, k ∈ t.held ∨ (busy k = false ∧ D.drawn s k) ∨
        (¬ D.drawn s k ∧ D.drawn s' k)) ∧
      (∀ k ∈ t.held, k ∉ t'.held → D.inv k s') := by
  obtain ⟨prog, held, pending⟩ := t
  have hr := D.rely_refl held s
  cases prog with
  | done a => simp [Thread.step] at hs
  | fail e => simp [Thread.step] at hs
  | act put next =>
    cases pending with
    | none =>
      simp only [Thread.step, Option.some.injEq, Prod.mk.injEq] at hs
      obtain ⟨rfl, rfl⟩ := hs
      exact ⟨(h s hr).2, (h s hr).1, fun k hk => .inl hk, fun k hk hn => (hn hk).elim⟩
    | some w =>
      simp only [Thread.step, Option.some.injEq, Prod.mk.injEq] at hs
      obtain ⟨rfl, rfl⟩ := hs
      exact ⟨h s hr, D.guar_refl _ s, fun k hk => .inl hk, fun k hk hn => (hn hk).elim⟩
  | draw next =>
    simp only [Thread.step, Option.some.injEq, Prod.mk.injEq] at hs
    obtain ⟨rfl, rfl⟩ := hs
    refine ⟨h s hr, D.bump_guar _ s, fun k hk => ?_, fun k hk hn => (hn (by simp [hk])).elim⟩
    rcases List.mem_cons.mp hk with rfl | hk
    · exact .inr (.inr ⟨D.bump_fresh s, D.bump_drawn s⟩)
    · exact .inl hk
  | ctl c next =>
    cases c with
    | begin =>
      simp only [Thread.step, Option.some.injEq, Prod.mk.injEq] at hs
      obtain ⟨rfl, rfl⟩ := hs
      exact ⟨h, D.guar_refl _ s, fun k hk => .inl hk, fun k hk hn => (hn hk).elim⟩
    | commit =>
      simp only [Thread.step, Option.some.injEq, Prod.mk.injEq] at hs
      obtain ⟨rfl, rfl⟩ := hs
      exact ⟨(h s hr).2.2, (h s hr).1, by simp, fun k hk _ => (h s hr).2.1 k hk⟩
    | rollback =>
      simp only [Thread.step, Option.some.injEq, Prod.mk.injEq] at hs
      obtain ⟨rfl, rfl⟩ := hs
      exact ⟨(h s hr).2, D.guar_refl _ s, by simp, fun k hk _ => (h s hr).1 k hk⟩
    | release =>
      simp only [Thread.step, Option.some.injEq, Prod.mk.injEq] at hs
      obtain ⟨rfl, rfl⟩ := hs
      exact ⟨(h s hr).2, D.guar_refl _ s, by simp, fun k hk _ => (h s hr).1 k hk⟩
    | lock k =>
      simp only [Thread.step] at hs
      split at hs
      · cases hs
      · rename_i hb
        rw [Bool.not_eq_true] at hb
        simp only [Option.some.injEq, Prod.mk.injEq] at hs
        obtain ⟨rfl, rfl⟩ := hs
        obtain ⟨hd, hn⟩ := h s hr (hfree k hb).1 (hfree k hb).2
        refine ⟨hn, D.guar_refl _ s, fun j hj => ?_, fun j hj hn => (hn (by simp [hj])).elim⟩
        rcases List.mem_cons.mp hj with rfl | hj
        · exact .inr (.inl ⟨hb, hd⟩)
        · exact .inl hj
    | claim k =>
      simp only [Thread.step, Option.some.injEq, Prod.mk.injEq] at hs
      obtain ⟨rfl, rfl⟩ := hs
      have hb := hclaim h.1 k rfl
      obtain ⟨hd, hn⟩ := h.2 s hr (hfree k hb).1 (hfree k hb).2
      refine ⟨hn, D.guar_refl _ s, fun j hj => ?_, fun j hj hn => (hn (by simp [hj])).elim⟩
      rcases List.mem_cons.mp hj with rfl | hj
      · exact .inr (.inl ⟨hb, hd⟩)
      · exact .inl hj

/-! ### Pools -/

namespace Pool

variable [DecidableEq κ]

omit [Sequence σ κ] in
theorem busy_of_held {p : Pool σ κ ε α} {i : ℕ} {t : Thread σ κ ε α} {k : κ}
    (ht : p.threads[i]? = some t) (hk : k ∈ t.held) : p.busy k = true := by
  rw [busy, List.any_eq_true]
  exact ⟨t, List.mem_of_getElem? ht, by simpa using hk⟩

/-- A step of the pool is a step of one of its threads. -/
theorem step_cases {p p' : Pool σ κ ε α} {i : ℕ} (h : p.step i = some p') :
    ∃ t t' s', p.threads[i]? = some t ∧ t.step p.busy p.state = some (s', t') ∧
      p' = { state := s', threads := p.threads.set i t' } := by
  rw [step] at h
  cases ht : p.threads[i]? with
  | none => simp [ht] at h
  | some t =>
    cases hs : t.step p.busy p.state with
    | none => simp [ht, hs] at h
    | some st =>
      obtain ⟨s', t'⟩ := st
      simp only [ht, hs, Option.some.injEq] at h
      exact ⟨t, t', s', rfl, hs, h.symm⟩

/-! ### Pools without transactions -/

/-- No thread is in a transaction, and every statement still to come satisfies `R`. -/
def AllDirect (R : σ → σ → Prop) (p : Pool σ κ ε α) : Prop :=
  ∀ t ∈ p.threads, t.prog.Direct R ∧ t.pending = none

/-- One scheduled statement satisfies `R`, or leaves the state as it is. -/
theorem AllDirect.step {R : σ → σ → Prop} (hR : ∀ s, R s s) {p p' : Pool σ κ ε α} {i : ℕ}
    (h : AllDirect R p) (hs : p.step i = some p') : AllDirect R p' ∧ R p.state p'.state := by
  obtain ⟨t, t', s', ht, hst, rfl⟩ := step_cases hs
  obtain ⟨hp, hpend⟩ := h t (List.mem_of_getElem? ht)
  have hone : (t'.prog.Direct R ∧ t'.pending = none) ∧ R p.state s' := by
    obtain ⟨prog, held, pending⟩ := t
    subst hpend
    cases prog with
    | done a => simp [Thread.step] at hst
    | fail e => simp [Thread.step] at hst
    | act put next =>
      simp only [Thread.step, Option.some.injEq, Prod.mk.injEq] at hst
      obtain ⟨rfl, rfl⟩ := hst
      exact ⟨⟨hp.2 p.state, rfl⟩, hp.1 p.state⟩
    | draw next =>
      simp only [Thread.step, Option.some.injEq, Prod.mk.injEq] at hst
      obtain ⟨rfl, rfl⟩ := hst
      exact ⟨⟨hp.2 _, rfl⟩, hp.1 p.state⟩
    | ctl c next =>
      cases c with
      | begin => exact hp.elim
      | commit => exact hp.elim
      | rollback => exact hp.elim
      | lock k =>
        simp only [Thread.step] at hst
        split at hst
        · cases hst
        · simp only [Option.some.injEq, Prod.mk.injEq] at hst
          obtain ⟨rfl, rfl⟩ := hst
          exact ⟨⟨hp, rfl⟩, hR _⟩
      | claim k =>
        simp only [Thread.step, Option.some.injEq, Prod.mk.injEq] at hst
        obtain ⟨rfl, rfl⟩ := hst
        exact ⟨⟨hp, rfl⟩, hR _⟩
      | release =>
        simp only [Thread.step, Option.some.injEq, Prod.mk.injEq] at hst
        obtain ⟨rfl, rfl⟩ := hst
        exact ⟨⟨hp, rfl⟩, hR _⟩
  refine ⟨fun u hu => ?_, hone.2⟩
  rcases List.mem_or_eq_of_mem_set hu with hu | rfl
  · exact h u hu
  · exact hone.1

/-- Every thread satisfies its judgement at the current state, the keys held are disjoint
and were drawn, and the keys nobody holds satisfy their invariant. -/
structure Sound (D : Discipline σ κ)
    (Q : ℕ → Except ε α → List κ → Option (σ → σ) → σ → Prop) (p : Pool σ κ ε α) : Prop where
  sat : ∀ (i : ℕ) (t : Thread σ κ ε α), p.threads[i]? = some t → Sat D t.prog t.held t.pending p.state (Q i)
  disjoint : ∀ (i j : ℕ) (t u : Thread σ κ ε α), i ≠ j → p.threads[i]? = some t → p.threads[j]? = some u →
    t.held.Disjoint u.held
  drawn : ∀ (i : ℕ) (t : Thread σ κ ε α), p.threads[i]? = some t → ∀ k ∈ t.held, D.drawn p.state k
  free : ∀ k, p.busy k = false → D.inv k p.state

variable {Q : ℕ → Except ε α → List κ → Option (σ → σ) → σ → Prop}

omit [Sequence σ κ] [DecidableEq κ] in
theorem getElem?_set_cases {ts : List (Thread σ κ ε α)} {i j : ℕ} {t' u : Thread σ κ ε α}
    (h : (ts.set i t')[j]? = some u) : (i = j ∧ u = t') ∨ (i ≠ j ∧ ts[j]? = some u) := by
  by_cases hij : i = j
  · subst hij
    obtain ⟨hlt, hu⟩ := List.getElem?_eq_some_iff.mp h
    rw [List.getElem_set_self] at hu
    exact .inl ⟨rfl, hu.symm⟩
  · rw [List.getElem?_set_ne hij] at h
    exact .inr ⟨hij, h⟩

/-- **One scheduled statement** keeps every judgement and every free key's invariant. -/
theorem Sound.step {p p' : Pool σ κ ε α} {i : ℕ} (h : Sound D Q p)
    (hex : D.shared → p.Exclusive i) (hs : p.step i = some p') :
    Sound D Q p' ∧ ∃ t, p.threads[i]? = some t ∧ D.guar t.held p.state p'.state := by
  obtain ⟨t, t', s', ht, hst, rfl⟩ := step_cases hs
  have hfree : ∀ k, p.busy k = false → k ∉ t.held ∧ D.inv k p.state := fun k hk =>
    ⟨fun hmem => by simp [busy_of_held ht hmem] at hk, h.free k hk⟩
  obtain ⟨hsat, hguar, hnew, hback⟩ :=
    (h.sat i t ht).step hst hfree fun hsh k hk => (hex hsh).free ht hk
  have hother : ∀ j u, i ≠ j → p.threads[j]? = some u → D.rely u.held p.state s' :=
    fun j u hij hu => D.guar_rely (h.disjoint i j t u hij ht hu) hguar
  -- a key the thread has just taken is in nobody else's hands
  have hapart : ∀ j u, i ≠ j → p.threads[j]? = some u → t'.held.Disjoint u.held := by
    intro j u hij hu k hk hku
    rcases hnew k hk with hold | ⟨hb, -⟩ | ⟨hd, -⟩
    · exact h.disjoint i j t u hij ht hu hold hku
    · simp [busy_of_held hu hku] at hb
    · exact hd (h.drawn j u hu k hku)
  refine ⟨⟨?_, ?_, ?_, ?_⟩, t, ht, hguar⟩
  · intro j u hu
    rcases getElem?_set_cases hu with ⟨rfl, rfl⟩ | ⟨hij, hu⟩
    · exact hsat
    · exact (h.sat j u hu).rely (hother j u hij hu)
  · intro j l u v hjl hu hv
    rcases getElem?_set_cases hu with ⟨rfl, rfl⟩ | ⟨hij, hu'⟩
    · rcases getElem?_set_cases hv with ⟨rfl, rfl⟩ | ⟨hil, hv'⟩
      · exact absurd rfl hjl
      · exact hapart l v hil hv'
    · rcases getElem?_set_cases hv with ⟨rfl, rfl⟩ | ⟨hil, hv'⟩
      · exact fun k hk hku => hapart j u hij hu' hku hk
      · exact h.disjoint j l u v hjl hu' hv'
  · intro j u hu k hk
    rcases getElem?_set_cases hu with ⟨rfl, rfl⟩ | ⟨hij, hu⟩
    · rcases hnew k hk with hold | ⟨-, hd⟩ | ⟨-, hd⟩
      · exact D.drawn_guar hguar (h.drawn i t ht k hold)
      · exact D.drawn_guar hguar hd
      · exact hd
    · exact D.drawn_guar hguar (h.drawn j u hu k hk)
  · intro k hk
    by_cases hkt : k ∈ t.held
    · refine hback k hkt fun hkt' => ?_
      have hlt : i < p.threads.length := (List.getElem?_eq_some_iff.mp ht).1
      have hset : (p.threads.set i t')[i]? = some t' := by simp [hlt]
      simp [busy_of_held (p := { state := s', threads := p.threads.set i t' }) hset hkt'] at hk
    · -- nobody held the key before the step either
      refine D.inv_guar hkt hguar (h.free k ?_)
      rw [← Bool.not_eq_true]
      intro hb
      rw [busy, List.any_eq_true] at hb
      obtain ⟨u, hu, hku⟩ := hb
      obtain ⟨j, hj⟩ := List.mem_iff_getElem?.mp hu
      have hij : i ≠ j := by
        rintro rfl
        rw [ht, Option.some.injEq] at hj
        subst hj
        exact hkt (by simpa using hku)
      have hset : (p.threads.set i t')[j]? = some u := by rw [List.getElem?_set_ne hij]; exact hj
      simp [busy_of_held (p := { state := s', threads := p.threads.set i t' }) hset
        (by simpa using hku)] at hk

/-- **A whole schedule.**  Threads that satisfy their judgements go on doing so along every
schedule whose unprotected sections do not overlap. -/
theorem Sound.run {p : Pool σ κ ε α} (h : Sound D Q p) {is : List ℕ}
    (hex : D.shared → Along Exclusive p is) : Sound D Q (p.run is) := by
  have hok : Along (fun p i => D.shared → p.Exclusive i) p is := by
    by_cases hsh : D.shared
    · exact Run.Along.mono (hex hsh) fun _ _ hi _ => hi
    · exact Run.Along.of_forall (fun _ _ hi => absurd hi hsh) is p
  exact Run.run_invariant (fun _ _ _ hp hi hs => (hp.step hi hs).1) h hok

/-- A pool that has just been started. -/
theorem Sound.start {s : σ} {progs : List (Proc σ κ ε α)} (hinv : ∀ k, D.inv k s)
    (hsat : ∀ i prog, progs[i]? = some prog → Sat D prog [] none s (Q i)) :
    Sound D Q (Pool.start s progs) where
  sat i t ht := by
    simp only [Pool.start, List.getElem?_map, Option.map_eq_some_iff] at ht
    obtain ⟨prog, hp, rfl⟩ := ht
    exact hsat i prog hp
  disjoint i j t u _ ht _ := by
    simp only [Pool.start, List.getElem?_map, Option.map_eq_some_iff] at ht
    obtain ⟨prog, -, rfl⟩ := ht
    simp [List.Disjoint]
  drawn i t ht := by
    simp only [Pool.start, List.getElem?_map, Option.map_eq_some_iff] at ht
    obtain ⟨prog, -, rfl⟩ := ht
    simp
  free k _ := hinv k

/-- A thread that has returned has its postcondition. -/
theorem Sound.result {p : Pool σ κ ε α} (h : Sound D Q p) {i : ℕ} {t : Thread σ κ ε α}
    {r : Except ε α} (ht : p.threads[i]? = some t) (hr : t.result = some r) :
    Q i r t.held t.pending p.state := by
  have hsat := h.sat i t ht
  obtain ⟨prog, held, pending⟩ := t
  cases prog with
  | done a =>
    simp only [Thread.result, Option.some.injEq] at hr
    subst hr
    exact hsat _ (D.rely_refl _ _)
  | fail e =>
    simp only [Thread.result, Option.some.injEq] at hr
    subst hr
    exact hsat _ (D.rely_refl _ _)
  | _ => simp [Thread.result] at hr

end Pool

end Valv.Conc
