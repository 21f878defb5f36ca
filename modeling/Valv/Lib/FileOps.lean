import Mathlib.Data.List.Induction
import Valv.Lib.Files

/-!
# Changes of a disk

What the calls of a file system make of a disk, and what stands where afterwards.

* `Disk.mkdir`, `Disk.create`, `Disk.rename`, `Disk.unlink`, `Disk.removeTree`: the calls; nothing when they fail.
* `Disk.spare`: what a removal that fails can leave.
* `lstat_eq_some_iff`: an entry stands at a path when directories lead to it.
* `lstat_mkdir`, `lstat_create`, `lstat_rename`, `lstat_unlink`, `lstat_removeTree`: what stands at each path
  after a call.
* `Disk.LinksClosed`: what is found behind a link lies below what is found; `present_left`, `present_write`.
-/

namespace Valv.Files

namespace Disk

variable {φ : Type} (d : Disk φ)

/-- Nothing is left at or below `p`. -/
def prune (p : Path) : Disk φ := { entries := d.entries.filter fun x => !p.isPrefixOf x.1 }

/-- The entry stands at `p`, with nothing below it. -/
def put (p : Path) (e : Entry φ) : Disk φ := { entries := (p, e) :: (d.prune p).entries }

/-- Where the path is after `p` has become `q`. -/
def moved (p q r : Path) : Path := if p.isPrefixOf r then q ++ r.drop p.length else r

/-- What was at or below `p` is at or below `q`, in place of what was there. -/
def move (p q : Path) : Disk φ := { entries := (d.prune q).entries.map fun x => (moved p q x.1, x.2) }

/-- Directories lead to `p`. -/
def leads (p : Path) : Bool := p = [] || d.isDir p.dropLast

/-- `mkdir`, which does not mind a directory that is there. -/
def mkdir (p : Path) : Option (Disk φ) :=
  if !d.leads p then none
  else match d.entry p with
    | none => some (d.put p .dir)
    | some .dir => some d
    | some _ => none

/-- A file is created, or the file that is there gets these data. -/
def create (p : Path) (data : φ) : Option (Disk φ) :=
  if !d.leads p then none
  else match d.entry p with
    | none => some (d.put p (.file data))
    | some (.file _) => some (d.put p (.file data))
    | some _ => none

/-- `e` can take the place of what is at `q`: a directory that of an empty one, another entry that of another. -/
def replaceable (e : Entry φ) (q : Path) : Bool :=
  match d.entry q with
  | none => true
  | some .dir => e.isDir && (d.names q).isEmpty
  | some _ => !e.isDir

/-- `rename`. -/
def rename (p q : Path) : Option (Disk φ) :=
  match d.lstat p with
  | none => none
  | some e =>
    if p = q then some d
    else if p.isPrefixOf q || q.isPrefixOf p || !d.leads q || !d.replaceable e q then none
    else some (d.move p q)

/-- `unlink`. -/
def unlink (p : Path) : Option (Disk φ) :=
  match d.lstat p with
  | none => none
  | some .dir => none
  | some _ => some (d.prune p)

/-- A directory goes with all that is in it, a link without what is behind it. -/
def removeTree (p : Path) : Option (Disk φ) :=
  match d.lstat p with
  | some .dir => some (d.prune p)
  | some (.symlink _) => some (d.prune p)
  | _ => none

/-- Of what is below `p`, only these are left. -/
def spare (p : Path) (spared : Path → Bool) : Disk φ :=
  { entries := d.entries.filter fun x => !p.isPrefixOf x.1 || x.1 = p || spared x.1 }

end Disk

section Lemmas

variable {φ : Type} {d d' : Disk φ} {p q r : Path} {e : Entry φ} {n : String}

/-! ### Entries -/

theorem entry_prune : (d.prune p).entry r = if p <+: r then none else d.entry r := by
  rw [Disk.entry, Disk.prune, List.find?_filter]
  split
  · next h =>
    have hnone : d.entries.find? (fun x => decide ((!p.isPrefixOf x.1) = true ∧ decide (x.1 = r) = true)) = none := by
      rw [List.find?_eq_none]
      intro x _ hx
      rw [decide_eq_true_eq, decide_eq_true_eq] at hx
      rw [hx.2, List.isPrefixOf_iff_prefix.mpr h] at hx
      exact Bool.false_ne_true hx.1
    rw [hnone]
    rfl
  · next h =>
    have hsame : (fun x : Path × Entry φ => decide ((!p.isPrefixOf x.1) = true ∧ decide (x.1 = r) = true)) =
        fun x => decide (x.1 = r) := by
      funext x
      by_cases hx : x.1 = r
      · have hnot : p.isPrefixOf r = false := by
          rw [Bool.eq_false_iff]
          exact fun hp => h (List.isPrefixOf_iff_prefix.mp hp)
        simp [hx, hnot]
      · simp [hx]
    rw [hsame]
    rfl

theorem entry_put : (d.put p e).entry r = if r = p then some e else if p <+: r then none else d.entry r := by
  rw [← entry_prune]
  by_cases h : r = p
  · rw [if_pos h, Disk.entry, Disk.put, List.find?_cons_of_pos (by simpa using h.symm)]
    rfl
  · have hne : ¬ p = r := fun hp => h hp.symm
    rw [if_neg h, Disk.entry, Disk.put, List.find?_cons_of_neg (by simpa using hne)]
    rfl

theorem moved_append (p q r : Path) : Disk.moved p q (p ++ r) = q ++ r := by
  rw [Disk.moved, if_pos (List.isPrefixOf_iff_prefix.mpr (List.prefix_append p r)), List.drop_left]

theorem moved_of_not (h : ¬ p <+: r) : Disk.moved p q r = r := by
  rw [Disk.moved, if_neg fun hp => h (List.isPrefixOf_iff_prefix.mp hp)]

/-- An entry is found where exactly one entry from before is moved to. -/
theorem entry_move_of_unique {t : Path} (h : ∀ s : Path, (¬ q <+: s ∧ Disk.moved p q s = r) ↔ s = t) :
    (d.move p q).entry r = d.entry t := by
  rw [Disk.entry, Disk.move, List.find?_map, Disk.prune, List.find?_filter, Option.map_map, Disk.entry]
  show Option.map Prod.snd _ = _
  congr 2
  funext x
  have hnot : (!q.isPrefixOf x.1) = true ↔ ¬ q <+: x.1 := by
    rw [← List.isPrefixOf_iff_prefix, Bool.not_eq_true', Bool.not_eq_true]
  rw [decide_eq_decide, ← h x.1, hnot]
  simp

/-- What is moved is found below the new path. -/
theorem entry_move (hpq : ¬ p <+: q) (hqp : ¬ q <+: p) : (d.move p q).entry r =
    if q <+: r then d.entry (p ++ r.drop q.length) else if p <+: r then none else d.entry r := by
  by_cases hq : q <+: r
  · rw [if_pos hq]
    obtain ⟨t, rfl⟩ := hq
    rw [List.drop_left]
    refine entry_move_of_unique fun s => ?_
    constructor
    · rintro ⟨hs, hmoved⟩
      by_cases hp : p <+: s
      · obtain ⟨u, rfl⟩ := hp
        rw [moved_append, List.append_cancel_left_eq] at hmoved
        rw [hmoved]
      · rw [moved_of_not hp] at hmoved
        exact absurd (hmoved ▸ List.prefix_append q t) hs
    · rintro rfl
      refine ⟨fun hs => ?_, moved_append p q t⟩
      -- two prefixes of one path
      exact (List.prefix_or_prefix_of_prefix hs (List.prefix_append p t)).elim hqp hpq
  rw [if_neg hq]
  by_cases hp : p <+: r
  · rw [if_pos hp, Option.eq_none_iff_forall_ne_some]
    intro e he
    have hsome : ((d.move p q).entry r).isSome := by rw [he]; rfl
    obtain ⟨x, hx, hxr⟩ := entry_isSome_iff.mp hsome
    obtain ⟨y, -, rfl⟩ := List.mem_map.mp hx
    by_cases hy : p <+: y.1
    · obtain ⟨u, hu⟩ := hy
      have hxr : Disk.moved p q y.1 = r := hxr
      rw [← hu, moved_append] at hxr
      exact hq (hxr ▸ List.prefix_append q u)
    · have hxr : Disk.moved p q y.1 = r := hxr
      rw [moved_of_not hy] at hxr
      exact hy (hxr ▸ hp)
  · rw [if_neg hp]
    refine entry_move_of_unique fun s => ?_
    constructor
    · rintro ⟨-, hmoved⟩
      by_cases hs : p <+: s
      · obtain ⟨u, rfl⟩ := hs
        rw [moved_append] at hmoved
        exact absurd (hmoved ▸ List.prefix_append q u) hq
      · rwa [moved_of_not hs] at hmoved
    · rintro rfl
      exact ⟨hq, moved_of_not hp⟩

/-! ### What stands at a path -/

/-- **What stands at a path** is its entry, when the ways to it are directories. -/
theorem lstat_eq_some_iff : d.lstat p = some e ↔ d.entry p = some e ∧ ∀ r, r <+: p → r ≠ p → d.entry r = some .dir := by
  induction p using List.reverseRecOn generalizing e with
  | nil =>
    rw [Disk.lstat, Disk.lstatFrom]
    exact ⟨fun h => ⟨h, fun r hr hne => absurd (List.prefix_nil.mp hr) hne⟩, fun h => h.1⟩
  | append_singleton p n ih =>
    have hdir : d.isDir p = true ↔ ∀ r, r <+: p → d.entry r = some .dir := by
      rw [Disk.isDir, Option.any_eq_true]
      constructor
      · rintro ⟨x, hx, hxdir⟩
        have hxd : x = .dir := by cases x <;> first | rfl | cases hxdir
        rw [hxd] at hx
        obtain ⟨hp, hall⟩ := ih.mp hx
        intro r hr
        by_cases hrp : r = p
        · exact hrp ▸ hp
        · exact hall r hr hrp
      · intro h
        exact ⟨.dir, ih.mpr ⟨h p List.prefix_rfl, fun r hr _ => h r hr⟩, rfl⟩
    rw [lstat_append]
    constructor
    · intro h
      split at h
      · next hp =>
        refine ⟨h, fun r hr hne => ?_⟩
        rcases List.prefix_concat_iff.mp hr with rfl | hr
        · exact absurd rfl hne
        · exact hdir.mp hp r hr
      · cases h
    · rintro ⟨hentry, hall⟩
      have hp : d.isDir p = true := hdir.mpr fun r hr => by
        refine hall r (hr.trans (List.prefix_append p [n])) fun he => ?_
        have hlen := hr.length_le
        rw [he, List.length_append, List.length_singleton] at hlen
        omega
      rw [if_pos hp]
      exact hentry

theorem isDir_eq : d.isDir p = true ↔ d.lstat p = some .dir := by
  rw [Disk.isDir, Option.any_eq_true]
  constructor
  · rintro ⟨x, hx, hdir⟩
    cases x with
    | dir => exact hx
    | file data => cases hdir
    | symlink behind => cases hdir
    | other => cases hdir
  · exact fun h => ⟨.dir, h, rfl⟩

theorem leads_iff : d.leads p = true ↔ ∀ r, r <+: p → r ≠ p → d.entry r = some .dir := by
  rw [Disk.leads, Bool.or_eq_true, decide_eq_true_eq]
  rcases List.eq_nil_or_concat p with rfl | ⟨s, n, rfl⟩
  · exact ⟨fun _ r hr hne => absurd (List.prefix_nil.mp hr) hne, fun _ => .inl rfl⟩
  rw [List.concat_eq_append, List.dropLast_concat, isDir_eq, lstat_eq_some_iff]
  constructor
  · rintro (h | ⟨hs, hall⟩)
    · simp at h
    · intro r hr hne
      rcases List.prefix_concat_iff.mp hr with rfl | hr
      · exact absurd rfl hne
      · by_cases hrs : r = s
        · exact hrs ▸ hs
        · exact hall r hr hrs
  · intro h
    have hbelow : ∀ r, r <+: s → d.entry r = some .dir := fun r hr => by
      refine h r (hr.trans (List.prefix_append s [n])) fun he => ?_
      have hlen := hr.length_le
      rw [he, List.length_append, List.length_singleton] at hlen
      omega
    exact .inr ⟨hbelow s List.prefix_rfl, fun r hr _ => hbelow r hr⟩

/-- Where directories lead to a path, its entry stands there. -/
theorem lstat_of_leads (h : d.leads p = true) : d.lstat p = d.entry p := by
  ext x
  rw [lstat_eq_some_iff]
  exact ⟨fun hx => hx.1, fun hx => ⟨hx, leads_iff.mp h⟩⟩

theorem leads_of_lstat (h : d.lstat p = some e) : d.leads p = true := leads_iff.mpr (lstat_eq_some_iff.mp h).2

/-- Above what stands somewhere there are directories. -/
theorem lstat_above (h : d.lstat p = some e) (hq : q <+: p) (hne : q ≠ p) : d.lstat q = some .dir := by
  have hall := (lstat_eq_some_iff.mp h).2
  refine lstat_eq_some_iff.mpr ⟨hall q hq hne, fun r hr hrq => hall r (hr.trans hq) fun he => ?_⟩
  rw [he] at hr
  exact hrq (he.trans (hq.eq_of_length_le hr.length_le).symm)

/-- Below what is no directory there is nothing. -/
theorem lstat_below (h : d.lstat p ≠ some .dir) (hp : p <+: q) (hne : q ≠ p) : d.lstat q = none := by
  rw [Option.eq_none_iff_forall_ne_some]
  intro x hx
  exact h (lstat_above hx hp hne.symm)

/-- Something that is no link is found where it stands. -/
theorem present_of_lstat (h : d.lstat p = some e) (he : e.isSymlink = false) : d.present p = true := by
  rcases List.eq_nil_or_concat p with rfl | ⟨s, n, rfl⟩
  · have hentry : d.entry [] = some e := h
    rw [Disk.present, Disk.presentFrom, hentry]
    cases e with
    | dir => rfl
    | file data => rfl
    | symlink behind => cases he
    | other => rfl
  rw [List.concat_eq_append] at h ⊢
  have hs : d.lstat s = some .dir := by
    refine lstat_above h (List.prefix_append s [n]) fun hs => ?_
    simpa using congrArg List.length hs
  have hdir : (d.lstatFrom [] s).any Entry.isDir = true := isDir_eq.mpr hs
  have hdirs : d.entry ([] ++ s) = some .dir := (lstat_eq_some_iff.mp hs).1
  have hentry : d.entry ([] ++ s ++ [n]) = some e := (lstat_eq_some_iff.mp h).1
  rw [Disk.present, presentFrom_append [] hdir, Disk.presentFrom, hdirs]
  dsimp only
  rw [Disk.presentFrom, hentry]
  cases e with
  | dir => rfl
  | file data => rfl
  | symlink behind => cases he
  | other => rfl

/-- Where there are no links, what is found at a path stands there. -/
theorem lstat_of_present (hlinks : ∀ s behind, d.lstat s ≠ some (.symlink behind)) (h : d.present p = true) :
    (d.lstat p).isSome := by
  have hfrom : ∀ (q r : Path), d.leads r = true → d.presentFrom r q = true → (d.lstatFrom r q).isSome := by
    intro q
    induction q with
    | nil =>
      intro r hr h
      rw [Disk.presentFrom] at h
      rw [Disk.lstatFrom]
      cases he : d.entry r with
      | none =>
        rw [he] at h
        cases h
      | some e => rfl
    | cons n q ih =>
      intro r hr h
      rw [Disk.presentFrom] at h
      rw [Disk.lstatFrom]
      cases he : d.entry r with
      | none =>
        rw [he] at h
        cases h
      | some e =>
        rw [he] at h
        have hstands : d.lstat r = some e := (lstat_of_leads hr).trans he
        cases e with
        | dir =>
          refine ih (r ++ [n]) ?_ h
          rw [Disk.leads, List.dropLast_concat, isDir_eq.mpr hstands, Bool.or_true]
        | file data => cases h
        | symlink behind => exact absurd hstands (hlinks r behind)
        | other => cases h
  exact hfrom p [] rfl h

/-! ### After a call -/

theorem lstat_prune : (d.prune p).lstat r = if p <+: r then none else d.lstat r := by
  ext x
  rw [lstat_eq_some_iff]
  split
  · next h => simp [entry_prune, h]
  · next h =>
    rw [entry_prune, if_neg h, lstat_eq_some_iff]
    have hsame : ∀ s, s <+: r → (d.prune p).entry s = d.entry s := fun s hs => by
      rw [entry_prune, if_neg fun hp => h (hp.trans hs)]
    constructor
    · exact fun hx => ⟨hx.1, fun s hs hne => hsame s hs ▸ hx.2 s hs hne⟩
    · exact fun hx => ⟨hx.1, fun s hs hne => (hsame s hs).symm ▸ hx.2 s hs hne⟩

theorem not_prefix_of_proper (hr : r <+: p) (hne : r ≠ p) : ¬ p <+: r := fun h =>
  hne (hr.eq_of_length_le h.length_le)

/-- An entry that is put where no directory is. -/
theorem lstat_put (hleads : d.leads p = true) (hentry : d.entry p ≠ some .dir) :
    (d.put p e).lstat r = if r = p then some e else d.lstat r := by
  have habove : ∀ s, s <+: p → s ≠ p → (d.put p e).entry s = d.entry s := fun s hs hne => by
    rw [entry_put, if_neg hne, if_neg (not_prefix_of_proper hs hne)]
  split
  · next h =>
    subst h
    rw [lstat_eq_some_iff, entry_put, if_pos rfl]
    exact ⟨rfl, fun s hs hne => (habove s hs hne).trans (leads_iff.mp hleads s hs hne)⟩
  · next h =>
    by_cases hp : p <+: r
    · -- below what is put, and before below what was no directory
      have hbefore : d.lstat r = none := by
        refine lstat_below (fun hd => hentry (lstat_eq_some_iff.mp hd).1) hp h
      rw [hbefore, Option.eq_none_iff_forall_ne_some]
      intro x hx
      have hnone : (d.put p e).entry r = none := by rw [entry_put, if_neg h, if_pos hp]
      rw [(lstat_eq_some_iff.mp hx).1] at hnone
      cases hnone
    · have hsame : ∀ s, s <+: r → (d.put p e).entry s = d.entry s := fun s hs => by
        have hne : s ≠ p := fun he => hp (he ▸ hs)
        rw [entry_put, if_neg hne, if_neg fun hps => hp (hps.trans hs)]
      ext x
      rw [lstat_eq_some_iff, lstat_eq_some_iff, hsame r List.prefix_rfl]
      constructor
      · exact fun hx => ⟨hx.1, fun s hs hne => hsame s hs ▸ hx.2 s hs hne⟩
      · exact fun hx => ⟨hx.1, fun s hs hne => (hsame s hs).symm ▸ hx.2 s hs hne⟩

/-- What is moved stands below the new path. -/
theorem lstat_move (hpq : ¬ p <+: q) (hqp : ¬ q <+: p) (hp : d.leads p = true) (hq : d.leads q = true) :
    (d.move p q).lstat r =
      if q <+: r then d.lstat (p ++ r.drop q.length) else if p <+: r then none else d.lstat r := by
  have hentry := fun s => entry_move (d := d) (r := s) hpq hqp
  by_cases hr : q <+: r
  · rw [if_pos hr]
    obtain ⟨t, rfl⟩ := hr
    rw [List.drop_left]
    have hbelow : ∀ u, (d.move p q).entry (q ++ u) = d.entry (p ++ u) := fun u => by
      rw [hentry, if_pos (List.prefix_append q u), List.drop_left]
    ext x
    rw [lstat_eq_some_iff, lstat_eq_some_iff, hbelow]
    refine and_congr_right fun _ => ⟨fun h s hs hne => ?_, fun h s hs hne => ?_⟩
    · rcases List.prefix_or_prefix_of_prefix hs (List.prefix_append p t) with hsp | ⟨u, rfl⟩
      · by_cases he : s = p
        · have hq' := h q (List.prefix_append q t) fun he' => hne (by
            have ht : t = [] := List.self_eq_append_right.mp he'
            rw [he, ht, List.append_nil])
          have hb := hbelow []
          rw [List.append_nil, List.append_nil] at hb
          exact he ▸ hb ▸ hq'
        · exact leads_iff.mp hp s hsp he
      · have hu := h (q ++ u) (List.prefix_append_right_inj q |>.mpr (List.prefix_append_right_inj p |>.mp hs))
          fun he => hne (by rw [List.append_cancel_left he])
        rwa [hbelow] at hu
    · rcases List.prefix_or_prefix_of_prefix hs (List.prefix_append q t) with hsq | ⟨u, rfl⟩
      · by_cases he : s = q
        · have hp' := h p (List.prefix_append p t) fun he' => hne (by
            have ht : t = [] := List.self_eq_append_right.mp he'
            rw [he, ht, List.append_nil])
          have hb := hbelow []
          rw [List.append_nil, List.append_nil] at hb
          rw [he, hb]
          exact hp'
        · rw [hentry, if_neg (not_prefix_of_proper hsq he), if_neg fun hps => hpq (hps.trans hsq)]
          exact leads_iff.mp hq s hsq he
      · have hu := h (p ++ u) (List.prefix_append_right_inj p |>.mpr (List.prefix_append_right_inj q |>.mp hs))
          fun he => hne (by rw [List.append_cancel_left he])
        rwa [hbelow]
  · rw [if_neg hr]
    split
    · next hpr =>
      rw [Option.eq_none_iff_forall_ne_some]
      intro x hx
      have hnone := hentry r
      rw [if_neg hr, if_pos hpr, (lstat_eq_some_iff.mp hx).1] at hnone
      cases hnone
    · next hpr =>
      have hsame : ∀ s, s <+: r → (d.move p q).entry s = d.entry s := fun s hs => by
        rw [hentry, if_neg fun h => hr (h.trans hs), if_neg fun h => hpr (h.trans hs)]
      ext x
      rw [lstat_eq_some_iff, lstat_eq_some_iff, hsame r List.prefix_rfl]
      constructor
      · exact fun hx => ⟨hx.1, fun s hs hne => hsame s hs ▸ hx.2 s hs hne⟩
      · exact fun hx => ⟨hx.1, fun s hs hne => (hsame s hs).symm ▸ hx.2 s hs hne⟩

/-- **A directory more**, or none. -/
theorem lstat_mkdir (h : d.mkdir p = some d') :
    (d'.lstat r = if r = p then some .dir else d.lstat r) ∧ (d.lstat p = none ∨ d' = d) := by
  rw [Disk.mkdir] at h
  split at h
  · cases h
  · next hleads =>
    have hleads : d.leads p = true := by simpa using hleads
    split at h
    · next hentry =>
      cases h
      refine ⟨lstat_put hleads (by rw [hentry]; exact Option.some_ne_none _ |>.symm), .inl ?_⟩
      rw [lstat_of_leads hleads, hentry]
    · next hentry =>
      cases h
      refine ⟨?_, .inr rfl⟩
      split
      · next hr => rw [hr, lstat_of_leads hleads, hentry]
      · rfl
    · cases h

/-- **A file** with these data, and nothing else. -/
theorem lstat_create {data : φ} (h : d.create p data = some d') :
    (d'.lstat r = if r = p then some (.file data) else d.lstat r) ∧
      (d.lstat p = none ∨ ∃ old, d.lstat p = some (.file old)) := by
  rw [Disk.create] at h
  split at h
  · cases h
  · next hleads =>
    have hleads : d.leads p = true := by simpa using hleads
    have hat := lstat_of_leads hleads
    split at h
    · next hentry =>
      cases h
      exact ⟨lstat_put hleads (by rw [hentry]; exact Option.some_ne_none _ |>.symm), .inl (hat.trans hentry)⟩
    · next old hentry =>
      cases h
      refine ⟨lstat_put hleads (by rw [hentry]; exact fun he => by cases he), .inr ⟨old, hat.trans hentry⟩⟩
    · cases h

/-- A file that is there gets new data. -/
theorem create_of_file {old data : φ} (h : d.lstat p = some (.file old)) : ∃ d', d.create p data = some d' := by
  have hleads := leads_of_lstat h
  rw [lstat_of_leads hleads] at h
  refine ⟨d.put p (.file data), ?_⟩
  rw [Disk.create, hleads, h]
  rfl

/-- **What is renamed** stands below the new path. -/
theorem lstat_rename (h : d.rename p q = some d') :
    d'.lstat r = if q <+: r then d.lstat (p ++ r.drop q.length) else if p <+: r then none else d.lstat r := by
  rw [Disk.rename] at h
  split at h
  · cases h
  · next e he =>
    split at h
    · next hpq =>
      cases h
      subst hpq
      split
      · next hr =>
        obtain ⟨t, rfl⟩ := hr
        rw [List.drop_left]
      · rfl
    · split at h
      · cases h
      · next hguard =>
        cases h
        simp only [Bool.or_eq_true, not_or, Bool.not_eq_true', Bool.not_eq_false] at hguard
        obtain ⟨⟨⟨hpq, hqp⟩, hleads⟩, -⟩ := hguard
        exact lstat_move (fun hp => hpq (List.isPrefixOf_iff_prefix.mpr hp))
          (fun hq => hqp (List.isPrefixOf_iff_prefix.mpr hq)) (leads_of_lstat he) hleads

theorem lstat_unlink (h : d.unlink p = some d') : d'.lstat r = if r = p then none else d.lstat r := by
  rw [Disk.unlink] at h
  split at h
  · cases h
  · cases h
  · next e hdir he =>
    cases h
    rw [lstat_prune]
    by_cases hr : r = p
    · rw [if_pos hr, if_pos (hr ▸ List.prefix_rfl)]
    · rw [if_neg hr]
      split
      · next hp =>
        refine (lstat_below (fun hd => ?_) hp hr).symm
        rw [he] at hd
        exact hdir (Option.some.inj hd)
      · rfl

theorem lstat_removeTree (h : d.removeTree p = some d') : d'.lstat r = if p <+: r then none else d.lstat r := by
  rw [Disk.removeTree] at h
  split at h
  · cases h
    exact lstat_prune
  · cases h
    exact lstat_prune
  · cases h

theorem entry_spare {spared : Path → Bool} : (d.spare p spared).entry r =
    if !p.isPrefixOf r || r = p || spared r then d.entry r else none := by
  rw [Disk.entry, Disk.spare, List.find?_filter]
  split
  · next h =>
    have hsame : (fun x : Path × Entry φ => decide
        ((!p.isPrefixOf x.1 || x.1 = p || spared x.1) = true ∧ decide (x.1 = r) = true)) = fun x => decide (x.1 = r) := by
      funext x
      by_cases hx : x.1 = r
      · rw [hx, h]
        simp
      · simp [hx]
    rw [hsame]
    rfl
  · next h =>
    have hnone : d.entries.find? (fun x => decide
        ((!p.isPrefixOf x.1 || x.1 = p || spared x.1) = true ∧ decide (x.1 = r) = true)) = none := by
      rw [List.find?_eq_none]
      intro x _ hx
      rw [decide_eq_true_eq, decide_eq_true_eq] at hx
      rw [hx.2] at hx
      exact h hx.1
    rw [hnone]
    rfl

/-- What is left where some entries are gone stood there before. -/
theorem lstat_of_spare {spared : Path → Bool} (h : (d.spare p spared).lstat r = some e) : d.lstat r = some e := by
  have hentry : ∀ s x, (d.spare p spared).entry s = some x → d.entry s = some x := fun s x hx => by
    rw [entry_spare] at hx
    split at hx
    · exact hx
    · cases hx
  obtain ⟨hr, habove⟩ := lstat_eq_some_iff.mp h
  exact lstat_eq_some_iff.mpr ⟨hentry r e hr, fun s hs hne => hentry s .dir (habove s hs hne)⟩

/-- Elsewhere nothing is gone. -/
theorem lstat_spare {spared : Path → Bool} (h : ¬ p <+: r) : (d.spare p spared).lstat r = d.lstat r := by
  have hsame : ∀ s, s <+: r → (d.spare p spared).entry s = d.entry s := fun s hs => by
    have hnot : p.isPrefixOf s = false := by
      rw [Bool.eq_false_iff]
      exact fun hp => h ((List.isPrefixOf_iff_prefix.mp hp).trans hs)
    rw [entry_spare, hnot, Bool.not_false, Bool.true_or, Bool.true_or, if_pos rfl]
  ext x
  rw [lstat_eq_some_iff, lstat_eq_some_iff, hsame r List.prefix_rfl]
  constructor
  · exact fun hx => ⟨hx.1, fun s hs hne => hsame s hs ▸ hx.2 s hs hne⟩
  · exact fun hx => ⟨hx.1, fun s hs hne => (hsame s hs).symm ▸ hx.2 s hs hne⟩

/-! ### What is found -/

/-- What is found behind a link lies below what is found there. -/
def Disk.LinksClosed (d : Disk φ) : Prop :=
  ∀ p behind, (p, Entry.symlink behind) ∈ d.entries → ∀ q r, behind (q ++ r) = true → behind q = true

theorem mem_of_entry (h : d.entry p = some e) : (p, e) ∈ d.entries := by
  obtain ⟨x, hx, rfl⟩ := Option.map_eq_some_iff.mp h
  have hpath : x.1 = p := by simpa using List.find?_some hx
  rw [← hpath]
  exact List.mem_of_find?_eq_some hx

/-- What is found lies below what is found. -/
theorem present_left (hlinks : d.LinksClosed) (h : d.present (p ++ q) = true) : d.present p = true := by
  have hfrom : ∀ (p r : Path), d.presentFrom r (p ++ q) = true → d.presentFrom r p = true := by
    intro p
    induction p with
    | nil =>
      intro r hr
      cases q with
      | nil => exact hr
      | cons n q =>
        rw [List.nil_append, Disk.presentFrom] at hr
        rw [Disk.presentFrom]
        cases he : d.entry r with
        | none =>
          rw [he] at hr
          cases hr
        | some e =>
          rw [he] at hr
          cases e with
          | symlink behind => exact hlinks r behind (mem_of_entry he) [] (n :: q) hr
          | dir => rfl
          | file data => rfl
          | other => rfl
    | cons n p ih =>
      intro r hr
      rw [List.cons_append, Disk.presentFrom] at hr
      rw [Disk.presentFrom]
      cases he : d.entry r with
      | none =>
        rw [he] at hr
        cases hr
      | some e =>
        rw [he] at hr
        cases e with
        | dir => exact ih (r ++ [n]) hr
        | symlink behind => exact hlinks r behind (mem_of_entry he) (n :: p) q hr
        | file data => cases hr
        | other => cases hr
  exact hfrom p [] h

theorem entry_write {data : φ} : (d.write p data).entry r = if r = p then some (.file data) else d.entry r := by
  rw [Disk.entry, Disk.write]
  by_cases h : r = p
  · rw [if_pos h, List.find?_cons_of_pos (by simpa using h.symm)]
    rfl
  · rw [if_neg h, List.find?_cons_of_neg (by simpa using fun he : p = r => h he.symm), List.find?_filter, Disk.entry]
    congr 2
    funext x
    by_cases hx : x.1 = r
    · simp [hx, h]
    · simp [hx]

/-- A file that is written where no directory is. -/
theorem lstat_write {data : φ} (hleads : d.leads p = true) (hentry : d.entry p ≠ some .dir) :
    (d.write p data).lstat r = if r = p then some (.file data) else d.lstat r := by
  have habove : ∀ s, s ≠ p → (d.write p data).entry s = d.entry s := fun s hne => by
    rw [entry_write, if_neg hne]
  by_cases h : r = p
  · subst h
    rw [if_pos rfl, lstat_eq_some_iff, entry_write, if_pos rfl]
    exact ⟨rfl, fun s hs hne => (habove s hne).trans (leads_iff.mp hleads s hs hne)⟩
  · rw [if_neg h]
    ext x
    rw [lstat_eq_some_iff, lstat_eq_some_iff, habove r h]
    refine and_congr_right fun _ => forall_congr' fun s => forall_congr' fun hs => forall_congr' fun hne => ?_
    by_cases hsp : s = p
    · -- neither the file nor what it is written over is a directory
      subst hsp
      rw [entry_write, if_pos rfl]
      exact ⟨fun he => absurd (Option.some.inj he) nofun, fun he => absurd he hentry⟩
    · rw [habove s hsp]

/-- Where nothing is found there is nothing, or a link that leads nowhere. -/
theorem entry_of_absent (hleads : d.leads p = true) (h : d.present p = false) :
    d.entry p = none ∨ ∃ behind, d.entry p = some (.symlink behind) ∧ behind [] = false := by
  have hfrom : d.presentFrom p [] = false := by
    rcases List.eq_nil_or_concat p with rfl | ⟨s, n, rfl⟩
    · exact h
    rw [List.concat_eq_append] at h hleads ⊢
    have hs : d.isDir s = true := by
      refine isDir_eq.mpr (lstat_eq_some_iff.mpr ?_)
      have hall := leads_iff.mp hleads
      have hbelow : ∀ q, q <+: s → d.entry q = some .dir := fun q hq => by
        refine hall q (hq.trans (List.prefix_append s [n])) fun he => ?_
        have hlength := hq.length_le
        rw [he, List.length_append, List.length_singleton] at hlength
        omega
      exact ⟨hbelow s List.prefix_rfl, fun q hq _ => hbelow q hq⟩
    rw [Disk.present, presentFrom_append [] hs, List.nil_append, Disk.presentFrom,
      (lstat_eq_some_iff.mp (isDir_eq.mp hs)).1] at h
    exact h
  rw [Disk.presentFrom] at hfrom
  cases he : d.entry p with
  | none => exact .inl rfl
  | some e =>
    rw [he] at hfrom
    cases e with
    | symlink behind => exact .inr ⟨behind, rfl, hfrom⟩
    | dir => cases hfrom
    | file data => cases hfrom
    | other => cases hfrom

/-- What was found is found after a file has been written where nothing was. -/
theorem present_write {data : φ} (hlinks : d.LinksClosed) (hleads : d.leads p = true) (habsent : d.present p = false)
    (h : d.present q = true) : (d.write p data).present q = true := by
  have hentry := entry_of_absent hleads habsent
  have hfrom : ∀ (q r : Path), d.presentFrom r q = true → (d.write p data).presentFrom r q = true := by
    intro q
    induction q with
    | nil =>
      intro r hr
      rw [Disk.presentFrom] at hr ⊢
      rw [entry_write]
      by_cases hrp : r = p
      · rw [if_pos hrp]
      · rw [if_neg hrp]
        exact hr
    | cons n q ih =>
      intro r hr
      rw [Disk.presentFrom] at hr ⊢
      by_cases hrp : r = p
      · subst hrp
        rcases hentry with hnone | ⟨behind, hlink, hnowhere⟩
        · rw [hnone] at hr
          cases hr
        · rw [hlink] at hr
          rw [hlinks r behind (mem_of_entry hlink) [] (n :: q) hr] at hnowhere
          cases hnowhere
      · rw [entry_write, if_neg hrp]
        cases he : d.entry r with
        | none =>
          rw [he] at hr
          cases hr
        | some e =>
          rw [he] at hr
          cases e with
          | dir => exact ih (r ++ [n]) hr
          | symlink behind => exact hr
          | file data => cases hr
          | other => cases hr
  exact hfrom q [] h

/-- What is found after a file has been written was found before, or is the file. -/
theorem present_of_write {data : φ} (h : (d.write p data).present q = true) : d.present q = true ∨ q = p := by
  have hfrom : ∀ (q r : Path), (d.write p data).presentFrom r q = true → d.presentFrom r q = true ∨ r ++ q = p := by
    intro q
    induction q with
    | nil =>
      intro r hr
      by_cases hrp : r = p
      · exact .inr (by rw [List.append_nil, hrp])
      · rw [Disk.presentFrom, entry_write, if_neg hrp] at hr
        rw [Disk.presentFrom]
        exact .inl hr
    | cons n q ih =>
      intro r hr
      by_cases hrp : r = p
      · rw [Disk.presentFrom, entry_write, if_pos hrp] at hr
        cases hr
      · rw [Disk.presentFrom, entry_write, if_neg hrp] at hr
        rw [Disk.presentFrom]
        cases he : d.entry r with
        | none =>
          rw [he] at hr
          cases hr
        | some e =>
          rw [he] at hr
          cases e with
          | dir =>
            have hbelow := ih (r ++ [n]) hr
            rwa [List.append_assoc] at hbelow
          | symlink behind => exact .inl hr
          | file data => cases hr
          | other => cases hr
  exact hfrom q [] h

end Lemmas

end Valv.Files
