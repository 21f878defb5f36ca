import Mathlib.Data.List.Basic
import Mathlib.Tactic.Common

/-!
# Tables with a key column

A table is a list of rows, `key` its key column.

* `lookup`: `SELECT … WHERE key = k LIMIT 1`.
* `update`: `UPDATE … SET … WHERE key = k`, for a change that leaves the key alone.
* `upsert`: `INSERT … ON CONFLICT (key) DO UPDATE`.
* `insertIfAbsent`: `INSERT … ON CONFLICT DO NOTHING`, for any number of rows.
* `lookup_update_self`, `lookup_update_ne`, `lookup_append`: how the statements compose.
-/

namespace Valv.Table

variable {α κ : Type} [DecidableEq κ] (key : α → κ)

/-- The first row with the key. -/
def lookup (k : κ) (t : List α) : Option α := t.find? fun r => key r = k

/-- Change the rows with the key. -/
def update (k : κ) (f : α → α) (t : List α) : List α :=
  t.map fun r => if key r = k then f r else r

/-- `INSERT … ON CONFLICT (key) DO UPDATE`: insert the row, or change the one that is there. -/
def upsert (r : α) (f : α → α) (t : List α) : List α :=
  if (lookup key (key r) t).isSome then update key (key r) f t else t ++ [r]

variable {key} {k j : κ} {f : α → α} {t u : List α} {r : α}

@[simp] theorem lookup_nil : lookup key k [] = none := rfl

theorem lookup_cons : lookup key k (r :: t) = if key r = k then some r else lookup key k t := by
  rw [lookup, List.find?_cons]
  by_cases h : key r = k <;> simp [h, lookup]

theorem lookup_key (h : lookup key k t = some r) : key r = k := by
  simpa using List.find?_some h

theorem mem_of_lookup (h : lookup key k t = some r) : r ∈ t := List.mem_of_find?_eq_some h

theorem lookup_eq_none : lookup key k t = none ↔ ∀ r ∈ t, key r ≠ k := by
  simp [lookup]

/-- Where the key is a primary key, every row is found by its key. -/
theorem lookup_of_mem (hnd : (t.map key).Nodup) (h : r ∈ t) : lookup key (key r) t = some r := by
  induction t with
  | nil => cases h
  | cons r' t ih =>
    rw [List.map_cons, List.nodup_cons] at hnd
    rw [lookup_cons]
    rcases List.mem_cons.mp h with rfl | h
    · rw [if_pos rfl]
    · have hne : key r' ≠ key r := fun e => hnd.1 (e ▸ List.mem_map_of_mem h)
      rw [if_neg hne]
      exact ih hnd.2 h

omit [DecidableEq κ] in
/-- A row with a new key. -/
theorem nodup_append (hnd : (t.map key).Nodup) (hr : ∀ r' ∈ t, key r' ≠ key r) : ((t ++ [r]).map key).Nodup := by
  rw [List.map_append, List.nodup_append]
  refine ⟨hnd, by simp, fun a ha b hb hab => ?_⟩
  obtain ⟨r', hr', rfl⟩ := List.mem_map.mp ha
  simp only [List.map_cons, List.map_nil, List.mem_singleton] at hb
  exact hr r' hr' (hab.trans hb)

theorem lookup_append : lookup key k (t ++ u) = (lookup key k t).or (lookup key k u) := by
  rw [lookup, List.find?_append]
  rfl

/-- Rows of other keys may go. -/
theorem lookup_filter {p : α → Bool} (h : ∀ r ∈ t, key r = k → p r) :
    lookup key k (t.filter p) = lookup key k t := by
  induction t with
  | nil => rfl
  | cons r t ih =>
    obtain ⟨hfirst, hrest⟩ := List.forall_mem_cons.mp h
    by_cases hr : key r = k
    · rw [List.filter_cons_of_pos (hfirst hr), lookup_cons, lookup_cons, if_pos hr, if_pos hr]
    · rw [lookup_cons, if_neg hr, ← ih hrest, List.filter_cons]
      split
      · rw [lookup_cons, if_neg hr]
      · rfl

/-- A change that keeps the key shows in the row it was made for. -/
theorem lookup_update_self (hf : ∀ r, key r = k → key (f r) = k) :
    lookup key k (update key k f t) = (lookup key k t).map f := by
  induction t with
  | nil => rfl
  | cons r t ih =>
    by_cases h : key r = k
    · simp only [update, List.map_cons, h, if_true, lookup_cons, hf r h, Option.map_some]
    · simp only [update, List.map_cons, h, if_false, lookup_cons]
      exact ih

/-- A change that keeps the key shows nowhere else. -/
theorem lookup_update_ne (hj : j ≠ k) (hf : ∀ r, key r = k → key (f r) = k) :
    lookup key j (update key k f t) = lookup key j t := by
  induction t with
  | nil => rfl
  | cons r t ih =>
    by_cases h : key r = k
    · have hne : key r ≠ j := fun e => hj (e.symm.trans h)
      have hne' : key (f r) ≠ j := fun e => hj (e.symm.trans (hf r h))
      simp only [update, List.map_cons, h, if_true, lookup_cons, hne', hj.symm, if_false]
      exact ih
    · simp only [update, List.map_cons, h, if_false, lookup_cons]
      rw [← update, ih]

theorem lookup_upsert_self (hf : ∀ r', key r' = key r → key (f r') = key r) :
    lookup key (key r) (upsert key r f t) = some (((lookup key (key r) t).map f).getD r) := by
  rw [upsert]
  cases h : lookup key (key r) t with
  | none =>
    rw [if_neg (by simp), lookup_append, h, lookup_cons, if_pos rfl]
    rfl
  | some r' =>
    rw [if_pos (by simp), lookup_update_self hf, h]
    rfl

/-- `INSERT OR REPLACE`. -/
theorem lookup_upsert_replace : lookup key (key r) (upsert key r (fun _ => r) t) = some r := by
  rw [lookup_upsert_self fun _ _ => rfl]
  cases lookup key (key r) t <;> rfl

theorem lookup_upsert_ne (hj : j ≠ key r) (hf : ∀ r', key r' = key r → key (f r') = key r) :
    lookup key j (upsert key r f t) = lookup key j t := by
  rw [upsert]
  split
  · exact lookup_update_ne hj hf
  · rw [lookup_append, lookup_cons, if_neg hj.symm, lookup_nil, Option.or_none]

/-- A row of an updated table is an old row, changed if it has the key. -/
theorem mem_update : r ∈ update key k f t ↔ ∃ r' ∈ t, r = if key r' = k then f r' else r' := by
  simp only [update, List.mem_map]
  constructor
  · rintro ⟨r', hr', rfl⟩
    exact ⟨r', hr', rfl⟩
  · rintro ⟨r', hr', rfl⟩
    exact ⟨r', hr', rfl⟩

/-- A row after an `upsert` is an old row, a changed one or the inserted one. -/
theorem mem_upsert {r' : α} (h : r' ∈ upsert key r f t) : r' ∈ t ∨ r' = r ∨ ∃ old ∈ t, r' = f old := by
  rw [upsert] at h
  split at h
  · obtain ⟨old, hold, rfl⟩ := mem_update.mp h
    split
    · exact .inr (.inr ⟨old, hold, rfl⟩)
    · exact .inl hold
  · rcases List.mem_append.mp h with h | h
    · exact .inl h
    · exact .inr (.inl (List.mem_singleton.mp h))

theorem map_key_update (hf : ∀ r, key r = k → key (f r) = k) :
    (update key k f t).map key = t.map key := by
  simp only [update, List.map_map]
  refine List.map_congr_left fun r _ => ?_
  by_cases h : key r = k <;> simp [h, hf]

/-- An `upsert` keeps a primary key. -/
theorem nodup_upsert (hf : ∀ r', key r' = key r → key (f r') = key r) (hnd : (t.map key).Nodup) :
    ((upsert key r f t).map key).Nodup := by
  rw [upsert]
  cases hold : lookup key (key r) t with
  | some old =>
    show ((update key (key r) f t).map key).Nodup
    rw [map_key_update hf]
    exact hnd
  | none =>
    show ((t ++ [r]).map key).Nodup
    exact nodup_append hnd (lookup_eq_none.1 hold)

/-! ### Rows that are not there yet -/

variable (key) in
/-- `INSERT … ON CONFLICT DO NOTHING`: the rows whose keys are not there, one after the other. -/
def insertIfAbsent (rows t : List α) : List α :=
  rows.foldl (fun t r => if (lookup key (key r) t).isSome then t else t ++ [r]) t

@[simp] theorem insertIfAbsent_nil : insertIfAbsent key [] t = t := rfl

theorem insertIfAbsent_cons : insertIfAbsent key (r :: u) t =
    insertIfAbsent key u (if (lookup key (key r) t).isSome then t else t ++ [r]) := rfl

theorem insertIfAbsent_append {v : List α} :
    insertIfAbsent key (u ++ v) t = insertIfAbsent key v (insertIfAbsent key u t) := by
  simp only [insertIfAbsent, List.foldl_append]

theorem isSome_lookup : (lookup key k t).isSome ↔ ∃ r ∈ t, key r = k := by
  simp [lookup]

/-- Rows that are there change nothing. -/
theorem insertIfAbsent_of_present (h : ∀ r ∈ u, r ∈ t) : insertIfAbsent key u t = t := by
  induction u with
  | nil => rfl
  | cons r u ih =>
    have hthere : (lookup key (key r) t).isSome := isSome_lookup.2 ⟨r, h r List.mem_cons_self, rfl⟩
    rw [insertIfAbsent_cons, if_pos hthere]
    exact ih fun r' hr' => h r' (List.mem_cons_of_mem r hr')

/-- The key stays a primary key. -/
theorem nodup_insertIfAbsent (hnd : (t.map key).Nodup) : ((insertIfAbsent key u t).map key).Nodup := by
  induction u generalizing t with
  | nil => exact hnd
  | cons r u ih =>
    rw [insertIfAbsent_cons]
    split
    · exact ih hnd
    · next habsent =>
      rw [isSome_lookup] at habsent
      exact ih (nodup_append hnd fun r' hr' he => habsent ⟨r', hr', he⟩)

/-- **The table afterwards**, where the key tells all rows there are from each other. -/
theorem mem_insertIfAbsent {S : α → Prop} (hkey : ∀ a b, S a → S b → key a = key b → a = b) (ht : ∀ a ∈ t, S a)
    (hu : ∀ a ∈ u, S a) : r ∈ insertIfAbsent key u t ↔ r ∈ t ∨ r ∈ u := by
  induction u generalizing t with
  | nil => simp
  | cons a u ih =>
    have ha : S a := hu a List.mem_cons_self
    have hrest : ∀ b ∈ u, S b := fun b hb => hu b (List.mem_cons_of_mem a hb)
    rw [insertIfAbsent_cons]
    split
    · next hthere =>
      obtain ⟨b, hb, he⟩ := isSome_lookup.1 hthere
      have hab : b = a := hkey b a (ht b hb) ha he
      rw [ih ht hrest, List.mem_cons]
      constructor
      · exact fun h => h.imp_right .inr
      · rintro (h | rfl | h)
        · exact .inl h
        · exact .inl (hab ▸ hb)
        · exact .inr h
    · have ht' : ∀ b ∈ t ++ [a], S b := by
        intro b hb
        rcases List.mem_append.1 hb with hb | hb
        · exact ht b hb
        · rw [List.mem_singleton.1 hb]
          exact ha
      rw [ih ht' hrest, List.mem_append, List.mem_singleton, List.mem_cons, or_assoc]

/-! ### Counting -/

/-- No row has the key. -/
theorem update_of_absent (h : ∀ r ∈ t, key r ≠ k) : update key k f t = t := by
  rw [update]
  conv_rhs => rw [← List.map_id t]
  refine List.map_congr_left fun r hr => ?_
  rw [if_neg (h r hr), id]

/-- A change that leaves the row with the key as it is leaves the table as it is. -/
theorem update_of_fixed (hnd : (t.map key).Nodup) (hr : lookup key k t = some r) (hf : f r = r) : update key k f t = t := by
  rw [update]
  conv_rhs => rw [← List.map_id t]
  refine List.map_congr_left fun a ha => ?_
  by_cases hk : key a = k
  · have hsame : lookup key (key a) t = some a := lookup_of_mem hnd ha
    rw [hk, hr, Option.some.injEq] at hsame
    rw [if_pos hk, ← hsame, hf, id]
  · rw [if_neg hk, id]

/-- **A count after an update**: the changed row is counted instead of the one that was there. -/
theorem countP_update (hnd : (t.map key).Nodup) (hr : lookup key k t = some r) (p : α → Bool) :
    (update key k f t).countP p + (if p r then 1 else 0) = t.countP p + if p (f r) then 1 else 0 := by
  induction t with
  | nil => cases hr
  | cons a t ih =>
    rw [List.map_cons, List.nodup_cons] at hnd
    rw [lookup_cons] at hr
    show ((if key a = k then f a else a) :: update key k f t).countP p + _ = _
    rw [List.countP_cons, List.countP_cons]
    by_cases ha : key a = k
    · rw [if_pos ha] at hr
      cases hr
      have habsent : ∀ b ∈ t, key b ≠ k := fun b hb hbk => hnd.1 (by rw [ha, ← hbk]; exact List.mem_map_of_mem hb)
      rw [if_pos ha, update_of_absent habsent]
      omega
    · rw [if_neg ha] at hr
      have hrest := ih hnd.2 hr
      rw [if_neg ha]
      omega

end Valv.Table
