import Mathlib.Data.List.Infix
import Mathlib.Data.List.Nodup
import Mathlib.Tactic.Common

/-!
# Search and replacement in texts

Texts over any alphabet; occurrences are taken from the left and do not overlap.  Of the characters of Unicode only
white space is told apart.

* `Apart`: no occurrence of a pattern begins in a word.
* `find`: where a pattern first occurs.
* `replaceAll`: every occurrence replaced.
* `replaceAll_flatMap`: in a text of words that are the pattern or apart from it, the words are replaced.
* `EscapeTable`: characters with a name each, and the marker that names begin with.
* `EscapeTable.unescape_escape`: names put in and taken out again one after the other.
* `isWhitespace`, `isBlank`: the white space of Unicode, and texts of nothing else.
-/

namespace Valv.Text

/-! ### White space -/

/-- Unicode's `White_Space`. -/
def isWhitespace (c : Char) : Bool :=
  let n := c.toNat
  9 ≤ n && n ≤ 13 || 0x2000 ≤ n && n ≤ 0x200A ||
    n ∈ [0x20, 0x85, 0xA0, 0x1680, 0x2028, 0x2029, 0x202F, 0x205F, 0x3000]

/-- Nothing is left of the text when the white space at both ends is taken away. -/
def isBlank (s : String) : Bool := s.toList.all isWhitespace

variable {α : Type}

/-! ### Words apart -/

/-- No occurrence of the pattern begins in the word, whatever comes behind it. -/
def Apart (pat word : List α) : Prop :=
  ∀ before after rest, word = before ++ after → after ≠ [] → ¬ pat <+: after ++ rest

theorem Apart.append {pat word word' : List α} (h : Apart pat word) (h' : Apart pat word') :
    Apart pat (word ++ word') := by
  intro before after rest hsplit hne
  rcases List.append_eq_append_iff.mp hsplit with ⟨middle, -, hafter⟩ | ⟨middle, hword, rfl⟩
  · exact h' middle after rest hafter hne
  · by_cases hmiddle : middle = []
    · rw [hmiddle, List.nil_append] at hne ⊢
      exact h' [] word' rest rfl hne
    · rw [List.append_assoc]
      exact h before middle (word' ++ rest) hword hmiddle

/-- A word has no occurrence of a pattern when only its first character can begin one, and the two differ. -/
theorem apart_of_incomparable {a b : α} {t word : List α} (ht : a ∉ word) (hpat : ¬ a :: t <+: b :: word)
    (hword : ¬ b :: word <+: a :: t) : Apart (a :: t) (b :: word) := by
  intro before after rest hsplit hne hpre
  cases before with
  | nil =>
    rw [List.nil_append] at hsplit
    subst hsplit
    exact (List.prefix_or_prefix_of_prefix hpre (List.prefix_append (b :: word) rest)).elim hpat hword
  | cons c before =>
    obtain ⟨-, rfl⟩ := List.cons.inj hsplit
    cases after with
    | nil => exact hne rfl
    | cons c after =>
      obtain ⟨heq, -⟩ := List.cons_prefix_cons.mp hpre
      exact ht (heq ▸ List.mem_append_right before List.mem_cons_self)

/-- A word has no occurrence of a pattern when it lacks its first character. -/
theorem apart_of_not_mem {a : α} {t word : List α} (h : a ∉ word) : Apart (a :: t) word := by
  intro before after rest hsplit hne hpre
  cases after with
  | nil => exact hne rfl
  | cons b after =>
    obtain ⟨heq, -⟩ := List.cons_prefix_cons.mp hpre
    exact h (by rw [hsplit, heq]; exact List.mem_append_right before List.mem_cons_self)

/-- A word has no occurrence of a pattern when it and the pattern differ at each place of the word. -/
theorem apart_of_tails {pat word : List α} (h : ∀ after ∈ word.tails, after ≠ [] → ¬ pat <+: after ∧ ¬ after <+: pat) :
    Apart pat word := by
  intro before after rest hsplit hne hpre
  obtain ⟨hpat, hafter⟩ := h after (by rw [List.mem_tails, hsplit]; exact List.suffix_append before after) hne
  exact (List.prefix_or_prefix_of_prefix hpre (List.prefix_append after rest)).elim hpat hafter

variable [DecidableEq α]

/-! ### Search -/

/-- Where the pattern first occurs. -/
def find (pat : List α) : List α → Option ℕ
  | [] => if pat = [] then some 0 else none
  | a :: l => if pat <+: a :: l then some 0 else (find pat l).map (· + 1)

section Find

variable {pat word l : List α}

theorem find_of_prefix (h : pat <+: l) : find pat l = some 0 := by
  cases l with
  | nil => rw [find, if_pos (List.prefix_nil.mp h)]
  | cons a l => rw [find, if_pos h]

/-- A word that is apart from the pattern is passed over. -/
theorem find_append (h : Apart pat word) : find pat (word ++ l) = (find pat l).map (· + word.length) := by
  induction word with
  | nil => simp
  | cons a word ih =>
    have hnot : ¬ pat <+: a :: (word ++ l) := h [] (a :: word) l rfl (List.cons_ne_nil a word)
    have hrest : Apart pat word := by
      intro before after rest hword hne
      exact h (a :: before) after rest (by rw [hword, List.cons_append]) hne
    rw [List.cons_append, find, if_neg hnot, ih hrest, Option.map_map]
    congr 1

end Find

/-! ### Replacement -/

/-- The rest of a replacement; the first argument counts what is still to be passed over. -/
def replaceFrom (pat rep : List α) : ℕ → List α → List α
  | _, [] => []
  | skip + 1, _ :: l => replaceFrom pat rep skip l
  | 0, a :: l =>
    if pat <+: a :: l then rep ++ replaceFrom pat rep (pat.length - 1) l else a :: replaceFrom pat rep 0 l

/-- Every occurrence of a pattern that is not empty is replaced. -/
def replaceAll (pat rep l : List α) : List α := replaceFrom pat rep 0 l

section Replace

variable {pat rep l : List α}

theorem replaceAll_nil : replaceAll pat rep [] = [] := rfl

theorem replaceFrom_append (t : List α) : replaceFrom pat rep t.length (t ++ l) = replaceAll pat rep l := by
  induction t with
  | nil => rfl
  | cons a t ih => exact ih

/-- The pattern itself. -/
theorem replaceAll_self (hpat : pat ≠ []) : replaceAll pat rep (pat ++ l) = rep ++ replaceAll pat rep l := by
  cases pat with
  | nil => exact absurd rfl hpat
  | cons a t =>
    have hpre : a :: t <+: a :: (t ++ l) := List.prefix_append (a :: t) l
    rw [replaceAll, List.cons_append, replaceFrom, if_pos hpre]
    exact congrArg (rep ++ ·) (replaceFrom_append t)

theorem replaceAll_cons {a : α} (h : ¬ pat <+: a :: l) : replaceAll pat rep (a :: l) = a :: replaceAll pat rep l := by
  rw [replaceAll, replaceFrom, if_neg h]
  rfl

/-- A word that is apart from the pattern stays. -/
theorem replaceAll_append {word : List α} (h : Apart pat word) :
    replaceAll pat rep (word ++ l) = word ++ replaceAll pat rep l := by
  induction word with
  | nil => rfl
  | cons a word ih =>
    have hnot : ¬ pat <+: a :: (word ++ l) := h [] (a :: word) l rfl (List.cons_ne_nil a word)
    rw [List.cons_append, replaceAll_cons hnot, ih, List.cons_append]
    intro before after rest hword hne
    exact h (a :: before) after rest (by rw [hword, List.cons_append]) hne

/-- **The words that are the pattern** are replaced. -/
theorem replaceAll_flatMap {β : Type} {code : β → List α} (hpat : pat ≠ []) (bs : List β)
    (h : ∀ b, code b = pat ∨ Apart pat (code b)) :
    replaceAll pat rep (bs.flatMap code) = bs.flatMap fun b => if code b = pat then rep else code b := by
  induction bs with
  | nil => rfl
  | cons b bs ih =>
    rw [List.flatMap_cons, List.flatMap_cons]
    by_cases hb : code b = pat
    · rw [if_pos hb, hb, replaceAll_self hpat, ih]
    · rw [if_neg hb, replaceAll_append ((h b).resolve_left hb), ih]

/-- A single character. -/
theorem replaceAll_singleton (a : α) : replaceAll [a] rep l = l.flatMap fun b => if b = a then rep else [b] := by
  have hwords : l = l.flatMap fun b => [b] := (List.flatMap_singleton' l).symm
  have hcode : ∀ b : α, [b] = [a] ∨ Apart [a] [b] := by
    intro b
    by_cases hb : b = a
    · exact .inl (by rw [hb])
    · exact .inr (apart_of_not_mem fun he => hb (List.mem_singleton.mp he).symm)
  have h : replaceAll [a] rep (l.flatMap fun b => [b]) = l.flatMap fun b => if [b] = [a] then rep else [b] :=
    replaceAll_flatMap (List.cons_ne_nil a []) l hcode
  rw [← hwords] at h
  rw [h]
  congr 1
  funext b
  by_cases hb : b = a
  · rw [if_pos hb, if_pos (by rw [hb])]
  · rw [if_neg hb, if_neg fun he => hb (List.cons.inj he).1]

end Replace

/-! ### Escapes -/

/-- Characters with a name each.  A name begins with the marker, has no other of these characters in it, and does not
begin another. -/
structure EscapeTable (α : Type) [DecidableEq α] where
  marker : α
  /-- The name of the marker, behind the marker. -/
  self : List α
  /-- The other characters, and their names behind the marker. -/
  entries : List (α × List α)
  chars : (marker :: entries.map Prod.fst).Nodup
  clean : ∀ name ∈ self :: entries.map Prod.snd, ∀ a ∈ marker :: entries.map Prod.fst, a ∉ name
  apart : (self :: entries.map Prod.snd).Pairwise fun a b => ¬ a <+: b ∧ ¬ b <+: a

namespace EscapeTable

variable (t : EscapeTable α)

/-- The marker becomes its name, and then each other character its own. -/
def escape (l : List α) : List α :=
  t.entries.foldl (fun l e => replaceAll [e.1] (t.marker :: e.2) l) (replaceAll [t.marker] (t.marker :: t.self) l)

/-- Each name becomes its character, that of the marker at last. -/
def unescape (l : List α) : List α :=
  replaceAll (t.marker :: t.self) [t.marker] (t.entries.foldl (fun l e => replaceAll (t.marker :: e.2) [e.1] l) l)

/-- A character is written as its name in the table, or as itself. -/
def word (marker : α) (table : List (α × List α)) (a : α) : List α :=
  match table.find? fun e => e.1 = a with
  | some e => marker :: e.2
  | none => [a]

section Word

variable {marker : α} {table : List (α × List α)} {e : α × List α} {a : α}

theorem word_of_not_mem (h : a ∉ table.map Prod.fst) : word marker table a = [a] := by
  have hnone : table.find? (fun e => e.1 = a) = none := by
    rw [List.find?_eq_none]
    intro e he heq
    exact h (List.mem_map.mpr ⟨e, he, of_decide_eq_true heq⟩)
  rw [word, hnone]

theorem word_cons_self : word marker (e :: table) e.1 = marker :: e.2 := by
  rw [word, List.find?_cons_of_pos (by simp)]

theorem word_cons_of_ne (h : a ≠ e.1) : word marker (e :: table) a = word marker table a := by
  rw [word, List.find?_cons_of_neg (by simpa using h.symm)]
  rfl

/-- A character that has a name. -/
theorem word_of_mem (marker : α) (h : a ∈ table.map Prod.fst) :
    ∃ e ∈ table, e.1 = a ∧ word marker table a = marker :: e.2 := by
  cases hfind : table.find? fun e => e.1 = a with
  | none =>
    obtain ⟨e, he, heq⟩ := List.mem_map.mp h
    exact absurd (decide_eq_true heq) (List.find?_eq_none.mp hfind e he)
  | some e =>
    refine ⟨e, List.mem_of_find?_eq_some hfind, by simpa using List.find?_some hfind, ?_⟩
    rw [word, hfind]

theorem word_append_of_mem {table' : List (α × List α)} (h : a ∈ table.map Prod.fst) :
    word marker (table ++ table') a = word marker table a := by
  cases hfind : table.find? fun e => e.1 = a with
  | none =>
    obtain ⟨e, he, heq⟩ := List.mem_map.mp h
    exact absurd (decide_eq_true heq) (List.find?_eq_none.mp hfind e he)
  | some e => rw [word, word, List.find?_append, hfind, Option.some_or]

theorem word_append_of_not_mem {table' : List (α × List α)} (h : a ∉ table.map Prod.fst) :
    word marker (table ++ table') a = word marker table' a := by
  have hnone : table.find? (fun e => e.1 = a) = none := by
    rw [List.find?_eq_none]
    intro e he heq
    exact h (List.mem_map.mpr ⟨e, he, of_decide_eq_true heq⟩)
  rw [word, word, List.find?_append, hnone, Option.none_or]

/-- **One more name** is put in. -/
theorem replaceAll_word (l : List α) (hmarker : e.1 ≠ marker)
    (hclean : ∀ e' ∈ table, e.1 ∉ e'.2) : replaceAll [e.1] (marker :: e.2) (l.flatMap (word marker table)) =
      l.flatMap (word marker (table ++ [e])) := by
  rw [replaceAll_singleton, List.flatMap_assoc]
  congr 1
  funext a
  by_cases ha : a ∈ table.map Prod.fst
  · obtain ⟨e', he', -, hword⟩ := word_of_mem marker ha
    have hstays : ∀ w : List α, e.1 ∉ w → (w.flatMap fun b => if b = e.1 then marker :: e.2 else [b]) = w := by
      intro w hw
      rw [← replaceAll_singleton, ← List.append_nil w, replaceAll_append (apart_of_not_mem hw), replaceAll_nil]
    rw [word_append_of_mem ha, hword, hstays]
    intro hmem
    exact (List.mem_cons.mp hmem).elim hmarker (hclean e' he')
  · rw [word_of_not_mem ha, word_append_of_not_mem ha, List.flatMap_singleton]
    by_cases heq : a = e.1
    · rw [if_pos heq, heq, word_cons_self]
    · rw [if_neg heq, word_cons_of_ne heq, word_of_not_mem List.not_mem_nil]

/-- **A name** is taken out. -/
theorem replaceAll_name (l : List α) (hnew : e.1 ∉ table.map Prod.fst) (hmarker : marker ∈ (e :: table).map Prod.fst)
    (hclean : ∀ e' ∈ table, marker ∉ e'.2) (hapart : ∀ e' ∈ table, ¬ e.2 <+: e'.2 ∧ ¬ e'.2 <+: e.2) :
    replaceAll (marker :: e.2) [e.1] (l.flatMap (word marker (e :: table))) = l.flatMap (word marker table) := by
  have hother : ∀ a, a ≠ e.1 → Apart (marker :: e.2) (word marker table a) ∧ word marker table a ≠ marker :: e.2 := by
    intro a ha
    by_cases hmem : a ∈ table.map Prod.fst
    · obtain ⟨e', he', -, hword⟩ := word_of_mem marker hmem
      obtain ⟨hbegins, hbegun⟩ := hapart e' he'
      rw [hword]
      refine ⟨apart_of_incomparable (hclean e' he') (fun hpre => ?_) fun hpre => ?_, fun heq => ?_⟩
      · exact hbegins (List.cons_prefix_cons.mp hpre).2
      · exact hbegun (List.cons_prefix_cons.mp hpre).2
      · exact hbegins (by rw [(List.cons.inj heq).2])
    · -- a character without a name is not the marker
      have hne : marker ≠ a := by
        rintro rfl
        exact (List.mem_cons.mp hmarker).elim ha hmem
      rw [word_of_not_mem hmem]
      exact ⟨apart_of_not_mem fun hmem => hne (List.mem_singleton.mp hmem), fun heq => hne (List.cons.inj heq).1.symm⟩
  rw [replaceAll_flatMap (List.cons_ne_nil _ _)]
  · congr 1
    funext a
    by_cases ha : a = e.1
    · rw [ha, word_cons_self, if_pos rfl, word_of_not_mem hnew]
    · rw [word_cons_of_ne ha, if_neg (hother a ha).2]
  · intro a
    by_cases ha : a = e.1
    · rw [ha]
      exact .inl word_cons_self
    · rw [word_cons_of_ne ha]
      exact .inr (hother a ha).1

end Word

/-- The names that are put in. -/
theorem escape_eq (l : List α) : t.escape l = l.flatMap (word t.marker ((t.marker, t.self) :: t.entries)) := by
  have hentries : ∀ todo table, (t.marker, t.self) :: t.entries = table ++ todo → (t.marker, t.self) ∈ table →
      todo.foldl (fun l e => replaceAll [e.1] (t.marker :: e.2) l) (l.flatMap (word t.marker table)) =
        l.flatMap (word t.marker ((t.marker, t.self) :: t.entries)) := by
    intro todo
    induction todo with
    | nil =>
      intro table hsplit _
      rw [hsplit, List.append_nil]
      rfl
    | cons e todo ih =>
      intro table hsplit hself
      have hkeys : ((table ++ e :: todo).map Prod.fst).Nodup := hsplit ▸ t.chars
      have hmem : e ∈ (t.marker, t.self) :: t.entries := by
        rw [hsplit]
        exact List.mem_append_right table List.mem_cons_self
      have hmarker : e.1 ≠ t.marker := by
        rw [List.map_append, List.nodup_append] at hkeys
        exact (hkeys.2.2 _ (List.mem_map_of_mem hself) _ (List.mem_map_of_mem List.mem_cons_self)).symm
      have hclean : ∀ e' ∈ table, e.1 ∉ e'.2 := by
        intro e' he'
        have hname : e' ∈ (t.marker, t.self) :: t.entries := by
          rw [hsplit]
          exact List.mem_append_left _ he'
        exact t.clean e'.2 (List.mem_map_of_mem (f := Prod.snd) hname) e.1 (List.mem_map_of_mem (f := Prod.fst) hmem)
      rw [List.foldl_cons, replaceAll_word l hmarker hclean]
      exact ih (table ++ [e]) (by rw [hsplit, List.append_assoc]; rfl) (List.mem_append_left _ hself)
  rw [escape, replaceAll_singleton]
  have hfirst : (fun b => if b = t.marker then t.marker :: t.self else [b]) = word t.marker [(t.marker, t.self)] := by
    funext b
    by_cases hb : b = t.marker
    · have hname : word t.marker [(t.marker, t.self)] t.marker = t.marker :: t.self := word_cons_self
      rw [if_pos hb, hb, hname]
    · rw [if_neg hb]
      exact ((word_cons_of_ne hb).trans (word_of_not_mem List.not_mem_nil)).symm
  rw [hfirst]
  exact hentries t.entries [(t.marker, t.self)] rfl List.mem_cons_self

/-- The marker's name can be looked for at last. -/
theorem word_rotate : word t.marker ((t.marker, t.self) :: t.entries) =
    word t.marker (t.entries ++ [(t.marker, t.self)]) := by
  funext a
  have hmarker := (List.nodup_cons.mp t.chars).1
  by_cases ha : a = t.marker
  · rw [ha, word_append_of_not_mem hmarker]
    exact word_cons_self.trans word_cons_self.symm
  · rw [word_cons_of_ne ha]
    by_cases hmem : a ∈ t.entries.map Prod.fst
    · rw [word_append_of_mem hmem]
    · rw [word_append_of_not_mem hmem, word_of_not_mem hmem]
      exact ((word_cons_of_ne ha).trans (word_of_not_mem List.not_mem_nil)).symm

/-- The names that are taken out, up to that of the marker. -/
theorem foldl_names (l : List α) (done todo : List (α × List α)) (hsplit : t.entries = done ++ todo) :
    todo.foldl (fun l e => replaceAll (t.marker :: e.2) [e.1] l)
      (l.flatMap (word t.marker (todo ++ [(t.marker, t.self)]))) = l.flatMap (word t.marker [(t.marker, t.self)]) := by
  induction todo generalizing done with
  | nil => rfl
  | cons e todo ih =>
    have hchars := t.chars
    have hapart := t.apart
    have hclean := t.clean
    rw [hsplit] at hchars hapart hclean
    simp only [List.map_append, List.map_cons, List.nodup_cons, List.nodup_append, List.mem_append, List.mem_cons,
      not_or] at hchars
    rw [List.map_append, List.map_cons, List.pairwise_cons, List.pairwise_append, List.pairwise_cons] at hapart
    obtain ⟨hself, -, hlater, -⟩ := hapart
    have hnew : e.1 ∉ (todo ++ [(t.marker, t.self)]).map Prod.fst := by
      simp only [List.map_append, List.map_cons, List.map_nil, List.mem_append, List.mem_singleton, not_or]
      exact ⟨hchars.2.2.1.1, fun he => hchars.1.2.1 he.symm⟩
    have hnames : ∀ e' ∈ todo ++ [(t.marker, t.self)], t.marker ∉ e'.2 ∧ ¬ e.2 <+: e'.2 ∧ ¬ e'.2 <+: e.2 := by
      intro e' he'
      rcases List.mem_append.mp he' with he' | he'
      · refine ⟨hclean e'.2 ?_ t.marker List.mem_cons_self, hlater.1 e'.2 (List.mem_map_of_mem he')⟩
        exact List.mem_cons_of_mem _ (List.mem_map_of_mem (List.mem_append_right done (List.mem_cons_of_mem e he')))
      · rw [List.mem_singleton.mp he']
        have hpair := hself e.2 (List.mem_append_right _ List.mem_cons_self)
        exact ⟨hclean t.self List.mem_cons_self t.marker List.mem_cons_self, hpair.2, hpair.1⟩
    have hmarker : t.marker ∈ (e :: (todo ++ [(t.marker, t.self)])).map Prod.fst := by simp
    rw [List.foldl_cons, List.cons_append, replaceAll_name l hnew hmarker (fun e' he' => (hnames e' he').1)
      fun e' he' => (hnames e' he').2]
    exact ih (done ++ [e]) (by rw [hsplit, List.append_assoc]; rfl)

/-- **The way back.** -/
theorem unescape_escape (l : List α) : t.unescape (t.escape l) = l := by
  rw [unescape, escape_eq, word_rotate, foldl_names t l [] t.entries rfl]
  have hlast : replaceAll (t.marker :: t.self) [t.marker] (l.flatMap (word t.marker [(t.marker, t.self)])) =
      l.flatMap (word t.marker []) :=
    replaceAll_name (e := (t.marker, t.self)) l List.not_mem_nil List.mem_cons_self
      (fun e' he' => absurd he' List.not_mem_nil) fun e' he' => absurd he' List.not_mem_nil
  rw [hlast]
  have hplain : word t.marker [] = fun a => [a] := by
    funext a
    exact word_of_not_mem List.not_mem_nil
  rw [hplain, List.flatMap_singleton']

/-- **No character with a name** but the marker is left. -/
theorem not_mem_escape {a : α} (ha : a ∈ t.entries.map Prod.fst) (l : List α) : a ∉ t.escape l := by
  rw [escape_eq, List.mem_flatMap]
  rintro ⟨b, -, hb⟩
  by_cases hmem : b ∈ ((t.marker, t.self) :: t.entries).map Prod.fst
  · obtain ⟨e, he, -, hword⟩ := word_of_mem t.marker hmem
    rw [hword] at hb
    rcases List.mem_cons.mp hb with rfl | hb
    · exact (List.nodup_cons.mp t.chars).1 ha
    · exact t.clean e.2 (List.mem_map_of_mem (f := Prod.snd) he) a (List.mem_cons_of_mem _ ha) hb
  · rw [word_of_not_mem hmem] at hb
    exact hmem (List.mem_singleton.mp hb ▸ List.mem_cons_of_mem _ ha)

end EscapeTable

end Valv.Text
