import Valv.Client.Scope

/-!
# A reader that was away

Ops may be truncated and tombstones purged before a reader has pulled them.  The server does not tell it: `GET /ops`
never answers 410, the answer on which `pull_delta` turns to a tree snapshot.

* `PullsSafely`: no page takes the cursor past an op that is lost, and the last page leaves the live nodes.
* `NotStale`: what is lost lies beyond the page.
* `stale_reader_safe`: every page is safe as long as that is so.
* `stale_reader_misled`: a deletion that is truncated, or purged, before it is pulled.
-/

namespace Valv.Client

open Valv.Conc Valv.Table Valv.Server Valv.Replica

/-! ### Lost ops -/

/-- The op will not be served any more: it was truncated from the log, or the row of its node was purged. -/
def Lost (s : Db) (e : OpLogRow) : Prop := e ∉ s.opLog ∨ s.node e.nodeId = none

instance (s : Db) (e : OpLogRow) : Decidable (Lost s e) := inferInstanceAs (Decidable (_ ∨ _))

/-- A page takes the cursor past no op of the scope that is lost, and the page that ends the loop of `pull_delta`
leaves the live nodes. -/
def PullsSafely (c : ScopeConfig) (st : ScopeState) : Prop :=
  ∀ now delta pulled, st.answer c = .ok delta → (st.receive c now delta).2 = .ok pulled →
    (∀ e ∈ st.concerned, st.cursor c < e.serverSeq → Lost st.server e → delta.upToSeq < e.serverSeq) ∧
    (delta.ops = [] ∨ delta.upToSeq ≤ st.cursor c → LiveSame c st.server (st.receive c now delta).1)

section Conditions

variable (c : ScopeConfig) (st : ScopeState)

/-- A page is full before it comes to the op `seq`, so that the op is left to a later page. -/
def Ahead (seq : ℕ) : Prop := pageLimit ≤ (st.served c).countP fun a => a.serverSeq < seq

instance (seq : ℕ) : Decidable (Ahead c st seq) := inferInstanceAs (Decidable (_ ≤ _))

/-- Above the cursor, what is missing or lost lies beyond the page. -/
structure NotStale : Prop where
  concerned : ∀ e ∈ st.concerned, st.cursor c < e.serverSeq → Lost st.server e → Ahead c st e.serverSeq
  inside : ∀ e ∈ st.log, e.nodeId ∈ st.server.subtree c.scope → st.cursor c < e.serverSeq →
    (e ∈ st.server.opLog ∧ e.folderId = c.folderId) ∨ Ahead c st e.serverSeq

instance : Decidable (NotStale c st) :=
  decidable_of_iff ((∀ e ∈ st.concerned, st.cursor c < e.serverSeq → Lost st.server e → Ahead c st e.serverSeq) ∧
    ∀ e ∈ st.log, e.nodeId ∈ st.server.subtree c.scope → st.cursor c < e.serverSeq →
      (e ∈ st.server.opLog ∧ e.folderId = c.folderId) ∨ Ahead c st e.serverSeq)
    ⟨fun h => ⟨h.1, h.2⟩, fun h => ⟨h.concerned, h.inside⟩⟩

/-- The condition on an event: where the event is a pull, the page is in order and the cursor is not stale. -/
def StaleOk (ev : ScopeEvent) : Prop := EventOk c st (PageOk c st ∧ NotStale c st) ev

instance (ev : ScopeEvent) : Decidable (StaleOk c st ev) := inferInstanceAs (Decidable (EventOk _ _ _ _))

end Conditions

section Pages

variable {c : ScopeConfig} {st : ScopeState} {last : String → Option (Copy Field.Value)} {seq : ℕ}

/-- **A full page**: when more ops come before `seq` than it takes, it ends below it, and above the cursor. -/
theorem Ahead.page (h : Ahead c st seq) (hd : st.server.SeqsDrawn) :
    (st.nextPage c).upToSeq < seq ∧ st.cursor c < (st.nextPage c).upToSeq ∧ (st.nextPage c).ops ≠ [] := by
  set sorted := (st.served c).insertionSort bySeq with hsorted
  have hincreasing : sorted.Pairwise fun a b => a.serverSeq < b.serverSeq := servable_increasing _ _ _ hd.nodup
  have hrows : st.server.deltaRows c.folderId c.scope (st.cursor c) = sorted.take pageLimit := rfl
  have hcount : pageLimit ≤ sorted.countP fun a => a.serverSeq < seq := by
    rw [hsorted, (List.perm_insertionSort bySeq _).countP_eq]
    exact h
  have hlength : (sorted.take pageLimit).length = pageLimit := by
    have hle := List.countP_le_length (p := fun a : OpLogRow => decide (a.serverSeq < seq)) (l := sorted)
    rw [List.length_take]
    omega
  cases hlast : (sorted.take pageLimit).getLast? with
  | none =>
    rw [List.getLast?_eq_none_iff.mp hlast] at hlength
    cases hlength
  | some l =>
    obtain ⟨front, hfront⟩ := List.getLast?_eq_some_iff.mp hlast
    have hmem : l ∈ st.server.deltaRows c.folderId c.scope (st.cursor c) := by
      rw [hrows, hfront]
      simp
    have hend : (st.nextPage c).upToSeq = l.serverSeq := by
      refine (deltaPage_upToSeq hd _ _ _).2 l ?_
      rw [hrows]
      exact hlast
    refine ⟨?_, ?_, fun hnil => ?_⟩
    · -- otherwise only the ops before the last one of the page are below `seq`
      by_contra hge
      have hsplit : sorted = (front ++ [l]) ++ sorted.drop pageLimit := by
        rw [← hfront, List.take_append_drop]
      have hrest : (sorted.drop pageLimit).countP (fun a => a.serverSeq < seq) = 0 := by
        refine List.countP_eq_zero.mpr fun a ha => ?_
        rw [hsplit] at hincreasing
        have hlt := (List.pairwise_append.mp hincreasing).2.2 l (by simp) a ha
        simp only [decide_eq_true_eq]
        omega
      have hself : [l].countP (fun a => decide (a.serverSeq < seq)) = 0 := by
        refine List.countP_eq_zero.mpr fun a ha => ?_
        rw [List.mem_singleton.mp ha]
        simp only [decide_eq_true_eq]
        omega
      have hle := List.countP_le_length (p := fun a : OpLogRow => decide (a.serverSeq < seq)) (l := front)
      rw [hfront, List.length_append, List.length_singleton] at hlength
      rw [hsplit, List.countP_append, List.countP_append, hrest, hself] at hcount
      omega
    · rw [hend]
      exact (mem_deltaRows hmem).2.2
    · have hops : (st.server.deltaRows c.folderId c.scope (st.cursor c)).map OpLogRow.entry = [] := hnil
      rw [List.map_eq_nil_iff.mp hops] at hmem
      cases hmem

theorem NotStale.whole (h : NotStale c st) (hd : st.server.SeqsDrawn) : Whole c st := by
  intro e he hn hlt hle
  rcases h.inside e he hn hlt with hthere | hahead
  · exact hthere
  · have hend := (hahead.page hd).1
    omega

/-- The page that ends the loop is empty, and nothing is left to serve. -/
theorem served_of_ends (hd : st.server.SeqsDrawn)
    (hends : (st.nextPage c).ops = [] ∨ (st.nextPage c).upToSeq ≤ st.cursor c) : st.served c = [] := by
  have hrows : st.server.deltaRows c.folderId c.scope (st.cursor c) = [] := by
    rcases hends with hnil | hle
    · exact List.map_eq_nil_iff.mp hnil
    · refine List.getLast?_eq_none_iff.mp ?_
      cases hlast : (st.server.deltaRows c.folderId c.scope (st.cursor c)).getLast? with
      | none => rfl
      | some l =>
        have hend : (st.nextPage c).upToSeq = l.serverSeq := (deltaPage_upToSeq hd _ _ _).2 l hlast
        have hlt := (mem_deltaRows (List.mem_of_getLast? hlast)).2.2
        omega
  refine List.eq_nil_iff_forall_not_mem.mpr fun a ha => ?_
  have hmem := deltaRows_complete hd.nodup ha fun l hl => by
    rw [hrows] at hl
    cases hl
  rw [hrows] at hmem
  cases hmem

/-- **A page is safe** where the condition holds. -/
theorem ScopeInv.pullsSafely (h : ScopeInv c last st) (hok : PageOk c st) (hstale : NotStale c st) :
    PullsSafely c st := by
  intro now delta pulled hd hpulled
  cases h.answer hd
  refine ⟨fun e he hlt hlost => ((hstale.concerned e he hlt hlost).page h.drawn).1, fun hends => ?_⟩
  obtain ⟨pulled', tracked, m', happly, hf, hlive, -⟩ := h.page hok (hstale.whole h.drawn) now
  have hserved := served_of_ends h.drawn hends
  rw [ScopeState.receive, Mirror.applyPage] at hpulled ⊢
  by_cases hlt : (st.nextPage c).upToSeq < st.cursor c
  · rw [if_pos hlt] at hpulled
    cases hpulled
  · rw [if_neg hlt, happly]
    refine h.liveSame hok (hf.setCursor c.folderId _) (fun a ha hn => ?_) hlive fun a ha => ?_
    · -- nothing of the scope is above the cursor
      by_cases habove : st.cursor c < a.serverSeq
      case neg => omega
      rcases hstale.inside a ha hn habove with ⟨hmem, hfolder⟩ | hahead
      · have hmem' : a ∈ st.served c := mem_servable.mpr ⟨hmem, hfolder, habove, hn⟩
        rw [hserved] at hmem'
        cases hmem'
      · obtain ⟨-, habove', hops⟩ := hahead.page h.drawn
        rcases hends with hnil | hle
        · exact absurd hnil hops
        · omega
    · rw [hserved] at ha
      cases ha

end Pages

/-- **A reader that was away.**  From a tree snapshot, in every order of calls of any device, purges of tombstones,
truncations of the log and pulled pages that meet the condition: no page takes the cursor past an op of the scope
that is lost, and the last page of a pull leaves the live nodes of the server's subtree. -/
theorem stale_reader_safe (c : ScopeConfig) (s : Db) (m : Mirror) (h : ScopeStart c s m) (evs : List ScopeEvent)
    (hok : Run.Along (ScopeState.step c) (StaleOk c) (ScopeState.start c s m) evs) :
    Run.Along (ScopeState.step c) (fun st ev => ∀ now, ev = .pull now → PullsSafely c st)
      (ScopeState.start c s m) evs := by
  have hstep : ∀ st ev st', (∃ last, ScopeInv c last st) → StaleOk c st ev → st.step c ev = some st' →
      ∃ last, ScopeInv c last st' := by
    rintro st ev st' ⟨last, hinv⟩ hev hs
    exact ScopeInv.step ⟨last, hinv⟩ hev (fun hpage => ⟨hpage.1, hpage.2.whole hinv.drawn⟩) hs
  refine Run.Along.of_invariant (I := fun st => ∃ last, ScopeInv c last st) hstep ?_ ⟨_, ScopeInv.start h⟩ hok
  rintro st ev ⟨last, hinv⟩ hevent now rfl
  exact hinv.pullsSafely hevent.1 hevent.2

/-! ### A deletion that is not pulled in time -/

/-- The log is truncated and a tombstone purged after the reader has pulled them. -/
def docsKept : List ScopeEvent :=
  [docsCall (.mutate "a" 0 .delete), .pull 0, docsCall (.create "m" "docs" "new.txt" .file),
   .truncate { now := 1, retentionMs := 0, batchSize := some 1 }, .purge { now := 1, retentionMs := 0 }, .pull 0]

theorem stale_reader_safe_docsKept :
    Run.Along (ScopeState.step docsReader) (fun st ev => ∀ now, ev = .pull now → PullsSafely docsReader st)
      (ScopeState.start docsReader sharedDb mounted) docsKept :=
  stale_reader_safe docsReader sharedDb mounted scopeStart_sharedDb docsKept (by decide +kernel)

/-- A file is deleted, and another one renamed that the reader is not shown; then a pass is made. -/
def docsAway (pass : ScopeEvent) : ScopeState :=
  Run.run (ScopeState.step docsReader) (ScopeState.start docsReader sharedDb mounted)
    [docsCall (.mutate "a" 0 .delete), docsCall (.mutate "b" 0 (.rename "d.txt")), pass]

/-- What the server answers then. -/
def emptyPage : DeltaPullResponse := { ops := [], upToSeq := 2 }

theorem misled_of_lost {st : ScopeState} (hanswer : st.answer docsReader = .ok emptyPage)
    (hpulled : (st.receive docsReader 0 emptyPage).2 = .ok [])
    (hlost : ∃ e ∈ st.concerned, st.cursor docsReader < e.serverSeq ∧ Lost st.server e ∧ e.serverSeq ≤ emptyPage.upToSeq)
    (hlive : (docsReader.live (st.receive docsReader 0 emptyPage).1 "a").isSome)
    (hdead : ∀ r ∈ st.server.node "a", r.deletedAt.isSome) :
    ¬ PullsSafely docsReader st ∧ ¬ LiveSame docsReader st.server (st.receive docsReader 0 emptyPage).1 := by
  constructor
  · intro h
    obtain ⟨e, he, hlt, hgone, hle⟩ := hlost
    have habove := (h 0 emptyPage [] hanswer hpulled).1 e he hlt hgone
    omega
  · intro h
    obtain ⟨x, hx⟩ := Option.isSome_iff_exists.mp hlive
    obtain ⟨r, hr, -, halive, -⟩ := h.shown "a" x hx
    have hdeleted := hdead r hr
    rw [halive] at hdeleted
    cases hdeleted

/-- The reader is told that it has come to the head, past the deletion, and goes on to show the file. -/
theorem stale_reader_misled : ScopeStart docsReader sharedDb mounted ∧
    ∀ pass ∈ [ScopeEvent.truncate { now := 1, retentionMs := 0, batchSize := some 1 },
        .purge { now := 1, retentionMs := 0 }],
      ¬ PullsSafely docsReader (docsAway pass) ∧
      ¬ LiveSame docsReader (docsAway pass).server ((docsAway pass).receive docsReader 0 emptyPage).1 := by
  refine ⟨scopeStart_sharedDb, fun pass hpass => ?_⟩
  rcases List.mem_cons.mp hpass with rfl | hpass
  · exact misled_of_lost (by decide +kernel) (by decide +kernel) (by decide +kernel) (by decide +kernel)
      (by decide +kernel)
  · rw [List.mem_singleton.mp hpass]
    exact misled_of_lost (by decide +kernel) (by decide +kernel) (by decide +kernel) (by decide +kernel)
      (by decide +kernel)

end Valv.Client
