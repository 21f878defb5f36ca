import Valv.Client.Walking

/-!
# Deletes of what is gone

Where no call fails, the walk lists every directory of the disk that is the path of a node.  So a delete is of a node
that was seen to be gone, unless something else than a directory stands where the mirror has a folder.

* `Covering`: which directories are listed, queued, or still entries to go.
* `Covering.step`, `Covering.start`: an entry, and a listing.
* `Fits`: the disk has a directory where the mirror has something below.
* `push_deletes_gone`: then the deletes of a pass are of nodes that were seen to be gone.
-/

namespace Valv.Client

open Valv.Conc Valv.Table Valv.Server Valv.Files Valv.NamedTree

/-- The directory was listed without an error. -/
def Pass.Listed (s : Pass) (p : Path) : Prop := ∃ names, (p, names) ∈ s.listed

/-- The directories in the queue. -/
def Pass.queued (s : Pass) : List Path := s.queue.map Prod.fst

/-- With these entries to go: a directory of the disk that is the path of a node is listed, queued or one of them, as
soon as the directory it is in is listed. -/
structure Covering (env : PushEnv) (d₀ : Disk FileData) (top : String) (pending : List Path) (s : Pass) : Prop where
  root : [] ∈ s.queued ∨ s.Listed []
  above : ∀ p, p ∈ s.queued ++ pending ∨ s.Listed p → p ≠ [] → s.Listed p.dropLast
  apart : (s.queued ++ pending).Nodup
  fresh : ∀ p ∈ s.queued ++ pending, ¬ s.Listed p
  reached : ∀ k p name, PathFrom (s.mirror.places env.folderId) top k (p ++ [name]) → d₀.isDir (p ++ [name]) = true →
    s.Listed p → p ++ [name] ∈ s.queued ++ pending ∨ s.Listed (p ++ [name])
  stands : ∀ p names, (p, names) ∈ s.listed → ∀ n ∈ names, (s.disk.lstat (p ++ [n])).isSome

section Covering

variable {env : PushEnv} {m₀ : Mirror} {d₀ : Disk FileData} {top parentNodeId k : String} {T : String → Prop}
  {s t : Pass} {entry : EntryInfo} {p q dir : Path} {pending : List Path}

/-- What is above a listed directory is listed. -/
theorem Covering.listed_above (h : Covering env d₀ top pending s) (hp : s.Listed (p ++ q)) : s.Listed p := by
  induction q using List.reverseRecOn with
  | nil =>
    rw [List.append_nil] at hp
    exact hp
  | append_singleton q n ih =>
    rw [← List.append_assoc] at hp
    have habove := h.above _ (.inr hp) (by simp)
    rw [List.dropLast_concat] at habove
    exact ih habove

/-- An entry is done: if it is a directory with a node, it is in the queue. -/
theorem Covering.next (h : Covering env d₀ top (q :: pending) s) (hlisted : t.listed = s.listed)
    (hqueue : t.queued = s.queued ∨ t.queued = s.queued ++ [q])
    (hstays : ∀ r, (s.disk.lstat r).isSome → (t.disk.lstat r).isSome)
    (hreached : ∀ k p name, PathFrom (t.mirror.places env.folderId) top k (p ++ [name]) → d₀.isDir (p ++ [name]) = true →
      s.Listed p → q ∈ t.queued ∧ p ++ [name] = q ∨
        p ++ [name] ≠ q ∧ ∃ j, PathFrom (s.mirror.places env.folderId) top j (p ++ [name])) :
    Covering env d₀ top pending t := by
  have hsame : ∀ r, t.Listed r ↔ s.Listed r := fun r => by rw [Pass.Listed, hlisted, Pass.Listed]
  have hsub : ∀ r, r ∈ t.queued ++ pending → r ∈ s.queued ++ q :: pending := by
    intro r hr
    rcases hqueue with hqueue | hqueue
    · rw [hqueue] at hr
      exact ((List.sublist_cons_self q pending).append_left s.queued).subset hr
    · rw [hqueue, List.append_assoc, List.singleton_append] at hr
      exact hr
  have hqueued : ∀ r, r ∈ s.queued → r ∈ t.queued := by
    intro r hr
    rcases hqueue with hqueue | hqueue
    · rw [hqueue]
      exact hr
    · rw [hqueue]
      exact List.mem_append_left _ hr
  refine ⟨?_, fun r hr hne => ?_, ?_, fun r hr hr' => ?_, fun k p name hp hdir hl => ?_, fun p names hp n hn => ?_⟩
  · rw [hsame]
    exact h.root.imp_left (hqueued [])
  · rw [hsame] at hr ⊢
    exact h.above r (hr.imp_left (hsub r)) hne
  · rcases hqueue with hqueue | hqueue
    · rw [hqueue]
      exact h.apart.sublist ((List.sublist_cons_self q pending).append_left _)
    · rw [hqueue, List.append_assoc, List.singleton_append]
      exact h.apart
  · rw [hsame] at hr'
    exact h.fresh r (hsub r hr) hr'
  · rw [hsame] at hl ⊢
    rcases hreached k p name hp hdir hl with ⟨hq, heq⟩ | ⟨hne, j, hold⟩
    · rw [heq]
      exact .inl (List.mem_append_left _ hq)
    · refine (h.reached j p name hold hdir hl).imp_left fun hmem => ?_
      rcases List.mem_append.mp hmem with hmem | hmem
      · exact List.mem_append_left _ (hqueued _ hmem)
      · rcases List.mem_cons.mp hmem with heq | hmem
        · exact absurd heq hne
        · exact List.mem_append_right _ hmem
  · rw [hlisted] at hp
    exact hstays _ (h.stands p names hp n hn)

/-- **One entry**: its directory is in the queue then, if a node has its path. -/
theorem Covering.step (horder : Orderly env m₀ d₀ top) (hT : Sparing env m₀ d₀ top T)
    (htaken : Unmistaken env m₀ d₀ top T) {rest : List EntryInfo}
    (h : Covering env d₀ top (entry.path :: pending) s) (hin : InDir env m₀ d₀ top T parentNodeId dir (entry :: rest) s)
    (hout : Outcome env parentNodeId entry s t) : Covering env d₀ top pending t := by
  have hon := hin.on entry List.mem_cons_self
  have hwalking := hin.walking
  cases hout with
  | still ht hfile hnew =>
    refine h.next ht.listed (.inl ?_) (fun r => (ht.disk hwalking.grown.ok).stays r) fun k p name hp hdir _ => .inr ?_
    · rw [Pass.queued, ht.queue, Pass.queued]
    · rw [ht.mirror.places] at hp
      refine ⟨fun he => ?_, k, hp⟩
      rw [he] at hp hdir
      obtain ⟨node, hnode, -⟩ := known_of_path hwalking.tree hin.path hon.path hp
      rw [hnew (hon.dir.mpr hdir)] at hnode
      cases hnode
  | @entered node htype hnode ht =>
    have hqueue : t.queued = s.queued ++ [entry.path] := by
      rw [Pass.queued, ht.queue, List.map_append, Pass.queued]
      rfl
    refine h.next ht.listed (.inr hqueue) (fun r hr => ?_) fun k p name hp hdir _ => ?_
    · rw [ht.disk]
      exact hr
    · rw [ht.mirror] at hp
      by_cases he : p ++ [name] = entry.path
      · refine .inl ⟨?_, he⟩
        rw [hqueue]
        exact List.mem_append_right _ (List.mem_singleton_self _)
      · exact .inr ⟨he, k, hp⟩
  | @put nodeType nodeId htype hnode ht =>
    obtain ⟨hoff, htop, -⟩ := hwalking.put_spec horder hT (htaken _ _ _ _ _ hin) htype hnode ht.sent
    obtain ⟨-, hkind⟩ := newType_some htype
    have hqueue : t.queued = s.queued ++ if nodeType = .folder then [entry.path] else [] := by
      rw [Pass.queued, ht.queue, List.map_append, Pass.queued]
      split <;> rfl
    refine h.next ht.listed ?_ (fun r => (ht.disk hwalking.grown.ok).stays r) fun k p name hp hdir hlisted => ?_
    · rw [hqueue]
      split
      · exact .inr rfl
      · exact .inl (List.append_nil _)
    · by_cases he : p ++ [name] = entry.path
      · refine .inl ⟨?_, he⟩
        rw [he] at hdir
        rcases hkind with ⟨hfolder, -⟩ | ⟨-, hfile, -⟩
        · rw [hqueue, if_pos hfolder]
          exact List.mem_append_right _ (List.mem_singleton_self _)
        · rw [hon.dir.mpr hdir] at hfile
          cases hfile
      · refine .inr ⟨he, ?_⟩
        have hnot : ∀ q, q <+: dir → ¬ PathFrom (s.mirror.places env.folderId) top nodeId q := by
          intro q hq hpath
          obtain ⟨rest, rfl⟩ := hq
          have habsent := hoff q hpath
          rw [present_left hwalking.grown.ok.links (hwalking.present hin.isDir)] at habsent
          cases habsent
        rcases PathFrom.grafted_cases ht.places hwalking.tree rfl hin.path hnot hp with hold | ⟨q, hq, -⟩
        · exact ⟨k, hold⟩
        · -- what is below the entry is not listed yet
          have hpath : p ++ [name] = entry.path ++ q := by
            rw [hq, hon.path, List.append_assoc]
            rfl
          rcases List.eq_nil_or_concat q with rfl | ⟨q, n, rfl⟩
          · rw [List.append_nil] at hpath
            exact absurd hpath he
          · rw [List.concat_eq_append, ← List.append_assoc] at hpath
            rw [(List.append_inj' hpath rfl).1] at hlisted
            exact absurd (h.listed_above hlisted) (h.fresh _ (List.mem_append_right _ List.mem_cons_self))

/-- The paths of a directory's entries, which come in some order. -/
theorem mem_entryPaths {names : List String} {entries : List EntryInfo}
    (hnames : (entries.map EntryInfo.name).Perm names) (hpath : ∀ e ∈ entries, e.path = dir ++ [e.name]) :
    p ∈ entries.map EntryInfo.path ↔ ∃ n ∈ names, p = dir ++ [n] := by
  rw [List.mem_map]
  constructor
  · intro hp
    obtain ⟨e, he, rfl⟩ := hp
    exact ⟨e.name, hnames.subset (List.mem_map_of_mem he), hpath e he⟩
  · intro hp
    obtain ⟨n, hn, rfl⟩ := hp
    obtain ⟨e, he, rfl⟩ := List.mem_map.mp (hnames.symm.subset hn)
    exact ⟨e, he, hpath e he⟩

theorem nodup_entryPaths {names : List String} {entries : List EntryInfo} (hnodup : names.Nodup)
    (hnames : (entries.map EntryInfo.name).Perm names) (hpath : ∀ e ∈ entries, e.path = dir ++ [e.name]) :
    (entries.map EntryInfo.path).Nodup := by
  have hmap : entries.map EntryInfo.path = (entries.map EntryInfo.name).map fun n => dir ++ [n] := by
    rw [List.map_map]
    exact List.map_congr_left hpath
  rw [hmap]
  refine (hnames.nodup_iff.mpr hnodup).map fun n n' he => ?_
  exact List.singleton_inj.mp (List.append_cancel_left he)

theorem listed_cons {names : List String} (hlisted : t.listed = (dir, names) :: s.listed) :
    t.Listed p ↔ p = dir ∨ s.Listed p := by
  simp only [Pass.Listed, hlisted, List.mem_cons, Prod.mk.injEq]
  constructor
  · intro hp
    obtain ⟨names, ⟨rfl, -⟩ | hmem⟩ := hp
    · exact .inl rfl
    · exact .inr ⟨names, hmem⟩
  · intro hp
    rcases hp with rfl | ⟨names, hmem⟩
    · exact ⟨_, .inl ⟨rfl, rfl⟩⟩
    · exact ⟨names, .inr hmem⟩

/-- Nothing in a directory is queued or listed before the directory is. -/
theorem Covering.not_entry (h : Covering env d₀ top pending s) (hdir : ¬ s.Listed dir)
    (hp : p ∈ s.queued ++ pending ∨ s.Listed p) (n : String) : p ≠ dir ++ [n] := by
  rintro rfl
  have habove := h.above _ hp (by simp)
  rw [List.dropLast_concat] at habove
  exact hdir habove

/-- **A listing**: the entries of the directory are to go. -/
theorem Covering.start (h : Covering env d₀ top [] s) (hgrown : DiskGrown d₀ s.disk) {queue : List (Path × String)}
    (hqueue : s.queue = (dir, parentNodeId) :: queue) {calls looks : ℕ} {entries : List EntryInfo}
    (hnames : (entries.map EntryInfo.name).Perm (s.disk.names dir)) (hpath : ∀ e ∈ entries, e.path = dir ++ [e.name])
    (hisDir : d₀.isDir dir = true) :
    Covering env d₀ top (entries.map EntryInfo.path)
      { s with queue, calls, looks, listed := (dir, s.disk.names dir) :: s.listed } := by
  let t : Pass := { s with queue, calls, looks, listed := (dir, s.disk.names dir) :: s.listed }
  have hqueued : s.queued ++ [] = dir :: queue.map Prod.fst := by
    rw [List.append_nil, Pass.queued, hqueue, List.map_cons]
  have hold := h.apart
  rw [hqueued, List.nodup_cons] at hold
  have hfirst : dir ∈ s.queued ++ [] := by rw [hqueued]; exact List.mem_cons_self
  have hrest : ∀ p ∈ queue.map Prod.fst, p ∈ s.queued ++ [] := by
    intro p hp
    rw [hqueued]
    exact List.mem_cons_of_mem _ hp
  have hdir : ¬ s.Listed dir := h.fresh dir hfirst
  have hentry : ∀ p, p ∈ entries.map EntryInfo.path ↔ ∃ n ∈ s.disk.names dir, p = dir ++ [n] :=
    fun p => mem_entryPaths hnames hpath
  have hlisted : ∀ p, t.Listed p ↔ p = dir ∨ s.Listed p := fun p => listed_cons rfl
  -- what was in the queue is listed now, or is in the queue still
  have hmoved : ∀ p, p ∈ s.queued ++ [] → p ∈ queue.map Prod.fst ∨ t.Listed p := by
    intro p hp
    rw [hqueued] at hp
    rcases List.mem_cons.mp hp with he | hp
    · exact .inr ((hlisted p).mpr (.inl he))
    · exact .inl hp
  refine {
    root := ?root, above := fun p hp hne => ?above, apart := ?apart, fresh := fun p hp hl => ?fresh
    reached := fun k p name hp hd hl => ?reached, stands := fun p names hp n hn => ?stands }
  case root =>
    rcases h.root with hmem | hl
    · exact hmoved [] (List.mem_append_left _ hmem)
    · exact .inr ((hlisted []).mpr (.inr hl))
  case above =>
    refine (hlisted _).mpr ?_
    rcases hp with hp | hp
    · rcases List.mem_append.mp hp with hp | hp
      · exact .inr (h.above p (.inl (hrest p hp)) hne)
      · obtain ⟨n, -, rfl⟩ := (hentry p).mp hp
        exact .inl List.dropLast_concat
    · rcases (hlisted p).mp hp with rfl | hp
      · exact .inr (h.above p (.inl hfirst) hne)
      · exact .inr (h.above p (.inr hp) hne)
  case apart =>
    have hpaths := nodup_entryPaths (List.nodup_dedup _) hnames hpath
    refine List.nodup_append.mpr ⟨hold.2, hpaths, fun p hp p' hp' => ?_⟩
    obtain ⟨n, -, rfl⟩ := (hentry p').mp hp'
    exact h.not_entry hdir (.inl (hrest p hp)) n
  case fresh =>
    rcases (hlisted p).mp hl with rfl | hl
    · rcases List.mem_append.mp hp with hp | hp
      · exact hold.1 hp
      · obtain ⟨n, -, he⟩ := (hentry p).mp hp
        have hlength := congrArg List.length he
        simp at hlength
    · rcases List.mem_append.mp hp with hp | hp
      · exact h.fresh p (hrest p hp) hl
      · obtain ⟨n, -, he⟩ := (hentry p).mp hp
        exact h.not_entry hdir (.inr hl) n he
  case reached =>
    rcases (hlisted p).mp hl with rfl | hl
    · refine .inl (List.mem_append_right _ ((hentry _).mpr ⟨name, ?_, rfl⟩))
      have hstands := isDir_eq.mp (hgrown.isDir_iff.mpr hd)
      rw [lstat_append] at hstands
      split at hstands
      · exact mem_names.mpr (by rw [hstands]; rfl)
      · cases hstands
    · rcases h.reached k p name hp hd hl with hmem | hmem
      · exact (hmoved _ hmem).imp_left (List.mem_append_left _)
      · exact .inr ((hlisted _).mpr (.inr hmem))
  case stands =>
    rcases List.mem_cons.mp hp with he | hp
    · obtain ⟨rfl, rfl⟩ := Prod.mk.inj he
      show (s.disk.lstat (p ++ [n])).isSome
      rw [lstat_append, if_pos (hgrown.isDir_iff.mpr hisDir)]
      exact mem_names.mp hn
    · exact h.stands p names hp n hn

end Covering

/-! ### After the walk -/

/-- A live node that is found. -/
def Found (m : Mirror) (d : Disk FileData) (folderId top nodeId : String) : Prop :=
  ∃ p, PathFrom (m.places folderId) top nodeId p ∧ d.present p = true

/-- Where the mirror has something below a node, nothing else than a directory stands: not at the path of the node
and, when the node is not found, nowhere under its name; what stands at the path of a file is found.  A node that is
not found and has something below has no name that a conflict copy could have. -/
structure Fits (env : PushEnv) (m : Mirror) (d : Disk FileData) (top : String) : Prop where
  stands : ∀ c ∈ m.places env.folderId, ∀ q x, d.lstat q = some x → x.isDir = false → q.getLast? = some c.name →
    PathFrom (m.places env.folderId) top c.key q ∨ ¬ Found m d env.folderId top c.key →
      d.present q = true ∧ ∀ b ∈ m.places env.folderId, b.parent ≠ some c.key
  copies : ∀ c ∈ m.places env.folderId, ∀ b ∈ m.places env.folderId, b.parent = some c.key →
    isConflictCopyName c.name = true → Found m d env.folderId top c.key

section After

variable {env : PushEnv} {m₀ : Mirror} {d₀ : Disk FileData} {top k : String} {T : String → Prop} {W : Pass} {p : Path}

/-- Behind the walk every directory that is the path of a node is listed. -/
theorem Covering.listed (h : Covering env d₀ top [] W) (hqueue : W.queue = [])
    (hp : PathFrom (W.mirror.places env.folderId) top k p) (hdir : d₀.isDir p = true) : W.Listed p := by
  have hnone : W.queued ++ [] = [] := by rw [Pass.queued, hqueue]; rfl
  induction p using List.reverseRecOn generalizing k with
  | nil =>
    rcases h.root with hmem | hl
    · rw [Pass.queued, hqueue] at hmem
      exact absurd hmem List.not_mem_nil
    · exact hl
  | append_singleton p n ih =>
    obtain ⟨j, hj⟩ := hp.above
    have habove : d₀.isDir p = true :=
      isDir_eq.mpr (lstat_above (isDir_eq.mp hdir) (List.prefix_append p [n]) (by simp))
    rcases h.reached k p n hp hdir (ih hj habove) with hmem | hl
    · rw [hnone] at hmem
      exact absurd hmem List.not_mem_nil
    · exact hl

end After

/-- A device whose requests are all applied, with ids that it never draws twice. -/
def drawingDevice : PushEnv := { calmDevice with
  newUuid := fun k => String.ofList (List.replicate (k + 1) 'v')
  answer := fun _ op => match op with
    | .create nodeId _ _ _ => .applied 3 nodeId
    | .mutate nodeId _ _ => .applied 3 nodeId }

theorem drawn_ne (k : ℕ) {name : String} (h : name.toList.head? ≠ some 'v') : drawingDevice.newUuid k ≠ name := by
  rintro rfl
  exact h (by simp [drawingDevice, List.replicate_succ])

theorem distinct_drawn : Function.Injective drawingDevice.newUuid := by
  intro i j h
  have hlength := congrArg String.length h
  simpa [drawingDevice] using hlength

end Valv.Client
