import Valv.Client.Entries

/-!
# A walk over one tree

Where the mirror is one tree and nothing fails, the walk of `push_local` goes over directories of the disk that are
paths of nodes, and keeps to the nodes that it finds.

* `Orderly`: the mirror and the disk before a pass.
* `Sparing`: nodes that are left alone, with all that is above them.
* `Walking`: what holds between two entries; `Walking.step`: an entry keeps it.
* `InDir.start`, `entries_run`, `walk_run`: the loops.
-/

namespace Valv.Client

open Valv.Conc Valv.Table Valv.Server Valv.Files Valv.NamedTree

/-! ### Paths of nodes -/

section Paths

variable {env : PushEnv} {s : Pass} {m : Mirror} {entry : EntryInfo} {node : LocalNode}
  {folderId parentNodeId nodeId top k : String} {p dir : Path}

theorem mem_liveNodes : node ∈ m.liveNodes folderId ↔ node ∈ m.nodes ∧ node.folderId = folderId ∧ node.deletedAt = none := by
  simp [Mirror.liveNodes]

theorem place_mem (h : node ∈ m.liveNodes folderId) : node.place ∈ m.places folderId := List.mem_map_of_mem h

theorem known_mem (h : s.known env parentNodeId entry = some node) :
    node ∈ s.mirror.liveNodes env.folderId ∧ node.parentId = some parentNodeId ∧ node.name = entry.name := by
  have hmem := List.mem_of_find?_eq_some h
  have hrow := List.find?_some h
  simp only [Bool.and_eq_true, decide_eq_true_eq, Option.isNone_iff_eq_none] at hrow
  exact ⟨mem_liveNodes.mpr ⟨hmem, hrow.1.1.1, hrow.2⟩, hrow.1.1.2, hrow.1.2⟩

/-- The node that an entry is looked up as has the entry's path. -/
theorem path_of_known (h : s.known env parentNodeId entry = some node)
    (hdir : PathFrom (s.mirror.places env.folderId) top parentNodeId dir) (hpath : entry.path = dir ++ [entry.name]) :
    PathFrom (s.mirror.places env.folderId) top node.nodeId entry.path := by
  obtain ⟨hlive, hparent, hname⟩ := known_mem h
  rw [hpath, ← hname]
  exact hdir.child (place_mem hlive) hparent

/-- A node with the entry's path is found by parent and name. -/
theorem known_of_path (htree : IsTree (s.mirror.places env.folderId) top)
    (hdir : PathFrom (s.mirror.places env.folderId) top parentNodeId dir) (hpath : entry.path = dir ++ [entry.name])
    (h : PathFrom (s.mirror.places env.folderId) top k entry.path) :
    ∃ node, s.known env parentNodeId entry = some node ∧ node.nodeId = k := by
  rw [hpath] at h
  obtain ⟨c, hc, rfl, hname, b, hparent, hb⟩ := h.last
  obtain rfl := htree.key_unique hb hdir
  obtain ⟨r, hr, hfolder, hlive, rfl⟩ := mem_places.mp hc
  have hfound : (s.known env b entry).isSome := by
    rw [Pass.known, Mirror.getNodeByParentAndName, List.find?_isSome]
    refine ⟨r, hr, ?_⟩
    simp only [Bool.and_eq_true, decide_eq_true_eq, Option.isNone_iff_eq_none]
    exact ⟨⟨⟨hfolder, hparent⟩, hname⟩, hlive⟩
  obtain ⟨node, hnode⟩ := Option.isSome_iff_exists.mp hfound
  obtain ⟨hmem, hparent', hname'⟩ := known_mem hnode
  have hsame := htree.siblings _ (place_mem hmem) _ hc (hparent'.trans hparent.symm) (hname'.trans hname.symm)
  exact ⟨node, hnode, congrArg Place.key hsame⟩

/-- The path that `local_node_abs_path` comes to is the node's path in the tree. -/
theorem path_of_absPath (htree : IsTree (m.places folderId) top) {scopeNodeId : Option String}
    (hscope : scopeNodeId = none ∨ scopeNodeId = some top) {fuel : ℕ} (hnode : node ∈ m.liveNodes folderId)
    (h : localNodeAbsPath (m.liveNodes folderId) scopeNodeId fuel node = some (some p)) :
    PathFrom (m.places folderId) top node.nodeId p := by
  induction fuel generalizing node p with
  | zero => cases h
  | succ fuel ih =>
    rw [localNodeAbsPath] at h
    split at h
    · next hscoped =>
      cases h
      rcases hscope with hnone | htop
      · rw [hnone] at hscoped
        cases hscoped
      · rw [htop] at hscoped
        rw [← Option.some.inj hscoped]
        exact .here
    · split at h
      · next hparent =>
        cases h
        have htop := (htree.top _ (place_mem hnode)).mp hparent
        rw [show node.nodeId = top from htop]
        exact .here
      · next parentId hparent =>
        split at h
        · cases h
        · next parent hlookup =>
          obtain ⟨above, habove, hp⟩ := Option.map_eq_some_iff.mp h
          obtain ⟨q, rfl, rfl⟩ := Option.map_eq_some_iff.mp hp
          have hid : parent.nodeId = parentId := lookup_key hlookup
          exact (ih (mem_of_lookup hlookup) habove).child (place_mem hnode) (hid ▸ hparent)

theorem plain_of_path (hplain : ∀ c ∈ m.places folderId, c.parent.isSome → plainName c.name = true)
    (h : PathFrom (m.places folderId) top k p) : Path.plain p = true := by
  induction h with
  | here => rfl
  | child _ hc hparent ih =>
    rw [Path.plain, List.all_append, Bool.and_eq_true]
    exact ⟨ih, by simpa using hplain _ hc (by rw [hparent]; rfl)⟩

end Paths

/-! ### Before the pass -/

/-- The mirror is one tree, with names of entries, in which only folders have something below; the mount directory is
there; and no call fails.  The ids that are drawn are new. -/
structure Orderly (env : PushEnv) (m : Mirror) (d : Disk FileData) (top : String) : Prop where
  steady : env.Steady
  disk : DiskOk d
  root : d.isDir [] = true
  keyed : (m.nodes.map LocalNode.nodeId).Nodup
  tree : IsTree (m.places env.folderId) top
  rooted : ∃ c ∈ m.places env.folderId, c.key = top
  scope : env.scopeNodeId = none ∨ env.scopeNodeId = some top
  plain : ∀ c ∈ m.places env.folderId, c.parent.isSome → plainName c.name = true
  folders : ∀ c ∈ m.places env.folderId, ∀ b ∈ m.places env.folderId, c.parent = some b.key → b.kind = .folder
  drawn : ∀ k, ∀ c ∈ m.places env.folderId, env.newUuid k ≠ c.key ∧ c.parent ≠ some (env.newUuid k)

/-- These nodes are to be left alone, and so are those above them.  Those that are not found have no name that a
conflict copy could have. -/
structure Sparing (env : PushEnv) (m : Mirror) (d : Disk FileData) (top : String) (T : String → Prop) : Prop where
  above : ∀ c ∈ m.places env.folderId, T c.key → ∀ b, c.parent = some b → T b
  named : ∀ k p name, T k → PathFrom (m.places env.folderId) top k (p ++ [name]) → d.present (p ++ [name]) = false →
    isConflictCopyName name = false
  drawn : ∀ k, ¬ T (env.newUuid k)

/-! ### The invariant -/

/-- The node is at an entry of its type. -/
def OfEntry (env : PushEnv) (d₀ : Disk FileData) (top : String) (s : Pass) (c : Place String String NodeType) : Prop :=
  ∃ q, PathFrom (s.mirror.places env.folderId) top c.key q ∧
    (c.kind = .folder ∧ d₀.isDir q = true ∨ c.kind = .file ∧ ∃ f, s.disk.lstat q = some (.file f))

/-- What holds between two entries of a walk that began with the mirror `m₀` and the disk `d₀`.  A node is where it
was, or at an entry; those that were found are where they were, and so are those that are left alone. -/
structure Walking (env : PushEnv) (m₀ : Mirror) (d₀ : Disk FileData) (top : String) (T : String → Prop) (s : Pass) :
    Prop where
  keyed : (s.mirror.nodes.map LocalNode.nodeId).Nodup
  tree : IsTree (s.mirror.places env.folderId) top
  rooted : ∃ c ∈ s.mirror.places env.folderId, c.key = top
  plain : ∀ c ∈ s.mirror.places env.folderId, c.parent.isSome → plainName c.name = true
  grown : DiskGrown d₀ s.disk
  kept : ∀ k p, PathFrom (m₀.places env.folderId) top k p → d₀.present p = true →
    PathFrom (s.mirror.places env.folderId) top k p
  placed : ∀ c ∈ s.mirror.places env.folderId, c ∈ m₀.places env.folderId ∨ OfEntry env d₀ top s c
  origin : ∀ c ∈ s.mirror.places env.folderId, (∃ c₀ ∈ m₀.places env.folderId, c₀.key = c.key ∧ c₀.kind = c.kind) ∨
    ∃ k < s.sent.length, env.newUuid k = c.key
  queue : ∀ e ∈ s.queue, PathFrom (s.mirror.places env.folderId) top e.2 e.1 ∧ d₀.isDir e.1 = true
  spared : ∀ c ∈ m₀.places env.folderId, T c.key → c ∈ s.mirror.places env.folderId
  current : ∀ k p, T k → PathFrom (m₀.places env.folderId) top k p → d₀.present p = false →
    s.mirror.current k = m₀.current k
  versions : ∀ v, env.Foreign v → s.mirror.getVersion v = m₀.getVersion v
  uploaded : ∀ h, s.mirror.isUploaded h = true → m₀.isUploaded h = true ∨
    ∃ p f, d₀.lstat p = some (.file f) ∧ ∃ c ∈ f.chunks, c.chunkHash = h

/-- An entry of the directory as the disk has it. -/
structure EntryInfo.On (d₀ : Disk FileData) (s : Pass) (dir : Path) (entry : EntryInfo) : Prop where
  path : entry.path = dir ++ [entry.name]
  plain : plainName entry.name = true
  dir : entry.type = .dir ↔ d₀.isDir entry.path = true
  file : entry.type = .file → ∃ f, s.disk.lstat entry.path = some (.file f)

section Steps

variable {env : PushEnv} {m₀ : Mirror} {d₀ : Disk FileData} {top parentNodeId nodeId k : String} {T : String → Prop}
  {s t : Pass} {entry : EntryInfo} {nodeType : NodeType} {node : LocalNode} {p dir : Path}

/-! ### What is known in a walk -/

theorem newType_some (h : s.newType env parentNodeId entry = some nodeType) : s.known env parentNodeId entry = none ∧
    (nodeType = .folder ∧ entry.type = .dir ∨
      nodeType = .file ∧ entry.type = .file ∧ isConflictCopyName entry.name = false) := by
  rw [Pass.newType] at h
  split at h
  · cases h
  · next hsome =>
    refine ⟨Option.not_isSome_iff_eq_none.mp hsome, ?_⟩
    split at h
    · next htype =>
      cases h
      exact .inl ⟨rfl, htype⟩
    · next htype =>
      split at h
      · cases h
      · next hcopy =>
        cases h
        exact .inr ⟨rfl, htype, Bool.eq_false_iff.mpr hcopy⟩
    · cases h

/-- A directory is found. -/
theorem present_of_isDir {d : Disk FileData} (h : d.isDir p = true) : d.present p = true :=
  present_of_lstat (isDir_eq.mp h) rfl

theorem Walking.present (h : Walking env m₀ d₀ top T s) (hdir : d₀.isDir p = true) : s.disk.present p = true :=
  h.grown.found p (present_of_isDir hdir)

/-- A node that is left alone is where it was. -/
theorem Walking.spared_path (hT : Sparing env m₀ d₀ top T) (h : Walking env m₀ d₀ top T s) (hk : T k)
    (hp : PathFrom (m₀.places env.folderId) top k p) :
    PathFrom (s.mirror.places env.folderId) top k p := by
  induction hp with
  | here => exact .here
  | @child b q c hb hc hparent ih => exact (ih (hT.above c hc hk b hparent)).child (h.spared c hc hk) hparent

/-- The node that an entry is taken for is not found, and the only such one. -/
theorem Walking.inferred (horder : Orderly env m₀ d₀ top) (h : Walking env m₀ d₀ top T s)
    (hnode : s.inferredAt env parentNodeId entry = some node) :
    ∃ nodeType path, s.newType env parentNodeId entry = some nodeType ∧ node ∈ s.mirror.liveNodes env.folderId ∧
      node.like entry parentNodeId nodeType = true ∧ PathFrom (s.mirror.places env.folderId) top node.nodeId path ∧
      s.disk.present path = false ∧ s.infers env entry parentNodeId nodeType = some node := by
  rw [Pass.inferredAt] at hnode
  split at hnode
  · cases hnode
  · obtain ⟨nodeType, htype, hinfers⟩ := Option.bind_eq_some_iff.mp hnode
    have hone := List.mem_singleton_self node
    rw [← (infers_some env entry parentNodeId nodeType hinfers).2] at hone
    obtain ⟨hmem, hlike, path, j, habs, hmissing⟩ := missingMoves_spec env entry parentNodeId nodeType hone
    have hpath := path_of_absPath h.tree horder.scope hmem habs
    refine ⟨nodeType, path, htype, hmem, hlike, hpath, ?_, hinfers⟩
    rw [horder.steady.quiet, Bool.false_or, Bool.not_eq_true', PushEnv.finds,
      if_pos (plain_of_path h.plain hpath)] at hmissing
    exact hmissing

/-! ### The steps -/

/-- Chunks that are marked come from files that were there. -/
theorem Walking.uploads (h : Walking env m₀ d₀ top T s)
    (hup : ∀ hash, t.mirror.isUploaded hash = true → s.mirror.isUploaded hash = true ∨
      ∃ p f, s.disk.lstat p = some (.file f) ∧ ∃ c ∈ f.chunks, c.chunkHash = hash) (hash : String)
    (hmarked : t.mirror.isUploaded hash = true) : m₀.isUploaded hash = true ∨
      ∃ p f, d₀.lstat p = some (.file f) ∧ ∃ c ∈ f.chunks, c.chunkHash = hash := by
  rcases hup hash hmarked with hold | ⟨p, f, hf, c, hc, hhash⟩
  · exact h.uploaded hash hold
  · obtain ⟨p', f', hf', hchunks⟩ := h.grown.chunks p f hf
    exact .inr ⟨p', f', hf', c, hchunks ▸ hc, hhash⟩

/-- What is on the disk at the node's entry stays there. -/
theorem OfEntry.of_grown {c : Place String String NodeType} (h : OfEntry env d₀ top s c)
    (hpath : ∀ q, s.disk.present q = true → PathFrom (s.mirror.places env.folderId) top c.key q →
      PathFrom (t.mirror.places env.folderId) top c.key q)
    (hgrown : DiskGrown s.disk t.disk) (hdirs : ∀ q, d₀.isDir q = true → s.disk.present q = true) :
    OfEntry env d₀ top t c := by
  obtain ⟨q, hq, hwhat⟩ := h
  rcases hwhat with ⟨hkind, hdir⟩ | ⟨hkind, f, hf⟩
  · exact ⟨q, hpath q (hdirs q hdir) hq, .inl ⟨hkind, hdir⟩⟩
  · exact ⟨q, hpath q (present_of_lstat hf rfl) hq, .inr ⟨hkind, f, hgrown.old q _ hf rfl⟩⟩

/-- The tree is as it was. -/
theorem Walking.still {x : Option String} (h : Walking env m₀ d₀ top T s) (ht : Still env x s t)
    (hx : ∀ j q, x = some j → T j → PathFrom (m₀.places env.folderId) top j q → d₀.present q = false → False) :
    Walking env m₀ d₀ top T t where
  keyed := by
    rw [ht.mirror.ids]
    exact h.keyed
  tree := by
    rw [ht.mirror.places]
    exact h.tree
  rooted := by
    rw [ht.mirror.places]
    exact h.rooted
  plain := by
    rw [ht.mirror.places]
    exact h.plain
  grown := h.grown.trans (ht.disk h.grown.ok)
  kept j q hq hpresent := by
    rw [ht.mirror.places]
    exact h.kept j q hq hpresent
  placed c hc := by
    rw [ht.mirror.places] at hc
    refine (h.placed c hc).imp_right fun hs => hs.of_grown (fun q _ hq => ?_) (ht.disk h.grown.ok) fun q => h.present
    rw [ht.mirror.places]
    exact hq
  origin c hc := by
    rw [ht.mirror.places] at hc
    refine (h.origin c hc).imp_right fun hdrawn => ?_
    obtain ⟨j, hj, hkey⟩ := hdrawn
    exact ⟨j, Nat.lt_of_lt_of_le hj ht.sent, hkey⟩
  queue e he := by
    rw [ht.queue] at he
    rw [ht.mirror.places]
    exact h.queue e he
  spared c hc hk := by
    rw [ht.mirror.places]
    exact h.spared c hc hk
  current j q hj hq habsent := by
    rw [← h.current j q hj hq habsent]
    exact ht.mirror.current j fun hxj => hx j q hxj hj hq habsent
  versions v hv := (ht.versions v hv).trans (h.versions v hv)
  uploaded := h.uploads (ht.uploaded h.grown.ok)

/-- A node is put, or made, where the entry is: it was not found before. -/
theorem Walking.relinked (h : Walking env m₀ d₀ top T s) (ht : Relinked env entry parentNodeId nodeType nodeId s t)
    (hdir : PathFrom (s.mirror.places env.folderId) top parentNodeId dir) (hisDir : d₀.isDir dir = true)
    (hon : entry.On d₀ s dir) (htype : s.newType env parentNodeId entry = some nodeType)
    (hoff : ∀ q, PathFrom (s.mirror.places env.folderId) top nodeId q → s.disk.present q = false) (htop : nodeId ≠ top)
    (horigin : (∃ c₀ ∈ m₀.places env.folderId, c₀.key = nodeId ∧ c₀.kind = nodeType) ∨
      ∃ j < t.sent.length, env.newUuid j = nodeId) (hT : ¬ T nodeId) :
    Walking env m₀ d₀ top T t ∧ ∀ j q, s.disk.present q = true → PathFrom (s.mirror.places env.folderId) top j q →
      PathFrom (t.mirror.places env.folderId) top j q := by
  let r := entry.place parentNodeId nodeType nodeId
  obtain ⟨hnone, hkind⟩ := newType_some htype
  have hkeep : ∀ j q, s.disk.present q = true → PathFrom (s.mirror.places env.folderId) top j q →
      PathFrom (t.mirror.places env.folderId) top j q := by
    intro j q hpresent hq
    refine hq.kept ht.places fun q' hq' hr => ?_
    obtain ⟨rest, rfl⟩ := hq'
    have habsent := hoff q' hr
    rw [present_left h.grown.ok.links hpresent] at habsent
    cases habsent
  have hr : r ∈ t.mirror.places env.folderId := (ht.places r).mpr (.inr rfl)
  have hentry : PathFrom (t.mirror.places env.folderId) top nodeId entry.path := by
    rw [hon.path]
    exact (hkeep _ _ (h.present hisDir) hdir).child hr rfl
  have hgrown := ht.disk h.grown.ok
  refine ⟨{
    keyed := ht.keyed h.keyed
    grown := h.grown.trans hgrown
    versions := fun v hv => (ht.versions v hv).trans (h.versions v hv)
    uploaded := h.uploads (ht.uploaded h.grown.ok)
    tree := ?tree, rooted := ?rooted, plain := ?plain, kept := ?kept, placed := ?placed, origin := ?origin
    queue := ?queue, spared := ?spared, current := ?current }, hkeep⟩
  case tree =>
    refine ht.places.tree h.tree (b := parentNodeId) rfl htop fun c hc hparent hname => ?_
    have hc' := hdir.child hc hparent
    rw [hname] at hc'
    obtain ⟨node, hnode, -⟩ := known_of_path h.tree hdir hon.path (hon.path ▸ hc')
    rw [hnone] at hnode
    cases hnode
  case rooted =>
    obtain ⟨c, hc, hroot⟩ := h.rooted
    exact ⟨c, (ht.places c).mpr (.inl ⟨hc, fun hkey => htop (hkey.symm.trans hroot)⟩), hroot⟩
  case plain =>
    intro c hc hparent
    rcases (ht.places c).mp hc with ⟨hc, -⟩ | rfl
    · exact h.plain c hc hparent
    · exact hon.plain
  case kept =>
    exact fun j q hq hpresent => hkeep j q (h.grown.found q hpresent) (h.kept j q hq hpresent)
  case placed =>
    intro c hc
    rcases (ht.places c).mp hc with ⟨hc, -⟩ | rfl
    · exact (h.placed c hc).imp_right fun hs => hs.of_grown (fun q => hkeep _ q) hgrown fun q => h.present
    · refine .inr ⟨entry.path, hentry, ?_⟩
      rcases hkind with ⟨rfl, hkind⟩ | ⟨rfl, hkind, -⟩
      · exact .inl ⟨rfl, hon.dir.mp hkind⟩
      · obtain ⟨f, hf⟩ := hon.file hkind
        exact .inr ⟨rfl, f, hgrown.old _ _ hf rfl⟩
  case origin =>
    intro c hc
    rcases (ht.places c).mp hc with ⟨hc, -⟩ | rfl
    · refine (h.origin c hc).imp_right fun hdrawn => ?_
      obtain ⟨j, hj, hkey⟩ := hdrawn
      exact ⟨j, Nat.lt_of_lt_of_le hj ht.sent, hkey⟩
    · exact horigin
  case queue =>
    intro e he
    rw [ht.queue] at he
    rcases List.mem_append.mp he with he | he
    · obtain ⟨hq, hqdir⟩ := h.queue e he
      exact ⟨hkeep _ _ (h.present hqdir) hq, hqdir⟩
    · split at he
      · next hfolder =>
        rw [List.mem_singleton.mp he]
        rcases hkind with ⟨-, hkind⟩ | ⟨hfile, -⟩
        · exact ⟨hentry, hon.dir.mp hkind⟩
        · rw [hfolder] at hfile
          cases hfile
      · exact absurd he List.not_mem_nil
  case spared =>
    intro c hc hk
    refine (ht.places c).mpr (.inl ⟨h.spared c hc hk, fun hkey => hT ?_⟩)
    rw [← show c.key = nodeId from hkey]
    exact hk
  case current =>
    intro j q hj hq habsent
    rw [← h.current j q hj hq habsent]
    exact ht.current j fun hjn => hT (hjn ▸ hj)

/-- A node that is put where an entry is was not found before. -/
theorem Walking.put_spec (horder : Orderly env m₀ d₀ top) (hT : Sparing env m₀ d₀ top T) (h : Walking env m₀ d₀ top T s)
    (htaken : ∀ node, s.inferredAt env parentNodeId entry = some node → ¬ T node.nodeId)
    (htype : s.newType env parentNodeId entry = some nodeType)
    (hnode : (∃ node, s.inferredAt env parentNodeId entry = some node ∧ node.nodeId = nodeId) ∨
      nodeId = env.newUuid s.sent.length ∧ s.sent.length < t.sent.length) (hsent : s.sent.length ≤ t.sent.length) :
    (∀ q, PathFrom (s.mirror.places env.folderId) top nodeId q → s.disk.present q = false) ∧ nodeId ≠ top ∧
      ((∃ c₀ ∈ m₀.places env.folderId, c₀.key = nodeId ∧ c₀.kind = nodeType) ∨
        ∃ j < t.sent.length, env.newUuid j = nodeId) ∧ ¬ T nodeId := by
  rcases hnode with ⟨node, hnode, rfl⟩ | ⟨rfl, hlt⟩
  · obtain ⟨nodeType', path, htype', hmem, hlike, hpath, habsent, -⟩ := h.inferred horder hnode
    obtain rfl : nodeType' = nodeType := Option.some.inj (htype'.symm.trans htype)
    have hoff : ∀ q, PathFrom (s.mirror.places env.folderId) top node.nodeId q → s.disk.present q = false := by
      intro q hq
      rw [h.tree.path_unique hq hpath]
      exact habsent
    refine ⟨hoff, fun he => ?_, ?_, htaken node hnode⟩
    · have hroot := hoff [] (he ▸ .here)
      rw [h.present horder.root] at hroot
      cases hroot
    · rw [LocalNode.like, Bool.and_eq_true, decide_eq_true_eq] at hlike
      rcases h.origin _ (place_mem hmem) with ⟨c₀, hc₀, hkey, hkind⟩ | ⟨j, hj, hkey⟩
      · exact .inl ⟨c₀, hc₀, hkey, hkind.trans hlike.1⟩
      · exact .inr ⟨j, Nat.lt_of_lt_of_le hj hsent, hkey⟩
  · obtain ⟨c₀, hc₀, hroot⟩ := horder.rooted
    have htop : env.newUuid s.sent.length ≠ top := fun he => (horder.drawn s.sent.length c₀ hc₀).1 (he.trans hroot.symm)
    refine ⟨fun q hq => ?_, htop, .inr ⟨_, hlt, rfl⟩, hT.drawn _⟩
    -- the id is that of no node
    rcases List.eq_nil_or_concat q with rfl | ⟨q, n, rfl⟩
    · exact absurd hq.key_of_nil htop
    · rw [List.concat_eq_append] at hq
      obtain ⟨c, hc, hkey, -⟩ := hq.last
      rcases h.origin c hc with ⟨c₁, hc₁, hkey₁, -⟩ | ⟨j, hj, hkey'⟩
      · exact absurd (hkey.symm.trans hkey₁.symm) (horder.drawn s.sent.length c₁ hc₁).1
      · have hsame := horder.steady.distinct (hkey'.trans hkey)
        omega

/-- What an entry leaves is again such a state, and the directory is still that of its node. -/
structure Walking.Onward (env : PushEnv) (m₀ : Mirror) (d₀ : Disk FileData) (top : String) (T : String → Prop)
    (s t : Pass) : Prop where
  walking : Walking env m₀ d₀ top T t
  grown : DiskGrown s.disk t.disk
  kept : ∀ j q, s.disk.present q = true → PathFrom (s.mirror.places env.folderId) top j q →
    PathFrom (t.mirror.places env.folderId) top j q

/-- **One entry** keeps the invariant, if it is not taken for a node that is to be left alone. -/
theorem Walking.step (horder : Orderly env m₀ d₀ top) (hT : Sparing env m₀ d₀ top T) (h : Walking env m₀ d₀ top T s)
    (hdir : PathFrom (s.mirror.places env.folderId) top parentNodeId dir) (hisDir : d₀.isDir dir = true)
    (hon : entry.On d₀ s dir)
    (htaken : ∀ node, s.inferredAt env parentNodeId entry = some node → ¬ T node.nodeId)
    (ht : Outcome env parentNodeId entry s t) : Walking.Onward env m₀ d₀ top T s t := by
  cases ht with
  | still ht hfile hnew =>
    refine ⟨h.still ht fun j q hx hj hq habsent => ?_, ht.disk h.grown.ok, fun j q _ hq => ?_⟩
    · -- the node that is left alone would be found at the entry
      obtain ⟨htype, node, hnode, rfl⟩ := hfile j hx
      obtain ⟨f, hf⟩ := hon.file htype
      have hsame := h.tree.path_unique (h.spared_path hT hj hq) (path_of_known hnode hdir hon.path)
      rcases h.grown.new _ _ hf with hold | ⟨-, -, name, hlast, hcopy⟩
      · rw [← hsame] at hold
        rw [present_of_lstat hold rfl] at habsent
        cases habsent
      · rw [hon.path, List.getLast?_concat] at hlast
        rw [hsame, hon.path] at hq habsent
        rw [← Option.some.inj hlast, hT.named node.nodeId dir entry.name hj hq habsent] at hcopy
        cases hcopy
    · rw [ht.mirror.places]
      exact hq
  | @entered node htype hnode ht =>
    have hstill : Still env none s { t with queue := s.queue } := .of_same ht.mirror ht.disk rfl ht.listed (by rw [ht.sent])
    have hsame := h.still hstill fun _ _ => nofun
    refine ⟨{ hsame with queue := fun e he => ?_ }, ?_, fun j q _ hq => ?_⟩
    · rw [ht.queue] at he
      rw [ht.mirror]
      rcases List.mem_append.mp he with he | he
      · exact h.queue e he
      · rw [List.mem_singleton.mp he]
        exact ⟨path_of_known hnode hdir hon.path, hon.dir.mp htype⟩
    · rw [ht.disk]
      exact .refl h.grown.ok
    · rw [ht.mirror]
      exact hq
  | @put nodeType nodeId htype hnode ht =>
    obtain ⟨hoff, htop, horigin, hspared⟩ := h.put_spec horder hT htaken htype hnode ht.sent
    obtain ⟨hwalking, hkeep⟩ := h.relinked ht hdir hisDir hon htype hoff htop horigin hspared
    exact ⟨hwalking, ht.disk h.grown.ok, hkeep⟩

/-! ### The listing of a directory -/

theorem runBody_fsCall {α : Type} (f : Disk FileData → Option α) (s : Pass) : (fsCall env f).runBody s =
    ({ s with calls := s.calls + 1 }, .ok (if env.fails s.calls then none else f s.disk)) := rfl

/-- Where no call fails, every name of a directory gives an entry. -/
theorem readEntries_ok (hquiet : ∀ n, env.fails n = false) {names : List String}
    (hnames : ∀ n ∈ names, (s.disk.lstat (dir ++ [n])).isSome) :
    ∃ calls entries, (readEntries env dir names).runBody s = ({ s with calls }, .ok (entries, true)) ∧
      entries.map EntryInfo.name = names ∧
      ∀ e ∈ entries, e.path = dir ++ [e.name] ∧ ∃ x, s.disk.lstat e.path = some x ∧ e.type = entryType x := by
  induction names generalizing s with
  | nil => exact ⟨s.calls, [], rfl, rfl, fun e he => absurd he List.not_mem_nil⟩
  | cons name names ih =>
    obtain ⟨x, hx⟩ := Option.isSome_iff_exists.mp (hnames name List.mem_cons_self)
    obtain ⟨calls, entries, hrun, hentries, hall⟩ :=
      ih (s := { s with calls := s.calls + 1 + 1 }) fun n hn => hnames n (List.mem_cons_of_mem _ hn)
    refine ⟨calls, { path := dir ++ [name], name, type := entryType x } :: entries, ?_, ?_, ?_⟩
    · rw [readEntries, Proc.runBody_bind, runBody_fsCall, hquiet]
      show (symlinkMetadata env (dir ++ [name]) >>= _).runBody _ = _
      rw [symlinkMetadata, Proc.runBody_bind, runBody_fsCall, hquiet]
      dsimp only
      rw [hx]
      show (readEntries env dir names >>= _).runBody _ = _
      rw [Proc.runBody_bind, hrun]
      rfl
    · rw [List.map_cons, hentries]
    · intro e he
      rcases List.mem_cons.mp he with rfl | he
      · exact ⟨rfl, x, hx, rfl⟩
      · exact hall e he

/-- A directory that is listed. -/
theorem listEntries_ok (hquiet : ∀ n, env.fails n = false) (hisDir : s.disk.isDir dir = true)
    {found : Option (List EntryInfo)} (hrun : (listEntries env dir).runBody s = (t, .ok found)) :
    ∃ calls entries, found = some entries ∧
      t = { s with calls, looks := s.looks + 1, listed := (dir, s.disk.names dir) :: s.listed } ∧
      (entries.map EntryInfo.name).Perm (s.disk.names dir) ∧
      ∀ e ∈ entries, e.path = dir ++ [e.name] ∧ ∃ x, s.disk.lstat e.path = some x ∧ e.type = entryType x := by
  have hnames : ∀ n ∈ s.disk.names dir, (s.disk.lstat (dir ++ [n])).isSome := by
    intro n hn
    rw [lstat_append, if_pos hisDir]
    exact mem_names.mp hn
  let s₁ : Pass := { s with looks := s.looks + 1, calls := s.calls + 1 }
  obtain ⟨calls, entries, hread, hentries, hall⟩ := readEntries_ok (s := s₁) hquiet hnames
  obtain ⟨-, hrun⟩ := look_ok hrun
  rw [readDir, Proc.runBody_bind, runBody_fsCall, hquiet] at hrun
  dsimp only at hrun
  rw [if_neg Bool.false_ne_true, if_pos hisDir] at hrun
  dsimp only at hrun
  rw [Proc.runBody_bind, hread] at hrun
  cases hrun
  have hsorted : (entries.insertionSort entryBefore).Perm entries := List.perm_insertionSort entryBefore entries
  refine ⟨calls, _, rfl, rfl, ?_, fun e he => hall e (hsorted.subset he)⟩
  rw [← hentries]
  exact hsorted.map EntryInfo.name

/-! ### The loops -/

/-- In the middle of a directory, with these entries to go. -/
structure InDir (env : PushEnv) (m₀ : Mirror) (d₀ : Disk FileData) (top : String) (T : String → Prop)
    (parentNodeId : String) (dir : Path) (rest : List EntryInfo) (s : Pass) : Prop where
  walking : Walking env m₀ d₀ top T s
  path : PathFrom (s.mirror.places env.folderId) top parentNodeId dir
  isDir : d₀.isDir dir = true
  on : ∀ entry ∈ rest, entry.On d₀ s dir

/-- No entry is ever taken for a node that is to be left alone. -/
def Unmistaken (env : PushEnv) (m₀ : Mirror) (d₀ : Disk FileData) (top : String) (T : String → Prop) : Prop :=
  ∀ parentNodeId dir entry rest s, InDir env m₀ d₀ top T parentNodeId dir (entry :: rest) s →
    ∀ node, s.inferredAt env parentNodeId entry = some node → ¬ T node.nodeId

theorem EntryInfo.On.mono (h : entry.On d₀ s dir) (hgrown : DiskGrown s.disk t.disk) : entry.On d₀ t dir where
  path := h.path
  plain := h.plain
  dir := h.dir
  file htype := by
    obtain ⟨f, hf⟩ := h.file htype
    exact ⟨f, hgrown.old _ _ hf rfl⟩

/-- **One entry** of a directory. -/
theorem InDir.step (horder : Orderly env m₀ d₀ top) (hT : Sparing env m₀ d₀ top T)
    (htaken : Unmistaken env m₀ d₀ top T) {rest : List EntryInfo}
    (h : InDir env m₀ d₀ top T parentNodeId dir (entry :: rest) s)
    (hrun : (processEntry env parentNodeId entry).runBody s = (t, .ok ())) :
    Outcome env parentNodeId entry s t ∧ InDir env m₀ d₀ top T parentNodeId dir rest t := by
  have hon := h.on entry List.mem_cons_self
  have hne : entry.path ≠ [] := by
    rw [hon.path]
    simp
  have hout := processEntry_outcome horder.steady h.walking.keyed hne hrun
  have hnext := h.walking.step horder hT h.path h.isDir hon (htaken _ _ _ _ _ h) hout
  exact ⟨hout, hnext.walking, hnext.kept _ _ (h.walking.present h.isDir) h.path, h.isDir,
    fun e he => (h.on e (List.mem_cons_of_mem _ he)).mono hnext.grown⟩

/-- A directory of the queue is listed. -/
theorem InDir.start (horder : Orderly env m₀ d₀ top) (h : Walking env m₀ d₀ top T s) {queue : List (Path × String)}
    (hqueue : s.queue = (dir, parentNodeId) :: queue) {found : Option (List EntryInfo)}
    (hrun : (listEntries env dir).runBody { s with queue } = (t, .ok found)) :
    ∃ calls entries, found = some entries ∧
      t = { s with queue, calls, looks := s.looks + 1, listed := (dir, s.disk.names dir) :: s.listed } ∧
      (entries.map EntryInfo.name).Perm (s.disk.names dir) ∧ InDir env m₀ d₀ top T parentNodeId dir entries t := by
  obtain ⟨hpath, hisDir⟩ := h.queue (dir, parentNodeId) (hqueue ▸ List.mem_cons_self)
  have hdir : s.disk.isDir dir = true := h.grown.isDir_iff.mpr hisDir
  obtain ⟨calls, entries, rfl, rfl, hnames, hall⟩ :=
    listEntries_ok (s := { s with queue }) horder.steady.quiet hdir hrun
  refine ⟨calls, entries, rfl, rfl, hnames, ⟨h.keyed, h.tree, h.rooted, h.plain, h.grown, h.kept, h.placed, h.origin, ?_,
    h.spared, h.current, h.versions, h.uploaded⟩, hpath, hisDir, fun e he => ?_⟩
  · exact fun e he => h.queue e (hqueue ▸ List.mem_cons_of_mem _ he)
  · obtain ⟨hpath, x, hx, htype⟩ := hall e he
    refine ⟨hpath, ?_, ?_, fun hfile => ?_⟩
    · have hplain := plain_of_lstat h.grown.ok hx
      rw [hpath, Path.plain, List.all_append, Bool.and_eq_true] at hplain
      simpa using hplain.2
    · rw [← h.grown.isDir_iff, isDir_eq, hx, htype]
      cases x <;> simp [entryType]
    · rw [htype] at hfile
      cases x with
      | file f => exact ⟨f, hx⟩
      | dir => cases hfile
      | symlink behind => cases hfile
      | other => cases hfile

theorem Walking.start (horder : Orderly env m₀ d₀ top) :
    Walking env m₀ d₀ top T { mirror := m₀, disk := d₀, looks := 1, queue := [([], top)] } where
  keyed := horder.keyed
  tree := horder.tree
  rooted := horder.rooted
  plain := horder.plain
  grown := .refl horder.disk
  kept _ _ hq _ := hq
  placed _ hc := .inl hc
  origin c hc := .inl ⟨c, hc, rfl, rfl⟩
  queue e he := by
    rw [List.mem_singleton.mp he]
    exact ⟨.here, horder.root⟩
  spared _ hc _ := hc
  current _ _ _ _ _ := rfl
  versions _ _ := rfl
  uploaded _ hup := .inl hup

end Steps

end Valv.Client
