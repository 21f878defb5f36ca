import Valv.Daemon.CheckoutCalls

/-!
# The files of a whole mount

`materialize_mount_files` brings a mount to what its mirror says: it removes what the tombstones stand for, and then
goes through the live nodes from the root down.  When it succeeds, every live node has its directory or its file.

* `Shown`: a live node and its names from the root down.
* `CleanTree`, `TempNames`: what is asked of the mirror and of the names of temporary files.
* `Realized`: what stands at the place of a node.
* `visit_ok`, `materializeEach_ok`: one visit, and all of them.
* `materialized_mount_shows_its_nodes`: the whole pass.
-/

namespace Valv.Daemon

open Valv.Conc Valv.Table Valv.Server Valv.Files Valv.Paths Valv.Traverse

variable {φ : Type}

/-! ### What is asked for -/

section Spec

variable (m : Client.Mirror) (mount : MountState)

/-- The first live node without a parent, by name, as `materialize_mount_files` picks it. -/
def LiveRoot (root : Client.LocalNode) : Prop := rootOf ((liveNodes m mount).insertionSort rootFirst) = some root

/-- The node is live, and these are the names on the way to it from the live root of the mount through live nodes.
Such a node is the one that the materialization has to show on the disk. -/
def Shown (node : Client.LocalNode) (names : List String) : Prop :=
  ∃ root, LiveRoot m mount root ∧ node ∈ liveNodes m mount ∧ names ≠ [] ∧
    NamedFrom (liveNodes m mount) root node.nodeId names

/-- The mirror is a tree of named nodes with folders above them, and each version is one node's. -/
structure CleanTree : Prop extends MirrorTree m where
  named : ∀ a ∈ liveNodes m mount, a.parentId.isSome → a.name ≠ ""
  parents : ∀ a ∈ liveNodes m mount, ∀ b ∈ liveNodes m mount, a.parentId = some b.nodeId → b.nodeType = .folder
  versions : ∀ a ∈ liveNodes m mount, ∀ b ∈ liveNodes m mount, a.currentVersionId.isSome →
    a.currentVersionId = b.currentVersionId → a = b

/-- The temporary files of `write_atomic` are apart from the nodes: what is made of a UUID has no separator in it,
and no live node has the name of such a file. -/
structure TempNames (env : CheckoutEnv φ) : Prop where
  slash : ∀ n, '/' ∉ (env.newUuid n).toList
  apart : ∀ a ∈ liveNodes m env.mount, ∀ name n, a.name ≠ tempName name (env.newUuid n)

end Spec

/-- The node is to have something on the disk: it is a folder, or a file with a version to be downloaded. -/
def HasPlace (node : Client.LocalNode) : Prop := node.nodeType = .folder ∨ node.currentVersionId.isSome

/-- The place of a node holds what the mirror says: a directory, or a file with the content of the current version,
which has its row, or what was there before when it was marked as this content. -/
def Realized (env : CheckoutEnv φ) (s s' : Checkout φ) (node : Client.LocalNode) (names : List String) : Prop :=
  match node.nodeType with
  | .folder => s'.disk.lstat names = some .dir
  | .file => ∀ versionId, node.currentVersionId = some versionId →
      s'.mirror.hasMaterializedContentForVersion versionId = true ∧
        ((s.mirror.hasMaterializedContentForVersion versionId = true ∧ s.disk.lstat names ≠ none ∧
            s'.disk.lstat names = s.disk.lstat names) ∨
          ∃ version bytes n, Checkout.ContentOf env node.nodeId versionId version bytes ∧
            s'.disk.lstat names = some (.file (env.file n bytes)) ∧
            s'.mirror.getVersion versionId =
              some (Checkout.versionRow env node.nodeId version true))

/-! ### Shown nodes -/

section Shown

variable {m : Client.Mirror} {env : CheckoutEnv φ} {node other : Client.LocalNode} {names names' : List String}

theorem CleanTree.plain {mount : MountState} (h : CleanTree m mount) {a : Client.LocalNode}
    (ha : a ∈ liveNodes m mount) (hparent : a.parentId.isSome) : Plain a.name := by
  obtain ⟨hmem, -, hlive⟩ := mem_liveNodes.mp ha
  exact h.names a hmem hlive hparent (h.named a ha hparent)

theorem CleanTree.eq_of_id {mount : MountState} (h : CleanTree m mount) {a b : Client.LocalNode}
    (ha : a ∈ liveNodes m mount) (hb : b ∈ liveNodes m mount) (hid : a.nodeId = b.nodeId) : a = b :=
  List.inj_on_of_nodup_map h.keys (mem_liveNodes.mp ha).1 (mem_liveNodes.mp hb).1 hid

theorem Shown.live {mount : MountState} (h : Shown m mount node names) : node ∈ liveNodes m mount := by
  obtain ⟨-, -, hlive, -⟩ := h
  exact hlive

/-- A shown node is found on the way down. -/
theorem Shown.descend {mount : MountState} (hclean : CleanTree m mount) {root : Client.LocalNode}
    (hroot : LiveRoot m mount root) (h : Shown m mount node names) :
    descend m mount.folderId root (names.map .normal) = some node := by
  obtain ⟨root', hroot', hlive, hne, hnamed⟩ := h
  cases hroot.symm.trans hroot'
  obtain ⟨found, hfound, hid⟩ := descend_of_placed hclean.toMirrorTree hnamed
  obtain ⟨-, hstart | hmem⟩ := placed_of_descend [] hfound
  · exact absurd hstart.1 hne
  · rw [hfound, hclean.eq_of_id hmem hlive hid]

/-- **Two nodes** are not shown at one place. -/
theorem Shown.unique {mount : MountState} (hclean : CleanTree m mount) (h : Shown m mount node names)
    (h' : Shown m mount other names) : node = other := by
  obtain ⟨root, hroot, -⟩ := id h
  have hd := Shown.descend hclean hroot h
  rw [Shown.descend hclean hroot h'] at hd
  exact (Option.some.inj hd).symm

/-- **A node** is not shown at two places. -/
theorem Shown.names_unique {mount : MountState} (hclean : CleanTree m mount) (h : Shown m mount node names)
    (h' : Shown m mount node names') : names = names' := by
  obtain ⟨root, hroot, -, -, hnamed⟩ := h
  obtain ⟨root', hroot', -, -, hnamed'⟩ := h'
  cases hroot.symm.trans hroot'
  obtain ⟨depth, hdepth⟩ := hclean.depth
  have hbelow : ∀ r ∈ liveNodes m mount, ∀ q, r.parentId = some q → depth q < depth r.nodeId := fun r hr =>
    hdepth r (mem_liveNodes.mp hr).1
  refine Placed.unique hbelow ?_ hnamed hnamed'
  exact hclean.keys.sublist ((List.filter_sublist.trans List.filter_sublist).map _)

/-- A node that is shown above another is a folder. -/
theorem Shown.folder_of_above {mount : MountState} (hclean : CleanTree m mount) (h : Shown m mount node names)
    (h' : Shown m mount other names') (habove : names <+: names') (hne : names ≠ names') : node.nodeType = .folder := by
  obtain ⟨root, hroot, hlive, -⟩ := id h
  obtain ⟨rest, rfl⟩ := habove
  have hd := Shown.descend hclean hroot h'
  rw [List.map_append, descend_append, Shown.descend hclean hroot h, Option.bind_some] at hd
  cases rest with
  | nil => exact absurd (List.append_nil names).symm hne
  | cons name rest =>
    rw [List.map_cons, Valv.Daemon.descend] at hd
    cases hchild : m.getNodeByParentAndName mount.folderId (some node.nodeId) name with
    | none =>
      rw [hchild] at hd
      cases hd
    | some child =>
      obtain ⟨hchildLive, hparent, -⟩ := mem_of_getNodeByParentAndName hchild
      exact hclean.parents child hchildLive node hlive hparent

/-- On the way to a shown node there are shown nodes. -/
theorem Shown.above {mount : MountState} (h : Shown m mount node names) {before : List String}
    (hbefore : before <+: names) (hne : before ≠ []) : ∃ a, Shown m mount a before := by
  obtain ⟨root, hroot, -, -, hnamed⟩ := h
  rw [NamedFrom] at hnamed
  generalize node.nodeId = nodeId at hnamed
  induction hnamed with
  | start => exact absurd (List.prefix_nil.mp hbefore) hne
  | @child p path c hp hc hlink ih =>
    rcases List.prefix_concat_iff.mp hbefore with rfl | hbefore
    · exact ⟨c, root, hroot, hc, hne, Placed.child hp hc hlink⟩
    · exact ih hbefore

/-- A shown node is found in the folder above it. -/
theorem Shown.found {mount : MountState} (hclean : CleanTree m mount) {root : Client.LocalNode}
    (hroot : LiveRoot m mount root) {nodeId name : String} (h : Shown m mount node (names ++ [name]))
    (hplaced : NamedFrom (liveNodes m mount) root nodeId names) :
    m.getNodeByParentAndName mount.folderId (some nodeId) name = some node := by
  obtain ⟨parent, hparent, rfl⟩ := descend_of_placed hclean.toMirrorTree hplaced
  have hd := Shown.descend hclean hroot h
  rw [List.map_append, descend_append, hparent, Option.bind_some, List.map_singleton, Valv.Daemon.descend] at hd
  cases hchild : m.getNodeByParentAndName mount.folderId (some parent.nodeId) name with
  | none =>
    rw [hchild] at hd
    cases hd
  | some child =>
    rw [hchild] at hd
    exact hd

/-- The names on the way are names of live nodes. -/
theorem Shown.name_mem {mount : MountState} (h : Shown m mount node names) {name : String} (hname : name ∈ names) :
    ∃ a ∈ liveNodes m mount, a.parentId.isSome ∧ a.name = name := by
  obtain ⟨root, -, -, -, hnamed⟩ := h
  rw [NamedFrom] at hnamed
  generalize node.nodeId = nodeId at hnamed
  induction hnamed with
  | start => cases hname
  | @child p path c _ hc hlink ih =>
    rcases List.mem_append.mp hname with hname | hname
    · exact ih hname
    · exact ⟨c, hc, by rw [hlink]; rfl, (List.mem_singleton.mp hname).symm⟩

theorem plain_tempName {name uuid : String} (h : Plain name) (hslash : '/' ∉ uuid.toList) : Plain (tempName name uuid) := by
  have hlist : (tempName name uuid).toList = '.' :: (name.toList ++ ".valv-tmp-".toList ++ uuid.toList) := by
    simp [tempName, String.toList_append]
  refine plain_of_long ?_ fun hmem => ?_
  · rw [hlist]
    simp only [List.length_cons, List.length_append]
    have : ".valv-tmp-".toList.length = 10 := by decide
    omega
  · rw [hlist] at hmem
    simp only [List.mem_cons, List.mem_append] at hmem
    rcases hmem with he | (hname | htmp) | huuid
    · exact absurd he (by decide)
    · exact h.2.2.2 hname
    · exact absurd htmp (by decide)
    · exact hslash huuid

/-- The last of the names is one. -/
theorem Shown.snoc {mount : MountState} (hclean : CleanTree m mount) (h : Shown m mount node names) :
    ∃ before last, names = before ++ [last] ∧ Plain last := by
  obtain ⟨-, -, -, hnonempty, -⟩ := id h
  have hsplit := (List.dropLast_append_getLast hnonempty).symm
  refine ⟨names.dropLast, names.getLast hnonempty, hsplit, ?_⟩
  obtain ⟨a, ha, hparent, hlast⟩ := Shown.name_mem h (List.getLast_mem hnonempty)
  rw [← hlast]
  exact hclean.plain ha hparent

/-- A write to a plain name is about this name and the temporary ones next to it. -/
theorem rewritten_below {before : List String} {last : String} {r : Path} (hplain : Plain last)
    (hslash : ∀ n, '/' ∉ (env.newUuid n).toList) (h : env.Rewritten (env.below (before ++ [last])) r) :
    before ++ [last] <+: r ∨ ∃ n, before ++ [tempName last (env.newUuid n)] <+: r := by
  rcases h with ⟨p, hp, hpre⟩ | ⟨name, n, hname, p, hp, hpre⟩
  · rw [place_below] at hp
    cases hp
    exact .inl hpre
  · rw [fileName_below] at hname
    obtain rfl : last = name := Option.some.inj hname
    rw [tempPath_below (plain_tempName hplain (hslash n)), place_below] at hp
    cases hp
    exact .inr ⟨n, hpre⟩

/-- **A file is written** at no other node's place, nor above it. -/
theorem not_rewritten (hclean : CleanTree m env.mount) (htemp : TempNames m env) (h : Shown m env.mount node names)
    (hfile : node.nodeType = .file) (h' : Shown m env.mount other names') (hne : node ≠ other) :
    ¬ env.Rewritten (env.below names) names' := by
  intro hrewritten
  obtain ⟨before, last, rfl, hplain⟩ := h.snoc hclean
  rcases rewritten_below hplain htemp.slash hrewritten with hpre | ⟨n, hpre⟩
  · by_cases heq : before ++ [last] = names'
    · exact hne (Shown.unique hclean h (heq ▸ h'))
    · have hfolder := Shown.folder_of_above hclean h h' hpre heq
      rw [hfile] at hfolder
      cases hfolder
  · obtain ⟨b, hb, -, hbname⟩ := Shown.name_mem h'
      (hpre.subset (List.mem_append_right before List.mem_cons_self))
    exact htemp.apart b hb last n hbname

/-- No file is written at the mount root. -/
theorem not_rewritten_root (hclean : CleanTree m env.mount) (htemp : TempNames m env)
    (h : Shown m env.mount node names) : ¬ env.Rewritten (env.below names) [] := by
  intro hrewritten
  obtain ⟨before, last, rfl, hplain⟩ := h.snoc hclean
  rcases rewritten_below hplain htemp.slash hrewritten with hpre | ⟨n, hpre⟩
  · exact List.append_ne_nil_of_right_ne_nil _ (List.cons_ne_nil _ _) (List.prefix_nil.mp hpre)
  · exact List.append_ne_nil_of_right_ne_nil _ (List.cons_ne_nil _ _) (List.prefix_nil.mp hpre)

end Shown

/-! ### The nodes that are visited -/

section Visits

variable {m : Client.Mirror} {mount : MountState} {nodes : List Client.LocalNode} {root : Client.LocalNode}

/-- The paths of the walk are the names behind the mount root. -/
theorem placed_under_iff (hplain : ∀ a ∈ nodes, a.parentId.isSome → Plain a.name) {nodeId : String} {path : PathBuf} :
    Placed Client.LocalNode.nodeId Client.LocalNode.parentId nodes under root.nodeId (components mount.path) nodeId path ↔
      ∃ names, NamedFrom nodes root nodeId names ∧ path = components mount.path ++ names.map .normal := by
  constructor
  · intro h
    induction h with
    | start => exact ⟨[], .start, (List.append_nil _).symm⟩
    | @child p path c _ hc hlink ih =>
      obtain ⟨names, hnamed, rfl⟩ := ih
      refine ⟨names ++ [c.name], Placed.child hnamed hc hlink, ?_⟩
      rw [under, join_plain (hplain c hc (by rw [hlink]; rfl)), List.append_assoc, List.map_append]
      rfl
  · rintro ⟨names, hnamed, rfl⟩
    rw [NamedFrom] at hnamed
    induction hnamed with
    | start =>
      rw [List.map_nil, List.append_nil]
      exact .start
    | @child p names c _ hc hlink ih =>
      have hchild : Placed Client.LocalNode.nodeId Client.LocalNode.parentId nodes under root.nodeId
          (components mount.path) c.nodeId (under _ c) := Placed.child ih hc hlink
      rw [under, join_plain (hplain c hc (by rw [hlink]; rfl)), List.append_assoc] at hchild
      rw [List.map_append]
      exact hchild

theorem visitsOf_eq_some {visits : List (Client.LocalNode × PathBuf)} (h : Checkout.visitsOf m mount = some visits) :
    ∃ root, LiveRoot m mount root ∧
      visits = placedNodes mount ((liveNodes m mount).insertionSort rootFirst) root := by
  obtain ⟨root, hroot, rfl⟩ := Option.map_eq_some_iff.mp h
  exact ⟨root, hroot, rfl⟩

/-- **What is visited** are the nodes that are shown, at their paths, each once. -/
theorem visits_spec (hclean : CleanTree m mount) {visits : List (Client.LocalNode × PathBuf)}
    (h : Checkout.visitsOf m mount = some visits) :
    (∀ e, e ∈ visits ↔ ∃ names, Shown m mount e.1 names ∧ e.2 = components mount.path ++ names.map .normal) ∧
      visits.Pairwise fun a b => a.1 ≠ b.1 := by
  obtain ⟨root, hroot, rfl⟩ := visitsOf_eq_some h
  have hperm := List.perm_insertionSort rootFirst (liveNodes m mount)
  have hmem : ∀ a, a ∈ (liveNodes m mount).insertionSort rootFirst ↔ a ∈ liveNodes m mount := fun a => hperm.mem_iff
  have hkeys : (((liveNodes m mount).insertionSort rootFirst).map Client.LocalNode.nodeId).Nodup :=
    (hperm.map Client.LocalNode.nodeId).nodup_iff.mpr
      (hclean.keys.sublist ((List.filter_sublist.trans List.filter_sublist).map _))
  have hrootMem := List.mem_of_find?_eq_some hroot
  have htop : root.parentId = none := by simpa using List.find?_some hroot
  have hplain : ∀ a ∈ (liveNodes m mount).insertionSort rootFirst, a.parentId.isSome → Plain a.name := fun a ha =>
    hclean.plain ((hmem a).mp ha)
  have hsub : (liveNodes m mount).insertionSort rootFirst ⊆ liveNodes m mount := fun a ha => (hmem a).mp ha
  have hsup : liveNodes m mount ⊆ (liveNodes m mount).insertionSort rootFirst := fun a ha => (hmem a).mpr ha
  constructor
  · rintro ⟨node, path⟩
    rw [placedNodes, mem_bfs hkeys hrootMem htop]
    constructor
    · rintro ⟨p, above, hplaced, hnode, hlink, rfl⟩
      obtain ⟨names, hnamed, rfl⟩ := (placed_under_iff hplain).mp hplaced
      refine ⟨names ++ [node.name], ⟨root, hroot, hsub hnode, by simp, Placed.child (hnamed.mono hsub) (hsub hnode) hlink⟩, ?_⟩
      rw [under, join_plain (hplain node hnode (by rw [hlink]; rfl)), List.append_assoc, List.map_append]
      rfl
    · rintro ⟨names, ⟨root', hroot', hlive, hne, hnamed⟩, rfl⟩
      cases hroot.symm.trans hroot'
      rw [NamedFrom] at hnamed
      generalize hid : node.nodeId = nodeId at hnamed
      cases hnamed with
      | start => exact absurd rfl hne
      | @child p names c hp hc hlink =>
        obtain rfl : c = node := (hclean.eq_of_id hlive hc hid).symm
        refine ⟨p, components mount.path ++ names.map .normal,
          (placed_under_iff hplain).mpr ⟨names, hp.mono hsup, rfl⟩, hsup hc, hlink, ?_⟩
        rw [under, join_plain (hplain c (hsup hc) (by rw [hlink]; rfl)), List.append_assoc, List.map_append]
        rfl
  · have hnd : ((placedNodes mount ((liveNodes m mount).insertionSort rootFirst) root).map fun e =>
        e.1.nodeId).Nodup := (nodup_bfs hkeys (frontier_root hkeys hrootMem htop)).1
    exact (List.pairwise_map.mp hnd).imp fun hne he => hne (by rw [he])

end Visits

/-! ### One visit -/

/-- What a visit that succeeds leaves: the place of the node, and how little else has changed. -/
structure Visit (env : CheckoutEnv φ) (node : Client.LocalNode) (names : List String) (s s' : Checkout φ) : Prop where
  realized : Realized env s s' node names
  links : Unlinked s'.disk
  fresh : ∀ r, s'.disk.lstat r ≠ none → s.disk.lstat r ≠ none ∨ HasPlace node ∧ r <+: names
  keeps : ∀ r, s.disk.lstat r ≠ none → (node.nodeType = .file → ¬ env.Rewritten (env.below names) r) →
    s'.disk.lstat r = s.disk.lstat r
  marks : ∀ v, s'.mirror.hasMaterializedContentForVersion v = true →
    s.mirror.hasMaterializedContentForVersion v = true ∨ node.nodeType = .file ∧ node.currentVersionId = some v
  marked : ∀ v, s.mirror.hasMaterializedContentForVersion v = true →
    s'.mirror.hasMaterializedContentForVersion v = true
  rows : ∀ v, ¬ (node.nodeType = .file ∧ node.currentVersionId = some v) → s'.mirror.getVersion v = s.mirror.getVersion v

section OneVisit

variable {env : CheckoutEnv φ} {m : Client.Mirror} {node : Client.LocalNode} {names : List String} {s s' : Checkout φ}

open Checkout

/-- A directory is made. -/
theorem createDirAll_visit (hroot : normalize env.root = env.root) (hlinks : Unlinked s.disk)
    (hrun : (required (createDirAll env (env.below names))).runBody s = (s', .ok ())) :
    s'.disk.lstat names = some .dir ∧ Unlinked s'.disk ∧ s'.mirror = s.mirror ∧
      (∀ r, s'.disk.lstat r ≠ none → s.disk.lstat r ≠ none ∨ r <+: names) ∧
      ∀ r, s.disk.lstat r ≠ none → s'.disk.lstat r = s.disk.lstat r := by
  have hcreate := required_ok hrun
  have hways : Within (fun _ => False) (env.Leading (env.below names)) s s' := writes_createDirAll.of_runBody hcreate
  have hmirror : SameMirror s s' := (sameMirror_calls env).createDirAll.of_runBody hcreate
  refine ⟨createDirAll_true hlinks (place_below env names) hcreate,
    unlinked_runBody (unlinking_calls env).createDirAll hcreate hlinks, hmirror, fun r hr => ?_, fun r hr => ?_⟩
  · rcases hways.disk r not_false with hsame | ⟨hlead, -, -⟩
    · exact .inl (hsame ▸ hr)
    · exact .inr (leading_below hroot hlead)
  · rcases hways.disk r not_false with hsame | ⟨-, hnone, -⟩
    · exact hsame
    · exact absurd hnone hr

/-- A file is written. -/
theorem materializeVersion_visit {versionId : String} (hroot : normalize env.root = env.root)
    (hclean : CleanTree m env.mount) (htemp : TempNames m env) (hshown : Shown m env.mount node names)
    (hfile : node.nodeType = .file) (hversion : node.currentVersionId = some versionId) (hlinks : Unlinked s.disk)
    (hrun : (materializeVersion env node.nodeId versionId (env.below names)).runBody s = (s', .ok ())) :
    Visit env node names s s' := by
  obtain ⟨before, last, rfl, hplain⟩ := hshown.snoc hclean
  have hways : Within (env.Rewritten (env.below (before ++ [last]))) (env.Leading (env.below (before ++ [last]))) s s' :=
    writes_materializeVersion.of_runBody hrun
  obtain ⟨version, bytes, hcontent, ⟨n, hwritten⟩, hnew, hmirror⟩ :=
    materializeVersion_ok hroot hlinks (fun n => plain_tempName hplain (htemp.slash n)) hrun
  have hmarks : ∀ v, s'.mirror.hasMaterializedContentForVersion v = true ↔
      s.mirror.hasMaterializedContentForVersion v = true ∨ v = version.versionId := fun v => by
    rw [hmirror]
    exact marked_persisted
  have hrows : ∀ v, s'.mirror.getVersion v = if v = version.versionId then some (versionRow env node.nodeId version true)
      else s.mirror.getVersion v := fun v => by
    rw [hmirror]
    exact getVersion_persisted
  refine ⟨?_, unlinked_runBody (unlinking_calls env).materializeVersion hrun hlinks, fun r hr => ?_,
    fun r hr hnot => ?_, fun v hv => ?_, fun v hv => (hmarks v).mpr (.inl hv), fun v hv => ?_⟩
  · rw [Realized, hfile]
    intro v hv
    obtain rfl : versionId = v := Option.some.inj (hversion.symm.trans hv)
    have hrow := (hrows versionId).trans (if_pos hcontent.id.symm)
    exact ⟨(hmarks versionId).mpr (.inr hcontent.id.symm), .inr ⟨version, bytes, n, hcontent, hwritten, hrow⟩⟩
  · exact (hnew r hr).imp_right fun habove => ⟨.inr (by rw [hversion]; rfl), habove⟩
  · rcases hways.disk r (hnot hfile) with hsame | ⟨-, hnone, -⟩
    · exact hsame
    · exact absurd hnone hr
  · exact ((hmarks v).mp hv).imp_right fun hid => ⟨hfile, by rw [hversion, hid, hcontent.id]⟩
  · refine (hrows v).trans (if_neg fun hid => hv ⟨hfile, ?_⟩)
    rw [hversion, hid, hcontent.id]

/-- **One visit.** -/
theorem visit_ok (hroot : normalize env.root = env.root) (hclean : CleanTree m env.mount) (htemp : TempNames m env)
    (hshown : Shown m env.mount node names) (hlinks : Unlinked s.disk)
    (hrun : (materializeNode env node (env.below names)).runBody s = (s', .ok ())) : Visit env node names s s' := by
  rw [materializeNode] at hrun
  cases htype : node.nodeType with
  | folder =>
    rw [htype] at hrun
    obtain ⟨hdir, hlinks', hmirror, hfresh, hkeeps⟩ := createDirAll_visit hroot hlinks hrun
    refine ⟨?_, hlinks', fun r hr => (hfresh r hr).imp_right fun habove => ⟨.inl htype, habove⟩,
      fun r hr _ => hkeeps r hr, fun v hv => .inl (hmirror ▸ hv), fun v hv => hmirror ▸ hv, fun v _ => by rw [hmirror]⟩
    rw [Realized, htype]
    exact hdir
  | file =>
    rw [htype] at hrun
    cases hversion : node.currentVersionId with
    | none =>
      rw [hversion] at hrun
      cases hrun
      refine ⟨?_, hlinks, fun r hr => .inl hr, fun _ _ _ => rfl, fun v hv => .inl hv, fun v hv => hv, fun _ _ => rfl⟩
      rw [Realized, htype]
      intro v hv
      rw [hversion] at hv
      cases hv
    | some versionId =>
      rw [hversion] at hrun
      obtain ⟨s₁, isMarked, hread, hrest⟩ := Proc.runBody_bind_ok hrun
      cases hread
      split at hrest
      · next hmarked =>
        obtain ⟨s₂, found, hexists, hrest⟩ := Proc.runBody_bind_ok hrest
        obtain ⟨rfl, hfound⟩ := Prod.mk.inj hexists
        cases found with
        | false =>
          have hvisit := materializeVersion_visit (s := s.called s.disk [env.below names]) hroot hclean htemp hshown htype
            hversion hlinks hrest
          exact ⟨hvisit.realized, hvisit.links, hvisit.fresh, hvisit.keeps, hvisit.marks, hvisit.marked, hvisit.rows⟩
        | true =>
          cases hrest
          have hpresent : s.disk.present names = true := by
            have hfinds : env.finds s.calls s.disk (env.below names) = true := Except.ok.inj hfound
            rw [CheckoutEnv.finds, place_below] at hfinds
            exact (Bool.and_eq_true _ _ |>.mp hfinds).2
          refine ⟨?_, hlinks, fun r hr => .inl hr, fun _ _ _ => rfl, fun v hv => .inl hv, fun v hv => hv,
            fun _ _ => rfl⟩
          rw [Realized, htype]
          intro v hv
          obtain rfl : versionId = v := Option.some.inj (hversion.symm.trans hv)
          have hstands := Option.isSome_iff_ne_none.mp ((present_iff_of_unlinked hlinks).mp hpresent)
          exact ⟨hmarked, .inl ⟨hmarked, hstands, rfl⟩⟩
      · exact materializeVersion_visit hroot hclean htemp hshown htype hversion hlinks hrest

end OneVisit

/-! ### All visits -/

section AllVisits

variable {env : CheckoutEnv φ} {m : Client.Mirror} {s s' : Checkout φ}

open Checkout

/-- What the visits that succeed leave. -/
structure Visited (env : CheckoutEnv φ) (m : Client.Mirror) (visits : List (Client.LocalNode × PathBuf))
    (s s' : Checkout φ) : Prop where
  realized : ∀ node path names, (node, path) ∈ visits → Shown m env.mount node names → Realized env s s' node names
  fresh : ∀ r, s'.disk.lstat r ≠ none → s.disk.lstat r ≠ none ∨
    ∃ node path names, (node, path) ∈ visits ∧ Shown m env.mount node names ∧ HasPlace node ∧ r <+: names
  keeps : ∀ r, s.disk.lstat r ≠ none →
    (∀ node path names, (node, path) ∈ visits → Shown m env.mount node names → node.nodeType = .file →
      ¬ env.Rewritten (env.below names) r) → s'.disk.lstat r = s.disk.lstat r
  marked : ∀ v, s.mirror.hasMaterializedContentForVersion v = true →
    s'.mirror.hasMaterializedContentForVersion v = true
  rows : ∀ v, (∀ e ∈ visits, ¬ (e.1.nodeType = .file ∧ e.1.currentVersionId = some v)) →
    s'.mirror.getVersion v = s.mirror.getVersion v

/-- What is realized stays so while the places of other nodes are visited. -/
theorem Realized.keep {node : Client.LocalNode} {names : List String} {s₁ : Checkout φ}
    (h : Realized env s s₁ node names) (hsame : s₁.disk.lstat names ≠ none → s'.disk.lstat names = s₁.disk.lstat names)
    (hmarked : ∀ v, s₁.mirror.hasMaterializedContentForVersion v = true →
      s'.mirror.hasMaterializedContentForVersion v = true)
    (hrows : ∀ v, node.currentVersionId = some v → s'.mirror.getVersion v = s₁.mirror.getVersion v) :
    Realized env s s' node names := by
  rw [Realized] at h ⊢
  split at h
  · exact (hsame (by rw [h]; exact Option.some_ne_none _)).trans h
  · intro v hv
    obtain ⟨hmark, hcontent⟩ := h v hv
    refine ⟨hmarked v hmark, ?_⟩
    rcases hcontent with ⟨hbefore, hstood, hkept⟩ | ⟨version, bytes, n, hcontent, hfile, hrow⟩
    · exact .inl ⟨hbefore, hstood, (hsame (hkept ▸ hstood)).trans hkept⟩
    · refine .inr ⟨version, bytes, n, hcontent, ?_, (hrows v hv).trans hrow⟩
      exact (hsame (by rw [hfile]; exact Option.some_ne_none _)).trans hfile

/-- What is realized after the visit of another node is so from before it. -/
theorem Realized.before {node other : Client.LocalNode} {names otherNames : List String} {s₁ : Checkout φ}
    (hclean : CleanTree m env.mount) (htemp : TempNames m env) (hvisit : Visit env other otherNames s s₁)
    (hother : Shown m env.mount other otherNames) (hnode : Shown m env.mount node names) (hne : node ≠ other)
    (h : Realized env s₁ s' node names) : Realized env s s' node names := by
  rw [Realized] at h ⊢
  split at h
  · exact h
  next hfile =>
  intro v hv
  obtain ⟨hmark, hcontent⟩ := h v hv
  refine ⟨hmark, hcontent.imp_left fun hkept => ?_⟩
  obtain ⟨hbefore, hstood, hkept⟩ := hkept
  have hmarkedBefore : s.mirror.hasMaterializedContentForVersion v = true := by
    rcases hvisit.marks v hbefore with hb | ⟨-, hversion⟩
    · exact hb
    · -- the version is one node's
      exact absurd (hclean.versions node hnode.live other hother.live (by rw [hv]; rfl) (hv.trans hversion.symm)) hne
  have hstoodBefore : s.disk.lstat names ≠ none := by
    rcases hvisit.fresh names hstood with hb | habove
    · exact hb
    · exact absurd (.inl ⟨names, place_below env names, habove.2⟩) (not_rewritten hclean htemp hnode hfile hother hne)
  have hsame := hvisit.keeps names hstoodBefore fun hotherFile =>
    not_rewritten hclean htemp hother hotherFile hnode hne.symm
  exact ⟨hmarkedBefore, hstoodBefore, hkept.trans hsame⟩

/-- **All visits**, by induction over them: a visit keeps what the others have made. -/
theorem materializeEach_ok (hroot : normalize env.root = env.root) (hclean : CleanTree m env.mount)
    (htemp : TempNames m env) {visits : List (Client.LocalNode × PathBuf)}
    (hshown : ∀ e ∈ visits, ∃ names, Shown m env.mount e.1 names ∧ e.2 = env.below names)
    (hdistinct : visits.Pairwise fun a b => a.1 ≠ b.1) (hlinks : Unlinked s.disk)
    (hrun : (materializeEach env visits).runBody s = (s', .ok ())) : Visited env m visits s s' := by
  induction visits generalizing s with
  | nil =>
    cases hrun
    exact ⟨fun _ _ _ hmem => absurd hmem List.not_mem_nil, fun _ hr => .inl hr, fun _ _ _ => rfl, fun _ hv => hv,
      fun _ _ => rfl⟩
  | cons e rest ih =>
    obtain ⟨node, path⟩ := e
    obtain ⟨s₁, u, hfirst, hrest⟩ := Proc.runBody_bind_ok hrun
    obtain ⟨names, hnode, rfl⟩ := hshown (node, path) List.mem_cons_self
    have hvisit := visit_ok hroot hclean htemp hnode hlinks hfirst
    rw [List.pairwise_cons] at hdistinct
    have hvisited := ih (fun e he => hshown e (List.mem_cons_of_mem _ he)) hdistinct.2 hvisit.links hrest
    have hnames : ∀ names', Shown m env.mount node names' → names' = names := fun names' h =>
      Shown.names_unique hclean h hnode
    refine ⟨fun node' path' names' hmem hnode' => ?_, fun r hr => ?_, fun r hr hnot => ?_, fun v hv =>
      hvisited.marked v (hvisit.marked v hv), fun v hv => ?_⟩
    · rcases List.mem_cons.mp hmem with heq | hmem
      · cases heq
        rw [hnames names' hnode']
        refine hvisit.realized.keep (fun hstands => hvisited.keeps names hstands ?_) hvisited.marked fun v hv => ?_
        · intro node'' path'' names'' hmem hnode'' hfile
          exact not_rewritten hclean htemp hnode'' hfile hnode (hdistinct.1 _ hmem).symm
        · refine hvisited.rows v fun e he hversion => hdistinct.1 e he ?_
          obtain ⟨names'', hshown', -⟩ := hshown e (List.mem_cons_of_mem _ he)
          exact hclean.versions node hnode.live e.1 hshown'.live (by rw [hv]; rfl) (hv.trans hversion.2.symm)
      · exact Realized.before hclean htemp hvisit hnode hnode' (hdistinct.1 _ hmem).symm
          (hvisited.realized node' path' names' hmem hnode')
    · rcases hvisited.fresh r hr with hr₁ | ⟨node', path', names', hmem, hnode', habove⟩
      · exact (hvisit.fresh r hr₁).imp_right fun habove => ⟨node, _, names, List.mem_cons_self, hnode, habove⟩
      · exact .inr ⟨node', path', names', List.mem_cons_of_mem _ hmem, hnode', habove⟩
    · have hfirst := hvisit.keeps r hr fun hfile => hnot node _ names List.mem_cons_self hnode hfile
      rw [hvisited.keeps r (hfirst ▸ hr) fun node' path' names' hmem =>
        hnot node' path' names' (List.mem_cons_of_mem _ hmem), hfirst]
    · rw [hvisited.rows v fun e he => hv e (List.mem_cons_of_mem _ he), hvisit.rows v (hv _ List.mem_cons_self)]

end AllVisits

/-! ### What is removed -/

section Removed

variable {env : CheckoutEnv φ} {s s' : Checkout φ}

open Checkout

/-- Nothing appears, and nothing changes but below these paths. -/
structure Removed (env : CheckoutEnv φ) (paths : List PathBuf) (s s' : Checkout φ) : Prop where
  shrinks : ∀ r e, s'.disk.lstat r = some e → s.disk.lstat r = some e
  keeps : ∀ r, (∀ path ∈ paths, ¬ env.Below path r) → s'.disk.lstat r = s.disk.lstat r
  mirror : s'.mirror = s.mirror

theorem removeEffect_spec (env : CheckoutEnv φ) (n : ℕ) (d : Disk φ) (path : PathBuf) (type : NodeType) :
    (∀ r e, (env.removeEffect n d path type).1.lstat r = some e → d.lstat r = some e) ∧
      ∀ r, ¬ env.Below path r → (env.removeEffect n d path type).1.lstat r = d.lstat r := by
  have hstay : (∀ r e, d.lstat r = some e → d.lstat r = some e) ∧ ∀ r, ¬ env.Below path r → d.lstat r = d.lstat r :=
    ⟨fun _ _ h => h, fun _ _ => rfl⟩
  rw [CheckoutEnv.removeEffect]
  split
  · exact hstay
  next p hp =>
  have hbelow : ∀ {r}, ¬ env.Below path r → ¬ p <+: r := fun hr hpr => hr ⟨p, hp, hpr⟩
  split
  · exact hstay
  split
  · cases type with
    | folder => exact ⟨fun r e h => lstat_of_spare h, fun r hr => lstat_spare (hbelow hr)⟩
    | file => exact hstay
  cases type with
  | folder =>
    cases hd : d.removeTree p with
    | none => exact hstay
    | some d' =>
      refine ⟨fun r e h => ?_, fun r hr => (lstat_removeTree hd).trans (if_neg (hbelow hr))⟩
      rw [lstat_removeTree hd] at h
      split at h
      · cases h
      · exact h
  | file =>
    cases hd : d.unlink p with
    | none => exact hstay
    | some d' =>
      refine ⟨fun r e h => ?_, fun r hr => ?_⟩
      · rw [lstat_unlink hd] at h
        split at h
        · cases h
        · exact h
      · refine (lstat_unlink hd).trans (if_neg fun he => hbelow hr ?_)
        rw [he]

instance (paths : List PathBuf) : Std.Refl (Removed env paths : Checkout φ → Checkout φ → Prop) :=
  ⟨fun _ => ⟨fun _ _ h => h, fun _ _ => rfl, rfl⟩⟩

instance (paths : List PathBuf) : IsTrans (Checkout φ) (Removed env paths) :=
  ⟨fun _ _ _ hab hbc => ⟨fun r e h => hab.shrinks r e (hbc.shrinks r e h),
    fun r hr => (hbc.keeps r hr).trans (hab.keeps r hr), hbc.mirror.trans hab.mirror⟩⟩

theorem Removed.links {paths : List PathBuf} (h : Removed env paths s s') (hlinks : Unlinked s.disk) :
    Unlinked s'.disk := fun q behind hq => hlinks q behind (h.shrinks q _ hq)

theorem writes_fsRemove {paths : List PathBuf} {path : PathBuf} {type : NodeType} (hmem : path ∈ paths) :
    (fsRemove env path type).Writes (Removed env paths) := by
  refine ⟨fun _ s => ?_, fun _ => True.intro⟩
  obtain ⟨hshrinks, hkeeps⟩ := removeEffect_spec env s.calls s.disk path type
  exact ⟨hshrinks, fun r hr => hkeeps r (hr path hmem), rfl⟩

/-- **The removals**, whether or not they succeed. -/
theorem writes_removeDead {paths : List PathBuf} {dead : List (PathBuf × NodeType)}
    (hdead : ∀ e ∈ dead, e.1 ∈ paths) : (removeDead env dead).Writes (Removed env paths) := by
  induction dead with
  | nil => exact True.intro
  | cons e dead ih =>
    refine (writes_fsRemove (hdead e List.mem_cons_self)).bind fun answer => ?_
    cases answer with
    | failed => exact True.intro
    | removed => exact ih fun e he => hdead e (List.mem_cons_of_mem _ he)
    | notFound => exact ih fun e he => hdead e (List.mem_cons_of_mem _ he)

theorem mem_deepestFirst {paths : List (PathBuf × NodeType)} {e : PathBuf × NodeType} :
    e ∈ deepestFirst paths ↔ e ∈ paths := by
  rw [deepestFirst, List.mem_reverse]
  exact (List.perm_insertionSort _ _).mem_iff

/-- The removals of a mount are at the paths of its tombstones. -/
theorem writes_cleanupDeletedMountPaths (s : Checkout φ) :
    (removeDead env (deepestFirst (deletedPaths s.mirror env.mount))).Writes
      (Removed env ((deletedPaths s.mirror env.mount).map Prod.fst)) :=
  writes_removeDead fun _ he => List.mem_map_of_mem (mem_deepestFirst.mp he)

end Removed

/-! ### The whole pass -/

section Pass

variable {env : CheckoutEnv φ} {s s' : Checkout φ}

open Checkout

/-- The three parts of a pass that succeeds: the removals, the mount root, and the visits. -/
structure Materialized (env : CheckoutEnv φ) (s s₁ s₂ s' : Checkout φ) (visits : List (Client.LocalNode × PathBuf)) :
    Prop where
  removed : Removed env ((deletedPaths s.mirror env.mount).map Prod.fst) s s₁
  dir : s₂.disk.lstat [] = some .dir
  root : ∀ r, r ≠ [] → s₂.disk.lstat r ≠ none → s₁.disk.lstat r ≠ none
  kept : ∀ r, s₁.disk.lstat r ≠ none → s₂.disk.lstat r = s₁.disk.lstat r
  mirror : s₂.mirror = s₁.mirror
  visited : Visited env s.mirror visits s₂ s'
  shown : ∀ node names, Shown s.mirror env.mount node names → (node, env.below names) ∈ visits

/-- **The parts of a pass.** -/
theorem materializeMountFiles_ok (hroot : normalize env.root = env.root) (hclean : CleanTree s.mirror env.mount)
    (htemp : TempNames s.mirror env) (hlinks : Unlinked s.disk) (hstart : ∃ root, LiveRoot s.mirror env.mount root)
    (hrun : (Checkout.materializeMountFiles env).runBody s = (s', .ok ())) :
    ∃ s₁ s₂ visits, Materialized env s s₁ s₂ s' visits := by
  obtain ⟨s₁, u, hclear, hrest⟩ := Proc.runBody_bind_ok hrun
  have hremoved : Removed env ((deletedPaths s.mirror env.mount).map Prod.fst) s s₁ := by
    obtain ⟨s₀, dead, hread, hclear⟩ := Proc.runBody_bind_ok hclear
    cases hread
    exact (writes_cleanupDeletedMountPaths s).of_runBody hclear
  obtain ⟨s₀, found, hread, hrest⟩ := Proc.runBody_bind_ok hrest
  cases hread
  dsimp only at hrest
  rw [hremoved.mirror] at hrest
  obtain ⟨root, hlive⟩ := hstart
  have hvisits : visitsOf s.mirror env.mount =
      some (placedNodes env.mount ((liveNodes s.mirror env.mount).insertionSort rootFirst) root) := by
    rw [visitsOf, show rootOf _ = some root from hlive]
    rfl
  obtain ⟨hmem, hdistinct⟩ := visits_spec hclean hvisits
  rw [hvisits] at hrest
  obtain ⟨s₂, u, hmkdir, hwalk⟩ := Proc.runBody_bind_ok hrest
  have hbelowRoot : env.root = env.below [] := by rw [CheckoutEnv.below, List.map_nil, List.append_nil]
  rw [hbelowRoot] at hmkdir
  obtain ⟨hdir, hlinks₂, hmirror₂, hfresh₂, hkeeps₂⟩ := createDirAll_visit hroot (hremoved.links hlinks) hmkdir
  have hvisited := materializeEach_ok hroot hclean htemp (fun e he => (hmem e).mp he) hdistinct hlinks₂ hwalk
  refine ⟨s₁, s₂, _, hremoved, hdir, fun r hne hr => ?_, hkeeps₂, hmirror₂, hvisited, fun node names h => ?_⟩
  · exact (hfresh₂ r hr).resolve_right fun hnil => hne (List.prefix_nil.mp hnil)
  · exact (hmem (node, env.below names)).mpr ⟨names, h, rfl⟩

variable {s₁ s₂ : Checkout φ} {visits : List (Client.LocalNode × PathBuf)}

/-- What stands after the removals and the root stood before. -/
theorem Materialized.before (h : Materialized env s s₁ s₂ s' visits) {r : Path} (hne : r ≠ [])
    (hr : s₂.disk.lstat r ≠ none) : s.disk.lstat r ≠ none ∧ s₂.disk.lstat r = s.disk.lstat r := by
  have hr₁ := h.root r hne hr
  obtain ⟨e, he⟩ := Option.ne_none_iff_exists'.mp hr₁
  have hs := h.removed.shrinks r e he
  exact ⟨by rw [hs]; exact Option.some_ne_none e, (h.kept r hr₁).trans (he.trans hs.symm)⟩

/-- **The mount root** is a directory. -/
theorem Materialized.top (h : Materialized env s s₁ s₂ s' visits) (hclean : CleanTree s.mirror env.mount)
    (htemp : TempNames s.mirror env) : s'.disk.lstat [] = some .dir := by
  have hstands : s₂.disk.lstat [] ≠ none := by
    rw [h.dir]
    exact Option.some_ne_none _
  refine (h.visited.keeps [] hstands ?_).trans h.dir
  exact fun node path names _ hshown _ => not_rewritten_root hclean htemp hshown

/-- **What stands** stood before, or leads to the place of a node. -/
theorem Materialized.standing (h : Materialized env s s₁ s₂ s' visits) {r : Path} (hr : s'.disk.lstat r ≠ none) :
    s.disk.lstat r ≠ none ∨ r = [] ∨
      ∃ node names, Shown s.mirror env.mount node names ∧ HasPlace node ∧ r <+: names := by
  rcases h.visited.fresh r hr with hr₂ | ⟨node, path, names, -, hshown, habove⟩
  · by_cases hnil : r = []
    · exact .inr (.inl hnil)
    · exact .inl (h.before hnil hr₂).1
  · exact .inr (.inr ⟨node, names, hshown, habove⟩)

/-- **Each live node** has its place. -/
theorem Materialized.realized (h : Materialized env s s₁ s₂ s' visits) {node : Client.LocalNode} {names : List String}
    (hshown : Shown s.mirror env.mount node names) : Realized env s s' node names := by
  have hrealized := h.visited.realized node _ names (h.shown node names hshown) hshown
  obtain ⟨-, -, -, hnonempty, -⟩ := id hshown
  rw [Realized] at hrealized ⊢
  split at hrealized
  · exact hrealized
  · intro v hv
    obtain ⟨hmark, hcontent⟩ := hrealized v hv
    refine ⟨hmark, hcontent.imp_left fun hkept => ?_⟩
    obtain ⟨hmarked, hstands, hsame⟩ := hkept
    obtain ⟨hs, hsame₂⟩ := h.before hnonempty hstands
    rw [h.mirror, h.removed.mirror] at hmarked
    exact ⟨hmarked, hs, hsame.trans hsame₂⟩

end Pass

open Checkout in
/-- **A mount shows its nodes.**  When `materialize_mount_files` succeeds, whatever the disk, the backend and the bucket
have answered on the way: the place of each live node holds what the mirror says; nothing else has appeared but the
directories above these places; and what stood elsewhere, away from the paths of tombstones, is as it was. -/
theorem materialized_mount_shows_its_nodes (env : CheckoutEnv φ) (s s' : Checkout φ)
    (hroot : normalize env.root = env.root) (hclean : CleanTree s.mirror env.mount) (htemp : TempNames s.mirror env)
    (hlinks : Unlinked s.disk) (hstart : ∃ root, LiveRoot s.mirror env.mount root)
    (hrun : (Checkout.materializeMountFiles env).runBody s = (s', .ok ())) :
    s'.disk.lstat [] = some .dir ∧
      (∀ node names, Shown s.mirror env.mount node names → Realized env s s' node names) ∧
      (∀ r, s'.disk.lstat r ≠ none → s.disk.lstat r ≠ none ∨ r = [] ∨
        ∃ node names, Shown s.mirror env.mount node names ∧ HasPlace node ∧ r <+: names) ∧
      ∀ r, s.disk.lstat r ≠ none → (∀ dead ∈ deletedPaths s.mirror env.mount, ¬ env.Below dead.1 r) →
        (∀ node names, Shown s.mirror env.mount node names → node.nodeType = .file →
          ¬ env.Rewritten (env.below names) r) → s'.disk.lstat r = s.disk.lstat r := by
  obtain ⟨s₁, s₂, visits, h⟩ := materializeMountFiles_ok hroot hclean htemp hlinks hstart hrun
  refine ⟨h.top hclean htemp, fun node names hshown => h.realized hshown, fun r hr => h.standing hr,
    fun r hr hdead hfiles => ?_⟩
  · have hkept₁ : s₁.disk.lstat r = s.disk.lstat r := h.removed.keeps r fun path hp => by
      obtain ⟨e, he, rfl⟩ := List.mem_map.mp hp
      exact hdead e he
    rw [← hkept₁] at hr
    have hkept₂ := h.kept r hr
    rw [h.visited.keeps r (hkept₂ ▸ hr) fun node path names _ hshown => hfiles node names hshown, hkept₂, hkept₁]

/-- Bytes as the name of their hash, where they are letters. -/
def letters (bytes : Client.Bytes) : String := String.ofList (bytes.map fun b => Char.ofNat b.toNat)

/-- `sub/a.txt`, of two bytes. -/
def docsText : Client.LocalNode := { docsInner with currentVersionId := some "v1" }

/-- `sub` and `sub/a.txt`, before anything is written. -/
def docsCheckout : Checkout Client.Bytes where
  mirror := { nodes := [docsRoot, docsSub, docsText] }
  disk := { entries := [] }

/-- A backend that has the version, and a disk on which every call succeeds. -/
def docsEnv : CheckoutEnv Client.Bytes where
  mount := docsMount
  deviceId := "desk"
  dateOf _ := "2024-05-01"
  sha256 := letters
  backend _ :=
    { remote :=
        { batch := fun _ objects => some (objects.map fun o =>
            { oid := o.oid, size := o.size, actions := some (.download ("/" ++ o.oid)) })
          refuses := fun _ _ => false
          submit := fun _ => .conflict }
      get := fun _ => some [104, 105]
      versions := fun _ =>
        [{ versionId := "v1", contentHash := "hi", sizeBytes := 2, manifest := [⟨"hi", 0, 2⟩] }] }
  newUuid n := String.ofList (List.replicate n 'a')
  file _ bytes := bytes
  torn _ := []
  fails _ := false
  hidden _ := false
  elsewhere _ := false
  spared _ _ := false
/-- What the results ask of `docsCheckout`. -/
structure DocsReady : Prop where
  root : normalize docsEnv.root = docsEnv.root
  clean : CleanTree docsCheckout.mirror docsEnv.mount
  temp : TempNames docsCheckout.mirror docsEnv
  links : Unlinked docsCheckout.disk
  live : LiveRoot docsCheckout.mirror docsEnv.mount docsRoot
  sub : Shown docsCheckout.mirror docsEnv.mount docsSub ["sub"]
  text : Shown docsCheckout.mirror docsEnv.mount docsText ["sub", "a.txt"]
  run : (Checkout.materializeMountFiles docsEnv).runBody docsCheckout =
    (((Checkout.materializeMountFiles docsEnv).runBody docsCheckout).1, .ok ())

theorem docs_ready : DocsReady := by
  have hroot : LiveRoot docsCheckout.mirror docsEnv.mount docsRoot := by
    rw [LiveRoot]
    decide +kernel
  have hsub : docsSub ∈ liveNodes docsCheckout.mirror docsEnv.mount := by decide +kernel
  have htext : docsText ∈ liveNodes docsCheckout.mirror docsEnv.mount := by decide +kernel
  have hplaced : NamedFrom (liveNodes docsCheckout.mirror docsEnv.mount) docsRoot "sub" ["sub"] := by
    exact Placed.child (x := []) (c := docsSub) .start hsub rfl
  have hdots : ∀ a ∈ liveNodes docsCheckout.mirror docsEnv.mount, a.name.toList.head? ≠ some '.' := by decide +kernel
  have hok : ((Checkout.materializeMountFiles docsEnv).runBody docsCheckout).2 = .ok () := by decide +kernel
  refine ⟨by decide +kernel, ⟨⟨by decide, by decide, by decide +kernel, ?_⟩, by decide +kernel, by decide +kernel,
    by decide +kernel⟩, ⟨fun n hslash => ?_, fun a ha name n he => ?_⟩, fun q behind h => ?_, hroot,
    ⟨docsRoot, hroot, hsub, List.cons_ne_nil _ _, hplaced⟩,
    ⟨docsRoot, hroot, htext, List.cons_ne_nil _ _, Placed.child hplaced htext rfl⟩, Prod.ext rfl hok⟩
  · refine ⟨fun nodeId => if nodeId = "root" then 0 else if nodeId = "inner" then 2 else 1, fun a ha p hp => ?_⟩
    simp only [docsCheckout, List.mem_cons, List.not_mem_nil, or_false] at ha
    rcases ha with rfl | rfl | rfl <;> cases hp <;> decide
  · rw [show (docsEnv.newUuid n).toList = List.replicate n 'a' from String.toList_ofList] at hslash
    exact absurd (List.eq_of_mem_replicate hslash) (by decide)
  · have hlist : (tempName name (docsEnv.newUuid n)).toList.head? = some '.' := by
      simp [tempName, String.toList_append]
    rw [← he] at hlist
    exact hdots a ha hlist
  · have hentry := (lstat_eq_some_iff.mp h).1
    cases hentry

theorem materialized_docs_show_sub :
    ((Checkout.materializeMountFiles docsEnv).runBody docsCheckout).1.disk.lstat ["sub"] = some .dir := by
  have h := materialized_mount_shows_its_nodes docsEnv docsCheckout _ docs_ready.root docs_ready.clean
    docs_ready.temp docs_ready.links ⟨docsRoot, docs_ready.live⟩ docs_ready.run
  exact h.2.1 docsSub ["sub"] docs_ready.sub

end Valv.Daemon
