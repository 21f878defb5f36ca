import Valv.Client.Quiet
import Valv.Daemon.MountCrash

/-!
# What was materialized is not pushed back

The daemon writes what it has pulled to the files, and the push pass then walks the same files.  After
`materialize_mount_files` has succeeded on a fresh mount, the mount is settled: `push_local` sends nothing.

* `SameCut`: a file that is written is cut into the chunks that its version was submitted with.
* `FreshMount`: what is asked of the mirror, of the disk and of the two environments.
* `materialized_settled`: the tree on the disk is that of the mirror.
* `materialized_mount_pushes_nothing`: the two passes, one behind the other.
-/

namespace Valv.Daemon

open Valv.Conc Valv.Table Valv.Server Valv.Files Valv.Paths Valv.Traverse
open Valv.Client (FileData PushEnv Settled)

/-- A file that is written with some bytes has the chunks of these bytes, and each version that is downloaded was
submitted with the chunks of its bytes. -/
structure SameCut (codec : Client.Codec) (env : CheckoutEnv FileData) (penv : PushEnv) : Prop where
  hash : penv.contentHash = Client.manifestContentHash codec.sha256
  chunks : ∀ n bytes, (env.file n bytes).chunks = (codec.chunkFile bytes).map Client.Chunk.ref
  submitted : ∀ nodeId versionId version bytes, Checkout.ContentOf env nodeId versionId version bytes →
    Client.SubmittedAs codec bytes version

/-- A mount with one root, below which nothing stands yet; the push pass is about the same folder. -/
structure FreshMount (env : CheckoutEnv FileData) (penv : PushEnv) (s : Checkout FileData) (root : Client.LocalNode) :
    Prop where
  normal : normalize env.root = env.root
  clean : CleanTree s.mirror env.mount
  temp : TempNames s.mirror env
  live : LiveRoot s.mirror env.mount root
  sole : ∀ a ∈ liveNodes s.mirror env.mount, a.parentId = none → a = root
  links : Unlinked s.disk
  empty : ∀ r, r ≠ [] → s.disk.lstat r = none
  folder : penv.folderId = env.mount.folderId
  scope : ∀ scopeNodeId, penv.scopeNodeId = some scopeNodeId → scopeNodeId = root.nodeId

theorem plainName_of_plain {name : String} (h : Plain name) : plainName name = true := by
  obtain ⟨hempty, hdot, hdots, hslash⟩ := h
  simp [plainName, hempty, hdot, hdots, hslash]

section Echo

variable {codec : Client.Codec} {env : CheckoutEnv FileData} {penv : PushEnv} {s s' : Checkout FileData}
  {root node : Client.LocalNode} {names : List String}

open Checkout

theorem liveNodes_eq (hfolder : penv.folderId = env.mount.folderId) (m : Client.Mirror) :
    m.liveNodes penv.folderId = liveNodes m env.mount := by
  rw [Client.Mirror.liveNodes, liveNodes, folderNodes, List.filter_filter, hfolder]
  apply List.filter_congr
  intro r _
  rw [Bool.and_comm]

/-- A live node in the folder of a placed one is shown. -/
theorem FreshMount.shown (h : FreshMount env penv s root) (hnode : node ∈ liveNodes s.mirror env.mount) {nodeId : String}
    (hplaced : NamedFrom (liveNodes s.mirror env.mount) root nodeId names) (hparent : node.parentId = some nodeId) :
    Shown s.mirror env.mount node (names ++ [node.name]) :=
  ⟨root, h.live, hnode, List.append_ne_nil_of_right_ne_nil _ (List.cons_ne_nil _ _),
    Placed.child hplaced hnode hparent⟩

/-- **A file** that was written is the version's as the push pass compares them. -/
theorem SameCut.same (hcut : SameCut codec env penv) {nodeId versionId : String} {version : Client.RemoteVersion}
    {bytes : Client.Bytes} (hcontent : ContentOf env nodeId versionId version bytes) (n : ℕ) :
    version.sizeBytes = (env.file n bytes).sizeBytes ∧
      penv.contentHash (env.file n bytes).chunks = version.contentHash := by
  have hsubmitted := hcut.submitted nodeId versionId version bytes hcontent
  constructor
  · rw [FileData.sizeBytes, hcut.chunks, hsubmitted.sizeBytes, List.map_map, ← List.sum_eq_foldl]
    rfl
  · rw [hcut.hash, hcut.chunks, hsubmitted.contentHash]

/-- **The entry** of a shown node. -/
theorem FreshMount.entry (h : FreshMount env penv s root) (hcut : SameCut codec env penv)
    (hshown : Shown s.mirror env.mount node names) (hrealized : Realized env s s' node names) :
    (node.nodeType = .file ∧ node.currentVersionId = none) ∨ s'.disk.lstat names = some .dir ∨
      ∃ f version, s'.disk.lstat names = some (.file f) ∧
        s'.mirror.getVersion (node.currentVersionId.getD "") = some version ∧ version.sizeBytes = f.sizeBytes ∧
        penv.contentHash f.chunks = version.contentHash := by
  rw [Realized] at hrealized
  cases htype : node.nodeType with
  | folder =>
    rw [htype] at hrealized
    exact .inr (.inl hrealized)
  | file =>
    rw [htype] at hrealized
    cases hversion : node.currentVersionId with
    | none => exact .inl ⟨rfl, rfl⟩
    | some versionId =>
      obtain ⟨-, ⟨-, hstood, -⟩ | ⟨version, bytes, n, hcontent, hfile, hrow⟩⟩ := hrealized versionId hversion
      · -- nothing stood there before
        obtain ⟨-, -, -, hne, -⟩ := hshown
        exact absurd (h.empty names hne) hstood
      · obtain ⟨hsize, hhash⟩ := hcut.same hcontent n
        exact .inr (.inr ⟨_, _, hfile, hrow, hsize, hhash⟩)

/-- **After the first pass** the tree on the disk is that of the mirror. -/
theorem materialized_settled (h : FreshMount env penv s root) (hcut : SameCut codec env penv)
    (hrun : (Checkout.materializeMountFiles env).runBody s = (s', .ok ())) :
    Settled penv s'.mirror s'.disk root.nodeId := by
  obtain ⟨s₁, s₂, visits, hparts⟩ := materializeMountFiles_ok h.normal h.clean h.temp h.links ⟨root, h.live⟩ hrun
  have hwhole := ((materializeMountFiles_ensures h.normal h.clean h.temp h.links).of_runBody_ok hrun).1
  have hlive : s'.mirror.liveNodes penv.folderId = liveNodes s.mirror env.mount := by
    rw [liveNodes_eq h.folder, liveNodes_congr hwhole.nodes]
  have hroot : ∀ a ∈ liveNodes s.mirror env.mount, a.parentId = none → penv.scopeNodeId.getD a.nodeId = root.nodeId := by
    intro a ha htop
    cases hscope : penv.scopeNodeId with
    | none => rw [h.sole a ha htop, Option.getD_none]
    | some scopeNodeId => exact h.scope scopeNodeId hscope
  refine ⟨fun a ha => ?_, fun seed hseed => ?_, hparts.top h.clean h.temp, fun nodeId p name e hplaced he => ?_,
    fun node hnode nodeId p hplaced hparent => ?_⟩
  · obtain ⟨hmem, hkeep⟩ := List.mem_filter.mp ((List.mem_insertionSort _).mp (List.mem_of_mem_head? ha))
    simp only [Bool.and_eq_true, decide_eq_true_eq, Option.isNone_iff_eq_none] at hkeep
    obtain ⟨⟨hfolder, htop⟩, hnone⟩ := hkeep
    rw [hwhole.nodes] at hmem
    exact hroot a (mem_liveNodes.mpr ⟨hmem, hfolder.trans h.folder, hnone⟩) htop
  · rw [hlive, Client.seedNode] at hseed
    cases hscope : penv.scopeNodeId with
    | none =>
      rw [hscope] at hseed
      rw [h.sole seed (List.mem_of_find?_eq_some hseed) (by simpa using List.find?_some hseed)]
    | some scopeNodeId =>
      rw [hscope] at hseed
      have hid : seed.nodeId = scopeNodeId := by simpa using List.find?_some hseed
      exact hid.trans (h.scope scopeNodeId hscope)
  · rw [hlive] at hplaced
    have hne : p ++ [name] ≠ [] := List.append_ne_nil_of_right_ne_nil _ (List.cons_ne_nil _ _)
    -- what stands leads to a shown node, and a node is shown there
    obtain hold | hnil | ⟨below, names, hbelow, hplace, habove⟩ :=
      hparts.standing (r := p ++ [name]) (by rw [he]; exact Option.some_ne_none _)
    · exact absurd (h.empty _ hne) hold
    · exact absurd hnil hne
    obtain ⟨a, hshown⟩ := hbelow.above habove hne
    have hfound : s'.mirror.getNodeByParentAndName penv.folderId (some nodeId) name = some a := by
      rw [Client.Mirror.getNodeByParentAndName, hwhole.nodes, h.folder]
      exact hshown.found h.clean h.live hplaced
    have haPlace : HasPlace a := by
      by_cases heq : p ++ [name] = names
      · rwa [Shown.unique h.clean hshown (heq ▸ hbelow)]
      · exact .inl (Shown.folder_of_above h.clean hshown hbelow habove heq)
    rcases h.entry hcut hshown (hparts.realized hshown) with ⟨hfile, hnone⟩ | hdir | ⟨f, version, hf, hversion, hsame⟩
    · rcases haPlace with hfolder | hsome
      · rw [hfile] at hfolder
        cases hfolder
      · rw [hnone] at hsome
        cases hsome
    · cases he.symm.trans hdir
      rw [Client.Known, hfound]
      rfl
    · cases he.symm.trans hf
      rw [Client.Known, hfound]
      exact ⟨version, hversion, hsame⟩
  · rw [hlive] at hnode hplaced
    have hshown := h.shown hnode hplaced hparent
    have hstands : s'.disk.lstat (p ++ [node.name]) ≠ none → penv.finds s'.disk (p ++ [node.name]) = true := by
      intro hsome
      have hplain : Client.Path.plain (p ++ [node.name]) = true := by
        rw [Client.Path.plain, List.all_eq_true]
        intro name hname
        obtain ⟨a, ha, hsome, rfl⟩ := hshown.name_mem hname
        exact plainName_of_plain (h.clean.plain ha hsome)
      rw [PushEnv.finds, if_pos hplain, present_iff_of_unlinked hwhole.links]
      exact Option.isSome_iff_ne_none.mpr hsome
    rcases h.entry hcut hshown (hparts.realized hshown) with hempty | hdir | ⟨f, version, hf, -⟩
    · exact .inr hempty
    · exact .inl (hstands (by rw [hdir]; exact Option.some_ne_none _))
    · exact .inl (hstands (by rw [hf]; exact Option.some_ne_none _))

end Echo

open Checkout in
/-- **What was materialized is not pushed back.**  Once `materialize_mount_files` has succeeded on a fresh mount, a
`push_local` behind it has sent nothing and counted no error wherever it is stopped, and leaves the files as they are. -/
theorem materialized_mount_pushes_nothing (codec : Client.Codec) (env : CheckoutEnv FileData) (penv : PushEnv)
    (s s' : Checkout FileData) (root : Client.LocalNode) (h : FreshMount env penv s root)
    (hcut : SameCut codec env penv) (hfails : ∀ n, penv.fails n = false)
    (hrun : (Checkout.materializeMountFiles env).runBody s = (s', .ok ())) (k : ℕ) :
    let t := (Client.pushLocal penv).stateAfter k { mirror := s'.mirror, disk := s'.disk }
    t.sent = [] ∧ t.summary.errors = 0 ∧ t.disk = s'.disk ∧ Client.SameTree s'.mirror t.mirror := by
  have hquiet := Client.pushLocal_quiet hfails (materialized_settled h hcut hrun) k
  exact ⟨hquiet.sent, hquiet.errors, hquiet.disk, hquiet.tree⟩

/-- `docsEnv`, where a file is one chunk. -/
def docsDevice : CheckoutEnv FileData where
  mount := docsEnv.mount
  deviceId := docsEnv.deviceId
  dateOf := docsEnv.dateOf
  sha256 := docsEnv.sha256
  backend := docsEnv.backend
  newUuid := docsEnv.newUuid
  file n bytes := { chunks := if bytes = [] then [] else [⟨letters bytes, 0, bytes.length⟩], mtimeNanos := n }
  torn n := { chunks := [], mtimeNanos := n }
  fails := docsEnv.fails
  hidden := docsEnv.hidden
  elsewhere := docsEnv.elsewhere
  spared := docsEnv.spared

/-- The push pass of this device; the server refuses what is sent. -/
def docsPush : PushEnv where
  folderId := docsMount.folderId
  newUuid _ := "u"
  contentHash := Client.manifestContentHash letters
  fails _ := false
  odd _ := false
  halts _ := false
  answer _ _ := .conflict
  upload _ _ := ([], none)
  fuel := 8

def docsFresh : Checkout FileData where
  mirror := docsCheckout.mirror
  disk := { entries := [] }

/-- The mount after the first pass. -/
def docsFilled : Checkout FileData × Except CheckoutError Unit := (Checkout.materializeMountFiles docsDevice).runBody docsFresh

/-- The version that the backend has. -/
def docsVersion : Client.RemoteVersion := ⟨"v1", "hi", 2, [⟨"hi", 0, 2⟩]⟩

theorem docs_fresh : FreshMount docsDevice docsPush docsFresh docsRoot := by
  have hempty : ∀ r, docsFresh.disk.lstat r = none := by
    intro r
    rw [Option.eq_none_iff_forall_ne_some]
    intro e he
    have hentry := (lstat_eq_some_iff.mp he).1
    cases hentry
  refine ⟨docs_ready.root, docs_ready.clean, ⟨docs_ready.temp.slash, docs_ready.temp.apart⟩, docs_ready.live, ?_,
    fun q behind hq => ?_, fun r _ => hempty r, rfl, fun scopeNodeId hscope => ?_⟩
  · decide +kernel
  · rw [hempty q] at hq
    cases hq
  · cases hscope

theorem docs_cut : SameCut ⟨fun data => [(0, data.length)], letters⟩ docsDevice docsPush := by
  refine ⟨rfl, fun n bytes => ?_, fun nodeId versionId version bytes hcontent => ?_⟩
  · show (if bytes = [] then ([] : List ChunkRef) else [⟨letters bytes, 0, bytes.length⟩]) = _
    rw [Client.Codec.chunkFile]
    split
    · rfl
    · simp [Client.Codec.chunk, Client.Chunk.ref, Tiling.segment]
  · obtain ⟨n, hdownload⟩ := hcontent.downloaded
    rw [Client.downloadVerifiedVersion] at hdownload
    cases hfetch : Client.fetchRemoteVersion ((docsDevice.backend n).versions nodeId) nodeId versionId with
    | error e =>
      rw [hfetch] at hdownload
      cases hdownload
    | ok found =>
      have hfound : found = docsVersion := by
        rw [Client.fetchRemoteVersion] at hfetch
        cases hfind : ((docsDevice.backend n).versions nodeId).find? fun v => v.versionId = versionId with
        | none =>
          rw [hfind] at hfetch
          cases hfetch
        | some v =>
          rw [hfind] at hfetch
          cases hfetch
          exact List.mem_singleton.mp (List.mem_of_find?_eq_some hfind)
      rw [hfetch, hfound, show docsDevice.backend n = docsDevice.backend 0 from rfl] at hdownload
      have hbytes : (version, bytes) = (docsVersion, [104, 105]) := by
        refine Except.ok.inj (hdownload.symm.trans ?_)
        decide +kernel
      cases hbytes
      exact ⟨by decide +kernel, by decide +kernel, by decide +kernel, by decide +kernel⟩

theorem docs_filled : (Checkout.materializeMountFiles docsDevice).runBody docsFresh = (docsFilled.1, .ok ()) := by
  have hok : docsFilled.2 = .ok () := by decide +kernel
  exact Prod.ext rfl hok

theorem filled_docs_push_nothing :
    ((Client.pushLocal docsPush).stateAfter 40 { mirror := docsFilled.1.mirror, disk := docsFilled.1.disk }).sent = [] := by
  have h := materialized_mount_pushes_nothing ⟨fun data => [(0, data.length)], letters⟩ docsDevice docsPush docsFresh
    docsFilled.1 docsRoot docs_fresh docs_cut (fun _ => rfl) docs_filled 40
  exact h.1

theorem settled_docs_push_nothing :
    ((Client.pushLocal docsPush).stateAfter 9 { mirror := docsFilled.1.mirror, disk := docsFilled.1.disk }).sent = [] := by
  have h := Client.settled_mount_pushes_nothing docsPush docsFilled.1.mirror docsFilled.1.disk docsRoot.nodeId
    (materialized_settled docs_fresh docs_cut docs_filled) (fun _ => rfl) 9
  exact h.1

end Valv.Daemon
