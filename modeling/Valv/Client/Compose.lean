import Valv.Client.Push

/-!
# The parts of a pass

A property of programs that sequences have when their parts have it is a property of the pass when its
pieces have it.

* `Composes`: such a property, of all that touches neither the mirror nor the requests as well.
* `pushTree_composes`: the walk, from what happens to an entry.
* `submitDeletes_composes`: the sweep, from what happens to a node.
-/

namespace Valv.Client

open Valv.Conc Valv.Table Valv.Server Valv.Files

/-- Sequences have the property when their parts have it, and so has what touches neither mirror nor requests. -/
structure Composes (Φ : (α : Type) → PushProc α → Prop) : Prop where
  done {α : Type} (a : α) : Φ α (pure a)
  fail {α : Type} (e : Halt) : Φ α (.fail e)
  bind {α β : Type} {p : PushProc α} {f : α → PushProc β} (hp : Φ α p) (hf : ∀ a, Φ β (f a)) : Φ β (p >>= f)
  quiet {α : Type} {put : Pass → Pass → Pass} {next : Pass → PushProc α} (hmirror : ∀ v s, (put v s).mirror = s.mirror)
    (hsent : ∀ v s, (put v s).sent = s.sent) (hnext : ∀ v, Φ α (next v)) : Φ α (.act put next)

variable {env : PushEnv} {Φ : (α : Type) → PushProc α → Prop} (h : Composes Φ)
include h

theorem read_composes {α : Type} (f : Pass → α) : Φ α (.read f) :=
  h.quiet (fun _ _ => rfl) (fun _ _ => rfl) fun _ => h.done _

theorem change_composes {f : Pass → Pass} (hmirror : ∀ s, (f s).mirror = s.mirror)
    (hsent : ∀ s, (f s).sent = s.sent) : Φ Unit (change f) :=
  h.quiet (fun _ => hmirror) (fun _ => hsent) fun _ => h.done _

theorem fsCall_composes {α : Type} (f : Disk FileData → Option α) : Φ (Option α) (fsCall env f) :=
  h.quiet (fun _ _ => rfl) (fun _ _ => rfl) fun _ => h.done _

theorem updateSummary_composes (f : PushSummary → PushSummary) : Φ Unit (updateSummary f) :=
  change_composes h (fun _ => rfl) fun _ => rfl

theorem enqueue_composes (dir : Path) (nodeId : String) : Φ Unit (enqueue dir nodeId) :=
  change_composes h (fun _ => rfl) fun _ => rfl

theorem deferDelete_composes (nodeId : String) : Φ Unit (deferDelete nodeId) :=
  change_composes h (fun _ => rfl) fun _ => rfl

theorem ensureNotUpdateRequired_composes : Φ Unit (ensureNotUpdateRequired env) := by
  refine h.quiet (fun _ _ => rfl) (fun _ _ => rfl) fun v => ?_
  split
  · exact h.fail _
  · exact h.done _

theorem propagateUpdateRequired_composes (e : SubmitError) : Φ Unit (propagateUpdateRequired e) := by
  rw [propagateUpdateRequired]
  split
  · exact h.fail _
  · exact h.done _

/-- An error that is recorded. -/
theorem recordError_composes (e : SubmitError) : Φ Unit (propagateUpdateRequired e >>= fun _ => recordPushError e) :=
  h.bind (propagateUpdateRequired_composes h e) fun _ => updateSummary_composes h _

theorem pathExists_composes (p : Path) : Φ Bool (pathExists env p) :=
  h.bind (fsCall_composes h _) fun _ => h.done _

/-! ### Copies -/

theorem disambiguateFrom_composes (dir : Path) (stem : String) (extension : Option String) (left : ℕ) :
    Φ (Option Path) (disambiguateFrom env dir stem extension left) := by
  induction left with
  | zero => exact h.done _
  | succ left ih =>
    refine h.bind (pathExists_composes h _) fun found => ?_
    split
    · exact ih
    · exact h.done _

theorem copyFile_composes (source target : Path) : Φ Bool (copyFile env source target) := by
  have hkeeps : ∀ v s : Pass, let s' : Pass := { s with calls := s.calls + 1 }
      let t := if env.fails v.calls || !Path.plain target then s'
        else (fileAt v.disk source).elim s' fun f => { s' with disk := s'.disk.write target { f with mtimeNanos := env.now } }
      t.mirror = s.mirror ∧ t.sent = s.sent := by
    intro v s
    dsimp only
    split
    · exact ⟨rfl, rfl⟩
    · cases fileAt v.disk source <;> exact ⟨rfl, rfl⟩
  exact h.quiet (fun v s => (hkeeps v s).1) (fun v s => (hkeeps v s).2) fun _ => h.done _

theorem materializeConflictCopy_composes (original : Path) : Φ Bool (materializeConflictCopy env original) := by
  have hpath : ∀ dir name, Φ (Option Path) (disambiguateConflictPath env dir name) := by
    intro dir name
    refine h.bind (pathExists_composes h _) fun found => ?_
    split
    · exact disambiguateFrom_composes h _ _ _ _
    · exact h.done _
  refine h.bind (hpath _ _) fun target => ?_
  cases target with
  | none => exact h.done _
  | some target => exact copyFile_composes h _ _

theorem copyOnConflict_composes (path : Path) (result : SubmitResult) :
    Φ (Option SubmitError) (copyOnConflict env path result) := by
  cases result with
  | conflictCopy serverSeq nodeId conflictVersionId =>
    exact h.bind (materializeConflictCopy_composes h path) fun _ => h.done _
  | error e => exact h.done _
  | applied serverSeq nodeId => exact h.done _
  | superseded currentSeq => exact h.done _
  | conflict => exact h.done _

theorem sameContent_composes (path : Path) (sizeBytes : ℕ) (stored : Option LocalVersion) :
    Φ (Option Bool) (sameContent env path sizeBytes stored) := by
  cases stored with
  | none => exact h.done _
  | some version =>
    rw [sameContent]
    split
    · exact h.bind (fsCall_composes h _) fun _ => h.done _
    · exact h.done _

/-! ### Candidates for moves -/

theorem isMissingMove_composes (nodes : List LocalNode) (entry : EntryInfo) (parentNodeId : String)
    (nodeType : NodeType) (node : LocalNode) : Φ Bool (isMissingMove env nodes entry parentNodeId nodeType node) := by
  rw [isMissingMove]
  split
  · cases localNodeAbsPath nodes env.scopeNodeId (nodes.length + 1) node with
    | none => exact h.fail _
    | some path =>
      cases path with
      | none => exact h.done _
      | some path => exact h.bind (pathExists_composes h path) fun _ => h.done _
  · exact h.done _

theorem missingMoveCandidates_composes (nodes : List LocalNode) (entry : EntryInfo) (parentNodeId : String)
    (nodeType : NodeType) (rest : List LocalNode) :
    Φ (List LocalNode) (missingMoveCandidates env nodes entry parentNodeId nodeType rest) := by
  induction rest with
  | nil => exact h.done _
  | cons node rest ih =>
    exact h.bind (isMissingMove_composes h nodes entry parentNodeId nodeType node) fun _ =>
      h.bind ih fun _ => h.done _

theorem findMissingMoveCandidate_composes (entry : EntryInfo) (parentNodeId : String) (nodeType : NodeType) :
    Φ (Option LocalNode) (findMissingMoveCandidate env entry parentNodeId nodeType) := by
  refine h.bind (read_composes h _) fun nodes => ?_
  refine h.bind (missingMoveCandidates_composes h nodes entry parentNodeId nodeType nodes) fun candidates => ?_
  split <;> exact h.done _

theorem enqueueFolder_composes (nodeType : NodeType) (dir : Path) (nodeId : String) :
    Φ Unit (enqueueFolder nodeType dir nodeId) := by
  rw [enqueueFolder]
  split
  · exact enqueue_composes h _ _
  · exact h.done _

/-! ### The walk -/

theorem readEntries_composes (dir : Path) (names : List String) :
    Φ (List EntryInfo × Bool) (readEntries env dir names) := by
  induction names with
  | nil => exact h.done _
  | cons name names ih =>
    have hskip : Φ _ (countError >>= fun _ => readEntries env dir names >>= fun rest =>
        (pure (rest.1, false) : PushProc (List EntryInfo × Bool))) :=
      h.bind (updateSummary_composes h _) fun _ => h.bind ih fun _ => h.done _
    refine h.bind (fsCall_composes h _) fun entry => ?_
    cases entry with
    | none => exact hskip
    | some u =>
      refine h.bind (fsCall_composes h _) fun type => ?_
      cases type with
      | none => exact hskip
      | some type => exact h.bind ih fun _ => h.done _

theorem recordListed_composes (dir : Path) (names : List String) (complete : Bool) :
    Φ Unit (recordListed dir names complete) := by
  rw [recordListed]
  split
  · exact change_composes h (fun _ => rfl) fun _ => rfl
  · exact h.done _

theorem processDir_composes (hentry : ∀ parentNodeId entry, Φ Unit (processEntry env parentNodeId entry)) (dir : Path)
    (parentNodeId : String) : Φ Unit (processDir env dir parentNodeId) := by
  have hentries : ∀ entries, Φ Unit (processEntries env parentNodeId entries) := by
    intro entries
    induction entries with
    | nil => exact h.done _
    | cons entry entries ih => exact h.bind (hentry _ _) fun _ => ih
  refine h.bind (ensureNotUpdateRequired_composes h) fun _ => h.bind (fsCall_composes h _) fun names => ?_
  cases names with
  | none => exact updateSummary_composes h _
  | some names =>
    exact h.bind (readEntries_composes h dir names) fun result =>
      h.bind (recordListed_composes h dir names result.2) fun _ => hentries _

theorem walk_composes (hentry : ∀ parentNodeId entry, Φ Unit (processEntry env parentNodeId entry)) (fuel : ℕ) :
    Φ Unit (walk env fuel) := by
  induction fuel with
  | zero => exact h.fail _
  | succ fuel ih =>
    have hpop : Φ _ popQueue := h.quiet (fun _ _ => rfl) (fun _ _ => rfl) fun _ => h.done _
    refine h.bind hpop fun next => ?_
    cases next with
    | none => exact h.done _
    | some next => exact h.bind (processDir_composes h hentry _ _) fun _ => ih

/-- **The walk** has the property when what happens to each entry has it. -/
theorem pushTree_composes (hentry : ∀ parentNodeId entry, Φ Unit (processEntry env parentNodeId entry)) :
    Φ Unit (pushTree env) := by
  refine h.bind (ensureNotUpdateRequired_composes h) fun _ => h.bind (read_composes h _) fun root => ?_
  cases root with
  | none => exact h.fail _
  | some root => exact h.bind (enqueue_composes h _ _) fun _ => walk_composes h hentry _

/-! ### The sweep -/

/-- A node of the sweep, from its delete. -/
theorem sweepNode_composes (hdelete : ∀ node path, Φ Unit (submitDelete env node path)) (nodes : List LocalNode)
    (node : LocalNode) (path : Path) : Φ Unit (sweepNode env nodes node path) := by
  refine h.bind (pathExists_composes h path) fun found => ?_
  split
  · exact h.done _
  · refine h.bind (read_composes h _) fun judged => ?_
    cases judged with
    | none => exact h.fail _
    | some judged =>
      cases judged with
      | false => exact h.done _
      | true => exact hdelete node path

theorem sweepChildren_composes (hdelete : ∀ node path, Φ Unit (submitDelete env node path)) (nodes : List LocalNode)
    (deferred : List String) (parentId : String) (children : List LocalNode) (w : Sweep) :
    Φ Sweep (sweepChildren env nodes deferred parentId children w) := by
  induction children generalizing w with
  | nil => exact h.done _
  | cons node rest ih =>
    refine h.bind (ensureNotUpdateRequired_composes h) fun _ => ?_
    split
    · exact ih w
    · exact h.bind (sweepNode_composes h hdelete nodes node _) fun _ => ih _

theorem sweep_composes (hdelete : ∀ node path, Φ Unit (submitDelete env node path)) (nodes : List LocalNode)
    (deferred : List String) (fuel : ℕ) (w : Sweep) : Φ Unit (sweep env nodes deferred fuel w) := by
  induction fuel generalizing w with
  | zero => exact h.fail _
  | succ fuel ih =>
    rw [sweep]
    cases w.queue with
    | nil => exact h.done _
    | cons parentId queue => exact h.bind (sweepChildren_composes h hdelete nodes deferred parentId _ _) fun w' => ih w'

/-- **The sweep** has the property when each delete has it. -/
theorem submitDeletes_composes (hdelete : ∀ node path, Φ Unit (submitDelete env node path)) :
    Φ Unit (submitDeletesForMissing env) := by
  refine h.bind (ensureNotUpdateRequired_composes h) fun _ => ?_
  refine h.bind (read_composes h _) fun nodes => h.bind (read_composes h _) fun deferred => ?_
  cases seedNode env nodes with
  | none => exact h.done _
  | some seed => exact sweep_composes h hdelete nodes deferred env.fuel _

end Valv.Client
