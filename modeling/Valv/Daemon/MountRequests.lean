import Valv.Client.Mirror
import Valv.Daemon.MountTable
import Valv.Lib.Run
import Valv.Lib.Text

/-!
# Mount requests

`post_mount` and `delete_mount_route` of `valvd`, one after the other: the `mounts` table, the mirror and
`state.mounts`.

* `postMount`, `deleteMountRoute`: the requests, with the backend's answers.
* `AllOrNothing`: what is asked for.
* `RequestOk`: the condition on a request.
* `allOrNothing_iff`: a request.
* `mount_requests_atomic`, `mount_requests_torn`: any sequence of requests.
-/

namespace Valv.Daemon

open Valv.Table Valv.Text Valv.Server

/-! ### Requests and answers -/

/-- `DaemonError`; the body of a conflict and of the backend's answer is the text of the JSON. -/
inductive DaemonError where
  | badRequest (message : String)
  | notFound (message : String)
  | conflict (body : String)
  | backend (status : ℕ) (body : String)
  | updateRequired (message : String)
  | internal (message : String)
  deriving DecidableEq, Repr

/-- `StatusCode::canonical_reason`. -/
def canonicalReason (status : ℕ) : Option String :=
  [(100, "Continue"), (101, "Switching Protocols"), (102, "Processing"), (200, "OK"), (201, "Created"),
    (202, "Accepted"), (203, "Non Authoritative Information"), (204, "No Content"), (205, "Reset Content"),
    (206, "Partial Content"), (207, "Multi-Status"), (208, "Already Reported"), (226, "IM Used"),
    (300, "Multiple Choices"), (301, "Moved Permanently"), (302, "Found"), (303, "See Other"), (304, "Not Modified"),
    (305, "Use Proxy"), (307, "Temporary Redirect"), (308, "Permanent Redirect"), (400, "Bad Request"),
    (401, "Unauthorized"), (402, "Payment Required"), (403, "Forbidden"), (404, "Not Found"),
    (405, "Method Not Allowed"), (406, "Not Acceptable"), (407, "Proxy Authentication Required"),
    (408, "Request Timeout"), (409, "Conflict"), (410, "Gone"), (411, "Length Required"), (412, "Precondition Failed"),
    (413, "Payload Too Large"), (414, "URI Too Long"), (415, "Unsupported Media Type"), (416, "Range Not Satisfiable"),
    (417, "Expectation Failed"), (418, "I'm a teapot"), (421, "Misdirected Request"), (422, "Unprocessable Entity"),
    (423, "Locked"), (424, "Failed Dependency"), (425, "Too Early"), (426, "Upgrade Required"),
    (428, "Precondition Required"), (429, "Too Many Requests"), (431, "Request Header Fields Too Large"),
    (451, "Unavailable For Legal Reasons"), (500, "Internal Server Error"), (501, "Not Implemented"),
    (502, "Bad Gateway"), (503, "Service Unavailable"), (504, "Gateway Timeout"), (505, "HTTP Version Not Supported"),
    (506, "Variant Also Negotiates"), (507, "Insufficient Storage"), (508, "Loop Detected"), (510, "Not Extended"),
    (511, "Network Authentication Required")].lookup status

/-- A `StatusCode` as it is printed: the number and its reason. -/
def statusText (status : ℕ) : String :=
  toString status ++ " " ++ (canonicalReason status).getD "<unknown status code>"

/-- `to_string`. -/
def DaemonError.text : DaemonError → String
  | .badRequest message | .notFound message | .conflict message | .updateRequired message | .internal message => message
  | .backend status body => "backend returned " ++ statusText status ++ ": " ++ body

structure MountRequest where
  path : String
  folderId : Option String := none
  grantToken : Option String := none
  deriving DecidableEq, Repr

structure GrantListEntry where
  grantId : String
  folderId : String
  scopeNodeId : String
  canWrite : Bool
  deriving DecidableEq, Repr

structure ResolvedMount where
  folderId : String
  grantId : Option String := none
  scopeNodeId : Option String := none
  mountToken : Option String := none
  canWrite : Bool := true
  deriving DecidableEq, Repr

structure MountResponse where
  folderId : String
  grantId : Option String
  scopeNodeId : Option String
  path : String
  deriving DecidableEq, Repr

/-- What the calls of one `post_mount` would be answered: `GET /grants`, `POST /folders`, `tree_resync`,
`fetch_folder_name` and `materialize_mount_files`. -/
structure BackendAnswers where
  grants : Except DaemonError (List GrantListEntry)
  created : Except DaemonError String
  tree : Except DaemonError FolderTreeResponse
  name : Except DaemonError String
  materialized : Except DaemonError Unit

/-- What of an entry of `state.mounts` is in its row of the table too. The locks and flags of the entry are told
where the tasks are. -/
structure MountState where
  path : String
  folderId : String
  grantId : Option String := none
  scopeNodeId : Option String := none
  mountToken : Option String := none
  canWrite : Bool := true
  name : String := ""
  deriving DecidableEq, Repr

/-- The local database, with its mounts and its mirror, and the list of mounts that the daemon keeps in memory. -/
structure MountsState where
  table : MountTable := {}
  mirror : Client.Mirror := {}
  mounts : List MountState := []

/-- What the requests take from their surroundings: the daemon's own token, and the canonical form of a path on this
disk. -/
structure MountsConfig where
  deviceToken : Option String := none
  normalizePath : String → String := id

/-! ### Handlers -/

/-- The checks of a mount request. -/
def MountRequest.validate (req : MountRequest) : Except DaemonError Unit :=
  if isBlank req.path then .error (.badRequest "path is required")
  else if req.folderId = some "" then .error (.badRequest "folder_id cannot be empty")
  else if req.grantToken = some "" then .error (.badRequest "grant_token cannot be empty")
  else if req.folderId.isSome && req.grantToken.isSome then
    .error (.badRequest "folder_id_and_grant_token_are_mutually_exclusive")
  else .ok ()

/-- `require_token`. -/
def requireToken (token : Option String) : Except DaemonError String :=
  token.elim (.error (.badRequest "mount_has_no_credential")) .ok

/-- The mount of the first grant. -/
def grantedMount (token : String) : List GrantListEntry → Except DaemonError ResolvedMount
  | [] => .error (.notFound "grant token has no accessible grants")
  | grant :: _ => .ok
    { folderId := grant.folderId, grantId := some grant.grantId, scopeNodeId := some grant.scopeNodeId,
      mountToken := some token, canWrite := grant.canWrite }

/-- `resolve_mount`. -/
def resolveMount (cfg : MountsConfig) (req : MountRequest) (answers : BackendAnswers) :
    Except DaemonError ResolvedMount :=
  match req.grantToken, req.folderId with
  | some token, _ => answers.grants.bind (grantedMount token)
  | none, some folderId => .ok { folderId }
  | none, none => (requireToken cfg.deviceToken).bind fun _ => answers.created.map fun folderId => { folderId }

/-- The row of a mount. -/
def ResolvedMount.row (resolved : ResolvedMount) (path : String) : MountRow :=
  { path, folderId := resolved.folderId, grantId := resolved.grantId, scopeNodeId := resolved.scopeNodeId,
    mountToken := resolved.mountToken, canWrite := resolved.canWrite }

/-- `local_mount_name`. -/
def localMountName (m : Client.Mirror) (resolved : ResolvedMount) : Option String :=
  ((resolved.scopeNodeId.elim (m.getRootNode resolved.folderId) m.getNode).map Client.LocalNode.name).filter
    fun name => name ≠ ""

/-- The name of a mount: the local one, or the backend's. -/
def mountName (m : Client.Mirror) (resolved : ResolvedMount) (fetched : Except DaemonError String) :
    Except DaemonError String := (localMountName m resolved).elim fetched .ok

namespace MountsState

variable (cfg : MountsConfig) (d : MountsState)

/-- `upsert_mount` of a resolved mount. -/
def upsertResolved (path : String) (resolved : ResolvedMount) : Except DaemonError (ResolvedMount × MountTable) :=
  (d.table.upsertMount (resolved.row path)).elim
    (.error (.internal "UNIQUE constraint failed: mounts.folder_id")) fun t => .ok (resolved, t)

/-- A `post_mount` as far as `upsert_mount`. -/
def upsertRequest (req : MountRequest) (answers : BackendAnswers) : Except DaemonError (ResolvedMount × MountTable) :=
  req.validate.bind fun _ =>
    (resolveMount cfg req answers).bind fun resolved =>
      (requireToken (resolved.mountToken.or cfg.deviceToken)).bind fun _ =>
        d.upsertResolved (cfg.normalizePath req.path) resolved

/-- The entry takes the place of the one with its path. -/
def place (m : MountState) : List MountState → List MountState
  | [] => [m]
  | m' :: ms => if m'.path = m.path then m :: ms else m' :: place m ms

/-- `apply_tree_snapshot`. -/
def applyTree (t : MountTable) (folderId : String) (tree : FolderTreeResponse) : MountsState :=
  { d with table := t.setCursor folderId tree.upToSeq, mirror := d.mirror.applyTreeSnapshot folderId tree }

/-- A `post_mount` after the snapshot. -/
def nameAndMaterialize (path : String) (resolved : ResolvedMount) (answers : BackendAnswers) :
    Except DaemonError MountResponse × MountsState :=
  match mountName d.mirror resolved answers.name with
  | .error e => (.error e, d)
  | .ok name =>
    match answers.materialized with
    | .error e => (.error (.internal e.text), { d with table := (d.table.setMountName path name).deleteMount path })
    | .ok _ =>
      let mount : MountState :=
        { path, folderId := resolved.folderId, grantId := resolved.grantId, scopeNodeId := resolved.scopeNodeId,
          mountToken := resolved.mountToken, canWrite := resolved.canWrite, name }
      (.ok { folderId := resolved.folderId, grantId := resolved.grantId, scopeNodeId := resolved.scopeNodeId, path },
        { d with table := d.table.setMountName path name, mounts := place mount d.mounts })

/-- `post_mount`. -/
def postMount (req : MountRequest) (answers : BackendAnswers) : Except DaemonError MountResponse × MountsState :=
  match d.upsertRequest cfg req answers with
  | .error e => (.error e, d)
  | .ok (resolved, t) =>
    match answers.tree with
    | .error e => (.error (.internal e.text), { d with table := t.deleteMount (cfg.normalizePath req.path) })
    | .ok tree =>
      (d.applyTree t resolved.folderId tree).nameAndMaterialize (cfg.normalizePath req.path) resolved answers

/-- `delete_mount_route`. -/
def deleteMountRoute (folderId : String) : Except DaemonError Unit × MountsState :=
  if isBlank folderId then (.error (.badRequest "folder_id is required"), d)
  else match d.mounts.find? fun m => m.folderId = folderId with
    | none => (.error (.notFound "mount_not_found"), d)
    | some mount => (.ok (), { d with
        table := d.table.deleteMount mount.path
        mounts := d.mounts.filter fun m => m.path ≠ mount.path })

end MountsState

inductive MountEvent where
  | post (req : MountRequest) (answers : BackendAnswers)
  | delete (folderId : String)

namespace MountsState

variable (cfg : MountsConfig) (d : MountsState)

/-- A request is answered. -/
def serve : MountEvent → Except DaemonError (Option MountResponse) × MountsState
  | .post req answers => ((d.postMount cfg req answers).1.map some, (d.postMount cfg req answers).2)
  | .delete folderId => ((d.deleteMountRoute folderId).1.map fun _ => none, (d.deleteMountRoute folderId).2)

def step (ev : MountEvent) : Option MountsState := some (d.serve cfg ev).2

/-! ### What is asked for -/

/-- The table and the list in memory have the same mounts, path by path and folder by folder, in any order. -/
def InSync : Prop :=
  (d.table.rows.map fun r => (r.path, r.folderId)).Perm (d.mounts.map fun m => (m.path, m.folderId))

/-- **A mount request is all or nothing.**  One that answers an error leaves the table and the list as they were, and
after every request they have the same mounts. -/
def AllOrNothing (ev : MountEvent) : Prop :=
  (∀ e, (d.serve cfg ev).1 = .error e →
    (d.serve cfg ev).2.table.rows = d.table.rows ∧ (d.serve cfg ev).2.mounts = d.mounts) ∧ (d.serve cfg ev).2.InSync

/-! ### The condition -/

/-- The path is mounted, as far as the table knows. -/
def Mounted (path : String) : Prop := ∃ r ∈ d.table.rows, r.path = path

/-- The row of the path has what the request writes into it, with this cursor; only the name is that of the row
before. -/
def HasRow (path : String) (resolved : ResolvedMount) (cursor : ℕ) : Prop :=
  ∃ r ∈ d.table.rows, r = { resolved.row path with cursor, name := r.name }

/-- A `post_mount` that has written its row does not fail in `tree_resync` or `materialize_mount_files` where the path
was mounted, and does not fail in `fetch_folder_name` where it has changed the row. -/
def RequestOk : MountEvent → Prop
  | .delete _ => True
  | .post req answers => ∀ a ∈ (d.upsertRequest cfg req answers).toOption,
    (answers.tree.toOption = none → ¬ d.Mounted (cfg.normalizePath req.path)) ∧
    ∀ tree ∈ answers.tree.toOption,
      let name := (mountName (d.mirror.applyTreeSnapshot a.1.folderId tree) a.1 answers.name).toOption
      (name = none → d.HasRow (cfg.normalizePath req.path) a.1 tree.upToSeq) ∧
        (name ≠ none → answers.materialized.toOption = none → ¬ d.Mounted (cfg.normalizePath req.path))

instance (path : String) : Decidable (d.Mounted path) := inferInstanceAs (Decidable (∃ _ ∈ _, _))

instance (path : String) (resolved : ResolvedMount) (cursor : ℕ) : Decidable (d.HasRow path resolved cursor) :=
  inferInstanceAs (Decidable (∃ _ ∈ _, _))

instance : (ev : MountEvent) → Decidable (d.RequestOk cfg ev)
  | .delete _ => isTrue True.intro
  | .post _ _ => inferInstanceAs (Decidable (∀ _ ∈ _, (_ → _) ∧ ∀ _ ∈ _, (_ → _) ∧ (_ → _ → _)))

end MountsState

/-! ### Rows -/

section Rows

variable {t t' : MountTable} {r : MountRow} {path folderId name : String} {seq : ℕ}

/-- `upsert_mount` leaves the rows of other paths alone. -/
theorem filter_upsertMount (h : t.upsertMount r = some t') :
    (t'.rows.filter fun x => x.path ≠ r.path) = t.rows.filter fun x => x.path ≠ r.path := by
  rw [rows_ofRows h, upsert]
  split
  · rw [update, List.filter_map]
    have hpred : ((fun x : MountRow => decide (x.path ≠ r.path)) ∘ fun x : MountRow =>
        if x.path = r.path then { r with cursor := x.cursor, name := x.name } else x) = fun x : MountRow => x.path ≠ r.path := by
      funext x
      simp only [Function.comp]
      split
      · next hx => simp [hx]
      · rfl
    rw [hpred]
    conv_rhs => rw [← List.map_id (t.rows.filter _)]
    refine List.map_congr_left fun x hx => ?_
    have hne : x.path ≠ r.path := by simpa using (List.mem_filter.mp hx).2
    rw [if_neg hne, id]
  · simp

/-- The row of the path after `upsert_mount`. -/
theorem mem_upsertMount (h : t.upsertMount r = some t') :
    ∃ x ∈ t'.rows, x.path = r.path ∧ x.folderId = r.folderId ∧ x = { r with cursor := x.cursor, name := x.name } ∧
      ∀ old ∈ t.rows, old.path = r.path → x.cursor = old.cursor ∧ x.name = old.name := by
  have hrows := rows_ofRows h
  cases hold : lookup MountRow.path r.path t.rows with
  | some old =>
    refine ⟨{ r with cursor := old.cursor, name := old.name }, ?_, rfl, rfl, rfl, fun old' hold' hpath => ?_⟩
    · rw [hrows, upsert, hold]
      refine mem_update.mpr ⟨old, mem_of_lookup hold, ?_⟩
      rw [if_pos (lookup_key hold)]
    · rw [t.eq_of_path hold' (mem_of_lookup hold) (hpath.trans (lookup_key hold).symm)]
      exact ⟨rfl, rfl⟩
  | none =>
    refine ⟨r, ?_, rfl, rfl, rfl, fun old hmem hpath => absurd hpath (lookup_eq_none.mp hold old hmem)⟩
    rw [hrows, upsert, hold]
    simp

/-- A statement about the row of one path leaves the rows of the others alone. -/
theorem filter_map_self {f : MountRow → MountRow} (hf : ∀ x ∈ t.rows, (f x).path = x.path)
    (hother : ∀ x ∈ t.rows, x.path ≠ path → f x = x) :
    ((t.rows.map f).filter fun x => x.path ≠ path) = t.rows.filter fun x => x.path ≠ path := by
  rw [List.filter_map]
  have hpred : t.rows.filter ((fun x : MountRow => decide (x.path ≠ path)) ∘ f) =
      t.rows.filter fun x => x.path ≠ path := by
    refine List.filter_congr fun x hx => ?_
    simp only [Function.comp, hf x hx]
  rw [hpred]
  conv_rhs => rw [← List.map_id (t.rows.filter _)]
  refine List.map_congr_left fun x hx => ?_
  obtain ⟨hmem, hne⟩ := List.mem_filter.mp hx
  exact hother x hmem (by simpa using hne)

theorem filter_setCursor (hr : r ∈ t.rows) (hpath : r.path = path) :
    ((t.setCursor r.folderId seq).rows.filter fun x => x.path ≠ path) = t.rows.filter fun x => x.path ≠ path := by
  refine filter_map_self (fun x _ => by split <;> rfl) fun x hx hne => if_neg fun heq => hne ?_
  rw [t.eq_of_folder hx hr heq, hpath]

theorem filter_setMountName :
    ((t.setMountName path name).rows.filter fun x => x.path ≠ path) = t.rows.filter fun x => x.path ≠ path :=
  filter_map_self (fun x _ => by split <;> rfl) fun _ _ hne => if_neg hne

/-- A row that is deleted again is gone without a trace, where the path was not mounted. -/
theorem filter_eq_self_iff : (t.rows.filter fun x => x.path ≠ path) = t.rows ↔ ¬ ∃ x ∈ t.rows, x.path = path := by
  rw [List.filter_eq_self]
  simp

/-- The keys of the rows after a statement of `post_mount`. -/
theorem keys_setCursor : ((t.setCursor folderId seq).rows.map fun r => (r.path, r.folderId)) =
    t.rows.map fun r => (r.path, r.folderId) := by
  rw [MountTable.setCursor, List.map_map]
  refine List.map_congr_left fun r _ => ?_
  simp only [Function.comp]
  split <;> rfl

theorem keys_setMountName : ((t.setMountName path name).rows.map fun r => (r.path, r.folderId)) =
    t.rows.map fun r => (r.path, r.folderId) := by
  rw [MountTable.setMountName, List.map_map]
  refine List.map_congr_left fun r _ => ?_
  simp only [Function.comp]
  split <;> rfl

end Rows

/-! ### Pairs of path and folder -/

section Pairs

variable {ks ks' : List (String × String)} {k : String × String}

/-- A list with the pair, the rest apart. -/
theorem perm_cons_filter (hnd : (ks.map Prod.fst).Nodup) (hk : k ∈ ks) :
    ks.Perm (k :: ks.filter fun x => x.1 ≠ k.1) := by
  induction ks with
  | nil => cases hk
  | cons x ks ih =>
    obtain ⟨hnot, hnd⟩ := List.nodup_cons.mp hnd
    rcases List.mem_cons.mp hk with rfl | hk
    · have hrest : (ks.filter fun x => x.1 ≠ k.1) = ks := by
        refine List.filter_eq_self.mpr fun x hx => ?_
        have hne : x.1 ≠ k.1 := fun heq => hnot (heq ▸ List.mem_map_of_mem hx)
        simpa using hne
      rw [List.filter_cons_of_neg (by simp), hrest]
    · have hne : x.1 ≠ k.1 := fun heq => hnot (heq ▸ List.mem_map_of_mem hk)
      rw [List.filter_cons_of_pos (by simpa using hne)]
      exact ((ih hnd hk).cons x).trans (List.Perm.swap k x _)

theorem paths_place (m : MountState) (ms : List MountState) :
    (MountsState.place m ms).map MountState.path =
      if m.path ∈ ms.map MountState.path then ms.map MountState.path else ms.map MountState.path ++ [m.path] := by
  induction ms with
  | nil => simp [MountsState.place]
  | cons x ms ih =>
    rw [MountsState.place]
    by_cases hx : x.path = m.path
    · simp [hx]
    · have hx' : m.path ≠ x.path := Ne.symm hx
      rw [if_neg hx, List.map_cons, ih]
      by_cases hin : m.path ∈ ms.map MountState.path
      · rw [if_pos hin, if_pos (by simp [hin]), List.map_cons]
      · have hnot : m.path ∉ (x :: ms).map MountState.path := by
          rw [List.map_cons, List.mem_cons]
          exact not_or.mpr ⟨hx', hin⟩
        rw [if_neg hin, if_neg hnot, List.map_cons, List.cons_append]

theorem mem_place_self (m : MountState) (ms : List MountState) : m ∈ MountsState.place m ms := by
  induction ms with
  | nil => simp [MountsState.place]
  | cons x ms ih =>
    rw [MountsState.place]
    split
    · simp
    · exact List.mem_cons_of_mem x ih

theorem filter_place (m : MountState) (ms : List MountState) :
    ((MountsState.place m ms).filter fun x => x.path ≠ m.path) = ms.filter fun x => x.path ≠ m.path := by
  induction ms with
  | nil => simp [MountsState.place]
  | cons x ms ih =>
    rw [MountsState.place]
    by_cases hx : x.path = m.path
    · simp [hx]
    · rw [if_neg hx, List.filter_cons, List.filter_cons, ih]

end Pairs

/-! ### A request -/

section Request

variable {cfg : MountsConfig} {d : MountsState} {req : MountRequest} {answers : BackendAnswers}
  {resolved : ResolvedMount} {t : MountTable} {path name : String} {seq : ℕ}

/-- A request that gets as far has upserted its row. -/
theorem upsert_of_request (h : d.upsertRequest cfg req answers = .ok (resolved, t)) :
    d.table.upsertMount (resolved.row (cfg.normalizePath req.path)) = some t := by
  rw [MountsState.upsertRequest] at h
  cases hvalid : req.validate with
  | error e => simp [hvalid, Except.bind] at h
  | ok _ =>
    cases hresolve : resolveMount cfg req answers with
    | error e => simp [hvalid, hresolve, Except.bind] at h
    | ok resolved' =>
      cases htoken : requireToken (resolved'.mountToken.or cfg.deviceToken) with
      | error e => simp [hvalid, hresolve, htoken, Except.bind] at h
      | ok token =>
        simp only [hvalid, hresolve, htoken, Except.bind, MountsState.upsertResolved] at h
        cases hupsert : d.table.upsertMount (resolved'.row (cfg.normalizePath req.path)) with
        | none => simp [hupsert] at h
        | some t' =>
          simp only [hupsert, Option.elim, Except.ok.injEq, Prod.mk.injEq] at h
          rw [← h.1, ← h.2, hupsert]

/-- The rows are those of before exactly where the row has all that is written. -/
theorem rows_setCursor_iff (h : d.table.upsertMount (resolved.row path) = some t) :
    (t.setCursor resolved.folderId seq).rows = d.table.rows ↔ d.HasRow path resolved seq := by
  constructor
  · intro hrows
    obtain ⟨x, hx, hpath, hfolder, hsame, -⟩ := mem_upsertMount h
    have hmem : { x with cursor := seq } ∈ (t.setCursor resolved.folderId seq).rows := by
      refine List.mem_map.mpr ⟨x, hx, ?_⟩
      rw [if_pos (show x.folderId = resolved.folderId from hfolder)]
    rw [hrows] at hmem
    refine ⟨_, hmem, ?_⟩
    show { x with cursor := seq } = { resolved.row path with cursor := seq, name := x.name }
    rw [hsame]
  · rintro ⟨old, hold, hsame⟩
    have hpath : old.path = path := by rw [hsame]; rfl
    have hfolder : old.folderId = resolved.folderId := by rw [hsame]; rfl
    have hcursor : old.cursor = seq := by rw [hsame]
    -- neither statement changes the row
    have hupsert : t.rows = d.table.rows := by
      rw [rows_ofRows h, upsert, if_pos]
      · rw [update]
        conv_rhs => rw [← List.map_id d.table.rows]
        refine List.map_congr_left fun x hx => ?_
        by_cases hx' : x.path = path
        · rw [if_pos (show x.path = (resolved.row path).path from hx'), d.table.eq_of_path hx hold (hx'.trans hpath.symm),
            hcursor, id]
          exact hsame.symm
        · rw [if_neg (show x.path ≠ (resolved.row path).path from hx'), id]
      · rw [Option.isSome_iff_ne_none]
        exact fun hnone => lookup_eq_none.mp hnone old hold hpath
    show t.rows.map (fun r => if r.folderId = resolved.folderId then { r with cursor := seq } else r) = d.table.rows
    rw [hupsert]
    conv_rhs => rw [← List.map_id d.table.rows]
    refine List.map_congr_left fun x hx => ?_
    by_cases hx' : x.folderId = resolved.folderId
    · rw [if_pos hx', d.table.eq_of_folder hx hold (hx'.trans hfolder.symm), ← hcursor, id]
    · rw [if_neg hx', id]

/-- The rows of the other paths, after any statement of a `post_mount` and `delete_mount`. -/
theorem filter_statements (h : d.table.upsertMount (resolved.row path) = some t) :
    (((t.setCursor resolved.folderId seq).setMountName path name).rows.filter fun x => x.path ≠ path) =
      d.table.rows.filter fun x => x.path ≠ path := by
  obtain ⟨x, hx, hpath, hfolder, -⟩ := mem_upsertMount h
  have hcursor : ((t.setCursor x.folderId seq).rows.filter fun x => x.path ≠ path) = t.rows.filter fun x => x.path ≠ path :=
    filter_setCursor hx hpath
  rw [show x.folderId = resolved.folderId from hfolder] at hcursor
  exact filter_setMountName.trans (hcursor.trans (filter_upsertMount h))

/-- **A mount that is listed is in sync.** -/
theorem inSync_placed (hsync : d.InSync) (h : d.table.upsertMount (resolved.row path) = some t) {m : MountState}
    (hm : m.path = path) (hm' : m.folderId = resolved.folderId) (mirror : Client.Mirror) :
    MountsState.InSync
      { table := (t.setCursor resolved.folderId seq).setMountName path name, mirror,
        mounts := MountsState.place m d.mounts } := by
  obtain ⟨x, hx, hxpath, hxfolder, -⟩ := mem_upsertMount h
  have htable : (t.rows.map fun r => (r.path, r.folderId)).Perm ((path, resolved.folderId) ::
      (d.table.rows.filter fun r => r.path ≠ path).map fun r => (r.path, r.folderId)) := by
    have hnd : ((t.rows.map fun r => (r.path, r.folderId)).map Prod.fst).Nodup := by
      rw [List.map_map]
      exact t.keys.1
    have hin : (path, resolved.folderId) ∈ t.rows.map fun r => (r.path, r.folderId) :=
      List.mem_map.mpr ⟨x, hx, Prod.ext hxpath hxfolder⟩
    refine (perm_cons_filter hnd hin).trans ?_
    have hfilter : (t.rows.filter fun r => r.path ≠ path) = d.table.rows.filter fun r => r.path ≠ path :=
      filter_upsertMount h
    rw [← hfilter, List.filter_map]
    exact List.Perm.refl _
  have hmounts : ((MountsState.place m d.mounts).map fun m => (m.path, m.folderId)).Perm ((path, resolved.folderId) ::
      (d.mounts.filter fun m => m.path ≠ path).map fun m => (m.path, m.folderId)) := by
    have hold : (d.mounts.map MountState.path).Nodup := by
      have hperm := hsync.map Prod.fst
      rw [List.map_map, List.map_map] at hperm
      exact hperm.nodup_iff.mp d.table.keys.1
    have hnd : (((MountsState.place m d.mounts).map fun m => (m.path, m.folderId)).map Prod.fst).Nodup := by
      rw [List.map_map]
      show ((MountsState.place m d.mounts).map MountState.path).Nodup
      rw [paths_place]
      split
      · exact hold
      · next hnot =>
        refine List.nodup_append.mpr ⟨hold, List.nodup_singleton _, fun a ha b hb hab => hnot ?_⟩
        rwa [← List.mem_singleton.mp hb, ← hab]
    have hin : (path, resolved.folderId) ∈ (MountsState.place m d.mounts).map fun m => (m.path, m.folderId) :=
      List.mem_map.mpr ⟨m, mem_place_self m d.mounts, Prod.ext hm hm'⟩
    refine (perm_cons_filter hnd hin).trans ?_
    have hfilter := filter_place m d.mounts
    rw [hm] at hfilter
    rw [← hfilter, List.filter_map]
    exact List.Perm.refl _
  have hrest : ((d.table.rows.filter fun r => r.path ≠ path).map fun r => (r.path, r.folderId)).Perm
      ((d.mounts.filter fun m => m.path ≠ path).map fun m => (m.path, m.folderId)) := by
    have hperm := List.Perm.filter (fun k => k.1 ≠ path) hsync
    rw [List.filter_map, List.filter_map] at hperm
    exact hperm
  show (((t.setCursor resolved.folderId seq).setMountName path name).rows.map fun r => (r.path, r.folderId)).Perm _
  rw [keys_setMountName, keys_setCursor]
  exact htable.trans ((hrest.cons _).trans hmounts.symm)

theorem allOrNothing_delete (hsync : d.InSync) (folderId : String) : d.AllOrNothing cfg (.delete folderId) := by
  simp only [MountsState.AllOrNothing, MountsState.serve, MountsState.deleteMountRoute]
  split
  · exact ⟨fun _ _ => ⟨rfl, rfl⟩, hsync⟩
  · split
    · exact ⟨fun _ _ => ⟨rfl, rfl⟩, hsync⟩
    · next mount _ =>
      refine ⟨fun e he => absurd he (by simp [Except.map]), ?_⟩
      have hperm := List.Perm.filter (fun k => k.1 ≠ mount.path) hsync
      rw [List.filter_map, List.filter_map] at hperm
      exact hperm

/-- **A `post_mount` is all or nothing exactly where the condition holds.** -/
theorem allOrNothing_post (hsync : d.InSync) (req : MountRequest) (answers : BackendAnswers) :
    d.AllOrNothing cfg (.post req answers) ↔ d.RequestOk cfg (.post req answers) := by
  -- a state that differs in the mirror alone is as good
  have hsame : ∀ d' : MountsState, d'.table.rows = d.table.rows → d'.mounts = d.mounts → d'.InSync := by
    intro d' htable hmounts
    rw [MountsState.InSync, htable, hmounts]
    exact hsync
  simp only [MountsState.AllOrNothing, MountsState.serve, MountsState.RequestOk, MountsState.postMount]
  cases hupserted : d.upsertRequest cfg req answers with
  | error e =>
    refine ⟨fun _ a ha => ?_, fun _ => ⟨fun _ _ => ⟨rfl, rfl⟩, hsync⟩⟩
    cases ha
  | ok a =>
    obtain ⟨resolved, t⟩ := a
    set path := cfg.normalizePath req.path with hpath
    have hupsert : d.table.upsertMount (resolved.row path) = some t := upsert_of_request hupserted
    have hmounted : (d.table.rows.filter fun x => x.path ≠ path) = d.table.rows ↔ ¬ d.Mounted path := filter_eq_self_iff
    cases htree : answers.tree with
    | error e =>
      have hrows : (t.deleteMount path).rows = d.table.rows.filter fun x => x.path ≠ path := filter_upsertMount hupsert
      constructor
      · rintro ⟨hkept, -⟩ a ha
        cases ha
        refine ⟨fun _ => hmounted.mp ?_, fun tree htree' => ?_⟩
        · exact hrows.symm.trans (hkept _ rfl).1
        · cases htree'
      · intro hok
        have hnot := (hok _ rfl).1 rfl
        have hback : (t.deleteMount path).rows = d.table.rows := hrows.trans (hmounted.mpr hnot)
        exact ⟨fun _ _ => ⟨hback, rfl⟩, hsame _ hback rfl⟩
    | ok tree =>
      simp only [MountsState.nameAndMaterialize, MountsState.applyTree]
      have hiff : (t.setCursor resolved.folderId tree.upToSeq).rows = d.table.rows ↔
          d.HasRow path resolved tree.upToSeq := rows_setCursor_iff hupsert
      cases hname : mountName (d.mirror.applyTreeSnapshot resolved.folderId tree) resolved answers.name with
      | error e =>
        constructor
        · rintro ⟨hkept, -⟩ a ha
          cases ha
          refine ⟨fun hnone => ?_, fun tree' htree' => ?_⟩
          · cases hnone
          · cases htree'
            refine ⟨fun _ => hiff.mp (hkept _ rfl).1, fun hsome => absurd ?_ hsome⟩
            rw [hname]
            rfl
        · intro hok
          have hback := hiff.mpr (((hok _ rfl).2 tree rfl).1 (by rw [hname]; rfl))
          exact ⟨fun _ _ => ⟨hback, rfl⟩, hsame _ hback rfl⟩
      | ok name =>
        have hsome : (mountName (d.mirror.applyTreeSnapshot resolved.folderId tree) resolved answers.name).toOption
            ≠ none := by
          rw [hname]
          exact Option.some_ne_none name
        cases hmaterialized : answers.materialized with
        | error e =>
          have hrows : (((t.setCursor resolved.folderId tree.upToSeq).setMountName path name).deleteMount path).rows =
              d.table.rows.filter fun x => x.path ≠ path := filter_statements hupsert
          constructor
          · rintro ⟨hkept, -⟩ a ha
            cases ha
            refine ⟨fun hnone => ?_, fun tree' htree' => ?_⟩
            · cases hnone
            · cases htree'
              exact ⟨fun hnone => absurd hnone hsome, fun _ _ => hmounted.mp (hrows.symm.trans (hkept _ rfl).1)⟩
          · intro hok
            have hnot := ((hok _ rfl).2 tree rfl).2 hsome rfl
            have hback := hrows.trans (hmounted.mpr hnot)
            exact ⟨fun _ _ => ⟨hback, rfl⟩, hsame _ hback rfl⟩
        | ok _ =>
          constructor
          · rintro - a ha
            cases ha
            refine ⟨fun hnone => ?_, fun tree' htree' => ?_⟩
            · cases hnone
            · cases htree'
              refine ⟨fun hnone => absurd hnone hsome, fun _ hnone => ?_⟩
              cases hnone
          · intro _
            refine ⟨fun e he => absurd he (by simp [Except.map]), ?_⟩
            exact inSync_placed hsync hupsert rfl rfl _

theorem allOrNothing_iff (hsync : d.InSync) (ev : MountEvent) : d.AllOrNothing cfg ev ↔ d.RequestOk cfg ev := by
  cases ev with
  | post req answers => exact allOrNothing_post hsync req answers
  | delete folderId => exact ⟨fun _ => True.intro, fun _ => allOrNothing_delete hsync folderId⟩

end Request

/-! ### Any sequence -/

/-- **Mount requests are all or nothing in exactly the runs in which each meets the condition.** -/
theorem mount_requests_atomic (cfg : MountsConfig) (d : MountsState) (hsync : d.InSync) (evs : List MountEvent) :
    Run.Along (MountsState.step cfg) (MountsState.AllOrNothing cfg) d evs ↔
      Run.Along (MountsState.step cfg) (MountsState.RequestOk cfg) d evs := by
  induction evs generalizing d with
  | nil => exact Iff.rfl
  | cons ev evs ih =>
    have hiff : d.AllOrNothing cfg ev ↔ d.RequestOk cfg ev := allOrNothing_iff hsync ev
    constructor
    · rintro ⟨hhead, htail⟩
      exact ⟨hiff.mp hhead, (ih _ hhead.2).mp htail⟩
    · rintro ⟨hhead, htail⟩
      exact ⟨hiff.mpr hhead, (ih _ (hiff.mpr hhead).2).mpr htail⟩

def tokenConfig : MountsConfig := { deviceToken := some "token" }

/-- The backend creates the folder `f`, whose root has no name. -/
def createsFolder : BackendAnswers where
  grants := .ok []
  created := .ok "f"
  tree := .ok { nodes := [{ nodeId := "root", parentId := none, name := "", type := .folder, currentVersionId := none,
                            serverSeq := 1, deletedAt := none }], upToSeq := 1 }
  name := .ok "Docs"
  materialized := .ok ()

def unreachable {α : Type} : Except DaemonError α := .error (.internal "error sending request")

/-- A folder is mounted, a mount of another one fails, and the first is mounted again and unmounted. -/
def mountsDay : List MountEvent :=
  [.post { path := "/docs" } createsFolder,
    .post { path := "/other", folderId := some "g" } { createsFolder with tree := unreachable },
    .post { path := "/docs", folderId := some "f" } createsFolder, .delete "f"]

theorem mount_requests_atomic_day :
    Run.Along (MountsState.step tokenConfig) (MountsState.AllOrNothing tokenConfig) {} mountsDay :=
  (mount_requests_atomic tokenConfig {} (List.Perm.refl _) mountsDay).mpr (by decide +kernel)

/-- **A mount is torn.**  The folder is mounted again while the backend cannot be reached: its row goes, and the list
keeps it.  Where only the name is missing, a new mount leaves a row that is not listed. -/
theorem mount_requests_torn :
    ¬ Run.Along (MountsState.step tokenConfig) (MountsState.AllOrNothing tokenConfig) {}
      [.post { path := "/docs" } createsFolder,
        .post { path := "/docs", folderId := some "f" } { createsFolder with tree := unreachable }] ∧
    ¬ Run.Along (MountsState.step tokenConfig) (MountsState.AllOrNothing tokenConfig) {}
      [.post { path := "/docs" } { createsFolder with name := unreachable }] := by
  refine ⟨?_, ?_⟩
  · rintro ⟨-, ⟨hkept, -⟩, -⟩
    have hrows := (hkept (.internal "error sending request") (by decide +kernel)).1
    revert hrows
    decide +kernel
  · rintro ⟨⟨hkept, -⟩, -⟩
    have hrows := (hkept (.internal "error sending request") (by decide +kernel)).1
    revert hrows
    decide +kernel

end Valv.Daemon
