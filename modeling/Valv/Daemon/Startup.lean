import Valv.Daemon.MountTable

/-!
# Mounts at startup

Before `valvd` starts its tasks it gives every row of `mounts` its canonical path, and then adds the mounts of the
config file: `normalize_persisted_mount_paths` of `main.rs` and `merge_config_mounts` of `config.rs`.

* `reconcileMounts`: both.
* `Reconciled`: what is asked for.
* `StartupOk`: the condition on the table and the config.
* `Progress.step`: one row of the snapshot; of the rows seen so far with one canonical path, one is left.
* `startup_reconciles`, `startup_refuses`.
-/

namespace Valv.Daemon

open Valv.Table

/-! ### The two passes -/

/-- A mount as the config file lists it. The path is taken as it stands in the file and made canonical at startup.
-/
structure MountConfig where
  path : String
  folderId : String
  grantId : Option String := none
  scopeNodeId : Option String := none
  mountToken : Option String := none
  deriving DecidableEq, Repr

section Startup

variable (c : String → String)

/-- The row with its canonical path. -/
def MountRow.canonicalized (m : MountRow) : MountRow := { m with path := c m.path }

/-- One turn of the loop in `normalize_persisted_mount_paths`. -/
def normalizeRow (t : MountTable) (mount : MountRow) : Option MountTable :=
  if c mount.path = mount.path then some t
  else match t.getMount (c mount.path) with
    | some existing =>
      if mount.mountToken.isSome && existing.mountToken.isNone then
        (t.deleteMount (c mount.path)).updateMountPath mount.path (c mount.path)
      else some (t.deleteMount mount.path)
    | none => t.updateMountPath mount.path (c mount.path)

/-- `normalize_persisted_mount_paths`. -/
def normalizePersistedMountPaths (t : MountTable) : Option MountTable := t.listMounts.foldlM (normalizeRow c) t

/-- `canonicalize_config_mount_paths`. -/
def canonicalizeConfigMountPaths (mounts : List MountConfig) : List MountConfig :=
  mounts.map fun mount => { mount with path := c mount.path }

/-- The row that a mount of the config is added with. -/
def MountConfig.row (mount : MountConfig) : MountRow :=
  { path := mount.path, folderId := mount.folderId, grantId := mount.grantId, scopeNodeId := mount.scopeNodeId,
    mountToken := mount.mountToken }

/-- One turn of the loop in `merge_config_mounts`. -/
def mergeConfigMount (t : MountTable) (mount : MountConfig) : Option MountTable :=
  if (t.getMount mount.path).isSome then some t else t.upsertMount mount.row

/-- `merge_config_mounts`. -/
def mergeConfigMounts (t : MountTable) (configMounts : List MountConfig) : Option MountTable :=
  configMounts.foldlM mergeConfigMount t

/-- The first steps of `run`; where one fails the daemon does not start. -/
def reconcileMounts (config : List MountConfig) (t : MountTable) : Option MountTable :=
  (normalizePersistedMountPaths c t).bind fun t => mergeConfigMounts t (canonicalizeConfigMountPaths c config)

/-! ### What is asked for -/

/-- The config mounts to be added: those of which neither the path nor the folder is mounted. -/
def addedMounts (mounted : List MountRow) : List MountConfig → List MountRow
  | [] => []
  | mount :: mounts =>
    if ∃ m ∈ mounted, m.path = mount.path ∨ m.folderId = mount.folderId then addedMounts mounted mounts
    else mount.row :: addedMounts (mounted ++ [mount.row]) mounts

/-- **The mounts are reconciled.** -/
structure Reconciled (t : MountTable) (config : List MountConfig) (t' : MountTable) : Prop where
  canonical : ∀ m ∈ t'.rows, c m.path = m.path
  survives : ∀ m ∈ t.rows, m.canonicalized c ∈ t'.rows ∨
    ∃ m' ∈ t.rows, m' ≠ m ∧ c m'.path = c m.path ∧ m'.canonicalized c ∈ t'.rows
  credentials : ∀ m ∈ t.rows, m.mountToken.isSome → m.canonicalized c ∉ t'.rows →
    ∀ m' ∈ t'.rows, m'.path = c m.path → m'.mountToken.isSome
  added : ∃ kept, (∀ m ∈ kept, ∃ m' ∈ t.rows, m = m'.canonicalized c) ∧
    t'.rows = kept ++ addedMounts kept (canonicalizeConfigMountPaths c config)
  again : reconcileMounts c config t' = some t'

/-! ### The condition -/

/-- `m'` is kept and `m` is dropped, where both have one canonical path. A row with a mount token is kept before one
without; else the row whose path is canonical is kept, and then the one with the lower path. -/
def Beats (m' m : MountRow) : Prop :=
  (m'.mountToken.isSome ∧ m.mountToken.isNone) ∨
    (m'.mountToken.isSome = m.mountToken.isSome ∧ c m.path ≠ m.path ∧ (c m'.path = m'.path ∨ m'.path < m.path))

instance (m' m : MountRow) : Decidable (Beats c m' m) := inferInstanceAs (Decidable (_ ∨ _))

/-- The rows that are kept. -/
def survivors (t : MountTable) : List MountRow :=
  t.rows.filter fun m => ∀ m' ∈ t.rows, c m'.path = c m.path → ¬ Beats c m' m

/-- The config mounts whose canonical path no row and no earlier config mount has. -/
def newMounts (paths : List String) : List MountConfig → List MountConfig
  | [] => []
  | mount :: mounts =>
    if c mount.path ∈ paths then newMounts paths mounts else mount :: newMounts (c mount.path :: paths) mounts

/-- The config mounts whose paths are new have folders of their own: no two of them share one, and none is that of a
row which survives the reconciliation. -/
def StartupOk (t : MountTable) (config : List MountConfig) : Prop :=
  let mounts := newMounts c (t.rows.map fun m => c m.path) config
  (mounts.map MountConfig.folderId).Nodup ∧ ∀ m ∈ survivors c t, ∀ mount ∈ mounts, m.folderId ≠ mount.folderId

instance (t : MountTable) (config : List MountConfig) : Decidable (StartupOk c t config) :=
  inferInstanceAs (Decidable (_ ∧ _))

end Startup

/-! ### Normalizing -/

section Normalize

variable {c : String → String} {t cur cur' : MountTable} {done rest : List MountRow} {m mount w : MountRow}

/-- The rows that a part of the loop has seen. Rows with a canonical path count from the start, because the loop
looks them up before it goes over the others. -/
def Seen (c : String → String) (t : MountTable) (done : List MountRow) (m : MountRow) : Prop :=
  m ∈ t.rows ∧ (c m.path = m.path ∨ m ∈ done)

/-- The row has been seen, and no row seen so far beats it. At the end of the loop the winners are exactly the
survivors. -/
def Wins (c : String → String) (t : MountTable) (done : List MountRow) (m : MountRow) : Prop :=
  Seen c t done m ∧ ∀ m', Seen c t done m' → c m'.path = c m.path → ¬ Beats c m' m

/-- The table in the middle of the loop. -/
structure Progress (c : String → String) (t : MountTable) (done rest : List MountRow) (cur : MountTable) : Prop where
  mem : ∀ m, m ∈ cur.rows ↔ (m ∈ rest ∧ c m.path ≠ m.path) ∨ ∃ w, Wins c t done w ∧ m = w.canonicalized c
  won : ∀ m, Seen c t done m → ∃ w, Wins c t done w ∧ c w.path = c m.path

theorem seen_concat : Seen c t (done ++ [mount]) m ↔ Seen c t done m ∨ (m ∈ t.rows ∧ m = mount) := by
  simp only [Seen, List.mem_append, List.mem_singleton]
  tauto

theorem not_beats_self : ¬ Beats c m m := by
  rintro (⟨hsome, hnone⟩ | ⟨-, hne, hcanon | hlt⟩)
  · cases htoken : m.mountToken <;> simp [htoken] at hsome hnone
  · exact hne hcanon
  · exact lt_irrefl _ hlt

/-- A turn for a row with another canonical path: the row gets it, in the place of a row without a credential or of
none, or it is dropped. -/
theorem normalizeRow_cases (hmem : mount ∈ t.rows) (hne : c mount.path ≠ mount.path) :
    ∃ t', normalizeRow c t mount = some t' ∧
      (((∀ m ∈ t.rows, m.path = c mount.path → mount.mountToken.isSome ∧ m.mountToken.isNone) ∧
          ∀ m, m ∈ t'.rows ↔ m = mount.canonicalized c ∨ (m ∈ t.rows ∧ m ≠ mount ∧ m.path ≠ c mount.path)) ∨
        (∃ m ∈ t.rows, m.path = c mount.path ∧ (mount.mountToken.isSome → m.mountToken.isSome)) ∧
          ∀ m, m ∈ t'.rows ↔ m ∈ t.rows ∧ m ≠ mount) := by
  have hself : ∀ m ∈ t.rows, m.path = mount.path ↔ m = mount :=
    fun m hm => ⟨t.eq_of_path hm hmem, fun h => by rw [h]⟩
  -- the rows after `update_mount_path`, in a table without the canonical path
  have hupdate : ∀ u : MountTable, (∀ m ∈ u.rows, m ∈ t.rows ∧ m.path ≠ c mount.path) → mount ∈ u.rows →
      (∀ m ∈ t.rows, m.path ≠ c mount.path → m ∈ u.rows) →
      ∃ t', u.updateMountPath mount.path (c mount.path) = some t' ∧
        ∀ m, m ∈ t'.rows ↔ m = mount.canonicalized c ∨ (m ∈ t.rows ∧ m ≠ mount ∧ m.path ≠ c mount.path) := by
    intro u hu hin hall
    have hset : ∃ t', u.updateMountPath mount.path (c mount.path) = some t' :=
      updateMountPath_isSome fun m hm => (hu m hm).2
    obtain ⟨t', ht'⟩ := hset
    refine ⟨t', ht', fun m => ?_⟩
    rw [mem_updateMountPath ht']
    constructor
    · rintro ⟨r, hr, rfl⟩
      by_cases hpath : r.path = mount.path
      · rw [if_pos hpath, (hself r (hu r hr).1).mp hpath]
        exact .inl rfl
      · rw [if_neg hpath]
        exact .inr ⟨(hu r hr).1, fun heq => hpath (by rw [heq]), (hu r hr).2⟩
    · rintro (rfl | ⟨hm, hmount, hcanon⟩)
      · exact ⟨mount, hin, (if_pos rfl).symm⟩
      · exact ⟨m, hall m hm hcanon, (if_neg fun hpath => hmount ((hself m hm).mp hpath)).symm⟩
  rw [normalizeRow, if_neg hne]
  cases hget : t.getMount (c mount.path) with
  | none =>
    have hnone := getMount_eq_none.mp hget
    obtain ⟨t', ht', hrows⟩ := hupdate t (fun m hm => ⟨hm, hnone m hm⟩) hmem fun m hm _ => hm
    exact ⟨t', ht', .inl ⟨fun m hm hpath => absurd hpath (hnone m hm), hrows⟩⟩
  | some existing =>
    obtain ⟨hexisting, hpath⟩ := getMount_eq_some hget
    by_cases htoken : (mount.mountToken.isSome && existing.mountToken.isNone) = true
    · obtain ⟨t', ht', hrows⟩ := hupdate (t.deleteMount (c mount.path)) (fun m hm => mem_deleteMount.mp hm)
        (mem_deleteMount.mpr ⟨hmem, Ne.symm hne⟩) fun m hm hcanon => mem_deleteMount.mpr ⟨hm, hcanon⟩
      refine ⟨t', by simpa only [if_pos htoken] using ht', .inl ⟨fun m hm hm' => ?_, hrows⟩⟩
      rw [t.eq_of_path hm hexisting (hm'.trans hpath.symm)]
      simpa using htoken
    · refine ⟨t.deleteMount mount.path, by simp only [if_neg htoken], .inr ⟨⟨existing, hexisting, hpath, ?_⟩, fun m => ?_⟩⟩
      · cases hsome : existing.mountToken <;> simp_all
      · rw [mem_deleteMount]
        exact and_congr_right fun hm => not_congr (hself m hm)

/-- Rows that were kept are told apart by their folder. -/
theorem canonicalized_inj {a b : MountRow} (ha : a ∈ t.rows) (hb : b ∈ t.rows)
    (h : a.canonicalized c = b.canonicalized c) : a = b := by
  have hfolder : (a.canonicalized c).folderId = (b.canonicalized c).folderId := by rw [h]
  exact t.eq_of_folder ha hb hfolder

theorem canonicalized_self (h : c m.path = m.path) : m.canonicalized c = m := by
  rw [MountRow.canonicalized, h]

theorem Progress.start : Progress c t [] t.listMounts t := by
  have hseen : ∀ m, Seen c t [] m ↔ m ∈ t.rows ∧ c m.path = m.path := by simp [Seen]
  have hwins : ∀ m, Seen c t [] m → Wins c t [] m := by
    refine fun m hm => ⟨hm, fun m' hm' hpath => ?_⟩
    obtain ⟨hin, hcanon⟩ := (hseen m).mp hm
    obtain ⟨hin', hcanon'⟩ := (hseen m').mp hm'
    have hsame : m' = m := t.eq_of_path hin' hin (by rw [← hcanon', hpath, hcanon])
    rw [hsame]
    exact not_beats_self
  refine ⟨fun m => ?_, fun m hm => ⟨m, hwins m hm, rfl⟩⟩
  rw [mem_listMounts]
  constructor
  · intro hm
    by_cases hcanon : c m.path = m.path
    · exact .inr ⟨m, hwins m ((hseen m).mpr ⟨hm, hcanon⟩), (canonicalized_self hcanon).symm⟩
    · exact .inl ⟨hm, hcanon⟩
  · rintro (⟨hm, -⟩ | ⟨w, hw, rfl⟩)
    · exact hm
    · obtain ⟨hin, hcanon⟩ := (hseen w).mp hw.1
      rwa [canonicalized_self hcanon]

/-- A turn for a canonical row changes nothing. -/
theorem Progress.canonical (h : Progress c t done (mount :: rest) cur) (hcanon : c mount.path = mount.path) :
    Progress c t (done ++ [mount]) rest cur := by
  have hseen : ∀ m, Seen c t (done ++ [mount]) m ↔ Seen c t done m := by
    intro m
    rw [seen_concat]
    refine or_iff_left_of_imp ?_
    rintro ⟨hm, rfl⟩
    exact ⟨hm, .inl hcanon⟩
  have hwins : ∀ m, Wins c t (done ++ [mount]) m ↔ Wins c t done m := by simp only [Wins, hseen, implies_true]
  refine ⟨fun m => ?_, fun m hm => ?_⟩
  · rw [h.mem m]
    simp only [hwins]
    refine or_congr_left ⟨fun ⟨hm, hne⟩ => ⟨?_, hne⟩, fun ⟨hm, hne⟩ => ⟨List.mem_cons_of_mem mount hm, hne⟩⟩
    exact (List.mem_cons.mp hm).resolve_left fun heq => hne (heq ▸ hcanon)
  · obtain ⟨w, hw, hpath⟩ := h.won m ((hseen m).mp hm)
    exact ⟨w, (hwins w).mpr hw, hpath⟩

/-- A row that is seen now beats no row that is seen already, but for its credential. -/
theorem not_beats_seen (hne : c mount.path ≠ mount.path) (hsorted : ∀ m ∈ done, m.path < mount.path)
    (hw : Seen c t done w) (htoken : mount.mountToken.isSome → w.mountToken.isSome) : ¬ Beats c mount w := by
  rintro (⟨hsome, hnone⟩ | ⟨-, hcanon, heq | hlt⟩)
  · cases hw' : w.mountToken <;> simp_all
  · exact hne heq
  · exact lt_asymm hlt (hsorted w (hw.2.resolve_left hcanon))

/-- A row that is seen already beats the row seen now, unless that has the only credential. -/
theorem beats_of_seen (hne : c mount.path ≠ mount.path) (hsorted : ∀ m ∈ done, m.path < mount.path)
    (hw : Seen c t done w) (htoken : mount.mountToken.isSome → w.mountToken.isSome) : Beats c w mount := by
  by_cases hsame : w.mountToken.isSome = mount.mountToken.isSome
  · exact .inr ⟨hsame, hne, hw.2.imp id (hsorted w)⟩
  · left
    cases hw' : w.mountToken <;> cases hm' : mount.mountToken <;> simp_all

theorem wins_of_concat (h : Wins c t (done ++ [mount]) w) (hseen : Seen c t done w) : Wins c t done w :=
  ⟨hseen, fun m' hm' => h.2 m' (seen_concat.mpr (.inl hm'))⟩

theorem wins_concat_of_ne (hw : c w.path ≠ c mount.path) : Wins c t (done ++ [mount]) w ↔ Wins c t done w := by
  constructor
  · intro h
    refine wins_of_concat h ((seen_concat.mp h.1).resolve_right ?_)
    rintro ⟨-, rfl⟩
    exact hw rfl
  · rintro ⟨hseen, hall⟩
    refine ⟨seen_concat.mpr (.inl hseen), fun m' hm' hpath => ?_⟩
    rcases seen_concat.mp hm' with hm' | ⟨-, rfl⟩
    · exact hall m' hm' hpath
    · exact absurd hpath.symm hw

/-- The row takes the canonical path: it is the winner now. -/
theorem Progress.takes (hc : ∀ p, c (c p) = c p) (h : Progress c t done (mount :: rest) cur) (hmem : mount ∈ t.rows)
    (hne : c mount.path ≠ mount.path) (hnot : mount ∉ rest)
    (hwon : ∀ m ∈ cur.rows, m.path = c mount.path → mount.mountToken.isSome ∧ m.mountToken.isNone)
    (hrows : ∀ m, m ∈ cur'.rows ↔ m = mount.canonicalized c ∨ (m ∈ cur.rows ∧ m ≠ mount ∧ m.path ≠ c mount.path)) :
    Progress c t (done ++ [mount]) rest cur' := by
  have hseen : Seen c t (done ++ [mount]) mount := seen_concat.mpr (.inr ⟨hmem, rfl⟩)
  -- the rows of the path that are seen already have no credential, but the new one has
  have htoken : ∀ m, Seen c t done m → c m.path = c mount.path → mount.mountToken.isSome ∧ m.mountToken.isNone := by
    intro m hm hpath
    obtain ⟨w, hw, hwpath⟩ := h.won m hm
    have hwrow : w.canonicalized c ∈ cur.rows := (h.mem _).mpr (.inr ⟨w, hw, rfl⟩)
    obtain ⟨hsome, hnone⟩ := hwon _ hwrow (hwpath.trans hpath)
    refine ⟨hsome, ?_⟩
    have hbeats := hw.2 m hm hwpath.symm
    cases hm' : m.mountToken with
    | none => rfl
    | some token => exact absurd (.inl ⟨by simp [hm'], hnone⟩) hbeats
  have hwins : Wins c t (done ++ [mount]) mount := by
    refine ⟨hseen, fun m hm hpath => ?_⟩
    rcases seen_concat.mp hm with hm | ⟨-, rfl⟩
    · obtain ⟨hsome, hnone⟩ := htoken m hm hpath
      rintro (⟨hsome', -⟩ | ⟨hsame, -⟩) <;> cases hm' : m.mountToken <;> simp_all
    · exact not_beats_self
  have honly : ∀ w, Wins c t (done ++ [mount]) w → c w.path = c mount.path → w = mount := by
    intro w hw hpath
    rcases seen_concat.mp hw.1 with hw' | ⟨-, rfl⟩
    · exact absurd (.inl (htoken w hw' hpath)) (hw.2 mount hseen hpath.symm)
    · rfl
  refine ⟨fun m => ?_, fun m hm => ?_⟩
  · rw [hrows]
    constructor
    · rintro (rfl | ⟨hm, hmount, hpath⟩)
      · exact .inr ⟨mount, hwins, rfl⟩
      · rcases (h.mem m).mp hm with ⟨hrest, hcanon⟩ | ⟨w, hw, rfl⟩
        · exact .inl ⟨(List.mem_cons.mp hrest).resolve_left hmount, hcanon⟩
        · exact .inr ⟨w, (wins_concat_of_ne hpath).mpr hw, rfl⟩
    · rintro (⟨hrest, hcanon⟩ | ⟨w, hw, rfl⟩)
      · refine .inr ⟨(h.mem m).mpr (.inl ⟨List.mem_cons_of_mem mount hrest, hcanon⟩), ?_, fun hpath => hcanon ?_⟩
        · rintro rfl
          exact hnot hrest
        · rw [hpath, hc]
      · by_cases hpath : c w.path = c mount.path
        · exact .inl (by rw [honly w hw hpath])
        · refine .inr ⟨(h.mem _).mpr (.inr ⟨w, (wins_concat_of_ne hpath).mp hw, rfl⟩), fun heq => hne ?_, hpath⟩
          rw [← heq]
          exact hc w.path
  · by_cases hpath : c m.path = c mount.path
    · exact ⟨mount, hwins, hpath.symm⟩
    · have hold : Seen c t done m := (seen_concat.mp hm).resolve_right fun ⟨_, heq⟩ => hpath (by rw [heq])
      obtain ⟨w, hw, hwpath⟩ := h.won m hold
      exact ⟨w, (wins_concat_of_ne (hwpath ▸ hpath)).mpr hw, hwpath⟩

/-- The row is dropped: the winner is that of before. -/
theorem Progress.drops (hc : ∀ p, c (c p) = c p) (h : Progress c t done (mount :: rest) cur) (hmem : mount ∈ t.rows)
    (hne : c mount.path ≠ mount.path) (hsorted : ∀ m ∈ done, m.path < mount.path) (hnot : mount ∉ rest)
    (hlost : ∃ m ∈ cur.rows, m.path = c mount.path ∧ (mount.mountToken.isSome → m.mountToken.isSome))
    (hrows : ∀ m, m ∈ cur'.rows ↔ m ∈ cur.rows ∧ m ≠ mount) : Progress c t (done ++ [mount]) rest cur' := by
  obtain ⟨x, hx, hxpath, htoken⟩ := hlost
  have hxcanon : c x.path = x.path := by rw [hxpath, hc]
  obtain ⟨w, hw, rfl⟩ := ((h.mem x).mp hx).resolve_left fun hrest => hrest.2 hxcanon
  have hwpath : c w.path = c mount.path := hxpath
  have hbeaten : Beats c w mount := beats_of_seen hne hsorted hw.1 htoken
  have hwins : Wins c t (done ++ [mount]) w := by
    refine ⟨seen_concat.mpr (.inl hw.1), fun m hm hpath => ?_⟩
    rcases seen_concat.mp hm with hm | ⟨-, rfl⟩
    · exact hw.2 m hm hpath
    · exact not_beats_seen hne hsorted hw.1 htoken
  have honly : ∀ w', Wins c t done w' → c w'.path = c mount.path → w' = w := by
    intro w' hw' hpath
    have hrow : w'.canonicalized c ∈ cur.rows := (h.mem _).mpr (.inr ⟨w', hw', rfl⟩)
    exact canonicalized_inj hw'.1.1 hw.1.1 (cur.eq_of_path hrow hx (hpath.trans hwpath.symm))
  refine ⟨fun m => ?_, fun m hm => ?_⟩
  · rw [hrows, h.mem m]
    constructor
    · rintro ⟨⟨hrest, hcanon⟩ | ⟨w', hw', rfl⟩, hmount⟩
      · exact .inl ⟨(List.mem_cons.mp hrest).resolve_left hmount, hcanon⟩
      · by_cases hpath : c w'.path = c mount.path
        · exact .inr ⟨w, hwins, by rw [honly w' hw' hpath]⟩
        · exact .inr ⟨w', (wins_concat_of_ne hpath).mpr hw', rfl⟩
    · rintro (⟨hrest, hcanon⟩ | ⟨w', hw', rfl⟩)
      · refine ⟨.inl ⟨List.mem_cons_of_mem mount hrest, hcanon⟩, ?_⟩
        rintro rfl
        exact hnot hrest
      · have hold : Seen c t done w' := by
          refine (seen_concat.mp hw'.1).resolve_right ?_
          rintro ⟨-, rfl⟩
          exact hw'.2 w hwins.1 hwpath hbeaten
        refine ⟨.inr ⟨w', wins_of_concat hw' hold, rfl⟩, fun heq => hne ?_⟩
        rw [← heq]
        exact hc w'.path
  · by_cases hpath : c m.path = c mount.path
    · exact ⟨w, hwins, hwpath.trans hpath.symm⟩
    · have hold : Seen c t done m := (seen_concat.mp hm).resolve_right fun ⟨_, heq⟩ => hpath (by rw [heq])
      obtain ⟨w', hw', hw'path⟩ := h.won m hold
      exact ⟨w', (wins_concat_of_ne (hw'path ▸ hpath)).mpr hw', hw'path⟩

/-- **One turn** keeps the table between the rows seen and the rows to come. -/
theorem Progress.step (hc : ∀ p, c (c p) = c p) (h : Progress c t done (mount :: rest) cur) (hmem : mount ∈ t.rows)
    (hsorted : ∀ m ∈ done, m.path < mount.path) (hnot : mount ∉ rest) :
    ∃ cur', normalizeRow c cur mount = some cur' ∧ Progress c t (done ++ [mount]) rest cur' := by
  by_cases hcanon : c mount.path = mount.path
  · exact ⟨cur, by rw [normalizeRow, if_pos hcanon], h.canonical hcanon⟩
  · have hin : mount ∈ cur.rows := (h.mem mount).mpr (.inl ⟨by simp, hcanon⟩)
    obtain ⟨cur', hnorm, hcases⟩ := normalizeRow_cases hin hcanon
    refine ⟨cur', hnorm, ?_⟩
    rcases hcases with ⟨hwon, hrows⟩ | ⟨hlost, hrows⟩
    · exact h.takes hc hmem hcanon hnot hwon hrows
    · exact h.drops hc hmem hcanon hsorted hnot hlost hrows

/-- `list_mounts` goes up by path. -/
theorem listMounts_split (hl : t.listMounts = done ++ mount :: rest) :
    mount ∈ t.rows ∧ (∀ m ∈ done, m.path < mount.path) ∧ mount ∉ rest := by
  have hmem : mount ∈ t.listMounts := by simp [hl]
  have hle : t.listMounts.Pairwise fun a b => a.path ≤ b.path := List.pairwise_insertionSort _ t.rows
  have hnd : (t.listMounts.map MountRow.path).Nodup :=
    ((List.perm_insertionSort _ t.rows).map MountRow.path).nodup_iff.mpr t.keys.1
  rw [hl] at hle hnd
  rw [List.map_append, List.map_cons] at hnd
  obtain ⟨-, hrest, hcross⟩ := List.nodup_append.mp hnd
  refine ⟨mem_listMounts.mp hmem, fun m hm => lt_of_le_of_ne ?_ ?_, fun hin => ?_⟩
  · exact (List.pairwise_append.mp hle).2.2 m hm mount (by simp)
  · exact hcross m.path (List.mem_map_of_mem hm) mount.path (by simp)
  · exact (List.nodup_cons.mp hrest).1 (List.mem_map_of_mem hin)

/-- The loop from a turn on. -/
theorem Progress.run (hc : ∀ p, c (c p) = c p) (h : Progress c t done rest cur) (hl : t.listMounts = done ++ rest) :
    ∃ cur', rest.foldlM (normalizeRow c) cur = some cur' ∧ Progress c t t.listMounts [] cur' := by
  induction rest generalizing done cur with
  | nil =>
    rw [List.append_nil] at hl
    exact ⟨cur, rfl, hl ▸ h⟩
  | cons mount rest ih =>
    obtain ⟨hmem, hsorted, hnot⟩ := listMounts_split hl
    obtain ⟨cur', hnorm, hnext⟩ := h.step hc hmem hsorted hnot
    rw [List.foldlM_cons, hnorm]
    exact ih hnext (by simp [hl])

theorem mem_survivors : m ∈ survivors c t ↔ Wins c t t.listMounts m := by
  have hseen : ∀ m, Seen c t t.listMounts m ↔ m ∈ t.rows := by
    intro m
    rw [Seen, mem_listMounts]
    tauto
  simp only [survivors, List.mem_filter, Wins, hseen, decide_eq_true_eq]

/-- **The loop never fails, and leaves the survivors.** -/
theorem normalizePersistedMountPaths_spec (hc : ∀ p, c (c p) = c p) (t : MountTable) :
    ∃ u, normalizePersistedMountPaths c t = some u ∧
      (∀ m, m ∈ u.rows ↔ ∃ w ∈ survivors c t, m = w.canonicalized c) ∧
      ∀ m ∈ t.rows, ∃ w ∈ survivors c t, c w.path = c m.path := by
  obtain ⟨u, hu, hend⟩ := Progress.start.run hc (List.nil_append t.listMounts).symm
  refine ⟨u, hu, fun m => ?_, fun m hm => ?_⟩
  · rw [hend.mem m]
    simp only [mem_survivors, List.not_mem_nil, false_and, false_or]
  · obtain ⟨w, hw, hpath⟩ := hend.won m ⟨hm, .inr (mem_listMounts.mpr hm)⟩
    exact ⟨w, mem_survivors.mpr hw, hpath⟩

/-- Canonical rows are left alone. -/
theorem normalize_canonical {rows : List MountRow} (h : ∀ m ∈ rows, c m.path = m.path) :
    rows.foldlM (normalizeRow c) t = some t := by
  induction rows with
  | nil => rfl
  | cons m rows ih =>
    rw [List.foldlM_cons, normalizeRow, if_pos (h m (by simp))]
    exact ih fun m' hm' => h m' (List.mem_cons_of_mem m hm')

end Normalize

/-! ### Merging -/

section Merge

variable {c : String → String} {t t' : MountTable} {config : List MountConfig} {paths : List String}

theorem mem_addedMounts {mounted : List MountRow} {mounts : List MountConfig} {m : MountRow}
    (h : m ∈ addedMounts mounted mounts) : ∃ mount ∈ mounts, m = mount.row := by
  induction mounts generalizing mounted with
  | nil => cases h
  | cons mount mounts ih =>
    rw [addedMounts] at h
    split at h
    · obtain ⟨mount', hmem, heq⟩ := ih h
      exact ⟨mount', List.mem_cons_of_mem mount hmem, heq⟩
    · rcases List.mem_cons.mp h with rfl | h
      · exact ⟨mount, by simp, rfl⟩
      · obtain ⟨mount', hmem, heq⟩ := ih h
        exact ⟨mount', List.mem_cons_of_mem mount hmem, heq⟩

/-- A config mount whose path is mounted is passed over. -/
theorem mergeConfigMount_mounted {mount : MountConfig} (h : ∃ m ∈ t.rows, m.path = mount.path) :
    mergeConfigMount t mount = some t := by
  rw [mergeConfigMount, if_pos]
  rw [Option.isSome_iff_ne_none]
  intro hnone
  obtain ⟨m, hm, hpath⟩ := h
  exact getMount_eq_none.mp hnone m hm hpath

theorem mergeConfigMount_new {mount : MountConfig} (h : ∀ m ∈ t.rows, m.path ≠ mount.path) :
    mergeConfigMount t mount = t.upsertMount mount.row := by
  rw [mergeConfigMount, getMount_eq_none.mpr h]
  rfl

theorem merge_mounted {mounts : List MountConfig} (h : ∀ mount ∈ mounts, ∃ m ∈ t.rows, m.path = mount.path) :
    mergeConfigMounts t mounts = some t := by
  induction mounts with
  | nil => rfl
  | cons mount mounts ih =>
    rw [mergeConfigMounts, List.foldlM_cons, mergeConfigMount_mounted (h mount (by simp))]
    exact ih fun mount' hmem => h mount' (List.mem_cons_of_mem mount hmem)

/-- The paths of the table and of the new mounts go on together. -/
theorem paths_concat (hpaths : ∀ p, p ∈ paths ↔ ∃ m ∈ t.rows, m.path = p) {r : MountRow}
    (ht' : t'.rows = t.rows ++ [r]) (p : String) : p ∈ r.path :: paths ↔ ∃ m ∈ t'.rows, m.path = p := by
  rw [ht', List.mem_cons, hpaths]
  constructor
  · rintro (rfl | ⟨m, hm, hpath⟩)
    · exact ⟨r, by simp, rfl⟩
    · exact ⟨m, List.mem_append_left _ hm, hpath⟩
  · rintro ⟨m, hm, hpath⟩
    rcases List.mem_append.mp hm with hm | hm
    · exact .inr ⟨m, hm, hpath⟩
    · rw [List.mem_singleton.mp hm] at hpath
      exact .inl hpath.symm

/-- **The config is merged** where the new mounts have folders of their own. -/
theorem mergeConfigMounts_spec (hpaths : ∀ p, p ∈ paths ↔ ∃ m ∈ t.rows, m.path = p)
    (hnd : ((newMounts c paths config).map MountConfig.folderId).Nodup)
    (hfolders : ∀ m ∈ t.rows, ∀ mount ∈ newMounts c paths config, m.folderId ≠ mount.folderId) :
    ∃ t', mergeConfigMounts t (canonicalizeConfigMountPaths c config) = some t' ∧
      t'.rows = t.rows ++ addedMounts t.rows (canonicalizeConfigMountPaths c config) ∧
      ∀ mount ∈ canonicalizeConfigMountPaths c config, ∃ m ∈ t'.rows, m.path = mount.path := by
  induction config generalizing t paths with
  | nil => exact ⟨t, rfl, by simp [canonicalizeConfigMountPaths, addedMounts], by simp [canonicalizeConfigMountPaths]⟩
  | cons mount mounts ih =>
    rw [newMounts] at hnd hfolders
    by_cases hpath : c mount.path ∈ paths
    · rw [if_pos hpath] at hnd hfolders
      obtain ⟨m, hm, hmpath⟩ := (hpaths _).mp hpath
      obtain ⟨t', ht', hrows, hall⟩ := ih hpaths hnd hfolders
      have hskip : mergeConfigMount t { mount with path := c mount.path } = some t :=
        mergeConfigMount_mounted ⟨m, hm, hmpath⟩
      refine ⟨t', ?_, ?_, ?_⟩
      · show mergeConfigMounts t ({ mount with path := c mount.path } :: canonicalizeConfigMountPaths c mounts) = some t'
        rw [mergeConfigMounts, List.foldlM_cons, hskip]
        exact ht'
      · show t'.rows = t.rows ++ addedMounts t.rows ({ mount with path := c mount.path } :: _)
        rw [addedMounts, if_pos ⟨m, hm, .inl hmpath⟩]
        exact hrows
      · intro mount' hmount'
        rcases List.mem_cons.mp hmount' with rfl | hmount'
        · refine ⟨m, ?_, hmpath⟩
          rw [hrows]
          exact List.mem_append_left _ hm
        · exact hall mount' hmount'
    · rw [if_neg hpath] at hnd hfolders
      have hnew : ∀ m ∈ t.rows, m.path ≠ c mount.path := fun m hm heq => hpath ((hpaths _).mpr ⟨m, hm, heq⟩)
      have hfolder : ∀ m ∈ t.rows, m.folderId ≠ mount.folderId := fun m hm => hfolders m hm mount (by simp)
      set r : MountRow := MountConfig.row { mount with path := c mount.path } with hr
      obtain ⟨t₁, ht₁, hrows₁⟩ := upsertMount_new (r := r) hnew hfolder
      obtain ⟨hnot, hnd⟩ := List.nodup_cons.mp hnd
      have hfolders₁ : ∀ m ∈ t₁.rows, ∀ mount' ∈ newMounts c (c mount.path :: paths) mounts,
          m.folderId ≠ mount'.folderId := by
        intro m hm mount' hmount'
        rw [hrows₁] at hm
        rcases List.mem_append.mp hm with hm | hm
        · exact hfolders m hm mount' (List.mem_cons_of_mem mount hmount')
        · rw [List.mem_singleton.mp hm]
          exact fun heq => hnot (List.mem_map.mpr ⟨mount', hmount', heq.symm⟩)
      obtain ⟨t', ht', hrows, hall⟩ := ih (paths_concat hpaths hrows₁) hnd hfolders₁
      have hadd : mergeConfigMount t { mount with path := c mount.path } = some t₁ :=
        (mergeConfigMount_new hnew).trans ht₁
      refine ⟨t', ?_, ?_, ?_⟩
      · show mergeConfigMounts t ({ mount with path := c mount.path } :: canonicalizeConfigMountPaths c mounts) = some t'
        rw [mergeConfigMounts, List.foldlM_cons, hadd]
        exact ht'
      · show t'.rows = t.rows ++ addedMounts t.rows ({ mount with path := c mount.path } :: _)
        rw [addedMounts, if_neg, hrows, hrows₁, List.append_assoc]
        · rfl
        · rintro ⟨m, hm, hsame | hsame⟩
          · exact hnew m hm hsame
          · exact hfolder m hm hsame
      · intro mount' hmount'
        rcases List.mem_cons.mp hmount' with rfl | hmount'
        · refine ⟨r, ?_, rfl⟩
          rw [hrows, hrows₁]
          simp
        · exact hall mount' hmount'

/-- Where the config is merged, the new mounts have folders of their own. -/
theorem folders_of_merge (hpaths : ∀ p, p ∈ paths ↔ ∃ m ∈ t.rows, m.path = p)
    (h : mergeConfigMounts t (canonicalizeConfigMountPaths c config) = some t') :
    ((newMounts c paths config).map MountConfig.folderId).Nodup ∧
      ∀ m ∈ t.rows, ∀ mount ∈ newMounts c paths config, m.folderId ≠ mount.folderId := by
  induction config generalizing t paths with
  | nil => exact ⟨by simp [newMounts], by simp [newMounts]⟩
  | cons mount mounts ih =>
    have hstep : (mergeConfigMount t { mount with path := c mount.path }).bind
        (fun t => mergeConfigMounts t (canonicalizeConfigMountPaths c mounts)) = some t' := h
    obtain ⟨t₁, ht₁, hrest⟩ := Option.bind_eq_some_iff.mp hstep
    rw [newMounts]
    by_cases hpath : c mount.path ∈ paths
    · rw [if_pos hpath]
      rw [mergeConfigMount_mounted ((hpaths _).mp hpath)] at ht₁
      cases ht₁
      exact ih hpaths hrest
    · rw [if_neg hpath]
      have hnew : ∀ m ∈ t.rows, m.path ≠ c mount.path := fun m hm heq => hpath ((hpaths _).mpr ⟨m, hm, heq⟩)
      set r : MountRow := MountConfig.row { mount with path := c mount.path } with hr
      rw [mergeConfigMount_new hnew] at ht₁
      have hfolder : ∀ m ∈ t.rows, m.folderId ≠ mount.folderId := by
        intro m hm heq
        rw [upsertMount_taken (r := r) hnew hm heq] at ht₁
        cases ht₁
      obtain ⟨t₂, ht₂, hrows⟩ := upsertMount_new (r := r) hnew hfolder
      rw [ht₂] at ht₁
      cases ht₁
      obtain ⟨hnd, hfolders⟩ := ih (paths_concat hpaths hrows) hrest
      refine ⟨List.nodup_cons.mpr ⟨fun hin => ?_, hnd⟩, fun m hm mount' hmount' => ?_⟩
      · obtain ⟨mount', hmount', heq⟩ := List.mem_map.mp hin
        exact hfolders r (by simp [hrows]) mount' hmount' heq.symm
      · rcases List.mem_cons.mp hmount' with rfl | hmount'
        · exact hfolder m hm
        · exact hfolders m (by simp [hrows, hm]) mount' hmount'

end Merge

/-! ### Startup -/

section Reconcile

variable {c : String → String} {t u : MountTable} {config : List MountConfig}

/-- The paths of the survivors are those of all rows. -/
theorem paths_survivors (hu : ∀ m, m ∈ u.rows ↔ ∃ w ∈ survivors c t, m = w.canonicalized c)
    (hwon : ∀ m ∈ t.rows, ∃ w ∈ survivors c t, c w.path = c m.path) (p : String) :
    p ∈ t.rows.map (fun m => c m.path) ↔ ∃ m ∈ u.rows, m.path = p := by
  constructor
  · intro hp
    obtain ⟨m, hm, rfl⟩ := List.mem_map.mp hp
    obtain ⟨w, hw, hpath⟩ := hwon m hm
    exact ⟨w.canonicalized c, (hu _).mpr ⟨w, hw, rfl⟩, hpath⟩
  · rintro ⟨m, hm, rfl⟩
    obtain ⟨w, hw, rfl⟩ := (hu m).mp hm
    exact List.mem_map.mpr ⟨w, (List.mem_filter.mp hw).1, rfl⟩

/-- **Startup reconciles the mounts exactly where the config mounts with a new path have folders of their own.** -/
theorem startup_reconciles (c : String → String) (hc : ∀ p, c (c p) = c p) (t : MountTable)
    (config : List MountConfig) :
    (∃ t', reconcileMounts c config t = some t' ∧ Reconciled c t config t') ↔ StartupOk c t config := by
  obtain ⟨u, hnorm, hu, hwon⟩ := normalizePersistedMountPaths_spec hc t
  have hpaths := paths_survivors hu hwon
  have hmerge : reconcileMounts c config t = mergeConfigMounts u (canonicalizeConfigMountPaths c config) := by
    rw [reconcileMounts, hnorm]
    rfl
  constructor
  · rintro ⟨t', ht', -⟩
    rw [hmerge] at ht'
    obtain ⟨hnd, hfolders⟩ := folders_of_merge hpaths ht'
    exact ⟨hnd, fun m hm mount hmount => hfolders (m.canonicalized c) ((hu _).mpr ⟨m, hm, rfl⟩) mount hmount⟩
  · rintro ⟨hnd, hfolders⟩
    have hfolders' : ∀ m ∈ u.rows, ∀ mount ∈ newMounts c (t.rows.map fun m => c m.path) config,
        m.folderId ≠ mount.folderId := by
      intro m hm
      obtain ⟨w, hw, rfl⟩ := (hu m).mp hm
      exact hfolders w hw
    obtain ⟨t', ht', hrows, hall⟩ := mergeConfigMounts_spec hpaths hnd hfolders'
    have hcanon : ∀ m ∈ t'.rows, c m.path = m.path := by
      intro m hm
      rw [hrows] at hm
      rcases List.mem_append.mp hm with hm | hm
      · obtain ⟨w, -, rfl⟩ := (hu m).mp hm
        exact hc w.path
      · obtain ⟨mount, hmount, rfl⟩ := mem_addedMounts hm
        obtain ⟨mount', -, rfl⟩ := List.mem_map.mp hmount
        exact hc mount'.path
    have hkept : ∀ w ∈ survivors c t, w.canonicalized c ∈ t'.rows := by
      intro w hw
      rw [hrows]
      exact List.mem_append_left _ ((hu _).mpr ⟨w, hw, rfl⟩)
    refine ⟨t', hmerge.trans ht', hcanon, fun m hm => ?_, fun m hm htoken _ m' hm' hpath => ?_, ?_, ?_⟩
    · obtain ⟨w, hw, hpath⟩ := hwon m hm
      by_cases heq : w = m
      · exact .inl (heq ▸ hkept w hw)
      · exact .inr ⟨w, (List.mem_filter.mp hw).1, heq, hpath, hkept w hw⟩
    · obtain ⟨w, hw, hwpath⟩ := hwon m hm
      rw [t'.eq_of_path hm' (hkept w hw) (hpath.trans hwpath.symm)]
      have hbeats := (mem_survivors.mp hw).2 m ⟨hm, .inr (mem_listMounts.mpr hm)⟩ hwpath.symm
      show w.mountToken.isSome
      cases hw' : w.mountToken with
      | none => exact absurd (.inl ⟨htoken, by simp [hw']⟩) hbeats
      | some token => rfl
    · refine ⟨u.rows, fun m hm => ?_, hrows⟩
      obtain ⟨w, hw, rfl⟩ := (hu m).mp hm
      exact ⟨w, (List.mem_filter.mp hw).1, rfl⟩
    · have hsame : normalizePersistedMountPaths c t' = some t' :=
        normalize_canonical fun m hm => hcanon m (mem_listMounts.mp hm)
      rw [reconcileMounts, hsame]
      exact merge_mounted hall

end Reconcile

/-- A link to `/real`. -/
def followLink (path : String) : String := if path = "/link" then "/real" else path

theorem followLink_idem (path : String) : followLink (followLink path) = followLink path := by
  by_cases h : path = "/link" <;> simp [followLink, h]

/-- Two rows of one directory, one of them with a credential. -/
def linkedMounts : MountTable where
  rows := [{ path := "/real", folderId := "f" }, { path := "/link", folderId := "g", mountToken := some "key" }]

theorem startup_reconciles_linked : ∃ t', reconcileMounts followLink [{ path := "/docs", folderId := "h" }] linkedMounts
    = some t' ∧ Reconciled followLink linkedMounts [{ path := "/docs", folderId := "h" }] t' :=
  (startup_reconciles followLink followLink_idem linkedMounts _).mpr (by decide +kernel)

/-- **The daemon does not start**: the config names a folder that is mounted at another path. -/
theorem startup_refuses :
    ¬ ∃ t', reconcileMounts id [{ path := "/docs", folderId := "f" }] { rows := [{ path := "/real", folderId := "f" }] }
      = some t' ∧ Reconciled id { rows := [{ path := "/real", folderId := "f" }] } [{ path := "/docs", folderId := "f" }]
        t' := by
  rintro ⟨t', ht', -⟩
  have hnone : reconcileMounts id [{ path := "/docs", folderId := "f" }]
      { rows := [{ path := "/real", folderId := "f" }] } = none := by decide +kernel
  rw [hnone] at ht'
  cases ht'

end Valv.Daemon
