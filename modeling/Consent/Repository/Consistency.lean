import Consent.Repository.Integrity

/-!
The registry file, its copy in memory and the definitions table stay consistent.

A repository that is open and not fenced serves the projection of the registry file it
compared last, and that file is durable (`Consistent`). Rows are projected only behind
the persistence barrier, so no row outlives the registry that a power loss brings back
(`Listed`).
-/
namespace Consent.Repository
open Profile
open Act (Returns)

variable {σ ε : Type} [Host σ ε]

/-! ### The registry file and its copy in memory -/

/-- The copy in memory is the content of a file. -/
def Mirrors (m : Members) (content : Option Registry) : Prop :=
  ∃ r, content = some r ∧ r.definitions = m.definitions ∧ r.operations = m.operations ∧
    r.revision = m.registryRevision

/-- No two contents of the registry file have one stamp. A file that was taken away is older
than those that came after it, and can come back. -/
structure Stamped (m : Members) : Prop where
  identity : m.registryIdentity < m.disk.nextStamp
  issued : m.disk.All fun file => 0 < file.stamp ∧ file.stamp < m.disk.nextStamp
  older : ∀ file, m.disk.aside = some file → ∀ placed,
    m.disk.registry = some placed ∨ m.disk.durable = some placed → file.stamp < placed.stamp
  mirror : ∀ file, m.disk.registry = some file ∨ m.disk.aside = some file →
    file.stamp = m.registryIdentity → Mirrors m file.content

variable {m : Members} {P : Platform} {c : Context ε} {offline : Bool} {w : World σ ε}
  {v : View σ ε} {definitions : Definitions} {K : Members → Registry → Prop} {id : String}

theorem Stamped.mirrored (h : Stamped m) (matched : Matched m) :
    Mirrors m m.disk.content := by
  obtain ⟨file, stored, same⟩ := matched
  have mirrors := h.mirror file (.inl stored) same
  rwa [Disk.content, stored]

/-- The file that was compared last is durable. -/
def Sealed (m : Members) : Prop := Matched m → m.disk.durable = m.disk.registry

theorem Disk.aside_setAside {disk : Disk} {file : RegistryFile}
    (h : disk.setAside.aside = some file) : disk.registry = some file ∨ disk.aside = some file := by
  dsimp only [Disk.setAside] at h
  split at h
  · exact .inl h
  · exact .inr h

/-- A file that another program puts into place has a new stamp. -/
theorem Stamped.put (h : Stamped m) (text : Except Rejection Registry) :
    Stamped { m with disk := (m.disk.setAside.putRegistry text).sync } where
  identity := Nat.lt_succ_of_lt h.identity
  issued := by
    refine Disk.All.put (fun file held => ?_) ⟨Nat.zero_lt_of_lt h.identity, Nat.lt_succ_self _⟩
    have issued := Disk.All.setAside h.issued file held
    exact ⟨issued.1, Nat.lt_succ_of_lt issued.2⟩
  older := by
    intro file aside placed stored
    have before := (Disk.All.setAside h.issued file (.inr (.inr aside))).2
    obtain rfl : ⟨m.disk.nextStamp, text⟩ = placed := Option.some.inj (stored.elim id id)
    exact before
  mirror := by
    rintro file (stored | aside) same
    · obtain rfl := Option.some.inj stored
      exact absurd same (Nat.ne_of_gt h.identity)
    · exact h.mirror file (Disk.aside_setAside aside) same

theorem Stamped.sync (h : Stamped m) :
    Stamped { m with disk := m.disk.sync } where
  identity := h.identity
  issued := Disk.All.sync h.issued
  older file aside placed stored := h.older file aside placed (.inl (stored.elim id id))
  mirror := h.mirror

theorem Stamped.removed (h : Stamped m) :
    Stamped { m with disk := m.disk.apply .registryRemoved } where
  identity := h.identity
  issued := by
    rintro file (⟨⟨⟩⟩ | ⟨⟨⟩⟩ | aside)
    exact Disk.All.setAside h.issued file (.inr (.inr aside))
  older file _ placed stored := by rcases stored with ⟨⟨⟩⟩ | ⟨⟨⟩⟩
  mirror := by
    rintro file (⟨⟨⟩⟩ | aside) same
    exact h.mirror file (Disk.aside_setAside aside) same

theorem Stamped.restored (h : Stamped m) {file : RegistryFile} (aside : m.disk.aside = some file) :
    Stamped { m with disk := { m.disk with registry := some file, aside := none }.sync } where
  identity := h.identity
  issued := by
    have issued := h.issued file (.inr (.inr aside))
    rintro other (stored | stored | ⟨⟨⟩⟩)
    · exact Option.some.inj stored ▸ issued
    · exact Option.some.inj stored ▸ issued
  older := by
    rintro other ⟨⟩
  mirror := by
    rintro other (stored | ⟨⟨⟩⟩) same
    obtain rfl := Option.some.inj stored
    exact h.mirror file (.inr aside) same

/-- What other programs do to the files is noticed by the next comparison, or the file that
was read last is back. -/
theorem Stamped.apply (h : Stamped m) (event : DiskEvent) :
    Stamped { m with disk := m.disk.apply event } ∧
      (Sealed m → Sealed { m with disk := m.disk.apply event }) := by
  cases event with
  | databaseRemoved => exact ⟨{ h with }, fun kept => kept⟩
  | databaseReplaced inode =>
    dsimp only [Disk.apply]
    split
    · split
      · exact ⟨h, fun kept => kept⟩
      · exact ⟨{ h with }, fun kept => kept⟩
    · exact ⟨h, fun kept => kept⟩
  | databaseTruncated => exact ⟨{ h with }, fun kept => kept⟩
  | databaseDamaged => exact ⟨{ h with }, fun kept => kept⟩
  | registryRemoved => exact ⟨h.removed, fun _ _ => rfl⟩
  | registryDamaged rejection => exact ⟨h.put _, fun _ _ => rfl⟩
  | registryReplaced definitions operations revision =>
    dsimp only [Disk.apply]
    split
    · exact ⟨h.put _, fun _ _ => rfl⟩
    · exact ⟨h, fun kept => kept⟩
  | registryRestored =>
    dsimp only [Disk.apply]
    split
    · rename_i file aside
      exact ⟨h.restored aside, fun _ _ => rfl⟩
    · exact ⟨h, fun kept => kept⟩

theorem Stamped.touch (h : Stamped m) (events : List DiskEvent) :
    Stamped { m with disk := events.foldl Disk.apply m.disk } ∧
      (Sealed m → Sealed { m with disk := events.foldl Disk.apply m.disk }) := by
  induction events generalizing m with
  | nil => exact ⟨h, fun kept => kept⟩
  | cons event rest ih =>
    obtain ⟨stamped, still⟩ := h.apply event
    obtain ⟨last, kept⟩ := ih stamped
    exact ⟨last, fun settled => kept (still settled)⟩

theorem Stamped.written (h : Stamped m) (content : Registry) (outcome : WriteOutcome) :
    Stamped (m.written content outcome) := by
  have issued : (m.written content outcome).disk.All fun file =>
      0 < file.stamp ∧ file.stamp < m.disk.nextStamp + 1 :=
    Disk.All.written (fun file held => ⟨(h.issued file held).1, Nat.lt_succ_of_lt (h.issued file held).2⟩)
      ⟨Nat.zero_lt_of_lt h.identity, Nat.lt_succ_self _⟩ outcome
  cases outcome with
  | failed => exact h
  | renamed =>
    refine ⟨Nat.lt_succ_of_lt h.identity, issued, by rintro file ⟨⟩, ?_⟩
    rintro file (stored | ⟨⟨⟩⟩) same
    obtain rfl := Option.some.inj stored
    exact absurd same (Nat.ne_of_gt h.identity)
  | durable =>
    refine ⟨Nat.lt_succ_self _, issued, by rintro file ⟨⟩, ?_⟩
    rintro file (stored | ⟨⟨⟩⟩) same
    obtain rfl := Option.some.inj stored
    exact ⟨content, rfl, rfl, rfl, rfl⟩

theorem Members.Steers.stamped {m m' : Members} (h : m.Steers m') (stamped : Stamped m) :
    Stamped m' := by
  obtain ⟨identity, issued, older, mirror⟩ := stamped
  simp only [Mirrors] at mirror
  constructor
  · rw [h.registryIdentity, h.disk]
    exact identity
  · rw [h.disk]
    exact issued
  · rw [h.disk]
    exact older
  · simp only [Mirrors, h.disk, h.registryIdentity, h.definitions, h.operations, h.registryRevision]
    exact mirror

theorem Members.Steers.settled {m m' : Members} (h : m.Steers m') (settled : Sealed m) :
    Sealed m' := by
  rw [Sealed, Matched, h.disk, h.registryIdentity]
  exact settled

theorem Members.Steers.unfenced {m m' : Members} (h : m.Steers m') (unfenced : m'.fenced = false) :
    m.fenced = false := by
  by_contra up
  rw [Bool.not_eq_false] at up
  rw [h.fenced up] at unfenced
  cases unfenced

/-! ### What an open repository serves -/

/-- An open repository that is not fenced serves the projection of a durable registry. -/
structure Consistent (v : View σ ε) : Prop where
  stamped : Stamped v.members
  serves : opened v.record = true → v.members.fenced = false → Sealed v.members ∧ Replayed v

omit [Host σ ε] in
/-- A replay is the latest projection. -/
theorem lastProjection_replay {entry : Entry} {revision : Int}
    (replays : entry.call = .replay definitions revision offline) :
    lastProjection (v.commit entry).log = some entry := by
  have log : (v.commit entry).log = entry :: v.log := rfl
  rw [log, lastProjection_cons, replays]
  rfl

omit [Host σ ε] in
theorem Consistent.commit (h : Consistent v) {entry : Entry} (other : entry.call.projects = false) :
    Consistent (v.commit entry) := by
  refine ⟨{ h.stamped with }, fun isOpen unfenced => ?_⟩
  obtain ⟨settled, replayed⟩ := h.serves isOpen unfenced
  exact ⟨settled, replayed.commit other⟩

omit [Host σ ε] in
/-- While it is fenced, an open repository serves nothing. -/
theorem Consistent.fenced (stamped : Stamped v.members) (fenced : Fenced v) :
    Consistent v :=
  ⟨stamped, fun isOpen unfenced => by rw [fenced isOpen] at unfenced; cases unfenced⟩

omit [Host σ ε] in
/-- When the storage is found in order, it holds a durable registry and its projection. -/
theorem Consistent.settled {opening : Bool} (h : Consistent v) (able : Ensurable opening v) :
    Sealed v.members ∧ Replayed v := by
  cases opening with
  | true => exact ⟨fun _ => able.durable rfl, able.replayed rfl⟩
  | false => exact h.serves (able.serves rfl) able.unfenced

theorem Move.consistent {w v : World σ ε} (h : Move c K w v) (holds : Consistent w.view) :
    Consistent v.view := by
  cases h with
  | progress later =>
    rw [World.view_at later]
    exact holds
  | @steer m steers =>
    refine ⟨steers.stamped holds.stamped, fun isOpen unfenced => ?_⟩
    obtain ⟨settled, e, offline, last, call⟩ := holds.serves isOpen (steers.unfenced unfenced)
    refine ⟨steers.settled settled, e, offline, last, ?_⟩
    dsimp only [World.view]
    rw [steers.definitions, steers.registryRevision]
    exact call
  | @touch events spoken past =>
    obtain ⟨stamped, kept⟩ := holds.stamped.touch events
    refine ⟨stamped, fun isOpen unfenced => ?_⟩
    obtain ⟨settled, replayed⟩ := holds.serves isOpen unfenced
    exact ⟨kept settled, replayed⟩
  | place file nextInode real => exact ⟨{ holds.stamped with }, holds.serves⟩
  | @commit q call outcome due work other blank serves turns =>
    rw [World.view_turned work.le]
    have kept : Consistent (w.view.commit (entryOf c call w.members.tables outcome w.progress q)) :=
      holds.commit other
    exact ⟨{ kept.stamped with }, kept.serves⟩
  | create work fenced =>
    rw [World.view_commit work.le]
    exact .fenced { holds.stamped with } fenced
  | incarnate work blank =>
    rw [World.view_commit work.le]
    exact holds.commit rfl
  | sync =>
    refine ⟨holds.stamped.sync, fun isOpen unfenced => ?_⟩
    exact ⟨fun _ => rfl, (holds.serves isOpen unfenced).2⟩
  | @replay q call outcome offline matched synced replays work =>
    rw [World.view_unfence work.le]
    refine ⟨{ holds.stamped with }, fun _ _ => ⟨fun _ => synced, ?_⟩⟩
    refine ⟨entryOf c call w.members.tables outcome w.progress q, offline, ?_, replays⟩
    exact lastProjection_replay (v := w.view) replays
  | @write content source outcome =>
    have stamped := Stamped.written (m := { w.members with expected := content.database })
      { holds.stamped with } content outcome
    cases outcome with
    | failed => exact ⟨stamped, holds.serves⟩
    | renamed => exact .fenced stamped fun _ => rfl
    | durable => exact .fenced stamped fun _ => rfl
  | expect stored => exact ⟨{ holds.stamped with }, holds.serves⟩
  | reject stored booted => exact ⟨{ holds.stamped with }, holds.serves⟩
  | @load file content stored decoded expects valid fenced =>
    have stamped : Stamped w.members := holds.stamped
    refine .fenced ⟨(stamped.issued file (.inl stored)).2, stamped.issued, stamped.older, ?_⟩ fenced
    rintro other (placed | aside) same
    · obtain rfl := Option.some.inj (stored.symm.trans placed)
      exact ⟨content, decoded, rfl, rfl, rfl⟩
    · exact absurd same (Nat.ne_of_lt (stamped.older other aside file (.inl stored)))
  | adopt inode matched real named own renewed => exact ⟨{ holds.stamped with }, holds.serves⟩
  | @ensure opening able =>
    exact ⟨{ holds.stamped with }, fun _ _ => holds.settled able⟩

/-- A process that has read nothing has nothing in memory. -/
theorem Stamped.boot {disk : Disk} {tables : Database} (offline : Bool) (next : 0 < disk.nextStamp)
    (issued : disk.All fun file => 0 < file.stamp ∧ file.stamp < disk.nextStamp)
    (older : ∀ file, disk.aside = some file → ∀ placed,
      disk.registry = some placed ∨ disk.durable = some placed → file.stamp < placed.stamp) :
    Stamped { Members.boot disk tables with offlineImport := offline } := by
  refine ⟨next, issued, older, fun file stored same => ?_⟩
  have held : disk.Holds file := stored.imp_right Or.inr
  exact absurd same (Nat.ne_of_gt (issued file held).1)

omit [Host σ ε] in
theorem Step.enter_consistent (step : Step σ) (h : Consistent w.view) :
    Consistent (step.enter w).view := by
  cases step with
  | restart main offline powerLoss =>
    obtain ⟨identity, issued, older, _⟩ : Stamped w.members := h.stamped
    refine .fenced ?_ fun isOpen => by cases isOpen
    cases powerLoss with
    | true =>
      exact .boot _ (Nat.zero_lt_of_lt identity) issued.powerLoss fun file aside placed stored =>
        older file aside placed (.inr (stored.elim id id))
    | false => exact .boot _ (Nat.zero_lt_of_lt identity) issued older
  | _ => exact h

theorem Runs.recorded (h : Runs P w) :
    Recorded P w.members w.progress.nextId := by
  induction h with
  | start device registry main => exact World.start_recorded P device registry main
  | enter step _ ih => exact step.enter_recorded ih
  | move platform _ move ih =>
    subst platform
    exact move.recorded ih

theorem Runs.consistent (h : Runs P w) : Consistent w.view := by
  induction h with
  | start device registry main =>
    refine .fenced ?_ fun isOpen => by cases isOpen
    exact Stamped.boot false Nat.two_pos
      (imageRegistry_all fun _ => ⟨Nat.one_pos, Nat.one_lt_two⟩) (by rintro file ⟨⟩)
  | enter step _ ih => exact step.enter_consistent ih
  | move _ _ move ih => exact move.consistent ih

/-! ### Rows of the projection -/

/-- The verdict of the installation authority on a definition of the registry. -/
def Frame.Judges (f : Frame) (offline : Bool) (config : Message) (active : Bool) : Prop :=
  if config.getD "active" "1" = "1" then
    ∃ n, f.Asks n ∧ match offline, f.offlineValidator with
      | true, some validate => validate n (config.get "package") (config.get "app")
          (offlineIdentity config) =
            if active then 0 else kEstale
      | true, none => f.validator n (config.get "package") (config.get "app")
          (offlineIdentity config) = active
      | false, _ => f.validator n (config.get "package") (config.get "app")
          (config.get "_install_identity") = active
  else active = false

theorem Frame.Judges.mono {lo hi lo' hi' : Progress σ ε} {config : Message} {active : Bool}
    (h : (frame c lo hi).Judges offline config active) (below : lo' ≤ lo) (above : hi ≤ hi') :
    (frame c lo' hi').Judges offline config active := by
  unfold Frame.Judges at h ⊢
  split at h
  · rename_i declared
    rw [if_pos declared]
    obtain ⟨n, ⟨first, last⟩, verdict⟩ := h
    exact ⟨n, ⟨le_trans below.answers first, lt_of_lt_of_le last above.answers⟩, verdict⟩
  · rename_i declared
    rw [if_neg declared]
    exact h

theorem authorityStatus_eq_estale {code : Int} (h : authorityStatus code = some .estale) :
    code = kEstale := by
  unfold authorityStatus at h
  split at h
  · cases h
  · split at h
    · assumption
    · cases h

theorem projectedActive_judges {lo hi : Progress σ ε} {config : Message} {offline active : Bool}
    (h : Returns c lo (projectedActive config offline) active hi) :
    (frame c lo hi).Judges offline config active := by
  unfold Frame.Judges
  rcases h.ite with ⟨declared, h⟩ | ⟨declared, h⟩
  · rw [if_pos declared]
    rcases h.ite with ⟨rfl, h⟩ | ⟨online, h⟩
    · obtain ⟨status, asked, h⟩ := h.bind
      obtain ⟨n, asks, verdict⟩ := offlineInstallationStatus_returns asked
      refine ⟨n, asks, ?_⟩
      dsimp only [frame]
      rcases status with _ | status
      · obtain rfl := h.of_pure
        rcases known : c.environment.offlineValidator with _ | validate
        · rw [known] at verdict
          simpa using verdict
        · rw [known] at verdict
          exact authorityStatus_eq_none verdict.symm
      · cases status with
        | estale =>
          obtain rfl := h.of_pure
          rcases known : c.environment.offlineValidator with _ | validate
          · rw [known] at verdict
            simpa using verdict
          · rw [known] at verdict
            exact authorityStatus_eq_estale verdict.symm
        | _ => exact absurd h not_returns_fail
    · obtain rfl : offline = false := by simpa using online
      obtain ⟨n, asks, answer⟩ := validator_returns h
      exact ⟨n, asks, answer⟩
  · rw [if_neg declared]
    exact h.of_pure.symm

/-- The row of a definition whose projection is stored. -/
theorem Registered.row {d : Database} (registered : Registered d) {config : Message} {active : Bool}
    (stored : (d.findDefinition id).map (·.config) = some (projection config active)) :
    d.findDefinition id = some ⟨id, active, projection config active⟩ := by
  obtain ⟨⟨other, flag, text⟩, found, rfl⟩ := Option.map_eq_some_iff.mp stored
  have named : other = id := by simpa using List.find?_some found
  have kept := (registered _ (List.mem_of_find?_eq_some found)).2
  have same : (if active then "1" else "0") = if flag then "1" else "0" :=
    (Message.get_insert_self config "active" _).symm.trans kept
  obtain rfl : flag = active := by cases flag <;> cases active <;> simp_all
  rw [found, named]

/-- The definition has the row that the authority's verdict gives it. -/
def Shown (f : Frame) (offline : Bool) (d : Database) (item : String × Message) : Prop :=
  ∃ active, f.Judges offline item.2 active ∧
    d.findDefinition item.1 = some ⟨item.1, active, projection item.2 active⟩

theorem replayDefinition_shows {low high : Progress σ ε} {before after : Database × Bool}
    {item : String × Message} (registered : Registered before.1)
    (valid : ValidDefinition item.1 item.2)
    (h : Returns c low (replayDefinition offline before item) after high) :
    Registered after.1 ∧ Shown (frame c low high) offline after.1 item ∧
      ∀ other, other ≠ item.1 → after.1.findDefinition other = before.1.findDefinition other := by
  obtain ⟨active, asked, h⟩ := h.bind
  have judged := projectedActive_judges asked
  rcases h.ite with ⟨same, h⟩ | ⟨changed, h⟩
  · obtain rfl := h.of_pure
    exact ⟨registered, ⟨active, judged, registered.row same⟩, fun _ _ => rfl⟩
  · obtain ⟨invalidated, retired, h⟩ := h.bind
    obtain ⟨_, retired⟩ := retired.skip
    obtain rfl := retired.of_pure
    obtain rfl := h.of_pure
    refine ⟨registered.put valid active, ⟨active, judged, ?_⟩, fun other differs => ?_⟩
    · exact (Table.find?_upsert item.1).trans (if_pos rfl)
    · exact (Table.find?_upsert other).trans (if_neg (Ne.symm differs))

/-- After a replay every definition of the registry has its row. -/
theorem replay_shows {lo hi : Progress σ ε} {d : Database} {revision : Int} {outcome : Outcome}
    (registered : Registered d) (valid : ValidRegistry definitions)
    (h : Returns c lo (replay definitions revision offline d) outcome hi) :
    outcome.tables.registryRevision = revision ∧ ∀ id config, definitions[id]? = some config →
      Shown (frame c lo hi) offline outcome.tables (id, config) := by
  obtain ⟨_, h⟩ := h.skip
  obtain ⟨⟨projected, changed⟩, loop, h⟩ := h.bind
  obtain rfl := h.of_pure
  have rows := loop.foldlM (fun (done : List (String × Message)) (state : Database × Bool) high =>
      Registered state.1 ∧ ∀ item ∈ done, Shown (frame c lo high) offline state.1 item)
    ⟨registered, by simp⟩
    (fun done item before after low high inside above _ inv turn => by
      have listed := Std.ExtTreeMap.mem_toList_iff_getElem?_eq_some.mp
        (inside.subset (by simp : item ∈ done ++ [item]))
      obtain ⟨next, shown, kept⟩ :=
        replayDefinition_shows inv.1 (valid item.1 item.2 listed) turn
      refine ⟨next, fun other member => ?_⟩
      rcases List.mem_append.mp member with earlier | last
      · obtain ⟨active, judged, row⟩ := inv.2 other earlier
        have differs : other.1 ≠ item.1 := fun same =>
          definitions_once inside (same ▸ List.mem_map_of_mem earlier)
        exact ⟨active, judged.mono (le_refl _) turn.le, (kept other.1 differs).trans row⟩
      · obtain rfl := List.mem_singleton.mp last
        obtain ⟨active, judged, row⟩ := shown
        exact ⟨active, judged.mono above (le_refl _), row⟩)
    (fun _ _ _ _ later inv => ⟨inv.1, fun item member => by
      obtain ⟨active, judged, row⟩ := inv.2 item member
      exact ⟨active, judged.mono (le_refl _) later, row⟩⟩)
  refine ⟨by dsimp only; split <;> rfl, fun id config listed => ?_⟩
  obtain ⟨active, judged, row⟩ := rows.2 (id, config)
    (Std.ExtTreeMap.mem_toList_iff_getElem?_eq_some.mpr listed)
  refine ⟨active, judged, ?_⟩
  dsimp only
  split <;> exact row

/-- The tables hold the rows of the last projection. -/
theorem Commits.projection {log : List Entry} {s : Ledger} {e : Entry} (run : Commits P log s)
    (last : lastProjection log = some e) :
    s.tables.definitions = e.after.definitions ∧
      s.tables.registryRevision = e.after.registryRevision ∧
      ∃ earlier t u, Commits P earlier t ∧ Committed P t e u := by
  induction run with
  | nil => cases last
  | @cons log s t label earlier step ih =>
    by_cases projects : label.call.projects = true
    · rw [lastProjection_cons, if_pos projects] at last
      obtain rfl := Option.some.inj last
      rw [step.after]
      exact ⟨rfl, rfl, log, s, t, earlier, step⟩
    · rw [lastProjection_cons, if_neg projects] at last
      obtain ⟨definitions, revision, made⟩ := ih last
      have effect := step.effect (Commits.sound earlier).keyed
      have other : label.call.projects = false := by simpa using projects
      exact ⟨(effect.definitions_kept other).trans definitions,
        (effect.registryRevision other).trans revision, made⟩

/-- The rows are the projection of the definitions: each definition of the registry has
one row, with the flag that the authority gave it, and there are no others. -/
structure Projection (f : Frame) (offline : Bool) (definitions : Definitions)
    (rows : List DefinitionRow) : Prop where
  distinct : (rows.map DefinitionRow.id).Nodup
  complete : ∀ id ∈ definitions, ∃ row ∈ rows, row.id = id
  exact : ∀ row ∈ rows, ∃ config, definitions[row.id]? = some config ∧
    row.config = projection config row.active ∧ f.Judges offline config row.active

theorem Committed.projection {s t : Ledger} {e : Entry} {revision : Int} (h : Committed P s e t)
    (sound : Sound P s.ids s.tables) (call : e.call = .replay definitions revision offline) :
    e.after.registryRevision = revision ∧
      ((∀ row ∈ e.after.definitions, row.id ∈ definitions) →
        Projection e.frame offline definitions e.after.definitions) := by
  obtain ⟨σ, ε, _, c, lo, hi, outcome, work, same⟩ := h.work
  have valid := h.registry _ _ _ call
  have final := h.sound sound
  rw [← h.after] at final
  rw [← h.before] at sound
  rw [call] at work
  obtain ⟨marked, shown⟩ := replay_shows sound.registered valid work
  have frames : e.frame = frame c lo hi := by rw [same]; rfl
  have after : e.after = outcome.tables := by rw [same]; rfl
  rw [← after, ← frames] at shown
  refine ⟨after ▸ marked, fun listed => ⟨final.keyed.definitions, fun id member => ?_, ?_⟩⟩
  · obtain ⟨config, stored⟩ : ∃ config, definitions[id]? = some config :=
      Option.isSome_iff_exists.mp (by simpa using member)
    obtain ⟨active, _, found⟩ := shown id config stored
    exact ⟨_, List.mem_of_find?_eq_some found, rfl⟩
  · intro row member
    obtain ⟨config, stored⟩ : ∃ config, definitions[row.id]? = some config :=
      Option.isSome_iff_exists.mp (by simpa using listed row member)
    obtain ⟨active, judged, found⟩ := shown row.id config stored
    have unique := Table.eq_of_key final.keyed.definitions member
      (List.mem_of_find?_eq_some found) rfl
    exact ⟨config, stored, by rw [unique], by rw [unique]; exact judged⟩

/-! ### No row outlives its definition -/

/-- The event changes the registry file. -/
def DiskEvent.ofRegistry : DiskEvent → Bool
  | .registryRemoved | .registryDamaged _ | .registryReplaced _ _ _ | .registryRestored => true
  | _ => false

/-- What other programs did to the files. -/
def Moment.touches : Moment σ ε → List DiskEvent
  | .storage (.touched events) => events
  | _ => []

/-- No other program has touched the registry file. -/
def Untampered (history : List (Moment σ ε)) : Prop :=
  ∀ moment ∈ history, ∀ event ∈ moment.touches, event.ofRegistry = false

instance (history : List (Moment σ ε)) : Decidable (Untampered history) :=
  inferInstanceAs (Decidable (∀ moment ∈ history, ∀ event ∈ moment.touches, event.ofRegistry = false))

/-- The file lists the definition. -/
def Lists (file : Option RegistryFile) (id : String) : Prop :=
  ∃ f r, file = some f ∧ f.content = some r ∧ id ∈ r.definitions

theorem Lists.mem {disk : Disk} {r : Registry} (h : Lists disk.registry id)
    (stored : disk.content = some r) : id ∈ r.definitions := by
  obtain ⟨f, r', found, decoded, member⟩ := h
  rw [Disk.content, found, Option.bind_some, decoded] at stored
  exact Option.some.inj stored ▸ member

/-- Every row is listed by the registry file, also by the one that a power loss brings
back. -/
structure Listed (m : Members) : Prop where
  rows : ∀ row ∈ m.tables.definitions, Lists m.disk.durable row.id
  files : ∀ id, Lists m.disk.durable id → Lists m.disk.registry id

/-- What other programs do to the database does not touch the registry. -/
theorem touch_registry (disk : Disk) {events : List DiskEvent}
    (clean : ∀ event ∈ events, event.ofRegistry = false) :
    (events.foldl Disk.apply disk).registry = disk.registry ∧
      (events.foldl Disk.apply disk).durable = disk.durable := by
  induction events generalizing disk with
  | nil => exact ⟨rfl, rfl⟩
  | cons event rest ih =>
    obtain ⟨registry, durable⟩ := ih (disk.apply event) fun other member =>
      clean other (List.mem_cons_of_mem _ member)
    have first : (disk.apply event).registry = disk.registry ∧
        (disk.apply event).durable = disk.durable := by
      have own := clean event List.mem_cons_self
      cases event with
      | databaseReplaced inode =>
        dsimp only [Disk.apply]
        split
        · split <;> exact ⟨rfl, rfl⟩
        · exact ⟨rfl, rfl⟩
      | registryRemoved => cases own
      | registryDamaged _ => cases own
      | registryReplaced _ _ _ => cases own
      | registryRestored => cases own
      | _ => exact ⟨rfl, rfl⟩
    exact ⟨registry.trans first.1, durable.trans first.2⟩

theorem Listed.touch (h : Listed m) {events : List DiskEvent}
    (clean : ∀ event ∈ events, event.ofRegistry = false) :
    Listed { m with disk := events.foldl Disk.apply m.disk } := by
  obtain ⟨registry, durable⟩ := touch_registry m.disk clean
  constructor
  · rw [durable]
    exact h.rows
  · rw [durable, registry]
    exact h.files

theorem Stamped.lists (h : Stamped m) (matched : Matched m) (member : id ∈ m.definitions) :
    Lists m.disk.registry id := by
  obtain ⟨r, stored, definitions, _, _⟩ := h.mirrored matched
  obtain ⟨f, found, decoded⟩ := Option.bind_eq_some_iff.mp stored
  exact ⟨f, r, found, decoded, definitions ▸ member⟩

/-- A registry that is written lists what the file listed. -/
theorem Source.lists {content : Registry} (h : Source P K m content) (stamped : Stamped m)
    (listed : Lists m.disk.registry id) :
    id ∈ content.definitions := by
  have mirrored : Matched m → id ∈ m.definitions := by
    intro matched
    obtain ⟨r, stored, definitions, _, _⟩ := stamped.mirrored matched
    exact definitions ▸ listed.mem stored
  cases h with
  | found missing =>
    obtain ⟨f, _, found, _⟩ := listed
    rw [missing] at found
    cases found
  | follow matched follows => exact follows.keys id (mirrored matched)
  | bind matched definitions => exact definitions ▸ mirrored matched

theorem Listed.written {content : Registry} (h : Listed m)
    (lists : ∀ id, Lists m.disk.registry id → id ∈ content.definitions) (outcome : WriteOutcome) :
    Listed (m.written content outcome) := by
  have next : ∀ id, Lists m.disk.durable id →
      Lists (m.disk.renameRegistry content).registry id :=
    fun id listed => ⟨_, content, rfl, rfl, lists id (h.files id listed)⟩
  cases outcome with
  | failed => exact h
  | renamed => exact ⟨h.rows, next⟩
  | durable => exact ⟨fun row member => next row.id (h.rows row member), fun _ listed => listed⟩

theorem Projected.rows {d d' : Database} {ids : List String} (h : Projected definitions d ids d') :
    ∀ row ∈ d'.definitions, row ∈ d.definitions ∨ row.id ∈ definitions := by
  induction h with
  | nil => exact fun row member => Or.inl member
  | @cons ids mid id config active _ _ listed _ ih =>
    intro row member
    rcases Table.mem_upsert member with rfl | ⟨stored, _⟩
    · exact Or.inr (by simp [← Std.ExtTreeMap.isSome_getElem?_iff_mem, listed])
    · exact ih row stored

theorem Runs.sound (h : Runs P w) :
    ∃ n, n ≤ w.progress.nextId ∧ Sound P n w.members.tables := by
  obtain ⟨ids, below, run⟩ := h.chronicled.run
  exact ⟨ids, below, Commits.sound run⟩

theorem Move.listed {w v : World σ ε} (runs : Runs P w) (h : Move c K w v)
    (clean : Untampered v.progress.record) (holds : Listed w.members) :
    Listed v.members := by
  obtain ⟨n, _, sound⟩ := runs.sound
  have stamped := runs.consistent.stamped
  cases h with
  | steer steers =>
    refine ⟨?_, ?_⟩ <;> dsimp only
    · rw [steers.tables, steers.disk]
      exact holds.rows
    · rw [steers.disk]
      exact holds.files
  | touch spoken past => exact holds.touch (clean _ List.mem_cons_self)
  | commit work other blank serves =>
    have same := (work_effect sound.keyed work).definitions_kept other
    exact ⟨fun row member => holds.rows row (same ▸ member), holds.files⟩
  | create work fenced =>
    refine ⟨fun row member => ?_, holds.files⟩
    have blank : row ∈ Database.fresh.definitions := create_returns work ▸ member
    cases blank
  | incarnate work blank =>
    have same := (work_effect sound.keyed work).definitions_kept rfl
    exact ⟨fun row member => holds.rows row (same ▸ member), holds.files⟩
  | sync => exact ⟨fun row member => holds.files row.id (holds.rows row member), fun _ listed => listed⟩
  | @replay q call outcome offline matched synced replays work =>
    subst replays
    have listed : ∀ id ∈ w.members.definitions, Lists w.members.disk.durable id :=
      fun id member => synced ▸ stamped.lists matched member
    refine ⟨fun row member => ?_, holds.files⟩
    rcases (work_effect sound.keyed work).definitions with ⟨create, _⟩ | same |
      ⟨definitions, revision, _, ids, mid, call, steps, marks⟩
    · cases create
    · exact holds.rows row (same ▸ member)
    · obtain ⟨rfl, rfl, rfl⟩ := Call.replay.inj call
      have stored : row ∈ mid.definitions := by
        have member : row ∈ outcome.tables.definitions := member
        rw [marks] at member
        exact member
      rcases steps.rows row stored with old | new
      · exact holds.rows row old
      · exact listed row.id new
  | @write content source outcome =>
    have lists := fun id (listed : Lists w.members.disk.registry id) => source.lists stamped listed
    exact Listed.written (m := { w.members with expected := content.database })
      { holds with } lists outcome
  | _ => exact { holds with }

/-- The record of a run only grows. -/
theorem Move.record {w v : World σ ε} (h : Move c K w v) :
    w.progress.record <:+ v.progress.record := by
  cases h with
  | progress later =>
    rw [World.at_progress, Progress.record_eq later]
  | commit work other blank serves =>
    rw [← Progress.record_eq work.le]
    exact List.suffix_cons _ _
  | create work fenced =>
    rw [← Progress.record_eq work.le]
    exact List.suffix_cons _ _
  | incarnate work blank =>
    rw [← Progress.record_eq work.le]
    exact List.suffix_cons _ _
  | replay matched synced replays work =>
    rw [← Progress.record_eq work.le]
    exact List.suffix_cons _ _
  | touch spoken past => exact List.suffix_cons _ _
  | reject stored booted => exact List.suffix_cons _ _
  | write source outcome => exact List.suffix_cons _ _
  | ensure able => exact List.suffix_cons _ _
  | _ => exact List.suffix_refl _

omit [Host σ ε] in
theorem Step.enter_record (step : Step σ) (w : World σ ε) :
    w.progress.record <:+ (step.enter w).progress.record := by
  cases step with
  | restart main offline powerLoss => exact List.suffix_cons _ _
  | _ => exact List.suffix_refl _

omit [Host σ ε] in
theorem Untampered.suffix {history earlier : List (Moment σ ε)} (h : Untampered history)
    (part : earlier <:+ history) : Untampered earlier :=
  fun moment member => h moment (part.subset member)

/-- While no other program touches the registry, every row is listed. -/
theorem Runs.listed (h : Runs P w) (clean : Untampered w.progress.record) : Listed w.members := by
  induction h with
  | start device registry main => exact ⟨fun row member => (by cases member), fun _ listed => listed⟩
  | @enter w step _ ih =>
    have before := ih (clean.suffix (step.enter_record w))
    cases step with
    | restart main offline powerLoss =>
      cases powerLoss with
      | true => exact ⟨before.rows, fun _ listed => listed⟩
      | false => exact ⟨before.rows, before.files⟩
    | _ => exact before
  | move _ runs move ih => exact move.listed runs clean (ih (clean.suffix move.record))

/-! ### Every normal return -/

/-- Every normal return of `Ensure` and `Open` in a history, with what happened before. -/
def Along (G : Ensured → List (Moment σ ε) → Prop) (history : List (Moment σ ε)) : Prop :=
  ∀ later s earlier, history = later ++ .storage (.ensured s) :: earlier → G s earlier

omit [Host σ ε] in
theorem Along.cons {G : Ensured → List (Moment σ ε) → Prop} {history : List (Moment σ ε)}
    {moment : Moment σ ε} (h : Along G history)
    (here : ∀ s, moment = .storage (.ensured s) → G s history) : Along G (moment :: history) := by
  intro later s earlier split
  cases later with
  | nil =>
    obtain ⟨same, rfl⟩ := List.cons.inj split
    exact here s same
  | cons _ later =>
    obtain ⟨_, rest⟩ := List.cons.inj split
    exact h later s earlier rest

/-- What holds whenever the storage is found in order. -/
theorem Runs.along {G : Ensured → List (Moment σ ε) → Prop}
    (ensured : ∀ {w : World σ ε} {opening}, Runs P w → Ensurable opening w.view →
      G (w.members.ensured opening) w.progress.record) (h : Runs P w) :
    Along G w.progress.record := by
  have commits : ∀ {entry : Entry} {q q' : Progress σ ε}, Along G q.record → q ≤ q' →
      Along G (.commit entry :: q'.record) := by
    intro entry q q' before later
    rw [Progress.record_eq later]
    exact before.cons fun s same => by cases same
  induction h with
  | start device registry main => exact fun later s earlier split => by cases later <;> cases split
  | @enter w step _ ih =>
    cases step with
    | restart main offline powerLoss => exact ih.cons fun s same => by cases same
    | _ => exact ih
  | @move w v c K _ runs move ih =>
    cases move with
    | progress later =>
      rw [World.at_progress, Progress.record_eq later]
      exact ih
    | touch spoken past => exact ih.cons fun s same => by cases same
    | reject stored booted => exact ih.cons fun s same => by cases same
    | commit work other blank serves => exact commits ih work.le
    | create work fenced => exact commits ih work.le
    | incarnate work blank => exact commits ih work.le
    | replay matched synced replays work => exact commits ih work.le
    | write source outcome => exact ih.cons fun s same => by cases same
    | ensure able =>
      refine ih.cons fun s same => ?_
      cases same
      exact ensured runs able
    | _ => exact ih

end Consent.Repository
