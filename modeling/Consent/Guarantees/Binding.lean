import Consent.Repository.Reopening

/-!
The registry on disk names the database that is served, as long as no write that changes
the recorded database fails before its rename and no registry that is rejected names
another database.

`OpenDatabase` remembers a new database in memory before it writes the registry. When that
write fails, the next `Ensure` finds the database it expects, replays the registry and
serves; the file still names the database that was lost, and the next process retires the
one it finds. `ReadRegistry` takes the database of a file over before it checks the file:
when the file is rejected and the old one is put back, the next write stores what the
rejected file named.
-/
namespace Consent.Repository
open Profile
open Act (Returns)

variable {σ ε : Type} [Host σ ε]

/-! ### What breaks the bond -/

/-- A registry that names another database than the file was lost before its rename, or a
running process rejected a registry that names another database than the expected one. -/
def Moment.unbinds : Moment σ ε → Bool
  | .storage (.wrote (some old) content .failed) => decide (old.database ≠ content.database)
  | .storage (.rejected false expected header) => decide (header.expect expected ≠ expected)
  | _ => false

/-- Neither has happened. -/
def Unbroken (history : List (Moment σ ε)) : Prop := ∀ moment ∈ history, moment.unbinds = false

instance (history : List (Moment σ ε)) : Decidable (Unbroken history) :=
  inferInstanceAs (Decidable (∀ moment ∈ history, moment.unbinds = false))

omit [Host σ ε] in
theorem Unbroken.suffix {history earlier : List (Moment σ ε)} (h : Unbroken history)
    (part : earlier <:+ history) : Unbroken earlier :=
  fun moment member => h moment (part.subset member)

/-! ### What the files name -/

/-- The file, where it can be read, names this database. -/
def RegistryFile.Tells (database : DatabaseId) (file : RegistryFile) : Prop :=
  ∀ r, file.content = some r → r.database = database

theorem RegistryFile.Tells.of_content {file : RegistryFile} {r : Registry}
    (h : file.content = some r) : file.Tells r.database := by
  intro r' decoded
  rw [Option.some.inj (h.symm.trans decoded)]

variable {P : Platform} {disk : Disk} {database : DatabaseId} {K : Members → Registry → Prop}
  {w : World σ ε}

theorem RegistryFile.tells_error (stamp : Nat) (rejection : Rejection) :
    (⟨stamp, .error rejection⟩ : RegistryFile).Tells database := by
  rintro r ⟨⟩

/-- The file in place and the one that was taken away name this database. -/
def Disk.Tells (disk : Disk) (database : DatabaseId) : Prop :=
  ∀ file, disk.registry = some file ∨ disk.aside = some file → file.Tells database

/-- Whatever stands in for the file that was taken away names its database. -/
def Disk.Restorable (disk : Disk) : Prop :=
  ∀ file r, disk.aside = some file → file.content = some r → disk.All (·.Tells r.database)

/-- Another program puts a file into place that names the database of the old one. -/
theorem Disk.Tells.put (h : disk.Tells database) {text : Except Rejection Registry}
    (new : (⟨disk.nextStamp, text⟩ : RegistryFile).Tells database) :
    (disk.setAside.putRegistry text).sync.Tells database := by
  rintro file (placed | aside)
  · exact Option.some.inj placed ▸ new
  · exact h file (Disk.aside_setAside aside)

theorem Disk.Tells.apply (h : disk.Tells database) (event : DiskEvent) :
    (disk.apply event).Tells database := by
  cases event with
  | databaseReplaced inode =>
    dsimp only [Disk.apply]
    split
    · split <;> exact h
    · exact h
  | registryRemoved =>
    rintro file (⟨⟨⟩⟩ | aside)
    exact h file (Disk.aside_setAside aside)
  | registryDamaged rejection => exact h.put (RegistryFile.tells_error _ _)
  | registryReplaced definitions operations revision =>
    dsimp only [Disk.apply]
    split
    · rename_i content found
      obtain ⟨file, aside, decoded⟩ := Option.bind_eq_some_iff.mp found
      have same := h file (Disk.aside_setAside aside) content decoded
      exact h.put (by rintro r ⟨⟩; exact same)
    · exact h
  | registryRestored =>
    dsimp only [Disk.apply]
    split
    · rename_i file aside
      rintro other (placed | ⟨⟨⟩⟩)
      exact Option.some.inj placed ▸ h file (.inr aside)
    · exact h
  | _ => exact h

theorem Disk.Restorable.put {text : Except Rejection Registry}
    (new : ∀ file r, disk.setAside.aside = some file → file.content = some r →
      (⟨disk.nextStamp, text⟩ : RegistryFile).Tells r.database) :
    (disk.setAside.putRegistry text).sync.Restorable := by
  rintro file r aside decoded other (placed | durable | same)
  · exact Option.some.inj placed ▸ new file r aside decoded
  · exact Option.some.inj durable ▸ new file r aside decoded
  · rw [← Option.some.inj (aside.symm.trans same)]
    exact .of_content decoded

theorem Disk.Restorable.apply (h : disk.Restorable) (event : DiskEvent) :
    (disk.apply event).Restorable := by
  cases event with
  | databaseReplaced inode =>
    dsimp only [Disk.apply]
    split
    · split <;> exact h
    · exact h
  | registryRemoved =>
    rintro file r aside decoded other (⟨⟨⟩⟩ | ⟨⟨⟩⟩ | same)
    rw [← Option.some.inj (aside.symm.trans same)]
    exact .of_content decoded
  | registryDamaged rejection => exact .put fun _ _ _ _ => RegistryFile.tells_error _ _
  | registryReplaced definitions operations revision =>
    dsimp only [Disk.apply]
    split
    · rename_i content found
      refine .put fun file r aside decoded => ?_
      rw [aside] at found
      obtain rfl := Option.some.inj (decoded.symm.trans found)
      rintro _ ⟨⟩
      rfl
    · exact h
  | registryRestored =>
    dsimp only [Disk.apply]
    split
    · rintro file r ⟨⟩
    · exact h
  | _ => exact h

theorem Disk.device_apply (disk : Disk) (event : DiskEvent) :
    (disk.apply event).device = disk.device := by
  cases event with
  | databaseReplaced inode =>
    dsimp only [Disk.apply]
    split
    · split <;> rfl
    · rfl
  | registryReplaced definitions operations revision =>
    dsimp only [Disk.apply]
    split <;> rfl
  | registryRestored =>
    dsimp only [Disk.apply]
    split <;> rfl
  | _ => rfl

theorem Disk.device_touch (disk : Disk) (events : List DiskEvent) :
    (events.foldl Disk.apply disk).device = disk.device :=
  List.foldlRecOn (motive := fun other : Disk => other.device = disk.device) events _ rfl
    fun other same event _ => (other.device_apply event).trans same

/-! ### The expected database -/

/-- A registry without an inode names no database. -/
def DatabaseId.Paired (database : DatabaseId) : Prop :=
  database.inode = 0 → database.incarnation = ""

def RegistryFile.Paired (file : RegistryFile) : Prop :=
  ∀ r, file.content = some r → r.database.Paired

/-- How the open database, the expected one and the one on file belong together. -/
structure Tied (v : View σ ε) : Prop where
  files : v.members.disk.All RegistryFile.Paired
  restorable : v.members.disk.Restorable
  paired : v.members.registryIdentity ≠ 0 → v.members.expected.Paired
  agrees : v.members.registryIdentity ≠ 0 → v.members.disk.Tells v.members.expected
  read : v.members.epoch ≠ "" → v.members.registryIdentity ≠ 0
  real : v.members.epoch ≠ "" → v.members.dbIdentity ≠ 0
  own : v.members.epoch ≠ "" → v.members.tables.incarnation ≠ "" →
    v.members.tables.incarnation = v.members.expected.incarnation →
    v.members.current = v.members.expected
  adopted : opened v.record = true → v.members.epoch ≠ ""

omit [Host σ ε] in
/-- A transaction that keeps the incarnation. -/
theorem Tied.commit {v : View σ ε} (h : Tied v) {entry : Entry}
    (same : entry.after.incarnation = v.members.tables.incarnation) : Tied (v.commit entry) := by
  refine { h with own := fun adopted named expected => ?_, adopted := h.adopted }
  have current : (v.commit entry).members.current = v.members.current := by
    simp only [Members.current, View.commit, same]
  rw [current]
  exact h.own adopted (same ▸ named) (same.symm.trans expected)

omit [Host σ ε] in
/-- Before anything was read, anything may be expected. -/
theorem Tied.expect {v : View σ ε} (h : Tied v)
    (same : v.members.registryIdentity ≠ 0 → database = v.members.expected) :
    Tied (⟨{ v.members with expected := database }, v.record⟩ : View σ ε) := by
  by_cases unread : v.members.registryIdentity = 0
  · have early : v.members.epoch = "" := by
      by_contra adopted
      exact h.read adopted unread
    exact ⟨h.files, h.restorable, fun read => absurd unread read, fun read => absurd unread read,
      h.read, h.real, fun adopted => absurd early adopted, h.adopted⟩
  · obtain rfl := same unread
    exact h

theorem Stamped.read {m : Members} (h : Stamped m) (matched : Matched m) :
    m.registryIdentity ≠ 0 := by
  obtain ⟨file, stored, same⟩ := matched
  exact same ▸ Nat.ne_of_gt (h.issued file (.inl stored)).1

omit [Host σ ε] in
/-- A registry that is written names the expected database or the open one. -/
theorem Tied.names {v : View σ ε} {content : Registry} (h : Tied v) (stamped : Stamped v.members)
    (source : Source P K v.members content) : content.database.Paired ∧
      (v.members.epoch ≠ "" → v.members.tables.incarnation ≠ "" →
        v.members.tables.incarnation = content.database.incarnation →
        v.members.current = content.database) := by
  cases source with
  | found missing empty database operations unread =>
    rw [database]
    exact ⟨fun _ => rfl, fun adopted => absurd unread (h.read adopted)⟩
  | follow matched follows database =>
    rw [database]
    exact ⟨h.paired (stamped.read matched), h.own⟩
  | bind matched definitions database named adopted =>
    rw [database]
    exact ⟨fun zero => absurd zero (h.real adopted), fun _ _ _ => rfl⟩

omit [Host σ ε] in
/-- A write that fails leaves files that name what it should have written. -/
theorem Tied.lost {content : Registry} (h : Tied w.view) (stamped : Stamped w.members)
    (source : Source P K w.members content) (kept : Moment.unbinds
      (.storage (.wrote w.members.disk.content content .failed) : Moment σ ε) = false)
    (read : w.members.registryIdentity ≠ 0) : w.members.disk.Tells content.database := by
  have agrees := h.agrees read
  cases source with
  | found missing empty database operations unread => exact absurd unread read
  | follow matched follows database => exact database ▸ agrees
  | bind matched =>
    obtain ⟨r, stored, _⟩ := stamped.mirrored matched
    obtain ⟨file, placed, decoded⟩ := Option.bind_eq_some_iff.mp stored
    simp only [stored, Moment.unbinds, decide_eq_false_iff_not, not_not] at kept
    rw [← kept, agrees file (.inl placed) r decoded]
    exact agrees

omit [Host σ ε] in
theorem Tied.write {content : Registry} {outcome : WriteOutcome} (h : Tied w.view)
    (stamped : Stamped w.members) (source : Source P K w.members content) (kept : Moment.unbinds
      (.storage (.wrote w.members.disk.content content outcome) : Moment σ ε) = false) :
    Tied (w.write content outcome).view := by
  obtain ⟨paired, own⟩ := h.names stamped source
  have files := Disk.All.written (m := { w.members with expected := content.database }) h.files
    (fun r decoded => Option.some.inj decoded ▸ paired) outcome
  have agrees : (w.members.disk.renameRegistry content).Tells content.database := by
    rintro file (placed | ⟨⟨⟩⟩)
    exact Option.some.inj placed ▸ .of_content rfl
  have restorable : ∀ durable, Disk.Restorable
      { w.members.disk.renameRegistry content with durable := durable } := by
    rintro durable file r ⟨⟩
  cases outcome with
  | failed =>
    exact ⟨files, h.restorable, fun _ => paired, h.lost stamped source kept, h.read, h.real, own,
      h.adopted⟩
  | renamed =>
    exact ⟨files, restorable _, fun _ => paired, fun _ => agrees, h.read, h.real, own, h.adopted⟩
  | durable =>
    refine ⟨files, restorable _, fun _ => paired, fun _ => agrees, fun _ => ?_, h.real, own,
      h.adopted⟩
    exact Nat.ne_of_gt (Nat.zero_lt_of_lt stamped.identity)

omit [Host σ ε] in
theorem Members.Steers.tied {m m' : Members} {record : List (Moment σ ε)} (steers : m.Steers m')
    (h : Tied (⟨m, record⟩ : View σ ε)) : Tied (⟨m', record⟩ : View σ ε) := by
  obtain ⟨dbIdentity, registryIdentity, epoch, _, expected, _, _, disk, tables, _, _⟩ := steers
  obtain ⟨files, restorable, paired, agrees, read, real, own, adopted⟩ := h
  simp only [Members.current] at files restorable paired agrees read real own adopted
  constructor <;>
    simp only [Members.current, dbIdentity, registryIdentity, epoch, expected, disk, tables] <;>
    assumption

omit [Host σ ε] in
theorem Tied.touch (h : Tied w.view) (events : List DiskEvent) : Tied (w.touch events).view := by
  have current : (w.touch events).members.current = w.members.current := by
    simp only [Members.current, World.touch, Disk.device_touch]
  refine { h with files := ?_, restorable := ?_, agrees := fun read => ?_, own := ?_ }
  · exact Disk.All.touch (fun _ _ _ => by rintro r ⟨⟩)
      (fun _ r _ _ _ _ paired decoded => by rintro _ ⟨⟩; exact paired r decoded) h.files
  · exact List.foldlRecOn (motive := Disk.Restorable) events _ h.restorable
      fun _ told event _ => told.apply event
  · exact List.foldlRecOn (motive := fun disk : Disk => disk.Tells w.members.expected) events _
      (h.agrees read) fun _ told event _ => told.apply event
  · show _ → _ → _ → (w.touch events).members.current = _
    rw [current]
    exact h.own

omit [Host σ ε] in
theorem Tied.load {file : RegistryFile} {content : Registry} (h : Tied w.view)
    (stamped : Stamped w.members) (stored : w.members.disk.registry = some file)
    (decoded : file.content = some content) (expects : w.members.expected = content.database) :
    Tied ({ w with members := w.members.load file content } : World σ ε).view := by
  -- What was taken away before this process began names the same database.
  have agrees : w.members.disk.Tells w.members.expected := by
    rintro other (placed | aside) r found
    · obtain rfl := Option.some.inj (stored.symm.trans placed)
      rw [expects, Option.some.inj (decoded.symm.trans found)]
    · rw [expects]
      exact (h.restorable other r aside found file (.inl stored) content decoded).symm
  have paired : w.members.expected.Paired := expects ▸ h.files file (.inl stored) content decoded
  refine { h with paired := fun _ => paired, agrees := fun _ => agrees, read := fun _ => ?_ }
  exact Nat.ne_of_gt (stamped.issued file (.inl stored)).1

theorem Move.tied {c : Context ε} {w v : World σ ε} (h : Move c K w v)
    (recorded : Recorded c.platform w.members w.progress.nextId) (stamped : Stamped w.members)
    (unbroken : Unbroken v.progress.record) (holds : Tied w.view) : Tied v.view := by
  cases h with
  | progress later =>
    rw [World.view_at later]
    exact holds
  | @steer m steers => exact steers.tied holds
  | touch spoken past => exact holds.touch _
  | place file nextInode real => exact { holds with }
  | @commit q call outcome due work other blank serves turns =>
    rw [World.view_turned work.le]
    have kept : Tied (w.view.commit (entryOf c call w.members.tables outcome w.progress q)) :=
      holds.commit (work_incarnation work (by rintro rfl; cases other) blank)
    exact { kept with }
  | create work fenced =>
    rw [World.view_commit work.le]
    refine { holds with own := fun _ named => absurd ?_ named, adopted := holds.adopted }
    exact congrArg Database.incarnation (create_returns work)
  | incarnate work blank =>
    rw [World.view_commit work.le]
    obtain ⟨id, fresh, tables⟩ := incarnate_returns work
    refine { holds with own := fun _ _ expected => absurd expected ?_, adopted := holds.adopted }
    have differs : id ≠ w.members.expected.incarnation := fresh.ne_spoken recorded.expected
    exact (congrArg Database.incarnation tables).symm ▸ differs
  | sync =>
    refine { holds with files := Disk.All.sync holds.files, restorable := ?_ }
    intro file r aside decoded
    exact Disk.All.sync (holds.restorable file r aside decoded)
  | @replay q call outcome offline matched synced replays work =>
    rw [World.view_unfence work.le]
    have kept : Tied (w.view.commit (entryOf c call w.members.tables outcome w.progress q)) :=
      holds.commit (work_incarnation work (by simp [replays]) (by simp [replays]))
    exact { kept with }
  | write source outcome => exact holds.write stamped source (unbroken _ List.mem_cons_self)
  | @expect content stored =>
    obtain ⟨file, placed, decoded⟩ := Option.bind_eq_some_iff.mp stored
    exact holds.expect fun read => holds.agrees read file (.inl placed) content decoded
  | @reject file initial stored booted =>
    have expects : w.members.registryIdentity ≠ 0 →
        file.header.expect w.members.expected = w.members.expected := by
      intro read
      cases initial with
      | true => exact absurd (booted rfl).registryIdentity read
      | false =>
        have same := unbroken _ List.mem_cons_self
        simpa only [Moment.unbinds, decide_eq_false_iff_not, not_not] using same
    exact { holds.expect expects with }
  | load stored decoded expects valid fenced => exact holds.load stamped stored decoded expects
  | @adopt inode matched real named own renewed =>
    have read := stamped.read matched
    refine { holds with
      read := fun _ => read, real := fun _ => Nat.ne_of_gt real, own := ?_
      adopted := fun _ => c.platform.ids.nonempty _ }
    intro _ _ expected
    rcases own with (zero | ⟨device, same⟩) | differs
    · exact absurd (expected.trans (holds.paired read zero)) named
    · simp only [World.view, Members.current, device, same]
      exact congrArg _ expected
    · exact absurd expected differs
  | @ensure opening able =>
    refine { holds with adopted := fun _ => ?_ }
    cases opening with
    | true => exact able.begun rfl
    | false => exact holds.adopted (able.serves rfl)

omit [Host σ ε] in
/-- A new process has read nothing yet. -/
theorem Tied.boot {tables : Database} {offline : Bool} {record : List (Moment σ ε)}
    (files : disk.All RegistryFile.Paired) (restorable : disk.Restorable)
    (closed : opened record = false) :
    Tied (⟨{ Members.boot disk tables with offlineImport := offline }, record⟩ : View σ ε) where
  files := files
  restorable := restorable
  paired read := absurd rfl read
  agrees read := absurd rfl read
  read adopted := absurd rfl adopted
  real adopted := absurd rfl adopted
  own adopted := absurd rfl adopted
  adopted isOpen := by rw [closed] at isOpen; cases isOpen

theorem Runs.tied (h : Runs P w) (unbroken : Unbroken w.progress.record) : Tied w.view := by
  induction h with
  | start device registry main =>
    refine Tied.boot (imageRegistry_all fun _ => ?_) (by rintro file r ⟨⟩) rfl
    rintro r ⟨⟩
    exact fun _ => rfl
  | @enter w step _ ih =>
    have before := ih (unbroken.suffix (step.enter_record w))
    cases step with
    | restart main offline powerLoss =>
      cases powerLoss with
      | true =>
        refine Tied.boot before.files.powerLoss (fun file r aside decoded => ?_) rfl
        exact Disk.All.powerLoss (before.restorable file r aside decoded)
      | false => exact Tied.boot before.files before.restorable rfl
    | _ => exact before
  | move platform runs move ih =>
    subst platform
    exact move.tied runs.recorded runs.consistent.stamped unbroken
      (ih (unbroken.suffix move.record))

/-! ### The database that is served -/

/-- The registry on disk names the open database. -/
def Ensured.Bound (s : Ensured) : Prop := s.registry.map (·.database) = some s.database

/-- Where the storage was found in order, the registry names the open database. -/
def Moment.Bound : Moment σ ε → Prop
  | .storage (.ensured s) => s.Bound
  | _ => True

instance (moment : Moment σ ε) : Decidable moment.Bound := by
  unfold Moment.Bound Ensured.Bound
  split <;> infer_instance

theorem Runs.bound {opening : Bool} (h : Runs P w) (able : Ensurable opening w.view)
    (unbroken : Unbroken w.progress.record) :
    (w.members.ensured opening).Bound := by
  have tied := h.tied unbroken
  have stamped : Stamped w.members := h.consistent.stamped
  obtain ⟨r, stored, _⟩ := stamped.mirrored able.matched
  obtain ⟨file, placed, decoded⟩ := Option.bind_eq_some_iff.mp stored
  have named := tied.agrees (stamped.read able.matched) file (.inl placed) r decoded
  have own : w.members.current = w.members.expected := by
    cases opening with
    | true => exact able.current rfl
    | false => exact tied.own (tied.adopted (able.serves rfl)) able.named able.incarnation
  exact (congrArg (Option.map (·.database)) stored).trans (congrArg some (named.trans own.symm))

omit [Host σ ε] in
theorem Unbroken.record {s : Progress σ ε} (h : Unbroken s.history) : Unbroken s.record :=
  fun moment member => h moment (List.mem_filter.mp member).1

/-- After the steps the registry on disk names another database than the one that is served,
and a process that is started on the untouched files retires that one: the approval is
gone. -/
def Forgets (steps : List (Step ProfileState × Environment ProfileStep)) : Prop :=
  Reachable Sample.platform (Sample.worldOf steps) ∧
  ¬ (∀ moment ∈ (Sample.worldOf steps).progress.history, moment.Bound) ∧
  (Sample.worldOf steps).members.disk.database =
    some ⟨(Sample.worldOf steps).members.dbIdentity, .live⟩ ∧
  ((Sample.worldOf steps).members.tables.grants.map fun g => (g.mode, g.revoked)) =
    [("PERSISTENT", false)] ∧
  ((Step.restart ProfileState.initial false false).run Sample.platform (Sample.environment 1000)
    (Sample.worldOf steps)).2.members.tables.grants.length = 0

/-- No write is lost, but a registry that is rejected names another database. -/
theorem binding_misled : Forgets Sample.misled := by
  refine ⟨Sample.worldOf_reachable _, ?_⟩
  decide +kernel

end Consent.Repository
