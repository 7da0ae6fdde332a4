import Consent.Guarantees.RegistryRoundTrip

/-!
What a registry file does to the repository that reads it.

`ReadRegistry` takes over definitions, operations, revision and identity of the file only
after all checks. The database that it expects is taken over before the checksum is
compared, so a file that is rejected can still change it; a later `Ensure` then mistakes the
live database for a foreign one. The process model, whose registry files hold what becomes of
them, reads a file as these octets are read.
-/
namespace Consent.RegistryText
open Wire (octets)
open Repository (Failure WriteOutcome kRegistryLimit)

variable (hash : Text → Text) (other : Fields → Except Failure Unit)

/-! ### Files that are rejected -/

/-- The file passes the checks that precede the assignments: it has these fields, a schema and a
revision that are understood, and this device. -/
structure Legible (file : File) (root : Fields) (device : Int) : Prop where
  size : 0 < file.text.length ∧ file.text.length ≤ kRegistryLimit
  fields : unpack file.text = .ok root
  schema : field root "schema" "" = octets "1"
  revision : ∃ revision, integer (field root "revision" "") 0 int64Max = .ok revision
  device : integer (field root "db_device" "0") 0 int64Max = .ok device

/-- The fields have this inode. -/
def Numbered (root : Fields) (inode : Int) : Prop :=
  integer (field root "db_inode" "0") 0 int64Max = .ok inode

/-- The file names the expected database, as far as it comes to be read. -/
def Harmless (found : Found) (s : Loaded) : Prop :=
  ∀ file root device, found = .file file → Legible file root device →
    device = s.expectedDevice ∧ ∀ inode, Numbered root inode →
      inode = s.expectedInode ∧ field root "db_incarnation" "" = s.expectedIncarnation

/-- The file is read as far as the incarnation, and that is another one. -/
def Misleads (found : Found) (s : Loaded) : Prop :=
  ∃ file root device inode, found = .file file ∧ Legible file root device ∧ Numbered root inode ∧
    field root "db_incarnation" "" ≠ s.expectedIncarnation

/-- The members after a file was rejected. -/
inductive Leaves (file : File) (s : Loaded) : Loaded → Prop
  | nothing (illegible : ∀ root device, ¬ Legible file root device) : Leaves file s s
  | device {root : Fields} {device : Int} (legible : Legible file root device)
      (unnumbered : ∀ inode, ¬ Numbered root inode) : Leaves file s { s with expectedDevice := device }
  | database {root : Fields} {device inode : Int} (legible : Legible file root device)
      (numbered : Numbered root inode) :
      Leaves file s { s with
        expectedDevice := device, expectedInode := inode
        expectedIncarnation := field root "db_incarnation" "" }

theorem readHeader_ok {file : File} {root : Fields} {device : Int} :
    (∃ revision, readHeader file = .ok (root, revision, device)) ↔ Legible file root device := by
  constructor
  · rintro ⟨revision, read⟩
    obtain ⟨_, size, read⟩ := Except.of_bind_ok read
    obtain ⟨_, fields, read⟩ := Except.of_bind_ok read
    obtain ⟨_, schema, read⟩ := Except.of_bind_ok read
    obtain ⟨_, revised, read⟩ := Except.of_bind_ok read
    obtain ⟨_, numbered, ⟨⟩⟩ := Except.of_bind_ok read
    exact ⟨file.whole ▸ of_require size, fields, of_require schema, ⟨_, revised⟩, numbered⟩
  · rintro ⟨size, fields, schema, ⟨revision, revised⟩, numbered⟩
    refine ⟨revision, ?_⟩
    simp only [readHeader, require, file.whole, size, and_self, ↓reduceIte, bind, Except.bind, fields,
      schema, revised, numbered, pure, Except.pure]

theorem Legible.unique {file : File} {root root' : Fields} {device device' : Int}
    (h : Legible file root device) (h' : Legible file root' device') : root' = root ∧ device' = device := by
  obtain rfl := Except.ok.inj (h.fields.symm.trans h'.fields)
  exact ⟨rfl, Except.ok.inj (h'.device.symm.trans h.device)⟩

theorem Numbered.unique {root : Fields} {inode inode' : Int} (h : Numbered root inode)
    (h' : Numbered root inode') : inode' = inode := Except.ok.inj (h'.symm.trans h)

theorem Leaves.keeps {file : File} {s s' : Loaded} (h : Leaves file s s') :
    s'.definitions = s.definitions ∧ s'.operations = s.operations ∧
      s'.registryRevision = s.registryRevision ∧ s'.registryIdentity = s.registryIdentity := by
  cases h <;> exact ⟨rfl, rfl, rfl, rfl⟩

/-- A rejected file changes nothing exactly if it is harmless. -/
theorem Leaves.eq_iff {file : File} {s s' : Loaded} (h : Leaves file s s') :
    s' = s ↔ Harmless (.file file) s := by
  cases h with
  | nothing illegible =>
    refine ⟨fun _ other root device same legible => ?_, fun _ => rfl⟩
    cases same
    exact absurd legible (illegible root device)
  | @device root device legible unnumbered =>
    constructor
    · rintro same other root' device' ⟨⟩ legible'
      obtain ⟨rfl, rfl⟩ := legible.unique legible'
      exact ⟨congrArg Loaded.expectedDevice same, fun inode numbered => absurd numbered (unnumbered inode)⟩
    · intro harmless
      rw [(harmless file root device rfl legible).1]
  | @database root device inode legible numbered =>
    constructor
    · rintro same other root' device' ⟨⟩ legible'
      obtain ⟨rfl, rfl⟩ := legible.unique legible'
      refine ⟨congrArg Loaded.expectedDevice same, fun inode' numbered' => ?_⟩
      obtain rfl := numbered.unique numbered'
      exact ⟨congrArg Loaded.expectedInode same, congrArg Loaded.expectedIncarnation same⟩
    · intro harmless
      obtain ⟨devices, others⟩ := harmless file root device rfl legible
      obtain ⟨inodes, incarnations⟩ := others inode numbered
      rw [devices, inodes, incarnations]

/-- It changes the incarnation exactly if it misleads. -/
theorem Leaves.misleads_iff {file : File} {s s' : Loaded} (h : Leaves file s s') :
    s'.expectedIncarnation ≠ s.expectedIncarnation ↔ Misleads (.file file) s := by
  constructor
  · intro other
    cases h with
    | nothing illegible => exact absurd rfl other
    | device legible unnumbered => exact absurd rfl other
    | database legible numbered => exact ⟨file, _, _, _, rfl, legible, numbered, other⟩
  · rintro ⟨_, root, device, inode, ⟨⟩, legible, numbered, other⟩
    cases h with
    | nothing illegible => exact absurd legible (illegible root device)
    | device legible' unnumbered =>
      obtain ⟨rfl, rfl⟩ := legible.unique legible'
      exact absurd numbered (unnumbered inode)
    | database legible' numbered' =>
      obtain ⟨rfl, rfl⟩ := legible.unique legible'
      exact other

theorem Leaves.unique {file : File} {s a b : Loaded} (h : Leaves file s a) (h' : Leaves file s b) :
    b = a := by
  cases h with
  | nothing illegible =>
    cases h' with
    | nothing _ => rfl
    | device legible _ => exact absurd legible (illegible _ _)
    | database legible _ => exact absurd legible (illegible _ _)
  | device legible unnumbered =>
    cases h' with
    | nothing illegible => exact absurd legible (illegible _ _)
    | device legible' _ =>
      obtain ⟨rfl, rfl⟩ := legible.unique legible'
      rfl
    | database legible' numbered =>
      obtain ⟨rfl, rfl⟩ := legible.unique legible'
      exact absurd numbered (unnumbered _)
  | database legible numbered =>
    cases h' with
    | nothing illegible => exact absurd legible (illegible _ _)
    | device legible' unnumbered =>
      obtain ⟨rfl, rfl⟩ := legible.unique legible'
      exact absurd numbered (unnumbered _)
    | database legible' numbered' =>
      obtain ⟨rfl, rfl⟩ := legible.unique legible'
      obtain rfl := numbered.unique numbered'
      rfl

theorem readFile_error {hash : Text → Text} {other : Fields → Except Failure Unit} {file : File}
    {s s' : Loaded} {e : Failure} (h : readFile hash other file s = (.error e, s')) :
    Leaves file s s' := by
  rcases header : readHeader file with _ | ⟨root, revision, device⟩
  · simp only [readFile, header] at h
    cases h
    refine .nothing fun root device legible => ?_
    obtain ⟨_, read⟩ := readHeader_ok.mpr legible
    rw [header] at read
    cases read
  have legible := readHeader_ok.mp ⟨revision, header⟩
  rcases read : integer (field root "db_inode" "0") 0 int64Max with _ | inode
  · simp only [readFile, header, read] at h
    cases h
    exact .device legible fun inode numbered => by simp [Numbered, read] at numbered
  · simp only [readFile, header, read] at h
    split at h
    · cases h
      exact .database legible read
    · cases h

theorem writeRegistry_error {hash : Text → Text}
    {definitions : Std.ExtTreeMap Text Fields compare} {operations : Fields} {revision : Int}
    {outcome : WriteOutcome} {stat : Stat} {s s' : Loaded} {e : Failure}
    (h : writeRegistry hash definitions operations revision outcome stat s = (.error e, s')) :
    s' = s := by
  unfold writeRegistry at h
  split at h
  · cases h
    rfl
  · cases outcome with
    | failed =>
      cases h
      rfl
    | renamed =>
      cases h
      rfl
    | durable => cases h

/-- How a failed `ReadRegistry` leaves the members. -/
theorem readRegistry_error {hash : Text → Text} {other : Fields → Except Failure Unit}
    {initial : Bool} {found : Found} {s s' : Loaded} {e : Failure}
    (h : readRegistry hash other initial found s = (.error e, s')) :
    (∃ file, found = .file file ∧ Leaves file s s') ∨ (∀ file, found ≠ .file file) ∧ s' = s := by
  cases found with
  | missing database write stat =>
    refine .inr ⟨fun file => by simp, ?_⟩
    unfold readRegistry at h
    dsimp only at h
    split_ifs at h with again present
    · cases h
      rfl
    · cases h
      rfl
    · exact writeRegistry_error h
  | refused reason =>
    cases h
    exact .inr ⟨fun file => by simp, rfl⟩
  | file file => exact .inl ⟨file, rfl, readFile_error h⟩

theorem readRegistry_error_eq_iff {hash : Text → Text} {other : Fields → Except Failure Unit}
    {initial : Bool} {found : Found} {s s' : Loaded} {e : Failure}
    (h : readRegistry hash other initial found s = (.error e, s')) :
    s' = s ↔ Harmless found s := by
  rcases readRegistry_error h with ⟨file, rfl, leaves⟩ | ⟨noFile, rfl⟩
  · exact leaves.eq_iff
  · exact ⟨fun _ file _ _ same => absurd same (noFile file), fun _ => rfl⟩

/-! ### The database after a rejected file -/

/-- The repository serves this database. -/
structure Live (database : DatabaseStat) (s : Impl) : Prop where
  handle : s.handle = true
  intact : s.compensationFailed = false
  sound : s.corrupt = false
  large : 512 ≤ database.size
  same : (database.device, database.inode) = s.database
  row : database.row = .ok (some s.loaded.expectedIncarnation)

theorem judge_verdict {database : DatabaseStat} {s : Impl} (sound : s.corrupt = false)
    (large : 512 ≤ database.size) (same : (database.device, database.inode) = s.database)
    {row : Option Text} (read : database.row = .ok row) :
    ((judge (some database) s).1 = .retires ↔ row ≠ some s.loaded.expectedIncarnation) ∧
      ∀ e, (judge (some database) s).1 ≠ .failed e := by
  have big : ¬ database.size < 512 := by omega
  simp only [judge, Option.any_some, big, decide_false, Bool.false_eq_true, ↓reduceIte, sound, same,
    read]
  by_cases expected : row = some s.loaded.expectedIncarnation
  · rw [if_pos expected]
    cases s.fenced <;> simp [expected]
  · rw [if_neg expected]
    simp [expected]

/-- An `Ensure` that fails on a live database has rejected the registry, and has changed
nothing else that a later one looks at. -/
theorem ensure_failed {hash : Text → Text} {other : Fields → Except Failure Unit} {found : Found}
    {database : DatabaseStat} {s s' : Impl} {e : Failure} (live : Live database s)
    (h : ensure hash other found (some database) s = (.failed e, s')) :
    (s'.handle = true ∧ s'.compensationFailed = false ∧ s'.corrupt = false ∧
      s'.database = s.database) ∧
    ((∃ file, found = .file file ∧ Leaves file s.loaded s'.loaded) ∨
      (∀ file, found ≠ .file file) ∧ s'.loaded = s.loaded) := by
  unfold ensure at h
  rw [if_neg (by simp [live.intact]), if_neg (by simp [live.handle])] at h
  cases found with
  | missing database write stat =>
    cases h
    exact ⟨⟨live.handle, live.intact, live.sound, rfl⟩, .inr ⟨fun file => by simp, rfl⟩⟩
  | refused reason =>
    cases h
    exact ⟨⟨live.handle, live.intact, live.sound, rfl⟩, .inr ⟨fun file => by simp, rfl⟩⟩
  | file file =>
    dsimp only at h
    split at h
    · have never := (judge_verdict live.sound live.large live.same live.row).2 e
      rw [h] at never
      exact absurd rfl never
    · split at h
      · rename_i loaded rejected
        cases h
        exact ⟨⟨live.handle, live.intact, live.sound, rfl⟩,
          .inl ⟨file, rfl, readFile_error rejected⟩⟩
      · rename_i loaded accepted
        have never := (judge_verdict (s := { s with fenced := true, loaded }) live.sound live.large
          live.same live.row).2 e
        rw [h] at never
        exact absurd rfl never

/-- A registry that is rejected leaves everything as it was exactly if it names the expected
database, as far as it names one; and when the good registry is back, a live database is
retired exactly if the rejected one named another incarnation. -/
theorem rejected_registry_harmless_iff :
    (∀ (initial : Bool) (found : Found) (s s' : Loaded) (e : Failure),
      readRegistry hash other initial found s = (.error e, s') →
      (s'.definitions = s.definitions ∧ s'.operations = s.operations ∧
        s'.registryRevision = s.registryRevision ∧ s'.registryIdentity = s.registryIdentity) ∧
      (s' = s ↔ Harmless found s)) ∧
    ∀ (database : DatabaseStat) (found : Found) (good : File) (s s' : Impl) (e : Failure),
      Live database s → ensure hash other found (some database) s = (.failed e, s') →
      good.stat = s.loaded.registryIdentity →
      ((ensure hash other (.file good) (some database) s').1 = .retires ↔
        Misleads found s.loaded) := by
  refine ⟨fun initial found s s' e failed => ⟨?_, readRegistry_error_eq_iff failed⟩, ?_⟩
  · rcases readRegistry_error failed with ⟨file, _, leaves⟩ | ⟨_, rfl⟩
    · exact leaves.keeps
    · exact ⟨rfl, rfl, rfl, rfl⟩
  · intro database found good s s' e live failed restored
    obtain ⟨⟨handle, intact, sound, same⟩, loaded⟩ := ensure_failed live failed
    -- The good file is the one that was read last, so it is not read again.
    have identity : good.stat = s'.loaded.registryIdentity := by
      rcases loaded with ⟨file, _, leaves⟩ | ⟨_, kept⟩
      · rw [leaves.keeps.2.2.2, restored]
      · rw [kept, restored]
    have verdict := (judge_verdict sound live.large (live.same.trans same.symm) live.row).1
    have judged : ensure hash other (.file good) (some database) s' = judge (some database) s' := by
      simp [ensure, handle, intact, identity]
    rw [judged, verdict, Ne, Option.some.injEq]
    rcases loaded with ⟨file, rfl, leaves⟩ | ⟨noFile, kept⟩
    · rw [← leaves.misleads_iff, ne_comm]
    · rw [kept]
      simp [Misleads, noFile]

namespace Sample

def packed (fields : List (String × String)) : Text :=
  fields.flatMap fun field => part (octets field.1) ++ part (octets field.2)

def stat (inode : Nat) (text : Text) : Stat := ⟨1, inode, text.length, 0, 0⟩

def file (inode : Nat) (text : Text) : File := ⟨stat inode text, text, rfl⟩

/-- A registry of another database, without a checksum. -/
def damaged : File := file 3 (packed [("schema", "1"), ("revision", "0"), ("db_incarnation", "theirs")])

/-- No registry at all. -/
def garbage : File := file 3 (octets "garbage")

/-- The registry that was read last. -/
def good : File := file 2 (octets "good")

/-- A repository over a database of the incarnation `mine`. -/
def impl : Impl where
  loaded := ⟨∅, ∅, 0, good.stat, 0, 0, octets "mine"⟩
  handle := true
  compensationFailed := false
  fenced := false
  corrupt := false
  database := (1, 7)

def database : DatabaseStat := ⟨1, 7, 4096, .ok (some (octets "mine"))⟩

theorem live : Live database impl := ⟨rfl, rfl, rfl, by decide, rfl, rfl⟩

def digest (text : Text) : Text := 100 :: text

end Sample

/-- What is no registry changes nothing, and the database stays when the good one is back. -/
theorem rejected_registry_in_sample : ∃ (e : Failure) (s' : Impl),
    ensure Sample.digest (fun _ => .ok ()) (.file Sample.garbage) (some Sample.database) Sample.impl =
      (.failed e, s') ∧
    (ensure Sample.digest (fun _ => .ok ()) (.file Sample.good) (some Sample.database) s').1 ≠
      .retires := by
  have failed : ensure Sample.digest (fun _ => .ok ()) (.file Sample.garbage) (some Sample.database)
      Sample.impl = (.failed (failure .storage "malformed stored metadata"), _) :=
    Prod.ext (by decide +kernel) rfl
  refine ⟨_, _, failed, fun retires => ?_⟩
  obtain ⟨file, root, device, inode, same, legible, _⟩ :=
    ((rejected_registry_harmless_iff Sample.digest fun _ => .ok ()).2 _ _ _ _ _ _ Sample.live failed
      rfl).mp retires
  cases same
  have nothing : (unpack Sample.garbage.text).isOk = false := by decide +kernel
  rw [legible.fields] at nothing
  cases nothing

/-- A registry whose checksum is wrong is rejected, but the incarnation that it names is
expected from now on; so the live database is retired, although the good registry is back. -/
theorem rejected_registry_retires_database : ∃ (e : Failure) (s' : Loaded) (i : Impl),
    readRegistry Sample.digest (fun _ => .ok ()) false (.file Sample.damaged) Sample.impl.loaded =
      (.error e, s') ∧
    s' ≠ Sample.impl.loaded ∧ s'.expectedIncarnation = octets "theirs" ∧
    Live Sample.database Sample.impl ∧
    ensure Sample.digest (fun _ => .ok ()) (.file Sample.damaged) (some Sample.database) Sample.impl =
      (.failed e, i) ∧
    (ensure Sample.digest (fun _ => .ok ()) (.file Sample.good) (some Sample.database) i).1 =
      .retires := by
  refine ⟨failure .storage "registry checksum mismatch", _, _, Prod.ext (by decide +kernel) rfl,
    fun same => ?_, by decide +kernel, Sample.live, Prod.ext (by decide +kernel) rfl,
    by decide +kernel⟩
  have incarnations := congrArg Loaded.expectedIncarnation same
  exact absurd incarnations (by decide +kernel)

end Consent.RegistryText

namespace Consent.Repository
open Profile
open RegistryText (Text Fields File Loaded Leaves Stat Ranged encoded prepareRegistry failure)

/-! ### The registry of a process -/

/-- The members that come from a registry, octet by octet. -/
def Registry.loaded (r : Registry) (identity : Stat) : Loaded where
  definitions := encodedDefinitions r.definitions
  operations := encoded r.operations
  registryRevision := r.revision
  registryIdentity := identity
  expectedDevice := r.database.device
  expectedInode := r.database.inode
  expectedIncarnation := Wire.octets r.database.incarnation

/-- Those of a process; a stamp stands for what identifies a file. -/
def Members.loaded (stat : Nat → Stat) (m : Members) : Loaded :=
  (m.bound m.expected).loaded (stat m.registryIdentity)

/-- The file that a registry file of the process model stands for: the text of its content, or a
file that is rejected for its reason and leaves behind what its header says. -/
structure Depicts (hash : Text → Text) (other : Fields → Except Failure Unit) (stat : Nat → Stat)
    (file : File) (stored : RegistryFile) : Prop where
  identity : file.stat = stat stored.stamp
  written : ∀ r, stored.text = .ok r → Registrable r.definitions ∧ r.operations.size ≤ kMaxOperations ∧
    Ranged (r.loaded file.stat) r.revision ∧
    prepareRegistry hash (encodedDefinitions r.definitions) (encoded r.operations) r.revision
      (r.loaded file.stat) = .ok file.text
  rejected : ∀ rejection, stored.text = .error rejection → ∀ m : Members,
    (RegistryText.readFile hash other file (m.loaded stat)).1 =
      .error (failure rejection.status rejection.reason) ∧
    Leaves file (m.loaded stat)
      ({ m with expected := rejection.header.expect m.expected }.loaded stat)

variable {σ ε : Type} [Host σ ε] {c : Context ε} {w w' : World σ ε} {hash : Text → Text}
  {other : Fields → Except Failure Unit} {stat : Nat → Stat} {file : File} {stored : RegistryFile}

theorem Registrable.checkRegistry {r : Registry} (h : Registrable r.definitions)
    (few : r.operations.size ≤ kMaxOperations) (q : Progress σ ε) :
    (checkRegistry r : Query σ ε Unit).run c q = (.ok (), q) := by
  have each : ∀ items : List (String × Message), (∀ item ∈ items, Storable item.1 item.2) →
      (items.foldlM (fun _ item => do
        validateDefinition item.2
        require (item.1 = item.2.get "definition") .storage "registry definition key mismatch")
        () : Query σ ε Unit).run c q = (.ok (), q) := by
    intro items storable
    induction items with
    | nil => rfl
    | cons item rest ih =>
      obtain ⟨named, _, installed, valid⟩ := storable item (by simp)
      have turn : (validateDefinition item.2 : Query σ ε Unit).run c q = (.ok (), q) := by
        simp only [validateDefinition, Act.run_bind, run_require, if_pos installed, valid, checked]
        rfl
      rw [List.foldlM_cons, Act.run_bind, Act.run_bind, turn]
      simp only [run_require, named, if_true]
      exact ih fun other member => storable other (by simp [member])
  rw [Repository.checkRegistry, Act.run_bind, each _ fun item member =>
    h.each item.1 item.2 (Std.ExtTreeMap.mem_toList_iff_getElem?_eq_some.mp member)]
  simp only [run_require, h.few, few, and_self, if_true]

/-- `ReadRegistry` of the process model does to its members what it does to the octets of the file,
if the file can be opened. -/
theorem readRegistry_octets (depicts : Depicts hash other stat file stored) {initial : Bool}
    {result : Except Failure Unit} (here : w.members.disk.registry = some stored)
    (run : (readRegistry initial).run c w = (result, w')) :
    ∃ found, (found = .file file ∨ found = .refused "cannot open definition registry") ∧
      RegistryText.readRegistry hash other initial found (w.members.loaded stat) =
        (result, w'.members.loaded stat) := by
  rw [readRegistry, run_members_bind, here] at run
  dsimp only at run
  rw [Act.run_bind] at run
  by_cases fault : c.environment.fileFault w.progress.filed = true
  · simp only [fileOutcome, fault, if_true] at run
    cases run
    exact ⟨_, .inr rfl, rfl⟩
  simp only [fileOutcome, fault] at run
  refine ⟨.file file, .inl rfl, ?_⟩
  rcases text : stored.text with rejection | r
  · obtain ⟨error, leaves⟩ := depicts.rejected rejection text w.members
    simp only [text] at run
    cases run
    exact Prod.ext error (leaves.unique (RegistryText.readFile_error (Prod.ext error rfl)))
  · obtain ⟨registrable, few, ranged, prepared⟩ := depicts.written r text
    simp only [text, Act.run_bind, query_run, registrable.checkRegistry few] at run
    cases run
    obtain ⟨fits, recorded, written⟩ := RegistryText.prepareRegistry_ok prepared
    refine (RegistryText.readFile_written written (by rw [written]; exact fits) ranged
      (registrable.accepted other) registrable.few_encoded recorded _).trans ?_
    rw [depicts.identity]
    rfl
end Consent.Repository
