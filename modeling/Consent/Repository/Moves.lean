import Consent.Refinement.Transactions
import Consent.Repository.Amendments

/-!
What one call of the repository is made of. A `Move` is a change of the members, of the
files or of the history that the code makes in one place, together with what the code has
checked when it gets there. `Conducts` says that a call is a sequence of moves, and what it
leaves when it returns or throws.
-/
namespace Consent.Repository
open Profile
open Act (Returns Spec Ends Law)

variable {σ ε : Type} [Host σ ε]

/-! ### The history of the storage -/

/-- The moment is not one of the other threads. -/
def Moment.own : Moment σ ε → Bool
  | .host _ _ => false
  | .generation _ => false
  | .commit _ => true
  | .storage _ => true

/-- What the repository itself did, latest first. -/
def Progress.record (s : Progress σ ε) : List (Moment σ ε) := s.history.filter Moment.own

theorem Progress.record_eq {s t : Progress σ ε} (h : s ≤ t) : t.record = s.record := by
  have ahead : s.Ahead False t := h
  refine ahead.keeps (I := fun l => l.2.filter Moment.own = s.record) (fun turn same => ?_) rfl
  cases turn with
  | host event main history => exact same
  | generation main history => exact same
  | commit allowed entry main history => exact allowed.elim
  | storage allowed event main history => exact allowed.elim

omit [Host σ ε] in
theorem filterMap_own (history : List (Moment σ ε)) :
    (history.filter Moment.own).filterMap Moment.entry? = history.filterMap Moment.entry? := by
  rw [List.filterMap_filter]
  refine List.filterMap_congr fun moment _ => ?_
  cases moment <;> rfl

/-- The process has opened the repository. -/
def opened : List (Moment σ ε) → Bool
  | [] => false
  | .storage .started :: _ => false
  | .storage (.ensured _) :: _ => true
  | _ :: rest => opened rest

def Call.isCreate : Call → Bool
  | .create => true
  | _ => false

/-- Since the storage was last found in order, the database has not been replaced. -/
def serving : List (Moment σ ε) → Bool
  | [] => false
  | .storage .started :: _ => false
  | .storage (.ensured _) :: _ => true
  | .commit e :: rest => !e.call.isCreate && serving rest
  | _ :: rest => serving rest

omit [Host σ ε] in
theorem opened_of_serving {record : List (Moment σ ε)} (h : serving record = true) :
    opened record = true := by
  induction record with
  | nil => exact h
  | cons moment rest ih =>
    rcases moment with _ | _ | e | event
    · exact ih h
    · exact ih h
    · rw [serving, Bool.and_eq_true] at h
      exact ih h.2
    · cases event with
      | started => exact h
      | ensured state => rfl
      | touched events => exact ih h
      | rejected initial expected header => exact ih h
      | wrote old content outcome => exact ih h

/-- The transaction that wrote the definitions table last. -/
def lastProjection (log : List Entry) : Option Entry := log.find? fun e => e.call.projects

theorem lastProjection_cons (e : Entry) (log : List Entry) :
    lastProjection (e :: log) = if e.call.projects then some e else lastProjection log := by
  cases projects : e.call.projects <;> simp [lastProjection, projects]

/-- What the checks of a call depend on. -/
structure View (σ ε : Type) where
  members : Members
  record : List (Moment σ ε)

def World.view (w : World σ ε) : View σ ε := ⟨w.members, w.progress.record⟩

def View.log (v : View σ ε) : List Entry := v.record.filterMap Moment.entry?

theorem World.view_at {w : World σ ε} {q : Progress σ ε} (later : w.progress ≤ q) :
    (w.at q).view = w.view := by
  rw [World.view, World.view, World.at_progress, Progress.record_eq later, World.at_members]

/-- An assertion about a world. -/
abbrev At (A : View σ ε → Prop) (w : World σ ε) : Prop := A w.view

/-! ### Assertions -/

/-- The registry file is the one that was read or written last. -/
def Matched (m : Members) : Prop :=
  ∃ file, m.disk.registry = some file ∧ file.stamp = m.registryIdentity

/-- No approval is stored. -/
structure Blank (d : Database) : Prop where
  grants : d.grants = []
  authorizations : d.authorizations = []
  requests : d.requests = []
  sessions : d.sessions = []
  artifacts : d.artifacts = []

theorem Blank.fresh : Blank Database.fresh := ⟨rfl, rfl, rfl, rfl, rfl⟩

/-- The definitions table is the projection of the registry in memory. -/
def Replayed (v : View σ ε) : Prop :=
  ∃ e offline, lastProjection v.log = some e ∧
    e.call = .replay v.members.definitions v.members.registryRevision offline

/-- Once the repository is open, it is fenced. -/
def Fenced (v : View σ ε) : Prop := opened v.record = true → v.members.fenced = true

/-! ### Moves -/

/-- The members that only steer the code differ; a fence stays up. -/
structure Members.Steers (m m' : Members) : Prop where
  dbIdentity : m'.dbIdentity = m.dbIdentity
  registryIdentity : m'.registryIdentity = m.registryIdentity
  epoch : m'.epoch = m.epoch
  registryRevision : m'.registryRevision = m.registryRevision
  expected : m'.expected = m.expected
  definitions : m'.definitions = m.definitions
  operations : m'.operations = m.operations
  disk : m'.disk = m.disk
  tables : m'.tables = m.tables
  maintenanceClass : m'.maintenanceClass = m.maintenanceClass
  fenced : m.fenced = true → m'.fenced = true

/-- The database at the path differs, nothing else. -/
def Members.place (m : Members) (file : Option DatabaseFile) (nextInode : Nat) : Members :=
  { m with disk := { m.disk with database := file, nextInode } }

/-- No file has the inode 0. -/
def Disk.Real (disk : Disk) : Prop :=
  0 < disk.nextInode ∧ ∀ file, disk.database = some file → 0 < file.inode

/-- Nothing has been read or opened yet. -/
structure Booted (m : Members) : Prop where
  expected : m.expected = .none
  epoch : m.epoch = ""
  registryIdentity : m.registryIdentity = 0

/-- `OpenDatabase` does not retire a file of this inode for its identity. -/
def Expects (m : Members) (inode : Nat) : Prop :=
  m.expected.inode = 0 ∨ m.disk.device = m.expected.device ∧ inode = m.expected.inode

/-- What a registry that is about to be written is made from. A call amends it in the ways that
`K` allows; the open database is named once an epoch began in it. -/
inductive Source (P : Platform) (K : Members → Registry → Prop) (m : Members)
    (content : Registry) : Prop where
  | found (missing : m.disk.registry = none) (empty : content.definitions = ∅)
      (database : content.database = .none) (operations : content.operations = ∅)
      (unread : m.registryIdentity = 0)
  | follow (matched : Matched m) (follows : Follows m.definitions content.definitions)
      (database : content.database = m.expected)
      (amends : ∃ kind key request, Amends P kind key request m content) (allowed : K m content)
  | bind (matched : Matched m) (definitions : content.definitions = m.definitions)
      (database : content.database = m.current)
      (named : m.tables.incarnation ≠ "") (adopted : m.epoch ≠ "")
      (older : P.Older m.tables.incarnation m.epoch)
      (operations : content.operations = m.operations)
      (revision : content.revision = m.registryRevision)

/-- A registry is written; it names the database that is expected from now on. -/
def World.write (w : World σ ε) (content : Registry) (outcome : WriteOutcome) : World σ ε where
  members := Members.written { w.members with expected := content.database } content outcome
  progress := (w.note (.wrote w.members.disk.content content outcome)).progress

/-- A registry file is rejected after its header was read. -/
def World.reject (w : World σ ε) (initial : Bool) (header : Header) : World σ ε where
  members := { w.members with expected := header.expect w.members.expected }
  progress := (w.note (.rejected initial w.members.expected header)).progress

/-- A registry file is loaded. -/
def Members.load (m : Members) (file : RegistryFile) (content : Registry) : Members :=
  { m with
    definitions := content.definitions, operations := content.operations
    registryRevision := content.revision, registryIdentity := file.stamp }

/-- What the code knows when `Ensure`, or `Open`, returns normally. -/
structure Ensurable (opening : Bool) (v : View σ ε) : Prop where
  matched : Matched v.members
  unfenced : v.members.fenced = false
  incarnation : v.members.tables.incarnation = v.members.expected.incarnation
  named : v.members.tables.incarnation ≠ ""
  serves : opening = false → opened v.record = true
  current : opening = true → v.members.current = v.members.expected
  begun : opening = true → v.members.epoch ≠ ""
  replayed : opening = true → Replayed v
  durable : opening = true → v.members.disk.durable = v.members.disk.registry

/-- The fence is taken down. -/
def World.unfence (w : World σ ε) : World σ ε :=
  { w with members := { w.members with fenced := false } }

def Call.compacts : Call → Bool
  | .compact _ => true
  | _ => false

/-- A batch of the compaction begins with the class that is due, and then the next one is due. -/
inductive Call.Turns : Call → Nat → Nat → Prop where
  | batch (first : Nat) : Turns (.compact first) first ((first + 1) % 4)
  | other {call : Call} {due : Nat} (idle : call.compacts = false) : Turns call due due

/-- Another class of the compaction is due. -/
def World.turned (w : World σ ε) (due : Nat) : World σ ε :=
  { w with members := { w.members with maintenanceClass := due } }

inductive Move (c : Context ε) (K : Members → Registry → Prop) : World σ ε → World σ ε → Prop where
  | progress {w : World σ ε} {q : Progress σ ε} (later : w.progress ≤ q) : Move c K w (w.at q)
  | steer {w : World σ ε} {m : Members} (steers : w.members.Steers m) :
      Move c K w { w with members := m }
  | touch {w : World σ ε} {events : List DiskEvent}
      (spoken : ∀ event ∈ events, c.platform.Spoken w.progress.nextId event.incarnation)
      (past : ∀ event ∈ events, c.platform.Past w.members.epoch event.incarnation) :
      Move c K w (w.touch events)
  | place {w : World σ ε} (file : Option DatabaseFile) (nextInode : Nat)
      (real : w.members.disk.Real → (w.members.place file nextInode).disk.Real) :
      Move c K w { w with members := w.members.place file nextInode }
  | commit {w : World σ ε} {q : Progress σ ε} {call : Call} {outcome : Outcome} {due : Nat}
      (work : Returns c w.progress (call.work w.members.tables) outcome q)
      (other : call.projects = false) (blank : call ≠ .incarnate)
      (serves : call = .recover ∨ call = .resetRuntime ∨ serving w.progress.record = true)
      (turns : call.Turns w.members.maintenanceClass due) : Move c K w
        (((w.at q).commit (entryOf c call w.members.tables outcome w.progress q)).turned due)
  | create {w : World σ ε} {q : Progress σ ε} {outcome : Outcome}
      (work : Returns c w.progress (Call.create.work w.members.tables) outcome q)
      (fenced : Fenced w.view) :
      Move c K w ((w.at q).commit (entryOf c .create w.members.tables outcome w.progress q))
  | incarnate {w : World σ ε} {q : Progress σ ε} {outcome : Outcome}
      (work : Returns c w.progress (Call.incarnate.work w.members.tables) outcome q)
      (blank : w.members.tables.incarnation = "") :
      Move c K w ((w.at q).commit (entryOf c .incarnate w.members.tables outcome w.progress q))
  | sync {w : World σ ε} :
      Move c K w { w with members := { w.members with disk := w.members.disk.sync } }
  | replay {w : World σ ε} {q : Progress σ ε} {call : Call} {outcome : Outcome} {offline : Bool}
      (matched : Matched w.members) (synced : w.members.disk.durable = w.members.disk.registry)
      (replays : call = .replay w.members.definitions w.members.registryRevision offline)
      (work : Returns c w.progress (call.work w.members.tables) outcome q) :
      Move c K w ((w.at q).commit (entryOf c call w.members.tables outcome w.progress q)).unfence
  | write {w : World σ ε} {content : Registry} (source : Source c.platform K w.members content)
      (outcome : WriteOutcome) : Move c K w (w.write content outcome)
  | expect {w : World σ ε} {content : Registry} (stored : w.members.disk.content = some content) :
      Move c K w { w with members := { w.members with expected := content.database } }
  | reject {w : World σ ε} {file : RegistryFile} {initial : Bool}
      (stored : w.members.disk.registry = some file)
      (booted : initial = true → Booted w.members) : Move c K w (w.reject initial file.header)
  | load {w : World σ ε} {file : RegistryFile} {content : Registry}
      (stored : w.members.disk.registry = some file) (decoded : file.content = some content)
      (expects : w.members.expected = content.database)
      (valid : ValidRegistry content.definitions) (fenced : Fenced w.view) :
      Move c K w { w with members := w.members.load file content }
  | adopt {w : World σ ε} (inode : Nat) (matched : Matched w.members) (real : 0 < inode)
      (named : w.members.tables.incarnation ≠ "")
      (own : Expects w.members inode ∨
        w.members.tables.incarnation ≠ w.members.expected.incarnation)
      (renewed : opened w.progress.record = true → Blank w.members.tables ∧
        w.members.tables.incarnation ≠ w.members.expected.incarnation) :
      Move c K w
        { members := { w.members with
            dbIdentity := inode, epoch := c.platform.ids.id w.progress.nextId }
          progress := { w.progress with nextId := w.progress.nextId + 1 } }
  | ensure {w : World σ ε} {opening : Bool} (holds : Ensurable opening w.view) :
      Move c K w (w.note (.ensured (w.members.ensured opening)))

/-! ### Issued incarnations -/

/-- The id is empty or was issued before number `n`. -/
def Platform.Known (p : Platform) (n : Nat) (id : String) : Prop := id = "" ∨ p.Drawn 0 n id

variable {disk : Disk} {K : RegistryFile → Prop} {c : Context ε} {p : Platform} {id : String}

theorem Platform.Known.older {n : Nat} (h : p.Known n id) (named : id ≠ "") :
    p.Older id (p.ids.id n) := by
  rcases h with blank | ⟨k, _, below, same⟩
  · exact absurd blank named
  · exact ⟨k, n, below, same, rfl⟩

theorem Platform.Known.mono {n k : Nat} (h : p.Known n id) (later : n ≤ k) : p.Known k id :=
  h.imp_right fun drawn => drawn.mono (le_refl 0) later

theorem Platform.Known.spoken {n : Nat} (h : p.Known n id) :
    p.Spoken n id := by
  intro k same
  rcases h with blank | ⟨j, _, below, drawn⟩
  · exact absurd (same.trans blank) (p.ids.nonempty k)
  · rw [p.ids.injective (same.trans drawn)]
    exact below

theorem Platform.Spoken.mono {n k : Nat} (h : p.Spoken n id) (later : n ≤ k) : p.Spoken k id :=
  fun j same => lt_of_lt_of_le (h j same) later

theorem RegistryFile.text_eq {file : RegistryFile} {r : Registry} (h : file.content = some r) :
    file.text = .ok r := by
  rcases file with ⟨stamp, _ | content⟩
  · cases h
  · exact congrArg Except.ok (Option.some.inj h)

theorem RegistryFile.header_eq {file : RegistryFile} {r : Registry} (h : file.content = some r) :
    file.header = .whole r.database := by
  rw [RegistryFile.header, RegistryFile.text_eq h]

/-- The registry files: the one in place, the durable one and the one that was taken away. -/
def Disk.Holds (disk : Disk) (file : RegistryFile) : Prop :=
  disk.registry = some file ∨ disk.durable = some file ∨ disk.aside = some file

/-- Every registry file has the property. -/
def Disk.All (disk : Disk) (K : RegistryFile → Prop) : Prop := ∀ file, disk.Holds file → K file

theorem Disk.All.setAside (h : disk.All K) :
    disk.setAside.All K := by
  rintro file (placed | durable | aside)
  · exact h file (.inl placed)
  · exact h file (.inr (.inl durable))
  · dsimp only [Disk.setAside] at aside
    split at aside
    · exact h file (.inl aside)
    · exact h file (.inr (.inr aside))

/-- A file is put into place, and is durable. -/
theorem Disk.All.put (h : disk.All K) {text : Except Rejection Registry}
    (new : K ⟨disk.nextStamp, text⟩) :
    (disk.putRegistry text).sync.All K := by
  rintro file (placed | durable | aside)
  · exact Option.some.inj placed ▸ new
  · exact Option.some.inj durable ▸ new
  · exact h file (.inr (.inr aside))

/-- Another program brings a rejected file, or one that names the database of another. -/
theorem Disk.All.apply {event : DiskEvent}
    (damaged : ∀ stamp rejection, event = .registryDamaged rejection → K ⟨stamp, .error rejection⟩)
    (replaced : ∀ file r stamp definitions operations revision, K file → file.content = some r →
      K ⟨stamp, .ok { r with definitions, operations, revision }⟩) (h : disk.All K) :
    (disk.apply event).All K := by
  cases event with
  | databaseRemoved => exact h
  | databaseReplaced inode =>
    dsimp only [Disk.apply]
    split
    · split <;> exact h
    · exact h
  | databaseTruncated => exact h
  | databaseDamaged => exact h
  | registryRemoved =>
    rintro file (⟨⟨⟩⟩ | ⟨⟨⟩⟩ | aside)
    exact h.setAside file (.inr (.inr aside))
  | registryDamaged rejection => exact h.setAside.put (damaged _ rejection rfl)
  | registryReplaced definitions operations revision =>
    dsimp only [Disk.apply]
    split
    · rename_i r found
      obtain ⟨file, stored, decoded⟩ := Option.bind_eq_some_iff.mp found
      exact h.setAside.put (replaced file r _ _ _ _ (h.setAside file (.inr (.inr stored))) decoded)
    · exact h
  | registryRestored =>
    dsimp only [Disk.apply]
    split
    · rename_i file stored
      have known := h file (.inr (.inr stored))
      rintro other (placed | durable | ⟨⟨⟩⟩)
      · exact Option.some.inj placed ▸ known
      · exact Option.some.inj durable ▸ known
    · exact h

theorem Disk.All.touch {events : List DiskEvent}
    (damaged : ∀ stamp rejection, .registryDamaged rejection ∈ events → K ⟨stamp, .error rejection⟩)
    (replaced : ∀ file r stamp definitions operations revision, K file → file.content = some r →
      K ⟨stamp, .ok { r with definitions, operations, revision }⟩) (h : disk.All K) :
    (events.foldl Disk.apply disk).All K := by
  induction events generalizing disk with
  | nil => exact h
  | cons event rest ih =>
    refine ih (fun stamp rejection member => damaged stamp rejection (by simp [member])) (h.apply ?_ replaced)
    rintro stamp rejection rfl
    exact damaged stamp rejection (by simp)

/-- A write puts its registry into the files. -/
theorem Disk.All.written {m : Members} {content : Registry} (h : m.disk.All K)
    (new : K ⟨m.disk.nextStamp, .ok content⟩) (outcome : WriteOutcome) :
    (m.written content outcome).disk.All K := by
  cases outcome with
  | failed => exact h
  | renamed =>
    rintro file (placed | durable | ⟨⟨⟩⟩)
    · exact Option.some.inj placed ▸ new
    · exact h file (.inr (.inl durable))
  | durable =>
    rintro file (placed | durable | ⟨⟨⟩⟩)
    · exact Option.some.inj placed ▸ new
    · exact Option.some.inj durable ▸ new

theorem Disk.All.sync (h : disk.All K) :
    disk.sync.All K := by
  rintro file (placed | durable | aside)
  · exact h file (.inl placed)
  · exact h file (.inl durable)
  · exact h file (.inr (.inr aside))

/-- Every incarnation that a registry file names has the property. -/
def Disk.Names (disk : Disk) (N : String → Prop) : Prop :=
  disk.All fun file => N file.header.incarnation

theorem Disk.Names.touch {N : String → Prop} {events : List DiskEvent} (h : disk.Names N)
    (named : ∀ event ∈ events, N event.incarnation) :
    (events.foldl Disk.apply disk).Names N := by
  refine Disk.All.touch (fun stamp rejection member => named _ member) ?_ h
  intro file r stamp definitions operations revision known decoded
  rw [RegistryFile.header_eq decoded] at known
  exact known

/-- What a header makes expected is named by it, or was expected before. -/
theorem Header.expect_incarnation {N : String → Prop} {expected : DatabaseId} {header : Header}
    (before : N expected.incarnation) (named : N header.incarnation) :
    N (header.expect expected).incarnation := by
  cases header with
  | unread => exact before
  | device number => exact before
  | whole database => exact named

theorem Disk.Names.content {N : String → Prop} (h : disk.Names N) {r : Registry}
    (stored : disk.content = some r) : N r.database.incarnation := by
  obtain ⟨file, placed, decoded⟩ := Option.bind_eq_some_iff.mp stored
  have named : N file.header.incarnation := h file (.inl placed)
  rw [RegistryFile.header_eq decoded] at named
  exact named

theorem Disk.Real.putContent (h : disk.Real) (content : FileContent) :
    (disk.putContent content).Real := by
  refine ⟨h.1, fun file stored => ?_⟩
  obtain ⟨old, found, rfl⟩ := Option.map_eq_some_iff.mp stored
  exact h.2 old found

theorem Disk.Real.touch (h : disk.Real) (events : List DiskEvent) :
    (events.foldl Disk.apply disk).Real := by
  induction events generalizing disk with
  | nil => exact h
  | cons event rest ih =>
    refine ih ?_
    cases event with
    | databaseRemoved => exact ⟨h.1, fun file stored => by cases stored⟩
    | databaseReplaced inode =>
      dsimp only [Disk.apply]
      split
      · split
        · exact h
        · rename_i other
          refine ⟨h.1, fun file stored => ?_⟩
          obtain rfl := Option.some.inj stored
          exact Nat.pos_of_ne_zero fun zero => other (Or.inr zero)
      · exact h
    | databaseTruncated => exact h.putContent _
    | databaseDamaged => exact h.putContent _
    | registryRemoved => exact h
    | registryDamaged rejection => exact h
    | registryReplaced definitions operations revision =>
      dsimp only [Disk.apply]
      split <;> exact h
    | registryRestored =>
      dsimp only [Disk.apply]
      split <;> exact h

/-- No incarnation that is named somewhere is still to be issued, if `n` is the next number. -/
structure Recorded (P : Platform) (m : Members) (n : Nat) : Prop where
  expected : P.Spoken n m.expected.incarnation
  tables : P.Known n m.tables.incarnation
  files : m.disk.Names (P.Spoken n)
  real : m.disk.Real

theorem Recorded.mono {P : Platform} {m : Members} {n k : Nat} (h : Recorded P m n)
    (later : n ≤ k) : Recorded P m k :=
  ⟨h.expected.mono later, h.tables.mono later, fun file held => (h.files file held).mono later, h.real⟩

theorem create_returns {lo hi : Progress σ ε} {d : Database} {outcome : Outcome}
    (h : Returns c lo (Call.create.work d) outcome hi) : outcome.tables = Database.fresh := by
  obtain ⟨_, h⟩ := Act.Returns.skip h
  obtain rfl := h.of_pure
  rfl

theorem incarnate_returns {lo hi : Progress σ ε} {d : Database} {outcome : Outcome}
    (h : Returns c lo (Call.incarnate.work d) outcome hi) :
    ∃ id, (frame c lo hi).Fresh id ∧ outcome.tables = { d with incarnation := id } := by
  obtain ⟨id, issued, h⟩ := Act.Returns.bind h
  obtain rfl := h.of_pure
  exact ⟨id, freshId_returns issued, rfl⟩

theorem Move.recorded {K : Members → Registry → Prop} {w v : World σ ε} (h : Move c K w v)
    (holds : Recorded c.platform w.members w.progress.nextId) :
    Recorded c.platform v.members v.progress.nextId := by
  cases h with
  | progress later => exact holds.mono later.ids
  | steer steers =>
    refine ⟨?_, ?_, ?_, ?_⟩ <;> dsimp only
    · rw [steers.expected]
      exact holds.expected
    · rw [steers.tables]
      exact holds.tables
    · rw [steers.disk]
      exact holds.files
    · rw [steers.disk]
      exact holds.real
  | touch spoken past =>
    exact ⟨holds.expected, holds.tables, holds.files.touch spoken, holds.real.touch _⟩
  | place file nextInode real => exact ⟨holds.expected, holds.tables, holds.files, real holds.real⟩
  | commit work other blank serves turns =>
    have same := work_incarnation work (by rintro rfl; cases other) blank
    have later := holds.mono work.le.ids
    have known := later.tables
    rw [← same] at known
    exact ⟨later.expected, known, later.files, later.real⟩
  | create work fenced =>
    have later := holds.mono work.le.ids
    refine ⟨later.expected, Or.inl ?_, later.files, later.real⟩
    exact congrArg Database.incarnation (create_returns work)
  | incarnate work blank =>
    have later := holds.mono work.le.ids
    obtain ⟨id, fresh, tables⟩ := incarnate_returns work
    refine ⟨later.expected, Or.inr ?_, later.files, later.real⟩
    have drawn : c.platform.Drawn 0 _ id := fresh.mono (Nat.zero_le _) (le_refl _)
    exact (congrArg Database.incarnation tables).symm ▸ drawn
  | sync => exact ⟨holds.expected, holds.tables, Disk.All.sync holds.files, holds.real⟩
  | replay matched synced replays work =>
    have same := work_incarnation work (by simp [replays]) (by simp [replays])
    have later := holds.mono work.le.ids
    have known := later.tables
    rw [← same] at known
    exact ⟨later.expected, known, later.files, later.real⟩
  | @write content source outcome =>
    have known : c.platform.Spoken w.progress.nextId content.database.incarnation := by
      cases source with
      | found missing empty database => exact database ▸ Platform.Known.spoken (Or.inl rfl)
      | follow matched follows database => exact database ▸ holds.expected
      | bind matched definitions database named adopted => exact database ▸ holds.tables.spoken
    have files := Disk.All.written (m := { w.members with expected := content.database })
      holds.files known outcome
    cases outcome <;> exact ⟨known, holds.tables, files, holds.real⟩
  | expect stored => exact ⟨holds.files.content stored, holds.tables, holds.files, holds.real⟩
  | reject stored booted =>
    have named := Header.expect_incarnation holds.expected (holds.files _ (.inl stored))
    exact ⟨named, holds.tables, holds.files, holds.real⟩
  | load stored decoded expects valid fenced =>
    exact ⟨holds.expected, holds.tables, holds.files, holds.real⟩
  | adopt inode matched real named own renewed =>
    have later := holds.mono (Nat.le_succ _)
    exact ⟨later.expected, later.tables, later.files, later.real⟩
  | ensure able => exact holds

/-! ### Specifications -/

def law (c : Context ε) (K : Members → Registry → Prop) : Law (World σ ε) where
  Step := Move c K
  Inv w := Recorded c.platform w.members w.progress.nextId
  keeps := Move.recorded

/-- In context `c`, from a view with `A`, `x` makes moves to a view with `B` or `F`. -/
abbrev Conducts (c : Context ε) (K : Members → Registry → Prop) {α : Type} (A : View σ ε → Prop) (x : Process σ ε α)
    (B : α → View σ ε → Prop) (F : Failure → View σ ε → Prop) : Prop :=
  Spec c (law c K) (At A) x (fun a => At (B a)) (fun e => At (F e))

theorem Source.mono {P : Platform} {K K' : Members → Registry → Prop} {m : Members}
    {content : Registry} (sub : ∀ m content, K m content → K' m content)
    (h : Source P K m content) : Source P K' m content := by
  cases h with
  | found missing empty database operations unread =>
    exact .found missing empty database operations unread
  | follow matched follows database amends allowed =>
    exact .follow matched follows database amends (sub m content allowed)
  | bind matched definitions database named adopted older operations revision =>
    exact .bind matched definitions database named adopted older operations revision

theorem Move.mono {K K' : Members → Registry → Prop} {w v : World σ ε}
    (sub : ∀ m content, K m content → K' m content) (h : Move c K w v) : Move c K' w v := by
  cases h with
  | progress later => exact .progress later
  | steer steers => exact .steer steers
  | touch spoken past => exact .touch spoken past
  | place file nextInode real => exact .place file nextInode real
  | commit work other blank serves turns => exact .commit work other blank serves turns
  | create work fenced => exact .create work fenced
  | incarnate work blank => exact .incarnate work blank
  | sync => exact .sync
  | replay matched synced replays work => exact .replay matched synced replays work
  | write source outcome => exact .write (source.mono sub) outcome
  | expect stored => exact .expect stored
  | reject stored booted => exact .reject stored booted
  | load stored decoded expects valid fenced => exact .load stored decoded expects valid fenced
  | adopt inode matched real named own renewed => exact .adopt inode matched real named own renewed
  | ensure holds => exact .ensure holds

/-- A call may be allowed more than it needs. -/
theorem Conducts.mono {K K' : Members → Registry → Prop} {α : Type} {A : View σ ε → Prop}
    {x : Process σ ε α} {B : α → View σ ε → Prop} {F : Failure → View σ ε → Prop}
    (sub : ∀ m content, K m content → K' m content) (h : Conducts c K A x B F) :
    Conducts c K' A x B F := by
  intro w lawful holds
  obtain ⟨reaches, ends⟩ := h w lawful holds
  exact ⟨reaches.lift id fun _ _ move => Move.mono sub move, ends⟩

section
variable {c : Context ε} {K : Members → Registry → Prop} {α : Type} {A B : View σ ε → Prop}
  {F : Failure → View σ ε → Prop}

theorem query_spec (x : Query σ ε α) :
    Conducts c K A (query x) (fun a v => (∃ lo hi, Returns c lo x a hi) ∧ A v) fun _ => A := by
  intro w _ holds
  have later := x.grows c w.progress
  have view := World.view_at later
  refine ⟨.single (.progress later), ?_⟩
  rw [query_run]
  rcases run : x.run c w.progress with ⟨e | a, q⟩
  · rw [run] at view
    exact .error (show A _ from view ▸ holds)
  · rw [run] at view
    exact .ok ⟨⟨w.progress, q, w.progress, q, le_refl _, run, le_refl _⟩, view ▸ holds⟩

/-- A query whose result matters only to the code. -/
theorem query_idle (x : Query σ ε α) : Conducts c K A (query x) (fun _ => A) fun _ => A :=
  (query_spec x).weaken (fun _ holds => holds) (fun _ _ post => post.2) fun _ _ fail => fail

theorem fileOutcome_spec (reason : String) :
    Conducts c K A (fileOutcome reason) (fun _ => A) fun _ => A := by
  intro w _ holds
  refine ⟨.single (.progress (q := { w.progress with filed := w.progress.filed + 1 })
    ⟨le_refl _, le_refl _, le_refl _, .refl⟩), ?_⟩
  dsimp only [fileOutcome]
  split
  · exact .error holds
  · exact .ok holds

theorem members_spec : Conducts c K A members (fun m v => v.members = m ∧ A v) F :=
  fun _ _ holds => ⟨.refl, .ok ⟨rfl, holds⟩⟩

theorem steer_spec {f : Members → Members} (steers : ∀ m : Members, m.Steers (f m))
    (next : ∀ v, A v → B ⟨f v.members, v.record⟩) :
    Conducts c K A (setMembers f) (fun _ => B) F :=
  fun w _ holds => ⟨.single (.steer (steers w.members)), .ok (next w.view holds)⟩

/-- An error of the code itself, not of SQLite. -/
theorem failStorage_spec {C : α → View σ ε → Prop} {reason : String}
    (fails : ∀ e v, e.sqliteCode = none → A v → F e v) :
    Conducts c K A (failStorage reason) C F :=
  fun w _ holds => ⟨.refl, .error (fails _ w.view rfl holds)⟩

theorem requireStorage_spec {condition : Prop} [Decidable condition] {reason : String}
    (fails : ∀ e v, e.sqliteCode = none → A v → F e v) :
    Conducts c K A (requireStorage condition reason) (fun _ v => condition ∧ A v) F := by
  intro w _ holds
  by_cases h : condition
  · simp only [requireStorage, require, Act.require, h, if_true]
    exact ⟨.refl, .ok ⟨trivial, holds⟩⟩
  · simp only [requireStorage, require, Act.require, h, if_false]
    exact ⟨.refl, .error (fails _ w.view rfl holds)⟩

/-- The view after a commit. -/
def View.commit (v : View σ ε) (entry : Entry) : View σ ε :=
  ⟨{ v.members with tables := entry.after }, .commit entry :: v.record⟩

variable {w : World σ ε} {q : Progress σ ε}

theorem World.view_commit (later : w.progress ≤ q) (entry : Entry) :
    ((w.at q).commit entry).view = w.view.commit entry := by
  have record : (q.record : List (Moment σ ε)) = w.progress.record := Progress.record_eq later
  simp only [World.view, View.commit, World.commit, Progress.record, World.at, List.filter_cons,
    Moment.own, if_true] at record ⊢
  rw [record]

theorem World.view_unfence (later : w.progress ≤ q) (entry : Entry) :
    ((w.at q).commit entry).unfence.view =
      ⟨{ w.members with tables := entry.after, fenced := false }, .commit entry :: w.progress.record⟩ :=
  congrArg (fun v : View σ ε => (⟨{ v.members with fenced := false }, v.record⟩ : View σ ε))
    (World.view_commit later entry)

theorem World.view_turned (later : w.progress ≤ q) (entry : Entry) (due : Nat) :
    (((w.at q).commit entry).turned due).view =
      ⟨{ w.members with tables := entry.after, maintenanceClass := due },
        .commit entry :: w.progress.record⟩ :=
  congrArg (fun v : View σ ε => (⟨{ v.members with maintenanceClass := due }, v.record⟩ : View σ ε))
    (World.view_commit later entry)

/-- A transaction that is no batch of the compaction. -/
theorem Move.plain {call : Call} {outcome : Outcome}
    (work : Returns c w.progress (call.work w.members.tables) outcome q)
    (other : call.projects = false ∧ call ≠ .incarnate ∧ call.compacts = false)
    (serves : call = .recover ∨ call = .resetRuntime ∨ serving w.progress.record = true) :
    Move c K w ((w.at q).commit (entryOf c call w.members.tables outcome w.progress q)) :=
  .commit work other.1 other.2.1 serves (.other other.2.2)

/-- A plain transaction leaves the view as it is or commits its work. -/
theorem performPlain_spec {call : Call} {B : Outcome → View σ ε → Prop}
    (move : ∀ {w : World σ ε} {outcome : Outcome} {q : Progress σ ε}, A w.view →
      Returns c w.progress (call.work w.members.tables) outcome q →
      Move c K w ((w.at q).commit (entryOf c call w.members.tables outcome w.progress q)))
    (next : ∀ {w : World σ ε} {outcome : Outcome} {q : Progress σ ε},
      Recorded c.platform w.members w.progress.nextId → A w.view →
      Returns c w.progress (call.work w.members.tables) outcome q →
      B outcome (w.view.commit (entryOf c call w.members.tables outcome w.progress q))) :
    Conducts c K A (performPlain call) B fun _ => A := by
  intro w lawful holds
  have exit := performPlain_exit (c := c) call w
  rcases run : (performPlain call).run c w with ⟨result, v⟩
  rw [run] at exit
  cases exit with
  | failed later =>
    exact ⟨.single (.progress later), .error (show A _ from World.view_at later ▸ holds)⟩
  | @committed outcome q work =>
    refine ⟨.single (move holds work), .ok ?_⟩
    have view := World.view_commit work.le (entryOf c call w.members.tables outcome w.progress q)
    exact show B outcome _ from view ▸ next lawful holds work

end

end Consent.Repository
