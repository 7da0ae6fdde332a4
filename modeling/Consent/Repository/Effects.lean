import Consent.Library.Act
import Consent.Profile.State
import Consent.Repository.Database

/-!
What the repository takes from outside: clock readings, random ids, the digest,
installation authorities, SQLite outcomes and the moves of the other threads.

Every `Now()` takes the next reading of an arbitrary sequence, so no relation
between two readings is assumed. `Id()` never repeats and is never empty. Before
each access to the shared profile state any number of events of the other threads
takes place. A statement that fails inside a transaction has the effect of a failing
`BEGIN`, so outcomes are taken at `BEGIN`, at `COMMIT` and at statements outside a
transaction. Allocation failure is not modelled.

`Progress` also keeps the history of the run. No code reads it; it is what theorems
about runs speak of.
-/
namespace Consent.Repository
open Profile

/-- `Id()`: 24 octets of `/dev/urandom` in hexadecimal. No id is issued twice; `number` is
its place in the order, which no code asks for. -/
structure IdSource where
  id : Nat → String
  number : String → Option Nat
  numbered : ∀ text n, number text = some n ↔ id n = text
  nonempty : ∀ n, id n ≠ ""
  hexadecimal : ∀ n, ∀ c ∈ (id n).toList, asciiAlnum c = true

theorem IdSource.injective (ids : IdSource) : Function.Injective ids.id := by
  intro n k same
  have first := (ids.numbered _ n).mpr same
  rw [(ids.numbered _ k).mpr rfl] at first
  exact (Option.some.inj first).symm

/-- `hash` is `Hash()`, SHA-256 in hexadecimal. -/
structure Platform where
  ids : IdSource
  hash : String → String
  digest : ∀ text, hash text ≠ ""

/-- The id is one of those issued from number `lo` up to number `hi`. -/
def Platform.Drawn (p : Platform) (lo hi : Nat) (id : String) : Prop :=
  ∃ n, lo ≤ n ∧ n < hi ∧ id = p.ids.id n

theorem Platform.Drawn.mono {p : Platform} {lo hi lo' hi' : Nat} {id : String}
    (h : p.Drawn lo hi id) (low : lo' ≤ lo) (high : hi ≤ hi') : p.Drawn lo' hi' id := by
  obtain ⟨n, above, below, same⟩ := h
  exact ⟨n, le_trans low above, lt_of_lt_of_le below high, same⟩

/-- Ids issued one after the other differ. -/
theorem Platform.Drawn.ne {p : Platform} {lo hi lo' hi' : Nat} {id id' : String}
    (h : p.Drawn lo hi id) (h' : p.Drawn lo' hi' id') (after : hi ≤ lo') : id ≠ id' := by
  obtain ⟨n, _, below, rfl⟩ := h
  obtain ⟨m, above, _, rfl⟩ := h'
  intro same
  have := p.ids.injective same
  omega

/-- The first id was issued before the second. -/
def Platform.Older (p : Platform) (id id' : String) : Prop :=
  ∃ n k, n < k ∧ id = p.ids.id n ∧ id' = p.ids.id k

/-- The text is no id that is still to be issued, if `n` is the next. -/
def Platform.Spoken (p : Platform) (n : Nat) (text : String) : Prop :=
  ∀ k, p.ids.id k = text → k < n

instance (p : Platform) (id id' : String) : Decidable (p.Older id id') :=
  decidable_of_iff (∃ n ∈ p.ids.number id, ∃ k ∈ p.ids.number id', n < k) <| by
    simp only [Option.mem_def, p.ids.numbered, Platform.Older]
    constructor
    · rintro ⟨n, rfl, k, rfl, below⟩
      exact ⟨n, k, below, rfl, rfl⟩
    · rintro ⟨n, k, below, rfl, rfl⟩
      exact ⟨n, rfl, k, rfl, below⟩

/-- The text is no id that is younger than the epoch. -/
def Platform.Past (p : Platform) (epoch text : String) : Prop := ¬ p.Older epoch text

instance (p : Platform) (epoch text : String) : Decidable (p.Past epoch text) :=
  inferInstanceAs (Decidable (¬ _))

instance (p : Platform) (n : Nat) (text : String) : Decidable (p.Spoken n text) :=
  decidable_of_iff (∀ k ∈ p.ids.number text, k < n) <| by
    simp only [Option.mem_def, p.ids.numbered, Platform.Spoken]

/-- How far the write of a registry file got. -/
inductive WriteOutcome where
  | failed | renamed | durable
  deriving DecidableEq, Repr

/-- A database as a registry names it: `db_device`, `db_inode` and `db_incarnation`. The
inode 0 and an empty incarnation mean that none has been recorded. -/
structure DatabaseId where
  device : Nat
  inode : Nat
  incarnation : String
  deriving DecidableEq, Repr

def DatabaseId.none : DatabaseId := ⟨0, 0, ""⟩

/-- What `ReadRegistry` takes over from a file before it compares the checksum: nothing, the
device (if the inode cannot be parsed), or the database. -/
inductive Header where
  | unread
  | device (number : Nat)
  | whole (database : DatabaseId)

/-- The expected database after a header was read. -/
def Header.expect (expected : DatabaseId) : Header → DatabaseId
  | .unread => expected
  | .device number => { expected with device := number }
  | .whole database => database

def Header.incarnation : Header → String
  | .whole database => database.incarnation
  | _ => ""

/-- How a registry file is rejected. -/
structure Rejection where
  header : Header
  status : Status
  reason : String

/-- What other programs do to the two storage files. A replaced registry keeps the
identity of the database it belongs to; a restored one is the file that was taken away or
replaced last, and it is the same file as before. -/
inductive DiskEvent where
  | databaseRemoved
  | databaseReplaced (inode : Nat)
  | databaseTruncated
  | databaseDamaged
  | registryRemoved
  | registryDamaged (rejection : Rejection)
  | registryReplaced (definitions : Std.ExtTreeMap String Message compare) (operations : Message)
      (revision : Int)
  | registryRestored

/-- The incarnation that the event brings into a file. -/
def DiskEvent.incarnation : DiskEvent → String
  | .registryDamaged rejection => rejection.header.incarnation
  | _ => ""

/-- The answers one operation receives, in the order in which it asks. -/
structure Environment (ε : Type) where
  now : Nat → Int
  validator : Nat → String → String → String → Bool
  packageValidator : Nat → String → String → Bool
  offlineValidator : Option (Nat → String → String → String → Int)
  fault : Nat → Option SqliteCode
  events : Nat → List ε
  disk : Nat → List DiskEvent
  fileFault : Nat → Bool
  registryWrite : Nat → WriteOutcome

structure Context (ε : Type) where
  platform : Platform
  environment : Environment ε

/-- `Peer` of `consentd/identity.hh`; sets of names are lists here. -/
structure Peer where
  identity : String
  «instance» : String
  roles : List String
  subjects : List String
  profiles : List String
  enforcers : List String
  packages : List String
  deriving DecidableEq, Repr

abbrev Definitions := Std.ExtTreeMap String Message compare

/-- The transactions of the repository, with what they were given. -/
inductive Call where
  | create
  | incarnate
  | recover
  | replay (definitions : Definitions) (revision : Int) (offline : Bool)
  | resetRuntime
  | expire
  | fenceProfiles (bindings : List Binding) (retireGrants : Bool) (removedUser : String)
  | compensate (grants : List String) (request : String)
  | session (peer : Peer) (request : Message)
  | evaluate (peer : Peer) (request : Message) (create : Bool)
  | prompt (peer : Peer) (request : Message) (respond : Bool)
  | result (peer : Peer) (request : Message) (cancel : Bool) (generation : Nat)
  | revoke (peer : Peer) (request : Message)
  | data (peer : Peer) (request : Message) (incarnation : String)
  | compact (first : Nat)

/-- How many ids were issued, how many clock readings were taken and how often the
installation authority was asked. -/
structure Mark where
  ids : Nat
  readings : Nat
  answers : Nat

/-- What a piece of work drew on: the platform, the clock, the installation authority,
and the marks before and after it. -/
structure Frame where
  platform : Platform
  clock : Nat → Int
  validator : Nat → String → String → String → Bool
  offlineValidator : Option (Nat → String → String → String → Int)
  start : Mark
  finish : Mark

/-- The id was issued in the frame. -/
def Frame.Fresh (f : Frame) (id : String) : Prop :=
  f.platform.Drawn f.start.ids f.finish.ids id

/-- The time was read in the frame. -/
def Frame.Read (f : Frame) (time : Int) : Prop :=
  ∃ n, f.start.readings ≤ n ∧ n < f.finish.readings ∧ time = f.clock n

/-- Question number `n` was put to the installation authority in the frame. -/
def Frame.Asks (f : Frame) (n : Nat) : Prop := f.start.answers ≤ n ∧ n < f.finish.answers

/-- A committed transaction and the frame of its work. -/
structure Entry where
  call : Call
  before : Database
  after : Database
  reply : Message
  frame : Frame

/-- The decoded registry and the database that it names. -/
structure Registry where
  definitions : Definitions
  operations : Message
  revision : Int
  database : DatabaseId

/-- What is in force when `Ensure`, or `Open` if `opening`, returns normally: the registry
file on disk, whether its rename is durable, and the open database. -/
structure Ensured where
  opening : Bool
  epoch : String
  tables : Database
  registry : Option Registry
  durable : Bool
  database : DatabaseId

/-- What happens to the storage: a process is started, other programs touch the files, a
registry is rejected by a process that expects a database, a registry is written over the
`old` one, or the storage is found to be in order. -/
inductive StorageEvent where
  | started
  | touched (events : List DiskEvent)
  | rejected (initial : Bool) (expected : DatabaseId) (header : Header)
  | wrote (old : Option Registry) (content : Registry) (outcome : WriteOutcome)
  | ensured (state : Ensured)

/-- What happens in a run, in the order in which it happens. -/
inductive Moment (σ ε : Type) where
  | host (event : ε) (after : σ)
  | generation (value : Nat)
  | commit (entry : Entry)
  | storage (event : StorageEvent)

/-- The transaction a moment records. -/
def Moment.entry? {σ ε : Type} : Moment σ ε → Option Entry
  | .commit entry => some entry
  | _ => none

/-- What an operation consumes, and the history so far, latest moment first. -/
structure Progress (σ ε : Type) where
  main : σ
  nextId : Nat
  clock : Nat
  validated : Nat
  faulted : Nat
  noticed : Nat
  looked : Nat
  filed : Nat
  written : Nat
  history : List (Moment σ ε)

/-- The committed transactions, latest first. -/
def Progress.commits {σ ε : Type} (s : Progress σ ε) : List Entry :=
  s.history.filterMap Moment.entry?

variable {σ ε : Type} [Host σ ε]

def Progress.mark (s : Progress σ ε) : Mark := ⟨s.nextId, s.clock, s.validated⟩

/-- The frame of work done in a context between two states. -/
def frame (c : Context ε) (lo hi : Progress σ ε) : Frame :=
  ⟨c.platform, c.environment.now, c.environment.validator, c.environment.offlineValidator,
    lo.mark, hi.mark⟩

/-- The state of the other threads and the history. -/
abbrev Live (σ ε : Type) := σ × List (Moment σ ε)

def Progress.live (s : Progress σ ε) : Live σ ε := (s.main, s.history)

/-- What extends the history: the other threads move, their generation is read, or,
where `commits` allows it, a transaction is committed or something happens to the
storage. -/
inductive Turn (commits : Prop) : Live σ ε → Live σ ε → Prop where
  | host (event : ε) (main : σ) (history : List (Moment σ ε)) :
      Turn commits (main, history)
        (Host.step event main, .host event (Host.step event main) :: history)
  | generation (main : σ) (history : List (Moment σ ε)) :
      Turn commits (main, history)
        (main, .generation (Host.profiles main).generation :: history)
  | commit (allowed : commits) (entry : Entry) (main : σ) (history : List (Moment σ ε)) :
      Turn commits (main, history) (main, .commit entry :: history)
  | storage (allowed : commits) (event : StorageEvent) (main : σ) (history : List (Moment σ ε)) :
      Turn commits (main, history) (main, .storage event :: history)

/-- The order in which one operation moves through its progress. -/
structure Progress.Ahead (commits : Prop) (s t : Progress σ ε) : Prop where
  ids : s.nextId ≤ t.nextId
  readings : s.clock ≤ t.clock
  answers : s.validated ≤ t.validated
  turns : Relation.ReflTransGen (Turn commits) s.live t.live

theorem Progress.Ahead.refl {commits : Prop} (s : Progress σ ε) : s.Ahead commits s :=
  ⟨le_refl _, le_refl _, le_refl _, .refl⟩

theorem Progress.Ahead.trans {commits : Prop} {s t u : Progress σ ε} (h : s.Ahead commits t)
    (k : t.Ahead commits u) : s.Ahead commits u :=
  ⟨le_trans h.ids k.ids, le_trans h.readings k.readings, le_trans h.answers k.answers,
    h.turns.trans k.turns⟩

/-- Work before a commit commits nothing. -/
instance : Preorder (Progress σ ε) where
  le := Progress.Ahead False
  le_refl := Progress.Ahead.refl
  le_trans _ _ _ := Progress.Ahead.trans

/-- What every turn keeps, an operation keeps. -/
theorem Progress.Ahead.keeps {commits : Prop} {s t : Progress σ ε} {I : Live σ ε → Prop}
    (turn : ∀ {l l'}, Turn commits l l' → I l → I l') (h : s.Ahead commits t)
    (start : I s.live) : I t.live := by
  have every : ∀ l, Relation.ReflTransGen (Turn commits) s.live l → I l := by
    intro l turns
    induction turns with
    | refl => exact start
    | tail _ last ih => exact turn last ih
  exact every t.live h.turns

theorem Progress.Ahead.mono {commits : Prop} {s t : Progress σ ε} (h : s.Ahead False t) :
    s.Ahead commits t := by
  refine ⟨h.ids, h.readings, h.answers, ?_⟩
  refine h.keeps (I := fun l => Relation.ReflTransGen (Turn commits) s.live l)
    (fun turn before => before.tail ?_) .refl
  cases turn with
  | host event main history => exact .host event main history
  | generation main history => exact .generation main history
  | commit allowed entry main history => exact allowed.elim
  | storage allowed event main history => exact allowed.elim

theorem Progress.Ahead.generation {commits : Prop} {s t : Progress σ ε} (h : s.Ahead commits t) :
    (Host.profiles s.main).generation ≤ (Host.profiles t.main).generation := by
  refine h.keeps (I := fun l => (Host.profiles s.main).generation ≤
    (Host.profiles l.1).generation) (fun turn grown => ?_) (le_refl _)
  cases turn with
  | host event main history => exact le_trans grown (Host.grows event main)
  | generation main history => exact grown
  | commit allowed entry main history => exact grown
  | storage allowed event main history => exact grown

theorem Progress.Ahead.enabled {commits : Prop} {s t : Progress σ ε} (h : s.Ahead commits t) :
    (Host.profiles t.main).enabled = (Host.profiles s.main).enabled := by
  refine h.keeps (I := fun l => (Host.profiles l.1).enabled = (Host.profiles s.main).enabled)
    (fun turn same => ?_) rfl
  cases turn with
  | host event main history => exact (Host.enabled event main).trans same
  | generation main history => exact same
  | commit allowed entry main history => exact same
  | storage allowed event main history => exact same

theorem Progress.commits_eq {s t : Progress σ ε} (h : s ≤ t) : t.commits = s.commits := by
  have ahead : s.Ahead False t := h
  refine ahead.keeps (I := fun l => l.2.filterMap Moment.entry? = s.commits)
    (fun turn same => ?_) rfl
  cases turn with
  | host event main history => exact same
  | generation main history => exact same
  | commit allowed entry main history => exact allowed.elim
  | storage allowed event main history => exact allowed.elim

/-- A computation inside one operation. Tables are passed explicitly, so a failed
computation has changed none. -/
abbrev Query (σ ε : Type) [Host σ ε] := Act (Context ε) (Progress σ ε) Failure

def fail {α : Type} (status : Status) (reason : String) : Query σ ε α :=
  throw ⟨status, reason, none⟩

def require (condition : Prop) [Decidable condition] (status : Status) (reason : String) :
    Query σ ε Unit :=
  Act.require condition ⟨status, reason, none⟩

/-- A check of `common/` whose text becomes the reason. -/
def checked {α : Type} (status : Status) : Except String α → Query σ ε α
  | .ok value => pure value
  | .error reason => fail status reason

def now : Query σ ε Int where
  run c s := (.ok (c.environment.now s.clock), { s with clock := s.clock + 1 })
  grows _ s := { Progress.Ahead.refl s with readings := Nat.le_succ s.clock }

def freshId : Query σ ε String where
  run c s := (.ok (c.platform.ids.id s.nextId), { s with nextId := s.nextId + 1 })
  grows _ s := { Progress.Ahead.refl s with ids := Nat.le_succ s.nextId }

def hash (value : String) : Query σ ε String where
  run c s := (.ok (c.platform.hash value), s)
  grows _ _ := le_refl _

/-- `validator_ && validator_(package, app, identity)`. -/
def validator (package app identity : String) : Query σ ε Bool where
  run c s := (.ok (c.environment.validator s.validated package app identity),
    { s with validated := s.validated + 1 })
  grows _ s := { Progress.Ahead.refl s with answers := Nat.le_succ s.validated }

/-- The installation authority is asked about a definition. -/
def installed (definition : Message) : Query σ ε Bool :=
  validator (definition.get "package") (definition.get "app") (definition.get "_install_identity")

def packageValidator (package generation : String) : Query σ ε Bool where
  run c s := (.ok (c.environment.packageValidator s.validated package generation),
    { s with validated := s.validated + 1 })
  grows _ s := { Progress.Ahead.refl s with answers := Nat.le_succ s.validated }

def sqlFailure (code : SqliteCode) : Failure :=
  ⟨if code = .busy then .ebusy else .storage, "SQL failed", some code⟩

/-- SQLite answers a `BEGIN`, a `COMMIT` or a statement outside a transaction. -/
def sqlOutcome : Query σ ε Unit where
  run c s := (match c.environment.fault s.faulted with
      | some code => .error (sqlFailure code)
      | none => .ok (), { s with faulted := s.faulted + 1 })
  grows _ s := { Progress.Ahead.refl s with }

/-- One event of the other threads. -/
def Progress.notice (s : Progress σ ε) (event : ε) : Progress σ ε :=
  { s with
    main := Host.step event s.main
    history := .host event (Host.step event s.main) :: s.history }

theorem Progress.le_notice (s : Progress σ ε) (event : ε) : s ≤ s.notice event :=
  ⟨le_refl _, le_refl _, le_refl _, .single (.host event s.main s.history)⟩

def Progress.noticeAll (s : Progress σ ε) (events : List ε) : Progress σ ε :=
  events.foldl Progress.notice s

theorem Progress.le_noticeAll (s : Progress σ ε) (events : List ε) : s ≤ s.noticeAll events := by
  induction events generalizing s with
  | nil => exact le_refl s
  | cons event rest ih => exact le_trans (s.le_notice event) (ih (s.notice event))

/-- The other threads move. -/
def yield : Query σ ε Unit where
  run c s := (.ok (), { s.noticeAll (c.environment.events s.noticed) with noticed := s.noticed + 1 })
  grows c s := { s.le_noticeAll (c.environment.events s.noticed) with }

def currentProfiles : Query σ ε ProfileState where
  run _ s := (.ok (Host.profiles s.main), s)
  grows _ _ := le_refl _

/-- The shared profile state, read under its lock at some later point. -/
def profiles : Query σ ε ProfileState := do
  yield
  currentProfiles

/-- `profiles_->Generation()`; the value read becomes part of the history. -/
def profileGeneration : Query σ ε Nat := do
  yield
  ⟨fun _ s => (.ok (Host.profiles s.main).generation,
      { s with history := .generation (Host.profiles s.main).generation :: s.history }),
    fun _ s => ⟨le_refl _, le_refl _, le_refl _, .single (.generation s.main s.history)⟩⟩

/-! ### Checks shared by the operations -/

def member (values : List String) (value : String) : Bool :=
  values.contains value || values.contains "*"

def role (peer : Peer) (name : String) : Bool := peer.roles.contains name

def identifier (value : String) : Bool := Registration.identifier value

/-- `Context`: the caller may act for the subject and profile of a message. -/
def checkContext (peer : Peer) (request : Message) : Query σ ε Unit := do
  require (identifier (request.get "subject") ∧ identifier (request.get "profile"))
    .einval "subject and profile required"
  require (member peer.subjects (request.get "subject") ∧
      member peer.profiles (request.get "profile"))
    .eacces "subject or profile delegation denied"

def activeContext (request : Message) : Query σ ε Unit := do
  let state ← profiles
  match state.check (request.get "subject") (request.get "profile") with
  | none => pure ()
  | some status => fail status "active profile authority denied"

/-! ### What the primitives return -/

section
open Act

variable {c : Context ε} {lo hi : Progress σ ε}

theorem now_returns {time : Int} (h : Returns c lo now time hi) :
    (frame c lo hi).Read time := by
  obtain ⟨s, t, below, run, above⟩ := h
  cases run
  exact ⟨s.clock, below.readings, above.readings, rfl⟩

theorem freshId_returns {id : String} (h : Returns c lo freshId id hi) :
    (frame c lo hi).Fresh id := by
  obtain ⟨s, t, below, run, above⟩ := h
  cases run
  exact ⟨s.nextId, below.ids, above.ids, rfl⟩

theorem validator_returns {package app identity : String} {answer : Bool}
    (h : Returns c lo (validator package app identity) answer hi) :
    ∃ n, (frame c lo hi).Asks n ∧ c.environment.validator n package app identity = answer := by
  obtain ⟨s, t, below, run, above⟩ := h
  cases run
  exact ⟨s.validated, ⟨below.answers, above.answers⟩, rfl⟩

theorem hash_returns {value digest : String} (h : Returns c lo (hash value) digest hi) :
    digest = c.platform.hash value := by
  obtain ⟨s, t, below, run, above⟩ := h
  cases run
  rfl

theorem checked_returns {α : Type} {status : Status} {x : Except String α} {a : α}
    (h : Returns c lo (checked status x) a hi) : x = .ok a := by
  cases x with
  | error reason => exact absurd h not_returns_throw
  | ok value => rw [Returns.of_pure h]

theorem not_returns_fail {α : Type} {status : Status} {reason : String} {a : α} :
    ¬ Returns c lo (fail status reason) a hi := not_returns_throw

end

end Consent.Repository
