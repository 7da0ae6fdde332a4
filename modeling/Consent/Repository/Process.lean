import Consent.Repository.Maintenance

/-!
The running repository: the members of `Repository::Impl`, the two storage files and
the code that opens, checks and rewrites them. Tables change only through `perform`
and `performPlain`, which record each committed transaction in the history.

The database file is known by an inode number; its tables are kept apart from it, so
that the open handle still reaches them after another program has unlinked the file.
Inspections of directories, sidecar files and modes that can fail are represented by
`fileOutcome`.
-/
namespace Consent.Repository
open Profile

variable {σ ε : Type} [Host σ ε]

/-- What the file at the database path holds. `live` are the tables of the
repository, `foreign` a database with another incarnation. -/
inductive FileContent where
  | empty | truncated | damaged | live | foreign
  deriving DecidableEq, Repr

structure DatabaseFile where
  inode : Nat
  content : FileContent
  deriving DecidableEq, Repr

/-- `stamp` stands for the inode, size and modification time; `text` is what becomes of the
file when it is read. -/
structure RegistryFile where
  stamp : Nat
  text : Except Rejection Registry

/-- A file that does not decode, or whose checksum is wrong, has no content. -/
def RegistryFile.content (file : RegistryFile) : Option Registry :=
  match file.text with
  | .ok content => some content
  | .error _ => none

def RegistryFile.header (file : RegistryFile) : Header :=
  match file.text with
  | .ok content => .whole content.database
  | .error rejection => rejection.header

/-- `durable` is the registry file that is found when the machine goes down now: a rename
survives only once the directory has been synced. `aside` is the registry file that another
program has taken away since ours was written. -/
structure Disk where
  device : Nat
  database : Option DatabaseFile
  registry : Option RegistryFile
  durable : Option RegistryFile
  aside : Option RegistryFile
  nextInode : Nat
  nextStamp : Nat

def Disk.putRegistry (disk : Disk) (text : Except Rejection Registry) : Disk :=
  { disk with registry := some ⟨disk.nextStamp, text⟩, nextStamp := disk.nextStamp + 1 }

/-- A registry of our own is renamed over what is there. -/
def Disk.renameRegistry (disk : Disk) (content : Registry) : Disk :=
  { disk.putRegistry (.ok content) with aside := none }

/-- The registry directory is synced. -/
def Disk.sync (disk : Disk) : Disk := { disk with durable := disk.registry }

/-- The machine goes down. -/
def Disk.powerLoss (disk : Disk) : Disk := { disk with registry := disk.durable }

/-- The content of the registry file. -/
def Disk.content (disk : Disk) : Option Registry := disk.registry.bind (·.content)

def Disk.putContent (disk : Disk) (content : FileContent) : Disk :=
  { disk with database := disk.database.map fun file => { file with content } }

/-- Before another program puts something else into place, it keeps the file that is there,
if it is a good one. -/
def Disk.setAside (disk : Disk) : Disk :=
  { disk with aside := if disk.content.isSome then disk.registry else disk.aside }

/-- Another database can be mistaken for ours only while no registry names ours. No file
has the inode 0. What other programs do to the registry is durable. -/
def Disk.apply (disk : Disk) : DiskEvent → Disk
  | .databaseRemoved => { disk with database := none }
  | .databaseReplaced inode =>
    match disk.content with
    | some content =>
      if content.database.inode = 0 ∨ inode = 0 then disk
      else { disk with database := some ⟨inode, .foreign⟩ }
    | none => disk
  | .databaseTruncated => disk.putContent .truncated
  | .databaseDamaged => disk.putContent .damaged
  | .registryRemoved => { disk.setAside with registry := none, durable := none }
  | .registryDamaged rejection => (disk.setAside.putRegistry (.error rejection)).sync
  | .registryReplaced definitions operations revision =>
    match disk.setAside.aside.bind (·.content) with
    | some content =>
      (disk.setAside.putRegistry (.ok { content with definitions, operations, revision })).sync
    | none => disk
  | .registryRestored =>
    match disk.aside with
    | some file => { disk with registry := some file, aside := none }.sync
    | none => disk

/-- The members of `Repository::Impl`, the storage files and the tables. -/
structure Members where
  handle : Bool
  dbIdentity : Nat
  registryIdentity : Nat
  epoch : String
  registryRevision : Int
  fenced : Bool
  cleanupUnknown : Bool
  offlineImport : Bool
  corrupt : Bool
  maintenanceDue : Int
  maintenanceClass : Nat
  expected : DatabaseId
  definitions : Definitions
  operations : Message
  compensationFailed : Bool
  operationGeneration : Nat
  disk : Disk
  tables : Database

/-- A new `Impl` over the storage that is found. -/
def Members.boot (disk : Disk) (tables : Database) : Members where
  handle := false
  dbIdentity := 0
  registryIdentity := 0
  epoch := ""
  registryRevision := 0
  fenced := false
  cleanupUnknown := false
  offlineImport := false
  corrupt := false
  maintenanceDue := 0
  maintenanceClass := 0
  expected := .none
  definitions := ∅
  operations := ∅
  compensationFailed := false
  operationGeneration := 0
  disk := disk
  tables := tables

structure World (σ ε : Type) where
  members : Members
  progress : Progress σ ε

instance : Preorder (World σ ε) where
  le w v := w.progress.Ahead True v.progress
  le_refl w := Progress.Ahead.refl w.progress
  le_trans _ _ _ h k := h.trans k

abbrev Process (σ ε : Type) [Host σ ε] := Act (Context ε) (World σ ε) Failure

/-! ### Primitives -/

/-- A query sees the tables only as an argument and changes no member. -/
def query {α : Type} (x : Query σ ε α) : Process σ ε α where
  run c w := ((x.run c w.progress).1, { w with progress := (x.run c w.progress).2 })
  grows c w := (x.grows c w.progress).mono

def members : Process σ ε Members where
  run _ w := (.ok w.members, w)
  grows _ _ := le_refl _

def setMembers (f : Members → Members) : Process σ ε Unit where
  run _ w := (.ok (), { w with members := f w.members })
  grows _ w := Progress.Ahead.refl w.progress

def mark : Query σ ε Mark where
  run _ s := (.ok s.mark, s)
  grows _ s := Progress.Ahead.refl s

/-- A committed transaction replaces the tables and enters the history. -/
def World.commit (w : World σ ε) (entry : Entry) : World σ ε where
  members := { w.members with tables := entry.after }
  progress := { w.progress with history := .commit entry :: w.progress.history }

def record (call : Call) (before : Database) (start : Mark) (outcome : Outcome) :
    Process σ ε Unit where
  run c w := (.ok (), w.commit ⟨call, before, outcome.tables, outcome.reply,
    ⟨c.platform, c.environment.now, c.environment.validator, c.environment.offlineValidator,
      start, w.progress.mark⟩⟩)
  grows _ w := ⟨le_refl _, le_refl _, le_refl _, .single (.commit trivial _ w.progress.main w.progress.history)⟩

/-- Something happened to the storage. -/
def World.note (w : World σ ε) (event : StorageEvent) : World σ ε :=
  { w with progress := { w.progress with history := .storage event :: w.progress.history } }

theorem World.le_note (w : World σ ε) (event : StorageEvent) : w ≤ w.note event :=
  ⟨le_refl _, le_refl _, le_refl _, .single (.storage trivial event w.progress.main w.progress.history)⟩

def note (event : StorageEvent) : Process σ ε Unit where
  run _ w := (.ok (), w.note event)
  grows _ w := w.le_note event

/-- The files were touched before an inspection. -/
def World.touch (w : World σ ε) (events : List DiskEvent) : World σ ε :=
  { members := { w.members with disk := events.foldl Disk.apply w.members.disk }
    progress := { w.progress with
      looked := w.progress.looked + 1
      history := .storage (.touched events) :: w.progress.history } }

/-- Other programs may have touched the files before each inspection. They know ids from
registry files: none that is still to be issued, and none that was issued after the epoch
began and that no registry names yet. -/
def look : Process σ ε Unit where
  run c w := (.ok (), w.touch ((c.environment.disk w.progress.looked).filter fun event =>
    c.platform.Spoken w.progress.nextId event.incarnation ∧
      c.platform.Past w.members.epoch event.incarnation))
  grows _ w := ⟨le_refl _, le_refl _, le_refl _, .single (.storage trivial _ w.progress.main w.progress.history)⟩

def fileOutcome (reason : String) : Process σ ε Unit where
  run c w := (if c.environment.fileFault w.progress.filed then .error ⟨.storage, reason, none⟩
      else .ok (),
    { w with progress := { w.progress with filed := w.progress.filed + 1 } })
  grows _ w := { Progress.Ahead.refl w.progress with }

def writeOutcome : Process σ ε WriteOutcome where
  run c w := (.ok (c.environment.registryWrite w.progress.written),
    { w with progress := { w.progress with written := w.progress.written + 1 } })
  grows _ w := { Progress.Ahead.refl w.progress with }

/-! ### Transactions -/

/-- A transaction that ends with `Commit`. -/
def performPlain (call : Call) : Process σ ε Outcome := do
  let start ← query mark
  let before := (← members).tables
  let outcome ← query (call.work before)
  query sqlOutcome
  record call before start outcome
  pure outcome

/-- What was approved is taken back in a second transaction. -/
def retireCommit (outcome : Outcome) : Process σ ε Unit := do
  tryCatch
    (do let _ ← performPlain (.compensate outcome.newGrants outcome.newRequest)
        pure ())
    (fun _ => do
      setMembers fun m => { m with compensationFailed := true, fenced := true }
      query (fail .storage "profile approval retirement failed"))
  query (fail .estale "profile changed during transaction commit")

/-- `ProfileCommit`. No lock spans the commit: a profile change that lands in it is
noticed afterwards. -/
def profileCommit (call : Call) (before : Database) (start : Mark) (outcome : Outcome) :
    Process σ ε Unit := do
  let authority ← query profiles
  if authority.enabled then
    let captured := (← members).operationGeneration
    let first ← query profileGeneration
    query (require (captured = first) .estale "profile changed before transaction commit")
    query sqlOutcome
    record call before start outcome
    let second ← query profileGeneration
    if captured = second then pure () else retireCommit outcome
  else
    query sqlOutcome
    record call before start outcome

/-- The commit that the operation asks for. -/
def conclude (call : Call) (before : Database) (start : Mark) (outcome : Outcome) :
    Process σ ε Message := do
  match outcome.commit with
  | .none => pure outcome.reply
  | .plain =>
    query sqlOutcome
    record call before start outcome
    pure outcome.reply
  | .profile =>
    profileCommit call before start outcome
    pure outcome.reply

def perform (call : Call) : Process σ ε Message := do
  let start ← query mark
  let before := (← members).tables
  let outcome ← query (call.work before)
  conclude call before start outcome

/-! ### How a transaction ends -/

section
open Act

variable {c : Context ε}

/-- The world after work that committed nothing. -/
def World.at (w : World σ ε) (s : Progress σ ε) : World σ ε := { w with progress := s }

omit [Host σ ε] in
@[simp] theorem World.at_progress (w : World σ ε) (s : Progress σ ε) : (w.at s).progress = s := rfl

omit [Host σ ε] in
@[simp] theorem World.at_members (w : World σ ε) (s : Progress σ ε) :
    (w.at s).members = w.members := rfl

omit [Host σ ε] in
@[simp] theorem World.at_at (w : World σ ε) (s t : Progress σ ε) : (w.at s).at t = w.at t := rfl

theorem query_run {α : Type} (x : Query σ ε α) (w : World σ ε) :
    (query x).run c w = ((x.run c w.progress).1, w.at (x.run c w.progress).2) := rfl

/-- A query that returns leaves the members alone. -/
theorem of_run_query {α : Type} {x : Query σ ε α} {w v : World σ ε} {a : α}
    (h : (query x).run c w = (.ok a, v)) :
    Returns c w.progress x a v.progress ∧ v.members = w.members := by
  rw [query_run] at h
  obtain ⟨value, rfl⟩ := Prod.mk.inj h
  exact ⟨⟨w.progress, _, le_refl _, Prod.ext value rfl, le_refl _⟩, rfl⟩

theorem run_query_bind {α β : Type} (x : Query σ ε α) (f : α → Process σ ε β) (w : World σ ε) :
    (query x >>= f).run c w =
      match x.run c w.progress with
      | (.ok a, q) => (f a).run c (w.at q)
      | (.error e, q) => (.error e, w.at q) := by
  rw [run_bind, query_run]
  rcases x.run c w.progress with ⟨e | a, q⟩ <;> rfl

theorem run_members_bind {α : Type} (f : Members → Process σ ε α) (w : World σ ε) :
    (members >>= f).run c w = (f w.members).run c w := rfl

/-- The entry of work done from one state to another. -/
def entryOf (c : Context ε) (call : Call) (before : Database) (outcome : Outcome)
    (lo hi : Progress σ ε) : Entry :=
  ⟨call, before, outcome.tables, outcome.reply, frame c lo hi⟩

/-- A plain transaction fails without a trace or commits its work. -/
inductive PlainExit (c : Context ε) (call : Call) (w : World σ ε) :
    Except Failure Outcome × World σ ε → Prop where
  | failed {e : Failure} {q : Progress σ ε} (later : w.progress ≤ q) :
      PlainExit c call w (.error e, w.at q)
  | committed {outcome : Outcome} {q : Progress σ ε}
      (work : Returns c w.progress (call.work w.members.tables) outcome q) :
      PlainExit c call w
        (.ok outcome, (w.at q).commit (entryOf c call w.members.tables outcome w.progress q))

theorem performPlain_exit (call : Call) (w : World σ ε) :
    PlainExit c call w ((performPlain call).run c w) := by
  have grown := (call.work w.members.tables).grows c w.progress
  rcases first : (call.work w.members.tables).run c w.progress with ⟨e | outcome, p⟩
  · rw [first] at grown
    have run : (performPlain call).run c w = (.error e, w.at p) := by
      simp [performPlain, run_bind, query_run, members, mark, first, World.at]
    rw [run]
    exact .failed grown
  · rw [first] at grown
    have again := (sqlOutcome : Query σ ε Unit).grows c p
    rcases second : (sqlOutcome : Query σ ε Unit).run c p with ⟨e | u, q⟩
    · rw [second] at again
      have run : (performPlain call).run c w = (.error e, w.at q) := by
        simp [performPlain, run_bind, query_run, members, mark, first, second, World.at]
      rw [run]
      exact .failed (le_trans grown again)
    · rw [second] at again
      have run : (performPlain call).run c w =
          (.ok outcome, (w.at q).commit (entryOf c call w.members.tables outcome w.progress q)) := by
        simp [performPlain, run_bind, query_run, members, mark, record, first, second, World.at,
          entryOf, frame]
      rw [run]
      exact .committed ⟨w.progress, p, le_refl _, first, again⟩

/-- How `ProfileCommit` ends: it refuses, it commits, or it takes a commit that raced with
a profile change back, which may fail as well. -/
inductive ProfileExit (c : Context ε) (call : Call) (before : Database) (start : Mark)
    (outcome : Outcome) (w : World σ ε) : Except Failure Unit × World σ ε → Prop where
  | refused {e : Failure} {q : Progress σ ε} (later : w.progress ≤ q) :
      ProfileExit c call before start outcome w (.error e, w.at q)
  | committed {q q' : Progress σ ε} {v : World σ ε} (later : w.progress ≤ q)
      (commits : (record call before start outcome).run c (w.at q) = (.ok (), v))
      (after : v.progress ≤ q')
      (same : (Host.profiles w.progress.main).enabled = true →
        q'.history.head? = some (.generation w.members.operationGeneration)) :
      ProfileExit c call before start outcome w (.ok (), v.at q')
  | retired {q q' : Progress σ ε} {v u : World σ ε} {o : Outcome} (later : w.progress ≤ q)
      (commits : (record call before start outcome).run c (w.at q) = (.ok (), v))
      (after : v.progress ≤ q')
      (compensated : PlainExit c (.compensate outcome.newGrants outcome.newRequest) (v.at q')
        (.ok o, u)) :
      ProfileExit c call before start outcome w
        (.error ⟨.estale, "profile changed during transaction commit", none⟩, u)
  | broken {q q' : Progress σ ε} {v u : World σ ε} {e : Failure} (later : w.progress ≤ q)
      (commits : (record call before start outcome).run c (w.at q) = (.ok (), v))
      (after : v.progress ≤ q')
      (failed : PlainExit c (.compensate outcome.newGrants outcome.newRequest) (v.at q')
        (.error e, u)) :
      ProfileExit c call before start outcome w
        (.error ⟨.storage, "profile approval retirement failed", none⟩,
          { u with members := { u.members with compensationFailed := true, fenced := true } })

theorem profiles_run (s : Progress σ ε) :
    ∃ t, s ≤ t ∧ (profiles : Query σ ε ProfileState).run c s = (.ok (Host.profiles t.main), t) :=
  ⟨((yield : Query σ ε Unit).run c s).2, (yield : Query σ ε Unit).grows c s, rfl⟩

theorem profileGeneration_run (s : Progress σ ε) :
    ∃ t, s ≤ t ∧ (Host.profiles s.main).generation ≤ (Host.profiles t.main).generation ∧
      t.history.head? = some (.generation (Host.profiles t.main).generation) ∧
      (profileGeneration : Query σ ε Nat).run c s = (.ok (Host.profiles t.main).generation, t) :=
  have grown := (profileGeneration : Query σ ε Nat).grows c s
  ⟨((profileGeneration : Query σ ε Nat).run c s).2, grown, grown.generation, rfl, rfl⟩

theorem retireCommit_exit {call : Call} {before : Database} {start : Mark} {outcome : Outcome}
    {w v : World σ ε} {q q' : Progress σ ε} (later : w.progress ≤ q)
    (commits : (record call before start outcome).run c (w.at q) = (.ok (), v))
    (after : v.progress ≤ q') :
    ProfileExit c call before start outcome w ((retireCommit outcome).run c (v.at q')) := by
  have exit := performPlain_exit (c := c) (.compensate outcome.newGrants outcome.newRequest) (v.at q')
  rcases run : (performPlain (.compensate outcome.newGrants outcome.newRequest)).run c (v.at q')
    with ⟨e | o, u⟩
  · rw [run] at exit
    have whole := ProfileExit.broken later commits after exit
    simpa [retireCommit, run_bind, run_tryCatch, run, setMembers, query, fail] using whole
  · rw [run] at exit
    have whole := ProfileExit.retired later commits after exit
    simpa [retireCommit, run_bind, run_tryCatch, run, query, fail] using whole

theorem run_require {condition : Prop} [Decidable condition] (status : Status) (reason : String)
    (s : Progress σ ε) : (require condition status reason : Query σ ε Unit).run c s =
      (if condition then .ok () else .error ⟨status, reason, none⟩, s) := by
  unfold require Act.require
  split <;> rfl

/-- SQLite accepts or refuses the commit. -/
theorem commit_exit {call : Call} {before : Database} {start : Mark} {outcome : Outcome}
    {w : World σ ε} {t : Progress σ ε} {r : Process σ ε Unit} (later : w.progress ≤ t)
    (goes : ∀ {q v}, t ≤ q → (record call before start outcome).run c (w.at q) = (.ok (), v) →
      ProfileExit c call before start outcome w (r.run c v)) :
    ProfileExit c call before start outcome w
      ((do query sqlOutcome
           record call before start outcome
           r : Process σ ε Unit).run c (w.at t)) := by
  have grown := (sqlOutcome : Query σ ε Unit).grows c t
  rw [run_query_bind]
  rcases answer : (sqlOutcome : Query σ ε Unit).run c t with ⟨e | _, q⟩
  · rw [answer] at grown
    simp only [World.at_progress, answer, World.at_at]
    exact .refused (le_trans later grown)
  · rw [answer] at grown
    simp only [World.at_progress, answer, World.at_at]
    exact goes grown rfl

theorem profileCommit_exit (call : Call) (before : Database) (start : Mark) (outcome : Outcome)
    (w : World σ ε) : ProfileExit c call before start outcome w
      ((profileCommit call before start outcome).run c w) := by
  obtain ⟨t, t_le, read⟩ := profiles_run (c := c) w.progress
  rw [profileCommit, run_query_bind, read]
  dsimp only
  split
  · obtain ⟨u, u_le, _, _, first⟩ := profileGeneration_run (c := c) t
    have w_le : w.progress ≤ u := le_trans t_le u_le
    rw [run_members_bind, run_query_bind, World.at_progress, first]
    dsimp only
    rw [run_query_bind, run_require]
    simp only [World.at_progress, World.at_members, World.at_at]
    by_cases same : w.members.operationGeneration = (Host.profiles u.main).generation
    · simp only [same, if_true]
      refine commit_exit w_le fun {q v} later commits => ?_
      obtain ⟨q', after, _, seen, second⟩ := profileGeneration_run (c := c) v.progress
      rw [run_query_bind, second]
      dsimp only
      split
      · rename_i again
        refine .committed (le_trans w_le later) commits after fun _ => ?_
        rw [seen, same, again]
      · exact retireCommit_exit (le_trans w_le later) commits after
    · simp only [same, if_false]
      exact .refused w_le
  · rename_i disabled
    refine commit_exit (r := pure ()) t_le fun {q v} later commits => ?_
    refine .committed (le_trans t_le later) commits (le_refl _) fun enabled => ?_
    rw [← t_le.enabled] at enabled
    exact absurd enabled disabled

theorem perform_run (call : Call) (w : World σ ε) :
    (perform call).run c w =
      match (call.work w.members.tables).run c w.progress with
      | (.ok outcome, q) =>
        (conclude call w.members.tables w.progress.mark outcome).run c (w.at q)
      | (.error e, q) => (.error e, w.at q) := by
  rcases run : (call.work w.members.tables).run c w.progress with ⟨e | outcome, q⟩ <;>
    simp [perform, run_bind, query_run, members, mark, run, World.at]

end

end Consent.Repository
