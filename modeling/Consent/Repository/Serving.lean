import Consent.Repository.Listing
import Consent.Repository.Reopening

/-!
Calls on a storage that is in order, while nothing fails: a call that passes its checks
returns. `InOrder` is what `Ensure` looks for, and every step of a call keeps it.
-/
namespace Consent.Repository
open Profile
open Act (Returns Throws)

variable {σ ε : Type} [Host σ ε]

/-! ### Nothing fails -/

/-- No file, statement or write fails, and nobody touches the files. -/
structure Environment.Smooth (environment : Environment ε) : Prop where
  disk : ∀ n, environment.disk n = []
  sql : ∀ n, environment.fault n = none
  files : ∀ n, environment.fileFault n = false
  writes : ∀ n, environment.registryWrite n = .durable

/-- The members are these. -/
def Is (m now : Members) : Prop := now = m

/-- `x` returns. -/
abbrev Sure (c : Context ε) {α : Type} (A : Members → Prop) (x : Process σ ε α)
    (B : α → Members → Prop) : Prop := Leads c A x B fun _ _ => False

section
variable {c : Context ε} {α : Type} {A B : Members → Prop}

theorem Sure.returns {B : α → Members → Prop} {x : Process σ ε α} (h : Sure c A x B)
    {w : World σ ε} (holds : A w.members) : ∃ a v, x.run c w = (.ok a, v) ∧ B a v.members := by
  obtain ⟨_, ends⟩ := h w trivial holds
  rcases run : x.run c w with ⟨e | a, v⟩
  · rw [run] at ends
    cases ends with
    | error never => exact never.elim
  · rw [run] at ends
    cases ends with
    | ok post => exact ⟨a, v, rfl, post⟩

/-- A precondition may be used for the members it holds of. -/
theorem Sure.of_is {B : α → Members → Prop} {x : Process σ ε α}
    (h : ∀ m, A m → Sure c (Is m) x B) : Sure c A x B :=
  fun w lawful holds => h w.members holds w lawful rfl

theorem query_sure {x : Query σ ε α} (throws : Throws c x fun _ => False) :
    Sure c A (query x) fun a m => (∃ lo hi, Returns c lo x a hi) ∧ A m := by
  refine .of_ends fun w holds => ?_
  rw [query_run]
  rcases run : x.run c w.progress with ⟨e | a, q⟩
  · exact (throws _ _ _ run).elim
  · exact .ok ⟨⟨w.progress, q, w.progress, q, le_refl _, run, le_refl _⟩, holds⟩

theorem query_skip {x : Query σ ε α} (throws : Throws c x fun _ => False) :
    Sure c A (query x) fun _ => A :=
  (query_sure throws).weaken (fun _ holds => holds) (fun _ _ post => post.2) fun _ _ fail => fail

theorem require_never {condition : Prop} [Decidable condition] (holds : condition)
    (status : Status) (reason : String) :
    Throws c (require condition status reason : Query σ ε Unit) fun _ => False := by
  intro s e t run
  rw [run_require, if_pos holds] at run
  cases run

theorem sqlOutcome_never (smooth : c.environment.Smooth) :
    Throws c (sqlOutcome : Query σ ε Unit) fun _ => False := by
  intro s e t run
  simp [sqlOutcome, smooth.sql] at run

theorem requireStorage_sure {condition : Prop} [Decidable condition] (holds : condition)
    (reason : String) : Sure (σ := σ) c A (requireStorage condition reason) fun _ => A :=
  query_skip (require_never holds _ _)

theorem fileOutcome_sure (smooth : c.environment.Smooth) (reason : String) :
    Sure (σ := σ) c A (fileOutcome reason) fun _ => A := by
  refine .of_ends fun w holds => ?_
  simp only [fileOutcome, smooth.files]
  exact .ok holds

theorem look_sure (smooth : c.environment.Smooth) : Sure (σ := σ) c A look fun _ => A := by
  refine .of_ends fun w holds => ?_
  have still : (look : Process σ ε Unit).run c w = (.ok (), w.touch []) := by
    simp only [look, smooth.disk, List.filter_nil]
  rw [still]
  exact .ok holds

theorem members_sure (m : Members) :
    Sure (σ := σ) c (Is m) members fun m' now => m' = m ∧ Is m now :=
  .of_ends fun _ holds => .ok ⟨holds, holds⟩

theorem setMembers_sure (f : Members → Members) (m : Members) :
    Sure (σ := σ) c (Is m) (setMembers f) fun _ => Is (f m) :=
  .of_ends fun _ holds => .ok (congrArg f holds)

end

/-! ### Storage in order -/

/-- What `Ensure` finds in an ordinary call. -/
structure InOrder (m : Members) : Prop where
  compensated : m.compensationFailed = false
  handle : m.handle = true
  registry : m.disk.registry.map (·.stamp) = some m.registryIdentity
  database : (m.disk.database.any fun file => decide (file.inode = m.dbIdentity ∧
    file.content ≠ .empty ∧ file.content ≠ .truncated)) = true
  clean : m.corrupt = false
  named : m.tables.incarnation ≠ ""
  incarnation : m.tables.incarnation = m.expected.incarnation
  unfenced : m.fenced = false

instance (m : Members) : Decidable (InOrder m) :=
  decidable_of_iff (m.compensationFailed = false ∧ m.handle = true ∧
      m.disk.registry.map (·.stamp) = some m.registryIdentity ∧
      (m.disk.database.any fun file => decide (file.inode = m.dbIdentity ∧
        file.content ≠ .empty ∧ file.content ≠ .truncated)) = true ∧
      m.corrupt = false ∧ m.tables.incarnation ≠ "" ∧
      m.tables.incarnation = m.expected.incarnation ∧ m.fenced = false)
    ⟨fun ⟨a, b, c, d, e, f, g, h⟩ => ⟨a, b, c, d, e, f, g, h⟩, fun h => ⟨h.compensated, h.handle,
      h.registry, h.database, h.clean, h.named, h.incarnation, h.unfenced⟩⟩

section
variable {c : Context ε} {m : Members}

theorem InOrder.file (h : InOrder m) : ∃ file, m.disk.database = some file ∧
    file.inode = m.dbIdentity ∧ file.content ≠ .empty ∧ file.content ≠ .truncated := by
  obtain ⟨file, stored, fine⟩ := (Option.any_eq_true _ _).mp h.database
  exact ⟨file, stored, of_decide_eq_true fine⟩

theorem checkRegistryIdentity_sure (smooth : c.environment.Smooth) (ordered : InOrder m) :
    Sure (σ := σ) c (Is m) checkRegistryIdentity fun _ => Is m := by
  obtain ⟨file, stored, same⟩ := Option.map_eq_some_iff.mp ordered.registry
  refine .bind (members_sure m) fun _ => .of_pre ?_
  rintro rfl
  rw [stored]
  refine .bind (fileOutcome_sure smooth _) fun _ => .ite (fun other => absurd same other) fun _ => ?_
  exact .pure fun _ holds => holds

theorem reconcile_sure (smooth : c.environment.Smooth) (ordered : InOrder m) :
    Sure (σ := σ) c (Is m) (reconcile m.disk.database) fun _ => Is m := by
  obtain ⟨file, stored, inode, _⟩ := ordered.file
  refine .bind (members_sure m) fun _ => .of_pre ?_
  rintro rfl
  refine .bind (.when (fun _ => query_skip (sqlOutcome_never smooth)) fun _ _ holds => holds)
    fun _ => .ite (fun other => ?_) fun _ => .not_when (by simp [ordered.unfenced])
  simp only [stored, inode, Option.any_some, decide_true, Bool.not_true, Bool.false_or,
    decide_eq_true_eq] at other
  rcases other with blank | differs
  · exact absurd blank ordered.named
  · exact absurd ordered.incarnation differs

theorem ensure_sure (smooth : c.environment.Smooth) (ordered : InOrder m) :
    Sure (σ := σ) c (Is m) ensure fun _ => Is m := by
  obtain ⟨file, stored, inode, filled, whole⟩ := ordered.file
  refine .bind (M := fun _ => On (Is m)) ?_ fun _ => note_leads false
  refine .bind (members_sure m) fun _ => .of_pre ?_
  rintro rfl
  refine .bind (requireStorage_sure ordered.compensated _) fun _ => ?_
  refine .bind (members_sure _) fun _ => .of_pre ?_
  rintro rfl
  refine .bind (requireStorage_sure ordered.handle _) fun _ => ?_
  refine .bind (look_sure smooth) fun _ => ?_
  refine .bind (fileOutcome_sure smooth _) fun _ => ?_
  refine .bind (checkRegistryIdentity_sure smooth ordered) fun _ => ?_
  refine .bind (fileOutcome_sure smooth _) fun _ => ?_
  refine .bind (members_sure _) fun _ => .of_pre ?_
  rintro rfl
  refine .bind (.not_when (by simp [stored, filled, whole])) fun _ => ?_
  refine .bind (members_sure _) fun _ => .of_pre ?_
  rintro rfl
  refine .ite (fun corrupt => by rw [ordered.clean] at corrupt; cases corrupt) fun _ => ?_
  refine .bind (reconcile_sure smooth ordered) fun _ => ?_
  refine .bind (members_sure _) fun _ => .of_pre ?_
  rintro rfl
  exact requireStorage_sure ordered.unfenced _

end

/-! ### Transactions -/

/-- The row count of every request can be read. -/
def Countable (d : Database) : Prop :=
  ∀ r ∈ d.requests, ∃ count, integer (r.payload.get "count") 0 16 = .ok count

theorem Countable.ages {d d' : Database} (h : Countable d)
    (aged : ∀ r ∈ d'.requests, ∃ old ∈ d.requests, old.Ages r) : Countable d' := by
  intro r stored
  obtain ⟨old, before, ages⟩ := aged r stored
  rw [ages.fields "count" ⟨fun _ => row_ne (by decide), by decide⟩]
  exact h old before

theorem Countable.evolves {d d' : Database} (h : Countable d)
    (evolves : Evolves (fun _ => False) d d') : Countable d' :=
  h.ages fun r stored => (evolves.requests r stored).resolve_right fun never => never

theorem Commits.countable {P : Platform} {log : List Entry} {s : Ledger} (run : Commits P log s) :
    Countable s.tables := by
  suffices Sound P s.ids s.tables ∧ Countable s.tables from this.2
  refine run.stable (I := fun s => Sound P s.ids s.tables ∧ Countable s.tables)
    (fun {s e t} holds step => ⟨step.sound holds.1, fun r stored => ?_⟩)
    ⟨Sound.initial P, fun _ member => by cases member⟩
  rcases (step.effect holds.1.keyed).new_request holds.1.keyed stored with
    ⟨old, before, ages⟩ | ⟨_, _, _, stored⟩
  · rw [ages.fields "count" ⟨fun _ => row_ne (by decide), by decide⟩]
    exact holds.2 old before
  · exact stored.counted

section
variable {c : Context ε} {m : Members}

theorem performPlain_sure {call : Call} (smooth : c.environment.Smooth)
    (never : Throws c (call.work m.tables : Query σ ε Outcome) fun _ => False) :
    Sure (σ := σ) c (Is m) (performPlain call) fun outcome now =>
      (∃ lo hi : Progress σ ε, Returns c lo (call.work m.tables) outcome hi) ∧
        Is { m with tables := outcome.tables } now := by
  refine .bind (query_skip fun s e t run => by cases run) fun start => ?_
  refine .bind (members_sure m) fun now => .of_pre ?_
  rintro rfl
  refine .bind (query_sure never) fun outcome => .of_pre fun worked => ?_
  refine .bind (query_skip (sqlOutcome_never smooth)) fun _ => ?_
  refine .bind (M := fun _ => On (Is { now with tables := outcome.tables })) ?_ fun _ =>
    .pure fun _ holds => ⟨worked, holds⟩
  refine .of_ends fun w holds => ?_
  obtain rfl : w.members = now := holds
  exact .ok rfl

theorem now_never : Throws c (now : Query σ ε Int) fun _ => False := by
  intro s e t run
  cases run

theorem suspendable_never (session : SessionRow) :
    Throws c (suspendable session : Query σ ε Bool) fun _ => False :=
  .ite (.bind now_never fun _ => .ite (.bind now_never fun _ => .pure) .pure) .pure

theorem expire_never (smooth : c.environment.Smooth) (d : Database) :
    Throws c (Repository.expire d : Query σ ε Outcome) fun _ => False := by
  refine .bind (sqlOutcome_never smooth) fun _ => ?_
  iterate 7 refine .bind now_never fun _ => ?_
  refine .bind (.foldlM (fun _ session => .bind (suspendable_never session) fun _ => .pure) _ _)
    fun _ => ?_
  refine .bind (.foldlM (fun _ _ => .bind now_never fun _ => .pure) _ _) fun _ => ?_
  exact .bind now_never fun _ => .pure

theorem invalidate_never {d : Database} (countable : Countable d) (definition : String) :
    Throws c (invalidate d definition : Query σ ε Database) fun _ => False := by
  refine .bind (.foldlM_inv (fun _ => True) (fun _ r stored _ => ?_) (fun _ _ _ _ _ _ _ => trivial)
    trivial) fun _ => .pure
  refine .ite ?_ .pure
  obtain ⟨count, read⟩ := countable r stored
  refine .bind (.lift fun e failed => ?_) fun _ => .pure
  rw [number_of_integer read] at failed
  cases failed

theorem replayDefinition_never (state : Database × Bool) (countable : Countable state.1)
    (item : String × Message) :
    Throws c (replayDefinition false state item : Query σ ε (Database × Bool)) fun _ => False := by
  have asked : Throws c (projectedActive item.2 false : Query σ ε Bool) fun _ => False :=
    .ite (fun s e t run => by cases run) .pure
  exact .bind asked fun _ => .ite .pure (.bind (invalidate_never countable _) fun _ => .pure)

theorem replayDefinition_countable {state after : Database × Bool} {offline : Bool}
    {item : String × Message} {lo hi : Progress σ ε} (countable : Countable state.1)
    (h : Returns c lo (replayDefinition offline state item) after hi) : Countable after.1 := by
  obtain ⟨_, _, h⟩ := h.bind
  rcases h.ite with ⟨_, h⟩ | ⟨_, h⟩
  · obtain rfl := h.of_pure
    exact countable
  · obtain ⟨invalidated, done, h⟩ := h.bind
    obtain ⟨_, done⟩ := done.skip
    obtain rfl := done.of_pure
    obtain rfl := h.of_pure
    have invalidated : Countable (state.1.invalidate item.1) :=
      countable.evolves (.of_restricts (Database.invalidate_restricts state.1 item.1))
    exact invalidated

theorem replay_never (smooth : c.environment.Smooth) {d : Database} (countable : Countable d)
    (definitions : Definitions) (revision : Int) :
    Throws c (Repository.replay definitions revision false d : Query σ ε Outcome) fun _ => False := by
  refine .bind (sqlOutcome_never smooth) fun _ => .bind ?_ fun _ => .pure
  exact .foldlM_inv (fun state => Countable state.1)
    (fun state item _ holds => replayDefinition_never state holds item)
    (fun _ _ s _ t holds run => replayDefinition_countable holds ⟨s, t, le_refl _, run, le_refl _⟩)
    countable

theorem note_sure (event : StorageEvent) : Sure (σ := σ) c (Is m) (note event) fun _ => Is m :=
  .of_ends fun _ holds => .ok holds

theorem writeRegistry_sure (smooth : c.environment.Smooth) {definitions : Definitions}
    {operations : Message} {revision : Int}
    (fits : registryFits c.platform (m.registryFor definitions operations revision)) :
    Sure (σ := σ) c (Is m) (writeRegistry definitions operations revision) fun _ =>
      Is (m.written (m.registryFor definitions operations revision) .durable) := by
  refine .bind (members_sure m) fun now => .of_pre ?_
  rintro rfl
  refine .bind (M := fun outcome => On fun m => outcome = .durable ∧ Is now m) ?_
    fun outcome => .of_pre ?_
  · refine .bind .read fun _ => .of_pre ?_
    rintro rfl
    rw [if_pos fits]
    refine .bind (query_skip fun s e t run => by cases run) fun _ => .of_ends fun w holds => ?_
    exact .ok ⟨smooth.writes _, holds⟩
  · rintro rfl
    refine .bind (note_sure _) fun _ => .bind (setMembers_sure _ _) fun _ => ?_
    refine .bind .read fun _ => .of_pre ?_
    rintro rfl
    exact .bind (query_skip (require_never fits _ _)) fun _ => .pure fun _ holds => holds

/-- What a projection leaves. -/
def Projects (m now : Members) : Prop :=
  ∃ d : Database, d.incarnation = m.tables.incarnation ∧
    now = { m with disk := m.disk.sync, tables := d, fenced := false }

theorem replayRegistry_sure (smooth : c.environment.Smooth) (countable : Countable m.tables)
    (online : m.offlineImport = false) :
    Sure (σ := σ) c (Is m) replayRegistry fun _ => Projects m := by
  refine .bind (fileOutcome_sure smooth _) fun _ => ?_
  refine .bind (setMembers_sure _ _) fun _ => .bind (members_sure _) fun now => .of_pre ?_
  rintro rfl
  refine .bind (performPlain_sure smooth ?_) fun outcome => .of_pre fun ⟨lo, hi, worked⟩ => ?_
  · rw [online]
    exact replay_never smooth countable _ _
  · have kept : outcome.tables.incarnation = m.tables.incarnation :=
      (replay_effect worked).incarnation (by simp) (by simp)
    refine .of_ends fun w holds => ?_
    exact .ok ⟨outcome.tables, kept, congrArg (fun m : Members => { m with fenced := false }) holds⟩

/-! ### A call -/

/-- What precedes an operation leaves the registry and what is known of it as it is. -/
structure Prepares (m : Members) (epoch : String) (now : Members) : Prop where
  ordered : InOrder now
  begun : epoch = now.epoch
  definitions : now.definitions = m.definitions
  operations : now.operations = m.operations
  registryFor : now.registryFor = m.registryFor
  registryRevision : now.registryRevision = m.registryRevision
  offlineImport : now.offlineImport = m.offlineImport
  countable : Countable now.tables

theorem prepare_sure (smooth : c.environment.Smooth) (ordered : InOrder m)
    (countable : Countable m.tables) (keyed : m.tables.Keyed) {peer : Peer}
    (known : peer.identity ≠ "" ∧ peer.instance ≠ "") :
    Sure (σ := σ) c (Is m) (prepare peer) fun start => Prepares m start.1 := by
  refine .bind (ensure_sure smooth ordered) fun _ => .bind (members_sure _) fun now => .of_pre ?_
  rintro rfl
  refine .bind (query_skip fun s e t run => by cases run) fun generation => ?_
  refine .bind (setMembers_sure _ _) fun _ => ?_
  refine .bind (performPlain_sure smooth (expire_never smooth _)) fun outcome =>
    .of_pre fun ⟨lo, hi, worked⟩ => ?_
  refine .bind (query_skip (require_never known _ _)) fun _ => .pure fun w holds => ?_
  have effect := work_effect keyed worked
  have kept := effect.incarnation (by simp) (by simp)
  have counted : Countable outcome.tables := countable.ages fun r stored =>
    (effect.new_request keyed stored).resolve_right (by rintro ⟨_, _, other, _⟩; cases other)
  have final : w.members = { now with
      operationGeneration := generation, tables := outcome.tables } := holds
  rw [On, final]
  exact ⟨{ ordered with
    named := kept ▸ ordered.named, incarnation := kept.trans ordered.incarnation }, rfl, rfl, rfl, rfl, rfl, rfl, counted⟩

theorem snapshot_sure (smooth : c.environment.Smooth) (ordered : InOrder m) :
    Sure (σ := σ) c (Is m) snapshot fun metadata now =>
      metadata.get "epoch" = m.epoch ∧ Is m now := by
  refine .bind (ensure_sure smooth ordered) fun _ => ?_
  refine .bind (query_skip (sqlOutcome_never smooth)) fun _ => ?_
  refine .bind (members_sure _) fun now => .of_pre ?_
  rintro rfl
  refine .bind (query_skip fun s e t run => by cases run) fun _ => .pure fun _ holds => ⟨?_, holds⟩
  simp [Message.of, Message.get_insert]

theorem checkReply_sure (smooth : c.environment.Smooth) {peer : Peer} {request result : Message}
    (plain : request.get "method" = "unregister") :
    Sure (σ := σ) c (Is m) (checkReply peer request result) fun _ => Is m := by
  refine .bind (members_sure _) fun now => .of_pre ?_
  rintro rfl
  have named : (publishedDefinitions now.tables request : Query σ ε (List String)) = pure [] := by
    simp [publishedDefinitions, plain]
  have other : (isDataCheck request || ["data_register", "data_register_derived"].contains
      (request.get "method")) = false := by simp [isDataCheck, plain]
  rw [named, other]
  refine query_skip (.bind (sqlOutcome_never smooth) fun _ => ?_)
  intro s e t run
  cases run

/-- The end of a call whose reply needs no further check. -/
theorem publish_sure (smooth : c.environment.Smooth) (ordered : InOrder m) {peer : Peer}
    {request result : Message} {epoch : String} {generation : Nat} (begun : epoch = m.epoch)
    (plain : request.get "method" = "unregister") :
    Sure (σ := σ) c (Is m) (do
        ensure
        query (require (epoch = (← members).epoch) .estale
          "database generation changed before reply")
        checkReply peer request result
        let metadata ← snapshot
        query (require (metadata.get "epoch" = epoch) .estale
          "database generation changed during final publication snapshot")
        let stamped ← query (checkProfile request result generation)
        pure (stamped.insertAll metadata))
      fun _ => Is m := by
  refine .bind (ensure_sure smooth ordered) fun _ => .bind (members_sure _) fun now => .of_pre ?_
  rintro rfl
  refine .bind (query_skip (require_never begun _ _)) fun _ => ?_
  refine .bind (checkReply_sure smooth plain) fun _ => ?_
  refine .bind (snapshot_sure smooth ordered) fun metadata => .of_pre fun current => ?_
  refine .bind (query_skip (require_never (current.trans begun.symm) _ _)) fun _ => ?_
  have quiet : sensitive request result = false := by simp [sensitive, plain]
  refine .bind (query_skip ?_) fun _ => .pure fun _ holds => holds
  unfold checkProfile
  rw [quiet]
  exact .pure

/-! ### Removal of a package -/

/-- The registry after the removal is not too large. -/
structure RemovalFits (P : Platform) (m : Members) (key : String) (request : Message) : Prop where
  definitions : m.definitions.size ≤ kMaxDefinitions
  content : registryFits P (m.registryFor (deactivatePackage m.definitions (request.get "package"))
    (m.operations.insert key (fingerprint P request)) (m.registryRevision + 1))

instance (P : Platform) (m : Members) (key : String) (request : Message) :
    Decidable (RemovalFits P m key request) :=
  decidable_of_iff (_ ∧ _) ⟨fun h => ⟨h.1, h.2⟩, fun h => ⟨h.definitions, h.content⟩⟩

/-- The package authority takes the expected generation for the current one. -/
def Accepts (environment : Environment ε) (request : Message) : Prop :=
  ∀ n, environment.packageValidator n (request.get "package")
    (request.get "expected_generation") = true

theorem checkRemoval_never {request : Message} (accepts : Accepts c.environment request)
    (named : request.get "expected_generation" ≠ "")
    (current : currentGeneration m.definitions (request.get "package")
      (request.get "expected_generation")) :
    Throws c (checkRemoval m request : Query σ ε Unit) fun _ => False := by
  refine .bind (require_never named _ _) fun _ => ?_
  have asked : ∀ s : Progress σ ε, (packageValidator (request.get "package")
      (request.get "expected_generation")).run c s =
      (.ok true, { s with validated := s.validated + 1 }) := by
    intro s
    simp [packageValidator, accepts s.validated]
  intro s e t run
  rw [Act.run_bind, asked] at run
  exact (Throws.bind (require_never rfl _ _) fun _ => require_never current _ _) _ e t run

/-- A removal with a new key that passes its checks is made. -/
theorem commonRegister_sure (smooth : c.environment.Smooth) {key : String} {request : Message}
    (operation : identifier (request.get "package") ∧ identifier (request.get "operation_id"))
    (accepts : Accepts c.environment request) (named : request.get "expected_generation" ≠ "")
    (current : currentGeneration m.definitions (request.get "package")
      (request.get "expected_generation")) (new : m.operations[key]? = none)
    (fits : RemovalFits c.platform m key request) (countable : Countable m.tables)
    (online : m.offlineImport = false) :
    Sure (σ := σ) c (Is m) (commonRegister key request true) fun _ =>
      Projects (m.written (m.registryFor (deactivatePackage m.definitions (request.get "package"))
        (m.operations.insert key (fingerprint c.platform request)) (m.registryRevision + 1))
        .durable) := by
  refine .bind (query_skip (require_never operation _ _)) fun _ => ?_
  refine .bind (M := fun print => On fun now => print = fingerprint c.platform request ∧ Is m now)
    ?_ fun print => .of_pre ?_
  · refine (query_sure fun s e t run => by cases run).weaken (fun _ holds => holds)
      (fun print _ post => ?_) fun _ _ fail => fail
    obtain ⟨⟨_, _, hashed⟩, holds⟩ := post
    exact ⟨hash_returns hashed, holds⟩
  rintro rfl
  refine .bind (members_sure _) fun now => .of_pre ?_
  rintro rfl
  refine .bind (.when (fun _ => query_skip (checkRemoval_never accepts named current))
    fun _ _ holds => holds) fun _ => ?_
  rw [new]
  refine .bind (M := fun definitions => On fun m => definitions =
    deactivatePackage now.definitions (request.get "package") ∧ Is now m) ?_
    fun definitions => .of_pre ?_
  · refine (query_sure (.bind (require_never named _ _) fun _ => .bind (require_never current _ _)
      fun _ => .pure)).weaken (fun _ holds => holds) (fun _ _ post => ?_) fun _ _ fail => fail
    obtain ⟨⟨_, _, removed⟩, holds⟩ := post
    obtain ⟨_, removed⟩ := removed.guard
    obtain ⟨_, removed⟩ := removed.guard
    exact ⟨removed.of_pure.symm, holds⟩
  rintro rfl
  refine .bind (query_skip (require_never ?_ _ _)) fun _ => ?_
  · rw [deactivatePackage, Std.ExtTreeMap.size_map]
    exact fits.definitions
  refine .bind (writeRegistry_sure smooth fits.content) fun _ => ?_
  refine .bind (replayRegistry_sure smooth countable online) fun _ => .pure fun _ holds => holds

/-- An installer to whom the package is delegated asks for its removal. -/
structure Removal (peer : Peer) (request : Message) : Prop where
  method : request.get "method" = "unregister"
  known : peer.identity ≠ "" ∧ peer.instance ≠ ""
  installer : role peer "installer" = true
  delegated : member peer.packages (request.get "package") = true
  operation : identifier (request.get "package") ∧ identifier (request.get "operation_id")
  generation : request.get "expected_generation" ≠ ""

theorem dispatch_eq {peer : Peer} {request : Message} (removal : Removal peer request) :
    (dispatch peer request : Process σ ε Message) =
      members >>= fun _ => register peer request true := by
  simp [dispatch, removal.method]

theorem register_sure (smooth : c.environment.Smooth) {peer : Peer} {request : Message}
    (removal : Removal peer request) (accepts : Accepts c.environment request)
    (current : currentGeneration m.definitions (request.get "package")
      (request.get "expected_generation"))
    (new : m.operations[operationKey c.platform peer request]? = none)
    (fits : RemovalFits c.platform m (operationKey c.platform peer request) request)
    (countable : Countable m.tables) (online : m.offlineImport = false) :
    Sure (σ := σ) c (Is m) (dispatch peer request) fun _ =>
      Projects (m.written (m.registryFor (deactivatePackage m.definitions (request.get "package"))
        (m.operations.insert (operationKey c.platform peer request)
          (fingerprint c.platform request)) (m.registryRevision + 1)) .durable) := by
  rw [dispatch_eq removal]
  refine .bind (members_sure _) fun now => .of_pre ?_
  rintro rfl
  refine .bind (query_skip (require_never removal.installer _ _)) fun _ => ?_
  refine .bind (query_skip (require_never removal.operation _ _)) fun _ => ?_
  refine .bind (query_skip (require_never removal.delegated _ _)) fun _ => ?_
  refine .bind (M := fun key => On fun m => key = operationKey c.platform peer request ∧ Is now m)
    ?_ fun key => .of_pre ?_
  · refine (query_sure fun s e t run => by cases run).weaken (fun _ holds => holds)
      (fun _ _ post => ?_) fun _ _ fail => fail
    obtain ⟨⟨_, _, hashed⟩, holds⟩ := post
    exact ⟨hash_returns hashed, holds⟩
  · rintro rfl
    exact commonRegister_sure smooth removal.operation accepts removal.generation current new fits
      countable online

/-- What a removal leaves. -/
structure Removed (m : Members) (request : Message) (now : Members) : Prop where
  ordered : InOrder now
  epoch : now.epoch = m.epoch
  registry : ∃ file content, now.disk.registry = some file ∧ file.content = some content ∧
    content.definitions = deactivatePackage m.definitions (request.get "package")

theorem Projects.removed {final : Members} {request operations : Message} {revision : Int}
    (ordered : InOrder m)
    (projects : Projects (m.written (m.registryFor
      (deactivatePackage m.definitions (request.get "package")) operations revision) .durable)
      final) : Removed m request final := by
  obtain ⟨tables, same, rfl⟩ := projects
  exact ⟨⟨ordered.compensated, ordered.handle, rfl, ordered.database, ordered.clean,
    same ▸ ordered.named, same.trans ordered.incarnation, rfl⟩, rfl, ⟨_, _, rfl, rfl, rfl⟩⟩

/-- A removal that passes its checks succeeds. -/
theorem executeChecked_sure (smooth : c.environment.Smooth) (ordered : InOrder m) {peer : Peer}
    {request : Message} (removal : Removal peer request) (accepts : Accepts c.environment request)
    (current : currentGeneration m.definitions (request.get "package")
      (request.get "expected_generation"))
    (new : m.operations[operationKey c.platform peer request]? = none)
    (fits : RemovalFits c.platform m (operationKey c.platform peer request) request)
    (countable : Countable m.tables) (keyed : m.tables.Keyed) (online : m.offlineImport = false) :
    Sure (σ := σ) c (Is m) (executeChecked peer request) fun _ now =>
      (listing now.disk.registry).definitions =
        deactivatePackage m.definitions (request.get "package") := by
  refine .bind (prepare_sure smooth ordered countable keyed removal.known) fun ⟨epoch, generation⟩ => ?_
  refine Sure.of_is (A := Prepares m epoch) fun now prepared => ?_
  have fits' : RemovalFits c.platform now (operationKey c.platform peer request) request := by
    refine ⟨by rw [prepared.definitions]; exact fits.definitions, ?_⟩
    rw [prepared.definitions, prepared.operations, prepared.registryFor, prepared.registryRevision]
    exact fits.content
  refine .bind (register_sure smooth removal accepts (by rw [prepared.definitions]; exact current)
    (by rw [prepared.operations]; exact new) fits' prepared.countable
    (prepared.offlineImport.trans online)) fun result => Sure.of_is fun final projected => ?_
  have removed := Projects.removed prepared.ordered projected
  refine (publish_sure smooth removed.ordered (prepared.begun.trans removed.epoch.symm)
    removal.method).weaken (fun _ holds => holds) (fun _ w same => ?_) fun _ _ fail => fail
  obtain ⟨file, content, stored, decoded, cleared⟩ := removed.registry
  have listed : listing final.disk.registry = content.listing := by simp [listing, stored, decoded]
  show (listing w.members.disk.registry).definitions = _
  rw [show w.members = final from same, listed, ← prepared.definitions, ← cleared]
  rfl

end

end Consent.Repository
