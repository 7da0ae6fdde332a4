import Consent.Repository.Opening

/-!
The moves of every entry point. Every call is a sequence of moves (`Step.act_spec`), so a
property of runs is shown by looking at each move once (`Reachable.invariant`).
-/
namespace Consent.Repository
open Profile
open Act (Returns Spec Ends Law)

variable {σ ε : Type} [Host σ ε]

section
variable {c : Context ε} {K : Members → Registry → Prop} {α : Type} {A B : View σ ε → Prop}
  {F : Failure → View σ ε → Prop}

/-! ### The check before every operation -/

/-- The process has opened the repository. -/
def Running (v : View σ ε) : Prop := opened v.record = true

/-- Only a process that opened the repository has a handle. -/
def Rest (v : View σ ε) : Prop := v.members.handle = true → Running v

/-- The storage was found in order and has not changed since. -/
def Ready (v : View σ ε) : Prop := Matched v.members ∧ serving v.record = true

/-- The storage is ready and the repository is not fenced. -/
def Clear (v : View σ ε) : Prop := Ready v ∧ v.members.fenced = false ∧ Identified v

variable {call : Call} {w : World σ ε} {v : View σ ε} {outcome : Outcome} {q : Progress σ ε}
  {request : Message}

omit [Host σ ε] in
theorem Ready.running (h : Ready v) : Running v := opened_of_serving h.2

omit [Host σ ε] in
theorem Running.rest (h : Running v) : Rest v := fun _ => h

theorem Move.running {w v : World σ ε} (h : Move c K w v) (isOpen : Running w.view) : Running v.view := by
  cases h with
  | progress later =>
    rw [World.view_at later]
    exact isOpen
  | commit work other blank serves turns =>
    rw [World.view_turned work.le]
    exact isOpen
  | create work fenced =>
    rw [World.view_commit work.le]
    exact isOpen
  | incarnate work blank =>
    rw [World.view_commit work.le]
    exact isOpen
  | replay matched synced replays work =>
    rw [World.view_unfence work.le]
    exact isOpen
  | ensure able => rfl
  | _ => exact isOpen

theorem checkRegistryIdentity_spec :
    Conducts (σ := σ) c K Running checkRegistryIdentity (fun _ v => Running v ∧ Matched v.members)
      fun _ => Running := by
  refine .bind members_spec fun m => ?_
  rcases stored : m.disk.registry with _ | file
  · exact failStorage_spec fun _ _ _ holds => holds.2
  refine .bind ((fileOutcome_spec _).fails fun _ _ fail => fail.2) fun _ => ?_
  refine .ite (fun _ => ?_) fun same => .pure ?_
  · refine .bind (steer_spec (B := fun v => Running v ∧ v.members.fenced = true)
      (fun m => { Members.Steers.refl m with fenced := fun _ => rfl })
      fun _ holds => ⟨holds.2, rfl⟩) fun _ => ?_
    refine ((readRegistry_spec true).frame Move.running).weaken
      (fun _ holds => ⟨holds.1, ⟨holds.1, fun _ => holds.2⟩, by simp⟩)
      (fun _ _ post => ⟨post.1, post.2.2⟩) fun _ _ fail => fail.1
  · rintro w ⟨rfl, holds⟩
    exact ⟨holds, file, stored, not_not.mp same⟩

theorem replaceDatabase_spec {present : Bool} :
    Conducts (σ := σ) c K
      (fun v => Running v ∧ Matched v.members ∧ v.members.disk.database.isSome = present)
      (replaceDatabase present) (fun _ v => Running v ∧ Projecting false v) fun _ => Running := by
  refine .bind (steer_spec (B := fun v => Running v ∧ Opening false v ∧
    v.members.disk.database.isSome = present)
    (fun m => { Members.Steers.refl m with fenced := fun _ => rfl }) fun v holds => ?_) fun _ => ?_
  · exact ⟨holds.1, ⟨holds.2.1, by simp, fun _ => ⟨holds.1, rfl⟩⟩, holds.2.2⟩
  refine .bind (M := fun _ => At fun v => Running v ∧ Opening false v ∧
      v.members.disk.database = none)
    (((retireDatabase_spec fun file => file.isSome = present).frame Move.running).weaken
      (fun _ holds => holds) (fun _ w post => ?_) fun _ _ fail => fail.1) fun _ => ?_
  · refine ⟨post.1, post.2.1, ?_⟩
    cases present with
    | true => exact post.2.2.1 rfl
    | false => exact Option.not_isSome_iff_eq_none.mp (by simp [post.2.2.2 rfl])
  · exact (openDatabase_spec.frame Move.running).weaken
      (fun _ holds => ⟨holds.1, holds.2.1, fun _ => holds.2.2⟩) (fun _ _ post => post)
      fun _ _ fail => fail.1

/-- What `Ensure` has established before it looks at the fence. -/
def Reconciled (v : View σ ε) : Prop := Running v ∧ Matched v.members ∧ Identified v

theorem reconcile_spec {file : Option DatabaseFile} :
    Conducts (σ := σ) c K (fun v => Running v ∧ Matched v.members ∧ v.members.disk.database = file)
      (reconcile file) (fun _ => Reconciled) fun _ => Running := by
  refine .bind members_spec fun m => ?_
  refine .bind (.when (fun _ => (query_idle _).fails fun _ _ fail => fail.2.1) fun _ _ holds => holds)
    fun _ => ?_
  refine .ite (fun _ => ?_) fun same => ?_
  · exact replaceDatabase_spec.weaken (fun _ holds => ⟨holds.2.1, holds.2.2.1, by rw [holds.2.2.2]⟩)
      (fun _ _ post => ⟨post.1, post.2.matched, congrArg DatabaseId.incarnation post.2.current,
        post.2.named⟩) fun _ _ fail => fail
  · rw [Bool.or_eq_true, decide_eq_true_iff, not_or, not_or, not_not] at same
    have agree : ∀ v : View σ ε, v.members = m → Identified v := by
      rintro v rfl
      exact ⟨same.2.2, same.2.1⟩
    refine .when (fun _ => ?_) fun _ w holds => ⟨holds.2.1, holds.2.2.1, agree w.view holds.1⟩
    refine (replayRegistry_spec (A := Reconciled) (fun _ holds => holds.2.1) (fun _ holds => holds)
      fun v entry offline holds call kept => ?_).weaken
        (fun w holds => ⟨holds.2.1, holds.2.2.1, agree w.view holds.1⟩) (fun _ _ post => post)
        fun _ _ fail => fail.1
    exact ⟨holds.1, holds.2.1, holds.2.2.commit kept⟩

theorem ensureStorage_spec :
    Conducts (σ := σ) c K Rest ensureStorage (fun _ => Ensurable false) fun _ => Rest := by
  refine .bind members_spec fun m => ?_
  refine .bind (requireStorage_spec fun _ _ _ holds => holds.2) fun _ => ?_
  refine .bind members_spec fun m' => ?_
  refine .bind (M := fun _ => At Running) ((requireStorage_spec (F := fun _ => Rest)
    fun _ _ _ holds => holds.2.2.2).weaken (fun _ holds => holds) (fun _ w post => ?_)
    fun _ _ fail => fail) fun _ => ?_
  · obtain ⟨handle, same, _, _, rest⟩ := post
    exact rest (same ▸ handle)
  refine .bind (look_spec (B := Running) fun _ _ _ holds => holds) fun _ => ?_
  refine .bind ((fileOutcome_spec _).fails fun _ _ fail => Running.rest fail) fun _ => ?_
  refine .bind (checkRegistryIdentity_spec.fails fun _ _ fail => fail.rest) fun _ => ?_
  refine .bind ((fileOutcome_spec _).fails fun _ _ fail => fail.1.rest) fun _ => ?_
  refine .bind members_spec fun found => ?_
  refine .bind (M := fun _ => At fun v => Running v ∧ Matched v.members ∧
    v.members.disk.database = found.disk.database) (.when (fun _ => ?_) fun _ _ holds => ?_)
    fun _ => ?_
  · refine steer_spec (fun m => { Members.Steers.refl m with }) fun v holds => ?_
    exact ⟨holds.2.1, holds.2.2, congrArg (fun m => m.disk.database) holds.1⟩
  · exact ⟨holds.2.1, holds.2.2, congrArg (fun m => m.disk.database) holds.1⟩
  refine .bind members_spec fun m'' => .ite (fun _ => ?_) fun _ => ?_
  · exact replaceDatabase_spec.weaken (fun _ holds => ⟨holds.2.1, holds.2.2.1, by rw [holds.2.2.2]⟩)
      (fun _ _ post => post.2.ensurable fun _ => post.1) fun _ _ fail => fail.rest
  · refine .bind (reconcile_spec.weaken (fun _ holds => holds.2) (fun _ _ post => post)
      fun _ _ fail => fail.rest) fun _ => ?_
    refine .bind members_spec fun last => ?_
    refine (requireStorage_spec (F := fun _ => Rest) fun _ _ _ holds => holds.2.1.rest).weaken
      (fun _ holds => holds) (fun _ w post => ?_) fun _ _ fail => fail
    obtain ⟨unfenced, same, running, matched, incarnation, named⟩ := post
    exact ⟨matched, same ▸ unfenced, incarnation, named, fun _ => running, by simp, by simp, by simp,
      by simp⟩

/-- `Ensure` leaves the storage in order or fails. -/
theorem ensure_clear : Conducts (σ := σ) c K Rest ensure (fun _ => Clear) fun _ => Rest :=
  .bind ensureStorage_spec fun _ => noteEnsured_spec

theorem ensure_spec : Conducts (σ := σ) c K Rest ensure (fun _ => Ready) fun _ => Rest :=
  ensure_clear.weaken (fun _ holds => holds) (fun _ _ post => post.1) fun _ _ fail => fail

theorem snapshot_clear : Conducts (σ := σ) c K Rest snapshot (fun _ => Clear) fun _ => Rest := by
  refine .bind ensure_clear fun _ => ?_
  refine .bind ((query_idle _).fails fun _ _ fail => fail.1.running.rest) fun _ => ?_
  refine .bind members_spec fun m => ?_
  refine .bind ((query_idle _).fails fun _ _ fail => fail.2.1.running.rest) fun _ => ?_
  exact .pure fun _ holds => holds.2

theorem snapshot_spec : Conducts (σ := σ) c K Rest snapshot (fun _ => Ready) fun _ => Rest :=
  snapshot_clear.weaken (fun _ holds => holds) (fun _ _ post => post.1) fun _ _ fail => fail

/-! ### Transactions of the operations -/

omit [Host σ ε] in
theorem Ready.steer {m : Members} (h : Ready v) (steers : v.members.Steers m) :
    Ready ⟨m, v.record⟩ := by
  obtain ⟨⟨file, stored, same⟩, serves⟩ := h
  exact ⟨⟨file, by rw [steers.disk]; exact stored, by rw [steers.registryIdentity]; exact same⟩,
    serves⟩

omit [Host σ ε] in
theorem Ready.commit (h : Ready v) {entry : Entry} (other : entry.call.projects = false) :
    Ready (v.commit entry) := by
  refine ⟨h.1, ?_⟩
  have same : serving (v.commit entry).record = (!entry.call.isCreate && serving v.record) := rfl
  rw [same, h.2]
  cases call : entry.call <;> simp_all [Call.projects, Call.isCreate]

/-- A transaction that neither projects the registry nor names the file nor compacts. -/
def Call.operates (call : Call) : Prop :=
  call.projects = false ∧ call ≠ .incarnate ∧ call.compacts = false

theorem operation_move (operates : call.operates) (ready : Ready w.view)
    (work : Returns c w.progress (call.work w.members.tables) outcome q) :
    Move c K w ((w.at q).commit (entryOf c call w.members.tables outcome w.progress q)) :=
  .plain work operates (Or.inr (Or.inr ready.2))

theorem performPlain_ready (operates : call.operates) :
    Conducts (σ := σ) c K Ready (performPlain call) (fun _ => Ready) fun _ => Ready :=
  performPlain_spec (fun holds work => operation_move operates holds work)
    fun _ holds _ => holds.commit operates.1

theorem Ready.committed (h : Ready w.view) (operates : call.operates)
    (work : Returns c w.progress (call.work w.members.tables) outcome q) :
    Ready ((w.at q).commit (entryOf c call w.members.tables outcome w.progress q)).view := by
  rw [World.view_commit work.le]
  exact h.commit operates.1

/-- Work that was returned leads, by moves, to its commit at any later point. -/
theorem commit_reaches (operates : call.operates) {q q' : Progress σ ε} {v : World σ ε}
    (ready : Ready w.view) (work : Returns c w.progress (call.work w.members.tables) outcome q)
    (later : q ≤ q')
    (commits : (record call w.members.tables w.progress.mark outcome).run c ((w.at q).at q') =
      (.ok (), v)) : (law c K).Reaches w v ∧ Ready v.view := by
  cases commits
  have whole := work.mono (le_refl _) later
  exact ⟨.single (operation_move operates ready whole), ready.committed operates whole⟩

theorem Ready.at (h : Ready w.view) (later : w.progress ≤ q) :
    Ready (w.at q).view := World.view_at later ▸ h

theorem profileCommit_reaches (operates : call.operates) (ready : Ready w.view)
    (work : Returns c w.progress (call.work w.members.tables) outcome q) :
    (law c K).Reaches w ((profileCommit call w.members.tables w.progress.mark outcome).run c
      (w.at q)).2 ∧ Ready ((profileCommit call w.members.tables w.progress.mark outcome).run c
        (w.at q)).2.view := by
  rcases run : (profileCommit call w.members.tables w.progress.mark outcome).run c (w.at q)
    with ⟨result, v⟩
  have exit := profileCommit_exit (c := c) call w.members.tables w.progress.mark outcome (w.at q)
  rw [run] at exit
  cases exit with
  | refused later =>
    have grown := le_trans work.le later
    exact ⟨.single (.progress grown), ready.at grown⟩
  | committed later commits after same =>
    obtain ⟨reaches, kept⟩ := commit_reaches operates ready work later commits
    exact ⟨reaches.tail (.progress after), kept.at after⟩
  | retired later commits after compensated =>
    obtain ⟨reaches, kept⟩ := commit_reaches operates ready work later commits
    cases compensated with
    | committed again =>
      have operates' : Call.operates (.compensate outcome.newGrants outcome.newRequest) :=
        ⟨rfl, by simp, rfl⟩
      exact ⟨(reaches.tail (.progress after)).tail
        (operation_move operates' (kept.at after) again), (kept.at after).committed operates' again⟩
  | broken later commits after failed =>
    obtain ⟨reaches, kept⟩ := commit_reaches operates ready work later commits
    cases failed with
    | failed again =>
      refine ⟨((reaches.tail (.progress after)).tail (.progress again)).tail (.steer
        { Members.Steers.refl _ with fenced := fun _ => rfl }), ?_⟩
      exact ((kept.at after).at again).steer
        { Members.Steers.refl _ with fenced := fun _ => rfl }

theorem perform_ready (operates : call.operates) :
    Conducts (σ := σ) c K Ready (perform call) (fun _ => Ready) fun _ => Ready := by
  intro w _ ready
  rw [perform_run]
  have grown := (call.work w.members.tables).grows c w.progress
  rcases run : (call.work w.members.tables).run c w.progress with ⟨e | outcome, q⟩
  · rw [run] at grown
    exact ⟨.single (.progress grown), .error (ready.at grown)⟩
  rw [run] at grown
  have work : Returns c w.progress (call.work w.members.tables) outcome q :=
    ⟨w.progress, q, le_refl _, run, le_refl _⟩
  dsimp only [conclude]
  split
  · exact ⟨.single (.progress grown), .ok (ready.at grown)⟩
  · have again := (sqlOutcome : Query σ ε Unit).grows c q
    rw [run_query_bind]
    rcases answer : (sqlOutcome : Query σ ε Unit).run c q with ⟨e | _, t⟩
    · rw [answer] at again
      simp only [World.at_progress, answer]
      exact ⟨.single (.progress (le_trans grown again)), .error (ready.at (le_trans grown again))⟩
    · rw [answer] at again
      simp only [World.at_progress, answer]
      have whole := work.mono (le_refl _) again
      exact ⟨.single (operation_move operates ready whole), .ok (ready.committed operates whole)⟩
  · obtain ⟨reaches, kept⟩ := profileCommit_reaches operates ready work
    rw [Act.run_bind]
    rcases exit : (profileCommit call w.members.tables w.progress.mark outcome).run c (w.at q)
      with ⟨e | _, v⟩
    · rw [exit] at reaches kept
      exact ⟨reaches, .error kept⟩
    · rw [exit] at reaches kept
      exact ⟨reaches, .ok kept⟩

/-! ### Entry points -/

/-- A replay keeps the recorded operations. -/
theorem replay_recorded (Q : Message → Prop) :
    Conducts (σ := σ) c K (fun v => Ready v ∧ Q v.members.operations) replayRegistry
      (fun _ v => Ready v ∧ Q v.members.operations) fun _ => Ready := by
  refine (replayRegistry_spec (fun _ holds => holds.1.1) (fun _ holds => holds)
    fun v entry offline holds call _ => ⟨⟨holds.1.1, ?_⟩, holds.2⟩).fails fun _ _ fail => fail.1
  have same : serving (v.replayed entry).record = (!entry.call.isCreate && serving v.record) := rfl
  rw [same, holds.1.2, call]
  rfl

theorem replay_ready : Conducts (σ := σ) c K Ready replayRegistry (fun _ => Ready) fun _ => Ready :=
  (replay_recorded fun _ => True).weaken (fun _ holds => ⟨holds, trivial⟩)
    (fun _ _ post => post.1) fun _ _ fail => fail

/-- A call writes an amended registry. -/
theorem write_ready {kind : Revision} {key : String} {definitions : Definitions}
    {operations : Message} {revision : Int} {m : Members}
    (amends : Amends c.platform kind key request m (m.registryFor definitions operations revision))
    (allowed : K m (m.registryFor definitions operations revision)) :
    Conducts (σ := σ) c K (fun v => v.members = m ∧ Ready v)
      (writeRegistry definitions operations revision)
      (fun _ v => Ready v ∧ v.members.operations = operations) fun _ => Running := by
  refine (writeRegistry_spec (fun v holds => ?_) fun v holds => ?_).fails fun _ _ fail => ?_
  · obtain ⟨rfl, ready⟩ := holds
    exact .follow ready.1 amends.changes.follows rfl ⟨kind, key, request, amends⟩ allowed
  · exact ⟨⟨Matched.written _ _, holds.2.2⟩, rfl⟩
  · obtain ⟨_, u, outcome, holds, view⟩ := fail
    show Running _
    rw [view]
    exact holds.2.running

/-- The kind of operation that `CommonRegister` records. -/
def commonRevision (remove : Bool) : Revision := if remove then .removed else .registered

/-- What `CommonRegister` may write, when it starts from members with `Q`. -/
def Registers (c : Context ε) (Q : Members → Prop) (key : String) (request : Message)
    (remove : Bool) (m : Members) (content : Registry) : Prop :=
  Q m ∧ Amends c.platform (commonRevision remove) key request m content ∧
    (remove = false → ∃ n, c.environment.Current m.offlineImport (registeredDefinition request) n) ∧
    (remove = false → Acceptable (registeredDefinition request)) ∧
    content.definitions.size ≤ kMaxDefinitions

theorem commonRegister_spec {Q : Members → Prop} (key : String) (request : Message) (remove : Bool)
    (allow : ∀ m content, Registers c Q key request remove m content → K m content) :
    Conducts (σ := σ) c K (fun v => Ready v ∧ Q v.members) (commonRegister key request remove)
      (fun _ v => Ready v ∧
        v.members.operations[key]? = some (fingerprint c.platform request)) fun _ => Running := by
  refine .bind ((query_idle _).fails fun _ _ fail => fail.1.running) fun _ => ?_
  refine .bind ((query_spec _).fails fun _ _ fail => fail.1.running) fun print =>
    .of_pre fun ⟨_, _, hashed⟩ => ?_
  have digest : print = fingerprint c.platform request := hash_returns hashed
  refine .bind (members_spec (A := fun v => Ready v ∧ Q v.members)) fun m => ?_
  refine .bind (.when (fun _ => (query_idle _).fails fun _ _ fail => fail.2.1.running)
    fun _ _ holds => holds) fun _ => ?_
  split
  · rename_i prior stored
    refine .bind ((query_spec _).fails fun _ _ fail => fail.2.1.running) fun _ =>
      .of_pre fun ⟨_, _, compared⟩ => ?_
    have same : prior = print := compared.of_require
    refine .pure fun _ holds => ⟨holds.2.1, ?_⟩
    rw [holds.1, stored, same, digest]
  · rename_i new
    refine .bind ((query_spec _).fails fun _ _ fail => fail.2.1.running) fun definitions =>
      .of_pre fun ⟨_, _, computed⟩ => ?_
    have kept := query_spec (σ := σ) (c := c) (K := K)
      (A := fun v => v.members = m ∧ Ready v ∧ Q v.members)
      (require (definitions.size ≤ kMaxDefinitions) .enospc "definition limit exceeded")
    refine .bind (kept.fails fun _ _ fail => fail.2.1.running) fun _ =>
      .of_pre fun ⟨_, _, counted⟩ => ?_
    have few : definitions.size ≤ kMaxDefinitions := counted.of_require
    have changes : Changes request m.definitions (commonRevision remove) definitions ∧
        (remove = false →
          ∃ n, c.environment.Current m.offlineImport (registeredDefinition request) n) ∧
        (remove = false → Acceptable (registeredDefinition request)) := by
      rcases computed.ite with ⟨rfl, computed⟩ | ⟨other, computed⟩
      · exact ⟨removePackage_returns computed, by simp, by simp⟩
      · obtain rfl : remove = false := by simpa using other
        exact ⟨addDefinition_returns computed, fun _ => addDefinition_current computed,
          fun _ => addDefinition_acceptable computed⟩
    have amends : Amends c.platform (commonRevision remove) key request m (m.registryFor definitions
        (m.operations.insert key print) (m.registryRevision + 1)) := by
      refine ⟨new, ?_, rfl, changes.1⟩
      have unmarked : (commonRevision remove).mark = "" := by cases remove <;> rfl
      rw [unmarked, ← digest]
      simp [Members.registryFor]
    refine .assume (p := Q m) (fun _ holds => holds.1 ▸ holds.2.2) fun held => ?_
    refine .bind ((write_ready amends (allow m _ ⟨held, amends, changes.2.1, changes.2.2, few⟩)).weaken
      (fun _ holds => ⟨holds.1, holds.2.1⟩) (fun _ _ post => post) fun _ _ fail => fail) fun _ => ?_
    refine .bind (((replay_recorded fun operations => operations = m.operations.insert key print)).fails
      fun _ _ fail => fail.running) fun _ => .pure fun _ holds => ⟨holds.1, ?_⟩
    rw [holds.2, digest]
    simp

/-- The key under which the operation of an installer is recorded. -/
def operationKey (P : Platform) (peer : Peer) (request : Message) : String :=
  P.hash (peer.identity ++ ":" ++ request.get "operation_id")

theorem register_spec (peer : Peer) (request : Message) (remove : Bool)
    (allow : ∀ m content, Registers c (fun _ => True) (operationKey c.platform peer request) request
      remove m content → K m content) :
    Conducts (σ := σ) c K Ready (register peer request remove)
      (fun _ v => Ready v ∧ v.members.operations[operationKey c.platform peer request]? =
        some (fingerprint c.platform request)) fun _ => Running := by
  refine .bind ((query_idle _).fails fun _ _ fail => fail.running) fun _ => ?_
  refine .bind ((query_idle _).fails fun _ _ fail => fail.running) fun _ => ?_
  refine .bind ((query_idle _).fails fun _ _ fail => fail.running) fun _ => ?_
  refine .bind ((query_spec _).fails fun _ _ fail => fail.running) fun key =>
    .of_pre fun ⟨_, _, hashed⟩ => ?_
  obtain rfl : key = operationKey c.platform peer request := hash_returns hashed
  exact (commonRegister_spec _ request remove allow).weaken (fun _ holds => ⟨holds, trivial⟩)
    (fun _ _ post => post) fun _ _ fail => fail

/-- The method of a registration. -/
def isRegistration (request : Message) : Prop :=
  request.get "method" = "register" ∨ request.get "method" = "update" ∨
    request.get "method" = "unregister"

instance (request : Message) : Decidable (isRegistration request) :=
  inferInstanceAs (Decidable (_ ∨ _ ∨ _))

/-- The key under which the verdict on an offline record is recorded. -/
def offlineKey (P : Platform) (seed : Message) : String :=
  "offline-image-v1:" ++ P.hash ((recordRequest seed).get "operation_id")

/-- What a call may do to the registry: an installer's operation and an offline record are
recorded under their keys, and no other call amends it. -/
def Step.Allows (c : Context ε) : Step σ → Members → Registry → Prop
  | .execute peer request, m, content => isRegistration request ∧
    Registers c (fun _ => True) (operationKey c.platform peer request) request
      (request.get "method" == "unregister") m content
  | .importOfflineRegistration seed, m, content =>
    (∃ n, c.environment.Current true (recordRequest seed) n) ∧
      (Registers c (fun m => Seedable m.definitions (recordRequest seed))
          (offlineKey c.platform seed) (recordRequest seed) false m content ∨
        Amends c.platform .obsolete (offlineKey c.platform seed) (recordRequest seed) m content)
  | _, _, _ => False

/-- An installer's operation that returned normally is recorded. -/
def Noted (P : Platform) (peer : Peer) (request : Message) (m : Members) : Prop :=
  isRegistration request →
    m.operations[operationKey P peer request]? = some (fingerprint P request)

theorem dispatch_noted (peer : Peer) (request : Message) :
    Conducts (σ := σ) c ((Step.execute peer request : Step σ).Allows c) Ready
      (dispatch peer request) (fun _ v => Ready v ∧ Noted c.platform peer request v.members)
      fun _ => Running := by
  have other : ¬ isRegistration request → ∀ {x : Process σ ε Message},
      Conducts (σ := σ) c ((Step.execute peer request : Step σ).Allows c) Ready x
        (fun _ => Ready) (fun _ => Running) →
      Conducts (σ := σ) c ((Step.execute peer request : Step σ).Allows c) Ready x
        (fun _ v => Ready v ∧ Noted c.platform peer request v.members) fun _ => Running :=
    fun unnamed _ h => h.weaken (fun _ holds => holds)
      (fun _ _ post => ⟨post, fun named => absurd named unnamed⟩) fun _ _ fail => fail
  have performs : ∀ {call : Call}, call.operates →
      Conducts (σ := σ) c ((Step.execute peer request : Step σ).Allows c) Ready (perform call)
        (fun _ => Ready) fun _ => Running :=
    fun operates => (perform_ready operates).fails fun _ _ fail => fail.running
  refine .bind (M := fun _ => At Ready) (members_spec.weaken (fun _ holds => holds)
    (fun _ _ post => post.2) fun _ _ fail => fail) fun m => ?_
  refine .ite (fun named => (register_spec _ _ _ fun m content registers =>
    ⟨named, registers⟩).weaken (fun _ holds => holds) (fun _ _ post => ⟨post.1, fun _ => post.2⟩)
    fun _ _ fail => fail) fun unnamed => other unnamed ?_
  refine .ite (fun _ => performs ⟨rfl, by simp, rfl⟩) fun _ => ?_
  refine .ite (fun _ => performs ⟨rfl, by simp, rfl⟩) fun _ => ?_
  refine .ite (fun _ => performs ⟨rfl, by simp, rfl⟩) fun _ => ?_
  refine .ite (fun _ => performs ⟨rfl, by simp, rfl⟩) fun _ => ?_
  refine .ite (fun _ => performs ⟨rfl, by simp, rfl⟩) fun _ => ?_
  refine .ite (fun _ => performs ⟨rfl, by simp, rfl⟩) fun _ => ?_
  refine .ite (fun _ => performs ⟨rfl, by simp, rfl⟩) fun _ => ?_
  refine .ite (fun _ => .pure fun _ holds => holds) fun _ => ?_
  refine .ite (fun _ => .pure fun _ holds => holds) fun _ => ?_
  exact (query_idle _).fails fun _ _ fail => fail.running

theorem dispatch_spec (peer : Peer) (request : Message) :
    Conducts (σ := σ) c ((Step.execute peer request : Step σ).Allows c) Ready
      (dispatch peer request) (fun _ => Ready) fun _ => Running :=
  (dispatch_noted peer request).weaken (fun _ holds => holds) (fun _ _ post => post.1)
    fun _ _ fail => fail

theorem noteFailure_spec (failure : Failure) :
    Conducts (σ := σ) c K Rest (noteFailure failure) (fun _ => Rest) F :=
  steer_spec (fun m => { Members.Steers.refl m with fenced := fun up => by simp [up] })
    fun _ holds => holds

theorem failureReply_spec (failure : Failure) :
    Conducts (σ := σ) c K Rest (failureReply failure) (fun _ => Rest) F :=
  .bind members_spec fun _ => .pure fun _ holds => holds.2

/-- The operation starts from a storage that is in order. -/
theorem prepare_clear (peer : Peer) :
    Conducts (σ := σ) c K Rest (prepare peer) (fun _ => Clear) fun _ => Rest := by
  refine .bind ensure_clear fun _ => ?_
  refine .bind members_spec fun m => ?_
  refine .bind ((query_idle _).fails fun _ _ fail => fail.2.1.running.rest) fun _ => ?_
  refine .bind (steer_spec (B := Clear) (fun m => { Members.Steers.refl m with })
    fun _ holds => holds.2) fun _ => ?_
  refine .bind ((performPlain_spec (A := Clear) (B := fun _ => Clear)
    (fun holds work => operation_move ⟨rfl, by simp, rfl⟩ holds.1 work) fun _ holds work =>
      ⟨holds.1.commit rfl, holds.2.1, holds.2.2.commit (work_incarnation work (by simp) (by simp))⟩).fails
        fun _ _ fail => fail.1.running.rest) fun _ => ?_
  refine .bind ((query_idle _).fails fun _ _ fail => fail.1.running.rest) fun _ => ?_
  exact .pure fun _ holds => holds

theorem prepare_spec (peer : Peer) :
    Conducts (σ := σ) c K Rest (prepare peer) (fun _ => Ready) fun _ => Rest :=
  (prepare_clear peer).weaken (fun _ holds => holds) (fun _ _ post => post.1) fun _ _ fail => fail

theorem checkReply_spec (peer : Peer) (request result : Message) :
    Conducts (σ := σ) c K Ready (checkReply peer request result) (fun _ => Ready) fun _ => Rest := by
  refine .bind members_spec fun m => ?_
  exact (query_idle _).weaken (fun _ holds => holds.2) (fun _ _ post => post)
    fun _ _ fail => fail.running.rest

/-- What follows the operation, up to the reply. -/
theorem publish_spec (peer : Peer) (request result : Message) (epoch : String) (generation : Nat) :
    Conducts (σ := σ) c K Ready (do
      ensure
      query (require (epoch = (← members).epoch) .estale
        "database generation changed before reply")
      checkReply peer request result
      let metadata ← snapshot
      query (require (metadata.get "epoch" = epoch) .estale
        "database generation changed during final publication snapshot")
      let stamped ← query (checkProfile request result generation)
      pure (stamped.insertAll metadata)) (fun _ => Clear) fun _ => Rest := by
  refine .bind (ensure_spec.weaken (fun _ holds => holds.running.rest) (fun _ _ post => post)
    fun _ _ fail => fail) fun _ => ?_
  refine .bind members_spec fun m => ?_
  refine .bind ((query_idle _).fails fun _ _ fail => fail.2.running.rest) fun _ => ?_
  refine .bind ((checkReply_spec peer request result).weaken (fun _ holds => holds.2)
    (fun _ _ post => post) fun _ _ fail => fail) fun _ => ?_
  refine .bind (snapshot_clear.weaken (fun _ holds => holds.running.rest) (fun _ _ post => post)
    fun _ _ fail => fail) fun metadata => ?_
  refine .bind ((query_idle _).fails fun _ _ fail => fail.1.running.rest) fun _ => ?_
  refine .bind ((query_idle _).fails fun _ _ fail => fail.1.running.rest) fun _ => ?_
  exact .pure fun _ holds => holds

theorem executeChecked_spec (peer : Peer) (request : Message) :
    Conducts (σ := σ) c ((Step.execute peer request : Step σ).Allows c) Rest
      (executeChecked peer request) (fun _ => Clear) fun _ => Rest := by
  refine .bind (prepare_spec peer) fun found => ?_
  refine .bind ((dispatch_spec peer request).fails fun _ _ fail => fail.rest) fun result => ?_
  exact publish_spec peer request result found.1 found.2

theorem execute_spec (peer : Peer) (request : Message) :
    Conducts (σ := σ) c ((Step.execute peer request : Step σ).Allows c) Rest
      (execute peer request) (fun _ => Rest) F := by
  refine .tryCatch (C := fun _ => At Rest) ?_ fun failure => ?_
  · exact .bind (executeChecked_spec peer request) fun _ => .pure fun _ holds =>
      holds.1.running.rest
  · exact .bind (noteFailure_spec failure) fun _ => failureReply_spec failure

theorem rememberObsolete_spec {m : Members} {key print : String} (new : m.operations[key]? = none)
    (digest : print = fingerprint c.platform request)
    (allow : ∀ content, Amends c.platform .obsolete key request m content → K m content) :
    Conducts (σ := σ) c K (fun v => v.members = m ∧ Ready v) (rememberObsolete key print)
      (fun _ v => Ready v ∧ ∃ value, v.members.operations[key]? = some value)
      fun _ => Running := by
  refine .bind members_spec fun found => .assume (p := found = m)
    (fun _ holds => holds.1.symm.trans holds.2.1) ?_
  rintro rfl
  have amends : Amends c.platform .obsolete key request found (found.registryFor found.definitions
      (found.operations.insert key (obsoleteMark ++ print)) (found.registryRevision + 1)) :=
    ⟨new, by rw [digest]; rfl, rfl, .obsolete⟩
  refine .bind ((write_ready amends (allow _ amends)).weaken
    (fun _ holds => ⟨holds.1, holds.2.2⟩) (fun _ _ post => post) fun _ _ fail => fail) fun _ => ?_
  refine (replay_recorded fun operations => ∃ value, operations[key]? = some value).weaken
    (fun _ holds => ⟨holds.1, ?_⟩) (fun _ _ post => post) fun _ _ fail => fail.running
  exact ⟨obsoleteMark ++ print, by rw [holds.2]; simp⟩

/-- What the verdict on a seed is worth: one that is not obsolete may be registered, unless
it was recorded before; one that is obsolete is recorded. -/
structure Judged (key : String) (request : Message) (obsolete : Bool) (m : Members) : Prop where
  seedable : obsolete = false → m.operations[key]? = none → Seedable m.definitions request
  recorded : obsolete = true → ∃ value, m.operations[key]? = some value

theorem judgeSeed_spec {key print : String} (digest : print = fingerprint c.platform request)
    (allow : ∀ m content, Amends c.platform .obsolete key request m content → K m content) :
    Conducts (σ := σ) c K Ready (judgeSeed key print request)
      (fun obsolete v => Ready v ∧ Judged key request obsolete v.members) fun _ => Running := by
  refine .bind members_spec fun m => ?_
  split
  · rename_i prior stored
    refine .bind ((query_idle _).fails fun _ _ fail => fail.2.running) fun _ => ?_
    refine .pure fun _ holds => ⟨holds.2, fun _ new => ?_, fun _ => ⟨prior, ?_⟩⟩
    · rw [holds.1, stored] at new
      cases new
    · rw [holds.1, stored]
  · rename_i new
    refine .bind ((query_spec _).fails fun _ _ fail => fail.2.running) fun obsolete =>
      .of_pre fun ⟨_, _, judged⟩ => ?_
    refine .bind (β := Unit)
      (M := fun _ => At fun v => Ready v ∧ Judged key request obsolete v.members)
      (.when (fun verdict => ?_) fun verdict _ holds => ?_) fun _ => .pure fun _ holds => holds
    · refine (rememberObsolete_spec new digest (allow m)).weaken (fun _ holds => holds)
        (fun _ _ post => ⟨post.1, fun other => ?_, fun _ => post.2⟩) fun _ _ fail => fail
      rw [verdict] at other
      cases other
    · obtain rfl : obsolete = false := by simpa using verdict
      obtain ⟨same, ready⟩ := holds
      refine ⟨ready, fun _ _ => ?_, by simp⟩
      rw [same]
      exact obsoleteOfflineRegistration_returns judged

theorem requireInstallation_returns {lo hi : Progress σ ε} {stale failed : String} {u : Unit}
    (h : Returns c lo (requireInstallation request stale failed) u hi) :
    ∃ n, c.environment.Current true request n := by
  obtain ⟨status, asked, h⟩ := h.bind
  cases status with
  | none => exact offlineInstallationStatus_current asked
  | some status => exact absurd h not_returns_fail

/-- What follows an import, up to the reply. -/
theorem publishSeed_spec (request result : Message) (obsolete : Bool) (epoch : String) :
    Conducts (σ := σ) c K Ready (do
      ensure
      query (require (epoch = (← members).epoch) .estale
        "database changed during offline registration")
      query (requireInstallation request "offline installation changed before publication"
        "offline installation authority validation failed before publication")
      let metadata ← snapshot
      query (require (metadata.get "epoch" = epoch) .estale
        "database changed during offline publication snapshot")
      let merged := result.insertAll metadata
      if obsolete then
        pure ⟨some .estale, merged.insert "reason"
          "obsolete-seed: a newer or deactivated definition is retained"⟩
      else pure (⟨none, merged⟩ : Reply)) (fun _ => Clear) fun _ => Rest := by
  refine .bind (ensure_spec.weaken (fun _ holds => holds.running.rest) (fun _ _ post => post)
    fun _ _ fail => fail) fun _ => ?_
  refine .bind members_spec fun m => ?_
  refine .bind ((query_idle _).fails fun _ _ fail => fail.2.running.rest) fun _ => ?_
  refine .bind ((query_idle _).fails fun _ _ fail => fail.2.running.rest) fun _ => ?_
  refine .bind (snapshot_clear.weaken (fun _ holds => holds.2.running.rest) (fun _ _ post => post)
    fun _ _ fail => fail) fun metadata => ?_
  refine .bind ((query_idle _).fails fun _ _ fail => fail.1.running.rest) fun _ => ?_
  exact .ite (fun _ => .pure fun _ holds => holds) fun _ => .pure fun _ holds => holds

/-- A seed that was judged is registered and recorded. -/
theorem commonRegister_seed {seed : Message}
    (current : ∃ n, c.environment.Current true (recordRequest seed) n) :
    Conducts (σ := σ) c ((Step.importOfflineRegistration seed : Step σ).Allows c)
      (fun v => Ready v ∧ Judged (offlineKey c.platform seed) (recordRequest seed) false v.members)
      (commonRegister (offlineKey c.platform seed) (recordRequest seed) false)
      (fun _ v => Ready v ∧ v.members.operations[offlineKey c.platform seed]? =
        some (fingerprint c.platform (recordRequest seed))) fun _ => Running :=
  commonRegister_spec _ _ _ fun _ _ registers =>
    ⟨current, Or.inl ⟨registers.1.seedable rfl registers.2.1.new, registers.2⟩⟩

theorem importChecked_spec (seed : Message) :
    Conducts (σ := σ) c ((Step.importOfflineRegistration seed : Step σ).Allows c) Rest
      (importChecked seed) (fun _ => Clear) fun _ => Rest := by
  refine .bind ensure_spec fun _ => ?_
  refine .bind members_spec fun m => ?_
  refine .bind ((query_spec _).fails fun _ _ fail => fail.2.running.rest) fun request =>
    .of_pre fun ⟨_, _, accepted⟩ => ?_
  obtain ⟨rfl, plain⟩ := checkRecord_returns accepted
  refine .bind ((query_spec (A := fun v => v.members = m ∧ Ready v) _).fails
    fun _ _ fail => fail.2.running.rest) fun _ => .of_pre fun ⟨_, _, installed⟩ => ?_
  have current := requireInstallation_returns installed
  refine .bind ((query_spec (A := fun v => v.members = m ∧ Ready v) _).fails
    fun _ _ fail => fail.2.running.rest) fun digest => .of_pre fun ⟨_, _, named⟩ => ?_
  obtain rfl := hash_returns named
  refine .bind ((query_spec (A := fun v => v.members = m ∧ Ready v) _).fails
    fun _ _ fail => fail.2.running.rest) fun print => .of_pre fun ⟨_, _, hashed⟩ => ?_
  have digest : print = fingerprint c.platform (recordRequest seed) := by
    rw [fingerprint, plain]
    exact hash_returns hashed
  refine .bind ((judgeSeed_spec digest fun m content amends => ⟨current, Or.inr amends⟩).weaken
    (fun _ holds => holds.2) (fun _ _ post => post) fun _ _ fail => fail.rest) fun obsolete => ?_
  refine .bind (.ite (fun _ => .pure fun _ holds => holds.1) fun new =>
    (commonRegister_seed current).weaken (fun _ holds => ⟨holds.1, ?_⟩) (fun _ _ post => post.1)
      fun _ _ fail => fail.rest) fun result => ?_
  · obtain rfl : obsolete = false := by simpa using new
    exact holds.2
  exact publishSeed_spec _ result obsolete m.epoch

theorem importOfflineRegistration_spec (seed : Message) :
    Conducts (σ := σ) c ((Step.importOfflineRegistration seed : Step σ).Allows c) Rest
      (importOfflineRegistration seed) (fun _ => Rest) F := by
  refine .bind members_spec fun m => ?_
  refine .bind (steer_spec (B := Rest) (fun m => { Members.Steers.refl m with })
    fun _ holds => holds.2) fun _ => ?_
  have checked := (importChecked_spec (c := c) (σ := σ) seed).weaken (fun _ holds => holds)
    (fun _ _ post => post.1.running.rest) fun _ _ fail => fail
  refine .bind (.tryCatch checked fun failure =>
    .bind (noteFailure_spec failure) fun _ => failureReply_spec failure) fun _ => ?_
  refine .bind (steer_spec (B := Rest) (fun m => { Members.Steers.refl m with })
    fun _ holds => holds) fun _ => ?_
  exact .pure fun _ holds => holds

/-- A batch that is committed makes the next class due. -/
theorem compactMetadata_spec :
    Conducts (σ := σ) c K Ready compactMetadata (fun _ => Ready) fun _ => Rest := by
  intro w _ ready
  have exit := performPlain_exit (c := c) (.compact w.members.maintenanceClass) w
  rw [compactMetadata, run_members_bind, Act.run_bind]
  rcases run : (performPlain (.compact w.members.maintenanceClass)).run c w with ⟨result, v⟩
  rw [run] at exit
  cases exit with
  | failed later =>
    exact ⟨.single (.progress later), .error (ready.at later).running.rest⟩
  | @committed outcome q work =>
    refine ⟨.single (.commit work rfl (by simp) (Or.inr (Or.inr ready.2)) (.batch _)), .ok ?_⟩
    have view := World.view_turned work.le (entryOf c (.compact w.members.maintenanceClass)
      w.members.tables outcome w.progress q) ((w.members.maintenanceClass + 1) % 4)
    exact show Ready _ from view ▸ ready.commit rfl

theorem maintain_spec : Conducts (σ := σ) c K Rest maintain (fun _ => Rest) F := by
  refine .tryCatch (C := fun _ => At Rest) ?_ fun failure => ?_
  · refine .bind ensure_spec fun _ => ?_
    refine .bind members_spec fun m => ?_
    refine .bind (compactMetadata_spec.weaken (fun _ holds => holds.2) (fun _ _ post => post)
      fun _ _ fail => fail) fun _ => ?_
    refine .bind (snapshot_spec.weaken (fun _ holds => holds.running.rest) (fun _ _ post => post)
      fun _ _ fail => fail) fun _ => ?_
    refine .bind ((query_idle _).fails fun _ _ fail => fail.running.rest) fun _ => ?_
    exact .pure fun _ holds => holds.running.rest
  · exact .bind (noteFailure_spec failure) fun _ => .pure fun _ holds => holds

theorem quickCheck_spec :
    Conducts (σ := σ) c K Ready quickCheck (fun _ => Ready) fun _ => Rest := by
  refine .bind ((query_idle _).fails fun _ _ fail => fail.running.rest) fun _ => ?_
  refine .bind members_spec fun m => .ite (fun _ => ?_) fun _ => .pure fun _ holds => holds.2
  refine .bind (steer_spec (B := Ready) (fun m => { Members.Steers.refl m with })
    fun _ holds => holds.2) fun _ => ?_
  exact failStorage_spec fun _ _ _ holds => holds.running.rest

theorem tickChecked_spec :
    Conducts (σ := σ) c K Rest tickChecked (fun _ => Rest) fun _ => Rest := by
  refine .bind ensure_spec fun _ => ?_
  refine .bind quickCheck_spec fun _ => ?_
  refine .bind (replay_ready.fails fun _ _ fail => fail.running.rest) fun _ => ?_
  refine .bind ((performPlain_ready ⟨rfl, by simp, rfl⟩).fails fun _ _ fail => fail.running.rest)
    fun _ => ?_
  refine .bind ((query_idle _).fails fun _ _ fail => fail.running.rest) fun _ => ?_
  refine .bind members_spec fun m => .ite (fun _ => ?_) fun _ =>
    .pure fun _ holds => holds.2.running.rest
  refine .bind ((query_idle _).fails fun _ _ fail => fail.2.running.rest) fun _ => ?_
  refine .bind (steer_spec (B := Ready) (fun m => { Members.Steers.refl m with })
    fun _ holds => holds.2) fun _ => ?_
  exact .bind compactMetadata_spec fun _ => .pure fun _ holds => holds.running.rest

theorem tick_spec : Conducts (σ := σ) c K Rest tick (fun _ => Rest) F :=
  .tryCatch tickChecked_spec fun _ =>
    steer_spec (fun m => { Members.Steers.refl m with fenced := fun _ => rfl }) fun _ holds => holds

theorem fenceProfiles_spec (retireGrants : Bool) (removedUser : String) :
    Conducts (σ := σ) c K Rest (fenceProfiles retireGrants removedUser) (fun _ => Rest)
      fun _ => Rest := by
  refine .bind (query_idle _) fun state => .ite (fun _ => ?_) fun _ => .pure fun _ holds => holds
  refine .bind ensure_spec fun _ => ?_
  refine .bind ((performPlain_ready ⟨rfl, by simp, rfl⟩).fails fun _ _ fail => fail.running.rest)
    fun _ => ?_
  exact .pure fun _ holds => holds.running.rest

/-- The reset changes only the tables. -/
theorem resetRuntime_rest :
    Conducts (σ := σ) c K Rest resetRuntime (fun _ => Rest) fun _ => Rest :=
  .bind (performPlain_spec (B := fun _ => Rest)
    (fun _ work => .plain work (by simp [Call.projects, Call.compacts]) (Or.inr (Or.inl rfl))) fun _ holds _ => holds)
    fun _ => .pure fun _ holds => holds

theorem shutdown_spec : Conducts (σ := σ) c K Rest shutdown (fun _ => Rest) fun _ => Rest := by
  refine .bind members_spec fun m => .ite (fun _ => ?_) fun _ => .pure fun _ holds => holds.2
  exact resetRuntime_rest.weaken (fun _ holds => holds.2) (fun _ _ post => post)
    fun _ _ fail => fail

theorem startRepository_spec :
    Conducts (σ := σ) c K (fun v => opened v.record = false ∧ Booted v.members) startRepository
      (fun _ => Rest) F := by
  refine .bind openRepository_spec fun success => ?_
  refine .bind (.when (fun _ => ?_) fun kept _ holds => ?_) fun _ => .pure fun _ holds => holds
  · refine steer_spec (B := Rest) (fun m => { Members.Steers.refl m with }) fun _ _ handle => ?_
    cases handle
  · exact fun _ => holds (by simpa using kept)

end

/-! ### Runs -/

section
variable {c : Context ε} {K : Members → Registry → Prop}

theorem replyOf_spec {α : Type} {x : Process σ ε α} {A B : View σ ε → Prop}
    {F : Failure → View σ ε → Prop} (fields : α → Message)
    (h : Conducts c K A x (fun _ => B) fun _ => B) :
    Conducts c K A (replyOf x fields) (fun _ => B) F :=
  .tryCatch (.bind h fun _ => .pure fun _ holds => holds) fun _ => .pure fun _ holds => holds

/-- What a call may start from. -/
def Step.Entered : Step σ → View σ ε → Prop
  | .restart _ _ _, v => opened v.record = false ∧ Booted v.members
  | _, v => Rest v

/-- Every call is a sequence of moves. -/
theorem Step.act_spec (step : Step σ) :
    Conducts (σ := σ) c (step.Allows c) step.Entered step.act (fun _ => Rest)
      fun _ _ => False := by
  cases step with
  | execute peer request => exact execute_spec peer request
  | importOfflineRegistration seed => exact importOfflineRegistration_spec seed
  | offlineReconciliation enabled =>
    exact replyOf_spec _ (steer_spec (fun m => { Members.Steers.refl m with }) fun _ holds => holds)
  | snapshot =>
    exact replyOf_spec _ (snapshot_spec.weaken (fun _ holds => holds)
      (fun _ _ post => post.running.rest) fun _ _ fail => fail)
  | maintain => exact maintain_spec
  | tick => exact replyOf_spec _ tick_spec
  | fenceProfiles retireGrants removedUser =>
    exact replyOf_spec _ (fenceProfiles_spec retireGrants removedUser)
  | shutdown => exact replyOf_spec _ shutdown_spec
  | restart main offline powerLoss => exact replyOf_spec _ startRepository_spec

end

/-- The worlds between moves. -/
inductive Runs (P : Platform) : World σ ε → Prop where
  | start (device : Nat) (registry : Option Registry) (main : σ) :
      Runs P (World.start device registry main)
  | enter {w : World σ ε} (step : Step σ) : Runs P w → Runs P (step.enter w)
  | move {w v : World σ ε} {c : Context ε} {K : Members → Registry → Prop}
      (platform : c.platform = P) : Runs P w → Move c K w v → Runs P v

/-- A power loss brings an earlier registry back. -/
theorem Disk.All.powerLoss {disk : Disk} {K : RegistryFile → Prop} (h : disk.All K) :
    disk.powerLoss.All K := by
  rintro file (placed | durable | aside)
  · exact h file (.inr (.inl placed))
  · exact h file (.inr (.inl durable))
  · exact h file (.inr (.inr aside))

variable {P : Platform} {w : World σ ε}

omit [Host σ ε] in
theorem Step.enter_recorded (step : Step σ) (h : Recorded P w.members w.progress.nextId) :
    Recorded P (step.enter w).members (step.enter w).progress.nextId := by
  cases step with
  | restart main offline powerLoss =>
    cases powerLoss with
    | true => exact ⟨Platform.Known.spoken (Or.inl rfl), h.tables, h.files.powerLoss, h.real⟩
    | false => exact ⟨Platform.Known.spoken (Or.inl rfl), h.tables, h.files, h.real⟩
  | _ => exact h

omit [Host σ ε] in
theorem Step.enter_entered (step : Step σ) (h : Rest w.view) :
    step.Entered (step.enter w).view := by
  cases step with
  | restart main offline powerLoss => exact ⟨rfl, rfl, rfl, rfl⟩
  | _ => exact h

/-- What every file of an image has. -/
theorem imageRegistry_all {device : Nat} {registry : Option Registry} {K : RegistryFile → Prop}
    (image : ∀ content : Registry, K ⟨1, .ok { content with database := .none }⟩) :
    Disk.All ⟨device, none, imageRegistry registry, imageRegistry registry, none, 1, 2⟩ K := by
  have each : ∀ file, imageRegistry registry = some file → K file := by
    intro file stored
    obtain ⟨content, _, rfl⟩ := Option.map_eq_some_iff.mp stored
    exact image content
  rintro file (placed | durable | ⟨⟨⟩⟩)
  · exact each file placed
  · exact each file durable

omit [Host σ ε] in
theorem World.start_recorded (P : Platform) (device : Nat) (registry : Option Registry) (main : σ) :
    Recorded P (World.start device registry main : World σ ε).members 0 := by
  have blank : P.Spoken 0 "" := Platform.Known.spoken (Or.inl rfl)
  exact ⟨blank, Or.inl rfl, imageRegistry_all fun _ => blank, Nat.one_pos,
    fun file stored => by cases stored⟩

/-- Moves lead from the beginning of a call to its end. -/
theorem Step.run_reaches (step : Step σ) (environment : Environment ε)
    (recorded : Recorded P w.members w.progress.nextId) (entered : step.Entered (step.enter w).view) :
    (law ⟨P, environment⟩ (step.Allows ⟨P, environment⟩)).Reaches (step.enter w)
        (step.run P environment w).2 ∧
      Rest (step.run P environment w).2.view := by
  obtain ⟨reaches, ends⟩ := Step.act_spec (c := ⟨P, environment⟩) step (step.enter w)
    (step.enter_recorded recorded) entered
  refine ⟨reaches, ?_⟩
  dsimp only [Step.run]
  rcases run : step.act.run ⟨P, environment⟩ (step.enter w) with ⟨e | reply, v⟩
  · rw [run] at ends
    cases ends with
    | error failed => exact failed.elim
  · rw [run] at ends
    cases ends with
    | ok returned => exact returned

theorem Runs.reaches {c : Context ε} {K : Members → Registry → Prop} {w v : World σ ε}
    (platform : c.platform = P) (h : Runs P w) (reaches : (law c K).Reaches w v) : Runs P v := by
  induction reaches with
  | refl => exact h
  | tail _ move ih => exact .move platform ih move

/-- The worlds of all runs in which the process may also be killed between two moves of a
call; then it is started again. -/
inductive Attained (P : Platform) : World σ ε → Prop where
  | start (device : Nat) (registry : Option Registry) (main : σ) :
      Attained P (World.start device registry main)
  | step {w : World σ ε} (step : Step σ) (environment : Environment ε) :
      Attained P w → Attained P (step.run P environment w).2
  | killed {w v : World σ ε} (step : Step σ) (environment : Environment ε) (main : σ)
      (offline powerLoss : Bool) (next : Environment ε) :
      Attained P w →
      (law ⟨P, environment⟩ (step.Allows ⟨P, environment⟩)).Reaches (step.enter w) v →
      (law ⟨P, environment⟩ (step.Allows ⟨P, environment⟩)).Reaches v
        (step.run P environment w).2 →
      Attained P ((Step.restart main offline powerLoss).run P next v).2

theorem Reachable.attained (h : Reachable P w) : Attained P w := by
  induction h with
  | start device registry main => exact .start device registry main
  | step step environment _ ih => exact .step step environment ih

/-- Every run is made of moves. -/
theorem Attained.runs (h : Attained P w) :
    Runs P w ∧ Recorded P w.members w.progress.nextId ∧ Rest w.view := by
  induction h with
  | start device registry main =>
    exact ⟨.start device registry main, World.start_recorded P device registry main,
      fun handle => by cases handle⟩
  | step step environment _ ih =>
    obtain ⟨runs, recorded, rest⟩ := ih
    have moves := step.run_reaches environment recorded (step.enter_entered rest)
    refine ⟨(runs.enter step).reaches rfl moves.1, ?_, moves.2⟩
    exact moves.1.stable (law ⟨P, environment⟩ _).keeps (step.enter_recorded recorded)
  | @killed w v step environment main offline powerLoss next _ before _ ih =>
    obtain ⟨runs, recorded, _⟩ := ih
    have here := (runs.enter step).reaches rfl before
    have known : Recorded P v.members v.progress.nextId :=
      before.stable (law ⟨P, environment⟩ _).keeps (step.enter_recorded recorded)
    have moves := (Step.restart main offline powerLoss).run_reaches next known ⟨rfl, rfl, rfl, rfl⟩
    refine ⟨(here.enter (.restart main offline powerLoss)).reaches rfl moves.1, ?_, moves.2⟩
    exact moves.1.stable (law ⟨P, next⟩ _).keeps (Step.enter_recorded _ known)

theorem Reachable.runs (h : Reachable P w) :
    Runs P w ∧ Recorded P w.members w.progress.nextId ∧ Rest w.view :=
  h.attained.runs

end Consent.Repository
