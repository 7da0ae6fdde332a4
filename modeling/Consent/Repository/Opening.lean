import Consent.Repository.Moves

/-!
The moves of `Open`: reading and writing the registry, retiring, creating and adopting a
database file, and the projection of the definitions.
-/
namespace Consent.Repository
open Profile
open Act (Returns Spec Ends Law)

variable {σ ε : Type} [Host σ ε]

section
variable {c : Context ε} {K : Members → Registry → Prop} {α : Type} {A B : View σ ε → Prop}
  {F : Failure → View σ ε → Prop}

/-! ### The registry -/

theorem attemptWrite_run (content : Registry) (w : World σ ε) :
    ∃ q outcome, w.progress ≤ q ∧ (attemptWrite content).run c w = (.ok outcome, w.at q) ∧
      (outcome = .durable → registryFits c.platform content) := by
  have run : (attemptWrite content).run c w =
      (if registryFits c.platform content then writeFile else pure .failed).run c w := rfl
  by_cases fits : registryFits c.platform content
  · rw [if_pos fits] at run
    exact ⟨{ w.progress with nextId := w.progress.nextId + 1, written := w.progress.written + 1 },
      _, ⟨Nat.le_succ _, le_refl _, le_refl _, .refl⟩, run, fun _ => fits⟩
  · rw [if_neg fits] at run
    exact ⟨w.progress, .failed, le_refl _, run, fun durable => by cases durable⟩

theorem reportWrite_run {content : Registry} {outcome : WriteOutcome}
    (fits : outcome = .durable → registryFits c.platform content) (w : World σ ε) :
    ∃ e, e.sqliteCode = none ∧ (reportWrite content outcome).run c w =
      (if outcome = .durable then .ok () else .error e, w) := by
  have run : ∀ rest : Process σ ε Unit, (query (require
      (registryFits c.platform content) .enospc "definition registry capacity exceeded") >>=
        fun _ => rest).run c w = if registryFits c.platform content then rest.run c w else
          (.error ⟨.enospc, "definition registry capacity exceeded", none⟩, w) := by
    intro rest
    rw [run_query_bind, run_require]
    by_cases enough : registryFits c.platform content
    · simp only [enough, if_true]
      rfl
    · simp only [enough, if_false]
      rfl
  by_cases enough : registryFits c.platform content
  · cases outcome with
    | failed => exact ⟨_, rfl, (run _).trans (if_pos enough)⟩
    | renamed => exact ⟨_, rfl, (run _).trans (if_pos enough)⟩
    | durable => exact ⟨⟨.storage, "", none⟩, rfl, (run _).trans (if_pos enough)⟩
  · have other : outcome ≠ .durable := fun durable => enough (fits durable)
    refine ⟨⟨.enospc, "definition registry capacity exceeded", none⟩, rfl, ?_⟩
    rw [if_neg other]
    exact (run _).trans (if_neg enough)

/-- A write ends with one of its outcomes, and only a durable one is a success. -/
theorem writeRegistry_run (definitions : Definitions) (operations : Message) (revision : Int)
    (w : World σ ε) : ∃ q outcome e, w.progress ≤ q ∧ e.sqliteCode = none ∧
      (writeRegistry definitions operations revision).run c w =
        (if outcome = .durable then .ok () else .error e,
          (w.at q).write (w.members.registryFor definitions operations revision) outcome) := by
  obtain ⟨q, outcome, later, attempt, fits⟩ := attemptWrite_run (c := c)
    (w.members.registryFor definitions operations revision) w
  obtain ⟨e, plain, report⟩ := reportWrite_run fits
    ((w.at q).write (w.members.registryFor definitions operations revision) outcome)
  refine ⟨q, outcome, e, later, plain, ?_⟩
  rw [writeRegistry, run_members_bind, Act.run_bind, attempt]
  exact report

/-- The view after a registry was written. -/
def View.write (v : View σ ε) (content : Registry) (outcome : WriteOutcome) : View σ ε where
  members := Members.written { v.members with expected := content.database } content outcome
  record := .storage (.wrote v.members.disk.content content outcome) :: v.record

theorem World.view_write {w : World σ ε} {q : Progress σ ε} (later : w.progress ≤ q)
    (content : Registry) (outcome : WriteOutcome) :
    ((w.at q).write content outcome).view = w.view.write content outcome := by
  have record : (q.record : List (Moment σ ε)) = w.progress.record := Progress.record_eq later
  simp only [World.view, View.write, World.write, World.note, Progress.record, World.at,
    List.filter_cons, Moment.own, if_true] at record ⊢
  rw [record]

/-- What is known after a write that did not reach durability. -/
def Unwritten (A : View σ ε → Prop) (content : View σ ε → Registry) (e : Failure) (v : View σ ε) :
    Prop :=
  e.sqliteCode = none ∧ ∃ u outcome, A u ∧ v = u.write (content u) outcome

theorem write_spec {x : Process σ ε Unit} (content : View σ ε → Registry)
    (run : ∀ w : World σ ε, ∃ q outcome e, w.progress ≤ q ∧ e.sqliteCode = none ∧
      x.run c w = (if outcome = .durable then .ok () else .error e,
        (w.at q).write (content w.view) outcome))
    (source : ∀ v, A v → Source c.platform K v.members (content v))
    (next : ∀ v, A v → B (v.write (content v) .durable)) :
    Conducts c K A x (fun _ => B) (Unwritten A content) := by
  intro w _ holds
  obtain ⟨q, outcome, e, later, plain, run⟩ := run w
  have view := World.view_write later (content w.view) outcome
  rw [run]
  have written : Move c K (w.at q) ((w.at q).write (content w.view) outcome) :=
    .write (w := w.at q) (source w.view holds) outcome
  refine ⟨.tail (.single (.progress later)) written, ?_⟩
  by_cases durable : outcome = .durable
  · subst durable
    simp only [if_true]
    exact .ok (show B _ from view ▸ next w.view holds)
  · simp only [durable, if_false]
    exact .error ⟨plain, w.view, outcome, holds, view⟩

theorem writeRegistry_spec {definitions : Definitions} {operations : Message} {revision : Int}
    (source : ∀ v, A v → Source c.platform K v.members (v.members.registryFor definitions operations revision))
    (next : ∀ v, A v → B (v.write (v.members.registryFor definitions operations revision) .durable)) :
    Conducts c K A (writeRegistry definitions operations revision) (fun _ => B)
      (Unwritten A fun v => v.members.registryFor definitions operations revision) :=
  write_spec (fun v => v.members.registryFor definitions operations revision)
    (writeRegistry_run definitions operations revision) source next

/-- The registry that binds the repository to a database. -/
def Members.bound (m : Members) (database : DatabaseId) : Registry :=
  ⟨m.definitions, m.operations, m.registryRevision, database⟩

theorem rememberDatabase_spec {database : DatabaseId}
    (source : ∀ v, A v → Source c.platform K v.members (v.members.bound database))
    (next : ∀ v, A v → B (v.write (v.members.bound database) .durable)) :
    Conducts c K A (rememberDatabase database) (fun _ => B)
      (Unwritten A fun v => v.members.bound database) := by
  refine write_spec (fun v => v.members.bound database) (fun w => ?_) source next
  obtain ⟨q, outcome, e, later, plain, run⟩ := writeRegistry_run (c := c) w.members.definitions
    w.members.operations w.members.registryRevision
    { w with members := { w.members with expected := database } }
  exact ⟨q, outcome, e, later, plain, run⟩

theorem Matched.written (m : Members) (content : Registry) :
    Matched (m.written content .durable) := ⟨_, rfl, rfl⟩

/-- What `ReadRegistry` finds, at start-up and when `Ensure` sees another file. -/
theorem readRegistry_spec {initial : Bool} (isOpen : Bool) :
    Conducts (σ := σ) c K (fun v => (opened v.record = isOpen ∧ Fenced v) ∧
        (initial = true → Booted v.members)) (readRegistry initial)
      (fun _ v => opened v.record = isOpen ∧ Matched v.members) fun _ _ => True := by
  refine .bind members_spec fun m => ?_
  rcases stored : m.disk.registry with _ | file
  · refine .bind ((requireStorage_spec fun _ _ _ _ => trivial)) fun _ => ?_
    refine .bind ((requireStorage_spec fun _ _ _ _ => trivial)) fun _ => ?_
    refine (writeRegistry_spec ?_ ?_).weaken (fun _ holds => holds) (fun _ _ post => post)
      fun _ _ _ => trivial
    · rintro v ⟨_, first, rfl, _, booted⟩
      exact .found stored rfl (booted first).expected rfl (booted first).registryIdentity
    · rintro v ⟨_, _, _, ⟨isOpen, _⟩, _⟩
      exact ⟨isOpen, Matched.written _ _⟩
  · refine .bind ((fileOutcome_spec _).weaken (fun _ holds => holds) (fun _ _ post => post)
      fun _ _ _ => trivial) fun _ => ?_
    rcases text : file.text with rejection | content
    · rintro w _ ⟨rfl, _, booted⟩
      have header : file.header = rejection.header := by simp [RegistryFile.header, text]
      have rejects : Move c K w (w.reject initial file.header) := .reject stored booted
      rw [header] at rejects
      exact ⟨.single rejects, .error trivial⟩
    have decoded : file.content = some content := by simp [RegistryFile.content, text]
    have content_eq : m.disk.content = some content := by simp [Disk.content, stored, decoded]
    have expects : Conducts (σ := σ) c K
        (fun v => v.members = m ∧ (opened v.record = isOpen ∧ Fenced v) ∧
          (initial = true → Booted v.members))
        (setMembers fun m => { m with expected := content.database })
        (fun _ v => v.members = { m with expected := content.database } ∧
          opened v.record = isOpen ∧ Fenced v) fun _ _ => True := by
      rintro w _ ⟨same, ⟨isOpen, fenced⟩, _⟩
      have named : w.members.disk.content = some content := by
        rw [show w.members = m from same]
        exact content_eq
      exact ⟨.single (.expect named), .ok ⟨by rw [← same]; rfl, isOpen, fenced⟩⟩
    refine .bind expects fun _ => ?_
    refine .bind ((query_spec _).weaken (fun _ holds => holds) (fun _ _ post => post)
      fun _ _ _ => trivial) fun _ => .of_pre fun passed => ?_
    obtain ⟨_, _, accepted⟩ := passed
    rintro w _ ⟨same, isOpen, fenced⟩
    have here : w.members = { m with expected := content.database } := same
    have found : w.members.disk.registry = some file := by
      rw [here]
      exact stored
    refine ⟨.single (.load found decoded (by rw [here]) (checkRegistry_returns accepted) fenced),
      .ok ⟨isOpen, file, ?_, rfl⟩⟩
    rw [← stored]
    exact congrArg (fun m => m.disk.registry) here

/-- The view after a replay. -/
def View.replayed (v : View σ ε) (entry : Entry) : View σ ε :=
  ⟨{ v.members with disk := v.members.disk.sync, tables := entry.after, fenced := false },
    .commit entry :: v.record⟩

theorem replayRegistry_spec (matched : ∀ v, A v → Matched v.members)
    (sync : ∀ v : View σ ε, A v →
      A ⟨{ v.members with disk := v.members.disk.sync }, v.record⟩)
    (next : ∀ (v : View σ ε) entry offline, A v →
      entry.call = .replay v.members.definitions v.members.registryRevision offline →
      entry.after.incarnation = v.members.tables.incarnation → B (v.replayed entry)) :
    Conducts c K A replayRegistry (fun _ => B) fun _ => A := by
  refine .bind (fileOutcome_spec _) fun _ => ?_
  have synced : Conducts c K A (setMembers fun m => { m with disk := m.disk.sync })
      (fun _ v => A v ∧ ∃ u, A u ∧ v = ⟨{ u.members with disk := u.members.disk.sync }, u.record⟩)
      fun _ => A :=
    fun w _ holds => ⟨.single .sync, .ok ⟨sync w.view holds, w.view, holds, rfl⟩⟩
  refine .bind synced fun _ => ?_
  rintro w _ ⟨holds, u, before, same⟩
  have here : w.members = { u.members with disk := u.members.disk.sync } :=
    congrArg View.members same
  have record : w.progress.record = u.record := congrArg View.record same
  generalize replays : Call.replay w.members.definitions w.members.registryRevision
    w.members.offlineImport = call
  have run : (members >>= fun m => performPlain (.replay m.definitions m.registryRevision
      m.offlineImport) >>= fun _ => setMembers fun m => { m with fenced := false }).run c w =
      match (performPlain call).run c w with
      | (.ok _, t) => (.ok (), t.unfence)
      | (.error e, t) => (.error e, t) := by
    rw [run_members_bind, Act.run_bind, replays]
    rcases (performPlain call).run c w with ⟨e | a, t⟩ <;> rfl
  have exit := performPlain_exit (c := c) call w
  rcases committed : (performPlain call).run c w with ⟨result, v⟩
  rw [committed] at exit run
  cases exit with
  | failed later =>
    have view := World.view_at later
    rw [run]
    exact ⟨.single (.progress later), .error (show A _ from view ▸ holds)⟩
  | @committed outcome q work =>
    have synchronous : w.members.disk.durable = w.members.disk.registry := by
      rw [here]
      rfl
    have kept := work_incarnation work (by simp [← replays]) (by simp [← replays])
    have view : ∀ entry, ((w.at q).commit entry).unfence.view = u.replayed entry := by
      intro entry
      rw [World.view_unfence work.le, here, record]
      rfl
    rw [run]
    refine ⟨.single (.replay (matched w.view holds) synchronous replays.symm work), .ok ?_⟩
    have goal := next u (entryOf c call w.members.tables outcome w.progress q)
      w.members.offlineImport before (by simp [entryOf, ← replays, here])
      (by simp [entryOf, kept, here])
    exact show B _ from view _ ▸ goal

/-! ### The database file -/

/-- What holds while a database is opened: by `Open`, which read the registry first, or by
`Ensure`, which has raised the fence. -/
structure Opening (first : Bool) (v : View σ ε) : Prop where
  matched : Matched v.members
  closed : first = true → opened v.record = false
  fenced : first = false → opened v.record = true ∧ v.members.fenced = true

variable {v : View σ ε} {first : Bool} {m : Members} {incarnation : String}

omit [Host σ ε] in
theorem Opening.fences (h : Opening first v) : Fenced v := by
  intro isOpen
  cases first with
  | true =>
    rw [h.closed rfl] at isOpen
    cases isOpen
  | false => exact (h.fenced rfl).2

omit [Host σ ε] in
theorem Opening.steer (h : Opening first v) (steers : v.members.Steers m) :
    Opening first ⟨m, v.record⟩ := by
  refine ⟨?_, h.closed, fun serves =>
    ⟨(h.fenced serves).1, steers.fenced (h.fenced serves).2⟩⟩
  obtain ⟨file, stored, same⟩ := h.matched
  exact ⟨file, by rw [steers.disk]; exact stored, by rw [steers.registryIdentity]; exact same⟩

omit [Host σ ε] in
theorem Opening.place (h : Opening first v) (file : Option DatabaseFile) (nextInode : Nat) :
    Opening first ⟨v.members.place file nextInode, v.record⟩ := ⟨h.matched, h.closed, h.fenced⟩

omit [Host σ ε] in
theorem Opening.commit (h : Opening first v) (entry : Entry) :
    Opening first (v.commit entry) := ⟨h.matched, h.closed, h.fenced⟩

omit [Host σ ε] in
theorem Opening.sync (h : Opening first v) :
    Opening first ⟨{ v.members with disk := v.members.disk.sync }, v.record⟩ :=
  ⟨h.matched, h.closed, h.fenced⟩

theorem Members.Steers.refl (m : Members) : m.Steers m :=
  ⟨rfl, rfl, rfl, rfl, rfl, rfl, rfl, rfl, rfl, rfl, fun h => h⟩

theorem place_spec {f : Members → Members}
    (places : ∀ m : Members, ∃ file next, f m = m.place file next ∧
      (m.disk.Real → (f m).disk.Real))
    (next : ∀ v, A v → B ⟨f v.members, v.record⟩) :
    Conducts c K A (setMembers f) (fun _ => B) F := by
  intro w _ holds
  obtain ⟨file, number, same, real⟩ := places w.members
  have move : Move c K w { w with members := f w.members } :=
    same ▸ .place file number (same ▸ real)
  exact ⟨.single move, .ok (next w.view holds)⟩

variable {first : Bool}

theorem retireDatabase_spec {mainFile : Bool} (D : Option DatabaseFile → Prop) :
    Conducts (σ := σ) c K (fun v => Opening first v ∧ D v.members.disk.database)
      (retireDatabase mainFile)
      (fun _ v => Opening first v ∧ (mainFile = true → v.members.disk.database = none) ∧
        (mainFile = false → D v.members.disk.database))
      fun _ v => Opening first v := by
  refine .bind (steer_spec (B := fun v => Opening first v ∧ D v.members.disk.database)
    (fun m => { Members.Steers.refl m with }) fun v holds =>
      ⟨holds.1.steer { Members.Steers.refl v.members with }, holds.2⟩) fun _ => ?_
  refine .bind ((query_idle _).fails fun _ _ fail => fail.1) fun _ => ?_
  refine .bind ((fileOutcome_spec _).fails fun _ _ fail => fail.1) fun _ => ?_
  refine .bind (place_spec (B := fun v => Opening first v ∧
    (mainFile = true → v.members.disk.database = none) ∧
    (mainFile = false → D v.members.disk.database)) (fun m => ?_) fun v holds => ?_) fun _ => ?_
  · cases mainFile with
    | true =>
      exact ⟨none, m.disk.nextInode, rfl, fun real => ⟨real.1, fun file stored => by cases stored⟩⟩
    | false => exact ⟨m.disk.database, m.disk.nextInode, rfl, fun real => real⟩
  · cases mainFile with
    | true => exact ⟨holds.1.place none v.members.disk.nextInode, fun _ => rfl, by simp⟩
    | false => exact ⟨holds.1, by simp, fun _ => holds.2⟩
  · exact (fileOutcome_spec _).fails fun _ _ fail => fail.1

/-- The file at the path: the expected one, or a new one. -/
def Located (existed : Bool) (m : Members) : Prop :=
  if existed = true then ∃ file, m.disk.database = some file ∧ Expects m file.inode
  else ∃ inode, m.disk.database = some ⟨inode, .empty⟩

theorem locateDatabase_spec {recovering : Bool} (D : Option DatabaseFile → Prop) :
    Conducts (σ := σ) c K (fun v => Opening first v ∧ D v.members.disk.database)
      (locateDatabase recovering)
      (fun found v => (found.1 = true → ∃ file, D (some file)) ∧ Opening first v ∧
        Located found.1 v.members)
      fun _ v => Opening first v := by
  refine .bind ((fileOutcome_spec _).fails fun _ _ fail => fail.1) fun _ => ?_
  refine .bind members_spec fun m => ?_
  generalize mismatched : (m.disk.database.any fun file => decide (m.expected.inode ≠ 0 ∧
    (m.disk.device ≠ m.expected.device ∨ file.inode ≠ m.expected.inode))) = mismatch
  refine .bind (β := Unit) (M := fun _ => At fun v => Opening first v ∧
    (mismatch = false → v.members = m ∧ D v.members.disk.database)) (.when (fun other => ?_) ?_)
    fun _ => ?_
  · refine (retireDatabase_spec fun _ => True).weaken (fun _ holds => ⟨holds.2.1, trivial⟩)
      (fun _ _ post => ⟨post.1, fun same => ?_⟩) fun _ _ fail => fail
    rw [same] at other
    cases other
  · rintro _ w ⟨same, holds, stored⟩
    exact ⟨holds, fun _ => ⟨same, stored⟩⟩
  refine .ite (fun existed => ?_) fun _ => ?_
  · refine .pure ?_
    rintro w ⟨holds, found⟩
    obtain ⟨isSome, fits⟩ : m.disk.database.isSome = true ∧ mismatch = false := by
      simpa using existed
    obtain ⟨same, stored⟩ := found fits
    obtain ⟨file, there⟩ := Option.isSome_iff_exists.mp isSome
    rw [same, there] at stored
    refine ⟨fun _ => ⟨file, stored⟩, holds, ?_⟩
    rw [same]
    refine ⟨file, there, ?_⟩
    rw [there, fits, Option.any_some, decide_eq_false_iff_not] at mismatched
    by_contra differs
    rw [Expects, not_or, not_and_or] at differs
    exact mismatched differs
  · refine .bind ((retireDatabase_spec fun _ => True).weaken (fun _ holds => ⟨holds.1, trivial⟩)
      (fun _ _ post => post.1) fun _ _ fail => fail) fun _ => ?_
    refine .bind (fileOutcome_spec _) fun _ => ?_
    refine .bind (place_spec (fun m => ⟨_, _, rfl, fun real => ?_⟩)
      (B := fun v => Opening first v ∧ Located false v.members) fun v holds => ?_) fun _ => ?_
    · refine ⟨Nat.succ_pos _, fun file stored => ?_⟩
      obtain rfl := Option.some.inj stored
      exact real.1
    · exact ⟨holds.place _ _, _, rfl⟩
    · exact .pure fun w holds => ⟨by simp, holds.1, holds.2⟩

/-- The open file: the expected one, or one with empty tables. -/
def Handled (existed : Bool) (m : Members) : Prop :=
  m.corrupt = false ∧ ∃ file, m.disk.database = some file ∧
    (existed = true → Expects m file.inode) ∧
    (existed = false → m.tables = Database.fresh)

theorem Located.file {existed : Bool} (h : Located existed m) :
    ∃ file, m.disk.database = some file ∧ (existed = true → Expects m file.inode) := by
  cases existed with
  | true =>
    obtain ⟨file, stored, inode⟩ := h
    exact ⟨file, stored, fun _ => inode⟩
  | false =>
    obtain ⟨inode, stored⟩ := h
    exact ⟨⟨inode, .empty⟩, stored, by simp⟩

/-- Only a file that existed has tables. -/
theorem Located.existed {existed : Bool} (h : Located existed m)
    (filled : (m.disk.database.map (·.content)).getD .truncated ≠ .empty) : existed = true := by
  cases existed with
  | true => rfl
  | false =>
    obtain ⟨inode, stored⟩ := h
    simp [stored] at filled

theorem openHandle_spec {existed : Bool} :
    Conducts (σ := σ) c K (fun v => Opening first v ∧ Located existed v.members) openHandle
      (fun _ v => Opening first v ∧ Handled existed v.members)
      fun _ v => Opening first v := by
  let A : View σ ε → Prop := fun v =>
    Opening first v ∧ Located existed v.members ∧ v.members.corrupt = false
  refine .bind ((fileOutcome_spec _).fails fun _ _ fail => fail.1) fun _ => ?_
  refine .bind (steer_spec (B := A) (fun m => { Members.Steers.refl m with }) fun v holds =>
      ⟨holds.1.steer { Members.Steers.refl v.members with }, holds.2, rfl⟩) fun _ => ?_
  refine .bind ((fileOutcome_spec _).fails fun _ _ fail => fail.1) fun _ => ?_
  refine .bind (steer_spec (B := A) (fun m => { Members.Steers.refl m with }) fun v holds =>
      ⟨holds.1.steer { Members.Steers.refl v.members with }, holds.2⟩) fun _ => ?_
  refine .bind ((query_idle _).fails fun _ _ fail => fail.1) fun _ => ?_
  refine .bind members_spec fun m => ?_
  -- A file that already has tables is one that existed.
  have handled : (m.disk.database.map (·.content)).getD .truncated ≠ .empty →
      Conducts (σ := σ) c K (fun v => v.members = m ∧ A v)
        (query sqlOutcome >>= fun _ => query sqlOutcome)
        (fun _ v => Opening first v ∧ Handled existed v.members) fun _ v => Opening first v := by
    intro filled
    refine .bind ((query_idle _).fails fun _ _ fail => fail.2.1) fun _ => ?_
    refine (query_idle _).weaken (fun _ holds => holds) (fun _ w post => ?_) fun _ _ fail => fail.2.1
    obtain ⟨same, holds, located, clean⟩ := post
    have old := Located.existed (same ▸ located) filled
    obtain ⟨file, stored, inode⟩ := located.file
    exact ⟨holds, clean, file, stored, inode, fun new => by rw [old] at new; cases new⟩
  split
  · exact .throw fun w holds => holds.2.1
  · refine .bind (steer_spec (B := fun v => Opening first v) (fun m => { Members.Steers.refl m with })
      fun v holds => holds.2.1.steer { Members.Steers.refl v.members with }) fun _ => ?_
    exact failStorage_spec fun _ _ _ holds => holds
  · refine .bind ((performPlain_spec (A := A)
      (B := fun _ v => A v ∧ v.members.tables = Database.fresh)
      (fun holds work => .create work holds.1.fences) fun _ holds work => ?_).weaken
        (fun _ holds => holds.2) (fun _ _ post => post) fun _ _ fail => fail.1) fun _ => ?_
    · exact ⟨⟨holds.1.commit _, holds.2⟩, create_returns work⟩
    · refine place_spec (fun m => ⟨_, _, rfl, fun real => real.putContent _⟩) fun v holds => ?_
      obtain ⟨file, stored, inode⟩ := holds.1.2.1.file
      refine ⟨holds.1.1.place _ _, holds.1.2.2, { file with content := .live }, ?_, inode,
        fun _ => holds.2⟩
      simp [Disk.putContent, stored]
  · rename_i content
    exact handled (by rw [content]; simp)
  · rename_i content
    exact handled (by rw [content]; simp)

/-- The open file may be adopted: it is empty, or `Open` found it under its name. -/
def Adoptable (first : Bool) (file : DatabaseFile) (m : Members) : Prop :=
  m.corrupt = false ∧ m.disk.database = some file ∧ (m.tables = Database.fresh ∨
    first = true ∧ Expects m file.inode)

/-- The database has the incarnation, which is new unless the file is the expected one. -/
structure Incarnated (first : Bool) (file : DatabaseFile) (incarnation : String) (v : View σ ε) :
    Prop where
  opening : Opening first v
  clean : v.members.corrupt = false
  stored : v.members.disk.database = some file
  tables : v.members.tables.incarnation = incarnation
  named : incarnation ≠ ""
  own : Expects v.members file.inode ∨ incarnation ≠ v.members.expected.incarnation
  renewed : first = false → Blank v.members.tables ∧ incarnation ≠ v.members.expected.incarnation

theorem Platform.Drawn.ne_spoken {p : Platform} {lo hi : Nat} {id other : String}
    (h : p.Drawn lo hi id) (spoken : p.Spoken lo other) : id ≠ other := by
  obtain ⟨n, above, _, rfl⟩ := h
  exact fun same => absurd (spoken n same) (Nat.not_lt.mpr above)

theorem incarnate_spec {file : DatabaseFile} :
    Conducts (σ := σ) c K (fun v => Opening first v ∧ Adoptable first file v.members) incarnate
      (fun incarnation v => Incarnated first file incarnation v) fun _ v => Opening first v := by
  refine .bind members_spec fun m => .ite (fun blank => ?_) fun named => ?_
  · refine .bind ((performPlain_spec
      (A := fun v => v.members = m ∧ Opening first v ∧ Adoptable first file v.members)
      (B := fun outcome v => Incarnated first file outcome.tables.incarnation v)
      (fun holds work => .incarnate work ?_) fun {w outcome q} recorded holds work => ?_).fails
        fun _ _ fail => fail.2.1) fun outcome => .pure fun w holds => holds
    · exact (congrArg (fun m => m.tables.incarnation) holds.1).trans blank
    · obtain ⟨_, opening, clean, stored, source⟩ := holds
      obtain ⟨id, fresh, tables⟩ := incarnate_returns work
      have new : outcome.tables.incarnation = id := congrArg Database.incarnation tables
      have differs : id ≠ w.members.expected.incarnation := fresh.ne_spoken recorded.expected
      refine ⟨opening.commit _, clean, stored, rfl, ?_, Or.inr (new.symm ▸ differs),
        fun serves => ⟨?_, new.symm ▸ differs⟩⟩
      · rw [new]
        obtain ⟨n, _, _, rfl⟩ := fresh
        exact c.platform.ids.nonempty n
      · rcases source with empty | ⟨starts, _⟩
        · have made : outcome.tables = { Database.fresh with incarnation := id } := by
            rw [tables]
            exact congrArg (fun d => { d with incarnation := id }) empty
          show Blank outcome.tables
          rw [made]
          exact ⟨rfl, rfl, rfl, rfl, rfl⟩
        · rw [starts] at serves
          cases serves
  · refine .pure fun w holds => ?_
    obtain ⟨rfl, opening, clean, stored, source⟩ := holds
    have old : first = true ∧ Expects w.view.members file.inode := by
      rcases source with empty | old
      · exact absurd (by rw [empty]; rfl) named
      · exact old
    refine ⟨opening, clean, stored, rfl, named, Or.inl old.2, fun serves => ?_⟩
    rw [old.1] at serves
    cases serves

/-- The database is the current one; the registry may still name another. -/
structure Adopted (P : Platform) (first : Bool) (inode : Nat) (incarnation : String)
    (v : View σ ε) : Prop where
  opening : Opening first v
  clean : v.members.corrupt = false
  tables : v.members.tables.incarnation = incarnation
  named : incarnation ≠ ""
  inode : v.members.dbIdentity = inode
  epoch : v.members.epoch ≠ ""
  older : P.Older incarnation v.members.epoch

omit [Host σ ε] in
theorem Adopted.steer {P : Platform} {inode : Nat} (h : Adopted P first inode incarnation v)
    (steers : v.members.Steers m) (clean : m.corrupt = false) :
    Adopted P first inode incarnation ⟨m, v.record⟩ where
  opening := h.opening.steer steers
  clean := clean
  tables := by rw [← h.tables, ← steers.tables]
  named := h.named
  inode := steers.dbIdentity.trans h.inode
  epoch := by rw [show (⟨m, v.record⟩ : View σ ε).members.epoch = v.members.epoch from steers.epoch]
              exact h.epoch
  older := by rw [show (⟨m, v.record⟩ : View σ ε).members.epoch = v.members.epoch from steers.epoch]
              exact h.older

theorem beginEpoch_spec {file : DatabaseFile} :
    Conducts (σ := σ) c K (Incarnated first file incarnation) (beginEpoch file.inode)
      (fun _ => Adopted c.platform first file.inode incarnation) F := by
  intro w lawful holds
  have move : Move c K w
      { members := { w.members with
          dbIdentity := file.inode, epoch := c.platform.ids.id w.progress.nextId }
        progress := { w.progress with nextId := w.progress.nextId + 1 } } := by
    refine .adopt file.inode holds.opening.matched (lawful.real.2 file holds.stored)
      (holds.tables.symm ▸ holds.named) ?_ fun isOpen => ?_
    · have own := holds.own
      rw [← holds.tables] at own
      exact own
    · cases first with
      | true =>
        have closed : opened w.progress.record = false := holds.opening.closed rfl
        rw [closed] at isOpen
        cases isOpen
      | false =>
        have renewed := holds.renewed rfl
        rw [← holds.tables] at renewed
        exact renewed
  have older : c.platform.Older incarnation (c.platform.ids.id w.progress.nextId) :=
    Platform.Known.older (holds.tables ▸ lawful.tables) holds.named
  refine ⟨.single move, .ok ?_⟩
  exact ⟨⟨holds.opening.matched, holds.opening.closed, holds.opening.fenced⟩, holds.clean,
    holds.tables, holds.named, rfl, c.platform.ids.nonempty _, older⟩

/-- Why `Open` may retire the database and start over. -/
def Retries (e : Failure) (m : Members) : Prop := e.corruption = true ∨ m.corrupt = true

/-- What is left when opening a database fails: `Open` can start over if it wants to. -/
def Lapses (first : Bool) (e : Failure) (v : View σ ε) : Prop :=
  first = true → Retries e v.members → Opening true v

omit [Host σ ε] in
theorem Opening.lapses (h : Opening first v) (e : Failure) : Lapses first e v := by
  intro starts _
  rw [starts] at h
  exact h

omit [Host σ ε] in
/-- A failed write is not a reason to start over. -/
theorem unwritten_lapses {A : View σ ε → Prop} {content : View σ ε → Registry} {e : Failure}
    (clean : ∀ u, A u → u.members.corrupt = false) (h : Unwritten A content e v) :
    Lapses first e v := by
  rintro _ (corruption | corrupt)
  · simp [Failure.corruption, h.1] at corruption
  · obtain ⟨_, u, outcome, holds, rfl⟩ := h
    have same : (u.write (content u) outcome).members.corrupt = u.members.corrupt := by
      cases outcome <;> rfl
    rw [same, clean u holds] at corrupt
    cases corrupt

theorem markRecovered_spec {inode : Nat} :
    Conducts (σ := σ) c K (Adopted c.platform first inode incarnation) markRecovered
      (fun _ => Adopted c.platform first inode incarnation) fun _ => Adopted c.platform first inode incarnation := by
  refine .bind (performPlain_spec (B := fun _ => Adopted c.platform first inode incarnation)
    (fun _ work => .plain work (by simp [Call.projects, Call.compacts]) (Or.inl rfl)) fun _ holds work => ?_)
    fun _ => .pure fun _ holds => holds
  exact ⟨holds.opening.commit _, holds.clean, (work_incarnation work (by simp) (by simp)).trans
    holds.tables, holds.named, holds.inode, holds.epoch, holds.older⟩

/-- The registry names the current database. -/
structure Settled (first : Bool) (v : View σ ε) : Prop where
  opening : Opening first v
  current : v.members.current = v.members.expected
  named : v.members.tables.incarnation ≠ ""
  epoch : v.members.epoch ≠ ""

theorem remember_spec {inode : Nat} :
    Conducts (σ := σ) c K (fun v => v.members = m ∧ Adopted c.platform first inode incarnation v)
      (Act.when (m.expected ≠ ⟨m.disk.device, inode, incarnation⟩)
        (rememberDatabase ⟨m.disk.device, inode, incarnation⟩))
      (fun _ => Settled first) (Lapses first) := by
  have current : ∀ v : View σ ε, v.members = m ∧ Adopted c.platform first inode incarnation v →
      v.members.current = ⟨m.disk.device, inode, incarnation⟩ := by
    rintro v ⟨rfl, holds⟩
    rw [Members.current, holds.inode, holds.tables]
  refine .when (fun _ => ?_) fun same w holds => ?_
  · refine ((rememberDatabase_spec (A := fun v => v.members = m ∧
      Adopted c.platform first inode incarnation v) (fun v found => ?_) fun v found => ?_).weaken
      (fun _ holds => holds) (fun _ _ post => post)
      fun _ _ fail => unwritten_lapses (fun _ holds => holds.2.clean) fail)
    · have holds := found.2
      exact .bind holds.opening.matched rfl (current v found).symm
        (holds.tables.symm ▸ holds.named) holds.epoch (holds.tables.symm ▸ holds.older) rfl rfl
    · have holds := found.2
      refine ⟨⟨Matched.written _ _, holds.opening.closed,
        fun serves => ⟨(holds.opening.fenced serves).1, rfl⟩⟩, current v found, ?_, holds.epoch⟩
      exact fun blank => holds.named (holds.tables.symm.trans blank)
  · have adopted := holds.2
    refine ⟨adopted.opening, (current w.view holds).trans ?_,
      fun blank => adopted.named (adopted.tables.symm.trans blank), adopted.epoch⟩
    rw [holds.1, not_not.mp same]

/-- The registry has been projected into the current database. -/
structure Projecting (first : Bool) (v : View σ ε) : Prop where
  matched : Matched v.members
  unfenced : v.members.fenced = false
  current : v.members.current = v.members.expected
  named : v.members.tables.incarnation ≠ ""
  epoch : v.members.epoch ≠ ""
  closed : first = true → opened v.record = false
  replayed : Replayed v
  durable : v.members.disk.durable = v.members.disk.registry

omit [Host σ ε] in
theorem Projecting.lapses (h : Projecting first v) (e : Failure) :
    Lapses first e v := by
  intro starts _
  exact ⟨h.matched, fun _ => h.closed starts, by simp⟩

omit [Host σ ε] in
theorem Replayed.commit (h : Replayed v) {entry : Entry} (other : entry.call.projects = false) :
    Replayed (v.commit entry) := by
  obtain ⟨e, offline, last, call⟩ := h
  refine ⟨e, offline, ?_, call⟩
  have log : (v.commit entry).log = entry :: v.log := rfl
  rw [log, lastProjection_cons, other]
  exact last

theorem Members.current_tables (m : Members) {d : Database}
    (h : d.incarnation = m.tables.incarnation) : { m with tables := d }.current = m.current := by
  simp only [Members.current, h]

theorem replay_projecting :
    Conducts (σ := σ) c K (Settled first) replayRegistry (fun _ => Projecting first)
      fun _ => Settled first := by
  refine replayRegistry_spec (fun _ holds => holds.opening.matched) (fun _ holds => ?_)
    fun v entry offline holds call kept => ?_
  · exact ⟨holds.opening.sync, holds.current, holds.named, holds.epoch⟩
  · refine ⟨holds.opening.matched, rfl, (Members.current_tables _ kept).trans holds.current, ?_, holds.epoch,
      holds.opening.closed, ⟨entry, offline, ?_, call⟩, rfl⟩
    · exact fun blank => holds.named (kept.symm.trans blank)
    · have log : (v.replayed entry).log = entry :: v.log := rfl
      rw [log, lastProjection_cons, call]
      rfl

theorem resetRuntime_projecting :
    Conducts (σ := σ) c K (Projecting first) resetRuntime (fun _ => Projecting first)
      fun _ => Projecting first := by
  refine .bind (performPlain_spec (B := fun _ => Projecting first)
    (fun _ work => .plain work (by simp [Call.projects, Call.compacts]) (Or.inr (Or.inl rfl))) fun _ holds work => ?_)
    fun _ => .pure fun _ holds => holds
  have kept := work_incarnation work (by simp) (by simp)
  exact ⟨holds.matched, holds.unfenced, (Members.current_tables _ kept).trans holds.current,
    fun blank => holds.named (kept.symm.trans blank), holds.epoch, holds.closed,
    holds.replayed.commit rfl, holds.durable⟩

theorem adoptDatabase_spec {recovering : Bool} (file : DatabaseFile) :
    Conducts (σ := σ) c K (fun v => Opening first v ∧ Adoptable first file v.members)
      (adoptDatabase recovering) (fun _ => Projecting first) (Lapses first) := by
  refine .bind (incarnate_spec.fails fun e _ fail => fail.lapses e) fun incarnation => ?_
  refine .bind ((fileOutcome_spec _).fails fun e _ fail => fail.opening.lapses e) fun _ => ?_
  refine .bind members_spec fun m => ?_
  refine .assume (p := (m.disk.database.map (·.inode)).getD 0 = file.inode) ?_ fun inode => ?_
  · rintro w ⟨rfl, holds⟩
    rw [holds.stored]
    rfl
  rw [inode]
  refine .bind (beginEpoch_spec.weaken (fun _ holds => holds.2) (fun _ _ post => post)
    fun _ _ fail => fail) fun _ => ?_
  refine .bind (.when (fun _ => markRecovered_spec.fails fun e _ fail => fail.opening.lapses e)
    fun _ _ holds => holds) fun _ => ?_
  refine .bind ((query_idle _).fails fun e _ fail => fail.opening.lapses e) fun _ => ?_
  refine .bind (steer_spec (B := Adopted c.platform first file.inode incarnation)
    (fun m => { Members.Steers.refl m with }) fun v holds =>
      holds.steer { Members.Steers.refl v.members with } holds.clean) fun _ => ?_
  refine .bind members_spec fun m => ?_
  refine .bind remember_spec fun _ => ?_
  refine .bind (replay_projecting.fails fun e _ fail => fail.opening.lapses e) fun _ => ?_
  refine .bind (resetRuntime_projecting.fails fun e _ fail => fail.lapses e) fun _ => ?_
  refine .bind ((query_idle _).fails fun e _ fail => fail.lapses e) fun _ => ?_
  refine steer_spec (fun m => { Members.Steers.refl m with }) fun v holds => ?_
  exact ⟨holds.matched, holds.unfenced, holds.current, holds.named, holds.epoch, holds.closed,
    holds.replayed, holds.durable⟩

theorem openDatabase_spec {recovering : Bool} :
    Conducts (σ := σ) c K
      (fun v => Opening first v ∧ (first = false → v.members.disk.database = none))
      (openDatabase recovering) (fun _ => Projecting first) (Lapses first) := by
  refine .bind ((locateDatabase_spec fun file => first = false → file = none).fails
    fun e _ fail => fail.lapses e) fun found => .of_pre fun old => ?_
  refine .bind (openHandle_spec.fails fun e _ fail => fail.lapses e) fun _ => ?_
  have starts : found.1 = true → first = true := by
    intro existed
    obtain ⟨file, missing⟩ := old existed
    cases first with
    | true => rfl
    | false => cases missing rfl
  refine .bind members_spec fun m => .ite (fun _ => ?_) fun right => ?_
  · refine .bind (M := fun _ => At fun v => Opening first v ∧ v.members.disk.database = none)
      ((retireDatabase_spec fun _ => True).weaken (fun _ holds => ⟨holds.2.1, trivial⟩)
        (fun _ _ post => ⟨post.1, post.2.1 rfl⟩) fun e _ fail => fail.lapses e) fun _ => ?_
    refine .bind ((locateDatabase_spec fun file => file = none).fails
      fun e _ fail => fail.lapses e) fun again => .of_pre fun new => ?_
    have made : again.1 = false := by
      by_contra existed
      rw [Bool.not_eq_false] at existed
      obtain ⟨file, missing⟩ := new existed
      cases missing
    rw [made]
    refine .bind (openHandle_spec.fails fun e _ fail => fail.lapses e) fun _ => ?_
    intro w lawful holds
    obtain ⟨opening, clean, file, stored, _, fresh⟩ := holds
    exact adoptDatabase_spec file w lawful
      ⟨opening, clean, stored, Or.inl (fresh rfl)⟩
  · intro w lawful holds
    obtain ⟨_, opening, clean, file, stored, known, fresh⟩ := holds
    refine adoptDatabase_spec file w lawful ⟨opening, clean, stored, ?_⟩
    rcases existed : found.1
    · exact Or.inl (fresh existed)
    · exact Or.inr ⟨starts existed, known existed⟩

/-! ### Start-up -/

theorem look_spec (next : ∀ (v : View σ ε) disk events, A v →
      B ⟨{ v.members with disk }, .storage (.touched events) :: v.record⟩) :
    Conducts (σ := σ) c K A look (fun _ => B) F := by
  intro w _ holds
  refine ⟨.single (.touch (fun event member => ?_) fun event member => ?_), .ok (next _ _ _ holds)⟩
  · exact (of_decide_eq_true (List.mem_filter.mp member).2).1
  · exact (of_decide_eq_true (List.mem_filter.mp member).2).2

/-- The open database is the expected one. -/
def Identified (v : View σ ε) : Prop :=
  v.members.tables.incarnation = v.members.expected.incarnation ∧ v.members.tables.incarnation ≠ ""

omit [Host σ ε] in
theorem Identified.commit (h : Identified v) {entry : Entry}
    (kept : entry.after.incarnation = v.members.tables.incarnation) : Identified (v.commit entry) :=
  ⟨kept.trans h.1, fun blank => h.2 (kept.symm.trans blank)⟩

theorem noteEnsured_spec {opening : Bool} :
    Conducts (σ := σ) c K (Ensurable opening) (noteEnsured opening)
      (fun _ v => (Matched v.members ∧ serving v.record = true) ∧ v.members.fenced = false ∧
        Identified v) F := by
  intro w _ holds
  exact ⟨.single (.ensure holds),
    .ok ⟨⟨holds.matched, rfl⟩, holds.unfenced, holds.incarnation, holds.named⟩⟩

omit [Host σ ε] in
theorem Projecting.ensurable (h : Projecting first v)
    (isOpen : first = false → opened v.record = true) : Ensurable first v where
  matched := h.matched
  unfenced := h.unfenced
  incarnation := congrArg DatabaseId.incarnation h.current
  named := h.named
  serves := isOpen
  current _ := h.current
  begun _ := h.epoch
  replayed _ := h.replayed
  durable _ := h.durable

theorem openRepository_spec :
    Conducts (σ := σ) c K (fun v => opened v.record = false ∧ Booted v.members) openRepository
      (fun success v => success = true → opened v.record = true) F := by
  refine .tryCatch (C := fun _ => At fun _ => True) ?_ fun _ => ?_
  · refine .bind (look_spec (B := fun v => opened v.record = false ∧ Booted v.members)
      fun _ _ _ holds => ⟨holds.1, { holds.2 with }⟩) fun _ => ?_
    refine .bind ((fileOutcome_spec _).fails fun _ _ _ => trivial) fun _ => ?_
    refine .bind ((readRegistry_spec false).weaken
      (fun _ holds => ⟨⟨holds.1, fun isOpen => ?_⟩, fun _ => holds.2⟩)
      (fun _ _ post => post) fun _ _ _ => trivial) fun _ => ?_
    · rw [holds.1] at isOpen
      cases isOpen
    refine .bind (M := fun _ => At (Projecting true)) (.tryCatch (C := fun e => At (Lapses true e))
      (openDatabase_spec.weaken (fun _ holds => ?_) (fun _ _ post => post) fun _ _ fail => fail)
      fun failure => ?_) fun _ => ?_
    · exact ⟨⟨holds.2, fun _ => holds.1, by simp⟩, by simp⟩
    · refine .bind members_spec fun m => .ite (fun again => ?_) fun _ => .throw fun _ _ => trivial
      refine .bind (M := fun _ => At fun v => Opening true v ∧
        (true = false → v.members.disk.database = none))
        ((retireDatabase_spec fun _ => True).weaken (fun w holds => ⟨holds.2 rfl ?_, trivial⟩)
          (fun _ _ post => ⟨post.1, by simp⟩) fun _ _ _ => trivial) fun _ => ?_
      · rw [holds.1]
        simpa [Retries] using again
      · exact openDatabase_spec.fails fun _ _ _ => trivial
    refine .bind (noteEnsured_spec.weaken (fun _ holds => holds.ensurable (by simp))
      (fun _ _ post => post) fun _ _ fail => fail) fun _ => ?_
    exact .pure fun _ holds _ => opened_of_serving holds.1.2
  · refine .bind (steer_spec (B := fun _ => True) (fun m => ?_) fun _ _ => trivial)
      fun _ => .pure fun _ _ success => by cases success
    exact { Members.Steers.refl m with fenced := fun _ => rfl }

end

end Consent.Repository
