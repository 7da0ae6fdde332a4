import Consent.Repository.Consistency

/-!
The epochs of the storage. An epoch begins whenever a database is adopted, by a process
that opens the repository or by a recovery. Ids are issued in order, so a database that
was adopted is older than the epoch that began in it, and one that was created later is
not: no such database is served under the old epoch.
-/
namespace Consent.Repository
open Profile
open Act (Returns)

variable {σ ε : Type} [Host σ ε]

/-- The epoch under which the storage was found in order. -/
def Moment.epoch? : Moment σ ε → Option String
  | .storage (.ensured s) => some s.epoch
  | _ => none

/-- The epochs that were served, latest first. -/
def epochs (history : List (Moment σ ε)) : List String := history.filterMap Moment.epoch?

/-- Since the storage was last found in order, a database was created. -/
def recovering : List (Moment σ ε) → Bool
  | [] => false
  | .storage (.ensured _) :: _ => false
  | .commit e :: rest => e.call.isCreate || recovering rest
  | _ :: rest => recovering rest

omit [Host σ ε] in
theorem not_serving_of_recovering {record : List (Moment σ ε)} (h : recovering record = true) :
    serving record = false := by
  induction record with
  | nil => cases h
  | cons moment rest ih =>
    rcases moment with _ | _ | e | event
    · exact ih h
    · exact ih h
    · rw [recovering, Bool.or_eq_true] at h
      rcases h with creates | earlier
      · simp [serving, creates]
      · simp [serving, ih earlier]
    · cases event with
      | started => rfl
      | ensured state => cases h
      | touched events => exact ih h
      | rejected initial expected header => exact ih h
      | wrote old content outcome => exact ih h

/-! ### Empty tables stay empty -/

theorem Database.Restricts.blank {d d' : Database} (h : d.Restricts d') (blank : Blank d) :
    Blank d' where
  grants := List.forall₂_nil_left_iff.mp (blank.grants ▸ h.grants)
  authorizations := List.forall₂_nil_left_iff.mp (blank.authorizations ▸ h.authorizations)
  requests := List.forall₂_nil_left_iff.mp (blank.requests ▸ h.requests)
  sessions := List.forall₂_nil_left_iff.mp (blank.sessions ▸ h.sessions)
  artifacts := List.forall₂_nil_left_iff.mp (blank.artifacts ▸ h.artifacts)

theorem Projected.blank {definitions : Definitions} {d d' : Database} {ids : List String}
    (h : Projected definitions d ids d') (blank : Blank d) : Blank d' := by
  induction h with
  | nil => exact blank
  | @cons ids mid id config active earlier _ _ _ ih =>
    exact { (Database.invalidate_restricts mid id).blank ih with }

theorem replay_blank {c : Context ε} {lo hi : Progress σ ε} {d : Database} {outcome : Outcome}
    {definitions : Definitions} {revision : Int} {offline : Bool}
    (h : Returns c lo (replay definitions revision offline d) outcome hi) (blank : Blank d) :
    Blank outcome.tables := by
  obtain ⟨ids, mid, steps, marks, _⟩ := replay_projects h
  rw [marks]
  exact { steps.blank blank with }

/-- Before the storage is found in order, no operation is evaluated. -/
theorem Move.blank {c : Context ε} {K : Members → Registry → Prop} {w v : World σ ε}
    (h : Move c K w v)
    (holds : recovering w.progress.record = true → Blank w.members.tables) :
    recovering v.progress.record = true → Blank v.members.tables := by
  cases h with
  | progress later =>
    rw [World.at_progress, Progress.record_eq later]
    exact holds
  | steer steers =>
    dsimp only
    rw [steers.tables]
    exact holds
  | @commit q call outcome due work other blank serves turns =>
    intro recent
    have before : recovering w.progress.record = true := by
      rw [← Progress.record_eq work.le]
      have plain : call.isCreate = false := by cases call <;> first | rfl | cases other
      simpa [recovering, entryOf, plain, World.commit, World.at, Progress.record, Moment.own,
        World.turned, List.filter_cons] using recent
    have empty := holds before
    rcases serves with rfl | rfl | serves
    · obtain rfl := Act.Returns.of_pure work
      exact { empty with }
    · obtain ⟨_, work⟩ := Act.Returns.skip work
      obtain rfl := work.of_pure
      exact (Database.resetRuntime_narrows _).toRestricts.blank empty
    · rw [not_serving_of_recovering before] at serves
      cases serves
  | create work fenced =>
    intro _
    have fresh : Blank Database.fresh := .fresh
    rw [← create_returns work] at fresh
    exact fresh
  | @incarnate q outcome work blank =>
    intro recent
    have before : recovering w.progress.record = true := by
      rw [← Progress.record_eq work.le]
      exact recent
    obtain ⟨id, _, tables⟩ := incarnate_returns work
    have empty : Blank outcome.tables := by
      rw [tables]
      exact { holds before with }
    exact empty
  | @replay q call outcome offline matched synced replays work =>
    subst replays
    intro recent
    refine replay_blank work (holds ?_)
    rw [← Progress.record_eq work.le]
    exact recent
  | ensure able =>
    intro recent
    cases recent
  | write source outcome => cases outcome <;> exact holds
  | _ => exact holds

/-! ### Epochs and incarnations -/

theorem Platform.Older.asymm {p : Platform} {id id' : String} (h : p.Older id id') :
    ¬ p.Older id' id := by
  obtain ⟨n, k, below, rfl, rfl⟩ := h
  rintro ⟨n', k', below', same, same'⟩
  have := p.ids.injective same
  have := p.ids.injective same'
  omega

/-- An id that is issued next is younger than those issued before. -/
theorem Platform.Drawn.older {p : Platform} {n k : Nat} {id id' : String} (h : p.Drawn 0 n id)
    (fresh : p.Drawn n k id') : p.Older id id' := by
  obtain ⟨i, _, below, rfl⟩ := h
  obtain ⟨j, above, _, rfl⟩ := fresh
  exact ⟨i, j, by omega, rfl, rfl⟩

/-- The empty text is no id. -/
theorem Platform.past_boot {p : Platform} (text : String) : p.Past "" text := by
  rintro ⟨n, k, below, blank, -⟩
  exact p.ids.nonempty n blank.symm

theorem Platform.past_none {p : Platform} (epoch : String) : p.Past epoch "" := by
  rintro ⟨n, k, below, -, blank⟩
  exact p.ids.nonempty k blank.symm

/-- No id that was spoken of is younger than the one that is issued next. -/
theorem Platform.Spoken.past {p : Platform} {n : Nat} {text : String} (h : p.Spoken n text) :
    p.Past (p.ids.id n) text := by
  rintro ⟨j, k, below, same, rfl⟩
  obtain rfl := p.ids.injective same
  exact absurd (h k rfl) (Nat.not_lt.mpr below.le)

/-- How the epoch in force belongs to those that were served and to the databases. -/
structure Dated (P : Platform) (w : World σ ε) : Prop where
  served : ∀ epoch ∈ epochs w.progress.record, P.Drawn 0 w.progress.nextId epoch
  epoch : P.Known w.progress.nextId w.members.epoch
  expected : P.Past w.members.epoch w.members.expected.incarnation
  files : w.members.disk.Names (P.Past w.members.epoch)
  adopted : opened w.progress.record = true → w.members.epoch ≠ ""
  current : w.members.epoch ∈ epochs w.progress.record → serving w.progress.record = true ∨
    w.members.tables.incarnation = "" ∨ P.Older w.members.epoch w.members.tables.incarnation

namespace Dated

variable {P : Platform} {w : World σ ε} {q : Progress σ ε}

theorem move (h : Dated P w) (later : w.progress ≤ q) : Dated P (w.at q) := by
  have record : q.record = w.progress.record := Progress.record_eq later
  have ids := later.ids
  obtain ⟨served, epoch, expected, files, adopted, current⟩ := h
  rw [← record] at served adopted current
  exact ⟨fun id member => (served id member).mono (le_refl 0) ids, epoch.mono ids, expected, files,
    adopted, current⟩

/-- A transaction that keeps the incarnation and creates no database. -/
theorem commit (h : Dated P w) (later : w.progress ≤ q) (entry : Entry)
    (plain : entry.call.isCreate = false)
    (same : entry.after.incarnation = w.members.tables.incarnation) :
    Dated P ((w.at q).commit entry) := by
  have moved := h.move later
  refine { moved with current := fun member => ?_ }
  have kept : serving ((w.at q).commit entry).progress.record = serving (w.at q).progress.record := by
    have cons : ((w.at q).commit entry).progress.record = .commit entry :: (w.at q).progress.record :=
      rfl
    simp [cons, serving, plain]
  rw [kept, show ((w.at q).commit entry).members.tables.incarnation = _ from same]
  exact moved.current member

/-- A database is created, or gets its incarnation. -/
theorem renew (h : Dated P w) (later : w.progress ≤ q) {entry : Entry}
    (younger : ∀ epoch, P.Drawn 0 w.progress.nextId epoch →
      entry.after.incarnation = "" ∨ P.Older epoch entry.after.incarnation) :
    Dated P ((w.at q).commit entry) := by
  refine { h.move later with current := fun member => Or.inr (younger _ (h.served _ ?_)) }
  have same : (w.at q).progress.record = w.progress.record := Progress.record_eq later
  exact same ▸ member

omit [Host σ ε] in
/-- A registry is written that names the expected database or the open one. -/
theorem write (h : Dated P w) {K : Members → Registry → Prop} {content : Registry}
    (source : Source P K w.members content)
    (outcome : WriteOutcome) : Dated P (w.write content outcome) := by
  have past : P.Past w.members.epoch content.database.incarnation := by
    cases source with
    | found missing empty database => exact database ▸ Platform.past_none _
    | follow matched follows database => exact database ▸ h.expected
    | bind matched definitions database named adopted older => exact database ▸ older.asymm
  have files := Disk.All.written (m := { w.members with expected := content.database })
    h.files past outcome
  cases outcome <;> exact ⟨h.served, h.epoch, past, files, h.adopted, h.current⟩

omit [Host σ ε] in
/-- An epoch begins. -/
theorem adopt (h : Dated P w) (recorded : Recorded P w.members w.progress.nextId) (inode : Nat) :
    Dated P
      { members := { w.members with dbIdentity := inode, epoch := P.ids.id w.progress.nextId }
        progress := { w.progress with nextId := w.progress.nextId + 1 } } := by
  have new : P.Drawn w.progress.nextId (w.progress.nextId + 1) (P.ids.id w.progress.nextId) :=
    ⟨_, le_refl _, Nat.lt_succ_self _, rfl⟩
  constructor
  · exact fun id member => (h.served id member).mono (le_refl 0) (Nat.le_succ _)
  · exact Or.inr (new.mono (Nat.zero_le _) (le_refl _))
  · exact recorded.expected.past
  · exact fun file held => Platform.Spoken.past (recorded.files file held)
  · exact fun _ => P.ids.nonempty _
  · exact fun member => absurd rfl ((h.served _ member).ne new (le_refl _))

omit [Host σ ε] in
/-- An epoch has begun in a storage that is in order. -/
theorem begun (h : Dated P w) {opening : Bool} (able : Ensurable opening w.view) :
    w.members.epoch ≠ "" := by
  cases opening with
  | true => exact able.begun rfl
  | false => exact h.adopted (able.serves rfl)

omit [Host σ ε] in
/-- An epoch that was served before is in force only while its database is. -/
theorem serves (h : Dated P w) {opening : Bool} (able : Ensurable opening w.view)
    (member : w.members.epoch ∈ epochs w.progress.record) : serving w.progress.record = true := by
  rcases h.current member with serves | blank | younger
  · exact serves
  · exact absurd blank able.named
  · have own : w.members.tables.incarnation = w.members.expected.incarnation := able.incarnation
    exact absurd (own ▸ younger) h.expected

omit [Host σ ε] in
theorem ensure (h : Dated P w) {opening : Bool} (able : Ensurable opening w.view) :
    Dated P (w.note (.ensured (w.members.ensured opening))) := by
  refine { h with
    served := ?_, adopted := fun _ => h.begun able, current := fun _ => Or.inl rfl }
  intro epoch member
  rcases List.mem_cons.mp member with rfl | earlier
  · exact h.epoch.resolve_left (h.begun able)
  · exact h.served epoch earlier

end Dated

theorem Move.dated {c : Context ε} {K : Members → Registry → Prop} {w v : World σ ε}
    (h : Move c K w v)
    (recorded : Recorded c.platform w.members w.progress.nextId)
    (holds : Dated c.platform w) : Dated c.platform v := by
  cases h with
  | progress later => exact holds.move later
  | @steer m steers =>
    obtain ⟨served, epoch, expected, files, adopted, current⟩ := holds
    rw [← steers.epoch] at epoch expected files adopted current
    rw [← steers.expected] at expected
    rw [← steers.disk] at files
    rw [← steers.tables] at current
    exact ⟨served, epoch, expected, files, adopted, current⟩
  | touch spoken past => exact { holds with files := holds.files.touch past }
  | place file nextInode real => exact { holds with }
  | @commit q call outcome due work other blank serves turns =>
    have plain : call.isCreate = false := by cases call <;> first | rfl | cases other
    exact { holds.commit work.le (entryOf c call w.members.tables outcome w.progress q) plain
      (work_incarnation work (by rintro rfl; cases other) blank) with }
  | create work fenced =>
    refine holds.renew work.le fun _ _ => Or.inl ?_
    exact congrArg Database.incarnation (create_returns work)
  | incarnate work blank =>
    obtain ⟨id, fresh, tables⟩ := incarnate_returns work
    refine holds.renew work.le fun epoch drawn => Or.inr ?_
    exact (congrArg Database.incarnation tables).symm ▸ drawn.older fresh
  | sync => exact { holds with files := Disk.All.sync holds.files }
  | replay matched synced replays work =>
    subst replays
    exact { holds.commit work.le _ rfl (work_incarnation work (by simp) (by simp)) with }
  | write source outcome => exact holds.write source outcome
  | expect stored => exact { holds with expected := holds.files.content stored }
  | reject stored booted =>
    have named := Header.expect_incarnation holds.expected (holds.files _ (.inl stored))
    exact { holds with expected := named }
  | load stored decoded expects valid fenced => exact { holds with }
  | adopt inode matched real named own renewed => exact holds.adopt recorded inode
  | ensure able => exact holds.ensure able

omit [Host σ ε] in
/-- In a new process no epoch has begun. -/
theorem Dated.boot {P : Platform} {w : World σ ε} {disk : Disk} {main : σ} (h : Dated P w)
    (offline : Bool) : Dated P
      { members := { Members.boot disk w.members.tables with offlineImport := offline }
        progress := { w.progress.begin with
          main, history := .storage .started :: w.progress.history } } := by
  refine ⟨h.served, Or.inl rfl, P.past_boot _, fun _ _ => P.past_boot _,
    fun isOpen => (by cases isOpen), fun member => ?_⟩
  obtain ⟨n, _, _, blank⟩ := h.served "" member
  exact absurd blank.symm (P.ids.nonempty n)

theorem Runs.dated {P : Platform} {w : World σ ε} (h : Runs P w) : Dated P w := by
  induction h with
  | start device registry main =>
    exact ⟨fun _ member => (by cases member), Or.inl rfl, P.past_boot _, fun _ _ => P.past_boot _,
      fun isOpen => (by cases isOpen), fun member => (by cases member)⟩
  | @enter w step _ ih =>
    cases step with
    | restart main offline powerLoss => exact ih.boot offline
    | _ => exact { ih with }
  | move platform runs move ih =>
    subst platform
    exact move.dated runs.recorded ih

theorem Runs.blank {P : Platform} {w : World σ ε} (h : Runs P w) :
    recovering w.progress.record = true → Blank w.members.tables := by
  induction h with
  | start device registry main => exact fun recent => by cases recent
  | @enter w step _ ih =>
    cases step with
    | restart main offline powerLoss => exact ih
    | _ => exact ih
  | move _ _ move ih => exact move.blank ih

end Consent.Repository
