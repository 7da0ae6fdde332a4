import Consent.Bootstrap.Receipt
import Consent.Guarantees.Receipts

/-!
The loss of the registry is noticed. Whatever the order of installation, migration and
service starts, wherever they are interrupted and whenever files are lost, a daemon runs
without a registry only in the one start that claimed the fresh receipt; the receipt never
goes back, and once it is initialized every start without the registry is refused.
-/
namespace Consent.ReceiptText

/-- The ways of the phase: from the installation to the end of the first start, or at once
by the migration. -/
inductive Phase.Next : Phase → Phase → Prop
  | installed : Next .absent .fresh
  | claimed : Next .fresh .claimed
  | completed : Next .claimed .initialized
  | migrated : Next .absent .initialized
  | fenced : Next .absent .recoveryRequired

theorem Phase.Next.unclaimed {old new : Phase} (h : old.Next new) (phase : new = .absent ∨ new = .fresh) :
    old = .absent := by
  cases h with
  | installed => rfl
  | claimed => simp at phase
  | completed => simp at phase
  | migrated => rfl
  | fenced => rfl

theorem Phase.Next.to_claimed {old : Phase} (h : old.Next .claimed) : old = .fresh := by
  cases h
  rfl

end Consent.ReceiptText

namespace Consent.Bootstrap
open ReceiptText (Text Phase Receipt Valid hexId readReceipt serialize)

/-! ### Reading what was written -/

/-- A name of the service that a receipt holds. -/
def ValidUnit (unit : Text) : Prop := unit ≠ [] ∧ unit.length ≤ 128 ∧ ReceiptText.plain unit = true

instance (unit : Text) : Decidable (ValidUnit unit) := inferInstanceAs (Decidable (_ ∧ _ ∧ _))

variable {d : Disk} {invocation : Option Text} {r : Receipt} {history : List Entry} {nonce : Text}

theorem length_claim (valid : Valid r) : r.invocation.length ≤ 32 ∧ r.nonce.length ≤ 32 := by
  obtain ⟨_, _, _, claimed, other⟩ := valid
  by_cases phase : r.phase = .claimed
  · obtain ⟨invocation, nonce⟩ := claimed phase
    simp only [hexId, Bool.and_eq_true, beq_iff_eq] at invocation nonce
    omega
  · simp [other phase]

theorem readReceipt_serialize {data : Text} (h : serialize r = some data) :
    readReceipt (some data) = some r := by
  obtain ⟨name, isName, valid, rfl⟩ := ReceiptText.serialize_iff.mp h
  have short : name.length ≤ 17 := by
    cases phase : r.phase <;> rw [phase] at isName <;> cases isName <;> decide
  have literals : ReceiptText.start.length = 15 ∧ ReceiptText.unitLabel.length = 5 ∧
      ReceiptText.invocationLabel.length = 11 ∧ ReceiptText.nonceLabel.length = 6 := by decide
  obtain ⟨invocation, nonce⟩ := length_claim valid
  have unit := valid.2.1
  rw [readReceipt, if_pos, ReceiptText.parse_complete isName valid]
  simp only [ReceiptText.tail, List.length_append, List.length_cons, List.length_nil, ReceiptText.kLimit]
  omega

/-! ### What a program does to the receipt -/

inductive Action where
  | firstInstall
  | prepare (invocation : Option Text) (nonce : Text)
  | complete (invocation : Option Text)
  | migrate (classify upgrade : Bool)
  /-- The files of the daemon, as it leaves them or as they are lost. -/
  | files (state : Bool) (registry database : File)

variable {unit : Text}

/-- The disks that an action passes through. -/
def Action.disks (unit : Text) (d : Disk) : Action → List Disk
  | .firstInstall => Bootstrap.firstInstall unit d
  | .prepare invocation nonce => Bootstrap.prepare unit d invocation nonce
  | .complete invocation => completeBootstrap unit d invocation
  | .migrate classify upgrade => migrateRelease7 unit classify upgrade d
  | .files state registry database => [{ d with state, registry, database }]

/-- The receipt is readable, and lies in the directory of the authority. -/
structure Sound (d : Disk) : Prop where
  placed : d.authority = false → d.receipt = none
  readable : ∃ r, d.read = some r

/-- The new receipt, or the old one where it could not be written. -/
theorem write_cases (d : Disk) (r : Receipt) :
    (d.write r = d) ∨ ((d.write r).read = some r ∧ (d.write r).authority = d.authority) := by
  unfold Disk.write
  split
  · rename_i data made
    exact .inr ⟨readReceipt_serialize made, rfl⟩
  · exact .inl rfl

/-- What one action can do: it leaves the receipt, or writes the next one. -/
inductive Effect (unit : Text) : Action → Disk → Disk → Prop
  | kept {action : Action} {d d' : Disk} (same : d'.receipt = d.receipt)
      (authority : d.authority = true → d'.authority = true) : Effect unit action d d'
  | wrote {action : Action} {d d' : Disk} {r r' : Receipt} (before : d.read = some r)
      (after : d'.read = some r') (placed : d'.authority = true)
      (next : r.phase.Next r'.phase)
      (claims : r'.phase = .claimed → ∃ nonce, action = .prepare (some r'.invocation) nonce) :
      Effect unit action d d'

theorem effect_write {action : Action} {d d' : Disk} {r r' : Receipt} (before : d.read = some r)
    (same : d'.receipt = d.receipt) (placed : d'.authority = true)
    (next : r.phase.Next r'.phase)
    (claims : r'.phase = .claimed → ∃ nonce, action = .prepare (some r'.invocation) nonce) :
    Effect unit action d (d'.write r') := by
  rcases write_cases d' r' with unchanged | ⟨after, authority⟩
  · rw [unchanged]
    exact .kept same fun _ => placed
  · exact .wrote before after (authority.trans placed) next claims

theorem firstInstall_effect {d d' : Disk} (sound : Sound d) (member : d' ∈ firstInstall unit d) :
    Effect unit .firstInstall d d' := by
  unfold firstInstall at member
  split at member
  · cases member
  · rename_i free
    simp only [Bool.or_eq_true, not_or, Bool.not_eq_true] at free
    have before : d.read = some {} := by
      rw [Disk.read, sound.placed free.2]
      rfl
    rcases List.mem_cons.mp member with rfl | member
    · exact .kept rfl fun _ => rfl
    · rw [List.mem_singleton.mp member]
      exact effect_write before rfl rfl .installed (by simp)

theorem preflight_effect {d owned d' : Disk} (same : owned.receipt = d.receipt)
    (placed : owned.authority = true) (member : d' ∈ bootstrapPreflight unit owned invocation nonce) :
    Effect unit (.prepare invocation nonce) d d' := by
  unfold bootstrapPreflight at member
  split at member
  · cases member
  · rename_i receipt read
    have before : d.read = some receipt := by
      rw [Disk.read, ← same]
      exact read
    split at member
    · cases member
    · split at member
      · rename_i fresh
        split at member
        · rename_i id
          split at member
          · cases member
          · rw [List.mem_singleton.mp member]
            refine effect_write before same placed ?_ fun _ => ⟨nonce, rfl⟩
            rw [fresh]
            exact .claimed
        · cases member
      · cases member

theorem prepare_effect {d d' : Disk} (member : d' ∈ prepare unit d invocation nonce) :
    Effect unit (.prepare invocation nonce) d d' := by
  unfold prepare at member
  dsimp only at member
  split at member
  · simp only [List.mem_cons] at member
    rcases member with rfl | rfl | rfl | member
    · exact .kept rfl fun _ => rfl
    · exact .kept rfl fun _ => rfl
    · exact .kept rfl fun _ => rfl
    · refine preflight_effect ?_ ?_ member
      · rfl
      · rfl
  · rw [List.mem_singleton.mp member]
    exact .kept rfl fun _ => rfl

theorem migrate_effect {d d' : Disk} {classify upgrade : Bool}
    (member : d' ∈ migrateRelease7 unit classify upgrade d) :
    Effect unit (.migrate classify upgrade) d d' := by
  unfold migrateRelease7 at member
  split at member
  · cases member
  · rename_i receipt read
    dsimp only at member
    split at member
    · cases member
    · rename_i allowed
      simp only [Bool.or_eq_true, decide_eq_true_eq, not_or, not_not, Bool.not_eq_true',
        Bool.not_eq_false] at allowed
      obtain ⟨⟨⟨⟨⟨authority, absent⟩, _⟩, _⟩, _⟩, _⟩ := allowed
      rcases List.mem_cons.mp member with rfl | member
      · exact .kept rfl id
      · rw [List.mem_singleton.mp member]
        refine effect_write read rfl authority ?_ ?_
        · rw [absent]
          dsimp only
          split
          · exact .migrated
          · exact .fenced
        · dsimp only
          split
          · intro claimed
            cases claimed
          · intro claimed
            cases claimed

theorem complete_effect {d d' : Disk} (member : d' ∈ completeBootstrap unit d invocation) :
    Effect unit (.complete invocation) d d' := by
  unfold completeBootstrap at member
  split at member
  · cases member
  · rename_i receipt read
    split at member
    · rename_i allowed
      simp only [Bool.and_eq_true, decide_eq_true_eq] at allowed
      obtain ⟨⟨⟨⟨⟨⟨authority, _⟩, _⟩, claimed⟩, _⟩, _⟩, _⟩ := allowed
      rw [List.mem_singleton.mp member]
      refine effect_write read rfl authority ?_ (by simp)
      rw [claimed]
      exact .completed
    · cases member

theorem Action.effect {d d' : Disk} (action : Action) (sound : Sound d)
    (member : d' ∈ d :: action.disks unit d) : Effect unit action d d' := by
  rcases List.mem_cons.mp member with rfl | member
  · exact .kept rfl id
  · cases action with
    | firstInstall => exact firstInstall_effect sound member
    | prepare invocation nonce => exact prepare_effect member
    | complete invocation => exact complete_effect member
    | migrate classify upgrade => exact migrate_effect member
    | files state registry database =>
      rw [List.mem_singleton.mp member]
      exact .kept rfl id

/-! ### Histories -/

structure Entry where
  action : Action
  before : Disk
  after : Disk

/-- The actions so far, the latest one first, and the disk they leave; each of them may have
been cut short. -/
inductive Run (unit : Text) : List Entry → Disk → Prop
  | start : Run unit [] {}
  | step {history : List Entry} {d d' : Disk} (run : Run unit history d) (action : Action)
      (member : d' ∈ d :: action.disks unit d) : Run unit (⟨action, d, d'⟩ :: history) d'

/-- The receipt was fresh and is claimed for an invocation. -/
def Entry.Claims (e : Entry) (invocation : Text) : Prop :=
  (∃ r, e.before.read = some r ∧ r.phase = .fresh) ∧
    ∃ r, e.after.read = some r ∧ r.phase = .claimed ∧ r.invocation = invocation

theorem Effect.sound {action : Action} {d d' : Disk} (h : Effect unit action d d') (sound : Sound d) :
    Sound d' := by
  cases h with
  | kept same authority =>
    obtain ⟨r, read⟩ := sound.readable
    refine ⟨fun missing => ?_, r, ?_⟩
    · rw [same]
      refine sound.placed ?_
      rw [← Bool.not_eq_true] at missing ⊢
      exact fun there => missing (authority there)
    · rw [Disk.read, same]
      exact read
  | wrote _ after placed _ _ =>
    refine ⟨fun missing => ?_, _, after⟩
    rw [placed] at missing
    cases missing

theorem Run.sound (run : Run unit history d) : Sound d := by
  induction run with
  | start => exact ⟨fun _ => rfl, {}, rfl⟩
  | step _ action member ih => exact (action.effect ih member).sound ih

/-- Every action leaves the phase or takes it to the next one. -/
theorem Run.next (run : Run unit history d) {e : Entry} (member : e ∈ history) :
    ∃ r r', e.before.read = some r ∧ e.after.read = some r' ∧
      (r'.phase = r.phase ∨ r.phase.Next r'.phase) := by
  induction run with
  | start => cases member
  | step earlier action reached ih =>
    rcases List.mem_cons.mp member with rfl | member
    · obtain ⟨r, read⟩ := earlier.sound.readable
      cases action.effect earlier.sound reached with
      | kept same _ =>
        refine ⟨r, r, read, ?_, .inl rfl⟩
        rw [Disk.read, same]
        exact read
      | wrote before after _ next _ => exact ⟨_, _, before, after, .inr next⟩
    · exact ih member

/-- Who claimed a receipt: one `Prepare` with the invocation that the receipt names. -/
def Claimed (history : List Entry) (invocation : Text) : Prop :=
  ∃ later e earlier nonce, history = later ++ e :: earlier ∧
    e.action = .prepare (some invocation) nonce ∧ e.Claims invocation ∧
      ∀ other ∈ later ++ earlier, ∀ id, ¬ other.Claims id

/-- What the receipt says about the history. -/
structure Tells (history : List Entry) (r : Receipt) : Prop where
  unclaimed : r.phase = .absent ∨ r.phase = .fresh → ∀ e ∈ history, ∀ id, ¬ e.Claims id
  claimed : r.phase = .claimed → Claimed history r.invocation

theorem Run.tells (run : Run unit history d) (read : d.read = some r) : Tells history r := by
  induction run generalizing r with
  | start =>
    cases read
    refine ⟨fun _ e member => ?_, fun claimed => ?_⟩
    · cases member
    · cases claimed
  | @step history d d' earlier action reached ih =>
    obtain ⟨old, before⟩ := earlier.sound.readable
    have told := ih before
    cases action.effect earlier.sound reached with
    | kept same _ =>
      -- The same receipt before and after: this action claims nothing.
      have here : d.read = some r := by
        rw [Disk.read, ← same]
        exact read
      obtain rfl : old = r := Option.some.inj (before.symm.trans here)
      have idle : ∀ id, ¬ Entry.Claims ⟨action, d, d'⟩ id := by
        rintro id ⟨⟨s, was, fresh⟩, ⟨s', is, claimed, _⟩⟩
        obtain rfl : s = old := Option.some.inj (was.symm.trans before)
        obtain rfl : s' = s := Option.some.inj (is.symm.trans read)
        rw [fresh] at claimed
        cases claimed
      refine ⟨fun phase e member id => ?_, fun claimed => ?_⟩
      · rcases List.mem_cons.mp member with rfl | member
        · exact idle id
        · exact told.unclaimed phase e member id
      · obtain ⟨later, e, rest, nonce, rfl, did, claims, others⟩ := told.claimed claimed
        refine ⟨⟨action, d, d'⟩ :: later, e, rest, nonce, rfl, did, claims, fun other member id => ?_⟩
        rcases List.mem_cons.mp member with rfl | member
        · exact idle id
        · exact others other member id
    | wrote was after _ next claims =>
      obtain rfl := Option.some.inj (before.symm.trans was)
      obtain rfl := Option.some.inj (after.symm.trans read)
      refine ⟨fun phase e member id => ?_, fun claimed => ?_⟩
      · rcases List.mem_cons.mp member with rfl | member
        · rintro ⟨_, s, is, claimed, _⟩
          obtain rfl := Option.some.inj (is.symm.trans read)
          rw [claimed] at phase
          simp at phase
        · exact told.unclaimed (.inl (next.unclaimed phase)) e member id
      · obtain ⟨nonce, rfl⟩ := claims claimed
        rw [claimed] at next
        exact ⟨[], _, history, nonce, rfl, rfl,
          ⟨⟨old, before, next.to_claimed⟩, _, read, claimed, rfl⟩,
          told.unclaimed (.inr next.to_claimed)⟩

/-- An initialised receipt is never replaced. -/
theorem Run.initialized (run : Run unit history d) {e : Entry} (member : e ∈ history)
    (read : e.after.read = some r) (initialized : r.phase = .initialized) : d.read = some r := by
  induction run with
  | start => cases member
  | step earlier action reached ih =>
    rcases List.mem_cons.mp member with rfl | member
    · exact read
    · have before := ih member
      cases action.effect earlier.sound reached with
      | kept same _ =>
        rw [Disk.read, same]
        exact before
      | wrote was _ _ next _ =>
        obtain rfl := Option.some.inj (before.symm.trans was)
        rw [initialized] at next
        cases next

/-- A daemon that may run without a registry is the one whose invocation the claimed receipt
names. -/
theorem checkBootstrap_missing {managed : Bool} (missing : d.registry = .missing)
    (allowed : checkBootstrap unit d managed invocation = true) :
    ∃ r, d.read = some r ∧ r.phase = .claimed ∧ invocation = some r.invocation := by
  unfold checkBootstrap at allowed
  split at allowed
  · cases allowed
  · rename_i r read
    refine ⟨r, read, ?_⟩
    simp only [Bool.and_eq_true, missing, File.present, bne_self_eq_false] at allowed
    have first := allowed.2
    unfold assess at first
    split at first
    · rename_i ticket
      have named := ticket.2.1
      simp only [Bool.and_eq_true, beq_iff_eq] at named
      exact ⟨ticket.1, named.1.2⟩
    · simp at first

/-- The registry is missing only at the start that claimed the receipt of the installation:
in every history of installations, preparations, completions and migrations, each of them
possibly cut short, and of losses of the files of the daemon. The phase only advances, and
an initialised installation never starts without its registry again. -/
theorem registry_loss_never_repaired {history : List Entry} {d : Disk} (run : Run unit history d) :
    (∀ managed invocation, checkBootstrap unit d managed invocation = true → d.registry = .missing →
      ∃ id, invocation = some id ∧ Claimed history id) ∧
    (∀ e ∈ history, ∃ r r', e.before.read = some r ∧ e.after.read = some r' ∧
      (r'.phase = r.phase ∨ r.phase.Next r'.phase)) ∧
    ∀ e ∈ history, ∀ r, e.after.read = some r → r.phase = .initialized →
      d.read = some r ∧
        ∀ managed invocation, d.registry = .missing →
          checkBootstrap unit d managed invocation = false := by
  refine ⟨fun managed invocation allowed missing => ?_, fun e member => run.next member,
    fun e member r read initialized => ?_⟩
  · obtain ⟨r, read, claimed, rfl⟩ := checkBootstrap_missing missing allowed
    exact ⟨r.invocation, rfl, (run.tells read).claimed claimed⟩
  · have now := run.initialized member read initialized
    refine ⟨now, fun managed invocation missing => ?_⟩
    by_contra allowed
    obtain ⟨s, is, claimed, _⟩ := checkBootstrap_missing missing (Bool.not_eq_false _ ▸ allowed)
    obtain rfl := Option.some.inj (now.symm.trans is)
    rw [initialized] at claimed
    cases claimed

def sampleUnit : Text := Wire.octets "consentd.service"

def sampleInvocation : Text := Wire.octets "0123456789abcdef0123456789abcdef"

/-- The installation, the claim, the files of the daemon, the completion, and the loss of
the registry. -/
def sampleActions : List Action :=
  [.firstInstall, .prepare (some sampleInvocation) sampleInvocation, .files true .owned .owned,
    .complete (some sampleInvocation), .files true .missing .owned]

/-- The last disk of an action that nothing cuts short. -/
def Action.finish (unit : Text) (d : Disk) (action : Action) : Disk :=
  (action.disks unit d).getLastD d

def sampleHistory (unit : Text) : List Action → List Entry × Disk → List Entry × Disk
  | [], s => s
  | action :: actions, (history, d) =>
    let d' := action.finish unit d
    sampleHistory unit actions (⟨action, d, d'⟩ :: history, d')

theorem Run.sampleHistory (actions : List Action) (run : Run unit history d) :
    Run unit (sampleHistory unit actions (history, d)).1 (sampleHistory unit actions (history, d)).2 := by
  induction actions generalizing history d with
  | nil => exact run
  | cons action actions ih =>
    refine ih (run.step action ?_)
    unfold Action.finish
    rw [List.getLastD_eq_getLast?]
    cases last : (action.disks unit d).getLast? with
    | none => exact List.mem_cons_self
    | some d' => exact List.mem_cons_of_mem _ (List.mem_of_getLast? last)

/-- The claimed start runs without a registry; after the completion its loss is final. -/
theorem registry_loss_in_sample :
    ∃ claimed lost : List Entry × Disk,
      claimed = sampleHistory sampleUnit (sampleActions.take 2) ([], {}) ∧
      lost = sampleHistory sampleUnit sampleActions ([], {}) ∧
      checkBootstrap sampleUnit claimed.2 true (some sampleInvocation) = true ∧
      claimed.2.registry = .missing ∧ (∃ id, some sampleInvocation = some id ∧ Claimed claimed.1 id) ∧
      lost.2.registry = .missing ∧
      checkBootstrap sampleUnit lost.2 true (some sampleInvocation) = false := by
  refine ⟨_, _, rfl, rfl, ?_⟩
  have first : checkBootstrap sampleUnit
      (sampleHistory sampleUnit (sampleActions.take 2) ([], {})).2 true
      (some sampleInvocation) = true := by decide +kernel
  have absent : (sampleHistory sampleUnit (sampleActions.take 2) ([], {})).2.registry =
      .missing := by decide
  have lost : (sampleHistory sampleUnit sampleActions ([], {})).2.registry = .missing := by
    decide
  have reached : ∃ e ∈ (sampleHistory sampleUnit sampleActions ([], {})).1,
      ∃ r, e.after.read = some r ∧ r.phase = .initialized := by
    refine ⟨_, List.mem_cons_self, ⟨.initialized, sampleUnit, [], []⟩, ?_, rfl⟩
    decide +kernel
  obtain ⟨e, member, r, read, initialized⟩ := reached
  exact ⟨first, absent,
    (registry_loss_never_repaired (Run.sampleHistory _ .start)).1 true _ first absent, lost,
    ((registry_loss_never_repaired (Run.sampleHistory _ .start)).2.2 e member r read
      initialized).2 true _ lost⟩

/-! ### The first start again -/

/-- The disks that failed first starts leave: the installation is complete, and every attempt
so far was cut short before the claim. -/
inductive Attempts (unit : Text) : Disk → Prop
  | installed (anchor : Bool) : Attempts unit (Action.firstInstall.finish unit { anchor })
  | failed {d d' : Disk} (earlier : Attempts unit d) (invocation : Option Text) (nonce : Text)
      (member : d' ∈ d :: prepare unit d invocation nonce)
      (fresh : ∃ r, d'.read = some r ∧ r.phase = .fresh) : Attempts unit d'

/-- An attempt that nothing cuts short claims the receipt. -/
def Repeats (unit : Text) (d : Disk) : Prop :=
  ∀ invocation nonce, hexId invocation 32 = true → hexId nonce 32 = true →
    ((Action.prepare (some invocation) nonce).finish unit d).read =
      some ⟨.claimed, unit, invocation, nonce⟩

/-- The receipt of the installation, and no files of the daemon. -/
structure Unclaimed (unit : Text) (d : Disk) : Prop where
  receipt : d.read = some { phase := .fresh, unit }
  registry : d.registry = .missing
  database : d.database = .missing

theorem read_write {name : Text} (isName : ReceiptText.named r.phase = some name) (valid : Valid r)
    : (d.write r).read = some r := by
  have made := ReceiptText.serialize_iff.mpr ⟨name, isName, valid, rfl⟩
  unfold Disk.write
  rw [made]
  exact readReceipt_serialize made

theorem preflight_disks {d' : Disk} (member : d' ∈ bootstrapPreflight unit d invocation nonce) :
    ∃ id, d' = d.write ⟨.claimed, unit, id, nonce⟩ := by
  unfold bootstrapPreflight at member
  split at member
  · cases member
  · split at member
    · cases member
    · split at member
      · split at member
        · rename_i id
          split at member
          · cases member
          · exact ⟨id, List.mem_singleton.mp member⟩
        · cases member
      · cases member

/-- An attempt leaves the receipt and the files as they are, or claims. -/
theorem Unclaimed.kept {d d' : Disk} (h : Unclaimed unit d)
    (member : d' ∈ d :: Bootstrap.prepare unit d invocation nonce)
    (fresh : ∃ r, d'.read = some r ∧ r.phase = .fresh) : Unclaimed unit d' := by
  have owned : ∀ e : Disk, e.receipt = d.receipt → e.registry = d.registry.own →
      e.database = d.database.own → Unclaimed unit e := by
    intro e receipt registry database
    refine ⟨?_, ?_, ?_⟩
    · rw [Disk.read, receipt]
      exact h.receipt
    · rw [registry, h.registry]
      rfl
    · rw [database, h.database]
      rfl
  have same : ∀ e : Disk, e.receipt = d.receipt → e.registry = d.registry →
      e.database = d.database → Unclaimed unit e := by
    intro e receipt registry database
    refine owned e receipt ?_ ?_
    · rw [registry, h.registry]
      rfl
    · rw [database, h.database]
      rfl
  rcases List.mem_cons.mp member with rfl | member
  · exact h
  · unfold Bootstrap.prepare at member
    dsimp only at member
    split at member
    · simp only [List.mem_cons] at member
      rcases member with rfl | rfl | rfl | member
      · exact same _ rfl rfl rfl
      · exact same _ rfl rfl rfl
      · exact owned _ rfl rfl rfl
      · obtain ⟨id, rfl⟩ := preflight_disks member
        obtain ⟨r, read, phase⟩ := fresh
        rcases write_cases _ (⟨.claimed, unit, id, nonce⟩ : Receipt) with kept | ⟨after, _⟩
        · rw [kept]
          exact owned _ rfl rfl rfl
        · rw [after] at read
          cases read
          cases phase
    · rw [List.mem_singleton.mp member]
      exact same _ rfl rfl rfl

theorem Attempts.unclaimed (known : ValidUnit unit) (h : Attempts unit d) :
    Unclaimed unit d := by
  induction h with
  | installed anchor =>
    refine ⟨read_write rfl ⟨known.1, known.2.1, known.2.2, by simp, by simp⟩, ?_, ?_⟩
    · change (Disk.write _ _).registry = _
      unfold Disk.write
      split
      · rfl
      · rfl
    · change (Disk.write _ _).database = _
      unfold Disk.write
      split
      · rfl
      · rfl
  | failed _ invocation nonce member fresh ih => exact ih.kept member fresh

/-- With the directory of the state an attempt ends at the check of the receipt. -/
theorem Unclaimed.blocked (h : Unclaimed unit d) (made : d.state = true) (invocation : Option Text)
    (nonce : Text) :
    prepare unit d invocation nonce = [{ d with authority := true }] := by
  have refused : mayPrepare { d with authority := true } = false := by
    unfold mayPrepare
    rw [show Disk.read { d with authority := true } = d.read from rfl, h.receipt]
    simp [made]
  unfold prepare
  dsimp only
  rw [refused]
  rfl

/-- Without it the attempt claims. -/
theorem Unclaimed.repeats (known : ValidUnit unit) (h : Unclaimed unit d) (absent : d.state = false)
    : Repeats unit d := by
  intro invocation nonce id random
  have allowed : mayPrepare { d with authority := true } = true := by
    unfold mayPrepare
    rw [show Disk.read { d with authority := true } = d.read from rfl, h.receipt]
    simp [absent]
  have preflight : bootstrapPreflight unit { d with authority := true, state := true } (some invocation)
      nonce = [Disk.write { d with authority := true, state := true }
        ⟨.claimed, unit, invocation, nonce⟩] := by
    unfold bootstrapPreflight
    rw [show Disk.read { d with authority := true, state := true } = d.read from rfl, h.receipt]
    simp [Disk.pairOwned, h.registry, h.database, File.present, id]
  have owned : ({ d with
      authority := true, state := true, registry := d.registry.own, database := d.database.own } : Disk) =
      { d with authority := true, state := true } := by
    rw [h.registry, h.database]
    obtain ⟨authority, receipt, state, registry, database, anchor⟩ := d
    obtain rfl : registry = .missing := h.registry
    obtain rfl : database = .missing := h.database
    rfl
  have run : prepare unit d (some invocation) nonce =
      [{ d with authority := true }, { d with authority := true, state := true },
        { d with authority := true, state := true },
        Disk.write { d with authority := true, state := true } ⟨.claimed, unit, invocation, nonce⟩] := by
    unfold prepare
    dsimp only
    rw [if_pos allowed, owned, preflight]
  change ((prepare unit d (some invocation) nonce).getLastD d).read = _
  rw [run]
  exact read_write rfl ⟨known.1, known.2.1, known.2.2, fun _ => ⟨id, random⟩, by simp⟩

/-- A first start that was cut short can be repeated exactly when it had not created the
directory of the state. -/
theorem first_start_repeats_iff (known : ValidUnit unit) {d : Disk} (failed : Attempts unit d) :
    Repeats unit d ↔ d.state = false := by
  have unclaimed := failed.unclaimed known
  constructor
  · intro repeats
    rw [← Bool.not_eq_true]
    intro made
    have claimed := repeats sampleInvocation sampleInvocation (by decide) (by decide)
    have kept : ((Action.prepare (some sampleInvocation) sampleInvocation).finish unit d).read =
        d.read := by
      change ((prepare unit d (some sampleInvocation) sampleInvocation).getLastD d).read = _
      rw [unclaimed.blocked made]
      rfl
    rw [kept, unclaimed.receipt] at claimed
    cases claimed
  · exact unclaimed.repeats known

/-- The attempt that is cut short before the directory is there. -/
theorem first_start_repeats_at_once : ∃ d : Disk,
    d ∈ prepare sampleUnit (Action.firstInstall.finish sampleUnit {})
      (some sampleInvocation) sampleInvocation ∧ d.state = false ∧
    Repeats sampleUnit d := by
  have installed : Attempts sampleUnit (Action.firstInstall.finish sampleUnit {}) :=
    .installed false
  have cut : { Action.firstInstall.finish sampleUnit {} with authority := true } ∈
      prepare sampleUnit (Action.firstInstall.finish sampleUnit {})
        (some sampleInvocation) sampleInvocation := by
    unfold prepare
    dsimp only
    split <;> simp
  have failed := installed.failed (some sampleInvocation) sampleInvocation (.tail _ cut)
    ⟨_, (installed.unclaimed (by decide)).receipt, rfl⟩
  exact ⟨_, cut, rfl, (first_start_repeats_iff (by decide) failed).mpr rfl⟩

/-- The first attempt is cut short once the directory is there, at the lock of the installer or at
any later step before the claim; no further attempt writes the receipt. -/
theorem first_start_locked_out : ∃ d : Disk,
    d ∈ prepare sampleUnit (Action.firstInstall.finish sampleUnit {})
      (some sampleInvocation) sampleInvocation ∧
    d.read = some { phase := .fresh, unit := sampleUnit } ∧
    ∀ invocation nonce d', d' ∈ prepare sampleUnit d invocation nonce →
      d'.read = some { phase := .fresh, unit := sampleUnit } := by
  have installed : Unclaimed sampleUnit (Action.firstInstall.finish sampleUnit {}) :=
    (Attempts.installed false).unclaimed (by decide)
  refine ⟨{ Action.firstInstall.finish sampleUnit {} with authority := true, state := true },
    ?_, installed.receipt, ?_⟩
  · have allowed : mayPrepare { Action.firstInstall.finish sampleUnit {} with authority := true } =
        true := by
      unfold mayPrepare
      rw [show Disk.read { Action.firstInstall.finish sampleUnit {} with authority := true } =
        Disk.read (Action.firstInstall.finish sampleUnit {}) from rfl, installed.receipt]
      rfl
    unfold prepare
    dsimp only
    rw [if_pos allowed]
    simp
  · intro invocation nonce d' member
    have unclaimed : Unclaimed sampleUnit
        { Action.firstInstall.finish sampleUnit {} with authority := true, state := true } :=
      ⟨installed.receipt, installed.registry, installed.database⟩
    rw [unclaimed.blocked rfl, List.mem_singleton] at member
    rw [member]
    exact installed.receipt

end Consent.Bootstrap
