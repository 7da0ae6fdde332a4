import Consent.Guarantees.Registrations

/-!
The names of installation operations. The registry records a call of an installer under the
digest of its identity, a colon and the operation id, and a record of the image under a key
of another form.

An operation id may itself hold colons, and so may an identity. Where a colon of one name is
taken for the colon between the two, calls of different installers share a key.
-/
namespace Consent.Repository
open Profile

variable {σ ε : Type} [Host σ ε]

/-! ### Joined names -/

/-- The identity of the second call goes on into the operation id of the first one. -/
def Overlaps (identity operation identity' operation' : String) : Prop :=
  ∃ middle, identity' = identity ++ ":" ++ middle ∧ operation = middle ++ ":" ++ operation'

/-- Two calls whose names can be read off one text. -/
def Shared (peer peer' : Peer) (request request' : Message) : Prop :=
  Overlaps peer.identity (request.get "operation_id") peer'.identity (request'.get "operation_id") ∨
    Overlaps peer'.identity (request'.get "operation_id") peer.identity (request.get "operation_id")

/-- The calls have different pairs of identity and operation id. -/
def Differ (peer peer' : Peer) (request request' : Message) : Prop :=
  (peer.identity, request.get "operation_id") ≠ (peer'.identity, request'.get "operation_id")

instance (peer peer' : Peer) (request request' : Message) :
    Decidable (Differ peer peer' request request') :=
  inferInstanceAs (Decidable (_ ≠ _))

theorem Overlaps.joined {identity operation identity' operation' : String}
    (h : Overlaps identity operation identity' operation') :
    identity ++ ":" ++ operation = identity' ++ ":" ++ operation' := by
  obtain ⟨middle, rfl, rfl⟩ := h
  simp only [String.append_assoc]

theorem Overlaps.operation_ne {identity operation identity' operation' : String}
    (h : Overlaps identity operation identity' operation') : operation ≠ operation' := by
  obtain ⟨middle, -, rfl⟩ := h
  intro same
  have lengths := congrArg String.length same
  simp only [String.length_append] at lengths
  have colon : ":".length = 1 := rfl
  omega

/-- One text, cut at two colons. -/
theorem overlaps_of_append {identity operation identity' operation' : String} {rest : List Char}
    (longer : identity'.toList = identity.toList ++ rest)
    (tail : ':' :: operation.toList = rest ++ ':' :: operation'.toList) :
    (identity = identity' ∧ operation = operation') ∨
      Overlaps identity operation identity' operation' := by
  cases rest with
  | nil =>
    rw [List.append_nil] at longer
    rw [List.nil_append, List.cons.injEq] at tail
    exact .inl ⟨String.toList_inj.mp longer.symm, String.toList_inj.mp tail.2⟩
  | cons c middle =>
    rw [List.cons_append, List.cons.injEq] at tail
    obtain ⟨rfl, tail⟩ := tail
    refine .inr ⟨String.ofList middle, ?_, ?_⟩
    · apply String.toList_inj.mp
      simp [longer]
    · apply String.toList_inj.mp
      simp [tail]

/-- Joined names agree when the names do, and when one identity goes on into the other
call's operation id. -/
theorem joined_eq_iff (identity operation identity' operation' : String) :
    identity ++ ":" ++ operation = identity' ++ ":" ++ operation' ↔
      (identity = identity' ∧ operation = operation') ∨
        Overlaps identity operation identity' operation' ∨
        Overlaps identity' operation' identity operation := by
  constructor
  · intro same
    have texts : identity.toList ++ ':' :: operation.toList =
        identity'.toList ++ ':' :: operation'.toList := by
      simpa using congrArg String.toList same
    rcases List.append_eq_append_iff.mp texts with ⟨rest, longer, tail⟩ | ⟨rest, longer, tail⟩
    · rcases overlaps_of_append longer tail with equal | overlaps
      · exact .inl equal
      · exact .inr (.inl overlaps)
    · rcases overlaps_of_append longer tail with ⟨left, right⟩ | overlaps
      · exact .inl ⟨left.symm, right.symm⟩
      · exact .inr (.inr overlaps)
  · rintro (⟨rfl, rfl⟩ | overlaps | overlaps)
    · rfl
    · exact overlaps.joined
    · exact overlaps.joined.symm

/-! ### Keys -/

/-- Different calls share a key exactly where their names overlap. -/
theorem operationKey_eq_iff {P : Platform} (distinct : Function.Injective P.hash)
    {peer peer' : Peer} {request request' : Message} (differ : Differ peer peer' request request') :
    operationKey P peer request = operationKey P peer' request' ↔
      Shared peer peer' request request' := by
  rw [operationKey, operationKey, distinct.eq_iff, joined_eq_iff]
  constructor
  · rintro (⟨identity, operation⟩ | shared)
    · exact absurd (Prod.ext identity operation) differ
    · exact shared
  · exact .inr

/-- The key of an image record begins with a letter that no hexadecimal digest begins with. -/
theorem operationKey_ne_offlineKey {P : Platform}
    (digits : ∀ text, (P.hash text).toList.head? ≠ some 'o') (peer : Peer) (request seed : Message) :
    operationKey P peer request ≠ offlineKey P seed := by
  intro same
  have marked : (operationKey P peer request).toList.head? = some 'o' := by
    rw [same, offlineKey]
    simp
  exact digits _ marked

/-- Names that overlap belong to different payloads. -/
theorem Shared.fingerprint_ne {P : Platform} (distinct : Function.Injective P.hash)
    {peer peer' : Peer} {request request' : Message} (shared : Shared peer peer' request request') :
    fingerprint P request ≠ fingerprint P request' := by
  have operations : request.get "operation_id" ≠ request'.get "operation_id" := by
    rcases shared with overlaps | overlaps
    · exact overlaps.operation_ne
    · exact overlaps.operation_ne.symm
  intro same
  have payloads := pack_injective (distinct same)
  have kept := congrArg (fun payload => payload.get "operation_id") payloads
  rw [Message.get_eraseAll_of_notMem _ (by decide), Message.get_eraseAll_of_notMem _ (by decide)]
    at kept
  exact operations kept

/-! ### What one call does to the name of another -/

/-- A call does not touch what the registry has under another key. -/
theorem Attained.keeps_operation {P : Platform} {w : World σ ε} (attained : Attained P w)
    {step : Step σ} {key other : String} {request : Message} {environment : Environment ε}
    (operation : step.operation P = some (key, request)) (apart : key ≠ other)
    (clean : Untampered (step.run P environment w).2.progress.record) :
    (listing (step.run P environment w).2.members.disk.registry).operations[other]? =
      (listing w.members.disk.registry).operations[other]? := by
  rcases attained.amends operation clean with same | ⟨kind, m, content, amends, _, _, before, after⟩
  · rw [same]
  · rw [before, after]
    show content.operations[other]? = m.operations[other]?
    rw [amends.operations, Std.ExtTreeMap.getElem?_insert, if_neg]
    intro same
    exact apart (Std.LawfulEqCmp.eq_of_compare same)

/-- A call that is recorded under the key of another one leaves no room for it: the other is
refused and changes nothing. -/
theorem Attained.taken {P : Platform} (distinct : Function.Injective P.hash) {w : World σ ε}
    (attained : Attained P w) {peer peer' : Peer} {request request' : Message}
    {environment environment' : Environment ε} (named : isRegistration request)
    (named' : isRegistration request') (shared : Shared peer peer' request request')
    (keys : operationKey P peer request = operationKey P peer' request')
    (succeeds : ((Step.execute peer request).run P environment w).1.status = none)
    (clean : Untampered ((Step.execute peer' request').run P environment'
      ((Step.execute peer request).run P environment w).2).2.progress.record) :
    let v := ((Step.execute peer request).run P environment w).2
    listing ((Step.execute peer' request').run P environment' v).2.members.disk.registry =
        listing v.members.disk.registry ∧
      ((Step.execute peer' request').run P environment' v).1.status ≠ none := by
  have first := Attained.step (Step.execute peer request) environment attained
  have within := clean.suffix (first.step_record (Step.execute peer' request') environment')
  obtain ⟨_, recorded⟩ := attained.recorded (Step.operation_execute P peer named) succeeds within
  rw [keys] at recorded
  obtain ⟨same, retried⟩ :=
    first.repeated (Step.operation_execute P peer' named') recorded clean
  exact ⟨same, fun repeats => shared.fingerprint_ne distinct (retried repeats)⟩

/-- How far the names of installation operations are kept apart, in every run of the
repository. -/
structure OperationNames (σ ε : Type) [Host σ ε] (P : Platform) : Prop where
  /-- Different pairs of identity and operation id have different keys, unless they overlap. -/
  keys : ∀ peer peer' request request', Differ peer peer' request request' →
    (operationKey P peer request ≠ operationKey P peer' request' ↔
      ¬ Shared peer peer' request request')
  /-- No call of an installer has the key of an image record. -/
  image : ∀ peer request seed, operationKey P peer request ≠ offlineKey P seed
  /-- What the registry has for the second call is left alone by the first one. -/
  untouched : ∀ (w : World σ ε) (environment : Environment ε) peer peer' request request',
    Attained P w → isRegistration request → Differ peer peer' request request' →
    ¬ Shared peer peer' request request' →
    Untampered ((Step.execute peer request).run P environment w).2.progress.history →
    (listing ((Step.execute peer request).run P environment w).2.members.disk.registry).operations[
        operationKey P peer' request']? =
      (listing w.members.disk.registry).operations[operationKey P peer' request']?
  /-- Neither do calls of installers and image records touch each other's entries. -/
  separate : ∀ (w : World σ ε) (environment : Environment ε) peer request seed, Attained P w →
    (isRegistration request →
      Untampered ((Step.execute peer request).run P environment w).2.progress.history →
      (listing ((Step.execute peer request).run P environment w).2.members.disk.registry).operations[
          offlineKey P seed]? =
        (listing w.members.disk.registry).operations[offlineKey P seed]?) ∧
    (Untampered ((Step.importOfflineRegistration seed).run P environment w).2.progress.history →
      (listing ((Step.importOfflineRegistration seed).run P environment
          w).2.members.disk.registry).operations[operationKey P peer request]? =
        (listing w.members.disk.registry).operations[operationKey P peer request]?)
  /-- Where the names overlap, a first call that succeeds has the second one refused. -/
  taken : ∀ (w : World σ ε) (environment environment' : Environment ε) peer peer' request request',
    Attained P w → isRegistration request → isRegistration request' →
    Differ peer peer' request request' → Shared peer peer' request request' →
    ((Step.execute peer request).run P environment w).1.status = none →
    Untampered ((Step.execute peer' request').run P environment'
      ((Step.execute peer request).run P environment w).2).2.progress.history →
    listing ((Step.execute peer' request').run P environment'
        ((Step.execute peer request).run P environment w).2).2.members.disk.registry =
        listing ((Step.execute peer request).run P environment w).2.members.disk.registry ∧
      ((Step.execute peer' request').run P environment'
        ((Step.execute peer request).run P environment w).2).1.status ≠ none

/-- Operations of different names are kept apart exactly where the names do not overlap. -/
theorem operation_names_apart_iff {P : Platform} (distinct : Function.Injective P.hash)
    (digits : ∀ text, (P.hash text).toList.head? ≠ some 'o') : OperationNames σ ε P where
  keys peer peer' request request' differ := not_congr (operationKey_eq_iff distinct differ)
  image := operationKey_ne_offlineKey digits
  untouched w environment peer peer' request request' attained named differ apart clean :=
    attained.keeps_operation (Step.operation_execute P peer named)
      (fun same => apart ((operationKey_eq_iff distinct differ).mp same)) clean.record
  separate w environment peer request seed attained := by
    have apart := operationKey_ne_offlineKey digits peer request seed
    refine ⟨fun named clean => ?_, fun clean => ?_⟩
    · exact attained.keeps_operation (Step.operation_execute P peer named) apart clean.record
    · exact attained.keeps_operation rfl apart.symm clean.record
  taken w environment environment' peer peer' request request' attained named named' differ shared
      succeeds clean :=
    attained.taken distinct named named' shared ((operationKey_eq_iff distinct differ).mpr shared)
      succeeds clean.record

/-! ### Two installers of the sample -/

namespace Sample

def installerNamed (identity : String) : Peer := { installer with identity }

/-- The first definition of the package, under the given operation id. -/
def registration (operation id : String) : Message := definition operation id "1" "1" "1"

def registers (identity operation id : String) : Step ProfileState :=
  .execute (installerNamed identity) (registration operation id)

/-- An installer `a:b` uses the operation id `c`; then the installer `a` uses `b:c`, or
`b:d`. -/
theorem overlapping : ∃ w v : World ProfileState ProfileStep,
    w = ((Step.restart ProfileState.initial false false).run platform (environment 1000)
      (World.start 1 none ProfileState.initial)).2 ∧
    v = ((registers "a:b" "c" "cam").run platform (environment 1000) w).2 ∧
    ((registers "a:b" "c" "cam").run platform (environment 1000) w).1.status = none ∧
    ((registers "a" "b:c" "mic").run platform (environment 1000) w).1.status = none ∧
    ((registers "a" "b:c" "mic").run platform (environment 1000) v).1.status = some .conflict ∧
    Untampered ((registers "a" "b:c" "mic").run platform (environment 1000)
      v).2.progress.history ∧ Untampered v.progress.history ∧
    (listing w.members.disk.registry).operations[
      operationKey platform (installerNamed "a") (registration "b:d" "mic")]? = none :=
  ⟨_, _, rfl, rfl, by decide +kernel⟩

theorem platform_injective : Function.Injective platform.hash :=
  fun _ _ same => (String.append_right_inj "h").mp same

theorem platform_digits (text : String) : (platform.hash text).toList.head? ≠ some 'o' := by
  simp [platform]

theorem shared_names : Shared (installerNamed "a:b") (installerNamed "a") (registration "c" "cam")
    (registration "b:c" "mic") :=
  .inr ⟨"b", by decide⟩

/-- Nothing of `a:b` and `c` can be read as `a` and `b:d`. -/
theorem separate_names : ¬ Shared (installerNamed "a:b") (installerNamed "a")
    (registration "c" "cam") (registration "b:d" "mic") := by
  have joined : (installerNamed "a:b").identity ++ ":" ++ (registration "c" "cam").get "operation_id" ≠
      (installerNamed "a").identity ++ ":" ++ (registration "b:d" "mic").get "operation_id" := by
    decide
  rintro (overlaps | overlaps)
  · exact joined overlaps.joined
  · exact joined overlaps.joined.symm

end Sample

/-- After `a:b` has used `c`, nothing is recorded for `a` and `b:d`, and `a` is refused
`b:c`. -/
theorem operation_names_in_sample : ∃ w v : World ProfileState ProfileStep,
    Attained Sample.platform w ∧
    v = ((Sample.registers "a:b" "c" "cam").run Sample.platform (Sample.environment 1000) w).2 ∧
    (listing v.members.disk.registry).operations[operationKey Sample.platform
      (Sample.installerNamed "a") (Sample.registration "b:d" "mic")]? = none ∧
    ((Sample.registers "a" "b:c" "mic").run Sample.platform (Sample.environment 1000)
      v).1.status ≠ none := by
  obtain ⟨w, v, opened, rfl, succeeds, _, _, later, clean, absent⟩ := Sample.overlapping
  have attained : Attained Sample.platform w := by
    rw [opened]
    exact .step _ _ (.start _ _ _)
  have names := operation_names_apart_iff (σ := ProfileState) (ε := ProfileStep)
    Sample.platform_injective Sample.platform_digits
  refine ⟨w, _, attained, rfl, ?_, ?_⟩
  · rw [← absent]
    exact names.untouched w _ _ _ _ _ attained (by decide) (by decide)
      Sample.separate_names clean
  · exact (names.taken w _ _ _ _ _ _ attained (by decide) (by decide)
      (by decide) Sample.shared_names succeeds later).2

/-- The installers `a:b` and `a` differ, and so do the operation ids `c` and `b:c`. Their calls
have one key: either of them succeeds alone, but after the first the second is a conflict. -/
theorem operation_name_taken_by_another : ∃ w v : World ProfileState ProfileStep,
    Attained Sample.platform w ∧ Function.Injective Sample.platform.hash ∧
    v = ((Sample.registers "a:b" "c" "cam").run Sample.platform (Sample.environment 1000) w).2 ∧
    Differ (Sample.installerNamed "a:b") (Sample.installerNamed "a")
      (Sample.registration "c" "cam") (Sample.registration "b:c" "mic") ∧
    identifier ((Sample.registration "c" "cam").get "operation_id") = true ∧
    identifier ((Sample.registration "b:c" "mic").get "operation_id") = true ∧
    operationKey Sample.platform (Sample.installerNamed "a:b") (Sample.registration "c" "cam") =
      operationKey Sample.platform (Sample.installerNamed "a") (Sample.registration "b:c" "mic") ∧
    ((Sample.registers "a:b" "c" "cam").run Sample.platform (Sample.environment 1000)
      w).1.status = none ∧
    ((Sample.registers "a" "b:c" "mic").run Sample.platform (Sample.environment 1000)
      w).1.status = none ∧
    ((Sample.registers "a" "b:c" "mic").run Sample.platform (Sample.environment 1000)
      v).1.status = some .conflict := by
  obtain ⟨w, v, opened, rfl, first, alone, conflict, _⟩ := Sample.overlapping
  have attained : Attained Sample.platform w := by
    rw [opened]
    exact .step _ _ (.start _ _ _)
  exact ⟨w, _, attained, Sample.platform_injective, rfl, by decide, by decide,
    by decide, by decide, first, alone, conflict⟩

end Consent.Repository
