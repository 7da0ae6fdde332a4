import Consent.Repository.Listing

/-!
The history of definitions over runs of `register`, `update`, `unregister` and offline
import.

Each call compares a definition with the stored one only; every pair of registrations of a
run is related because what is stored only advances. The meaning of a policy version is
compared while the stored definition is active under the same installation, so it is fixed
only as long as it stays so.
-/
namespace Consent.Repository
open Profile

variable {σ ε : Type} [Host σ ε]

/-! ### Recorded calls -/

/-- The key and the payload of a call that the registry records. -/
def Step.operation (P : Platform) : Step σ → Option (String × Message)
  | .execute peer request =>
    if isRegistration request then some (operationKey P peer request, request) else none
  | .importOfflineRegistration seed => some (offlineKey P seed, recordRequest seed)
  | _ => none

omit [Host σ ε] in
theorem Step.operation_execute (P : Platform) (peer : Peer) {request : Message}
    (named : isRegistration request) : (Step.execute peer request : Step σ).operation P =
      some (operationKey P peer request, request) := if_pos named

def Step.removes : Step σ → Bool
  | .execute _ request => request.get "method" == "unregister"
  | _ => false

omit [Host σ ε] in
/-- What a recorded call may write is recorded under its key. -/
theorem Step.Allows.amends {P : Platform} {environment : Environment ε} {step : Step σ}
    {key : String} {request : Message} (operation : step.operation P = some (key, request))
    {m : Members} {content : Registry} (h : step.Allows ⟨P, environment⟩ m content) :
    ∃ kind, Amends P kind key request m content ∧
      (kind = commonRevision step.removes ∨ kind = .obsolete) := by
  cases step with
  | execute peer sent =>
    obtain ⟨named, _, amends, _⟩ := h
    rw [Step.operation, if_pos named] at operation
    cases operation
    exact ⟨_, amends, Or.inl rfl⟩
  | importOfflineRegistration seed =>
    cases operation
    rcases h.2 with ⟨_, amends, _⟩ | amends
    · exact ⟨_, amends, Or.inl rfl⟩
    · exact ⟨_, amends, Or.inr rfl⟩
  | _ => cases operation

omit [Host σ ε] in
theorem Step.Allows.keyed {P : Platform} {environment : Environment ε} {step : Step σ}
    {key : String} {request : Message} (operation : step.operation P = some (key, request)) :
    Keyed (step.Allows ⟨P, environment⟩) key := by
  intro m content allowed
  obtain ⟨kind, amends, _⟩ := Step.Allows.amends operation allowed
  refine ⟨amends.new, kind.mark ++ fingerprint P request, ?_⟩
  rw [amends.operations]
  simp

omit [Host σ ε] in
theorem Step.Allows.operation {P : Platform} {environment : Environment ε} {step : Step σ}
    {m : Members} {content : Registry} (h : step.Allows ⟨P, environment⟩ m content) :
    ∃ key request, step.operation P = some (key, request) := by
  cases step with
  | execute peer request => exact ⟨_, request, by rw [Step.operation, if_pos h.1]⟩
  | importOfflineRegistration seed => exact ⟨_, _, rfl⟩
  | _ => cases h

omit [Host σ ε] in
/-- Every call amends the registry under one key, if at all. -/
theorem Step.Allows.keyed_any (P : Platform) (environment : Environment ε) (step : Step σ) :
    ∃ key, Keyed (step.Allows ⟨P, environment⟩) key := by
  cases operation : step.operation P with
  | none =>
    refine ⟨"", fun m content allowed => ?_⟩
    obtain ⟨key, request, found⟩ := Step.Allows.operation allowed
    rw [operation] at found
    cases found
  | some found => exact ⟨found.1, Step.Allows.keyed operation⟩

/-- The reply of an import comes from its checked part. -/
theorem importOfflineRegistration_replies {c : Context ε} {w v : World σ ε} {seed : Message}
    {reply : Reply} (run : (importOfflineRegistration seed).run c w = (.ok reply, v))
    (succeeds : reply.status = none) :
    ∃ u, (importChecked seed).run c { w with members := { w.members with offlineImport := true } } =
      (.ok reply, u) ∧ v.members.disk = u.members.disk ∧ v.progress = u.progress := by
  rw [importOfflineRegistration, run_members_bind] at run
  obtain ⟨_, u, entered, run⟩ := Act.of_run_bind run
  cases entered
  obtain ⟨answer, u, inner, run⟩ := Act.of_run_bind run
  obtain ⟨_, t, left, run⟩ := Act.of_run_bind run
  cases left
  cases run
  refine ⟨u, ?_, rfl, rfl⟩
  rw [Act.run_tryCatch] at inner
  split at inner
  · rename_i checked
    cases inner
    exact checked
  · obtain ⟨_, s, _, inner⟩ := Act.of_run_bind inner
    rw [failureReply, run_members_bind] at inner
    cases inner
    cases succeeds

/-- A recorded call that succeeds has its payload recorded, durably. -/
theorem Attained.recorded {P : Platform} {w : World σ ε} (attained : Attained P w)
    {step : Step σ} {key : String} {request : Message} {environment : Environment ε}
    (operation : step.operation P = some (key, request))
    (succeeds : (step.run P environment w).1.status = none)
    (clean : Untampered (step.run P environment w).2.progress.record) :
    listing (step.run P environment w).2.members.disk.durable =
        listing (step.run P environment w).2.members.disk.registry ∧
      (listing (step.run P environment w).2.members.disk.registry).operations[key]? =
        some (fingerprint P request) := by
  obtain ⟨runs, _, rest⟩ := attained.runs
  rcases ran : step.act.run ⟨P, environment⟩ (step.enter w) with ⟨outcome, v⟩
  have whole : step.run P environment w = (replyOr outcome, v) := by rw [Step.run, ran]
  rw [whole] at succeeds clean ⊢
  obtain ⟨reply, rfl⟩ : ∃ reply, outcome = .ok reply := by
    cases outcome with
    | error failure => cases succeeds
    | ok reply => exact ⟨reply, rfl⟩
  cases step with
  | execute peer sent =>
    have named : isRegistration sent := by
      by_contra other
      rw [Step.operation, if_neg other] at operation
      cases operation
    rw [Step.operation, if_pos named] at operation
    cases operation
    have entered : Rest ((Step.execute peer request).enter w).view := rest
    exact executeChecked_recorded rfl (runs.enter _) entered (execute_replies ran succeeds) clean named
  | importOfflineRegistration seed =>
    cases operation
    obtain ⟨u, checked, disk, progress⟩ := importOfflineRegistration_replies ran succeeds
    have began := Runs.move (c := ⟨P, environment⟩) (K := fun _ _ => False) rfl
      (runs.enter (.importOfflineRegistration seed))
      (.steer (m := { w.members with offlineImport := true }) { Members.Steers.refl w.members with })
    have entered : Rest (World.view ⟨{ w.members with offlineImport := true }, w.progress.begin⟩) := rest
    have record : u.progress.record = v.progress.record := by rw [progress]
    obtain ⟨durable, value, stored, own⟩ := importChecked_recorded rfl began entered checked
      (by rw [record]; exact clean)
    dsimp only
    rw [disk]
    exact ⟨durable, by rw [stored, own succeeds]⟩
  | _ => cases operation

theorem mark_eq_empty {kind : Revision} {text : String} (h : kind.mark ++ text = text) :
    kind ≠ .obsolete := by
  rintro rfl
  have lengths := congrArg String.length h
  rw [String.length_append] at lengths
  have long : 0 < (Revision.mark .obsolete).length := by decide
  omega

/-- A recorded call either leaves what the registry lists or amends it once. -/
theorem Attained.amends {P : Platform} {w : World σ ε} (attained : Attained P w) {step : Step σ}
    {key : String} {request : Message} {environment : Environment ε}
    (operation : step.operation P = some (key, request))
    (clean : Untampered (step.run P environment w).2.progress.record) :
    listing (step.run P environment w).2.members.disk.registry =
        listing w.members.disk.registry ∨
      ∃ kind m content, Amends P kind key request m content ∧
        step.Allows ⟨P, environment⟩ m content ∧
        (kind = commonRevision step.removes ∨ kind = .obsolete) ∧
        listing w.members.disk.registry = m.listing ∧
        listing (step.run P environment w).2.members.disk.registry = content.listing := by
  obtain ⟨runs, reaches⟩ := attained.step_reaches step environment
  have same : (step.enter w).members.disk.registry = w.members.disk.registry := by
    cases step with
    | restart main offline powerLoss => cases operation
    | _ => rfl
  have made := Runs.amended rfl (Step.Allows.keyed operation) runs reaches clean
  rw [same] at made
  rcases made with kept | ⟨m, content, allowed, before, after⟩
  · exact Or.inl kept
  · obtain ⟨kind, amends, which⟩ := Step.Allows.amends operation allowed
    exact Or.inr ⟨kind, m, content, amends, allowed, which, before, after⟩

/-- A recorded call with a new key that succeeds has made its change. -/
theorem Attained.accepts {P : Platform} {w : World σ ε} (attained : Attained P w) {step : Step σ}
    {key : String} {request : Message} {environment : Environment ε}
    (operation : step.operation P = some (key, request))
    (new : (listing w.members.disk.registry).operations[key]? = none)
    (succeeds : (step.run P environment w).1.status = none)
    (clean : Untampered (step.run P environment w).2.progress.record) :
    ∃ m content, Amends P (commonRevision step.removes) key request m content ∧
      listing w.members.disk.registry = m.listing ∧
      listing (step.run P environment w).2.members.disk.registry = content.listing := by
  obtain ⟨_, recorded⟩ := attained.recorded operation succeeds clean
  rcases attained.amends operation clean with same | ⟨kind, m, content, amends, _, which, before, after⟩
  · rw [same, new] at recorded
    cases recorded
  · refine ⟨m, content, ?_, before, after⟩
    rcases which with rfl | obsolete
    · exact amends
    · have own : kind.mark ++ fingerprint P request = fingerprint P request := by
        rw [after] at recorded
        have stored : content.operations[key]? = some (fingerprint P request) := recorded
        rw [amends.operations] at stored
        simpa using stored
      exact absurd obsolete (mark_eq_empty own)

/-! ### Whole runs -/

def Step.losesPower : Step σ → Bool
  | .restart _ _ powerLoss => powerLoss
  | _ => false

/-- What the moves of one step keep. -/
theorem Step.retains {P : Platform} {w v : World σ ε} {I : Listing → Prop} {L : Prop}
    (step : Step σ) (environment : Environment ε) (runs : Runs P (step.enter w))
    (reaches : (law ⟨P, environment⟩ (step.Allows ⟨P, environment⟩)).Reaches (step.enter w) v)
    (clean : Untampered v.progress.record) (lossy : step.losesPower = true → L)
    (each : ∀ key request m content, step.operation P = some (key, request) →
      step.Allows ⟨P, environment⟩ m content → listing w.members.disk.registry = m.listing →
      I m.listing → I content.listing)
    (registry : I (listing w.members.disk.registry)) (durable : L → I (listing w.members.disk.durable)) :
    I (listing v.members.disk.registry) ∧ (L → I (listing v.members.disk.durable)) := by
  obtain ⟨key, keyed⟩ := Step.Allows.keyed_any P environment step
  have entered : I (listing (step.enter w).members.disk.registry) ∧
      (L → I (listing (step.enter w).members.disk.durable)) := by
    cases step with
    | restart main offline powerLoss =>
      cases powerLoss with
      | true => exact ⟨durable (lossy rfl), durable⟩
      | false => exact ⟨registry, durable⟩
    | _ => exact ⟨registry, durable⟩
  refine Runs.retains rfl keyed runs reaches clean ?_ entered.1 entered.2
  intro m content allowed before
  obtain ⟨key, request, operation⟩ := Step.Allows.operation allowed
  refine each key request m content operation allowed ?_
  rw [← before]
  cases step with
  | restart main offline powerLoss => cases operation
  | _ => rfl

/-- What every step of a run keeps, the run keeps. -/
theorem Attained.retains {P : Platform} {C : World σ ε → Step σ → Prop} {w v : World σ ε}
    {I : Listing → Prop} {L : Prop} (h : Attained P w) (continues : Continues P C w v)
    (clean : Untampered v.progress.record)
    (lossy : ∀ u step, C u step → step.losesPower = true → L)
    (each : ∀ (u : World σ ε) (step : Step σ) (environment : Environment ε) key request m content,
      C u step → step.operation P = some (key, request) → step.Allows ⟨P, environment⟩ m content →
      listing u.members.disk.registry = m.listing → I m.listing → I content.listing)
    (registry : I (listing w.members.disk.registry)) (durable : L → I (listing w.members.disk.durable)) :
    w.progress.record <:+ v.progress.record ∧
      I (listing v.members.disk.registry) ∧ (L → I (listing v.members.disk.durable)) := by
  induction continues with
  | refl => exact ⟨List.suffix_refl _, registry, durable⟩
  | @step v step environment meets before ih =>
    obtain ⟨runs, reaches⟩ := (h.continues before).step_reaches step environment
    have part := (step.enter_record v).trans (Runs.record reaches)
    obtain ⟨record, placed, kept⟩ := ih (clean.suffix part)
    exact ⟨record.trans part, step.retains environment runs reaches clean (lossy v step meets)
      (fun key request m content => each v step environment key request m content meets) placed kept⟩
  | @killed v u step environment main offline powerLoss next meets again before killed after ih =>
    obtain ⟨runs, _⟩ := (h.continues before).step_reaches step environment
    have here : Runs P u := runs.reaches rfl killed
    have reaches := ((Step.restart main offline powerLoss).run_reaches next here.recorded ⟨rfl, rfl, rfl, rfl⟩).1
    have first := (step.enter_record v).trans (Runs.record killed)
    have second := ((Step.restart main offline powerLoss).enter_record u).trans (Runs.record reaches)
    have within := clean.suffix second
    obtain ⟨record, placed, kept⟩ := ih (within.suffix first)
    obtain ⟨placed, kept⟩ := step.retains environment runs killed within (lossy v step meets)
      (fun key request m content => each v step environment key request m content meets) placed kept
    exact ⟨(record.trans first).trans second, Step.retains _ next (here.enter _) reaches clean
      (lossy u _ again) (fun key request m content => each u _ next key request m content again)
      placed kept⟩

/-! ### Accepted calls -/

/-- The call succeeds under an operation key that was not recorded before. -/
def Step.Accepted (P : Platform) (environment : Environment ε) (w : World σ ε) (step : Step σ)
    (request : Message) : Prop :=
  ∃ key, step.operation P = some (key, request) ∧
    (listing w.members.disk.registry).operations[key]? = none ∧
    (step.run P environment w).1.status = none

/-- An accepted registration is stored, durably, over a definition that it succeeds. -/
theorem Attained.registered {P : Platform} {w : World σ ε} (attained : Attained P w)
    {step : Step σ} {request : Message} {environment : Environment ε}
    (accepted : step.Accepted P environment w request) (adds : step.removes = false)
    (clean : Untampered (step.run P environment w).2.progress.record) :
    (∀ old, (listing w.members.disk.registry).definitions[
        (registeredDefinition request).get "definition"]? = some old →
        Succeeds old (registeredDefinition request)) ∧
      (listing (step.run P environment w).2.members.disk.registry).definitions[
        (registeredDefinition request).get "definition"]? = some (registeredDefinition request) ∧
      listing (step.run P environment w).2.members.disk.durable =
        listing (step.run P environment w).2.members.disk.registry := by
  obtain ⟨key, operation, new, succeeds⟩ := accepted
  obtain ⟨m, content, amends, before, after⟩ := attained.accepts operation new succeeds clean
  rw [adds] at amends
  obtain ⟨succession, stored⟩ := amends.changes.of_registered
  refine ⟨?_, ?_, (attained.recorded operation succeeds clean).1⟩
  · rw [before]
    exact succession
  · rw [after]
    show content.definitions[_]? = _
    rw [stored]
    simp

/-- An accepted removal clears the package and nothing else. -/
theorem Attained.removed {P : Platform} {w : World σ ε} (attained : Attained P w)
    {step : Step σ} {request : Message} {environment : Environment ε}
    (accepted : step.Accepted P environment w request) (removes : step.removes = true)
    (clean : Untampered (step.run P environment w).2.progress.record) :
    currentGeneration (listing w.members.disk.registry).definitions (request.get "package")
        (request.get "expected_generation") ∧
      (listing (step.run P environment w).2.members.disk.registry).definitions =
        deactivatePackage (listing w.members.disk.registry).definitions (request.get "package") := by
  obtain ⟨key, operation, new, succeeds⟩ := accepted
  obtain ⟨m, content, amends, before, after⟩ := attained.accepts operation new succeeds clean
  rw [removes] at amends
  obtain ⟨current, stored⟩ := amends.changes.of_removed
  rw [before, after]
  exact ⟨current, stored⟩

/-! ### What every run keeps -/

omit [Host σ ε] in
theorem Step.Allows.grows {P : Platform} {environment : Environment ε} {step : Step σ}
    {m : Members} {content : Registry} (h : step.Allows ⟨P, environment⟩ m content) :
    m.listing.Grows content.listing := by
  obtain ⟨key, request, operation⟩ := h.operation
  obtain ⟨_, amends, _⟩ := Step.Allows.amends operation h
  exact amends.grows

/-- Without a loss of power, the registry in place only grows. -/
theorem Attained.grows {P : Platform} {w v : World σ ε} (attained : Attained P w)
    (continues : Continues P (fun _ step => step.losesPower = false) w v)
    (clean : Untampered v.progress.record) :
    (listing w.members.disk.registry).Grows (listing v.members.disk.registry) := by
  refine (attained.retains (I := (listing w.members.disk.registry).Grows) (L := False) continues
    clean (fun _ _ keeps loses => ?_) ?_ (.refl _) False.elim).2.1
  · rw [keeps] at loses
    cases loses
  · exact fun _ _ _ _ _ _ _ _ _ allowed _ grown => grown.trans (Step.Allows.grows allowed)

/-- What is durable is kept, whatever happens. -/
theorem Attained.durable_grows {P : Platform} {C : World σ ε → Step σ → Prop} {w v : World σ ε}
    (attained : Attained P w) (continues : Continues P C w v)
    (clean : Untampered v.progress.record) :
    w.progress.record <:+ v.progress.record ∧
      (listing w.members.disk.durable).Grows (listing v.members.disk.registry) ∧
      (listing w.members.disk.durable).Grows (listing v.members.disk.durable) := by
  have kept := attained.retains (I := fun _ => True) (L := True) continues clean
    (fun _ _ _ _ => trivial) (fun _ _ _ _ _ _ _ _ _ _ _ _ => trivial) trivial fun _ => trivial
  have ordered : Ordered w.members := attained.runs.1.ordered (clean.suffix kept.1)
  obtain ⟨_, placed, durable⟩ := attained.retains (I := (listing w.members.disk.durable).Grows)
    (L := True) continues clean (fun _ _ _ _ => trivial)
    (fun _ _ _ _ _ _ _ _ _ allowed _ grown => grown.trans (Step.Allows.grows allowed))
    ordered fun _ => .refl _
  exact ⟨kept.1, placed, durable trivial⟩

theorem Attained.step_record {P : Platform} {w : World σ ε} (attained : Attained P w)
    (step : Step σ) (environment : Environment ε) :
    w.progress.record <:+ (step.run P environment w).2.progress.record :=
  (step.enter_record w).trans (Runs.record (attained.step_reaches step environment).2)

/-- A repeated operation changes nothing and has to repeat the payload. -/
theorem Attained.repeated {P : Platform} {w : World σ ε} (attained : Attained P w) {step : Step σ}
    {key print : String} {request : Message} {environment : Environment ε}
    (operation : step.operation P = some (key, request))
    (stored : (listing w.members.disk.registry).operations[key]? = some print)
    (clean : Untampered (step.run P environment w).2.progress.record) :
    listing (step.run P environment w).2.members.disk.registry =
        listing w.members.disk.registry ∧
      ((step.run P environment w).1.status = none → print = fingerprint P request) := by
  have same : listing (step.run P environment w).2.members.disk.registry =
      listing w.members.disk.registry := by
    rcases attained.amends operation clean with same | ⟨kind, m, content, amends, _, _, before, _⟩
    · exact same
    · have new : (listing w.members.disk.registry).operations[key]? = none := by
        rw [before]
        exact amends.new
      rw [new] at stored
      cases stored
  refine ⟨same, fun succeeds => ?_⟩
  have recorded := (attained.recorded operation succeeds clean).2
  rw [same, stored] at recorded
  exact Option.some.inj recorded

/-- A later registration of a definition advances an earlier one, whatever happened to the
definition in between. -/
theorem Attained.advances {P : Platform} {w v : World σ ε} (attained : Attained P w)
    {step step' : Step σ} {request request' : Message} {environment environment' : Environment ε}
    (accepted : step.Accepted P environment w request) (adds : step.removes = false)
    (continues : Continues P (fun _ _ => True) (step.run P environment w).2 v)
    (accepted' : step'.Accepted P environment' v request') (adds' : step'.removes = false)
    (same : (registeredDefinition request').get "definition" =
      (registeredDefinition request).get "definition")
    (clean : Untampered (step'.run P environment' v).2.progress.record) :
    Advances (registeredDefinition request) (registeredDefinition request') := by
  have first := Attained.step step environment attained
  have here := first.continues continues
  have within := clean.suffix (here.step_record step' environment')
  obtain ⟨record, grown, _⟩ := first.durable_grows continues within
  obtain ⟨_, stored, durable⟩ := attained.registered accepted adds (within.suffix record)
  rw [← durable] at stored
  obtain ⟨config, now, advances⟩ := grown.definitions _ _ stored
  obtain ⟨succeeds, _⟩ := here.registered accepted' adds' clean
  rw [same] at succeeds
  exact advances.trans (succeeds config now).toAdvances

/-! ### The history of a definition -/

/-- The fields of a request that the registry compares in a retry. -/
def payload (request : Message) : Message := request.eraseAll ["id", "protocol_request_id"]

/-- What holds from a world on, in every continuation of its run in which no other program
touches the registry file. -/
structure DefinitionHistory (P : Platform) (w : World σ ε) : Prop where
  /-- Definitions and recorded operations stay in the registry; package and app of a definition
  are fixed, its versions never decrease. -/
  grows : ∀ v, Continues P (fun _ step => step.losesPower = false) w v →
    Untampered v.progress.history →
    (listing w.members.disk.registry).Grows (listing v.members.disk.registry)
  /-- What is durable stays even where power is lost. -/
  durable : ∀ v, Continues P (fun _ _ => True) w v → Untampered v.progress.history →
    (listing w.members.disk.durable).Grows (listing v.members.disk.durable) ∧
      (listing w.members.disk.durable).Grows (listing v.members.disk.registry)
  /-- Two accepted registrations of one definition: the versions of the later one are not
  lower, and fields that belong to a version differ only if the version does. -/
  accepted : ∀ (step : Step σ) environment request, step.Accepted P environment w request →
    step.removes = false → ∀ v, Continues P (fun _ _ => True) (step.run P environment w).2 v →
    ∀ (step' : Step σ) environment' request', step'.Accepted P environment' v request' →
    step'.removes = false →
    (registeredDefinition request').get "definition" =
      (registeredDefinition request).get "definition" →
    Untampered (step'.run P environment' v).2.progress.history →
    Advances (registeredDefinition request) (registeredDefinition request')
  /-- A repeated operation key changes nothing, and is answered with success only for the
  recorded payload. -/
  repeated : ∀ (step : Step σ) (environment : Environment ε) key request print,
    step.operation P = some (key, request) →
    (listing w.members.disk.registry).operations[key]? = some print →
    Untampered (step.run P environment w).2.progress.history →
    listing (step.run P environment w).2.members.disk.registry =
        listing w.members.disk.registry ∧
      ((step.run P environment w).1.status = none → print = fingerprint P request)
  /-- So another payload is rejected, unless the digest confuses the two. -/
  rejected : ∀ (step : Step σ) (environment : Environment ε) key request earlier,
    step.operation P = some (key, request) →
    (listing w.members.disk.registry).operations[key]? = some (fingerprint P earlier) →
    Untampered (step.run P environment w).2.progress.history →
    payload request ≠ payload earlier →
    (fingerprint P request = fingerprint P earlier → pack (payload request) = pack (payload earlier)) →
    (step.run P environment w).1.status ≠ none
  /-- An accepted removal finds every active definition of the package under the expected
  generation, deactivates the definitions of the package and changes no other one. -/
  removed : ∀ (step : Step σ) environment request, step.Accepted P environment w request →
    step.removes = true → Untampered (step.run P environment w).2.progress.history →
    currentGeneration (listing w.members.disk.registry).definitions (request.get "package")
        (request.get "expected_generation") ∧
      ∀ id : String,
        (listing (step.run P environment w).2.members.disk.registry).definitions[id]? =
          (listing w.members.disk.registry).definitions[id]?.map fun config =>
            if config.get "package" = request.get "package" then config.insert "active" "0"
            else config

/-- The definitions of every run of `register`, `update`, `unregister` and offline import
have a monotone history. -/
theorem definition_history_monotone {P : Platform} {w : World σ ε} (attained : Attained P w) :
    DefinitionHistory P w where
  grows v continues clean := attained.grows continues clean.record
  durable v continues clean := by
    obtain ⟨_, placed, durable⟩ := attained.durable_grows continues clean.record
    exact ⟨durable, placed⟩
  accepted step environment request accepted adds v continues step' environment' request' accepted'
      adds' same clean :=
    attained.advances accepted adds continues accepted' adds' same clean.record
  repeated step environment key request print operation stored clean :=
    attained.repeated operation stored clean.record
  rejected step environment key request earlier operation stored clean differs distinct succeeds := by
    have same := (attained.repeated operation stored clean.record).2 succeeds
    exact differs (pack_injective (distinct same.symm))
  removed step environment request accepted removes clean := by
    obtain ⟨current, cleared⟩ := attained.removed accepted removes clean.record
    refine ⟨current, fun id => ?_⟩
    rw [cleared, getElem?_deactivatePackage]

namespace Sample

def removal (operation : String) : Message := Message.of
  [("method", "unregister"), ("operation_id", operation), ("package", "q"),
    ("expected_generation", "i")]

/-- The call is answered with success under a key that the registry does not know. -/
def accepts (w : World ProfileState ProfileStep) (request : Message) : Bool :=
  isRegistration request &&
    (listing w.members.disk.registry).operations[operationKey platform installer request]? == none &&
    ((installs request).run platform (environment 1000) w).1.status == none

theorem accepted {w : World ProfileState ProfileStep} {request : Message}
    (accepts : accepts w request = true) :
    (installs request).Accepted platform (environment 1000) w request := by
  simp only [Sample.accepts, Bool.and_eq_true, decide_eq_true_eq, beq_iff_eq] at accepts
  obtain ⟨⟨named, new⟩, succeeds⟩ := accepts
  exact ⟨_, Step.operation_execute _ _ named, new, succeeds⟩

/-- The same policy with another text. -/
def reworded : Message := definition "2" "cam" "1" "2" "1"

/-- Another level, under the same policy version. -/
def relabeled : Message := definition "3" "cam" "1" "2" "2"

/-- Both requests register the definition `cam` for the installation `i`. -/
def alike (request request' : Message) : Prop :=
  (installs request).removes = false ∧ (installs request').removes = false ∧
    (registeredDefinition request).get "definition" = "cam" ∧
    (registeredDefinition request').get "definition" = "cam" ∧
    (registeredDefinition request).get "policy_version" =
      (registeredDefinition request').get "policy_version" ∧
    (registeredDefinition request).get "_install_identity" = "i" ∧
    (registeredDefinition request').get "_install_identity" = "i"

instance (request request' : Message) : Decidable (alike request request') :=
  inferInstanceAs (Decidable (_ ∧ _))

/-- A repository is opened and a definition registered; then its text changes, or it is removed
with its package and registered again. -/
theorem registrations : ∃ w v u : World ProfileState ProfileStep,
    w = ((Step.restart ProfileState.initial false false).run platform (environment 1000)
      (World.start 1 none ProfileState.initial)).2 ∧
    v = ((installs first).run platform (environment 1000) w).2 ∧
    u = ((installs (removal "2")).run platform (environment 1000) v).2 ∧
    accepts w first = true ∧
    (accepts v reworded = true ∧
      Untampered ((installs reworded).run platform (environment 1000) v).2.progress.history ∧
      (listing v.members.disk.registry).definitions["cam"]? = some (registeredDefinition first) ∧
      (registeredDefinition first).get "active" = "1" ∧ alike first reworded) ∧
    accepts u relabeled = true ∧
    Untampered ((installs relabeled).run platform (environment 1000) u).2.progress.history ∧
    alike first relabeled :=
  ⟨_, _, _, rfl, rfl, rfl, by decide +kernel⟩

end Sample

/-- A definition is registered, its package removed, and the definition registered again. -/
theorem definition_history_in_sample :
    Advances (registeredDefinition Sample.first) (registeredDefinition Sample.relabeled) := by
  obtain ⟨w, v, u, opened, rfl, rfl, begins, _, ends, clean, adds, adds', named, named', _⟩ :=
    Sample.registrations
  have attained : Attained Sample.platform w := by
    rw [opened]
    exact .step _ _ (.start _ _ _)
  exact (definition_history_monotone attained).accepted _ _ _ (Sample.accepted begins) adds _
    (.step _ _ trivial .refl) _ _ _ (Sample.accepted ends) adds' (named'.trans named.symm) clean

/-! ### The meaning of a policy version -/

/-- If the call registers the definition `id` under this generation with the policy version
that the registry has for it, the stored definition is active under this generation. -/
def Step.Steady (P : Platform) (id generation : String) (w : World σ ε) (step : Step σ) : Prop :=
  ∀ key request config, step.operation P = some (key, request) → step.removes = false →
    (listing w.members.disk.registry).operations[key]? = none →
    (registeredDefinition request).get "definition" = id →
    (registeredDefinition request).get "_install_identity" = generation →
    (listing w.members.disk.registry).definitions[id]? = some config →
    policyVersion (registeredDefinition request) = policyVersion config →
    config.get "active" = "1" ∧ config.get "_install_identity" = generation

/-- Under this generation the policy version of `config` means what it says, or is history. -/
structure Settles (generation : String) (config stored : Message) : Prop where
  policy : policyVersion config ≤ policyVersion stored
  meaning : policyVersion stored = policyVersion config →
    stored.get "_install_identity" = generation →
    ∀ name ∈ meaningFields, stored.get name = config.get name

theorem Settles.insert_active {generation : String} {config stored : Message}
    (h : Settles generation config stored) (value : String) :
    Settles generation config (stored.insert "active" value) := by
  have same : ∀ key, key ≠ "active" → Message.get (stored.insert "active" value) key =
      stored.get key := fun key other => Message.get_insert_of_ne stored value (Ne.symm other)
  have policy : policyVersion (stored.insert "active" value) = policyVersion stored := by
    rw [policyVersion, policyVersion, same _ (by decide)]
  refine ⟨by rw [policy]; exact h.policy, ?_⟩
  rw [policy, same _ (by decide)]
  intro version identity name listed
  have other : name ≠ "active" := by
    rintro rfl
    exact absurd listed (by decide)
  rw [same _ other]
  exact h.meaning version identity name listed

theorem Settles.succeeds {generation : String} {config stored new : Message}
    (h : Settles generation config stored) (succeeds : Succeeds stored new)
    (steady : policyVersion new = policyVersion stored →
      new.get "_install_identity" = generation →
      stored.get "active" = "1" ∧ stored.get "_install_identity" = generation) :
    Settles generation config new := by
  refine ⟨h.policy.trans succeeds.policy, fun version identity name listed => ?_⟩
  have first : policyVersion stored = policyVersion config :=
    le_antisymm (version ▸ succeeds.policy) h.policy
  have unchanged := version.trans first.symm
  obtain ⟨active, under⟩ := steady unchanged identity
  exact (succeeds.meaning unchanged active (identity.trans under.symm) name listed).trans
    (h.meaning first under name listed)

/-- The stored definition settles a registration. -/
def Listing.Settles (l : Listing) (id generation : String) (config : Message) : Prop :=
  ∃ stored, l.definitions[id]? = some stored ∧ Repository.Settles generation config stored

omit [Host σ ε] in
/-- A steady step keeps what is settled. -/
theorem Step.Steady.settles {P : Platform} {id generation : String} {u : World σ ε} {step : Step σ}
    {config : Message} {environment : Environment ε} {key : String} {request : Message}
    {m : Members} {content : Registry} (steady : step.Steady P id generation u)
    (operation : step.operation P = some (key, request))
    (allowed : step.Allows ⟨P, environment⟩ m content)
    (before : listing u.members.disk.registry = m.listing)
    (settles : m.listing.Settles id generation config) :
    content.listing.Settles id generation config := by
  obtain ⟨stored, found, settled⟩ := settles
  have held : m.definitions[id]? = some stored := found
  obtain ⟨kind, amends, which⟩ := Step.Allows.amends operation allowed
  show ∃ now, content.definitions[id]? = some now ∧ Settles generation config now
  rcases which with rfl | rfl
  · cases removes : step.removes with
    | true =>
      rw [removes] at amends
      obtain ⟨_, cleared⟩ := amends.changes.of_removed
      rw [cleared, getElem?_deactivatePackage, held]
      refine ⟨_, rfl, ?_⟩
      dsimp only
      split
      · exact settled.insert_active "0"
      · exact settled
    | false =>
      rw [removes] at amends
      obtain ⟨succession, added⟩ := amends.changes.of_registered
      by_cases same : (registeredDefinition request).get "definition" = id
      · rw [same] at succession added
        refine ⟨registeredDefinition request, by rw [added]; simp, ?_⟩
        refine settled.succeeds (succession stored held) fun version identity => ?_
        refine steady key request stored operation removes ?_ same identity ?_ version
        · rw [before]
          exact amends.new
        · rw [before]
          exact held
      · refine ⟨stored, ?_, settled⟩
        rw [added, Std.ExtTreeMap.getElem?_insert]
        simp only [Std.LawfulEqCmp.compare_eq_iff_eq, same, ↓reduceIte]
        exact held
  · rw [amends.changes.of_obsolete]
    exact ⟨stored, held, settled⟩

/-- Between two accepted registrations of a definition under one generation all steps are
steady: then one policy version has one meaning. -/
theorem policy_meaning_fixed {P : Platform} (id generation : String) {w v : World σ ε}
    (attained : Attained P w) {step step' : Step σ} {request request' : Message}
    {environment environment' : Environment ε}
    (accepted : step.Accepted P environment w request) (adds : step.removes = false)
    (named : (registeredDefinition request).get "definition" = id)
    (continues : Continues P (fun u => Step.Steady P id generation u) (step.run P environment w).2 v)
    (steady : step'.Steady P id generation v)
    (accepted' : step'.Accepted P environment' v request') (adds' : step'.removes = false)
    (named' : (registeredDefinition request').get "definition" = id)
    (under' : (registeredDefinition request').get "_install_identity" = generation)
    (version : policyVersion (registeredDefinition request') =
      policyVersion (registeredDefinition request))
    (clean : Untampered (step'.run P environment' v).2.progress.history) :
    ∀ name ∈ meaningFields,
      (registeredDefinition request').get name = (registeredDefinition request).get name := by
  have first := Attained.step step environment attained
  have here := first.continues continues
  have within := clean.record.suffix (here.step_record step' environment')
  obtain ⟨record, _⟩ := first.durable_grows continues within
  obtain ⟨_, stored, durable⟩ := attained.registered accepted adds (within.suffix record)
  rw [named] at stored
  have settled : (listing (step.run P environment w).2.members.disk.registry).Settles id generation
      (registeredDefinition request) := ⟨_, stored, le_refl _, fun _ _ _ _ => rfl⟩
  obtain ⟨_, ⟨config, now, settles⟩, _⟩ := first.retains (L := True)
    (I := fun l => l.Settles id generation (registeredDefinition request)) continues within
    (fun _ _ _ _ => trivial)
    (fun _ _ _ _ _ _ _ steady operation allowed before =>
      steady.settles operation allowed before)
    settled (fun _ => by rw [durable]; exact settled)
  obtain ⟨succeeds, _⟩ := here.registered accepted' adds' clean.record
  rw [named'] at succeeds
  obtain ⟨key, operation, new, _⟩ := accepted'
  have last := settles.succeeds (succeeds config now) fun unchanged identity =>
    steady key request' config operation adds' new named' identity now unchanged
  exact last.meaning version under'

/-- A changed text is registered over the active definition. -/
theorem policy_meaning_in_sample :
    policyVersion (registeredDefinition Sample.reworded) =
      policyVersion (registeredDefinition Sample.first) ∧
    ∀ name ∈ meaningFields, (registeredDefinition Sample.reworded).get name =
      (registeredDefinition Sample.first).get name := by
  obtain ⟨w, v, u, opened, rfl, _, begins, ⟨ends, clean, stored, active, adds, adds', named, named',
    version, under, under'⟩, _⟩ := Sample.registrations
  have attained : Attained Sample.platform w := by
    rw [opened]
    exact .step _ _ (.start _ _ _)
  have versions : policyVersion (registeredDefinition Sample.reworded) =
      policyVersion (registeredDefinition Sample.first) := by
    rw [policyVersion, policyVersion, version]
  refine ⟨versions, policy_meaning_fixed "cam" "i" attained (Sample.accepted begins) adds named
    .refl ?_ (Sample.accepted ends) adds' named' under' versions clean⟩
  intro key request config _ _ _ _ _ found _
  have same : config = registeredDefinition Sample.first :=
    Option.some.inj (found.symm.trans stored)
  rw [same]
  exact ⟨active, under⟩

/-- After an uninstall the definition is registered again by the same installation, with the
same policy version and another level. -/
theorem policy_meaning_changes :
    ∃ (w v : World ProfileState ProfileStep) (step step' : Step ProfileState)
      (request request' : Message) (environment environment' : Environment ProfileStep),
      Attained Sample.platform w ∧
      step.Accepted Sample.platform environment w request ∧ step.removes = false ∧
      Continues Sample.platform (fun _ _ => True) (step.run Sample.platform environment w).2 v ∧
      step'.Accepted Sample.platform environment' v request' ∧ step'.removes = false ∧
      Untampered (step'.run Sample.platform environment' v).2.progress.history ∧
      (∀ name ∈ ["definition", "policy_version", "_install_identity"],
        (registeredDefinition request').get name = (registeredDefinition request).get name) ∧
      (registeredDefinition request').get "level" ≠ (registeredDefinition request).get "level" := by
  obtain ⟨w, v, u, opened, rfl, rfl, begins, _, ends, clean, adds, adds', named, named', version,
    under, under'⟩ := Sample.registrations
  refine ⟨w, _, _, _, _, _, _, _, ?_, Sample.accepted begins, adds, .step _ _ trivial .refl,
    Sample.accepted ends, adds', clean, ?_, by decide +kernel⟩
  · rw [opened]
    exact .step _ _ (.start _ _ _)
  · simp only [List.mem_cons, List.not_mem_nil, or_false, forall_eq_or_imp, forall_eq]
    exact ⟨named'.trans named.symm, version.symm, under'.trans under.symm⟩

end Consent.Repository
