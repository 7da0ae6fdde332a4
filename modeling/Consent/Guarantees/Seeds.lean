import Consent.Guarantees.Registrations
import Consent.Server.Startup

/-!
Offline registrations over whole runs: restarts with any spool, and any calls in between.

An import amends the registry under the key of its record, and only if the key is new; so a
record takes effect at most once. What it may replace is limited by `Seedable` and `Succeeds`.
-/
namespace Consent.Repository
open Profile

variable {σ ε : Type} [Host σ ε]

/-! ### Imports -/

abbrev Step.imports (seed : Message) : Step σ := .importOfflineRegistration seed

omit [Host σ ε] in
theorem Step.operation_imports (P : Platform) (seed : Message) :
    (Step.imports seed : Step σ).operation P = some (offlineKey P seed, recordRequest seed) := rfl

theorem get_recordRequest (seed : Message) {key : String} (method : key ≠ "method")
    (identity : key ≠ "_install_identity") : (recordRequest seed).get key = seed.get key := by
  rw [recordRequest, Message.get_insert_of_ne _ _ (Ne.symm identity),
    Message.get_insert_of_ne _ _ (Ne.symm method)]

/-- What an import does to the definitions. -/
inductive Seeds (environment : Environment ε) (seed : Message) (old new : Definitions) : Prop where
  | unchanged (same : new = old)
  | registered (current : ∃ n, environment.Current true (recordRequest seed) n)
      (seedable : Seedable old (recordRequest seed))
      (succeeds : ∀ config, old[seed.get "definition"]? = some config →
        Succeeds config (registeredDefinition (recordRequest seed)))
      (stored : new = old.insert (seed.get "definition") (registeredDefinition (recordRequest seed)))

omit [Host σ ε] in
theorem Step.Allows.seeds {P : Platform} {environment : Environment ε} {seed : Message} {m : Members}
    {content : Registry} (h : (Step.imports seed : Step σ).Allows ⟨P, environment⟩ m content) :
    Seeds environment seed m.definitions content.definitions := by
  obtain ⟨current, ⟨seedable, registers, _⟩ | obsolete⟩ := h
  · obtain ⟨succeeds, stored⟩ := registers.changes.of_registered
    have named : (registeredDefinition (recordRequest seed)).get "definition" =
        seed.get "definition" := by
      rw [get_registeredDefinition _ (by decide) (by decide),
        get_recordRequest _ (by decide) (by decide)]
    rw [named] at succeeds stored
    exact .registered current seedable succeeds stored
  · exact .unchanged obsolete.changes.of_obsolete

theorem Attained.seeds {P : Platform} {w : World σ ε} (attained : Attained P w) (seed : Message)
    (environment : Environment ε)
    (clean : Untampered ((Step.imports seed).run P environment w).2.progress.record) :
    Seeds environment seed (listing w.members.disk.registry).definitions
      (listing ((Step.imports seed).run P environment w).2.members.disk.registry).definitions := by
  rcases attained.amends (Step.operation_imports P seed) clean with
    same | ⟨kind, m, content, amends, allowed, _, before, after⟩
  · exact .unchanged (by rw [same])
  · rw [before, after]
    exact Step.Allows.seeds allowed

/-- A stored definition stays as it is, or is replaced by the seed that succeeds it. -/
theorem Seeds.succeeds {environment : Environment ε} {seed : Message} {old new : Definitions}
    (h : Seeds environment seed old new) {id : String} {config : Message}
    (stored : old[id]? = some config) :
    new[id]? = some config ∨
      id = seed.get "definition" ∧ new[id]? = some (registeredDefinition (recordRequest seed)) ∧
        Succeeds config (registeredDefinition (recordRequest seed)) := by
  cases h with
  | unchanged same => exact Or.inl (by rw [same, stored])
  | registered current seedable succeeds added =>
    by_cases own : seed.get "definition" = id
    · subst own
      exact Or.inr ⟨rfl, by rw [added]; simp, succeeds config stored⟩
    · left
      rw [added, Std.ExtTreeMap.getElem?_insert]
      simp only [Std.LawfulEqCmp.compare_eq_iff_eq, own, ↓reduceIte]
      exact stored

theorem Attained.stale {P : Platform} {w : World σ ε} (attained : Attained P w) {seed : Message}
    {environment : Environment ε}
    (unknown : ∀ n, ¬ environment.Current true (recordRequest seed) n)
    (clean : Untampered ((Step.imports seed).run P environment w).2.progress.record) :
    listing ((Step.imports seed).run P environment w).2.members.disk.registry =
      listing w.members.disk.registry := by
  rcases attained.amends (Step.operation_imports P seed) clean with
    same | ⟨_, _, _, _, ⟨⟨n, current⟩, _⟩, _⟩
  · exact same
  · exact absurd current (unknown n)

/-- An import that changes the registry finds its key new and leaves it recorded. -/
theorem Attained.imported {P : Platform} {w : World σ ε} (attained : Attained P w) {seed : Message}
    {environment : Environment ε}
    (changes : listing ((Step.imports seed).run P environment w).2.members.disk.registry ≠
      listing w.members.disk.registry)
    (clean : Untampered ((Step.imports seed).run P environment w).2.progress.record) :
    ∃ print, (listing ((Step.imports seed).run P environment w).2.members.disk.registry).operations[
      offlineKey P seed]? = some print := by
  rcases attained.amends (Step.operation_imports P seed) clean with
    same | ⟨kind, m, content, amends, _, _, _, after⟩
  · exact absurd same changes
  · rw [after]
    refine ⟨kind.mark ++ fingerprint P (recordRequest seed), ?_⟩
    show content.operations[_]? = _
    rw [amends.operations]
    simp

/-! ### Descent -/

/-- One listing comes from another by amendments under these keys, latest first. -/
inductive Descent (P : Platform) (l : Listing) : List String → Listing → Prop where
  | refl : Descent P l [] l
  | amended {keys : List String} {kind : Revision} {key : String} {request : Message} {m : Members}
      {content : Registry} (before : Descent P l keys m.listing)
      (amends : Amends P kind key request m content) : Descent P l (key :: keys) content.listing

theorem Descent.recorded {P : Platform} {l l' : Listing} {keys : List String}
    (h : Descent P l keys l') : ∀ key ∈ keys, ∃ print, l'.operations[key]? = some print := by
  induction h with
  | refl => simp
  | @amended keys kind key request m content before amends ih =>
    intro other member
    rcases List.mem_cons.mp member with rfl | earlier
    · refine ⟨kind.mark ++ fingerprint P request, ?_⟩
      show content.operations[_]? = _
      rw [amends.operations]
      simp
    · obtain ⟨print, stored⟩ := ih other earlier
      exact ⟨print, amends.grows.operations other print stored⟩

/-- No key amends a listing twice. -/
theorem Descent.nodup {P : Platform} {l l' : Listing} {keys : List String}
    (h : Descent P l keys l') : keys.Nodup := by
  induction h with
  | refl => exact List.nodup_nil
  | @amended keys kind key request m content before amends ih =>
    refine List.nodup_cons.mpr ⟨fun member => ?_, ih⟩
    obtain ⟨print, stored⟩ := before.recorded key member
    have new : m.listing.operations[key]? = none := amends.new
    rw [new] at stored
    cases stored

/-- What is listed in the end of a run comes from one of the two files at its beginning. -/
theorem Attained.descent {P : Platform} {w v : World σ ε} (attained : Attained P w)
    (continues : Continues P (fun _ _ => True) w v) (clean : Untampered v.progress.record) :
    ∃ keys, Descent P (listing w.members.disk.registry) keys (listing v.members.disk.registry) ∨
      Descent P (listing w.members.disk.durable) keys (listing v.members.disk.registry) := by
  refine (attained.retains (L := True) (I := fun l => ∃ keys,
    Descent P (listing w.members.disk.registry) keys l ∨
      Descent P (listing w.members.disk.durable) keys l) continues clean (fun _ _ _ _ => trivial) ?_
    ⟨[], Or.inl .refl⟩ fun _ => ⟨[], Or.inr .refl⟩).2.1
  rintro u step environment key request m content _ operation allowed _ ⟨keys, origin⟩
  obtain ⟨kind, amends, _⟩ := Step.Allows.amends operation allowed
  exact ⟨key :: keys, origin.imp (·.amended amends) (·.amended amends)⟩

/-! ### Runs -/

/-- The definition `id` is not registered, other than by a seed of this generation. -/
def Step.Spares (P : Platform) (id generation : String) (step : Step σ) : Prop :=
  ∀ key request, step.operation P = some (key, request) → step.removes = false →
    (registeredDefinition request).get "definition" = id →
    ∃ seed, step = .imports seed ∧ seed.get "expected_generation" = generation

theorem insert_active_self {config : Message} (inactive : config.get "active" = "0") :
    config.insert "active" "0" = config := by
  have stored : config["active"]? = some "0" := by
    rw [Message.get_eq] at inactive
    rcases found : config["active"]? with _ | value
    · rw [found] at inactive
      exact absurd inactive (by decide)
    · rw [found] at inactive
      exact congrArg some inactive
  refine Std.ExtTreeMap.ext_getElem? fun key => ?_
  rw [Std.ExtTreeMap.getElem?_insert]
  by_cases own : "active" = key
  · subst own
    simp [stored]
  · simp [own]

omit [Host σ ε] in
/-- A step that spares a removed definition leaves it as it is. -/
theorem Step.Spares.keeps {P : Platform} {id generation : String} {step : Step σ}
    {environment : Environment ε} {key : String} {request config : Message} {m : Members}
    {content : Registry} (spares : step.Spares P id generation)
    (operation : step.operation P = some (key, request))
    (allowed : step.Allows ⟨P, environment⟩ m content)
    (inactive : config.get "active" = "0") (identity : config.get "_install_identity" = generation)
    (stored : m.definitions[id]? = some config) : content.definitions[id]? = some config := by
  obtain ⟨kind, amends, which⟩ := Step.Allows.amends operation allowed
  rcases which with rfl | rfl
  · cases removes : step.removes with
    | true =>
      rw [removes] at amends
      rw [amends.changes.of_removed.2, getElem?_deactivatePackage, stored, Option.map_some,
        insert_active_self inactive, ite_self]
    | false =>
      rw [removes] at amends
      obtain ⟨_, added⟩ := amends.changes.of_registered
      by_cases own : (registeredDefinition request).get "definition" = id
      · obtain ⟨seed, rfl, rfl⟩ := spares key request operation removes own
        cases operation
        obtain ⟨current, ⟨seedable, _⟩ | obsolete⟩ := allowed
        · have named : (recordRequest seed).get "definition" = id := by
            rw [← own, get_registeredDefinition _ (by decide) (by decide)]
          have generation : (recordRequest seed).get "expected_generation" =
              seed.get "expected_generation" := get_recordRequest _ (by decide) (by decide)
          exact absurd inactive (seedable config (by rw [named, stored])
            (by rw [generation, identity])).1
        · rw [obsolete.changes.of_obsolete, stored]
      · rw [added, Std.ExtTreeMap.getElem?_insert]
        simp only [Std.LawfulEqCmp.compare_eq_iff_eq, own, ↓reduceIte]
        exact stored
  · rw [amends.changes.of_obsolete, stored]

/-- A start of the daemon is a run of the repository. -/
theorem start_continues (P : Platform) (codec : Offline.Codec) (spool : Option Offline.Directory)
    (authority : Int) (environments : Nat → Environment ε) (main : σ) (powerLoss : Bool)
    (w : World σ ε) {C : World σ ε → Step σ → Prop}
    (meets : ∀ u (step : Step σ), (step.losesPower = true → powerLoss = true) → C u step) :
    Continues P C w (Server.start P codec spool authority environments main powerLoss w).2 := by
  have imports : ∀ (seeds : List Message) (n : Nat) (v : World σ ε), Continues P C w v →
      Continues P C w (Server.importRegistrations P environments seeds n v).2 := by
    intro seeds
    induction seeds with
    | nil => exact fun _ _ before => before
    | cons seed rest ih =>
      intro n v before
      have next : Continues P C w ((Step.importOfflineRegistration seed).run P (environments n) v).2 :=
        .step _ _ (meets _ _ (by simp [Step.losesPower])) before
      unfold Server.importRegistrations
      dsimp only
      split
      · exact ih _ _ next
      · exact ih _ _ next
      · exact next
  unfold Server.start
  split
  · exact .refl
  split
  · exact .refl
  unfold Server.openAndImport
  dsimp only
  have opened : ∀ offline, Continues P C w
      ((Step.restart main offline powerLoss).run P (environments 0) w).2 := fun offline =>
    .step _ _ (meets _ _ fun loses => loses) .refl
  split
  · exact opened _
  split
  · exact .step _ _ (meets _ _ (by simp [Step.losesPower]))
      (.step _ _ (meets _ _ (by simp [Step.losesPower])) (imports _ _ _ (opened _)))
  · exact imports _ _ _ (opened _)

/-- What holds of offline records from a world on, in every continuation of its run in which
no other program touches the registry file. -/
structure SeedHistory (P : Platform) (w : World σ ε) : Prop where
  /-- A start with any spool is such a continuation. -/
  starts : ∀ codec spool authority environments main powerLoss,
    Continues P (fun _ step => step.losesPower = true → powerLoss = true) w
      (Server.start P codec spool authority environments main powerLoss w).2
  /-- A record that has changed the registry does not change it again, as long as a change is
  not lost with the power. -/
  once : ∀ seed environment,
    listing ((Step.imports seed).run P environment w).2.members.disk.registry ≠
      listing w.members.disk.registry →
    ∀ v, Continues P (fun _ step => step.losesPower = false)
        ((Step.imports seed).run P environment w).2 v →
    ∀ environment', Untampered ((Step.imports seed).run P environment' v).2.progress.history →
    listing ((Step.imports seed).run P environment' v).2.members.disk.registry =
      listing v.members.disk.registry
  /-- A record whose import has succeeded never changes the registry again. -/
  settled : ∀ seed environment, ((Step.imports seed).run P environment w).1.status = none →
    ∀ v, Continues P (fun _ _ => True) ((Step.imports seed).run P environment w).2 v →
    ∀ environment', Untampered ((Step.imports seed).run P environment' v).2.progress.history →
    listing ((Step.imports seed).run P environment' v).2.members.disk.registry =
      listing v.members.disk.registry
  /-- Whatever is lost on the way, each key has amended what is listed at most once. -/
  descent : ∀ v, Continues P (fun _ _ => True) w v → Untampered v.progress.history →
    ∃ keys : List String, keys.Nodup ∧
      (Descent P (listing w.members.disk.registry) keys (listing v.members.disk.registry) ∨
        Descent P (listing w.members.disk.durable) keys (listing v.members.disk.registry))
  /-- A definition that was removed under a generation is not changed by the seeds of that
  generation; it stays removed until it is registered otherwise. -/
  removed : ∀ (id generation : String) (config : Message),
    (listing w.members.disk.registry).definitions[id]? = some config →
    config.get "active" = "0" → config.get "_install_identity" = generation →
    ∀ v, Continues P (fun _ step => step.Spares P id generation ∧ (step.losesPower = true →
        (listing w.members.disk.durable).definitions[id]? = some config)) w v →
    Untampered v.progress.history →
    (listing v.members.disk.registry).definitions[id]? = some config
  /-- A definition is replaced only by a seed that succeeds it: no version is lowered, and
  what belongs to an unchanged version is unchanged. -/
  succeeds : ∀ (seed : Message) environment (id : String) (config : Message),
    (listing w.members.disk.registry).definitions[id]? = some config →
    Untampered ((Step.imports seed).run P environment w).2.progress.history →
    (listing ((Step.imports seed).run P environment w).2.members.disk.registry).definitions[id]? =
        some config ∨
      id = seed.get "definition" ∧
        (listing ((Step.imports seed).run P environment w).2.members.disk.registry).definitions[id]? =
          some (registeredDefinition (recordRequest seed)) ∧
        Succeeds config (registeredDefinition (recordRequest seed))
  /-- A record whose installation is not current changes nothing. -/
  stale : ∀ (seed : Message) (environment : Environment ε),
    (∀ n, ¬ environment.Current true (recordRequest seed) n) →
    Untampered ((Step.imports seed).run P environment w).2.progress.history →
    listing ((Step.imports seed).run P environment w).2.members.disk.registry =
      listing w.members.disk.registry
  /-- The order in which the spool is listed matters to nothing. -/
  order : ∀ codec (directory directory' : Offline.Directory) authority environments main powerLoss,
    directory.files.Perm directory'.files → directory'.complete = directory.complete →
    Server.start P codec (some directory') authority environments main powerLoss w =
      Server.start P codec (some directory) authority environments main powerLoss w

/-- Offline records are applied at most once and never undo later decisions. -/
theorem seeds_applied_once {P : Platform} {w : World σ ε} (attained : Attained P w) :
    SeedHistory P w where
  starts codec spool authority environments main powerLoss :=
    start_continues P codec spool authority environments main powerLoss w fun _ _ keeps => keeps
  once seed environment changes v continues environment' clean := by
    have first := Attained.step (.imports seed) environment attained
    have here := first.continues continues
    have within := clean.record.suffix (here.step_record (.imports seed) environment')
    obtain ⟨record, _⟩ := first.durable_grows continues within
    obtain ⟨print, stored⟩ := attained.imported changes (within.suffix record)
    have kept := (first.grows continues within).operations _ _ stored
    exact (here.repeated (Step.operation_imports P seed) kept clean.record).1
  settled seed environment succeeds v continues environment' clean := by
    have first := Attained.step (.imports seed) environment attained
    have here := first.continues continues
    have within := clean.record.suffix (here.step_record (.imports seed) environment')
    obtain ⟨record, grown, _⟩ := first.durable_grows continues within
    obtain ⟨durable, stored⟩ := attained.recorded (Step.operation_imports P seed) succeeds
      (within.suffix record)
    rw [← durable] at stored
    exact (here.repeated (Step.operation_imports P seed) (grown.operations _ _ stored) clean.record).1
  descent v continues clean := by
    obtain ⟨keys, origin⟩ := attained.descent continues clean.record
    exact ⟨keys, origin.elim (·.nodup) (·.nodup), origin⟩
  removed id generation config stored inactive identity v continues clean :=
    (attained.retains (I := fun l => l.definitions[id]? = some config) continues clean.record
      (fun _ _ meets => meets.2)
      (fun _ _ _ _ _ _ _ meets operation allowed _ held =>
        meets.1.keeps operation allowed inactive identity held)
      stored fun durable => durable).2.1
  succeeds seed environment id config stored clean :=
    (attained.seeds seed environment clean.record).succeeds stored
  stale seed environment unknown clean := attained.stale unknown clean.record
  order codec directory directory' authority environments main powerLoss permuted complete :=
    Server.start_perm P codec permuted complete authority environments main powerLoss w

namespace Sample

/-- A record of the spool for the definition `cam`. -/
def seed : Message := Message.of
  [("operation_id", "1"), ("definition", "cam"), ("package", "q"), ("app", "b"),
    ("enforcer", "cm"), ("policy_version", "1"), ("text_revision", "1"), ("level", "1"),
    ("modes", "ONCE"), ("default_locale", "en"), ("message.en.title", "T"),
    ("message.en.body", "B"), ("retention_ms", "1000"), ("expected_generation", "i")]

/-- A repository is opened and the record imported twice. -/
theorem seeded : ∃ w v : World ProfileState ProfileStep,
    w = ((Step.restart ProfileState.initial true false).run platform (environment 1000)
      (World.start 1 none ProfileState.initial)).2 ∧
    v = ((Step.imports seed).run platform (environment 1000) w).2 ∧
    (listing w.members.disk.registry).definitions["cam"]? = none ∧
    (listing v.members.disk.registry).definitions["cam"]? =
      some (registeredDefinition (recordRequest seed)) ∧
    Untampered ((Step.imports seed).run platform (environment 1000) v).2.progress.history :=
  ⟨_, _, rfl, rfl, by decide +kernel⟩

end Sample

/-- The first import stores the definition, and the second one changes nothing. -/
theorem seeds_in_sample : ∃ w v : World ProfileState ProfileStep,
    v = ((Step.imports Sample.seed).run Sample.platform (Sample.environment 1000) w).2 ∧
    listing v.members.disk.registry ≠ listing w.members.disk.registry ∧
    listing ((Step.imports Sample.seed).run Sample.platform
      (Sample.environment 1000) v).2.members.disk.registry = listing v.members.disk.registry := by
  obtain ⟨w, v, opened, imported, missing, stored, clean⟩ := Sample.seeded
  have attained : Attained Sample.platform w := by
    rw [opened]
    exact .step _ _ (.start _ _ _)
  have changes : listing v.members.disk.registry ≠ listing w.members.disk.registry := by
    intro same
    rw [same, missing] at stored
    cases stored
  refine ⟨w, v, imported, changes, ?_⟩
  subst imported
  exact (seeds_applied_once attained).once Sample.seed (Sample.environment 1000) changes _ .refl _ clean

end Consent.Repository
