import Consent.Guarantees.Registrations
import Consent.Repository.Serving

/-!
Removal of a package.

The guard against a late uninstall compares the expected generation with every active
definition of the package, also with those that a former installation left behind. While
there is such a definition, no generation passes the guard.
-/
namespace Consent.Repository
open Profile

variable {σ ε : Type} [Host σ ε]

/-- A removal that is made has found the expected generation everywhere. -/
theorem dispatch_current {c : Context ε} {w v : World σ ε} {peer : Peer} {request result : Message}
    (removal : Removal peer request) (run : (dispatch peer request).run c w = (.ok result, v)) :
    currentGeneration w.members.definitions (request.get "package")
      (request.get "expected_generation") := by
  rw [dispatch_eq removal, run_members_bind] at run
  obtain ⟨_, u, asked, run⟩ := Act.of_run_bind run
  obtain ⟨_, same⟩ := of_run_query asked
  obtain ⟨_, u, asked, run⟩ := Act.of_run_bind run
  replace same := (of_run_query asked).2.trans same
  obtain ⟨_, u, asked, run⟩ := Act.of_run_bind run
  replace same := (of_run_query asked).2.trans same
  obtain ⟨key, u, asked, run⟩ := Act.of_run_bind run
  replace same := (of_run_query asked).2.trans same
  obtain ⟨_, u, asked, run⟩ := Act.of_run_bind run
  replace same := (of_run_query asked).2.trans same
  obtain ⟨print, u, asked, run⟩ := Act.of_run_bind run
  replace same := (of_run_query asked).2.trans same
  rw [run_members_bind] at run
  obtain ⟨_, t, checked, run⟩ := Act.of_run_bind run
  rw [Act.when, if_pos rfl] at checked
  obtain ⟨_, returned⟩ := (of_run_query checked).1.guard
  obtain ⟨_, _, returned⟩ := returned.bind
  obtain ⟨_, returned⟩ := returned.guard
  rw [← same]
  exact returned.of_require

/-- While nothing fails, the installer can remove a package if and only if its active
definitions are all of the current generation. -/
theorem unregister_succeeds_iff_current {P : Platform} {w : World σ ε} (attained : Attained P w)
    (ordered : InOrder w.members) (online : w.members.offlineImport = false)
    {environment : Environment ε} (smooth : environment.Smooth) {peer : Peer} {request : Message}
    (removal : Removal peer request) (accepts : Accepts environment request)
    (new : (listing w.members.disk.registry).operations[operationKey P peer request]? = none)
    (fits : RemovalFits P w.members (operationKey P peer request) request) :
    ((Step.execute peer request).run P environment w).1.status = none ∧
        (∀ (id : String) config, (listing
          ((Step.execute peer request).run P environment w).2.members.disk.registry).definitions[id]? =
            some config → config.get "package" = request.get "package" →
          config.get "active" = "0") ↔
      currentGeneration (listing w.members.disk.registry).definitions (request.get "package")
        (request.get "expected_generation") := by
  obtain ⟨runs, _, rest⟩ := attained.runs
  have matched : Matched w.members := Option.map_eq_some_iff.mp ordered.registry
  have stamped : Stamped w.members := runs.consistent.stamped
  have held : listing w.members.disk.registry = w.members.listing := stamped.listing_eq matched
  obtain ⟨ids, _, commits⟩ := runs.chronicled.run
  have countable := Commits.countable commits
  have keyed := (Commits.sound commits).keyed
  rw [held] at new ⊢
  constructor
  · rintro ⟨succeeds, _⟩
    rcases ran : (Repository.execute peer request).run ⟨P, environment⟩
      ((Step.execute peer request).enter w) with ⟨outcome, v⟩
    have whole : (Step.execute peer request).run P environment w = (replyOr outcome, v) := by
      rw [Step.run, Step.act, ran]
    rw [whole] at succeeds
    cases outcome with
    | error failure => cases succeeds
    | ok reply =>
      obtain ⟨start, u, prepared, run⟩ := Act.of_run_bind (execute_replies ran succeeds)
      obtain ⟨_, _, returned, prepares⟩ := (prepare_sure smooth ordered countable keyed
        removal.known).returns (c := ⟨P, environment⟩) (w := (Step.execute peer request).enter w) rfl
      rw [prepared] at returned
      cases returned
      obtain ⟨_, _, dispatched, _⟩ := Act.of_run_bind run
      have current := dispatch_current removal dispatched
      rw [prepares.definitions] at current
      exact current
  · intro current
    obtain ⟨fields, v, run, cleared⟩ := (executeChecked_sure (c := ⟨P, environment⟩) smooth ordered
      removal accepts current new fits countable keyed online).returns
      (w := (Step.execute peer request).enter w) rfl
    have whole : (Step.execute peer request).run P environment w = (⟨none, fields⟩, v) := by
      rw [Step.run, Step.act, execute, Act.run_tryCatch, Act.run_bind, run]
      rfl
    rw [whole]
    refine ⟨rfl, fun id config stored package => ?_⟩
    rw [cleared, getElem?_deactivatePackage] at stored
    obtain ⟨old, _, rfl⟩ := Option.map_eq_some_iff.mp stored
    split
    · simp
    · rename_i other
      rw [if_neg other] at package
      exact absurd package other

theorem currentGeneration_identity {definitions : Definitions} {package expected id : String}
    {config : Message} (h : currentGeneration definitions package expected)
    (stored : definitions[id]? = some config) (owned : config.get "package" = package)
    (active : config.get "active" = "1") : config.get "_install_identity" = expected := by
  have listed := Std.ExtTreeMap.mem_toList_iff_getElem?_eq_some.mpr stored
  have item := List.all_eq_true.mp h _ listed
  simpa [owned, active] using item

namespace Sample

/-- The package is installed with this generation. -/
def installation (generation : String) : Environment ProfileStep :=
  { environment 1000 with
    validator := fun _ _ _ identity => identity == generation
    packageValidator := fun _ _ expected => expected == generation }

theorem installation_smooth (generation : String) : (installation generation).Smooth :=
  ⟨fun _ => rfl, fun _ => rfl, fun _ => rfl, fun _ => rfl⟩

def camera : Message := definition "1" "cam" "1" "1" "1"

def microphone : Message := definition "2" "mic" "1" "1" "1"

/-- The definition `cam` of the second installation. -/
def reinstalled : Message := (definition "3" "cam" "1" "1" "1").insert "_install_identity" "j"

def uninstall (generation : String) : Message :=
  (removal "4").insert "expected_generation" generation

theorem uninstall_removal (generation : String) (named : generation ≠ "") :
    Removal installer (uninstall generation) := by
  have other : ∀ key, key ≠ "expected_generation" →
      (uninstall generation).get key = (removal "4").get key :=
    fun key other => Message.get_insert_of_ne _ _ (Ne.symm other)
  refine ⟨?_, by decide, by decide, by simp [member, installer, peer], ?_, ?_⟩
  · rw [other _ (by decide)]
    decide
  · rw [other _ (by decide), other _ (by decide)]
    decide
  · rw [uninstall, Message.get_insert_self]
    exact named

/-- The uninstall of this generation is possible as far as the storage is concerned. -/
def Possible (w : World ProfileState ProfileStep) (generation : String) : Prop :=
  InOrder w.members ∧ w.members.offlineImport = false ∧
    (listing w.members.disk.registry).operations[operationKey platform installer
      (uninstall generation)]? = none ∧
    RemovalFits platform w.members (operationKey platform installer (uninstall generation))
      (uninstall generation)

instance (w : World ProfileState ProfileStep) (generation : String) :
    Decidable (Possible w generation) := inferInstanceAs (Decidable (_ ∧ _))

/-- The definition is active in the registry, for this generation of the package `q`. -/
def holds (w : World ProfileState ProfileStep) (id generation : String) : Bool :=
  (listing w.members.disk.registry).definitions[id]?.any fun config =>
    config.get "package" == "q" && config.get "active" == "1" &&
      config.get "_install_identity" == generation

/-- The package `q` is installed with one definition. -/
theorem installed : ∃ w v : World ProfileState ProfileStep,
    w = ((Step.restart ProfileState.initial false false).run platform (installation "i")
      (World.start 1 none ProfileState.initial)).2 ∧
    v = ((installs camera).run platform (installation "i") w).2 ∧
    Possible v "i" ∧ currentGeneration (listing v.members.disk.registry).definitions "q" "i" :=
  ⟨_, _, rfl, rfl, by decide +kernel⟩

/-- The package `q` is installed with one definition, and then a second time with another
one. -/
theorem installations : ∃ w v u : World ProfileState ProfileStep,
    w = ((Step.restart ProfileState.initial false false).run platform (installation "i")
      (World.start 1 none ProfileState.initial)).2 ∧
    v = ((installs microphone).run platform (installation "i") w).2 ∧
    u = ((installs reinstalled).run platform (installation "j") v).2 ∧
    Possible u "j" ∧ holds u "cam" "j" = true ∧ holds u "mic" "i" = true ∧
    ((installs (uninstall "j")).run platform (installation "j") u).1.status = some .estale ∧
    holds ((installs (uninstall "j")).run platform (installation "j") u).2 "mic" "i" = true :=
  ⟨_, _, _, rfl, rfl, rfl, by decide +kernel⟩

theorem uninstall_accepts (generation : String) :
    Accepts (installation generation) (uninstall generation) := by
  intro n
  simp [installation, uninstall]

end Sample

/-- Without a reinstallation the package can be removed. -/
theorem unregister_in_sample :
    ∃ w : World ProfileState ProfileStep, Attained Sample.platform w ∧
      ((Sample.installs (Sample.uninstall "i")).run Sample.platform (Sample.installation "i") w).1.status =
        none := by
  obtain ⟨w, v, opened, first, possible, current⟩ := Sample.installed
  have attained : Attained Sample.platform v := by
    rw [first, opened]
    exact .step _ _ (.step _ _ (.start _ _ _))
  obtain ⟨ordered, online, new, fits⟩ := possible
  refine ⟨v, attained, ((unregister_succeeds_iff_current attained ordered online
    (Sample.installation_smooth "i") (Sample.uninstall_removal "i" (by decide))
    (Sample.uninstall_accepts "i") new fits).mpr ?_).1⟩
  have package : (Sample.uninstall "i").get "package" = "q" := by decide
  have generation : (Sample.uninstall "i").get "expected_generation" = "i" := by decide
  rw [package, generation]
  exact current

/-- After a reinstallation that does not register every definition again, the removal under
the current generation is refused, the definition left behind stays active, and no other
generation would pass the guard. -/
theorem unregister_refused_after_reinstallation :
    ∃ (w : World ProfileState ProfileStep) (peer : Peer) (request : Message)
      (environment : Environment ProfileStep),
      Attained Sample.platform w ∧ InOrder w.members ∧ w.members.offlineImport = false ∧
      environment.Smooth ∧ Removal peer request ∧ Accepts environment request ∧
      (listing w.members.disk.registry).operations[operationKey Sample.platform peer request]? = none ∧
      RemovalFits Sample.platform w.members (operationKey Sample.platform peer request) request ∧
      ((Step.execute peer request).run Sample.platform environment w).1.status = some .estale ∧
      (∃ config, (listing ((Step.execute peer request).run Sample.platform environment
          w).2.members.disk.registry).definitions["mic"]? = some config ∧
        config.get "package" = request.get "package" ∧ config.get "active" = "1") ∧
      ∀ generation, ¬ currentGeneration (listing w.members.disk.registry).definitions
        (request.get "package") generation := by
  obtain ⟨w, v, u, opened, first, second, ⟨ordered, online, new, fits⟩, camera, microphone,
    refused, still⟩ := Sample.installations
  have attained : Attained Sample.platform u := by
    rw [second, first, opened]
    exact .step _ _ (.step _ _ (.step _ _ (.start _ _ _)))
  have package : (Sample.uninstall "j").get "package" = "q" := by decide
  have found : ∀ {w : World ProfileState ProfileStep} {id generation : String},
      Sample.holds w id generation = true → ∃ config,
        (listing w.members.disk.registry).definitions[id]? = some config ∧
        config.get "package" = "q" ∧ config.get "active" = "1" ∧
        config.get "_install_identity" = generation := by
    intro w id generation held
    obtain ⟨config, stored, fields⟩ := (Option.any_eq_true _ _).mp held
    simp only [Bool.and_eq_true, beq_iff_eq] at fields
    exact ⟨config, stored, fields.1.1, fields.1.2, fields.2⟩
  refine ⟨u, Sample.installer, Sample.uninstall "j", Sample.installation "j", attained, ordered,
    online, Sample.installation_smooth "j", Sample.uninstall_removal "j" (by decide),
    Sample.uninstall_accepts "j", new, fits, refused, ?_, fun generation current => ?_⟩
  · obtain ⟨config, stored, owned, active, _⟩ := found still
    exact ⟨config, stored, owned.trans package.symm, active⟩
  · rw [package] at current
    obtain ⟨config, stored, owned, active, former⟩ := found microphone
    obtain ⟨config', stored', owned', active', latter⟩ := found camera
    have one := currentGeneration_identity current stored owned active
    have other := currentGeneration_identity current stored' owned' active'
    rw [former] at one
    rw [latter, ← one] at other
    exact absurd other (by decide)

end Consent.Repository
