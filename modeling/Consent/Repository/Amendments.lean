import Consent.Repository.Execute

/-!
What a call can do to the registry (`CommonRegister`, `ImportOfflineRegistration`).

A registration, a removal and the verdict on an obsolete seed each record a new operation
key and change the definitions in one way. A definition that replaces another one succeeds
it: neither of its versions is lower, and an unchanged version means unchanged fields.
-/
namespace Consent.Repository
open Profile
open Act (Returns)

/-! ### Definitions -/

/-- A definition of the registry has its id and an admissible mode list. -/
structure ValidDefinition (id : String) (config : Message) : Prop where
  named : config.get "definition" = id
  modes : ∃ level, Registration.integer (config.get "level") 0 3 = some level ∧
    Registration.checkModes level (Registration.splitComma (config.get "modes").toList) [] = .ok ()

def ValidRegistry (definitions : Definitions) : Prop :=
  ∀ id config, definitions[id]? = some config → ValidDefinition id config

/-- A registration drops no definition. -/
structure Follows (old new : Definitions) : Prop where
  keys : ∀ id, id ∈ old → id ∈ new
  valid : ValidRegistry old → ValidRegistry new

theorem Follows.refl (definitions : Definitions) : Follows definitions definitions :=
  ⟨fun _ listed => listed, fun valid => valid⟩

theorem empty_validRegistry : ValidRegistry ∅ := by
  intro id config found
  simp at found

def policyVersion (config : Message) : Int :=
  (Registration.integer (config.get "policy_version") 1 int32Max).getD 0

def textRevision (config : Message) : Int :=
  (Registration.integer (config.get "text_revision") 1 int32Max).getD 0

/-- What a policy version stands for in one installation. -/
def meaningFields : List String := ["enforcer", "level", "modes", "retention_ms"]

/-- The later definition belongs to the same app, and neither of its versions is lower; as
long as a version is the same, so are the fields that belong to it. -/
structure Advances (old new : Message) : Prop where
  package : new.get "package" = old.get "package"
  app : new.get "app" = old.get "app"
  policy : policyVersion old ≤ policyVersion new
  text : textRevision old ≤ textRevision new
  schema : policyVersion new = policyVersion old →
    selectFields new Localization.isPolicyField = selectFields old Localization.isPolicyField
  messages : textRevision new = textRevision old →
    selectFields new isMessageField = selectFields old isMessageField

theorem Advances.refl (config : Message) : Advances config config :=
  ⟨rfl, rfl, le_refl _, le_refl _, fun _ => rfl, fun _ => rfl⟩

theorem Advances.trans {a b c : Message} (h : Advances a b) (k : Advances b c) :
    Advances a c where
  package := k.package.trans h.package
  app := k.app.trans h.app
  policy := h.policy.trans k.policy
  text := h.text.trans k.text
  schema same := by
    have first : policyVersion b = policyVersion a := le_antisymm (same ▸ k.policy) h.policy
    exact (k.schema (same.trans first.symm)).trans (h.schema first)
  messages same := by
    have first : textRevision b = textRevision a := le_antisymm (same ▸ k.text) h.text
    exact (k.messages (same.trans first.symm)).trans (h.messages first)

/-- A registered definition succeeds the stored one. The meaning of a policy version is
compared only while that one is active and of the same installation. -/
structure Succeeds (old new : Message) : Prop extends Advances old new where
  meaning : policyVersion new = policyVersion old → old.get "active" = "1" →
    new.get "_install_identity" = old.get "_install_identity" →
    ∀ name ∈ meaningFields, new.get name = old.get name

/-- The flag that an uninstall clears belongs to no version. -/
theorem Advances.insert_active (config : Message) (value : String) :
    Advances config (config.insert "active" value) := by
  have same : ∀ key, key ≠ "active" → Message.get (config.insert "active" value) key =
      config.get key := fun key other => Message.get_insert_of_ne config value (Ne.symm other)
  have kept : ∀ keep : String → Bool, keep "active" = false →
      selectFields (config.insert "active" value) keep = selectFields config keep := by
    intro keep flag
    refine Std.ExtTreeMap.ext_getElem? fun key => ?_
    rw [selectFields, selectFields, Std.ExtTreeMap.getElem?_filter',
      Std.ExtTreeMap.getElem?_filter', Std.ExtTreeMap.getElem?_insert]
    by_cases active : key = "active"
    · subst active
      rcases config["active"]? with _ | stored <;> simp [flag]
    · simp [Ne.symm active]
  refine ⟨same _ (by decide), same _ (by decide), ?_, ?_, fun _ => kept _ (by decide),
    fun _ => kept _ (by decide)⟩
  · rw [policyVersion, policyVersion, same _ (by decide)]
  · rw [textRevision, textRevision, same _ (by decide)]

/-! ### Registries -/

/-- Every definition is still there, and has only advanced. -/
def AllAdvance (old new : Definitions) : Prop :=
  ∀ (id : String) (config : Message), old[id]? = some config → ∃ config', new[id]? = some config' ∧ Advances config config'

theorem AllAdvance.refl (definitions : Definitions) : AllAdvance definitions definitions :=
  fun _ config stored => ⟨config, stored, .refl config⟩

theorem AllAdvance.trans {a b c : Definitions} (h : AllAdvance a b) (k : AllAdvance b c) :
    AllAdvance a c := by
  intro id config stored
  obtain ⟨config', middle, first⟩ := h id config stored
  obtain ⟨config'', last, second⟩ := k id config' middle
  exact ⟨config'', last, first.trans second⟩

/-- The definition that a registration stores. -/
def registeredDefinition (request : Message) : Message :=
  (selectFields request fun key =>
    Registration.isDefinitionField key || key == "_install_identity").insert "active" "1"

/-- The kinds of operations that the registry records. -/
inductive Revision where
  | registered | removed | obsolete
  deriving DecidableEq, Repr

/-- What an operation does to the definitions. -/
inductive Changes (request : Message) (old : Definitions) : Revision → Definitions → Prop where
  | registered
      (valid : ValidDefinition ((registeredDefinition request).get "definition")
        (registeredDefinition request))
      (succeeds : ∀ config, old[(registeredDefinition request).get "definition"]? = some config →
        Succeeds config (registeredDefinition request)) :
      Changes request old .registered
        (old.insert ((registeredDefinition request).get "definition") (registeredDefinition request))
  | removed
      (current : currentGeneration old (request.get "package") (request.get "expected_generation")) :
      Changes request old .removed (deactivatePackage old (request.get "package"))
  | obsolete : Changes request old .obsolete old

/-- What the registry keeps of the payload of an operation. -/
def fingerprint (P : Platform) (request : Message) : String :=
  P.hash (pack (request.eraseAll ["id", "protocol_request_id"]))

/-- The mark of a recorded operation. -/
def Revision.mark : Revision → String
  | .obsolete => obsoleteMark
  | _ => ""

/-- The registry of a repository, amended by a new operation. -/
structure Amends (P : Platform) (kind : Revision) (key : String) (request : Message)
    (m : Members) (content : Registry) : Prop where
  new : m.operations[key]? = none
  operations : content.operations = m.operations.insert key (kind.mark ++ fingerprint P request)
  revision : content.revision = m.registryRevision + 1
  changes : Changes request m.definitions kind content.definitions

variable {request config : Message} {definitions : Definitions} {u : Unit} {m : Members}

theorem ValidDefinition.insert_active {id : String} (h : ValidDefinition id config) (value : String)
    : ValidDefinition id (config.insert "active" value) := by
  have same : ∀ key, key ≠ "active" → Message.get (config.insert "active" value) key =
      config.get key := fun key other => Message.get_insert_of_ne config value (Ne.symm other)
  refine ⟨by rw [same _ (by decide)]; exact h.named, ?_⟩
  rw [same _ (by decide), same _ (by decide)]
  exact h.modes

theorem getElem?_deactivatePackage (definitions : Definitions) (package id : String) :
    (deactivatePackage definitions package)[id]? = definitions[id]?.map fun config =>
      if config.get "package" = package then config.insert "active" "0" else config := by
  rw [deactivatePackage, Std.ExtTreeMap.getElem?_map]

theorem deactivatePackage_follows (definitions : Definitions) (package : String) :
    Follows definitions (deactivatePackage definitions package) := by
  refine ⟨fun id listed => Std.ExtTreeMap.mem_map.mpr listed, fun valid id config found => ?_⟩
  rw [getElem?_deactivatePackage] at found
  obtain ⟨before, old, rfl⟩ := Option.map_eq_some_iff.mp found
  split
  · exact (valid id before old).insert_active _
  · exact valid id before old

theorem deactivatePackage_allAdvance (definitions : Definitions) (package : String) :
    AllAdvance definitions (deactivatePackage definitions package) := by
  intro id config stored
  rw [getElem?_deactivatePackage, stored]
  refine ⟨_, rfl, ?_⟩
  dsimp only
  split
  · exact .insert_active config "0"
  · exact .refl config

theorem insert_follows {id : String} (known : ValidDefinition id config) :
    Follows definitions (definitions.insert id config) := by
  refine ⟨fun other listed => Std.ExtTreeMap.mem_insert.mpr (Or.inr listed),
    fun valid other found stored => ?_⟩
  rw [Std.ExtTreeMap.getElem?_insert] at stored
  split at stored
  · rename_i same
    rw [← Std.LawfulEqCmp.eq_of_compare same, ← Option.some.inj stored]
    exact known
  · exact valid other found stored

theorem insert_allAdvance {id : String}
    (succeeds : ∀ old, definitions[id]? = some old → Advances old config) :
    AllAdvance definitions (definitions.insert id config) := by
  intro other old stored
  rw [Std.ExtTreeMap.getElem?_insert]
  by_cases same : id = other
  · subst same
    exact ⟨config, by simp, succeeds old stored⟩
  · exact ⟨old, by simp [same, stored], .refl old⟩

theorem Changes.follows {old new : Definitions} {kind : Revision} (h : Changes request old kind new)
    : Follows old new := by
  cases h with
  | registered valid succeeds => exact insert_follows valid
  | removed current => exact deactivatePackage_follows _ _
  | obsolete => exact .refl old

theorem Changes.allAdvance {old new : Definitions} {kind : Revision}
    (h : Changes request old kind new) : AllAdvance old new := by
  cases h with
  | registered valid succeeds =>
    exact insert_allAdvance fun config stored => (succeeds config stored).toAdvances
  | removed current => exact deactivatePackage_allAdvance _ _
  | obsolete => exact .refl old

theorem Changes.of_registered {old new : Definitions} (h : Changes request old .registered new) :
    (∀ config, old[(registeredDefinition request).get "definition"]? = some config →
      Succeeds config (registeredDefinition request)) ∧
    new = old.insert ((registeredDefinition request).get "definition") (registeredDefinition request) := by
  cases h with
  | registered valid succeeds => exact ⟨succeeds, rfl⟩

theorem Changes.of_removed {old new : Definitions} (h : Changes request old .removed new) :
    currentGeneration old (request.get "package") (request.get "expected_generation") ∧
      new = deactivatePackage old (request.get "package") := by
  cases h with
  | removed current => exact ⟨current, rfl⟩

theorem Changes.of_obsolete {old new : Definitions} (h : Changes request old .obsolete new) :
    new = old := by
  cases h with
  | obsolete => rfl

/-! ### The operations -/

variable {σ ε : Type} [Host σ ε] {c : Context ε} {lo hi : Progress σ ε}

theorem validateDefinition_returns (h : Returns c lo (validateDefinition config) u hi) :
    ValidDefinition (config.get "definition") config := by
  obtain ⟨_, h⟩ := h.guard
  have accepted := checked_returns h
  refine ⟨rfl, ?_⟩
  unfold Registration.validateDefinition at accepted
  split at accepted
  · cases accepted
  split at accepted
  · cases accepted
  split at accepted
  · cases accepted
  · rename_i level parsed
    split at accepted
    · cases accepted
    · obtain ⟨_, modes, _⟩ := Except.of_bind_ok accepted
      exact ⟨level, parsed, modes⟩

/-- `ValidateDefinition` accepts the definition. -/
def Acceptable (config : Message) : Prop :=
  config.get "_install_identity" ≠ "" ∧ Registration.validateDefinition config = .ok ()

theorem validateDefinition_acceptable (h : Returns c lo (validateDefinition config) u hi) :
    Acceptable config := by
  obtain ⟨installed, h⟩ := h.guard
  exact ⟨installed, checked_returns h⟩

/-- What `ReadRegistry` accepts is valid. -/
theorem checkRegistry_returns {content : Registry} (h : Returns c lo (checkRegistry content) u hi) :
    ValidRegistry content.definitions := by
  obtain ⟨loop, _⟩ := h.skip
  have each := loop.foldlM (fun (done : List (String × Message)) _ _ =>
      ∀ item ∈ done, ValidDefinition item.1 item.2) (by simp)
    (fun done item _ _ _ _ _ _ _ inv turn other member => by
      obtain ⟨accepted, turn⟩ := turn.skip
      have named : item.1 = item.2.get "definition" := turn.of_require
      rcases List.mem_append.mp member with earlier | last
      · exact inv other earlier
      · rw [List.mem_singleton.mp last, named]
        exact validateDefinition_returns accepted)
    (fun _ _ _ _ _ inv => inv)
  intro id config found
  exact each (id, config) (Std.ExtTreeMap.mem_toList_iff_getElem?_eq_some.mpr found)

theorem integer_eq {value : String} {minimum maximum number : Int}
    (h : integer value minimum maximum = .ok number) :
    Registration.integer value minimum maximum = some number := by
  unfold integer at h
  split at h
  · cases h
  · split at h
    · rename_i found
      cases h
      exact found
    · cases h

theorem checkSuccession_returns {old new : Message}
    (h : Returns c lo (checkSuccession old new (new.get "package")) u hi) : Succeeds old new := by
  obtain ⟨⟨package, app⟩, h⟩ := h.guard
  obtain ⟨oldPolicy, read, h⟩ := h.bind
  have first : policyVersion old = oldPolicy := by rw [policyVersion, integer_eq read.of_lift]; rfl
  obtain ⟨newPolicy, read, h⟩ := h.bind
  have second : policyVersion new = newPolicy := by rw [policyVersion, integer_eq read.of_lift]; rfl
  obtain ⟨policy, h⟩ := h.guard
  obtain ⟨oldText, read, h⟩ := h.bind
  have third : textRevision old = oldText := by rw [textRevision, integer_eq read.of_lift]; rfl
  obtain ⟨newText, read, h⟩ := h.bind
  have fourth : textRevision new = newText := by rw [textRevision, integer_eq read.of_lift]; rfl
  obtain ⟨text, h⟩ := h.guard
  obtain ⟨schema, h⟩ := h.guard
  obtain ⟨messages, h⟩ := h.guard
  rw [← first, ← second] at policy schema
  rw [← third, ← fourth] at text messages
  refine ⟨⟨package.symm, app.symm, policy, text, fun same => ?_, fun same => ?_⟩, ?_⟩
  · rcases schema with unchanged | raised
    · exact unchanged.symm
    · omega
  · rcases messages with unchanged | raised
    · exact unchanged.symm
    · omega
  · intro same active identity
    rcases h.ite with ⟨_, h⟩ | ⟨other, _⟩
    · obtain ⟨meaning, _⟩ := h.guard
      exact fun name listed => (meaning name listed).symm
    · exact absurd ⟨by rw [← first, ← second]; exact same, active, identity.symm⟩ other

theorem removePackage_returns (h : Returns c lo (removePackage m request) definitions hi) :
    Changes request m.definitions .removed definitions := by
  obtain ⟨_, h⟩ := h.guard
  obtain ⟨current, h⟩ := h.guard
  obtain rfl := h.of_pure
  exact .removed current

theorem get_registeredDefinition (request : Message) {key : String}
    (field : Registration.isDefinitionField key = true) (other : key ≠ "active") :
    (registeredDefinition request).get key = request.get key := by
  rw [registeredDefinition, Message.get_insert_of_ne _ _ (Ne.symm other), Message.get_eq,
    Message.get_eq, selectFields, Std.ExtTreeMap.getElem?_filter']
  rcases request[key]? with _ | value <;> simp [field, Option.filter]

theorem addDefinition_returns (h : Returns c lo (addDefinition m request) definitions hi) :
    Changes request m.definitions .registered definitions := by
  obtain ⟨accepted, h⟩ := h.skip
  obtain ⟨_, h⟩ := h.skip
  have admitted := validateDefinition_returns accepted
  have package : (registeredDefinition request).get "package" = request.get "package" :=
    get_registeredDefinition request (by decide) (by decide)
  dsimp only at h
  split at h
  · rename_i old stored
    obtain ⟨succession, h⟩ := h.skip
    obtain rfl := h.of_pure
    refine .registered admitted fun config found => ?_
    obtain rfl : old = config := Option.some.inj (stored.symm.trans found)
    exact checkSuccession_returns (package ▸ succession)
  · rename_i missing
    obtain rfl := h.of_pure
    refine .registered admitted fun config found => ?_
    exact absurd (missing.symm.trans found) (by simp)

theorem addDefinition_acceptable (h : Returns c lo (addDefinition m request) definitions hi) :
    Acceptable (registeredDefinition request) := by
  obtain ⟨accepted, _⟩ := h.skip
  exact validateDefinition_acceptable accepted

/-! ### The installation authority -/

/-- The identity that the offline authority is asked about. -/
def offlineIdentity (config : Message) : String :=
  config.getD "_install_identity" (config.get "expected_generation")

/-- The answer of the authority to question number `n`: the installation is current. -/
def Environment.Current (e : Environment ε) (offline : Bool) (config : Message) (n : Nat) : Prop :=
  match offline, e.offlineValidator with
  | true, some validate =>
    validate n (config.get "package") (config.get "app") (offlineIdentity config) = 0
  | true, none =>
    e.validator n (config.get "package") (config.get "app") (offlineIdentity config) = true
  | false, _ =>
    e.validator n (config.get "package") (config.get "app") (config.get "_install_identity") = true

theorem askOffline_returns {validate : Nat → String → String → String → Int}
    {package app identity : String} {code : Int}
    (h : Returns c lo (askOffline validate package app identity) code hi) :
    ∃ n, (frame c lo hi).Asks n ∧ validate n package app identity = code := by
  obtain ⟨s, t, below, run, above⟩ := h
  cases run
  exact ⟨s.validated, ⟨below.answers, above.answers⟩, rfl⟩

theorem offlineInstallationStatus_returns {status : Option Status}
    (h : Returns c lo (offlineInstallationStatus config) status hi) :
    ∃ n, (frame c lo hi).Asks n ∧ status = match c.environment.offlineValidator with
      | some validate => authorityStatus (validate n (config.get "package") (config.get "app")
          (offlineIdentity config))
      | none => if c.environment.validator n (config.get "package") (config.get "app")
          (offlineIdentity config) then none else some .estale := by
  have h := Act.Returns.read h
  rcases known : c.environment.offlineValidator with _ | validate
  · rw [known] at h
    obtain ⟨answer, asked, h⟩ := h.bind
    obtain ⟨n, asks, rfl⟩ := validator_returns asked
    exact ⟨n, asks, h.of_pure.symm⟩
  · rw [known] at h
    obtain ⟨code, asked, h⟩ := h.bind
    obtain ⟨n, asks, rfl⟩ := askOffline_returns asked
    obtain ⟨_, h⟩ := h.guard
    exact ⟨n, asks, h.of_pure.symm⟩

theorem authorityStatus_eq_none {code : Int} (h : authorityStatus code = none) : code = 0 := by
  unfold authorityStatus at h
  split at h
  · assumption
  · split at h <;> cases h

/-- A status without an error is the verdict that the installation is current. -/
theorem offlineInstallationStatus_current
    (h : Returns c lo (offlineInstallationStatus config) none hi) :
    ∃ n, c.environment.Current true config n := by
  obtain ⟨n, _, verdict⟩ := offlineInstallationStatus_returns h
  refine ⟨n, ?_⟩
  unfold Environment.Current
  rcases known : c.environment.offlineValidator with _ | validate
  · rw [known] at verdict
    dsimp only at verdict ⊢
    split at verdict
    · assumption
    · cases verdict
  · rw [known] at verdict
    exact authorityStatus_eq_none verdict.symm

theorem checkInstalled_returns {offline : Bool}
    (h : Returns c lo (checkInstalled config (config.get "package") offline) u hi) :
    ∃ n, c.environment.Current offline config n := by
  rcases h.ite with ⟨rfl, h⟩ | ⟨online, h⟩
  · obtain ⟨status, asked, h⟩ := h.bind
    cases status with
    | none => exact offlineInstallationStatus_current asked
    | some status => exact absurd h not_returns_fail
  · obtain rfl : offline = false := by simpa using online
    obtain ⟨answer, asked, h⟩ := h.bind
    obtain ⟨n, _, rfl⟩ := validator_returns asked
    exact ⟨n, h.of_require⟩

theorem addDefinition_current (h : Returns c lo (addDefinition m request) definitions hi) :
    ∃ n, c.environment.Current m.offlineImport (registeredDefinition request) n := by
  obtain ⟨_, h⟩ := h.skip
  obtain ⟨installed, _⟩ := h.skip
  have package : (registeredDefinition request).get "package" = request.get "package" :=
    get_registeredDefinition request (by decide) (by decide)
  exact checkInstalled_returns (package ▸ installed)

/-! ### Seeds -/

/-- The request that an offline record stands for. -/
def recordRequest (seed : Message) : Message :=
  (seed.insert "method" "register").insert "_install_identity" (seed.get "expected_generation")

/-- The stored definition neither was removed under the seed's installation nor is newer. -/
def Seedable (definitions : Definitions) (request : Message) : Prop :=
  ∀ current, definitions[request.get "definition"]? = some current →
    current.get "_install_identity" = request.get "expected_generation" →
    current.get "active" ≠ "0" ∧
      ¬ (policyVersion request ≤ policyVersion current ∧
        textRevision request ≤ textRevision current ∧
        (policyVersion request < policyVersion current ∨
          textRevision request < textRevision current))

theorem obsoleteOfflineRegistration_returns
    (h : Returns c lo (obsoleteOfflineRegistration m request) false hi) :
    Seedable m.definitions request := by
  intro current stored identity
  unfold obsoleteOfflineRegistration at h
  rw [stored] at h
  obtain ⟨_, h⟩ := h.guard
  rcases h.ite with ⟨other, _⟩ | ⟨_, h⟩
  · exact absurd identity other
  obtain ⟨currentPolicy, read, h⟩ := h.bind
  have first : policyVersion current = currentPolicy := by
    rw [policyVersion, integer_eq read.of_lift]; rfl
  obtain ⟨incomingPolicy, read, h⟩ := h.bind
  have second : policyVersion request = incomingPolicy := by
    rw [policyVersion, integer_eq read.of_lift]; rfl
  obtain ⟨currentText, read, h⟩ := h.bind
  have third : textRevision current = currentText := by
    rw [textRevision, integer_eq read.of_lift]; rfl
  obtain ⟨incomingText, read, h⟩ := h.bind
  have fourth : textRevision request = incomingText := by
    rw [textRevision, integer_eq read.of_lift]; rfl
  obtain ⟨_, h⟩ := h.guard
  obtain ⟨_, h⟩ := h.guard
  obtain ⟨_, h⟩ := h.guard
  rcases h.ite with ⟨_, h⟩ | ⟨active, h⟩
  · exact absurd h.of_pure (by simp)
  · refine ⟨active, ?_⟩
    rw [first, second, third, fourth]
    exact of_decide_eq_false h.of_pure

/-- The fields that an offline record may have. -/
theorem checkRecord_returns {seed request : Message}
    (h : Returns c lo (checkRecord seed) request hi) :
    request = recordRequest seed ∧ (recordRequest seed).eraseAll ["id", "protocol_request_id"] =
      recordRequest seed := by
  obtain ⟨_, h⟩ := h.guard
  obtain ⟨fields, h⟩ := h.guard
  obtain ⟨_, h⟩ := h.guard
  obtain ⟨_, h⟩ := h.guard
  obtain ⟨_, h⟩ := h.guard
  obtain ⟨_, h⟩ := h.skip
  refine ⟨h.of_pure.symm, ?_⟩
  have absent : ∀ key, Registration.isDefinitionField key = false →
      ["operation_id", "expected_generation", "method"].contains key = false →
      seed[key]? = none := by
    intro key field other
    rcases stored : seed[key]? with _ | value
    · rfl
    · have member := Std.ExtTreeMap.mem_toList_iff_getElem?_eq_some.mpr stored
      have accepted := (Bool.and_eq_true_iff.mp (List.all_eq_true.mp fields _ member)).2
      rw [field, other] at accepted
      cases accepted
  refine Std.ExtTreeMap.ext_getElem? fun key => ?_
  simp only [Message.eraseAll, List.foldl_cons, List.foldl_nil, recordRequest,
    Std.ExtTreeMap.getElem?_erase, Std.ExtTreeMap.getElem?_insert]
  by_cases first : key = "id"
  · subst first
    simp [absent "id" (by decide) (by decide)]
  by_cases second : key = "protocol_request_id"
  · subst second
    simp [absent "protocol_request_id" (by decide) (by decide)]
  simp [Ne.symm first, Ne.symm second]

end Consent.Repository
