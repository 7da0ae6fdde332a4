import Consent.Repository.Storage

/-!
The entry points of the repository (`Execute`, `ImportOfflineRegistration`,
`Maintain`, `Tick`, `FenceProfiles`, `Shutdown`) and its runs: sequences of calls,
each with its own answers from outside, and restarts of the process at any point.
The database executor serializes the calls.
-/
namespace Consent.Repository
open Profile

variable {σ ε : Type} [Host σ ε]

/-! ### Registration -/

/-- The fields of a definition that have to change with the text revision. -/
def isMessageField (key : String) : Bool :=
  key == "default_locale" || starts key "message." || starts key "locale_fallback."

def selectFields (message : Message) (keep : String → Bool) : Message :=
  message.filter fun key _ => keep key

/-- Every active definition of the package still has the expected generation. -/
def currentGeneration (definitions : Definitions) (package expected : String) : Prop :=
  (definitions.toList.all fun item =>
    !(item.2.get "package" == package && item.2.get "active" == "1") ||
      item.2.get "_install_identity" == expected) = true

instance (definitions : Definitions) (package expected : String) :
    Decidable (currentGeneration definitions package expected) :=
  inferInstanceAs (Decidable (_ = true))

def deactivatePackage (definitions : Definitions) (package : String) : Definitions :=
  definitions.map fun _ config =>
    if config.get "package" = package then config.insert "active" "0" else config

/-- A definition replaces an older one of the same app and never rolls back. -/
def checkSuccession (old new : Message) (package : String) : Query σ ε Unit := do
  require (old.get "package" = package ∧ old.get "app" = new.get "app")
    .eacces "definition namespace belongs to another app"
  let oldPolicy ← integer (old.get "policy_version") 1 int32Max
  let newPolicy ← integer (new.get "policy_version") 1 int32Max
  require (oldPolicy ≤ newPolicy) .conflict "policy rollback rejected"
  let oldText ← integer (old.get "text_revision") 1 int32Max
  let newText ← integer (new.get "text_revision") 1 int32Max
  require (oldText ≤ newText) .conflict "text revision rollback rejected"
  require (selectFields old Localization.isPolicyField =
      selectFields new Localization.isPolicyField ∨ oldPolicy < newPolicy)
    .conflict "template parameter schema changed without policy version increase"
  require (selectFields old isMessageField = selectFields new isMessageField ∨ oldText < newText)
    .conflict "localized messages or fallback changed without text revision increase"
  if newPolicy = oldPolicy ∧ old.get "active" = "1" ∧
      old.get "_install_identity" = new.get "_install_identity" then
    require (∀ name ∈ ["enforcer", "level", "modes", "retention_ms"], old.get name = new.get name)
      .conflict "policy meaning changed without version increase"
    require (newText = oldText → old = new) .conflict "same revision differs"
  else pure ()

/-- The registry after `unregister`. -/
def removePackage (m : Members) (request : Message) : Query σ ε Definitions := do
  require (request.get "expected_generation" ≠ "")
    .einval "expected installation generation required"
  require (currentGeneration m.definitions (request.get "package")
      (request.get "expected_generation"))
    .estale "stale package uninstall operation"
  pure (deactivatePackage m.definitions (request.get "package"))

/-- The installation authority knows the app a definition belongs to. -/
def checkInstalled (config : Message) (package : String) (offline : Bool) : Query σ ε Unit :=
  if offline then do
    let status ← offlineInstallationStatus config
    match status with
    | none => pure ()
    | some status => fail status "offline installation validation failed during registration"
  else do
    let current ← validator package (config.get "app") (config.get "_install_identity")
    require (current = true) .eacces "installed package identity mismatch"

/-- The registry after `register` or `update`. -/
def addDefinition (m : Members) (request : Message) : Query σ ε Definitions := do
  let config : Message := (selectFields request fun key =>
    Registration.isDefinitionField key || key == "_install_identity").insert "active" "1"
  validateDefinition config
  checkInstalled config (request.get "package") m.offlineImport
  let id := config.get "definition"
  match m.definitions[id]? with
  | some old =>
    checkSuccession old config (request.get "package")
    pure (m.definitions.insert id config)
  | none => pure (m.definitions.insert id config)

def requireOperation (request : Message) : Query σ ε Unit :=
  require (identifier (request.get "package") ∧ identifier (request.get "operation_id"))
    .einval "package and installation operation required"

/-- The package authority confirms an uninstall before its retry is recognised. -/
def checkRemoval (m : Members) (request : Message) : Query σ ε Unit := do
  let expected := request.get "expected_generation"
  require (expected ≠ "") .einval "expected installation generation required"
  let confirmed ← packageValidator (request.get "package") expected
  require (confirmed = true) .estale "package generation authority rejected uninstall"
  require (currentGeneration m.definitions (request.get "package") expected)
    .estale "stale package uninstall operation"

def commonRegister (key : String) (request : Message) (remove : Bool) : Process σ ε Message := do
  query (requireOperation request)
  let fingerprint ← query (hash (pack (request.eraseAll ["id", "protocol_request_id"])))
  let m ← members
  Act.when (remove = true) (query (checkRemoval m request))
  match m.operations[key]? with
  | some prior =>
    query (require (prior = fingerprint) .conflict "installation operation payload conflict")
    pure ∅
  | none =>
    let definitions ← query (if remove then removePackage m request else addDefinition m request)
    query (require (definitions.size ≤ kMaxDefinitions) .enospc "definition limit exceeded")
    writeRegistry definitions (m.operations.insert key fingerprint) (m.registryRevision + 1)
    replayRegistry
    pure ∅

def register (peer : Peer) (request : Message) (remove : Bool) : Process σ ε Message := do
  query (require (role peer "installer") .eacces "installer role required")
  query (requireOperation request)
  query (require (member peer.packages (request.get "package"))
    .eacces "package delegation denied")
  let key ← query (hash (peer.identity ++ ":" ++ request.get "operation_id"))
  commonRegister key request remove

/-! ### Execute -/

/-- The method of a request, handled by one operation. -/
def dispatch (peer : Peer) (request : Message) : Process σ ε Message := do
  let method := request.get "method"
  let m ← members
  if method = "register" ∨ method = "update" ∨ method = "unregister" then
    register peer request (method == "unregister")
  else if method = "check" ∧ request.get "operation" = "reuse-data" then
    let use := request.insert "method" "data_check"
    perform (.data peer use m.expected.incarnation)
  else if method = "request" ∨ method = "check" then
    let create := method == "request"
    perform (.evaluate peer request create)
  else if method = "get_prompt" ∨ method = "respond" then
    let respond := method == "respond"
    perform (.prompt peer request respond)
  else if method = "get_request_result" ∨ method = "result" ∨ method = "cancel_request" ∨
      method = "cancel" then
    let cancel := method == "cancel" || method == "cancel_request"
    perform (.result peer request cancel m.operationGeneration)
  else if starts method "session_" ∨ method = "cleanup_get_state" then
    perform (.session peer request)
  else if starts method "data_" ∨ method = "cleanup_ack" ∨ method = "cleanup_list" then
    perform (.data peer request m.expected.incarnation)
  else if method = "revoke" then
    perform (.revoke peer request)
  else if method = "hello" then
    pure (Message.of [("approval_version", "1")])
  else if method = "snapshot" ∨ method = "subscribe" then
    pure ∅
  else query (fail .enosys "unsupported method")

/-- The message whose definitions are checked again before the reply. -/
def publishedMessage (d : Database) (request : Message) : Message :=
  let method := request.get "method"
  if method = "respond" ∨ method = "get_prompt" then
    ((d.findRequest (request.get "request_id")).map (·.payload)).getD request
  else if method = "data_register" then
    ((d.findAuthorization (request.get "receipt")).map (·.payload)).getD request
  else request

/-- The ids in the `checked_definitions` set, in its order. -/
def publishedDefinitions (d : Database) (request : Message) : Query σ ε (List String) := do
  let method := request.get "method"
  let named := if method = "register" ∨ method = "update" then [request.get "definition"] else []
  if ["request", "check", "respond", "get_prompt", "data_register"].contains method then
    let validated := publishedMessage d request
    let count ← number validated "count" 0 0 16
    let rows := (List.range count.toNat).map fun i => validated.get (row i "definition")
    pure (((named ++ rows).dedup).mergeSort fun a b => decide (a ≤ b))
  else pure named

/-- The installation authority is asked again before an approval is published. -/
def checkPublished (m : Members) (id : String) : Query σ ε Unit :=
  match m.definitions[id]? with
  | none => pure ()
  | some config =>
    if config.get "active" = "1" then do
      let current ← installed config
      require (current = true) .estale "installation changed before reply publication"
    else pure ()

def isDataCheck (request : Message) : Bool :=
  request.get "method" == "data_check" ||
    (request.get "method" == "check" && request.get "operation" == "reuse-data")

/-- A reply that depends on the active profile. -/
def sensitive (request result : Message) : Bool :=
  ["request", "check", "respond", "get_prompt", "session_open", "session_resume",
    "session_heartbeat", "data_register", "data_register_derived", "data_check"].contains
    (request.get "method") ||
  (["result", "get_request_result"].contains (request.get "method") &&
    result.get "decision" == "ALLOWED")

/-- The checks between the operation and its reply. -/
def checkReply (peer : Peer) (request result : Message) : Process σ ε Unit := do
  let m ← members
  query do
    sqlOutcome
    let ids ← publishedDefinitions m.tables request
    ids.foldlM (fun _ id => checkPublished m id) ()
    if isDataCheck request || ["data_register", "data_register_derived"].contains
        (request.get "method") then
      validateArtifactProvenance m.tables peer request
        (if isDataCheck request then request.get "artifact" else result.get "artifact")
    else pure ()

/-- The profile generation is the one captured at the start of the operation. -/
def checkProfile (request result : Message) (generation : Nat) : Query σ ε Message :=
  if sensitive request result then do
    let current ← profileGeneration
    require (generation = current) .estale "profile generation changed before reply"
    pure (result.insert "profile_generation" (toString generation))
  else pure result

/-- What precedes the operation; the result is the epoch and the profile generation in
which it is evaluated. -/
def prepare (peer : Peer) : Process σ ε (String × Nat) := do
  ensure
  let epoch := (← members).epoch
  let generation ← query profileGeneration
  setMembers fun m => { m with operationGeneration := generation }
  let _ ← performPlain .expire
  query (require (peer.identity ≠ "" ∧ peer.instance ≠ "")
    .eacces "authenticated caller identity required")
  pure (epoch, generation)

def executeChecked (peer : Peer) (request : Message) : Process σ ε Message := do
  let (epoch, generation) ← prepare peer
  let result ← dispatch peer request
  ensure
  query (require (epoch = (← members).epoch) .estale "database generation changed before reply")
  checkReply peer request result
  let metadata ← snapshot
  query (require (metadata.get "epoch" = epoch) .estale
    "database generation changed during final publication snapshot")
  let stamped ← query (checkProfile request result generation)
  pure (stamped.insertAll metadata)

/-- What every entry point does with an exception. -/
def noteFailure (failure : Failure) : Process σ ε Unit :=
  setMembers fun m => { m with
    corrupt := m.corrupt || failure.corruption
    fenced := m.fenced || failure.status == .storage }

def failureReply (failure : Failure) : Process σ ε Reply := do
  let m ← members
  pure ⟨some failure.status, Message.of
    [("reason", failure.reason), ("epoch", m.epoch), ("source", "DAEMON")]⟩

def execute (peer : Peer) (request : Message) : Process σ ε Reply :=
  tryCatch
    (do let fields ← executeChecked peer request
        pure ⟨none, fields⟩)
    (fun failure => do
      noteFailure failure
      failureReply failure)

/-! ### Offline registration -/

def isPolicyMeaning (key : String) : Bool :=
  Localization.isPolicyField key || ["enforcer", "level", "modes", "retention_ms"].contains key

/-- A seed of the image that is older than the registered definition. -/
def obsoleteOfflineRegistration (m : Members) (request : Message) : Query σ ε Bool := do
  match m.definitions[request.get "definition"]? with
  | none => pure false
  | some current =>
    require (current.get "package" = request.get "package" ∧
        current.get "app" = request.get "app")
      .eacces "definition namespace belongs to another app"
    if current.get "_install_identity" ≠ request.get "expected_generation" then pure false
    else
      let currentPolicy ← integer (current.get "policy_version") 1 int32Max
      let incomingPolicy ← integer (request.get "policy_version") 1 int32Max
      let currentText ← integer (current.get "text_revision") 1 int32Max
      let incomingText ← integer (request.get "text_revision") 1 int32Max
      require (currentPolicy = incomingPolicy →
          selectFields current isPolicyMeaning = selectFields request isPolicyMeaning)
        .conflict "same offline policy revision differs"
      require (currentText = incomingText →
          selectFields current isMessageField = selectFields request isMessageField)
        .conflict "same offline text revision differs"
      require (¬ ((incomingPolicy < currentPolicy ∧ currentText < incomingText) ∨
          (currentPolicy < incomingPolicy ∧ incomingText < currentText)))
        .conflict "offline policy and text revisions cross"
      if current.get "active" = "0" then pure true
      else
        pure (decide (incomingPolicy ≤ currentPolicy ∧ incomingText ≤ currentText ∧
          (incomingPolicy < currentPolicy ∨ incomingText < currentText)))

/-- The record an offline registration may hold. -/
def checkRecord (seed : Message) : Query σ ε Message := do
  require (seed ≠ ∅ ∧ seed.size ≤ kMaxFields) .einval "invalid offline registration field count"
  require ((seed.toList.all fun field => validField field.1 field.2 &&
      (Registration.isDefinitionField field.1 ||
        ["operation_id", "expected_generation", "method"].contains field.1)) = true)
    .einval "unexpected offline registration field"
  let bytes := seed.toList.foldl (fun total field =>
    total + (10 + field.1.utf8ByteSize + field.2.utf8ByteSize)) 64
  require (bytes ≤ kMaxFrameSize) .e2big "offline registration frame exceeds limit"
  require (seed.getD "method" "register" = "register")
    .einval "offline import supports registration only"
  require (identifier (seed.get "operation_id") ∧ identifier (seed.get "expected_generation"))
    .einval "offline registration operation and expected generation required"
  checked .einval (Registration.validateDefinition seed)
  pure ((seed.insert "method" "register").insert "_install_identity"
    (seed.get "expected_generation"))

def requireInstallation (request : Message) (stale failed : String) : Query σ ε Unit := do
  let status ← offlineInstallationStatus request
  match status with
  | none => pure ()
  | some status => fail status (if status = .estale then stale else failed)

def obsoleteMark : String := "obsolete-v1:"

/-- The verdict is persisted without changing any definition. -/
def rememberObsolete (key fingerprint : String) : Process σ ε Unit := do
  let m ← members
  writeRegistry m.definitions (m.operations.insert key (obsoleteMark ++ fingerprint))
    (m.registryRevision + 1)
  replayRegistry

/-- Whether the seed is obsolete; a new verdict is recorded in the registry. -/
def judgeSeed (key fingerprint : String) (request : Message) : Process σ ε Bool := do
  let m ← members
  match m.operations[key]? with
  | some prior =>
    let obsolete := starts prior obsoleteMark
    let stored := if obsolete then String.ofList (prior.toList.drop 12) else prior
    query (require (stored = fingerprint) .conflict "installation operation payload conflict")
    pure obsolete
  | none =>
    let obsolete ← query (obsoleteOfflineRegistration m request)
    Act.when (obsolete = true) (rememberObsolete key fingerprint)
    pure obsolete

def importChecked (seed : Message) : Process σ ε Reply := do
  ensure
  let epoch := (← members).epoch
  let request ← query (checkRecord seed)
  query (requireInstallation request
    "offline registration installation is absent, inactive or stale"
    "offline installation authority validation failed before registration")
  let key := "offline-image-v1:" ++ (← query (hash (request.get "operation_id")))
  let fingerprint ← query (hash (pack request))
  let obsolete ← judgeSeed key fingerprint request
  let result ← (if obsolete then pure ∅ else commonRegister key request false)
  ensure
  query (require (epoch = (← members).epoch) .estale
    "database changed during offline registration")
  query (requireInstallation request "offline installation changed before publication"
    "offline installation authority validation failed before publication")
  let metadata ← snapshot
  query (require (metadata.get "epoch" = epoch) .estale
    "database changed during offline publication snapshot")
  let merged := result.insertAll metadata
  if obsolete then
    pure ⟨some .estale, merged.insert "reason"
      "obsolete-seed: a newer or deactivated definition is retained"⟩
  else pure ⟨none, merged⟩

def importOfflineRegistration (seed : Message) : Process σ ε Reply := do
  let previous := (← members).offlineImport
  setMembers fun m => { m with offlineImport := true }
  let reply ← tryCatch (importChecked seed) fun failure => do
    noteFailure failure
    failureReply failure
  setMembers fun m => { m with offlineImport := previous }
  pure reply

/-! ### Timer, barrier and shutdown -/

def compactMetadata : Process σ ε Message := do
  let m ← members
  let outcome ← performPlain (.compact m.maintenanceClass)
  setMembers fun m => { m with maintenanceClass := (m.maintenanceClass + 1) % 4 }
  pure outcome.reply

def maintain : Process σ ε Reply :=
  tryCatch
    (do ensure
        let epoch := (← members).epoch
        let compacted ← compactMetadata
        let result ← snapshot
        query (require (result.get "epoch" = epoch) .estale
          "database generation changed during metadata maintenance")
        pure ⟨none, compacted.insertAll result⟩)
    (fun failure => do
      noteFailure failure
      pure ⟨some failure.status, Message.of [("reason", failure.reason)]⟩)

/-- The integrity check of the timer. -/
def quickCheck : Process σ ε Unit := do
  query sqlOutcome
  let m ← members
  if m.disk.database.any fun file => decide (file.content = .damaged) then
    setMembers fun m => { m with corrupt := true }
    failStorage "runtime database corruption detected"
  else pure ()

def tickChecked : Process σ ε Unit := do
  ensure
  quickCheck
  replayRegistry
  let _ ← performPlain .expire
  let time ← query now
  if (← members).maintenanceDue ≤ time then
    let again ← query now
    setMembers fun m => { m with maintenanceDue := again + kMaintenanceIntervalMs }
    let _ ← compactMetadata
    pure ()
  else pure ()

def tick : Process σ ε Unit :=
  tryCatch tickChecked fun failure =>
    setMembers fun m => { m with corrupt := m.corrupt || failure.corruption, fenced := true }

def fenceProfiles (retireGrants : Bool) (removedUser : String) : Process σ ε Unit := do
  let state ← query profiles
  if state.enabled then
    ensure
    let _ ← performPlain (.fenceProfiles state.bindings retireGrants removedUser)
    pure ()
  else pure ()

def shutdown : Process σ ε Unit := do
  let m ← members
  if m.handle && !m.fenced then resetRuntime else pure ()

/-! ### Runs -/

/-- A call of the repository, or a new process over the same storage with `main` as
the state of its other threads. The process reconciles offline registrations while it
opens the storage if there are any; before it, the machine may have gone down. -/
inductive Step (σ : Type) where
  | execute (peer : Peer) (request : Message)
  | importOfflineRegistration (seed : Message)
  | offlineReconciliation (enabled : Bool)
  | snapshot
  | maintain
  | tick
  | fenceProfiles (retireGrants : Bool) (removedUser : String)
  | shutdown
  | restart (main : σ) (offline powerLoss : Bool)

/-- An exception leaves the entry point with the state as it is. -/
def replyOf {α : Type} (x : Process σ ε α) (fields : α → Message) : Process σ ε Reply :=
  tryCatch
    (do let value ← x
        pure ⟨none, fields value⟩)
    (fun failure => pure ⟨some failure.status, Message.of [("reason", failure.reason)]⟩)

/-- A process that cannot open the repository ends. -/
def startRepository : Process σ ε Bool := do
  let opened ← openRepository
  Act.when (opened = false) (setMembers fun m => { m with handle := false })
  pure opened

/-- The computation of a call. -/
def Step.act : Step σ → Process σ ε Reply
  | .execute peer request => Repository.execute peer request
  | .importOfflineRegistration seed => Repository.importOfflineRegistration seed
  | .offlineReconciliation enabled =>
    replyOf (setMembers fun m => { m with offlineImport := enabled }) fun _ => ∅
  | .snapshot => replyOf Repository.snapshot id
  | .maintain => Repository.maintain
  | .tick => replyOf Repository.tick fun _ => ∅
  | .fenceProfiles retireGrants removedUser =>
    replyOf (Repository.fenceProfiles retireGrants removedUser) fun _ => ∅
  | .shutdown => replyOf Repository.shutdown fun _ => ∅
  | .restart _ _ _ => replyOf startRepository fun opened =>
    Message.of [("open", if opened then "1" else "0")]

/-- Every call reads its environment from the beginning. -/
def Progress.begin (s : Progress σ ε) : Progress σ ε :=
  { s with clock := 0, validated := 0, faulted := 0, noticed := 0, looked := 0, filed := 0
           written := 0 }

/-- The world a step starts from. -/
def Step.enter (step : Step σ) (w : World σ ε) : World σ ε :=
  match step with
  | .restart main offline powerLoss =>
    let disk := if powerLoss then w.members.disk.powerLoss else w.members.disk
    { members := { Members.boot disk w.members.tables with offlineImport := offline }
      progress := { w.progress.begin with
        main, history := .storage .started :: w.progress.history } }
  | _ => { w with progress := w.progress.begin }

def replyOr (outcome : Except Failure Reply) : Reply :=
  match outcome with
  | .ok reply => reply
  | .error failure => ⟨some failure.status, ∅⟩

/-- The reply of a step and the world after it. -/
def Step.run (platform : Platform) (step : Step σ) (environment : Environment ε)
    (w : World σ ε) : Reply × World σ ε :=
  let final := step.act.run ⟨platform, environment⟩ (step.enter w)
  (replyOr final.1, final.2)

/-- The registry of an image: it names no database. -/
def imageRegistry (registry : Option Registry) : Option RegistryFile :=
  registry.map fun content => ⟨1, .ok { content with database := .none }⟩

/-- A storage directory without a database, and a process about to open it. -/
def World.start (device : Nat) (registry : Option Registry) (main : σ) : World σ ε where
  members := Members.boot
    ⟨device, none, imageRegistry registry, imageRegistry registry, none, 1, 2⟩ Database.fresh
  progress := ⟨main, 0, 0, 0, 0, 0, 0, 0, 0, []⟩

/-- The worlds of all runs. -/
inductive Reachable (platform : Platform) : World σ ε → Prop where
  | start (device : Nat) (registry : Option Registry) (main : σ) :
      Reachable platform (World.start device registry main)
  | step {w : World σ ε} (step : Step σ) (environment : Environment ε) :
      Reachable platform w → Reachable platform (step.run platform environment w).2

/-! ### A sample run -/

namespace Sample

/-- Ids are numerals, the digest marks its text. -/
def platform : Platform where
  ids :=
    { id := fun n => toString n
      number := fun text =>
        (some (Nat.ofDigitChars 10 text.toList 0)).filter fun n => toString n = text
      numbered := fun text n => by
        rw [Option.filter_eq_some_iff, decide_eq_true_iff]
        refine ⟨fun found => found.2, fun same => ⟨congrArg some ?_, same⟩⟩
        rw [← same, show (toString n).toList = Nat.toDigits 10 n from Nat.toList_repr]
        exact Nat.ofDigitChars_ten_toDigits
      nonempty := fun n empty => by
        have digits : (toString n).toList = [] := by rw [empty]; rfl
        exact Nat.toDigits_ne_nil (Nat.toList_repr.symm.trans digits)
      hexadecimal := fun n c member => by
        have digits : c ∈ Nat.toDigits 10 n := by
          rw [← Nat.toList_repr]
          exact member
        have digit := Nat.isDigit_of_mem_toDigits (by decide) (by decide) digits
        have small : asciiDigit c = true := by
          simpa [Char.isDigit, asciiDigit, Char.le_def] using digit
        simp [asciiAlnum, small] }
  hash text := "h" ++ text
  digest text empty := by simp [String.ext_iff] at empty

/-- The clock stands still, everything is installed and nothing fails. -/
def environment (time : Int) : Environment ProfileStep where
  now _ := time
  validator _ _ _ _ := true
  packageValidator _ _ _ := true
  offlineValidator := none
  fault _ := none
  events _ := []
  disk _ := []
  fileFault _ := false
  registryWrite _ := .durable

def location : Message := Message.of
  [("definition", "loc"), ("package", "p"), ("app", "a"), ("enforcer", "cm"),
    ("policy_version", "1"), ("text_revision", "1"), ("level", "1"), ("modes", "ONCE"),
    ("default_locale", "en"), ("message.en.title", "T"), ("message.en.body", "B"),
    ("retention_ms", "1000"), ("_install_identity", "i"), ("active", "1")]

def registry : Registry := ⟨(∅ : Definitions).insert "loc" location, ∅, 0, .none⟩

/-- One caller with every role. -/
def peer : Peer where
  identity := "cm"
  «instance» := "1"
  roles := ["argo", "ui", "cm", "holder", "session", "admin"]
  subjects := ["*"]
  profiles := ["*"]
  enforcers := ["*"]
  packages := ["*"]

def context : List (String × String) := [("subject", "s"), ("profile", "p")]

/-- The session that the run opens. -/
def session : List (String × String) := context ++ [("session", "4"), ("generation", "1")]

/-- A requirement row of the definition `loc`. -/
def requirement : List (String × String) :=
  session ++ [("count", "1"), ("operation_id", "op"), ("step_id", "st"),
    (row 0 "definition", "loc"), (row 0 "scope", "x"), (row 0 "operation", "read"),
    (row 0 "purpose", "map"), (row 0 "recipient", "r"), (row 0 "holder", "cm")]

def use : List (String × String) :=
  session ++ [("scope", "x"), ("purpose", "map"), ("recipient", "r")]

def call (method : String) (fields : List (String × String)) : Step ProfileState :=
  .execute peer (Message.of (("method", method) :: fields))

/-- The repository is opened; in a session one check is approved and authorized, its
data is registered and derived from, and in the end the approval is revoked. -/
def steps : List (Step ProfileState) :=
  [.restart ProfileState.initial false false,
    call "session_open" context,
    call "request" (("client_request_id", "c") :: requirement),
    call "get_prompt" [("request_id", "6"), ("locale", "en")],
    call "respond" [("request_id", "6"), ("prompt_token", "7"), ("decision", "ALLOWED"),
      ("grant_mode", "ONCE")],
    call "check" (("mode", "AUTHORIZE") :: requirement),
    call "data_register" (("receipt", "9") :: use),
    call "data_register_derived" (("count", "1") :: ("parent0", "10") :: use),
    call "revoke" (("definition", "loc") :: context)]

/-- The world after the steps, all at time 1000. -/
def world (steps : List (Step ProfileState)) : World ProfileState ProfileStep :=
  steps.foldl (fun w step => (step.run platform (environment 1000) w).2)
    (World.start 1 (some registry) ProfileState.initial)

theorem reachable (steps : List (Step ProfileState)) : Reachable platform (world steps) :=
  List.foldlRecOn (motive := Reachable platform) steps _ (.start _ _ _) fun _ reached step _ =>
    .step step (environment 1000) reached

def installer : Peer := { peer with roles := ["installer"] }

/-- A definition of the package `q`, installed as `i`. -/
def definition (operation id policy text level : String) : Message := Message.of
  [("method", "register"), ("operation_id", operation), ("definition", id), ("package", "q"),
    ("app", "b"), ("enforcer", "cm"), ("policy_version", policy), ("text_revision", text),
    ("level", level), ("modes", "ONCE"), ("default_locale", "en"), ("message.en.title", text),
    ("message.en.body", "B"), ("retention_ms", "1000"), ("_install_identity", "i")]

def installs (request : Message) : Step ProfileState := .execute installer request

def first : Message := definition "1" "cam" "1" "1" "1"

/-- A definition whose approvals outlive the process. -/
def lasting : Registry :=
  ⟨(∅ : Definitions).insert "loc" (location.insert "modes" "PERSISTENT"), ∅, 0, .none⟩

/-- The database is deleted, and the registry that should name its successor is lost. -/
def losing : Environment ProfileStep :=
  { environment 1000 with disk := fun _ => [.databaseRemoved], registryWrite := fun _ => .failed }

/-- The registry is replaced by a file that names another inode and that its checksum gives
away. -/
def misleading : Environment ProfileStep :=
  { environment 1000 with disk := fun _ =>
      [.registryDamaged ⟨.whole ⟨1, 7, "1"⟩, .storage, "registry checksum mismatch"⟩] }

/-- The registry that was there before is put back. -/
def restoring : Environment ProfileStep :=
  { environment 1000 with disk := fun _ => [.registryRestored] }

/-- In a session an approval is given that should outlive the process. -/
def approving (session request token : String) : List (Step ProfileState × Environment ProfileStep) :=
  let asked := requirement.map fun item => if item.1 = "session" then ("session", session) else item
  [call "session_open" context, call "request" (("client_request_id", "c") :: asked),
    call "get_prompt" [("request_id", request), ("locale", "en")],
    call "respond" [("request_id", request), ("prompt_token", token), ("decision", "ALLOWED"),
      ("grant_mode", "PERSISTENT")]].map fun step => (step, environment 1000)

/-- The repository is opened, loses its database and the write that should name the next
one, and goes on. -/
def lossy : List (Step ProfileState × Environment ProfileStep) :=
  (.restart ProfileState.initial false false, environment 1000) :: (.snapshot, losing) ::
    approving "9" "11" "12"

/-- The repository is opened and reads a registry that it rejects; the good one is put back,
a definition is registered, and the repository goes on. -/
def misled : List (Step ProfileState × Environment ProfileStep) :=
  (.restart ProfileState.initial false false, environment 1000) :: (.snapshot, misleading) ::
    (.snapshot, restoring) :: (installs first, environment 1000) :: approving "5" "7" "8"

def worldOf (steps : List (Step ProfileState × Environment ProfileStep)) :
    World ProfileState ProfileStep :=
  steps.foldl (fun w step => (step.1.run platform step.2 w).2)
    (World.start 1 (some lasting) ProfileState.initial)

theorem worldOf_reachable (steps : List (Step ProfileState × Environment ProfileStep)) :
    Reachable platform (worldOf steps) :=
  List.foldlRecOn (motive := Reachable platform) steps _ (.start _ _ _) fun _ reached step _ =>
    .step step.1 step.2 reached

end Sample

end Consent.Repository
