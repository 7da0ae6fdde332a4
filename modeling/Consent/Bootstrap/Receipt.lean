import Consent.Bootstrap.ReceiptText

/-!
The first start of the daemon: the root helper that writes the receipt
(`tools/storage_prepare.cc`) and the check of the daemon (`consentd/bootstrap.cc`).

A program of the helper is the list of disks it passes through, one for each change it
makes; a crash, or a check of owners, modes, labels and locks that fails, stops it between
any two of them. The receipt is replaced by renaming a complete file.
-/
namespace Consent.Bootstrap
open ReceiptText (Text Phase Receipt hexId readReceipt serialize)

inductive File where
  | missing
  | owned
  | exposed
  deriving DecidableEq, Repr

/-- The two directories, the receipt, the pair of files of the daemon and the anchor of the
migration. -/
structure Disk where
  authority : Bool := false
  receipt : Option Text := none
  state : Bool := false
  registry : File := .missing
  database : File := .missing
  anchor : Bool := false

def Disk.read (d : Disk) : Option Receipt := readReceipt d.receipt

/-- `WriteReceipt`, which leaves the old receipt where the new one is not valid. -/
def Disk.write (d : Disk) (r : Receipt) : Disk :=
  match serialize r with
  | some data => { d with receipt := some data }
  | none => d

/-- Neither file of the pair is open to others. -/
def Disk.pairOwned (d : Disk) : Bool := d.registry != .exposed && d.database != .exposed

def File.present (f : File) : Bool := f != .missing

/-- `Ownership`. -/
def File.own : File → File
  | .exposed => .owned
  | f => f

section programs

variable (unit : Text)

def firstInstall (d : Disk) : List Disk :=
  if d.state || d.authority then []
  else
    let made := { d with authority := true }
    [made, made.write { phase := .fresh, unit }]

def bootstrapPreflight (d : Disk) (invocation : Option Text) (nonce : Text) : List Disk :=
  match d.read with
  | none => []
  | some receipt =>
    if !d.pairOwned || receipt.phase = .absent || receipt.unit ≠ unit then []
    else if receipt.phase = .fresh then
      match invocation with
      | some id =>
        if d.registry.present || d.database.present || !hexId id 32 then []
        else [d.write ⟨.claimed, unit, id, nonce⟩]
      | none => []
    else []

/-- The receipt and the state directory that `Prepare` demands. -/
def mayPrepare (d : Disk) : Bool :=
  match d.read with
  | some prior =>
    match prior.phase with
    | .fresh => !d.state
    | .initialized => d.state
    | _ => false
  | none => false

def prepare (d : Disk) (invocation : Option Text) (nonce : Text) : List Disk :=
  let opened := { d with authority := true }
  if mayPrepare opened then
    let created := { opened with state := true }
    let owned := { created with registry := created.registry.own, database := created.database.own }
    opened :: created :: owned :: bootstrapPreflight unit owned invocation nonce
  else [opened]

/-- `classify` is a build option, `upgrade` what the package database says. -/
def migrateRelease7 (classify upgrade : Bool) (d : Disk) : List Disk :=
  match d.read with
  | none => []
  | some receipt =>
    let complete := d.state && d.registry.present && d.database.present
    if !d.authority || receipt.phase ≠ .absent || !upgrade || (d.state && !d.pairOwned) ||
        !classify && !complete || d.anchor then []
    else
      let anchored := { d with anchor := true }
      [anchored, anchored.write
        { phase := if complete then .initialized else .recoveryRequired, unit }]

def completeBootstrap (d : Disk) (invocation : Option Text) : List Disk :=
  match d.read with
  | none => []
  | some receipt =>
    if d.authority && d.state && receipt.unit = unit && receipt.phase = .claimed &&
        invocation = some receipt.invocation && d.registry = .owned && d.database = .owned then
      [d.write { phase := .initialized, unit }]
    else []

/-! ### The check of the daemon -/

inductive Boot where
  | reject | first | existing | recoverDatabase
  deriving DecidableEq, Repr

def assess (phase : Phase) (registry database ticket : Bool) : Boot :=
  if phase = .claimed ∧ ticket = true ∧ registry = false ∧ database = false then .first
  else if phase ≠ .initialized then .reject
  else if registry = false then .reject
  else if database then .existing else .recoverDatabase

/-- `managed` is what systemd says about the process. -/
def checkBootstrap (d : Disk) (managed : Bool) (invocation : Option Text) : Bool :=
  match d.read with
  | none => false
  | some receipt =>
    let ticket := receipt.phase == .claimed && invocation == some receipt.invocation &&
      hexId receipt.nonce 32
    managed && d.authority && d.state && receipt.unit == unit && d.pairOwned &&
      assess receipt.phase d.registry.present d.database.present ticket != .reject

end programs

end Consent.Bootstrap
