import Consent.Protocol.Records

/-!
The octets of a bootstrap receipt, as `Parse`, `ReadReceipt` and `WriteReceipt` of
`common/recovery_state.cc` handle them. `Parse` does not cut the text into lines: it searches for line breaks and for the
names of the fields from given positions on and compares the positions that it finds.
-/
namespace Consent.ReceiptText

abbrev Text := List UInt8

inductive Phase where
  | absent | fresh | claimed | initialized | recoveryRequired | invalid
  deriving DecidableEq, Repr

def Phase.name : Phase → Option String
  | .fresh => some "FRESH_UNCLAIMED"
  | .claimed => some "FRESH_CLAIMED"
  | .initialized => some "INITIALIZED"
  | .recoveryRequired => some "RECOVERY_REQUIRED"
  | .absent | .invalid => none

structure Receipt where
  phase : Phase := .absent
  unit : Text := []
  invocation : Text := []
  nonce : Text := []
  deriving DecidableEq

/-- `std::string::find`: the first position from `start` on where `needle` stands. -/
def find (needle data : Text) (start : Nat) : Option Nat :=
  (List.range' start (data.length + 1 - start)).find? fun i => needle.isPrefixOf (data.drop i)

def substr (data : Text) (start length : Nat) : Text := (data.drop start).take length

def newline : UInt8 := 10

def named (phase : Phase) : Option Text := phase.name.map Wire.octets

def phases : List Phase := [.fresh, .claimed, .initialized, .recoveryRequired]

/-- The last phase with this name, of the four that have one. -/
def phaseOf (name : Text) : Phase :=
  phases.foldl (fun found value => if named value = some name then value else found) .absent

def hexId (value : Text) (width : Nat) : Bool :=
  value.length == width &&
    value.all fun o => (48 ≤ o && o ≤ 57) || (97 ≤ o && o ≤ 102)

/-- Neither a line break nor `/` nor `=`. -/
def plain (value : Text) : Bool := !(value.contains 10 || value.contains 47 || value.contains 61)

/-- Only a claimed receipt has an invocation and a nonce. -/
def validClaim (receipt : Receipt) : Bool :=
  if receipt.phase = .claimed then hexId receipt.invocation 32 && hexId receipt.nonce 32
  else receipt.invocation.isEmpty && receipt.nonce.isEmpty

def start : Text := Wire.octets "schema=1\nphase="

def parse (data : Text) : Option Receipt := do
  guard (data.take start.length = start)
  let next ← find [newline] data start.length
  let phase := phaseOf (substr data start.length (next - start.length))
  guard (phase ≠ .absent)
  let unit ← find (Wire.octets "unit=") data (next + 1)
  guard (unit = next + 1)
  let unitEnd ← find [newline] data unit
  let invocation ← find (Wire.octets "invocation=") data (unitEnd + 1)
  guard (invocation = unitEnd + 1)
  let invocationEnd ← find [newline] data invocation
  let nonce ← find (Wire.octets "nonce=") data (invocationEnd + 1)
  guard (nonce = invocationEnd + 1 ∧ data.getLast? = some newline)
  let receipt : Receipt :=
    { phase
      unit := substr data (unit + 5) (unitEnd - unit - 5)
      invocation := substr data (invocation + 11) (invocationEnd - invocation - 11)
      nonce := substr data (nonce + 6) (data.length - nonce - 7) }
  guard (receipt.unit ≠ [] ∧ receipt.unit.length ≤ 128 ∧ plain receipt.unit = true)
  guard (validClaim receipt = true)
  pure receipt

def kLimit : Nat := 4096

/-- `ReadReceipt`: a file that is not there is an absent receipt. -/
def readReceipt : Option Text → Option Receipt
  | none => some {}
  | some data => if 0 < data.length ∧ data.length ≤ kLimit then parse data else none

/-- What `WriteReceipt` accepts, and the octets of the file that it puts in place. -/
def serialize (receipt : Receipt) : Option Text := do
  let phase ← named receipt.phase
  guard (receipt.unit ≠ [] ∧ receipt.unit.length ≤ 128 ∧ plain receipt.unit = true ∧
    (receipt.phase = .claimed → hexId receipt.invocation 32 = true ∧ hexId receipt.nonce 32 = true) ∧
    (receipt.phase ≠ .claimed → receipt.invocation = [] ∧ receipt.nonce = []))
  pure (start ++ phase ++ Wire.octets "\nunit=" ++ receipt.unit ++ Wire.octets "\ninvocation=" ++
    receipt.invocation ++ Wire.octets "\nnonce=" ++ receipt.nonce ++ [newline])

end Consent.ReceiptText
