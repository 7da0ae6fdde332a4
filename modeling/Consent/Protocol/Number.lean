import Consent.Protocol.Wire

/-!
`ParseNumber` as the machine computes it: over octets, with the conversions and the fixed-width
operations of the source. An operation whose mathematical result is not a value of its type is
a fault, so that a text on which nothing overflows can be told from one on which something does.
-/
namespace Consent.Machine

/-- A result that its type cannot hold. -/
inductive Fault where
  | overflow
  deriving DecidableEq, Repr

/-- A result of an unsigned type. -/
def unsigned (bits : Nat) (n : Int) : Except Fault Int :=
  if 0 ≤ n ∧ n < 2 ^ bits then .ok n else .error .overflow

/-- A result of a signed type. -/
def signed (bits : Nat) (n : Int) : Except Fault Int :=
  if -2 ^ (bits - 1) ≤ n ∧ n < 2 ^ (bits - 1) then .ok n else .error .overflow

/-- The value of a `char`; the target chooses whether the type is signed. -/
def charValue (signedChar : Bool) (octet : UInt8) : Int :=
  if signedChar ∧ 128 ≤ octet.toNat then octet.toNat - 256 else octet.toNat

/-- The digit loop. -/
def parseDigits (signedChar : Bool) (maximum : Int) :
    List UInt8 → Int → Except Fault (Option Int)
  | [], number => pure (some number)
  | octet :: rest, number => do
    let c := charValue signedChar octet
    if c < 48 ∨ c > 57 then pure none
    else
      -- the difference is an `int` before it is converted
      let difference ← signed 32 (c - 48)
      let digit ← unsigned 32 difference
      let room ← unsigned 64 (maximum - digit)
      if number > room / 10 then pure none
      else
        let scaled ← unsigned 64 (number * 10)
        let number ← unsigned 64 (scaled + digit)
        parseDigits signedChar maximum rest number

def parseNumber (signedChar : Bool) : List UInt8 → Except Fault (Option Int)
  | [] => pure none
  | first :: rest => do
    let negative := charValue signedChar first = 45
    let digits := if negative then rest else first :: rest
    if digits.isEmpty then pure none
    else
      let maximum ← unsigned 64 (int64Max + if negative then 1 else 0)
      match ← parseDigits signedChar maximum digits 0 with
      | none => pure none
      | some number =>
        if negative then
          -- the negation of the smallest value is the one that is undefined
          if number = maximum then pure (some (-2 ^ 63))
          else
            let converted ← signed 64 number
            let output ← signed 64 (-converted)
            pure (some output)
        else
          let output ← signed 64 number
          pure (some output)

/-- `std::to_string`. -/
def toText (n : Int) : List UInt8 := Wire.octets (toString n)

/-- `Integer` of the approvals. -/
def approvalInteger (signedChar : Bool) (value : List UInt8) (minimum maximum : Int) :
    Except Fault Bool := do
  match ← parseNumber signedChar value with
  | some number => pure (minimum ≤ number && number ≤ maximum && value == toText number)
  | none => pure false

/-- `Integer` of the localization. -/
def localizationInteger (signedChar : Bool) (value : List UInt8) : Except Fault (Option Int) := do
  match ← parseNumber signedChar value with
  | some number => pure (if toText number == value then some number else none)
  | none => pure none

end Consent.Machine
