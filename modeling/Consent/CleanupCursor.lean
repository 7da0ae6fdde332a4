import Consent.Protocol.Wire

/-!
The reading position of `cleanup_list` (`common/cleanup_cursor.cc`): a version and
four fixed-width hexadecimal fields.
-/
namespace Consent.Canonical
open Wire (octets)

structure Cursor where
  incarnation : List UInt8
  scope : List UInt8
  last : List UInt8
  upper : List UInt8
  deriving DecidableEq

def colon : UInt8 := 58

def kIdentitySize : Nat := 48
def kScopeSize : Nat := 64
def kTokenSize : Nat := 2 + 3 * kIdentitySize + kScopeSize + 3

def hex (value : List UInt8) (size : Nat) : Bool :=
  value.length == size && value.all fun o => (48 ≤ o && o ≤ 57) || (97 ≤ o && o ≤ 102)

/-- The fields of these lengths from a position on, with a colon between them, and the
position behind them. -/
def readFields (token : List UInt8) : List Nat → Nat → Option (List (List UInt8) × Nat)
  | [], offset => some ([], offset)
  | length :: rest, offset => do
    let field := (token.drop offset).take length
    guard (hex field length = true)
    guard (rest = [] ∨ token[offset + length]? = some colon)
    let (fields, finish) ← readFields token rest (offset + length + if rest = [] then 0 else 1)
    pure (field :: fields, finish)

def Cursor.parse (token : List UInt8) : Option Cursor := do
  guard (token.length = kTokenSize ∧ token.take 2 = octets "1:")
  let (fields, finish) ← readFields token [kIdentitySize, kScopeSize, kIdentitySize, kIdentitySize] 2
  match fields with
  | [incarnation, scope, last, upper] =>
    guard (finish = token.length ∧ last < upper)
    pure { incarnation, scope, last, upper }
  | _ => none

def Cursor.encode (c : Cursor) : List UInt8 :=
  octets "1:" ++ c.incarnation ++ [colon] ++ c.scope ++ [colon] ++ c.last ++ [colon] ++ c.upper

end Consent.Canonical

namespace Consent

/-- A cursor whose fields are the texts of the tables. -/
structure CleanupCursor where
  incarnation : String
  scope : String
  last : String
  upper : String
  deriving DecidableEq, Repr

namespace CleanupCursor

def parse (token : String) : Option CleanupCursor :=
  (Canonical.Cursor.parse (Wire.octets token)).map fun c =>
    ⟨Wire.latin c.incarnation, Wire.latin c.scope, Wire.latin c.last, Wire.latin c.upper⟩

def encode (cursor : CleanupCursor) : String :=
  "1:" ++ cursor.incarnation ++ ":" ++ cursor.scope ++ ":" ++ cursor.last ++ ":" ++ cursor.upper

end CleanupCursor

/-- The text whose digest is `CleanupScope`. -/
def cleanupScopeInput (holder «instance» subject profile : String) (reconcile : Bool) : String :=
  [holder, «instance», subject, profile].foldl appendTo "" ++ (if reconcile then "1" else "0")

end Consent
