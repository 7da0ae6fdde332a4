import Consent.Library.Octets
import Consent.Message

/-!
Messages on the wire: the bounded readers and writers of `common/parcel_codec.hh`, the
records that `tools/parcel_codegen.py` generates from `protocol/consent.idl.json`, and
`Encode` and `Decode` of `common/message.hh`.

A Parcel writes integers in network order and strings with their length and a terminating
NUL, both counted. A `String` is valid UTF-8, as the code requires of every string that it
writes or accepts.
-/
namespace Consent.Wire
open Octets (Buffer Cursor Reader bigEndian)

/-! ### Strings and integers -/

def octets (value : String) : List UInt8 := value.toByteArray.data.toList

/-- Each octet as the character of its number. -/
def latin (text : List UInt8) : String := String.ofList (text.map fun octet => Char.ofNat octet.toNat)

def validString (value : String) (maximum : Nat) : Bool :=
  decide (value.utf8ByteSize ≤ maximum) && !(octets value).contains 0

/-- `WriteString`. -/
def stringOctets (value : String) : List UInt8 :=
  bigEndian 4 (value.utf8ByteSize + 1) ++ (octets value ++ [0])

/-- `g_utf8_validate` and the string it lets pass. -/
def readText (bytes : List UInt8) : Reader String := fun _ c =>
  (String.fromUTF8? ⟨bytes.toArray⟩, c)

/-- `Reader::String`. -/
def readString (maximum : Nat) : Reader String := do
  let length ← Octets.number 4
  Octets.check (decide (length ≠ 0 ∧ length - 1 ≤ maximum))
  let bytes ← Octets.take length
  Octets.check (bytes.getLast? == some 0 && !bytes.dropLast.contains 0)
  readText bytes.dropLast

/-- A 32-bit integer as its two's complement, and back. -/
def unsigned (value : Int) : Nat := (value % 2 ^ 32).toNat

def signed (value : Nat) : Int := if value < 2 ^ 31 then value else value - 2 ^ 32

/-- `Writer::Room` and the write that it permits. -/
def put (bytes out : List UInt8) : Option (List UInt8) :=
  if out.length ≤ 65536 ∧ bytes.length ≤ 65536 - out.length then some (out ++ bytes) else none

/-- `Writer::String`. -/
def writeString (value : String) (maximum : Nat) (out : List UInt8) : Option (List UInt8) :=
  if validString value maximum then put (stringOctets value) out else none

/-! ### Records -/

@[ext] structure Field where
  key : String
  value : String
  deriving DecidableEq, Repr

structure Envelope where
  version : Nat
  kind : Nat
  correlation : Nat
  method : String
  status : Int
  fields : List Field
  deriving DecidableEq, Repr

def Field.valid (field : Field) : Bool :=
  validString field.key 128 && decide (1 ≤ field.key.utf8ByteSize) && validString field.value 8192

def Field.write (out : List UInt8) (field : Field) : Option (List UInt8) := do
  guard (field.valid = true)
  let out ← writeString field.key 128 out
  writeString field.value 8192 out

def Field.read : Reader Field := do
  let key ← readString 128
  let value ← readString 8192
  Octets.check (Field.valid ⟨key, value⟩)
  pure ⟨key, value⟩

def Envelope.valid (envelope : Envelope) : Bool :=
  validString envelope.method 128 && decide (envelope.fields.length ≤ 256) &&
    envelope.fields.all Field.valid

def Envelope.write (envelope : Envelope) (out : List UInt8) : Option (List UInt8) := do
  guard (envelope.valid = true)
  let out ← put (bigEndian 4 envelope.version) out
  let out ← put (bigEndian 4 envelope.kind) out
  let out ← put (bigEndian 8 envelope.correlation) out
  let out ← writeString envelope.method 128 out
  let out ← put (bigEndian 4 (unsigned envelope.status)) out
  let out ← put (bigEndian 4 envelope.fields.length) out
  envelope.fields.foldlM Field.write out

/-- A field takes at least eleven octets. -/
def readFields (count : Nat) : Reader (List Field) := do
  Octets.enough count 11
  Octets.replicate Field.read count

def Envelope.read : Reader Envelope := do
  let version ← Octets.number 4
  let kind ← Octets.number 4
  let correlation ← Octets.number 8
  let method ← readString 128
  let status ← Octets.number 4
  let count ← Octets.number 4
  Octets.check (decide (count ≤ 256))
  let fields ← readFields count
  Octets.check (Envelope.valid ⟨version, kind, correlation, method, signed status, fields⟩)
  pure ⟨version, kind, correlation, method, signed status, fields⟩

/-! ### Encode -/

/-- The fields that the head of an envelope stands for. -/
def reserved : List String := ["v", "id", "method", "status"]

def kindOf (method : String) : Nat :=
  if method = "reply" then 2 else if method = "event" then 3 else 1

/-- One turn of the loop over the fields, with the size of the frame so far. -/
def addField (state : Nat × List Field) (field : String × String) : Option (Nat × List Field) :=
  if reserved.contains field.1 then some state
  else
    let size := state.1 + (10 + field.1.utf8ByteSize + field.2.utf8ByteSize)
    if kMaxFrameSize < size then none else some (size, state.2 ++ [⟨field.1, field.2⟩])

def encodeStatus (message : Message) (kind : Nat) : Option Int :=
  if kind = 2 then do
    let status ← parseNumber (message.get "status")
    guard (¬ (0 < status ∨ status < -2 ^ 31))
    pure status
  else do
    guard (message.contains "status" = false)
    pure 0

/-- The envelope of a message and the size that was computed for it. -/
def envelopeOf (message : Message) : Option (Nat × Envelope) := do
  guard (message ≠ ∅ ∧ message.size ≤ kMaxFields ∧ message.get "v" = "1")
  guard ((message.toList.all fun field => validField field.1 field.2) = true)
  let method := message.get "method"
  guard (method ≠ "" ∧ method.utf8ByteSize ≤ 128)
  let kind := kindOf method
  let correlation ← parseNumber (message.get "id")
  guard (¬ (correlation < 0 ∨ kind ≠ 3 ∧ correlation = 0 ∨ kind = 3 ∧ correlation ≠ 0))
  let status ← encodeStatus message kind
  let (size, fields) ← message.toList.foldlM addField (29 + method.utf8ByteSize, [])
  pure (size, ⟨1, kind, correlation.toNat, method, status, fields⟩)

/-- The frame of a message, with its length in front; empty for a message that has none. -/
def encode (message : Message) : List UInt8 :=
  match envelopeOf message with
  | none => []
  | some (size, envelope) =>
    match envelope.write [] with
    | none => []
    | some body => if body.length = size then bigEndian 4 size ++ body else []

/-! ### Decode -/

def headOf (envelope : Envelope) : Message :=
  let head := Message.of
    [("v", "1"), ("id", toString envelope.correlation), ("method", envelope.method)]
  if envelope.kind = 2 then head.insert "status" (toString envelope.status) else head

def emplace (message : Message) (field : Field) : Option Message :=
  if !validField field.key field.value || field.key == "status" || message.contains field.key then
    none
  else some (message.insert field.key field.value)

/-- What `Decode` demands of the kind of an envelope. -/
def kindFits (envelope : Envelope) : Bool :=
  if envelope.kind = 1 then
    envelope.correlation != 0 && envelope.status == 0 && envelope.method != "reply" &&
      envelope.method != "event"
  else if envelope.kind = 2 then
    envelope.correlation != 0 && envelope.method == "reply" && decide (envelope.status ≤ 0)
  else if envelope.kind = 3 then
    envelope.correlation == 0 && envelope.method == "event" && envelope.status == 0
  else false

def messageOf (envelope : Envelope) : Option Message := do
  guard (envelope.version = 1 ∧ envelope.method ≠ "" ∧ (envelope.correlation : Int) ≤ int64Max ∧
    envelope.fields.length ≤ kMaxFields - (if envelope.kind = 2 then 4 else 3))
  guard (kindFits envelope = true)
  envelope.fields.foldlM emplace (headOf envelope)

/-- The envelope that fills a buffer, if there is one. -/
def envelopeIn (b : Buffer) : Option Envelope :=
  match Envelope.read b ⟨0, 0⟩ with
  | (some envelope, c) => if envelope.valid && c.position == b.size then some envelope else none
  | (none, _) => none

def decode (b : Buffer) : Option Message := do
  guard (29 ≤ b.size ∧ b.size ≤ kMaxFrameSize)
  let envelope ← envelopeIn b
  messageOf envelope

/-- How far `decode` looks: one past the last octet that it reads. -/
def touched (b : Buffer) : Nat :=
  if 29 ≤ b.size ∧ b.size ≤ kMaxFrameSize then (Envelope.read b ⟨0, 0⟩).2.touched else 0

end Consent.Wire
