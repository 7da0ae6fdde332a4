import Consent.Protocol.Wire

/-!
The generator of wire records, `tools/parcel_codegen.py`: which schemas it accepts, what
layout it computes for their records, and the classes that it generates from them.

A schema is what the JSON parser returns. A generated class is modelled by the type of its
objects with its `Valid`, `WriteToParcel` and `ReadFromParcel`; an exception is `none`, and
leaves the object that it was thrown for as it was.
-/
namespace Consent.Generator
open Octets (Reader bigEndian)
open Wire (put validString writeString readString)

/-! ### Schemas -/

/-- A JSON value; the value of a number with a fraction is never looked at. -/
inductive Json where
  | null
  | bool (value : Bool)
  | int (value : Int)
  | float
  | text (value : String)
  | list (items : List Json)
  | dict (entries : List (String × Json))

namespace Json

def isDict : Json → Bool
  | .dict _ => true
  | _ => false

def keys : Json → List String
  | .dict entries => entries.map Prod.fst
  | _ => []

/-- `get` with a default for a missing key. -/
def getD (json : Json) (key : String) (default : Json) : Json :=
  match json with
  | .dict entries => (entries.lookup key).getD default
  | _ => default

def get (json : Json) (key : String) : Json := json.getD key .null

def items : Json → List Json
  | .list items => items
  | _ => []

def string : Json → String
  | .text value => value
  | _ => ""

def number : Json → Nat
  | .int value => value.toNat
  | _ => 0

/-- A list of this many entries. -/
def isList (json : Json) (least most : Nat) : Bool :=
  match json with
  | .list items => decide (least ≤ items.length ∧ items.length ≤ most)
  | _ => false

/-- A dictionary with exactly these keys. -/
def hasKeys (json : Json) (expected : List String) : Bool :=
  json.isDict && json.keys.all (expected.contains ·) && expected.all (json.keys.contains ·)

end Json

def reservedWords : List String :=
  ["alignas", "alignof", "and", "and_eq", "asm", "atomic_cancel", "atomic_commit",
   "atomic_noexcept", "auto", "bitand", "bitor", "bool", "break", "case", "catch", "char",
   "char16_t", "char32_t", "class", "compl", "concept", "const", "constexpr", "const_cast",
   "continue", "co_await", "co_return", "co_yield", "decltype", "default", "delete", "do",
   "double", "dynamic_cast", "else", "enum", "explicit", "export", "extern", "false", "float",
   "for", "friend", "goto", "if", "import", "inline", "int", "long", "module", "mutable",
   "namespace", "new", "noexcept", "not", "not_eq", "nullptr", "operator", "or", "or_eq",
   "private", "protected", "public", "register", "reinterpret_cast", "requires", "return",
   "short", "signed", "sizeof", "static", "static_assert", "static_cast", "struct", "switch",
   "synchronized", "template", "this", "thread_local", "throw", "true", "try", "typedef",
   "typeid", "typename", "union", "unsigned", "using", "virtual", "void", "volatile",
   "wchar_t", "while", "xor", "xor_eq", "final", "override", "std", "tizen_base", "Reader",
   "Writer", "Valid", "ValidString", "WriteToParcel", "ReadFromParcel", "uint32_t", "int32_t",
   "uint64_t"]

def isUpper (c : Char) : Bool := decide ('A' ≤ c ∧ c ≤ 'Z')

def isLower (c : Char) : Bool := decide ('a' ≤ c ∧ c ≤ 'z')

def isWord (c : Char) : Bool := isUpper c || isLower c || decide ('0' ≤ c ∧ c ≤ '9') || c == '_'

/-- Two underscores in a row. -/
def hasUnderscores : List Char → Bool
  | '_' :: '_' :: _ => true
  | _ :: rest => hasUnderscores rest
  | [] => false

def identifierText (value : String) : Bool :=
  match value.toList with
  | first :: rest =>
    (isUpper first || isLower first) && rest.all isWord && decide (rest.length ≤ 63) &&
      !hasUnderscores (first :: rest) && !reservedWords.contains value
  | [] => false

def identifier : Json → Bool
  | .text value => identifierText value
  | _ => false

/-- An integer, which a Boolean is not, between bounds. -/
def integer (value : Json) (minimum maximum : Int) : Bool :=
  match value with
  | .int value => decide (minimum ≤ value ∧ value ≤ maximum)
  | _ => false

/-- The parts of a text between double colons. -/
def splitColons (part : List Char) : List Char → List String
  | ':' :: ':' :: rest => String.ofList part.reverse :: splitColons [] rest
  | c :: rest => splitColons (c :: part) rest
  | [] => [String.ofList part.reverse]

/-! ### Layouts -/

inductive Numeric where
  | u32 | i32 | u64
  deriving DecidableEq

namespace Numeric

def ofKind (kind : String) : Option Numeric :=
  if kind = "u32" then some .u32
  else if kind = "i32" then some .i32
  else if kind = "u64" then some .u64
  else none

def lowest : Numeric → Int
  | .i32 => -2 ^ 31
  | _ => 0

def highest : Numeric → Int
  | .u32 => 2 ^ 32 - 1
  | .i32 => 2 ^ 31 - 1
  | .u64 => 2 ^ 64 - 1

def width : Numeric → Nat
  | .u64 => 8
  | _ => 4

end Numeric

structure Layout where
  minimum : Nat
  maximum : Nat
  fixed : Nat
  heap : Nat
  depth : Nat
  deriving DecidableEq

def require (condition : Bool) (message : String) : Except String Unit :=
  if condition then pure () else throw message

/-- What a field of a kind adds to the layout of its record, and the keys that it may have. -/
def addKind (known : List (String × Layout)) (layout : Layout) (field : Json) (kind : String) :
    Except String (Layout × List String) :=
  match Numeric.ofKind kind with
  | some numeric => do
    require (integer (field.getD "default" (.int 0)) numeric.lowest numeric.highest)
      "numeric default outside type bounds"
    pure ({ layout with
      minimum := layout.minimum + numeric.width
      maximum := layout.maximum + numeric.width
      fixed := layout.fixed + 8 }, ["name", "type", "default"])
  | none =>
    if kind = "string" then do
      require (integer (field.get "max_bytes") 1 65536) "string requires max_bytes in 1..65536"
      let most := (field.get "max_bytes").number
      require (integer (field.getD "min_bytes" (.int 0)) 0 most) "invalid string min_bytes"
      let least := (field.getD "min_bytes" (.int 0)).number
      pure ({ layout with
        minimum := layout.minimum + (5 + least)
        maximum := layout.maximum + (5 + most)
        fixed := layout.fixed + 32
        heap := layout.heap + (most + 1) }, ["name", "type", "min_bytes", "max_bytes"])
    else if kind = "array" then
      match field.get "element" with
      | .text element =>
        match known.lookup element with
        | some child => do
          require (integer (field.get "max_count") 1 4096) "array requires max_count in 1..4096"
          let most := (field.get "max_count").number
          pure ({
            minimum := layout.minimum + 4
            maximum := layout.maximum + (4 + most * child.maximum)
            fixed := layout.fixed + 24
            heap := layout.heap + most * (child.fixed + child.heap)
            depth := max layout.depth (child.depth + 1) }, ["name", "type", "element", "max_count"])
        | none => throw "array element must be an earlier record"
      | _ => throw "array element must be an earlier record"
    else
      match known.lookup kind with
      | some child =>
        pure ({
          minimum := layout.minimum + child.minimum
          maximum := layout.maximum + child.maximum
          fixed := layout.fixed + child.fixed
          heap := layout.heap + child.heap
          depth := max layout.depth (child.depth + 1) }, ["name", "type"])
      | none => throw "unknown, recursive or forward field type"

/-- One turn of the loop over the fields of a record, with the names that were seen. -/
def validateField (known : List (String × Layout)) (state : List String × Layout) (field : Json) :
    Except String (List String × Layout) := do
  require field.isDict "field must be an object"
  let fname := field.get "name"
  require (identifier fname && (fname.string.toList.head?.any isLower) &&
    !state.1.contains fname.string) "invalid or duplicate field name"
  match field.get "type" with
  | .text kind =>
    let (layout, allowed) ← addKind known state.2 field kind
    require (field.keys.all (allowed.contains ·)) "unknown field constraint"
    pure (state.1 ++ [fname.string], layout)
  | _ => throw "field type must be a string"

def validateRecord (known : List (String × Layout)) (record : Json) :
    Except String (List (String × Layout)) := do
  require (record.hasKeys ["name", "fields"]) "record requires only name and fields"
  let name := record.get "name"
  require (identifier name && (name.string.toList.head?.any isUpper) &&
    !(known.map Prod.fst).contains name.string) "invalid or duplicate record name"
  require ((record.get "fields").isList 1 64) "record fields must contain 1..64 entries"
  let (_, layout) ←
    (record.get "fields").items.foldlM (validateField known) ([], ⟨0, 0, 16, 0, 1⟩)
  require (decide (layout.depth ≤ 16 ∧ layout.minimum ≤ 65536 ∧ layout.fixed ≤ 65536 ∧
    layout.maximum ≤ 16 * 1024 * 1024 ∧ layout.heap ≤ 16 * 1024 * 1024))
    "transitive record depth, wire size or layout exceeds limits"
  pure (known ++ [(name.string, layout)])

section

-- whether this is the one licence object that the generator supports
variable (licensed : Json → Bool)

/-- The layouts of the records of an accepted schema. -/
def validate (schema : Json) : Except String (List (String × Layout)) := do
  require (schema.hasKeys ["license", "namespace", "records"])
    "schema requires only license, namespace and records"
  require (licensed (schema.get "license"))
    "schema requires the complete supported Apache-2.0 notice"
  match schema.get "namespace" with
  | .text name =>
    require ((splitColons [] name.toList).all identifierText) "invalid namespace"
    require ((schema.get "records").isList 1 64) "records must contain 1..64 entries"
    (schema.get "records").items.foldlM validateRecord []
  | _ => throw "invalid namespace"

end

/-! ### The generated code -/

/-- A C++ type whose objects are written to a parcel and read from one. -/
structure Codec where
  Carrier : Type
  valid : Carrier → Bool
  write : Carrier → List UInt8 → Option (List UInt8)
  read : Reader Carrier

namespace Codec

def u32 : Codec where
  Carrier := UInt32
  valid _ := true
  write value := put (bigEndian 4 value.toNat)
  read := do
    let value ← Octets.number 4
    pure (UInt32.ofNat value)

def i32 : Codec where
  Carrier := Int32
  valid _ := true
  write value := put (bigEndian 4 value.toUInt32.toNat)
  read := do
    let value ← Octets.number 4
    pure (UInt32.ofNat value).toInt32

def u64 : Codec where
  Carrier := UInt64
  valid _ := true
  write value := put (bigEndian 8 value.toNat)
  read := do
    let value ← Octets.number 8
    pure (UInt64.ofNat value)

/-- The shortest length is left to `Valid`. -/
def text (least most : Nat) : Codec where
  Carrier := String
  valid value := validString value most && !decide (value.utf8ByteSize < least)
  write value := writeString value most
  read := readString most

/-- The count of an array, once `most` and the rest of the parcel allow it. Then the array is
resized to that count. -/
def readCount (most minimum : Nat) : Reader Nat := do
  let count ← Octets.number 4
  Octets.check (decide (count ≤ most))
  Octets.enough count minimum
  pure count

def array (element : Codec) (most minimum : Nat) : Codec where
  Carrier := List element.Carrier
  valid items := decide (items.length ≤ most) && items.all element.valid
  write items out := do
    let out ← put (bigEndian 4 items.length) out
    items.foldlM (fun out item => element.write item out) out
  read := do
    let count ← readCount most minimum
    Octets.replicate element.read count

/-- An object with these members. -/
def Tuple : List Codec → Type
  | [] => Unit
  | member :: rest => member.Carrier × Tuple rest

def validAll : (members : List Codec) → Tuple members → Bool
  | [], _ => true
  | member :: rest, (value, values) => member.valid value && validAll rest values

def writeAll : (members : List Codec) → Tuple members → List UInt8 → Option (List UInt8)
  | [], _, out => some out
  | member :: rest, (value, values), out => do
    let out ← member.write value out
    writeAll rest values out

def readAll : (members : List Codec) → Reader (Tuple members)
  | [] => pure ()
  | member :: rest => do
    let value ← member.read
    let values ← readAll rest
    pure (value, values)

/-- The class of a record, from its members in the order of the schema. -/
def record (members : List Codec) : Codec where
  Carrier := Tuple members
  valid := validAll members
  write values out := if validAll members values then writeAll members values out else none
  read := do
    let decoded ← readAll members
    Octets.check (validAll members decoded)
    pure decoded

end Codec

def Numeric.codec : Numeric → Codec
  | .u32 => .u32
  | .i32 => .i32
  | .u64 => .u64

/-- The member of a field; there is none where its type has no class. -/
def emitField (layouts : List (String × Layout)) (classes : List (String × Codec)) (field : Json) :
    Option Codec :=
  let kind := (field.get "type").string
  match Numeric.ofKind kind with
  | some numeric => some numeric.codec
  | none =>
    if kind = "string" then
      some (.text (field.getD "min_bytes" (.int 0)).number (field.get "max_bytes").number)
    else if kind = "array" then
      let element := (field.get "element").string
      (classes.lookup element).bind fun codec =>
        (layouts.lookup element).map fun layout =>
          codec.array (field.get "max_count").number layout.minimum
    else classes.lookup kind

def emitRecord (layouts : List (String × Layout)) (classes : List (String × Codec)) (record : Json) :
    Option (List (String × Codec)) :=
  ((record.get "fields").items.mapM (emitField layouts classes)).map fun members =>
    classes ++ [((record.get "name").string, .record members)]

/-- The classes of a schema with these layouts; a class sees the classes before it. -/
def generate (layouts : List (String × Layout)) (schema : Json) : Option (List (String × Codec)) :=
  (schema.get "records").items.foldlM (emitRecord layouts) []

end Consent.Generator
