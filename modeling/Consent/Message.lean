import Consent.Library.Codes

/-!
Messages of the consent protocol and the small readers shared by its components
(`common/message.hh`). A `Message` is the source's `std::map<std::string,
std::string>`: finite, extensional and iterated in key order. Decoded fields are
UTF-8 (`ValidField`), so a field is a `String`; `size()` counts its octets.
-/
namespace Consent

abbrev Message := Std.ExtTreeMap String String compare

/-- The failure codes of the daemon: `-errno` values and the module's own
`CONSENT_ERROR_*`. Success is the absence of a code; `authority` is any other
code of the offline installation authority. -/
inductive Status where
  | einval | eacces | enoent | estale | ebusy | enospc | enosys | etimedout | e2big
  | storage | conflict | inactive | closed
  | authority (code : Int)
  deriving DecidableEq, Repr

def kMaxFrameSize : Nat := 65536
def kMaxFields : Nat := 256
def kMaxValueSize : Nat := 8192
def kMaxRequirements : Nat := 16

namespace Message

/-- `Get` without a fallback; with one it is the map's own `getD`. -/
def get (message : Message) (key : String) : String := message.getD key ""

/-- The message with the listed fields, later ones overwriting earlier ones. -/
def of (fields : List (String × String)) : Message :=
  fields.foldl (fun message field => message.insert field.1 field.2) ∅

/-- Copy the named fields that `source` has, keeping those already present. -/
def insertFrom (message source : Message) (keys : List String) : Message :=
  keys.foldl (fun result key =>
    match source[key]? with
    | some value => result.insertIfNew key value
    | none => result) message

/-- `insert(source.begin(), source.end())`: fields already present stay. -/
def insertAll (message source : Message) : Message :=
  source.toList.foldl (fun result field => result.insertIfNew field.1 field.2) message

def eraseAll (message : Message) (keys : List String) : Message :=
  keys.foldl (fun result key => result.erase key) message

end Message

/-- Field `name` of requirement row `index`: `"r" + std::to_string(index) + "." + name`. -/
def row (index : Nat) (name : String) : String := "r" ++ toString index ++ "." ++ name

/-- The private flag that row `index` was displayed by the current prompt. -/
def promptRow (index : Nat) : String := "_prompt_row." ++ toString index

def starts (value head : String) : Bool := head.toList.isPrefixOf value.toList

def asciiDigit (c : Char) : Bool := '0' ≤ c && c ≤ '9'

def asciiAlnum (c : Char) : Bool :=
  asciiDigit c || ('a' ≤ c && c ≤ 'z') || ('A' ≤ c && c ≤ 'Z')

/-- The digit loop of `ParseNumber`: unsigned, with the check before each step. -/
def parseDigits (maximum : Nat) : List Char → Nat → Option Nat
  | [], number => some number
  | c :: rest, number =>
    if asciiDigit c then
      let digit := c.toNat - '0'.toNat
      if number > (maximum - digit) / 10 then none
      else parseDigits maximum rest (number * 10 + digit)
    else none

def int64Max : Int := 2 ^ 63 - 1
def int32Max : Int := 2 ^ 31 - 1

def parseNumber (value : String) : Option Int :=
  match value.toList with
  | [] => none
  | '-' :: rest =>
    if rest.isEmpty then none else (parseDigits (2 ^ 63) rest 0).map fun number => -(number : Int)
  | digits => (parseDigits (2 ^ 63 - 1) digits 0).map fun number => (number : Int)

/-- `consent::Number`, which never fails. -/
def Message.number (message : Message) (key : String) (fallback : Int) : Int :=
  (parseNumber (message.get key)).getD fallback

def validField (key value : String) : Bool :=
  !key.isEmpty && key.utf8ByteSize ≤ 128 && value.utf8ByteSize ≤ kMaxValueSize &&
    !value.toList.contains '\x00' &&
    key.toList.all fun c => asciiAlnum c || c == '_' || c == '.' || c == '-'

/-- One length-prefixed string of `Append`. -/
def appendTo (output value : String) : String :=
  output ++ toString value.utf8ByteSize ++ ":" ++ value

/-- The canonical encoding of a message, in key order. -/
def pack (message : Message) : String :=
  message.toList.foldl (fun output field => appendTo (appendTo output field.1) field.2) ""

theorem guard_bind_eq_some {α : Type} {p : Prop} [Decidable p] {x : Option α} {a : α} :
    (guard p >>= fun _ => x) = some a ↔ p ∧ x = some a := by
  by_cases holds : p
  · simp [guard, holds]
  · simp [guard, holds]

theorem utf8ByteSize_le (value : String) : value.utf8ByteSize ≤ 4 * value.toList.length := by
  rw [← String.utf8Len_toList]
  induction value.toList with
  | nil => simp
  | cons c rest ih =>
    have := c.utf8Size_le_four
    rw [String.utf8Len_cons, List.length_cons]
    omega

/-! ### Field names -/

theorem row_toList (index : Nat) (name : String) :
    (row index name).toList = 'r' :: ((toString index).toList ++ '.' :: name.toList) := by
  simp [row]

@[simp] theorem row_inj {i j : Nat} {a b : String} : row i a = row j b ↔ i = j ∧ a = b := by
  constructor
  · intro same
    have lists := congrArg String.toList same
    rw [row_toList, row_toList, List.cons.injEq] at lists
    obtain ⟨indices, names⟩ := Codes.number_unique (by decide) lists.2
    exact ⟨indices, String.toList_inj.mp names⟩
  · rintro ⟨rfl, rfl⟩
    rfl

/-- A row field is no other field: those have no dot in their names. -/
theorem row_ne {index : Nat} {name other : String} (h : '.' ∉ other.toList) :
    row index name ≠ other := by
  rintro rfl
  exact h (by simp [row_toList])

namespace Message

@[simp] theorem get_insert_self (m : Message) (key value : String) :
    get (m.insert key value) key = value := by
  simp [get]

theorem get_insert (m : Message) (key value other : String) :
    get (m.insert key value) other = if key = other then value else m.get other := by
  simp [get, Std.ExtTreeMap.getD_insert]

theorem get_insert_of_ne (m : Message) {key other : String} (value : String) (h : key ≠ other) :
    get (m.insert key value) other = m.get other := by
  simp [get_insert, h]

theorem get_eraseAll_of_notMem (m : Message) {keys : List String} {key : String}
    (h : key ∉ keys) : (m.eraseAll keys).get key = m.get key := by
  induction keys generalizing m with
  | nil => rfl
  | cons first rest ih =>
    simp only [List.mem_cons, not_or] at h
    have step := ih (m.erase first) h.2
    simp only [eraseAll, List.foldl_cons] at step ⊢
    rw [step]
    simp [get, Std.ExtTreeMap.getD_erase, Ne.symm h.1]

/-- Fields inserted under other names do not matter. -/
theorem get_foldl_insert_of_ne {α : Type} (items : List α) (key value : α → String)
    (m : Message) {other : String} (h : ∀ item ∈ items, key item ≠ other) :
    get (items.foldl (fun result item => result.insert (key item) (value item)) m) other =
      m.get other := by
  induction items generalizing m with
  | nil => rfl
  | cons item rest ih =>
    rw [List.foldl_cons, ih _ fun next member => h next (by simp [member])]
    exact get_insert_of_ne m (value item) (h item (by simp))

/-- The last of the inserted fields of a name, when the name fixes the value. -/
theorem get_foldl_insert_of_mem {α : Type} (items : List α) (key value : α → String)
    (m : Message) {item : α} (member : item ∈ items)
    (functional : ∀ other ∈ items, key other = key item → value other = value item) :
    get (items.foldl (fun result item => result.insert (key item) (value item)) m) (key item) =
      value item := by
  induction items generalizing m item with
  | nil => simp at member
  | cons first rest ih =>
    rw [List.foldl_cons]
    have inner := fun other (inside : other ∈ rest) => functional other (by simp [inside])
    by_cases later : item ∈ rest
    · exact ih _ later inner
    · by_cases again : ∃ other ∈ rest, key other = key item
      · obtain ⟨other, inside, same⟩ := again
        rw [← same, ← inner other inside same]
        exact ih _ inside fun next nested equal =>
          (inner next nested (equal.trans same)).trans (inner other inside same).symm
      · have here : item = first := by simpa [later] using member
        rw [get_foldl_insert_of_ne rest key value _ fun other inside equal =>
          again ⟨other, inside, equal⟩, here, get_insert_self]

theorem get_eq (m : Message) (key : String) : m.get key = m[key]?.getD "" := by
  simp [get, Std.ExtTreeMap.getD_eq_getD_getElem?]

theorem getElem?_insertIfNew_self (m : Message) (key value : String) :
    (m.insertIfNew key value)[key]? = m[key]?.or (some value) := by
  rw [Std.ExtTreeMap.getElem?_insertIfNew]
  by_cases present : key ∈ m
  · simp [present]
  · simp [present]

/-- Copied fields do not replace those that are present. -/
theorem getElem?_insertFrom (m source : Message) (keys : List String) (key : String) :
    (m.insertFrom source keys)[key]? = m[key]?.or (if key ∈ keys then source[key]? else none) := by
  induction keys generalizing m with
  | nil => simp [insertFrom]
  | cons first rest ih =>
    simp only [insertFrom, List.foldl_cons] at ih ⊢
    rw [ih]
    rcases copied : source[first]? with _ | value
    · by_cases same : key = first
      · subst same
        simp [copied]
      · simp [same]
    · by_cases same : first = key
      · subst same
        dsimp only
        rw [getElem?_insertIfNew_self]
        rcases m[first]? with _ | old <;> simp [copied]
      · simp [Std.ExtTreeMap.getElem?_insertIfNew, same, Ne.symm same]

/-- `insert(begin, end)` adds what is missing. -/
theorem getElem?_insertAll (m source : Message) (key : String) :
    (m.insertAll source)[key]? = m[key]?.or source[key]? := by
  have fields : ∀ (fields : List (String × String)) (m : Message),
      (fields.foldl (fun result field => result.insertIfNew field.1 field.2) m)[key]? =
        m[key]?.or ((fields.find? fun field => field.1 == key).map Prod.snd) := by
    intro fields
    induction fields with
    | nil => simp
    | cons field rest ih =>
      intro m
      rw [List.foldl_cons, ih]
      by_cases same : field.1 = key
      · subst same
        rw [getElem?_insertIfNew_self]
        rcases m[field.1]? with _ | old <;> simp
      · rw [Std.ExtTreeMap.getElem?_insertIfNew]
        simp [same]
  rw [insertAll, fields]
  congr 1
  rcases found : source.toList.find? fun field => field.1 == key with _ | ⟨name, value⟩
  · rcases stored : source[key]? with _ | value
    · rw [found]
      rfl
    · have member := Std.ExtTreeMap.mem_toList_iff_getElem?_eq_some.mpr stored
      exact absurd (List.find?_eq_none.mp found _ member) (by simp)
  · have same : name = key := by simpa using List.find?_some found
    have member := List.mem_of_find?_eq_some found
    rw [same] at member
    rw [found, Std.ExtTreeMap.mem_toList_iff_getElem?_eq_some.mp member]
    rfl

end Message

/-! ### The canonical encoding -/

/-- The text of one length-prefixed string. -/
def lengthed (value : String) : List Char :=
  (toString value.utf8ByteSize).toList ++ ':' :: value.toList

theorem appendTo_toList (output value : String) :
    (appendTo output value).toList = output.toList ++ lengthed value := by
  simp [appendTo, lengthed]

/-- A text that starts with strings of one size starts with one string. -/
theorem append_unique {a b : String} {left right : List Char}
    (size : a.utf8ByteSize = b.utf8ByteSize) (same : a.toList ++ left = b.toList ++ right) :
    a = b ∧ left = right := by
  have rest_nil : ∀ {a b : String} {rest : List Char}, a.utf8ByteSize = b.utf8ByteSize →
      b.toList = a.toList ++ rest → rest = [] := by
    intro a b rest size longer
    have whole : b = a ++ String.ofList rest := by
      rw [← String.toList_inj, longer]
      simp
    have sizes := congrArg String.utf8ByteSize whole
    rw [String.utf8ByteSize_append] at sizes
    have zero : (String.ofList rest).utf8ByteSize = 0 := by omega
    simpa using congrArg String.toList (String.utf8ByteSize_eq_zero_iff.mp zero)
  rcases List.append_eq_append_iff.mp same with ⟨rest, longer, tail⟩ | ⟨rest, longer, tail⟩
  · obtain rfl := rest_nil size longer
    rw [List.append_nil] at longer
    exact ⟨(String.toList_inj.mp longer).symm, tail⟩
  · obtain rfl := rest_nil size.symm longer
    rw [List.append_nil] at longer
    exact ⟨String.toList_inj.mp longer, tail.symm⟩

theorem lengthed_unique {a b : String} {left right : List Char}
    (same : lengthed a ++ left = lengthed b ++ right) : a = b ∧ left = right := by
  rw [lengthed, lengthed, List.append_assoc, List.append_assoc, List.cons_append,
    List.cons_append] at same
  obtain ⟨sizes, texts⟩ := Codes.number_unique (by decide) same
  exact append_unique sizes texts

/-- The text of the fields of a message. -/
def packed : List (String × String) → List Char
  | [] => []
  | field :: rest => lengthed field.1 ++ (lengthed field.2 ++ packed rest)

theorem packed_injective : Function.Injective packed := by
  refine Codes.injective_of_parts (fun field => lengthed field.1 ++ lengthed field.2) ?_
    (fun field => by simp [lengthed]) rfl fun field rest => by simp [packed]
  intro a b left right same
  rw [List.append_assoc, List.append_assoc] at same
  obtain ⟨keys, same⟩ := lengthed_unique same
  obtain ⟨values, same⟩ := lengthed_unique same
  exact ⟨Prod.ext keys values, same⟩

/-- Fields that are appended to a text. -/
theorem foldl_appendTo_toList (fields : List (String × String)) (output : String) :
    (fields.foldl (fun output field => appendTo (appendTo output field.1) field.2) output).toList =
      output.toList ++ packed fields := by
  induction fields generalizing output with
  | nil => simp [packed]
  | cons field rest ih =>
    rw [List.foldl_cons, ih, appendTo_toList, appendTo_toList, packed]
    simp

/-- Different messages have different encodings. -/
theorem pack_injective : Function.Injective pack := by
  intro a b same
  have texts := congrArg String.toList same
  rw [pack, pack, foldl_appendTo_toList, foldl_appendTo_toList] at texts
  exact Std.ExtTreeMap.toList_inj.mp (packed_injective (by simpa using texts))

end Consent
