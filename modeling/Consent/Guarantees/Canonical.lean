import Consent.Protocol.Canonical
import Consent.Repository.Packing

/-!
The canonical texts are injective. Each of them is made of parts, a part is a length in
decimal digits, a colon and the octets, and no part begins with another one; so a text of
parts is read in one way only, whatever digits and colons its values hold.
-/
namespace Consent.RegistryText
open Wire (octets)
open Repository (Failure kRegistryLimit)

/-! ### Parts -/

theorem octets_toString_inj {m n : Nat} (same : octets (toString m) = octets (toString n)) : m = n :=
  Nat.repr_inj.mp (Wire.octets_inj same)

/-- A text begins with one part only. -/
theorem part_unique {a b left right : Text} (same : part a ++ left = part b ++ right) :
    a = b ∧ left = right := by
  rw [part, part, List.append_assoc, List.append_assoc, List.cons_append, List.cons_append] at same
  have clean : ∀ {n : Nat}, ∀ o ∈ octets (toString n), o ≠ colon := by
    rintro n o member rfl
    exact colon_not_digit n member
  obtain ⟨lengths, texts⟩ := Codes.split_unique clean clean same
  exact List.append_inj texts (octets_toString_inj lengths)

theorem parts_injective : Function.Injective parts := by
  refine Codes.injective_of_parts (fun field => part field.1 ++ part field.2) ?_
    (fun field => by simp [part_ne_nil]) rfl fun field rest => by simp [parts]
  intro a b left right same
  rw [List.append_assoc, List.append_assoc] at same
  obtain ⟨keys, same⟩ := part_unique same
  obtain ⟨values, same⟩ := part_unique same
  exact ⟨Prod.ext keys values, same⟩

theorem pack_injective : Function.Injective pack := by
  intro a b same
  rw [pack_eq, pack_eq] at same
  exact Std.ExtTreeMap.toList_inj.mp (parts_injective same)

/-! ### Unpack halts -/

/-- The loop of `Unpack` for at most so many turns. -/
def unpackTurns : Nat → Text → Fields → Option (Except Failure Fields)
  | _, [], fields => some (.ok fields)
  | 0, _ :: _, _ => none
  | turns + 1, octet :: text, fields =>
    match next (octet :: text) with
    | .error e => some (.error e)
    | .ok (key, rest) =>
      match next rest with
      | .error e => some (.error e)
      | .ok (item, rest) =>
        match require (key ∉ fields) .storage "duplicate stored key" with
        | .error e => some (.error e)
        | .ok () => unpackTurns turns rest (fields.insert key item)

theorem next_shorter {text value rest : Text} (read : next text = .ok (value, rest)) :
    rest.length < text.length := by
  obtain ⟨_, found, read⟩ := Except.of_bind_ok read
  obtain ⟨length, _, read⟩ := Except.of_bind_ok read
  obtain ⟨_, _, read⟩ := Except.of_bind_ok read
  cases read
  have some : 0 < text.length := List.length_pos_of_mem (of_require found).1
  rw [List.length_drop, List.length_drop]
  omega

theorem unpackTurns_eq {turns : Nat} {text : Text} (fields : Fields) (enough : text.length ≤ turns) :
    unpackTurns turns text fields = some (unpackLoop turns text fields) := by
  induction turns generalizing text fields with
  | zero =>
    cases text with
    | nil => rfl
    | cons octet text => simp at enough
  | succ turns ih =>
    cases text with
    | nil => rfl
    | cons octet text =>
      simp only [unpackTurns, unpackLoop, bind, Except.bind]
      rcases first : next (octet :: text) with _ | ⟨key, rest⟩
      · rfl
      have shorter := next_shorter first
      dsimp only
      rcases second : next rest with _ | ⟨item, rest'⟩
      · rfl
      have shorter' := next_shorter second
      dsimp only
      rcases require (key ∉ fields) .storage "duplicate stored key" with _ | _
      · rfl
      dsimp only
      apply ih
      omega

end Consent.RegistryText

namespace Consent.Canonical
open Wire (octets)
open RegistryText (Text Fields part parts)

/-! ### Cached replies and scopes -/

/-- The fields that make a difference. -/
def kept (message : Fields) : Fields := message.filter fun key _ => !ignored.contains key

theorem cacheKey_eq (message : Fields) : cacheKey message = parts (kept message).toList := by
  have loop : ∀ (fields : List (Text × Text)) (key : Text),
      fields.foldl (fun key field =>
        if ignored.contains field.1 then key else key ++ part field.1 ++ part field.2) key =
      key ++ parts (fields.filter fun field => !ignored.contains field.1) := by
    intro fields
    induction fields with
    | nil => simp [parts]
    | cons field rest ih =>
      intro key
      rw [List.foldl_cons, ih]
      by_cases skipped : field.1 ∈ ignored <;> simp [skipped, parts]
  rw [cacheKey, loop, List.nil_append, kept, Std.ExtTreeMap.toList_filter]

theorem cacheKey_eq_iff (a b : Fields) : cacheKey a = cacheKey b ↔ kept a = kept b := by
  rw [cacheKey_eq, cacheKey_eq]
  constructor
  · intro same
    exact Std.ExtTreeMap.toList_inj.mp (RegistryText.parts_injective same)
  · intro same
    rw [same]

theorem scopeInput_injective : Function.Injective scopeInput := by
  intro a b same
  simp only [scopeInput, List.foldl_cons, List.foldl_nil, List.nil_append, List.append_assoc] at same
  obtain ⟨holders, same⟩ := RegistryText.part_unique same
  obtain ⟨instances, same⟩ := RegistryText.part_unique same
  obtain ⟨subjects, same⟩ := RegistryText.part_unique same
  obtain ⟨profiles, same⟩ := RegistryText.part_unique same
  have flags : a.reconcile = b.reconcile := by
    have flag := Wire.octets_inj same
    cases left : a.reconcile <;> cases right : b.reconcile <;> simp_all
  cases a
  cases b
  simp_all

/-! ### Cursors -/

/-- The four fields have their lengths and are hexadecimal. -/
def Cursor.WellFormed (c : Cursor) : Prop :=
  hex c.incarnation kIdentitySize = true ∧ hex c.scope kScopeSize = true ∧
    hex c.last kIdentitySize = true ∧ hex c.upper kIdentitySize = true

theorem length_of_hex {value : Text} {size : Nat} (h : hex value size = true) : value.length = size := by
  simp only [hex, Bool.and_eq_true, beq_iff_eq] at h
  exact h.1

/-- The fields with a colon between them. -/
def joined : List Text → Text
  | [] => []
  | [field] => field
  | field :: rest => field ++ colon :: joined rest

theorem joined_cons (field : Text) {rest : List Text} (filled : rest ≠ []) :
    joined (field :: rest) = field ++ colon :: joined rest := by
  cases rest with
  | nil => exact absurd rfl filled
  | cons next more => rfl

theorem take_hex {text field rest : Text} {length : Nat} (split : text = field ++ rest)
    (isHex : hex field length = true) : text.take length = field := by
  rw [split, ← length_of_hex isHex, List.take_left]

/-- The reader takes exactly the joined fields. -/
theorem readFields_iff {token : Text} {lengths : List Nat} {offset finish : Nat} {fields : List Text}
    (inside : offset ≤ token.length) :
    readFields token lengths offset = some (fields, finish) ↔
      List.Forall₂ (fun field length => hex field length = true) fields lengths ∧
        finish = offset + (joined fields).length ∧ ∃ rest, token.drop offset = joined fields ++ rest := by
  induction lengths generalizing offset finish fields with
  | nil =>
    rw [List.forall₂_nil_right_iff, readFields, Option.some.injEq, Prod.mk.injEq]
    constructor
    · rintro ⟨rfl, rfl⟩
      exact ⟨rfl, rfl, token.drop offset, rfl⟩
    · rintro ⟨rfl, rfl, _⟩
      exact ⟨rfl, rfl⟩
  | cons length lengths ih =>
    rw [List.forall₂_cons_right_iff]
    simp only [readFields, Option.bind_eq_bind, Option.bind_eq_some_iff, Option.guard_eq_some',
      Prod.exists]
    cases lengths with
    | nil =>
      simp only [readFields, List.forall₂_nil_right_iff, true_or, ↓reduceIte, Nat.add_zero]
      constructor
      · rintro ⟨_, isHex, _, _, _, _, same, done⟩
        cases same
        cases done
        have size := length_of_hex isHex
        refine ⟨⟨_, [], isHex, rfl, rfl⟩, by simp only [joined]; omega, ?_⟩
        exact ⟨(token.drop offset).drop length, (List.take_append_drop _ _).symm⟩
      · rintro ⟨⟨field, _, isHex, rfl, rfl⟩, rfl, rest, split⟩
        have taken := take_hex split isHex
        have size := length_of_hex isHex
        refine ⟨(), by rwa [taken], (), trivial, [], _, rfl, ?_⟩
        simp only [joined]
        rw [taken, size]
        rfl
    | cons second lengths =>
      simp only [reduceCtorEq, false_or, ↓reduceIte]
      constructor
      · rintro ⟨_, isHex, _, isColon, others, last, read, done⟩
        cases done
        have bound : offset + length < token.length := by
          obtain ⟨bound, _⟩ := List.getElem?_eq_some_iff.mp isColon
          exact bound
        obtain ⟨all, rfl, rest, split⟩ := (ih (by omega)).mp read
        have size := length_of_hex isHex
        have filled : others ≠ [] := by
          rintro rfl
          cases all
        have whole : token.drop offset =
            (token.drop offset).take length ++ (colon :: joined others ++ rest) := by
          conv => lhs; rw [← List.take_append_drop length (token.drop offset)]
          congr 1
          rw [List.drop_drop, List.drop_eq_getElem_cons bound, split]
          obtain ⟨_, found⟩ := List.getElem?_eq_some_iff.mp isColon
          rw [found]
          rfl
        refine ⟨⟨_, _, isHex, all, rfl⟩, ?_, rest, ?_⟩
        · rw [joined_cons _ filled, List.length_append, List.length_cons]
          omega
        · rw [joined_cons _ filled, List.append_assoc]
          exact whole
      · rintro ⟨⟨field, others, isHex, all, rfl⟩, rfl, rest, split⟩
        have filled : others ≠ [] := by
          rintro rfl
          cases all
        rw [joined_cons _ filled, List.append_assoc] at split
        have taken := take_hex split isHex
        have size := length_of_hex isHex
        have after : token.drop (offset + length) = colon :: (joined others ++ rest) := by
          rw [← List.drop_drop, split, ← size, List.drop_left]
          rfl
        have bound : offset + length < token.length := by
          have lengths := congrArg List.length after
          rw [List.length_drop, List.length_cons] at lengths
          omega
        refine ⟨(), by rwa [taken], (), ?_, others, _,
          (ih (by omega)).mpr ⟨all, rfl, rest, ?_⟩, ?_⟩
        · rw [← List.head?_drop, after]
          rfl
        · rw [← List.drop_drop, after]
          rfl
        · rw [taken, joined_cons _ filled, List.length_append, List.length_cons, size]
          simp only [Option.some.injEq, Prod.mk.injEq, true_and, Option.pure_def]
          omega

theorem encode_eq (c : Cursor) :
    c.encode = octets "1:" ++ joined [c.incarnation, c.scope, c.last, c.upper] := by
  simp [Cursor.encode, joined]

theorem length_encode {c : Cursor} (formed : c.WellFormed) : c.encode.length = kTokenSize := by
  obtain ⟨first, second, third, fourth⟩ := formed
  have head : (octets "1:").length = 2 := by decide
  simp only [Cursor.encode, List.length_append, List.length_singleton, length_of_hex first,
    length_of_hex second, length_of_hex third, length_of_hex fourth, head]
  rfl

/-- What is accepted is the text of the cursor that is returned. -/
theorem parse_iff (token : Text) (c : Cursor) :
    Cursor.parse token = some c ↔ c.WellFormed ∧ c.last < c.upper ∧ token = c.encode := by
  have head : (octets "1:").length = 2 := by decide
  have room : token.length = kTokenSize → 2 ≤ token.length := by
    intro length
    rw [length]
    decide
  simp only [Cursor.parse, Option.bind_eq_bind, Option.bind_eq_some_iff, Option.guard_eq_some',
    Prod.exists]
  constructor
  · rintro ⟨_, ⟨length, begins⟩, fields, finish, read, rest⟩
    obtain ⟨all, whole, left, split⟩ := (readFields_iff (room length)).mp read
    split at rest
    · rename_i incarnation scope last upper
      simp only [Option.bind_eq_some_iff, Option.guard_eq_some'] at rest
      obtain ⟨_, ⟨ends, below⟩, done⟩ := rest
      cases done
      simp only [List.forall₂_cons, List.forall₂_nil_left_iff, and_true] at all
      refine ⟨⟨all.1, all.2.1, all.2.2.1, all.2.2.2⟩, below, ?_⟩
      have empty : left = [] := by
        have lengths := congrArg List.length split
        rw [List.length_drop, List.length_append] at lengths
        exact List.length_eq_zero_iff.mp (by omega)
      rw [empty, List.append_nil] at split
      rw [encode_eq, ← split, ← begins, List.take_append_drop]
    · cases rest
  · rintro ⟨formed, below, rfl⟩
    have length := length_encode formed
    obtain ⟨first, second, third, fourth⟩ := formed
    refine ⟨(), ⟨length, by rw [encode_eq, ← head, List.take_left]⟩,
      [c.incarnation, c.scope, c.last, c.upper], c.encode.length,
      (readFields_iff (room length)).mpr ⟨?_, ?_, [], ?_⟩, ?_⟩
    · exact .cons first (.cons second (.cons third (.cons fourth .nil)))
    · rw [encode_eq, List.length_append, head]
    · rw [encode_eq, ← head, List.drop_left, List.append_nil]
    · simp [below]

end Consent.Canonical

namespace Consent.Approval
open RegistryText (Text)
open Wire (octets)

/-! ### Selections -/

/-- Every field of the message is valid. -/
def ValidFields (message : Message) : Prop :=
  ∀ key value : String, message[key]? = some value → validField key value = true

/-- A count of 1 to 16. -/
def Counted (request : Message) : Prop := 1 ≤ request.number "count" 0 ∧ request.number "count" 0 ≤ 16

namespace ValidFields

theorem insert {message : Message} (h : ValidFields message) {key value : String}
    (valid : validField key value = true) : ValidFields (message.insert key value) := by
  intro other found stored
  rw [Std.ExtTreeMap.getElem?_insert] at stored
  split at stored
  · rename_i same
    cases stored
    rwa [← Std.LawfulEqCmp.eq_of_compare same]
  · exact h other found stored

theorem erase {message : Message} (h : ValidFields message) (key : String) :
    ValidFields (message.erase key) := by
  intro other found stored
  rw [Std.ExtTreeMap.getElem?_erase] at stored
  split at stored
  · cases stored
  · exact h other found stored

/-- A value that is there is valid, and a missing one is the empty text. -/
theorem get {message : Message} (h : ValidFields message) {key : String}
    (named : validField key "" = true) : validField key (message.get key) = true := by
  rw [Message.get_eq]
  cases stored : message[key]? with
  | none => exact named
  | some value => exact h key value stored

theorem copies {message result : Message} (h : ValidFields message) (built : ValidFields result)
    {keys : List String} (named : ∀ key ∈ keys, validField key "" = true) :
    ValidFields (keys.foldl (fun fields key => fields.insert key (message.get key)) result) := by
  induction keys generalizing result with
  | nil => exact built
  | cons key rest ih =>
    exact ih (built.insert (h.get (named key (by simp)))) fun other member =>
      named other (by simp [member])

theorem context {request result : Message} (h : ValidFields request) (built : ValidFields result) :
    ValidFields (copyContext request result) := by
  unfold copyContext
  generalize kContext = keys
  induction keys generalizing result with
  | nil => exact built
  | cons key rest ih =>
    rw [List.foldl_cons]
    apply ih
    split
    · rename_i value stored
      exact built.insert (h key value stored)
    · exact built

theorem rows {request result : Message} (h : ValidFields request) (built : ValidFields result)
    {indices : List Nat} (few : ∀ index ∈ indices, index < 16) :
    ValidFields (indices.foldl (fun result index => kRow.foldl
      (fun fields key => fields.insert (row index key) (request.get (row index key))) result) result) := by
  have named : ∀ index < 16, ∀ key ∈ kRow, validField (row index key) "" = true := by
    decide
  induction indices generalizing result with
  | nil => exact built
  | cons index rest ih =>
    rw [List.foldl_cons]
    refine ih ?_ fun other member => few other (by simp [member])
    have keys : ∀ key ∈ kRow.map (row index), validField key "" = true := by
      intro key member
      obtain ⟨name, isName, rfl⟩ := List.mem_map.mp member
      exact named index (few index (by simp)) name isName
    have copied := h.copies built keys
    rwa [List.foldl_map] at copied

theorem selection {request : Message} (h : ValidFields request) :
    ValidFields (selectionFields request) := by
  have empty : ValidFields ∅ := by
    intro key value stored
    simp at stored
  unfold selectionFields
  dsimp only
  split
  · exact empty
  · rename_i few
    refine h.rows (h.copies ((h.context empty).erase _) (by decide)) ?_
    intro index member
    rw [List.mem_range] at member
    omega

end ValidFields

theorem foldl_insert_ne_empty {α : Type} (items : List α) (key value : α → String) {m : Message}
    (some : m ≠ ∅) : items.foldl (fun m item => m.insert (key item) (value item)) m ≠ ∅ := by
  induction items generalizing m with
  | nil => exact some
  | cons item rest ih =>
    rw [List.foldl_cons]
    exact ih Std.ExtTreeMap.insert_ne_empty

theorem selectionFields_ne_empty {request : Message} (counted : Counted request) :
    selectionFields request ≠ ∅ := by
  obtain ⟨low, high⟩ := counted
  have rows : ∀ (indices : List Nat) {m : Message}, m ≠ ∅ →
      indices.foldl (fun result index => kRow.foldl (fun fields key =>
        fields.insert (row index key) (request.get (row index key))) result) m ≠ ∅ := by
    intro indices
    induction indices with
    | nil => exact fun some => some
    | cons index rest ih =>
      intro m some
      rw [List.foldl_cons]
      exact ih (foldl_insert_ne_empty kRow _ _ some)
  unfold selectionFields
  dsimp only
  rw [if_neg (by omega)]
  exact rows _ Std.ExtTreeMap.insert_ne_empty

/-- The text whose digest is taken. -/
theorem selectionDigest_eq {hash : String → String} {request : Message} (valid : ValidFields request)
    (counted : Counted request) : ∃ text : String,
      selectionDigest hash request = hash text ∧
        text.toList = "consent-selection-v1\n".toList ++ packed (selectionFields request).toList := by
  have filled : (selectionFields request).isEmpty = false := by
    rw [Bool.eq_false_iff, ne_eq, Std.ExtTreeMap.isEmpty_iff]
    exact selectionFields_ne_empty counted
  have all : ((selectionFields request).toList.all fun field => validField field.1 field.2) = true := by
    rw [List.all_eq_true]
    intro field member
    exact valid.selection field.1 field.2 (Std.ExtTreeMap.mem_toList_iff_getElem?_eq_some.mp member)
  refine ⟨_, ?_, foldl_appendTo_toList _ _⟩
  simp [selectionDigest, filled, all]

theorem selectionDigest_eq_iff {hash : String → String} (injective : Function.Injective hash)
    {a b : Message} (validA : ValidFields a) (validB : ValidFields b) (countedA : Counted a)
    (countedB : Counted b) :
    selectionDigest hash a = selectionDigest hash b ↔ selectionFields a = selectionFields b := by
  obtain ⟨textA, digestA, isTextA⟩ := selectionDigest_eq validA countedA
  obtain ⟨textB, digestB, isTextB⟩ := selectionDigest_eq validB countedB
  rw [digestA, digestB, injective.eq_iff, ← String.toList_inj, isTextA, isTextB,
    List.append_cancel_left_eq, packed_injective.eq_iff, Std.ExtTreeMap.toList_inj]

end Consent.Approval

namespace Consent.Canonical
open RegistryText (Text Fields unpack unpackTurns)
open Repository (kRegistryLimit)
open Approval (ValidFields Counted selectionDigest selectionFields)
open Wire (octets)

/-- Packed maps, selections, cached requests, scopes and cursors each have their own text. -/
theorem canonical_texts_injective {sha256 : Text → String} (injective : Function.Injective sha256) :
    (∀ fields : Fields, (∀ key value : Text, fields[key]? = some value →
      key.length ≤ kRegistryLimit ∧ value.length ≤ kRegistryLimit) →
        unpack (RegistryText.pack fields) = .ok fields) ∧
    Function.Injective RegistryText.pack ∧
    (∀ text : Text, unpackTurns text.length text ∅ = some (unpack text)) ∧
    (∀ a b : Message, ValidFields a → ValidFields b → Counted a → Counted b →
      (selectionDigest (fun text => sha256 (Wire.octets text)) a =
          selectionDigest (fun text => sha256 (Wire.octets text)) b ↔
        selectionFields a = selectionFields b)) ∧
    (∀ a b : Fields, cacheKey a = cacheKey b ↔ kept a = kept b) ∧
    (∀ a b : Context, cleanupScope sha256 a = cleanupScope sha256 b ↔ a = b) ∧
    ∀ (token : Text) (c : Cursor), Cursor.parse token = some c ↔
      c.WellFormed ∧ c.last < c.upper ∧ token = c.encode := by
  refine ⟨fun fields => RegistryText.unpack_pack_of_each, RegistryText.pack_injective, ?_, ?_,
    cacheKey_eq_iff, ?_, parse_iff⟩
  · intro text
    exact RegistryText.unpackTurns_eq ∅ (le_refl _)
  · intro a b validA validB countedA countedB
    refine Approval.selectionDigest_eq_iff ?_ validA validB countedA countedB
    exact injective.comp fun _ _ same => Wire.octets_inj same
  · intro a b
    exact (injective.comp scopeInput_injective).eq_iff

theorem latin_injective : Function.Injective Wire.latin := by
  intro a b same
  have texts := String.ofList_injective same
  refine List.map_injective_iff.mpr ?_ texts
  intro x y equal
  have value : ∀ o : UInt8, (Char.ofNat o.toNat).toNat = o.toNat := by
    intro o
    have small := o.toNat_lt
    rw [Char.toNat_ofNat, if_pos (.inl (by omega))]
  dsimp only at equal
  rw [← UInt8.toNat_inj, ← value x, equal, value y]

/-- One field. -/
def sampleFields (key value : String) : Fields := (∅ : Fields).insert (octets key) (octets value)

def sampleRequest (definition : String) : Message :=
  Message.of [("count", "1"), ("r0.definition", definition)]

theorem sampleRequest_valid {definition : String}
    (valid : (∀ field ∈ (sampleRequest definition).toList, validField field.1 field.2 = true)) :
    ValidFields (sampleRequest definition) :=
  fun _ _ stored => valid (_, _) (Std.ExtTreeMap.mem_toList_iff_getElem?_eq_some.mpr stored)

/-- A cursor between two artifacts. -/
def sampleCursor (last upper : UInt8) : Cursor :=
  ⟨List.replicate 48 97, List.replicate 64 98, List.replicate 48 last, List.replicate 48 upper⟩

/-- A colon that moves from one part to the next makes a difference, the definition of a row and
the order of a cursor do, and the id of a cached request does not. -/
theorem canonical_texts_in_sample :
    unpack (RegistryText.pack (sampleFields "1:" "1")) = .ok (sampleFields "1:" "1") ∧
    RegistryText.pack (sampleFields "1:" "1") ≠ RegistryText.pack (sampleFields "1" ":1") ∧
    unpackTurns 7 (octets "2:1:1:1") ∅ = some (.ok (sampleFields "1:" "1")) ∧
    selectionDigest (fun text => Wire.latin (octets text)) (sampleRequest "a") ≠
      selectionDigest (fun text => Wire.latin (octets text)) (sampleRequest "b") ∧
    cacheKey (sampleFields "id" "1") = cacheKey (sampleFields "id" "2") ∧
    cacheKey (sampleFields "method" "1") ≠ cacheKey (sampleFields "method" "2") ∧
    cleanupScope Wire.latin ⟨[49, 58], [49], [], [], true⟩ ≠
      cleanupScope Wire.latin ⟨[49], [58, 49], [], [], true⟩ ∧
    Cursor.parse (sampleCursor 49 50).encode = some (sampleCursor 49 50) ∧
    Cursor.parse (sampleCursor 50 49).encode ≠ some (sampleCursor 50 49) := by
  obtain ⟨unpacks, packs, turns, selections, keys, scopes, cursors⟩ :=
    canonical_texts_injective latin_injective
  have one : ∀ key value : Text, (sampleFields "1:" "1")[key]? = some value →
      key.length ≤ kRegistryLimit ∧ value.length ≤ kRegistryLimit := by
    intro key value stored
    rw [sampleFields, Std.ExtTreeMap.getElem?_insert] at stored
    split at stored
    · rename_i same
      cases stored
      rw [← Std.LawfulEqCmp.eq_of_compare same]
      decide
    · simp at stored
  refine ⟨unpacks _ one, packs.ne ?_, ?_, ?_, (keys _ _).mpr ?_, (keys _ _).not.mpr ?_, ?_,
    (cursors _ _).mpr ?_, fun read => absurd ((cursors _ _).mp read).2.1 (by decide)⟩
  · decide +kernel
  · rw [show octets "2:1:1:1" = RegistryText.pack (sampleFields "1:" "1") by decide +kernel]
    exact (turns _).trans (congrArg some (unpacks _ one))
  · rw [ne_eq, selections _ _ (sampleRequest_valid (by decide +kernel))
      (sampleRequest_valid (by decide +kernel)) (by unfold Counted; decide +kernel)
      (by unfold Counted; decide +kernel)]
    decide +kernel
  · decide +kernel
  · decide +kernel
  · rw [ne_eq, scopes]
    decide
  · unfold Cursor.WellFormed
    decide +kernel

end Consent.Canonical
