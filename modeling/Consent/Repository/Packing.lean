import Consent.Repository.RegistryText

/-!
`Unpack` inverts `Pack`, and decoding inverts encoding.

A part of a packed text begins with its length in decimal digits and a colon, and no digit is
a colon, so the reader finds the boundary that the writer put. Lengths and revisions are
written with `std::to_string` and read with `Integer`.
-/
namespace Consent.RegistryText
open Wire (octets latin octets_eq octets_inj fromUTF8?_eq_some)
open Repository (Failure kRegistryLimit)

theorem of_require {condition : Prop} [Decidable condition] {status : Status}
    {reason : String} {u : Unit} (h : require condition status reason = .ok u) : condition := by
  unfold require at h
  split at h
  · assumption
  · cases h

/-! ### Decimal numbers -/

theorem utf8EncodeChar_ascii {c : Char} (small : c.toNat < 128) :
    String.utf8EncodeChar c = [UInt8.ofNat c.toNat] := by
  have bound : c.val.toNat ≤ 127 := Nat.le_of_lt_succ small
  rw [String.utf8EncodeChar.eq_1]
  simp only [bound, ↓reduceIte]
  rfl

theorem octets_ascii {value : String} (ascii : ∀ c ∈ value.toList, c.toNat < 128) :
    octets value = value.toList.map fun c => UInt8.ofNat c.toNat := by
  rw [octets_eq]
  generalize value.toList = chars at ascii
  induction chars with
  | nil => rfl
  | cons c rest ih =>
    rw [List.flatMap_cons, List.map_cons, utf8EncodeChar_ascii (ascii c List.mem_cons_self),
      ih fun d member => ascii d (List.mem_cons_of_mem _ member)]
    rfl

theorem latin_octets {value : String} (ascii : ∀ c ∈ value.toList, c.toNat < 128) :
    latin (octets value) = value := by
  have chars : (value.toList.map fun c => Char.ofNat (UInt8.ofNat c.toNat).toNat) = value.toList := by
    refine (List.map_congr_left fun c member => ?_).trans (List.map_id _)
    have small := ascii c member
    rw [UInt8.toNat_ofNat', Nat.mod_eq_of_lt (by omega), Char.ofNat_toNat]
    rfl
  rw [latin, octets_ascii ascii, List.map_map]
  exact (congrArg String.ofList chars).trans String.ofList_toList

theorem digit_bounds {n : Nat} {c : Char} (member : c ∈ (toString n).toList) :
    48 ≤ c.toNat ∧ c.toNat ≤ 57 := by
  have digit := Codes.isDigit_of_mem_toString member
  simp only [Char.isDigit, Bool.and_eq_true, decide_eq_true_eq] at digit
  exact ⟨digit.1, digit.2⟩

theorem toList_toString (n : Nat) : (toString n).toList = Nat.toDigits 10 n := Nat.toList_repr

theorem length_toString_le {n k : Nat} (positive : 0 < k) (small : n < 10 ^ k) :
    (octets (toString n)).length ≤ k := by
  rw [octets_ascii fun c member => by have := digit_bounds member; omega, List.length_map,
    toList_toString]
  exact (Nat.length_toDigits_le_iff (by decide) positive).mpr small

/-- A number that is written is read. -/
theorem integer_octets {n : Nat} {minimum maximum : Int} (low : minimum ≤ n) (high : (n : Int) ≤ maximum)
    (fits : (n : Int) ≤ int64Max) : integer (octets (toString n)) minimum maximum = .ok n := by
  have size : (toString n).utf8ByteSize ≤ 20 :=
    length_toString_le (by decide) (by unfold int64Max at fits; omega)
  have nonempty : (toString n).isEmpty = false := by simp
  have digits : (toString n).toList.all asciiDigit = true := by
    rw [List.all_eq_true]
    intro c member
    have := digit_bounds member
    simp only [asciiDigit, Bool.and_eq_true, decide_eq_true_eq, Char.le_def]
    exact ⟨this.1, this.2⟩
  have number : (toString n).toList.foldl (fun total c => total * 10 + (c.toNat - '0'.toNat)) 0 = n := by
    rw [toList_toString]
    refine Eq.trans ?_ (Nat.ofDigitChars_ten_toDigits (n := n))
    rw [Nat.ofDigitChars]
    simp only [Nat.mul_comm]
  have parsed : Registration.integer (toString n) minimum maximum = some (n : Int) := by
    unfold Registration.integer
    simp only [nonempty, digits, number, Bool.not_true, Bool.or_false, Bool.false_or]
    rw [if_neg (by simpa using size), if_pos ⟨fits, low, high⟩]
  rw [integer, latin_octets fun c member => by have := digit_bounds member; omega, Repository.integer]
  simp only [nonempty, digits, parsed, Bool.not_true, Bool.or_false, Bool.false_or]
  rw [if_neg (by simpa using size)]

/-! ### Parts -/

theorem colon_not_digit (n : Nat) : colon ∉ octets (toString n) := by
  rw [octets_ascii fun c member => by have := digit_bounds member; omega]
  intro member
  obtain ⟨c, digit, same⟩ := List.mem_map.mp member
  have bounds := digit_bounds digit
  have value := congrArg UInt8.toNat same
  rw [UInt8.toNat_ofNat', Nat.mod_eq_of_lt (by omega)] at value
  have colons : colon.toNat = 58 := rfl
  omega

/-- A part that is written is read. -/
theorem next_part {value : Text} (fits : value.length ≤ kRegistryLimit) (rest : Text) :
    next (part value ++ rest) = .ok (value, rest) := by
  have head : (part value ++ rest).takeWhile (· ≠ colon) = octets (toString value.length) := by
    rw [part, List.append_assoc, List.cons_append]
    rw [List.takeWhile_append_of_pos, List.takeWhile_cons_of_neg (by simp), List.append_nil]
    intro octet member
    simp only [ne_eq, decide_not, Bool.not_eq_eq_eq_not, Bool.not_true, decide_eq_false_iff_not]
    rintro rfl
    exact colon_not_digit _ member
  have found : colon ∈ part value ++ rest := by simp [part]
  have limit : kRegistryLimit = 4194304 := rfl
  have short : (octets (toString value.length)).length ≤ 10 :=
    length_toString_le (by decide) (by omega)
  have tail : (part value ++ rest).drop ((octets (toString value.length)).length + 1) = value ++ rest := by
    rw [part, List.append_assoc, List.cons_append, List.drop_append]
    simp
  have read : integer (octets (toString value.length)) 0 kRegistryLimit = .ok (value.length : Int) :=
    integer_octets (by omega) (by omega) (by unfold int64Max; omega)
  unfold next
  simp only [head, found, short, read, tail, require, bind, Except.bind, pure, Except.pure, true_and,
    ↓reduceIte, Int.toNat_natCast, List.length_append, Nat.le_add_right, List.take_left,
    List.drop_left]

/-! ### Pack -/

/-- The fields one after the other. -/
def parts (fields : List (Text × Text)) : Text := fields.flatMap fun field => part field.1 ++ part field.2

theorem pack_eq (fields : Fields) : pack fields = parts fields.toList := by
  have loop : ∀ (fields : List (Text × Text)) (output : Text),
      fields.foldl (fun output field => output ++ part field.1 ++ part field.2) output =
        output ++ parts fields := by
    intro fields
    induction fields with
    | nil => simp [parts]
    | cons field rest ih =>
      intro output
      rw [List.foldl_cons, ih]
      simp [parts]
  rw [pack, loop, List.nil_append]

theorem part_ne_nil (value : Text) : part value ≠ [] := by simp [part]

theorem length_le_part (value : Text) : value.length < (part value).length := by
  simp only [part, List.length_append, List.length_cons]
  omega

/-- The loop of `Unpack` adds the fields that are left. -/
theorem unpackLoop_parts {items : List (Text × Text)} {fields : Fields} {fuel : Nat}
    (distinct : items.Pairwise fun p q => p.1 ≠ q.1) (new : ∀ item ∈ items, item.1 ∉ fields)
    (fits : ∀ item ∈ items, item.1.length ≤ kRegistryLimit ∧ item.2.length ≤ kRegistryLimit)
    (enough : (parts items).length ≤ fuel) :
    unpackLoop fuel (parts items) fields =
      .ok (items.foldl (fun fields item => fields.insert item.1 item.2) fields) := by
  induction items generalizing fields fuel with
  | nil => cases fuel <;> rfl
  | cons item items ih =>
    obtain ⟨apart, distinct⟩ := List.pairwise_cons.mp distinct
    obtain ⟨key, value⟩ := fits item List.mem_cons_self
    have whole : parts (item :: items) = part item.1 ++ (part item.2 ++ parts items) := by
      simp [parts]
    have shorter : (parts items).length < (parts (item :: items)).length := by
      have := length_le_part item.1
      rw [whole]
      simp only [List.length_append]
      omega
    rcases text : parts (item :: items) with _ | ⟨octet, rest⟩
    · rw [whole] at text
      exact absurd (List.append_eq_nil_iff.mp text).1 (part_ne_nil _)
    · rw [text] at enough shorter
      cases fuel with
      | zero => simp at enough
      | succ fuel =>
        rw [unpackLoop, ← text, whole, next_part key]
        simp only [bind, Except.bind, next_part value]
        rw [require, if_pos (new item List.mem_cons_self)]
        refine ih distinct (fun other member => ?_)
          (fun other member => fits other (List.mem_cons_of_mem _ member)) (by omega)
        rw [Std.ExtTreeMap.mem_insert]
        rintro (same | stored)
        · exact apart other member (Std.LawfulEqCmp.eq_of_compare same)
        · exact new other (List.mem_cons_of_mem _ member) stored

theorem length_le_pack {fields : Fields} {key value : Text} (stored : fields[key]? = some value) :
    key.length < (pack fields).length ∧ value.length < (pack fields).length := by
  have member : (key, value) ∈ fields.toList :=
    Std.ExtTreeMap.mem_toList_iff_getElem?_eq_some.mpr stored
  have inside : (part key ++ part value).Sublist (parts fields.toList) := by
    obtain ⟨left, right, split⟩ := List.append_of_mem member
    rw [split, parts, List.flatMap_append, List.flatMap_cons]
    exact (List.sublist_append_left _ _).trans (List.sublist_append_right _ _)
  have longer := inside.length_le
  have first := length_le_part key
  have second := length_le_part value
  rw [pack_eq]
  rw [List.length_append] at longer
  omega

theorem foldl_insert_toList (fields : Fields) :
    fields.toList.foldl (fun (m : Fields) item => m.insert item.1 item.2) ∅ = fields := by
  apply Std.ExtTreeMap.ext_getElem?
  intro key
  rw [Maps.getElem?_foldl_rename fields (fun _ _ same => same) (fun value => value)]
  simp

/-- What is packed is unpacked, if each text is within the limit. -/
theorem unpack_pack_of_each {fields : Fields}
    (fits : ∀ key value : Text, fields[key]? = some value →
      key.length ≤ kRegistryLimit ∧ value.length ≤ kRegistryLimit) :
    unpack (pack fields) = .ok fields := by
  have each : ∀ item ∈ fields.toList,
      item.1.length ≤ kRegistryLimit ∧ item.2.length ≤ kRegistryLimit :=
    fun item member => fits item.1 item.2 (Std.ExtTreeMap.mem_toList_iff_getElem?_eq_some.mp member)
  rw [unpack, pack_eq]
  refine (unpackLoop_parts (Maps.toList_keys_apart fields) (by simp) each (le_refl _)).trans ?_
  rw [foldl_insert_toList]

/-- What is packed is unpacked. -/
theorem unpack_pack {fields : Fields} (fits : (pack fields).length ≤ kRegistryLimit) :
    unpack (pack fields) = .ok fields := by
  apply unpack_pack_of_each
  intro key value stored
  obtain ⟨shortKey, shortValue⟩ := length_le_pack stored
  omega

/-! ### Messages as octets -/

theorem getElem?_encoded (message : Message) (key : String) :
    (encoded message)[octets key]? = message[key]?.map octets := by
  rw [encoded, Maps.getElem?_foldl_rename message (fun _ _ => octets_inj) octets]
  simp

theorem getElem?_encoded_eq_some {message : Message} {key value : Text} :
    (encoded message)[key]? = some value ↔
      ∃ name text, key = octets name ∧ value = octets text ∧ message[name]? = some text := by
  constructor
  · intro stored
    by_cases named : ∃ name, octets name = key
    · obtain ⟨name, rfl⟩ := named
      rw [getElem?_encoded] at stored
      obtain ⟨text, found, rfl⟩ := Option.map_eq_some_iff.mp stored
      exact ⟨name, text, rfl, rfl, found⟩
    · have absent : (encoded message)[key]? = (∅ : Fields)[key]? :=
        Maps.getElem?_foldl_rename_of_ne message octets ∅ fun name same => named ⟨name, same⟩
      rw [absent] at stored
      simp at stored
  · rintro ⟨name, text, rfl, rfl, found⟩
    rw [getElem?_encoded, found]
    rfl

theorem text?_octets (value : String) : text? (octets value) = some value :=
  fromUTF8?_eq_some.mpr rfl

/-- The strings of an item. -/
def strings (item : Text × Text) : String × String :=
  ((text? item.1).getD "", (text? item.2).getD "")

theorem strings_octets (name text : String) : strings (octets name, octets text) = (name, text) := by
  simp [strings, text?_octets]

/-- Decoding inserts the strings of items that are UTF-8. -/
theorem decoded_loop {items : List (Text × Text)}
    (shaped : ∀ item ∈ items, ∃ name text, item = (octets name, octets text)) (m : Message) :
    items.foldlM (fun (message : Message) field => do
      let key ← text? field.1
      let value ← text? field.2
      pure (message.insert key value)) m =
    some (items.foldl (fun m item => m.insert (strings item).1 (strings item).2) m) := by
  induction items generalizing m with
  | nil => rfl
  | cons item items ih =>
    obtain ⟨name, text, rfl⟩ := shaped item List.mem_cons_self
    rw [List.foldlM_cons, List.foldl_cons, strings_octets]
    simp only [text?_octets, Option.bind_eq_bind, Option.bind_some, Option.pure_def]
    exact ih (fun other member => shaped other (List.mem_cons_of_mem _ member)) _

/-- What is encoded is decoded. -/
theorem decoded_encoded (message : Message) : decoded (encoded message) = some message := by
  have shaped : ∀ item ∈ (encoded message).toList, ∃ name text,
      item = (octets name, octets text) ∧ message[name]? = some text := by
    intro item member
    obtain ⟨name, text, key, value, stored⟩ := getElem?_encoded_eq_some.mp
      (Std.ExtTreeMap.mem_toList_iff_getElem?_eq_some.mp member)
    exact ⟨name, text, Prod.ext key value, stored⟩
  have apart : (encoded message).toList.Pairwise fun p q => (strings p).1 ≠ (strings q).1 := by
    refine (Maps.toList_keys_apart (encoded message)).imp_of_mem fun {p q} left right differ => ?_
    obtain ⟨name, text, rfl, _⟩ := shaped p left
    obtain ⟨name', text', rfl, _⟩ := shaped q right
    rw [strings_octets, strings_octets]
    rintro rfl
    exact differ rfl
  have plain : ∀ item ∈ (encoded message).toList, ∃ name text, item = (octets name, octets text) := by
    intro item member
    obtain ⟨name, text, same, _⟩ := shaped item member
    exact ⟨name, text, same⟩
  rw [decoded, decoded_loop plain, Option.some.injEq]
  apply Std.ExtTreeMap.ext_getElem?
  intro name
  rcases stored : message[name]? with _ | text
  · refine (Maps.getElem?_foldl_insert_of_ne (f := fun item => (strings item).1)
      (fun item member same => ?_) ∅).trans (by simp)
    obtain ⟨name', text', rfl, found⟩ := shaped item member
    rw [strings_octets] at same
    dsimp only at same
    rw [same, stored] at found
    cases found
  · have member : (octets name, octets text) ∈ (encoded message).toList := by
      rw [Std.ExtTreeMap.mem_toList_iff_getElem?_eq_some, getElem?_encoded, stored]
      rfl
    have found := Maps.getElem?_foldl_insert_of_mem (f := fun item => (strings item).1)
      (g := fun item => (strings item).2) apart member (∅ : Message)
    rw [strings_octets] at found
    exact found

end Consent.RegistryText
