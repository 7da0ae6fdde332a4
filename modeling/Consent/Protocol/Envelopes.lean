import Consent.Protocol.Records

/-!
Messages and their envelopes. `Encode` puts the fields of a message into an envelope and
`Decode` takes them out again: the decimal numbers of the head, the loop over the fields and
its account of the size, and the insertion of the fields that were read.
-/
namespace Consent.Wire
open Octets (bigEndian)

/-! ### Decimal numbers -/

theorem parseDigits_append (maximum : Nat) (digits : List Char) (c : Char) (number : Nat) :
    parseDigits maximum (digits ++ [c]) number =
      (parseDigits maximum digits number).bind fun n => parseDigits maximum [c] n := by
  induction digits generalizing number with
  | nil => rfl
  | cons d rest ih =>
    simp only [List.cons_append, parseDigits]
    split
    · split
      · rfl
      · exact ih _
    · rfl

theorem asciiDigit_digitChar {d : Nat} (small : d < 10) :
    asciiDigit d.digitChar = true ∧ d.digitChar.toNat - '0'.toNat = d := by
  revert d
  decide

theorem parseDigits_digit {maximum d n : Nat} (small : d < 10) (fits : n * 10 + d ≤ maximum) :
    parseDigits maximum [d.digitChar] n = some (n * 10 + d) := by
  obtain ⟨digit, value⟩ := asciiDigit_digitChar small
  have inside : ¬ n > (maximum - d) / 10 := by omega
  simp only [parseDigits, digit, value, inside, ↓reduceIte]

theorem parseDigits_toDigits {maximum n : Nat} (fits : n ≤ maximum) :
    parseDigits maximum (Nat.toDigits 10 n) 0 = some n := by
  induction n using Nat.strongRecOn with
  | ind n ih =>
    by_cases small : n < 10
    · rw [Nat.toDigits_of_lt_base small, parseDigits_digit small (by omega)]
      simp
    · rw [Nat.toDigits_of_base_le (by decide) (by omega), parseDigits_append,
        ih (n / 10) (by omega) (by omega), Option.bind_some,
        parseDigits_digit (by omega) (by omega)]
      congr 1
      omega

theorem digit_le {c : Char} (digit : asciiDigit c = true) : c.toNat - '0'.toNat ≤ 9 := by
  simp only [asciiDigit, Bool.and_eq_true, decide_eq_true_eq] at digit
  have high : c.toNat ≤ '9'.toNat := digit.2
  have nine : '9'.toNat = '0'.toNat + 9 := rfl
  omega

theorem parseDigits_le {maximum : Nat} {digits : List Char} {number n : Nat} (room : 9 ≤ maximum)
    (parsed : parseDigits maximum digits number = some n) (start : number ≤ maximum) :
    n ≤ maximum := by
  induction digits generalizing number with
  | nil =>
    cases parsed
    exact start
  | cons c rest ih =>
    simp only [parseDigits] at parsed
    split at parsed
    · rename_i digit
      have := digit_le digit
      split at parsed
      · cases parsed
      · exact ih parsed (by omega)
    · cases parsed

theorem parseNumber_toString_nat {n : Nat} (fits : n ≤ 2 ^ 63 - 1) :
    parseNumber (toString n) = some (n : Int) := by
  have list : (toString n).toList = Nat.toDigits 10 n := by
    rw [Nat.toString_eq_ofList_toDigits, String.toList_ofList]
  have parsed := parseDigits_toDigits fits
  unfold parseNumber
  rw [list]
  rcases digits : Nat.toDigits 10 n with _ | ⟨c, rest⟩
  · exact absurd digits Nat.toDigits_ne_nil
  · have digit : c.isDigit = true :=
      Nat.isDigit_of_mem_toDigits (b := 10) (n := n) (by decide) (by decide) (by simp [digits])
    rw [digits] at parsed
    split
    · rename_i none
      cases none
    · rename_i negative
      cases negative
      exact absurd digit (by decide)
    · rw [parsed]
      rfl

theorem parseNumber_toString {n : Int} (low : -2 ^ 63 ≤ n) (high : n ≤ int64Max) :
    parseNumber (toString n) = some n := by
  unfold int64Max at high
  rw [Int.toString_eq_repr, Int.repr_eq_if]
  split
  · rename_i positive
    have parsed := parseNumber_toString_nat (n := n.toNat) (by omega)
    rw [Int.toNat_of_nonneg positive] at parsed
    exact parsed
  · have list : ("-" ++ (-n).toNat.repr).toList = '-' :: Nat.toDigits 10 (-n).toNat := by
      rw [String.toList_append, Nat.toList_repr]
      rfl
    unfold parseNumber
    rw [list]
    simp only [List.isEmpty_iff, Nat.toDigits_ne_nil, ↓reduceIte]
    rw [parseDigits_toDigits (by omega)]
    change some (-((-n).toNat : Int)) = some n
    rw [Option.some.injEq]
    omega

theorem parseNumber_le {value : String} {n : Int} (parsed : parseNumber value = some n) :
    -2 ^ 63 ≤ n ∧ n ≤ int64Max := by
  unfold int64Max
  unfold parseNumber at parsed
  split at parsed
  · cases parsed
  · split at parsed
    · cases parsed
    · obtain ⟨_, found, rfl⟩ := Option.map_eq_some_iff.mp parsed
      obtain ⟨number, digits, ⟨⟩⟩ := Option.bind_eq_some_iff.mp found
      have := parseDigits_le (by decide) digits (Nat.zero_le _)
      omega
  · obtain ⟨_, found, rfl⟩ := Option.map_eq_some_iff.mp parsed
    obtain ⟨number, digits, ⟨⟩⟩ := Option.bind_eq_some_iff.mp found
    have := parseDigits_le (by decide) digits (Nat.zero_le _)
    omega

theorem toString_natCast (n : Nat) : toString (n : Int) = toString n := by
  rw [Int.toString_eq_repr, Int.repr_eq_if, if_pos (Int.natCast_nonneg n), Int.toNat_natCast]
  rfl

theorem validField_iff {key value : String} : validField key value = true ↔
    validField key "" = true ∧ value.utf8ByteSize ≤ kMaxValueSize ∧
      value.toList.contains '\x00' = false := by
  simp only [validField, Bool.and_eq_true, decide_eq_true_eq, Bool.not_eq_true']
  constructor
  · rintro ⟨⟨⟨named, size⟩, clean⟩, letters⟩
    exact ⟨⟨⟨⟨named, by decide⟩, by decide⟩, letters⟩, size, clean⟩
  · rintro ⟨⟨⟨⟨named, _⟩, _⟩, letters⟩, size, clean⟩
    exact ⟨⟨⟨named, size⟩, clean⟩, letters⟩

/-- A number is a valid value of a field. -/
theorem validField_number {key : String} {n : Int} (named : validField key "" = true)
    (low : -2 ^ 63 ≤ n) (high : n ≤ int64Max) : validField key (toString n) = true := by
  unfold int64Max at high
  have digits : ∀ m : Nat, m ≤ 2 ^ 63 →
      m.repr.toList.length ≤ 19 ∧ m.repr.toList.contains '\x00' = false := by
    intro m bound
    refine ⟨Nat.repr_length m 19 (by decide) (by omega), ?_⟩
    rw [Bool.eq_false_iff, ne_eq, List.contains_iff_mem]
    intro member
    exact absurd (Codes.isDigit_of_mem_toString member) (by decide)
  have text : (toString n).toList.length ≤ 20 ∧ (toString n).toList.contains '\x00' = false := by
    rw [Int.toString_eq_repr, Int.repr_eq_if]
    split
    · obtain ⟨length, clean⟩ := digits n.toNat (by omega)
      exact ⟨by omega, clean⟩
    · obtain ⟨length, clean⟩ := digits (-n).toNat (by omega)
      rw [String.toList_append]
      refine ⟨?_, ?_⟩
      · rw [List.length_append]
        change 1 + _ ≤ 20
        omega
      · rw [List.contains_append, clean]
        rfl
  refine validField_iff.mpr ⟨named, ?_, text.2⟩
  have := utf8ByteSize_le (toString n)
  rw [kMaxValueSize]
  omega

theorem Field.valid_of_validField {field : Field} (valid : validField field.key field.value = true) :
    field.valid = true := by
  obtain ⟨named, size, clean⟩ := validField_iff.mp valid
  simp only [validField, Bool.and_eq_true, decide_eq_true_eq, Bool.not_eq_true'] at named
  obtain ⟨⟨⟨⟨nonempty, short⟩, _⟩, _⟩, letters⟩ := named
  refine Field.valid_iff.mpr ⟨⟨?_, ?_⟩, ?_⟩
  · simp only [validString, contains_zero_octets, Bool.and_eq_true, decide_eq_true_eq,
      Bool.not_eq_true', Bool.eq_false_iff, ne_eq, List.contains_iff_mem]
    refine ⟨short, fun nul => ?_⟩
    exact absurd (List.all_eq_true.mp letters _ nul) (by decide)
  · rw [Nat.one_le_iff_ne_zero, ne_eq, String.utf8ByteSize_eq_zero_iff]
    rintro empty
    rw [empty] at nonempty
    exact absurd nonempty (by decide)
  · simp only [validString, contains_zero_octets, clean, Bool.not_false, Bool.and_true,
      decide_eq_true_eq]
    exact size

/-! ### The fields -/

def toField (field : String × String) : Field := ⟨field.1, field.2⟩

/-- What `Encode` makes of the fields. -/
def fieldsOf (message : List (String × String)) : List Field :=
  (message.filter fun field => !reserved.contains field.1).map toField

theorem foldlM_addField {fields : List (String × String)} {state result : Nat × List Field}
    (start : state.1 ≤ kMaxFrameSize) :
    fields.foldlM addField state = some result ↔
      result = (state.1 + ((fieldsOf fields).flatMap Field.octets).length,
        state.2 ++ fieldsOf fields) ∧ result.1 ≤ kMaxFrameSize := by
  induction fields generalizing state with
  | nil =>
    simp only [List.foldlM_nil, fieldsOf, List.filter_nil, List.map_nil, List.flatMap_nil,
      List.length_nil, Nat.add_zero, List.append_nil]
    constructor
    · rintro ⟨⟩
      exact ⟨rfl, start⟩
    · rintro ⟨rfl, _⟩
      rfl
  | cons field rest ih =>
    rw [List.foldlM_cons, addField]
    by_cases head : reserved.contains field.1 = true
    · have same : fieldsOf (field :: rest) = fieldsOf rest := by
        simp only [fieldsOf, List.filter_cons, head, Bool.not_true, Bool.false_eq_true, ↓reduceIte]
      rw [if_pos head, same]
      exact ih start
    · have more : fieldsOf (field :: rest) = toField field :: fieldsOf rest := by
        simp only [Bool.not_eq_true] at head
        simp only [fieldsOf, List.filter_cons, head, Bool.not_false, ↓reduceIte, List.map_cons]
      rw [if_neg head, more, List.flatMap_cons, List.length_append, Field.length_octets]
      simp only [toField]
      split
      · rename_i large
        constructor
        · intro none
          cases none
        · rintro ⟨rfl, room⟩
          dsimp only at room
          omega
      · rename_i room
        have step := @ih (state.1 + (10 + field.1.utf8ByteSize + field.2.utf8ByteSize),
          state.2 ++ [⟨field.1, field.2⟩]) (by dsimp only; omega)
        refine step.trans ?_
        dsimp only
        rw [List.append_assoc, List.singleton_append, Nat.add_assoc, Nat.add_assoc]

/-- The fields of a list as a message over another one. -/
def insertFields (message : Message) (fields : List Field) : Message :=
  fields.foldl (fun result field => result.insert field.key field.value) message

/-- Every field can be inserted: it is valid and none of the name is there. -/
structure Insertable (message : Message) (fields : List Field) : Prop where
  valid : ∀ field ∈ fields, validField field.key field.value = true
  fresh : ∀ field ∈ fields, field.key ≠ "status" ∧ field.key ∉ message
  distinct : (fields.map Field.key).Nodup

theorem Insertable.cons_iff {message : Message} {field : Field} {rest : List Field} :
    Insertable message (field :: rest) ↔
      (validField field.key field.value = true ∧ field.key ≠ "status" ∧ field.key ∉ message) ∧
        Insertable (message.insert field.key field.value) rest := by
  constructor
  · rintro ⟨valid, fresh, distinct⟩
    rw [List.map_cons, List.nodup_cons] at distinct
    refine ⟨⟨valid field (by simp), fresh field (by simp)⟩, fun next member => valid next (by
      simp [member]), fun next member => ⟨(fresh next (by simp [member])).1, ?_⟩, distinct.2⟩
    rw [Std.ExtTreeMap.mem_insert, Std.LawfulEqCmp.compare_eq_iff_eq]
    rintro (same | old)
    · exact distinct.1 (same ▸ List.mem_map_of_mem member)
    · exact (fresh next (by simp [member])).2 old
  · rintro ⟨⟨valid, named, fresh⟩, others⟩
    have apart : ∀ next ∈ rest, next.key ≠ field.key ∧ next.key ∉ message := by
      intro next member
      have outside := (others.fresh next member).2
      rw [Std.ExtTreeMap.mem_insert, Std.LawfulEqCmp.compare_eq_iff_eq, not_or] at outside
      exact ⟨Ne.symm outside.1, outside.2⟩
    refine ⟨?_, ?_, ?_⟩
    · exact List.forall_mem_cons.mpr ⟨valid, others.valid⟩
    · exact List.forall_mem_cons.mpr ⟨⟨named, fresh⟩, fun next member =>
        ⟨(others.fresh next member).1, (apart next member).2⟩⟩
    · rw [List.map_cons, List.nodup_cons]
      refine ⟨fun repeated => ?_, others.distinct⟩
      obtain ⟨next, member, same⟩ := List.mem_map.mp repeated
      exact (apart next member).1 same

theorem foldlM_emplace {fields : List Field} {message result : Message} :
    fields.foldlM emplace message = some result ↔
      Insertable message fields ∧ result = insertFields message fields := by
  induction fields generalizing message with
  | nil =>
    constructor
    · rintro ⟨⟩
      exact ⟨⟨by simp, by simp, by simp⟩, rfl⟩
    · rintro ⟨_, rfl⟩
      rfl
  | cons field rest ih =>
    rw [List.foldlM_cons, Insertable.cons_iff, emplace]
    split
    · rename_i refused
      constructor
      · rintro ⟨⟩
      · rintro ⟨⟨⟨valid, named, fresh⟩, _⟩, _⟩
        simp [valid, named, fresh] at refused
    · rename_i accepted
      simp only [Bool.or_eq_true, Bool.not_eq_true', beq_iff_eq, not_or, Bool.not_eq_false,
        Std.ExtTreeMap.contains_iff_mem] at accepted
      obtain ⟨⟨valid, named⟩, fresh⟩ := accepted
      refine Iff.trans ih ?_
      simp only [valid, named, fresh, ne_eq, not_false_eq_true, and_self, true_and]
      rfl

theorem getElem?_insertFields {message : Message} {fields : List Field}
    (insertable : Insertable message fields) {key value : String} :
    (insertFields message fields)[key]? = some value ↔
      ⟨key, value⟩ ∈ fields ∨ message[key]? = some value := by
  induction fields generalizing message with
  | nil => simp [insertFields]
  | cons field rest ih =>
    obtain ⟨⟨_, _, fresh⟩, others⟩ := Insertable.cons_iff.mp insertable
    have step := ih others
    rw [insertFields, List.foldl_cons]
    refine step.trans ?_
    rw [Std.ExtTreeMap.getElem?_insert, List.mem_cons]
    by_cases same : field.key = key
    · subst same
      have none : message[field.key]? = none := by simpa using fresh
      have later : (⟨field.key, value⟩ : Field) ∉ rest := by
        intro member
        have outside := (others.fresh _ member).2
        simp at outside
      simp [none, later, Field.ext_iff, eq_comm]
    · have other : (⟨key, value⟩ : Field) ≠ field := by
        rintro rfl
        exact same rfl
      simp [same, other]

theorem size_insertFields {message : Message} {fields : List Field}
    (insertable : Insertable message fields) :
    (insertFields message fields).size = message.size + fields.length := by
  induction fields generalizing message with
  | nil => simp [insertFields]
  | cons field rest ih =>
    obtain ⟨⟨_, _, fresh⟩, others⟩ := Insertable.cons_iff.mp insertable
    have step := ih others
    rw [insertFields, List.foldl_cons]
    refine step.trans ?_
    rw [Std.ExtTreeMap.size_insert, if_neg (by simpa using fresh), List.length_cons]
    omega

/-! ### Keys in order -/

/-- The fields of a message come in ascending order of their keys. -/
theorem fieldsOf_toList_sorted (message : Message) :
    (fieldsOf message.toList).Pairwise fun a b => compare a.key b.key = .lt := by
  unfold fieldsOf
  rw [List.pairwise_map]
  exact List.Pairwise.filter _ Std.ExtTreeMap.ordered_keys_toList

theorem mem_fieldsOf_toList {message : Message} {field : Field} :
    field ∈ fieldsOf message.toList ↔
      reserved.contains field.key = false ∧ message[field.key]? = some field.value := by
  unfold fieldsOf
  rw [List.mem_map]
  constructor
  · rintro ⟨pair, member, rfl⟩
    rw [List.mem_filter, Bool.not_eq_true'] at member
    exact ⟨member.2, Std.ExtTreeMap.mem_toList_iff_getElem?_eq_some.mp member.1⟩
  · rintro ⟨plain, held⟩
    refine ⟨(field.key, field.value), List.mem_filter.mpr ⟨?_, ?_⟩, rfl⟩
    · exact Std.ExtTreeMap.mem_toList_iff_getElem?_eq_some.mpr held
    · rw [plain]
      rfl

/-- Fields with ascending keys are known by their members. -/
theorem sorted_unique {left right : List Field}
    (sorted : left.Pairwise fun a b => compare a.key b.key = .lt)
    (sorted' : right.Pairwise fun a b => compare a.key b.key = .lt)
    (same : ∀ field, field ∈ left ↔ field ∈ right) : left = right := by
  have irreflexive : ∀ {l : List Field}, l.Pairwise (fun a b => compare a.key b.key = .lt) → l.Nodup := by
    intro l pairs
    refine pairs.imp fun {a b} less => ?_
    rintro rfl
    simp at less
  have perm := (List.perm_ext_iff_of_nodup (irreflexive sorted) (irreflexive sorted')).mpr same
  refine perm.eq_of_pairwise (fun a b _ _ less less' => ?_) sorted sorted'
  have back := Std.OrientedCmp.gt_of_lt less
  rw [less'] at back
  cases back

end Consent.Wire
