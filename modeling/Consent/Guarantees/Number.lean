import Consent.Protocol.Envelopes
import Consent.Protocol.Number
import Consent.Repository.Packing

/-!
`ParseNumber` is exact.

The guard before each step of the digit loop holds exactly when the next value is within the
maximum of the sign. What is parsed never passes the maximum, so no operation leaves its type,
and since the value of a digit string only grows with its length, a refused step is final.
-/
namespace Consent.Machine
open Wire (octets octets_eq)

/-! ### Numerals -/

def IsDigit (octet : UInt8) : Prop := 48 ≤ octet.toNat ∧ octet.toNat ≤ 57

instance (octet : UInt8) : Decidable (IsDigit octet) := inferInstanceAs (Decidable (_ ∧ _))

/-- The digit that an octet stands for. -/
def digitOf (octet : UInt8) : Nat := octet.toNat - 48

/-- The number that a string of digits stands for, most significant digit first. -/
def valueOf (digits : List UInt8) : Nat := Nat.ofDigits 10 (digits.reverse.map digitOf)

/-- An optional minus sign and one or more digits, which stand for a number. -/
def Numeral (text : List UInt8) (n : Int) : Prop :=
  ∃ digits, digits ≠ [] ∧ (∀ octet ∈ digits, IsDigit octet) ∧
    (text = digits ∧ n = valueOf digits ∨ text = 45 :: digits ∧ n = -(valueOf digits : Int))

/-- The value that the loop reaches from `number`. -/
def advance (number : Nat) (digits : List UInt8) : Nat :=
  digits.foldl (fun number octet => number * 10 + digitOf octet) number

theorem advance_zero (digits : List UInt8) : advance 0 digits = valueOf digits := by
  rw [valueOf, Nat.ofDigits_eq_foldr, List.map_reverse, List.foldr_reverse, List.foldl_map, advance]
  simp only [Nat.cast_id, Nat.add_comm, Nat.mul_comm]

theorem le_advance (number : Nat) (digits : List UInt8) : number ≤ advance number digits := by
  induction digits generalizing number with
  | nil => exact le_rfl
  | cons octet rest ih =>
    have step := ih (number * 10 + digitOf octet)
    rw [advance, List.foldl_cons]
    exact le_trans (by omega) step

/-! ### The loop -/

theorem charValue_digit (signedChar : Bool) (octet : UInt8) :
    ¬ (charValue signedChar octet < 48 ∨ charValue signedChar octet > 57) ↔ IsDigit octet := by
  have small := octet.toNat_lt
  unfold charValue IsDigit
  split
  · omega
  · omega

theorem charValue_of_digit {signedChar : Bool} {octet : UInt8} (digit : IsDigit octet) :
    charValue signedChar octet = octet.toNat := by
  unfold IsDigit at digit
  rw [charValue, if_neg (by omega)]

theorem charValue_minus (signedChar : Bool) (octet : UInt8) :
    charValue signedChar octet = 45 ↔ octet = 45 := by
  have small := octet.toNat_lt
  have value : octet = 45 ↔ octet.toNat = 45 := UInt8.toNat_inj.symm
  rw [value]
  unfold charValue
  split
  · omega
  · omega

theorem bind_ok {α β : Type} (a : α) (f : α → Except Fault β) : (Except.ok a >>= f) = f a := rfl

theorem unsigned_eq {bits : Nat} {n : Int} (low : 0 ≤ n) (high : n < 2 ^ bits) :
    unsigned bits n = .ok n := if_pos ⟨low, high⟩

theorem signed_eq {bits : Nat} {n : Int} (low : -2 ^ (bits - 1) ≤ n) (high : n < 2 ^ (bits - 1)) :
    signed bits n = .ok n := if_pos ⟨low, high⟩

/-- One step: no operation overflows, and the guard is the exact bound. -/
theorem parseDigits_cons {signedChar : Bool} {maximum number : Nat} {octet : UInt8}
    {rest : List UInt8} (room : 9 ≤ maximum) (fits : maximum < 2 ^ 64) :
    parseDigits signedChar maximum (octet :: rest) number =
      if IsDigit octet ∧ number * 10 + digitOf octet ≤ maximum then
        parseDigits signedChar maximum rest (number * 10 + digitOf octet : Nat)
      else .ok none := by
  by_cases digit : IsDigit octet
  · have value : charValue signedChar octet - 48 = (digitOf octet : Nat) := by
      rw [charValue_of_digit digit, digitOf]
      unfold IsDigit at digit
      omega
    have small : digitOf octet ≤ 9 := by
      unfold IsDigit at digit
      unfold digitOf
      omega
    have difference : signed 32 (digitOf octet : Int) = .ok (digitOf octet : Int) :=
      signed_eq (by omega) (by omega)
    have converted : unsigned 32 (digitOf octet : Int) = .ok (digitOf octet : Int) :=
      unsigned_eq (by omega) (by omega)
    have left : unsigned 64 ((maximum : Int) - digitOf octet) = .ok ((maximum : Int) - digitOf octet) :=
      unsigned_eq (by omega) (by omega)
    rw [parseDigits, if_neg ((charValue_digit _ _).mpr digit), value, difference, bind_ok, converted,
      bind_ok, left, bind_ok]
    by_cases below : number * 10 + digitOf octet ≤ maximum
    · have scaled : unsigned 64 ((number : Int) * 10) = .ok ((number : Int) * 10) :=
        unsigned_eq (by omega) (by omega)
      have next : unsigned 64 ((number : Int) * 10 + digitOf octet) =
          .ok ((number * 10 + digitOf octet : Nat) : Int) := by
        rw [unsigned_eq (by omega) (by omega)]
        norm_num
      rw [if_neg (by omega), scaled, bind_ok, next, bind_ok, if_pos ⟨digit, below⟩]
    · rw [if_pos (by omega), if_neg fun h => below h.2]
      rfl
  · rw [parseDigits, if_pos (by_contra fun h => digit ((charValue_digit _ _).mp h)),
      if_neg fun h => digit h.1]
    rfl

/-- The whole loop. -/
theorem parseDigits_eq (signedChar : Bool) {maximum : Nat} (room : 9 ≤ maximum)
    (fits : maximum < 2 ^ 64) (digits : List UInt8) {number : Nat} (start : number ≤ maximum) :
    parseDigits signedChar maximum digits number =
      .ok (if (∀ octet ∈ digits, IsDigit octet) ∧ advance number digits ≤ maximum then
        some (advance number digits : Int) else none) := by
  induction digits generalizing number with
  | nil => simp [parseDigits, advance, start, pure, Except.pure]
  | cons octet rest ih =>
    have tail : advance number (octet :: rest) = advance (number * 10 + digitOf octet) rest := rfl
    rw [parseDigits_cons room fits, tail]
    by_cases step : IsDigit octet ∧ number * 10 + digitOf octet ≤ maximum
    · rw [if_pos step, ih step.2]
      simp only [List.forall_mem_cons, step.1, true_and]
    · rw [if_neg step, if_neg]
      rintro ⟨each, below⟩
      -- the value does not shrink behind a refused step
      have grows := le_advance (number * 10 + digitOf octet) rest
      exact step ⟨each octet List.mem_cons_self, le_trans grows below⟩

/-! ### The number -/

/-- One or more digits with a value up to the maximum. -/
def parsed (maximum : Nat) (digits : List UInt8) : Option Nat :=
  if digits ≠ [] ∧ (∀ octet ∈ digits, IsDigit octet) ∧ valueOf digits ≤ maximum then
    some (valueOf digits)
  else none

theorem parsed_eq_some {maximum n : Nat} {digits : List UInt8} :
    parsed maximum digits = some n ↔ digits ≠ [] ∧ (∀ octet ∈ digits, IsDigit octet) ∧
      valueOf digits = n ∧ n ≤ maximum := by
  unfold parsed
  constructor
  · intro found
    split at found
    · rename_i good
      obtain rfl := Option.some.inj found
      exact ⟨good.1, good.2.1, rfl, good.2.2⟩
    · cases found
  · rintro ⟨nonempty, each, rfl, below⟩
    rw [if_pos ⟨nonempty, each, below⟩]

/-- The loop from zero over one or more digits. -/
theorem parseDigits_zero (signedChar : Bool) {maximum : Nat} (room : 9 ≤ maximum)
    (fits : maximum < 2 ^ 64) {digits : List UInt8} (nonempty : digits ≠ []) :
    parseDigits signedChar maximum digits 0 =
      .ok ((parsed maximum digits).map fun number : Nat => (number : Int)) := by
  have loop := parseDigits_eq signedChar room fits digits (Nat.zero_le maximum)
  rw [Nat.cast_zero, advance_zero] at loop
  rw [loop, parsed]
  by_cases good : (∀ octet ∈ digits, IsDigit octet) ∧ valueOf digits ≤ maximum
  · rw [if_pos good, if_pos ⟨nonempty, good⟩]
    rfl
  · rw [if_neg good, if_neg fun h => good h.2]
    rfl

theorem parseNumber_minus (signedChar : Bool) (digits : List UInt8) :
    parseNumber signedChar (45 :: digits) =
      .ok ((parsed (2 ^ 63) digits).map fun number : Nat => -(number : Int)) := by
  have minus : charValue signedChar 45 = 45 := (charValue_minus _ _).mpr rfl
  rcases digits with _ | ⟨octet, rest⟩
  · simp [parseNumber, parsed, minus, pure, Except.pure]
  · have maximum : unsigned 64 (int64Max + 1) = .ok ((2 ^ 63 : Nat) : Int) := by decide
    simp only [parseNumber, minus, if_true, List.isEmpty_cons, Bool.false_eq_true, if_false]
    rw [maximum, bind_ok, parseDigits_zero signedChar (by decide) (by decide) (List.cons_ne_nil _ _), bind_ok]
    rcases found : parsed (2 ^ 63) (octet :: rest) with _ | number
    · rfl
    · have below := (parsed_eq_some.mp found).2.2.2
      simp only [Option.map_some]
      by_cases top : number = 2 ^ 63
      · rw [if_pos (by rw [top]), top]
        rfl
      · rw [if_neg (by omega), signed_eq (by omega) (by omega), bind_ok,
          signed_eq (by omega) (by omega), bind_ok]
        rfl

theorem parseNumber_digits (signedChar : Bool) {digits : List UInt8} (plain : digits.head? ≠ some 45) :
    parseNumber signedChar digits =
      .ok ((parsed (2 ^ 63 - 1) digits).map fun number : Nat => (number : Int)) := by
  rcases digits with _ | ⟨octet, rest⟩
  · simp [parseNumber, parsed, pure, Except.pure]
  · have minus : ¬ charValue signedChar octet = 45 := by
      rw [charValue_minus]
      simpa using plain
    have maximum : unsigned 64 (int64Max + 0) = .ok ((2 ^ 63 - 1 : Nat) : Int) := by decide
    simp only [parseNumber, minus, if_false, List.isEmpty_cons, Bool.false_eq_true]
    rw [maximum, bind_ok, parseDigits_zero signedChar (by decide) (by decide) (List.cons_ne_nil _ _), bind_ok]
    rcases found : parsed (2 ^ 63 - 1) (octet :: rest) with _ | number
    · rfl
    · have below := (parsed_eq_some.mp found).2.2.2
      simp only [Option.map_some]
      rw [signed_eq (by omega) (by omega), bind_ok]
      rfl

/-- The parser ends on every text without a fault. -/
theorem parseNumber_ok (signedChar : Bool) (text : List UInt8) :
    ∃ result, parseNumber signedChar text = .ok result := by
  by_cases minus : text.head? = some 45
  · obtain ⟨digits, rfl⟩ := List.head?_eq_some_iff.mp minus
    exact ⟨_, parseNumber_minus signedChar digits⟩
  · exact ⟨_, parseNumber_digits signedChar minus⟩

theorem minus_not_digit : ¬ IsDigit 45 := by decide

/-- It accepts the numerals of the numbers in the range, with their numbers. -/
theorem parseNumber_some (signedChar : Bool) (text : List UInt8) (n : Int) :
    parseNumber signedChar text = .ok (some n) ↔
      Numeral text n ∧ -2 ^ 63 ≤ n ∧ n ≤ int64Max := by
  unfold int64Max
  by_cases minus : text.head? = some 45
  · obtain ⟨digits, rfl⟩ := List.head?_eq_some_iff.mp minus
    rw [parseNumber_minus, Except.ok.injEq, Option.map_eq_some_iff]
    constructor
    · rintro ⟨number, found, rfl⟩
      obtain ⟨nonempty, each, rfl, below⟩ := parsed_eq_some.mp found
      exact ⟨⟨digits, nonempty, each, .inr ⟨rfl, rfl⟩⟩, by omega, by omega⟩
    · rintro ⟨⟨others, nonempty, each, ⟨rfl, _⟩ | ⟨same, rfl⟩⟩, low, high⟩
      · exact absurd (each 45 List.mem_cons_self) minus_not_digit
      · obtain rfl := List.tail_eq_of_cons_eq same
        exact ⟨_, parsed_eq_some.mpr ⟨nonempty, each, rfl, by omega⟩, rfl⟩
  · rw [parseNumber_digits signedChar minus, Except.ok.injEq, Option.map_eq_some_iff]
    constructor
    · rintro ⟨number, found, rfl⟩
      obtain ⟨nonempty, each, rfl, below⟩ := parsed_eq_some.mp found
      exact ⟨⟨text, nonempty, each, .inl ⟨rfl, rfl⟩⟩, by omega, by omega⟩
    · rintro ⟨⟨digits, nonempty, each, ⟨rfl, rfl⟩ | ⟨rfl, _⟩⟩, low, high⟩
      · exact ⟨_, parsed_eq_some.mpr ⟨nonempty, each, rfl, by omega⟩, rfl⟩
      · exact absurd rfl minus

/-! ### The number of a text -/

/-- A character outside of ASCII begins with an octet that is no digit and no sign. -/
theorem utf8EncodeChar_wide {c : Char} (wide : 128 ≤ c.toNat) :
    ∃ octet rest, String.utf8EncodeChar c = octet :: rest ∧ 128 ≤ octet.toNat := by
  have value : c.val.toNat = c.toNat := rfl
  have small : c.val.toNat < 1114112 := by
    have := c.valid
    rcases this with low | high
    · exact lt_trans low (by decide)
    · exact high.2
  have narrow : ¬ c.val.toNat ≤ 127 := by omega
  rw [String.utf8EncodeChar.eq_1]
  simp only [narrow, if_false]
  split_ifs
  all_goals
    refine ⟨_, _, rfl, ?_⟩
    rw [UInt8.toNat_ofNat']
    omega

theorem octets_cons (c : Char) (rest : List Char) :
    octets (String.ofList (c :: rest)) = String.utf8EncodeChar c ++ octets (String.ofList rest) := by
  rw [octets_eq, octets_eq, String.toList_ofList, String.toList_ofList, List.flatMap_cons]

theorem isDigit_ascii {c : Char} (small : c.toNat < 128) :
    (IsDigit (UInt8.ofNat c.toNat) ↔ asciiDigit c = true) ∧
      digitOf (UInt8.ofNat c.toNat) = c.toNat - '0'.toNat := by
  have value : (UInt8.ofNat c.toNat).toNat = c.toNat := by
    rw [UInt8.toNat_ofNat', Nat.mod_eq_of_lt (by omega)]
  refine ⟨?_, by rw [digitOf, value]; rfl⟩
  simp only [IsDigit, value, asciiDigit, Bool.and_eq_true, decide_eq_true_eq, Char.le_def,
    UInt32.le_iff_toNat_le]
  rfl

/-- The loop of the machine and the loop over characters agree. -/
theorem parseDigits_octets (signedChar : Bool) {maximum : Nat} (room : 9 ≤ maximum)
    (fits : maximum < 2 ^ 64) (chars : List Char) (number : Nat) :
    parseDigits signedChar maximum (octets (String.ofList chars)) number =
      .ok ((Consent.parseDigits maximum chars number).map fun number : Nat => (number : Int)) := by
  induction chars generalizing number with
  | nil => rfl
  | cons c rest ih =>
    rw [octets_cons]
    by_cases small : c.toNat < 128
    · obtain ⟨digit, value⟩ := isDigit_ascii small
      rw [RegistryText.utf8EncodeChar_ascii small, List.singleton_append, parseDigits_cons room fits,
        Consent.parseDigits]
      simp only [digit, value]
      by_cases isDigit : asciiDigit c = true
      · have le := Wire.digit_le isDigit
        simp only [isDigit, true_and, if_true]
        by_cases below : number * 10 + (c.toNat - '0'.toNat) ≤ maximum
        · rw [if_pos below, if_neg (by omega), ih]
        · rw [if_neg below, if_pos (by omega)]
          rfl
      · simp only [isDigit, false_and, if_false, Bool.false_eq_true]
        rfl
    · obtain ⟨octet, others, encoded, wide⟩ := utf8EncodeChar_wide (not_lt.mp small)
      have foreign : asciiDigit c = false := by
        rw [Bool.eq_false_iff]
        intro digit
        simp only [asciiDigit, Bool.and_eq_true, decide_eq_true_eq, Char.le_def,
          UInt32.le_iff_toNat_le] at digit
        have nine : ('9' : Char).val.toNat = 57 := rfl
        have value : c.val.toNat = c.toNat := rfl
        omega
      rw [encoded, List.cons_append, parseDigits_cons room fits, Consent.parseDigits, foreign,
        if_neg fun h => by have := h.1.2; omega]
      rfl

/-- The parser of the machine and the parser of texts agree. -/
theorem parseNumber_octets (signedChar : Bool) (text : String) :
    parseNumber signedChar (octets text) = .ok (Consent.parseNumber text) := by
  obtain ⟨chars, rfl⟩ : ∃ chars, text = String.ofList chars := ⟨_, String.ofList_toList.symm⟩
  unfold Consent.parseNumber
  rw [String.toList_ofList]
  have loop : ∀ maximum : Nat, 9 ≤ maximum → maximum < 2 ^ 64 → ∀ chars : List Char, chars ≠ [] →
      parsed maximum (octets (String.ofList chars)) = Consent.parseDigits maximum chars 0 := by
    intro maximum room fits chars nonempty
    have octet : octets (String.ofList chars) ≠ [] := by
      rw [octets_eq, String.toList_ofList]
      obtain ⟨c, rest, rfl⟩ := List.exists_cons_of_ne_nil nonempty
      simp
    have machine := parseDigits_zero signedChar room fits octet
    have model := parseDigits_octets signedChar room fits chars 0
    rw [Nat.cast_zero, machine, Except.ok.injEq] at model
    exact Option.map_injective Int.ofNat_injective model
  rcases chars with _ | ⟨c, rest⟩
  · rfl
  · by_cases minus : c = '-'
    · subst minus
      have encoded : octets (String.ofList ('-' :: rest)) = 45 :: octets (String.ofList rest) := by
        rw [octets_cons]
        rfl
      rw [encoded, parseNumber_minus]
      rcases rest with _ | ⟨d, rest⟩
      · rfl
      · rw [loop (2 ^ 63) (by decide) (by decide) _ (List.cons_ne_nil _ _)]
        simp only [List.isEmpty_cons, Bool.false_eq_true, if_false]
        rcases Consent.parseDigits (2 ^ 63) (d :: rest) 0 with _ | number
        · rfl
        · rfl
    · have plain : (octets (String.ofList (c :: rest))).head? ≠ some 45 := by
        rw [octets_cons]
        by_cases small : c.toNat < 128
        · rw [RegistryText.utf8EncodeChar_ascii small, List.singleton_append, List.head?_cons]
          intro same
          have value := congrArg UInt8.toNat (Option.some.inj same)
          rw [UInt8.toNat_ofNat', Nat.mod_eq_of_lt (by omega)] at value
          exact minus (Char.toNat_inj.mp value)
        · obtain ⟨octet, others, encoded, wide⟩ := utf8EncodeChar_wide (not_lt.mp small)
          rw [encoded, List.cons_append, List.head?_cons]
          rintro ⟨⟩
          exact absurd wide (by decide)
      rw [parseNumber_digits signedChar plain,
        loop (2 ^ 63 - 1) (by decide) (by decide) _ (List.cons_ne_nil _ _)]
      split
      · rename_i empty
        cases empty
      · rename_i same
        exact absurd (List.head_eq_of_cons_eq same) minus
      · rcases Consent.parseDigits (2 ^ 63 - 1) (c :: rest) 0 with _ | number
        · rfl
        · rfl

/-- What is printed is parsed. -/
theorem parseNumber_toText (signedChar : Bool) {n : Int} (low : -2 ^ 63 ≤ n) (high : n ≤ int64Max) :
    parseNumber signedChar (toText n) = .ok (some n) := by
  rw [toText, parseNumber_octets, Wire.parseNumber_toString low high]

theorem approvalInteger_true {signedChar : Bool} {text : List UInt8} {minimum maximum : Int} :
    approvalInteger signedChar text minimum maximum = .ok true ↔
      ∃ n, text = toText n ∧ -2 ^ 63 ≤ n ∧ n ≤ int64Max ∧ minimum ≤ n ∧ n ≤ maximum := by
  unfold approvalInteger
  constructor
  · intro accepted
    obtain ⟨result, found⟩ := parseNumber_ok signedChar text
    rw [found, bind_ok] at accepted
    rcases result with _ | n
    · cases accepted
    · have tests := Except.ok.inj accepted
      simp only [Bool.and_eq_true, decide_eq_true_eq, beq_iff_eq] at tests
      obtain ⟨_, low, high⟩ := (parseNumber_some _ _ _).mp found
      exact ⟨n, tests.2, low, high, tests.1⟩
  · rintro ⟨n, rfl, low, high, above, below⟩
    rw [parseNumber_toText signedChar low high, bind_ok]
    simp only [above, below, decide_true, Bool.true_and, beq_self_eq_true]
    rfl

theorem localizationInteger_some {signedChar : Bool} {text : List UInt8} {n : Int} :
    localizationInteger signedChar text = .ok (some n) ↔
      text = toText n ∧ -2 ^ 63 ≤ n ∧ n ≤ int64Max := by
  unfold localizationInteger
  constructor
  · intro accepted
    obtain ⟨result, found⟩ := parseNumber_ok signedChar text
    rw [found, bind_ok] at accepted
    rcases result with _ | number
    · cases accepted
    · have tests := Except.ok.inj accepted
      split at tests
      · rename_i same
        obtain rfl := Option.some.inj tests
        obtain ⟨_, low, high⟩ := (parseNumber_some _ _ _).mp found
        exact ⟨(eq_of_beq same).symm, low, high⟩
      · cases tests
  · rintro ⟨rfl, low, high⟩
    rw [parseNumber_toText signedChar low high, bind_ok]
    simp only [beq_self_eq_true, if_true]
    rfl

/-- The canonical tests of texts are those of the machine. -/
theorem integer_octets (signedChar : Bool) (text : String) (minimum maximum : Int) :
    approvalInteger signedChar (octets text) minimum maximum =
        .ok (Approval.integer text minimum maximum) ∧
      localizationInteger signedChar (octets text) = .ok (Localization.integer text) := by
  have same : ∀ n : Int, toText n = octets text ↔ toString n = text := fun n =>
    ⟨fun equal => Wire.octets_inj equal, fun equal => by rw [toText, equal]⟩
  unfold approvalInteger localizationInteger Approval.integer Localization.integer
  rw [parseNumber_octets, bind_ok, bind_ok]
  rcases Consent.parseNumber text with _ | n
  · exact ⟨rfl, rfl⟩
  · have forward : (toText n == octets text) = (toString n == text) := by
      rw [Bool.eq_iff_iff, beq_iff_eq, beq_iff_eq, same]
    have backward : (octets text == toText n) = (text == toString n) := by
      rw [Bool.eq_iff_iff, beq_iff_eq, beq_iff_eq, eq_comm, same, eq_comm]
    simp only [forward, backward]
    exact ⟨rfl, rfl⟩

/-- On every octet string, whatever its length and whether `char` is signed or not, the parser
ends without a fault and accepts exactly the numerals of the numbers of the type, with their
numbers. It reads back what `std::to_string` writes, so that the canonical tests accept one
spelling of each number. On texts these are the functions that the rest of the model uses. -/
theorem parseNumber_exact (signedChar : Bool) :
    (∀ text, ∃ result, parseNumber signedChar text = .ok result) ∧
    (∀ text n, parseNumber signedChar text = .ok (some n) ↔
      Numeral text n ∧ -2 ^ 63 ≤ n ∧ n ≤ int64Max) ∧
    (∀ n, -2 ^ 63 ≤ n → n ≤ int64Max → parseNumber signedChar (toText n) = .ok (some n) ∧
      (∀ text, approvalInteger signedChar text n n = .ok true ↔ text = toText n) ∧
      ∀ text, localizationInteger signedChar text = .ok (some n) ↔ text = toText n) ∧
    (∀ text minimum maximum, approvalInteger signedChar text minimum maximum = .ok true ↔
      ∃ n, text = toText n ∧ -2 ^ 63 ≤ n ∧ n ≤ int64Max ∧ minimum ≤ n ∧ n ≤ maximum) ∧
    (∀ text n, localizationInteger signedChar text = .ok (some n) ↔
      text = toText n ∧ -2 ^ 63 ≤ n ∧ n ≤ int64Max) ∧
    ∀ (text : String) (minimum maximum : Int),
      parseNumber signedChar (octets text) = .ok (Consent.parseNumber text) ∧
      approvalInteger signedChar (octets text) minimum maximum =
        .ok (Approval.integer text minimum maximum) ∧
      localizationInteger signedChar (octets text) = .ok (Localization.integer text) := by
  refine ⟨parseNumber_ok signedChar, parseNumber_some signedChar, ?_,
    fun _ _ _ => approvalInteger_true, fun _ _ => localizationInteger_some,
    fun text minimum maximum => ⟨parseNumber_octets signedChar text,
      integer_octets signedChar text minimum maximum⟩⟩
  intro n low high
  refine ⟨parseNumber_toText signedChar low high, fun text => ?_, fun text => ?_⟩
  · rw [approvalInteger_true]
    constructor
    · rintro ⟨m, rfl, _, _, above, below⟩
      rw [le_antisymm below above]
    · rintro rfl
      exact ⟨n, rfl, low, high, le_rfl, le_rfl⟩
  · rw [localizationInteger_some]
    exact ⟨And.left, fun same => ⟨same, low, high⟩⟩

end Consent.Machine
