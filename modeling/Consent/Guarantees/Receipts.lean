import Consent.Bootstrap.ReceiptText

/-!
A bootstrap receipt has one representation. The positions that `Parse` compares say where
the fields stand, so what it accepts is the text that `WriteReceipt` produces, octet by octet.
-/
namespace Consent.ReceiptText

/-! ### Searching -/

theorem find_eq_some {needle data : Text} {p i : Nat} : find needle data p = some i ↔
    needle.isPrefixOf (data.drop i) = true ∧ p ≤ i ∧ i ≤ data.length ∧
      ∀ j, p ≤ j → j < i → needle.isPrefixOf (data.drop j) = false := by
  rw [find, List.find?_range'_eq_some]
  simp only [List.mem_range'_1, Bool.not_eq_true']
  constructor
  · rintro ⟨here, ⟨above, below⟩, first⟩
    exact ⟨here, above, by omega, first⟩
  · rintro ⟨here, above, below, first⟩
    exact ⟨here, ⟨above, by omega⟩, first⟩

/-- A search that succeeds where it begins. -/
theorem find_here {needle data : Text} {p : Nat} (inside : p ≤ data.length) :
    find needle data p = some p ↔ ∃ rest, data.drop p = needle ++ rest := by
  rw [find_eq_some, List.isPrefixOf_iff_prefix]
  constructor
  · rintro ⟨⟨rest, same⟩, _⟩
    exact ⟨rest, same.symm⟩
  · rintro ⟨rest, same⟩
    exact ⟨⟨rest, same.symm⟩, le_rfl, inside, fun j above below => by omega⟩

theorem find_newline {data : Text} {p i : Nat} : find [newline] data p = some i ↔
    ∃ line rest, data.drop p = line ++ newline :: rest ∧ newline ∉ line ∧ i = p + line.length := by
  rw [find_eq_some]
  constructor
  · rintro ⟨here, above, inside, first⟩
    rw [List.isPrefixOf_iff_prefix] at here
    obtain ⟨rest, same⟩ := here
    refine ⟨(data.drop p).take (i - p), rest, ?_, ?_, ?_⟩
    · rw [← List.singleton_append, same]
      conv => lhs; rw [← List.take_append_drop (i - p) (data.drop p)]
      rw [List.drop_drop, show p + (i - p) = i by omega]
    · intro member
      obtain ⟨k, small, found⟩ := List.mem_take_iff_getElem.mp member
      have other := first (p + k) (by omega) (by omega)
      rw [← List.drop_drop, List.drop_eq_getElem_cons (by omega), found] at other
      simp at other
    · rw [List.length_take, List.length_drop]
      omega
  · rintro ⟨line, rest, same, clean, rfl⟩
    have length := congrArg List.length same
    rw [List.length_drop, List.length_append, List.length_cons] at length
    refine ⟨?_, by omega, by omega, ?_⟩
    · rw [← List.drop_drop, same, List.drop_left]
      simp
    · intro j above below
      rw [show j = p + (j - p) by omega, ← List.drop_drop, same,
        List.drop_append_of_le_length (by omega), List.drop_eq_getElem_cons (by omega)]
      simp only [List.cons_append, List.isPrefixOf_cons_cons, List.isPrefixOf_nil_left, Bool.and_true,
        beq_eq_false_iff_ne]
      intro isNewline
      exact clean (isNewline ▸ List.getElem_mem _)

theorem substr_eq {data rest value : Text} {p : Nat} (same : data.drop p = value ++ rest) :
    substr data p value.length = value := by
  rw [substr, same, List.take_left]

/-- A line that begins with its label. -/
theorem label_line {label data : Text} {p e : Nat} (clean : newline ∉ label) (inside : p ≤ data.length) :
    (find label data p = some p ∧ find [newline] data p = some e) ↔
      ∃ value rest, data.drop p = label ++ (value ++ newline :: rest) ∧ newline ∉ value ∧
        e = p + label.length + value.length := by
  rw [find_here inside, find_newline]
  constructor
  · rintro ⟨⟨after, labelled⟩, line, rest, split, free, rfl⟩
    rw [labelled] at split
    rcases List.append_eq_append_iff.mp split with ⟨value, rfl, rfl⟩ | ⟨value, rfl, ends⟩
    · refine ⟨value, rest, labelled, fun member => free (List.mem_append_right _ member), ?_⟩
      rw [List.length_append]
      omega
    · -- the line break would be inside the label
      cases value with
      | nil =>
        rw [List.nil_append] at ends
        exact ⟨[], rest, by rw [labelled, ← ends]; simp, by simp, by simp⟩
      | cons o value =>
        rw [List.cons_append, List.cons.injEq] at ends
        exact absurd (List.mem_append_right line (ends.1 ▸ List.mem_cons_self)) clean
  · rintro ⟨value, rest, split, free, rfl⟩
    refine ⟨⟨_, split⟩, label ++ value, rest, by rw [split, List.append_assoc], ?_, ?_⟩
    · simp [clean, free]
    · rw [List.length_append]
      omega

/-! ### Phases -/

theorem phaseOf_iff {name : Text} {phase : Phase} :
    (phaseOf name = phase ∧ phase ≠ .absent) ↔ named phase = some name := by
  have fresh : ∀ {p : Phase}, named p = some name → phaseOf name = p := by
    intro p isName
    have known : ∀ p n, named p = some n → phaseOf n = p := by
      intro p n isName
      cases p <;> cases isName <;> decide
    exact known p name isName
  constructor
  · rintro ⟨rfl, some⟩
    by_contra other
    apply some
    have none : ∀ p, named p ≠ Option.some name := by
      intro p isName
      rw [fresh isName] at other
      exact other isName
    simp [phaseOf, phases, none]
  · intro isName
    refine ⟨fresh isName, ?_⟩
    rintro rfl
    cases isName

theorem newline_notMem_named {phase : Phase} {name : Text} (isName : named phase = some name) :
    newline ∉ name := by
  cases phase <;> cases isName <;> decide

theorem newline_notMem_plain {value : Text} (h : plain value = true) : newline ∉ value := by
  simp only [plain, Bool.not_eq_true', Bool.or_eq_false_iff, List.contains_eq_mem,
    decide_eq_false_iff_not] at h
  exact h.1.1

theorem newline_notMem_hexId {value : Text} {width : Nat} (h : hexId value width = true) :
    newline ∉ value := by
  intro member
  simp only [hexId, Bool.and_eq_true, List.all_eq_true] at h
  exact absurd (h.2 newline member) (by decide)

/-! ### The text of a receipt -/

/-- The conditions that reading and writing share. -/
def Valid (r : Receipt) : Prop :=
  r.unit ≠ [] ∧ r.unit.length ≤ 128 ∧ plain r.unit = true ∧
    (r.phase = .claimed → hexId r.invocation 32 = true ∧ hexId r.nonce 32 = true) ∧
    (r.phase ≠ .claimed → r.invocation = [] ∧ r.nonce = [])

def unitLabel : Text := Wire.octets "unit="

def invocationLabel : Text := Wire.octets "invocation="

def nonceLabel : Text := Wire.octets "nonce="

theorem labels_clean : newline ∉ unitLabel ∧ newline ∉ invocationLabel ∧ newline ∉ nonceLabel := by
  decide

theorem length_unitLabel : unitLabel.length = 5 := by decide

theorem length_invocationLabel : invocationLabel.length = 11 := by decide

theorem length_nonceLabel : nonceLabel.length = 6 := by decide

/-- The text behind the name of the phase. -/
def tail (r : Receipt) : Text :=
  newline :: (unitLabel ++ (r.unit ++ newline :: (invocationLabel ++
    (r.invocation ++ newline :: (nonceLabel ++ (r.nonce ++ [newline]))))))

theorem serialize_iff {r : Receipt} {data : Text} : serialize r = some data ↔
    ∃ name, named r.phase = some name ∧ Valid r ∧ data = start ++ (name ++ tail r) := by
  have lines : Wire.octets "\nunit=" = newline :: unitLabel ∧
      Wire.octets "\ninvocation=" = newline :: invocationLabel ∧
      Wire.octets "\nnonce=" = newline :: nonceLabel := by decide
  simp only [serialize, Option.bind_eq_bind, Option.bind_eq_some_iff, Option.guard_eq_some', lines]
  constructor
  · rintro ⟨name, isName, _, valid, same⟩
    cases same
    exact ⟨name, isName, valid, by simp [tail]⟩
  · rintro ⟨name, isName, valid, rfl⟩
    exact ⟨name, isName, (), valid, by simp [tail]⟩

theorem validClaim_iff {r : Receipt} : validClaim r = true ↔
    (r.phase = .claimed → hexId r.invocation 32 = true ∧ hexId r.nonce 32 = true) ∧
      (r.phase ≠ .claimed → r.invocation = [] ∧ r.nonce = []) := by
  by_cases claimed : r.phase = .claimed <;> simp [validClaim, claimed]

theorem drop_of_drop {data front rest : Text} {p : Nat} (same : data.drop p = front ++ rest) :
    data.drop (p + front.length) = rest := by
  rw [← List.drop_drop, same, List.drop_left]

theorem drop_line {data line rest : Text} {p : Nat} (same : data.drop p = line ++ newline :: rest) :
    data.drop (p + line.length + 1) = rest ∧ p + line.length + 1 ≤ data.length := by
  have length := congrArg List.length same
  rw [List.length_drop, List.length_append, List.length_cons] at length
  refine ⟨?_, by omega⟩
  rw [← List.drop_drop, ← List.drop_drop, same, List.drop_left, List.drop_one, List.tail_cons]

theorem drop_labelled {data label value rest : Text} {p : Nat}
    (same : data.drop p = label ++ (value ++ newline :: rest)) :
    data.drop (p + label.length + value.length + 1) = rest ∧
      p + label.length + value.length + 1 ≤ data.length ∧
      substr data (p + label.length) value.length = value := by
  have after := drop_of_drop same
  obtain ⟨left, room⟩ := drop_line after
  exact ⟨left, room, substr_eq after⟩

theorem length_of_drop {data front rest : Text} {p : Nat} (inside : p ≤ data.length)
    (same : data.drop p = front ++ rest) : p + front.length + rest.length = data.length := by
  have length := congrArg List.length same
  rw [List.length_drop, List.length_append] at length
  omega

/-- The last field goes up to the last octet, which is a line break. -/
theorem last_line {data rest label : Text} {p : Nat} (inside : p ≤ data.length)
    (same : data.drop p = label ++ rest) (clean : newline ∉ label) (some : label ≠ [])
    (ends : data.getLast? = Option.some newline) :
    rest = substr data (p + label.length) (data.length - p - (label.length + 1)) ++ [newline] := by
  have split : data = data.take p ++ (label ++ rest) := by rw [← same, List.take_append_drop]
  have after := drop_of_drop same
  have length := length_of_drop inside same
  cases rest using List.reverseRecOn with
  | nil =>
    rw [List.append_nil] at split
    rw [split, List.getLast?_append_of_ne_nil _ some] at ends
    exact absurd (List.mem_of_getLast? ends) clean
  | append_singleton front last =>
    have isLast : last = newline := by
      rw [split, ← List.append_assoc, ← List.append_assoc, List.getLast?_concat] at ends
      exact Option.some.inj ends
    rw [List.length_append, List.length_singleton] at length
    rw [isLast, substr, after, show data.length - p - (label.length + 1) = front.length by omega,
      List.take_left]

theorem parse_sound {r : Receipt} {data : Text} (accepted : parse data = some r) :
    ∃ name, named r.phase = some name ∧ Valid r ∧ data = start ++ (name ++ tail r) := by
  simp only [parse, Option.bind_eq_bind, Option.bind_eq_some_iff, Option.guard_eq_some'] at accepted
  obtain ⟨_, begins, next, isNext, _, known, unit, isUnit, _, unitHere, unitEnd, isUnitEnd, invocation,
    isInvocation, _, invocationHere, invocationEnd, isInvocationEnd, nonce, isNonce, _,
    ⟨nonceHere, ends⟩, _, unitValid, _, claim, done⟩ := accepted
  subst unitHere invocationHere nonceHere
  cases done
  rw [validClaim_iff] at claim
  have startRoom : start.length ≤ data.length := by
    have length := congrArg List.length begins
    rw [List.length_take] at length
    omega
  obtain ⟨name, rest₁, first, _, rfl⟩ := find_newline.mp isNext
  obtain ⟨second, room⟩ := drop_line first
  obtain ⟨unit, rest₂, third, _, rfl⟩ := (label_line labels_clean.1 room).mp ⟨isUnit, isUnitEnd⟩
  obtain ⟨fourth, room, unitText⟩ := drop_labelled third
  obtain ⟨invocation, rest₃, fifth, _, rfl⟩ :=
    (label_line labels_clean.2.1 room).mp ⟨isInvocation, isInvocationEnd⟩
  obtain ⟨sixth, room, invocationText⟩ := drop_labelled fifth
  obtain ⟨rest₄, seventh⟩ : ∃ rest, data.drop _ = nonceLabel ++ rest := (find_here room).mp isNonce
  have eighth := last_line room seventh labels_clean.2.2 (by decide) ends
  rw [length_nonceLabel] at eighth
  -- the fields of the receipt are the texts between the positions
  have isName : substr data start.length (start.length + name.length - start.length) = name := by
    rw [Nat.add_sub_cancel_left]
    exact substr_eq first
  have isUnit : ∀ p, substr data (p + unitLabel.length) unit.length = unit →
      substr data (p + 5) (p + unitLabel.length + unit.length - p - 5) = unit := by
    intro p same
    rw [length_unitLabel] at same ⊢
    rwa [show p + 5 + unit.length - p - 5 = unit.length by omega]
  have isInvocation : ∀ p, substr data (p + invocationLabel.length) invocation.length = invocation →
      substr data (p + 11) (p + invocationLabel.length + invocation.length - p - 11) = invocation := by
    intro p same
    rw [length_invocationLabel] at same ⊢
    rwa [show p + 11 + invocation.length - p - 11 = invocation.length by omega]
  simp only [isName, isUnit _ unitText, isInvocation _ invocationText] at unitValid claim known ⊢
  refine ⟨name, phaseOf_iff.mp ⟨rfl, known⟩, ⟨unitValid.1, unitValid.2.1, unitValid.2.2, claim⟩, ?_⟩
  have lines : data.drop start.length = name ++ newline :: (unitLabel ++ (unit ++ newline ::
      (invocationLabel ++ (invocation ++ newline :: (nonceLabel ++ rest₄))))) := by
    rw [first, ← second, third, ← fourth, fifth, ← sixth, seventh]
  conv => lhs; rw [← List.take_append_drop start.length data, begins, lines, eighth]
  rfl

theorem claim_clean {r : Receipt} (valid : Valid r) : newline ∉ r.invocation := by
  obtain ⟨_, _, _, claimed, other⟩ := valid
  by_cases phase : r.phase = .claimed
  · exact newline_notMem_hexId (claimed phase).1
  · simp [(other phase).1]

theorem parse_complete {r : Receipt} {name : Text} (isName : named r.phase = some name)
    (valid : Valid r) : parse (start ++ (name ++ tail r)) = some r := by
  obtain ⟨unitLabelClean, invocationLabelClean, _⟩ := labels_clean
  obtain ⟨filled, short, plainUnit, claim⟩ := id valid
  obtain ⟨known, phase⟩ := phaseOf_iff.mpr isName
  generalize isData : start ++ (name ++ tail r) = data
  have begins : data.take start.length = start := by rw [← isData, List.take_left]
  have first : data.drop start.length = name ++ tail r := by rw [← isData, List.drop_left]
  have isNext := find_newline.mpr ⟨name, _, first, newline_notMem_named isName, rfl⟩
  obtain ⟨second, room⟩ := drop_line first
  have nameText : substr data start.length (start.length + name.length - start.length) = name := by
    rw [Nat.add_sub_cancel_left]
    exact substr_eq first
  generalize start.length + name.length = next at isNext second room nameText
  obtain ⟨isUnit, isUnitEnd⟩ := (label_line unitLabelClean room).mpr
    ⟨r.unit, _, second, newline_notMem_plain plainUnit, rfl⟩
  obtain ⟨third, room, unitText⟩ := drop_labelled second
  rw [length_unitLabel] at unitText isUnitEnd third room
  generalize isEnd : next + 1 + 5 + r.unit.length = unitEnd at isUnitEnd third room
  obtain ⟨isInvocation, isInvocationEnd⟩ := (label_line invocationLabelClean room).mpr
    ⟨r.invocation, _, third, claim_clean valid, rfl⟩
  obtain ⟨fourth, room, invocationText⟩ := drop_labelled third
  rw [length_invocationLabel] at invocationText isInvocationEnd fourth room
  generalize isEnd' : unitEnd + 1 + 11 + r.invocation.length = invocationEnd at isInvocationEnd fourth room
  have isNonce := (find_here room).mpr ⟨_, fourth⟩
  have nonceText := substr_eq (drop_of_drop fourth)
  have length := length_of_drop room fourth
  rw [length_nonceLabel] at nonceText length
  rw [List.length_append, List.length_singleton] at length
  have ends : data.getLast? = some newline := by
    rw [← isData]
    simp [tail, List.getLast?_append, List.getLast?_cons]
  have same : (⟨phaseOf (substr data start.length (next - start.length)),
      substr data (next + 1 + 5) (unitEnd - (next + 1) - 5),
      substr data (unitEnd + 1 + 11) (invocationEnd - (unitEnd + 1) - 11),
      substr data (invocationEnd + 1 + 6) (data.length - (invocationEnd + 1) - 7)⟩ : Receipt) = r := by
    rw [nameText, known, show unitEnd - (next + 1) - 5 = r.unit.length by omega, unitText,
      show invocationEnd - (unitEnd + 1) - 11 = r.invocation.length by omega, invocationText,
      show data.length - (invocationEnd + 1) - 7 = r.nonce.length by omega, nonceText]
  simp only [parse, Option.bind_eq_bind, Option.bind_eq_some_iff, Option.guard_eq_some']
  refine ⟨(), begins, next, isNext, (), by rwa [nameText, known], _, isUnit, (), rfl, unitEnd, isUnitEnd,
    _, isInvocation, (), rfl, invocationEnd, isInvocationEnd, _, isNonce, (), ⟨rfl, ends⟩, (), ?_, (),
    ?_, congrArg some same⟩
  · rw [show unitEnd - (next + 1) - 5 = r.unit.length by omega, unitText]
    exact ⟨filled, short, plainUnit⟩
  · rw [same]
    exact validClaim_iff.mpr claim

/-- What is read is what is written, octet by octet, and every receipt that is written is read. -/
theorem receipt_has_one_text (r : Receipt) (data : Text) :
    parse data = some r ↔ serialize r = some data := by
  rw [serialize_iff]
  constructor
  · exact parse_sound
  · rintro ⟨name, isName, valid, rfl⟩
    exact parse_complete isName valid

end Consent.ReceiptText
