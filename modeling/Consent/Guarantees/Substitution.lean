import Consent.Guarantees.Rendering

/-!
Rendering is substitution.

A template is a sequence of literal segments without braces and of parameters in braces.
The scanner of `Placeholders` accepts exactly such texts, and the formatter replaces every
parameter by the value of its argument, once and verbatim.
-/
namespace Consent.Localization

/-! ### Templates -/

/-- The piece as it stands in a template. -/
def Piece.source : Piece → List Char
  | .literal text => text
  | .item name => '{' :: (name ++ ['}'])

def Piece.Formed : Piece → Prop
  | .literal text => '{' ∉ text ∧ '}' ∉ text
  | .item name => isName (String.ofList name) = true

def Piece.names : Piece → Finset String
  | .literal _ => ∅
  | .item name => {String.ofList name}

/-- The text that the pieces add up to. -/
def source (parts : List Piece) : List Char := parts.flatMap Piece.source

/-- The parameters among the pieces. -/
def parameters : List Piece → Finset String
  | [] => ∅
  | piece :: parts => piece.names ∪ parameters parts

/-- The template with every parameter replaced by its value. -/
def substitute (values : Message) (parts : List Piece) : String := expand values "" parts

/-- The text is a well-formed template of these pieces. -/
structure IsTemplate (text : String) (parts : List Piece) : Prop where
  nonempty : text ≠ ""
  size : text.utf8ByteSize ≤ kMaxTemplate
  clean : '\x00' ∉ text.toList
  formed : ∀ piece ∈ parts, piece.Formed
  whole : text.toList = source parts

theorem no_brace_of_isName {name : List Char} (h : isName (String.ofList name) = true) :
    '}' ∉ name := by
  simp only [isName, Bool.and_eq_true, String.toList_ofList] at h
  intro brace
  cases name with
  | nil => cases brace
  | cons first rest =>
    simp only [Bool.and_eq_true, List.all_eq_true] at h
    rcases List.mem_cons.mp brace with rfl | inside
    · exact absurd h.2.1 (by decide)
    · exact absurd (h.2.2 _ inside) (by decide)

/-- The scanner passes over a literal segment. -/
theorem scanned_literal {text : List Char} (opening : '{' ∉ text) (closing : '}' ∉ text)
    (rest : List Char) : scanned (text ++ rest) none = scanned rest none := by
  induction text with
  | nil => rfl
  | cons c text ih =>
    rw [List.mem_cons, not_or] at opening closing
    rw [List.cons_append, scanned, if_neg (by simpa using Ne.symm closing.1),
      if_neg (by simpa using Ne.symm opening.1)]
    exact ih opening.2 closing.2

theorem scanned_item {name : List Char} (closing : '}' ∉ name) (read rest : List Char) :
    scanned (name ++ '}' :: rest) (some read) =
      if isName (String.ofList (read.reverse ++ name)) then
        (scanned rest none).map (insert (String.ofList (read.reverse ++ name)))
      else none := by
  induction name generalizing read with
  | nil => simp [scanned]
  | cons c name ih =>
    rw [List.mem_cons, not_or] at closing
    rw [List.cons_append, scanned, if_neg (by simpa using Ne.symm closing.1), ih closing.2]
    simp

/-- A text that is put together from well-formed pieces scans as their parameters. -/
theorem scanned_source {parts : List Piece} (formed : ∀ piece ∈ parts, piece.Formed) :
    scanned (source parts) none = some (parameters parts) := by
  induction parts with
  | nil => rfl
  | cons piece parts ih =>
    have rest := ih fun other member => formed other (List.mem_cons_of_mem _ member)
    have first := formed piece List.mem_cons_self
    cases piece with
    | literal text =>
      rw [source, List.flatMap_cons, ← source, Piece.source, scanned_literal first.1 first.2, rest,
        parameters, Piece.names, Finset.empty_union]
    | item name =>
      have closing := no_brace_of_isName first
      have valid : isName (String.ofList name) = true := first
      rw [source, List.flatMap_cons, Piece.source, List.cons_append, scanned, if_neg (by decide),
        if_pos (by decide), List.append_assoc, List.singleton_append, scanned_item closing]
      rw [List.reverse_nil, List.nil_append, if_pos valid, ← source, rest, Option.map_some,
        parameters, Piece.names, Finset.insert_eq]

/-- What the scanner has read of an open parameter. -/
def opened : Option (List Char) → List Char
  | none => []
  | some name => '{' :: name.reverse

/-- A text that scans is put together from well-formed pieces. -/
theorem exists_parts {text : List Char} {state : Option (List Char)} {names : Finset String}
    (h : scanned text state = some names) :
    ∃ parts, (∀ piece ∈ parts, piece.Formed) ∧ opened state ++ text = source parts ∧
      parameters parts = names := by
  induction text generalizing state names with
  | nil =>
    cases state with
    | none =>
      cases h
      exact ⟨[], by simp, rfl, rfl⟩
    | some name => cases h
  | cons c text ih =>
    cases state with
    | none =>
      rw [scanned] at h
      split_ifs at h with closing opening
      · obtain ⟨parts, formed, whole, found⟩ := ih h
        refine ⟨parts, formed, ?_, found⟩
        rw [← whole, eq_of_beq opening]
        rfl
      · obtain ⟨parts, formed, whole, found⟩ := ih h
        refine ⟨.literal [c] :: parts, ?_, ?_, ?_⟩
        · intro piece member
          rcases List.mem_cons.mp member with rfl | member
          · have other : c ≠ '{' ∧ c ≠ '}' := ⟨by simpa using opening, by simpa using closing⟩
            exact ⟨by simpa using Ne.symm other.1, by simpa using Ne.symm other.2⟩
          · exact formed piece member
        · rw [source, List.flatMap_cons, ← source, ← whole]
          rfl
        · rw [parameters, Piece.names, Finset.empty_union, found]
    | some name =>
      rw [scanned] at h
      split_ifs at h with closing valid
      · obtain ⟨new, rest, rfl⟩ := Option.map_eq_some_iff.mp h
        obtain ⟨parts, formed, whole, found⟩ := ih rest
        refine ⟨.item name.reverse :: parts, ?_, ?_, ?_⟩
        · intro piece member
          rcases List.mem_cons.mp member with rfl | member
          · exact valid
          · exact formed piece member
        · rw [source, List.flatMap_cons, ← source, ← whole, eq_of_beq closing]
          simp [opened, Piece.source]
        · rw [parameters, Piece.names, found, Finset.insert_eq]
      · obtain ⟨parts, formed, whole, found⟩ := ih h
        refine ⟨parts, formed, ?_, found⟩
        rw [← whole]
        simp [opened]

theorem template_eq_some {text : String} {names : Finset String} :
    template text = some names ↔ ∃ parts, IsTemplate text parts ∧ parameters parts = names := by
  have admitted : (text.isEmpty || !isText text kMaxTemplate) = false ↔
      text ≠ "" ∧ text.utf8ByteSize ≤ kMaxTemplate ∧ '\x00' ∉ text.toList := by
    simp [isText]
  unfold template
  constructor
  · intro h
    split_ifs at h with refused
    obtain ⟨nonempty, size, clean⟩ := admitted.mp (by simpa using refused)
    obtain ⟨parts, formed, whole, found⟩ := exists_parts h
    exact ⟨parts, ⟨nonempty, size, clean, formed, by simpa [opened] using whole⟩, found⟩
  · rintro ⟨parts, h, rfl⟩
    rw [admitted.mpr ⟨h.nonempty, h.size, h.clean⟩, if_neg (by decide), h.whole]
    exact scanned_source h.formed

/-- `Placeholders` accepts the templates with few enough parameters, and collects them. -/
theorem placeholders_iff {text : String} {names result : Finset String}
    (few : names.card ≤ kMaxParameters) :
    placeholders text names = .ok result ↔
      ∃ parts, IsTemplate text parts ∧ result = names ∪ parameters parts ∧
        result.card ≤ kMaxParameters := by
  rw [placeholders_eq_ok few]
  constructor
  · rintro ⟨new, found, same, small⟩
    obtain ⟨parts, formed, rfl⟩ := template_eq_some.mp found
    exact ⟨parts, formed, same, small⟩
  · rintro ⟨parts, formed, same, small⟩
    exact ⟨_, template_eq_some.mpr ⟨parts, formed, rfl⟩, same, small⟩

/-! ### Rendering -/

theorem pieces_literal {text : List Char} (opening : '{' ∉ text) (rest literal : List Char) :
    pieces (text ++ rest) none literal = pieces rest none (text.reverse ++ literal) := by
  induction text generalizing literal with
  | nil => rfl
  | cons c text ih =>
    rw [List.mem_cons, not_or] at opening
    rw [List.cons_append, pieces, if_neg (by simpa using Ne.symm opening.1), ih opening.2]
    simp

theorem pieces_item {name : List Char} (closing : '}' ∉ name) (read rest : List Char) :
    pieces (name ++ '}' :: rest) (some read) [] =
      .item (read.reverse ++ name) :: pieces rest none [] := by
  induction name generalizing read with
  | nil => simp [pieces]
  | cons c name ih =>
    rw [List.mem_cons, not_or] at closing
    rw [List.cons_append, pieces, if_neg (by simpa using Ne.symm closing.1), ih closing.2]
    simp

/-- The pieces that the renderer finds expand as those that the template is made of. -/
theorem expand_pieces {parts : List Piece} (formed : ∀ piece ∈ parts, piece.Formed)
    (values : Message) (rendered : String) (literal : List Char) :
    expand values rendered (pieces (source parts) none literal) =
      expand values (rendered ++ String.ofList literal.reverse) parts := by
  induction parts generalizing rendered literal with
  | nil => rfl
  | cons piece parts ih =>
    have rest := ih fun other member => formed other (List.mem_cons_of_mem _ member)
    have first := formed piece List.mem_cons_self
    cases piece with
    | literal text =>
      rw [source, List.flatMap_cons, ← source, Piece.source, pieces_literal first.1, rest]
      simp [expand, Piece.text, String.append_assoc]
    | item name =>
      rw [source, List.flatMap_cons, ← source, Piece.source, List.cons_append, List.append_assoc,
        List.singleton_append, pieces, if_pos (by decide), pieces_item (no_brace_of_isName first)]
      have tail := rest (rendered ++ String.ofList literal.reverse ++ values.get (String.ofList name)) []
      simpa [expand, Piece.text] using tail

/-- What a piece adds has to fit. -/
theorem renderPiece_ok {values : Message} {rendered out : String} {piece : Piece}
    (small : rendered.utf8ByteSize ≤ kMaxRendered) (h : renderPiece values rendered piece = .ok out) :
    out = rendered ++ piece.text values ∧ out.utf8ByteSize ≤ kMaxRendered := by
  cases piece with
  | literal text =>
    rw [renderPiece] at h
    split_ifs at h with large
    cases h
    refine ⟨rfl, ?_⟩
    rw [String.utf8ByteSize_append]
    omega
  | item name =>
    rw [renderPiece] at h
    split at h
    · cases h
    · rename_i value found
      split_ifs at h with large
      cases h
      refine ⟨by rw [Piece.text, Message.get_eq, found, Option.getD_some], ?_⟩
      rw [String.utf8ByteSize_append]
      omega

theorem render_ok {text out : String} {values : Message} (h : render text values = .ok out) :
    out = expand values "" (pieces text.toList none []) ∧ out.utf8ByteSize ≤ kMaxRendered := by
  unfold render at h
  have begins : "".utf8ByteSize ≤ kMaxRendered := by decide
  generalize pieces text.toList none [] = parts at h ⊢
  generalize "" = rendered at h begins ⊢
  induction parts generalizing rendered with
  | nil =>
    cases h
    exact ⟨rfl, begins⟩
  | cons piece parts ih =>
    rw [List.foldlM_cons] at h
    obtain ⟨middle, first, h⟩ := Except.of_bind_ok h
    obtain ⟨rfl, small⟩ := renderPiece_ok begins first
    exact ih _ h small

/-- A template whose parameters have values renders as its substitution, if that fits. -/
theorem render_iff {text out : String} {values : Message} {parts : List Piece}
    (formed : IsTemplate text parts) (known : ∀ name ∈ parameters parts, name ∈ values) :
    render text values = .ok out ↔
      out = substitute values parts ∧ (substitute values parts).utf8ByteSize ≤ kMaxRendered := by
  have same : expand values "" (pieces text.toList none []) = substitute values parts := by
    rw [formed.whole, expand_pieces formed.formed]
    rfl
  constructor
  · intro h
    obtain ⟨rfl, small⟩ := render_ok h
    rw [same] at small ⊢
    exact ⟨rfl, small⟩
  · rintro ⟨rfl, small⟩
    rw [← same] at small ⊢
    exact render_eq (template_eq_some.mpr ⟨parts, formed, rfl⟩) known small

example : render "x{A}y" (Message.of [("A", "{B}")]) = .ok "x{B}y" := by decide +kernel

/-! ### The arithmetic of the limit -/

/-- Subtraction of `size_t`. -/
def sizeSub (a b : Nat) : Nat := (a + 2 ^ 64 - b) % 2 ^ 64

/-- The step of `Render` with the comparison as the machine makes it. -/
def renderPieceSized (values : Message) (rendered : String) : Piece → Except String String
  | .literal text =>
    if (String.ofList text).utf8ByteSize > sizeSub kMaxRendered rendered.utf8ByteSize then
      throw "rendered message limit exceeded"
    else pure (rendered ++ String.ofList text)
  | .item name =>
    match values[String.ofList name]? with
    | none => throw "rendered argument missing or output too large"
    | some value =>
      if value.utf8ByteSize > sizeSub kMaxRendered rendered.utf8ByteSize then
        throw "rendered argument missing or output too large"
      else pure (rendered ++ value)

theorem sizeSub_eq {b : Nat} (small : b ≤ kMaxRendered) : sizeSub kMaxRendered b = kMaxRendered - b := by
  have limit : kMaxRendered = 8192 := rfl
  unfold sizeSub
  omega

/-- The output never exceeds the limit, so the subtraction does not wrap around. -/
theorem render_sized (text : String) (values : Message) :
    (pieces text.toList none []).foldlM (renderPieceSized values) "" = render text values := by
  have step : ∀ (rendered : String) (piece : Piece), rendered.utf8ByteSize ≤ kMaxRendered →
      renderPieceSized values rendered piece = renderPiece values rendered piece := by
    intro rendered piece small
    cases piece with
    | literal text => simp only [renderPieceSized, renderPiece, sizeSub_eq small]
    | item name =>
      rcases found : values[String.ofList name]? with _ | value
      · simp only [renderPieceSized, renderPiece, found]
      · simp only [renderPieceSized, renderPiece, found, sizeSub_eq small]
  have begins : "".utf8ByteSize ≤ kMaxRendered := by decide
  unfold render
  generalize pieces text.toList none [] = parts
  generalize "" = rendered at begins ⊢
  induction parts generalizing rendered with
  | nil => rfl
  | cons piece parts ih =>
    rw [List.foldlM_cons, List.foldlM_cons, step rendered piece begins]
    rcases turn : renderPiece values rendered piece with e | next
    · rfl
    · exact ih next (renderPiece_ok begins turn).2

/-! ### Arguments -/

section
variable (prompt : Message) (requirement : Nat)

def argumentName (k : Nat) : String := prompt.get (argKey requirement k "name")

def argumentValue (k : Nat) : String := prompt.get (argKey requirement k "value")

/-- The checks of one argument. -/
structure ValidArgument (k : Nat) : Prop where
  named : isName (argumentName prompt requirement k) = true
  present : argKey requirement k "value" ∈ prompt
  typed : (prompt.get (argKey requirement k "type") = "integer" ∧
      (integer (argumentValue prompt requirement k)).isSome = true) ∨
    (prompt.get (argKey requirement k "type") = "string" ∧
      isText (argumentValue prompt requirement k) kMaxString = true)

/-- The values of the first `n` arguments. -/
def argumentValues (n : Nat) : Message :=
  (List.range n).foldl (fun values k =>
    values.insert (argumentName prompt requirement k) (argumentValue prompt requirement k)) ∅

variable {prompt requirement}

theorem mem_argumentValues {n : Nat} {name : String} :
    name ∈ argumentValues prompt requirement n ↔ ∃ k < n, argumentName prompt requirement k = name := by
  induction n with
  | zero => simp [argumentValues]
  | succ n ih =>
    rw [argumentValues, List.range_succ, List.foldl_append, List.foldl_cons, List.foldl_nil,
      ← argumentValues, Std.ExtTreeMap.mem_insert, ih, Std.LawfulEqCmp.compare_eq_iff_eq]
    constructor
    · rintro (rfl | ⟨k, inside, rfl⟩)
      · exact ⟨n, by omega, rfl⟩
      · exact ⟨k, by omega, rfl⟩
    · rintro ⟨k, inside, rfl⟩
      rcases Nat.lt_succ_iff_lt_or_eq.mp inside with less | rfl
      · exact .inr ⟨k, less, rfl⟩
      · exact .inl rfl

/-- The arguments have different names. -/
def Distinct (prompt : Message) (requirement n : Nat) : Prop :=
  (List.range n).Pairwise fun i j => argumentName prompt requirement i ≠ argumentName prompt requirement j

theorem getElem?_argumentValues {n k : Nat} (distinct : Distinct prompt requirement n) (inside : k < n) :
    (argumentValues prompt requirement n)[argumentName prompt requirement k]? =
      some (argumentValue prompt requirement k) :=
  Maps.getElem?_foldl_insert_of_mem distinct (List.mem_range.mpr inside) ∅

theorem distinct_succ {n : Nat} : Distinct prompt requirement (n + 1) ↔
    Distinct prompt requirement n ∧
      argumentName prompt requirement n ∉ argumentValues prompt requirement n := by
  rw [Distinct, List.range_succ, List.pairwise_append]
  simp only [List.pairwise_cons, List.not_mem_nil, false_imp_iff, implies_true, List.Pairwise.nil,
    and_self, List.mem_singleton, forall_eq, true_and, List.mem_range, mem_argumentValues, not_exists,
    not_and]
  rfl

/-- The condition under which an argument is refused. -/
theorem argument_admitted {values : Message} {k : Nat} :
    (!isName (argumentName prompt requirement k) || !prompt.contains (argKey requirement k "value") ||
      (prompt.get (argKey requirement k "type") != "integer" &&
        prompt.get (argKey requirement k "type") != "string") ||
      (prompt.get (argKey requirement k "type") == "integer" &&
        (integer (argumentValue prompt requirement k)).isNone) ||
      (prompt.get (argKey requirement k "type") == "string" &&
        !isText (argumentValue prompt requirement k) kMaxString) ||
      values.contains (argumentName prompt requirement k)) = false ↔
    ValidArgument prompt requirement k ∧ argumentName prompt requirement k ∉ values := by
  have known : values.contains (argumentName prompt requirement k) = false ↔
      argumentName prompt requirement k ∉ values := by
    rw [← Std.ExtTreeMap.contains_iff_mem, Bool.not_eq_true]
  simp only [Bool.or_eq_false_iff, known, Bool.not_eq_false']
  constructor
  · rintro ⟨⟨⟨⟨⟨named, present⟩, kind⟩, number⟩, text⟩, new⟩
    refine ⟨⟨named, Std.ExtTreeMap.contains_iff_mem.mp present, ?_⟩, new⟩
    by_cases numeric : prompt.get (argKey requirement k "type") = "integer"
    · refine .inl ⟨numeric, ?_⟩
      rw [numeric] at number
      simpa using number
    · have textual : prompt.get (argKey requirement k "type") = "string" := by
        simpa [numeric] using kind
      refine .inr ⟨textual, ?_⟩
      rw [textual] at text
      simpa using text
  · rintro ⟨⟨named, present, typed⟩, new⟩
    refine ⟨⟨⟨⟨⟨named, Std.ExtTreeMap.contains_iff_mem.mpr present⟩, ?_⟩, ?_⟩, ?_⟩, new⟩
    · rcases typed with ⟨kind, _⟩ | ⟨kind, _⟩ <;> simp [kind]
    · rcases typed with ⟨kind, number⟩ | ⟨kind, _⟩
      · simpa [kind] using number
      · simp [kind]
    · rcases typed with ⟨kind, _⟩ | ⟨kind, text⟩
      · simp [kind]
      · simp [kind, text]

theorem promptArgument_iff {values result : Message} {k : Nat} :
    promptArgument prompt requirement values k = .ok result ↔
      (ValidArgument prompt requirement k ∧ argumentName prompt requirement k ∉ values) ∧
        result = values.insert (argumentName prompt requirement k)
          (argumentValue prompt requirement k) := by
  rw [← argument_admitted]
  unfold promptArgument
  dsimp only
  split
  · rename_i refused
    simp only [throw, throwThe, MonadExceptOf.throw, reduceCtorEq, false_iff, not_and]
    intro admitted
    exact absurd (refused.symm.trans admitted) (by decide)
  · rename_i admitted
    rw [Bool.not_eq_true] at admitted
    constructor
    · intro h
      cases h
      exact ⟨admitted, rfl⟩
    · rintro ⟨_, rfl⟩
      rfl

theorem promptArgument_loop {n : Nat} {result : Message} :
    (List.range n).foldlM (promptArgument prompt requirement) ∅ = .ok result ↔
      (∀ k < n, ValidArgument prompt requirement k) ∧ Distinct prompt requirement n ∧
        result = argumentValues prompt requirement n := by
  induction n generalizing result with
  | zero =>
    simp only [Nat.not_lt_zero, false_imp_iff, implies_true, true_and]
    constructor
    · intro h
      cases h
      exact ⟨List.Pairwise.nil, rfl⟩
    · rintro ⟨_, rfl⟩
      rfl
  | succ n ih =>
    have values : argumentValues prompt requirement (n + 1) =
        (argumentValues prompt requirement n).insert (argumentName prompt requirement n)
          (argumentValue prompt requirement n) := by
      rw [argumentValues, List.range_succ, List.foldl_append]
      rfl
    rw [List.range_succ, List.foldlM_append, distinct_succ, values]
    constructor
    · intro h
      obtain ⟨middle, first, h⟩ := Except.of_bind_ok h
      obtain ⟨each, distinct, rfl⟩ := ih.mp first
      rw [List.foldlM_cons] at h
      obtain ⟨last, turn, h⟩ := Except.of_bind_ok h
      cases h
      obtain ⟨⟨valid, new⟩, rfl⟩ := promptArgument_iff.mp turn
      refine ⟨fun k inside => ?_, ⟨distinct, new⟩, rfl⟩
      rcases Nat.lt_succ_iff_lt_or_eq.mp inside with less | rfl
      · exact each k less
      · exact valid
    · rintro ⟨each, ⟨distinct, new⟩, rfl⟩
      rw [ih.mpr ⟨fun k inside => each k (by omega), distinct, rfl⟩]
      have turn := promptArgument_iff.mpr ⟨⟨each n (by omega), new⟩, rfl⟩
      simp only [bind, Except.bind, List.foldlM_cons, List.foldlM_nil, turn]
      rfl

/-- The arguments of the row: `n` of them, all valid and of different names, if the row has a
template version, and none otherwise. -/
structure Arguments (prompt : Message) (requirement n : Nat) : Prop where
  untyped : row requirement "template_version" ∉ prompt → n = 0
  version : row requirement "template_version" ∈ prompt →
    prompt.get (row requirement "template_version") = "1"
  count : row requirement "template_version" ∈ prompt →
    integer (prompt.get (row requirement "arg_count")) = some (n : Int)
  few : n ≤ kMaxParameters
  valid : ∀ k < n, ValidArgument prompt requirement k
  distinct : Distinct prompt requirement n

theorem promptArguments_iff {count : Int} {values : Message} :
    promptArguments prompt requirement = .ok (count, values) ↔
      ∃ n, Arguments prompt requirement n ∧ count = n ∧
        values = argumentValues prompt requirement n := by
  have none : Distinct prompt requirement 0 := List.Pairwise.nil
  unfold promptArguments
  by_cases typed : row requirement "template_version" ∈ prompt
  · rw [Std.ExtTreeMap.contains_iff_mem.mpr typed, Bool.not_true, if_neg (by decide)]
    constructor
    · intro h
      split at h
      · cases h
      · rename_i number parsed
        split_ifs at h with refused
        obtain ⟨result, loop, h⟩ := Except.of_bind_ok h
        cases h
        simp only [Bool.or_eq_true, bne_iff_ne, decide_eq_true_eq, not_or, not_not, not_lt, gt_iff_lt]
          at refused
        obtain ⟨⟨version, low⟩, high⟩ := refused
        obtain ⟨valid, distinct, rfl⟩ := promptArgument_loop.mp loop
        have same : ((count.toNat : Nat) : Int) = count := Int.toNat_of_nonneg low
        exact ⟨count.toNat, ⟨fun absent => absurd typed absent, fun _ => version,
          fun _ => by rw [parsed, same], by omega, valid, distinct⟩, same.symm, rfl⟩
    · rintro ⟨n, arguments, rfl, rfl⟩
      rw [arguments.count typed]
      dsimp only
      have few := arguments.few
      have admitted : ¬ ((prompt.get (row requirement "template_version") != "1" ||
          decide ((n : Int) < 0) || decide ((n : Int) > kMaxParameters)) = true) := by
        rw [arguments.version typed]
        simp
        omega
      rw [if_neg admitted, Int.toNat_natCast,
        promptArgument_loop.mpr ⟨arguments.valid, arguments.distinct, rfl⟩]
      rfl
  · have absent : prompt.contains (row requirement "template_version") = false := by
      rw [← Bool.not_eq_true, Std.ExtTreeMap.contains_iff_mem]
      exact typed
    rw [absent, Bool.not_false, if_pos rfl]
    constructor
    · intro h
      cases h
      exact ⟨0, ⟨fun _ => rfl, fun h => absurd h typed, fun h => absurd h typed, by decide,
        by omega, none⟩, rfl, rfl⟩
    · rintro ⟨n, arguments, rfl, rfl⟩
      rw [arguments.untyped typed]
      rfl

/-! ### Prompts -/

/-- The checks of `FormatPrompt` other than that of the output's size: the pieces of title and
body, and `n` arguments. -/
structure Shows (prompt : Message) (requirement : Nat) (field : String) (title body : List Piece)
    (n : Nat) : Prop where
  chosen : field = "title" ∨ field = "body"
  size : prompt.size ≤ kMaxFields
  count : ∃ count, integer (prompt.get "count") = some count ∧ 1 ≤ count ∧
    count ≤ (kMaxRequirements : Int) ∧ (requirement : Int) < count
  titled : IsTemplate (prompt.get (row requirement "title")) title
  bodied : IsTemplate (prompt.get (row requirement "body")) body
  few : (parameters title ∪ parameters body).card ≤ kMaxParameters
  arguments : Arguments prompt requirement n
  expected : ∀ key ∈ prompt, promptArgumentField prompt requirement n key = .ok ()
  named : ∀ name, name ∈ parameters title ∪ parameters body ↔
    ∃ k < n, argumentName prompt requirement k = name

/-- The template of the field that is shown. -/
def shown (field : String) (title body : List Piece) : List Piece :=
  if field = "title" then title else body

theorem foldlM_unit {items : List (String × String)} {f : String → Except String Unit} :
    items.foldlM (fun _ entry => f entry.1) () = .ok () ↔ ∀ entry ∈ items, f entry.1 = .ok () := by
  induction items with
  | nil => simp [pure, Except.pure]
  | cons entry items ih =>
    rw [List.foldlM_cons, List.forall_mem_cons]
    constructor
    · intro h
      obtain ⟨_, first, rest⟩ := Except.of_bind_ok h
      exact ⟨first, ih.mp rest⟩
    · rintro ⟨first, rest⟩
      rw [first]
      exact ih.mpr rest

theorem mem_keys_argumentValues {n : Nat} {names : Finset String} :
    names = (argumentValues prompt requirement n).keys.toFinset ↔
      ∀ name, name ∈ names ↔ ∃ k < n, argumentName prompt requirement k = name := by
  rw [Finset.ext_iff]
  simp only [List.mem_toFinset, Std.ExtTreeMap.mem_keys, mem_argumentValues]

/-- The shown template has a value for each of its parameters. -/
theorem Shows.renders {field : String} {title body : List Piece} {n : Nat}
    (h : Shows prompt requirement field title body n) {out : String} :
    render (prompt.get (row requirement field)) (argumentValues prompt requirement n) = .ok out ↔
      out = substitute (argumentValues prompt requirement n) (shown field title body) ∧
        out.utf8ByteSize ≤ kMaxRendered := by
  have known : ∀ name, name ∈ parameters title ∪ parameters body →
      name ∈ argumentValues prompt requirement n := by
    intro name member
    rw [mem_argumentValues]
    exact (h.named name).mp member
  have formed : IsTemplate (prompt.get (row requirement field)) (shown field title body) ∧
      ∀ name ∈ parameters (shown field title body), name ∈ argumentValues prompt requirement n := by
    rcases h.chosen with rfl | rfl
    · exact ⟨h.titled, fun name member => known name (Finset.mem_union_left _ member)⟩
    · exact ⟨h.bodied, fun name member => known name (Finset.mem_union_right _ member)⟩
  rw [render_iff formed.1 formed.2]
  constructor
  · rintro ⟨rfl, small⟩
    exact ⟨rfl, small⟩
  · rintro ⟨rfl, small⟩
    exact ⟨rfl, small⟩

theorem formatPrompt_iff {field out : String} :
    formatPrompt prompt requirement field = .ok out ↔
      ∃ title body n, Shows prompt requirement field title body n ∧
        out = substitute (argumentValues prompt requirement n) (shown field title body) ∧
        out.utf8ByteSize ≤ kMaxRendered := by
  have entries : ∀ n : Int, (prompt.toList.foldlM (fun _ entry =>
      promptArgumentField prompt requirement n entry.1) () = .ok ()) ↔
        ∀ key ∈ prompt, promptArgumentField prompt requirement n key = .ok () := by
    intro n
    rw [foldlM_unit (f := promptArgumentField prompt requirement n)]
    constructor
    · intro each key member
      obtain ⟨value, stored⟩ := Option.isSome_iff_exists.mp
        (Std.ExtTreeMap.isSome_getElem?_iff_mem.mpr member)
      exact each (key, value) (Std.ExtTreeMap.mem_toList_iff_getElem?_eq_some.mpr stored)
    · intro each entry member
      refine each entry.1 (Std.ExtTreeMap.isSome_getElem?_iff_mem.mp ?_)
      rw [Std.ExtTreeMap.mem_toList_iff_getElem?_eq_some.mp member]
      rfl
  constructor
  · intro h
    unfold formatPrompt at h
    split at h
    · cases h
    rename_i count counted
    split_ifs at h with refused
    simp only [Bool.or_eq_true, Bool.and_eq_true, bne_iff_ne, decide_eq_true_eq, not_or, not_and,
      not_not, not_lt, gt_iff_lt, ge_iff_le, not_le] at refused
    obtain ⟨⟨⟨⟨chosen, size⟩, low⟩, high⟩, inside⟩ := refused
    obtain ⟨titles, first, h⟩ := Except.of_bind_ok h
    obtain ⟨title, titled, rfl, small⟩ := (placeholders_iff (by simp)).mp first
    rw [Finset.empty_union] at small h
    obtain ⟨names, second, h⟩ := Except.of_bind_ok h
    obtain ⟨body, bodied, rfl, few⟩ := (placeholders_iff small).mp (by simpa using second)
    obtain ⟨⟨arguments, values⟩, third, h⟩ := Except.of_bind_ok h
    obtain ⟨n, valid, rfl, rfl⟩ := promptArguments_iff.mp third
    obtain ⟨_, fourth, h⟩ := Except.of_bind_ok h
    split_ifs at h with differ
    have shows : Shows prompt requirement field title body n := by
      refine ⟨?_, size, ⟨count, counted, low, high, inside⟩, titled, bodied, few, valid,
        (entries n).mp fourth, mem_keys_argumentValues.mp (not_not.mp differ)⟩
      by_cases title : field = "title"
      · exact .inl title
      · exact .inr (chosen title)
    exact ⟨title, body, n, shows, shows.renders.mp h⟩
  · rintro ⟨title, body, n, shows, result⟩
    obtain ⟨count, counted, low, high, inside⟩ := shows.count
    have small : (parameters title).card ≤ kMaxParameters :=
      (Finset.card_le_card Finset.subset_union_left).trans shows.few
    have first : placeholders (prompt.get (row requirement "title")) ∅ = .ok (parameters title) :=
      (placeholders_iff (by simp)).mpr ⟨title, shows.titled, by simp, small⟩
    have second : placeholders (prompt.get (row requirement "body")) (parameters title) =
        .ok (parameters title ∪ parameters body) :=
      (placeholders_iff small).mpr ⟨body, shows.bodied, rfl, shows.few⟩
    have third := promptArguments_iff.mpr ⟨n, shows.arguments, rfl, rfl⟩
    have fourth := (entries n).mpr shows.expected
    have same := mem_keys_argumentValues.mpr shows.named
    have admitted : ¬ (((field != "title" && field != "body") || decide (prompt.size > kMaxFields) ||
        decide (count < 1) || decide (count > (kMaxRequirements : Int)) ||
        decide ((requirement : Int) ≥ count)) = true) := by
      have size := shows.size
      rcases shows.chosen with rfl | rfl <;> simp <;> omega
    unfold formatPrompt
    rw [counted]
    dsimp only
    rw [if_neg admitted]
    simp only [bind, Except.bind, first, second, third, fourth]
    rw [if_neg (not_not_intro same)]
    exact shows.renders.mpr result

end

/-- Rendering is single-pass substitution. `Placeholders` accepts exactly the templates with at
most eight parameters, those collected before included, and adds theirs; `FormatPrompt` succeeds
exactly if its checks pass and the substitution of the arguments in the shown template fits, and
that is its output. The size comparisons of the renderer do not wrap around. -/
theorem rendering_is_substitution :
    (∀ (text : String) (names : Finset String), names.card ≤ kMaxParameters → ∀ result,
      (placeholders text names = .ok result ↔
        ∃ parts, IsTemplate text parts ∧ result = names ∪ parameters parts ∧
          result.card ≤ kMaxParameters)) ∧
    (∀ (prompt : Message) (requirement : Nat) (field out : String),
      (formatPrompt prompt requirement field = .ok out ↔
        ∃ title body n, Shows prompt requirement field title body n ∧
          out = substitute (argumentValues prompt requirement n) (shown field title body) ∧
          out.utf8ByteSize ≤ kMaxRendered)) ∧
    (∀ (prompt : Message) (requirement n k : Nat), Arguments prompt requirement n → k < n →
      (argumentValues prompt requirement n)[argumentName prompt requirement k]? =
        some (argumentValue prompt requirement k)) ∧
    ∀ (text : String) (values : Message),
      (pieces text.toList none []).foldlM (renderPieceSized values) "" = render text values :=
  ⟨fun _ _ few _ => placeholders_iff few, fun _ _ _ _ => formatPrompt_iff,
    fun _ _ _ _ arguments inside => getElem?_argumentValues arguments.distinct inside, render_sized⟩

end Consent.Localization
