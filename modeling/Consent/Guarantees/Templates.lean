import Consent.Library.Maps
import Consent.Library.Tally
import Consent.Protocol.Envelopes
import Consent.Registration

/-!
Templates and the schema of a definition: what a valid template refers to, and when it
renders.
-/
namespace Consent.Localization

/-! ### Templates -/

/-- The parameters that a template names, without a limit on their number. -/
def scanned : List Char → Option (List Char) → Option (Finset String)
  | [], none => some ∅
  | [], some _ => none
  | c :: rest, none =>
    if c == '}' then none
    else if c == '{' then scanned rest (some [])
    else scanned rest none
  | c :: rest, some name =>
    if c == '}' then
      if isName (String.ofList name.reverse) then
        (scanned rest none).map (insert (String.ofList name.reverse))
      else none
    else scanned rest (some (c :: name))

/-- The scan succeeds exactly if the template is well formed and the names are few. -/
theorem scanPlaceholders_eq_ok {text : List Char} {state : Option (List Char)}
    {names result : Finset String} (few : names.card ≤ kMaxParameters) :
    scanPlaceholders text state names = .ok result ↔
      ∃ new, scanned text state = some new ∧ result = names ∪ new ∧ result.card ≤ kMaxParameters := by
  induction text generalizing state names with
  | nil =>
    cases state with
    | none =>
      simp only [scanPlaceholders, scanned, pure, Except.pure, Except.ok.injEq, Option.some.injEq,
        exists_eq_left', Finset.union_empty]
      constructor
      · rintro rfl
        exact ⟨rfl, few⟩
      · exact fun h => h.1.symm
    | some name => simp [scanPlaceholders, scanned, throw, throwThe, MonadExceptOf.throw]
  | cons c rest ih =>
    cases state with
    | none =>
      simp only [scanPlaceholders, scanned]
      split
      · simp [throw, throwThe, MonadExceptOf.throw]
      · split
        · exact ih few
        · exact ih few
    | some name =>
      simp only [scanPlaceholders, scanned]
      split
      · by_cases named : isName (String.ofList name.reverse) = true
        · rw [if_pos named, named, Bool.not_true, if_neg (by decide)]
          by_cases many : (insert (String.ofList name.reverse) names).card > kMaxParameters
          · rw [if_pos many]
            simp only [throw, throwThe, MonadExceptOf.throw, reduceCtorEq, Option.map_eq_some_iff, false_iff]
            rintro ⟨_, ⟨new, _, rfl⟩, rfl, small⟩
            have grown : insert (String.ofList name.reverse) names ⊆
                names ∪ insert (String.ofList name.reverse) new := by
              intro x member
              simp only [Finset.mem_insert, Finset.mem_union] at member ⊢
              tauto
            exact absurd (Finset.card_le_card grown) (by omega)
          · rw [if_neg many, ih (by omega)]
            simp only [Option.map_eq_some_iff]
            constructor
            · rintro ⟨new, found, rfl, small⟩
              refine ⟨_, ⟨new, found, rfl⟩, ?_, small⟩
              rw [Finset.insert_union, Finset.union_insert]
            · rintro ⟨_, ⟨new, found, rfl⟩, rfl, small⟩
              refine ⟨new, found, ?_, small⟩
              rw [Finset.insert_union, Finset.union_insert]
        · rw [if_neg named]
          simp [named, throw, throwThe, MonadExceptOf.throw]
      · exact ih few

/-- The parameters of a well-formed template. -/
def template (text : String) : Option (Finset String) :=
  if text.isEmpty || !isText text kMaxTemplate then none else scanned text.toList none

theorem placeholders_eq_ok {text : String} {names result : Finset String}
    (few : names.card ≤ kMaxParameters) : placeholders text names = .ok result ↔
      ∃ new, template text = some new ∧ result = names ∪ new ∧ result.card ≤ kMaxParameters := by
  unfold placeholders template
  split
  · simp [throw, throwThe, MonadExceptOf.throw]
  · exact scanPlaceholders_eq_ok few

theorem template_ne {text : String} {names : Finset String} (h : template text = some names) :
    text ≠ "" := by
  rintro rfl
  simp [template] at h

/-- The templates of a list together. -/
theorem foldlM_placeholders {fields : List (String × String)} {names result : Finset String}
    (few : names.card ≤ kMaxParameters)
    (run : fields.foldlM (fun names field => placeholders field.2 names) names = .ok result) :
    result.card ≤ kMaxParameters ∧ (∀ field ∈ fields, ∃ new, template field.2 = some new) ∧
      ∀ name, name ∈ result ↔
        name ∈ names ∨ ∃ field ∈ fields, ∃ new, template field.2 = some new ∧ name ∈ new := by
  induction fields generalizing names with
  | nil =>
    cases run
    simp [few]
  | cons field fields ih =>
    rw [List.foldlM_cons] at run
    obtain ⟨mid, first, run⟩ := Except.of_bind_ok run
    obtain ⟨new, found, rfl, small⟩ := (placeholders_eq_ok few).mp first
    obtain ⟨card, each, members⟩ := ih small run
    refine ⟨card, List.forall_mem_cons.mpr ⟨⟨new, found⟩, each⟩, fun name => ?_⟩
    rw [members, Finset.mem_union]
    simp only [List.mem_cons, exists_eq_or_imp, found, Option.some.injEq, exists_eq_left']
    tauto

/-! ### Rendering -/

def Piece.text (values : Message) : Piece → String
  | .literal text => String.ofList text
  | .item name => values.get (String.ofList name)

/-- The template with its values in place. -/
def expand (values : Message) (rendered : String) (parts : List Piece) : String :=
  parts.foldl (fun rendered piece => rendered ++ piece.text values) rendered

theorem items_scanned {text : List Char} {state : Option (List Char)} {literal : List Char}
    {names : Finset String} (h : scanned text state = some names) {name : List Char}
    (member : Piece.item name ∈ pieces text state literal) : String.ofList name ∈ names := by
  induction text generalizing state literal names with
  | nil => simp [pieces] at member
  | cons c rest ih =>
    cases state with
    | none =>
      simp only [scanned, pieces] at h member
      split at h
      · cases h
      · split at h
        · rename_i brace
          rw [if_pos brace] at member
          rcases List.mem_cons.mp member with same | member
          · cases same
          · exact ih h member
        · rename_i brace
          rw [if_neg brace] at member
          exact ih h member
    | some current =>
      simp only [scanned, pieces] at h member
      split at h
      · rename_i brace
        rw [if_pos brace] at member
        split at h
        · obtain ⟨new, found, rfl⟩ := Option.map_eq_some_iff.mp h
          rcases List.mem_cons.mp member with same | member
          · cases same
            exact Finset.mem_insert_self _ _
          · exact Finset.mem_insert_of_mem (ih found member)
        · cases h
      · rename_i brace
        rw [if_neg brace] at member
        exact ih h member

theorem le_expand (values : Message) (rendered : String) (parts : List Piece) :
    rendered.utf8ByteSize ≤ (expand values rendered parts).utf8ByteSize := by
  induction parts generalizing rendered with
  | nil => exact le_refl _
  | cons piece parts ih =>
    refine le_trans ?_ (ih (rendered ++ piece.text values))
    rw [String.utf8ByteSize_append]
    exact Nat.le_add_right _ _

theorem renderPiece_eq {values : Message} {rendered : String} {piece : Piece}
    (known : ∀ name, piece = .item name → String.ofList name ∈ values)
    (fits : (rendered ++ piece.text values).utf8ByteSize ≤ kMaxRendered) :
    renderPiece values rendered piece = .ok (rendered ++ piece.text values) := by
  rw [String.utf8ByteSize_append] at fits
  cases piece with
  | literal text =>
    simp only [Piece.text] at fits ⊢
    rw [renderPiece, if_neg (by omega)]
    rfl
  | item name =>
    have value : values[String.ofList name]? = some (values.get (String.ofList name)) := by
      obtain ⟨value, found⟩ := Option.isSome_iff_exists.mp
        (Std.ExtTreeMap.isSome_getElem?_iff_mem.mpr (known name rfl))
      rw [found, Message.get_eq, found, Option.getD_some]
    simp only [Piece.text] at fits ⊢
    rw [renderPiece, value]
    dsimp only
    rw [if_neg (by omega)]
    rfl

/-- A template whose parameters all have values renders if the whole fits. -/
theorem render_eq {text : String} {values : Message} {names : Finset String}
    (formed : template text = some names) (known : ∀ name ∈ names, name ∈ values)
    (fits : (expand values "" (pieces text.toList none [])).utf8ByteSize ≤ kMaxRendered) :
    render text values = .ok (expand values "" (pieces text.toList none [])) := by
  have items : ∀ name, Piece.item name ∈ pieces text.toList none [] → String.ofList name ∈ values := by
    intro name member
    unfold template at formed
    split at formed
    · cases formed
    · exact known _ (items_scanned formed member)
  unfold render
  generalize pieces text.toList none [] = parts at items fits
  generalize "" = rendered at fits ⊢
  induction parts generalizing rendered with
  | nil => rfl
  | cons piece parts ih =>
    have first : (rendered ++ piece.text values).utf8ByteSize ≤ kMaxRendered :=
      (le_expand values _ parts).trans fits
    have known : ∀ name, piece = .item name → String.ofList name ∈ values := by
      rintro name rfl
      exact items name List.mem_cons_self
    rw [List.foldlM_cons, renderPiece_eq known first]
    exact ih (fun name member => items name (List.mem_cons_of_mem _ member)) _ fits

/-! ### The schema of a definition -/

/-- What a schema declares. -/
structure Schema.Valid (schema : Schema) (definition : Message) : Prop where
  distinct : (schema.map Prod.fst).Nodup
  named : ∀ entry ∈ schema, isName entry.1 = true
  few : schema.length ≤ kMaxParameters
  typed : schema ≠ [] → definition.contains "template_version" = true
  version : definition.contains "template_version" = true → definition.get "template_version" = "1"
  kinds : ∀ entry ∈ schema, entry.2.type = "integer" ∨
    entry.2.type = "string" ∧ entry.2.maxBytes ≤ kMaxString

theorem groupParameters_ok {definition : Message} {fields : Std.ExtTreeMap String Message compare}
    (h : groupParameters definition = .ok fields) :
    (∀ name ∈ fields, isName name = true) ∧ fields.size ≤ kMaxParameters ∧
      (fields ≠ ∅ → definition.contains "template_version" = true) := by
  refine Tally.invariant (I := fun fields : Std.ExtTreeMap String Message compare =>
    (∀ name ∈ fields, isName name = true) ∧ fields.size ≤ kMaxParameters ∧
      (fields ≠ ∅ → definition.contains "template_version" = true)) (by simp) ?_ h
  rintro field _ groups groups' ⟨named, few, typed⟩ turn
  dsimp only at turn
  split at turn
  · cases turn
    exact ⟨named, few, typed⟩
  obtain ⟨version, turn⟩ := Except.of_guard_ok turn
  split at turn
  · cases turn
  obtain ⟨isNamed, turn⟩ := Except.of_guard_ok turn
  obtain ⟨_, turn⟩ := Except.of_guard_ok turn
  obtain ⟨small, turn⟩ := Except.of_guard_ok turn
  cases turn
  refine ⟨fun other member => ?_, by omega, fun _ => by simpa using version⟩
  rcases Std.ExtTreeMap.mem_insert.mp member with same | old
  · rw [← Std.LawfulEqCmp.compare_eq_iff_eq.mp same]
    simpa using isNamed
  · exact named other old

theorem parseParameter_ok {fields : Message} {parameter : Parameter}
    (h : parseParameter fields = .ok parameter) :
    parameter.type = "integer" ∨ parameter.type = "string" ∧ parameter.maxBytes ≤ kMaxString := by
  unfold parseParameter at h
  dsimp only at h
  obtain ⟨_, h⟩ := Except.of_guard_ok h
  split at h
  · rename_i integral
    split at h
    · obtain ⟨_, h⟩ := Except.of_guard_ok h
      cases h
      exact .inl (by simpa using integral)
    · cases h
  · split at h
    · rename_i textual
      split at h
      · obtain ⟨bounds, h⟩ := Except.of_guard_ok h
        cases h
        refine .inr ⟨by simpa using textual, ?_⟩
        simp only [Bool.or_eq_true, not_or, decide_eq_true_eq] at bounds
        have high := bounds.2
        dsimp only
        omega
      · cases h
    · cases h

theorem foldlM_schema {entries : List (String × Message)} {start schema : Schema}
    (h : entries.foldlM (fun schema entry => do
      let parameter ← parseParameter entry.2
      pure (schema ++ [(entry.1, parameter)])) start = .ok schema) :
    ∃ new : Schema, schema = start ++ new ∧ new.map Prod.fst = entries.map Prod.fst ∧
      ∀ entry ∈ new, entry.2.type = "integer" ∨
        entry.2.type = "string" ∧ entry.2.maxBytes ≤ kMaxString := by
  induction entries generalizing start with
  | nil =>
    cases h
    exact ⟨[], by simp⟩
  | cons entry entries ih =>
    rw [List.foldlM_cons] at h
    obtain ⟨mid, turn, h⟩ := Except.of_bind_ok h
    obtain ⟨parameter, parsed, turn⟩ := Except.of_bind_ok turn
    cases turn
    obtain ⟨new, rfl, names, kinds⟩ := ih h
    refine ⟨(entry.1, parameter) :: new, by simp, by simp [names], ?_⟩
    exact List.forall_mem_cons.mpr ⟨parseParameter_ok parsed, kinds⟩

theorem parseSchema_ok {definition : Message} {schema : Schema}
    (h : parseSchema definition = .ok schema) : schema.Valid definition := by
  obtain ⟨_, h⟩ := Except.of_guard_ok h
  obtain ⟨version, h⟩ := Except.of_guard_ok h
  obtain ⟨fields, grouped, h⟩ := Except.of_bind_ok h
  obtain ⟨named, few, typed⟩ := groupParameters_ok grouped
  obtain ⟨_, rfl, names, kinds⟩ := foldlM_schema h
  have keys : schema.map Prod.fst = fields.keys := by
    rw [names, Std.ExtTreeMap.map_fst_toList_eq_keys]
  refine ⟨?_, fun entry member => ?_, ?_, fun some => typed ?_, fun present => ?_, kinds⟩
  · rw [keys]
    exact Std.ExtTreeMap.nodup_keys
  · have key : entry.1 ∈ fields.keys := keys ▸ List.mem_map_of_mem member
    exact named _ (Std.ExtTreeMap.mem_keys.mp key)
  · have length := congrArg List.length keys
    rw [List.length_map, Std.ExtTreeMap.length_keys] at length
    omega
  · rintro rfl
    exact some (List.map_eq_nil_iff.mp (keys.trans (by simp)))
  · simpa [present] using version

end Consent.Localization
