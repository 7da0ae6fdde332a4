import Consent.Message

/-!
Typed message templates (`common/localization.cc`): the parameter schema of a
definition, the locales it registers, the binding of a request row to the schema
and the rendering of a prompt. Errors carry the source's texts. A scan over a
template walks its characters once; `some name` is the state inside a brace.
-/
namespace Consent.Localization

def kMaxParameters : Nat := 8
def kMaxTemplate : Nat := 4096
def kMaxString : Nat := 512
def kMaxRendered : Nat := 8192

structure Parameter where
  source : String
  type : String
  minimum : Int
  maximum : Int
  maxBytes : Nat
  deriving DecidableEq, Repr

/-- Declared parameters in name order, as `std::map` iterates them. -/
abbrev Schema := List (String × Parameter)

def isName (value : String) : Bool :=
  value.utf8ByteSize ≤ 32 &&
    match value.toList with
    | [] => false
    | first :: rest =>
      ((asciiAlnum first && !asciiDigit first) || first == '_') &&
        rest.all fun c => asciiAlnum c || c == '_'

def isLocale (value : String) : Bool :=
  !value.isEmpty && value.utf8ByteSize ≤ 256 &&
    value.toList.all fun c => asciiAlnum c || c == '-' || c == '_' || c == '.' || c == ':'

def isText (value : String) (maximum : Nat) : Bool :=
  value.utf8ByteSize ≤ maximum && !value.toList.contains '\x00'

/-- A canonical decimal. -/
def integer (value : String) : Option Int :=
  match parseNumber value with
  | some number => if toString number == value then some number else none
  | none => none

def scanPlaceholders : List Char → Option (List Char) → Finset String →
    Except String (Finset String)
  | [], none, names => pure names
  | [], some _, _ => throw "unmatched template brace"
  | c :: rest, none, names =>
    if c == '}' then throw "unmatched template brace"
    else if c == '{' then scanPlaceholders rest (some []) names
    else scanPlaceholders rest none names
  | c :: rest, some name, names =>
    if c == '}' then
      let parameter := String.ofList name.reverse
      if !isName parameter then throw "invalid template parameter name"
      else if (insert parameter names).card > kMaxParameters then
        throw "too many template parameters"
      else scanPlaceholders rest none (insert parameter names)
    else scanPlaceholders rest (some (c :: name)) names

/-- Collect the parameters named by a template into `names`. -/
def placeholders (text : String) (names : Finset String) : Except String (Finset String) :=
  if text.isEmpty || !isText text kMaxTemplate then throw "invalid localized template"
  else scanPlaceholders text.toList none names

/-- The text before and after the first `separator`. -/
def splitFirst (separator : Char) (value : List Char) : Option (List Char × List Char) :=
  match value.span (· != separator) with
  | (_, []) => none
  | (head, _ :: tail) => some (head, tail)

/-- The text before and after the last `separator`. -/
def splitLast (separator : Char) (value : List Char) : Option (List Char × List Char) :=
  (splitFirst separator value.reverse).map fun parts => (parts.2.reverse, parts.1.reverse)

def groupParameters (definition : Message) :
    Except String (Std.ExtTreeMap String Message compare) :=
  definition.toList.foldlM (fun fields field =>
    if !starts field.1 "parameter." then pure fields
    else if !definition.contains "template_version" then
      throw "parameter schema requires template version"
    else
      match splitFirst '.' (field.1.toList.drop 10) with
      | none => throw "invalid parameter schema key"
      | some (name, property) =>
        if !isName (String.ofList name) then throw "invalid parameter schema key"
        else if !(["source", "type", "min", "max", "max_bytes"].contains (String.ofList property)) then
          throw "unknown parameter schema property"
        else
          let group := (fields.getD (String.ofList name) ∅).insert (String.ofList property) field.2
          let updated := fields.insert (String.ofList name) group
          if updated.size > kMaxParameters then throw "parameter schema limit exceeded"
          else pure updated) ∅

def parseParameter (fields : Message) : Except String Parameter :=
  let source := fields.get "source"
  let type := fields.get "type"
  if !(["scope", "purpose", "recipient", "operation", "retention_ms"].contains source) then
    throw "unsupported parameter source"
  else if type == "integer" then
    match integer (fields.get "min"), integer (fields.get "max") with
    | some minimum, some maximum =>
      if (source != "scope" && source != "retention_ms") || fields.size != 4 ||
          minimum > maximum then
        throw "invalid integer parameter schema"
      else pure ⟨source, type, minimum, maximum, 0⟩
    | _, _ => throw "invalid integer parameter schema"
  else if type == "string" then
    match integer (fields.get "max_bytes") with
    | some maximum =>
      if source == "retention_ms" || fields.size != 3 || maximum < 1 || maximum > kMaxString then
        throw "invalid string parameter schema"
      else pure ⟨source, type, 0, 0, maximum.toNat⟩
    | none => throw "invalid string parameter schema"
  else throw "unsupported parameter type"

def parseSchema (definition : Message) : Except String Schema :=
  if definition.size > kMaxFields then throw "definition field limit exceeded"
  else if definition.contains "template_version" && definition.get "template_version" != "1" then
    throw "unsupported template version"
  else do
    let fields ← groupParameters definition
    fields.toList.foldlM (fun schema entry => do
      let parameter ← parseParameter entry.2
      pure (schema ++ [(entry.1, parameter)])) []

def checkValue (parameter : Parameter) (value : String) : Except String Unit :=
  if parameter.type == "string" then
    if !isText value parameter.maxBytes then
      throw "string argument exceeds schema or is not UTF-8"
    else pure ()
  else
    match integer value with
    | some number =>
      if number < parameter.minimum || number > parameter.maximum then
        throw "integer argument is not canonical or outside schema"
      else pure ()
    | none => throw "integer argument is not canonical or outside schema"

def groupLocales (definition : Message) :
    Except String (Std.ExtTreeMap String Message compare) := do
  let grouped ← definition.toList.foldlM (fun (locales, count) field =>
    if !starts field.1 "message." then pure (locales, count)
    else
      match splitLast '.' (field.1.toList.drop 8) with
      | none => throw "invalid message locale"
      | some (locale, name) =>
        if !isLocale (String.ofList locale) then throw "invalid message locale"
        else if !(["title", "body"].contains (String.ofList name)) then
          throw "unknown localized message field"
        else if count + 1 > 32 then throw "localized message limit exceeded"
        else
          let group := (locales.getD (String.ofList locale) ∅).insert (String.ofList name) field.2
          pure (locales.insert (String.ofList locale) group, count + 1))
    ((∅ : Std.ExtTreeMap String Message compare), (0 : Nat))
  pure grouped.1

def registerLocale (definition : Message) (declared : Finset String)
    (registered : Finset String) (locale : String × Message) : Except String (Finset String) := do
  let names ← locale.2.toList.foldlM (fun names field => placeholders field.2 names) ∅
  if definition.contains "template_version" && locale.2.size != 2 then
    throw "typed locale requires both title and body"
  else if names ≠ declared then throw "locale placeholders do not match declared schema"
  else pure (if locale.2.size == 2 then insert locale.1 registered else registered)

/-- The locales with both a title and a body. -/
def messageLocales (definition : Message) (schema : Schema) : Except String (Finset String) := do
  let locales ← groupLocales definition
  let declared := (schema.map Prod.fst).toFinset
  let registered ← locales.toList.foldlM (registerLocale definition declared) ∅
  if definition.get "default_locale" ∉ registered then
    throw "default locale requires title and body"
  else
    let aliases ← definition.toList.foldlM (fun aliases field =>
      if !starts field.1 "locale_fallback." then pure aliases
      else
        let name := String.ofList (field.1.toList.drop 16)
        if !isLocale name || name ∈ registered || field.2 ∉ registered then
          throw "locale fallback must name a registered locale"
        else pure (aliases ++ [name])) []
    if aliases.any fun name => aliases.contains (definition.get ("locale_fallback." ++ name)) then
      throw "locale fallback chains and cycles are forbidden"
    else pure registered

/-- A request may not carry display arguments of its own. -/
def isDisplayArgument (key : String) : Bool :=
  key == "display_args" || starts key "display_args." ||
    match splitFirst '.' key.toList with
    | some ('r' :: digits, property) =>
      !digits.isEmpty && digits.all asciiDigit &&
        (let name := String.ofList property
         name == "display_args" || starts name "display_args." || starts name "arg")
    | _ => false

def bindParameter (definition request : Message) (requirement : Nat) (values : Message)
    (entry : String × Parameter) : Except String Message := do
  let source := entry.2.source
  if source != "retention_ms" && !request.contains (row requirement source) then
    throw "required template source field is missing"
  else
    let value := if source == "retention_ms" then definition.getD "retention_ms" "0"
      else request.get (row requirement source)
    checkValue entry.2 value
    pure (values.insertIfNew entry.1 value)

/-- The schema and the argument values a request row binds to it. -/
def arguments (definition request : Message) (requirement : Nat) :
    Except String (Schema × Message) :=
  if requirement ≥ kMaxRequirements || request.size > kMaxFields ||
      request.toList.any fun field => isDisplayArgument field.1 then
    throw "invalid template argument context"
  else
    match parseSchema definition with
    | .error _ => throw "invalid template argument context"
    | .ok schema => do
      let values ← schema.foldlM (bindParameter definition request requirement) ∅
      pure (schema, values)

def validateArguments (definition request : Message) (requirement : Nat) : Except String Unit := do
  let _ ← arguments definition request requirement
  pure ()

def isPolicyField (key : String) : Bool := key == "template_version" || starts key "parameter."

def isDefinitionField (key : String) : Bool := isPolicyField key || starts key "locale_fallback."

def validateDefinition (definition : Message) : Except String Unit := do
  let schema ← parseSchema definition
  let _ ← messageLocales definition schema
  schema.foldlM (fun _ entry =>
    if entry.2.source == "retention_ms" then
      checkValue entry.2 (definition.getD "retention_ms" "0")
    else pure ()) ()

/-- The argument fields a prompt row carries. -/
def appendArguments (definition request : Message) (requirement : Nat) (prompt : Message) :
    Except String Message := do
  let (schema, values) ← arguments definition request requirement
  if !definition.contains "template_version" then pure prompt
  else
    let header := (prompt.insert (row requirement "template_version") "1").insert
      (row requirement "arg_count") (toString schema.length)
    pure (schema.zipIdx.foldl (fun result entry =>
      let head := row requirement "arg" ++ toString entry.2 ++ "."
      ((result.insert (head ++ "name") entry.1.1).insert (head ++ "type") entry.1.2.type).insert
        (head ++ "value") (values.get entry.1.1)) header)

/-- A field that displays an argument of the requirement. -/
def ArgumentField (requirement : Nat) (key : String) : Prop :=
  ∃ name, key = row requirement name ∧ (name = "template_version" ∨ starts name "arg" = true)

theorem argumentField_row (requirement index : Nat) (part : String) :
    ArgumentField requirement (row requirement "arg" ++ toString index ++ "." ++ part) := by
  refine ⟨"arg" ++ toString index ++ "." ++ part, ?_, Or.inr (by simp [starts])⟩
  apply String.toList_inj.mp
  simp [row]

theorem mem_appendArguments {definition request fields : Message} {requirement : Nat}
    (h : appendArguments definition request requirement ∅ = .ok fields) :
    ∀ key ∈ fields, ArgumentField requirement key := by
  unfold appendArguments at h
  rcases parsed : arguments definition request requirement with _ | ⟨schema, values⟩
  · simp [parsed, bind, Except.bind] at h
  simp only [parsed, bind, Except.bind] at h
  split at h
  · cases h
    simp
  · cases h
    -- Every insertion of the loop is an argument field.
    refine List.foldlRecOn (motive := fun m : Message => ∀ key ∈ m, ArgumentField requirement key)
      schema.zipIdx _ ?_ ?_
    · intro key member
      simp only [Std.ExtTreeMap.mem_insert, Std.LawfulEqCmp.compare_eq_iff_eq,
        Std.ExtTreeMap.not_mem_empty, or_false] at member
      rcases member with rfl | rfl
      · exact ⟨_, rfl, Or.inr (by decide)⟩
      · exact ⟨_, rfl, Or.inl rfl⟩
    · intro m earlier entry _ key member
      simp only [Std.ExtTreeMap.mem_insert, Std.LawfulEqCmp.compare_eq_iff_eq] at member
      rcases member with rfl | rfl | rfl | member
      · exact argumentField_row _ _ _
      · exact argumentField_row _ _ _
      · exact argumentField_row _ _ _
      · exact earlier key member

def selectLocale (definition : Message) (requested : String) : Except String String :=
  if !isLocale requested then throw "invalid requested locale"
  else do
    let schema ← parseSchema definition
    let registered ← messageLocales definition schema
    if requested ∈ registered then pure requested
    else
      let fallback :=
        match definition["locale_fallback." ++ requested]? with
        | some name => name
        | none =>
          if requested == "ko-KR" then "ko"
          else if requested == "en-US" || requested == "en-GB" then "en"
          else requested
      pure (if fallback ∈ registered then fallback else definition.get "default_locale")

/-- A template is a sequence of literal segments and parameter items. -/
inductive Piece where
  | literal (text : List Char)
  | item (name : List Char)
  deriving DecidableEq, Repr

def pieces : List Char → Option (List Char) → List Char → List Piece
  | [], _, literal => [.literal literal.reverse]
  | c :: rest, none, literal =>
    if c == '{' then .literal literal.reverse :: pieces rest (some []) []
    else pieces rest none (c :: literal)
  | c :: rest, some name, literal =>
    if c == '}' then .item name.reverse :: pieces rest none []
    else pieces rest (some (c :: name)) literal

def renderPiece (values : Message) (rendered : String) : Piece → Except String String
  | .literal text =>
    if (String.ofList text).utf8ByteSize > kMaxRendered - rendered.utf8ByteSize then
      throw "rendered message limit exceeded"
    else pure (rendered ++ String.ofList text)
  | .item name =>
    match values[String.ofList name]? with
    | none => throw "rendered argument missing or output too large"
    | some value =>
      if value.utf8ByteSize > kMaxRendered - rendered.utf8ByteSize then
        throw "rendered argument missing or output too large"
      else pure (rendered ++ value)

/-- Plain text substitution; a value is never parsed again. -/
def render (text : String) (values : Message) : Except String String :=
  (pieces text.toList none []).foldlM (renderPiece values) ""

def promptArgument (prompt : Message) (requirement : Nat) (values : Message) (index : Nat) :
    Except String Message :=
  let head := row requirement "arg" ++ toString index ++ "."
  let name := prompt.get (head ++ "name")
  let type := prompt.get (head ++ "type")
  let value := prompt.get (head ++ "value")
  if !isName name || !prompt.contains (head ++ "value") ||
      (type != "integer" && type != "string") ||
      (type == "integer" && (integer value).isNone) ||
      (type == "string" && !isText value kMaxString) || values.contains name then
    throw "invalid prompt argument"
  else pure (values.insert name value)

/-- Every `arg` field of the row is the count or belongs to a declared argument. -/
def promptArgumentField (prompt : Message) (requirement : Nat) (arguments : Int) (key : String) :
    Except String Unit :=
  let head := row requirement "arg"
  if !starts key head then pure ()
  else if key == row requirement "arg_count" &&
      prompt.contains (row requirement "template_version") then pure ()
  else
    match splitFirst '.' (key.toList.drop head.toList.length) with
    | none => throw "unexpected prompt argument field"
    | some (digits, property) =>
      match integer (String.ofList digits) with
      | none => throw "unexpected prompt argument field"
      | some index =>
        if index < 0 || index ≥ arguments then throw "unexpected prompt argument field"
        else if !(["name", "type", "value"].contains (String.ofList property)) then
          throw "unknown prompt argument property"
        else pure ()

def promptArguments (prompt : Message) (requirement : Nat) : Except String (Int × Message) :=
  if !prompt.contains (row requirement "template_version") then pure (0, ∅)
  else
    match integer (prompt.get (row requirement "arg_count")) with
    | none => throw "unsupported prompt template schema"
    | some count =>
      if prompt.get (row requirement "template_version") != "1" || count < 0 ||
          count > kMaxParameters then
        throw "unsupported prompt template schema"
      else do
        let values ← (List.range count.toNat).foldlM (promptArgument prompt requirement) ∅
        pure (count, values)

def formatPrompt (prompt : Message) (requirement : Nat) (field : String) : Except String String :=
  match integer (prompt.get "count") with
  | none => throw "invalid prompt or field index"
  | some count =>
    if (field != "title" && field != "body") || prompt.size > kMaxFields || count < 1 ||
        count > kMaxRequirements || (requirement : Int) ≥ count then
      throw "invalid prompt or field index"
    else do
      let titles ← placeholders (prompt.get (row requirement "title")) ∅
      let names ← placeholders (prompt.get (row requirement "body")) titles
      let (arguments, values) ← promptArguments prompt requirement
      prompt.toList.foldlM (fun _ entry =>
        promptArgumentField prompt requirement arguments entry.1) ()
      if names ≠ values.keys.toFinset then throw "prompt placeholders and arguments differ"
      else render (prompt.get (row requirement field)) values

end Consent.Localization
