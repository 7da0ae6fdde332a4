import Consent.Message

/-!
The prompt as the user interface holds it: the checks on a prompt that was received, its
pages, and the text by which two prompts are compared (`consent-ui/PromptSnapshot.cs`), and
how far the user has read it (`consent-ui/PromptReview.cs`).

A `String` has no unpaired surrogates, as the text of a message has none; `Length` counts
UTF-16 code units. What the platform knows about characters and what the protected catalog
says about a feature are given as a `Display`.
-/
namespace Consent.Ui

structure Display where
  /-- `StringInfo.GetTextElementEnumerator`. -/
  elements : String → List String
  /-- A control character other than a line break, or a format character. -/
  refused : Char → Bool

/-- `FeatureCatalog.Match` and `FeatureDisplay.Metadata`: the lines for a row, given the label
of its period, or nothing where they throw. -/
abbrev Catalog := Message → String → String → Bool → Option String

def utf16Length (text : String) : Nat := (text.toList.map fun c => if c.toNat < 0x10000 then 1 else 2).sum

def validRequestId (value : String) : Bool :=
  decide (0 < utf16Length value) && decide (utf16Length value ≤ 128) &&
    value.toList.all fun c => asciiAlnum c || c == '-' || c == '_' || c == '.'

def locales : List String := ["en", "en-US", "en-GB", "ko", "ko-KR"]

def validLocale (value : String) : Bool := locales.contains value

/-- `TryParse` with no sign, no blanks and no separators. -/
def tryParse (maximum : Nat) (value : String) : Option Nat :=
  if value.isEmpty then none else parseDigits maximum value.toList 0

def required (fields : Message) (key : String) : Option String := do
  let value ← fields[key]?
  guard (value ≠ "")
  pure value

def canonicalNumber (fields : Message) (key : String) (minimum : Nat) : Option Nat := do
  let value ← required fields key
  let number ← tryParse (2 ^ 63 - 1) value
  guard (minimum ≤ number ∧ toString number = value)
  pure number

def positive (fields : Message) (key : String) : Option Nat := canonicalNumber fields key 1

/-! ### Pages -/

/-- Carriage returns before line breaks go, tabs become blanks. -/
def normalize : List Char → List Char
  | '\r' :: '\n' :: rest => '\n' :: normalize rest
  | '\t' :: rest => ' ' :: normalize rest
  | c :: rest => c :: normalize rest
  | [] => []

structure Layout where
  pages : List String := []
  page : String := ""
  lines : Nat := 1
  columns : Nat := 0

/-- A new line, and with it a new page after six lines. -/
def Layout.breakLine (l : Layout) : Layout :=
  if l.lines = 6 then { l with pages := l.pages ++ [l.page], page := "", lines := 1, columns := 0 }
  else { l with page := l.page ++ "\n", lines := l.lines + 1, columns := 0 }

def Layout.add (l : Layout) (element : String) : Option Layout :=
  if 16 < utf16Length element then none
  else
    let l := if element = "\n" ∨ l.columns = 26 then l.breakLine else l
    if element = "\n" then some l
    else some { l with page := l.page ++ element, columns := l.columns + 1 }

def paginate (d : Display) (text : String) : Option (List String) := do
  let text := String.ofList (normalize text.toList)
  guard ((text.toList.any d.refused) = false)
  let l ← (d.elements text).foldlM Layout.add ({} : Layout)
  pure (if l.page = "" then l.pages else l.pages ++ [l.page])

/-! ### Snapshots -/

structure Snapshot where
  requestId : String
  token : String
  locale : String
  fields : Message
  pages : List String
  canApprove : Bool
  grantMode : String
  alwaysAllowed : Bool
  text : List (String × String)
  catalog : Option Catalog
  content : String

def chosenGrantMode (grantMode : String) (alwaysAllowed : Bool) : String :=
  if alwaysAllowed then "PERSISTENT" else grantMode

def Snapshot.chosenMode (s : Snapshot) : String := chosenGrantMode s.grantMode s.alwaysAllowed

/-- Fields that are not displayed. -/
def transport : List String := ["prompt_token", "id", "status", "revision", "source"]

/-- A text behind its length. -/
def lengthed16 (text : String) : String := toString (utf16Length text) ++ ":" ++ text

def stableFields (fields : Message) : String :=
  (fields.toList.filter fun field => !transport.contains field.1).foldl
    (fun stable field => stable ++ lengthed16 field.1 ++ lengthed16 field.2) ""

def binding (locale : String) (fields : Message) : String := locale ++ stableFields fields

def contentOf (locale : String) (fields : Message) (mode : String) (pages : List String) : String :=
  pages.foldl (fun stable page => stable ++ lengthed16 page) (binding locale fields ++ mode)

/-- The session that an approval is bound to. -/
def sessionBinding (fields : Message) (grantMode : String) : Option Unit :=
  if grantMode = "SESSION" then do
    let session ← required fields "session"
    guard (validRequestId session = true)
    let _ ← positive fields "generation"
    pure ()
  else some ()

/-- The number of conditions and the duration that an approval is bound to. -/
def approvalBinding (fields : Message) (grantMode : String) (count : Nat) : Option (Nat × Nat) := do
  let version ← required fields "approval_version"
  guard (version = "1" ∨ version = "2")
  let kind ← required fields "request_kind"
  guard (kind = "PREAPPROVAL" ∨ kind = "TASK")
  let selection ← required fields "selection_id"
  guard (validRequestId selection = true)
  let _ ← positive fields "selection_revision"
  let digest ← required fields "selection_digest"
  guard (utf16Length digest = 64 ∧
    (digest.toList.all fun c => asciiDigit c || ('a' ≤ c && c ≤ 'f')) = true)
  guard (grantMode = "ONCE" ∨ grantMode = "SESSION" ∨ grantMode = "TIMED")
  let total ← positive fields "total_count"
  guard (count ≤ total ∧ total ≤ 16)
  sessionBinding fields grantMode
  if grantMode = "TIMED" then do
    let duration ← positive fields "duration_ms"
    guard (100 ≤ duration ∧ duration ≤ 3600000)
    pure (total, duration)
  else do
    guard (fields.contains "duration_ms" = false)
    pure (total, 0)

/-- Whether the persistent period can be chosen. -/
def periodChoices (fields : Message) (grantMode : String) (count total : Nat) : Option Bool :=
  if fields.getD "approval_version" "" = "2" then do
    let choices ← required fields "period_choices"
    guard (choices = grantMode ++ ",PERSISTENT")
    let effective ← required fields "effective_period_choices"
    guard (effective = grantMode ∨ effective = grantMode ++ ",PERSISTENT")
    let persistent := effective == grantMode ++ ",PERSISTENT"
    guard (¬ (persistent = true ∧ count ≠ total))
    pure persistent
  else do
    guard (fields.contains "period_choices" = false ∧
      fields.contains "effective_period_choices" = false)
    pure false

def periodLabel (mode : String) (duration : Nat) (korean : Bool) : Option String :=
  match mode with
  | "PERSISTENT" => some (if korean then "반복 허용 · 취소 가능" else "Repeated access · revocable")
  | "ONCE" => some (if korean then "이번 한 번" else "One access only")
  | "SESSION" => some (if korean then "이번 대화 동안" else "For this conversation")
  | "TIMED" =>
    if duration % 60000 = 0 then
      some (if korean then "승인 후 " ++ toString (duration / 60000) ++ "분"
        else "For " ++ toString (duration / 60000) ++ " minutes after approval")
    else
      some (if korean then "승인 후 " ++ toString duration ++ "밀리초"
        else "For " ++ toString duration ++ " milliseconds after approval")
  | _ => none

/-- What all rows of a prompt have in common. -/
structure Prompt where
  fields : Message
  catalog : Option Catalog
  mode : String
  versioned : Bool
  periodChoice : Bool
  korean : Bool
  count : Nat
  total : Nat
  duration : Nat

def boundFields : List String := ["definition", "policy_version", "text_revision", "locale", "modes"]
def mappedFields : List String :=
  ["definition", "policy_version", "operation", "scope", "purpose", "recipient", "holder",
    "retention_ms"]

def periodNotice (korean : Bool) : String :=
  if korean then
    "\n현재 프로필의 동일한 기능·범위·목적·수신자에만 적용됩니다. " ++
      "정책 변경·재설치·프로필 동기화 손실 시 재승인이 필요할 수 있습니다."
  else
    "\nOnly the same profile, capability, scope, purpose and recipient. " ++
      "Policy changes, reinstall or profile resync may require approval."

/-- The original index of a row, which no other row may have. -/
def originalIndex (p : Prompt) (head : String) (used : List Nat) : Option (List Nat) :=
  if p.versioned then do
    let original ← canonicalNumber p.fields (head ++ "original_index") 0
    guard (original ≤ 2 ^ 31 - 1 ∧ original < p.total ∧ original ∉ used)
    let feature ← required p.fields (head ++ "feature_id")
    guard (validRequestId feature = true)
    let _ ← positive p.fields (head ++ "feature_revision")
    let package ← required p.fields (head ++ "provider_package")
    guard (validRequestId package = true)
    let app ← required p.fields (head ++ "provider_app")
    guard (validRequestId app = true)
    pure (original :: used)
  else some used

def rowDetails (p : Prompt) (head : String) (i : Nat) (text : String × String) : Option String := do
  let heading := (if p.korean then "조건 " else "Condition ") ++ toString (i + 1) ++ "/" ++
    toString p.count
  let details ← if p.versioned then do
      let catalog ← p.catalog
      let label ← periodLabel p.mode p.duration p.korean
      guard ((mappedFields.all fun key => p.fields.contains (head ++ key)) = true)
      let metadata ← catalog p.fields head label p.korean
      pure (heading ++ "\n" ++ metadata ++ "\n\n" ++ text.1 ++ "\n" ++ text.2)
    else pure (heading ++ "\n" ++ text.1 ++ "\n\n" ++ text.2)
  pure (if p.periodChoice then details ++ periodNotice p.korean else details)

structure Rows where
  pages : List String := []
  supported : Bool := true
  used : List Nat := []

/-- One turn of the loop over the conditions. -/
def addRow (d : Display) (p : Prompt) (rows : Rows) (row : (String × String) × Nat) : Option Rows := do
  let head := "r" ++ toString row.2 ++ "."
  guard ((boundFields.all fun key => p.fields.getD (head ++ key) "" != "") = true)
  let modes := p.fields.getD (head ++ "modes") ""
  let used ← originalIndex p head rows.used
  let details ← rowDetails p head row.2 row.1
  let pages ← paginate d details
  pure ⟨rows.pages ++ pages, rows.supported && (modes.toList.splitOn ',').contains p.mode.toList,
    used⟩

def grantModeOf (fields : Message) (versioned : Bool) : Option String :=
  if versioned then required fields "grant_mode" else some "ONCE"

def conditions (fields : Message) (versioned : Bool) (grantMode : String) (count : Nat) :
    Option (Nat × Nat) :=
  if versioned then approvalBinding fields grantMode count else some (count, 0)

/-- The constructor of `PromptSnapshot`; nothing where it throws. -/
def newSnapshot (d : Display) (requestId locale : String) (fields : Message)
    (text : List (String × String)) (catalog : Option Catalog) (alwaysAllowed : Bool) :
    Option Snapshot := do
  guard (validRequestId requestId = true ∧ validLocale locale = true)
  let actual ← fields["request_id"]?
  guard (actual = requestId)
  let token ← fields["prompt_token"]?
  guard (validRequestId token = true)
  let countText ← fields["count"]?
  let count ← tryParse (2 ^ 31 - 1) countText
  guard (1 ≤ count ∧ count ≤ 16 ∧ count = text.length)
  guard (¬ (fields.getD "template_version" "" = "1" ∧ fields["locale"]? ≠ some locale))
  let versioned := fields.contains "approval_version"
  let grantMode ← grantModeOf fields versioned
  let (total, duration) ← conditions fields versioned grantMode count
  let persistent ← periodChoices fields grantMode count total
  guard (¬ (alwaysAllowed = true ∧ persistent = false))
  let mode := chosenGrantMode grantMode alwaysAllowed
  let prompt : Prompt := ⟨fields, catalog, mode, versioned, fields.getD "approval_version" "" == "2",
    locale == "ko" || locale == "ko-KR", count, total, duration⟩
  let rows ← text.zipIdx.foldlM (addRow d prompt) ({} : Rows)
  guard (rows.pages.length ≤ 1024)
  pure ⟨requestId, token, locale, fields, rows.pages, rows.supported, grantMode, alwaysAllowed, text,
    catalog, contentOf locale fields mode rows.pages⟩

def Snapshot.sameContent (s other : Snapshot) : Bool := s.content == other.content

/-! ### Review -/

structure Review where
  snapshot : Option Snapshot := none
  page : Nat := 0
  reviewed : Nat := 0

def Review.canAllow (r : Review) : Bool :=
  match r.snapshot with
  | some snapshot => snapshot.canApprove && r.reviewed == snapshot.pages.length
  | none => false

def Review.install (r : Review) (fresh : Snapshot) : Review :=
  let same := match r.snapshot with
    | some snapshot => snapshot.sameContent fresh
    | none => false
  let page := if same then r.page else 0
  let reviewed := if same then r.reviewed else 0
  ⟨some fresh, page, max reviewed (page + 1)⟩

def Review.clear (_ : Review) : Review := ⟨none, 0, 0⟩

/-- `Move`, which throws and changes nothing where there is no such page. -/
def Review.move (r : Review) (offset : Int) : Option Review :=
  match r.snapshot with
  | some snapshot =>
    let page := (r.page : Int) + offset
    if (offset = -1 ∨ offset = 1) ∧ 0 ≤ page ∧ page < snapshot.pages.length then
      some ⟨some snapshot, page.toNat, max r.reviewed (page.toNat + 1)⟩
    else none
  | none => none

end Consent.Ui
