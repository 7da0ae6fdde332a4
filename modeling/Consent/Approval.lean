import Consent.Message

/-!
The opt-in selection context of an approval request (`common/approval.cc`). The
digest function of the platform is a parameter. `covers` decides whether a stored
grant satisfies the period a request selected; no field of the context enters the
grant key.
-/
namespace Consent.Approval

def kContext : List String :=
  ["approval_version", "request_kind", "selection_id", "selection_revision",
   "selection_digest", "grant_mode", "duration_ms", "period_choices"]

def kRow : List String :=
  ["definition", "policy_version", "scope", "operation", "purpose", "recipient", "holder",
   "feature_id", "feature_revision"]

def identifier (value : String) : Bool :=
  !value.isEmpty && value.utf8ByteSize ≤ 128 &&
    value.toList.all fun c => asciiAlnum c || c == '_' || c == '-' || c == '.'

/-- A canonical decimal between the bounds. -/
def integer (value : String) (minimum maximum : Int) : Bool :=
  match parseNumber value with
  | some number => minimum ≤ number && number ≤ maximum && value == toString number
  | none => false

def versioned (request : Message) : Bool :=
  request.get "approval_version" == "1" || request.get "approval_version" == "2"

def copyContext (source destination : Message) : Message :=
  kContext.foldl (fun result key =>
    match source[key]? with
    | some value => result.insert key value
    | none => result) destination

def sameContext (left right : Message) : Bool :=
  kContext.all fun key => left.contains key == right.contains key && left.get key == right.get key

def selectionFields (request : Message) : Message :=
  let context := (copyContext request ∅).erase "selection_digest"
  let common := ["subject", "profile", "session", "generation", "count"].foldl
    (fun result key => result.insert key (request.get key)) context
  let count := request.number "count" 0
  if count < 1 ∨ count > 16 then ∅
  else (List.range count.toNat).foldl (fun result index =>
    kRow.foldl (fun fields key => fields.insert (row index key) (request.get (row index key)))
      result) common

def selectionDigest (hash : String → String) (request : Message) : String :=
  let fields := selectionFields request
  if fields.isEmpty then ""
  else if fields.toList.all (fun field => validField field.1 field.2) then
    hash (fields.toList.foldl
      (fun output field => appendTo (appendTo output field.1) field.2) "consent-selection-v1\n")
  else ""

/-- Without `approval_version` no field of the context and no feature field may occur. -/
def validateAbsent (request : Message) : Except String Unit :=
  if kContext.any request.contains then throw "approval context requires version 1"
  else if (List.range 16).any fun index =>
      ["feature_id", "feature_revision", "grant_mode", "duration_ms"].any fun name =>
        request.contains (row index name) then
    throw "feature context requires version 1"
  else pure ()

/-- `field.first.find(text) != npos`. -/
def occurs (text value : String) : Bool :=
  value.toList.tails.any fun rest => text.toList.isPrefixOf rest

def perRowPeriod (key : String) : Bool :=
  key.utf8ByteSize > 2 && key.toList.head? == some 'r' &&
    (occurs ".grant_mode" key || occurs ".duration_ms" key)

def validate (hash : String → String) (request : Message) : Except String Unit := do
  if !request.contains "approval_version" then
    validateAbsent request
  else
    let version := request.get "approval_version"
    let mode := request.get "grant_mode"
    if (version != "1" && version != "2") ||
        (request.get "request_kind" != "PREAPPROVAL" && request.get "request_kind" != "TASK") ||
        !identifier (request.get "selection_id") ||
        !integer (request.get "selection_revision") 1 int64Max ||
        !integer (request.get "count") 1 16 then
      throw "invalid approval selection context"
    else if request.toList.any fun field => perRowPeriod field.1 then
      throw "version 1 selects one common period for the batch"
    else if mode != "ONCE" && mode != "SESSION" && mode != "TIMED" then
      throw "invalid selected approval period"
    else if (if mode == "TIMED" then !integer (request.get "duration_ms") 100 3600000
        else request.contains "duration_ms") then
      throw "invalid selected approval duration"
    else if mode == "SESSION" && ((request.get "session").isEmpty ||
        !integer (request.get "generation") 1 int64Max) then
      throw "session approval requires active session context"
    else if (List.range (request.number "count" 0).toNat).any fun index =>
        !identifier (request.get (row index "feature_id")) ||
        !integer (request.get (row index "feature_revision")) 1 int64Max ||
        !integer (request.get (row index "policy_version")) 1 int64Max then
      throw "feature selection requires explicit policy and feature revisions"
    else if (if version == "2" then request.get "period_choices" != mode ++ ",PERSISTENT"
        else request.contains "period_choices") then
      throw "invalid opt-in approval period choices"
    else
      let digest := request.get "selection_digest"
      if digest.utf8ByteSize != 64 || digest != selectionDigest hash request then
        throw "selection digest mismatch"
      else pure ()

/-- Whether a grant of `mode` that expires at `expires` (0: never) satisfies the request. -/
def covers (request : Message) (mode : String) (expires now : Int) : Bool :=
  if expires ≠ 0 ∧ expires ≤ now then false
  else if request.get "_approval_mode" == "PERSISTENT" then mode == "PERSISTENT"
  else if !versioned request || request.get "request_kind" == "TASK" then true
  else if request.get "grant_mode" == "ONCE" || mode == "PERSISTENT" then true
  else if request.get "grant_mode" == "SESSION" then mode == "SESSION"
  else request.get "grant_mode" == "TIMED" && mode == "TIMED" &&
    expires ≥ request.number "_approval_deadline" int64Max

/-- Context fields are replaced by those of the source; other fields stay. -/
theorem getElem?_copyContext (source m : Message) (key : String) :
    (copyContext source m)[key]? =
      if key ∈ kContext then source[key]?.or m[key]? else m[key]? := by
  have general : ∀ (keys : List String) (m : Message),
      (keys.foldl (fun result key =>
        match source[key]? with
        | some value => result.insert key value
        | none => result) m)[key]? = if key ∈ keys then source[key]?.or m[key]? else m[key]? := by
    intro keys
    induction keys with
    | nil => simp
    | cons first rest ih =>
      intro m
      rw [List.foldl_cons, ih]
      rcases copied : source[first]? with _ | value
      · by_cases same : key = first
        · subst same
          simp [copied]
        · simp [same]
      · by_cases same : first = key
        · subst same
          simp [copied]
        · simp [Std.ExtTreeMap.getElem?_insert, same, Ne.symm same]
  exact general kContext m

end Consent.Approval
