import Consent.Guarantees.Templates

/-!
The arguments of a row: those that are accepted are those that the definition declares, and the
prompt gets each of them.
-/
namespace Consent.Localization

/-! ### The arguments of a row -/

section
variable {definition request : Message} {requirement : Nat}

/-- The value that a row binds to a parameter. -/
def boundValue (definition request : Message) (requirement : Nat) (parameter : Parameter) : String :=
  if parameter.source == "retention_ms" then definition.getD "retention_ms" "0"
  else request.get (row requirement parameter.source)

theorem bindParameter_ok {values result : Message} {entry : String × Parameter}
    (h : bindParameter definition request requirement values entry = .ok result) :
    checkValue entry.2 (boundValue definition request requirement entry.2) = .ok () ∧
      result = values.insertIfNew entry.1 (boundValue definition request requirement entry.2) := by
  unfold bindParameter at h
  dsimp only at h
  obtain ⟨_, h⟩ := Except.of_guard_ok h
  obtain ⟨⟨⟩, fits, h⟩ := Except.of_bind_ok h
  cases h
  exact ⟨fits, rfl⟩

/-- The arguments are the declared parameters with the values of the row. -/
structure Binds (definition request : Message) (requirement : Nat) (schema : Schema)
    (values : Message) : Prop where
  declared : ∀ name, name ∈ values ↔ name ∈ schema.map Prod.fst
  bound : ∀ entry ∈ schema, values[entry.1]? =
    some (boundValue definition request requirement entry.2)
  accepted : ∀ entry ∈ schema,
    checkValue entry.2 (boundValue definition request requirement entry.2) = .ok ()

theorem foldlM_bindParameter {schema : Schema} {start values : Message}
    (distinct : (schema.map Prod.fst).Nodup)
    (new : ∀ entry ∈ schema, entry.1 ∉ start)
    (h : schema.foldlM (bindParameter definition request requirement) start = .ok values) :
    (∀ name, name ∈ values ↔ name ∈ start ∨ name ∈ schema.map Prod.fst) ∧
      (∀ name ∈ start, values[name]? = start[name]?) ∧
      (∀ entry ∈ schema, values[entry.1]? =
        some (boundValue definition request requirement entry.2)) ∧
      ∀ entry ∈ schema,
        checkValue entry.2 (boundValue definition request requirement entry.2) = .ok () := by
  induction schema generalizing start with
  | nil =>
    cases h
    simp
  | cons entry schema ih =>
    rw [List.foldlM_cons] at h
    obtain ⟨mid, turn, h⟩ := Except.of_bind_ok h
    obtain ⟨fits, rfl⟩ := bindParameter_ok turn
    rw [List.map_cons, List.nodup_cons] at distinct
    have members : ∀ name, name ∈ start.insertIfNew entry.1
        (boundValue definition request requirement entry.2) ↔ name = entry.1 ∨ name ∈ start := by
      intro name
      rw [Std.ExtTreeMap.mem_insertIfNew, Std.LawfulEqCmp.compare_eq_iff_eq, eq_comm]
    have later : ∀ other ∈ schema, other.1 ∉ start.insertIfNew entry.1
        (boundValue definition request requirement entry.2) := by
      intro other member inside
      rcases (members _).mp inside with same | old
      · exact distinct.1 (same ▸ List.mem_map_of_mem member)
      · exact new other (List.mem_cons_of_mem _ member) old
    obtain ⟨names, kept, bound, accepted⟩ := ih distinct.2 later h
    have here := kept entry.1 ((members _).mpr (.inl rfl))
    rw [Message.getElem?_insertIfNew_self,
      Std.ExtTreeMap.getElem?_eq_none (new entry List.mem_cons_self), Option.none_or] at here
    refine ⟨fun name => ?_, fun name old => ?_, List.forall_mem_cons.mpr ⟨here, bound⟩,
      List.forall_mem_cons.mpr ⟨fits, accepted⟩⟩
    · rw [names, members, List.map_cons, List.mem_cons]
      tauto
    · rw [kept name ((members name).mpr (.inr old)), Std.ExtTreeMap.getElem?_insertIfNew, if_neg]
      rintro ⟨same, _⟩
      rw [Std.LawfulEqCmp.compare_eq_iff_eq] at same
      exact new entry List.mem_cons_self (same ▸ old)

theorem arguments_ok {schema : Schema} {values : Message}
    (h : arguments definition request requirement = .ok (schema, values)) :
    parseSchema definition = .ok schema ∧ Binds definition request requirement schema values := by
  obtain ⟨_, h⟩ := Except.of_guard_ok h
  split at h
  · cases h
  rename_i found parsed
  obtain ⟨bound, run, h⟩ := Except.of_bind_ok h
  cases h
  obtain ⟨names, _, bound, accepted⟩ := foldlM_bindParameter (parseSchema_ok parsed).distinct (by simp) run
  refine ⟨parsed, fun name => ?_, bound, accepted⟩
  rw [names]
  simp

/-! ### The argument fields of a prompt -/

def argKey (requirement index : Nat) (part : String) : String :=
  row requirement "arg" ++ toString index ++ "." ++ part

theorem argKey_eq (requirement index : Nat) (part : String) :
    argKey requirement index part = row requirement ("arg" ++ toString index ++ "." ++ part) := by
  apply String.toList_inj.mp
  simp [argKey, row]

theorem argKey_inj {i k l : Nat} {a b : String} : argKey i k a = argKey i l b ↔ k = l ∧ a = b := by
  rw [argKey_eq, argKey_eq, row_inj]
  constructor
  · rintro ⟨_, same⟩
    have lists := congrArg String.toList same
    simp only [String.toList_append, List.append_assoc] at lists
    obtain ⟨indices, names⟩ := Codes.number_unique (by decide) (List.append_cancel_left lists)
    exact ⟨indices, String.toList_inj.mp names⟩
  · rintro ⟨rfl, rfl⟩
    exact ⟨rfl, rfl⟩

/-- The three fields of an argument. -/
def putArgument (requirement : Nat) (values : Message) (result : Message)
    (entry : (String × Parameter) × Nat) : Message :=
  ((result.insert (argKey requirement entry.2 "name") entry.1.1).insert
    (argKey requirement entry.2 "type") entry.1.2.type).insert
      (argKey requirement entry.2 "value") (values.get entry.1.1)

/-- What an argument field says. -/
def argumentField (values : Message) (entry : String × Parameter) (part : String) : Option String :=
  if part = "name" then some entry.1
  else if part = "type" then some entry.2.type
  else if part = "value" then some (values.get entry.1)
  else none

theorem getElem?_putArgument (values result : Message) (entry : String × Parameter)
    (k l : Nat) (part : String) :
    (putArgument requirement values result (entry, l))[argKey requirement k part]? =
      if k = l then (argumentField values entry part).or result[argKey requirement k part]?
      else result[argKey requirement k part]? := by
  simp only [putArgument, Std.ExtTreeMap.getElem?_insert, Std.LawfulEqCmp.compare_eq_iff_eq, argKey_inj,
    argumentField]
  by_cases same : k = l
  · subst same
    simp only [true_and, if_true, eq_comm (b := part)]
    by_cases value : part = "value"
    · subst value
      simp
    · by_cases type : part = "type"
      · subst type
        simp
      · by_cases name : part = "name"
        · subst name
          simp
        · simp [value, type, name]
  · simp [Ne.symm same, same]

theorem mem_foldl_putArgument {values : Message} {schema : List ((String × Parameter) × Nat)}
    {result : Message} {key : String} (member : key ∈ schema.foldl (putArgument requirement values) result) :
    key ∈ result ∨ ∃ k part, key = argKey requirement k part := by
  induction schema generalizing result with
  | nil => exact .inl member
  | cons entry schema ih =>
    rcases ih member with inside | other
    · simp only [putArgument, Std.ExtTreeMap.mem_insert, Std.LawfulEqCmp.compare_eq_iff_eq] at inside
      rcases inside with rfl | rfl | rfl | inside
      · exact .inr ⟨_, _, rfl⟩
      · exact .inr ⟨_, _, rfl⟩
      · exact .inr ⟨_, _, rfl⟩
      · exact .inl inside
    · exact .inr other

theorem getElem?_foldl_putArgument_of_ne {values : Message} {schema : List ((String × Parameter) × Nat)}
    {result : Message} {key : String} (other : ∀ k part, argKey requirement k part ≠ key) :
    (schema.foldl (putArgument requirement values) result)[key]? = result[key]? := by
  induction schema generalizing result with
  | nil => rfl
  | cons entry schema ih =>
    rw [List.foldl_cons, ih]
    simp [putArgument, Std.ExtTreeMap.getElem?_insert, other]

theorem argKey_ne {i j k : Nat} {part name : String} (plain : '.' ∉ name.toList) :
    argKey i k part ≠ row j name := by
  intro same
  rw [argKey_eq, row_inj] at same
  refine plain ?_
  rw [← same.2]
  simp

/-- The argument fields of row `requirement` in a message: those of the declared parameters. -/
structure Supplies (definition : Message) (schema : Schema) (values : Message) (requirement : Nat)
    (fields : Message) : Prop where
  version : fields[row requirement "template_version"]? =
    if definition.contains "template_version" then some "1" else none
  count : fields[row requirement "arg_count"]? =
    if definition.contains "template_version" then some (toString schema.length) else none
  entries : ∀ k part, fields[argKey requirement k part]? = schema[k]?.bind (argumentField values · part)
  only : ∀ key ∈ fields, key = row requirement "template_version" ∨ key = row requirement "arg_count" ∨
    ∃ k part, key = argKey requirement k part

theorem appendArguments_ok {schema : Schema} {values : Message} (valid : schema.Valid definition)
    (bound : arguments definition request requirement = .ok (schema, values)) :
    ∃ fields, appendArguments definition request requirement ∅ = .ok fields ∧
      Supplies definition schema values requirement fields := by
  unfold appendArguments
  rw [bound]
  dsimp only [bind, Except.bind]
  by_cases typed : definition.contains "template_version" = true
  · rw [typed, Bool.not_true, if_neg (by decide)]
    refine ⟨_, rfl, ?_, ?_, fun k part => ?_, fun key member => ?_⟩
    · rw [if_pos typed]
      refine (getElem?_foldl_putArgument_of_ne fun k part => argKey_ne (by decide)).trans ?_
      rw [Std.ExtTreeMap.getElem?_insert, if_neg, Std.ExtTreeMap.getElem?_insert_self]
      simp
    · rw [if_pos typed]
      refine (getElem?_foldl_putArgument_of_ne fun k part => argKey_ne (by decide)).trans ?_
      rw [Std.ExtTreeMap.getElem?_insert_self]
    · have empty : ((Std.ExtTreeMap.insert (∅ : Message) (row requirement "template_version") "1").insert
          (row requirement "arg_count") (toString schema.length))[argKey requirement k part]? = none := by
        simp [Ne.symm (argKey_ne (j := requirement) (by decide : '.' ∉ "arg_count".toList)),
          Ne.symm (argKey_ne (j := requirement) (by decide : '.' ∉ "template_version".toList))]
      refine (Maps.getElem?_foldl_zipIdx _ (argKey requirement · part) _
        (fun m a i j => getElem?_putArgument values m a i j part) schema 0 _ k).trans ?_
      rw [empty, Option.or_none, if_pos (Nat.zero_le _), Nat.sub_zero]
    · rcases mem_foldl_putArgument member with inside | other
      · simp only [Std.ExtTreeMap.mem_insert, Std.LawfulEqCmp.compare_eq_iff_eq,
          Std.ExtTreeMap.not_mem_empty, or_false] at inside
        rcases inside with same | same
        · exact .inr (.inl same.symm)
        · exact .inl same.symm
      · exact .inr (.inr other)
  · rw [Bool.not_eq_true] at typed
    have none : schema = [] := by
      by_contra some
      rw [valid.typed some] at typed
      cases typed
    subst none
    refine ⟨∅, by simp [typed, pure, Except.pure], by simp [typed], by simp [typed], by simp, by simp⟩

/-- Row `displayed` of a prompt has the argument fields that row `requirement` has. -/
def Carries (prompt : Message) (displayed : Nat) (fields : Message) (requirement : Nat) : Prop :=
  ∀ name, name = "template_version" ∨ starts name "arg" = true →
    prompt[row displayed name]? = fields[row requirement name]?

theorem starts_eq {key head : String} (h : starts key head = true) :
    ∃ rest, key = head ++ String.ofList rest := by
  unfold starts at h
  obtain ⟨rest, same⟩ := List.isPrefixOf_iff_prefix.mp h
  exact ⟨rest, String.toList_inj.mp (by simp [same])⟩

theorem starts_append (head rest : String) : starts (head ++ rest) head = true := by
  simp [starts]

/-- What the formatter finds in the row of a prompt. -/
structure Displays (definition : Message) (schema : Schema) (values : Message) (displayed : Nat)
    (prompt : Message) : Prop where
  version : prompt[row displayed "template_version"]? =
    if definition.contains "template_version" then some "1" else none
  count : prompt[row displayed "arg_count"]? =
    if definition.contains "template_version" then some (toString schema.length) else none
  entries : ∀ k part, prompt[argKey displayed k part]? = schema[k]?.bind (argumentField values · part)
  only : ∀ key ∈ prompt, starts key (row displayed "arg") = true →
    key = row displayed "arg_count" ∨ ∃ k part, key = argKey displayed k part

theorem Carries.displays {schema : Schema} {values fields prompt : Message} {displayed : Nat}
    (h : Carries prompt displayed fields requirement)
    (supplies : Supplies definition schema values requirement fields) :
    Displays definition schema values displayed prompt := by
  refine ⟨?_, ?_, fun k part => ?_, fun key member begins => ?_⟩
  · rw [h _ (.inl rfl), supplies.version]
  · rw [h _ (.inr (by decide)), supplies.count]
  · rw [argKey_eq, h _ (.inr ?_), ← argKey_eq, supplies.entries]
    rw [String.append_assoc, String.append_assoc]
    exact starts_append _ _
  · obtain ⟨rest, rfl⟩ := starts_eq begins
    have key : row displayed "arg" ++ String.ofList rest =
        row displayed ("arg" ++ String.ofList rest) := by
      apply String.toList_inj.mp
      simp [row]
    rw [key] at member ⊢
    have there : row requirement ("arg" ++ String.ofList rest) ∈ fields := by
      rw [← Std.ExtTreeMap.isSome_getElem?_iff_mem, ← h _ (.inr (starts_append _ _)),
        Std.ExtTreeMap.isSome_getElem?_iff_mem]
      exact member
    rcases supplies.only _ there with same | same | ⟨k, part, same⟩
    · rw [row_inj] at same
      have heads := congrArg (fun text : String => text.toList.head?) same.2
      simp at heads
    · rw [row_inj] at same
      rw [same.2]
      exact .inl rfl
    · rw [argKey_eq, row_inj] at same
      rw [same.2, ← argKey_eq]
      exact .inr ⟨k, part, rfl⟩

end

theorem integer_toString (n : Nat) (small : n ≤ 2 ^ 63 - 1) : integer (toString n) = some (n : Int) := by
  unfold integer
  rw [Wire.parseNumber_toString_nat small]
  have same : toString (n : Int) = toString n := rfl
  simp only [same, beq_self_eq_true, if_true]

theorem isText_mono {value : String} {low high : Nat} (h : isText value low = true) (le : low ≤ high) :
    isText value high = true := by
  simp only [isText, Bool.and_eq_true, decide_eq_true_eq] at h ⊢
  exact ⟨h.1.trans le, h.2⟩

/-- A value that the schema accepts is one that the formatter accepts. -/
theorem checkValue_ok {parameter : Parameter} {value : String}
    (kind : parameter.type = "integer" ∨ parameter.type = "string" ∧ parameter.maxBytes ≤ kMaxString)
    (h : checkValue parameter value = .ok ()) :
    parameter.type = "integer" ∧ (integer value).isNone = false ∨
      parameter.type = "string" ∧ isText value kMaxString = true := by
  unfold checkValue at h
  rcases kind with integral | ⟨textual, bounded⟩
  · rw [integral, if_neg (by decide)] at h
    refine .inl ⟨integral, ?_⟩
    split at h
    · rename_i number found
      rw [found]
      rfl
    · cases h
  · rw [textual, if_pos (by decide)] at h
    obtain ⟨accepted, _⟩ := Except.of_guard_ok h
    exact .inr ⟨textual, isText_mono (by simpa using accepted) bounded⟩

section
variable {definition request prompt values : Message} {requirement displayed : Nat} {schema : Schema}

/-- The first arguments of a row. -/
def firstArguments (schema : Schema) (values : Message) (k : Nat) : Message :=
  (schema.take k).foldl (fun result entry => result.insert entry.1 (values.get entry.1)) ∅

theorem firstArguments_succ {k : Nat} {entry : String × Parameter} (here : schema[k]? = some entry) :
    firstArguments schema values (k + 1) =
      (firstArguments schema values k).insert entry.1 (values.get entry.1) := by
  rw [firstArguments, List.take_add_one, here, List.foldl_append]
  rfl

theorem mem_firstArguments {k : Nat} {name : String} :
    name ∈ firstArguments schema values k ↔ name ∈ (schema.take k).map Prod.fst := by
  unfold firstArguments
  generalize schema.take k = entries
  suffices ∀ start : Message, name ∈ entries.foldl
      (fun result entry => result.insert entry.1 (values.get entry.1)) start ↔
        name ∈ start ∨ name ∈ entries.map Prod.fst by
    simpa using this ∅
  induction entries with
  | nil => simp
  | cons entry entries ih =>
    intro start
    rw [List.foldl_cons, ih, Std.ExtTreeMap.mem_insert, Std.LawfulEqCmp.compare_eq_iff_eq, List.map_cons,
      List.mem_cons, @eq_comm _ entry.1 name]
    tauto

theorem promptArgument_ok (displays : Displays definition schema values displayed prompt)
    (valid : schema.Valid definition) (binds : Binds definition request requirement schema values)
    {k : Nat} {entry : String × Parameter} (here : schema[k]? = some entry) :
    promptArgument prompt displayed (firstArguments schema values k) k =
      .ok (firstArguments schema values (k + 1)) := by
  have member : entry ∈ schema := List.mem_of_getElem? here
  have field : ∀ part value, argumentField values entry part = some value →
      prompt[argKey displayed k part]? = some value := by
    intro part value found
    rw [displays.entries, here, Option.bind_some, found]
  have value := field "value" (values.get entry.1) rfl
  have bound : values.get entry.1 = boundValue definition request requirement entry.2 := by
    rw [Message.get_eq, binds.bound entry member, Option.getD_some]
  have new : entry.1 ∉ firstArguments schema values k := by
    rw [mem_firstArguments]
    have distinct := valid.distinct
    have inside : k < schema.length := by
      by_contra outside
      rw [List.getElem?_eq_none (by omega)] at here
      cases here
    rw [← List.take_append_drop k schema, List.map_append, List.nodup_append] at distinct
    refine fun early => distinct.2.2 entry.1 early entry.1 ?_ rfl
    refine List.mem_map_of_mem ?_
    rw [List.drop_eq_getElem_cons inside]
    rw [List.getElem?_eq_getElem inside] at here
    rw [Option.some.inj here]
    exact List.mem_cons_self
  have contained : prompt.contains (argKey displayed k "value") = true := by
    rw [← Std.ExtTreeMap.isSome_getElem?_eq_contains, value]
    rfl
  have absent : (firstArguments schema values k).contains entry.1 = false := by
    rw [← Bool.not_eq_true, Std.ExtTreeMap.contains_iff_mem]
    exact new
  have shown : ∀ part value, argumentField values entry part = some value →
      prompt.get (row displayed "arg" ++ toString k ++ "." ++ part) = value := by
    intro part value found
    rw [Message.get_eq]
    exact congrArg (Option.getD · "") (field part value found)
  rw [firstArguments_succ here, promptArgument]
  rw [shown "name" _ rfl, shown "type" _ rfl, shown "value" _ rfl, valid.named entry member, absent,
    show prompt.contains (row displayed "arg" ++ toString k ++ "." ++ "value") = true from contained]
  rcases checkValue_ok (valid.kinds entry member) (binds.accepted entry member) with ⟨kind, fits⟩ | ⟨kind, fits⟩
  · rw [kind, bound, fits]
    rfl
  · rw [kind, bound, fits]
    rfl

theorem firstArguments_all (binds : Binds definition request requirement schema values) :
    firstArguments schema values schema.length = values := by
  refine Std.ExtTreeMap.ext_getElem? fun key => ?_
  have members : key ∈ firstArguments schema values schema.length ↔ key ∈ values := by
    rw [mem_firstArguments, List.take_length, binds.declared]
  by_cases inside : key ∈ values
  · have fold : ∀ (entries : Schema) (start : Message), (∀ name ∈ start, start[name]? = some (values.get name)) →
        ∀ name ∈ entries.foldl (fun result entry => result.insert entry.1 (values.get entry.1)) start,
          (entries.foldl (fun result entry => result.insert entry.1 (values.get entry.1)) start)[name]? =
            some (values.get name) := by
      intro entries
      induction entries with
      | nil => exact fun start holds => holds
      | cons entry entries ih =>
        intro start holds
        refine ih _ fun name member => ?_
        rw [Std.ExtTreeMap.getElem?_insert]
        split
        · rename_i same
          rw [Std.LawfulEqCmp.compare_eq_iff_eq.mp same]
        · rename_i other
          exact holds name ((Std.ExtTreeMap.mem_insert.mp member).resolve_left other)
    have stored := fold schema ∅ (by simp) key (by
      have there := members.mpr inside
      rwa [firstArguments, List.take_length] at there)
    rw [firstArguments, List.take_length, stored, Message.get_eq]
    obtain ⟨value, found⟩ := Option.isSome_iff_exists.mp
      (Std.ExtTreeMap.isSome_getElem?_iff_mem.mpr inside)
    rw [found, Option.getD_some]
  · rw [Std.ExtTreeMap.getElem?_eq_none inside,
      Std.ExtTreeMap.getElem?_eq_none (fun there => inside (members.mp there))]

/-- The formatter reads exactly the declared parameters with their values. -/
theorem promptArguments_ok (displays : Displays definition schema values displayed prompt)
    (valid : schema.Valid definition) (binds : Binds definition request requirement schema values) :
    promptArguments prompt displayed = .ok ((schema.length : Int), values) := by
  have loop : ∀ k ≤ schema.length, (List.range k).foldlM (promptArgument prompt displayed) ∅ =
      .ok (firstArguments schema values k) := by
    intro k
    induction k with
    | zero => intro _; rfl
    | succ k ih =>
      intro inside
      rw [List.range_succ, List.foldlM_append, ih (by omega)]
      have step := promptArgument_ok displays valid binds (List.getElem?_eq_getElem (by omega : k < schema.length))
      simp only [bind, Except.bind, List.foldlM_cons, List.foldlM_nil, step]
      rfl
  have few := valid.few
  unfold promptArguments
  have version := displays.version
  have count := displays.count
  by_cases typed : definition.contains "template_version" = true
  · rw [if_pos typed] at version count
    have contained : prompt.contains (row displayed "template_version") = true := by
      rw [← Std.ExtTreeMap.isSome_getElem?_eq_contains, version]
      rfl
    have stated : prompt.get (row displayed "template_version") = "1" := by
      rw [Message.get_eq, version, Option.getD_some]
    rw [contained, Bool.not_true, if_neg (by decide), Message.get_eq, count, Option.getD_some,
      integer_toString _ (by rw [kMaxParameters] at few; omega)]
    dsimp only
    rw [stated, Int.toNat_natCast, loop _ (le_refl _), firstArguments_all binds]
    have bounds : ¬ (("1" != "1" || decide ((schema.length : Int) < 0) ||
        decide ((schema.length : Int) > kMaxParameters)) = true) := by
      simp
      omega
    rw [if_neg bounds]
    rfl
  · rw [if_neg typed] at version
    have absent : prompt.contains (row displayed "template_version") = false := by
      rw [← Std.ExtTreeMap.isSome_getElem?_eq_contains, version]
      rfl
    have none : schema = [] := by
      by_contra some
      exact typed (valid.typed some)
    have empty := firstArguments_all binds
    subst none
    rw [absent, ← empty]
    rfl

theorem splitFirst_digits (k : Nat) (part : String) :
    splitFirst '.' ((toString k).toList ++ '.' :: part.toList) = some ((toString k).toList, part.toList) := by
  have digits : ∀ c ∈ (toString k).toList, (c != '.') = true := by
    intro c member
    rw [bne_iff_ne]
    rintro rfl
    exact absurd (Codes.isDigit_of_mem_toString member) (by decide)
  unfold splitFirst
  rw [List.span_eq_takeWhile_dropWhile, List.takeWhile_append_of_pos digits,
    List.dropWhile_append_of_pos digits]
  simp

theorem promptArgumentField_ok (displays : Displays definition schema values displayed prompt)
    (valid : schema.Valid definition) {key : String} (member : key ∈ prompt) :
    promptArgumentField prompt displayed schema.length key = .ok () := by
  have few := valid.few
  unfold promptArgumentField
  dsimp only
  by_cases begins : starts key (row displayed "arg") = true
  · rw [begins, Bool.not_true, if_neg (by decide)]
    obtain ⟨value, stored⟩ := Option.isSome_iff_exists.mp
      (Std.ExtTreeMap.isSome_getElem?_iff_mem.mpr member)
    rcases displays.only key member begins with rfl | ⟨k, part, rfl⟩
    · have typed : definition.contains "template_version" = true := by
        by_contra untyped
        rw [displays.count, if_neg untyped] at stored
        cases stored
      have contained : prompt.contains (row displayed "template_version") = true := by
        rw [← Std.ExtTreeMap.isSome_getElem?_eq_contains, displays.version, if_pos typed]
        rfl
      rw [contained, Bool.and_true, if_pos (beq_self_eq_true _)]
      rfl
    · have other : (argKey displayed k part == row displayed "arg_count") = false := by
        rw [beq_eq_false_iff_ne]
        exact argKey_ne (by decide)
      have tail : (argKey displayed k part).toList.drop (row displayed "arg").toList.length =
          (toString k).toList ++ '.' :: part.toList := by
        simp [argKey]
      rw [displays.entries] at stored
      obtain ⟨entry, here, named⟩ := Option.bind_eq_some_iff.mp stored
      have inside : k < schema.length := (List.getElem?_eq_some_iff.mp here).1
      have known : ["name", "type", "value"].contains part = true := by
        unfold argumentField at named
        split at named
        · rename_i same
          simp [same]
        · split at named
          · rename_i same
            simp [same]
          · split at named
            · rename_i same
              simp [same]
            · cases named
      rw [other, Bool.false_and, if_neg (by decide), tail, splitFirst_digits]
      dsimp only
      rw [String.ofList_toList, integer_toString _ (by rw [kMaxParameters] at few; omega)]
      dsimp only
      rw [String.ofList_toList, known]
      have bounds : ¬ ((decide ((k : Int) < 0) || decide ((k : Int) ≥ schema.length)) = true) := by
        simp
        omega
      rw [if_neg bounds]
      rfl
  · rw [Bool.not_eq_true] at begins
    rw [begins]
    rfl

/-- The prompt of an accepted row formats if the rendered text fits. -/
theorem formatPrompt_ok (displays : Displays definition schema values displayed prompt)
    (valid : schema.Valid definition) (binds : Binds definition request requirement schema values)
    {title body : Finset String} {count : Int} {field : String}
    (counted : integer (prompt.get "count") = some count)
    (bounds : (displayed : Int) < count ∧ count ≤ kMaxRequirements) (size : prompt.size ≤ kMaxFields)
    (titled : template (prompt.get (row displayed "title")) = some title)
    (bodied : template (prompt.get (row displayed "body")) = some body)
    (declared : title ∪ body = (schema.map Prod.fst).toFinset)
    (named : field = "title" ∨ field = "body")
    (fits : (expand values "" (pieces (prompt.get (row displayed field)).toList none [])).utf8ByteSize ≤
      kMaxRendered) :
    formatPrompt prompt displayed field =
      .ok (expand values "" (pieces (prompt.get (row displayed field)).toList none [])) := by
  have few : (title ∪ body).card ≤ kMaxParameters := by
    rw [declared]
    refine (List.toFinset_card_le _).trans ?_
    rw [List.length_map]
    exact valid.few
  have first : placeholders (prompt.get (row displayed "title")) ∅ = .ok title :=
    (placeholders_eq_ok (by simp)).mpr ⟨title, titled, by simp,
      (Finset.card_le_card Finset.subset_union_left).trans few⟩
  have second : placeholders (prompt.get (row displayed "body")) title = .ok (title ∪ body) :=
    (placeholders_eq_ok ((Finset.card_le_card Finset.subset_union_left).trans few)).mpr
      ⟨body, bodied, rfl, few⟩
  have fields : prompt.toList.foldlM (fun _ entry =>
      promptArgumentField prompt displayed schema.length entry.1) () = .ok () := by
    have each : ∀ entry ∈ prompt.toList,
        promptArgumentField prompt displayed schema.length entry.1 = .ok () := by
      intro entry member
      refine promptArgumentField_ok displays valid ?_
      rw [← Std.ExtTreeMap.isSome_getElem?_iff_mem,
        Std.ExtTreeMap.mem_toList_iff_getElem?_eq_some.mp member]
      rfl
    generalize prompt.toList = entries at each
    induction entries with
    | nil => rfl
    | cons entry entries ih =>
      rw [List.foldlM_cons, each entry List.mem_cons_self]
      exact ih fun other member => each other (List.mem_cons_of_mem _ member)
  have keys : values.keys.toFinset = (schema.map Prod.fst).toFinset := by
    ext name
    rw [List.mem_toFinset, List.mem_toFinset, Std.ExtTreeMap.mem_keys, binds.declared]
  have known : ∀ name ∈ title ∪ body, name ∈ values := by
    intro name member
    rw [binds.declared, ← List.mem_toFinset, ← declared]
    exact member
  unfold formatPrompt
  rw [counted]
  dsimp only
  rw [if_neg]
  · simp only [bind, Except.bind, first, second, promptArguments_ok displays valid binds, fields, keys]
    rw [if_neg (not_not_intro declared)]
    rcases named with rfl | rfl
    · exact render_eq titled (fun name member => known name (Finset.mem_union_left _ member)) fits
    · exact render_eq bodied (fun name member => known name (Finset.mem_union_right _ member)) fits
  · rcases named with rfl | rfl
    · simp
      omega
    · simp
      omega

end

end Consent.Localization
