import Consent.Guarantees.Arguments

/-!
A definition that is accepted can be shown: in every locale there are a title and a body, the
arguments of an accepted row are those that the definition declares, and the prompt formats
unless its text grows beyond the limit.
-/
namespace Consent.Localization

/-! ### Locales -/

section
variable {definition : Message}

theorem splitLast_eq {separator : Char} {value left right : List Char}
    (h : splitLast separator value = some (left, right)) : value = left ++ separator :: right := by
  obtain ⟨⟨a, b⟩, split, same⟩ := Option.map_eq_some_iff.mp h
  obtain ⟨rfl, rfl⟩ := Prod.mk.inj same
  unfold splitFirst at split
  rw [List.span_eq_takeWhile_dropWhile] at split
  split at split
  · cases split
  · rename_i first c tail whole
    cases split
    obtain ⟨head, rest⟩ := Prod.mk.inj whole
    have last : c = separator := by
      have stops := List.head?_dropWhile_not (· != separator) value.reverse
      rw [rest] at stops
      simpa using stops
    have joined := List.takeWhile_append_dropWhile (p := (· != separator)) (l := value.reverse)
    rw [head, rest, last] at joined
    have reversed := congrArg List.reverse joined
    rw [List.reverse_reverse] at reversed
    rw [← reversed]
    simp

/-- The texts that a locale has are fields of the definition. -/
def Localized (definition : Message) (locales : Std.ExtTreeMap String Message compare) : Prop :=
  ∀ locale group, locales[locale]? = some group → ∀ name value, group[name]? = some value →
    (name = "title" ∨ name = "body") ∧
      definition["message." ++ locale ++ "." ++ name]? = some value

theorem groupLocales_ok {locales : Std.ExtTreeMap String Message compare}
    (h : groupLocales definition = .ok locales) : Localized definition locales := by
  obtain ⟨⟨final, count⟩, run, h⟩ := Except.of_bind_ok h
  cases h
  refine Tally.invariant (I := fun state : Std.ExtTreeMap String Message compare × Nat =>
    Localized definition state.1) ?_ ?_ run
  · intro locale group found
    simp at found
  · rintro field member ⟨groups, n⟩ ⟨groups', n'⟩ holds turn
    dsimp only at turn holds ⊢
    split at turn
    · cases turn
      exact holds
    rename_i begins
    split at turn
    · cases turn
    rename_i locale name split
    obtain ⟨_, turn⟩ := Except.of_guard_ok turn
    obtain ⟨known, turn⟩ := Except.of_guard_ok turn
    obtain ⟨_, turn⟩ := Except.of_guard_ok turn
    cases turn
    have key : field.1 = "message." ++ String.ofList locale ++ "." ++ String.ofList name := by
      obtain ⟨rest, same⟩ := starts_eq (by simpa using begins)
      rw [same] at split
      have parts : rest = locale ++ '.' :: name := by
        refine splitLast_eq ?_
        simpa using split
      rw [same, parts]
      apply String.toList_inj.mp
      simp
    have stored : definition[field.1]? = some field.2 :=
      Std.ExtTreeMap.mem_toList_iff_getElem?_eq_some.mp member
    intro other group found part value here
    rw [Std.ExtTreeMap.getElem?_insert] at found
    split at found
    · rename_i same
      obtain rfl := Std.LawfulEqCmp.compare_eq_iff_eq.mp same
      cases found
      rw [Std.ExtTreeMap.getElem?_insert] at here
      split at here
      · rename_i same
        obtain rfl := Std.LawfulEqCmp.compare_eq_iff_eq.mp same
        cases here
        rw [← key]
        refine ⟨?_, stored⟩
        simpa [or_iff_not_imp_left] using known
      · rw [Std.ExtTreeMap.getD_eq_getD_getElem?] at here
        rcases old : groups[String.ofList locale]? with _ | before
        · rw [old] at here
          simp at here
        · rw [old] at here
          exact holds _ before old part value here
    · exact holds other group found part value here

end

section
variable {definition : Message} {schema : Schema}

/-- A locale with both texts, which name the declared parameters. -/
structure Registers (definition : Message) (schema : Schema) (locale : String) : Prop where
  texts : ∃ title body, template (definition.get ("message." ++ locale ++ ".title")) = some title ∧
    template (definition.get ("message." ++ locale ++ ".body")) = some body ∧
    title ∪ body = (schema.map Prod.fst).toFinset

theorem group_complete {group : Message} (size : group.size = 2)
    (known : ∀ name ∈ group, name = "title" ∨ name = "body") : "title" ∈ group ∧ "body" ∈ group := by
  have two : group.keys.length = 2 := by rw [Std.ExtTreeMap.length_keys, size]
  have distinct : group.keys.Nodup := Std.ExtTreeMap.nodup_keys
  have missing : ∀ absent other : String, (∀ name ∈ group, name = absent ∨ name = other) →
      absent ∈ group := by
    intro absent other known
    by_contra gone
    have inside : group.keys ⊆ [other] := by
      intro name member
      have there := Std.ExtTreeMap.mem_keys.mp member
      rcases known name there with rfl | rfl
      · exact absurd there gone
      · exact List.mem_cons_self
    have few := (distinct.subperm inside).length_le
    rw [two] at few
    simp at few
  exact ⟨missing "title" "body" known, missing "body" "title" fun name member => (known name member).symm⟩

/-- The two texts of a locale name the parameters that the scan of both found. -/
theorem registers_of_group {locale : String} {group : Message} {found : Finset String}
    (texts : ∀ name value, group[name]? = some value → (name = "title" ∨ name = "body") ∧
      definition["message." ++ locale ++ "." ++ name]? = some value)
    (size : group.size = 2)
    (run : group.toList.foldlM (fun names field => placeholders field.2 names) ∅ = .ok found)
    (declared : found = (schema.map Prod.fst).toFinset) : Registers definition schema locale := by
  obtain ⟨_, formed, union⟩ := foldlM_placeholders (by simp) run
  have known : ∀ name ∈ group, name = "title" ∨ name = "body" := by
    intro name inside
    obtain ⟨value, stored⟩ := Option.isSome_iff_exists.mp
      (Std.ExtTreeMap.isSome_getElem?_iff_mem.mpr inside)
    exact (texts name value stored).1
  have parts : ∀ name ∈ group, ∃ value names, group[name]? = some value ∧ template value = some names ∧
      definition.get ("message." ++ locale ++ "." ++ name) = value := by
    intro name inside
    obtain ⟨value, stored⟩ := Option.isSome_iff_exists.mp
      (Std.ExtTreeMap.isSome_getElem?_iff_mem.mpr inside)
    obtain ⟨names, scan⟩ := formed (name, value)
      (Std.ExtTreeMap.mem_toList_iff_getElem?_eq_some.mpr stored)
    refine ⟨value, names, stored, scan, ?_⟩
    rw [Message.get_eq, (texts name value stored).2, Option.getD_some]
  obtain ⟨hasTitle, hasBody⟩ := group_complete size known
  obtain ⟨t, titles, title, titled, ownTitle⟩ := parts "title" hasTitle
  obtain ⟨b, bodies, body, bodied, ownBody⟩ := parts "body" hasBody
  refine ⟨titles, bodies, ?_, ?_, ?_⟩
  · rw [← titled, ← ownTitle, @String.append_assoc ("message." ++ locale) "." "title"]
    rfl
  · rw [← bodied, ← ownBody, @String.append_assoc ("message." ++ locale) "." "body"]
    rfl
  · rw [← declared]
    ext name
    rw [union, Finset.mem_union]
    constructor
    · rintro (inside | inside)
      · exact .inr ⟨_, Std.ExtTreeMap.mem_toList_iff_getElem?_eq_some.mpr title, titles, titled, inside⟩
      · exact .inr ⟨_, Std.ExtTreeMap.mem_toList_iff_getElem?_eq_some.mpr body, bodies, bodied, inside⟩
    · rintro (none | ⟨⟨key, value⟩, listed, new, scan, inside⟩)
      · simp at none
      · have stored := Std.ExtTreeMap.mem_toList_iff_getElem?_eq_some.mp listed
        rcases (texts key value stored).1 with rfl | rfl
        · obtain rfl := Option.some.inj (title.symm.trans stored)
          obtain rfl := Option.some.inj (titled.symm.trans scan)
          exact .inl inside
        · obtain rfl := Option.some.inj (body.symm.trans stored)
          obtain rfl := Option.some.inj (bodied.symm.trans scan)
          exact .inr inside

theorem registerLocale_ok {registered result : Finset String} {locale : String × Message}
    {locales : Std.ExtTreeMap String Message compare} (localized : Localized definition locales)
    (member : locales[locale.1]? = some locale.2)
    (earlier : ∀ name ∈ registered, Registers definition schema name)
    (h : registerLocale definition (schema.map Prod.fst).toFinset registered locale = .ok result) :
    ∀ name ∈ result, Registers definition schema name := by
  obtain ⟨found, run, h⟩ := Except.of_bind_ok h
  obtain ⟨_, h⟩ := Except.of_guard_ok h
  obtain ⟨same, h⟩ := Except.of_guard_ok h
  cases h
  split
  · rename_i two
    intro name inside
    rcases Finset.mem_insert.mp inside with rfl | old
    · exact registers_of_group (localized _ _ member) (by simpa using two) run (not_not.mp same)
    · exact earlier name old
  · exact earlier

theorem messageLocales_ok {registered : Finset String}
    (h : messageLocales definition schema = .ok registered) :
    definition.get "default_locale" ∈ registered ∧
      ∀ locale ∈ registered, Registers definition schema locale := by
  obtain ⟨locales, grouped, h⟩ := Except.of_bind_ok h
  obtain ⟨found, run, h⟩ := Except.of_bind_ok h
  have each : ∀ locale ∈ found, Registers definition schema locale := by
    refine Tally.invariant
      (I := fun found : Finset String => ∀ locale ∈ found, Registers definition schema locale)
      (by simp) ?_ run
    intro locale member earlier next holds turn
    exact registerLocale_ok (groupLocales_ok grouped)
      (Std.ExtTreeMap.mem_toList_iff_getElem?_eq_some.mp member) holds turn
  obtain ⟨listed, h⟩ := Except.of_guard_ok h
  obtain ⟨aliases, _, h⟩ := Except.of_bind_ok h
  obtain ⟨_, h⟩ := Except.of_guard_ok h
  cases h
  exact ⟨not_not.mp listed, each⟩

theorem selectLocale_ok {registered : Finset String} {requested : String}
    (valid : isLocale requested = true) (parsed : parseSchema definition = .ok schema)
    (located : messageLocales definition schema = .ok registered) :
    ∃ chosen ∈ registered, selectLocale definition requested = .ok chosen := by
  unfold selectLocale
  rw [valid, Bool.not_true, if_neg (by decide), parsed]
  simp only [bind, Except.bind, located]
  split
  · rename_i inside
    exact ⟨requested, inside, rfl⟩
  · simp only [pure, Except.pure]
    have fallback : ∀ name : String,
        (if name ∈ registered then name else definition.get "default_locale") ∈ registered := by
      intro name
      split
      · assumption
      · exact (messageLocales_ok located).1
    exact ⟨_, fallback _, rfl⟩

end

/-! ### Accepted definitions -/

theorem validateDefinition_localized {definition : Message}
    (h : Registration.validateDefinition definition = .ok ()) :
    validateDefinition definition = .ok () := by
  obtain ⟨_, h⟩ := Except.of_guard_ok h
  obtain ⟨_, h⟩ := Except.of_guard_ok h
  split at h
  · cases h
  obtain ⟨_, h⟩ := Except.of_guard_ok h
  obtain ⟨_, _, h⟩ := Except.of_bind_ok h
  obtain ⟨_, h⟩ := Except.of_guard_ok h
  obtain ⟨_, h⟩ := Except.of_guard_ok h
  exact (Except.of_guard_ok h).2

/-- The arguments are put over whatever the prompt holds. -/
theorem appendArguments_over {definition request fields : Message} {requirement : Nat}
    (h : appendArguments definition request requirement ∅ = .ok fields) (prompt : Message) :
    ∃ result, appendArguments definition request requirement prompt = .ok result ∧
      ∀ key : String, result[key]? = fields[key]?.or prompt[key]? := by
  have put : ∀ (a b : Message) (name value : String), (∀ key : String, a[key]? = b[key]?.or prompt[key]?) →
      ∀ key : String, (a.insert name value)[key]? = (b.insert name value)[key]?.or prompt[key]? := by
    intro a b name value same key
    rw [Std.ExtTreeMap.getElem?_insert, Std.ExtTreeMap.getElem?_insert]
    split
    · rfl
    · exact same key
  unfold appendArguments at h ⊢
  obtain ⟨⟨schema, values⟩, bound, h⟩ := Except.of_bind_ok h
  rw [bound]
  dsimp only [bind, Except.bind] at h ⊢
  split at h
  · cases h
    rename_i untyped
    rw [if_pos untyped]
    exact ⟨prompt, rfl, by simp⟩
  · cases h
    rename_i typed
    rw [if_neg typed]
    refine ⟨_, rfl, ?_⟩
    have start := put _ _ (row requirement "arg_count") (toString schema.length)
      (put prompt ∅ (row requirement "template_version") "1" (by simp))
    revert start
    generalize (Std.ExtTreeMap.insert prompt (row requirement "template_version") "1").insert
      (row requirement "arg_count") (toString schema.length) = a
    generalize (Std.ExtTreeMap.insert (∅ : Message) (row requirement "template_version") "1").insert
      (row requirement "arg_count") (toString schema.length) = b
    generalize schema.zipIdx = entries
    induction entries generalizing a b with
    | nil => exact fun start => start
    | cons entry entries ih =>
      intro start
      exact ih _ _ (put _ _ _ _ (put _ _ _ _ (put _ _ _ _ start)))

/-- For a definition that registration accepts, a row whose arguments are accepted and any
locale: the chosen locale has a title and a body; the arguments are exactly the declared
parameters with the values of the row; and every prompt that shows the texts and the
arguments formats, if the rendered text is not too large. -/
theorem accepted_definition_renders {definition request : Message} {requirement : Nat}
    {requested : String} (registered : Registration.validateDefinition definition = .ok ())
    (bound : validateArguments definition request requirement = .ok ())
    (valid : isLocale requested = true) :
    ∃ schema values chosen fields, parseSchema definition = .ok schema ∧
      selectLocale definition requested = .ok chosen ∧
      definition.get ("message." ++ chosen ++ ".title") ≠ "" ∧
      definition.get ("message." ++ chosen ++ ".body") ≠ "" ∧
      (∀ prompt, ∃ result, appendArguments definition request requirement prompt = .ok result ∧
        ∀ key : String, result[key]? = fields[key]?.or prompt[key]?) ∧
      Supplies definition schema values requirement fields ∧
      Binds definition request requirement schema values ∧
      ∀ (prompt : Message) (displayed : Nat) (count : Int) (field : String),
        integer (prompt.get "count") = some count → (displayed : Int) < count →
        count ≤ kMaxRequirements → prompt.size ≤ kMaxFields →
        prompt.get (row displayed "title") = definition.get ("message." ++ chosen ++ ".title") →
        prompt.get (row displayed "body") = definition.get ("message." ++ chosen ++ ".body") →
        Carries prompt displayed fields requirement → field = "title" ∨ field = "body" →
        (expand values "" (pieces (prompt.get (row displayed field)).toList none [])).utf8ByteSize ≤
          kMaxRendered →
        formatPrompt prompt displayed field =
          .ok (expand values "" (pieces (prompt.get (row displayed field)).toList none [])) := by
  obtain ⟨schema, parsed, located⟩ := Except.of_bind_ok (validateDefinition_localized registered)
  obtain ⟨locales, located, _⟩ := Except.of_bind_ok located
  obtain ⟨⟨schema', values⟩, bound, _⟩ := Except.of_bind_ok bound
  obtain ⟨parsed', binds⟩ := arguments_ok bound
  obtain rfl : schema = schema' := Except.ok.inj (parsed.symm.trans parsed')
  have declares := parseSchema_ok parsed
  obtain ⟨chosen, known, selected⟩ := selectLocale_ok valid parsed located
  obtain ⟨title, body, titled, bodied, names⟩ := ((messageLocales_ok located).2 chosen known).texts
  obtain ⟨fields, appended, supplies⟩ := appendArguments_ok declares bound
  refine ⟨schema, values, chosen, fields, parsed, selected, template_ne titled, template_ne bodied,
    appendArguments_over appended, supplies, binds, ?_⟩
  intro prompt displayed count field counted below few size sameTitle sameBody carries named fits
  rw [← sameTitle] at titled
  rw [← sameBody] at bodied
  exact formatPrompt_ok (carries.displays supplies) declares binds counted ⟨below, few⟩ size titled bodied
    names named fits

def sampleDefinition : Message := Message.of
  [("definition", "loc"), ("package", "p"), ("app", "a"), ("enforcer", "cm"), ("policy_version", "1"),
    ("text_revision", "1"), ("level", "1"), ("modes", "ONCE"), ("default_locale", "en"),
    ("template_version", "1"), ("parameter.place.source", "scope"), ("parameter.place.type", "string"),
    ("parameter.place.max_bytes", "16"), ("message.en.title", "Use \x7bplace\x7d"),
    ("message.en.body", "Share it")]

def sampleRow : Message := Message.of [("r0.scope", "home")]

/-- A typed definition, shown in a language that it falls back from. -/
theorem accepted_definition_renders_sample :
    ∃ chosen, selectLocale sampleDefinition "en-GB" = .ok chosen ∧
      sampleDefinition.get ("message." ++ chosen ++ ".title") ≠ "" ∧
      sampleDefinition.get ("message." ++ chosen ++ ".body") ≠ "" := by
  have accepted : Registration.validateDefinition sampleDefinition = .ok () := by decide
  have bound : validateArguments sampleDefinition sampleRow 0 = .ok () := by decide
  obtain ⟨_, _, chosen, _, _, selected, title, body, _⟩ :=
    accepted_definition_renders accepted bound (by decide : isLocale "en-GB" = true)
  exact ⟨chosen, selected, title, body⟩

end Consent.Localization
