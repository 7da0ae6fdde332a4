import Consent.Ui.Prompt

/-!
Nothing is allowed unread. The text by which the user interface compares prompts determines
what it displays, so progress is kept only while the same pages are shown; and whoever can
press Allow has had every page of the prompt on the screen since it last changed.
-/
namespace Consent.Ui

/-! ### The compared text -/

/-- Two texts agree on their longest initial parts of one kind of character. -/
theorem span_unique {p : Char → Bool} {a b left right : List Char} (all : ∀ c ∈ a, p c = true)
    (all' : ∀ c ∈ b, p c = true) (ends : ∀ c ∈ left.head?, p c = false)
    (ends' : ∀ c ∈ right.head?, p c = false) (same : a ++ left = b ++ right) :
    a = b ∧ left = right := by
  have spans : ∀ {a left : List Char}, (∀ c ∈ a, p c = true) → (∀ c ∈ left.head?, p c = false) →
      (a ++ left).takeWhile p = a := by
    intro a left all ends
    rw [List.takeWhile_append_of_pos all]
    cases left with
    | nil => simp
    | cons c rest => simp [ends c (by simp)]
  have heads : a = b := by rw [← spans all ends, same, spans all' ends']
  subst heads
  exact ⟨rfl, List.append_cancel_left same⟩

def units (text : List Char) : Nat := (text.map fun c => if c.toNat < 0x10000 then 1 else 2).sum

/-- Texts of one length at the start of the same text. -/
theorem units_unique {a b left right : List Char} (size : units a = units b)
    (same : a ++ left = b ++ right) : a = b ∧ left = right := by
  induction a generalizing b with
  | nil =>
    cases b with
    | nil => exact ⟨rfl, same⟩
    | cons c rest =>
      simp only [units, List.map_nil, List.sum_nil, List.map_cons, List.sum_cons] at size
      split at size <;> omega
  | cons c rest ih =>
    cases b with
    | nil =>
      simp only [units, List.map_nil, List.sum_nil, List.map_cons, List.sum_cons] at size
      split at size <;> omega
    | cons c' rest' =>
      rw [List.cons_append, List.cons_append, List.cons.injEq] at same
      obtain ⟨rfl, same⟩ := same
      have rests : units rest = units rest' := by
        simp only [units, List.map_cons, List.sum_cons] at size ⊢
        omega
      obtain ⟨rfl, ends⟩ := ih rests same
      exact ⟨rfl, ends⟩

theorem lengthed16_toList (text : String) : (lengthed16 text).toList =
    (toString (units text.toList)).toList ++ ':' :: text.toList := by
  simp [lengthed16, utf16Length, units]

theorem lengthed16_unique {a b : String} {left right : List Char}
    (same : (lengthed16 a).toList ++ left = (lengthed16 b).toList ++ right) : a = b ∧ left = right := by
  rw [lengthed16_toList, lengthed16_toList, List.append_assoc, List.append_assoc, List.cons_append,
    List.cons_append] at same
  obtain ⟨sizes, texts⟩ := Codes.number_unique (by decide) same
  obtain ⟨lists, ends⟩ := units_unique sizes texts
  exact ⟨String.toList_inj.mp lists, ends⟩

/-- A text behind its length begins with a digit. -/
theorem lengthed16_head (text : String) (rest : List Char) :
    ∃ c tail, (lengthed16 text).toList ++ rest = c :: tail ∧ c.isDigit = true := by
  rw [lengthed16_toList]
  rcases digits : (toString (units text.toList)).toList with _ | ⟨c, tail⟩
  · have empty : toString (units text.toList) = "" := String.toList_inj.mp digits
    exact absurd empty Nat.repr_ne_empty
  · refine ⟨c, tail ++ ':' :: text.toList ++ rest, by simp, ?_⟩
    exact Codes.isDigit_of_mem_toString (n := units text.toList) (by rw [digits]; simp)

def fieldsText : List (String × String) → List Char
  | [] => []
  | field :: rest => (lengthed16 field.1).toList ++ ((lengthed16 field.2).toList ++ fieldsText rest)

def pagesText : List String → List Char
  | [] => []
  | page :: rest => (lengthed16 page).toList ++ pagesText rest

theorem pagesText_head (pages : List String) : ∀ c ∈ (pagesText pages).head?, c.isDigit = true := by
  cases pages with
  | nil => simp [pagesText]
  | cons page rest =>
    obtain ⟨c, tail, same, digit⟩ := lengthed16_head page (pagesText rest)
    rw [pagesText, same]
    simpa using digit

theorem pagesText_injective : Function.Injective pagesText :=
  Codes.injective_of_parts _ lengthed16_unique (fun page => by simp [lengthed16_toList]) rfl fun _ _ => rfl

/-- The fields end where no digit follows. -/
theorem fieldsText_unique {a b : List (String × String)} {left right : List Char}
    (ends : ∀ c ∈ left.head?, c.isDigit = false) (ends' : ∀ c ∈ right.head?, c.isDigit = false)
    (same : fieldsText a ++ left = fieldsText b ++ right) : a = b ∧ left = right := by
  induction a generalizing b with
  | nil =>
    cases b with
    | nil => exact ⟨rfl, same⟩
    | cons field rest =>
      obtain ⟨c, tail, text, digit⟩ := lengthed16_head field.1
        ((lengthed16 field.2).toList ++ fieldsText rest ++ right)
      have start : left = c :: tail := by
        rw [← text]
        simpa [fieldsText] using same
      exact absurd digit (by rw [ends c (by simp [start])]; decide)
  | cons field rest ih =>
    cases b with
    | nil =>
      obtain ⟨c, tail, text, digit⟩ := lengthed16_head field.1
        ((lengthed16 field.2).toList ++ fieldsText rest ++ left)
      have start : right = c :: tail := by
        rw [← text]
        simpa [fieldsText] using same.symm
      exact absurd digit (by rw [ends' c (by simp [start])]; decide)
    | cons other rest' =>
      simp only [fieldsText, List.append_assoc] at same
      obtain ⟨keys, same⟩ := lengthed16_unique same
      obtain ⟨values, same⟩ := lengthed16_unique same
      obtain ⟨rests, same⟩ := ih same
      exact ⟨by rw [Prod.ext keys values, rests], same⟩

/-- What is displayed of the fields. -/
def displayed (fields : Message) : List (String × String) :=
  fields.toList.filter fun field => !transport.contains field.1

theorem content_toList (locale : String) (fields : Message) (mode : String) (pages : List String) :
    (contentOf locale fields mode pages).toList =
      locale.toList ++ (fieldsText (displayed fields) ++ (mode.toList ++ pagesText pages)) := by
  have pageLoop : ∀ (pages : List String) (stable : String),
      (pages.foldl (fun stable page => stable ++ lengthed16 page) stable).toList =
        stable.toList ++ pagesText pages := by
    intro pages
    induction pages with
    | nil => simp [pagesText]
    | cons page rest ih =>
      intro stable
      rw [List.foldl_cons, ih, pagesText, String.toList_append, List.append_assoc]
  have fieldLoop : ∀ (fields : List (String × String)) (stable : String),
      (fields.foldl (fun stable field => stable ++ lengthed16 field.1 ++ lengthed16 field.2)
        stable).toList = stable.toList ++ fieldsText fields := by
    intro fields
    induction fields with
    | nil => simp [fieldsText]
    | cons field rest ih =>
      intro stable
      rw [List.foldl_cons, ih, fieldsText, String.toList_append, String.toList_append]
      simp
  rw [contentOf, pageLoop, binding, stableFields, String.toList_append, String.toList_append, fieldLoop]
  simp [displayed]

theorem displayed_eq_iff {a b : Message} : displayed a = displayed b ↔
    ∀ key, key ∉ transport → a[key]? = b[key]? := by
  have filtered : ∀ fields : Message,
      displayed fields = (fields.filter fun key _ => !transport.contains key).toList := by
    intro fields
    rw [Std.ExtTreeMap.toList_filter, displayed]
  have kept : ∀ (fields : Message) (key : String),
      (fields.filter fun key _ => !transport.contains key)[key]? =
        if key ∈ transport then none else fields[key]? := by
    intro fields key
    rw [Std.ExtTreeMap.getElem?_filter']
    rcases fields[key]? with _ | value
    · simp
    · by_cases hidden : key ∈ transport
      · simp [Option.filter, hidden]
      · simp [Option.filter, hidden]
  rw [filtered, filtered, Std.ExtTreeMap.toList_inj]
  constructor
  · intro same key shown
    have values := congrArg (fun fields => fields[key]?) same
    simpa only [kept, shown, ↓reduceIte] using values
  · intro same
    apply Std.ExtTreeMap.ext_getElem?
    intro key
    rw [kept, kept]
    split
    · rfl
    · rename_i shown
      exact same key shown

/-! ### Snapshots -/

/-- A snapshot that the constructor made. -/
def Built (d : Display) (s : Snapshot) : Prop := ∃ requestId locale fields text catalog alwaysAllowed,
  newSnapshot d requestId locale fields text catalog alwaysAllowed = some s

def modes : List String := ["ONCE", "SESSION", "TIMED", "PERSISTENT"]

theorem approvalBinding_mode {fields : Message} {grantMode : String} {count : Nat}
    {bound : Nat × Nat} (h : approvalBinding fields grantMode count = some bound) :
    grantMode ∈ modes := by
  unfold approvalBinding at h
  obtain ⟨_, _, h⟩ := Option.bind_eq_some_iff.mp h
  obtain ⟨_, h⟩ := guard_bind_eq_some.mp h
  obtain ⟨_, _, h⟩ := Option.bind_eq_some_iff.mp h
  obtain ⟨_, h⟩ := guard_bind_eq_some.mp h
  obtain ⟨_, _, h⟩ := Option.bind_eq_some_iff.mp h
  obtain ⟨_, h⟩ := guard_bind_eq_some.mp h
  obtain ⟨_, _, h⟩ := Option.bind_eq_some_iff.mp h
  obtain ⟨_, _, h⟩ := Option.bind_eq_some_iff.mp h
  obtain ⟨_, h⟩ := guard_bind_eq_some.mp h
  obtain ⟨known, _⟩ := guard_bind_eq_some.mp h
  rcases known with rfl | rfl | rfl <;> decide

structure Snapshot.Sound (s : Snapshot) : Prop where
  locale : s.locale ∈ locales
  named : ∃ value, s.fields["request_id"]? = some value
  mode : s.chosenMode ∈ modes
  content : s.content = contentOf s.locale s.fields s.chosenMode s.pages

theorem Built.sound {d : Display} {s : Snapshot} (built : Built d s) : s.Sound := by
  obtain ⟨requestId, locale, fields, text, catalog, alwaysAllowed, made⟩ := built
  unfold newSnapshot at made
  obtain ⟨⟨_, valid⟩, made⟩ := guard_bind_eq_some.mp made
  obtain ⟨actual, named, made⟩ := Option.bind_eq_some_iff.mp made
  obtain ⟨_, made⟩ := guard_bind_eq_some.mp made
  obtain ⟨token, _, made⟩ := Option.bind_eq_some_iff.mp made
  obtain ⟨_, made⟩ := guard_bind_eq_some.mp made
  obtain ⟨countText, _, made⟩ := Option.bind_eq_some_iff.mp made
  obtain ⟨count, _, made⟩ := Option.bind_eq_some_iff.mp made
  obtain ⟨_, made⟩ := guard_bind_eq_some.mp made
  obtain ⟨_, made⟩ := guard_bind_eq_some.mp made
  obtain ⟨grantMode, stated, made⟩ := Option.bind_eq_some_iff.mp made
  obtain ⟨⟨total, duration⟩, bound, made⟩ := Option.bind_eq_some_iff.mp made
  obtain ⟨persistent, _, made⟩ := Option.bind_eq_some_iff.mp made
  obtain ⟨_, made⟩ := guard_bind_eq_some.mp made
  obtain ⟨rows, _, made⟩ := Option.bind_eq_some_iff.mp made
  obtain ⟨_, ⟨⟩⟩ := guard_bind_eq_some.mp made
  have granted : grantMode ∈ modes := by
    unfold conditions at bound
    unfold grantModeOf at stated
    split at bound
    · exact approvalBinding_mode bound
    · rename_i unversioned
      rw [if_neg unversioned] at stated
      cases stated
      decide
  refine ⟨by simpa [validLocale] using valid, ⟨actual, named⟩, ?_, rfl⟩
  unfold Snapshot.chosenMode chosenGrantMode
  dsimp only
  split
  · decide
  · exact granted

/-- What the user sees of two snapshots is the same. -/
structure SameDisplay (a b : Snapshot) : Prop where
  locale : a.locale = b.locale
  fields : ∀ key, key ∉ transport → a.fields[key]? = b.fields[key]?
  mode : a.chosenMode = b.chosenMode
  pages : a.pages = b.pages

theorem letters_of_locale {locale : String} (known : locale ∈ locales) :
    ∀ c ∈ locale.toList, (!c.isDigit) = true := by
  have all : (locales.all fun locale => locale.toList.all fun c => !c.isDigit) = true := by decide
  exact List.all_eq_true.mp (List.all_eq_true.mp all locale known)

theorem letters_of_mode {mode : String} (known : mode ∈ modes) :
    mode.toList ≠ [] ∧ ∀ c ∈ mode.toList, (!c.isDigit) = true := by
  have all : (modes.all fun mode => !mode.toList.isEmpty && mode.toList.all fun c => !c.isDigit) =
      true := by decide
  have here := List.all_eq_true.mp all mode known
  simp only [Bool.and_eq_true, Bool.not_eq_true', List.isEmpty_eq_false_iff] at here
  exact ⟨here.1, List.all_eq_true.mp here.2⟩

/-- The displayed fields have a digit in front: there is always one. -/
theorem fieldsText_head {s : Snapshot} (sound : s.Sound) (rest : List Char) :
    ∀ c ∈ (fieldsText (displayed s.fields) ++ rest).head?, (!c.isDigit) = false := by
  obtain ⟨value, named⟩ := sound.named
  have member : ("request_id", value) ∈ displayed s.fields := List.mem_filter.mpr
    ⟨Std.ExtTreeMap.mem_toList_iff_getElem?_eq_some.mpr named, by simp [transport]⟩
  rcases shown : displayed s.fields with _ | ⟨field, others⟩
  · rw [shown] at member
    cases member
  · obtain ⟨c, tail, text, digit⟩ := lengthed16_head field.1
      ((lengthed16 field.2).toList ++ fieldsText others ++ rest)
    have start : fieldsText (field :: others) ++ rest = c :: tail := by
      rw [← text]
      simp [fieldsText]
    rw [start]
    simpa using digit

/-- The compared text is the same exactly when what is displayed is. -/
theorem sameContent_iff {a b : Snapshot} (left : a.Sound) (right : b.Sound) :
    a.sameContent b = true ↔ SameDisplay a b := by
  unfold Snapshot.sameContent
  rw [beq_iff_eq, left.content, right.content]
  constructor
  · intro same
    have texts := congrArg String.toList same
    rw [content_toList, content_toList] at texts
    obtain ⟨locales, texts⟩ := span_unique (letters_of_locale left.locale)
      (letters_of_locale right.locale) (fieldsText_head left _) (fieldsText_head right _) texts
    have ends : ∀ {s : Snapshot}, s.Sound →
        ∀ c ∈ (s.chosenMode.toList ++ pagesText s.pages).head?, c.isDigit = false := by
      intro s sound
      obtain ⟨nonempty, letters⟩ := letters_of_mode sound.mode
      rcases mode : s.chosenMode.toList with _ | ⟨c, rest⟩
      · exact absurd mode nonempty
      · simpa using letters c (by simp [mode])
    obtain ⟨fields, texts⟩ := fieldsText_unique (ends left) (ends right) texts
    have stops : ∀ pages : List String, ∀ c ∈ (pagesText pages).head?, (!c.isDigit) = false := by
      intro pages c first
      rw [pagesText_head pages c first]
      rfl
    obtain ⟨modes, pages⟩ := span_unique (letters_of_mode left.mode).2 (letters_of_mode right.mode).2
      (stops _) (stops _) texts
    exact ⟨String.toList_inj.mp locales, displayed_eq_iff.mp fields, String.toList_inj.mp modes,
      pagesText_injective pages⟩
  · intro same
    apply String.toList_inj.mp
    rw [content_toList, content_toList, same.locale, displayed_eq_iff.mpr same.fields, same.mode,
      same.pages]

/-! ### Reading -/

/-- One call on the review; a call that throws has no effect. -/
inductive Step (d : Display) : Review → Review → Prop
  | install (r : Review) {fresh : Snapshot} (built : Built d fresh) : Step d r (r.install fresh)
  | clear (r : Review) : Step d r r.clear
  | move (r : Review) (offset : Int) : Step d r ((r.move offset).getD r)

/-- The states of a review so far, the latest one first. -/
inductive Run (d : Display) : List Review → Prop
  | start : Run d [{}]
  | step {r r' : Review} {earlier : List Review} (run : Run d (r :: earlier)) (step : Step d r r') :
      Run d (r' :: r :: earlier)

/-- The page was on the screen, and since then what the snapshot displays has not changed. -/
def ShownSince (history : List Review) (snapshot : Snapshot) (page : Nat) : Prop :=
  ∃ recent shown older, history = recent ++ shown :: older ∧ shown.page = page ∧
    ∀ r ∈ recent ++ [shown], ∃ installed, r.snapshot = some installed ∧ SameDisplay installed snapshot

/-- How far the user has read: every page before `reviewed` was shown. -/
structure Read (d : Display) (r : Review) (earlier : List Review) : Prop where
  built : ∀ snapshot, r.snapshot = some snapshot → Built d snapshot
  ahead : ∀ snapshot, r.snapshot = some snapshot → r.page < r.reviewed
  shown : ∀ snapshot, r.snapshot = some snapshot → ∀ page < r.reviewed,
    ShownSince (r :: earlier) snapshot page

theorem SameDisplay.refl (s : Snapshot) : SameDisplay s s := ⟨rfl, fun _ _ => rfl, rfl, rfl⟩

theorem SameDisplay.trans {a b c : Snapshot} (h : SameDisplay a b) (k : SameDisplay b c) :
    SameDisplay a c :=
  ⟨h.locale.trans k.locale, fun key shown => (h.fields key shown).trans (k.fields key shown),
    h.mode.trans k.mode, h.pages.trans k.pages⟩

/-- The page on the screen is shown. -/
theorem shownSince_now {r : Review} {earlier : List Review} {snapshot : Snapshot}
    (installed : r.snapshot = some snapshot) : ShownSince (r :: earlier) snapshot r.page :=
  ⟨[], r, earlier, rfl, rfl, by
    intro other member
    obtain rfl : other = r := by simpa using member
    exact ⟨snapshot, installed, .refl snapshot⟩⟩

/-- What was shown counts while the same is displayed. -/
theorem ShownSince.later {history : List Review} {old snapshot : Snapshot} {page : Nat} {r : Review}
    (h : ShownSince history old page) (installed : r.snapshot = some snapshot)
    (same : SameDisplay old snapshot) : ShownSince (r :: history) snapshot page := by
  obtain ⟨recent, shown, older, rfl, here, all⟩ := h
  refine ⟨r :: recent, shown, older, rfl, here, ?_⟩
  intro other member
  rcases List.mem_cons.mp member with rfl | member
  · exact ⟨snapshot, installed, .refl snapshot⟩
  · obtain ⟨seen, held, display⟩ := all other member
    exact ⟨seen, held, display.trans same⟩

theorem Step.read {d : Display} {r r' : Review} {earlier : List Review} (step : Step d r r')
    (read : Read d r earlier) : Read d r' (r :: earlier) := by
  cases step with
  | @install fresh built =>
    -- Progress is kept exactly when the snapshot before displays the same.
    by_cases kept : ∃ old, r.snapshot = some old ∧ old.sameContent fresh = true
    · obtain ⟨old, held, same⟩ := kept
      have display := (sameContent_iff (read.built old held).sound built.sound).mp same
      have ahead := read.ahead old held
      have now : r.install fresh = ⟨some fresh, r.page, r.reviewed⟩ := by
        simp only [Review.install, held, same, ↓reduceIte, Review.mk.injEq, true_and]
        omega
      rw [now]
      refine ⟨?_, ?_, ?_⟩
      · rintro snapshot ⟨⟩
        exact built
      · intro snapshot _
        exact ahead
      · rintro snapshot ⟨⟩ page before
        exact (read.shown old held page before).later rfl display
    · have now : r.install fresh = ⟨some fresh, 0, 1⟩ := by
        rcases held : r.snapshot with _ | old
        · simp [Review.install, held]
        · have different : old.sameContent fresh = false := by
            rw [Bool.eq_false_iff]
            exact fun same => kept ⟨old, held, same⟩
          simp [Review.install, held, different]
      rw [now]
      refine ⟨?_, ?_, ?_⟩
      · rintro snapshot ⟨⟩
        exact built
      · intro snapshot _
        exact Nat.zero_lt_one
      · rintro snapshot ⟨⟩ page before
        obtain rfl : page = 0 := Nat.lt_one_iff.mp before
        exact shownSince_now rfl
  | clear =>
    refine ⟨?_, ?_, ?_⟩
    · rintro snapshot ⟨⟩
    · rintro snapshot ⟨⟩
    · rintro snapshot ⟨⟩
  | move offset =>
    have stays : ∀ snapshot, r.snapshot = some snapshot → ∀ page < r.reviewed,
        ∀ {r' : Review}, r'.snapshot = some snapshot → ShownSince (r' :: r :: earlier) snapshot page :=
      fun snapshot held page before _ installed =>
        (read.shown snapshot held page before).later installed (.refl snapshot)
    rcases held : r.snapshot with _ | old
    · have now : r.move offset = none := by simp [Review.move, held]
      rw [now, Option.getD_none]
      refine ⟨?_, ?_, ?_⟩
      · intro snapshot installed
        cases held.symm.trans installed
      · intro snapshot installed
        cases held.symm.trans installed
      · intro snapshot installed
        cases held.symm.trans installed
    · have ahead := read.ahead old held
      by_cases there : (offset = -1 ∨ offset = 1) ∧ 0 ≤ (r.page : Int) + offset ∧
          (r.page : Int) + offset < old.pages.length
      · have now : r.move offset = some ⟨some old, ((r.page : Int) + offset).toNat,
            max r.reviewed (((r.page : Int) + offset).toNat + 1)⟩ := by
          simp only [Review.move, held]
          rw [if_pos there]
        rw [now, Option.getD_some]
        refine ⟨?_, ?_, ?_⟩
        · rintro snapshot ⟨⟩
          exact read.built old held
        · intro snapshot _
          dsimp only
          omega
        · rintro snapshot ⟨⟩ page before
          -- A move by one page reads at most one page further.
          by_cases new : page < r.reviewed
          · exact stays old held page new rfl
          · have here : page = ((r.page : Int) + offset).toNat := by
              dsimp only at before
              omega
            rw [here]
            exact shownSince_now (r := ⟨some old, ((r.page : Int) + offset).toNat, _⟩) rfl
      · have now : r.move offset = none := by
          simp only [Review.move, held]
          rw [if_neg there]
        rw [now, Option.getD_none]
        exact ⟨read.built, read.ahead, fun snapshot installed page before =>
          stays snapshot installed page before installed⟩

theorem Run.read {d : Display} {r : Review} {earlier : List Review} (run : Run d (r :: earlier)) :
    Read d r earlier := by
  generalize states : r :: earlier = history at run
  induction run generalizing r earlier with
  | start =>
    cases states
    refine ⟨?_, ?_, ?_⟩
    · rintro snapshot ⟨⟩
    · rintro snapshot ⟨⟩
    · rintro snapshot ⟨⟩
  | step _ step ih =>
    cases states
    exact step.read (ih rfl)

/-- Allow is offered only for what was read, and progress is kept only for what is displayed
unchanged. -/
theorem review_before_allow (d : Display) :
    (∀ (r : Review) (earlier : List Review), Run d (r :: earlier) → r.canAllow = true →
      ∃ snapshot, r.snapshot = some snapshot ∧
        ∀ page < snapshot.pages.length, ShownSince (r :: earlier) snapshot page) ∧
    (∀ a b : Snapshot, Built d a → Built d b → (a.sameContent b = true ↔ SameDisplay a b)) := by
  refine ⟨fun r earlier run allowed => ?_, fun a b left right => sameContent_iff left.sound right.sound⟩
  have read := run.read
  unfold Review.canAllow at allowed
  split at allowed
  · rename_i snapshot held
    simp only [Bool.and_eq_true, beq_iff_eq] at allowed
    refine ⟨snapshot, held, fun page inside => read.shown snapshot held page ?_⟩
    rw [allowed.2]
    exact inside
  · cases allowed

/-- A prompt with one condition is read after it is installed. -/
example : ((newSnapshot ⟨fun text => text.toList.map String.singleton, fun _ => false⟩ "q" "en"
    (Message.of [("request_id", "q"), ("prompt_token", "t"), ("count", "1"), ("r0.definition", "cam"),
      ("r0.policy_version", "1"), ("r0.text_revision", "1"), ("r0.locale", "en"), ("r0.modes", "ONCE")])
    [("Camera", "Use it?")] none false).map fun s => (Review.install {} s).canAllow) = some true := by
  decide +kernel

end Consent.Ui
