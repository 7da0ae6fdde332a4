import Consent.Ui.Prompt

/-!
The pages of a prompt show all of its text. The text is cut into lines first, at its line
breaks and after 26 text elements; the pages are those lines, six on a page, and a last page
without any element on it is left out.
-/
namespace Consent.Ui

/-! ### Lines and pages -/

/-- The text of a page, from its lines. -/
def pageText (page : List (List String)) : String := "\n".intercalate (page.map String.join)

/-- The lines that are complete, and the one that is being filled. -/
def addElement (lines : List (List String) × List String) (element : String) :
    List (List String) × List String :=
  if element = "\n" then (lines.1 ++ [lines.2], [])
  else if lines.2.length = 26 then (lines.1 ++ [lines.2], [element])
  else (lines.1, lines.2 ++ [element])

/-- The elements other than line breaks. -/
def shown (elements : List String) : List String := elements.filter (· ≠ "\n")

theorem pageText_cons (line next : List String) (page : List (List String)) :
    pageText (line :: next :: page) = String.join line ++ "\n" ++ pageText (next :: page) := by
  simp [pageText, String.intercalate_cons_cons]

@[simp] theorem pageText_singleton (line : List String) : pageText [line] = String.join line := by
  simp [pageText]

theorem pageText_newLine (page : List (List String)) (line : List String) :
    pageText (page ++ [line] ++ [[]]) = pageText (page ++ [line]) ++ "\n" := by
  induction page with
  | nil => simp [pageText_cons]
  | cons first rest ih =>
    cases rest with
    | nil =>
      simp [pageText_cons, String.append_assoc]
    | cons second rest =>
      simp only [List.cons_append] at ih ⊢
      simp only [pageText_cons, ih, String.append_assoc]

theorem pageText_element (page : List (List String)) (line : List String) (element : String) :
    pageText (page ++ [line ++ [element]]) = pageText (page ++ [line]) ++ element := by
  induction page with
  | nil => simp
  | cons first rest ih =>
    cases rest with
    | nil =>
      simp only [List.nil_append] at ih
      simp [pageText_cons, ih, String.append_assoc]
    | cons second rest =>
      simp only [List.cons_append] at ih ⊢
      simp only [pageText_cons, ih, String.append_assoc]

theorem append_eq_empty {a b : String} : a ++ b = "" ↔ a = "" ∧ b = "" := by
  rw [← String.toList_inj, ← String.toList_inj, ← String.toList_inj]
  simp

/-- A page without text is one line without elements. -/
theorem pageText_eq_empty {page : List (List String)} {line : List String}
    (nonempty : ∀ element ∈ line, element ≠ "") (empty : pageText (page ++ [line]) = "") :
    page = [] ∧ line = [] := by
  cases page with
  | nil =>
    refine ⟨rfl, ?_⟩
    induction line using List.reverseRecOn with
    | nil => rfl
    | append_singleton front last _ =>
      rw [List.nil_append, pageText_singleton, String.join_append, append_eq_empty, String.join_cons,
        append_eq_empty] at empty
      exact absurd empty.2.1 (nonempty last (by simp))
  | cons first rest =>
    cases rest with
    | nil =>
      rw [List.cons_append, List.nil_append, pageText_cons, append_eq_empty, append_eq_empty] at empty
      exact absurd empty.1.2 (by decide)
    | cons second rest =>
      rw [List.cons_append, List.cons_append, pageText_cons, append_eq_empty, append_eq_empty] at empty
      exact absurd empty.1.2 (by decide)

/-! ### One element after the other -/

/-- The lines hold the elements that were read, with a line break where there was one. -/
structure Lines (elements : List String) (lines : List (List String) × List String) : Prop where
  all : lines.1.flatten ++ lines.2 = shown elements
  short : ∀ line ∈ lines.1 ++ [lines.2], line.length ≤ 26
  breaks : ∀ before after, elements = before ++ "\n" :: after →
    ∃ front back, lines.1 = front ++ back ∧ front ≠ [] ∧ front.flatten = shown before ∧
      back.flatten ++ lines.2 = shown after

/-- The layout is these lines, six on a page. -/
def Lays (l : Layout) (lines : List (List String) × List String) : Prop :=
  ∃ (done : List (List (List String))) (current : List (List String)),
    lines.1 = done.flatten ++ current ∧ (∀ page ∈ done, page.length = 6) ∧
    current.length + 1 = l.lines ∧ l.lines ≤ 6 ∧ l.columns = lines.2.length ∧
    l.pages = done.map pageText ∧ l.page = pageText (current ++ [lines.2])

theorem shown_concat (elements : List String) (element : String) :
    shown (elements ++ [element]) = shown elements ++ if element = "\n" then [] else [element] := by
  by_cases isBreak : element = "\n" <;> simp [shown, isBreak]

theorem Lines.nil : Lines [] ([], []) := by
  refine ⟨rfl, by simp, ?_⟩
  intro before after split
  simp at split

/-- A line break in a longer text is the last element or stands before it. -/
theorem break_concat {elements before after : List String} {element : String}
    (split : elements ++ [element] = before ++ "\n" :: after) :
    (elements = before ∧ element = "\n" ∧ after = []) ∨
      ∃ rest, after = rest ++ [element] ∧ elements = before ++ "\n" :: rest := by
  cases after using List.reverseRecOn with
  | nil =>
    obtain ⟨same, last⟩ := List.append_inj' split rfl
    exact .inl ⟨same, by simpa using last, rfl⟩
  | append_singleton rest last =>
    rw [← List.cons_append, ← List.append_assoc] at split
    obtain ⟨same, isLast⟩ := List.append_inj' split rfl
    exact .inr ⟨rest, by simpa using isLast.symm, same⟩

variable {lines : List (List String) × List String}

theorem Lines.add {elements : List String} (h : Lines elements lines) (element : String) :
    Lines (elements ++ [element]) (addElement lines element) := by
  obtain ⟨complete, current⟩ := lines
  obtain ⟨all, short, breaks⟩ := h
  dsimp only at all short breaks
  unfold addElement
  by_cases isBreak : element = "\n"
  · subst isBreak
    rw [if_pos rfl]
    refine ⟨by simpa [shown_concat] using all, ?_, ?_⟩
    · intro line member
      rcases List.mem_append.mp member with old | new
      · exact short line old
      · simp [List.mem_singleton.mp new]
    · intro before after split
      rcases break_concat split with ⟨rfl, _, rfl⟩ | ⟨rest, rfl, rfl⟩
      · exact ⟨complete ++ [current], [], by simp, by simp, by simpa using all, rfl⟩
      · obtain ⟨front, back, rfl, filled, same, later⟩ := breaks before rest rfl
        refine ⟨front, back ++ [current], by simp, filled, same, ?_⟩
        simpa [shown_concat] using later
  · rw [if_neg isBreak]
    by_cases full : current.length = 26
    · rw [if_pos full]
      refine ⟨by simpa [shown_concat, isBreak] using congrArg (· ++ [element]) all, ?_, ?_⟩
      · intro line member
        rcases List.mem_append.mp member with old | new
        · exact short line old
        · simp [List.mem_singleton.mp new]
      · intro before after split
        rcases break_concat split with ⟨_, same, _⟩ | ⟨rest, rfl, rfl⟩
        · exact absurd same isBreak
        · obtain ⟨front, back, rfl, filled, same, later⟩ := breaks before rest rfl
          refine ⟨front, back ++ [current], by simp, filled, same, ?_⟩
          simpa [shown_concat, isBreak] using congrArg (· ++ [element]) later
    · rw [if_neg full]
      refine ⟨by simpa [shown_concat, isBreak] using congrArg (· ++ [element]) all, ?_, ?_⟩
      · intro line member
        rcases List.mem_append.mp member with old | new
        · exact short line (by simp [old])
        · have := short current (by simp)
          simp only [List.mem_singleton.mp new, List.length_append, List.length_singleton]
          omega
      · intro before after split
        rcases break_concat split with ⟨_, same, _⟩ | ⟨rest, rfl, rfl⟩
        · exact absurd same isBreak
        · obtain ⟨front, back, rfl, filled, same, later⟩ := breaks before rest rfl
          refine ⟨front, back, rfl, filled, same, ?_⟩
          simpa [shown_concat, isBreak] using congrArg (· ++ [element]) later

theorem Lays.nil : Lays {} ([], []) :=
  ⟨[], [], rfl, by simp, rfl, by decide, rfl, rfl, rfl⟩

/-- A new line goes to the page, or to the next one. -/
theorem Lays.breakLine {l : Layout} (h : Lays l lines) :
    Lays l.breakLine (lines.1 ++ [lines.2], []) := by
  obtain ⟨done, current, same, full, count, few, _, pages, page⟩ := h
  unfold Layout.breakLine
  split
  · rename_i last
    refine ⟨done ++ [current ++ [lines.2]], [], by simp [same], ?_, rfl, Nat.one_le_ofNat, rfl, ?_, rfl⟩
    · intro page member
      rcases List.mem_append.mp member with old | new
      · exact full page old
      · simp [List.mem_singleton.mp new]
        omega
    · simp [pages, page]
  · rename_i room
    refine ⟨done, current ++ [lines.2], by simp [same], full, ?_, ?_, rfl, pages, ?_⟩
    · simp only [List.length_append, List.length_singleton]
      omega
    · dsimp only
      omega
    · rw [pageText_newLine]
      exact congrArg (· ++ "\n") page

theorem Lays.element {l : Layout} (h : Lays l lines) (element : String) :
    Lays { l with page := l.page ++ element, columns := l.columns + 1 }
      (lines.1, lines.2 ++ [element]) := by
  obtain ⟨done, current, same, full, count, few, columns, pages, page⟩ := h
  refine ⟨done, current, same, full, count, few, by simp [columns], pages, ?_⟩
  rw [pageText_element]
  exact congrArg (· ++ element) page

theorem Lays.add {l l' : Layout} {element : String} (h : Lays l lines)
    (added : l.add element = some l') : Lays l' (addElement lines element) := by
  have columns : l.columns = lines.2.length := by
    obtain ⟨_, _, _, _, _, _, columns, _⟩ := h
    exact columns
  unfold Layout.add at added
  unfold addElement
  split at added
  · cases added
  · by_cases isBreak : element = "\n"
    · rw [if_pos isBreak, if_pos (.inl isBreak)] at added
      cases added
      rw [if_pos isBreak]
      exact h.breakLine
    · rw [if_neg isBreak] at added ⊢
      cases added
      by_cases full : lines.2.length = 26
      · rw [if_pos full, if_pos (.inr (columns.trans full))]
        exact h.breakLine.element element
      · rw [if_neg full, if_neg (by rw [columns]; simp [isBreak, full])]
        exact h.element element

/-- The run over all elements. -/
theorem layout_lines {elements read : List String} {l l' : Layout} (shows : Lines read lines)
    (lays : Lays l lines) (run : elements.foldlM Layout.add l = some l') :
    ∃ lines', Lines (read ++ elements) lines' ∧ Lays l' lines' := by
  induction elements generalizing read l lines with
  | nil =>
    cases run
    exact ⟨lines, by simpa using shows, lays⟩
  | cons element rest ih =>
    rw [List.foldlM_cons, Option.bind_eq_bind, Option.bind_eq_some_iff] at run
    obtain ⟨next, added, run⟩ := run
    obtain ⟨lines', shows', lays'⟩ := ih (shows.add element) (lays.add added) run
    exact ⟨lines', by simpa using shows', lays'⟩

/-! ### All pages -/

/-- The enumerator cuts a text into pieces, and a line break is a piece of its own. -/
def Partitions (d : Display) : Prop :=
  ∀ text, String.join (d.elements text) = text ∧
    ∀ element ∈ d.elements text, element ≠ "" ∧ ('\n' ∈ element.toList → element = "\n")

/-- The pages hold these lines. A page has at most six lines and a line at most 26 elements. -/
structure Shows (elements : List String) (layout : List (List (List String))) : Prop where
  all : layout.flatten.flatten = shown elements
  few : ∀ page ∈ layout, page.length ≤ 6 ∧ ∀ line ∈ page, line.length ≤ 26
  breaks : ∀ before after, elements = before ++ "\n" :: after →
    ∃ front back, layout.flatten = front ++ back ∧ front ≠ [] ∧ front.flatten = shown before ∧
      back.flatten = shown after

theorem mem_of_flatten {layout : List (List (List String))} {elements : List String}
    (all : layout.flatten.flatten = shown elements) {page : List (List String)} {line : List String}
    {element : String} (isPage : page ∈ layout) (isLine : line ∈ page) (inLine : element ∈ line) :
    element ∈ elements ∧ element ≠ "\n" := by
  have member : element ∈ shown elements := by
    rw [← all]
    exact List.mem_flatten.mpr ⟨line, List.mem_flatten.mpr ⟨page, isPage, isLine⟩, inLine⟩
  simpa [shown] using member

/-- The layout at the end of the text, without a last page that is empty. -/
theorem Lays.shows {elements : List String} {l : Layout}
    (nonempty : ∀ element ∈ elements, element ≠ "") (h : Lines elements lines) (lays : Lays l lines) :
    ∃ layout, (if l.page = "" then l.pages else l.pages ++ [l.page]) = layout.map pageText ∧
      "" ∉ layout.map pageText ∧ Shows elements layout := by
  obtain ⟨complete, last⟩ := lines
  obtain ⟨done, current, same, full, count, few, _, pages, page⟩ := lays
  dsimp only at same page
  have filled : ∀ line ∈ last, line ≠ "" := by
    intro element member
    have listed : element ∈ shown elements := h.all ▸ List.mem_append_right _ member
    exact nonempty element (List.mem_filter.mp listed).1
  have short : ∀ page ∈ done, page.length ≤ 6 ∧ ∀ line ∈ page, line.length ≤ 26 := by
    intro page member
    refine ⟨(full page member).le, fun line inPage => h.short line ?_⟩
    rw [same]
    simp only [List.mem_append]
    exact .inl (.inl (List.mem_flatten.mpr ⟨page, member, inPage⟩))
  have texts : "" ∉ done.map pageText := by
    intro empty
    obtain ⟨page, member, isEmpty⟩ := List.mem_map.mp empty
    have six := full page member
    match page, six with
    | first :: second :: rest, _ =>
      rw [pageText_cons, append_eq_empty, append_eq_empty] at isEmpty
      exact absurd isEmpty.1.2 (by decide)
  split
  · -- nothing was read since the last page break
    rename_i empty
    rw [page] at empty
    obtain ⟨rfl, rfl⟩ := pageText_eq_empty filled empty
    rw [List.append_nil] at same
    refine ⟨done, pages, texts, ?_, short, ?_⟩
    · rw [← same]
      simpa using h.all
    · intro before after split
      obtain ⟨front, back, whole, some, former, later⟩ := h.breaks before after split
      exact ⟨front, back, same ▸ whole, some, former, by simpa using later⟩
  · rename_i text
    have whole : (done ++ [current ++ [last]]).flatten = complete ++ [last] := by
      simp [same]
    refine ⟨done ++ [current ++ [last]], by simp [pages, page], ?_, ?_, ?_, ?_⟩
    · intro empty
      rw [List.map_append, List.mem_append, List.map_singleton, List.mem_singleton] at empty
      rcases empty with empty | empty
      · exact texts empty
      · exact text (page.trans empty.symm)
    · rw [whole]
      simpa using h.all
    · intro page member
      rcases List.mem_append.mp member with old | new
      · exact short page old
      · rw [List.mem_singleton.mp new]
        have six : (current ++ [last]).length ≤ 6 := by
          rw [List.length_append, List.length_singleton]
          omega
        refine ⟨six, fun line inPage => h.short line ?_⟩
        rw [same]
        simp only [List.mem_append] at inPage ⊢
        exact inPage.imp_left .inr
    · intro before after split
      obtain ⟨front, back, whole', some, former, later⟩ := h.breaks before after split
      dsimp only at whole'
      refine ⟨front, back ++ [last], by rw [whole, whole', List.append_assoc], some, former, ?_⟩
      simpa using later

theorem paginate_shows {d : Display} (partitions : Partitions d) {text : String} {pages : List String}
    (accepted : paginate d text = some pages) :
    ∃ layout, pages = layout.map pageText ∧ "" ∉ pages ∧
      Shows (d.elements (String.ofList (normalize text.toList))) layout := by
  simp only [paginate, Option.bind_eq_bind, Option.bind_eq_some_iff] at accepted
  obtain ⟨_, _, l, run, accepted⟩ := accepted
  obtain ⟨lines, read, lays⟩ := layout_lines Lines.nil Lays.nil run
  rw [List.nil_append] at read
  obtain ⟨layout, same, filled, shows⟩ :=
    lays.shows (fun element member => ((partitions _).2 element member).1) read
  cases accepted
  exact ⟨layout, same, same ▸ filled, shows⟩

/-! ### Characters -/

/-- The characters other than line breaks. -/
def visible (text : String) : List Char := text.toList.filter (· ≠ '\n')

@[simp] theorem visible_append (a b : String) : visible (a ++ b) = visible a ++ visible b := by
  simp [visible]

theorem visible_join (elements : List String) :
    visible (String.join elements) = elements.flatMap visible := by
  induction elements with
  | nil => rfl
  | cons element rest ih => rw [String.join_cons, visible_append, ih, List.flatMap_cons]

theorem visible_pageText (page : List (List String)) :
    visible (pageText page) = page.flatten.flatMap visible := by
  induction page with
  | nil => rfl
  | cons line rest ih =>
    cases rest with
    | nil => simp [visible_join]
    | cons next rest =>
      have lineBreak : visible "\n" = [] := by decide
      rw [List.flatten_cons, List.flatMap_append, ← ih, pageText_cons, visible_append, visible_append,
        visible_join, lineBreak, List.append_nil]

theorem visible_pages (layout : List (List (List String))) :
    (layout.map pageText).flatMap visible = layout.flatten.flatten.flatMap visible := by
  induction layout with
  | nil => rfl
  | cons page rest ih =>
    rw [List.map_cons, List.flatMap_cons, visible_pageText, ih, List.flatten_cons,
      List.flatten_append, List.flatMap_append]

theorem visible_shown (elements : List String) :
    (shown elements).flatMap visible = elements.flatMap visible := by
  induction elements with
  | nil => rfl
  | cons element rest ih =>
    have lineBreak : visible "\n" = [] := by decide
    by_cases isBreak : element = "\n"
    · subst isBreak
      simpa [shown, lineBreak] using ih
    · simpa [shown, isBreak] using ih

/-- Every text that is accepted is shown on its pages, element by element and character by
character, with its line breaks at the end of a line or page. -/
theorem pages_show_text {d : Display} (partitions : Partitions d) {text : String}
    {pages : List String} (accepted : paginate d text = some pages) :
    (∃ layout, pages = layout.map pageText ∧
      (∀ page ∈ layout, ∀ line ∈ page, ∀ element ∈ line, '\n' ∉ element.toList) ∧
      Shows (d.elements (String.ofList (normalize text.toList))) layout) ∧
    "" ∉ pages ∧ pages.flatMap visible = (normalize text.toList).filter (· ≠ '\n') := by
  obtain ⟨layout, rfl, filled, shows⟩ := paginate_shows partitions accepted
  obtain ⟨joined, pieces⟩ := partitions (String.ofList (normalize text.toList))
  refine ⟨⟨layout, rfl, ?_, shows⟩, filled, ?_⟩
  · intro page isPage line isLine element inLine lineBreak
    obtain ⟨member, other⟩ := mem_of_flatten shows.all isPage isLine inLine
    exact other ((pieces element member).2 lineBreak)
  · rw [visible_pages, shows.all, visible_shown, ← visible_join, joined, visible, String.toList_ofList]

/-- A display that knows single characters only. -/
def characters : Display where
  elements text := text.toList.map String.singleton
  refused c := c == '\r'

theorem characters_partitions : Partitions characters := by
  intro text
  have joined : ∀ l : List Char, String.join (l.map String.singleton) = String.ofList l := by
    intro l
    induction l with
    | nil => rfl
    | cons c rest ih => simp [ih]
  refine ⟨(joined text.toList).trans String.ofList_toList, ?_⟩
  intro element member
  obtain ⟨c, _, rfl⟩ := List.mem_map.mp member
  refine ⟨by simp [← String.toList_inj], fun lineBreak => ?_⟩
  have same : '\n' = c := by simpa using lineBreak
  rw [← same]
  rfl

/-- Six lines fill a page; the line break behind them is the page break. -/
theorem pages_show_sample :
    paginate characters "a\nb\nc\nd\ne\nf\ngh" = some ["a\nb\nc\nd\ne\nf", "gh"] ∧
      ["a\nb\nc\nd\ne\nf", "gh"].flatMap visible =
        (normalize "a\nb\nc\nd\ne\nf\ngh".toList).filter (· ≠ '\n') := by
  have accepted : paginate characters "a\nb\nc\nd\ne\nf\ngh" = some ["a\nb\nc\nd\ne\nf", "gh"] := by
    decide
  exact ⟨accepted, (pages_show_text characters_partitions accepted).2.2⟩

end Consent.Ui
