import Mathlib

/-!
Files of named groups of keys and values. A key that is not there reads as the empty
string; setting one creates its group.
-/
namespace KeyFile

abbrev Groups := Std.ExtTreeMap String (Std.ExtTreeMap String String compare) compare

def value (file : Groups) (group key : String) : String := (file.getD group ∅).getD key ""

def set (file : Groups) (group key text : String) : Groups :=
  file.insert group ((file.getD group ∅).insert key text)

/-- Set a key in those of the groups whose own values are selected, and count them. -/
def setWhere (selects : (String → String) → Bool) (key text : String) :
    List String → Groups → Groups × Nat
  | [], file => (file, 0)
  | group :: rest, file =>
    if selects (value file group) then
      let (changed, count) := setWhere selects key text rest (set file group key text)
      (changed, count + 1)
    else setWhere selects key text rest file

def total {α : Type} (weight : String → α → Nat) (map : Std.ExtTreeMap String α compare) : Nat :=
  (map.toList.map fun entry => weight entry.1 entry.2).sum

/-- The length of the lines of a group: its heading and its keys. -/
def groupLength (name : String) (fields : Std.ExtTreeMap String String compare) : Nat :=
  name.utf8ByteSize + 3 + total (fun key text => key.utf8ByteSize + text.utf8ByteSize + 2) fields

/-- The length of the text of a file without escapes, with an empty line between groups. -/
def textLength (file : Groups) : Nat :=
  total groupLength file + (file.size - 1)

variable {file : Groups} {group key text : String}

theorem value_set (file : Groups) (group key text other name : String) :
    value (set file group key text) other name =
      if group = other ∧ key = name then text else value file other name := by
  unfold value set
  rw [Std.ExtTreeMap.getD_insert]
  by_cases same : group = other
  · subst same
    simp [Std.ExtTreeMap.getD_insert]
  · simp [same]

theorem value_of_notMem (absent : group ∉ file) (key : String) : value file group key = "" := by
  unfold value
  rw [Std.ExtTreeMap.getD_eq_fallback absent]
  rfl

theorem mem_of_value (held : value file group key ≠ "") : group ∈ file := by
  by_contra absent
  exact held (value_of_notMem absent key)

theorem mem_set {other : String} : other ∈ set file group key text ↔ group = other ∨ other ∈ file := by
  unfold set
  rw [Std.ExtTreeMap.mem_insert, Std.LawfulEqCmp.compare_eq_iff_eq]

theorem size_set (file : Groups) (group key text : String) :
    (set file group key text).size = if group ∈ file then file.size else file.size + 1 := by
  unfold set
  rw [Std.ExtTreeMap.size_insert]
  simp only [Std.ExtTreeMap.contains_iff_mem]

section setWhere

variable {selects : (String → String) → Bool} {groups : List String}

theorem value_set_of_ne {other : String} (different : group ≠ other) :
    value (set file group key text) other = value file other := by
  funext name
  rw [value_set, if_neg fun both => different both.1]

/-- Each group is judged by what it was before. -/
theorem value_setWhere (distinct : groups.Nodup) (file : Groups) (other name : String) :
    value (setWhere selects key text groups file).1 other name =
      if (other ∈ groups ∧ selects (value file other) = true) ∧ key = name then text
      else value file other name := by
  induction groups generalizing file with
  | nil => simp [setWhere]
  | cons first rest ih =>
    obtain ⟨fresh, distinct⟩ := List.nodup_cons.mp distinct
    unfold setWhere
    by_cases here : first = other
    · subst here
      split
      · rename_i selected
        dsimp only
        rw [ih distinct, value_set]
        simp [fresh, selected]
      · rename_i unselected
        rw [ih distinct]
        simp [fresh, unselected]
    · have order : other ∈ first :: rest ↔ other ∈ rest := by
        rw [List.mem_cons]
        exact or_iff_right (Ne.symm here)
      split
      · dsimp only
        rw [ih distinct, value_set_of_ne here]
        simp only [order]
      · rw [ih distinct]
        simp only [order]

/-- The groups that are there stay as they are. -/
theorem mem_setWhere (known : ∀ group ∈ groups, group ∈ file) {other : String} :
    other ∈ (setWhere selects key text groups file).1 ↔ other ∈ file := by
  induction groups generalizing file with
  | nil => rfl
  | cons first rest ih =>
    unfold setWhere
    split
    · dsimp only
      rw [ih fun group member => mem_set.mpr (.inr (known group (by simp [member]))), mem_set]
      exact or_iff_right_of_imp fun same => same ▸ known first (by simp)
    · exact ih fun group member => known group (by simp [member])

theorem size_setWhere (known : ∀ group ∈ groups, group ∈ file) :
    (setWhere selects key text groups file).1.size = file.size := by
  induction groups generalizing file with
  | nil => rfl
  | cons first rest ih =>
    unfold setWhere
    split
    · dsimp only
      rw [ih fun group member => mem_set.mpr (.inr (known group (by simp [member]))), size_set,
        if_pos (known first (by simp))]
    · exact ih fun group member => known group (by simp [member])

end setWhere

/-! ### Lengths -/

section lengths

variable {α : Type} {map : Std.ExtTreeMap String α compare} {a : α}

/-- Inserted under a new name, a value comes on top. -/
theorem toList_insert_perm (fresh : key ∉ map) :
    (map.insert key a).toList.Perm ((key, a) :: map.toList) := by
  have distinct : ∀ map : Std.ExtTreeMap String α compare, map.toList.Nodup := by
    intro map
    refine Std.ExtTreeMap.distinct_keys_toList.imp fun {x y} different same => different ?_
    rw [same]
    exact Std.ReflCmp.compare_self
  refine (List.perm_ext_iff_of_nodup (distinct _) (List.nodup_cons.mpr ⟨?_, distinct _⟩)).mpr ?_
  · rw [Std.ExtTreeMap.mem_toList_iff_getElem?_eq_some, Std.ExtTreeMap.getElem?_eq_none fresh]
    simp
  · rintro ⟨name, b⟩
    rw [List.mem_cons, Std.ExtTreeMap.mem_toList_iff_getElem?_eq_some,
      Std.ExtTreeMap.mem_toList_iff_getElem?_eq_some, Std.ExtTreeMap.getElem?_insert]
    by_cases same : key = name
    · subst same
      simp [Std.ExtTreeMap.getElem?_eq_none fresh, eq_comm]
    · simp [same, Ne.symm same]

/-- An insertion exchanges the weight of one name. -/
theorem total_insert (weight : String → α → Nat) (map : Std.ExtTreeMap String α compare)
    (key : String) (a : α) :
    total weight (map.insert key a) + (map[key]?.map (weight key)).getD 0 =
      total weight map + weight key a := by
  have fresh : key ∉ map.erase key := by simp
  have top : ∀ b, total weight ((map.erase key).insert key b) =
      weight key b + total weight (map.erase key) := by
    intro b
    unfold total
    rw [((toList_insert_perm fresh).map _).sum_eq, List.map_cons, List.sum_cons]
  have restore : ∀ b, (map.erase key).insert key b = map.insert key b := by
    intro b
    apply Std.ExtTreeMap.ext_getElem?
    intro name
    simp only [Std.ExtTreeMap.getElem?_insert, Std.ExtTreeMap.getElem?_erase]
    split <;> rfl
  rw [← restore, top]
  rcases held : map[key]? with _ | old
  · have absent : key ∉ map := by simpa using held
    have whole : map.erase key = map := by
      apply Std.ExtTreeMap.ext_getElem?
      intro name
      rw [Std.ExtTreeMap.getElem?_erase]
      split
      · rename_i same
        rw [← Std.LawfulEqCmp.eq_of_compare same, held]
      · rfl
    rw [whole]
    simp
    omega
  · have whole : map = (map.erase key).insert key old := by
      rw [restore]
      apply Std.ExtTreeMap.ext_getElem?
      intro name
      rw [Std.ExtTreeMap.getElem?_insert]
      split
      · rename_i same
        rw [← Std.LawfulEqCmp.eq_of_compare same, held]
      · rfl
    have both := top old
    rw [← whole] at both
    simp only [Option.map_some, Option.getD_some]
    omega

end lengths

theorem textLength_pos (known : group ∈ file) : 0 < textLength file := by
  obtain ⟨fields, held⟩ := Option.isSome_iff_exists.mp (Std.ExtTreeMap.isSome_getElem?_iff_mem.mpr known)
  have member := Std.ExtTreeMap.mem_toList_iff_getElem?_eq_some.mpr held
  have part : groupLength group fields ≤ total groupLength file :=
    List.single_le_sum (by simp) _ (List.mem_map.mpr ⟨_, member, rfl⟩)
  have heading : 3 ≤ groupLength group fields := by
    unfold groupLength
    omega
  unfold textLength
  omega

/-- Setting a key takes at most one more heading and one more line. -/
theorem textLength_set_le (file : Groups) (group key text : String) :
    textLength (set file group key text) ≤
      textLength file + group.utf8ByteSize + key.utf8ByteSize + text.utf8ByteSize + 6 := by
  have outer := total_insert groupLength file group ((file.getD group ∅).insert key text)
  have inner := total_insert (fun key text => key.utf8ByteSize + text.utf8ByteSize + 2)
    (file.getD group ∅) key text
  have size : (set file group key text).size ≤ file.size + 1 := Std.ExtTreeMap.size_insert_le
  unfold textLength
  rw [set] at size ⊢
  have heading : groupLength group ((file.getD group ∅).insert key text) ≤
      (file[group]?.map (groupLength group)).getD 0 + group.utf8ByteSize + key.utf8ByteSize +
        text.utf8ByteSize + 5 := by
    rcases held : file[group]? with _ | fields
    · have empty : file.getD group ∅ = ∅ := by
        rw [Std.ExtTreeMap.getD_eq_getD_getElem?, held]
        rfl
      have nothing : total (fun key text => key.utf8ByteSize + text.utf8ByteSize + 2)
          (∅ : Std.ExtTreeMap String String compare) = 0 := rfl
      rw [empty] at inner ⊢
      simp only [groupLength, Option.map_none, Option.getD_none]
      omega
    · have old : file.getD group ∅ = fields := by
        rw [Std.ExtTreeMap.getD_eq_getD_getElem?, held]
        rfl
      rw [old] at inner ⊢
      simp only [Option.map_some, Option.getD_some, groupLength]
      omega
  omega

end KeyFile
