import Mathlib

/-!
Tables as lists of rows in insertion order. `updateWhere` is an `UPDATE ... WHERE`,
`upsert` an `INSERT ... ON CONFLICT DO UPDATE`. A lookup takes the first row of a
key; tables whose keys are distinct have no other. `Descends` relates two states of a
table: rows age along a preorder, and a row that appears has a fresh key.
-/
namespace Table

variable {α κ : Type}

/-- Apply `f` to the rows that satisfy the condition. -/
def updateWhere (rows : List α) (condition : α → Bool) (f : α → α) : List α :=
  rows.map fun r => if condition r then f r else r

/-- Replace the row with the key of `new`, or append it. -/
def upsert [DecidableEq κ] (key : α → κ) (rows : List α) (new : α) : List α :=
  if rows.any fun r => decide (key r = key new) then
    updateWhere rows (fun r => decide (key r = key new)) fun _ => new
  else rows ++ [new]

variable {rows : List α} {key : α → κ} {condition : α → Bool} {f : α → α} {R : α → α → Prop}

theorem mem_updateWhere {new : α} :
    new ∈ updateWhere rows condition f ↔
      ∃ old ∈ rows, (condition old = true ∧ new = f old) ∨ (condition old = false ∧ new = old) := by
  simp only [updateWhere, List.mem_map]
  refine exists_congr fun old => and_congr_right fun _ => ?_
  cases condition old <;> simp [eq_comm]

/-- What an update does to the row of a key when it keeps keys. -/
theorem find?_updateWhere [DecidableEq κ] (same : ∀ r, condition r = true → key (f r) = key r)
    (k : κ) :
    (updateWhere rows condition f).find? (fun r => decide (key r = k)) =
      (rows.find? fun r => decide (key r = k)).map fun r => if condition r then f r else r := by
  induction rows with
  | nil => rfl
  | cons head tail ih =>
    have kept : key (if condition head then f head else head) = key head := by
      split
      · exact same head ‹_›
      · rfl
    simp only [updateWhere, List.map_cons, List.find?_cons] at ih ⊢
    rw [kept]
    by_cases hit : key head = k
    · simp [hit]
    · simpa [hit] using ih

theorem map_updateWhere {β : Type} {g : α → β} (same : ∀ r, condition r = true → g (f r) = g r) :
    (updateWhere rows condition f).map g = rows.map g := by
  simp only [updateWhere, List.map_map]
  apply List.map_congr_left
  intro r _
  by_cases h : condition r = true <;> simp [h, same]

theorem nodup_updateWhere (same : ∀ r, condition r = true → key (f r) = key r)
    (distinct : (rows.map key).Nodup) :
    ((updateWhere rows condition f).map key).Nodup := by
  rw [map_updateWhere same]
  exact distinct

theorem map_upsert [DecidableEq κ] (key : α → κ) (rows : List α) (new : α) :
    (upsert key rows new).map key =
      if key new ∈ rows.map key then rows.map key else rows.map key ++ [key new] := by
  have present : (rows.any fun r => decide (key r = key new)) = true ↔ key new ∈ rows.map key := by
    simp
  unfold upsert
  by_cases member : key new ∈ rows.map key
  · rw [if_pos (present.mpr member), if_pos member]
    exact map_updateWhere fun r same => (of_decide_eq_true same).symm
  · rw [if_neg (fun any => member (present.mp any)), if_neg member]
    simp

theorem nodup_upsert [DecidableEq κ] (new : α) (distinct : (rows.map key).Nodup) :
    ((upsert key rows new).map key).Nodup := by
  rw [map_upsert]
  split
  · exact distinct
  · rename_i absent
    rw [List.nodup_append]
    refine ⟨distinct, by simp, ?_⟩
    rintro k earlier _ last rfl
    rw [List.mem_singleton] at last
    exact absent (last ▸ earlier)

theorem mem_upsert [DecidableEq κ] {new r : α} (member : r ∈ upsert key rows new) :
    r = new ∨ (r ∈ rows ∧ key r ≠ key new) := by
  unfold upsert at member
  split at member
  · obtain ⟨old, stored, ⟨_, rfl⟩ | ⟨other, rfl⟩⟩ := mem_updateWhere.mp member
    · exact Or.inl rfl
    · exact Or.inr ⟨stored, of_decide_eq_false other⟩
  · rename_i absent
    rcases List.mem_append.mp member with stored | last
    · refine Or.inr ⟨stored, fun same => absent ?_⟩
      simpa using ⟨r, stored, same⟩
    · exact Or.inl (List.mem_singleton.mp last)

theorem find?_upsert [DecidableEq κ] {new : α} (k : κ) :
    (upsert key rows new).find? (fun r => decide (key r = k)) =
      if key new = k then some new else rows.find? fun r => decide (key r = k) := by
  have none_of_absent : (¬ ∃ r ∈ rows, key r = key new) → key new = k →
      rows.find? (fun r => decide (key r = k)) = none := by
    intro absent same
    rw [List.find?_eq_none]
    intro r stored found
    exact absent ⟨r, stored, (of_decide_eq_true found).trans same.symm⟩
  unfold upsert
  split
  · rename_i present
    rw [find?_updateWhere fun r same => (of_decide_eq_true same).symm]
    rcases found : rows.find? fun r => decide (key r = k) with _ | r
    · by_cases same : key new = k
      · obtain ⟨r, stored, hit⟩ : ∃ r ∈ rows, key r = key new := by simpa using present
        have miss := List.find?_eq_none.mp found r stored
        simp [hit, same] at miss
      · simp [same]
    · have key_r : key r = k := by simpa using List.find?_some found
      by_cases same : key new = k
      · simp [key_r, same]
      · simp [key_r, same, Ne.symm same]
  · rename_i absent
    rw [List.find?_append]
    by_cases same : key new = k
    · rw [none_of_absent (by simpa using absent) same]
      simp [same]
    · simp [same]

/-! ### Row by row -/

theorem forall₂_refl (refl : ∀ r, R r r) (rows : List α) :
    List.Forall₂ R rows rows :=
  List.forall₂_same.mpr fun r _ => refl r

theorem forall₂_comp {R S T : α → α → Prop} (comp : ∀ {a b c}, R a b → S b c → T a c)
    {first second third : List α} (left : List.Forall₂ R first second)
    (right : List.Forall₂ S second third) : List.Forall₂ T first third := by
  induction left generalizing third with
  | nil =>
    cases right
    exact .nil
  | cons head _ ih =>
    cases right with
    | cons next rest => exact .cons (comp head next) (ih rest)

theorem forall₂_trans (trans : ∀ {a b c}, R a b → R b c → R a c) {first second third : List α}
    (left : List.Forall₂ R first second) (right : List.Forall₂ R second third) :
    List.Forall₂ R first third :=
  forall₂_comp (R := R) (S := R) trans left right

/-- An update moves every row along a reflexive relation that its function respects. -/
theorem forall₂_updateWhere (refl : ∀ r, R r r) (moves : ∀ r ∈ rows, condition r = true → R r (f r)) :
    List.Forall₂ R rows (updateWhere rows condition f) := by
  rw [updateWhere, List.forall₂_map_right_iff, List.forall₂_same]
  intro r member
  by_cases h : condition r = true
  · simpa [h] using moves r member h
  · simpa [h] using refl r

theorem forall₂_exists_left {β : Type} {R : α → β → Prop} {left : List α} {right : List β}
    (rows : List.Forall₂ R left right) {b : β} (member : b ∈ right) : ∃ a ∈ left, R a b := by
  induction rows with
  | nil => simp at member
  | cons head _ ih =>
    rcases List.mem_cons.mp member with rfl | later
    · exact ⟨_, by simp, head⟩
    · obtain ⟨a, inside, related⟩ := ih later
      exact ⟨a, by simp [inside], related⟩

theorem forall₂_map_eq {β : Type} {g : α → β} (same : ∀ {a b}, R a b → g b = g a)
    {left right : List α} (rows : List.Forall₂ R left right) :
    right.map g = left.map g := by
  induction rows with
  | nil => rfl
  | cons head _ ih => rw [List.map_cons, List.map_cons, same head, ih]

/-- With distinct keys a key determines its row. -/
theorem eq_of_key (distinct : (rows.map key).Nodup) {a b : α} (left : a ∈ rows) (right : b ∈ rows)
    (same : key a = key b) : a = b :=
  List.inj_on_of_nodup_map distinct left right same

theorem find?_eq_some_of_mem [DecidableEq κ] (distinct : (rows.map key).Nodup) {a : α}
    (member : a ∈ rows) :
    rows.find? (fun r => decide (key r = key a)) = some a := by
  rcases found : rows.find? fun r => decide (key r = key a) with _ | b
  · have absent := List.find?_eq_none.mp found a member
    simp at absent
  · have same : key b = key a := by simpa using List.find?_some found
    rw [eq_of_key distinct (List.mem_of_find?_eq_some found) member same]

/-! ### Tables over time -/

/-- Every row of the second table ages from a row of the first or has a fresh id. -/
def Descends (Ages : α → α → Prop) (id : α → κ) (Fresh : κ → Prop)
    (before after : List α) : Prop :=
  ∀ new ∈ after, (∃ old ∈ before, Ages old new) ∨ Fresh (id new)

section
variable {Ages : α → α → Prop} {id : α → κ} {Fresh : κ → Prop} {before middle after : List α}

theorem Descends.refl (refl : ∀ a, Ages a a) (rows : List α) : Descends Ages id Fresh rows rows :=
  fun a member => Or.inl ⟨a, member, refl a⟩

theorem Descends.trans (trans : ∀ {a b c}, Ages a b → Ages b c → Ages a c)
    (keeps : ∀ {a b}, Ages a b → id b = id a) (first : Descends Ages id Fresh before middle)
    (second : Descends Ages id Fresh middle after) : Descends Ages id Fresh before after := by
  intro c member
  rcases second c member with ⟨b, inside, later⟩ | fresh
  · rcases first b inside with ⟨a, start, earlier⟩ | fresh
    · exact Or.inl ⟨a, start, trans earlier later⟩
    · rw [← keeps later] at fresh
      exact Or.inr fresh
  · exact Or.inr fresh

/-- What holds of the old keys and of fresh ones holds of all. -/
theorem Descends.keys {Good : κ → Prop} (keeps : ∀ {a b}, Ages a b → id b = id a)
    (h : Descends Ages id Fresh before after) (old : ∀ a ∈ before, Good (id a))
    (new : ∀ k, Fresh k → Good k) : ∀ b ∈ after, Good (id b) := by
  intro b member
  rcases h b member with ⟨a, stored, ages⟩ | fresh
  · rw [keeps ages]
    exact old a stored
  · exact new _ fresh

theorem Descends.mono {Fresh' : κ → Prop} (weaker : ∀ id, Fresh id → Fresh' id)
    (h : Descends Ages id Fresh before after) : Descends Ages id Fresh' before after :=
  fun a member => (h a member).imp (fun old => old) (weaker _)

theorem Descends.of_forall₂ {R : α → α → Prop} (weaker : ∀ {a b}, R a b → Ages a b)
    (rows : List.Forall₂ R before after) : Descends Ages id Fresh before after := by
  intro b member
  obtain ⟨a, inside, related⟩ := forall₂_exists_left rows member
  exact Or.inl ⟨a, inside, weaker related⟩

theorem Descends.append (refl : ∀ a, Ages a a) {new : List α} (fresh : ∀ a ∈ new, Fresh (id a)) :
    Descends Ages id Fresh before (before ++ new) := by
  intro a member
  rcases List.mem_append.mp member with old | added
  · exact Or.inl ⟨a, old, refl a⟩
  · exact Or.inr (fresh a added)

theorem Descends.updateWhere (refl : ∀ a, Ages a a) {condition : α → Bool} {f : α → α}
    (ages : ∀ a ∈ before, condition a = true → Ages a (f a)) :
    Descends Ages id Fresh before (updateWhere before condition f) :=
  .of_forall₂ (fun h => h) (forall₂_updateWhere refl ages)

theorem Descends.filter (refl : ∀ a, Ages a a) (condition : α → Bool) :
    Descends Ages id Fresh before (before.filter condition) :=
  fun a member => Or.inl ⟨a, (List.mem_filter.mp member).1, refl a⟩

end

end Table
