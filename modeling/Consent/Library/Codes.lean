import Mathlib

/-!
Texts made of parts that can be told apart from the front.
-/
namespace Codes

variable {α γ : Type}

/-- Two texts with a separator in them agree on both sides of its first occurrence. -/
theorem split_unique {c : γ} {left right left' right' : List γ}
    (clean : ∀ x ∈ left, x ≠ c) (clean' : ∀ x ∈ left', x ≠ c)
    (same : left ++ c :: right = left' ++ c :: right') : left = left' ∧ right = right' := by
  induction left generalizing left' with
  | nil =>
    cases left' with
    | nil => exact ⟨rfl, by simpa using same⟩
    | cons x rest =>
      simp only [List.nil_append, List.cons_append, List.cons.injEq] at same
      exact absurd same.1.symm (clean' x (by simp))
  | cons x rest ih =>
    cases left' with
    | nil =>
      simp only [List.nil_append, List.cons_append, List.cons.injEq] at same
      exact absurd same.1 (clean x (by simp))
    | cons y rest' =>
      simp only [List.cons_append, List.cons.injEq] at same
      obtain ⟨tails, rights⟩ := ih (fun z member => clean z (by simp [member]))
        (fun z member => clean' z (by simp [member])) same.2
      exact ⟨by rw [same.1, tails], rights⟩

theorem isDigit_of_mem_toString {n : Nat} {c : Char} (member : c ∈ (toString n).toList) :
    c.isDigit = true := by
  have digits : c ∈ Nat.toDigits 10 n := by
    rw [← Nat.toList_repr]
    exact member
  exact Nat.isDigit_of_mem_toDigits (by decide) (by decide) digits

/-- A number ends where no digit follows. -/
theorem number_unique {c : Char} (plain : c.isDigit = false) {i j : Nat} {left right : List Char}
    (same : (toString i).toList ++ c :: left = (toString j).toList ++ c :: right) :
    i = j ∧ left = right := by
  have digits : ∀ {n : Nat}, ∀ x ∈ (toString n).toList, x ≠ c := by
    rintro n x member rfl
    rw [isDigit_of_mem_toString member] at plain
    cases plain
  obtain ⟨numbers, rest⟩ := split_unique digits digits same
  exact ⟨Nat.repr_inj.mp (String.toList_inj.mp numbers), rest⟩

/-- A text of parts has one reading if its first part can be read. -/
theorem injective_of_parts (part : α → List γ) {text : List α → List γ}
    (unique : ∀ {a b left right}, part a ++ left = part b ++ right → a = b ∧ left = right)
    (some : ∀ a, part a ≠ []) (nil : text [] = [])
    (cons : ∀ a rest, text (a :: rest) = part a ++ text rest) : Function.Injective text := by
  intro xs
  induction xs with
  | nil =>
    intro ys same
    cases ys with
    | nil => rfl
    | cons y rest =>
      rw [nil, cons] at same
      exact absurd (List.append_eq_nil_iff.mp same.symm).1 (some y)
  | cons x rest ih =>
    intro ys same
    cases ys with
    | nil =>
      rw [nil, cons] at same
      exact absurd (List.append_eq_nil_iff.mp same).1 (some x)
    | cons y rest' =>
      rw [cons, cons] at same
      obtain ⟨rfl, tails⟩ := unique same
      rw [ih tails]

end Codes
