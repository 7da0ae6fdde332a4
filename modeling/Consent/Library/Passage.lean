import Mathlib

/-!
Computations that can be cut short. A computation tells the states that it enters, in order, and
how it ends; a crash leaves the state in which it was cut. `Spec` is a triple with a condition
for every state on the way, so that what holds wherever a run is cut is proved together with
what holds at its end.
-/

/-- A computation over a state `σ` that returns an `α` or throws an `ε`: the states that it
enters, and its end. -/
def Passage (σ ε α : Type) : Type := σ → List σ × Except ε α

namespace Passage

variable {σ ε α β : Type}

/-- The state that a run leaves when nothing cuts it short. -/
def final (x : Passage σ ε α) (s : σ) : σ := (x s).1.getLastD s

/-- The states in which a run can be cut. -/
def cuts (x : Passage σ ε α) (s : σ) : List σ := s :: (x s).1

def bind (x : Passage σ ε α) (f : α → Passage σ ε β) : Passage σ ε β := fun s =>
  match x s with
  | (states, .ok a) => (states ++ (f a (states.getLastD s)).1, (f a (states.getLastD s)).2)
  | (states, .error e) => (states, .error e)

instance : Monad (Passage σ ε) where
  pure a := fun _ => ([], .ok a)
  bind := bind

instance : MonadLift (Except ε) (Passage σ ε) where
  monadLift x := fun _ => ([], x)

/-- The current state. -/
def state : Passage σ ε σ := fun s => ([], .ok s)

/-- One change of the state. -/
def enter (f : σ → σ) : Passage σ ε Unit := fun s => ([f s], .ok ())

/-- Stop with `e` unless the condition holds. -/
def require (condition : Prop) [Decidable condition] (e : ε) : Passage σ ε Unit := fun _ =>
  ([], if condition then .ok () else .error e)

/-- The states of the first half of a sequence, and of the second. -/
theorem mem_bind_left {x : Passage σ ε α} {f : α → Passage σ ε β} {s t : σ}
    (member : t ∈ (x s).1) : t ∈ ((x >>= f) s).1 := by
  change t ∈ (Passage.bind x f s).1
  unfold Passage.bind
  rcases run : x s with ⟨states, e | a⟩
  · rw [run] at member
    exact member
  · rw [run] at member
    exact List.mem_append_left _ member

theorem mem_bind_right {x : Passage σ ε α} {f : α → Passage σ ε β} {s t : σ} {a : α}
    (result : (x s).2 = .ok a) (member : t ∈ (f a (x.final s)).1) : t ∈ ((x >>= f) s).1 := by
  change t ∈ (Passage.bind x f s).1
  unfold Passage.bind
  unfold final at member
  rcases run : x s with ⟨states, e | b⟩
  · rw [run] at result
    cases result
  · rw [run] at result member
    cases result
    exact List.mem_append_right _ member

/-! ### Specifications -/

/-- How a run ends. -/
inductive Ends (Q : α → σ → Prop) (E : ε → σ → Prop) : Except ε α → σ → Prop
  | ok {a : α} {s : σ} (post : Q a s) : Ends Q E (.ok a) s
  | error {e : ε} {s : σ} (fail : E e s) : Ends Q E (.error e) s

/-- From a state with `P`, every state that `x` enters has `C`, and it ends with `Q` or `E`. -/
def Spec (P : σ → Prop) (x : Passage σ ε α) (C : σ → Prop) (Q : α → σ → Prop)
    (E : ε → σ → Prop) : Prop :=
  ∀ s, P s → (∀ t ∈ (x s).1, C t) ∧ Ends Q E (x s).2 (x.final s)

section

variable {P : σ → Prop} {C : σ → Prop} {Q : α → σ → Prop} {M : β → σ → Prop} {E : ε → σ → Prop}

theorem Spec.weaken {P' : σ → Prop} {C' : σ → Prop} {Q' : α → σ → Prop} {E' : ε → σ → Prop}
    {x : Passage σ ε α} (h : Spec P x C Q E) (pre : ∀ s, P' s → P s) (way : ∀ s, C s → C' s)
    (post : ∀ a s, Q a s → Q' a s) (fail : ∀ e s, E e s → E' e s) : Spec P' x C' Q' E' := by
  intro s holds
  obtain ⟨along, ends⟩ := h s (pre s holds)
  refine ⟨fun t member => way t (along t member), ?_⟩
  generalize (x s).2 = result at ends
  cases ends with
  | ok returned => exact .ok (post _ _ returned)
  | error failed => exact .error (fail _ _ failed)

theorem Spec.along {x : Passage σ ε α} (h : Spec P x C Q E) {s t : σ} (holds : P s) (here : C s)
    (member : t ∈ x.cuts s) : C t := by
  rcases List.mem_cons.mp member with rfl | later
  · exact here
  · exact (h s holds).1 t later

theorem Spec.returned {x : Passage σ ε α} (h : Spec P x C Q E) {s : σ} (holds : P s) {a : α}
    (result : (x s).2 = .ok a) : Q a (x.final s) := by
  have ends := (h s holds).2
  rw [result] at ends
  cases ends with
  | ok post => exact post

theorem Spec.threw {x : Passage σ ε α} (h : Spec P x C Q E) {s : σ} (holds : P s) {e : ε}
    (result : (x s).2 = .error e) : E e (x.final s) := by
  have ends := (h s holds).2
  rw [result] at ends
  cases ends with
  | error fail => exact fail

/-- What the precondition says about other things than the state. -/
theorem Spec.assume {R : Prop} {x : Passage σ ε α} (known : ∀ s, P s → R)
    (h : R → Spec P x C Q E) : Spec P x C Q E :=
  fun s holds => h (known s holds) s holds

theorem Spec.pure {a : α} (post : ∀ s, P s → Q a s) :
    Spec P (Pure.pure a : Passage σ ε α) C Q E := by
  intro s holds
  exact ⟨fun t member => (by cases member), .ok (post s holds)⟩

theorem Spec.lift {x : Except ε α} (post : ∀ s a, P s → x = .ok a → Q a s)
    (fail : ∀ s e, P s → x = .error e → E e s) :
    Spec P (MonadLift.monadLift x : Passage σ ε α) C Q E := by
  intro s holds
  refine ⟨fun t member => (by cases member), ?_⟩
  change Ends Q E x s
  rcases made : x with e | a
  · exact .error (fail s e holds made)
  · exact .ok (post s a holds made)

theorem Spec.state {Q : σ → σ → Prop} (post : ∀ s, P s → Q s s) :
    Spec P (state : Passage σ ε σ) C Q E := by
  intro s holds
  exact ⟨fun t member => (by cases member), .ok (post s holds)⟩

theorem Spec.enter {f : σ → σ} {Q : Unit → σ → Prop} (way : ∀ s, P s → C (f s))
    (post : ∀ s, P s → Q () (f s)) : Spec P (enter f : Passage σ ε Unit) C Q E := by
  intro s holds
  refine ⟨fun t member => ?_, .ok (post s holds)⟩
  rw [List.mem_singleton.mp member]
  exact way s holds

theorem Spec.require {condition : Prop} [Decidable condition] {e : ε} {Q : Unit → σ → Prop}
    (post : ∀ s, P s → condition → Q () s) (fail : ∀ s, P s → ¬ condition → E e s) :
    Spec P (require condition e : Passage σ ε Unit) C Q E := by
  intro s holds
  refine ⟨fun t member => (by cases member), ?_⟩
  change Ends Q E (if condition then .ok () else .error e) s
  split
  · exact .ok (post s holds ‹_›)
  · exact .error (fail s holds ‹_›)

theorem Spec.bind {x : Passage σ ε β} {f : β → Passage σ ε α} (first : Spec P x C M E)
    (rest : ∀ b, Spec (M b) (f b) C Q E) : Spec P (x >>= f) C Q E := by
  intro s holds
  obtain ⟨along, ends⟩ := first s holds
  change (∀ t ∈ (Passage.bind x f s).1, C t) ∧
    Ends Q E (Passage.bind x f s).2 ((Passage.bind x f s).1.getLastD s)
  unfold Passage.bind
  unfold final at ends
  rcases run : x s with ⟨states, e | b⟩
  · rw [run] at along ends
    cases ends with
    | error failed => exact ⟨along, .error failed⟩
  · rw [run] at along ends
    cases ends with
    | ok reached =>
      obtain ⟨later, finishes⟩ := rest b _ reached
      dsimp only
      refine ⟨fun t member => ?_, ?_⟩
      · rcases List.mem_append.mp member with before | after
        · exact along t before
        · exact later t after
      · have last : (states ++ (f b (states.getLastD s)).1).getLastD s =
            (f b).final (states.getLastD s) := by
          rw [final]
          rcases (f b (states.getLastD s)).1 with _ | ⟨t, more⟩
          · rw [List.append_nil]
            rfl
          · simp [List.getLastD_eq_getLast?]
        rw [last]
        exact finishes

theorem Spec.ite {condition : Prop} [Decidable condition] {x y : Passage σ ε α}
    (yes : condition → Spec P x C Q E) (no : ¬ condition → Spec P y C Q E) :
    Spec P (if condition then x else y) C Q E := by
  split
  · exact yes ‹_›
  · exact no ‹_›

/-- A loop over a list keeps an invariant of what is done, what is left and the value. -/
theorem Spec.foldlM {ι : Type} {body : α → ι → Passage σ ε α} {items : List ι}
    (I : List ι → List ι → α → σ → Prop) {start : α}
    (turn : ∀ before item after a, before ++ item :: after = items →
      Spec (I before (item :: after) a) (body a item) C (I (before ++ [item]) after) E) :
    Spec (I [] items start) (items.foldlM body start) C (I items []) E := by
  suffices general : ∀ after before a, before ++ after = items →
      Spec (I before after a) (after.foldlM body a) C (I items []) E from
    general items [] start rfl
  intro after
  induction after with
  | nil =>
    intro before a whole
    rw [List.append_nil] at whole
    subst whole
    exact .pure fun _ holds => holds
  | cons item after ih =>
    intro before a whole
    rw [List.foldlM_cons]
    exact (turn before item after a whole).bind fun b => ih (before ++ [item]) b (by simpa using whole)

end

end Passage
