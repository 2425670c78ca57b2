import StakePoolFogo.Lib.Outcome

/-!
# Two computations side by side

`Agree r x y`: the computations fail together or succeed with related results.  Two programs of one shape are
compared step by step with the rule for `bind`.
-/

namespace StakePoolFogo.Outcome

variable {ε α β γ δ : Type} {r : α → β → Prop} {s : γ → δ → Prop} {x : Except ε α} {y : Except ε β}

/-- The computations fail together or succeed with related results. -/
def Agree (r : α → β → Prop) (x : Except ε α) (y : Except ε β) : Prop :=
  match x, y with
  | .ok a, .ok b => r a b
  | .error _, .error _ => True
  | _, _ => False

namespace Agree

theorem intro (hx : ∀ a, x = .ok a → ∃ b, y = .ok b ∧ r a b) (hy : ∀ b, y = .ok b → ∃ a, x = .ok a) :
    Agree r x y := by
  cases x with
  | ok a =>
    obtain ⟨b, rfl, hab⟩ := hx a rfl
    exact hab
  | error e =>
    cases y with
    | ok b =>
      obtain ⟨a, ha⟩ := hy b rfl
      cases ha
    | error e' => trivial

theorem ok_right (h : Agree r x y) {b : β} (hb : y = .ok b) : ∃ a, x = .ok a ∧ r a b := by
  subst hb
  cases x with
  | ok a => exact ⟨a, rfl, h⟩
  | error e => exact h.elim

theorem mono {r' : α → β → Prop} (h : Agree r x y) (hr : ∀ a b, x = .ok a → y = .ok b → r a b → r' a b) :
    Agree r' x y := by
  cases x <;> cases y
  · trivial
  · exact h
  · exact h
  · exact hr _ _ rfl rfl h

theorem of_eq {x' : Except ε α} {r : α → α → Prop} (h : x = x') (hr : ∀ a, x = .ok a → r a a) :
    Agree r x x' := by
  subst h
  cases x with
  | ok a => exact hr a rfl
  | error e => trivial

/-- One after the other. -/
theorem bind {f : α → Except ε γ} {g : β → Except ε δ} (h : Agree r x y)
    (hf : ∀ a b, x = .ok a → y = .ok b → r a b → Agree s (f a) (g b)) : Agree s (x >>= f) (y >>= g) := by
  cases x <;> cases y
  · trivial
  · exact h.elim
  · exact h.elim
  · exact hf _ _ rfl rfl h

/-- The same first step. -/
theorem bind_same {f : α → Except ε γ} {g : α → Except ε δ} (hf : ∀ a, x = .ok a → Agree s (f a) (g a)) :
    Agree s (x >>= f) (x >>= g) :=
  bind (of_eq rfl fun _ _ => rfl) fun a _ ha _ hab => hab ▸ hf a ha

theorem onlyIf {c : Prop} [Decidable c] {r : α → β → Prop} {f : α → Except ε α} {g : β → Except ε β} {a : α}
    {b : β} (hab : r a b) (hf : Agree r (f a) (g b)) : Agree r (Outcome.onlyIf c f a) (Outcome.onlyIf c g b) := by
  unfold Outcome.onlyIf
  split
  · exact hf
  · exact hab

end Agree

end StakePoolFogo.Outcome
