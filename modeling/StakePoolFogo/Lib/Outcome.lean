import Mathlib

/-!
# Fallible computations

A fallible Rust function becomes a function into `Except`.  Early returns are written with `failIf`,
`Option::ok_or` with `okOr`, and an effect that only happens under a condition with `onlyIf`.  Each
of them has one inversion lemma, so a successful run is taken apart by a single `simp only` with the
`Outcome` lemmas and one `obtain`.
-/

namespace StakePoolFogo.Outcome

variable {ε α β : Type}

/-- `if c { return Err(e) }`. -/
def failIf (c : Prop) [Decidable c] (e : ε) : Except ε Unit :=
  if c then .error e else .ok ()

/-- `Option::ok_or`. -/
def okOr (o : Option α) (e : ε) : Except ε α :=
  match o with
  | some a => .ok a
  | none => .error e

/-- `if c { f()?; }`, threading the state `a`. -/
def onlyIf (c : Prop) [Decidable c] (f : α → Except ε α) (a : α) : Except ε α :=
  if c then f a else .ok a

/-- Whether a computation succeeded. -/
def succeeded (x : Except ε α) : Bool :=
  match x with
  | .ok _ => true
  | .error _ => false

theorem bind_eq_ok {x : Except ε α} {f : α → Except ε β} {b : β} :
    (x >>= f) = .ok b ↔ ∃ a, x = .ok a ∧ f a = .ok b := by
  cases x with
  | error e => simp [bind, Except.bind]
  | ok a => simp [bind, Except.bind]

theorem bind_eq_error {x : Except ε α} {f : α → Except ε β} {e : ε} :
    (x >>= f) = .error e ↔ x = .error e ∨ ∃ a, x = .ok a ∧ f a = .error e := by
  cases x with
  | error e' => simp [bind, Except.bind]
  | ok a => simp [bind, Except.bind]

/-- Nothing on the way fails with `e`. -/
theorem bind_ne_error {x : Except ε α} {f : α → Except ε β} {e : ε} (hx : x ≠ .error e)
    (hf : ∀ a, x = .ok a → f a ≠ .error e) : (x >>= f) ≠ .error e := by
  intro h
  rcases bind_eq_error.mp h with h | ⟨a, ha, h⟩
  · exact hx h
  · exact hf a ha h

theorem map_eq_ok {x : Except ε α} {f : α → β} {b : β} :
    (f <$> x) = .ok b ↔ ∃ a, x = .ok a ∧ f a = b := by
  cases x with
  | error e => simp [Functor.map, Except.map]
  | ok a => simp [Functor.map, Except.map]

theorem pure_eq_ok {a b : α} : (pure a : Except ε α) = .ok b ↔ a = b := by
  simp [pure, Except.pure]

theorem throw_ne_ok {e : ε} {a : α} : (throw e : Except ε α) = .ok a ↔ False := by
  simp [throw, throwThe, MonadExceptOf.throw]

theorem failIf_eq_ok {c : Prop} [Decidable c] {e : ε} {u : Unit} :
    failIf c e = .ok u ↔ ¬ c := by
  unfold failIf
  by_cases h : c <;> simp [h]

theorem failIf_eq_error {c : Prop} [Decidable c] {e e' : ε} : failIf c e = .error e' ↔ c ∧ e = e' := by
  unfold failIf
  by_cases h : c <;> simp [h]

theorem failIf_ne_error {c : Prop} [Decidable c] {e e' : ε} (h : e ≠ e') : failIf c e ≠ .error e' :=
  fun hfail => h (failIf_eq_error.mp hfail).2

theorem okOr_eq_ok {o : Option α} {e : ε} {a : α} : okOr o e = .ok a ↔ o = some a := by
  cases o <;> simp [okOr]

theorem okOr_eq_error {o : Option α} {e e' : ε} : okOr o e = .error e' ↔ o = none ∧ e = e' := by
  cases o <;> simp [okOr]

theorem okOr_ne_error {o : Option α} {e e' : ε} (h : e ≠ e') : okOr o e ≠ .error e' :=
  fun hnone => h (okOr_eq_error.mp hnone).2

theorem ok_bind {a : α} {f : α → Except ε β} : ((.ok a : Except ε α) >>= f) = f a := rfl

theorem okOr_some {a : α} {e : ε} : okOr (some a) e = .ok a := rfl

theorem failIf_neg {c : Prop} [Decidable c] {e : ε} (h : ¬ c) : failIf c e = .ok () := if_neg h

theorem onlyIf_eq_ok {c : Prop} [Decidable c] {f : α → Except ε α} {a b : α} :
    onlyIf c f a = .ok b ↔ (c ∧ f a = .ok b) ∨ (¬ c ∧ a = b) := by
  unfold onlyIf
  by_cases h : c <;> simp [h]

theorem ite_eq_ok {c : Prop} [Decidable c] {x y : Except ε α} {a : α} :
    (if c then x else y) = .ok a ↔ (c ∧ x = .ok a) ∨ (¬ c ∧ y = .ok a) := by
  by_cases h : c <;> simp [h]

theorem exists_unit {p : Unit → Prop} : (∃ u, p u) ↔ p () :=
  ⟨fun ⟨_, h⟩ => h, fun h => ⟨(), h⟩⟩

theorem succeeded_iff {x : Except ε α} : succeeded x = true ↔ ∃ a, x = .ok a := by
  cases x <;> simp [succeeded]

/-- An effect under a condition preserves what the effect and the skipped branch both preserve. -/
theorem onlyIf_rel {r : α → α → Prop} (hrefl : ∀ a, r a a) {c : Prop} [Decidable c]
    {f : α → Except ε α} {a b : α} (hf : ∀ b, f a = .ok b → r a b) (h : onlyIf c f a = .ok b) :
    r a b := by
  rcases onlyIf_eq_ok.mp h with ⟨_, hb⟩ | ⟨_, rfl⟩
  · exact hf b hb
  · exact hrefl a

end StakePoolFogo.Outcome
