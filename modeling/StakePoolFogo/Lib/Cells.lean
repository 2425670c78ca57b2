import Mathlib

/-!
# Cells that feed a pot

A row of cells is visited in any order and any number of times.  A visit changes one cell and adds
something to a common pot.  If visiting a cell twice is the same as visiting it once, then where a run
ends depends only on which cells it has visited.
-/

namespace StakePoolFogo.Cells

variable {σ ε : Type}

structure Row (σ : Type) where
  cells : List σ
  pot : Nat

/-- A run of visits, with the positions it visited. -/
inductive Run (f : σ → Except ε (σ × Nat)) (s : Row σ) : List Nat → Row σ → Prop where
  | nil : Run f s [] s
  | snoc {visited : List Nat} {r : Row σ} (run : Run f s visited r) {i : Nat} {x x' : σ} {n : Nat}
      (here : r.cells[i]? = some x) (step : f x = .ok (x', n)) :
      Run f s (visited ++ [i]) ⟨r.cells.set i x', r.pot + n⟩

variable {f : σ → Except ε (σ × Nat)} {s r : Row σ} {visited : List Nat}

theorem Run.single {i : Nat} {x x' : σ} {n : Nat} (here : s.cells[i]? = some x)
    (step : f x = .ok (x', n)) : Run f s [i] ⟨s.cells.set i x', s.pot + n⟩ := .snoc .nil here step

theorem Run.trans {t : Row σ} {visited' : List Nat} (h : Run f s visited r)
    (h' : Run f r visited' t) : Run f s (visited ++ visited') t := by
  induction h' with
  | nil => rwa [List.append_nil]
  | snoc _ here step ih =>
    rw [← List.append_assoc]
    exact .snoc ih here step

theorem Run.length (h : Run f s visited r) : r.cells.length = s.cells.length := by
  induction h with
  | nil => rfl
  | snoc _ _ _ ih => rw [List.length_set, ih]

/-- Cells stay where they are; a run relates each to what it becomes. -/
theorem Run.related {R : σ → σ → Prop} (refl : ∀ x, R x x) (trans : ∀ x y z, R x y → R y z → R x z)
    (hf : ∀ x x' n, f x = .ok (x', n) → R x x') (h : Run f s visited r) {i : Nat} {x : σ}
    (hx : s.cells[i]? = some x) : ∃ x', r.cells[i]? = some x' ∧ R x x' := by
  induction h with
  | nil => exact ⟨x, hx, refl x⟩
  | @snoc visited r _ j y y' n here step ih =>
    obtain ⟨x', hx', hrel⟩ := ih
    by_cases hij : j = i
    · subst hij
      obtain ⟨hj, -⟩ := List.getElem?_eq_some_iff.mp here
      obtain rfl := Option.some.inj (here.symm.trans hx')
      exact ⟨y', List.getElem?_set_self hj, trans _ _ _ hrel (hf _ _ _ step)⟩
    · exact ⟨x', by rw [List.getElem?_set_ne hij]; exact hx', hrel⟩

/-- Replacing an element by one of the same value leaves the values alone. -/
theorem map_set_eq {τ : Type} (g : σ → τ) {xs : List σ} {i : Nat} {x x' : σ} (here : xs[i]? = some x)
    (heq : g x' = g x) : (xs.set i x').map g = xs.map g := by
  obtain ⟨hi, rfl⟩ := List.getElem?_eq_some_iff.mp here
  rw [List.map_set, heq, ← List.getElem_map (f := g) (h := by simpa using hi), List.set_getElem_self]

/-- Replacing an element exchanges one summand. -/
theorem sum_set_add (g : σ → Nat) {xs : List σ} {i : Nat} {x : σ} (x' : σ) (here : xs[i]? = some x) :
    ((xs.set i x').map g).sum + g x = (xs.map g).sum + g x' := by
  induction xs generalizing i with
  | nil => cases here
  | cons y ys ih =>
    cases i with
    | zero =>
      obtain rfl := Option.some.inj here
      simp only [List.set_cons_zero, List.map_cons, List.sum_cons]
      omega
    | succ i =>
      have := ih here
      simp only [List.set_cons_succ, List.map_cons, List.sum_cons]
      omega

/-- Replacing an element moves the sum by what it differs. -/
theorem sum_set {g : σ → Nat} {xs : List σ} {i : Nat} {x x' : σ} {n : Nat} (here : xs[i]? = some x)
    (heq : g x = n + g x') : ((xs.set i x').map g).sum + n = (xs.map g).sum := by
  have := sum_set_add g x' here
  omega

/-- What the cells are worth together with the pot does not change if a visit only moves it. -/
theorem Run.conserved {g : σ → Nat} {P : σ → Prop} (keeps : ∀ x x' n, P x → f x = .ok (x', n) → P x')
    (hg : ∀ x x' n, P x → f x = .ok (x', n) → g x = n + g x') (hs : ∀ x ∈ s.cells, P x)
    (h : Run f s visited r) :
    r.pot + (r.cells.map g).sum = s.pot + (s.cells.map g).sum ∧ ∀ x ∈ r.cells, P x := by
  induction h with
  | nil => exact ⟨rfl, hs⟩
  | snoc _ here step ih =>
    obtain ⟨hsum, hP⟩ := ih
    have hx := hP _ (List.mem_of_getElem? here)
    have hset := sum_set here (hg _ _ _ hx step)
    refine ⟨?_, fun y hy => ?_⟩
    · dsimp only
      omega
    · rcases List.mem_or_eq_of_mem_set hy with hy | rfl
      · exact hP y hy
      · exact keeps _ _ _ hx step

/-- Where no visit loses anything, the cells together with the pot lose nothing. -/
theorem Run.gains {g : σ → Nat} {P : σ → Prop} (keeps : ∀ x x' n, P x → f x = .ok (x', n) → P x')
    (hg : ∀ x x' n, P x → f x = .ok (x', n) → g x ≤ n + g x') (hs : ∀ x ∈ s.cells, P x)
    (h : Run f s visited r) :
    s.pot + (s.cells.map g).sum ≤ r.pot + (r.cells.map g).sum ∧ ∀ x ∈ r.cells, P x := by
  induction h with
  | nil => exact ⟨Nat.le_refl _, hs⟩
  | @snoc visited r _ i x x' n here step ih =>
    obtain ⟨hsum, hP⟩ := ih
    have hx := hP _ (List.mem_of_getElem? here)
    have hset := sum_set_add g x' here
    have hle := hg _ _ _ hx step
    refine ⟨?_, fun y hy => ?_⟩
    · dsimp only
      omega
    · rcases List.mem_or_eq_of_mem_set hy with hy | rfl
      · exact hP y hy
      · exact keeps _ _ _ hx step

/-- What every visit leaves is there in every visited cell. -/
theorem Run.leaves {P Q : σ → Prop} (hf : ∀ x x' n, P x → f x = .ok (x', n) → P x' ∧ Q x')
    (hs : ∀ x ∈ s.cells, P x) (h : Run f s visited r) :
    (∀ x ∈ r.cells, P x) ∧ ∀ i ∈ visited, ∀ x, r.cells[i]? = some x → Q x := by
  induction h with
  | nil => exact ⟨hs, by simp⟩
  | @snoc visited r _ i x x' n here step ih =>
    obtain ⟨hP, hQ⟩ := ih
    obtain ⟨hx', hq⟩ := hf _ _ _ (hP x (List.mem_of_getElem? here)) step
    refine ⟨fun y hy => ?_, fun j hj y hy => ?_⟩
    · rcases List.mem_or_eq_of_mem_set hy with hy | rfl
      · exact hP y hy
      · exact hx'
    · by_cases hij : i = j
      · subst hij
        obtain ⟨hi, -⟩ := List.getElem?_eq_some_iff.mp here
        rw [List.getElem?_set_self hi] at hy
        cases hy
        exact hq
      · rw [List.getElem?_set_ne hij] at hy
        rcases List.mem_append.mp hj with hj | hj
        · exact hQ j hj y hy
        · exact absurd (List.mem_singleton.mp hj).symm hij

/-- A cell that was not visited is as it was. -/
theorem Run.kept (h : Run f s visited r) {i : Nat} (hi : i ∉ visited) : r.cells[i]? = s.cells[i]? := by
  induction h with
  | nil => rfl
  | @snoc visited r _ j x x' n _ _ ih =>
    obtain ⟨hvisited, hj⟩ := not_or.mp (fun h => hi (List.mem_append.mpr h))
    have hne : j ≠ i := fun heq => hj (List.mem_singleton.mpr heq.symm)
    rw [List.getElem?_set_ne hne, ih hvisited]

/-- The first visit of a cell finds it as it was, and what it adds stays in the pot. -/
theorem Run.paid (h : Run f s visited r) {i : Nat} {x : σ} (hi : i ∈ visited) (hx : s.cells[i]? = some x) :
    ∃ x' n, f x = .ok (x', n) ∧ s.pot + n ≤ r.pot := by
  have hgrows : ∀ {visited r}, Run f s visited r → s.pot ≤ r.pot := by
    intro visited r h
    induction h with
    | nil => exact Nat.le_refl _
    | snoc _ _ _ ih => exact Nat.le_trans ih (Nat.le_add_right _ _)
  induction h with
  | nil => cases hi
  | @snoc visited r run j y y' n here step ih =>
    by_cases hbefore : i ∈ visited
    · obtain ⟨x', m, hf, hle⟩ := ih hbefore
      exact ⟨x', m, hf, Nat.le_trans hle (Nat.le_add_right _ _)⟩
    · have hj : i = j := by
        rcases List.mem_append.mp hi with hin | hin
        · exact absurd hin hbefore
        · exact List.mem_singleton.mp hin
      subst hj
      rw [run.kept hbefore, hx] at here
      cases here
      exact ⟨y', n, step, Nat.add_le_add_right (hgrows run) n⟩

/-- What visits keep of one cell, and what they leave of it once it has been visited. -/
theorem Run.follow {P Q : σ → Prop} (hf : ∀ x x' n, P x → f x = .ok (x', n) → P x' ∧ Q x')
    (h : Run f s visited r) {i : Nat} {x : σ} (hx : s.cells[i]? = some x) (hP : P x) :
    ∃ x', r.cells[i]? = some x' ∧ P x' ∧ (i ∈ visited → Q x') := by
  induction h with
  | nil => exact ⟨x, hx, hP, fun hi => by cases hi⟩
  | @snoc visited r _ j y y' n here step ih =>
    obtain ⟨x', hx', hP', hQ⟩ := ih
    by_cases hij : j = i
    · subst hij
      obtain rfl := Option.some.inj (here.symm.trans hx')
      obtain ⟨hj, -⟩ := List.getElem?_eq_some_iff.mp here
      obtain ⟨hafter, hleft⟩ := hf _ _ _ hP' step
      exact ⟨y', List.getElem?_set_self hj, hafter, fun _ => hleft⟩
    · refine ⟨x', by rw [List.getElem?_set_ne hij]; exact hx', hP', fun hi => hQ ?_⟩
      rcases List.mem_append.mp hi with hi | hi
      · exact hi
      · exact absurd (List.mem_singleton.mp hi).symm hij

section Settle

variable (f)

/-- The cell after a visit. -/
def settled (x : σ) : σ :=
  match f x with
  | .ok (x', _) => x'
  | .error _ => x

/-- What a visit would add to the pot. -/
def due (x : σ) : Nat :=
  match f x with
  | .ok (_, n) => n
  | .error _ => 0

/-- The row after a visit of every cell. -/
def Row.settle (s : Row σ) : Row σ := ⟨s.cells.map (settled f), s.pot + (s.cells.map (due f)).sum⟩

/-- Cells with `P` keep it, and a second visit does nothing. -/
def Settles (P : σ → Prop) : Prop :=
  ∀ x x' n, P x → f x = .ok (x', n) → P x' ∧ f x' = .ok (x', 0)

variable {f} {P : σ → Prop}

/-- Visited cells are settled; the settled row and the pot with what is due never change. -/
theorem Run.invariant (hf : Settles f P) (hs : ∀ x ∈ s.cells, P x) (h : Run f s visited r) :
    (∀ i ∈ visited, ∀ x, r.cells[i]? = some x → f x = .ok (x, 0)) ∧
      r.cells.map (settled f) = s.cells.map (settled f) ∧
      r.pot + (r.cells.map (due f)).sum = s.pot + (s.cells.map (due f)).sum := by
  refine ⟨(h.leaves hf hs).2, ?_⟩
  induction h with
  | nil => exact ⟨rfl, rfl⟩
  | @snoc visited r run i x x' n here step ih =>
    obtain ⟨hcells, hpot⟩ := ih
    have hx := (run.leaves hf hs).1 x (List.mem_of_getElem? here)
    obtain ⟨-, hagain⟩ := hf _ _ _ hx step
    refine ⟨(map_set_eq (settled f) here ?_).trans hcells, ?_⟩
    · simp only [settled, step, hagain]
    · have hdue : due f x = n + due f x' := by simp only [due, step, hagain, Nat.add_zero]
      have := sum_set here hdue
      dsimp only
      omega

/-- A run that has been everywhere leaves the settled row. -/
theorem Run.final (hf : Settles f P) (hs : ∀ x ∈ s.cells, P x) (h : Run f s visited r)
    (cover : ∀ i < s.cells.length, i ∈ visited) : r = s.settle f := by
  obtain ⟨hvisited, hcells, hpot⟩ := h.invariant hf hs
  have hat : ∀ x ∈ r.cells, f x = .ok (x, 0) := by
    intro x hx
    obtain ⟨i, hi, rfl⟩ := List.mem_iff_getElem.mp hx
    exact hvisited i (cover i (h.length ▸ hi)) _ (List.getElem?_eq_getElem hi)
  have hsettled : r.cells.map (settled f) = r.cells := by
    conv_rhs => rw [← List.map_id r.cells]
    refine List.map_congr_left fun x hx => ?_
    simp only [settled, hat x hx, id]
  have hdue : (r.cells.map (due f)).sum = 0 := by
    refine List.sum_eq_zero fun n hn => ?_
    obtain ⟨x, hx, rfl⟩ := List.mem_map.mp hn
    simp only [due, hat x hx]
  obtain ⟨cells, pot⟩ := r
  simp only [Row.settle, Row.mk.injEq]
  exact ⟨by rw [← hcells]; exact hsettled.symm, by dsimp only at hpot hdue; omega⟩

end Settle

end StakePoolFogo.Cells
