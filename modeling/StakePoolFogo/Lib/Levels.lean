import Mathlib

/-!
# Levelling

Vessels stand at different heights and each takes in a limited amount.  `share` is what a vessel takes
to bring its surface up to a level, `bill` what that costs for all vessels on top of what they hold, and
`lastUpTo` finds the last level that still fits a budget by bisection.
-/

namespace StakePoolFogo.Levels

/-! ## Bisection -/

/-- The last point of `[low, high]` with `p`, if `p` holds up to some point and not beyond it. -/
def lastUpTo (p : Int → Prop) [DecidablePred p] (low high : Int) : Int :=
  if low < high then
    let middle := (low + high + 1) / 2
    if p middle then lastUpTo p middle high else lastUpTo p low (middle - 1)
  else low
termination_by (high - low).toNat
decreasing_by all_goals omega

/-- One turn of the loop, on `low` and `high`. -/
def bisect (p : Int → Prop) [DecidablePred p] (bounds : Int × Int) : Int × Int :=
  if bounds.1 < bounds.2 then
    let middle := (bounds.1 + bounds.2 + 1) / 2
    if p middle then (middle, bounds.2) else (bounds.1, middle - 1)
  else bounds

section Bisection

variable {p : Int → Prop} [DecidablePred p] {low high : Int}

/-- After some turns the bounds meet. -/
theorem bisect_meets (h : low ≤ high) : ∃ turns : Nat,
    (bisect p)^[turns] (low, high) = (lastUpTo p low high, lastUpTo p low high) := by
  fun_induction lastUpTo p low high with
  | case1 low high hlt middle hp ih =>
    have hmiddle : middle = (low + high + 1) / 2 := rfl
    obtain ⟨turns, hturns⟩ := ih (by omega)
    refine ⟨turns + 1, ?_⟩
    have hturn : bisect p (low, high) = (middle, high) := by
      rw [bisect, if_pos hlt]
      exact if_pos hp
    rw [Function.iterate_succ_apply, hturn, hturns]
  | case2 low high hlt middle hp ih =>
    have hmiddle : middle = (low + high + 1) / 2 := rfl
    obtain ⟨turns, hturns⟩ := ih (by omega)
    refine ⟨turns + 1, ?_⟩
    have hturn : bisect p (low, high) = (low, middle - 1) := by
      rw [bisect, if_pos hlt]
      exact if_neg hp
    rw [Function.iterate_succ_apply, hturn, hturns]
  | case3 low high hlt =>
    have hmeet : low = high := by omega
    exact ⟨0, by rw [Function.iterate_zero_apply, ← hmeet]⟩

theorem lastUpTo_mem (h : low ≤ high) : low ≤ lastUpTo p low high ∧ lastUpTo p low high ≤ high := by
  fun_induction lastUpTo p low high with
  | case1 low high hlt middle hp ih =>
    have hmiddle : middle = (low + high + 1) / 2 := rfl
    obtain ⟨hlow, hhigh⟩ := ih (by omega)
    exact ⟨by omega, hhigh⟩
  | case2 low high hlt middle hp ih =>
    have hmiddle : middle = (low + high + 1) / 2 := rfl
    obtain ⟨hlow, hhigh⟩ := ih (by omega)
    exact ⟨hlow, by omega⟩
  | case3 low high hlt => exact ⟨Int.le_refl low, h⟩

theorem lastUpTo_holds (h : p low) : p (lastUpTo p low high) := by
  fun_induction lastUpTo p low high with
  | case1 low high hlt middle hp ih => exact ih hp
  | case2 low high hlt middle hp ih => exact ih h
  | case3 low high hlt => exact h

/-- Beyond the result, nothing up to `high` has the property. -/
theorem lastUpTo_last (hdown : ∀ a b, a ≤ b → p b → p a) {n : Int} (hn : lastUpTo p low high < n)
    (hhigh : n ≤ high) : ¬ p n := by
  fun_induction lastUpTo p low high with
  | case1 low high hlt middle hp ih => exact ih hn hhigh
  | case2 low high hlt middle hp ih =>
    by_cases hbelow : n ≤ middle - 1
    · exact ih hn hbelow
    · exact fun hpn => hp (hdown middle n (by omega) hpn)
  | case3 low high hlt => omega

theorem lastUpTo_congr {q : Int → Prop} [DecidablePred q] (h : ∀ n, p n ↔ q n) :
    lastUpTo p low high = lastUpTo q low high := by
  obtain rfl : p = q := funext fun n => propext (h n)
  congr

end Bisection

/-! ## What one vessel takes -/

/-- A vessel that stands at `height` and holds at most `cap` takes this much to reach `level`. -/
def share (height level cap : Int) : Int := min (max (level - height) 0) cap

section Share

variable {height level level' cap held : Int}

theorem share_mono (h : level ≤ level') : share height level cap ≤ share height level' cap := by
  unfold share
  omega

theorem share_succ : share height (level + 1) cap ≤ share height level cap + 1 := by
  unfold share
  omega

theorem share_le_cap : share height level cap ≤ cap := Int.min_le_right _ _

theorem share_nonneg (hcap : 0 ≤ cap) : 0 ≤ share height level cap := by
  unfold share
  omega

/-- At the highest level the vessel is full. -/
theorem share_full (hlevel : height + cap ≤ level) : share height level cap = cap := by
  unfold share
  omega

theorem share_zero_le (hheight : 0 ≤ height) : share height 0 cap ≤ 0 := by
  unfold share
  omega

/-- No smaller amount within the limits brings the surface up to the level. -/
theorem share_least {amount : Int} (hamount : 0 ≤ amount)
    (hreach : min level (height + cap) ≤ height + amount) : share height level cap ≤ amount := by
  unfold share
  omega

/-- What is missing on top of what the vessel holds already. -/
def topUp (level cap height held : Int) : Int := max (share height level cap - held) 0

theorem topUp_nonneg : 0 ≤ topUp level cap height held := Int.le_max_right _ _

theorem topUp_mono (h : level ≤ level') : topUp level cap height held ≤ topUp level' cap height held := by
  have hshare : share height level cap ≤ share height level' cap := share_mono h
  unfold topUp
  omega

theorem topUp_succ : topUp (level + 1) cap height held ≤ topUp level cap height held + 1 := by
  have hshare : share height (level + 1) cap ≤ share height level cap + 1 := share_succ
  unfold topUp
  omega

theorem topUp_zero (hheight : 0 ≤ height) (hheld : 0 ≤ held) : topUp 0 cap height held = 0 := by
  have hshare : share height 0 cap ≤ 0 := share_zero_le hheight
  unfold topUp
  omega

end Share

/-! ## What all of them take -/

section Bill

variable {α : Type} {height held : α → Int} {cap level level' : Int} {vessels : List α}

/-- The cost of a level: what is missing everywhere. -/
def bill (height held : α → Int) (cap : Int) (vessels : List α) (level : Int) : Int :=
  (vessels.map fun x => topUp level cap (height x) (held x)).sum

theorem bill_mono (h : level ≤ level') : bill height held cap vessels level ≤ bill height held cap vessels level' :=
  List.sum_le_sum fun _ _ => topUp_mono h

/-- One level more costs at most one unit a vessel. -/
theorem bill_succ : bill height held cap vessels (level + 1) ≤
    bill height held cap vessels level + vessels.length := by
  induction vessels with
  | nil => exact Int.le_refl _
  | cons x vessels ih =>
    have hx : topUp (level + 1) cap (height x) (held x) ≤ topUp level cap (height x) (held x) + 1 := topUp_succ
    simp only [bill, List.map_cons, List.sum_cons, List.length_cons] at ih ⊢
    push_cast
    omega

theorem bill_zero (hheight : ∀ x ∈ vessels, 0 ≤ height x) (hheld : ∀ x ∈ vessels, 0 ≤ held x) :
    bill height held cap vessels 0 = 0 := by
  induction vessels with
  | nil => rfl
  | cons x vessels ih =>
    have hx : topUp 0 cap (height x) (held x) = 0 :=
      topUp_zero (hheight x (List.mem_cons_self ..)) (hheld x (List.mem_cons_self ..))
    have hrest := ih (fun y hy => hheight y (List.mem_cons_of_mem x hy))
      (fun y hy => hheld y (List.mem_cons_of_mem x hy))
    simp only [bill, List.map_cons, List.sum_cons] at hrest ⊢
    omega

theorem bill_perm {vessels' : List α} (h : vessels.Perm vessels') :
    bill height held cap vessels level = bill height held cap vessels' level :=
  (h.map _).sum_eq

/-- With empty vessels the bill is the sum of the shares. -/
theorem bill_empty (hcap : 0 ≤ cap) :
    bill height (fun _ => 0) cap vessels level = (vessels.map fun x => share (height x) level cap).sum := by
  have htop : ∀ x, topUp level cap (height x) 0 = share (height x) level cap := by
    intro x
    have hshare : 0 ≤ share (height x) level cap := share_nonneg hcap
    unfold topUp
    omega
  simp only [bill, htop]

/-- The bill is what the amounts of any other filling to that level cost at least. -/
theorem bill_least {amounts : List Int} (h : List.Forall₂ (fun x amount => 0 ≤ amount ∧
    min level (height x + cap) ≤ height x + amount) vessels amounts) :
    bill height (fun _ => 0) cap vessels level ≤ amounts.sum := by
  induction h with
  | nil => exact Int.le_refl _
  | cons hx _ ih =>
    have hshare := share_least hx.1 hx.2
    have htop := hx.1
    simp only [bill, List.map_cons, List.sum_cons] at ih ⊢
    unfold topUp at ih ⊢
    omega

/-- The last level up to `ceiling` that fits the budget. -/
def levelWithin (height held : α → Int) (cap : Int) (vessels : List α) (budget ceiling : Int) : Int :=
  lastUpTo (fun level => bill height held cap vessels level ≤ budget) 0 (max ceiling 0)

section Level

variable {budget ceiling : Int}

theorem levelWithin_mem : 0 ≤ levelWithin height held cap vessels budget ceiling ∧
    levelWithin height held cap vessels budget ceiling ≤ max ceiling 0 :=
  lastUpTo_mem (Int.le_max_right _ _)

theorem levelWithin_fits (hheight : ∀ x ∈ vessels, 0 ≤ height x) (hheld : ∀ x ∈ vessels, 0 ≤ held x)
    (hbudget : 0 ≤ budget) :
    bill height held cap vessels (levelWithin height held cap vessels budget ceiling) ≤ budget := by
  refine lastUpTo_holds (p := fun level => bill height held cap vessels level ≤ budget) ?_
  rw [bill_zero hheight hheld]
  exact hbudget

/-- A higher level up to the ceiling does not fit. -/
theorem levelWithin_last (h : levelWithin height held cap vessels budget ceiling < level)
    (hceiling : level ≤ max ceiling 0) : budget < bill height held cap vessels level := by
  have hlast := lastUpTo_last (p := fun level => bill height held cap vessels level ≤ budget)
    (fun _ _ hle hfits => Int.le_trans (bill_mono hle) hfits) h hceiling
  omega

/-- It is the greatest level that fits. -/
theorem levelWithin_isGreatest (hheight : ∀ x ∈ vessels, 0 ≤ height x)
    (hheld : ∀ x ∈ vessels, 0 ≤ held x) (hbudget : 0 ≤ budget) :
    IsGreatest {n | 0 ≤ n ∧ n ≤ max ceiling 0 ∧ bill height held cap vessels n ≤ budget}
      (levelWithin height held cap vessels budget ceiling) := by
  refine ⟨⟨levelWithin_mem.1, levelWithin_mem.2, levelWithin_fits hheight hheld hbudget⟩, ?_⟩
  intro n hn
  obtain ⟨-, hceiling, hfits⟩ := hn
  by_contra hbeyond
  have hlast := levelWithin_last (Int.not_le.mp hbeyond) hceiling
  omega

/-- What fits a budget fits a larger one. -/
theorem levelWithin_mono {budget' : Int} (hheight : ∀ x ∈ vessels, 0 ≤ height x)
    (hheld : ∀ x ∈ vessels, 0 ≤ held x) (hbudget : 0 ≤ budget) (hle : budget ≤ budget') :
    levelWithin height held cap vessels budget ceiling ≤
      levelWithin height held cap vessels budget' ceiling := by
  have hfits : bill height held cap vessels (levelWithin height held cap vessels budget ceiling) ≤
      budget := levelWithin_fits hheight hheld hbudget
  exact (levelWithin_isGreatest hheight hheld (Int.le_trans hbudget hle)).2
    ⟨levelWithin_mem.1, levelWithin_mem.2, Int.le_trans hfits hle⟩

theorem levelWithin_perm {vessels' : List α} (h : vessels.Perm vessels') :
    levelWithin height held cap vessels budget ceiling =
      levelWithin height held cap vessels' budget ceiling :=
  lastUpTo_congr fun level => by rw [bill_perm h]

/-- Below the ceiling less than one unit a vessel is left over. -/
theorem levelWithin_remainder (h : levelWithin height held cap vessels budget ceiling < max ceiling 0) :
    budget - bill height held cap vessels (levelWithin height held cap vessels budget ceiling) <
      vessels.length := by
  generalize hlevel : levelWithin height held cap vessels budget ceiling = level at h ⊢
  have hnext : budget < bill height held cap vessels (level + 1) :=
    levelWithin_last (by rw [hlevel]; exact Int.lt_succ _) h
  have hstep : bill height held cap vessels (level + 1) ≤ bill height held cap vessels level + vessels.length :=
    bill_succ
  omega

end Level

end Bill

end StakePoolFogo.Levels
