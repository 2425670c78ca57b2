import Mathlib

/-!
# Checked machine arithmetic

Amounts are natural numbers; the width of the machine integer enters only where the source checks
it.  `fits bits n` is the successful result of a checked operation whose exact value is `n`.
-/

namespace StakePoolFogo.Checked

def fits (bits n : Nat) : Option Nat :=
  if n < 2 ^ bits then some n else none

def checkedAdd (bits a b : Nat) : Option Nat := fits bits (a + b)

def checkedMul (bits a b : Nat) : Option Nat := fits bits (a * b)

def checkedSub (a b : Nat) : Option Nat :=
  if b ≤ a then some (a - b) else none

def checkedDiv (a b : Nat) : Option Nat :=
  if b = 0 then none else some (a / b)

def maxValue (bits : Nat) : Nat := 2 ^ bits - 1

def saturatingAdd (bits a b : Nat) : Nat := min (a + b) (maxValue bits)

def saturatingMul (bits a b : Nat) : Nat := min (a * b) (maxValue bits)

theorem fits_eq_some {bits n m : Nat} : fits bits n = some m ↔ n = m ∧ n < 2 ^ bits := by
  unfold fits
  split
  · rename_i h
    simp only [Option.some.injEq, h, and_true]
  · rename_i h
    simp only [reduceCtorEq, h, and_false]

theorem fits_eq_none {bits n : Nat} : fits bits n = none ↔ 2 ^ bits ≤ n := by
  unfold fits
  split
  · rename_i h
    simp only [reduceCtorEq, false_iff]
    exact Nat.not_le.mpr h
  · rename_i h
    simp only [true_iff]
    exact Nat.le_of_not_lt h

theorem fits_of_lt {bits n : Nat} (h : n < 2 ^ bits) : fits bits n = some n :=
  fits_eq_some.mpr ⟨rfl, h⟩

theorem checkedAdd_eq_some {bits a b c : Nat} :
    checkedAdd bits a b = some c ↔ a + b = c ∧ a + b < 2 ^ bits := fits_eq_some

theorem checkedMul_eq_some {bits a b c : Nat} :
    checkedMul bits a b = some c ↔ a * b = c ∧ a * b < 2 ^ bits := fits_eq_some

theorem checkedSub_eq_some {a b c : Nat} : checkedSub a b = some c ↔ a = c + b := by
  unfold checkedSub
  split <;> simp only [Option.some.injEq, reduceCtorEq, false_iff] <;> omega

theorem checkedDiv_eq_some {a b c : Nat} : checkedDiv a b = some c ↔ b ≠ 0 ∧ a / b = c := by
  unfold checkedDiv
  split <;> rename_i h <;> simp [h]

theorem saturatingAdd_le {bits a b : Nat} : saturatingAdd bits a b ≤ a + b := Nat.min_le_left _ _

theorem saturatingAdd_of_lt {bits a b : Nat} (h : a + b < 2 ^ bits) :
    saturatingAdd bits a b = a + b := by
  unfold saturatingAdd maxValue
  omega

theorem saturatingMul_of_lt {bits a b : Nat} (h : a * b < 2 ^ bits) :
    saturatingMul bits a b = a * b := by
  rw [saturatingMul, maxValue]
  omega

end StakePoolFogo.Checked
