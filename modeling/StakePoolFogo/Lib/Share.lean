import Mathlib

/-!
# Assets and shares

A pool of assets owned by the holders of shares.  Deposits mint at most as many shares as the assets
are worth, withdrawals pay at most what the shares are worth, and rewards mint shares only against a
part of the reward.  The price of a share, assets over shares, never falls; it is compared by
cross-multiplication, so nothing is divided.
-/

namespace StakePoolFogo.Share

structure Book where
  assets : Nat
  shares : Nat
deriving DecidableEq, Repr

inductive Step (b : Book) : Book → Prop where
  | deposit (assets shares : Nat) (fair : shares * b.assets ≤ assets * b.shares) :
      Step b ⟨b.assets + assets, b.shares + shares⟩
  | withdraw (shares assets : Nat) (haveShares : shares ≤ b.shares) (haveAssets : assets ≤ b.assets)
      (fair : assets * b.shares ≤ shares * b.assets) :
      Step b ⟨b.assets - assets, b.shares - shares⟩
  | reward (assets fee shares : Nat) (part : fee ≤ assets)
      (fair : shares * (b.assets + assets - fee) ≤ b.shares * fee) :
      Step b ⟨b.assets + assets, b.shares + shares⟩

/-- A share of `b'` is worth at least as much as a share of `b`. -/
def NotBelow (b b' : Book) : Prop := b.assets * b'.shares ≤ b'.assets * b.shares

theorem NotBelow.refl (b : Book) : NotBelow b b := Nat.le_refl _

theorem NotBelow.trans {a b c : Book} (h : NotBelow a b) (h' : NotBelow b c) (hb : 0 < b.shares) :
    NotBelow a c := by
  unfold NotBelow at *
  refine Nat.le_of_mul_le_mul_left ?_ hb
  calc b.shares * (a.assets * c.shares)
      = a.assets * b.shares * c.shares := by rw [Nat.mul_left_comm, Nat.mul_assoc]
    _ ≤ b.assets * a.shares * c.shares := Nat.mul_le_mul_right _ h
    _ = b.assets * c.shares * a.shares := by rw [Nat.mul_right_comm]
    _ ≤ c.assets * b.shares * a.shares := Nat.mul_le_mul_right _ h'
    _ = b.shares * (c.assets * a.shares) := by rw [Nat.mul_left_comm, Nat.mul_assoc]

theorem Step.notBelow {b b' : Book} (h : Step b b') : NotBelow b b' := by
  unfold NotBelow
  cases h with
  | deposit assets shares fair =>
    show b.assets * (b.shares + shares) ≤ (b.assets + assets) * b.shares
    rw [Nat.mul_add, Nat.add_mul, Nat.mul_comm b.assets shares]
    exact Nat.add_le_add_left fair _
  | withdraw shares assets haveShares haveAssets fair =>
    show b.assets * (b.shares - shares) ≤ (b.assets - assets) * b.shares
    rw [Nat.mul_sub, Nat.sub_mul, Nat.mul_comm b.assets shares]
    exact Nat.sub_le_sub_left fair _
  | reward assets fee shares part fair =>
    show b.assets * (b.shares + shares) ≤ (b.assets + assets) * b.shares
    rw [Nat.mul_add, Nat.add_mul]
    refine Nat.add_le_add_left ?_ _
    -- The fee shares are backed by the reward: they were minted against assets that include it.
    calc b.assets * shares
        ≤ (b.assets + assets - fee) * shares := Nat.mul_le_mul_right _ (by omega)
      _ = shares * (b.assets + assets - fee) := Nat.mul_comm _ _
      _ ≤ b.shares * fee := fair
      _ ≤ b.shares * assets := Nat.mul_le_mul_left _ part
      _ = assets * b.shares := Nat.mul_comm _ _

/-- Over a run that never runs out of shares the price does not fall. -/
theorem run_notBelow {b b' : Book}
    (h : Relation.ReflTransGen (fun a c => Step a c ∧ 0 < c.shares) b b') (hb : 0 < b.shares) :
    NotBelow b b' ∧ 0 < b'.shares := by
  induction h with
  | refl => exact ⟨.refl b, hb⟩
  | tail _ hstep ih => exact ⟨ih.1.trans hstep.1.notBelow ih.2, hstep.2⟩

/-- With at least as many shares there are at least as many assets. -/
theorem NotBelow.assets_le {b b' : Book} (h : NotBelow b b') (hb : 0 < b.shares)
    (hshares : b.shares ≤ b'.shares) : b.assets ≤ b'.assets := by
  refine Nat.le_of_mul_le_mul_right ?_ hb
  exact Nat.le_trans (Nat.mul_le_mul_left _ hshares) h

/-! ## What shares are worth -/

/-- The assets that `n` shares are paid out with, rounded down. -/
def Book.worth (b : Book) (n : Nat) : Nat := n * b.assets / b.shares

theorem Book.worth_le (b : Book) {n : Nat} (h : n ≤ b.shares) : b.worth n ≤ b.assets :=
  Nat.div_le_of_le_mul (Nat.mul_le_mul_right _ h)

/-- Any amount up to all assets is paid out for some of the shares, with less than the price of one more
share on top. -/
theorem Book.worth_reaches (b : Book) {amount : Nat} (hassets : 0 < b.assets) (hshares : 0 < b.shares)
    (hle : amount ≤ b.assets) :
    ∃ n ≤ b.shares, amount ≤ b.worth n ∧ b.worth n ≤ amount + (b.assets - 1) / b.shares := by
  -- As many shares as the amount costs, rounded up.
  have hupper := Nat.div_mul_le_self (amount * b.shares + (b.assets - 1)) b.assets
  have hlower : amount * b.shares ≤ (amount * b.shares + (b.assets - 1)) / b.assets * b.assets := by
    have hlt := Nat.lt_div_mul_add (a := amount * b.shares + (b.assets - 1)) hassets
    omega
  refine ⟨(amount * b.shares + (b.assets - 1)) / b.assets, ?_, ?_, ?_⟩
  · refine Nat.lt_succ_iff.mp (Nat.div_lt_of_lt_mul ?_)
    calc amount * b.shares + (b.assets - 1)
        ≤ b.assets * b.shares + (b.assets - 1) := Nat.add_le_add_right (Nat.mul_le_mul_right _ hle) _
      _ < b.assets * (b.shares + 1) := by rw [Nat.mul_succ]; omega
  · exact (Nat.le_div_iff_mul_le hshares).mpr hlower
  · calc (amount * b.shares + (b.assets - 1)) / b.assets * b.assets / b.shares
        ≤ (amount * b.shares + (b.assets - 1)) / b.shares := Nat.div_le_div_right hupper
      _ = amount + (b.assets - 1) / b.shares := by
        rw [Nat.mul_comm]
        exact Nat.mul_add_div hshares amount (b.assets - 1)

end StakePoolFogo.Share
