import StakePoolFogo.FeeBounds

/-!
# The manager's tokens are right to one rounding step

An update takes `F` lamports of the rewards as the manager's fee and mints the tokens these are worth at
the price of the lamports that are left.  Both the fee and the tokens are rounded once.
-/

open StakePoolFogo.Checked

namespace StakePoolFogo

/-- At most one hundred per cent, where a zero denominator stands for no fee at all. -/
def Fee.AtMostWhole (fee : Fee) : Prop := fee.denominator = 0 ∨ fee.Bounded

/-- The operands of a fee fit in 128 bits, whatever the fee. -/
theorem Fee.operands_fit (fee : Fee) {amt : Nat} (hamt : amt < 2 ^ 64) :
    amt * fee.numerator.toNat < 2 ^ 128 ∧
      amt * fee.numerator.toNat + fee.denominator.toNat < 2 ^ 128 := by
  have hnum := fee.numerator.toNat_lt
  have hden := fee.denominator.toNat_lt
  have hproduct : amt * fee.numerator.toNat ≤ (2 ^ 64 - 1) * (2 ^ 64 - 1) :=
    Nat.mul_le_mul (by omega) (by omega)
  have hsmall : (2 ^ 64 - 1) * (2 ^ 64 - 1) + 2 ^ 64 < 2 ^ 128 := by decide
  exact ⟨by omega, by omega⟩

theorem Fee.apply_whole {fee : Fee} (hfee : fee.AtMostWhole) {amt : Nat} (hamt : amt < 2 ^ 64) :
    ∃ n, fee.apply amt = some n ∧ n ≤ amt := by
  rcases hfee with hzero | hbounded
  · exact ⟨0, if_pos hzero, Nat.zero_le amt⟩
  · exact fee.apply_defined hbounded hamt

/-! ## Two roundings -/

section Arithmetic

variable {supply fee rest : Nat}

/-- The tokens minted for `fee` lamports at the price of `rest` lamports are worth at most the fee after
they are minted, and less than the price of one token under it. -/
theorem minted_worth (hrest : 0 < rest) :
    supply * fee / rest * (rest + fee) ≤ fee * (supply + supply * fee / rest) ∧
      fee * (supply + supply * fee / rest) < supply * fee / rest * (rest + fee) + rest := by
  have hfloor : supply * fee / rest * rest ≤ supply * fee := Nat.div_mul_le_self _ _
  have hceil : supply * fee < (supply * fee / rest + 1) * rest :=
    (Nat.div_lt_iff_lt_mul hrest).mp (Nat.lt_succ_self _)
  generalize supply * fee / rest = tokens at hfloor hceil ⊢
  rw [Nat.add_one_mul] at hceil
  have hworth : tokens * (rest + fee) = tokens * rest + tokens * fee := Nat.mul_add ..
  have hbought : fee * (supply + tokens) = supply * fee + tokens * fee := by ring
  omega

/-- A fee taken out of the reward does not dilute the price before it. -/
theorem minted_fair {total reward : Nat} (hfee : fee ≤ reward) (hsplit : total + reward = rest + fee) :
    total * (supply + supply * fee / rest) ≤ (total + reward) * supply := by
  have htotal : total ≤ rest := by omega
  calc total * (supply + supply * fee / rest)
      = total * supply + total * (supply * fee / rest) := Nat.mul_add ..
    _ ≤ total * supply + rest * (supply * fee / rest) := by gcongr
    _ ≤ total * supply + supply * fee := Nat.add_le_add_left (Nat.mul_div_le _ _) _
    _ ≤ total * supply + supply * reward := by gcongr
    _ = (total + reward) * supply := by ring

end Arithmetic

/-- A withdrawal of machine words is the exact quotient, if that fits. -/
theorem StakePool.calcLamportsWithdrawAmount_eq {p : StakePool} {tokens : Nat}
    (htokens : tokens < 2 ^ 64) (htotal : p.totalLamports < 2 ^ 64) (hissued : 0 < p.poolTokenSupply) :
    p.calcLamportsWithdrawAmount tokens = fits 64 (tokens * p.totalLamports / p.poolTokenSupply) := by
  have hproduct : tokens * p.totalLamports ≤ (2 ^ 64 - 1) * (2 ^ 64 - 1) :=
    Nat.mul_le_mul (by omega) (by omega)
  have hmul : checkedMul 128 tokens p.totalLamports = some (tokens * p.totalLamports) :=
    fits_of_lt (by omega)
  unfold calcLamportsWithdrawAmount
  simp only [hmul, Option.bind_eq_bind, Option.bind_some]
  by_cases hsmall : tokens * p.totalLamports < p.poolTokenSupply
  · rw [if_pos (.inl hsmall), Nat.div_eq_of_lt hsmall]
    rfl
  · have hdiv : checkedDiv (tokens * p.totalLamports) p.poolTokenSupply =
        some (tokens * p.totalLamports / p.poolTokenSupply) := checkedDiv_eq_some.mpr ⟨by omega, rfl⟩
    rw [if_neg (by omega), hdiv, Option.bind_some]

/-- Short of a fee that takes everything, the tokens are the exact quotient, if that fits. -/
theorem StakePool.calcEpochFeeAmount_eq {p : StakePool} {reward fee rest : Nat}
    (htotal : p.totalLamports < 2 ^ 64) (hsupply : p.poolTokenSupply < 2 ^ 64)
    (hreward : reward < 2 ^ 64) (hpos : 0 < reward) (hissued : 0 < p.poolTokenSupply)
    (happly : p.epochFee.apply reward = some fee) (hrest : 0 < rest)
    (hsplit : p.totalLamports + reward = rest + fee) (hproduct : p.poolTokenSupply * fee < 2 ^ 128) :
    p.calcEpochFeeAmount reward = fits 64 (p.poolTokenSupply * fee / rest) := by
  have hsum : checkedAdd 128 p.totalLamports reward = some (rest + fee) := by
    rw [← hsplit]
    exact fits_of_lt (by omega)
  have hpart : ¬(rest + fee = fee ∨ p.poolTokenSupply = 0) := by omega
  have hmul : checkedMul 128 p.poolTokenSupply fee = some (p.poolTokenSupply * fee) :=
    fits_of_lt hproduct
  have hsub : checkedSub (rest + fee) fee = some rest := checkedSub_eq_some.mpr rfl
  have hdiv : checkedDiv (p.poolTokenSupply * fee) rest = some (p.poolTokenSupply * fee / rest) :=
    checkedDiv_eq_some.mpr ⟨by omega, rfl⟩
  unfold calcEpochFeeAmount
  rw [if_neg (by omega)]
  simp only [hsum, happly, hmul, hsub, hdiv, if_neg hpart, Option.bind_eq_bind, Option.bind_some]

/-- For every pool that has issued tokens, every fee of at most one hundred per cent and every reward of
which the fee leaves something: the tokens minted for the manager are worth at most the fee and less
than one token's price under it, the price before the update is not diluted, and the only way to have
no result is a quotient that is no machine word. -/
theorem epoch_fee_rounding {p : StakePool} {reward : Nat} (htotal : p.totalLamports < 2 ^ 64)
    (hsupply : p.poolTokenSupply < 2 ^ 64) (hreward : reward < 2 ^ 64)
    (hissued : 0 < p.poolTokenSupply) (hpos : 0 < reward) (hfee : p.epochFee.AtMostWhole) :
    ∃ fee ≤ reward, p.epochFee.apply reward = some fee ∧
      (reward * p.epochFee.numerator.toNat < 2 ^ 128 ∧
        reward * p.epochFee.numerator.toNat + p.epochFee.denominator.toNat < 2 ^ 128 ∧
        p.totalLamports + reward < 2 ^ 128 ∧ p.poolTokenSupply * fee < 2 ^ 128) ∧
      (fee < p.totalLamports + reward →
        (∀ tokens, p.calcEpochFeeAmount reward = some tokens →
          (fee * (p.poolTokenSupply + tokens) : ℤ) - (p.totalLamports + reward - fee) <
            tokens * (p.totalLamports + reward) ∧
          tokens * (p.totalLamports + reward) ≤ fee * (p.poolTokenSupply + tokens) ∧
          p.totalLamports * (p.poolTokenSupply + tokens) ≤
            (p.totalLamports + reward) * p.poolTokenSupply) ∧
        (p.calcEpochFeeAmount reward = none ↔
          2 ^ 64 ≤ p.poolTokenSupply * fee / (p.totalLamports + reward - fee))) := by
  obtain ⟨fee, happly, hle⟩ := p.epochFee.apply_whole hfee hreward
  obtain ⟨hmul, hadd⟩ := p.epochFee.operands_fit hreward
  -- Both factors fit in 64 bits, so the product of the quote cannot overflow.
  have hproduct : p.poolTokenSupply * fee < 2 ^ 128 := by
    have hbound : p.poolTokenSupply * fee ≤ (2 ^ 64 - 1) * (2 ^ 64 - 1) :=
      Nat.mul_le_mul (by omega) (by omega)
    omega
  refine ⟨fee, hle, happly, ⟨hmul, hadd, by omega, hproduct⟩, fun hpart => ?_⟩
  -- What the reward leaves to the holders once the fee is off.
  obtain ⟨rest, hsplit⟩ : ∃ rest, p.totalLamports + reward = rest + fee :=
    ⟨p.totalLamports + reward - fee, by omega⟩
  have hrest : 0 < rest := by omega
  have hquote := StakePool.calcEpochFeeAmount_eq htotal hsupply hreward hpos hissued happly hrest
    hsplit hproduct
  have hremainder : p.totalLamports + reward - fee = rest := by omega
  rw [hremainder, hquote]
  refine ⟨fun tokens h => ?_, fits_eq_none⟩
  obtain ⟨rfl, -⟩ := fits_eq_some.mp h
  -- The tokens are a rounded down share, so they are worth the fee but for less than one token.
  obtain ⟨hworth, hbelow⟩ := @minted_worth p.poolTokenSupply fee rest hrest
  have hfair := @minted_fair p.poolTokenSupply fee rest p.totalLamports reward hle hsplit
  rw [hsplit] at hfair ⊢
  refine ⟨?_, hworth, hfair⟩
  have hinteger : (p.totalLamports + reward : ℤ) = rest + fee := by exact_mod_cast hsplit
  rw [hinteger, add_sub_cancel_right, sub_lt_iff_lt_add]
  exact_mod_cast hbelow

def tenthPool : StakePool := { StakePool.zeroed with
  totalLamports := 1000, poolTokenSupply := 1000, epochFee := ⟨10, 1⟩ }

/-- A reward of a hundred on a thousand with a tenth for the manager: nine tokens for ten lamports. -/
theorem epoch_fee_rounding_tenth :
    (10 * (1000 + 9) : ℤ) - (1000 + 100 - 10) < 9 * (1000 + 100) ∧
      (9 * (1000 + 100) : ℤ) ≤ 10 * (1000 + 9) := by
  have hreward : 100 < 2 ^ 64 := by decide
  obtain ⟨fee, -, happly, -, hpart⟩ := epoch_fee_rounding (p := tenthPool) (by decide) (by decide)
    hreward (by decide) (by decide) (.inr (UInt64.le_iff_toNat_le.mpr (by decide)))
  have hten : tenthPool.epochFee.apply 100 = some 10 := by decide
  obtain rfl : fee = 10 := Option.some.inj (happly.symm.trans hten)
  obtain ⟨hbelow, hworth, -⟩ := (hpart (by decide)).1 9 (by decide)
  exact ⟨hbelow, by exact_mod_cast hworth⟩

end StakePoolFogo
