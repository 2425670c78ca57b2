import StakePoolFogo.Cli.Withdraw
import StakePoolFogo.JsLegacy.Addresses
import StakePoolFogo.Rounding

/-!
# What one validator has to give

Both clients compare the pool tokens of a withdrawal with the lamports of the account above its minimum,
converted to lamports once more.  The program compares lamports with lamports.
-/

open StakePoolFogo.Checked StakePoolFogo.Outcome

namespace StakePoolFogo

/-! ## Converting lamports as if they were tokens -/

section Convert

variable {supply total spare tokens : Nat}

/-- At a price of one token for one lamport, up to the spare lamports, nothing changes. -/
theorem convert_spare (hle : supply ≤ total) (hspare : spare * (total - supply) < supply) :
    spare * total / supply = spare := by
  have hsplit : spare * total = spare * supply + spare * (total - supply) := by
    rw [← Nat.mul_add, Nat.add_sub_cancel' hle]
  rw [hsplit]
  refine Nat.div_eq_of_lt_le ?_ ?_
  · omega
  · rw [Nat.add_one_mul]
    omega

theorem convert_mono (h : tokens ≤ spare) : tokens * total / supply ≤ spare * total / supply :=
  Nat.div_le_div_right (Nat.mul_le_mul_right _ h)

theorem le_convert (hsupply : 0 < supply) (hle : supply ≤ total) : tokens ≤ tokens * total / supply :=
  (Nat.le_div_iff_mul_le hsupply).mpr (Nat.mul_le_mul_left _ hle)

/-- Cheaper tokens are worth fewer lamports. -/
theorem convert_lt (hlt : total < supply) (hspare : 0 < spare) : spare * total / supply < spare :=
  (Nat.div_lt_iff_lt_mul (by omega)).mpr (Nat.mul_lt_mul_of_pos_left hlt hspare)

/-- With dearer tokens, the conversion exceeds the spare lamports sooner or later. -/
theorem lt_convert (hle : supply ≤ total) (hsupply : 0 < supply)
    (hspare : supply ≤ spare * (total - supply)) : spare < spare * total / supply := by
  have hsplit : spare * total = spare * supply + spare * (total - supply) := by
    rw [← Nat.mul_add, Nat.add_sub_cancel' hle]
  refine (Nat.le_div_iff_mul_le hsupply).mpr ?_
  rw [Nat.succ_mul, hsplit]
  omega

end Convert

/-! ## The program's check -/

/-- A withdrawal of `poolTokens` from an active validator's account with `account` lamports leaves the
minimum there. -/
def LeavesMinimum (sv : Sysvars) (p : StakePool) (l : ValidatorList) (info : StakeMeta)
    (account poolTokens : Nat) : Prop :=
  ∃ fee burnt lamports limits, p.calcPoolTokensStakeWithdrawalFee poolTokens = some fee ∧
    checkedSub poolTokens fee = some burnt ∧ p.calcLamportsWithdrawAmount burnt = some lamports ∧
    withdrawLimits sv p l info = .ok limits ∧ withdrawSize limits .active account lamports = .ok lamports

/-- A pool without a withdrawal fee or a preferred validator, and an active validator of it whose account
has lamports to spare. -/
structure SingleValidator (sv : Sysvars) (p : StakePool) (l : ValidatorList) (v : ValidatorStakeInfo)
    (info : StakeMeta) (account : Nat) : Prop where
  total : 0 < p.totalLamports
  issued : 0 < p.poolTokenSupply
  total_fits : p.totalLamports < 2 ^ 64
  account_fits : account < 2 ^ 64
  noFee : p.stakeWithdrawalFee.numerator = 0 ∨ p.stakeWithdrawalFee.denominator = 0
  notPreferred : p.preferredWithdrawValidatorVoteAddress = none
  found : l.find v.voteAccountAddress = some v
  active : v.status = StakeStatus.active.toPod
  spare : ∃ perToken, p.getLamportsPerPoolToken = some perToken ∧
    info.rentExemptReserve + minimumDelegation sv.stakeMinimumDelegation + perToken < account

/-- The lamports of an account above its minimum. -/
def spareLamports (sv : Sysvars) (info : StakeMeta) (account : Nat) : Nat :=
  account - info.rentExemptReserve - minimumDelegation sv.stakeMinimumDelegation

theorem minimumDelegation_pos (stakeProgramMinimumDelegation : Nat) :
    0 < minimumDelegation stakeProgramMinimumDelegation :=
  Nat.lt_of_lt_of_le (by decide) (Nat.le_max_right _ _)

section Program

variable {rt : Runtime} {sv : Sysvars} {pool : Pubkey} {p : StakePool} {l : ValidatorList}
  {v : ValidatorStakeInfo} {state : StakeStateV2} {info : StakeMeta} {account lamports poolTokens : Nat}

theorem Fee.apply_none {fee : Fee} (h : fee.numerator = 0 ∨ fee.denominator = 0) (amt : Nat) :
    fee.apply amt = some 0 := by
  unfold Fee.apply
  by_cases hden : fee.denominator = 0
  · exact if_pos hden
  · have hnum : fee.numerator.toNat = 0 := by
      rw [h.resolve_right hden]
      rfl
    have hpos : fee.denominator.toNat ≠ 0 := fun hzero => hden (UInt64.toNat_inj.mp hzero)
    have hlt := fee.denominator.toNat_lt
    have hmul : checkedMul 128 amt fee.numerator.toNat = some 0 := by
      rw [hnum]
      exact fits_of_lt (by omega)
    have hadd : checkedAdd 128 0 fee.denominator.toNat = some (0 + fee.denominator.toNat) :=
      fits_of_lt (by omega)
    have hsub : checkedSub (0 + fee.denominator.toNat) 1 = some (fee.denominator.toNat - 1) :=
      checkedSub_eq_some.mpr (by omega)
    have hdiv : checkedDiv (fee.denominator.toNat - 1) fee.denominator.toNat = some 0 :=
      checkedDiv_eq_some.mpr ⟨hpos, Nat.div_eq_of_lt (by omega)⟩
    rw [if_neg hden]
    simp only [hmul, hadd, hsub, hdiv, Option.bind_eq_bind, Option.bind_some]

/-- The price of a token, rounded up, is positive and at least the price of one rounded down. -/
theorem one_le_perToken {perToken : Nat} (htotal : 0 < p.totalLamports)
    (h : p.getLamportsPerPoolToken = some perToken) :
    0 < perToken ∧ 1 * p.totalLamports / p.poolTokenSupply ≤ perToken := by
  simp only [StakePool.getLamportsPerPoolToken, Option.bind_eq_bind, Option.bind_eq_some_iff,
    checkedAdd_eq_some, checkedSub_eq_some, checkedDiv_eq_some] at h
  obtain ⟨sum, ⟨hsum, -⟩, rest, hrest, hne, rfl⟩ := h
  refine ⟨Nat.div_pos (by omega) (by omega), Nat.div_le_div_right (by omega)⟩

namespace SingleValidator

variable (h : SingleValidator sv p l v info account)
include h

theorem required : minimumStakeLamports info sv.stakeMinimumDelegation =
    info.rentExemptReserve + minimumDelegation sv.stakeMinimumDelegation := by
  obtain ⟨perToken, -, hspare⟩ := h.spare
  have hfits := h.account_fits
  exact saturatingAdd_of_lt (by omega)

theorem limits : ∃ limits, withdrawLimits sv p l info = .ok limits ∧
    limits.required = info.rentExemptReserve + minimumDelegation sv.stakeMinimumDelegation := by
  obtain ⟨perToken, hperToken, -⟩ := h.spare
  rw [withdrawLimits, hperToken]
  exact ⟨_, rfl, h.required⟩

/-- Without a fee, what is worth no more than the spare lamports leaves the minimum. -/
theorem leavesMinimum_iff (htokens : poolTokens < 2 ^ 64) :
    LeavesMinimum sv p l info account poolTokens ↔
      poolTokens * p.totalLamports / p.poolTokenSupply ≤ spareLamports sv info account := by
  obtain ⟨perToken, -, hspare⟩ := h.spare
  have hspareLamports : spareLamports sv info account =
    account - info.rentExemptReserve - minimumDelegation sv.stakeMinimumDelegation := rfl
  have hfits := h.account_fits
  have hpos := minimumDelegation_pos sv.stakeMinimumDelegation
  have hfee : p.calcPoolTokensStakeWithdrawalFee poolTokens = some 0 := by
    rw [StakePool.calcPoolTokensStakeWithdrawalFee, Fee.apply_none h.noFee]
    rfl
  have hquote := StakePool.calcLamportsWithdrawAmount_eq htokens h.total_fits h.issued
  obtain ⟨limits, hlimits, hrequired⟩ := h.limits
  constructor
  · rintro ⟨fee, burnt, lamports, limits', hfee', hburnt, hlamports, hlimits', hsize⟩
    obtain rfl := Option.some.inj (hfee.symm.trans hfee')
    obtain rfl : poolTokens = burnt := checkedSub_eq_some.mp hburnt
    obtain rfl := Except.ok.inj (hlimits.symm.trans hlimits')
    rw [hquote] at hlamports
    obtain ⟨rfl, -⟩ := fits_eq_some.mp hlamports
    simp only [withdrawSize, bind_eq_ok, failIf_eq_ok, exists_unit] at hsize
    have henough := hsize.1
    omega
  · intro hle
    refine ⟨0, poolTokens, poolTokens * p.totalLamports / p.poolTokenSupply, limits, hfee,
      checkedSub_eq_some.mpr rfl, hquote.trans (fits_of_lt (by omega)), hlimits, ?_⟩
    rw [withdrawSize, failIf_neg (by omega)]
    rfl

theorem spareLamports_lt : spareLamports sv info account < 2 ^ 64 :=
  Nat.lt_of_le_of_lt (Nat.le_trans (Nat.sub_le _ _) (Nat.sub_le _ _)) h.account_fits

/-- A single token is worth less than what can be spared, and so is a single lamport. -/
theorem one_lt_spareLamports : 1 < spareLamports sv info account ∧
    1 * p.totalLamports / p.poolTokenSupply < spareLamports sv info account := by
  obtain ⟨perToken, hperToken, hspare⟩ := h.spare
  obtain ⟨hpos, hone⟩ := one_le_perToken h.total hperToken
  have hspareLamports : spareLamports sv info account =
    account - info.rentExemptReserve - minimumDelegation sv.stakeMinimumDelegation := rfl
  omega

/-- The command line accepts what its conversion of the spare lamports covers. -/
theorem cli_iff {read : Pubkey → Option Nat}
    (hread : read (findStakeProgramAddress rt v.voteAccountAddress pool v.validatorSeedSuffix).1 = some account) :
    (∃ accounts, Cli.validatorSource rt ⟨sv.stakeMinimumDelegation, info.rentExemptReserve, read⟩ p pool l
      v.voteAccountAddress poolTokens = .ok accounts) ↔
      spareLamports sv info account * p.totalLamports / p.poolTokenSupply < 2 ^ 64 ∧
        poolTokens ≤ spareLamports sv info account * p.totalLamports / p.poolTokenSupply := by
  have hspare : account - minimumDelegation sv.stakeMinimumDelegation - info.rentExemptReserve =
      spareLamports sv info account := Nat.sub_right_comm ..
  have hquote := StakePool.calcLamportsWithdrawAmount_eq h.spareLamports_lt h.total_fits h.issued
  simp only [Cli.validatorSource, h.found, okOr_some, ok_bind, hread, hspare, hquote, bind_eq_ok, okOr_eq_ok,
    fits_eq_some, failIf_eq_ok, exists_unit, pure_eq_ok]
  constructor
  · rintro ⟨accounts, available, ⟨rfl, hlt⟩, hle, -⟩
    exact ⟨hlt, Nat.not_lt.mp hle⟩
  · rintro ⟨hlt, hle⟩
    exact ⟨_, _, ⟨rfl, hlt⟩, Nat.not_lt.mpr hle, rfl⟩

omit h in
theorem js_quote (hissued : 0 < p.poolTokenSupply) (minimum : Nat) :
    JsLegacy.calcLamportsWithdrawAmount (.ofPool p) ((account : Int) - minimum - info.rentExemptReserve) =
      some (((account - info.rentExemptReserve - minimum) * p.totalLamports / p.poolTokenSupply : Nat) : Int) := by
  have hne : p.poolTokenSupply ≠ 0 := Nat.ne_of_gt hissued
  change (if _ * (p.totalLamports : Int) < (p.poolTokenSupply : Int) then some 0
    else if p.poolTokenSupply = 0 then none else _) = _
  by_cases hle : info.rentExemptReserve + minimum ≤ account
  · have hcast : (account : Int) - minimum - info.rentExemptReserve =
        ((account - info.rentExemptReserve - minimum : Nat) : Int) := by omega
    rw [hcast]
    generalize account - info.rentExemptReserve - minimum = spare
    by_cases hsmall : spare * p.totalLamports < p.poolTokenSupply
    · rw [if_pos (by exact_mod_cast hsmall), Nat.div_eq_of_lt hsmall]
      rfl
    · rw [if_neg (by exact_mod_cast hsmall), if_neg hne]
      rfl
  · -- A negative balance is worth nothing.
    have hnegative : ((account : Int) - minimum - info.rentExemptReserve) * p.totalLamports ≤ 0 :=
      Int.mul_nonpos_of_nonpos_of_nonneg (by omega) (Int.natCast_nonneg _)
    have hzero : account - info.rentExemptReserve - minimum = 0 := by omega
    rw [if_pos (by omega), hzero, Nat.zero_mul, Nat.zero_div]
    rfl

/-- JavaScript reads the account without a seed and keeps its own minimum there. -/
theorem js_iff {read : Pubkey → Option Nat} {checkAvailable : Bool}
    (hread : read (findStakeProgramAddress rt v.voteAccountAddress pool v.validatorSeedSuffix).1 = some account) :
    (∃ source, JsLegacy.validatorSource rt rt.programId ⟨info.rentExemptReserve, read⟩ (.ofPool p) pool
        v.voteAccountAddress poolTokens checkAvailable = some source ∧ source.stakeAddress =
          (findStakeProgramAddress rt v.voteAccountAddress pool v.validatorSeedSuffix).1) ↔
      (findStakeProgramAddress rt v.voteAccountAddress pool 0).1 =
        (findStakeProgramAddress rt v.voteAccountAddress pool v.validatorSeedSuffix).1 ∧
      JsLegacy.IsSafe ((account : Int) - JsLegacy.minimumActiveStake - info.rentExemptReserve) ∧
      (checkAvailable = true → info.rentExemptReserve + JsLegacy.minimumActiveStake ≤ account) ∧
      poolTokens ≤ (account - info.rentExemptReserve - JsLegacy.minimumActiveStake) * p.totalLamports /
        p.poolTokenSupply := by
  simp only [JsLegacy.validatorSource, JsLegacy.findStakeProgramAddress_none, Option.bind_eq_bind,
    Option.bind_some, Option.bind_eq_some_iff, Option.guard_eq_some', exists_const, Option.pure_def,
    Option.some_inj]
  constructor
  · rintro ⟨source, ⟨lamports, hlamports, hsafe, hcheck, available, havailable, hle, rfl⟩, haddress⟩
    have haddress : (findStakeProgramAddress rt v.voteAccountAddress pool 0).1 =
      (findStakeProgramAddress rt v.voteAccountAddress pool v.validatorSeedSuffix).1 := haddress
    rw [haddress, hread] at hlamports
    obtain rfl := Option.some.inj hlamports
    rw [js_quote h.issued] at havailable
    obtain rfl := Option.some.inj havailable
    refine ⟨haddress, hsafe, fun hset => ?_, Int.ofNat_le.mp hle⟩
    have hnonneg := hcheck hset
    omega
  · rintro ⟨haddress, hsafe, hcheck, hle⟩
    rw [haddress, hread]
    refine ⟨_, ⟨account, rfl, hsafe, fun hset => ?_, _, js_quote h.issued _, Int.ofNat_le.mpr hle, rfl⟩, rfl⟩
    have hnonneg := hcheck hset
    omega

end SingleValidator

/-! ## When the checks agree -/

section Agreement

variable (rt : Runtime) (sv : Sysvars) (pool : Pubkey) (p : StakePool) (l : ValidatorList)
  (v : ValidatorStakeInfo) (info : StakeMeta) (account : Nat) (read : Pubkey → Option Nat)

/-- What the command line accepts leaves the minimum. -/
def CliSound : Prop :=
  ∀ poolTokens < 2 ^ 64, ∀ accounts,
    Cli.validatorSource rt ⟨sv.stakeMinimumDelegation, info.rentExemptReserve, read⟩ p pool l
      v.voteAccountAddress poolTokens = .ok accounts →
    LeavesMinimum sv p l info account poolTokens

/-- The command line accepts what leaves the minimum. -/
def CliComplete : Prop :=
  ∀ poolTokens < 2 ^ 64, 1 ≤ poolTokens → ∀ lamports, p.calcLamportsWithdrawAmount poolTokens = some lamports →
    info.rentExemptReserve + minimumDelegation sv.stakeMinimumDelegation + lamports ≤ account →
    ∃ accounts, Cli.validatorSource rt ⟨sv.stakeMinimumDelegation, info.rentExemptReserve, read⟩ p pool l
      v.voteAccountAddress poolTokens = .ok accounts

/-- What JavaScript accepts for this account, for a delegated receiver or not, leaves the minimum. -/
def JsSound : Prop :=
  ∀ poolTokens < 2 ^ 64, ∀ checkAvailable source,
    JsLegacy.validatorSource rt rt.programId ⟨info.rentExemptReserve, read⟩ (.ofPool p) pool
      v.voteAccountAddress poolTokens checkAvailable = some source →
    source.stakeAddress = (findStakeProgramAddress rt v.voteAccountAddress pool v.validatorSeedSuffix).1 →
    LeavesMinimum sv p l info account poolTokens

/-- A token is worth a lamport up to the spare lamports, and JavaScript, where it reads the account and a
number holds what it finds there, keeps at least the minimum. -/
structure PriceOne : Prop where
  notCheaper : p.poolTokenSupply ≤ p.totalLamports
  notDearer : spareLamports sv info account * (p.totalLamports - p.poolTokenSupply) < p.poolTokenSupply
  js : (findStakeProgramAddress rt v.voteAccountAddress pool 0).1 =
      (findStakeProgramAddress rt v.voteAccountAddress pool v.validatorSeedSuffix).1 →
    JsLegacy.IsSafe ((account : Int) - JsLegacy.minimumActiveStake - info.rentExemptReserve) →
    minimumDelegation sv.stakeMinimumDelegation ≤ JsLegacy.minimumActiveStake

variable {rt sv pool p l v info account read}

namespace PriceOne

variable (h : SingleValidator sv p l v info account) (hprice : PriceOne rt sv pool p v info account)
  (hread : read (findStakeProgramAddress rt v.voteAccountAddress pool v.validatorSeedSuffix).1 = some account)
include h hprice hread

omit hread in
/-- What is worth no more than the spare lamports is no more than they are, and the other way round. -/
theorem quote_le_iff {poolTokens : Nat} :
    poolTokens * p.totalLamports / p.poolTokenSupply ≤ spareLamports sv info account ↔
      poolTokens ≤ spareLamports sv info account := by
  have hspare := convert_spare hprice.notCheaper hprice.notDearer
  constructor
  · exact fun hle => Nat.le_trans (le_convert h.issued hprice.notCheaper) hle
  · intro hle
    rw [← hspare]
    exact convert_mono hle

theorem cliSound : CliSound rt sv pool p l v info account read := by
  intro poolTokens htokens accounts haccounts
  obtain ⟨-, hle⟩ := (h.cli_iff hread).mp ⟨accounts, haccounts⟩
  rw [convert_spare hprice.notCheaper hprice.notDearer] at hle
  exact (h.leavesMinimum_iff htokens).mpr ((hprice.quote_le_iff h).mpr hle)

theorem cliComplete : CliComplete rt sv pool p l v info account read := by
  intro poolTokens htokens hpos lamports hlamports henough
  rw [StakePool.calcLamportsWithdrawAmount_eq htokens h.total_fits h.issued] at hlamports
  obtain ⟨rfl, -⟩ := fits_eq_some.mp hlamports
  have hle : poolTokens * p.totalLamports / p.poolTokenSupply ≤ spareLamports sv info account := by
    unfold spareLamports
    omega
  rw [h.cli_iff hread, convert_spare hprice.notCheaper hprice.notDearer]
  exact ⟨h.spareLamports_lt, (hprice.quote_le_iff h).mp hle⟩

theorem jsSound : JsSound rt sv pool p l v info account read := by
  intro poolTokens htokens checkAvailable source hsource haddress
  obtain ⟨hsame, hsafe, -, hle⟩ := (h.js_iff hread).mp ⟨source, hsource, haddress⟩
  have hminimum := hprice.js hsame hsafe
  have hspare : account - info.rentExemptReserve - JsLegacy.minimumActiveStake ≤
      spareLamports sv info account := by
    unfold spareLamports
    omega
  rw [h.leavesMinimum_iff htokens, hprice.quote_le_iff h]
  calc poolTokens ≤ (account - info.rentExemptReserve - JsLegacy.minimumActiveStake) * p.totalLamports /
        p.poolTokenSupply := hle
    _ ≤ spareLamports sv info account * p.totalLamports / p.poolTokenSupply := convert_mono hspare
    _ = spareLamports sv info account := convert_spare hprice.notCheaper hprice.notDearer

end PriceOne

section Boundary

variable (h : SingleValidator sv p l v info account)
  (hread : read (findStakeProgramAddress rt v.voteAccountAddress pool v.validatorSeedSuffix).1 = some account)
include h hread

/-- As many tokens as spare lamports are worth less than these where tokens are cheap. -/
theorem CliComplete.notCheaper (hcomplete : CliComplete rt sv pool p l v info account read) :
    p.poolTokenSupply ≤ p.totalLamports := by
  by_contra hlt
  have hone := h.one_lt_spareLamports.1
  have hfits := h.spareLamports_lt
  have hless : spareLamports sv info account * p.totalLamports / p.poolTokenSupply <
    spareLamports sv info account := convert_lt (by omega) (by omega)
  have hquote := StakePool.calcLamportsWithdrawAmount_eq hfits h.total_fits h.issued
  have hspare : spareLamports sv info account =
    account - info.rentExemptReserve - minimumDelegation sv.stakeMinimumDelegation := rfl
  have haccepted := hcomplete _ hfits (by omega) _ (hquote.trans (fits_of_lt (by omega))) (by omega)
  have hle := ((h.cli_iff hread).mp haccepted).2
  omega

/-- The largest amount the command line accepts is worth too much where tokens are dear. -/
theorem CliSound.notDearer (hsound : CliSound rt sv pool p l v info account read)
    (hcomplete : CliComplete rt sv pool p l v info account read)
    (hle : p.poolTokenSupply ≤ p.totalLamports) :
    spareLamports sv info account * (p.totalLamports - p.poolTokenSupply) < p.poolTokenSupply := by
  by_contra hge
  have hmore := lt_convert hle h.issued (Nat.not_lt.mp hge)
  obtain ⟨hone, hworth⟩ := h.one_lt_spareLamports
  have hfits := h.spareLamports_lt
  have hspare : spareLamports sv info account =
    account - info.rentExemptReserve - minimumDelegation sv.stakeMinimumDelegation := rfl
  -- A single token leaves the minimum, so the conversion has not overflowed.
  have hquote := StakePool.calcLamportsWithdrawAmount_eq (p := p) (by decide : 1 < 2 ^ 64) h.total_fits h.issued
  obtain ⟨hsmall, -⟩ := (h.cli_iff hread).mp
    (hcomplete 1 (by decide) (Nat.le_refl 1) _ (hquote.trans (fits_of_lt (by omega))) (by omega))
  obtain ⟨accounts, haccounts⟩ := (h.cli_iff hread).mpr ⟨hsmall, Nat.le_refl _⟩
  have hleaves := (h.leavesMinimum_iff hsmall).mp (hsound _ hsmall accounts haccounts)
  have hconvert : _ ≤ spareLamports sv info account * p.totalLamports / p.poolTokenSupply * p.totalLamports /
    p.poolTokenSupply := le_convert h.issued hle
  omega

/-- With a smaller minimum, JavaScript accepts one lamport more than there is to spare. -/
theorem JsSound.minimum_le (hsound : JsSound rt sv pool p l v info account read)
    (hle : p.poolTokenSupply ≤ p.totalLamports)
    (hsame : (findStakeProgramAddress rt v.voteAccountAddress pool 0).1 =
      (findStakeProgramAddress rt v.voteAccountAddress pool v.validatorSeedSuffix).1)
    (hsafe : JsLegacy.IsSafe ((account : Int) - JsLegacy.minimumActiveStake - info.rentExemptReserve)) :
    minimumDelegation sv.stakeMinimumDelegation ≤ JsLegacy.minimumActiveStake := by
  by_contra hlt
  have hone := h.one_lt_spareLamports.1
  have haccount := h.account_fits
  have hspare : spareLamports sv info account =
    account - info.rentExemptReserve - minimumDelegation sv.stakeMinimumDelegation := rfl
  have hmore : spareLamports sv info account + 1 ≤
      account - info.rentExemptReserve - JsLegacy.minimumActiveStake := by omega
  have hfits : spareLamports sv info account + 1 < 2 ^ 64 := by omega
  obtain ⟨source, hsource, haddress⟩ := (h.js_iff hread).mpr
    ⟨hsame, hsafe, fun (_ : true = true) => by omega, Nat.le_trans hmore (le_convert h.issued hle)⟩
  have hleaves := (h.leavesMinimum_iff hfits).mp (hsound _ hfits true source hsource haddress)
  have hconvert : _ ≤ (spareLamports sv info account + 1) * p.totalLamports / p.poolTokenSupply :=
    le_convert h.issued hle
  omega

end Boundary

/-- The clients' checks agree with the program's exactly where the conversion changes nothing. -/
theorem availability_iff (h : SingleValidator sv p l v info account)
    (hread : read (findStakeProgramAddress rt v.voteAccountAddress pool v.validatorSeedSuffix).1 = some account) :
    (CliSound rt sv pool p l v info account read ∧ CliComplete rt sv pool p l v info account read ∧
      JsSound rt sv pool p l v info account read) ↔ PriceOne rt sv pool p v info account := by
  constructor
  · rintro ⟨hsound, hcomplete, hjs⟩
    have hle := hcomplete.notCheaper h hread
    exact ⟨hle, hsound.notDearer h hread hcomplete hle, hjs.minimum_le h hread hle⟩
  · intro hprice
    exact ⟨hprice.cliSound h hread, hprice.cliComplete h hread, hprice.jsSound h hread⟩

end Agreement

end Program

section Example

open Reference

def soleEntry : ValidatorStakeInfo where
  activeStakeLamports := 1003282880
  transientStakeLamports := 0
  lastUpdateEpoch := 9
  transientSeedSuffix := 0
  unused := 0
  validatorSeedSuffix := 0
  status := StakeStatus.active.toPod
  voteAccountAddress := key 70

def soleList : ValidatorList := ⟨⟨.validatorList, 10⟩, [soleEntry]⟩

/-- Ten thousand million tokens. -/
def pricedPool (totalLamports : Nat) : StakePool :=
  { StakePool.zeroed with totalLamports, poolTokenSupply := 10000000000 }

/-- A thousand million lamports above the minimum. -/
def soleAccount (_ : Pubkey) : Option Nat := some 1003282880

theorem freshPool_single :
    SingleValidator (sysvars 9) (pricedPool 10000000000) soleList soleEntry poolMeta 1003282880 where
  total := by decide
  issued := by decide
  total_fits := by decide
  account_fits := by decide
  noFee := .inl rfl
  notPreferred := rfl
  found := rfl
  active := rfl
  spare := ⟨1, by decide, by decide⟩

theorem rewardedPool_single :
    SingleValidator (sysvars 9) (pricedPool 20000000000) soleList soleEntry poolMeta 1003282880 where
  total := by decide
  issued := by decide
  total_fits := by decide
  account_fits := by decide
  noFee := .inl rfl
  notPreferred := rfl
  found := rfl
  active := rfl
  spare := ⟨2, by decide, by decide⟩

/-- At a price of one, the checks agree. -/
theorem availability_fresh :
    CliSound runtime (sysvars 9) pool (pricedPool 10000000000) soleList soleEntry poolMeta 1003282880
        soleAccount ∧
      CliComplete runtime (sysvars 9) pool (pricedPool 10000000000) soleList soleEntry poolMeta 1003282880
        soleAccount ∧
      JsSound runtime (sysvars 9) pool (pricedPool 10000000000) soleList soleEntry poolMeta 1003282880
        soleAccount :=
  (availability_iff freshPool_single rfl).mpr ⟨by decide, by decide, fun _ => by decide⟩

/-- At a price of two, the command line accepts 1500000000 tokens, worth three times the spare lamports. -/
theorem availability_rewarded :
    (∃ accounts, Cli.validatorSource runtime ⟨1000000, 2282880, soleAccount⟩ (pricedPool 20000000000) pool
        soleList (key 70) 1500000000 = .ok accounts) ∧
      ¬ LeavesMinimum (sysvars 9) (pricedPool 20000000000) soleList poolMeta 1003282880 1500000000 ∧
      ¬ CliSound runtime (sysvars 9) pool (pricedPool 20000000000) soleList soleEntry poolMeta 1003282880
        soleAccount := by
  have haccepts : ∃ accounts, Cli.validatorSource runtime ⟨1000000, 2282880, soleAccount⟩
      (pricedPool 20000000000) pool soleList (key 70) 1500000000 = .ok accounts :=
    (rewardedPool_single.cli_iff rfl).mpr ⟨by decide, by decide⟩
  have hkeeps : ¬ LeavesMinimum (sysvars 9) (pricedPool 20000000000) soleList poolMeta 1003282880 1500000000 := by
    rw [rewardedPool_single.leavesMinimum_iff (by decide)]
    decide
  refine ⟨haccepts, hkeeps, fun hsound => ?_⟩
  obtain ⟨accounts, haccounts⟩ := haccepts
  exact hkeeps (hsound 1500000000 (by decide) accounts haccounts)

end Example

end StakePoolFogo
