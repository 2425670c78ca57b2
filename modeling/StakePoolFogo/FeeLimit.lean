import StakePoolFogo.World

/-!
# How fast withdrawal fees can grow

A withdrawal fee waits two epoch boundaries before it takes effect, and `SetFee` compares it with the
fee in force when it is announced.  The fee in force cannot change while another one waits, so the
comparison still holds when the new fee takes effect, provided that it was made: where its right side
does not fit in 128 bits, `checkWithdrawal` accepts any fee.
-/

open StakePoolFogo.Checked StakePoolFogo.Outcome

namespace StakePoolFogo

namespace Fee

/-- The right side of the comparison: the new numerator times the old denominator, doubled. -/
def increase (old fee : Fee) : Nat :=
  2 * fee.numerator.toNat * (referenceFee old).denominator.toNat

/-- The left side. -/
def limit (old fee : Fee) : Nat :=
  3 * (referenceFee old).numerator.toNat * fee.denominator.toNat

/-- `fee` is at most one and a half times the fee it replaces. -/
def Allows (old fee : Fee) : Prop := increase old fee ≤ limit old fee

/-- A product of two machine words fits in 128 bits. -/
theorem mul_fits (a b : UInt64) : a.toNat * b.toNat < 2 ^ 128 := by
  have ha : a.toNat ≤ 2 ^ 64 - 1 := by have := a.toNat_lt; omega
  have hb : b.toNat ≤ 2 ^ 64 - 1 := by have := b.toNat_lt; omega
  exact Nat.lt_of_le_of_lt (Nat.mul_le_mul ha hb) (by decide)

theorem checkWithdrawal_eq (fee old : Fee) : checkWithdrawal fee old =
    failIf (optionLt (fits 128 (limit old fee)) (fits 128 (increase old fee)) = true)
      .feeIncreaseTooHigh := by
  have hleft : (referenceFee old).numerator.toNat * fee.denominator.toNat *
      maxWithdrawalFeeIncrease.numerator.toNat = limit old fee := by
    show _ * _ * 3 = _
    rw [limit, Nat.mul_comm, Nat.mul_assoc]
  have hright : fee.numerator.toNat * (referenceFee old).denominator.toNat *
      maxWithdrawalFeeIncrease.denominator.toNat = increase old fee := by
    show _ * _ * 2 = _
    rw [increase, Nat.mul_comm, Nat.mul_assoc]
  simp only [checkWithdrawal, checkedMul, fits_of_lt (mul_fits _ _), Option.map_some, okOr, hleft,
    hright]
  rfl

/-- What the check accepts: the fees within the limit, and every fee whose right side overflows. -/
theorem checkWithdrawal_eq_ok {fee old : Fee} : checkWithdrawal fee old = .ok () ↔
    2 ^ 128 ≤ increase old fee ∨ Allows old fee ∧ limit old fee < 2 ^ 128 := by
  rw [checkWithdrawal_eq, failIf_eq_ok]
  by_cases hright : increase old fee < 2 ^ 128
  · rw [fits_of_lt hright]
    by_cases hleft : limit old fee < 2 ^ 128
    · rw [fits_of_lt hleft]
      simp only [optionLt, Allows, decide_eq_true_eq]
      omega
    · rw [fits_eq_none.mpr (Nat.le_of_not_lt hleft)]
      simp only [optionLt, not_true, false_iff]
      omega
  · have hnone := fits_eq_none.mpr (Nat.le_of_not_lt hright)
    rw [hnone]
    have haccept : ¬ optionLt (fits 128 (limit old fee)) none = true := by
      cases fits 128 (limit old fee) <;> simp [optionLt]
    exact iff_of_true haccept (Or.inl (Nat.le_of_not_lt hright))

end Fee

/-- Fees that wait are within the limit of the fees in force. -/
structure StakePool.PendingAllowed (p : StakePool) : Prop where
  stake : ∀ fee, p.nextStakeWithdrawalFee.pending = some fee → p.stakeWithdrawalFee.Allows fee
  sol : ∀ fee, p.nextSolWithdrawalFee.pending = some fee → p.solWithdrawalFee.Allows fee

/-- The fees in force changed within the limit. -/
structure StakePool.RateLimited (p p' : StakePool) : Prop where
  stake : p'.stakeWithdrawalFee ≠ p.stakeWithdrawalFee →
    p.stakeWithdrawalFee.Allows p'.stakeWithdrawalFee
  sol : p'.solWithdrawalFee ≠ p.solWithdrawalFee → p.solWithdrawalFee.Allows p'.solWithdrawalFee

/-- The comparison for a new withdrawal fee does not overflow on its right side. -/
def StakePool.Compares (p : StakePool) : FeeType → Prop
  | .stakeWithdrawal fee => p.stakeWithdrawalFee.increase fee < 2 ^ 128
  | .solWithdrawal fee => p.solWithdrawalFee.increase fee < 2 ^ 128
  | _ => True

theorem StakePool.RateLimited.refl (p : StakePool) : p.RateLimited p :=
  ⟨fun h => absurd rfl h, fun h => absurd rfl h⟩

/-! ## One step -/

/-- Of a fee in force and a fee that waits, one epoch boundary later. -/
theorem FutureEpoch.advance_allowed {fee : Fee} {next : FutureEpoch Fee}
    (h : ∀ f, next.pending = some f → fee.Allows f) :
    (∀ f, next.updateEpoch.pending = some f → (next.get.getD fee).Allows f) ∧
      (next.get.getD fee ≠ fee → fee.Allows (next.get.getD fee)) := by
  cases next with
  | none => exact ⟨fun f hf => (nomatch hf), fun hne => absurd rfl hne⟩
  | one f => exact ⟨fun f hf => (nomatch hf), fun _ => h f rfl⟩
  | two f => exact ⟨h, fun hne => absurd rfl hne⟩

theorem StakePool.PendingAllowed.advanceEpoch {p : StakePool} (h : p.PendingAllowed)
    (epoch : Epoch) : (p.advanceEpoch epoch).PendingAllowed ∧ p.RateLimited (p.advanceEpoch epoch) := by
  unfold StakePool.advanceEpoch
  split
  · obtain ⟨hstake, hstake'⟩ := FutureEpoch.advance_allowed h.stake
    obtain ⟨hsol, hsol'⟩ := FutureEpoch.advance_allowed h.sol
    exact ⟨⟨hstake, hsol⟩, ⟨hstake', hsol'⟩⟩
  · exact ⟨h, .refl p⟩

theorem StakePool.PendingAllowed.updateFee {p p' : StakePool} {fee : FeeType}
    (h : p.PendingAllowed) (hfit : p.Compares fee) (hu : p.updateFee fee = .ok p') :
    p'.PendingAllowed ∧ p.RateLimited p' := by
  have hnew : ∀ {old new : Fee}, new.checkWithdrawal old = .ok () → old.increase new < 2 ^ 128 →
      ∀ f, (FutureEpoch.new new).pending = some f → old.Allows f := by
    intro old new hcheck hlt f hf
    obtain rfl := Option.some.inj hf
    rcases Fee.checkWithdrawal_eq_ok.mp hcheck with hover | ⟨hallows, -⟩
    · exact absurd hover (Nat.not_le.mpr hlt)
    · exact hallows
  have hsame : ∀ {q : StakePool}, q.stakeWithdrawalFee = p.stakeWithdrawalFee →
      q.solWithdrawalFee = p.solWithdrawalFee → p.RateLimited q :=
    fun hstake hsol => ⟨fun hne => absurd hstake hne, fun hne => absurd hsol hne⟩
  cases fee with
  | stakeWithdrawal new =>
    simp only [StakePool.updateFee, bind_eq_ok, exists_unit, pure_eq_ok] at hu
    obtain ⟨hcheck, rfl⟩ := hu
    exact ⟨⟨hnew hcheck hfit, h.sol⟩, hsame rfl rfl⟩
  | solWithdrawal new =>
    simp only [StakePool.updateFee, bind_eq_ok, exists_unit, pure_eq_ok] at hu
    obtain ⟨hcheck, rfl⟩ := hu
    exact ⟨⟨h.stake, hnew hcheck hfit⟩, hsame rfl rfl⟩
  | solReferral | stakeReferral | epoch | solDeposit | stakeDeposit =>
    cases hu
    exact ⟨⟨h.stake, h.sol⟩, hsame rfl rfl⟩

/-! ## Runs -/

/-- `Initialize`, `SetFee` and `UpdateStakePoolBalance`, on any pool and at any epoch, where every
`SetFee` satisfies `guard` in the state before it. -/
inductive FeeMove (rt : Runtime) (guard : StakePool → FeeType → Prop) (s s' : World) : Prop where
  | initializePool {accounts : List AccountMeta} {epochFee withdrawalFee depositFee : Fee}
      {referralFee : UInt8} {maxValidators : UInt32} (executes : Executes rt accounts
        (.initializePool epochFee withdrawalFee depositFee referralFee maxValidators) s s')
  | setFee {accounts : List AccountMeta} {fee : FeeType}
      (allowed : ∀ a p, accounts[0]? = some a → PoolAt rt s.ledger a.key p → guard p fee)
      (executes : Executes rt accounts (.setFee fee) s s')
  | update {accounts : List AccountMeta}
      (executes : Executes rt accounts .updateStakePoolBalance s s')
  | elsewhere (step : Elsewhere rt s s')

/-- Every pool's waiting fees are within the limit. -/
structure FeesSound (rt : Runtime) (w : Ledger) : Prop where
  registry : Registry rt w
  pending : ∀ {k p}, PoolAt rt w k p → p.PendingAllowed

variable {rt : Runtime} {guard : StakePool → FeeType → Prop} {s s' s₀ : World} {k : Pubkey}
  {p p' : StakePool}

/-- What one step does to the fees of one pool: a new pool has none waiting, the others keep to the
limit. -/
theorem FeeMove.pool (laws : ProgramLaws rt) (h : FeeMove rt StakePool.Compares s s')
    (hs : FeesSound rt s.ledger) (hp' : PoolAt rt s'.ledger k p') :
    p'.PendingAllowed ∧ ∀ p, PoolAt rt s.ledger k p → p.RateLimited p' := by
  -- A pool the step leaves alone.
  have hkept : PoolAt rt s.ledger k p' →
      p'.PendingAllowed ∧ ∀ p, PoolAt rt s.ledger k p → p.RateLimited p' := by
    intro hp
    refine ⟨hs.pending hp, fun q hq => ?_⟩
    obtain rfl := hq.unique hp
    exact .refl q
  cases h with
  | elsewhere step => exact hkept (step.ownFrame.poolAt_before hp' id)
  | initializePool executes =>
    obtain ⟨r⟩ := processInitialize_run rt _ executes.run
    by_cases hk : k = r.pool.key
    · subst hk
      have hf := r.founded laws
      obtain rfl := hp'.unique hf.pool
      exact ⟨⟨fun fee hfee => (nomatch hfee), fun fee hfee => nomatch hfee⟩,
        fun q hq => absurd hq (hf.newPool q)⟩
    · exact hkept (((processInstruction_handled executes.run).record laws hs.registry).poolAt_before
        r.pool_at hk hp')
  | setFee allowed executes =>
    obtain ⟨r⟩ := processSetFee_run rt _ executes.run
    by_cases hk : k = r.pool.key
    · subst hk
      obtain ⟨l, hl⟩ := hs.registry.hasList r.isPool
      have heffect : BookEffect rt s.sysvars _ _ _ _ _ _ _ _ := r.effect laws r.pool_at r.isPool hl
      obtain rfl := hp'.unique heffect.own.after
      obtain ⟨hpending, hlimited⟩ := (hs.pending r.isPool).updateFee
        (allowed _ _ r.pool_at r.isPool) r.update
      refine ⟨hpending, fun q hq => ?_⟩
      obtain rfl := hq.unique r.isPool
      exact hlimited
    · exact hkept (((processInstruction_handled executes.run).record laws hs.registry).poolAt_before
        r.pool_at hk hp')
  | update executes =>
    obtain ⟨r⟩ := (processUpdateStakePoolBalance_run rt _).mp executes.run
    by_cases hk : k = r.pool.key
    · subst hk
      obtain ⟨l, hl⟩ := hs.registry.hasList r.isPool
      obtain rfl := hp'.unique (r.effect laws r.pool_at r.isPool hl).own.after
      obtain ⟨hpending, hlimited⟩ := (hs.pending r.isPool).advanceEpoch s.sysvars.epoch
      refine ⟨⟨hpending.stake, hpending.sol⟩, fun q hq => ?_⟩
      obtain rfl := hq.unique r.isPool
      exact ⟨hlimited.stake, hlimited.sol⟩
    · exact hkept (((processInstruction_handled executes.run).record laws hs.registry).poolAt_before
        r.pool_at hk hp')

theorem FeeMove.sound (laws : ProgramLaws rt) (h : FeeMove rt StakePool.Compares s s')
    (hs : FeesSound rt s.ledger) : FeesSound rt s'.ledger := by
  refine ⟨?_, fun hp' => (h.pool laws hs hp').1⟩
  cases h with
  | elsewhere step => exact hs.registry.of_ownFrame step.ownFrame
  | initializePool executes | setFee _ executes | update executes =>
    exact ((processInstruction_handled executes.run).record laws hs.registry).registry hs.registry

theorem FeeMove.run_sound (laws : ProgramLaws rt) (h₀ : Untouched rt s₀)
    (hrun : Relation.ReflTransGen (FeeMove rt StakePool.Compares) s₀ s) : FeesSound rt s.ledger := by
  induction hrun with
  | refl =>
    refine ⟨h₀.registry, fun {k p} hp => ?_⟩
    have hdata := h₀ k hp.owner
    rw [hp.data] at hdata
    cases hdata
  | tail _ hmove ih => exact hmove.sound laws ih

/-- In every run whose `SetFee` instructions do not overflow the comparison, a withdrawal fee in force
changes only to a fee at most one and a half times as high. -/
theorem withdrawal_fee_rate_limit (laws : ProgramLaws rt) (h₀ : Untouched rt s₀)
    (hrun : Relation.ReflTransGen (FeeMove rt StakePool.Compares) s₀ s)
    (hstep : FeeMove rt StakePool.Compares s s') (hp : PoolAt rt s.ledger k p)
    (hp' : PoolAt rt s'.ledger k p') : p.RateLimited p' :=
  (hstep.pool laws (FeeMove.run_sound laws h₀ hrun) hp').2 p hp

namespace Reference

def updateAccounts : List AccountMeta :=
  [writes pool, reads withdrawAuthority, reads validatorList, reads reserve, writes managerFee,
    writes mint, reads splTokenId]

/-- The founded pool after `SetFee` and two updates in the next epochs; `last` is the world before the
second one. -/
def announced (fee : Fee) : World :=
  founded.execute runtime [writes pool, signs manager] (.setFee (.stakeWithdrawal fee))

def waiting (fee : Fee) : World :=
  ((announced fee).atEpoch 1).execute runtime updateAccounts .updateStakePoolBalance

def inForce (fee : Fee) : World :=
  ((waiting fee).atEpoch 2).execute runtime updateAccounts .updateStakePoolBalance

/-- A fee of one hundred per cent. -/
def wholeFee : Fee := { numerator := 0xFFFFFFFFFFFFFFFF, denominator := 0xFFFFFFFFFFFFFFFF }

/-- The run up to the second update. -/
theorem fee_run {guard : StakePool → FeeType → Prop} {fee : Fee}
    (hguard : ∀ p, PoolAt runtime founded.ledger pool p → guard p (.stakeWithdrawal fee))
    (hset : succeeded (processInstruction runtime founded.sysvars [writes pool, signs manager]
      (.setFee (.stakeWithdrawal fee)) founded.ledger) = true)
    (hupdate : succeeded (processInstruction runtime ((announced fee).atEpoch 1).sysvars updateAccounts
      .updateStakePoolBalance ((announced fee).atEpoch 1).ledger) = true) :
    Relation.ReflTransGen (FeeMove runtime guard) genesisWorld ((waiting fee).atEpoch 2) := by
  have hfirst : FeeMove runtime guard genesisWorld founded := .initializePool founded_executes
  have hsecond : FeeMove runtime guard founded (announced fee) := by
    refine .setFee (fun a p ha hp => ?_) (.of_succeeded hset)
    obtain rfl : writes pool = a := Option.some.inj ha
    exact hguard p hp
  have hthird : FeeMove runtime guard ((announced fee).atEpoch 1) (waiting fee) :=
    .update (.of_succeeded hupdate)
  exact ((((Relation.ReflTransGen.single hfirst).tail hsecond).tail
    (.elsewhere (.atEpoch _ 1 _))).tail hthird).tail (.elsewhere (.atEpoch _ 2 _))

end Reference

open Reference in
/-- From `1 / 2⁶⁴ - 1` to one hundred per cent in one go. -/
theorem withdrawal_fee_overflow_accepted : ∃ p p' : StakePool, Untouched runtime genesisWorld ∧
    Relation.ReflTransGen (FeeMove runtime fun _ _ => True) genesisWorld
      ((waiting wholeFee).atEpoch 2) ∧
    FeeMove runtime (fun _ _ => True) ((waiting wholeFee).atEpoch 2) (inForce wholeFee) ∧
    PoolAt runtime ((waiting wholeFee).atEpoch 2).ledger pool p ∧
    PoolAt runtime (inForce wholeFee).ledger pool p' ∧
    p.stakeWithdrawalFee = lowFee ∧ p'.stakeWithdrawalFee = wholeFee ∧ ¬ p.RateLimited p' := by
  have hstep : FeeMove runtime (fun _ _ => True) ((waiting wholeFee).atEpoch 2) (inForce wholeFee) :=
    .update (.of_succeeded (by decide +kernel))
  obtain ⟨p, hp, hfee⟩ : ∃ p, PoolAt runtime ((waiting wholeFee).atEpoch 2).ledger pool p ∧
      p.stakeWithdrawalFee = lowFee := PoolAt.of_load _ (by decide +kernel)
  obtain ⟨p', hp', hfee'⟩ : ∃ p, PoolAt runtime (inForce wholeFee).ledger pool p ∧
      p.stakeWithdrawalFee = wholeFee := PoolAt.of_load _ (by decide +kernel)
  refine ⟨p, p', genesis_untouched, fee_run (fun _ _ => trivial) (by decide +kernel)
    (by decide +kernel), hstep, hp, hp', hfee, hfee', fun hlimited => ?_⟩
  have hallows := hlimited.stake (by rw [hfee, hfee']; decide)
  rw [hfee, hfee'] at hallows
  exact absurd hallows (by unfold Fee.Allows; decide)

/-- The largest fee that may follow `lowFee`. -/
def Reference.raisedFee : Fee := { numerator := 1, denominator := 12297829382473034410 }

open Reference in
/-- The rate limit at work: from `1 / 2⁶⁴ - 1` up by half. -/
theorem withdrawal_fee_rate_limit_raised : ∃ p p' : StakePool,
    PoolAt runtime ((waiting raisedFee).atEpoch 2).ledger pool p ∧
    PoolAt runtime (inForce raisedFee).ledger pool p' ∧ p.stakeWithdrawalFee = lowFee ∧
    p'.stakeWithdrawalFee = raisedFee ∧ p.RateLimited p' := by
  obtain ⟨p₀, hp₀, hfee₀⟩ : ∃ p, PoolAt runtime founded.ledger pool p ∧
      p.stakeWithdrawalFee = lowFee := PoolAt.of_load _ (by decide +kernel)
  obtain ⟨p, hp, hfee⟩ : ∃ p, PoolAt runtime ((waiting raisedFee).atEpoch 2).ledger pool p ∧
      p.stakeWithdrawalFee = lowFee := PoolAt.of_load _ (by decide +kernel)
  obtain ⟨p', hp', hfee'⟩ : ∃ p, PoolAt runtime (inForce raisedFee).ledger pool p ∧
      p.stakeWithdrawalFee = raisedFee := PoolAt.of_load _ (by decide +kernel)
  have hguard : ∀ q, PoolAt runtime founded.ledger pool q → q.Compares (.stakeWithdrawal raisedFee) := by
    intro q hq
    obtain rfl := hq.unique hp₀
    rw [StakePool.Compares, hfee₀]
    decide
  exact ⟨p, p', hp, hp', hfee, hfee', withdrawal_fee_rate_limit programLaws (genesis_untouched)
    (fee_run hguard (by decide +kernel) (by decide +kernel))
    (.update (.of_succeeded (by decide +kernel))) hp hp'⟩

end StakePoolFogo
