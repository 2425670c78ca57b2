import StakePoolFogo.FeeBounds
import StakePoolFogo.FeeLimit
import StakePoolFogo.Trace

/-!
# Fee changes wait two epoch boundaries

Three fees are announced before they take effect.  Their countdown is read before it is advanced, and
it is advanced only by an update of the pool that finds the last one in an earlier epoch.
-/

open StakePoolFogo.Checked StakePoolFogo.Outcome

namespace StakePoolFogo

/-- The fees that are announced first. -/
inductive DelayedFee where
  | epoch
  | stakeWithdrawal
  | solWithdrawal
deriving DecidableEq, Repr

/-- What `SetFee` is called with. -/
def DelayedFee.feeType : DelayedFee → Fee → FeeType
  | .epoch, fee => .epoch fee
  | .stakeWithdrawal, fee => .stakeWithdrawal fee
  | .solWithdrawal, fee => .solWithdrawal fee

def FeeTable.inForce (t : FeeTable) : DelayedFee → Fee
  | .epoch => t.epoch
  | .stakeWithdrawal => t.stakeWithdrawal
  | .solWithdrawal => t.solWithdrawal

def FeeTable.waiting (t : FeeTable) : DelayedFee → FutureEpoch Fee
  | .epoch => t.nextEpoch
  | .stakeWithdrawal => t.nextStakeWithdrawal
  | .solWithdrawal => t.nextSolWithdrawal

/-- `SetFee` of this fee on the pool at `k`. -/
def Event.Sets (k : Pubkey) (kind : DelayedFee) (e : Event) : Prop :=
  e.Calls k fun i => ∃ fee, i = .setFee (kind.feeType fee)

/-- `UpdateStakePoolBalance` on the pool at `k`, in a later epoch than the last one. -/
def Crosses (rt : Runtime) (k : Pubkey) (s : World) (e : Event) : Prop :=
  e.Calls k (fun i => i = .updateStakePoolBalance) ∧
    ∃ p, PoolAt rt s.ledger k p ∧ p.lastUpdateEpoch < s.sysvars.epoch

/-- Runs in which nobody sets the fee again, with the number of updates that cross an epoch
boundary. -/
inductive Waits (rt : Runtime) (k : Pubkey) (kind : DelayedFee) (s : World) : Nat → World → Prop where
  | start : Waits rt k kind s 0 s
  | quiet {n : Nat} {t t' : World} {e : Event} (run : Waits rt k kind s n t)
      (step : Happens rt t t' e) (notSet : ¬ e.Sets k kind) (within : ¬ Crosses rt k t e) :
      Waits rt k kind s n t'
  | boundary {n : Nat} {t t' : World} {e : Event} (run : Waits rt k kind s n t)
      (step : Happens rt t t' e) (crosses : Crosses rt k t e) : Waits rt k kind s (n + 1) t'

variable {rt : Runtime} {sv : Sysvars} {w w' : Ledger} {accounts : List AccountMeta} {a : AccountMeta}
  {k : Pubkey} {kind : DelayedFee} {p p' : StakePool} {l : ValidatorList}

/-! ## One instruction -/

/-- Instructions other than `SetFee` and `UpdateStakePoolBalance` leave the fees alone. -/
theorem processInstruction_feeTable {i : StakePoolInstruction} (laws : ProgramLaws rt)
    (ha : accounts[0]? = some a) (hp : PoolAt rt w a.key p) (hl : ListAt rt w p.validatorList l)
    (hset : ∀ fee, i ≠ .setFee fee) (hupdate : i ≠ .updateStakePoolBalance)
    (h : processInstruction rt sv accounts i w = .ok w') :
    ∃ p', PoolAt rt w' a.key p' ∧ p'.feeTable = p.feeTable := by
  cases i with
  | setFee fee => exact absurd rfl (hset fee)
  | updateStakePoolBalance => exact absurd rfl hupdate
  | redelegate => cases h
  | initializePool =>
    obtain ⟨r⟩ := processInitialize_run rt sv h
    obtain rfl := Option.some.inj (ha.symm.trans r.pool_at)
    exact absurd hp r.not_pool
  | addValidatorToPool =>
    obtain ⟨r⟩ := processAddValidatorToPool_run rt sv h
    have he := r.effect laws ha hp hl
    exact ⟨_, he.own.after, rfl⟩
  | removeValidatorFromPool =>
    obtain ⟨r⟩ := processRemoveValidatorFromPool_run rt sv h
    have he := r.effect laws ha hp hl
    exact ⟨_, he.own.after, rfl⟩
  | decreaseValidatorStake | decreaseValidatorStakeWithReserve | decreaseAdditionalValidatorStake =>
    obtain ⟨r⟩ := processDecreaseValidatorStake_run rt sv h
    have he := r.effect laws ha hp hl
    exact ⟨_, he.own.after, rfl⟩
  | increaseValidatorStake | increaseAdditionalValidatorStake =>
    obtain ⟨r⟩ := processIncreaseValidatorStake_run rt sv h
    have he := r.effect laws ha hp hl
    exact ⟨_, he.own.after, rfl⟩
  | setPreferredValidator t =>
    obtain ⟨r⟩ := processSetPreferredValidator_run rt h
    have he : BookEffect rt sv accounts w w' a.key p l _ l := r.effect laws ha hp hl
    exact ⟨_, he.own.after, by cases t <;> rfl⟩
  | updateValidatorListBalance =>
    obtain ⟨r⟩ := (processUpdateValidatorListBalance_run rt sv).mp h
    have he := r.effect laws ha hp hl
    exact ⟨_, he.own.after, rfl⟩
  | cleanupRemovedValidatorEntries =>
    obtain ⟨r⟩ := processCleanupRemovedValidatorEntries_run rt h
    obtain ⟨p', hp', he⟩ : ∃ p', (p' = p ∨ p' = p.keepListed l.cleaned) ∧
      BookEffect rt sv accounts w w' a.key p l p' l.cleaned := r.effect laws ha hp hl
    exact ⟨_, he.own.after, by rcases hp' with rfl | rfl <;> rfl⟩
  | depositStake | depositStakeWithSlippage =>
    obtain ⟨r⟩ := processDepositStake_run rt sv h
    have he := r.effect laws ha hp hl
    exact ⟨_, he.own.after, rfl⟩
  | depositSol | depositSolWithSlippage =>
    obtain ⟨r⟩ := processDepositSol_run rt sv h
    have he := r.effect laws ha hp hl (Option.some.inj (r.pool_at.symm.trans ha))
    exact ⟨_, he.own.after, rfl⟩
  | depositWsolWithSession =>
    obtain ⟨r⟩ := processDepositWsolWithSession_run rt sv h
    obtain ⟨tokens, he⟩ := r.effect laws ha hp hl
    exact ⟨_, he.own.after, rfl⟩
  | withdrawStake | withdrawStakeWithSlippage =>
    obtain ⟨r⟩ := processWithdrawStake_run rt sv h
    obtain ⟨l', -, he⟩ := r.effect laws ha hp hl
    refine ⟨_, he.own.after, ?_⟩
    obtain rfl := Option.some.inj (ha.symm.trans r.pool_at)
    obtain rfl := hp.unique r.isPool
    rw [(StakePool.recordWithdrawal_eq_ok.mp r.record).1]
    show r.plan.stakePool.feeTable = r.p.feeTable
    have hplan := planWithdrawal_cases rt sv r.plan_eq
    generalize r.plan = plan at hplan
    cases hplan <;> rfl
  | withdrawSol | withdrawSolWithSlippage =>
    obtain ⟨r⟩ := processWithdrawSol_run rt sv h
    have he := r.effect laws ha hp hl r.isToken (Option.some.inj (r.pool_at.symm.trans ha))
    exact ⟨_, he.own.after, rfl⟩
  | withdrawWsolWithSession =>
    obtain ⟨r⟩ := processWithdrawWsolWithSession_run rt sv h
    obtain ⟨tokens, lamports, he⟩ := r.effect laws ha hp hl
    exact ⟨_, he.own.after, rfl⟩
  | setManager =>
    obtain ⟨r⟩ := processSetManager_run rt h
    have he : BookEffect rt sv accounts w w' a.key p l _ l := r.effect laws ha hp hl
    exact ⟨_, he.own.after, rfl⟩
  | setStaker =>
    obtain ⟨r⟩ := processSetStaker_run rt h
    have he : BookEffect rt sv accounts w w' a.key p l _ l := r.effect laws ha hp hl
    exact ⟨_, he.own.after, rfl⟩
  | setFundingAuthority t =>
    obtain ⟨r⟩ := processSetFundingAuthority_run rt h
    have he : BookEffect rt sv accounts w w' a.key p l _ l := r.effect laws ha hp hl
    exact ⟨_, he.own.after, by cases t <;> rfl⟩
  | createTokenMetadata =>
    exact ⟨p, hp.of_frames laws
      ((processCreatePoolTokenMetadata_spec h).2.mono scribes_subset_outsiders), rfl⟩
  | updateTokenMetadata =>
    exact ⟨p, hp.of_frames laws
      ((processUpdatePoolTokenMetadata_spec h).2.mono scribes_subset_outsiders), rfl⟩

theorem processSetFee_pool {fee : FeeType} (laws : ProgramLaws rt) (ha : accounts[0]? = some a)
    (hp : PoolAt rt w a.key p) (hl : ListAt rt w p.validatorList l)
    (h : processSetFee rt sv accounts fee w = .ok w') :
    ∃ p', PoolAt rt w' a.key p' ∧ p.updateFee fee = .ok p' := by
  obtain ⟨r⟩ := processSetFee_run rt sv h
  have he : BookEffect rt sv accounts w w' a.key p l _ l := r.effect laws ha hp hl
  obtain rfl := Option.some.inj (ha.symm.trans r.pool_at)
  obtain rfl := hp.unique r.isPool
  exact ⟨r.p', he.own.after, r.update⟩

/-- A fee can only be announced on a pool that is up to date. -/
theorem processSetFee_upToDate {fee : FeeType} (ha : accounts[0]? = some a)
    (hp : PoolAt rt w a.key p) (hdelayed : fee.canOnlyChangeNextEpoch = true)
    (h : processSetFee rt sv accounts fee w = .ok w') : sv.epoch ≤ p.lastUpdateEpoch := by
  simp only [processSetFee, bind_eq_ok, accountAt_eq_ok, exists_unit, failIf_eq_ok,
    loadStakePool_eq_ok, not_and, Nat.not_lt] at h
  obtain ⟨pool, pool_at, _, -, q, hq, -, hupToDate, -⟩ := h
  obtain rfl := Option.some.inj (ha.symm.trans pool_at)
  obtain rfl := hp.unique hq
  exact hupToDate hdelayed

theorem StakePool.updateFee_announces {fee : Fee} (h : p.updateFee (kind.feeType fee) = .ok p') :
    p'.feeTable.inForce kind = p.feeTable.inForce kind ∧ p'.feeTable.waiting kind = .two fee ∧
      p'.lastUpdateEpoch = p.lastUpdateEpoch := by
  cases kind with
  | epoch =>
    cases h
    exact ⟨rfl, rfl, rfl⟩
  | stakeWithdrawal | solWithdrawal =>
    simp only [DelayedFee.feeType, StakePool.updateFee, bind_eq_ok, exists_unit, pure_eq_ok] at h
    obtain ⟨-, rfl⟩ := h
    exact ⟨rfl, rfl, rfl⟩

/-- `SetFee` of another fee. -/
theorem StakePool.updateFee_other {fee : FeeType} (hother : ∀ f, fee ≠ kind.feeType f)
    (h : p.updateFee fee = .ok p') :
    p'.feeTable.inForce kind = p.feeTable.inForce kind ∧
      p'.feeTable.waiting kind = p.feeTable.waiting kind ∧ p'.lastUpdateEpoch = p.lastUpdateEpoch := by
  cases fee with
  | stakeWithdrawal f =>
    simp only [StakePool.updateFee, bind_eq_ok, exists_unit, pure_eq_ok] at h
    obtain ⟨-, rfl⟩ := h
    cases kind with
    | stakeWithdrawal => exact absurd rfl (hother f)
    | _ => exact ⟨rfl, rfl, rfl⟩
  | solWithdrawal f =>
    simp only [StakePool.updateFee, bind_eq_ok, exists_unit, pure_eq_ok] at h
    obtain ⟨-, rfl⟩ := h
    cases kind with
    | solWithdrawal => exact absurd rfl (hother f)
    | _ => exact ⟨rfl, rfl, rfl⟩
  | epoch f =>
    cases h
    cases kind with
    | epoch => exact absurd rfl (hother f)
    | _ => exact ⟨rfl, rfl, rfl⟩
  | _ =>
    cases h
    cases kind <;> exact ⟨rfl, rfl, rfl⟩

theorem StakePool.advanceEpoch_crosses (kind : DelayedFee) {epoch : Epoch} (h : p.lastUpdateEpoch < epoch) :
    (p.advanceEpoch epoch).feeTable.inForce kind =
      (p.feeTable.waiting kind).get.getD (p.feeTable.inForce kind) ∧
    (p.advanceEpoch epoch).feeTable.waiting kind = (p.feeTable.waiting kind).updateEpoch ∧
    (p.advanceEpoch epoch).lastUpdateEpoch = epoch := by
  rw [StakePool.advanceEpoch, if_pos h]
  cases kind <;> exact ⟨rfl, rfl, rfl⟩

/-! ## One event -/

/-- What an event does to the countdown of one fee of one pool. -/
theorem Happens.countdown (kind : DelayedFee) {s s' : World} {e : Event} (laws : ProgramLaws rt)
    (hreg : Registry rt s.ledger) (hp : PoolAt rt s.ledger k p) (h : Happens rt s s' e) :
    ∃ p', PoolAt rt s'.ledger k p' ∧
      (Crosses rt k s e → p.lastUpdateEpoch < s.sysvars.epoch ∧
        p'.feeTable.inForce kind = (p.feeTable.waiting kind).get.getD (p.feeTable.inForce kind) ∧
        p'.feeTable.waiting kind = (p.feeTable.waiting kind).updateEpoch ∧
        p'.lastUpdateEpoch = s.sysvars.epoch) ∧
      (¬ Crosses rt k s e → ¬ e.Sets k kind → p'.feeTable.inForce kind = p.feeTable.inForce kind ∧
        p'.feeTable.waiting kind = p.feeTable.waiting kind ∧ p'.lastUpdateEpoch = p.lastUpdateEpoch) := by
  obtain ⟨l, hl⟩ := hreg.hasList hp
  rcases h.on_pool laws hreg hp hl with ⟨accounts, input, a, i, rfl, ha, rfl, hi, hrun, -⟩ |
    ⟨hnot, hp', -⟩
  · -- An update is no other instruction, so a crossing is seen from the decoded input.
    have hcrosses : Crosses rt a.key s (.call accounts input) ↔
        i = .updateStakePoolBalance ∧ p.lastUpdateEpoch < s.sysvars.epoch := by
      constructor
      · rintro ⟨hcall, q, hq, hlt⟩
        obtain rfl := hp.unique hq
        cases hcall with
        | intro _ _ hj hupdate =>
          obtain rfl := Except.ok.inj (hi.symm.trans hj)
          exact ⟨hupdate, hlt⟩
      · rintro ⟨rfl, hlt⟩
        exact ⟨.intro ha rfl hi rfl, p, hp, hlt⟩
    rw [hcrosses]
    by_cases hupdate : i = .updateStakePoolBalance
    · subst hupdate
      obtain ⟨r⟩ := (processUpdateStakePoolBalance_run rt _).mp hrun
      have he := r.effect laws ha hp hl
      refine ⟨_, he.own.after, fun hcross => ?_, fun hcross _ => ?_⟩
      · obtain ⟨hforce, hwait, hlast⟩ := p.advanceEpoch_crosses kind hcross.2
        refine ⟨hcross.2, ?_, ?_, hlast⟩
        · rw [← hforce]
          cases kind <;> rfl
        · rw [← hwait]
          cases kind <;> rfl
      · have hwithin : ¬ p.lastUpdateEpoch < s.sysvars.epoch := fun hlt => hcross ⟨rfl, hlt⟩
        rw [StakePool.advanceEpoch, if_neg hwithin]
        cases kind <;> exact ⟨rfl, rfl, rfl⟩
    · by_cases hset : ∃ fee, i = .setFee fee
      · obtain ⟨fee, rfl⟩ := hset
        obtain ⟨p', hp', hu⟩ := processSetFee_pool laws ha hp hl hrun
        refine ⟨p', hp', fun hcross => absurd hcross.1 hupdate, fun _ hnotSet => ?_⟩
        refine p.updateFee_other (fun f hf => hnotSet ?_) hu
        exact .intro ha rfl hi ⟨f, by rw [hf]⟩
      · obtain ⟨p', hp', htable⟩ := processInstruction_feeTable laws ha hp hl
          (fun fee hfee => hset ⟨fee, hfee⟩) hupdate hrun
        refine ⟨p', hp', fun hcross => absurd hcross.1 hupdate, fun _ _ => ?_⟩
        have hlast : p'.feeTable.lastUpdateEpoch = p.feeTable.lastUpdateEpoch := by rw [htable]
        rw [htable]
        exact ⟨rfl, rfl, hlast⟩
  · refine ⟨p, hp', fun hcross => absurd hcross.1 (hnot _), fun _ _ => ⟨rfl, rfl, rfl⟩⟩

/-! ## Runs -/

/-- Fee in force and countdown after `n` boundaries, for a fee announced while `old` is in force. -/
def countdown (old fee : Fee) : Nat → Fee × FutureEpoch Fee
  | 0 => (old, .two fee)
  | 1 => (old, .one fee)
  | _ => (fee, .none)

theorem countdown_succ (old fee : Fee) (n : Nat) :
    countdown old fee (n + 1) =
      ((countdown old fee n).2.get.getD (countdown old fee n).1,
        (countdown old fee n).2.updateEpoch) := by
  rcases n with _ | _ | n <;> rfl

theorem countdown_fst (old fee : Fee) (n : Nat) :
    (countdown old fee n).1 = if n < 2 then old else fee := by
  rcases n with _ | _ | n <;> rfl

theorem countdown_snd (old fee : Fee) (n : Nat) : (countdown old fee n).2 =
    if n = 0 then .two fee else if n = 1 then .one fee else .none := by
  rcases n with _ | _ | n <;> rfl

/-- The countdown of a run: every boundary is one step of it, and lies in a later epoch than the one
before. -/
theorem Waits.countdown (laws : ProgramLaws rt) {s t : World} {old fee : Fee} {epoch n : Nat}
    (hreg : Registry rt s.ledger) (hp : PoolAt rt s.ledger k p)
    (hforce : p.feeTable.inForce kind = old) (hwait : p.feeTable.waiting kind = .two fee)
    (hepoch : epoch ≤ p.lastUpdateEpoch) (hrun : Waits rt k kind s n t) :
    Registry rt t.ledger ∧ ∃ p', PoolAt rt t.ledger k p' ∧
      (p'.feeTable.inForce kind, p'.feeTable.waiting kind) = StakePoolFogo.countdown old fee n ∧
      epoch + n ≤ p'.lastUpdateEpoch := by
  induction hrun with
  | start => exact ⟨hreg, p, hp, by rw [hforce, hwait]; rfl, hepoch⟩
  | quiet _ step notSet within ih =>
    obtain ⟨hreg', q, hq, hcount, hlast⟩ := ih
    obtain ⟨q', hq', -, hkept⟩ := step.countdown kind laws hreg' hq
    obtain ⟨hforce', hwait', hlast'⟩ := hkept within notSet
    exact ⟨step.moves.registry laws hreg', q', hq', by rw [hforce', hwait', hcount],
      by rw [hlast']; exact hlast⟩
  | @boundary n _ _ _ _ step crosses ih =>
    obtain ⟨hreg', q, hq, hcount, hlast⟩ := ih
    obtain ⟨q', hq', hcross, -⟩ := step.countdown kind laws hreg' hq
    obtain ⟨hlt, hforce', hwait', hlast'⟩ := hcross crosses
    refine ⟨step.moves.registry laws hreg', q', hq', ?_, ?_⟩
    · rw [countdown_succ, ← hcount, hforce', hwait']
    · rw [hlast']
      exact Nat.lt_of_le_of_lt hlast hlt

/-- A fee set in epoch `e` is in force exactly from the second update that crosses an epoch boundary
on, which is in epoch `e + 2` or later.  Before, the old fee is in force, and the updates, also the
one that activates the new fee, charge by it. -/
theorem fee_change_delayed (laws : ProgramLaws rt) {s s₁ s₂ : World} {e : Event} {fee : Fee} {n : Nat}
    (hs : Reachable rt s) (hp : PoolAt rt s.ledger k p) (hset : Happens rt s s₁ e)
    (hcall : e.Calls k fun i => i = .setFee (kind.feeType fee)) (hrun : Waits rt k kind s₁ n s₂) :
    ∃ p₂, PoolAt rt s₂.ledger k p₂ ∧
      p₂.feeTable.inForce kind = (if n < 2 then p.feeTable.inForce kind else fee) ∧
      p₂.feeTable.waiting kind =
        (if n = 0 then .two fee else if n = 1 then .one fee else .none) ∧
      s.sysvars.epoch + n ≤ p₂.lastUpdateEpoch ∧
      (∀ e', Crosses rt k s₂ e' → s.sysvars.epoch + n + 1 ≤ s₂.sysvars.epoch) ∧
      (kind = .epoch → n < 2 → ∀ accounts w' (r : UpdatePoolRun rt s₂.sysvars accounts s₂.ledger w'),
        r.pool.key = k → epochFeeAmount { r.p with epochFee := p.epochFee }
          (s₂.ledger r.managerFee.key) (r.total - r.p.totalLamports) = .ok r.fee) := by
  have hreg := hs.registry laws
  obtain ⟨l, hl⟩ := hreg.hasList hp
  cases hcall with
  | intro ha hkey hi hfee =>
  subst hkey
  subst hfee
  obtain ⟨run, -⟩ := hset
  rw [StakePoolFogo.process, hi] at run
  have hinstruction : processInstruction rt s.sysvars _ (.setFee (kind.feeType fee)) s.ledger =
      .ok s₁.ledger := run
  have hset' : processSetFee rt s.sysvars _ (kind.feeType fee) s.ledger = .ok s₁.ledger := run
  -- The call puts the fee on the waiting list and changes nothing that is in force.
  obtain ⟨p₁, hp₁, hu⟩ := processSetFee_pool laws ha hp hl hset'
  obtain ⟨hforce, hwait, hlast⟩ := p.updateFee_announces hu
  have hupToDate := processSetFee_upToDate ha hp (by cases kind <;> rfl) hset'
  have hreg₁ : Registry rt s₁.ledger :=
    ((processInstruction_handled hinstruction).record laws hreg).registry hreg
  -- From there the run counts down, one epoch of the pool at a time.
  obtain ⟨-, p₂, hp₂, hcount, hlast₂⟩ :=
    hrun.countdown laws hreg₁ hp₁ hforce hwait (hlast ▸ hupToDate)
  have hforce₂ := congrArg Prod.fst hcount
  have hwait₂ := congrArg Prod.snd hcount
  refine ⟨p₂, hp₂, ?_, ?_, hlast₂, fun e' hcross => ?_, fun hkind hn accounts w' r hr => ?_⟩
  · exact hforce₂.trans (countdown_fst _ fee n)
  · exact hwait₂.trans (countdown_snd _ fee n)
  · obtain ⟨-, q, hq, hlt⟩ := hcross
    obtain rfl := hq.unique hp₂
    exact Nat.lt_of_le_of_lt hlast₂ hlt
  · -- An update takes its fee from the record it finds, where the old one is still in force.
    subst hkind
    obtain rfl := (hr ▸ r.isPool).unique hp₂
    have hold : r.p.epochFee = p.epochFee := by
      refine hforce₂.trans ?_
      rw [countdown_fst, if_pos hn]
      rfl
    have hsame : { r.p with epochFee := p.epochFee } = r.p := by rw [← hold]
    rw [hsame]
    exact r.fee_eq

namespace Reference

/-- `SetFee` of a stake withdrawal fee of zero, and `UpdateStakePoolBalance`. -/
def setFeeInput : List UInt8 := [12, 3] ++ List.replicate 16 0

def updateInput : List UInt8 := [7]

end Reference

open Reference in
/-- A withdrawal fee of zero, announced in epoch 0, is in force after the updates of epochs 1 and 2. -/
theorem fee_change_delayed_lowered : ∃ p, PoolAt runtime (inForce default).ledger pool p ∧
    p.stakeWithdrawalFee = default ∧ 2 ≤ p.lastUpdateEpoch := by
  obtain ⟨p₀, hp₀, -⟩ : ∃ p, PoolAt runtime founded.ledger pool p ∧ p.stakeWithdrawalFee = lowFee :=
    PoolAt.of_load _ (by decide +kernel)
  obtain ⟨p₁, hp₁, hlast₁⟩ : ∃ p, PoolAt runtime ((announced default).atEpoch 1).ledger pool p ∧
      p.lastUpdateEpoch = 0 := PoolAt.of_load _ (by decide +kernel)
  obtain ⟨p₂, hp₂, hlast₂⟩ : ∃ p, PoolAt runtime ((waiting default).atEpoch 2).ledger pool p ∧
      p.lastUpdateEpoch = 1 := PoolAt.of_load _ (by decide +kernel)
  have hset : Executes runtime [writes pool, signs manager]
      (.setFee (.stakeWithdrawal default)) founded (announced default) :=
    .of_succeeded (by decide +kernel)
  have hfirst : Executes runtime updateAccounts .updateStakePoolBalance ((announced default).atEpoch 1)
      (waiting default) := .of_succeeded (by decide +kernel)
  have hsecond : Executes runtime updateAccounts .updateStakePoolBalance ((waiting default).atEpoch 2)
      (inForce default) := .of_succeeded (by decide +kernel)
  have hupdates : (Event.call updateAccounts updateInput).Calls pool
      (fun i => i = .updateStakePoolBalance) := .intro rfl rfl (by decide +kernel) rfl
  have hnobody : ¬ Event.elsewhere.Sets pool .stakeWithdrawal := fun h => by cases h
  have hnowhere : ∀ s, ¬ Crosses runtime pool s .elsewhere := fun s h => by cases h.1
  have hwaits : Waits runtime pool .stakeWithdrawal (announced default) 2 (inForce default) := by
    refine .boundary (.quiet (.boundary (.quiet .start (.elsewhere (.atEpoch _ 1 _)) hnobody
      (hnowhere _)) (hfirst.happens updateInput (by decide +kernel)) ⟨hupdates, p₁, hp₁, ?_⟩)
      (.elsewhere (.atEpoch _ 2 _)) hnobody (hnowhere _))
      (hsecond.happens updateInput (by decide +kernel)) ⟨hupdates, p₂, hp₂, ?_⟩
    · rw [hlast₁]
      exact Nat.zero_lt_one
    · rw [hlast₂]
      exact Nat.one_lt_two
  have hannounces : (Event.call [writes pool, signs manager] setFeeInput).Calls pool
      (fun i => i = .setFee (DelayedFee.stakeWithdrawal.feeType default)) :=
    .intro rfl rfl (by decide +kernel) rfl
  obtain ⟨p, hp, hforce, -, hlast, -⟩ := fee_change_delayed programLaws founded_reachable hp₀
    (hset.happens setFeeInput (by decide +kernel)) hannounces hwaits
  exact ⟨p, hp, hforce, Nat.le_trans (Nat.le_add_left 2 _) hlast⟩

end StakePoolFogo
