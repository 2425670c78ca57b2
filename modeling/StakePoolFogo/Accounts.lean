import StakePoolFogo.JsLegacy.Builders
import StakePoolFogo.Processor.Update
import StakePoolFogo.Py.Builders
import StakePoolFogo.Reference

/-!
# The account lists of the clients

Each builder of the Python and of the JavaScript client against the program's own builder for the same
instruction and the same parameters: the keys in order, and at least the program's signer and writable
flags.
-/

open StakePoolFogo.Outcome

namespace StakePoolFogo

/-- The keys of `rust` in the same order, with at least its flags. -/
def Covers (client rust : List AccountMeta) : Prop :=
  List.Forall₂ (fun c r => c.key = r.key ∧ (r.isSigner = true → c.isSigner = true) ∧
    (r.isWritable = true → c.isWritable = true)) client rust

theorem Covers.refl (accounts : List AccountMeta) : Covers accounts accounts :=
  List.forall₂_same.mpr fun _ _ => ⟨rfl, id, id⟩

theorem Covers.of_eq {client rust : List AccountMeta} (h : client = rust) : Covers client rust :=
  h ▸ .refl client

theorem covers_iff_of_eq {client rust : List AccountMeta} {P : Prop} (h : client = rust) (hP : P) :
    Covers client rust ↔ P := ⟨fun _ => hP, fun _ => .of_eq h⟩

theorem Covers.append {client rust client' rust' : List AccountMeta} (h : Covers client rust)
    (h' : Covers client' rust') : Covers (client ++ client') (rust ++ rust') :=
  List.rel_append h h'

theorem Covers.length_eq {client rust : List AccountMeta} (h : Covers client rust) :
    client.length = rust.length := List.Forall₂.length_eq h

/-- A key of the list keeps its place. -/
theorem Covers.key_eq {client rust : List AccountMeta} (h : Covers client rust) {i : Nat}
    {r : AccountMeta} (hr : rust[i]? = some r) :
    ∃ c, client[i]? = some c ∧ c.key = r.key ∧ (r.isSigner = true → c.isSigner = true) ∧
      (r.isWritable = true → c.isWritable = true) := by
  induction h generalizing i with
  | nil => cases hr
  | cons hhead _ ih =>
    cases i with
    | zero =>
      cases hr
      exact ⟨_, rfl, hhead⟩
    | succ i => exact ih hr

section

variable (rt : Runtime)

/-- The deposit authority of a pool without one of its own is the derived one, which does not sign. -/
def givenDepositAuthority (stakePool authority : Pubkey) : Option Pubkey :=
  if authority = (findDepositAuthorityProgramAddress rt stakePool).1 then none else some authority

/-- The account of the deposit authority in the program's builder. -/
def depositAuthorityMeta (stakePool authority : Pubkey) : AccountMeta :=
  match givenDepositAuthority rt stakePool authority with
  | some key => .newReadonly key true
  | none => .newReadonly (findDepositAuthorityProgramAddress rt stakePool).1 false

/-- A client that never lets the deposit authority sign covers the program's builder only where the
authority is the derived one. -/
theorem covers_depositAuthority (stakePool authority : Pubkey) (a b : AccountMeta)
    (rest : List AccountMeta) :
    Covers (a :: b :: ⟨authority, false, false⟩ :: rest)
      (a :: b :: depositAuthorityMeta rt stakePool authority :: rest) ↔
      authority = (findDepositAuthorityProgramAddress rt stakePool).1 := by
  refine ⟨fun hcovers => ?_, fun hderived => ?_⟩
  · by_contra hgiven
    have hmeta : depositAuthorityMeta rt stakePool authority = ⟨authority, true, false⟩ := by
      rw [depositAuthorityMeta, givenDepositAuthority, if_neg hgiven]
      rfl
    rw [hmeta] at hcovers
    obtain ⟨c, hc, -, hsigner, -⟩ := hcovers.key_eq (i := 2) rfl
    cases hc
    cases hsigner rfl
  · refine .of_eq ?_
    rw [depositAuthorityMeta, givenDepositAuthority, if_pos hderived, hderived]
    rfl

/-- A client that leaves out an optional account at the end. -/
theorem covers_left_out (accounts : List AccountMeta) (key : Option Pubkey) :
    Covers accounts (accounts ++ key.toList.map fun k => .newReadonly k true) ↔ key = none := by
  refine ⟨fun hcovers => ?_, fun hnone => .of_eq ?_⟩
  · have hlength := hcovers.length_eq
    rw [List.length_append, List.length_map] at hlength
    cases key with
    | none => rfl
    | some k =>
      rw [show (some k).toList.length = 1 from rfl] at hlength
      omega
  · rw [hnone]
    simp

end

/-! ## The Python client -/

namespace Py

/-- A call of one of the builders. -/
inductive Call where
  | initializePool (params : InitializeParams)
  | addValidatorToPool (params : AddValidatorToPoolParams)
  | addValidatorToPoolWithVote (stakePoolProgramId programId stakePool staker validatorList reserveStake
      validator : Pubkey) (validatorStakeSeed : Option UInt32)
  | removeValidatorFromPool (params : RemoveValidatorFromPoolParams)
  | removeValidatorFromPoolWithVote (stakePoolProgramId programId stakePool staker validatorList
      validator : Pubkey) (validatorStakeSeed : Option UInt32) (transientStakeSeed : UInt64)
  | depositStake (params : DepositStakeParams)
  | withdrawStake (params : WithdrawStakeParams)
  | depositSol (params : DepositSolParams)
  | withdrawSol (params : WithdrawSolParams)
  | updateValidatorListBalance (params : UpdateValidatorListBalanceParams)
  | updateStakePoolBalance (params : UpdateStakePoolBalanceParams)
  | cleanupRemovedValidatorEntries (params : CleanupRemovedValidatorEntriesParams)
  | increaseValidatorStake (params : IncreaseValidatorStakeParams)
  | increaseAdditionalValidatorStake (params : IncreaseAdditionalValidatorStakeParams)
  | decreaseValidatorStake (params : DecreaseValidatorStakeParams)
  | decreaseAdditionalValidatorStake (params : DecreaseAdditionalValidatorStakeParams)
  | decreaseValidatorStakeWithReserve (params : DecreaseValidatorStakeWithReserveParams)
  | createTokenMetadata (params : CreateTokenMetadataParams)
  | updateTokenMetadata (params : UpdateTokenMetadataParams)

variable (rt : Runtime)

def Call.build : Call → Instruction
  | .initializePool params => Py.initializePool rt params
  | .addValidatorToPool params => Py.addValidatorToPool params
  | .addValidatorToPoolWithVote stakePoolProgramId programId stakePool staker validatorList reserveStake
      validator validatorStakeSeed =>
    Py.addValidatorToPoolWithVote rt stakePoolProgramId programId stakePool staker validatorList
      reserveStake validator validatorStakeSeed
  | .removeValidatorFromPool params => Py.removeValidatorFromPool params
  | .removeValidatorFromPoolWithVote stakePoolProgramId programId stakePool staker validatorList
      validator validatorStakeSeed transientStakeSeed =>
    Py.removeValidatorFromPoolWithVote rt stakePoolProgramId programId stakePool staker validatorList
      validator validatorStakeSeed transientStakeSeed
  | .depositStake params => Py.depositStake params
  | .withdrawStake params => Py.withdrawStake params
  | .depositSol params => Py.depositSol params
  | .withdrawSol params => Py.withdrawSol params
  | .updateValidatorListBalance params => Py.updateValidatorListBalance params
  | .updateStakePoolBalance params => Py.updateStakePoolBalance params
  | .cleanupRemovedValidatorEntries params => Py.cleanupRemovedValidatorEntries params
  | .increaseValidatorStake params => Py.increaseValidatorStake params
  | .increaseAdditionalValidatorStake params => Py.increaseAdditionalValidatorStake params
  | .decreaseValidatorStake params => Py.decreaseValidatorStake params
  | .decreaseAdditionalValidatorStake params => Py.decreaseAdditionalValidatorStake params
  | .decreaseValidatorStakeWithReserve params => Py.decreaseValidatorStakeWithReserve params
  | .createTokenMetadata params => Py.createTokenMetadata params
  | .updateTokenMetadata params => Py.updateTokenMetadata params

/-- `b` is what the program's builder makes of the same parameters.  What that builder fills in itself
(sysvars, programs, derived addresses) is passed to the client's builder as such. -/
def Call.Counterpart : Call → BuiltInstruction → Prop
  | .initializePool q, b => b = Builder.initializePool q.stakePool q.manager q.staker q.withdrawAuthority
      q.validatorList q.reserveStake q.poolMint q.managerFeeAccount q.tokenProgramId q.depositAuthority
      q.epochFee q.withdrawalFee q.depositFee q.referralFee q.maxValidators
  | .addValidatorToPool q, b => q.rentSysvar = rt.rentId ∧ q.clockSysvar = rt.clockId ∧
      q.stakeHistorySysvar = rt.stakeHistoryId ∧ q.stakeConfigSysvar = rt.stakeConfigId ∧
      q.systemProgramId = rt.systemProgramId ∧ q.stakeProgramId = rt.stakeProgramId ∧
      b = Builder.addValidatorToPool rt q.stakePool q.staker q.reserveStake q.withdrawAuthority
        q.validatorList q.validatorStake q.validatorVote (q.seed.getD 0)
  | .addValidatorToPoolWithVote _ programId stakePool staker validatorList reserveStake validator seed,
      b => programId = rt.programId ∧ ∃ p : StakePoolFogo.StakePool, p.staker = staker ∧
        p.validatorList = validatorList ∧ p.reserveStake = reserveStake ∧
        b = Builder.addValidatorToPoolWithVote rt p stakePool validator (seed.getD 0)
  | .removeValidatorFromPool q, b => q.clockSysvar = rt.clockId ∧ q.stakeProgramId = rt.stakeProgramId ∧
      b = Builder.removeValidatorFromPool rt q.stakePool q.staker q.withdrawAuthority q.validatorList
        q.validatorStake q.transientStake
  | .removeValidatorFromPoolWithVote _ programId stakePool staker validatorList validator seed
      transientSeed, b => programId = rt.programId ∧ ∃ p : StakePoolFogo.StakePool, p.staker = staker ∧
        p.validatorList = validatorList ∧
        b = Builder.removeValidatorFromPoolWithVote rt p stakePool validator (seed.getD 0) transientSeed
  | .depositStake q, b => q.clockSysvar = rt.clockId ∧ q.stakeHistorySysvar = rt.stakeHistoryId ∧
      q.stakeProgramId = rt.stakeProgramId ∧
      b = Builder.depositStakeInternal rt q.stakePool q.validatorList
        (givenDepositAuthority rt q.stakePool q.depositAuthority) q.withdrawAuthority q.depositStake
        q.validatorStake q.reserveStake q.destinationPoolAccount q.managerFeeAccount
        q.referralPoolAccount q.poolMint q.tokenProgramId none
  | .withdrawStake q, b => q.clockSysvar = rt.clockId ∧ q.stakeProgramId = rt.stakeProgramId ∧
      b = Builder.withdrawStakeInternal rt q.stakePool q.validatorList q.withdrawAuthority
        q.validatorStake q.destinationStake q.destinationStakeAuthority q.sourceTransferAuthority
        q.sourcePoolAccount q.managerFeeAccount q.poolMint q.tokenProgramId q.amount none
  | .depositSol q, b => q.systemProgramId = rt.systemProgramId ∧
      b = Builder.depositSolInternal rt q.stakePool q.withdrawAuthority q.reserveStake q.fundingAccount
        q.destinationPoolAccount q.managerFeeAccount q.referralPoolAccount q.poolMint q.tokenProgramId
        q.depositAuthority q.amount none
  | .withdrawSol q, b => q.clockSysvar = rt.clockId ∧ q.stakeHistorySysvar = rt.stakeHistoryId ∧
      q.stakeProgramId = rt.stakeProgramId ∧
      b = Builder.withdrawSolInternal rt q.stakePool q.withdrawAuthority q.sourceTransferAuthority
        q.sourcePoolAccount q.reserveStake q.destinationSystemAccount q.managerFeeAccount q.poolMint
        q.tokenProgramId q.solWithdrawAuthority q.amount none
  | .updateValidatorListBalance q, b => q.clockSysvar = rt.clockId ∧
      q.stakeHistorySysvar = rt.stakeHistoryId ∧ q.stakeProgramId = rt.stakeProgramId ∧
      ∃ (l : StakePoolFogo.ValidatorList) (len : Nat),
        q.validatorAndTransientStakePairs = ((l.validators.drop q.startIndex.toNat).take len).flatMap
          (Builder.entryPair rt q.stakePool) ∧
        Builder.updateValidatorListBalanceChunk rt q.stakePool q.withdrawAuthority q.validatorList
          q.reserveStake l len q.startIndex.toNat q.noMerge = .ok b
  | .updateStakePoolBalance q, b => b = Builder.updateStakePoolBalance q.stakePool q.withdrawAuthority
      q.validatorList q.reserveStake q.managerFeeAccount q.poolMint q.tokenProgramId
  | .cleanupRemovedValidatorEntries q, b =>
      b = Builder.cleanupRemovedValidatorEntries q.stakePool q.validatorList
  | .increaseValidatorStake q, b => q.clockSysvar = rt.clockId ∧ q.rentSysvar = rt.rentId ∧
      q.stakeHistorySysvar = rt.stakeHistoryId ∧ q.stakeConfigSysvar = rt.stakeConfigId ∧
      q.systemProgramId = rt.systemProgramId ∧ q.stakeProgramId = rt.stakeProgramId ∧
      b = Builder.increaseValidatorStake rt q.stakePool q.staker q.withdrawAuthority q.validatorList
        q.reserveStake q.transientStake q.validatorStake q.validatorVote q.lamports q.transientStakeSeed
  | .increaseAdditionalValidatorStake q, b => q.clockSysvar = rt.clockId ∧
      q.stakeHistorySysvar = rt.stakeHistoryId ∧ q.stakeConfigSysvar = rt.stakeConfigId ∧
      q.systemProgramId = rt.systemProgramId ∧ q.stakeProgramId = rt.stakeProgramId ∧
      b = Builder.increaseAdditionalValidatorStake rt q.stakePool q.staker q.withdrawAuthority
        q.validatorList q.reserveStake q.ephemeralStake q.transientStake q.validatorStake q.validatorVote
        q.lamports q.transientStakeSeed q.ephemeralStakeSeed
  | .decreaseValidatorStake q, b => q.clockSysvar = rt.clockId ∧ q.rentSysvar = rt.rentId ∧
      q.systemProgramId = rt.systemProgramId ∧ q.stakeProgramId = rt.stakeProgramId ∧
      b = Builder.decreaseValidatorStake rt q.stakePool q.staker q.withdrawAuthority q.validatorList
        q.validatorStake q.transientStake q.lamports q.transientStakeSeed
  | .decreaseAdditionalValidatorStake q, b => q.clockSysvar = rt.clockId ∧
      q.stakeHistorySysvar = rt.stakeHistoryId ∧ q.systemProgramId = rt.systemProgramId ∧
      q.stakeProgramId = rt.stakeProgramId ∧
      b = Builder.decreaseAdditionalValidatorStake rt q.stakePool q.staker q.withdrawAuthority
        q.validatorList q.reserveStake q.validatorStake q.ephemeralStake q.transientStake q.lamports
        q.transientStakeSeed q.ephemeralStakeSeed
  | .decreaseValidatorStakeWithReserve q, b => q.clockSysvar = rt.clockId ∧
      q.stakeHistorySysvar = rt.stakeHistoryId ∧ q.systemProgramId = rt.systemProgramId ∧
      q.stakeProgramId = rt.stakeProgramId ∧
      b = Builder.decreaseValidatorStakeWithReserve rt q.stakePool q.staker q.withdrawAuthority
        q.validatorList q.reserveStake q.validatorStake q.transientStake q.lamports q.transientStakeSeed
  | .createTokenMetadata q, b =>
      q.withdrawAuthority = (StakePoolFogo.findWithdrawAuthorityProgramAddress rt q.stakePool).1 ∧
      q.tokenMetadata = (findMetadataAccount rt q.poolMint).1 ∧
      q.metadataProgramId = rt.mplTokenMetadataId ∧ q.systemProgramId = rt.systemProgramId ∧
      b = Builder.createTokenMetadata rt q.stakePool q.manager q.poolMint q.payer (utf8 q.name)
        (utf8 q.symbol) (utf8 q.uri)
  | .updateTokenMetadata q, b =>
      q.withdrawAuthority = (StakePoolFogo.findWithdrawAuthorityProgramAddress rt q.stakePool).1 ∧
      q.tokenMetadata = (findMetadataAccount rt q.poolMint).1 ∧
      q.metadataProgramId = rt.mplTokenMetadataId ∧
      b = Builder.updateTokenMetadata rt q.stakePool q.manager q.poolMint (utf8 q.name) (utf8 q.symbol)
        (utf8 q.uri)

/-- The calls whose accounts are the program's: a new pool on the token program that is written in the
client, a deposit of stake into a pool without a deposit authority of its own, a withdrawal of SOL
without an authority, and every other call but the clean-up. -/
def Call.InStep : Call → Prop
  | .initializePool q => q.tokenProgramId = rt.splTokenId
  | .depositStake q => q.depositAuthority = (findDepositAuthorityProgramAddress rt q.stakePool).1
  | .withdrawSol q => q.solWithdrawAuthority = none
  | .cleanupRemovedValidatorEntries _ => False
  | _ => True

variable {rt}

theorem Call.covers_iff {call : Call} {b : BuiltInstruction} (h : call.Counterpart rt b) :
    Covers (call.build rt).accounts b.accounts ↔ call.InStep rt := by
  cases call with
  | initializePool q =>
    cases h
    -- The token program is the only key that may differ.
    refine ⟨fun hcovers => ?_, fun htoken => ?_⟩
    · obtain ⟨c, hc, hkey, -⟩ := hcovers.key_eq (i := 8) rfl
      cases hc
      exact hkey.symm
    · refine Covers.of_eq ?_
      show _ = _ ++ _
      rw [show q.tokenProgramId = rt.splTokenId from htoken]
      rfl
  | addValidatorToPool q =>
    obtain ⟨hrent, hclock, hhistory, hconfig, hsystem, hstake, rfl⟩ := h
    refine covers_iff_of_eq ?_ trivial
    simp only [Call.build, Py.addValidatorToPool, hrent, hclock, hhistory, hconfig, hsystem, hstake]
    rfl
  | addValidatorToPoolWithVote stakePoolProgramId programId stakePool staker validatorList reserveStake
      validator seed =>
    obtain ⟨rfl, p, rfl, rfl, rfl, rfl⟩ := h
    exact covers_iff_of_eq rfl trivial
  | removeValidatorFromPool q =>
    obtain ⟨hclock, hstake, rfl⟩ := h
    refine covers_iff_of_eq ?_ trivial
    simp only [Call.build, Py.removeValidatorFromPool, hclock, hstake]
    rfl
  | removeValidatorFromPoolWithVote stakePoolProgramId programId stakePool staker validatorList validator
      seed transientSeed =>
    obtain ⟨rfl, p, rfl, rfl, rfl⟩ := h
    exact covers_iff_of_eq rfl trivial
  | depositStake q =>
    obtain ⟨hclock, hhistory, hstake, rfl⟩ := h
    simp only [Call.build, Py.depositStake, hclock, hhistory, hstake]
    exact covers_depositAuthority rt q.stakePool q.depositAuthority _ _ _
  | withdrawStake q =>
    obtain ⟨hclock, hstake, rfl⟩ := h
    refine covers_iff_of_eq ?_ trivial
    simp only [Call.build, Py.withdrawStake, hclock, hstake]
    rfl
  | depositSol q =>
    obtain ⟨hsystem, rfl⟩ := h
    refine covers_iff_of_eq ?_ trivial
    simp only [Call.build, Py.depositSol, hsystem]
    rfl
  | withdrawSol q =>
    obtain ⟨hclock, hhistory, hstake, rfl⟩ := h
    simp only [Call.build, Py.withdrawSol, hclock, hhistory, hstake]
    exact covers_left_out _ q.solWithdrawAuthority
  | updateValidatorListBalance q =>
    obtain ⟨hclock, hhistory, hstake, l, len, hpairs, hchunk⟩ := h
    refine covers_iff_of_eq ?_ trivial
    rw [Builder.updateChunk_accounts hchunk, ← hpairs]
    simp only [Call.build, Py.updateValidatorListBalance, hclock, hhistory, hstake]
    rfl
  | updateStakePoolBalance q =>
    cases h
    exact covers_iff_of_eq rfl trivial
  | cleanupRemovedValidatorEntries q =>
    cases h
    refine ⟨fun hcovers => ?_, False.elim⟩
    obtain ⟨c, hc, -, -, hwritable⟩ := hcovers.key_eq (i := 0) rfl
    cases hc
    cases hwritable rfl
  | increaseValidatorStake q =>
    obtain ⟨hclock, hrent, hhistory, hconfig, hsystem, hstake, rfl⟩ := h
    refine covers_iff_of_eq ?_ trivial
    simp only [Call.build, Py.increaseValidatorStake, hrent, hclock, hhistory, hconfig, hsystem, hstake]
    rfl
  | increaseAdditionalValidatorStake q =>
    obtain ⟨hclock, hhistory, hconfig, hsystem, hstake, rfl⟩ := h
    refine covers_iff_of_eq ?_ trivial
    simp only [Call.build, Py.increaseAdditionalValidatorStake, hclock, hhistory, hconfig, hsystem, hstake]
    rfl
  | decreaseValidatorStake q =>
    obtain ⟨hclock, hrent, hsystem, hstake, rfl⟩ := h
    refine covers_iff_of_eq ?_ trivial
    simp only [Call.build, Py.decreaseValidatorStake, hclock, hrent, hsystem, hstake]
    rfl
  | decreaseAdditionalValidatorStake q =>
    obtain ⟨hclock, hhistory, hsystem, hstake, rfl⟩ := h
    refine covers_iff_of_eq ?_ trivial
    simp only [Call.build, Py.decreaseAdditionalValidatorStake, hclock, hhistory, hsystem, hstake]
    rfl
  | decreaseValidatorStakeWithReserve q =>
    obtain ⟨hclock, hhistory, hsystem, hstake, rfl⟩ := h
    refine covers_iff_of_eq ?_ trivial
    simp only [Call.build, Py.decreaseValidatorStakeWithReserve, hclock, hhistory, hsystem, hstake]
    rfl
  | createTokenMetadata q =>
    obtain ⟨hauthority, hmetadata, hprogram, hsystem, rfl⟩ := h
    refine covers_iff_of_eq ?_ trivial
    simp only [Call.build, Py.createTokenMetadata, hauthority, hmetadata, hprogram, hsystem]
    rfl
  | updateTokenMetadata q =>
    obtain ⟨hauthority, hmetadata, hprogram, rfl⟩ := h
    refine covers_iff_of_eq ?_ trivial
    simp only [Call.build, Py.updateTokenMetadata, hauthority, hmetadata, hprogram]
    rfl

end Py

/-! ## The JavaScript client -/

namespace JsLegacy

inductive Call where
  | addValidatorToPool (params : AddValidatorToPoolParams)
  | removeValidatorFromPool (params : RemoveValidatorFromPoolParams)
  | updateValidatorListBalance (params : UpdateValidatorListBalanceParams)
  | updateStakePoolBalance (params : UpdateStakePoolBalanceParams)
  | cleanupRemovedValidatorEntries (params : CleanupRemovedValidatorEntriesParams)
  | increaseValidatorStake (params : IncreaseValidatorStakeParams)
  | increaseAdditionalValidatorStake (params : IncreaseAdditionalValidatorStakeParams)
  | decreaseValidatorStake (params : DecreaseValidatorStakeParams)
  | decreaseValidatorStakeWithReserve (params : DecreaseValidatorStakeWithReserveParams)
  | decreaseAdditionalValidatorStake (params : DecreaseAdditionalValidatorStakeParams)
  | depositStake (params : DepositStakeParams)
  | depositSol (params : DepositSolParams Nat)
  | depositWsolWithSession (params : DepositWsolWithSessionParams)
  | withdrawStake (params : WithdrawStakeParams)
  | withdrawSol (params : WithdrawSolParams)
  | withdrawWsolWithSession (params : WithdrawWsolWithSessionParams)
  | createTokenMetadata (params : CreateTokenMetadataParams)
  | updateTokenMetadata (params : UpdateTokenMetadataParams)

variable (rt : Runtime) (ids : ProgramIds)

/-- The instruction the builder returns; `none` where it throws. -/
def Call.build : Call → Option TransactionInstruction
  | .addValidatorToPool params => JsLegacy.addValidatorToPool rt ids params
  | .removeValidatorFromPool params => JsLegacy.removeValidatorFromPool rt ids params
  | .updateValidatorListBalance params => JsLegacy.updateValidatorListBalance rt ids params
  | .updateStakePoolBalance params => JsLegacy.updateStakePoolBalance rt ids params
  | .cleanupRemovedValidatorEntries params => JsLegacy.cleanupRemovedValidatorEntries ids params
  | .increaseValidatorStake params => JsLegacy.increaseValidatorStake rt ids params
  | .increaseAdditionalValidatorStake params => JsLegacy.increaseAdditionalValidatorStake rt ids params
  | .decreaseValidatorStake params => JsLegacy.decreaseValidatorStake rt ids params
  | .decreaseValidatorStakeWithReserve params =>
    JsLegacy.decreaseValidatorStakeWithReserve rt ids params
  | .decreaseAdditionalValidatorStake params => JsLegacy.decreaseAdditionalValidatorStake rt ids params
  | .depositStake params => JsLegacy.depositStake rt ids params
  | .depositSol params => JsLegacy.depositSol rt ids params
  | .depositWsolWithSession params => buildDepositWsolWithSessionInstruction rt params
  | .withdrawStake params => JsLegacy.withdrawStake rt ids params
  | .withdrawSol params => JsLegacy.withdrawSol rt ids params
  | .withdrawWsolWithSession params => buildWithdrawWsolWithSessionInstruction rt params
  | .createTokenMetadata params => JsLegacy.createTokenMetadata rt ids params
  | .updateTokenMetadata params => JsLegacy.updateTokenMetadata rt ids params

/-- `b` is what the program's builder makes of the same parameters, on the token program that is written
in the client where it takes none. -/
def Call.Counterpart : Call → BuiltInstruction → Prop
  | .addValidatorToPool q, b => b = Builder.addValidatorToPool rt q.stakePool q.staker q.reserveStake
      q.withdrawAuthority q.validatorList q.validatorStake q.validatorVote (.ofNat (q.seed.getD 0))
  | .removeValidatorFromPool q, b => b = Builder.removeValidatorFromPool rt q.stakePool q.staker
      q.withdrawAuthority q.validatorList q.validatorStake q.transientStake
  | .updateValidatorListBalance q, b => ∃ (l : StakePoolFogo.ValidatorList) (len : Nat),
      q.validatorAndTransientStakePairs = ((l.validators.drop q.startIndex).take len).flatMap
        (Builder.entryPair rt q.stakePool) ∧
      Builder.updateValidatorListBalanceChunk rt q.stakePool q.withdrawAuthority q.validatorList
        q.reserveStake l len q.startIndex q.noMerge = .ok b
  | .updateStakePoolBalance q, b => b = Builder.updateStakePoolBalance q.stakePool q.withdrawAuthority
      q.validatorList q.reserveStake q.managerFeeAccount q.poolMint rt.splTokenId
  | .cleanupRemovedValidatorEntries q, b =>
      b = Builder.cleanupRemovedValidatorEntries q.stakePool q.validatorList
  | .increaseValidatorStake q, b => b = Builder.increaseValidatorStake rt q.stakePool q.staker
      q.withdrawAuthority q.validatorList q.reserveStake q.transientStake q.validatorStake
      q.validatorVote (.ofNat q.lamports) (.ofNat q.transientStakeSeed)
  | .increaseAdditionalValidatorStake q, b => b = Builder.increaseAdditionalValidatorStake rt q.stakePool
      q.staker q.withdrawAuthority q.validatorList q.reserveStake q.ephemeralStake q.transientStake
      q.validatorStake q.validatorVote (.ofNat q.lamports) (.ofNat q.transientStakeSeed)
      (.ofNat q.ephemeralStakeSeed)
  | .decreaseValidatorStake q, b => b = Builder.decreaseValidatorStake rt q.stakePool q.staker
      q.withdrawAuthority q.validatorList q.validatorStake q.transientStake (.ofNat q.lamports)
      (.ofNat q.transientStakeSeed)
  | .decreaseValidatorStakeWithReserve q, b => b = Builder.decreaseValidatorStakeWithReserve rt
      q.stakePool q.staker q.withdrawAuthority q.validatorList q.reserveStake q.validatorStake
      q.transientStake (.ofNat q.lamports) (.ofNat q.transientStakeSeed)
  | .decreaseAdditionalValidatorStake q, b => b = Builder.decreaseAdditionalValidatorStake rt q.stakePool
      q.staker q.withdrawAuthority q.validatorList q.reserveStake q.validatorStake q.ephemeralStake
      q.transientStake (.ofNat q.lamports) (.ofNat q.transientStakeSeed) (.ofNat q.ephemeralStakeSeed)
  | .depositStake q, b => b = Builder.depositStakeInternal rt q.stakePool q.validatorList
      (givenDepositAuthority rt q.stakePool q.depositAuthority) q.withdrawAuthority q.depositStake
      q.validatorStake q.reserveStake q.destinationPoolAccount q.managerFeeAccount q.referralPoolAccount
      q.poolMint rt.splTokenId none
  | .depositSol q, b => b = Builder.depositSolInternal rt q.stakePool q.withdrawAuthority q.reserveStake
      q.fundingAccount q.destinationPoolAccount q.managerFeeAccount q.referralPoolAccount q.poolMint
      rt.splTokenId q.depositAuthority (.ofNat q.lamports) none
  | .depositWsolWithSession q, b => b = Builder.depositWsolWithSession q.signerOrSession q.feePayer
      q.programSigner q.userWsolAccount q.transientWsolPda q.wsolMint q.stakePool q.withdrawAuthority
      q.solDepositAuthority q.reserveStake q.destinationPoolAccount q.managerFeeAccount
      q.referralPoolAccount q.poolMint q.tokenProgramId rt.systemProgramId (.ofNat q.lamports)
  | .withdrawStake q, b => b = Builder.withdrawStakeInternal rt q.stakePool q.validatorList
      q.withdrawAuthority q.validatorStake q.destinationStake q.destinationStakeAuthority
      q.sourceTransferAuthority q.sourcePoolAccount q.managerFeeAccount q.poolMint rt.splTokenId
      (.ofNat q.poolTokens) none
  | .withdrawSol q, b => b = Builder.withdrawSolInternal rt q.stakePool q.withdrawAuthority
      q.sourceTransferAuthority q.sourcePoolAccount q.reserveStake q.destinationSystemAccount
      q.managerFeeAccount q.poolMint rt.splTokenId q.solWithdrawAuthority (.ofNat q.poolTokens) none
  | .withdrawWsolWithSession q, b => b = Builder.withdrawWsolWithSession rt q.stakePool
      q.withdrawAuthority q.userTransferAuthority q.poolTokensFrom q.reserveStake q.userWsolAccount
      q.managerFeeAccount q.poolMint q.tokenProgramId q.solWithdrawAuthority q.wsolMint q.feePayer
      q.userOwner rt.systemProgramId q.programSigner rt.associatedTokenProgramId (.ofNat q.poolTokens)
  | .createTokenMetadata q, b =>
      q.withdrawAuthority = (StakePoolFogo.findWithdrawAuthorityProgramAddress rt q.stakePool).1 ∧
      q.tokenMetadata = (findMetadataAccount rt q.poolMint).1 ∧
      b = Builder.createTokenMetadata rt q.stakePool q.manager q.poolMint q.payer (utf8Buffer q.name)
        (utf8Buffer q.symbol) (utf8Buffer q.uri)
  | .updateTokenMetadata q, b =>
      q.withdrawAuthority = (StakePoolFogo.findWithdrawAuthorityProgramAddress rt q.stakePool).1 ∧
      ∃ poolMint, q.tokenMetadata = (findMetadataAccount rt poolMint).1 ∧
        b = Builder.updateTokenMetadata rt q.stakePool q.manager poolMint (utf8Buffer q.name)
          (utf8Buffer q.symbol) (utf8Buffer q.uri)

/-- The calls whose accounts are the program's: deposits of stake into a pool without a deposit authority
of its own, and every other call but the clean-up and the new metadata. -/
def Call.InStep : Call → Prop
  | .depositStake q => q.depositAuthority = (findDepositAuthorityProgramAddress rt q.stakePool).1
  | .cleanupRemovedValidatorEntries _ | .createTokenMetadata _ => False
  | _ => True

variable {rt ids}

theorem createTokenMetadata_keys {params : CreateTokenMetadataParams} {i : TransactionInstruction}
    (h : JsLegacy.createTokenMetadata rt ids params = some i) : i.keys.length = 9 := by
  obtain ⟨data, -, hi⟩ := Option.bind_eq_some_iff.mp h
  cases hi
  rfl

theorem updateTokenMetadata_keys {params : UpdateTokenMetadataParams} {i : TransactionInstruction}
    (h : JsLegacy.updateTokenMetadata rt ids params = some i) :
    i.keys = [⟨params.stakePool, false, false⟩, ⟨params.manager, true, false⟩,
      ⟨params.withdrawAuthority, false, false⟩, ⟨params.tokenMetadata, false, true⟩,
      ⟨rt.mplTokenMetadataId, false, false⟩] := by
  obtain ⟨data, -, hi⟩ := Option.bind_eq_some_iff.mp h
  cases hi
  rfl

theorem Call.covers_iff {call : Call} {i : TransactionInstruction} {b : BuiltInstruction}
    (hi : call.build rt ids = some i) (h : call.Counterpart rt b) :
    Covers i.keys b.accounts ↔ call.InStep rt := by
  cases call with
  | addValidatorToPool q | removeValidatorFromPool q | updateStakePoolBalance q | increaseValidatorStake q
  | increaseAdditionalValidatorStake q | decreaseValidatorStake q | decreaseValidatorStakeWithReserve q
  | decreaseAdditionalValidatorStake q | depositSol q | depositWsolWithSession q | withdrawStake q
  | withdrawSol q =>
    cases hi
    cases h
    exact covers_iff_of_eq rfl trivial
  | updateValidatorListBalance q =>
    cases hi
    obtain ⟨l, len, hpairs, hchunk⟩ := h
    refine covers_iff_of_eq ?_ trivial
    rw [Builder.updateChunk_accounts hchunk, ← hpairs]
    rfl
  | cleanupRemovedValidatorEntries q =>
    cases hi
    cases h
    refine ⟨fun hcovers => ?_, False.elim⟩
    obtain ⟨c, hc, -, -, hwritable⟩ := hcovers.key_eq (i := 0) rfl
    cases hc
    cases hwritable rfl
  | depositStake q =>
    cases hi
    cases h
    exact covers_depositAuthority rt q.stakePool q.depositAuthority _ _ _
  | withdrawWsolWithSession q =>
    cases hi
    cases h
    refine ⟨fun _ => trivial, fun _ => ?_⟩
    -- The client also lets the transfer authority be written.
    refine Covers.append ?_ (.refl _)
    refine .cons ⟨rfl, id, id⟩ (.cons ⟨rfl, id, id⟩ (.cons ⟨rfl, id, fun _ => rfl⟩ ?_))
    exact Covers.refl _
  | createTokenMetadata q =>
    obtain ⟨hauthority, hmetadata, rfl⟩ := h
    refine ⟨fun hcovers => ?_, False.elim⟩
    -- The rent sysvar at the end is one key too many.
    have hlength := hcovers.length_eq
    rw [createTokenMetadata_keys hi] at hlength
    cases hlength
  | updateTokenMetadata q =>
    obtain ⟨hauthority, poolMint, hmetadata, rfl⟩ := h
    refine covers_iff_of_eq ?_ trivial
    rw [updateTokenMetadata_keys hi, hauthority, hmetadata]
    rfl

end JsLegacy

/-! ## What the clean-up leaves of the preferred validators -/

section

variable {rt : Runtime} {w w' w₁ w₂ : Ledger} {pool list : Pubkey} {p : StakePool} {l : ValidatorList}

/-- A pool that is passed for reading only keeps its preferred validators. -/
theorem cleanup_readonly (hp : PoolAt rt w pool p) (hl : ListAt rt w p.validatorList l)
    {others : List AccountMeta}
    (h : processCleanupRemovedValidatorEntries rt (⟨pool, false, false⟩ :: others) w = .ok w') :
    PoolAt rt w' pool p := by
  obtain ⟨⟨a, q, m, ha, hq, -, hresult⟩⟩ := processCleanupRemovedValidatorEntries_run rt h
  cases ha
  obtain rfl := hp.unique hq
  rcases onlyIf_eq_ok.mp hresult with ⟨hwritable, -⟩ | ⟨-, rfl⟩
  · cases hwritable
  · have hother := Ledger.set_other w { w p.validatorList with data := .validatorList m.cleaned }
      (hp.ne_list hl)
    exact ⟨by rw [writeValidatorList, hother]; exact hp.owner,
      by rw [writeValidatorList, hother]; exact hp.data, hp.valid⟩

/-- A pool that may be written loses the preferred validators that are not active any more. -/
theorem cleanup_writable (hp : PoolAt rt w pool p) (hl : ListAt rt w p.validatorList l)
    {others : List AccountMeta}
    (h : processCleanupRemovedValidatorEntries rt (⟨pool, false, true⟩ :: others) w = .ok w') :
    PoolAt rt w' pool (p.keepListed l.cleaned) := by
  obtain ⟨⟨a, q, m, ha, hq, hm, hresult⟩⟩ := processCleanupRemovedValidatorEntries_run rt h
  cases ha
  obtain rfl := hp.unique hq
  obtain rfl := hl.unique hm
  rcases onlyIf_eq_ok.mp hresult with ⟨-, hwrite⟩ | ⟨hreadonly, -⟩
  · obtain ⟨-, rfl⟩ := writeStakePool_eq_ok.mp hwrite
    have hother := Ledger.set_other w { w p.validatorList with data := .validatorList l.cleaned }
      (hp.ne_list hl)
    refine ⟨?_, ?_, hp.valid⟩
    · rw [Ledger.set_same, writeValidatorList, hother]
      exact hp.owner
    · rw [Ledger.set_same]
  · exact absurd rfl hreadonly

/-- Clean-ups with and without leave to write the pool differ in it exactly where a preferred validator
is to be reset. -/
theorem cleanup_same_pool (hp : PoolAt rt w pool p) (hl : ListAt rt w p.validatorList l)
    {others others' : List AccountMeta}
    (h₁ : processCleanupRemovedValidatorEntries rt (⟨pool, false, false⟩ :: others) w = .ok w₁)
    (h₂ : processCleanupRemovedValidatorEntries rt (⟨pool, false, true⟩ :: others') w = .ok w₂) :
    (w₁ pool).data = (w₂ pool).data ↔ p.keepListed l.cleaned = p := by
  rw [(cleanup_readonly hp hl h₁).data, (cleanup_writable hp hl h₂).data, AccountData.stakePool.injEq]
  exact eq_comm

end

/-- The clients' accounts are the program's for the calls in step and for no others, and the clean-ups
of the clients leave the pool as the program's own does exactly where no preferred validator is to be
reset. -/
theorem client_accounts_agree (rt : Runtime) (ids : JsLegacy.ProgramIds) :
    (∀ (call : Py.Call) (b : BuiltInstruction), call.Counterpart rt b →
      (Covers (call.build rt).accounts b.accounts ↔ call.InStep rt)) ∧
    (∀ (call : JsLegacy.Call) (i : JsLegacy.TransactionInstruction) (b : BuiltInstruction),
      call.build rt ids = some i → call.Counterpart rt b →
      (Covers i.keys b.accounts ↔ call.InStep rt)) ∧
    ∀ (pool list programId : Pubkey) (p : StakePool) (l : ValidatorList) (w wPy wJs wRust : Ledger),
      PoolAt rt w pool p → ListAt rt w p.validatorList l →
      processCleanupRemovedValidatorEntries rt
        (Py.cleanupRemovedValidatorEntries ⟨programId, pool, list⟩).accounts w = .ok wPy →
      processCleanupRemovedValidatorEntries rt
        (JsLegacy.cleanupRemovedValidatorEntries ids ⟨programId, pool, list⟩).keys w = .ok wJs →
      processCleanupRemovedValidatorEntries rt
        (Builder.cleanupRemovedValidatorEntries pool list).accounts w = .ok wRust →
      ((wPy pool).data = (wRust pool).data ↔ p.keepListed l.cleaned = p) ∧
        ((wJs pool).data = (wRust pool).data ↔ p.keepListed l.cleaned = p) := by
  refine ⟨fun call b h => Py.Call.covers_iff h, fun call i b hi h => JsLegacy.Call.covers_iff hi h, ?_⟩
  intro pool list programId p l w wPy wJs wRust hp hl hpy hjs hrust
  exact ⟨cleanup_same_pool hp hl hpy hrust, cleanup_same_pool hp hl hjs hrust⟩

/-! ## A pool that prefers a validator it does not list -/

namespace Reference

def stalePool : StakePool := { StakePool.zeroed with
  accountType := .stakePool
  validatorList := validatorList
  preferredDepositValidatorVoteAddress := some (key 70) }

def staleList : ValidatorList := ⟨⟨.validatorList, 3⟩, []⟩

def staleLedger : Ledger := fun k =>
  if k = pool then ⟨0, programId, 1000, .stakePool stalePool⟩
  else if k = validatorList then ⟨0, programId, 1000, .validatorList staleList⟩
  else emptyAccount

theorem stalePool_at : PoolAt runtime staleLedger pool stalePool := ⟨rfl, rfl, by decide⟩

theorem staleList_at : ListAt runtime staleLedger stalePool.validatorList staleList :=
  ⟨by decide +kernel, by decide +kernel, by decide⟩

def solWithdrawal (authority : Option Pubkey) : Py.WithdrawSolParams where
  programId := programId
  stakePool := pool
  withdrawAuthority := withdrawAuthority
  sourceTransferAuthority := key 60
  sourcePoolAccount := key 61
  reserveStake := reserve
  destinationSystemAccount := key 60
  managerFeeAccount := managerFee
  poolMint := mint
  clockSysvar := runtime.clockId
  stakeHistorySysvar := runtime.stakeHistoryId
  stakeProgramId := stakeProgramId
  tokenProgramId := splTokenId
  amount := 5
  solWithdrawAuthority := authority

/-- What the program's builder makes of the withdrawal. -/
def solWithdrawalBuilt (authority : Option Pubkey) : BuiltInstruction :=
  Builder.withdrawSolInternal runtime pool withdrawAuthority (key 60) (key 61) reserve (key 60) managerFee
    mint splTokenId authority 5 none

theorem solWithdrawal_counterpart (authority : Option Pubkey) :
    (Py.Call.withdrawSol (solWithdrawal authority)).Counterpart runtime (solWithdrawalBuilt authority) :=
  ⟨rfl, rfl, rfl, rfl⟩

def cleanedByClient : Except ProgramError Ledger :=
  processCleanupRemovedValidatorEntries runtime [⟨pool, false, false⟩, ⟨validatorList, false, true⟩]
    staleLedger

def cleanedByProgram : Except ProgramError Ledger :=
  processCleanupRemovedValidatorEntries runtime [⟨pool, false, true⟩, ⟨validatorList, false, true⟩]
    staleLedger

theorem cleanedByClient_succeeds : ∃ w, cleanedByClient = .ok w :=
  succeeded_iff.mp (by decide +kernel)

theorem cleanedByProgram_succeeds : ∃ w, cleanedByProgram = .ok w :=
  succeeded_iff.mp (by decide +kernel)

end Reference

open Reference in
theorem client_accounts_agree_sample :
    (Covers (Py.withdrawSol (solWithdrawal none)).accounts (solWithdrawalBuilt none).accounts ∧
      ¬ Covers (Py.withdrawSol (solWithdrawal (some (key 62)))).accounts
        (solWithdrawalBuilt (some (key 62))).accounts) ∧
    ¬ Covers (JsLegacy.cleanupRemovedValidatorEntries ⟨key 1, key 2⟩ ⟨none, pool, validatorList⟩).keys
      (Builder.cleanupRemovedValidatorEntries pool validatorList).accounts ∧
    ∃ wClient wProgram, cleanedByClient = .ok wClient ∧ cleanedByProgram = .ok wProgram ∧
      (wClient pool).data ≠ (wProgram pool).data := by
  obtain ⟨hpy, hjs, hcleanup⟩ := client_accounts_agree runtime ⟨key 1, key 2⟩
  have hnone := hpy _ _ (solWithdrawal_counterpart none)
  have hsome := hpy _ _ (solWithdrawal_counterpart (some (key 62)))
  have hclean := hjs (.cleanupRemovedValidatorEntries ⟨none, pool, validatorList⟩) _
    (Builder.cleanupRemovedValidatorEntries pool validatorList) rfl rfl
  obtain ⟨wClient, hclient⟩ := cleanedByClient_succeeds
  obtain ⟨wProgram, hprogram⟩ := cleanedByProgram_succeeds
  obtain ⟨hsame, -⟩ := hcleanup pool validatorList (key 1) stalePool staleList staleLedger wClient wClient
    wProgram stalePool_at staleList_at hclient hclient hprogram
  refine ⟨⟨hnone.mpr rfl, fun h => Option.some_ne_none _ (hsome.mp h)⟩, fun h => (hclean.mp h).elim,
    wClient, wProgram, hclient, hprogram, fun h => ?_⟩
  have hkept := congrArg StakePool.preferredDepositValidatorVoteAddress (hsame.mp h)
  revert hkept
  decide

open Reference in
/-- The Python client drops the authority of a withdrawal, and neither client's clean-up resets the
preferred validators. -/
theorem client_accounts_differ :
    ¬ (Covers (Py.withdrawSol (solWithdrawal (some (key 62)))).accounts
        (solWithdrawalBuilt (some (key 62))).accounts) ∧
    ¬ (∃ a ∈ (Py.withdrawSol (solWithdrawal (some (key 62)))).accounts, a.key = key 62) ∧
    ¬ (∀ wClient wProgram, cleanedByClient = .ok wClient → cleanedByProgram = .ok wProgram →
        (wClient pool).data = (wProgram pool).data) := by
  refine ⟨fun h => ?_, by decide +kernel, fun h => ?_⟩
  · have hlength := h.length_eq
    revert hlength
    decide
  · obtain ⟨wClient, hclient⟩ := cleanedByClient_succeeds
    obtain ⟨wProgram, hprogram⟩ := cleanedByProgram_succeeds
    have hsame := (cleanup_same_pool stalePool_at staleList_at hclient hprogram).mp
      (h wClient wProgram hclient hprogram)
    have hkept := congrArg StakePool.preferredDepositValidatorVoteAddress hsame
    revert hkept
    decide

end StakePoolFogo
