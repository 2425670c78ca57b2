import StakePoolFogo.JsLegacy.Builders
import StakePoolFogo.Py.Instructions
import StakePoolFogo.Reference

/-!
# The clients and the program

Where the JavaScript and the Python client meet the program: the bytes of their instructions, and what
the JavaScript client reads back from the instructions it built.
-/

namespace StakePoolFogo

open JsLegacy in
/-- The program decodes the JavaScript client's data exactly for the entries whose layout has all the
fields of the instruction, and the Python client's data for every entry that is not marked `TODO`. -/
theorem encoders_match (e : StakePoolInstructionType) (values : FieldName → Nat)
    (hvalues : ∀ f ∈ (layouts e).layout.tail, f.1.Fits f.2 (values f.1))
    {type : Py.InstructionType} {args : Py.Args} (htakes : type.Takes args) (hfits : args.Fits)
    (htodo : type.todo = false) :
    (e.Decodes values ↔ e ∉ [.redelegate, .withdrawStakeWithSlippage, .depositSolWithSlippage,
        .withdrawSolWithSlippage]) ∧
      ∃ i, type.variant args = some i ∧
        StakePoolInstruction.tryFromSlice (Py.build type args) = .ok i := by
  refine ⟨(decodes_iff e values hvalues).trans ?_, Py.tryFromSlice_build htakes hfits htodo⟩
  cases e <;> decide

open JsLegacy in
/-- A withdrawal of SOL and an update of the list. -/
theorem encoders_match_update :
    StakePoolInstructionType.withdrawSol.Decodes (fun _ => 5) ∧
      StakePoolInstruction.tryFromSlice (Py.build .updateValidatorListBalance (.update 4 true)) =
        .ok (.updateValidatorListBalance 4 true) := by
  have hvalues : ∀ f ∈ (layouts .withdrawSol).layout.tail, f.1.Fits f.2 5 := by
    intro f hf
    rw [List.mem_singleton.mp hf]
    exact (by decide : 5 < 2 ^ 53)
  have htakes : Py.InstructionType.updateValidatorListBalance.Takes (.update 4 true) := trivial
  obtain ⟨hjs, i, hvariant, hpy⟩ := encoders_match .withdrawSol (fun _ => 5) hvalues htakes trivial rfl
  cases hvariant
  exact ⟨hjs.mpr (by decide), hpy⟩

open JsLegacy in
/-- The layout of `WithdrawStakeWithSlippage` has no room for the minimum. -/
theorem encoders_match_fails_slippage :
    ¬ StakePoolInstructionType.withdrawStakeWithSlippage.Decodes fun _ => 5 := by
  have hvalues : ∀ f ∈ (layouts .withdrawStakeWithSlippage).layout.tail, f.1.Fits f.2 5 := by
    intro f hf
    rw [List.mem_singleton.mp hf]
    exact (by decide : 5 < 2 ^ 53)
  intro h
  have hfull := (decodes_iff .withdrawStakeWithSlippage (fun _ => 5) hvalues).mp h
  cases hfull

/-! ## Decoders and builders -/

open JsLegacy in
/-- Neither decoder throws on what the builders make.  A deposit of stake comes back as it was, a
deposit of SOL never does: its amount is looked up under another name. -/
theorem decoders_invert (rt : Runtime) (ids : ProgramIds) :
    (∀ p : DepositStakeParams, ids.Accepts p.programId →
      ∃ r, decodeDepositStake ids (depositStake rt ids p) = some r ∧ p.Restores r) ∧
    ∀ q : DepositSolParams Nat, ids.Accepts q.programId →
      ∃ r, decodeDepositSol ids (depositSol rt ids q) = some r ∧ ¬ q.Restores r := by
  refine ⟨fun p h => ?_, fun q h => ?_⟩
  · refine ⟨_, decodeDepositStake_depositStake rt p h, ?_, rfl⟩
    intro id hid
    rw [hid]
    rfl
  · refine ⟨_, decodeDepositSol_depositSol rt q h, ?_⟩
    rintro ⟨-, -, hfields⟩
    have hlamports := congrArg DepositSolParams.lamports hfields
    cases hlamports

open JsLegacy in
/-- Parameters on the program of the first address, with a deposit authority. -/
def sampleStakeParams : DepositStakeParams where
  programId := some (Reference.key 1)
  stakePool := Reference.pool
  validatorList := Reference.validatorList
  depositAuthority := Reference.key 50
  withdrawAuthority := Reference.key 51
  depositStake := Reference.key 52
  validatorStake := Reference.key 53
  reserveStake := Reference.reserve
  destinationPoolAccount := Reference.key 54
  managerFeeAccount := Reference.managerFee
  referralPoolAccount := Reference.key 55
  poolMint := Reference.mint

open JsLegacy in
def sampleSolParams : DepositSolParams Nat where
  programId := none
  stakePool := Reference.pool
  depositAuthority := none
  withdrawAuthority := Reference.key 51
  reserveStake := Reference.reserve
  fundingAccount := Reference.key 56
  destinationPoolAccount := Reference.key 54
  managerFeeAccount := Reference.managerFee
  referralPoolAccount := Reference.key 55
  poolMint := Reference.mint
  lamports := 5

open JsLegacy in
def sampleIds : ProgramIds := ⟨Reference.key 1, Reference.key 2⟩

open JsLegacy in
theorem decoders_invert_sample :
    (∃ r, decodeDepositStake sampleIds (depositStake Reference.runtime sampleIds sampleStakeParams) =
      some r ∧ sampleStakeParams.Restores r) ∧
    ∃ r, decodeDepositSol sampleIds (depositSol Reference.runtime sampleIds sampleSolParams) =
      some r ∧ ¬ sampleSolParams.Restores r := by
  obtain ⟨hstake, hsol⟩ := decoders_invert Reference.runtime sampleIds
  refine ⟨hstake sampleStakeParams ?_, hsol sampleSolParams ?_⟩
  · intro id hid
    exact .inl (Option.some.inj hid).symm
  · intro id hid
    cases hid

open JsLegacy in
/-- The withdraw authority comes back as the deposit authority, and the amount is undefined. -/
theorem decoders_swap_sol :
    decodeDepositSol sampleIds (depositSol Reference.runtime sampleIds sampleSolParams) = some {
      programId := some (Reference.key 1)
      stakePool := Reference.pool
      depositAuthority := some (Reference.key 51)
      withdrawAuthority := Reference.reserve
      reserveStake := Reference.key 56
      fundingAccount := Reference.key 54
      destinationPoolAccount := Reference.managerFee
      managerFeeAccount := Reference.key 55
      referralPoolAccount := Reference.mint
      poolMint := Reference.systemProgramId
      lamports := none } ∧
    ¬ ∃ r, decodeDepositSol sampleIds (depositSol Reference.runtime sampleIds sampleSolParams) =
      some r ∧ sampleSolParams.Restores r := by
  have hids : sampleIds.Accepts sampleSolParams.programId := by
    intro id hid
    cases hid
  have hdecoded := decodeDepositSol_depositSol Reference.runtime sampleSolParams hids
  refine ⟨hdecoded, ?_⟩
  rintro ⟨r, hr, -, -, hfields⟩
  cases hdecoded.symm.trans hr
  cases congrArg DepositSolParams.lamports hfields

end StakePoolFogo
