import StakePoolFogo.Py.State

/-!
# The Python client's instruction data

`stake_pool/instructions.py`: the layouts of `INSTRUCTIONS_LAYOUT` and what the program makes of the
bytes they build.
-/

open StakePoolFogo.Borsh StakePoolFogo.Codec

namespace StakePoolFogo.Py

inductive InstructionType where
  | initializePool
  | addValidatorToPool
  | removeValidatorFromPool
  | decreaseValidatorStake
  | increaseValidatorStake
  | setPreferredValidator
  | updateValidatorListBalance
  | updateStakePoolBalance
  | cleanupRemovedValidatorEntries
  | depositStake
  | withdrawStake
  | setManager
  | setFee
  | setStaker
  | depositSol
  | setFundingAuthority
  | withdrawSol
  | createTokenMetadata
  | updateTokenMetadata
  | increaseAdditionalValidatorStake
  | decreaseAdditionalValidatorStake
  | decreaseValidatorStakeWithReserve
deriving DecidableEq, Repr

def InstructionType.value : InstructionType → UInt8
  | .initializePool => 0
  | .addValidatorToPool => 1
  | .removeValidatorFromPool => 2
  | .decreaseValidatorStake => 3
  | .increaseValidatorStake => 4
  | .setPreferredValidator => 5
  | .updateValidatorListBalance => 6
  | .updateStakePoolBalance => 7
  | .cleanupRemovedValidatorEntries => 8
  | .depositStake => 9
  | .withdrawStake => 10
  | .setManager => 11
  | .setFee => 12
  | .setStaker => 13
  | .depositSol => 14
  | .setFundingAuthority => 15
  | .withdrawSol => 16
  | .createTokenMetadata => 17
  | .updateTokenMetadata => 18
  | .increaseAdditionalValidatorStake => 19
  | .decreaseAdditionalValidatorStake => 20
  | .decreaseValidatorStakeWithReserve => 21

/-- The entries of the table that are marked `TODO`. -/
def InstructionType.todo : InstructionType → Bool
  | .setPreferredValidator | .setManager | .setFee | .setStaker | .setFundingAuthority => true
  | _ => false

/-- The arguments the builders pass to `INSTRUCTIONS_LAYOUT.build`. -/
inductive Args where
  | none
  | initializePool (epochFee withdrawalFee depositFee : StakePoolFogo.Fee) (referralFee : UInt8)
      (maxValidators : UInt32)
  | seed (seed : UInt32)
  | moveStake (lamports transientStakeSeed : UInt64)
  | moveStakeWithEphemeral (lamports transientStakeSeed ephemeralStakeSeed : UInt64)
  | update (startIndex : UInt32) (noMerge : Bool)
  | amount (amount : UInt64)
  | tokenMetadata (name symbol uri : String)
deriving DecidableEq, Repr

/-- `GreedyString("utf8")`. -/
def utf8 (s : String) : List UInt8 := s.toByteArray.data.toList

/-- `Prefixed(Int32ul, GreedyString("utf8"))`. -/
def prefixedString (s : String) : List UInt8 := leBytes 4 (utf8 s).length ++ utf8 s

/-- The bytes of the arguments by the layout that fits them. -/
def Args.build : Args → List UInt8
  | .none => []
  | .initializePool epochFee withdrawalFee depositFee referralFee maxValidators => List.flatten
      [epochFee.toBytes, withdrawalFee.toBytes, depositFee.toBytes, [referralFee],
        leBytes 4 maxValidators.toNat]
  | .seed n => leBytes 4 n.toNat
  | .moveStake lamports transientStakeSeed =>
      List.flatten [leBytes 8 lamports.toNat, leBytes 8 transientStakeSeed.toNat]
  | .moveStakeWithEphemeral lamports transientStakeSeed ephemeralStakeSeed => List.flatten
      [leBytes 8 lamports.toNat, leBytes 8 transientStakeSeed.toNat, leBytes 8 ephemeralStakeSeed.toNat]
  | .update startIndex noMerge => List.flatten [leBytes 4 startIndex.toNat, leBytes 1 noMerge.toNat]
  | .amount n => leBytes 8 n.toNat
  | .tokenMetadata name symbol uri =>
      List.flatten [prefixedString name, prefixedString symbol, prefixedString uri]

/-- The layout that `INSTRUCTIONS_LAYOUT` switches to takes these arguments. -/
def InstructionType.Takes : InstructionType → Args → Prop
  | .initializePool, .initializePool _ _ _ _ _ => True
  | .addValidatorToPool, .seed _ => True
  | .decreaseValidatorStake, .moveStake _ _ | .increaseValidatorStake, .moveStake _ _
  | .decreaseValidatorStakeWithReserve, .moveStake _ _ => True
  | .updateValidatorListBalance, .update _ _ => True
  | .withdrawStake, .amount _ | .depositSol, .amount _ | .withdrawSol, .amount _ => True
  | .createTokenMetadata, .tokenMetadata _ _ _ | .updateTokenMetadata, .tokenMetadata _ _ _ => True
  | .decreaseAdditionalValidatorStake, .moveStakeWithEphemeral _ _ _
  | .increaseAdditionalValidatorStake, .moveStakeWithEphemeral _ _ _ => True
  | .removeValidatorFromPool, .none | .setPreferredValidator, .none | .updateStakePoolBalance, .none
  | .cleanupRemovedValidatorEntries, .none | .depositStake, .none | .setManager, .none | .setFee, .none
  | .setStaker, .none | .setFundingAuthority, .none => True
  | _, _ => False

/-- `INSTRUCTIONS_LAYOUT.build`. -/
def build (type : InstructionType) (args : Args) : List UInt8 := type.value :: args.build

/-- The length of a string is written in four bytes. -/
def Args.Fits : Args → Prop
  | .tokenMetadata name symbol uri =>
    (utf8 name).length < 2 ^ 32 ∧ (utf8 symbol).length < 2 ^ 32 ∧ (utf8 uri).length < 2 ^ 32
  | _ => True

/-- The program's instruction of the same name with the same arguments. -/
def InstructionType.variant : InstructionType → Args → Option StakePoolInstruction
  | .initializePool, .initializePool fee withdrawalFee depositFee referralFee maxValidators =>
    some (.initializePool fee withdrawalFee depositFee referralFee maxValidators)
  | .addValidatorToPool, .seed seed => some (.addValidatorToPool seed)
  | .removeValidatorFromPool, .none => some .removeValidatorFromPool
  | .decreaseValidatorStake, .moveStake lamports seed => some (.decreaseValidatorStake lamports seed)
  | .increaseValidatorStake, .moveStake lamports seed => some (.increaseValidatorStake lamports seed)
  | .updateValidatorListBalance, .update startIndex noMerge =>
    some (.updateValidatorListBalance startIndex noMerge)
  | .updateStakePoolBalance, .none => some .updateStakePoolBalance
  | .cleanupRemovedValidatorEntries, .none => some .cleanupRemovedValidatorEntries
  | .depositStake, .none => some .depositStake
  | .withdrawStake, .amount amount => some (.withdrawStake amount)
  | .depositSol, .amount amount => some (.depositSol amount)
  | .withdrawSol, .amount amount => some (.withdrawSol amount)
  | .createTokenMetadata, .tokenMetadata name symbol uri =>
    some (.createTokenMetadata (utf8 name) (utf8 symbol) (utf8 uri))
  | .updateTokenMetadata, .tokenMetadata name symbol uri =>
    some (.updateTokenMetadata (utf8 name) (utf8 symbol) (utf8 uri))
  | .increaseAdditionalValidatorStake, .moveStakeWithEphemeral lamports seed ephemeral =>
    some (.increaseAdditionalValidatorStake lamports seed ephemeral)
  | .decreaseAdditionalValidatorStake, .moveStakeWithEphemeral lamports seed ephemeral =>
    some (.decreaseAdditionalValidatorStake lamports seed ephemeral)
  | .decreaseValidatorStakeWithReserve, .moveStake lamports seed =>
    some (.decreaseValidatorStakeWithReserve lamports seed)
  | _, _ => none

/-! ## Reading the data back -/

theorem reads_string {s : String} (h : (utf8 s).length < 2 ^ 32) :
    Reads readString (prefixedString s) (utf8 s) := by
  have hvalid : (ByteArray.mk (utf8 s).toArray).validateUTF8 = true := by
    rw [ByteArray.validateUTF8_eq_true_iff]
    exact s.isValidUTF8
  refine (reads_nat h).bind fun rest => ?_
  rw [(reads_bytes (utf8 s) rfl).step, if_pos hvalid]
  rfl

/-- Apart from the entries marked `TODO`, the program decodes what the layouts build to the instruction
of the same name. -/
theorem tryFromSlice_build {type : InstructionType} {args : Args} (hargs : type.Takes args)
    (hfits : args.Fits) (htodo : type.todo = false) :
    ∃ i, type.variant args = some i ∧ StakePoolInstruction.tryFromSlice (build type args) = .ok i := by
  suffices h : ∃ i, type.variant args = some i ∧ Reads readInstruction (build type args) i by
    obtain ⟨i, hvariant, hread⟩ := h
    exact ⟨i, hvariant, StakePoolInstruction.tryFromSlice_of_reads hread⟩
  cases args with
  | none =>
    cases type <;> first | exact False.elim hargs | cases htodo; done | exact ⟨_, rfl, (reads_u8 _).bind (.pure _)⟩
  | initializePool fee withdrawalFee depositFee referralFee maxValidators =>
    cases type <;> first | exact False.elim hargs | skip
    exact ⟨_, rfl, (reads_u8 0).bind (.field (reads_borshFee _) (.field (reads_borshFee _)
      (.field (reads_borshFee _) (.field (reads_u8 _) (.field (reads_borshU32 _) (.pure _))))))⟩
  | seed seed =>
    cases type <;> first | exact False.elim hargs | skip
    exact ⟨_, rfl, (reads_u8 1).bind ((reads_borshU32 _).last _)⟩
  | moveStake lamports seed =>
    cases type <;> first | exact False.elim hargs | skip
    all_goals exact ⟨_, rfl, (reads_u8 _).bind (.field (reads_borshU64 _) (.field (reads_borshU64 _)
      (.pure _)))⟩
  | moveStakeWithEphemeral lamports seed ephemeral =>
    cases type <;> first | exact False.elim hargs | skip
    all_goals exact ⟨_, rfl, (reads_u8 _).bind (.field (reads_borshU64 _) (.field (reads_borshU64 _)
      (.field (reads_borshU64 _) (.pure _))))⟩
  | update startIndex noMerge =>
    cases type <;> first | exact False.elim hargs | skip
    exact ⟨_, rfl, (reads_u8 6).bind (.field (reads_borshU32 _) (.field (reads_borshBool _) (.pure _)))⟩
  | amount amount =>
    cases type <;> first | exact False.elim hargs | skip
    all_goals exact ⟨_, rfl, (reads_u8 _).bind ((reads_borshU64 _).last _)⟩
  | tokenMetadata name symbol uri =>
    obtain ⟨hname, hsymbol, huri⟩ := hfits
    cases type <;> first | exact False.elim hargs | skip
    all_goals exact ⟨_, rfl, (reads_u8 _).bind (.field (reads_string hname) (.field (reads_string hsymbol)
      (.field (reads_string huri) (.pure _))))⟩

end StakePoolFogo.Py
