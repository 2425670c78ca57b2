import StakePoolFogo.JsLegacy.Layouts

/-!
# The JavaScript client's instructions

`instructions.ts` and `utils/instruction.ts`: the table of data layouts, the builders and the two
decoders.  Data fields are numbers of a layout, accounts are positional lists of keys with their flags.
-/

open StakePoolFogo.Codec

namespace StakePoolFogo.JsLegacy

/-! ## Data layouts -/

inductive FieldName where
  | instruction
  | seed
  | lamports
  | transientStakeSeed
  | ephemeralStakeSeed
  | startIndex
  | noMerge
  | poolTokens
  | amount
deriving DecidableEq, Repr

inductive Field where
  | u8
  | u32
  | ns64
deriving DecidableEq, Repr

namespace Field

def span : Field → Nat
  | .u8 => 1
  | .u32 => 4
  | .ns64 => 8

/-- A signed integer of eight bytes. -/
def nearInt64 : Layout UInt8 Int where
  decode b offset := do
    let low ← (uint 4).decode b offset
    let high ← (uint 4).decode b (offset + 4)
    return low + 2 ^ 32 * (if high < 2 ^ 31 then (high : Int) else high - 2 ^ 32)
  getSpan _ _ := some 8

def layout : Field → Layout UInt8 Int
  | .u8 => JsLegacy.u8.map Int.ofNat
  | .u32 => JsLegacy.u32.map Int.ofNat
  | .ns64 => nearInt64

end Field

structure InstructionType where
  index : UInt8
  layout : List (FieldName × Field)
deriving DecidableEq, Repr

inductive StakePoolInstructionType where
  | addValidatorToPool
  | removeValidatorFromPool
  | decreaseValidatorStake
  | increaseValidatorStake
  | updateValidatorListBalance
  | updateStakePoolBalance
  | cleanupRemovedValidatorEntries
  | depositStake
  | withdrawStake
  | depositSol
  | withdrawSol
  | increaseAdditionalValidatorStake
  | decreaseAdditionalValidatorStake
  | decreaseValidatorStakeWithReserve
  | redelegate
  | depositStakeWithSlippage
  | withdrawStakeWithSlippage
  | depositSolWithSlippage
  | withdrawSolWithSlippage
  | depositWsolWithSession
  | withdrawWsolWithSession
deriving DecidableEq, Repr

def moveStakeLayout : List (FieldName × Field) :=
  [(.instruction, .u8), (.lamports, .ns64), (.transientStakeSeed, .ns64)]

def updateValidatorListBalanceLayout : List (FieldName × Field) :=
  [(.instruction, .u8), (.startIndex, .u32), (.noMerge, .u8)]

/-- `STAKE_POOL_INSTRUCTION_LAYOUTS`. -/
def layouts : StakePoolInstructionType → InstructionType
  | .addValidatorToPool => ⟨1, [(.instruction, .u8), (.seed, .u32)]⟩
  | .removeValidatorFromPool => ⟨2, [(.instruction, .u8)]⟩
  | .decreaseValidatorStake => ⟨3, moveStakeLayout⟩
  | .increaseValidatorStake => ⟨4, moveStakeLayout⟩
  | .updateValidatorListBalance => ⟨6, updateValidatorListBalanceLayout⟩
  | .updateStakePoolBalance => ⟨7, [(.instruction, .u8)]⟩
  | .cleanupRemovedValidatorEntries => ⟨8, [(.instruction, .u8)]⟩
  | .depositStake => ⟨9, [(.instruction, .u8)]⟩
  | .withdrawStake => ⟨10, [(.instruction, .u8), (.poolTokens, .ns64)]⟩
  | .depositSol => ⟨14, [(.instruction, .u8), (.lamports, .ns64)]⟩
  | .withdrawSol => ⟨16, [(.instruction, .u8), (.poolTokens, .ns64)]⟩
  | .increaseAdditionalValidatorStake => ⟨19, [(.instruction, .u8), (.lamports, .ns64),
      (.transientStakeSeed, .ns64), (.ephemeralStakeSeed, .ns64)]⟩
  | .decreaseAdditionalValidatorStake => ⟨20, [(.instruction, .u8), (.lamports, .ns64),
      (.transientStakeSeed, .ns64), (.ephemeralStakeSeed, .ns64)]⟩
  | .decreaseValidatorStakeWithReserve => ⟨21, moveStakeLayout⟩
  | .redelegate => ⟨22, [(.instruction, .u8)]⟩
  | .depositStakeWithSlippage => ⟨23, [(.instruction, .u8), (.lamports, .ns64)]⟩
  | .withdrawStakeWithSlippage => ⟨24, [(.instruction, .u8), (.lamports, .ns64)]⟩
  | .depositSolWithSlippage => ⟨25, [(.instruction, .u8), (.lamports, .ns64)]⟩
  | .withdrawSolWithSlippage => ⟨26, [(.instruction, .u8), (.lamports, .ns64)]⟩
  | .depositWsolWithSession => ⟨27, [(.instruction, .u8), (.lamports, .ns64)]⟩
  | .withdrawWsolWithSession => ⟨28, [(.instruction, .u8), (.poolTokens, .ns64)]⟩

/-- The value written for a field; one that is not given stays zero. -/
def InstructionType.value (type : InstructionType) (fields : FieldName → Option Nat) : FieldName → Nat
  | .instruction => type.index.toNat
  | name => (fields name).getD 0

/-- `encodeData`. -/
def encodeData (type : InstructionType) (fields : FieldName → Option Nat) : List UInt8 :=
  (type.layout.map fun f => leBytes f.2.span (type.value fields f.1)).flatten

/-- Decode the fields one after another. -/
def decodeFields (b : List UInt8) : List (FieldName × Field) → StateT Nat Option (List (FieldName × Int))
  | [] => pure []
  | (name, field) :: fields => do
    let value ← next field.layout b
    let values ← decodeFields b fields
    return (name, value) :: values

/-- `decodeData`; `none` where it throws. -/
def decodeData (type : InstructionType) (b : List UInt8) : Option (List (FieldName × Int)) := do
  let (data, _) ← decodeFields b type.layout 0
  if data.lookup .instruction = some (type.index.toNat : Int) then return data else failure

/-! ## What the program makes of the data -/

/-- The integers below `2 ^ 53` that a field takes; `noMerge` is a truth value. -/
def FieldName.Fits : FieldName → Field → Nat → Prop
  | .noMerge, .u8, n => n ≤ 1
  | _, .u8, n => n < 2 ^ 8
  | _, .u32, n => n < 2 ^ 32
  | _, .ns64, n => n < 2 ^ 53

/-- The variant of the program's instruction with the name of the entry. -/
def StakePoolInstructionType.Names : StakePoolInstructionType → StakePoolInstruction → Prop
  | .addValidatorToPool, .addValidatorToPool _ => True
  | .removeValidatorFromPool, .removeValidatorFromPool => True
  | .decreaseValidatorStake, .decreaseValidatorStake _ _ => True
  | .increaseValidatorStake, .increaseValidatorStake _ _ => True
  | .updateValidatorListBalance, .updateValidatorListBalance _ _ => True
  | .updateStakePoolBalance, .updateStakePoolBalance => True
  | .cleanupRemovedValidatorEntries, .cleanupRemovedValidatorEntries => True
  | .depositStake, .depositStake => True
  | .withdrawStake, .withdrawStake _ => True
  | .depositSol, .depositSol _ => True
  | .withdrawSol, .withdrawSol _ => True
  | .increaseAdditionalValidatorStake, .increaseAdditionalValidatorStake _ _ _ => True
  | .decreaseAdditionalValidatorStake, .decreaseAdditionalValidatorStake _ _ _ => True
  | .decreaseValidatorStakeWithReserve, .decreaseValidatorStakeWithReserve _ _ => True
  | .redelegate, .redelegate _ _ _ _ => True
  | .depositStakeWithSlippage, .depositStakeWithSlippage _ => True
  | .withdrawStakeWithSlippage, .withdrawStakeWithSlippage _ _ => True
  | .depositSolWithSlippage, .depositSolWithSlippage _ _ => True
  | .withdrawSolWithSlippage, .withdrawSolWithSlippage _ _ => True
  | .depositWsolWithSession, .depositWsolWithSession _ => True
  | .withdrawWsolWithSession, .withdrawWsolWithSession _ => True
  | _, _ => False

end StakePoolFogo.JsLegacy

/-- The numbers an instruction carries, in the order of its fields. -/
def StakePoolFogo.StakePoolInstruction.arguments : StakePoolInstruction → List Nat
  | .addValidatorToPool seed => [seed.toNat]
  | .decreaseValidatorStake lamports seed | .increaseValidatorStake lamports seed
  | .decreaseValidatorStakeWithReserve lamports seed => [lamports.toNat, seed.toNat]
  | .updateValidatorListBalance startIndex noMerge => [startIndex.toNat, noMerge.toNat]
  | .withdrawStake amount | .depositSol amount | .withdrawSol amount | .depositStakeWithSlippage amount
  | .depositWsolWithSession amount | .withdrawWsolWithSession amount => [amount.toNat]
  | .increaseAdditionalValidatorStake lamports seed ephemeral
  | .decreaseAdditionalValidatorStake lamports seed ephemeral =>
    [lamports.toNat, seed.toNat, ephemeral.toNat]
  | .withdrawStakeWithSlippage amount minimum | .depositSolWithSlippage amount minimum
  | .withdrawSolWithSlippage amount minimum => [amount.toNat, minimum.toNat]
  | .redelegate lamports source ephemeral destination =>
    [lamports.toNat, source.toNat, ephemeral.toNat, destination.toNat]
  | _ => []

namespace StakePoolFogo.JsLegacy

/-- The program decodes the data of the entry to the variant of the same name with the same values. -/
def StakePoolInstructionType.Decodes (e : StakePoolInstructionType) (values : FieldName → Nat) : Prop :=
  ∃ i, StakePoolInstruction.tryFromSlice (encodeData (layouts e) fun name => some (values name)) = .ok i ∧
    e.Names i ∧ i.arguments = (layouts e).layout.tail.map fun f => values f.1

/-- The layouts that are shorter than the program's fields. -/
def StakePoolInstructionType.short : StakePoolInstructionType → Bool
  | .redelegate | .withdrawStakeWithSlippage | .depositSolWithSlippage | .withdrawSolWithSlippage => true
  | _ => false

section

variable {values : FieldName → Nat}

open Borsh StakePoolInstruction

theorem leBytes_tag (tag : UInt8) : leBytes 1 tag.toNat = [tag] := by
  have hbyte : UInt8.ofNat (tag.toNat % 256) = tag := by
    rw [Nat.mod_eq_of_lt tag.toNat_lt, UInt8.ofNat_toNat]
  rw [leBytes, leBytes, hbyte]

theorem reads_tag (tag : UInt8) : Reads readU8 (leBytes 1 tag.toNat) tag := by
  rw [leBytes_tag]
  exact reads_u8 tag

theorem reads_ns64 {n : Nat} (h : n < 2 ^ 53) : Reads readU64 (leBytes 8 n) (UInt64.ofNat n) :=
  reads_u64 (by omega)

theorem toNat_ofNat_ns64 {n : Nat} (h : n < 2 ^ 53) : (UInt64.ofNat n).toNat = n := by
  rw [UInt64.toNat_ofNat']
  omega

/-- An entry whose data is read to the end. -/
theorem StakePoolInstructionType.Decodes.of_reads {e : StakePoolInstructionType} (i : StakePoolInstruction)
    (hread : Reads readInstruction (encodeData (layouts e) fun name => some (values name)) i)
    (hnames : e.Names i)
    (harguments : i.arguments = (layouts e).layout.tail.map fun f => values f.1) : e.Decodes values :=
  ⟨i, tryFromSlice_of_reads hread, hnames, harguments⟩

/-- The entries with one amount. -/
theorem decodes_amount {e : StakePoolInstructionType} {name : FieldName} (f : UInt64 → StakePoolInstruction)
    (hlayout : (layouts e).layout = [(.instruction, .u8), (name, .ns64)])
    (hvalue : ∀ type : InstructionType, type.value (fun n => some (values n)) name = values name)
    (hfits : name.Fits .ns64 (values name))
    (hread : ∀ n < 2 ^ 53, Reads readInstruction
      (List.flatten [leBytes 1 (layouts e).index.toNat, leBytes 8 n]) (f (.ofNat n)))
    (hnames : ∀ a, e.Names (f a)) (harguments : ∀ a, (f a).arguments = [a.toNat]) :
    e.Decodes values := by
  have hlt : values name < 2 ^ 53 := by
    cases name <;> exact hfits
  refine .of_reads (f (.ofNat (values name))) ?_ (hnames _) ?_
  · rw [encodeData, hlayout, List.map_cons, List.map_cons, List.map_nil, hvalue]
    exact hread _ hlt
  · rw [harguments, toNat_ofNat_ns64 hlt, hlayout]
    rfl

/-- The entries that move stake. -/
theorem decodes_moveStake {e : StakePoolInstructionType} (f : UInt64 → UInt64 → StakePoolInstruction)
    (hlayout : (layouts e).layout = moveStakeLayout)
    (hfits : ∀ g ∈ moveStakeLayout.tail, g.1.Fits g.2 (values g.1))
    (hread : ∀ m < 2 ^ 53, ∀ n < 2 ^ 53, Reads readInstruction
      (List.flatten [leBytes 1 (layouts e).index.toNat, leBytes 8 m, leBytes 8 n])
      (f (.ofNat m) (.ofNat n)))
    (hnames : ∀ a b, e.Names (f a b)) (harguments : ∀ a b, (f a b).arguments = [a.toNat, b.toNat]) :
    e.Decodes values := by
  have hlamports : values .lamports < 2 ^ 53 := hfits (.lamports, .ns64) (by decide)
  have hseed : values .transientStakeSeed < 2 ^ 53 := hfits (.transientStakeSeed, .ns64) (by decide)
  refine .of_reads (f (.ofNat (values .lamports)) (.ofNat (values .transientStakeSeed))) ?_
    (hnames _ _) ?_
  · rw [encodeData, hlayout]
    exact hread _ hlamports _ hseed
  · rw [harguments, toNat_ofNat_ns64 hlamports, toNat_ofNat_ns64 hseed, hlayout]
    rfl

/-- Data that ends before the last field of its instruction is refused. -/
theorem not_decodes_of_none {e : StakePoolInstructionType}
    (h : readInstruction (encodeData (layouts e) fun name => some (values name)) = none) :
    ¬ e.Decodes values := by
  rintro ⟨i, hdecode, -⟩
  rw [tryFromSlice, h] at hdecode
  cases hdecode

/-- The entries with one amount where the instruction has two. -/
theorem not_decodes_amount {e : StakePoolInstructionType} {n : Nat}
    (f : UInt64 → UInt64 → StakePoolInstruction) (h : n < 2 ^ 53)
    (hdata : encodeData (layouts e) (fun name => some (values name)) =
      List.flatten [leBytes 1 (layouts e).index.toNat, leBytes 8 n])
    (hread : ∀ rest, readInstruction ((layouts e).index :: rest) =
      (do return f (← readU64) (← readU64) : Reader StakePoolInstruction) rest) :
    ¬ e.Decodes values := by
  refine not_decodes_of_none ?_
  rw [hdata, leBytes_tag, List.flatten_cons, List.flatten_cons, List.singleton_append, hread,
    (reads_ns64 h).step]
  rfl

theorem decodes_iff (e : StakePoolInstructionType) (values : FieldName → Nat)
    (hfits : ∀ f ∈ (layouts e).layout.tail, f.1.Fits f.2 (values f.1)) :
    e.Decodes values ↔ e.short = false := by
  cases e with
  | addValidatorToPool =>
    have hseed : values .seed < 2 ^ 32 := hfits (.seed, .u32) (by decide)
    refine ⟨fun _ => rfl, fun _ => .of_reads (.addValidatorToPool (.ofNat (values .seed)))
      (.field (reads_tag 1) (.field (reads_u32 hseed) (.pure _))) trivial ?_⟩
    rw [arguments, UInt32.toNat_ofNat_of_lt' hseed]
    rfl
  | removeValidatorFromPool =>
    exact ⟨fun _ => rfl, fun _ => .of_reads .removeValidatorFromPool (.field (reads_tag 2) (.pure _))
      trivial rfl⟩
  | decreaseValidatorStake =>
    exact ⟨fun _ => rfl, fun _ => decodes_moveStake .decreaseValidatorStake rfl hfits
      (fun m hm n hn => .field (reads_tag _) (.field (reads_ns64 hm) (.field (reads_ns64 hn) (.pure _))))
      (fun _ _ => trivial) (fun _ _ => rfl)⟩
  | withdrawStake =>
    exact ⟨fun _ => rfl, fun _ => decodes_amount .withdrawStake rfl (fun _ => rfl)
      (hfits (.poolTokens, .ns64) (by decide))
      (fun n hn => .field (reads_tag _) (.field (reads_ns64 hn) (.pure _))) (fun _ => trivial)
      (fun _ => rfl)⟩
  | increaseValidatorStake =>
    exact ⟨fun _ => rfl, fun _ => decodes_moveStake .increaseValidatorStake rfl hfits
      (fun m hm n hn => .field (reads_tag _) (.field (reads_ns64 hm) (.field (reads_ns64 hn) (.pure _))))
      (fun _ _ => trivial) (fun _ _ => rfl)⟩
  | decreaseValidatorStakeWithReserve =>
    exact ⟨fun _ => rfl, fun _ => decodes_moveStake .decreaseValidatorStakeWithReserve rfl hfits
      (fun m hm n hn => .field (reads_tag _) (.field (reads_ns64 hm) (.field (reads_ns64 hn) (.pure _))))
      (fun _ _ => trivial) (fun _ _ => rfl)⟩
  | updateValidatorListBalance =>
    have hstart : values .startIndex < 2 ^ 32 := hfits (.startIndex, .u32) (by decide)
    have hmerge : values .noMerge ≤ 1 := hfits (.noMerge, .u8) (by decide)
    obtain ⟨noMerge, hbool⟩ : ∃ noMerge : Bool, values .noMerge = noMerge.toNat := by
      rcases Nat.le_one_iff_eq_zero_or_eq_one.mp hmerge with h | h
      · exact ⟨false, h⟩
      · exact ⟨true, h⟩
    have hread : Reads readBool (leBytes 1 (values .noMerge)) noMerge := by
      rw [hbool]
      cases noMerge <;> exact fun _ => rfl
    refine ⟨fun _ => rfl, fun _ => .of_reads
      (.updateValidatorListBalance (.ofNat (values .startIndex)) noMerge)
      (.field (reads_tag 6) (.field (reads_u32 hstart) (.field hread (.pure _)))) trivial ?_⟩
    rw [arguments, UInt32.toNat_ofNat_of_lt' hstart, ← hbool]
    rfl
  | updateStakePoolBalance =>
    exact ⟨fun _ => rfl, fun _ => .of_reads .updateStakePoolBalance (.field (reads_tag 7) (.pure _))
      trivial rfl⟩
  | cleanupRemovedValidatorEntries =>
    exact ⟨fun _ => rfl, fun _ => .of_reads .cleanupRemovedValidatorEntries (.field (reads_tag 8) (.pure _))
      trivial rfl⟩
  | depositStake =>
    exact ⟨fun _ => rfl, fun _ => .of_reads .depositStake (.field (reads_tag 9) (.pure _))
      trivial rfl⟩
  | depositSol =>
    exact ⟨fun _ => rfl, fun _ => decodes_amount .depositSol rfl (fun _ => rfl)
      (hfits (.lamports, .ns64) (by decide))
      (fun n hn => .field (reads_tag _) (.field (reads_ns64 hn) (.pure _))) (fun _ => trivial)
      (fun _ => rfl)⟩
  | withdrawSol =>
    exact ⟨fun _ => rfl, fun _ => decodes_amount .withdrawSol rfl (fun _ => rfl)
      (hfits (.poolTokens, .ns64) (by decide))
      (fun n hn => .field (reads_tag _) (.field (reads_ns64 hn) (.pure _))) (fun _ => trivial)
      (fun _ => rfl)⟩
  | depositStakeWithSlippage =>
    exact ⟨fun _ => rfl, fun _ => decodes_amount .depositStakeWithSlippage rfl (fun _ => rfl)
      (hfits (.lamports, .ns64) (by decide))
      (fun n hn => .field (reads_tag _) (.field (reads_ns64 hn) (.pure _))) (fun _ => trivial)
      (fun _ => rfl)⟩
  | depositWsolWithSession =>
    exact ⟨fun _ => rfl, fun _ => decodes_amount .depositWsolWithSession rfl (fun _ => rfl)
      (hfits (.lamports, .ns64) (by decide))
      (fun n hn => .field (reads_tag _) (.field (reads_ns64 hn) (.pure _))) (fun _ => trivial)
      (fun _ => rfl)⟩
  | withdrawWsolWithSession =>
    exact ⟨fun _ => rfl, fun _ => decodes_amount .withdrawWsolWithSession rfl (fun _ => rfl)
      (hfits (.poolTokens, .ns64) (by decide))
      (fun n hn => .field (reads_tag _) (.field (reads_ns64 hn) (.pure _))) (fun _ => trivial)
      (fun _ => rfl)⟩
  | increaseAdditionalValidatorStake =>
    have hlamports : values .lamports < 2 ^ 53 := hfits (.lamports, .ns64) (by decide)
    have hseed : values .transientStakeSeed < 2 ^ 53 := hfits (.transientStakeSeed, .ns64) (by decide)
    have hephemeral : values .ephemeralStakeSeed < 2 ^ 53 :=
      hfits (.ephemeralStakeSeed, .ns64) (by decide)
    refine ⟨fun _ => rfl, fun _ => .of_reads (.increaseAdditionalValidatorStake
      (.ofNat (values .lamports)) (.ofNat (values .transientStakeSeed))
      (.ofNat (values .ephemeralStakeSeed))) (.field (reads_tag 19) (.field (reads_ns64 hlamports)
      (.field (reads_ns64 hseed) (.field (reads_ns64 hephemeral) (.pure _))))) trivial ?_⟩
    rw [arguments, toNat_ofNat_ns64 hlamports, toNat_ofNat_ns64 hseed, toNat_ofNat_ns64 hephemeral]
    rfl
  | decreaseAdditionalValidatorStake =>
    have hlamports : values .lamports < 2 ^ 53 := hfits (.lamports, .ns64) (by decide)
    have hseed : values .transientStakeSeed < 2 ^ 53 := hfits (.transientStakeSeed, .ns64) (by decide)
    have hephemeral : values .ephemeralStakeSeed < 2 ^ 53 :=
      hfits (.ephemeralStakeSeed, .ns64) (by decide)
    refine ⟨fun _ => rfl, fun _ => .of_reads (.decreaseAdditionalValidatorStake
      (.ofNat (values .lamports)) (.ofNat (values .transientStakeSeed))
      (.ofNat (values .ephemeralStakeSeed))) (.field (reads_tag 20) (.field (reads_ns64 hlamports)
      (.field (reads_ns64 hseed) (.field (reads_ns64 hephemeral) (.pure _))))) trivial ?_⟩
    rw [arguments, toNat_ofNat_ns64 hlamports, toNat_ofNat_ns64 hseed, toNat_ofNat_ns64 hephemeral]
    rfl
  | redelegate =>
    exact ⟨fun h => absurd h (not_decodes_of_none rfl), fun h => absurd h (by decide)⟩
  | withdrawStakeWithSlippage =>
    refine ⟨fun h => absurd h ?_, fun h => absurd h (by decide)⟩
    exact not_decodes_amount .withdrawStakeWithSlippage (hfits (.lamports, .ns64) (by decide)) rfl fun _ => rfl
  | depositSolWithSlippage =>
    refine ⟨fun h => absurd h ?_, fun h => absurd h (by decide)⟩
    exact not_decodes_amount .depositSolWithSlippage (hfits (.lamports, .ns64) (by decide)) rfl fun _ => rfl
  | withdrawSolWithSlippage =>
    refine ⟨fun h => absurd h ?_, fun h => absurd h (by decide)⟩
    exact not_decodes_amount .withdrawSolWithSlippage (hfits (.lamports, .ns64) (by decide)) rfl fun _ => rfl

end

end StakePoolFogo.JsLegacy
