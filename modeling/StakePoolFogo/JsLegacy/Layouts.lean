import StakePoolFogo.Encoding

/-!
# The JavaScript client's view of the accounts

`codecs.ts` and `layouts.ts`: the layouts that decode a stake pool and a validator list at an offset of
a buffer.  `decode` and `getSpan` are written apart, as in the source.
-/

open StakePoolFogo.Codec

namespace StakePoolFogo.JsLegacy

/-! ## Codecs -/

def u8 : Layout UInt8 Nat where
  decode b offset := b[offset]?.map UInt8.toNat
  getSpan _ _ := some 1

/-- `blob(n)`: a slice of the buffer, which ends with the buffer. -/
def blob (n : Nat) : Layout UInt8 (List UInt8) where
  decode b offset := some ((b.drop offset).take n)
  getSpan _ _ := some n

/-- An unsigned integer of `n` bytes; reading past the end is an error. -/
def uint (n : Nat) : Layout UInt8 Nat where
  decode b offset := if offset + n ≤ b.length then some (Borsh.ofLeBytes ((b.drop offset).take n)) else none
  getSpan _ _ := some n

def u32 : Layout UInt8 Nat := uint 4

/-- `BNLayout` of eight bytes. -/
def u64 : Layout UInt8 Nat := (blob 8).map Borsh.ofLeBytes

def publicKey : Layout UInt8 Pubkey := (blob 32).map fun bytes => Pubkey.ofNat (Borsh.ofLeBytes bytes)

variable {α : Type}

/-- A field behind a discriminator: absent at zero, there at the `present` ones. -/
def discriminated (present : List Nat) (layout : Layout UInt8 α) : Layout UInt8 (Option α) where
  decode b offset := do
    let discriminator ← u8.decode b offset
    if discriminator = 0 then
      return none
    if discriminator ∈ present then
      return some (← layout.decode b (offset + 1))
    failure
  getSpan b offset := do
    let discriminator ← u8.decode b offset
    if discriminator = 0 then
      return 1
    if discriminator ∈ present then
      return (← layout.getSpan b (offset + 1)) + 1
    failure

/-- `OptionLayout`. -/
def option (layout : Layout UInt8 α) : Layout UInt8 (Option α) := discriminated [1] layout

/-- `FutureEpochLayout`. -/
def futureEpoch (layout : Layout UInt8 α) : Layout UInt8 (Option α) := discriminated [1, 2] layout

/-- `struct` of fields that all have a fixed span. -/
def struct (span : Nat) (fields : List UInt8 → StateT Nat Option α) : Layout UInt8 α where
  decode b offset := (fields b offset).map Prod.fst
  getSpan _ _ := some span

/-- `seq(elementLayout, offset(u32, -4))`: the count stands right before the elements. -/
def seq (elementSpan : Nat) (element : Layout UInt8 α) : Layout UInt8 (List α) where
  decode b offset := do
    let count ← u32.decode b (offset - 4)
    Prod.fst <$> nextMany element b count offset
  getSpan b offset := do
    let count ← u32.decode b (offset - 4)
    return count * elementSpan

def vec (elementSpan : Nat) (element : Layout UInt8 α) : Layout UInt8 (List α) where
  decode b offset := do
    let _ ← u32.decode b offset
    (seq elementSpan element).decode b (offset + 4)
  getSpan b offset := do
    let span ← (seq elementSpan element).getSpan b (offset + 4)
    return 4 + span

/-! ## Layouts -/

structure Fee where
  denominator : Nat
  numerator : Nat
deriving DecidableEq, Repr

def fee : Layout UInt8 Fee := struct 16 fun b => do
  let denominator ← next u64 b
  let numerator ← next u64 b
  return { denominator, numerator }

structure Lockup where
  unixTimestamp : Nat
  epoch : Nat
  custodian : Pubkey
deriving DecidableEq, Repr

def lockup : Layout UInt8 Lockup := struct 48 fun b => do
  let unixTimestamp ← next u64 b
  let epoch ← next u64 b
  let custodian ← next publicKey b
  return { unixTimestamp, epoch, custodian }

structure StakePool where
  accountType : Nat
  manager : Pubkey
  staker : Pubkey
  stakeDepositAuthority : Pubkey
  stakeWithdrawBumpSeed : Nat
  validatorList : Pubkey
  reserveStake : Pubkey
  poolMint : Pubkey
  managerFeeAccount : Pubkey
  tokenProgramId : Pubkey
  totalLamports : Nat
  poolTokenSupply : Nat
  lastUpdateEpoch : Nat
  lockup : Lockup
  epochFee : Fee
  nextEpochFee : Option Fee
  preferredDepositValidatorVoteAddress : Option Pubkey
  preferredWithdrawValidatorVoteAddress : Option Pubkey
  stakeDepositFee : Fee
  stakeWithdrawalFee : Fee
  nextStakeWithdrawalFee : Option Fee
  stakeReferralFee : Nat
  solDepositAuthority : Option Pubkey
  solDepositFee : Fee
  solReferralFee : Nat
  solWithdrawAuthority : Option Pubkey
  solWithdrawalFee : Fee
  nextSolWithdrawalFee : Option Fee
  lastEpochPoolTokenSupply : Nat
  lastEpochTotalLamports : Nat
deriving DecidableEq, Repr

def stakePoolFields (b : List UInt8) : StateT Nat Option StakePool := do
  let accountType ← next u8 b
  let manager ← next publicKey b
  let staker ← next publicKey b
  let stakeDepositAuthority ← next publicKey b
  let stakeWithdrawBumpSeed ← next u8 b
  let validatorList ← next publicKey b
  let reserveStake ← next publicKey b
  let poolMint ← next publicKey b
  let managerFeeAccount ← next publicKey b
  let tokenProgramId ← next publicKey b
  let totalLamports ← next u64 b
  let poolTokenSupply ← next u64 b
  let lastUpdateEpoch ← next u64 b
  let lockup ← next lockup b
  let epochFee ← next fee b
  let nextEpochFee ← next (futureEpoch fee) b
  let preferredDepositValidatorVoteAddress ← next (option publicKey) b
  let preferredWithdrawValidatorVoteAddress ← next (option publicKey) b
  let stakeDepositFee ← next fee b
  let stakeWithdrawalFee ← next fee b
  let nextStakeWithdrawalFee ← next (futureEpoch fee) b
  let stakeReferralFee ← next u8 b
  let solDepositAuthority ← next (option publicKey) b
  let solDepositFee ← next fee b
  let solReferralFee ← next u8 b
  let solWithdrawAuthority ← next (option publicKey) b
  let solWithdrawalFee ← next fee b
  let nextSolWithdrawalFee ← next (futureEpoch fee) b
  let lastEpochPoolTokenSupply ← next u64 b
  let lastEpochTotalLamports ← next u64 b
  return {
    accountType, manager, staker, stakeDepositAuthority, stakeWithdrawBumpSeed, validatorList,
    reserveStake, poolMint, managerFeeAccount, tokenProgramId, totalLamports, poolTokenSupply,
    lastUpdateEpoch, lockup, epochFee, nextEpochFee, preferredDepositValidatorVoteAddress,
    preferredWithdrawValidatorVoteAddress, stakeDepositFee, stakeWithdrawalFee,
    nextStakeWithdrawalFee, stakeReferralFee, solDepositAuthority, solDepositFee, solReferralFee,
    solWithdrawAuthority, solWithdrawalFee, nextSolWithdrawalFee, lastEpochPoolTokenSupply,
    lastEpochTotalLamports }

/-- `StakePoolLayout.decode`. -/
def StakePool.decode (b : List UInt8) : Option StakePool := (stakePoolFields b 0).map Prod.fst

structure ValidatorStakeInfo where
  activeStakeLamports : Nat
  transientStakeLamports : Nat
  lastUpdateEpoch : Nat
  transientSeedSuffixStart : Nat
  transientSeedSuffixEnd : Nat
  status : Nat
  voteAccountAddress : Pubkey
deriving DecidableEq, Repr

def validatorStakeInfoLayout : Layout UInt8 ValidatorStakeInfo := struct 73 fun b => do
  let activeStakeLamports ← next u64 b
  let transientStakeLamports ← next u64 b
  let lastUpdateEpoch ← next u64 b
  let transientSeedSuffixStart ← next u64 b
  let transientSeedSuffixEnd ← next u64 b
  let status ← next u8 b
  let voteAccountAddress ← next publicKey b
  return {
    activeStakeLamports, transientStakeLamports, lastUpdateEpoch, transientSeedSuffixStart,
    transientSeedSuffixEnd, status, voteAccountAddress }

structure ValidatorList where
  accountType : Nat
  maxValidators : Nat
  validators : List ValidatorStakeInfo
deriving DecidableEq, Repr

def validatorListFields (b : List UInt8) : StateT Nat Option ValidatorList := do
  let accountType ← next u8 b
  let maxValidators ← next u32 b
  let validators ← next (vec 73 validatorStakeInfoLayout) b
  return { accountType, maxValidators, validators }

/-- `ValidatorListLayout.decode`. -/
def ValidatorList.decode (b : List UInt8) : Option ValidatorList :=
  (validatorListFields b 0).map Prod.fst

/-! ## Fields where they stand -/

theorem lays_u8 (x : UInt8) : Lays u8 [x] x.toNat where
  decode before rest := by simp [u8]
  getSpan _ _ := rfl

theorem lays_blob (bytes : List UInt8) {n : Nat} (h : bytes.length = n) : Lays (blob n) bytes bytes where
  decode before rest := by
    subst h
    simp [blob]
  getSpan _ _ := congrArg some h.symm

theorem lays_u64 {n : Nat} (h : n < 256 ^ 8) : Lays u64 (leBytes 8 n) n := by
  have hblob := (lays_blob (leBytes 8 n) (BigVec.leBytes_length 8 n)).map Borsh.ofLeBytes
  rwa [BigVec.ofLeBytes_leBytes h] at hblob

theorem lays_uint64 (n : UInt64) : Lays u64 (leBytes 8 n.toNat) n.toNat := lays_u64 n.toNat_lt

theorem lays_u32 {n : Nat} (h : n < 256 ^ 4) : Lays u32 (leBytes 4 n) n where
  decode before rest := by
    have hlength : before.length + 4 ≤ (before ++ (leBytes 4 n ++ rest)).length := by
      simp only [List.length_append, BigVec.leBytes_length]
      omega
    have htake : ((before ++ (leBytes 4 n ++ rest)).drop before.length).take 4 = leBytes 4 n := by
      rw [List.drop_left]
      exact List.take_left' (BigVec.leBytes_length 4 n)
    rw [u32, uint]
    dsimp only
    rw [if_pos hlength, htake, BigVec.ofLeBytes_leBytes h]
  getSpan _ _ := congrArg some (BigVec.leBytes_length 4 n).symm

theorem lays_publicKey (k : Pubkey) : Lays publicKey k.toBytes k := by
  have hblob := (lays_blob k.toBytes k.toBytes_length).map fun bytes => Pubkey.ofNat (Borsh.ofLeBytes bytes)
  rwa [k.ofLeBytes_toBytes] at hblob

section

variable {layout : Layout UInt8 α} {bytes : List UInt8} {a : α} {present : List Nat}

theorem lays_absent : Lays (discriminated present layout) [0] none where
  decode before rest := by simp [discriminated, u8]
  getSpan before rest := by simp [discriminated, u8]

theorem lays_present (h : Lays layout bytes a) {x : UInt8} (hx : x.toNat ∈ present) (hne : x.toNat ≠ 0) :
    Lays (discriminated present layout) (x :: bytes) (some a) := by
  have hplace : ∀ before rest, before ++ (x :: bytes ++ rest) = (before ++ [x]) ++ (bytes ++ rest) := by
    simp
  have htag : ∀ before rest : List UInt8, u8.decode (before ++ (x :: bytes ++ rest)) before.length =
      some x.toNat := by
    intro before rest
    exact (lays_u8 x).decode before (bytes ++ rest)
  refine ⟨fun before rest => ?_, fun before rest => ?_⟩
  · have hdecode := h.decode (before ++ [x]) rest
    rw [← hplace, List.length_append, List.length_singleton] at hdecode
    simp only [discriminated, htag, Option.bind_eq_bind, Option.bind_some, if_neg hne, if_pos hx, hdecode]
    rfl
  · have hspan := h.getSpan (before ++ [x]) rest
    rw [← hplace, List.length_append, List.length_singleton] at hspan
    simp only [discriminated, htag, Option.bind_eq_bind, Option.bind_some, if_neg hne, if_pos hx, hspan]
    rfl

theorem lays_option {β : Type} {encode : β → List UInt8} {view : β → α}
    (h : ∀ x, Lays layout (encode x) (view x)) (x : Option β) :
    Lays (option layout) (optionToBytes encode x) (x.map view) := by
  cases x with
  | none => exact lays_absent
  | some x => exact lays_present (h x) (by decide) (by decide)

theorem lays_futureEpoch {β : Type} {encode : β → List UInt8} {view : β → α}
    (h : ∀ x, Lays layout (encode x) (view x)) (x : FutureEpoch β) :
    Lays (futureEpoch layout) (x.toBytes encode) (x.pending.map view) := by
  cases x with
  | none => exact lays_absent
  | one x => exact lays_present (h x) (by decide) (by decide)
  | two x => exact lays_present (h x) (by decide) (by decide)

theorem lays_struct {fields : List UInt8 → StateT Nat Option α} {span : Nat}
    (h : Walks fields bytes a) (hspan : bytes.length = span) : Lays (struct span fields) bytes a where
  decode before rest := by
    show (fields (before ++ (bytes ++ rest)) before.length).map Prod.fst = _
    rw [h before rest]
    rfl
  getSpan _ _ := congrArg some hspan.symm

theorem lays_vec {β : Type} {elementSpan : Nat} {encode : β → List UInt8} {view : β → α} {items : List β}
    (hcount : items.length < 256 ^ 4) (h : ∀ item ∈ items, Lays layout (encode item) (view item))
    (hspan : ∀ item ∈ items, (encode item).length = elementSpan) :
    Lays (vec elementSpan layout) (leBytes 4 items.length ++ (items.map encode).flatten)
      (items.map view) := by
  have hplace : ∀ before rest : List UInt8,
      before ++ (leBytes 4 items.length ++ (items.map encode).flatten ++ rest) =
        (before ++ leBytes 4 items.length) ++ ((items.map encode).flatten ++ rest) := by
    intro before rest
    simp only [List.append_assoc]
  have hstart : ∀ before : List UInt8, (before ++ leBytes 4 items.length).length = before.length + 4 := by
    intro before
    rw [List.length_append, BigVec.leBytes_length]
  -- The count is found before the elements as well as in front of the vector.
  have hfound : ∀ before rest : List UInt8,
      u32.decode (before ++ (leBytes 4 items.length ++ (items.map encode).flatten ++ rest))
        before.length = some items.length := by
    intro before rest
    rw [List.append_assoc]
    exact (lays_u32 hcount).decode before _
  have hlength : (items.map encode).flatten.length = items.length * elementSpan := by
    have hsizes : ∀ item ∈ items.map encode, item.length = elementSpan := by simpa using hspan
    rw [Buffer.flatten_length hsizes, List.length_map]
  refine ⟨fun before rest => ?_, fun before rest => ?_⟩
  · have hwalk := Walks.many items h (before ++ leBytes 4 items.length) rest
    rw [← hplace, hstart] at hwalk
    simp only [vec, seq, Nat.add_sub_cancel, hfound, Option.bind_eq_bind, Option.bind_some, hwalk]
    rfl
  · simp only [vec, seq, Nat.add_sub_cancel, hfound, Option.bind_eq_bind, Option.bind_some,
      List.length_append, BigVec.leBytes_length, hlength]
    rfl

end

/-! ## What the program's accounts decode to -/

def Fee.ofFee (fee : StakePoolFogo.Fee) : Fee where
  denominator := fee.denominator.toNat
  numerator := fee.numerator.toNat

theorem lays_fee (f : StakePoolFogo.Fee) : Lays fee f.toBytes (.ofFee f) := by
  refine lays_struct (.field (lays_uint64 _) (.field (lays_uint64 _) (.pure _))) ?_
  simp [StakePoolFogo.Fee.toBytes, BigVec.leBytes_length]

/-- The values of `p`; a pending fee is a fee, whatever its wait. -/
def StakePool.ofPool (p : StakePoolFogo.StakePool) : StakePool where
  accountType := p.accountType.toByte.toNat
  manager := p.manager
  staker := p.staker
  stakeDepositAuthority := p.stakeDepositAuthority
  stakeWithdrawBumpSeed := p.stakeWithdrawBumpSeed.toNat
  validatorList := p.validatorList
  reserveStake := p.reserveStake
  poolMint := p.poolMint
  managerFeeAccount := p.managerFeeAccount
  tokenProgramId := p.tokenProgramId
  totalLamports := p.totalLamports
  poolTokenSupply := p.poolTokenSupply
  lastUpdateEpoch := p.lastUpdateEpoch
  lockup := ⟨p.lockup.unixTimestamp.toNat, p.lockup.epoch, p.lockup.custodian⟩
  epochFee := .ofFee p.epochFee
  nextEpochFee := p.nextEpochFee.pending.map .ofFee
  preferredDepositValidatorVoteAddress := p.preferredDepositValidatorVoteAddress
  preferredWithdrawValidatorVoteAddress := p.preferredWithdrawValidatorVoteAddress
  stakeDepositFee := .ofFee p.stakeDepositFee
  stakeWithdrawalFee := .ofFee p.stakeWithdrawalFee
  nextStakeWithdrawalFee := p.nextStakeWithdrawalFee.pending.map .ofFee
  stakeReferralFee := p.stakeReferralFee.toNat
  solDepositAuthority := p.solDepositAuthority
  solDepositFee := .ofFee p.solDepositFee
  solReferralFee := p.solReferralFee.toNat
  solWithdrawAuthority := p.solWithdrawAuthority
  solWithdrawalFee := .ofFee p.solWithdrawalFee
  nextSolWithdrawalFee := p.nextSolWithdrawalFee.pending.map .ofFee
  lastEpochPoolTokenSupply := p.lastEpochPoolTokenSupply
  lastEpochTotalLamports := p.lastEpochTotalLamports

/-- The time stamp must not be negative: it is read as unsigned. -/
theorem lays_lockup {l : StakePoolFogo.Lockup} (hstamp : 0 ≤ l.unixTimestamp)
    (hlt : l.unixTimestamp < 2 ^ 63) (hepoch : l.epoch < 256 ^ 8) :
    Lays lockup l.toBytes ⟨l.unixTimestamp.toNat, l.epoch, l.custodian⟩ := by
  have hmod : (l.unixTimestamp % 256 ^ 8).toNat = l.unixTimestamp.toNat := by omega
  have hbound : (l.unixTimestamp % 256 ^ 8).toNat < 256 ^ 8 := by omega
  rw [← hmod]
  refine lays_struct (.field (lays_u64 hbound) (.field (lays_u64 hepoch)
    (.field (lays_publicKey _) (.pure _)))) ?_
  simp [StakePoolFogo.Lockup.toBytes, leBytesInt, BigVec.leBytes_length, Pubkey.toBytes_length]

theorem lays_optionalKey (k : Option Pubkey) :
    Lays (option publicKey) (optionToBytes Pubkey.toBytes k) k := by
  have hkey := lays_option lays_publicKey k
  rwa [Option.map_id_fun'] at hkey

theorem walks_stakePool {p : StakePoolFogo.StakePool} (h : p.Fits)
    (hstamp : 0 ≤ p.lockup.unixTimestamp) : Walks stakePoolFields p.toBytes (.ofPool p) :=
  .field (lays_u8 _) <| .field (lays_publicKey _) <| .field (lays_publicKey _) <|
  .field (lays_publicKey _) <| .field (lays_u8 _) <| .field (lays_publicKey _) <|
  .field (lays_publicKey _) <| .field (lays_publicKey _) <| .field (lays_publicKey _) <|
  .field (lays_publicKey _) <| .field (lays_u64 h.totalLamports) <| .field (lays_u64 h.poolTokenSupply) <|
  .field (lays_u64 h.lastUpdateEpoch) <|
  .field (lays_lockup hstamp h.timestamp_lt h.lockupEpoch) <| .field (lays_fee _) <|
  .field (lays_futureEpoch lays_fee _) <| .field (lays_optionalKey _) <| .field (lays_optionalKey _) <|
  .field (lays_fee _) <| .field (lays_fee _) <| .field (lays_futureEpoch lays_fee _) <|
  .field (lays_u8 _) <| .field (lays_optionalKey _) <| .field (lays_fee _) <| .field (lays_u8 _) <|
  .field (lays_optionalKey _) <| .field (lays_fee _) <| .field (lays_futureEpoch lays_fee _) <|
  .field (lays_u64 h.lastEpochPoolTokenSupply) <| .field (lays_u64 h.lastEpochTotalLamports) <| .pure _

/-- The values of the entry `v`.  The program's two seeds of four bytes are read as one. -/
def ValidatorStakeInfo.ofInfo (v : StakePoolFogo.ValidatorStakeInfo) : ValidatorStakeInfo where
  activeStakeLamports := v.activeStakeLamports
  transientStakeLamports := v.transientStakeLamports
  lastUpdateEpoch := v.lastUpdateEpoch
  transientSeedSuffixStart := v.transientSeedSuffix.toNat
  transientSeedSuffixEnd := v.unused.toNat + 256 ^ 4 * v.validatorSeedSuffix.toNat
  status := v.status.byte.toNat
  voteAccountAddress := v.voteAccountAddress

def ValidatorList.ofList (l : StakePoolFogo.ValidatorList) : ValidatorList where
  accountType := l.header.accountType.toByte.toNat
  maxValidators := l.header.maxValidators.toNat
  validators := l.validators.map .ofInfo

theorem lays_validatorStakeInfo {v : StakePoolFogo.ValidatorStakeInfo} (h : v.Fits) :
    Lays validatorStakeInfoLayout v.toBytes (.ofInfo v) := by
  have hunused := v.unused.toNat_lt
  have hseed := v.validatorSeedSuffix.toNat_lt
  have hend : v.unused.toNat + 256 ^ 4 * v.validatorSeedSuffix.toNat < 256 ^ 8 := by omega
  have hparts : v.toBytes = List.flatten [
      leBytes 8 v.activeStakeLamports, leBytes 8 v.transientStakeLamports, leBytes 8 v.lastUpdateEpoch,
      leBytes 8 v.transientSeedSuffix.toNat,
      leBytes 8 (v.unused.toNat + 256 ^ 4 * v.validatorSeedSuffix.toNat), [v.status.byte],
      v.voteAccountAddress.toBytes] := by
    rw [v.toBytes_parts, ← leBytes_append 4 _ hunused]
    simp only [List.flatten_cons, List.append_assoc]
  have hlength := v.toBytes_length
  rw [hparts] at hlength ⊢
  exact lays_struct (.field (lays_u64 h.activeStakeLamports) <|
    .field (lays_u64 h.transientStakeLamports) <| .field (lays_u64 h.lastUpdateEpoch) <|
    .field (lays_uint64 _) <| .field (lays_u64 hend) <| .field (lays_u8 _) <|
    .field (lays_publicKey _) <| .pure _) hlength

theorem walks_validatorList {l : StakePoolFogo.ValidatorList} (h : l.Fits) :
    Walks validatorListFields (List.flatten [[l.header.accountType.toByte],
      leBytes 4 l.header.maxValidators.toNat, leBytes 4 l.validators.length ++
      (l.validators.map StakePoolFogo.ValidatorStakeInfo.toBytes).flatten]) (.ofList l) :=
  .field (lays_u8 _) <| .field (lays_u32 l.header.maxValidators.toNat_lt) <|
  .field (lays_vec h.length (fun v hv => lays_validatorStakeInfo (h.entries v hv))
    fun v _ => v.toBytes_length) <| .pure _

/-- A list decodes, whatever stands behind it. -/
theorem ValidatorList.decode_toBytes {l : StakePoolFogo.ValidatorList} (h : l.Fits) (rest : List UInt8) :
    ValidatorList.decode (l.toBytes rest) = some (.ofList l) := by
  have hlist := walks_validatorList h [] rest
  have hparts : l.toBytes rest = List.flatten [[l.header.accountType.toByte],
      leBytes 4 l.header.maxValidators.toNat, leBytes 4 l.validators.length ++
      (l.validators.map StakePoolFogo.ValidatorStakeInfo.toBytes).flatten] ++ rest := by
    rw [l.toBytes_parts]
    simp only [List.flatten_cons, List.append_assoc]
  rw [List.nil_append, List.length_nil] at hlist
  rw [ValidatorList.decode, hparts, hlist]
  rfl

/-- The JavaScript client decodes every pool and every list that the program writes, whatever stands
behind them. -/
theorem js_decodes {p : StakePoolFogo.StakePool} {l : StakePoolFogo.ValidatorList} (hp : p.Fits)
    (hl : l.Fits) (hlockup : p.lockup = default) (rest rest' : List UInt8) :
    StakePool.decode (p.toBytes ++ rest) = some (.ofPool p) ∧
      ValidatorList.decode (l.toBytes rest') = some (.ofList l) := by
  have hstamp : 0 ≤ p.lockup.unixTimestamp := by
    rw [hlockup]
    decide
  have hpool := walks_stakePool hp hstamp [] rest
  rw [List.nil_append, List.length_nil] at hpool
  refine ⟨?_, ValidatorList.decode_toBytes hl rest'⟩
  rw [StakePool.decode, hpool]
  rfl

/-- A pool with a fee two epochs away, and a list with one entry. -/
theorem js_decodes_changing :
    StakePool.decode ({ StakePoolFogo.StakePool.zeroed with
        accountType := .stakePool, nextEpochFee := .two ⟨100, 1⟩ }.toBytes ++ [7]) =
      some (.ofPool { StakePoolFogo.StakePool.zeroed with
        accountType := .stakePool, nextEpochFee := .two ⟨100, 1⟩ }) ∧
    ValidatorList.decode (StakePoolFogo.ValidatorList.toBytes
        ⟨⟨.validatorList, 1⟩, [⟨5, 0, 0, 0, 0, 3, ⟨4⟩, default⟩]⟩ []) =
      some (.ofList ⟨⟨.validatorList, 1⟩, [⟨5, 0, 0, 0, 0, 3, ⟨4⟩, default⟩]⟩) := by
  refine js_decodes ?_ ?_ rfl [7] []
  · exact ⟨by decide, by decide, by decide, by decide, by decide, by decide, by decide, by decide⟩
  · refine ⟨by decide, fun v hv => ?_⟩
    rw [List.mem_singleton.mp hv]
    exact ⟨by decide, by decide, by decide⟩

end StakePoolFogo.JsLegacy
