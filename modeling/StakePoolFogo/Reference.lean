import StakePoolFogo.Laws

/-!
# A reference chain

Executable versions of the programs the pool calls, on a chain where stake warms up and cools down
within one epoch boundary.  They satisfy the laws the development assumes and make its theorems
applicable to concrete runs.
-/

open StakePoolFogo.Outcome

namespace StakePoolFogo.Reference

def key (n : Nat) : Pubkey := .ofNat n

def programId : Pubkey := key 1
def systemProgramId : Pubkey := key 0
def stakeProgramId : Pubkey := key 2
def splTokenId : Pubkey := key 3
def splToken2022Id : Pubkey := key 4
def associatedTokenProgramId : Pubkey := key 5
def mplTokenMetadataId : Pubkey := key 6
def nativeMintId : Pubkey := key 7

/-- `Rent::minimum_balance` at the usual parameters. -/
def minimumBalance (dataLen : Nat) : Nat := (128 + dataLen) * 6960

/-! ## Addresses -/

/-- A digest of the seeds and the program. -/
def digest (seeds : List (List UInt8)) (program : Pubkey) : Pubkey :=
  key ((seeds.flatten ++ program.toBytes).foldl
    (fun acc b => (acc * 257 + b.toNat + 1) % (2 ^ 256 - 189)) 0)

def createProgramAddress (seeds : List (List UInt8)) (program : Pubkey) :
    Except ProgramError Pubkey := .ok (digest seeds program)

def findProgramAddress (seeds : List (List UInt8)) (program : Pubkey) : Pubkey × UInt8 :=
  (digest (seeds ++ [[255]]) program, 255)

def programSignerSeed : List UInt8 := [112, 114, 111, 103, 114, 97, 109]

/-! ## The stake program -/

inductive MergeKind where
  | inactive
  | activationEpoch
  | fullyActive
deriving DecidableEq, Repr

def mergeKind (epoch : Epoch) : StakeStateV2 → Option MergeKind
  | .initialized _ => some .inactive
  | .stake _ s =>
    let d := s.delegation
    if d.deactivationEpoch < epoch ∨ d.activationEpoch = d.deactivationEpoch then some .inactive
    else if d.deactivationEpoch ≠ epochMax then none
    else if d.activationEpoch = epoch then some .activationEpoch
    else some .fullyActive
  | _ => none

def addStake (s : Stake) (lamports : Nat) : Stake :=
  { s with delegation := { s.delegation with stake := s.delegation.stake + lamports } }

/-- The state of the destination after a merge. -/
def mergedState (epoch : Epoch) (destination source : StakeStateV2) (sourceLamports : Nat) :
    Except ProgramError StakeStateV2 :=
  match mergeKind epoch destination, mergeKind epoch source with
  | some .inactive, some .inactive => .ok destination
  | some .inactive, some .activationEpoch => .ok destination
  | some .activationEpoch, some .inactive =>
    match destination with
    | .stake info s => .ok (.stake info (addStake s sourceLamports))
    | _ => .error .invalidAccountData
  | some .activationEpoch, some .activationEpoch =>
    match destination, source with
    | .stake info s, .stake info' s' =>
      if s.delegation.voterPubkey = s'.delegation.voterPubkey then
        .ok (.stake info (addStake s (info'.rentExemptReserve + s'.delegation.stake)))
      else .error .invalidAccountData
    | _, _ => .error .invalidAccountData
  | some .fullyActive, some .fullyActive =>
    match destination, source with
    | .stake info s, .stake _ s' =>
      if s.delegation.voterPubkey = s'.delegation.voterPubkey then
        .ok (.stake info (addStake s s'.delegation.stake))
      else .error .invalidAccountData
    | _, _ => .error .invalidAccountData
  | _, _ => .error .invalidAccountData

/-- A stake account with its state and meta. -/
def openStake (a : Account) : Except ProgramError (StakeStateV2 × StakeMeta) := do
  failIf (a.owner ≠ stakeProgramId) .incorrectProgramId
  match a.data with
  | .stake s => do
    let info ← okOr s.meta? .invalidAccountData
    return (s, info)
  | _ => throw .invalidAccountData

def merge (sv : Sysvars) (authority : Pubkey) (destination source : Account) :
    Except ProgramError (Account × Account) := do
  let (d, dm) ← openStake destination
  let (s, sm) ← openStake source
  failIf (dm.authorized ≠ sm.authorized ∨ dm.lockup ≠ sm.lockup) .invalidAccountData
  failIf (authority ≠ dm.authorized.staker) .missingRequiredSignature
  let d' ← mergedState sv.epoch d s source.lamports
  return ({ destination with
      lamports := destination.lamports + source.lamports, data := .stake d' },
    { source with lamports := 0, data := .stake .uninitialized })

/-- What stays delegated and what goes with the split. -/
def splitStates (sv : Sysvars) (s : StakeStateV2) (lamports remaining inDestination rent : Nat) :
    Except ProgramError (StakeStateV2 × StakeStateV2) :=
  match s with
  | .initialized info =>
    .ok (.initialized info, .initialized { info with rentExemptReserve := rent })
  | .stake info stake => do
    let moved := if remaining = 0 then lamports - info.rentExemptReserve
      else lamports - (rent - inDestination)
    let left := stake.delegation.stake - lamports
    failIf (remaining ≠ 0 ∧ left < sv.stakeMinimumDelegation) .insufficientFunds
    return (.stake info { stake with delegation := { stake.delegation with stake := left } },
      .stake { info with rentExemptReserve := rent }
        { stake with delegation := { stake.delegation with stake := moved } })
  | _ => .error .invalidAccountData

def split (sv : Sysvars) (authority : Pubkey) (lamports : Nat) (source destination : Account) :
    Except ProgramError (Account × Account) := do
  let (s, info) ← openStake source
  failIf (authority ≠ info.authorized.staker) .missingRequiredSignature
  failIf (destination.owner ≠ stakeProgramId ∨ destination.dataLen < stakeSpace ∨
    destination.stakeState? ≠ some .uninitialized) .invalidAccountData
  failIf (source.lamports < lamports) .insufficientFunds
  let remaining := source.lamports - lamports
  let rent := sv.minimumBalance destination.dataLen
  failIf (remaining ≠ 0 ∧ remaining < info.rentExemptReserve) .insufficientFunds
  failIf (rent = 0 ∨ destination.lamports + lamports < rent) .insufficientFunds
  let (left, moved) ← splitStates sv s lamports remaining destination.lamports rent
  return ({ source with
      lamports := remaining
      data := .stake (if remaining = 0 then .uninitialized else left) },
    { destination with lamports := destination.lamports + lamports, data := .stake moved })

/-- Lamports that must stay because they are staked. -/
def stakedLamports (epoch : Epoch) : StakeStateV2 → Nat
  | .stake _ s => if s.delegation.deactivationEpoch < epoch then 0 else s.delegation.stake
  | _ => 0

def withdraw (sv : Sysvars) (authority : Pubkey) (lamports : Nat) (source destination : Account) :
    Except ProgramError (Account × Account) := do
  let (s, info) ← openStake source
  failIf (authority ≠ info.authorized.withdrawer) .missingRequiredSignature
  failIf (info.lockup ≠ default) .invalidAccountData
  let staked := stakedLamports sv.epoch s
  let closes := lamports = source.lamports
  failIf (closes ∧ staked ≠ 0) .insufficientFunds
  failIf (¬ closes ∧ source.lamports < lamports + staked + info.rentExemptReserve)
    .insufficientFunds
  return ({ source with
      lamports := source.lamports - lamports
      data := if source.lamports - lamports = 0 then .stake .uninitialized else source.data },
    { destination with lamports := destination.lamports + lamports })

def deactivate (sv : Sysvars) (authority : Pubkey) (account : Account) :
    Except ProgramError Account := do
  let (s, info) ← openStake account
  failIf (authority ≠ info.authorized.staker) .missingRequiredSignature
  match s with
  | .stake info stake => do
    failIf (stake.delegation.deactivationEpoch ≠ epochMax) .invalidAccountData
    return { account with data := .stake (.stake info { stake with
      delegation := { stake.delegation with deactivationEpoch := sv.epoch } }) }
  | _ => throw .invalidAccountData

def delegate (sv : Sysvars) (authority vote : Pubkey) (account : Account) :
    Except ProgramError Account := do
  let (s, info) ← openStake account
  failIf (authority ≠ info.authorized.staker) .missingRequiredSignature
  failIf (mergeKind sv.epoch s ≠ some .inactive) .invalidAccountData
  let amount := account.lamports - info.rentExemptReserve
  failIf (amount < sv.stakeMinimumDelegation) .insufficientFunds
  let delegation : Delegation := ⟨vote, amount, sv.epoch, epochMax⟩
  return { account with data := .stake (.stake info { delegation, creditsObserved := 0 }) }

def setMeta (s : StakeStateV2) (info : StakeMeta) : StakeStateV2 :=
  match s with
  | .initialized _ => .initialized info
  | .stake _ stake => .stake info stake
  | other => other

def authorize (_ : Sysvars) (authority newAuthority : Pubkey) (role : StakeAuthorize)
    (account : Account) : Except ProgramError Account := do
  let (s, info) ← openStake account
  match role with
  | .staker => do
    failIf (authority ≠ info.authorized.staker ∧ authority ≠ info.authorized.withdrawer)
      .missingRequiredSignature
    return { account with data := .stake (setMeta s
      { info with authorized := { info.authorized with staker := newAuthority } }) }
  | .withdrawer => do
    failIf (authority ≠ info.authorized.withdrawer) .missingRequiredSignature
    return { account with data := .stake (setMeta s
      { info with authorized := { info.authorized with withdrawer := newAuthority } }) }

/-! ## The token programs -/

/-- Sessions that are open: key and wallet. -/
def sessionUser (session : Pubkey) : Option Pubkey :=
  if session = key 91 then some (key 90) else none

def programSigner : Pubkey := (findProgramAddress [programSignerSeed] programId).1

/-- The owner itself or, if the program vouches for it, a session of the owner. -/
def mayMove (owner authority : Pubkey) : (cosigner : Option Pubkey) → Bool
  | none => authority = owner
  | some cosigner => cosigner = programSigner ∧ (sessionUser authority).getD authority = owner

def openMint (a : Account) : Except ProgramError Mint :=
  match a.data with
  | .mint m => .ok m
  | _ => .error .invalidAccountData

def openToken (a : Account) (mintKey : Pubkey) : Except ProgramError TokenAccount :=
  match a.data with
  | .token t =>
    if t.mint = mintKey ∧ t.state = .initialized then .ok t else .error .invalidAccountData
  | _ => .error .invalidAccountData

def mintTo (mintKey authority : Pubkey) (amount : Nat) (mint destination : Account) :
    Except ProgramError (Account × Account) := do
  let m ← openMint mint
  let t ← openToken destination mintKey
  failIf (mintKey = nativeMintId) .invalidArgument
  failIf (m.mintAuthority ≠ some authority) .missingRequiredSignature
  failIf (2 ^ 64 ≤ m.supply + amount) .invalidArgument
  return ({ mint with data := .mint { m with supply := m.supply + amount } },
    { destination with data := .token { t with amount := t.amount + amount } })

def burn (mintKey authority : Pubkey) (cosigner : Option Pubkey) (amount : Nat)
    (account mint : Account) : Except ProgramError (Account × Account) := do
  let m ← openMint mint
  let t ← openToken account mintKey
  failIf (mayMove t.owner authority cosigner = false) .missingRequiredSignature
  failIf (mintKey = nativeMintId) .invalidArgument
  failIf (t.amount < amount ∨ m.supply < amount) .insufficientFunds
  return ({ account with data := .token { t with amount := t.amount - amount } },
    { mint with data := .mint { m with supply := m.supply - amount } })

/-- Wrapped SOL moves together with the lamports it stands for. -/
def transferChecked (mintKey authority : Pubkey) (cosigner : Option Pubkey) (amount : Nat)
    (decimals : UInt8) (mint source destination : Account) :
    Except ProgramError (Account × Account) := do
  let m ← openMint mint
  let t ← openToken source mintKey
  let u ← openToken destination mintKey
  failIf (m.decimals ≠ decimals) .invalidArgument
  failIf (mayMove t.owner authority cosigner = false) .missingRequiredSignature
  failIf (t.amount < amount) .insufficientFunds
  let wrapped := if mintKey = nativeMintId then amount else 0
  failIf (source.lamports < wrapped) .insufficientFunds
  return ({ source with
      lamports := source.lamports - wrapped
      data := .token { t with amount := t.amount - amount } },
    { destination with
      lamports := destination.lamports + wrapped
      data := .token { u with amount := u.amount + amount } })

def initializeAccount3 (mintKey owner : Pubkey) (_ account : Account) :
    Except ProgramError Account := do
  failIf (account.data ≠ .zeroed ∨ account.dataLen ≠ 165) .invalidAccountData
  let amount := if mintKey = nativeMintId then account.lamports - minimumBalance account.dataLen else 0
  return { account with data := .token ⟨mintKey, owner, amount, .initialized, []⟩ }

def closeAccount (authority : Pubkey) (account destination : Account) :
    Except ProgramError (Account × Account) :=
  match account.data with
  | .token t => do
    failIf (authority ≠ t.owner) .missingRequiredSignature
    failIf (t.mint ≠ nativeMintId ∧ t.amount ≠ 0) .invalidAccountData
    return (⟨0, systemProgramId, 0, .zeroed⟩,
      { destination with lamports := destination.lamports + account.lamports })
  | _ => .error .invalidAccountData

def syncNative (account : Account) : Except ProgramError Account := do
  let t ← openToken account nativeMintId
  return { account with
    data := .token { t with amount := account.lamports - minimumBalance account.dataLen } }

/-! ## The system, associated-token and metadata programs -/

def transfer (lamports : Nat) (source destination : Account) :
    Except ProgramError (Account × Account) := do
  failIf (source.owner ≠ systemProgramId ∨ source.dataLen ≠ 0) .invalidArgument
  failIf (source.lamports < lamports) .insufficientFunds
  return ({ source with lamports := source.lamports - lamports },
    { destination with lamports := destination.lamports + lamports })

def allocate (space : Nat) (account : Account) : Except ProgramError Account := do
  failIf (account.owner ≠ systemProgramId ∨ account.dataLen ≠ 0) .invalidArgument
  return { account with dataLen := space, data := .zeroed }

def assign (owner : Pubkey) (account : Account) : Except ProgramError Account := do
  failIf (account.owner ≠ systemProgramId) .invalidArgument
  return { account with owner := owner }

/-- Pay for `space` bytes on a new account of `owner`. -/
def createAccount (space : Nat) (owner : Pubkey) (data : AccountData) (payer account : Account) :
    Except ProgramError (Account × Account) := do
  failIf (account.owner ≠ systemProgramId ∨ account.dataLen ≠ 0) .invalidArgument
  let missing := minimumBalance space - account.lamports
  failIf (payer.owner ≠ systemProgramId ∨ payer.lamports < missing) .insufficientFunds
  return ({ payer with lamports := payer.lamports - missing },
    ⟨account.lamports + missing, owner, space, data⟩)

/-- Lamports on the account count towards its rent; without anything missing nobody pays. -/
def createPdaAccount (_ : Sysvars) (space : Nat) (owner : Pubkey) (payerSigned : Bool)
    (payer account : Account) : Except ProgramError (Account × Account) := do
  failIf (account.owner ≠ systemProgramId ∨ account.dataLen ≠ 0) .invalidArgument
  let missing := minimumBalance space - account.lamports
  failIf (missing ≠ 0 ∧ (payerSigned = false ∨ payer.owner ≠ systemProgramId))
    .missingRequiredSignature
  failIf (payer.lamports < missing) .insufficientFunds
  return ({ payer with lamports := payer.lamports - missing },
    ⟨account.lamports + missing, owner, space, .zeroed⟩)

def createAssociatedIdempotent (wallet mintKey tokenProgram : Pubkey) (payer account : Account) :
    Except ProgramError (Account × Account) :=
  match account.data with
  | .token t =>
    if t.owner = wallet ∧ t.mint = mintKey then .ok (payer, account) else .error .invalidAccountData
  | _ => createAccount 165 tokenProgram (.token ⟨mintKey, wallet, 0, .initialized, []⟩) payer account

def createMetadata (_ _ : Pubkey) (name symbol uri : List UInt8) (payer account : Account) :
    Except ProgramError (Account × Account) :=
  createAccount 679 mplTokenMetadataId (.other (name ++ symbol ++ uri)) payer account

def updateMetadata (_ : Pubkey) (name symbol uri : List UInt8) (account : Account) :
    Except ProgramError Account := do
  failIf (account.owner ≠ mplTokenMetadataId) .incorrectProgramId
  return { account with data := .other (name ++ symbol ++ uri) }

def extractUser (_ : Sysvars) (info : AccountMeta) (_ : Account) : Except ProgramError Pubkey := do
  failIf (info.isSigner = false) .missingRequiredSignature
  return (sessionUser info.key).getD info.key

/-- The chain. -/
def runtime : Runtime where
  programId := programId
  systemProgramId := systemProgramId
  stakeProgramId := stakeProgramId
  splTokenId := splTokenId
  splToken2022Id := splToken2022Id
  associatedTokenProgramId := associatedTokenProgramId
  mplTokenMetadataId := mplTokenMetadataId
  nativeMintId := nativeMintId
  clockId := key 8
  rentId := key 9
  stakeHistoryId := key 10
  stakeConfigId := key 11
  programSignerSeed := programSignerSeed
  findProgramAddress := findProgramAddress
  createProgramAddress := createProgramAddress
  getAssociatedTokenAddress wallet mint := digest [wallet.toBytes, mint.toBytes] associatedTokenProgramId
  stake := { merge, split, withdraw, deactivate, delegate, authorize }
  token := { mintTo, burn, transferChecked, initializeAccount3, closeAccount, syncNative }
  system := { transfer, allocate, assign }
  createPdaAccount := createPdaAccount
  createAssociatedIdempotent := createAssociatedIdempotent
  createMetadata := createMetadata
  updateMetadata := updateMetadata
  extractUser := extractUser

def sysvars (epoch : Epoch) : Sysvars where
  epoch := epoch
  minimumBalance := minimumBalance
  epochRewardsActive := false
  stakeMinimumDelegation := 1000000

/-! ## The laws hold -/

theorem programLaws : ProgramLaws runtime where
  stake_ne := by decide
  system_ne := by decide
  splToken_ne := by decide
  splToken2022_ne := by decide
  associated_ne := by decide
  metadata_ne := by decide
  token_ne_stake := by rintro k (rfl | rfl) <;> decide
  token_ne_system := by rintro k (rfl | rfl) <;> decide
  token_ne_associated := by rintro k (rfl | rfl) <;> decide
  token_ne_metadata := by rintro k (rfl | rfl) <;> decide
  stake_ne_system := by decide
  stake_ne_associated := by decide
  stake_ne_metadata := by decide

theorem addressLaws : AddressLaws runtime := ⟨fun _ => rfl⟩

theorem openMint_eq_ok {a : Account} {m : Mint} : openMint a = .ok m ↔ a.data = .mint m := by
  unfold openMint
  split <;> simp_all

theorem openToken_eq_ok {a : Account} {mintKey : Pubkey} {t : TokenAccount}
    (h : openToken a mintKey = .ok t) : a.data = .token t ∧ t.mint = mintKey := by
  unfold openToken at h
  split at h
  · rename_i u hu
    split at h
    · rename_i hmint
      rw [← Except.ok.inj h]
      exact ⟨hu, hmint.1⟩
    · cases h
  · cases h

theorem createAccount_eq_ok {space : Nat} {owner : Pubkey} {data : AccountData}
    {payer account payer' account' : Account}
    (h : createAccount space owner data payer account = .ok (payer', account')) :
    payer'.data = payer.data ∧ payer'.owner = payer.owner ∧ account.owner = systemProgramId := by
  simp only [createAccount, bind_eq_ok, failIf_eq_ok, exists_unit, pure_eq_ok, not_or,
    Decidable.not_not, Prod.mk.injEq] at h
  obtain ⟨⟨howner, -⟩, -, rfl, -⟩ := h
  exact ⟨rfl, rfl, howner⟩

theorem tokenLaws : TokenLaws runtime where
  mintTo mintKey authority amount mint destination mint' destination' h := by
    simp only [runtime, mintTo, bind_eq_ok, openMint_eq_ok, failIf_eq_ok, exists_unit, pure_eq_ok,
      Decidable.not_not, Prod.mk.injEq] at h
    obtain ⟨m, hm, t, ht, -, hauthority, -, rfl, rfl⟩ := h
    obtain ⟨htoken, hmint⟩ := openToken_eq_ok ht
    exact ⟨m, t, hm, hauthority, htoken, hmint, rfl, rfl, rfl, rfl⟩
  burn mintKey authority cosigner amount account mint account' mint' h := by
    simp only [runtime, burn, bind_eq_ok, openMint_eq_ok, failIf_eq_ok, exists_unit, pure_eq_ok,
      not_or, Nat.not_lt, Prod.mk.injEq] at h
    obtain ⟨m, hm, t, ht, -, -, ⟨hamount, hsupply⟩, rfl, rfl⟩ := h
    obtain ⟨htoken, hmint⟩ := openToken_eq_ok ht
    exact ⟨m, t, hm, hsupply, htoken, hmint, hamount, rfl, rfl, rfl, rfl⟩
  transfer mintKey authority cosigner amount decimals mint source destination source'
      destination' h := by
    simp only [runtime, transferChecked, bind_eq_ok, failIf_eq_ok, exists_unit, pure_eq_ok,
      Nat.not_lt, Prod.mk.injEq] at h
    obtain ⟨_, -, t, ht, u, hu, -, -, hamount, -, rfl, rfl⟩ := h
    obtain ⟨htoken, hmint⟩ := openToken_eq_ok ht
    obtain ⟨hutoken, humint⟩ := openToken_eq_ok hu
    exact ⟨t, u, htoken, hutoken, hmint, humint, hamount, rfl⟩
  initialize_zeroed mintKey owner mint account account' h := by
    simp only [runtime, initializeAccount3, bind_eq_ok, failIf_eq_ok, exists_unit, not_or,
      Decidable.not_not] at h
    exact h.1.1
  close authority account destination account' destination' h := by
    simp only [runtime, closeAccount] at h
    split at h
    · rename_i t ht
      simp only [bind_eq_ok, exists_unit, pure_eq_ok, Prod.mk.injEq] at h
      obtain ⟨-, -, rfl, rfl⟩ := h
      exact ⟨⟨t, ht⟩, rfl, rfl, rfl⟩
    · cases h
  sync account account' h := by
    simp only [runtime, syncNative, bind_eq_ok, pure_eq_ok] at h
    obtain ⟨t, ht, rfl⟩ := h
    exact ⟨t, _, (openToken_eq_ok ht).1, rfl⟩
  associated wallet mintKey tokenProgram payer account payer' account' h := by
    simp only [runtime, createAssociatedIdempotent] at h
    split at h
    · rename_i t ht
      split at h
      · rename_i hwallet
        cases h
        exact ⟨rfl, rfl, .inr ⟨rfl, rfl, t, ht, hwallet⟩⟩
      · cases h
    · obtain ⟨hdata, howner, hsystem⟩ := createAccount_eq_ok h
      exact ⟨hdata, howner, .inl hsystem⟩
  createPda sv space owner payerSigned payer account payer' account' h := by
    simp only [runtime, createPdaAccount, bind_eq_ok, exists_unit, pure_eq_ok, Prod.mk.injEq] at h
    obtain ⟨-, -, -, rfl, -⟩ := h
    rfl

theorem weightLaws : WeightLaws runtime where
  mintTo mintKey authority amount mint destination mint' destination' h := by
    simp only [runtime, mintTo, bind_eq_ok, failIf_eq_ok, exists_unit, pure_eq_ok, Prod.mk.injEq] at h
    obtain ⟨_, -, _, -, hne, -, -, rfl, rfl⟩ := h
    exact ⟨hne, rfl, rfl⟩
  burn mintKey authority cosigner amount account mint account' mint' h := by
    simp only [runtime, burn, bind_eq_ok, failIf_eq_ok, exists_unit, pure_eq_ok, Prod.mk.injEq] at h
    obtain ⟨_, -, _, -, -, hne, -, rfl, rfl⟩ := h
    exact ⟨hne, rfl, rfl⟩
  transfer mintKey authority cosigner amount decimals mint source destination source'
      destination' h hne := by
    change mintKey ≠ nativeMintId at hne
    simp only [runtime, transferChecked, bind_eq_ok, failIf_eq_ok, exists_unit, pure_eq_ok,
      if_neg hne, Prod.mk.injEq] at h
    obtain ⟨_, -, _, -, _, -, -, -, -, -, rfl, rfl⟩ := h
    exact ⟨rfl, rfl⟩

theorem wrappedSolLaws (epoch : Epoch) : WrappedSolLaws runtime (sysvars epoch) where
  rent_pos space := by
    show 0 < (128 + space) * 6960
    omega
  create space owner payerSigned payer account payer' account' h := by
    simp only [runtime, createPdaAccount, bind_eq_ok, failIf_eq_ok, exists_unit, pure_eq_ok, not_or,
      not_and, Decidable.not_not, Nat.not_lt, Prod.mk.injEq] at h
    obtain ⟨⟨howner, -⟩, hpayer, hle, rfl, rfl⟩ := h
    refine ⟨howner, hle, fun hless => (hpayer ?_).2, rfl, rfl⟩
    have hless : account.lamports < minimumBalance space := hless
    omega
  initialize_native owner mint account account' h := by
    change initializeAccount3 nativeMintId owner mint account = _ at h
    simp only [initializeAccount3, bind_eq_ok, exists_unit, pure_eq_ok, if_pos] at h
    obtain ⟨-, rfl⟩ := h
    exact ⟨_, rfl, rfl⟩
  transfer_native authority cosigner amount decimals mint source destination source' destination'
      h := by
    change transferChecked nativeMintId authority cosigner amount decimals mint source destination = _
      at h
    simp only [transferChecked, bind_eq_ok, failIf_eq_ok, exists_unit, pure_eq_ok, if_pos, Nat.not_lt,
      Prod.mk.injEq] at h
    obtain ⟨_, -, _, -, u, hu, -, -, -, hle, rfl, rfl⟩ := h
    obtain ⟨hdata, -⟩ := openToken_eq_ok hu
    refine ⟨?_, rfl, fun u' hu' => ?_⟩
    · show source.lamports - amount + amount = source.lamports
      omega
    · cases hdata.symm.trans hu'
      rfl
  close_all authority account destination account' destination' h := by
    simp only [runtime, closeAccount] at h
    split at h
    · simp only [bind_eq_ok, exists_unit, pure_eq_ok, Prod.mk.injEq] at h
      obtain ⟨-, -, rfl, rfl⟩ := h
      exact ⟨rfl, rfl⟩
    · cases h

theorem openStake_eq_ok {a : Account} {s : StakeStateV2} {info : StakeMeta}
    (h : openStake a = .ok (s, info)) :
    a.owner = stakeProgramId ∧ a.data = .stake s ∧ s.meta? = some info := by
  simp only [openStake, bind_eq_ok, failIf_eq_ok, exists_unit, Decidable.not_not] at h
  obtain ⟨howner, h⟩ := h
  split at h
  · rename_i s' hs'
    simp only [bind_eq_ok, okOr_eq_ok, pure_eq_ok, Prod.mk.injEq] at h
    obtain ⟨_, hinfo, rfl, rfl⟩ := h
    exact ⟨howner, hs', hinfo⟩
  · cases h

theorem openStake_of_data {a : Account} {s : StakeStateV2} {info : StakeMeta}
    (howner : a.owner = stakeProgramId) (hdata : a.data = .stake s) (hmeta : s.meta? = some info) :
    openStake a = .ok (s, info) := by
  simp only [openStake, bind_eq_ok, failIf_eq_ok, exists_unit, Decidable.not_not, howner, hdata,
    okOr_eq_ok, hmeta, true_and]
  exact ⟨info, rfl, rfl⟩

theorem addStake_same (info : StakeMeta) (s : Stake) (lamports : Nat) :
    SameStake (.stake info s) (.stake info (addStake s lamports)) := .stake info rfl rfl rfl

theorem mergedState_same {epoch : Epoch} {d s d' : StakeStateV2} {lamports : Nat} {info : StakeMeta}
    (hmeta : d.meta? = some info) (h : mergedState epoch d s lamports = .ok d') :
    SameStake d d' ∧ (∀ info, d = .initialized info → d' = d) := by
  have hrefl : SameStake d d := by
    cases d with
    | initialized => exact .initialized _
    | stake => exact .stake _ rfl rfl rfl
    | _ => cases hmeta
  unfold mergedState at h
  split at h
  · cases h
    exact ⟨hrefl, fun _ _ => rfl⟩
  · cases h
    exact ⟨hrefl, fun _ _ => rfl⟩
  · split at h
    · cases h
      exact ⟨addStake_same _ _ _, fun _ h => nomatch h⟩
    · cases h
  · split at h
    · rcases ite_eq_ok.mp h with ⟨-, h⟩ | ⟨-, h⟩
      · cases h
        exact ⟨addStake_same _ _ _, fun _ h => nomatch h⟩
      · cases h
    · cases h
  · split at h
    · rcases ite_eq_ok.mp h with ⟨-, h⟩ | ⟨-, h⟩
      · cases h
        exact ⟨addStake_same _ _ _, fun _ h => nomatch h⟩
      · cases h
    · cases h
  · cases h

theorem splitStates_eq_ok {sv : Sysvars} {s left moved : StakeStateV2}
    {lamports remaining inDestination rent : Nat} {info : StakeMeta} (hmeta : s.meta? = some info)
    (h : splitStates sv s lamports remaining inDestination rent = .ok (left, moved)) :
    SameStake s left ∧ moved.meta? = some { info with rentExemptReserve := rent } ∧
      (∀ info', s = .initialized info' →
        moved = .initialized { info with rentExemptReserve := rent }) ∧
      ∀ info' stake, s = .stake info' stake → ∃ stake',
        moved = .stake { info with rentExemptReserve := rent } stake' ∧
        stake'.delegation.voterPubkey = stake.delegation.voterPubkey ∧
        stake'.delegation.activationEpoch = stake.delegation.activationEpoch ∧
        stake'.delegation.deactivationEpoch = stake.delegation.deactivationEpoch := by
  cases s with
  | initialized info' =>
    cases hmeta
    cases h
    refine ⟨.initialized _, rfl, fun _ _ => rfl, fun _ _ heq => ?_⟩
    cases heq
  | stake info' stake =>
    cases hmeta
    simp only [splitStates, bind_eq_ok, exists_unit, pure_eq_ok, Prod.mk.injEq] at h
    obtain ⟨-, rfl, rfl⟩ := h
    refine ⟨.stake _ rfl rfl rfl, rfl, fun _ heq => ?_, fun _ _ heq => ?_⟩
    · cases heq
    · cases heq
      exact ⟨_, rfl, rfl, rfl, rfl⟩
  | _ => cases hmeta

theorem stakeLaws : StakeLaws runtime where
  merge sv authority destination source destination' source' h := by
    simp only [runtime, merge, bind_eq_ok, Prod.exists, failIf_eq_ok, exists_unit, pure_eq_ok,
      not_or, Decidable.not_not, Prod.mk.injEq] at h
    obtain ⟨d, dm, hd, s, sm, hs, ⟨hauthorized, -⟩, hstaker, d', hmerged, rfl, rfl⟩ := h
    obtain ⟨hdo, hdd, hdm⟩ := openStake_eq_ok hd
    obtain ⟨hso, hsd, hsm⟩ := openStake_eq_ok hs
    obtain ⟨hsame, hinit⟩ := mergedState_same hdm hmerged
    exact ⟨d, s, d', hdd, hsd, ⟨dm, sm, hdm, hsm, hauthorized, hstaker⟩, hdo, hso, rfl,
      hsame, hinit, rfl, ⟨rfl, rfl⟩, rfl⟩
  split sv authority lamports source destination source' destination' h := by
    simp only [runtime, split, bind_eq_ok, Prod.exists, failIf_eq_ok, exists_unit, pure_eq_ok,
      not_or, not_and, Decidable.not_not, Nat.not_lt, Prod.mk.injEq] at h
    obtain ⟨s, sm, hs, hstaker, ⟨hdo, -, hdd⟩, hlamports, hremaining, ⟨hrent, henough⟩, left, moved,
      hstates, rfl, rfl⟩ := h
    obtain ⟨hso, hsd, hsm⟩ := openStake_eq_ok hs
    obtain ⟨hsame, hmeta, hinit, hstake⟩ := splitStates_eq_ok hsm hstates
    refine ⟨s, sm, moved, _, hsd, hsm, hstaker, hso, hdo, hdd, ?_, rfl, ⟨rfl, rfl⟩, ⟨rfl, rfl⟩, rfl,
      hmeta, rfl, rfl, Nat.pos_of_ne_zero hrent, henough, hinit, hstake, fun hzero => ?_,
      fun hzero => ⟨?_, left, ?_, hsame⟩⟩
    · show source.lamports - lamports + lamports = source.lamports
      omega
    · exact congrArg AccountData.stake (if_pos hzero)
    · exact hremaining hzero
    · exact congrArg AccountData.stake (if_neg hzero)
  withdraw sv authority lamports source destination source' destination' s info h hdata hmeta := by
    simp only [runtime, withdraw, bind_eq_ok, Prod.exists, failIf_eq_ok, exists_unit, pure_eq_ok,
      not_and, Decidable.not_not, Nat.not_lt, Prod.mk.injEq] at h
    obtain ⟨s', info', hs, hwithdrawer, -, hcloses, hrest, rfl, rfl⟩ := h
    obtain ⟨hso, hsd, hsm⟩ := openStake_eq_ok hs
    rw [hdata] at hsd
    cases hsd
    obtain rfl := Option.some.inj (hmeta.symm.trans hsm)
    have hle : lamports ≤ source.lamports := by
      by_cases hall : lamports = source.lamports
      · omega
      · have := hrest hall
        omega
    refine ⟨hwithdrawer, hso, ?_, ⟨rfl, rfl⟩, rfl, fun hzero => if_pos hzero, fun hzero => ⟨?_, if_neg hzero⟩⟩
    · show source.lamports - lamports + lamports = source.lamports
      omega
    · show info.rentExemptReserve ≤ source.lamports - lamports
      have hne : source.lamports - lamports ≠ 0 := hzero
      have := hrest (by omega)
      omega
  withdraw_excess sv lamports source destination info stake _ howner hdata hlockup hpos hle := by
    have hstaked : stakedLamports sv.epoch (.stake info stake) ≤ stake.delegation.stake := by
      show (if _ then 0 else _) ≤ _
      split
      · exact Nat.zero_le _
      · exact Nat.le_refl _
    simp only [runtime, withdraw, openStake_of_data howner hdata rfl, bind_eq_ok, Prod.exists,
      failIf_eq_ok, exists_unit, pure_eq_ok, not_and, Decidable.not_not, Nat.not_lt]
    exact ⟨_, _, _, _, rfl, rfl, hlockup, fun _ => by omega, fun _ => by omega, rfl⟩
  deactivate sv authority account account' h := by
    simp only [runtime, deactivate, bind_eq_ok, Prod.exists, failIf_eq_ok, exists_unit,
      Decidable.not_not] at h
    obtain ⟨s, info, hs, hstaker, h⟩ := h
    obtain ⟨-, hdata, hmeta⟩ := openStake_eq_ok hs
    split at h
    · rename_i info' stake
      simp only [bind_eq_ok, exists_unit, pure_eq_ok] at h
      obtain ⟨-, rfl⟩ := h
      cases hmeta
      exact ⟨info, stake, _, hdata, hstaker, rfl, ⟨rfl, rfl⟩, rfl, rfl, rfl, rfl⟩
    · cases h
  delegate sv authority vote account account' h := by
    simp only [runtime, delegate, bind_eq_ok, Prod.exists, failIf_eq_ok, exists_unit, pure_eq_ok,
      Decidable.not_not] at h
    obtain ⟨s, info, hs, hstaker, -, -, rfl⟩ := h
    obtain ⟨-, hdata, hmeta⟩ := openStake_eq_ok hs
    exact ⟨s, info, _, hdata, hmeta, hstaker, rfl, ⟨rfl, rfl⟩, rfl, rfl, rfl⟩
  authorize sv authority newAuthority role account account' h := by
    simp only [runtime, authorize, bind_eq_ok, Prod.exists] at h
    obtain ⟨s, info, hs, h⟩ := h
    obtain ⟨-, hdata, hmeta⟩ := openStake_eq_ok hs
    cases role with
    | staker =>
      simp only [bind_eq_ok, failIf_eq_ok, exists_unit, pure_eq_ok, not_and_or,
        Decidable.not_not] at h
      obtain ⟨hsigner, rfl⟩ := h
      exact ⟨s, info, hdata, hmeta, hsigner, rfl, ⟨rfl, rfl⟩⟩
    | withdrawer =>
      simp only [bind_eq_ok, failIf_eq_ok, exists_unit, pure_eq_ok, Decidable.not_not] at h
      obtain ⟨hsigner, rfl⟩ := h
      exact ⟨s, info, hdata, hmeta, .inr hsigner, rfl, ⟨rfl, rfl⟩⟩

theorem creditLaws : CreditLaws runtime where
  withdraw sv authority lamports source destination source' destination' h := by
    simp only [runtime, withdraw, bind_eq_ok, Prod.exists, exists_unit, pure_eq_ok, Prod.mk.injEq] at h
    obtain ⟨s, info, -, -, -, -, -, -, rfl⟩ := h
    rfl

theorem mergeLaws : MergeLaws runtime where
  initialized sv destination source dm sm _ hdo hso hdd hsd hauthorized hlockup := by
    have hsame : ¬(dm.authorized ≠ sm.authorized ∨ dm.lockup ≠ sm.lockup) := by simp [hauthorized, hlockup]
    simp only [runtime, merge]
    rw [openStake_of_data hdo hdd rfl, openStake_of_data hso hsd rfl]
    simp only [ok_bind, failIf_neg hsame]
    exact ⟨_, bind_eq_ok.mpr ⟨(), failIf_neg (not_not.mpr rfl), rfl⟩⟩

theorem mergeKind_of_inactive {epoch : Epoch} {info : StakeMeta} {s : Stake}
    (h : s.delegation.deactivationEpoch < epoch ∨
      s.delegation.activationEpoch = s.delegation.deactivationEpoch) :
    mergeKind epoch (.stake info s) = some .inactive := if_pos h

/-- What a stake of an earlier epoch counts as in a merge. -/
theorem mergeKind_of_activated {epoch : Epoch} {info : StakeMeta} {s : Stake}
    (hactivated : s.delegation.activationEpoch < epoch) (hkept : epoch ≤ s.delegation.deactivationEpoch) :
    mergeKind epoch (.stake info s) =
      if s.delegation.deactivationEpoch = epochMax then some .fullyActive else none := by
  have hinactive : ¬ (s.delegation.deactivationEpoch < epoch ∨
      s.delegation.activationEpoch = s.delegation.deactivationEpoch) := by
    rintro (h | h)
    · exact Nat.not_lt.mpr hkept h
    · exact Nat.ne_of_lt (Nat.lt_of_lt_of_le hactivated hkept) h
  simp only [mergeKind, if_neg hinactive, if_neg (Nat.ne_of_lt hactivated), ne_eq, ite_not]

theorem phaseLaws : PhaseLaws runtime where
  inactive sv destination source dm sm stake _ hdo hso hdd hsd hauthorized hlockup hinactive := by
    have hsame : ¬(dm.authorized ≠ sm.authorized ∨ dm.lockup ≠ sm.lockup) := by simp [hauthorized, hlockup]
    simp only [runtime, merge]
    rw [openStake_of_data hdo hdd rfl, openStake_of_data hso hsd rfl]
    have hmerged : mergedState sv.epoch (.initialized dm) (.stake sm stake) source.lamports =
        .ok (.initialized dm) := by
      unfold mergedState
      rw [mergeKind_of_inactive hinactive]
      rfl
    simp only [ok_bind, failIf_neg hsame, hmerged]
    exact ⟨_, bind_eq_ok.mpr ⟨(), failIf_neg (not_not.mpr rfl), rfl⟩⟩
  active sv destination source dm sm d s _ hdo hso hdd hsd hauthorized hlockup hd hs hkept := by
    have hsame : ¬(dm.authorized ≠ sm.authorized ∨ dm.lockup ≠ sm.lockup) := by simp [hauthorized, hlockup]
    have hopen : (∃ r, runtime.stake.merge sv dm.authorized.staker destination source = .ok r) ↔
        ∃ r, mergedState sv.epoch (.stake dm d) (.stake sm s) source.lamports = .ok r := by
      simp only [runtime, merge]
      rw [openStake_of_data hdo hdd rfl, openStake_of_data hso hsd rfl]
      simp only [ok_bind, failIf_neg hsame, failIf_neg (not_not.mpr rfl)]
      constructor
      · rintro ⟨_, h⟩
        obtain ⟨d', hd', -⟩ := bind_eq_ok.mp h
        exact ⟨d', hd'⟩
      · rintro ⟨d', hd'⟩
        exact ⟨_, bind_eq_ok.mpr ⟨d', hd', rfl⟩⟩
    rw [hopen]
    unfold mergedState
    rw [mergeKind_of_activated hs hkept]
    by_cases hdead : d.delegation.deactivationEpoch < sv.epoch
    · -- An inactive stake takes no active one.
      rw [mergeKind_of_inactive (.inl hdead)]
      have hepoch : d.delegation.deactivationEpoch = epochMax → s.delegation.deactivationEpoch ≠ epochMax := by
        rintro h h'
        rw [h] at hdead
        rw [h'] at hkept
        exact Nat.not_lt.mpr hkept hdead
      by_cases hmax : s.delegation.deactivationEpoch = epochMax
      · rw [if_pos hmax]
        simpa using fun h => absurd hmax (hepoch h)
      · rw [if_neg hmax]
        simp [hmax]
    · rw [mergeKind_of_activated hd (Nat.not_lt.mp hdead)]
      by_cases hmax : s.delegation.deactivationEpoch = epochMax <;>
        by_cases hmax' : d.delegation.deactivationEpoch = epochMax <;>
        by_cases hvoter : d.delegation.voterPubkey = s.delegation.voterPubkey <;>
        simp [hmax, hmax', hvoter]
  deactivate sv account info stake _ howner hdata hmax := by
    simp only [runtime, deactivate]
    rw [openStake_of_data howner hdata rfl]
    simp only [ok_bind, failIf_neg (not_not.mpr rfl), failIf_neg (not_not.mpr hmax)]
    exact ⟨_, rfl⟩

theorem systemLaws : SystemLaws runtime where
  transfer lamports source destination source' destination' h := by
    simp only [runtime, transfer, bind_eq_ok, failIf_eq_ok, exists_unit, pure_eq_ok, not_or,
      Decidable.not_not, Nat.not_lt, Prod.mk.injEq] at h
    obtain ⟨⟨howner, -⟩, hlamports, rfl, rfl⟩ := h
    exact ⟨howner, hlamports, rfl, rfl⟩
  allocate space account account' h := by
    simp only [runtime, allocate, bind_eq_ok, failIf_eq_ok, exists_unit, pure_eq_ok, not_or,
      Decidable.not_not] at h
    obtain ⟨⟨howner, hlen⟩, rfl⟩ := h
    exact ⟨howner, hlen, rfl⟩
  assign owner account account' h := by
    simp only [runtime, assign, bind_eq_ok, failIf_eq_ok, exists_unit, pure_eq_ok,
      Decidable.not_not] at h
    obtain ⟨howner, rfl⟩ := h
    exact ⟨howner, rfl⟩

/-! ## A ledger with everything a pool needs -/

def pool : Pubkey := key 20
def manager : Pubkey := key 21
def staker : Pubkey := key 22
def validatorList : Pubkey := key 23
def reserve : Pubkey := key 24
def mint : Pubkey := key 25
def managerFee : Pubkey := key 26
def withdrawAuthority : Pubkey := (findWithdrawAuthorityProgramAddress runtime pool).1

/-- Metas of the pool's own stake accounts. -/
def poolMeta : StakeMeta where
  rentExemptReserve := minimumBalance stakeSpace
  authorized := ⟨withdrawAuthority, withdrawAuthority⟩
  lockup := default

def emptyAccount : Account := ⟨0, systemProgramId, 0, .zeroed⟩

def tokenAccount (owner : Pubkey) (amount : Nat) : Account :=
  ⟨minimumBalance 165, splTokenId, 165, .token ⟨mint, owner, amount, .initialized, []⟩⟩

/-- Zeroed state accounts, a mint without supply, and `deposit` lamports in the reserve. -/
def genesis (deposit : Nat) : Ledger := fun k =>
  if k = pool then ⟨minimumBalance 611, programId, 611, .zeroed⟩
  else if k = validatorList then ⟨minimumBalance 739, programId, 739, .zeroed⟩
  else if k = reserve then
    ⟨minimumBalance stakeSpace + deposit, stakeProgramId, stakeSpace, .stake (.initialized poolMeta)⟩
  else if k = mint then
    ⟨minimumBalance 82, splTokenId, 82, .mint ⟨some withdrawAuthority, 0, 9, none, []⟩⟩
  else if k = managerFee then tokenAccount manager 0
  else emptyAccount

theorem genesis_zeroed (deposit : Nat) (k : Pubkey) (h : (genesis deposit k).owner = programId) :
    (genesis deposit k).data = .zeroed := by
  revert h
  unfold genesis
  split
  · exact fun _ => rfl
  split
  · exact fun _ => rfl
  split
  · have hne : stakeProgramId ≠ programId := by decide
    exact fun h => absurd h hne
  split
  · exact fun h => absurd h (by decide)
  split
  · exact fun h => absurd h (by decide)
  · exact fun _ => rfl

def reads (k : Pubkey) : AccountMeta := ⟨k, false, false⟩
def writes (k : Pubkey) : AccountMeta := ⟨k, false, true⟩
def signs (k : Pubkey) : AccountMeta := ⟨k, true, true⟩

def initializeAccounts : List AccountMeta :=
  [writes pool, signs manager, reads staker, reads withdrawAuthority, writes validatorList,
    reads reserve, writes mint, writes managerFee, reads splTokenId]

/-- `Initialize` for ten validators with withdrawal fee `1 / 2⁶⁴ - 1` and no other fee. -/
def initializeInput : List UInt8 :=
  [0] ++ List.replicate 16 0 ++ (List.replicate 8 255 ++ leBytes 8 1) ++ List.replicate 16 0 ++ [0] ++
    leBytes 4 10

def lowFee : Fee := { numerator := 1, denominator := 0xFFFFFFFFFFFFFFFF }

end StakePoolFogo.Reference
