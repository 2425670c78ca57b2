import StakePoolFogo.Processor.Checks

/-!
# What the other programs promise

The documented behaviour of the programs the pool calls, as far as the development relies on it.
Each law is a field of its own; theorems take the structures they need.
-/

namespace StakePoolFogo

/-- The stake state an account decodes to. -/
def Account.stakeState? (a : Account) : Option StakeStateV2 := a.tryStakeState.toOption

/-- Two stake states of the same kind with the same meta and the same validator and epochs. -/
inductive SameStake : StakeStateV2 → StakeStateV2 → Prop where
  | initialized (info : StakeMeta) : SameStake (.initialized info) (.initialized info)
  | stake (info : StakeMeta) {s t : Stake}
      (voter : t.delegation.voterPubkey = s.delegation.voterPubkey)
      (activation : t.delegation.activationEpoch = s.delegation.activationEpoch)
      (deactivation : t.delegation.deactivationEpoch = s.delegation.deactivationEpoch) :
      SameStake (.stake info s) (.stake info t)

/-- Owner and size as before. -/
def Account.sameShape (a b : Account) : Prop := b.owner = a.owner ∧ b.dataLen = a.dataLen

/-- Program addresses are distinct. -/
structure ProgramLaws (rt : Runtime) : Prop where
  stake_ne : rt.stakeProgramId ≠ rt.programId
  system_ne : rt.systemProgramId ≠ rt.programId
  splToken_ne : rt.splTokenId ≠ rt.programId
  splToken2022_ne : rt.splToken2022Id ≠ rt.programId
  associated_ne : rt.associatedTokenProgramId ≠ rt.programId
  metadata_ne : rt.mplTokenMetadataId ≠ rt.programId
  token_ne_stake : ∀ k, rt.isTokenProgram k → k ≠ rt.stakeProgramId
  token_ne_system : ∀ k, rt.isTokenProgram k → k ≠ rt.systemProgramId
  token_ne_associated : ∀ k, rt.isTokenProgram k → k ≠ rt.associatedTokenProgramId
  token_ne_metadata : ∀ k, rt.isTokenProgram k → k ≠ rt.mplTokenMetadataId
  stake_ne_system : rt.stakeProgramId ≠ rt.systemProgramId
  stake_ne_associated : rt.stakeProgramId ≠ rt.associatedTokenProgramId
  stake_ne_metadata : rt.stakeProgramId ≠ rt.mplTokenMetadataId

/-- `find_program_address` returns an address its seeds and bump recreate. -/
structure AddressLaws (rt : Runtime) : Prop where
  create_of_find : ∀ seeds, rt.createProgramAddress
    (seeds ++ [[(rt.findProgramAddress seeds rt.programId).2]]) rt.programId =
      .ok (rt.findProgramAddress seeds rt.programId).1

/-- The token programs: who may mint, and what minting, burning and moving tokens changes.  A mint may keep a
fee of what is transferred. -/
structure TokenLaws (rt : Runtime) : Prop where
  mintTo : ∀ mintKey authority amount mint destination mint' destination',
    rt.token.mintTo mintKey authority amount mint destination = .ok (mint', destination') →
    ∃ m t, mint.data = .mint m ∧ m.mintAuthority = some authority ∧ destination.data = .token t ∧
      t.mint = mintKey ∧
      mint'.data = .mint { m with supply := m.supply + amount } ∧ mint'.owner = mint.owner ∧
      destination'.data = .token { t with amount := t.amount + amount } ∧
      destination'.owner = destination.owner
  burn : ∀ mintKey authority cosigner amount account mint account' mint',
    rt.token.burn mintKey authority cosigner amount account mint = .ok (account', mint') →
    ∃ m t, mint.data = .mint m ∧ amount ≤ m.supply ∧ account.data = .token t ∧ t.mint = mintKey ∧
      amount ≤ t.amount ∧
      mint'.data = .mint { m with supply := m.supply - amount } ∧ mint'.owner = mint.owner ∧
      account'.data = .token { t with amount := t.amount - amount } ∧ account'.owner = account.owner
  transfer : ∀ mintKey authority cosigner amount decimals mint source destination source'
      destination', rt.token.transferChecked mintKey authority cosigner amount decimals mint source
        destination = .ok (source', destination') →
    ∃ t u, source.data = .token t ∧ destination.data = .token u ∧ t.mint = mintKey ∧
      u.mint = mintKey ∧ amount ≤ t.amount ∧
      source'.data = .token { t with amount := t.amount - amount }
  initialize_zeroed : ∀ mintKey owner mint account account',
    rt.token.initializeAccount3 mintKey owner mint account = .ok account' → account.data = .zeroed
  close : ∀ authority account destination account' destination',
    rt.token.closeAccount authority account destination = .ok (account', destination') →
    (∃ t, account.data = .token t) ∧ account'.data = .zeroed ∧ destination'.data = destination.data ∧
      destination'.owner = destination.owner
  sync : ∀ account account', rt.token.syncNative account = .ok account' →
    ∃ t n, account.data = .token t ∧ account'.data = .token { t with amount := n }
  /-- An associated account that exists is checked and left alone. -/
  associated : ∀ wallet mintKey tokenProgram payer account payer' account',
    rt.createAssociatedIdempotent wallet mintKey tokenProgram payer account = .ok (payer', account') →
    payer'.data = payer.data ∧ payer'.owner = payer.owner ∧
      (account.owner = rt.systemProgramId ∨ payer' = payer ∧ account' = account ∧
        ∃ t, account.data = .token t ∧ t.owner = wallet ∧ t.mint = mintKey)
  createPda : ∀ sv space owner payerSigned payer account payer' account',
    rt.createPdaAccount sv space owner payerSigned payer account = .ok (payer', account') →
    payer'.data = payer.data

/-- Pool tokens weigh nothing: only wrapped SOL moves with its lamports, and it can be neither minted
nor burnt. -/
structure WeightLaws (rt : Runtime) : Prop where
  mintTo : ∀ mintKey authority amount mint destination mint' destination',
    rt.token.mintTo mintKey authority amount mint destination = .ok (mint', destination') →
    mintKey ≠ rt.nativeMintId ∧ mint'.lamports = mint.lamports ∧
      destination'.lamports = destination.lamports
  burn : ∀ mintKey authority cosigner amount account mint account' mint',
    rt.token.burn mintKey authority cosigner amount account mint = .ok (account', mint') →
    mintKey ≠ rt.nativeMintId ∧ account'.lamports = account.lamports ∧ mint'.lamports = mint.lamports
  transfer : ∀ mintKey authority cosigner amount decimals mint source destination source'
      destination', rt.token.transferChecked mintKey authority cosigner amount decimals mint source
        destination = .ok (source', destination') → mintKey ≠ rt.nativeMintId →
    source'.lamports = source.lamports ∧ destination'.lamports = destination.lamports

/-- Wrapped SOL, with the rent exemption of `sv`: a derived account is topped up to its rent exemption
by the payer, a new native token account counts the lamports above it, transfers move lamports, and
closing sends them all on. -/
structure WrappedSolLaws (rt : Runtime) (sv : Sysvars) : Prop where
  rent_pos : ∀ space, 0 < sv.minimumBalance space
  create : ∀ space owner payerSigned payer account payer' account',
    rt.createPdaAccount sv space owner payerSigned payer account = .ok (payer', account') →
    account.owner = rt.systemProgramId ∧
      sv.minimumBalance space - account.lamports ≤ payer.lamports ∧
      (account.lamports < sv.minimumBalance space → payer.owner = rt.systemProgramId) ∧
      payer' = { payer with
        lamports := payer.lamports - (sv.minimumBalance space - account.lamports) } ∧
      account' = ⟨account.lamports + (sv.minimumBalance space - account.lamports), owner, space,
        .zeroed⟩
  initialize_native : ∀ owner mint account account',
    rt.token.initializeAccount3 rt.nativeMintId owner mint account = .ok account' →
    ∃ t, account' = { account with data := .token t } ∧
      t.amount = account.lamports - sv.minimumBalance account.dataLen
  transfer_native : ∀ authority cosigner amount decimals mint source destination source'
      destination', rt.token.transferChecked rt.nativeMintId authority cosigner amount decimals mint
        source destination = .ok (source', destination') →
    source'.lamports + amount = source.lamports ∧
      destination'.lamports = destination.lamports + amount ∧
      ∀ u, destination.data = .token u → destination'.data = .token { u with amount := u.amount + amount }
  close_all : ∀ authority account destination account' destination',
    rt.token.closeAccount authority account destination = .ok (account', destination') →
    account' = ⟨0, rt.systemProgramId, 0, .zeroed⟩ ∧
      destination' = { destination with lamports := destination.lamports + account.lamports }

/-- The system program. -/
structure SystemLaws (rt : Runtime) : Prop where
  transfer : ∀ lamports source destination source' destination',
    rt.system.transfer lamports source destination = .ok (source', destination') →
    source.owner = rt.systemProgramId ∧ lamports ≤ source.lamports ∧
      source' = { source with lamports := source.lamports - lamports } ∧
      destination' = { destination with lamports := destination.lamports + lamports }
  allocate : ∀ space account account', rt.system.allocate space account = .ok account' →
    account.owner = rt.systemProgramId ∧ account.dataLen = 0 ∧
      account' = { account with dataLen := space, data := .zeroed }
  assign : ∀ owner account account', rt.system.assign owner account = .ok account' →
    account.owner = rt.systemProgramId ∧ account' = { account with owner := owner }

/-- The stake program. -/
structure StakeLaws (rt : Runtime) : Prop where
  /-- A merge drains the source; both accounts have the same authorities and the staker signed.  Lockups that
  are not in force may differ. -/
  merge : ∀ sv authority destination source destination' source',
    rt.stake.merge sv authority destination source = .ok (destination', source') →
    ∃ d s d', destination.data = .stake d ∧ source.data = .stake s ∧
      (∃ dm sm, d.meta? = some dm ∧ s.meta? = some sm ∧ dm.authorized = sm.authorized ∧
        authority = dm.authorized.staker) ∧
      destination.owner = rt.stakeProgramId ∧ source.owner = rt.stakeProgramId ∧
      destination'.data = .stake d' ∧ SameStake d d' ∧
      (∀ info, d = .initialized info → d' = d) ∧
      destination'.lamports = destination.lamports + source.lamports ∧
      destination.sameShape destination' ∧
      source' = { source with lamports := 0, data := .stake .uninitialized }
  /-- A split moves lamports to an uninitialized account, which gets the authorities and lockup of
  the source and ends up rent exempt; so does the source unless it is emptied. -/
  split : ∀ sv authority lamports source destination source' destination',
    rt.stake.split sv authority lamports source destination = .ok (source', destination') →
    ∃ s sm d' dm, source.data = .stake s ∧ s.meta? = some sm ∧ authority = sm.authorized.staker ∧
      source.owner = rt.stakeProgramId ∧ destination.owner = rt.stakeProgramId ∧
      destination.stakeState? = some .uninitialized ∧
      source'.lamports + lamports = source.lamports ∧
      destination'.lamports = destination.lamports + lamports ∧
      source.sameShape source' ∧ destination.sameShape destination' ∧
      destination'.data = .stake d' ∧ d'.meta? = some dm ∧ dm.authorized = sm.authorized ∧
      dm.lockup = sm.lockup ∧ 0 < dm.rentExemptReserve ∧
      dm.rentExemptReserve ≤ destination'.lamports ∧
      (∀ info, s = .initialized info → d' = .initialized dm) ∧
      (∀ info stake, s = .stake info stake → ∃ stake', d' = .stake dm stake' ∧
        stake'.delegation.voterPubkey = stake.delegation.voterPubkey ∧
        stake'.delegation.activationEpoch = stake.delegation.activationEpoch ∧
        stake'.delegation.deactivationEpoch = stake.delegation.deactivationEpoch) ∧
      (source'.lamports = 0 → source'.data = .stake .uninitialized) ∧
      (source'.lamports ≠ 0 → sm.rentExemptReserve ≤ source'.lamports ∧
        ∃ s', source'.data = .stake s' ∧ SameStake s s')
  /-- A withdrawal moves lamports out, signed by the withdrawer, and leaves the rent exemption in
  place or nothing at all. -/
  withdraw : ∀ sv authority lamports source destination source' destination' s info,
    rt.stake.withdraw sv authority lamports source destination = .ok (source', destination') →
    source.data = .stake s → s.meta? = some info →
    authority = info.authorized.withdrawer ∧ source.owner = rt.stakeProgramId ∧
      source'.lamports + lamports = source.lamports ∧ source.sameShape source' ∧
      destination' = { destination with lamports := destination.lamports + lamports } ∧
      (source'.lamports = 0 → source'.data = .stake .uninitialized) ∧
      (source'.lamports ≠ 0 → info.rentExemptReserve ≤ source'.lamports ∧
        source'.data = source.data)
  /-- Lamports above the delegation and the rent exemption can be withdrawn outside reward distribution. -/
  withdraw_excess : ∀ sv lamports source destination info stake, sv.epochRewardsActive = false →
    source.owner = rt.stakeProgramId → source.data = .stake (.stake info stake) →
    info.lockup = default → 0 < lamports →
    lamports + stake.delegation.stake + info.rentExemptReserve ≤ source.lamports →
    ∃ r, rt.stake.withdraw sv info.authorized.withdrawer lamports source destination = .ok r
  deactivate : ∀ sv authority account account',
    rt.stake.deactivate sv authority account = .ok account' →
    ∃ info stake stake', account.data = .stake (.stake info stake) ∧
      authority = info.authorized.staker ∧ account'.lamports = account.lamports ∧
      account.sameShape account' ∧ account'.data = .stake (.stake info stake') ∧
      stake'.delegation.voterPubkey = stake.delegation.voterPubkey ∧
      stake'.delegation.activationEpoch = stake.delegation.activationEpoch ∧
      stake'.delegation.deactivationEpoch = sv.epoch
  delegate : ∀ sv authority vote account account',
    rt.stake.delegate sv authority vote account = .ok account' →
    ∃ s info stake', account.data = .stake s ∧ s.meta? = some info ∧
      authority = info.authorized.staker ∧ account'.lamports = account.lamports ∧
      account.sameShape account' ∧ account'.data = .stake (.stake info stake') ∧
      stake'.delegation.voterPubkey = vote ∧
      stake'.delegation.deactivationEpoch = epochMax
  authorize : ∀ sv authority newAuthority role account account',
    rt.stake.authorize sv authority newAuthority role account = .ok account' →
    ∃ s info, account.data = .stake s ∧ s.meta? = some info ∧
      (authority = info.authorized.staker ∨ authority = info.authorized.withdrawer) ∧
      account'.lamports = account.lamports ∧ account.sameShape account'

/-- A withdrawal credits the destination, whatever it is taken from. -/
structure CreditLaws (rt : Runtime) : Prop where
  withdraw : ∀ sv authority lamports source destination source' destination',
    rt.stake.withdraw sv authority lamports source destination = .ok (source', destination') →
    destination' = { destination with lamports := destination.lamports + lamports }

/-- Two undelegated stake accounts with the same authorities and lockup can be merged, unless rewards are being
distributed. -/
structure MergeLaws (rt : Runtime) : Prop where
  initialized : ∀ sv destination source dm sm, sv.epochRewardsActive = false →
    destination.owner = rt.stakeProgramId → source.owner = rt.stakeProgramId →
    destination.data = .stake (.initialized dm) → source.data = .stake (.initialized sm) →
    dm.authorized = sm.authorized → dm.lockup = sm.lockup →
    ∃ r, rt.stake.merge sv dm.authorized.staker destination source = .ok r

/-- Stakes that activate and deactivate completely at the next epoch boundary: which of them can be merged and
stopped outside reward distribution. -/
structure PhaseLaws (rt : Runtime) : Prop where
  inactive : ∀ sv destination source dm sm stake, sv.epochRewardsActive = false →
    destination.owner = rt.stakeProgramId → source.owner = rt.stakeProgramId →
    destination.data = .stake (.initialized dm) → source.data = .stake (.stake sm stake) →
    dm.authorized = sm.authorized → dm.lockup = sm.lockup →
    (stake.delegation.deactivationEpoch < sv.epoch ∨
      stake.delegation.activationEpoch = stake.delegation.deactivationEpoch) →
    ∃ r, rt.stake.merge sv dm.authorized.staker destination source = .ok r
  /-- A stake of an earlier epoch that is not inactive is merged into another one of an earlier epoch if both
  are fully active. -/
  active : ∀ sv destination source dm sm d s, sv.epochRewardsActive = false →
    destination.owner = rt.stakeProgramId → source.owner = rt.stakeProgramId →
    destination.data = .stake (.stake dm d) → source.data = .stake (.stake sm s) →
    dm.authorized = sm.authorized → dm.lockup = sm.lockup →
    d.delegation.activationEpoch < sv.epoch → s.delegation.activationEpoch < sv.epoch →
    sv.epoch ≤ s.delegation.deactivationEpoch →
    ((∃ r, rt.stake.merge sv dm.authorized.staker destination source = .ok r) ↔
      d.delegation.deactivationEpoch = epochMax ∧ s.delegation.deactivationEpoch = epochMax ∧
        d.delegation.voterPubkey = s.delegation.voterPubkey)
  deactivate : ∀ sv account info stake, sv.epochRewardsActive = false →
    account.owner = rt.stakeProgramId → account.data = .stake (.stake info stake) →
    stake.delegation.deactivationEpoch = epochMax →
    ∃ r, rt.stake.deactivate sv info.authorized.staker account = .ok r

end StakePoolFogo
