import StakePoolFogo.Processor.Checks

/-!
# Calls to other programs

The instruction wrappers of `Processor`.  An `invoke_signed` adds the address derived from
`[pool, authority type, bump]` to the signers; a plain `invoke` adds none.
-/

open StakePoolFogo.Outcome

namespace StakePoolFogo

variable (rt : Runtime) (sv : Sysvars)

/-- The withdraw authority as the signer of a call. -/
def signAsWithdrawAuthority (pool : Pubkey) (authority : AccountMeta) (bump : UInt8) :
    Except ProgramError Unit := do
  let derived ← poolAuthority rt pool authorityWithdraw bump
  requireSigner authority [derived]

def stakeDelegate (stake vote clock history config : Pubkey) (authority : AccountMeta)
    (pool : Pubkey) (bump : UInt8) (w : Ledger) : Except ProgramError Ledger := do
  requireSysvars [clock, history, config] [rt.clockId, rt.stakeHistoryId, rt.stakeConfigId]
  signAsWithdrawAuthority rt pool authority bump
  invoke₁ [rt.stakeProgramId] stake (rt.stake.delegate sv authority.key vote) w

def stakeDeactivate (stake clock : Pubkey) (authority : AccountMeta) (pool : Pubkey) (bump : UInt8)
    (w : Ledger) : Except ProgramError Ledger := do
  requireSysvars [clock] [rt.clockId]
  signAsWithdrawAuthority rt pool authority bump
  invoke₁ [rt.stakeProgramId] stake (rt.stake.deactivate sv authority.key) w

def stakeSplit (pool stake : Pubkey) (authority : AccountMeta) (bump : UInt8) (amount : Nat)
    (splitStake : Pubkey) (w : Ledger) : Except ProgramError Ledger := do
  signAsWithdrawAuthority rt pool authority bump
  invoke₂ [rt.stakeProgramId] stake splitStake (rt.stake.split sv authority.key amount) w

def stakeMerge (pool source : Pubkey) (authority : AccountMeta) (bump : UInt8)
    (destination clock history : Pubkey) (w : Ledger) : Except ProgramError Ledger := do
  requireSysvars [clock, history] [rt.clockId, rt.stakeHistoryId]
  signAsWithdrawAuthority rt pool authority bump
  invoke₂ [rt.stakeProgramId] destination source (rt.stake.merge sv authority.key) w

/-- Hand both authorities of a stake account to `newAuthority`. -/
def authorizeBoth (stake : Pubkey) (authority newAuthority clock : Pubkey) (w : Ledger) :
    Except ProgramError Ledger := do
  requireSysvars [clock] [rt.clockId]
  let w ← invoke₁ [rt.stakeProgramId] stake
    (rt.stake.authorize sv authority newAuthority .staker) w
  invoke₁ [rt.stakeProgramId] stake (rt.stake.authorize sv authority newAuthority .withdrawer) w

def stakeAuthorize (stake : Pubkey) (authority : AccountMeta) (newAuthority clock : Pubkey)
    (w : Ledger) : Except ProgramError Ledger := do
  requireSigner authority []
  authorizeBoth rt sv stake authority.key newAuthority clock w

/-- `stake_authorize_signed`; `authorityType` is the deposit or the withdraw seed. -/
def stakeAuthorizeSigned (pool stake : Pubkey) (authority : AccountMeta)
    (authorityType : List UInt8) (bump : UInt8) (newAuthority clock : Pubkey) (w : Ledger) :
    Except ProgramError Ledger := do
  let derived ← poolAuthority rt pool authorityType bump
  requireSigner authority [derived]
  authorizeBoth rt sv stake authority.key newAuthority clock w

def stakeWithdraw (pool source : Pubkey) (authority : AccountMeta) (bump : UInt8)
    (destination clock history : Pubkey) (lamports : Nat) (w : Ledger) :
    Except ProgramError Ledger := do
  requireSysvars [clock, history] [rt.clockId, rt.stakeHistoryId]
  signAsWithdrawAuthority rt pool authority bump
  invokeMove [rt.stakeProgramId] source destination
    (rt.stake.withdraw sv authority.key lamports) w

def tokenBurn (tokenProgram account mint : Pubkey) (authority : AccountMeta) (amount : Nat)
    (w : Ledger) : Except ProgramError Ledger := do
  checkTokenProgram rt tokenProgram
  requireSigner authority []
  invoke₂ [tokenProgram] account mint (rt.token.burn mint authority.key none amount) w

def tokenMintTo (pool tokenProgram mint destination : Pubkey) (authority : AccountMeta)
    (bump : UInt8) (amount : Nat) (w : Ledger) : Except ProgramError Ledger := do
  checkTokenProgram rt tokenProgram
  signAsWithdrawAuthority rt pool authority bump
  invoke₂ [tokenProgram] mint destination (rt.token.mintTo mint authority.key amount) w

def tokenTransfer (tokenProgram source mint destination : Pubkey) (authority : AccountMeta)
    (amount : Nat) (decimals : UInt8) (w : Ledger) : Except ProgramError Ledger := do
  checkTokenProgram rt tokenProgram
  requireSigner authority []
  invokeMove [tokenProgram] source destination
    (rt.token.transferChecked mint authority.key none amount decimals (w mint)) w

def solTransfer (source : AccountMeta) (destination : Pubkey) (amount : Nat) (w : Ledger) :
    Except ProgramError Ledger := do
  requireSigner source []
  invokeMove [rt.systemProgramId] source.key destination (rt.system.transfer amount) w

/-- Allocate and assign a stake account on a derived address, without moving lamports. -/
def createStakeAccount (info : AccountMeta) (seeds : List (List UInt8)) (space : Nat) (w : Ledger) :
    Except ProgramError Ledger := do
  let derived ← rt.createProgramAddress seeds rt.programId
  requireSigner info [derived]
  let w ← invoke₁ [rt.systemProgramId] info.key (rt.system.allocate space) w
  invoke₁ [rt.systemProgramId] info.key (rt.system.assign rt.stakeProgramId) w

end StakePoolFogo
