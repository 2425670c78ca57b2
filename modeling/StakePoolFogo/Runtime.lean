import StakePoolFogo.Ledger

/-!
# The runtime and the programs the pool calls

Everything outside the repository is a parameter: sysvars, program addresses, and the stake, token,
system, associated-token and metadata programs.  A program is a function of the accounts it is
handed.  `invoke₁` and `invoke₂` run one and apply the runtime's own rules to the result: only the
owner of an account may change its data, size or owner or take lamports from it, an account that
changes hands is zeroed, and an instruction neither creates nor destroys lamports.
-/

open StakePoolFogo.Outcome

namespace StakePoolFogo

structure Sysvars where
  epoch : Epoch
  /-- `Rent::minimum_balance`. -/
  minimumBalance : Nat → Nat
  epochRewardsActive : Bool
  /-- `stake::tools::get_minimum_delegation`. -/
  stakeMinimumDelegation : Nat

structure StakeProgram where
  merge (sv : Sysvars) (authority : Pubkey) (destination source : Account) :
    Except ProgramError (Account × Account)
  split (sv : Sysvars) (authority : Pubkey) (lamports : Nat) (source destination : Account) :
    Except ProgramError (Account × Account)
  withdraw (sv : Sysvars) (authority : Pubkey) (lamports : Nat) (source destination : Account) :
    Except ProgramError (Account × Account)
  deactivate (sv : Sysvars) (authority : Pubkey) (stake : Account) : Except ProgramError Account
  delegate (sv : Sysvars) (authority vote : Pubkey) (stake : Account) : Except ProgramError Account
  authorize (sv : Sysvars) (authority newAuthority : Pubkey) (role : StakeAuthorize)
    (stake : Account) : Except ProgramError Account

/-- The token programs.  `cosigner` is the program signer that vouches for a session key. -/
structure TokenProgram where
  mintTo (mintKey authority : Pubkey) (amount : Nat) (mint destination : Account) :
    Except ProgramError (Account × Account)
  burn (mintKey authority : Pubkey) (cosigner : Option Pubkey) (amount : Nat)
    (account mint : Account) : Except ProgramError (Account × Account)
  transferChecked (mintKey authority : Pubkey) (cosigner : Option Pubkey) (amount : Nat)
    (decimals : UInt8) (mint source destination : Account) : Except ProgramError (Account × Account)
  initializeAccount3 (mintKey owner : Pubkey) (mint account : Account) : Except ProgramError Account
  closeAccount (authority : Pubkey) (account destination : Account) :
    Except ProgramError (Account × Account)
  syncNative (account : Account) : Except ProgramError Account

structure SystemProgram where
  transfer (lamports : Nat) (source destination : Account) : Except ProgramError (Account × Account)
  allocate (space : Nat) (account : Account) : Except ProgramError Account
  assign (owner : Pubkey) (account : Account) : Except ProgramError Account

structure Runtime where
  programId : Pubkey
  systemProgramId : Pubkey
  stakeProgramId : Pubkey
  splTokenId : Pubkey
  splToken2022Id : Pubkey
  associatedTokenProgramId : Pubkey
  mplTokenMetadataId : Pubkey
  nativeMintId : Pubkey
  clockId : Pubkey
  rentId : Pubkey
  stakeHistoryId : Pubkey
  stakeConfigId : Pubkey
  programSignerSeed : List UInt8
  findProgramAddress : List (List UInt8) → Pubkey → Pubkey × UInt8
  createProgramAddress : List (List UInt8) → Pubkey → Except ProgramError Pubkey
  getAssociatedTokenAddress : Pubkey → Pubkey → Pubkey
  stake : StakeProgram
  token : TokenProgram
  system : SystemProgram
  /-- `spl_associated_token_account::tools::account::create_pda_account`: payer, new account. -/
  createPdaAccount : Sysvars → (space : Nat) → (owner : Pubkey) → (payerSigned : Bool) →
    (payer account : Account) → Except ProgramError (Account × Account)
  /-- `create_associated_token_account_idempotent`: payer, associated account. -/
  createAssociatedIdempotent : (wallet mintKey tokenProgram : Pubkey) → (payer account : Account) →
    Except ProgramError (Account × Account)
  /-- `create_metadata_accounts_v3` with name, symbol and uri: payer, metadata account. -/
  createMetadata : (mint authority : Pubkey) → (name symbol uri : List UInt8) →
    (payer account : Account) → Except ProgramError (Account × Account)
  /-- `update_metadata_accounts_v2`. -/
  updateMetadata : (authority : Pubkey) → (name symbol uri : List UInt8) → (account : Account) →
    Except ProgramError Account
  /-- `Session::extract_user_from_signer_or_session`. -/
  extractUser : Sysvars → AccountMeta → Account → Except ProgramError Pubkey

variable (rt : Runtime)

/-- `check_spl_token_program_account`. -/
def Runtime.isTokenProgram (k : Pubkey) : Prop := k = rt.splTokenId ∨ k = rt.splToken2022Id

instance (k : Pubkey) : Decidable (rt.isTokenProgram k) := inferInstanceAs (Decidable (_ ∨ _))

/-- May the programs in `callees` have turned `before` into `after`?  An account given away to
another owner is zeroed. -/
def Account.changedLegally (callees : List Pubkey) (before after : Account) : Prop :=
  before.owner ∈ callees ∧ (after.owner ∈ callees ∨ after.data = .zeroed) ∨
    after.owner = before.owner ∧ after.dataLen = before.dataLen ∧ after.data = before.data ∧
      before.lamports ≤ after.lamports

instance (callees : List Pubkey) (before after : Account) :
    Decidable (before.changedLegally callees after) := inferInstanceAs (Decidable (_ ∨ _))

/-- Run a program that only touches account `k`. -/
def invoke₁ (callees : List Pubkey) (k : Pubkey) (f : Account → Except ProgramError Account)
    (w : Ledger) : Except ProgramError Ledger := do
  let a ← f (w k)
  failIf (¬ (w k).changedLegally callees a) .externalAccountModified
  failIf (a.lamports ≠ (w k).lamports) .unbalancedInstruction
  return w.set k a

/-- Run a program over the accounts `j` and `k`.  Handing one account twice is an error. -/
def invoke₂ (callees : List Pubkey) (j k : Pubkey)
    (f : Account → Account → Except ProgramError (Account × Account)) (w : Ledger) :
    Except ProgramError Ledger := do
  failIf (j = k) .accountBorrowFailed
  let r ← f (w j) (w k)
  failIf (¬ ((w j).changedLegally callees r.1 ∧ (w k).changedLegally callees r.2))
    .externalAccountModified
  failIf (r.1.lamports + r.2.lamports ≠ (w j).lamports + (w k).lamports) .unbalancedInstruction
  return (w.set j r.1).set k r.2

/-- Run a program that moves lamports or tokens from `j` to `k`.  Moving them from an account to
itself gives back what was taken. -/
def invokeMove (callees : List Pubkey) (j k : Pubkey)
    (f : Account → Account → Except ProgramError (Account × Account)) (w : Ledger) :
    Except ProgramError Ledger :=
  if j = k then do
    let _ ← f (w j) (w k)
    return w
  else invoke₂ callees j k f w

/-- Run a program that pays for account `k` from account `j`, which may be the same. -/
def invokeCreate (callees : List Pubkey) (j k : Pubkey)
    (f : Account → Account → Except ProgramError (Account × Account)) (w : Ledger) :
    Except ProgramError Ledger :=
  if j = k then invoke₁ callees k (fun a => Prod.snd <$> f a a) w
  else invoke₂ callees j k f w

/-- The sysvars a called instruction names must be among the accounts handed to it. -/
def requireSysvars (handed named : List Pubkey) : Except ProgramError Unit :=
  failIf (handed ≠ named) .missingAccount

/-- An account marked as signer in a called instruction signed the transaction or is an address
derived from the seeds handed to `invoke_signed`. -/
def requireSigner (info : AccountMeta) (derived : List Pubkey) : Except ProgramError Unit :=
  failIf (¬ (info.isSigner = true ∨ info.key ∈ derived)) .privilegeEscalation

theorem invoke₁_eq_ok {callees : List Pubkey} {k : Pubkey} {f : Account → Except ProgramError Account}
    {w w' : Ledger} : invoke₁ callees k f w = .ok w' ↔
      ∃ a, f (w k) = .ok a ∧ (w k).changedLegally callees a ∧ a.lamports = (w k).lamports ∧
        w' = w.set k a := by
  simp only [invoke₁, bind_eq_ok, failIf_eq_ok, exists_unit, pure_eq_ok, not_not, ne_eq]
  constructor
  · rintro ⟨a, hf, hc, hl, rfl⟩
    exact ⟨a, hf, hc, hl, rfl⟩
  · rintro ⟨a, hf, hc, hl, rfl⟩
    exact ⟨a, hf, hc, hl, rfl⟩

theorem invoke₂_eq_ok {callees : List Pubkey} {j k : Pubkey}
    {f : Account → Account → Except ProgramError (Account × Account)} {w w' : Ledger} :
    invoke₂ callees j k f w = .ok w' ↔
      j ≠ k ∧ ∃ a b, f (w j) (w k) = .ok (a, b) ∧ (w j).changedLegally callees a ∧
        (w k).changedLegally callees b ∧ a.lamports + b.lamports = (w j).lamports + (w k).lamports ∧
        w' = (w.set j a).set k b := by
  simp only [invoke₂, bind_eq_ok, failIf_eq_ok, exists_unit, pure_eq_ok, not_not, ne_eq]
  constructor
  · rintro ⟨hne, ⟨a, b⟩, hf, ⟨ha, hb⟩, hl, rfl⟩
    exact ⟨hne, a, b, hf, ha, hb, hl, rfl⟩
  · rintro ⟨hne, a, b, hf, ha, hb, hl, rfl⟩
    exact ⟨hne, (a, b), hf, ⟨ha, hb⟩, hl, rfl⟩

end StakePoolFogo
