import StakePoolFogo.State

/-!
# Accounts and how the program reads them

The ledger maps every address to its account.  Account data is kept decoded, one constructor for
each layout the program looks at; `zeroed` is data nobody has written yet, `dataLen` its size.
-/

open StakePoolFogo.Outcome

namespace StakePoolFogo

inductive AccountData where
  | zeroed
  | stakePool (p : StakePool)
  | validatorList (l : ValidatorList)
  | stake (s : StakeStateV2)
  | mint (m : Mint)
  | token (t : TokenAccount)
  | other (bytes : List UInt8)
deriving DecidableEq, Repr

structure Account where
  lamports : Nat
  owner : Pubkey
  dataLen : Nat
  data : AccountData
deriving DecidableEq, Repr

abbrev Ledger := Pubkey → Account

namespace Ledger

def set (w : Ledger) (k : Pubkey) (a : Account) : Ledger :=
  fun k' => if k' = k then a else w k'

@[simp] theorem set_same (w : Ledger) (k : Pubkey) (a : Account) : w.set k a k = a := by
  simp [set]

theorem set_other (w : Ledger) {k k' : Pubkey} (a : Account) (h : k' ≠ k) : w.set k a k' = w k' := by
  simp [set, h]

@[simp] theorem set_self (w : Ledger) (k : Pubkey) : w.set k (w k) = w := by
  funext k'
  by_cases h : k' = k
  · rw [h, set_same]
  · rw [set_other w _ h]

@[simp] theorem set_set (w : Ledger) (k : Pubkey) (a a' : Account) :
    (w.set k a).set k a' = w.set k a' := by
  funext j
  unfold set
  by_cases h : j = k <;> simp [h]

end Ledger

/-- An account as an instruction passes it. -/
structure AccountMeta where
  key : Pubkey
  isSigner : Bool
  isWritable : Bool
deriving DecidableEq, Repr

/-- The `i`-th account of the instruction, counting from zero (`next_account_info`). -/
def accountAt (accounts : List AccountMeta) (i : Nat) : Except ProgramError AccountMeta :=
  okOr accounts[i]? .notEnoughAccountKeys

/-- An account that only some forms of an instruction take. -/
def optionalAccountAt (present : Bool) (accounts : List AccountMeta) (i : Nat) :
    Except ProgramError (Option AccountMeta) :=
  if present then some <$> accountAt accounts i else .ok none

theorem accountAt_eq_ok {accounts : List AccountMeta} {i : Nat} {a : AccountMeta} :
    accountAt accounts i = .ok a ↔ accounts[i]? = some a := okOr_eq_ok

theorem optionalAccountAt_eq_ok {present : Bool} {accounts : List AccountMeta} {i : Nat}
    {o : Option AccountMeta} : optionalAccountAt present accounts i = .ok o ↔
      if present then ∃ a, accounts[i]? = some a ∧ o = some a else o = none := by
  cases present with
  | true =>
    simp only [optionalAccountAt, if_true, map_eq_ok, accountAt_eq_ok]
    constructor
    · rintro ⟨a, ha, rfl⟩
      exact ⟨a, ha, rfl⟩
    · rintro ⟨a, ha, rfl⟩
      exact ⟨a, ha, rfl⟩
  | false => simp [optionalAccountAt, eq_comm]

theorem optionalAccountAt_isSome {present : Bool} {accounts : List AccountMeta} {i : Nat}
    {o : Option AccountMeta} (h : optionalAccountAt present accounts i = .ok o) :
    o.isSome = present := by
  have h' := optionalAccountAt_eq_ok.mp h
  cases present with
  | true =>
    obtain ⟨a, -, rfl⟩ := h'
    rfl
  | false =>
    cases h'
    rfl

theorem accountAt_mem {accounts : List AccountMeta} {i : Nat} {a : AccountMeta}
    (h : accountAt accounts i = .ok a) : a ∈ accounts :=
  List.mem_of_getElem? (accountAt_eq_ok.mp h)

/-- Bytes of the Borsh encoding of a stake pool: the options and the pending fees vary. -/
def StakePool.packedLen (p : StakePool) : Nat :=
  let key (o : Option Pubkey) := if o.isSome then 32 else 0
  let fee (f : FutureEpoch Fee) := if f.pending.isSome then 16 else 0
  435 + key p.preferredDepositValidatorVoteAddress + key p.preferredWithdrawValidatorVoteAddress +
    key p.solDepositAuthority + key p.solWithdrawAuthority +
    fee p.nextEpochFee + fee p.nextStakeWithdrawalFee + fee p.nextSolWithdrawalFee

namespace Account

/-- `try_from_slice_unchecked::<StakePool>`. -/
def tryStakePool (a : Account) : Except ProgramError StakePool :=
  match a.data with
  | .stakePool p => .ok p
  | .zeroed => if StakePool.zeroed.packedLen ≤ a.dataLen then .ok .zeroed else .error .borshIoError
  | _ => .error .borshIoError

/-- The validator list, header and entries. -/
def tryValidatorList (a : Account) : Except ProgramError ValidatorList :=
  match a.data with
  | .validatorList l => .ok l
  | .zeroed => if ValidatorList.packedLen 0 ≤ a.dataLen then .ok .zeroed else .error .borshIoError
  | _ => .error .borshIoError

/-- `try_from_slice_unchecked::<StakeStateV2>`. -/
def tryStakeState (a : Account) : Except ProgramError StakeStateV2 :=
  match a.data with
  | .stake s => .ok s
  | .zeroed => if 4 ≤ a.dataLen then .ok .uninitialized else .error .borshIoError
  | _ => .error .borshIoError

/-- `StateWithExtensions::<Mint>::unpack`. -/
def unpackMint (a : Account) : Except ProgramError Mint :=
  match a.data with
  | .mint m => .ok m
  | _ => .error .invalidAccountData

/-- `StateWithExtensions::<Account>::unpack`, which rejects uninitialized token accounts. -/
def unpackToken (a : Account) : Except ProgramError TokenAccount :=
  match a.data with
  | .token t => if t.state = .uninitialized then .error .invalidAccountData else .ok t
  | _ => .error .invalidAccountData

theorem tryStakePool_valid {a : Account} {p : StakePool} (h : a.tryStakePool = .ok p)
    (hv : p.isValid) : a.data = .stakePool p := by
  unfold tryStakePool at h
  split at h
  · rename_i q hq
    rw [hq, Except.ok.inj h]
  · split at h
    · cases Except.ok.inj h
      exact absurd hv (by decide)
    · cases h
  · cases h

theorem tryValidatorList_valid {a : Account} {l : ValidatorList} (h : a.tryValidatorList = .ok l)
    (hv : l.header.isValid) : a.data = .validatorList l := by
  unfold tryValidatorList at h
  split at h
  · rename_i q hq
    rw [hq, Except.ok.inj h]
  · split at h
    · cases Except.ok.inj h
      exact absurd hv (by decide)
    · cases h
  · cases h

theorem unpackMint_eq_ok {a : Account} {m : Mint} : a.unpackMint = .ok m ↔ a.data = .mint m := by
  unfold unpackMint
  split <;> simp_all

theorem unpackToken_data {a : Account} {t : TokenAccount} (h : a.unpackToken = .ok t) :
    a.data = .token t := by
  unfold unpackToken at h
  split at h
  · rename_i u hu
    split at h
    · cases h
    · rw [hu, Except.ok.inj h]
  · cases h

end Account

/-- `borsh::to_writer` over the account's data; a too short buffer is an error. -/
def writeStakePool (w : Ledger) (k : Pubkey) (p : StakePool) : Except ProgramError Ledger := do
  failIf ((w k).dataLen < p.packedLen) .borshIoError
  return w.set k { w k with data := .stakePool p }

/-- Put the list back; the entries were edited in place. -/
def writeValidatorList (w : Ledger) (k : Pubkey) (l : ValidatorList) : Ledger :=
  w.set k { w k with data := .validatorList l }

theorem writeStakePool_eq_ok {w w' : Ledger} {k : Pubkey} {p : StakePool} :
    writeStakePool w k p = .ok w' ↔
      p.packedLen ≤ (w k).dataLen ∧ w' = w.set k { w k with data := .stakePool p } := by
  simp only [writeStakePool, bind_eq_ok, failIf_eq_ok, exists_unit, pure_eq_ok, Nat.not_lt]
  constructor
  · rintro ⟨h, rfl⟩
    exact ⟨h, rfl⟩
  · rintro ⟨h, rfl⟩
    exact ⟨h, rfl⟩

end StakePoolFogo
