import StakePoolFogo.Frames

/-!
# What the calls to the stake program do

One lemma per wrapper: what the stake program returned is what the accounts hold afterwards, and
accounts that were not handed over stay as they are.  The laws then say what that is.
-/

open StakePoolFogo.Outcome

namespace StakePoolFogo

variable {rt : Runtime} {sv : Sysvars} {w w' : Ledger}

theorem invoke₁_spec {callees : List Pubkey} {k : Pubkey} {f : Account → Except ProgramError Account}
    (h : invoke₁ callees k f w = .ok w') :
    OnlyAt [k] w w' ∧ f (w k) = .ok (w' k) ∧ (w' k).lamports = (w k).lamports := by
  have honly := OnlyAt.of_invoke₁ h
  obtain ⟨a, hf, -, hlamports, rfl⟩ := invoke₁_eq_ok.mp h
  rw [Ledger.set_same]
  exact ⟨honly, hf, hlamports⟩

theorem invoke₂_spec {callees : List Pubkey} {j k : Pubkey}
    {f : Account → Account → Except ProgramError (Account × Account)}
    (h : invoke₂ callees j k f w = .ok w') :
    j ≠ k ∧ OnlyAt [j, k] w w' ∧ f (w j) (w k) = .ok (w' j, w' k) := by
  have honly := OnlyAt.of_invoke₂ h
  obtain ⟨hne, a, b, hf, -, -, -, rfl⟩ := invoke₂_eq_ok.mp h
  rw [Ledger.set_same, Ledger.set_other _ _ hne, Ledger.set_same]
  exact ⟨hne, honly, hf⟩

section Wrappers

variable {pool source destination stake clock history : Pubkey} {authority : AccountMeta}
  {bump : UInt8} {lamports : Nat}

theorem stakeMerge_spec
    (h : stakeMerge rt sv pool source authority bump destination clock history w = .ok w') :
    destination ≠ source ∧ OnlyAt [destination, source] w w' ∧
      rt.stake.merge sv authority.key (w destination) (w source) =
        .ok (w' destination, w' source) := by
  simp only [stakeMerge, bind_eq_ok, exists_unit] at h
  exact invoke₂_spec h.2.2

theorem stakeSplit_spec (h : stakeSplit rt sv pool source authority bump lamports destination w =
      .ok w') : source ≠ destination ∧ OnlyAt [source, destination] w w' ∧
      rt.stake.split sv authority.key lamports (w source) (w destination) =
        .ok (w' source, w' destination) := by
  simp only [stakeSplit, bind_eq_ok, exists_unit] at h
  exact invoke₂_spec h.2

theorem stakeWithdraw_spec
    (h : stakeWithdraw rt sv pool source authority bump destination clock history lamports w = .ok w')
    (hne : source ≠ destination) : OnlyAt [source, destination] w w' ∧
      rt.stake.withdraw sv authority.key lamports (w source) (w destination) =
        .ok (w' source, w' destination) := by
  simp only [stakeWithdraw, bind_eq_ok, exists_unit, invokeMove, if_neg hne] at h
  exact (invoke₂_spec h.2.2).2

/-- Withdrawing from an account to itself. -/
theorem stakeWithdraw_self
    (h : stakeWithdraw rt sv pool source authority bump source clock history lamports w = .ok w') :
    w' = w ∧ ∃ r, rt.stake.withdraw sv authority.key lamports (w source) (w source) = .ok r := by
  simp only [stakeWithdraw, bind_eq_ok, exists_unit, invokeMove, if_pos, pure_eq_ok] at h
  obtain ⟨-, -, r, hcall, rfl⟩ := h
  exact ⟨rfl, r, hcall⟩

theorem stakeDeactivate_spec (h : stakeDeactivate rt sv stake clock authority pool bump w = .ok w') :
    OnlyAt [stake] w w' ∧ rt.stake.deactivate sv authority.key (w stake) = .ok (w' stake) := by
  simp only [stakeDeactivate, bind_eq_ok, exists_unit] at h
  obtain ⟨honly, hf, -⟩ := invoke₁_spec h.2.2
  exact ⟨honly, hf⟩

theorem stakeDelegate_spec {vote config : Pubkey}
    (h : stakeDelegate rt sv stake vote clock history config authority pool bump w = .ok w') :
    OnlyAt [stake] w w' ∧ rt.stake.delegate sv authority.key vote (w stake) = .ok (w' stake) := by
  simp only [stakeDelegate, bind_eq_ok, exists_unit] at h
  obtain ⟨honly, hf, -⟩ := invoke₁_spec h.2.2
  exact ⟨honly, hf⟩

/-- A new stake account is an empty account of the system program that kept its lamports. -/
theorem createStakeAccount_spec (laws : SystemLaws rt) {info : AccountMeta}
    {seeds : List (List UInt8)} {space : Nat}
    (h : createStakeAccount rt info seeds space w = .ok w') :
    OnlyAt [info.key] w w' ∧ (w info.key).owner = rt.systemProgramId ∧
      w' info.key = ⟨(w info.key).lamports, rt.stakeProgramId, space, .zeroed⟩ := by
  simp only [createStakeAccount, bind_eq_ok, exists_unit] at h
  obtain ⟨_, -, -, w₁, hallocate, hassign⟩ := h
  obtain ⟨honly₁, hf₁, -⟩ := invoke₁_spec hallocate
  obtain ⟨honly₂, hf₂, -⟩ := invoke₁_spec hassign
  obtain ⟨howner, -, h₁⟩ := laws.allocate _ _ _ hf₁
  obtain ⟨-, h₂⟩ := laws.assign _ _ _ hf₂
  exact ⟨honly₁.trans honly₂, howner, by rw [h₂, h₁]⟩

end Wrappers

/-! ## Lamports on the move -/

/-- An account that a merge has drained. -/
def Account.drained (a : Account) : Account :=
  { a with lamports := 0, data := .stake .uninitialized }

/-- A stake account after `lamports` were withdrawn; an emptied one is no stake any more. -/
def Account.debited (a : Account) (lamports : Nat) : Account :=
  if a.lamports - lamports = 0 then a.drained else { a with lamports := a.lamports - lamports }

def Account.credited (a : Account) (lamports : Nat) : Account :=
  { a with lamports := a.lamports + lamports }

@[simp] theorem Account.credited_zero (a : Account) : a.credited 0 = a := rfl

theorem Account.credited_credited (a : Account) (m n : Nat) :
    (a.credited m).credited n = a.credited (m + n) := by
  simp [Account.credited, Nat.add_assoc]

@[simp] theorem Account.drained_lamports (a : Account) : a.drained.lamports = 0 := rfl

@[simp] theorem Account.debited_lamports (a : Account) (lamports : Nat) :
    (a.debited lamports).lamports = a.lamports - lamports := by
  unfold Account.debited
  split
  · rename_i hzero
    rw [hzero]
    rfl
  · rfl

/-- A merge into an account without delegation only adds the lamports. -/
theorem StakeLaws.merge_initialized (laws : StakeLaws rt) {authority : Pubkey}
    {destination source destination' source' : Account} {info : StakeMeta}
    (h : rt.stake.merge sv authority destination source = .ok (destination', source'))
    (hdata : destination.data = .stake (.initialized info)) :
    destination' = destination.credited source.lamports ∧ source' = source.drained := by
  obtain ⟨d, s, d', hd, -, -, -, -, hd', -, hinit, hlamports, hshape, hsource⟩ :=
    laws.merge _ _ _ _ _ _ h
  rw [hdata] at hd
  cases hd
  have hsame := hinit info rfl
  refine ⟨?_, hsource⟩
  obtain ⟨n, owner, len, data⟩ := destination'
  obtain ⟨howner, hlen⟩ := hshape
  simp only [Account.credited, Account.mk.injEq]
  exact ⟨hlamports, howner, hlen, by rw [hdata, ← hsame]; exact hd'⟩

/-- A withdrawal takes exactly the lamports. -/
theorem StakeLaws.withdraw_debited (laws : StakeLaws rt) {authority : Pubkey} {lamports : Nat}
    {source destination source' destination' : Account} {s : StakeStateV2} {info : StakeMeta}
    (h : rt.stake.withdraw sv authority lamports source destination = .ok (source', destination'))
    (hdata : source.data = .stake s) (hmeta : s.meta? = some info) :
    source' = source.debited lamports ∧ destination' = destination.credited lamports ∧
      lamports ≤ source.lamports ∧ (source'.lamports ≠ 0 → info.rentExemptReserve ≤ source'.lamports) := by
  obtain ⟨-, -, hsum, ⟨howner, hlen⟩, hdest, hzero, hrest⟩ :=
    laws.withdraw _ _ _ _ _ _ _ _ _ h hdata hmeta
  have hleft : source'.lamports = source.lamports - lamports := by omega
  refine ⟨?_, hdest, by omega, fun hne => (hrest hne).1⟩
  unfold Account.debited
  split
  · rename_i hempty
    have := hzero (by omega)
    obtain ⟨n, owner, len, data⟩ := source'
    simp only [Account.drained, Account.mk.injEq]
    exact ⟨hleft.trans hempty, howner, hlen, this⟩
  · rename_i hempty
    have := (hrest (by omega)).2
    obtain ⟨n, owner, len, data⟩ := source'
    simp only [Account.mk.injEq]
    exact ⟨hleft, howner, hlen, this⟩

end StakePoolFogo
