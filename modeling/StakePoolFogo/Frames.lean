import StakePoolFogo.Laws
import StakePoolFogo.Processor.Session
import StakePoolFogo.Processor.Manage

/-!
# What a call leaves alone

The runtime lets a program change only the accounts it owns; every other account can at most gain
lamports, and an account given to another program arrives there zeroed.  `Frames callees w w'` says
so for the owners in `callees`, and every wrapper around a call satisfies it for the program it
calls.
-/

open StakePoolFogo.Outcome

namespace StakePoolFogo

/-- The same account, with at least as many lamports. -/
structure Account.OnlyCredited (a b : Account) : Prop where
  owner : b.owner = a.owner
  dataLen : b.dataLen = a.dataLen
  data : b.data = a.data
  lamports : a.lamports ≤ b.lamports

namespace Account.OnlyCredited

theorem refl (a : Account) : a.OnlyCredited a := ⟨rfl, rfl, rfl, Nat.le_refl _⟩

theorem trans {a b c : Account} (h : a.OnlyCredited b) (h' : b.OnlyCredited c) : a.OnlyCredited c :=
  ⟨h'.owner.trans h.owner, h'.dataLen.trans h.dataLen, h'.data.trans h.data,
    Nat.le_trans h.lamports h'.lamports⟩

end Account.OnlyCredited

theorem Account.changedLegally.onlyCredited {callees : List Pubkey} {a b : Account}
    (h : a.changedLegally callees b) (ho : a.owner ∉ callees) : a.OnlyCredited b := by
  rcases h with ⟨hin, -⟩ | ⟨h1, h2, h3, h4⟩
  · exact absurd hin ho
  · exact ⟨h1, h2, h3, h4⟩

theorem Account.changedLegally.zeroed {callees : List Pubkey} {a b : Account}
    (h : a.changedLegally callees b) (ha : a.owner ∈ callees) (hb : b.owner ∉ callees) :
    b.data = .zeroed := by
  rcases h with ⟨-, hin | hdata⟩ | ⟨howner, -⟩
  · exact absurd hin hb
  · exact hdata
  · exact absurd (howner ▸ ha) hb

/-- What programs in `callees` leave alone: accounts of others are at most credited, and accounts
they give away are zeroed. -/
structure Frames (callees : List Pubkey) (w w' : Ledger) : Prop where
  others : ∀ k, (w k).owner ∉ callees → (w k).OnlyCredited (w' k)
  given : ∀ k, (w k).owner ∈ callees → (w' k).owner ∉ callees → (w' k).data = .zeroed

namespace Frames

variable {callees : List Pubkey} {w w' w'' : Ledger}

theorem refl (callees : List Pubkey) (w : Ledger) : Frames callees w w :=
  ⟨fun k _ => Account.OnlyCredited.refl (w k), fun _ hin hout => absurd hin hout⟩

theorem trans (h : Frames callees w w') (h' : Frames callees w' w'') : Frames callees w w'' := by
  refine ⟨fun k ho => ?_, fun k hin hout => ?_⟩
  · have hk := h.others k ho
    exact hk.trans (h'.others k (by rw [hk.owner]; exact ho))
  · by_cases hmid : (w' k).owner ∈ callees
    · exact h'.given k hmid hout
    · rw [(h'.others k hmid).data]
      exact h.given k hin hmid

theorem mono {more : List Pubkey} (h : Frames callees w w') (hsub : callees ⊆ more) :
    Frames more w w' := by
  refine ⟨fun k ho => h.others k fun hin => ho (hsub hin), fun k hin hout => ?_⟩
  by_cases hk : (w k).owner ∈ callees
  · exact h.given k hk fun hin' => hout (hsub hin')
  · exact absurd ((h.others k hk).owner ▸ hin) hout

theorem of_onlyIf {c : Prop} [Decidable c] {f : Ledger → Except ProgramError Ledger}
    (hf : ∀ u, f w = .ok u → Frames callees w u) (h : onlyIf c f w = .ok w') : Frames callees w w' :=
  onlyIf_rel (Frames.refl callees) hf h

/-- One account changed, legally. -/
theorem set {k : Pubkey} {a : Account} (h : (w k).changedLegally callees a) :
    Frames callees w (w.set k a) := by
  refine ⟨fun j ho => ?_, fun j hin hout => ?_⟩
  · by_cases hj : j = k
    · subst hj
      rw [Ledger.set_same]
      exact h.onlyCredited ho
    · rw [Ledger.set_other _ _ hj]
      exact Account.OnlyCredited.refl _
  · by_cases hj : j = k
    · subst hj
      rw [Ledger.set_same] at hout ⊢
      exact h.zeroed hin hout
    · rw [Ledger.set_other _ _ hj] at hout
      exact absurd hin hout

theorem of_invoke₁ {k : Pubkey} {f : Account → Except ProgramError Account}
    (h : invoke₁ callees k f w = .ok w') : Frames callees w w' := by
  obtain ⟨a, -, hc, -, rfl⟩ := invoke₁_eq_ok.mp h
  exact Frames.set hc

theorem of_invoke₂ {j k : Pubkey} {f : Account → Account → Except ProgramError (Account × Account)}
    (h : invoke₂ callees j k f w = .ok w') : Frames callees w w' := by
  obtain ⟨hne, a, b, -, ha, hb, -, rfl⟩ := invoke₂_eq_ok.mp h
  refine (Frames.set ha).trans (Frames.set ?_)
  rw [Ledger.set_other _ _ hne.symm]
  exact hb

theorem of_invokeMove {j k : Pubkey}
    {f : Account → Account → Except ProgramError (Account × Account)}
    (h : invokeMove callees j k f w = .ok w') : Frames callees w w' := by
  unfold invokeMove at h
  split at h
  · simp only [bind_eq_ok, pure_eq_ok] at h
    obtain ⟨_, -, rfl⟩ := h
    exact Frames.refl _ _
  · exact of_invoke₂ h

theorem of_invokeCreate {j k : Pubkey}
    {f : Account → Account → Except ProgramError (Account × Account)}
    (h : invokeCreate callees j k f w = .ok w') : Frames callees w w' := by
  unfold invokeCreate at h
  split at h
  · exact of_invoke₁ h
  · exact of_invoke₂ h

end Frames

/-! ## Accounts a call is not handed -/

/-- Only the accounts at `keys` may differ. -/
def OnlyAt (keys : List Pubkey) (w w' : Ledger) : Prop := ∀ x, x ∉ keys → w' x = w x

namespace OnlyAt

variable {keys : List Pubkey} {w w' w'' : Ledger}

theorem refl (keys : List Pubkey) (w : Ledger) : OnlyAt keys w w := fun _ _ => rfl

theorem trans (h : OnlyAt keys w w') (h' : OnlyAt keys w' w'') : OnlyAt keys w w'' :=
  fun x hx => (h' x hx).trans (h x hx)

theorem mono {more : List Pubkey} (h : OnlyAt keys w w') (hsub : keys ⊆ more) : OnlyAt more w w' :=
  fun x hx => h x fun hin => hx (hsub hin)

theorem set (w : Ledger) (k : Pubkey) (a : Account) : OnlyAt [k] w (w.set k a) :=
  fun _ hx => Ledger.set_other _ _ (List.ne_of_not_mem_cons hx)

theorem of_onlyIf {c : Prop} [Decidable c] {f : Ledger → Except ProgramError Ledger}
    (hf : ∀ u, f w = .ok u → OnlyAt keys w u) (h : onlyIf c f w = .ok w') : OnlyAt keys w w' :=
  onlyIf_rel (OnlyAt.refl keys) hf h

variable {callees : List Pubkey} {j k : Pubkey}

theorem of_invoke₁ {f : Account → Except ProgramError Account} (h : invoke₁ callees k f w = .ok w') :
    OnlyAt [k] w w' := by
  obtain ⟨a, -, -, -, rfl⟩ := invoke₁_eq_ok.mp h
  exact OnlyAt.set w k a

theorem of_invoke₂ {f : Account → Account → Except ProgramError (Account × Account)}
    (h : invoke₂ callees j k f w = .ok w') : OnlyAt [j, k] w w' := by
  obtain ⟨-, a, b, -, -, -, -, rfl⟩ := invoke₂_eq_ok.mp h
  exact ((OnlyAt.set w j a).mono (by simp)).trans ((OnlyAt.set _ k b).mono (by simp))

theorem of_invokeMove {f : Account → Account → Except ProgramError (Account × Account)}
    (h : invokeMove callees j k f w = .ok w') : OnlyAt [j, k] w w' := by
  unfold invokeMove at h
  split at h
  · simp only [bind_eq_ok, pure_eq_ok] at h
    obtain ⟨_, -, rfl⟩ := h
    exact OnlyAt.refl _ _
  · exact of_invoke₂ h

theorem of_invokeCreate {f : Account → Account → Except ProgramError (Account × Account)}
    (h : invokeCreate callees j k f w = .ok w') : OnlyAt [j, k] w w' := by
  unfold invokeCreate at h
  split at h
  · exact (of_invoke₁ h).mono (by simp)
  · exact of_invoke₂ h

theorem of_writeStakePool {p : StakePool} (h : writeStakePool w k p = .ok w') : OnlyAt [k] w w' := by
  obtain ⟨-, rfl⟩ := writeStakePool_eq_ok.mp h
  exact OnlyAt.set _ _ _

end OnlyAt

/-! ## The wrappers -/

variable {rt : Runtime} {sv : Sysvars} {w w' : Ledger}

theorem stakeDelegate_frames {stake vote clock history config : Pubkey} {authority : AccountMeta}
    {pool : Pubkey} {bump : UInt8}
    (h : stakeDelegate rt sv stake vote clock history config authority pool bump w = .ok w') :
    Frames [rt.stakeProgramId] w w' := by
  simp only [stakeDelegate, bind_eq_ok, exists_unit] at h
  exact Frames.of_invoke₁ h.2.2

theorem stakeDeactivate_frames {stake clock : Pubkey} {authority : AccountMeta} {pool : Pubkey}
    {bump : UInt8} (h : stakeDeactivate rt sv stake clock authority pool bump w = .ok w') :
    Frames [rt.stakeProgramId] w w' := by
  simp only [stakeDeactivate, bind_eq_ok, exists_unit] at h
  exact Frames.of_invoke₁ h.2.2

theorem stakeSplit_frames {pool stake : Pubkey} {authority : AccountMeta} {bump : UInt8}
    {amount : Nat} {splitStake : Pubkey}
    (h : stakeSplit rt sv pool stake authority bump amount splitStake w = .ok w') :
    Frames [rt.stakeProgramId] w w' := by
  simp only [stakeSplit, bind_eq_ok, exists_unit] at h
  exact Frames.of_invoke₂ h.2

theorem stakeMerge_frames {pool source : Pubkey} {authority : AccountMeta} {bump : UInt8}
    {destination clock history : Pubkey}
    (h : stakeMerge rt sv pool source authority bump destination clock history w = .ok w') :
    Frames [rt.stakeProgramId] w w' := by
  simp only [stakeMerge, bind_eq_ok, exists_unit] at h
  exact Frames.of_invoke₂ h.2.2

theorem stakeWithdraw_frames {pool source : Pubkey} {authority : AccountMeta} {bump : UInt8}
    {destination clock history : Pubkey} {lamports : Nat}
    (h : stakeWithdraw rt sv pool source authority bump destination clock history lamports w =
      .ok w') : Frames [rt.stakeProgramId] w w' := by
  simp only [stakeWithdraw, bind_eq_ok, exists_unit] at h
  exact Frames.of_invokeMove h.2.2

theorem authorizeBoth_frames {stake authority newAuthority clock : Pubkey}
    (h : authorizeBoth rt sv stake authority newAuthority clock w = .ok w') :
    Frames [rt.stakeProgramId] w w' := by
  simp only [authorizeBoth, bind_eq_ok, exists_unit] at h
  obtain ⟨-, w₁, h1, h2⟩ := h
  exact (Frames.of_invoke₁ h1).trans (Frames.of_invoke₁ h2)

theorem stakeAuthorize_frames {stake : Pubkey} {authority : AccountMeta}
    {newAuthority clock : Pubkey}
    (h : stakeAuthorize rt sv stake authority newAuthority clock w = .ok w') :
    Frames [rt.stakeProgramId] w w' := by
  simp only [stakeAuthorize, bind_eq_ok, exists_unit] at h
  exact authorizeBoth_frames h.2

theorem stakeAuthorizeSigned_frames {pool stake : Pubkey} {authority : AccountMeta}
    {authorityType : List UInt8} {bump : UInt8} {newAuthority clock : Pubkey}
    (h : stakeAuthorizeSigned rt sv pool stake authority authorityType bump newAuthority clock w =
      .ok w') : Frames [rt.stakeProgramId] w w' := by
  simp only [stakeAuthorizeSigned, bind_eq_ok, exists_unit] at h
  obtain ⟨_, -, -, h⟩ := h
  exact authorizeBoth_frames h

theorem tokenBurn_frames {tokenProgram account mint : Pubkey} {authority : AccountMeta}
    {amount : Nat} (h : tokenBurn rt tokenProgram account mint authority amount w = .ok w') :
    Frames [tokenProgram] w w' := by
  simp only [tokenBurn, bind_eq_ok, exists_unit] at h
  exact Frames.of_invoke₂ h.2.2

theorem tokenMintTo_frames {pool tokenProgram mint destination : Pubkey} {authority : AccountMeta}
    {bump : UInt8} {amount : Nat}
    (h : tokenMintTo rt pool tokenProgram mint destination authority bump amount w = .ok w') :
    Frames [tokenProgram] w w' := by
  simp only [tokenMintTo, bind_eq_ok, exists_unit] at h
  exact Frames.of_invoke₂ h.2.2

theorem tokenTransfer_frames {tokenProgram source mint destination : Pubkey}
    {authority : AccountMeta} {amount : Nat} {decimals : UInt8}
    (h : tokenTransfer rt tokenProgram source mint destination authority amount decimals w =
      .ok w') : Frames [tokenProgram] w w' := by
  simp only [tokenTransfer, bind_eq_ok, exists_unit] at h
  exact Frames.of_invokeMove h.2.2

theorem solTransfer_frames {source : AccountMeta} {destination : Pubkey} {amount : Nat}
    (h : solTransfer rt source destination amount w = .ok w') : Frames [rt.systemProgramId] w w' := by
  simp only [solTransfer, bind_eq_ok, exists_unit] at h
  exact Frames.of_invokeMove h.2

theorem createStakeAccount_frames {info : AccountMeta} {seeds : List (List UInt8)} {space : Nat}
    (h : createStakeAccount rt info seeds space w = .ok w') : Frames [rt.systemProgramId] w w' := by
  simp only [createStakeAccount, bind_eq_ok, exists_unit] at h
  obtain ⟨_, -, -, w₁, h1, h2⟩ := h
  exact (Frames.of_invoke₁ h1).trans (Frames.of_invoke₁ h2)

theorem mintShares_frames {pool tokenProgram mint user manager referrer : Pubkey}
    {authority : AccountMeta} {bump : UInt8} {shares : DepositShares}
    (h : mintShares rt pool tokenProgram mint user manager referrer authority bump shares w =
      .ok w') : Frames [tokenProgram] w w' := by
  simp only [mintShares, bind_eq_ok] at h
  obtain ⟨w₁, h1, w₂, h2, h3⟩ := h
  exact ((tokenMintTo_frames h1).trans (Frames.of_onlyIf (fun _ => tokenMintTo_frames) h2)).trans
    (Frames.of_onlyIf (fun _ => tokenMintTo_frames) h3)

/-! ## The program's own accounts -/

/-- The programs a handler calls. -/
def outsiders (rt : Runtime) : List Pubkey :=
  [rt.stakeProgramId, rt.systemProgramId, rt.splTokenId, rt.splToken2022Id,
    rt.associatedTokenProgramId, rt.mplTokenMetadataId]

/-- The programs that move lamports between the pool's stake accounts. -/
def movers (rt : Runtime) : List Pubkey := [rt.stakeProgramId, rt.systemProgramId]

theorem movers_subset_outsiders : movers rt ⊆ outsiders rt := by
  simp [movers, outsiders]

theorem stake_subset_movers : [rt.stakeProgramId] ⊆ movers rt := by
  simp [movers]

theorem system_subset_movers : [rt.systemProgramId] ⊆ movers rt := by
  simp [movers]

theorem ProgramLaws.not_outsider (laws : ProgramLaws rt) : rt.programId ∉ outsiders rt := by
  simp only [outsiders, List.mem_cons, List.not_mem_nil, or_false, not_or]
  exact ⟨laws.stake_ne.symm, laws.system_ne.symm, laws.splToken_ne.symm, laws.splToken2022_ne.symm,
    laws.associated_ne.symm, laws.metadata_ne.symm⟩

theorem stake_subset_outsiders : [rt.stakeProgramId] ⊆ outsiders rt := by
  simp [outsiders]

theorem system_subset_outsiders : [rt.systemProgramId] ⊆ outsiders rt := by
  simp [outsiders]

theorem token_subset_outsiders {k : Pubkey} (h : rt.isTokenProgram k) : [k] ⊆ outsiders rt := by
  rcases h with rfl | rfl <;> simp [outsiders]

/-- Calls leave the program's own accounts as they are. -/
theorem PoolAt.of_frames (laws : ProgramLaws rt) {k : Pubkey} {p : StakePool}
    (hp : PoolAt rt w k p) (hf : Frames (outsiders rt) w w') : PoolAt rt w' k p := by
  have hk := hf.others k (by rw [hp.owner]; exact laws.not_outsider)
  exact ⟨hk.owner.trans hp.owner, hk.data.trans hp.data, hp.valid⟩

theorem ListAt.of_frames (laws : ProgramLaws rt) {k : Pubkey} {l : ValidatorList}
    (hl : ListAt rt w k l) (hf : Frames (outsiders rt) w w') : ListAt rt w' k l := by
  have hk := hf.others k (by rw [hl.owner]; exact laws.not_outsider)
  exact ⟨hk.owner.trans hl.owner, hk.data.trans hl.data, hl.valid⟩

theorem ListAt.dataLen_of_frames (laws : ProgramLaws rt) {k : Pubkey} {l : ValidatorList}
    (hl : ListAt rt w k l) (hf : Frames (outsiders rt) w w') : (w' k).dataLen = (w k).dataLen :=
  (hf.others k (by rw [hl.owner]; exact laws.not_outsider)).dataLen

/-- Records are written in place. -/
theorem writeValidatorList_dataLen (w : Ledger) (k : Pubkey) (l : ValidatorList) (j : Pubkey) :
    (writeValidatorList w k l j).dataLen = (w j).dataLen := by
  by_cases hj : j = k
  · rw [hj, writeValidatorList, Ledger.set_same]
  · rw [writeValidatorList, Ledger.set_other _ _ hj]

theorem writeStakePool_dataLen {k : Pubkey} {p : StakePool} (h : writeStakePool w k p = .ok w')
    (j : Pubkey) : (w' j).dataLen = (w j).dataLen := by
  obtain ⟨-, rfl⟩ := writeStakePool_eq_ok.mp h
  by_cases hj : j = k
  · rw [hj, Ledger.set_same]
  · rw [Ledger.set_other _ _ hj]

end StakePoolFogo
