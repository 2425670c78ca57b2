import StakePoolFogo.Frames
import StakePoolFogo.Processor

/-!
# The program's own accounts

`OwnEffect` follows the record of one pool through a handler: calls leave it alone, a write replaces
it, and no account of the program besides the pool and its list changes.
-/

open StakePoolFogo.Outcome

namespace StakePoolFogo

variable {rt : Runtime} {sv : Sysvars} {w w' w'' : Ledger}

/-- The record of the pool at `k` goes from `p` to `p'`; of the program's other accounts at most the
pool's list changes, and new ones are zeroed. -/
structure OwnEffect (rt : Runtime) (w w' : Ledger) (k : Pubkey) (p p' : StakePool) : Prop where
  before : PoolAt rt w k p
  after : PoolAt rt w' k p'
  room : p.packedLen ≤ (w k).dataLen → p'.packedLen ≤ (w' k).dataLen
  frame : ∀ j, (w j).owner = rt.programId → j ≠ k → j ≠ p.validatorList →
    (w j).OnlyCredited (w' j)
  fresh : ∀ j, (w j).owner ≠ rt.programId → j ≠ p.validatorList →
    (w' j).owner = rt.programId → (w' j).data = .zeroed

namespace OwnEffect

variable {k : Pubkey} {p p' p'' : StakePool}

theorem of_frames (laws : ProgramLaws rt) (hp : PoolAt rt w k p)
    (hf : Frames (outsiders rt) w w') : OwnEffect rt w w' k p p := by
  have hkept : ∀ j, (w j).owner = rt.programId → (w j).OnlyCredited (w' j) := fun j ho =>
    hf.others j (by rw [ho]; exact laws.not_outsider)
  refine ⟨hp, hp.of_frames laws hf, fun hroom => ?_, fun j ho _ _ => hkept j ho, fun j ho _ ho' => ?_⟩
  · rw [(hkept k hp.owner).dataLen]
    exact hroom
  · by_cases hin : (w j).owner ∈ outsiders rt
    · exact hf.given j hin (by rw [ho']; exact laws.not_outsider)
    · exact absurd ((hf.others j hin).owner ▸ ho') ho

theorem of_writeStakePool (hp : PoolAt rt w k p) (h : writeStakePool w k p' = .ok w')
    (hv : p'.isValid) : OwnEffect rt w w' k p p' := by
  obtain ⟨hfits, rfl⟩ := writeStakePool_eq_ok.mp h
  refine ⟨hp, ⟨?_, ?_, hv⟩, fun _ => ?_, fun j _ hj _ => ?_, fun j ho _ ho' => ?_⟩
  · rw [Ledger.set_same]
    exact hp.owner
  · rw [Ledger.set_same]
  · -- The write itself checks that the new record fits, whatever was there.
    rw [Ledger.set_same]
    exact hfits
  · rw [Ledger.set_other _ _ hj]
    exact Account.OnlyCredited.refl _
  · have hj : j ≠ k := by
      rintro rfl
      exact ho hp.owner
    rw [Ledger.set_other _ _ hj] at ho'
    exact absurd ho' ho

theorem of_writeValidatorList {l : ValidatorList} (hp : PoolAt rt w k p)
    (hl : ListAt rt w p.validatorList l) (l' : ValidatorList) :
    OwnEffect rt w (writeValidatorList w p.validatorList l') k p p := by
  have hne := hp.ne_list hl
  refine ⟨hp, ⟨?_, ?_, hp.valid⟩, fun hroom => ?_, fun j _ _ hj => ?_, fun j ho hj ho' => ?_⟩
  · rw [writeValidatorList, Ledger.set_other _ _ hne]
    exact hp.owner
  · rw [writeValidatorList, Ledger.set_other _ _ hne]
    exact hp.data
  · rw [writeValidatorList, Ledger.set_other _ _ hne]
    exact hroom
  · rw [writeValidatorList, Ledger.set_other _ _ hj]
    exact Account.OnlyCredited.refl _
  · rw [writeValidatorList, Ledger.set_other _ _ hj] at ho'
    exact absurd ho' ho

theorem trans (h : OwnEffect rt w w' k p p') (h' : OwnEffect rt w' w'' k p' p'')
    (hlist : p'.validatorList = p.validatorList) : OwnEffect rt w w'' k p p'' := by
  refine ⟨h.before, h'.after, fun hroom => h'.room (h.room hroom), fun j ho hj hl => ?_,
    fun j ho hl ho'' => ?_⟩
  · have hw := h.frame j ho hj hl
    exact hw.trans (h'.frame j (hw.owner.trans ho) hj (by rw [hlist]; exact hl))
  · have hl' : j ≠ p'.validatorList := by rw [hlist]; exact hl
    by_cases ho' : (w' j).owner = rt.programId
    · have hj : j ≠ k := fun hj => ho (hj ▸ h.before.owner)
      rw [(h'.frame j ho' hj hl').data]
      exact h.fresh j ho hl ho'
    · exact h'.fresh j ho' hl' ho''

end OwnEffect

/-! ## The list account -/

theorem ListAt.of_writeStakePool {k j : Pubkey} {p : StakePool} {l : ValidatorList}
    (hl : ListAt rt w j l) (hne : j ≠ k) (h : writeStakePool w k p = .ok w') : ListAt rt w' j l := by
  obtain ⟨-, rfl⟩ := writeStakePool_eq_ok.mp h
  refine ⟨?_, ?_, hl.valid⟩
  · rw [Ledger.set_other _ _ hne]
    exact hl.owner
  · rw [Ledger.set_other _ _ hne]
    exact hl.data

theorem ListAt.written {k : Pubkey} {l l' : ValidatorList} (hl : ListAt rt w k l)
    (hv : l'.header.isValid) : ListAt rt (writeValidatorList w k l') k l' := by
  refine ⟨?_, ?_, hv⟩
  · rw [writeValidatorList, Ledger.set_same]
    exact hl.owner
  · rw [writeValidatorList, Ledger.set_same]

/-- Rewriting one entry relates the lists entry by entry. -/
theorem ValidatorList.modify_forall₂ {r : ValidatorStakeInfo → ValidatorStakeInfo → Prop}
    (hrefl : ∀ v, r v v) {l : ValidatorList} {vote : Pubkey} {v v' : ValidatorStakeInfo}
    (hfind : l.find vote = some v) (hv : r v v') :
    List.Forall₂ r l.validators (l.modify vote fun _ => v').validators := by
  obtain ⟨header, vs⟩ := l
  have key : ∀ us : List ValidatorStakeInfo, us.find? (·.memcmpPubkey vote) = some v →
      List.Forall₂ r us (modify.go vote (fun _ => v') us) := by
    intro us
    induction us with
    | nil => simp
    | cons u us ih =>
      intro hfind
      by_cases hu : u.memcmpPubkey vote
      · simp only [List.find?_cons, hu, Option.some.injEq] at hfind
        rw [modify.go, if_pos hu, hfind]
        exact .cons hv (List.forall₂_same.mpr fun x _ => hrefl x)
      · simp only [List.find?_cons, hu] at hfind
        rw [modify.go, if_neg hu]
        exact .cons (hrefl u) (ih hfind)
  exact key vs hfind

/-! ## What the calls of each handler leave alone -/

theorem AddValidatorRun.frames {accounts : List AccountMeta} {seed : UInt32}
    (r : AddValidatorRun rt sv accounts seed w w') : Frames (movers rt) w r.delegated :=
  (((createStakeAccount_frames r.create).mono system_subset_movers).trans
    ((stakeSplit_frames r.split).mono stake_subset_movers)).trans
    ((stakeDelegate_frames r.delegate).mono stake_subset_movers)

theorem deactivateTransient_frames {pool transient clock : Pubkey} {authority : AccountMeta}
    {p : StakePool} (h : deactivateTransient rt sv pool transient clock authority p w = .ok w') :
    Frames [rt.stakeProgramId] w w' := by
  unfold deactivateTransient at h
  split at h
  · exact Frames.of_onlyIf (fun _ => stakeDeactivate_frames) h
  · cases h
    exact Frames.refl _ _

theorem removalStatus_spec {pool transient clock vote : Pubkey} {authority : AccountMeta}
    {p : StakePool} {v : ValidatorStakeInfo} {status : StakeStatus}
    (h : removalStatus rt sv pool transient clock vote authority p v w = .ok (status, w')) :
    Frames [rt.stakeProgramId] w w' ∧
      (0 < v.transientStakeLamports ∧ status = .deactivatingAll ∨
        v.transientStakeLamports = 0 ∧ status = .deactivatingValidator) := by
  unfold removalStatus at h
  split at h
  · rename_i hpos
    simp only [bind_eq_ok, pure_eq_ok, Prod.mk.injEq] at h
    obtain ⟨_, -, w₁, hd, rfl, rfl⟩ := h
    exact ⟨deactivateTransient_frames hd, Or.inl ⟨hpos, rfl⟩⟩
  · rename_i hzero
    cases h
    exact ⟨Frames.refl _ _, Or.inr ⟨by omega, rfl⟩⟩

theorem RemoveValidatorRun.frames {accounts : List AccountMeta}
    (r : RemoveValidatorRun rt sv accounts w w') : Frames (movers rt) w r.deactivated :=
  ((removalStatus_spec r.removal).1.trans
    (Frames.of_onlyIf (fun _ => stakeDeactivate_frames) r.deactivate)).mono stake_subset_movers

theorem fundEphemeral_frames {c : RebalanceContext} {reserve : Option AccountMeta}
    {ephemeral : Pubkey} (h : fundEphemeral rt sv c reserve ephemeral w = .ok w') :
    Frames [rt.stakeProgramId] w w' := by
  unfold fundEphemeral at h
  split at h
  · cases h
    exact Frames.refl _ _
  · refine Frames.of_onlyIf (fun u hu => ?_) h
    simp only [bind_eq_ok] at hu
    obtain ⟨_, -, _, -, hu⟩ := hu
    exact stakeWithdraw_frames hu

theorem fundTransient_frames {c : RebalanceContext} {reserve : Option AccountMeta}
    {source transient : Pubkey} {splitLamports : Nat}
    (h : fundTransient rt sv c reserve source splitLamports transient w = .ok w') :
    Frames [rt.stakeProgramId] w w' := by
  unfold fundTransient at h
  split at h
  · cases h
    exact Frames.refl _ _
  · refine Frames.of_onlyIf (fun u hu => ?_) h
    simp only [bind_eq_ok] at hu
    obtain ⟨_, -, _, -, hu⟩ := hu
    exact Frames.of_onlyIf (fun _ => stakeWithdraw_frames) hu

theorem decreaseSource_frames {c : RebalanceContext} {reserve : Option AccountMeta}
    {validatorStake source : Pubkey} {lamports splitLamports : Nat}
    {ephemeral : Option (UInt64 × AccountMeta)}
    (h : decreaseSource rt sv c reserve validatorStake lamports ephemeral w =
      .ok (source, splitLamports, w')) : Frames (movers rt) w w' := by
  unfold decreaseSource at h
  split at h
  · simp only [bind_eq_ok, pure_eq_ok, Prod.mk.injEq, splitToEphemeral] at h
    obtain ⟨u, ⟨_, -, w₁, hcreate, w₂, hfund, w₃, hsplit, hdeactivate⟩, -, -, rfl⟩ := h
    exact ((((createStakeAccount_frames hcreate).mono system_subset_movers).trans
      ((fundEphemeral_frames hfund).mono stake_subset_movers)).trans
      ((stakeSplit_frames hsplit).mono stake_subset_movers)).trans
      ((stakeDeactivate_frames hdeactivate).mono stake_subset_movers)
  · cases h
    exact Frames.refl _ _

theorem mergeIntoTransient_frames {c : RebalanceContext} {source transient : Pubkey}
    (h : mergeIntoTransient rt sv c source transient w = .ok w') : Frames (movers rt) w w' := by
  simp only [mergeIntoTransient, bind_eq_ok] at h
  obtain ⟨_, -, h⟩ := h
  exact (stakeMerge_frames h).mono stake_subset_movers

theorem decreaseIntoNewTransient_frames {c : RebalanceContext} {reserve : Option AccountMeta}
    {source : Pubkey} {splitLamports : Nat} {transient : AccountMeta} {seed : UInt64} {bump : UInt8}
    (h : decreaseIntoNewTransient rt sv c reserve source splitLamports transient seed bump w =
      .ok w') : Frames (movers rt) w w' := by
  simp only [decreaseIntoNewTransient, bind_eq_ok, Prod.exists] at h
  obtain ⟨w₁, hcreate, w₂, hfund, w₃, hsplit, _, _, -, hdeactivate⟩ := h
  exact (((createStakeAccount_frames hcreate).mono system_subset_movers).trans
    ((fundTransient_frames hfund).mono stake_subset_movers)).trans
    (((stakeSplit_frames hsplit).trans
      (Frames.of_onlyIf (fun _ => stakeDeactivate_frames) hdeactivate)).mono stake_subset_movers)

theorem DecreaseRun.frames {accounts : List AccountMeta} {lamports : Nat} {seed : UInt64}
    {ephemeralSeed : Option UInt64} {fund : Bool}
    (r : DecreaseRun rt sv accounts lamports seed ephemeralSeed fund w w') :
    Frames (movers rt) w r.moved := by
  refine (decreaseSource_frames r.prepare).trans ?_
  rcases ite_eq_ok.mp r.move with ⟨-, h⟩ | ⟨-, h⟩
  · exact mergeIntoTransient_frames h
  · exact decreaseIntoNewTransient_frames h

theorem increaseSource_frames {c : RebalanceContext} {history config reserve source : Pubkey}
    {totalLamports : Nat} {ephemeral : Option (UInt64 × AccountMeta)}
    (h : increaseSource rt sv c history config reserve totalLamports ephemeral w =
      .ok (source, w')) : Frames (movers rt) w w' := by
  unfold increaseSource at h
  split at h
  · simp only [bind_eq_ok, pure_eq_ok, Prod.mk.injEq] at h
    obtain ⟨_, -, w₁, hcreate, w₂, hsplit, w₃, hdelegate, -, rfl⟩ := h
    exact ((createStakeAccount_frames hcreate).mono system_subset_movers).trans
      (((stakeSplit_frames hsplit).trans (stakeDelegate_frames hdelegate)).mono
        stake_subset_movers)
  · cases h
    exact Frames.refl _ _

theorem increaseIntoNewTransient_frames {c : RebalanceContext} {history config source : Pubkey}
    {totalLamports : Nat} {transient : AccountMeta} {seed : UInt64} {bump : UInt8}
    (h : increaseIntoNewTransient rt sv c history config source totalLamports transient seed bump w =
      .ok w') : Frames (movers rt) w w' := by
  simp only [increaseIntoNewTransient, bind_eq_ok] at h
  obtain ⟨w₁, hcreate, w₂, hsplit, _, -, hdelegate⟩ := h
  exact ((createStakeAccount_frames hcreate).mono system_subset_movers).trans
    (((stakeSplit_frames hsplit).trans
      (Frames.of_onlyIf (fun _ => stakeDelegate_frames) hdelegate)).mono stake_subset_movers)

theorem IncreaseRun.frames {accounts : List AccountMeta} {lamports : Nat} {seed : UInt64}
    {ephemeralSeed : Option UInt64}
    (r : IncreaseRun rt sv accounts lamports seed ephemeralSeed w w') :
    Frames (movers rt) w r.moved := by
  refine (increaseSource_frames r.prepare).trans ?_
  rcases ite_eq_ok.mp r.move with ⟨-, h⟩ | ⟨-, h⟩
  · exact mergeIntoTransient_frames h
  · exact increaseIntoNewTransient_frames h

theorem takeOverStake_frames {pool stake clock : Pubkey} {depositAuthority : AccountMeta}
    {withdrawAuthority : Pubkey}
    (h : takeOverStake rt sv pool stake clock depositAuthority withdrawAuthority w = .ok w') :
    Frames [rt.stakeProgramId] w w' := by
  unfold takeOverStake at h
  rcases ite_eq_ok.mp h with ⟨-, h⟩ | ⟨-, h⟩
  · exact stakeAuthorizeSigned_frames h
  · exact stakeAuthorize_frames h

theorem mintShares_token {pool tokenProgram mint user manager referrer : Pubkey}
    {authority : AccountMeta} {bump : UInt8} {shares : DepositShares}
    (h : mintShares rt pool tokenProgram mint user manager referrer authority bump shares w =
      .ok w') : rt.isTokenProgram tokenProgram := by
  simp only [mintShares, tokenMintTo, bind_eq_ok, exists_unit, checkTokenProgram_eq_ok] at h
  obtain ⟨_, h, -⟩ := h
  exact h.1

theorem DepositStakeRun.frames {accounts : List AccountMeta} {minimum : Option Nat}
    (r : DepositStakeRun rt sv accounts minimum w w') : Frames (outsiders rt) w r.swept :=
  (((takeOverStake_frames r.take).trans (stakeMerge_frames r.merge)).mono
    stake_subset_outsiders).trans
    (((mintShares_frames r.mintTokens).mono (token_subset_outsiders (mintShares_token r.mintTokens))).trans
      ((Frames.of_onlyIf (fun _ => stakeWithdraw_frames) r.sweep).mono stake_subset_outsiders))

theorem DepositSolRun.frames {accounts : List AccountMeta} {lamports : Nat} {minimum : Option Nat}
    {isWsolPath : Bool} (r : DepositSolRun rt sv accounts lamports minimum isWsolPath w w') :
    Frames (outsiders rt) w r.minted :=
  ((Frames.of_onlyIf (fun _ => solTransfer_frames) r.pay).mono system_subset_outsiders).trans
    ((mintShares_frames r.mintTokens).mono (token_subset_outsiders (mintShares_token r.mintTokens)))

theorem tokenBurn_token {tokenProgram account mint : Pubkey} {authority : AccountMeta}
    {amount : Nat} (h : tokenBurn rt tokenProgram account mint authority amount w = .ok w') :
    rt.isTokenProgram tokenProgram := by
  simp only [tokenBurn, bind_eq_ok, exists_unit, checkTokenProgram_eq_ok] at h
  exact h.1

theorem WithdrawStakeRun.frames {accounts : List AccountMeta} {poolTokens : Nat}
    {minimum : Option Nat} (r : WithdrawStakeRun rt sv accounts poolTokens minimum w w') :
    Frames (outsiders rt) w r.charged := by
  have htoken := token_subset_outsiders (tokenBurn_token r.burn)
  exact (((tokenBurn_frames r.burn).mono htoken).trans
    (((stakeSplit_frames r.splitOff).trans (stakeAuthorizeSigned_frames r.handOver)).mono
      stake_subset_outsiders)).trans
    ((Frames.of_onlyIf (fun _ => tokenTransfer_frames) r.charge).mono htoken)

theorem burnForSol_frames {isWsolPath : Bool} {signer : Option AccountMeta}
    {tokenProgram burnFrom mint managerFee : Pubkey} {authority : AccountMeta}
    {quote : WithdrawalQuote} {decimals : UInt8}
    (h : burnForSol rt isWsolPath signer tokenProgram burnFrom mint managerFee authority quote
      decimals w = .ok w') : Frames [tokenProgram] w w' := by
  unfold burnForSol at h
  split at h
  · simp only [burnWithSession, bind_eq_ok, exists_unit] at h
    obtain ⟨-, -, w₁, hburn, hfee⟩ := h
    exact (Frames.of_invoke₂ hburn).trans
      (Frames.of_onlyIf (fun _ => Frames.of_invokeMove) hfee)
  · simp only [burnWithSignature, bind_eq_ok] at h
    obtain ⟨w₁, hburn, hfee⟩ := h
    exact (tokenBurn_frames hburn).trans (Frames.of_onlyIf (fun _ => tokenTransfer_frames) hfee)

theorem WithdrawSolRun.frames {accounts : List AccountMeta} {poolTokens : Nat}
    {minimum : Option Nat} {isWsolPath : Bool}
    (r : WithdrawSolRun rt sv accounts poolTokens minimum isWsolPath w w')
    (htoken : rt.isTokenProgram r.tokenProgram.key) : Frames (outsiders rt) w r.paid :=
  ((burnForSol_frames r.burn).mono (token_subset_outsiders htoken)).trans
    ((stakeWithdraw_frames r.pay).mono stake_subset_outsiders)

/-- Without a session the burn itself checks the token program. -/
theorem WithdrawSolRun.isToken {accounts : List AccountMeta} {poolTokens : Nat}
    {minimum : Option Nat} (r : WithdrawSolRun rt sv accounts poolTokens minimum false w w') :
    rt.isTokenProgram r.tokenProgram.key := by
  have h := r.burn
  simp only [burnForSol, burnWithSignature, bind_eq_ok] at h
  obtain ⟨_, hburn, -⟩ := h
  exact tokenBurn_token hburn

/-- The programs behind a wrapped-SOL deposit. -/
def wrappers (rt : Runtime) : List Pubkey := [rt.systemProgramId, rt.splTokenId]

theorem wrappers_subset_outsiders : wrappers rt ⊆ outsiders rt := by
  simp [wrappers, outsiders]

theorem createTransientWsol_frames {user wsolMint tokenProgram signer : Pubkey}
    {feePayer transientWsol : AccountMeta}
    (h : createTransientWsol rt sv user wsolMint tokenProgram signer feePayer transientWsol w =
      .ok w') : Frames (wrappers rt) w w' := by
  simp only [createTransientWsol, bind_eq_ok, exists_unit, checkSplToken_eq_ok] at h
  obtain ⟨-, _, -, -, w₁, hcreate, rfl, hinit⟩ := h
  exact ((Frames.of_invokeCreate hcreate).mono (by simp [wrappers])).trans
    ((Frames.of_invoke₁ hinit).mono (by simp [wrappers]))

theorem programSignerTransfer_frames {signer : AccountMeta} {bump : UInt8} {destination : Pubkey}
    {lamports : Nat} (h : programSignerTransfer rt signer bump destination lamports w = .ok w') :
    Frames [rt.systemProgramId] w w' := by
  simp only [programSignerTransfer, bind_eq_ok, exists_unit] at h
  obtain ⟨_, -, -, h⟩ := h
  exact Frames.of_invokeMove h

theorem unwrapIntoReserve_frames {tokenProgram userWsol wsolMint reserve : Pubkey}
    {session feePayer transientWsol signer : AccountMeta} {bump : UInt8} {lamports : Nat}
    (h : unwrapIntoReserve rt sv tokenProgram userWsol wsolMint session feePayer transientWsol signer
      bump reserve lamports w = .ok w') : Frames (wrappers rt) w w' := by
  simp only [unwrapIntoReserve, bind_eq_ok, exists_unit, checkSplToken_eq_ok] at h
  obtain ⟨-, w₁, htransfer, _, -, -, rfl, w₂, hclose, w₃, hrefund, hforward⟩ := h
  exact (((Frames.of_invokeMove htransfer).trans (Frames.of_invoke₂ hclose)).mono
    (by simp [wrappers])).trans
    (((programSignerTransfer_frames hrefund).trans (programSignerTransfer_frames hforward)).mono
      (by simp [wrappers]))

theorem DepositWsolRun.frames {accounts : List AccountMeta} {lamports : Nat}
    (r : DepositWsolRun rt sv accounts lamports w w') : Frames (outsiders rt) w r.unwrapped :=
  ((createTransientWsol_frames r.create).trans (unwrapIntoReserve_frames r.unwrap)).mono
    wrappers_subset_outsiders

theorem WithdrawWsolRun.create_frames {accounts : List AccountMeta} {poolTokens : Nat}
    (r : WithdrawWsolRun rt sv accounts poolTokens w w') : Frames (outsiders rt) w r.created :=
  (Frames.of_invokeMove r.create).mono (by rw [r.token_key]; simp [outsiders])

theorem WithdrawWsolRun.sync_frames {accounts : List AccountMeta} {poolTokens : Nat}
    (r : WithdrawWsolRun rt sv accounts poolTokens w w') : Frames (outsiders rt) r.withdrawn w' :=
  (Frames.of_invoke₁ r.sync).mono (token_subset_outsiders (Or.inl r.token_key))

/-! ## Refreshing entries -/

theorem UpdateContext.merge_frames {c : UpdateContext} {source destination : Pubkey}
    (h : c.merge rt sv source destination w = .ok w') : Frames [rt.stakeProgramId] w w' :=
  stakeMerge_frames h

/-- How the status byte of a visited entry can change. -/
def StatusMoves (s s' : PodStakeStatus) : Prop :=
  s' = s ∨ s' = StakeStatus.deactivatingTransient.toPod ∨ s' = StakeStatus.readyForRemoval.toPod ∨
    (s = StakeStatus.deactivatingAll.toPod ∧ s' = StakeStatus.deactivatingValidator.toPod)

theorem StatusMoves.refl (s : PodStakeStatus) : StatusMoves s s := Or.inl rfl

theorem StatusMoves.trans {s t u : PodStakeStatus} (h : StatusMoves s t) (h' : StatusMoves t u) :
    StatusMoves s u := by
  rcases h' with rfl | rfl | rfl | ⟨rfl, rfl⟩
  · exact h
  · exact Or.inr (Or.inl rfl)
  · exact Or.inr (Or.inr (Or.inl rfl))
  · rcases h with rfl | h | h | ⟨-, h⟩
    · exact Or.inr (Or.inr (Or.inr ⟨rfl, rfl⟩))
    · exact absurd (StakeStatus.toPod_inj.mp h) (by decide)
    · exact absurd (StakeStatus.toPod_inj.mp h) (by decide)
    · exact absurd (StakeStatus.toPod_inj.mp h) (by decide)

theorem StatusMoves.of_removeTransientStake {s s' : PodStakeStatus}
    (h : s.removeTransientStake = .ok s') : StatusMoves s s' := by
  obtain ⟨t, rfl, rfl⟩ := PodStakeStatus.removeTransientStake_eq_ok.mp h
  cases t <;> simp [StatusMoves, StakeStatus.toPod_inj]

theorem StatusMoves.of_removeValidatorStake {s s' : PodStakeStatus}
    (h : s.removeValidatorStake = .ok s') : StatusMoves s s' := by
  obtain ⟨t, rfl, rfl⟩ := PodStakeStatus.removeValidatorStake_eq_ok.mp h
  cases t <;> simp [StatusMoves, StakeStatus.toPod_inj]

theorem settleTransient_moves {c : UpdateContext} {status status' : PodStakeStatus}
    {validatorState : Option StakeStateV2} {stake : Stake} {validatorKey transientKey : Pubkey}
    (h : settleTransient rt sv c status validatorState stake validatorKey transientKey w =
      .ok (status', w')) : StatusMoves status status' ∧ Frames [rt.stakeProgramId] w w' := by
  unfold settleTransient at h
  split at h
  · simp only [bind_eq_ok, pure_eq_ok, Prod.mk.injEq] at h
    obtain ⟨w₁, hmerge, s, hs, rfl, rfl⟩ := h
    exact ⟨.of_removeTransientStake hs, UpdateContext.merge_frames hmerge⟩
  split at h
  · simp only [bind_eq_ok, pure_eq_ok, Prod.mk.injEq] at h
    obtain ⟨w₁, hmerge, rfl, rfl⟩ := h
    refine ⟨.refl _, ?_⟩
    unfold mergeActiveTransient at hmerge
    split at hmerge
    · exact Frames.of_onlyIf (fun _ => UpdateContext.merge_frames) hmerge
    · cases hmerge
      exact Frames.refl _ _
  · simp only [bind_eq_ok, pure_eq_ok, Prod.mk.injEq] at h
    obtain ⟨w₁, hdeactivate, rfl, rfl⟩ := h
    exact ⟨.refl _, Frames.of_onlyIf (fun _ => stakeDeactivate_frames) hdeactivate⟩

theorem refreshTransient_moves {c : UpdateContext} {v : ValidatorStakeInfo}
    {validatorKey transientKey : Pubkey} {status : PodStakeStatus} {lamports : Nat}
    (h : refreshTransient rt sv c v validatorKey transientKey w = .ok (status, lamports, w')) :
    StatusMoves v.status status ∧ Frames [rt.stakeProgramId] w w' := by
  have same : ∀ {n : Nat}, (.ok (v.status, n, w) : Except ProgramError _) =
      .ok (status, lamports, w') → StatusMoves v.status status ∧ Frames [rt.stakeProgramId] w w' := by
    intro n heq
    cases heq
    exact ⟨.refl _, Frames.refl _ _⟩
  unfold refreshTransient at h
  split at h
  · exact same h
  split at h
  · split at h
    · split at h
      · exact same h
      · simp only [bind_eq_ok, pure_eq_ok, Prod.mk.injEq] at h
        obtain ⟨w₁, hmerge, s, hs, rfl, -, rfl⟩ := h
        exact ⟨.of_removeTransientStake hs, UpdateContext.merge_frames hmerge⟩
    · exact same h
  · split at h
    · split at h
      · exact same h
      · simp only [bind_eq_ok, pure_eq_ok, Prod.mk.injEq, Prod.exists] at h
        obtain ⟨s, w₁, hsettle, rfl, -, rfl⟩ := h
        exact settleTransient_moves hsettle
    · exact same h
  · exact same h

theorem settleValidator_moves {c : UpdateContext} {status status' : PodStakeStatus} {stake : Stake}
    {validatorKey : Pubkey} {lamports : Nat}
    (h : settleValidator rt sv c status stake validatorKey w = .ok (status', lamports, w')) :
    StatusMoves status status' ∧ Frames [rt.stakeProgramId] w w' := by
  simp only [settleValidator, bind_eq_ok] at h
  obtain ⟨s, -, h⟩ := h
  cases s with
  | active | deactivatingTransient | readyForRemoval =>
    simp only [pure_eq_ok, Prod.mk.injEq] at h
    obtain ⟨rfl, -, rfl⟩ := h
    exact ⟨.refl _, Frames.refl _ _⟩
  | deactivatingValidator | deactivatingAll =>
    dsimp only at h
    split at h
    · simp only [pure_eq_ok, Prod.mk.injEq] at h
      obtain ⟨rfl, -, rfl⟩ := h
      exact ⟨.refl _, Frames.refl _ _⟩
    · simp only [bind_eq_ok, pure_eq_ok, Prod.mk.injEq] at h
      obtain ⟨w₁, hmerge, t, ht, rfl, -, rfl⟩ := h
      exact ⟨.of_removeValidatorStake ht, UpdateContext.merge_frames hmerge⟩

theorem refreshValidator_moves {c : UpdateContext} {status status' : PodStakeStatus}
    {transientLamports lamports : Nat} {validatorKey : Pubkey}
    (h : refreshValidator rt sv c status transientLamports validatorKey w =
      .ok (status', lamports, w')) :
    StatusMoves status status' ∧ Frames [rt.stakeProgramId] w w' := by
  have same : (.ok (status, 0, w) : Except ProgramError _) = .ok (status', lamports, w') →
      StatusMoves status status' ∧ Frames [rt.stakeProgramId] w w' := by
    intro heq
    cases heq
    exact ⟨.refl _, Frames.refl _ _⟩
  unfold refreshValidator at h
  split at h
  · split at h
    · simp only [bind_eq_ok] at h
      obtain ⟨w₁, hwithdraw, hsettle⟩ := h
      obtain ⟨hmoves, hframes⟩ := settleValidator_moves hsettle
      exact ⟨hmoves, (Frames.of_onlyIf (fun _ => stakeWithdraw_frames) hwithdraw).trans hframes⟩
    · exact same h
  · split at h
    · simp only [bind_eq_ok, pure_eq_ok, Prod.mk.injEq] at h
      obtain ⟨w₁, hmerge, rfl, -, rfl⟩ := h
      refine ⟨?_, UpdateContext.merge_frames hmerge⟩
      split
      · exact Or.inr (Or.inl rfl)
      · exact Or.inr (Or.inr (Or.inl rfl))
    · exact same h
  · exact same h

/-- A visit skips the entry or rewrites its lamports, status and epoch. -/
def EntryRefresh (epoch : Epoch) (v v' : ValidatorStakeInfo) : Prop :=
  v' = v ∨ ∃ status active transient, StatusMoves v.status status ∧ v' = { v with
    status := status, lastUpdateEpoch := epoch, activeStakeLamports := active,
    transientStakeLamports := transient }

theorem refreshEntry_spec {c : UpdateContext} {v v' : ValidatorStakeInfo}
    {validatorKey transientKey : Pubkey}
    (h : refreshEntry rt sv c v validatorKey transientKey w = .ok (v', w')) :
    EntryRefresh sv.epoch v v' ∧ Frames [rt.stakeProgramId] w w' := by
  unfold refreshEntry at h
  split at h
  · simp only [bind_eq_ok, pure_eq_ok, Prod.exists, Prod.mk.injEq] at h
    obtain ⟨s, t, w₁, htransient, s', a, w₂, hvalidator, rfl, rfl⟩ := h
    obtain ⟨hm, hf⟩ := refreshTransient_moves htransient
    obtain ⟨hm', hf'⟩ := refreshValidator_moves hvalidator
    exact ⟨Or.inr ⟨s', a, t, hm.trans hm', rfl⟩, hf.trans hf'⟩
  · cases h
    exact ⟨Or.inl rfl, Frames.refl _ _⟩

theorem refreshEntries_spec {c : UpdateContext} {vs vs' : List ValidatorStakeInfo}
    {pairs : List (Pubkey × Pubkey)} (h : refreshEntries rt sv c vs pairs w = .ok (vs', w')) :
    List.Forall₂ (EntryRefresh sv.epoch) vs vs' ∧ Frames [rt.stakeProgramId] w w' := by
  induction vs generalizing pairs w vs' with
  | nil =>
    cases h
    exact ⟨.nil, Frames.refl _ _⟩
  | cons v vs ih =>
    cases pairs with
    | nil =>
      cases h
      exact ⟨List.forall₂_same.mpr fun _ _ => Or.inl rfl, Frames.refl _ _⟩
    | cons pair pairs =>
      simp only [refreshEntries, bind_eq_ok, pure_eq_ok, Prod.exists, Prod.mk.injEq] at h
      obtain ⟨v', w₁, hentry, vs'', w₂, hrest, rfl, rfl⟩ := h
      obtain ⟨hv, hf⟩ := refreshEntry_spec hentry
      obtain ⟨hvs, hf'⟩ := ih hrest
      exact ⟨.cons hv hvs, hf.trans hf'⟩

end StakePoolFogo
