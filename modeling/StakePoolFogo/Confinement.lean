import StakePoolFogo.Calls
import StakePoolFogo.World

/-!
# What a session key can do to its user

A session key signs for a user within the two wrapped-SOL instructions.  `WithdrawWsolWithSession`
pays into the user's own account.  `DepositWsolWithSession` takes the user's wrapped SOL and mints to
whatever token account it is handed.
-/

open StakePoolFogo.Outcome

namespace StakePoolFogo

/-- The token program lets a session key, vouched for by the program signer, move or burn only tokens
of the user behind it. -/
structure SessionLaws (rt : Runtime) : Prop where
  transfer : ∀ sv session account user mintKey amount decimals mint source destination r,
    rt.extractUser sv session account = .ok user →
    rt.token.transferChecked mintKey session.key (some (programSigner rt).1) amount decimals mint source
      destination = .ok r → ∃ t, source.data = .token t ∧ t.owner = user
  burn : ∀ sv session account user mintKey amount source mint r,
    rt.extractUser sv session account = .ok user →
    rt.token.burn mintKey session.key (some (programSigner rt).1) amount source mint = .ok r →
    ∃ t, source.data = .token t ∧ t.owner = user

/-- The account at `k` holds tokens of `owner`. -/
def HoldsFor (w : Ledger) (k owner : Pubkey) : Prop :=
  ∃ t, (w k).data = .token t ∧ t.owner = owner

variable {rt : Runtime} {sv : Sysvars} {w w' w'' : Ledger} {x : Pubkey}

/-! ## Token accounts across calls -/

/-- Minting credits the destination, which holds tokens of the mint; other token accounts are left
alone. -/
theorem tokenMintTo_token (tokens : TokenLaws rt) {pool tokenProgram mint destination : Pubkey}
    {authority : AccountMeta} {bump : UInt8} {amount : Nat}
    (h : tokenMintTo rt pool tokenProgram mint destination authority bump amount w = .ok w') :
    (∃ t, (w destination).data = .token t ∧ t.mint = mint ∧
      (w' destination).data = .token { t with amount := t.amount + amount }) ∧
    ∀ t, (w x).data = .token t → ∃ n, (w' x).data = .token { t with amount := t.amount + n } := by
  simp only [tokenMintTo, bind_eq_ok, exists_unit] at h
  obtain ⟨hne, a, b, hf, -, -, -, rfl⟩ := invoke₂_eq_ok.mp h.2.2
  obtain ⟨m, t, hm, -, ht, hmint, -, -, ht', -⟩ := tokens.mintTo _ _ _ _ _ _ _ hf
  refine ⟨⟨t, ht, hmint, by rw [Ledger.set_same]; exact ht'⟩, fun u hu => ?_⟩
  by_cases hxd : x = destination
  · subst hxd
    rw [ht] at hu
    cases hu
    exact ⟨amount, by rw [Ledger.set_same]; exact ht'⟩
  · have hxm : x ≠ mint := by
      rintro rfl
      rw [hm] at hu
      cases hu
    refine ⟨0, ?_⟩
    rw [Ledger.set_other _ _ hxd, Ledger.set_other _ _ hxm]
    exact hu

theorem onlyIf_tokenMintTo_token (tokens : TokenLaws rt) {c : Prop} [Decidable c]
    {pool tokenProgram mint destination : Pubkey} {authority : AccountMeta} {bump : UInt8}
    {amount : Nat} (h : onlyIf c (tokenMintTo rt pool tokenProgram mint destination authority bump
      amount) w = .ok w') {t : TokenAccount} (ht : (w x).data = .token t) :
    ∃ n, (w' x).data = .token { t with amount := t.amount + n } := by
  rcases onlyIf_eq_ok.mp h with ⟨-, h⟩ | ⟨-, rfl⟩
  · exact (tokenMintTo_token tokens h).2 t ht
  · exact ⟨0, ht⟩

/-- The depositor's share goes to a token account of the mint; no token account loses anything. -/
theorem mintShares_credits (tokens : TokenLaws rt)
    {pool tokenProgram mint user manager referrer : Pubkey} {authority : AccountMeta} {bump : UInt8}
    {shares : DepositShares} (h : mintShares rt pool tokenProgram mint user manager referrer authority
      bump shares w = .ok w') :
    (∃ t n, (w user).data = .token t ∧ t.mint = mint ∧ shares.user ≤ n ∧
      (w' user).data = .token { t with amount := t.amount + n }) ∧
    ∀ t, (w x).data = .token t → ∃ n, (w' x).data = .token { t with amount := t.amount + n } := by
  simp only [mintShares, bind_eq_ok] at h
  obtain ⟨w₁, h1, w₂, h2, h3⟩ := h
  obtain ⟨⟨t, ht, hmint, ht'⟩, -⟩ := tokenMintTo_token (x := x) tokens h1
  refine ⟨?_, fun u hu => ?_⟩
  · obtain ⟨n, hn⟩ := onlyIf_tokenMintTo_token tokens h2 ht'
    obtain ⟨n', hn'⟩ := onlyIf_tokenMintTo_token tokens h3 hn
    refine ⟨t, shares.user + n + n', ht, hmint, by omega, ?_⟩
    rw [hn', ← Nat.add_assoc, ← Nat.add_assoc]
  · obtain ⟨n₁, hn₁⟩ := (tokenMintTo_token tokens h1).2 u hu
    obtain ⟨n₂, hn₂⟩ := onlyIf_tokenMintTo_token tokens h2 hn₁
    obtain ⟨n₃, hn₃⟩ := onlyIf_tokenMintTo_token tokens h3 hn₂
    exact ⟨n₁ + n₂ + n₃, by rw [hn₃, ← Nat.add_assoc, ← Nat.add_assoc]⟩

theorem mintShares_onlyAt {pool tokenProgram mint user manager referrer : Pubkey}
    {authority : AccountMeta} {bump : UInt8} {shares : DepositShares}
    (h : mintShares rt pool tokenProgram mint user manager referrer authority bump shares w = .ok w') :
    OnlyAt [mint, user, manager, referrer] w w' := by
  have hone : ∀ {u u' : Ledger} {destination : Pubkey} {amount : Nat},
      tokenMintTo rt pool tokenProgram mint destination authority bump amount u = .ok u' →
      OnlyAt [mint, destination] u u' := by
    intro u u' destination amount h
    simp only [tokenMintTo, bind_eq_ok, exists_unit] at h
    exact .of_invoke₂ h.2.2
  simp only [mintShares, bind_eq_ok] at h
  obtain ⟨w₁, h1, w₂, h2, h3⟩ := h
  refine (((hone h1).mono ?_).trans ((OnlyAt.of_onlyIf (fun _ => hone) h2).mono ?_)).trans
    ((OnlyAt.of_onlyIf (fun _ => hone) h3).mono ?_) <;> simp

/-- Lamports leave and reach accounts without touching their data. -/
theorem programSignerTransfer_data (system : SystemLaws rt) {signer : AccountMeta} {bump : UInt8}
    {destination : Pubkey} {lamports : Nat}
    (h : programSignerTransfer rt signer bump destination lamports w = .ok w') :
    (w' x).data = (w x).data := by
  simp only [programSignerTransfer, bind_eq_ok, exists_unit] at h
  obtain ⟨_, -, -, h⟩ := h
  rcases ite_eq_ok.mp h with ⟨-, h⟩ | ⟨-, h⟩
  · simp only [bind_eq_ok, pure_eq_ok] at h
    obtain ⟨_, -, rfl⟩ := h
    rfl
  · obtain ⟨-, a, b, hf, -, -, -, rfl⟩ := invoke₂_eq_ok.mp h
    obtain ⟨-, -, rfl, rfl⟩ := system.transfer _ _ _ _ _ hf
    by_cases hxd : x = destination
    · subst hxd
      rw [Ledger.set_same]
    · rw [Ledger.set_other _ _ hxd]
      by_cases hxs : x = signer.key
      · subst hxs
        rw [Ledger.set_same]
      · rw [Ledger.set_other _ _ hxs]

theorem programSignerTransfer_onlyAt {signer : AccountMeta} {bump : UInt8} {destination : Pubkey}
    {lamports : Nat} (h : programSignerTransfer rt signer bump destination lamports w = .ok w') :
    OnlyAt [signer.key, destination] w w' := by
  simp only [programSignerTransfer, bind_eq_ok, exists_unit] at h
  obtain ⟨_, -, -, h⟩ := h
  exact .of_invokeMove h

/-- A transfer between two accounts takes tokens of the mint from the source; a transfer from an
account to itself changes nothing. -/
theorem invokeTransfer_token (tokens : TokenLaws rt) {callees : List Pubkey}
    {source destination mintKey authority : Pubkey} {cosigner : Option Pubkey} {amount : Nat}
    {decimals : UInt8} {mint : Account} (h : invokeMove callees source destination
      (rt.token.transferChecked mintKey authority cosigner amount decimals mint) w = .ok w')
    (hne : source ≠ destination) :
    ∃ t, (w source).data = .token t ∧ t.mint = mintKey ∧ amount ≤ t.amount ∧
      (w' source).data = .token { t with amount := t.amount - amount } := by
  rcases ite_eq_ok.mp h with ⟨heq, -⟩ | ⟨-, h⟩
  · exact absurd heq hne
  · obtain ⟨-, a, b, hf, -, -, -, rfl⟩ := invoke₂_eq_ok.mp h
    obtain ⟨t, u, ht, hu, hmint, -, hamount, ht'⟩ := tokens.transfer _ _ _ _ _ _ _ _ _ _ hf
    refine ⟨t, ht, hmint, hamount, ?_⟩
    rw [Ledger.set_other _ _ hne, Ledger.set_same]
    exact ht'

theorem createTransientWsol_data (tokens : TokenLaws rt)
    {user wsolMint tokenProgram programSigner : Pubkey} {feePayer transientWsol : AccountMeta}
    (h : createTransientWsol rt sv user wsolMint tokenProgram programSigner feePayer transientWsol w =
      .ok w') (hx : x ≠ transientWsol.key) : (w' x).data = (w x).data := by
  simp only [createTransientWsol, bind_eq_ok, exists_unit] at h
  obtain ⟨-, _, -, -, w₁, hpda, -, hinit⟩ := h
  rw [OnlyAt.of_invoke₁ hinit x (by simpa using hx)]
  rcases ite_eq_ok.mp hpda with ⟨-, h⟩ | ⟨-, h⟩
  · rw [OnlyAt.of_invoke₁ h x (by simpa using hx)]
  · obtain ⟨-, a, b, hf, -, -, -, rfl⟩ := invoke₂_eq_ok.mp h
    rw [Ledger.set_other _ _ hx]
    by_cases hxp : x = feePayer.key
    · subst hxp
      rw [Ledger.set_same]
      exact tokens.createPda _ _ _ _ _ _ _ _ hf
    · rw [Ledger.set_other _ _ hxp]

theorem createTransientWsol_onlyAt {user wsolMint tokenProgram programSigner : Pubkey}
    {feePayer transientWsol : AccountMeta}
    (h : createTransientWsol rt sv user wsolMint tokenProgram programSigner feePayer transientWsol w =
      .ok w') : OnlyAt [feePayer.key, transientWsol.key] w w' := by
  simp only [createTransientWsol, bind_eq_ok, exists_unit] at h
  obtain ⟨-, _, -, -, w₁, hpda, -, hinit⟩ := h
  exact (OnlyAt.of_invokeCreate hpda).trans ((OnlyAt.of_invoke₁ hinit).mono (by simp))

theorem createTransientWsol_credited (laws : ProgramLaws rt)
    {user wsolMint tokenProgram programSigner : Pubkey} {feePayer transientWsol : AccountMeta}
    (h : createTransientWsol rt sv user wsolMint tokenProgram programSigner feePayer transientWsol w =
      .ok w') (hx : (w x).owner = rt.stakeProgramId) : (w x).OnlyCredited (w' x) := by
  simp only [createTransientWsol, bind_eq_ok, exists_unit, checkSplToken_eq_ok] at h
  obtain ⟨-, _, -, -, w₁, hpda, htoken, hinit⟩ := h
  have h1 := (Frames.of_invokeCreate hpda).others x (by
    rw [hx]
    simpa using laws.stake_ne_system)
  refine h1.trans ((Frames.of_invoke₁ hinit).others x ?_)
  rw [h1.owner, hx]
  simpa using (laws.token_ne_stake _ (Or.inl htoken)).symm

section Unwrap

variable {tokenProgram userWsol wsolMint reserve : Pubkey}
  {session feePayer transientWsol signer : AccountMeta} {bump : UInt8} {lamports : Nat}

/-- Unwrapping takes `lamports` tokens from the user's account, which is none of the accounts on the
way, and leaves an empty transient account. -/
theorem unwrapIntoReserve_data (tokens : TokenLaws rt) (system : SystemLaws rt)
    (h : unwrapIntoReserve rt sv tokenProgram userWsol wsolMint session feePayer transientWsol signer
      bump reserve lamports w = .ok w') (hne : userWsol ≠ transientWsol.key) :
    (∃ t, (w userWsol).data = .token t ∧ t.mint = wsolMint ∧ lamports ≤ t.amount ∧
      (w' userWsol).data = .token { t with amount := t.amount - lamports }) ∧
    (w' transientWsol.key).data = .zeroed ∧
    ∀ x, x ≠ userWsol → x ≠ transientWsol.key → (w' x).data = (w x).data := by
  simp only [unwrapIntoReserve, bind_eq_ok, exists_unit] at h
  obtain ⟨-, w₁, htransfer, _, -, -, -, w₂, hclose, w₃, hrefund, hforward⟩ := h
  have hend : ∀ x, (w' x).data = (w₂ x).data := fun x =>
    (programSignerTransfer_data system hforward).trans (programSignerTransfer_data system hrefund)
  obtain ⟨hsigner, a, b, hf, -, -, -, hset⟩ := invoke₂_eq_ok.mp hclose
  obtain ⟨-, hzero, hdata, -⟩ := tokens.close _ _ _ _ _ hf
  have hclosed : ∀ x, x ≠ transientWsol.key → (w₂ x).data = (w₁ x).data := by
    intro x hx
    rw [hset]
    by_cases hxs : x = signer.key
    · subst hxs
      rw [Ledger.set_same]
      exact hdata
    · rw [Ledger.set_other _ _ hxs, Ledger.set_other _ _ hx]
  obtain ⟨t, ht, hmint, hamount, ht'⟩ := invokeTransfer_token tokens htransfer hne
  refine ⟨⟨t, ht, hmint, hamount, ?_⟩, ?_, fun x hx hx' => ?_⟩
  · rw [hend, hclosed _ hne, ht']
  · rw [hend, hset, Ledger.set_other _ _ hsigner, Ledger.set_same]
    exact hzero
  · rw [hend, hclosed x hx', OnlyAt.of_invokeMove htransfer x (by simp [hx, hx'])]

theorem unwrapIntoReserve_onlyAt
    (h : unwrapIntoReserve rt sv tokenProgram userWsol wsolMint session feePayer transientWsol signer
      bump reserve lamports w = .ok w') :
    OnlyAt [userWsol, transientWsol.key, signer.key, feePayer.key, reserve] w w' := by
  simp only [unwrapIntoReserve, bind_eq_ok, exists_unit] at h
  obtain ⟨-, w₁, htransfer, _, -, -, -, w₂, hclose, w₃, hrefund, hforward⟩ := h
  refine ((((OnlyAt.of_invokeMove htransfer).mono ?_).trans ((OnlyAt.of_invoke₂ hclose).mono ?_)).trans
    ((programSignerTransfer_onlyAt hrefund).mono ?_)).trans
    ((programSignerTransfer_onlyAt hforward).mono ?_) <;> simp

/-- What is unwrapped arrives in the reserve. -/
theorem unwrapIntoReserve_reserve (laws : ProgramLaws rt) (system : SystemLaws rt)
    (h : unwrapIntoReserve rt sv tokenProgram userWsol wsolMint session feePayer transientWsol signer
      bump reserve lamports w = .ok w') (hreserve : (w reserve).owner = rt.stakeProgramId) :
    (w' reserve).owner = rt.stakeProgramId ∧ (w reserve).lamports + lamports ≤ (w' reserve).lamports := by
  simp only [unwrapIntoReserve, bind_eq_ok, exists_unit, checkSplToken_eq_ok] at h
  obtain ⟨-, w₁, htransfer, _, -, -, htoken, w₂, hclose, w₃, hrefund, hforward⟩ := h
  have htoken' : rt.stakeProgramId ∉ [tokenProgram] := by
    simpa using (laws.token_ne_stake _ (Or.inl htoken)).symm
  have hsystem : rt.stakeProgramId ∉ [rt.systemProgramId] := by simpa using laws.stake_ne_system
  have h1 := (Frames.of_invokeMove htransfer).others reserve (by rw [hreserve]; exact htoken')
  have h2 := (Frames.of_invoke₂ hclose).others reserve (by rw [h1.owner, hreserve]; exact htoken')
  have h3 := (programSignerTransfer_frames hrefund).others reserve (by
    rw [h2.owner, h1.owner, hreserve]
    exact hsystem)
  have howner : (w₃ reserve).owner = rt.stakeProgramId :=
    h3.owner.trans (h2.owner.trans (h1.owner.trans hreserve))
  simp only [programSignerTransfer, bind_eq_ok, exists_unit] at hforward
  obtain ⟨_, -, -, hforward⟩ := hforward
  rcases ite_eq_ok.mp hforward with ⟨heq, hforward⟩ | ⟨hne, hforward⟩
  · -- The system program does not move lamports of a stake account.
    simp only [bind_eq_ok, pure_eq_ok] at hforward
    obtain ⟨⟨a, b⟩, hf, -⟩ := hforward
    have hsource := (system.transfer _ _ _ _ _ hf).1
    rw [heq, howner] at hsource
    exact absurd hsource laws.stake_ne_system
  · obtain ⟨-, a, b, hf, -, -, -, rfl⟩ := invoke₂_eq_ok.mp hforward
    obtain ⟨-, -, -, rfl⟩ := system.transfer _ _ _ _ _ hf
    rw [Ledger.set_same]
    refine ⟨howner, ?_⟩
    show (w reserve).lamports + lamports ≤ (w₃ reserve).lamports + lamports
    have hcredited := ((h1.trans h2).trans h3).lamports
    omega

end Unwrap

/-! ## Deposits -/

/-- Keys of the accounts at the given positions. -/
def keysAt (accounts : List AccountMeta) (positions : List Nat) : List Pubkey :=
  positions.filterMap fun i => accounts[i]?.map AccountMeta.key

theorem mem_keysAt {accounts : List AccountMeta} {positions : List Nat} {i : Nat} {a : AccountMeta}
    (ha : accounts[i]? = some a) (hi : i ∈ positions) : a.key ∈ keysAt accounts positions :=
  List.mem_filterMap.mpr ⟨i, hi, by rw [ha]; rfl⟩

/-- The wrapped-SOL account of a user. -/
def wsolOf (rt : Runtime) (user : Pubkey) : Pubkey :=
  rt.getAssociatedTokenAddress user rt.nativeMintId

/-- A session deposit that gives the user what it takes from them: at most `lamports` wrapped SOL
leave the user's account, they reach the reserve, and the depositor's share is minted to a token
account of the user.  Besides these, only the pool's records, the manager's and the referrer's fee
accounts, the payer of the rent and the two accounts the wrapped SOL passes through are touched. -/
structure DepositConfined (rt : Runtime) (user : Pubkey) (accounts : List AccountMeta)
    (lamports : Nat) (p : StakePool) (w w' : Ledger) : Prop where
  taken : ∃ t t', (w (wsolOf rt user)).data = .token t ∧ (w' (wsolOf rt user)).data = .token t' ∧
    t.owner = user ∧ t'.owner = user ∧ t.amount ≤ t'.amount + lamports
  minted : ∃ shares destination t n, depositSolShares p lamports none = .ok shares ∧
    accounts[3]? = some destination ∧ (w destination.key).data = .token t ∧ shares.user ≤ n ∧
    (w' destination.key).data = .token { t with amount := t.amount + n } ∧ t.owner = user
  reserve : (w p.reserveStake).owner = rt.stakeProgramId →
    (w p.reserveStake).lamports + lamports ≤ (w' p.reserveStake).lamports
  others : OnlyAt (keysAt accounts [0, 3, 5, 11] ++ [p.poolMint, p.reserveStake, p.managerFeeAccount,
    wsolOf rt user, (findTransientWsolAddress rt user).1, (programSigner rt).1]) w w'

/-- What a session works on: a pool whose tokens are not wrapped SOL, and a user whose wrapped-SOL
account is not the transient one. -/
structure SessionPool (rt : Runtime) (w : Ledger) (k : Pubkey) (p : StakePool) (user : Pubkey) :
    Prop where
  pool : PoolAt rt w k p
  mint : p.poolMint ≠ rt.nativeMintId
  distinct : wsolOf rt user ≠ (findTransientWsolAddress rt user).1

section Deposit

variable {accounts : List AccountMeta} {lamports : Nat} {p : StakePool}
  (laws : ProgramLaws rt) (tokens : TokenLaws rt) (system : SystemLaws rt) (sessions : SessionLaws rt)
  (r : DepositWsolRun rt sv accounts lamports w w')

theorem DepositWsolRun.transient_key :
    r.transientWsol.key = (findTransientWsolAddress rt r.user).1 := by
  have h := r.create
  simp only [createTransientWsol, bind_eq_ok, exists_unit, failIf_eq_ok, Decidable.not_not] at h
  exact h.1.symm

theorem DepositWsolRun.userWsol_key :
    r.userWsol.key = wsolOf rt r.user ∧ r.wsolMint.key = rt.nativeMintId := by
  obtain ⟨hmint, -, -, -, hata⟩ := (checkSessionUser_eq_ok rt sv).mp r.isUser
  refine ⟨?_, hmint⟩
  rw [wsolOf, ← hmint]
  exact hata.symm

theorem DepositWsolRun.extracted : rt.extractUser sv r.session (w r.session.key) = .ok r.user :=
  ((checkSessionUser_eq_ok rt sv).mp r.isUser).2.2.2.1

include tokens system

/-- What has happened by the time the lamports are in the reserve. -/
theorem DepositWsolRun.unwrapped_data (hs : SessionPool rt w r.pool.key p r.user) :
    (∃ t, (w (wsolOf rt r.user)).data = .token t ∧ t.mint = rt.nativeMintId ∧ lamports ≤ t.amount ∧
      (r.unwrapped (wsolOf rt r.user)).data = .token { t with amount := t.amount - lamports }) ∧
    (r.unwrapped (findTransientWsolAddress rt r.user).1).data = .zeroed ∧
    ∀ x, x ≠ wsolOf rt r.user → x ≠ (findTransientWsolAddress rt r.user).1 →
      (r.unwrapped x).data = (w x).data := by
  obtain ⟨hwsol, hmint⟩ := r.userWsol_key
  have hunwrap := r.unwrap
  have hcreate := fun x => createTransientWsol_data (x := x) tokens r.create
  rw [hwsol, hmint] at hunwrap
  rw [r.transient_key] at hcreate
  obtain ⟨⟨t, ht, htmint, hamount, ht'⟩, hzero, hsame⟩ :=
    unwrapIntoReserve_data tokens system hunwrap (by rw [r.transient_key]; exact hs.distinct)
  rw [r.transient_key] at hzero hsame
  refine ⟨⟨t, ?_, htmint, hamount, ht'⟩, hzero, fun x hx hx' => ?_⟩
  · rw [← hcreate _ hs.distinct]
    exact ht
  · rw [hsame x hx hx', hcreate x hx']

/-- The account the tokens are minted to was a token account of the mint all along. -/
theorem DepositWsolRun.destination_data (hs : SessionPool rt w r.pool.key p r.user)
    {t : TokenAccount} (ht : (r.unwrapped r.poolTokensTo.key).data = .token t)
    (hmint : t.mint = p.poolMint) : (w r.poolTokensTo.key).data = .token t := by
  obtain ⟨⟨u, hu, humint, -, hu'⟩, hzero, hsame⟩ := r.unwrapped_data tokens system hs
  rw [← hsame _ ?_ ?_]
  · exact ht
  · intro heq
    rw [heq, hu'] at ht
    cases ht
    exact hs.mint (hmint.symm.trans humint)
  · intro heq
    rw [heq, hzero] at ht
    cases ht

omit system in
include laws in
/-- The deposit itself: the shares go where the accounts say, other token accounts lose nothing. -/
theorem DepositWsolRun.deposit_data (hs : SessionPool rt w r.pool.key p r.user) :
    ∃ shares, depositSolShares p lamports none = .ok shares ∧
      (∃ t n, (r.unwrapped r.poolTokensTo.key).data = .token t ∧ t.mint = p.poolMint ∧
        shares.user ≤ n ∧ (w' r.poolTokensTo.key).data = .token { t with amount := t.amount + n }) ∧
      (∀ x t, (r.unwrapped x).data = .token t →
        ∃ n, (w' x).data = .token { t with amount := t.amount + n }) ∧
      OnlyAt [p.poolMint, r.poolTokensTo.key, p.managerFeeAccount, r.referrer.key, r.pool.key]
        r.unwrapped w' ∧
      (∀ x, (r.unwrapped x).owner = rt.stakeProgramId → (r.unwrapped x).lamports ≤ (w' x).lamports) ∧
      r.reserve.key = p.reserveStake := by
  obtain ⟨d, hpool, hreserve, huser, hmanager, hreferrer, hmint, htoken⟩ := r.inner
  have hp := d.isPool
  rw [hpool] at hp
  obtain rfl := (hs.pool.of_frames laws r.frames).unique hp
  have hminted := d.mintTokens
  have hpaid : d.paid = r.unwrapped := by
    rcases onlyIf_eq_ok.mp d.pay with ⟨hfalse, -⟩ | ⟨-, h⟩
    · cases hfalse
    · exact h.symm
  rw [hpaid, huser, d.mint_key, d.isManagerFee, hreferrer] at hminted
  have hwrite := d.result
  rw [hpool] at hwrite
  have hother := OnlyAt.of_writeStakePool hwrite
  have hnot : ∀ {x t}, (r.unwrapped x).data = .token t → x ∉ [r.pool.key] := by
    intro x t ht hx
    rw [List.mem_singleton.mp hx, hp.data] at ht
    cases ht
  refine ⟨d.shares, d.shares_eq, ?_, fun x t ht => ?_, ?_, fun x hx => ?_, ?_⟩
  · obtain ⟨t, n, ht, htmint, hn, ht'⟩ :=
      (mintShares_credits (x := r.poolTokensTo.key) tokens hminted).1
    refine ⟨t, n, ht, htmint, hn, ?_⟩
    rw [hother _ (hnot ht)]
    exact ht'
  · obtain ⟨n, hn⟩ := (mintShares_credits tokens hminted).2 t ht
    exact ⟨n, by rw [hother x (hnot ht)]; exact hn⟩
  · exact ((mintShares_onlyAt hminted).mono (by simp)).trans (hother.mono (by simp))
  · have htokens := mintShares_token hminted
    have hcredited := (mintShares_frames hminted).others x (by
      rw [hx]
      simpa using (laws.token_ne_stake _ htokens).symm)
    have hne : x ∉ [r.pool.key] := by
      intro hin
      rw [List.mem_singleton.mp hin, hp.owner] at hx
      exact laws.stake_ne hx.symm
    rw [hother x hne]
    exact hcredited.lamports
  · exact (congrArg AccountMeta.key hreserve).symm.trans d.isReserve

include laws sessions

/-- A session deposit is confined to the user exactly if the destination is a token account of the
user. -/
theorem DepositWsolRun.confined_iff (hs : SessionPool rt w r.pool.key p r.user) :
    DepositConfined rt r.user accounts lamports p w w' ↔ HoldsFor w r.poolTokensTo.key r.user := by
  obtain ⟨shares, hshares, ⟨t, n, ht, htmint, hn, ht'⟩, hkept, honly, hlamports, hreserve⟩ :=
    r.deposit_data laws tokens hs
  have hbefore := r.destination_data tokens system hs ht htmint
  constructor
  · rintro ⟨-, ⟨_, destination, t₀, _, -, hat, ht₀, -, -, howner⟩, -, -⟩
    obtain rfl := Option.some.inj (r.poolTokensTo_at.symm.trans hat)
    exact ⟨t₀, ht₀, howner⟩
  rintro ⟨t₀, ht₀, howner⟩
  rw [hbefore] at ht₀
  cases ht₀
  obtain ⟨⟨u, hu, humint, hamount, hu'⟩, -, -⟩ := r.unwrapped_data tokens system hs
  refine ⟨?_, ⟨shares, r.poolTokensTo, t, n, hshares, r.poolTokensTo_at, hbefore, hn, ht', howner⟩,
    fun hstake => ?_, ?_⟩
  · -- The transfer out of the account was made with the session key.
    have howner : u.owner = r.user := by
      have hunwrap := r.unwrap
      simp only [unwrapIntoReserve, bind_eq_ok, exists_unit] at hunwrap
      obtain ⟨-, _, htransfer, -⟩ := hunwrap
      have hne : r.userWsol.key ≠ r.transientWsol.key := by
        rw [r.userWsol_key.1, r.transient_key]
        exact hs.distinct
      rcases ite_eq_ok.mp htransfer with ⟨heq, -⟩ | ⟨-, h⟩
      · exact absurd heq hne
      · obtain ⟨-, a, b, hf, -⟩ := invoke₂_eq_ok.mp h
        rw [← r.isSigner] at hf
        obtain ⟨v, hv, hvowner⟩ := sessions.transfer _ _ _ _ _ _ _ _ _ _ _ r.extracted hf
        rw [createTransientWsol_data tokens r.create hne, r.userWsol_key.1, hu] at hv
        cases hv
        exact hvowner
    obtain ⟨m, hm⟩ := hkept _ _ hu'
    refine ⟨u, _, hu, hm, howner, howner, ?_⟩
    show u.amount ≤ u.amount - lamports + m + lamports
    omega
  · rw [← hreserve] at hstake ⊢
    have hcreated := createTransientWsol_credited laws r.create hstake
    obtain ⟨howner, hpaid⟩ :=
      unwrapIntoReserve_reserve laws system r.unwrap (hcreated.owner.trans hstake)
    have := hlamports _ howner
    have := hcreated.lamports
    omega
  · have hcreate := createTransientWsol_onlyAt r.create
    have hunwrap := unwrapIntoReserve_onlyAt r.unwrap
    rw [r.transient_key] at hcreate hunwrap
    rw [r.userWsol_key.1, hreserve, ← r.isSigner] at hunwrap
    have hpool : r.pool.key ∈ keysAt accounts [0, 3, 5, 11] := mem_keysAt r.pool_at (by simp)
    have hto : r.poolTokensTo.key ∈ keysAt accounts [0, 3, 5, 11] := mem_keysAt r.poolTokensTo_at (by simp)
    have hreferrer : r.referrer.key ∈ keysAt accounts [0, 3, 5, 11] := mem_keysAt r.referrer_at (by simp)
    have hpayer : r.feePayer.key ∈ keysAt accounts [0, 3, 5, 11] := mem_keysAt r.feePayer_at (by simp)
    refine ((hcreate.mono ?_).trans (hunwrap.mono ?_)).trans (honly.mono ?_) <;>
      simp [List.subset_def, hpool, hto, hreferrer, hpayer]

end Deposit

/-! ## Withdrawals -/

/-- A session withdrawal that gives the user what it takes from them: at most `poolTokens` leave a
token account of the user, and the lamports they are worth land in the user's wrapped-SOL account.
Besides these only the pool's records, the manager's fee account and the payer are touched. -/
structure WithdrawConfined (rt : Runtime) (user : Pubkey) (accounts : List AccountMeta)
    (poolTokens : Nat) (p : StakePool) (w w' : Ledger) : Prop where
  taken : ∃ source t t', accounts[3]? = some source ∧ (w source.key).data = .token t ∧
    (w' source.key).data = .token t' ∧ t.owner = user ∧ t'.owner = user ∧
    t.amount ≤ t'.amount + poolTokens
  paid : ∃ source fee quote, accounts[3]? = some source ∧
    withdrawalFee p (p.calcPoolTokensSolWithdrawalFee poolTokens) source.key (w p.managerFeeAccount) =
      .ok fee ∧ quoteWithdrawal p poolTokens fee none = .ok quote ∧
    (w' (wsolOf rt user)).lamports = (w (wsolOf rt user)).lamports + quote.lamports ∧
    HoldsFor w' (wsolOf rt user) user
  others : OnlyAt (keysAt accounts [0, 3] ++ [p.poolMint, p.reserveStake, p.managerFeeAccount,
    wsolOf rt user]) w w'

/-- Burning and paying the fee with a session key takes at most what was asked from an account of the
user, and leaves accounts that hold neither the mint nor its tokens alone. -/
theorem burnWithSession_data (tokens : TokenLaws rt) (sessions : SessionLaws rt)
    {tokenProgram burnFrom mint managerFee user : Pubkey} {authority signer : AccountMeta}
    {account : Account} {quote : WithdrawalQuote} {decimals : UInt8}
    (huser : rt.extractUser sv authority account = .ok user)
    (h : burnWithSession rt tokenProgram burnFrom mint managerFee authority signer quote decimals w =
      .ok w') :
    (∃ t t', (w burnFrom).data = .token t ∧ t.mint = mint ∧ (w' burnFrom).data = .token t' ∧
      t.owner = user ∧ t'.owner = user ∧ t.amount ≤ t'.amount + (quote.burnt + quote.fee)) ∧
    (∀ x, (∀ m, (w x).data ≠ .mint m) → (∀ t, (w x).data = .token t → t.mint ≠ mint) →
      w' x = w x) ∧ OnlyAt [burnFrom, mint, managerFee] w w' := by
  simp only [burnWithSession, bind_eq_ok, exists_unit, failIf_eq_ok, Decidable.not_not] at h
  obtain ⟨hsigner, -, w₁, hburn, hfee⟩ := h
  obtain ⟨hne, a, b, hf, -, -, -, hset⟩ := invoke₂_eq_ok.mp hburn
  obtain ⟨m, t, hm, -, ht, htmint, hamount, -, -, ht', -⟩ := tokens.burn _ _ _ _ _ _ _ _ hf
  rw [← hsigner] at hf
  obtain ⟨v, hv, hvowner⟩ := sessions.burn _ _ _ _ _ _ _ _ _ huser hf
  rw [ht] at hv
  cases hv
  have hburnt : (w₁ burnFrom).data = .token { t with amount := t.amount - quote.burnt } := by
    rw [hset, Ledger.set_other _ _ hne, Ledger.set_same]
    exact ht'
  have honly : OnlyAt [burnFrom, mint] w w₁ := OnlyAt.of_invoke₂ hburn
  have hkept : ∀ x, (∀ m, (w x).data ≠ .mint m) → (∀ t, (w x).data = .token t → t.mint ≠ mint) →
      w₁ x = w x := by
    intro x hx hx'
    refine honly x ?_
    simp only [List.mem_cons, List.not_mem_nil, or_false, not_or]
    constructor
    · rintro rfl
      exact hx' t ht htmint
    · rintro rfl
      exact hx m hm
  -- The account after the burn, when the fee is not taken from it.
  have hstop : ∃ t t', (w burnFrom).data = .token t ∧ t.mint = mint ∧ (w₁ burnFrom).data = .token t' ∧
      t.owner = user ∧ t'.owner = user ∧ t.amount ≤ t'.amount + (quote.burnt + quote.fee) := by
    refine ⟨t, _, ht, htmint, hburnt, hvowner, hvowner, ?_⟩
    show t.amount ≤ t.amount - quote.burnt + (quote.burnt + quote.fee)
    omega
  rcases onlyIf_eq_ok.mp hfee with ⟨-, hfee⟩ | ⟨-, rfl⟩
  · rcases ite_eq_ok.mp hfee with ⟨-, h⟩ | ⟨hne', h⟩
    · simp only [bind_eq_ok, pure_eq_ok] at h
      obtain ⟨_, -, rfl⟩ := h
      exact ⟨hstop, hkept, honly.mono (by simp)⟩
    · obtain ⟨t₁, ht₁, -, hfee', ht₁'⟩ := invokeTransfer_token tokens hfee hne'
      have hafter := OnlyAt.of_invokeMove hfee
      obtain ⟨-, c, d, hf', -⟩ := invoke₂_eq_ok.mp h
      obtain ⟨_, u, -, hu, -, humint, -⟩ := tokens.transfer _ _ _ _ _ _ _ _ _ _ hf'
      rw [hburnt] at ht₁
      obtain rfl := AccountData.token.inj ht₁
      refine ⟨⟨t, _, ht, htmint, ht₁', hvowner, hvowner, ?_⟩, fun x hx hx' => ?_,
        (honly.mono (by simp)).trans (hafter.mono (by simp))⟩
      · show t.amount ≤ t.amount - quote.burnt - quote.fee + (quote.burnt + quote.fee)
        omega
      · have heq := hkept x hx hx'
        rw [hafter x ?_, heq]
        simp only [List.mem_cons, List.not_mem_nil, or_false, not_or]
        constructor
        · rintro rfl
          exact hx' t ht htmint
        · rintro rfl
          rw [heq] at hu
          exact hx' u hu humint
  · exact ⟨hstop, hkept, honly.mono (by simp)⟩

section Withdraw

variable {accounts : List AccountMeta} {poolTokens : Nat} {p : StakePool}
  (laws : ProgramLaws rt) (tokens : TokenLaws rt) (stakes : StakeLaws rt) (sessions : SessionLaws rt)
  (r : WithdrawWsolRun rt sv accounts poolTokens w w')

theorem WithdrawWsolRun.userWsol_key :
    r.userWsol.key = wsolOf rt r.user ∧ r.wsolMint.key = rt.nativeMintId := by
  obtain ⟨hmint, -, -, -, hata⟩ := (checkSessionUser_eq_ok rt sv).mp r.isUser
  refine ⟨?_, hmint⟩
  rw [wsolOf, ← hmint]
  exact hata.symm

include laws tokens

/-- The handler insists that the user's account is there, so creating it changes nothing. -/
theorem WithdrawWsolRun.created_eq : r.created = w ∧ ∃ t, (w (wsolOf rt r.user)).data = .token t ∧
    t.owner = r.user ∧ t.mint = rt.nativeMintId := by
  obtain ⟨-, -, howner, -, -⟩ := (checkSessionUser_eq_ok rt sv).mp r.isUser
  have hnot : (w r.userWsol.key).owner ≠ rt.systemProgramId := by
    rw [howner]
    exact laws.token_ne_system _ (Or.inl r.token_key)
  obtain ⟨hkey, hmint⟩ := r.userWsol_key
  have hassociated : ∀ {payer payer' account'}, rt.createAssociatedIdempotent r.user r.wsolMint.key
      r.tokenProgram.key payer (w r.userWsol.key) = .ok (payer', account') →
      payer' = payer ∧ account' = w r.userWsol.key ∧ ∃ t, (w (wsolOf rt r.user)).data = .token t ∧
        t.owner = r.user ∧ t.mint = rt.nativeMintId := by
    intro payer payer' account' hf
    obtain ⟨-, -, hsystem | ⟨hpayer, haccount, t, ht, hwallet, htmint⟩⟩ :=
      tokens.associated _ _ _ _ _ _ _ hf
    · exact absurd hsystem hnot
    · exact ⟨hpayer, haccount, t, by rw [← hkey]; exact ht, hwallet, by rw [htmint, hmint]⟩
  rcases ite_eq_ok.mp r.create with ⟨heq, h⟩ | ⟨-, h⟩
  · simp only [bind_eq_ok, pure_eq_ok] at h
    obtain ⟨⟨a, b⟩, hf, hw⟩ := h
    exact ⟨hw.symm, (hassociated hf).2.2⟩
  · obtain ⟨-, a, b, hf, -, -, -, hset⟩ := invoke₂_eq_ok.mp h
    obtain ⟨rfl, rfl, ht⟩ := hassociated hf
    exact ⟨by rw [hset, Ledger.set_self, Ledger.set_self], ht⟩

include stakes sessions

omit laws in
/-- The inner withdrawal, made with the session key, into an account that holds other tokens. -/
theorem WithdrawSolRun.session_data {u u' : Ledger} {inside : List AccountMeta}
    {signer : AccountMeta} {user : Pubkey} {account : Account} {tw : TokenAccount}
    (d : WithdrawSolRun rt sv inside poolTokens none true u u') (hsigner : inside[13]? = some signer)
    (huser : rt.extractUser sv d.transferAuthority account = .ok user)
    (htw : (u d.destination.key).data = .token tw) (htwmint : tw.mint ≠ d.p.poolMint) :
    ∃ quote fee t t',
      withdrawalFee d.p (d.p.calcPoolTokensSolWithdrawalFee poolTokens) d.burnFrom.key
        (u d.p.managerFeeAccount) = .ok fee ∧
      quoteWithdrawal d.p poolTokens fee none = .ok quote ∧
      u' d.destination.key = { u d.destination.key with
        lamports := (u d.destination.key).lamports + quote.lamports } ∧
      (u d.burnFrom.key).data = .token t ∧ (u' d.burnFrom.key).data = .token t' ∧ t.owner = user ∧
      t'.owner = user ∧ t.amount ≤ t'.amount + poolTokens ∧ d.burnFrom.key ≠ d.destination.key ∧
      OnlyAt [d.pool.key, d.burnFrom.key, d.p.poolMint, d.p.managerFeeAccount, d.p.reserveStake,
        d.destination.key] u u' := by
  have hburn := d.burn
  have hfee := d.fee_eq
  have hpay := d.pay
  have hreserve := d.reserve_data
  rw [hsigner, d.mint_key, d.isManagerFee] at hburn
  rw [d.isManagerFee] at hfee
  rw [d.isReserve] at hpay hreserve
  obtain ⟨⟨t, t', ht, htmint, ht', htowner, htowner', hamount⟩, hkept, honly⟩ :=
    burnWithSession_data tokens sessions huser hburn
  -- The reserve and the destination hold no pool tokens, so the burn passes them by.
  have hreserve' : d.burnt d.p.reserveStake = u d.p.reserveStake := by
    refine hkept _ (fun m hm => ?_) (fun t ht => ?_)
    · rw [hreserve] at hm
      cases hm
    · rw [hreserve] at ht
      cases ht
  have hdest : d.burnt d.destination.key = u d.destination.key := by
    refine hkept _ (fun m hm => ?_) (fun t ht => ?_)
    · rw [htw] at hm
      cases hm
    · rw [htw] at ht
      cases ht
      exact htwmint
  have hne : d.p.reserveStake ≠ d.destination.key := by
    intro heq
    rw [← heq, hreserve] at htw
    cases htw
  obtain ⟨hpaid, hwithdraw⟩ := stakeWithdraw_spec hpay hne
  obtain ⟨-, hcredit, -⟩ :=
    stakes.withdraw_debited hwithdraw (by rw [hreserve']; exact hreserve) rfl
  have hwrite := OnlyAt.of_writeStakePool d.result
  have hpool : ∀ {x t}, (u x).data = .token t → x ∉ [d.pool.key] := by
    intro x t ht hx
    rw [List.mem_singleton.mp hx, d.isPool.data] at ht
    cases ht
  have hfromDest : d.burnFrom.key ≠ d.destination.key := by
    intro heq
    rw [heq, htw] at ht
    cases ht
    exact htwmint htmint
  have hfromReserve : d.burnFrom.key ≠ d.p.reserveStake := by
    intro heq
    rw [heq, hreserve] at ht
    cases ht
  refine ⟨d.quote, d.fee, t, t', hfee, d.quote_eq, ?_, ht, ?_, htowner, htowner', ?_, hfromDest,
    ((honly.mono ?_).trans (hpaid.mono ?_)).trans (hwrite.mono ?_)⟩
  · rw [hwrite _ (hpool htw), hcredit, hdest]
    rfl
  · rw [hwrite _ (hpool ht), hpaid _ (by simp [hfromDest, hfromReserve])]
    exact ht'
  · obtain ⟨hquote, hsum, -⟩ := quoteWithdrawal_eq_ok d.quote_eq
    omega
  all_goals simp

/-- A session withdrawal is confined to the user. -/
theorem WithdrawWsolRun.confined (hp : PoolAt rt w r.pool.key p) (hmint : p.poolMint ≠ rt.nativeMintId) :
    WithdrawConfined rt r.user accounts poolTokens p w w' := by
  obtain ⟨hcreated, tw, htw, htwowner, htwmint⟩ := r.created_eq laws tokens
  obtain ⟨hwsol, -⟩ := r.userWsol_key
  obtain ⟨d, hpool, hauthority, hfrom, -, hdest, -, -, -⟩ := r.inner
  have huser := ((checkSessionUser_eq_ok rt sv).mp r.isUser).2.2.2.1
  have hpeq : d.p = p := by
    have hisPool := d.isPool
    rw [hpool] at hisPool
    have hp' : PoolAt rt r.created r.pool.key p := by
      rw [hcreated]
      exact hp
    exact hisPool.unique hp'
  obtain ⟨quote, fee, t, t', hfee, hquote, hcredit, ht, ht', htowner, htowner', hamount, hne, honly⟩ :=
    d.session_data tokens stakes sessions rfl (by rw [hauthority]; exact huser)
      (by rw [hdest, hwsol, hcreated]; exact htw) (by rw [hpeq, htwmint]; exact hmint.symm)
  rw [hpeq, hfrom, hcreated] at hfee
  rw [hpeq] at hquote
  rw [hdest, hwsol, hcreated] at hcredit
  rw [hfrom, hcreated] at ht
  rw [hfrom] at ht'
  rw [hfrom, hdest, hwsol] at hne
  rw [hpeq, hpool, hfrom, hdest, hwsol, hcreated] at honly
  -- Finally the wrapped-SOL account is synced with its lamports.
  have hsynced := OnlyAt.of_invoke₁ r.sync
  obtain ⟨a, hsync, -, hlamports, hset⟩ := invoke₁_eq_ok.mp r.sync
  rw [hwsol] at hsync hlamports hset hsynced
  have hlast : w' (wsolOf rt r.user) = a := by
    rw [congrFun hset, Ledger.set_same]
  obtain ⟨tn, n, htn, htn'⟩ := tokens.sync _ _ hsync
  rw [hcredit] at htn hlamports
  refine ⟨⟨r.burnFrom, t, t', r.burnFrom_at, ht, ?_, htowner, htowner', hamount⟩,
    ⟨r.burnFrom, fee, quote, r.burnFrom_at, hfee, hquote, ?_, ?_⟩, ?_⟩
  · rw [hsynced _ (by simpa using hne)]
    exact ht'
  · rw [hlast]
    exact hlamports
  · refine ⟨_, (congrArg Account.data hlast).trans htn', ?_⟩
    have hdata : (w (wsolOf rt r.user)).data = .token tn := htn
    rw [htw] at hdata
    cases hdata
    exact htwowner
  · have hpool : r.pool.key ∈ keysAt accounts [0, 3] := mem_keysAt r.pool_at (by simp)
    have hfrom : r.burnFrom.key ∈ keysAt accounts [0, 3] := mem_keysAt r.burnFrom_at (by simp)
    refine (honly.mono ?_).trans (hsynced.mono ?_) <;> simp [List.subset_def, hpool, hfrom]

end Withdraw

/-! ## Confinement -/

/-- For every successful session instruction on a pool, with any accounts and amount: a withdrawal
gives the user what it takes from them; a deposit does so exactly if the account it mints to, in
position 3, is a token account of the user. -/
theorem session_confinement (laws : ProgramLaws rt) (tokens : TokenLaws rt) (system : SystemLaws rt)
    (stakes : StakeLaws rt) (sessions : SessionLaws rt) {accounts : List AccountMeta} {a : AccountMeta}
    {p : StakePool} {user : Pubkey} {s s' : World} (ha : accounts[0]? = some a)
    (hs : SessionPool rt s.ledger a.key p user) :
    (∀ lamports session destination, accounts[9]? = some session → accounts[3]? = some destination →
      rt.extractUser s.sysvars session (s.ledger session.key) = .ok user →
      Executes rt accounts (.depositWsolWithSession lamports) s s' →
      (DepositConfined rt user accounts lamports.toNat p s.ledger s'.ledger ↔
        HoldsFor s.ledger destination.key user)) ∧
    ∀ poolTokens session, accounts[2]? = some session →
      rt.extractUser s.sysvars session (s.ledger session.key) = .ok user →
      Executes rt accounts (.withdrawWsolWithSession poolTokens) s s' →
      WithdrawConfined rt user accounts poolTokens.toNat p s.ledger s'.ledger := by
  refine ⟨fun lamports session destination hsession hdestination huser h => ?_,
    fun poolTokens session hsession huser h => ?_⟩
  · obtain ⟨r⟩ := processDepositWsolWithSession_run rt _ h.run
    obtain rfl := Option.some.inj (ha.symm.trans r.pool_at)
    obtain rfl := Option.some.inj (hsession.symm.trans r.session_at)
    obtain rfl := Option.some.inj (hdestination.symm.trans r.poolTokensTo_at)
    obtain rfl := Except.ok.inj (huser.symm.trans r.extracted)
    exact r.confined_iff laws tokens system sessions hs
  · obtain ⟨r⟩ := processWithdrawWsolWithSession_run rt _ h.run
    obtain rfl := Option.some.inj (ha.symm.trans r.pool_at)
    obtain rfl := Option.some.inj (hsession.symm.trans r.session_at)
    obtain rfl := Except.ok.inj
      (huser.symm.trans ((checkSessionUser_eq_ok rt _).mp r.isUser).2.2.2.1)
    exact r.confined laws tokens stakes sessions hs.pool hs.mint

/-! ## Sessions on the reference chain -/

namespace Reference

theorem mayMove_session {owner authority cosigner : Pubkey}
    (h : mayMove owner authority (some cosigner) ≠ false) :
    (sessionUser authority).getD authority = owner := by
  rw [mayMove, ne_eq, Bool.not_eq_false, decide_eq_true_eq] at h
  exact h.2

theorem extractUser_eq_ok {sv : Sysvars} {info : AccountMeta} {account : Account} {user : Pubkey}
    (h : runtime.extractUser sv info account = .ok user) :
    (sessionUser info.key).getD info.key = user := by
  change extractUser sv info account = _ at h
  simp only [extractUser, bind_eq_ok, exists_unit, pure_eq_ok] at h
  exact h.2

theorem sessionLaws : SessionLaws runtime where
  transfer sv session account user mintKey amount decimals mint source destination r huser h := by
    change transferChecked mintKey session.key _ amount decimals mint source destination = _ at h
    simp only [transferChecked, bind_eq_ok, failIf_eq_ok, exists_unit] at h
    obtain ⟨_, -, t, ht, _, -, -, hmove, -⟩ := h
    exact ⟨t, (openToken_eq_ok ht).1, (mayMove_session hmove).symm.trans (extractUser_eq_ok huser)⟩
  burn sv session account user mintKey amount source mint r huser h := by
    change burn mintKey session.key _ amount source mint = _ at h
    simp only [burn, bind_eq_ok, failIf_eq_ok, exists_unit] at h
    obtain ⟨_, -, t, ht, hmove, -⟩ := h
    exact ⟨t, (openToken_eq_ok ht).1, (mayMove_session hmove).symm.trans (extractUser_eq_ok huser)⟩

/-- A wallet with an open session, and a stranger's account for pool tokens next to its own. -/
def wallet : Pubkey := key 90
def sessionKey : Pubkey := key 91
def payer : Pubkey := key 92
def ownTokens : Pubkey := key 93
def strangersTokens : Pubkey := key 94
def stranger : Pubkey := key 95

/-- The founded pool, and a wallet with three SOL wrapped and two pool tokens. -/
def inSession : World where
  sysvars := founded.sysvars
  ledger := (((((founded.ledger.set payer ⟨10000000000, systemProgramId, 0, .zeroed⟩).set ownTokens
    (tokenAccount wallet 2000000000)).set strangersTokens (tokenAccount stranger 0)).set nativeMintId
    ⟨minimumBalance 82, splTokenId, 82, .mint ⟨none, 0, 9, none, []⟩⟩).set (wsolOf runtime wallet)
    ⟨minimumBalance 165 + 3000000000, splTokenId, 165,
      .token ⟨nativeMintId, wallet, 3000000000, .initialized, []⟩⟩)

def sessionDepositAccounts (destination : Pubkey) : List AccountMeta :=
  [writes pool, reads withdrawAuthority, writes reserve, writes destination, writes managerFee,
    writes managerFee, writes mint, reads systemProgramId, reads splTokenId, signs sessionKey,
    reads nativeMintId, signs payer, writes (wsolOf runtime wallet),
    writes (findTransientWsolAddress runtime wallet).1, writes programSigner]

def sessionWithdrawAccounts : List AccountMeta :=
  [writes pool, reads withdrawAuthority, signs sessionKey, writes ownTokens, writes reserve,
    writes (wsolOf runtime wallet), writes managerFee, writes mint, reads runtime.clockId,
    reads runtime.stakeHistoryId, reads stakeProgramId, reads splTokenId, reads nativeMintId,
    signs payer, reads wallet, reads systemProgramId, writes programSigner,
    reads associatedTokenProgramId]

/-- One SOL deposited with the session key for the owner of `destination`. -/
def sessionDeposited (destination : Pubkey) : World :=
  inSession.execute runtime (sessionDepositAccounts destination) (.depositWsolWithSession 1000000000)

def sessionWithdrawn : World :=
  inSession.execute runtime sessionWithdrawAccounts (.withdrawWsolWithSession 1000000000)

theorem inSession_checks :
    ((loadStakePool runtime inSession.ledger pool).toOption.map (·.poolMint) = some mint ∧
      wsolOf runtime wallet ≠ (findTransientWsolAddress runtime wallet).1) ∧
    (succeeded (processInstruction runtime inSession.sysvars (sessionDepositAccounts ownTokens)
        (.depositWsolWithSession 1000000000) inSession.ledger) = true ∧
      succeeded (processInstruction runtime inSession.sysvars sessionWithdrawAccounts
        (.withdrawWsolWithSession 1000000000) inSession.ledger) = true ∧
      (inSession.ledger ownTokens).data = .token ⟨mint, wallet, 2000000000, .initialized, []⟩) ∧
    succeeded (processInstruction runtime inSession.sysvars (sessionDepositAccounts strangersTokens)
        (.depositWsolWithSession 1000000000) inSession.ledger) = true ∧
      ((sessionDeposited strangersTokens).ledger strangersTokens).data =
        .token ⟨mint, stranger, 1000000000, .initialized, []⟩ ∧
      (inSession.ledger strangersTokens).data = .token ⟨mint, stranger, 0, .initialized, []⟩ := by
  decide +kernel

theorem inSession_pool : ∃ p, SessionPool runtime inSession.ledger pool p wallet := by
  obtain ⟨⟨hload, hdistinct⟩, -⟩ := inSession_checks
  obtain ⟨p, hp, hmint⟩ : ∃ p, PoolAt runtime inSession.ledger pool p ∧ p.poolMint = mint :=
    PoolAt.of_load _ hload
  exact ⟨p, hp, by rw [hmint]; decide, hdistinct⟩

end Reference

open Reference in
/-- With the wallet's own token account both instructions are confined to the wallet. -/
theorem session_confinement_own : ∃ p, SessionPool runtime inSession.ledger pool p wallet ∧
    DepositConfined runtime wallet (sessionDepositAccounts ownTokens) 1000000000 p inSession.ledger
      (sessionDeposited ownTokens).ledger ∧
    WithdrawConfined runtime wallet sessionWithdrawAccounts 1000000000 p inSession.ledger
      sessionWithdrawn.ledger := by
  obtain ⟨p, hs⟩ := inSession_pool
  obtain ⟨-, ⟨hdeposits, hwithdraws, hown⟩, -⟩ := inSession_checks
  have hin : Executes runtime (sessionDepositAccounts ownTokens) (.depositWsolWithSession 1000000000)
      inSession (sessionDeposited ownTokens) := .of_succeeded hdeposits
  have hout : Executes runtime sessionWithdrawAccounts (.withdrawWsolWithSession 1000000000) inSession
      sessionWithdrawn := .of_succeeded hwithdraws
  have hpool : (sessionDepositAccounts ownTokens)[0]? = some (writes pool) := rfl
  have hpool' : sessionWithdrawAccounts[0]? = some (writes pool) := rfl
  have hdeposit := (session_confinement programLaws tokenLaws systemLaws stakeLaws sessionLaws hpool
    hs).1 _ (signs sessionKey) (writes ownTokens) rfl rfl rfl hin
  have hwithdraw := (session_confinement programLaws tokenLaws systemLaws stakeLaws sessionLaws hpool'
    hs).2 _ (signs sessionKey) rfl rfl hout
  exact ⟨p, hs, hdeposit.mpr ⟨⟨mint, wallet, 2000000000, .initialized, []⟩, hown, rfl⟩,
    hwithdraw⟩

open Reference in
/-- The session key deposits the wallet's SOL and the tokens go to a stranger. -/
theorem session_deposit_to_stranger : ∃ p, SessionPool runtime inSession.ledger pool p wallet ∧
    runtime.extractUser inSession.sysvars (signs sessionKey) (inSession.ledger sessionKey) =
      .ok wallet ∧
    Executes runtime (sessionDepositAccounts strangersTokens) (.depositWsolWithSession 1000000000)
      inSession (sessionDeposited strangersTokens) ∧
    ((sessionDeposited strangersTokens).ledger strangersTokens).data =
      .token ⟨mint, stranger, 1000000000, .initialized, []⟩ ∧
    ¬ DepositConfined runtime wallet (sessionDepositAccounts strangersTokens) 1000000000 p
      inSession.ledger (sessionDeposited strangersTokens).ledger := by
  obtain ⟨p, hs⟩ := inSession_pool
  obtain ⟨-, -, hdeposits, hminted, hdata⟩ := inSession_checks
  refine ⟨p, hs, rfl, .of_succeeded hdeposits, hminted, fun hconfined => ?_⟩
  obtain ⟨_, destination, t, _, -, hat, ht, -, -, howner⟩ := hconfined.minted
  obtain rfl : writes strangersTokens = destination := Option.some.inj hat
  rw [show (writes strangersTokens).key = strangersTokens from rfl, hdata] at ht
  cases ht
  exact absurd howner (by decide)

end StakePoolFogo
