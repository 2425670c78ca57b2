import StakePoolFogo.Slippage

/-!
# Where the lamports of a session deposit go

`DepositWsolWithSession` advances the rent of a transient account, unwraps the user's lamports through
it and the program signer, and refunds the rent it computes anew.  Every step moves a known amount
between two of its accounts, whichever they are.
-/

open StakePoolFogo.Outcome

namespace StakePoolFogo

variable {rt : Runtime} {sv : Sysvars} {w w' w'' : Ledger} {j k x : Pubkey} {n : Nat}

/-- `n` lamports have gone from `j` to `k`, which may be the same account. -/
def Paid (j k : Pubkey) (n : Nat) (w w' : Ledger) : Prop :=
  ∀ x, (w' x).lamports + (if x = j then n else 0) = (w x).lamports + (if x = k then n else 0)

theorem Paid.of_invoke₂ {callees : List Pubkey}
    {f : Account → Account → Except ProgramError (Account × Account)}
    (hf : ∀ a b, f (w j) (w k) = .ok (a, b) →
      a.lamports + n = (w j).lamports ∧ b.lamports = (w k).lamports + n)
    (h : invoke₂ callees j k f w = .ok w') : Paid j k n w w' := by
  obtain ⟨hne, honly, hcall⟩ := invoke₂_spec h
  obtain ⟨hj, hk⟩ := hf _ _ hcall
  intro x
  by_cases hxj : x = j
  · subst hxj
    rw [if_pos rfl, if_neg hne]
    exact hj
  · rw [if_neg hxj]
    by_cases hxk : x = k
    · subst hxk
      rw [if_pos rfl]
      exact hk
    · rw [if_neg hxk, honly x (by simp [hxj, hxk])]

theorem Paid.of_invokeMove {callees : List Pubkey}
    {f : Account → Account → Except ProgramError (Account × Account)}
    (hf : ∀ a b, f (w j) (w k) = .ok (a, b) →
      a.lamports + n = (w j).lamports ∧ b.lamports = (w k).lamports + n)
    (h : invokeMove callees j k f w = .ok w') : Paid j k n w w' := by
  rcases ite_eq_ok.mp h with ⟨rfl, h⟩ | ⟨-, h⟩
  · simp only [bind_eq_ok, pure_eq_ok] at h
    obtain ⟨_, -, rfl⟩ := h
    exact fun _ => rfl
  · exact .of_invoke₂ hf h

theorem Paid.same (h : Paid j k n w w') (hsame : SameLamports w' w'') : Paid j k n w w'' := by
  intro x
  rw [hsame x]
  exact h x

theorem programSignerTransfer_paid (system : SystemLaws rt) {signer : AccountMeta} {bump : UInt8}
    (h : programSignerTransfer rt signer bump k n w = .ok w') : Paid signer.key k n w w' := by
  simp only [programSignerTransfer, bind_eq_ok, exists_unit] at h
  obtain ⟨_, -, -, h⟩ := h
  refine .of_invokeMove (fun a b hf => ?_) h
  obtain ⟨-, hle, rfl, rfl⟩ := system.transfer _ _ _ _ _ hf
  exact ⟨Nat.sub_add_cancel hle, rfl⟩

theorem mintShares_lamports (weights : WeightLaws rt)
    {pool tokenProgram mint user manager referrer : Pubkey} {authority : AccountMeta} {bump : UInt8}
    {shares : DepositShares} (h : mintShares rt pool tokenProgram mint user manager referrer authority
      bump shares w = .ok w') : mint ≠ rt.nativeMintId ∧ SameLamports w w' := by
  have hone : ∀ {u u' : Ledger} {destination : Pubkey} {amount : Nat},
      tokenMintTo rt pool tokenProgram mint destination authority bump amount u = .ok u' →
      mint ≠ rt.nativeMintId ∧ SameLamports u u' := by
    intro u u' destination amount h
    simp only [tokenMintTo, bind_eq_ok, exists_unit] at h
    obtain ⟨-, -, hcall⟩ := invoke₂_spec h.2.2
    exact ⟨(weights.mintTo _ _ _ _ _ _ _ hcall).1,
      .of_invoke₂ (fun _ _ _ _ hf => (weights.mintTo _ _ _ _ _ _ _ hf).2) h.2.2⟩
  simp only [mintShares, bind_eq_ok] at h
  obtain ⟨w₁, h1, w₂, h2, h3⟩ := h
  exact ⟨(hone h1).1, ((hone h1).2.trans (onlyIf_rel SameLamports.refl (fun _ hu => (hone hu).2) h2)).trans
    (onlyIf_rel SameLamports.refl (fun _ hu => (hone hu).2) h3)⟩

/-- Minting passes token accounts of other mints by. -/
theorem mintShares_other (tokens : TokenLaws rt)
    {pool tokenProgram mint user manager referrer : Pubkey} {authority : AccountMeta} {bump : UInt8}
    {shares : DepositShares} {t : TokenAccount} (ht : (w x).data = .token t) (hmint : t.mint ≠ mint)
    (h : mintShares rt pool tokenProgram mint user manager referrer authority bump shares w = .ok w') :
    w' x = w x := by
  have hone : ∀ {u u' : Ledger} {destination : Pubkey} {amount : Nat}, (u x).data = .token t →
      tokenMintTo rt pool tokenProgram mint destination authority bump amount u = .ok u' →
      u' x = u x := by
    intro u u' destination amount hu h
    simp only [tokenMintTo, bind_eq_ok, exists_unit] at h
    obtain ⟨-, honly, hcall⟩ := invoke₂_spec h.2.2
    obtain ⟨_, v, hm, -, hv, hvmint, -⟩ := tokens.mintTo _ _ _ _ _ _ _ hcall
    refine honly x fun hin => ?_
    rcases List.mem_pair.mp hin with rfl | rfl
    · rw [hu] at hm
      cases hm
    · rw [hu] at hv
      cases hv
      exact hmint hvmint
  have honly : ∀ {u u' : Ledger} {destination : Pubkey} {amount : Nat} {c : Prop} [Decidable c],
      (u x).data = .token t → onlyIf c (tokenMintTo rt pool tokenProgram mint destination authority bump
        amount) u = .ok u' → u' x = u x := by
    intro u u' destination amount c _ hu h
    rcases onlyIf_eq_ok.mp h with ⟨-, h⟩ | ⟨-, rfl⟩
    · exact hone hu h
    · rfl
  simp only [mintShares, bind_eq_ok] at h
  obtain ⟨w₁, h1, w₂, h2, h3⟩ := h
  have hfirst := hone ht h1
  have hsecond := honly (hfirst ▸ ht) h2
  rw [honly (hsecond ▸ hfirst ▸ ht) h3, hsecond, hfirst]

/-! ## The transient account -/

/-- The rent still missing on an account of `space` bytes that holds `prior` lamports. -/
def missingRent (sv : Sysvars) (space prior : Nat) : Nat := sv.minimumBalance space - prior

/-- What every account gains and loses by its roles in a session deposit of `lamports`, where the
transient account held `prior` before. -/
def SessionBalances (userWsol transientWsol feePayer reserve : Pubkey) (lamports prior : Nat)
    (w w' : Ledger) : Prop :=
  ∀ x, (w' x).lamports + (if x = userWsol then lamports else 0) +
      (if x = transientWsol then prior else 0) =
    (w x).lamports + (if x = reserve then lamports else 0) + (if x = feePayer then prior else 0)

section Steps

variable (wrapped : WrappedSolLaws rt sv) {user tokenProgram programSigner userWsol reserve : Pubkey}
  {session feePayer transientWsol signer : AccountMeta} {bump : UInt8} {lamports : Nat}

include wrapped

/-- The transient account holds its rent exemption or what it held, and counts the difference. -/
theorem createTransientWsol_paid (h : createTransientWsol rt sv user rt.nativeMintId tokenProgram
      programSigner feePayer transientWsol w = .ok w') :
    Paid feePayer.key transientWsol.key
        (missingRent sv tokenAccountLen (w transientWsol.key).lamports) w w' ∧
      (w transientWsol.key).owner = rt.systemProgramId ∧
      (w' transientWsol.key).lamports = (w transientWsol.key).lamports +
        missingRent sv tokenAccountLen (w transientWsol.key).lamports ∧
      ∃ t, (w' transientWsol.key).data = .token t ∧
        t.amount = (w transientWsol.key).lamports - sv.minimumBalance tokenAccountLen := by
  simp only [createTransientWsol, bind_eq_ok, exists_unit, checkSplToken_eq_ok] at h
  obtain ⟨-, _, -, -, w₁, hpda, htoken, hinit⟩ := h
  have hsame := SameLamports.of_invoke₁ hinit
  obtain ⟨-, hcall, -⟩ := invoke₁_spec hinit
  obtain ⟨t, hinitialized, hamount⟩ := wrapped.initialize_native _ _ _ _ hcall
  -- Whoever pays, the account ends up with at least its rent exemption.
  have hcreated : Paid feePayer.key transientWsol.key
        (missingRent sv tokenAccountLen (w transientWsol.key).lamports) w w₁ ∧
      (w transientWsol.key).owner = rt.systemProgramId ∧
      (w₁ transientWsol.key).dataLen = tokenAccountLen ∧ (w₁ transientWsol.key).lamports =
        (w transientWsol.key).lamports + missingRent sv tokenAccountLen (w transientWsol.key).lamports := by
    rcases ite_eq_ok.mp hpda with ⟨heq, hself⟩ | ⟨-, hpaid⟩
    · obtain ⟨honly, hcall, hkept⟩ := invoke₁_spec hself
      rw [map_eq_ok] at hcall
      obtain ⟨⟨payer', account'⟩, hcall, haccount⟩ := hcall
      obtain ⟨howner, -, -, -, rfl⟩ := wrapped.create _ _ _ _ _ _ _ hcall
      refine ⟨fun x => ?_, howner, ?_, ?_⟩
      · rw [heq, SameLamports.of_invoke₁ hself x]
      · rw [← haccount]
      · rw [← haccount]
        rfl
    · obtain ⟨-, -, hcall⟩ := invoke₂_spec hpaid
      obtain ⟨howner, hle, -, hpayer, haccount⟩ := wrapped.create _ _ _ _ _ _ _ hcall
      refine ⟨.of_invoke₂ (fun a b hf => ?_) hpaid, howner, ?_, ?_⟩
      · obtain ⟨-, -, -, rfl, rfl⟩ := wrapped.create _ _ _ _ _ _ _ hf
        exact ⟨Nat.sub_add_cancel hle, rfl⟩
      · rw [haccount]
      · rw [haccount]
        rfl
  obtain ⟨hpaid, howner, hlen, hlamports⟩ := hcreated
  refine ⟨hpaid.same hsame, howner, (hsame _).trans hlamports, t, ?_, ?_⟩
  · rw [hinitialized]
  · rw [hamount, hlen, hlamports, missingRent]
    omega

/-- Unwrapping insists on a balance of exactly `lamports`, so the transient account counted nothing
before; closing it sends all it holds to the program signer, which pays the rent and the deposit on. -/
theorem unwrapIntoReserve_paid (system : SystemLaws rt) {t : TokenAccount}
    (ht : (w transientWsol.key).data = .token t) (hne : userWsol ≠ transientWsol.key)
    (h : unwrapIntoReserve rt sv tokenProgram userWsol rt.nativeMintId session feePayer transientWsol
      signer bump reserve lamports w = .ok w') :
    t.amount = 0 ∧ transientWsol.key ≠ signer.key ∧ ∃ w₁ w₂ w₃,
      Paid userWsol transientWsol.key lamports w w₁ ∧
      Paid transientWsol.key signer.key (w₁ transientWsol.key).lamports w₁ w₂ ∧
      Paid signer.key feePayer.key (sv.minimumBalance tokenAccountLen) w₂ w₃ ∧
      Paid signer.key reserve lamports w₃ w' := by
  simp only [unwrapIntoReserve, bind_eq_ok, exists_unit, failIf_eq_ok, Decidable.not_not] at h
  obtain ⟨-, w₁, htransfer, balance, hbalance, hexact, -, w₂, hclose, w₃, hrefund, hforward⟩ := h
  obtain ⟨hsigner, -, -⟩ := invoke₂_spec hclose
  refine ⟨?_, hsigner, w₁, w₂, w₃, .of_invokeMove (fun a b hf => ?_) htransfer,
    .of_invoke₂ (fun a b hf => ?_) hclose, programSignerTransfer_paid system hrefund,
    programSignerTransfer_paid system hforward⟩
  · rcases ite_eq_ok.mp htransfer with ⟨heq, -⟩ | ⟨-, hmove⟩
    · exact absurd heq hne
    · obtain ⟨-, -, hcall⟩ := invoke₂_spec hmove
      have hu' := (wrapped.transfer_native _ _ _ _ _ _ _ _ _ hcall).2.2 _ ht
      have hdata := Account.unpackToken_data hbalance
      rw [hu', AccountData.token.injEq] at hdata
      rw [← hdata] at hexact
      have hsum : t.amount + lamports = lamports := hexact
      omega
  · obtain ⟨hless, hmore, -⟩ := wrapped.transfer_native _ _ _ _ _ _ _ _ _ hf
    exact ⟨hless, hmore⟩
  · obtain ⟨rfl, rfl⟩ := wrapped.close_all _ _ _ _ _ hf
    exact ⟨Nat.zero_add _, rfl⟩

/-- Once the lamports are in the reserve, every account has gained and lost what its roles say, and the fee
payer has what the transient account held before. -/
theorem unwrapped_balances (system : SystemLaws rt) (hne : userWsol ≠ transientWsol.key)
    (hcreate : createTransientWsol rt sv user rt.nativeMintId tokenProgram programSigner feePayer
      transientWsol w = .ok w')
    (hunwrap : unwrapIntoReserve rt sv tokenProgram userWsol rt.nativeMintId session feePayer transientWsol
      signer bump reserve lamports w' = .ok w'') :
    (w transientWsol.key).lamports ≤ sv.minimumBalance tokenAccountLen ∧
      SessionBalances userWsol transientWsol.key feePayer.key reserve lamports
        (w transientWsol.key).lamports w w'' := by
  obtain ⟨hadvance, -, hfunded, t, ht, hamount⟩ := createTransientWsol_paid wrapped hcreate
  obtain ⟨hzero, hsigner, w₁, w₂, w₃, htaken, hclosed, hrefund, hforward⟩ :=
    unwrapIntoReserve_paid wrapped system ht hne hunwrap
  refine ⟨by omega, fun x => ?_⟩
  -- What the transient account holds when it is closed.
  have hheld := htaken transientWsol.key
  rw [if_pos rfl, if_neg hne.symm] at hheld
  unfold missingRent at hfunded
  have hfirst := hadvance x
  have hsecond := htaken x
  have hthird := hclosed x
  have hfourth := hrefund x
  have hfifth := hforward x
  unfold missingRent at hfirst
  by_cases hx : x = transientWsol.key
  · subst hx
    rw [if_neg hsigner] at hthird hfourth hfifth
    rw [if_neg hne.symm] at hsecond ⊢
    rw [if_pos rfl] at hfirst hsecond hthird ⊢
    by_cases hpayer : transientWsol.key = feePayer.key
    · rw [if_pos hpayer] at hfirst hfourth ⊢
      omega
    · rw [if_neg hpayer] at hfirst hfourth ⊢
      omega
  · rw [if_neg hx] at hfirst hsecond hthird ⊢
    by_cases hpayer : x = feePayer.key
    · rw [if_pos hpayer] at hfirst hfourth ⊢
      by_cases hs : x = signer.key
      · rw [if_pos hs] at hthird hfourth hfifth
        omega
      · rw [if_neg hs] at hthird hfourth hfifth
        omega
    · rw [if_neg hpayer] at hfirst hfourth ⊢
      by_cases hs : x = signer.key
      · rw [if_pos hs] at hthird hfourth hfifth
        omega
      · rw [if_neg hs] at hthird hfourth hfifth
        omega

end Steps

/-! ## The whole deposit -/

section Deposit

variable (laws : ProgramLaws rt) (tokens : TokenLaws rt) (weights : WeightLaws rt)
  (system : SystemLaws rt) (wrapped : WrappedSolLaws rt sv) {accounts : List AccountMeta} {lamports : Nat}
  (r : DepositWsolRun rt sv accounts lamports w w')

include laws wrapped

/-- The user's account is a token account, the transient address was nobody's. -/
theorem DepositWsolRun.distinct : wsolOf rt r.user ≠ (findTransientWsolAddress rt r.user).1 ∧
    (w r.transientWsol.key).owner = rt.systemProgramId := by
  obtain ⟨-, -, howner, -, -⟩ := (checkSessionUser_eq_ok rt sv).mp r.isUser
  have hcreate := r.create
  rw [r.userWsol_key.2] at hcreate
  obtain ⟨-, hsystem, -, -⟩ := createTransientWsol_paid wrapped hcreate
  have htoken : rt.isTokenProgram r.tokenProgram.key := by
    simp only [createTransientWsol, bind_eq_ok, exists_unit, checkSplToken_eq_ok] at hcreate
    obtain ⟨-, _, -, -, _, -, htoken, -⟩ := hcreate
    exact Or.inl htoken
  refine ⟨fun heq => ?_, hsystem⟩
  rw [← r.transient_key, ← r.userWsol_key.1] at heq
  rw [← heq, howner] at hsystem
  exact laws.token_ne_system _ htoken hsystem

include tokens weights system

omit tokens in
/-- The exact balance check passes only if the transient address held at most the rent exemption, and
then the refund returns what the fee payer advanced and what was there already. -/
theorem DepositWsolRun.balances :
    (w r.transientWsol.key).lamports ≤ sv.minimumBalance tokenAccountLen ∧
      SessionBalances r.userWsol.key r.transientWsol.key r.feePayer.key r.reserve.key lamports
        (w r.transientWsol.key).lamports w w' := by
  have hdistinct := (r.distinct laws wrapped).1
  rw [← r.transient_key, ← r.userWsol_key.1] at hdistinct
  have hcreate := r.create
  have hunwrap := r.unwrap
  rw [r.userWsol_key.2] at hcreate hunwrap
  obtain ⟨hprior, hbalances⟩ := unwrapped_balances wrapped system hdistinct hcreate hunwrap
  obtain ⟨inner, -⟩ := r.inner
  have hpaid : inner.paid = r.unwrapped := by
    rcases onlyIf_eq_ok.mp inner.pay with ⟨hfalse, -⟩ | ⟨-, hsame⟩
    · cases hfalse
    · exact hsame.symm
  have hlast : SameLamports r.unwrapped w' := by
    have hminted := (mintShares_lamports weights inner.mintTokens).2
    rw [hpaid] at hminted
    exact hminted.trans (.of_writeStakePool inner.result)
  refine ⟨hprior, fun x => ?_⟩
  rw [hlast x]
  exact hbalances x

/-- The user's wrapped SOL pays, and the pool books what it got. -/
theorem DepositWsolRun.booked :
    (∃ t, (w r.userWsol.key).data = .token t ∧ lamports ≤ t.amount ∧
      (w' r.userWsol.key).data = .token { t with amount := t.amount - lamports }) ∧
    ∃ p p', PoolAt rt w r.pool.key p ∧ PoolAt rt w' r.pool.key p' ∧ p.reserveStake = r.reserve.key ∧
      p'.totalLamports = p.totalLamports + lamports := by
  have hdistinct := (r.distinct laws wrapped).1
  obtain ⟨inner, hpool, hreserve, -, -, -, -, -⟩ := r.inner
  have hpaid : inner.paid = r.unwrapped := by
    rcases onlyIf_eq_ok.mp inner.pay with ⟨hfalse, -⟩ | ⟨-, hsame⟩
    · cases hfalse
    · exact hsame.symm
  have hmint := (mintShares_lamports weights inner.mintTokens).1
  have hisPool := inner.isPool
  rw [hpool] at hisPool
  have hp : PoolAt rt w r.pool.key inner.p :=
    (OwnFrame.of_frames laws r.frames).poolAt_before hisPool id
  obtain ⟨hrecord, -, -⟩ := StakePool.recordDeposit_eq_ok.mp inner.record
  have hresult := inner.result
  have hminted := inner.mintTokens
  rw [hpool] at hresult
  rw [hpaid] at hminted
  refine ⟨?_, inner.p, inner.p', hp, ?_, ?_, by rw [hrecord]⟩
  · have hs : SessionPool rt w r.pool.key inner.p r.user :=
      ⟨hp, by rw [← inner.mint_key]; exact hmint, hdistinct⟩
    obtain ⟨⟨t, ht, htmint, hle, ht'⟩, -, -⟩ := r.unwrapped_data tokens system hs
    rw [← r.userWsol_key.1] at ht ht'
    refine ⟨t, ht, hle, ?_⟩
    have hne : r.userWsol.key ≠ r.pool.key := by
      intro heq
      rw [heq, hp.data] at ht
      cases ht
    have hother : t.mint ≠ inner.mint.key := by
      rw [htmint]
      exact hmint.symm
    rw [OnlyAt.of_writeStakePool hresult _ (by simpa using hne),
      mintShares_other tokens ht' hother hminted]
    exact ht'
  · have hvalid : inner.p'.isValid := by
      rw [hrecord]
      exact hp.valid
    have hminted := hisPool.of_frames laws inner.frames
    exact (OwnEffect.of_writeStakePool hminted hresult hvalid).after
  · exact inner.isReserve.symm.trans (congrArg AccountMeta.key hreserve)

end Deposit

/-- For every successful session deposit and all prior balances: each account's lamports change by what
its roles say, the user's wrapped SOL and the pool's total by exactly `lamports`.  If the five accounts
on the way are different accounts, the program signer keeps its balance, the transient address is empty,
the reserve gains `lamports`, and the fee payer gains what the transient address held. -/
theorem session_deposit_conserves (laws : ProgramLaws rt) (tokens : TokenLaws rt)
    (weights : WeightLaws rt) (system : SystemLaws rt) {accounts : List AccountMeta}
    {pool reserve feePayer userWsol transientWsol signer : AccountMeta} {s s' : World}
    (wrapped : WrappedSolLaws rt s.sysvars) (hpool : accounts[0]? = some pool)
    (hreserve : accounts[2]? = some reserve) (hpayer : accounts[11]? = some feePayer)
    (hwsol : accounts[12]? = some userWsol) (htransient : accounts[13]? = some transientWsol)
    (hsigner : accounts[14]? = some signer) {lamports : UInt64}
    (h : Executes rt accounts (.depositWsolWithSession lamports) s s') :
    SessionBalances userWsol.key transientWsol.key feePayer.key reserve.key lamports.toNat
      (s.ledger transientWsol.key).lamports s.ledger s'.ledger ∧
    (∃ t, (s.ledger userWsol.key).data = .token t ∧ lamports.toNat ≤ t.amount ∧
      (s'.ledger userWsol.key).data = .token { t with amount := t.amount - lamports.toNat }) ∧
    (∃ p p', PoolAt rt s.ledger pool.key p ∧ PoolAt rt s'.ledger pool.key p' ∧
      p.reserveStake = reserve.key ∧ p'.totalLamports = p.totalLamports + lamports.toNat) ∧
    signer.key = (programSigner rt).1 ∧
    ([userWsol.key, transientWsol.key, feePayer.key, reserve.key, signer.key].Nodup →
      (s'.ledger signer.key).lamports = (s.ledger signer.key).lamports ∧
      (s'.ledger transientWsol.key).lamports = 0 ∧
      (s'.ledger userWsol.key).lamports + lamports.toNat = (s.ledger userWsol.key).lamports ∧
      (s'.ledger reserve.key).lamports = (s.ledger reserve.key).lamports + lamports.toNat ∧
      (s'.ledger feePayer.key).lamports =
        (s.ledger feePayer.key).lamports + (s.ledger transientWsol.key).lamports) := by
  obtain ⟨r⟩ := processDepositWsolWithSession_run rt _ h.run
  obtain rfl := Option.some.inj (hpool.symm.trans r.pool_at)
  obtain rfl := Option.some.inj (hreserve.symm.trans r.reserve_at)
  obtain rfl := Option.some.inj (hpayer.symm.trans r.feePayer_at)
  obtain rfl := Option.some.inj (hwsol.symm.trans r.userWsol_at)
  obtain rfl := Option.some.inj (htransient.symm.trans r.transientWsol_at)
  obtain rfl := Option.some.inj (hsigner.symm.trans r.signer_at)
  -- The balances are stated for any accounts; the roles of one account add up.
  obtain ⟨-, hbalances⟩ := r.balances laws weights system wrapped
  obtain ⟨hwrapped, hbooked⟩ := r.booked laws tokens weights system wrapped
  refine ⟨hbalances, hwrapped, hbooked, r.isSigner.symm, fun hnodup => ?_⟩
  -- With five accounts, each of them has one role.
  simp only [List.nodup_cons, List.mem_cons, List.not_mem_nil, or_false, not_or] at hnodup
  obtain ⟨⟨hut, huf, hur, hus⟩, ⟨htf, htr, hts⟩, ⟨hfr, hfs⟩, hrs, -⟩ := hnodup
  have hatSigner := hbalances r.signer.key
  have hatTransient := hbalances r.transientWsol.key
  have hatUser := hbalances r.userWsol.key
  have hatReserve := hbalances r.reserve.key
  have hatPayer := hbalances r.feePayer.key
  rw [if_neg (Ne.symm hus), if_neg (Ne.symm hts), if_neg (Ne.symm hrs), if_neg (Ne.symm hfs)] at hatSigner
  rw [if_neg (Ne.symm hut), if_pos rfl, if_neg htr, if_neg htf] at hatTransient
  rw [if_pos rfl, if_neg hut, if_neg hur, if_neg huf] at hatUser
  rw [if_neg (Ne.symm hur), if_neg (Ne.symm htr), if_pos rfl, if_neg (Ne.symm hfr)] at hatReserve
  rw [if_neg (Ne.symm huf), if_neg (Ne.symm htf), if_neg hfr, if_pos rfl] at hatPayer
  exact ⟨by omega, by omega, by omega, by omega, by omega⟩

namespace Reference

def transientWsol : Pubkey := (findTransientWsolAddress runtime wallet).1

/-- Somebody has sent `prior` lamports to the wallet's transient address. -/
def prefunded (prior : Nat) : World where
  sysvars := inSession.sysvars
  ledger := inSession.ledger.set transientWsol ⟨prior, systemProgramId, 0, .zeroed⟩

theorem prefunded_sysvars (prior : Nat) : (prefunded prior).sysvars = sysvars 0 := by
  have hkept : founded.sysvars = genesisWorld.sysvars := founded_executes.sysvars
  simp only [prefunded, inSession, hkept, genesisWorld]

/-- One SOL, with `feePayer` in the place of the fee payer. -/
def prefundedAccounts (feePayer : AccountMeta) : List AccountMeta :=
  (sessionDepositAccounts ownTokens).set 11 feePayer

def prefundedDeposit (prior : Nat) (feePayer : AccountMeta) : World :=
  (prefunded prior).execute runtime (prefundedAccounts feePayer) (.depositWsolWithSession 1000000000)

end Reference

open Reference in
/-- A thousand lamports on the transient address end up with the fee payer. -/
theorem session_deposit_conserves_prefunded :
    ((prefundedDeposit 1000 (signs payer)).ledger Reference.programSigner).lamports =
      ((prefunded 1000).ledger Reference.programSigner).lamports ∧
    ((prefundedDeposit 1000 (signs payer)).ledger transientWsol).lamports = 0 ∧
    ((prefundedDeposit 1000 (signs payer)).ledger payer).lamports =
      ((prefunded 1000).ledger payer).lamports + ((prefunded 1000).ledger transientWsol).lamports := by
  have hrun : Executes runtime (prefundedAccounts (signs payer)) (.depositWsolWithSession 1000000000)
      (prefunded 1000) (prefundedDeposit 1000 (signs payer)) := .of_succeeded (by decide +kernel)
  have hpool : (prefundedAccounts (signs payer))[0]? = some (writes pool) := rfl
  have hreserve : (prefundedAccounts (signs payer))[2]? = some (writes reserve) := rfl
  have hpayer : (prefundedAccounts (signs payer))[11]? = some (signs payer) := rfl
  have hwsol : (prefundedAccounts (signs payer))[12]? = some (writes (wsolOf runtime wallet)) := rfl
  have htransient : (prefundedAccounts (signs payer))[13]? = some (writes transientWsol) := rfl
  have hsigner : (prefundedAccounts (signs payer))[14]? = some (writes Reference.programSigner) := rfl
  have wrapped : WrappedSolLaws runtime (prefunded 1000).sysvars := by
    rw [prefunded_sysvars]
    exact wrappedSolLaws 0
  have hconserves := session_deposit_conserves programLaws tokenLaws weightLaws systemLaws wrapped
    hpool hreserve hpayer hwsol htransient hsigner hrun
  have hdistinct : [wsolOf runtime wallet, transientWsol, payer, reserve, Reference.programSigner].Nodup := by
    decide +kernel
  obtain ⟨hkept, hempty, -, -, hpaid⟩ := hconserves.2.2.2.2 hdistinct
  rw [show (writes Reference.programSigner).key = Reference.programSigner from rfl] at hkept
  rw [show (writes transientWsol).key = transientWsol from rfl] at hempty hpaid
  rw [show (signs payer).key = payer from rfl] at hpaid
  exact ⟨hkept, hempty, hpaid⟩

open Reference in
/-- The transient address holds exactly its rent exemption, so nobody has to advance anything, and the
reserve is passed as the fee payer: it gains the refund on top of the deposit. -/
theorem session_deposit_refunds_reserve :
    Executes runtime (prefundedAccounts (writes reserve)) (.depositWsolWithSession 1000000000)
      (prefunded 2039280) (prefundedDeposit 2039280 (writes reserve)) ∧
    ((prefunded 2039280).ledger transientWsol).lamports = 2039280 ∧
    ((prefundedDeposit 2039280 (writes reserve)).ledger reserve).lamports =
      ((prefunded 2039280).ledger reserve).lamports + 1000000000 + 2039280 ∧
    ((prefundedDeposit 2039280 (writes reserve)).ledger reserve).lamports ≠
      ((prefunded 2039280).ledger reserve).lamports + 1000000000 :=
  ⟨.of_succeeded (by decide +kernel), by decide +kernel, by decide +kernel, by decide +kernel⟩

end StakePoolFogo
