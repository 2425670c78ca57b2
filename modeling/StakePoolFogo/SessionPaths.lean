import StakePoolFogo.Lib.Agree
import StakePoolFogo.Unwrap
import StakePoolFogo.WsolAccount

/-!
# The session instructions beside the SOL instructions

`DepositWsolWithSession` and `WithdrawWsolWithSession` run the handlers of `DepositSol` and `WithdrawSol` on a
list of accounts of their own making.  Where their wrapped-SOL side goes well, they agree with the plain
instructions on the pool.
-/

open StakePoolFogo.Outcome

namespace StakePoolFogo

/-! ## Ledgers that differ in lamports -/

/-- The same account but for its lamports. -/
structure Account.SameRecord (a b : Account) : Prop where
  owner : b.owner = a.owner
  dataLen : b.dataLen = a.dataLen
  data : b.data = a.data

namespace Account.SameRecord

variable {a b c : Account}

theorem refl (a : Account) : a.SameRecord a := ⟨rfl, rfl, rfl⟩

theorem symm (h : a.SameRecord b) : b.SameRecord a := ⟨h.owner.symm, h.dataLen.symm, h.data.symm⟩

theorem trans (h : a.SameRecord b) (h' : b.SameRecord c) : a.SameRecord c :=
  ⟨h'.owner.trans h.owner, h'.dataLen.trans h.dataLen, h'.data.trans h.data⟩

end Account.SameRecord

/-- The account holds wrapped SOL. -/
def WrappedAt (rt : Runtime) (x : Pubkey) (w : Ledger) : Prop :=
  ∃ t, (w x).data = .token t ∧ t.mint = rt.nativeMintId

/-- The ledgers differ in lamports and in what is in the wrapped-SOL account `x`. -/
structure Twin (rt : Runtime) (x : Pubkey) (u v : Ledger) : Prop where
  alike : ∀ j, j ≠ x → (u j).SameRecord (v j)
  left : WrappedAt rt x u
  right : WrappedAt rt x v

/-- What the programs on the way look at besides what the other laws say: minting looks at data and owners
and resizes nothing, and an account is created only where there are no bytes. -/
structure RecordLaws (rt : Runtime) : Prop where
  mintTo : ∀ mintKey authority amount mint destination mint₁ destination₁ r, mint.SameRecord mint₁ →
    destination.SameRecord destination₁ → rt.token.mintTo mintKey authority amount mint destination = .ok r →
    ∃ r₁, rt.token.mintTo mintKey authority amount mint₁ destination₁ = .ok r₁
  mintTo_size : ∀ mintKey authority amount mint destination mint' destination',
    rt.token.mintTo mintKey authority amount mint destination = .ok (mint', destination') →
    mint'.dataLen = mint.dataLen ∧ destination'.dataLen = destination.dataLen
  create : ∀ sv space owner payerSigned payer account r,
    rt.createPdaAccount sv space owner payerSigned payer account = .ok r → account.dataLen = 0

variable {rt : Runtime} {sv : Sysvars} {x j k : Pubkey} {u v u' v' w w' : Ledger}

section Twin

theorem Twin.symm (h : Twin rt x u v) : Twin rt x v u :=
  ⟨fun j hj => (h.alike j hj).symm, h.right, h.left⟩

theorem Twin.trans (h : Twin rt x u v) (h' : Twin rt x v w) : Twin rt x u w :=
  ⟨fun j hj => (h.alike j hj).trans (h'.alike j hj), h.left, h'.right⟩

/-- Writing twins to the same place. -/
theorem Twin.set (h : Twin rt x u v) {a b : Account} (hj : j ≠ x) (hab : a.SameRecord b) :
    Twin rt x (u.set j a) (v.set j b) := by
  have hx : ∀ {w : Ledger} {c : Account}, (w.set j c) x = w x := fun {w c} => Ledger.set_other _ _ (Ne.symm hj)
  refine ⟨fun i hi => ?_, ?_, ?_⟩
  · by_cases hij : i = j
    · rw [hij, Ledger.set_same, Ledger.set_same]
      exact hab
    · rw [Ledger.set_other _ _ hij, Ledger.set_other _ _ hij]
      exact h.alike i hi
  · rw [WrappedAt, hx]
    exact h.left
  · rw [WrappedAt, hx]
    exact h.right

/-- A record of the program is not wrapped SOL. -/
theorem Twin.poolAt {p : StakePool} (h : Twin rt x u v) (hp : PoolAt rt u k p) : k ≠ x ∧ PoolAt rt v k p := by
  have hne : k ≠ x := by
    rintro rfl
    obtain ⟨t, ht, -⟩ := h.left
    rw [hp.data] at ht
    cases ht
  have hsame := h.alike k hne
  exact ⟨hne, hsame.owner.trans hp.owner, hsame.data.trans hp.data, hp.valid⟩

theorem Twin.loadStakePool (h : Twin rt x u v) :
    Agree (fun p q => q = p) (loadStakePool rt u k) (loadStakePool rt v k) := by
  apply Agree.intro
  · intro p hp
    exact ⟨p, loadStakePool_eq_ok.mpr (h.poolAt (loadStakePool_eq_ok.mp hp)).2, rfl⟩
  · intro p hp
    exact ⟨p, loadStakePool_eq_ok.mpr (h.symm.poolAt (loadStakePool_eq_ok.mp hp)).2⟩

theorem Twin.checkMint (h : Twin rt x u v) (p : StakePool) :
    Agree (fun m n => n = m) (p.checkMint u k) (p.checkMint v k) := by
  have hone : ∀ {u v : Ledger}, Twin rt x u v → ∀ n, p.checkMint u k = .ok n → p.checkMint v k = .ok n := by
    intro u v h n hn
    obtain ⟨hkey, m, hm, hdecimals⟩ := StakePool.checkMint_eq_ok.mp hn
    refine StakePool.checkMint_eq_ok.mpr ⟨hkey, m, ?_, hdecimals⟩
    have hne : k ≠ x := by
      rintro rfl
      obtain ⟨t, ht, -⟩ := h.left
      rw [hm] at ht
      cases ht
    rw [(h.alike k hne).data]
    exact hm
  exact Agree.intro (fun n hn => ⟨n, hone h n hn, rfl⟩) fun n hn => ⟨n, hone h.symm n hn⟩

/-- The program looks at its pool no further than the record. -/
theorem Twin.writeStakePool {p q : StakePool} (h : Twin rt x u v) (hp : PoolAt rt u k p) :
    Agree (Twin rt x) (writeStakePool u k q) (writeStakePool v k q) := by
  have hne := (h.poolAt hp).1
  have hsame := h.alike k hne
  unfold StakePoolFogo.writeStakePool
  rw [hsame.dataLen]
  refine .bind_same fun _ _ => ?_
  exact h.set hne ⟨hsame.owner, hsame.dataLen, rfl⟩

/-- A legal change of an account is legal for its twin. -/
theorem changedLegally_of_sameRecord {callees : List Pubkey} {a b a₁ b₁ : Account} (h : a.changedLegally callees b)
    (ha : a.SameRecord a₁) (hb : b.SameRecord b₁) (hlamports : a₁.lamports ≤ b₁.lamports) :
    a₁.changedLegally callees b₁ := by
  rcases h with ⟨howner, hafter⟩ | ⟨howner, hlen, hdata, -⟩
  · apply Or.inl
    rw [ha.owner, hb.owner, hb.data]
    exact ⟨howner, hafter⟩
  · refine .inr ⟨?_, ?_, ?_, hlamports⟩
    · rw [hb.owner, howner, ha.owner]
    · rw [hb.dataLen, hlen, ha.dataLen]
    · rw [hb.data, hdata, ha.data]

section Mint

variable (tokens : TokenLaws rt) (weights : WeightLaws rt) (records : RecordLaws rt)
include tokens weights records

/-- Minting on one ledger is minting on its twin: wrapped SOL cannot be minted. -/
theorem Twin.tokenMintTo_ok (h : Twin rt x u v) {pool tokenProgram mint destination : Pubkey}
    {authority : AccountMeta} {bump : UInt8} {amount : Nat}
    (hmint : tokenMintTo rt pool tokenProgram mint destination authority bump amount u = .ok u') :
    ∃ v', tokenMintTo rt pool tokenProgram mint destination authority bump amount v = .ok v' ∧
      Twin rt x u' v' := by
  simp only [tokenMintTo, bind_eq_ok, exists_unit] at hmint ⊢
  obtain ⟨hprogram, hsigner, hcall⟩ := hmint
  obtain ⟨hne, m', d', hminted, hmlegal, hdlegal, hbalance, rfl⟩ := invoke₂_eq_ok.mp hcall
  obtain ⟨m, t, hm, -, ht, htmint, hm', hmowner, hd', hdowner⟩ := tokens.mintTo _ _ _ _ _ _ _ hminted
  obtain ⟨hmsize, hdsize⟩ := records.mintTo_size _ _ _ _ _ _ _ hminted
  obtain ⟨hnative, hmlamports, hdlamports⟩ := weights.mintTo _ _ _ _ _ _ _ hminted
  have hmx : mint ≠ x := by
    rintro rfl
    obtain ⟨t', ht', -⟩ := h.left
    rw [hm] at ht'
    cases ht'
  have hdx : destination ≠ x := by
    rintro rfl
    obtain ⟨t', ht', hwrapped⟩ := h.left
    obtain rfl := AccountData.token.inj (ht.symm.trans ht')
    exact hnative (htmint.symm.trans hwrapped)
  have hmsame := h.alike mint hmx
  have hdsame := h.alike destination hdx
  obtain ⟨⟨m₁, d₁⟩, hminted₁⟩ := records.mintTo _ _ _ _ _ _ _ _ hmsame hdsame hminted
  -- What the twin gets is known from its records.
  obtain ⟨n, s, hn, -, hs, -, hm₁, hmowner₁, hd₁, hdowner₁⟩ := tokens.mintTo _ _ _ _ _ _ _ hminted₁
  obtain ⟨hmsize₁, hdsize₁⟩ := records.mintTo_size _ _ _ _ _ _ _ hminted₁
  obtain ⟨-, hmlamports₁, hdlamports₁⟩ := weights.mintTo _ _ _ _ _ _ _ hminted₁
  rw [hmsame.data, hm] at hn
  rw [hdsame.data, ht] at hs
  obtain rfl := AccountData.mint.inj hn
  obtain rfl := AccountData.token.inj hs
  have hmafter : m'.SameRecord m₁ :=
    ⟨by rw [hmowner₁, hmsame.owner, hmowner], by rw [hmsize₁, hmsame.dataLen, hmsize], by rw [hm₁, hm']⟩
  have hdafter : d'.SameRecord d₁ :=
    ⟨by rw [hdowner₁, hdsame.owner, hdowner], by rw [hdsize₁, hdsame.dataLen, hdsize], by rw [hd₁, hd']⟩
  refine ⟨_, ⟨hprogram, hsigner, invoke₂_eq_ok.mpr ⟨hne, m₁, d₁, hminted₁, ?_, ?_, ?_, rfl⟩⟩,
    (h.set hmx hmafter).set hdx hdafter⟩
  · exact changedLegally_of_sameRecord hmlegal hmsame hmafter (Nat.le_of_eq hmlamports₁.symm)
  · exact changedLegally_of_sameRecord hdlegal hdsame hdafter (Nat.le_of_eq hdlamports₁.symm)
  · rw [hmlamports₁, hdlamports₁]

theorem Twin.tokenMintTo (h : Twin rt x u v) {pool tokenProgram mint destination : Pubkey}
    {authority : AccountMeta} {bump : UInt8} {amount : Nat} : Agree (Twin rt x)
      (tokenMintTo rt pool tokenProgram mint destination authority bump amount u)
      (tokenMintTo rt pool tokenProgram mint destination authority bump amount v) := by
  apply Agree.intro
  · exact fun u' hu' => h.tokenMintTo_ok tokens weights records hu'
  · intro v' hv'
    obtain ⟨u', hu', -⟩ := h.symm.tokenMintTo_ok tokens weights records hv'
    exact ⟨u', hu'⟩

theorem Twin.mintShares (h : Twin rt x u v) {pool tokenProgram mint user manager referrer : Pubkey}
    {authority : AccountMeta} {bump : UInt8} {shares : DepositShares} : Agree (Twin rt x)
      (mintShares rt pool tokenProgram mint user manager referrer authority bump shares u)
      (mintShares rt pool tokenProgram mint user manager referrer authority bump shares v) := by
  unfold StakePoolFogo.mintShares
  refine .bind (h.tokenMintTo tokens weights records) fun u₁ v₁ _ _ h₁ => ?_
  refine .bind (.onlyIf h₁ (h₁.tokenMintTo tokens weights records)) fun u₂ v₂ _ _ h₂ => ?_
  exact .onlyIf h₂ (h₂.tokenMintTo tokens weights records)

end Mint

end Twin

/-! ## Unwrapping -/

section Unwrap

/-- The system program moves lamports and nothing else. -/
theorem systemTransfer_record (system : SystemLaws rt) {callees : List Pubkey} {n : Nat}
    (h : invokeMove callees j k (rt.system.transfer n) w = .ok w') : (w x).SameRecord (w' x) := by
  rcases ite_eq_ok.mp h with ⟨-, h⟩ | ⟨-, h⟩
  · simp only [bind_eq_ok, pure_eq_ok] at h
    obtain ⟨_, -, rfl⟩ := h
    exact .refl _
  · obtain ⟨-, a, b, hf, -, -, -, rfl⟩ := invoke₂_eq_ok.mp h
    obtain ⟨-, -, rfl, rfl⟩ := system.transfer _ _ _ _ _ hf
    by_cases hxk : x = k
    · subst hxk
      rw [Ledger.set_same]
      exact ⟨rfl, rfl, rfl⟩
    · rw [Ledger.set_other _ _ hxk]
      by_cases hxj : x = j
      · subst hxj
        rw [Ledger.set_same]
        exact ⟨rfl, rfl, rfl⟩
      · rw [Ledger.set_other _ _ hxj]
        exact .refl _

theorem solTransfer_record (system : SystemLaws rt) {source : AccountMeta} {n : Nat}
    (h : solTransfer rt source k n w = .ok w') : (w x).SameRecord (w' x) := by
  simp only [solTransfer, bind_eq_ok, exists_unit] at h
  exact systemTransfer_record system h.2

theorem solTransfer_paid (system : SystemLaws rt) {source : AccountMeta} {n : Nat}
    (h : solTransfer rt source k n w = .ok w') : (w source.key).owner = rt.systemProgramId ∧
      Paid source.key k n w w' := by
  simp only [solTransfer, bind_eq_ok, exists_unit] at h
  refine ⟨?_, .of_invokeMove (fun a b hf => ?_) h.2⟩
  · rcases ite_eq_ok.mp h.2 with ⟨-, h⟩ | ⟨-, h⟩
    · simp only [bind_eq_ok] at h
      obtain ⟨⟨_, _⟩, hf, -⟩ := h
      exact (system.transfer _ _ _ _ _ hf).1
    · obtain ⟨-, -, hf⟩ := invoke₂_spec h
      exact (system.transfer _ _ _ _ _ hf).1
  · obtain ⟨-, hle, rfl, rfl⟩ := system.transfer _ _ _ _ _ hf
    exact ⟨Nat.sub_add_cancel hle, rfl⟩

theorem programSignerTransfer_record (system : SystemLaws rt) {signer : AccountMeta} {bump : UInt8} {n : Nat}
    (h : programSignerTransfer rt signer bump k n w = .ok w') : (w x).SameRecord (w' x) := by
  simp only [programSignerTransfer, bind_eq_ok, exists_unit] at h
  obtain ⟨_, -, -, h⟩ := h
  exact systemTransfer_record system h

variable {user tokenProgram programSigner userWsol reserve : Pubkey}
  {session feePayer transientWsol signer : AccountMeta} {bump : UInt8} {lamports : Nat}

theorem createTransientWsol_token {wsolMint : Pubkey} (h : createTransientWsol rt sv user wsolMint tokenProgram
    programSigner feePayer transientWsol w = .ok w') : rt.isTokenProgram tokenProgram := by
  simp only [createTransientWsol, bind_eq_ok, exists_unit, checkSplToken_eq_ok] at h
  obtain ⟨-, _, -, -, _, -, htoken, -⟩ := h
  exact .inl htoken

/-- Creating the transient account passes every other record by. -/
theorem createTransientWsol_record (wrapped : WrappedSolLaws rt sv) (records : RecordLaws rt)
    (h : createTransientWsol rt sv user rt.nativeMintId tokenProgram programSigner feePayer transientWsol w =
      .ok w') : (w transientWsol.key).dataLen = 0 ∧
        ∀ x, x ≠ transientWsol.key → (w x).SameRecord (w' x) := by
  simp only [createTransientWsol, bind_eq_ok, exists_unit] at h
  obtain ⟨-, _, -, -, w₁, hpda, -, hinit⟩ := h
  have hinit : ∀ x, x ≠ transientWsol.key → w' x = w₁ x := fun x hx => OnlyAt.of_invoke₁ hinit x (by simpa using hx)
  rcases ite_eq_ok.mp hpda with ⟨-, h⟩ | ⟨-, h⟩
  · obtain ⟨honly, hcall, -⟩ := invoke₁_spec h
    obtain ⟨r, hcall, -⟩ := map_eq_ok.mp hcall
    refine ⟨records.create _ _ _ _ _ _ _ hcall, fun x hx => ?_⟩
    rw [hinit x hx, honly x (by simpa using hx)]
    exact .refl _
  · obtain ⟨-, honly, hcall⟩ := invoke₂_spec h
    refine ⟨records.create _ _ _ _ _ _ _ hcall, fun x hx => ?_⟩
    rw [hinit x hx]
    obtain ⟨-, -, -, hpayer, -⟩ := wrapped.create _ _ _ _ _ _ _ hcall
    by_cases hxp : x = feePayer.key
    · rw [hxp, hpayer]
      exact ⟨rfl, rfl, rfl⟩
    · rw [honly x (by simp [hx, hxp])]
      exact .refl _

/-- Unwrapping gives the transient account back to the system program and passes every other record by. -/
theorem unwrapIntoReserve_record (wrapped : WrappedSolLaws rt sv) (system : SystemLaws rt)
    (h : unwrapIntoReserve rt sv tokenProgram userWsol rt.nativeMintId session feePayer transientWsol signer
      bump reserve lamports w = .ok w') :
    (⟨0, rt.systemProgramId, 0, .zeroed⟩ : Account).SameRecord (w' transientWsol.key) ∧
      ∀ x, x ≠ userWsol → x ≠ transientWsol.key → (w x).SameRecord (w' x) := by
  simp only [unwrapIntoReserve, bind_eq_ok, exists_unit] at h
  obtain ⟨-, w₁, htransfer, _, -, -, -, w₂, hclose, w₃, hrefund, hforward⟩ := h
  have hend : ∀ x, (w₂ x).SameRecord (w' x) := fun x =>
    (programSignerTransfer_record system hrefund).trans (programSignerTransfer_record system hforward)
  obtain ⟨-, honly, hcall⟩ := invoke₂_spec hclose
  obtain ⟨hclosed, hsigner⟩ := wrapped.close_all _ _ _ _ _ hcall
  constructor
  · have hlast := hend transientWsol.key
    rw [hclosed] at hlast
    exact hlast
  intro x hx hx'
  refine .trans ?_ (hend x)
  rw [← OnlyAt.of_invokeMove htransfer x (by simp [hx, hx'])]
  by_cases hxs : x = signer.key
  · rw [hxs, hsigner]
    exact ⟨rfl, rfl, rfl⟩
  · rw [honly x (by simp [hx', hxs])]
    exact .refl _

end Unwrap

/-! ## Deposits -/

/-- The wrapped-SOL side of a session deposit goes well: the lamports are in the reserve. -/
structure WsolSteps (rt : Runtime) (sv : Sysvars) (accounts : List AccountMeta) (lamports : Nat) (w : Ledger) where
  pool : AccountMeta
  authority : AccountMeta
  reserve : AccountMeta
  poolTokensTo : AccountMeta
  managerFee : AccountMeta
  referrer : AccountMeta
  mint : AccountMeta
  systemProgram : AccountMeta
  tokenProgram : AccountMeta
  session : AccountMeta
  wsolMint : AccountMeta
  feePayer : AccountMeta
  userWsol : AccountMeta
  transientWsol : AccountMeta
  signer : AccountMeta
  user : Pubkey
  created : Ledger
  unwrapped : Ledger
  pool_at : accounts[0]? = some pool
  authority_at : accounts[1]? = some authority
  reserve_at : accounts[2]? = some reserve
  poolTokensTo_at : accounts[3]? = some poolTokensTo
  managerFee_at : accounts[4]? = some managerFee
  referrer_at : accounts[5]? = some referrer
  mint_at : accounts[6]? = some mint
  systemProgram_at : accounts[7]? = some systemProgram
  tokenProgram_at : accounts[8]? = some tokenProgram
  session_at : accounts[9]? = some session
  wsolMint_at : accounts[10]? = some wsolMint
  feePayer_at : accounts[11]? = some feePayer
  userWsol_at : accounts[12]? = some userWsol
  transientWsol_at : accounts[13]? = some transientWsol
  signer_at : accounts[14]? = some signer
  system_key : systemProgram.key = rt.systemProgramId
  isUser : checkSessionUser rt sv session wsolMint.key userWsol.key tokenProgram.key w = .ok user
  isSigner : (programSigner rt).1 = signer.key
  create : createTransientWsol rt sv user wsolMint.key tokenProgram.key signer.key feePayer transientWsol w =
    .ok created
  unwrap : unwrapIntoReserve rt sv tokenProgram.key userWsol.key wsolMint.key session feePayer transientWsol
    signer (programSigner rt).2 reserve.key lamports created = .ok unwrapped

section Deposit

variable {accounts : List AccountMeta} {lamports : Nat}

/-- The accounts of the `DepositSol` that `payer` pays for. -/
def WsolSteps.solAccounts (s : WsolSteps rt sv accounts lamports w) (payer : AccountMeta) : List AccountMeta :=
  [s.pool, s.authority, s.reserve, payer, s.poolTokensTo, s.managerFee, s.referrer, s.mint, s.systemProgram,
    s.tokenProgram] ++ accounts[15]?.toList

/-- From there on a session deposit is a SOL deposit. -/
theorem WsolSteps.process_eq (s : WsolSteps rt sv accounts lamports w) :
    processDepositWsolWithSession rt sv accounts lamports w =
      processDepositSol rt sv (s.solAccounts s.reserve) lamports none true s.unwrapped := by
  have hsystem : checkSystemProgram rt s.systemProgram.key = .ok () := checkSystemProgram_eq_ok.mpr s.system_key
  have hsigner : failIf ((programSigner rt).1 ≠ s.signer.key) ProgramError.invalidSeeds = .ok () :=
    failIf_eq_ok.mpr (not_not.mpr s.isSigner)
  -- The rule as a hypothesis: unfolding it at every step would be too much for one step of `simp`.
  have hstep : ∀ {α β : Type} (a : α) (f : α → Except ProgramError β), (Except.ok a >>= f) = f a := fun _ _ => rfl
  simp only [processDepositWsolWithSession, accountAt, s.pool_at, s.authority_at, s.reserve_at,
    s.poolTokensTo_at, s.managerFee_at, s.referrer_at, s.mint_at, s.systemProgram_at, s.tokenProgram_at,
    s.session_at, s.wsolMint_at, s.feePayer_at, s.userWsol_at, s.transientWsol_at, s.signer_at, okOr_some,
    hstep, hsystem, s.isUser, hsigner, s.create, s.unwrap]
  rfl

section

variable (laws : ProgramLaws rt) (tokens : TokenLaws rt) (weights : WeightLaws rt) (records : RecordLaws rt)
include laws tokens weights records

/-- `DepositSol` on a ledger where the lamports are in the reserve already, and on its twin where they are
still to be paid. -/
theorem Twin.processDepositSol {pool authority reserve payer user managerFee referrer mint systemProgram
      tokenProgram : AccountMeta} {rest : List AccountMeta} {paid : Ledger} (h : Twin rt x u v)
    (hpaid : Twin rt x u paid) (hpay : solTransfer rt payer reserve.key lamports v = .ok paid) :
    Agree (fun a b => Twin rt x a b ∧ SameLamports u a ∧ SameLamports paid b)
      (processDepositSol rt sv ([pool, authority, reserve, reserve, user, managerFee, referrer, mint,
        systemProgram, tokenProgram] ++ rest) lamports none true u)
      (processDepositSol rt sv ([pool, authority, reserve, payer, user, managerFee, referrer, mint,
        systemProgram, tokenProgram] ++ rest) lamports none false v) := by
  simp only [StakePoolFogo.processDepositSol, accountAt, List.cons_append, List.nil_append,
    List.getElem?_cons_zero, List.getElem?_cons_succ, okOr_some, ok_bind]
  refine .bind h.loadStakePool fun q p hp _ hpq => ?_
  obtain rfl := hpq
  have hp : PoolAt rt u pool.key p := loadStakePool_eq_ok.mp hp
  refine .bind_same fun _ _ => ?_
  refine .bind_same fun _ _ => ?_
  refine .bind (h.checkMint p) fun _ _ _ _ _ => ?_
  refine .bind_same fun _ _ => ?_
  refine .bind_same fun _ _ => ?_
  refine .bind_same fun _ _ => ?_
  refine .bind_same fun _ _ => ?_
  refine .bind_same fun _ _ => ?_
  refine .bind_same fun shares _ => ?_
  -- The one side has been paid, the other pays.
  rw [show onlyIf (true = false) (solTransfer rt reserve reserve.key lamports) u = .ok u from rfl,
    show onlyIf True (solTransfer rt payer reserve.key lamports) v = .ok paid from hpay, ok_bind, ok_bind]
  refine .bind (hpaid.mintShares tokens weights records) fun m n hm hn hmn => ?_
  refine .bind_same fun p' _ => ?_
  have hpm : PoolAt rt m pool.key p := hp.of_frames laws
    ((mintShares_frames hm).mono (token_subset_outsiders (mintShares_token hm)))
  refine (hmn.writeStakePool hpm).mono fun a b ha hb hab => ⟨hab, ?_, ?_⟩
  · exact (mintShares_lamports weights hm).2.trans (.of_writeStakePool ha)
  · exact (mintShares_lamports weights hn).2.trans (.of_writeStakePool hb)

variable (system : SystemLaws rt) (wrapped : WrappedSolLaws rt sv)
include system wrapped

omit tokens weights records system in
/-- The user's account is a token account, the transient address was nobody's. -/
theorem WsolSteps.distinct (s : WsolSteps rt sv accounts lamports w) : s.wsolMint.key = rt.nativeMintId ∧
    s.userWsol.key ≠ s.transientWsol.key ∧ (w s.transientWsol.key).owner = rt.systemProgramId := by
  obtain ⟨hmint, -, howner, -, -⟩ := (checkSessionUser_eq_ok rt sv).mp s.isUser
  have hcreate := s.create
  rw [hmint] at hcreate
  obtain ⟨-, hsystem, -, -⟩ := createTransientWsol_paid wrapped hcreate
  refine ⟨hmint, fun heq => ?_, hsystem⟩
  rw [← heq, howner] at hsystem
  exact laws.token_ne_system _ (createTransientWsol_token s.create) hsystem

omit weights in
/-- Unwrapping leaves a twin: the transient account has come and gone. -/
theorem WsolSteps.twin (s : WsolSteps rt sv accounts lamports w)
    (hblank : (w s.transientWsol.key).dataLen = 0 → (w s.transientWsol.key).data = .zeroed) :
    Twin rt s.userWsol.key w s.unwrapped := by
  obtain ⟨hmint, hne, howner⟩ := s.distinct laws wrapped
  have hcreate := s.create
  have hunwrap := s.unwrap
  rw [hmint] at hcreate hunwrap
  obtain ⟨hlen, hcreated⟩ := createTransientWsol_record wrapped records hcreate
  obtain ⟨hclosed, hunwrapped⟩ := unwrapIntoReserve_record wrapped system hunwrap
  obtain ⟨⟨t, ht, htmint, -, ht'⟩, -, -⟩ := unwrapIntoReserve_data tokens system hunwrap hne
  refine ⟨fun j hj => ?_, ⟨t, ?_, htmint⟩, ⟨_, ht', htmint⟩⟩
  · by_cases hjt : j = s.transientWsol.key
    · rw [hjt]
      exact .trans ⟨howner.symm, hlen.symm, (hblank hlen).symm⟩ hclosed
    · exact (hcreated j hjt).trans (hunwrapped j hj hjt)
  · rw [← (hcreated _ hne).data]
    exact ht

/-- A session deposit does to the pool what the SOL deposit does. -/
theorem WsolSteps.agrees (s : WsolSteps rt sv accounts lamports w) {payer : AccountMeta} {paid : Ledger}
    (hblank : (w s.transientWsol.key).dataLen = 0 → (w s.transientWsol.key).data = .zeroed)
    (hreserve : (w s.reserve.key).owner = rt.stakeProgramId)
    (hpay : solTransfer rt payer s.reserve.key lamports w = .ok paid) :
    Agree (fun a b => Twin rt s.userWsol.key a b ∧ (a s.reserve.key).lamports = (b s.reserve.key).lamports +
        if s.reserve.key = s.feePayer.key then (w s.transientWsol.key).lamports else 0)
      (processDepositWsolWithSession rt sv accounts lamports w)
      (processDepositSol rt sv (s.solAccounts payer) lamports none false w) := by
  have htwin := s.twin laws tokens records system wrapped hblank
  have htwinPaid : Twin rt s.userWsol.key w paid := by
    obtain ⟨t, ht, htmint⟩ := htwin.left
    refine ⟨fun j _ => solTransfer_record system hpay, ⟨t, ht, htmint⟩, t, ?_, htmint⟩
    rw [(solTransfer_record system hpay).data]
    exact ht
  rw [s.process_eq]
  refine (htwin.symm.processDepositSol laws tokens weights records (htwin.symm.trans htwinPaid) hpay).mono ?_
  rintro a b - - ⟨hab, ha, hb⟩
  refine ⟨hab, ?_⟩
  rw [ha, hb]
  obtain ⟨hmint, hne, howner⟩ := s.distinct laws wrapped
  have hcreate := s.create
  have hunwrap := s.unwrap
  rw [hmint] at hcreate hunwrap
  obtain ⟨-, hbalances⟩ := unwrapped_balances wrapped system hne hcreate hunwrap
  obtain ⟨hpayer, hpaid⟩ := solTransfer_paid system hpay
  -- The reserve is none of the accounts that pay.
  have huser : s.reserve.key ≠ s.userWsol.key := by
    intro heq
    obtain ⟨-, -, htoken, -, -⟩ := (checkSessionUser_eq_ok rt sv).mp s.isUser
    exact laws.token_ne_stake _ (createTransientWsol_token s.create) (htoken.symm.trans (heq ▸ hreserve))
  have htransient : s.reserve.key ≠ s.transientWsol.key := by
    intro heq
    exact laws.stake_ne_system (hreserve.symm.trans (heq ▸ howner))
  have hnotPayer : s.reserve.key ≠ payer.key := by
    intro heq
    exact laws.stake_ne_system (hreserve.symm.trans (heq ▸ hpayer))
  have hleft := hbalances s.reserve.key
  have hright := hpaid s.reserve.key
  rw [if_neg huser, if_neg htransient, if_pos rfl] at hleft
  rw [if_neg hnotPayer, if_pos rfl] at hright
  omega

end

end Deposit

/-! ## Withdrawals -/

/-- The session crate's calls do what the calls of the user behind the session do. -/
structure PlainSessionLaws (rt : Runtime) : Prop where
  burn : ∀ sv session account user mintKey amount source mint r,
    rt.extractUser sv session account = .ok user →
    (rt.token.burn mintKey session.key (some (programSigner rt).1) amount source mint = .ok r ↔
      rt.token.burn mintKey user none amount source mint = .ok r)
  transfer : ∀ sv session account user mintKey amount decimals mint source destination r,
    rt.extractUser sv session account = .ok user →
    (rt.token.transferChecked mintKey session.key (some (programSigner rt).1) amount decimals mint source
        destination = .ok r ↔
      rt.token.transferChecked mintKey user none amount decimals mint source destination = .ok r)

/-- The wrapped-SOL account of `user`, with the lamports behind its tokens. -/
def FundedWsol (rt : Runtime) (sv : Sysvars) (user : Pubkey) (a : Account) : Prop :=
  ∃ t, a.data = .token t ∧ t.owner = user ∧ t.mint = rt.nativeMintId ∧ t.state = .initialized ∧
    t.amount + sv.minimumBalance a.dataLen ≤ a.lamports

/-- Tokens can be synchronised with the lamports behind them. -/
def SyncLaw (rt : Runtime) (sv : Sysvars) : Prop :=
  ∀ user account, account.owner = rt.splTokenId → FundedWsol rt sv user account →
    ∃ account', rt.token.syncNative account = .ok account' ∧ account'.owner = account.owner ∧
      account'.lamports = account.lamports

/-- The wrapped-SOL side of a session withdrawal into an existing account passes its checks. -/
structure WsolChecks (rt : Runtime) (sv : Sysvars) (accounts : List AccountMeta) (w : Ledger) where
  pool : AccountMeta
  authority : AccountMeta
  session : AccountMeta
  burnFrom : AccountMeta
  reserve : AccountMeta
  userWsol : AccountMeta
  managerFee : AccountMeta
  mint : AccountMeta
  clock : AccountMeta
  history : AccountMeta
  stakeProgram : AccountMeta
  tokenProgram : AccountMeta
  wsolMint : AccountMeta
  feePayer : AccountMeta
  userOwner : AccountMeta
  systemProgram : AccountMeta
  signer : AccountMeta
  associated : AccountMeta
  user : Pubkey
  pool_at : accounts[0]? = some pool
  authority_at : accounts[1]? = some authority
  session_at : accounts[2]? = some session
  burnFrom_at : accounts[3]? = some burnFrom
  reserve_at : accounts[4]? = some reserve
  userWsol_at : accounts[5]? = some userWsol
  managerFee_at : accounts[6]? = some managerFee
  mint_at : accounts[7]? = some mint
  clock_at : accounts[8]? = some clock
  history_at : accounts[9]? = some history
  stakeProgram_at : accounts[10]? = some stakeProgram
  tokenProgram_at : accounts[11]? = some tokenProgram
  wsolMint_at : accounts[12]? = some wsolMint
  feePayer_at : accounts[13]? = some feePayer
  userOwner_at : accounts[14]? = some userOwner
  systemProgram_at : accounts[15]? = some systemProgram
  signer_at : accounts[16]? = some signer
  associated_at : accounts[17]? = some associated
  system_key : systemProgram.key = rt.systemProgramId
  system_unsigned : systemProgram.isSigner = false
  associated_key : associated.key = rt.associatedTokenProgramId
  isUser : checkSessionUser rt sv session wsolMint.key userWsol.key tokenProgram.key w = .ok user
  owner_key : userOwner.key = user
  pays : requireSigner feePayer [] = .ok ()
  isSigner : (programSigner rt).1 = signer.key
  signs : signWithSession rt session signer (programSigner rt).2 = .ok ()
  token_key : tokenProgram.key = rt.splTokenId
  funded : FundedWsol rt sv user (w userWsol.key)

section Withdraw

variable {accounts : List AccountMeta} {poolTokens : Nat}

/-- The accounts of the `WithdrawSol` the user signs. -/
def WsolChecks.solAccounts (s : WsolChecks rt sv accounts w) : List AccountMeta :=
  [s.pool, s.authority, ⟨s.user, true, false⟩, s.burnFrom, s.reserve, s.userWsol, s.managerFee, s.mint,
    s.clock, s.history, s.stakeProgram, s.tokenProgram] ++ accounts[18]?.toList

/-- The accounts the handler hands on. -/
def WsolChecks.handedAccounts (s : WsolChecks rt sv accounts w) : List AccountMeta :=
  [s.pool, s.authority, s.session, s.burnFrom, s.reserve, s.userWsol, s.managerFee, s.mint, s.clock, s.history,
    s.stakeProgram, s.tokenProgram, accounts[18]?.getD s.systemProgram, s.signer]

theorem invoke₂_congr {callees : List Pubkey}
    {f g : Account → Account → Except ProgramError (Account × Account)}
    (h : ∀ a b r, f a b = .ok r ↔ g a b = .ok r) :
    invoke₂ callees j k f w = .ok w' ↔ invoke₂ callees j k g w = .ok w' := by
  simp only [invoke₂_eq_ok, h]

theorem invokeMove_congr {callees : List Pubkey}
    {f g : Account → Account → Except ProgramError (Account × Account)}
    (h : ∀ a b r, f a b = .ok r ↔ g a b = .ok r) :
    invokeMove callees j k f w = .ok w' ↔ invokeMove callees j k g w = .ok w' := by
  unfold invokeMove
  split
  · simp only [bind_eq_ok, h]
  · exact invoke₂_congr h

/-- Burning with the session key is burning with the user's signature. -/
theorem WsolChecks.burn_iff (plain : PlainSessionLaws rt) (s : WsolChecks rt sv accounts w)
    {quote : WithdrawalQuote} {decimals : UInt8} :
    burnWithSession rt s.tokenProgram.key s.burnFrom.key s.mint.key s.managerFee.key s.session s.signer quote
        decimals u = .ok u' ↔
      burnWithSignature rt s.tokenProgram.key s.burnFrom.key s.mint.key s.managerFee.key ⟨s.user, true, false⟩
        quote decimals u = .ok u' := by
  obtain ⟨-, -, -, huser, -⟩ := (checkSessionUser_eq_ok rt sv).mp s.isUser
  have hprogram : checkTokenProgram rt s.tokenProgram.key = .ok () := checkTokenProgram_eq_ok.mpr (.inl s.token_key)
  have hsigned : requireSigner ⟨s.user, true, false⟩ [] = .ok () := failIf_eq_ok.mpr (by simp)
  have hsigner : failIf ((programSigner rt).1 ≠ s.signer.key) ProgramError.invalidSeeds = .ok () :=
    failIf_eq_ok.mpr (not_not.mpr s.isSigner)
  have hburn : ∀ {v : Ledger}, invoke₂ [s.tokenProgram.key] s.burnFrom.key s.mint.key
        (rt.token.burn s.mint.key s.session.key (some s.signer.key) quote.burnt) u = .ok v ↔
      invoke₂ [s.tokenProgram.key] s.burnFrom.key s.mint.key
        (rt.token.burn s.mint.key s.user none quote.burnt) u = .ok v := by
    intro v
    rw [← s.isSigner]
    exact invoke₂_congr fun a b r => plain.burn _ _ _ _ _ _ _ _ _ huser
  have hfee : ∀ {v v' : Ledger}, invokeMove [s.tokenProgram.key] s.burnFrom.key s.managerFee.key
        (rt.token.transferChecked s.mint.key s.session.key (some s.signer.key) quote.fee decimals
          (v s.mint.key)) v = .ok v' ↔
      invokeMove [s.tokenProgram.key] s.burnFrom.key s.managerFee.key
        (rt.token.transferChecked s.mint.key s.user none quote.fee decimals (v s.mint.key)) v = .ok v' := by
    intro v v'
    rw [← s.isSigner]
    exact invokeMove_congr fun a b r => plain.transfer _ _ _ _ _ _ _ _ _ _ _ huser
  simp only [burnWithSession, burnWithSignature, tokenBurn, tokenTransfer, bind_eq_ok, exists_unit, onlyIf_eq_ok,
    hprogram, hsigned, hsigner, s.signs, hburn, hfee, true_and]

/-- The system program, in the place of a missing authority, does not pass for one. -/
theorem WsolChecks.mayWithdraw_iff (s : WsolChecks rt sv accounts w) (p : StakePool) :
    p.checkSolWithdrawAuthority s.handedAccounts 12 = .ok () ↔
      p.checkSolWithdrawAuthority s.solAccounts 12 = .ok () := by
  have hhanded : s.handedAccounts[12]? = some (accounts[18]?.getD s.systemProgram) := rfl
  have hsol : s.solAccounts[12]? = accounts[18]?.toList[0]? := rfl
  unfold StakePool.checkSolWithdrawAuthority StakePool.checkOptionalAuthority
  cases p.solWithdrawAuthority with
  | none => exact Iff.rfl
  | some authority =>
    simp only [bind_eq_ok, accountAt_eq_ok, failIf_eq_ok, exists_unit, hhanded, hsol]
    cases accounts[18]? with
    | none => simp [s.system_unsigned]
    | some a => simp

/-- All that a SOL withdrawal needs of its accounts, the pool and the programs it calls. -/
structure SolWithdrawal (rt : Runtime) (sv : Sysvars) (accounts : List AccountMeta) (poolTokens : Nat)
    (minimum : Option Nat) (isWsolPath : Bool) (w w' : Ledger) extends
    WithdrawSolRun rt sv accounts poolTokens minimum isWsolPath w w' where
  program : AccountMeta
  authority_at : accounts[1]? = some authority
  clock_at : accounts[8]? = some clock
  history_at : accounts[9]? = some history
  program_at : accounts[10]? = some program
  program_key : program.key = rt.stakeProgramId
  mayWithdraw : p.checkSolWithdrawAuthority accounts 12 = .ok ()
  isMint : p.checkMint w mint.key = .ok decimals

theorem processWithdrawSol_ok_iff {minimum : Option Nat} {isWsolPath : Bool} :
    processWithdrawSol rt sv accounts poolTokens minimum isWsolPath w = .ok w' ↔
      Nonempty (SolWithdrawal rt sv accounts poolTokens minimum isWsolPath w w') := by
  constructor
  · intro h
    simp only [processWithdrawSol, bind_eq_ok, accountAt_eq_ok, exists_unit, failIf_eq_ok,
      checkStakeProgram_eq_ok, loadStakePool_eq_ok, StakePool.checkAuthorityWithdraw_eq_ok,
      StakePool.checkReserveStake_eq_ok, checkReserveRemainder_eq_ok, Decidable.not_not] at h
    obtain ⟨pool, pool_at, authority, authority_at, transferAuthority, transferAuthority_at, burnFrom,
      burnFrom_at, reserve, reserve_at, destination, destination_at, managerFee, managerFee_at, mint,
      mint_at, clock, clock_at, history, history_at, h⟩ := h
    obtain ⟨program, program_at, tokenProgram, tokenProgram_at, p, isPool, isAuthority, mayWithdraw, decimals,
      isMint, isReserve, token_key, program_key, isManagerFee, upToDate, fee, fee_eq, quote, quote_eq, ⟨info,
      reserve_data, reserve_enough⟩, h⟩ := h
    obtain ⟨burnt, burn, paid, pay, p', record, result⟩ := h
    exact ⟨{
      pool, authority, transferAuthority, burnFrom, reserve, destination, managerFee, mint, clock,
      history, tokenProgram, program, p, p', decimals, fee, quote, info, burnt, paid, pool_at, authority_at,
      transferAuthority_at, burnFrom_at, reserve_at, destination_at, managerFee_at, mint_at, clock_at,
      history_at, program_at, tokenProgram_at, isPool, isAuthority, mayWithdraw, isMint, isReserve, program_key,
      upToDate, fee_eq, quote_eq, reserve_data, reserve_enough, burn, pay, record, result
      mint_key := (StakePool.checkMint_eq_ok.mp isMint).1
      token_key := token_key.symm, isManagerFee := isManagerFee.symm }⟩
  · rintro ⟨r⟩
    simp only [processWithdrawSol, bind_eq_ok, accountAt_eq_ok, exists_unit, failIf_eq_ok,
      checkStakeProgram_eq_ok, loadStakePool_eq_ok, StakePool.checkAuthorityWithdraw_eq_ok,
      StakePool.checkReserveStake_eq_ok, checkReserveRemainder_eq_ok, Decidable.not_not]
    exact ⟨_, r.pool_at, _, r.authority_at, _, r.transferAuthority_at, _, r.burnFrom_at, _, r.reserve_at, _,
      r.destination_at, _, r.managerFee_at, _, r.mint_at, _, r.clock_at, _, r.history_at, _, r.program_at, _,
      r.tokenProgram_at, _, r.isPool, r.isAuthority, r.mayWithdraw, _, r.isMint, r.isReserve, r.token_key.symm,
      r.program_key, r.isManagerFee.symm, r.upToDate, _, r.fee_eq, _, r.quote_eq,
      ⟨_, r.reserve_data, r.reserve_enough⟩, _, r.burn, _, r.pay, _, r.record, r.result⟩

/-- The withdrawal the handler makes is the one the user could make. -/
theorem WsolChecks.inner_iff (plain : PlainSessionLaws rt) (s : WsolChecks rt sv accounts w) :
    processWithdrawSol rt sv s.handedAccounts poolTokens none true w = .ok w' ↔
      processWithdrawSol rt sv s.solAccounts poolTokens none false w = .ok w' := by
  rw [processWithdrawSol_ok_iff, processWithdrawSol_ok_iff]
  constructor
  · rintro ⟨r⟩
    have hburn : burnWithSession rt r.tokenProgram.key r.burnFrom.key r.mint.key r.managerFee.key
      r.transferAuthority s.signer r.quote r.decimals w = .ok r.burnt := r.burn
    rw [← Option.some.inj r.tokenProgram_at, ← Option.some.inj r.burnFrom_at, ← Option.some.inj r.mint_at,
      ← Option.some.inj r.managerFee_at, ← Option.some.inj r.transferAuthority_at, s.burn_iff plain,
      Option.some.inj r.tokenProgram_at, Option.some.inj r.burnFrom_at, Option.some.inj r.mint_at,
      Option.some.inj r.managerFee_at] at hburn
    exact ⟨{ r with
      transferAuthority := ⟨s.user, true, false⟩
      pool_at := r.pool_at, authority_at := r.authority_at, transferAuthority_at := rfl
      burnFrom_at := r.burnFrom_at, reserve_at := r.reserve_at, destination_at := r.destination_at
      managerFee_at := r.managerFee_at, mint_at := r.mint_at, clock_at := r.clock_at
      history_at := r.history_at, program_at := r.program_at, tokenProgram_at := r.tokenProgram_at
      mayWithdraw := (s.mayWithdraw_iff r.p).mp r.mayWithdraw, burn := hburn }⟩
  · rintro ⟨r⟩
    have hburn : burnWithSignature rt r.tokenProgram.key r.burnFrom.key r.mint.key r.managerFee.key
      r.transferAuthority r.quote r.decimals w = .ok r.burnt := r.burn
    rw [← Option.some.inj r.tokenProgram_at, ← Option.some.inj r.burnFrom_at, ← Option.some.inj r.mint_at,
      ← Option.some.inj r.managerFee_at, ← Option.some.inj r.transferAuthority_at, ← s.burn_iff plain,
      Option.some.inj r.tokenProgram_at, Option.some.inj r.burnFrom_at, Option.some.inj r.mint_at,
      Option.some.inj r.managerFee_at] at hburn
    exact ⟨{ r with
      transferAuthority := s.session
      pool_at := r.pool_at, authority_at := r.authority_at, transferAuthority_at := rfl
      burnFrom_at := r.burnFrom_at, reserve_at := r.reserve_at, destination_at := r.destination_at
      managerFee_at := r.managerFee_at, mint_at := r.mint_at, clock_at := r.clock_at
      history_at := r.history_at, program_at := r.program_at, tokenProgram_at := r.tokenProgram_at
      mayWithdraw := (s.mayWithdraw_iff r.p).mpr r.mayWithdraw, burn := hburn }⟩

/-- Around that withdrawal the handler only synchronises the user's wrapped SOL. -/
theorem WsolChecks.process_eq (hi : IdempotentCreate rt) (s : WsolChecks rt sv accounts w) :
    processWithdrawWsolWithSession rt sv accounts poolTokens w =
      processWithdrawSol rt sv s.handedAccounts poolTokens none true w >>=
        invoke₁ [s.tokenProgram.key] s.userWsol.key rt.token.syncNative := by
  obtain ⟨hmint, -, howner, -, -⟩ := (checkSessionUser_eq_ok rt sv).mp s.isUser
  obtain ⟨t, hdata, htowner, htmint, -, -⟩ := s.funded
  have hcreate : invokeMove [rt.associatedTokenProgramId, rt.systemProgramId, s.tokenProgram.key] s.feePayer.key
      s.userWsol.key (rt.createAssociatedIdempotent s.user s.wsolMint.key s.tokenProgram.key) w = .ok w := by
    rw [s.token_key, hmint]
    exact create_idempotent hi (howner.trans s.token_key) hdata htowner htmint
  have hsystem : checkSystemProgram rt s.systemProgram.key = .ok () := checkSystemProgram_eq_ok.mpr s.system_key
  have hassociated : failIf (s.associated.key ≠ rt.associatedTokenProgramId) ProgramError.incorrectProgramId =
    .ok () := failIf_eq_ok.mpr (not_not.mpr s.associated_key)
  have hwallet : failIf (s.userOwner.key ≠ s.user) ProgramError.invalidAccountData = .ok () :=
    failIf_eq_ok.mpr (not_not.mpr s.owner_key)
  have htoken : checkSplToken rt s.tokenProgram.key = .ok () := (checkSplToken_eq_ok rt).mpr s.token_key
  have hstep : ∀ {α β : Type} (a : α) (f : α → Except ProgramError β), (Except.ok a >>= f) = f a := fun _ _ => rfl
  simp only [processWithdrawWsolWithSession, accountAt, s.pool_at, s.authority_at, s.session_at, s.burnFrom_at,
    s.reserve_at, s.userWsol_at, s.managerFee_at, s.mint_at, s.clock_at, s.history_at, s.stakeProgram_at,
    s.tokenProgram_at, s.wsolMint_at, s.feePayer_at, s.userOwner_at, s.systemProgram_at, s.signer_at,
    s.associated_at, okOr_some, hstep, hsystem, hassociated, s.isUser, hwallet, s.pays, hcreate, htoken]
  rfl

theorem FundedWsol.credited {user : Pubkey} {a : Account} (h : FundedWsol rt sv user a) (n : Nat) :
    FundedWsol rt sv user { a with lamports := a.lamports + n } := by
  obtain ⟨t, hdata, howner, hmint, hstate, hfunded⟩ := h
  exact ⟨t, hdata, howner, hmint, hstate, Nat.le_add_right_of_le hfunded⟩

/-- A session withdrawal does to the pool what the SOL withdrawal to the same account does. -/
theorem WsolChecks.agrees (tokens : TokenLaws rt) (weights : WeightLaws rt) (stakes : StakeLaws rt)
    (sessions : SessionLaws rt) (plain : PlainSessionLaws rt) (hi : IdempotentCreate rt) (hsync : SyncLaw rt sv)
    (s : WsolChecks rt sv accounts w) :
    Agree (fun a b => (∀ j, j ≠ s.userWsol.key → a j = b j) ∧
        (a s.userWsol.key).lamports = (b s.userWsol.key).lamports)
      (processWithdrawWsolWithSession rt sv accounts poolTokens w)
      (processWithdrawSol rt sv s.solAccounts poolTokens none false w) := by
  obtain ⟨hmint, -, howner, huser, -⟩ := (checkSessionUser_eq_ok rt sv).mp s.isUser
  have hpaid : ∀ b, processWithdrawSol rt sv s.handedAccounts poolTokens none true w = .ok b →
      ∃ n, b s.userWsol.key = { w s.userWsol.key with lamports := (w s.userWsol.key).lamports + n } := by
    intro b hb
    obtain ⟨d⟩ := processWithdrawSol_run rt sv hb
    have hdest : s.userWsol = d.destination := Option.some.inj d.destination_at
    have hsession : s.session = d.transferAuthority := Option.some.inj d.transferAuthority_at
    obtain ⟨t, hdata, -, htmint, -, -⟩ := s.funded
    rw [hdest] at hdata
    rw [hsession] at huser
    -- Wrapped SOL is not burnt.
    have hother : t.mint ≠ d.p.poolMint := by
      have hburn : burnWithSession rt d.tokenProgram.key d.burnFrom.key d.mint.key d.managerFee.key
        d.transferAuthority s.signer d.quote d.decimals w = .ok d.burnt := d.burn
      simp only [burnWithSession, bind_eq_ok, exists_unit] at hburn
      obtain ⟨-, -, _, hburn, -⟩ := hburn
      rw [htmint, ← d.mint_key]
      exact (weights.burn _ _ _ _ _ _ _ _ (invoke₂_spec hburn).2.2).1.symm
    have hsigner : s.handedAccounts[13]? = some s.signer := rfl
    obtain ⟨quote, _, _, _, -, -, hcredited, -⟩ := d.session_data tokens stakes sessions hsigner huser hdata hother
    rw [hdest]
    exact ⟨quote.lamports, hcredited⟩
  rw [s.process_eq hi]
  apply Agree.intro
  · intro a ha
    obtain ⟨b, hb, hsynced⟩ := bind_eq_ok.mp ha
    obtain ⟨honly, -, hlamports⟩ := invoke₁_spec hsynced
    exact ⟨b, (s.inner_iff plain).mp hb, fun j hj => honly j (by simpa using hj), hlamports⟩
  · intro b hb
    have hb := (s.inner_iff plain).mpr hb
    obtain ⟨n, hn⟩ := hpaid b hb
    have hprogram : (b s.userWsol.key).owner = rt.splTokenId := by
      rw [hn]
      exact howner.trans s.token_key
    have hfunded : FundedWsol rt sv s.user (b s.userWsol.key) := by
      rw [hn]
      exact s.funded.credited n
    obtain ⟨account', hcall, hkept, hlamports⟩ := hsync _ _ hprogram hfunded
    refine ⟨_, bind_eq_ok.mpr ⟨b, hb, invoke₁_eq_ok.mpr ⟨account', hcall, .inl ⟨?_, .inl ?_⟩, hlamports, rfl⟩⟩⟩
    · rw [hprogram, s.token_key]
      exact List.mem_singleton_self _
    · rw [hkept, hprogram, s.token_key]
      exact List.mem_singleton_self _

end Withdraw

/-! ## Both ways -/

/-- The laws the two paths are compared under. -/
structure PathLaws (rt : Runtime) (sv : Sysvars) : Prop where
  programs : ProgramLaws rt
  tokens : TokenLaws rt
  weights : WeightLaws rt
  system : SystemLaws rt
  stakes : StakeLaws rt
  wrapped : WrappedSolLaws rt sv
  records : RecordLaws rt
  sessions : SessionLaws rt
  plain : PlainSessionLaws rt
  idempotent : IdempotentCreate rt
  sync : SyncLaw rt sv

/-- Where their wrapped-SOL side goes well, the session instructions succeed or fail with the SOL instructions
on the same accounts.  A deposit then leaves every account but the user's wrapped SOL with the same owner and
data, and the reserve with the same lamports, except that a reserve passed as fee payer also gets what the
transient address held before.  A withdrawal leaves every account but the user's wrapped SOL as it is, and
that one with the same lamports. -/
theorem session_paths_agree (laws : PathLaws rt sv) (accounts : List AccountMeta) (w : Ledger) :
    (∀ (lamports : Nat) (s : WsolSteps rt sv accounts lamports w) (payer : AccountMeta) (paid : Ledger),
      ((w s.transientWsol.key).dataLen = 0 → (w s.transientWsol.key).data = .zeroed) →
      (w s.reserve.key).owner = rt.stakeProgramId →
      solTransfer rt payer s.reserve.key lamports w = .ok paid →
      Agree (fun a b => (∀ j, j ≠ s.userWsol.key → (a j).SameRecord (b j)) ∧
          (a s.reserve.key).lamports = (b s.reserve.key).lamports +
            if s.reserve.key = s.feePayer.key then (w s.transientWsol.key).lamports else 0)
        (processDepositWsolWithSession rt sv accounts lamports w)
        (processDepositSol rt sv (s.solAccounts payer) lamports none false w)) ∧
    ∀ (poolTokens : Nat) (s : WsolChecks rt sv accounts w),
      Agree (fun a b => (∀ j, j ≠ s.userWsol.key → a j = b j) ∧
          (a s.userWsol.key).lamports = (b s.userWsol.key).lamports)
        (processWithdrawWsolWithSession rt sv accounts poolTokens w)
        (processWithdrawSol rt sv s.solAccounts poolTokens none false w) := by
  constructor
  · intro lamports s payer paid hblank hreserve hpay
    have hagrees := s.agrees laws.programs laws.tokens laws.weights laws.records laws.system laws.wrapped hblank
      hreserve hpay
    exact hagrees.mono fun a b _ _ hab => ⟨hab.1.alike, hab.2⟩
  · intro poolTokens s
    exact s.agrees laws.tokens laws.weights laws.stakes laws.sessions laws.plain laws.idempotent laws.sync

namespace Reference

theorem mintTo_eq_ok {mintKey authority : Pubkey} {amount : Nat} {mint destination : Account}
    {r : Account × Account} : mintTo mintKey authority amount mint destination = .ok r ↔
      ∃ m t, mint.data = .mint m ∧ openToken destination mintKey = .ok t ∧ mintKey ≠ nativeMintId ∧
        m.mintAuthority = some authority ∧ m.supply + amount < 2 ^ 64 ∧
        r = ({ mint with data := .mint { m with supply := m.supply + amount } },
          { destination with data := .token { t with amount := t.amount + amount } }) := by
  simp only [mintTo, bind_eq_ok, openMint_eq_ok, failIf_eq_ok, exists_unit, pure_eq_ok, Decidable.not_not,
    Nat.not_le]
  constructor
  · rintro ⟨m, hm, t, ht, hnative, hauthority, hsupply, rfl⟩
    exact ⟨m, t, hm, ht, hnative, hauthority, hsupply, rfl⟩
  · rintro ⟨m, t, hm, ht, hnative, hauthority, hsupply, rfl⟩
    exact ⟨m, hm, t, ht, hnative, hauthority, hsupply, rfl⟩

theorem recordLaws : RecordLaws runtime where
  mintTo mintKey authority amount mint destination mint₁ destination₁ r hmint hdestination h := by
    obtain ⟨m, t, hm, ht, hnative, hauthority, hsupply, -⟩ := mintTo_eq_ok.mp h
    refine ⟨_, mintTo_eq_ok.mpr ⟨m, t, hmint.data.trans hm, ?_, hnative, hauthority, hsupply, rfl⟩⟩
    rw [openToken, hdestination.data]
    exact ht
  mintTo_size mintKey authority amount mint destination mint' destination' h := by
    obtain ⟨m, t, -, -, -, -, -, hr⟩ := mintTo_eq_ok.mp h
    cases hr
    exact ⟨rfl, rfl⟩
  create sv space owner payerSigned payer account r h := by
    change createPdaAccount sv space owner payerSigned payer account = _ at h
    simp only [createPdaAccount, bind_eq_ok, failIf_eq_ok, exists_unit, not_or, Decidable.not_not] at h
    exact h.1.2

/-- The user may move what a session of the user may move. -/
theorem mayMove_user {owner session user : Pubkey} (h : (sessionUser session).getD session = user) :
    mayMove owner session (some programSigner) = mayMove owner user none := by
  simp only [mayMove, h, true_and]

theorem plainSessionLaws : PlainSessionLaws runtime where
  burn sv session account user mintKey amount source mint r huser := by
    show burn mintKey session.key (some programSigner) amount source mint = _ ↔
      burn mintKey user none amount source mint = _
    simp only [burn, mayMove_user (extractUser_eq_ok huser)]
  transfer sv session account user mintKey amount decimals mint source destination r huser := by
    show transferChecked mintKey session.key (some programSigner) amount decimals mint source destination = _ ↔
      transferChecked mintKey user none amount decimals mint source destination = _
    simp only [transferChecked, mayMove_user (extractUser_eq_ok huser)]

theorem syncLaw (sv : Sysvars) : SyncLaw runtime sv := by
  rintro user account - ⟨t, hdata, -, hmint, hstate, -⟩
  have hopen : openToken account nativeMintId = .ok t := by
    rw [openToken, hdata]
    exact if_pos ⟨hmint, hstate⟩
  show ∃ account', syncNative account = .ok account' ∧ _
  rw [syncNative, hopen]
  exact ⟨_, rfl, rfl, rfl⟩

theorem pathLaws (prior : Nat) : PathLaws runtime (prefunded prior).sysvars where
  programs := programLaws
  tokens := tokenLaws
  weights := weightLaws
  system := systemLaws
  stakes := stakeLaws
  wrapped := by
    rw [prefunded_sysvars]
    exact wrappedSolLaws 0
  records := recordLaws
  sessions := sessionLaws
  plain := plainSessionLaws
  idempotent := idempotentCreate
  sync := syncLaw _

/-- The transient account of the wallet, whose address holds its rent exemption before. -/
def createdBy (feePayer : AccountMeta) : Except ProgramError Ledger :=
  createTransientWsol runtime (prefunded 2039280).sysvars wallet nativeMintId splTokenId programSigner feePayer
    (writes transientWsol) (prefunded 2039280).ledger

def unwrappedBy (feePayer : AccountMeta) : Except ProgramError Ledger := do
  unwrapIntoReserve runtime (prefunded 2039280).sysvars splTokenId (wsolOf runtime wallet) nativeMintId
    (signs sessionKey) feePayer (writes transientWsol) (writes programSigner) (StakePoolFogo.programSigner runtime).2
    reserve 1000000000 (← createdBy feePayer)

theorem wsolSteps {feePayer : AccountMeta} (hunwrapped : succeeded (unwrappedBy feePayer) = true) :
    ∃ s : WsolSteps runtime (prefunded 2039280).sysvars (prefundedAccounts feePayer) 1000000000
        (prefunded 2039280).ledger, s.reserve = writes reserve ∧ s.feePayer = feePayer ∧
      s.userWsol = writes (wsolOf runtime wallet) ∧ s.transientWsol = writes transientWsol ∧
      ∀ payer, s.solAccounts payer = [writes pool, reads withdrawAuthority, writes reserve, payer, writes ownTokens,
        writes managerFee, writes managerFee, writes mint, reads systemProgramId, reads splTokenId] := by
  obtain ⟨unwrapped, hunwrapped⟩ := succeeded_iff.mp hunwrapped
  obtain ⟨created, hcreated, hunwrapped⟩ := bind_eq_ok.mp hunwrapped
  exact ⟨{
    pool := writes pool, authority := reads withdrawAuthority, reserve := writes reserve
    poolTokensTo := writes ownTokens, managerFee := writes managerFee, referrer := writes managerFee
    mint := writes mint, systemProgram := reads systemProgramId, tokenProgram := reads splTokenId
    session := signs sessionKey, wsolMint := reads nativeMintId, feePayer
    userWsol := writes (wsolOf runtime wallet), transientWsol := writes transientWsol
    signer := writes programSigner, user := wallet, created, unwrapped, pool_at := rfl, authority_at := rfl
    reserve_at := rfl, poolTokensTo_at := rfl, managerFee_at := rfl, referrer_at := rfl, mint_at := rfl
    systemProgram_at := rfl, tokenProgram_at := rfl, session_at := rfl, wsolMint_at := rfl, feePayer_at := rfl
    userWsol_at := rfl, transientWsol_at := rfl, signer_at := rfl, system_key := rfl
    isUser := by decide +kernel
    isSigner := by decide +kernel, create := hcreated, unwrap := hunwrapped }, rfl, rfl, rfl, rfl, fun _ => rfl⟩

/-- The SOL deposit next to `wsolSteps`. -/
def solDeposit : Except ProgramError Ledger :=
  processDepositSol runtime (prefunded 2039280).sysvars [writes pool, reads withdrawAuthority, writes reserve,
    signs payer, writes ownTokens, writes managerFee, writes managerFee, writes mint, reads systemProgramId,
    reads splTokenId] 1000000000 none false (prefunded 2039280).ledger

def wsolChecks : WsolChecks runtime (prefunded 2039280).sysvars sessionWithdrawAccounts
    (prefunded 2039280).ledger where
  pool := writes pool
  authority := reads withdrawAuthority
  session := signs sessionKey
  burnFrom := writes ownTokens
  reserve := writes reserve
  userWsol := writes (wsolOf runtime wallet)
  managerFee := writes managerFee
  mint := writes mint
  clock := reads runtime.clockId
  history := reads runtime.stakeHistoryId
  stakeProgram := reads stakeProgramId
  tokenProgram := reads splTokenId
  wsolMint := reads nativeMintId
  feePayer := signs payer
  userOwner := reads wallet
  systemProgram := reads systemProgramId
  signer := writes programSigner
  associated := reads associatedTokenProgramId
  user := wallet
  pool_at := rfl
  authority_at := rfl
  session_at := rfl
  burnFrom_at := rfl
  reserve_at := rfl
  userWsol_at := rfl
  managerFee_at := rfl
  mint_at := rfl
  clock_at := rfl
  history_at := rfl
  stakeProgram_at := rfl
  tokenProgram_at := rfl
  wsolMint_at := rfl
  feePayer_at := rfl
  userOwner_at := rfl
  systemProgram_at := rfl
  signer_at := rfl
  associated_at := rfl
  system_key := rfl
  system_unsigned := rfl
  associated_key := rfl
  isUser := by decide +kernel
  owner_key := rfl
  pays := rfl
  isSigner := by decide +kernel
  signs := by decide +kernel
  token_key := rfl
  funded := ⟨⟨nativeMintId, wallet, 3000000000, .initialized, []⟩, by decide +kernel, rfl, rfl, rfl,
    by decide +kernel⟩

end Reference

set_option maxRecDepth 4000 in
open Reference in
/-- A wallet deposits one SOL and withdraws one token with its session key. -/
theorem session_paths_agree_wallet :
    (∃ a b, processDepositWsolWithSession runtime (prefunded 2039280).sysvars (prefundedAccounts (signs payer))
        1000000000 (prefunded 2039280).ledger = .ok a ∧ solDeposit = .ok b ∧
      (∀ j, j ≠ wsolOf runtime wallet → (a j).SameRecord (b j)) ∧
      (a reserve).lamports = (b reserve).lamports) ∧
    ∃ a b, processWithdrawWsolWithSession runtime (prefunded 2039280).sysvars sessionWithdrawAccounts 1000000000
        (prefunded 2039280).ledger = .ok a ∧
      processWithdrawSol runtime (prefunded 2039280).sysvars wsolChecks.solAccounts 1000000000 none false
        (prefunded 2039280).ledger = .ok b ∧
      (∀ j, j ≠ wsolOf runtime wallet → a j = b j) ∧
      (a (wsolOf runtime wallet)).lamports = (b (wsolOf runtime wallet)).lamports := by
  constructor
  · obtain ⟨s, hreserve, hpayer, hwsol, htransient, haccounts⟩ :=
      @wsolSteps (signs payer) (by decide +kernel)
    obtain ⟨paid, hpaid⟩ := succeeded_iff.mp (show succeeded (solTransfer runtime (signs payer) reserve 1000000000
      (prefunded 2039280).ledger) = true by decide +kernel)
    obtain ⟨b, hb⟩ := succeeded_iff.mp (show succeeded solDeposit = true by decide +kernel)
    have hpath := (session_paths_agree (pathLaws 2039280) (prefundedAccounts (signs payer))
      (prefunded 2039280).ledger).1 1000000000 s (signs payer) paid
      (by rw [htransient]; decide +kernel) (by rw [hreserve]; decide +kernel) (by rw [hreserve]; exact hpaid)
    rw [haccounts] at hpath
    obtain ⟨a, ha, hsame, hlamports⟩ := hpath.ok_right hb
    rw [hwsol, show (writes (wsolOf runtime wallet)).key = wsolOf runtime wallet from rfl] at hsame
    rw [hreserve, hpayer, if_neg (by decide +kernel), Nat.add_zero,
      show (writes reserve).key = reserve from rfl] at hlamports
    exact ⟨a, b, ha, hb, hsame, hlamports⟩
  · obtain ⟨b, hb⟩ := succeeded_iff.mp (show succeeded (processWithdrawSol runtime (prefunded 2039280).sysvars
      wsolChecks.solAccounts 1000000000 none false (prefunded 2039280).ledger) = true by decide +kernel)
    have hpath := (session_paths_agree (pathLaws 2039280) sessionWithdrawAccounts
      (prefunded 2039280).ledger).2 1000000000 wsolChecks
    obtain ⟨a, ha, hsame, hlamports⟩ := hpath.ok_right hb
    have hwsol : wsolChecks.userWsol.key = wsolOf runtime wallet := rfl
    rw [hwsol] at hsame hlamports
    exact ⟨a, b, ha, hb, hsame, hlamports⟩

open Reference in
/-- With the reserve as its fee payer the same session deposit puts more into the reserve. -/
theorem session_paths_differ :
    ∃ (s : WsolSteps runtime (prefunded 2039280).sysvars (prefundedAccounts (writes reserve)) 1000000000
        (prefunded 2039280).ledger) (a b : Ledger),
      processDepositWsolWithSession runtime (prefunded 2039280).sysvars (prefundedAccounts (writes reserve))
        1000000000 (prefunded 2039280).ledger = .ok a ∧
      processDepositSol runtime (prefunded 2039280).sysvars (s.solAccounts (signs payer)) 1000000000 none false
        (prefunded 2039280).ledger = .ok b ∧
      (a s.reserve.key).lamports = (b s.reserve.key).lamports + 2039280 ∧
      (a s.reserve.key).lamports ≠ (b s.reserve.key).lamports := by
  obtain ⟨s, hreserve, -, -, -, haccounts⟩ := @wsolSteps (writes reserve) (by decide +kernel)
  have hdeposit : succeeded (processDepositWsolWithSession runtime (prefunded 2039280).sysvars
    (prefundedAccounts (writes reserve)) 1000000000 (prefunded 2039280).ledger) = true := by decide +kernel
  obtain ⟨a, ha⟩ := succeeded_iff.mp hdeposit
  obtain ⟨b, hb⟩ := succeeded_iff.mp (show succeeded solDeposit = true by decide +kernel)
  have hlamports : (processDepositWsolWithSession runtime (prefunded 2039280).sysvars
        (prefundedAccounts (writes reserve)) 1000000000 (prefunded 2039280).ledger).map
          (fun u => (u reserve).lamports) =
      solDeposit.map fun u => (u reserve).lamports + 2039280 := by decide +kernel
  rw [ha, hb] at hlamports
  have hlamports : (a reserve).lamports = (b reserve).lamports + 2039280 := Except.ok.inj hlamports
  refine ⟨s, a, b, ha, by rw [haccounts]; exact hb, ?_⟩
  rw [hreserve]
  refine ⟨hlamports, fun heq => ?_⟩
  have heq : (a reserve).lamports = (b reserve).lamports := heq
  omega

end StakePoolFogo
