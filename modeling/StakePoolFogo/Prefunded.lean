import StakePoolFogo.Unwrap

/-!
# A transient address that holds lamports already

Anyone can send lamports to the address of a user's transient account before the user's session deposit.  Up
to the rent exemption the fee payer gets them: the deposit runs as on an empty address, with a fee payer that
much richer.  Above it the balance of the new account is wrong.
-/

open StakePoolFogo.Outcome

namespace StakePoolFogo

/-! ## Richer accounts -/

/-- An account with `n` more lamports. -/
def Account.plus (a : Account) (n : Nat) : Account := { a with lamports := a.lamports + n }

namespace Account

variable (a : Account) (n : Nat)

@[simp] theorem plus_zero : a.plus 0 = a := rfl

@[simp] theorem plus_owner : (a.plus n).owner = a.owner := rfl

@[simp] theorem plus_data : (a.plus n).data = a.data := rfl

@[simp] theorem plus_dataLen : (a.plus n).dataLen = a.dataLen := rfl

@[simp] theorem plus_lamports : (a.plus n).lamports = a.lamports + n := rfl

theorem changedLegally_plus {callees : List Pubkey} {b : Account} (h : a.changedLegally callees b) :
    (a.plus n).changedLegally callees (b.plus n) := by
  rcases h with h | ⟨howner, hlen, hdata, hle⟩
  · exact .inl h
  · exact .inr ⟨howner, hlen, hdata, Nat.add_le_add_right hle n⟩

end Account

/-- On the accounts `keys` the second ledger is the first with `p` more lamports at `u`. -/
def Richer (keys : List Pubkey) (u : Pubkey) (p : Nat) (w w₁ : Ledger) : Prop :=
  ∀ k ∈ keys, w₁ k = (w k).plus (if k = u then p else 0)

/-- What the called programs do is the same with lamports to spare: where an account has more of them than
before, it has so much more of them after. -/
structure SurplusLaws (rt : Runtime) (sv : Sysvars) : Prop where
  extractUser : ∀ info account n, rt.extractUser sv info (account.plus n) = rt.extractUser sv info account
  initializeAccount3 : ∀ mintKey owner mint account account' n,
    rt.token.initializeAccount3 mintKey owner mint account = .ok account' →
    rt.token.initializeAccount3 mintKey owner (mint.plus n) account = .ok account'
  transferChecked : ∀ mintKey authority cosigner amount decimals mint source destination source' destination'
      l m n, rt.token.transferChecked mintKey authority cosigner amount decimals mint source destination =
        .ok (source', destination') →
    rt.token.transferChecked mintKey authority cosigner amount decimals (mint.plus l) (source.plus m)
      (destination.plus n) = .ok (source'.plus m, destination'.plus n)
  close : ∀ authority account destination account' destination' n,
    rt.token.closeAccount authority account destination = .ok (account', destination') →
    rt.token.closeAccount authority account (destination.plus n) = .ok (account', destination'.plus n)
  mintTo : ∀ mintKey authority amount mint destination mint' destination' m n,
    rt.token.mintTo mintKey authority amount mint destination = .ok (mint', destination') →
    rt.token.mintTo mintKey authority amount (mint.plus m) (destination.plus n) =
      .ok (mint'.plus m, destination'.plus n)
  transfer : ∀ lamports source destination source' destination' m n,
    rt.system.transfer lamports source destination = .ok (source', destination') →
    rt.system.transfer lamports (source.plus m) (destination.plus n) = .ok (source'.plus m, destination'.plus n)
  /-- An address that holds a part of its rent exemption costs its payer the rest. -/
  topUp : ∀ space owner payerSigned payer account payer' account' p,
    rt.createPdaAccount sv space owner payerSigned payer account = .ok (payer', account') →
    account.lamports = 0 → p ≤ sv.minimumBalance space →
    rt.createPdaAccount sv space owner payerSigned payer (account.plus p) = .ok (payer'.plus p, account')

/-! ## Steps -/

section Steps

variable {rt : Runtime} {sv : Sysvars} {keys callees : List Pubkey} {u j k : Pubkey} {p : Nat} {w w' w₁ : Ledger}

theorem Richer.set (h : Richer keys u p w w₁) (a : Account) :
    Richer keys u p (w.set j a) (w₁.set j (a.plus (if j = u then p else 0))) := by
  intro k hk
  by_cases hkj : k = j
  · rw [hkj, Ledger.set_same, Ledger.set_same]
  · rw [Ledger.set_other _ _ hkj, Ledger.set_other _ _ hkj]
    exact h k hk

/-- A call about one account. -/
theorem Richer.invoke₁ {f g : Account → Except ProgramError Account} (h : Richer keys u p w w₁) (hk : k ∈ keys)
    (hf : ∀ a, f (w k) = .ok a →
      g ((w k).plus (if k = u then p else 0)) = .ok (a.plus (if k = u then p else 0)))
    (hcall : invoke₁ callees k f w = .ok w') :
    ∃ w₁', StakePoolFogo.invoke₁ callees k g w₁ = .ok w₁' ∧ Richer keys u p w' w₁' := by
  obtain ⟨a, ha, hlegal, hsame, rfl⟩ := invoke₁_eq_ok.mp hcall
  refine ⟨_, invoke₁_eq_ok.mpr ⟨a.plus (if k = u then p else 0), ?_, ?_, ?_, rfl⟩, h.set a⟩
  · rw [h k hk]
    exact hf _ ha
  · rw [h k hk]
    exact Account.changedLegally_plus _ _ hlegal
  · rw [h k hk, Account.plus_lamports, Account.plus_lamports, hsame]

/-- A call about two. -/
theorem Richer.invoke₂ {f g : Account → Account → Except ProgramError (Account × Account)}
    (h : Richer keys u p w w₁) (hj : j ∈ keys) (hk : k ∈ keys)
    (hf : ∀ a b, f (w j) (w k) = .ok (a, b) →
      g ((w j).plus (if j = u then p else 0)) ((w k).plus (if k = u then p else 0)) =
        .ok (a.plus (if j = u then p else 0), b.plus (if k = u then p else 0)))
    (hcall : invoke₂ callees j k f w = .ok w') :
    ∃ w₁', StakePoolFogo.invoke₂ callees j k g w₁ = .ok w₁' ∧ Richer keys u p w' w₁' := by
  obtain ⟨hne, a, b, hab, hja, hkb, hsum, rfl⟩ := invoke₂_eq_ok.mp hcall
  refine ⟨_, invoke₂_eq_ok.mpr ⟨hne, a.plus (if j = u then p else 0), b.plus (if k = u then p else 0), ?_, ?_, ?_,
    ?_, rfl⟩, (h.set a).set b⟩
  · rw [h j hj, h k hk]
    exact hf _ _ hab
  · rw [h j hj]
    exact Account.changedLegally_plus _ _ hja
  · rw [h k hk]
    exact Account.changedLegally_plus _ _ hkb
  · rw [h j hj, h k hk]
    simp only [Account.plus_lamports]
    omega

/-- A call that moves lamports or tokens. -/
theorem Richer.invokeMove {f g : Account → Account → Except ProgramError (Account × Account)}
    (h : Richer keys u p w w₁) (hj : j ∈ keys) (hk : k ∈ keys)
    (hf : ∀ a b, f (w j) (w k) = .ok (a, b) →
      g ((w j).plus (if j = u then p else 0)) ((w k).plus (if k = u then p else 0)) =
        .ok (a.plus (if j = u then p else 0), b.plus (if k = u then p else 0)))
    (hcall : invokeMove callees j k f w = .ok w') :
    ∃ w₁', StakePoolFogo.invokeMove callees j k g w₁ = .ok w₁' ∧ Richer keys u p w' w₁' := by
  unfold StakePoolFogo.invokeMove at hcall ⊢
  split at hcall
  · rename_i heq
    obtain ⟨⟨a, b⟩, hab, hsame⟩ := bind_eq_ok.mp hcall
    obtain rfl := pure_eq_ok.mp hsame
    refine ⟨w₁, ?_, h⟩
    rw [if_pos heq, h j hj, h k hk, hf a b hab]
    rfl
  · rename_i hne
    rw [if_neg hne]
    exact h.invoke₂ hj hk hf hcall

theorem Richer.onlyIf {c : Prop} [Decidable c] {f g : Ledger → Except ProgramError Ledger}
    (h : Richer keys u p w w₁)
    (hf : f w = .ok w' → ∃ w₁', g w₁ = .ok w₁' ∧ Richer keys u p w' w₁')
    (hcall : onlyIf c f w = .ok w') :
    ∃ w₁', Outcome.onlyIf c g w₁ = .ok w₁' ∧ Richer keys u p w' w₁' := by
  by_cases hc : c
  · simp only [Outcome.onlyIf, if_pos hc] at hcall ⊢
    exact hf hcall
  · simp only [Outcome.onlyIf, if_neg hc] at hcall ⊢
    obtain rfl := Except.ok.inj hcall
    exact ⟨w₁, rfl, h⟩

/-! ## The deposit -/

theorem Richer.loadStakePool (h : Richer keys u p w w₁) (hk : k ∈ keys) :
    StakePoolFogo.loadStakePool rt w₁ k = StakePoolFogo.loadStakePool rt w k := by
  unfold StakePoolFogo.loadStakePool
  rw [h k hk]
  rfl

theorem Richer.checkMint (h : Richer keys u p w w₁) (hk : k ∈ keys) (q : StakePool) :
    q.checkMint w₁ k = q.checkMint w k := by
  unfold StakePool.checkMint
  rw [h k hk]
  rfl

theorem Richer.writeStakePool {q : StakePool} (h : Richer keys u p w w₁) (hk : k ∈ keys)
    (hcall : writeStakePool w k q = .ok w') :
    ∃ w₁', StakePoolFogo.writeStakePool w₁ k q = .ok w₁' ∧ Richer keys u p w' w₁' := by
  obtain ⟨hlen, rfl⟩ := writeStakePool_eq_ok.mp hcall
  have hset := h.set (j := k) { w k with data := .stakePool q }
  refine ⟨_, writeStakePool_eq_ok.mpr ⟨?_, rfl⟩, ?_⟩
  · rw [h k hk]
    exact hlen
  · rw [h k hk]
    exact hset

variable (surplus : SurplusLaws rt sv) {signer authority : AccountMeta} {bump : UInt8} {amount : Nat}
  {tokenProgram mint destination manager referrer pool : Pubkey}
include surplus

theorem Richer.programSignerTransfer (h : Richer keys u p w w₁) (hsigner : signer.key ∈ keys)
    (hdestination : destination ∈ keys)
    (hcall : programSignerTransfer rt signer bump destination amount w = .ok w') :
    ∃ w₁', StakePoolFogo.programSignerTransfer rt signer bump destination amount w₁ = .ok w₁' ∧
      Richer keys u p w' w₁' := by
  simp only [StakePoolFogo.programSignerTransfer, bind_eq_ok, exists_unit] at hcall ⊢
  obtain ⟨derived, hderived, hsign, hcall⟩ := hcall
  obtain ⟨w₁', hcall', hricher⟩ := h.invokeMove hsigner hdestination
    (fun a b hab => surplus.transfer _ _ _ _ _ _ _ hab) hcall
  exact ⟨w₁', ⟨derived, hderived, hsign, hcall'⟩, hricher⟩

theorem Richer.tokenMintTo (h : Richer keys u p w w₁) (hmint : mint ∈ keys) (hdestination : destination ∈ keys)
    (hcall : tokenMintTo rt pool tokenProgram mint destination authority bump amount w = .ok w') :
    ∃ w₁', StakePoolFogo.tokenMintTo rt pool tokenProgram mint destination authority bump amount w₁ = .ok w₁' ∧
      Richer keys u p w' w₁' := by
  simp only [StakePoolFogo.tokenMintTo, bind_eq_ok, exists_unit] at hcall ⊢
  obtain ⟨hprogram, hsign, hcall⟩ := hcall
  obtain ⟨w₁', hcall', hricher⟩ := h.invoke₂ hmint hdestination
    (fun a b hab => surplus.mintTo _ _ _ _ _ _ _ _ _ hab) hcall
  exact ⟨w₁', ⟨hprogram, hsign, hcall'⟩, hricher⟩

theorem Richer.mintShares {shares : DepositShares} {user : Pubkey} (h : Richer keys u p w w₁)
    (hmint : mint ∈ keys) (huser : user ∈ keys) (hmanager : manager ∈ keys) (hreferrer : referrer ∈ keys)
    (hcall : mintShares rt pool tokenProgram mint user manager referrer authority bump shares w = .ok w') :
    ∃ w₁', StakePoolFogo.mintShares rt pool tokenProgram mint user manager referrer authority bump shares w₁ =
      .ok w₁' ∧ Richer keys u p w' w₁' := by
  simp only [StakePoolFogo.mintShares, bind_eq_ok] at hcall ⊢
  obtain ⟨a, ha, b, hb, hc⟩ := hcall
  obtain ⟨a₁, ha₁, hra⟩ := h.tokenMintTo surplus hmint huser ha
  obtain ⟨b₁, hb₁, hrb⟩ := hra.onlyIf (fun hcall => hra.tokenMintTo surplus hmint hmanager hcall) hb
  obtain ⟨w₁', hc₁, hrc⟩ := hrb.onlyIf (fun hcall => hrb.tokenMintTo surplus hmint hreferrer hcall) hc
  exact ⟨w₁', ⟨a₁, ha₁, b₁, hb₁, hc₁⟩, hrc⟩

theorem Richer.processDepositSol {accounts : List AccountMeta} {lamports : Nat} {minimum : Option Nat}
    (h : Richer keys u p w w₁) (hkeys : ∀ info ∈ accounts, info.key ∈ keys)
    (hcall : processDepositSol rt sv accounts lamports minimum true w = .ok w') :
    ∃ w₁', StakePoolFogo.processDepositSol rt sv accounts lamports minimum true w₁ = .ok w₁' ∧
      Richer keys u p w' w₁' := by
  have hat : ∀ {i : Nat} {info : AccountMeta}, accountAt accounts i = .ok info → info.key ∈ keys :=
    fun hinfo => hkeys _ (accountAt_mem hinfo)
  simp only [StakePoolFogo.processDepositSol, bind_eq_ok, exists_unit] at hcall ⊢
  obtain ⟨pool, hpool, withdrawAuthority, hauthority, reserve, hreserve, payer, hpayer, user, huser, manager,
    hmanager, referrer, hreferrer, mint, hmint, systemProgram, hsystem, tokenProgram, htoken, hcall⟩ := hcall
  obtain ⟨q, hq, hisAuthority, hmay, decimals, hdecimals, hisReserve, hprogram, hsystemKey, hfee, hdate, shares,
    hshares, paid, hpay, minted, hminted, q', hrecord, hwrite⟩ := hcall
  -- The lamports are in the reserve already.
  obtain rfl : w = paid := by
    rw [Outcome.onlyIf, if_neg (by decide)] at hpay
    exact Except.ok.inj hpay
  obtain ⟨minted₁, hminted₁, hricher⟩ :=
    h.mintShares surplus (hat hmint) (hat huser) (hat hmanager) (hat hreferrer) hminted
  obtain ⟨w₁', hwrite₁, hricher'⟩ := hricher.writeStakePool (hat hpool) hwrite
  refine ⟨w₁', ⟨pool, hpool, withdrawAuthority, hauthority, reserve, hreserve, payer, hpayer, user, huser, manager,
    hmanager, referrer, hreferrer, mint, hmint, systemProgram, hsystem, tokenProgram, htoken, q, ?_, hisAuthority,
    hmay, decimals, ?_, hisReserve, hprogram, hsystemKey, hfee, hdate, shares, hshares, w₁, ?_, minted₁, hminted₁,
    q', hrecord, hwrite₁⟩, hricher'⟩
  · rw [h.loadStakePool (hat hpool)]
    exact hq
  · rw [h.checkMint (hat hmint)]
    exact hdecimals
  · rw [Outcome.onlyIf, if_neg (by decide)]

/-- The unwrapping, where the richer account is not the transient one. -/
theorem Richer.unwrapIntoReserve {userWsol wsolMint reserve : Pubkey}
    {session feePayer transientWsol : AccountMeta} {lamports : Nat} (h : Richer keys u p w w₁)
    (hne : transientWsol.key ≠ u) (hsigner : signer.key ∈ keys) (hreserve : reserve ∈ keys)
    (huserWsol : userWsol ∈ keys) (hwsolMint : wsolMint ∈ keys) (hfeePayer : feePayer.key ∈ keys)
    (htransient : transientWsol.key ∈ keys)
    (hcall : unwrapIntoReserve rt sv tokenProgram userWsol wsolMint session feePayer transientWsol signer bump
      reserve lamports w = .ok w') :
    ∃ w₁', StakePoolFogo.unwrapIntoReserve rt sv tokenProgram userWsol wsolMint session feePayer transientWsol
      signer bump reserve lamports w₁ = .ok w₁' ∧ Richer keys u p w' w₁' := by
  simp only [StakePoolFogo.unwrapIntoReserve, bind_eq_ok, exists_unit] at hcall ⊢
  obtain ⟨hsession, a, htransfer, balance, hbalance, hexact, hprogram, b, hclose, c, hrefund, hforward⟩ := hcall
  obtain ⟨a₁, htransfer₁, hra⟩ := h.invokeMove huserWsol htransient
    (g := rt.token.transferChecked wsolMint session.key (some signer.key) lamports 9 (w₁ wsolMint))
    (fun s t hst => by
      rw [h _ hwsolMint]
      exact surplus.transferChecked _ _ _ _ _ _ _ _ _ _ _ _ _ hst) htransfer
  have hbalance₁ : (a₁ transientWsol.key).unpackToken = .ok balance := by
    rw [hra _ htransient]
    exact hbalance
  obtain ⟨b₁, hclose₁, hrb⟩ := hra.invoke₂ htransient hsigner
    (fun s t hst => by
      rw [if_neg hne]
      exact surplus.close _ _ _ _ _ _ hst) hclose
  obtain ⟨c₁, hrefund₁, hrc⟩ := hrb.programSignerTransfer surplus hsigner hfeePayer hrefund
  obtain ⟨w₁', hforward₁, hricher⟩ := hrc.programSignerTransfer surplus hsigner hreserve hforward
  exact ⟨w₁', ⟨hsession, a₁, htransfer₁, balance, hbalance₁, hexact, hprogram, b₁, hclose₁, c₁, hrefund₁,
    hforward₁⟩, hricher⟩

/-- Creating the transient account costs the fee payer so much less. -/
theorem Richer.createTransientWsol (wrapped : WrappedSolLaws rt sv) {user wsolMint programSigner : Pubkey}
    {feePayer transientWsol : AccountMeta} (h : Richer keys transientWsol.key p w w₁)
    (htransient : transientWsol.key ∈ keys) (hfeePayer : feePayer.key ∈ keys) (hwsolMint : wsolMint ∈ keys)
    (hzero : (w transientWsol.key).lamports = 0) (hle : p ≤ sv.minimumBalance tokenAccountLen)
    (hcall : createTransientWsol rt sv user wsolMint tokenProgram programSigner feePayer transientWsol w =
      .ok w') :
    transientWsol.key ≠ feePayer.key ∧
      ∃ w₁', StakePoolFogo.createTransientWsol rt sv user wsolMint tokenProgram programSigner feePayer
        transientWsol w₁ = .ok w₁' ∧ Richer keys feePayer.key p w' w₁' := by
  simp only [StakePoolFogo.createTransientWsol, bind_eq_ok, exists_unit] at hcall ⊢
  obtain ⟨hseeds, derived, hderived, hsign, a, hpda, hprogram, hinit⟩ := hcall
  have hrent := wrapped.rent_pos tokenAccountLen
  rcases ite_eq_ok.mp hpda with ⟨-, hself⟩ | ⟨hne, hpaid⟩
  · -- An account cannot pay its own rent out of nothing.
    obtain ⟨-, hcreate, -⟩ := invoke₁_spec hself
    rw [map_eq_ok] at hcreate
    obtain ⟨⟨payer', account'⟩, hcreate, haccount⟩ := hcreate
    obtain ⟨-, -, -, -, hfunded⟩ := wrapped.create _ _ _ _ _ _ _ hcreate
    have hsame := SameLamports.of_invoke₁ hself transientWsol.key
    have hfunded : (a transientWsol.key).lamports = (w transientWsol.key).lamports +
        (sv.minimumBalance tokenAccountLen - (w transientWsol.key).lamports) := by
      rw [← haccount, hfunded]
    omega
  obtain ⟨-, payer', account', hcreate, -, -, hsum, hset⟩ := invoke₂_eq_ok.mp hpaid
  obtain ⟨howner, -, hpayerOwner, hpayer', haccount'⟩ := wrapped.create _ _ _ _ _ _ _ hcreate
  have hsystem : (w feePayer.key).owner = rt.systemProgramId := hpayerOwner (by omega)
  have hfeePayer₁ : w₁ feePayer.key = w feePayer.key := by
    rw [h _ hfeePayer, if_neg hne, Account.plus_zero]
  have htransient₁ : w₁ transientWsol.key = (w transientWsol.key).plus p := by
    rw [h _ htransient, if_pos rfl]
  have hpda₁ : invokeCreate [rt.systemProgramId] feePayer.key transientWsol.key
      (rt.createPdaAccount sv tokenAccountLen tokenProgram feePayer.isSigner) w₁ =
        .ok ((w₁.set feePayer.key (payer'.plus p)).set transientWsol.key account') := by
    rw [invokeCreate, if_neg hne]
    refine invoke₂_eq_ok.mpr ⟨hne, _, _, ?_, ?_, ?_, ?_, rfl⟩
    · rw [hfeePayer₁, htransient₁]
      exact surplus.topUp _ _ _ _ _ _ _ _ hcreate hzero hle
    · have hkept : payer'.owner = rt.systemProgramId := by
        rw [hpayer']
        exact hsystem
      rw [hfeePayer₁]
      exact .inl ⟨List.mem_singleton.mpr hsystem, .inl (List.mem_singleton.mpr hkept)⟩
    · have hempty : account'.data = .zeroed := by rw [haccount']
      rw [htransient₁]
      exact .inl ⟨List.mem_singleton.mpr howner, .inr hempty⟩
    · rw [hfeePayer₁, htransient₁]
      simp only [Account.plus_lamports]
      omega
  have hricher : Richer keys feePayer.key p a
      ((w₁.set feePayer.key (payer'.plus p)).set transientWsol.key account') := by
    intro k hk
    rw [hset]
    by_cases hkt : k = transientWsol.key
    · rw [hkt, Ledger.set_same, Ledger.set_same, if_neg (Ne.symm hne), Account.plus_zero]
    rw [Ledger.set_other _ _ hkt, Ledger.set_other _ _ hkt]
    by_cases hkf : k = feePayer.key
    · rw [hkf, Ledger.set_same, Ledger.set_same, if_pos rfl]
    · rw [Ledger.set_other _ _ hkf, Ledger.set_other _ _ hkf, h k hk, if_neg hkt, if_neg hkf]
  obtain ⟨w₁', hinit₁, hricher'⟩ := hricher.invoke₁ htransient
    (g := rt.token.initializeAccount3 wsolMint programSigner
      (((w₁.set feePayer.key (payer'.plus p)).set transientWsol.key account') wsolMint))
    (fun b hb => by
      rw [hricher _ hwsolMint, if_neg (Ne.symm hne)]
      exact surplus.initializeAccount3 _ _ _ _ _ _ hb) hinit
  exact ⟨Ne.symm hne, w₁', ⟨hseeds, derived, hderived, hsign, _, hpda₁, hprogram, hinit₁⟩, hricher'⟩

end Steps

/-! ## Who can be blocked -/

section Deposit

variable {rt : Runtime} {sv : Sysvars} {accounts : List AccountMeta} {lamports p : Nat} {w w' w₁ : Ledger}
  {transientWsol : AccountMeta}

/-- `p` lamports came to the address of the transient account, from outside the instruction's accounts. -/
structure Prefunded (accounts : List AccountMeta) (transientWsol : Pubkey) (p : Nat) (w w₁ : Ledger) : Prop where
  funded : w₁ transientWsol = (w transientWsol).plus p
  others : ∀ info ∈ accounts, info.key ≠ transientWsol → w₁ info.key = w info.key

theorem Prefunded.richer (h : Prefunded accounts transientWsol.key p w w₁) :
    Richer (accounts.map (·.key)) transientWsol.key p w w₁ := by
  intro k hk
  obtain ⟨info, hinfo, rfl⟩ := List.mem_map.mp hk
  by_cases heq : info.key = transientWsol.key
  · rw [if_pos heq, heq]
    exact h.funded
  · rw [if_neg heq, Account.plus_zero]
    exact h.others info hinfo heq

/-- Up to the rent exemption, the deposit goes through. -/
theorem session_deposit_prefunded (surplus : SurplusLaws rt sv) (wrapped : WrappedSolLaws rt sv)
    (hat : accounts[13]? = some transientWsol) (hzero : (w transientWsol.key).lamports = 0)
    (hprefunded : Prefunded accounts transientWsol.key p w w₁) (hle : p ≤ sv.minimumBalance tokenAccountLen)
    (hok : processDepositWsolWithSession rt sv accounts lamports w = .ok w') :
    ∃ w₁', processDepositWsolWithSession rt sv accounts lamports w₁ = .ok w₁' := by
  have hricher := hprefunded.richer
  have hkeys : ∀ {i : Nat} {info : AccountMeta}, accountAt accounts i = .ok info →
      info.key ∈ accounts.map (·.key) := fun hinfo => List.mem_map_of_mem (accountAt_mem hinfo)
  simp only [processDepositWsolWithSession, bind_eq_ok, exists_unit] at hok ⊢
  obtain ⟨pool, hpool, authority, hauthority, reserve, hreserve, poolTokensTo, hpoolTokensTo, managerFee,
    hmanagerFee, referrer, hreferrer, mint, hmint, systemProgram, hsystemProgram, tokenProgram, htokenProgram,
    session, hsession, h⟩ := hok
  obtain ⟨wsolMint, hwsolMint, feePayer, hfeePayer, userWsol, huserWsol, transientWsol', htransient, signer,
    hsigner, hsystem, user, huser, hisSigner, created, hcreate, unwrapped, hunwrap, hdeposit⟩ := h
  obtain rfl : transientWsol = transientWsol' := Option.some.inj (hat.symm.trans (accountAt_eq_ok.mp htransient))
  have huser₁ : checkSessionUser rt sv session wsolMint.key userWsol.key tokenProgram.key w₁ = .ok user := by
    obtain ⟨hnative, hmintOwner, hwsolOwner, hextract, haddress⟩ := (checkSessionUser_eq_ok rt sv).mp huser
    refine (checkSessionUser_eq_ok rt sv).mpr ⟨hnative, ?_, ?_, ?_, haddress⟩
    · rw [hricher _ (hkeys hwsolMint)]
      exact hmintOwner
    · rw [hricher _ (hkeys huserWsol)]
      exact hwsolOwner
    · rw [hricher _ (hkeys hsession), surplus.extractUser]
      exact hextract
  obtain ⟨hne, created₁, hcreate₁, hricher₁⟩ := hricher.createTransientWsol surplus wrapped (hkeys htransient)
    (hkeys hfeePayer) (hkeys hwsolMint) hzero hle hcreate
  obtain ⟨unwrapped₁, hunwrap₁, hricher₂⟩ := hricher₁.unwrapIntoReserve surplus hne (hkeys hsigner)
    (hkeys hreserve) (hkeys huserWsol) (hkeys hwsolMint) (hkeys hfeePayer) (hkeys htransient) hunwrap
  have hinner : ∀ info ∈ [pool, authority, reserve, reserve, poolTokensTo, managerFee, referrer, mint,
      systemProgram, tokenProgram] ++ accounts[15]?.toList, info.key ∈ accounts.map (·.key) := by
    intro info hinfo
    rcases List.mem_append.mp hinfo with hinfo | hinfo
    · simp only [List.mem_cons, List.not_mem_nil, or_false] at hinfo
      rcases hinfo with rfl | rfl | rfl | rfl | rfl | rfl | rfl | rfl | rfl | rfl
      · exact hkeys hpool
      · exact hkeys hauthority
      · exact hkeys hreserve
      · exact hkeys hreserve
      · exact hkeys hpoolTokensTo
      · exact hkeys hmanagerFee
      · exact hkeys hreferrer
      · exact hkeys hmint
      · exact hkeys hsystemProgram
      · exact hkeys htokenProgram
    · exact List.mem_map_of_mem (List.mem_of_getElem? (Option.mem_toList.mp hinfo))
  obtain ⟨w₁', hdeposit₁, -⟩ := hricher₂.processDepositSol surplus hinner hdeposit
  exact ⟨w₁', pool, hpool, authority, hauthority, reserve, hreserve, poolTokensTo, hpoolTokensTo, managerFee,
    hmanagerFee, referrer, hreferrer, mint, hmint, systemProgram, hsystemProgram, tokenProgram, htokenProgram,
    session, hsession, wsolMint, hwsolMint, feePayer, hfeePayer, userWsol, huserWsol, transientWsol, htransient,
    signer, hsigner, hsystem, user, huser₁, hisSigner, created₁, hcreate₁, unwrapped₁, hunwrap₁, hdeposit₁⟩

/-- A deposit that would succeed on an empty transient address is blocked by more than the rent exemption
sent there before, and by nothing less. -/
theorem session_deposit_blocked_iff (laws : ProgramLaws rt) (weights : WeightLaws rt)
    (system : SystemLaws rt) (wrapped : WrappedSolLaws rt sv) (surplus : SurplusLaws rt sv)
    (hat : accounts[13]? = some transientWsol) (hzero : (w transientWsol.key).lamports = 0)
    (hprefunded : Prefunded accounts transientWsol.key p w w₁)
    (hok : processDepositWsolWithSession rt sv accounts lamports w = .ok w') :
    (∃ w₁', processDepositWsolWithSession rt sv accounts lamports w₁ = .ok w₁') ↔
      p ≤ sv.minimumBalance tokenAccountLen := by
  constructor
  · rintro ⟨w₁', h⟩
    obtain ⟨r⟩ := processDepositWsolWithSession_run rt sv h
    obtain ⟨hle, -⟩ := r.balances laws weights system wrapped
    have htransient : transientWsol = r.transientWsol := Option.some.inj (hat.symm.trans r.transientWsol_at)
    rw [← htransient, hprefunded.funded, Account.plus_lamports, hzero, Nat.zero_add] at hle
    exact hle
  · intro hle
    exact session_deposit_prefunded surplus wrapped hat hzero hprefunded hle hok

end Deposit

section Example

open Reference

theorem openMint_plus (a : Account) (n : Nat) : openMint (a.plus n) = openMint a := rfl

theorem openToken_plus (a : Account) (n : Nat) (mintKey : Pubkey) :
    openToken (a.plus n) mintKey = openToken a mintKey := rfl

theorem surplusLaws (epoch : Epoch) : SurplusLaws runtime (sysvars epoch) where
  extractUser _ _ _ := rfl
  initializeAccount3 _ _ _ _ _ _ h := h
  transferChecked mintKey authority cosigner amount decimals mint source destination source' destination' l m n h := by
    change Reference.transferChecked _ _ _ _ _ _ _ _ = _ at h
    change Reference.transferChecked _ _ _ _ _ _ _ _ = _
    simp only [Reference.transferChecked, openMint_plus, openToken_plus, bind_eq_ok, failIf_eq_ok, exists_unit,
      pure_eq_ok, Prod.mk.injEq] at h ⊢
    obtain ⟨mintData, hmint, t, ht, v, hv, hdecimals, hmove, hamount, hlamports, rfl, rfl⟩ := h
    have henough : ¬ (source.plus m).lamports < if mintKey = nativeMintId then amount else 0 := by
      show ¬ source.lamports + m < _
      omega
    refine ⟨mintData, hmint, t, ht, v, hv, hdecimals, hmove, hamount, henough, ?_, ?_⟩
    · simp only [Account.plus, Account.mk.injEq, and_true]
      omega
    · simp only [Account.plus, Account.mk.injEq, and_true]
      omega
  close authority account destination account' destination' n h := by
    change Reference.closeAccount _ _ _ = _ at h
    change Reference.closeAccount _ _ _ = _
    unfold Reference.closeAccount at h ⊢
    split at h
    · simp only [bind_eq_ok, failIf_eq_ok, exists_unit, pure_eq_ok, Prod.mk.injEq] at h ⊢
      obtain ⟨howner, hempty, rfl, rfl⟩ := h
      refine ⟨howner, hempty, rfl, ?_⟩
      simp only [Account.plus, Account.mk.injEq, and_true]
      omega
    · cases h
  mintTo mintKey authority amount mint destination mint' destination' m n h := by
    change Reference.mintTo _ _ _ _ _ = _ at h
    change Reference.mintTo _ _ _ _ _ = _
    simp only [Reference.mintTo, openMint_plus, openToken_plus, bind_eq_ok, failIf_eq_ok, exists_unit, pure_eq_ok,
      Prod.mk.injEq] at h ⊢
    obtain ⟨mintData, hmint, t, ht, hnative, hauthority, hsupply, rfl, rfl⟩ := h
    exact ⟨mintData, hmint, t, ht, hnative, hauthority, hsupply, rfl, rfl⟩
  transfer lamports source destination source' destination' m n h := by
    change Reference.transfer _ _ _ = _ at h
    change Reference.transfer _ _ _ = _
    simp only [Reference.transfer, bind_eq_ok, failIf_eq_ok, exists_unit, pure_eq_ok, Prod.mk.injEq] at h ⊢
    obtain ⟨hsystem, hlamports, rfl, rfl⟩ := h
    have henough : ¬ (source.plus m).lamports < lamports := by
      show ¬ source.lamports + m < _
      omega
    refine ⟨hsystem, henough, ?_, ?_⟩
    · simp only [Account.plus, Account.mk.injEq, and_true]
      omega
    · simp only [Account.plus, Account.mk.injEq, and_true]
      omega
  topUp space owner payerSigned payer account payer' account' p h hzero hle := by
    change Reference.createPdaAccount (sysvars epoch) _ _ _ _ _ = _ at h
    change Reference.createPdaAccount (sysvars epoch) _ _ _ _ _ = _
    change p ≤ minimumBalance space at hle
    simp only [Reference.createPdaAccount, bind_eq_ok, failIf_eq_ok, exists_unit, pure_eq_ok, Prod.mk.injEq] at h ⊢
    obtain ⟨hfresh, hsigned, hfunds, rfl, rfl⟩ := h
    have hplus : (account.plus p).lamports = account.lamports + p := rfl
    refine ⟨hfresh, fun hmissing => hsigned ⟨by omega, hmissing.2⟩, by omega, ?_, ?_⟩
    · simp only [Account.plus, Account.mk.injEq, and_true]
      omega
    · simp only [Account.mk.injEq, and_true]
      omega

/-- Lamports sent to the wallet's transient address. -/
def sentAhead (p : Nat) : Ledger := inSession.ledger.set transientWsol ((inSession.ledger transientWsol).plus p)

theorem sentAhead_prefunded (p : Nat) :
    Prefunded (sessionDepositAccounts ownTokens) (writes transientWsol).key p inSession.ledger (sentAhead p) where
  funded := Ledger.set_same ..
  others _ _ hne := Ledger.set_other _ _ hne

theorem inSession_deposits : ∃ w', processDepositWsolWithSession runtime (sysvars 0)
    (sessionDepositAccounts ownTokens) 1000000000 inSession.ledger = .ok w' :=
  succeeded_iff.mp (by decide +kernel)

/-- The rent exemption itself does no harm. -/
theorem session_deposit_sent_rent : ∃ w', processDepositWsolWithSession runtime (sysvars 0)
    (sessionDepositAccounts ownTokens) 1000000000 (sentAhead 2039280) = .ok w' := by
  obtain ⟨w', hw'⟩ := inSession_deposits
  have hat : (sessionDepositAccounts ownTokens)[13]? = some (writes transientWsol) := rfl
  have hempty : (inSession.ledger (writes transientWsol).key).lamports = 0 := by decide +kernel
  exact (session_deposit_blocked_iff programLaws weightLaws systemLaws (wrappedSolLaws 0) (surplusLaws 0) hat
    hempty (sentAhead_prefunded 2039280) hw').mpr (by decide)

/-- One lamport more blocks the deposit. -/
theorem session_deposit_blocked :
    (∃ w', processDepositWsolWithSession runtime (sysvars 0) (sessionDepositAccounts ownTokens) 1000000000
      inSession.ledger = .ok w') ∧
    (inSession.ledger transientWsol).lamports = 0 ∧
    Prefunded (sessionDepositAccounts ownTokens) transientWsol 2039281 inSession.ledger (sentAhead 2039281) ∧
    ∀ w', processDepositWsolWithSession runtime (sysvars 0) (sessionDepositAccounts ownTokens) 1000000000
      (sentAhead 2039281) ≠ .ok w' := by
  refine ⟨inSession_deposits, by decide +kernel, sentAhead_prefunded 2039281, fun w' hw' => ?_⟩
  have hfailed : succeeded (processDepositWsolWithSession runtime (sysvars 0) (sessionDepositAccounts ownTokens)
    1000000000 (sentAhead 2039281)) = false := by decide +kernel
  rw [hw'] at hfailed
  cases hfailed

end Example

end StakePoolFogo
