import StakePoolFogo.World

/-!
# The recorded supply and the mint

`StakePool.poolTokenSupply` mirrors the supply of the pool mint.  `MintChange` follows the mint
through the calls of a handler; the two change by the same amount, and `UpdateStakePoolBalance` reads
the mint again.
-/

open StakePoolFogo.Checked StakePoolFogo.Outcome

namespace StakePoolFogo

/-- The supply of the mint at `x`, if there is one, goes through `f`; nothing else of it changes. -/
def MintChange (rt : Runtime) (x : Pubkey) (w w' : Ledger) (f : Nat → Nat) : Prop :=
  ∀ m, rt.isTokenProgram (w x).owner → (w x).data = .mint m →
    (w' x).owner = (w x).owner ∧ (w' x).data = .mint { m with supply := f m.supply }

variable {rt : Runtime} {sv : Sysvars} {x : Pubkey} {w w' w'' : Ledger}

namespace MintChange

theorem trans {f g : Nat → Nat} (h : MintChange rt x w w' f) (h' : MintChange rt x w' w'' g) :
    MintChange rt x w w'' (g ∘ f) := by
  intro m howner hdata
  obtain ⟨ho, hd⟩ := h m howner hdata
  obtain ⟨ho', hd'⟩ := h' _ (by rw [ho]; exact howner) hd
  exact ⟨ho'.trans ho, hd'⟩

theorem of_eq (h : w' x = w x) : MintChange rt x w w' id := by
  intro m _ hdata
  rw [h]
  exact ⟨rfl, hdata⟩

/-- Programs other than the token programs leave mints alone. -/
theorem of_frames {callees : List Pubkey} (hc : ∀ k, rt.isTokenProgram k → k ∉ callees)
    (h : Frames callees w w') : MintChange rt x w w' id := by
  intro m howner hdata
  have hk := h.others x (hc _ howner)
  exact ⟨hk.owner, hk.data.trans hdata⟩

theorem of_onlyIf {c : Prop} [Decidable c] {f : Ledger → Except ProgramError Ledger}
    (hf : ∀ u, f w = .ok u → MintChange rt x w u id) (h : onlyIf c f w = .ok w') :
    MintChange rt x w w' id := by
  rcases onlyIf_eq_ok.mp h with ⟨-, hu⟩ | ⟨-, rfl⟩
  · exact hf _ hu
  · exact of_eq rfl

/-- A call that writes two accounts, neither of them a mint. -/
theorem of_invoke₂ {callees : List Pubkey} {j k : Pubkey}
    {f : Account → Account → Except ProgramError (Account × Account)}
    (hj : ∀ a b, f (w j) (w k) = .ok (a, b) → x = j → ∀ m, (w j).data = .mint m →
      a.owner = (w j).owner ∧ a.data = (w j).data)
    (hk : ∀ a b, f (w j) (w k) = .ok (a, b) → x = k → ∀ m, (w k).data = .mint m →
      b.owner = (w k).owner ∧ b.data = (w k).data)
    (h : invoke₂ callees j k f w = .ok w') : MintChange rt x w w' id := by
  obtain ⟨hne, a, b, hf, -, -, -, rfl⟩ := invoke₂_eq_ok.mp h
  intro m _ hdata
  by_cases hxk : x = k
  · subst hxk
    rw [Ledger.set_same]
    obtain ⟨ho, hd⟩ := hk a b hf rfl m hdata
    exact ⟨ho, hd.trans hdata⟩
  · rw [Ledger.set_other _ _ hxk]
    by_cases hxj : x = j
    · subst hxj
      rw [Ledger.set_same]
      obtain ⟨ho, hd⟩ := hj a b hf rfl m hdata
      exact ⟨ho, hd.trans hdata⟩
    · rw [Ledger.set_other _ _ hxj]
      exact ⟨rfl, hdata⟩

end MintChange

/-! ## Token instructions -/

section Calls

variable (laws : TokenLaws rt)

include laws

theorem invokeTransfer_mint {callees : List Pubkey} {source destination mintKey authority : Pubkey}
    {cosigner : Option Pubkey} {amount : Nat} {decimals : UInt8} {mint : Account}
    (h : invokeMove callees source destination
      (rt.token.transferChecked mintKey authority cosigner amount decimals mint) w = .ok w') :
    MintChange rt x w w' id := by
  rcases ite_eq_ok.mp h with ⟨-, h⟩ | ⟨-, h⟩
  · simp only [bind_eq_ok, pure_eq_ok] at h
    obtain ⟨_, -, rfl⟩ := h
    exact .of_eq rfl
  · -- Both accounts hold tokens, so neither is a mint.
    refine .of_invoke₂ (fun a b hf _ m hm => ?_) (fun a b hf _ m hm => ?_) h
    · obtain ⟨t, -, ht, -⟩ := laws.transfer _ _ _ _ _ _ _ _ _ _ hf
      rw [ht] at hm
      cases hm
    · obtain ⟨-, u, -, hu, -⟩ := laws.transfer _ _ _ _ _ _ _ _ _ _ hf
      rw [hu] at hm
      cases hm

theorem invokeMintTo_mint {callees : List Pubkey} {mint destination authority : Pubkey} {amount : Nat}
    (h : invoke₂ callees mint destination (rt.token.mintTo mint authority amount) w = .ok w') :
    MintChange rt x w w' (if x = mint then (· + amount) else id) := by
  obtain ⟨hne, a, b, hf, -, -, -, rfl⟩ := invoke₂_eq_ok.mp h
  obtain ⟨m, t, hm, -, ht, -, hm', howner, -, -⟩ := laws.mintTo _ _ _ _ _ _ _ hf
  intro n _ hn
  by_cases hxd : x = destination
  · subst hxd
    rw [ht] at hn
    cases hn
  · rw [Ledger.set_other _ _ hxd]
    by_cases hxm : x = mint
    · subst hxm
      rw [hm] at hn
      cases hn
      rw [Ledger.set_same, if_pos rfl]
      exact ⟨howner, hm'⟩
    · rw [Ledger.set_other _ _ hxm, if_neg hxm]
      exact ⟨rfl, hn⟩

theorem invokeBurn_mint {callees : List Pubkey} {account mint authority : Pubkey}
    {cosigner : Option Pubkey} {amount : Nat}
    (h : invoke₂ callees account mint (rt.token.burn mint authority cosigner amount) w = .ok w') :
    MintChange rt x w w' (if x = mint then (· - amount) else id) ∧
      ∃ m, (w mint).data = .mint m ∧ amount ≤ m.supply := by
  obtain ⟨hne, a, b, hf, -, -, -, rfl⟩ := invoke₂_eq_ok.mp h
  obtain ⟨m, t, hm, hamount, ht, -, -, hm', howner, -, -⟩ := laws.burn _ _ _ _ _ _ _ _ hf
  refine ⟨fun n _ hn => ?_, m, hm, hamount⟩
  by_cases hxm : x = mint
  · subst hxm
    rw [hm] at hn
    cases hn
    rw [Ledger.set_same, if_pos rfl]
    exact ⟨howner, hm'⟩
  · rw [Ledger.set_other _ _ hxm, if_neg hxm]
    by_cases hxa : x = account
    · subst hxa
      rw [ht] at hn
      cases hn
    · rw [Ledger.set_other _ _ hxa]
      exact ⟨rfl, hn⟩

theorem tokenMintTo_mint {pool tokenProgram mint destination : Pubkey} {authority : AccountMeta}
    {bump : UInt8} {amount : Nat}
    (h : tokenMintTo rt pool tokenProgram mint destination authority bump amount w = .ok w') :
    MintChange rt x w w' (if x = mint then (· + amount) else id) := by
  simp only [tokenMintTo, bind_eq_ok, exists_unit] at h
  exact invokeMintTo_mint laws h.2.2

/-- A mint of a share that may be empty. -/
theorem onlyIf_tokenMintTo_mint {pool tokenProgram mint destination : Pubkey}
    {authority : AccountMeta} {bump : UInt8} {amount : Nat}
    (h : onlyIf (amount > 0)
      (tokenMintTo rt pool tokenProgram mint destination authority bump amount) w = .ok w') :
    MintChange rt x w w' (if x = mint then (· + amount) else id) := by
  rcases onlyIf_eq_ok.mp h with ⟨-, h⟩ | ⟨hzero, rfl⟩
  · exact tokenMintTo_mint laws h
  · have hamount : amount = 0 := by omega
    subst hamount
    split <;> exact .of_eq rfl

theorem tokenTransfer_mint {tokenProgram source mint destination : Pubkey}
    {authority : AccountMeta} {amount : Nat} {decimals : UInt8}
    (h : tokenTransfer rt tokenProgram source mint destination authority amount decimals w =
      .ok w') : MintChange rt x w w' id := by
  simp only [tokenTransfer, bind_eq_ok, exists_unit] at h
  exact invokeTransfer_mint laws h.2.2

theorem tokenBurn_mint {tokenProgram account mint : Pubkey} {authority : AccountMeta} {amount : Nat}
    (h : tokenBurn rt tokenProgram account mint authority amount w = .ok w') :
    MintChange rt x w w' (if x = mint then (· - amount) else id) ∧
      ∃ m, (w mint).data = .mint m ∧ amount ≤ m.supply := by
  simp only [tokenBurn, bind_eq_ok, exists_unit] at h
  exact invokeBurn_mint laws h.2.2

theorem mintShares_mint {pool tokenProgram mint user manager referrer : Pubkey}
    {authority : AccountMeta} {bump : UInt8} {shares : DepositShares}
    (h : mintShares rt pool tokenProgram mint user manager referrer authority bump shares w =
      .ok w') : MintChange rt x w w'
        (if x = mint then (· + (shares.user + shares.manager + shares.referral)) else id) := by
  simp only [mintShares, bind_eq_ok] at h
  obtain ⟨w₁, h1, w₂, h2, h3⟩ := h
  have hall := ((tokenMintTo_mint laws h1).trans (onlyIf_tokenMintTo_mint laws h2)).trans
    (onlyIf_tokenMintTo_mint (x := x) laws h3)
  split
  · rename_i hx
    simp only [if_pos hx] at hall
    intro m howner hdata
    obtain ⟨ho, hd⟩ := hall m howner hdata
    refine ⟨ho, ?_⟩
    rw [hd]
    simp only [Function.comp_apply, Nat.add_assoc]
  · rename_i hx
    simp only [if_neg hx] at hall
    exact hall

theorem burnForSol_mint {isWsolPath : Bool} {signer : Option AccountMeta}
    {tokenProgram burnFrom mint managerFee : Pubkey} {authority : AccountMeta}
    {quote : WithdrawalQuote} {decimals : UInt8}
    (h : burnForSol rt isWsolPath signer tokenProgram burnFrom mint managerFee authority quote
      decimals w = .ok w') :
    MintChange rt x w w' (if x = mint then (· - quote.burnt) else id) ∧
      ∃ m, (w mint).data = .mint m ∧ quote.burnt ≤ m.supply := by
  unfold burnForSol at h
  split at h
  · simp only [burnWithSession, bind_eq_ok, exists_unit] at h
    obtain ⟨-, -, w₁, hburn, hfee⟩ := h
    obtain ⟨hchange, hle⟩ := invokeBurn_mint (x := x) laws hburn
    exact ⟨hchange.trans (.of_onlyIf (fun _ => invokeTransfer_mint laws) hfee), hle⟩
  · simp only [burnWithSignature, bind_eq_ok] at h
    obtain ⟨w₁, hburn, hfee⟩ := h
    obtain ⟨hchange, hle⟩ := tokenBurn_mint (x := x) laws hburn
    exact ⟨hchange.trans (.of_onlyIf (fun _ => tokenTransfer_mint laws) hfee), hle⟩

end Calls

/-! ## Handlers -/

theorem ProgramLaws.token_ne_program (laws : ProgramLaws rt) {k : Pubkey} (h : rt.isTokenProgram k) :
    k ≠ rt.programId := by
  rcases h with rfl | rfl
  · exact laws.splToken_ne
  · exact laws.splToken2022_ne

theorem ProgramLaws.token_not_mover (laws : ProgramLaws rt) (k : Pubkey) (h : rt.isTokenProgram k) :
    k ∉ movers rt := by
  simp only [movers, List.mem_cons, List.not_mem_nil, or_false, not_or]
  exact ⟨laws.token_ne_stake k h, laws.token_ne_system k h⟩

theorem ProgramLaws.token_not_scribe (laws : ProgramLaws rt) (k : Pubkey)
    (h : rt.isTokenProgram k) : k ∉ scribes rt := by
  simp only [scribes, List.mem_cons, List.not_mem_nil, or_false, not_or]
  exact ⟨laws.token_ne_metadata k h, laws.token_ne_system k h⟩

theorem ProgramLaws.token_not_stake (laws : ProgramLaws rt) (k : Pubkey) (h : rt.isTokenProgram k) :
    k ∉ [rt.stakeProgramId] := by
  simpa using laws.token_ne_stake k h

theorem ProgramLaws.token_not_system (laws : ProgramLaws rt) (k : Pubkey) (h : rt.isTokenProgram k) :
    k ∉ [rt.systemProgramId] := by
  simpa using laws.token_ne_system k h

/-- The program's own accounts are no mints, so writing them changes none. -/
theorem MintChange.of_set (laws : ProgramLaws rt) {k : Pubkey} {a : Account}
    (hk : (w k).owner = rt.programId) : MintChange rt x w (w.set k a) id := by
  intro m howner hdata
  have hx : x ≠ k := by
    rintro rfl
    exact laws.token_ne_program howner hk
  rw [Ledger.set_other _ _ hx]
  exact ⟨rfl, hdata⟩

theorem MintChange.of_writeStakePool (laws : ProgramLaws rt) {k : Pubkey} {p q : StakePool}
    (hp : PoolAt rt w k p) (h : writeStakePool w k q = .ok w') : MintChange rt x w w' id := by
  obtain ⟨-, rfl⟩ := writeStakePool_eq_ok.mp h
  exact .of_set laws hp.owner

theorem MintChange.of_writeValidatorList (laws : ProgramLaws rt) {k : Pubkey} {l l' : ValidatorList}
    (hl : ListAt rt w k l) (h : w' = writeValidatorList w k l') : MintChange rt x w w' id := by
  subst h
  exact .of_set laws hl.owner

/-- Of all mints only the pool's can change, and then as the recorded supply does. -/
structure SupplyEffect (rt : Runtime) (w w' : Ledger) (p p' : StakePool) : Prop where
  others : ∀ x, x ≠ p.poolMint → MintChange rt x w w' id
  own : ∀ m, rt.isTokenProgram (w p.poolMint).owner → (w p.poolMint).data = .mint m → ∃ n,
    (w' p.poolMint).owner = (w p.poolMint).owner ∧
      (w' p.poolMint).data = .mint { m with supply := n } ∧
      (m.supply ≤ p.poolTokenSupply → n ≤ p'.poolTokenSupply) ∧
      (m.supply = p.poolTokenSupply → n = p'.poolTokenSupply)

theorem SupplyEffect.of_change {p p' : StakePool} {f : Nat → Nat}
    (h : ∀ x, MintChange rt x w w' (if x = p.poolMint then f else id))
    (hle : ∀ n, n ≤ p.poolTokenSupply → f n ≤ p'.poolTokenSupply)
    (heq : f p.poolTokenSupply = p'.poolTokenSupply) : SupplyEffect rt w w' p p' := by
  refine ⟨fun x hx => ?_, fun m howner hdata => ?_⟩
  · have hchange := h x
    rwa [if_neg hx] at hchange
  · have hchange := h p.poolMint
    rw [if_pos rfl] at hchange
    obtain ⟨ho, hd⟩ := hchange m howner hdata
    exact ⟨_, ho, hd, hle m.supply, fun hm => by rw [hm, heq]⟩

theorem SupplyEffect.of_kept {p p' : StakePool} (h : ∀ x, MintChange rt x w w' id)
    (hs : p'.poolTokenSupply = p.poolTokenSupply) : SupplyEffect rt w w' p p' := by
  refine .of_change (f := id) (fun x => ?_) (fun n hn => hs ▸ hn) hs.symm
  split <;> exact h x

theorem SupplyEffect.of_deposit {p p' : StakePool} {n lamports : Nat}
    (h : ∀ x, MintChange rt x w w' (if x = p.poolMint then (· + n) else id))
    (hp' : p' = p.deposited n lamports) : SupplyEffect rt w w' p p' := by
  subst hp'
  exact .of_change h (fun m hm => Nat.add_le_add_right hm n) rfl

theorem SupplyEffect.of_withdrawal {p p' : StakePool} {n : Nat}
    (h : ∀ x, MintChange rt x w w' (if x = p.poolMint then (· - n) else id))
    (hp' : p'.poolTokenSupply = p.poolTokenSupply - n) : SupplyEffect rt w w' p p' := by
  refine .of_change h (fun m hm => ?_) hp'.symm
  rw [hp']
  exact Nat.sub_le_sub_right hm n

section Runs

variable {accounts : List AccountMeta} (laws : ProgramLaws rt) (tokens : TokenLaws rt)

include laws

theorem AddValidatorRun.mints {seed : UInt32} (r : AddValidatorRun rt sv accounts seed w w') :
    MintChange rt x w w' id :=
  (MintChange.of_frames laws.token_not_mover r.frames).trans (.of_writeValidatorList laws
    (r.isList.of_frames laws (r.frames.mono movers_subset_outsiders)) r.result)

theorem RemoveValidatorRun.mints (r : RemoveValidatorRun rt sv accounts w w') :
    MintChange rt x w w' id := by
  have hf := r.frames.mono movers_subset_outsiders
  have hp := r.isPool.of_frames laws hf
  have hl := r.isList.of_frames laws hf
  have hw := r.result
  rw [r.list_key] at hw hl
  exact ((MintChange.of_frames laws.token_not_mover r.frames).trans
    (.of_writeValidatorList laws hl rfl)).trans
    (.of_writeStakePool laws (OwnEffect.of_writeValidatorList hp hl _).after hw)

theorem DecreaseRun.mints {lamports : Nat} {seed : UInt64} {ephemeralSeed : Option UInt64}
    {fund : Bool} (r : DecreaseRun rt sv accounts lamports seed ephemeralSeed fund w w') :
    MintChange rt x w w' id :=
  (MintChange.of_frames laws.token_not_mover r.frames).trans (.of_writeValidatorList laws
    (r.isList.of_frames laws (r.frames.mono movers_subset_outsiders)) r.result)

theorem IncreaseRun.mints {lamports : Nat} {seed : UInt64} {ephemeralSeed : Option UInt64}
    (r : IncreaseRun rt sv accounts lamports seed ephemeralSeed w w') : MintChange rt x w w' id :=
  (MintChange.of_frames laws.token_not_mover r.frames).trans (.of_writeValidatorList laws
    (r.isList.of_frames laws (r.frames.mono movers_subset_outsiders)) r.result)

theorem UpdateListRun.mints {startIndex : UInt32} {noMerge : Bool}
    (r : UpdateListRun rt sv accounts startIndex noMerge w w') : MintChange rt x w w' id := by
  obtain ⟨-, hframes⟩ := refreshEntries_spec r.refresh
  exact (MintChange.of_frames laws.token_not_stake hframes).trans (.of_writeValidatorList laws
    (r.isList.of_frames laws (hframes.mono stake_subset_outsiders)) r.result)

theorem CleanupRun.mints (r : CleanupRun rt accounts w w') : MintChange rt x w w' id := by
  have hlist := OwnEffect.of_writeValidatorList r.isPool r.isList r.l.cleaned
  have hkept : MintChange rt x w (writeValidatorList w r.p.validatorList r.l.cleaned) id :=
    .of_writeValidatorList laws r.isList rfl
  rcases onlyIf_eq_ok.mp r.result with ⟨-, hw⟩ | ⟨-, hw⟩
  · exact hkept.trans (.of_writeStakePool laws hlist.after hw)
  · exact .of_writeValidatorList laws r.isList hw.symm

include tokens

theorem DepositStakeRun.mints {minimum : Option Nat}
    (r : DepositStakeRun rt sv accounts minimum w w') : MintChange rt x w w'
      (if x = r.p.poolMint then (· + r.shares.newPoolTokens) else id) := by
  have hp := r.isPool.of_frames laws r.frames
  have hl := r.isList.of_frames laws r.frames
  rw [r.list_key] at hl
  have hcalls : MintChange rt x w r.joined id :=
    .of_frames laws.token_not_stake ((takeOverStake_frames r.take).trans (stakeMerge_frames r.merge))
  have hmint := mintShares_mint (x := x) tokens r.mintTokens
  rw [(depositStakeShares_sum r.shares_eq).2.1, r.mint_key] at hmint
  have hsweep : MintChange rt x r.minted r.swept id :=
    .of_frames laws.token_not_stake (Frames.of_onlyIf (fun _ => stakeWithdraw_frames) r.sweep)
  have hwritten : MintChange rt x r.swept r.written id := .of_writeStakePool laws hp r.write
  have hlist : MintChange rt x r.written w' id := .of_writeValidatorList laws
    (hl.of_writeStakePool (hp.ne_list hl).symm r.write) (r.list_key ▸ r.result)
  exact (((hcalls.trans hmint).trans hsweep).trans hwritten).trans hlist

theorem DepositSolRun.mints {lamports : Nat} {minimum : Option Nat} {isWsolPath : Bool}
    (r : DepositSolRun rt sv accounts lamports minimum isWsolPath w w') : MintChange rt x w w'
      (if x = r.p.poolMint then (· + r.shares.newPoolTokens) else id) := by
  have hp := r.isPool.of_frames laws r.frames
  have hpay : MintChange rt x w r.paid id :=
    .of_frames laws.token_not_system (Frames.of_onlyIf (fun _ => solTransfer_frames) r.pay)
  have hmint := mintShares_mint (x := x) tokens r.mintTokens
  rw [(depositSolShares_sum r.shares_eq).2.1, r.mint_key] at hmint
  exact (hpay.trans hmint).trans (.of_writeStakePool laws hp r.result)

theorem WithdrawStakeRun.mints {poolTokens : Nat} {minimum : Option Nat}
    (r : WithdrawStakeRun rt sv accounts poolTokens minimum w w') : MintChange rt x w w'
      (if x = r.p.poolMint then (· - r.quote.burnt) else id) := by
  have hp := r.isPool.of_frames laws r.frames
  have hl := r.isList.of_frames laws r.frames
  rw [r.list_key] at hl
  have hburn := (tokenBurn_mint (x := x) tokens r.burn).1
  rw [r.mint_key] at hburn
  have hsplit : MintChange rt x r.burnt r.handed id := .of_frames laws.token_not_stake
    ((stakeSplit_frames r.splitOff).trans (stakeAuthorizeSigned_frames r.handOver))
  have hcharge : MintChange rt x r.handed r.charged id :=
    .of_onlyIf (fun _ => tokenTransfer_mint tokens) r.charge
  have hwritten : MintChange rt x r.charged r.written id := .of_writeStakePool laws hp r.write
  have hl' := hl.of_writeStakePool (hp.ne_list hl).symm r.write
  have hlist : MintChange rt x r.written w' id := by
    have hw := r.result
    unfold writeWithdrawal at hw
    split at hw
    · exact .of_eq (by rw [Except.ok.inj hw])
    · simp only [bind_eq_ok, pure_eq_ok] at hw
      obtain ⟨v', -, hw⟩ := hw
      exact .of_writeValidatorList laws hl' (r.list_key ▸ hw.symm)
  exact (((hburn.trans hsplit).trans hcharge).trans hwritten).trans hlist

theorem WithdrawSolRun.mints {poolTokens : Nat} {minimum : Option Nat} {isWsolPath : Bool}
    (r : WithdrawSolRun rt sv accounts poolTokens minimum isWsolPath w w')
    (htoken : rt.isTokenProgram r.tokenProgram.key) : MintChange rt x w w'
      (if x = r.p.poolMint then (· - r.quote.burnt) else id) := by
  have hp := r.isPool.of_frames laws (r.frames htoken)
  have hburn := (burnForSol_mint (x := x) tokens r.burn).1
  rw [r.mint_key] at hburn
  have hpay : MintChange rt x r.burnt r.paid id :=
    .of_frames laws.token_not_stake (stakeWithdraw_frames r.pay)
  exact (hburn.trans hpay).trans (.of_writeStakePool laws hp r.result)

theorem UpdatePoolRun.mints (r : UpdatePoolRun rt sv accounts w w') : MintChange rt x w w'
    (if x = r.p.poolMint then (· + r.fee) else id) := by
  have hp := r.isPool.of_frames laws r.frames
  have hmint := onlyIf_tokenMintTo_mint (x := x) tokens r.mint_fee
  rw [r.mint_key] at hmint
  exact hmint.trans (.of_writeStakePool laws hp r.result)

theorem DepositWsolRun.mints_before {lamports : Nat}
    (r : DepositWsolRun rt sv accounts lamports w w') : MintChange rt x w r.unwrapped id := by
  have hcreate := r.create
  have hunwrap := r.unwrap
  simp only [createTransientWsol, bind_eq_ok, exists_unit, checkSplToken_eq_ok] at hcreate
  obtain ⟨-, _, -, -, w₁, hpda, htoken, hinit⟩ := hcreate
  simp only [unwrapIntoReserve, bind_eq_ok, exists_unit, checkSplToken_eq_ok] at hunwrap
  obtain ⟨-, w₂, htransfer, _, -, -, -, w₃, hclose, w₄, hrefund, hforward⟩ := hunwrap
  have h1 : MintChange rt x w w₁ id :=
    .of_frames laws.token_not_system (Frames.of_invokeCreate hpda)
  -- The new account is zeroed when it is initialized, so it is no mint.
  have h2 : MintChange rt x w₁ r.created id := by
    obtain ⟨a, ha, -, -, hset⟩ := invoke₁_eq_ok.mp hinit
    intro m _ hdata
    have hx : x ≠ r.transientWsol.key := by
      rintro rfl
      rw [tokens.initialize_zeroed _ _ _ _ _ ha] at hdata
      cases hdata
    rw [hset, Ledger.set_other _ _ hx]
    exact ⟨rfl, hdata⟩
  have h3 : MintChange rt x r.created w₂ id := invokeTransfer_mint tokens htransfer
  have h4 : MintChange rt x w₂ w₃ id := by
    refine .of_invoke₂ (fun a b hf _ m hm => ?_) (fun a b hf _ m hm => ?_) hclose
    · obtain ⟨⟨t, ht⟩, -⟩ := tokens.close _ _ _ _ _ hf
      rw [ht] at hm
      cases hm
    · obtain ⟨-, -, hdata, howner⟩ := tokens.close _ _ _ _ _ hf
      exact ⟨howner, hdata⟩
  have h5 : MintChange rt x w₃ r.unwrapped id := .of_frames laws.token_not_system
    ((programSignerTransfer_frames hrefund).trans (programSignerTransfer_frames hforward))
  exact (((h1.trans h2).trans h3).trans h4).trans h5

theorem createAssociated_mint {callees : List Pubkey} {payer account wallet mintKey tokenProgram : Pubkey}
    (h : invokeMove callees payer account
      (rt.createAssociatedIdempotent wallet mintKey tokenProgram) w = .ok w') :
    MintChange rt x w w' id := by
  rcases ite_eq_ok.mp h with ⟨-, h⟩ | ⟨-, h⟩
  · simp only [bind_eq_ok, pure_eq_ok] at h
    obtain ⟨_, -, rfl⟩ := h
    exact .of_eq rfl
  · obtain ⟨hne, a, b, hf, -, -, -, rfl⟩ := invoke₂_eq_ok.mp h
    obtain ⟨hpayer, howner, haccount⟩ := tokens.associated _ _ _ _ _ _ _ hf
    intro m htoken hdata
    have hx : x ≠ account := by
      rintro rfl
      rcases haccount with hsystem | ⟨-, -, t, ht, -⟩
      · exact laws.token_ne_system _ htoken hsystem
      · rw [ht] at hdata
        cases hdata
    rw [Ledger.set_other _ _ hx]
    by_cases hxp : x = payer
    · subst hxp
      rw [Ledger.set_same]
      exact ⟨howner, hpayer.trans hdata⟩
    · rw [Ledger.set_other _ _ hxp]
      exact ⟨rfl, hdata⟩

omit laws in
theorem WithdrawWsolRun.mints_after {poolTokens : Nat}
    (r : WithdrawWsolRun rt sv accounts poolTokens w w') : MintChange rt x r.withdrawn w' id := by
  obtain ⟨a, ha, -, -, hset⟩ := invoke₁_eq_ok.mp r.sync
  intro m _ hdata
  have hx : x ≠ r.userWsol.key := by
    rintro rfl
    obtain ⟨t, -, ht, -⟩ := tokens.sync _ _ ha
    rw [ht] at hdata
    cases hdata
  have heq : w' x = r.withdrawn x := by
    rw [congrFun hset x, Ledger.set_other _ _ hx]
  rw [heq]
  exact ⟨rfl, hdata⟩

omit laws in
/-- Afterwards the record holds what the mint says. -/
theorem UpdatePoolRun.supply (r : UpdatePoolRun rt sv accounts w w') {m : Mint}
    (howner : rt.isTokenProgram (w r.p.poolMint).owner) (hm : (w r.p.poolMint).data = .mint m) :
    r.after.supply = m.supply + r.fee := by
  have hmint := onlyIf_tokenMintTo_mint (x := r.p.poolMint) tokens r.mint_fee
  rw [r.mint_key, if_pos rfl] at hmint
  have hafter := r.mint_after
  rw [r.mint_key, (hmint m howner hm).2] at hafter
  rw [← AccountData.mint.inj hafter]

theorem UpdatePoolRun.supplyEffect {p' : StakePool} (r : UpdatePoolRun rt sv accounts w w')
    (hp' : p'.poolTokenSupply = r.after.supply) : SupplyEffect rt w w' r.p p' := by
  refine ⟨fun x hx => ?_, fun m howner hdata => ?_⟩
  · have hchange := r.mints (x := x) laws tokens
    rwa [if_neg hx] at hchange
  · have hchange := r.mints (x := r.p.poolMint) laws tokens
    rw [if_pos rfl] at hchange
    obtain ⟨ho, hd⟩ := hchange m howner hdata
    have hsupply := r.supply tokens howner hdata
    exact ⟨_, ho, hd, fun _ => Nat.le_of_eq (by rw [hp', hsupply]), fun _ => by rw [hp', hsupply]⟩

end Runs

theorem StakePool.setPreferred_supply (p : StakePool) (t : PreferredValidatorType)
    (vote : Option Pubkey) : (p.setPreferred t vote).poolTokenSupply = p.poolTokenSupply := by
  cases t <;> rfl

theorem StakePool.setFundingAuthority_supply (p : StakePool) (pool : Pubkey) (t : FundingType)
    (authority : Option Pubkey) :
    (p.setFundingAuthority rt pool t authority).poolTokenSupply = p.poolTokenSupply := by
  cases t <;> rfl

theorem StakePool.updateFee_supply {p p' : StakePool} {fee : FeeType} (h : p.updateFee fee = .ok p') :
    p'.poolTokenSupply = p.poolTokenSupply := by
  cases fee with
  | stakeWithdrawal | solWithdrawal =>
    simp only [updateFee, bind_eq_ok, exists_unit, pure_eq_ok] at h
    obtain ⟨-, rfl⟩ := h
    rfl
  | _ =>
    cases h
    rfl

theorem PlanCases.supply {pool splitFrom : Pubkey} {p : StakePool} {l : ValidatorList}
    {state : StakeStateV2} {info : StakeMeta} {splitFromLamports lamports : Nat} {plan : WithdrawPlan}
    (h : PlanCases rt sv pool splitFrom p l state info splitFromLamports lamports plan) :
    plan.stakePool.poolTokenSupply = p.poolTokenSupply ∧
      plan.stakePool.totalLamports = p.totalLamports := by
  cases h <;> exact ⟨rfl, rfl⟩

/-- Every successful instruction moves the recorded supply of its pool with the mint. -/
theorem Handled.supply {accounts : List AccountMeta} {a : AccountMeta} {p p' : StakePool}
    {l : ValidatorList} (laws : ProgramLaws rt) (tokens : TokenLaws rt)
    (h : Handled rt sv accounts w w') (ha : accounts[0]? = some a) (hp : PoolAt rt w a.key p)
    (hl : ListAt rt w p.validatorList l) (hp' : PoolAt rt w' a.key p') :
    SupplyEffect rt w w' p p' := by
  cases h with
  | initializePool r =>
    obtain rfl := Option.some.inj (ha.symm.trans r.pool_at)
    exact absurd hp r.not_pool
  | addValidator r =>
    have he := r.effect laws ha hp hl
    exact .of_kept (fun x => r.mints laws) (by rw [hp'.unique he.own.after])
  | removeValidator r =>
    have he := r.effect laws ha hp hl
    exact .of_kept (fun x => r.mints laws) (by rw [hp'.unique he.own.after]; rfl)
  | decrease r =>
    have he := r.effect laws ha hp hl
    exact .of_kept (fun x => r.mints laws) (by rw [hp'.unique he.own.after])
  | increase r =>
    have he := r.effect laws ha hp hl
    exact .of_kept (fun x => r.mints laws) (by rw [hp'.unique he.own.after])
  | updateList r =>
    have he := r.effect laws ha hp hl
    exact .of_kept (fun x => r.mints laws) (by rw [hp'.unique he.own.after])
  | cleanup r =>
    obtain ⟨q, hq, he⟩ : ∃ q, (q = p ∨ q = p.keepListed l.cleaned) ∧
      BookEffect rt sv accounts w w' a.key p l q l.cleaned := r.effect laws ha hp hl
    refine .of_kept (fun x => r.mints laws) ?_
    rw [hp'.unique he.own.after]
    rcases hq with rfl | rfl <;> rfl
  | setPreferred r =>
    have he : BookEffect rt sv _ _ _ _ _ _ _ _ := r.effect laws ha hp hl
    exact .of_kept (fun x => .of_writeStakePool laws r.isPool r.result)
      (by rw [hp'.unique he.own.after, StakePool.setPreferred_supply])
  | setManager r =>
    have he : BookEffect rt sv _ _ _ _ _ _ _ _ := r.effect laws ha hp hl
    exact .of_kept (fun x => .of_writeStakePool laws r.isPool r.result)
      (by rw [hp'.unique he.own.after])
  | setFee r =>
    have he : BookEffect rt sv _ _ _ _ _ _ _ _ := r.effect laws ha hp hl
    obtain rfl := Option.some.inj (ha.symm.trans r.pool_at)
    obtain rfl := hp.unique r.isPool
    exact .of_kept (fun x => .of_writeStakePool laws r.isPool r.result)
      (by rw [hp'.unique he.own.after, StakePool.updateFee_supply r.update])
  | setStaker r =>
    have he : BookEffect rt sv _ _ _ _ _ _ _ _ := r.effect laws ha hp hl
    exact .of_kept (fun x => .of_writeStakePool laws r.isPool r.result)
      (by rw [hp'.unique he.own.after])
  | setFunding r =>
    have he : BookEffect rt sv _ _ _ _ _ _ _ _ := r.effect laws ha hp hl
    exact .of_kept (fun x => .of_writeStakePool laws r.isPool r.result)
      (by rw [hp'.unique he.own.after, StakePool.setFundingAuthority_supply])
  | createMetadata h =>
    have hf := (processCreatePoolTokenMetadata_spec h).2
    exact .of_kept (fun x => .of_frames laws.token_not_scribe hf)
      (by rw [hp'.unique (hp.of_frames laws (hf.mono scribes_subset_outsiders))])
  | updateMetadata h =>
    have hf := (processUpdatePoolTokenMetadata_spec h).2
    exact .of_kept (fun x => .of_frames laws.token_not_scribe hf)
      (by rw [hp'.unique (hp.of_frames laws (hf.mono scribes_subset_outsiders))])
  | updatePool r =>
    have he := r.effect laws ha hp hl
    obtain rfl := Option.some.inj (ha.symm.trans r.pool_at)
    obtain rfl := hp.unique r.isPool
    exact r.supplyEffect laws tokens (by rw [hp'.unique he.own.after])
  | depositStake r =>
    have he := r.effect laws ha hp hl
    obtain rfl := Option.some.inj (ha.symm.trans r.pool_at)
    obtain rfl := hp.unique r.isPool
    exact .of_deposit (fun x => r.mints laws tokens) (hp'.unique he.own.after)
  | depositSol r =>
    have he := r.effect laws ha hp hl (Option.some.inj (r.pool_at.symm.trans ha))
    obtain rfl := Option.some.inj (ha.symm.trans r.pool_at)
    obtain rfl := hp.unique r.isPool
    exact .of_deposit (fun x => r.mints laws tokens) (hp'.unique he.own.after)
  | depositWsol r =>
    obtain ⟨inner, hpool, -⟩ := r.inner
    obtain rfl := Option.some.inj (ha.symm.trans r.pool_at)
    have hinner := inner.isPool
    rw [hpool] at hinner
    have he := inner.effect laws ha (hp.of_frames laws r.frames) (hl.of_frames laws r.frames) hpool
    obtain rfl := (hp.of_frames laws r.frames).unique hinner
    exact .of_deposit (fun x => (r.mints_before laws tokens).trans (inner.mints laws tokens))
      (hp'.unique he.own.after)
  | withdrawStake r =>
    obtain ⟨l', -, he⟩ := r.effect laws ha hp hl
    obtain rfl := Option.some.inj (ha.symm.trans r.pool_at)
    obtain rfl := hp.unique r.isPool
    obtain ⟨hrecord, -, -⟩ := StakePool.recordWithdrawal_eq_ok.mp r.record
    have hplan := (planWithdrawal_cases rt sv r.plan_eq).supply.1
    exact .of_withdrawal (fun x => r.mints laws tokens)
      (by rw [hp'.unique he.own.after, hrecord, hplan])
  | withdrawSol r =>
    have he := r.effect laws ha hp hl r.isToken (Option.some.inj (r.pool_at.symm.trans ha))
    obtain rfl := Option.some.inj (ha.symm.trans r.pool_at)
    obtain rfl := hp.unique r.isPool
    exact .of_withdrawal (fun x => r.mints laws tokens r.isToken)
      (by rw [hp'.unique he.own.after]; rfl)
  | withdrawWsol r =>
    obtain ⟨inner, hpool, -, -, -, -, -, -, hprogram⟩ := r.inner
    obtain rfl := Option.some.inj (ha.symm.trans r.pool_at)
    have hinner := inner.isPool
    rw [hpool] at hinner
    have htoken : rt.isTokenProgram inner.tokenProgram.key := by
      rw [hprogram]
      exact Or.inl r.token_key
    have hp₁ := hp.of_frames laws r.create_frames
    have he := (inner.effect laws ha hp₁ (hl.of_frames laws r.create_frames) htoken
      hpool).own.after.of_frames laws r.sync_frames
    obtain rfl := hp₁.unique hinner
    exact .of_withdrawal (fun x => ((createAssociated_mint laws tokens r.create).trans
      (inner.mints laws tokens htoken)).trans (r.mints_after tokens)) (by rw [hp'.unique he]; rfl)

/-! ## Every pool mirrors its mint -/

/-- `m` is the mint of the pool at `k`. -/
structure PoolMint (rt : Runtime) (w : Ledger) (k : Pubkey) (p : StakePool) (m : Mint) : Prop where
  owner : (w p.poolMint).owner = p.tokenProgramId
  token : rt.isTokenProgram p.tokenProgramId
  data : (w p.poolMint).data = .mint m
  authority : m.mintAuthority = some (findWithdrawAuthorityProgramAddress rt k).1

/-- Distinct pools have distinct withdraw authorities. -/
def Separate (rt : Runtime) (w : Ledger) : Prop :=
  ∀ j k p q, PoolAt rt w j p → PoolAt rt w k q →
    (findWithdrawAuthorityProgramAddress rt j).1 = (findWithdrawAuthorityProgramAddress rt k).1 → j = k

/-- The record is not below the mint, and equal to it unless holders burn tokens themselves. -/
def Mirrored (rt : Runtime) (holdersBurn : Bool) (w : Ledger) : Prop :=
  ∀ k p, PoolAt rt w k p → ∃ m, PoolMint rt w k p m ∧ m.supply ≤ p.poolTokenSupply ∧
    (holdersBurn = false → m.supply = p.poolTokenSupply)

/-- Calls of the program on any pool, and anything else that leaves the mints of the pools alone
except, if `holdersBurn`, for burning tokens. -/
inductive SupplyMove (rt : Runtime) (holdersBurn : Bool) (s s' : World) : Prop where
  | call {accounts : List AccountMeta} {input : List UInt8}
      (run : process rt s.sysvars accounts input s.ledger = .ok s'.ledger)
      (sysvars : s'.sysvars = s.sysvars) (separate : Separate rt s'.ledger)
  | elsewhere (step : Elsewhere rt s s')
      (mints : ∀ k p m, PoolAt rt s.ledger k p → PoolMint rt s.ledger k p m → ∃ n,
        PoolMint rt s'.ledger k p { m with supply := n } ∧ n ≤ m.supply ∧
          (holdersBurn = false → n = m.supply))

variable {accounts : List AccountMeta} {k : Pubkey} {p p' : StakePool} {m : Mint}
  {holdersBurn : Bool}

theorem PoolMint.of_change (h : PoolMint rt w k p m) (hc : MintChange rt p.poolMint w w' id) :
    PoolMint rt w' k p m := by
  obtain ⟨ho, hd⟩ := hc m (by rw [h.owner]; exact h.token) h.data
  exact ⟨ho.trans h.owner, h.token, hd, h.authority⟩

/-- The mint of the pool an instruction works on. -/
theorem SupplyEffect.poolMint (h : SupplyEffect rt w w' p p') (hsame : p.SameIdentity p')
    (hm : PoolMint rt w k p m) : ∃ n, PoolMint rt w' k p' { m with supply := n } ∧
      (m.supply ≤ p.poolTokenSupply → n ≤ p'.poolTokenSupply) ∧
      (m.supply = p.poolTokenSupply → n = p'.poolTokenSupply) := by
  obtain ⟨n, ho, hd, hle, heq⟩ := h.own m (by rw [hm.owner]; exact hm.token) hm.data
  refine ⟨n, ⟨?_, ?_, ?_, hm.authority⟩, hle, heq⟩
  · rw [hsame.poolMint, hsame.tokenProgramId, ho]
    exact hm.owner
  · rw [hsame.tokenProgramId]
    exact hm.token
  · rw [hsame.poolMint, hd]

theorem PoolMint.ne (hsep : Separate rt w) {j : Pubkey} {q : StakePool} {m' : Mint}
    (hp : PoolAt rt w k p) (hq : PoolAt rt w j q) (hm : PoolMint rt w k p m)
    (hm' : PoolMint rt w j q m') (hne : k ≠ j) : p.poolMint ≠ q.poolMint := by
  intro heq
  have hdata := hm.data
  rw [heq, hm'.data] at hdata
  cases hdata
  exact hne (hsep k j p q hp hq (Option.some.inj (hm.authority.symm.trans hm'.authority)))

section Initialize

variable {fee withdrawalFee depositFee : Fee} {referralFee : UInt8} {maxValidators : UInt32}
  (laws : ProgramLaws rt) (tokens : TokenLaws rt)
  (r : InitializeRun rt sv accounts fee withdrawalFee depositFee referralFee maxValidators w w')

include laws tokens

theorem InitializeRun.mints :
    MintChange rt x w w' (if x = r.mint.key then (· + r.total) else id) := by
  have hown := OwnFrame.of_frames laws r.frames
  have hpool := (hown.kept _ r.pool_owner id).owner.trans r.pool_owner
  have hlist := (hown.kept _ r.list_owner id).owner.trans r.list_owner
  have hmint := onlyIf_tokenMintTo_mint (x := x) tokens r.mint_initial
  have hwrite : ∀ {u : Ledger} {l : ValidatorList} {q : StakePool},
      (u r.pool.key).owner = rt.programId → (u r.list.key).owner = rt.programId →
      writeStakePool (writeValidatorList u r.list.key l) r.pool.key q = .ok w' →
      MintChange rt x u w' id := by
    intro u l q hp hl hw
    obtain ⟨-, hw⟩ := writeStakePool_eq_ok.mp hw
    have hfirst : MintChange rt x u (writeValidatorList u r.list.key l) id := .of_set laws hl
    have hsecond : (writeValidatorList u r.list.key l r.pool.key).owner = rt.programId := by
      rw [writeValidatorList, Ledger.set_other _ _ r.list_ne.symm]
      exact hp
    intro m howner hdata
    rw [congrFun hw x]
    exact (hfirst.trans (MintChange.of_set laws hsecond)) m howner hdata
  exact hmint.trans (hwrite hpool hlist r.result)

/-- A new pool starts with as many tokens as its mint. -/
theorem InitializeRun.mirrored (hp' : PoolAt rt w' r.pool.key p') :
    ∃ m, PoolMint rt w' r.pool.key p' m ∧ m.supply = p'.poolTokenSupply := by
  obtain rfl := hp'.unique (r.founded laws).pool
  have hchange := r.mints (x := r.mint.key) laws tokens
  rw [if_pos rfl] at hchange
  obtain ⟨ho, hd⟩ := hchange _ (by rw [r.mint_owner]; exact r.isToken) r.mint_data
  refine ⟨_, ⟨ho.trans r.mint_owner, r.isToken, hd, ?_⟩, ?_⟩
  · rw [r.isAuthority]
    exact r.mint_ok.2
  · show r.poolMint.supply + r.total = r.total
    rw [r.mint_ok.1, Nat.zero_add]

end Initialize

/-- The pools an instruction does not name first keep their mints. -/
theorem Mirrored.other (laws : ProgramLaws rt) (tokens : TokenLaws rt) {a : AccountMeta}
    (hsep : Separate rt w) (hsep' : Separate rt w') (hreg : Registry rt w)
    (hm : Mirrored rt holdersBurn w) (h : Handled rt sv accounts w w') (ha : accounts[0]? = some a)
    (hk : k ≠ a.key) (hp' : PoolAt rt w' k p) : ∃ m, PoolMint rt w' k p m ∧
      m.supply ≤ p.poolTokenSupply ∧ (holdersBurn = false → m.supply = p.poolTokenSupply) := by
  have hp := (h.record laws hreg).poolAt_before ha hk hp'
  obtain ⟨m, hmint, hle, heq⟩ := hm k p hp
  refine ⟨m, hmint.of_change ?_, hle, heq⟩
  rcases h.pool laws with ⟨_, _, _, _, _, ⟨r⟩⟩ | ⟨b, q, hb, hq⟩
  · -- The mint of a new pool has another authority.
    obtain rfl := Option.some.inj (ha.symm.trans r.pool_at)
    have hne : p.poolMint ≠ r.mint.key := by
      intro heq
      have hdata := hmint.data
      rw [heq, r.mint_data] at hdata
      cases hdata
      refine hk (hsep' _ _ _ _ hp' (r.founded laws).pool ?_)
      rw [r.isAuthority]
      exact Option.some.inj (hmint.authority.symm.trans r.mint_ok.2)
    have hchange := r.mints (x := p.poolMint) laws tokens
    rwa [if_neg hne] at hchange
  · obtain rfl := Option.some.inj (ha.symm.trans hb)
    obtain ⟨l, hl⟩ := hreg.hasList hq
    obtain ⟨q', l', he⟩ := h.effect laws ha hq hl
    obtain ⟨mq, hmq, -⟩ := hm _ q hq
    exact (h.supply laws tokens ha hq hl he.own.after).others _ (hmint.ne hsep hp hq hmq hk)

theorem Mirrored.call (laws : ProgramLaws rt) (tokens : TokenLaws rt) (hsep : Separate rt w)
    (hsep' : Separate rt w') (hreg : Registry rt w) (hm : Mirrored rt holdersBurn w)
    (h : Handled rt sv accounts w w') : Mirrored rt holdersBurn w' := by
  intro k p' hp'
  rcases h.pool laws with ⟨_, _, _, _, _, ⟨r⟩⟩ | ⟨a, p, ha, hp⟩
  · by_cases hk : k = r.pool.key
    · subst hk
      obtain ⟨m, hmint, heq⟩ := r.mirrored laws tokens hp'
      exact ⟨m, hmint, Nat.le_of_eq heq, fun _ => heq⟩
    · exact hm.other laws tokens hsep hsep' hreg h r.pool_at hk hp'
  · by_cases hk : k = a.key
    · subst hk
      obtain ⟨l, hl⟩ := hreg.hasList hp
      obtain ⟨q, l', he⟩ := h.effect laws ha hp hl
      obtain rfl := hp'.unique he.own.after
      obtain ⟨m, hmint, hle, heq⟩ := hm _ p hp
      obtain ⟨n, hmint', hle', heq'⟩ :=
        (h.supply laws tokens ha hp hl hp').poolMint he.step.sameIdentity hmint
      exact ⟨_, hmint', hle' hle, fun hb => heq' (heq hb)⟩
    · exact hm.other laws tokens hsep hsep' hreg h ha hk hp'

theorem Mirrored.elsewhere {s s' : World} (hm : Mirrored rt holdersBurn s.ledger)
    (step : Elsewhere rt s s')
    (mints : ∀ k p m, PoolAt rt s.ledger k p → PoolMint rt s.ledger k p m → ∃ n,
      PoolMint rt s'.ledger k p { m with supply := n } ∧ n ≤ m.supply ∧
        (holdersBurn = false → n = m.supply)) : Mirrored rt holdersBurn s'.ledger := by
  intro k p hp'
  have hp := step.ownFrame.poolAt_before hp' id
  obtain ⟨m, hmint, hle, heq⟩ := hm k p hp
  obtain ⟨n, hmint', hn, hn'⟩ := mints k p m hp hmint
  exact ⟨_, hmint', Nat.le_trans hn hle, fun hb => (hn' hb).trans (heq hb)⟩

/-- An update reads the mint. -/
theorem UpdatePoolRun.mirrored (laws : ProgramLaws rt) (tokens : TokenLaws rt)
    (r : UpdatePoolRun rt sv accounts w w') (hm : PoolMint rt w k r.p m)
    (hsame : r.p.SameIdentity p') (hp' : p'.poolTokenSupply = r.after.supply) :
    ∃ m', PoolMint rt w' k p' m' ∧ m'.supply = p'.poolTokenSupply := by
  have htoken : rt.isTokenProgram (w r.p.poolMint).owner := by
    rw [hm.owner]
    exact hm.token
  have hchange := r.mints (x := r.p.poolMint) laws tokens
  rw [if_pos rfl] at hchange
  obtain ⟨ho, hd⟩ := hchange m htoken hm.data
  refine ⟨{ m with supply := m.supply + r.fee }, ⟨?_, ?_, ?_, hm.authority⟩, ?_⟩
  · rw [hsame.poolMint, hsame.tokenProgramId, ho]
    exact hm.owner
  · rw [hsame.tokenProgramId]
    exact hm.token
  · rw [hsame.poolMint, hd]
  · rw [hp', r.supply tokens htoken hm.data]

/-- What holds along a run. -/
structure SupplySound (rt : Runtime) (holdersBurn : Bool) (w : Ledger) : Prop where
  registry : Registry rt w
  separate : Separate rt w
  mirrored : Mirrored rt holdersBurn w

theorem SupplyMove.sound (laws : ProgramLaws rt) (tokens : TokenLaws rt) {s s' : World}
    (h : SupplyMove rt holdersBurn s s') (hs : SupplySound rt holdersBurn s.ledger) :
    SupplySound rt holdersBurn s'.ledger := by
  cases h with
  | call run _ separate =>
    have hh := process_handled run
    exact ⟨(hh.record laws hs.registry).registry hs.registry, separate,
      hs.mirrored.call laws tokens hs.separate separate hs.registry hh⟩
  | elsewhere step mints =>
    refine ⟨hs.registry.of_ownFrame step.ownFrame, fun j k p q hp hq => ?_,
      hs.mirrored.elsewhere step mints⟩
    exact hs.separate j k p q (step.ownFrame.poolAt_before hp id) (step.ownFrame.poolAt_before hq id)

theorem SupplyMove.run_sound (laws : ProgramLaws rt) (tokens : TokenLaws rt) {s₀ s : World}
    (h₀ : Untouched rt s₀) (hrun : Relation.ReflTransGen (SupplyMove rt holdersBurn) s₀ s) :
    SupplySound rt holdersBurn s.ledger := by
  induction hrun with
  | refl =>
    have hnone : ∀ {k p}, ¬ PoolAt rt s₀.ledger k p := by
      intro k p hp
      have hdata := h₀ k hp.owner
      rw [hp.data] at hdata
      cases hdata
    exact ⟨h₀.registry, fun _ _ _ _ hp => absurd hp hnone, fun _ _ hp => absurd hp hnone⟩
  | tail _ hstep ih => exact hstep.sound laws tokens ih

/-- In every reachable world the recorded supply of a pool mirrors its mint; `UpdateStakePoolBalance`
restores equality after holders burnt tokens; and once a withdrawal has burnt its tokens, taking them
off the recorded supply does not fail, for `WithdrawStake`, `WithdrawSol` and, in the ledger where the
user's wrapped-SOL account has been created, `WithdrawWsolWithSession`. -/
theorem supply_mirror (laws : ProgramLaws rt) (tokens : TokenLaws rt) {s₀ s : World}
    (h₀ : Untouched rt s₀) (hrun : Relation.ReflTransGen (SupplyMove rt holdersBurn) s₀ s)
    (hp : PoolAt rt s.ledger k p) :
    (∃ m, PoolMint rt s.ledger k p m ∧ m.supply ≤ p.poolTokenSupply ∧
      (holdersBurn = false → m.supply = p.poolTokenSupply)) ∧
    (∀ accounts a w' p', accounts[0]? = some a → a.key = k →
      processUpdateStakePoolBalance rt s.sysvars accounts s.ledger = .ok w' → PoolAt rt w' k p' →
      ∃ m', PoolMint rt w' k p' m' ∧ m'.supply = p'.poolTokenSupply) ∧
    (∀ tokenProgram account authority amount w',
      tokenBurn rt tokenProgram account p.poolMint authority amount s.ledger = .ok w' →
      ∃ rest, checkedSub p.poolTokenSupply amount = some rest) ∧
    (∀ signer tokenProgram burnFrom managerFee authority quote decimals w',
      burnForSol rt false signer tokenProgram burnFrom p.poolMint managerFee authority quote decimals
        s.ledger = .ok w' → ∃ rest, checkedSub p.poolTokenSupply quote.burnt = some rest) ∧
    ∀ callees payer userWsol user mintKey tokenProgram created signer burnFrom managerFee authority
      quote decimals w', invokeMove callees payer userWsol
        (rt.createAssociatedIdempotent user mintKey tokenProgram) s.ledger = .ok created →
      burnForSol rt true signer tokenProgram burnFrom p.poolMint managerFee authority quote decimals
        created = .ok w' → ∃ rest, checkedSub p.poolTokenSupply quote.burnt = some rest := by
  have hs := SupplyMove.run_sound laws tokens h₀ hrun
  obtain ⟨m, hmint, hle, heq⟩ := hs.mirrored k p hp
  -- Burning at most the supply of the mint leaves something to subtract.
  have hsub : ∀ {u : Ledger} {amount : Nat}, PoolMint rt u k p m →
      (∃ n, (u p.poolMint).data = .mint n ∧ amount ≤ n.supply) →
      ∃ rest, checkedSub p.poolTokenSupply amount = some rest := by
    intro u amount hu hburn
    obtain ⟨n, hn, hamount⟩ := hburn
    rw [hu.data] at hn
    cases hn
    exact ⟨p.poolTokenSupply - amount, checkedSub_eq_some.mpr (by omega)⟩
  refine ⟨⟨m, hmint, hle, heq⟩, ?_, ?_, ?_, ?_⟩
  · rintro accounts a w' p' ha rfl hupdate hp'
    obtain ⟨r⟩ := (processUpdateStakePoolBalance_run rt _).mp hupdate
    obtain rfl := Option.some.inj (ha.symm.trans r.pool_at)
    obtain rfl := hp.unique r.isPool
    obtain ⟨l, hl⟩ := hs.registry.hasList hp
    have he := r.effect laws ha hp hl
    obtain rfl := hp'.unique he.own.after
    exact r.mirrored laws tokens hmint he.step.sameIdentity rfl
  · intro tokenProgram account authority amount w' hburn
    exact hsub hmint (tokenBurn_mint (x := p.poolMint) tokens hburn).2
  · intro signer tokenProgram burnFrom managerFee authority quote decimals w' hburn
    exact hsub hmint (burnForSol_mint (x := p.poolMint) tokens hburn).2
  · intro callees payer userWsol user mintKey tokenProgram created signer burnFrom managerFee
      authority quote decimals w' hcreate hburn
    exact hsub (hmint.of_change (createAssociated_mint laws tokens hcreate))
      (burnForSol_mint (x := p.poolMint) tokens hburn).2

open Reference in
/-- A new pool, whose mint nobody else touches. -/
theorem supply_mirror_founded : ∃ p m, PoolAt runtime founded.ledger pool p ∧
    PoolMint runtime founded.ledger pool p m ∧ m.supply = p.poolTokenSupply ∧
    p.poolTokenSupply = 5000000000 := by
  obtain ⟨p, hp, hsupply⟩ : ∃ p, PoolAt runtime founded.ledger pool p ∧
      p.poolTokenSupply = 5000000000 := PoolAt.of_load _ (by decide +kernel)
  have hseparate : Separate runtime founded.ledger :=
    fun j k _ _ hj hk _ => (founded_pool hj).trans (founded_pool hk).symm
  have hmove : SupplyMove runtime false genesisWorld founded :=
    .call founded_process founded_executes.sysvars hseparate
  obtain ⟨⟨m, hmint, -, heq⟩, -⟩ :=
    supply_mirror programLaws tokenLaws genesis_untouched (.single hmove) hp
  exact ⟨p, m, hp, hmint, heq rfl, hsupply⟩

end StakePoolFogo
