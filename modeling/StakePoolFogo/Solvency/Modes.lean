import StakePoolFogo.FeeLimit
import StakePoolFogo.Solvency.Order
import StakePoolFogo.Supply

/-!
# Merging does not change the price

Updating the list with or without merging moves lamports to different places, but what the reserve
holds together with what is on record comes out the same, and so do the totals, the epoch fee and the
supply that the update of the pool derives from it.
-/

open StakePoolFogo.Outcome

namespace StakePoolFogo

variable {rt : Runtime} {sv : Sysvars} {k : Pubkey} {steady : Prop} {w w' : Ledger} {s t : World}
  {accounts : List AccountMeta} {p : StakePool} {l m : ValidatorList} {noMerge : Bool}

/-- What the reserve and the entries of the pool are worth at `s`. -/
def poolWorth (rt : Runtime) (k : Pubkey) (p : StakePool) (w : Ledger) (l : ValidatorList) : Nat :=
  (w p.reserveStake).lamports +
    (l.validators.map fun v => (crankContext rt k p true).cellWorth (cellAt rt k w v)).sum

/-- Once every entry has been visited, the reserve and the records are what the pool was worth. -/
theorem CrankedTo.worth (laws : StakeLaws rt) {visited : Nat → Prop}
    (h : CrankedTo rt k (visit rt s.sysvars (crankContext rt k p noMerge)) s p l visited t m)
    (hentries : ∀ v ∈ l.validators, ∃ st,
      Sound rt (crankContext rt k p noMerge).keeper steady (cellAt rt k s.ledger v) st)
    (cover : ∀ i < l.validators.length, visited i) :
    (t.ledger p.reserveStake).lamports + m.recorded = poolWorth rt k p s.ledger l := by
  obtain ⟨positions, hrun, hpositions⟩ := h.run
  let worth := (crankContext rt k p noMerge).cellWorth
  let P : Cell → Prop := fun x => ∃ st, Sound rt (crankContext rt k p noMerge).keeper steady x st
  have hsound : ∀ x ∈ (row rt k p.reserveStake s.ledger l.validators).cells, P x := by
    intro x hx
    obtain ⟨v, hv, rfl⟩ := List.mem_map.mp hx
    exact hentries v hv
  have keeps : ∀ x x' n, P x → visit rt s.sysvars (crankContext rt k p noMerge) x = .ok (x', n) → P x' := by
    rintro x x' n ⟨st, hst⟩ hvisit
    obtain ⟨st', hst', -⟩ := hst.visit laws hvisit
    exact ⟨st', hst'⟩
  obtain ⟨hconserved, -⟩ := hrun.conserved (g := worth) keeps
    (fun _ _ _ hx hvisit => by
      obtain ⟨st, hst⟩ := hx
      exact (hst.visit_conserved laws hvisit).1) hsound
  obtain ⟨-, hcounted⟩ := hrun.leaves (P := P) (Q := fun x => worth x = x.entry.recorded)
    (fun x x' n hx hvisit => by
      refine ⟨keeps x x' n hx hvisit, ?_⟩
      obtain ⟨st, hst⟩ := hx
      rw [ValidatorStakeInfo.recorded, Nat.add_comm]
      exact (hst.visit_conserved laws hvisit).2) hsound
  have hlength : m.validators.length = l.validators.length := by
    simpa [row] using hrun.length
  -- Every entry has been counted.
  have hsum : (m.validators.map fun v => worth (cellAt rt k t.ledger v)).sum = m.recorded := by
    unfold ValidatorList.recorded
    refine congrArg List.sum (List.map_congr_left fun v hv => ?_)
    obtain ⟨i, hi, rfl⟩ := List.mem_iff_getElem.mp hv
    exact hcounted i ((hpositions i).mpr (cover i (by omega))) _ (by simp [row, hi])
  have hrows : (t.ledger p.reserveStake).lamports + (m.validators.map fun v =>
      worth (cellAt rt k t.ledger v)).sum = (s.ledger p.reserveStake).lamports +
      (l.validators.map fun v => worth (cellAt rt k s.ledger v)).sum := by
    simpa only [row, List.map_map, Function.comp_def] using hconserved
  rw [hsum] at hrows
  exact hrows

/-! ## The update of the pool -/

/-- Updates of the list do not touch the pool mint. -/
theorem CrankedTo.mint {f : Cell → Except ProgramError (Cell × Nat)} {visited : Nat → Prop} {j : Pubkey}
    {before : Mint} (h : CrankedTo rt k f s p l visited t m)
    (hmint : (t.ledger j).data = .mint before) : (s.ledger j).data = .mint before := by
  have hj : j ≠ p.validatorList := by
    rintro rfl
    rw [h.list.data] at hmint
    cases hmint
  rcases h.others j hj with heq | ⟨-, state, hstate⟩
  · rw [← heq]
    exact hmint
  · rw [hstate] at hmint
    cases hmint

/-- Nor do they decide whether the manager's fee account can be paid. -/
theorem CrankedTo.feeUsable {f : Cell → Except ProgramError (Cell × Nat)} {visited : Nat → Prop}
    (h : CrankedTo rt k f s p l visited t m) (hl : ListAt rt s.ledger p.validatorList l) (j : Pubkey) :
    succeeded (p.checkManagerFeeInfo (t.ledger j)) = succeeded (p.checkManagerFeeInfo (s.ledger j)) := by
  have hrefused : ∀ a : Account, (∀ token, a.data ≠ .token token) →
      succeeded (p.checkManagerFeeInfo a) = false := by
    intro a htoken
    unfold StakePool.checkManagerFeeInfo Account.unpackToken
    split
    · rename_i token hdata
      exact absurd hdata (htoken token)
    · rfl
  by_cases hj : j = p.validatorList
  · subst hj
    rw [hrefused _ (by simp [h.list.data]), hrefused _ (by simp [hl.data])]
  rcases h.others j hj with heq | ⟨⟨state, hstate⟩, state', hstate'⟩
  · rw [heq]
  · rw [hrefused _ (by simp [hstate']), hrefused _ (by simp [hstate])]

section UpdatePool

variable (r : UpdatePoolRun rt sv accounts w w')

/-- The total is what the reserve holds above its minimum, with what is on record. -/
theorem UpdatePoolRun.total_eq : ∃ info, (w r.p.reserveStake).data = .stake (.initialized info) ∧
    r.total + minimumReserveLamports info = (w r.p.reserveStake).lamports + r.l.recorded := by
  obtain ⟨info, hdata, hreserve⟩ := reserveLamports_eq_ok r.in_reserve
  rw [r.isReserve] at hdata hreserve
  have hsum := sumStakeLamports_recorded r.sum
  have hrecorded : r.l.recorded = (r.l.validators.map ValidatorStakeInfo.recorded).sum := rfl
  exact ⟨info, hdata, by omega⟩

/-- The fee is minted on top of the supply. -/
theorem UpdatePoolRun.minted_fee (tokens : TokenLaws rt) :
    (r.minted r.mint.key).data = .mint { r.before with supply := r.before.supply + r.fee } := by
  rcases onlyIf_eq_ok.mp r.mint_fee with ⟨-, h⟩ | ⟨hzero, h⟩
  · simp only [tokenMintTo, bind_eq_ok, exists_unit] at h
    obtain ⟨-, -, h⟩ := h
    obtain ⟨hne, a, b, hf, -, -, -, hset⟩ := invoke₂_eq_ok.mp h
    obtain ⟨before, -, hbefore, -, -, -, hafter, -⟩ := tokens.mintTo _ _ _ _ _ _ _ hf
    obtain rfl := AccountData.mint.inj (r.mint_before.symm.trans hbefore)
    rw [hset, Ledger.set_other _ _ hne, Ledger.set_same]
    exact hafter
  · have hfee : r.fee = 0 := by omega
    have hkept : r.minted r.mint.key = w r.mint.key := congrFun h.symm _
    rw [hkept, r.mint_before, hfee]
    rfl

end UpdatePool

/-- What the update of the pool makes of a fully updated list.  The total and the fee are those of the
state in which the updates of the list started. -/
structure Repriced (rt : Runtime) (k : Pubkey) (p : StakePool) (l : ValidatorList) (s u : World)
    (q : StakePool) (before : Mint) (fee : Nat) : Prop where
  pool : PoolAt rt u.ledger k q
  total : ∃ info, (s.ledger p.reserveStake).data = .stake (.initialized info) ∧
    q.totalLamports + minimumReserveLamports info = poolWorth rt k p s.ledger l
  charged : epochFeeAmount p (s.ledger p.managerFeeAccount) (q.totalLamports - p.totalLamports) = .ok fee
  mint_before : (s.ledger p.poolMint).data = .mint before
  mint_after : (u.ledger p.poolMint).data = .mint { before with supply := before.supply + fee }
  supply : q.poolTokenSupply = before.supply + fee

theorem CrankedTo.repriced (laws : ProgramLaws rt) (stakes : StakeLaws rt) (tokens : TokenLaws rt)
    {visited : Nat → Prop} {u : World}
    (h : CrankedTo rt k (visit rt s.sysvars (crankContext rt k p noMerge)) s p l visited t m)
    (hl : ListAt rt s.ledger p.validatorList l)
    (hentries : ∀ v ∈ l.validators, ∃ st,
      Sound rt (crankContext rt k p noMerge).keeper steady (cellAt rt k s.ledger v) st)
    (cover : ∀ i < l.validators.length, visited i)
    {a : AccountMeta} (executes : Executes rt accounts .updateStakePoolBalance t u)
    (pool_at : accounts[0]? = some a) (hpool : a.key = k) :
    ∃ q before fee, Repriced rt k p l s u q before fee := by
  subst hpool
  obtain ⟨r⟩ := (processUpdateStakePoolBalance_run rt _).mp executes.run
  have heffect := r.effect laws pool_at h.pool h.list
  obtain rfl := Option.some.inj (pool_at.symm.trans r.pool_at)
  obtain rfl := h.pool.unique r.isPool
  obtain rfl := h.list.unique (by rw [← r.list_key]; exact r.isList)
  have hminted := r.minted_fee tokens
  rw [r.mint_key] at hminted
  refine ⟨_, r.before, r.fee, heffect.own.after, ?_, ?_, ?_, ?_, ?_⟩
  · obtain ⟨info, hdata, htotal⟩ := r.total_eq
    obtain ⟨n, hcredit⟩ := h.reserve
    rw [hcredit] at hdata
    exact ⟨info, hdata, htotal.trans (h.worth stakes hentries cover)⟩
  · have hcharged := r.fee_eq
    rw [r.isManagerFee] at hcharged
    unfold epochFeeAmount at hcharged ⊢
    rw [h.feeUsable hl] at hcharged
    exact hcharged
  · have hmint := r.mint_before
    rw [r.mint_key] at hmint
    exact h.mint hmint
  · have hne : r.p.poolMint ≠ r.pool.key := by
      intro heq
      have hmint := r.mint_before
      rw [r.mint_key, heq, r.isPool.data] at hmint
      cases hmint
    obtain ⟨-, hwritten⟩ := writeStakePool_eq_ok.mp r.result
    rw [congrFun hwritten, Ledger.set_other _ _ hne]
    exact hminted
  · have hafter := r.mint_after
    rw [r.mint_key, hminted] at hafter
    exact (congrArg Mint.supply (AccountData.mint.inj hafter)).symm

/-- Two ways of updating the whole list price the pool alike. -/
theorem Repriced.unique {u₁ u₂ : World} {q₁ q₂ : StakePool} {before₁ before₂ : Mint} {fee₁ fee₂ : Nat}
    (h₁ : Repriced rt k p l s u₁ q₁ before₁ fee₁) (h₂ : Repriced rt k p l s u₂ q₂ before₂ fee₂) :
    q₁.totalLamports = q₂.totalLamports ∧ fee₁ = fee₂ ∧ before₁ = before₂ ∧
      q₁.poolTokenSupply = q₂.poolTokenSupply := by
  obtain ⟨info, hdata, htotal₁⟩ := h₁.total
  obtain ⟨info', hdata', htotal₂⟩ := h₂.total
  cases hdata.symm.trans hdata'
  have htotal : q₁.totalLamports = q₂.totalLamports := by omega
  have hcharged := h₁.charged
  rw [htotal, h₂.charged] at hcharged
  obtain rfl := Except.ok.inj hcharged
  obtain rfl := AccountData.mint.inj (h₁.mint_before.symm.trans h₂.mint_before)
  exact ⟨htotal, rfl, rfl, h₁.supply.trans h₂.supply.symm⟩

/-- Updating the whole list without merging and with merging, and then the pool, ends with the same
total, the same supply and the same epoch fee minted. -/
theorem merging_keeps_price (laws : ProgramLaws rt) (addresses : AddressLaws rt) (system : SystemLaws rt)
    (stakes : StakeLaws rt) (tokens : TokenLaws rt)
    (hderived : (findDepositAuthorityProgramAddress rt k).1 ≠ (poolKeeper rt k).authority)
    (h : PoolRun rt k steady s) (hp : PoolAt rt s.ledger k p)
    (hl : ListAt rt s.ledger p.validatorList l) {t₁ t₂ u₁ u₂ : World} {visited₁ visited₂ : Nat → Prop}
    (unmerged : Cranks rt k true s visited₁ t₁) (merged : Cranks rt k false s visited₂ t₂)
    (cover₁ : ∀ i < l.validators.length, visited₁ i) (cover₂ : ∀ i < l.validators.length, visited₂ i)
    {accounts₁ accounts₂ : List AccountMeta} {a₁ a₂ : AccountMeta}
    (at₁ : accounts₁[0]? = some a₁) (at₂ : accounts₂[0]? = some a₂) (pool₁ : a₁.key = k)
    (pool₂ : a₂.key = k) (repriced₁ : Executes rt accounts₁ .updateStakePoolBalance t₁ u₁)
    (repriced₂ : Executes rt accounts₂ .updateStakePoolBalance t₂ u₂) :
    ∃ q₁ q₂ before fee, PoolAt rt u₁.ledger k q₁ ∧ PoolAt rt u₂.ledger k q₂ ∧
      q₁.totalLamports = q₂.totalLamports ∧ q₁.poolTokenSupply = q₂.poolTokenSupply ∧
      (s.ledger p.poolMint).data = .mint before ∧
      (u₁.ledger p.poolMint).data = .mint { before with supply := before.supply + fee } ∧
      (u₂.ledger p.poolMint).data = .mint { before with supply := before.supply + fee } := by
  obtain ⟨hkept, hsolvent⟩ := h.solvent laws addresses system stakes hderived hp hl
  have hentries : ∀ noMerge, ∀ v ∈ l.validators, ∃ st,
      Sound rt (crankContext rt k p noMerge).keeper steady (cellAt rt k s.ledger v) st := by
    intro noMerge
    rw [hkept.crankContext]
    exact hsolvent.entries
  obtain ⟨m₁, hm₁⟩ := h.cranks laws addresses system stakes hderived hp hl unmerged
  obtain ⟨m₂, hm₂⟩ := h.cranks laws addresses system stakes hderived hp hl merged
  obtain ⟨q₁, before₁, fee₁, hq₁⟩ := hm₁.repriced laws stakes tokens hl (hentries true) cover₁ repriced₁ at₁ pool₁
  obtain ⟨q₂, before₂, fee₂, hq₂⟩ := hm₂.repriced laws stakes tokens hl (hentries false) cover₂ repriced₂ at₂ pool₂
  obtain ⟨htotal, rfl, rfl, hsupply⟩ := hq₁.unique hq₂
  exact ⟨q₁, q₂, before₁, fee₁, hq₁.pool, hq₂.pool, htotal, hsupply, hq₁.mint_before, hq₁.mint_after,
    hq₂.mint_after⟩

namespace Reference

def increaseAccounts : List AccountMeta :=
  [reads pool, signs staker, reads withdrawAuthority, writes validatorList, writes reserve, writes transientStake,
    reads validatorStake, reads vote, reads runtime.clockId, reads runtime.rentId, reads runtime.stakeHistoryId,
    reads runtime.stakeConfigId, reads systemProgramId, reads stakeProgramId]

/-- The pool with one validator and a stake of one SOL on its way to it. -/
def increased : World := staked.execute runtime increaseAccounts (.increaseValidatorStake 1000000000 0)

/-- The pool in the epoch in which that stake is active. -/
def ripened : World := increased.atEpoch 1

/-- The pool after an update of its list and of itself. -/
def repriced (noMerge : Bool) : World :=
  (updated noMerge ripened).execute runtime updateAccounts .updateStakePoolBalance

theorem ripened_checks :
    (succeeded (processInstruction runtime staked.sysvars increaseAccounts (.increaseValidatorStake 1000000000 0)
        staked.ledger) = true ∧
      StakePoolInstruction.tryFromSlice [4, 0, 202, 154, 59, 0, 0, 0, 0, 0, 0, 0, 0, 0, 0, 0, 0] =
        .ok (.increaseValidatorStake 1000000000 0) ∧
      (∀ b ∈ increaseAccounts, b.key = (poolKeeper runtime pool).authority → b.isSigner = false) ∧
      increased.sysvars.epoch < epochMax ∧ 0 < increased.sysvars.minimumBalance stakeSpace ∧
      passes runtime pool (apartIn runtime pool) increased = true) ∧
    (ripened.sysvars.epoch < epochMax ∧ 0 < ripened.sysvars.minimumBalance stakeSpace ∧
      passes runtime pool (apartIn runtime pool) ripened = true) ∧
    ((loadStakePool runtime ripened.ledger pool).toOption.map (fun p => (p.validatorList, p.reserveStake)) =
        some (validatorList, reserve) ∧
      (loadValidatorList runtime ripened.ledger validatorList).toOption.map (fun l => l.validators.map fun v =>
        (v.voteAccountAddress, v.validatorSeedSuffix, v.transientSeedSuffix)) = some [(vote, 0, 0)]) ∧
    (∀ noMerge : Bool, succeeded (processInstruction runtime ripened.sysvars updateListAccounts
        (.updateValidatorListBalance 0 noMerge) ripened.ledger) = true ∧
      succeeded (processInstruction runtime (updated noMerge ripened).sysvars updateAccounts
        .updateStakePoolBalance (updated noMerge ripened).ledger) = true) ∧
    0 < ((repriced true).ledger transientStake).lamports ∧
    ((repriced false).ledger transientStake).lamports = 0 := by
  decide +kernel

theorem increased_executes : Executes runtime increaseAccounts (.increaseValidatorStake 1000000000 0) staked
    increased := .of_succeeded ripened_checks.1.1

theorem increased_run : PoolRun runtime pool True increased := by
  obtain ⟨⟨-, hdecoded, hunsigned, hepoch, hrent, hpasses⟩, -⟩ := ripened_checks
  exact staked_run.executes increased_executes [4, 0, 202, 154, 59, 0, 0, 0, 0, 0, 0, 0, 0, 0, 0, 0, 0] hdecoded
    rfl rfl hunsigned (.of_passes hepoch hrent hpasses)

theorem ripened_run : PoolRun runtime pool True ripened := by
  obtain ⟨-, ⟨hepoch, hrent, hpasses⟩, -⟩ := ripened_checks
  exact increased_run.atEpoch (.of_passes hepoch hrent hpasses)

theorem ripened_updates (noMerge : Bool) :
    Executes runtime updateListAccounts (.updateValidatorListBalance 0 noMerge) ripened
        (updated noMerge ripened) ∧
      Executes runtime updateAccounts .updateStakePoolBalance (updated noMerge ripened) (repriced noMerge) := by
  obtain ⟨-, -, -, hsucceeded, -⟩ := ripened_checks
  exact ⟨.of_succeeded (hsucceeded noMerge).1, .of_succeeded (hsucceeded noMerge).2⟩

end Reference

open Reference in
/-- The transient stake of the one validator is merged in one case and left alone in the other. -/
theorem merging_keeps_price_ripened : ∃ q₁ q₂, PoolAt runtime (repriced true).ledger pool q₁ ∧
    PoolAt runtime (repriced false).ledger pool q₂ ∧ q₁.totalLamports = q₂.totalLamports ∧
    q₁.poolTokenSupply = q₂.poolTokenSupply ∧ 0 < ((repriced true).ledger transientStake).lamports ∧
    ((repriced false).ledger transientStake).lamports = 0 := by
  obtain ⟨-, -, ⟨hpool, hentries⟩, -, hleft, hmerged⟩ := ripened_checks
  obtain ⟨p, l, hp, -, hl, -, hcover⟩ := visited_entry
    (PoolAt.of_load (fun p => (p.validatorList, p.reserveStake)) hpool) (ListAt.of_load _ hentries)
  obtain ⟨unmerged, repriced₁⟩ := ripened_updates true
  obtain ⟨merged, repriced₂⟩ := ripened_updates false
  obtain ⟨q₁, q₂, -, -, hq₁, hq₂, htotal, hsupply, -⟩ := merging_keeps_price programLaws addressLaws
    systemLaws stakeLaws tokenLaws derived_apart ripened_run hp hl (.call .nil unmerged rfl rfl hp hl)
    (.call .nil merged rfl rfl hp hl) hcover hcover rfl rfl rfl rfl repriced₁ repriced₂
  exact ⟨q₁, q₂, hq₁, hq₂, htotal, hsupply, hleft, hmerged⟩

end StakePoolFogo
