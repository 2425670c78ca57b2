import StakePoolFogo.FeeBounds
import StakePoolFogo.Solvency.Modes

/-!
# The value of a pool token over a run

A solvent pool never finds a loss when its total is recomputed, so the updates of a run are trades
like its deposits and withdrawals, and every other instruction leaves the two totals alone.
-/

open StakePoolFogo.Outcome StakePoolFogo.Share

namespace StakePoolFogo

variable {rt : Runtime} {k : Pubkey} {steady : Prop} {s₀ s s' : World} {accounts : List AccountMeta}
  {a : AccountMeta} {p p' : StakePool} {l : ValidatorList}

/-! ## One instruction -/

/-- The update of a solvent pool finds no loss. -/
theorem UpdatePoolRun.noLoss {keeper : Keeper} {sv : Sysvars} {w w' : Ledger}
    (r : UpdatePoolRun rt sv accounts w w') (h : Solvent rt r.pool.key keeper steady w r.p r.l) :
    r.p.totalLamports ≤ r.total := by
  obtain ⟨info, hdata, htotal⟩ := r.total_eq
  obtain ⟨held, hheld, hbacked⟩ := h.reserve
  -- The reserve the books rest on is the one the update reads.
  have hinfo := hheld.data
  rw [hdata] at hinfo
  cases hinfo
  omega

theorem StakePool.updateFee_book {fee : FeeType} (h : p.updateFee fee = .ok p') :
    p'.book = p.book := by
  rw [book, book, updateFee_total h, updateFee_supply h]

/-- An instruction on a solvent pool is a trade or keeps its totals. -/
theorem Handled.trades {keeper : Keeper} (laws : ProgramLaws rt)
    (h : Handled rt s.sysvars accounts s.ledger s'.ledger) (ha : accounts[0]? = some a)
    (hp : PoolAt rt s.ledger a.key p) (hl : ListAt rt s.ledger p.validatorList l)
    (hsolvent : Solvent rt a.key keeper steady s.ledger p l) (hp' : PoolAt rt s'.ledger a.key p') :
    Trades rt a.key s s' ∨ p'.book = p.book := by
  have hkey : ∀ {b : AccountMeta}, accounts[0]? = some b → b.key = a.key := fun hb =>
    congrArg AccountMeta.key (Option.some.inj (hb.symm.trans ha))
  cases h with
  | initializePool r =>
    obtain rfl := Option.some.inj (ha.symm.trans r.pool_at)
    exact absurd hp r.not_pool
  | depositStake r => exact .inl (.deposit (.stake r (hkey r.pool_at)))
  | depositSol r => exact .inl (.deposit (.sol r (hkey r.pool_at)))
  | depositWsol r =>
    obtain ⟨inner, hpool, -⟩ := r.inner
    exact .inl (.deposit (.wsol r inner (hkey r.pool_at) hpool))
  | withdrawStake r => exact .inl (.withdraw (.stake r (hkey r.pool_at)))
  | withdrawSol r => exact .inl (.withdraw (.sol r (hkey r.pool_at)))
  | withdrawWsol r =>
    obtain ⟨inner, hpool, -, -, -, -, -, -, htoken⟩ := r.inner
    exact .inl (.withdraw (.wsol r inner (hkey r.pool_at) hpool
      (by rw [htoken]; exact Or.inl r.token_key)))
  | updatePool r =>
    obtain rfl := Option.some.inj (ha.symm.trans r.pool_at)
    obtain rfl := hp.unique r.isPool
    obtain rfl := hl.unique (by rw [← r.list_key]; exact r.isList)
    exact .inl (.update r rfl (r.noLoss hsolvent))
  -- The others write a record with the same two totals, or none at all.
  | addValidator r =>
    have he := r.effect laws ha hp hl
    exact .inr (by rw [hp'.unique he.own.after])
  | removeValidator r =>
    have he := r.effect laws ha hp hl
    exact .inr (by rw [hp'.unique he.own.after]; rfl)
  | decrease r =>
    have he := r.effect laws ha hp hl
    exact .inr (by rw [hp'.unique he.own.after])
  | increase r =>
    have he := r.effect laws ha hp hl
    exact .inr (by rw [hp'.unique he.own.after])
  | updateList r =>
    have he := r.effect laws ha hp hl
    exact .inr (by rw [hp'.unique he.own.after])
  | cleanup r =>
    obtain ⟨q, hq, he⟩ : ∃ q, (q = p ∨ q = p.keepListed l.cleaned) ∧
      BookEffect rt s.sysvars accounts s.ledger s'.ledger a.key p l q l.cleaned := r.effect laws ha hp hl
    right
    rw [hp'.unique he.own.after]
    rcases hq with rfl | rfl <;> rfl
  | @setPreferred t vote r =>
    have he : BookEffect rt s.sysvars _ _ _ _ _ _ _ _ := r.effect laws ha hp hl
    right
    rw [hp'.unique he.own.after]
    cases t <;> rfl
  | setManager r =>
    have he : BookEffect rt s.sysvars _ _ _ _ _ _ _ _ := r.effect laws ha hp hl
    exact .inr (by rw [hp'.unique he.own.after]; rfl)
  | setFee r =>
    have he : BookEffect rt s.sysvars _ _ _ _ _ _ _ _ := r.effect laws ha hp hl
    obtain rfl := Option.some.inj (ha.symm.trans r.pool_at)
    obtain rfl := hp.unique r.isPool
    exact .inr (by rw [hp'.unique he.own.after, StakePool.updateFee_book r.update])
  | setStaker r =>
    have he : BookEffect rt s.sysvars _ _ _ _ _ _ _ _ := r.effect laws ha hp hl
    exact .inr (by rw [hp'.unique he.own.after]; rfl)
  | @setFunding t r =>
    have he : BookEffect rt s.sysvars _ _ _ _ _ _ _ _ := r.effect laws ha hp hl
    right
    rw [hp'.unique he.own.after]
    cases t <;> rfl
  | createMetadata hscribe =>
    have hf := (processCreatePoolTokenMetadata_spec hscribe).2
    exact .inr (by rw [hp'.unique (hp.of_frames laws (hf.mono scribes_subset_outsiders))])
  | updateMetadata hscribe =>
    have hf := (processUpdatePoolTokenMetadata_spec hscribe).2
    exact .inr (by rw [hp'.unique (hp.of_frames laws (hf.mono scribes_subset_outsiders))])

/-! ## Runs -/

/-- A step of the pool at `k`, after which tokens are in circulation, and whose tokens are minted and
burnt only by the program. -/
structure ValueStep (rt : Runtime) (k : Pubkey) (steady : Prop) (s s' : World) : Prop where
  step : PoolStep rt k steady s s'
  orderly : Orderly rt k s'
  supply : SupplyMove rt false s s'
  positive : ∀ p', PoolAt rt s'.ledger k p' → 0 < p'.poolTokenSupply

/-- What a step finds of the pool: a run behind it, and its mint mirrored. -/
structure Valued (rt : Runtime) (k : Pubkey) (steady : Prop) (s : World) (p : StakePool) : Prop where
  run : PoolRun rt k steady s
  sound : SupplySound rt false s.ledger
  pool : PoolAt rt s.ledger k p
  positive : 0 < p.poolTokenSupply

theorem Valued.priced (laws : ProgramLaws rt) (h : Valued rt k steady s p) :
    Priced rt s.ledger k p := by
  have hfees := h.run.reachable.feesBounded laws h.pool
  obtain ⟨m, hmint, -, heq⟩ := h.sound.mirrored k p h.pool
  exact ⟨h.pool, h.sound.registry.hasList h.pool, ⟨m, hmint, heq rfl⟩, ⟨hfees.epoch, hfees.nextEpoch⟩⟩

section Value

variable (laws : ProgramLaws rt) (tokens : TokenLaws rt) (addresses : AddressLaws rt)
  (system : SystemLaws rt) (stakes : StakeLaws rt)
  (derived : (findDepositAuthorityProgramAddress rt k).1 ≠ (poolKeeper rt k).authority)

include laws addresses system stakes derived

/-- `UpdateStakePoolBalance` never lowers the total. -/
theorem Valued.update_le (hs : Valued rt k steady s p) {w : Ledger} (ha : accounts[0]? = some a)
    (hk : a.key = k) (hupdate : processUpdateStakePoolBalance rt s.sysvars accounts s.ledger = .ok w)
    (hp' : PoolAt rt w k p') : p.totalLamports ≤ p'.totalLamports := by
  subst hk
  obtain ⟨r⟩ := (processUpdateStakePoolBalance_run rt _).mp hupdate
  obtain ⟨l, hl⟩ := hs.sound.registry.hasList hs.pool
  have hsolvent := (hs.run.solvent laws addresses system stakes derived hs.pool hl).2
  have he := r.effect laws ha hs.pool hl
  obtain rfl := Option.some.inj (ha.symm.trans r.pool_at)
  obtain rfl := hs.pool.unique r.isPool
  obtain rfl := hl.unique (by rw [← r.list_key]; exact r.isList)
  rw [hp'.unique he.own.after]
  exact r.noLoss hsolvent

include tokens

theorem ValueStep.notBelow (h : ValueStep rt k steady s s') (hs : Valued rt k steady s p) :
    ∃ p', Valued rt k steady s' p' ∧ NotBelow p.book p'.book := by
  have hsound := h.supply.sound laws tokens hs.sound
  have hrun := PoolRun.step hs.run h.step h.orderly
  obtain ⟨l, hl⟩ := hs.sound.registry.hasList hs.pool
  obtain ⟨p', -, hp', -⟩ := hrun.pool laws
  refine ⟨p', ⟨hrun, hsound, hp', h.positive p' hp'⟩, ?_⟩
  rcases h.step.on_pool laws hs.sound.registry hs.pool hl with
    ⟨accounts, a, -, -, ha, rfl, hhandled, -, -, -⟩ | ⟨hkept, -, -⟩
  -- An instruction on the pool finds it solvent.
  · have hsolvent := (hs.run.solvent laws addresses system stakes derived hs.pool hl).2
    rcases hhandled.trades laws ha hs.pool hl hsolvent hp' with htrades | hbook
    · obtain ⟨q, hq, hstep⟩ := htrades.step laws tokens (hs.priced laws) hs.positive
      obtain rfl := hp'.unique hq.pool
      exact hstep.notBelow
    · rw [hbook]
      exact .refl _
  -- Anything else leaves its record as it was.
  · obtain rfl := hp'.unique hkept
    exact .refl _

theorem ValueStep.run_notBelow (h : Relation.ReflTransGen (ValueStep rt k steady) s s')
    (hs : Valued rt k steady s p) : ∃ p', Valued rt k steady s' p' ∧ NotBelow p.book p'.book := by
  induction h with
  | refl => exact ⟨p, hs, .refl _⟩
  | tail _ step ih =>
    obtain ⟨q, hq, hbelow⟩ := ih
    obtain ⟨p', hp', hbelow'⟩ := step.notBelow laws tokens addresses system stakes derived hq
    exact ⟨p', hp', hbelow.trans hbelow' hq.positive⟩

/-- Over the run of a pool a token never loses value, whatever the instructions on the pool and the
events around it: as long as tokens are in circulation, no deposit, withdrawal, rebalancing, fee change
or update lowers the lamports behind one token, and no update lowers the total itself. -/
theorem token_value_never_falls (h₀ : Untouched rt s₀)
    (before : Relation.ReflTransGen (SupplyMove rt false) s₀ s) (run : PoolRun rt k steady s)
    (hp : PoolAt rt s.ledger k p) (positive : 0 < p.poolTokenSupply)
    (after : Relation.ReflTransGen (ValueStep rt k steady) s s') :
    ∃ p', PoolAt rt s'.ledger k p' ∧
      p.totalLamports * p'.poolTokenSupply ≤ p'.totalLamports * p.poolTokenSupply ∧
      ∀ accounts a w q, accounts[0]? = some a → a.key = k →
        processUpdateStakePoolBalance rt s'.sysvars accounts s'.ledger = .ok w → PoolAt rt w k q →
        p'.totalLamports ≤ q.totalLamports := by
  have hsound := SupplyMove.run_sound laws tokens h₀ before
  obtain ⟨p', hp', hbelow⟩ := ValueStep.run_notBelow laws tokens addresses system stakes derived after
    ⟨run, hsound, hp, positive⟩
  exact ⟨p', hp'.pool, hbelow, fun _ _ _ _ ha hk hupdate hq =>
    hp'.update_le laws addresses system stakes derived ha hk hupdate hq⟩

end Value

/-! ## A withdrawal on the reference chain -/

namespace Reference

/-- The manager burns pool tokens of the fee account. -/
def cashAccounts : List AccountMeta :=
  [writes pool, reads withdrawAuthority, signs manager, writes managerFee, writes reserve,
    writes manager, writes managerFee, writes mint, reads runtime.clockId,
    reads runtime.stakeHistoryId, reads stakeProgramId, reads splTokenId]

def cashInput : List UInt8 := [16, 0, 132, 215, 23, 0, 0, 0, 0]

/-- The founded pool, of whose tokens the manager has burnt some. -/
def cashed : World := founded.execute runtime cashAccounts (.withdrawSol 400000000)

/-- What there is to evaluate about the withdrawal. -/
theorem cashed_checks :
    succeeded (processInstruction runtime founded.sysvars cashAccounts (.withdrawSol 400000000)
      founded.ledger) = true ∧
    passes runtime pool (apartIn runtime pool) cashed = true ∧
    (cashed.sysvars.epoch < epochMax ∧ 0 < cashed.sysvars.minimumBalance stakeSpace) ∧
    (∀ b ∈ cashAccounts, b.key = (poolKeeper runtime pool).authority → b.isSigner = false) ∧
    ((loadStakePool runtime founded.ledger pool).toOption.map (·.book) = some ⟨5000000000, 5000000000⟩ ∧
      (loadStakePool runtime cashed.ledger pool).toOption.map (·.book) =
        some ⟨4600000000, 4600000000⟩) := by
  decide +kernel

theorem cashed_executes :
    Executes runtime cashAccounts (.withdrawSol 400000000) founded cashed :=
  .of_succeeded cashed_checks.1

theorem cash_decodes :
    StakePoolInstruction.tryFromSlice cashInput = .ok (.withdrawSol 400000000) := by rfl

theorem cashed_orderly : Orderly runtime pool cashed :=
  .of_passes cashed_checks.2.2.1.1 cashed_checks.2.2.1.2 cashed_checks.2.1

/-- There is still one pool. -/
theorem cashed_pool {j : Pubkey} {q : StakePool} (hq : PoolAt runtime cashed.ledger j q) :
    j = pool := by
  -- A withdrawal founds no pool: another one would have been there before.
  by_contra hj
  have hbefore := ((processInstruction_handled cashed_executes.run).record programLaws
    (founded_reachable.registry programLaws)).poolAt_before rfl hj hq
  exact hj (founded_pool hbefore)

theorem founded_supply : SupplyMove runtime false genesisWorld founded :=
  .call founded_process founded_executes.sysvars fun _ _ _ _ hj hk _ =>
    (founded_pool hj).trans (founded_pool hk).symm

theorem cashed_supply : SupplyMove runtime false founded cashed :=
  .call (cashed_executes.process cash_decodes) cashed_executes.sysvars fun _ _ _ _ hj hk _ =>
    (cashed_pool hj).trans (cashed_pool hk).symm

end Reference

open Reference in
/-- The manager's withdrawal keeps the price at one lamport. -/
theorem token_value_never_falls_cashed : ∃ p p', PoolAt runtime founded.ledger pool p ∧
    PoolAt runtime cashed.ledger pool p' ∧ p'.poolTokenSupply = 4600000000 ∧
    p.totalLamports * p'.poolTokenSupply ≤ p'.totalLamports * p.poolTokenSupply := by
  obtain ⟨-, -, -, hunsigned, hfounded, hcashed⟩ := cashed_checks
  obtain ⟨p, hp, hbook⟩ := PoolAt.of_load _ hfounded
  obtain ⟨p', hp', hbook'⟩ := PoolAt.of_load _ hcashed
  obtain ⟨-, hsupply⟩ := Book.mk.inj hbook
  obtain ⟨-, hsupply'⟩ := Book.mk.inj hbook'
  have hstep : ValueStep runtime pool True founded cashed :=
    { step := .call (cashed_executes.happens cashInput cash_decodes) rfl rfl hunsigned
      orderly := cashed_orderly
      supply := cashed_supply
      positive := fun q hq => by
        rw [hq.unique hp', hsupply']
        decide }
  obtain ⟨q, hq, hvalue, -⟩ := token_value_never_falls programLaws tokenLaws addressLaws systemLaws
    stakeLaws derived_apart genesis_untouched (.single founded_supply) founded_run hp
    (by rw [hsupply]; decide) (.single hstep)
  obtain rfl := hp'.unique hq
  exact ⟨p, p', hp, hp', hsupply', hvalue⟩

end StakePoolFogo
