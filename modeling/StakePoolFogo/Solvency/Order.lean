import StakePoolFogo.Solvency.Run

/-!
# Updates in any order

Updates of the validator list by anyone, in chunks of any size, overlapping and repeated.  Where they
end depends only on which entries they have visited.
-/

open StakePoolFogo.Outcome

namespace StakePoolFogo

variable {rt : Runtime} {sv : Sysvars} {k : Pubkey} {keeper : Keeper} {steady : Prop} {w w' : Ledger}
  {s t t₁ t₂ : World} {accounts : List AccountMeta} {p p' : StakePool} {l l' : ValidatorList}
  {noMerge : Bool}

/-! ## What a visit depends on -/

/-- A visit looks at the keeper and the mode only. -/
theorem visit_congr {c c' : UpdateContext} (hkeeper : c.keeper = c'.keeper)
    (hmode : c.noMerge = c'.noMerge) : visit rt sv c = visit rt sv c' := by
  obtain ⟨hauthority, hlockup⟩ := Keeper.mk.inj hkeeper
  have husable : ∀ info, c.usable info = c'.usable info := by
    intro info
    rw [UpdateContext.usable, UpdateContext.usable, hauthority, hlockup]
  funext x
  simp only [visit, visitTransient, visitValidator, settleAccount, Cell.joinTransient,
    Cell.stopTransient, husable, hauthority, hmode]

/-! ## Sequences of updates -/

/-- Successful updates of the list of the pool at `k`, with the positions they visited. -/
inductive Cranks (rt : Runtime) (k : Pubkey) (noMerge : Bool) (s : World) :
    (Nat → Prop) → World → Prop where
  | nil : Cranks rt k noMerge s (fun _ => False) s
  | call {visited : Nat → Prop} {t t' : World} {accounts : List AccountMeta} {a : AccountMeta}
      {startIndex : UInt32} {p : StakePool} {l : ValidatorList}
      (before : Cranks rt k noMerge s visited t)
      (executes : Executes rt accounts (.updateValidatorListBalance startIndex noMerge) t t')
      (pool_at : accounts[0]? = some a) (pool : a.key = k) (isPool : PoolAt rt t.ledger k p)
      (isList : ListAt rt t.ledger p.validatorList l) :
      Cranks rt k noMerge s (fun i => visited i ∨ Visits rt k startIndex.toNat
        (l.validators.drop startIndex.toNat) (stakePairs (accounts.drop 7)) i) t'

/-- What the updates so far leave of the pool: the same records up to a run of visits. -/
structure CrankedTo (rt : Runtime) (k : Pubkey) (f : Cell → Except ProgramError (Cell × Nat))
    (s : World) (p : StakePool) (l : ValidatorList) (visited : Nat → Prop) (t : World) (m : ValidatorList) :
    Prop where
  sysvars : t.sysvars = s.sysvars
  pool : PoolAt rt t.ledger k p
  list : ListAt rt t.ledger p.validatorList m
  header : m.header = l.header
  reserve : ∃ n, t.ledger p.reserveStake = (s.ledger p.reserveStake).credited n
  others : ∀ j, j ≠ p.validatorList → (s.ledger j).StakeOnly (t.ledger j)
  stakeKeys : m.validators.map (·.stakeKey rt k) = l.validators.map (·.stakeKey rt k)
  transientKeys : m.validators.map (·.transientKey rt k) = l.validators.map (·.transientKey rt k)
  run : ∃ positions, Cells.Run f (row rt k p.reserveStake s.ledger l.validators) positions
    (row rt k p.reserveStake t.ledger m.validators) ∧ ∀ i, i ∈ positions ↔ visited i

section Call

variable {startIndex : UInt32} (r : UpdateListRun rt sv accounts startIndex noMerge w w')

/-- The entries keep their accounts. -/
theorem UpdateListRun.keys (laws : StakeLaws rt) (hapart : Apart rt r.pool.key r.p.reserveStake r.l)
    (hreserve : ∃ info, (w r.p.reserveStake).data = .stake (.initialized info)) :
    r.after.validators.map (·.stakeKey rt r.pool.key) =
        r.l.validators.map (·.stakeKey rt r.pool.key) ∧
      r.after.validators.map (·.transientKey rt r.pool.key) =
        r.l.validators.map (·.transientKey rt r.pool.key) := by
  obtain ⟨-, -, -, hcranked⟩ := r.row_run laws hapart hreserve
  have hstake : r.refreshed.map (·.stakeKey rt r.pool.key) =
      (r.l.validators.drop startIndex.toNat).map (·.stakeKey rt r.pool.key) := hcranked.stakeKeys
  have htransient : r.refreshed.map (·.transientKey rt r.pool.key) =
      (r.l.validators.drop startIndex.toNat).map (·.transientKey rt r.pool.key) := hcranked.transientKeys
  have hsplit := List.take_append_drop startIndex.toNat r.l.validators
  constructor
  · rw [UpdateListRun.after, List.map_append, hstake, ← List.map_append]
    exact congrArg _ hsplit
  · rw [UpdateListRun.after, List.map_append, htransient, ← List.map_append]
    exact congrArg _ hsplit

/-- Writing the list does not touch the row. -/
theorem UpdateListRun.row_written (vs : List ValidatorStakeInfo)
    (hreserve : r.p.reserveStake ≠ r.p.validatorList)
    (hvs : ∀ v ∈ vs, v.stakeKey rt r.pool.key ≠ r.p.validatorList ∧
      v.transientKey rt r.pool.key ≠ r.p.validatorList) :
    row rt r.pool.key r.p.reserveStake w' vs = row rt r.pool.key r.p.reserveStake r.settled vs := by
  have hother : ∀ j, j ≠ r.p.validatorList → w' j = r.settled j := by
    intro j hj
    rw [← r.list_key] at hj
    rw [congrFun r.result j, writeValidatorList, Ledger.set_other _ _ hj]
  rw [row, row, hother _ hreserve]
  congr 1
  refine List.map_congr_left fun v hv => ?_
  rw [cellAt, cellAt, hother _ (hvs v hv).1, hother _ (hvs v hv).2]

/-- Besides the list, the update writes to stake accounts only. -/
theorem UpdateListRun.stakeOnly (laws : StakeLaws rt)
    (hapart : Apart rt r.pool.key r.p.reserveStake r.l)
    (hreserve : ∃ info, (w r.p.reserveStake).data = .stake (.initialized info)) {j : Pubkey}
    (hj : j ≠ r.p.validatorList) : (w j).StakeOnly (w' j) := by
  have hwritten : w' j = r.settled j := by
    rw [← r.list_key] at hj
    rw [congrFun r.result j, writeValidatorList, Ledger.set_other _ _ hj]
  rw [hwritten]
  obtain ⟨visited, hrun, -, hcranked⟩ := r.row_run laws hapart hreserve
  obtain ⟨hstake, htransient⟩ := r.keys laws hapart hreserve
  -- The account of an entry is in its cell, before and after.
  have hentry : ∀ (g : ValidatorStakeInfo → Pubkey) (account : Cell → Account),
      (∀ u v, account (cellAt rt r.pool.key u v) = u (g v)) →
      (∀ x x' n, visit rt sv r.context x = .ok (x', n) → (account x).StakeOnly (account x')) →
      r.after.validators.map g = r.l.validators.map g → j ∈ r.l.validators.map g →
      (w j).StakeOnly (r.settled j) := by
    intro g account hcell hvisit hkeys hmem
    obtain ⟨v, hv, rfl⟩ := List.mem_map.mp hmem
    obtain ⟨i, hi, rfl⟩ := List.mem_iff_getElem.mp hv
    obtain ⟨x', hx', hrel⟩ := hrun.related (R := fun x x' => (account x).StakeOnly (account x'))
      (fun x => .refl _) (fun x y z => .trans) hvisit (i := i)
      (x := cellAt rt r.pool.key w r.l.validators[i]) (by simp [row, hi])
    have hi' : i < r.after.validators.length := by
      have hlength := congrArg List.length hkeys
      rw [List.length_map, List.length_map] at hlength
      omega
    have hcells : x' = cellAt rt r.pool.key r.settled r.after.validators[i] := by
      simpa [row, hi'] using hx'.symm
    have hkey : g r.after.validators[i] = g r.l.validators[i] := by
      have hat := congrArg (fun keys => keys[i]?) hkeys
      simpa [hi, hi'] using hat
    rw [hcells, hcell, hcell, hkey] at hrel
    exact hrel
  by_cases hs : j ∈ r.l.validators.map (·.stakeKey rt r.pool.key)
  · exact hentry _ Cell.validator (fun _ _ => rfl)
      (fun _ _ _ hvisit => (visit_stakeOnly laws hvisit).1) hstake hs
  by_cases ht : j ∈ r.l.validators.map (·.transientKey rt r.pool.key)
  · exact hentry _ Cell.transient (fun _ _ => rfl)
      (fun _ _ _ hvisit => (visit_stakeOnly laws hvisit).2) htransient ht
  by_cases hr : j = r.p.reserveStake
  · obtain ⟨info, hinfo⟩ := hreserve
    obtain ⟨n, hcredit⟩ := hcranked.reserve
    have hsettled : r.settled r.p.reserveStake = (w r.p.reserveStake).credited n := by
      rw [← r.isReserve]
      exact hcredit
    rw [hr, hsettled]
    exact .inr ⟨⟨_, hinfo⟩, _, hinfo⟩
  · refine .inl (hcranked.only j ?_)
    intro hin
    rcases List.mem_cons.mp hin with heq | hin
    · exact hr (heq.trans r.isReserve)
    · have hdrop : ∀ (g : ValidatorStakeInfo → Pubkey),
          j ∈ (r.l.validators.drop startIndex.toNat).map g → j ∈ r.l.validators.map g := by
        intro g hin
        obtain ⟨v, hv, rfl⟩ := List.mem_map.mp hin
        exact List.mem_map_of_mem (List.mem_of_mem_drop hv)
      rcases List.mem_append.mp hin with hin | hin
      · exact hs (hdrop _ hin)
      · exact ht (hdrop _ hin)

end Call

/-- Entries with the same accounts. -/
theorem keys_ne_of_map {vs vs' : List ValidatorStakeInfo} {j : Pubkey}
    (hstake : vs'.map (·.stakeKey rt k) = vs.map (·.stakeKey rt k))
    (htransient : vs'.map (·.transientKey rt k) = vs.map (·.transientKey rt k))
    (h : ∀ v ∈ vs, v.stakeKey rt k ≠ j ∧ v.transientKey rt k ≠ j) :
    ∀ v ∈ vs', v.stakeKey rt k ≠ j ∧ v.transientKey rt k ≠ j := by
  have hmem : ∀ (g : ValidatorStakeInfo → Pubkey), vs'.map g = vs.map g → (∀ v ∈ vs, g v ≠ j) →
      ∀ v ∈ vs', g v ≠ j := by
    intro g hg hne v hv heq
    have hin : g v ∈ vs.map g := hg ▸ List.mem_map_of_mem hv
    obtain ⟨u, hu, hgu⟩ := List.mem_map.mp hin
    exact hne u hu (hgu.trans heq)
  exact fun v hv => ⟨hmem _ hstake (fun v hv => (h v hv).1) v hv,
    hmem _ htransient (fun v hv => (h v hv).2) v hv⟩

/-- A sequence of updates is a run of visits. -/
theorem Cranks.crankedTo (laws : ProgramLaws rt) (stakes : StakeLaws rt) (c : UpdateContext)
    (hkept : KeptBy rt k c.keeper p) (hp : PoolAt rt s.ledger k p)
    (hl : ListAt rt s.ledger p.validatorList l) (hapart : Apart rt k p.reserveStake l)
    (hlist : ∀ v ∈ l.validators,
      v.stakeKey rt k ≠ p.validatorList ∧ v.transientKey rt k ≠ p.validatorList)
    (hinitialized : ∃ info, (s.ledger p.reserveStake).data = .stake (.initialized info))
    {visited : Nat → Prop} (h : Cranks rt k c.noMerge s visited t) :
    ∃ m, CrankedTo rt k (visit rt s.sysvars c) s p l visited t m := by
  induction h with
  | nil =>
    exact ⟨l, rfl, hp, hl, rfl, ⟨0, rfl⟩, fun j _ => .refl _, rfl, rfl, [], .nil, by simp⟩
  | @call visited t t' accounts a startIndex q m _ executes pool_at pool isPool isList ih =>
    obtain ⟨m', hm⟩ := ih
    subst pool
    obtain rfl := isPool.unique hm.pool
    obtain rfl := isList.unique hm.list
    obtain ⟨r⟩ := (processUpdateValidatorListBalance_run rt _).mp executes.run
    have he := r.effect laws pool_at isPool isList
    obtain rfl := Option.some.inj (pool_at.symm.trans r.pool_at)
    obtain rfl := isPool.unique r.isPool
    obtain rfl := isList.unique (by rw [← r.list_key]; exact r.isList)
    -- The row is laid out as in the beginning.
    have hapart' : Apart rt r.pool.key r.p.reserveStake r.l := by
      unfold Apart at hapart ⊢
      rw [hm.stakeKeys, hm.transientKeys]
      exact hapart
    have hlist' := keys_ne_of_map hm.stakeKeys hm.transientKeys hlist
    obtain ⟨n, hcredit⟩ := hm.reserve
    have hinitialized' : ∃ info, (t.ledger r.p.reserveStake).data = .stake (.initialized info) := by
      rw [hcredit]
      exact hinitialized
    have hne : r.p.reserveStake ≠ r.p.validatorList := by
      intro heq
      obtain ⟨info, hinfo⟩ := hinitialized
      rw [heq, hl.data] at hinfo
      cases hinfo
    obtain ⟨positions, hrun, hpositions, hcranked⟩ := r.row_run stakes hapart' hinitialized'
    obtain ⟨hstake, htransient⟩ := r.keys stakes hapart' hinitialized'
    have hwritten := r.row_written r.after.validators hne (keys_ne_of_map hstake htransient hlist')
    have hkeeper : r.context.keeper = c.keeper := (hkept.keeper_eq r.isAuthority).symm
    have hvisit : visit rt t.sysvars r.context = visit rt s.sysvars c := by
      rw [visit_congr hkeeper rfl, hm.sysvars]
    obtain ⟨before, hbefore, hpositions'⟩ := hm.run
    obtain ⟨n', hcredit'⟩ := hcranked.reserve
    refine ⟨r.after, executes.sysvars.trans hm.sysvars, he.own.after, he.list, hm.header, ⟨n + n', ?_⟩,
      fun j hj => (hm.others j hj).trans (r.stakeOnly stakes hapart' hinitialized' hj),
      hstake.trans hm.stakeKeys, htransient.trans hm.transientKeys, before ++ positions, ?_, fun i => ?_⟩
    · have hsettled : r.settled r.p.reserveStake = (t.ledger r.p.reserveStake).credited n' := by
        rw [← r.isReserve]
        exact hcredit'
      rw [congrFun r.result, writeValidatorList, Ledger.set_other _ _ (by rw [r.list_key]; exact hne),
        hsettled, hcredit, Account.credited_credited]
    · rw [hwritten]
      rw [hvisit] at hrun
      exact hbefore.trans hrun
    · rw [List.mem_append, hpositions', hpositions]

/-- The context of updates of the pool `p` at `k`, as far as visits depend on it. -/
def crankContext (rt : Runtime) (k : Pubkey) (p : StakePool) (noMerge : Bool) : UpdateContext where
  pool := k
  stakePool := p
  authority := ⟨(poolKeeper rt k).authority, false, false⟩
  reserve := p.reserveStake
  clock := rt.clockId
  history := rt.stakeHistoryId
  noMerge := noMerge

theorem KeptBy.crankContext (h : KeptBy rt k (poolKeeper rt k) p) (noMerge : Bool) :
    (crankContext rt k p noMerge).keeper = poolKeeper rt k := by
  rw [UpdateContext.keeper]
  exact (h.keeper_eq h.authority).symm

/-- A sequence of updates in a run of the pool. -/
theorem PoolRun.cranks (laws : ProgramLaws rt) (addresses : AddressLaws rt) (system : SystemLaws rt)
    (stakes : StakeLaws rt)
    (hderived : (findDepositAuthorityProgramAddress rt k).1 ≠ (poolKeeper rt k).authority)
    (h : PoolRun rt k steady s) (hp : PoolAt rt s.ledger k p)
    (hl : ListAt rt s.ledger p.validatorList l) {visited : Nat → Prop}
    (hcranks : Cranks rt k noMerge s visited t) :
    ∃ m, CrankedTo rt k (visit rt s.sysvars (crankContext rt k p noMerge)) s p l visited t m := by
  obtain ⟨hkept, hsolvent⟩ := h.solvent laws addresses system stakes hderived hp hl
  obtain ⟨info, hheld, -⟩ := hsolvent.reserve
  have hkept' : KeptBy rt k (crankContext rt k p noMerge).keeper p := by
    rw [hkept.crankContext]
    exact hkept
  exact hcranks.crankedTo laws stakes (crankContext rt k p noMerge) hkept' hp hl
    (h.orderly.apart p l hp hl) (h.orderly.list_apart p l hp hl) ⟨info, hheld.data⟩

/-- Whatever the order, the chunks and the repetitions, updates in one epoch and one mode that have
visited every entry with its accounts end with the same list and the same lamports everywhere.  One
pass over the whole list is such a sequence. -/
theorem cranks_commute (laws : ProgramLaws rt) (addresses : AddressLaws rt) (system : SystemLaws rt)
    (stakes : StakeLaws rt)
    (hderived : (findDepositAuthorityProgramAddress rt k).1 ≠ (poolKeeper rt k).authority)
    (h : PoolRun rt k True s) (hp : PoolAt rt s.ledger k p)
    (hl : ListAt rt s.ledger p.validatorList l) {visited₁ visited₂ : Nat → Prop}
    (h₁ : Cranks rt k noMerge s visited₁ t₁) (h₂ : Cranks rt k noMerge s visited₂ t₂)
    (cover₁ : ∀ i < l.validators.length, visited₁ i) (cover₂ : ∀ i < l.validators.length, visited₂ i) :
    (t₁.ledger p.validatorList).data = (t₂.ledger p.validatorList).data ∧
      (t₁.ledger p.reserveStake).lamports = (t₂.ledger p.reserveStake).lamports ∧
      ∀ v ∈ l.validators,
        (t₁.ledger (v.stakeKey rt k)).lamports = (t₂.ledger (v.stakeKey rt k)).lamports ∧
        (t₁.ledger (v.transientKey rt k)).lamports = (t₂.ledger (v.transientKey rt k)).lamports := by
  obtain ⟨hkept, hsolvent⟩ := h.solvent laws addresses system stakes hderived hp hl
  obtain ⟨m₁, hm₁⟩ := h.cranks laws addresses system stakes hderived hp hl h₁
  obtain ⟨m₂, hm₂⟩ := h.cranks laws addresses system stakes hderived hp hl h₂
  have hsound : ∀ x ∈ (row rt k p.reserveStake s.ledger l.validators).cells,
      ∃ st, Sound rt (crankContext rt k p noMerge).keeper True x st := by
    intro x hx
    obtain ⟨v, hv, rfl⟩ := List.mem_map.mp hx
    rw [hkept.crankContext]
    exact hsolvent.entries v hv
  -- Both runs end in the settled row.
  have hfinal : ∀ {t m visited}, CrankedTo rt k (visit rt s.sysvars (crankContext rt k p noMerge)) s p l
      visited t m → (∀ i < l.validators.length, visited i) →
      row rt k p.reserveStake t.ledger m.validators =
        (row rt k p.reserveStake s.ledger l.validators).settle
          (visit rt s.sysvars (crankContext rt k p noMerge)) := by
    intro t m visited hm cover
    obtain ⟨positions, hrun, hpositions⟩ := hm.run
    exact hrun.final (visit_settles stakes) hsound fun i hi =>
      (hpositions i).mpr (cover i (by simpa [row] using hi))
  have hrows := (hfinal hm₁ cover₁).trans (hfinal hm₂ cover₂).symm
  obtain ⟨hcells, hpot⟩ := Cells.Row.mk.inj hrows
  have hentries : m₁.validators = m₂.validators := by
    have hmap := congrArg (List.map Cell.entry) hcells
    simpa only [List.map_map, Function.comp_def, cellAt, List.map_id'] using hmap
  have hlists : m₁ = m₂ := by
    obtain ⟨header₁, vs₁⟩ := m₁
    obtain ⟨header₂, vs₂⟩ := m₂
    obtain rfl : header₁ = header₂ := hm₁.header.trans hm₂.header.symm
    obtain rfl : vs₁ = vs₂ := hentries
    rfl
  subst hlists
  refine ⟨hm₁.list.data.trans hm₂.list.data.symm, hpot, fun v hv => ?_⟩
  -- An account of the row is one of the cells.
  have hcell : ∀ u ∈ m₁.validators, cellAt rt k t₁.ledger u = cellAt rt k t₂.ledger u := by
    intro u hu
    obtain ⟨i, hi, rfl⟩ := List.mem_iff_getElem.mp hu
    have hat := congrArg (fun cells => cells[i]?) hcells
    simpa [hi] using hat
  have hstake : v.stakeKey rt k ∈ m₁.validators.map (·.stakeKey rt k) := by
    rw [hm₁.stakeKeys]
    exact List.mem_map_of_mem hv
  have htransient : v.transientKey rt k ∈ m₁.validators.map (·.transientKey rt k) := by
    rw [hm₁.transientKeys]
    exact List.mem_map_of_mem hv
  obtain ⟨u, hu, hkey⟩ := List.mem_map.mp hstake
  obtain ⟨u', hu', hkey'⟩ := List.mem_map.mp htransient
  constructor
  · have hv := congrArg Cell.validator (hcell u hu)
    rw [← hkey]
    exact congrArg Account.lamports hv
  · have ht := congrArg Cell.transient (hcell u' hu')
    rw [← hkey']
    exact congrArg Account.lamports ht

namespace Reference

/-- The update visits the one entry of a list. -/
theorem visited_entry {s : World} (hpool : ∃ p, PoolAt runtime s.ledger pool p ∧
      (p.validatorList, p.reserveStake) = (validatorList, reserve))
    (hlist : ∃ l, ListAt runtime s.ledger validatorList l ∧
      l.validators.map (fun v => (v.voteAccountAddress, v.validatorSeedSuffix, v.transientSeedSuffix)) =
        [(vote, 0, 0)]) :
    ∃ p l, PoolAt runtime s.ledger pool p ∧ p.reserveStake = reserve ∧
      ListAt runtime s.ledger p.validatorList l ∧ l.validators.length = 1 ∧
      ∀ i < l.validators.length, False ∨ Visits runtime pool (0 : UInt32).toNat
        (l.validators.drop (0 : UInt32).toNat) (stakePairs (updateListAccounts.drop 7)) i := by
  obtain ⟨p, hp, hkeys⟩ := hpool
  obtain ⟨hlistKey, hreserve⟩ := Prod.mk.inj hkeys
  obtain ⟨l, hl, hentry⟩ := hlist
  obtain ⟨v, hv, hfields⟩ := List.map_eq_singleton_iff.mp hentry
  obtain ⟨hvote, hseed, htransient⟩ : v.voteAccountAddress = vote ∧ v.validatorSeedSuffix = 0 ∧
      v.transientSeedSuffix = 0 := by simpa using hfields
  have hlength : l.validators.length = 1 := by
    rw [hv]
    rfl
  refine ⟨p, l, hp, hreserve, hlistKey ▸ hl, hlength, fun i hi => ?_⟩
  obtain rfl : i = 0 := by omega
  refine .inr ⟨0, v, (validatorStake, transientStake), rfl, by rw [hv]; rfl, rfl, ?_⟩
  rw [ownAccounts, hvote, hseed, htransient]
  exact ⟨rfl, rfl⟩

end Reference

open Reference in
/-- Updating the reference pool a second time changes nothing more. -/
theorem cranks_commute_staked :
    ((updated false staked).ledger validatorList).data =
        ((updated false (updated false staked)).ledger validatorList).data ∧
      ((updated false staked).ledger reserve).lamports =
        ((updated false (updated false staked)).ledger reserve).lamports := by
  obtain ⟨p, l, hp, hreserve, hl, -, hcover⟩ := visited_entry (s := staked)
    (PoolAt.of_load (fun p => (p.validatorList, p.reserveStake)) (by decide +kernel))
    (ListAt.of_load _ (by decide +kernel))
  obtain ⟨q, hq, hlist⟩ : ∃ q, PoolAt runtime (updated false staked).ledger pool q ∧
      q.validatorList = validatorList := PoolAt.of_load _ (by decide +kernel)
  obtain ⟨m, hm, -⟩ : ∃ m, ListAt runtime (updated false staked).ledger validatorList m ∧
      m.validators.length = 1 := ListAt.of_load (fun l => l.validators.length) (by decide +kernel)
  have hrun : PoolRun runtime pool True staked := staked_run
  have once : Executes runtime updateListAccounts (.updateValidatorListBalance 0 false) staked
      (updated false staked) := .of_succeeded (by decide +kernel)
  have again : Executes runtime updateListAccounts (.updateValidatorListBalance 0 false)
      (updated false staked) (updated false (updated false staked)) :=
    .of_succeeded (by decide +kernel)
  have h₁ := Cranks.call .nil once rfl rfl hp hl
  have h₂ := Cranks.call h₁ again rfl rfl hq (hlist ▸ hm)
  have hsame := cranks_commute programLaws addressLaws systemLaws stakeLaws derived_apart hrun hp hl
    h₁ h₂ hcover fun i hi => .inl (hcover i hi)
  obtain ⟨p', hp', hlist'⟩ : ∃ p, PoolAt runtime staked.ledger pool p ∧ p.validatorList = validatorList :=
    PoolAt.of_load _ (by decide +kernel)
  rw [hp.unique hp', hlist', ← hp.unique hp', hreserve] at hsame
  exact ⟨hsame.1, hsame.2.1⟩

end StakePoolFogo
