import StakePoolFogo.Coverage
import StakePoolFogo.Solvency.Modes

/-!
# Whose balances a pool counts

An update of the validator list names entries by position and brings the accounts along.  Whatever has
happened to the list since it was built, it refreshes an entry from the entry's own accounts or passes it
over, and the total of an epoch counts only entries that were added or refreshed in that epoch.
-/

open StakePoolFogo.Outcome

namespace StakePoolFogo

variable {rt : Runtime} {sv : Sysvars} {c : UpdateContext} {k : Pubkey} {steady : Prop} {w w' : Ledger}
  {s s' t t' : World} {past : List World} {accounts : List AccountMeta} {p p' : StakePool}
  {l l' : ValidatorList} {v v' u : ValidatorStakeInfo} {front vs vs' rest : List ValidatorStakeInfo}
  {header : ValidatorListHeader}

/-! ## One update, position by position -/

/-- What an update makes of a cell: a visit if it has the accounts of the entry, else nothing. -/
def CellRefresh (rt : Runtime) (sv : Sysvars) (c : UpdateContext) (addressed : Prop) (x x' : Cell) : Prop :=
  (addressed → ∃ n, visit rt sv c x = .ok (x', n)) ∧ (¬ addressed → x' = x)

/-- The loop leaves the accounts of entries it does not get to alone. -/
theorem Apart.kept {l : ValidatorList} (hapart : Apart rt c.pool c.reserve l) (hv : v ∈ l.validators)
    (hothers : ∀ u ∈ vs, u ∈ l.validators ∧ u ≠ v) (hcranked : Cranked rt c vs vs' w w') :
    cellAt rt c.pool w' v = cellAt rt c.pool w v := by
  obtain ⟨hstake, htransient, -⟩ := hapart.entry hv
  have hnot : ∀ j, (j = v.stakeKey rt c.pool ∨ j = v.transientKey rt c.pool) →
      j ∉ c.reserve :: (vs.map (·.stakeKey rt c.pool) ++ vs.map (·.transientKey rt c.pool)) := by
    intro j hj hin
    rcases List.mem_cons.mp hin with heq | hin
    · rcases hj with rfl | rfl
      · exact hstake heq.symm
      · exact htransient heq.symm
    have hother : ∃ u ∈ vs, j = u.stakeKey rt c.pool ∨ j = u.transientKey rt c.pool := by
      rcases List.mem_append.mp hin with hin | hin
      · obtain ⟨u, hu, rfl⟩ := List.mem_map.mp hin
        exact ⟨u, hu, .inl rfl⟩
      · obtain ⟨u, hu, rfl⟩ := List.mem_map.mp hin
        exact ⟨u, hu, .inr rfl⟩
    obtain ⟨u, hu, hju⟩ := hother
    obtain ⟨hmem, hne⟩ := hothers u hu
    obtain ⟨hs, ht⟩ := hapart.not_mem hmem hv hne.symm
    simp only [List.mem_cons, List.not_mem_nil, or_false, not_or] at hs ht
    rcases hj with rfl | rfl
    · exact hju.elim hs.2.1 hs.2.2
    · exact hju.elim ht.2.1 ht.2.2
  rw [cellAt, cellAt, hcranked.only _ (hnot _ (.inl rfl)), hcranked.only _ (hnot _ (.inr rfl))]

/-- The loop, position by position. -/
theorem refreshEntries_at (laws : StakeLaws rt) (pairs : List (Pubkey × Pubkey))
    (hapart : Apart rt c.pool c.reserve ⟨header, front ++ vs⟩)
    (hreserve : ∃ info, (w c.reserve).data = .stake (.initialized info))
    (h : refreshEntries rt sv c vs pairs w = .ok (vs', w')) {i : Nat} (hv : vs[i]? = some v) :
    ∃ v', vs'[i]? = some v' ∧ CellRefresh rt sv c
      (∃ pair, pairs[i]? = some pair ∧ ownAccounts rt c.pool v pair.1 pair.2)
      (cellAt rt c.pool w v) (cellAt rt c.pool w' v') := by
  induction vs generalizing front pairs w vs' i with
  | nil => cases hv
  | cons x vs ih =>
    cases pairs with
    | nil =>
      -- The pairs are used up, so the rest stays as it is.
      cases h
      refine ⟨v, hv, ?_, fun _ => rfl⟩
      rintro ⟨pair, hpair, -⟩
      cases hpair
    | cons pair pairs =>
      obtain ⟨validatorKey, transientKey⟩ := pair
      simp only [refreshEntries, bind_eq_ok, pure_eq_ok, Prod.exists, Prod.mk.injEq] at h
      obtain ⟨x', w₁, hentry, vs'', w₂, hrest, rfl, rfl⟩ := h
      -- One turn: a visit or nothing, which leaves the other cells alone and the layout as it is.
      have hturn : CellRefresh rt sv c (ownAccounts rt c.pool x validatorKey transientKey)
            (cellAt rt c.pool w x) (cellAt rt c.pool w₁ x') ∧
          OnlyAt [x.stakeKey rt c.pool, x.transientKey rt c.pool, c.reserve] w w₁ ∧
          (∃ info, (w₁ c.reserve).data = .stake (.initialized info)) ∧
          x'.stakeKey rt c.pool = x.stakeKey rt c.pool ∧
          x'.transientKey rt c.pool = x.transientKey rt c.pool := by
        by_cases hown : ownAccounts rt c.pool x validatorKey transientKey
        · obtain ⟨n, hvisit, hfeeds, hstake, htransient⟩ := refreshEntry_cell laws hapart hreserve hown hentry
          obtain ⟨info, hinfo⟩ := hreserve
          exact ⟨⟨fun _ => ⟨n, hvisit⟩, fun hnot => absurd hown hnot⟩, hfeeds.others,
            ⟨info, by rw [hfeeds.reserve]; exact hinfo⟩, hstake, htransient⟩
        · obtain ⟨rfl, rfl⟩ := refreshEntry_skip hown hentry
          exact ⟨⟨fun h => absurd h hown, fun _ => rfl⟩, .refl _ _, hreserve, rfl, rfl⟩
      obtain ⟨hcell, honly, hreserve', hstake, htransient⟩ := hturn
      have hapart' : Apart rt c.pool c.reserve ⟨header, (front ++ [x']) ++ vs⟩ := by
        rw [List.append_assoc, List.singleton_append]
        unfold Apart at hapart ⊢
        simp only [List.map_append, List.map_cons, hstake, htransient] at hapart ⊢
        exact hapart
      cases i with
      | zero =>
        cases hv
        obtain ⟨_, -, -, hcranked⟩ := refreshEntries_row laws pairs hapart' hreserve' hrest
        have hbehind : Apart rt c.pool c.reserve ⟨header, front ++ x' :: vs⟩ := by
          rwa [List.append_assoc, List.singleton_append] at hapart'
        refine ⟨x', rfl, ?_⟩
        rw [hbehind.kept (List.mem_append_right _ List.mem_cons_self) (fun u hu =>
          ⟨List.mem_append_right _ (List.mem_cons_of_mem _ hu), hbehind.ne_of_append (.inr hu)⟩) hcranked]
        refine ⟨?_, fun hnot => hcell.2 fun hown => hnot ⟨_, rfl, hown⟩⟩
        rintro ⟨pair, hpair, hown⟩
        cases hpair
        exact hcell.1 hown
      | succ i =>
        have hmem : v ∈ vs := List.mem_of_getElem? hv
        obtain ⟨hs, ht⟩ := hapart.not_mem (l := ⟨header, front ++ x :: vs⟩)
          (List.mem_append_right _ List.mem_cons_self)
          (List.mem_append_right _ (List.mem_cons_of_mem _ hmem)) (hapart.ne_of_append (.inr hmem))
        have honly' := honly.mono (show _ ⊆ [c.reserve, x.stakeKey rt c.pool, x.transientKey rt c.pool] by simp)
        have hkept : cellAt rt c.pool w₁ v = cellAt rt c.pool w v := by
          rw [cellAt, cellAt, honly' _ hs, honly' _ ht]
        obtain ⟨v', hv', hrefresh⟩ := ih pairs hapart' hreserve' hrest hv
        rw [hkept] at hrefresh
        exact ⟨v', hv', hrefresh⟩

/-- The crank an update is. -/
def updateCrank (accounts : List AccountMeta) (startIndex : UInt32) : Crank :=
  ⟨startIndex.toNat, stakePairs (accounts.drop 7)⟩

/-- `UpdateValidatorListBalance` refreshes the entries whose own accounts it brought, from these accounts, and
leaves the other entries and every other account alone. -/
theorem UpdateListRun.refreshed_at (laws : StakeLaws rt) {startIndex : UInt32} {noMerge : Bool}
    (r : UpdateListRun rt sv accounts startIndex noMerge w w') (hapart : Apart rt r.pool.key r.p.reserveStake r.l)
    (hreserve : ∃ info, (w r.p.reserveStake).data = .stake (.initialized info)) {i : Nat}
    (hv : r.l.validators[i]? = some v) :
    ∃ v', r.after.validators[i]? = some v' ∧ CellRefresh rt sv r.context
      ((updateCrank accounts startIndex).Addresses rt r.pool.key i v)
      (cellAt rt r.pool.key w v) (cellAt rt r.pool.key r.settled v') := by
  have hsplit := List.take_append_drop startIndex.toNat r.l.validators
  have hlength : (r.l.validators.take startIndex.toNat).length = startIndex.toNat := by
    have hbound := r.bound
    rw [List.length_take]
    omega
  have hapart' : Apart rt r.context.pool r.context.reserve
      ⟨r.l.header, r.l.validators.take startIndex.toNat ++ r.l.validators.drop startIndex.toNat⟩ := by
    show Apart rt r.pool.key r.reserve.key _
    rw [hsplit, r.isReserve]
    exact hapart
  have hreserve' : ∃ info, (w r.context.reserve).data = .stake (.initialized info) := by
    show ∃ info, (w r.reserve.key).data = _
    rwa [r.isReserve]
  by_cases hi : startIndex.toNat ≤ i
  · have hslice : (r.l.validators.drop startIndex.toNat)[i - startIndex.toNat]? = some v := by
      rw [List.getElem?_drop, Nat.add_sub_cancel' hi]
      exact hv
    obtain ⟨v', hv', hrefresh⟩ := refreshEntries_at laws _ hapart' hreserve' r.refresh hslice
    refine ⟨v', ?_, ?_⟩
    · rw [UpdateListRun.after, List.getElem?_append_right (by rw [hlength]; exact hi), hlength]
      exact hv'
    · unfold Crank.Addresses Crank.pairAt updateCrank
      rw [if_pos hi]
      exact hrefresh
  · have hbefore : (r.l.validators.take startIndex.toNat)[i]? = some v := by
      rw [List.getElem?_take_of_lt (Nat.not_le.mp hi)]
      exact hv
    -- The entries in front of the slice are those whose accounts the loop does not get to.
    obtain ⟨_, -, -, hcranked⟩ := refreshEntries_row laws _ hapart' hreserve' r.refresh
    have hfront : v ∈ r.l.validators.take startIndex.toNat := List.mem_of_getElem? hbefore
    have hnodup : (r.l.validators.take startIndex.toNat ++ r.l.validators.drop startIndex.toNat).Nodup :=
      List.Nodup.of_map _ (List.nodup_append.mp (List.nodup_cons.mp hapart').2).1
    refine ⟨v, ?_, ?_, fun _ => ?_⟩
    · rw [UpdateListRun.after, List.getElem?_append_left (by rw [hlength]; exact Nat.not_le.mp hi)]
      exact hbefore
    · rintro ⟨pair, hpair, -⟩
      rw [Crank.pairAt, updateCrank, if_neg hi] at hpair
      cases hpair
    · refine hapart'.kept (List.mem_append_left _ hfront) (fun u hu => ⟨List.mem_append_right _ hu, ?_⟩) hcranked
      rintro rfl
      exact List.disjoint_of_nodup_append hnodup hfront hu

/-- What an update with the accounts of `u` makes of a pool: entries are refreshed from the accounts brought for
them or stay as they are, and nothing else is touched but the reserve, which gains. -/
structure ListRefresh (rt : Runtime) (k : Pubkey) (u : Crank) (c : UpdateContext) (s s' : World) (p : StakePool)
    (l l' : ValidatorList) : Prop where
  pool : PoolAt rt s'.ledger k p
  list : ListAt rt s'.ledger p.validatorList l'
  header : l'.header = l.header
  length : l'.validators.length = l.validators.length
  entries : ∀ (i : Nat) v, l.validators[i]? = some v → ∃ v', l'.validators[i]? = some v' ∧ v.SameSeeds v' ∧
    (u.Addresses rt k i v → v'.lastUpdateEpoch = s.sysvars.epoch) ∧
    CellRefresh rt s.sysvars c (u.Addresses rt k i v) (cellAt rt k s.ledger v) (cellAt rt k s'.ledger v')
  reserve : ∃ n, s'.ledger p.reserveStake = (s.ledger p.reserveStake).credited n
  others : ∀ j, j ≠ p.validatorList → j ≠ p.reserveStake →
    (∀ (i : Nat) v, l.validators[i]? = some v → u.Addresses rt k i v →
      j ≠ v.stakeKey rt k ∧ j ≠ v.transientKey rt k) → s'.ledger j = s.ledger j

section Run

variable (laws : ProgramLaws rt) (addresses : AddressLaws rt) (system : SystemLaws rt) (stakes : StakeLaws rt)
  (hderived : (findDepositAuthorityProgramAddress rt k).1 ≠ (poolKeeper rt k).authority)

include laws addresses system stakes hderived

/-- Whatever it was built for, an update of a pool refreshes what it brought the accounts of. -/
theorem PoolRun.refreshed (h : PoolRun rt k steady s) {a : AccountMeta} {startIndex : UInt32} {noMerge : Bool}
    (hat : accounts[0]? = some a) (hk : a.key = k) (hp : PoolAt rt s.ledger k p)
    (hl : ListAt rt s.ledger p.validatorList l)
    (r : UpdateListRun rt s.sysvars accounts startIndex noMerge s.ledger s'.ledger) :
    ∃ l', ListRefresh rt k (updateCrank accounts startIndex) (crankContext rt k p noMerge) s s' p l l' := by
  subst hk
  obtain ⟨hkept, hsolvent⟩ := h.solvent laws addresses system stakes hderived hp hl
  obtain ⟨info, hheld, -⟩ := hsolvent.reserve
  have hapart := h.orderly.apart p l hp hl
  have hlist := h.orderly.list_apart p l hp hl
  have heffect := r.effect laws hat hp hl
  obtain rfl := Option.some.inj (hat.symm.trans r.pool_at)
  obtain rfl := hp.unique r.isPool
  obtain rfl := hl.unique (by rw [← r.list_key]; exact r.isList)
  -- The call reads the records of this pool, and writes only its list besides the cells.
  have hreserve : ∃ info, (s.ledger r.p.reserveStake).data = .stake (.initialized info) := ⟨info, hheld.data⟩
  have hwritten : ∀ j, j ≠ r.p.validatorList → s'.ledger j = r.settled j := by
    intro j hj
    rw [← r.list_key] at hj
    rw [congrFun r.result j, writeValidatorList, Ledger.set_other _ _ hj]
  -- So its context is the one of the pool.
  have hcontext : visit rt s.sysvars r.context = visit rt s.sysvars (crankContext rt r.pool.key r.p noMerge) := by
    refine visit_congr ?_ rfl
    rw [hkept.crankContext]
    exact (hkept.keeper_eq r.isAuthority).symm
  obtain ⟨-, -, -, hcranked⟩ := r.row_run stakes hapart hreserve
  have hne : r.p.reserveStake ≠ r.p.validatorList := by
    intro heq
    have hdata := hheld.data
    rw [heq, hl.data] at hdata
    cases hdata
  refine ⟨_, heffect.own.after, heffect.list, rfl, ?_, fun i v hv => ?_, ?_, fun j hj hj' hnone => ?_⟩
  · obtain ⟨hstake, -⟩ := r.keys stakes hapart hreserve
    have hlength := congrArg List.length hstake
    rwa [List.length_map, List.length_map] at hlength
  · -- Each entry: the write of the list leaves the accounts of its cell alone.
    obtain ⟨v', hv', hrefresh⟩ := r.refreshed_at stakes hapart hreserve hv
    obtain ⟨v'', hv'', hseeds, hvisited, -⟩ := r.crankedEntry hv
    obtain rfl := Option.some.inj (hv'.symm.trans hv'')
    have hkeys : v'.stakeKey rt r.pool.key = v.stakeKey rt r.pool.key ∧
        v'.transientKey rt r.pool.key = v.transientKey rt r.pool.key := by
      simp only [ValidatorStakeInfo.stakeKey, ValidatorStakeInfo.transientKey, hseeds.vote, hseeds.validator,
        hseeds.transient, and_self]
    have hcell : cellAt rt r.pool.key s'.ledger v' = cellAt rt r.pool.key r.settled v' := by
      obtain ⟨hs, ht⟩ := hlist v (List.mem_of_getElem? hv)
      rw [cellAt, cellAt, hkeys.1, hkeys.2, hwritten _ hs, hwritten _ ht]
    refine ⟨v', hv', hseeds, hvisited, ?_⟩
    rw [hcell]
    unfold CellRefresh at hrefresh ⊢
    rw [← hcontext]
    exact hrefresh
  · obtain ⟨n, hcredit⟩ := hcranked.reserve
    refine ⟨n, ?_⟩
    rw [hwritten _ hne, ← r.isReserve]
    exact hcredit
  · rw [hwritten j hj]
    by_cases hmem : ∃ v ∈ r.l.validators, j = v.stakeKey rt r.pool.key ∨ j = v.transientKey rt r.pool.key
    · -- The account of an entry that was passed over.
      obtain ⟨v, hv, hjv⟩ := hmem
      obtain ⟨i, hi⟩ := List.getElem?_of_mem hv
      obtain ⟨v', hv', -, hskipped⟩ := r.refreshed_at stakes hapart hreserve hi
      have hsame := hskipped fun hown => hjv.elim (hnone i v hi hown).1 (hnone i v hi hown).2
      obtain rfl : v' = v := congrArg Cell.entry hsame
      rcases hjv with rfl | rfl
      · exact congrArg Cell.validator hsame
      · exact congrArg Cell.transient hsame
    · -- Any other account is outside the cells that the call runs through.
      refine hcranked.only j fun hin => ?_
      rcases List.mem_cons.mp hin with heq | hin
      · exact hj' (heq.trans r.isReserve)
      · rcases List.mem_append.mp hin with hin | hin
        · obtain ⟨v, hv, rfl⟩ := List.mem_map.mp hin
          exact hmem ⟨v, List.mem_of_mem_drop hv, .inl rfl⟩
        · obtain ⟨v, hv, rfl⟩ := List.mem_map.mp hin
          exact hmem ⟨v, List.mem_of_mem_drop hv, .inr rfl⟩

end Run

/-! ## The epoch on an entry -/

/-- Entries of one validator stake account with the same epoch on them. -/
structure ValidatorStakeInfo.SameMark (v v' : ValidatorStakeInfo) : Prop where
  vote : v'.voteAccountAddress = v.voteAccountAddress
  seed : v'.validatorSeedSuffix = v.validatorSeedSuffix
  epoch : v'.lastUpdateEpoch = v.lastUpdateEpoch

theorem ValidatorStakeInfo.SameMark.refl (v : ValidatorStakeInfo) : v.SameMark v := ⟨rfl, rfl, rfl⟩

theorem ValidatorStakeInfo.SameMark.trans (h : u.SameMark v) (h' : v.SameMark v') : u.SameMark v' :=
  ⟨h'.vote.trans h.vote, h'.seed.trans h.seed, h'.epoch.trans h.epoch⟩

/-- Every entry was there before, with its mark. -/
def ValidatorList.MarksKept (l l' : ValidatorList) : Prop :=
  ∀ v' ∈ l'.validators, ∃ v ∈ l.validators, v.SameMark v'

theorem ValidatorList.MarksKept.refl (l : ValidatorList) : l.MarksKept l := fun v hv => ⟨v, hv, .refl v⟩

theorem ValidatorList.MarksKept.cleaned (l : ValidatorList) : l.MarksKept l.cleaned :=
  fun v hv => ⟨v, (List.mem_filter.mp hv).1, .refl v⟩

theorem ValidatorList.MarksKept.modify {vote : Pubkey} (found : l.find vote = some v) (h : v.SameMark v') :
    l.MarksKept (l.modify vote fun _ => v') := by
  intro x hx
  rcases ValidatorList.mem_modify found hx with hx | rfl
  · exact ⟨x, hx, .refl x⟩
  · exact ⟨v, ValidatorList.find_mem found, h⟩

theorem recordStakeWithdrawal_sameMark {source : StakeWithdrawSource} {lamports : Nat}
    (h : recordStakeWithdrawal v source lamports = .ok v') : v.SameMark v' := by
  cases source with
  | active | transient =>
    simp only [recordStakeWithdrawal, bind_eq_ok, pure_eq_ok] at h
    obtain ⟨_, -, rfl⟩ := h
    exact ⟨rfl, rfl, rfl⟩
  | validatorRemoval =>
    simp only [recordStakeWithdrawal, bind_eq_ok, exists_unit, pure_eq_ok] at h
    obtain ⟨_, -, -, rfl⟩ := h
    exact ⟨rfl, rfl, rfl⟩

/-- What a withdrawal of stake writes on the list keeps the marks. -/
theorem WithdrawStakeRun.marks {poolTokens : Nat} {minimum : Option Nat}
    (r : WithdrawStakeRun rt sv accounts poolTokens minimum w w') (h : r.plan.Books r.l l') : r.l.MarksKept l' := by
  rcases h with ⟨-, rfl⟩ | ⟨v, source, v', hplan, hrecord, rfl⟩
  · exact .refl _
  have hcases := planWithdrawal_cases rt sv r.plan_eq
  have hmark := recordStakeWithdrawal_sameMark hrecord
  generalize r.plan = plan at hcases hplan
  cases hcases with
  | reserve _ _ => cases hplan
  | active _ _ _ _ found _ _ _ =>
    cases hplan
    rw [ValidatorList.find_vote found]
    exact .modify found hmark
  | transient _ _ _ _ found _ _ _ =>
    cases hplan
    rw [ValidatorList.find_vote found]
    exact .modify found hmark
  | removal _ _ _ _ found _ _ _ _ =>
    cases hplan
    rw [ValidatorList.find_vote found]
    exact .modify found hmark

/-- Only `AddValidatorToPool` and `UpdateValidatorListBalance` put an epoch on an entry. -/
theorem Handled.marks (laws : ProgramLaws rt) {a : AccountMeta} (h : Handled rt sv accounts w w')
    (ha : accounts[0]? = some a) (hp : PoolAt rt w a.key p) (hl : ListAt rt w p.validatorList l) :
    (∃ startIndex noMerge, Nonempty (UpdateListRun rt sv accounts startIndex noMerge w w')) ∨
    ∃ p' l', BookEffect rt sv accounts w w' a.key p l p' l' ∧
      (l.MarksKept l' ∨ ∃ v', l'.validators = l.validators ++ [v'] ∧ v'.lastUpdateEpoch = sv.epoch) := by
  cases h with
  | updateList r => exact .inl ⟨_, _, ⟨r⟩⟩
  | initializePool r =>
    obtain rfl := Option.some.inj (ha.symm.trans r.pool_at)
    exact absurd hp r.not_pool
  | addValidator r => exact .inr ⟨_, _, r.effect laws ha hp hl, .inr ⟨_, rfl, rfl⟩⟩
  | removeValidator r =>
    have heffect := r.effect laws ha hp hl
    obtain rfl := Option.some.inj (ha.symm.trans r.pool_at)
    obtain rfl := hp.unique r.isPool
    obtain rfl := hl.unique (by rw [← r.list_key]; exact r.isList)
    exact .inr ⟨_, _, heffect, .inl (.modify r.found ⟨rfl, rfl, rfl⟩)⟩
  | decrease r =>
    have heffect := r.effect laws ha hp hl
    obtain rfl := Option.some.inj (ha.symm.trans r.pool_at)
    obtain rfl := hp.unique r.isPool
    obtain rfl := hl.unique (by rw [← r.list_key]; exact r.isList)
    exact .inr ⟨_, _, heffect, .inl (.modify r.found ⟨rfl, rfl, rfl⟩)⟩
  | increase r =>
    have heffect := r.effect laws ha hp hl
    obtain rfl := Option.some.inj (ha.symm.trans r.pool_at)
    obtain rfl := hp.unique r.isPool
    obtain rfl := hl.unique (by rw [← r.list_key]; exact r.isList)
    exact .inr ⟨_, _, heffect, .inl (.modify r.found ⟨rfl, rfl, rfl⟩)⟩
  | depositStake r =>
    have heffect := r.effect laws ha hp hl
    obtain rfl := Option.some.inj (ha.symm.trans r.pool_at)
    obtain rfl := hp.unique r.isPool
    obtain rfl := hl.unique (by rw [← r.list_key]; exact r.isList)
    exact .inr ⟨_, _, heffect, .inl (.modify r.found ⟨rfl, rfl, rfl⟩)⟩
  | cleanup r =>
    obtain ⟨p', -, heffect⟩ := r.effect laws ha hp hl
    exact .inr ⟨p', _, heffect, .inl (.cleaned l)⟩
  | withdrawStake r =>
    obtain ⟨l', hbooks, heffect⟩ := r.effect laws ha hp hl
    obtain rfl := Option.some.inj (ha.symm.trans r.pool_at)
    obtain rfl := hp.unique r.isPool
    obtain rfl := hl.unique (by rw [← r.list_key]; exact r.isList)
    exact .inr ⟨_, l', heffect, .inl (r.marks hbooks)⟩
  | setPreferred r => exact .inr ⟨_, l, r.effect laws ha hp hl, .inl (.refl l)⟩
  | updatePool r => exact .inr ⟨_, l, r.effect laws ha hp hl, .inl (.refl l)⟩
  | depositSol r =>
    exact .inr ⟨_, l, r.effect laws ha hp hl (Option.some.inj (r.pool_at.symm.trans ha)), .inl (.refl l)⟩
  | depositWsol r =>
    obtain ⟨_, heffect⟩ := r.effect laws ha hp hl
    exact .inr ⟨_, l, heffect, .inl (.refl l)⟩
  | withdrawSol r =>
    have hpool := Option.some.inj (r.pool_at.symm.trans ha)
    exact .inr ⟨_, l, r.effect laws ha hp hl r.isToken hpool, .inl (.refl l)⟩
  | withdrawWsol r =>
    obtain ⟨_, _, heffect⟩ := r.effect laws ha hp hl
    exact .inr ⟨_, l, heffect, .inl (.refl l)⟩
  | setManager r => exact .inr ⟨_, l, r.effect laws ha hp hl, .inl (.refl l)⟩
  | setFee r => exact .inr ⟨_, l, r.effect laws ha hp hl, .inl (.refl l)⟩
  | setStaker r => exact .inr ⟨_, l, r.effect laws ha hp hl, .inl (.refl l)⟩
  | setFunding r => exact .inr ⟨_, l, r.effect laws ha hp hl, .inl (.refl l)⟩
  | createMetadata h =>
    exact .inr ⟨p, l, .of_frames laws hp hl ((processCreatePoolTokenMetadata_spec h).2.mono
      scribes_subset_outsiders), .inl (.refl l)⟩
  | updateMetadata h =>
    exact .inr ⟨p, l, .of_frames laws hp hl ((processUpdatePoolTokenMetadata_spec h).2.mono
      scribes_subset_outsiders), .inl (.refl l)⟩

/-! ## Where the epoch on an entry comes from -/

/-- Between `t` and `t'` the entry `u` was added, or refreshed from its own accounts. -/
inductive Source (rt : Runtime) (k : Pubkey) (t t' : World) (u : ValidatorStakeInfo) : Prop where
  | added {p : StakePool} {l l' : ValidatorList} (pool : PoolAt rt t.ledger k p)
      (list : ListAt rt t.ledger p.validatorList l) (after : ListAt rt t'.ledger p.validatorList l')
      (entries : l'.validators = l.validators ++ [u])
  | refreshed {p : StakePool} {l l' : ValidatorList} {crank : Crank} {noMerge : Bool} {i : Nat}
      {v : ValidatorStakeInfo} (pool : PoolAt rt t.ledger k p) (list : ListAt rt t.ledger p.validatorList l)
      (refresh : ListRefresh rt k crank (crankContext rt k p noMerge) t t' p l l')
      (before : l.validators[i]? = some v) (after : l'.validators[i]? = some u)
      (own : crank.Addresses rt k i v)

/-- The states of the pool at `k` since its foundation, the newest first. -/
inductive Chronicle (rt : Runtime) (k : Pubkey) (steady : Prop) : List World → Prop where
  | founded {s s' : World} {accounts : List AccountMeta} {a : AccountMeta} {input : List UInt8}
      {fee withdrawalFee depositFee : Fee} {referralFee : UInt8} {maxValidators : UInt32}
      (before : Reachable rt s) (happens : Happens rt s s' (.call accounts input))
      (decoded : StakePoolInstruction.tryFromSlice input =
        .ok (.initializePool fee withdrawalFee depositFee referralFee maxValidators))
      (pool_at : accounts[0]? = some a) (pool : a.key = k) (orderly : Orderly rt k s')
      (rent : ∀ p info, PoolAt rt s'.ledger k p →
        (s'.ledger p.reserveStake).data = .stake (.initialized info) →
        0 < info.rentExemptReserve ∧ info.rentExemptReserve < 2 ^ 64) : Chronicle rt k steady [s']
  | step {s s' : World} {past : List World} (before : Chronicle rt k steady (s :: past))
      (step : PoolStep rt k steady s s') (orderly : Orderly rt k s')
      (later : s.sysvars.epoch ≤ s'.sysvars.epoch) : Chronicle rt k steady (s' :: s :: past)

/-- The last thing that put its epoch on `v`. -/
def HasSource (rt : Runtime) (k : Pubkey) (history : List World) (v : ValidatorStakeInfo) : Prop :=
  ∃ t t' u, [t', t] <:+: history ∧ Source rt k t t' u ∧ u.SameMark v ∧ t.sysvars.epoch = v.lastUpdateEpoch

theorem HasSource.later {history : List World} (h : HasSource rt k history v) (hmark : v.SameMark v') (s : World) :
    HasSource rt k (s :: history) v' := by
  obtain ⟨t, t', u, hin, hsource, hu, hepoch⟩ := h
  exact ⟨t, t', u, hin.trans (List.infix_cons_iff.mpr (.inr List.infix_rfl)), hsource, hu.trans hmark,
    hepoch.trans hmark.epoch.symm⟩

theorem HasSource.now (hsource : Source rt k s s' v) (hepoch : v.lastUpdateEpoch = s.sysvars.epoch) :
    HasSource rt k (s' :: s :: past) v :=
  ⟨s, s', v, ⟨[], past, rfl⟩, hsource, .refl v, hepoch.symm⟩

theorem Chronicle.run {history : List World} (h : Chronicle rt k steady history) :
    ∃ s past, history = s :: past ∧ PoolRun rt k steady s := by
  induction h with
  | founded before happens decoded pool_at pool orderly rent =>
    exact ⟨_, _, rfl, .founded before happens decoded pool_at pool orderly rent⟩
  | step _ step orderly _ ih =>
    obtain ⟨s, past, heq, hrun⟩ := ih
    cases heq
    exact ⟨_, _, rfl, hrun.step step orderly⟩

theorem Chronicle.pool_run (h : Chronicle rt k steady (s :: past)) : PoolRun rt k steady s := by
  obtain ⟨t, past', heq, hrun⟩ := h.run
  cases heq
  exact hrun

/-- Every entry has a source, and none is from the future. -/
def Sourced (rt : Runtime) (k : Pubkey) (history : List World) (s : World) : Prop :=
  ∀ p l, PoolAt rt s.ledger k p → ListAt rt s.ledger p.validatorList l →
    ∀ v ∈ l.validators, v.lastUpdateEpoch ≤ s.sysvars.epoch ∧ HasSource rt k history v

section Run

variable (laws : ProgramLaws rt) (addresses : AddressLaws rt) (system : SystemLaws rt) (stakes : StakeLaws rt)
  (hderived : (findDepositAuthorityProgramAddress rt k).1 ≠ (poolKeeper rt k).authority)

/-- Entries that keep their mark keep their source. -/
theorem Sourced.marksKept (h : Sourced rt k (s :: past) s) (hp : PoolAt rt s.ledger k p)
    (hl : ListAt rt s.ledger p.validatorList l) (hp' : PoolAt rt s'.ledger k p')
    (hl' : ListAt rt s'.ledger p'.validatorList l') (later : s.sysvars.epoch ≤ s'.sysvars.epoch)
    (hmarks : l.MarksKept l') : Sourced rt k (s' :: s :: past) s' := by
  intro q m hq hm v' hv'
  obtain rfl := hq.unique hp'
  obtain rfl := hm.unique hl'
  obtain ⟨v, hv, hmark⟩ := hmarks v' hv'
  obtain ⟨hepoch, hsource⟩ := h p l hp hl v hv
  refine ⟨?_, hsource.later hmark s'⟩
  rw [hmark.epoch]
  exact hepoch.trans later

include laws addresses system stakes hderived

/-- One step of the pool keeps every entry sourced. -/
theorem PoolStep.sourced (hstep : PoolStep rt k steady s s') (hrun : PoolRun rt k steady s)
    (later : s.sysvars.epoch ≤ s'.sysvars.epoch) (h : Sourced rt k (s :: past) s) :
    Sourced rt k (s' :: s :: past) s' := by
  obtain ⟨p, l, hp, hl⟩ := hrun.pool laws
  rcases hstep.on_pool laws (hrun.reachable.registry laws) hp hl with
    ⟨accounts, a, -, -, hat, hk, hhandled, hsysvars, -, -⟩ | ⟨hp', hl', -⟩
  · subst hk
    rcases hhandled.marks laws hat hp hl with ⟨startIndex, noMerge, ⟨r⟩⟩ | ⟨p', l', heffect, hbooks⟩
    · obtain ⟨l', hrefresh⟩ := hrun.refreshed laws addresses system stakes hderived hat rfl hp hl r
      intro q m hq hm v' hv'
      obtain rfl := hq.unique hrefresh.pool
      obtain rfl := hm.unique hrefresh.list
      obtain ⟨i, hi⟩ := List.getElem?_of_mem hv'
      -- The entry that stood at this position before.
      have hbound : i < l.validators.length := by
        rw [← hrefresh.length]
        exact (List.getElem?_eq_some_iff.mp hi).1
      obtain ⟨v'', hv'', hseeds, hvisited, hcell⟩ := hrefresh.entries i _ (List.getElem?_eq_getElem hbound)
      obtain rfl := Option.some.inj (hi.symm.trans hv'')
      by_cases hown : (updateCrank accounts startIndex).Addresses rt a.key i l.validators[i]
      · have hepoch := hvisited hown
        refine ⟨by rw [hepoch]; exact later, .now ?_ hepoch⟩
        exact .refreshed hp hl hrefresh (List.getElem?_eq_getElem hbound) hi hown
      · have hsame : v' = l.validators[i] := congrArg Cell.entry (hcell.2 hown)
        obtain ⟨hepoch, hsource⟩ := h q l hp hl _ (List.getElem_mem hbound)
        rw [hsame]
        exact ⟨hepoch.trans later, hsource.later (.refl _) s'⟩
    · have hsame := heffect.step.sameIdentity.validatorList
      rcases hbooks with hmarks | ⟨v', hadded, hepoch⟩
      · exact h.marksKept hp hl heffect.own.after (hsame ▸ heffect.list) later hmarks
      · intro q m hq hm v hv
        obtain rfl := hq.unique heffect.own.after
        obtain rfl := hm.unique (hsame ▸ heffect.list)
        rw [hadded] at hv
        rcases List.mem_append.mp hv with hv | hv
        · obtain ⟨hold, hsource⟩ := h p l hp hl v hv
          exact ⟨hold.trans later, hsource.later (.refl v) s'⟩
        · obtain rfl := List.mem_singleton.mp hv
          refine ⟨by rw [hepoch]; exact later, .now ?_ hepoch⟩
          exact .added hp hl heffect.list hadded
  · exact h.marksKept hp hl hp' hl' later (.refl l)

/-- Throughout the history of a pool every entry has a source. -/
theorem Chronicle.sourced {history : List World} (h : Chronicle rt k steady history) :
    ∀ s past, history = s :: past → Sourced rt k history s := by
  induction h with
  | founded before happens decoded pool_at pool _ _ =>
    rintro s past heq p l hp hl v hv
    cases heq
    cases happens with
    | call run _ =>
      simp only [process, bind_eq_ok, decoded, Except.ok.injEq] at run
      obtain ⟨_, rfl, hrun⟩ := run
      obtain ⟨r⟩ := processInitialize_run rt _ hrun
      obtain rfl := Option.some.inj (pool_at.symm.trans r.pool_at)
      subst pool
      -- A new list is empty.
      have hfounded := r.founded laws
      obtain rfl := hp.unique hfounded.pool
      obtain rfl := hl.unique hfounded.list
      cases hv
  | step before step _ later ih =>
    intro s past heq
    cases heq
    exact step.sourced laws addresses system stakes hderived before.pool_run later (ih _ _ rfl)

/-- An update of the pool's balance finds every entry sourced in its epoch, and counts the reserve and what the
entries record. -/
theorem Chronicle.counted (h : Chronicle rt k steady (s :: past)) {a : AccountMeta} (hat : accounts[0]? = some a)
    (hk : a.key = k) (hp : PoolAt rt s.ledger k p) (hl : ListAt rt s.ledger p.validatorList l)
    (he : Executes rt accounts .updateStakePoolBalance s s') :
    (∀ v ∈ l.validators, v.lastUpdateEpoch = s.sysvars.epoch ∧ HasSource rt k (s :: past) v) ∧
    ∃ p' info, PoolAt rt s'.ledger k p' ∧ (s.ledger p.reserveStake).data = .stake (.initialized info) ∧
      p'.totalLamports + minimumReserveLamports info = (s.ledger p.reserveStake).lamports + l.recorded := by
  subst hk
  obtain ⟨r⟩ := (processUpdateStakePoolBalance_run rt _).mp he.run
  have heffect := r.effect laws hat hp hl
  obtain rfl := Option.some.inj (hat.symm.trans r.pool_at)
  obtain rfl := hp.unique r.isPool
  obtain rfl := hl.unique (by rw [← r.list_key]; exact r.isList)
  obtain ⟨info, hdata, hcounted⟩ := r.total_eq
  refine ⟨fun v hv => ?_, _, info, heffect.own.after, hdata, hcounted⟩
  obtain ⟨hepoch, hsource⟩ := h.sourced laws addresses system stakes hderived _ _ rfl _ _ hp hl v hv
  exact ⟨Nat.le_antisymm hepoch (sumStakeLamports_fresh r.sum v hv), hsource⟩

/-- An update of the list, built whenever and for whatever list, fails or refreshes the entries it brought the
accounts of; and an update of the pool counts no entry that was not added or refreshed in its epoch. -/
theorem stale_cranks_harmless (h : Chronicle rt k steady (s :: past)) (hp : PoolAt rt s.ledger k p)
    (hl : ListAt rt s.ledger p.validatorList l) :
    (∀ accounts a startIndex noMerge, accounts[0]? = some a → a.key = k →
      s.execute rt accounts (.updateValidatorListBalance startIndex noMerge) = s ∨
      ∃ l', ListRefresh rt k (updateCrank accounts startIndex) (crankContext rt k p noMerge) s
        (s.execute rt accounts (.updateValidatorListBalance startIndex noMerge)) p l l') ∧
    ∀ accounts a s', accounts[0]? = some a → a.key = k → Executes rt accounts .updateStakePoolBalance s s' →
      (∀ v ∈ l.validators, v.lastUpdateEpoch = s.sysvars.epoch ∧ HasSource rt k (s :: past) v) ∧
      ∃ p' info, PoolAt rt s'.ledger k p' ∧ (s.ledger p.reserveStake).data = .stake (.initialized info) ∧
        p'.totalLamports + minimumReserveLamports info = (s.ledger p.reserveStake).lamports + l.recorded := by
  constructor
  · intro accounts a startIndex noMerge hat hk
    cases hrun : processInstruction rt s.sysvars accounts (.updateValidatorListBalance startIndex noMerge)
      s.ledger with
    | error _ =>
      left
      rw [World.execute, hrun]
    | ok w' =>
      right
      have he : Executes rt accounts (.updateValidatorListBalance startIndex noMerge) s
          (s.execute rt accounts (.updateValidatorListBalance startIndex noMerge)) :=
        .of_succeeded (succeeded_iff.mpr ⟨w', hrun⟩)
      obtain ⟨r⟩ := (processUpdateValidatorListBalance_run rt _).mp he.run
      exact h.pool_run.refreshed laws addresses system stakes hderived hat hk hp hl r
  · intro accounts a s' hat hk he
    exact h.counted laws addresses system stakes hderived hat hk hp hl he

end Run

namespace Reference

theorem staked_chronicle : Chronicle runtime pool True [staked, founded] :=
  .step
    (.founded ⟨genesisWorld, genesis_untouched, .refl⟩ (founded_executes.happens initializeInput founded_decodes)
      founded_decodes rfl rfl founded_orderly founded_rent)
    (.call (staked_executes.happens [1, 0, 0, 0, 0] staked_decodes) rfl rfl staked_unsigned)
    staked_orderly (by decide +kernel)

end Reference

open Reference in
/-- The reference pool, its one validator added in the epoch of the update. -/
theorem stale_cranks_harmless_staked : ∃ p l, PoolAt runtime staked.ledger pool p ∧
    ListAt runtime staked.ledger p.validatorList l ∧ l.validators.length = 1 ∧
    ∀ v ∈ l.validators, HasSource runtime pool [staked, founded] v := by
  obtain ⟨p, l, hp, -, hl, hlength, -⟩ := visited_entry (s := staked)
    (PoolAt.of_load (fun p => (p.validatorList, p.reserveStake)) (by decide +kernel))
    (ListAt.of_load _ (by decide +kernel))
  have hharmless := stale_cranks_harmless programLaws addressLaws systemLaws stakeLaws derived_apart
    staked_chronicle hp hl
  have hrepriced : Executes runtime updateAccounts .updateStakePoolBalance staked
      (staked.execute runtime updateAccounts .updateStakePoolBalance) := .of_succeeded (by decide +kernel)
  exact ⟨p, l, hp, hl, hlength, fun v hv => ((hharmless.2 _ _ _ rfl rfl hrepriced).1 v hv).2⟩

end StakePoolFogo
