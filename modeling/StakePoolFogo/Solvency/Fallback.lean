import StakePoolFogo.Solvency.Order
import StakePoolFogo.UpdateBuilders

/-!
# The fallback update

With `no_merge` set an update of the list only sweeps excess lamports and moves undelegated validator stakes
to the reserve.  Neither can fail, so it works whatever has become of the accounts of the entries.
-/

open StakePoolFogo.Checked StakePoolFogo.Outcome

namespace StakePoolFogo

variable {rt : Runtime} {sv : Sysvars} {k : Pubkey} {steady : Prop} {w w' : Ledger} {s : World}
  {accounts : List AccountMeta} {startIndex : UInt32} {p : StakePool} {l l' : ValidatorList}

/-! ## Visits that succeed -/

section Visit

variable {c : UpdateContext} {key validatorKey transientKey : Pubkey} {status : PodStakeStatus}
  {v : ValidatorStakeInfo} {vs : List ValidatorStakeInfo}

/-- The update signs for its pool, and the reserve of the pool is an undelegated stake account of its own. -/
structure CrankReady (rt : Runtime) (sv : Sysvars) (c : UpdateContext) (w : Ledger) : Prop where
  authority : poolAuthority rt c.pool authorityWithdraw c.stakePool.stakeWithdrawBumpSeed =
    .ok c.authority.key
  clock : c.clock = rt.clockId
  history : c.history = rt.stakeHistoryId
  lockup : c.stakePool.lockup = default
  rewards : sv.epochRewardsActive = false
  reserve : ∃ info, HeldAs rt c.keeper (w c.reserve) (.initialized info) info

/-- What is a stake account at `key` belongs to the stake program. -/
def GenuineAt (rt : Runtime) (key : Pubkey) (w : Ledger) : Prop :=
  ∀ state, (w key).data = .stake state → (w key).owner = rt.stakeProgramId

theorem GenuineAt.of_frames (h : GenuineAt rt key w) (hframes : Frames [rt.stakeProgramId] w w') :
    GenuineAt rt key w' := by
  intro state hstate
  by_contra hother
  have hother' : (w' key).owner ∉ [rt.stakeProgramId] := by simpa using hother
  by_cases howner : (w key).owner ∈ [rt.stakeProgramId]
  · -- An account given away is zeroed.
    rw [hframes.given key howner hother'] at hstate
    cases hstate
  · obtain hkept := hframes.others key howner
    rw [hkept.data] at hstate
    exact howner (List.mem_singleton.mpr (h state hstate))

theorem CrankReady.credited {n : Nat} (h : CrankReady rt sv c w)
    (hcredit : w' c.reserve = (w c.reserve).credited n) : CrankReady rt sv c w' := by
  obtain ⟨info, hheld⟩ := h.reserve
  refine ⟨h.authority, h.clock, h.history, h.lockup, h.rewards, info, ?_⟩
  rw [hcredit]
  exact hheld.of_meta rfl hheld.data rfl (Nat.le_trans hheld.exempt (Nat.le_add_right _ _))

theorem CrankReady.signs (h : CrankReady rt sv c w) :
    signAsWithdrawAuthority rt c.pool c.authority c.stakePool.stakeWithdrawBumpSeed = .ok () :=
  bind_eq_ok.mpr ⟨c.authority.key, h.authority, failIf_neg (by simp)⟩

theorem CrankReady.sysvars (h : CrankReady rt sv c w) :
    requireSysvars [c.clock, c.history] [rt.clockId, rt.stakeHistoryId] = .ok () := by
  rw [h.clock, h.history]
  exact failIf_neg (not_not.mpr rfl)

/-- Metas the pool can use have the same authorities and the same lockup. -/
theorem same_of_usable {info info' : StakeMeta} {authority : Pubkey} {lockup : Lockup}
    (h : stakeIsUsableByPool info authority lockup) (h' : stakeIsUsableByPool info' authority lockup) :
    info.authorized = info'.authorized ∧ info.lockup = info'.lockup := by
  obtain ⟨hstaker, hwithdrawer, hlockup⟩ := h
  obtain ⟨hstaker', hwithdrawer', hlockup'⟩ := h'
  refine ⟨?_, hlockup.trans hlockup'.symm⟩
  obtain ⟨_, ⟨staker, withdrawer⟩, _⟩ := info
  obtain ⟨_, ⟨staker', withdrawer'⟩, _⟩ := info'
  exact congrArg₂ Authorized.mk (hstaker.trans hstaker'.symm) (hwithdrawer.trans hwithdrawer'.symm)

/-- A merge the stake program lets through is one the runtime lets through. -/
theorem CrankReady.call_merge (stakes : StakeLaws rt) (h : CrankReady rt sv c w) {destination : Pubkey}
    (hne : destination ≠ key) {r : Account × Account}
    (hmerge : rt.stake.merge sv c.authority.key (w destination) (w key) = .ok r) :
    ∃ w', c.merge rt sv key destination w = .ok w' := by
  obtain ⟨d, s⟩ := r
  obtain ⟨_, _, _, -, -, -, hdest_owner, hsource_owner, -, -, -, hlamports, ⟨hdowner, -⟩, hdrained⟩ :=
    stakes.merge _ _ _ _ _ _ hmerge
  have hdlegal : (w destination).changedLegally [rt.stakeProgramId] d := by
    apply Or.inl
    rw [hdowner, hdest_owner]
    exact ⟨List.mem_singleton_self _, .inl (List.mem_singleton_self _)⟩
  have hslegal : (w key).changedLegally [rt.stakeProgramId] s := by
    apply Or.inl
    rw [hdrained, hsource_owner]
    exact ⟨List.mem_singleton_self _, .inl (List.mem_singleton_self _)⟩
  have hbalance : d.lamports + s.lamports = (w destination).lamports + (w key).lamports := by
    rw [hdrained, hlamports]
    rfl
  exact ⟨_, bind_eq_ok.mpr ⟨(), h.sysvars, bind_eq_ok.mpr ⟨(), h.signs,
    invoke₂_eq_ok.mpr ⟨hne, d, s, hmerge, hdlegal, hslegal, hbalance, rfl⟩⟩⟩⟩

/-- An undelegated stake account of the pool goes to the reserve. -/
theorem CrankReady.merge_succeeds (stakes : StakeLaws rt) (merges : MergeLaws rt) (h : CrankReady rt sv c w)
    (hne : key ≠ c.reserve) (hgenuine : GenuineAt rt key w) {info : StakeMeta}
    (hdata : (w key).data = .stake (.initialized info)) (husable : c.usable info) :
    ∃ w', c.merge rt sv key c.reserve w = .ok w' := by
  obtain ⟨rinfo, hheld⟩ := h.reserve
  obtain ⟨hauthorized, hlockup⟩ := same_of_usable hheld.usable husable
  obtain ⟨r, hmerge⟩ := merges.initialized sv (w c.reserve) (w key) rinfo info h.rewards hheld.owner
    (hgenuine _ hdata) hheld.data hdata hauthorized hlockup
  have hsigner : rinfo.authorized.staker = c.authority.key := hheld.usable.1
  rw [hsigner] at hmerge
  exact h.call_merge stakes hne.symm hmerge

/-- Excess lamports of a delegated stake account of the pool go to the reserve. -/
theorem CrankReady.withdraw_succeeds (stakes : StakeLaws rt) (h : CrankReady rt sv c w) (hne : key ≠ c.reserve)
    (hgenuine : GenuineAt rt key w) {info : StakeMeta} {stake : Stake}
    (hdata : (w key).data = .stake (.stake info stake)) (husable : c.usable info)
    (hexcess : additionalLamports info stake (w key).lamports > 0) :
    ∃ w', stakeWithdraw rt sv c.pool key c.authority c.stakePool.stakeWithdrawBumpSeed c.reserve c.clock
      c.history (additionalLamports info stake (w key).lamports) w = .ok w' := by
  obtain ⟨rinfo, hheld⟩ := h.reserve
  obtain ⟨-, hwithdrawer, hlockup⟩ := husable
  have howner := hgenuine _ hdata
  have hle : additionalLamports info stake (w key).lamports + stake.delegation.stake + info.rentExemptReserve ≤
      (w key).lamports := by
    unfold additionalLamports at hexcess ⊢
    omega
  obtain ⟨⟨s, d⟩, hwithdraw⟩ := stakes.withdraw_excess sv _ (w key) (w c.reserve) info stake h.rewards howner
    hdata (hlockup.trans h.lockup) hexcess hle
  rw [hwithdrawer] at hwithdraw
  obtain ⟨-, -, hlamports, ⟨hsowner, -⟩, hcredited, -⟩ :=
    stakes.withdraw _ _ _ _ _ _ _ _ _ hwithdraw hdata rfl
  have hslegal : (w key).changedLegally [rt.stakeProgramId] s := by
    apply Or.inl
    rw [hsowner, howner]
    exact ⟨List.mem_singleton_self _, .inl (List.mem_singleton_self _)⟩
  have hdlegal : (w c.reserve).changedLegally [rt.stakeProgramId] d := by
    apply Or.inl
    rw [hcredited]
    show (w c.reserve).owner ∈ _ ∧ ((w c.reserve).owner ∈ _ ∨ _)
    rw [hheld.owner]
    exact ⟨List.mem_singleton_self _, .inl (List.mem_singleton_self _)⟩
  have hbalance : s.lamports + d.lamports = (w key).lamports + (w c.reserve).lamports := by
    rw [hcredited]
    show s.lamports + ((w c.reserve).lamports + _) = _
    omega
  have hinvoke := invoke₂_eq_ok.mpr ⟨hne, s, d, hwithdraw, hslegal, hdlegal, hbalance, rfl⟩
  exact ⟨_, bind_eq_ok.mpr ⟨(), h.sysvars, bind_eq_ok.mpr ⟨(), h.signs, (if_neg hne).trans hinvoke⟩⟩⟩

/-- Without merging the transient stake is only counted. -/
theorem refreshTransient_noMerge (hmode : c.noMerge = true) :
    ∃ n, refreshTransient rt sv c v validatorKey transientKey w = .ok (v.status, n, w) := by
  unfold refreshTransient
  rw [hmode]
  split
  · exact ⟨0, rfl⟩
  · split
    · split
      · exact ⟨_, rfl⟩
      · exact ⟨0, rfl⟩
    · split
      · exact ⟨_, rfl⟩
      · exact ⟨0, rfl⟩
    · exact ⟨0, rfl⟩

/-- Without merging a delegated validator stake is only counted. -/
theorem settleValidator_noMerge (hmode : c.noMerge = true) (hstatus : ∃ t : StakeStatus, status = t.toPod)
    {stake : Stake} : ∃ r, settleValidator rt sv c status stake validatorKey w = .ok r := by
  obtain ⟨t, ht⟩ := hstatus
  unfold settleValidator
  rw [PodStakeStatus.tryInto_eq_ok.mpr ht, ok_bind]
  cases t with
  | active => exact ⟨_, rfl⟩
  | deactivatingTransient | readyForRemoval => exact ⟨_, rfl⟩
  | deactivatingValidator | deactivatingAll =>
    dsimp only
    rw [if_pos (.inl hmode)]
    exact ⟨_, rfl⟩

theorem refreshValidator_noMerge (stakes : StakeLaws rt) (merges : MergeLaws rt) (h : CrankReady rt sv c w)
    (hmode : c.noMerge = true) (hne : validatorKey ≠ c.reserve) (hgenuine : GenuineAt rt validatorKey w)
    (hstatus : ∃ t : StakeStatus, status = t.toPod) {lamports : Nat} :
    ∃ r, refreshValidator rt sv c status lamports validatorKey w = .ok r := by
  unfold refreshValidator
  split
  · rename_i info stake hstate
    have hmeta : (StakeStateV2.stake info stake).meta? = some info := rfl
    have hdata := stakeState_data hstate hmeta
    split
    · rename_i husable
      -- The sweep first, then the count.
      have hsweep : ∃ w', onlyIf (additionalLamports info stake (w validatorKey).lamports > 0)
          (stakeWithdraw rt sv c.pool validatorKey c.authority c.stakePool.stakeWithdrawBumpSeed c.reserve
            c.clock c.history (additionalLamports info stake (w validatorKey).lamports)) w = .ok w' := by
        by_cases hexcess : additionalLamports info stake (w validatorKey).lamports > 0
        · obtain ⟨w', hw'⟩ := h.withdraw_succeeds stakes hne hgenuine hdata husable hexcess
          exact ⟨w', onlyIf_eq_ok.mpr (.inl ⟨hexcess, hw'⟩)⟩
        · exact ⟨w, onlyIf_eq_ok.mpr (.inr ⟨hexcess, rfl⟩)⟩
      obtain ⟨w', hw'⟩ := hsweep
      obtain ⟨r, hr⟩ := @settleValidator_noMerge rt sv w' c validatorKey status hmode hstatus stake
      exact ⟨r, bind_eq_ok.mpr ⟨w', hw', hr⟩⟩
    · exact ⟨_, rfl⟩
  · rename_i info hstate
    have hmeta : (StakeStateV2.initialized info).meta? = some info := rfl
    have hdata := stakeState_data hstate hmeta
    split
    · rename_i husable
      obtain ⟨w', hw'⟩ := h.merge_succeeds stakes merges hne hgenuine hdata husable
      exact ⟨_, bind_eq_ok.mpr ⟨w', hw', rfl⟩⟩
    · exact ⟨_, rfl⟩
  · exact ⟨_, rfl⟩

/-- A turn of the loop, whatever it is paired with. -/
theorem refreshEntry_noMerge (stakes : StakeLaws rt) (merges : MergeLaws rt) (h : CrankReady rt sv c w)
    (hmode : c.noMerge = true) (hne : v.stakeKey rt c.pool ≠ c.reserve)
    (hgenuine : GenuineAt rt (v.stakeKey rt c.pool) w) (hstatus : ∃ t : StakeStatus, v.status = t.toPod) :
    ∃ v' w', refreshEntry rt sv c v validatorKey transientKey w = .ok (v', w') := by
  unfold refreshEntry
  split
  · rename_i hown
    have hkey : v.stakeKey rt c.pool = validatorKey := hown.1
    rw [hkey] at hne hgenuine
    obtain ⟨n, htransient⟩ := @refreshTransient_noMerge rt sv w c validatorKey transientKey v hmode
    obtain ⟨⟨status', active, w'⟩, hvalidator⟩ :=
      @refreshValidator_noMerge rt sv w c validatorKey v.status stakes merges h hmode hne hgenuine hstatus n
    refine ⟨_, w', bind_eq_ok.mpr ⟨_, htransient, bind_eq_ok.mpr ⟨_, hvalidator, rfl⟩⟩⟩
  · exact ⟨v, w, rfl⟩

/-- The loop, whatever the pairs. -/
theorem refreshEntries_noMerge (stakes : StakeLaws rt) (merges : MergeLaws rt) (h : CrankReady rt sv c w)
    (hmode : c.noMerge = true) {header : ValidatorListHeader} (hapart : Apart rt c.pool c.reserve ⟨header, vs⟩)
    (hgenuine : ∀ v ∈ vs, GenuineAt rt (v.stakeKey rt c.pool) w)
    (hstatus : ∀ v ∈ vs, ∃ t : StakeStatus, v.status = t.toPod) (pairs : List (Pubkey × Pubkey)) :
    ∃ vs' w', refreshEntries rt sv c vs pairs w = .ok (vs', w') := by
  induction vs generalizing pairs w with
  | nil => exact ⟨[], w, rfl⟩
  | cons v vs ih =>
    cases pairs with
    | nil => exact ⟨v :: vs, w, rfl⟩
    | cons pair pairs =>
      obtain ⟨validatorKey, transientKey⟩ := pair
      have hmem : v ∈ v :: vs := List.mem_cons_self
      obtain ⟨v', w₁, hentry⟩ := @refreshEntry_noMerge rt sv w c validatorKey transientKey v stakes merges h
        hmode (hapart.stake_ne_reserve hmem) (hgenuine v hmem) (hstatus v hmem)
      have hnodup := List.nodup_cons.mp hapart
      have hfresh : v.stakeKey rt c.pool ∉ vs.map (·.stakeKey rt c.pool) :=
        (List.nodup_cons.mp (List.nodup_append.mp hnodup.2).1).1
      -- What the turn leaves for the rest of the list.
      have hrest : CrankReady rt sv c w₁ ∧ ∀ u ∈ vs, GenuineAt rt (u.stakeKey rt c.pool) w₁ := by
        by_cases hown : ownAccounts rt c.pool v validatorKey transientKey
        · obtain ⟨info, hheld⟩ := h.reserve
          have hrow : Apart rt c.pool c.reserve ⟨header, [] ++ v :: vs⟩ := hapart
          obtain ⟨-, ⟨n, hcredit⟩, honly, -⟩ :=
            refreshEntry_row stakes hrow ⟨info, hheld.data⟩ hown hentry
          refine ⟨h.credited hcredit, fun u hu => ?_⟩
          have hu' : u ∈ v :: vs := List.mem_cons_of_mem _ hu
          have hkept : w₁ (u.stakeKey rt c.pool) = w (u.stakeKey rt c.pool) := by
            apply honly
            simp only [List.mem_cons, List.not_mem_nil, or_false, not_or]
            exact ⟨fun heq => hfresh (heq ▸ List.mem_map_of_mem hu), hapart.stake_ne_transient hu' hmem,
              hapart.stake_ne_reserve hu'⟩
          rw [GenuineAt, hkept]
          exact hgenuine u hu'
        · obtain ⟨-, rfl⟩ := refreshEntry_skip hown hentry
          exact ⟨h, fun u hu => hgenuine u (List.mem_cons_of_mem _ hu)⟩
      have hapart' : Apart rt c.pool c.reserve ⟨header, vs⟩ := by
        refine List.Nodup.sublist ?_ hapart
        exact ((List.sublist_cons_self _ _).append (List.sublist_cons_self _ _)).cons_cons _
      obtain ⟨vs', w', hloop⟩ := ih hrest.1 hapart' hrest.2 (fun u hu => hstatus u (List.mem_cons_of_mem _ hu))
        pairs
      exact ⟨v' :: vs', w', bind_eq_ok.mpr ⟨_, hentry, bind_eq_ok.mpr ⟨_, hloop, rfl⟩⟩⟩

end Visit

/-! ## Updates that succeed -/

/-- The pool as the fallback finds it; the accounts of the entries may be anything. -/
structure Crankable (rt : Runtime) (k : Pubkey) (p : StakePool) (w : Ledger) (l : ValidatorList) : Prop where
  pool : PoolAt rt w k p
  list : ListAt rt w p.validatorList l
  kept : KeptBy rt k (poolKeeper rt k) p
  reserve : ∃ info, HeldAs rt (poolKeeper rt k) (w p.reserveStake) (.initialized info) info
  apart : Apart rt k p.reserveStake l
  list_apart : ∀ v ∈ l.validators, v.stakeKey rt k ≠ p.validatorList ∧ v.transientKey rt k ≠ p.validatorList
  status : ∀ v ∈ l.validators, ∃ t : StakeStatus, v.status = t.toPod
  genuine : ∀ v ∈ l.validators, GenuineAt rt (v.stakeKey rt k) w

/-- The accounts of an update of the pool, with those of some entries from `startIndex` on. -/
structure ChunkAccounts (rt : Runtime) (k : Pubkey) (p : StakePool) (l : ValidatorList)
    (accounts : List AccountMeta) (startIndex : UInt32) : Prop where
  fixed : (accounts.take 7).map (·.key) = [k, (poolKeeper rt k).authority, p.validatorList, p.reserveStake,
    rt.clockId, rt.stakeHistoryId, rt.stakeProgramId]
  /-- The list, the reserve and the accounts of the entries are passed as writable. -/
  writable : ∀ a ∈ (accounts.drop 2).take 2 ++ accounts.drop 7, a.isWritable = true
  entries : ∃ n, startIndex.toNat + n ≤ l.validators.length ∧ (accounts.drop 7).map (·.key) =
    (((l.validators.map (ownAddresses rt k)).drop startIndex.toNat).take n).flatMap fun x => [x.1, x.2]

/-- The call for a chunk. -/
def fallbackCall (call : List AccountMeta × UInt32) : List AccountMeta × StakePoolInstruction :=
  (call.1, .updateValidatorListBalance call.2 true)

theorem ChunkAccounts.congr (h : ChunkAccounts rt k p l accounts startIndex)
    (hsame : l'.validators.map (ownAddresses rt k) = l.validators.map (ownAddresses rt k)) :
    ChunkAccounts rt k p l' accounts startIndex := by
  have hlength := congrArg List.length hsame
  rw [List.length_map, List.length_map] at hlength
  refine ⟨h.fixed, h.writable, ?_⟩
  rw [hsame, hlength]
  exact h.entries

/-- The keys at the fixed places, one by one. -/
theorem ChunkAccounts.at_ (h : ChunkAccounts rt k p l accounts startIndex) (i : Nat) {key : Pubkey}
    (hkey : [k, (poolKeeper rt k).authority, p.validatorList, p.reserveStake, rt.clockId, rt.stakeHistoryId,
      rt.stakeProgramId][i]? = some key) : ∃ a, accounts[i]? = some a ∧ a.key = key := by
  rw [← h.fixed, List.getElem?_map, Option.map_eq_some_iff] at hkey
  obtain ⟨a, ha, hkey⟩ := hkey
  have hi : i < 7 := by
    have hlt := (List.getElem?_eq_some_iff.mp ha).1
    rw [List.length_take] at hlt
    omega
  rw [List.getElem?_take_of_lt hi] at ha
  exact ⟨a, ha, hkey⟩

/-- The accounts of the entries, two for each. -/
theorem ChunkAccounts.pairs (h : ChunkAccounts rt k p l accounts startIndex) :
    ∃ n, (accounts.drop 7).length = 2 * n ∧ startIndex.toNat + n ≤ l.validators.length := by
  obtain ⟨n, hn, hkeys⟩ := h.entries
  have htwo : ∀ xs : List (Pubkey × Pubkey), (xs.flatMap fun x => [x.1, x.2]).length = 2 * xs.length := by
    intro xs
    rw [List.length_flatMap]
    simp only [List.length_cons, List.length_nil, List.map_const', List.sum_replicate, smul_eq_mul]
    omega
  have hlength := congrArg List.length hkeys
  rw [List.length_map, htwo, List.length_take_of_le] at hlength
  · exact ⟨n, hlength, hn⟩
  · rw [List.length_drop, List.length_map]
    omega

/-- An update with the accounts of a chunk succeeds if its loop does. -/
theorem Crankable.update (h : Crankable rt k p w l) (hrewards : sv.epochRewardsActive = false)
    (hchunk : ChunkAccounts rt k p l accounts startIndex) {noMerge : Bool}
    (hloop : ∀ c : UpdateContext, CrankReady rt sv c w → c.pool = k → c.reserve = p.reserveStake →
      c.keeper = poolKeeper rt k → c.noMerge = noMerge →
      ∃ vs' w', refreshEntries rt sv c (l.validators.drop startIndex.toNat) (stakePairs (accounts.drop 7)) w =
        .ok (vs', w')) :
    ∃ w', ∃ r : UpdateListRun rt sv accounts startIndex noMerge w w', r.pool.key = k := by
  obtain ⟨pool, pool_at, rfl⟩ := hchunk.at_ 0 rfl
  obtain ⟨authority, authority_at, authority_key⟩ := hchunk.at_ 1 rfl
  obtain ⟨list, list_at, list_key⟩ := hchunk.at_ 2 rfl
  obtain ⟨reserve, reserve_at, reserve_key⟩ := hchunk.at_ 3 rfl
  obtain ⟨clock, clock_at, clock_key⟩ := hchunk.at_ 4 rfl
  obtain ⟨history, history_at, history_key⟩ := hchunk.at_ 5 rfl
  obtain ⟨program, program_at, program_key⟩ := hchunk.at_ 6 rfl
  obtain ⟨n, hlength, hn⟩ := hchunk.pairs
  have hauthority : poolAuthority rt pool.key authorityWithdraw p.stakeWithdrawBumpSeed = .ok authority.key := by
    rw [authority_key]
    exact h.kept.authority
  let c : UpdateContext :=
    { pool := pool.key, stakePool := p, authority, reserve := reserve.key, clock := clock.key,
      history := history.key, noMerge }
  have hkeeper : c.keeper = poolKeeper rt pool.key := by
    show Keeper.mk authority.key p.lockup = _
    rw [authority_key, h.kept.lockup]
  have hready : CrankReady rt sv c w := by
    refine ⟨hauthority, clock_key, history_key, h.kept.lockup, hrewards, ?_⟩
    rw [hkeeper]
    show ∃ info, HeldAs rt _ (w reserve.key) _ info
    rw [reserve_key]
    exact h.reserve
  obtain ⟨refreshed, settled, hrefresh⟩ := hloop c hready rfl reserve_key hkeeper rfl
  exact ⟨_, {
    pool, authority, list, reserve, clock, history, program, p, l, refreshed, settled, pool_at, authority_at,
    list_at, reserve_at, clock_at, clock_key, history_at, program_at, list_key, program_key
    isPool := h.pool
    isAuthority := hauthority
    isReserve := reserve_key
    rewards := hrewards
    even := by omega
    isList := by rw [list_key]; exact h.list
    bound := by omega
    refresh := hrefresh
    result := rfl }, rfl⟩

/-- The accounts of the entries from `startIndex` on are different. -/
theorem Crankable.apart_drop (h : Crankable rt k p w l) (n : Nat) :
    Apart rt k p.reserveStake ⟨l.header, l.validators.drop n⟩ := by
  have hsub := List.drop_sublist n l.validators
  exact List.Nodup.sublist (((hsub.map _).append (hsub.map _)).cons_cons _) h.apart

/-- An update that can only sweep and absorb succeeds. -/
theorem Crankable.run (stakes : StakeLaws rt) (merges : MergeLaws rt) (h : Crankable rt k p w l)
    (hrewards : sv.epochRewardsActive = false) (hchunk : ChunkAccounts rt k p l accounts startIndex) :
    ∃ w', ∃ r : UpdateListRun rt sv accounts startIndex true w w', r.pool.key = k := by
  apply h.update hrewards hchunk
  intro c hready hpool hreserve _ hmode
  have hapart := h.apart_drop startIndex.toNat
  rw [← hpool, ← hreserve] at hapart
  apply refreshEntries_noMerge stakes merges hready hmode hapart
  · intro v hv
    rw [hpool]
    exact h.genuine v (List.mem_of_mem_drop hv)
  · intro v hv
    exact h.status v (List.mem_of_mem_drop hv)

/-- After an update the next one finds the pool as this one did. -/
theorem Crankable.after (laws : ProgramLaws rt) (stakes : StakeLaws rt) {noMerge : Bool}
    (r : UpdateListRun rt sv accounts startIndex noMerge w w') (h : Crankable rt r.pool.key p w l) :
    Crankable rt r.pool.key p w' r.after ∧
      r.after.validators.map (ownAddresses rt r.pool.key) = l.validators.map (ownAddresses rt r.pool.key) := by
  obtain rfl := h.pool.unique r.isPool
  obtain rfl := h.list.unique (by rw [← r.list_key]; exact r.isList)
  obtain ⟨info, hheld⟩ := h.reserve
  have heffect := r.effect laws r.pool_at h.pool h.list
  obtain ⟨hstake, htransient⟩ := r.keys stakes h.apart ⟨info, hheld.data⟩
  obtain ⟨-, -, -, hcranked⟩ := r.row_run stakes h.apart ⟨info, hheld.data⟩
  obtain ⟨hentries, hframes⟩ := refreshEntries_spec r.refresh
  have hne : r.p.reserveStake ≠ r.p.validatorList := by
    intro heq
    have hdata := hheld.data
    rw [heq, h.list.data] at hdata
    cases hdata
  -- Besides the list, the ledger after is the one the refresh leaves.
  have hwritten : ∀ j, j ≠ r.p.validatorList → w' j = r.settled j := by
    intro j hj
    rw [← r.list_key] at hj
    rw [congrFun r.result j, writeValidatorList, Ledger.set_other _ _ hj]
  constructor
  · constructor
    · exact heffect.own.after
    · exact heffect.list
    · exact h.kept
    · -- The reserve is at most credited, so it stays an initialized stake.
      obtain ⟨m, hcredit⟩ := hcranked.reserve
      have hcredit' : r.settled r.p.reserveStake = (w r.p.reserveStake).credited m := by
        rw [← r.isReserve]
        exact hcredit
      refine ⟨info, ?_⟩
      rw [hwritten _ hne, hcredit']
      exact hheld.of_meta rfl hheld.data rfl (Nat.le_trans hheld.exempt (Nat.le_add_right _ _))
    · unfold Apart
      rw [hstake, htransient]
      exact h.apart
    · exact keys_ne_of_map hstake htransient h.list_apart
    · -- An entry keeps its status while it is skipped, and a refresh gives it one of the five.
      intro v hv
      rcases List.mem_append.mp hv with hv | hv
      · exact h.status v (List.mem_of_mem_take hv)
      · obtain ⟨i, hi, rfl⟩ := List.mem_iff_getElem.mp hv
        obtain ⟨hsize, hrefreshed⟩ := List.forall₂_iff_get.mp hentries
        have hi' : i < (r.l.validators.drop startIndex.toNat).length := hsize ▸ hi
        exact (hrefreshed i hi' hi).sameShape.status (h.status _ (List.mem_of_mem_drop (List.get_mem _ _)))
    · -- The addresses are those of before, where no foreign account lay.
      intro v hv
      have hmem : v.stakeKey rt r.pool.key ∈ r.l.validators.map (·.stakeKey rt r.pool.key) := by
        rw [← hstake]
        exact List.mem_map_of_mem hv
      obtain ⟨u, hu, hkey⟩ := List.mem_map.mp hmem
      have hgenuine := (h.genuine u hu).of_frames hframes
      rw [← hkey, GenuineAt, hwritten _ (h.list_apart u hu).1]
      exact hgenuine
  · have hzip : ∀ vs : List ValidatorStakeInfo, vs.map (ownAddresses rt r.pool.key) =
        (vs.map (·.stakeKey rt r.pool.key)).zip (vs.map (·.transientKey rt r.pool.key)) := by
      intro vs
      rw [List.zip_map']
      rfl
    rw [hzip, hzip, hstake, htransient]

/-- Any number of updates, one after the other. -/
theorem Crankable.runs (laws : ProgramLaws rt) (stakes : StakeLaws rt) (merges : MergeLaws rt)
    (h : Crankable rt k p w l) (hrewards : sv.epochRewardsActive = false)
    {calls : List (List AccountMeta × UInt32)} (hcalls : ∀ call ∈ calls, ChunkAccounts rt k p l call.1 call.2) :
    ∃ w' l', processAll rt sv (calls.map fallbackCall) w = .ok w' ∧ Crankable rt k p w' l' := by
  induction calls generalizing w l with
  | nil => exact ⟨w, l, rfl, h⟩
  | cons call calls ih =>
    obtain ⟨w₁, r, rfl⟩ := h.run stakes merges hrewards (hcalls call List.mem_cons_self)
    obtain ⟨h₁, hsame⟩ := h.after laws stakes r
    obtain ⟨w', l', hrest, h'⟩ := ih h₁ fun call hcall =>
      (hcalls call (List.mem_cons_of_mem _ hcall)).congr hsame
    have hfirst := (processUpdateValidatorListBalance_run rt sv).mpr ⟨r⟩
    exact ⟨w', l', bind_eq_ok.mpr ⟨w₁, hfirst, hrest⟩, h'⟩

/-! ## The update of the pool -/

theorem reserveLamports_not_outOfDate {a : Account} :
    reserveLamports a ≠ .error (.custom .stakeListOutOfDate) := by
  apply bind_ne_error
  · unfold Account.tryStakeState
    split
    · exact fun h => by cases h
    · split <;> exact fun h => by cases h
    · exact fun h => by cases h
  · intro state _
    split
    · exact okOr_ne_error (by decide)
    · exact fun h => by cases h

theorem unpackMint_not_outOfDate {a : Account} : a.unpackMint ≠ .error (.custom .stakeListOutOfDate) := by
  unfold Account.unpackMint
  split <;> exact fun h => by cases h

section Balance

variable (hkept : KeptBy rt k (poolKeeper rt k) p)
include hkept

theorem KeptBy.checkAuthority_not_outOfDate (key : Pubkey) :
    p.checkAuthorityWithdraw rt key k ≠ .error (.custom .stakeListOutOfDate) := by
  refine bind_ne_error ?_ fun _ _ => failIf_ne_error (by decide)
  rw [hkept.authority]
  exact fun h => by cases h

variable (hmint : ∀ mintKey authority amount mint destination,
  rt.token.mintTo mintKey authority amount mint destination ≠ .error (.custom .stakeListOutOfDate))
include hmint

theorem KeptBy.tokenMintTo_not_outOfDate {tokenProgram mint destination : Pubkey} {authority : AccountMeta}
    {amount : Nat} : tokenMintTo rt k tokenProgram mint destination authority p.stakeWithdrawBumpSeed amount w ≠
      .error (.custom .stakeListOutOfDate) := by
  refine bind_ne_error (failIf_ne_error (by decide)) fun _ _ => ?_
  have hsign : signAsWithdrawAuthority rt k authority p.stakeWithdrawBumpSeed ≠
      .error (.custom .stakeListOutOfDate) := by
    refine bind_ne_error ?_ fun _ _ => failIf_ne_error (by decide)
    rw [hkept.authority]
    exact fun h => by cases h
  refine bind_ne_error hsign fun _ _ => ?_
  refine bind_ne_error (failIf_ne_error (by decide)) fun _ _ => ?_
  refine bind_ne_error (hmint _ _ _ _ _) fun _ _ => ?_
  refine bind_ne_error (failIf_ne_error (by decide)) fun _ _ => ?_
  exact bind_ne_error (failIf_ne_error (by decide)) fun _ _ h => by cases h

/-- Of the errors of the update of the pool, only a stale entry makes this one. -/
theorem KeptBy.update_not_outOfDate (hp : PoolAt rt w k p) (hl : ListAt rt w p.validatorList l)
    (hfresh : ∀ v ∈ l.validators, ¬ v.lastUpdateEpoch < sv.epoch) {a : AccountMeta}
    (ha : accounts[0]? = some a) (hk : a.key = k) :
    processUpdateStakePoolBalance rt sv accounts w ≠ .error (.custom .stakeListOutOfDate) := by
  subst hk
  have hpool : loadStakePool rt w a.key = .ok p := loadStakePool_eq_ok.mpr hp
  have hlist : loadValidatorList rt w p.validatorList = .ok l := loadValidatorList_eq_ok.mpr hl
  unfold processUpdateStakePoolBalance
  refine bind_ne_error (okOr_ne_error (by decide)) fun pool hpool_at => ?_
  obtain rfl := Option.some.inj (ha.symm.trans (okOr_eq_ok.mp hpool_at))
  refine bind_ne_error (okOr_ne_error (by decide)) fun authority _ => ?_
  refine bind_ne_error (okOr_ne_error (by decide)) fun list _ => ?_
  refine bind_ne_error (okOr_ne_error (by decide)) fun reserve _ => ?_
  refine bind_ne_error (okOr_ne_error (by decide)) fun managerFee _ => ?_
  refine bind_ne_error (okOr_ne_error (by decide)) fun mint _ => ?_
  refine bind_ne_error (okOr_ne_error (by decide)) fun tokenProgram _ => ?_
  rw [hpool, ok_bind]
  -- The checks.
  refine bind_ne_error (bind_ne_error (failIf_ne_error (by decide)) fun _ _ =>
    bind_ne_error unpackMint_not_outOfDate fun _ _ h => by cases h) fun _ _ => ?_
  refine bind_ne_error (hkept.checkAuthority_not_outOfDate _) fun _ _ => ?_
  refine bind_ne_error (failIf_ne_error (by decide)) fun _ _ => ?_
  refine bind_ne_error (failIf_ne_error (by decide)) fun _ _ => ?_
  refine bind_ne_error (failIf_ne_error (by decide)) fun _ hkey => ?_
  refine bind_ne_error (failIf_ne_error (by decide)) fun _ _ => ?_
  rw [Decidable.not_not.mp (failIf_eq_ok.mp hkey), hlist, ok_bind]
  -- The balances, the fee and the new record.
  refine bind_ne_error reserveLamports_not_outOfDate fun total _ => ?_
  refine bind_ne_error (sumStakeLamports_not_outOfDate total hfresh) fun _ _ => ?_
  have hfee : ∀ {q : StakePool} {b : Account} {n : Nat},
      epochFeeAmount q b n ≠ .error (.custom .stakeListOutOfDate) := by
    intro q b n
    unfold epochFeeAmount
    split
    · exact okOr_ne_error (by decide)
    · exact fun h => by cases h
  refine bind_ne_error hfee fun fee _ => ?_
  have hcharge : onlyIf (fee > 0) (tokenMintTo rt a.key tokenProgram.key mint.key managerFee.key authority
      p.stakeWithdrawBumpSeed fee) w ≠ .error (.custom .stakeListOutOfDate) := by
    unfold onlyIf
    split
    · exact hkept.tokenMintTo_not_outOfDate hmint
    · exact fun h => by cases h
  refine bind_ne_error hcharge fun _ _ => ?_
  refine bind_ne_error unpackMint_not_outOfDate fun _ _ => ?_
  exact bind_ne_error (failIf_ne_error (by decide)) fun _ _ h => by cases h

end Balance

/-! ## The fallback -/

/-- What third parties can make of the accounts of the entries since `w₀`: anything, but what is a stake
account belongs to the stake program, since nobody else signs for these addresses. -/
structure Recreated (rt : Runtime) (k : Pubkey) (l : ValidatorList) (w₀ w : Ledger) : Prop where
  pool : w k = w₀ k
  others : ∀ j, (∀ v ∈ l.validators, j ≠ v.stakeKey rt k ∧ j ≠ v.transientKey rt k) → w j = w₀ j
  genuine : ∀ v ∈ l.validators, GenuineAt rt (v.stakeKey rt k) w

/-- A pool in a run is ready for the fallback. -/
theorem PoolRun.crankable (laws : ProgramLaws rt) (addresses : AddressLaws rt) (system : SystemLaws rt)
    (stakes : StakeLaws rt)
    (hderived : (findDepositAuthorityProgramAddress rt k).1 ≠ (poolKeeper rt k).authority)
    (h : PoolRun rt k steady s) (hp : PoolAt rt s.ledger k p) (hl : ListAt rt s.ledger p.validatorList l)
    (hw : Recreated rt k l s.ledger w) : Crankable rt k p w l := by
  obtain ⟨hkept, hsolvent⟩ := h.solvent laws addresses system stakes hderived hp hl
  obtain ⟨info, hheld, -⟩ := hsolvent.reserve
  have hlist_apart := h.orderly.list_apart p l hp hl
  have hapart := h.orderly.apart p l hp hl
  have hlist : w p.validatorList = s.ledger p.validatorList :=
    hw.others _ fun v hv => ⟨(hlist_apart v hv).1.symm, (hlist_apart v hv).2.symm⟩
  have hreserve : w p.reserveStake = s.ledger p.reserveStake :=
    hw.others _ fun v hv => ⟨(hapart.stake_ne_reserve hv).symm, (hapart.transient_ne_reserve hv).symm⟩
  constructor
  · exact ⟨hw.pool ▸ hp.owner, hw.pool ▸ hp.data, hp.valid⟩
  · exact ⟨hlist ▸ hl.owner, hlist ▸ hl.data, hl.valid⟩
  · exact hkept
  · exact ⟨info, hreserve ▸ hheld⟩
  · exact hapart
  · exact hlist_apart
  · intro v hv
    obtain ⟨t, ht⟩ := hsolvent.entries v hv
    exact ⟨t, ht.status⟩
  · exact hw.genuine

/-- Outside reward distribution, whatever has become of the accounts of the entries: every update of a chunk
without merging succeeds; so does any sequence of them; and once they have covered the list, the update of the
pool does not find it out of date. -/
theorem fallback_update_succeeds (laws : ProgramLaws rt) (addresses : AddressLaws rt) (system : SystemLaws rt)
    (stakes : StakeLaws rt) (merges : MergeLaws rt)
    (hmint : ∀ mintKey authority amount mint destination,
      rt.token.mintTo mintKey authority amount mint destination ≠ .error (.custom .stakeListOutOfDate))
    (hderived : (findDepositAuthorityProgramAddress rt k).1 ≠ (poolKeeper rt k).authority)
    (h : PoolRun rt k steady s) (hp : PoolAt rt s.ledger k p) (hl : ListAt rt s.ledger p.validatorList l)
    (hrewards : s.sysvars.epochRewardsActive = false) (hw : Recreated rt k l s.ledger w) :
    (∀ accounts startIndex, ChunkAccounts rt k p l accounts startIndex →
      ∃ w', processInstruction rt s.sysvars accounts (.updateValidatorListBalance startIndex true) w = .ok w') ∧
    ∀ calls : List (List AccountMeta × UInt32), (∀ call ∈ calls, ChunkAccounts rt k p l call.1 call.2) →
      ∃ w', processAll rt s.sysvars (calls.map fallbackCall) w = .ok w' ∧
        ((∀ n v, l.validators[n]? = some v → ∃ call ∈ calls,
          (crankOf (fallbackCall call)).Addresses rt k n v) →
        ∀ accounts a, accounts[0]? = some a → a.key = k →
          processInstruction rt s.sysvars accounts .updateStakePoolBalance w' ≠
            .error (.custom .stakeListOutOfDate)) := by
  have hcrankable := h.crankable laws addresses system stakes hderived hp hl hw
  constructor
  · intro accounts startIndex hchunk
    obtain ⟨w', r, -⟩ := hcrankable.run stakes merges hrewards hchunk
    exact ⟨w', (processUpdateValidatorListBalance_run rt _).mpr ⟨r⟩⟩
  · intro calls hcalls
    obtain ⟨w', l', hrun, hafter⟩ := hcrankable.runs laws stakes merges hrewards hcalls
    refine ⟨w', hrun, fun hcover accounts a ha hk => ?_⟩
    -- Every entry was addressed by one of the calls, so all of them are of this epoch.
    have hcranks : ∀ i ∈ calls.map fallbackCall, IsCrank k i := by
      intro i hi
      obtain ⟨call, hcall, rfl⟩ := List.mem_map.mp hi
      obtain ⟨pool, pool_at, pool_key⟩ := (hcalls call hcall).at_ 0 rfl
      exact .intro pool _ _ _ pool_at pool_key
    obtain ⟨hp', l₁, hl₁, hfresh⟩ := processAll_fresh laws hcranks hcrankable.pool hcrankable.list hrun
      fun n v hv _ => by
        obtain ⟨call, hcall, haddress⟩ := hcover n v hv
        exact ⟨_, List.mem_map_of_mem hcall, haddress⟩
    exact hcrankable.kept.update_not_outOfDate hmint hp' hl₁ hfresh ha hk

namespace Reference

/-- Somebody has made a stake account of the wallet's out of the transient address. -/
def recreated : Ledger :=
  staked.ledger.set transientStake
    ⟨2282880, stakeProgramId, stakeSpace, .stake (.initialized ⟨2282880, ⟨wallet, wallet⟩, default⟩)⟩

theorem mintTo_not_outOfDate (mintKey authority : Pubkey) (amount : Nat) (mint destination : Account) :
    runtime.token.mintTo mintKey authority amount mint destination ≠ .error (.custom .stakeListOutOfDate) := by
  have hmint : openMint mint ≠ .error (.custom .stakeListOutOfDate) := by
    unfold openMint
    split <;> exact fun h => by cases h
  have htoken : openToken destination mintKey ≠ .error (.custom .stakeListOutOfDate) := by
    unfold openToken
    split
    · split <;> exact fun h => by cases h
    · exact fun h => by cases h
  refine bind_ne_error hmint fun _ _ => bind_ne_error htoken fun _ _ => ?_
  refine bind_ne_error (failIf_ne_error (by decide)) fun _ _ => ?_
  refine bind_ne_error (failIf_ne_error (by decide)) fun _ _ => ?_
  exact bind_ne_error (failIf_ne_error (by decide)) fun _ _ h => by cases h

end Reference

open Reference in
/-- The fallback on the reference pool, with somebody else's stake in the place of its transient stake. -/
theorem fallback_update_recreated : ∃ w',
    processInstruction runtime staked.sysvars updateListAccounts (.updateValidatorListBalance 0 true) recreated =
      .ok w' ∧
    processInstruction runtime staked.sysvars [reads pool] .updateStakePoolBalance w' ≠
      .error (.custom .stakeListOutOfDate) := by
  obtain ⟨p, hp, hkeys⟩ : ∃ p, PoolAt runtime staked.ledger pool p ∧
      (p.validatorList, p.reserveStake) = (validatorList, reserve) :=
    PoolAt.of_load (fun p => (p.validatorList, p.reserveStake)) (by decide +kernel)
  obtain ⟨hlist, hreserve⟩ := Prod.mk.inj hkeys
  obtain ⟨l, hl, hentry⟩ : ∃ l, ListAt runtime staked.ledger validatorList l ∧
      l.validators.map (ownAddresses runtime pool) = [(validatorStake, transientStake)] :=
    ListAt.of_load _ (by decide +kernel)
  obtain ⟨v, hv, haddresses⟩ := List.map_eq_singleton_iff.mp hentry
  obtain ⟨hstake, htransient⟩ := Prod.mk.inj haddresses
  have hstake' : v.stakeKey runtime pool = validatorStake := hstake
  have htransient' : v.transientKey runtime pool = transientStake := htransient
  have hchunk : ChunkAccounts runtime pool p l updateListAccounts 0 := by
    refine ⟨?_, by decide, 1, ?_, ?_⟩
    · rw [hlist, hreserve]
      rfl
    · rw [hv]
      exact Nat.le_refl 1
    · rw [hentry]
      rfl
  have hw : Recreated runtime pool l staked.ledger recreated := by
    refine ⟨Ledger.set_other _ _ (by decide +kernel), fun j hj => Ledger.set_other _ _ ?_, fun u hu => ?_⟩
    · rw [← htransient']
      exact (hj v (by rw [hv]; exact List.mem_singleton_self _)).2
    · rw [hv, List.mem_singleton] at hu
      rw [hu, hstake', GenuineAt]
      intro state _
      decide +kernel
  have hstaked : PoolRun runtime pool True staked := staked_run
  obtain ⟨-, hruns⟩ := fallback_update_succeeds programLaws addressLaws systemLaws stakeLaws mergeLaws
    mintTo_not_outOfDate derived_apart hstaked hp (hlist ▸ hl) (by decide +kernel) hw
  obtain ⟨w', hrun, hupdate⟩ := hruns [(updateListAccounts, 0)] fun call hcall => by
    rw [List.mem_singleton.mp hcall]
    exact hchunk
  have hcover : ∀ n u, l.validators[n]? = some u → ∃ call ∈ [(updateListAccounts, (0 : UInt32))],
      (crankOf (fallbackCall call)).Addresses runtime pool n u := by
    intro n u hu
    refine ⟨_, List.mem_singleton_self _, ?_⟩
    rw [hv] at hu
    cases n with
    | zero =>
      cases hu
      exact ⟨(validatorStake, transientStake), rfl, hstake, htransient⟩
    | succ n => cases hu
  obtain ⟨w₁, hfirst, hlast⟩ := bind_eq_ok.mp hrun
  cases hlast
  exact ⟨w', hfirst, hupdate hcover [reads pool] _ rfl rfl⟩

end StakePoolFogo
