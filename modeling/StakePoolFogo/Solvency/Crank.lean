import StakePoolFogo.Solvency.Staker

/-!
# Cranks keep a pool solvent

The update loop as a run of visits: the entries of the list with their stake accounts are the cells,
the reserve is the pot.  Soundness, what is conserved and what a second update does are then read off
the runs.
-/

open StakePoolFogo.Checked StakePoolFogo.Outcome

namespace StakePoolFogo

/-- The entries with their stake accounts, and the lamports of the reserve. -/
def row (rt : Runtime) (k reserve : Pubkey) (w : Ledger) (vs : List ValidatorStakeInfo) :
    Cells.Row Cell :=
  ⟨vs.map (cellAt rt k w), (w reserve).lamports⟩

variable {rt : Runtime} {sv : Sysvars} {keeper : Keeper} {steady : Prop} {w w' : Ledger}
  {c : UpdateContext} {v v' u : ValidatorStakeInfo} {vs vs' front rest : List ValidatorStakeInfo}
  {header : ValidatorListHeader} {validatorKey transientKey : Pubkey} {pairs : List (Pubkey × Pubkey)}

/-! ## The loop as a run of visits -/

theorem Apart.ne_of_append {k reserve : Pubkey} (h : Apart rt k reserve ⟨header, front ++ v :: rest⟩)
    (hu : u ∈ front ∨ u ∈ rest) : u ≠ v := by
  have hmap := (List.nodup_append.mp (List.nodup_cons.mp h).2).1
  have hnodup : (front ++ v :: rest).Nodup := List.Nodup.of_map _ hmap
  rintro rfl
  exact (List.nodup_cons.mp (List.nodup_middle.mp hnodup)).1 (List.mem_append.mpr hu)

/-- A visit of one entry leaves the other cells alone. -/
theorem map_cellAt_append {k reserve : Pubkey}
    (hapart : Apart rt k reserve ⟨header, front ++ v :: rest⟩)
    (honly : OnlyAt [v.stakeKey rt k, v.transientKey rt k, reserve] w w') :
    (front ++ v' :: rest).map (cellAt rt k w') =
      ((front ++ v :: rest).map (cellAt rt k w)).set front.length (cellAt rt k w' v') := by
  have hother : ∀ u, u ∈ front ∨ u ∈ rest → cellAt rt k w' u = cellAt rt k w u := by
    intro u hu
    have hmem : u ∈ front ++ v :: rest := by
      rcases hu with hu | hu
      · exact List.mem_append_left _ hu
      · exact List.mem_append_right _ (List.mem_cons_of_mem _ hu)
    obtain ⟨hstake, htransient⟩ := hapart.not_mem (l := ⟨header, front ++ v :: rest⟩)
      (List.mem_append_right _ List.mem_cons_self) hmem (hapart.ne_of_append hu)
    have hsub : [v.stakeKey rt k, v.transientKey rt k, reserve] ⊆
        [reserve, v.stakeKey rt k, v.transientKey rt k] := by simp
    have honly' := honly.mono hsub
    rw [cellAt, cellAt, honly' _ hstake, honly' _ htransient]
  rw [List.map_append, List.map_append, List.map_cons, List.map_cons,
    List.set_append_right _ _ (by simp), List.map_congr_left fun u hu => hother u (.inl hu),
    List.map_congr_left fun u hu => hother u (.inr hu)]
  simp

/-- One turn of the loop on an entry with its own accounts is a visit of its cell. -/
theorem refreshEntry_cell (laws : StakeLaws rt)
    (hapart : Apart rt c.pool c.reserve ⟨header, front ++ v :: rest⟩)
    (hreserve : ∃ info, (w c.reserve).data = .stake (.initialized info))
    (hown : ownAccounts rt c.pool v validatorKey transientKey)
    (h : refreshEntry rt sv c v validatorKey transientKey w = .ok (v', w')) :
    ∃ n, visit rt sv c (cellAt rt c.pool w v) = .ok (cellAt rt c.pool w' v', n) ∧
      Feeds c (v.stakeKey rt c.pool) (v.transientKey rt c.pool) w w' n ∧
      v'.stakeKey rt c.pool = v.stakeKey rt c.pool ∧
      v'.transientKey rt c.pool = v.transientKey rt c.pool := by
  obtain ⟨rfl, rfl⟩ := hown
  have hmem : v ∈ front ++ v :: rest := List.mem_append_right _ List.mem_cons_self
  obtain ⟨hrv, hrt, hvt⟩ := hapart.entry hmem
  have hready : VisitReady c (v.stakeKey rt c.pool) (v.transientKey rt c.pool) w :=
    ⟨hreserve, hvt, hrv.symm, hrt.symm⟩
  obtain ⟨n, hvisit, hfeeds⟩ := refreshEntry_local laws hready ⟨rfl, rfl⟩ h
  have hkeys : v'.stakeKey rt c.pool = v.stakeKey rt c.pool ∧
      v'.transientKey rt c.pool = v.transientKey rt c.pool := by
    obtain ⟨_, _, -, -, -, -, hcell, -⟩ := visit_cases hvisit
    have hentry : v' = _ := congrArg Cell.entry hcell
    rw [hentry]
    exact ⟨rfl, rfl⟩
  refine ⟨n, ?_, hfeeds, hkeys⟩
  rw [cellAt, cellAt, hkeys.1, hkeys.2]
  exact hvisit

/-- The same turn on the row. -/
theorem refreshEntry_row (laws : StakeLaws rt)
    (hapart : Apart rt c.pool c.reserve ⟨header, front ++ v :: rest⟩)
    (hreserve : ∃ info, (w c.reserve).data = .stake (.initialized info))
    (hown : ownAccounts rt c.pool v validatorKey transientKey)
    (h : refreshEntry rt sv c v validatorKey transientKey w = .ok (v', w')) :
    Cells.Run (visit rt sv c) (row rt c.pool c.reserve w (front ++ v :: rest)) [front.length]
        (row rt c.pool c.reserve w' (front ++ v' :: rest)) ∧
      (∃ n, w' c.reserve = (w c.reserve).credited n) ∧
      OnlyAt [v.stakeKey rt c.pool, v.transientKey rt c.pool, c.reserve] w w' ∧
      v'.stakeKey rt c.pool = v.stakeKey rt c.pool ∧
      v'.transientKey rt c.pool = v.transientKey rt c.pool := by
  obtain ⟨n, hcell, hfeeds, hkeys⟩ := refreshEntry_cell laws hapart hreserve hown h
  refine ⟨?_, ⟨n, hfeeds.reserve⟩, hfeeds.others, hkeys⟩
  have hrun := Cells.Run.single (s := row rt c.pool c.reserve w (front ++ v :: rest))
    (i := front.length) (by simp [row]) hcell
  rw [row, row, map_cellAt_append hapart hfeeds.others, hfeeds.reserve]
  exact hrun

/-- The positions the loop visits: those of the entries paired with their own accounts. -/
def Visits (rt : Runtime) (k : Pubkey) (start : Nat) (vs : List ValidatorStakeInfo)
    (pairs : List (Pubkey × Pubkey)) (i : Nat) : Prop :=
  ∃ j v pair, i = start + j ∧ vs[j]? = some v ∧ pairs[j]? = some pair ∧ ownAccounts rt k v pair.1 pair.2

theorem visits_cons {k : Pubkey} {start i : Nat} :
    Visits rt k start (v :: vs) ((validatorKey, transientKey) :: pairs) i ↔
      i = start ∧ ownAccounts rt k v validatorKey transientKey ∨
        Visits rt k (start + 1) vs pairs i := by
  constructor
  · rintro ⟨j, u, pair, rfl, hu, hpair, hown⟩
    cases j with
    | zero =>
      cases hu
      cases hpair
      exact .inl ⟨rfl, hown⟩
    | succ j => exact .inr ⟨j, u, pair, by omega, hu, hpair, hown⟩
  · rintro (⟨rfl, hown⟩ | ⟨j, u, pair, rfl, hu, hpair, hown⟩)
    · exact ⟨0, v, _, rfl, rfl, rfl, hown⟩
    · exact ⟨j + 1, u, pair, by omega, hu, hpair, hown⟩

/-- What the loop makes of the ledger: it touches the reserve, which only gains, and the accounts of
the entries of the slice. -/
structure Cranked (rt : Runtime) (c : UpdateContext) (vs vs' : List ValidatorStakeInfo) (w w' : Ledger) :
    Prop where
  reserve : ∃ n, w' c.reserve = (w c.reserve).credited n
  stakeKeys : vs'.map (·.stakeKey rt c.pool) = vs.map (·.stakeKey rt c.pool)
  transientKeys : vs'.map (·.transientKey rt c.pool) = vs.map (·.transientKey rt c.pool)
  only : OnlyAt (c.reserve :: (vs.map (·.stakeKey rt c.pool) ++ vs.map (·.transientKey rt c.pool))) w w'

theorem Cranked.refl (vs : List ValidatorStakeInfo) (w : Ledger) : Cranked rt c vs vs w w :=
  ⟨⟨0, rfl⟩, rfl, rfl, .refl _ _⟩

/-- The update loop is a run of visits of the entries it finds with their own accounts. -/
theorem refreshEntries_row (laws : StakeLaws rt) (pairs : List (Pubkey × Pubkey))
    (hapart : Apart rt c.pool c.reserve ⟨header, front ++ vs⟩)
    (hreserve : ∃ info, (w c.reserve).data = .stake (.initialized info))
    (h : refreshEntries rt sv c vs pairs w = .ok (vs', w')) :
    ∃ visited, Cells.Run (visit rt sv c) (row rt c.pool c.reserve w (front ++ vs)) visited
        (row rt c.pool c.reserve w' (front ++ vs')) ∧
      (∀ i, i ∈ visited ↔ Visits rt c.pool front.length vs pairs i) ∧ Cranked rt c vs vs' w w' := by
  induction vs generalizing front pairs w vs' w' with
  | nil =>
    simp only [refreshEntries, Except.ok.injEq, Prod.mk.injEq] at h
    obtain ⟨rfl, rfl⟩ := h
    exact ⟨[], .nil, by simp [Visits], .refl _ _⟩
  | cons v vs ih =>
    cases pairs with
    | nil =>
      simp only [refreshEntries, Except.ok.injEq, Prod.mk.injEq] at h
      obtain ⟨rfl, rfl⟩ := h
      exact ⟨[], .nil, by simp [Visits], .refl _ _⟩
    | cons pair pairs =>
      obtain ⟨validatorKey, transientKey⟩ := pair
      simp only [refreshEntries, bind_eq_ok, pure_eq_ok, Prod.mk.injEq] at h
      obtain ⟨⟨v', w₁⟩, hentry, ⟨rest, w₂⟩, hrest, rfl, rfl⟩ := h
      dsimp only at hrest ⊢
      -- The rest of the list is visited behind the entry.
      by_cases hown : ownAccounts rt c.pool v validatorKey transientKey
      · obtain ⟨hrun, ⟨n, hcredit⟩, honly, hstake, htransient⟩ :=
          refreshEntry_row laws hapart hreserve hown hentry
        have hmaps : ∀ g : ValidatorStakeInfo → Pubkey, g v' = g v →
            (front ++ v' :: vs).map g = (front ++ v :: vs).map g := by
          intro g hg
          simp only [List.map_append, List.map_cons, hg]
        have hapart' : Apart rt c.pool c.reserve ⟨header, (front ++ [v']) ++ vs⟩ := by
          rw [List.append_assoc, List.singleton_append]
          unfold Apart at hapart ⊢
          dsimp only at hapart ⊢
          rw [hmaps _ hstake, hmaps _ htransient]
          exact hapart
        obtain ⟨info, hinfo⟩ := hreserve
        obtain ⟨visited, hrun', hvisited, hcranked⟩ :=
          ih pairs hapart' ⟨info, by rw [hcredit]; exact hinfo⟩ hrest
        obtain ⟨m, hcredit'⟩ := hcranked.reserve
        rw [List.append_assoc, List.singleton_append, List.append_assoc, List.singleton_append] at hrun'
        refine ⟨[front.length] ++ visited, hrun.trans hrun', fun i => ?_,
          ⟨n + m, by rw [hcredit', hcredit, Account.credited_credited]⟩, ?_, ?_, ?_⟩
        · rw [visits_cons, List.mem_append, List.mem_singleton, hvisited, List.length_append,
            List.length_singleton]
          exact or_congr_left ⟨fun hi => ⟨hi, hown⟩, fun hi => hi.1⟩
        · rw [List.map_cons, List.map_cons, hstake, hcranked.stakeKeys]
        · rw [List.map_cons, List.map_cons, htransient, hcranked.transientKeys]
        · exact (honly.mono (by simp)).trans (hcranked.only.mono (by
            intro k hk
            simp only [List.map_cons, List.mem_cons, List.mem_append] at hk ⊢
            tauto))
      · obtain ⟨rfl, rfl⟩ := refreshEntry_skip hown hentry
        have hapart' : Apart rt c.pool c.reserve ⟨header, (front ++ [v']) ++ vs⟩ := by
          rwa [List.append_assoc, List.singleton_append]
        obtain ⟨visited, hrun, hvisited, hcranked⟩ := ih pairs hapart' hreserve hrest
        rw [List.append_assoc, List.singleton_append, List.append_assoc, List.singleton_append] at hrun
        refine ⟨visited, hrun, fun i => ?_, hcranked.reserve, ?_, ?_, ?_⟩
        · rw [visits_cons, hvisited, List.length_append, List.length_singleton]
          exact ⟨.inr, fun hi => hi.resolve_left fun hi => hown hi.2⟩
        · rw [List.map_cons, List.map_cons, hcranked.stakeKeys]
        · rw [List.map_cons, List.map_cons, hcranked.transientKeys]
        · refine hcranked.only.mono fun k hk => ?_
          simp only [List.map_cons, List.mem_cons, List.mem_append] at hk ⊢
          tauto

section UpdateList

variable {accounts : List AccountMeta} {startIndex : UInt32} {noMerge : Bool}
  (r : UpdateListRun rt sv accounts startIndex noMerge w w')

def UpdateListRun.context : UpdateContext :=
  { pool := r.pool.key, stakePool := r.p, authority := r.authority, reserve := r.reserve.key,
    clock := r.clock.key, history := r.history.key, noMerge }

/-- The list as the update leaves it. -/
def UpdateListRun.after : ValidatorList :=
  { r.l with validators := r.l.validators.take startIndex.toNat ++ r.refreshed }

/-- An update of the list is a run of visits. -/
theorem UpdateListRun.row_run (laws : StakeLaws rt) (hapart : Apart rt r.pool.key r.p.reserveStake r.l)
    (hreserve : ∃ info, (w r.p.reserveStake).data = .stake (.initialized info)) :
    ∃ visited, Cells.Run (visit rt sv r.context) (row rt r.pool.key r.p.reserveStake w r.l.validators)
        visited (row rt r.pool.key r.p.reserveStake r.settled r.after.validators) ∧
      (∀ i, i ∈ visited ↔ Visits rt r.pool.key startIndex.toNat
        (r.l.validators.drop startIndex.toNat) (stakePairs (accounts.drop 7)) i) ∧
      Cranked rt r.context (r.l.validators.drop startIndex.toNat) r.refreshed w r.settled := by
  have hsplit := List.take_append_drop startIndex.toNat r.l.validators
  have hlength : (r.l.validators.take startIndex.toNat).length = startIndex.toNat := by
    have hbound := r.bound
    rw [List.length_take]
    omega
  have hapart' : Apart rt r.context.pool r.context.reserve
      ⟨r.l.header, r.l.validators.take startIndex.toNat ++ r.l.validators.drop startIndex.toNat⟩ := by
    show Apart rt r.pool.key r.reserve.key _
    rw [hsplit, r.isReserve]
    exact hapart
  have hreserve' : ∃ info, (w r.context.reserve).data = .stake (.initialized info) := by
    show ∃ info, (w r.reserve.key).data = _
    rwa [r.isReserve]
  obtain ⟨visited, hrun, hvisited, hcranked⟩ := refreshEntries_row laws _ hapart' hreserve' r.refresh
  rw [hsplit, hlength] at *
  rw [← r.isReserve]
  exact ⟨visited, hrun, hvisited, hcranked⟩

/-- What is on record of an entry is part of what it is worth. -/
theorem Sound.recorded_le {x : Cell} {s : StakeStatus} (h : Sound rt c.keeper steady x s) :
    x.entry.recorded ≤ c.cellWorth x := by
  have htransient : x.entry.transientStakeLamports ≤ c.transientWorth x := by
    unfold UpdateContext.transientWorth
    split
    · omega
    · rename_i hpos
      rw [UpdateContext.worth_usable (h.transient (Nat.pos_of_ne_zero hpos)).usable]
      exact h.transient_le
  have hactive : x.entry.activeStakeLamports ≤ c.validatorWorth x.entry.status x.validator := by
    by_cases hpos : 0 < x.entry.activeStakeLamports
    · have hs := h.has_active hpos
      obtain ⟨state, info, hheld⟩ := h.validator hs
      have hle := h.active_le
      cases state with
      | initialized info' =>
        cases hheld.info_eq
        rw [UpdateContext.validatorWorth, stakeState_of_data hheld.data]
        have husable : c.usable info := hheld.usable
        dsimp only
        rwa [if_pos husable]
      | stake info' stake =>
        cases hheld.info_eq
        rw [UpdateContext.validatorWorth_stake hheld.data hheld.usable h.status, if_neg]
        · exact hle
        · rcases hs with rfl | rfl | rfl <;> simp
      | uninitialized => cases hheld.info_eq
      | rewardsPool => cases hheld.info_eq
    · omega
  simp only [ValidatorStakeInfo.recorded, UpdateContext.cellWorth]
  omega

theorem UpdateListRun.solvent (laws : ProgramLaws rt) (stakes : StakeLaws rt)
    (hkeeper : keeper = ⟨r.authority.key, r.p.lockup⟩)
    (hapart : Apart rt r.pool.key r.p.reserveStake r.l)
    (h : Solvent rt r.pool.key keeper steady w r.p r.l) :
    Solvent rt r.pool.key keeper steady w' r.p r.after := by
  obtain rfl : keeper = r.context.keeper := hkeeper
  obtain ⟨info, hheld, hbacked⟩ := h.reserve
  obtain ⟨visited, hrun, -, hcranked⟩ := r.row_run stakes hapart ⟨info, hheld.data⟩
  have hsound : ∀ x ∈ (row rt r.pool.key r.p.reserveStake w r.l.validators).cells,
      ∃ s, Sound rt r.context.keeper steady x s := by
    intro x hx
    obtain ⟨v, hv, rfl⟩ := List.mem_map.mp hx
    exact h.entries v hv
  -- No visit loses what is on record.
  obtain ⟨hgain, hafter⟩ := hrun.gains (g := fun x => x.entry.recorded)
    (P := fun x => ∃ s, Sound rt r.context.keeper steady x s)
    (fun x x' n hx hvisit => by
      obtain ⟨s, hs⟩ := hx
      obtain ⟨s', hs', -⟩ := hs.visit stakes hvisit
      exact ⟨s', hs'⟩)
    (fun x x' n hx hvisit => by
      obtain ⟨s, hs⟩ := hx
      obtain ⟨hmoved, hrecorded⟩ := hs.visit_conserved stakes hvisit
      have hle := hs.recorded_le
      simp only [ValidatorStakeInfo.recorded] at hle ⊢
      omega) hsound
  have hsolvent : Solvent rt r.pool.key r.context.keeper steady r.settled r.p r.after := by
    refine ⟨⟨info, ?_, ?_⟩, fun v hv => hafter _ (List.mem_map_of_mem hv)⟩
    · obtain ⟨n, hcredit⟩ := hcranked.reserve
      have hcredit' : r.settled r.p.reserveStake = (w r.p.reserveStake).credited n := by
        rw [← r.isReserve]
        exact hcredit
      rw [hcredit']
      exact hheld.of_meta rfl hheld.data rfl (Nat.le_trans hheld.exempt (Nat.le_add_right _ _))
    · simp only [row, List.map_map] at hgain
      exact Nat.le_trans hbacked hgain
  have howner : (r.settled r.list.key).owner = rt.programId :=
    (r.isList.of_frames laws ((refreshEntries_spec r.refresh).2.mono stake_subset_outsiders)).owner
  exact hsolvent.spared (writeValidatorList_credits laws howner r.result).spares

end UpdateList

/-! ## The pool and the list -/

theorem reserveLamports_eq_ok {reserve : Account} {n : Nat} (h : reserveLamports reserve = .ok n) :
    ∃ info, reserve.data = .stake (.initialized info) ∧
      reserve.lamports = n + minimumReserveLamports info := by
  obtain ⟨lamports, owner, dataLen, data⟩ := reserve
  simp only [reserveLamports, Account.tryStakeState, bind_eq_ok] at h
  obtain ⟨state, hstate, h⟩ := h
  cases state with
  | initialized info =>
    simp only [okOr_eq_ok, checkedSub_eq_some] at h
    cases data with
    | stake s =>
      cases hstate
      exact ⟨info, rfl, h⟩
    | zeroed =>
      dsimp only at hstate
      split at hstate <;> cases hstate
    | _ => cases hstate
  | _ => exact absurd h (by simp [throw_ne_ok])

/-- The sum of an update is what it starts from with what is on record. -/
theorem sumStakeLamports_recorded {epoch : Epoch} {n total : Nat}
    (h : sumStakeLamports epoch n vs = .ok total) :
    total = n + (vs.map ValidatorStakeInfo.recorded).sum := by
  induction vs generalizing n with
  | nil =>
    cases h
    rfl
  | cons v vs ih =>
    simp only [sumStakeLamports, bind_eq_ok, failIf_eq_ok, exists_unit, okOr_eq_ok] at h
    obtain ⟨-, stake, hstake, m, hm, hrest⟩ := h
    have hstake' : stake = v.recorded := by
      rw [raise_eq_ok, ValidatorStakeInfo.stakeLamports, okOr_eq_ok, checkedAdd_eq_some] at hstake
      exact hstake.1.symm
    obtain ⟨hm, -⟩ := checkedAdd_eq_some.mp hm
    rw [List.map_cons, List.sum_cons, ih hrest, ← hm, hstake', Nat.add_assoc]

theorem UpdatePoolRun.solvent (laws : ProgramLaws rt) {accounts : List AccountMeta}
    (r : UpdatePoolRun rt sv accounts w w') (h : Solvent rt r.pool.key keeper steady w r.p r.l) :
    Solvent rt r.pool.key keeper steady w' { r.p.advanceEpoch sv.epoch with
      totalLamports := r.total, poolTokenSupply := r.after.supply } r.l := by
  have hcredits : OnlyCredits rt keeper w w' := by
    have hpool := r.isPool.of_frames laws r.frames
    refine OnlyCredits.trans (.of_onlyIf (fun u hmint => ?_) r.mint_fee)
      (writeStakePool_credits laws hpool.owner r.result)
    have htoken := hmint
    simp only [tokenMintTo, bind_eq_ok, exists_unit, checkTokenProgram_eq_ok] at htoken
    refine .of_frames (tokenMintTo_frames hmint) ?_
    simpa using (laws.token_ne_stake _ htoken.1).symm
  obtain ⟨info, hheld, -⟩ := h.reserve
  obtain ⟨info', hdata, hreserve⟩ := reserveLamports_eq_ok r.in_reserve
  rw [r.isReserve] at hdata hreserve
  obtain ⟨-, rfl⟩ := hheld.unique hdata rfl
  have hsum := sumStakeLamports_recorded r.sum
  have hcredited := hcredits _ h.reserve_held
  have hkept : (r.p.advanceEpoch sv.epoch).reserveStake = r.p.reserveStake := by
    unfold StakePool.advanceEpoch
    split <;> rfl
  refine ⟨⟨info', ?_, ?_⟩, fun v hv => ?_⟩
  · show HeldAs rt keeper (w' (r.p.advanceEpoch sv.epoch).reserveStake) _ _
    rw [hkept]
    exact hheld.credited hcredited
  · have hle := hcredited.lamports
    show r.total + _ ≤ (w' (r.p.advanceEpoch sv.epoch).reserveStake).lamports + _
    rw [hkept]
    have hrecorded : r.l.recorded = (r.l.validators.map ValidatorStakeInfo.recorded).sum := rfl
    omega
  · obtain ⟨s, hs⟩ := h.entries v hv
    exact ⟨s, hs.spared hcredits.spares List.not_mem_nil List.not_mem_nil⟩

/-- Cleaning up drops nothing that is on record. -/
theorem ValidatorList.recorded_cleaned (l : ValidatorList) : l.cleaned.recorded = l.recorded := by
  obtain ⟨header, vs⟩ := l
  unfold recorded cleaned
  dsimp only
  induction vs with
  | nil => rfl
  | cons v vs ih =>
    by_cases hremoved : v.isRemoved = true
    · have hzero : v.recorded = 0 := by
        simp only [ValidatorStakeInfo.isRemoved, Bool.and_eq_true, beq_iff_eq] at hremoved
        rw [ValidatorStakeInfo.recorded, hremoved.1.2, hremoved.2]
      rw [List.filter_cons_of_neg (by simp [hremoved]), ih, List.map_cons, List.sum_cons, hzero,
        Nat.zero_add]
    · rw [List.filter_cons_of_pos (by simp [hremoved]), List.map_cons, List.sum_cons, ih, List.map_cons,
        List.sum_cons]

theorem Solvent.cleaned {k : Pubkey} {p : StakePool} {l : ValidatorList}
    (h : Solvent rt k keeper steady w p l) : Solvent rt k keeper steady w p l.cleaned := by
  refine ⟨?_, fun v hv => h.entries v (List.mem_filter.mp hv).1⟩
  rw [ValidatorList.recorded_cleaned]
  exact h.reserve

end StakePoolFogo
