import StakePoolFogo.ListShape
import StakePoolFogo.Solvency.Run

/-!
# The status of an entry

The status byte of an entry agrees with the lamports on record in every state of a run, an entry that
has left `Active` stays away from it, and what a cleanup drops is worth nothing.
-/

open StakePoolFogo.Outcome

namespace StakePoolFogo

variable {rt : Runtime} {sv : Sysvars} {k vote : Pubkey} {keeper : Keeper} {steady : Prop}
  {s s' t : World} {w w' : Ledger}
  {accounts : List AccountMeta} {p p' : StakePool} {l l' : ValidatorList} {v v' : ValidatorStakeInfo}

/-! ## Leaving is for good -/

/-- The entry keeps its vote, and stays away from `Active` once it has left it. -/
structure ValidatorStakeInfo.StaysLeft (v v' : ValidatorStakeInfo) : Prop where
  vote : v'.voteAccountAddress = v.voteAccountAddress
  left : v'.status = StakeStatus.active.toPod → v.status = StakeStatus.active.toPod

theorem ValidatorStakeInfo.StaysLeft.refl (v : ValidatorStakeInfo) : v.StaysLeft v := ⟨rfl, id⟩

theorem StatusMoves.active {x y : PodStakeStatus} (h : StatusMoves x y)
    (hy : y = StakeStatus.active.toPod) : x = StakeStatus.active.toPod := by
  rcases h with rfl | rfl | rfl | ⟨-, rfl⟩
  · exact hy
  · exact absurd (StakeStatus.toPod_inj.mp hy) (by decide)
  · exact absurd (StakeStatus.toPod_inj.mp hy) (by decide)
  · exact absurd (StakeStatus.toPod_inj.mp hy) (by decide)

theorem EntryRefresh.staysLeft {epoch : Epoch} (h : EntryRefresh epoch v v') : v.StaysLeft v' := by
  rcases h with rfl | ⟨status, active, transient, hmoves, rfl⟩
  · exact .refl v'
  · exact ⟨rfl, hmoves.active⟩

/-- Entries rewritten in place. -/
theorem staysLeft_of_forall₂ {vs vs' : List ValidatorStakeInfo}
    (h : List.Forall₂ ValidatorStakeInfo.StaysLeft vs vs') (hv' : v' ∈ vs') :
    ∃ v ∈ vs, v.StaysLeft v' := by
  induction h with
  | nil => cases hv'
  | cons hentry _ ih =>
    rcases List.mem_cons.mp hv' with rfl | hv'
    · exact ⟨_, List.mem_cons_self, hentry⟩
    · obtain ⟨v, hv, hleft⟩ := ih hv'
      exact ⟨v, List.mem_cons_of_mem _ hv, hleft⟩

/-- An entry after a step was there before it, or is new. -/
theorem BookStep.staysLeft {signed : Pubkey → Prop} (h : BookStep rt sv signed k p l p' l')
    (hv' : v' ∈ l'.validators) :
    (∃ v ∈ l.validators, v.StaysLeft v') ∨ l.find v'.voteAccountAddress = none := by
  have hmodify : ∀ {vote v v''}, l.find vote = some v → v.status = StakeStatus.active.toPod →
      v' ∈ (l.modify vote fun _ => v'').validators → v''.voteAccountAddress = v.voteAccountAddress →
      (∃ v ∈ l.validators, v.StaysLeft v') ∨ l.find v'.voteAccountAddress = none :=
    fun found active hmem same => .inl (staysLeft_of_forall₂
      (ValidatorList.modify_forall₂ .refl found ⟨same, fun _ => active⟩) hmem)
  cases h with
  | addValidator vote seed _ _ _ notListed =>
    rcases List.mem_append.mp hv' with hv' | hv'
    · exact .inl ⟨v', hv', .refl v'⟩
    · rw [List.mem_singleton.mp hv']
      exact .inr notListed
  | removeValidator vote v status _ found active _ => exact hmodify found active hv' rfl
  | rebalance vote v _ _ _ _ found active => exact hmodify found active hv' rfl
  | updateList _ _ entries =>
    exact .inl (staysLeft_of_forall₂ (entries.imp fun _ _ hentry => hentry.staysLeft) hv')
  | cleanup | cleanupPreferred => exact .inl ⟨v', (List.mem_filter.mp hv').1, .refl v'⟩
  | depositStake vote v _ _ _ found active _ => exact hmodify found active hv' rfl
  | withdrawStake vote v v'' _ _ _ found active record _ _ _ =>
    exact hmodify found active hv' (recordStakeWithdrawal_sameShape record).vote
  | _ => exact .inl ⟨v', hv', .refl v'⟩

/-- The validator with this vote is in the list of the pool at `k`. -/
def Listed (rt : Runtime) (k vote : Pubkey) (s : World) : Prop :=
  ∃ p l, PoolAt rt s.ledger k p ∧ ListAt rt s.ledger p.validatorList l ∧
    ∃ v ∈ l.validators, v.voteAccountAddress = vote

/-- Its entry is not active. -/
def Left (rt : Runtime) (k vote : Pubkey) (s : World) : Prop :=
  ∀ p l, PoolAt rt s.ledger k p → ListAt rt s.ledger p.validatorList l →
    ∀ v ∈ l.validators, v.voteAccountAddress = vote → v.status ≠ StakeStatus.active.toPod

theorem Moves.left (laws : ProgramLaws rt) (hreg : Registry rt s.ledger) (h : Moves rt s s')
    (hlisted : Listed rt k vote s) (hleft : Left rt k vote s) : Left rt k vote s' := by
  obtain ⟨p, l, hp, hl, u, hu, hvote⟩ := hlisted
  intro p' l' hp' hl' v' hv' hvote' hactive
  cases h with
  | elsewhere step =>
    obtain rfl := hp'.unique (step.poolAt hp)
    obtain rfl := hl'.unique (step.listAt hl)
    exact hleft p' l' hp hl v' hv' hvote' hactive
  | call run _ =>
    rcases (process_handled run).origin laws hreg hp' hl' with
      ⟨_, _, _, _, _, r, hkey, -⟩ | ⟨q, m, hq, hm, -, -, ⟨rfl, rfl⟩ | hstep⟩
    · exact absurd hp (hkey ▸ r.not_pool)
    · exact hleft _ _ hq hm v' hv' hvote' hactive
    · obtain rfl := hp.unique hq
      obtain rfl := hl.unique hm
      rcases hstep.staysLeft hv' with ⟨v, hv, hstays⟩ | hnone
      · exact hleft p l hp hl v hv (hstays.vote.symm.trans hvote') (hstays.left hactive)
      · have hnot := List.find?_eq_none.mp hnone u hu
        simp [ValidatorStakeInfo.memcmpPubkey, hvote, hvote'] at hnot

/-- While it stays in the list, a validator that has left does not come back. -/
theorem Left.run (laws : ProgramLaws rt) (hs : Reachable rt s) (hlisted : Listed rt k vote s)
    (hleft : Left rt k vote s)
    (h : Relation.ReflTransGen (fun a b => Moves rt a b ∧ Listed rt k vote b) s t) :
    Left rt k vote t := by
  have hall : Reachable rt t ∧ Listed rt k vote t ∧ Left rt k vote t := by
    induction h with
    | refl => exact ⟨hs, hlisted, hleft⟩
    | tail _ hstep ih =>
      obtain ⟨hreach, hin, hout⟩ := ih
      obtain ⟨s₀, hs₀, hrun⟩ := hreach
      exact ⟨⟨s₀, hs₀, hrun.tail hstep.1⟩, hstep.2,
        hstep.1.left laws (Reachable.registry laws ⟨s₀, hs₀, hrun⟩) hin hout⟩
  exact hall.2.2

/-! ## Records -/

/-- A sound list is cleaned of all its removed entries. -/
theorem Solvent.cleaned_left (h : Solvent rt k keeper steady w p l) (hv : v ∈ l.cleaned.validators) :
    v.status ≠ StakeStatus.readyForRemoval.toPod := by
  intro hstatus
  obtain ⟨hmem, hkept⟩ := List.mem_filter.mp hv
  obtain ⟨st, hsound⟩ := h.entries v hmem
  obtain rfl := hsound.status_unique hstatus
  obtain ⟨hactive, htransient⟩ : v.activeStakeLamports = 0 ∧ v.transientStakeLamports = 0 :=
    hsound.agrees
  simp [ValidatorStakeInfo.isRemoved, PodStakeStatus.toStatus?_eq_some.mpr hstatus, hactive,
    htransient] at hkept

/-- What an update has visited it has counted. -/
theorem UpdateListRun.counted (stakes : StakeLaws rt) {startIndex : UInt32} {noMerge : Bool}
    (r : UpdateListRun rt sv accounts startIndex noMerge w w')
    (hkeeper : keeper = ⟨r.authority.key, r.p.lockup⟩)
    (hapart : Apart rt r.pool.key r.p.reserveStake r.l)
    (h : Solvent rt r.pool.key keeper steady w r.p r.l) {i : Nat}
    (hi : Visits rt r.pool.key startIndex.toNat (r.l.validators.drop startIndex.toNat)
      (stakePairs (accounts.drop 7)) i) (hv : r.after.validators[i]? = some v) :
    ∃ st, Sound rt keeper steady (cellAt rt r.pool.key r.settled v) st ∧
      Counted (cellAt rt r.pool.key r.settled v) st := by
  obtain rfl : keeper = r.context.keeper := hkeeper
  obtain ⟨info, hheld, -⟩ := h.reserve
  obtain ⟨visited, hrun, hvisited, -⟩ := r.row_run stakes hapart ⟨info, hheld.data⟩
  have hsound : ∀ x ∈ (row rt r.pool.key r.p.reserveStake w r.l.validators).cells,
      ∃ st, Sound rt r.context.keeper steady x st := by
    intro x hx
    obtain ⟨v, hv, rfl⟩ := List.mem_map.mp hx
    exact h.entries v hv
  obtain ⟨-, hcounted⟩ := hrun.leaves
    (Q := fun x => ∃ st, Sound rt r.context.keeper steady x st ∧ Counted x st)
    (fun x x' n hx hvisit => by
      obtain ⟨st, hst⟩ := hx
      obtain ⟨st', hst', hcounted, -⟩ := hst.visit stakes hvisit
      exact ⟨⟨st', hst'⟩, st', hst', hcounted⟩) hsound
  refine hcounted i ((hvisited i).mpr hi) _ ?_
  simp only [row, List.getElem?_map, hv, Option.map_some]

theorem Reachable.left_of_mem (laws : ProgramLaws rt) (hs : Reachable rt s)
    (hp : PoolAt rt s.ledger k p) (hl : ListAt rt s.ledger p.validatorList l) (hv : v ∈ l.validators)
    (hleft : v.status ≠ StakeStatus.active.toPod) : Left rt k v.voteAccountAddress s := by
  intro q m hq hm u hu hvote
  obtain rfl := hq.unique hp
  obtain rfl := hm.unique hl
  have hdistinct := (hs.listWellFormed laws hp hl).distinct
  rw [List.inj_on_of_nodup_map hdistinct hu hv hvote]
  exact hleft

/-- Status and records agree in every run.  An entry that has left `Active` does not come back while
it is listed.  A cleanup keeps the sum of the records and drops exactly the removed entries.  An update
leaves no entry it visits waiting for validator stake that is not on record, as no entry ever waits
for transient stake that is not. -/
theorem status_machine_agrees (laws : ProgramLaws rt) (addresses : AddressLaws rt)
    (system : SystemLaws rt) (stakes : StakeLaws rt)
    (hderived : (findDepositAuthorityProgramAddress rt k).1 ≠ (poolKeeper rt k).authority)
    (h : PoolRun rt k steady s) (hp : PoolAt rt s.ledger k p)
    (hl : ListAt rt s.ledger p.validatorList l) :
    (∀ v ∈ l.validators, ∃ st : StakeStatus, v.status = st.toPod ∧
      st.Agrees v.activeStakeLamports v.transientStakeLamports) ∧
    (∀ v ∈ l.validators, v.status ≠ StakeStatus.active.toPod → ∀ t,
      Relation.ReflTransGen (fun a b => Moves rt a b ∧ Listed rt k v.voteAccountAddress b) s t →
      Left rt k v.voteAccountAddress t) ∧
    (∀ accounts a s' l', Executes rt accounts .cleanupRemovedValidatorEntries s s' →
      accounts[0]? = some a → a.key = k → ListAt rt s'.ledger p.validatorList l' →
      l'.recorded = l.recorded ∧ ∀ v, v ∈ l'.validators ↔
        v ∈ l.validators ∧ v.status ≠ StakeStatus.readyForRemoval.toPod) ∧
    (∀ accounts a n noMerge s' l', Executes rt accounts (.updateValidatorListBalance n noMerge) s s' →
      accounts[0]? = some a → a.key = k → ListAt rt s'.ledger p.validatorList l' →
      ∀ i v, Visits rt k n.toNat (l.validators.drop n.toNat) (stakePairs (accounts.drop 7)) i →
        l'.validators[i]? = some v → ∃ st : StakeStatus, v.status = st.toPod ∧
          (st = .deactivatingValidator ∨ st = .deactivatingAll → 0 < v.activeStakeLamports)) := by
  obtain ⟨hkept, hsolvent⟩ := h.solvent laws addresses system stakes hderived hp hl
  refine ⟨fun v hv => ?_, fun v hv hleft t hrun => ?_, fun accounts a s' l' hexec ha hk hl' => ?_,
    fun accounts a n noMerge s' l' hexec ha hk hl' i v hi hv => ?_⟩
  · -- The status of an entry is part of its soundness.
    obtain ⟨st, hst⟩ := hsolvent.entries v hv
    exact ⟨st, hst.status, hst.agrees⟩
  · -- An entry that has left Active stays left along any run.
    exact (h.reachable.left_of_mem laws hp hl hv hleft).run laws h.reachable ⟨p, l, hp, hl, v, hv, rfl⟩
      hrun
  · -- The cleanup drops exactly those that are ready, which record no stake.
    obtain ⟨r⟩ := processCleanupRemovedValidatorEntries_run rt hexec.run
    subst hk
    obtain ⟨_, -, he⟩ : ∃ p', (p' = p ∨ p' = p.keepListed l.cleaned) ∧
        BookEffect rt s.sysvars accounts s.ledger s'.ledger a.key p l p' l.cleaned :=
      r.effect laws ha hp hl
    obtain rfl := hl'.unique he.list
    refine ⟨l.recorded_cleaned, fun v => ⟨fun hv => ⟨(List.mem_filter.mp hv).1,
      hsolvent.cleaned_left hv⟩, fun hv => List.mem_filter.mpr ⟨hv.1, ?_⟩⟩⟩
    have hnot : v.status.toStatus? ≠ some .readyForRemoval := fun heq =>
      hv.2 (PodStakeStatus.toStatus?_eq_some.mp heq)
    simp [ValidatorStakeInfo.isRemoved, hnot]
  · obtain ⟨r⟩ := (processUpdateValidatorListBalance_run rt _).mp hexec.run
    subst hk
    have he := r.effect laws ha hp hl
    obtain rfl := hl'.unique he.list
    obtain rfl := Option.some.inj (ha.symm.trans r.pool_at)
    obtain rfl := hp.unique r.isPool
    obtain rfl := hl.unique (by rw [← r.list_key]; exact r.isList)
    obtain ⟨st, hst, hcounted⟩ := r.counted stakes (hkept.keeper_eq r.isAuthority)
      (h.orderly.apart _ _ hp hl) hsolvent hi hv
    refine ⟨st, hst.status, fun hwaits => hcounted.active ?_⟩
    rcases hwaits with rfl | rfl
    · exact .inr (.inl rfl)
    · exact .inr (.inr rfl)

namespace Reference

def removeAccounts : List AccountMeta :=
  [writes pool, signs staker, reads withdrawAuthority, writes validatorList, writes validatorStake,
    reads transientStake, reads runtime.clockId, reads stakeProgramId]

/-- The pool whose one validator has been removed. -/
def departing : World := staked.execute runtime removeAccounts .removeValidatorFromPool

theorem departing_checks :
    (succeeded (processInstruction runtime staked.sysvars removeAccounts .removeValidatorFromPool staked.ledger) =
        true ∧
      StakePoolInstruction.tryFromSlice [2] = .ok .removeValidatorFromPool ∧
      (∀ b ∈ removeAccounts, b.key = (poolKeeper runtime pool).authority → b.isSigner = false) ∧
      departing.sysvars.epoch < epochMax ∧ 0 < departing.sysvars.minimumBalance stakeSpace ∧
      passes runtime pool (apartIn runtime pool) departing = true) ∧
    (loadStakePool runtime departing.ledger pool).toOption.map (·.validatorList) = some validatorList ∧
    (loadValidatorList runtime departing.ledger validatorList).toOption.map
      (fun l => l.validators.map (·.status)) = some [StakeStatus.deactivatingValidator.toPod] := by
  decide +kernel

theorem departing_run : PoolRun runtime pool steady departing := by
  obtain ⟨⟨hsucceeded, hdecoded, hunsigned, hepoch, hrent, hpasses⟩, -⟩ := departing_checks
  exact staked_run.executes (.of_succeeded hsucceeded) [2] hdecoded rfl rfl hunsigned
    (.of_passes hepoch hrent hpasses)

end Reference

open Reference in
/-- The reference pool whose one validator has been removed, and stays so in every run. -/
theorem status_machine_agrees_departing : ∃ p l, PoolAt runtime departing.ledger pool p ∧
    ListAt runtime departing.ledger p.validatorList l ∧
    l.validators.map (·.status) = [StakeStatus.deactivatingValidator.toPod] ∧
    ∀ v ∈ l.validators, (∃ st : StakeStatus, v.status = st.toPod ∧
        st.Agrees v.activeStakeLamports v.transientStakeLamports) ∧
      ∀ t, Relation.ReflTransGen (fun a b => Moves runtime a b ∧ Listed runtime pool v.voteAccountAddress b)
        departing t → Left runtime pool v.voteAccountAddress t := by
  obtain ⟨-, hpool, hentries⟩ := departing_checks
  obtain ⟨p, hp, hlist⟩ : ∃ p, PoolAt runtime departing.ledger pool p ∧ p.validatorList = validatorList :=
    PoolAt.of_load _ hpool
  obtain ⟨l, hl, hstatuses⟩ : ∃ l, ListAt runtime departing.ledger validatorList l ∧
      l.validators.map (·.status) = [StakeStatus.deactivatingValidator.toPod] :=
    ListAt.of_load _ hentries
  have hrun : PoolRun runtime pool True departing := departing_run
  rw [← hlist] at hl
  obtain ⟨hagrees, hleft, -⟩ := status_machine_agrees programLaws addressLaws systemLaws stakeLaws
    derived_apart hrun hp hl
  refine ⟨p, l, hp, hl, hstatuses, fun v hv => ⟨hagrees v hv, hleft v hv ?_⟩⟩
  have hstatus := List.mem_map_of_mem (f := (·.status)) hv
  rw [hstatuses, List.mem_singleton] at hstatus
  rw [hstatus]
  decide

end StakePoolFogo
