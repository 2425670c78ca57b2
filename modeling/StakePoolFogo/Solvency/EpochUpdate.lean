import StakePoolFogo.Solvency.Modes
import StakePoolFogo.Solvency.Removal
import StakePoolFogo.Withdrawable

/-!
# The update of an epoch

The instructions of `update_stake_pool`, sent one after another: the cranks of the chunks in any order, the
update of the pool and the cleanup.  All of them succeed, and they leave the pool up to date.
-/

open StakePoolFogo.Checked StakePoolFogo.Outcome

namespace StakePoolFogo

/-! ## The cranks -/

/-- A crank for some entries of the list with their accounts. -/
def IsChunkCrank (rt : Runtime) (k : Pubkey) (p : StakePool) (l : ValidatorList) (noMerge : Bool)
    (b : BuiltInstruction) : Prop :=
  ∃ accounts startIndex, b.call = (accounts, .updateValidatorListBalance startIndex noMerge) ∧
    ChunkAccounts rt k p l accounts startIndex

/-- The program's cranks are cranks for their chunks. -/
theorem Builder.chunkCrank_isChunkCrank {rt : Runtime} {k : Pubkey} {p : StakePool} {l : ValidatorList}
    {noMerge : Bool} {n : Nat} {chunk : List ValidatorStakeInfo}
    (hsize : l.validators.length ≤ maxValidatorsInPool)
    (hchunk : (Chunks.chunks maxValidatorsToUpdate l.validators)[n]? = some chunk) :
    IsChunkCrank rt k p l noMerge (chunkCrank rt k p noMerge n chunk) := by
  refine ⟨_, _, rfl, rfl, ?_, chunk.length, ?_, ?_⟩
  · intro a ha
    rcases List.mem_append.mp ha with hfixed | hpair
    · rcases List.mem_pair.mp hfixed with rfl | rfl <;> rfl
    · obtain ⟨_, -, rfl⟩ := List.mem_map.mp hpair
      rfl
  · obtain ⟨-, hbound, -⟩ := buildChunk_eq hsize hchunk
    rw [UInt32.toNat_ofNat_of_lt' (chunk_start_lt hsize hchunk)]
    exact hbound
  · obtain ⟨-, -, hslice⟩ := buildChunk_eq hsize hchunk
    rw [UInt32.toNat_ofNat_of_lt' (chunk_start_lt hsize hchunk), ← List.map_drop, ← List.map_take, hslice]
    show ((chunk.flatMap (entryPair rt k)).map fun key => AccountMeta.new key false).map (·.key) = _
    rw [List.map_map, show (AccountMeta.key ∘ fun key => AccountMeta.new key false) = id from rfl, List.map_id,
      List.flatMap_map]
    rfl

/-- Two cranks without a position in common. -/
def DisjointCranks (b b' : BuiltInstruction) : Prop :=
  ∀ n, (crankOf b.call).pairAt n = none ∨ (crankOf b'.call).pairAt n = none

section Cranks

variable {rt : Runtime} {sv : Sysvars} {k : Pubkey} {steady : Prop} {noMerge : Bool} {s t : World}
  {p : StakePool} {l m : ValidatorList} {accounts : List AccountMeta} {startIndex : UInt32}
  {visited : Nat → Prop}

/-- What an update visits it has accounts for. -/
theorem pairAt_of_visits {vs : List ValidatorStakeInfo} {i : Nat}
    (h : Visits rt k startIndex.toNat vs (stakePairs (accounts.drop 7)) i) :
    (updateCrank accounts startIndex).pairAt i ≠ none := by
  obtain ⟨j, v, pair, rfl, -, hpair, -⟩ := h
  rw [Crank.pairAt, updateCrank, if_pos (Nat.le_add_right _ _), Nat.add_sub_cancel_left, hpair]
  exact Option.some_ne_none pair

/-- The entry at the same position, with the same addresses. -/
theorem same_getElem? (hsame : m.validators.map (ownAddresses rt k) = l.validators.map (ownAddresses rt k))
    {i : Nat} {v : ValidatorStakeInfo} (hv : l.validators[i]? = some v) :
    ∃ u, m.validators[i]? = some u ∧ ownAddresses rt k u = ownAddresses rt k v := by
  have hget := congrArg (·[i]?) hsame
  simp only [List.getElem?_map, hv, Option.map_some] at hget
  exact Option.map_eq_some_iff.mp hget

/-- An update succeeds if, in merging mode, no entry it has the accounts of is blocked. -/
theorem Crankable.updates (stakes : StakeLaws rt) (merges : MergeLaws rt) (phases : PhaseLaws rt)
    {w : Ledger} (h : Crankable rt k p w l) (hrewards : sv.epochRewardsActive = false)
    (hsound : ∀ v ∈ l.validators, ∃ st, Sound rt (poolKeeper rt k) False (cellAt rt k w v) st)
    (hchunk : ChunkAccounts rt k p l accounts startIndex)
    (hclear : noMerge = false → ∀ (i : Nat) v, l.validators[i]? = some v →
      (updateCrank accounts startIndex).Addresses rt k i v → ¬ (cellAt rt k w v).Blocked sv.epoch) :
    ∃ w', ∃ r : UpdateListRun rt sv accounts startIndex noMerge w w', r.pool.key = k := by
  cases noMerge with
  | true => exact h.run stakes merges hrewards hchunk
  | false => exact h.merges stakes merges phases hrewards hsound hchunk (hclear rfl)

variable (laws : ProgramLaws rt) (addresses : AddressLaws rt) (system : SystemLaws rt) (stakes : StakeLaws rt)
  (hderived : (findDepositAuthorityProgramAddress rt k).1 ≠ (poolKeeper rt k).authority)
  (merges : MergeLaws rt) (phases : PhaseLaws rt)

include laws addresses system stakes hderived

/-- What is left to visit is as it was before the first crank, and sound like all the rest. -/
theorem PoolRun.cranked_cells (h : PoolRun rt k steady s) (hp : PoolAt rt s.ledger k p)
    (hl : ListAt rt s.ledger p.validatorList l) (hcranks : Cranks rt k noMerge s visited t)
    (hm : ListAt rt t.ledger p.validatorList m) : t.sysvars = s.sysvars ∧ PoolAt rt t.ledger k p ∧
      (∀ u ∈ m.validators, ∃ st, Sound rt (poolKeeper rt k) False (cellAt rt k t.ledger u) st) ∧
      ∀ (i : Nat) u, ¬ visited i → m.validators[i]? = some u →
        ∃ v, l.validators[i]? = some v ∧ cellAt rt k t.ledger u = cellAt rt k s.ledger v := by
  obtain ⟨hkept, hsolvent⟩ := h.solvent laws addresses system stakes hderived hp hl
  obtain ⟨m', hto⟩ := h.cranks laws addresses system stakes hderived hp hl hcranks
  obtain rfl := hto.list.unique hm
  obtain ⟨positions, hrun, hpositions⟩ := hto.run
  have hkeeper := hkept.crankContext noMerge
  refine ⟨hto.sysvars, hto.pool, ?_, fun i u hi hu => ?_⟩
  · have hsound : ∀ x ∈ (row rt k p.reserveStake s.ledger l.validators).cells,
        ∃ st, Sound rt (crankContext rt k p noMerge).keeper False x st := by
      intro x hx
      obtain ⟨v, hv, rfl⟩ := List.mem_map.mp hx
      obtain ⟨st, hst⟩ := hsolvent.entries v hv
      rw [hkeeper]
      exact ⟨st, { hst with delegated := False.elim, stopped := False.elim }⟩
    obtain ⟨hafter, -⟩ := hrun.leaves (Q := fun _ => True) (fun x x' n hx hvisit => by
      obtain ⟨st, hst⟩ := hx
      obtain ⟨st', hst', -⟩ := hst.visit stakes hvisit
      exact ⟨⟨st', hst'⟩, trivial⟩) hsound
    intro u hu
    rw [← hkeeper]
    exact hafter _ (List.mem_map_of_mem hu)
  · have hcell := hrun.kept fun hin => hi ((hpositions i).mp hin)
    simp only [row, List.getElem?_map, hu, Option.map_some] at hcell
    obtain ⟨v, hv, hcell⟩ := Option.map_eq_some_iff.mp hcell.symm
    exact ⟨v, hv, hcell.symm⟩

include merges phases

/-- Cranks for chunks without a position in common, none of which has been visited, all succeed. -/
theorem PoolRun.cranks_succeed (h : PoolRun rt k steady s) (hp : PoolAt rt s.ledger k p)
    (hl : ListAt rt s.ledger p.validatorList l) (hrewards : s.sysvars.epochRewardsActive = false)
    (hclear : noMerge = false → ∀ v ∈ l.validators, ¬ (cellAt rt k s.ledger v).Blocked s.sysvars.epoch)
    (hcranks : Cranks rt k noMerge s visited t) (hcrankable : Crankable rt k p t.ledger m)
    (hsame : m.validators.map (ownAddresses rt k) = l.validators.map (ownAddresses rt k))
    (bs : List BuiltInstruction) (hchunks : ∀ b ∈ bs, IsChunkCrank rt k p l noMerge b)
    (honce : bs.Pairwise DisjointCranks)
    (hnew : ∀ b ∈ bs, ∀ i, visited i → (crankOf b.call).pairAt i = none) :
    ∃ t' visited' m', processAll rt s.sysvars (bs.map BuiltInstruction.call) t.ledger = .ok t'.ledger ∧
      Cranks rt k noMerge s visited' t' ∧ Crankable rt k p t'.ledger m' ∧ m'.votes = m.votes ∧
      (∀ i, visited i → visited' i) ∧ ∀ b ∈ bs, ∀ (i : Nat) v, l.validators[i]? = some v →
        (crankOf b.call).Addresses rt k i v → visited' i := by
  induction bs generalizing t visited m with
  | nil => exact ⟨t, visited, m, rfl, hcranks, hcrankable, rfl, fun _ hi => hi, by simp⟩
  | cons b bs ih =>
    obtain ⟨accounts, startIndex, hcall, hchunk⟩ := hchunks b List.mem_cons_self
    obtain ⟨hsysvars, -, hsound, hcells⟩ := h.cranked_cells laws addresses system stakes hderived hp hl hcranks
      hcrankable.list
    have hfresh : ∀ i, visited i → (updateCrank accounts startIndex).pairAt i = none := by
      intro i hi
      have hnone := hnew b List.mem_cons_self i hi
      rw [hcall] at hnone
      exact hnone
    have hupdate : ∃ w', ∃ r : UpdateListRun rt t.sysvars accounts startIndex noMerge t.ledger w',
        r.pool.key = k := by
      apply hcrankable.updates stakes merges phases _ hsound (hchunk.congr hsame)
      · intro hmode i u hu haddressed
        have hi : ¬ visited i := by
          intro hi
          obtain ⟨pair, hpair, -⟩ := haddressed
          rw [hfresh i hi] at hpair
          cases hpair
        obtain ⟨v, hv, hcell⟩ := hcells i u hi hu
        rw [hcell, hsysvars]
        exact hclear hmode v (List.mem_of_getElem? hv)
      · rw [hsysvars]
        exact hrewards
    obtain ⟨w', r, rfl⟩ := hupdate
    obtain ⟨hafter, hsame'⟩ := hcrankable.after laws stakes r
    have hexecutes : Executes rt accounts (.updateValidatorListBalance startIndex noMerge) t ⟨t.sysvars, w'⟩ :=
      ⟨(processUpdateValidatorListBalance_run rt _).mpr ⟨r⟩, rfl⟩
    -- The positions of the other cranks are still to be visited.
    obtain ⟨t', visited', m', hrest, hcranks', hcrankable', hvotes, hmore, hall⟩ := ih
      (.call hcranks hexecutes r.pool_at rfl hcrankable.pool hcrankable.list) hafter (hsame'.trans hsame)
      (fun b' hb' => hchunks b' (List.mem_cons_of_mem _ hb')) (List.pairwise_cons.mp honce).2 (by
        rintro b' hb' i (hi | hi)
        · exact hnew b' (List.mem_cons_of_mem _ hb') i hi
        · apply ((List.pairwise_cons.mp honce).1 b' hb' i).resolve_left
          rw [hcall]
          exact pairAt_of_visits hi)
    refine ⟨t', visited', m', ?_, hcranks', hcrankable', hvotes.trans ?_, fun i hi => hmore i (.inl hi), ?_⟩
    · refine bind_eq_ok.mpr ⟨w', ?_, hrest⟩
      show processInstruction rt s.sysvars b.call.1 b.call.2 t.ledger = .ok w'
      rw [hcall, ← hsysvars]
      exact hexecutes.run
    · have hlist : ListAt rt t.ledger p.validatorList r.l := by
        rw [hcrankable.pool.unique r.isPool, ← r.list_key]
        exact r.isList
      rw [r.votes, hcrankable.list.unique hlist]
    · intro b' hb' i v hv haddressed
      rcases List.mem_cons.mp hb' with rfl | hb'
      · rw [hcall] at haddressed
        obtain ⟨u, hu, hown⟩ := same_getElem? hsame hv
        obtain ⟨pair, hpair, hstake, htransient⟩ := haddressed
        obtain ⟨hstake', htransient'⟩ := Prod.mk.inj hown
        exact hmore i (.inr (visits_of_addresses hu
          ⟨pair, hpair, hstake'.trans hstake, htransient'.trans htransient⟩))
      · exact hall b' hb' i v hv haddressed

end Cranks

/-! ## The update of the pool -/

section UpdatePool

variable {rt : Runtime} {sv : Sysvars} {k : Pubkey} {p : StakePool} {l : ValidatorList} {w w' : Ledger}

/-- Fresh entries add up if the sum fits. -/
theorem sumStakeLamports_succeeds {epoch : Epoch} {vs : List ValidatorStakeInfo} (n : Nat)
    (hfresh : ∀ v ∈ vs, ¬ v.lastUpdateEpoch < epoch)
    (hfits : n + (vs.map ValidatorStakeInfo.recorded).sum < 2 ^ 64) :
    sumStakeLamports epoch n vs = .ok (n + (vs.map ValidatorStakeInfo.recorded).sum) := by
  induction vs generalizing n with
  | nil => rfl
  | cons v vs ih =>
    rw [List.map_cons, List.sum_cons] at hfits ⊢
    have hstake : raise v.stakeLamports = .ok v.recorded := by
      rw [raise_eq_ok, ValidatorStakeInfo.stakeLamports, okOr_eq_ok, checkedAdd_eq_some]
      exact ⟨rfl, show v.recorded < 2 ^ 64 by omega⟩
    have hsum : checkedAdd 64 n v.recorded = some (n + v.recorded) :=
      checkedAdd_eq_some.mpr ⟨rfl, by omega⟩
    rw [← Nat.add_assoc] at hfits ⊢
    have hrest := ih (n + v.recorded) (fun u hu => hfresh u (List.mem_cons_of_mem _ hu)) hfits
    simp only [sumStakeLamports, bind_eq_ok, failIf_eq_ok, exists_unit, okOr_eq_ok]
    exact ⟨hfresh v List.mem_cons_self, _, hstake, _, hsum, hrest⟩

theorem reserveLamports_succeeds {keeper : Keeper} {a : Account} {info : StakeMeta}
    (h : HeldAs rt keeper a (.initialized info) info) :
    reserveLamports a = .ok (a.lamports - minimumReserveLamports info) := by
  have hle : minimumReserveLamports info ≤ a.lamports :=
    Nat.le_trans (minimumReserveLamports_le info) h.exempt
  simp only [reserveLamports, h.tryStakeState, ok_bind, okOr_eq_ok, checkedSub_eq_some]
  omega

/-- The epoch fee on this reward can be computed and minted. -/
def FeePayable (rt : Runtime) (k : Pubkey) (p : StakePool) (w : Ledger) (reward : Nat) : Prop :=
  ∃ fee, epochFeeAmount p (w p.managerFeeAccount) reward = .ok fee ∧
    ∃ w', onlyIf (fee > 0) (tokenMintTo rt k p.tokenProgramId p.poolMint p.managerFeeAccount
      (AccountMeta.newReadonly (poolKeeper rt k).authority false) p.stakeWithdrawBumpSeed fee) w = .ok w'

theorem feePayable_iff {reward : Nat} : FeePayable rt k p w reward ↔
    succeeded (do
      let fee ← epochFeeAmount p (w p.managerFeeAccount) reward
      onlyIf (fee > 0) (tokenMintTo rt k p.tokenProgramId p.poolMint p.managerFeeAccount
        (AccountMeta.newReadonly (poolKeeper rt k).authority false) p.stakeWithdrawBumpSeed fee) w) = true := by
  rw [succeeded_iff]
  constructor
  · rintro ⟨fee, hfee, w', hw'⟩
    exact ⟨w', bind_eq_ok.mpr ⟨fee, hfee, hw'⟩⟩
  · rintro ⟨w', h⟩
    obtain ⟨fee, hfee, hw'⟩ := bind_eq_ok.mp h
    exact ⟨fee, hfee, w', hw'⟩

instance {reward : Nat} : Decidable (FeePayable rt k p w reward) :=
  decidable_of_iff _ feePayable_iff.symm

/-- Minting depends on the mint and the destination only. -/
theorem tokenMintTo_congr {pool tokenProgram mint destination : Pubkey} {authority : AccountMeta} {bump : UInt8}
    {amount : Nat} {u : Ledger} (h : tokenMintTo rt pool tokenProgram mint destination authority bump amount w =
      .ok u) (hmint : w' mint = w mint) (hdestination : w' destination = w destination) :
    ∃ u', tokenMintTo rt pool tokenProgram mint destination authority bump amount w' = .ok u' := by
  simp only [tokenMintTo, bind_eq_ok, exists_unit, invoke₂_eq_ok] at h ⊢
  rw [hmint, hdestination]
  obtain ⟨hprogram, hsigned, hne, a, b, hf, ha, hb, hlamports, -⟩ := h
  exact ⟨_, hprogram, hsigned, hne, a, b, hf, ha, hb, hlamports, rfl⟩

/-- Minting, if at all, leaves a mint and the record of the pool. -/
theorem onlyIf_tokenMintTo_at (tokens : TokenLaws rt) (hp : PoolAt rt w k p)
    {pool tokenProgram mint destination : Pubkey} {authority : AccountMeta} {bump : UInt8} {amount : Nat}
    {before : Mint} (hmint : (w mint).data = .mint before) (h : onlyIf (amount > 0)
      (tokenMintTo rt pool tokenProgram mint destination authority bump amount) w = .ok w') :
    (∃ after, (w' mint).data = .mint after) ∧ w' k = w k := by
  rcases onlyIf_eq_ok.mp h with ⟨-, hcall⟩ | ⟨-, rfl⟩
  · simp only [tokenMintTo, bind_eq_ok, exists_unit] at hcall
    obtain ⟨hne, a, b, hf, -, -, -, rfl⟩ := invoke₂_eq_ok.mp hcall.2.2
    obtain ⟨m, t, -, -, htoken, -, hafter, -⟩ := tokens.mintTo _ _ _ _ _ _ _ hf
    have hk : k ≠ mint := by
      rintro rfl
      cases hp.data.symm.trans hmint
    have hk' : k ≠ destination := by
      rintro rfl
      cases hp.data.symm.trans htoken
    constructor
    · rw [Ledger.set_other _ _ hne, Ledger.set_same]
      exact ⟨_, hafter⟩
    · rw [Ledger.set_other _ _ hk', Ledger.set_other _ _ hk]
  · exact ⟨⟨before, hmint⟩, rfl⟩

/-- A fee that takes effect leaves the queue, so the record only shrinks. -/
theorem StakePool.packedLen_advanceEpoch (p : StakePool) (epoch : Epoch) :
    (p.advanceEpoch epoch).packedLen ≤ p.packedLen := by
  have hfee : ∀ f : FutureEpoch Fee, (if f.updateEpoch.pending.isSome then 16 else 0) ≤
      (if f.pending.isSome then 16 else 0) := by
    intro f
    cases f with
    | none | one | two => exact Nat.le_of_ble_eq_true rfl
  unfold advanceEpoch
  split
  · simp only [packedLen]
    gcongr 435 + _ + _ + _ + _ + ?_ + ?_ + ?_
    · exact hfee _
    · exact hfee _
    · exact hfee _
  · exact Nat.le_refl _

variable (sv) in
/-- The update of the pool succeeds once the list is fresh. -/
theorem updatePool_succeeds (tokens : TokenLaws rt) (hp : PoolAt rt w k p)
    (hl : ListAt rt w p.validatorList l) (hkept : KeptBy rt k (poolKeeper rt k) p) {info : StakeMeta}
    (hreserve : HeldAs rt (poolKeeper rt k) (w p.reserveStake) (.initialized info) info) {before : Mint}
    (hmint : (w p.poolMint).data = .mint before) (hfresh : ∀ v ∈ l.validators, ¬ v.lastUpdateEpoch < sv.epoch)
    (hfits : (w p.reserveStake).lamports + l.recorded < 2 ^ 64)
    (hroom : p.packedLen ≤ (w k).dataLen)
    (hfee : FeePayable rt k p w
      ((w p.reserveStake).lamports + l.recorded - minimumReserveLamports info - p.totalLamports)) :
    ∃ w', processInstruction rt sv (Builder.updateStakePoolBalance k (poolKeeper rt k).authority p.validatorList
      p.reserveStake p.managerFeeAccount p.poolMint p.tokenProgramId).accounts .updateStakePoolBalance w =
      .ok w' := by
  have hle : minimumReserveLamports info ≤ (w p.reserveStake).lamports :=
    Nat.le_trans (minimumReserveLamports_le info) hreserve.exempt
  have hrecorded : l.recorded = (l.validators.map ValidatorStakeInfo.recorded).sum := rfl
  have hsum := sumStakeLamports_succeeds ((w p.reserveStake).lamports - minimumReserveLamports info) hfresh
    (by omega)
  have htotal : (w p.reserveStake).lamports - minimumReserveLamports info +
      (l.validators.map ValidatorStakeInfo.recorded).sum =
      (w p.reserveStake).lamports + l.recorded - minimumReserveLamports info := by omega
  -- The sum of the handler is the worth that the fee was checked for.
  rw [htotal] at hsum
  obtain ⟨fee, hamount, minted, hcharge⟩ := hfee
  obtain ⟨⟨after, hafter⟩, hpool⟩ := onlyIf_tokenMintTo_at tokens hp hmint hcharge
  refine ⟨_, (processUpdateStakePoolBalance_run rt sv).mpr ⟨{
    pool := AccountMeta.new k false
    authority := AccountMeta.newReadonly (poolKeeper rt k).authority false
    list := AccountMeta.new p.validatorList false
    reserve := AccountMeta.newReadonly p.reserveStake false
    managerFee := AccountMeta.new p.managerFeeAccount false
    mint := AccountMeta.new p.poolMint false
    tokenProgram := AccountMeta.newReadonly p.tokenProgramId false
    p, l, before, fee, minted, after
    inReserve := _
    total := _
    pool_at := rfl
    authority_at := rfl
    list_at := rfl
    reserve_at := rfl
    managerFee_at := rfl
    mint_at := rfl
    tokenProgram_at := rfl
    isPool := hp
    mint_key := rfl
    mint_before := hmint
    isAuthority := hkept.authority
    isReserve := rfl
    isManagerFee := rfl
    list_key := rfl
    token_key := rfl
    isList := hl
    in_reserve := reserveLamports_succeeds hreserve
    sum := hsum
    fee_eq := hamount
    mint_fee := hcharge
    mint_after := hafter
    result := writeStakePool_eq_ok.mpr ⟨?_, rfl⟩ }⟩⟩
  -- The new epoch makes the record no longer than the account.
  show (p.advanceEpoch sv.epoch).packedLen ≤ (minted k).dataLen
  rw [hpool]
  exact Nat.le_trans (p.packedLen_advanceEpoch _) hroom

/-- So do both instructions that follow the cranks. -/
theorem finalInstructions_succeed (laws : ProgramLaws rt) (tokens : TokenLaws rt) (hp : PoolAt rt w k p)
    (hl : ListAt rt w p.validatorList l) (hkept : KeptBy rt k (poolKeeper rt k) p) {info : StakeMeta}
    (hreserve : HeldAs rt (poolKeeper rt k) (w p.reserveStake) (.initialized info) info) {before : Mint}
    (hmint : (w p.poolMint).data = .mint before) (hfresh : ∀ v ∈ l.validators, ¬ v.lastUpdateEpoch < sv.epoch)
    (hfits : (w p.reserveStake).lamports + l.recorded < 2 ^ 64)
    (hroom : p.packedLen ≤ (w k).dataLen)
    (hfee : FeePayable rt k p w
      ((w p.reserveStake).lamports + l.recorded - minimumReserveLamports info - p.totalLamports)) :
    ∃ w' q, processAll rt sv ((Builder.finalInstructions p k (poolKeeper rt k).authority).map
        BuiltInstruction.call) w = .ok w' ∧
      PoolAt rt w' k q ∧ ListAt rt w' p.validatorList l.cleaned ∧ ¬ q.lastUpdateEpoch < sv.epoch ∧
      q.totalLamports + minimumReserveLamports info = (w p.reserveStake).lamports + l.recorded := by
  obtain ⟨w₁, hupdate⟩ := updatePool_succeeds sv tokens hp hl hkept hreserve hmint hfresh hfits hroom hfee
  obtain ⟨r⟩ := (processUpdateStakePoolBalance_run rt _).mp hupdate
  have heffect := r.effect laws (a := AccountMeta.new k false) rfl hp hl
  have hupdated : PoolAt rt w₁ k _ := heffect.own.after
  have hlisted : ListAt rt w₁ p.validatorList l := heffect.list
  have htotal : r.total + minimumReserveLamports info = (w p.reserveStake).lamports + l.recorded := by
    have hfirst : AccountMeta.new k false = r.pool := Option.some.inj r.pool_at
    have hread : PoolAt rt w k r.p := by
      have hread := r.isPool
      rw [← hfirst] at hread
      exact hread
    obtain ⟨info', hinfo', htotal⟩ := r.total_eq
    have hlisted := r.isList
    rw [r.list_key] at hlisted
    rw [hread.unique hp] at hinfo' htotal hlisted
    rw [hlisted.unique hl] at htotal
    cases hreserve.data.symm.trans hinfo'
    exact htotal
  have hlist : ∀ total supply, ({ p.advanceEpoch sv.epoch with
      totalLamports := total, poolTokenSupply := supply } : StakePool).validatorList = p.validatorList := by
    intro total supply
    unfold StakePool.advanceEpoch
    split <;> rfl
  have hsecond : (Builder.cleanupRemovedValidatorEntries k p.validatorList).accounts[1]? =
    some (AccountMeta.new p.validatorList false) := rfl
  obtain ⟨w₂, q, hcleanup, hq, hkept', hm, -⟩ := cleanup_succeeds sv laws hupdated
    (by rw [hlist]; exact hlisted) (heffect.own.room hroom) rfl rfl hsecond (hlist _ _).symm
  rw [hlist] at hm
  refine ⟨w₂, q, ?_, hq, hm, ?_⟩
  · exact bind_eq_ok.mpr ⟨w₁, hupdate, bind_eq_ok.mpr ⟨w₂, hcleanup, rfl⟩⟩
  · -- The cleanup resets preferred validators, and nothing else.
    have hadvanced := p.advanceEpoch_upToDate sv.epoch
    rcases hkept' with rfl | rfl
    · exact ⟨hadvanced, htotal⟩
    · exact ⟨hadvanced, htotal⟩

end UpdatePool

/-! ## The whole update -/

section EpochUpdate

variable {rt : Runtime} {k : Pubkey} {steady : Prop} {noMerge : Bool} {s t : World} {p : StakePool}
  {l m : ValidatorList} {visited : Nat → Prop}

/-- Updates of the list change stake accounts only. -/
theorem CrankedTo.keeps {f : Cell → Except ProgramError (Cell × Nat)} (h : CrankedTo rt k f s p l visited t m)
    {j : Pubkey} (hlist : j ≠ p.validatorList) (hstake : ∀ state, (s.ledger j).data ≠ .stake state) :
    t.ledger j = s.ledger j := by
  rcases h.others j hlist with hsame | ⟨⟨state, hstate⟩, -⟩
  · exact hsame
  · exact absurd hstate (hstake state)

/-- They leave the fee of the epoch payable. -/
theorem CrankedTo.feePayable {f : Cell → Except ProgramError (Cell × Nat)} (tokens : TokenLaws rt)
    (h : CrankedTo rt k f s p l visited t m) (hl : ListAt rt s.ledger p.validatorList l) {reward : Nat}
    (hfee : FeePayable rt k p s.ledger reward) : FeePayable rt k p t.ledger reward := by
  obtain ⟨fee, hamount, w, hcharge⟩ := hfee
  refine ⟨fee, ?_, ?_⟩
  · unfold epochFeeAmount at hamount ⊢
    rw [h.feeUsable hl]
    exact hamount
  rcases onlyIf_eq_ok.mp hcharge with ⟨hpos, hcall⟩ | ⟨hzero, -⟩
  · have hminted := hcall
    simp only [tokenMintTo, bind_eq_ok, exists_unit] at hminted
    obtain ⟨-, a, b, hf, -⟩ := invoke₂_eq_ok.mp hminted.2.2
    obtain ⟨before, token, hmint, -, htoken, -⟩ := tokens.mintTo _ _ _ _ _ _ _ hf
    -- The mint and the fee account are neither the list nor stake accounts.
    have hkept : ∀ {j : Pubkey} {d : AccountData}, (s.ledger j).data = d → (∀ m, d ≠ .validatorList m) →
        (∀ state, d ≠ .stake state) → t.ledger j = s.ledger j := by
      intro j d hd hnoList hnoStake
      apply h.keeps
      · rintro rfl
        exact hnoList l (hd.symm.trans hl.data)
      · rw [hd]
        exact hnoStake
    obtain ⟨w', hw'⟩ := tokenMintTo_congr hcall (hkept hmint (by simp) (by simp)) (hkept htoken (by simp) (by simp))
    exact ⟨w', onlyIf_eq_ok.mpr (.inl ⟨hpos, hw'⟩)⟩
  · exact ⟨t.ledger, onlyIf_eq_ok.mpr (.inr ⟨hzero, rfl⟩)⟩

/-- Merging updates that visit an entry leave it removed if it was leaving and its stakes were at rest. -/
theorem CrankedTo.removed (stakes : StakeLaws rt)
    (h : CrankedTo rt k (visit rt s.sysvars (crankContext rt k p false)) s p l visited t m)
    (hepoch : s.sysvars.epoch < epochMax) {i : Nat} {v : ValidatorStakeInfo} {st : StakeStatus}
    (hsound : Sound rt (crankContext rt k p false).keeper False (cellAt rt k s.ledger v) st)
    (hv : l.validators[i]? = some v) (hi : visited i) (hleft : v.status ≠ StakeStatus.active.toPod)
    (hrest : (cellAt rt k s.ledger v).AtRest s.sysvars.epoch) :
    ∃ u, m.validators[i]? = some u ∧ u.isRemoved = true := by
  obtain ⟨positions, hrun, hpositions⟩ := h.run
  have hleft' : st ≠ .active := by
    rintro rfl
    exact hleft hsound.status
  have hcell : (row rt k p.reserveStake s.ledger l.validators).cells[i]? = some (cellAt rt k s.ledger v) := by
    simp only [row, List.getElem?_map, hv, Option.map_some]
  obtain ⟨x, hx, -, hremoved⟩ := hrun.follow
    (P := fun x => (∃ st, Sound rt (crankContext rt k p false).keeper False x st ∧ st ≠ .active) ∧
      x.AtRest s.sysvars.epoch)
    (Q := fun x => x.entry.isRemoved = true)
    (fun x x' n hx hvisit => by
      obtain ⟨⟨st, hst, hne⟩, hstill⟩ := hx
      obtain ⟨hremoved, -⟩ := hst.removed stakes hne rfl hepoch hstill hvisit
      obtain ⟨st', hst', -⟩ := hst.visit stakes hvisit
      refine ⟨⟨⟨st', hst', ?_⟩, hremoved.rest⟩, hremoved.isRemoved⟩
      rintro rfl
      exact absurd (StakeStatus.toPod_inj.mp (hst'.status.symm.trans hremoved.status)) (by decide))
    hcell ⟨⟨st, hsound, hleft'⟩, hrest⟩
  simp only [row, List.getElem?_map] at hx
  obtain ⟨u, hu, rfl⟩ := Option.map_eq_some_iff.mp hx
  exact ⟨u, hu, hremoved ((hpositions i).mpr hi)⟩

/-- So the cleanup drops its entry. -/
theorem CrankedTo.unlisted (stakes : StakeLaws rt)
    (h : CrankedTo rt k (visit rt s.sysvars (crankContext rt k p false)) s p l visited t m)
    (hepoch : s.sysvars.epoch < epochMax) (hvotes : m.votes = l.votes) (hdistinct : l.votes.Nodup) {i : Nat}
    {v : ValidatorStakeInfo} {st : StakeStatus}
    (hsound : Sound rt (crankContext rt k p false).keeper False (cellAt rt k s.ledger v) st)
    (hv : l.validators[i]? = some v) (hi : visited i) (hleft : v.status ≠ StakeStatus.active.toPod)
    (hrest : (cellAt rt k s.ledger v).AtRest s.sysvars.epoch) : v.voteAccountAddress ∉ m.cleaned.votes := by
  obtain ⟨u, hu, hremoved⟩ := h.removed stakes hepoch hsound hv hi hleft hrest
  -- The entry at the position of `v` has its vote account.
  have hvote : u.voteAccountAddress = v.voteAccountAddress := by
    have hget := congrArg (·[i]?) hvotes
    simp only [ValidatorList.votes, List.getElem?_map, hu, hv, Option.map_some, Option.some.injEq] at hget
    exact hget
  intro hin
  obtain ⟨u', hu', hsame⟩ := List.mem_map.mp hin
  obtain ⟨hmem, hstays⟩ := List.mem_filter.mp hu'
  rw [← hvotes] at hdistinct
  obtain rfl := List.inj_on_of_nodup_map hdistinct hmem (List.mem_of_getElem? hu) (hsame.trans hvote.symm)
  simp [hremoved] at hstays

section Built

variable (laws : ProgramLaws rt) (addresses : AddressLaws rt) (system : SystemLaws rt) (stakes : StakeLaws rt)
  (hderived : (findDepositAuthorityProgramAddress rt k).1 ≠ (poolKeeper rt k).authority)
  (merges : MergeLaws rt) (phases : PhaseLaws rt)

include laws addresses system stakes hderived merges phases

/-- The program's cranks succeed in any order, and visit every entry. -/
theorem PoolRun.built_cranks_succeed (h : PoolRun rt k steady s) (hp : PoolAt rt s.ledger k p)
    (hl : ListAt rt s.ledger p.validatorList l)
    (hgenuine : ∀ v ∈ l.validators, GenuineAt rt (v.stakeKey rt k) s.ledger)
    (hrewards : s.sysvars.epochRewardsActive = false)
    (hclear : noMerge = false → ∀ v ∈ l.validators, ¬ (cellAt rt k s.ledger v).Blocked s.sysvars.epoch)
    {order : List BuiltInstruction} (horder : order.Perm (Builder.chunkCranks rt k p l noMerge)) :
    ∃ t visited m, processAll rt s.sysvars (order.map BuiltInstruction.call) s.ledger = .ok t.ledger ∧
      Cranks rt k noMerge s visited t ∧ Crankable rt k p t.ledger m ∧ m.votes = l.votes ∧
      (∀ i < l.validators.length, visited i) ∧ ∀ v ∈ m.validators, ¬ v.lastUpdateEpoch < s.sysvars.epoch := by
  have hwell := h.reachable.listWellFormed laws hp hl
  have hsize : l.validators.length ≤ maxValidatorsInPool := Nat.le_trans hwell.length_le hwell.max_le
  have hcover : Covering rt k l (fun _ => True) (Builder.chunkCranks rt k p l noMerge) :=
    Builder.chunkCranks_covering hsize
  have hchunks : ∀ b ∈ order, IsChunkCrank rt k p l noMerge b := by
    intro b hb
    obtain ⟨n, hn⟩ := List.getElem?_of_mem (horder.mem_iff.mp hb)
    obtain ⟨chunk, hchunk, rfl⟩ := Builder.chunkCranks_getElem?.mp hn
    exact Builder.chunkCrank_isChunkCrank hsize hchunk
  have honce : order.Pairwise DisjointCranks :=
    (horder.pairwise_iff fun {b b'} hdisjoint n => (hdisjoint n).symm).mpr hcover.once
  obtain ⟨t, visited, m, hrun, hcranks, hcrankable, hvotes, -, hall⟩ := h.cranks_succeed laws addresses system
    stakes hderived merges phases hp hl hrewards hclear .nil
    (h.updatable laws addresses system stakes hderived hp hl hgenuine) rfl order hchunks honce
    (fun _ _ _ hi => hi.elim)
  refine ⟨t, visited, m, hrun, hcranks, hcrankable, hvotes, fun i hi => ?_, ?_⟩
  · obtain ⟨b, hb, haddressed⟩ := hcover.every i _ (List.getElem?_eq_getElem hi) trivial
    exact hall b (horder.mem_iff.mpr hb) i _ (List.getElem?_eq_getElem hi) haddressed
  · obtain ⟨-, m', hm', hfresh⟩ := hcover.refresh laws (fun _ _ _ => trivial) horder hp hl hrun
    obtain rfl := hm'.unique hcrankable.list
    exact hfresh

/-- A pool that has been updated for the epoch of `s`, in which it had the record `p` and the list `l`. -/
structure Updated (rt : Runtime) (k : Pubkey) (p : StakePool) (l : ValidatorList) (noMerge : Bool) (s : World)
    (w : Ledger) (q : StakePool) (m : ValidatorList) : Prop where
  pool : PoolAt rt w k q
  list : ListAt rt w p.validatorList m
  current : ¬ q.lastUpdateEpoch < s.sysvars.epoch
  fresh : ∀ v ∈ m.validators, ¬ v.lastUpdateEpoch < s.sysvars.epoch
  total : ∃ info, (s.ledger p.reserveStake).data = .stake (.initialized info) ∧
    q.totalLamports + minimumReserveLamports info = poolWorth rt k p s.ledger l
  votes : m.votes.Sublist l.votes
  removed : noMerge = false → ∀ v ∈ l.validators, v.status ≠ StakeStatus.active.toPod →
    (cellAt rt k s.ledger v).AtRest s.sysvars.epoch → v.voteAccountAddress ∉ m.votes

/-- The update of an epoch that the program's builder makes, its cranks in any order, succeeds outside
reward distribution if no entry is blocked, the pool's worth fits and its fee can be paid.  It leaves the
pool up to date, with the worth it had as its total, and without the entries of the removed validators whose
stakes are inactive. -/
theorem built_update_completes (tokens : TokenLaws rt) (h : PoolRun rt k steady s)
    (hp : PoolAt rt s.ledger k p) (hl : ListAt rt s.ledger p.validatorList l)
    (hgenuine : ∀ v ∈ l.validators, GenuineAt rt (v.stakeKey rt k) s.ledger)
    (hrewards : s.sysvars.epochRewardsActive = false)
    (hclear : noMerge = false → ∀ v ∈ l.validators, ¬ (cellAt rt k s.ledger v).Blocked s.sysvars.epoch)
    {before : Mint} (hmint : (s.ledger p.poolMint).data = .mint before)
    (hfits : poolWorth rt k p s.ledger l < 2 ^ 64)
    (hfee : ∀ info, (s.ledger p.reserveStake).data = .stake (.initialized info) → FeePayable rt k p s.ledger
      (poolWorth rt k p s.ledger l - minimumReserveLamports info - p.totalLamports)) :
    ∃ updates final, Builder.updateStakePool rt p l k noMerge = some (updates, final) ∧
      ∀ order, order.Perm updates → ∃ w' q m,
        processAll rt s.sysvars ((order ++ final).map BuiltInstruction.call) s.ledger = .ok w' ∧
        Updated rt k p l noMerge s w' q m := by
  have hwell := h.reachable.listWellFormed laws hp hl
  refine ⟨_, _, Builder.updateStakePool_eq (Nat.le_trans hwell.length_le hwell.max_le), fun order horder => ?_⟩
  -- The list updates first, in the order they are sent.
  obtain ⟨t, visited, m, hcranked, hcranks, hcrankable, hvotes, hcover, hfresh⟩ := h.built_cranks_succeed laws
    addresses system stakes hderived merges phases hp hl hgenuine hrewards hclear horder
  obtain ⟨m', hto⟩ := h.cranks laws addresses system stakes hderived hp hl hcranks
  obtain rfl := hto.list.unique hcrankable.list
  -- The pool was solvent before, so the sums that the update forms are what the accounts are worth.
  obtain ⟨hkept, hsolvent⟩ := h.solvent laws addresses system stakes hderived hp hl
  have hentries : ∀ v ∈ l.validators, ∃ st,
      Sound rt (crankContext rt k p noMerge).keeper steady (cellAt rt k s.ledger v) st := by
    rw [hkept.crankContext]
    exact hsolvent.entries
  have hworth := hto.worth stakes hentries hcover
  obtain ⟨info, hreserve⟩ := hcrankable.reserve
  -- The cranks leave the records alone that the final instructions read.
  have hpool : t.ledger k = s.ledger k := by
    apply hto.keeps (hp.ne_list hl)
    simp [hp.data]
  have hmint' : (t.ledger p.poolMint).data = .mint before := by
    rw [hto.keeps _ (by simp [hmint])]
    · exact hmint
    · intro heq
      rw [heq, hl.data] at hmint
      cases hmint
  have hinfo : (s.ledger p.reserveStake).data = .stake (.initialized info) := by
    obtain ⟨n, hcredit⟩ := hto.reserve
    rw [← hreserve.data, hcredit]
    rfl
  -- Then the pool update and the cleanup.
  obtain ⟨w', q, hfinal, hq, hm, hcurrent, htotal⟩ := finalInstructions_succeed laws tokens hto.pool hto.list
    hcrankable.kept hreserve hmint' hfresh (by rw [hworth]; exact hfits)
    (by rw [hpool]; exact h.reachable.roomy laws k p hp)
    (by rw [hworth]; exact hto.feePayable tokens hl (hfee info hinfo))
  refine ⟨w', q, m'.cleaned, ?_, hq, hm, hcurrent, fun v hv => hfresh v (List.mem_filter.mp hv).1,
    ⟨info, hinfo, htotal.trans hworth⟩, ?_, ?_⟩
  · rw [List.map_append, processAll, List.foldlM_append]
    exact bind_eq_ok.mpr ⟨t.ledger, hcranked, hfinal⟩
  · rw [← hvotes]
    exact List.filter_sublist.map _
  · -- An entry whose stakes were at rest has been emptied by its visit.
    rintro rfl v hv hleft hrest
    obtain ⟨i, hi⟩ := List.getElem?_of_mem hv
    obtain ⟨st, hst⟩ := hentries v hv
    have hsound : Sound rt (crankContext rt k p false).keeper False (cellAt rt k s.ledger v) st :=
      { hst with delegated := False.elim, stopped := False.elim }
    exact hto.unlisted stakes h.orderly.epoch hvotes hwell.distinct hsound hi
      (hcover i (List.getElem?_eq_some_iff.mp hi).1) hleft hrest

end Built

end EpochUpdate

namespace Reference

/-- Whether the worth of the pool fits and the fee on what it gained can be paid. -/
def affords (w : Ledger) (p : StakePool) (l : ValidatorList) : Bool :=
  let worth := poolWorth runtime pool p w l
  decide (worth < 2 ^ 64) &&
    decide (FeePayable runtime pool p w (worth - minimumReserveLamports poolMeta - p.totalLamports))

end Reference

open Reference in
/-- The update of the reference pool in the epoch after its validator has been removed. -/
theorem built_update_completes_cooled : ∃ p l updates final,
    Builder.updateStakePool runtime p l pool false = some (updates, final) ∧
    ∀ order, order.Perm updates → ∃ w' q m, processAll runtime (departing.atEpoch 1).sysvars
      ((order ++ final).map BuiltInstruction.call) (departing.atEpoch 1).ledger = .ok w' ∧
      Updated runtime pool p l false (departing.atEpoch 1) w' q m := by
  obtain ⟨p, l, v, hp, hkeys, hl, hv, -, hstatus, hstake, -, -⟩ := cooled_entry
  obtain ⟨hlist, hreserve⟩ := Prod.mk.inj hkeys
  obtain ⟨p', hp', hfields⟩ : ∃ p, PoolAt runtime (departing.atEpoch 1).ledger pool p ∧
      (p.poolMint, (loadValidatorList runtime (departing.atEpoch 1).ledger validatorList).toOption.map
        (affords (departing.atEpoch 1).ledger p)) = (mint, some true) :=
    PoolAt.of_load (fun p => (p.poolMint, (loadValidatorList runtime (departing.atEpoch 1).ledger
      validatorList).toOption.map (affords (departing.atEpoch 1).ledger p))) (by decide +kernel)
  obtain rfl := hp'.unique hp
  obtain ⟨hmint, haffords⟩ := Prod.mk.inj hfields
  rw [loadValidatorList_eq_ok.mpr (hlist ▸ hl)] at haffords
  obtain ⟨hfits, hfee⟩ := Bool.and_eq_true_iff.mp (Option.some.inj haffords)
  obtain ⟨-, -, -, -, -, -, -, hrewards, howner⟩ := cooled_checks
  have hheld : ((departing.atEpoch 1).ledger reserve).data = .stake (.initialized poolMeta) := by decide +kernel
  have hminted : ((departing.atEpoch 1).ledger mint).data =
    .mint ⟨some withdrawAuthority, 5000000000, 9, none, []⟩ := by decide +kernel
  have hclear : false = false → ∀ u ∈ l.validators,
      ¬ (cellAt runtime pool (departing.atEpoch 1).ledger u).Blocked (departing.atEpoch 1).sysvars.epoch := by
    intro _ u hu
    rw [hv, List.mem_singleton] at hu
    exact hu ▸ not_blocked_of_left hstatus
  obtain ⟨updates, final, hbuilt, hdone⟩ := built_update_completes programLaws addressLaws systemLaws stakeLaws
    derived_apart mergeLaws phaseLaws tokenLaws cooled_run hp hl (one_genuine hv hstake howner) hrewards hclear
    (hmint ▸ hminted) (of_decide_eq_true hfits)
    (fun info hinfo => by
      rw [hreserve, hheld] at hinfo
      cases hinfo
      exact of_decide_eq_true hfee)
  exact ⟨p', l, updates, final, hbuilt, hdone⟩

end StakePoolFogo
