import StakePoolFogo.Builders
import StakePoolFogo.Coverage
import StakePoolFogo.Preferred

/-!
# The program's update builders

`update_stake_pool` and `update_stale_stake_pool` cut the list into chunks.  Their cranks have the accounts
of every entry that has to be refreshed, each once, so whatever the order they are sent in, the update of
the pool that follows finds no stale entry.
-/

open StakePoolFogo.Checked StakePoolFogo.Chunks StakePoolFogo.Outcome

namespace StakePoolFogo

/-! ## Cranks that cover a list -/

/-- An instruction as the program receives it. -/
def BuiltInstruction.call (b : BuiltInstruction) : List AccountMeta × StakePoolInstruction := (b.accounts, b.data)

/-- The addresses of an entry, as the program derives them. -/
def ownAddresses (rt : Runtime) (pool : Pubkey) (v : ValidatorStakeInfo) : Pubkey × Pubkey :=
  (v.stakeKey rt pool, v.transientKey rt pool)

/-- Cranks with the accounts of the entries at their positions, no position twice, and those of all entries
with `stale` among them. -/
structure Covering (rt : Runtime) (pool : Pubkey) (l : ValidatorList) (stale : ValidatorStakeInfo → Prop)
    (updates : List BuiltInstruction) : Prop where
  cranks : ∀ b ∈ updates, IsCrank pool b.call
  own : ∀ b ∈ updates, ∀ n pair, (crankOf b.call).pairAt n = some pair →
    ∃ v, l.validators[n]? = some v ∧ pair = ownAddresses rt pool v
  once : updates.Pairwise fun b b' =>
    ∀ n, (crankOf b.call).pairAt n = none ∨ (crankOf b'.call).pairAt n = none
  every : ∀ n v, l.validators[n]? = some v → stale v →
    ∃ b ∈ updates, (crankOf b.call).Addresses rt pool n v

section Cover

variable {rt : Runtime} {sv : Sysvars} {pool : Pubkey} {p : StakePool} {l : ValidatorList} {w w' : Ledger}
  {updates order : List BuiltInstruction} {stale : ValidatorStakeInfo → Prop}

/-- In any order the cranks leave no stale entry. -/
theorem Covering.refresh (laws : ProgramLaws rt) (h : Covering rt pool l stale updates)
    (hstale : ∀ v ∈ l.validators, v.lastUpdateEpoch < sv.epoch → stale v) (horder : order.Perm updates)
    (hp : PoolAt rt w pool p) (hl : ListAt rt w p.validatorList l)
    (hrun : processAll rt sv (order.map BuiltInstruction.call) w = .ok w') :
    PoolAt rt w' pool p ∧ ∃ l', ListAt rt w' p.validatorList l' ∧
      ∀ v ∈ l'.validators, ¬ v.lastUpdateEpoch < sv.epoch := by
  apply processAll_fresh laws _ hp hl hrun
  · intro n v hv hlate
    obtain ⟨b, hb, haddress⟩ := h.every n v hv (hstale v (List.mem_of_getElem? hv) hlate)
    exact ⟨b.call, List.mem_map_of_mem (horder.mem_iff.mpr hb), haddress⟩
  · intro i hi
    obtain ⟨b, hb, rfl⟩ := List.mem_map.mp hi
    exact h.cranks b (horder.mem_iff.mp hb)

/-- Some of the cranks are still right, and none twice. -/
theorem Covering.sublist {stale' : ValidatorStakeInfo → Prop} {some_ : List BuiltInstruction}
    (h : Covering rt pool l stale updates) (hsub : some_.Sublist updates)
    (hevery : ∀ n v, l.validators[n]? = some v → stale' v →
      ∃ b ∈ some_, (crankOf b.call).Addresses rt pool n v) : Covering rt pool l stale' some_ :=
  ⟨fun b hb => h.cranks b (hsub.mem hb), fun b hb => h.own b (hsub.mem hb), h.once.sublist hsub, hevery⟩

end Cover

namespace Builder

/-! ## The chunks -/

section Build

variable {rt : Runtime} {pool authority : Pubkey} {p : StakePool} {l : ValidatorList} {noMerge : Bool}
  {k n : Nat} {chunk : List ValidatorStakeInfo} {epoch : Epoch}

theorem entryPair_flatMap (chunk : List ValidatorStakeInfo) :
    stakePairs ((chunk.flatMap (entryPair rt pool)).map fun key => AccountMeta.new key false) =
      chunk.map (ownAddresses rt pool) :=
  stakePairs_flatMap (·.stakeKey rt pool) (·.transientKey rt pool) _ (fun _ => rfl) chunk

/-- The crank for the chunk `k`. -/
def chunkCrank (rt : Runtime) (pool : Pubkey) (p : StakePool) (noMerge : Bool) (k : Nat)
    (chunk : List ValidatorStakeInfo) : BuiltInstruction where
  accounts := updateListAccounts rt pool (findWithdrawAuthorityProgramAddress rt pool).1 p.validatorList
    p.reserveStake (chunk.flatMap (entryPair rt pool))
  data := .updateValidatorListBalance (.ofNat (k * maxValidatorsToUpdate)) noMerge

theorem chunkCrank_isCrank : IsCrank pool (chunkCrank rt pool p noMerge k chunk).call :=
  .intro (AccountMeta.newReadonly pool false) _ _ _ rfl rfl

theorem maxValidatorsToUpdate_pos : 0 < maxValidatorsToUpdate := by decide

/-- A chunk starts before the end of the list, so its position fits. -/
theorem chunk_start_lt (hsize : l.validators.length ≤ maxValidatorsInPool)
    (hchunk : (chunks maxValidatorsToUpdate l.validators)[k]? = some chunk) :
    k * maxValidatorsToUpdate < 2 ^ 32 := by
  have hmax : maxValidatorsInPool = 20000 := rfl
  have hstart := ((chunks_getElem? maxValidatorsToUpdate_pos).mp hchunk).1
  omega

theorem chunkCrank_crank (hsize : l.validators.length ≤ maxValidatorsInPool)
    (hchunk : (chunks maxValidatorsToUpdate l.validators)[k]? = some chunk) :
    crankOf (chunkCrank rt pool p noMerge k chunk).call =
      ⟨k * maxValidatorsToUpdate, chunk.map (ownAddresses rt pool)⟩ := by
  have hlt := chunk_start_lt hsize hchunk
  have hpairs : stakePairs ((chunkCrank rt pool p noMerge k chunk).accounts.drop 7) =
    chunk.map (ownAddresses rt pool) := entryPair_flatMap chunk
  show Crank.mk (UInt32.ofNat (k * maxValidatorsToUpdate)).toNat _ = _
  rw [UInt32.toNat_ofNat_of_lt' hlt, hpairs]

/-- What a crank has a pair for is in its chunk. -/
theorem chunkCrank_pairAt (hsize : l.validators.length ≤ maxValidatorsInPool)
    (hchunk : (chunks maxValidatorsToUpdate l.validators)[k]? = some chunk) {pair : Pubkey × Pubkey}
    (hpair : (crankOf (chunkCrank rt pool p noMerge k chunk).call).pairAt n = some pair) :
    n / maxValidatorsToUpdate = k ∧ ∃ v, l.validators[n]? = some v ∧ pair = ownAddresses rt pool v := by
  rw [chunkCrank_crank hsize hchunk] at hpair
  dsimp only [Crank.pairAt] at hpair
  split at hpair
  · rename_i hle
    rw [List.getElem?_map, Option.map_eq_some_iff] at hpair
    obtain ⟨v, hv, rfl⟩ := hpair
    have hlisted := getElem?_of_chunk maxValidatorsToUpdate_pos hchunk hv
    rw [Nat.add_sub_cancel' hle] at hlisted
    refine ⟨?_, v, hlisted, rfl⟩
    obtain ⟨-, rfl⟩ := (chunks_getElem? maxValidatorsToUpdate_pos).mp hchunk
    have hlength := (List.getElem?_eq_some_iff.mp hv).1
    rw [List.length_take] at hlength
    apply Nat.div_eq_of_lt_le
    · exact hle
    · rw [Nat.succ_mul]
      omega
  · cases hpair

/-- The cranks for all chunks. -/
def chunkCranks (rt : Runtime) (pool : Pubkey) (p : StakePool) (l : ValidatorList) (noMerge : Bool) :
    List BuiltInstruction :=
  (chunks maxValidatorsToUpdate l.validators).mapIdx (chunkCrank rt pool p noMerge)

theorem chunkCranks_getElem? {b : BuiltInstruction} :
    (chunkCranks rt pool p l noMerge)[k]? = some b ↔
      ∃ chunk, (chunks maxValidatorsToUpdate l.validators)[k]? = some chunk ∧
        b = chunkCrank rt pool p noMerge k chunk := by
  rw [chunkCranks, List.getElem?_mapIdx, Option.map_eq_some_iff]
  simp only [eq_comm]

/-- The crank of the chunk of an entry addresses it. -/
theorem chunkCrank_addresses (hsize : l.validators.length ≤ maxValidatorsInPool) {v : ValidatorStakeInfo}
    (hchunk : (chunks maxValidatorsToUpdate l.validators)[n / maxValidatorsToUpdate]? = some chunk)
    (hv : chunk[n % maxValidatorsToUpdate]? = some v) :
    (crankOf (chunkCrank rt pool p noMerge (n / maxValidatorsToUpdate) chunk).call).Addresses rt pool n v := by
  rw [chunkCrank_crank hsize hchunk]
  exact Crank.addresses_of_chunk rfl rfl hv

theorem chunkCranks_covering (hsize : l.validators.length ≤ maxValidatorsInPool) :
    Covering rt pool l (fun _ => True) (chunkCranks rt pool p l noMerge) := by
  have hmem : ∀ b ∈ chunkCranks rt pool p l noMerge, ∃ k chunk,
      (chunks maxValidatorsToUpdate l.validators)[k]? = some chunk ∧
        b = chunkCrank rt pool p noMerge k chunk := by
    intro b hb
    obtain ⟨k, hk⟩ := List.getElem?_of_mem hb
    obtain ⟨chunk, hchunk, rfl⟩ := chunkCranks_getElem?.mp hk
    exact ⟨k, chunk, hchunk, rfl⟩
  constructor
  · intro b hb
    obtain ⟨k, chunk, -, rfl⟩ := hmem b hb
    exact chunkCrank_isCrank
  · intro b hb n pair hpair
    obtain ⟨k, chunk, hchunk, rfl⟩ := hmem b hb
    exact (chunkCrank_pairAt hsize hchunk hpair).2
  · -- Two cranks for different chunks have no position in common.
    rw [List.pairwise_iff_getElem]
    intro i j hi hj hlt n
    obtain ⟨c, hc, hcrank⟩ := chunkCranks_getElem?.mp (List.getElem?_eq_getElem hi)
    obtain ⟨d, hd, hcrank'⟩ := chunkCranks_getElem?.mp (List.getElem?_eq_getElem hj)
    rw [hcrank, hcrank']
    cases hfirst : (crankOf (chunkCrank rt pool p noMerge i c).call).pairAt n with
    | none => exact .inl rfl
    | some pair =>
      right
      cases hsecond : (crankOf (chunkCrank rt pool p noMerge j d).call).pairAt n with
      | none => rfl
      | some pair' =>
        have hsame := (chunkCrank_pairAt hsize hc hfirst).1
        have hother := (chunkCrank_pairAt hsize hd hsecond).1
        omega
  · intro n v hv _
    obtain ⟨chunk, hchunk, hoffset⟩ := chunk_of_getElem? maxValidatorsToUpdate_pos hv
    exact ⟨_, List.mem_of_getElem? (chunkCranks_getElem?.mpr ⟨chunk, hchunk, rfl⟩),
      chunkCrank_addresses hsize hchunk hoffset⟩

/-! ## The builders -/

theorem mapIdx_mapM {α β : Type} {xs : List α} {f : Nat → α → Option β} {g : Nat → α → β}
    (h : ∀ k x, xs[k]? = some x → f k x = some (g k x)) : (xs.mapIdx f).mapM id = some (xs.mapIdx g) := by
  induction xs generalizing f g with
  | nil => rfl
  | cons x xs ih =>
    have hrest := @ih (fun k => f (k + 1)) (fun k => g (k + 1)) fun k x hx => h (k + 1) x hx
    rw [List.mapIdx_cons, List.mapIdx_cons, List.mapM_cons, id, h 0 x rfl, hrest]
    rfl

theorem enumerateChunks_eq {α : Type} {build : Nat → List ValidatorStakeInfo → Option α}
    {g : Nat → List ValidatorStakeInfo → α}
    (h : ∀ k chunk, (chunks maxValidatorsToUpdate l.validators)[k]? = some chunk →
      build k chunk = some (g k chunk)) :
    enumerateChunks l build = some ((chunks maxValidatorsToUpdate l.validators).mapIdx g) :=
  mapIdx_mapM h

theorem buildChunk_eq (hsize : l.validators.length ≤ maxValidatorsInPool)
    (hchunk : (chunks maxValidatorsToUpdate l.validators)[k]? = some chunk) :
    saturatingMul 64 k maxValidatorsToUpdate = k * maxValidatorsToUpdate ∧
      k * maxValidatorsToUpdate + chunk.length ≤ l.validators.length ∧
      (l.validators.drop (k * maxValidatorsToUpdate)).take chunk.length = chunk := by
  have hlt := chunk_start_lt hsize hchunk
  obtain ⟨hstart, hslice⟩ := (chunks_getElem? maxValidatorsToUpdate_pos).mp hchunk
  have hlength : chunk.length = min maxValidatorsToUpdate (l.validators.length - k * maxValidatorsToUpdate) := by
    rw [hslice, List.length_take, List.length_drop]
  refine ⟨saturatingMul_of_lt (by omega), by omega, ?_⟩
  rw [hlength]
  conv_rhs => rw [hslice]
  rw [List.take_eq_take_iff, List.length_drop]
  omega

/-- A chunk is built without a panic. -/
theorem unwrap_updateChunk (hsize : l.validators.length ≤ maxValidatorsInPool)
    (hchunk : (chunks maxValidatorsToUpdate l.validators)[k]? = some chunk) :
    unwrapChunk (saturatingMul 64 k maxValidatorsToUpdate)
        (updateValidatorListBalanceChunk rt pool (findWithdrawAuthorityProgramAddress rt pool).1 p.validatorList
          p.reserveStake l chunk.length (saturatingMul 64 k maxValidatorsToUpdate) noMerge) =
      some (chunkCrank rt pool p noMerge k chunk) := by
  obtain ⟨hposition, hbound, hslice⟩ := buildChunk_eq hsize hchunk
  rw [hposition, unwrapChunk, if_pos (chunk_start_lt hsize hchunk), updateValidatorListBalanceChunk,
    if_pos hbound, hslice]
  rfl

theorem unwrap_updateStaleChunk (hsize : l.validators.length ≤ maxValidatorsInPool)
    (hchunk : (chunks maxValidatorsToUpdate l.validators)[k]? = some chunk) :
    unwrapChunk (saturatingMul 64 k maxValidatorsToUpdate)
        (updateStaleValidatorListBalanceChunk rt pool (findWithdrawAuthorityProgramAddress rt pool).1
          p.validatorList p.reserveStake l chunk.length (saturatingMul 64 k maxValidatorsToUpdate) noMerge epoch) =
      some (if chunk.all fun info => decide (epoch ≤ info.lastUpdateEpoch) then none
        else some (chunkCrank rt pool p noMerge k chunk)) := by
  obtain ⟨hposition, hbound, hslice⟩ := buildChunk_eq hsize hchunk
  rw [hposition, unwrapChunk, if_pos (chunk_start_lt hsize hchunk), updateStaleValidatorListBalanceChunk,
    if_pos hbound, hslice]
  split
  · rfl
  · rw [updateValidatorListBalanceChunk, if_pos hbound, hslice]
    rfl

theorem updateStakePool_eq (hsize : l.validators.length ≤ maxValidatorsInPool) :
    updateStakePool rt p l pool noMerge = some (chunkCranks rt pool p l noMerge,
      finalInstructions p pool (findWithdrawAuthorityProgramAddress rt pool).1) := by
  have hbuilt := enumerateChunks_eq fun k chunk hchunk =>
    @unwrap_updateChunk rt pool p l noMerge k chunk hsize hchunk
  unfold updateStakePool
  dsimp only
  rw [hbuilt]
  rfl

/-- The cranks for the chunks with a stale entry. -/
def staleCranks (rt : Runtime) (pool : Pubkey) (p : StakePool) (l : ValidatorList) (noMerge : Bool)
    (epoch : Epoch) : List BuiltInstruction :=
  ((chunks maxValidatorsToUpdate l.validators).mapIdx fun k chunk =>
    if chunk.all fun info => decide (epoch ≤ info.lastUpdateEpoch) then none
    else some (chunkCrank rt pool p noMerge k chunk)).reduceOption

theorem updateStaleStakePool_eq (hsize : l.validators.length ≤ maxValidatorsInPool) :
    updateStaleStakePool rt p l pool noMerge epoch = some (staleCranks rt pool p l noMerge epoch,
      finalInstructions p pool (findWithdrawAuthorityProgramAddress rt pool).1) := by
  have hbuilt := enumerateChunks_eq fun k chunk hchunk =>
    @unwrap_updateStaleChunk rt pool p l noMerge k chunk epoch hsize hchunk
  unfold updateStaleStakePool
  dsimp only
  rw [hbuilt]
  rfl

theorem staleCranks_sublist : (staleCranks rt pool p l noMerge epoch).Sublist
    (chunkCranks rt pool p l noMerge) := by
  unfold staleCranks chunkCranks
  generalize chunkCrank rt pool p noMerge = crank
  generalize chunks maxValidatorsToUpdate l.validators = cs
  induction cs generalizing crank with
  | nil => exact .slnil
  | cons chunk cs ih =>
    have hrest := ih fun k => crank (k + 1)
    rw [List.mapIdx_cons, List.mapIdx_cons]
    split
    · rw [List.reduceOption_cons_of_none]
      exact hrest.cons _
    · rw [List.reduceOption_cons_of_some]
      exact hrest.cons_cons _

theorem staleCranks_covering (hsize : l.validators.length ≤ maxValidatorsInPool) :
    Covering rt pool l (fun v => v.lastUpdateEpoch < epoch) (staleCranks rt pool p l noMerge epoch) := by
  refine (chunkCranks_covering hsize).sublist staleCranks_sublist fun n v hv hlate => ?_
  obtain ⟨chunk, hchunk, hoffset⟩ := chunk_of_getElem? maxValidatorsToUpdate_pos hv
  refine ⟨chunkCrank rt pool p noMerge (n / maxValidatorsToUpdate) chunk, ?_,
    chunkCrank_addresses hsize hchunk hoffset⟩
  have hkept : ¬(chunk.all fun info => decide (epoch ≤ info.lastUpdateEpoch)) = true := by
    intro hall
    have hfresh := of_decide_eq_true (List.all_eq_true.mp hall v (List.mem_of_getElem? hoffset))
    exact Nat.not_le_of_lt hlate hfresh
  rw [staleCranks, List.reduceOption_mem_iff]
  apply List.mem_of_getElem? (i := n / maxValidatorsToUpdate)
  rw [List.getElem?_mapIdx, hchunk, Option.map_some, if_neg hkept]

end Build

/-! ## Afterwards -/

section Afterwards

variable {rt : Runtime} {sv : Sysvars} {pool : Pubkey} {p q : StakePool} {l m : ValidatorList}
  {w w' : Ledger} {updates : List BuiltInstruction} {stale : ValidatorStakeInfo → Prop}

/-- The instructions after the updates leave no preferred validator that is not active. -/
theorem finalInstructions_active (laws : ProgramLaws rt) {authority : Pubkey} (hp : PoolAt rt w pool q)
    (hl : ListAt rt w q.validatorList m)
    (hrun : processAll rt sv ((finalInstructions p pool authority).map BuiltInstruction.call) w = .ok w') :
    ∃ q' m', PoolAt rt w' pool q' ∧ ListAt rt w' q.validatorList m' ∧
      ∀ vote, q'.preferredDepositValidatorVoteAddress = some vote ∨
        q'.preferredWithdrawValidatorVoteAddress = some vote →
        ∃ v, m'.find vote = some v ∧ v.status = StakeStatus.active.toPod := by
  obtain ⟨w₁, hupdate, hrest⟩ := bind_eq_ok.mp hrun
  obtain ⟨w₂, hcleanup, hdone⟩ := bind_eq_ok.mp hrest
  cases hdone
  obtain ⟨r⟩ := (processUpdateStakePoolBalance_run rt sv).mp hupdate
  have heffect := r.effect laws (a := AccountMeta.new pool false) rfl hp hl
  have hlist : (q.advanceEpoch sv.epoch).validatorList = q.validatorList := by
    unfold StakePool.advanceEpoch
    split <;> rfl
  obtain ⟨r'⟩ := processCleanupRemovedValidatorEntries_run rt hcleanup
  have hfirst : AccountMeta.new pool false = r'.pool := Option.some.inj r'.pool_at
  have hwritable : r'.pool.isWritable = true := by
    rw [← hfirst]
    rfl
  have hpool : PoolAt rt w₁ pool r'.p := by
    have hread := r'.isPool
    rw [← hfirst] at hread
    exact hread
  have hkept : r'.p.validatorList = q.validatorList := by
    rw [hpool.unique heffect.own.after]
    exact hlist
  have hwrites := r'.writes sv laws hwritable
  rw [← hfirst] at hwrites
  exact ⟨_, r'.l.cleaned, hwrites.own.after, hkept ▸ hwrites.list, fun vote => StakePool.keepListed_active _ _⟩

/-- After the updates of `l`, in any order, the update of the pool finds no stale entry; and after the
final instructions the preferred validators are active. -/
def Completes (rt : Runtime) (sv : Sysvars) (pool : Pubkey) (p : StakePool) (l : ValidatorList)
    (updates final : List BuiltInstruction) : Prop :=
  ∀ (order : List BuiltInstruction) (q : StakePool) (w w' : Ledger), order.Perm updates → PoolAt rt w pool q →
    q.validatorList = p.validatorList → ListAt rt w q.validatorList l →
    processAll rt sv (order.map BuiltInstruction.call) w = .ok w' →
    (∃ l', ListAt rt w' q.validatorList l' ∧ (∀ v ∈ l'.validators, ¬v.lastUpdateEpoch < sv.epoch) ∧
      ∀ total, sumStakeLamports sv.epoch total l'.validators ≠ .error (.custom .stakeListOutOfDate)) ∧
    ∀ w'', processAll rt sv (final.map BuiltInstruction.call) w' = .ok w'' →
      ∃ q' l', PoolAt rt w'' pool q' ∧ ListAt rt w'' q.validatorList l' ∧
        ∀ vote, q'.preferredDepositValidatorVoteAddress = some vote ∨
          q'.preferredWithdrawValidatorVoteAddress = some vote →
          ∃ v, l'.find vote = some v ∧ v.status = StakeStatus.active.toPod

theorem completes_of_covering (laws : ProgramLaws rt) {authority : Pubkey}
    (hcover : Covering rt pool l stale updates)
    (hstale : ∀ v ∈ l.validators, v.lastUpdateEpoch < sv.epoch → stale v) :
    Completes rt sv pool p l updates (finalInstructions p pool authority) := by
  intro order q w w' horder hq _ hl hrun
  obtain ⟨hq', l', hl', hfresh⟩ := hcover.refresh laws hstale horder hq hl hrun
  refine ⟨⟨l', hl', hfresh, fun total => sumStakeLamports_not_outOfDate total hfresh⟩, fun w'' hfinal => ?_⟩
  exact finalInstructions_active laws hq' hl' hfinal

/-- For every pool, list, epoch and merge flag: the builders do not panic; their cranks have the accounts of
the entries at their positions, as the program derives them, no position twice, for all entries and for all
stale entries; and sent in any order, they are followed by an update of the pool that finds no stale entry
and a cleanup that leaves no preferred validator that is not active. -/
theorem update_builders_cover (laws : ProgramLaws rt) (p : StakePool) (noMerge : Bool) (epoch : Epoch)
    (hsize : l.validators.length ≤ maxValidatorsInPool) :
    (∃ updates final, updateStakePool rt p l pool noMerge = some (updates, final) ∧
      Covering rt pool l (fun _ => True) updates ∧ ∀ sv, Completes rt sv pool p l updates final) ∧
    (∃ updates final, updateStaleStakePool rt p l pool noMerge epoch = some (updates, final) ∧
      Covering rt pool l (fun v => v.lastUpdateEpoch < epoch) updates ∧
      ∀ sv, sv.epoch = epoch → Completes rt sv pool p l updates final) := by
  constructor
  · have hcover : Covering rt pool l (fun _ => True) (chunkCranks rt pool p l noMerge) :=
      chunkCranks_covering hsize
    exact ⟨_, _, updateStakePool_eq hsize, hcover, fun sv =>
      completes_of_covering laws hcover fun _ _ _ => trivial⟩
  · have hcover : Covering rt pool l (fun v => v.lastUpdateEpoch < epoch) (staleCranks rt pool p l noMerge epoch) :=
      staleCranks_covering hsize
    refine ⟨_, _, updateStaleStakePool_eq hsize, hcover, fun sv hepoch => ?_⟩
    exact completes_of_covering laws hcover fun _ _ hlate => hepoch ▸ hlate

end Afterwards

/-- Eleven validators, of which the second four are up to date in epoch 1. -/
def elevenValidators : ValidatorList where
  header := { accountType := .validatorList, maxValidators := 20 }
  validators := (List.range 11).map fun i => {
    activeStakeLamports := 0
    transientStakeLamports := 0
    lastUpdateEpoch := if 4 ≤ i ∧ i < 8 then 1 else 0
    transientSeedSuffix := 0
    unused := 0
    validatorSeedSuffix := 0
    status := StakeStatus.active.toPod
    voteAccountAddress := Reference.key (60 + i) }

open Reference in
/-- The builders for eleven validators make three updates, and two if only stale entries matter. -/
theorem update_builders_cover_eleven : ∃ updates stale final,
    updateStakePool runtime .zeroed elevenValidators Reference.pool false = some (updates, final) ∧
    updateStaleStakePool runtime .zeroed elevenValidators Reference.pool false 1 = some (stale, final) ∧
    updates.length = 3 ∧ stale.length = 2 ∧
    Covering runtime Reference.pool elevenValidators (fun _ => True) updates ∧
    Covering runtime Reference.pool elevenValidators (fun v => v.lastUpdateEpoch < 1) stale := by
  have hsize : elevenValidators.validators.length ≤ maxValidatorsInPool := by decide
  obtain ⟨⟨updates, final, hbuilt, hcover, -⟩, stale, final', hstale, hcover', -⟩ :=
    @update_builders_cover runtime Reference.pool elevenValidators programLaws .zeroed false 1 hsize
  have hall : (updateStakePool runtime .zeroed elevenValidators Reference.pool false).map
      (·.1.length) = some 3 := by decide +kernel
  have hlate : (updateStaleStakePool runtime .zeroed elevenValidators Reference.pool false 1).map
      (·.1.length) = some 2 := by decide +kernel
  obtain rfl : final = final' := by
    rw [updateStakePool_eq hsize] at hbuilt
    rw [updateStaleStakePool_eq hsize] at hstale
    exact (congrArg Prod.snd (Option.some.inj hbuilt)).symm.trans
      (congrArg Prod.snd (Option.some.inj hstale))
  rw [hbuilt] at hall
  rw [hstale] at hlate
  exact ⟨updates, stale, final, hbuilt, hstale, Option.some.inj hall, Option.some.inj hlate, hcover, hcover'⟩

end Builder

end StakePoolFogo
