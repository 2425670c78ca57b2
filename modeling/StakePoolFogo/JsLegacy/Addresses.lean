import StakePoolFogo.JsLegacy.Withdrawal

/-!
# The addresses the JavaScript client derives

Each action derives a validator's stake account with no seed, or with a seed that its instruction does not
carry.  The address is the program's own exactly where the seed is zero.
-/

open StakePoolFogo.Borsh StakePoolFogo.Chunks StakePoolFogo.Codec StakePoolFogo.Outcome

namespace StakePoolFogo

/-- The stake account of a vote account and a nonzero seed is not the one without a seed. -/
def SeedApart (rt : Runtime) (pool vote : Pubkey) (seed : UInt32) : Prop :=
  seed ≠ 0 → (findStakeProgramAddress rt vote pool seed).1 ≠ (findStakeProgramAddress rt vote pool 0).1

theorem SeedApart.eq_iff {rt : Runtime} {pool vote : Pubkey} {seed : UInt32}
    (h : SeedApart rt pool vote seed) :
    (findStakeProgramAddress rt vote pool 0).1 = (findStakeProgramAddress rt vote pool seed).1 ↔
      seed = 0 := by
  refine ⟨fun heq => ?_, fun hzero => by rw [hzero]⟩
  by_contra hseed
  exact h hseed heq.symm

namespace JsLegacy

variable {rt : Runtime} {ids : ProgramIds} {pool vote : Pubkey} {p : StakePoolFogo.StakePool}
  {l : StakePoolFogo.ValidatorList} {v : StakePoolFogo.ValidatorStakeInfo} {rest : List UInt8}

/-! ## Addresses -/

theorem findStakeProgramAddress_none :
    findStakeProgramAddress rt rt.programId vote pool none =
      some (StakePoolFogo.findStakeProgramAddress rt vote pool 0).1 := rfl

theorem findStakeProgramAddress_some (seed : UInt32) :
    findStakeProgramAddress rt rt.programId vote pool (some seed.toNat) =
      some (StakePoolFogo.findStakeProgramAddress rt vote pool seed).1 := by
  have hlt : seed.toNat < 2 ^ 32 := seed.toNat_lt
  by_cases hzero : seed = 0
  · rw [hzero]
    rfl
  · have hne : seed.toNat ≠ 0 := fun h => hzero (UInt32.toNat_inj.mp h)
    obtain ⟨n, hn⟩ := Nat.exists_eq_succ_of_ne_zero hne
    have hseeds : validatorSeedBytes seed = leBytes 4 seed.toNat := by
      rw [validatorSeedBytes, if_neg hzero]
    unfold findStakeProgramAddress StakePoolFogo.findStakeProgramAddress validatorStakeSeeds
    rw [hseeds, hn]
    exact if_pos (by omega)

theorem findTransientStakeProgramAddress_toNat (seed : UInt64) :
    findTransientStakeProgramAddress rt rt.programId vote pool seed.toNat =
      some (StakePoolFogo.findTransientStakeProgramAddress rt vote pool seed).1 := by
  unfold findTransientStakeProgramAddress
  rw [guard, if_pos seed.toNat_lt]
  rfl

/-- The list finds the entry that the program finds. -/
theorem find_ofList : (ValidatorList.ofList l).find vote = (l.find vote).map .ofInfo := by
  unfold ValidatorList.find StakePoolFogo.ValidatorList.find ValidatorList.ofList
  rw [List.find?_map]
  rfl

/-! ## Single validators -/

/-- The stake account in the instruction is the one for the seed in its data. -/
def AddRight (rt : Runtime) (pool vote : Pubkey) (i : TransactionInstruction) : Prop :=
  ∃ seed, StakePoolInstruction.tryFromSlice i.data = .ok (.addValidatorToPool seed) ∧
    keyAt i 5 = some (StakePoolFogo.findStakeProgramAddress rt vote pool seed).1

theorem findStakeProgramAddress_map (seed : Option UInt32) :
    findStakeProgramAddress rt rt.programId vote pool (seed.map UInt32.toNat) =
      some (StakePoolFogo.findStakeProgramAddress rt vote pool (seed.getD 0)).1 := by
  cases seed with
  | none => rfl
  | some seed => exact findStakeProgramAddress_some seed

/-- The data without a seed. -/
theorem tryFromSlice_addValidator : StakePoolInstruction.tryFromSlice
    (encodeData (layouts .addValidatorToPool) (fields [(.seed, 0)])) = .ok (.addValidatorToPool 0) :=
  StakePoolInstruction.tryFromSlice_of_reads
    (.field (reads_tag 1) (.field (reads_u32 (by decide : 0 < 2 ^ 32)) (.pure _)))

theorem addValidatorToPoolAction_right (hl : l.Fits) (hfresh : l.find vote = none) (seed : Option UInt32)
    (hapart : SeedApart rt pool vote (seed.getD 0)) :
    ∃ i, addValidatorToPoolAction rt ids rt.programId (.ofPool p) (l.toBytes rest) pool vote
        (seed.map UInt32.toNat) = some i ∧
      (AddRight rt pool vote i ↔ seed.getD 0 = 0) := by
  have hnone : ((ValidatorList.ofList l).find vote).isNone = true := by
    rw [find_ofList, hfresh]
    rfl
  unfold addValidatorToPoolAction
  rw [ValidatorList.decode_toBytes hl, findStakeProgramAddress_map]
  simp only [Option.bind_eq_bind, Option.bind_some, hnone, guard, if_true, Option.pure_def,
    Option.some.injEq, exists_eq_left']
  rw [← hapart.eq_iff]
  -- The instruction carries no seed, so the program derives the account without one.
  constructor
  · rintro ⟨carried, hdata, hkey⟩
    cases tryFromSlice_addValidator.symm.trans hdata
    exact (Option.some.inj hkey).symm
  · intro heq
    exact ⟨0, tryFromSlice_addValidator, congrArg some heq.symm⟩

/-- Where the instructions have the validator's stake account. -/
def increaseIndex (ephemeralStakeSeed : Option Nat) : Nat := if ephemeralStakeSeed.isSome then 7 else 6

theorem increaseValidatorStakeAction_key {lamports : Nat} {ephemeral : Option Nat}
    {i : TransactionInstruction} (hl : l.Fits) (hv : l.find vote = some v)
    (h : increaseValidatorStakeAction rt ids rt.programId (.ofPool p) (l.toBytes rest) pool vote lamports
      ephemeral = some i) :
    keyAt i (increaseIndex ephemeral) =
      some (StakePoolFogo.findStakeProgramAddress rt v.voteAccountAddress pool 0).1 := by
  unfold increaseValidatorStakeAction at h
  rw [ValidatorList.decode_toBytes hl] at h
  simp only [Option.bind_eq_bind, Option.bind_some, find_ofList, hv, Option.map_some,
    findStakeProgramAddress_none, Option.bind_eq_some_iff] at h
  obtain ⟨transientStake, -, transientSeed, -, h⟩ := h
  cases ephemeral with
  | none =>
    cases h
    rfl
  | some ephemeralSeed =>
    obtain ⟨-, -, h⟩ := Option.bind_eq_some_iff.mp h
    obtain ⟨ephemeralStake, -, h⟩ := Option.bind_eq_some_iff.mp h
    cases h
    rfl

theorem decreaseValidatorStakeAction_key {lamports : Nat} {ephemeral : Option Nat}
    {i : TransactionInstruction} (hl : l.Fits) (hv : l.find vote = some v)
    (h : decreaseValidatorStakeAction rt ids rt.programId (.ofPool p) (l.toBytes rest) pool vote lamports
      ephemeral = some i) :
    keyAt i 5 = some (StakePoolFogo.findStakeProgramAddress rt v.voteAccountAddress pool 0).1 := by
  unfold decreaseValidatorStakeAction at h
  rw [ValidatorList.decode_toBytes hl] at h
  simp only [Option.bind_eq_bind, Option.bind_some, find_ofList, hv, Option.map_some,
    findStakeProgramAddress_none, Option.bind_eq_some_iff] at h
  obtain ⟨transientStake, -, transientSeed, -, h⟩ := h
  cases ephemeral with
  | none =>
    cases h
    rfl
  | some ephemeralSeed =>
    obtain ⟨-, -, h⟩ := Option.bind_eq_some_iff.mp h
    obtain ⟨ephemeralStake, -, h⟩ := Option.bind_eq_some_iff.mp h
    cases h
    rfl

/-! ## Updates of the list -/

/-- The accounts the client derives for an entry. -/
def derivedPair (rt : Runtime) (pool : Pubkey) (v : StakePoolFogo.ValidatorStakeInfo) : Pubkey × Pubkey :=
  ((StakePoolFogo.findStakeProgramAddress rt v.voteAccountAddress pool 0).1, v.transientKey rt pool)

/-- The accounts the program derives for an entry. -/
def ownPair (rt : Runtime) (pool : Pubkey) (v : StakePoolFogo.ValidatorStakeInfo) : Pubkey × Pubkey :=
  (v.stakeKey rt pool, v.transientKey rt pool)

/-- The update of one chunk. -/
def chunkUpdate (rt : Runtime) (ids : ProgramIds) (p : StakePoolFogo.StakePool) (pool : Pubkey)
    (noMerge : Bool) (startIndex : Nat) (chunk : List StakePoolFogo.ValidatorStakeInfo) :
    TransactionInstruction :=
  updateValidatorListBalance rt ids {
    programId := rt.programId
    stakePool := pool
    validatorList := p.validatorList
    reserveStake := p.reserveStake
    validatorAndTransientStakePairs := chunk.flatMap fun v =>
      [(derivedPair rt pool v).1, (derivedPair rt pool v).2]
    withdrawAuthority := findWithdrawAuthorityProgramAddress rt rt.programId pool
    startIndex, noMerge }

/-- The updates of the chunks from `startIndex` on. -/
def chunkUpdates (rt : Runtime) (ids : ProgramIds) (p : StakePoolFogo.StakePool) (pool : Pubkey)
    (noMerge : Bool) (startIndex : Nat) (chunks : List (List StakePoolFogo.ValidatorStakeInfo)) :
    List TransactionInstruction :=
  chunks.mapIdx fun k chunk => chunkUpdate rt ids p pool noMerge (startIndex + k * maxValidatorsToUpdate) chunk

theorem stakePair_ofInfo (v : StakePoolFogo.ValidatorStakeInfo) :
    stakePair rt rt.programId pool (.ofInfo v) =
      some [(derivedPair rt pool v).1, (derivedPair rt pool v).2] := by
  unfold stakePair
  show (findStakeProgramAddress rt rt.programId v.voteAccountAddress pool none).bind _ = _
  rw [findStakeProgramAddress_none, Option.bind_some]
  show (findTransientStakeProgramAddress rt rt.programId v.voteAccountAddress pool
    v.transientSeedSuffix.toNat).bind _ = _
  rw [findTransientStakeProgramAddress_toNat]
  rfl

theorem mapM_stakePair (chunk : List StakePoolFogo.ValidatorStakeInfo) :
    (chunk.map ValidatorStakeInfo.ofInfo).mapM (stakePair rt rt.programId pool) =
      some (chunk.map fun v => [(derivedPair rt pool v).1, (derivedPair rt pool v).2]) := by
  induction chunk with
  | nil => rfl
  | cons v chunk ih =>
    rw [List.map_cons, List.mapM_cons, stakePair_ofInfo, ih]
    rfl

/-- The client never throws on the way, and returns one update for each chunk. -/
theorem updateListInstructions_eq (noMerge : Bool) (startIndex : Nat)
    (chunks : List (List StakePoolFogo.ValidatorStakeInfo)) :
    updateListInstructions rt ids rt.programId (.ofPool p) pool noMerge startIndex
        (chunks.map (List.map ValidatorStakeInfo.ofInfo)) =
      some (chunkUpdates rt ids p pool noMerge startIndex chunks) := by
  induction chunks generalizing startIndex with
  | nil => rfl
  | cons chunk chunks ih =>
    rw [List.map_cons, updateListInstructions, mapM_stakePair, ih]
    have hshift : ∀ k, startIndex + maxValidatorsToUpdate + k * maxValidatorsToUpdate =
        startIndex + (k + 1) * maxValidatorsToUpdate := by
      intro k
      rw [Nat.succ_mul]
      omega
    simp only [Option.bind_eq_bind, Option.bind_some, Option.pure_def, chunkUpdates, List.mapIdx_cons, hshift,
      Nat.zero_mul, Nat.add_zero]
    rw [← List.flatMap_def]
    rfl

theorem updateStakePoolAction_updates {noMerge : Bool} (hl : l.Fits) :
    (updateStakePoolAction rt ids rt.programId (.ofPool p) (l.toBytes rest) pool noMerge).map Prod.fst =
      some (chunkUpdates rt ids p pool noMerge 0 (chunks maxValidatorsToUpdate l.validators)) := by
  unfold updateStakePoolAction
  rw [ValidatorList.decode_toBytes hl]
  show (Option.bind (updateListInstructions rt ids rt.programId (.ofPool p) pool noMerge 0
    (chunks maxValidatorsToUpdate (l.validators.map ValidatorStakeInfo.ofInfo))) _).map Prod.fst = _
  rw [chunks_map, updateListInstructions_eq]
  rfl

/-- Each update has the program's accounts of the entries of its chunk. -/
def UpdatesRight (rt : Runtime) (pool : Pubkey) (l : StakePoolFogo.ValidatorList)
    (updates : List TransactionInstruction) : Prop :=
  ∀ (k : Nat) (i : TransactionInstruction) (chunk : List StakePoolFogo.ValidatorStakeInfo),
    updates[k]? = some i → (chunks maxValidatorsToUpdate l.validators)[k]? = some chunk →
    stakePairs (i.keys.drop 7) = chunk.map (ownPair rt pool)

theorem chunkUpdate_pairs {noMerge : Bool} {startIndex : Nat}
    {chunk : List StakePoolFogo.ValidatorStakeInfo} :
    stakePairs ((chunkUpdate rt ids p pool noMerge startIndex chunk).keys.drop 7) =
      chunk.map (derivedPair rt pool) :=
  stakePairs_flatMap (fun v => (derivedPair rt pool v).1) (fun v => (derivedPair rt pool v).2)
    (fun key => ⟨key, false, true⟩) (fun _ => rfl) chunk

theorem chunkUpdates_getElem? {noMerge : Bool} {startIndex k : Nat}
    {cs : List (List StakePoolFogo.ValidatorStakeInfo)} {i : TransactionInstruction} :
    (chunkUpdates rt ids p pool noMerge startIndex cs)[k]? = some i ↔
      ∃ chunk, cs[k]? = some chunk ∧
        i = chunkUpdate rt ids p pool noMerge (startIndex + k * maxValidatorsToUpdate) chunk := by
  rw [chunkUpdates, List.getElem?_mapIdx, Option.map_eq_some_iff]
  simp only [eq_comm]

theorem derivedPair_eq_iff (h : SeedApart rt pool v.voteAccountAddress v.validatorSeedSuffix) :
    derivedPair rt pool v = ownPair rt pool v ↔ v.validatorSeedSuffix = 0 := by
  rw [← h.eq_iff, derivedPair, ownPair, Prod.mk.injEq]
  exact ⟨fun heq => heq.1, fun heq => ⟨heq, rfl⟩⟩

theorem updatesRight_iff {noMerge : Bool}
    (hapart : ∀ v ∈ l.validators, SeedApart rt pool v.voteAccountAddress v.validatorSeedSuffix) :
    UpdatesRight rt pool l (chunkUpdates rt ids p pool noMerge 0 (chunks maxValidatorsToUpdate l.validators)) ↔
      ∀ v ∈ l.validators, v.validatorSeedSuffix = 0 := by
  constructor
  · intro hright v hv
    obtain ⟨n, hn⟩ := List.getElem?_of_mem hv
    obtain ⟨chunk, hchunk, hoffset⟩ := chunk_of_getElem? (by decide : 0 < maxValidatorsToUpdate) hn
    have hpairs := hright _ _ chunk (chunkUpdates_getElem?.mpr ⟨chunk, hchunk, rfl⟩) hchunk
    rw [chunkUpdate_pairs] at hpairs
    have hpair := congrArg (fun pairs => pairs[n % maxValidatorsToUpdate]?) hpairs
    simp only [List.getElem?_map, hoffset, Option.map_some, Option.some.injEq] at hpair
    exact (derivedPair_eq_iff (hapart v hv)).mp hpair
  · intro hzero k i chunk hi hchunk
    obtain ⟨chunk', hchunk', rfl⟩ := chunkUpdates_getElem?.mp hi
    obtain rfl := Option.some.inj (hchunk.symm.trans hchunk')
    rw [chunkUpdate_pairs]
    refine List.map_congr_left fun v hv => ?_
    have hmem := mem_of_mem_chunks (List.mem_of_getElem? hchunk) hv
    exact (derivedPair_eq_iff (hapart v hmem)).mpr (hzero v hmem)

/-! ## The update of the pool afterwards -/

/-- Send instructions one after another, all in one epoch. -/
def execute (rt : Runtime) (sv : Sysvars) (instructions : List TransactionInstruction) (w : Ledger) :
    Except ProgramError Ledger :=
  instructions.foldlM (fun w i => process rt sv i.keys i.data w) w

theorem execute_eq_processAll {sv : Sysvars} {w : Ledger} {instructions : List TransactionInstruction}
    {decoded : TransactionInstruction → StakePoolInstruction}
    (h : ∀ i ∈ instructions, StakePoolInstruction.tryFromSlice i.data = .ok (decoded i)) :
    execute rt sv instructions w =
      processAll rt sv (instructions.map fun i => (i.keys, decoded i)) w := by
  induction instructions generalizing w with
  | nil => rfl
  | cons i instructions ih =>
    have hrest := fun w => @ih w fun j hj => h j (List.mem_cons_of_mem _ hj)
    have hfirst : process rt sv i.keys i.data w = processInstruction rt sv i.keys (decoded i) w := by
      rw [process, h i List.mem_cons_self]
      rfl
    unfold execute processAll at hrest ⊢
    rw [List.map_cons, List.foldlM_cons, List.foldlM_cons, hfirst]
    exact congrArg _ (funext hrest)

theorem reads_flag (b : Bool) : Reads readBool (leBytes 1 (if b then 1 else 0)) b := by
  cases b <;> exact fun _ => rfl

theorem tryFromSlice_chunkUpdate {noMerge : Bool} {startIndex : Nat}
    {chunk : List StakePoolFogo.ValidatorStakeInfo} (h : startIndex < 2 ^ 32) :
    StakePoolInstruction.tryFromSlice (chunkUpdate rt ids p pool noMerge startIndex chunk).data =
      .ok (.updateValidatorListBalance (.ofNat startIndex) noMerge) :=
  StakePoolInstruction.tryFromSlice_of_reads
    (.field (reads_tag 6) (.field (reads_u32 h) (.field (reads_flag noMerge) (.pure _))))

/-- The instruction in the data; anything where there is none. -/
def decoded (i : TransactionInstruction) : StakePoolInstruction :=
  (StakePoolInstruction.tryFromSlice i.data).toOption.getD .updateStakePoolBalance

/-- An update of the client is a crank from a multiple of the chunk size on. -/
theorem mem_chunkUpdates {noMerge : Bool} (hl : l.Fits) {i : TransactionInstruction}
    (hi : i ∈ chunkUpdates rt ids p pool noMerge 0 (chunks maxValidatorsToUpdate l.validators)) :
    StakePoolInstruction.tryFromSlice i.data = .ok (decoded i) ∧ IsCrank pool (i.keys, decoded i) := by
  obtain ⟨k, hk⟩ := List.getElem?_of_mem hi
  obtain ⟨chunk, hchunk, rfl⟩ := chunkUpdates_getElem?.mp hk
  obtain ⟨hbound, -⟩ := (chunks_getElem? (by decide : 0 < maxValidatorsToUpdate)).mp hchunk
  have hlength := hl.length
  rw [Nat.zero_add]
  have hdata : StakePoolInstruction.tryFromSlice
      (chunkUpdate rt ids p pool noMerge (k * maxValidatorsToUpdate) chunk).data =
        .ok (.updateValidatorListBalance (.ofNat (k * maxValidatorsToUpdate)) noMerge) :=
    tryFromSlice_chunkUpdate (by omega)
  have hdecoded : decoded (chunkUpdate rt ids p pool noMerge (k * maxValidatorsToUpdate) chunk) =
      .updateValidatorListBalance (.ofNat (k * maxValidatorsToUpdate)) noMerge := by
    rw [decoded, hdata]
    rfl
  rw [hdecoded]
  exact ⟨hdata, .intro ⟨pool, false, false⟩ _ _ _ rfl rfl⟩

/-- The updates of the client, in any order, leave no entry with seed zero stale. -/
theorem chunkUpdates_refresh (laws : ProgramLaws rt) {sv : Sysvars} {w w' : Ledger} {noMerge : Bool}
    (hl : l.Fits) (hzero : ∀ v ∈ l.validators, v.validatorSeedSuffix = 0) (hp : PoolAt rt w pool p)
    (hlist : ListAt rt w p.validatorList l) {order : List TransactionInstruction}
    (horder : order.Perm (chunkUpdates rt ids p pool noMerge 0 (chunks maxValidatorsToUpdate l.validators)))
    (h : execute rt sv order w = .ok w') :
    ∃ l', ListAt rt w' p.validatorList l' ∧
      ∀ total, sumStakeLamports sv.epoch total l'.validators ≠ .error (.custom .stakeListOutOfDate) := by
  have hupdate := fun i hi => mem_chunkUpdates (i := i) hl (horder.mem_iff.mp hi)
  rw [execute_eq_processAll fun i hi => (hupdate i hi).1] at h
  have hcranks : ∀ j ∈ order.map fun i => (i.keys, decoded i), IsCrank pool j := by
    intro j hj
    obtain ⟨i, hi, rfl⟩ := List.mem_map.mp hj
    exact (hupdate i hi).2
  have hstale : ∀ n v, l.validators[n]? = some v → v.lastUpdateEpoch < sv.epoch →
      ∃ j ∈ order.map fun i => (i.keys, decoded i), (crankOf j).Addresses rt pool n v := by
    -- The entry at `n` is in the chunk `n / 4`.
    intro n v hv _
    have hsize : 0 < maxValidatorsToUpdate := by decide
    obtain ⟨chunk, hchunk, hoffset⟩ := chunk_of_getElem? hsize hv
    obtain ⟨hbound, -⟩ := (chunks_getElem? hsize).mp hchunk
    have hlt : n / maxValidatorsToUpdate * maxValidatorsToUpdate < 2 ^ 32 := by
      have := hl.length
      omega
    let i := chunkUpdate rt ids p pool noMerge (n / maxValidatorsToUpdate * maxValidatorsToUpdate) chunk
    have hmem : i ∈ order := by
      refine horder.mem_iff.mpr (List.mem_of_getElem? (chunkUpdates_getElem?.mpr ⟨chunk, hchunk, ?_⟩))
      rw [Nat.zero_add]
    refine ⟨(i.keys, decoded i), List.mem_map.mpr ⟨i, hmem, rfl⟩, ?_⟩
    have hdecoded : decoded i = .updateValidatorListBalance
        (.ofNat (n / maxValidatorsToUpdate * maxValidatorsToUpdate)) noMerge := by
      rw [decoded, tryFromSlice_chunkUpdate hlt]
      rfl
    rw [hdecoded]
    refine Crank.addresses_of_chunk (UInt32.toNat_ofNat_of_lt' hlt) ?_ hoffset
    refine chunkUpdate_pairs.trans (List.map_congr_left fun x hx => ?_)
    have hx' := hzero x (mem_of_mem_chunks (List.mem_of_getElem? hchunk) hx)
    rw [derivedPair, ValidatorStakeInfo.stakeKey, hx']
  obtain ⟨-, l', hl', hfresh⟩ := processAll_fresh laws hcranks hp hlist h hstale
  exact ⟨l', hl', fun total => sumStakeLamports_not_outOfDate total hfresh⟩

/-! ## Withdrawals -/

/-- The accounts that the program derives for an entry, by the kind the client gives them. -/
inductive OwnAccount (rt : Runtime) (pool : Pubkey) (p : StakePoolFogo.StakePool)
    (v : StakePoolFogo.ValidatorStakeInfo) : AccountType → Pubkey → Prop where
  | preferred (h : p.preferredWithdrawValidatorVoteAddress = some v.voteAccountAddress) :
      OwnAccount rt pool p v .preferred (v.stakeKey rt pool)
  | active (h : p.preferredWithdrawValidatorVoteAddress ≠ some v.voteAccountAddress) :
      OwnAccount rt pool p v .active (v.stakeKey rt pool)
  | transient : OwnAccount rt pool p v .transient (v.transientKey rt pool)

/-- The accounts that stake is withdrawn from: the reserve, or one of the entry of the vote account. -/
inductive Derived (rt : Runtime) (pool : Pubkey) (p : StakePoolFogo.StakePool)
    (l : StakePoolFogo.ValidatorList) : AccountType → Option Pubkey → Pubkey → Prop where
  | reserve : Derived rt pool p l .reserve none p.reserveStake
  | entry {type : AccountType} {key : Pubkey} (v : StakePoolFogo.ValidatorStakeInfo)
      (listed : v ∈ l.validators) (own : OwnAccount rt pool p v type key) :
      Derived rt pool p l type (some v.voteAccountAddress) key

/-- The amounts are taken from the given accounts. -/
theorem takeFrom_mem {stakePool : StakePool} {minBalance : Nat} {skipFee : Bool}
    {accounts : List ValidatorAccount} {remaining : Int} {a : WithdrawAccount}
    (ha : a ∈ (takeFrom stakePool minBalance skipFee accounts remaining).1) :
    ∃ b ∈ accounts, a.stakeAddress = b.stakeAddress ∧ a.voteAddress = b.voteAddress := by
  induction accounts generalizing remaining with
  | nil => cases ha
  | cons b accounts ih =>
    simp only [takeFrom] at ha
    have hlater : ∀ {n : Int}, a ∈ (takeFrom stakePool minBalance skipFee accounts n).1 →
        ∃ x ∈ b :: accounts, a.stakeAddress = x.stakeAddress ∧ a.voteAddress = x.voteAddress := by
      intro n hn
      obtain ⟨x, hx, heq⟩ := ih hn
      exact ⟨x, List.mem_cons_of_mem _ hx, heq⟩
    split at ha
    · exact hlater ha
    · split at ha
      · rw [List.mem_singleton.mp ha]
        exact ⟨b, List.mem_cons_self, rfl, rfl⟩
      · rcases List.mem_cons.mp ha with rfl | ha
        · exact ⟨b, List.mem_cons_self, rfl, rfl⟩
        · exact hlater ha

/-- The accounts of an entry with seed zero are its own, each of its kind. -/
theorem entryAccounts_own {minBalance : Nat} {accounts : List ValidatorAccount}
    (hzero : v.validatorSeedSuffix = 0)
    (h : entryAccounts rt rt.programId (.ofPool p) pool minBalance (.ofInfo v) = some accounts)
    {a : ValidatorAccount} (ha : a ∈ accounts) :
    a.voteAddress = some v.voteAccountAddress ∧ OwnAccount rt pool p v a.type a.stakeAddress := by
  -- With a zero suffix, both addresses are those of the entry.
  have hstake : findStakeProgramAddress rt rt.programId (ValidatorStakeInfo.ofInfo v).voteAccountAddress pool
      none = some (v.stakeKey rt pool) := by
    rw [findStakeProgramAddress_none, ValidatorStakeInfo.stakeKey, hzero]
    rfl
  have htransient : findTransientStakeProgramAddress rt rt.programId
      (ValidatorStakeInfo.ofInfo v).voteAccountAddress pool
      (ValidatorStakeInfo.ofInfo v).transientSeedSuffixStart = some (v.transientKey rt pool) :=
    findTransientStakeProgramAddress_toNat _
  unfold entryAccounts at h
  rw [hstake, htransient] at h
  simp only [Option.bind_eq_bind, Option.bind_some, Option.pure_def] at h
  -- The candidate for the validator stake is preferred when the pool prefers its vote.
  have hactive : ∀ {n : Nat}, a ∈ (if (ValidatorStakeInfo.ofInfo v).activeStakeLamports = 0 then []
      else [(⟨if (StakePool.ofPool p).preferredWithdrawValidatorVoteAddress =
            some (ValidatorStakeInfo.ofInfo v).voteAccountAddress then .preferred else .active,
          some (ValidatorStakeInfo.ofInfo v).voteAccountAddress, v.stakeKey rt pool, n⟩ :
        ValidatorAccount)]) →
      a.voteAddress = some v.voteAccountAddress ∧ OwnAccount rt pool p v a.type a.stakeAddress := by
    intro n hmem
    split at hmem
    · cases hmem
    · rw [List.mem_singleton.mp hmem]
      refine ⟨rfl, ?_⟩
      by_cases hpreferred : (StakePool.ofPool p).preferredWithdrawValidatorVoteAddress =
          some (ValidatorStakeInfo.ofInfo v).voteAccountAddress
      · rw [if_pos hpreferred]
        exact .preferred hpreferred
      · rw [if_neg hpreferred]
        exact .active hpreferred
  split at h
  · cases h
    cases ha
  · split at h
    · cases h
      rcases List.mem_append.mp ha with ha | ha
      · exact hactive ha
      · rw [List.mem_singleton.mp ha]
        exact ⟨rfl, .transient⟩
    · cases h
      exact hactive ha

theorem mem_of_mapM {α β : Type} {f : α → Option (List β)} {xs : List α} {yss : List (List β)}
    (h : xs.mapM f = some yss) {y : β} (hy : y ∈ yss.flatten) : ∃ x ∈ xs, ∃ ys, f x = some ys ∧ y ∈ ys := by
  induction xs generalizing yss with
  | nil =>
    cases h
    cases hy
  | cons x xs ih =>
    rw [List.mapM_cons] at h
    obtain ⟨ys, hys, h⟩ := Option.bind_eq_some_iff.mp h
    obtain ⟨yss', hrest, h⟩ := Option.bind_eq_some_iff.mp h
    cases h
    rcases List.mem_append.mp (List.flatten_cons ▸ hy) with hy | hy
    · exact ⟨x, List.mem_cons_self, ys, hys, hy⟩
    · obtain ⟨x', hx', hmem⟩ := ih hrest hy
      exact ⟨x', List.mem_cons_of_mem _ hx', hmem⟩

/-- Sorting only reorders. -/
theorem mem_sortAccounts {compared : Comparisons}
    {compareFn : Option (ValidatorAccount → ValidatorAccount → Int)}
    {accounts sorted : List ValidatorAccount} (h : sortAccounts compared compareFn accounts = some sorted)
    {a : ValidatorAccount} : a ∈ sorted ↔ a ∈ accounts := by
  simp only [sortAccounts, Option.bind_eq_bind, Option.bind_eq_some_iff, Option.guard_eq_some', exists_const,
    Option.pure_def, Option.some_inj] at h
  obtain ⟨-, rfl⟩ := h
  exact (List.mergeSort_perm _ _).mem_iff

/-- Every account of a plan is the one that the program derives for its vote account. -/
theorem prepareWithdrawAccounts_derived {cluster : Cluster} {compared : Comparisons} {amount : Nat}
    {compareFn : Option (ValidatorAccount → ValidatorAccount → Int)} {skipFee : Bool}
    {accounts : List WithdrawAccount} (hl : l.Fits)
    (hzero : ∀ v ∈ l.validators, v.validatorSeedSuffix = 0)
    (h : prepareWithdrawAccounts rt rt.programId cluster compared (.ofPool p) (l.toBytes rest) pool amount
      compareFn skipFee = some accounts) {a : WithdrawAccount} (ha : a ∈ accounts) :
    ∃ type, Derived rt pool p l type a.voteAddress a.stakeAddress := by
  unfold prepareWithdrawAccounts at h
  rw [ValidatorList.decode_toBytes hl] at h
  simp only [Option.bind_eq_bind, Option.bind_some, Option.bind_eq_some_iff, Option.guard_eq_some',
    exists_const, Option.pure_def, Option.some_inj] at h
  obtain ⟨-, -, entries, hentries, sorted, hsorted, -, -, rfl⟩ := h
  obtain ⟨b, hb, haddress, hvote⟩ := takeFrom_mem ha
  obtain ⟨type, -, hb⟩ := List.mem_flatMap.mp hb
  rw [haddress, hvote]
  refine ⟨b.type, ?_⟩
  -- The chosen account is the reserve or one of an entry, whatever the order.
  rcases List.mem_append.mp (List.mem_filter.mp hb).1 with hb | hb
  · obtain ⟨x, hx, xs, hxs, hmem⟩ := mem_of_mapM hentries ((mem_sortAccounts hsorted).mp hb)
    obtain ⟨v, hv, rfl⟩ := List.mem_map.mp hx
    obtain ⟨hown, haccount⟩ := entryAccounts_own (hzero v hv) hxs hmem
    rw [hown]
    exact .entry v hv haccount
  · split at hb
    · rw [List.mem_singleton.mp hb]
      exact .reserve
    · cases hb

/-- The account at position 3 is the one that stake is withdrawn from. -/
theorem instructions_keyAt (steps : List Step) :
    (steps.filterMap (Step.instruction rt ids)).map (keyAt · 3) =
      (steps.filterMap Step.withdrawn).map (some ·.1) := by
  rw [List.map_filterMap, List.map_filterMap]
  congr 1
  funext step
  cases step <;> rfl

/-- The withdrawals come from the first accounts that `withdrawStake` takes stake from, in their order. -/
theorem withdrawStakeAction_keys {cluster : Cluster} {compared : Comparisons} {stakePool : StakePool}
    {validatorListData : List UInt8} {request : WithdrawStakeRequest}
    {instructions : List TransactionInstruction}
    (h : withdrawStakeAction rt ids rt.programId cluster compared stakePool validatorListData pool request =
      some instructions) :
    ∃ accounts, withdrawAccounts rt rt.programId cluster compared stakePool validatorListData pool request =
        some accounts ∧
      instructions.map (keyAt · 3) =
        (accounts.take (maxWithdrawAccounts + 1)).map (some ·.stakeAddress) := by
  obtain ⟨result, hresult, h⟩ := Option.bind_eq_some_iff.mp h
  cases h
  obtain ⟨-, -, accounts, added, haccounts, -, hinstructions, -, hwithdrawn, -⟩ :=
    withdrawStakeResult_eq_some hresult
  refine ⟨accounts, haccounts, ?_⟩
  rw [hinstructions, instructions_keyAt, List.filterMap_append, hwithdrawn]
  show List.map _ (List.map _ _) = _
  rw [List.map_map]
  rfl

/-- The withdrawals of a request come from the account that was asked for: the reserve, the listed
validator of the receiver or of the request, or else the accounts of the plan, in its order. -/
structure WithdrawRight (rt : Runtime) (p : StakePoolFogo.StakePool) (l : StakePoolFogo.ValidatorList)
    (rest : List UInt8) (pool : Pubkey) (cluster : Cluster) (compared : Comparisons)
    (request : WithdrawStakeRequest) (instructions : List TransactionInstruction) : Prop where
  reserve : request.useReserve = true → ∀ i ∈ instructions, keyAt i 3 = some p.reserveStake
  validator : request.useReserve = false → ∀ v ∈ l.validators,
    (request.receiverVoter <|> request.voteAccountAddress) = some v.voteAccountAddress →
      ∀ i ∈ instructions, keyAt i 3 = some (v.stakeKey rt pool)
  prepared : request.useReserve = false → (request.receiverVoter <|> request.voteAccountAddress) = none →
    ∃ accounts, prepareWithdrawAccounts rt rt.programId cluster compared (.ofPool p) (l.toBytes rest) pool
        request.poolAmount request.validatorComparator
        (request.poolTokenAccount = (StakePool.ofPool p).managerFeeAccount) = some accounts ∧
      instructions.map (keyAt · 3) =
        (accounts.take (maxWithdrawAccounts + 1)).map (some ·.stakeAddress)

theorem withdrawStakeAction_right {cluster : Cluster} {compared : Comparisons}
    {request : WithdrawStakeRequest} {instructions : List TransactionInstruction}
    (hzero : ∀ v ∈ l.validators, v.validatorSeedSuffix = 0)
    (h : withdrawStakeAction rt ids rt.programId cluster compared (.ofPool p) (l.toBytes rest) pool request =
      some instructions) : WithdrawRight rt p l rest pool cluster compared request instructions := by
  obtain ⟨accounts, haccounts, hkeys⟩ := withdrawStakeAction_keys h
  have hmem : ∀ i ∈ instructions, ∃ a ∈ accounts, keyAt i 3 = some a.stakeAddress := by
    intro i hi
    have hkey : keyAt i 3 ∈ instructions.map (keyAt · 3) := List.mem_map_of_mem hi
    rw [hkeys] at hkey
    obtain ⟨a, ha, heq⟩ := List.mem_map.mp hkey
    exact ⟨a, List.mem_of_mem_take ha, heq.symm⟩
  rcases withdrawAccounts_cases haccounts with ⟨huse, rfl⟩ | ⟨huse, vote, check, a, hvote, hsource, rfl⟩ |
    ⟨huse, hnone, hprepared⟩
  · refine ⟨fun _ i hi => ?_, fun hfalse => ?_, fun hfalse => ?_⟩
    · obtain ⟨a, ha, hkey⟩ := hmem i hi
      rw [hkey, List.mem_singleton.mp ha]
      rfl
    · cases huse.symm.trans hfalse
    · cases huse.symm.trans hfalse
  · refine ⟨fun htrue => ?_, fun _ v hv hasked i hi => ?_, fun _ hnone => ?_⟩
    · cases huse.symm.trans htrue
    · obtain ⟨b, hb, hkey⟩ := hmem i hi
      obtain rfl := Option.some.inj (hvote.symm.trans hasked)
      have haddress := (validatorSource_eq_some hsource).1
      rw [findStakeProgramAddress_none] at haddress
      rw [hkey, List.mem_singleton.mp hb, ← haddress, ValidatorStakeInfo.stakeKey, hzero v hv]
    · cases hvote.symm.trans hnone
  · refine ⟨fun htrue => ?_, fun _ v _ hasked => ?_, fun _ _ => ⟨accounts, hprepared, hkeys⟩⟩
    · cases huse.symm.trans htrue
    · cases hasked.symm.trans hnone

/-! ## All actions -/

/-- Every validator stake account that the actions on the list `l` put into an instruction is the one the
program derives, and after the updates of the list the update of the pool finds no stale entry. -/
structure ActionsRight (rt : Runtime) (ids : ProgramIds) (p : StakePoolFogo.StakePool)
    (l : StakePoolFogo.ValidatorList) (rest : List UInt8) (pool newVote : Pubkey) (seed : Option UInt32) :
    Prop where
  add : ∀ i, addValidatorToPoolAction rt ids rt.programId (.ofPool p) (l.toBytes rest) pool newVote
    (seed.map UInt32.toNat) = some i → AddRight rt pool newVote i
  increase : ∀ vote v lamports ephemeral i, l.find vote = some v →
    increaseValidatorStakeAction rt ids rt.programId (.ofPool p) (l.toBytes rest) pool vote lamports
      ephemeral = some i → keyAt i (increaseIndex ephemeral) = some (v.stakeKey rt pool)
  decrease : ∀ vote v lamports ephemeral i, l.find vote = some v →
    decreaseValidatorStakeAction rt ids rt.programId (.ofPool p) (l.toBytes rest) pool vote lamports
      ephemeral = some i → keyAt i 5 = some (v.stakeKey rt pool)
  update : ∀ noMerge updates final, updateStakePoolAction rt ids rt.programId (.ofPool p) (l.toBytes rest)
    pool noMerge = some (updates, final) → UpdatesRight rt pool l updates
  candidates : ∀ minBalance v accounts, v ∈ l.validators →
    entryAccounts rt rt.programId (.ofPool p) pool minBalance (.ofInfo v) = some accounts →
      ∀ a ∈ accounts, a.voteAddress = some v.voteAccountAddress ∧
        OwnAccount rt pool p v a.type a.stakeAddress
  prepare : ∀ cluster compared amount compareFn skipFee accounts, prepareWithdrawAccounts rt rt.programId
    cluster compared (.ofPool p) (l.toBytes rest) pool amount compareFn skipFee = some accounts →
      ∀ a ∈ accounts, ∃ type, Derived rt pool p l type a.voteAddress a.stakeAddress
  withdraw : ∀ cluster compared request instructions, withdrawStakeAction rt ids rt.programId cluster
    compared (.ofPool p) (l.toBytes rest) pool request = some instructions →
      WithdrawRight rt p l rest pool cluster compared request instructions
  fresh : ∀ sv w w' noMerge updates final order, PoolAt rt w pool p → ListAt rt w p.validatorList l →
    updateStakePoolAction rt ids rt.programId (.ofPool p) (l.toBytes rest) pool noMerge =
      some (updates, final) → List.Perm order updates → execute rt sv order w = .ok w' →
    ∃ l', ListAt rt w' p.validatorList l' ∧
      ∀ total, sumStakeLamports sv.epoch total l'.validators ≠ .error (.custom .stakeListOutOfDate)

/-- The actions derive the program's addresses exactly where all seeds are zero. -/
theorem actions_derive (laws : ProgramLaws rt) (hl : l.Fits) (newVote : Pubkey) (seed : Option UInt32)
    (hnew : l.find newVote = none) (hnewApart : SeedApart rt pool newVote (seed.getD 0))
    (hapart : ∀ v ∈ l.validators, SeedApart rt pool v.voteAccountAddress v.validatorSeedSuffix) :
    ActionsRight rt ids p l rest pool newVote seed ↔
      seed.getD 0 = 0 ∧ ∀ v ∈ l.validators, v.validatorSeedSuffix = 0 := by
  obtain ⟨added, hadded, haddRight⟩ : ∃ i, addValidatorToPoolAction rt ids rt.programId (.ofPool p)
      (l.toBytes rest) pool newVote (seed.map UInt32.toNat) = some i ∧
        (AddRight rt pool newVote i ↔ seed.getD 0 = 0) :=
    addValidatorToPoolAction_right hl hnew seed hnewApart
  have hall : ∀ noMerge, (updateStakePoolAction rt ids rt.programId (.ofPool p) (l.toBytes rest) pool
      noMerge).map Prod.fst =
        some (chunkUpdates rt ids p pool noMerge 0 (chunks maxValidatorsToUpdate l.validators)) :=
    fun _ => updateStakePoolAction_updates hl
  have hupdates : ∀ noMerge updates final, updateStakePoolAction rt ids rt.programId (.ofPool p)
      (l.toBytes rest) pool noMerge = some (updates, final) →
      updates = chunkUpdates rt ids p pool noMerge 0 (chunks maxValidatorsToUpdate l.validators) := by
    intro noMerge updates final hupdate
    have hfst := hall noMerge
    rw [hupdate] at hfst
    exact Option.some.inj hfst
  constructor
  · -- The first action fixes the seed of the caller, the update those of all entries.
    intro hright
    refine ⟨haddRight.mp (hright.add _ hadded), ?_⟩
    obtain ⟨⟨updates, final⟩, hupdate, -⟩ := Option.map_eq_some_iff.mp (hall false)
    have hpairs := hright.update false updates final hupdate
    rw [hupdates _ _ _ hupdate] at hpairs
    exact (updatesRight_iff hapart).mp hpairs
  · rintro ⟨hseed, hzero⟩
    -- Without seeds, what the client derives is what the program derives.
    have hstake : ∀ {vote v}, l.find vote = some v →
        (StakePoolFogo.findStakeProgramAddress rt v.voteAccountAddress pool 0).1 = v.stakeKey rt pool := by
      intro vote v hv
      rw [ValidatorStakeInfo.stakeKey, hzero v (ValidatorList.find_mem hv)]
    refine ⟨?_, ?_, ?_, ?_, ?_, ?_, ?_, ?_⟩
    · intro i hi
      cases hadded.symm.trans hi
      exact haddRight.mpr hseed
    · intro vote v lamports ephemeral i hv hi
      rw [increaseValidatorStakeAction_key hl hv hi, hstake hv]
    · intro vote v lamports ephemeral i hv hi
      rw [decreaseValidatorStakeAction_key hl hv hi, hstake hv]
    · intro noMerge updates final hupdate
      rw [hupdates _ _ _ hupdate]
      exact (updatesRight_iff hapart).mpr hzero
    · intro minBalance v accounts hv haccounts a ha
      exact entryAccounts_own (hzero v hv) haccounts ha
    · intro cluster compared amount compareFn skipFee accounts hprepare a ha
      exact prepareWithdrawAccounts_derived hl hzero hprepare ha
    · intro cluster compared request instructions hwithdraw
      exact withdrawStakeAction_right hzero hwithdraw
    · intro sv w w' noMerge updates final order hp hlist hupdate horder hrun
      rw [hupdates _ _ _ hupdate] at horder
      exact chunkUpdates_refresh laws hl hzero hp hlist horder hrun

/-- A list with one validator of the given seed. -/
def seededList (seed : UInt32) : StakePoolFogo.ValidatorList :=
  ⟨⟨.validatorList, 3⟩, [⟨5, 0, 0, 0, 0, seed, ⟨0⟩, Reference.key 70⟩]⟩

def seededPool : StakePoolFogo.StakePool := { StakePoolFogo.StakePool.zeroed with
  accountType := .stakePool
  validatorList := Reference.validatorList
  reserveStake := Reference.reserve }

def seededIds : ProgramIds := ⟨Reference.programId, Reference.key 90⟩

theorem seededList_fits (seed : UInt32) : (seededList seed).Fits := by
  refine ⟨(by decide : 1 < 256 ^ 4), fun v hv => ?_⟩
  rw [List.mem_singleton.mp hv]
  exact ⟨(by decide : 5 < 256 ^ 8), (by decide : 0 < 256 ^ 8), (by decide : 0 < 256 ^ 8)⟩

theorem seededList_apart {seed : UInt32}
    (h : SeedApart Reference.runtime Reference.pool (Reference.key 70) seed) :
    ∀ v ∈ (seededList seed).validators, SeedApart Reference.runtime Reference.pool v.voteAccountAddress
      v.validatorSeedSuffix := by
  intro v hv
  rw [List.mem_singleton.mp hv]
  exact h

theorem actions_derive_seedless :
    ActionsRight Reference.runtime seededIds seededPool (seededList 0) [] Reference.pool (Reference.key 71)
      none := by
  refine (actions_derive Reference.programLaws (seededList_fits 0) (Reference.key 71) none (by decide)
    (fun h => absurd rfl h) (seededList_apart fun h => absurd rfl h)).mpr ⟨rfl, ?_⟩
  intro v hv
  rw [List.mem_singleton.mp hv]

/-- With seed seven, a new validator and the update of a listed one get another account than the
program's. -/
theorem actions_derive_fails_seeded :
    ¬ ActionsRight Reference.runtime seededIds seededPool (seededList 0) [] Reference.pool (Reference.key 71)
        (some 7) ∧
    ¬ ActionsRight Reference.runtime seededIds seededPool (seededList 7) [] Reference.pool (Reference.key 71)
        none := by
  have happart : SeedApart Reference.runtime Reference.pool (Reference.key 70) 7 := by
    intro _
    decide +kernel
  have hnewApart : SeedApart Reference.runtime Reference.pool (Reference.key 71) ((some 7).getD 0) := by
    intro _
    decide +kernel
  constructor
  · intro hright
    obtain ⟨i, hi, hadd⟩ : ∃ i, addValidatorToPoolAction Reference.runtime seededIds
        Reference.runtime.programId (.ofPool seededPool) ((seededList 0).toBytes []) Reference.pool
        (Reference.key 71) ((some 7 : Option UInt32).map UInt32.toNat) = some i ∧
          (AddRight Reference.runtime Reference.pool (Reference.key 71) i ↔
            (some 7 : Option UInt32).getD 0 = 0) :=
      addValidatorToPoolAction_right (seededList_fits 0) (by decide) (some 7) hnewApart
    have hseed := hadd.mp (hright.add i hi)
    revert hseed
    decide
  · intro hright
    have hall : (updateStakePoolAction Reference.runtime seededIds Reference.runtime.programId
        (.ofPool seededPool) ((seededList 7).toBytes []) Reference.pool false).map Prod.fst =
          some (chunkUpdates Reference.runtime seededIds seededPool Reference.pool false 0
            (chunks maxValidatorsToUpdate (seededList 7).validators)) :=
      updateStakePoolAction_updates (seededList_fits 7)
    obtain ⟨⟨updates, final⟩, hupdate, hupdates⟩ := Option.map_eq_some_iff.mp hall
    have hpairs := hright.update false updates final hupdate
    rw [show updates = _ from hupdates] at hpairs
    have hseed := (updatesRight_iff (seededList_apart happart)).mp hpairs _ List.mem_cons_self
    revert hseed
    decide

end JsLegacy

end StakePoolFogo
