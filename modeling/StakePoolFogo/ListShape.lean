import StakePoolFogo.BigVec
import StakePoolFogo.Authority

/-!
# The shape of the validator list

Entries have distinct votes and valid status bytes, and the account has room for as many entries as the
header allows.  So the accesses of the program to the bytes of the list stay inside the account.
-/

open StakePoolFogo.Checked StakePoolFogo.Outcome StakePoolFogo.Buffer

namespace StakePoolFogo

/-! ## The bytes of the list -/

/-- The packed entry, in the order of its fields. -/
def ValidatorStakeInfo.toBytes (v : ValidatorStakeInfo) : List UInt8 :=
  leBytes 8 v.activeStakeLamports ++ leBytes 8 v.transientStakeLamports ++
    leBytes 8 v.lastUpdateEpoch ++ leBytes 8 v.transientSeedSuffix.toNat ++ leBytes 4 v.unused.toNat ++
    leBytes 4 v.validatorSeedSuffix.toNat ++ [v.status.byte] ++ v.voteAccountAddress.toBytes

def AccountType.toByte : AccountType → UInt8
  | .uninitialized => 0
  | .stakePool => 1
  | .validatorList => 2

def ValidatorListHeader.toBytes (h : ValidatorListHeader) : List UInt8 :=
  h.accountType.toByte :: leBytes 4 h.maxValidators.toNat

/-- The data of a list account: header, length prefix and entries, with `rest` behind them. -/
def ValidatorList.toBytes (l : ValidatorList) (rest : List UInt8) : List UInt8 :=
  l.header.toBytes ++ BigVec.encode (l.validators.map ValidatorStakeInfo.toBytes) rest

/-- `ValidatorListHeader::deserialize_vec`: the header and the bytes of the vector behind it. -/
def ValidatorListHeader.deserializeVec (data : List UInt8) :
    Except ProgramError (AccountType × Nat × List UInt8) := do
  let accountType ← match data.head? with
    | some 0 => .ok .uninitialized
    | some 1 => .ok .stakePool
    | some 2 => .ok .validatorList
    | _ => throw .borshIoError
  let maxValidators ← okOr (slice data 1 ValidatorListHeader.packedLen) .borshIoError
  let bigVec ← BigVec.index data ValidatorListHeader.packedLen data.length
  return (accountType, Borsh.ofLeBytes maxValidators, bigVec)

/-- `ValidatorStakeInfo::memcmp_pubkey`, on the bytes of an entry. -/
def memcmpPubkeyBytes (data : List UInt8) (voteAddress : Pubkey) : Bool :=
  (data.drop 41).take 32 == voteAddress.toBytes

theorem Pubkey.toBytes_length (k : Pubkey) : k.toBytes.length = 32 := BigVec.leBytes_length 32 _

theorem Pubkey.toBytes_inj {j k : Pubkey} : j.toBytes = k.toBytes ↔ j = k := by
  refine ⟨fun h => ?_, fun h => by rw [h]⟩
  have hj := BigVec.ofLeBytes_leBytes (n := 32) (v := j.val) (by have := j.val.isLt; omega)
  have hk := BigVec.ofLeBytes_leBytes (n := 32) (v := k.val) (by have := k.val.isLt; omega)
  have hval : (j.val : Nat) = k.val := by
    rw [← hj, ← hk]
    exact congrArg Borsh.ofLeBytes h
  cases j
  cases k
  exact congrArg Pubkey.mk (Fin.ext hval)

theorem ValidatorStakeInfo.toBytes_length (v : ValidatorStakeInfo) :
    v.toBytes.length = ValidatorStakeInfo.packedLen := by
  simp only [toBytes, List.length_append, BigVec.leBytes_length, List.length_singleton,
    Pubkey.toBytes_length]
  rfl

/-- The vote is where `memcmp_pubkey` looks for it. -/
theorem memcmpPubkeyBytes_toBytes (v : ValidatorStakeInfo) (vote : Pubkey) :
    memcmpPubkeyBytes v.toBytes vote = v.memcmpPubkey vote := by
  have hbytes : (v.toBytes.drop 41).take 32 = v.voteAccountAddress.toBytes := by
    have hfront : 41 = (leBytes 8 v.activeStakeLamports ++ leBytes 8 v.transientStakeLamports ++
        leBytes 8 v.lastUpdateEpoch ++ leBytes 8 v.transientSeedSuffix.toNat ++
        leBytes 4 v.unused.toNat ++ leBytes 4 v.validatorSeedSuffix.toNat ++
        [v.status.byte]).length := by
      simp only [List.length_append, BigVec.leBytes_length, List.length_singleton]
    rw [ValidatorStakeInfo.toBytes, hfront, List.drop_left]
    exact List.take_of_length_le (by rw [Pubkey.toBytes_length])
  rw [memcmpPubkeyBytes, hbytes, ValidatorStakeInfo.memcmpPubkey, Bool.eq_iff_iff, beq_iff_eq,
    beq_iff_eq, Pubkey.toBytes_inj]

/-! ## Well-formed lists -/

/-- A list in an account of `dataLen` bytes. -/
structure ValidatorList.WellFormed (dataLen : Nat) (l : ValidatorList) : Prop where
  distinct : (l.validators.map (·.voteAccountAddress)).Nodup
  length_le : l.validators.length ≤ l.header.maxValidators.toNat
  max_le : l.header.maxValidators.toNat ≤ maxValidatorsInPool
  capacity : 9 + 73 * l.header.maxValidators.toNat ≤ dataLen
  status : ∀ v ∈ l.validators, ∃ s : StakeStatus, v.status = s.toPod

/-- Rewriting an entry keeps its vote and leaves a valid status valid. -/
structure ValidatorStakeInfo.SameShape (v v' : ValidatorStakeInfo) : Prop where
  vote : v'.voteAccountAddress = v.voteAccountAddress
  status : (∃ s : StakeStatus, v.status = s.toPod) → ∃ s : StakeStatus, v'.status = s.toPod

theorem ValidatorStakeInfo.SameShape.refl (v : ValidatorStakeInfo) : v.SameShape v := ⟨rfl, id⟩

theorem StatusMoves.valid {s s' : PodStakeStatus} (h : StatusMoves s s')
    (hs : ∃ t : StakeStatus, s = t.toPod) : ∃ t : StakeStatus, s' = t.toPod := by
  rcases h with rfl | rfl | rfl | ⟨-, rfl⟩
  · exact hs
  · exact ⟨_, rfl⟩
  · exact ⟨_, rfl⟩
  · exact ⟨_, rfl⟩

theorem EntryRefresh.sameShape {epoch : Epoch} {v v' : ValidatorStakeInfo}
    (h : EntryRefresh epoch v v') : v.SameShape v' := by
  rcases h with rfl | ⟨status, active, transient, hmoves, rfl⟩
  · exact .refl v'
  · exact ⟨rfl, hmoves.valid⟩

theorem recordStakeWithdrawal_sameShape {v v' : ValidatorStakeInfo} {source : StakeWithdrawSource}
    {lamports : Nat} (h : recordStakeWithdrawal v source lamports = .ok v') : v.SameShape v' := by
  cases source with
  | active | transient =>
    simp only [recordStakeWithdrawal, bind_eq_ok, pure_eq_ok] at h
    obtain ⟨_, -, rfl⟩ := h
    exact ⟨rfl, id⟩
  | validatorRemoval =>
    simp only [recordStakeWithdrawal, bind_eq_ok, exists_unit, pure_eq_ok] at h
    obtain ⟨_, -, -, rfl⟩ := h
    exact ⟨rfl, fun _ => ⟨.readyForRemoval, rfl⟩⟩

/-- What a step does to the list: one entry more, entries rewritten in place, or entries dropped. -/
inductive ListStep (l : ValidatorList) : ValidatorList → Prop where
  | added (v : ValidatorStakeInfo) (room : l.header.maxValidators.toNat ≠ l.validators.length)
      (notListed : l.find v.voteAccountAddress = none) (status : v.status = StakeStatus.active.toPod) :
      ListStep l { l with validators := l.validators ++ [v] }
  | rewritten {l' : ValidatorList} (header : l'.header = l.header)
      (entries : List.Forall₂ ValidatorStakeInfo.SameShape l.validators l'.validators) : ListStep l l'
  | cleaned : ListStep l l.cleaned

theorem ListStep.refl (l : ValidatorList) : ListStep l l :=
  .rewritten rfl (List.forall₂_same.mpr fun v _ => .refl v)

theorem ListStep.of_modify {l : ValidatorList} {vote : Pubkey} {v v' : ValidatorStakeInfo}
    (found : l.find vote = some v) (same : v.SameShape v') :
    ListStep l (l.modify vote fun _ => v') :=
  .rewritten rfl (ValidatorList.modify_forall₂ .refl found same)

theorem BookStep.listStep {rt : Runtime} {sv : Sysvars} {signed : Pubkey → Prop} {k : Pubkey}
    {p p' : StakePool} {l l' : ValidatorList} (h : BookStep rt sv signed k p l p' l') :
    ListStep l l' := by
  cases h with
  | addValidator vote seed _ _ room notListed => exact .added _ room notListed rfl
  | removeValidator vote v status _ found _ _ => exact .of_modify found ⟨rfl, fun _ => ⟨status, rfl⟩⟩
  | rebalance vote v _ _ _ _ found _ => exact .of_modify found ⟨rfl, id⟩
  | updateList _ header entries =>
    exact .rewritten header (entries.imp fun _ _ hentry => hentry.sameShape)
  | cleanup | cleanupPreferred => exact .cleaned
  | depositStake vote v _ _ _ found _ _ => exact .of_modify found ⟨rfl, id⟩
  | withdrawStake vote v v' _ _ _ found _ record _ _ _ =>
    exact .of_modify found (recordStakeWithdrawal_sameShape record)
  | _ => exact .refl l

/-- The vote accounts of the entries. -/
def ValidatorList.votes (l : ValidatorList) : List Pubkey := l.validators.map (·.voteAccountAddress)

theorem sameShape_votes {vs vs' : List ValidatorStakeInfo}
    (h : List.Forall₂ ValidatorStakeInfo.SameShape vs vs') :
    vs'.map (·.voteAccountAddress) = vs.map (·.voteAccountAddress) := by
  induction h with
  | nil => rfl
  | cons hentry _ ih => rw [List.map_cons, List.map_cons, hentry.vote, ih]

theorem ListStep.wellFormed {n : Nat} {l l' : ValidatorList} (hstep : ListStep l l')
    (h : l.WellFormed n) : l'.WellFormed n := by
  cases hstep with
  | added v room notListed status =>
    -- No entry of the old list has the new vote.
    have hnew : v.voteAccountAddress ∉ l.validators.map (·.voteAccountAddress) := by
      intro hmem
      obtain ⟨u, hu, hvote⟩ := List.mem_map.mp hmem
      have hnot := List.find?_eq_none.mp notListed u hu
      simp [ValidatorStakeInfo.memcmpPubkey, hvote] at hnot
    have hlength := h.length_le
    refine ⟨?_, ?_, h.max_le, h.capacity, ?_⟩
    · rw [List.map_append]
      refine List.nodup_append.mpr ⟨h.distinct, List.nodup_singleton _, fun a ha b hb heq => hnew ?_⟩
      have hvote : b = v.voteAccountAddress := List.mem_singleton.mp hb
      rw [← hvote, ← heq]
      exact ha
    · show (l.validators ++ [v]).length ≤ l.header.maxValidators.toNat
      rw [List.length_append, List.length_singleton]
      omega
    · intro u hu
      rcases List.mem_append.mp hu with hu | hu
      · exact h.status u hu
      · rw [List.mem_singleton.mp hu]
        exact ⟨_, status⟩
  | rewritten header entries =>
    have hvotes := sameShape_votes entries
    have hlength := entries.length_eq
    refine ⟨by rw [hvotes]; exact h.distinct, by rw [header, ← hlength]; exact h.length_le,
      by rw [header]; exact h.max_le, by rw [header]; exact h.capacity, fun v' hv' => ?_⟩
    obtain ⟨i, hi, rfl⟩ := List.mem_iff_getElem.mp hv'
    have hi' : i < l.validators.length := by omega
    exact (entries.get hi' hi).status (h.status _ (List.getElem_mem hi'))
  | cleaned =>
    have hsub : l.cleaned.validators.Sublist l.validators := List.filter_sublist
    exact ⟨h.distinct.sublist (hsub.map _), Nat.le_trans hsub.length_le h.length_le, h.max_le,
      h.capacity, fun v hv => h.status v (hsub.mem hv)⟩

/-- The truncating division of `calculate_max_validators` leaves room for every entry it counts. -/
theorem capacity_of_max {dataLen : Nat} {maxValidators : UInt32}
    (h : ValidatorList.calculateMaxValidators dataLen = maxValidators.toNat)
    (hne : maxValidators ≠ 0) : 9 + 73 * maxValidators.toNat ≤ dataLen := by
  have hpos : maxValidators.toNat ≠ 0 := fun h0 => hne (UInt32.toNat_inj.mp h0)
  have hdiv : (dataLen - 9) / 73 = maxValidators.toNat := h
  omega

/-- `deserialize_vec` finds the header and the vector. -/
theorem deserializeVec_toBytes (l : ValidatorList) (rest : List UInt8) :
    ValidatorListHeader.deserializeVec (l.toBytes rest) = .ok (l.header.accountType,
      l.header.maxValidators.toNat, BigVec.encode (l.validators.map ValidatorStakeInfo.toBytes) rest) := by
  have hbytes : l.toBytes rest = [l.header.accountType.toByte] ++ leBytes 4 l.header.maxValidators.toNat ++
      BigVec.encode (l.validators.map ValidatorStakeInfo.toBytes) rest := rfl
  have hmax : slice (l.toBytes rest) 1 ValidatorListHeader.packedLen =
      some (leBytes 4 l.header.maxValidators.toNat) := by
    rw [hbytes]
    exact slice_append [l.header.accountType.toByte] _ _ rfl (by rw [BigVec.leBytes_length]; rfl)
  have hrest : BigVec.index (l.toBytes rest) ValidatorListHeader.packedLen (l.toBytes rest).length =
      .ok (BigVec.encode (l.validators.map ValidatorStakeInfo.toBytes) rest) := by
    rw [hbytes, ← List.append_nil (_ ++ _ ++ _)]
    refine BigVec.index_append
      ([l.header.accountType.toByte] ++ leBytes 4 l.header.maxValidators.toNat) _ _ ?_ ?_
    · rw [List.length_append, BigVec.leBytes_length]
      rfl
    · rw [List.append_nil, List.length_append]
  have hhead : (l.toBytes rest).head? = some l.header.accountType.toByte := by rw [hbytes]; rfl
  have hvalue : Borsh.ofLeBytes (leBytes 4 l.header.maxValidators.toNat) =
      l.header.maxValidators.toNat :=
    BigVec.ofLeBytes_leBytes (Nat.lt_of_lt_of_le l.header.maxValidators.toNat_lt (by decide))
  simp only [ValidatorListHeader.deserializeVec, hhead, hmax, hrest, okOr_some, ok_bind, hvalue]
  cases l.header.accountType <;> rfl

theorem Reachable.listWellFormed {rt : Runtime} (laws : ProgramLaws rt) {s : World}
    (hs : Reachable rt s) {k : Pubkey} {p : StakePool} {l : ValidatorList}
    (hp : PoolAt rt s.ledger k p) (hl : ListAt rt s.ledger p.validatorList l) :
    l.WellFormed (s.ledger p.validatorList).dataLen := by
  refine hs.invariant laws (P := fun n _ l => l.WellFormed n) (fun r => ?_)
    (fun hstep h => hstep.listStep.wellFormed h) hp hl
  exact ⟨List.nodup_nil, Nat.zero_le _, r.max_le, capacity_of_max r.capacity r.max_ne,
    fun v hv => absurd hv List.not_mem_nil⟩

/-! ## Accesses to the bytes -/

variable {l : ValidatorList} {n : Nat} {rest : List UInt8}

theorem ValidatorList.toBytes_length (l : ValidatorList) (rest : List UInt8) :
    (l.toBytes rest).length = 9 + 73 * l.validators.length + rest.length := by
  have hentries : (l.validators.map ValidatorStakeInfo.toBytes).flatten.length =
      l.validators.length * 73 := by
    have hsizes : ∀ item ∈ l.validators.map ValidatorStakeInfo.toBytes, item.length = 73 := by
      intro item hitem
      obtain ⟨v, -, rfl⟩ := List.mem_map.mp hitem
      exact v.toBytes_length
    rw [flatten_length hsizes, List.length_map]
  have hheader : l.header.toBytes.length = 5 := by
    rw [ValidatorListHeader.toBytes, List.length_cons, BigVec.leBytes_length]
  rw [toBytes, BigVec.encode, List.length_append, List.length_append, List.length_append, hheader,
    BigVec.leBytes_length, hentries]
  show 5 + (4 + l.validators.length * 73 + rest.length) = 9 + 73 * l.validators.length + rest.length
  omega

/-- The entries of a well-formed list, as bytes of an account of its size. -/
theorem ValidatorList.WellFormed.layout (h : l.WellFormed n) (hn : n < 2 ^ 64)
    (hdata : (l.toBytes rest).length = n) : BigVec.Layout ValidatorStakeInfo.packedLen
      (l.validators.map ValidatorStakeInfo.toBytes) rest := by
  have hlength := h.length_le
  have hmax := h.max_le
  have htotal := hdata
  rw [toBytes_length] at htotal
  have hbound : maxValidatorsInPool < 2 ^ 32 := by decide
  refine ⟨by decide, fun item hitem => ?_, ?_, ?_⟩
  · obtain ⟨v, -, rfl⟩ := List.mem_map.mp hitem
    exact v.toBytes_length
  · rw [List.length_map]
    omega
  · rw [List.length_map]
    show 4 + l.validators.length * 73 + rest.length < 2 ^ 64
    omega

/-- The list of a reachable pool is well formed: distinct votes, at most as many entries as the header
allows, which is at most the limit and at most what fits, and valid status bytes.  So whatever stands
behind the entries in the account, no access to its bytes leaves the account: `find` and `find_mut`
look at the entries, `retain` keeps those it is asked to keep, `deserialize_slice` fails only where it
is asked for more entries than there are, and `push` has room for an entry whenever
`AddValidatorToPool` comes to it. -/
theorem validator_list_well_formed {rt : Runtime} (laws : ProgramLaws rt) {s : World}
    (hs : Reachable rt s) {k : Pubkey} {p : StakePool} (hp : PoolAt rt s.ledger k p)
    (hl : ListAt rt s.ledger p.validatorList l)
    (hn : (s.ledger p.validatorList).dataLen < 2 ^ 64) :
    l.WellFormed (s.ledger p.validatorList).dataLen ∧
    (∀ w v, (w p.validatorList).dataLen = (s.ledger p.validatorList).dataLen →
      l.header.maxValidators.toNat ≠ l.validators.length → pushValidator w p.validatorList l v =
        .ok (writeValidatorList w p.validatorList { l with validators := l.validators ++ [v] })) ∧
    ∀ rest, (l.toBytes rest).length = (s.ledger p.validatorList).dataLen →
      let entries := l.validators.map ValidatorStakeInfo.toBytes
      let data := BigVec.encode entries rest
      ValidatorListHeader.deserializeVec (l.toBytes rest) =
        .ok (.validatorList, l.header.maxValidators.toNat, data) ∧
      (∀ predicate, BigVec.find ValidatorStakeInfo.packedLen predicate data =
        .ok ((entries.findIdx? predicate).map fun i =>
          BigVec.vecSizeBytes + i * ValidatorStakeInfo.packedLen)) ∧
      (∀ predicate, ∃ freed, BigVec.retain ValidatorStakeInfo.packedLen predicate data =
        .ok (BigVec.encode (entries.filter predicate) (freed ++ rest))) ∧
      (∀ skip length, BigVec.deserializeSlice ValidatorStakeInfo.packedLen skip length data =
        if skip + length ≤ entries.length then .ok ((entries.drop skip).take length).flatten
        else .error .accountDataTooSmall) ∧
      (l.header.maxValidators.toNat ≠ l.validators.length → ∀ v : ValidatorStakeInfo,
        BigVec.push ValidatorStakeInfo.packedLen v.toBytes data =
          .ok (BigVec.encode (entries ++ [v.toBytes]) (rest.drop ValidatorStakeInfo.packedLen))) := by
  have h := hs.listWellFormed laws hp hl
  refine ⟨h, fun w v hlen hroom => ?_, fun rest hdata => ?_⟩
  · have hfits : ¬ (w p.validatorList).dataLen <
        ValidatorList.packedLen (l.validators.length + 1) := by
      -- The account was sized for all the validators the header allows.
      have hcapacity := h.capacity
      have hlength := h.length_le
      rw [hlen]
      show ¬ _ < 1 + 4 + 4 + (l.validators.length + 1) * 73
      omega
    rw [pushValidator, failIf_neg hfits]
    rfl
  -- In its bytes, the entries are laid out for the vector, which gives each access.
  have hlayout := h.layout hn hdata
  refine ⟨?_, fun predicate => BigVec.find_encode predicate hlayout, fun predicate => ?_,
    fun skip length => BigVec.deserializeSlice_encode hlayout, fun hroom v => ?_⟩
  · have hvalid : l.header.accountType = .validatorList := hl.valid
    rw [deserializeVec_toBytes, hvalid]
  · obtain ⟨freed, -, hretain⟩ := BigVec.retain_encode predicate hlayout
    exact ⟨freed, hretain⟩
  · have hcapacity := h.capacity
    have hlength := h.length_le
    have hmax := h.max_le
    have hbound : maxValidatorsInPool < 2 ^ 31 := by decide
    rw [ValidatorList.toBytes_length] at hdata
    -- The bytes behind the entries are the room for those that are still allowed.
    refine BigVec.push_encode hlayout v.toBytes_length ?_ ?_
    · rw [List.length_map]
      omega
    · show 73 ≤ rest.length
      omega

open Reference in
/-- The account of the reference pool's list has 739 bytes, for ten entries, and holds one. -/
theorem validator_list_well_formed_staked : ∃ p l, PoolAt runtime staked.ledger pool p ∧
    ListAt runtime staked.ledger p.validatorList l ∧ l.validators.length = 1 ∧
    (staked.ledger p.validatorList).dataLen = 739 ∧ l.WellFormed 739 := by
  obtain ⟨p, hp, hlist⟩ : ∃ p, PoolAt runtime staked.ledger pool p ∧
      p.validatorList = validatorList := PoolAt.of_load _ (by decide +kernel)
  obtain ⟨l, hl, hlength⟩ : ∃ l, ListAt runtime staked.ledger validatorList l ∧
      l.validators.length = 1 := ListAt.of_load (fun l => l.validators.length) (by decide +kernel)
  rw [← hlist] at hl
  have hlen : (staked.ledger p.validatorList).dataLen = 739 := by
    rw [hlist]
    decide +kernel
  have hword : (staked.ledger p.validatorList).dataLen < 2 ^ 64 := by
    rw [hlen]
    decide
  obtain ⟨hshape, -⟩ := validator_list_well_formed programLaws staked_reachable hp hl hword
  rw [hlen] at hshape
  exact ⟨p, l, hp, hl, hlength, hlen, hshape⟩

end StakePoolFogo
