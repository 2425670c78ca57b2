import StakePoolFogo.BigVec.Raw
import StakePoolFogo.Decoding

/-!
# The raw view of the validator list

The handlers look at the bytes of the list: they cast entries of the packed struct, and they compare
bytes at fixed offsets.  What they see is what Borsh decodes.
-/

open StakePoolFogo.Codec StakePoolFogo.Outcome StakePoolFogo.Buffer

namespace StakePoolFogo

namespace ValidatorStakeInfo

/-- The number in the `n` bytes from `offset` on. -/
def fieldAt (data : List UInt8) (offset n : Nat) : Nat := Borsh.ofLeBytes ((data.drop offset).take n)

/-- `bytemuck`'s cast: the fields of the packed struct at their offsets. -/
def ofBytes (data : List UInt8) : ValidatorStakeInfo where
  activeStakeLamports := fieldAt data 0 8
  transientStakeLamports := fieldAt data 8 8
  lastUpdateEpoch := fieldAt data 16 8
  transientSeedSuffix := UInt64.ofNat (fieldAt data 24 8)
  unused := UInt32.ofNat (fieldAt data 32 4)
  validatorSeedSuffix := UInt32.ofNat (fieldAt data 36 4)
  status := ⟨data.getD 40 0⟩
  voteAccountAddress := Pubkey.ofNat (fieldAt data 41 32)

/-- `active_lamports_greater_than`, on the bytes of an entry. -/
def activeLamportsGreaterThanBytes (data : List UInt8) (lamports : Nat) : Bool :=
  fieldAt data 0 8 > lamports

/-- `transient_lamports_greater_than`, on the bytes of an entry. -/
def transientLamportsGreaterThanBytes (data : List UInt8) (lamports : Nat) : Bool :=
  fieldAt data 8 8 > lamports

/-- `is_removed`, on the bytes of an entry. -/
def isRemovedBytes (data : List UInt8) : Bool :=
  PodStakeStatus.toStatus? ⟨data.getD 40 0⟩ == some .readyForRemoval &&
    data.take 16 == List.replicate 16 0

/-- `is_active`, on the bytes of an entry. -/
def isActiveBytes (data : List UInt8) : Bool :=
  PodStakeStatus.toStatus? ⟨data.getD 40 0⟩ == some .active

end ValidatorStakeInfo

namespace ValidatorListHeader

/-- `try_cast_slice`: a slice of bytes as entries. -/
def castSlice (bytes : List UInt8) : Except ProgramError (List ValidatorStakeInfo) := do
  failIf (bytes.length % ValidatorStakeInfo.packedLen ≠ 0) .invalidAccountData
  return (items ValidatorStakeInfo.packedLen 0 (bytes.length / ValidatorStakeInfo.packedLen) bytes).map
    ValidatorStakeInfo.ofBytes

/-- `deserialize_slice` and `deserialize_mut_slice`. -/
def deserializeSlice (bigVec : List UInt8) (skip length : Nat) :
    Except ProgramError (List ValidatorStakeInfo) := do
  castSlice (← BigVec.deserializeSlice ValidatorStakeInfo.packedLen skip length bigVec)

/-- `find` and `find_mut`. -/
def find (predicate : List UInt8 → Bool) (bigVec : List UInt8) :
    Except ProgramError (Option ValidatorStakeInfo) := do
  let found ← BigVec.find ValidatorStakeInfo.packedLen predicate bigVec
  return found.map fun offset =>
    .ofBytes ((bigVec.drop offset).take ValidatorStakeInfo.packedLen)

/-- `*find_mut(predicate) = v` if there is such an entry, in the data of the account. -/
def writeFound (predicate : List UInt8 → Bool) (v : ValidatorStakeInfo) (data : List UInt8) :
    Except ProgramError (List UInt8) := do
  let (_, _, bigVec) ← deserializeVec data
  match ← BigVec.find ValidatorStakeInfo.packedLen predicate bigVec with
  | some offset => return patch data (packedLen + offset) v.toBytes
  | none => return data

/-- `deserialize_mut_slice(skip, length)?[i] = v`, in the data of the account. -/
def writeSlice (skip length i : Nat) (v : ValidatorStakeInfo) (data : List UInt8) :
    Except ProgramError (List UInt8) := do
  let (_, _, bigVec) ← deserializeVec data
  let slice ← deserializeSlice bigVec skip length
  failIf (slice.length ≤ i) .programFailedToComplete
  return patch data (packedLen + BigVec.vecSizeBytes + (skip + i) * ValidatorStakeInfo.packedLen)
    v.toBytes

end ValidatorListHeader

/-! ## The cast is the decoder -/

theorem drop_step (data : List UInt8) (offset n : Nat) :
    (data.drop offset).take n ++ data.drop (offset + n) = data.drop offset := by
  rw [← List.drop_drop, List.take_append_drop]

namespace ValidatorStakeInfo

variable {data : List UInt8} {v : ValidatorStakeInfo}

theorem status_bytes (h : data.length = packedLen) : [data.getD 40 0] = (data.drop 40).take 1 := by
  have hlt : 40 < data.length := by
    rw [h]
    decide
  rw [List.getD_eq_getElem _ _ hlt, List.drop_eq_getElem_cons hlt]
  rfl

/-- An entry's bytes, cut at the offsets of the fields. -/
theorem fields_flatten (h : data.length = packedLen) : List.flatten [
    (data.drop 0).take 8, (data.drop 8).take 8, (data.drop 16).take 8, (data.drop 24).take 8,
    (data.drop 32).take 4, (data.drop 36).take 4, [data.getD 40 0], (data.drop 41).take 32] = data := by
  have hlast : (data.drop 41).take 32 = data.drop 41 := by
    refine List.take_of_length_le ?_
    rw [List.length_drop, h]
    decide
  simp only [List.flatten_cons, List.flatten_nil, List.append_nil]
  rw [hlast, status_bytes h, drop_step data 40 1, drop_step data 36 4, drop_step data 32 4,
    drop_step data 24 8, drop_step data 16 8, drop_step data 8 8, drop_step data 0 8, List.drop_zero]

theorem length_field {offset n : Nat} (h : data.length = packedLen) (hin : offset + n ≤ 73) :
    ((data.drop offset).take n).length = n := by
  have hlength : data.length = 73 := h
  rw [List.length_take, List.length_drop]
  omega

theorem reads_field {offset n : Nat} (h : data.length = packedLen) (hin : offset + n ≤ 73) :
    Reads (Borsh.readNat n) ((data.drop offset).take n) (fieldAt data offset n) :=
  (Borsh.reads_bytes _ (length_field h hin)).map Borsh.ofLeBytes

/-- Whatever the 73 bytes, Borsh decodes them as the cast reads them. -/
theorem reads_ofBytes (h : data.length = packedLen) :
    Reads Borsh.readValidatorStakeInfo data (ofBytes data) := by
  have hreads : Reads Borsh.readValidatorStakeInfo (List.flatten [
      (data.drop 0).take 8, (data.drop 8).take 8, (data.drop 16).take 8, (data.drop 24).take 8,
      (data.drop 32).take 4, (data.drop 36).take 4, [data.getD 40 0], (data.drop 41).take 32])
      (ofBytes data) :=
    .field (reads_field h (by decide)) <| .field (reads_field h (by decide)) <|
    .field (reads_field h (by decide)) <| .field ((reads_field h (by decide)).map UInt64.ofNat) <|
    .field ((reads_field h (by decide)).map UInt32.ofNat) <|
    .field ((reads_field h (by decide)).map UInt32.ofNat) <| .field (Borsh.reads_u8 _) <|
    .field ((reads_field h (by decide)).map Pubkey.ofNat) <| .pure _
  rwa [fields_flatten h] at hreads

/-- So the cast gives back what was serialized. -/
theorem ofBytes_toBytes (h : v.Fits) : ofBytes v.toBytes = v := by
  exact (reads_ofBytes v.toBytes_length).eq_of_initial (Borsh.reads_validatorStakeInfo h)
    (List.prefix_refl _)

/-! ## Predicates on bytes -/

theorem memcmpPubkeyBytes_eq (h : data.length = packedLen) (vote : Pubkey) :
    memcmpPubkeyBytes data vote = (ofBytes data).memcmpPubkey vote := by
  have hlength : ((data.drop 41).take 32).length = 32 := length_field h (by decide)
  -- 32 bytes are the bytes of the key that they spell.
  have hkey : (Pubkey.ofNat (fieldAt data 41 32)).toBytes = (data.drop 41).take 32 := by
    have hlt := BigVec.ofLeBytes_lt ((data.drop 41).take 32)
    have hbytes := BigVec.leBytes_ofLeBytes ((data.drop 41).take 32)
    rw [hlength] at hlt hbytes
    show leBytes 32 (Borsh.ofLeBytes ((data.drop 41).take 32) % 2 ^ 256) = _
    rw [Nat.mod_eq_of_lt (Nat.lt_of_lt_of_le hlt (by decide)), hbytes]
  rw [memcmpPubkeyBytes, ← hkey, memcmpPubkey, Bool.eq_iff_iff, beq_iff_eq, beq_iff_eq,
    Pubkey.toBytes_inj]
  rfl

theorem ofLeBytes_eq_zero {bytes : List UInt8} :
    Borsh.ofLeBytes bytes = 0 ↔ bytes = List.replicate bytes.length 0 := by
  induction bytes with
  | nil => exact iff_of_true rfl rfl
  | cons b bytes ih =>
    have hbyte : b.toNat = 0 ↔ b = 0 := by rw [← UInt8.toNat_inj]; rfl
    rw [Borsh.ofLeBytes, List.length_cons, List.replicate_succ, List.cons.injEq, ← ih, ← hbyte]
    omega

/-- The first 16 bytes are zero if both amounts are. -/
theorem isRemovedBytes_eq (h : data.length = packedLen) :
    isRemovedBytes data = (ofBytes data).isRemoved := by
  have hsplit : data.take 16 = (data.drop 0).take 8 ++ (data.drop 8).take 8 := by
    rw [List.drop_zero, ← List.take_add]
  have hzero : List.replicate 16 (0 : UInt8) = List.replicate 8 0 ++ List.replicate 8 0 := rfl
  have hactive : fieldAt data 0 8 = 0 ↔ (data.drop 0).take 8 = List.replicate 8 0 := by
    rw [fieldAt, ofLeBytes_eq_zero, length_field h (by decide)]
  have htransient : fieldAt data 8 8 = 0 ↔ (data.drop 8).take 8 = List.replicate 8 0 := by
    rw [fieldAt, ofLeBytes_eq_zero, length_field h (by decide)]
  rw [Bool.eq_iff_iff]
  simp only [isRemovedBytes, isRemoved, ofBytes, Bool.and_eq_true, beq_iff_eq, hactive, htransient,
    hsplit, hzero, and_assoc]
  have hlength : ((data.drop 0).take 8).length = (List.replicate 8 (0 : UInt8)).length :=
    (length_field h (by decide)).trans List.length_replicate.symm
  rw [List.append_eq_append_iff_of_size_eq_left hlength]

end ValidatorStakeInfo

/-! ## The list -/

namespace Borsh

theorem reads_validatorList {l : ValidatorList} (h : l.Fits) (rest : List UInt8) :
    readValidatorList (l.toBytes rest) = some (l, rest) := by
  have hreads : Reads readValidatorList (List.flatten [[l.header.accountType.toByte],
      leBytes 4 l.header.maxValidators.toNat, leBytes 4 l.validators.length,
      (l.validators.map ValidatorStakeInfo.toBytes).flatten]) l := by
    have hentries : Reads (readMany readValidatorStakeInfo l.validators.length)
        (l.validators.map ValidatorStakeInfo.toBytes).flatten (l.validators.map id) :=
      .many l.validators fun v hv => reads_validatorStakeInfo (h.entries v hv)
    rw [List.map_id] at hentries
    exact .field (reads_accountType _) <| .field (reads_borshU32 _) <| .field (reads_nat h.length) <|
      .field hentries <| .pure _
  rw [l.toBytes_parts]
  exact hreads rest

end Borsh

section List

variable {l : ValidatorList} {rest : List UInt8} {v : ValidatorStakeInfo} {i : Nat}

theorem ValidatorList.Fits.layout (h : l.Fits) (hlength : (l.toBytes rest).length < 2 ^ 64) :
    BigVec.Layout ValidatorStakeInfo.packedLen (l.validators.map ValidatorStakeInfo.toBytes) rest where
  size_pos := by decide
  sizes item hitem := by
    obtain ⟨v, -, rfl⟩ := List.mem_map.mp hitem
    exact v.toBytes_length
  count := by
    rw [List.length_map]
    exact h.length
  fits := by
    rw [ValidatorList.toBytes_length] at hlength
    rw [List.length_map]
    show 4 + l.validators.length * 73 + rest.length < 2 ^ 64
    omega

/-- A slice of entries casts to what they were serialized from. -/
theorem castSlice_flatten {vs : List ValidatorStakeInfo} (h : ∀ v ∈ vs, v.Fits) :
    ValidatorListHeader.castSlice (vs.map ValidatorStakeInfo.toBytes).flatten = .ok vs := by
  have hsizes : ∀ item ∈ vs.map ValidatorStakeInfo.toBytes, item.length = ValidatorStakeInfo.packedLen := by
    intro item hitem
    obtain ⟨v, -, rfl⟩ := List.mem_map.mp hitem
    exact v.toBytes_length
  have hlength : (vs.map ValidatorStakeInfo.toBytes).flatten.length =
      vs.length * ValidatorStakeInfo.packedLen := by
    rw [flatten_length hsizes, List.length_map]
  have hdiv : vs.length * ValidatorStakeInfo.packedLen / ValidatorStakeInfo.packedLen =
      (vs.map ValidatorStakeInfo.toBytes).length := by
    rw [Nat.mul_div_cancel _ (by decide), List.length_map]
  have hitems : items ValidatorStakeInfo.packedLen 0 (vs.map ValidatorStakeInfo.toBytes).length
      ([] ++ (vs.map ValidatorStakeInfo.toBytes).flatten ++ []) = vs.map ValidatorStakeInfo.toBytes :=
    items_append [] [] rfl hsizes
  rw [List.nil_append, List.append_nil] at hitems
  have hcast : (vs.map ValidatorStakeInfo.toBytes).map ValidatorStakeInfo.ofBytes = vs := by
    rw [List.map_map]
    exact (List.map_congr_left fun v hv => ValidatorStakeInfo.ofBytes_toBytes (h v hv)).trans
      (List.map_id vs)
  rw [ValidatorListHeader.castSlice, hlength, hdiv, hitems, hcast,
    failIf_neg (not_not.mpr (Nat.mul_mod_left _ _)), ok_bind]
  rfl

theorem deserializeSlice_toBytes (h : l.Fits) (hlength : (l.toBytes rest).length < 2 ^ 64)
    (skip length : Nat) :
    ValidatorListHeader.deserializeSlice
        (BigVec.encode (l.validators.map ValidatorStakeInfo.toBytes) rest) skip length =
      if skip + length ≤ l.validators.length then .ok ((l.validators.drop skip).take length)
      else .error .accountDataTooSmall := by
  rw [ValidatorListHeader.deserializeSlice, BigVec.deserializeSlice_encode (h.layout hlength),
    List.length_map]
  split
  · rw [ok_bind, ← List.map_drop, ← List.map_take]
    exact castSlice_flatten fun v hv => h.entries v (List.mem_of_mem_drop (List.mem_of_mem_take hv))
  · rfl

/-- The search of the bytes finds the first entry whose bytes satisfy the predicate. -/
theorem find_toBytes (h : l.Fits) (hlength : (l.toBytes rest).length < 2 ^ 64)
    (predicate : List UInt8 → Bool) :
    ValidatorListHeader.find predicate
        (BigVec.encode (l.validators.map ValidatorStakeInfo.toBytes) rest) =
      .ok (l.validators.find? fun v => predicate v.toBytes) := by
  have hlayout := h.layout hlength
  rw [ValidatorListHeader.find, BigVec.find_encode predicate hlayout, ok_bind, List.findIdx?_map,
    List.find?_eq_bind_findIdx?_getElem?, Option.map_map]
  refine congrArg Except.ok ?_
  cases hfound : l.validators.findIdx? (predicate ∘ ValidatorStakeInfo.toBytes) with
  | none =>
    have hnone : l.validators.findIdx? (fun v => predicate v.toBytes) = none := hfound
    rw [hnone]
    rfl
  | some i =>
    have hsome : l.validators.findIdx? (fun v => predicate v.toBytes) = some i := hfound
    obtain ⟨hi, -⟩ := List.findIdx?_eq_some_iff_getElem.mp hsome
    have hi' : i < (l.validators.map ValidatorStakeInfo.toBytes).length := by
      rw [List.length_map]
      exact hi
    rw [hsome, Option.map_some, Option.bind_some, List.getElem?_eq_getElem hi, Function.comp_apply,
      BigVec.entry_encode hlayout hi', List.getElem_map,
      ValidatorStakeInfo.ofBytes_toBytes (h.entries _ (List.getElem_mem hi))]

/-- Entry `i` of the account, written over. -/
theorem patch_toBytes (h : l.Fits) (hlength : (l.toBytes rest).length < 2 ^ 64)
    (hi : i < l.validators.length) (v : ValidatorStakeInfo) :
    patch (l.toBytes rest) (ValidatorListHeader.packedLen +
        (BigVec.vecSizeBytes + i * ValidatorStakeInfo.packedLen)) v.toBytes =
      { l with validators := l.validators.set i v }.toBytes rest := by
  have hheader : l.header.toBytes.length = ValidatorListHeader.packedLen := by
    rw [ValidatorListHeader.toBytes, List.length_cons, BigVec.leBytes_length]
    rfl
  rw [ValidatorList.toBytes, ← hheader, patch_append_right,
    BigVec.patch_encode (h.layout hlength) (by rw [List.length_map]; exact hi) v.toBytes_length,
    ← List.map_set]
  rfl

theorem ValidatorList.Fits.set (h : l.Fits) (hv : v.Fits) :
    ({ l with validators := l.validators.set i v } : ValidatorList).Fits where
  length := by
    rw [List.length_set]
    exact h.length
  entries u hu := by
    rcases List.mem_or_eq_of_mem_set hu with hu | rfl
    · exact h.entries u hu
    · exact hv

theorem writeFound_toBytes (h : l.Fits) (hlength : (l.toBytes rest).length < 2 ^ 64)
    (predicate : List UInt8 → Bool) (v : ValidatorStakeInfo) :
    ValidatorListHeader.writeFound predicate v (l.toBytes rest) =
      match l.validators.findIdx? fun u => predicate u.toBytes with
      | some i => .ok ({ l with validators := l.validators.set i v }.toBytes rest)
      | none => .ok (l.toBytes rest) := by
  simp only [ValidatorListHeader.writeFound, deserializeVec_toBytes, ok_bind,
    BigVec.find_encode predicate (h.layout hlength), List.findIdx?_map]
  cases hfound : l.validators.findIdx? fun u => predicate u.toBytes with
  | none =>
    have hnone : l.validators.findIdx? (predicate ∘ ValidatorStakeInfo.toBytes) = none := hfound
    rw [hnone]
    rfl
  | some i =>
    have hsome : l.validators.findIdx? (predicate ∘ ValidatorStakeInfo.toBytes) = some i := hfound
    obtain ⟨hi, -⟩ := List.findIdx?_eq_some_iff_getElem.mp hfound
    rw [hsome, Option.map_some]
    exact congrArg Except.ok (patch_toBytes h hlength hi v)

theorem writeSlice_toBytes (h : l.Fits) (hlength : (l.toBytes rest).length < 2 ^ 64)
    {skip length : Nat} (hi : i < length) (hin : skip + length ≤ l.validators.length)
    (v : ValidatorStakeInfo) :
    ValidatorListHeader.writeSlice skip length i v (l.toBytes rest) =
      .ok ({ l with validators := l.validators.set (skip + i) v }.toBytes rest) := by
  have hslice : ((l.validators.drop skip).take length).length = length := by
    rw [List.length_take, List.length_drop]
    omega
  simp only [ValidatorListHeader.writeSlice, deserializeVec_toBytes, ok_bind,
    deserializeSlice_toBytes h hlength, if_pos hin, hslice, failIf_neg (Nat.not_le.mpr hi)]
  rw [Nat.add_assoc]
  exact congrArg Except.ok (patch_toBytes h hlength (by omega) v)

/-- However a list is read, it is the same list: decoded by Borsh, as slices cast to entries, by a search
of the bytes, or through the predicates on the bytes of one entry.  And what is written through a
reference into the bytes is that entry and nothing else. -/
theorem list_view_decoded (h : l.Fits) (hlength : (l.toBytes rest).length < 2 ^ 64) :
    Borsh.readValidatorList (l.toBytes rest) = some (l, rest) ∧
    (∃ bigVec, ValidatorListHeader.deserializeVec (l.toBytes rest) =
        .ok (l.header.accountType, l.header.maxValidators.toNat, bigVec) ∧
      (∀ skip length, ValidatorListHeader.deserializeSlice bigVec skip length =
        if skip + length ≤ l.validators.length then .ok ((l.validators.drop skip).take length)
        else .error .accountDataTooSmall) ∧
      (∀ predicate, ValidatorListHeader.find predicate bigVec =
        .ok (l.validators.find? fun v => predicate v.toBytes)) ∧
      ∀ vote, ValidatorListHeader.find (memcmpPubkeyBytes · vote) bigVec = .ok (l.find vote)) ∧
    (∀ data : List UInt8, data.length = ValidatorStakeInfo.packedLen →
      Reads Borsh.readValidatorStakeInfo data (.ofBytes data) ∧
      (∀ vote, memcmpPubkeyBytes data vote = (ValidatorStakeInfo.ofBytes data).memcmpPubkey vote) ∧
      (∀ lamports, ValidatorStakeInfo.activeLamportsGreaterThanBytes data lamports =
        (ValidatorStakeInfo.ofBytes data).activeLamportsGreaterThan lamports) ∧
      (∀ lamports, ValidatorStakeInfo.transientLamportsGreaterThanBytes data lamports =
        (ValidatorStakeInfo.ofBytes data).transientLamportsGreaterThan lamports) ∧
      ValidatorStakeInfo.isRemovedBytes data = (ValidatorStakeInfo.ofBytes data).isRemoved ∧
      ValidatorStakeInfo.isActiveBytes data = (ValidatorStakeInfo.ofBytes data).isActive) ∧
    ∀ v : ValidatorStakeInfo, v.Fits →
      (∀ i, Borsh.readValidatorList ({ l with validators := l.validators.set i v }.toBytes rest) =
        some ({ l with validators := l.validators.set i v }, rest)) ∧
      (∀ predicate, ValidatorListHeader.writeFound predicate v (l.toBytes rest) =
        match l.validators.findIdx? fun u => predicate u.toBytes with
        | some i => .ok ({ l with validators := l.validators.set i v }.toBytes rest)
        | none => .ok (l.toBytes rest)) ∧
      ∀ skip length i, i < length → skip + length ≤ l.validators.length →
        ValidatorListHeader.writeSlice skip length i v (l.toBytes rest) =
          .ok ({ l with validators := l.validators.set (skip + i) v }.toBytes rest) := by
  refine ⟨Borsh.reads_validatorList h rest, ⟨_, deserializeVec_toBytes l rest,
    deserializeSlice_toBytes h hlength, find_toBytes h hlength, fun vote => ?_⟩, fun data hdata => ?_,
    fun v hv => ⟨fun i => Borsh.reads_validatorList (h.set hv) rest,
      fun predicate => writeFound_toBytes h hlength predicate v,
      fun skip length i hi hin => writeSlice_toBytes h hlength hi hin v⟩⟩
  · -- The comparison of 32 bytes is the comparison of the vote accounts.
    rw [find_toBytes h hlength, ValidatorList.find]
    congr 2
    funext v
    exact memcmpPubkeyBytes_toBytes v vote
  · exact ⟨ValidatorStakeInfo.reads_ofBytes hdata, ValidatorStakeInfo.memcmpPubkeyBytes_eq hdata,
      fun _ => rfl, fun _ => rfl, ValidatorStakeInfo.isRemovedBytes_eq hdata, rfl⟩

/-- A list of one entry with one byte behind it: the entry is cleared through a slice. -/
theorem list_view_decoded_single :
    ValidatorListHeader.writeSlice 0 1 0 ⟨0, 0, 3, 0, 0, 0, StakeStatus.readyForRemoval.toPod, default⟩
        (ValidatorList.toBytes
          ⟨⟨.validatorList, 2⟩, [⟨5, 7, 3, 1, 0, 0, StakeStatus.active.toPod, default⟩]⟩ [9]) =
      .ok (ValidatorList.toBytes
        ⟨⟨.validatorList, 2⟩, [⟨0, 0, 3, 0, 0, 0, StakeStatus.readyForRemoval.toPod, default⟩]⟩ [9]) := by
  have hfits : ValidatorStakeInfo.Fits ⟨5, 7, 3, 1, 0, 0, StakeStatus.active.toPod, default⟩ := by
    constructor <;> decide
  have hcleared : ValidatorStakeInfo.Fits
      ⟨0, 0, 3, 0, 0, 0, StakeStatus.readyForRemoval.toPod, default⟩ := by constructor <;> decide
  have hlist : ValidatorList.Fits
      ⟨⟨.validatorList, 2⟩, [⟨5, 7, 3, 1, 0, 0, StakeStatus.active.toPod, default⟩]⟩ :=
    ⟨by decide, fun v hv => List.mem_singleton.mp hv ▸ hfits⟩
  have hlength : (ValidatorList.toBytes ⟨⟨.validatorList, 2⟩,
      [⟨5, 7, 3, 1, 0, 0, StakeStatus.active.toPod, default⟩]⟩ [9]).length < 2 ^ 64 := by
    rw [ValidatorList.toBytes_length]
    decide
  obtain ⟨-, -, -, hwrite⟩ := list_view_decoded hlist hlength
  exact (hwrite _ hcleared).2.2 0 1 0 (by decide) (by decide)

end List

end StakePoolFogo
