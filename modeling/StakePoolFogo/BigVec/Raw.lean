import StakePoolFogo.BigVec

/-!
# Raw vectors

A buffer is a vector as soon as its length prefix does not announce more than there is; its elements
are what stands behind the prefix.
-/

open StakePoolFogo.Buffer

namespace StakePoolFogo.BigVec

/-- The number of elements that the length prefix announces. -/
def count (data : List UInt8) : Nat := Borsh.ofLeBytes (data.take vecSizeBytes)

/-- The decoded elements. -/
def elements (size : Nat) (data : List UInt8) : List (List UInt8) :=
  items size vecSizeBytes (count data) data

/-- Where the elements end. -/
def endIndex (size : Nat) (data : List UInt8) : Nat := vecSizeBytes + count data * size

/-- The elements announced lie in the buffer, whose length is a machine word. -/
structure WellFormed (size : Nat) (data : List UInt8) : Prop where
  fits : endIndex size data ≤ data.length
  length_lt : data.length < 2 ^ 64

theorem leBytes_ofLeBytes (bytes : List UInt8) :
    leBytes bytes.length (Borsh.ofLeBytes bytes) = bytes := by
  induction bytes with
  | nil => rfl
  | cons b bytes ih =>
    have hbyte : b.toNat < 256 := b.toNat_lt
    have hlow : (b.toNat + 256 * Borsh.ofLeBytes bytes) % 256 = b.toNat := by omega
    have hhigh : (b.toNat + 256 * Borsh.ofLeBytes bytes) / 256 = Borsh.ofLeBytes bytes := by omega
    rw [List.length_cons, leBytes, Borsh.ofLeBytes, hlow, hhigh, ih, UInt8.ofNat_toNat]

theorem ofLeBytes_lt (bytes : List UInt8) : Borsh.ofLeBytes bytes < 256 ^ bytes.length := by
  induction bytes with
  | nil => exact Nat.one_pos
  | cons b bytes ih =>
    have hbyte : b.toNat < 256 := b.toNat_lt
    rw [Borsh.ofLeBytes, List.length_cons, Nat.pow_succ']
    omega

variable {size : Nat} {data : List UInt8} {parts : List (List UInt8)} {rest : List UInt8}

theorem count_lt (data : List UInt8) : count data < 2 ^ 32 := by
  have hlt := ofLeBytes_lt (data.take vecSizeBytes)
  have hlen : (data.take vecSizeBytes).length ≤ 4 := by
    rw [List.length_take]
    exact Nat.min_le_left _ _
  exact Nat.lt_of_lt_of_le hlt (Nat.pow_le_pow_right (by decide) hlen)

theorem elements_length : (elements size data).length = count data := items_length

namespace WellFormed

variable (h : WellFormed size data)

include h

/-- The buffer is the prefix, the elements, and what stands behind them. -/
theorem encoded : encode (elements size data) (data.drop (endIndex size data)) = data := by
  have hinitial : (data.take vecSizeBytes).length = vecSizeBytes := by
    have hfits := h.fits
    rw [endIndex] at hfits
    rw [List.length_take]
    omega
  have hcount : leBytes vecSizeBytes (count data) = data.take vecSizeBytes := by
    have hbytes := leBytes_ofLeBytes (data.take vecSizeBytes)
    rwa [hinitial] at hbytes
  rw [encode, elements_length, hcount, elements, items_flatten, endIndex, ← List.drop_drop,
    List.append_assoc, List.take_append_drop, List.take_append_drop]

theorem sizes : ∀ element ∈ elements size data, element.length = size := items_sizes h.fits

theorem layout (hsize : 0 < size) :
    Layout size (elements size data) (data.drop (endIndex size data)) where
  size_pos := hsize
  sizes := h.sizes
  count := by
    rw [elements_length]
    exact count_lt data
  fits := by
    have hfits := h.fits
    have hlength := h.length_lt
    rw [elements_length, List.length_drop]
    rw [endIndex] at hfits ⊢
    omega

end WellFormed

/-! ## Encoded vectors -/

section Encoded

variable (hsizes : ∀ part ∈ parts, part.length = size) (hcount : parts.length < 2 ^ 32)

theorem count_append {n : Nat} (h : n < 2 ^ 32) (body : List UInt8) :
    count (leBytes vecSizeBytes n ++ body) = n := by
  rw [count, List.take_left' (leBytes_length _ _),
    ofLeBytes_leBytes (Nat.lt_of_lt_of_le h (by decide))]

include hsizes in
theorem length_encode :
    (encode parts rest).length = vecSizeBytes + parts.length * size + rest.length := by
  rw [encode, List.length_append, List.length_append, leBytes_length, flatten_length hsizes]

include hcount

theorem count_encode : count (encode parts rest) = parts.length := by
  rw [encode, List.append_assoc, count_append hcount]

include hsizes

theorem elements_encode : elements size (encode parts rest) = parts := by
  rw [elements, count_encode hcount, encode]
  exact items_append _ rest (leBytes_length _ _).symm hsizes

end Encoded

section Entry

variable {i : Nat}

/-- The bytes of entry `i` are where its index says. -/
theorem entry_encode (h : Layout size parts rest) (hi : i < parts.length) :
    ((encode parts rest).drop (vecSizeBytes + i * size)).take size = parts[i] := by
  have helements : elements size (encode parts rest) = parts := elements_encode h.sizes h.count
  have hitem : (elements size (encode parts rest))[i]? =
      some (((encode parts rest).drop (vecSizeBytes + i * size)).take size) := by
    rw [elements, items, List.getElem?_map, count_encode h.count, List.getElem?_range hi]
    rfl
  rw [helements, List.getElem?_eq_getElem hi] at hitem
  exact (Option.some.inj hitem).symm

/-- Writing over an entry replaces it. -/
theorem patch_encode {element : List UInt8} (h : Layout size parts rest) (hi : i < parts.length)
    (helement : element.length = size) :
    patch (encode parts rest) (vecSizeBytes + i * size) element = encode (parts.set i element) rest := by
  have hparts : parts = parts.take i ++ parts[i] :: parts.drop (i + 1) := by
    rw [List.getElem_cons_drop, List.take_append_drop]
  have hbefore : (leBytes vecSizeBytes parts.length ++ (parts.take i).flatten).length =
      vecSizeBytes + i * size := by
    rw [List.length_append, leBytes_length, flatten_length fun item hitem =>
      h.sizes item (List.mem_of_mem_take hitem), List.length_take, Nat.min_eq_left hi.le]
  have hencode : encode parts rest = (leBytes vecSizeBytes parts.length ++ (parts.take i).flatten) ++
      parts[i] ++ ((parts.drop (i + 1)).flatten ++ rest) := by
    have hflatten : parts.flatten =
        (parts.take i).flatten ++ (parts[i] ++ (parts.drop (i + 1)).flatten) := by
      rw [← List.flatten_cons, ← List.flatten_append, ← hparts]
    rw [encode, hflatten]
    simp only [List.append_assoc]
  rw [hencode, patch_append _ _ _ hbefore.symm (by rw [helement, h.sizes _ (List.getElem_mem hi)]),
    encode, List.length_set, List.set_eq_take_append_cons_drop, if_pos hi]
  simp only [List.flatten_append, List.flatten_cons, List.append_assoc]

end Entry

theorem Layout.wellFormed (h : Layout size parts rest) : WellFormed size (encode parts rest) where
  fits := by
    rw [endIndex, count_encode h.count, length_encode h.sizes]
    omega
  length_lt := by
    rw [length_encode h.sizes]
    exact h.fits

end StakePoolFogo.BigVec
