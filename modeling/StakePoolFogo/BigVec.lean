import StakePoolFogo.Instruction
import StakePoolFogo.Lib.Buffer

/-!
# Big vectors

`big_vec.rs`: a vector of plain values inside an account's bytes, after a length prefix of four bytes.
A value is the bytes of its entry and a reference into the vector is its offset.  An index out of range
panics, which ends the program.
-/

open StakePoolFogo.Checked StakePoolFogo.Outcome StakePoolFogo.Buffer

namespace StakePoolFogo.BigVec

def vecSizeBytes : Nat := 4

/-- `&data[first..last]`. -/
def index (data : List UInt8) (first last : Nat) : Except ProgramError (List UInt8) :=
  okOr (slice data first last) .programFailedToComplete

def len (data : List UInt8) : Except ProgramError Nat := do
  return Borsh.ofLeBytes (← index data 0 vecSizeBytes)

/-- The search of `find` and `find_mut`, with `remaining` entries to go. -/
def findFrom (size : Nat) (predicate : List UInt8 → Bool) (data : List UInt8) :
    Nat → Nat → Except ProgramError (Option Nat)
  | 0, _ => .ok none
  | remaining + 1, currentIndex => do
    let currentSlice ← index data currentIndex (currentIndex + size)
    if predicate currentSlice then return some currentIndex
    findFrom size predicate data remaining (currentIndex + size)

def find (size : Nat) (predicate : List UInt8 → Bool) (data : List UInt8) :
    Except ProgramError (Option Nat) := do
  findFrom size predicate data (← len data) vecSizeBytes

/-- `deserialize_slice` and `deserialize_mut_slice`. -/
def deserializeSlice (size skip length : Nat) (data : List UInt8) :
    Except ProgramError (List UInt8) := do
  let vecLen ← len data
  let lastItemIndex ← okOr (checkedAdd 64 skip length) .accountDataTooSmall
  failIf (lastItemIndex > vecLen) .accountDataTooSmall
  let startIndex := saturatingAdd 64 vecSizeBytes (saturatingMul 64 skip size)
  let endIndex := saturatingAdd 64 startIndex (saturatingMul 64 length size)
  index data startIndex endIndex

/-- The length is written before the room for the entry is checked. -/
def push (size : Nat) (element : List UInt8) (data : List UInt8) :
    Except ProgramError (List UInt8) := do
  let vecLen ← len data
  let startIndex := vecSizeBytes + vecLen * size
  let endIndex := startIndex + size
  let vecLen ← okOr (checkedAdd 32 vecLen 1) .programFailedToComplete
  let data := patch data 0 (leBytes vecSizeBytes vecLen)
  failIf (data.length < endIndex) .accountDataTooSmall
  let _ ← index data startIndex (startIndex + size)
  return patch data startIndex element

/-- Move the bytes up to `stop` down by `gap`, to `first`. -/
def moveDown (data : List UInt8) (first gap stop : Nat) : Except ProgramError (List UInt8) := do
  let _ ← index data first (stop - gap)
  let source ← index data (first + gap) stop
  return patch data first source

structure Retained where
  data : List UInt8
  vecLen : Nat
  removalsFound : Nat
  dstStartIndex : Nat

/-- Close the gap that the removals before `stop` left. -/
def Retained.closeGap (size : Nat) (s : Retained) (stop : Nat) : Except ProgramError (List UInt8) :=
  onlyIf (s.removalsFound > 0)
    (fun data => moveDown data s.dstStartIndex (s.removalsFound * size) stop) s.data

/-- One turn of the loop: nothing moves until the next removal. -/
def retainStep (size : Nat) (predicate : List UInt8 → Bool) (s : Retained) (startIndex : Nat) :
    Except ProgramError Retained := do
  let slice ← index s.data startIndex (startIndex + size)
  if predicate slice then return s
  let data ← s.closeGap size startIndex
  return {
    data
    vecLen := s.vecLen - 1
    removalsFound := s.removalsFound + 1
    dstStartIndex := startIndex - s.removalsFound * size }

/-- Keep the entries that satisfy `predicate`. -/
def retain (size : Nat) (predicate : List UInt8 → Bool) (data : List UInt8) :
    Except ProgramError (List UInt8) := do
  let vecLen ← len data
  let dataEndIndex := saturatingAdd 64 vecSizeBytes (saturatingMul 64 vecLen size)
  let starts := List.range' vecSizeBytes ((dataEndIndex - vecSizeBytes + size - 1) / size) size
  let s ← starts.foldlM (retainStep size predicate)
    { data, vecLen, removalsFound := 0, dstStartIndex := 0 }
  let data ← s.closeGap size dataEndIndex
  let _ ← index data 0 vecSizeBytes
  return patch data 0 (leBytes vecSizeBytes s.vecLen)

/-! ## What the bytes hold -/

theorem leBytes_length (n v : Nat) : (leBytes n v).length = n := by
  induction n generalizing v with
  | zero => rfl
  | succ n ih => rw [leBytes, List.length_cons, ih]

theorem ofLeBytes_leBytes {n v : Nat} (h : v < 256 ^ n) : Borsh.ofLeBytes (leBytes n v) = v := by
  induction n generalizing v with
  | zero =>
    have hzero : v = 0 := by omega
    rw [hzero]
    rfl
  | succ n ih =>
    have hdiv : v / 256 < 256 ^ n := Nat.div_lt_of_lt_mul (by rw [← Nat.pow_succ']; exact h)
    have hbyte : (UInt8.ofNat (v % 256)).toNat = v % 256 := by
      rw [UInt8.toNat_ofNat']
      omega
    rw [leBytes, Borsh.ofLeBytes, ih hdiv, hbyte]
    omega

/-- The bytes of a vector with entries `items`, with `rest` behind them. -/
def encode (items : List (List UInt8)) (rest : List UInt8) : List UInt8 :=
  leBytes vecSizeBytes items.length ++ items.flatten ++ rest

/-- Entries of one size, in a buffer whose length is a machine word. -/
structure Layout (size : Nat) (items : List (List UInt8)) (rest : List UInt8) : Prop where
  size_pos : 0 < size
  sizes : ∀ item ∈ items, item.length = size
  count : items.length < 2 ^ 32
  fits : vecSizeBytes + items.length * size + rest.length < 2 ^ 64

variable {size : Nat} {items : List (List UInt8)} {rest : List UInt8}

theorem index_append (a b c : List UInt8) {first last : Nat} (hfirst : first = a.length)
    (hlast : last = a.length + b.length) : index (a ++ b ++ c) first last = .ok b := by
  rw [index, slice_append a b c hfirst hlast]
  rfl

theorem index_length (n : Nat) (body : List UInt8) :
    index (leBytes vecSizeBytes n ++ body) 0 vecSizeBytes = .ok (leBytes vecSizeBytes n) :=
  index_append [] (leBytes vecSizeBytes n) body rfl
    (by rw [leBytes_length, List.length_nil, Nat.zero_add])

theorem len_encode (h : Layout size items rest) : len (encode items rest) = .ok items.length := by
  rw [len, encode, List.append_assoc, index_length, ok_bind,
    ofLeBytes_leBytes (Nat.lt_of_lt_of_le h.count (by decide))]
  rfl

/-- The search looks at the entries in order.  `before` are those it has passed. -/
theorem findFrom_encode (predicate : List UInt8 → Bool) (before items : List (List UInt8))
    (h : Layout size (before ++ items) rest) :
    findFrom size predicate (encode (before ++ items) rest) items.length
        (vecSizeBytes + before.length * size) =
      .ok ((items.findIdx? predicate).map fun i => vecSizeBytes + (before.length + i) * size) := by
  induction items generalizing before with
  | nil => rfl
  | cons item items ih =>
    have hitem : item.length = size := h.sizes item (by simp)
    have hbefore : before.flatten.length = before.length * size :=
      flatten_length fun other hother => h.sizes other (by simp [hother])
    have hslice : index (encode (before ++ item :: items) rest)
        (vecSizeBytes + before.length * size) (vecSizeBytes + before.length * size + size) =
          .ok item := by
      have hparts : encode (before ++ item :: items) rest =
          (leBytes vecSizeBytes (before ++ item :: items).length ++ before.flatten) ++ item ++
            (items.flatten ++ rest) := by
        simp only [encode, List.flatten_append, List.flatten_cons, List.append_assoc]
      rw [hparts]
      refine index_append _ _ _ ?_ ?_
      · rw [List.length_append, leBytes_length, hbefore]
      · rw [List.length_append, leBytes_length, hbefore, hitem]
    rw [List.length_cons, findFrom, hslice, ok_bind, List.findIdx?_cons]
    by_cases hfound : predicate item = true
    · rw [if_pos hfound, if_pos hfound]
      rfl
    · rw [if_neg hfound, if_neg hfound]
      -- One entry further on, it has passed `item` too.
      have hnext := ih (before ++ [item]) (by rwa [List.append_assoc, List.singleton_append])
      rw [List.append_assoc, List.singleton_append, List.length_append, List.length_singleton,
        Nat.succ_mul, ← Nat.add_assoc] at hnext
      rw [hnext, Option.map_map]
      congr 1
      congr 1
      funext i
      simp only [Function.comp_apply]
      rw [Nat.add_assoc, Nat.add_comm 1 i]

/-- `find` finds the first entry that satisfies the predicate, and never leaves the entries. -/
theorem find_encode (predicate : List UInt8 → Bool) (h : Layout size items rest) :
    find size predicate (encode items rest) =
      .ok ((items.findIdx? predicate).map fun i => vecSizeBytes + i * size) := by
  have hfrom := findFrom_encode predicate [] items h
  simp only [List.nil_append, List.length_nil, Nat.zero_mul, Nat.add_zero, Nat.zero_add] at hfrom
  rw [find, len_encode h, ok_bind, hfrom]

/-- `deserialize_slice` gives the entries asked for, or says that there are not so many. -/
theorem deserializeSlice_encode {skip length : Nat} (h : Layout size items rest) :
    deserializeSlice size skip length (encode items rest) =
      if skip + length ≤ items.length then .ok ((items.drop skip).take length).flatten
      else .error .accountDataTooSmall := by
  have hcount := h.count
  rw [deserializeSlice, len_encode h, ok_bind]
  by_cases hin : skip + length ≤ items.length
  · have hadd : checkedAdd 64 skip length = some (skip + length) := fits_of_lt (by omega)
    have hmul : (skip + length) * size ≤ items.length * size := Nat.mul_le_mul_right size hin
    have hfits := h.fits
    rw [Nat.add_mul] at hmul
    have hskip : saturatingMul 64 skip size = skip * size := saturatingMul_of_lt (by omega)
    have hlength : saturatingMul 64 length size = length * size := saturatingMul_of_lt (by omega)
    have hstart : saturatingAdd 64 vecSizeBytes (skip * size) = vecSizeBytes + skip * size :=
      saturatingAdd_of_lt (by omega)
    have hend : saturatingAdd 64 (vecSizeBytes + skip * size) (length * size) =
        vecSizeBytes + skip * size + length * size := saturatingAdd_of_lt (by omega)
    simp only [hadd, okOr_some, ok_bind, failIf_neg (Nat.not_lt.mpr hin), hskip, hlength, hstart,
      hend, if_pos hin]
    -- The entries before, the entries asked for, and the entries behind.
    have hparts : encode items rest =
        (leBytes vecSizeBytes items.length ++ (items.take skip).flatten) ++
          ((items.drop skip).take length).flatten ++
            (((items.drop skip).drop length).flatten ++ rest) := by
      have hsplit : items.flatten = (items.take skip).flatten ++
          (((items.drop skip).take length).flatten ++ ((items.drop skip).drop length).flatten) := by
        rw [← List.flatten_append, List.take_append_drop, ← List.flatten_append,
          List.take_append_drop]
      rw [encode, hsplit]
      simp only [List.append_assoc]
    have htake : (items.take skip).flatten.length = skip * size := by
      rw [flatten_length fun item hitem => h.sizes item (List.mem_of_mem_take hitem),
        List.length_take, Nat.min_eq_left (by omega)]
    have hmiddle : ((items.drop skip).take length).flatten.length = length * size := by
      rw [flatten_length fun item hitem =>
        h.sizes item (List.mem_of_mem_drop (List.mem_of_mem_take hitem)), List.length_take,
        List.length_drop, Nat.min_eq_left (by omega)]
    rw [hparts]
    refine index_append _ _ _ ?_ ?_
    · rw [List.length_append, leBytes_length, htake]
    · rw [List.length_append, leBytes_length, htake, hmiddle]
  · rw [if_neg hin]
    cases hadd : checkedAdd 64 skip length with
    | none => rfl
    | some last =>
      obtain ⟨rfl, -⟩ := checkedAdd_eq_some.mp hadd
      rw [okOr_some, ok_bind, failIf, if_pos (by omega)]
      rfl

/-- Rewriting the length prefix. -/
theorem patch_length (n m : Nat) (body : List UInt8) :
    patch (leBytes vecSizeBytes n ++ body) 0 (leBytes vecSizeBytes m) =
      leBytes vecSizeBytes m ++ body :=
  patch_append [] (leBytes vecSizeBytes n) body rfl (by rw [leBytes_length, leBytes_length])

/-- With room for one more entry, `push` appends it. -/
theorem push_encode {element : List UInt8} (h : Layout size items rest)
    (helement : element.length = size) (hcount : items.length + 1 < 2 ^ 32)
    (hroom : size ≤ rest.length) :
    push size element (encode items rest) = .ok (encode (items ++ [element]) (rest.drop size)) := by
  have hitems := flatten_length h.sizes
  have hadd : checkedAdd 32 items.length 1 = some (items.length + 1) := fits_of_lt hcount
  have hpatched : patch (encode items rest) 0 (leBytes vecSizeBytes (items.length + 1)) =
      leBytes vecSizeBytes (items.length + 1) ++ items.flatten ++ rest := by
    rw [encode, List.append_assoc, patch_length, List.append_assoc]
  have hlength : (leBytes vecSizeBytes (items.length + 1) ++ items.flatten ++ rest).length =
      vecSizeBytes + items.length * size + rest.length := by
    rw [List.length_append, List.length_append, leBytes_length, hitems]
  have hfirst : (leBytes vecSizeBytes (items.length + 1) ++ items.flatten).length =
      vecSizeBytes + items.length * size := by
    rw [List.length_append, leBytes_length, hitems]
  have htake : (rest.take size).length = size := by
    rw [List.length_take, Nat.min_eq_left hroom]
  rw [← List.take_append_drop size rest, ← List.append_assoc] at hpatched
  have hindex : index (leBytes vecSizeBytes (items.length + 1) ++ items.flatten ++ rest.take size ++
      rest.drop size) (vecSizeBytes + items.length * size)
        (vecSizeBytes + items.length * size + size) = .ok (rest.take size) :=
    index_append _ _ _ hfirst.symm (by rw [hfirst, htake])
  have hwritten : patch (leBytes vecSizeBytes (items.length + 1) ++ items.flatten ++ rest.take size ++
      rest.drop size) (vecSizeBytes + items.length * size) element =
        leBytes vecSizeBytes (items.length + 1) ++ items.flatten ++ element ++ rest.drop size :=
    patch_append _ _ _ hfirst.symm (by rw [helement, htake])
  have hroom' : ¬ (leBytes vecSizeBytes (items.length + 1) ++ items.flatten ++ rest.take size ++
      rest.drop size).length < vecSizeBytes + items.length * size + size := by
    rw [List.append_assoc, List.take_append_drop, hlength]
    omega
  rw [List.take_append_drop] at hpatched
  simp only [push, len_encode h, ok_bind, hadd, okOr_some, hpatched, failIf_neg hroom', hindex,
    hwritten]
  simp only [encode, List.length_append, List.length_singleton, List.flatten_append,
    List.flatten_singleton, List.append_assoc]
  rfl

/-! ## `retain` -/

/-- The buffer in the middle of `retain`: of the entries seen, those kept before the last removal are
in their place, then comes a gap as long as what was removed, then those kept since. -/
structure Retaining (size : Nat) (predicate : List UInt8 → Bool) (vecLen : Nat)
    (seen left : List (List UInt8)) (rest : List UInt8) (s : Retained) : Prop where
  parts : ∃ placed gap moving : List UInt8,
    s.data = leBytes vecSizeBytes vecLen ++ placed ++ gap ++ moving ++ left.flatten ++ rest ∧
    placed ++ moving = (seen.filter predicate).flatten ∧ gap.length = s.removalsFound * size ∧
    (s.removalsFound = 0 → placed = []) ∧
    (0 < s.removalsFound → s.dstStartIndex = vecSizeBytes + placed.length)
  count : s.vecLen = (seen.filter predicate).length + left.length
  removals : (seen.filter predicate).length + s.removalsFound = seen.length

theorem moveDown_parts (before gap moving after : List UInt8) :
    ∃ gap', gap'.length = gap.length ∧
      moveDown (before ++ gap ++ moving ++ after) before.length gap.length
          (before.length + gap.length + moving.length) =
        .ok (before ++ moving ++ gap' ++ after) := by
  obtain ⟨gap', hlen, hpatch⟩ := patch_down before gap moving after rfl
  refine ⟨gap', hlen, ?_⟩
  -- The destination overlaps the source; only its bounds matter.
  have htarget : ∃ bytes, index (before ++ gap ++ moving ++ after) before.length
      (before.length + gap.length + moving.length - gap.length) = .ok bytes := by
    have hbounds : before.length ≤ before.length + gap.length + moving.length - gap.length ∧
        before.length + gap.length + moving.length - gap.length ≤
          (before ++ gap ++ moving ++ after).length := by
      simp only [List.length_append]
      omega
    rw [index, slice, if_pos hbounds]
    exact ⟨_, rfl⟩
  have hsource : index (before ++ gap ++ moving ++ after) (before.length + gap.length)
      (before.length + gap.length + moving.length) = .ok moving :=
    index_append (before ++ gap) moving after (by rw [List.length_append])
      (by rw [List.length_append])
  obtain ⟨bytes, htarget⟩ := htarget
  simp only [moveDown, htarget, hsource, ok_bind, hpatch]
  rfl

theorem Retained.closeGap_parts {s : Retained} (stop : Nat) (before gap moving after : List UInt8)
    (hdata : s.data = before ++ gap ++ moving ++ after)
    (hgap : gap.length = s.removalsFound * size)
    (hdst : 0 < s.removalsFound → s.dstStartIndex = before.length)
    (hstop : stop = before.length + gap.length + moving.length) :
    ∃ gap', gap'.length = gap.length ∧
      s.closeGap size stop = .ok (before ++ moving ++ gap' ++ after) := by
  unfold closeGap onlyIf
  by_cases hpos : s.removalsFound > 0
  · obtain ⟨gap', hlen, hmove⟩ := moveDown_parts before gap moving after
    refine ⟨gap', hlen, ?_⟩
    rw [if_pos hpos, hdata, hdst hpos, ← hgap, hstop]
    exact hmove
  · have hzero : s.removalsFound = 0 := by omega
    have hempty : gap = [] := List.length_eq_zero_iff.mp (by rw [hgap, hzero, Nat.zero_mul])
    refine ⟨[], by rw [hempty], ?_⟩
    rw [if_neg hpos, hdata, hempty, List.append_nil, List.append_nil]

variable {predicate : List UInt8 → Bool} {vecLen : Nat} {seen left : List (List UInt8)}
  {item : List UInt8} {s : Retained}

theorem filter_flatten_length (predicate : List UInt8 → Bool)
    (hsizes : ∀ item ∈ seen, item.length = size) :
    (seen.filter predicate).flatten.length = (seen.filter predicate).length * size :=
  flatten_length fun item hitem => hsizes item (List.mem_of_mem_filter hitem)

/-- Everything before the entries left is as long as the entries seen. -/
theorem Retaining.front (hsizes : ∀ item ∈ seen, item.length = size)
    (h : Retaining size predicate vecLen seen left rest s) :
    (0 < s.removalsFound →
      s.dstStartIndex + s.removalsFound * size ≤ vecSizeBytes + seen.length * size) ∧
    ∃ before, s.data = before ++ left.flatten ++ rest ∧
      before.length = vecSizeBytes + seen.length * size := by
  obtain ⟨⟨placed, gap, moving, hdata, hkept, hgap, -, hdst⟩, -, hremovals⟩ := h
  have hparts : placed.length + moving.length = (seen.filter predicate).length * size := by
    rw [← filter_flatten_length predicate hsizes, ← hkept, List.length_append]
  have hbefore : placed.length + gap.length + moving.length = seen.length * size := by
    rw [← hremovals, Nat.add_mul, ← hparts, hgap]
    omega
  refine ⟨fun hpos => ?_, leBytes vecSizeBytes vecLen ++ placed ++ gap ++ moving, hdata, ?_⟩
  · rw [hdst hpos, ← hgap]
    omega
  · simp only [List.length_append, leBytes_length]
    omega

/-- The next entry is still in its place. -/
theorem Retaining.slice (hsizes : ∀ item ∈ seen, item.length = size) (hitem : item.length = size)
    (h : Retaining size predicate vecLen seen (item :: left) rest s) :
    index s.data (vecSizeBytes + seen.length * size) (vecSizeBytes + seen.length * size + size) =
      .ok item := by
  obtain ⟨-, before, hdata, hbefore⟩ := h.front hsizes
  rw [hdata, List.flatten_cons, ← List.append_assoc, List.append_assoc (before ++ item)]
  exact index_append _ _ _ hbefore.symm (by rw [hbefore, hitem])

/-- One turn of the loop. -/
theorem Retaining.step (hsizes : ∀ item ∈ seen, item.length = size) (hitem : item.length = size)
    (h : Retaining size predicate vecLen seen (item :: left) rest s) :
    ∃ s', retainStep size predicate s (vecSizeBytes + seen.length * size) = .ok s' ∧
      Retaining size predicate vecLen (seen ++ [item]) left rest s' := by
  have hslice := h.slice hsizes hitem
  obtain ⟨⟨placed, gap, moving, hdata, hkept, hgap, hnone, hdst⟩, hcount, hremovals⟩ := h
  have hfilter := filter_flatten_length predicate hsizes
  have hparts : placed.length + moving.length = (seen.filter predicate).length * size := by
    rw [← hfilter, ← hkept, List.length_append]
  -- Everything before `item` is as long as the entries seen.
  have hbefore : placed.length + gap.length + moving.length = seen.length * size := by
    rw [← hremovals, Nat.add_mul, ← hparts, hgap]
    omega
  have hdata' : s.data = (leBytes vecSizeBytes vecLen ++ placed ++ gap ++ moving) ++ item ++
      (left.flatten ++ rest) := by
    rw [hdata, List.flatten_cons]
    simp only [List.append_assoc]
  rw [retainStep, hslice, ok_bind]
  by_cases hkeep : predicate item = true
  · -- A kept entry joins those that wait to be moved.
    rw [if_pos hkeep]
    refine ⟨s, rfl, ⟨placed, gap, moving ++ item, ?_, ?_, hgap, hnone, hdst⟩, ?_, ?_⟩
    · rw [hdata']
      simp only [List.append_assoc]
    · rw [← List.append_assoc, hkept]
      simp [hkeep]
    · rw [hcount]
      simp [hkeep]
      omega
    · simp [hkeep]
      omega
  · rw [if_neg hkeep]
    have hfiltered : (seen ++ [item]).filter predicate = seen.filter predicate := by simp [hkeep]
    -- A removed entry: those that wait move down and `item` widens the gap.
    obtain ⟨gap', hlen, hmove⟩ := s.closeGap_parts (vecSizeBytes + seen.length * size)
      (leBytes vecSizeBytes vecLen ++ placed) gap moving (item ++ (left.flatten ++ rest)) (by rw [hdata', List.append_assoc]) hgap
      (fun hpos => by rw [hdst hpos, List.length_append, leBytes_length])
      (by rw [List.length_append, leBytes_length, ← hbefore]; omega)
    rw [hmove, ok_bind]
    refine ⟨_, rfl, ⟨placed ++ moving, gap' ++ item, [], ?_, ?_, ?_, ?_, ?_⟩, ?_, ?_⟩
    · simp only [List.append_assoc, List.nil_append]
    · rw [List.append_nil, hkept, hfiltered]
    · show (gap' ++ item).length = (s.removalsFound + 1) * size
      rw [List.length_append, hlen, hgap, hitem, Nat.succ_mul]
    · intro h0
      exact absurd h0 (Nat.succ_ne_zero _)
    · intro _
      show vecSizeBytes + seen.length * size - s.removalsFound * size =
        vecSizeBytes + (placed ++ moving).length
      rw [List.length_append, ← hgap, ← hbefore]
      omega
    · show s.vecLen - 1 = _
      rw [hcount, hfiltered, List.length_cons]
      omega
    · rw [hfiltered, List.length_append, List.length_singleton, ← hremovals]
      rfl

/-- The whole loop. -/
theorem Retaining.run (hsizes : ∀ item ∈ seen ++ left, item.length = size)
    (h : Retaining size predicate vecLen seen left rest s) :
    ∃ s', (List.range' (vecSizeBytes + seen.length * size) left.length size).foldlM
        (retainStep size predicate) s = .ok s' ∧
      Retaining size predicate vecLen (seen ++ left) [] rest s' := by
  induction left generalizing seen s with
  | nil => exact ⟨s, rfl, by rwa [List.append_nil]⟩
  | cons item left ih =>
    obtain ⟨s', hstep, h'⟩ := h.step (fun other hother => hsizes other (by simp [hother]))
      (hsizes item (by simp))
    obtain ⟨s'', hrun, h''⟩ := ih (by simpa using hsizes) h'
    refine ⟨s'', ?_, by simpa using h''⟩
    have hnext : vecSizeBytes + seen.length * size + size =
        vecSizeBytes + (seen ++ [item]).length * size := by
      rw [List.length_append, List.length_singleton, Nat.succ_mul, Nat.add_assoc]
    rw [List.length_cons, List.range'_succ, List.foldlM_cons, hstep, hnext]
    exact hrun

/-- Where the loop of `retain` ends. -/
theorem Layout.dataEnd (h : Layout size items rest) :
    saturatingAdd 64 vecSizeBytes (saturatingMul 64 items.length size) =
      vecSizeBytes + items.length * size := by
  have hfits := h.fits
  rw [saturatingMul_of_lt (by omega), saturatingAdd_of_lt (by omega)]

/-- The loop turns once for each entry. -/
theorem Layout.turns (h : Layout size items rest) :
    (vecSizeBytes + items.length * size - vecSizeBytes + size - 1) / size = items.length := by
  rw [Nat.add_sub_cancel_left, Nat.add_sub_assoc h.size_pos, Nat.mul_comm,
    Nat.mul_add_div h.size_pos, Nat.div_eq_of_lt (Nat.sub_lt h.size_pos Nat.one_pos), Nat.add_zero]

/-- Before the loop nothing is removed and everything is left. -/
theorem Retaining.start (size : Nat) (predicate : List UInt8 → Bool) (items : List (List UInt8))
    (rest : List UInt8) : Retaining size predicate items.length [] items rest
      { data := encode items rest, vecLen := items.length, removalsFound := 0, dstStartIndex := 0 } := by
  refine ⟨⟨[], [], [], ?_, rfl, (Nat.zero_mul size).symm, fun _ => rfl, fun h0 => absurd h0 (by simp)⟩,
    (Nat.zero_add _).symm, rfl⟩
  simp only [encode, List.append_nil]

/-- `retain` keeps the entries that satisfy the predicate, in their order; what it frees joins the
rest. -/
theorem retain_encode (predicate : List UInt8 → Bool) (h : Layout size items rest) :
    ∃ freed, freed.length + (items.filter predicate).length * size = items.length * size ∧
      retain size predicate (encode items rest) =
        .ok (encode (items.filter predicate) (freed ++ rest)) := by
  obtain ⟨s, hrun, hdone⟩ := (Retaining.start size predicate items rest).run (by simpa using h.sizes)
  simp only [List.nil_append, List.length_nil, Nat.zero_mul, Nat.add_zero] at hrun hdone
  obtain ⟨⟨placed, gap, moving, hdata, hkept, hgap, hnone, hdst⟩, hcount, hremovals⟩ := hdone
  have hfilter := filter_flatten_length predicate h.sizes
  have hparts : placed.length + moving.length = (items.filter predicate).length * size := by
    rw [← hfilter, ← hkept, List.length_append]
  have htotal : placed.length + gap.length + moving.length = items.length * size := by
    rw [← hremovals, Nat.add_mul, ← hparts, hgap]
    omega
  have hdata' : s.data = (leBytes vecSizeBytes items.length ++ placed) ++ gap ++ moving ++ rest := by
    rw [hdata]
    simp only [List.flatten_nil, List.append_nil]
  -- The final move closes the gap.
  obtain ⟨freed, hfreed, hmove⟩ := s.closeGap_parts (vecSizeBytes + items.length * size)
    (leBytes vecSizeBytes items.length ++ placed) gap moving rest hdata' hgap
    (fun hpos => by rw [hdst hpos, List.length_append, leBytes_length])
    (by rw [List.length_append, leBytes_length, ← htotal]; omega)
  refine ⟨freed, by omega, ?_⟩
  have hbody : (leBytes vecSizeBytes items.length ++ placed) ++ moving ++ freed ++ rest =
      leBytes vecSizeBytes items.length ++ ((items.filter predicate).flatten ++ (freed ++ rest)) := by
    rw [← hkept]
    simp only [List.append_assoc]
  simp only [retain, len_encode h, ok_bind, h.dataEnd, h.turns, hrun, hmove, hbody, index_length]
  rw [patch_length, hcount, List.length_nil, Nat.add_zero, encode, List.append_assoc]
  rfl

end StakePoolFogo.BigVec
