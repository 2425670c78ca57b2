import StakePoolFogo.BigVec.Raw

/-!
# What `push` leaves behind

`push` with the buffer as it is afterwards, whatever the result.  The length prefix is written before
the room for the element is checked, so a push that fails for want of room has counted its element.
-/

open StakePoolFogo.Checked StakePoolFogo.Outcome StakePoolFogo.Buffer

namespace StakePoolFogo.BigVec

/-- `vec_len += 1`: a build with overflow checks panics, one without wraps. -/
def increment (overflowChecks : Bool) (vecLen : Nat) : Except ProgramError Nat :=
  if overflowChecks then okOr (checkedAdd 32 vecLen 1) .programFailedToComplete
  else .ok ((vecLen + 1) % 2 ^ 32)

/-- `push`: the result and the buffer. -/
def pushInPlace (overflowChecks : Bool) (size : Nat) (element data : List UInt8) :
    Except ProgramError Unit × List UInt8 :=
  match len data with
  | .error e => (.error e, data)
  | .ok vecLen =>
    let startIndex := vecSizeBytes + vecLen * size
    let endIndex := startIndex + size
    match increment overflowChecks vecLen with
    | .error e => (.error e, data)
    | .ok vecLen =>
      let data := patch data 0 (leBytes vecSizeBytes vecLen)
      if data.length < endIndex then (.error .accountDataTooSmall, data)
      else match index data startIndex (startIndex + size) with
        | .error e => (.error e, data)
        | .ok _ => (.ok (), patch data startIndex element)

/-- What is asked of `push`: it appends where there is room, and where it fails it changes nothing, so
that what comes after it stays in bounds. -/
structure CleanPush (overflowChecks : Bool) (size : Nat) (element data : List UInt8) : Prop where
  ok_iff : (pushInPlace overflowChecks size element data).1 = .ok () ↔
    vecSizeBytes + (count data + 1) * size ≤ data.length
  appended : (pushInPlace overflowChecks size element data).1 = .ok () →
    elements size (pushInPlace overflowChecks size element data).2 = elements size data ++ [element]
  others : (pushInPlace overflowChecks size element data).1 = .ok () →
    (pushInPlace overflowChecks size element data).2.length = data.length ∧
    ∀ i, vecSizeBytes ≤ i → i < endIndex size data ∨ endIndex size data + size ≤ i →
      ((pushInPlace overflowChecks size element data).2)[i]? = data[i]?
  unchanged : ∀ e, (pushInPlace overflowChecks size element data).1 = .error e →
    (pushInPlace overflowChecks size element data).2 = data
  inBounds : ∀ e, (pushInPlace overflowChecks size element data).1 = .error e →
    ∀ predicate skip length,
      find size predicate (pushInPlace overflowChecks size element data).2 ≠
        .error .programFailedToComplete ∧
      retain size predicate (pushInPlace overflowChecks size element data).2 ≠
        .error .programFailedToComplete ∧
      deserializeSlice size skip length (pushInPlace overflowChecks size element data).2 ≠
        .error .programFailedToComplete

variable {overflowChecks : Bool} {size : Nat} {element data : List UInt8}

/-- With overflow checks it is `push`, which forgets the buffer of a failure. -/
theorem push_eq_pushInPlace (size : Nat) (element data : List UInt8) :
    push size element data = match pushInPlace true size element data with
      | (.ok (), data') => .ok data'
      | (.error e, _) => .error e := by
  unfold push pushInPlace
  cases len data with
  | error e => rfl
  | ok vecLen =>
    have hchecked : increment true vecLen = okOr (checkedAdd 32 vecLen 1) .programFailedToComplete := rfl
    simp only [ok_bind, hchecked]
    cases okOr (checkedAdd 32 vecLen 1) ProgramError.programFailedToComplete with
    | error e => rfl
    | ok vecLen' =>
      simp only [ok_bind, failIf]
      by_cases hroom : (patch data 0 (leBytes vecSizeBytes vecLen')).length <
          vecSizeBytes + vecLen * size + size
      · simp only [if_pos hroom]
        rfl
      · simp only [if_neg hroom, ok_bind]
        cases index (patch data 0 (leBytes vecSizeBytes vecLen')) (vecSizeBytes + vecLen * size)
          (vecSizeBytes + vecLen * size + size) <;> rfl

/-- No access to a well-formed vector leaves its elements. -/
theorem WellFormed.inBounds (h : WellFormed size data) (hsize : 0 < size) (predicate : List UInt8 → Bool)
    (skip length : Nat) :
    find size predicate data ≠ .error .programFailedToComplete ∧
    retain size predicate data ≠ .error .programFailedToComplete ∧
    deserializeSlice size skip length data ≠ .error .programFailedToComplete := by
  have hlayout := h.layout hsize
  obtain ⟨freed, -, hretain⟩ := retain_encode predicate hlayout
  have hfind := find_encode predicate hlayout
  have hslice : deserializeSlice size skip length _ = _ := deserializeSlice_encode hlayout
  rw [h.encoded] at hretain hfind hslice
  rw [hfind, hretain, hslice]
  refine ⟨fun herror => ?_, fun herror => ?_, fun herror => ?_⟩
  · cases herror
  · cases herror
  · split at herror <;> cases herror

/-! ## What comes of it -/

variable {vecLen : Nat}

theorem WellFormed.len (h : WellFormed size data) : len data = .ok (count data) := by
  have hfits := h.fits
  rw [endIndex] at hfits
  rw [BigVec.len, index, slice, if_pos ⟨Nat.zero_le _, by omega⟩]
  rfl

/-- The buffer once the prefix is written. -/
theorem WellFormed.patched (h : WellFormed size data) (n : Nat) :
    patch data 0 (leBytes vecSizeBytes n) =
      leBytes vecSizeBytes n ++ ((elements size data).flatten ++ data.drop (endIndex size data)) := by
  have hpatch := patch_length (elements size data).length n
    ((elements size data).flatten ++ data.drop (endIndex size data))
  have hencoded := h.encoded
  rw [encode, List.append_assoc] at hencoded
  rwa [hencoded] at hpatch

theorem WellFormed.length_patched (h : WellFormed size data) (n : Nat) :
    (patch data 0 (leBytes vecSizeBytes n)).length = data.length := by
  have hfits := h.fits
  rw [endIndex] at hfits
  refine length_patch ?_
  rw [leBytes_length]
  omega

theorem pushInPlace_overflow {e : ProgramError} (h : WellFormed size data)
    (hincrement : increment overflowChecks (count data) = .error e) :
    pushInPlace overflowChecks size element data = (.error e, data) := by
  simp only [pushInPlace, h.len, hincrement]

/-- Without room the push fails, but the prefix has been written. -/
theorem pushInPlace_full (h : WellFormed size data)
    (hincrement : increment overflowChecks (count data) = .ok vecLen)
    (hfull : data.length < endIndex size data + size) :
    pushInPlace overflowChecks size element data =
      (.error .accountDataTooSmall, patch data 0 (leBytes vecSizeBytes vecLen)) := by
  simp only [pushInPlace, h.len, hincrement, h.length_patched]
  exact if_pos hfull

theorem pushInPlace_room (h : WellFormed size data)
    (hincrement : increment overflowChecks (count data) = .ok vecLen)
    (hroom : endIndex size data + size ≤ data.length) :
    pushInPlace overflowChecks size element data =
      (.ok (), patch (patch data 0 (leBytes vecSizeBytes vecLen)) (endIndex size data) element) := by
  have hindex : ∃ bytes, index (patch data 0 (leBytes vecSizeBytes vecLen)) (endIndex size data)
      (endIndex size data + size) = .ok bytes := by
    rw [index, slice, if_pos ⟨Nat.le_add_right _ _, by rw [h.length_patched]; exact hroom⟩]
    exact ⟨_, rfl⟩
  obtain ⟨bytes, hindex⟩ := hindex
  rw [endIndex] at hroom hindex
  simp only [pushInPlace, h.len, hincrement, h.length_patched, if_neg (Nat.not_lt.mpr hroom), hindex]
  rfl

/-- Where there is room and the count fits, the element is appended. -/
theorem pushed_eq (h : WellFormed size data) (helement : element.length = size)
    (hroom : endIndex size data + size ≤ data.length) :
    patch (patch data 0 (leBytes vecSizeBytes vecLen)) (endIndex size data) element =
      leBytes vecSizeBytes vecLen ++ (elements size data ++ [element]).flatten ++
        (data.drop (endIndex size data)).drop size := by
  have hflat : (leBytes vecSizeBytes vecLen ++ (elements size data).flatten).length =
      endIndex size data := by
    rw [List.length_append, leBytes_length, flatten_length h.sizes, elements_length, endIndex]
  have htake : ((data.drop (endIndex size data)).take size).length = size := by
    rw [List.length_take, List.length_drop]
    omega
  rw [h.patched, ← List.take_append_drop size (data.drop (endIndex size data)), ← List.append_assoc,
    ← List.append_assoc, patch_append _ _ _ hflat.symm (by rw [helement, htake]),
    List.take_append_drop, List.flatten_append, List.flatten_singleton]
  simp only [List.append_assoc]

theorem increment_eq_ok {n m : Nat} (h : increment overflowChecks n = .ok m) (hn : n < 2 ^ 32) :
    m < 2 ^ 32 ∧ (m = n + 1 ∨ m = 0 ∧ n + 1 = 2 ^ 32) := by
  rw [increment] at h
  split at h
  · obtain ⟨rfl, hlt⟩ := checkedAdd_eq_some.mp (okOr_eq_ok.mp h)
    exact ⟨hlt, .inl rfl⟩
  · obtain rfl := Except.ok.inj h
    omega

/-- A push that fails after it has counted its element is not clean. -/
theorem not_cleanPush_of_full (h : WellFormed size data)
    (hincrement : increment overflowChecks (count data) = .ok vecLen)
    (hfull : data.length < endIndex size data + size) :
    ¬ CleanPush overflowChecks size element data := by
  intro hclean
  have hpush : pushInPlace overflowChecks size element data = _ := pushInPlace_full h hincrement hfull
  have hsame := hclean.unchanged .accountDataTooSmall (by rw [hpush])
  rw [hpush, h.patched] at hsame
  -- The prefix has changed.
  obtain ⟨hfits, hnext⟩ := increment_eq_ok hincrement (count_lt data)
  have hcount := count_append hfits ((elements size data).flatten ++ data.drop (endIndex size data))
  have hcount' := congrArg count hsame
  rw [hcount] at hcount'
  omega

theorem cleanPush_of_room (h : WellFormed size data) (helement : element.length = size)
    (hcount : count data + 1 < 2 ^ 32) (hroom : endIndex size data + size ≤ data.length) :
    CleanPush overflowChecks size element data := by
  have hincrement : increment overflowChecks (count data) = .ok (count data + 1) := by
    rw [increment, checkedAdd, fits_of_lt hcount, Nat.mod_eq_of_lt hcount]
    split <;> rfl
  have hpush : pushInPlace overflowChecks size element data = _ := pushInPlace_room h hincrement hroom
  have hsizes : ∀ item ∈ elements size data ++ [element], item.length = size := by
    intro item hitem
    rcases List.mem_append.mp hitem with hitem | hitem
    · exact h.sizes item hitem
    · rw [List.mem_singleton.mp hitem, helement]
  have hlength : (elements size data ++ [element]).length = count data + 1 := by
    rw [List.length_append, elements_length, List.length_singleton]
  have hencode : patch (patch data 0 (leBytes vecSizeBytes (count data + 1))) (endIndex size data)
      element = encode (elements size data ++ [element])
        ((data.drop (endIndex size data)).drop size) := by
    rw [pushed_eq h helement hroom, encode, hlength]
  have hend : vecSizeBytes ≤ endIndex size data := Nat.le_add_right _ _
  refine ⟨?_, fun _ => ?_, fun _ => ⟨?_, fun i hlow hout => ?_⟩, fun e he => ?_, fun e he => ?_⟩
  · rw [hpush]
    refine iff_of_true rfl ?_
    rw [Nat.succ_mul, ← Nat.add_assoc]
    exact hroom
  · rw [hpush, hencode, elements_encode hsizes (by rw [hlength]; exact hcount)]
  · rw [hpush]
    show (patch _ _ element).length = _
    rw [length_patch (by rw [h.length_patched, helement]; exact hroom), h.length_patched]
  · rw [hpush]
    show (patch _ _ element)[i]? = _
    rw [patch_getElem? (by rw [h.length_patched, helement]; exact hroom) (by rwa [helement]),
      patch_getElem? (by rw [leBytes_length]; omega) (.inr (by rw [leBytes_length]; omega))]
  · rw [hpush] at he
    cases he
  · rw [hpush] at he
    cases he

/-- `push` keeps its promise exactly where it does not fail after writing the prefix: there is room for
the element and the count of one more fits in 32 bits; or there is no room, but the count does not fit
either and the build panics on that, before anything is written. -/
theorem push_clean_iff (overflowChecks : Bool) (h : WellFormed size data)
    (helement : element.length = size) :
    CleanPush overflowChecks size element data ↔
      (vecSizeBytes + (count data + 1) * size ≤ data.length ∧ count data + 1 < 2 ^ 32) ∨
      (data.length < vecSizeBytes + (count data + 1) * size ∧ count data + 1 = 2 ^ 32 ∧
        overflowChecks = true) := by
  have hend : vecSizeBytes + (count data + 1) * size = endIndex size data + size := by
    rw [endIndex, Nat.succ_mul, Nat.add_assoc]
  have hcount := count_lt data
  rw [hend]
  by_cases hlast : count data + 1 < 2 ^ 32
  · -- The count fits, and room decides.
    have hincrement : increment overflowChecks (count data) = .ok (count data + 1) := by
      rw [increment, checkedAdd, fits_of_lt hlast, Nat.mod_eq_of_lt hlast]
      split <;> rfl
    by_cases hroom : endIndex size data + size ≤ data.length
    · exact iff_of_true (cleanPush_of_room h helement hlast hroom) (.inl ⟨hroom, hlast⟩)
    · refine iff_of_false (not_cleanPush_of_full h hincrement (Nat.not_le.mp hroom)) ?_
      omega
  · -- The count is at its end, and the build decides.
    have hfull : count data + 1 = 2 ^ 32 := by omega
    cases overflowChecks with
    | true =>
      have hincrement : increment true (count data) = .error .programFailedToComplete := by
        rw [increment, if_pos rfl, checkedAdd, fits_eq_none.mpr (by omega)]
        rfl
      have hpush : pushInPlace true size element data = _ := pushInPlace_overflow h hincrement
      by_cases hroom : endIndex size data + size ≤ data.length
      · -- There is room, and the push panics.
        refine iff_of_false (fun hclean => ?_) (by omega)
        have hok := hclean.ok_iff.mpr (by rw [hend]; exact hroom)
        rw [hpush] at hok
        cases hok
      · refine iff_of_true ?_ (.inr ⟨Nat.not_le.mp hroom, hfull, rfl⟩)
        refine ⟨?_, fun hok => ?_, fun hok => ?_, fun e _ => ?_, fun e _ => ?_⟩
        · rw [hpush, hend]
          refine iff_of_false (fun hok => ?_) hroom
          cases hok
        · rw [hpush] at hok
          cases hok
        · rw [hpush] at hok
          cases hok
        · rw [hpush]
        · rw [hpush]
          have hfits := h.fits
          exact h.inBounds (by omega)
    | false =>
      have hincrement : increment false (count data) = .ok 0 := by
        rw [increment, hfull]
        rfl
      by_cases hroom : endIndex size data + size ≤ data.length
      · -- The count wraps to zero, so the vector is empty.
        refine iff_of_false (fun hclean => ?_) (by omega)
        have hpush : pushInPlace false size element data = _ := pushInPlace_room h hincrement hroom
        have happended := hclean.appended (by rw [hpush])
        have hlength := congrArg List.length happended
        rw [hpush, elements_length, List.length_append, elements_length, List.length_singleton] at hlength
        have hzero : count (patch (patch data 0 (leBytes vecSizeBytes 0)) (endIndex size data) element) =
            0 := by
          rw [pushed_eq h helement hroom, List.append_assoc, count_append (by decide)]
        have hlength' : count (patch (patch data 0 (leBytes vecSizeBytes 0)) (endIndex size data)
            element) = count data + 1 := hlength
        omega
      · refine iff_of_false (not_cleanPush_of_full h hincrement (Nat.not_le.mp hroom)) ?_
        rintro (⟨hin, -⟩ | ⟨-, -, hchecks⟩)
        · exact hroom hin
        · cases hchecks

/-- A vector with room for one more element. -/
theorem push_clean_iff_room : CleanPush true 2 [7, 8] [1, 0, 0, 0, 5, 6, 0, 0] :=
  (push_clean_iff true (show WellFormed 2 [1, 0, 0, 0, 5, 6, 0, 0] from
    ⟨by decide, by decide⟩) rfl).mpr (.inl ⟨by decide, by decide⟩)

/-- A full vector of three elements of eight bytes: the push fails, the prefix says four, and the next
search that gets past the third element leaves the buffer. -/
theorem push_clean_full :
    let full : List UInt8 := [3, 0, 0, 0] ++ List.replicate 24 0
    WellFormed 8 full ∧
    pushInPlace true 8 (List.replicate 8 4) full =
      (.error .accountDataTooSmall, [4, 0, 0, 0] ++ List.replicate 24 0) ∧
    pushInPlace false 8 (List.replicate 8 4) full =
      (.error .accountDataTooSmall, [4, 0, 0, 0] ++ List.replicate 24 0) ∧
    find 8 (fun bytes => bytes == List.replicate 8 4) ([4, 0, 0, 0] ++ List.replicate 24 0) =
      .error .programFailedToComplete ∧
    ¬ CleanPush true 8 (List.replicate 8 4) full ∧ ¬ CleanPush false 8 (List.replicate 8 4) full := by
  intro full
  have hchecked : pushInPlace true 8 (List.replicate 8 4) full =
    (.error .accountDataTooSmall, [4, 0, 0, 0] ++ List.replicate 24 0) := by decide +kernel
  have hwrapping : pushInPlace false 8 (List.replicate 8 4) full =
    (.error .accountDataTooSmall, [4, 0, 0, 0] ++ List.replicate 24 0) := by decide +kernel
  refine ⟨⟨by decide, by decide⟩, hchecked, hwrapping, by decide +kernel,
    fun hclean => ?_, fun hclean => ?_⟩
  · have hsame := hclean.unchanged .accountDataTooSmall (by rw [hchecked])
    rw [hchecked] at hsame
    exact absurd hsame (by decide)
  · have hsame := hclean.unchanged .accountDataTooSmall (by rw [hwrapping])
    rw [hwrapping] at hsame
    exact absurd hsame (by decide)

end StakePoolFogo.BigVec
