import StakePoolFogo.BigVec.Raw
import StakePoolFogo.Lib.Journal

/-!
# What `retain` does on the way

`retain` with a journal of the slices it takes, of what it asks the predicate and of the bytes it moves.
Whatever the buffer, the journal leaves the result as it is.
-/

open StakePoolFogo.Checked StakePoolFogo.Outcome StakePoolFogo.Buffer StakePoolFogo.Journal

namespace StakePoolFogo.BigVec

inductive Access where
  /-- `&data[first..last]` -/
  | sliced (first last : Nat)
  /-- a call of the predicate on the bytes from `first` on -/
  | judged (first : Nat) (bytes : List UInt8)
  /-- `sol_memmove` -/
  | moved (dst src length : Nat)
deriving DecidableEq, Repr

/-- The access stays inside the first `bound` bytes. -/
def Access.Within (bound : Nat) : Access → Prop
  | .sliced first last => first ≤ last ∧ last ≤ bound
  | .judged first bytes => first + bytes.length ≤ bound
  | .moved dst src length => dst + length ≤ bound ∧ src + length ≤ bound

/-- What the predicate was asked, and where it stood. -/
def Access.judgement? : Access → Option (Nat × List UInt8)
  | .judged first bytes => some (first, bytes)
  | _ => none

abbrev Accessing := Journaled Access ProgramError

def indexNoted (data : List UInt8) (first last : Nat) : Accessing (List UInt8) := do
  note (.sliced first last)
  liftM (index data first last)

def lenNoted (data : List UInt8) : Accessing Nat := do
  return Borsh.ofLeBytes (← indexNoted data 0 vecSizeBytes)

/-- The target, the source, and the move of as many bytes as `stop - gap - first`. -/
def moveDownNoted (data : List UInt8) (first gap stop : Nat) : Accessing (List UInt8) := do
  let _ ← indexNoted data first (stop - gap)
  let source ← indexNoted data (first + gap) stop
  note (.moved first (first + gap) (stop - gap - first))
  return patch data first source

def Retained.closeGapNoted (size : Nat) (s : Retained) (stop : Nat) : Accessing (List UInt8) :=
  if s.removalsFound > 0 then moveDownNoted s.data s.dstStartIndex (s.removalsFound * size) stop
  else return s.data

def retainStepNoted (size : Nat) (predicate : List UInt8 → Bool) (s : Retained) (startIndex : Nat) :
    Accessing Retained := do
  let slice ← indexNoted s.data startIndex (startIndex + size)
  note (.judged startIndex slice)
  if predicate slice then return s
  else
    let data ← s.closeGapNoted size startIndex
    return {
      data
      vecLen := s.vecLen - 1
      removalsFound := s.removalsFound + 1
      dstStartIndex := startIndex - s.removalsFound * size }

def retainNoted (size : Nat) (predicate : List UInt8 → Bool) (data : List UInt8) :
    Accessing (List UInt8) := do
  let vecLen ← lenNoted data
  let dataEndIndex := saturatingAdd 64 vecSizeBytes (saturatingMul 64 vecLen size)
  let starts := List.range' vecSizeBytes ((dataEndIndex - vecSizeBytes + size - 1) / size) size
  let s ← starts.foldlM (retainStepNoted size predicate)
    { data, vecLen, removalsFound := 0, dstStartIndex := 0 }
  let data ← s.closeGapNoted size dataEndIndex
  let _ ← indexNoted data 0 vecSizeBytes
  return patch data 0 (leBytes vecSizeBytes s.vecLen)

/-! ## The journal aside -/

theorem indexNoted_erases (data : List UInt8) (first last : Nat) :
    Erases (indexNoted data first last) (index data first last) :=
  .note_bind (.lift _)

theorem lenNoted_erases (data : List UInt8) : Erases (lenNoted data) (len data) :=
  (indexNoted_erases data 0 vecSizeBytes).bind fun _ => .pure _

theorem closeGapNoted_erases (size : Nat) (s : Retained) (stop : Nat) :
    Erases (s.closeGapNoted size stop) (s.closeGap size stop) := by
  refine .ite ?_ (.pure _)
  refine (indexNoted_erases _ _ _).bind fun _ => ?_
  exact (indexNoted_erases _ _ _).bind fun _ => .note_bind (.pure _)

theorem retainStepNoted_erases (size : Nat) (predicate : List UInt8 → Bool) (s : Retained)
    (startIndex : Nat) :
    Erases (retainStepNoted size predicate s startIndex) (retainStep size predicate s startIndex) := by
  refine (indexNoted_erases _ _ _).bind fun slice => .note_bind ?_
  exact .ite (.pure _) ((closeGapNoted_erases size s startIndex).bind fun _ => .pure _)

theorem retainNoted_erases (size : Nat) (predicate : List UInt8 → Bool) (data : List UInt8) :
    Erases (retainNoted size predicate data) (retain size predicate data) := by
  refine (lenNoted_erases data).bind fun vecLen => ?_
  refine (Erases.foldlM (retainStepNoted_erases size predicate) _ _).bind fun s => ?_
  refine (closeGapNoted_erases size s _).bind fun _ => ?_
  exact (indexNoted_erases _ _ _).bind fun _ => .pure _

/-! ## What is noted -/

variable {size : Nat} {predicate : List UInt8 → Bool} {data data' bytes rest : List UInt8}
  {first last stop bound vecLen : Nat} {s s' : Retained} {seen left : List (List UInt8)}
  {item : List UInt8}

theorem index_bounds (h : index data first last = .ok bytes) :
    first ≤ last ∧ last ≤ data.length ∧ bytes.length = last - first := by
  rw [index, okOr_eq_ok, slice] at h
  by_cases hin : first ≤ last ∧ last ≤ data.length
  · rw [if_pos hin] at h
    refine ⟨hin.1, hin.2, ?_⟩
    rw [← Option.some.inj h, List.length_take, List.length_drop]
    omega
  · rw [if_neg hin] at h
    cases h

theorem indexNoted_notes (h : index data first last = .ok bytes) :
    Notes (indexNoted data first last) [.sliced first last] bytes :=
  .note_bind (.lift h)

/-- Closing a gap asks the predicate nothing and stays before `stop`. -/
theorem closeGapNoted_notes (h : s.closeGap size stop = .ok data') (hstop : stop ≤ bound) :
    ∃ events, Notes (s.closeGapNoted size stop) events data' ∧
      events.filterMap Access.judgement? = [] ∧ ∀ access ∈ events, access.Within bound := by
  rcases onlyIf_eq_ok.mp h with ⟨hpos, hmove⟩ | ⟨hnone, rfl⟩
  · simp only [moveDown, bind_eq_ok, pure_eq_ok] at hmove
    obtain ⟨target, htarget, source, hsource, rfl⟩ := hmove
    have htargetBounds := (index_bounds htarget).1
    have hsourceBounds := (index_bounds hsource).1
    refine ⟨[.sliced s.dstStartIndex (stop - s.removalsFound * size),
      .sliced (s.dstStartIndex + s.removalsFound * size) stop,
      .moved s.dstStartIndex (s.dstStartIndex + s.removalsFound * size)
        (stop - s.removalsFound * size - s.dstStartIndex)], ?_, rfl, ?_⟩
    · rw [Retained.closeGapNoted, if_pos hpos]
      refine (indexNoted_notes htarget).bind ((indexNoted_notes hsource).bind ?_)
      exact .note_bind (.pure _)
    · intro access haccess
      simp only [List.mem_cons, List.not_mem_nil, or_false] at haccess
      rcases haccess with rfl | rfl | rfl
      · exact ⟨htargetBounds, by omega⟩
      · exact ⟨hsourceBounds, hstop⟩
      · constructor <;> omega
  · refine ⟨[], ?_, rfl, fun access haccess => absurd haccess List.not_mem_nil⟩
    rw [Retained.closeGapNoted, if_neg hnone]
    exact .pure _

/-- A turn asks the predicate about the one slice it takes. -/
theorem retainStepNoted_notes (h : retainStep size predicate s first = .ok s')
    (hslice : index s.data first (first + size) = .ok item) (hbound : first + size ≤ bound) :
    ∃ events, Notes (retainStepNoted size predicate s first) events s' ∧
      events.filterMap Access.judgement? = [(first, item)] ∧
      ∀ access ∈ events, access.Within bound := by
  have hlength : item.length = size := by
    rw [(index_bounds hslice).2.2, Nat.add_sub_cancel_left]
  have hsliced : Access.Within bound (.sliced first (first + size)) := ⟨Nat.le_add_right _ _, hbound⟩
  have hjudged : Access.Within bound (.judged first item) := by
    show first + item.length ≤ bound
    rw [hlength]
    exact hbound
  rw [retainStep, hslice, ok_bind] at h
  by_cases hkeep : predicate item = true
  · rw [if_pos hkeep, pure_eq_ok] at h
    subst h
    refine ⟨[.sliced first (first + size), .judged first item], ?_, rfl, ?_⟩
    · refine (indexNoted_notes hslice).bind (.note_bind ?_)
      rw [if_pos hkeep]
      exact .pure _
    · intro access haccess
      simp only [List.mem_cons, List.not_mem_nil, or_false] at haccess
      rcases haccess with rfl | rfl
      · exact hsliced
      · exact hjudged
  · rw [if_neg hkeep, bind_eq_ok] at h
    obtain ⟨data', hclose, hs'⟩ := h
    rw [pure_eq_ok] at hs'
    subst hs'
    obtain ⟨events, hnotes, hasked, hwithin⟩ :=
      closeGapNoted_notes hclose (Nat.le_trans (Nat.le_add_right first size) hbound)
    refine ⟨.sliced first (first + size) :: .judged first item :: (events ++ []), ?_, ?_, ?_⟩
    · refine (indexNoted_notes hslice).bind (.note_bind ?_)
      rw [if_neg hkeep]
      exact hnotes.bind (.pure _)
    · show (first, item) :: (events ++ []).filterMap Access.judgement? = _
      rw [List.append_nil, hasked]
    · intro access haccess
      rw [List.append_nil, List.mem_cons, List.mem_cons] at haccess
      rcases haccess with rfl | rfl | haccess
      · exact hsliced
      · exact hjudged
      · exact hwithin access haccess

/-- The whole loop asks the predicate about the entries left, each where it was from the start. -/
theorem Retaining.run_noted (hsizes : ∀ item ∈ seen ++ left, item.length = size)
    (h : Retaining size predicate vecLen seen left rest s)
    (hbound : vecSizeBytes + (seen.length + left.length) * size ≤ bound) :
    let starts := List.range' (vecSizeBytes + seen.length * size) left.length size
    ∃ s' events, Notes (starts.foldlM (retainStepNoted size predicate) s) events s' ∧
      events.filterMap Access.judgement? = starts.zip left ∧
      ∀ access ∈ events, access.Within bound := by
  intro starts
  induction left generalizing seen s with
  | nil => exact ⟨s, [], .pure s, rfl, fun access haccess => absurd haccess List.not_mem_nil⟩
  | cons item left ih =>
    have hseen : ∀ other ∈ seen, other.length = size := fun other hother => hsizes other (by simp [hother])
    have hitem : item.length = size := hsizes item (by simp)
    obtain ⟨s', hstep, h'⟩ := h.step hseen hitem
    have hcount : (seen ++ [item]).length = seen.length + 1 := by
      rw [List.length_append, List.length_singleton]
    have hnext : vecSizeBytes + seen.length * size + size = vecSizeBytes + (seen.length + 1) * size := by
      rw [Nat.succ_mul, Nat.add_assoc]
    have hturn : vecSizeBytes + seen.length * size + size ≤ bound := by
      have hmul : (seen.length + 1) * size ≤ (seen.length + (item :: left).length) * size :=
        Nat.mul_le_mul_right size (by rw [List.length_cons]; omega)
      omega
    obtain ⟨events, hnotes, hasked, hwithin⟩ := retainStepNoted_notes hstep (h.slice hseen hitem) hturn
    obtain ⟨s'', events', hnotes', hasked', hwithin'⟩ := ih (by simpa using hsizes) h'
      (by rwa [hcount, Nat.add_assoc, Nat.add_comm 1, ← List.length_cons])
    rw [hcount, ← hnext] at hnotes' hasked'
    refine ⟨s'', events ++ events', ?_, ?_, ?_⟩
    · show Notes ((List.range' _ (left.length + 1) size).foldlM _ _) _ _
      rw [List.range'_succ, List.foldlM_cons]
      exact hnotes.bind hnotes'
    · show _ = (List.range' _ (left.length + 1) size).zip _
      rw [List.range'_succ, List.zip_cons_cons, List.filterMap_append, hasked, hasked',
        List.singleton_append]
    · intro access haccess
      rcases List.mem_append.mp haccess with haccess | haccess
      · exact hwithin access haccess
      · exact hwithin' access haccess

/-! ## `retain` is `filter` -/

theorem Layout.filter (predicate : List UInt8 → Bool) {freed : List UInt8} (h : Layout size left rest)
    (hfreed : freed.length + (left.filter predicate).length * size = left.length * size) :
    Layout size (left.filter predicate) (freed ++ rest) where
  size_pos := h.size_pos
  sizes item hitem := h.sizes item (List.mem_of_mem_filter hitem)
  count := Nat.lt_of_le_of_lt (List.length_filter_le _ _) h.count
  fits := by
    have hfits := h.fits
    rw [List.length_append]
    omega

/-- What `retain` notes: the prefix, the turns of the loop, the last move and the prefix again. -/
theorem retainNoted_notes (predicate : List UInt8 → Bool) (h : Layout size left rest)
    (hretain : retain size predicate (encode left rest) = .ok data') :
    ∃ events, Notes (retainNoted size predicate (encode left rest)) events data' ∧
      events.filterMap Access.judgement? =
        (List.range' vecSizeBytes left.length size).zip left ∧
      ∀ access ∈ events, access.Within (vecSizeBytes + left.length * size) := by
  have hlen : Notes (lenNoted (encode left rest)) [.sliced 0 vecSizeBytes] left.length := by
    have hindex : index (encode left rest) 0 vecSizeBytes = .ok (leBytes vecSizeBytes left.length) := by
      rw [encode, List.append_assoc, index_length]
    have hnotes : Notes (lenNoted (encode left rest)) ([.sliced 0 vecSizeBytes] ++ [])
        (Borsh.ofLeBytes (leBytes vecSizeBytes left.length)) := (indexNoted_notes hindex).bind (.pure _)
    rwa [ofLeBytes_leBytes (Nat.lt_of_lt_of_le h.count (by decide))] at hnotes
  obtain ⟨s, events, hloop, hasked, hwithin⟩ := (Retaining.start size predicate left rest).run_noted
    (by simpa using h.sizes) (by rw [List.length_nil, Nat.zero_add])
  simp only [List.length_nil, Nat.zero_mul, Nat.add_zero] at hloop hasked
  have hrun := hloop.erased (Erases.foldlM (retainStepNoted_erases size predicate) _ _)
  simp only [retain, len_encode h, ok_bind, h.dataEnd, h.turns, hrun, bind_eq_ok, pure_eq_ok] at hretain
  obtain ⟨data, hclose, front, hfront, rfl⟩ := hretain
  obtain ⟨moves, hmoves, hnothing, hinside⟩ := closeGapNoted_notes hclose (Nat.le_refl _)
  refine ⟨[.sliced 0 vecSizeBytes] ++ (events ++ (moves ++ ([.sliced 0 vecSizeBytes] ++ []))), ?_, ?_, ?_⟩
  · refine hlen.bind ?_
    simp only [h.dataEnd, h.turns]
    exact hloop.bind (hmoves.bind ((indexNoted_notes hfront).bind (.pure _)))
  · simp only [List.filterMap_append, hasked, hnothing, List.nil_append, List.append_nil]
    show [] ++ (_ ++ []) = _
    rw [List.nil_append, List.append_nil]
  · have hinitial : Access.Within (vecSizeBytes + left.length * size) (.sliced 0 vecSizeBytes) :=
      ⟨Nat.zero_le _, Nat.le_add_right _ _⟩
    intro access haccess
    simp only [List.mem_append, List.mem_singleton, List.append_nil] at haccess
    rcases haccess with rfl | haccess | haccess | rfl
    · exact hinitial
    · exact hwithin access haccess
    · exact hinside access haccess
    · exact hinitial

/-- Whatever vector a buffer holds, `retain` leaves the elements that satisfy the predicate, in their
order and with their number in the prefix, and the bytes behind the old elements as they were.  It asks
the predicate once about each element, in order and where the element stood from the start, and no slice
and no move leaves the prefix and the old elements. -/
theorem retain_is_filter (predicate : List UInt8 → Bool) (hsize : 0 < size) (h : WellFormed size data) :
    ∃ data' events, retain size predicate data = .ok data' ∧
      elements size data' = (elements size data).filter predicate ∧
      count data' = ((elements size data).filter predicate).length ∧
      data'.length = data.length ∧
      data'.drop (endIndex size data) = data.drop (endIndex size data) ∧
      Notes (retainNoted size predicate data) events data' ∧
      events.filterMap Access.judgement? =
        (List.range' vecSizeBytes (count data) size).zip (elements size data) ∧
      ∀ access ∈ events, access.Within (endIndex size data) := by
  have hlayout := h.layout hsize
  have hencoded := h.encoded
  have hlength : data.length = endIndex size data + (data.drop (endIndex size data)).length := by
    have hfits := h.fits
    rw [List.length_drop]
    omega
  obtain ⟨freed, hfreed, hretain⟩ := retain_encode predicate hlayout
  have hlayout' := hlayout.filter predicate hfreed
  obtain ⟨events, hnotes, hasked, hwithin⟩ := retainNoted_notes predicate hlayout hretain
  rw [hencoded] at hretain hnotes
  rw [elements_length] at hfreed hasked hwithin
  refine ⟨_, events, hretain, elements_encode hlayout'.sizes hlayout'.count,
    count_encode hlayout'.count, ?_, ?_, hnotes, hasked, hwithin⟩
  · rw [length_encode hlayout'.sizes, List.length_append, hlength, endIndex]
    omega
  · -- What was freed ends where the elements ended.
    rw [encode, ← List.append_assoc]
    refine List.drop_left' ?_
    rw [List.length_append, List.length_append, leBytes_length, flatten_length hlayout'.sizes, endIndex]
    omega

/-- Four elements of one byte, of which the second and the fourth stay. -/
theorem retain_is_filter_four : ∃ data',
    retain 1 (fun bytes => bytes == [2] || bytes == [4]) [4, 0, 0, 0, 1, 2, 3, 4, 9] = .ok data' ∧
      elements 1 data' = [[2], [4]] ∧ count data' = 2 ∧ data'.drop 8 = [9] := by
  obtain ⟨data', events, hretain, helements, hcount, -, hrest, -⟩ :=
    retain_is_filter (fun bytes => bytes == [2] || bytes == [4]) Nat.one_pos
      (show WellFormed 1 [4, 0, 0, 0, 1, 2, 3, 4, 9] from ⟨by decide, by decide⟩)
  exact ⟨data', hretain, helements, hcount, hrest⟩

end StakePoolFogo.BigVec
