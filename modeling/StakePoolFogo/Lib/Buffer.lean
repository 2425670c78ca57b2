import Mathlib

/-!
# Buffers

Slices of a buffer of fixed length and writes into it.  `slice` is `none` where an indexing
expression would panic.
-/

namespace StakePoolFogo.Buffer

variable {α : Type}

/-- The elements from `first` up to `last`. -/
def slice (data : List α) (first last : Nat) : Option (List α) :=
  if first ≤ last ∧ last ≤ data.length then some ((data.drop first).take (last - first)) else none

/-- Overwrite the elements from `first` on. -/
def patch (data : List α) (first : Nat) (bytes : List α) : List α :=
  data.take first ++ bytes ++ data.drop (first + bytes.length)

/-- A buffer that is made up of known parts gives them back. -/
theorem slice_append (a b c : List α) {first last : Nat} (hfirst : first = a.length)
    (hlast : last = a.length + b.length) : slice (a ++ b ++ c) first last = some b := by
  subst hfirst hlast
  have hlen : a.length + b.length ≤ (a ++ b ++ c).length := by
    simp only [List.length_append]
    omega
  rw [slice, if_pos ⟨Nat.le_add_right _ _, hlen⟩, List.append_assoc, List.drop_left,
    Nat.add_sub_cancel_left, List.take_left]

theorem patch_append (a b c : List α) {new : List α} {first : Nat} (hfirst : first = a.length)
    (hnew : new.length = b.length) : patch (a ++ b ++ c) first new = a ++ new ++ c := by
  subst hfirst
  have hdrop : (a ++ b ++ c).drop (a.length + new.length) = c := by
    rw [hnew, ← List.length_append, List.drop_left]
  have htake : (a ++ b ++ c).take a.length = a := by rw [List.append_assoc, List.take_left]
  rw [patch, hdrop, htake]

/-- Move the part `b` down over the gap `g` before it; what is left in its place is of no interest
but its length. -/
theorem patch_down (a g b c : List α) {first : Nat} (hfirst : first = a.length) :
    ∃ g', g'.length = g.length ∧ patch (a ++ g ++ b ++ c) first b = a ++ b ++ g' ++ c := by
  subst hfirst
  refine ⟨(g ++ b).drop b.length, by simp, ?_⟩
  have hdrop : (a ++ g ++ b ++ c).drop (a.length + b.length) = (g ++ b).drop b.length ++ c := by
    rw [List.append_assoc a g b, List.append_assoc a, ← List.drop_drop, List.drop_left,
      List.drop_append_of_le_length (by simp)]
  have htake : (a ++ g ++ b ++ c).take a.length = a := by
    rw [List.append_assoc a g b, List.append_assoc a, List.take_left]
  rw [patch, hdrop, htake, ← List.append_assoc]

section Patch

variable {data bytes : List α} {first i : Nat}

theorem length_patch (h : first + bytes.length ≤ data.length) :
    (patch data first bytes).length = data.length := by
  rw [patch, List.length_append, List.length_append, List.length_take, List.length_drop]
  omega

/-- A write leaves everything else as it was. -/
theorem patch_getElem? (h : first + bytes.length ≤ data.length)
    (hout : i < first ∨ first + bytes.length ≤ i) : (patch data first bytes)[i]? = data[i]? := by
  have htake : (data.take first).length = first := by
    rw [List.length_take]
    omega
  rw [patch]
  rcases hout with hlow | hhigh
  · rw [List.append_assoc, List.getElem?_append_left (by omega), List.getElem?_take_of_lt hlow]
  · rw [List.getElem?_append_right (by rw [List.length_append]; omega), List.getElem?_drop,
      List.length_append, htake]
    congr 1
    omega

/-- A write behind a header. -/
theorem patch_append_right (before data bytes : List α) (first : Nat) :
    patch (before ++ data) (before.length + first) bytes = before ++ patch data first bytes := by
  rw [patch, patch, Nat.add_assoc, List.take_length_add_append, List.drop_length_add_append,
    List.append_assoc, List.append_assoc, List.append_assoc]

end Patch

/-- Items of one size. -/
theorem flatten_length {items : List (List α)} {size : Nat}
    (h : ∀ item ∈ items, item.length = size) : items.flatten.length = items.length * size := by
  have hsizes : ∀ n ∈ items.map List.length, n = size := by simpa using h
  rw [List.length_flatten, List.sum_eq_card_nsmul _ size hsizes, List.length_map, smul_eq_mul]

/-- The `n` items of one size that stand side by side from `first` on. -/
def items (size first n : Nat) (data : List α) : List (List α) :=
  (List.range n).map fun i => (data.drop (first + i * size)).take size

section Items

variable {size first n : Nat} {data : List α}

theorem items_length : (items size first n data).length = n := by
  rw [items, List.length_map, List.length_range]

theorem items_succ : items size first (n + 1) data =
    (data.drop first).take size :: items size (first + size) n data := by
  rw [items, List.range_succ_eq_map, List.map_cons, List.map_map, Nat.zero_mul, Nat.add_zero]
  congr 1
  refine List.map_congr_left fun i _ => ?_
  rw [Function.comp_apply, Nat.succ_mul, Nat.add_comm (i * size), Nat.add_assoc]

theorem items_sizes (h : first + n * size ≤ data.length) :
    ∀ item ∈ items size first n data, item.length = size := by
  intro item hitem
  obtain ⟨i, hi, rfl⟩ := List.mem_map.mp hitem
  have hi' : (i + 1) * size ≤ n * size := Nat.mul_le_mul_right size (List.mem_range.mp hi)
  rw [Nat.succ_mul] at hi'
  rw [List.length_take, List.length_drop]
  omega

/-- The items are the bytes they stand in. -/
theorem items_flatten : (items size first n data).flatten = (data.drop first).take (n * size) := by
  induction n generalizing first with
  | zero => rw [Nat.zero_mul, List.take_zero]; rfl
  | succ n ih =>
    rw [items_succ, List.flatten_cons, ih, Nat.succ_mul, Nat.add_comm (n * size), List.take_add,
      List.drop_drop]

/-- A buffer that is made up of items gives them back. -/
theorem items_append (before : List α) {parts : List (List α)} (after : List α)
    (hfirst : first = before.length) (hsizes : ∀ part ∈ parts, part.length = size) :
    items size first parts.length (before ++ parts.flatten ++ after) = parts := by
  subst hfirst
  induction parts generalizing before with
  | nil => rfl
  | cons part parts ih =>
    have hpart : part.length = size := hsizes part List.mem_cons_self
    have hrest := ih (before ++ part) fun other hother => hsizes other (List.mem_cons_of_mem _ hother)
    rw [List.length_append, hpart, List.append_assoc before part] at hrest
    rw [List.length_cons, items_succ, List.flatten_cons, hrest, List.append_assoc, List.drop_left,
      List.append_assoc, ← hpart, List.take_left]

end Items

end StakePoolFogo.Buffer
