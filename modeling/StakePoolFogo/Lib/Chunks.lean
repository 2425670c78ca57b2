import Mathlib.Data.List.Basic

/-!
# Chunks of a list

The slices of a list of a given size from its beginning on, the last of which may be shorter.
-/

namespace StakePoolFogo.Chunks

variable {α : Type} {size : Nat} {l chunk : List α} {k n : Nat} {x : α}

/-- The slices from `0`, `size`, `2 * size` and so on, as far as the list goes. -/
def chunks (size : Nat) (l : List α) : List (List α) :=
  (List.range ((l.length + size - 1) / size)).map fun k => (l.drop (k * size)).take size

theorem chunks_count_iff (hsize : 0 < size) : k < (l.length + size - 1) / size ↔ k * size < l.length := by
  rw [Nat.lt_div_iff_mul_lt hsize]
  omega

theorem chunks_getElem? (hsize : 0 < size) :
    (chunks size l)[k]? = some chunk ↔ k * size < l.length ∧ chunk = (l.drop (k * size)).take size := by
  rw [chunks, List.getElem?_map]
  by_cases hk : k < (l.length + size - 1) / size
  · rw [List.getElem?_range hk, Option.map_some, Option.some_inj]
    exact ⟨fun h => ⟨(chunks_count_iff hsize).mp hk, h.symm⟩, fun h => h.2.symm⟩
  · rw [List.getElem?_eq_none (by rw [List.length_range]; omega), Option.map_none]
    refine ⟨fun h => ?_, fun h => absurd ((chunks_count_iff hsize).mpr h.1) hk⟩
    cases h

theorem chunks_map {β : Type} (f : α → β) :
    chunks size (l.map f) = (chunks size l).map (List.map f) := by
  rw [chunks, chunks, List.map_map, List.length_map]
  refine List.map_congr_left fun k _ => ?_
  rw [Function.comp_apply, List.map_take, List.map_drop]

theorem mem_of_mem_chunks (hc : chunk ∈ chunks size l) (hx : x ∈ chunk) : x ∈ l := by
  obtain ⟨k, -, rfl⟩ := List.mem_map.mp hc
  exact List.mem_of_mem_drop (List.mem_of_mem_take hx)

/-- The element at `n` is in the chunk `n / size`, at `n % size`. -/
theorem chunk_of_getElem? (hsize : 0 < size) (hx : l[n]? = some x) :
    ∃ chunk, (chunks size l)[n / size]? = some chunk ∧ chunk[n % size]? = some x := by
  have hlt : n < l.length := List.getElem?_eq_some_iff.mp hx |>.1
  have hstart : n / size * size ≤ n := Nat.div_mul_le_self n size
  have hoffset : n / size * size + n % size = n := Nat.div_add_mod' n size
  refine ⟨_, (chunks_getElem? hsize).mpr ⟨by omega, rfl⟩, ?_⟩
  rw [List.getElem?_take_of_lt (Nat.mod_lt n hsize), List.getElem?_drop, hoffset]
  exact hx

theorem getElem?_of_chunk (hsize : 0 < size) (hc : (chunks size l)[k]? = some chunk) (hx : chunk[n]? = some x) :
    l[k * size + n]? = some x := by
  obtain ⟨-, rfl⟩ := (chunks_getElem? hsize).mp hc
  have hn : n < size := by
    have hlength := (List.getElem?_eq_some_iff.mp hx).1
    rw [List.length_take] at hlength
    omega
  rwa [List.getElem?_take_of_lt hn, List.getElem?_drop] at hx

end StakePoolFogo.Chunks
