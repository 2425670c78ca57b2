import StakePoolFogo.Lib.Outcome

/-!
# Filling a request

A request is filled from a list of sources: each gives all it is worth, and the last what is still
missing.  What is taken is then carried out on a state, source by source.
-/

open StakePoolFogo.Outcome

namespace StakePoolFogo.Filling

variable {σ β ε δ : Type} (worth : σ → Except ε Nat)

/-- What is taken from each source, and what is missing in the end. -/
def fill : List σ → Nat → Except ε (List (σ × Nat) × Nat)
  | [], n => .ok ([], n)
  | a :: as, n => do
    let k ← worth a
    if n ≤ k then return ([(a, n)], 0)
    else do
      let (taken, missing) ← fill as (n - k)
      return ((a, k) :: taken, missing)

/-- The sources together are worth less than `n`. -/
inductive RunsOut : List σ → Nat → Prop
  | nil {n : Nat} (missing : 0 < n) : RunsOut [] n
  | cons {a : σ} {as : List σ} {n k : Nat} (isWorth : worth a = .ok k) (less : k < n)
      (rest : RunsOut as (n - k)) : RunsOut (a :: as) n

/-- The sources are worth `n`, and each `serve`s its part from the state the ones before it leave. -/
inductive ServeAll (serve : β → σ → Nat → β → Prop) : β → List σ → Nat → Prop
  | last {b b' : β} {a : σ} {as : List σ} {n k : Nat} (isWorth : worth a = .ok k) (enough : n ≤ k)
      (served : serve b a n b') : ServeAll serve b (a :: as) n
  | cons {b b' : β} {a : σ} {as : List σ} {n k : Nat} (isWorth : worth a = .ok k) (less : k < n)
      (served : serve b a k b') (rest : ServeAll serve b' as (n - k)) : ServeAll serve b (a :: as) n

/-- Carry out what was taken. -/
def carryOut (step : β → σ → Nat → Except δ β) (b : β) (taken : List (σ × Nat)) : Except δ β :=
  taken.foldlM (fun b part => step b part.1 part.2) b

section CarryOut

variable {step : β → σ → Nat → Except δ β} {b b' : β} {a : σ} {n : Nat} {taken : List (σ × Nat)}

theorem carryOut_nil : carryOut step b [] = .ok b := rfl

theorem carryOut_cons_eq_ok :
    carryOut step b ((a, n) :: taken) = .ok b' ↔
      ∃ next, step b a n = .ok next ∧ carryOut step next taken = .ok b' := by
  rw [carryOut, List.foldlM_cons, bind_eq_ok]
  rfl

end CarryOut

variable {worth} {as : List σ} {n missing : Nat} {taken : List (σ × Nat)}

theorem fill_cons_of_le {a : σ} {k : Nat} (isWorth : worth a = .ok k) (enough : n ≤ k) :
    fill worth (a :: as) n = .ok ([(a, n)], 0) := by
  rw [fill, isWorth, ok_bind, if_pos enough]
  rfl

theorem fill_cons_of_lt {a : σ} {k : Nat} (isWorth : worth a = .ok k) (less : k < n)
    (h : fill worth as (n - k) = .ok (taken, missing)) :
    fill worth (a :: as) n = .ok ((a, k) :: taken, missing) := by
  rw [fill, isWorth, ok_bind, if_neg (Nat.not_le.mpr less), h]
  rfl

/-- The parts and what is missing make up the request. -/
theorem fill_sum (h : fill worth as n = .ok (taken, missing)) :
    (taken.map (·.2)).sum + missing = n := by
  induction as generalizing n taken with
  | nil =>
    obtain ⟨rfl, rfl⟩ := Prod.mk.inj (Except.ok.inj h)
    exact Nat.zero_add _
  | cons a as ih =>
    rw [fill, bind_eq_ok] at h
    obtain ⟨k, hk, h⟩ := h
    by_cases hle : n ≤ k
    · rw [if_pos hle, pure_eq_ok] at h
      obtain ⟨rfl, rfl⟩ := Prod.mk.inj h
      show n + 0 + 0 = n
      omega
    · rw [if_neg hle, bind_eq_ok] at h
      obtain ⟨rest, hrest, h⟩ := h
      rw [pure_eq_ok] at h
      obtain ⟨rfl, rfl⟩ := Prod.mk.inj h
      have hsum := ih hrest
      show k + (rest.1.map (·.2)).sum + rest.2 = n
      omega

/-- Only the worth of a source can be at fault. -/
theorem fill_error {e : ε} (h : fill worth as n = .error e) : ∃ a ∈ as, worth a = .error e := by
  induction as generalizing n with
  | nil => cases h
  | cons a as ih =>
    rw [fill] at h
    cases hworth : worth a with
    | error e' =>
      rw [hworth] at h
      cases h
      exact ⟨a, List.mem_cons_self, hworth⟩
    | ok k =>
      rw [hworth, ok_bind] at h
      by_cases hle : n ≤ k
      · rw [if_pos hle] at h
        cases h
      · rw [if_neg hle] at h
        cases hrest : fill worth as (n - k) with
        | error e' =>
          rw [hrest] at h
          cases h
          obtain ⟨b, hb, hfault⟩ := ih hrest
          exact ⟨b, List.mem_cons_of_mem a hb, hfault⟩
        | ok rest =>
          rw [hrest] at h
          cases h

theorem runsOut_iff :
    RunsOut worth as n ↔ ∃ taken missing, fill worth as n = .ok (taken, missing) ∧ 0 < missing := by
  constructor
  · intro h
    induction h with
    | nil hmissing => exact ⟨[], _, rfl, hmissing⟩
    | cons isWorth less _ ih =>
      obtain ⟨taken, missing, hfill, hpos⟩ := ih
      exact ⟨_, missing, fill_cons_of_lt isWorth less hfill, hpos⟩
  · rintro ⟨taken, missing, hfill, hpos⟩
    induction as generalizing n taken with
    | nil =>
      obtain ⟨rfl, rfl⟩ := Prod.mk.inj (Except.ok.inj hfill)
      exact .nil hpos
    | cons a as ih =>
      rw [fill, bind_eq_ok] at hfill
      obtain ⟨k, hk, hfill⟩ := hfill
      by_cases hle : n ≤ k
      · rw [if_pos hle, pure_eq_ok] at hfill
        obtain ⟨-, rfl⟩ := Prod.mk.inj hfill
        omega
      · rw [if_neg hle, bind_eq_ok] at hfill
        obtain ⟨rest, hrest, hfill⟩ := hfill
        rw [pure_eq_ok] at hfill
        obtain ⟨-, rfl⟩ := Prod.mk.inj hfill
        exact .cons hk (Nat.not_le.mp hle) (ih rest.1 hrest)

/-- A request is covered where what is taken for it can be carried out. -/
theorem serveAll_iff {step : β → σ → Nat → Except δ β} {serve : β → σ → Nat → β → Prop}
    (hstep : ∀ b a n b', step b a n = .ok b' ↔ serve b a n b') {b : β} (hn : 0 < n) :
    ServeAll worth serve b as n ↔
      ∃ taken, fill worth as n = .ok (taken, 0) ∧ ∃ b', carryOut step b taken = .ok b' := by
  constructor
  · intro h
    clear hn
    induction h with
    | last isWorth enough served =>
      exact ⟨_, fill_cons_of_le isWorth enough, _,
        carryOut_cons_eq_ok.mpr ⟨_, (hstep _ _ _ _).mpr served, carryOut_nil⟩⟩
    | cons isWorth less served _ ih =>
      obtain ⟨taken, hfill, b', hrun⟩ := ih
      exact ⟨_, fill_cons_of_lt isWorth less hfill, b',
        carryOut_cons_eq_ok.mpr ⟨_, (hstep _ _ _ _).mpr served, hrun⟩⟩
  · rintro ⟨taken, hfill, b', hrun⟩
    induction as generalizing n taken b with
    | nil =>
      obtain ⟨-, rfl⟩ := Prod.mk.inj (Except.ok.inj hfill)
      omega
    | cons a as ih =>
      rw [fill, bind_eq_ok] at hfill
      obtain ⟨k, hk, hfill⟩ := hfill
      by_cases hle : n ≤ k
      · rw [if_pos hle, pure_eq_ok] at hfill
        obtain ⟨rfl, -⟩ := Prod.mk.inj hfill
        obtain ⟨next, hnext, -⟩ := carryOut_cons_eq_ok.mp hrun
        exact .last hk hle ((hstep _ _ _ _).mp hnext)
      · rw [if_neg hle, bind_eq_ok] at hfill
        obtain ⟨rest, hrest, hfill⟩ := hfill
        rw [pure_eq_ok] at hfill
        obtain ⟨rfl, hzero⟩ := Prod.mk.inj hfill
        obtain ⟨next, hnext, hrun⟩ := carryOut_cons_eq_ok.mp hrun
        have hrest : fill worth as (n - k) = .ok (rest.1, 0) := by rw [hrest, ← hzero]
        exact .cons hk (Nat.not_le.mp hle) ((hstep _ _ _ _).mp hnext)
          (ih (by omega) rest.1 hrest hrun)

/-- Where no step gives nothing, no part of a carried out request is empty. -/
theorem carryOut_pos {step : β → σ → Nat → Except δ β} (hstep : ∀ b a b', step b a 0 ≠ .ok b') {b b' : β}
    (h : carryOut step b taken = .ok b') : ∀ part ∈ taken, 0 < part.2 := by
  induction taken generalizing b with
  | nil =>
    intro part hpart
    cases hpart
  | cons first rest ih =>
    obtain ⟨next, hnext, h⟩ := carryOut_cons_eq_ok.mp h
    intro part hpart
    rcases List.mem_cons.mp hpart with rfl | hrest
    · apply Nat.pos_of_ne_zero
      intro hzero
      rw [hzero] at hnext
      exact hstep _ _ _ hnext
    · exact ih h part hrest

/-- The first source alone, where it cannot give all it is worth. -/
theorem ServeAll.single {serve : β → σ → Nat → β → Prop} {b : β} {a : σ} (h : ServeAll worth serve b (a :: as) n)
    (hwhole : ∀ k b', worth a = .ok k → ¬serve b a k b') :
    ∃ k b', worth a = .ok k ∧ n < k ∧ serve b a n b' := by
  cases h with
  | last isWorth enough served =>
    refine ⟨_, _, isWorth, Nat.lt_of_le_of_ne enough ?_, served⟩
    rintro rfl
    exact hwhole _ _ isWorth served
  | cons isWorth _ served _ => exact absurd served (hwhole _ _ isWorth)

end StakePoolFogo.Filling
