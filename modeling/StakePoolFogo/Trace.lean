import StakePoolFogo.World

/-!
# Runs with their instructions

Moves of the world that remember which instruction was called, for properties that count
instructions or ask which one came last.
-/

open StakePoolFogo.Outcome

namespace StakePoolFogo

/-- What happens to the world: a call of the program, or anything else. -/
inductive Event where
  | call (accounts : List AccountMeta) (input : List UInt8)
  | elsewhere

/-- `e` happens and succeeds.  Failed calls change nothing and are left out. -/
inductive Happens (rt : Runtime) (s s' : World) : Event → Prop where
  | call {accounts : List AccountMeta} {input : List UInt8}
      (run : process rt s.sysvars accounts input s.ledger = .ok s'.ledger)
      (sysvars : s'.sysvars = s.sysvars) : Happens rt s s' (.call accounts input)
  | elsewhere (step : Elsewhere rt s s') : Happens rt s s' .elsewhere

/-- `e` calls an instruction `i` with `P i` on the pool at `k`. -/
inductive Event.Calls (k : Pubkey) (P : StakePoolInstruction → Prop) : Event → Prop where
  | intro {accounts : List AccountMeta} {input : List UInt8} {a : AccountMeta}
      {i : StakePoolInstruction} (pool_at : accounts[0]? = some a) (pool : a.key = k)
      (decoded : StakePoolInstruction.tryFromSlice input = .ok i) (holds : P i) :
      Calls k P (.call accounts input)

variable {rt : Runtime} {s s' : World} {e : Event} {k : Pubkey} {p : StakePool} {l : ValidatorList}

theorem Happens.moves (h : Happens rt s s' e) : Moves rt s s' := by
  cases h with
  | call run sysvars => exact .call run sysvars
  | elsewhere step => exact .elsewhere step

theorem Executes.happens {accounts : List AccountMeta} {i : StakePoolInstruction}
    (h : Executes rt accounts i s s') (input : List UInt8)
    (hi : StakePoolInstruction.tryFromSlice input = .ok i) :
    Happens rt s s' (.call accounts input) :=
  .call (h.process hi) h.sysvars

/-- Seen from one pool, an event is an instruction on it or leaves its records alone. -/
theorem Happens.on_pool (laws : ProgramLaws rt) (hreg : Registry rt s.ledger)
    (hp : PoolAt rt s.ledger k p) (hl : ListAt rt s.ledger p.validatorList l)
    (h : Happens rt s s' e) :
    (∃ accounts input a i, e = .call accounts input ∧ accounts[0]? = some a ∧ a.key = k ∧
      StakePoolInstruction.tryFromSlice input = .ok i ∧
      processInstruction rt s.sysvars accounts i s.ledger = .ok s'.ledger ∧
      s'.sysvars = s.sysvars) ∨
    (∀ P, ¬ e.Calls k P) ∧ PoolAt rt s'.ledger k p ∧ ListAt rt s'.ledger p.validatorList l := by
  cases h with
  | elsewhere step => exact .inr ⟨fun P hcall => (by cases hcall), step.poolAt hp, step.listAt hl⟩
  | @call accounts input run sysvars =>
    have hhandled := process_handled run
    simp only [process, bind_eq_ok] at run
    obtain ⟨i, hi, hrun⟩ := run
    have hrecord := hhandled.record laws hreg
    -- The first account decides which pool the instruction is about.
    by_cases hk : ∃ a, accounts[0]? = some a ∧ a.key = k
    · obtain ⟨a, ha, hkey⟩ := hk
      exact .inl ⟨accounts, input, a, i, rfl, ha, hkey, hi, hrun, sysvars⟩
    refine .inr ⟨fun P hcall => ?_, ?_⟩
    · cases hcall with
      | intro ha hkey _ _ => exact hk ⟨_, ha, hkey⟩
    · exact hrecord.kept hreg hp hl fun a ha hkey => hk ⟨a, ha, hkey.symm⟩

end StakePoolFogo
