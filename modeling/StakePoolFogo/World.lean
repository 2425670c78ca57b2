import StakePoolFogo.Books
import StakePoolFogo.Reference

/-!
# Worlds and what happens between instructions

A world is the ledger together with the sysvars.  It moves by instructions of the program and by
whatever else happens on the chain; the latter never touches data the program owns.
-/

open StakePoolFogo.Outcome

namespace StakePoolFogo

structure World where
  sysvars : Sysvars
  ledger : Ledger

/-- A successful instruction. -/
structure Executes (rt : Runtime) (accounts : List AccountMeta) (i : StakePoolInstruction)
    (s s' : World) : Prop where
  run : processInstruction rt s.sysvars accounts i s.ledger = .ok s'.ledger
  sysvars : s'.sysvars = s.sysvars

/-- The world after an instruction; a failed one changes nothing. -/
def World.execute (rt : Runtime) (accounts : List AccountMeta) (i : StakePoolInstruction)
    (s : World) : World :=
  match processInstruction rt s.sysvars accounts i s.ledger with
  | .ok w => { s with ledger := w }
  | .error _ => s

/-- Time passes. -/
def World.atEpoch (epoch : Epoch) (s : World) : World :=
  { s with sysvars := { s.sysvars with epoch := epoch } }

theorem Executes.of_succeeded {rt : Runtime} {accounts : List AccountMeta}
    {i : StakePoolInstruction} {s : World}
    (h : succeeded (processInstruction rt s.sysvars accounts i s.ledger) = true) :
    Executes rt accounts i s (s.execute rt accounts i) := by
  obtain ⟨w, hw⟩ := succeeded_iff.mp h
  exact ⟨by rw [World.execute, hw], by rw [World.execute, hw]⟩

/-- Anything else: time passes, other programs run.  The runtime keeps them from writing to accounts
of the program, which can only be credited, and hands new ones over zeroed. -/
structure Elsewhere (rt : Runtime) (s s' : World) : Prop where
  kept : ∀ k, (s.ledger k).owner = rt.programId → (s.ledger k).OnlyCredited (s'.ledger k)
  fresh : ∀ k, (s.ledger k).owner ≠ rt.programId → (s'.ledger k).owner = rt.programId →
    (s'.ledger k).data = .zeroed

theorem Elsewhere.atEpoch (rt : Runtime) (epoch : Epoch) (s : World) :
    Elsewhere rt s (s.atEpoch epoch) :=
  ⟨fun _ _ => Account.OnlyCredited.refl _, fun _ ho ho' => absurd ho' ho⟩

/-- One move of the world: a call of the program with any accounts and any bytes, or anything
else. -/
inductive Moves (rt : Runtime) (s s' : World) : Prop where
  | call {accounts : List AccountMeta} {input : List UInt8}
      (run : process rt s.sysvars accounts input s.ledger = .ok s'.ledger)
      (sysvars : s'.sysvars = s.sysvars)
  | elsewhere (step : Elsewhere rt s s')

theorem Executes.process {rt : Runtime} {accounts : List AccountMeta} {i : StakePoolInstruction}
    {s s' : World} {input : List UInt8} (h : Executes rt accounts i s s')
    (hi : StakePoolInstruction.tryFromSlice input = .ok i) :
    process rt s.sysvars accounts input s.ledger = .ok s'.ledger := by
  rw [StakePoolFogo.process, hi]
  exact h.run

/-- The program's accounts before its first instruction: nobody has written to them. -/
def Untouched (rt : Runtime) (s : World) : Prop :=
  ∀ k, (s.ledger k).owner = rt.programId → (s.ledger k).data = .zeroed

/-- Worlds the program can find itself in. -/
def Reachable (rt : Runtime) (s : World) : Prop :=
  ∃ s₀, Untouched rt s₀ ∧ Relation.ReflTransGen (Moves rt) s₀ s

theorem Reachable.executes {rt : Runtime} {accounts : List AccountMeta} {i : StakePoolInstruction}
    {s s' : World} (hs : Reachable rt s) (h : Executes rt accounts i s s') (input : List UInt8)
    (hi : StakePoolInstruction.tryFromSlice input = .ok i) : Reachable rt s' := by
  obtain ⟨s₀, hs₀, hrun⟩ := hs
  exact ⟨s₀, hs₀, hrun.tail (.call (h.process hi) h.sysvars)⟩

variable {rt : Runtime}

theorem Elsewhere.poolAt {s s' : World} (h : Elsewhere rt s s') {k : Pubkey} {p : StakePool}
    (hp : PoolAt rt s.ledger k p) : PoolAt rt s'.ledger k p := by
  have hk := h.kept k hp.owner
  exact ⟨hk.owner.trans hp.owner, hk.data.trans hp.data, hp.valid⟩

theorem Elsewhere.listAt {s s' : World} (h : Elsewhere rt s s') {k : Pubkey} {l : ValidatorList}
    (hl : ListAt rt s.ledger k l) : ListAt rt s'.ledger k l := by
  have hk := h.kept k hl.owner
  exact ⟨hk.owner.trans hl.owner, hk.data.trans hl.data, hl.valid⟩

/-! ## Pools and their lists -/

/-- Every pool has a list of its own. -/
structure Registry (rt : Runtime) (w : Ledger) : Prop where
  hasList : ∀ {k p}, PoolAt rt w k p → ∃ l, ListAt rt w p.validatorList l
  own : ∀ {j k p q}, PoolAt rt w j p → PoolAt rt w k q → p.validatorList = q.validatorList → j = k

/-- Of the program's accounts only those at `changed` differ; new ones are zeroed. -/
structure OwnFrame (rt : Runtime) (changed : Pubkey → Prop) (w w' : Ledger) : Prop where
  kept : ∀ j, (w j).owner = rt.programId → ¬ changed j → (w j).OnlyCredited (w' j)
  fresh : ∀ j, (w j).owner ≠ rt.programId → (w' j).owner = rt.programId → (w' j).data = .zeroed

namespace OwnFrame

variable {changed : Pubkey → Prop} {w w' : Ledger} {j : Pubkey} {p : StakePool} {l : ValidatorList}

theorem poolAt (h : OwnFrame rt changed w w') (hp : PoolAt rt w j p) (hj : ¬ changed j) :
    PoolAt rt w' j p := by
  have hk := h.kept j hp.owner hj
  exact ⟨hk.owner.trans hp.owner, hk.data.trans hp.data, hp.valid⟩

theorem listAt (h : OwnFrame rt changed w w') (hl : ListAt rt w j l) (hj : ¬ changed j) :
    ListAt rt w' j l := by
  have hk := h.kept j hl.owner hj
  exact ⟨hk.owner.trans hl.owner, hk.data.trans hl.data, hl.valid⟩

/-- A pool that is there afterwards and was not written was there before. -/
theorem poolAt_before (h : OwnFrame rt changed w w') (hp : PoolAt rt w' j p) (hj : ¬ changed j) :
    PoolAt rt w j p := by
  by_cases ho : (w j).owner = rt.programId
  · exact ⟨ho, (h.kept j ho hj).data.symm.trans hp.data, hp.valid⟩
  · have hzero := h.fresh j ho hp.owner
    rw [hp.data] at hzero
    cases hzero

theorem of_frames (laws : ProgramLaws rt) (h : Frames (outsiders rt) w w') :
    OwnFrame rt (fun _ => False) w w' := by
  refine ⟨fun j ho _ => h.others j (by rw [ho]; exact laws.not_outsider), fun j ho ho' => ?_⟩
  by_cases hin : (w j).owner ∈ outsiders rt
  · exact h.given j hin (by rw [ho']; exact laws.not_outsider)
  · exact absurd ((h.others j hin).owner ▸ ho') ho

theorem of_effect {sv : Sysvars} {accounts : List AccountMeta} {k : Pubkey} {p' : StakePool}
    {l' : ValidatorList} (hl : ListAt rt w p.validatorList l)
    (h : BookEffect rt sv accounts w w' k p l p' l') :
    OwnFrame rt (fun j => j = k ∨ j = p.validatorList) w w' := by
  refine ⟨fun j ho hj => ?_, fun j ho ho' => ?_⟩
  · rw [not_or] at hj
    exact h.own.frame j ho hj.1 hj.2
  · refine h.own.fresh j ho ?_ ho'
    rintro rfl
    exact ho hl.owner

end OwnFrame

/-- A new pool `p` at `k` with an empty list. -/
structure Founded (rt : Runtime) (w w' : Ledger) (k : Pubkey) (p : StakePool) (l : ValidatorList) :
    Prop where
  pool : PoolAt rt w' k p
  list : ListAt rt w' p.validatorList l
  room : p.packedLen ≤ (w' k).dataLen
  empty : l.validators = []
  newPool : ∀ q, ¬ PoolAt rt w k q
  newList : ∀ m, ¬ ListAt rt w p.validatorList m
  notList : ∀ m, ¬ ListAt rt w k m
  notPool : ∀ q, ¬ PoolAt rt w p.validatorList q
  frame : OwnFrame rt (fun j => j = k ∨ j = p.validatorList) w w'

variable {sv : Sysvars} {w w' : Ledger} {accounts : List AccountMeta}

/-- What each successful instruction is to the program's accounts: the foundation of a pool or a step
of the books of the pool it names first. -/
inductive RecordEffect (rt : Runtime) (sv : Sysvars) (accounts : List AccountMeta) (w w' : Ledger) :
    Prop where
  | founded {a : AccountMeta} {p : StakePool} {l : ValidatorList} (at_ : accounts[0]? = some a)
      (effect : Founded rt w w' a.key p l)
  | booked {a : AccountMeta} {p p' : StakePool} {l l' : ValidatorList}
      (at_ : accounts[0]? = some a) (pool : PoolAt rt w a.key p)
      (list : ListAt rt w p.validatorList l)
      (effect : BookEffect rt sv accounts w w' a.key p l p' l')

/-- Writing a list and a pool into accounts of the program that hold neither founds a pool. -/
theorem Founded.of_writes {mid : Ledger} {k : Pubkey} {p : StakePool} {l : ValidatorList}
    (hcalls : OwnFrame rt (fun _ => False) w mid) (hpool : (w k).owner = rt.programId)
    (hlist : (w p.validatorList).owner = rt.programId) (hne : p.validatorList ≠ k)
    (hw : writeStakePool (writeValidatorList mid p.validatorList l) k p = .ok w')
    (hpv : p.isValid) (hlv : l.header.isValid) (empty : l.validators = [])
    (newPool : ∀ q, ¬ PoolAt rt w k q) (newList : ∀ m, ¬ ListAt rt w p.validatorList m)
    (notList : ∀ m, ¬ ListAt rt w k m) (notPool : ∀ q, ¬ PoolAt rt w p.validatorList q) :
    Founded rt w w' k p l := by
  have hpool' := (hcalls.kept _ hpool id).owner.trans hpool
  have hlist' := (hcalls.kept _ hlist id).owner.trans hlist
  obtain ⟨hfits, rfl⟩ := writeStakePool_eq_ok.mp hw
  refine ⟨⟨?_, ?_, hpv⟩, ⟨?_, ?_, hlv⟩, ?_, empty, newPool, newList, notList, notPool,
    ⟨fun j ho hj => ?_, fun j ho ho' => ?_⟩⟩
  · rw [Ledger.set_same, writeValidatorList, Ledger.set_other _ _ hne.symm]
    exact hpool'
  · rw [Ledger.set_same]
  · rw [Ledger.set_other _ _ hne, writeValidatorList, Ledger.set_same]
    exact hlist'
  · rw [Ledger.set_other _ _ hne, writeValidatorList, Ledger.set_same]
  · rw [Ledger.set_same]
    exact hfits
  · rw [not_or] at hj
    rw [Ledger.set_other _ _ hj.1, writeValidatorList, Ledger.set_other _ _ hj.2]
    exact hcalls.kept j ho id
  · have hj : j ≠ k := by
      rintro rfl
      exact ho hpool
    have hj' : j ≠ p.validatorList := by
      rintro rfl
      exact ho hlist
    rw [Ledger.set_other _ _ hj, writeValidatorList, Ledger.set_other _ _ hj'] at ho' ⊢
    exact hcalls.fresh j ho ho'

theorem InitializeRun.frames {fee withdrawalFee depositFee : Fee} {referralFee : UInt8}
    {maxValidators : UInt32} (r : InitializeRun rt sv accounts fee withdrawalFee depositFee
      referralFee maxValidators w w') : Frames (outsiders rt) w r.minted :=
  (Frames.of_onlyIf (fun _ => tokenMintTo_frames) r.mint_initial).mono
    (token_subset_outsiders r.isToken)

theorem InitializeRun.founded {fee withdrawalFee depositFee : Fee} {referralFee : UInt8}
    {maxValidators : UInt32} (laws : ProgramLaws rt) (r : InitializeRun rt sv accounts fee
      withdrawalFee depositFee referralFee maxValidators w w') :
    Founded rt w w' r.pool.key
      (newStakePool { r.old with tokenProgramId := r.tokenProgram.key, poolMint := r.mint.key }
        r.manager.key r.staker.key (initialDepositAuthorities rt accounts r.pool.key)
        (findWithdrawAuthorityProgramAddress rt r.pool.key).2 r.list.key r.reserve.key
        r.managerFee.key r.total sv.epoch fee withdrawalFee depositFee referralFee)
      { header := { accountType := .validatorList, maxValidators }, validators := [] } := by
  refine .of_writes (.of_frames laws r.frames) r.pool_owner r.list_owner r.list_ne r.result rfl rfl
    rfl (fun q => r.not_pool) (fun m => r.not_list) (fun m hm => ?_) (fun q hq => ?_)
  · have hdata := r.pool_data
    rw [Account.tryStakePool, hm.data] at hdata
    cases hdata
  · have hdata := r.list_data
    have hq' : (w r.list.key).data = .stakePool q := hq.data
    rw [Account.tryValidatorList, hq'] at hdata
    cases hdata

/-- Every handler but `Initialize` insists on a pool in first place. -/
theorem Handled.pool (laws : ProgramLaws rt) (h : Handled rt sv accounts w w') :
    (∃ fee withdrawalFee depositFee referralFee maxValidators, Nonempty (InitializeRun rt sv accounts
      fee withdrawalFee depositFee referralFee maxValidators w w')) ∨
      ∃ a p, accounts[0]? = some a ∧ PoolAt rt w a.key p := by
  cases h with
  | initializePool r => exact .inl ⟨_, _, _, _, _, ⟨r⟩⟩
  | createMetadata h => exact .inr (processCreatePoolTokenMetadata_spec h).1
  | updateMetadata h => exact .inr (processUpdatePoolTokenMetadata_spec h).1
  | depositWsol r =>
    obtain ⟨inner, hpool, -⟩ := r.inner
    have hp := inner.isPool
    rw [hpool] at hp
    exact .inr ⟨_, _, r.pool_at, (OwnFrame.of_frames laws r.frames).poolAt_before hp id⟩
  | withdrawWsol r =>
    obtain ⟨inner, hpool, -⟩ := r.inner
    have hp := inner.isPool
    rw [hpool] at hp
    exact .inr ⟨_, _, r.pool_at, (OwnFrame.of_frames laws r.create_frames).poolAt_before hp id⟩
  | addValidator r | removeValidator r | decrease r | increase r | setPreferred r | updateList r
  | updatePool r | cleanup r | depositStake r | depositSol r | withdrawStake r | withdrawSol r
  | setManager r | setFee r | setStaker r | setFunding r =>
    exact .inr ⟨_, _, r.pool_at, r.isPool⟩

theorem Handled.record (laws : ProgramLaws rt) (hreg : Registry rt w)
    (h : Handled rt sv accounts w w') : RecordEffect rt sv accounts w w' := by
  rcases h.pool laws with ⟨_, _, _, _, _, ⟨r⟩⟩ | ⟨a, p, ha, hp⟩
  · exact .founded r.pool_at (r.founded laws)
  · obtain ⟨l, hl⟩ := hreg.hasList hp
    obtain ⟨p', l', he⟩ := h.effect laws ha hp hl
    exact .booked ha hp hl he

/-- The registry survives whatever leaves the program's accounts alone. -/
theorem Registry.of_ownFrame (hreg : Registry rt w) (h : OwnFrame rt (fun _ => False) w w') :
    Registry rt w' := by
  refine ⟨fun hp => ?_, fun hp hq heq => ?_⟩
  · obtain ⟨l, hl⟩ := hreg.hasList (h.poolAt_before hp id)
    exact ⟨l, h.listAt hl id⟩
  · exact hreg.own (h.poolAt_before hp id) (h.poolAt_before hq id) heq

theorem Elsewhere.ownFrame {s s' : World} (h : Elsewhere rt s s') :
    OwnFrame rt (fun _ => False) s.ledger s'.ledger :=
  ⟨fun j ho _ => h.kept j ho, h.fresh⟩

theorem Founded.registry {k : Pubkey} {p : StakePool} {l : ValidatorList} (hreg : Registry rt w)
    (h : Founded rt w w' k p l) : Registry rt w' := by
  -- A pool afterwards is the new one or an old one, whose list is not the new list.
  have hold : ∀ {j q}, PoolAt rt w' j q → j ≠ k →
      PoolAt rt w j q ∧ q.validatorList ≠ p.validatorList ∧ q.validatorList ≠ k := by
    intro j q hq hj
    have hlist : j ≠ p.validatorList := hq.ne_list h.list
    have hq' := h.frame.poolAt_before hq (by simp [hj, hlist])
    obtain ⟨m, hm⟩ := hreg.hasList hq'
    refine ⟨hq', fun heq => h.newList m (heq ▸ hm), fun heq => h.notList m (heq ▸ hm)⟩
  refine ⟨fun {j q} hq => ?_, fun {i j q r} hq hr heq => ?_⟩
  · by_cases hj : j = k
    · subst hj
      obtain rfl := hq.unique h.pool
      exact ⟨l, h.list⟩
    · obtain ⟨hq', hne, hne'⟩ := hold hq hj
      obtain ⟨m, hm⟩ := hreg.hasList hq'
      exact ⟨m, h.frame.listAt hm (by simp [hne, hne'])⟩
  · by_cases hi : i = k <;> by_cases hj : j = k
    · rw [hi, hj]
    · subst hi
      obtain rfl := hq.unique h.pool
      exact absurd heq.symm (hold hr hj).2.1
    · subst hj
      obtain rfl := hr.unique h.pool
      exact absurd heq (hold hq hi).2.1
    · exact hreg.own (hold hq hi).1 (hold hr hj).1 heq

theorem BookEffect.registry {k : Pubkey} {p p' : StakePool} {l l' : ValidatorList}
    (hreg : Registry rt w) (hl : ListAt rt w p.validatorList l)
    (h : BookEffect rt sv accounts w w' k p l p' l') : Registry rt w' := by
  have hframe := OwnFrame.of_effect hl h
  have hsame := h.step.sameIdentity.validatorList
  have hold : ∀ {j q}, PoolAt rt w' j q → j ≠ k → PoolAt rt w j q := by
    intro j q hq hj
    exact hframe.poolAt_before hq (by simp [hj, hq.ne_list h.list])
  refine ⟨fun {j q} hq => ?_, fun {i j q r} hq hr heq => ?_⟩
  · by_cases hj : j = k
    · subst hj
      obtain rfl := hq.unique h.own.after
      exact ⟨l', hsame ▸ h.list⟩
    · obtain ⟨m, hm⟩ := hreg.hasList (hold hq hj)
      have hne : q.validatorList ≠ p.validatorList := fun heq =>
        hj (hreg.own (hold hq hj) h.own.before heq)
      have hne' : q.validatorList ≠ k := (h.own.before.ne_list hm).symm
      exact ⟨m, hframe.listAt hm (by simp [hne, hne'])⟩
  · by_cases hi : i = k <;> by_cases hj : j = k
    · rw [hi, hj]
    · subst hi
      obtain rfl := hq.unique h.own.after
      exact hreg.own h.own.before (hold hr hj) (hsame ▸ heq)
    · subst hj
      obtain rfl := hr.unique h.own.after
      exact hreg.own (hold hq hi) h.own.before (hsame ▸ heq)
    · exact hreg.own (hold hq hi) (hold hr hj) heq

theorem RecordEffect.registry (hreg : Registry rt w) (h : RecordEffect rt sv accounts w w') :
    Registry rt w' := by
  cases h with
  | founded _ hf => exact hf.registry hreg
  | booked _ _ hl he => exact he.registry hreg hl

/-- An instruction leaves the pools it does not name first as they were. -/
theorem RecordEffect.poolAt_before {a : AccountMeta} {k : Pubkey} {p : StakePool}
    (h : RecordEffect rt sv accounts w w') (ha : accounts[0]? = some a) (hk : k ≠ a.key)
    (hp : PoolAt rt w' k p) : PoolAt rt w k p := by
  cases h with
  | founded hat hf =>
    obtain rfl := Option.some.inj (ha.symm.trans hat)
    exact hf.frame.poolAt_before hp (by simp [hk, hp.ne_list hf.list])
  | booked hat _ hl he =>
    obtain rfl := Option.some.inj (ha.symm.trans hat)
    exact (OwnFrame.of_effect hl he).poolAt_before hp (by simp [hk, hp.ne_list he.list])

/-- The pools an instruction does not name first keep their records. -/
theorem RecordEffect.kept {k : Pubkey} {p : StakePool} {l : ValidatorList} (hreg : Registry rt w)
    (hp : PoolAt rt w k p) (hl : ListAt rt w p.validatorList l)
    (h : RecordEffect rt sv accounts w w') (hk : ∀ a, accounts[0]? = some a → k ≠ a.key) :
    PoolAt rt w' k p ∧ ListAt rt w' p.validatorList l := by
  cases h with
  | @founded a q m ha hf =>
    have hk' : k ≠ q.validatorList := by
      rintro rfl
      exact hf.notPool p hp
    have hlist : p.validatorList ≠ a.key := fun heq => hf.notList l (heq ▸ hl)
    have hlist' : p.validatorList ≠ q.validatorList := fun heq => hf.newList l (heq ▸ hl)
    exact ⟨hf.frame.poolAt hp (by simp [hk a ha, hk']),
      hf.frame.listAt hl (by simp [hlist, hlist'])⟩
  | @booked a q q' m m' ha hq hm he =>
    -- The pool at `k` is another one, so its list is another one too.
    have hlist : p.validatorList ≠ q.validatorList := fun heq => hk a ha (hreg.own hp hq heq)
    have hframe := OwnFrame.of_effect hm he
    exact ⟨hframe.poolAt hp (by simp [hk a ha, hp.ne_list hm]),
      hframe.listAt hl (by simp [hlist, (hq.ne_list hl).symm])⟩

theorem Moves.registry (laws : ProgramLaws rt) {s s' : World} (h : Moves rt s s')
    (hreg : Registry rt s.ledger) : Registry rt s'.ledger := by
  cases h with
  | call run _ => exact ((process_handled run).record laws hreg).registry hreg
  | elsewhere step => exact hreg.of_ownFrame step.ownFrame

theorem Untouched.registry {s : World} (h : Untouched rt s) : Registry rt s.ledger := by
  have hnone : ∀ {k p}, ¬ PoolAt rt s.ledger k p := by
    intro k p hp
    have hdata := h k hp.owner
    rw [hp.data] at hdata
    cases hdata
  exact ⟨fun hp => absurd hp hnone, fun hp => absurd hp hnone⟩

theorem Reachable.registry (laws : ProgramLaws rt) {s : World} (h : Reachable rt s) :
    Registry rt s.ledger := by
  obtain ⟨s₀, hinit, hrun⟩ := h
  induction hrun with
  | refl => exact hinit.registry
  | tail _ hstep ih => exact hstep.registry laws ih

/-! ## Room for the records -/

/-- Every pool's account has room for its record. -/
def Roomy (rt : Runtime) (w : Ledger) : Prop :=
  ∀ k p, PoolAt rt w k p → p.packedLen ≤ (w k).dataLen

/-- A pool that was not written still has room. -/
theorem OwnFrame.room {changed : Pubkey → Prop} {j : Pubkey} {p : StakePool}
    (h : OwnFrame rt changed w w') (hroom : Roomy rt w) (hp : PoolAt rt w' j p) (hj : ¬ changed j) :
    p.packedLen ≤ (w' j).dataLen := by
  have hbefore := h.poolAt_before hp hj
  rw [(h.kept j hbefore.owner hj).dataLen]
  exact hroom j p hbefore

theorem RecordEffect.roomy (hroom : Roomy rt w) (h : RecordEffect rt sv accounts w w') :
    Roomy rt w' := by
  intro k p hp
  cases h with
  | @founded a q l _ hf =>
    by_cases hk : k = a.key
    · subst hk
      obtain rfl := hp.unique hf.pool
      exact hf.room
    · exact hf.frame.room hroom hp (by simp [hk, hp.ne_list hf.list])
  | @booked a q q' l l' _ _ hl he =>
    by_cases hk : k = a.key
    · subst hk
      obtain rfl := hp.unique he.own.after
      exact he.own.room (hroom _ _ he.own.before)
    · exact (OwnFrame.of_effect hl he).room hroom hp (by simp [hk, hp.ne_list he.list])

theorem Moves.roomy (laws : ProgramLaws rt) {s s' : World} (h : Moves rt s s')
    (hreg : Registry rt s.ledger) (hroom : Roomy rt s.ledger) : Roomy rt s'.ledger := by
  cases h with
  | call run _ => exact ((process_handled run).record laws hreg).roomy hroom
  | elsewhere step => exact fun _ _ hp => step.ownFrame.room hroom hp id

/-- No pool ever outgrows its account. -/
theorem Reachable.roomy (laws : ProgramLaws rt) {s : World} (h : Reachable rt s) :
    Roomy rt s.ledger := by
  obtain ⟨s₀, hinit, hrun⟩ := h
  induction hrun with
  | refl =>
    intro k p hp
    have hdata := hinit k hp.owner
    rw [hp.data] at hdata
    cases hdata
  | tail hbefore hstep ih =>
    exact hstep.roomy laws (Reachable.registry laws ⟨s₀, hinit, hbefore⟩) ih

/-! ## Invariants of the records -/

/-- Where the records of a pool come from: `Initialize`, a step of the books, or the world before. -/
theorem Handled.origin (laws : ProgramLaws rt) (hreg : Registry rt w) {k : Pubkey} {p' : StakePool}
    {l' : ValidatorList} (h : Handled rt sv accounts w w') (hp' : PoolAt rt w' k p')
    (hl' : ListAt rt w' p'.validatorList l') :
    (∃ fee withdrawalFee depositFee referralFee maxValidators, ∃ r : InitializeRun rt sv accounts fee
      withdrawalFee depositFee referralFee maxValidators w w', r.pool.key = k ∧
        p' = newStakePool { r.old with tokenProgramId := r.tokenProgram.key, poolMint := r.mint.key }
          r.manager.key r.staker.key (initialDepositAuthorities rt accounts r.pool.key)
          (findWithdrawAuthorityProgramAddress rt r.pool.key).2 r.list.key r.reserve.key
          r.managerFee.key r.total sv.epoch fee withdrawalFee depositFee referralFee ∧
        l' = { header := { accountType := .validatorList, maxValidators }, validators := [] }) ∨
    ∃ p l, PoolAt rt w k p ∧ ListAt rt w p.validatorList l ∧ p.validatorList = p'.validatorList ∧
      (w' p.validatorList).dataLen = (w p.validatorList).dataLen ∧
      (p' = p ∧ l' = l ∨ BookStep rt sv (Signed accounts) k p l p' l') := by
  -- A pool and a list that the instruction does not write.
  have hkept : ∀ {changed : Pubkey → Prop}, OwnFrame rt changed w w' → ¬ changed k →
      (∀ q l, PoolAt rt w k q → ListAt rt w q.validatorList l → ¬ changed q.validatorList) →
      ∃ p l, PoolAt rt w k p ∧ ListAt rt w p.validatorList l ∧ p.validatorList = p'.validatorList ∧
        (w' p.validatorList).dataLen = (w p.validatorList).dataLen ∧
        (p' = p ∧ l' = l ∨ BookStep rt sv (Signed accounts) k p l p' l') := by
    intro changed hframe hk hlist
    have hp := hframe.poolAt_before hp' hk
    obtain ⟨l, hl⟩ := hreg.hasList hp
    have hsame := hlist p' l hp hl
    have hlen := (hframe.kept _ hl.owner hsame).dataLen
    exact ⟨p', l, hp, hl, rfl, hlen, .inl ⟨rfl, hl'.unique (hframe.listAt hl hsame)⟩⟩
  rcases h.pool laws with ⟨_, _, _, _, _, ⟨r⟩⟩ | ⟨a, q, ha, hq⟩
  · have hf := r.founded laws
    by_cases hk : k = r.pool.key
    · subst hk
      obtain rfl := hp'.unique hf.pool
      exact .inl ⟨_, _, _, _, _, r, rfl, rfl, hl'.unique hf.list⟩
    · refine .inr (hkept hf.frame (by simp [hk, hp'.ne_list hf.list]) fun q l hq hl => ?_)
      rw [not_or]
      exact ⟨fun heq => hf.notList l (heq ▸ hl), fun heq => hf.newList l (heq ▸ hl)⟩
  · obtain ⟨m, hm⟩ := hreg.hasList hq
    obtain ⟨q', m', he⟩ := h.effect laws ha hq hm
    by_cases hk : k = a.key
    · subst hk
      obtain rfl := hp'.unique he.own.after
      have hsame := he.step.sameIdentity.validatorList
      obtain rfl := hl'.unique (hsame ▸ he.list)
      exact .inr ⟨q, m, hq, hm, hsame.symm, he.listLen, .inr he.step⟩
    · refine .inr (hkept (OwnFrame.of_effect hm he) (by simp [hk, hp'.ne_list he.list])
        fun q₁ l₁ hq₁ hl₁ => ?_)
      rw [not_or]
      exact ⟨(hq.ne_list hl₁).symm, fun heq => hk (hreg.own hq₁ hq heq)⟩

/-- A property of a pool's records and of the size of its list account that `Initialize` establishes
and the steps of the books keep holds in every reachable world. -/
theorem Reachable.invariant (laws : ProgramLaws rt) {P : Nat → StakePool → ValidatorList → Prop}
    (founded : ∀ {sv : Sysvars} {accounts : List AccountMeta} {fee withdrawalFee depositFee : Fee}
      {referralFee : UInt8} {maxValidators : UInt32} {w w' : Ledger} (r : InitializeRun rt sv accounts
        fee withdrawalFee depositFee referralFee maxValidators w w'),
      P (w r.list.key).dataLen
        (newStakePool { r.old with tokenProgramId := r.tokenProgram.key, poolMint := r.mint.key }
          r.manager.key r.staker.key (initialDepositAuthorities rt accounts r.pool.key)
          (findWithdrawAuthorityProgramAddress rt r.pool.key).2 r.list.key r.reserve.key
          r.managerFee.key r.total sv.epoch fee withdrawalFee depositFee referralFee)
        { header := { accountType := .validatorList, maxValidators }, validators := [] })
    (step : ∀ {sv : Sysvars} {signed : Pubkey → Prop} {k : Pubkey} {n : Nat} {p p' : StakePool}
      {l l' : ValidatorList}, BookStep rt sv signed k p l p' l' → P n p l → P n p' l')
    {s : World} (hs : Reachable rt s) {k : Pubkey} {p : StakePool} {l : ValidatorList}
    (hp : PoolAt rt s.ledger k p) (hl : ListAt rt s.ledger p.validatorList l) :
    P (s.ledger p.validatorList).dataLen p l := by
  obtain ⟨s₀, hinit, hrun⟩ := hs
  -- The induction follows the run; the records at its end lead back to those before the last step.
  induction hrun generalizing p l with
  | refl =>
    have hdata := hinit k hp.owner
    rw [hp.data] at hdata
    cases hdata
  | @tail b c hbefore hmove ih =>
    have hreg : Registry rt b.ledger := Reachable.registry laws ⟨s₀, hinit, hbefore⟩
    cases hmove with
    | elsewhere hstep =>
      have hp' := hstep.ownFrame.poolAt_before hp id
      obtain ⟨l', hl'⟩ := hreg.hasList hp'
      obtain rfl := hl.unique (hstep.listAt hl')
      rw [(hstep.kept _ hl'.owner).dataLen]
      exact ih hp' hl'
    | call run _ =>
      rcases (process_handled run).origin laws hreg hp hl with
        ⟨_, _, _, _, _, r, rfl, rfl, rfl⟩ | ⟨q, m, hq, hm, hlist, hlen, heq | hstep⟩
      · -- The step created the pool.
        have hlen : (c.ledger r.list.key).dataLen = (b.ledger r.list.key).dataLen :=
          (writeStakePool_dataLen r.result _).trans ((writeValidatorList_dataLen _ _ _ _).trans
            ((OwnFrame.of_frames laws r.frames).kept _ r.list_owner id).dataLen)
        show P (c.ledger r.list.key).dataLen _ _
        rw [hlen]
        exact founded r
      · -- The step left its records alone.
        obtain ⟨rfl, rfl⟩ := heq
        rw [hlen]
        exact ih hq hm
      · -- The step was one of the pool.
        rw [← hlist, hlen]
        exact step hstep (ih hq hm)

/-! ## A pool on the reference chain -/

namespace Reference

def genesisWorld : World := ⟨sysvars 0, genesis 5000000000⟩

theorem genesis_untouched : Untouched runtime genesisWorld := genesis_zeroed _

def founded : World :=
  genesisWorld.execute runtime initializeAccounts (.initializePool default lowFee default 0 10)

/-- The vote account of the pool's first validator. -/
def vote : Pubkey := key 40
def validatorStake : Pubkey := (findStakeProgramAddress runtime vote pool 0).1

def addValidatorAccounts : List AccountMeta :=
  [writes pool, signs staker, writes reserve, reads withdrawAuthority, writes validatorList,
    writes validatorStake, reads vote, reads runtime.rentId, reads runtime.clockId,
    reads runtime.stakeHistoryId, reads runtime.stakeConfigId, reads systemProgramId,
    reads stakeProgramId]

/-- The pool with its first validator. -/
def staked : World := founded.execute runtime addValidatorAccounts (.addValidatorToPool 0)

theorem chain_succeeds :
    succeeded (processInstruction runtime genesisWorld.sysvars initializeAccounts
        (.initializePool default lowFee default 0 10) genesisWorld.ledger) = true ∧
      succeeded (processInstruction runtime founded.sysvars addValidatorAccounts (.addValidatorToPool 0)
        founded.ledger) = true := by
  decide +kernel

theorem founded_executes : Executes runtime initializeAccounts
    (.initializePool default lowFee default 0 10) genesisWorld founded := .of_succeeded chain_succeeds.1

theorem founded_decodes : StakePoolInstruction.tryFromSlice initializeInput =
    .ok (.initializePool default lowFee default 0 10) := rfl

theorem founded_process : process runtime genesisWorld.sysvars initializeAccounts initializeInput
    genesisWorld.ledger = .ok founded.ledger := founded_executes.process founded_decodes

/-- There is one pool. -/
theorem founded_pool {k : Pubkey} {p : StakePool} (hp : PoolAt runtime founded.ledger k p) :
    k = pool := by
  obtain ⟨r⟩ := processInitialize_run runtime _ founded_executes.run
  have hpool : writes pool = r.pool := Option.some.inj r.pool_at
  by_cases hk : k = r.pool.key
  · rw [hk, ← hpool]
    rfl
  · have hf := r.founded programLaws
    have hbefore := hf.frame.poolAt_before hp (by simp [hk, hp.ne_list hf.list])
    have hdata := genesis_untouched k hbefore.owner
    rw [hbefore.data] at hdata
    cases hdata

theorem founded_reachable : Reachable runtime founded :=
  ⟨genesisWorld, genesis_untouched,
    .single (.call founded_process founded_executes.sysvars)⟩

theorem staked_executes : Executes runtime addValidatorAccounts (.addValidatorToPool 0) founded
    staked := .of_succeeded chain_succeeds.2

theorem staked_decodes : StakePoolInstruction.tryFromSlice [1, 0, 0, 0, 0] = .ok (.addValidatorToPool 0) := rfl

theorem staked_reachable : Reachable runtime staked :=
  founded_reachable.executes staked_executes [1, 0, 0, 0, 0] staked_decodes

def transientStake : Pubkey := (findTransientStakeProgramAddress runtime vote pool 0).1

def updateListAccounts : List AccountMeta :=
  [reads pool, reads withdrawAuthority, writes validatorList, writes reserve, reads runtime.clockId,
    reads runtime.stakeHistoryId, reads stakeProgramId, writes validatorStake, writes transientStake]

/-- The pool with one validator after an update of its list. -/
def updated (noMerge : Bool) (s : World) : World :=
  s.execute runtime updateListAccounts (.updateValidatorListBalance 0 noMerge)

end Reference

end StakePoolFogo
