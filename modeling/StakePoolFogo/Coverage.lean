import StakePoolFogo.Books
import StakePoolFogo.Lib.Chunks

/-!
# Which entries a crank refreshes

`UpdateValidatorListBalance` addresses entries by position and skips an entry that is paired with other
accounts than its own.  An entry is refreshed exactly when one of the cranks addresses it, and an update
of the pool finds no stale entry once every entry has been addressed.
-/

open StakePoolFogo.Checked StakePoolFogo.Chunks StakePoolFogo.Outcome

namespace StakePoolFogo

/-- A crank: the position of its first entry and the pairs of accounts from there on. -/
structure Crank where
  startIndex : Nat
  pairs : List (Pubkey × Pubkey)
deriving DecidableEq, Repr

/-- The pair for the entry at position `i`. -/
def Crank.pairAt (u : Crank) (i : Nat) : Option (Pubkey × Pubkey) :=
  if u.startIndex ≤ i then u.pairs[i - u.startIndex]? else none

/-- The crank has the accounts of `v` at position `i`. -/
def Crank.Addresses (rt : Runtime) (pool : Pubkey) (u : Crank) (i : Nat) (v : ValidatorStakeInfo) : Prop :=
  ∃ pair, u.pairAt i = some pair ∧ ownAccounts rt pool v pair.1 pair.2

/-- A crank with the accounts of a chunk addresses the entries of the chunk. -/
theorem Crank.addresses_of_chunk {rt : Runtime} {pool : Pubkey} {u : Crank} {size n : Nat}
    {chunk : List ValidatorStakeInfo} {v : ValidatorStakeInfo} (hstart : u.startIndex = n / size * size)
    (hpairs : u.pairs = chunk.map fun v => (v.stakeKey rt pool, v.transientKey rt pool))
    (hv : chunk[n % size]? = some v) : u.Addresses rt pool n v := by
  refine ⟨(v.stakeKey rt pool, v.transientKey rt pool), ?_, rfl, rfl⟩
  have hle : n / size * size ≤ n := Nat.div_mul_le_self n size
  have hoffset : n - n / size * size = n % size := by
    have := Nat.div_add_mod' n size
    omega
  rw [Crank.pairAt, hstart, if_pos hle, hoffset, hpairs, List.getElem?_map, hv]
  rfl

/-- Two entries with the same derived addresses. -/
structure ValidatorStakeInfo.SameSeeds (v v' : ValidatorStakeInfo) : Prop where
  vote : v'.voteAccountAddress = v.voteAccountAddress
  validator : v'.validatorSeedSuffix = v.validatorSeedSuffix
  transient : v'.transientSeedSuffix = v.transientSeedSuffix

namespace ValidatorStakeInfo.SameSeeds

variable {v v' v'' : ValidatorStakeInfo}

theorem refl (v : ValidatorStakeInfo) : v.SameSeeds v := ⟨rfl, rfl, rfl⟩

theorem trans (h : v.SameSeeds v') (h' : v'.SameSeeds v'') : v.SameSeeds v'' :=
  ⟨h'.vote.trans h.vote, h'.validator.trans h.validator, h'.transient.trans h.transient⟩

theorem ownAccounts_iff (h : v.SameSeeds v') {rt : Runtime} {pool validatorKey transientKey : Pubkey} :
    ownAccounts rt pool v' validatorKey transientKey ↔ ownAccounts rt pool v validatorKey transientKey := by
  rw [ownAccounts, ownAccounts, h.vote, h.validator, h.transient]

end ValidatorStakeInfo.SameSeeds

theorem ValidatorStakeInfo.SameSeeds.addresses_iff {v v' : ValidatorStakeInfo} (h : v.SameSeeds v')
    {rt : Runtime} {pool : Pubkey} {u : Crank} {i : Nat} :
    u.Addresses rt pool i v' ↔ u.Addresses rt pool i v := by
  simp only [Crank.Addresses, h.ownAccounts_iff]

/-- What a crank leaves of an entry: a visit this epoch if it was addressed, else no change. -/
structure CrankedEntry (epoch : Epoch) (addressed : Prop) (v v' : ValidatorStakeInfo) : Prop where
  seeds : v.SameSeeds v'
  visited : addressed → v'.lastUpdateEpoch = epoch
  skipped : ¬ addressed → v' = v

theorem EntryRefresh.sameSeeds {epoch : Epoch} {v v' : ValidatorStakeInfo} (h : EntryRefresh epoch v v') :
    v.SameSeeds v' := by
  rcases h with rfl | ⟨status, active, transient, -, rfl⟩
  · exact .refl _
  · exact ⟨rfl, rfl, rfl⟩

section

variable {rt : Runtime} {sv : Sysvars} {c : UpdateContext} {v v' : ValidatorStakeInfo} {w w' : Ledger}

theorem refreshEntry_crankedEntry {validatorKey transientKey : Pubkey}
    (h : refreshEntry rt sv c v validatorKey transientKey w = .ok (v', w')) :
    CrankedEntry sv.epoch (ownAccounts rt c.pool v validatorKey transientKey) v v' := by
  refine ⟨(refreshEntry_spec h).1.sameSeeds, fun hown => ?_, fun hother => ?_⟩
  · simp only [refreshEntry, if_pos hown, bind_eq_ok, pure_eq_ok, Prod.exists, Prod.mk.injEq] at h
    obtain ⟨_, _, _, -, _, _, _, -, rfl, -⟩ := h
    rfl
  · simp only [refreshEntry, if_neg hother, Except.ok.injEq, Prod.mk.injEq] at h
    exact h.1.symm

/-- The loop, position by position. -/
theorem refreshEntries_crankedEntry {vs vs' : List ValidatorStakeInfo} {pairs : List (Pubkey × Pubkey)}
    (h : refreshEntries rt sv c vs pairs w = .ok (vs', w')) {i : Nat} (hv : vs[i]? = some v) :
    ∃ v', vs'[i]? = some v' ∧ CrankedEntry sv.epoch
      (∃ pair, pairs[i]? = some pair ∧ ownAccounts rt c.pool v pair.1 pair.2) v v' := by
  induction vs generalizing pairs w vs' i with
  | nil => cases hv
  | cons x vs ih =>
    cases pairs with
    | nil =>
      -- The pairs are used up, so the rest of the list stays as it is.
      cases h
      refine ⟨v, hv, .refl v, ?_, fun _ => rfl⟩
      rintro ⟨pair, hpair, -⟩
      cases hpair
    | cons pair pairs =>
      simp only [refreshEntries, bind_eq_ok, pure_eq_ok, Prod.exists, Prod.mk.injEq] at h
      obtain ⟨x', w₁, hentry, vs'', w₂, hrest, rfl, rfl⟩ := h
      cases i with
      | zero =>
        cases hv
        obtain ⟨hseeds, hvisited, hskipped⟩ := refreshEntry_crankedEntry hentry
        refine ⟨x', rfl, hseeds, ?_, fun hnot => hskipped fun hown => hnot ⟨pair, rfl, hown⟩⟩
        rintro ⟨_, hpair, hown⟩
        cases hpair
        exact hvisited hown
      | succ i => exact ih hrest hv

/-- `UpdateValidatorListBalance`, position by position. -/
theorem UpdateListRun.crankedEntry {accounts : List AccountMeta} {startIndex : UInt32} {noMerge : Bool}
    (r : UpdateListRun rt sv accounts startIndex noMerge w w') {i : Nat}
    (hv : r.l.validators[i]? = some v) :
    ∃ v', (r.l.validators.take startIndex.toNat ++ r.refreshed)[i]? = some v' ∧ CrankedEntry sv.epoch
      (Crank.Addresses rt r.pool.key ⟨startIndex.toNat, stakePairs (accounts.drop 7)⟩ i v) v v' := by
  have hbound : startIndex.toNat ≤ r.l.validators.length := by
    have := r.bound
    omega
  have htake : (r.l.validators.take startIndex.toNat).length = startIndex.toNat := by
    rw [List.length_take, Nat.min_eq_left hbound]
  by_cases hi : startIndex.toNat ≤ i
  · -- A position of the slice.
    rw [List.getElem?_append_right (by rw [htake]; exact hi), htake]
    have hslice : (r.l.validators.drop startIndex.toNat)[i - startIndex.toNat]? = some v := by
      rw [List.getElem?_drop, Nat.add_sub_cancel' hi]
      exact hv
    obtain ⟨v', hv', hcranked⟩ := refreshEntries_crankedEntry r.refresh hslice
    refine ⟨v', hv', ?_⟩
    unfold Crank.Addresses Crank.pairAt
    rw [if_pos hi]
    exact hcranked
  · -- A position before it.
    refine ⟨v, ?_, .refl v, ?_, fun _ => rfl⟩
    · rw [List.getElem?_append_left (by omega), List.getElem?_take_of_lt (by omega)]
      exact hv
    · rintro ⟨pair, hpair, -⟩
      rw [Crank.pairAt, if_neg hi] at hpair
      cases hpair

end

/-! ## Runs of cranks -/

section

variable (rt : Runtime) (sv : Sysvars)

/-- Instructions one after another, all in one epoch. -/
def processAll (instructions : List (List AccountMeta × StakePoolInstruction)) (w : Ledger) :
    Except ProgramError Ledger :=
  instructions.foldlM (fun w i => processInstruction rt sv i.1 i.2 w) w

/-- The crank an instruction is; one that is none addresses no entry. -/
def crankOf : List AccountMeta × StakePoolInstruction → Crank
  | (accounts, .updateValidatorListBalance startIndex _) =>
    ⟨startIndex.toNat, stakePairs (accounts.drop 7)⟩
  | _ => ⟨0, []⟩

/-- A crank on the pool at `pool`. -/
inductive IsCrank (pool : Pubkey) : List AccountMeta × StakePoolInstruction → Prop where
  | intro (a : AccountMeta) (accounts : List AccountMeta) (startIndex : UInt32) (noMerge : Bool)
      (at_pool : accounts[0]? = some a) (key : a.key = pool) :
      IsCrank pool (accounts, .updateValidatorListBalance startIndex noMerge)

variable {rt sv} {pool : Pubkey} {p : StakePool} {l : ValidatorList} {w w' : Ledger}

/-- One crank on the records of its pool. -/
theorem IsCrank.step (laws : ProgramLaws rt) {i : List AccountMeta × StakePoolInstruction}
    (hcrank : IsCrank pool i) (hp : PoolAt rt w pool p) (hl : ListAt rt w p.validatorList l)
    (h : processInstruction rt sv i.1 i.2 w = .ok w') :
    PoolAt rt w' pool p ∧ ∃ l', ListAt rt w' p.validatorList l' ∧
      l'.validators.length = l.validators.length ∧
      ∀ (n : Nat) (v : ValidatorStakeInfo), l.validators[n]? = some v →
        ∃ v', l'.validators[n]? = some v' ∧
          CrankedEntry sv.epoch ((crankOf i).Addresses rt pool n v) v v' := by
  obtain ⟨a, accounts, startIndex, noMerge, hpool, rfl⟩ := hcrank
  obtain ⟨r⟩ := (processUpdateValidatorListBalance_run rt sv).mp h
  have heffect := UpdateListRun.effect laws hpool hp hl r
  obtain rfl := Option.some.inj (hpool.symm.trans r.pool_at)
  obtain rfl := hp.unique r.isPool
  obtain rfl := hl.unique (by rw [← r.list_key]; exact r.isList)
  refine ⟨heffect.own.after, _, heffect.list, ?_, fun n v hv => r.crankedEntry hv⟩
  have hlength := (refreshEntries_spec r.refresh).1.length_eq
  rw [List.length_drop] at hlength
  have hbound := r.bound
  rw [List.length_append, List.length_take, ← hlength]
  omega

/-- What a run of cranks leaves of an entry. -/
structure CrankedRun (epoch : Epoch) (addressed : Prop) (v v' : ValidatorStakeInfo) : Prop where
  seeds : v.SameSeeds v'
  visited : addressed → v'.lastUpdateEpoch = epoch
  kept : v' = v ∨ v'.lastUpdateEpoch = epoch

/-- Cranks in any order: an entry that one of them addresses ends up visited this epoch. -/
theorem processAll_cranked (laws : ProgramLaws rt)
    {instructions : List (List AccountMeta × StakePoolInstruction)}
    (hcranks : ∀ i ∈ instructions, IsCrank pool i) (hp : PoolAt rt w pool p)
    (hl : ListAt rt w p.validatorList l) (h : processAll rt sv instructions w = .ok w') :
    PoolAt rt w' pool p ∧ ∃ l', ListAt rt w' p.validatorList l' ∧
      l'.validators.length = l.validators.length ∧
      ∀ (n : Nat) (v : ValidatorStakeInfo), l.validators[n]? = some v →
        ∃ v', l'.validators[n]? = some v' ∧
          CrankedRun sv.epoch (∃ i ∈ instructions, (crankOf i).Addresses rt pool n v) v v' := by
  induction instructions generalizing w l with
  | nil =>
    cases h
    refine ⟨hp, l, hl, rfl, fun n v hv => ⟨v, hv, .refl v, ?_, .inl rfl⟩⟩
    rintro ⟨i, hi, -⟩
    cases hi
  | cons i instructions ih =>
    obtain ⟨w₁, hstep, hrest⟩ := bind_eq_ok.mp h
    obtain ⟨hp₁, l₁, hl₁, hlength₁, hentries₁⟩ :=
      (hcranks i List.mem_cons_self).step laws hp hl hstep
    obtain ⟨hp', l', hl', hlength', hentries'⟩ :=
      ih (fun j hj => hcranks j (List.mem_cons_of_mem _ hj)) hp₁ hl₁ hrest
    refine ⟨hp', l', hl', hlength'.trans hlength₁, fun n v hv => ?_⟩
    obtain ⟨v₁, hv₁, hcranked⟩ := hentries₁ n v hv
    obtain ⟨v', hv', hrun⟩ := hentries' n v₁ hv₁
    refine ⟨v', hv', hcranked.seeds.trans hrun.seeds, ?_, ?_⟩
    · -- The seeds have not changed, so the later cranks address the same entries as before.
      rintro ⟨t, ht, haddress⟩
      rcases List.mem_cons.mp ht with rfl | ht
      · rcases hrun.kept with rfl | hvisited
        · exact hcranked.visited haddress
        · exact hvisited
      · exact hrun.visited ⟨t, ht, hcranked.seeds.addresses_iff.mpr haddress⟩
    · rcases hrun.kept with rfl | hvisited
      · by_cases haddress : (crankOf i).Addresses rt pool n v
        · exact .inr (hcranked.visited haddress)
        · exact .inl (hcranked.skipped haddress)
      · exact .inr hvisited

end

/-- The accounts of a crank, two for each entry. -/
theorem stakePairs_flatMap {α : Type} (f g : α → Pubkey) (account : Pubkey → AccountMeta)
    (hkey : ∀ k, (account k).key = k) (xs : List α) :
    stakePairs ((xs.flatMap fun x => [f x, g x]).map account) = xs.map fun x => (f x, g x) := by
  induction xs with
  | nil => rfl
  | cons x xs ih =>
    rw [List.flatMap_cons, List.map_append]
    show ((account (f x)).key, (account (g x)).key) :: stakePairs _ = (f x, g x) :: xs.map _
    rw [hkey, hkey]
    exact congrArg ((f x, g x) :: ·) ih

/-! ## The update of the pool -/

/-- Cranks that address every stale entry leave none. -/
theorem processAll_fresh {rt : Runtime} {sv : Sysvars} {pool : Pubkey} {p : StakePool}
    {l : ValidatorList} {w w' : Ledger} (laws : ProgramLaws rt)
    {instructions : List (List AccountMeta × StakePoolInstruction)}
    (hcranks : ∀ i ∈ instructions, IsCrank pool i) (hp : PoolAt rt w pool p)
    (hl : ListAt rt w p.validatorList l) (h : processAll rt sv instructions w = .ok w')
    (hstale : ∀ n v, l.validators[n]? = some v → v.lastUpdateEpoch < sv.epoch →
      ∃ i ∈ instructions, (crankOf i).Addresses rt pool n v) :
    PoolAt rt w' pool p ∧ ∃ l', ListAt rt w' p.validatorList l' ∧
      ∀ v ∈ l'.validators, ¬ v.lastUpdateEpoch < sv.epoch := by
  obtain ⟨hp', l', hl', hlength, hentries⟩ := processAll_cranked laws hcranks hp hl h
  refine ⟨hp', l', hl', fun v' hv' => ?_⟩
  obtain ⟨n, hn⟩ := List.getElem?_of_mem hv'
  have hlt : n < l.validators.length := by
    rw [← hlength]
    exact (List.getElem?_eq_some_iff.mp hn).1
  obtain ⟨v₁, hv₁, hrun⟩ := hentries n _ (List.getElem?_eq_getElem hlt)
  obtain rfl := Option.some.inj (hn.symm.trans hv₁)
  rcases hrun.kept with hkept | hvisited
  · -- An entry that no crank rewrote was fresh before.
    intro hlate
    rw [hkept] at hlate
    have hvisited := hrun.visited (hstale n _ (List.getElem?_eq_getElem hlt) hlate)
    rw [hkept] at hvisited
    exact Nat.lt_irrefl _ (hvisited ▸ hlate)
  · rw [hvisited]
    exact Nat.lt_irrefl _

/-- A list without stale entries passes the check of `UpdateStakePoolBalance`. -/
theorem sumStakeLamports_not_outOfDate {epoch : Epoch} {vs : List ValidatorStakeInfo} (total : Nat)
    (h : ∀ v ∈ vs, ¬ v.lastUpdateEpoch < epoch) :
    sumStakeLamports epoch total vs ≠ .error (.custom .stakeListOutOfDate) := by
  induction vs generalizing total with
  | nil => exact fun hsum => by cases hsum
  | cons v vs ih =>
    intro hsum
    simp only [sumStakeLamports, ValidatorStakeInfo.stakeLamports, bind_eq_error, failIf_eq_error,
      failIf_eq_ok, exists_unit, raise_eq_error, okOr_eq_error] at hsum
    -- The errors of the additions are other ones.
    rcases hsum with ⟨hlate, -⟩ | ⟨-, ⟨_, ⟨-, rfl⟩, hcode⟩ | ⟨_, -, ⟨-, hcode⟩ | ⟨total', -, hrest⟩⟩⟩
    · exact h v List.mem_cons_self hlate
    · cases hcode
    · cases hcode
    · exact ih total' (fun x hx => h x (List.mem_cons_of_mem _ hx)) hrest

end StakePoolFogo
