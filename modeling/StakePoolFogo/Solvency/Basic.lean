import StakePoolFogo.Preferred
import StakePoolFogo.Settlement

/-!
# Solvency

The stake accounts of a pool back its books: every entry of the validator list fits its two stake
accounts, the reserve is there and rent exempt, and reserve and recorded lamports together make up
`total_lamports`.  Every instruction on the pool keeps it so, whatever accounts it is given, as long
as nobody else signs for the pool's withdraw authority.
-/

open StakePoolFogo.Checked StakePoolFogo.Outcome

namespace StakePoolFogo

section Books

variable (rt : Runtime) (k : Pubkey)

def cellAt (w : Ledger) (v : ValidatorStakeInfo) : Cell := ⟨v, w (v.stakeKey rt k), w (v.transientKey rt k)⟩

def ValidatorStakeInfo.recorded (v : ValidatorStakeInfo) : Nat :=
  v.activeStakeLamports + v.transientStakeLamports

/-- The lamports the list has on record. -/
def ValidatorList.recorded (l : ValidatorList) : Nat :=
  (l.validators.map ValidatorStakeInfo.recorded).sum

/-- The reserve and the stake accounts of the entries are all different. -/
def Apart (reserve : Pubkey) (l : ValidatorList) : Prop :=
  (reserve :: (l.validators.map (·.stakeKey rt k) ++ l.validators.map (·.transientKey rt k))).Nodup

/-- The stake accounts of the pool at `k` back its books. -/
structure Solvent (keeper : Keeper) (steady : Prop) (w : Ledger) (p : StakePool) (l : ValidatorList) :
    Prop where
  reserve : ∃ info, HeldAs rt keeper (w p.reserveStake) (.initialized info) info ∧
    p.totalLamports + minimumReserveLamports info ≤ (w p.reserveStake).lamports + l.recorded
  entries : ∀ v ∈ l.validators, ∃ s, Sound rt keeper steady (cellAt rt k w v) s

end Books

variable {rt : Runtime} {sv : Sysvars} {k vote : Pubkey} {keeper : Keeper} {steady : Prop}
  {w w' mid : Ledger} {p p' : StakePool} {l : ValidatorList} {v v' u : ValidatorStakeInfo}

/-! ## Entries of a list -/

/-- Rewriting the entry of a vote replaces one element. -/
theorem ValidatorList.modify_eq_set (v' : ValidatorStakeInfo) (hfound : l.find vote = some v) :
    ∃ i, l.validators[i]? = some v ∧
      (l.modify vote fun _ => v').validators = l.validators.set i v' := by
  obtain ⟨header, vs⟩ := l
  have key : ∀ us : List ValidatorStakeInfo, us.find? (·.memcmpPubkey vote) = some v →
      ∃ i, us[i]? = some v ∧ modify.go vote (fun _ => v') us = us.set i v' := by
    intro us
    induction us with
    | nil => exact fun h => by cases h
    | cons u us ih =>
      intro hfind
      rw [List.find?_cons] at hfind
      cases hu : u.memcmpPubkey vote with
      | true =>
        rw [hu] at hfind
        obtain rfl := Option.some.inj hfind
        exact ⟨0, rfl, by rw [modify.go, if_pos hu]; rfl⟩
      | false =>
        rw [hu] at hfind
        obtain ⟨i, hi, hset⟩ := ih hfind
        exact ⟨i + 1, hi, by rw [modify.go, if_neg (by simp [hu]), hset]; rfl⟩
  exact key vs hfound

theorem ValidatorList.mem_modify (hfound : l.find vote = some v)
    (hu : u ∈ (l.modify vote fun _ => v').validators) : u ∈ l.validators ∨ u = v' := by
  obtain ⟨i, -, hset⟩ := modify_eq_set v' hfound
  rw [hset] at hu
  exact List.mem_or_eq_of_mem_set hu

theorem ValidatorList.mem_modify_self (hfound : l.find vote = some v) :
    v' ∈ (l.modify vote fun _ => v').validators := by
  obtain ⟨i, hi, hset⟩ := modify_eq_set v' hfound
  rw [hset]
  obtain ⟨hlt, -⟩ := List.getElem?_eq_some_iff.mp hi
  exact List.mem_set hlt v'

theorem ValidatorList.recorded_modify (v' : ValidatorStakeInfo) (hfound : l.find vote = some v) :
    (l.modify vote fun _ => v').recorded + v.recorded = l.recorded + v'.recorded := by
  obtain ⟨i, hi, hset⟩ := modify_eq_set v' hfound
  rw [recorded, hset]
  exact Cells.sum_set_add ValidatorStakeInfo.recorded v' hi

theorem ValidatorList.recorded_append :
    ({ l with validators := l.validators ++ [v] } : ValidatorList).recorded =
      l.recorded + v.recorded := by
  simp [recorded]

namespace Apart

variable {reserve : Pubkey}

theorem stake_ne_reserve (h : Apart rt k reserve l) (hv : v ∈ l.validators) :
    v.stakeKey rt k ≠ reserve := by
  rintro rfl
  exact (List.nodup_cons.mp h).1 (List.mem_append_left _ (List.mem_map_of_mem hv))

theorem transient_ne_reserve (h : Apart rt k reserve l) (hv : v ∈ l.validators) :
    v.transientKey rt k ≠ reserve := by
  rintro rfl
  exact (List.nodup_cons.mp h).1 (List.mem_append_right _ (List.mem_map_of_mem hv))

theorem stake_ne_transient (h : Apart rt k reserve l) (hv : v ∈ l.validators)
    (hu : u ∈ l.validators) : v.stakeKey rt k ≠ u.transientKey rt k := by
  have hdisjoint := (List.nodup_append.mp (List.nodup_cons.mp h).2).2.2
  exact hdisjoint _ (List.mem_map_of_mem hv) _ (List.mem_map_of_mem hu)

theorem stake_inj (h : Apart rt k reserve l) (hv : v ∈ l.validators) (hu : u ∈ l.validators)
    (heq : v.stakeKey rt k = u.stakeKey rt k) : v = u :=
  List.inj_on_of_nodup_map (List.nodup_append.mp (List.nodup_cons.mp h).2).1 hv hu heq

theorem transient_inj (h : Apart rt k reserve l) (hv : v ∈ l.validators) (hu : u ∈ l.validators)
    (heq : v.transientKey rt k = u.transientKey rt k) : v = u :=
  List.inj_on_of_nodup_map (List.nodup_append.mp (List.nodup_cons.mp h).2).2.1 hv hu heq

/-- The accounts of one entry are none of another's. -/
theorem not_mem (h : Apart rt k reserve l) (hv : v ∈ l.validators) (hu : u ∈ l.validators)
    (hne : u ≠ v) : u.stakeKey rt k ∉ [reserve, v.stakeKey rt k, v.transientKey rt k] ∧
      u.transientKey rt k ∉ [reserve, v.stakeKey rt k, v.transientKey rt k] := by
  simp only [List.mem_cons, List.not_mem_nil, or_false, not_or]
  exact ⟨⟨h.stake_ne_reserve hu, fun heq => hne (h.stake_inj hu hv heq), h.stake_ne_transient hu hv⟩,
    ⟨h.transient_ne_reserve hu, (h.stake_ne_transient hv hu).symm,
      fun heq => hne (h.transient_inj hu hv heq)⟩⟩

/-- The accounts of one entry and the reserve. -/
theorem entry (h : Apart rt k reserve l) (hv : v ∈ l.validators) :
    reserve ≠ v.stakeKey rt k ∧ reserve ≠ v.transientKey rt k ∧
      v.stakeKey rt k ≠ v.transientKey rt k :=
  ⟨(h.stake_ne_reserve hv).symm, (h.transient_ne_reserve hv).symm, h.stake_ne_transient hv hv⟩

theorem replaced (hfound : l.find vote = some v)
    (h : Apart rt k reserve (l.modify vote fun _ => v')) : reserve ≠ v'.stakeKey rt k ∧
      reserve ≠ v'.transientKey rt k ∧ v'.stakeKey rt k ≠ v'.transientKey rt k :=
  h.entry (ValidatorList.mem_modify_self hfound)

end Apart

/-! ## Steps that keep the books backed -/

/-- An account that a split of the reserve leaves behind. -/
theorem HeldAs.split_reserve (laws : StakeLaws rt) {authority : Pubkey} {lamports : Nat}
    {source destination source' destination' : Account} {info : StakeMeta}
    (hs : HeldAs rt keeper source (.initialized info) info)
    (h : rt.stake.split sv authority lamports source destination = .ok (source', destination'))
    (hne : source'.lamports ≠ 0) : HeldAs rt keeper source' (.initialized info) info := by
  obtain ⟨s', hs', hsame⟩ := laws.split_keeps h hs hne
  cases hsame
  exact hs'

theorem minimumReserveLamports_le (info : StakeMeta) :
    minimumReserveLamports info ≤ info.rentExemptReserve := by
  unfold minimumReserveLamports saturatingAdd minimumReserve
  omega

theorem minimumReserveLamports_pos {info : StakeMeta} (h : 0 < info.rentExemptReserve) :
    0 < minimumReserveLamports info := by
  have hmax : 0 < 2 ^ 64 - 1 := by decide
  exact Nat.lt_min.mpr ⟨h, hmax⟩

/-- An entry none of whose accounts are at `keys`. -/
theorem Sound.spared {keys : List Pubkey} {s : StakeStatus} (h : Sound rt keeper steady (cellAt rt k w v) s)
    (hspares : Spares rt keeper keys w w') (hstake : v.stakeKey rt k ∉ keys)
    (htransient : v.transientKey rt k ∉ keys) : Sound rt keeper steady (cellAt rt k w' v) s :=
  h.grows (fun hheld => (hspares _ hstake hheld).mono False.elim)
    (fun hheld => (hspares _ htransient hheld).mono False.elim)

theorem HeldAs.initialized_grows {a b : Account} {info : StakeMeta} {reset : Prop}
    (h : HeldAs rt keeper a (.initialized info) info) (hg : a.Grows reset b) :
    HeldAs rt keeper b (.initialized info) info := by
  obtain ⟨s', hdata, hsame | ⟨-, rfl⟩⟩ := hg.stake _ info h.data rfl
  · cases hsame
    exact h.of_meta hg.owner hdata rfl (Nat.le_trans h.exempt hg.lamports)
  · exact h.of_meta hg.owner hdata rfl (Nat.le_trans h.exempt hg.lamports)

theorem Solvent.reserve_held (h : Solvent rt k keeper steady w p l) :
    Held rt keeper (w p.reserveStake) := by
  obtain ⟨info, hheld, -⟩ := h.reserve
  exact ⟨_, info, hheld⟩

/-- Nothing but credit reaches the pool's accounts, and nothing more is promised. -/
theorem Solvent.keep (h : Solvent rt k keeper steady w p l) (hspares : Spares rt keeper [] w w')
    (hreserve : p'.reserveStake = p.reserveStake)
    (hbacked : p'.totalLamports + (w p.reserveStake).lamports ≤
      p.totalLamports + (w' p.reserveStake).lamports) :
    Solvent rt k keeper steady w' p' l := by
  refine ⟨?_, fun v hv => ?_⟩
  · obtain ⟨info, hheld, hle⟩ := h.reserve
    have hgrows := hspares p.reserveStake (by simp) ⟨_, info, hheld⟩
    rw [hreserve]
    exact ⟨info, hheld.initialized_grows hgrows, by omega⟩
  · obtain ⟨s, hs⟩ := h.entries v hv
    exact ⟨s, hs.spared hspares (by simp) (by simp)⟩

theorem Solvent.spared (h : Solvent rt k keeper steady w p l) (hspares : Spares rt keeper [] w w') :
    Solvent rt k keeper steady w' p l := by
  have hgrows := hspares p.reserveStake (by simp) h.reserve_held
  exact h.keep hspares rfl (Nat.add_le_add_left hgrows.lamports _)

/-- The reserve pays, and no more is promised than it is left with. -/
theorem Solvent.pay (h : Solvent rt k keeper steady w p l) (hapart : Apart rt k p.reserveStake l)
    (hspares : Spares rt keeper [p.reserveStake] w w') (hreserve : p'.reserveStake = p.reserveStake)
    (hheld : ∀ info, HeldAs rt keeper (w p.reserveStake) (.initialized info) info →
      HeldAs rt keeper (w' p.reserveStake) (.initialized info) info)
    (hbacked : p'.totalLamports + (w p.reserveStake).lamports ≤
      p.totalLamports + (w' p.reserveStake).lamports) :
    Solvent rt k keeper steady w' p' l := by
  refine ⟨?_, fun v hv => ?_⟩
  · obtain ⟨info, hbefore, hle⟩ := h.reserve
    rw [hreserve]
    exact ⟨info, hheld info hbefore, by omega⟩
  · obtain ⟨s, hs⟩ := h.entries v hv
    exact ⟨s, hs.spared hspares (by simpa using hapart.stake_ne_reserve hv)
      (by simpa using hapart.transient_ne_reserve hv)⟩

/-- One entry is rewritten; its accounts and the reserve have moved. -/
theorem Solvent.replace (h : Solvent rt k keeper steady w p l) (hfound : l.find vote = some v)
    (hapart : Apart rt k p.reserveStake (l.modify vote fun _ => v'))
    (hspares : Spares rt keeper [p.reserveStake, v'.stakeKey rt k, v'.transientKey rt k] w w')
    (hsound : ∃ s, Sound rt keeper steady (cellAt rt k w' v') s)
    (hreserve : p'.reserveStake = p.reserveStake)
    (hheld : ∀ info, HeldAs rt keeper (w p.reserveStake) (.initialized info) info →
      HeldAs rt keeper (w' p.reserveStake) (.initialized info) info)
    (hbacked : p'.totalLamports + (w p.reserveStake).lamports + v.recorded ≤
      p.totalLamports + (w' p.reserveStake).lamports + v'.recorded) :
    Solvent rt k keeper steady w' p' (l.modify vote fun _ => v') := by
  refine ⟨?_, fun u hu => ?_⟩
  · obtain ⟨info, hbefore, hle⟩ := h.reserve
    have hsum := ValidatorList.recorded_modify v' hfound
    rw [hreserve]
    exact ⟨info, hheld info hbefore, by omega⟩
  · by_cases heq : u = v'
    · rw [heq]
      exact hsound
    · have hbefore := (ValidatorList.mem_modify hfound hu).resolve_right heq
      obtain ⟨s, hs⟩ := h.entries u hbefore
      obtain ⟨hstake, htransient⟩ := hapart.not_mem (ValidatorList.mem_modify_self hfound) hu heq
      exact ⟨s, hs.spared hspares hstake htransient⟩

/-- A new entry is added, paid for by the reserve. -/
theorem Solvent.append (h : Solvent rt k keeper steady w p l) (hapart : Apart rt k p.reserveStake l)
    (hspares : Spares rt keeper [p.reserveStake] w w')
    (hsound : ∃ s, Sound rt keeper steady (cellAt rt k w' v) s)
    (hheld : ∀ info, HeldAs rt keeper (w p.reserveStake) (.initialized info) info →
      HeldAs rt keeper (w' p.reserveStake) (.initialized info) info)
    (hbacked : (w p.reserveStake).lamports ≤ (w' p.reserveStake).lamports + v.recorded) :
    Solvent rt k keeper steady w' p { l with validators := l.validators ++ [v] } := by
  refine ⟨?_, fun u hu => ?_⟩
  · obtain ⟨info, hbefore, hle⟩ := h.reserve
    rw [ValidatorList.recorded_append]
    exact ⟨info, hheld info hbefore, by omega⟩
  · rcases List.mem_append.mp hu with hu | hu
    · obtain ⟨s, hs⟩ := h.entries u hu
      exact ⟨s, hs.spared hspares (by simpa using hapart.stake_ne_reserve hu)
        (by simpa using hapart.transient_ne_reserve hu)⟩
    · rw [List.mem_singleton.mp hu]
      exact hsound

end StakePoolFogo
