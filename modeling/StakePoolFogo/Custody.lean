import StakePoolFogo.Visit

/-!
# Stake accounts in the pool's custody

`Held` says that an account is a rent exempt stake account of which the pool's withdraw authority is
the only authority.  `Sound` ties an entry of the validator list to its two stake accounts: the
recorded lamports are there, the accounts behind them are held, and they fit the status.
-/

open StakePoolFogo.Outcome

namespace StakePoolFogo

/-- The authority and the lockup that make a stake account the pool's. -/
structure Keeper where
  authority : Pubkey
  lockup : Lockup

def UpdateContext.keeper (c : UpdateContext) : Keeper := ⟨c.authority.key, c.stakePool.lockup⟩

/-- A rent exempt stake account with this state and meta, under the authority of the keeper alone. -/
structure HeldAs (rt : Runtime) (keeper : Keeper) (a : Account) (s : StakeStateV2) (info : StakeMeta) :
    Prop where
  owner : a.owner = rt.stakeProgramId
  data : a.data = .stake s
  info_eq : s.meta? = some info
  usable : stakeIsUsableByPool info keeper.authority keeper.lockup
  rent : 0 < info.rentExemptReserve
  exempt : info.rentExemptReserve ≤ a.lamports

def Held (rt : Runtime) (keeper : Keeper) (a : Account) : Prop :=
  ∃ s info, HeldAs rt keeper a s info

/-- The same stake later on: with the same meta and validator, perhaps deactivated in between, but
not delegated again. -/
inductive Persists : StakeStateV2 → StakeStateV2 → Prop where
  | initialized (info : StakeMeta) : Persists (.initialized info) (.initialized info)
  | stake (info : StakeMeta) {s t : Stake}
      (voter : t.delegation.voterPubkey = s.delegation.voterPubkey)
      (activation : t.delegation.activationEpoch = s.delegation.activationEpoch)
      (deactivation : t.delegation.deactivationEpoch = s.delegation.deactivationEpoch ∨
        t.delegation.deactivationEpoch ≠ epochMax) : Persists (.stake info s) (.stake info t)

/-- The account keeps its owner, stake and meta and loses no lamports.  With `reset`, its stake may
have been undone. -/
structure Account.Grows (reset : Prop) (a b : Account) : Prop where
  owner : b.owner = a.owner
  lamports : a.lamports ≤ b.lamports
  stake : ∀ s info, a.data = .stake s → s.meta? = some info →
    ∃ s', b.data = .stake s' ∧ (Persists s s' ∨ reset ∧ s' = .initialized info)

variable {rt : Runtime} {sv : Sysvars} {keeper : Keeper} {a b : Account}

theorem SameStake.meta_eq {s s' : StakeStateV2} (h : SameStake s s') : s'.meta? = s.meta? := by
  cases h <;> rfl

theorem SameStake.persists {s s' : StakeStateV2} (h : SameStake s s') : Persists s s' := by
  cases h with
  | initialized info => exact .initialized info
  | stake info voter activation deactivation => exact .stake info voter activation (.inl deactivation)

namespace Persists

variable {s s' s'' : StakeStateV2} {info : StakeMeta}

theorem meta_eq (h : Persists s s') : s'.meta? = s.meta? := by
  cases h <;> rfl

theorem refl (h : s.meta? = some info) : Persists s s := by
  cases s with
  | initialized info => exact .initialized info
  | stake info stake => exact .stake info rfl rfl (.inl rfl)
  | _ => cases h

theorem trans (h : Persists s s') (h' : Persists s' s'') : Persists s s'' := by
  cases h with
  | initialized info => exact h'
  | stake info voter activation deactivation =>
    cases h' with
    | stake _ voter' activation' deactivation' =>
      refine .stake info (voter'.trans voter) (activation'.trans activation) ?_
      rcases deactivation' with heq | hne
      · rwa [heq]
      · exact .inr hne

end Persists

namespace Account.Grows

theorem of_onlyCredited {reset : Prop} (h : a.OnlyCredited b) : a.Grows reset b :=
  ⟨h.owner, h.lamports, fun s _ hdata hinfo => ⟨s, h.data.trans hdata, .inl (.refl hinfo)⟩⟩

theorem refl (reset : Prop) (a : Account) : a.Grows reset a := of_onlyCredited (.refl a)

theorem mono {reset reset' : Prop} (h : a.Grows reset b) (hreset : reset → reset') :
    a.Grows reset' b := by
  refine ⟨h.owner, h.lamports, fun s info hdata hinfo => ?_⟩
  obtain ⟨s', hdata', hsame | ⟨hr, hinit⟩⟩ := h.stake s info hdata hinfo
  · exact ⟨s', hdata', .inl hsame⟩
  · exact ⟨s', hdata', .inr ⟨hreset hr, hinit⟩⟩

theorem trans {reset : Prop} {c : Account} (h : a.Grows reset b) (h' : b.Grows reset c) :
    a.Grows reset c := by
  refine ⟨h'.owner.trans h.owner, Nat.le_trans h.lamports h'.lamports, fun s info hdata hinfo => ?_⟩
  obtain ⟨s', hdata', hsame | ⟨hr, rfl⟩⟩ := h.stake s info hdata hinfo
  · obtain ⟨s'', hdata'', hsame' | ⟨hr, hinit⟩⟩ := h'.stake s' info hdata' (hsame.meta_eq.trans hinfo)
    · exact ⟨s'', hdata'', .inl (hsame.trans hsame')⟩
    · exact ⟨s'', hdata'', .inr ⟨hr, hinit⟩⟩
  · obtain ⟨s'', hdata'', hsame' | ⟨-, hinit⟩⟩ := h'.stake _ info hdata' rfl
    · cases hsame'
      exact ⟨_, hdata'', .inr ⟨hr, rfl⟩⟩
    · exact ⟨s'', hdata'', .inr ⟨hr, hinit⟩⟩

end Account.Grows

namespace HeldAs

variable {s s' : StakeStateV2} {info : StakeMeta}

/-- The same meta on a rent exempt account of the same owner. -/
theorem of_meta (h : HeldAs rt keeper a s info) (howner : b.owner = a.owner)
    (hdata : b.data = .stake s') (hinfo : s'.meta? = s.meta?)
    (hexempt : info.rentExemptReserve ≤ b.lamports) : HeldAs rt keeper b s' info :=
  ⟨howner.trans h.owner, hdata, hinfo.trans h.info_eq, h.usable, h.rent, hexempt⟩

/-- An account that is only credited holds the same stake. -/
theorem credited (h : HeldAs rt keeper a s info) (hc : a.OnlyCredited b) : HeldAs rt keeper b s info :=
  h.of_meta hc.owner (hc.data.trans h.data) rfl (Nat.le_trans h.exempt hc.lamports)

theorem tryStakeState (h : HeldAs rt keeper a s info) : a.tryStakeState = .ok s := by
  rw [Account.tryStakeState, h.data]

theorem pos (h : HeldAs rt keeper a s info) : 0 < a.lamports := Nat.lt_of_lt_of_le h.rent h.exempt

theorem unique {t : StakeStateV2} {info' : StakeMeta} (h : HeldAs rt keeper a s info)
    (hdata : a.data = .stake t) (hinfo : t.meta? = some info') : t = s ∧ info' = info := by
  cases h.data.symm.trans hdata
  exact ⟨rfl, Option.some.inj (hinfo.symm.trans h.info_eq)⟩

end HeldAs

namespace Held

theorem pos (h : Held rt keeper a) : 0 < a.lamports := by
  obtain ⟨_, _, h⟩ := h
  exact h.pos

theorem owner (h : Held rt keeper a) : a.owner = rt.stakeProgramId := by
  obtain ⟨_, _, h⟩ := h
  exact h.owner

theorem grows {reset : Prop} (h : Held rt keeper a) (hg : a.Grows reset b) : Held rt keeper b := by
  obtain ⟨s, info, h⟩ := h
  obtain ⟨s', hdata, hsame | ⟨-, rfl⟩⟩ := hg.stake s info h.data h.info_eq
  · exact ⟨s', info, h.of_meta hg.owner hdata hsame.meta_eq (Nat.le_trans h.exempt hg.lamports)⟩
  · exact ⟨_, info, h.of_meta hg.owner hdata h.info_eq.symm (Nat.le_trans h.exempt hg.lamports)⟩

theorem credited (h : Held rt keeper a) (hc : a.OnlyCredited b) : Held rt keeper b := by
  obtain ⟨s, info, h⟩ := h
  exact ⟨s, info, h.credited hc⟩

/-- The update loop can use what is held. -/
theorem usable {c : UpdateContext} (h : Held rt c.keeper a) : c.Usable a := by
  obtain ⟨s, info, h⟩ := h
  refine ⟨s, info, ?_, h.info_eq, h.usable⟩
  rw [Account.tryStakeState, h.data]
  rfl

end Held

theorem StakeLaws.merge_grows (laws : StakeLaws rt) {authority : Pubkey}
    {destination source destination' source' : Account}
    (h : rt.stake.merge sv authority destination source = .ok (destination', source')) :
    destination.Grows False destination' := by
  obtain ⟨d, s, d', hd, -, -, -, -, hd', hsame, -, hlamports, hshape, -⟩ := laws.merge _ _ _ _ _ _ h
  refine ⟨hshape.1, by omega, fun t info ht _ => ?_⟩
  cases hd.symm.trans ht
  exact ⟨d', hd', .inl hsame.persists⟩

/-- What is deactivated stays held. -/
theorem StakeLaws.deactivate_held (laws : StakeLaws rt) {authority : Pubkey}
    (h : rt.stake.deactivate sv authority a = .ok b) (ha : Held rt keeper a) : Held rt keeper b := by
  obtain ⟨s, info, ha⟩ := ha
  obtain ⟨info', stake, stake', hdata, -, hlamports, hshape, hdata', -⟩ := laws.deactivate _ _ _ _ h
  obtain ⟨rfl, rfl⟩ := ha.unique hdata rfl
  exact ⟨_, info', ha.of_meta hshape.1 hdata' rfl (by rw [hlamports]; exact ha.exempt)⟩

/-- What is delegated stays held. -/
theorem StakeLaws.delegate_held (laws : StakeLaws rt) {authority vote : Pubkey}
    (h : rt.stake.delegate sv authority vote a = .ok b) (ha : Held rt keeper a) :
    Held rt keeper b := by
  obtain ⟨s, info, ha⟩ := ha
  obtain ⟨s', info', stake', hdata, hinfo, -, hlamports, hshape, hdata', -⟩ :=
    laws.delegate _ _ _ _ _ h
  obtain ⟨rfl, rfl⟩ := ha.unique hdata hinfo
  exact ⟨_, info', ha.of_meta hshape.1 hdata' hinfo.symm (by rw [hlamports]; exact ha.exempt)⟩

/-- Splitting off a held account: the new account is held, and what is left over is too. -/
theorem StakeLaws.split_held (laws : StakeLaws rt) {authority : Pubkey} {lamports : Nat}
    {source destination source' destination' : Account}
    (h : rt.stake.split sv authority lamports source destination = .ok (source', destination'))
    (hs : Held rt keeper source) :
    Held rt keeper destination' ∧ (source'.lamports ≠ 0 → Held rt keeper source') := by
  obtain ⟨s, info, hs⟩ := hs
  obtain ⟨s₁, sm, d', dm, hdata, hmeta, -, -, howner, -, -, -, hshape, hshape', hd', hdm, hauth, hlock,
    hpos, hexempt, -, -, -, hrest⟩ := laws.split _ _ _ _ _ _ _ h
  obtain ⟨rfl, rfl⟩ := hs.unique hdata hmeta
  obtain ⟨hstaker, hwithdrawer, hlockup⟩ := hs.usable
  refine ⟨⟨d', dm, hshape'.1.trans howner, hd', hdm, ⟨?_, ?_, ?_⟩, hpos, hexempt⟩, fun hne => ?_⟩
  · rw [hauth, hstaker]
  · rw [hauth, hwithdrawer]
  · rw [hlock, hlockup]
  · obtain ⟨hrent, s', hs', hsame⟩ := hrest hne
    exact ⟨s', _, hs.of_meta hshape.1 hs' hsame.meta_eq hrent⟩

theorem StakeLaws.split_lamports (laws : StakeLaws rt) {authority : Pubkey} {lamports : Nat}
    {source destination source' destination' : Account}
    (h : rt.stake.split sv authority lamports source destination = .ok (source', destination')) :
    source'.lamports + lamports = source.lamports ∧
      destination'.lamports = destination.lamports + lamports := by
  obtain ⟨_, _, _, _, -, -, -, -, -, -, hsource, hdestination, -⟩ := laws.split _ _ _ _ _ _ _ h
  exact ⟨hsource, hdestination⟩

/-- Splitting off a held account that is not emptied keeps its stake. -/
theorem StakeLaws.split_keeps (laws : StakeLaws rt) {authority : Pubkey} {lamports : Nat}
    {source destination source' destination' : Account} {s : StakeStateV2} {info : StakeMeta}
    (h : rt.stake.split sv authority lamports source destination = .ok (source', destination'))
    (hs : HeldAs rt keeper source s info) (hne : source'.lamports ≠ 0) :
    ∃ s', HeldAs rt keeper source' s' info ∧ SameStake s s' := by
  obtain ⟨s₁, sm, _, _, hdata, hmeta, -, -, -, -, -, -, hshape, -, -, -, -, -, -, -, -, -, -, hrest⟩ :=
    laws.split _ _ _ _ _ _ _ h
  obtain ⟨rfl, rfl⟩ := hs.unique hdata hmeta
  obtain ⟨hrent, s', hs', hsame⟩ := hrest hne
  exact ⟨s', hs.of_meta hshape.1 hs' hsame.meta_eq hrent, hsame⟩

theorem StakeLaws.delegate_lamports (laws : StakeLaws rt) {authority vote : Pubkey}
    (h : rt.stake.delegate sv authority vote a = .ok b) :
    b.lamports = a.lamports ∧ ∃ info stake, b.data = .stake (.stake info stake) := by
  obtain ⟨_, info, stake, -, -, -, hlamports, -, hdata, -⟩ := laws.delegate _ _ _ _ _ h
  exact ⟨hlamports, info, stake, hdata⟩

/-- Withdrawing from a held account leaves it held unless it is emptied. -/
theorem StakeLaws.withdraw_held (laws : StakeLaws rt) {authority : Pubkey} {lamports : Nat}
    {source destination source' destination' : Account}
    (h : rt.stake.withdraw sv authority lamports source destination = .ok (source', destination'))
    (hs : Held rt keeper source) :
    (source'.lamports ≠ 0 → Held rt keeper source' ∧ source'.data = source.data) ∧
      source'.lamports + lamports = source.lamports ∧ destination' = destination.credited lamports := by
  obtain ⟨s, info, hs⟩ := hs
  obtain ⟨-, -, hsum, hshape, hdest, -, hrest⟩ :=
    laws.withdraw _ _ _ _ _ _ _ _ _ h hs.data hs.info_eq
  refine ⟨fun hne => ?_, hsum, hdest⟩
  obtain ⟨hrent, hdata⟩ := hrest hne
  exact ⟨⟨s, info, hs.of_meta hshape.1 (hdata.trans hs.data) rfl hrent⟩, hdata⟩

/-! ## What calls do to held accounts -/

/-- The accounts the keeper holds, except those at `keys`, only grow. -/
def Spares (rt : Runtime) (keeper : Keeper) (keys : List Pubkey) (w w' : Ledger) : Prop :=
  ∀ k, k ∉ keys → Held rt keeper (w k) → (w k).Grows False (w' k)

namespace Spares

variable {keys more : List Pubkey} {w w' w'' : Ledger} {k : Pubkey}

theorem refl (w : Ledger) : Spares rt keeper keys w w := fun k _ _ => .refl False (w k)

theorem mono (h : Spares rt keeper keys w w') (hsub : keys ⊆ more) : Spares rt keeper more w w' :=
  fun k hk => h k fun hin => hk (hsub hin)

theorem trans (h : Spares rt keeper keys w w') (h' : Spares rt keeper keys w' w'') :
    Spares rt keeper keys w w'' := by
  intro k hk hheld
  have hgrows := h k hk hheld
  exact hgrows.trans (h' k hk (hheld.grows hgrows))

/-- An account that is not held needs no sparing. -/
theorem drop (h : Spares rt keeper (k :: keys) w w') (hk : ¬ Held rt keeper (w k)) :
    Spares rt keeper keys w w' := by
  intro j hj hheld
  refine h j (fun hin => ?_) hheld
  rcases List.mem_cons.mp hin with rfl | hin
  · exact hk hheld
  · exact hj hin

theorem of_onlyAt (h : OnlyAt keys w w') : Spares rt keeper keys w w' := by
  intro k hk _
  rw [h k hk]
  exact .refl False (w k)

/-- Programs other than the stake program can only credit what is held. -/
theorem of_frames {callees : List Pubkey} (h : Frames callees w w')
    (hstake : rt.stakeProgramId ∉ callees) : Spares rt keeper keys w w' := by
  intro k _ hheld
  refine .of_onlyCredited (h.others k ?_)
  rwa [hheld.owner]

theorem of_onlyIf {c : Prop} [Decidable c] {f : Ledger → Except ProgramError Ledger}
    (hf : ∀ u, f w = .ok u → Spares rt keeper keys w u) (h : onlyIf c f w = .ok w') :
    Spares rt keeper keys w w' := onlyIf_rel (fun w => refl w) hf h

end Spares

/-- The accounts the keeper holds are at most credited. -/
def OnlyCredits (rt : Runtime) (keeper : Keeper) (w w' : Ledger) : Prop :=
  ∀ k, Held rt keeper (w k) → (w k).OnlyCredited (w' k)

namespace OnlyCredits

variable {keys : List Pubkey} {w w' w'' : Ledger}

theorem refl (w : Ledger) : OnlyCredits rt keeper w w := fun k _ => .refl (w k)

theorem trans (h : OnlyCredits rt keeper w w') (h' : OnlyCredits rt keeper w' w'') :
    OnlyCredits rt keeper w w'' := by
  intro k hheld
  have hcredited := h k hheld
  exact hcredited.trans (h' k (hheld.credited hcredited))

/-- Writing to accounts that are not held. -/
theorem of_onlyAt (h : OnlyAt keys w w') (hkeys : ∀ k ∈ keys, ¬ Held rt keeper (w k)) :
    OnlyCredits rt keeper w w' := by
  intro k hheld
  have hk : k ∉ keys := fun hin => hkeys k hin hheld
  rw [h k hk]
  exact .refl (w k)

theorem of_onlyAt_one {k : Pubkey} (h : OnlyAt [k] w w') (hk : ¬ Held rt keeper (w k)) :
    OnlyCredits rt keeper w w' := of_onlyAt h (by simpa using hk)

/-- Programs other than the stake program can only credit what is held. -/
theorem of_frames {callees : List Pubkey} (h : Frames callees w w')
    (hstake : rt.stakeProgramId ∉ callees) : OnlyCredits rt keeper w w' :=
  fun k hheld => h.others k (by rwa [hheld.owner])

theorem of_onlyIf {c : Prop} [Decidable c] {f : Ledger → Except ProgramError Ledger}
    (hf : ∀ u, f w = .ok u → OnlyCredits rt keeper w u) (h : onlyIf c f w = .ok w') :
    OnlyCredits rt keeper w w' := onlyIf_rel refl hf h

theorem spares (h : OnlyCredits rt keeper w w') : Spares rt keeper keys w w' :=
  fun k _ hheld => .of_onlyCredited (h k hheld)

end OnlyCredits

theorem Held.of_frames {callees : List Pubkey} {w w' : Ledger} {k : Pubkey}
    (h : Held rt keeper (w k)) (hf : Frames callees w w') (hstake : rt.stakeProgramId ∉ callees) :
    (w k).OnlyCredited (w' k) := hf.others k (by rwa [h.owner])

/-- Accounts of the program are not held. -/
theorem not_held_of_owner (h : a.owner ≠ rt.stakeProgramId) : ¬ Held rt keeper a :=
  fun hheld => h hheld.owner

/-- An uninitialized account is not held. -/
theorem not_held_of_uninitialized (h : a.stakeState? = some .uninitialized) : ¬ Held rt keeper a := by
  rintro ⟨s, info, hheld⟩
  have hs : a.stakeState? = some s := by
    rw [Account.stakeState?, Account.tryStakeState, hheld.data]
    rfl
  have hinfo := hheld.info_eq
  rw [← Option.some.inj (h.symm.trans hs)] at hinfo
  cases hinfo

section Calls

variable {w w' : Ledger} {pool source destination stake clock history : Pubkey}
  {authority : AccountMeta} {bump : UInt8} {lamports : Nat}

theorem stakeMerge_spares (laws : StakeLaws rt)
    (h : stakeMerge rt sv pool source authority bump destination clock history w = .ok w') :
    Spares rt keeper [source] w w' := by
  obtain ⟨-, honly, hmerge⟩ := stakeMerge_spec h
  intro k hk _
  by_cases hdest : k = destination
  · rw [hdest]
    exact laws.merge_grows hmerge
  · rw [honly k (by simpa [hdest] using hk)]
    exact .refl False (w k)

theorem stakeSplit_spares (laws : StakeLaws rt)
    (h : stakeSplit rt sv pool source authority bump lamports destination w = .ok w') :
    Spares rt keeper [source] w w' := by
  obtain ⟨-, honly, hsplit⟩ := stakeSplit_spec h
  obtain ⟨_, _, _, _, -, -, -, -, -, huninitialized, -⟩ := laws.split _ _ _ _ _ _ _ hsplit
  have hspares : Spares rt keeper [destination, source] w w' := (Spares.of_onlyAt honly).mono (by simp)
  exact hspares.drop (not_held_of_uninitialized huninitialized)

/-- Withdrawing from a held account credits the destination. -/
theorem stakeWithdraw_spares (laws : StakeLaws rt)
    (h : stakeWithdraw rt sv pool source authority bump destination clock history lamports w = .ok w')
    (hsource : Held rt keeper (w source)) : Spares rt keeper [source] w w' := by
  by_cases hne : source = destination
  · subst hne
    rw [(stakeWithdraw_self h).1]
    exact .refl _
  obtain ⟨honly, hwithdraw⟩ := stakeWithdraw_spec h hne
  obtain ⟨-, -, hdestination⟩ := laws.withdraw_held hwithdraw hsource
  intro k hk _
  by_cases hdest : k = destination
  · rw [hdest, hdestination]
    exact .of_onlyCredited ⟨rfl, rfl, rfl, Nat.le_add_right _ _⟩
  · rw [honly k (by simpa [hdest] using hk)]
    exact .refl False (w k)

theorem createStakeAccount_credits (laws : ProgramLaws rt) (system : SystemLaws rt) {info : AccountMeta}
    {seeds : List (List UInt8)} {space : Nat}
    (h : createStakeAccount rt info seeds space w = .ok w') : OnlyCredits rt keeper w w' := by
  obtain ⟨honly, howner, -⟩ := createStakeAccount_spec system h
  refine .of_onlyAt_one honly (not_held_of_owner ?_)
  rw [howner]
  exact laws.stake_ne_system.symm

theorem writeValidatorList_credits (laws : ProgramLaws rt) {k : Pubkey} {l : ValidatorList}
    (howner : (w k).owner = rt.programId) (h : w' = writeValidatorList w k l) :
    OnlyCredits rt keeper w w' := by
  subst h
  refine .of_onlyAt_one (OnlyAt.set _ _ _) (not_held_of_owner ?_)
  rw [howner]
  exact laws.stake_ne.symm

theorem writeValidatorList_owner (w : Ledger) (k : Pubkey) (l : ValidatorList) (j : Pubkey) :
    (writeValidatorList w k l j).owner = (w j).owner := by
  unfold writeValidatorList Ledger.set
  split
  · rename_i heq
    rw [heq]
  · rfl

theorem writeStakePool_owner {k : Pubkey} {p : StakePool} (h : writeStakePool w k p = .ok w')
    (j : Pubkey) : (w' j).owner = (w j).owner := by
  obtain ⟨-, rfl⟩ := writeStakePool_eq_ok.mp h
  unfold Ledger.set
  split
  · rename_i heq
    rw [heq]
  · rfl

theorem writeStakePool_credits (laws : ProgramLaws rt) {k : Pubkey} {p : StakePool}
    (howner : (w k).owner = rt.programId) (h : writeStakePool w k p = .ok w') :
    OnlyCredits rt keeper w w' := by
  refine .of_onlyAt_one (OnlyAt.of_writeStakePool h) (not_held_of_owner ?_)
  rw [howner]
  exact laws.stake_ne.symm

end Calls

/-! ## Entries and their accounts -/

namespace StakeStatus

/-- The records an entry of this status may have. -/
def Agrees (s : StakeStatus) (active transient : Nat) : Prop :=
  match s with
  | .active => True
  | .deactivatingValidator => transient = 0
  | .deactivatingTransient => active = 0 ∧ 0 < transient
  | .deactivatingAll => 0 < transient
  | .readyForRemoval => active = 0 ∧ transient = 0

/-- Does an entry of this status still have its validator stake? -/
def HasValidator (s : StakeStatus) : Prop :=
  s = .active ∨ s = .deactivatingValidator ∨ s = .deactivatingAll

instance (s : StakeStatus) : Decidable s.HasValidator := inferInstanceAs (Decidable (_ ∨ _))

end StakeStatus

/-- An entry of status `s` fits its stake accounts.  In a `steady` world nobody undoes stakes from
outside: an active validator stake is delegated, and what a leaving validator has in transit has been
deactivated. -/
structure Sound (rt : Runtime) (keeper : Keeper) (steady : Prop) (x : Cell) (s : StakeStatus) :
    Prop where
  status : x.entry.status = s.toPod
  agrees : s.Agrees x.entry.activeStakeLamports x.entry.transientStakeLamports
  validator : s.HasValidator → Held rt keeper x.validator
  active_le : x.entry.activeStakeLamports ≤ x.validator.lamports
  transient : 0 < x.entry.transientStakeLamports → Held rt keeper x.transient
  transient_le : x.entry.transientStakeLamports ≤ x.transient.lamports
  delegated : steady → s = .active → ∃ info stake, x.validator.data = .stake (.stake info stake)
  stopped : steady → s ≠ .active → 0 < x.entry.transientStakeLamports →
    ∀ info stake, x.transient.data = .stake (.stake info stake) →
      stake.delegation.deactivationEpoch ≠ epochMax

namespace Sound

variable {steady : Prop} {x : Cell} {s : StakeStatus}

theorem status_unique {t : StakeStatus} (h : Sound rt keeper steady x s)
    (ht : x.entry.status = t.toPod) : t = s :=
  StakeStatus.toPod_inj.mp (ht.symm.trans h.status)

theorem has_active (h : Sound rt keeper steady x s) (hpos : 0 < x.entry.activeStakeLamports) :
    s.HasValidator := by
  have hagrees := h.agrees
  cases s with
  | active => exact .inl rfl
  | deactivatingValidator => exact .inr (.inl rfl)
  | deactivatingAll => exact .inr (.inr rfl)
  | deactivatingTransient => exact absurd hagrees.1 (by omega)
  | readyForRemoval => exact absurd hagrees.1 (by omega)

theorem no_transient (h : Sound rt keeper steady x s)
    (hs : s = .deactivatingValidator ∨ s = .readyForRemoval) : x.entry.transientStakeLamports = 0 := by
  have hagrees := h.agrees
  rcases hs with rfl | rfl
  · exact hagrees
  · exact hagrees.2

theorem some_transient (h : Sound rt keeper steady x s)
    (hs : s = .deactivatingTransient ∨ s = .deactivatingAll) : 0 < x.entry.transientStakeLamports := by
  have hagrees := h.agrees
  rcases hs with rfl | rfl
  · exact hagrees.2
  · exact hagrees

/-- An entry stays sound while its held accounts grow. -/
theorem grows {validator transient : Account} (h : Sound rt keeper steady x s)
    (hv : Held rt keeper x.validator → x.validator.Grows (¬ (steady ∧ s = .active)) validator)
    (ht : Held rt keeper x.transient → x.transient.Grows True transient) :
    Sound rt keeper steady ⟨x.entry, validator, transient⟩ s where
  status := h.status
  agrees := h.agrees
  validator hs := (h.validator hs).grows (hv (h.validator hs))
  active_le := by
    by_cases hpos : 0 < x.entry.activeStakeLamports
    · exact Nat.le_trans h.active_le (hv (h.validator (h.has_active hpos))).lamports
    · dsimp only
      omega
  transient hpos := (h.transient hpos).grows (ht (h.transient hpos))
  transient_le := by
    by_cases hpos : 0 < x.entry.transientStakeLamports
    · exact Nat.le_trans h.transient_le (ht (h.transient hpos)).lamports
    · dsimp only
      omega
  delegated hsteady hactive := by
    obtain ⟨info, stake, hdata⟩ := h.delegated hsteady hactive
    obtain ⟨s', hdata', hsame | ⟨hreset, -⟩⟩ :=
      (hv (h.validator (.inl hactive))).stake _ info hdata rfl
    · cases hsame with
      | stake => exact ⟨info, _, hdata'⟩
    · exact absurd ⟨hsteady, hactive⟩ hreset
  stopped hsteady hleaving hpos info stake hdata := by
    obtain ⟨t, info', ht'⟩ := h.transient hpos
    obtain ⟨t', hdata', hsame | ⟨-, hinit⟩⟩ := (ht ⟨t, info', ht'⟩).stake t info' ht'.data ht'.info_eq
    · cases hdata'.symm.trans hdata
      cases hsame with
      | stake _ _ _ hdeactivation =>
        rcases hdeactivation with heq | hne
        · rw [heq]
          exact h.stopped hsteady hleaving hpos _ _ ht'.data
        · exact hne
    · cases hdata'.symm.trans hdata
      cases hinit

end Sound

end StakePoolFogo
