import TheBrain.Arion.Uids

namespace TheBrain.Arion
open Library Machine Words Function List

variable {A N W : Type}
variable {s t u : State A N W}

def Current (now : Nat) (s : State A N W) (child : A) : Prop :=
  ∀ uid accrual, s.childMinerUid child = some uid → s.minerAccruals uid = some accrual → accrual.lastBlock = now

theorem credit_current (current : Current now s child) (held : s.childMinerUid child = some uid) :
    credit s child now = ((s.minerAccruals uid).getD ⟨0,now⟩).byteBlocks.val := by
  unfold credit
  rw [held]
  change (accrued s uid now).val = _
  cases stored : s.minerAccruals uid with
  | none => rw [accrued_none stored,Option.getD_none]
  | some accrual =>
    have written := current uid accrual held stored
    cases written
    rw [accrued_current stored,Option.getD_some]

theorem restoreCarried_current (carried : A × Nat) (current : Current now s child) :
    Current now (restoreCarried now s carried) child := by
  unfold restoreCarried
  cases held : s.childMinerUid carried.1 with
  | none => exact current
  | some =>
    intro key accrual holds stored
    dsimp only at holds stored
    rw [update_apply] at stored
    split at stored
    · cases stored
      rfl
    · exact current key accrual holds stored

theorem mem_desiredUids {miners : List (MinerRecord A N)} :
    want ∈ desiredUids s miners ↔
      ∃ miner ∈ miners, miner.uid ≠ 0 ∧ s.nodeIdToChild miner.nodeId = some want.1 ∧ miner.uid = want.2 := by
  unfold desiredUids
  rw [mem_filterMap]
  refine exists_congr fun miner => and_congr_right fun _ => ?_
  split
  next zero =>
    constructor
    · intro listed
      cases listed
    · intro listed
      exact absurd zero listed.1
  next nonzero =>
    rw [Option.map_eq_some_iff]
    constructor
    · rintro ⟨_,leads,rfl⟩
      exact ⟨nonzero,leads,rfl⟩
    · rintro ⟨_,leads,uid⟩
      exact ⟨want.1,leads,Prod.ext rfl uid⟩

theorem desiredUids_nonzero (miners : List (MinerRecord A N)) : ∀ want ∈ desiredUids s miners, want.2 ≠ 0 := by
  intro want mem
  obtain ⟨_,_,nonzero,_,uid⟩ := mem_desiredUids.mp mem
  exact uid ▸ nonzero

theorem credit_fits (s : State A N W) (child : A) (now : Nat) : credit s child now < 2 ^ 128 := by
  unfold credit
  cases s.childMinerUid child with
  | none => exact Nat.two_pow_pos 128
  | some uid => exact (accrued s uid now).isLt

variable [DecidableEq A]

def carriedFor (child : A) (carried : List (A × Nat)) : Nat :=
  (carried.map fun entry => if entry.1 = child then entry.2 else 0).sum

theorem carriedFor_append (child : A) (one two : List (A × Nat)) :
    carriedFor child (one ++ two) = carriedFor child one + carriedFor child two := by
  simp only [carriedFor,map_append,sum_append]

structure Sheds (s t : State A N W) : Prop where
  linked : UidsLinked t
  claimed : AllClaimed s → AllClaimed t
  held : ∀ child uid, t.childMinerUid child = some uid → s.childMinerUid child = some uid
  claims : ∀ uid child, t.minerUidToChild uid = some child → s.minerUidToChild uid = some child
  childRegistrations : t.childRegistrations = s.childRegistrations

theorem Sheds.refl (linked : UidsLinked s) : Sheds s s := ⟨linked,id,fun _ _ held => held,fun _ _ claims => claims,rfl⟩

theorem Sheds.trans (one : Sheds s t) (two : Sheds t u) : Sheds s u where
  linked := two.linked
  claimed := fun claimed => two.claimed (one.claimed claimed)
  held := fun child uid held => one.held child uid (two.held child uid held)
  claims := fun uid child claims => one.claims uid child (two.claims uid child claims)
  childRegistrations := two.childRegistrations.trans one.childRegistrations

theorem Released.sheds (released : Released s t child uid) (linked : UidsLinked s) (held : s.childMinerUid child = some uid) :
    Sheds s t where
  linked := released.vacated.linked linked held
  claimed := released.claimed
  held := fun _ _ kept => (released.vacated.still kept).2
  claims := fun _ _ kept => (released.vacated.stillClaimed kept).2
  childRegistrations := released.childRegistrations

theorem Sheds.unbound (sheds : Sheds s t) (unbound : s.childMinerUid child = none) : t.childMinerUid child = none := by
  cases held : t.childMinerUid child with
  | none => rfl
  | some uid =>
    have before := sheds.held child uid held
    rw [unbound] at before
    cases before

theorem detachUid_released (s : State A N W) (child : A) (uid now : Nat) : Released s (detachUid s child uid now).1 child uid :=
  ⟨⟨rfl,rfl,rfl,rfl⟩,update_idem ..,rfl⟩

theorem detachUid_amount (s : State A N W) (child : A) (uid now : Nat) :
    (detachUid s child uid now).2 = accrued s uid now := storedByteBlocks_accrue s uid now

-- Pass 1. What a child loses with its uid is set aside for that child.
structure SetsAside (now : Nat) (p q : State A N W × List (A × Nat)) : Prop extends Sheds p.1 q.1 where
  aside : ∀ child, credit q.1 child now + carriedFor child q.2 = credit p.1 child now + carriedFor child p.2
  waiting : (∀ entry ∈ p.2, p.1.childMinerUid entry.1 = none) → ∀ entry ∈ q.2, q.1.childMinerUid entry.1 = none

def HoldsOnly (want : A × Nat) (s : State A N W) : Prop :=
  ∀ uid, s.childMinerUid want.1 = some uid → uid = want.2

theorem carried_nonzero (child holder : A) (amount : Nat) (carried : List (A × Nat)) :
    carriedFor child (if amount = 0 then carried else carried ++ [(holder,amount)]) =
      carriedFor child carried + if child = holder then amount else 0 := by
  by_cases zero : amount = 0
  · rw [if_pos zero,zero,ite_self,Nat.add_zero]
  · rw [if_neg zero,carriedFor_append]
    simp only [carriedFor,map_cons,map_nil,sum_cons,sum_nil,Nat.add_zero,eq_comm]

theorem setsAside_refl (p : State A N W × List (A × Nat)) (linked : UidsLinked p.1) :
    SetsAside now p p := ⟨Sheds.refl linked,fun _ => rfl,id⟩

theorem detachStale_aside (p : State A N W × List (A × Nat)) (want : A × Nat)
    (linked : UidsLinked p.1) :
    SetsAside now p (detachStale now p want) ∧ HoldsOnly want (detachStale now p want).1 := by
  unfold detachStale
  cases held : p.1.childMinerUid want.1 with
  | none =>
    refine ⟨setsAside_refl p linked,?_⟩
    intro uid holds
    rw [held] at holds
    cases holds
  | some oldUid =>
    dsimp only
    split
    next listed =>
      refine ⟨setsAside_refl p linked,?_⟩
      intro uid holds
      rw [held] at holds
      cases holds
      exact listed
    · have released := detachUid_released p.1 want.1 oldUid now
      have sheds := released.sheds linked held
      refine ⟨⟨sheds,?_,?_⟩,?_⟩
      · intro child
        rw [released.credit linked held,carried_nonzero,detachUid_amount]
        by_cases same : child = want.1
        · have before : credit p.1 child now = accrued p.1 oldUid now := by
            rw [credit,same,held]
            rfl
          rw [if_pos same,if_pos same]
          omega
        · rw [if_neg same,if_neg same]
          rfl
      · intro waiting entry mem
        have either : entry ∈ p.2 ∨ entry.1 = want.1 := by
          split at mem
          · exact .inl mem
          · rcases mem_append.mp mem with before | new
            · exact .inl before
            · rw [mem_singleton.mp new]
              exact .inr rfl
        rcases either with before | own
        · exact sheds.unbound (waiting entry before)
        · rw [own,released.childMinerUid,update_self]
      · intro uid holds
        exact absurd rfl (released.vacated.still holds).1

theorem detachAll_aside (now : Nat) (desired : List (A × Nat)) (p : State A N W × List (A × Nat))
    (linked : UidsLinked p.1) :
    SetsAside now p (desired.foldl (detachStale now) p) ∧
      ∀ want ∈ desired, HoldsOnly want (desired.foldl (detachStale now) p).1 := by
  apply foldl_establishes (fun p => UidsLinked p.1) (SetsAside now) (fun want p => HoldsOnly want p.1)
  · intro p fine
    exact setsAside_refl p fine
  · intro p q r one two
    exact ⟨one.toSheds.trans two.toSheds,fun child => (two.aside child).trans (one.aside child),
      fun waiting => two.waiting (one.waiting waiting)⟩
  · intro want p q moved only uid holds
    exact only uid (moved.held want.1 uid holds)
  · intro p want fine
    obtain ⟨detaches,only⟩ := detachStale_aside p want fine
    exact ⟨detaches.linked,detaches,only⟩
  · exact linked

-- Pass 2. A uid the map assigns is left with its child or with nobody.
def ClaimedOnly (want : A × Nat) (s : State A N W) : Prop :=
  ∀ holder, s.minerUidToChild want.2 = some holder → holder = want.1

structure Displaces (now : Nat) (s t : State A N W) : Prop extends Sheds s t where
  lower : ∀ child, credit t child now ≤ credit s child now
  spared : ∀ child, t.childMinerUid child = s.childMinerUid child → credit t child now = credit s child now

theorem SameUids.displaces (same : SameUids s t) (linked : UidsLinked s) : Displaces now s t where
  linked := same.linked linked
  claimed := same.claimed
  held := by
    rw [same.childMinerUid]
    exact fun _ _ held => held
  claims := by
    rw [same.minerUidToChild]
    exact fun _ _ claims => claims
  childRegistrations := same.childRegistrations
  lower child := (same.credit child now).le
  spared child _ := same.credit child now

theorem Displaces.trans (one : Displaces now s t) (two : Displaces now t u) : Displaces now s u where
  toSheds := one.toSheds.trans two.toSheds
  lower child := (two.lower child).trans (one.lower child)
  spared child same := by
    -- A child that kept its uid to the end kept it in the middle.
    cases held : s.childMinerUid child with
    | none =>
      have middle := one.toSheds.unbound held
      exact (two.spared child ((same.trans held).trans middle.symm)).trans (one.spared child (middle.trans held.symm))
    | some uid =>
      have middle := two.held child uid (same.trans held)
      exact (two.spared child ((same.trans held).trans middle.symm)).trans (one.spared child (middle.trans held.symm))

theorem Released.displaces (released : Released s t child uid) (linked : UidsLinked s) (held : s.childMinerUid child = some uid) :
    Displaces now s t where
  toSheds := released.sheds linked held
  lower other := by
    rw [released.credit linked held]
    split
    · exact Nat.zero_le _
    · exact le_rfl
  spared other same := by
    rw [released.credit linked held]
    split
    next own =>
      rw [own,released.childMinerUid,update_self,held] at same
      cases same
    · rfl

theorem depositEvent_displaces (linked : UidsLinked s) (e : Event A N) : Displaces now s (depositEvent s e) := by
  have same : SameUids s (depositEvent s e) := ⟨rfl,rfl,rfl,rfl,rfl,rfl⟩
  exact same.displaces linked

theorem displaceHolder_displaces (want : A × Nat) (linked : UidsLinked s) :
    Displaces now s (displaceHolder now s want) ∧ ClaimedOnly want (displaceHolder now s want) ∧
      ∀ child, (s.childMinerUid child = some want.2 → child = want.1) →
        (displaceHolder now s want).childMinerUid child = s.childMinerUid child := by
  have still : Displaces now s s := SameUids.displaces (SameUids.refl s) linked
  unfold displaceHolder
  cases claims : s.minerUidToChild want.2 with
  | none =>
    refine ⟨still,?_,fun _ _ => rfl⟩
    intro holder holds
    rw [claims] at holds
    cases holds
  | some holder =>
    dsimp only
    split
    next own =>
      refine ⟨still,?_,fun _ _ => rfl⟩
      intro other holds
      rw [claims] at holds
      cases holds
      exact own
    next other =>
      have released := detachUid_released s holder want.2 now
      have held := linked.backward want.2 holder claims
      have displaces : Displaces now s (detachUid s holder want.2 now).1 := released.displaces linked held
      have freed : (detachUid s holder want.2 now).1.minerUidToChild want.2 = none := by
        rw [released.minerUidToChild,update_self]
      have spares : ∀ child, (s.childMinerUid child = some want.2 → child = want.1) →
          (detachUid s holder want.2 now).1.childMinerUid child = s.childMinerUid child := by
        intro child only
        have apart : child ≠ holder := by
          intro same
          rw [same] at only
          exact other (only held)
        rw [released.childMinerUid,update_of_ne apart]
      generalize detachUid s holder want.2 now = detached at displaces freed spares
      have only : ClaimedOnly want detached.1 := by
        intro other holds
        rw [freed] at holds
        cases holds
      split
      · exact ⟨displaces.trans (depositEvent_displaces displaces.linked _),only,spares⟩
      · cases detached.1.childRegistrations.lookup holder with
        | none => exact ⟨displaces.trans (depositEvent_displaces displaces.linked _),only,spares⟩
        | some reg =>
          have forfeits := displaces.trans
            (depositEvent_displaces displaces.linked (.minerAccrualForfeited reg.family want.2 detached.2))
          exact ⟨forfeits.trans (depositEvent_displaces forfeits.linked _),only,spares⟩

theorem displaceAll_displaces (now : Nat) (desired : List (A × Nat)) (linked : UidsLinked s) :
    Displaces now s (desired.foldl (displaceHolder now) s) ∧
      ∀ want ∈ desired, ClaimedOnly want (desired.foldl (displaceHolder now) s) := by
  apply foldl_establishes UidsLinked (Displaces now) ClaimedOnly
  · intro s fine
    exact SameUids.displaces (SameUids.refl s) fine
  · intro s t u one two
    exact one.trans two
  · intro want s t moved only holder holds
    exact only holder (moved.claims want.2 holder holds)
  · intro s want fine
    have displaced : Displaces now s _ ∧ _ := displaceHolder_displaces want fine
    exact ⟨displaced.1.linked,displaced.1,displaced.2.1⟩
  · exact linked

theorem displaceAll_spares (now : Nat) (desired : List (A × Nat)) (linked : UidsLinked s)
    (only : ∀ want ∈ desired, s.childMinerUid child = some want.2 → child = want.1) :
    (desired.foldl (displaceHolder now) s).childMinerUid child = s.childMinerUid child := by
  induction desired generalizing s with
  | nil => rfl
  | cons want _ ih =>
    have first : Displaces now s _ ∧ _ := displaceHolder_displaces want linked
    have same := first.2.2 child (only want (mem_cons_self ..))
    refine (ih first.1.linked ?_).trans same
    intro later mem holds
    rw [same] at holds
    exact only later (mem_cons_of_mem _ mem) holds

theorem installUid_installed (s : State A N W) (want : A × Nat) : Installed s (installUid s want) want.1 want.2 := by
  unfold installUid
  split
  · next held => exact ⟨⟨(update_eq_self_iff.mpr held.symm).symm,rfl,rfl,rfl⟩,rfl,rfl⟩
  · exact ⟨⟨rfl,rfl,rfl,rfl⟩,rfl,rfl⟩

theorem Installed.same (installed : Installed s t child uid) (held : s.childMinerUid child = some uid)
    (claims : s.minerUidToChild uid = some child) : SameUids s t where
  childMinerUid := installed.childMinerUid.trans (update_eq_self_iff.mpr held.symm)
  minerUidToChild := installed.minerUidToChild.trans (update_eq_self_iff.mpr claims.symm)
  nodeIdToChild := installed.nodeIdToChild
  childRegistrations := installed.childRegistrations
  minerAccruals := installed.minerAccruals
  minerStatsByUid := installed.minerStatsByUid

structure Fits (s : State A N W) (want : A × Nat) : Prop where
  holds : HoldsOnly want s
  claims : ClaimedOnly want s
  registered : ∃ reg, s.childRegistrations.lookup want.1 = some reg ∧ reg.status = .active

structure Seats (now : Nat) (s t : State A N W) : Prop where
  linked : UidsLinked t
  claimed : AllClaimed s → AllClaimed t
  minerAccruals : t.minerAccruals = s.minerAccruals
  credit : ∀ child, Arion.credit t child now = Arion.credit s child now

theorem Seats.trans (one : Seats now s t) (two : Seats now t u) : Seats now s u where
  linked := two.linked
  claimed claimed := two.claimed (one.claimed claimed)
  minerAccruals := two.minerAccruals.trans one.minerAccruals
  credit child := (two.credit child).trans (one.credit child)

theorem Fits.free (fits : Fits s want) (linked : UidsLinked s) (unbound : s.childMinerUid want.1 = none) :
    s.minerUidToChild want.2 = none := by
  cases claims : s.minerUidToChild want.2 with
  | none => rfl
  | some holder =>
    have back := linked.backward want.2 holder claims
    rw [fits.claims holder claims,unbound] at back
    cases back

theorem Fits.unaccrued (fits : Fits s want) (linked : UidsLinked s) (nonzero : want.2 ≠ 0)
    (unbound : s.childMinerUid want.1 = none) : s.minerAccruals want.2 = none := by
  by_contra accruing
  exact linked.claimed want.2 nonzero accruing (fits.free linked unbound)

theorem installUid_seats (want : A × Nat) (linked : UidsLinked s) (fits : Fits s want) (nonzero : want.2 ≠ 0) :
    Seats now s (installUid s want) := by
  have installed := installUid_installed s want
  cases held : s.childMinerUid want.1 with
  | some uid =>
    have own : uid = want.2 := fits.holds uid held
    subst own
    have same := installed.same held (linked.forward want.1 want.2 held)
    exact ⟨same.linked linked,same.claimed,same.minerAccruals,fun child => same.credit child now⟩
  | none =>
    refine ⟨installed.linked linked held (fits.free linked held) fits.registered,installed.claimed,installed.minerAccruals,?_⟩
    intro child
    unfold credit
    rw [installed.childMinerUid,update_apply]
    split
    next own =>
      rw [own,held]
      change (accrued _ want.2 now).val = 0
      rw [installed.accrued,accrued_none (fits.unaccrued linked nonzero held)]
      rfl
    · cases s.childMinerUid child with
      | none => rfl
      | some key => exact congrArg Fin.val (installed.accrued key now)

theorem Fits.later (fits : Fits s want) (installed : Installed s t child uid) (children : want.1 ≠ child) (uids : want.2 ≠ uid) :
    Fits t want where
  holds := by
    intro key held
    rw [installed.childMinerUid,update_of_ne children] at held
    exact fits.holds key held
  claims := by
    intro holder held
    rw [installed.minerUidToChild,update_of_ne uids] at held
    exact fits.claims holder held
  registered := by
    rw [installed.childRegistrations]
    exact fits.registered

def Distinct (desired : List (A × Nat)) : Prop := desired.Pairwise fun a b => a.1 ≠ b.1 ∧ a.2 ≠ b.2

theorem installAll_seats (desired : List (A × Nat)) (distinct : Distinct desired) (linked : UidsLinked s)
    (fits : ∀ want ∈ desired, Fits s want) (nonzero : ∀ want ∈ desired, want.2 ≠ 0) :
    Seats now s (desired.foldl installUid s) := by
  induction desired generalizing s with
  | nil => exact ⟨linked,id,rfl,fun _ => rfl⟩
  | cons want _ ih =>
    obtain ⟨apart,rest⟩ := pairwise_cons.mp distinct
    have first : Seats now s (installUid s want) :=
      installUid_seats want linked (fits want (mem_cons_self ..)) (nonzero want (mem_cons_self ..))
    refine first.trans (ih rest first.linked ?_ fun later mem => nonzero later (mem_cons_of_mem _ mem))
    intro later mem
    obtain ⟨children,uids⟩ := apart later mem
    exact (fits later (mem_cons_of_mem _ mem)).later (installUid_installed s want) (Ne.symm children) (Ne.symm uids)

theorem installAll_others (desired : List (A × Nat)) (unlisted : ∀ want ∈ desired, child ≠ want.1) :
    (desired.foldl installUid s).childMinerUid child = s.childMinerUid child := by
  induction desired generalizing s with
  | nil => rfl
  | cons want _ ih =>
    refine (ih fun later mem => unlisted later (mem_cons_of_mem _ mem)).trans ?_
    rw [(installUid_installed s want).childMinerUid,update_of_ne (unlisted want (mem_cons_self ..))]

theorem installAll_holds (desired : List (A × Nat)) (distinct : Distinct desired) :
    ∀ want ∈ desired, (desired.foldl installUid s).childMinerUid want.1 = some want.2 := by
  induction desired generalizing s with
  | nil => exact nofun
  | cons _ desired ih =>
    obtain ⟨apart,rest⟩ := pairwise_cons.mp distinct
    intro want mem
    rcases mem_cons.mp mem with rfl | later
    · refine (installAll_others desired fun later mem => (apart later mem).1).trans ?_
      rw [(installUid_installed s want).childMinerUid,update_self]
    · exact ih rest want later

-- Pass 4. What was set aside for a child goes to the uid the child now holds.
structure Restores (s t : State A N W) : Prop where
  linked : UidsLinked t
  claimed : AllClaimed s → AllClaimed t
  childMinerUid : t.childMinerUid = s.childMinerUid

theorem restoreCarried_restores (now : Nat) (carried : A × Nat) (linked : UidsLinked s) :
    Restores s (restoreCarried now s carried) := by
  unfold restoreCarried
  cases held : s.childMinerUid carried.1 with
  | none => exact ⟨linked,id,rfl⟩
  | some uid =>
    have holds : s.minerUidToChild uid ≠ none := by
      rw [linked.forward carried.1 uid held]
      exact Option.some_ne_none carried.1
    exact ⟨write_linked linked holds _,fun claimed key => written_claimed holds (claimed key),rfl⟩

theorem restoreCarried_credit (now : Nat) (carried : A × Nat) (linked : UidsLinked s) (child : A) :
    credit (restoreCarried now s carried) child now ≤ credit s child now + carriedFor child [carried] ∧
    (carried.1 ≠ child → credit (restoreCarried now s carried) child now = credit s child now) ∧
    (Current now s child → s.childMinerUid child ≠ none → credit s child now + carriedFor child [carried] < 2 ^ 128 →
      credit (restoreCarried now s carried) child now = credit s child now + carriedFor child [carried]) := by
  have alone : carriedFor child [carried] = if carried.1 = child then carried.2 else 0 := by
    rw [carriedFor,map_singleton,sum_singleton]
  rw [alone]
  unfold restoreCarried
  cases held : s.childMinerUid carried.1 with
  | none =>
    refine ⟨Nat.le_add_right _ _,fun _ => rfl,?_⟩
    intro _ bound _
    have apart : carried.1 ≠ child := by
      intro same
      exact bound (same ▸ held)
    rw [if_neg apart]
    rfl
  | some uid =>
    have written := credit_write s uid now (addSaturating ((s.minerAccruals uid).getD ⟨0,now⟩).byteBlocks carried.2) child
    change credit _ child now ≤ _ ∧ (_ → credit _ child now = _) ∧ (_ → _ → _ → credit _ child now = _)
    unfold withAccruals at written
    rw [written]
    by_cases own : s.childMinerUid child = some uid
    · have same : carried.1 = child := holder_unique linked held own
      have kept : ((s.minerAccruals uid).getD ⟨0,now⟩).byteBlocks.val ≤ credit s child now := by
        unfold credit
        rw [own]
        exact le_saturatingAdd (Fin.isLt _)
      rw [if_pos own,if_pos same,addSaturating_val]
      refine ⟨saturatingAdd_le.trans (Nat.add_le_add_right kept _),fun apart => absurd same apart,?_⟩
      intro current _ fits
      rw [← credit_current current own]
      exact saturatingAdd_exact fits
    · have apart : carried.1 ≠ child := by
        intro same
        exact own (same ▸ held)
      rw [if_neg own,if_neg apart]
      exact ⟨le_rfl,fun _ => rfl,fun _ _ _ => rfl⟩

section
variable (carried : List (A × Nat))
include carried

theorem restoreAll_restores (linked : UidsLinked s) :
    Restores s (carried.foldl (restoreCarried now) s) := by
  induction carried generalizing s with
  | nil => exact ⟨linked,id,rfl⟩
  | cons entry _ ih =>
    have first := restoreCarried_restores now entry linked
    have rest := ih first.linked
    exact ⟨rest.linked,fun claimed => rest.claimed (first.claimed claimed),rest.childMinerUid.trans first.childMinerUid⟩

theorem restoreAll_le (linked : UidsLinked s) (child : A) :
    credit (carried.foldl (restoreCarried now) s) child now ≤ credit s child now + carriedFor child carried := by
  induction carried generalizing s with
  | nil => exact le_rfl
  | cons entry carried ih =>
    have here := (restoreCarried_credit now entry linked child).1
    have later := ih (restoreCarried_restores now entry linked).linked
    rw [foldl_cons,show entry :: carried = [entry] ++ carried from rfl,carriedFor_append]
    omega

theorem restoreAll_others (linked : UidsLinked s) (none : ∀ entry ∈ carried, entry.1 ≠ child) :
    credit (carried.foldl (restoreCarried now) s) child now = credit s child now := by
  induction carried generalizing s with
  | nil => rfl
  | cons entry _ ih =>
    have here := (restoreCarried_credit now entry linked child).2.1 (none entry (mem_cons_self ..))
    exact (ih (restoreCarried_restores now entry linked).linked
      fun later mem => none later (mem_cons_of_mem _ mem)).trans here

theorem restoreAll_exact (linked : UidsLinked s) (current : Current now s child)
    (bound : s.childMinerUid child ≠ none) (fits : credit s child now + carriedFor child carried < 2 ^ 128) :
    credit (carried.foldl (restoreCarried now) s) child now = credit s child now + carriedFor child carried := by
  induction carried generalizing s with
  | nil => rfl
  | cons entry carried ih =>
    have restores := restoreCarried_restores now entry linked
    rw [show entry :: carried = [entry] ++ carried from rfl,carriedFor_append] at fits ⊢
    have here := (restoreCarried_credit now entry linked child).2.2 current bound (by omega)
    have still : (restoreCarried now s entry).childMinerUid child ≠ none := by
      rw [restores.childMinerUid]
      exact bound
    have later := ih restores.linked (restoreCarried_current entry current) still (by omega)
    rw [foldl_append,foldl_cons,foldl_nil,later,here]
    omega

end

theorem desiredUids_distinct (miners : List (MinerRecord A N)) (linked : UidsLinked s)
    (ascending : (miners.map MinerRecord.uid).IsChain (· < ·)) (nodes : (miners.map MinerRecord.nodeId).Nodup) :
    Distinct (desiredUids s miners) := by
  have uidsApart := pairwise_map.mp (isChain_iff_pairwise.mp ascending)
  have nodesApart := pairwise_map.mp nodes
  refine pairwise_filterMap.mpr ((uidsApart.and nodesApart).imp ?_)
  intro one two apart first firstListed second secondListed
  split at firstListed
  · cases firstListed
  split at secondListed
  · cases secondListed
  obtain ⟨child,leads,same⟩ := Option.map_eq_some_iff.mp firstListed
  obtain ⟨other,leads',same'⟩ := Option.map_eq_some_iff.mp secondListed
  subst same same'
  refine ⟨?_,Nat.ne_of_lt apart.1⟩
  rintro (rfl : child = other)
  obtain ⟨_,found,_,node⟩ := linked.nodes one.nodeId child leads
  obtain ⟨_,found',_,node'⟩ := linked.nodes two.nodeId child leads'
  rw [found] at found'
  cases found'
  exact apart.2 (node.symm.trans node')

theorem desiredUids_registered (miners : List (MinerRecord A N)) (linked : UidsLinked s) :
    ∀ want ∈ desiredUids s miners, ∃ reg, s.childRegistrations.lookup want.1 = some reg ∧ reg.status = .active := by
  intro want mem
  obtain ⟨miner,_,_,leads,_⟩ := mem_desiredUids.mp mem
  obtain ⟨reg,found,active,_⟩ := linked.nodes miner.nodeId want.1 leads
  exact ⟨reg,found,active⟩

-- What the four passes leave behind. Credit that was set aside comes back to the child
-- it was taken from, and to nobody else.
structure Rebound (now : Nat) (desired : List (A × Nat)) (s t : State A N W) : Prop where
  linked : UidsLinked t
  claimed : AllClaimed s → AllClaimed t
  lower : ∀ child, credit t child now ≤ credit s child now
  holds : ∀ want ∈ desired, t.childMinerUid want.1 = some want.2
  keeps : ∀ want ∈ desired, credit t want.1 now = credit s want.1 now
  loses : ∀ want ∈ desired, ∀ child, (∀ other ∈ desired, child ≠ other.1) → s.childMinerUid child = some want.2 →
    t.childMinerUid child = none

theorem distinct_uids {desired : List (A × Nat)} (distinct : Distinct desired) (one : a ∈ desired) (two : b ∈ desired) (same : a.2 = b.2) : a = b := by
  by_contra apart
  have symmetric : Std.Symm fun x y : A × Nat => x.1 ≠ y.1 ∧ x.2 ≠ y.2 :=
    ⟨fun _ _ different => ⟨different.1.symm,different.2.symm⟩⟩
  exact (List.Pairwise.forall distinct one two apart).2 same

theorem bindUids_rebound (miners : List (MinerRecord A N)) (linked : UidsLinked s)
    (ascending : (miners.map MinerRecord.uid).IsChain (· < ·)) (nodes : (miners.map MinerRecord.nodeId).Nodup) :
    Rebound s.blockNumber (desiredUids s miners) s (bindUidsFromCrushMap s miners) := by
  have distinct := desiredUids_distinct miners linked ascending nodes
  have registered := desiredUids_registered miners linked
  have nonzero := desiredUids_nonzero (s := s) miners
  simp only [bindUidsFromCrushMap]
  generalize desiredUids s miners = desired at *
  generalize s.blockNumber = now
  obtain ⟨detaches,only⟩ := detachAll_aside now desired (s,[]) linked
  generalize desired.foldl (detachStale now) (s,[]) = detached at *
  obtain ⟨displaces,claims⟩ := displaceAll_displaces now desired detaches.linked
  have spared : ∀ want ∈ desired, (desired.foldl (displaceHolder now) detached.1).childMinerUid want.1 =
      detached.1.childMinerUid want.1 := by
    intro want mem
    refine displaceAll_spares now desired detaches.linked ?_
    intro other listed held
    exact congrArg Prod.fst (distinct_uids distinct mem listed (only want mem other.2 held).symm)
  generalize desired.foldl (displaceHolder now) detached.1 = displaced at *
  have fits : ∀ want ∈ desired, Fits displaced want := by
    intro want mem
    refine ⟨?_,claims want mem,?_⟩
    · intro uid held
      exact only want mem uid (displaces.held want.1 uid held)
    · rw [displaces.childRegistrations,detaches.childRegistrations]
      exact registered want mem
  have seats : Seats now displaced (desired.foldl installUid displaced) :=
    installAll_seats desired distinct displaces.linked fits nonzero
  have holds := installAll_holds (s := displaced) desired distinct
  have others : ∀ child, (∀ want ∈ desired, child ≠ want.1) →
      (desired.foldl installUid displaced).childMinerUid child = displaced.childMinerUid child :=
    fun child unlisted => installAll_others desired unlisted
  generalize desired.foldl installUid displaced = installed at *
  have restores : Restores installed (detached.2.foldl (restoreCarried now) installed) := restoreAll_restores detached.2 seats.linked
  have balance : ∀ child, credit detached.1 child now + carriedFor child detached.2 = credit s child now := detaches.aside
  constructor
  case linked => exact restores.linked
  case claimed => exact fun claimed => restores.claimed (seats.claimed (displaces.claimed (detaches.claimed claimed)))
  case lower =>
    intro child
    calc credit (detached.2.foldl (restoreCarried now) installed) child now
        ≤ credit installed child now + carriedFor child detached.2 := restoreAll_le detached.2 seats.linked child
      _ = credit displaced child now + carriedFor child detached.2 := by rw [seats.credit child]
      _ ≤ credit detached.1 child now + carriedFor child detached.2 := Nat.add_le_add_right (displaces.lower child) _
      _ = credit s child now := balance child
  case holds =>
    intro want mem
    rw [restores.childMinerUid]
    exact holds want mem
  case keeps =>
    intro want mem
    have before : credit installed want.1 now = credit detached.1 want.1 now :=
      (seats.credit want.1).trans (displaces.spared want.1 (spared want mem))
    have waiting := detaches.waiting nofun
    -- Either the uid was the right one all along and nothing was set aside, or it is a
    -- fresh one and all that was set aside is added to nothing.
    cases bound : detached.1.childMinerUid want.1 with
    | some =>
      have none : ∀ entry ∈ detached.2, entry.1 ≠ want.1 := by
        intro entry carried same
        have unbound := waiting entry carried
        rw [same,bound] at unbound
        cases unbound
      have nothing : carriedFor want.1 detached.2 = 0 := by
        refine sum_eq_zero ?_
        intro amount listed
        obtain ⟨entry,carried,rfl⟩ := mem_map.mp listed
        exact if_neg (none entry carried)
      rw [restoreAll_others detached.2 seats.linked none,before,← balance want.1,nothing,Nat.add_zero]
    | none =>
      have unbound := (spared want mem).trans bound
      have current : Current now installed want.1 := by
        intro uid accrual held stored
        rw [holds want mem] at held
        cases held
        rw [seats.minerAccruals,(fits want mem).unaccrued displaces.linked (nonzero want mem) unbound] at stored
        cases stored
      have room : credit installed want.1 now + carriedFor want.1 detached.2 < 2 ^ 128 := by
        rw [before,balance]
        exact credit_fits s want.1 now
      have some : installed.childMinerUid want.1 ≠ none := by
        rw [holds want mem]
        exact Option.some_ne_none _
      rw [restoreAll_exact detached.2 seats.linked current some room,before,balance]
  case loses =>
    intro want mem child unlisted held
    rw [restores.childMinerUid,others child unlisted]
    cases left : displaced.childMinerUid child with
    | none => rfl
    | some uid =>
      have first := detaches.held child uid (displaces.held child uid left)
      rw [held] at first
      cases first
      exact absurd (claims want mem child (displaces.linked.forward child want.2 left)) (unlisted want mem)

end TheBrain.Arion
