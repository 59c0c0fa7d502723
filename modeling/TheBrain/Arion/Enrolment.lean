import TheBrain.Arion.Settlement

namespace TheBrain.Arion
open Library Machine Words PaymentMath StorageMap

variable {A N W : Type}
variable {cfg : Config A N W} {s t u : State A N W}

def Rebinds (s t : State A N W) : Prop := ∃ stats accruals uids children events, t = {s with
  minerStatsByUid:=stats,minerAccruals:=accruals,childMinerUid:=uids,minerUidToChild:=children,events:=events}

theorem Rebinds.trans (one : Rebinds s t) (two : Rebinds t u) : Rebinds s u := by
  obtain ⟨_,_,_,_,_,rfl⟩ := one
  obtain ⟨_,_,_,_,_,rfl⟩ := two
  exact ⟨_,_,_,_,_,rfl⟩

theorem forfeitAccrual_rebinds [DecidableEq A] (s : State A N W) (child : A) (uid : Nat) : Rebinds s (forfeitAccrual s child uid) := by
  simp only [forfeitAccrual]
  split
  · exact ⟨_,_,_,_,_,rfl⟩
  · split <;> exact ⟨_,_,_,_,_,rfl⟩

theorem clear_rebinds [DecidableEq A] (s : State A N W) (child : A) : Rebinds s (clearMinerUidAndStatsForChild s child) := by
  unfold clearMinerUidAndStatsForChild
  split
  · exact ⟨_,_,_,_,_,rfl⟩
  next uid _ =>
    have forfeits : Rebinds s (if uid = 0 then s else forfeitAccrual s child uid) := by
      split
      · exact ⟨_,_,_,_,_,rfl⟩
      · exact forfeitAccrual_rebinds s child uid
    exact forfeits.trans ⟨_,_,_,_,_,rfl⟩

-- What pricing a registration and advancing the fee curve write.
def Quotes (s t : State A N W) : Prop := ∃ base next last used slots, t = {s with
  baseChildDepositValue:=base,globalNextDeposit:=next,globalLastPaidRegistrationBlock:=last
  familyUsedFreeSlot:=used,familyFreeSlotsUsed:=slots}

theorem Quotes.trans (one : Quotes s t) (two : Quotes t u) : Quotes s u := by
  obtain ⟨_,_,_,_,_,rfl⟩ := one
  obtain ⟨_,_,_,_,_,rfl⟩ := two
  exact ⟨_,_,_,_,_,rfl⟩

theorem baseDeposit_quotes (cfg : Config A N W) (s : State A N W) : Quotes s (baseDeposit cfg s).1 := by
  unfold baseDeposit
  split <;> exact ⟨_,_,_,_,_,rfl⟩

theorem floorInit_quotes (cfg : Config A N W) (s : State A N W) : Quotes s (globalNextDepositFloorInit cfg s).1 := by
  refine (baseDeposit_quotes cfg s).trans ?_
  simp only [globalNextDepositFloorInit]
  split <;> exact ⟨_,_,_,_,_,rfl⟩

theorem lazyHalving_quotes (cfg : Config A N W) (s : State A N W) : Quotes s (applyLazyGlobalHalving cfg s).1 := by
  refine ((baseDeposit_quotes cfg s).trans (floorInit_quotes cfg _)).trans ?_
  simp only [applyLazyGlobalHalving]
  split <;> exact ⟨_,_,_,_,_,rfl⟩

theorem advanceFeeCurve_quotes [DecidableEq A] (cfg : Config A N W) (s : State A N W) (family : A) : Quotes s (advanceFeeCurve cfg s family) := by
  unfold advanceFeeCurve
  split
  · exact ⟨_,_,_,_,_,rfl⟩
  split
  · exact ⟨_,_,_,_,_,rfl⟩
  · exact (floorInit_quotes cfg s).trans ⟨_,_,_,_,_,rfl⟩

def Reserves (cfg : Config A N W) (family : A) (deposit : Nat) (before after : W) : Prop :=
  deposit = 0 ∧ after = before ∨ cfg.reserve before family deposit = some after

def Releases (cfg : Config A N W) (family : A) (deposit : Nat) (before after : W) : Prop :=
  deposit = 0 ∧ after = before ∨ cfg.unreserve before family deposit = (after,0)

def depositDue (cfg : Config A N W) (s : State A N W) (family : A) : State A N W × Nat :=
  if s.lockupEnabled = false ∨ slotsUsed s family < freeChildSlots s then (s,0) else applyLazyGlobalHalving cfg s

theorem takeDeposit_parts (ran : takeDeposit cfg s family = .ok (t,deposit)) : ∃ quote world, Quotes s quote ∧
    Reserves cfg family deposit s.world world ∧ t = {quote with world:=world} ∧ depositDue cfg s family = (quote,deposit) := by
  have priced : Quotes s (depositDue cfg s family).1 := by
    unfold depositDue
    split
    · exact ⟨_,_,_,_,_,rfl⟩
    · exact lazyHalving_quotes cfg s
  unfold takeDeposit at ran
  rw [← depositDue] at ran
  dsimp only at ran
  generalize depositDue cfg s family = quote at ran priced
  have world : quote.1.world = s.world := by
    obtain ⟨_,_,_,_,_,same⟩ := priced
    rw [same]
  split at ran
  next free =>
    cases ran
    exact ⟨_,_,priced,.inl ⟨free,world⟩,rfl,rfl⟩
  · simp only [passes] at ran
    obtain ⟨after,reserved,same⟩ := ran
    cases same
    rw [world] at reserved
    exact ⟨_,after,priced,.inr reserved,rfl,rfl⟩

theorem releaseDeposit_parts (ran : releaseDeposit cfg s family deposit = .ok t) :
    ∃ world, t = {s with world:=world} ∧ Releases cfg family deposit s.world world := by
  unfold releaseDeposit at ran
  split at ran
  next free =>
    cases ran
    exact ⟨_,rfl,.inl ⟨free,rfl⟩⟩
  · simp only [passes] at ran
    obtain ⟨whole,same⟩ := ran
    cases same
    exact ⟨_,rfl,.inr (Prod.ext rfl whole)⟩

theorem unregisterLastFamily_parts (ran : unregisterLastFamily cfg s family = .ok t) :
    ∃ world, t = {s with world:=world} ∧ (world = s.world ∨ world = cfg.unregisterMainNode s.world family) := by
  unfold unregisterLastFamily at ran
  split at ran
  · cases ran
    exact ⟨_,rfl,.inl rfl⟩
  · simp only [passes] at ran
    obtain ⟨_,same⟩ := ran
    cases same
    exact ⟨_,rfl,.inr rfl⟩

section
variable [DecidableEq A]

-- The settings and the world around the pallet.
def tunes : Call A N W → Bool
  | .setMinerPrice .. | .setLockupEnabled .. | .setBaseChildDeposit .. | .setFreeChildSlotsPerFamily .. | .elsewhere .. => true
  | _ => false

theorem dispatch_tunes [DecidableEq N] (tuning : tunes call = true) (ran : dispatch cfg s call = .ok t) :
    ∃ quote world price enabled slots events, Quotes s quote ∧ t = {quote with
      world:=world,minerPriceUsdPerGbBlock:=price,lockupEnabled:=enabled,freeChildSlotsPerFamily:=slots,events:=events} := by
  have still : Quotes s s := ⟨_,_,_,_,_,rfl⟩
  cases call with
  | setBaseChildDeposit _ deposit =>
    simp only [dispatch,setBaseChildDeposit,passes] at ran
    cases ran.2
    have based : Quotes s {s with baseChildDepositValue:=deposit} := ⟨_,_,_,_,_,rfl⟩
    exact ⟨_,_,_,_,_,_,based.trans (floorInit_quotes cfg _),rfl⟩
  | setMinerPrice | setLockupEnabled =>
    simp only [dispatch,setMinerPrice,setLockupEnabled,passes] at ran
    cases ran.2
    exact ⟨_,_,_,_,_,_,still,rfl⟩
  | setFreeChildSlotsPerFamily =>
    simp only [dispatch,setFreeChildSlotsPerFamily,passes] at ran
    cases ran.2.2
    exact ⟨_,_,_,_,_,_,still,rfl⟩
  | elsewhere =>
    cases ran
    exact ⟨_,_,_,_,_,_,still,rfl⟩
  | _ => cases tuning

theorem settleMinerPayments_parts (cfg : Config A N W) (s : State A N W) (now : Nat) :
    ∃ entries, PaysOut (entries.foldl (settleChild s.minerPriceUsdPerGbBlock (cfg.tokenPriceUsd s.world) now) (s,∅)).1
        (settleMinerPayments cfg s now) ∧
      (s.minerPriceUsdPerGbBlock ≠ 0 → cfg.tokenPriceUsd s.world ≠ 0 → entries = s.childRegistrations.iter cfg.registrationRank) := by
  simp only [settleMinerPayments]
  split
  · next free => exact ⟨[],⟨_,_,_,_,rfl⟩,fun priced => absurd free priced⟩
  split
  · next free => exact ⟨[],⟨_,_,_,_,rfl⟩,fun _ traded => absurd free traded⟩
  refine ⟨_,?_,fun _ _ => rfl⟩
  generalize (s.childRegistrations.iter cfg.registrationRank).foldl _ _ = settled
  generalize iter cfg.accountRank _ = families
  split
  · exact ⟨_,_,_,_,rfl⟩
  · have paid : ∀ pool totalDue, PaysOut settled.1 (families.foldl (payFamily cfg pool totalDue) ⟨settled.1,0,0⟩).state :=
      fun pool totalDue => foldl_keeps (fun p : Payments A N W => PaysOut settled.1 p.state)
        (fun p entry before => (payFamily_spec cfg pool totalDue p entry).elim fun _ paid => before.trans paid.1.frame)
        families ⟨_,_,_,_,rfl⟩
    exact (paid _ _).trans ⟨_,_,_,_,rfl⟩

-- An Active child keeps the uid it is bound to and the uid its node has in the current map.
def Protects [DecidableEq N] (s : State A N W) (uid : Nat) (entry : A × ChildRegistration A N) : Prop :=
  entry.2.status = .active ∧ (s.childMinerUid entry.1 = some uid ∧ uid ≠ 0 ∨
    findUidForNodeInEpoch s s.currentEpoch entry.2.nodeId = some uid)

theorem mem_protected [DecidableEq N] (cfg : Config A N W) : uid ∈ collectProtectedMinerUids cfg s ↔
    ∃ child reg, s.childRegistrations.lookup child = some reg ∧ Protects s uid (child,reg) := by
  refine (foldl_gathers (P := Protects s uid) ?_ _ []).trans ?_
  · intro out entry
    unfold Protects
    cases s.childMinerUid entry.1 <;> cases findUidForNodeInEpoch s s.currentEpoch entry.2.nodeId <;> grind
  · simp only [List.not_mem_nil,false_or,Prod.exists,mem_iter]

end

section
variable (cfg : Config A N W) (inv : State A N W → Prop)

theorem settle_keeps [DecidableEq A] (now : Nat)
    (each : ∀ p entry, inv p.1 → inv (settleChild s.minerPriceUsdPerGbBlock (cfg.tokenPriceUsd s.world) now p entry).1)
    (pays : ∀ t u, PaysOut t u → inv t → inv u) (start : inv s) : inv (settleMinerPayments cfg s now) := by
  obtain ⟨entries,paid,_⟩ := settleMinerPayments_parts cfg s now
  exact pays _ _ paid (foldl_keeps (fun p : State A N W × StorageMap A (Word 128) => inv p.1) each entries start)

theorem prune_keeps [DecidableEq N] (each : ∀ t uid, inv t → inv (pruneUid (collectProtectedMinerUids cfg s) t uid))
    (cursor : ∀ t c, inv t → inv {t with minerStatsPruneCursor:=c}) (start : inv s) : inv (pruneStaleMinerStats cfg s) := by
  simp only [pruneStaleMinerStats]
  split
  · exact start
  split
  · exact cursor _ _ start
  · exact cursor _ _ (foldl_keeps inv each _ start)

theorem onInitialize_parts [DecidableEq A] [DecidableEq N] (now : Nat) (prune : ∀ t, inv t → inv (pruneStaleMinerStats cfg t))
    (settle : ∀ t, inv t → inv (settleMinerPayments cfg t now)) (start : inv {s with blockNumber:=now}) :
    inv (onInitialize cfg s now) := by
  have pruned : inv (if cfg.minerStatsPruneInterval ≠ 0 ∧ now % cfg.minerStatsPruneInterval = 0 then
      pruneStaleMinerStats cfg {s with blockNumber:=now} else {s with blockNumber:=now}) := by
    split
    · exact prune _ start
    · exact start
  simp only [onInitialize]
  split
  · exact settle _ pruned
  · exact pruned

end

open Function

structure RegistryView (A N : Type) where
  registrations : StorageMap A (ChildRegistration A N)
  nodes : N → Option A
  nonces : N → Nat
  children : A → List A
  active : A → Option Nat
  total : Nat
  count : Nat

def registryOf (s : State A N W) : RegistryView A N where
  registrations := s.childRegistrations
  nodes := s.nodeIdToChild
  nonces := s.nodeIdNonce
  children := s.familyChildren
  active := s.familyActiveChildren
  total := s.totalActiveChildren
  count := s.familyCount

def SameRegistry (s t : State A N W) : Prop := registryOf t = registryOf s

def Inside (s t : State A N W) : Prop :=
  (registryOf t,t.world,t.blockNumber) = (registryOf s,s.world,s.blockNumber)

section
variable (same : SameRegistry s t)
include same

theorem SameRegistry.registrations : t.childRegistrations = s.childRegistrations := congrArg RegistryView.registrations same

theorem SameRegistry.nodes : t.nodeIdToChild = s.nodeIdToChild := congrArg RegistryView.nodes same

theorem SameRegistry.nonces : t.nodeIdNonce = s.nodeIdNonce := congrArg RegistryView.nonces same

theorem SameRegistry.trans (next : SameRegistry t u) : SameRegistry s u := Eq.trans next same

end

section
variable (same : Inside s t)
include same

theorem Inside.registry : SameRegistry s t := congrArg Prod.fst same

theorem Inside.world : t.world = s.world := congrArg (fun view => view.2.1) same

theorem Inside.block : t.blockNumber = s.blockNumber := congrArg (fun view => view.2.2) same

theorem Inside.trans (next : Inside t u) : Inside s u := Eq.trans next same

end

theorem foldl_inside {f : State A N W → α → State A N W} (each : ∀ s x, Inside s (f s x))
    (xs : List α) (s : State A N W) : Inside s (xs.foldl f s) :=
  foldl_keeps (Inside s) (fun t x before => before.trans (each t x)) xs rfl

theorem Rebinds.inside (rebinds : Rebinds s t) : Inside s t := by
  obtain ⟨_,_,_,_,_,rfl⟩ := rebinds
  exact rfl

theorem restoreCarried_rebinds (now : Nat) (s : State A N W) (carried : A × Nat) : Rebinds s (restoreCarried now s carried) := by
  unfold restoreCarried
  split
  · exact ⟨_,_,_,_,_,rfl⟩
  · exact ⟨_,_,_,_,_,rfl⟩

theorem recordStats_inside (now : Nat) (s : State A N W) (update : Nat × MinerStats) : Inside s (recordStats now s update) := by
  simp only [recordStats]
  split
  · exact rfl
  · exact rfl

theorem pruneUid_inside (keep : List Nat) (s : State A N W) (uid : Nat) : Inside s (pruneUid keep s uid) := by
  unfold pruneUid
  split
  · exact rfl
  · exact rfl

theorem prune_inside [DecidableEq N] (cfg : Config A N W) (s : State A N W) : Inside s (pruneStaleMinerStats cfg s) :=
  prune_keeps cfg (Inside s) (fun t uid before => before.trans (pruneUid_inside _ t uid)) (fun _ _ before => before.trans rfl) rfl

theorem releaseDeposit_error (failed : releaseDeposit cfg s family amount = .error e) :
    e = .partialUnreserve ∧ amount ≠ 0 ∧ (cfg.unreserve s.world family amount).2 ≠ 0 := by
  unfold releaseDeposit at failed
  split at failed
  · cases failed
  next owed =>
    simp only [bind_error,ensure_error,exists_unit] at failed
    rcases failed with ⟨short,same⟩ | ⟨_,impossible⟩
    · exact ⟨same.symm,owed,short⟩
    · cases impossible

variable [DecidableEq A]

theorem detachStale_rebinds (now : Nat) (p : State A N W × List (A × Nat)) (want : A × Nat) :
    Rebinds p.1 (detachStale now p want).1 := by
  unfold detachStale
  split
  · exact ⟨_,_,_,_,_,rfl⟩
  · split
    · exact ⟨_,_,_,_,_,rfl⟩
    · exact ⟨_,_,_,_,_,rfl⟩

theorem displaceHolder_rebinds (now : Nat) (s : State A N W) (want : A × Nat) : Rebinds s (displaceHolder now s want) := by
  unfold displaceHolder
  split
  · exact ⟨_,_,_,_,_,rfl⟩
  next holder _ =>
    split
    · exact ⟨_,_,_,_,_,rfl⟩
    · have detached : Rebinds s (detachUid s holder want.2 now).1 := ⟨_,_,_,_,_,rfl⟩
      dsimp only
      generalize detachUid s holder want.2 now = pair at detached
      split
      · exact detached.trans ⟨_,_,_,_,_,rfl⟩
      · split
        · exact detached.trans ⟨_,_,_,_,_,rfl⟩
        · exact detached.trans ⟨_,_,_,_,_,rfl⟩

theorem installUid_rebinds (s : State A N W) (want : A × Nat) : Rebinds s (installUid s want) := by
  simp only [installUid]
  split
  · exact ⟨_,_,_,_,_,rfl⟩
  · exact ⟨_,_,_,_,_,rfl⟩

theorem bindUids_rebinds (s : State A N W) (miners : List (MinerRecord A N)) : Rebinds s (bindUidsFromCrushMap s miners) := by
  have loop : ∀ {f : State A N W → A × Nat → State A N W}, (∀ s x, Rebinds s (f s x)) → ∀ (xs : List (A × Nat)) t,
      Rebinds s t → Rebinds s (xs.foldl f t) :=
    fun each xs t start => foldl_keeps (Rebinds s) (fun t x before => before.trans (each t x)) xs start
  have detached : Rebinds s ((desiredUids s miners).foldl (detachStale s.blockNumber) (s,[])).1 :=
    foldl_keeps (fun p : State A N W × List (A × Nat) => Rebinds s p.1)
      (fun p want before => before.trans (detachStale_rebinds _ p want)) _ ⟨_,_,_,_,_,rfl⟩
  exact loop (restoreCarried_rebinds _) _ _ (loop installUid_rebinds _ _ (loop (displaceHolder_rebinds _) _ _ detached))

theorem settleChild_inside (price tokenPrice now : Nat) (p : State A N W × StorageMap A (Word 128))
    (entry : A × ChildRegistration A N) : Inside p.1 (settleChild price tokenPrice now p entry).1 := by
  unfold settleChild
  split
  · exact rfl
  · split
    · exact rfl
    · split
      · exact rfl
      · dsimp only
        split
        · exact rfl
        · split
          · exact rfl
          · exact rfl

theorem settle_registry (cfg : Config A N W) (s : State A N W) (now : Nat) :
    SameRegistry s (settleMinerPayments cfg s now) := by
  refine settle_keeps cfg (SameRegistry s) now ?_ ?_ rfl
  · exact fun p entry before => before.trans (settleChild_inside _ _ _ p entry).registry
  · rintro t _ ⟨_,_,_,_,rfl⟩ before
    exact before.trans rfl

theorem dropFromFamily_eq (s : State A N W) (family child : A) :
    dropFromFamily s family child = {s with
      totalActiveChildren:=s.totalActiveChildren - 1
      familyActiveChildren:=update s.familyActiveChildren family
        (if activeChildrenOf s family - 1 = 0 then none else some (activeChildrenOf s family - 1))
      familyChildren:=update s.familyChildren family
        (if activeChildrenOf s family - 1 = 0 then [] else swapRemove (s.familyChildren family) child)
      familyCount:=if activeChildrenOf s family - 1 = 0 then s.familyCount - 1 else s.familyCount} := by
  by_cases last : activeChildrenOf s family - 1 = 0
  · have empty : activeChildrenOf {s with
        totalActiveChildren:=s.totalActiveChildren - 1
        familyActiveChildren:=update s.familyActiveChildren family (some 0)
        familyChildren:=update s.familyChildren family (swapRemove (s.familyChildren family) child)} family = 0 := by
      dsimp only [activeChildrenOf]
      rw [update_self]
      rfl
    simp only [dropFromFamily,last,if_true,cleanupFamilyWhenNoActiveChildren,empty,ne_eq,not_true_eq_false,if_false,
      update_idem]
  · simp only [dropFromFamily,last,if_false]

structure Claims (cfg : Config A N W) (child : A) (reg : ChildRegistration A N)
    (s t : State A N W) : Prop where
  found : s.childRegistrations.lookup child = some reg
  status : reg.status = .unbonding
  registry : SameRegistry {s with childRegistrations:=s.childRegistrations.erase child} t
  releases : Releases cfg reg.family reg.deposit s.world t.world

theorem claimUnbonded_ok (ran : claimUnbonded cfg s origin child = .ok t) : ∃ reg, Claims cfg child reg s t := by
  simp only [claimUnbonded,passes] at ran
  obtain ⟨_,_,reg,found,_,status,_,_,released,same⟩ := ran
  cases same
  obtain ⟨_,rfl,releases⟩ := releaseDeposit_parts released
  generalize cleared : clearMinerUidAndStatsForChild _ child = bare
  have rebinds := cleared ▸ clear_rebinds _ child
  obtain ⟨_,_,_,_,_,rfl⟩ := rebinds
  exact ⟨reg,found,status,rfl,releases⟩

variable [DecidableEq N]

-- What the calls on the registry do to it. A registration:
structure Registers (cfg : Config A N W) (family child : A) (nodeId : N) (deposit : Nat)
    (s t : State A N W) : Prop where
  fresh : s.childRegistrations.lookup child = none
  unmapped : s.nodeIdToChild nodeId = none
  room : s.totalActiveChildren < cfg.maxChildrenTotal
  roomInFamily : activeChildrenOf s family < cfg.maxChildrenPerFamily
  roomForFamily : activeChildrenOf s family ≠ 0 ∨ s.familyCount < cfg.maxFamilies
  reserves : Reserves cfg family deposit s.world t.world
  registrations : t.childRegistrations = s.childRegistrations.insert child ⟨family,nodeId,.active,deposit,s.blockNumber⟩
  nodes : t.nodeIdToChild = update s.nodeIdToChild nodeId (some child)
  nonces : t.nodeIdNonce = update s.nodeIdNonce nodeId (saturatingAdd 64 (s.nodeIdNonce nodeId) 1)
  children : t.familyChildren = update s.familyChildren family (s.familyChildren family ++ [child])
  active : t.familyActiveChildren =
    update s.familyActiveChildren family (some (saturatingAdd 32 (activeChildrenOf s family) 1))
  total : t.totalActiveChildren = saturatingAdd 32 s.totalActiveChildren 1
  count : t.familyCount = if activeChildrenOf s family = 0 then saturatingAdd 32 s.familyCount 1 else s.familyCount

theorem bindListedUid_rebinds (s : State A N W) (child : A) (nodeId : N) : Rebinds s (bindListedUid s child nodeId) := by
  unfold bindListedUid
  split
  · exact ⟨_,_,_,_,_,rfl⟩
  · split
    · exact ⟨_,_,_,_,_,rfl⟩
    · exact ⟨_,_,_,_,_,rfl⟩

theorem registerChild_ok (ran : registerChild cfg s origin family child nodeId nodeSig = .ok t) :
    ∃ deposit, Registers cfg family child nodeId deposit s t := by
  simp only [registerChild,passes] at ran
  obtain ⟨admitted,⟨_,deposit⟩,deposited,_,counts,same⟩ := ran
  cases same
  simp only [admitChild,passes] at admitted
  obtain ⟨_,_,_,_,_,_,_,fresh,unmapped,room,roomInFamily,roomForFamily,_⟩ := admitted
  obtain ⟨_,_,⟨_,_,_,_,_,rfl⟩,reserves,rfl,_⟩ := takeDeposit_parts deposited
  simp only [countChild,passes] at counts
  obtain ⟨_,same⟩ := counts
  cases same
  generalize bound : bindListedUid _ child nodeId = middle
  have rebinds := bound ▸ bindListedUid_rebinds _ child nodeId
  obtain ⟨_,_,_,_,_,rfl⟩ := rebinds
  generalize advanced : advanceFeeCurve cfg _ family = last
  have quotes := advanced ▸ advanceFeeCurve_quotes cfg _ family
  obtain ⟨_,_,_,_,_,rfl⟩ := quotes
  exact ⟨deposit,Option.isNone_iff_eq_none.mp fresh,unmapped,room,roomInFamily,roomForFamily,reserves,rfl,rfl,rfl,rfl,rfl,rfl,rfl⟩

structure Retires (child : A) (reg : ChildRegistration A N) (s t : State A N W) : Prop where
  found : s.childRegistrations.lookup child = some reg
  status : reg.status = .active
  registrations : ∃ unbondingEnd,
    t.childRegistrations = s.childRegistrations.insert child {reg with status:=.unbonding,unbondingEnd:=unbondingEnd}
  nodes : t.nodeIdToChild = update s.nodeIdToChild reg.nodeId none
  nonces : t.nodeIdNonce = update s.nodeIdNonce reg.nodeId (saturatingAdd 64 (s.nodeIdNonce reg.nodeId) 1)
  children : t.familyChildren = update s.familyChildren reg.family
    (if activeChildrenOf s reg.family - 1 = 0 then [] else swapRemove (s.familyChildren reg.family) child)
  active : t.familyActiveChildren = update s.familyActiveChildren reg.family
    (if activeChildrenOf s reg.family - 1 = 0 then none else some (activeChildrenOf s reg.family - 1))
  total : t.totalActiveChildren = s.totalActiveChildren - 1
  count : t.familyCount = if activeChildrenOf s reg.family - 1 = 0 then s.familyCount - 1 else s.familyCount

theorem retireChild_retires (cfg : Config A N W) (found : s.childRegistrations.lookup child = some reg)
    (status : reg.status = .active) :
    Retires child reg s (retireChild cfg s child reg) ∧ (retireChild cfg s child reg).world = s.world := by
  have cleared := clear_rebinds s child
  simp only [retireChild,dropFromFamily_eq]
  generalize clearMinerUidAndStatsForChild s child = bare at cleared
  obtain ⟨_,_,_,_,_,rfl⟩ := cleared
  exact ⟨⟨found,status,⟨_,rfl⟩,rfl,rfl,rfl,rfl,rfl,rfl⟩,rfl⟩

theorem deregisterChild_ok (ran : deregisterChild cfg s origin child = .ok t) :
    ∃ reg, Retires child reg s t ∧ t.world = s.world := by
  simp only [deregisterChild,passes] at ran
  obtain ⟨_,_,reg,found,_,status,same⟩ := ran
  cases same
  exact ⟨reg,retireChild_retires cfg found status⟩

theorem forceDeregisterChild_ok (ran : forceDeregisterChild cfg s origin child = .ok t) :
    ∃ reg, Retires child reg s t ∧ (t.world = s.world ∨ t.world = cfg.unregisterMainNode s.world reg.family) := by
  simp only [forceDeregisterChild,passes] at ran
  obtain ⟨_,_,_,_,_,reg,found,status,_,unregistered,same⟩ := ran
  cases same
  obtain ⟨world,rfl,outside⟩ := unregisterLastFamily_parts unregistered
  obtain ⟨retires,same⟩ := retireChild_retires (s := {s with world:=world}) cfg found status
  exact ⟨reg,{retires with},outside.imp same.trans same.trans⟩

structure Removes (cfg : Config A N W) (family miner : A) (reg : ChildRegistration A N)
    (s t : State A N W) : Prop where
  found : s.childRegistrations.lookup miner = some reg
  registrations : t.childRegistrations = s.childRegistrations.erase miner
  nodes : t.nodeIdToChild = update s.nodeIdToChild reg.nodeId none
  nonces : t.nodeIdNonce = update s.nodeIdNonce reg.nodeId (saturatingAdd 64 (s.nodeIdNonce reg.nodeId) 1)
  children : t.familyChildren = s.familyChildren
  active : t.familyActiveChildren = s.familyActiveChildren
  total : t.totalActiveChildren = s.totalActiveChildren - 1
  count : t.familyCount = s.familyCount
  releases : Releases cfg family reg.deposit s.world t.world

theorem removeMiner_ok (ran : removeMiner cfg family s miner = .ok t) : ∃ reg, Removes cfg family miner reg s t := by
  simp only [removeMiner,passes] at ran
  obtain ⟨reg,found,_,released,same⟩ := ran
  cases same
  obtain ⟨_,rfl,releases⟩ := releaseDeposit_parts released
  generalize cleared : clearMinerUidAndStatsForChild _ miner = bare
  have rebinds := cleared ▸ clear_rebinds _ miner
  obtain ⟨_,_,_,_,_,rfl⟩ := rebinds
  exact ⟨reg,found,rfl,rfl,rfl,rfl,rfl,rfl,rfl,releases⟩

theorem removeMiner_error (failed : removeMiner cfg family s miner = .error e) :
    e = .childNotRegistered ∧ s.childRegistrations.lookup miner = none ∨
      ∃ reg, s.childRegistrations.lookup miner = some reg ∧ e = .partialUnreserve ∧ reg.deposit ≠ 0 ∧
        (cfg.unreserve s.world family reg.deposit).2 ≠ 0 := by
  simp only [removeMiner,bind_error,okOr_ok,okOr_error] at failed
  rcases failed with ⟨missing,same⟩ | ⟨reg,found,short | ⟨_,_,impossible⟩⟩
  · exact .inl ⟨same.symm,missing⟩
  · have short := releaseDeposit_error short
    exact .inr ⟨reg,found,short⟩
  · cases impossible

def closeFamily (s : State A N W) (family : A) (active : Nat) : State A N W :=
  {s with
    familyActiveChildren:=update s.familyActiveChildren family none
    familyChildren:=update s.familyChildren family []
    familyCount:=if 0 < active then s.familyCount - 1 else s.familyCount}

def enrols : Call A N W → Bool
  | .registerChild .. | .deregisterChild .. | .forceDeregisterChild .. | .claimUnbonded .. | .deregisterFamily .. => true
  | _ => false

inductive Change (cfg : Config A N W) (s : State A N W) :
    Call A N W → State A N W → Prop where
  | registers (change : Registers cfg family child nodeId deposit s after) :
      Change cfg s (.registerChild origin family child nodeId nodeSig) after
  | retires (change : Retires child reg s after) (outside : after.world = s.world) : Change cfg s (.deregisterChild origin child) after
  | forces (change : Retires child reg s after) (outside : after.world = s.world ∨ after.world = cfg.unregisterMainNode s.world reg.family) :
      Change cfg s (.forceDeregisterChild origin child) after
  | claims (change : Claims cfg child reg s after) : Change cfg s (.claimUnbonded origin child) after
  | absent (unknown : s.familyActiveChildren family = none) : Change cfg s (.deregisterFamily family) s
  | removes (known : s.familyActiveChildren family = some active)
      (loop : (s.familyChildren family).foldlM (removeMiner cfg family)
        {s with familyChildren:=update s.familyChildren family []} = .ok removed) :
      Change cfg s (.deregisterFamily family) (closeFamily removed family active)
  | aside (other : enrols call = false) (same : SameRegistry s after) : Change cfg s call after

theorem onInitialize_registry (cfg : Config A N W) (s : State A N W) (now : Nat) : SameRegistry s (onInitialize cfg s now) :=
  onInitialize_parts cfg (SameRegistry s) now (fun t before => before.trans (prune_inside cfg t).registry)
    (fun t before => before.trans (settle_registry cfg t now)) rfl

theorem submitCrushMap_registry (ran : submitCrushMap cfg s origin epoch params miners = .ok t) : SameRegistry s t := by
  simp only [submitCrushMap,passes] at ran
  obtain ⟨_,_,_,_,_,_,same⟩ := ran
  cases same
  have bound := bindUids_rebinds {s with
    epochParams:=update s.epochParams epoch (some params)
    epochMiners:=update s.epochMiners epoch (some miners)
    epochRoot:=update s.epochRoot epoch (some (cfg.mapRoot params miners))
    currentEpoch:=epoch} miners
  refine SameRegistry.trans bound.inside.registry ?_
  split
  · exact rfl
  · exact rfl

theorem dispatch_change (call : Call A N W) (ran : dispatch cfg s call = .ok t) : Change cfg s call t := by
  cases call with
  | registerChild =>
    obtain ⟨_,change⟩ := registerChild_ok ran
    exact .registers change
  | deregisterChild =>
    obtain ⟨reg,change,outside⟩ := deregisterChild_ok ran
    exact .retires change outside
  | forceDeregisterChild =>
    obtain ⟨reg,change,outside⟩ := forceDeregisterChild_ok ran
    exact .forces change outside
  | claimUnbonded =>
    obtain ⟨_,change⟩ := claimUnbonded_ok ran
    exact .claims change
  | deregisterFamily =>
    simp only [dispatch,deregisterFamily] at ran
    split at ran
    next unknown =>
      cases ran
      exact .absent unknown
    next active known =>
      simp only [bind_ok] at ran
      obtain ⟨_,loop,same⟩ := ran
      cases same
      exact .removes known loop
  | submitCrushMap => exact .aside rfl (submitCrushMap_registry ran)
  | submitMinerStats _ _ updates =>
    simp only [dispatch,submitMinerStats,passes] at ran
    obtain ⟨_,_,same⟩ := ran
    cases same
    exact .aside rfl ((foldl_inside (recordStats_inside _) updates s).registry.trans rfl)
  | onInitialize now =>
    cases ran
    exact .aside rfl (onInitialize_registry cfg s now)
  | settleMinerPayments =>
    cases ran
    exact .aside rfl (settle_registry cfg s s.blockNumber)
  | pruneStaleMinerStats =>
    cases ran
    exact .aside rfl (prune_inside cfg s).registry
  | _ =>
    obtain ⟨_,_,_,_,_,_,⟨_,_,_,_,_,rfl⟩,rfl⟩ := dispatch_tunes rfl ran
    exact .aside rfl rfl

end TheBrain.Arion
