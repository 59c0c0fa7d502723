import TheBrain.Arion.Rebinding

namespace TheBrain.Arion
open Library Machine Words PaymentMath Function List

variable {A N W : Type}
variable {cfg : Config A N W} {s t u : State A N W}

theorem earned_le_credit (s : State A N W) (price tokenPrice now : Nat)
    (entry : A × ChildRegistration A N) :
    earned s price tokenPrice now entry ≤ tokensFor (credit s entry.1 now) price tokenPrice := by
  unfold earned
  cases settles : settledUid s entry with
  | none => exact Nat.zero_le _
  | some =>
    rw [credit,settledUid_bound settles]
    exact le_rfl

variable [DecidableEq A]

theorem unregistered_unbound (linked : UidsLinked s) (fresh : s.childRegistrations.lookup child = none) :
    s.childMinerUid child = none := by
  cases held : s.childMinerUid child with
  | none => rfl
  | some uid =>
    obtain ⟨_,found,_⟩ := linked.bound child uid held
    rw [fresh] at found
    cases found

theorem dropFromFamily_sameUids (s : State A N W) (family child : A) : SameUids s (dropFromFamily s family child) := by
  simp only [dropFromFamily]
  split
  · unfold cleanupFamilyWhenNoActiveChildren
    split <;> exact ⟨rfl,rfl,rfl,rfl,rfl,rfl⟩
  · exact ⟨rfl,rfl,rfl,rfl,rfl,rfl⟩

theorem clear_registry (s : State A N W) (child : A) :
    (clearMinerUidAndStatsForChild s child).nodeIdToChild = s.nodeIdToChild ∧
      (clearMinerUidAndStatsForChild s child).childRegistrations = s.childRegistrations := by
  obtain ⟨_,_,_,_,_,same⟩ := clear_rebinds s child
  rw [same]
  exact ⟨rfl,rfl⟩

theorem submitMinerStats_keeps (ran : submitMinerStats cfg s origin bucket updates = .ok t)
    (linked : UidsLinked s) : Keeps s.blockNumber safe s t := by
  simp only [submitMinerStats,passes] at ran
  obtain ⟨_,_,same⟩ := ran
  cases same
  have recorded : Keeps s.blockNumber safe s _ := foldl_keeps (Keeps s.blockNumber safe s)
    (fun _ update => Keeps.before (recordStats_keeps update)) updates (.refl linked)
  exact recorded.trans (SameUids.keeps ⟨rfl,rfl,rfl,rfl,rfl,rfl⟩ recorded.linked)

variable [DecidableEq N]

theorem enrol_linked (family : A) (nodeId : N) (deposit : Nat) (linked : UidsLinked s)
    (fresh : s.childRegistrations.lookup child = none) : UidsLinked (enrol s family child nodeId deposit) := by
  have registered : ∀ other reg, s.childRegistrations.lookup other = some reg →
      (enrol s family child nodeId deposit).childRegistrations.lookup other = some reg := by
    intro other reg found
    have apart : other ≠ child := by
      intro same
      rw [same,fresh] at found
      cases found
    exact (AList.lookup_insert_ne apart).trans found
  refine ⟨linked.forward,linked.backward,?_,?_,linked.claimed⟩
  · intro other uid held
    obtain ⟨reg,found,active⟩ := linked.bound other uid held
    exact ⟨reg,registered other reg found,active⟩
  · intro node other leads
    change update s.nodeIdToChild nodeId (some child) node = some other at leads
    rw [update_apply] at leads
    split at leads
    next same =>
      cases leads
      exact ⟨_,AList.lookup_insert _,rfl,same.symm⟩
    · obtain ⟨reg,found,active⟩ := linked.nodes node other leads
      exact ⟨reg,registered other reg found,active⟩

theorem bindListedUid_cases (s : State A N W) (child : A) (nodeId : N) :
    bindListedUid s child nodeId = s ∨
      ∃ uid, s.minerUidToChild uid = none ∧ Installed s (bindListedUid s child nodeId) child uid := by
  unfold bindListedUid
  cases findUidForNodeInEpoch s s.currentEpoch nodeId with
  | none => exact .inl rfl
  | some uid =>
    dsimp only
    split
    · exact .inl rfl
    · next free => exact .inr ⟨uid,not_not.mp free,⟨rfl,rfl,rfl,rfl⟩,rfl,rfl⟩

theorem registerChild_uids (ran : registerChild cfg s origin family child nodeId nodeSig = .ok t) :
    ∃ paid deposit, SameUids s paid ∧ s.childRegistrations.lookup child = none ∧
      SameUids (bindListedUid (enrol paid family child nodeId deposit) child nodeId) t := by
  simp only [registerChild,passes] at ran
  obtain ⟨admitted,⟨paid,deposit⟩,deposited,_,counts,same⟩ := ran
  cases same
  simp only [admitChild,passes] at admitted
  obtain ⟨_,_,_,_,_,_,_,fresh,_⟩ := admitted
  simp only [countChild,passes] at counts
  obtain ⟨_,same⟩ := counts
  cases same
  have taken : SameUids s paid := by
    obtain ⟨_,_,⟨_,_,_,_,_,rfl⟩,_,rfl,_⟩ := takeDeposit_parts deposited
    exact ⟨rfl,rfl,rfl,rfl,rfl,rfl⟩
  generalize advanced : advanceFeeCurve cfg _ family = last
  have quotes := advanced ▸ advanceFeeCurve_quotes cfg _ family
  obtain ⟨_,_,_,_,_,rfl⟩ := quotes
  exact ⟨paid,deposit,taken,Option.isNone_iff_eq_none.mp fresh,⟨rfl,rfl,rfl,rfl,rfl,rfl⟩⟩

theorem registerChild_keeps (ran : registerChild cfg s origin family child nodeId nodeSig = .ok t)
    (linked : UidsLinked s) : Keeps now safe s t := by
  obtain ⟨paid,deposit,taken,fresh,advanced⟩ := registerChild_uids ran
  have still : Keeps now safe s paid := taken.keeps linked
  have unregistered : paid.childRegistrations.lookup child = none := by rw [taken.childRegistrations,fresh]
  have enrolled : Keeps now safe s (enrol paid family child nodeId deposit) :=
    still.trans ⟨enrol_linked family nodeId deposit still.linked unregistered,fun _ claimed => claimed,fun _ _ _ => le_rfl⟩
  suffices bound : Keeps now safe s (bindListedUid (enrol paid family child nodeId deposit) child nodeId) from
    bound.trans (advanced.keeps bound.linked)
  rcases bindListedUid_cases (enrol paid family child nodeId deposit) child nodeId with same | ⟨_,free,installed⟩
  · rw [same]
    exact enrolled
  · have unbound := unregistered_unbound still.linked unregistered
    exact enrolled.trans (installed.keeps enrolled.linked unbound free ⟨_,AList.lookup_insert _,rfl⟩)

theorem node_released (linked : UidsLinked s) (found : s.childRegistrations.lookup child = some reg)
    (leads : update s.nodeIdToChild reg.nodeId none nodeId = some other) :
    other ≠ child ∧ s.nodeIdToChild nodeId = some other := by
  rw [update_apply] at leads
  split at leads
  · cases leads
  next apart =>
    refine ⟨?_,leads⟩
    intro same
    obtain ⟨_,found',_,node⟩ := linked.nodes nodeId other leads
    rw [same,found] at found'
    cases found'
    exact apart node.symm

theorem retireChild_unregistered (cfg : Config A N W) (linked : UidsLinked s)
    (found : s.childRegistrations.lookup child = some reg) :
    Unregistered (clearMinerUidAndStatsForChild s child) (retireChild cfg s child reg) child := by
  obtain ⟨nodes,registrations⟩ := clear_registry s child
  simp only [retireChild]
  generalize clearMinerUidAndStatsForChild s child = t at *
  have dropped := dropFromFamily_sameUids {t with nodeIdToChild:=update t.nodeIdToChild reg.nodeId none} reg.family child
  generalize dropFromFamily {t with nodeIdToChild:=update t.nodeIdToChild reg.nodeId none} reg.family child = u at *
  refine {dropped with registrations:=?_,nodes:=?_}
  · intro other apart
    refine (AList.lookup_insert_ne apart).trans ?_
    rw [dropped.childRegistrations]
  · intro nodeId other leads
    rw [nodes]
    refine node_released linked found ?_
    rw [← nodes,← leads]
    exact congrFun dropped.nodeIdToChild.symm nodeId

theorem retireChild_keeps (cfg : Config A N W) (linked : UidsLinked s) (found : s.childRegistrations.lookup child = some reg) :
    Keeps now (LeavesNoAccrual s child) s (retireChild cfg s child reg) := by
  have cleared : Keeps now _ s _ := clear_keeps linked child
  exact cleared.trans ((retireChild_unregistered cfg linked found).keeps cleared.linked (clear_frees s child))

theorem deregisterChild_keeps (ran : deregisterChild cfg s origin child = .ok t) (linked : UidsLinked s) :
    Keeps now (LeavesNoAccrual s child) s t := by
  simp only [deregisterChild,passes] at ran
  obtain ⟨_,_,_,found,_,_,same⟩ := ran
  cases same
  exact retireChild_keeps cfg linked found

theorem forceDeregisterChild_keeps (ran : forceDeregisterChild cfg s origin child = .ok t) (linked : UidsLinked s) :
    Keeps now (LeavesNoAccrual s child) s t := by
  simp only [forceDeregisterChild,passes] at ran
  obtain ⟨_,_,_,_,_,_,found,_,_,unregisters,same⟩ := ran
  cases same
  obtain ⟨world,rfl,_⟩ := unregisterLastFamily_parts unregisters
  have same : SameUids s {s with world:=world} := ⟨rfl,rfl,rfl,rfl,rfl,rfl⟩
  have moves : Keeps now (LeavesNoAccrual s child) s {s with world:=world} := same.keeps linked
  exact moves.trans (retireChild_keeps cfg moves.linked found)

section
omit [DecidableEq N]

theorem unbonding_unbound (linked : UidsLinked s) (found : s.childRegistrations.lookup child = some reg)
    (unbonding : reg.status = .unbonding) : s.childMinerUid child = none := by
  cases held : s.childMinerUid child with
  | none => rfl
  | some uid =>
    obtain ⟨_,found',active⟩ := linked.bound child uid held
    rw [found] at found'
    cases found'
    rw [unbonding] at active
    cases active

theorem claimUnbonded_unregistered (ran : claimUnbonded cfg s origin child = .ok t) (linked : UidsLinked s) :
    s.childMinerUid child = none ∧ Unregistered s t child := by
  simp only [claimUnbonded,passes] at ran
  obtain ⟨_,_,_,found,_,unbonding,_,_,releases,same⟩ := ran
  cases same
  obtain ⟨world,rfl,_⟩ := releaseDeposit_parts releases
  have unbound := unbonding_unbound linked found unbonding
  rw [clear_unbound (s := {s with world:=world}) unbound]
  refine ⟨unbound,rfl,rfl,rfl,rfl,fun other apart => AList.lookup_erase_ne apart,?_⟩
  intro nodeId other leads
  refine ⟨?_,leads⟩
  intro same
  obtain ⟨_,found',active,_⟩ := linked.nodes nodeId other leads
  rw [same,found] at found'
  cases found'
  rw [unbonding] at active
  cases active

theorem claimUnbonded_keeps (ran : claimUnbonded cfg s origin child = .ok t) (linked : UidsLinked s) : Keeps now safe s t := by
  obtain ⟨unbound,gone⟩ := claimUnbonded_unregistered ran linked
  exact gone.keeps linked unbound

end

theorem shrunk_linked (linked : UidsLinked s) (found : s.childRegistrations.lookup child = some reg) :
    UidsLinked {s with nodeIdToChild:=update s.nodeIdToChild reg.nodeId none} := by
  refine {linked with nodes:=?_}
  intro nodeId other leads
  exact linked.nodes nodeId other (node_released linked found leads).2

theorem removeMiner_unregistered (ran : removeMiner cfg family s miner = .ok t) (linked : UidsLinked s) :
    ∃ reg prepared, s.childRegistrations.lookup miner = some reg ∧
      SameUids {s with nodeIdToChild:=update s.nodeIdToChild reg.nodeId none} prepared ∧
      Unregistered (clearMinerUidAndStatsForChild prepared miner) t miner := by
  simp only [removeMiner,passes] at ran
  obtain ⟨reg,found,_,releases,same⟩ := ran
  cases same
  obtain ⟨_,rfl,_⟩ := releaseDeposit_parts releases
  refine ⟨reg,_,found,?_,rfl,rfl,rfl,rfl,fun other apart => AList.lookup_erase_ne apart,?_⟩
  · exact ⟨rfl,rfl,rfl,rfl,rfl,rfl⟩
  · intro nodeId other leads
    refine ⟨?_,leads⟩
    rw [(clear_registry _ miner).1] at leads
    exact (node_released linked found leads).1

theorem removeMiner_keeps (ran : removeMiner cfg family s miner = .ok t) (linked : UidsLinked s) :
    Keeps now (LeavesNoAccrual s miner) s t ∧ ∀ other, LeavesNoAccrual s other → LeavesNoAccrual t other := by
  obtain ⟨reg,prepared,found,same,gone⟩ := removeMiner_unregistered ran linked
  have shrunk : Keeps now (LeavesNoAccrual s miner) s {s with nodeIdToChild:=update s.nodeIdToChild reg.nodeId none} :=
    ⟨shrunk_linked linked found,fun _ claimed => claimed,fun _ _ _ => le_rfl⟩
  have ready := shrunk.trans (same.keeps shrunk.linked)
  have carries : ∀ other, LeavesNoAccrual s other → LeavesNoAccrual prepared other := by
    intro other kept
    unfold LeavesNoAccrual
    rw [same.childMinerUid,same.minerAccruals]
    exact kept
  have cleared := ready.trans ((clear_keeps ready.linked miner).mono (carries miner))
  refine ⟨cleared.trans (gone.keeps cleared.linked (clear_frees prepared miner)),?_⟩
  intro other kept
  have left : LeavesNoAccrual (clearMinerUidAndStatsForChild prepared miner) other := clear_leaves ready.linked (carries other kept)
  unfold LeavesNoAccrual
  rw [gone.childMinerUid,gone.minerAccruals]
  exact left

theorem removeMiners_keeps (miners : List A) (linked : UidsLinked s) (ran : miners.foldlM (removeMiner cfg family) s = .ok t) :
    Keeps now (∀ miner ∈ miners, LeavesNoAccrual s miner) s t := by
  induction miners generalizing s with
  | nil =>
    cases ran
    exact .refl linked
  | cons miner _ ih =>
    simp only [foldlM_cons,bind_ok] at ran
    obtain ⟨next,removed,rest⟩ := ran
    obtain ⟨first,carries⟩ := removeMiner_keeps removed linked
    refine (first.mono fun leaves => leaves miner mem_cons_self).trans ((ih first.linked rest).mono ?_)
    intro leaves other mem
    exact carries other (leaves other (mem_cons_of_mem _ mem))

theorem deregisterFamily_keeps (ran : deregisterFamily cfg s family = .ok t) (linked : UidsLinked s) :
    Keeps now (∀ child ∈ s.familyChildren family, LeavesNoAccrual s child) s t := by
  unfold deregisterFamily at ran
  cases counted : s.familyActiveChildren family with
  | none =>
    rw [counted] at ran
    cases ran
    exact .refl linked
  | some =>
    rw [counted] at ran
    simp only [bind_ok] at ran
    obtain ⟨_,removes,same⟩ := ran
    cases same
    have emptied : SameUids s {s with familyChildren:=update s.familyChildren family []} := ⟨rfl,rfl,rfl,rfl,rfl,rfl⟩
    have first : Keeps now (∀ child ∈ s.familyChildren family, LeavesNoAccrual s child) s _ := emptied.keeps linked
    have loop := first.trans (removeMiners_keeps _ first.linked removes)
    exact loop.trans (SameUids.keeps ⟨rfl,rfl,rfl,rfl,rfl,rfl⟩ loop.linked)

theorem submitCrushMap_uids (ran : submitCrushMap cfg s origin epoch params miners = .ok t) :
    (miners.map MinerRecord.uid).IsChain (· < ·) ∧ (miners.map MinerRecord.nodeId).Nodup ∧
      ∃ published, SameUids s published ∧ published.blockNumber = s.blockNumber ∧
        SameUids (bindUidsFromCrushMap published miners) t := by
  simp only [submitCrushMap,passes] at ran
  obtain ⟨_,_,_,ascending,nodes,_,same⟩ := ran
  cases same
  have published : SameUids s {s with
      epochParams:=update s.epochParams epoch (some params)
      epochMiners:=update s.epochMiners epoch (some miners)
      epochRoot:=update s.epochRoot epoch (some (cfg.mapRoot params miners))
      currentEpoch:=epoch} := ⟨rfl,rfl,rfl,rfl,rfl,rfl⟩
  refine ⟨ascending,nodes,_,published,rfl,?_⟩
  split <;> exact ⟨rfl,rfl,rfl,rfl,rfl,rfl⟩

theorem submitCrushMap_rebound (ran : submitCrushMap cfg s origin epoch params miners = .ok t) (linked : UidsLinked s) :
    Rebound s.blockNumber (desiredUids s miners) s t := by
  obtain ⟨ascending,nodes,published,first,block,last⟩ := submitCrushMap_uids ran
  have rebound := bindUids_rebound miners (first.linked linked) ascending nodes
  have desired : desiredUids published miners = desiredUids s miners := by
    unfold desiredUids
    rw [first.nodeIdToChild]
  rw [block,desired] at rebound
  constructor
  case linked => exact last.linked rebound.linked
  case claimed => exact fun claimed => last.claimed (rebound.claimed (first.claimed claimed))
  case lower =>
    intro child
    rw [last.credit,← first.credit]
    exact rebound.lower child
  case holds =>
    rw [last.childMinerUid]
    exact rebound.holds
  case keeps =>
    intro want mem
    rw [last.credit,rebound.keeps want mem,first.credit]
  case loses =>
    rw [last.childMinerUid,← first.childMinerUid]
    exact rebound.loses

theorem submitCrushMap_keeps (ran : submitCrushMap cfg s origin epoch params miners = .ok t) (linked : UidsLinked s) :
    Keeps s.blockNumber safe s t := by
  have rebound := submitCrushMap_rebound ran linked
  exact ⟨rebound.linked,fun _ => rebound.claimed,fun _ _ => rebound.lower⟩

theorem onInitialize_keeps (cfg : Config A N W) (now : Nat) (linked : UidsLinked s) :
    Keeps now safe s (onInitialize cfg s now) := by
  refine onInitialize_parts cfg (Keeps now safe s) now ?_ ?_ (SameUids.keeps ⟨rfl,rfl,rfl,rfl,rfl,rfl⟩ linked)
  · exact fun t => Keeps.before (pruneStaleMinerStats_keeps cfg)
  · exact fun t => Keeps.before (settleMinerPayments_keeps cfg)

-- No deregistration removes a child that holds uid 0 while uid 0 has an accrual.
def ForfeitsUidZero (s : State A N W) : Call A N W → Prop
  | .deregisterChild _ child => LeavesNoAccrual s child
  | .forceDeregisterChild _ child => LeavesNoAccrual s child
  | .deregisterFamily family => ∀ child ∈ s.familyChildren family, LeavesNoAccrual s child
  | _ => True

instance (s : State A N W) : DecidablePred (ForfeitsUidZero s) := fun call => by
  cases call <;> dsimp only [ForfeitsUidZero] <;> infer_instance

def blockOf (s : State A N W) : Call A N W → Nat
  | .onInitialize now => now
  | _ => s.blockNumber

theorem dispatch_same (tuning : tunes call = true) (ran : dispatch cfg s call = .ok t) : SameUids s t := by
  obtain ⟨_,_,_,_,_,_,⟨_,_,_,_,_,rfl⟩,rfl⟩ := dispatch_tunes tuning ran
  exact ⟨rfl,rfl,rfl,rfl,rfl,rfl⟩

theorem dispatch_keeps (call : Call A N W) (ran : dispatch cfg s call = .ok t)
    (linked : UidsLinked s) : Keeps (blockOf s call) (ForfeitsUidZero s call) s t := by
  cases call with
  | registerChild => exact registerChild_keeps ran linked
  | deregisterChild => exact deregisterChild_keeps ran linked
  | forceDeregisterChild => exact forceDeregisterChild_keeps ran linked
  | claimUnbonded => exact claimUnbonded_keeps ran linked
  | deregisterFamily => exact deregisterFamily_keeps ran linked
  | submitCrushMap => exact submitCrushMap_keeps ran linked
  | submitMinerStats => exact submitMinerStats_keeps ran linked
  | onInitialize now =>
    cases ran
    exact onInitialize_keeps cfg now linked
  | settleMinerPayments =>
    cases ran
    exact settleMinerPayments_keeps cfg linked
  | pruneStaleMinerStats =>
    cases ran
    exact pruneStaleMinerStats_keeps cfg linked
  | _ => exact (dispatch_same rfl ran).keeps linked

theorem step_keeps (call : Call A N W) (linked : UidsLinked s) :
    Keeps (blockOf s call) (ForfeitsUidZero s call) s (step cfg s call) :=
  commit_inv (Keeps (blockOf s call) (ForfeitsUidZero s call) s) (.refl linked) fun _ ran => dispatch_keeps call ran linked

def KeepsCredit (cfg : Config A N W) (s : State A N W) (call : Call A N W) : Prop :=
  ∀ child, credit (step cfg s call) child (blockOf s call) ≤ credit s child (blockOf s call)

theorem accruals_claimed (cfg : Config A N W) (world : W) (calls : List (Call A N W))
    (forfeits : Throughout (step cfg) ForfeitsUidZero (genesis world) calls) :
    let s := run (step cfg) (genesis world) calls
    (∀ uid, s.minerAccruals uid ≠ none → s.minerUidToChild uid ≠ none) ∧
      Throughout (step cfg) (KeepsCredit cfg) (genesis world) calls ∧
      ∀ price tokenPrice now entry, earned s price tokenPrice now entry ≤ tokensFor (credit s entry.1 now) price tokenPrice := by
  let inv (s : State A N W) := UidsLinked s ∧ AllClaimed s
  have start : inv (genesis world) := ⟨genesis_linked world,fun _ accruing => absurd rfl accruing⟩
  have preserved : ∀ s call, inv s → ForfeitsUidZero s call → inv (step cfg s call) := by
    rintro s call ⟨linked,claimed⟩ safe
    exact ⟨(step_keeps call linked).linked,(step_keeps call linked).claimed safe claimed⟩
  refine ⟨(run_invariant inv preserved start forfeits).2,?_,?_⟩
  · refine throughout_of_invariant inv preserved ?_ start forfeits
    rintro s call ⟨linked,claimed⟩ safe
    exact (step_keeps call linked).credit safe claimed
  · intro price tokenPrice now entry
    exact earned_le_credit _ price tokenPrice now entry

def accruedOnUidZero : List (Call Nat Nat Nat) :=
  [ .submitCrushMap .root 1 ⟨1,1,1⟩ [⟨0,31,1,1,[],[]⟩],
    .registerChild (.signed 1) 1 21 31 [],
    .submitMinerStats .root 1 [(0,⟨100⟩)],
    .onInitialize 10,
    .submitMinerStats .root 2 [(0,⟨100⟩)]]

theorem accruals_claimed_uid_zero :
    credit (run (step plainConfig) (genesis 5) accruedOnUidZero) 21 10 = 1000 ∧
      Throughout (step plainConfig) (KeepsCredit plainConfig) (genesis 5) accruedOnUidZero :=
  ⟨by decide +kernel,(accruals_claimed plainConfig 5 accruedOnUidZero (by decide +kernel)).2.1⟩

-- Deregistering the child leaves the accrual of uid 0 to nobody. Child 22 then registers
-- the node listed there, and the next map carries the byte-blocks over to its new uid.
def inheritedFromUidZero : List (Call Nat Nat Nat) :=
  [ .submitCrushMap .root 2 ⟨1,1,1⟩ [⟨0,32,1,2,[],[]⟩],
    .registerChild (.signed 2) 2 22 32 [],
    .submitCrushMap .root 3 ⟨1,1,1⟩ [⟨5,32,1,2,[],[]⟩]]

theorem accrual_left_unclaimed :
    let left := run (step plainConfig) (genesis 5) (accruedOnUidZero ++ [.deregisterChild (.signed 1) 21])
    let inherited := run (step plainConfig) left inheritedFromUidZero
    left.minerAccruals 0 ≠ none ∧ left.minerUidToChild 0 = none ∧
      credit left 22 10 = 0 ∧ inherited.childMinerUid 22 = some 5 ∧ credit inherited 22 10 = 1000 := by
  decide +kernel

theorem run_linked (cfg : Config A N W) (world : W) (calls : List (Call A N W)) :
    UidsLinked (run (step cfg) (genesis world) calls) := by
  refine run_always UidsLinked ?_ (genesis_linked world)
  intro s call linked
  exact (step_keeps call linked).linked

-- The two maps are inverse to each other in every state. An accepted map binds every
-- registered node to its uid, moves the byte-blocks of its child along, and takes the uid
-- from a child that it does not list.
theorem uids_follow_map (cfg : Config A N W) (world : W) (calls : List (Call A N W)) :
    let s := run (step cfg) (genesis world) calls
    (∀ child uid, s.childMinerUid child = some uid ↔ s.minerUidToChild uid = some child) ∧
    ∀ origin epoch params miners t, dispatch cfg s (.submitCrushMap origin epoch params miners) = .ok t →
      (∀ miner ∈ miners, miner.uid ≠ 0 → ∀ child, s.nodeIdToChild miner.nodeId = some child →
        t.childMinerUid child = some miner.uid ∧ t.minerUidToChild miner.uid = some child ∧
          credit t child s.blockNumber = credit s child s.blockNumber) ∧
      (∀ miner ∈ miners, miner.uid ≠ 0 → s.nodeIdToChild miner.nodeId ≠ none → ∀ child,
        (∀ other ∈ miners, other.uid ≠ 0 → s.nodeIdToChild other.nodeId ≠ some child) →
        s.childMinerUid child = some miner.uid → t.childMinerUid child = none) := by
  intro s
  have linked : UidsLinked s := run_linked cfg world calls
  refine ⟨fun child uid => ⟨linked.forward child uid,linked.backward uid child⟩,?_⟩
  intro origin epoch params miners t ran
  have rebound := submitCrushMap_rebound ran linked
  refine ⟨?_,?_⟩
  · intro miner listed nonzero child leads
    have wanted : (child,miner.uid) ∈ desiredUids s miners := mem_desiredUids.mpr ⟨miner,listed,nonzero,leads,rfl⟩
    have holds := rebound.holds _ wanted
    exact ⟨holds,rebound.linked.forward child miner.uid holds,rebound.keeps _ wanted⟩
  · intro miner listed nonzero registered child unlisted held
    obtain ⟨owner,leads⟩ := Option.ne_none_iff_exists'.mp registered
    have wanted : (owner,miner.uid) ∈ desiredUids s miners := mem_desiredUids.mpr ⟨miner,listed,nonzero,leads,rfl⟩
    refine rebound.loses _ wanted child ?_ held
    rintro other mem same
    obtain ⟨record,found,positive,owns,_⟩ := mem_desiredUids.mp mem
    exact unlisted record found positive (same ▸ owns)

def exchangedUids : List (Call Nat Nat Nat) :=
  [ .registerChild (.signed 1) 1 21 31 [],
    .registerChild (.signed 1) 1 22 32 [],
    .submitCrushMap .root 1 ⟨1,1,1⟩ [⟨5,31,1,1,[],[]⟩,⟨6,32,1,1,[],[]⟩],
    .submitMinerStats .root 1 [(5,⟨100⟩)],
    .onInitialize 10]

theorem uids_follow_map_exchange :
    let s := run (step plainConfig) (genesis 5) exchangedUids
    ∃ t, dispatch plainConfig s (.submitCrushMap .root 2 ⟨1,1,1⟩ [⟨5,32,1,1,[],[]⟩,⟨6,31,1,1,[],[]⟩]) = .ok t ∧
      t.childMinerUid 21 = some 6 ∧ credit t 21 10 = 1000 := by
  intro s
  have follows := (uids_follow_map plainConfig 5 exchangedUids).2 .root 2 ⟨1,1,1⟩ [⟨5,32,1,1,[],[]⟩,⟨6,31,1,1,[],[]⟩]
  have accepts : (dispatch plainConfig s (.submitCrushMap .root 2 ⟨1,1,1⟩ [⟨5,32,1,1,[],[]⟩,⟨6,31,1,1,[],[]⟩])).isOk = true := by
    decide +kernel
  cases result : dispatch plainConfig s (.submitCrushMap .root 2 ⟨1,1,1⟩ [⟨5,32,1,1,[],[]⟩,⟨6,31,1,1,[],[]⟩]) with
  | error e =>
    rw [result] at accepts
    cases accepts
  | ok t =>
    obtain ⟨holds,_,keeps⟩ := (follows t result).1 ⟨6,31,1,1,[],[]⟩ (.tail _ (.head _)) (by decide) 21 (by decide +kernel)
    have before : credit s 21 10 = 1000 := by decide +kernel
    have block : s.blockNumber = 10 := by decide +kernel
    change credit t 21 s.blockNumber = credit s 21 s.blockNumber at keeps
    rw [block] at keeps
    exact ⟨t,rfl,holds,keeps.trans before⟩

end TheBrain.Arion
