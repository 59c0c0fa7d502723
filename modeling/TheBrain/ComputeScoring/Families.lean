import TheBrain.ComputeScoring.Specs
import TheBrain.Library.Groups

namespace TheBrain.ComputeScoring
open Library Machine Words Function

structure Roster (A H : Type) where
  registrations : StorageMap A (ChildRegistration A H)
  nodes : H → Option A
  nonces : H → Nat
  children : A → List A
  total : Nat
  count : Nat

structure Ledger (A : Type) where
  staked : A → Nat
  unbonding : A → Option (Nat × Nat)
  slashed : A → Nat

def rosterOf (registry : Registry A H) : Roster A H where
  registrations := registry.childRegistrations
  nodes := registry.nodeIdToChild
  nonces := registry.nodeIdNonce
  children := registry.familyChildren
  total := registry.totalActiveChildren
  count := registry.familyCount

def ledgerOf (stakes : Stakes A) : Ledger A where
  staked := stakes.stakedAmount
  unbonding := stakes.stakeUnbonding
  slashed := stakes.slashRecord

structure Unmoved (s t : State A H W) : Prop where
  roster : rosterOf t.registry = rosterOf s.registry := by rfl
  ledger : ledgerOf t.stakes = ledgerOf s.stakes := by rfl
  world : t.world = s.world := by rfl

section
variable {A H W : Type}
variable {cfg : Config A H W} {s t u : State A H W}

theorem releaseDeposit_ok (ran : releaseDeposit cfg s reg = .ok world) : Releases cfg reg.family reg.deposit s.world world := by
  unfold releaseDeposit at ran
  split at ran
  next free =>
    cases ran
    exact .inl ⟨free,rfl⟩
  · dsimp only at ran
    split at ran
    next whole =>
      cases ran
      exact .inr (Prod.ext rfl whole)
    · cases ran

variable [DecidableEq A]

structure Claims (cfg : Config A H W) (child : A) (reg : ChildRegistration A H)
    (s t : State A H W) : Prop where
  found : s.registry.childRegistrations.lookup child = some reg
  status : reg.status = .unbonding
  releases : Releases cfg reg.family reg.deposit s.world t.world
  roster : rosterOf t.registry = {rosterOf s.registry with registrations:=s.registry.childRegistrations.erase child}
  ledger : ledgerOf t.stakes = ledgerOf s.stakes

theorem claimUnbonded_claims (ran : claimUnbonded cfg s origin child = .ok t) : ∃ reg, Claims cfg child reg s t := by
  simp only [claimUnbonded,passes] at ran
  obtain ⟨_,_,reg,found,_,status,_,_,released,rfl⟩ := ran
  exact ⟨reg,found,status,releaseDeposit_ok released,rfl,rfl⟩

structure TopsUp (cfg : Config A H W) (who : A) (amount : Nat) (s t : State A H W) : Prop where
  reserves : cfg.reserveNamed s.world .stake who amount = some t.world
  roster : rosterOf t.registry = rosterOf s.registry
  ledger : ledgerOf t.stakes = {ledgerOf s.stakes with
    staked:=update s.stakes.stakedAmount who (saturatingAdd 128 (s.stakes.stakedAmount who) amount)}

theorem topUpStake_ok (ran : topUpStake cfg s origin amount = .ok t) : ∃ who, TopsUp cfg who amount s t := by
  simp only [topUpStake,passes] at ran
  obtain ⟨who,_,_,_,reserved,rfl⟩ := ran
  exact ⟨who,reserved,rfl,rfl⟩

structure Withdraws (cfg : Config A H W) (who : A) (chunk : Nat × Nat)
    (s t : State A H W) : Prop where
  found : s.stakes.stakeUnbonding who = some chunk
  releases : cfg.unreserveNamed s.world .stake who chunk.1 = (t.world,0)
  roster : rosterOf t.registry = rosterOf s.registry
  ledger : ledgerOf t.stakes = {ledgerOf s.stakes with unbonding:=update s.stakes.stakeUnbonding who none}

theorem claimUnstaked_ok (ran : claimUnstaked cfg s origin = .ok t) : ∃ who chunk, Withdraws cfg who chunk s t := by
  simp only [claimUnstaked,passes] at ran
  obtain ⟨who,_,chunk,found,_,whole,rfl⟩ := ran
  exact ⟨who,chunk,found,Prod.ext rfl whole,rfl,rfl⟩

def slashedChunk (chunk : Option (Nat × Nat)) (fromUnbond : Nat) : Option (Nat × Nat) :=
  if fromUnbond = 0 then chunk
  else chunk.bind fun chunk => if chunk.1 - fromUnbond = 0 then none else some (chunk.1 - fromUnbond,chunk.2)

def Ledger.slash (l : Ledger A) (owner : A) (slashed : Nat) : Ledger A where
  staked := update l.staked owner (l.staked owner - min slashed (l.staked owner))
  unbonding := update l.unbonding owner (slashedChunk (l.unbonding owner) (slashed - min slashed (l.staked owner)))
  slashed := update l.slashed owner (saturatingAdd 128 (l.slashed owner) slashed)

structure Slashes (cfg : Config A H W) (owner : A) (amount : Nat) (s t : State A H W) :
    Prop where
  bounded : amount ≤ saturatingAdd 128 (s.stakes.stakedAmount owner) (unbondingOf s owner)
  roster : rosterOf t.registry = rosterOf s.registry
  world : t.world = (takeStake cfg s owner amount).1
  ledger : (takeStake cfg s owner amount).2 = 0 ∧ ledgerOf t.stakes = ledgerOf s.stakes ∨
    ledgerOf t.stakes = (ledgerOf s.stakes).slash owner (takeStake cfg s owner amount).2

theorem doSlash_cases (cfg : Config A H W) (s : State A H W) (owner : A) (requested : Nat)
    (reason : SlashReason) :
    Unmoved s (doSlash cfg s owner requested reason) ∨ ∃ amount, Slashes cfg owner amount s (doSlash cfg s owner requested reason) := by
  unfold doSlash
  split
  · exact .inl {}
  dsimp only
  split
  · exact .inl {}
  split
  · next nothing => exact .inr ⟨_,Nat.min_le_right _ _,rfl,rfl,.inl ⟨nothing,rfl⟩⟩
  · exact .inr ⟨_,Nat.min_le_right _ _,rfl,rfl,.inr rfl⟩

variable [DecidableEq H]

def Roster.join (r : Roster A H) (family child : A) (nodeId : H) (deposit block : Nat) :
    Roster A H where
  registrations := r.registrations.insert child ⟨family,nodeId,.active,deposit,block⟩
  nodes := update r.nodes nodeId (some child)
  nonces := update r.nonces nodeId (saturatingAdd 64 (r.nonces nodeId) 1)
  children := update r.children family (r.children family ++ [child])
  total := saturatingAdd 32 r.total 1
  count := if (r.children family).length = 0 then saturatingAdd 32 r.count 1 else r.count

def Roster.leave (r : Roster A H) (child : A) (reg : ChildRegistration A H) (unbondingEnd : Nat) :
    Roster A H where
  registrations := r.registrations.insert child {reg with status:=.unbonding,unbondingEnd:=unbondingEnd}
  nodes := update r.nodes reg.nodeId none
  nonces := update r.nonces reg.nodeId (saturatingAdd 64 (r.nonces reg.nodeId) 1)
  children := update r.children reg.family (swapRemove (r.children reg.family) child)
  total := r.total - 1
  count := if swapRemove (r.children reg.family) child = [] then r.count - 1 else r.count

structure Registers (cfg : Config A H W) (family child : A) (nodeId : H) (deposit : Nat)
    (s t : State A H W) : Prop where
  fresh : s.registry.childRegistrations.lookup child = none
  unmapped : s.registry.nodeIdToChild nodeId = none
  room : s.registry.totalActiveChildren < cfg.maxChildrenTotal
  roomForFamily : familyChildCount s family ≠ 0 ∨ s.registry.familyCount < cfg.maxFamilies
  reserves : Reserves cfg family deposit s.world t.world
  roster : ∃ block, rosterOf t.registry = (rosterOf s.registry).join family child nodeId deposit block
  ledger : ledgerOf t.stakes = ledgerOf s.stakes

theorem registerChild_registers (ran : registerChild cfg s origin family child nodeId nodeSig = .ok t) :
    ∃ deposit, Registers cfg family child nodeId deposit s t := by
  obtain ⟨fresh,unmapped,room,roomForFamily,deposit,_,_,_,reserves,⟨_,_,_,_,_,rfl⟩,rfl⟩ := registerChild_parts ran
  exact ⟨deposit,fresh,unmapped,room,roomForFamily,reserves,⟨_,rfl⟩,rfl⟩

structure Retires (child : A) (reg : ChildRegistration A H) (s t : State A H W) : Prop where
  found : s.registry.childRegistrations.lookup child = some reg
  status : reg.status = .active
  roster : ∃ unbondingEnd, rosterOf t.registry = (rosterOf s.registry).leave child reg unbondingEnd
  ledger : ledgerOf t.stakes = ledgerOf s.stakes
  world : t.world = s.world

theorem doDeregisterChild_retires (ran : doDeregisterChild cfg s actor child force = .ok t) : ∃ reg, Retires child reg s t := by
  obtain ⟨reg,_,_,found,status,rfl⟩ := doDeregisterChild_parts ran
  rw [leaveFamily_eq]
  exact ⟨reg,found,status,⟨_,rfl⟩,rfl,rfl⟩

structure Closes (cfg : Config A H W) (s t : State A H W) : Prop where
  roster : rosterOf t.registry = rosterOf s.registry
  ledger : ledgerOf t.stakes = ledgerOf s.stakes
  rankings : ∃ epoch weights, t.world = cfg.pushRankings s.world epoch weights

theorem valiSubmitEpochClose_closes (ran : valiSubmitEpochClose cfg s origin epoch updates = .ok t) : Closes cfg s t := by
  obtain ⟨_,_,_,rfl⟩ := valiSubmitEpochClose_parts ran
  obtain ⟨_,_,_,swept⟩ := sweepEpochHistory_frame cfg (closeAll epoch updates s) epoch
  obtain ⟨_,_,closed⟩ := closeAll_transitions epoch updates s
  rw [swept,closed]
  exact ⟨rfl,rfl,_,_,rfl⟩

structure Unstakes (who : A) (amount : Nat) (s t : State A H W) : Prop where
  covered : amount ≤ s.stakes.stakedAmount who
  roster : rosterOf t.registry = rosterOf s.registry
  ledger : ∃ unbondingEnd, ledgerOf t.stakes = {ledgerOf s.stakes with
    staked:=update s.stakes.stakedAmount who (s.stakes.stakedAmount who - amount)
    unbonding:=update s.stakes.stakeUnbonding who (some (saturatingAdd 128 (unbondingOf s who) amount,unbondingEnd))}
  world : t.world = s.world

theorem quarantineOwner_unmoved (s : State A H W) (who : A) : Unmoved s (quarantineOwner s who) := by
  obtain ⟨_,_,same⟩ := quarantineOwner_transitions s who
  rw [same]
  exact {}

theorem requestUnstake_ok (ran : requestUnstake cfg s origin amount = .ok t) : ∃ who, Unstakes who amount.val s t := by
  simp only [requestUnstake,passes] at ran
  obtain ⟨who,_,_,covered,rfl⟩ := ran
  refine ⟨who,covered,?_,?_,?_⟩
  · exact (quarantineOwner_unmoved _ who).roster
  · exact ⟨_,(quarantineOwner_unmoved _ who).ledger⟩
  · exact (quarantineOwner_unmoved _ who).world

def enrols : Call A H W → Bool
  | .registerChild .. | .deregisterChild .. | .forceDeregisterChild .. | .claimUnbonded .. => true
  | _ => false

inductive Change (cfg : Config A H W) (s : State A H W) :
    Call A H W → State A H W → Prop where
  | registers (change : Registers cfg family child nodeId deposit s after) :
      Change cfg s (.registerChild origin family child nodeId nodeSig) after
  | retires (change : Retires child reg s after) : Change cfg s (.deregisterChild origin child) after
  | forces (change : Retires child reg s after) : Change cfg s (.forceDeregisterChild origin child) after
  | claims (change : Claims cfg child reg s after) : Change cfg s (.claimUnbonded origin child) after
  | topsUp (change : TopsUp cfg who amount.val s after) : Change cfg s (.topUpStake origin amount) after
  | unstakes (change : Unstakes who amount.val s after) : Change cfg s (.requestUnstake origin amount) after
  | withdraws (change : Withdraws cfg who chunk s after) : Change cfg s (.claimUnstaked origin) after
  | slashes (change : Slashes cfg owner amount s after) : Change cfg s (.slashStake origin owner requested reason) after
  | closes (change : Closes cfg s after) : Change cfg s (.valiSubmitEpochClose origin epoch updates) after
  | outside (world : W) : Change cfg s (.elsewhere world) {s with world:=world}
  | aside (other : enrols call = false) (same : Unmoved s after) : Change cfg s call after

theorem dispatch_change (call : Call A H W) (ran : dispatch cfg s call = .ok t) : Change cfg s call t := by
  cases call with
  | registerChild =>
    obtain ⟨_,change⟩ := registerChild_registers ran
    exact .registers change
  | deregisterChild =>
    simp only [dispatch,deregisterChild,bind_ok] at ran
    obtain ⟨who,_,ran⟩ := ran
    obtain ⟨_,change⟩ := doDeregisterChild_retires ran
    exact .retires change
  | forceDeregisterChild =>
    simp only [dispatch,forceDeregisterChild,passes] at ran
    obtain ⟨who,_,_,_,ran⟩ := ran
    obtain ⟨_,change⟩ := doDeregisterChild_retires ran
    exact .forces change
  | claimUnbonded =>
    obtain ⟨_,change⟩ := claimUnbonded_claims ran
    exact .claims change
  | topUpStake =>
    obtain ⟨_,change⟩ := topUpStake_ok ran
    exact .topsUp change
  | requestUnstake =>
    obtain ⟨_,change⟩ := requestUnstake_ok ran
    exact .unstakes change
  | claimUnstaked =>
    obtain ⟨_,_,change⟩ := claimUnstaked_ok ran
    exact .withdraws change
  | slashStake _ owner amount reason =>
    simp only [dispatch,slashStake,passes] at ran
    obtain ⟨_,_,rfl⟩ := ran
    rcases doSlash_cases cfg s owner amount reason with same | ⟨_,change⟩
    · exact .aside rfl same
    · exact .slashes change
  | valiSubmitEpochClose => exact .closes (valiSubmitEpochClose_closes ran)
  | elsewhere world =>
    cases ran
    exact .outside world
  | nextBlock =>
    cases ran
    exact .aside rfl {}
  | submitAuditStats | setAuditVmPubkey | setKbsAttestationPubkey | removeKbsAttestationPubkey | submitLiveAttestation
  | setValiSubmitter | setAlphaPerUsd | announcePriceChange =>
    revert ran
    simp only [dispatch,submitAuditStats,setAuditVmPubkey,setKbsAttestationPubkey,removeKbsAttestationPubkey,submitLiveAttestation,setValiSubmitter,setAlphaPerUsd,announcePriceChange,passes,forall_exists_index,and_imp]
    intros
    subst_vars
    exact .aside rfl {}
  | applyPriceChange =>
    simp only [dispatch,applyPriceChange,passes] at ran
    obtain ⟨_,_,_,_,_,rfl⟩ := ran
    refine .aside rfl ?_
    simp only [settlePrice]
    split
    · exact {}
    · exact {}
  | setLockupEnabled | setBaseChildDeposit | setFreeChildSlotsPerFamily =>
    obtain ⟨_,rfl⟩ := setRegistry_ok ran
    exact .aside rfl {}
  | setStakeEnabled | setStakeUsdPerChild | setOracleGuards | setStakeFloor | setEmaPermille | setSlashingEnabled
  | setSlashBeneficiary =>
    obtain ⟨_,rfl⟩ := setStakes_ok ran
    exact .aside rfl {}
  | setPriceBounds | setPriceChangePolicy =>
    obtain ⟨_,rfl⟩ := setPrices_ok ran
    exact .aside rfl {}

open Groups List

section
omit [DecidableEq H]

theorem swapRemove_perm (children : List A) (child : A) : (swapRemove children child).Perm (children.erase child) := by
  unfold swapRemove
  by_cases mem : child ∈ children
  · rw [if_pos mem]
    rcases eq_nil_or_concat children with rfl | ⟨front,last,rfl⟩
    · exact .refl _
    · rw [concat_eq_append] at mem ⊢
      rw [getLast?_concat,dropLast_concat]
      dsimp only
      by_cases early : child ∈ front
      · rw [erase_append_left _ early]
        refine .trans ?_ (perm_append_singleton _ _).symm
        by_cases own : last = child
        · rw [if_pos own,own]
          exact perm_cons_erase early
        · rw [if_neg own]
          exact replace_perm child last front early
      · have own : last = child := (mem_singleton.mp ((mem_append.mp mem).resolve_left early)).symm
        rw [if_pos own,erase_append_right _ early,own,erase_cons_head,append_nil]
  · rw [if_neg mem,erase_of_not_mem mem]

def activeFor (reg : ChildRegistration A H) : Option A :=
  if reg.status = .active then some reg.family else none

def activeOn (reg : ChildRegistration A H) : Option H := if reg.status = .active then some reg.nodeId else none

structure RosterConsistent (cfg : Config A H W) (r : Roster A H) : Prop where
  kept : Kept activeFor activeOn r.registrations r.children r.nodes r.count r.total
  total : r.total ≤ cfg.maxChildrenTotal
  families : r.count ≤ cfg.maxFamilies

theorem genesis_roster (cfg : Config A H W) (world : W) :
    RosterConsistent cfg (rosterOf (genesis world : State A H W).registry) where
  kept := kept_empty activeFor activeOn
  total := Nat.zero_le _
  families := Nat.zero_le _

theorem unbonding_idle {rows : StorageMap A (ChildRegistration A H)} (found : rows.lookup child = some reg)
    (status : reg.status = .unbonding) (row : ChildRegistration A H) (held : rows.lookup child = some row) : row.status ≠ .active := by
  rw [found] at held
  cases held
  rw [status]
  exact nofun

theorem forget_consistent {r : Roster A H} (consistent : RosterConsistent cfg r)
    (found : r.registrations.lookup child = some reg) (status : reg.status = .unbonding) :
    RosterConsistent cfg {r with registrations:=r.registrations.erase child} := by
  obtain ⟨kept,total,families⟩ := consistent
  refine ⟨kept.forget (vacates_erase _ child _) (vacates_erase _ child _) ?_,total,families⟩
  intro row held
  have idle := unbonding_idle found status row held
  exact ⟨if_neg idle,if_neg idle⟩

end

theorem join_consistent (narrow : cfg.maxChildrenTotal < 2 ^ 32) {r : Roster A H} (consistent : RosterConsistent cfg r)
    (fresh : r.registrations.lookup child = none) (unmapped : r.nodes nodeId = none) (room : r.total < cfg.maxChildrenTotal)
    (roomForFamily : (r.children family).length ≠ 0 ∨ r.count < cfg.maxFamilies) :
    RosterConsistent cfg (r.join family child nodeId deposit block) := by
  obtain ⟨kept,total,families⟩ := consistent
  have groups := kept.counted.groups_le
  have totalled : saturatingAdd 32 r.total 1 = r.total + 1 := saturatingAdd_exact (by omega)
  have numbered : saturatingAdd 32 r.count 1 = r.count + 1 := saturatingAdd_exact (by omega)
  constructor
  case kept =>
    have joins := kept.join (v := ⟨family,nodeId,.active,deposit,block⟩) fresh unmapped (if_pos rfl) (if_pos rfl)
    simp only [← length_eq_zero_iff] at joins
    dsimp only [Roster.join]
    rw [totalled,numbered]
    exact joins
  case total =>
    dsimp only [Roster.join]
    omega
  case families =>
    dsimp only [Roster.join]
    split
    next empty =>
      have spare := roomForFamily.resolve_left (not_not.mpr empty)
      omega
    · exact families

theorem leave_consistent {r : Roster A H} (consistent : RosterConsistent cfg r)
    (found : r.registrations.lookup child = some reg) (status : reg.status = .active) :
    RosterConsistent cfg (r.leave child reg unbondingEnd) := by
  obtain ⟨kept,total,families⟩ := consistent
  constructor
  case kept =>
    exact kept.leave found (if_pos status) (if_pos status)
      (vacates_insert (w := {reg with status:=.unbonding,unbondingEnd:=unbondingEnd}) child _ rfl) (vacates_insert child _ rfl)
      (swapRemove_perm _ child)
  case total => exact (Nat.sub_le _ _).trans total
  case families =>
    dsimp only [Roster.leave]
    split
    · exact (Nat.sub_le _ _).trans families
    · exact families

-- A call moves the roster, if at all, by a child that joins, leaves or is forgotten.
theorem change_roster (inv : Roster A H → Prop)
    (join : ∀ {r family child nodeId deposit block}, inv r → r.registrations.lookup child = none → r.nodes nodeId = none →
      r.total < cfg.maxChildrenTotal → ((r.children family).length ≠ 0 ∨ r.count < cfg.maxFamilies) →
      inv (r.join family child nodeId deposit block))
    (leave : ∀ {r child reg unbondingEnd}, inv r → r.registrations.lookup child = some reg → reg.status = .active →
      inv (r.leave child reg unbondingEnd))
    (forget : ∀ {r child reg}, inv r → r.registrations.lookup child = some reg → reg.status = .unbonding →
      inv {r with registrations:=r.registrations.erase child})
    (change : Change cfg s call t) (before : inv (rosterOf s.registry)) : inv (rosterOf t.registry) := by
  cases change with
  | registers change =>
    obtain ⟨_,roster⟩ := change.roster
    rw [roster]
    exact join before change.fresh change.unmapped change.room change.roomForFamily
  | retires change | forces change =>
    obtain ⟨_,roster⟩ := change.roster
    rw [roster]
    exact leave before change.found change.status
  | claims change =>
    rw [change.roster]
    exact forget before change.found change.status
  | topsUp change | unstakes change | withdraws change | slashes change | closes change => exact change.roster ▸ before
  | outside => exact before
  | aside _ same => exact same.roster ▸ before

theorem step_consistent (narrow : cfg.maxChildrenTotal < 2 ^ 32) (call : Call A H W)
    (consistent : RosterConsistent cfg (rosterOf s.registry)) : RosterConsistent cfg (rosterOf (step cfg s call).registry) :=
  commit_inv (fun t => RosterConsistent cfg (rosterOf t.registry)) consistent
    fun _ ran => change_roster (RosterConsistent cfg) (join_consistent narrow) leave_consistent forget_consistent
      (dispatch_change call ran) consistent

theorem roster_consistent (cfg : Config A H W) (narrow : cfg.maxChildrenTotal < 2 ^ 32) (world : W)
    (calls : List (Call A H W)) :
    let r := (run (step cfg) (genesis world) calls).registry
    (∀ f, (r.familyChildren f).Nodup ∧ ∀ child, child ∈ r.familyChildren f ↔
      ∃ reg, r.childRegistrations.lookup child = some reg ∧ reg.status = .active ∧ reg.family = f) ∧
    (∃ present : List A, present.Nodup ∧ (∀ f, f ∈ present ↔ r.familyChildren f ≠ []) ∧
      r.familyCount = present.length ∧ r.totalActiveChildren = (present.map fun f => (r.familyChildren f).length).sum) ∧
    r.totalActiveChildren ≤ cfg.maxChildrenTotal ∧ r.familyCount ≤ cfg.maxFamilies ∧
    (∀ node child, r.nodeIdToChild node = some child ↔
      ∃ reg, r.childRegistrations.lookup child = some reg ∧ reg.status = .active ∧ reg.nodeId = node) ∧
    ∀ one two regOne regTwo, r.childRegistrations.lookup one = some regOne → r.childRegistrations.lookup two = some regTwo →
      regOne.status = .active → regTwo.status = .active → regOne.nodeId = regTwo.nodeId → one = two := by
  intro r
  have consistent : RosterConsistent cfg (rosterOf r) :=
    run_always (fun s : State A H W => RosterConsistent cfg (rosterOf s.registry)) (fun _ call => step_consistent narrow call)
      (genesis_roster cfg world)
  have named : ∀ node child, r.nodeIdToChild node = some child ↔
      ∃ reg, r.childRegistrations.lookup child = some reg ∧ reg.status = .active ∧ reg.nodeId = node := by
    intro node child
    have named := consistent.kept.named node child
    simp only [activeOn,Option.ite_none_right_eq_some,Option.some.injEq] at named
    exact named
  refine ⟨?_,consistent.kept.counted,consistent.total,consistent.families,named,?_⟩
  · intro f
    refine ⟨consistent.kept.listed.distinct f,?_⟩
    intro child
    have member := consistent.kept.listed.member f child
    simp only [activeFor,Option.ite_none_right_eq_some,Option.some.injEq] at member
    exact member
  · intro one two regOne regTwo foundOne foundTwo activeOne activeTwo same
    have holdsOne := (named regTwo.nodeId one).mpr ⟨regOne,foundOne,activeOne,same⟩
    have holdsTwo := (named regTwo.nodeId two).mpr ⟨regTwo,foundTwo,activeTwo,rfl⟩
    rw [holdsOne] at holdsTwo
    exact Option.some.inj holdsTwo

def nodeTakenOver : List (Call Nat Short Unit) :=
  [.registerChild (.signed 1) 1 11 (shorten [5]) [],.deregisterChild (.signed 1) 11,
   .registerChild (.signed 2) 2 21 (shorten [5]) []]

theorem roster_consistent_takenOver :
    (run (step plainConfig) (genesis ()) nodeTakenOver).registry.familyChildren 2 = [21] ∧
      (run (step plainConfig) (genesis ()) nodeTakenOver).registry.familyCount ≤ plainConfig.maxFamilies :=
  ⟨by decide +kernel,(roster_consistent plainConfig (by decide) () nodeTakenOver).2.2.2.1⟩

end
end TheBrain.ComputeScoring
