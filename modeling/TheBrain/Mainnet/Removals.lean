import TheBrain.Arion.Enrolment
import TheBrain.Arion.UidRuns
import TheBrain.Registration.Challenges
import TheBrain.Registration.Owners

namespace TheBrain.Mainnet.Removals
open Library Machine Words Function

structure Config (A H N W : Type) where
  registration : Registration.Config A H W
  arion : Arion.Config A N W

abbrev State (A H N W : Type) := Arion.State A N (Registration.State A H W)

def nodeTypeOf : Registration.NodeType → Arion.NodeType
  | .validator => .validator
  | .storageMiner => .storageMiner
  | .storageS3 => .storageS3
  | .computeMiner => .computeMiner
  | .gpuMiner => .gpuMiner

section
variable {A H N W : Type} [DecidableEq A] [DecidableEq H] [DecidableEq N]
variable (cfg : Config A H N W)

def arionConfig : Arion.Config A N (Registration.State A H W) :=
  {cfg.arion with
    isRegisteredFamily:=Registration.isOwnerNodeRegistered
    canRegisterChild:=fun s family child => child ∈ cfg.registration.delegates s.world family
    primaryAccount:=Registration.getPrimaryAccount cfg.registration
    registeredNodeType:=fun s owner =>
      (Registration.getRegisteredNodeForOwner s owner).map fun info => nodeTypeOf info.nodeType
    unregisterMainNode:=fun s owner =>
      (Registration.getRegisteredNodeForOwner s owner).elim s fun info =>
        Registration.doUnregisterMainNode cfg.registration s info.nodeId
    reserve:=fun s who amount => (cfg.arion.reserve s.world who amount).map fun world => {s with world:=world}
    unreserve:=fun s who amount =>
      let released := cfg.arion.unreserve s.world who amount
      ({s with world:=released.1},released.2)
    tokenPriceUsd:=fun s => cfg.arion.tokenPriceUsd s.world
    available:=fun s => cfg.arion.available s.world
    requestPayment:=fun s requester dest amount =>
      let paid := cfg.arion.requestPayment s.world requester dest amount
      ({s with world:=paid.1},paid.2)
    requestPayment_le:=fun s => cfg.arion.requestPayment_le s.world
    bond:=fun s family amount =>
      let bonded := cfg.arion.bond s.world family amount
      ({s with world:=bonded.1},bonded.2)}

end

inductive Call (A H N W : Type) where
  | registration (call : Registration.Call A W)
  | arion (call : Arion.Call A N (Registration.State A H W))

section
variable {A H N W : Type} [DecidableEq A] [DecidableEq H] [DecidableEq N]

-- Of Arion's calls only a forced removal writes the registration pallet; the others
-- reach what is behind it at most.
def step (cfg : Config A H N W) (s : State A H N W) : Call A H N W → State A H N W
  | .registration call => {s with world:=Registration.step cfg.registration s.world call}
  | .arion (.forceDeregisterChild origin child) => Arion.step (arionConfig cfg) s (.forceDeregisterChild origin child)
  | .arion call =>
    let after := Arion.step (arionConfig cfg) s call
    {after with world:={s.world with world:=after.world.world}}

variable {cfg : Config A H N W} {s : State A H N W}

theorem step_indexed (s : State A H N W) (call : Call A H N W) (indexed : Registration.Indexed s.world) :
    Registration.Indexed (step cfg s call).world := by
  cases call with
  | registration call =>
    exact commit_inv Registration.Indexed indexed fun _ ran => Registration.dispatch_indexed call ran indexed
  | arion call =>
    cases call with
    | forceDeregisterChild =>
      refine commit_inv (fun t : State A H N W => Registration.Indexed t.world) indexed ?_
      intro t ran
      obtain ⟨reg,_,outside⟩ := Arion.forceDeregisterChild_ok ran
      rcases outside with same | same
      · rw [same]
        exact indexed
      · rw [same]
        dsimp only [arionConfig]
        cases Registration.getRegisteredNodeForOwner s.world reg.family with
        | none => exact indexed
        | some info => exact indexed.unregisters cfg.registration info.nodeId
    | _ => exact indexed

theorem retireChild_releases (cfg : Arion.Config A N W) (s : Arion.State A N W) (child : A) (reg : Arion.ChildRegistration A N) :
    let t := Arion.retireChild cfg s child reg
    (∃ row, t.childRegistrations.lookup child = some row ∧ row.status = .unbonding) ∧ t.childMinerUid child = none ∧
      ∀ uid, s.childMinerUid child = some uid → t.minerUidToChild uid = none := by
  have dropped := fun u : Arion.State A N W => Arion.dropFromFamily_sameUids u reg.family child
  refine ⟨⟨_,AList.lookup_insert _,rfl⟩,?_,?_⟩
  · change (Arion.dropFromFamily _ _ _).childMinerUid child = none
    rw [(dropped _).childMinerUid]
    cases held : s.childMinerUid child with
    | none => simp [Arion.clearMinerUidAndStatsForChild,held]
    | some => simp [(Arion.clear_vacated held).childMinerUid]
  · intro uid held
    change (Arion.dropFromFamily _ _ _).minerUidToChild uid = none
    rw [(dropped _).minerUidToChild]
    simp [(Arion.clear_vacated held).minerUidToChild]

-- A caller that owns a validator and is nobody else's proxy removes the child exactly
-- where the child's family has another one active or a node of its own.
theorem validator_removes_child (cfg : Config A H N W) (world : W) (calls : List (Call A H N W)) (who child : A) :
    let s := run (step cfg) (Arion.genesis (Registration.genesis world)) calls
    ∀ reg nodeId info, s.childRegistrations.lookup child = some reg → reg.status = .active →
      s.world.coldkeyNodeRegistrationV2.lookup nodeId = some info → info.owner = who → info.nodeType = .validator →
      info.status ≠ .degraded → (∀ other, who ∈ cfg.registration.delegates s.world.world other → other = who) →
      ((Arion.activeChildrenOf s reg.family ≠ 1 ∨ ∃ main row, s.world.coldkeyNodeRegistrationV2.lookup main = some row ∧
          row.owner = reg.family ∧ row.status ≠ .degraded) ↔
        ∃ t, Arion.forceDeregisterChild (arionConfig cfg) s (.signed who) child = .ok t ∧
          (∃ row, t.childRegistrations.lookup child = some row ∧ row.status = .unbonding) ∧ t.childMinerUid child = none ∧
          ∀ uid, s.childMinerUid child = some uid → t.minerUidToChild uid = none) := by
  intro s reg nodeId info found active held owns validator online alone
  have indexed : Registration.Indexed s.world :=
    run_always (fun s : State A H N W => Registration.Indexed s.world) step_indexed (Registration.genesis_indexed world)
  have owned := indexed.owned
  constructor
  · intro housed
    have node := owned.registered held online
    have self := Registration.resolve_self cfg.registration alone
    rw [Registration.resolveDeregistrationReporter] at self
    obtain ⟨after,unregistered,uids⟩ : ∃ after, Arion.unregisterLastFamily (arionConfig cfg) s reg.family = .ok after ∧
        after.childMinerUid = s.childMinerUid := by
      unfold Arion.unregisterLastFamily
      split
      · exact ⟨s,rfl,rfl⟩
      next last =>
        obtain ⟨main,row,there,own,up⟩ := housed.resolve_left last
        have family := owned.registered there up
        rw [own] at family
        simp [arionConfig,family,ensure,bind,Except.bind]
    refine ⟨_,?_,retireChild_releases (arionConfig cfg) after child reg |>.imp_right fun released => uids ▸ released⟩
    have type : (arionConfig cfg).registeredNodeType s.world (((arionConfig cfg).primaryAccount s.world who).getD who) =
        some .validator := by
      dsimp only [arionConfig]
      rw [self,← owns,node,Option.map_some,validator]
      rfl
    simp only [Arion.forceDeregisterChild,passes]
    exact ⟨who,rfl,_,type,rfl,reg,found,active,after,unregistered,rfl⟩
  · rintro ⟨t,ran,_⟩
    refine or_iff_not_imp_left.mpr ?_
    intro last
    simp only [Arion.forceDeregisterChild,passes] at ran
    obtain ⟨_,_,_,_,_,row,listed,_,_,unregistered,_⟩ := ran
    cases found.symm.trans listed
    rw [Arion.unregisterLastFamily,if_neg last] at unregistered
    simp only [passes] at unregistered
    obtain ⟨node,known⟩ := Option.ne_none_iff_exists'.mp unregistered.1
    obtain ⟨info,registered,_⟩ := Option.map_eq_some_iff.mp known
    obtain ⟨main,there,own,up⟩ := indexed.stored registered
    exact ⟨main,info,there,own,up⟩

end

def watchConfig : Config Nat Registration.Bytes Nat Unit where
  registration := {Registration.testConfig with delegates:=fun _ who => if who = 1 then [2] else []}
  arion := {Arion.plainConfig with
    reserve:=fun world _ _ => some world
    unreserve:=fun world _ _ => (world,0)
    tokenPriceUsd:=fun _ => 1
    available:=fun _ => 0
    requestPayment:=fun world _ _ _ => (world,0)
    requestPayment_le:=fun _ _ _ _ => Nat.zero_le _
    bond:=fun world _ _ => (world,true)
    isRegisteredFamily:=fun _ _ => true
    canRegisterChild:=fun _ _ _ => true
    primaryAccount:=fun _ _ => none
    registeredNodeType:=fun _ _ => none
    unregisterMainNode:=fun world _ => world}

def watched : List (Call Nat Registration.Bytes Nat Unit) :=
  [ .registration (.forceRegisterColdkeyNode .root 9 .validator [9]),
    .registration (.forceRegisterColdkeyNode .root 1 .computeMiner [1]),.arion (.registerChild (.signed 1) 1 2 7 [])]

def watchedState : State Nat Registration.Bytes Nat Unit :=
  run (step watchConfig) (Arion.genesis (Registration.genesis ())) watched

theorem validator_removes_child_watched :
    ∃ t, Arion.forceDeregisterChild (arionConfig watchConfig) watchedState (.signed 9) 2 = .ok t ∧ t.childMinerUid 2 = none := by
  obtain ⟨t,ran,_,released,_⟩ := (validator_removes_child watchConfig () watched 9 2 ⟨1,7,.active,0,0⟩ [9]
    ⟨[9],.validator,.online,0,9⟩ rfl rfl rfl rfl rfl (by decide) (by
      intro other mem
      change 9 ∈ (if other = 1 then [2] else []) at mem
      split at mem <;> simp at mem)).mp (.inr ⟨[1],⟨[1],.computeMiner,.online,0,1⟩,rfl,rfl,by decide⟩)
  exact ⟨t,ran,released⟩

theorem unhoused_child_stays :
    let s := step watchConfig watchedState (.registration (.unregisterMainNode (.signed 1) [1]))
    (s.childRegistrations.lookup 2).map Arion.ChildRegistration.status = some .active ∧
      ((s.world.coldkeyNodeRegistrationV2.lookup [9]).any fun info =>
        info.owner = 9 ∧ info.nodeType = .validator ∧ info.status = .online) = true ∧
      (∀ other, 9 ∉ watchConfig.registration.delegates s.world.world other) ∧
      failsWith .nodeNotRegistered (Arion.forceDeregisterChild (arionConfig watchConfig) s (.signed 9) 2) = true := by
  refine ⟨by decide +kernel,by decide +kernel,?_,by decide +kernel⟩
  intro other mem
  change 9 ∈ (if other = 1 then [2] else []) at mem
  split at mem <;> simp at mem

end TheBrain.Mainnet.Removals
