import TheBrain.Arion.Enrolment
import TheBrain.ComputeScoring.Families
import TheBrain.Library.Nonces

namespace TheBrain.Mainnet.NodeSignatures
open Library Machine Words Nonces Function List

section
variable {A N W : Type} [DecidableEq A]

-- A call that names one node at most, or none, and writes the holder and the nonce of no other.
section
omit [DecidableEq A]
variable {f g : N → Nat} {before after : N → Option A} {named : List N}

theorem advance_one [DecidableEq N] (nonces : g = update f key (saturatingAdd 64 (f key) 1)) (nodes : after = update before key who)
    (only : ∀ n ∈ named, n = key) : Advance 64 (fun n => n ∈ named ∨ after n ≠ before n) f g := by
  rw [nonces]
  refine (Advance.bump 64 f key).weaken ?_
  intro n there
  rcases there with inside | changed
  · exact only n inside
  · by_contra other
    rw [nodes,update_of_ne other] at changed
    exact changed rfl

theorem advance_none (nonces : g = f) (nodes : after = before) (nobody : named = []) :
    Advance 64 (fun n => n ∈ named ∨ after n ≠ before n) f g := by
  rw [nonces]
  refine .still f ?_
  intro n there
  rcases there with inside | changed
  · rw [nobody] at inside
    cases inside
  · exact changed (congrFun nodes n)

end

section
variable {cfg : Arion.Config A N W} {s t : Arion.State A N W}

def arionNodes (s : Arion.State A N W) : Arion.Call A N W → List N
  | .registerChild _ _ _ nodeId _ => [nodeId]
  | .deregisterChild _ child | .forceDeregisterChild _ child =>
    ((s.childRegistrations.lookup child).map Arion.ChildRegistration.nodeId).toList
  | .deregisterFamily family =>
    match s.familyActiveChildren family with
    | none => []
    | some _ => (s.familyChildren family).filterMap fun child =>
      (s.childRegistrations.lookup child).map Arion.ChildRegistration.nodeId
  | _ => []

-- Every miner the loop removes has its node's nonce raised, also if another one had that node.
theorem removeMiners_advance [DecidableEq N] (miners : List A) (loop : miners.foldlM (Arion.removeMiner cfg family) s = .ok t) :
    Advance 64 (fun n => n ∈ miners.filterMap (fun child =>
        (s.childRegistrations.lookup child).map Arion.ChildRegistration.nodeId) ∨ t.nodeIdToChild n ≠ s.nodeIdToChild n)
      s.nodeIdNonce t.nodeIdNonce := by
  induction miners generalizing s with
  | nil =>
    cases loop
    refine .still _ ?_
    intro n there
    rcases there with inside | changed
    · cases inside
    · exact changed rfl
  | cons miner _ ih =>
    simp only [foldlM_cons,bind_ok] at loop
    obtain ⟨_,first,loop⟩ := loop
    obtain ⟨reg,change⟩ := Arion.removeMiner_ok first
    have bumped := Advance.bump 64 s.nodeIdNonce reg.nodeId
    rw [← change.nonces] at bumped
    refine (bumped.trans (ih loop)).weaken ?_
    intro n there
    by_cases own : n = reg.nodeId
    · exact .inl own
    · refine .inr ?_
      rcases there with inside | changed
      · refine .inl ?_
        simp only [mem_filterMap,Option.map_eq_some_iff] at inside ⊢
        obtain ⟨child,listed,row,found,node⟩ := inside
        have apart : child ≠ miner := by
          intro same
          rw [same,change.found] at found
          cases found
          exact own node.symm
        refine ⟨child,(mem_cons.mp listed).resolve_left apart,row,?_,node⟩
        rw [change.registrations,AList.lookup_erase_ne apart]
        exact found
      · refine .inr ?_
        rw [change.nodes,update_of_ne own]
        exact changed

theorem row_node {rows : StorageMap A R} {node : R → N} (found : rows.lookup child = some row) :
    ∀ n ∈ ((rows.lookup child).map node).toList, n = node row := by
  intro n inside
  rw [found] at inside
  exact mem_singleton.mp inside

theorem arion_advance [DecidableEq N] (change : Arion.Change cfg s call t) :
    Advance 64 (fun n => n ∈ arionNodes s call ∨ t.nodeIdToChild n ≠ s.nodeIdToChild n) s.nodeIdNonce t.nodeIdNonce := by
  cases change with
  | registers change => exact advance_one change.nonces change.nodes fun n inside => mem_singleton.mp inside
  | retires change | forces change => exact advance_one change.nonces change.nodes (row_node change.found)
  | claims change => exact advance_none change.registry.nonces change.registry.nodes rfl
  | absent unknown =>
    refine advance_none rfl rfl ?_
    simp only [arionNodes,unknown]
  | removes known loop =>
    refine (removeMiners_advance _ loop).weaken ?_
    intro n there
    simp only [arionNodes,known] at there
    exact there
  | aside other same =>
    refine advance_none same.nonces same.nodes ?_
    unfold arionNodes
    split
    · cases other
    · cases other
    · cases other
    · cases other
    · rfl

end

section
open ComputeScoring
variable {cfg : Config A N W} {s t : State A N W}

def computeNodes (s : State A N W) : Call A N W → List N
  | .registerChild _ _ _ nodeId _ => [nodeId]
  | .deregisterChild _ child | .forceDeregisterChild _ child =>
    ((s.registry.childRegistrations.lookup child).map ChildRegistration.nodeId).toList
  | _ => []

theorem compute_advance [DecidableEq N] (change : Change cfg s call t) :
    Advance 64 (fun n => n ∈ computeNodes s call ∨ t.registry.nodeIdToChild n ≠ s.registry.nodeIdToChild n)
      s.registry.nodeIdNonce t.registry.nodeIdNonce := by
  cases change with
  | registers change =>
    obtain ⟨_,roster⟩ := change.roster
    exact advance_one (congrArg Roster.nonces roster) (congrArg Roster.nodes roster) fun n inside => mem_singleton.mp inside
  | retires change | forces change =>
    obtain ⟨_,roster⟩ := change.roster
    exact advance_one (congrArg Roster.nonces roster) (congrArg Roster.nodes roster) (row_node change.found)
  | claims change | topsUp change | unstakes change | withdraws change | slashes change | closes change => exact advance_none (congrArg Roster.nonces change.roster) (congrArg Roster.nodes change.roster) rfl
  | outside => exact advance_none rfl rfl rfl
  | aside other same =>
    refine advance_none (congrArg Roster.nonces same.roster) (congrArg Roster.nodes same.roster) ?_
    unfold computeNodes
    split
    · cases other
    · cases other
    · cases other
    · rfl

end
-- The two pallets side by side in one runtime.
structure Config (A N Storage Compute : Type) where
  arion : Arion.Config A N Storage
  compute : ComputeScoring.Config A N Compute

structure State (A N Storage Compute : Type) where
  arion : Arion.State A N Storage
  compute : ComputeScoring.State A N Compute

inductive Call (A N Storage Compute : Type) where
  | arion (call : Arion.Call A N Storage)
  | compute (call : ComputeScoring.Call A N Compute)

inductive Pallet where
  | arion | compute
  deriving DecidableEq

variable [DecidableEq N]

structure Registration (A N : Type) where
  pallet : Pallet
  family : A
  child : A
  nodeId : N
  nonce : Nat

section
variable {Storage Compute : Type} (cfg : Config A N Storage Compute)

def step (p : State A N Storage Compute) :
    Call A N Storage Compute → State A N Storage Compute
  | .arion call => {p with arion:=Arion.step cfg.arion p.arion call}
  | .compute call => {p with compute:=ComputeScoring.step cfg.compute p.compute call}

def message (r : Registration A N) : List UInt8 :=
  match r.pallet with
  | .arion => Arion.registrationMessage cfg.arion r.family r.child r.nodeId r.nonce
  | .compute => ComputeScoring.registrationMessage cfg.compute r.family r.child r.nodeId r.nonce

def verifies (r : Registration A N) (nodeSig : List UInt8) : Bool :=
  match r.pallet with
  | .arion => cfg.arion.verifyNodeSig r.nodeId (message cfg r) nodeSig
  | .compute => ComputeScoring.verifyNodeSig cfg.compute r.nodeId (message cfg r) nodeSig

def nonceOf (p : State A N Storage Compute) (key : Pallet × N) : Nat :=
  match key.1 with
  | .arion => p.arion.nodeIdNonce key.2
  | .compute => p.compute.registry.nodeIdNonce key.2

def holderOf (p : State A N Storage Compute) (key : Pallet × N) : Option A :=
  match key.1 with
  | .arion => p.arion.nodeIdToChild key.2
  | .compute => p.compute.registry.nodeIdToChild key.2

def accepted (p : State A N Storage Compute) : Call A N Storage Compute → Bool
  | .arion call => (Arion.dispatch cfg.arion p.arion call).isOk
  | .compute call => (ComputeScoring.dispatch cfg.compute p.compute call).isOk

def registrations (p : State A N Storage Compute) (call : Call A N Storage Compute) : List (Registration A N × List UInt8) :=
  if accepted cfg p call then
    match call with
    | .arion (.registerChild _ family child nodeId nodeSig) =>
      [(⟨.arion,family,child,nodeId,p.arion.nodeIdNonce nodeId⟩,nodeSig)]
    | .compute (.registerChild _ family child nodeId nodeSig) =>
      [(⟨.compute,family,child,nodeId,p.compute.registry.nodeIdNonce nodeId⟩,nodeSig)]
    | _ => []
  else []

def touched (p : State A N Storage Compute) (call : Call A N Storage Compute) : List (Pallet × N) :=
  if accepted cfg p call then
    match call with
    | .arion call => (arionNodes p.arion call).map fun n => (.arion,n)
    | .compute call => (computeNodes p.compute call).map fun n => (.compute,n)
  else []

end

section
variable {Storage Compute : Type} {cfg : Config A N Storage Compute} {p : State A N Storage Compute}

section
omit [DecidableEq A] [DecidableEq N]

structure Codec (cfg : Config A N Storage Compute) : Prop where
  accounts : cfg.compute.encodeAccount = cfg.arion.encodeAccount
  nodes : cfg.compute.bytes = cfg.arion.encodeNode
  accountLength : ∀ a, (cfg.arion.encodeAccount a).length = 32
  nodeLength : ∀ n, (cfg.arion.encodeNode n).length = 32
  accountInjective : Injective cfg.arion.encodeAccount
  nodeInjective : Injective cfg.arion.encodeNode

def tag : Pallet → List UInt8
  | .arion => ascii "ARION_NODE_REG_V1"
  | .compute => ascii "HIPPIUS_COMPUTE_NODE_REG_V1"

theorem tag_injective (same : (tag one).length = (tag two).length) : one = two := by
  cases one with
  | arion =>
    cases two with
    | arion => rfl
    | compute => exact absurd same (by decide)
  | compute =>
    cases two with
    | arion => exact absurd same (by decide)
    | compute => rfl

theorem message_eq (codec : Codec cfg) (r : Registration A N) :
    message cfg r = tag r.pallet ++ cfg.arion.encodeAccount r.family ++ cfg.arion.encodeAccount r.child ++
      cfg.arion.encodeNode r.nodeId ++ leBytes 8 r.nonce := by
  unfold message
  cases r.pallet with
  | arion => rfl
  | compute =>
    rw [ComputeScoring.registrationMessage,codec.accounts,codec.nodes]
    rfl

-- All parts but the tag have a fixed length, so the length tells the pallet and then the
-- parts come off one by one from the end.
theorem message_injective (codec : Codec cfg) {one two : Registration A N} (smallOne : one.nonce < 2 ^ 64)
    (smallTwo : two.nonce < 2 ^ 64) (same : message cfg one = message cfg two) : one = two := by
  obtain ⟨palletOne,_,_,_,_⟩ := one
  obtain ⟨palletTwo,_,_,_,_⟩ := two
  rw [message_eq codec,message_eq codec] at same
  dsimp only at same smallOne smallTwo
  have lengths := congrArg length same
  simp only [length_append,codec.accountLength,codec.nodeLength,leBytes_length] at lengths
  have pallets : palletOne = palletTwo := tag_injective (by omega)
  obtain ⟨same,nonces⟩ := append_inj' same (by rw [leBytes_length,leBytes_length])
  obtain ⟨same,nodes⟩ := append_inj' same (by rw [codec.nodeLength,codec.nodeLength])
  obtain ⟨same,children⟩ := append_inj' same (by rw [codec.accountLength,codec.accountLength])
  obtain ⟨_,families⟩ := append_inj' same (by rw [codec.accountLength,codec.accountLength])
  rw [pallets,codec.accountInjective families,codec.accountInjective children,codec.nodeInjective nodes,
    leBytes_injective 8 (by omega) (by omega) nonces]

end

theorem arion_signed {s : Arion.State A N Storage}
    (registered : Arion.registerChild cfg.arion s origin family child nodeId nodeSig = .ok t) :
    cfg.arion.verifyNodeSig nodeId (Arion.registrationMessage cfg.arion family child nodeId (s.nodeIdNonce nodeId)) nodeSig = true := by
  simp only [Arion.registerChild,passes] at registered
  obtain ⟨admitted,_⟩ := registered
  simp only [Arion.admitChild,passes] at admitted
  obtain ⟨_,_,_,_,_,_,_,_,_,_,_,_,signed⟩ := admitted
  exact signed

theorem compute_signed {s : ComputeScoring.State A N Compute}
    (registered : ComputeScoring.registerChild cfg.compute s origin family child nodeId nodeSig = .ok t) :
    ComputeScoring.verifyNodeSig cfg.compute nodeId
      (ComputeScoring.registrationMessage cfg.compute family child nodeId (s.registry.nodeIdNonce nodeId)) nodeSig = true := by
  simp only [ComputeScoring.registerChild,passes] at registered
  obtain ⟨admitted,_⟩ := registered
  simp only [ComputeScoring.admitChild,passes] at admitted
  obtain ⟨_,_,_,_,_,_,_,_,_,_,_,_,_,signed⟩ := admitted
  exact signed

theorem registrations_verified (p : State A N Storage Compute) (call : Call A N Storage Compute) :
    ∀ entry ∈ registrations cfg p call, verifies cfg entry.1 entry.2 = true ∧
      entry.1.nonce = nonceOf p (entry.1.pallet,entry.1.nodeId) := by
  intro entry inside
  unfold registrations at inside
  split at inside
  next taken =>
    split at inside
    · cases mem_singleton.mp inside
      obtain ⟨t,registered⟩ := isOk_ok taken
      exact ⟨arion_signed registered,rfl⟩
    · cases mem_singleton.mp inside
      obtain ⟨_,registered⟩ := isOk_ok taken
      exact ⟨compute_signed registered,rfl⟩
    · cases inside
  · cases inside

theorem registrations_touched (p : State A N Storage Compute) (call : Call A N Storage Compute) :
    ∀ entry ∈ registrations cfg p call, (entry.1.pallet,entry.1.nodeId) ∈ touched cfg p call := by
  intro entry inside
  unfold registrations at inside
  unfold touched
  split at inside
  next taken =>
    rw [if_pos taken]
    split at inside
    · cases mem_singleton.mp inside
      exact mem_cons_self
    · cases mem_singleton.mp inside
      exact mem_cons_self
    · cases inside
  · cases inside

theorem registrations_short (cfg : Config A N Storage Compute) (p : State A N Storage Compute)
    (call : Call A N Storage Compute) :
    registrations cfg p call = [] ∨ ∃ entry, registrations cfg p call = [entry] := by
  unfold registrations
  split
  · split
    · exact .inr ⟨_,rfl⟩
    · exact .inr ⟨_,rfl⟩
    · exact .inl rfl
  · exact .inl rfl

-- No nonce goes back, and that of a node which is registered, deregistered or changes hands
-- goes up.
def Advances (cfg : Config A N Storage Compute) (p : State A N Storage Compute) (call : Call A N Storage Compute) : Prop :=
  Advance 64 (fun key => key ∈ touched cfg p call ∨ holderOf (step cfg p call) key ≠ holderOf p key) (nonceOf p)
    (nonceOf (step cfg p call))

theorem refused_advances (refused : accepted cfg p call = false) (same : step cfg p call = p) : Advances cfg p call := by
  unfold Advances
  rw [same]
  refine .still _ ?_
  intro key there
  rcases there with inside | changed
  · unfold touched at inside
    rw [refused] at inside
    cases inside
  · exact changed rfl

theorem arion_advances (p : State A N Storage Compute) (call : Arion.Call A N Storage) : Advances cfg p (.arion call) := by
  rcases commit_cases p.arion (Arion.dispatch cfg.arion p.arion call) with ⟨t,taken,same⟩ | ⟨_,refused,same⟩
  · have moved : step cfg p (.arion call) = {p with arion:=t} := congrArg (fun arion => {p with arion:=arion}) same
    have named : touched cfg p (.arion call) = (arionNodes p.arion call).map fun n => (.arion,n) :=
      if_pos (congrArg Except.isOk taken)
    unfold Advances
    rw [moved,named]
    refine .party Pallet.arion (arion_advance (Arion.dispatch_change call taken)) ?_
    intro other apart n
    cases other with
    | arion => exact absurd rfl apart
    | compute => exact ⟨rfl,fun changed => changed rfl⟩
  · exact refused_advances (congrArg Except.isOk refused) (congrArg (fun arion => {p with arion:=arion}) same)

theorem compute_advances (p : State A N Storage Compute) (call : ComputeScoring.Call A N Compute) :
    Advances cfg p (.compute call) := by
  rcases commit_cases p.compute (ComputeScoring.dispatch cfg.compute p.compute call) with ⟨t,taken,same⟩ | ⟨_,refused,same⟩
  · have moved : step cfg p (.compute call) = {p with compute:=t} := congrArg (fun compute => {p with compute:=compute}) same
    have named : touched cfg p (.compute call) = (computeNodes p.compute call).map fun n => (.compute,n) :=
      if_pos (congrArg Except.isOk taken)
    unfold Advances
    rw [moved,named]
    refine .party Pallet.compute (compute_advance (ComputeScoring.dispatch_change call taken)) ?_
    intro other apart n
    cases other with
    | arion => exact ⟨rfl,fun changed => changed rfl⟩
    | compute => exact absurd rfl apart
  · exact refused_advances (congrArg Except.isOk refused) (congrArg (fun compute => {p with compute:=compute}) same)

theorem step_advances (p : State A N Storage Compute) (call : Call A N Storage Compute) : Advances cfg p call := by
  cases call with
  | arion call => exact arion_advances p call
  | compute call => exact compute_advances p call

def NoncesBelow (p : State A N Storage Compute) (_ : Call A N Storage Compute) : Prop :=
  ∀ key, nonceOf p key < 2 ^ 64 - 1

structure Unused (q : State A N Storage Compute × List (Registration A N × List UInt8)) : Prop where
  spent : Spent (fun r => (r.pallet,r.nodeId)) Registration.nonce (q.2.map Prod.fst) (nonceOf q.1)
  small : ∀ r ∈ q.2.map Prod.fst, r.nonce < 2 ^ 64

theorem recording_unused (q : State A N Storage Compute × List (Registration A N × List UInt8))
    (call : Call A N Storage Compute) (unused : Unused q) (below : NoncesBelow q.1 call) :
    Unused (recording (step cfg) (registrations cfg) q call) := by
  have advances : Advances cfg q.1 call := step_advances q.1 call
  have grown : ∀ key, nonceOf q.1 key ≤ nonceOf (step cfg q.1 call) key := fun key => (advances.kept key (below key).le).1
  rcases registrations_short cfg q.1 call with none | ⟨entry,one⟩
  · have log : (recording (step cfg) (registrations cfg) q call).2 = q.2 := by
      dsimp only [recording]
      rw [none,append_nil]
    constructor
    case spent =>
      rw [log]
      exact unused.spent.later grown
    case small =>
      rw [log]
      exact unused.small
  · have inside : entry ∈ registrations cfg q.1 call := by
      rw [one]
      exact mem_cons_self
    have now : entry.1.nonce = nonceOf q.1 (entry.1.pallet,entry.1.nodeId) := (registrations_verified q.1 call entry inside).2
    have log : (recording (step cfg) (registrations cfg) q call).2.map Prod.fst = q.2.map Prod.fst ++ [entry.1] := by
      dsimp only [recording]
      rw [map_append,one,map_singleton]
    constructor
    case spent =>
      rw [log]
      exact unused.spent.use grown now (advances.raised _ (.inl (registrations_touched q.1 call entry inside)) (below _))
    case small =>
      rw [log]
      intro r listed
      rcases mem_append.mp listed with old | new
      · exact unused.small r old
      · have room := below (entry.1.pallet,entry.1.nodeId)
        rw [mem_singleton.mp new]
        omega

theorem registrations_single_use (cfg : Config A N Storage Compute) (codec : Codec cfg)
    (start : State A N Storage Compute) (calls : List (Call A N Storage Compute))
    (below : Throughout (step cfg) NoncesBelow start calls) :
    (∀ one two : Registration A N, one.nonce < 2 ^ 64 → two.nonce < 2 ^ 64 → message cfg one = message cfg two → one = two) ∧
    Throughout (step cfg) (fun p call =>
      (∀ entry ∈ registrations cfg p call, verifies cfg entry.1 entry.2 = true) ∧
      (∀ key, nonceOf p key ≤ nonceOf (step cfg p call) key) ∧
      (∀ key ∈ touched cfg p call, nonceOf p key < nonceOf (step cfg p call) key) ∧
      ∀ key, holderOf (step cfg p call) key ≠ holderOf p key → nonceOf p key < nonceOf (step cfg p call) key) start calls ∧
    ((run (recording (step cfg) (registrations cfg)) (start,[]) calls).2.map fun entry => message cfg entry.1).Nodup := by
  refine ⟨fun one two => message_injective codec,?_,?_⟩
  · refine throughout_of_invariant (fun _ => True) (fun _ _ _ _ => trivial) ?_ trivial below
    intro p call _ below
    have advances : Advances cfg p call := step_advances p call
    exact ⟨fun entry inside => (registrations_verified p call entry inside).1,fun key => (advances.kept key (below key).le).1,
      fun key inside => advances.raised key (.inl inside) (below key),fun key moved => advances.raised key (.inr moved) (below key)⟩
  · have unused : Unused (run (recording (step cfg) (registrations cfg)) (start,[]) calls) :=
      run_invariant Unused recording_unused ⟨⟨nodup_nil,nofun⟩,nofun⟩ (throughout_recording _ _ below)
    have different := unused.spent.distinct.map_on fun one first two second same =>
      message_injective codec (unused.small one first) (unused.small two second) same
    rwa [map_map] at different

end

end

def spread (b : Bool) : List UInt8 := (if b then 1 else 0) :: List.replicate 31 0

theorem spread_injective : Injective spread := by
  intro one two same
  cases one with
  | false =>
    cases two with
    | false => rfl
    | true => exact absurd same (by decide)
  | true =>
    cases two with
    | false => exact absurd same (by decide)
    | true => rfl

def pairArion : Arion.Config Bool Bool Unit where
  isAdmin _ := true
  isMapAuthority _ := true
  isStatsAuthority _ := true
  enforceRegisteredMinersInMap := false
  epochCrushMapRetention := 100
  maxFamilies := 600
  maxChildrenTotal := 1000
  maxChildrenPerFamily := 35
  baseChildDeposit := 10
  globalDepositHalvingPeriodBlocks := 14400
  unregisterCooldownBlocks := 0
  unbondingPeriodBlocks := 0
  minerStatsPruneInterval := 100
  minerStatsPruneMaxScanPerBlock := 128
  settlementInterval := 14400
  accountId := false
  encodeAccount := spread
  encodeNode := spread
  verifyNodeSig _ _ _ := true
  mapRoot _ _ := []
  registrationRank account := account.toNat
  arrearsRank account := account.toNat
  accountRank account := account.toNat
  uidRank uid := uid
  isRegisteredFamily _ _ := true
  canRegisterChild _ _ _ := true
  primaryAccount _ _ := none
  registeredNodeType _ _ := some .validator
  unregisterMainNode world _ := world
  reserve world _ _ := some world
  unreserve world _ _ := (world,0)
  tokenPriceUsd _ := 0
  available _ := 0
  requestPayment world _ _ _ := (world,0)
  requestPayment_le _ _ _ _ := Nat.zero_le _
  bond world _ _ := (world,true)

def pairDigest : HippiusTypes.Digest Bool where
  zero := false
  bytes := spread
  parse b := if b = spread true then some true else if b = spread false then some false else none
  bytes_short _ := (by decide : 32 < 2 ^ 64)
  parse_bytes h := by
    cases h with
    | false | true => decide
  bytes_parse b h parsed := by
    split at parsed
    next same =>
      cases parsed
      exact same.symm
    · split at parsed
      next same =>
        cases parsed
        exact same.symm
      · cases parsed

def pairCompute : ComputeScoring.Config Bool Bool Unit where
  toDigest := pairDigest
  isAdmin _ := true
  isAuditAuthority _ := true
  maxFamilies := 600
  maxChildrenTotal := 1000
  maxChildrenPerFamily := 35
  baseChildDeposit := 10
  globalDepositHalvingPeriodBlocks := 14400
  unregisterCooldownBlocks := 0
  unbondingPeriodBlocks := 0
  maxAggregateBody := 8192
  maxValidatorIdLen := 64
  maxFamilyIdLen := 64
  maxAuditVmKeyIdLen := 64
  computePalletInstance := false
  computeChainGenesis := true
  maxMinerStatusUpdatesPerCall := 128
  maxEpochPruneKeysPerCall := 2048
  maxLiveAttestationBody := 1024
  maxVmIdLen := 64
  maxKbsAttestationPubkeys := 8
  encodeAccount := spread
  sha2256 _ := false
  blake2256 _ := false
  ed25519Verify _ _ _ := true
  hashRank hash := hash.toNat
  isRegisteredFamily _ _ := true
  ownerHasValidatorNode _ _ := true
  canRegisterChild _ _ _ := true
  isNodeRegistered _ _ := true
  pushRankings world _ _ := world
  reserveNamed world _ _ _ := some world
  unreserveNamed world _ _ _ := (world,0)
  slashReservedNamed world _ _ _ := (world,0)
  repatriateReservedNamed world _ _ _ _ := some (world,0)

def pairConfig : Config Bool Bool Unit Unit := ⟨pairArion,pairCompute⟩

theorem pair_codec : Codec pairConfig where
  accounts := rfl
  nodes := rfl
  accountLength _ := rfl
  nodeLength _ := rfl
  accountInjective := spread_injective
  nodeInjective := spread_injective

def nodeReturns : List (Call Bool Bool Unit Unit) :=
  [.arion (.registerChild (.signed true) true false true []),.arion (.deregisterChild (.signed true) false),
   .arion (.registerChild (.signed true) true true true []),.compute (.registerChild (.signed true) true false true [])]

theorem registrations_single_use_returns :
    let p := run (recording (step pairConfig) (registrations pairConfig)) (⟨Arion.genesis (),ComputeScoring.genesis ()⟩,[]) nodeReturns
    p.2.map (fun entry => entry.1.nonce) = [0,2,0] ∧ (p.2.map fun entry => message pairConfig entry.1).Nodup := by
  refine ⟨by decide +kernel,(registrations_single_use pairConfig pair_codec _ nodeReturns ?_).2.2⟩
  refine ⟨?_,?_,?_,?_,trivial⟩
  all_goals
    intro ⟨pallet,node⟩
    cases pallet <;> cases node <;> decide +kernel

end TheBrain.Mainnet.NodeSignatures
