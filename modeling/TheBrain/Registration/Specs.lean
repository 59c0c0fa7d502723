import TheBrain.Registration.Pallet

namespace TheBrain.Registration
open Library Machine Words StorageMap

variable {A H W : Type}
variable {cfg : Config A H W} {s t u : State A H W}

def reached : Event A → Option Bytes
  | .deregistrationConsensusReached nodeId => some nodeId
  | _ => none

def reachedNodes (s : State A H W) : List Bytes := s.events.filterMap reached

structure Kept (s t : State A H W) : Prop where
  block : t.blockNumber = s.blockNumber := by rfl
  reports : t.temporaryDeregistrationReports = s.temporaryDeregistrationReports := by rfl
  used : t.usedChallenges = s.usedChallenges := by rfl
  identities : t.libp2pMainIdentity = s.libp2pMainIdentity := by rfl
  reached : reachedNodes t = reachedNodes s := by rfl

theorem Kept.refl (s : State A H W) : Kept s s := {}

theorem Kept.trans (one : Kept s t) (two : Kept t u) : Kept s u where
  block := two.block.trans one.block
  reports := two.reports.trans one.reports
  used := two.used.trans one.used
  identities := two.identities.trans one.identities
  reached := two.reached.trans one.reached

theorem depositEvent_kept (s : State A H W) (quiet : reached e = none) : Kept s (depositEvent s e) := by
  refine {reached:=?_}
  unfold reachedNodes depositEvent
  rw [List.filterMap_append,List.filterMap_cons_none quiet,List.filterMap_nil,List.append_nil]

theorem Kept.event (kept : Kept s t) (quiet : Registration.reached e = none) : Kept s (depositEvent t e) :=
  kept.trans (depositEvent_kept t quiet)

def Thinned (s t : State A H W) : Prop :=
  ∀ nodeId info, t.coldkeyNodeRegistrationV2.lookup nodeId = some info →
    ∃ old, s.coldkeyNodeRegistrationV2.lookup nodeId = some old ∧ info.nodeId = old.nodeId ∧ info.nodeType = old.nodeType

theorem Thinned.refl (s : State A H W) : Thinned s s := fun _ info found => ⟨info,found,rfl,rfl⟩

theorem Thinned.trans (one : Thinned s t) (two : Thinned t u) : Thinned s u := by
  intro nodeId info found
  obtain ⟨middle,held,id,type⟩ := two nodeId info found
  obtain ⟨old,there,id',type'⟩ := one nodeId middle held
  exact ⟨old,there,id.trans id',type.trans type'⟩

theorem thinned_same (rows : t.coldkeyNodeRegistrationV2 = s.coldkeyNodeRegistrationV2) : Thinned s t := by
  intro nodeId info found
  rw [rows] at found
  exact ⟨info,found,rfl,rfl⟩

theorem thinned_erase (rows : t.coldkeyNodeRegistrationV2 = s.coldkeyNodeRegistrationV2.erase nodeId) : Thinned s t := by
  intro id info found
  rw [rows] at found
  exact ⟨info,(erase_found found).2,rfl,rfl⟩

theorem thinned_rewrite (rows : t.coldkeyNodeRegistrationV2 = s.coldkeyNodeRegistrationV2.insert nodeId new)
    (old : s.coldkeyNodeRegistrationV2.lookup nodeId = some info) (id : new.nodeId = info.nodeId)
    (type : new.nodeType = info.nodeType) : Thinned s t := by
  intro other row found
  rw [rows] at found
  rcases insert_cases found with ⟨rfl,rfl⟩ | ⟨_,found⟩
  · exact ⟨info,old,id,type⟩
  · exact ⟨row,found,rfl,rfl⟩

theorem dedup_map_length [DecidableEq α] [DecidableEq β] (f : α → β) (l : List α) :
    (l.map f).dedup.length ≤ l.dedup.length := by
  have mem : (l.map f).dedup ⊆ l.dedup.map f := by
    intro b there
    obtain ⟨a,listed,same⟩ := List.mem_map.mp (List.mem_dedup.mp there)
    exact List.mem_map.mpr ⟨a,List.mem_dedup.mpr listed,same⟩
  have shorter := ((l.map f).nodup_dedup.subperm mem).length_le
  rwa [List.length_map] at shorter

theorem initializeNodeTypeFees_ok (cfg : Config A H W) (s : State A H W) :
    Kept s (initializeNodeTypeFees cfg s) ∧ Thinned s (initializeNodeTypeFees cfg s) := by
  unfold initializeNodeTypeFees
  split
  · exact ⟨{},thinned_same rfl⟩
  · exact ⟨.refl s,.refl s⟩

theorem chargeFee_ok (ran : chargeFee cfg s owner nodeType = .ok t) :
    ∃ world fees last, t = {s with world:=world,currentNodeTypeFee:=fees,lastRegistrationBlock:=last} := by
  unfold chargeFee at ran
  split at ran
  · cases ran
    exact ⟨_,_,_,rfl⟩
  · simp only [passes] at ran
    obtain ⟨_,_,_,rfl⟩ := ran
    unfold calculateDynamicFee
    split
    · exact ⟨_,_,_,rfl⟩
    · exact ⟨_,_,_,rfl⟩

variable [DecidableEq A]

theorem ownerToNodeRemove_eq (s : State A H W) (owner : A) (nodeId : Bytes) :
    ∃ index, ownerToNodeRemove s owner nodeId = {s with ownerToNode:=index} := by
  unfold ownerToNodeRemove
  split
  · exact ⟨_,rfl⟩
  · exact ⟨_,rfl⟩

theorem doUnregisterMainNode_ok (cfg : Config A H W) (s : State A H W) (nodeId : Bytes) :
    Kept s (doUnregisterMainNode cfg s nodeId) ∧ Thinned s (doUnregisterMainNode cfg s nodeId) := by
  have synced : ∀ owner : Option A, ∃ index,
      (owner.elim {s with coldkeyNodeRegistrationV2:=s.coldkeyNodeRegistrationV2.erase nodeId} fun owner =>
        ownerToNodeRemove {s with coldkeyNodeRegistrationV2:=s.coldkeyNodeRegistrationV2.erase nodeId} owner nodeId) =
      {s with coldkeyNodeRegistrationV2:=s.coldkeyNodeRegistrationV2.erase nodeId,ownerToNode:=index} := by
    intro owner
    cases owner with
    | none => exact ⟨_,rfl⟩
    | some owner => exact ownerToNodeRemove_eq _ owner nodeId
  obtain ⟨_,same⟩ := synced ((s.coldkeyNodeRegistrationV2.lookup nodeId).map ColdkeyNodeInfoLite.owner)
  unfold doUnregisterMainNode
  dsimp only
  rw [same]
  exact ⟨Kept.event {} rfl,thinned_erase rfl⟩

theorem degradedOrUnregister_ok (cfg : Config A H W) (s : State A H W) (nodeId : Bytes) :
    Kept s (doSetNodeStatusDegradedOrUnregister cfg s nodeId) ∧ Thinned s (doSetNodeStatusDegradedOrUnregister cfg s nodeId) := by
  unfold doSetNodeStatusDegradedOrUnregister
  split
  · exact ⟨.refl s,.refl s⟩
  next info found =>
    split
    · exact ⟨Kept.event {} rfl,thinned_rewrite rfl found rfl rfl⟩
    · exact doUnregisterMainNode_ok cfg s nodeId

-- The vote. Resolving proxies can only merge reporters.

def Outvoted (cfg : Config A H W) (filed : List (A × List DeregistrationReport)) (nodeId : Bytes) : Prop :=
  cfg.consensusThreshold ≤ (reportersOf filed nodeId).dedup.length

def Decides (cfg : Config A H W) (filed : List (A × List DeregistrationReport)) (s t : State A H W) : Prop :=
  ∃ decided, reachedNodes t = reachedNodes s ++ decided ∧ ∀ nodeId ∈ decided, Outvoted cfg filed nodeId

theorem decides_none (same : reachedNodes t = reachedNodes s) : Decides cfg filed s t :=
  ⟨[],by rw [same,List.append_nil],nofun⟩

theorem Decides.trans (one : Decides cfg filed s t) (two : Decides cfg filed t u) : Decides cfg filed s u := by
  obtain ⟨decided,grown,outvoted⟩ := one
  obtain ⟨decided',grown',outvoted'⟩ := two
  refine ⟨decided ++ decided',by rw [grown',grown,List.append_assoc],?_⟩
  intro nodeId mem
  rcases List.mem_append.mp mem with first | second
  · exact outvoted nodeId first
  · exact outvoted' nodeId second

structure Votes (cfg : Config A H W) (filed : List (A × List DeregistrationReport))
    (s t : State A H W) : Prop where
  block : t.blockNumber = s.blockNumber
  reports : t.temporaryDeregistrationReports = s.temporaryDeregistrationReports
  used : t.usedChallenges = s.usedChallenges
  identities : t.libp2pMainIdentity = s.libp2pMainIdentity
  thinned : Thinned s t
  reached : Decides cfg filed s t

theorem Votes.trans (one : Votes cfg filed s t) (two : Votes cfg filed t u) : Votes cfg filed s u where
  block := two.block.trans one.block
  reports := two.reports.trans one.reports
  used := two.used.trans one.used
  identities := two.identities.trans one.identities
  thinned := one.thinned.trans two.thinned
  reached := one.reached.trans two.reached

theorem Kept.votes (kept : Kept s t) (thinned : Thinned s t) (filed : List (A × List DeregistrationReport)) :
    Votes cfg filed s t where
  block := kept.block
  reports := kept.reports
  used := kept.used
  identities := kept.identities
  thinned := thinned
  reached := decides_none kept.reached

theorem consensusOn_votes (cfg : Config A H W) (s : State A H W)
    (filed : List (A × List DeregistrationReport)) (nodeId : Bytes) : Votes cfg filed s (consensusOn cfg s filed nodeId) := by
  unfold consensusOn
  dsimp only
  split
  next enough =>
    obtain ⟨kept,thinned⟩ := doUnregisterMainNode_ok cfg s nodeId
    refine ⟨kept.block,kept.reports,kept.used,kept.identities,thinned,[nodeId],?_,?_⟩
    · unfold reachedNodes depositEvent
      rw [List.filterMap_append]
      exact congrArg (· ++ [nodeId]) kept.reached
    · intro other new
      cases List.mem_singleton.mp new
      exact enough.trans ((Nat.mod_le _ _).trans (dedup_map_length _ _))
  · exact (depositEvent_kept s rfl).votes (.refl s) filed

theorem consensus_votes (cfg : Config A H W) (s : State A H W) :
    Votes cfg (s.temporaryDeregistrationReports.iter cfg.accountRank) s (applyDeregistrationConsensus cfg s) := by
  unfold applyDeregistrationConsensus
  generalize s.temporaryDeregistrationReports.iter cfg.accountRank = filed
  exact foldl_keeps (Votes cfg filed s) (fun t nodeId before => before.trans (consensusOn_votes cfg t filed nodeId)) _
    ((Kept.refl s).votes (.refl s) filed)

theorem removeDuplicates_ok (cfg : Config A H W) (s : State A H W) :
    Kept s (removeDuplicates cfg s) ∧ Thinned s (removeDuplicates cfg s) := by
  refine foldl_keeps (fun t => Kept s t ∧ Thinned s t) ?_ _ ⟨.refl s,.refl s⟩
  intro t entry ⟨kept,thinned⟩
  obtain ⟨_,same⟩ := ownerToNodeRemove_eq
    {t with coldkeyNodeRegistrationV2:=t.coldkeyNodeRegistrationV2.erase entry.1} entry.2 entry.1
  rw [same]
  exact ⟨kept.trans {},thinned.trans (thinned_erase rfl)⟩

theorem tallyReports_votes (cfg : Config A H W) (s : State A H W) (now : Nat) :
    Votes cfg (s.temporaryDeregistrationReports.iter cfg.accountRank) s (tallyReports cfg s now) := by
  obtain ⟨kept,thinned⟩ := initializeNodeTypeFees_ok cfg s
  unfold tallyReports
  dsimp only
  generalize initializeNodeTypeFees cfg s = priced at kept thinned
  have counted : Kept s (if now % cfg.reportRequestsClearInterval = 0 then {priced with reportSubmissionCount:=fun _ => 0} else priced) ∧
      Thinned s (if now % cfg.reportRequestsClearInterval = 0 then {priced with reportSubmissionCount:=fun _ => 0} else priced) := by
    split
    · exact ⟨kept.trans {},thinned.trans (thinned_same rfl)⟩
    · exact ⟨kept,thinned⟩
  generalize (if now % cfg.reportRequestsClearInterval = 0 then {priced with reportSubmissionCount:=fun _ => 0} else priced) = ready
    at counted
  have before : Votes cfg (s.temporaryDeregistrationReports.iter cfg.accountRank) s ready := counted.1.votes counted.2 _
  split
  · have votes := consensus_votes cfg ready
    rw [before.reports] at votes
    exact before.trans votes
  · exact before

structure Block (cfg : Config A H W) (s t : State A H W) : Prop where
  block : t.blockNumber = s.blockNumber + 1
  reports : t.temporaryDeregistrationReports =
    if clearsReports cfg (s.blockNumber + 1) = true then ∅ else s.temporaryDeregistrationReports
  used : t.usedChallenges = fun h => (s.usedChallenges h).filter fun usedUntil => s.blockNumber + 1 < usedUntil
  identities : t.libp2pMainIdentity = s.libp2pMainIdentity
  thinned : Thinned s t
  reached : Decides cfg (s.temporaryDeregistrationReports.iter cfg.accountRank) s t

theorem onInitialize_block (cfg : Config A H W) (s : State A H W) : Block cfg s (onInitialize cfg s (s.blockNumber + 1)) := by
  have votes := tallyReports_votes cfg {s with blockNumber:=s.blockNumber + 1} (s.blockNumber + 1)
  unfold onInitialize
  dsimp only
  generalize tallyReports cfg {s with blockNumber:=s.blockNumber + 1} (s.blockNumber + 1) = tallied at votes
  have cleared : (if clearsReports cfg (s.blockNumber + 1) = true then {tallied with temporaryDeregistrationReports:=∅} else tallied) =
      {tallied with temporaryDeregistrationReports:=
        (if clearsReports cfg (s.blockNumber + 1) = true then ∅ else tallied.temporaryDeregistrationReports)} := by
    split
    · rfl
    · rfl
  rw [cleared]
  generalize emptying : {tallied with temporaryDeregistrationReports:=
    (if clearsReports cfg (s.blockNumber + 1) = true then ∅ else tallied.temporaryDeregistrationReports)} = bare
  have pruned : Kept bare (if (s.blockNumber + 1) % 100 = 0 then removeDuplicates cfg bare else bare) ∧
      Thinned bare (if (s.blockNumber + 1) % 100 = 0 then removeDuplicates cfg bare else bare) := by
    split
    · exact removeDuplicates_ok cfg bare
    · exact ⟨.refl bare,.refl bare⟩
  generalize (if (s.blockNumber + 1) % 100 = 0 then removeDuplicates cfg bare else bare) = rest at pruned
  obtain ⟨kept,thinned⟩ := pruned
  subst emptying
  constructor
  case block => exact kept.block.trans votes.block
  case reports =>
    refine kept.reports.trans ?_
    rw [votes.reports]
  case used =>
    have used : rest.usedChallenges = s.usedChallenges := kept.used.trans votes.used
    rw [used]
  case identities => exact kept.identities.trans votes.identities
  case thinned => exact Thinned.trans (s := s) votes.thinned thinned
  case reached =>
    obtain ⟨decided,grown,outvoted⟩ := votes.reached
    exact ⟨decided,kept.reached.trans grown,outvoted⟩

structure Reports (account : A) (info : ColdkeyNodeInfoLite A) (nodeIds : List Bytes)
    (s t : State A H W) : Prop where
  registered : getRegisteredNodeForOwner s account = some info
  validator : info.nodeType = .validator
  block : t.blockNumber = s.blockNumber
  reports : t.temporaryDeregistrationReports = s.temporaryDeregistrationReports.insert account
    ((s.temporaryDeregistrationReports.lookup account).getD [] ++ nodeIds.map fun nodeId => ⟨nodeId,s.blockNumber⟩)
  used : t.usedChallenges = s.usedChallenges
  identities : t.libp2pMainIdentity = s.libp2pMainIdentity
  reached : reachedNodes t = reachedNodes s
  rows : t.coldkeyNodeRegistrationV2 = s.coldkeyNodeRegistrationV2

theorem submitDeregistrationReport_ok (ran : submitDeregistrationReport cfg s origin nodeIds = .ok t) :
    ∃ who info, origin.signer = some who ∧ Reports (resolveDeregistrationReporter cfg s who) info nodeIds s t := by
  simp only [submitDeregistrationReport,passes] at ran
  obtain ⟨who,signed,_,info,registered,validator,_,rfl⟩ := ran
  exact ⟨who,info,signed,registered,validator,rfl,rfl,rfl,rfl,rfl,rfl⟩

variable [DecidableEq H]

structure Registers (cfg : Config A H W) (nodeId challengeBytes publicKey nodeIdHex : Bytes)
    (challenge : RegisterChallenge A H) (s t : State A H W) : Prop where
  decoded : cfg.decodeChallenge challengeBytes = some challenge
  alive : s.blockNumber ≤ challenge.expiresAt
  unused : s.usedChallenges (cfg.blake2256 challengeBytes) = none
  peer : verifyPeerId publicKey nodeIdHex .ed25519 = true
  absent : s.coldkeyNodeRegistrationV2.lookup nodeId = none
  block : t.blockNumber = s.blockNumber
  reports : t.temporaryDeregistrationReports = s.temporaryDeregistrationReports
  used : t.usedChallenges = Function.update s.usedChallenges (cfg.blake2256 challengeBytes) (some challenge.expiresAt)
  identities : t.libp2pMainIdentity = Function.update s.libp2pMainIdentity nodeId (some (.ed25519,publicKey))
  reached : reachedNodes t = reachedNodes s
  row : ∃ info, info.nodeId = nodeId ∧ t.coldkeyNodeRegistrationV2 = s.coldkeyNodeRegistrationV2.insert nodeId info

theorem registerNodeWithColdkey_ok (ran : registerNodeWithColdkey cfg s origin nodeType nodeId payInCredits owner mainKeyType
    mainPublicKey mainSig challengeBytes nodeIdHex = .ok t) :
    ∃ challenge, Registers cfg nodeId challengeBytes mainPublicKey nodeIdHex challenge s t := by
  simp only [registerNodeWithColdkey,checkChallenge,admitNode,passes] at ran
  obtain ⟨_,_,_,_,_,⟨challenge,decoded,_,_,alive,_,_,unused,_,peer,rfl⟩,⟨_,_,_,absent,_⟩,_,charged,rfl⟩ := ran
  obtain ⟨_,_,_,rfl⟩ := chargeFee_ok charged
  cases mainKeyType with
  | ed25519 =>
    exact ⟨challenge,decoded,alive,unused,peer,Option.isNone_iff_eq_none.mp absent,rfl,rfl,rfl,rfl,
      (depositEvent_kept _ rfl).reached,_,rfl,rfl⟩

inductive Change (cfg : Config A H W) (s : State A H W) :
    Call A W → State A H W → Prop where
  | registers (change : Registers cfg nodeId challengeBytes publicKey nodeIdHex challenge s after) :
      Change cfg s (.registerNodeWithColdkey origin nodeType nodeId payInCredits owner keyType publicKey sig challengeBytes nodeIdHex)
        after
  | forces (kept : Kept s after) (info : ColdkeyNodeInfoLite A) (own : info.nodeId = nodeId)
      (row : after.coldkeyNodeRegistrationV2 = s.coldkeyNodeRegistrationV2.insert nodeId info) :
      Change cfg s (.forceRegisterColdkeyNode origin owner nodeType nodeId) after
  | reports (signed : origin.signer = some who) (change : Reports (resolveDeregistrationReporter cfg s who) info nodeIds s after) :
      Change cfg s (.submitDeregistrationReport origin nodeIds) after
  | block (change : Block cfg s after) : Change cfg s .nextBlock after
  | aside (kept : Kept s after) (thinned : Thinned s after) : Change cfg s call after

theorem dispatch_change (call : Call A W) (ran : dispatch cfg s call = .ok t) : Change cfg s call t := by
  cases call with
  | forceRegisterColdkeyNode _ owner nodeType nodeId =>
    simp only [dispatch,forceRegisterColdkeyNode,passes] at ran
    obtain ⟨_,_,_,_,rfl⟩ := ran
    refine .forces ?_ ⟨nodeId,nodeType,.online,s.blockNumber,owner⟩ rfl rfl
    exact Kept.event {} rfl
  | registerNodeWithColdkey =>
    obtain ⟨_,change⟩ := registerNodeWithColdkey_ok ran
    exact .registers change
  | setNodeStatusToDegraded =>
    simp only [dispatch,setNodeStatusToDegraded,passes] at ran
    obtain ⟨_,info,found,_,rfl⟩ := ran
    refine .aside ?_ (thinned_rewrite rfl found rfl rfl)
    exact Kept.event {} rfl
  | setFeeCharging | setNodeTypeFeeFloor | setNodeTypeDisabled | setAccountBanStatus | setDeregistrationEnabled =>
    revert ran
    simp only [dispatch,setFeeCharging,setNodeTypeFeeFloor,setNodeTypeDisabled,setAccountBanStatus,setDeregistrationEnabled,passes,forall_exists_index,and_imp]
    intros
    subst_vars
    exact .aside (Kept.event {} rfl) (thinned_same rfl)
  | forceUnregisterColdkeyNode _ nodeId | unregisterMainNode _ nodeId =>
    revert ran
    simp only [dispatch,forceUnregisterColdkeyNode,unregisterMainNode,passes,forall_exists_index,and_imp]
    intros
    subst_vars
    exact .aside (degradedOrUnregister_ok cfg s nodeId).1 (degradedOrUnregister_ok cfg s nodeId).2
  | swapNodeOwner _ nodeId newOwner =>
    simp only [dispatch,swapNodeOwner,passes] at ran
    obtain ⟨_,_,info,found,_,_,_,rfl⟩ := ran
    obtain ⟨_,same⟩ := ownerToNodeRemove_eq
      {s with coldkeyNodeRegistrationV2:=s.coldkeyNodeRegistrationV2.insert nodeId {info with owner:=newOwner}} info.owner nodeId
    rw [same]
    exact .aside (Kept.event {} rfl) (thinned_rewrite rfl found rfl rfl)
  | submitDeregistrationReport =>
    obtain ⟨_,_,signed,change⟩ := submitDeregistrationReport_ok ran
    exact .reports signed change
  | doUnregisterMainNode nodeId =>
    cases ran
    exact .aside (doUnregisterMainNode_ok cfg s nodeId).1 (doUnregisterMainNode_ok cfg s nodeId).2
  | nextBlock =>
    cases ran
    exact .block (onInitialize_block cfg s)
  | elsewhere =>
    cases ran
    exact .aside {} (thinned_same rfl)

end TheBrain.Registration
