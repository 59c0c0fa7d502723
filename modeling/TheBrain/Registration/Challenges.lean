import TheBrain.Registration.Specs

namespace TheBrain.Registration
open Library Machine Words Function List

section
variable {A H W : Type}
variable {cfg : Config A H W} {s t : State A H W}

-- A challenge that was accepted is remembered until the block it expires in.
def Remembered (cfg : Config A H W) (s : State A H W) (challengeBytes : Bytes) : Prop :=
  ∃ challenge, cfg.decodeChallenge challengeBytes = some challenge ∧
    (s.usedChallenges (cfg.blake2256 challengeBytes) = some challenge.expiresAt ∨ challenge.expiresAt ≤ s.blockNumber)

theorem Remembered.block [DecidableEq A] (change : Block cfg s t) (remembered : Remembered cfg s old) : Remembered cfg t old := by
  obtain ⟨challenge,found,held⟩ := remembered
  refine ⟨challenge,found,?_⟩
  rw [change.used,change.block]
  by_cases passed : challenge.expiresAt ≤ s.blockNumber + 1
  · exact .inr passed
  · have used := held.resolve_right (by omega)
    refine .inl ?_
    dsimp only
    rw [used]
    exact if_pos (decide_eq_true (by omega))

theorem Remembered.still (used : t.usedChallenges = s.usedChallenges) (block : t.blockNumber = s.blockNumber)
    (remembered : Remembered cfg s old) : Remembered cfg t old := by
  unfold Remembered
  rw [used,block]
  exact remembered

variable [DecidableEq H]

theorem Remembered.registers (collisionFree : Injective cfg.blake2256)
    (change : Registers cfg nodeId fresh publicKey nodeIdHex challenge s t) (remembered : Remembered cfg s old) :
    Remembered cfg t old := by
  obtain ⟨decoded,found,held⟩ := remembered
  refine ⟨decoded,found,?_⟩
  rw [change.used,change.block]
  by_cases same : old = fresh
  · rw [same] at found ⊢
    rw [change.decoded] at found
    cases found
    exact .inl (update_self ..)
  · rw [update_of_ne (fun hashes => same (collisionFree hashes))]
    exact held

theorem registers_fresh (change : Registers cfg nodeId challengeBytes publicKey nodeIdHex challenge s t)
    (early : challenge.expiresAt ≠ s.blockNumber) : ¬Remembered cfg s challengeBytes := by
  intro ⟨decoded,found,held⟩
  rw [change.decoded] at found
  cases found
  have alive := change.alive
  rcases held with used | passed
  · rw [change.unused] at used
    cases used
  · omega

variable [DecidableEq A]

def challengesAccepted (cfg : Config A H W) (s : State A H W) (call : Call A W) : List Bytes :=
  match call,dispatch cfg s call with
  | .registerNodeWithColdkey _ _ _ _ _ _ _ _ challengeBytes _,.ok _ => [challengeBytes]
  | _,_ => []

-- No challenge is handed in during the very block it expires in.
def BeforeExpiry (cfg : Config A H W) (s : State A H W) : Call A W → Prop
  | .registerNodeWithColdkey _ _ _ _ _ _ _ _ challengeBytes _ =>
    ∀ challenge, cfg.decodeChallenge challengeBytes = some challenge → challenge.expiresAt ≠ s.blockNumber
  | _ => True

theorem change_remembered (collisionFree : Injective cfg.blake2256) (change : Change cfg s call t)
    (remembered : Remembered cfg s old) : Remembered cfg t old := by
  cases change with
  | registers change => exact remembered.registers collisionFree change
  | forces kept | aside kept => exact remembered.still kept.used kept.block
  | reports _ change => exact remembered.still change.used change.block
  | block change => exact remembered.block change

theorem challengesAccepted_cases (cfg : Config A H W) (s : State A H W) (call : Call A W) :
    challengesAccepted cfg s call = [] ∨ ∃ nodeId challengeBytes publicKey nodeIdHex challenge,
      challengesAccepted cfg s call = [challengeBytes] ∧
      Registers cfg nodeId challengeBytes publicKey nodeIdHex challenge s (step cfg s call) ∧
      (BeforeExpiry cfg s call → challenge.expiresAt ≠ s.blockNumber) := by
  cases call with
  | registerNodeWithColdkey origin nodeType nodeId payInCredits owner keyType publicKey sig challengeBytes nodeIdHex =>
    cases ran : registerNodeWithColdkey cfg s origin nodeType nodeId payInCredits owner keyType publicKey sig challengeBytes
        nodeIdHex with
    | error =>
      refine .inl ?_
      dsimp only [challengesAccepted,dispatch]
      rw [ran]
    | ok =>
      obtain ⟨challenge,change⟩ := registerNodeWithColdkey_ok ran
      refine .inr ⟨nodeId,challengeBytes,publicKey,nodeIdHex,challenge,?_,?_,?_⟩
      · dsimp only [challengesAccepted,dispatch]
        rw [ran]
      · dsimp only [step,dispatch]
        rw [ran]
        exact change
      · exact fun early => early challenge change.decoded
  | _ => exact .inl rfl

structure Unrepeated (cfg : Config A H W) (p : State A H W × List Bytes) : Prop where
  distinct : p.2.Nodup
  remembered : ∀ old ∈ p.2, Remembered cfg p.1 old

theorem recording_unrepeated (collisionFree : Injective cfg.blake2256) (p : State A H W × List Bytes)
    (call : Call A W) (before : Unrepeated cfg p) (early : BeforeExpiry cfg p.1 call) :
    Unrepeated cfg (recording (step cfg) (challengesAccepted cfg) p call) := by
  have later : ∀ old, Remembered cfg p.1 old → Remembered cfg (step cfg p.1 call) old := by
    intro old remembered
    exact commit_inv (fun t => Remembered cfg t old) remembered
      fun t ran => change_remembered collisionFree (dispatch_change call ran) remembered
  dsimp only [recording]
  rcases challengesAccepted_cases cfg p.1 call with silent | ⟨_,challengeBytes,_,_,challenge,handed,change,fresh⟩
  · rw [silent,append_nil]
    exact ⟨before.distinct,fun old mem => later old (before.remembered old mem)⟩
  · rw [handed]
    constructor
    case distinct =>
      refine before.distinct.append (nodup_singleton _) ?_
      rw [disjoint_singleton]
      intro mem
      exact registers_fresh change (fresh early) (before.remembered challengeBytes mem)
    case remembered =>
      intro old mem
      rcases mem_append.mp mem with earlier | now
      · exact later old (before.remembered old earlier)
      · rw [mem_singleton.mp now]
        refine ⟨challenge,change.decoded,.inl ?_⟩
        rw [change.used]
        exact update_self ..

theorem challenge_single_use (collisionFree : Injective cfg.blake2256) (calls : List (Call A W))
    (early : Throughout (step cfg) (BeforeExpiry cfg) s calls) :
    (run (recording (step cfg) (challengesAccepted cfg)) (s,[]) calls).2.Nodup := by
  have start : Unrepeated cfg (s,[]) := ⟨nodup_nil,nofun⟩
  have guarded := throughout_recording (challengesAccepted cfg) (s,[]) early
  exact (run_invariant (Unrepeated cfg) (recording_unrepeated collisionFree) start guarded).distinct

end

def testPeerId (key : UInt8) : Bytes := peerIdPrefix ++ List.replicate 32 key

def testChallenge : Bytes → Option (RegisterChallenge Nat Bytes)
  | [account,expiresAt,key] => some ⟨expectedDomain,[],account.toNat,testPeerId key,[],0,[],expiresAt.toNat⟩
  | _ => none

def testConfig : Config Nat Bytes Unit where
  minerStakeThreshold := 0
  initialFee := fun _ => 0
  blocksPerDay := 14400
  nodeCooldownPeriod := 0
  maxDeregRequestsPerPeriod := 20
  consensusThreshold := 2
  consensusPeriod := 10
  epochDuration := 100
  reportRequestsClearInterval := 1000
  accountId := 0
  genesisHash := []
  decodeChallenge := testChallenge
  blake2256 := fun bytes => bytes
  ed25519Verify := fun _ _ _ => true
  nodeRank := fun nodeId => (nodeId.head?.getD 0).toNat
  accountRank := fun account => account
  activeStake := fun _ _ => 0
  delegates := fun _ _ => []
  uids := fun _ => [(1,.validator),(2,.validator),(3,.miner),(4,.miner)]
  whitelistedValidators := fun _ => []
  freeBalance := fun _ _ => 0
  transfer := fun world _ _ _ => some world
  isAuthority := fun _ _ => false
  removeMetrics := fun world _ => world

def testRegister (owner : Nat) (nodeType : NodeType) (nodeId : Bytes) (account expiresAt key : UInt8) : Call Nat Unit :=
  .registerNodeWithColdkey (.signed owner) nodeType nodeId false owner .ed25519 (List.replicate 32 key) (List.replicate 64 0)
    [account,expiresAt,key] (testPeerId key)

def replay : List (Call Nat Unit) :=
  [testRegister 3 .computeMiner [1] 3 3 7,.unregisterMainNode (.signed 3) [1],.nextBlock,.nextBlock,.nextBlock,
    testRegister 3 .computeMiner [2] 3 3 7]

theorem challenge_accepted_twice :
    (run (recording (step testConfig) (challengesAccepted testConfig)) (genesis (),[]) replay).2 = [[3,3,7],[3,3,7]] := by
  decide +kernel

def replayEarly : List (Call Nat Unit) :=
  [testRegister 3 .computeMiner [1] 3 3 7,.unregisterMainNode (.signed 3) [1],.nextBlock,.nextBlock,
    testRegister 3 .computeMiner [2] 3 3 7,testRegister 3 .computeMiner [2] 3 4 7]

theorem challenge_single_use_replayEarly :
    Injective testConfig.blake2256 ∧ Throughout (step testConfig) (BeforeExpiry testConfig) (genesis ()) replayEarly ∧
    let p := run (recording (step testConfig) (challengesAccepted testConfig)) (genesis (),[]) replayEarly
    p.2 = [[3,3,7],[3,4,7]] ∧ p.2.Nodup := by
  have collisionFree : Injective testConfig.blake2256 := fun _ _ same => same
  have early : Throughout (step testConfig) (BeforeExpiry testConfig) (genesis ()) replayEarly := by
    refine ⟨?_,trivial,trivial,trivial,?_,?_,trivial⟩
    · rintro challenge ⟨⟩
      decide +kernel
    · rintro challenge ⟨⟩
      decide +kernel
    · rintro challenge ⟨⟩
      decide +kernel
  exact ⟨collisionFree,early,by decide +kernel,challenge_single_use collisionFree replayEarly early⟩

section
variable {A H W : Type}
variable {cfg : Config A H W} {s t : State A H W}

-- The pallet does not look at how node_id and node_id_hex belong together. Here every caller
-- derives the first from the second in one and the same way, and root registers nothing.
def Derived (nodeIdOf : Bytes → Bytes) : Call A W → Prop
  | .registerNodeWithColdkey _ _ nodeId _ _ _ _ _ _ nodeIdHex => nodeId = nodeIdOf nodeIdHex
  | .forceRegisterColdkeyNode .. => False
  | _ => True

theorem verifyPeerId_ok (verified : verifyPeerId publicKey peerId keyType = true) : peerId = peerIdPrefix ++ publicKey := by
  cases keyType with
  | ed25519 =>
    simp only [verifyPeerId] at verified
    split at verified
    · cases verified
    · split at verified
      · cases verified
      next starts =>
        rw [← not_ne_iff.mp starts,← of_decide_eq_true verified]
        exact (take_append_drop 6 peerId).symm

def Keyed (nodeIdOf : Bytes → Bytes) (s : State A H W) : Prop :=
  ∀ nodeId info, s.coldkeyNodeRegistrationV2.lookup nodeId = some info →
    ∃ publicKey, s.libp2pMainIdentity nodeId = some (.ed25519,publicKey) ∧ nodeId = nodeIdOf (peerIdPrefix ++ publicKey)

theorem Keyed.thinned (keyed : Keyed nodeIdOf s) (thinned : Thinned s t) (identities : t.libp2pMainIdentity = s.libp2pMainIdentity) :
    Keyed nodeIdOf t := by
  intro nodeId info found
  obtain ⟨old,held,_,_⟩ := thinned nodeId info found
  rw [identities]
  exact keyed nodeId old held

variable [DecidableEq H]

theorem Keyed.registers (keyed : Keyed nodeIdOf s) (change : Registers cfg nodeId challengeBytes publicKey nodeIdHex challenge s t)
    (derived : nodeId = nodeIdOf nodeIdHex) : Keyed nodeIdOf t := by
  obtain ⟨_,_,rows⟩ := change.row
  intro other info found
  rw [rows,StorageMap.lookup_insert_if] at found
  rw [change.identities]
  by_cases same : other = nodeId
  · refine ⟨publicKey,?_,?_⟩
    · rw [same]
      exact Function.update_self ..
    · rw [same,derived,verifyPeerId_ok change.peer]
  · rw [if_neg (fun equal => same equal)] at found
    rw [Function.update_of_ne same]
    exact keyed other info found

variable [DecidableEq A]

theorem step_keyed (s : State A H W) (call : Call A W) (keyed : Keyed nodeIdOf s)
    (derived : Derived nodeIdOf call) : Keyed nodeIdOf (step cfg s call) := by
  refine commit_inv (Keyed nodeIdOf) keyed ?_
  intro t ran
  have change := dispatch_change call ran
  cases change with
  | registers change => exact keyed.registers change derived
  | forces => exact derived.elim
  | reports _ change => exact keyed.thinned (thinned_same change.rows) change.identities
  | block change => exact keyed.thinned change.thinned change.identities
  | aside kept thinned => exact keyed.thinned thinned kept.identities

theorem registered_keys_distinct (nodeIdOf : Bytes → Bytes) (world : W) (calls : List (Call A W))
    (derived : ∀ call ∈ calls, Derived nodeIdOf call) :
    let s := run (step cfg) (genesis world) calls
    ∀ one two, (s.coldkeyNodeRegistrationV2.lookup one).isSome = true → (s.coldkeyNodeRegistrationV2.lookup two).isSome = true →
      s.libp2pMainIdentity one = s.libp2pMainIdentity two → one = two := by
  intro s one two first second same
  have start : Keyed nodeIdOf (genesis world : State A H W) := nofun
  have keyed : Keyed nodeIdOf s :=
    run_invariant (Keyed nodeIdOf) step_keyed start (throughout_of_mem _ calls fun call mem _ => derived call mem)
  obtain ⟨info,found⟩ := Option.isSome_iff_exists.mp first
  obtain ⟨info',found'⟩ := Option.isSome_iff_exists.mp second
  obtain ⟨publicKey,identity,id⟩ := keyed one info found
  obtain ⟨publicKey',identity',id'⟩ := keyed two info' found'
  rw [identity,identity'] at same
  cases same
  exact id.trans id'.symm

end

-- Key 7 signs one challenge for account 3 and one for account 4, which name their nodes [1]
-- and [2].
def sharedKey : List (Call Nat Unit) := [testRegister 3 .computeMiner [1] 3 9 7,testRegister 4 .gpuMiner [2] 4 9 7]

theorem key_registered_twice :
    let s := run (step testConfig) (genesis ()) sharedKey
    (s.coldkeyNodeRegistrationV2.lookup [1]).isSome = true ∧ (s.coldkeyNodeRegistrationV2.lookup [2]).isSome = true ∧
    s.libp2pMainIdentity [1] = s.libp2pMainIdentity [2] ∧ s.libp2pMainIdentity [1] = some (.ed25519,replicate 32 7) := by
  decide +kernel

def ownKeys : List (Call Nat Unit) :=
  [testRegister 3 .computeMiner (testPeerId 7) 3 9 7,testRegister 4 .gpuMiner (testPeerId 7) 4 9 7,
    testRegister 4 .gpuMiner (testPeerId 8) 4 9 8]

theorem registered_keys_distinct_ownKeys :
    let s := run (step testConfig) (genesis ()) ownKeys
    (∀ call ∈ ownKeys, Derived (fun nodeIdHex => nodeIdHex) call) ∧
    (s.coldkeyNodeRegistrationV2.lookup (testPeerId 7)).map (fun info => info.owner) = some 3 ∧
    (s.coldkeyNodeRegistrationV2.lookup (testPeerId 8)).map (fun info => info.owner) = some 4 ∧
    s.libp2pMainIdentity (testPeerId 7) ≠ s.libp2pMainIdentity (testPeerId 8) := by
  intro s
  have derived : ∀ call ∈ ownKeys, Derived (fun nodeIdHex => nodeIdHex) call := by
    intro call mem
    simp only [ownKeys,mem_cons,not_mem_nil,or_false] at mem
    rcases mem with rfl | rfl | rfl
    · rfl
    · rfl
    · rfl
  refine ⟨derived,by decide +kernel,by decide +kernel,?_⟩
  intro same
  have equal := registered_keys_distinct (fun nodeIdHex => nodeIdHex) () ownKeys derived (testPeerId 7) (testPeerId 8)
    (by decide +kernel) (by decide +kernel) same
  exact absurd equal (by decide)

end TheBrain.Registration
