import Mathlib.Algebra.Order.BigOperators.Group.List
import TheBrain.ComputeScoring.Specs

namespace TheBrain.ComputeScoring
open Library Machine Words HippiusTypes List

structure Attested where
  vmId : List UInt8
  epoch : Word 64
  body : List UInt8

def bodiesOf (vmId : List UInt8) (log : List Attested) : List (List UInt8) := (log.filter fun e => e.vmId = vmId).map Attested.body

def acceptedFor (vmId : List UInt8) (epoch : Word 64) (log : List Attested) : Nat := log.countP fun e => e.vmId = vmId ∧ e.epoch = epoch

section
variable {A H W : Type}
variable {cfg : Config A H W} {s t : State A H W} {log : List Attested}

def lastHash (cfg : Config A H W) (bodies : List (List UInt8)) : H := (bodies.getLast?.map cfg.sha2256).getD cfg.zero

-- The bodies of one VM in the order of acceptance: each decodes to an attestation of the
-- VM, numbered by its place and pointing to the body before it.
inductive Chained (cfg : Config A H W) (vmId : List UInt8) : List (List UInt8) → Prop where
  | nil : Chained cfg vmId []
  | snoc : Chained cfg vmId bodies → LiveAttestation.decode cfg.toDigest body = .ok a → a.vmId.val = vmId →
      a.attestationSeq.val = bodies.length + 1 → a.prevAttestationHash = lastHash cfg bodies → Chained cfg vmId (bodies ++ [body])

theorem Chained.decoded (chain : Chained cfg vmId bodies) (mem : body ∈ bodies) :
    ∃ a, LiveAttestation.decode cfg.toDigest body = .ok a ∧ a.vmId.val = vmId ∧ a.attestationSeq.val ≤ bodies.length := by
  induction chain with
  | nil => cases mem
  | snoc _ decoded named numbered _ ih =>
    rw [length_append]
    rcases mem_append.mp mem with old | last
    · obtain ⟨a,known,mine,below⟩ := ih old
      exact ⟨a,known,mine,below.trans (Nat.le_succ _)⟩
    · rw [mem_singleton.mp last]
      exact ⟨_,decoded,named,numbered.le⟩

variable [DecidableEq H]

-- The head of every VM's chain is its last accepted body, and the counter of the current
-- epoch is the number of its bodies in this epoch up to the width of the counter.
structure Sequenced (cfg : Config A H W) (s : State A H W) (log : List Attested) : Prop where
  past : ∀ e ∈ log, e.epoch ≤ s.epochs.currentEpoch
  chains : ∀ vmId, Chained cfg vmId (bodiesOf vmId log)
  numbers : ∀ vmId : List UInt8, vmId.length ≤ cfg.maxVmIdLen →
    (expectedNext cfg s (cfg.blake2256 vmId)).1.val = (bodiesOf vmId log).length + 1
  heads : ∀ vmId : List UInt8, vmId.length ≤ cfg.maxVmIdLen → (expectedNext cfg s (cfg.blake2256 vmId)).2 = lastHash cfg (bodiesOf vmId log)
  once : (log.map Attested.body).Nodup
  counts : ∀ vmId : List UInt8, vmId.length ≤ cfg.maxVmIdLen →
    (countOf s s.epochs.currentEpoch (cfg.blake2256 vmId)).val = min (acceptedFor vmId s.epochs.currentEpoch log) (maxOf 32)
  ahead : ∀ key, s.epochs.currentEpoch < key.1 → s.attestations.liveAttestationCount.lookup key = none

theorem sequenced_untouched (sequenced : Sequenced cfg s log) (chains : t.attestations.lastLiveAttestation = s.attestations.lastLiveAttestation)
    (counts : t.attestations.liveAttestationCount = s.attestations.liveAttestationCount)
    (epoch : t.epochs.currentEpoch = s.epochs.currentEpoch) : Sequenced cfg t log := by
  have next : ∀ hash, expectedNext cfg t hash = expectedNext cfg s hash := by
    intro hash
    rw [expectedNext,expectedNext,chains]
  refine ⟨?_,sequenced.chains,?_,?_,sequenced.once,?_,?_⟩
  · rw [epoch]
    exact sequenced.past
  · intro vmId short
    rw [next]
    exact sequenced.numbers vmId short
  · intro vmId short
    rw [next]
    exact sequenced.heads vmId short
  · intro vmId short
    rw [epoch,countOf,counts]
    exact sequenced.counts vmId short
  · rw [epoch,counts]
    exact sequenced.ahead

theorem sequenced_closed (sequenced : Sequenced cfg s log) (closed : Closed epoch s t) : Sequenced cfg t log := by
  have next : ∀ hash, expectedNext cfg t hash = expectedNext cfg s hash := by
    intro hash
    rw [expectedNext,expectedNext,closed.chains]
  refine ⟨?_,sequenced.chains,?_,?_,sequenced.once,?_,?_⟩
  · intro e mem
    rw [closed.current]
    exact (sequenced.past e mem).trans closed.later.le
  · intro vmId short
    rw [next]
    exact sequenced.numbers vmId short
  · intro vmId short
    rw [next]
    exact sequenced.heads vmId short
  · intro vmId short
    have empty : acceptedFor vmId epoch log = 0 := by
      refine countP_eq_zero.mpr ?_
      intro e mem counted
      have same := (of_decide_eq_true counted).2
      have old := sequenced.past e mem
      rw [same] at old
      exact absurd closed.later (not_lt.mpr old)
    have missing := closed.counts (epoch,cfg.blake2256 vmId) le_rfl
    rw [sequenced.ahead _ closed.later] at missing
    rw [closed.current,empty,countOf,missing]
    rfl
  · intro key later
    rw [closed.current] at later
    rw [closed.counts key later.le]
    exact sequenced.ahead key (closed.later.trans later)

theorem sequenced_start (unheard : ∀ hash, s.attestations.lastLiveAttestation hash = none)
    (uncounted : s.attestations.liveAttestationCount = ∅) : Sequenced cfg s [] := by
  refine ⟨?_,fun _ => .nil,?_,?_,nodup_nil,?_,?_⟩
  · intro e mem
    cases mem
  · intro vmId _
    simp [expectedNext,unheard,bodiesOf]
  · intro vmId _
    simp [expectedNext,unheard,bodiesOf,lastHash]
  · intro vmId _
    simp [countOf,uncounted,acceptedFor]
  · intro key _
    rw [uncounted]
    rfl

variable [DecidableEq A]

def attested (cfg : Config A H W) (s : State A H W) : Call A H W → List Attested
  | .submitLiveAttestation origin view signed =>
    if accepts cfg s (.submitLiveAttestation origin view signed) then [⟨view.vmId,s.epochs.currentEpoch,signed.body⟩] else []
  | _ => []

theorem bodiesOf_snoc (vmId : List UInt8) (log : List Attested) (e : Attested) :
    bodiesOf vmId (log ++ [e]) = bodiesOf vmId log ++ if e.vmId = vmId then [e.body] else [] := by
  unfold bodiesOf
  by_cases mine : e.vmId = vmId
  · simp [mine]
  · simp [mine]

theorem acceptedFor_snoc (vmId : List UInt8) (epoch : Word 64) (log : List Attested) (e : Attested) :
    acceptedFor vmId epoch (log ++ [e]) = acceptedFor vmId epoch log + if e.vmId = vmId ∧ e.epoch = epoch then 1 else 0 := by
  unfold acceptedFor
  by_cases counted : e.vmId = vmId ∧ e.epoch = epoch
  · simp [counted]
  · simp [counted]

-- VM ids of admissible length have different hashes.
def HashesVmIds (cfg : Config A H W) : Prop :=
  ∀ a b : List UInt8, a.length ≤ cfg.maxVmIdLen → b.length ≤ cfg.maxVmIdLen → cfg.blake2256 a = cfg.blake2256 b → a = b

def SeqBelow (cfg : Config A H W) (p : State A H W × List Attested) : Call A H W → Prop
  | .submitLiveAttestation origin view signed =>
    accepts cfg p.1 (.submitLiveAttestation origin view signed) = true → view.attestationSeq.val < 2 ^ 64 - 1
  | _ => True

theorem submitLiveAttestation_ok (ran : submitLiveAttestation cfg s origin view signed = .ok t) :
    attestationBounded cfg view signed ∧ view.epoch = s.epochs.currentEpoch ∧
      view.attestationSeq = (expectedNext cfg s (cfg.blake2256 view.vmId)).1 ∧
      view.prevAttestationHash = (expectedNext cfg s (cfg.blake2256 view.vmId)).2 ∧
      (∃ body, LiveAttestation.decode cfg.toDigest signed.body = .ok body ∧ boundTo body view) ∧
      t.epochs = s.epochs ∧ t.nowUnix = s.nowUnix ∧ t.attestations = {s.attestations with
        lastLiveAttestation:=Function.update s.attestations.lastLiveAttestation (cfg.blake2256 view.vmId)
          (some ⟨view.nodeId,view.attestationSeq,cfg.sha2256 signed.body,view.epoch,view.observedAtUnix⟩)
        liveAttestationCount:=s.attestations.liveAttestationCount.insert (view.epoch,cfg.blake2256 view.vmId)
          (addSaturating (countOf s view.epoch (cfg.blake2256 view.vmId)) 1)} := by
  simp only [submitLiveAttestation,passes] at ran
  obtain ⟨bounded,_,_,_,_,_,_,epoch,_,seq,prev,_,body,decoded,bound,_,rfl⟩ := ran
  refine ⟨bounded,epoch,seq,prev,⟨body,?_,bound⟩,rfl,rfl,rfl⟩
  cases read : LiveAttestation.decode cfg.toDigest signed.body with
  | ok =>
    rw [read] at decoded
    rw [Option.some.inj decoded]
  | error =>
    rw [read] at decoded
    cases decoded

theorem expectedNext_submitted (ran : submitLiveAttestation cfg s origin view signed = .ok t) (hash : H) :
    expectedNext cfg t hash =
      if hash = cfg.blake2256 view.vmId then (addSaturating view.attestationSeq 1,cfg.sha2256 signed.body) else expectedNext cfg s hash := by
  obtain ⟨_,_,_,_,_,_,_,attestations⟩ := submitLiveAttestation_ok ran
  by_cases mine : hash = cfg.blake2256 view.vmId
  · simp [expectedNext,attestations,mine]
  · simp [expectedNext,attestations,mine]

theorem lookup_submitted (ran : submitLiveAttestation cfg s origin view signed = .ok t) (key : Word 64 × H) :
    t.attestations.liveAttestationCount.lookup key = if key = (s.epochs.currentEpoch,cfg.blake2256 view.vmId) then
      some (addSaturating (countOf s s.epochs.currentEpoch (cfg.blake2256 view.vmId)) 1) else s.attestations.liveAttestationCount.lookup key := by
  obtain ⟨_,epoch,_,_,_,_,_,attestations⟩ := submitLiveAttestation_ok ran
  rw [attestations,← epoch]
  exact StorageMap.lookup_insert_if ..

theorem sequenced_submitted (hashes : HashesVmIds cfg) (sequenced : Sequenced cfg s log) (below : view.attestationSeq.val < 2 ^ 64 - 1)
    (ran : submitLiveAttestation cfg s origin view signed = .ok t) :
    Sequenced cfg t (log ++ [⟨view.vmId,s.epochs.currentEpoch,signed.body⟩]) := by
  obtain ⟨⟨admitted,_⟩,_,seq,prev,⟨body,decoded,bound⟩,epochs,_,_⟩ := submitLiveAttestation_ok ran
  obtain ⟨_,_,named,_,numbered,_,_,_,linked,_,_⟩ := bound
  have next := expectedNext_submitted ran
  have count := lookup_submitted ran
  have current : t.epochs.currentEpoch = s.epochs.currentEpoch := congrArg Epochs.currentEpoch epochs
  have number : view.attestationSeq.val = (bodiesOf view.vmId log).length + 1 := by
    rw [seq]
    exact sequenced.numbers view.vmId admitted
  have apart : ∀ vmId : List UInt8, vmId.length ≤ cfg.maxVmIdLen → view.vmId ≠ vmId → cfg.blake2256 vmId ≠ cfg.blake2256 view.vmId := by
    intro vmId short other same
    exact other (hashes vmId view.vmId short admitted same).symm
  have extended : Chained cfg view.vmId (bodiesOf view.vmId log ++ [signed.body]) := by
    refine .snoc (sequenced.chains view.vmId) decoded named ?_ ?_
    · rw [numbered,number]
    · rw [linked,prev]
      exact sequenced.heads view.vmId admitted
  -- An equal body would be one of the same VM with an earlier number.
  have unseen : ∀ e ∈ log, e.body ≠ signed.body := by
    intro e mem same
    have listed : e.body ∈ bodiesOf e.vmId log := mem_map_of_mem (mem_filter.mpr ⟨mem,by simp⟩)
    obtain ⟨_,known,mine,earlier⟩ := (sequenced.chains e.vmId).decoded listed
    rw [same,decoded] at known
    cases known
    rw [← mine,named,numbered] at earlier
    omega
  constructor
  case past =>
    intro e mem
    rw [current]
    rcases mem_append.mp mem with old | last
    · exact sequenced.past e old
    · rw [mem_singleton.mp last]
  case chains =>
    intro vmId
    rw [bodiesOf_snoc]
    by_cases mine : view.vmId = vmId
    · cases mine
      rw [if_pos rfl]
      exact extended
    · rw [if_neg mine,append_nil]
      exact sequenced.chains vmId
  case numbers =>
    intro vmId short
    rw [bodiesOf_snoc,next]
    by_cases mine : view.vmId = vmId
    · cases mine
      rw [if_pos rfl,if_pos rfl,addSaturating_val,saturatingAdd_exact (by omega),number,length_append,length_singleton]
    · rw [if_neg (apart vmId short mine),if_neg mine,append_nil]
      exact sequenced.numbers vmId short
  case heads =>
    intro vmId short
    rw [bodiesOf_snoc,next]
    by_cases mine : view.vmId = vmId
    · cases mine
      simp [lastHash]
    · rw [if_neg (apart vmId short mine),if_neg mine,append_nil]
      exact sequenced.heads vmId short
  case once =>
    rw [map_append,nodup_append]
    refine ⟨sequenced.once,nodup_singleton _,?_⟩
    intro known mem other last
    obtain ⟨e,listed,rfl⟩ := mem_map.mp mem
    rw [map_singleton,mem_singleton] at last
    rw [last]
    exact unseen e listed
  case counts =>
    intro vmId short
    have before := sequenced.counts vmId short
    rw [current,acceptedFor_snoc,countOf,count]
    by_cases mine : view.vmId = vmId
    · cases mine
      rw [if_pos rfl,if_pos ⟨rfl,rfl⟩,Option.getD_some,addSaturating_val,before,saturatingAdd]
      generalize maxOf 32 = width
      omega
    · rw [if_neg (fun same => apart vmId short mine (Prod.mk.inj same).2),if_neg (fun both => mine both.1)]
      exact before
  case ahead =>
    intro key later
    rw [current] at later
    rw [count,if_neg]
    · exact sequenced.ahead key later
    · rintro rfl
      exact absurd later (lt_irrefl _)

theorem attested_silent (other : ∀ origin view signed, call ≠ .submitLiveAttestation origin view signed) : attested cfg s call = [] := by
  cases call with
  | submitLiveAttestation origin view signed => exact absurd rfl (other origin view signed)
  | _ => rfl

theorem dispatch_sequenced (hashes : HashesVmIds cfg) (sequenced : Sequenced cfg s log) (below : SeqBelow cfg (s,log) call)
    (ran : dispatch cfg s call = .ok t) : Sequenced cfg t (log ++ attested cfg s call) := by
  cases call with
  | submitLiveAttestation =>
    rw [attested,if_pos (accepts_ok ran)]
    exact sequenced_submitted hashes sequenced (below (accepts_ok ran)) ran
  | valiSubmitEpochClose =>
    rw [attested_silent (by simp),append_nil]
    exact sequenced_closed sequenced (valiSubmitEpochClose_ok ran)
  | _ =>
    obtain ⟨epoch,chains,counts⟩ := dispatch_unattested ran (by intros; simp) (by intros; simp)
    rw [attested_silent (by intros; simp),append_nil]
    exact sequenced_untouched sequenced chains counts epoch.epoch

theorem attested_rejected (rejected : dispatch cfg s call = .error e) : attested cfg s call = [] := by
  cases call with
  | submitLiveAttestation => simp [attested,accepts,rejected]
  | _ => rfl

theorem step_sequenced (hashes : HashesVmIds cfg) (p : State A H W × List Attested) (call : Call A H W)
    (sequenced : Sequenced cfg p.1 p.2) (below : SeqBelow cfg p call) :
    Sequenced cfg (recording (step cfg) (attested cfg) p call).1 (recording (step cfg) (attested cfg) p call).2 := by
  unfold recording step
  cases ran : dispatch cfg p.1 call with
  | error =>
    rw [attested_rejected ran,append_nil]
    exact sequenced
  | ok => exact dispatch_sequenced hashes sequenced below ran

def acceptedAttestations (cfg : Config A H W) (s : State A H W) (calls : List (Call A H W)) :
    List Attested := (run (recording (step cfg) (attested cfg)) (s,[]) calls).2

theorem attestations_chained (cfg : Config A H W) (s : State A H W) (calls : List (Call A H W))
    (hashes : HashesVmIds cfg) (unheard : ∀ hash, s.attestations.lastLiveAttestation hash = none)
    (uncounted : s.attestations.liveAttestationCount = ∅)
    (below : Throughout (recording (step cfg) (attested cfg)) (SeqBelow cfg) (s,[]) calls) :
    (∀ vmId, Chained cfg vmId (bodiesOf vmId (acceptedAttestations cfg s calls))) ∧
      ((acceptedAttestations cfg s calls).map Attested.body).Nodup ∧
      ∀ vmId : List UInt8, vmId.length ≤ cfg.maxVmIdLen →
        (countOf (run (step cfg) s calls) (run (step cfg) s calls).epochs.currentEpoch (cfg.blake2256 vmId)).val =
          min (acceptedFor vmId (run (step cfg) s calls).epochs.currentEpoch (acceptedAttestations cfg s calls)) (2 ^ 32 - 1) := by
  have reached := run_invariant (fun p => Sequenced cfg p.1 p.2) (step_sequenced hashes) (sequenced_start unheard uncounted) below
  have counts := reached.counts
  rw [run_recording_fst] at counts
  exact ⟨reached.chains,reached.once,counts⟩

theorem submitLiveAttestation_accepts {body : LiveAttestation H} (bounded : attestationBounded cfg view signed)
    (trusted : ensureValiSubmitter cfg s origin = .ok ()) (full : signed.body ≠ []) (window : view.observedAtUnix ≤ view.verifiedAtUnix)
    (registered : cfg.isNodeRegistered s.world view.nodeId = true) (genesis : view.chainGenesis = cfg.computeChainGenesis)
    (instanceOf : view.palletInstance = cfg.computePalletInstance) (epoch : view.epoch = s.epochs.currentEpoch)
    (alive : s.nowUnix < view.expiryUnix.val) (seq : view.attestationSeq = (expectedNext cfg s (cfg.blake2256 view.vmId)).1)
    (prev : view.prevAttestationHash = (expectedNext cfg s (cfg.blake2256 view.vmId)).2)
    (allowed : view.signerPubkey ∈ s.attestations.kbsAttestationPubkeys)
    (decoded : LiveAttestation.decode cfg.toDigest signed.body = .ok body) (bound : boundTo body view)
    (verified : cfg.ed25519Verify view.signerPubkey signed.body signed.sig = true) :
    ∃ t, submitLiveAttestation cfg s origin view signed = .ok t := by
  simp only [submitLiveAttestation,passes]
  exact ⟨_,bounded,trusted,full,window,registered,genesis,instanceOf,epoch,alive,seq,prev,allowed,body,by rw [decoded]; rfl,bound,verified,rfl⟩

end

def vmName : Cbor.Text := ⟨[118],by decide⟩

def attestation (seq : Word 64) (prev : Short) : LiveAttestation Short where
  schemaVersion := 1
  chainGenesis := shorten [2]
  palletInstance := shorten [1]
  vmId := vmName
  nodeId := shorten [7]
  attestationSeq := seq
  epoch := 0
  observedAtUnix := 1
  verifiedAtUnix := 1
  snpReportDigest := shorten [3]
  vcekChainDigest := shorten [4]
  measurement := ⟨List.replicate measurementLen 0,by rfl⟩
  prevAttestationHash := prev
  expiryUnix := 100
  signerPubkey := shorten [8]

def viewOf (a : LiveAttestation Short) : LiveAttestationView Short :=
  ⟨a.chainGenesis,a.palletInstance,a.vmId.val,a.nodeId,a.attestationSeq,a.epoch,a.observedAtUnix,a.verifiedAtUnix,
    a.prevAttestationHash,a.expiryUnix,a.signerPubkey⟩

def bodyOf (a : LiveAttestation Short) : List UInt8 := (a.canonical plainDigest).toOption.getD []

def attest (a : LiveAttestation Short) : Call Nat Short Unit := .submitLiveAttestation .root (viewOf a) ⟨bodyOf a,[]⟩

def attestedTwice : List (Call Nat Short Unit) :=
  [ .setKbsAttestationPubkey .root (shorten [8]),attest (attestation 1 (shorten [])),
    attest (attestation 2 (shorten (bodyOf (attestation 1 (shorten []))))),attest (attestation 1 (shorten [])),
    .valiSubmitEpochClose .root 1 []]

theorem plain_hashes_vm_ids : HashesVmIds plainConfig := by
  intro a b one two same
  exact shorten_injective (one.trans (by decide)) (two.trans (by decide)) same

theorem attestations_chained_twice :
    (acceptedAttestations plainConfig (genesis ()) attestedTwice).length = 2 ∧
      Chained plainConfig vmName.val (bodiesOf vmName.val (acceptedAttestations plainConfig (genesis ()) attestedTwice)) ∧
      ((acceptedAttestations plainConfig (genesis ()) attestedTwice).map Attested.body).Nodup := by
  have below : Throughout (recording (step plainConfig) (attested plainConfig)) (SeqBelow plainConfig) (genesis (),[]) attestedTwice := by
    refine throughout_of_mem _ _ ?_
    intro call mem p
    simp only [attestedTwice,mem_cons,not_mem_nil,or_false] at mem
    rcases mem with rfl | rfl | rfl | rfl | rfl
    · trivial
    · exact fun _ => (by decide : 1 < 2 ^ 64 - 1)
    · exact fun _ => (by decide : 2 < 2 ^ 64 - 1)
    · exact fun _ => (by decide : 1 < 2 ^ 64 - 1)
    · trivial
  have held := attestations_chained plainConfig (genesis ()) attestedTwice plain_hashes_vm_ids (fun _ => rfl) rfl below
  exact ⟨by decide +kernel,held.1 vmName.val,held.2.1⟩

-- A hash that numbers the bodies of one chain and keeps every other body apart, so that
-- a chain of any length stays within the size of a body.
def numberHash (n : Nat) : Short := if n = 0 then plainDigest.zero else shorten (0 :: Cbor.beBytes 8 n)

def numbered (n : Nat) : LiveAttestation Short := attestation (Fin.ofNat (2 ^ 64) n) (numberHash (n - 1))

def numberOf (body : List UInt8) : Option Nat :=
  match LiveAttestation.decode plainDigest body with
  | .ok a => if bodyOf (numbered a.attestationSeq) = body then some a.attestationSeq else none
  | .error _ => none

def numberingHash (body : List UInt8) : Short :=
  match numberOf body with
  | some n => numberHash n
  | none => shorten (1 :: body)

def numberingConfig : Config Nat Short Unit := {plainConfig with
  sha2256 := numberingHash
  maxLiveAttestationBody := 8192}

theorem numberOf_some (found : numberOf body = some n) : bodyOf (numbered n) = body ∧ n < 2 ^ 64 := by
  unfold numberOf at found
  split at found
  next a _ =>
    split at found
    next same =>
      cases found
      exact ⟨same,a.attestationSeq.isLt⟩
    · cases found
  · cases found

theorem numberHash_injective (one : a < 2 ^ 64) (two : b < 2 ^ 64) (same : numberHash a = numberHash b) : a = b := by
  unfold numberHash at same
  split at same
  next first =>
    split at same
    · next second => rw [first,second]
    · cases congrArg Subtype.val same
  · split at same
    · cases congrArg Subtype.val same
    · have bytes := (cons.inj (shorten_injective (by simp) (by simp) same)).2
      have read := congrArg Cbor.ofBe bytes
      rwa [Cbor.ofBe_beBytes one,Cbor.ofBe_beBytes two] at read

theorem numberHash_apart (n : Nat) (body : List UInt8) : numberHash n ≠ shorten (1 :: body) := by
  intro same
  unfold numberHash at same
  split at same
  · cases congrArg Subtype.val same
  · have bytes := congrArg (fun h : Short => h.val.head?) same
    simp [shorten] at bytes

theorem numberingHash_injective (one : a.length < 2 ^ 32) (two : b.length < 2 ^ 32) (same : numberingHash a = numberingHash b) : a = b := by
  unfold numberingHash at same
  cases left : numberOf a with
  | some m =>
    obtain ⟨first,small⟩ := numberOf_some left
    cases right : numberOf b with
    | some =>
      obtain ⟨second,bounded⟩ := numberOf_some right
      rw [left,right] at same
      rw [← first,← second,numberHash_injective small bounded same]
    | none =>
      rw [left,right] at same
      exact absurd same (numberHash_apart m b)
  | none =>
    cases right : numberOf b with
    | some n =>
      rw [left,right] at same
      exact absurd same.symm (numberHash_apart n a)
    | none =>
      rw [left,right] at same
      exact (cons.inj (shorten_injective one two same)).2

theorem numbered_canonical (positive : 0 < n) (fits : n < 2 ^ 64) : (numbered n).canonical plainDigest = .ok (bodyOf (numbered n)) := by
  have later : (numbered n).attestationSeq ≠ 0 := by
    intro zero
    have value := congrArg Fin.val zero
    change n % 2 ^ 64 = 0 at value
    omega
  have valid : (numbered n).validate = .ok () := by
    simp only [LiveAttestation.validate,passes]
    exact ⟨rfl,cons_ne_nil _ _,later,(by decide : (1 : Word 64) ≠ 0),le_refl (1 : Word 64),(by decide : (1 : Word 64) < 100)⟩
  have encoded : (numbered n).canonical plainDigest =
      .ok (Cbor.encode (.map (sortEntries (((numbered n).fields plainDigest).map entry)))) := by
    simp only [LiveAttestation.canonical,passes]
    exact ⟨valid,record_encodes (LiveAttestation.fields_record plainDigest (numbered n) (by decide : 1 < 2 ^ 64))⟩
  rw [bodyOf,encoded]
  rfl

theorem numbered_decodes (positive : 0 < n) (fits : n < 2 ^ 64) :
    LiveAttestation.decode plainDigest (bodyOf (numbered n)) = .ok (numbered n) :=
  LiveAttestation.decode_canonical plainDigest (numbered n) (by decide : 1 < 2 ^ 64) (numbered_canonical positive fits)

theorem numbered_seq (fits : n < 2 ^ 64) : (numbered n).attestationSeq.val = n := Nat.mod_eq_of_lt fits

theorem numbered_hash (positive : 0 < n) (fits : n < 2 ^ 64) : numberingHash (bodyOf (numbered n)) = numberHash n := by
  have found : numberOf (bodyOf (numbered n)) = some n := by
    rw [numberOf,numbered_decodes positive fits]
    simp only [numbered_seq fits,if_true]
  rw [numberingHash,found]

theorem numberHash_length (n : Nat) : (numberHash n).val.length ≤ 9 := by
  unfold numberHash
  split
  · decide
  · simp [shorten]

theorem numbered_length (positive : 0 < n) (fits : n < 2 ^ 64) : (bodyOf (numbered n)).length ≤ 8192 := by
  have canonical := numbered_canonical positive fits
  simp only [LiveAttestation.canonical,passes] at canonical
  have record := LiveAttestation.fields_record plainDigest (numbered n) (by decide : 1 < 2 ^ 64)
  have whole := record_length record canonical.2
  have labels : (((numbered n).fields plainDigest).map fun field => (Cbor.encode (label field.1)).length).sum ≤ 4000 := by
    have names : (LiveAttestation.names.map fun name => (Cbor.encode (label name)).length).sum ≤ 4000 := by decide +kernel
    exact names
  have bytes : ∀ b : List UInt8, b.length ≤ 100 → (Cbor.encode (.bytes b)).length ≤ 200 := by
    intro b small
    have start := (Cbor.head_length 2 b.length).2
    rw [Cbor.encode,length_append]
    omega
  have word : ∀ w : Word 64, (Cbor.encode (.unsigned w)).length ≤ 200 := by
    intro w
    exact (Cbor.head_length 0 w).2.trans (by decide)
  have short : ∀ byte : UInt8, (shorten [byte]).val.length ≤ 100 := by
    simp [shorten]
  have domain : (Cbor.encode (label liveAttestationDomain)).length ≤ 200 := by decide +kernel
  have name : (Cbor.encode (.text vmName)).length ≤ 200 := by decide +kernel
  have each : ∀ size ∈ ((numbered n).fields plainDigest).map fun field => (Cbor.encode field.2).length, size ≤ 200 := by
    intro size mem
    obtain ⟨_,listed,rfl⟩ := mem_map.mp mem
    simp only [LiveAttestation.fields,mem_cons,not_mem_nil,or_false] at listed
    rcases listed with rfl | rfl | rfl | rfl | rfl | rfl | rfl | rfl | rfl | rfl | rfl | rfl | rfl | rfl | rfl | rfl
    · exact word _
    · exact bytes _ (short _)
    · exact domain
    · exact word _
    · exact word _
    · exact bytes _ (by simp [numbered,attestation,measurementLen])
    · exact bytes _ (short _)
    · exact word _
    · exact bytes _ (short _)
    · exact bytes _ ((numberHash_length (n - 1)).trans (by decide))
    · exact word _
    · exact bytes _ (short _)
    · exact bytes _ (short _)
    · exact bytes _ (short _)
    · exact word _
    · exact name
  have values := sum_le_card_nsmul _ 200 each
  change _ ≤ 16 * 200 at values
  omega

def numberedCalls (n : Nat) : List (Call Nat Short Unit) :=
  .setKbsAttestationPubkey .root (shorten [8]) :: (List.range n).map fun k => attest (numbered (k + 1))

def numberedLog (n : Nat) : List Attested := (List.range n).map fun k => ⟨vmName.val,0,bodyOf (numbered (k + 1))⟩

theorem numberedLog_succ (n : Nat) : numberedLog (n + 1) = numberedLog n ++ [⟨vmName.val,0,bodyOf (numbered (n + 1))⟩] := by
  rw [numberedLog,range_succ,map_append]
  rfl

theorem bodiesOf_numberedLog (n : Nat) : bodiesOf vmName.val (numberedLog n) = (List.range n).map fun k => bodyOf (numbered (k + 1)) := by
  simp [bodiesOf,numberedLog,filter_map,Function.comp_def]

theorem lastHash_numberedLog (fits : n < 2 ^ 64) :
    lastHash numberingConfig (bodiesOf vmName.val (numberedLog n)) = numberHash n := by
  rw [bodiesOf_numberedLog]
  cases n with
  | zero => rfl
  | succ n =>
    rw [range_succ,map_append,lastHash,map_singleton,getLast?_concat]
    exact numbered_hash (Nat.succ_pos n) fits

structure Ready (s : State Nat Short Unit) : Prop where
  signers : s.attestations.kbsAttestationPubkeys = [shorten [8]]
  epoch : s.epochs.currentEpoch = 0
  clock : s.nowUnix = 0

theorem numbered_accepted (fits : n + 1 < 2 ^ 64) (ready : Ready s) (sequenced : Sequenced numberingConfig s (numberedLog n)) :
    ∃ t, submitLiveAttestation numberingConfig s .root (viewOf (numbered (n + 1))) ⟨bodyOf (numbered (n + 1)),[]⟩ = .ok t := by
  have decoded := numbered_decodes (Nat.succ_pos n) fits
  have admitted : vmName.val.length ≤ numberingConfig.maxVmIdLen := by decide
  have number := sequenced.numbers vmName.val admitted
  have head := sequenced.heads vmName.val admitted
  rw [lastHash_numberedLog (by omega)] at head
  rw [bodiesOf_numberedLog,length_map,length_range] at number
  refine submitLiveAttestation_accepts ⟨admitted,numbered_length (Nat.succ_pos n) fits⟩ ?_ ?_ (le_refl (1 : Word 64)) rfl rfl rfl
    ready.epoch.symm ?_ ?_ head.symm ?_ decoded ?_ rfl
  · exact ensure_ok.mpr (.inr rfl)
  · intro empty
    change bodyOf (numbered (n + 1)) = [] at empty
    rw [empty] at decoded
    cases decoded
  · rw [ready.clock]
    exact (by decide : 0 < 100)
  · exact Fin.ext ((numbered_seq fits).trans number.symm)
  · rw [ready.signers]
    exact mem_cons_self
  · exact ⟨rfl,rfl,rfl,rfl,rfl,rfl,rfl,rfl,rfl,rfl,rfl⟩

theorem numbered_step (fits : n + 1 < 2 ^ 64 - 1) (ready : Ready s) (sequenced : Sequenced numberingConfig s (numberedLog n)) :
    ∃ t, recording (step numberingConfig) (attested numberingConfig) (s,numberedLog n) (attest (numbered (n + 1))) = (t,numberedLog (n + 1)) ∧
      Ready t := by
  obtain ⟨t,ran⟩ := numbered_accepted (by omega) ready sequenced
  obtain ⟨_,_,_,_,_,epochs,clock,attestations⟩ := submitLiveAttestation_ok ran
  have dispatched : dispatch numberingConfig s (attest (numbered (n + 1))) = .ok t := ran
  refine ⟨t,?_,?_,?_,?_⟩
  · have emitted : attested numberingConfig s (attest (numbered (n + 1))) = [⟨vmName.val,0,bodyOf (numbered (n + 1))⟩] := by
      refine (if_pos (accepts_ok dispatched)).trans ?_
      rw [ready.epoch]
      rfl
    rw [recording,step,dispatched,emitted,numberedLog_succ]
    rfl
  · rw [attestations]
    exact ready.signers
  · rw [epochs]
    exact ready.epoch
  · rw [clock]
    exact ready.clock

theorem numbered_below (fits : n < 2 ^ 64 - 1) :
    Throughout (recording (step numberingConfig) (attested numberingConfig)) (SeqBelow numberingConfig) p (numberedCalls n) := by
  refine throughout_of_mem _ _ ?_
  intro call mem q
  rcases mem_cons.mp mem with rfl | later
  · trivial
  · obtain ⟨k,listed,rfl⟩ := mem_map.mp later
    have small := mem_range.mp listed
    intro _
    change (numbered (k + 1)).attestationSeq.val < 2 ^ 64 - 1
    rw [numbered_seq (by omega)]
    omega

theorem numbering_hashes_vm_ids : HashesVmIds numberingConfig := plain_hashes_vm_ids

theorem numbered_run (fits : n < 2 ^ 64 - 1) :
    ∃ t, run (recording (step numberingConfig) (attested numberingConfig)) (genesis (),[]) (numberedCalls n) = (t,numberedLog n) ∧
      Ready t := by
  induction n with
  | zero => exact ⟨_,rfl,⟨rfl,rfl,rfl⟩⟩
  | succ n ih =>
    obtain ⟨_,reached,ready⟩ := ih (by omega)
    have start : Sequenced numberingConfig (genesis ()) [] := sequenced_start (fun _ => rfl) rfl
    have below : Throughout _ (SeqBelow numberingConfig) (genesis (),[]) (numberedCalls n) := numbered_below (by omega)
    have sequenced := run_invariant (fun p => Sequenced numberingConfig p.1 p.2) (step_sequenced numbering_hashes_vm_ids) start below
    rw [reached] at sequenced
    have more : numberedCalls (n + 1) = numberedCalls n ++ [attest (numbered (n + 1))] := by
      rw [numberedCalls,range_succ,map_append]
      rfl
    obtain ⟨u,stepped,still⟩ := numbered_step fits ready sequenced
    refine ⟨u,?_,still⟩
    rw [more,run_append,reached]
    exact stepped

-- Every one of 2 ^ 32 numbered bodies is accepted, more than the counter can tell.
theorem attestation_count_saturates :
    HashesVmIds numberingConfig ∧
      (∀ a b : List UInt8, a.length ≤ numberingConfig.maxLiveAttestationBody → b.length ≤ numberingConfig.maxLiveAttestationBody →
        numberingConfig.sha2256 a = numberingConfig.sha2256 b → a = b) ∧
      Throughout (recording (step numberingConfig) (attested numberingConfig)) (SeqBelow numberingConfig) (genesis (),[]) (numberedCalls (2 ^ 32)) ∧
      (countOf (run (step numberingConfig) (genesis ()) (numberedCalls (2 ^ 32)))
          (run (step numberingConfig) (genesis ()) (numberedCalls (2 ^ 32))).epochs.currentEpoch
          (numberingConfig.blake2256 vmName.val)).val ≠
        acceptedFor vmName.val (run (step numberingConfig) (genesis ()) (numberedCalls (2 ^ 32))).epochs.currentEpoch
          (acceptedAttestations numberingConfig (genesis ()) (numberedCalls (2 ^ 32))) := by
  obtain ⟨t,reached,ready⟩ := numbered_run (n := 2 ^ 32) (by decide)
  refine ⟨numbering_hashes_vm_ids,?_,numbered_below (by decide),?_⟩
  · intro a b one two
    exact numberingHash_injective (one.trans_lt (by decide)) (two.trans_lt (by decide))
  · have final := congrArg Prod.fst reached
    rw [run_recording_fst] at final
    have all : acceptedFor vmName.val 0 (numberedLog (2 ^ 32)) = 2 ^ 32 := by
      rw [acceptedFor,countP_eq_length.mpr]
      · rw [numberedLog,length_map,length_range]
      · intro e mem
        obtain ⟨k,_,rfl⟩ := mem_map.mp mem
        simp
    rw [acceptedAttestations,reached,final,ready.epoch,all]
    exact (Fin.isLt _).ne

end TheBrain.ComputeScoring
