import TheBrain.Library.Machine
import TheBrain.Library.StorageMap
import TheBrain.Library.Words
import TheBrain.Runtime

namespace TheBrain.Arion.AttestationBuckets
open Library Machine Words Function List StorageMap

inductive WardenStatus where
  | active
  | deregistered
  deriving DecidableEq

structure WardenInfo where
  status : WardenStatus
  registeredAt : Nat
  deregisteredAt : Option Nat

-- The audit itself is read by the signature check only.
structure AttestationRecord (P : Type) where
  audit : P
  wardenPubkey : List UInt8
  signature : List UInt8

inductive Event where
  | attestationsSubmitted (bucket count : Nat)
  | wardenRegistered (wardenPubkey : List UInt8) (registeredAt : Nat)
  | wardenDeregistered (wardenPubkey : List UInt8) (deregisteredAt : Nat)
  | attestationBucketsPruned (prunedCount oldestRemaining : Nat)
  deriving DecidableEq

inductive Error where
  | badOrigin
  | attestationBucketRegression
  | emptyAttestations
  | unregisteredWarden
  | invalidAttestationSignature
  | duplicateAttestation
  | attestationBucketFull
  | wardenAlreadyRegistered
  | wardenNotRegistered
  | invalidAttestationPruneBatch
  | pruningWithinRetentionPeriod
  deriving DecidableEq

structure Config (A P : Type) where
  isAttestationAuthority : Origin A → Bool
  isAdmin : Origin A → Bool
  verifyAttestationSig : AttestationRecord P → Bool
  maxAttestations : Nat
  attestationRetentionBuckets : Nat
  maxAttestationBucketsPrunePerCall : Nat

structure State (P : Type) where
  blockNumber : Nat
  currentAttestationBucket : Nat
  attestationsByBucket : StorageMap Nat (List (AttestationRecord P))
  registeredWardens : List UInt8 → Option WardenInfo
  activeWardenCount : Word 32
  events : List Event

def genesis : State P := ⟨0,0,∅,fun _ => none,0,[]⟩

section
variable (cfg : Config A P)

def checkAttestation (s : State P) (attestation : AttestationRecord P) : Except Error Unit := do
  ensure (attestation.wardenPubkey.length = 32) .unregisteredWarden
  let info ← okOr (s.registeredWardens attestation.wardenPubkey) .unregisteredWarden
  ensure (info.status = .active) .unregisteredWarden
  ensure (cfg.verifyAttestationSig attestation = true) .invalidAttestationSignature

def pushAttestation (stored : List (AttestationRecord P)) (attestation : AttestationRecord P) :
    Except Error (List (AttestationRecord P)) := do
  ensure (∀ e ∈ stored, e.signature ≠ attestation.signature) .duplicateAttestation
  ensure (stored.length < cfg.maxAttestations) .attestationBucketFull
  .ok (stored ++ [attestation])

def submitAttestations (s : State P) (origin : Origin A) (bucket : Nat) (attestations : List (AttestationRecord P)) :
    Except Error (State P) := do
  ensure (cfg.isAttestationAuthority origin = true) .badOrigin
  ensure (s.currentAttestationBucket ≤ bucket) .attestationBucketRegression
  ensure (0 < attestations.length) .emptyAttestations
  attestations.forM (checkAttestation cfg s)
  ensure (attestations.map AttestationRecord.signature).Nodup .duplicateAttestation
  let stored ← attestations.foldlM (pushAttestation cfg) ((s.attestationsByBucket.lookup bucket).getD [])
  .ok {s with
    attestationsByBucket:=s.attestationsByBucket.insert bucket stored
    currentAttestationBucket:=bucket
    events:=s.events ++ [.attestationsSubmitted bucket attestations.length]}

def registerWarden (s : State P) (origin : Origin A) (wardenPubkey : List UInt8) : Except Error (State P) := do
  ensure (cfg.isAdmin origin = true) .badOrigin
  ensure ((s.registeredWardens wardenPubkey).isNone = true) .wardenAlreadyRegistered
  .ok {s with
    registeredWardens:=update s.registeredWardens wardenPubkey (some ⟨.active,s.blockNumber,none⟩)
    activeWardenCount:=addSaturating s.activeWardenCount 1
    events:=s.events ++ [.wardenRegistered wardenPubkey s.blockNumber]}

def deregisterWarden (s : State P) (origin : Origin A) (wardenPubkey : List UInt8) : Except Error (State P) := do
  ensure (cfg.isAdmin origin = true) .badOrigin
  let info ← okOr (s.registeredWardens wardenPubkey) .wardenNotRegistered
  ensure (info.status = .active) .wardenNotRegistered
  .ok {s with
    registeredWardens:=update s.registeredWardens wardenPubkey
      (some {info with status:=.deregistered,deregisteredAt:=some s.blockNumber})
    activeWardenCount:=⟨s.activeWardenCount - 1,by omega⟩
    events:=s.events ++ [.wardenDeregistered wardenPubkey s.blockNumber]}

def pruneBucket (maxBuckets : Nat) (p : StorageMap Nat V × Nat) (bucket : Nat) : StorageMap Nat V × Nat :=
  if p.2 < maxBuckets ∧ (p.1.lookup bucket).isSome = true then (p.1.erase bucket,p.2 + 1) else p

-- The loop visits the ids below before_bucket from before_bucket - max_buckets on.
def pruneAttestationBuckets (s : State P) (origin : Origin A) (beforeBucket maxBuckets : Nat) : Except Error (State P) := do
  ensure (origin.signer.isSome = true) .badOrigin
  ensure (0 < maxBuckets ∧ maxBuckets ≤ cfg.maxAttestationBucketsPrunePerCall) .invalidAttestationPruneBatch
  ensure (beforeBucket ≤ s.currentAttestationBucket - cfg.attestationRetentionBuckets) .pruningWithinRetentionPeriod
  let first := beforeBucket - maxBuckets
  let pruned := (List.range' first (beforeBucket - first)).foldl (pruneBucket maxBuckets) (s.attestationsByBucket,0)
  .ok {s with
    attestationsByBucket:=pruned.1
    events:=if 0 < pruned.2 then s.events ++ [.attestationBucketsPruned pruned.2 beforeBucket] else s.events}

end

inductive Call (A P : Type) where
  | submitAttestations (origin : Origin A) (bucket : Nat) (attestations : List (AttestationRecord P))
  | registerWarden (origin : Origin A) (wardenPubkey : List UInt8)
  | deregisterWarden (origin : Origin A) (wardenPubkey : List UInt8)
  | pruneAttestationBuckets (origin : Origin A) (beforeBucket maxBuckets : Nat)
  | nextBlock (now : Nat)

def dispatch (cfg : Config A P) (s : State P) : Call A P → Except Error (State P)
  | .submitAttestations origin bucket attestations => submitAttestations cfg s origin bucket attestations
  | .registerWarden origin wardenPubkey => registerWarden cfg s origin wardenPubkey
  | .deregisterWarden origin wardenPubkey => deregisterWarden cfg s origin wardenPubkey
  | .pruneAttestationBuckets origin beforeBucket maxBuckets => pruneAttestationBuckets cfg s origin beforeBucket maxBuckets
  | .nextBlock now => .ok {s with blockNumber:=now}

def step (cfg : Config A P) (s : State P) (call : Call A P) : State P := commit s (dispatch cfg s call)

theorem pruneBuckets_eq (ids : List Nat) (distinct : ids.Nodup) (buckets : StorageMap Nat V) (pruned : Nat)
    (fits : pruned + ids.length ≤ maxBuckets) :
    let removed := ids.filter fun id => (buckets.lookup id).isSome
    ids.foldl (pruneBucket maxBuckets) (buckets,pruned) = (eraseAll buckets removed,pruned + removed.length) := by
  induction ids generalizing buckets pruned with
  | nil => rfl
  | cons id ids ih =>
    obtain ⟨apart,distinct⟩ := nodup_cons.mp distinct
    rw [length_cons] at fits
    rw [foldl_cons,pruneBucket]
    by_cases stored : (buckets.lookup id).isSome = true
    · have rest : (ids.filter fun other => ((buckets.erase id).lookup other).isSome) =
          ids.filter fun other => (buckets.lookup other).isSome :=
        filter_congr fun other mem => by rw [AList.lookup_erase_ne fun same : other = id => apart (same ▸ mem)]
      rw [if_pos ⟨by omega,stored⟩,ih distinct _ _ (by omega),rest]
      simp [stored,eraseAll,Nat.add_assoc,Nat.add_comm 1]
    · rw [if_neg fun both => stored both.2,ih distinct _ _ (by omega)]
      simp [stored]

theorem pruneAttestationBuckets_ok {cfg : Config A P} (ran : pruneAttestationBuckets cfg s origin before maxBuckets = .ok t) :
    before ≤ s.currentAttestationBucket - cfg.attestationRetentionBuckets ∧ ∃ removed : List Nat, removed.length ≤ maxBuckets ∧
      (∀ b, b ∈ removed ↔ before - maxBuckets ≤ b ∧ b < before ∧ s.attestationsByBucket.lookup b ≠ none) ∧
      (∀ b, t.attestationsByBucket.lookup b = if b ∈ removed then none else s.attestationsByBucket.lookup b) ∧
      t.events = if 0 < removed.length then s.events ++ [.attestationBucketsPruned removed.length before] else s.events := by
  simp only [pruneAttestationBuckets,passes] at ran
  obtain ⟨_,_,early,same⟩ := ran
  have size : (range' (before - maxBuckets) (before - (before - maxBuckets))).length ≤ maxBuckets := by
    rw [length_range']
    omega
  rw [pruneBuckets_eq _ nodup_range' _ 0 (by omega),Nat.zero_add] at same
  cases same
  refine ⟨early,_,(length_filter_le ..).trans size,?_,lookup_eraseAll _ _,rfl⟩
  intro b
  rw [mem_filter,List.mem_range'_1,Option.isSome_iff_ne_none,Nat.add_sub_cancel' (Nat.sub_le _ _),and_assoc]

theorem prune_spares (cfg : Config A P) (origin : Origin A) (before maxBuckets : Nat) (far : b < before - maxBuckets) (s : State P) (n : Nat) :
    (run (step cfg) s (replicate n (.pruneAttestationBuckets origin before maxBuckets))).attestationsByBucket.lookup b =
      s.attestationsByBucket.lookup b := by
  have repeats : Throughout (step cfg) (fun _ call => call = .pruneAttestationBuckets origin before maxBuckets) s
      (replicate n (.pruneAttestationBuckets origin before maxBuckets)) :=
    throughout_of_mem _ _ fun call mem _ => eq_of_mem_replicate mem
  refine run_invariant (fun t : State P => t.attestationsByBucket.lookup b = s.attestationsByBucket.lookup b) ?_ rfl repeats
  rintro t _ same rfl
  refine commit_inv (fun u : State P => u.attestationsByBucket.lookup b = s.attestationsByBucket.lookup b) same ?_
  intro u ran
  obtain ⟨_,_,_,mem,left,_⟩ := pruneAttestationBuckets_ok ran
  rw [left,if_neg fun gone => Nat.not_le.mpr far ((mem b).mp gone).1]
  exact same

-- What a call removes is as it should be. Its report is true and repeating it clears
-- everything exactly when no bucket lies below the ids that are scanned.
theorem attestation_pruning (cfg : Config A P) (s t : State P) (origin : Origin A) (before maxBuckets : Nat)
    (ran : pruneAttestationBuckets cfg s origin before maxBuckets = .ok t) :
    (∃ removed : List Nat, removed.length ≤ maxBuckets ∧
      (∀ b ∈ removed, b < before ∧ b < s.currentAttestationBucket - cfg.attestationRetentionBuckets) ∧
      ∀ b, t.attestationsByBucket.lookup b = if b ∈ removed then none else s.attestationsByBucket.lookup b) ∧
    ((∀ b < before, s.attestationsByBucket.lookup b ≠ none → before - maxBuckets ≤ b) ↔
      (∀ count oldest, t.events = s.events ++ [.attestationBucketsPruned count oldest] → count < maxBuckets →
        ∀ b < oldest, t.attestationsByBucket.lookup b = none) ∧
      ∃ n, ∀ b < before, (run (step cfg) s (List.replicate n (.pruneAttestationBuckets origin before maxBuckets))).attestationsByBucket.lookup b =
        none) := by
  obtain ⟨early,removed,few,mem,left,events⟩ := pruneAttestationBuckets_ok ran
  refine ⟨⟨removed,few,?_,left⟩,?_,?_⟩
  · intro b gone
    have below := ((mem b).mp gone).2.1
    exact ⟨below,below.trans_le early⟩
  · intro near
    have cleared : ∀ b < before, t.attestationsByBucket.lookup b = none := by
      intro b below
      rw [left]
      split
      · rfl
      next kept =>
        by_contra stored
        exact kept ((mem b).mpr ⟨near b below stored,below,stored⟩)
    refine ⟨?_,1,?_⟩
    · intro count oldest reported _
      rw [events] at reported
      split at reported
      · cases append_cancel_left reported
        exact cleared
      · exact absurd reported (by simp)
    · rw [replicate_one,run_cons,run_nil,step,dispatch,ran,commit_ok]
      exact cleared
  · rintro ⟨_,n,cleared⟩ b below stored
    by_contra far
    have spared := prune_spares cfg origin before maxBuckets (Nat.not_le.mp far) s n
    exact stored (spared.symm.trans (cleared b below))

def plain : Config Nat Unit where
  isAttestationAuthority := fun _ => true
  isAdmin := fun _ => true
  verifyAttestationSig := fun _ => true
  maxAttestations := 10
  attestationRetentionBuckets := 10
  maxAttestationBucketsPrunePerCall := 50

def submitted (buckets : List Nat) : List (Call Nat Unit) :=
  .registerWarden .root (List.replicate 32 7) ::
    buckets.map fun bucket => .submitAttestations .root bucket [⟨(),List.replicate 32 7,List.replicate 64 1⟩]

theorem attestation_pruning_dense :
    let s := run (step plain) genesis (submitted [96,97,200])
    let t := step plain s (.pruneAttestationBuckets (.signed 1) 100 5)
    t.events = s.events ++ [.attestationBucketsPruned 2 100] ∧ ∀ b < 100, t.attestationsByBucket.lookup b = none := by
  intro s t
  have reported : t.events = s.events ++ [.attestationBucketsPruned 2 100] := by decide +kernel
  have pruned := attestation_pruning plain s t (.signed 1) 100 5 rfl
  exact ⟨reported,(pruned.2.mp (by decide +kernel)).1 2 100 reported (by decide)⟩

-- Bucket 1 is outside of the five ids that are scanned, in this call and in every other.
theorem old_bucket_unreported :
    let s := run (step plain) genesis (submitted [1,95,200])
    let prune : Call Nat Unit := .pruneAttestationBuckets (.signed 1) 100 5
    let t := step plain s prune
    t.events = s.events ++ [.attestationBucketsPruned 1 100] ∧ (t.attestationsByBucket.lookup 1).isSome = true ∧
      ((run (step plain) t [prune,prune,prune]).attestationsByBucket.lookup 1).isSome = true := by
  decide +kernel

end TheBrain.Arion.AttestationBuckets
