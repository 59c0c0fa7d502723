import TheBrain.ComputeScoring.Specs

namespace TheBrain.ComputeScoring
open Library Machine Words HippiusTypes List

structure Submission (H : Type) where
  aggregate : ServedDeliveryAggregate H
  body : List UInt8

section
variable {A H W : Type}
variable {cfg : Config A H W} {s t : State A H W} {log : List (Submission H)}

theorem bounded_short (bounded : aggregateBounded cfg view signed) : view.toServedDeliveryAggregate.Short := by
  obtain ⟨validator,family,key,_⟩ := bounded
  have wide : (2 : Nat) ^ 32 < 2 ^ 64 := by decide
  exact ⟨(validator.trans_lt cfg.maxValidatorIdLen.isLt).trans wide,(family.trans_lt cfg.maxFamilyIdLen.isLt).trans wide,
    (key.trans_lt cfg.maxAuditVmKeyIdLen.isLt).trans wide⟩

def headOf (cfg : Config A H W) (s : State A H W) (nodeId : H) : H :=
  (s.audits.lastAggregateHashByNode nodeId).getD cfg.zero

-- No accepted body of the current epoch points to its node's head. Heads and
-- back-pointers are hashes of accepted bodies, so a new body is a new link.
structure Linked (cfg : Config A H W) (s : State A H W) (log : List (Submission H)) : Prop where
  once : (log.map Submission.body).Nodup
  formed : ∀ e ∈ log, e.aggregate.canonical cfg.toDigest = some e.body ∧ e.aggregate.Short
  sized : ∀ e ∈ log, e.body ≠ [] ∧ e.body.length ≤ cfg.maxAggregateBody
  past : ∀ e ∈ log, e.aggregate.epoch ≤ s.epochs.currentEpoch
  pointing : ∀ e ∈ log, e.aggregate.prevAggregateHash = cfg.zero ∨ ∃ f ∈ log, e.aggregate.prevAggregateHash = cfg.sha2256 f.body
  heads : ∀ nodeId, headOf cfg s nodeId = cfg.zero ∨ ∃ f ∈ log, headOf cfg s nodeId = cfg.sha2256 f.body
  fresh : ∀ e ∈ log, e.aggregate.epoch = s.epochs.currentEpoch → e.aggregate.prevAggregateHash ≠ headOf cfg s e.aggregate.nodeId

theorem linked_untouched (linked : Linked cfg s log) (audits : t.audits.lastAggregateHashByNode = s.audits.lastAggregateHashByNode)
    (epoch : s.epochs.currentEpoch ≤ t.epochs.currentEpoch) : Linked cfg t log := by
  have head : ∀ nodeId, headOf cfg t nodeId = headOf cfg s nodeId := by
    intro nodeId
    rw [headOf,headOf,audits]
  refine {linked with past:=fun e mem => (linked.past e mem).trans epoch,heads:=?_,fresh:=?_}
  · intro nodeId
    rw [head]
    exact linked.heads nodeId
  · intro e mem current
    rw [head]
    exact linked.fresh e mem ((linked.past e mem).antisymm (epoch.trans_eq current.symm))

variable [DecidableEq H]

theorem linked_retired (linked : Linked cfg s log) (gone : H) (audits : t.audits = (forgetAudits s gone).audits)
    (epoch : t.epochs.currentEpoch = s.epochs.currentEpoch)
    (spaced : ∀ e ∈ log, e.aggregate.nodeId = gone → e.aggregate.epoch ≠ s.epochs.currentEpoch) : Linked cfg t log := by
  have cleared : headOf cfg t gone = cfg.zero := by
    simp [headOf,audits,forgetAudits]
  have others : ∀ nodeId, nodeId ≠ gone → headOf cfg t nodeId = headOf cfg s nodeId := by
    intro nodeId other
    simp [headOf,audits,forgetAudits,other]
  refine {linked with past:=?_,heads:=?_,fresh:=?_}
  · rw [epoch]
    exact linked.past
  · intro nodeId
    by_cases same : nodeId = gone
    · rw [same,cleared]
      exact .inl rfl
    · rw [others nodeId same]
      exact linked.heads nodeId
  · intro e mem current
    rw [epoch] at current
    by_cases same : e.aggregate.nodeId = gone
    · exact absurd current (spaced e mem same)
    · rw [others _ same]
      exact linked.fresh e mem current

variable [DecidableEq A]

def submissions (cfg : Config A H W) (s : State A H W) : Call A H W → List (Submission H)
  | .submitAuditStats origin view signed =>
    if accepts cfg s (.submitAuditStats origin view signed) then [⟨view.toServedDeliveryAggregate,signed.body⟩] else []
  | _ => []

structure HashesBodies (cfg : Config A H W) : Prop where
  injective : ∀ a b : List UInt8, a.length ≤ cfg.maxAggregateBody → b.length ≤ cfg.maxAggregateBody → cfg.sha2256 a = cfg.sha2256 b → a = b
  nonzero : ∀ a : List UInt8, a ≠ [] → a.length ≤ cfg.maxAggregateBody → cfg.sha2256 a ≠ cfg.zero

def Spaced (cfg : Config A H W) (p : State A H W × List (Submission H)) (call : Call A H W) : Prop :=
  accepts cfg p.1 call = true → match call with
    | .deregisterChild _ child | .forceDeregisterChild _ child =>
      ∀ reg ∈ p.1.registry.childRegistrations.lookup child, ∀ e ∈ p.2, e.aggregate.nodeId = reg.nodeId →
        e.aggregate.epoch ≠ p.1.epochs.currentEpoch
    | _ => True

theorem submitAuditStats_ok (ran : submitAuditStats cfg s origin view signed = .ok t) :
    aggregateBounded cfg view signed ∧ signed.body ≠ [] ∧ view.epoch = s.epochs.currentEpoch ∧
      view.prevAggregateHash = headOf cfg s view.nodeId ∧ view.canonical cfg.toDigest = some signed.body ∧
      t.epochs = s.epochs ∧ t.audits = {s.audits with
        lastAggregateHashByNode:=Function.update s.audits.lastAggregateHashByNode view.nodeId (some (cfg.sha2256 signed.body))} := by
  simp only [submitAuditStats,passes] at ran
  obtain ⟨bounded,_,full,_,_,_,_,epoch,_,prev,_,canonical,same,_,_,_,rfl⟩ := ran
  exact ⟨bounded,full,epoch,prev,same ▸ canonical,rfl,rfl⟩

theorem linked_submitted (hashes : HashesBodies cfg) (linked : Linked cfg s log)
    (ran : submitAuditStats cfg s origin view signed = .ok t) :
    Linked cfg t (log ++ [⟨view.toServedDeliveryAggregate,signed.body⟩]) := by
  obtain ⟨bounded,full,epoch,prev,canonical,epochs,audits⟩ := submitAuditStats_ok ran
  have short := bounded_short bounded
  have sized : signed.body.length ≤ cfg.maxAggregateBody := bounded.2.2.2
  -- An equal body would be an aggregate of this epoch and node pointing to the head.
  have unseen : ∀ f ∈ log, f.body ≠ signed.body := by
    intro f mem same
    obtain ⟨encoded,small⟩ := linked.formed f mem
    have equal := ServedDeliveryAggregate.canonical_injective cfg.toDigest f.aggregate view.toServedDeliveryAggregate small short
      (same ▸ encoded) canonical
    have pointed := linked.fresh f mem
    rw [equal] at pointed
    exact pointed epoch prev
  have apart : ∀ f ∈ log, cfg.sha2256 f.body ≠ cfg.sha2256 signed.body := by
    intro f mem same
    exact unseen f mem (hashes.injective f.body signed.body (linked.sized f mem).2 sized same)
  have zero := hashes.nonzero signed.body full sized
  have mine : headOf cfg t view.nodeId = cfg.sha2256 signed.body := by
    simp [headOf,audits]
  have others : ∀ nodeId, nodeId ≠ view.nodeId → headOf cfg t nodeId = headOf cfg s nodeId := by
    intro nodeId other
    simp [headOf,audits,other]
  have pointing : ∀ hash, (hash = cfg.zero ∨ ∃ f ∈ log, hash = cfg.sha2256 f.body) → hash ≠ cfg.sha2256 signed.body := by
    rintro hash (rfl | ⟨f,mem,rfl⟩)
    · exact zero.symm
    · exact apart f mem
  have widen : ∀ hash, (hash = cfg.zero ∨ ∃ f ∈ log, hash = cfg.sha2256 f.body) →
      hash = cfg.zero ∨ ∃ f ∈ log ++ [⟨view.toServedDeliveryAggregate,signed.body⟩], hash = cfg.sha2256 f.body := by
    rintro hash (nothing | ⟨f,mem,same⟩)
    · exact .inl nothing
    · exact .inr ⟨f,mem_append_left _ mem,same⟩
  refine ⟨?_,?_,?_,?_,?_,?_,?_⟩
  · rw [map_append,nodup_append]
    refine ⟨linked.once,nodup_singleton _,?_⟩
    intro body mem other last
    obtain ⟨f,listed,rfl⟩ := mem_map.mp mem
    rw [map_singleton,mem_singleton] at last
    rw [last]
    exact unseen f listed
  · intro e mem
    rcases mem_append.mp mem with old | last
    · exact linked.formed e old
    · rw [mem_singleton.mp last]
      exact ⟨canonical,short⟩
  · intro e mem
    rcases mem_append.mp mem with old | last
    · exact linked.sized e old
    · rw [mem_singleton.mp last]
      exact ⟨full,sized⟩
  · intro e mem
    rw [epochs]
    rcases mem_append.mp mem with old | last
    · exact linked.past e old
    · rw [mem_singleton.mp last]
      exact epoch.le
  · intro e mem
    rcases mem_append.mp mem with old | last
    · exact widen _ (linked.pointing e old)
    · rw [mem_singleton.mp last]
      exact widen _ (prev ▸ linked.heads view.nodeId)
  · intro nodeId
    by_cases same : nodeId = view.nodeId
    · rw [same,mine]
      exact .inr ⟨⟨view.toServedDeliveryAggregate,signed.body⟩,by simp,rfl⟩
    · rw [others nodeId same]
      exact widen _ (linked.heads nodeId)
  · intro e mem current
    rw [epochs] at current
    rcases mem_append.mp mem with old | last
    · by_cases same : e.aggregate.nodeId = view.nodeId
      · rw [same,mine]
        exact pointing _ (linked.pointing e old)
      · rw [others _ same]
        exact linked.fresh e old current
    · rw [mem_singleton.mp last]
      change view.prevAggregateHash ≠ headOf cfg t view.nodeId
      rw [mine,prev]
      exact pointing _ (linked.heads view.nodeId)

theorem submissions_silent (other : ∀ origin view signed, call ≠ .submitAuditStats origin view signed) :
    submissions cfg s call = [] := by
  cases call with
  | submitAuditStats origin view signed => exact absurd rfl (other origin view signed)
  | _ => rfl

theorem dispatch_linked (hashes : HashesBodies cfg) (linked : Linked cfg s log) (spaced : Spaced cfg (s,log) call)
    (ran : dispatch cfg s call = .ok t) : Linked cfg t (log ++ submissions cfg s call) := by
  have epoch := dispatch_epoch ran
  rcases dispatch_moves ran with ⟨_,rfl,rfl⟩ | moved
  · rw [submissions_silent (by simp),append_nil]
    exact linked_untouched linked rfl le_rfl
  cases call with
  | submitAuditStats =>
    rw [submissions,if_pos (accepts_ok ran)]
    exact linked_submitted hashes linked ran
  | setAuditVmPubkey =>
    simp only [dispatch,setAuditVmPubkey,passes] at ran
    obtain ⟨_,rfl⟩ := ran
    rw [submissions_silent (by simp),append_nil]
    exact linked_untouched linked rfl le_rfl
  | deregisterChild =>
    obtain ⟨reg,left⟩ := deregisterChild_ok ran
    rw [submissions_silent (by simp),append_nil]
    exact linked_retired linked reg.nodeId left.audits left.only.epoch (spaced (accepts_ok ran) reg left.found)
  | forceDeregisterChild =>
    obtain ⟨reg,left⟩ := forceDeregisterChild_ok ran
    rw [submissions_silent (by simp),append_nil]
    exact linked_retired linked reg.nodeId left.audits left.only.epoch (spaced (accepts_ok ran) reg left.found)
  | _ =>
    have audits := moved.audits (by simp [Call.parts])
    rw [submissions_silent (by intros; simp),append_nil]
    refine linked_untouched linked (congrArg Audits.lastAggregateHashByNode audits) ?_
    rcases epoch with same | ⟨_,_,_,_,closed⟩
    · exact same.epoch.ge
    · exact (closed.current ▸ closed.later).le

theorem submissions_rejected (rejected : dispatch cfg s call = .error e) : submissions cfg s call = [] := by
  cases call with
  | submitAuditStats => simp [submissions,accepts,rejected]
  | _ => rfl

theorem step_linked (hashes : HashesBodies cfg) (p : State A H W × List (Submission H))
    (call : Call A H W) (linked : Linked cfg p.1 p.2) (spaced : Spaced cfg p call) :
    Linked cfg (recording (step cfg) (submissions cfg) p call).1 (recording (step cfg) (submissions cfg) p call).2 := by
  unfold recording step
  cases ran : dispatch cfg p.1 call with
  | error =>
    rw [submissions_rejected ran,append_nil]
    exact linked
  | ok => exact dispatch_linked hashes linked spaced ran

def acceptedAggregates (cfg : Config A H W) (s : State A H W) (calls : List (Call A H W)) :
    List (Submission H) := (run (recording (step cfg) (submissions cfg)) (s,[]) calls).2

theorem aggregates_accepted_once (cfg : Config A H W) (s : State A H W)
    (calls : List (Call A H W)) (hashes : HashesBodies cfg)
    (unheard : ∀ nodeId, s.audits.lastAggregateHashByNode nodeId = none)
    (spaced : Throughout (recording (step cfg) (submissions cfg)) (Spaced cfg) (s,[]) calls) :
    ((acceptedAggregates cfg s calls).map Submission.body).Nodup := by
  have start : Linked cfg s [] := by
    refine ⟨nodup_nil,?_,?_,?_,?_,?_,?_⟩
    case refine_5 =>
      intro nodeId
      left
      simp [headOf,unheard]
    all_goals
      intro e mem
      cases mem
  have reached := run_invariant (fun p => Linked cfg p.1 p.2) (step_linked hashes) start spaced
  exact reached.once

end

theorem plain_hashes : HashesBodies plainConfig where
  injective a b one two same := shorten_injective (one.trans (by decide)) (two.trans (by decide)) same
  nonzero a full short same := by
    have bytes : a.take (2 ^ 32) = [] := congrArg Subtype.val same
    rw [take_of_length_le (short.trans (by decide))] at bytes
    exact full bytes

def audited (prev : Short) : AggregateView Short where
  chainGenesis := shorten [2]
  palletInstance := shorten [1]
  validatorId := [9]
  familyId := [1]
  nodeId := shorten [7]
  auditVmKeyId := [5]
  epoch := 0
  challengeNonce := shorten [3]
  intervalStart := 10
  intervalEnd := 20
  mapRoot := shorten [4]
  totalsRoot := shorten [6]
  prevAggregateHash := prev
  expiry := 100
  servedUnits := 1

def auditedWire (prev : Short) : SignedWire := ⟨((audited prev).canonical plainDigest).getD [],[]⟩

def auditedTwice : List (Call Nat Short Unit) :=
  [ .registerChild (.signed 1) 1 2 (shorten [7]) [],.setAuditVmPubkey .root (shorten [7]) (shorten [8]),
    .submitAuditStats .root (audited (shorten [])) (auditedWire (shorten [])),
    .submitAuditStats .root (audited (shorten (auditedWire (shorten [])).body)) (auditedWire (shorten (auditedWire (shorten [])).body)),
    .submitAuditStats .root (audited (shorten [])) (auditedWire (shorten [])),
    .valiSubmitEpochClose .root 1 [],.deregisterChild (.signed 1) 2]

instance (cfg : Config Nat Short Unit) (p : State Nat Short Unit × List (Submission Short)) : DecidablePred (Spaced cfg p) := fun call => by
  cases call <;> dsimp only [Spaced] <;> infer_instance

theorem aggregates_accepted_once_chained :
    (acceptedAggregates plainConfig (genesis ()) auditedTwice).length = 2 ∧
      ((acceptedAggregates plainConfig (genesis ()) auditedTwice).map Submission.body).Nodup := by
  refine ⟨by decide +kernel,aggregates_accepted_once plainConfig (genesis ()) auditedTwice plain_hashes (fun _ => rfl) ?_⟩
  decide +kernel

-- The node leaves and comes back within the epoch; its chain starts over, and so may
-- the first body.
def auditedAgain : List (Call Nat Short Unit) :=
  [ .registerChild (.signed 1) 1 2 (shorten [7]) [],.setAuditVmPubkey .root (shorten [7]) (shorten [8]),
    .submitAuditStats .root (audited (shorten [])) (auditedWire (shorten [])),.deregisterChild (.signed 1) 2,
    .registerChild (.signed 1) 1 3 (shorten [7]) [],.setAuditVmPubkey .root (shorten [7]) (shorten [8]),
    .submitAuditStats .root (audited (shorten [])) (auditedWire (shorten []))]

theorem aggregate_accepted_twice :
    (acceptedAggregates plainConfig (genesis ()) auditedAgain).map Submission.body =
      [(auditedWire (shorten [])).body,(auditedWire (shorten [])).body] := by
  decide +kernel

end TheBrain.ComputeScoring
