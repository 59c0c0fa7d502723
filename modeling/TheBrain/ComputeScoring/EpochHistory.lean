import TheBrain.ComputeScoring.Attestations

namespace TheBrain.ComputeScoring
open Library Machine Words StorageMap

-- The retention is a storage value that no call writes, and the budget is part of the
-- configuration, so a run may change both between any two calls.
inductive Turn (A H W : Type) where
  | dispatched (cfg : Config A H W) (call : Call A H W)
  | retained (retention : Nat)

variable {A H W : Type} [DecidableEq H]
variable {cfg : Config A H W} {s t : State A H W}

structure Trimmed (s : State A H W) : Prop where
  reached : s.epochs.epochPruneWatermark ≤ s.epochs.currentEpoch
  bare : ∀ epoch < s.epochs.epochPruneWatermark, Bare s epoch

theorem Trimmed.same (trimmed : Trimmed s) (only : OnlyStatuses s t)
    (counts : t.attestations.liveAttestationCount = s.attestations.liveAttestationCount) : Trimmed t := by
  constructor
  · rw [only]
    exact trimmed.reached
  · rw [only]
    intro epoch below
    rw [Bare,only,counts]
    exact trimmed.bare epoch below

variable [DecidableEq A]

def turn (s : State A H W) : Turn A H W → State A H W
  | .dispatched cfg call => step cfg s call
  | .retained retention => {s with epochs:={s.epochs with epochHistoryRetention:=retention}}

theorem Trimmed.submitted (trimmed : Trimmed s) (ran : submitLiveAttestation cfg s origin view signed = .ok t) : Trimmed t := by
  obtain ⟨_,_,_,_,_,epochs,_,_⟩ := submitLiveAttestation_ok ran
  constructor
  · rw [epochs]
    exact trimmed.reached
  · rw [epochs]
    intro epoch below
    obtain ⟨weights,counts,closes⟩ := trimmed.bare epoch below
    refine ⟨epochs ▸ weights,?_,epochs ▸ closes⟩
    intro vmIdHash
    rw [lookup_submitted ran,if_neg]
    · exact counts vmIdHash
    · rintro ⟨⟩
      exact absurd below (not_lt.mpr trimmed.reached)

theorem Trimmed.closed (trimmed : Trimmed s) (ran : valiSubmitEpochClose cfg s origin epoch updates = .ok t) :
    Trimmed t ∧ s.epochs.epochPruneWatermark ≤ t.epochs.epochPruneWatermark := by
  obtain ⟨later,_,_,rfl⟩ := valiSubmitEpochClose_parts ran
  have attestations := (closeAll_transitions epoch updates s).moves.attestations (by decide)
  obtain ⟨only,weights⟩ := closeNodes_epochs epoch updates s
  have start : (closeAll epoch updates s).epochs.epochPruneWatermark = s.epochs.epochPruneWatermark := by
    rw [closeAll,only]
  have old : ∀ other < s.epochs.epochPruneWatermark, Bare (closeAll epoch updates s) other := by
    intro other below
    have apart : other ≠ epoch := (below.trans_le (trimmed.reached.trans later.le)).ne
    obtain ⟨unweighed,uncounted,unclosed⟩ := trimmed.bare other below
    refine ⟨fun nodeId => (weights (other,nodeId) apart).trans (unweighed nodeId),attestations ▸ uncounted,?_⟩
    refine (Function.update_of_ne apart _ _).trans ?_
    rw [only]
    exact unclosed
  obtain ⟨swept,_,⟨⟨_,_,_,prunes,_⟩,forward,short,bare⟩,same⟩ := sweepEpochHistory_sweeps cfg (closeAll epoch updates s) epoch
  rw [same]
  rw [start] at forward short bare
  refine ⟨⟨?_,?_⟩,forward⟩
  · have current : swept.state.epochs.currentEpoch = epoch := by
      rw [prunes.state]
      rfl
    change swept.watermark ≤ swept.state.epochs.currentEpoch
    rw [current]
    rcases short with stays | low
    · rw [stays]
      exact trimmed.reached.trans later.le
    · rw [Fin.le_def]
      omega
  · intro other below
    by_cases passed : other < s.epochs.epochPruneWatermark
    · exact prunes.bare (old other passed)
    · exact bare other (not_lt.mp passed) below

theorem turn_trimmed (s : State A H W) (next : Turn A H W) (trimmed : Trimmed s) :
    Trimmed (turn s next) ∧ s.epochs.epochPruneWatermark ≤ (turn s next).epochs.epochPruneWatermark := by
  cases next with
  | retained => exact ⟨⟨trimmed.reached,trimmed.bare⟩,le_rfl⟩
  | dispatched _ call =>
    refine commit_inv (fun t => Trimmed t ∧ s.epochs.epochPruneWatermark ≤ t.epochs.epochPruneWatermark) ⟨trimmed,le_rfl⟩ ?_
    intro t ran
    cases call with
    | submitLiveAttestation => exact ⟨trimmed.submitted ran,(congrArg Epochs.epochPruneWatermark (submitLiveAttestation_ok ran).2.2.2.2.2.1).ge⟩
    | valiSubmitEpochClose => exact trimmed.closed ran
    | _ =>
      obtain ⟨only,_,counts⟩ := dispatch_unattested ran (by intros; simp) (by intros; simp)
      exact ⟨trimmed.same only counts,(congrArg Epochs.epochPruneWatermark only).ge⟩

-- The entries that are gone: of epochs below the horizon, and not more than the limit.
def Drops (horizon : Nat) (before after : K → Option V) (epochOf : K → Word 64) (keys : List K) : Prop :=
  ∀ key value, before key = some value → after key = none → key ∈ keys ∧ (epochOf key).val < horizon

def Deletes (horizon limit : Nat) (s t : State A H W) : Prop :=
  ∃ weights counts closes, weights.length + counts.length + closes.length ≤ limit ∧
    Drops horizon s.epochs.epochWeights.lookup t.epochs.epochWeights.lookup Prod.fst weights ∧
    Drops horizon s.attestations.liveAttestationCount.lookup t.attestations.liveAttestationCount.lookup Prod.fst counts ∧
    Drops horizon s.epochs.epochCloseBlock t.epochs.epochCloseBlock id closes

theorem drops_nothing (table : K → Option V) : Drops horizon table table epochOf [] := by
  intro key value held gone
  cases held.symm.trans gone

theorem valiSubmitEpochClose_deletes (ran : valiSubmitEpochClose cfg s origin epoch updates = .ok t) :
    Deletes (epoch.val - s.epochs.epochHistoryRetention) (cfg.maxEpochPruneKeysPerCall.val + 1) s t := by
  have written := valiSubmitEpochClose_weights ran
  obtain ⟨_,_,_,rfl⟩ := valiSubmitEpochClose_parts ran
  have attestations := (closeAll_transitions epoch updates s).moves.attestations (by decide)
  obtain ⟨only,weights⟩ := closeNodes_epochs epoch updates s
  have kept : (closeAll epoch updates s).epochs.epochHistoryRetention = s.epochs.epochHistoryRetention := by
    rw [closeAll,only]
  obtain ⟨_,_,⟨⟨weighed,counted,closes,prunes,_⟩,_,_,_⟩,same⟩ := sweepEpochHistory_sweeps cfg (closeAll epoch updates s) epoch
  rw [kept] at prunes
  rw [same] at written ⊢
  refine ⟨weighed,counted,closes,by omega,?_,?_,?_⟩
  · rintro ⟨other,nodeId⟩ weight held gone
    by_cases erased : (other,nodeId) ∈ weighed
    · exact ⟨erased,prunes.weighed _ erased⟩
    by_cases fresh : other = epoch
    · subst fresh
      have missing := (written nodeId).symm.trans gone
      cases held.symm.trans (Option.or_eq_none_iff.mp missing).2
    · rw [prunes.state] at gone
      have left := ((lookup_eraseAll ..).trans (if_neg erased)).symm.trans gone
      cases held.symm.trans ((weights (other,nodeId) fresh).symm.trans left)
  · intro key count held gone
    by_cases erased : key ∈ counted
    · exact ⟨erased,prunes.counted key erased⟩
    rw [prunes.state] at gone
    have left := ((lookup_eraseAll ..).trans (if_neg erased)).symm.trans gone
    rw [attestations] at left
    cases held.symm.trans left
  · intro other block held gone
    by_cases erased : other ∈ closes
    · exact ⟨erased,prunes.closed other erased⟩
    rw [prunes.state] at gone
    have left := (if_neg erased).symm.trans gone
    by_cases fresh : other = epoch
    · rw [fresh] at left
      cases (Function.update_self ..).symm.trans left
    · have before := (Function.update_of_ne fresh _ _).symm.trans left
      rw [only] at before
      cases held.symm.trans before

theorem epoch_history_trimmed (world : W) (turns : List (Turn A H W)) (next : Turn A H W) :
    let s := run turn (genesis world : State A H W) turns
    (∀ epoch < s.epochs.epochPruneWatermark, Bare s epoch) ∧
      s.epochs.epochPruneWatermark ≤ (turn s next).epochs.epochPruneWatermark ∧
      ∀ cfg origin epoch updates, next = .dispatched cfg (.valiSubmitEpochClose origin epoch updates) →
        Deletes (epoch.val - s.epochs.epochHistoryRetention) (cfg.maxEpochPruneKeysPerCall.val + 1) s (turn s next) := by
  intro s
  have trimmed : Trimmed s := by
    refine run_always Trimmed (fun s next trimmed => (turn_trimmed s next trimmed).1) ?_
    exact ⟨le_rfl,fun epoch below => absurd below (not_lt.mpr (Fin.zero_le epoch))⟩
  refine ⟨trimmed.bare,(turn_trimmed s next trimmed).2,?_⟩
  rintro cfg origin epoch updates rfl
  refine commit_inv (Deletes _ _ s) ?_ fun t ran => valiSubmitEpochClose_deletes ran
  exact ⟨[],[],[],Nat.zero_le _,drops_nothing _,drops_nothing _,drops_nothing _⟩

def swept : List (Turn Nat Short Unit) := [.retained 2,.dispatched plainConfig (.valiSubmitEpochClose .root 5 [])]

theorem epoch_history_trimmed_swept :
    let s := run turn (genesis ()) swept
    s.epochs.epochPruneWatermark = 3 ∧ Bare s 2 ∧ Deletes 7 2049 s (turn s (.dispatched plainConfig (.valiSubmitEpochClose .root 9 []))) := by
  obtain ⟨bare,_,deletes⟩ := epoch_history_trimmed () swept (.dispatched plainConfig (.valiSubmitEpochClose .root 9 []))
  exact ⟨by decide +kernel,bare 2 (by decide +kernel),deletes _ _ _ _ rfl⟩

end TheBrain.ComputeScoring
