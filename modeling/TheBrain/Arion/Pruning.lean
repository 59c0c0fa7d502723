import TheBrain.Arion.Enrolment
import TheBrain.Arion.Settlement

namespace TheBrain.Arion
open Library Machine Words Function List

variable {A N W : Type} [DecidableEq A] [DecidableEq N]
variable {cfg : Config A N W} {s t : State A N W}

structure Submission (A N : Type) where
  origin : Origin A
  epoch : Nat
  params : CrushParams
  miners : List (MinerRecord A N)

def publish (cfg : Config A N W) (s : State A N W) (m : Submission A N) : State A N W :=
  step cfg s (.submitCrushMap m.origin m.epoch m.params m.miners)

def published (cfg : Config A N W) (s : State A N W) (m : Submission A N) : List Nat :=
  match submitCrushMap cfg s m.origin m.epoch m.params m.miners with
  | .ok _ => [m.epoch]
  | .error _ => []

def Stored (s : State A N W) (epoch : Nat) : Prop :=
  s.epochParams epoch ≠ none ∧ s.epochMiners epoch ≠ none ∧ s.epochRoot epoch ≠ none

def Gone (s : State A N W) (epoch : Nat) : Prop :=
  s.epochParams epoch = none ∧ s.epochMiners epoch = none ∧ s.epochRoot epoch = none

-- A table after the map of an epoch was written to it and the one epoch behind was removed.
def retain (retention epoch : Nat) (table : Nat → Option V) (value : V) : Nat → Option V :=
  let written := update table epoch (some value)
  if 0 < retention ∧ retention < epoch then update written (epoch - retention) none else written

theorem submitCrushMap_tables (ran : submitCrushMap cfg s origin epoch params miners = .ok t) :
    s.currentEpoch < epoch ∧ t.currentEpoch = epoch ∧
      t.epochParams = retain cfg.epochCrushMapRetention epoch s.epochParams params ∧
      t.epochMiners = retain cfg.epochCrushMapRetention epoch s.epochMiners miners ∧
      t.epochRoot = retain cfg.epochCrushMapRetention epoch s.epochRoot (cfg.mapRoot params miners) := by
  simp only [submitCrushMap,passes] at ran
  obtain ⟨_,later,_,_,_,_,same⟩ := ran
  cases same
  have bound := bindUids_rebinds {s with
    epochParams:=update s.epochParams epoch (some params)
    epochMiners:=update s.epochMiners epoch (some miners)
    epochRoot:=update s.epochRoot epoch (some (cfg.mapRoot params miners))
    currentEpoch:=epoch} miners
  generalize bindUidsFromCrushMap _ miners = rebound at bound
  obtain ⟨_,_,_,_,_,rfl⟩ := bound
  refine ⟨later,?_⟩
  unfold retain
  split
  · exact ⟨rfl,rfl,rfl,rfl⟩
  · exact ⟨rfl,rfl,rfl,rfl⟩

structure Windowed (retention current : Nat) (log : List Nat) (table : Nat → Option V) : Prop where
  outside : ∀ e, 1 ≤ e → e + retention ≤ current → table e = none
  inside : ∀ e ∈ log, current < e + retention → table e ≠ none
  logged : ∀ e, table e ≠ none → e ∈ log

theorem Windowed.retain {table : Nat → Option V} (windowed : Windowed retention current log table) (retains : 0 < retention)
    (later : current < epoch) (single : ∀ e ∈ log, epoch ≤ e + retention ∨ e + retention ≤ current) (value : V) :
    Windowed retention epoch (log ++ [epoch]) (retain retention epoch table value) := by
  have entry : ∀ e, Arion.retain retention epoch table value e =
      if retention < epoch ∧ e = epoch - retention then none else if e = epoch then some value else table e := by
    unfold Arion.retain
    by_cases prunes : retention < epoch
    · simp [retains,prunes,update_apply]
    · simp [prunes,update_apply]
  constructor
  · intro e first passed
    rw [entry]
    by_cases last : e = epoch - retention
    · exact if_pos ⟨by omega,last⟩
    rw [if_neg (fun both => last both.2),if_neg (by omega)]
    by_contra stored
    rcases single e (windowed.logged e stored) with near | gone
    · omega
    · exact stored (windowed.outside e first gone)
  · intro e mem near
    rw [entry,if_neg (by omega)]
    split
    · simp
    next other =>
      rcases mem_append.mp mem with old | new
      · exact windowed.inside e old (later.trans near)
      · exact absurd (mem_singleton.mp new) other
  · intro e stored
    rw [entry] at stored
    split at stored
    · exact absurd rfl stored
    · split at stored
      next same => simp [same]
      · exact mem_append_left _ (windowed.logged e stored)

def TablesWindowed (cfg : Config A N W) (p : State A N W × List Nat) : Prop :=
  Windowed cfg.epochCrushMapRetention p.1.currentEpoch p.2 p.1.epochParams ∧
    Windowed cfg.epochCrushMapRetention p.1.currentEpoch p.2 p.1.epochMiners ∧
    Windowed cfg.epochCrushMapRetention p.1.currentEpoch p.2 p.1.epochRoot

def MovesOne (cfg : Config A N W) (p : State A N W × List Nat) (m : Submission A N) : Prop :=
  ∀ epoch ∈ published cfg p.1 m, ∀ e ∈ p.2,
    epoch ≤ e + cfg.epochCrushMapRetention ∨ e + cfg.epochCrushMapRetention ≤ p.1.currentEpoch

theorem publish_windowed (retains : 0 < cfg.epochCrushMapRetention) (p : State A N W × List Nat) (m : Submission A N)
    (windowed : TablesWindowed cfg p) (single : MovesOne cfg p m) :
    TablesWindowed cfg (recording (publish cfg) (published cfg) p m) := by
  cases ran : submitCrushMap cfg p.1 m.origin m.epoch m.params m.miners with
  | error =>
    have same : recording (publish cfg) (published cfg) p m = p := by simp [recording,publish,published,step,dispatch,ran]
    rwa [same]
  | ok t =>
    have next : recording (publish cfg) (published cfg) p m = (t,p.2 ++ [m.epoch]) := by
      simp [recording,publish,published,step,dispatch,ran]
    have alone := single m.epoch (by simp [published,ran])
    obtain ⟨later,current,params,miners,root⟩ := submitCrushMap_tables ran
    simp only [next,TablesWindowed,current,params,miners,root]
    exact ⟨windowed.1.retain retains later alone _,windowed.2.1.retain retains later alone _,
      windowed.2.2.retain retains later alone _⟩

theorem crush_maps_retained (cfg : Config A N W) (s : State A N W) (submissions : List (Submission A N))
    (retains : 0 < cfg.epochCrushMapRetention) (empty : ∀ epoch, Gone s epoch)
    (single : Throughout (recording (publish cfg) (published cfg)) (MovesOne cfg) (s,[]) submissions) :
    let p := run (recording (publish cfg) (published cfg)) (s,[]) submissions
    (∀ e, 1 ≤ e → e + cfg.epochCrushMapRetention ≤ p.1.currentEpoch → Gone p.1 e) ∧
      ∀ e ∈ p.2, p.1.currentEpoch < e + cfg.epochCrushMapRetention → Stored p.1 e := by
  have start : ∀ {V : Type} (table : Nat → Option V), (∀ e, table e = none) →
      Windowed cfg.epochCrushMapRetention s.currentEpoch [] table :=
    fun table none => ⟨fun e _ _ => none e,by simp,fun e stored => absurd (none e) stored⟩
  obtain ⟨params,miners,root⟩ := run_invariant (TablesWindowed cfg) (publish_windowed retains)
    ⟨start _ fun e => (empty e).1,start _ fun e => (empty e).2.1,start _ fun e => (empty e).2.2⟩ single
  exact ⟨fun e first passed => ⟨params.outside e first passed,miners.outside e first passed,root.outside e first passed⟩,
    fun e mem near => ⟨params.inside e mem near,miners.inside e mem near,root.inside e mem near⟩⟩

def retaining : Config Nat Nat Nat := {plainConfig with epochCrushMapRetention:=3}

def mapOf (epoch : Nat) : Submission Nat Nat := ⟨.root,epoch,⟨1,1,1⟩,[]⟩

instance (p : State Nat Nat Nat × List Nat) (m : Submission Nat Nat) : Decidable (MovesOne retaining p m) :=
  inferInstanceAs (Decidable (∀ epoch ∈ published retaining p.1 m, ∀ e ∈ p.2, _ ∨ _))

theorem crush_maps_retained_consecutive :
    let p := run (recording (publish retaining) (published retaining)) (genesis 0,[]) ((range 6).map fun n => mapOf (n + 1))
    p.1.currentEpoch = 6 ∧ Gone p.1 3 ∧ Stored p.1 4 := by
  have kept := crush_maps_retained retaining (genesis 0) ((range 6).map fun n => mapOf (n + 1)) (by decide)
    (fun _ => ⟨rfl,rfl,rfl⟩) (by decide +kernel)
  exact ⟨by decide +kernel,kept.1 3 (by decide) (by decide +kernel),kept.2 4 (by decide +kernel) (by decide +kernel)⟩

-- The map of epoch 10 prunes epoch 7, which never was, and epoch 1 stays.
theorem skipped_epoch_stays :
    let p := run (recording (publish retaining) (published retaining)) (genesis 0,[]) [mapOf 1,mapOf 10]
    p.2 = [1,10] ∧ p.1.currentEpoch = 10 ∧ (p.1.epochParams 1).isSome = true := by
  decide +kernel

end TheBrain.Arion
