import Mathlib.Data.List.Pairwise
import Mathlib.Logic.Function.Basic
import TheBrain.Library.Machine
import TheBrain.Library.StorageMap

namespace Library.Lifecycle
open Machine Function List

-- Records that are settled once. A vote opens a record or adds to a pending one,
-- finishing and cancelling settle a pending record, forgetting deletes a settled
-- one. Forgetting returns the key to its first phase: the phase alone does not
-- remember that the key was ever settled.
inductive Phase where
  | absent | pending | done | cancelled
  deriving DecidableEq, Repr

inductive Action (K : Type) where
  | vote (k : K)
  | finish (k : K)
  | cancel (k : K)
  | forget (k : K)
  deriving DecidableEq, Repr

def Allowed (phase : K → Phase) : Action K → Prop
  | .vote k => phase k = .absent ∨ phase k = .pending
  | .finish k => phase k = .pending
  | .cancel k => phase k = .pending
  | .forget k => phase k = .done ∨ phase k = .cancelled

variable {K S C E : Type} [DecidableEq K]

def apply (phase : K → Phase) : Action K → K → Phase
  | .vote k => update phase k .pending
  | .finish k => update phase k .done
  | .cancel k => update phase k .cancelled
  | .forget k => update phase k .absent

inductive Runs (start : K → Phase) : List (Action K) → (K → Phase) → Prop where
  | nil : Runs start [] start
  | snoc : Runs start history phase → Allowed phase action → Runs start (history ++ [action]) (apply phase action)

theorem runs_one {phase : K → Phase} (allowed : Allowed phase action) : Runs phase [action] (apply phase action) := .snoc .nil allowed

theorem runs_trans {start : K → Phase} (first : Runs start older middle) (second : Runs middle newer final) :
    Runs start (older ++ newer) final := by
  induction second with
  | nil => simpa using first
  | snoc _ allowed ih => simpa using Runs.snoc ih allowed

def Unforgotten (history : List (Action K)) : Prop :=
  history.Pairwise fun earlier later => ∀ k, later = .vote k → earlier ≠ .forget k

def SettledOnce (history : List (Action K)) : Prop :=
  history.Pairwise fun earlier later => ∀ k, later = .finish k → earlier ≠ .finish k ∧ earlier ≠ .cancel k

structure Unsettled (history : List (Action K)) (phase : K → Phase) (k : K) : Prop where
  pending : phase k = .pending → .finish k ∉ history ∧ .cancel k ∉ history
  absent : phase k = .absent → .forget k ∈ history ∨ .finish k ∉ history ∧ .cancel k ∉ history

omit [DecidableEq K] in
theorem unforgotten_snoc {history : List (Action K)} :
    Unforgotten (history ++ [action]) ↔ Unforgotten history ∧ ∀ k, action = .vote k → .forget k ∉ history := by
  simp only [Unforgotten,pairwise_append,pairwise_singleton,mem_singleton,true_and,forall_eq]
  refine and_congr_right fun _ => ⟨?_,?_⟩
  · intro unforgotten k same mem
    exact unforgotten _ mem k same rfl
  · rintro unforgotten earlier mem k same rfl
    exact unforgotten k same mem

omit [DecidableEq K] in
theorem settledOnce_snoc {history : List (Action K)} (settled : SettledOnce history)
    (unsettled : ∀ k, action = .finish k → .finish k ∉ history ∧ .cancel k ∉ history) :
    SettledOnce (history ++ [action]) := by
  rw [SettledOnce,pairwise_append]
  refine ⟨settled,pairwise_singleton _ _,?_⟩
  intro earlier mem later last k same
  rw [mem_singleton] at last
  obtain ⟨unfinished,uncancelled⟩ := unsettled k (last ▸ same)
  exact ⟨fun finished => unfinished (finished ▸ mem),fun cancelled => uncancelled (cancelled ▸ mem)⟩

-- One action keeps the reading of the phases, provided a vote does not reopen a
-- forgotten key.
theorem unsettled_step {history : List (Action K)} (before : ∀ k, Unsettled history phase k)
    (allowed : Allowed phase action) (unforgotten : ∀ k, action = .vote k → .forget k ∉ history) :
    ∀ k, Unsettled (history ++ [action]) (apply phase action) k := by
  intro k
  cases action with
  | vote voted =>
    by_cases same : k = voted
    · subst same
      refine ⟨fun _ => ?_,fun opened => by simp [apply] at opened⟩
      rcases allowed with absent | pending
      · have fresh := ((before k).absent absent).resolve_left (unforgotten k rfl)
        simpa using fresh
      · simpa using (before k).pending pending
    · refine ⟨fun pending => ?_,fun absent => ?_⟩
      · simpa using (before k).pending (by simpa [apply,same] using pending)
      · simpa using (before k).absent (by simpa [apply,same] using absent)
  | finish settled | cancel settled | forget settled =>
    by_cases same : k = settled
    · refine ⟨fun pending => ?_,fun absent => ?_⟩
      all_goals simp_all [apply]
    · refine ⟨fun pending => ?_,fun absent => ?_⟩
      · simpa [same] using (before k).pending (by simpa [apply,same] using pending)
      · simpa [same] using (before k).absent (by simpa [apply,same] using absent)

theorem runs_unsettled (path : Runs (fun _ : K => .absent) history phase) (unforgotten : Unforgotten history) :
    SettledOnce history ∧ ∀ k, Unsettled history phase k := by
  induction path with
  | nil => exact ⟨List.Pairwise.nil,fun k => ⟨fun h => by simp at h,fun _ => by simp⟩⟩
  | snoc _ allowed ih =>
    obtain ⟨earlier,fresh⟩ := unforgotten_snoc.mp unforgotten
    obtain ⟨settled,reading⟩ := ih earlier
    refine ⟨settledOnce_snoc settled ?_,unsettled_step reading allowed fresh⟩
    rintro k rfl
    exact (reading k).pending allowed

def recordPhase (phaseOf : R → Phase) (records : StorageMap K R) (k : K) : Phase :=
  match records.lookup k with
  | some record => phaseOf record
  | none => .absent

theorem recordPhase_insert (phaseOf : R → Phase) (records : StorageMap K R) (shown : phaseOf record = phase) :
    recordPhase phaseOf (records.insert k record) = update (recordPhase phaseOf records) k phase := by
  funext other
  by_cases equal : other = k
  · subst equal
    simp [recordPhase,shown]
  · simp [recordPhase,equal]

theorem recordPhase_erase (phaseOf : R → Phase) (records : StorageMap K R) :
    recordPhase phaseOf (records.erase k) = update (recordPhase phaseOf records) k .absent := by
  funext other
  by_cases equal : other = k
  · subst equal
    simp [recordPhase]
  · simp [recordPhase,equal]

-- How a program shows its records: the log it appends to, the phase it stores for
-- a key, and which log entries are lifecycle actions.
structure View (S E K : Type) where
  log : S → List E
  phase : S → K → Phase
  action : E → Option (Action K)

def View.history (v : View S E K) (s : S) : List (Action K) := (v.log s).filterMap v.action

def Emits (v : View S E K) (s : S) (acts : List (Action K)) (t : S) : Prop :=
  ∃ new, v.log t = v.log s ++ new ∧ new.filterMap v.action = acts ∧ Runs (v.phase s) acts (v.phase t)

theorem emits_still (v : View S E K) (new : List E) (log : v.log t = v.log s ++ new)
    (quiet : new.filterMap v.action = []) (phase : v.phase t = v.phase s) : Emits v s [] t :=
  ⟨new,log,quiet,phase ▸ .nil⟩

theorem emits_one (v : View S E K) (e : E) (log : v.log t = v.log s ++ [e]) (shown : v.action e = some action)
    (allowed : Allowed (v.phase s) action) (phase : v.phase t = apply (v.phase s) action) : Emits v s [action] t :=
  ⟨[e],log,by simp [shown],phase ▸ runs_one allowed⟩

theorem emits_trans {v : View S E K} (first : Emits v s older t) (second : Emits v t newer u) :
    Emits v s (older ++ newer) u := by
  obtain ⟨one,logOne,actsOne,pathOne⟩ := first
  obtain ⟨two,logTwo,actsTwo,pathTwo⟩ := second
  refine ⟨one ++ two,?_,?_,runs_trans pathOne pathTwo⟩
  · rw [logTwo,logOne,append_assoc]
  · rw [filterMap_append,actsOne,actsTwo]

-- A step in which only permitted keys were voted for, and no key was both voted
-- for and forgotten.
def Follows (v : View S E K) (permitted : K → Prop) (s t : S) : Prop :=
  ∃ acts, Emits v s acts t ∧ ∀ k, .vote k ∈ acts → permitted k ∧ .forget k ∉ acts

theorem follows_quiet {v : View S E K} (emits : Emits v s acts t) (silent : ∀ k, .vote k ∉ acts) :
    Follows v permitted s t := ⟨acts,emits,fun k voted => absurd voted (silent k)⟩

theorem follows_refl (v : View S E K) (s : S) : Follows v permitted s s :=
  follows_quiet (emits_still v [] (by simp) rfl rfl) (by simp)

omit [DecidableEq K] in
theorem unforgotten_append {older newer : List (Action K)} (past : Unforgotten older)
    (votes : ∀ k, .vote k ∈ newer → .forget k ∉ older ∧ .forget k ∉ newer) : Unforgotten (older ++ newer) := by
  refine pairwise_append.mpr ⟨past,?_,?_⟩
  · refine List.Pairwise.imp_of_mem ?_ (pairwise_of_forall fun _ _ => trivial : newer.Pairwise fun _ _ => True)
    rintro earlier later mem last - k rfl rfl
    exact (votes k last).2 mem
  · rintro earlier mem later last k rfl rfl
    exact (votes k last).1 mem

structure LogSettled (v : View S E K) (log : List E) (k : K) : Prop where
  once : log.countP (fun e => v.action e = some (.finish k)) ≤ 1
  kept : log.Pairwise fun earlier later => v.action earlier = some (.cancel k) → v.action later ≠ some (.finish k)

theorem settled_log (v : View S E K) {log : List E} (settled : SettledOnce (log.filterMap v.action)) (k : K) :
    LogSettled v log k := by
  induction log with
  | nil => exact ⟨Nat.zero_le 1,.nil⟩
  | cons e log ih =>
    cases shown : v.action e with
    | none =>
      have rest := ih (by simpa [shown] using settled)
      exact ⟨by simpa [shown] using rest.once,pairwise_cons.mpr ⟨fun _ _ h => by simp [shown] at h,rest.kept⟩⟩
    | some action =>
      rw [filterMap_cons_some shown] at settled
      obtain ⟨first,later⟩ := pairwise_cons.mp settled
      have rest := ih later
      have unfinished : ∀ e' ∈ log, v.action e' = some (.finish k) → action ≠ .finish k ∧ action ≠ .cancel k := by
        intro e' mem finished
        exact first (.finish k) (mem_filterMap.mpr ⟨e',mem,finished⟩) k rfl
      refine ⟨?_,pairwise_cons.mpr ⟨?_,rest.kept⟩⟩
      · by_cases finished : action = .finish k
        · have none : log.countP (fun e => v.action e = some (.finish k)) = 0 := by
            rw [countP_eq_zero]
            intro e' mem again
            exact (unfinished e' mem (by simpa using again)).1 finished
          simp [shown,finished,none]
        · simpa [shown,finished] using rest.once
      · intro e' mem cancelled finished
        rw [shown,Option.some.injEq] at cancelled
        exact (unfinished e' mem finished).2 cancelled

theorem run_settled (v : View S E K) (step : S → C → S) (votes : C → K → Prop)
    (follows : ∀ s c, Follows v (votes c) s (step s c)) (start : S) (empty : v.log start = [])
    (absent : v.phase start = fun _ => .absent)
    (guarded : Throughout step (fun s c => ∀ k, votes c k → .forget k ∉ v.history s) start calls) (k : K) :
    LogSettled v (v.log (run step start calls)) k := by
  have reached : Runs (fun _ => .absent) (v.history (run step start calls)) (v.phase (run step start calls)) ∧
      Unforgotten (v.history (run step start calls)) := by
    refine run_invariant (fun s => Runs (fun _ => .absent) (v.history s) (v.phase s) ∧ Unforgotten (v.history s))
      ?_ ?_ guarded
    · rintro s c ⟨path,unforgotten⟩ fresh
      obtain ⟨acts,⟨_,log,shown,grown⟩,permitted⟩ := follows s c
      have history : v.history (step s c) = v.history s ++ acts := by simp [View.history,log,shown]
      rw [history]
      exact ⟨runs_trans path grown,unforgotten_append unforgotten fun k voted =>
        ⟨fresh k (permitted k voted).1,(permitted k voted).2⟩⟩
    · rw [View.history,empty,absent]
      exact ⟨.nil,.nil⟩
  exact settled_log v (runs_unsettled reached.1 reached.2).1 k

end Library.Lifecycle
