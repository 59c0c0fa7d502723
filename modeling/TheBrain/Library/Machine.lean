import Mathlib.Logic.Basic
import Mathlib.Data.List.Basic
import Mathlib.Logic.Relation

namespace Library.Machine

-- Guards of a fallible call: ensure a condition, or unwrap an option, else fail
-- with the given error. Nothing here fixes what an error or a state is.
def ensure (c : Prop) [Decidable c] (e : ε) : Except ε Unit := if c then .ok () else .error e

def okOr (o : Option α) (e : ε) : Except ε α :=
  match o with
  | some a => .ok a
  | none => .error e

def commit (s : S) (result : Except ε S) : S :=
  match result with
  | .ok next => next
  | .error _ => s

def failsWith [DecidableEq ε] (e : ε) (result : Except ε α) : Bool :=
  match result with
  | .ok _ => false
  | .error e' => e' = e

@[simp] theorem bind_ok {x : Except ε α} {f : α → Except ε β} : (x >>= f) = .ok b ↔ ∃ a, x = .ok a ∧ f a = .ok b := by
  cases x <;> simp [bind,Except.bind]

@[simp] theorem ensure_ok {c : Prop} [Decidable c] {e : ε} {u : Unit} : ensure c e = .ok u ↔ c := by
  unfold ensure
  split <;> simp_all

@[simp] theorem okOr_ok {o : Option α} {e : ε} : okOr o e = .ok a ↔ o = some a := by
  cases o <;> simp [okOr]

@[simp] theorem bind_error {x : Except ε α} {f : α → Except ε β} :
    (x >>= f) = .error e ↔ x = .error e ∨ ∃ a, x = .ok a ∧ f a = .error e := by
  cases x <;> simp [bind,Except.bind]

@[simp] theorem ensure_error {c : Prop} [Decidable c] {e e' : ε} : ensure c e = .error e' ↔ ¬c ∧ e = e' := by
  unfold ensure
  split <;> simp_all

@[simp] theorem okOr_error {o : Option α} {e e' : ε} : okOr o e = .error e' ↔ o = none ∧ e = e' := by
  cases o <;> simp [okOr]

@[simp] theorem exists_unit {p : Unit → Prop} : (∃ u, p u) ↔ p () := ⟨fun ⟨(),h⟩ => h,fun h => ⟨(),h⟩⟩

-- The simp set that reads a successful fallible call back as the conditions it met.
theorem passes : (∀ {ε α β : Type} {x : Except ε α} {f : α → Except ε β} {b}, (x >>= f) = .ok b ↔ ∃ a, x = .ok a ∧ f a = .ok b) ∧
    (∀ {ε : Type} {c : Prop} [Decidable c] {e : ε} {u}, ensure c e = .ok u ↔ c) ∧
    (∀ {ε α : Type} {o : Option α} {e : ε} {a}, okOr o e = .ok a ↔ o = some a) ∧
    (∀ {ε α : Type} {a b : α}, (Except.ok a : Except ε α) = .ok b ↔ a = b) ∧ ∀ {p : Unit → Prop}, (∃ u, p u) ↔ p () :=
  ⟨bind_ok,ensure_ok,okOr_ok,by simp,exists_unit⟩

@[simp] theorem commit_ok (s next : S) : commit s (.ok next : Except ε S) = next := rfl
@[simp] theorem commit_error (s : S) (e : ε) : commit s (.error e) = s := rfl

theorem commit_cases (s : S) (result : Except ε S) :
    (∃ next, result = .ok next ∧ commit s result = next) ∨ (∃ e, result = .error e ∧ commit s result = s) := by
  cases result with
  | ok next => exact .inl ⟨next,rfl,rfl⟩
  | error e => exact .inr ⟨e,rfl,rfl⟩

theorem commit_inv (inv : S → Prop) (still : inv s) {result : Except ε S}
    (ran : ∀ next, result = .ok next → inv next) : inv (commit s result) := by
  cases result with
  | ok next => exact ran next rfl
  | error => exact still

theorem isOk_ok {result : Except ε α} (taken : result.isOk = true) : ∃ a, result = .ok a := by
  cases result with
  | ok a => exact ⟨a,rfl⟩
  | error => cases taken

-- A run folds a total step function over a list of calls. Throughout states a
-- fact about every call together with the state it is made in; it can serve as
-- a guard on a run and as the conclusion about one.
def run (step : S → C → S) (s : S) (calls : List C) : S := calls.foldl step s

def Throughout (step : S → C → S) (fact : S → C → Prop) : S → List C → Prop
  | _, [] => True
  | s, c :: calls => fact s c ∧ Throughout step fact (step s c) calls

instance Throughout.decide (step : S → C → S) (fact : S → C → Prop) [h : ∀ s c, Decidable (fact s c)] :
    (s : S) → (calls : List C) → Decidable (Throughout step fact s calls)
  | _, [] => .isTrue trivial
  | s, c :: calls => @instDecidableAnd _ _ (h s c) (Throughout.decide step fact (step s c) calls)

section
variable {step : S → C → S}

@[simp] theorem run_nil : run step s [] = s := rfl
@[simp] theorem run_cons : run step s (c :: calls) = run step (step s c) calls := rfl

theorem run_append : run step s (first ++ rest) = run step (run step s first) rest := by
  simp only [run,List.foldl_append]

theorem throughout_append :
    Throughout step fact s (first ++ rest) ↔
      Throughout step fact s first ∧ Throughout step fact (run step s first) rest := by
  induction first generalizing s with
  | nil => simp [Throughout]
  | cons _ _ ih => simp only [List.cons_append,Throughout,run_cons,ih,and_assoc]

theorem throughout_and (one : Throughout step fact s calls) (two : Throughout step fact' s calls) :
    Throughout step (fun s c => fact s c ∧ fact' s c) s calls := by
  induction calls generalizing s with
  | nil => trivial
  | cons _ _ ih => exact ⟨⟨one.1,two.1⟩,ih one.2 two.2⟩

theorem run_invariant (inv : S → Prop) {guard : S → C → Prop}
    (preserved : ∀ s c, inv s → guard s c → inv (step s c))
    (start : inv s) (guarded : Throughout step guard s calls) : inv (run step s calls) := by
  induction calls generalizing s with
  | nil => exact start
  | cons c _ ih => exact ih (preserved s c start guarded.1) guarded.2

theorem run_always (inv : S → Prop) (preserved : ∀ s c, inv s → inv (step s c)) (start : inv s) : inv (run step s calls) := by
  induction calls generalizing s with
  | nil => exact start
  | cons c _ ih => exact ih (preserved s c start)

theorem path_keeps {moves : S → S → Prop} (inv : S → Prop) (each : ∀ s t, moves s t → inv s → inv t)
    (path : Relation.ReflTransGen moves s t) (start : inv s) : inv t := by
  induction path with
  | refl => exact start
  | tail _ move ih => exact each _ _ move ih

theorem throughout_of_mem {fact : S → C → Prop} (s : S) (calls : List C) (holds : ∀ c ∈ calls, ∀ s, fact s c) :
    Throughout step fact s calls := by
  induction calls generalizing s with
  | nil => trivial
  | cons c _ ih =>
    refine ⟨holds c (List.mem_cons_self ..) s,?_⟩
    exact ih (step s c) fun d mem => holds d (List.mem_cons_of_mem _ mem)

theorem throughout_of_invariant (inv : S → Prop) {guard fact : S → C → Prop}
    (preserved : ∀ s c, inv s → guard s c → inv (step s c))
    (holds : ∀ s c, inv s → guard s c → fact s c)
    (start : inv s) (guarded : Throughout step guard s calls) : Throughout step fact s calls := by
  induction calls generalizing s with
  | nil => trivial
  | cons c _ ih =>
    exact ⟨holds s c start guarded.1,ih (preserved s c start guarded.1) guarded.2⟩

-- A loop whose every step moves along a transitive relation and establishes something
-- for its own element that the relation keeps: the loop has established it for all.
theorem foldl_establishes {f : S → C → S} (inv : S → Prop) (moves : S → S → Prop) (post : C → S → Prop)
    (still : ∀ s, inv s → moves s s) (trans : ∀ s t u, moves s t → moves t u → moves s u)
    (stable : ∀ c s t, moves s t → post c s → post c t)
    (each : ∀ s c, inv s → inv (f s c) ∧ moves s (f s c) ∧ post c (f s c)) (calls : List C) (start : inv s) :
    moves s (calls.foldl f s) ∧ ∀ c ∈ calls, post c (calls.foldl f s) := by
  induction calls generalizing s with
  | nil => exact ⟨still s start,nofun⟩
  | cons c _ ih =>
    obtain ⟨fine,moved,established⟩ := each s c start
    obtain ⟨rest,later⟩ := ih fine
    refine ⟨trans s _ _ moved rest,?_⟩
    intro d mem
    rcases List.mem_cons.mp mem with same | further
    · exact same ▸ stable c _ _ rest established
    · exact later d further

end

def recording (step : S → C → S) (emits : S → C → List E) (p : S × List E) (c : C) : S × List E :=
  (step p.1 c,p.2 ++ emits p.1 c)

@[simp] theorem run_recording_fst (step : S → C → S) (emits : S → C → List E) (p : S × List E) (calls : List C) :
    (run (recording step emits) p calls).1 = run step p.1 calls := by
  induction calls generalizing p with
  | nil => rfl
  | cons c _ ih => exact ih (recording step emits p c)

theorem throughout_recording {step : S → C → S} {guard : S → C → Prop} (emits : S → C → List E) (p : S × List E)
    (guarded : Throughout step guard p.1 calls) : Throughout (recording step emits) (fun p c => guard p.1 c) p calls := by
  induction calls generalizing p with
  | nil => trivial
  | cons _ _ ih => exact ⟨guarded.1,ih _ guarded.2⟩

theorem foldlM_keeps (inv : S → Prop) {f : S → C → Except ε S} (each : ∀ s c t, inv s → f s c = .ok t → inv t)
    (calls : List C) (start : inv s) (ran : calls.foldlM f s = .ok t) : inv t := by
  induction calls generalizing s with
  | nil =>
    cases ran
    exact start
  | cons c _ ih =>
    simp only [List.foldlM_cons,bind_ok] at ran
    obtain ⟨next,first,rest⟩ := ran
    exact ih (each s c next start first) rest

section
variable {f : S → C → Except ε S} (inv : List C → S → Prop) (each : ∀ s c rest t, inv (c :: rest) s → f s c = .ok t → inv rest t)
include each

theorem foldlM_down (calls : List C) (start : inv calls s) (ran : calls.foldlM f s = .ok t) : inv [] t := by
  induction calls generalizing s with
  | nil =>
    cases ran
    exact start
  | cons c calls ih =>
    simp only [List.foldlM_cons,bind_ok] at ran
    obtain ⟨next,first,rest⟩ := ran
    exact ih (each s c calls next start first) rest

theorem foldlM_fails (fact : ε → Prop) (errs : ∀ s c rest e, inv (c :: rest) s → f s c = .error e → fact e) (calls : List C)
    (start : inv calls s) (failed : calls.foldlM f s = .error e) : fact e := by
  induction calls generalizing s with
  | nil => cases failed
  | cons c calls ih =>
    simp only [List.foldlM_cons,bind_error] at failed
    rcases failed with first | ⟨next,first,rest⟩
    · exact errs s c calls e start first
    · exact ih (each s c calls next start first) rest

end

theorem foldl_gathers {f : List β → α → List β} {P : α → Prop} (each : ∀ out x, b ∈ f out x ↔ b ∈ out ∨ P x) (xs : List α) (out : List β) :
    b ∈ xs.foldl f out ↔ b ∈ out ∨ ∃ x ∈ xs, P x := by
  induction xs generalizing out with
  | nil => simp
  | cons _ _ ih => simp only [List.foldl_cons,ih,each,List.exists_mem_cons_iff,or_assoc]

theorem foldl_keeps (inv : S → Prop) {f : S → C → S} (each : ∀ s c, inv s → inv (f s c)) (calls : List C) (start : inv s) :
    inv (calls.foldl f s) := by
  induction calls generalizing s with
  | nil => exact start
  | cons c _ ih => exact ih (each s c start)

end Library.Machine
