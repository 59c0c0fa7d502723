import TheBrain.Library.Words
import Mathlib.Logic.Function.Basic

namespace Library.Nonces
open Words Function List

-- Counters of a fixed width, one for each key, that a use raises by one until they are full.
variable {K R : Type} {width : Nat} {f g h : K → Nat} {moved also : K → Prop}

structure Advance (width : Nat) (moved : K → Prop) (f g : K → Nat) : Prop where
  kept : ∀ k, f k ≤ maxOf width → f k ≤ g k ∧ g k ≤ maxOf width
  raised : ∀ k, moved k → f k < maxOf width → f k < g k

theorem Advance.still (f : K → Nat) (nothing : ∀ k, ¬moved k) : Advance width moved f f where
  kept _ fits := ⟨le_rfl,fits⟩
  raised k there := absurd there (nothing k)

theorem Advance.bump [DecidableEq K] (width : Nat) (f : K → Nat) (key : K) :
    Advance width (· = key) f (update f key (saturatingAdd width (f key) 1)) := by
  constructor
  case kept =>
    intro k fits
    rw [update_apply]
    split
    next own =>
      rw [own] at fits ⊢
      unfold saturatingAdd
      omega
    · exact ⟨le_rfl,fits⟩
  case raised =>
    intro k own room
    rw [own,update_self]
    rw [own] at room
    unfold saturatingAdd
    omega

theorem Advance.trans (one : Advance width moved f g) (two : Advance width also g h) :
    Advance width (fun k => moved k ∨ also k) f h := by
  constructor
  case kept =>
    intro k fits
    have first := one.kept k fits
    have second := two.kept k first.2
    exact ⟨first.1.trans second.1,second.2⟩
  case raised =>
    intro k there room
    have first := one.kept k room.le
    have second := two.kept k first.2
    rcases there with early | late
    · exact (one.raised k early room).trans_le second.1
    -- Full already after the first part, or raised by the second.
    · by_cases full : g k < maxOf width
      · exact first.1.trans_lt (two.raised k late full)
      · omega

theorem Advance.weaken (advance : Advance width moved f g) (fewer : ∀ k, also k → moved k) : Advance width also f g :=
  ⟨advance.kept,fun k there => advance.raised k (fewer k there)⟩

theorem Advance.parties {P : Type} {f g : P × K → Nat} {moved : P × K → Prop}
    (each : ∀ party, Advance width (fun k => moved (party,k)) (fun k => f (party,k)) fun k => g (party,k)) : Advance width moved f g :=
  ⟨fun key => (each key.1).kept key.2,fun key => (each key.1).raised key.2⟩

theorem Advance.party {P : Type} {f g : P × K → Nat} {named : List K} {changed : P × K → Prop} (party : P)
    (own : Advance width (fun k => k ∈ named ∨ changed (party,k)) (fun k => f (party,k)) fun k => g (party,k))
    (others : ∀ other ≠ party, ∀ k, g (other,k) = f (other,k) ∧ ¬changed (other,k)) :
    Advance width (fun key => key ∈ named.map (fun k => (party,k)) ∨ changed key) f g := by
  refine .parties fun other => ?_
  by_cases same : other = party
  · rw [same]
    refine own.weaken ?_
    intro k there
    refine there.imp_left ?_
    intro inside
    obtain ⟨_,inside,same⟩ := mem_map.mp inside
    cases same
    exact inside
  · rw [funext fun k => (others other same k).1]
    refine .still _ ?_
    intro k there
    rcases there with inside | moved
    · obtain ⟨_,_,pair⟩ := mem_map.mp inside
      exact same (congrArg Prod.fst pair).symm
    · exact (others other same k).2 moved

-- What was used, each time with the value of its counter then: all different, and all below
-- the counters of now.
structure Spent (key : R → K) (value : R → Nat) (log : List R) (f : K → Nat) : Prop where
  distinct : log.Nodup
  below : ∀ r ∈ log, value r < f (key r)

variable {key : R → K} {value : R → Nat} {log : List R}

theorem Spent.later (spent : Spent key value log f) (grown : ∀ k, f k ≤ g k) : Spent key value log g :=
  ⟨spent.distinct,fun r mem => (spent.below r mem).trans_le (grown (key r))⟩

theorem Spent.use (spent : Spent key value log f) (grown : ∀ k, f k ≤ g k) (now : value r = f (key r))
    (raised : f (key r) < g (key r)) : Spent key value (log ++ [r]) g := by
  have fresh : r ∉ log := by
    intro mem
    have below := spent.below r mem
    omega
  constructor
  case distinct => exact spent.distinct.append (nodup_singleton r) (disjoint_singleton.mpr fresh)
  case below =>
    intro r' mem
    rcases mem_append.mp mem with old | new
    · exact (spent.later grown).below r' old
    · rw [mem_singleton.mp new,now]
      exact raised

end Library.Nonces
