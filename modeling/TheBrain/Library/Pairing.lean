import Mathlib.Logic.Function.Basic

namespace Library.Pairing
open Function

variable {K V : Type} [DecidableEq K] [DecidableEq V] {f : K → Option V} {g : V → Option K}

-- Two partial maps that are each other's inverse.
def Inverse (f : K → Option V) (g : V → Option K) : Prop := ∀ k v, f k = some v ↔ g v = some k

theorem Inverse.bind (inverse : Inverse f g) (free : f k = none) (idle : g v = none) :
    Inverse (update f k (some v)) (update g v (some k)) := by
  intro key value
  have there := inverse key value
  simp only [update_apply]
  grind

theorem Inverse.release (inverse : Inverse f g) (held : f k = some v) : Inverse (update f k none) (update g v none) := by
  intro key value
  have there := inverse key value
  have back := inverse k value
  simp only [update_apply]
  grind

end Library.Pairing
