import Mathlib.Logic.Basic

namespace TheBrain

inductive Origin (A : Type) where
  | root
  | signed (account : A)
  deriving DecidableEq, Repr

def Origin.signer : Origin A → Option A
  | .root => none
  | .signed account => some account

-- The balances pallet as the other pallets see it. The account table is an opaque
-- value; a transfer may be refused for any reason, and moves exactly the amount when
-- accepted, which for a transfer to oneself is no change.
structure Currency (A B : Type) [DecidableEq A] where
  freeBalance : B → A → Nat
  minimumBalance : Nat
  transfer : B → A → A → Nat → Option B
  transfer_exact : ∀ accounts source dest amount next, transfer accounts source dest amount = some next →
    ∀ who, freeBalance next who + (if who = source then amount else 0) =
      freeBalance accounts who + if who = dest then amount else 0

namespace Currency
variable [DecidableEq A] (cfg : Currency A B)

section
variable (moved : cfg.transfer accounts source dest amount = some next)
include moved

theorem transfer_spends (who : A) :
    cfg.freeBalance accounts who ≤ cfg.freeBalance next who + amount := by
  have exact := cfg.transfer_exact accounts source dest amount next moved who
  split at exact <;> omega

theorem transfer_lowers :
    cfg.freeBalance next source ≤ cfg.freeBalance accounts source := by
  have exact := cfg.transfer_exact accounts source dest amount next moved source
  rw [if_pos rfl] at exact
  split at exact <;> omega

theorem transfer_receives (apart : dest ≠ source) :
    cfg.freeBalance next dest = cfg.freeBalance accounts dest + amount := by
  have exact := cfg.transfer_exact accounts source dest amount next moved dest
  rw [if_neg apart,if_pos rfl] at exact
  omega

end

def plain (existentialDeposit : Nat) : Currency Nat (Nat → Nat) where
  freeBalance accounts who := accounts who
  minimumBalance := existentialDeposit
  transfer accounts source dest amount :=
    if amount + existentialDeposit ≤ accounts source then
      some fun who => accounts who - (if who = source then amount else 0) + if who = dest then amount else 0
    else none
  transfer_exact := by
    intro accounts source dest amount next moved who
    split at moved
    · cases moved
      by_cases sender : who = source
      · subst who
        simp only [if_true]
        omega
      · simp only [sender,if_false]
        omega
    · cases moved

end Currency
end TheBrain
