import Mathlib.Data.UInt
import Mathlib.Data.List.Basic
import Mathlib.Tactic.Common

namespace Library.Words

-- Machine words of a given width are the naturals below 2 ^ width; the arithmetic
-- that saturates, checks or wraps at the width is written out on naturals.
abbrev Word (width : Nat) := Fin (2 ^ width)

-- One constant for each width that literals are written at.
instance nonzero16 : NeZero (2 ^ 16) := ⟨by decide⟩
instance nonzero32 : NeZero (2 ^ 32) := ⟨by decide⟩
instance nonzero64 : NeZero (2 ^ 64) := ⟨by decide⟩
instance nonzero128 : NeZero (2 ^ 128) := ⟨by decide⟩

def maxOf (width : Nat) : Nat := 2 ^ width - 1

def saturatingAdd (width a b : Nat) : Nat := min (a + b) (maxOf width)
def saturatingMul (width a b : Nat) : Nat := min (a * b) (maxOf width)
def checkedAdd (width a b : Nat) : Option Nat := if a + b < 2 ^ width then some (a + b) else none
def checkedMul (width a b : Nat) : Option Nat := if a * b < 2 ^ width then some (a * b) else none
def checkedSub (a b : Nat) : Option Nat := if b ≤ a then some (a - b) else none
def wrappingAdd (width a b : Nat) : Nat := (a + b) % 2 ^ width

theorem checkedAdd_some : checkedAdd width a b = some c ↔ a + b < 2 ^ width ∧ c = a + b := by
  unfold checkedAdd
  split <;> simp_all [eq_comm]

theorem checkedMul_some : checkedMul width a b = some c ↔ a * b < 2 ^ width ∧ c = a * b := by
  unfold checkedMul
  split <;> simp_all [eq_comm]

theorem checkedSub_some : checkedSub a b = some c ↔ b ≤ a ∧ c = a - b := by
  unfold checkedSub
  split <;> simp_all [eq_comm]

theorem saturatingAdd_le : saturatingAdd width a b ≤ a + b := Nat.min_le_left _ _

theorem le_saturatingAdd (bounded : a < 2 ^ width) : a ≤ saturatingAdd width a b := by
  unfold saturatingAdd maxOf
  omega

theorem saturatingAdd_exact (fits : a + b < 2 ^ width) : saturatingAdd width a b = a + b := by
  unfold saturatingAdd maxOf
  omega

theorem saturatingAdd_mono (one : a ≤ a') (two : b ≤ b') : saturatingAdd width a b ≤ saturatingAdd width a' b' :=
  min_le_min_right _ (Nat.add_le_add one two)

theorem saturatingMul_mono (one : a ≤ a') (two : b ≤ b') : saturatingMul width a b ≤ saturatingMul width a' b' :=
  min_le_min_right _ (Nat.mul_le_mul one two)

theorem saturatingMul_exact (fits : a * b < 2 ^ width) : saturatingMul width a b = a * b :=
  Nat.min_eq_left (Nat.le_sub_one_of_lt fits)

def addSaturating (a : Word width) (b : Nat) : Word width :=
  ⟨saturatingAdd width a b,by
    have := Nat.two_pow_pos width
    unfold saturatingAdd maxOf
    omega⟩

@[simp] theorem addSaturating_val (a : Word width) (b : Nat) : (addSaturating a b).val = saturatingAdd width a b := rfl

def subSaturating (a : Word width) (b : Nat) : Word width := ⟨a - b,(Nat.sub_le _ _).trans_lt a.isLt⟩

@[simp] theorem subSaturating_val (a : Word width) (b : Nat) : (subSaturating a b).val = a - b := rfl

def leBytes : Nat → Nat → List UInt8
  | 0, _ => []
  | size + 1, n => UInt8.ofNat n :: leBytes size (n / 256)

@[simp] theorem leBytes_length (size n : Nat) : (leBytes size n).length = size := by
  induction size generalizing n with
  | zero => rfl
  | succ _ ih => simp [leBytes,ih]

theorem leBytes_injective (size : Nat) (ha : a < 256 ^ size) (hb : b < 256 ^ size)
    (same : leBytes size a = leBytes size b) : a = b := by
  induction size generalizing a b with
  | zero =>
    omega
  | succ _ ih =>
    obtain ⟨low,high⟩ := List.cons.inj same
    have lows : a % 256 = b % 256 := by simpa using congrArg UInt8.toNat low
    have highs := ih (a := a / 256) (b := b / 256) (by omega) (by omega) high
    omega

def ascii (text : String) : List UInt8 := text.toList.map fun c => UInt8.ofNat c.toNat

end Library.Words
