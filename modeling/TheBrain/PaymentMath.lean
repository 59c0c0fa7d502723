import Mathlib.Algebra.Order.BigOperators.Group.List
import Mathlib.Algebra.Order.Floor.Div
import Mathlib.Algebra.Order.Group.Nat
import Mathlib.Data.Nat.ModEq
import TheBrain.Library.Words

-- The units of the crate wrap one u128 each and are kept as naturals. Its U256 and
-- U512 intermediates hold every product of u128 operands exactly.
namespace TheBrain.PaymentMath
open Library.Words

def gib : Nat := 2 ^ 30
def e18 : Nat := 1000000000000000000
def bpsDenom : Nat := 10000

def tokensFor (byteBlocks price tokenPrice : Nat) : Nat :=
  if tokenPrice = 0 then 0 else min (byteBlocks * price * e18 / (gib * tokenPrice)) (maxOf 128)

def proRataWide (due pool totalDue : Nat) : Nat :=
  if totalDue = 0 then 0 else if totalDue ≤ pool then due else min (due * pool / totalDue) due

def weightShare (pool weight totalWeight : Nat) : Nat :=
  if totalWeight = 0 then 0 else min (pool * weight / totalWeight) pool

def sumDues (dues : List Nat) : Nat := dues.foldl (saturatingAdd 256) 0

def totalDueForEvent (total : Nat) : Nat := min total (maxOf 128)

def split (amount partRatio : Nat) : Nat × Nat :=
  let part := amount * min partRatio bpsDenom / bpsDenom
  (part,amount - part)

def prorateFirstMonth (monthlyPrice daysRemaining daysInMonth : Nat) : Nat :=
  if daysInMonth = 0 then monthlyPrice
  else (monthlyPrice * min daysRemaining daysInMonth + (daysInMonth - 1)) / daysInMonth

def times (amount count : Nat) : Nat := saturatingMul 128 amount count

def available (balance existentialDeposit : Nat) : Nat := balance - existentialDeposit

def payable (requested available : Nat) : Nat := min requested available

theorem proRataWide_le (due pool totalDue : Nat) : proRataWide due pool totalDue ≤ due := by
  unfold proRataWide
  split
  · exact Nat.zero_le _
  · split
    · exact le_rfl
    · exact Nat.min_le_right _ _

theorem proRataWide_short (due : Nat) (short : pool < totalDue) : proRataWide due pool totalDue = pool * due / totalDue := by
  unfold proRataWide
  rw [if_neg (Nat.ne_zero_of_lt short),if_neg (Nat.not_le_of_lt short),Nat.mul_comm due pool]
  refine Nat.min_eq_left (Nat.div_le_of_le_mul ?_)
  exact Nat.mul_le_mul_right due short.le

theorem weightShare_eq (pool : Nat) (part : weight ≤ totalWeight) :
    weightShare pool weight totalWeight = pool * weight / totalWeight := by
  unfold weightShare
  split
  · next empty => rw [empty,Nat.div_zero]
  · refine Nat.min_eq_left (Nat.div_le_of_le_mul ?_)
    rw [Nat.mul_comm totalWeight]
    exact Nat.mul_le_mul_left pool part

theorem floors_le (pool total : Nat) (weights : List Nat) :
    (weights.map fun weight => pool * weight / total).sum ≤ pool * weights.sum / total := by
  induction weights with
  | nil => simp
  | cons weight weights ih =>
    rw [List.map_cons,List.sum_cons,List.sum_cons,Nat.mul_add]
    calc pool * weight / total + (weights.map fun weight => pool * weight / total).sum
        ≤ pool * weight / total + pool * weights.sum / total := Nat.add_le_add_left ih _
      _ ≤ (pool * weight + pool * weights.sum) / total := Nat.div_add_div_le_add_div ..

-- Each floor loses less than one, so together they lose less than one for each share.
theorem floors_near (pool : Nat) (weights : List Nat) (positive : 0 < total) :
    pool * weights.sum + weights.length
      ≤ total * ((weights.map fun weight => pool * weight / total).sum + weights.length) := by
  induction weights with
  | nil => simp
  | cons weight _ ih =>
    have floor : pool * weight < total * (pool * weight / total + 1) := Nat.lt_mul_div_succ _ positive
    simp only [List.map_cons,List.sum_cons,List.length_cons,Nat.mul_add,Nat.mul_one] at floor ih ⊢
    omega

theorem floors_leave (pool : Nat) (weights : List Nat) (positive : 0 < weights.sum) :
    pool - (weights.map fun weight => pool * weight / weights.sum).sum < weights.length := by
  have near := floors_near pool weights positive
  have some : 0 < weights.length := List.length_pos_of_ne_nil fun empty => by simp [empty] at positive
  have less : pool < (weights.map fun weight => pool * weight / weights.sum).sum + weights.length := by
    refine Nat.lt_of_mul_lt_mul_left (a := weights.sum) ?_
    rw [Nat.mul_comm _ pool]
    omega
  omega

theorem floor_mono (pool others : Nat) (grows : small ≤ large) :
    pool * small / (others + small) ≤ pool * large / (others + large) := by
  rcases Nat.eq_zero_or_pos (others + small) with empty | positive
  · rw [empty,Nat.div_zero]
    exact Nat.zero_le _
  · refine (Nat.le_div_iff_mul_le (Nat.lt_of_lt_of_le positive (Nat.add_le_add_left grows others))).mpr ?_
    refine Nat.le_of_mul_le_mul_right ?_ positive
    calc pool * small / (others + small) * (others + large) * (others + small)
        = pool * small / (others + small) * (others + small) * (others + large) := Nat.mul_right_comm ..
      _ ≤ pool * small * (others + large) := Nat.mul_le_mul_right _ (Nat.div_mul_le_self _ _)
      _ ≤ pool * large * (others + small) := ?_
    rw [Nat.mul_assoc,Nat.mul_assoc,Nat.mul_add small,Nat.mul_add large,Nat.mul_comm small large]
    exact Nat.mul_le_mul_left pool (Nat.add_le_add_right (Nat.mul_le_mul_right others grows) _)

theorem foldDues_eq (dues : List Nat) (start : Nat) (bounded : start ≤ maxOf 256) :
    dues.foldl (saturatingAdd 256) start = min (start + dues.sum) (maxOf 256) := by
  induction dues generalizing start with
  | nil =>
    rw [List.foldl_nil,List.sum_nil,Nat.add_zero,Nat.min_eq_left bounded]
  | cons due _ ih =>
    have clamped : saturatingAdd 256 start due ≤ maxOf 256 := Nat.min_le_right _ _
    rw [List.foldl_cons,ih _ clamped,List.sum_cons]
    unfold saturatingAdd
    omega

theorem sumDues_eq (dues : List Nat) : sumDues dues = min dues.sum (maxOf 256) := by
  have folded := foldDues_eq dues 0 (Nat.zero_le _)
  rwa [Nat.zero_add] at folded

-- All shares together stay within the pool. When the wide sum itself saturates, it
-- exceeds every product of two u128 values and all shares are zero.
theorem proRataShares_le (dues : List Nat) (pool : Nat) (small : ∀ due ∈ dues, due < 2 ^ 128) (bounded : pool < 2 ^ 128) :
    (dues.map fun due => proRataWide due pool (sumDues dues)).sum ≤ pool := by
  rw [sumDues_eq]
  by_cases covers : min dues.sum (maxOf 256) ≤ pool
  · have exact : min dues.sum (maxOf 256) = dues.sum := by
      unfold maxOf at covers ⊢
      omega
    rw [exact] at covers ⊢
    calc (dues.map fun due => proRataWide due pool dues.sum).sum
        ≤ (dues.map fun due => due).sum := List.sum_le_sum fun due _ => proRataWide_le due pool dues.sum
      _ = dues.sum := by rw [List.map_id']
      _ ≤ pool := covers
  · rw [List.map_congr_left fun due _ => proRataWide_short due (Nat.lt_of_not_le covers)]
    by_cases fits : dues.sum ≤ maxOf 256
    · rw [Nat.min_eq_left fits]
      calc (dues.map fun due => pool * due / dues.sum).sum
          ≤ pool * dues.sum / dues.sum := floors_le pool dues.sum dues
        _ ≤ pool := Nat.div_le_of_le_mul (Nat.mul_comm pool dues.sum).le
    · rw [Nat.min_eq_right (Nat.le_of_not_le fits)]
      have none : ∀ due ∈ dues, pool * due / maxOf 256 = 0 := by
        intro due present
        have product : pool * due ≤ (2 ^ 128 - 1) * (2 ^ 128 - 1) :=
          Nat.mul_le_mul (Nat.le_sub_one_of_lt bounded) (Nat.le_sub_one_of_lt (small due present))
        apply Nat.div_eq_of_lt
        unfold maxOf
        omega
      rw [List.map_congr_left none]
      simp

theorem proRataWide_mono (pool totalDue : Nat) (grows : small ≤ large) :
    proRataWide small pool totalDue ≤ proRataWide large pool totalDue := by
  unfold proRataWide
  split
  · exact le_rfl
  · split
    · exact grows
    · exact min_le_min (Nat.div_le_div_right (Nat.mul_le_mul_right pool grows)) grows

theorem weightShare_mono (pool totalWeight : Nat) (grows : small ≤ large) :
    weightShare pool small totalWeight ≤ weightShare pool large totalWeight := by
  unfold weightShare
  split
  · exact le_rfl
  · exact min_le_min (Nat.div_le_div_right (Nat.mul_le_mul_left pool grows)) le_rfl

theorem proRataWide_grows (pool others : Nat) (grows : small ≤ large) :
    proRataWide small pool (others + small) ≤ proRataWide large pool (others + large) := by
  by_cases covered : others + large ≤ pool
  · have all : proRataWide large pool (others + large) = large := by
      unfold proRataWide
      split <;> omega
    rw [all]
    exact (proRataWide_le ..).trans grows
  · have short : pool < others + large := Nat.lt_of_not_le covered
    rw [proRataWide_short large short]
    by_cases before : others + small ≤ pool
    · refine (proRataWide_le ..).trans ((Nat.le_div_iff_mul_le (Nat.zero_lt_of_lt short)).mpr ?_)
      -- What the pool leaves beside the others is still the claimant's.
      obtain ⟨rest,rfl⟩ := Nat.exists_eq_add_of_le before
      calc small * (others + large)
          = small * others + small * large := Nat.mul_add ..
        _ ≤ others * large + small * large := Nat.add_le_add_right (by rw [Nat.mul_comm]; exact Nat.mul_le_mul_left _ grows) _
        _ = (others + small) * large := (Nat.add_mul ..).symm
        _ ≤ (others + small + rest) * large := Nat.mul_le_mul_right _ (Nat.le_add_right _ _)
    · rw [proRataWide_short small (Nat.lt_of_not_le before)]
      exact floor_mono pool others grows

theorem shares_safe :
    (∀ (dues : List Nat) (pool : Nat),(∀ due ∈ dues,due < 2 ^ 128) → pool < 2 ^ 128 → dues.sum < 2 ^ 256 →
      (∀ due ∈ dues,proRataWide due pool (sumDues dues) ≤ due) ∧
      (dues.map fun due => proRataWide due pool (sumDues dues)).sum ≤ pool ∧
      (dues.sum ≤ pool → ∀ due ∈ dues,proRataWide due pool (sumDues dues) = due) ∧
      (pool < dues.sum → pool - (dues.map fun due => proRataWide due pool (sumDues dues)).sum < dues.length) ∧
      (∀ small large,small ≤ large → proRataWide small pool (sumDues dues) ≤ proRataWide large pool (sumDues dues))) ∧
    (∀ (before after : List Nat) (pool small large : Nat),(before ++ large :: after).sum < 2 ^ 256 → small ≤ large →
      proRataWide small pool (sumDues (before ++ small :: after)) ≤ proRataWide large pool (sumDues (before ++ large :: after))) ∧
    (∀ (weights : List Nat) (pool : Nat),0 < weights.sum → weights.sum < 2 ^ 128 → pool < 2 ^ 128 →
      (weights.map fun weight => weightShare pool weight weights.sum).sum ≤ pool ∧
      pool - (weights.map fun weight => weightShare pool weight weights.sum).sum < weights.length ∧
      (∀ small large,small ≤ large → weightShare pool small weights.sum ≤ weightShare pool large weights.sum)) ∧
    ∀ (before after : List Nat) (pool small large : Nat),(before ++ large :: after).sum < 2 ^ 128 → small ≤ large →
      weightShare pool small (before ++ small :: after).sum ≤ weightShare pool large (before ++ large :: after).sum := by
  have middle : ∀ (before after : List Nat) due,(before ++ due :: after).sum = before.sum + after.sum + due := by
    intro before after due
    rw [List.sum_append,List.sum_cons]
    omega
  refine ⟨?_,?_,?_,?_⟩
  · intro dues pool small bounded fits
    have exact : sumDues dues = dues.sum := (sumDues_eq dues).trans (Nat.min_eq_left (Nat.le_sub_one_of_lt fits))
    refine ⟨fun due _ => proRataWide_le due pool _,proRataShares_le dues pool small bounded,?_,?_,?_⟩
    · intro covered due mem
      rw [exact]
      unfold proRataWide
      rw [if_pos covered]
      have part := List.le_sum_of_mem mem
      split <;> omega
    · intro short
      rw [exact,List.map_congr_left fun due _ => proRataWide_short due short]
      exact floors_leave pool dues (Nat.zero_lt_of_lt short)
    · intro small large
      exact proRataWide_mono pool _
  · intro before after pool small large fits grows
    have exact : ∀ due ≤ large,sumDues (before ++ due :: after) = before.sum + after.sum + due := by
      intro due less
      rw [sumDues_eq,middle]
      rw [middle] at fits
      exact Nat.min_eq_left (Nat.le_sub_one_of_lt (by omega))
    rw [exact small grows,exact large le_rfl]
    exact proRataWide_grows pool _ grows
  · intro weights pool positive fits bounded
    have floors : (weights.map fun weight => weightShare pool weight weights.sum)
        = weights.map fun weight => pool * weight / weights.sum :=
      List.map_congr_left fun weight mem => weightShare_eq pool (List.le_sum_of_mem mem)
    have within := floors_le pool weights.sum weights
    rw [Nat.mul_div_cancel _ positive] at within
    rw [floors]
    refine ⟨within,floors_leave pool weights positive,?_⟩
    intro small large
    exact weightShare_mono pool _
  · intro before after pool small large fits grows
    rw [middle,middle,weightShare_eq pool (Nat.le_add_left _ _),weightShare_eq pool (Nat.le_add_left _ _)]
    exact floor_mono pool _ grows

theorem shares_safe_short :
    12 - ([7,11].map fun due => proRataWide due 12 (sumDues [7,11])).sum < 2 ∧
    12 - ([7,11].map fun weight => weightShare 12 weight 18).sum < 2 :=
  ⟨(shares_safe.1 [7,11] 12 (by decide) (by decide) (by decide)).2.2.2.1 (by decide),
    (shares_safe.2.2.1 [7,11] 12 (by decide) (by decide) (by decide)).2.1⟩

theorem times_le (amount count : Nat) : times amount count ≤ amount * count := Nat.min_le_left _ _

theorem times_exact (fits : amount * count < 2 ^ 128) : times amount count = amount * count :=
  Nat.min_eq_left (Nat.le_sub_one_of_lt fits)

-- Two parts that make up the whole are rounded down apart, one of them piece by piece.
theorem split_pieces (amount count : Nat) :
    (split amount 9500).1 * count + (split (amount * count) 500).1 ≤ amount * count := by
  have piece : (split amount 9500).1 * 10000 ≤ amount * 9500 := Nat.div_mul_le_self _ _
  have whole : (split (amount * count) 500).1 * 10000 ≤ amount * count * 500 := Nat.div_mul_le_self _ _
  have pieces : (split amount 9500).1 * 10000 * count ≤ amount * 9500 * count := Nat.mul_le_mul_right count piece
  rw [Nat.mul_right_comm,Nat.mul_right_comm amount] at pieces
  omega

theorem prorate_le (monthlyPrice daysRemaining daysInMonth : Nat) :
    prorateFirstMonth monthlyPrice daysRemaining daysInMonth ≤ monthlyPrice := by
  unfold prorateFirstMonth
  split
  · exact le_rfl
  next days =>
    have part : monthlyPrice * min daysRemaining daysInMonth ≤ monthlyPrice * daysInMonth :=
      Nat.mul_le_mul_left monthlyPrice (Nat.min_le_right _ _)
    refine Nat.le_of_lt_succ (Nat.div_lt_of_lt_mul ?_)
    rw [Nat.mul_comm daysInMonth,Nat.succ_mul]
    omega

theorem prorate_mono (monthlyPrice daysInMonth : Nat) (fewer : left ≤ right) :
    prorateFirstMonth monthlyPrice left daysInMonth ≤ prorateFirstMonth monthlyPrice right daysInMonth := by
  unfold prorateFirstMonth
  split
  · exact le_rfl
  · refine Nat.div_le_div_right (Nat.add_le_add_right (Nat.mul_le_mul_left monthlyPrice ?_) _)
    omega

theorem tokensFor_mono (more : a ≤ b) (dearer : price ≤ rate) (traded : scarce ≠ 0) (cheaper : scarce ≤ tokenPrice) :
    tokensFor a price tokenPrice ≤ tokensFor b rate scarce := by
  unfold tokensFor
  rw [if_neg traded,if_neg (by omega)]
  refine min_le_min_right _ (Nat.div_le_div ?_ ?_ ?_)
  · exact Nat.mul_le_mul_right _ (Nat.mul_le_mul more dearer)
  · exact Nat.mul_le_mul_left _ cheaper
  · exact Nat.mul_ne_zero (by decide) traded

theorem tokensFor_add (uncapped : (a + b) * price * e18 / (gib * tokenPrice) ≤ maxOf 128) :
    tokensFor a price tokenPrice + tokensFor b price tokenPrice ≤ tokensFor (a + b) price tokenPrice ∧
      tokensFor (a + b) price tokenPrice ≤ tokensFor a price tokenPrice + tokensFor b price tokenPrice + 1 := by
  unfold tokensFor
  split
  · simp
  · rw [Nat.add_mul,Nat.add_mul] at uncapped ⊢
    generalize a * price * e18 = x at uncapped ⊢
    generalize b * price * e18 = y at uncapped ⊢
    have below := Nat.div_add_div_le_add_div (x := x) (y := y) (z := gib * tokenPrice)
    have above := Nat.add_div_le_div_add_div_add_one x y (gib * tokenPrice)
    rw [Nat.min_eq_left uncapped,Nat.min_eq_left ((Nat.le_add_right _ _).trans (below.trans uncapped)),
      Nat.min_eq_left ((Nat.le_add_left _ _).trans (below.trans uncapped))]
    exact ⟨below,above⟩

-- The three conversions with every operation of the source checked at its own width:
-- none of them can fail.
namespace Checked

def asU128 (n : Nat) : Option Nat := if n < 2 ^ 128 then some n else none

def tokensFor (byteBlocks price tokenPrice : Nat) : Option Nat :=
  if tokenPrice = 0 then some 0 else do
    let product ← checkedMul 512 byteBlocks price
    let num ← checkedMul 512 product e18
    let den ← checkedMul 256 gib tokenPrice
    asU128 (min (num / den) (maxOf 128))

def split (amount partRatio : Nat) : Option (Nat × Nat) := do
  let product ← checkedMul 256 amount (min partRatio bpsDenom)
  let part ← asU128 (product / bpsDenom)
  let rest ← checkedSub amount part
  return (part,rest)

def prorateFirstMonth (monthlyPrice daysRemaining daysInMonth : Nat) : Option Nat :=
  if daysInMonth = 0 then some monthlyPrice else do
    let product ← checkedMul 256 monthlyPrice (min daysRemaining daysInMonth)
    let less ← checkedSub daysInMonth 1
    let num ← checkedAdd 256 product less
    asU128 (num / daysInMonth)

end Checked

theorem tokensFor_checked (a price tokenPrice : Word 128) :
    Checked.tokensFor a price tokenPrice = some (tokensFor a price tokenPrice) := by
  have product := Nat.mul_lt_mul'' a.isLt price.isLt
  unfold Checked.tokensFor tokensFor
  split
  · rfl
  · have num : a.val * price * e18 < 2 ^ 512 := by unfold e18; omega
    have den : gib * tokenPrice.val < 2 ^ 256 := by unfold gib; omega
    have cap : maxOf 128 < 2 ^ 128 := by decide
    simp only [Option.bind_eq_bind,Option.bind_eq_some_iff,checkedMul_some,Checked.asU128,Option.ite_none_right_eq_some]
    exact ⟨_,⟨by omega,rfl⟩,_,⟨num,rfl⟩,_,⟨den,rfl⟩,Nat.lt_of_le_of_lt (Nat.min_le_right _ _) cap,rfl⟩

theorem split_checked (amount : Word 128) (ratio : Nat) : Checked.split amount ratio = some (split amount ratio) := by
  have small : min ratio bpsDenom ≤ bpsDenom := Nat.min_le_right _ _
  have product := Nat.mul_le_mul_left amount.val small
  have part : amount * min ratio bpsDenom / bpsDenom ≤ amount := Nat.div_le_of_le_mul (by rw [Nat.mul_comm bpsDenom]; exact product)
  simp only [Checked.split,Option.bind_eq_bind,Option.bind_eq_some_iff,checkedMul_some,Checked.asU128,Option.ite_none_right_eq_some,checkedSub_some]
  refine ⟨_,⟨?_,rfl⟩,_,⟨by omega,rfl⟩,_,⟨part,rfl⟩,rfl⟩
  unfold bpsDenom at product ⊢
  omega

theorem prorate_checked (monthlyPrice : Word 128) (days length : Word 32) :
    Checked.prorateFirstMonth monthlyPrice days length = some (prorateFirstMonth monthlyPrice days length) := by
  have whole := prorate_le monthlyPrice days length
  unfold Checked.prorateFirstMonth
  unfold prorateFirstMonth at whole ⊢
  split
  · rfl
  next some =>
    have product := Nat.mul_lt_mul'' monthlyPrice.isLt (Nat.lt_of_le_of_lt (Nat.min_le_right days.val length) length.isLt)
    rw [if_neg some] at whole
    simp only [Option.bind_eq_bind,Option.bind_eq_some_iff,checkedMul_some,checkedAdd_some,checkedSub_some,Checked.asU128,Option.ite_none_right_eq_some]
    exact ⟨_,⟨by omega,rfl⟩,_,⟨by omega,rfl⟩,_,⟨by omega,rfl⟩,by omega,rfl⟩

theorem conversions_exact :
    (∀ byteBlocks price tokenPrice : Word 128, tokenPrice.val ≠ 0 → Checked.tokensFor byteBlocks price tokenPrice =
      some (min (byteBlocks.val * price.val * 10 ^ 18 / (2 ^ 30 * tokenPrice.val)) (2 ^ 128 - 1))) ∧
    (∀ a b price rate tokenPrice scarce : Word 128, a ≤ b → price ≤ rate → scarce.val ≠ 0 → scarce ≤ tokenPrice →
      ∃ fewer more, Checked.tokensFor a price tokenPrice = some fewer ∧ Checked.tokensFor b rate scarce = some more ∧ fewer ≤ more) ∧
    (∀ a b sum price tokenPrice : Word 128, a.val + b.val = sum.val → sum.val * price.val * e18 / (gib * tokenPrice.val) ≤ maxOf 128 →
      ∃ one two both, Checked.tokensFor a price tokenPrice = some one ∧ Checked.tokensFor b price tokenPrice = some two ∧
        Checked.tokensFor sum price tokenPrice = some both ∧ one + two ≤ both ∧ both ≤ one + two + 1) ∧
    (∀ (monthlyPrice : Word 128) (days length : Word 32), length.val ≠ 0 →
      Checked.prorateFirstMonth monthlyPrice days length = some (monthlyPrice.val * min days.val length.val ⌈/⌉ length.val) ∧
        monthlyPrice.val * min days.val length.val ⌈/⌉ length.val ≤ monthlyPrice.val) ∧
    ∀ (amount : Word 128) (ratio : Nat), ∃ part rest, Checked.split amount ratio = some (part,rest) ∧ part + rest = amount.val := by
  refine ⟨?_,?_,?_,?_,?_⟩
  · intro byteBlocks price tokenPrice traded
    rw [tokensFor_checked,tokensFor,if_neg traded]
    rfl
  · intro a b price rate tokenPrice scarce more dearer traded cheaper
    exact ⟨_,_,tokensFor_checked .., tokensFor_checked ..,tokensFor_mono more dearer traded cheaper⟩
  · intro a b sum price tokenPrice adds uncapped
    rw [← adds] at uncapped
    obtain ⟨below,above⟩ := tokensFor_add uncapped
    rw [adds] at below above
    exact ⟨_,_,_,tokensFor_checked ..,tokensFor_checked ..,tokensFor_checked ..,below,above⟩
  · intro monthlyPrice days length some
    have ceil : prorateFirstMonth monthlyPrice days length = monthlyPrice.val * min days.val length.val ⌈/⌉ length.val := by
      rw [prorateFirstMonth,if_neg some,Nat.ceilDiv_eq_add_pred_div]
      congr 1
      omega
    rw [← ceil]
    exact ⟨prorate_checked ..,prorate_le ..⟩
  · intro amount ratio
    refine ⟨_,_,split_checked amount ratio,Nat.add_sub_of_le (Nat.div_le_of_le_mul ?_)⟩
    rw [Nat.mul_comm bpsDenom]
    exact Nat.mul_le_mul_left _ (Nat.min_le_right _ _)

end TheBrain.PaymentMath
