import Mathlib.Order.OrderIsoNat
import TheBrain.Arion.Pallet

namespace TheBrain.Arion
open Library Machine Words Function

structure NodeQuality where
  shardDataBytes : Nat
  bandwidthBytes : Nat
  uptimePermille : Nat
  strikes : Nat
  integrityFails : Nat

structure ScoreConfig where
  staleChildBuckets : Nat
  familyScoreFloorBytes : Nat
  familyScoreCeilBytes : Nat
  nodeBandwidthWeightPermille : Nat
  nodeStorageWeightPermille : Nat
  maxFamilyScore : Word 16
  maxFamilyWeight : Word 16
  strikePenalty : Word 16
  integrityFailPenalty : Word 16

structure Reports (A : Type) where
  nodeQualityByChild : A → Option NodeQuality
  nodeWeightLastBucket : A → Nat

structure Aggregate where
  stTotal : Nat
  bwTotal : Nat
  upNum : Nat
  upPlainSum : Nat
  freshChildren : Nat
  strikesTotal : Nat
  integrityTotal : Nat

def Aggregate.add (a : Aggregate) (q : NodeQuality) : Aggregate :=
  let up := min q.uptimePermille 1000
  { stTotal:=saturatingAdd 128 a.stTotal q.shardDataBytes
    bwTotal:=saturatingAdd 128 a.bwTotal q.bandwidthBytes
    upNum:=saturatingAdd 128 a.upNum (saturatingMul 128 up q.shardDataBytes)
    upPlainSum:=saturatingAdd 128 a.upPlainSum up
    freshChildren:=saturatingAdd 128 a.freshChildren 1
    strikesTotal:=saturatingAdd 32 a.strikesTotal q.strikes
    integrityTotal:=saturatingAdd 32 a.integrityTotal q.integrityFails }

def log2FixedU128 (x : Nat) : Nat :=
  if x = 0 then 0 else
  let intPart := x.log2
  let shifted := if 8 ≤ intPart then x >>> (intPart - 8) else x <<< (8 - intPart)
  intPart <<< 8 ||| (shifted &&& 0xFF)

section
variable (cfg : ScoreConfig)

def loFx : Nat := log2FixedU128 (max cfg.familyScoreFloorBytes 1)
def denFx : Nat := max (log2FixedU128 (max cfg.familyScoreCeilBytes 2) - loFx cfg) 1
def component (bytes : Nat) : Nat := min (log2FixedU128 (saturatingAdd 128 bytes 1) - loFx cfg) (denFx cfg)

def blend (bwTotal stTotal : Nat) : Nat :=
  let bwW := min cfg.nodeBandwidthWeightPermille 1000
  let stW := min cfg.nodeStorageWeightPermille 1000
  saturatingAdd 128 (saturatingMul 128 (component cfg bwTotal) bwW) (saturatingMul 128 (component cfg stTotal) stW) /
    max (bwW + stW) 1

def maxScore : Nat := min cfg.maxFamilyScore.val cfg.maxFamilyWeight.val

def baseScore (bwTotal stTotal : Nat) : Nat := saturatingMul 128 (blend cfg bwTotal stTotal) (maxScore cfg) / denFx cfg

def Aggregate.uptime (a : Aggregate) : Nat :=
  if 0 < a.stTotal then min (a.upNum / a.stTotal) 1000 else min (a.upPlainSum / a.freshChildren) 1000

def penTotal (a : Aggregate) : Nat :=
  saturatingAdd 128 (saturatingMul 128 a.strikesTotal cfg.strikePenalty)
    (saturatingMul 128 a.integrityTotal cfg.integrityFailPenalty)

def finalScore (base uptime pen : Nat) : Nat := min (saturatingMul 128 base uptime / 1000 - pen) (maxScore cfg) % 2 ^ 16

variable [DecidableEq A] (s : State A N W) (reports : Reports A) (family : A) (currentBucket : Nat)

def contribution (child : A) : Option NodeQuality :=
  match s.childRegistrations.lookup child with
  | none => none
  | some reg =>
    if ¬(reg.family = family ∧ reg.status = .active) then none else
    if cfg.staleChildBuckets < currentBucket - reports.nodeWeightLastBucket child then none else
    reports.nodeQualityByChild child

def contributions : List NodeQuality := (s.familyChildren family).filterMap (contribution cfg s reports family currentBucket)

def aggregate : Aggregate := (contributions cfg s reports family currentBucket).foldl Aggregate.add ⟨0,0,0,0,0,0,0⟩

def computeFamilyWeightFromNodes : Nat :=
  if s.familyChildren family = [] then 0 else
  let a := aggregate cfg s reports family currentBucket
  if a.freshChildren = 0 then 0 else
  finalScore cfg (baseScore cfg a.bwTotal a.stTotal) a.uptime (penTotal cfg a / a.freshChildren)

end

def withChild [DecidableEq A] (s : State A N W) (child : A) (reg : ChildRegistration A N) : State A N W :=
  {s with
    familyChildren:=update s.familyChildren reg.family (s.familyChildren reg.family ++ [child])
    childRegistrations:=s.childRegistrations.insert child reg}

def Reports.report [DecidableEq A] (reports : Reports A) (child : A) (q : NodeQuality) (bucket : Nat) : Reports A :=
  ⟨update reports.nodeQualityByChild child (some q),update reports.nodeWeightLastBucket child bucket⟩

def idle (up : Nat) : NodeQuality := ⟨0,0,up,0,0⟩

def mainnetScores : ScoreConfig := ⟨4,100 * 2 ^ 30,2 ^ 50,700,300,60000,65535,50,100⟩

def housed (reports : List (Nat × NodeQuality)) : State Nat Nat Unit × Reports Nat :=
  reports.foldl (fun p entry => (withChild p.1 entry.1 ⟨1,entry.1,.active,0,0⟩,p.2.report entry.1 entry.2 0))
    (genesis (),⟨fun _ => none,fun _ => 0⟩)

def housedWeight (reports : List (Nat × NodeQuality)) : Nat :=
  computeFamilyWeightFromNodes mainnetScores (housed reports).1 (housed reports).2 1 0

theorem log2FixedU128_eq (nonzero : x ≠ 0) :
    log2FixedU128 x = 256 * x.log2 + (256 * x / 2 ^ x.log2 - 256) ∧ 256 * x / 2 ^ x.log2 - 256 < 256 := by
  have low := Nat.log2_self_le nonzero
  have high := @Nat.lt_log2_self x
  have pos := Nat.two_pow_pos x.log2
  have least : 256 ≤ 256 * x / 2 ^ x.log2 := (Nat.le_div_iff_mul_le pos).mpr (Nat.mul_le_mul_left _ low)
  have most : 256 * x / 2 ^ x.log2 < 512 := (Nat.div_lt_iff_lt_mul pos).mpr (by omega)
  have shifted : (if 8 ≤ x.log2 then x >>> (x.log2 - 8) else x <<< (8 - x.log2)) = 256 * x / 2 ^ x.log2 := by
    split
    next wide =>
      obtain ⟨_,exact⟩ := Nat.exists_eq_add_of_le wide
      rw [exact,Nat.add_sub_cancel_left,Nat.shiftRight_eq_div_pow,Nat.pow_add,Nat.mul_div_mul_left _ _ (by decide)]
    next narrow =>
      have whole : 2 ^ 8 = 2 ^ (8 - x.log2) * 2 ^ x.log2 := by rw [← Nat.pow_add]; congr 1; omega
      rw [Nat.shiftLeft_eq,show 256 = 2 ^ 8 from rfl,whole,Nat.mul_right_comm,Nat.mul_div_cancel _ pos,Nat.mul_comm]
  unfold log2FixedU128
  rw [if_neg nonzero]
  dsimp only
  rw [show 0xFF = 2 ^ 8 - 1 from rfl,Nat.and_two_pow_sub_one_eq_mod,← Nat.shiftLeft_add_eq_or_of_lt (Nat.mod_lt _ (by decide))]
  omega

theorem log2FixedU128_mono (below : x ≤ y) : log2FixedU128 x ≤ log2FixedU128 y := by
  by_cases zero : x = 0
  · simp [log2FixedU128,zero]
  have nonzero : y ≠ 0 := by omega
  obtain ⟨one,_⟩ := log2FixedU128_eq zero
  obtain ⟨_,_⟩ := log2FixedU128_eq nonzero
  have ordered : x.log2 ≤ y.log2 := (Nat.le_log2 nonzero).mpr ((Nat.log2_self_le zero).trans below)
  rcases ordered.eq_or_lt with same | less
  · have fracs := Nat.div_le_div_right (c := 2 ^ x.log2) (Nat.mul_le_mul_left 256 below)
    rw [same] at one fracs
    omega
  · omega

section
variable (cfg : ScoreConfig)

theorem component_mono (below : x ≤ y) : component cfg x ≤ component cfg y :=
  min_le_min_right _ (Nat.sub_le_sub_right (log2FixedU128_mono (saturatingAdd_mono below (Nat.le_refl 1))) _)

theorem component_zero : component cfg 0 = 0 := by
  have one : log2FixedU128 (saturatingAdd 128 0 1) = 0 := by decide
  rw [component,one,Nat.zero_sub,Nat.zero_min]

theorem baseScore_mono (bw : bwTotal ≤ bwTotal') (st : stTotal ≤ stTotal') :
    baseScore cfg bwTotal stTotal ≤ baseScore cfg bwTotal' stTotal' := by
  refine Nat.div_le_div_right (saturatingMul_mono (Nat.div_le_div_right (saturatingAdd_mono ?_ ?_)) le_rfl)
  · exact saturatingMul_mono (component_mono cfg bw) le_rfl
  · exact saturatingMul_mono (component_mono cfg st) le_rfl

theorem baseScore_zero : baseScore cfg 0 0 = 0 := by
  simp [baseScore,blend,component_zero,saturatingAdd,saturatingMul]

theorem finalScore_eq (base uptime pen : Nat) :
    finalScore cfg base uptime pen = min (saturatingMul 128 base uptime / 1000 - pen) (maxScore cfg) :=
  Nat.mod_eq_of_lt ((min_le_right _ _).trans_lt ((min_le_left _ _).trans_lt cfg.maxFamilyScore.isLt))

theorem finalScore_mono (base : b ≤ b') (uptime : u ≤ u') (pen : p' ≤ p) : finalScore cfg b u p ≤ finalScore cfg b' u' p' := by
  rw [finalScore_eq,finalScore_eq]
  refine min_le_min_right _ (le_trans (Nat.sub_le_sub_left pen _) (Nat.sub_le_sub_right ?_ _))
  exact Nat.div_le_div_right (saturatingMul_mono base uptime)

theorem finalScore_zero (uptime pen : Nat) : finalScore cfg 0 uptime pen = 0 := by
  simp [finalScore,saturatingMul]

def evenly (n up strikes fails st bw : Nat) : Aggregate :=
  ⟨st,bw,min up 1000 * st,n * min up 1000,n,n * strikes,n * fails⟩

structure Unsaturated (a : Aggregate) : Prop where
  stored : a.stTotal < 2 ^ 128
  served : a.bwTotal < 2 ^ 128
  weighted : a.upNum < 2 ^ 128
  plain : a.upPlainSum < 2 ^ 128
  counted : a.freshChildren < 2 ^ 128
  struck : a.strikesTotal < 2 ^ 32
  failed : a.integrityTotal < 2 ^ 32

theorem foldl_evenly (qs : List NodeQuality)
    (same : ∀ q ∈ qs, q.uptimePermille = up ∧ q.strikes = strikes ∧ q.integrityFails = fails)
    (fits : Unsaturated (evenly (n + qs.length) up strikes fails (st + (qs.map (·.shardDataBytes)).sum)
      (bw + (qs.map (·.bandwidthBytes)).sum))) :
    qs.foldl Aggregate.add (evenly n up strikes fails st bw) =
      evenly (n + qs.length) up strikes fails (st + (qs.map (·.shardDataBytes)).sum) (bw + (qs.map (·.bandwidthBytes)).sum) := by
  induction qs generalizing n st bw with
  | nil => rfl
  | cons q qs ih =>
    obtain ⟨rfl,rfl,rfl⟩ := same q (.head _)
    simp only [List.map_cons,List.sum_cons,List.length_cons,← Nat.add_assoc,Nat.add_right_comm n _ 1] at fits ⊢
    rw [← ih (fun r mem => same r (.tail _ mem)) fits,List.foldl_cons]
    obtain ⟨stored,served,weighted,plain,counted,struck,failed⟩ := fits
    simp only [evenly,Aggregate.add]
    have grown : n + 1 ≤ n + 1 + qs.length := Nat.le_add_right _ _
    have heavier : st + q.shardDataBytes ≤ st + q.shardDataBytes + (qs.map (·.shardDataBytes)).sum := Nat.le_add_right _ _
    have weighed := (Nat.mul_le_mul_left (min q.uptimePermille 1000) heavier).trans_lt weighted
    rw [Nat.mul_add] at weighed
    have times : ∀ {width} (c : Nat), (n + 1 + qs.length) * c < 2 ^ width → saturatingAdd width (n * c) c = (n + 1) * c := by
      intro width c below
      have less := (Nat.mul_le_mul_right c grown).trans_lt below
      rw [Nat.succ_mul] at less ⊢
      exact saturatingAdd_exact less
    rw [saturatingAdd_exact (heavier.trans_lt stored),saturatingAdd_exact ((Nat.le_add_right _ _).trans_lt served),
      saturatingMul_exact ((Nat.le_add_left _ _).trans_lt weighed),saturatingAdd_exact weighed,Nat.mul_add,times _ plain,
      saturatingAdd_exact (grown.trans_lt counted),times _ struck,times _ failed]

theorem penTotal_evenly (fits : Unsaturated (evenly n up strikes fails st bw)) :
    penTotal cfg (evenly n up strikes fails st bw) =
      n * (strikes * cfg.strikePenalty.val + fails * cfg.integrityFailPenalty.val) := by
  have struck := Nat.mul_lt_mul'' fits.struck cfg.strikePenalty.isLt
  have failed := Nat.mul_lt_mul'' fits.failed cfg.integrityFailPenalty.isLt
  have wide : 2 ^ (32 + 16) + 2 ^ (32 + 16) < 2 ^ 128 := by decide
  rw [penTotal,saturatingMul_exact (struck.trans (by decide)),saturatingMul_exact (failed.trans (by decide)),
    saturatingAdd_exact ((Nat.add_lt_add struck failed).trans wide),Nat.mul_add]
  simp only [evenly,Nat.mul_assoc]

theorem uptime_evenly (present : 0 < n) : (evenly n up strikes fails st bw).uptime = min up 1000 := by
  have capped : min (min up 1000) 1000 = min up 1000 := by omega
  unfold Aggregate.uptime evenly
  split
  next stored => rw [Nat.mul_div_cancel _ stored,capped]
  next => rw [Nat.mul_div_cancel_left _ present,capped]

def uniformWeight (up strikes fails st bw : Nat) : Nat :=
  finalScore cfg (baseScore cfg bw st) (min up 1000) (strikes * cfg.strikePenalty.val + fails * cfg.integrityFailPenalty.val)

section
variable [DecidableEq A]

structure Uniform (s : State A N W) (reports : Reports A) (family : A) (currentBucket up strikes fails st bw : Nat) : Prop where
  same : ∀ q ∈ contributions cfg s reports family currentBucket,
    q.uptimePermille = up ∧ q.strikes = strikes ∧ q.integrityFails = fails
  stored : ((contributions cfg s reports family currentBucket).map (·.shardDataBytes)).sum = st
  served : ((contributions cfg s reports family currentBucket).map (·.bandwidthBytes)).sum = bw
  fits : Unsaturated (evenly (contributions cfg s reports family currentBucket).length up strikes fails st bw)

theorem Uniform.weight {s : State A N W} (uniform : Uniform cfg s reports family currentBucket up strikes fails st bw) :
    computeFamilyWeightFromNodes cfg s reports family currentBucket = uniformWeight cfg up strikes fails st bw := by
  obtain ⟨same,rfl,rfl,fits⟩ := uniform
  have total := @foldl_evenly up strikes fails 0 0 0 _ same (by simpa only [Nat.zero_add] using fits)
  have start : evenly 0 up strikes fails 0 0 = ⟨0,0,0,0,0,0,0⟩ := by simp [evenly]
  simp only [Nat.zero_add,start] at total
  rw [← aggregate] at total
  unfold computeFamilyWeightFromNodes
  by_cases absent : contributions cfg s reports family currentBucket = []
  · rw [total]
    simp [absent,evenly,uniformWeight,baseScore_zero,finalScore_zero]
  have present := List.length_pos_of_ne_nil absent
  rw [if_neg (fun none => absent (by rw [contributions,none,List.filterMap_nil]))]
  rw [total,if_neg (by simp only [evenly]; omega),penTotal_evenly cfg fits,uptime_evenly present]
  simp only [evenly,Nat.mul_div_cancel_left _ present]
  rfl

theorem splitting_is_neutral (s s' : State A N W) (reports reports' : Reports A) (family family' : A)
    (currentBucket bucket' up strikes fails st bw : Nat) :
    (Uniform cfg s reports family currentBucket up strikes fails st bw →
      Uniform cfg s' reports' family' bucket' up strikes fails st bw →
      computeFamilyWeightFromNodes cfg s reports family currentBucket =
        computeFamilyWeightFromNodes cfg s' reports' family' bucket') ∧
    (∀ up' strikes' fails' st' bw', Uniform cfg s reports family currentBucket up strikes fails st bw →
      Uniform cfg s' reports' family' bucket' up' strikes' fails' st' bw' →
      up ≤ up' → strikes' ≤ strikes → fails' ≤ fails → st ≤ st' → bw ≤ bw' →
      computeFamilyWeightFromNodes cfg s reports family currentBucket ≤
        computeFamilyWeightFromNodes cfg s' reports' family' bucket') ∧
    computeFamilyWeightFromNodes cfg s reports family currentBucket ≤ min cfg.maxFamilyScore.val cfg.maxFamilyWeight.val := by
  refine ⟨fun one two => by rw [one.weight,two.weight],?_,?_⟩
  · intro up' strikes' fails' st' bw' one two uptime struck failed stored served
    rw [one.weight,two.weight]
    refine finalScore_mono cfg (baseScore_mono cfg served stored) (min_le_min_right _ uptime) (Nat.add_le_add ?_ ?_)
    · exact Nat.mul_le_mul_right _ struck
    · exact Nat.mul_le_mul_right _ failed
  · unfold computeFamilyWeightFromNodes
    split
    · exact Nat.zero_le _
    dsimp only
    split
    · exact Nat.zero_le _
    rw [finalScore_eq]
    exact min_le_right _ _

theorem splitting_is_neutral_halves :
    housedWeight [(2,⟨2 ^ 41,2 ^ 40,900,1,0⟩)] = housedWeight [(2,⟨2 ^ 40,2 ^ 39,900,1,0⟩),(3,⟨2 ^ 40,2 ^ 39,900,1,0⟩)] ∧
    housedWeight [(2,⟨2 ^ 41,2 ^ 40,900,1,0⟩)] ≤ housedWeight [(2,⟨2 ^ 42,2 ^ 40,950,0,0⟩)] := by
  have whole : Uniform mainnetScores (housed [(2,⟨2 ^ 41,2 ^ 40,900,1,0⟩)]).1 (housed [(2,⟨2 ^ 41,2 ^ 40,900,1,0⟩)]).2 1 0
      900 1 0 (2 ^ 41) (2 ^ 40) := ⟨by decide,by decide,by decide,by constructor <;> decide⟩
  constructor
  · refine (splitting_is_neutral _ _ _ _ _ _ _ _ _ _ _ _ _ _).1 whole ?_
    exact ⟨by decide,by decide,by decide,by constructor <;> decide⟩
  · refine (splitting_is_neutral _ _ _ _ _ _ _ _ _ _ _ _ _ _).2.1 950 0 0 (2 ^ 42) (2 ^ 40) whole
      ⟨by decide,by decide,by decide,by constructor <;> decide⟩ ?_ ?_ ?_ ?_ ?_ <;> decide

-- The plain totals over the contributing children, up to the width of each counter.
def totals (qs : List NodeQuality) : Aggregate where
  stTotal := min (qs.map (·.shardDataBytes)).sum (maxOf 128)
  bwTotal := min (qs.map (·.bandwidthBytes)).sum (maxOf 128)
  upNum := min (qs.map fun q => saturatingMul 128 (min q.uptimePermille 1000) q.shardDataBytes).sum (maxOf 128)
  upPlainSum := min (qs.map fun q => min q.uptimePermille 1000).sum (maxOf 128)
  freshChildren := min qs.length (maxOf 128)
  strikesTotal := min (qs.map (·.strikes)).sum (maxOf 32)
  integrityTotal := min (qs.map (·.integrityFails)).sum (maxOf 32)

end
end

section
variable (limit : Word 16) (alpha d : Nat)

def emaPermilleU16 (prev next alpha : Nat) : Nat :=
  let a := min alpha 1000
  min ((prev * (1000 - a) + next * a) / 1000) (maxOf 16)

def clampU16 (x lo hi : Nat) : Nat := if x < lo then lo else if hi < x then hi else x

def smoothed (raw prev : Nat) : Nat :=
  min (clampU16 (emaPermilleU16 prev raw alpha) (prev - d) (min (saturatingAdd 16 prev d) limit)) limit

variable {limit alpha d} {prev raw : Nat} (share : 1 ≤ alpha ∧ alpha ≤ 1000) (moves : 1 ≤ d)
include share moves

theorem smoothed_rises (below : prev ≤ raw) (capped : raw ≤ limit.val) : let next := smoothed limit alpha d raw prev
    prev ≤ next ∧ next ≤ raw ∧ next ≤ prev + d ∧ (next = prev → alpha * (raw - prev) < 1000) := by
  obtain ⟨gap,rfl⟩ := Nat.exists_eq_add_of_le below
  have mixed : prev * (1000 - alpha) + (prev + gap) * alpha = 1000 * prev + alpha * gap := by
    rw [Nat.add_mul,← Nat.add_assoc,← Nat.mul_add,Nat.sub_add_cancel share.2,Nat.mul_comm prev,Nat.mul_comm gap]
  have part := Nat.mul_le_mul_right gap share.2
  simp only [smoothed,emaPermilleU16,clampU16,saturatingAdd,maxOf,Nat.min_eq_left share.2,mixed,Nat.add_sub_cancel_left]
  split_ifs <;> omega

theorem smoothed_falls (above : raw ≤ prev) (capped : prev ≤ limit.val) : let next := smoothed limit alpha d raw prev
    raw ≤ next ∧ next ≤ prev ∧ prev ≤ next + d ∧ (next = prev → prev = raw) := by
  have small := limit.isLt
  obtain ⟨gap,rfl⟩ := Nat.exists_eq_add_of_le above
  have mixed : (raw + gap) * (1000 - alpha) + raw * alpha = 1000 * raw + (1000 - alpha) * gap := by
    rw [Nat.add_mul,Nat.add_right_comm,← Nat.mul_add,Nat.sub_add_cancel share.2,Nat.mul_comm raw,Nat.mul_comm gap]
  have whole : (1000 - alpha) * gap + alpha * gap = 1000 * gap := by rw [← Nat.add_mul,Nat.sub_add_cancel share.2]
  have part : gap ≤ alpha * gap := Nat.le_mul_of_pos_left gap share.1
  simp only [smoothed,emaPermilleU16,clampU16,saturatingAdd,maxOf,Nat.min_eq_left share.2,mixed]
  split_ifs <;> omega
end

theorem smoothing_converges (limit prev raw : Word 16) (alpha d : Nat) (bounded : prev ≤ limit) (capped : raw ≤ limit)
    (share : 1 ≤ alpha ∧ alpha ≤ 1000) (moves : 1 ≤ d) :
    let weight := fun n => (smoothed limit alpha d raw)^[n] prev
    (∀ n, weight n ≤ limit.val ∧ weight (n + 1) ≤ weight n + d ∧ weight n ≤ weight (n + 1) + d) ∧
    (prev ≤ raw → ∀ n, weight n ≤ weight (n + 1) ∧ weight (n + 1) ≤ raw.val) ∧
    (raw ≤ prev → ∀ n, raw.val ≤ weight (n + 1) ∧ weight (n + 1) ≤ weight n) ∧
    ∃ n, (∀ m, weight (n + m) = weight n) ∧ alpha * (raw.val - weight n) < 1000 ∧
      (raw ≤ prev ∨ alpha = 1000 → weight n = raw.val) := by
  intro weight
  have succ : ∀ n, weight (n + 1) = smoothed limit alpha d raw (weight n) := fun n => iterate_succ_apply' ..
  have rises : prev ≤ raw → ∀ n, weight n ≤ raw.val ∧ weight n ≤ weight (n + 1) ∧ weight (n + 1) ≤ raw.val ∧
      weight (n + 1) ≤ weight n + d ∧ (weight (n + 1) = weight n → alpha * (raw.val - weight n) < 1000) := by
    intro below n
    rw [succ]
    induction n with
    | zero => exact ⟨below,smoothed_rises share moves below capped⟩
    | succ n ih => exact ⟨succ n ▸ ih.2.2.1,succ n ▸ smoothed_rises share moves ih.2.2.1 capped⟩
  have falls : raw ≤ prev → ∀ n, weight n ≤ limit.val ∧ raw.val ≤ weight (n + 1) ∧ weight (n + 1) ≤ weight n ∧
      weight n ≤ weight (n + 1) + d ∧ (weight (n + 1) = weight n → weight n = raw) := by
    intro above n
    rw [succ]
    induction n with
    | zero => exact ⟨bounded,smoothed_falls share moves above bounded⟩
    | succ n ih =>
      have under := ih.2.2.1.trans ih.1
      exact ⟨succ n ▸ under,succ n ▸ smoothed_falls share moves ih.2.1 under⟩
  refine ⟨?_,fun below n => ⟨(rises below n).2.1,(rises below n).2.2.1⟩,fun above n => ⟨(falls above n).2.1,(falls above n).2.2.1⟩,?_⟩
  · intro n
    rcases le_total prev raw with below | above
    · have step := rises below n
      exact ⟨step.1.trans capped,step.2.2.2.1,step.2.1.trans (Nat.le_add_right _ _)⟩
    · have step := falls above n
      omega
  -- The distance cannot fall at every step, and a step that leaves it leaves the weight.
  obtain ⟨n,still⟩ : ∃ n, weight (n + 1) = weight n := by
    by_contra never
    refine not_strictAnti_of_wellFoundedLT (fun n => (weight n - raw.val) + (raw.val - weight n)) (strictAnti_nat_of_succ_lt fun n => ?_)
    have moved : weight (n + 1) ≠ weight n := fun same => never ⟨n,same⟩
    rcases le_total prev raw with below | above
    · have step := rises below n
      omega
    · have step := falls above n
      omega
  refine ⟨n,fun m => ?_,?_⟩
  · dsimp only [weight] at succ still ⊢
    rw [Nat.add_comm,iterate_add_apply,iterate_fixed (succ n ▸ still)]
  · rcases le_total prev raw with below | above
    · have step := rises below n
      refine ⟨step.2.2.2.2 still,?_⟩
      rintro (above | rfl)
      · have high := falls above n
        omega
      · have near := step.2.2.2.2 still
        omega
    · have ends := (falls above n).2.2.2.2 still
      simp [ends]

theorem smoothing_converges_falling :
    (∀ n, (smoothed 100 500 2 3)^[n + 1] 10 ≤ (smoothed 100 500 2 3)^[n] 10) ∧ ∃ n, (smoothed 100 500 2 3)^[n] 10 = 3 := by
  obtain ⟨_,_,falls,n,_,_,ends⟩ := smoothing_converges 100 10 3 500 2 (by decide) (by decide) (by decide) (by decide)
  exact ⟨fun n => (falls (by decide) n).2,n,ends (.inl (by decide))⟩

-- A share below one is floored away: from below the weight stops short.
theorem smoothing_stalls : ¬∃ n, (smoothed 100 1 1 1)^[n] 0 = 1 := by
  rintro ⟨n,reached⟩
  rw [iterate_fixed (by decide)] at reached
  cases reached

end TheBrain.Arion
