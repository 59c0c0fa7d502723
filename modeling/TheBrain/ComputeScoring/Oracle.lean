import TheBrain.ComputeScoring.Calls

namespace TheBrain.ComputeScoring
open Library Machine Words Function List

def dividedFirst (amount perm : Nat) : Nat := amount / 1000 * perm + amount % 1000 * perm / 1000

theorem dividedFirst_eq (amount perm : Nat) : dividedFirst amount perm = amount * perm / 1000 := by
  have whole : amount * perm = amount % 1000 * perm + 1000 * (amount / 1000 * perm) := by
    conv_lhs => rw [← Nat.mod_add_div amount 1000,Nat.add_mul,Nat.mul_assoc]
  rw [whole,Nat.add_mul_div_left _ _ (by decide),Nat.add_comm]
  rfl

theorem oracleAllowed_exact (narrow : perm < 2 ^ 32) (fits : dividedFirst amount perm < 2 ^ 128) :
    oracleAllowed amount perm = amount * perm / 1000 := by
  have tail : amount % 1000 * perm ≤ 1000 * perm := Nat.mul_le_mul_right perm (Nat.mod_lt _ (by decide)).le
  have head : amount / 1000 * perm < 2 ^ 128 := (Nat.le_add_right _ _).trans_lt fits
  unfold oracleAllowed wrappingAdd
  rw [saturatingMul_exact head,saturatingMul_exact (by omega)]
  exact (Nat.mod_eq_of_lt fits).trans (dividedFirst_eq amount perm)

theorem dividedFirst_le (delta : Nat) (part : perm ≤ 1000) : dividedFirst delta perm ≤ delta := by
  rw [dividedFirst_eq]
  have product := Nat.mul_le_mul_left delta part
  omega

theorem stepToward_exact (differs : delta ≠ 0) (word : delta < 2 ^ 128) (moves : 1 ≤ perm) (part : perm ≤ 1000) :
    stepToward delta perm = max 1 (delta * perm / 1000) := by
  have fits : dividedFirst delta perm < 2 ^ 128 := (dividedFirst_le delta part).trans_lt word
  have exact := oracleAllowed_exact (by omega) fits
  unfold oracleAllowed at exact
  rw [stepToward,if_neg (by omega),exact,Nat.max_comm]

theorem step_within (delta : Nat) (differs : delta ≠ 0) (part : perm ≤ 1000) : max 1 (delta * perm / 1000) ≤ delta := by
  have within := dividedFirst_le delta part
  rw [dividedFirst_eq] at within
  omega

section
variable {A H W : Type}
variable {cfg : Config A H W} {s t : State A H W}

theorem distance_eq (a b : Nat) : distance a b = b - a + (a - b) := by
  unfold distance
  split <;> omega

structure Smoothed (stakes : Stakes A) : Prop where
  down : 1 ≤ stakes.emaDownPermille
  downPart : stakes.emaDownPermille ≤ 1000
  up : 1 ≤ stakes.emaUpPermille
  upPart : stakes.emaUpPermille ≤ 1000

structure Tracked (stakes : Stakes A) (spot ema result : Nat) : Prop where
  dumped : ema < spot → result = ema + max 1 ((spot - ema) * stakes.emaDownPermille / 1000)
  pumped : spot < ema → result = ema - max 1 ((ema - spot) * stakes.emaUpPermille / 1000)
  equal : ema = spot → result = ema
  between : min ema spot ≤ result ∧ result ≤ max ema spot
  closer : ema ≠ spot → distance spot result < distance spot ema

theorem emaStep_moves {stakes : Stakes A} (smoothed : Smoothed stakes) (priced : 0 < ema) (spotWord : spot < 2 ^ 128)
    (emaWord : ema < 2 ^ 128) : Tracked stakes spot ema (emaStep stakes spot ema) := by
  rcases Nat.lt_trichotomy ema spot with less | same | more
  · have within := step_within (spot - ema) (by omega) smoothed.downPart
    have value : emaStep stakes spot ema = ema + max 1 ((spot - ema) * stakes.emaDownPermille / 1000) := by
      rw [emaStep,if_neg priced.ne',if_pos less.le,stepToward_exact (by omega) (by omega) smoothed.down smoothed.downPart]
      exact saturatingAdd_exact (by omega)
    refine ⟨fun _ => value,by omega,by omega,by omega,fun _ => ?_⟩
    rw [distance_eq,distance_eq]
    omega
  · have value : emaStep stakes spot ema = ema := by
      rw [emaStep,if_neg priced.ne',if_pos same.le,same,Nat.sub_self]
      exact saturatingAdd_exact spotWord
    exact ⟨by omega,by omega,fun _ => value,by omega,fun differs => absurd same differs⟩
  · have within := step_within (ema - spot) (by omega) smoothed.upPart
    have value : emaStep stakes spot ema = ema - max 1 ((ema - spot) * stakes.emaUpPermille / 1000) := by
      rw [emaStep,if_neg priced.ne',if_neg (by omega),stepToward_exact (by omega) (by omega) smoothed.up smoothed.upPart]
    refine ⟨by omega,fun _ => value,by omega,by omega,fun _ => ?_⟩
    rw [distance_eq,distance_eq]
    omega

-- The distance to the spot falls with every step, so it is gone after that many.
theorem emaStep_reaches {stakes : Stakes A} (smoothed : Smoothed stakes) (positive : 0 < spot) (spotWord : spot < 2 ^ 128)
    (priced : 0 < ema) (emaWord : ema < 2 ^ 128) (enough : distance spot ema ≤ n) :
    (emaStep stakes spot)^[n] ema = spot := by
  induction n generalizing ema with
  | zero =>
    rw [distance_eq] at enough
    exact (by omega : ema = spot)
  | succ _ ih =>
    have moved := emaStep_moves smoothed priced spotWord emaWord
    have bounds := moved.between
    refine ih (by omega) (by omega) ?_
    by_cases same : ema = spot
    · rw [moved.equal same,same,distance_eq]
      omega
    · have closer := moved.closer same
      omega

theorem setAlphaPerUsd_ok (ran : setAlphaPerUsd cfg s origin spot = .ok t) :
    t.stakes.alphaPerUsdEma = emaStep s.stakes spot.val s.stakes.alphaPerUsdEma ∧
      t.stakes.emaDownPermille = s.stakes.emaDownPermille ∧ t.stakes.emaUpPermille = s.stakes.emaUpPermille := by
  simp only [setAlphaPerUsd,passes] at ran
  obtain ⟨-,-,-,rfl⟩ := ran
  exact ⟨rfl,rfl,rfl⟩

theorem posts_iterate (ran : (List.replicate n spot).foldlM (fun s spot => setAlphaPerUsd cfg s origin spot) s = .ok t) :
    t.stakes.alphaPerUsdEma = (emaStep s.stakes spot.val)^[n] s.stakes.alphaPerUsdEma := by
  induction n generalizing s with
  | zero =>
    cases ran
    rfl
  | succ _ ih =>
    rw [replicate_succ,foldlM_cons,bind_ok] at ran
    obtain ⟨u,post,rest⟩ := ran
    obtain ⟨ema,down,up⟩ := setAlphaPerUsd_ok post
    have same : emaStep u.stakes spot.val = emaStep s.stakes spot.val := by
      unfold emaStep
      rw [down,up]
    rw [ih rest,iterate_succ_apply,← ema,same]

theorem ema_tracks_spot (spot ema : Word 128) (positive : 0 < spot.val) (priced : 0 < ema.val) (stakes : Stakes A)
    (smoothed : Smoothed stakes) :
    Tracked stakes spot ema (emaStep stakes spot ema) ∧
    (∀ delta < 2 ^ 128,∀ perm ≤ 1000,delta / 1000 * perm + delta % 1000 * perm / 1000 < 2 ^ 128) ∧
    (∀ n,distance spot ema ≤ n → (emaStep stakes spot)^[n] ema = spot) ∧
    ∀ (cfg : Config A H W) (s t : State A H W) (origin : Origin A) (n : Nat),s.stakes = {stakes with alphaPerUsdEma:=ema} →
      (replicate n spot).foldlM (fun s spot => setAlphaPerUsd cfg s origin spot) s = .ok t → distance spot ema ≤ n →
      t.stakes.alphaPerUsdEma = spot := by
  have reaches : ∀ n,distance spot ema ≤ n → (emaStep stakes spot)^[n] ema = spot := fun n enough =>
    emaStep_reaches smoothed positive spot.isLt priced ema.isLt enough
  refine ⟨emaStep_moves smoothed priced spot.isLt ema.isLt,?_,reaches,?_⟩
  · intro delta word perm part
    exact (dividedFirst_le delta part).trans_lt word
  · intro cfg s t origin n holds ran enough
    rw [posts_iterate ran,holds]
    exact reaches n enough

end

theorem ema_tracks_spot_sample : (emaStep (genesis (A := Nat) (H := Short) ()).stakes 7)^[3] 9 = 7 :=
  (ema_tracks_spot (H := Short) (W := Unit) 7 9 (by decide) (by decide) (genesis (A := Nat) (H := Short) ()).stakes
    ⟨by decide,by decide,by decide,by decide⟩).2.2.1 3 (by decide)

section
variable {A H W : Type}
variable {cfg : Config A H W} {s : State A H W}

theorem oracleAllowed_covers (narrow : band < 2 ^ 32)
    (fits : saturatingMul 128 (ema / 1000) band + ema % 1000 * band / 1000 < 2 ^ 128) (word : delta < 2 ^ 128) : delta ≤ oracleAllowed ema band ↔ delta * 1000 ≤ ema * band := by
  by_cases exact : dividedFirst ema band < 2 ^ 128
  · rw [oracleAllowed_exact narrow exact,Nat.le_div_iff_mul_le (by decide)]
  · -- The product stops at the end of u128 and the tail adds nothing: every distance is allowed.
    have whole := dividedFirst_eq ema band
    have stopped : saturatingMul 128 (ema / 1000) band = maxOf 128 ∧ ema % 1000 * band / 1000 = 0 := by
      unfold dividedFirst at exact
      unfold saturatingMul maxOf at fits ⊢
      omega
    unfold oracleAllowed wrappingAdd
    rw [stopped.1,saturatingMul_exact (by omega),stopped.2,maxOf]
    omega

-- A sum that wraps leaves less than its tail, which the exact bound still allows.
theorem oracleAllowed_wraps (narrow : band < 2 ^ 32)
    (wraps : ¬saturatingMul 128 (ema / 1000) band + ema % 1000 * band / 1000 < 2 ^ 128) :
    oracleAllowed ema band + 1 < ema ∧ (oracleAllowed ema band + 1) * 1000 ≤ ema * band := by
  have tail : ema % 1000 * band ≤ 1000 * band := Nat.mul_le_mul_right band (Nat.mod_lt _ (by decide)).le
  have part : ema % 1000 * band ≤ ema * band := Nat.mul_le_mul_right band (Nat.mod_le _ _)
  have wide : ema / 1000 * band ≤ ema / 1000 * 2 ^ 32 := Nat.mul_le_mul_left _ narrow.le
  have allowed : oracleAllowed ema band + 2 ^ 128 = saturatingMul 128 (ema / 1000) band + ema % 1000 * band / 1000 := by
    unfold oracleAllowed wrappingAdd
    rw [saturatingMul_exact (by omega : ema % 1000 * band < 2 ^ 128)]
    unfold saturatingMul maxOf at wraps ⊢
    omega
  unfold saturatingMul maxOf at wraps allowed
  omega

theorem rejected_iff (admin : cfg.isAdmin origin = true) (positive : 0 < spot.val) (priced : s.stakes.alphaPerUsdEma ≠ 0) :
    setAlphaPerUsd cfg s origin spot = .error .oracleDeviationTooLarge ↔
      oracleAllowed s.stakes.alphaPerUsdEma s.stakes.maxOracleDeviationPermille < distance spot s.stakes.alphaPerUsdEma := by
  simp only [setAlphaPerUsd,ensureAdmin,bind_error,ensure_error,ensure_ok,exists_unit,admin,positive]
  simp only [priced,false_or,not_true,true_and,and_true,Nat.not_le,reduceCtorEq,and_false,or_false]

-- The band is exact for every spot just where the bound's own sum fits.
theorem oracle_band_exact (cfg : Config A H W) (s : State A H W) (origin : Origin A) (admin : cfg.isAdmin origin = true)
    (priced : s.stakes.alphaPerUsdEma ≠ 0) (word : s.stakes.alphaPerUsdEma < 2 ^ 128)
    (narrow : s.stakes.maxOracleDeviationPermille < 2 ^ 32) :
    (∀ spot : Word 128, 0 < spot.val → (setAlphaPerUsd cfg s origin spot = .error .oracleDeviationTooLarge ↔
      s.stakes.alphaPerUsdEma * s.stakes.maxOracleDeviationPermille < distance spot s.stakes.alphaPerUsdEma * 1000)) ↔
    saturatingMul 128 (s.stakes.alphaPerUsdEma / 1000) s.stakes.maxOracleDeviationPermille +
      s.stakes.alphaPerUsdEma % 1000 * s.stakes.maxOracleDeviationPermille / 1000 < 2 ^ 128 := by
  constructor
  · intro exactly
    by_contra wraps
    obtain ⟨below,spared⟩ := oracleAllowed_wraps narrow wraps
    generalize allowed : oracleAllowed s.stakes.alphaPerUsdEma s.stakes.maxOracleDeviationPermille = most at below spared
    let spot : Word 128 := ⟨s.stakes.alphaPerUsdEma - (most + 1),by omega⟩
    have positive : 0 < spot.val := Nat.sub_pos_of_lt below
    have away : distance spot s.stakes.alphaPerUsdEma = most + 1 := by
      rw [distance_eq]
      change _ - (s.stakes.alphaPerUsdEma - (most + 1)) + ((s.stakes.alphaPerUsdEma - (most + 1)) - _) = _
      omega
    have rejected := (rejected_iff admin positive priced).mpr (by rw [away,allowed]; exact Nat.lt_succ_self most)
    have outside := (exactly spot positive).mp rejected
    rw [away] at outside
    omega
  · intro fits spot positive
    have near : distance spot s.stakes.alphaPerUsdEma < 2 ^ 128 := by
      have := spot.isLt
      rw [distance_eq]
      omega
    have covers := oracleAllowed_covers narrow fits near
    rw [rejected_iff admin positive priced]
    omega

end

def wideBand : List (Call Nat Short Unit) :=
  [.setAlphaPerUsd .root ⟨2 ^ 127,by decide⟩,.setOracleGuards .root 2000 1]

theorem wrapped_band_rejects :
    let s := run (step plainConfig) (genesis ()) wideBand
    s.stakes.alphaPerUsdEma = 2 ^ 127 ∧ s.stakes.maxOracleDeviationPermille = 2000 ∧
      failsWith .oracleDeviationTooLarge (setAlphaPerUsd plainConfig s .root ⟨2 ^ 127 + 1,by decide⟩) = true ∧
      ¬ 2 ^ 127 * 2000 < distance (2 ^ 127 + 1) (2 ^ 127) * 1000 := by
  decide +kernel

theorem oracle_band_exact_sample :
    let s := run (step plainConfig) (genesis ()) [.setAlphaPerUsd .root 1001]
    setAlphaPerUsd plainConfig s .root 1502 = .error .oracleDeviationTooLarge :=
  ((oracle_band_exact plainConfig (run (step plainConfig) (genesis ()) [.setAlphaPerUsd .root 1001]) .root (by decide)
    (by decide) (by decide) (by decide)).mpr (by decide) 1502 (by decide)).mpr (by decide)

end TheBrain.ComputeScoring
