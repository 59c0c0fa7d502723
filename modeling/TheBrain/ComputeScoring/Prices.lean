import TheBrain.ComputeScoring.Specs

namespace TheBrain.ComputeScoring
open Library Machine Words HippiusTypes Function List

section
variable {A H W : Type}
variable {cfg : Config A H W} {s t : State A H W}

section
variable [DecidableEq A] [DecidableEq H]

def announced (cfg : Config A H W) (s : State A H W) :
    Call A H W → List (Nat × H × Word 128)
  | .announcePriceChange origin nodeId newPrice =>
    if accepts cfg s (.announcePriceChange origin nodeId newPrice) then [(s.blockNumber,nodeId,newPrice)] else []
  | _ => []

def announcements (cfg : Config A H W) :
    State A H W → List (Call A H W) → List (Nat × H × Word 128)
  | _, [] => []
  | s, call :: calls => announced cfg s call ++ announcements cfg (step cfg s call) calls

theorem announcements_append (cfg : Config A H W) (s : State A H W)
    (first rest : List (Call A H W)) :
    announcements cfg s (first ++ rest) = announcements cfg s first ++ announcements cfg (run (step cfg) s first) rest := by
  induction first generalizing s with
  | nil => rfl
  | cons _ _ ih => rw [cons_append,announcements,announcements,ih,append_assoc,run_cons]

def InWindow (prices : Prices H) (old new : Word 128) : Prop :=
  old.val * prices.maxPriceChangeDenom / prices.maxPriceChangeNumer ≤ new ∧
    new.val ≤ old.val * prices.maxPriceChangeNumer / prices.maxPriceChangeDenom

def due (s : State A H W) (nodeId : H) : Prop :=
  ∃ pending ∈ s.prices.pendingPriceChange nodeId, pending.effectiveBlock ≤ s.blockNumber

-- The policy and the bounds stay, the clock is away from its end, and nobody announces
-- over a change that is due and not applied.
def Careful (s : State A H W) : Call A H W → Prop
  | .announcePriceChange _ nodeId _ => ¬ due s nodeId ∧ s.blockNumber + s.prices.priceChangeNoticeBlocks < 2 ^ 64
  | .setPriceBounds .. | .setPriceChangePolicy .. => False
  | _ => True

structure SamePolicy (s t : State A H W) : Prop where
  floor : t.prices.priceFloor = s.prices.priceFloor := by rfl
  ceiling : t.prices.priceCeiling = s.prices.priceCeiling := by rfl
  notice : t.prices.priceChangeNoticeBlocks = s.prices.priceChangeNoticeBlocks := by rfl
  numer : t.prices.maxPriceChangeNumer = s.prices.maxPriceChangeNumer := by rfl
  denom : t.prices.maxPriceChangeDenom = s.prices.maxPriceChangeDenom := by rfl

end

theorem SamePolicy.bounds (same : SamePolicy s t) (price : Word 128) :
    withinPriceBounds t.prices price = withinPriceBounds s.prices price := by
  rw [withinPriceBounds,withinPriceBounds,same.floor,same.ceiling]

theorem SamePolicy.window (same : SamePolicy s t) : InWindow t.prices old new ↔ InWindow s.prices old new := by
  rw [InWindow,InWindow,same.numer,same.denom]

structure Moderate (prices : Prices H) : Prop where
  notice : 1 ≤ prices.priceChangeNoticeBlocks
  numer : ∀ ceiling ∈ prices.priceCeiling, ceiling.val * prices.maxPriceChangeNumer < 2 ^ 128
  denom : ∀ ceiling ∈ prices.priceCeiling, ceiling.val * prices.maxPriceChangeDenom < 2 ^ 128

def Capped (prices : Prices H) (price : Word 128) : Prop := ∃ ceiling ∈ prices.priceCeiling, price ≤ ceiling

-- Every pending change was announced in time, and one that is not due yet stays in the
-- window of the price known last.
structure Noticed (log : List (Nat × H × Word 128)) (s : State A H W) : Prop where
  moderate : Moderate s.prices
  bounded : ∀ nodeId pending, s.prices.pendingPriceChange nodeId = some pending → withinPriceBounds s.prices pending.newPrice = true
  capped : ∀ nodeId pending, s.prices.pendingPriceChange nodeId = some pending → Capped s.prices pending.newPrice
  known : ∀ nodeId price, s.prices.minerPrice nodeId = some price ∨ s.prices.priceMagnitudeAnchor nodeId = some price →
    Capped s.prices price
  logged : ∀ nodeId pending, s.prices.pendingPriceChange nodeId = some pending →
    ∃ block, (block,nodeId,pending.newPrice) ∈ log ∧ block + s.prices.priceChangeNoticeBlocks ≤ pending.effectiveBlock
  window : ∀ nodeId pending old, s.prices.pendingPriceChange nodeId = some pending → s.blockNumber < pending.effectiveBlock →
    priceAnchor s nodeId = some old → InWindow s.prices old pending.newPrice

theorem withinPriceMagnitude_window (moderate : Moderate prices) (capped : Capped prices old)
    (within : withinPriceMagnitude prices old new = true) : InWindow prices old new := by
  obtain ⟨ceiling,set,below⟩ := capped
  have upper : old.val * prices.maxPriceChangeNumer.val < 2 ^ 128 :=
    (Nat.mul_le_mul_right _ below).trans_lt (moderate.numer ceiling set)
  have lower : old.val * prices.maxPriceChangeDenom.val < 2 ^ 128 :=
    (Nat.mul_le_mul_right _ below).trans_lt (moderate.denom ceiling set)
  simp only [withinPriceMagnitude,checkedMul,if_pos upper,if_pos lower] at within
  split at within
  · cases within
  · have both := of_decide_eq_true within
    exact ⟨both.2,both.1⟩

theorem effectivePrice_due (waiting : s.prices.pendingPriceChange nodeId = some pending) (late : pending.effectiveBlock ≤ s.blockNumber)
    (bounded : withinPriceBounds s.prices pending.newPrice = true) : effectivePrice s nodeId = some pending.newPrice := by
  simp [effectivePrice,waiting,late,bounded]

theorem effectivePrice_undue (early : ¬ due s nodeId) : effectivePrice s nodeId = s.prices.minerPrice nodeId := by
  unfold effectivePrice
  split
  next pending waiting =>
    rw [if_neg]
    rintro ⟨late,_⟩
    exact early ⟨pending,waiting,late⟩
  · rfl

theorem effectivePrice_same (pending : t.prices.pendingPriceChange nodeId = s.prices.pendingPriceChange nodeId)
    (priced : t.prices.minerPrice nodeId = s.prices.minerPrice nodeId) (policy : SamePolicy s t)
    (block : t.blockNumber = s.blockNumber) : effectivePrice t nodeId = effectivePrice s nodeId := by
  rw [effectivePrice,effectivePrice,pending,priced,block]
  split
  · rw [policy.bounds]
  · rfl

-- A step within a block moves no price: neither the effective one nor, once the node is
-- gone, the one remembered for it.
structure Steady (log : List (Nat × H × Word 128)) (s t : State A H W) : Prop where
  block : t.blockNumber = s.blockNumber
  policy : SamePolicy s t
  noticed : Noticed log t
  anchor : ∀ nodeId, priceAnchor t nodeId = priceAnchor s nodeId

theorem capped_anchor (noticed : Noticed log s) (anchored : priceAnchor s nodeId = some price) : Capped s.prices price := by
  unfold priceAnchor at anchored
  cases effective : effectivePrice s nodeId with
  | none =>
    rw [effective] at anchored
    exact noticed.known nodeId price (.inr anchored)
  | some =>
    rw [effective] at anchored
    cases anchored
    unfold effectivePrice at effective
    split at effective
    next pending waiting =>
      split at effective
      · cases effective
        exact noticed.capped nodeId pending waiting
      · exact noticed.known nodeId price (.inl effective)
    · exact noticed.known nodeId price (.inl effective)

theorem Moderate.same (moderate : Moderate s.prices) (policy : SamePolicy s t) : Moderate t.prices where
  notice := by
    rw [policy.notice]
    exact moderate.notice
  numer := by
    rw [policy.ceiling,policy.numer]
    exact moderate.numer
  denom := by
    rw [policy.ceiling,policy.denom]
    exact moderate.denom

theorem SamePolicy.capped (policy : SamePolicy s t) : Capped t.prices price ↔ Capped s.prices price := by
  rw [Capped,Capped,policy.ceiling]

theorem steady_untouched (noticed : Noticed log s) (block : t.blockNumber = s.blockNumber) (prices : t.prices = s.prices) :
    Steady log s t := by
  have policy : SamePolicy s t := by constructor <;> rw [prices]
  have anchor : ∀ nodeId, priceAnchor t nodeId = priceAnchor s nodeId := by
    intro nodeId
    have effective : effectivePrice t nodeId = effectivePrice s nodeId :=
      effectivePrice_same (by rw [prices]) (by rw [prices]) policy block
    rw [priceAnchor,priceAnchor,effective,prices]
  refine ⟨block,policy,?_,anchor⟩
  constructor
  · exact noticed.moderate.same policy
  all_goals rw [prices]
  · exact noticed.bounded
  · exact noticed.capped
  · exact noticed.known
  · exact noticed.logged
  · intro nodeId pending old waiting early anchored
    rw [anchor] at anchored
    rw [block] at early
    exact noticed.window nodeId pending old waiting early anchored

structure PricedApart (subject : H) (s t : State A H W) : Prop where
  block : t.blockNumber = s.blockNumber
  policy : SamePolicy s t
  pending : ∀ nodeId, nodeId ≠ subject → t.prices.pendingPriceChange nodeId = s.prices.pendingPriceChange nodeId
  priced : ∀ nodeId, nodeId ≠ subject → t.prices.minerPrice nodeId = s.prices.minerPrice nodeId
  remembered : ∀ nodeId, nodeId ≠ subject → t.prices.priceMagnitudeAnchor nodeId = s.prices.priceMagnitudeAnchor nodeId

theorem PricedApart.effective (apart : PricedApart subject s t) (other : nodeId ≠ subject) :
    effectivePrice t nodeId = effectivePrice s nodeId :=
  effectivePrice_same (apart.pending nodeId other) (apart.priced nodeId other) apart.policy apart.block

theorem nextBlock_prices (noticed : Noticed log s) (block : t.blockNumber = s.blockNumber + 1) (prices : t.prices = s.prices) :
    Noticed log t ∧ ∀ nodeId, priceAnchor t nodeId = priceAnchor s nodeId ∨
      ∃ pending, s.prices.pendingPriceChange nodeId = some pending ∧ s.blockNumber < pending.effectiveBlock ∧
        pending.effectiveBlock ≤ t.blockNumber ∧ priceAnchor t nodeId = some pending.newPrice := by
  have outcome : ∀ nodeId, priceAnchor t nodeId = priceAnchor s nodeId ∨
      ∃ pending, s.prices.pendingPriceChange nodeId = some pending ∧ s.blockNumber < pending.effectiveBlock ∧
        pending.effectiveBlock ≤ t.blockNumber ∧ priceAnchor t nodeId = some pending.newPrice := by
    intro nodeId
    cases waiting : s.prices.pendingPriceChange nodeId with
    | none =>
      left
      simp [priceAnchor,effectivePrice,prices,waiting]
    | some pending =>
      have bounded := noticed.bounded nodeId pending waiting
      by_cases late : pending.effectiveBlock ≤ t.blockNumber
      · by_cases before : pending.effectiveBlock ≤ s.blockNumber
        · left
          simp [priceAnchor,effectivePrice,prices,waiting,bounded,late,before]
        · right
          refine ⟨pending,rfl,Nat.not_le.mp before,late,?_⟩
          simp [priceAnchor,effectivePrice,prices,waiting,bounded,late]
      · have before : ¬ pending.effectiveBlock ≤ s.blockNumber := by omega
        left
        simp [priceAnchor,effectivePrice,prices,waiting,late,before]
  refine ⟨?_,outcome⟩
  constructor
  all_goals rw [prices]
  · exact noticed.moderate
  · exact noticed.bounded
  · exact noticed.capped
  · exact noticed.known
  · exact noticed.logged
  · intro nodeId pending old waiting early anchored
    rcases outcome nodeId with same | ⟨_,held,_,_,_⟩
    · rw [same] at anchored
      exact noticed.window nodeId pending old waiting (by omega) anchored
    · rw [waiting] at held
      cases held
      omega

theorem SamePolicy.trans (one : SamePolicy s t) (two : SamePolicy t u) : SamePolicy s u where
  floor := two.floor.trans one.floor
  ceiling := two.ceiling.trans one.ceiling
  notice := two.notice.trans one.notice
  numer := two.numer.trans one.numer
  denom := two.denom.trans one.denom

theorem anchor_of_effective (effective : effectivePrice s nodeId = some price) : priceAnchor s nodeId = some price := by
  rw [priceAnchor,effective]
  rfl

def Unpriced (s : State A H W) : Prop :=
  ∀ nodeId, s.prices.minerPrice nodeId = none ∧ s.prices.pendingPriceChange nodeId = none ∧ s.prices.priceMagnitudeAnchor nodeId = none

theorem unpriced_noticed (unpriced : Unpriced s) (moderate : Moderate s.prices) : Noticed [] s where
  moderate := moderate
  bounded nodeId pending waiting := by simp [(unpriced nodeId).2.1] at waiting
  capped nodeId pending waiting := by simp [(unpriced nodeId).2.1] at waiting
  known nodeId price held := by simp [(unpriced nodeId).1,(unpriced nodeId).2.2] at held
  logged nodeId pending waiting := by simp [(unpriced nodeId).2.1] at waiting
  window nodeId pending old waiting := by simp [(unpriced nodeId).2.1] at waiting

variable [DecidableEq H]

theorem steady_apart (noticed : Noticed log s) (apart : PricedApart subject s t) (more : log ⊆ longer)
    (anchored : priceAnchor t subject = priceAnchor s subject)
    (known : ∀ price, t.prices.minerPrice subject = some price ∨ t.prices.priceMagnitudeAnchor subject = some price → Capped s.prices price)
    (waiting : ∀ pending, t.prices.pendingPriceChange subject = some pending →
      withinPriceBounds s.prices pending.newPrice = true ∧ Capped s.prices pending.newPrice ∧
        (∃ block, (block,subject,pending.newPrice) ∈ longer ∧ block + s.prices.priceChangeNoticeBlocks ≤ pending.effectiveBlock) ∧
        ∀ old, priceAnchor s subject = some old → InWindow s.prices old pending.newPrice) : Steady longer s t := by
  have policy := apart.policy
  have anchor : ∀ nodeId, priceAnchor t nodeId = priceAnchor s nodeId := by
    intro nodeId
    by_cases same : nodeId = subject
    · rw [same,anchored]
    · rw [priceAnchor,priceAnchor,apart.effective same,apart.remembered nodeId same]
  refine ⟨apart.block,policy,?_,anchor⟩
  constructor
  · exact noticed.moderate.same policy
  · intro nodeId pending held
    rw [policy.bounds]
    by_cases same : nodeId = subject
    · exact (waiting pending (same ▸ held)).1
    · exact noticed.bounded nodeId pending (apart.pending nodeId same ▸ held)
  · intro nodeId pending held
    refine policy.capped.mpr ?_
    by_cases same : nodeId = subject
    · exact (waiting pending (same ▸ held)).2.1
    · exact noticed.capped nodeId pending (apart.pending nodeId same ▸ held)
  · intro nodeId price held
    refine policy.capped.mpr ?_
    by_cases same : nodeId = subject
    · exact known price (same ▸ held)
    · rw [apart.priced nodeId same,apart.remembered nodeId same] at held
      exact noticed.known nodeId price held
  · intro nodeId pending held
    rw [policy.notice]
    by_cases same : nodeId = subject
    · subst same
      exact (waiting pending held).2.2.1
    · obtain ⟨block,logged,inTime⟩ := noticed.logged nodeId pending (apart.pending nodeId same ▸ held)
      exact ⟨block,more logged,inTime⟩
  · intro nodeId pending old held early current
    rw [anchor] at current
    refine policy.window.mpr ?_
    by_cases same : nodeId = subject
    · subst same
      exact (waiting pending held).2.2.2 old current
    · rw [apart.block] at early
      exact noticed.window nodeId pending old (apart.pending nodeId same ▸ held) early current

theorem steady_retired (noticed : Noticed log s) (subject : H) (block : t.blockNumber = s.blockNumber)
    (prices : t.prices = (retirePrice s subject).prices) : Steady log s t := by
  have apart : PricedApart subject s t := by
    refine ⟨block,by constructor <;> rw [prices] <;> rfl,?_,?_,?_⟩
    all_goals
      intro nodeId other
      rw [prices]
      exact update_of_ne other _ _
  have noPending : t.prices.pendingPriceChange subject = none := by
    rw [prices]
    exact update_self ..
  have noPrice : t.prices.minerPrice subject = none := by
    rw [prices]
    exact update_self ..
  have last : t.prices.priceMagnitudeAnchor subject = priceAnchor s subject := by
    rw [prices]
    exact update_self ..
  apply steady_apart noticed apart (List.Subset.refl log)
  · simp [priceAnchor,effectivePrice,noPending,noPrice,last]
  · intro price held
    rw [noPrice,last] at held
    rcases held with impossible | anchored
    · cases impossible
    · exact capped_anchor noticed anchored
  · intro pending held
    rw [noPending] at held
    cases held

theorem steady_applied (noticed : Noticed log s) (ran : applyPriceChange s origin subject = .ok t) : Steady log s t := by
  simp only [applyPriceChange,passes] at ran
  obtain ⟨_,_,change,waiting,late,rfl⟩ := ran
  have bounded := noticed.bounded subject change waiting
  have applied : settlePrice s subject change = depositEvent {s with prices:={s.prices with
        minerPrice:=update s.prices.minerPrice subject (some change.newPrice)
        pendingPriceChange:=update s.prices.pendingPriceChange subject none}}
      (.priceChangeApplied subject change.newPrice) := by
    simp [settlePrice,bounded]
  rw [applied]
  have apart : PricedApart subject s (settlePrice s subject change) := by
    rw [applied]
    refine ⟨rfl,{},?_,?_,fun _ _ => rfl⟩
    · intro nodeId other
      exact update_of_ne other _ _
    · intro nodeId other
      exact update_of_ne other _ _
  rw [applied] at apart
  apply steady_apart noticed apart (List.Subset.refl log)
  · have before := effectivePrice_due waiting late bounded
    rw [priceAnchor,priceAnchor,before]
    simp [effectivePrice,depositEvent]
  · intro price held
    rcases held with here | anchored
    · have settled : some change.newPrice = some price := (update_self subject _ _).symm.trans here
      cases settled
      exact noticed.capped subject change waiting
    · exact noticed.known subject price (.inr anchored)
  · intro pending held
    have none : none = some pending := (update_self subject _ _).symm.trans held
    cases none

variable [DecidableEq A]

theorem announcePriceChange_ok (ran : announcePriceChange s origin nodeId newPrice = .ok t) :
    withinPriceBounds s.prices newPrice = true ∧ s.prices.priceCeiling.isSome = true ∧
      (∀ current ∈ priceAnchor s nodeId, withinPriceMagnitude s.prices current newPrice = true) ∧
      t.blockNumber = s.blockNumber ∧
      t.prices = {s.prices with
        pendingPriceChange:=update s.prices.pendingPriceChange nodeId
          (some ⟨newPrice,saturatingAdd 64 s.blockNumber s.prices.priceChangeNoticeBlocks⟩)
        lastPriceChangeBlock:=update s.prices.lastPriceChangeBlock nodeId s.blockNumber} := by
  simp only [announcePriceChange,passes] at ran
  obtain ⟨_,_,_,_,ceiling,bounded,_,anchored,rfl⟩ := ran
  refine ⟨bounded,ceiling,?_,rfl,rfl⟩
  intro current here
  rw [here] at anchored
  exact anchored

theorem capped_of_bounded (ceiling : prices.priceCeiling.isSome = true) (bounded : withinPriceBounds prices price = true) :
    Capped prices price := by
  obtain ⟨top,set⟩ := Option.isSome_iff_exists.mp ceiling
  unfold withinPriceBounds at bounded
  split at bounded
  · cases bounded
  · rw [set] at bounded
    exact ⟨top,set,of_decide_eq_true bounded⟩

theorem steady_announced (noticed : Noticed log s) (careful : Careful s (.announcePriceChange origin subject newPrice))
    (ran : announcePriceChange s origin subject newPrice = .ok t) :
    Steady (log ++ [(s.blockNumber,subject,newPrice)]) s t ∧ ∀ nodeId, effectivePrice t nodeId = effectivePrice s nodeId := by
  obtain ⟨bounded,ceiling,magnitude,block,prices⟩ := announcePriceChange_ok ran
  obtain ⟨undue,clock⟩ := careful
  rw [saturatingAdd_exact clock] at prices
  have apart : PricedApart subject s t := by
    refine ⟨block,by constructor <;> rw [prices],?_,?_,?_⟩
    · intro nodeId other
      rw [prices]
      exact update_of_ne other _ _
    all_goals
      intro nodeId other
      rw [prices]
  have mine : t.prices.pendingPriceChange subject = some ⟨newPrice,s.blockNumber + s.prices.priceChangeNoticeBlocks⟩ := by
    rw [prices]
    exact update_self ..
  -- The new change is at least one block away, and no older one was due.
  have later : ¬ due t subject := by
    rintro ⟨_,waiting,late⟩
    rw [mine] at waiting
    cases waiting
    have notice := noticed.moderate.notice
    simp only at late
    omega
  have effective : ∀ nodeId, effectivePrice t nodeId = effectivePrice s nodeId := by
    intro nodeId
    by_cases same : nodeId = subject
    · rw [same,effectivePrice_undue later,effectivePrice_undue undue,prices]
    · exact apart.effective same
  refine ⟨?_,effective⟩
  apply steady_apart noticed apart (subset_append_left log _)
  · rw [priceAnchor,priceAnchor,effective,prices]
  · intro price held
    rw [prices] at held
    exact noticed.known subject price held
  · intro pending held
    rw [mine] at held
    cases held
    refine ⟨bounded,capped_of_bounded ceiling bounded,⟨s.blockNumber,by simp,le_rfl⟩,?_⟩
    intro old current
    exact withinPriceMagnitude_window noticed.moderate (capped_anchor noticed current) (magnitude old current)

theorem dispatch_steady (noticed : Noticed log s) (careful : Careful s call) (ran : dispatch cfg s call = .ok t)
    (mem : ∀ seconds, call ≠ .nextBlock seconds) : Steady (log ++ announced cfg s call) s t := by
  rcases dispatch_moves ran with ⟨seconds,next,_⟩ | moved
  · exact absurd next (mem seconds)
  by_cases priced : Part.prices ∈ call.parts
  · cases call with
    | deregisterChild =>
      obtain ⟨reg,left⟩ := deregisterChild_ok ran
      have steady := steady_retired noticed reg.nodeId moved.block left.prices
      simpa [announced] using steady
    | forceDeregisterChild =>
      obtain ⟨reg,left⟩ := forceDeregisterChild_ok ran
      have steady := steady_retired noticed reg.nodeId moved.block left.prices
      simpa [announced] using steady
    | announcePriceChange =>
      rw [announced,if_pos (accepts_ok ran)]
      exact (steady_announced noticed careful ran).1
    | applyPriceChange =>
      have steady := steady_applied noticed ran
      simpa [announced] using steady
    | setPriceBounds | setPriceChangePolicy => exact careful.elim
    | _ => simp [Call.parts] at priced
  · have nothing : announced cfg s call = [] := by
      cases call with
      | announcePriceChange => simp [Call.parts] at priced
      | _ => rfl
    rw [nothing,append_nil]
    exact steady_untouched noticed moved.block (moved.prices priced)

theorem announced_rejected (rejected : dispatch cfg s call = .error e) : announced cfg s call = [] := by
  cases call with
  | announcePriceChange => simp [announced,accepts,rejected]
  | _ => rfl

theorem step_steady (cfg : Config A H W) (noticed : Noticed log s) (careful : Careful s call) :
    Steady (log ++ announced cfg s call) s (step cfg s call) ∨
      announced cfg s call = [] ∧ (step cfg s call).blockNumber = s.blockNumber + 1 ∧ (step cfg s call).prices = s.prices := by
  cases ran : dispatch cfg s call with
  | error =>
    have same : step cfg s call = s := by simp [step,ran]
    rw [same,announced_rejected ran,append_nil]
    exact .inl (steady_untouched noticed rfl rfl)
  | ok t =>
    have same : step cfg s call = t := by simp [step,ran]
    rw [same]
    cases call with
    | nextBlock =>
      cases ran
      exact .inr ⟨rfl,rfl,rfl⟩
    | _ => exact .inl (dispatch_steady noticed careful ran (by intro seconds; simp))

theorem step_noticed (cfg : Config A H W) (noticed : Noticed log s) (careful : Careful s call) :
    Noticed (log ++ announced cfg s call) (step cfg s call) ∧ SamePolicy s (step cfg s call) ∧
      s.blockNumber ≤ (step cfg s call).blockNumber := by
  rcases step_steady cfg noticed careful with steady | ⟨nothing,block,prices⟩
  · exact ⟨steady.noticed,steady.policy,steady.block.ge⟩
  · rw [nothing,append_nil]
    exact ⟨(nextBlock_prices noticed block prices).1,by constructor <;> rw [prices],by omega⟩

theorem run_noticed (noticed : Noticed log s) (careful : Throughout (step cfg) Careful s calls) :
    Noticed (log ++ announcements cfg s calls) (run (step cfg) s calls) ∧ SamePolicy s (run (step cfg) s calls) ∧
      s.blockNumber ≤ (run (step cfg) s calls).blockNumber := by
  induction calls generalizing s log with
  | nil =>
    rw [announcements,append_nil]
    exact ⟨noticed,{},le_rfl⟩
  | cons _ _ ih =>
    obtain ⟨first,policy,later⟩ := step_noticed cfg noticed careful.1
    obtain ⟨last,same,longer⟩ := ih first careful.2
    rw [announcements,← append_assoc]
    exact ⟨last,policy.trans same,later.trans longer⟩

theorem run_steady (noticed : Noticed log s) (careful : Throughout (step cfg) Careful s calls)
    (still : (run (step cfg) s calls).blockNumber = s.blockNumber) (nodeId : H) :
    priceAnchor (run (step cfg) s calls) nodeId = priceAnchor s nodeId := by
  induction calls generalizing s log with
  | nil => rfl
  | cons _ _ ih =>
    obtain ⟨next,_,_⟩ := step_noticed cfg noticed careful.1
    obtain ⟨_,_,_⟩ := run_noticed next careful.2
    rw [run_cons] at still ⊢
    rcases step_steady cfg noticed careful.1 with steady | ⟨_,_,_⟩
    · rw [ih next careful.2 (still.trans steady.block.symm),steady.anchor]
    · omega

theorem run_adjacent (noticed : Noticed log s) (careful : Throughout (step cfg) Careful s calls)
    (adjacent : (run (step cfg) s calls).blockNumber ≤ s.blockNumber + 1) (nodeId : H) :
    priceAnchor (run (step cfg) s calls) nodeId = priceAnchor s nodeId ∨
      ∃ new block, priceAnchor (run (step cfg) s calls) nodeId = some new ∧ (block,nodeId,new) ∈ log ++ announcements cfg s calls ∧
        block + s.prices.priceChangeNoticeBlocks ≤ (run (step cfg) s calls).blockNumber ∧
        ∀ old, priceAnchor s nodeId = some old → InWindow s.prices old new := by
  induction calls generalizing s log with
  | nil => exact .inl rfl
  | cons call calls ih =>
    obtain ⟨next,policy,_⟩ := step_noticed cfg noticed careful.1
    obtain ⟨_,_,_⟩ := run_noticed next careful.2
    rw [run_cons] at adjacent ⊢
    rcases step_steady cfg noticed careful.1 with steady | ⟨_,block,prices⟩
    · rw [← steady.block] at adjacent
      rw [← steady.anchor nodeId]
      rcases ih next careful.2 adjacent with same | ⟨new,announcedAt,moved,logged,inTime,window⟩
      · exact .inl same
      · right
        rw [announcements,← append_assoc]
        rw [policy.notice] at inTime
        exact ⟨new,announcedAt,moved,logged,inTime,fun old current => policy.window.mp (window old current)⟩
    · have still : (run (step cfg) (step cfg s call) calls).blockNumber = (step cfg s call).blockNumber := by omega
      rw [run_steady next careful.2 still nodeId]
      rcases (nextBlock_prices noticed block prices).2 nodeId with same | ⟨pending,waiting,early,_,moved⟩
      · exact .inl same
      · right
        obtain ⟨announcedAt,logged,_⟩ := noticed.logged nodeId pending waiting
        refine ⟨pending.newPrice,announcedAt,moved,mem_append_left _ logged,by omega,?_⟩
        intro old current
        exact noticed.window nodeId pending old waiting early current

def AnnouncesLater (cfg : Config A H W) (s : State A H W) (call : Call A H W) : Prop :=
  ∀ origin subject newPrice, call = .announcePriceChange origin subject newPrice →
    ∀ nodeId, effectivePrice (step cfg s call) nodeId = effectivePrice s nodeId

theorem announces_later (noticed : Noticed log s) (careful : Careful s call) : AnnouncesLater cfg s call := by
  rintro origin subject newPrice rfl nodeId
  cases ran : announcePriceChange s origin subject newPrice with
  | error => simp [step,dispatch,ran]
  | ok t =>
    have same : step cfg s (.announcePriceChange origin subject newPrice) = t := by simp [step,dispatch,ran]
    rw [same]
    exact (steady_announced noticed careful ran).2 nodeId

theorem run_announces_later (noticed : Noticed log s) (careful : Throughout (step cfg) Careful s calls) :
    Throughout (step cfg) (AnnouncesLater cfg) s calls := by
  induction calls generalizing s log with
  | nil => trivial
  | cons _ _ ih => exact ⟨announces_later noticed careful.1,ih (step_noticed cfg noticed careful.1).1 careful.2⟩

theorem effective_price_needs_notice (cfg : Config A H W) (s : State A H W)
    (before between : List (Call A H W)) (nodeId : H) (unpriced : Unpriced s) (moderate : Moderate s.prices)
    (careful : Throughout (step cfg) Careful s (before ++ between))
    (adjacent : (run (step cfg) s (before ++ between)).blockNumber ≤ (run (step cfg) s before).blockNumber + 1) :
    (∀ old new, effectivePrice (run (step cfg) s before) nodeId = some old →
      effectivePrice (run (step cfg) s (before ++ between)) nodeId = some new → new ≠ old →
      (∃ block, (block,nodeId,new) ∈ announcements cfg s (before ++ between) ∧
        block + s.prices.priceChangeNoticeBlocks ≤ (run (step cfg) s (before ++ between)).blockNumber) ∧
      InWindow s.prices old new) ∧
    Throughout (step cfg) (AnnouncesLater cfg) s (before ++ between) := by
  have start := unpriced_noticed unpriced moderate
  refine ⟨?_,run_announces_later start careful⟩
  intro old new first second changed
  obtain ⟨earlier,later⟩ := throughout_append.mp careful
  obtain ⟨middle,policy,_⟩ := run_noticed start earlier
  rw [run_append] at second adjacent ⊢
  rw [announcements_append]
  have known := anchor_of_effective first
  have reached := anchor_of_effective second
  rcases run_adjacent middle later adjacent nodeId with same | ⟨price,block,moved,logged,inTime,window⟩
  · rw [reached,known] at same
    exact absurd (Option.some.inj same) changed
  · rw [reached] at moved
    cases moved
    rw [policy.notice] at inTime
    exact ⟨⟨block,logged,inTime⟩,policy.window.mp (window old known)⟩

end

instance (s : State Nat Short Unit) (nodeId : Short) : Decidable (due s nodeId) :=
  inferInstanceAs (Decidable (∃ pending ∈ s.prices.pendingPriceChange nodeId, pending.effectiveBlock ≤ s.blockNumber))

instance (s : State Nat Short Unit) : DecidablePred (Careful s) := fun call => by
  induction call using Call.casesOn <;> dsimp only [Careful] <;> infer_instance

def halfStep : State Nat Short Unit :=
  {genesis () with prices:={(genesis () : State Nat Short Unit).prices with
    priceFloor:=1,priceCeiling:=some 1000,priceChangeNoticeBlocks:=1,minPriceChangeIntervalBlocks:=0}}

def operated : Short := shorten [7]

def raised : List (Call Nat Short Unit) :=
  [ .registerChild (.signed 1) 1 2 operated [],.announcePriceChange (.signed 2) operated 100,.nextBlock 6,
    .applyPriceChange (.signed 2) operated,.announcePriceChange (.signed 2) operated 150,.nextBlock 6]

theorem halfStep_moderate : Moderate halfStep.prices where
  notice := by decide
  numer := by
    rintro ceiling ⟨⟩
    decide +kernel
  denom := by
    rintro ceiling ⟨⟩
    decide +kernel

theorem effective_price_needs_notice_applied :
    (∃ block, (block,operated,200) ∈ announcements plainConfig halfStep
        ((raised ++ [.applyPriceChange (.signed 2) operated,.announcePriceChange (.signed 2) operated 200]) ++ [.nextBlock 6]) ∧
      block + 1 ≤ 3) ∧ InWindow halfStep.prices 150 200 := by
  have whole := effective_price_needs_notice plainConfig halfStep
    (raised ++ [.applyPriceChange (.signed 2) operated,.announcePriceChange (.signed 2) operated 200]) [.nextBlock 6] operated
    (fun _ => ⟨rfl,rfl,rfl⟩) halfStep_moderate (by decide +kernel) (by decide +kernel)
  have block : (run (step plainConfig) halfStep
      ((raised ++ [.applyPriceChange (.signed 2) operated,.announcePriceChange (.signed 2) operated 200]) ++ [.nextBlock 6])).blockNumber = 3 := by
    decide +kernel
  rw [block] at whole
  exact whole.1 150 200 (by decide +kernel) (by decide +kernel) (by decide)

-- Announced over the due 150, the next price brings 100 back in the same block, and the
-- block after that doubles it.
theorem announcement_reverts_price :
    effectivePrice (run (step plainConfig) halfStep raised) operated = some 150 ∧
      accepts plainConfig (run (step plainConfig) halfStep raised) (.announcePriceChange (.signed 2) operated 200) = true ∧
      effectivePrice (run (step plainConfig) halfStep (raised ++ [.announcePriceChange (.signed 2) operated 200])) operated = some 100 ∧
      effectivePrice (run (step plainConfig) halfStep (raised ++ [.announcePriceChange (.signed 2) operated 200,.nextBlock 6]))
        operated = some 200 ∧ ¬ InWindow halfStep.prices 100 200 := by
  refine ⟨by decide +kernel,by decide +kernel,by decide +kernel,by decide +kernel,?_⟩
  unfold InWindow
  decide +kernel

section
variable {A H W : Type}
variable {cfg : Config A H W} {s t : State A H W} {prices : Prices H}

-- What the two setters check, and nothing else changes.
structure Laddered (prices : Prices H) : Prop where
  denom : 0 < prices.maxPriceChangeDenom.val
  numer : prices.maxPriceChangeDenom ≤ prices.maxPriceChangeNumer
  bounds : ∀ ceiling, prices.priceCeiling = some ceiling → prices.priceFloor ≤ ceiling

-- The ends of the window around a price. A product that overflows leaves no upper end, and
-- a lower one that has lost the remainder.
def lowest (prices : Prices H) (price : Word 128) : Nat :=
  if price.val * prices.maxPriceChangeDenom < 2 ^ 128 then price.val * prices.maxPriceChangeDenom / prices.maxPriceChangeNumer
  else price.val / prices.maxPriceChangeNumer * prices.maxPriceChangeDenom

theorem Laddered.lowest_le (laddered : Laddered prices) (price : Word 128) : lowest prices price ≤ price := by
  have numer : prices.maxPriceChangeDenom.val ≤ prices.maxPriceChangeNumer.val := laddered.numer
  unfold lowest
  split
  · exact Nat.div_le_of_le_mul (Nat.mul_comm price.val _ ▸ Nat.mul_le_mul_left _ numer)
  · exact (Nat.mul_le_mul_left _ numer).trans (Nat.div_mul_le_self ..)

def highest (prices : Prices H) (price : Word 128) : Nat :=
  if price.val * prices.maxPriceChangeNumer < 2 ^ 128 then price.val * prices.maxPriceChangeNumer / prices.maxPriceChangeDenom
  else maxOf 128

theorem Laddered.le_highest (laddered : Laddered prices) (price : Word 128) : price ≤ highest prices price := by
  unfold highest
  split
  · exact (Nat.le_div_iff_mul_le laddered.denom).mpr (Nat.mul_le_mul_left _ laddered.numer)
  · exact Nat.le_sub_one_of_lt price.isLt

theorem withinPriceMagnitude_iff (laddered : Laddered prices) {old new : Word 128} :
    withinPriceMagnitude prices old new = true ↔ lowest prices old ≤ new ∧ new ≤ highest prices old := by
  have denom := laddered.denom
  have numer : prices.maxPriceChangeDenom.val ≤ prices.maxPriceChangeNumer.val := laddered.numer
  have small : old.val / prices.maxPriceChangeNumer * prices.maxPriceChangeDenom < 2 ^ 128 :=
    ((Nat.mul_le_mul_left _ numer).trans (Nat.div_mul_le_self ..)).trans_lt old.isLt
  simp only [withinPriceMagnitude]
  rw [if_neg (by omega),decide_eq_true_eq,saturatingMul_exact small,and_comm]
  simp only [checkedMul,lowest,highest]
  by_cases up : old.val * prices.maxPriceChangeNumer < 2 ^ 128 <;> by_cases down : old.val * prices.maxPriceChangeDenom < 2 ^ 128 <;>
    simp only [up,down,if_true,if_false]

variable [DecidableEq A] [DecidableEq H]

theorem dispatch_laddered (laddered : Laddered s.prices) (ran : dispatch cfg s call = .ok t) : Laddered t.prices := by
  rcases dispatch_moves ran with ⟨_,_,rfl⟩ | moved
  · exact laddered
  by_cases priced : Part.prices ∈ call.parts
  · cases call with
    | deregisterChild =>
      obtain ⟨reg,left⟩ := deregisterChild_ok ran
      rw [left.prices]
      exact {laddered with}
    | forceDeregisterChild =>
      obtain ⟨_,left⟩ := forceDeregisterChild_ok ran
      rw [left.prices]
      exact {laddered with}
    | announcePriceChange =>
      obtain ⟨_,_,_,_,prices⟩ := announcePriceChange_ok ran
      rw [prices]
      exact {laddered with}
    | applyPriceChange =>
      simp only [dispatch,applyPriceChange,passes] at ran
      obtain ⟨_,_,_,_,_,rfl⟩ := ran
      unfold settlePrice
      split
      · exact {laddered with}
      · exact {laddered with}
    | setPriceBounds =>
      obtain ⟨ordered,rfl⟩ := setPrices_ok ran
      refine {laddered with bounds:=?_}
      rintro top rfl
      exact of_decide_eq_true ordered
    | setPriceChangePolicy _ _ _ numer denom =>
      obtain ⟨policy,rfl⟩ := setPrices_ok ran
      exact {laddered with denom:=policy.1,numer:=policy.2}
    | _ => simp [Call.parts] at priced
  · rw [moved.prices priced]
    exact laddered

theorem run_laddered (cfg : Config A H W) (world : W) (calls : List (Call A H W)) :
    Laddered (run (step cfg) (genesis world) calls).prices := by
  refine run_always (fun s : State A H W => Laddered s.prices) ?_ ⟨Nat.zero_lt_two,Nat.le_succ 2,nofun⟩
  intro s call laddered
  exact commit_inv (fun t => Laddered t.prices) laddered fun t ran => dispatch_laddered laddered ran

def Rested (s : State A H W) (nodeId : H) : Prop :=
  s.prices.lastPriceChangeBlock nodeId = 0 ∨
    s.prices.lastPriceChangeBlock nodeId + s.prices.minPriceChangeIntervalBlocks ≤ s.blockNumber

theorem announce_iff (cfg : Config A H W) (laddered : Laddered s.prices) (set : s.prices.priceCeiling = some ceiling)
    (operator : s.registry.nodeIdToChild nodeId = some who) (rested : Rested s nodeId) (new : Word 128) :
    accepts cfg s (.announcePriceChange (.signed who) nodeId new) = true ↔
      0 < new.val ∧ s.prices.priceFloor ≤ new ∧ new ≤ ceiling ∧
        ∀ price, priceAnchor s nodeId = some price → lowest s.prices price ≤ new ∧ new ≤ highest s.prices price := by
  have bounds : withinPriceBounds s.prices new = true ↔ s.prices.priceFloor ≤ new ∧ new ≤ ceiling := by
    unfold withinPriceBounds
    rw [set]
    split
    next low => exact iff_of_false Bool.false_ne_true fun both => Nat.not_le.mpr low both.1
    next above => exact decide_eq_true_iff.trans ⟨fun below => ⟨Nat.not_lt.mp above,below⟩,And.right⟩
  have anchored : (priceAnchor s nodeId).all (fun current => withinPriceMagnitude s.prices current new) = true ↔
      ∀ price, priceAnchor s nodeId = some price → lowest s.prices price ≤ new ∧ new ≤ highest s.prices price := by
    simp only [Option.all_eq_true,withinPriceMagnitude_iff laddered]
  constructor
  · intro accepted
    unfold accepts at accepted
    split at accepted
    next t ran =>
      simp only [dispatch,announcePriceChange,passes] at ran
      obtain ⟨_,_,_,positive,_,bounded,_,within,_⟩ := ran
      exact ⟨positive,(bounds.mp bounded).1,(bounds.mp bounded).2,anchored.mp within⟩
    · cases accepted
  · rintro ⟨positive,above,below,within⟩
    obtain ⟨t,ran⟩ : ∃ t, dispatch cfg s (.announcePriceChange (.signed who) nodeId new) = .ok t := by
      simp only [dispatch,announcePriceChange,passes]
      exact ⟨_,who,rfl,operator,positive,by rw [set]; rfl,bounds.mpr ⟨above,below⟩,rested.imp_right saturatingAdd_le.trans,
        anchored.mpr within,rfl⟩
    exact accepts_ok ran

-- The least price that is at least the given one, the floor and the lower end of the window.
theorem announce_exists (cfg : Config A H W) (laddered : Laddered s.prices) (set : s.prices.priceCeiling = some ceiling)
    (operator : s.registry.nodeIdToChild nodeId = some who) (rested : Rested s nodeId) (positive : 0 < least) (below : least ≤ ceiling.val) :
    (∃ new : Word 128, least ≤ new ∧ accepts cfg s (.announcePriceChange (.signed who) nodeId new) = true) ↔
      ∀ price, priceAnchor s nodeId = some price →
        max least s.prices.priceFloor.val ≤ highest s.prices price ∧ lowest s.prices price ≤ ceiling := by
  have ordered : s.prices.priceFloor.val ≤ ceiling.val := laddered.bounds ceiling set
  constructor
  · rintro ⟨new,reaches,accepted⟩ price known
    obtain ⟨_,above,capped,within⟩ := (announce_iff cfg laddered set operator rested new).mp accepted
    obtain ⟨low,high⟩ := within price known
    have floored : s.prices.priceFloor.val ≤ new.val := above
    exact ⟨max_le (reaches.trans high) (floored.trans high),low.trans capped⟩
  · intro meets
    obtain ⟨low,reaches⟩ : ∃ low, (priceAnchor s nodeId).elim 0 (lowest s.prices) = low := ⟨_,rfl⟩
    have short : low ≤ ceiling := by
      cases anchored : priceAnchor s nodeId with
      | none => simp [← reaches,anchored]
      | some price => simpa [← reaches,anchored] using (meets price anchored).2
    obtain ⟨new,_⟩ : ∃ new : Word 128, new.val = max (max least s.prices.priceFloor) low := ⟨⟨_,by omega⟩,rfl⟩
    refine ⟨new,by omega,(announce_iff cfg laddered set operator rested new).mpr ⟨by omega,?_,?_,?_⟩⟩
    · exact (show s.prices.priceFloor.val ≤ new.val by omega)
    · exact (show new.val ≤ ceiling.val by omega)
    · intro price known
      have within := (laddered.lowest_le price).trans (laddered.le_highest price)
      have room := (meets price known).1
      simp only [known,Option.elim_some] at reaches
      exact ⟨by omega,by omega⟩

-- Either bound may have moved past the window, and one step up from a small price may be less
-- than a whole unit; nothing else stands in the way.
theorem price_not_bricked (cfg : Config A H W) (world : W) (calls : List (Call A H W))
    (reached : run (step cfg) (genesis world) calls = s) (set : s.prices.priceCeiling = some ceiling) (one : 1 ≤ ceiling.val)
    (operator : s.registry.nodeIdToChild nodeId = some who) (rested : Rested s nodeId) :
    ((∃ new, accepts cfg s (.announcePriceChange (.signed who) nodeId new) = true) ↔
      ∀ price, priceAnchor s nodeId = some price →
        max 1 s.prices.priceFloor.val ≤ highest s.prices price ∧ lowest s.prices price ≤ ceiling) ∧
    ∀ price, effectivePrice s nodeId = some price → price < ceiling →
      ((∃ new, price < new ∧ accepts cfg s (.announcePriceChange (.signed who) nodeId new) = true) ↔
        max (price.val + 1) s.prices.priceFloor.val ≤ highest s.prices price) := by
  have laddered : Laddered s.prices := reached ▸ run_laddered cfg world calls
  refine ⟨?_,?_⟩
  · rw [← announce_exists cfg laddered set operator rested Nat.one_pos one]
    refine exists_congr fun new => ⟨fun accepted => ⟨?_,accepted⟩,And.right⟩
    exact ((announce_iff cfg laddered set operator rested new).mp accepted).1
  · intro price effective cheap
    have higher := announce_exists cfg laddered set operator rested (Nat.succ_pos price.val) cheap
    refine higher.trans ⟨fun meets => (meets price (anchor_of_effective effective)).1,?_⟩
    intro room other known
    cases (anchor_of_effective effective).symm.trans known
    exact ⟨room,(laddered.lowest_le price).trans (Nat.le_of_lt cheap)⟩

instance (s : State A H W) (nodeId : H) : Decidable (Rested s nodeId) := inferInstanceAs (Decidable (_ ∨ _))

end

def pricedAt (price : Word 128) : List (Call Nat Short Unit) :=
  [ .setPriceBounds .root 1 (some 1000),.setPriceChangePolicy .root 0 0 3 2,.registerChild (.signed 1) 1 2 operated [],
    .announcePriceChange (.signed 2) operated price,.applyPriceChange (.signed 2) operated]

def refloored : List (Call Nat Short Unit) := pricedAt 10 ++ [.setPriceBounds .root 100 (some 1000)]

theorem price_bricked :
    (let s := run (step plainConfig) (genesis ()) (pricedAt 1)
     s.prices.priceCeiling = some 1000 ∧ s.registry.nodeIdToChild operated = some 2 ∧ Rested s operated ∧
       effectivePrice s operated = some 1 ∧
       ∀ new, 1 < new → accepts plainConfig s (.announcePriceChange (.signed 2) operated new) = false) ∧
    (let s := run (step plainConfig) (genesis ()) refloored
     s.prices.priceCeiling = some 1000 ∧ s.registry.nodeIdToChild operated = some 2 ∧ Rested s operated ∧
       ∀ new, accepts plainConfig s (.announcePriceChange (.signed 2) operated new) = false) := by
  have refused : ∀ calls price least (new : Word 128), let s := run (step plainConfig) (genesis ()) calls
      s.prices.priceCeiling = some 1000 ∧ s.registry.nodeIdToChild operated = some 2 ∧ Rested s operated →
      priceAnchor s operated = some price ∧ highest s.prices price < max least s.prices.priceFloor.val → 0 < least ∧ least ≤ 1000 →
      least ≤ new.val → accepts plainConfig s (.announcePriceChange (.signed 2) operated new) = false := by
    intro calls price least new s posted tight positive reaches
    refine Bool.eq_false_iff.mpr fun accepted => Nat.not_le.mpr tight.2 ?_
    exact ((announce_exists plainConfig (run_laddered plainConfig () calls) posted.1 posted.2.1 posted.2.2 positive.1 positive.2).mp
      ⟨new,reaches,accepted⟩ price tight.1).1
  refine ⟨⟨by decide +kernel,by decide +kernel,by decide +kernel,by decide +kernel,?_⟩,
    by decide +kernel,by decide +kernel,by decide +kernel,?_⟩
  · intro new higher
    exact refused _ 1 2 new (by decide +kernel) (by decide +kernel) (by decide) higher
  · intro new
    refine Bool.eq_false_iff.mpr fun accepted => ?_
    have set : (run (step plainConfig) (genesis ()) refloored).prices.priceCeiling = some 1000 := by decide +kernel
    have positive := ((announce_iff plainConfig (run_laddered plainConfig () refloored) set (by decide +kernel) (by decide +kernel)
      new).mp accepted).1
    exact Bool.false_ne_true ((refused refloored 10 1 new (by decide +kernel) (by decide +kernel) (by decide) positive).symm.trans accepted)

theorem price_not_bricked_raised :
    ∃ new, 100 < new ∧
      accepts plainConfig (run (step plainConfig) (genesis ()) (pricedAt 100)) (.announcePriceChange (.signed 2) operated new) = true := by
  have set : (run (step plainConfig) (genesis ()) (pricedAt 100)).prices.priceCeiling = some 1000 := by decide +kernel
  refine ((price_not_bricked plainConfig () (pricedAt 100) rfl set ?_ ?_ ?_).2 100 ?_ ?_).mpr ?_
  all_goals decide +kernel

end TheBrain.ComputeScoring
