import TheBrain.Library.Scale

-- Subscriptions as bytes. The end of a row was extended twice, and a reader takes the
-- layout of a row from the number of bytes after it.
namespace TheBrain.Marketplace.Stored
open Library.Words Library.Scale List

structure Plan (Hash : Type) where
  id : Hash
  planName : List UInt8
  planDescription : List UInt8
  planTechnicalDescription : List UInt8
  isSuspended : Bool
  price : Word 128
  isStoragePlan : Bool
  isS3Plan : Bool
  storageLimit : Option (Word 128)
  deriving DecidableEq

structure PlanV1 (Hash : Type) where
  id : Hash
  planName : List UInt8
  planDescription : List UInt8
  planTechnicalDescription : List UInt8
  isSuspended : Bool
  price : Word 128
  isStoragePlan : Bool
  storageLimit : Option (Word 128)
  deriving DecidableEq

def u32 : Codec (Word 32) := Codec.word 4

def u64 : Codec (Word 64) := Codec.word 8

def u128 : Codec (Word 128) := Codec.word 16

def planCodec (hash : Codec Hash) : Codec (Plan Hash) :=
  (hash.pair (Codec.bytes.pair (Codec.bytes.pair (Codec.bytes.pair (Codec.bool.pair (u128.pair (Codec.bool.pair
    (Codec.bool.pair u128.option)))))))).record
    (fun (id,name,description,technical,suspended,price,storage,s3,limit) =>
      ⟨id,name,description,technical,suspended,price,storage,s3,limit⟩)
    (fun p => (p.id,p.planName,p.planDescription,p.planTechnicalDescription,p.isSuspended,p.price,p.isStoragePlan,p.isS3Plan,
      p.storageLimit))
    (fun _ => rfl) (fun _ => rfl)

def planV1Codec (hash : Codec Hash) : Codec (PlanV1 Hash) :=
  (hash.pair (Codec.bytes.pair (Codec.bytes.pair (Codec.bytes.pair (Codec.bool.pair (u128.pair (Codec.bool.pair
    u128.option))))))).record
    (fun (id,name,description,technical,suspended,price,storage,limit) => ⟨id,name,description,technical,suspended,price,storage,limit⟩)
    (fun p => (p.id,p.planName,p.planDescription,p.planTechnicalDescription,p.isSuspended,p.price,p.isStoragePlan,p.storageLimit))
    (fun _ => rfl) (fun _ => rfl)

structure Common (A BlockNumber Package : Type) where
  id : Word 32
  owner : A
  package : Package
  cdnLocationId : Option (Word 32)
  active : Bool
  lastChargedAt : BlockNumber
  selectedImageName : Option (List UInt8)
  deriving DecidableEq

structure UserPlanSubscription (A BlockNumber Package : Type) extends Common A BlockNumber Package where
  nextChargeUnixDay : Option (Word 32)
  paidPerMonth : Word 128
  deriving DecidableEq

structure Types (A BlockNumber Package : Type) where
  accountId : Codec A
  blockNumber : Codec BlockNumber
  package : Codec Package
  price : Package → Word 128

section
variable (types : Types A BlockNumber Package)

def commonCodec : Codec (Common A BlockNumber Package) :=
  (u32.pair (types.accountId.pair (types.package.pair (u32.option.pair (Codec.bool.pair
    (types.blockNumber.pair Codec.bytes.option)))))).record
    (fun (id,owner,package,location,active,charged,image) => ⟨id,owner,package,location,active,charged,image⟩)
    (fun c => (c.id,c.owner,c.package,c.cdnLocationId,c.active,c.lastChargedAt,c.selectedImageName))
    (fun _ => rfl) (fun _ => rfl)

def readNextChargeUnixDay (input : List UInt8) : Option (Option (Word 32) × List UInt8) :=
  if input.length = 0 then some (none,input) else u32.option.decode input

def readPaidPerMonth (price : Word 128) (input : List UInt8) : Option (Word 128 × List UInt8) :=
  if input.length = 0 then some (price,input) else u128.decode input

def decode (input : List UInt8) : Option (UserPlanSubscription A BlockNumber Package × List UInt8) := do
  let (common,input) ← (commonCodec types).decode input
  let (nextChargeUnixDay,input) ← readNextChargeUnixDay input
  let (paidPerMonth,input) ← readPaidPerMonth (types.price common.package) input
  some (⟨common,nextChargeUnixDay,paidPerMonth⟩,input)

inductive Layout where
  | legacy | withNextCharge | withPaidPerMonth
  deriving DecidableEq

def encode (layout : Layout) (sub : UserPlanSubscription A BlockNumber Package) : List UInt8 :=
  (commonCodec types).encode sub.toCommon ++
    match layout with
    | .legacy => []
    | .withNextCharge => u32.option.encode sub.nextChargeUnixDay
    | .withPaidPerMonth => u32.option.encode sub.nextChargeUnixDay ++ u128.encode sub.paidPerMonth

def filled (layout : Layout) (sub : UserPlanSubscription A BlockNumber Package) : UserPlanSubscription A BlockNumber Package :=
  match layout with
  | .legacy => {sub with nextChargeUnixDay:=none,paidPerMonth:=types.price sub.package}
  | .withNextCharge => {sub with paidPerMonth:=types.price sub.package}
  | .withPaidPerMonth => sub

def decodeAll (stored : List UInt8) : Option (List (UserPlanSubscription A BlockNumber Package)) :=
  (readVec (decode types) stored).map Prod.fst

def encodeAll (layout : Layout) (subs : List (UserPlanSubscription A BlockNumber Package)) : List UInt8 :=
  writeVec (encode types layout) subs

def Written (subs : List (UserPlanSubscription A BlockNumber Package)) : Prop :=
  subs.length < 2 ^ 32 ∧ ∀ sub ∈ subs, (commonCodec types).fits sub.toCommon

def ReadsBack (layout : Layout) (subs : List (UserPlanSubscription A BlockNumber Package)) : Prop :=
  decodeAll types (encodeAll types layout subs) = some (subs.map (filled types layout))

end

section
variable {types : Types A BlockNumber Package} {sub : UserPlanSubscription A BlockNumber Package}

theorem option_nonempty (c : Codec α) (o : Option α) (rest : List UInt8) : (c.option.encode o ++ rest).length ≠ 0 := by
  cases o with
  | none | some => exact Nat.succ_ne_zero _

theorem readNextChargeUnixDay_written (next : Option (Word 32)) (rest : List UInt8) :
    readNextChargeUnixDay (u32.option.encode next ++ rest) = some (next,rest) := by
  rw [readNextChargeUnixDay,if_neg (option_nonempty u32 next rest)]
  exact u32.option.decode_encode next rest fun _ _ => trivial

theorem readPaidPerMonth_written (price paid : Word 128) (rest : List UInt8) :
    readPaidPerMonth price (u128.encode paid ++ rest) = some (paid,rest) := by
  have written : (u128.encode paid ++ rest).length ≠ 0 := by
    have size : (u128.encode paid).length = 16 := leBytes_length 16 paid
    rw [length_append,size]
    omega
  rw [readPaidPerMonth,if_neg written]
  exact u128.decode_encode paid rest trivial

theorem decode_complete (fits : (commonCodec types).fits sub.toCommon) (rest : List UInt8) :
    decode types (encode types .withPaidPerMonth sub ++ rest) = some (sub,rest) := by
  rw [encode,decode,append_assoc,append_assoc,(commonCodec types).decode_encode _ _ fits]
  change (readNextChargeUnixDay _).bind _ = _
  rw [readNextChargeUnixDay_written,Option.bind_some]
  change (readPaidPerMonth _ _).bind _ = _
  rw [readPaidPerMonth_written]
  rfl

theorem decode_last (layout : Layout) (fits : (commonCodec types).fits sub.toCommon) :
    decode types (encode types layout sub) = some (filled types layout sub,[]) := by
  cases layout with
  | legacy =>
    rw [encode,decode,(commonCodec types).decode_encode _ _ fits]
    rfl
  | withNextCharge =>
    have next := readNextChargeUnixDay_written sub.nextChargeUnixDay []
    rw [append_nil] at next
    rw [encode,decode,(commonCodec types).decode_encode _ _ fits]
    change (readNextChargeUnixDay _).bind _ = _
    rw [next]
    rfl
  | withPaidPerMonth =>
    have complete := decode_complete fits []
    rw [append_nil] at complete
    exact complete

theorem decode_some (read : decode types input = some (row,rest)) : ∃ tail more,
    (commonCodec types).decode input = some (row.toCommon,tail) ∧ readNextChargeUnixDay tail = some (row.nextChargeUnixDay,more) ∧
      readPaidPerMonth (types.price row.package) more = some (row.paidPerMonth,rest) := by
  obtain ⟨⟨_,tail⟩,common,read⟩ := Option.bind_eq_some_iff.mp read
  obtain ⟨⟨_,more⟩,next,read⟩ := Option.bind_eq_some_iff.mp read
  obtain ⟨⟨_,_⟩,paid,same⟩ := Option.bind_eq_some_iff.mp read
  cases same
  exact ⟨tail,more,common,next,paid⟩

theorem readNextChargeUnixDay_consumes (read : readNextChargeUnixDay input = some (day,rest)) :
    (u32.option.encode day).length + rest.length ≤ input.length ∨ input = [] ∧ (u32.option.encode day).length = 1 ∧ rest = [] := by
  unfold readNextChargeUnixDay at read
  split at read
  next empty =>
    cases read
    exact .inr ⟨length_eq_zero_iff.mp empty,rfl,length_eq_zero_iff.mp empty⟩
  · exact .inl (u32.option.consumes _ _ _ read)

theorem readPaidPerMonth_consumes (read : readPaidPerMonth price input = some (paid,rest)) :
    input = [] ∧ rest = [] ∨ 16 + rest.length ≤ input.length := by
  unfold readPaidPerMonth at read
  split at read
  next empty =>
    cases read
    exact .inl ⟨length_eq_zero_iff.mp empty,length_eq_zero_iff.mp empty⟩
  · exact .inr (u128.consumes _ _ _ read)

-- A row is read from no fewer bytes than an older layout writes for it, up to the one byte
-- of a missing day at the very end.
theorem decode_consumes (older : layout ≠ .withPaidPerMonth) (read : decode types input = some (filled types layout sub,rest)) :
    (encode types layout sub).length + rest.length ≤ input.length ∨ rest = [] ∧ (encode types layout sub).length ≤ input.length + 1 := by
  obtain ⟨tail,more,common,next,paid⟩ := decode_some read
  have front := (commonCodec types).consumes _ _ _ common
  have day := readNextChargeUnixDay_consumes next
  have payment := readPaidPerMonth_consumes paid
  cases layout with
  | legacy =>
    simp only [filled,encode,append_nil] at front day ⊢
    grind
  | withNextCharge =>
    simp only [filled,encode,length_append] at front day ⊢
    grind
  | withPaidPerMonth => exact absurd rfl older

theorem encode_long (types : Types A BlockNumber Package) (layout : Layout) (sub : UserPlanSubscription A BlockNumber Package) : 4 ≤ (encode types layout sub).length := by
  have id : (u32.encode sub.id).length = 4 := leBytes_length 4 sub.id
  simp only [encode,commonCodec,Codec.record,Codec.pair,length_append,id]
  omega

theorem rows_consume (older : layout ≠ .withPaidPerMonth) (subs : List (UserPlanSubscription A BlockNumber Package)) (input : List UInt8)
    (read : readItems (decode types) subs.length input = some (subs.map (filled types layout),rest)) :
    (subs.flatMap (encode types layout)).length ≤ input.length + 1 := by
  induction subs generalizing input with
  | nil => exact Nat.zero_le _
  | cons sub subs ih =>
    obtain ⟨left,first,others⟩ := readItems_cons read
    have fewer := ih left others
    rw [flatMap_cons,length_append]
    rcases decode_consumes older first with whole | ⟨rfl,short⟩
    · omega
    · cases subs with
      | nil => exact short
      | cons other =>
        have long := encode_long types layout other
        rw [flatMap_cons,length_append,length_nil] at fewer
        omega

-- A row of an older layout that is followed by another takes the payment from its bytes.
theorem decode_overruns (older : layout ≠ .withPaidPerMonth) (fits : (commonCodec types).fits sub.toCommon) (more : later ≠ [])
    (read : decode types (encode types layout sub ++ later) = some (row,rest)) : rest = [] ∨ rest.length + 16 ≤ later.length := by
  obtain ⟨tail,left,common,next,paid⟩ := decode_some read
  have payment := readPaidPerMonth_consumes paid
  cases layout with
  | legacy =>
    rw [encode,append_nil,(commonCodec types).decode_encode _ _ fits] at common
    have day := readNextChargeUnixDay_consumes next
    grind
  | withNextCharge =>
    rw [encode,append_assoc,(commonCodec types).decode_encode _ _ fits] at common
    obtain ⟨_,rfl⟩ := Prod.mk.inj (Option.some.inj common)
    rw [readNextChargeUnixDay_written] at next
    grind
  | withPaidPerMonth => exact absurd rfl older

theorem readsBack_of_each (few : subs.length < 2 ^ 32)
    (each : ∀ sub ∈ subs, ∀ rest, decode types (encode types layout sub ++ rest) = some (filled types layout sub,rest)) :
    ReadsBack types layout subs := by
  have read := readVec_write (filled types layout) subs few each []
  rw [append_nil] at read
  rw [ReadsBack,decodeAll,encodeAll,read]
  rfl

theorem readsBack_iff (layout : Layout) (subs : List (UserPlanSubscription A BlockNumber Package)) (written : Written types subs) :
    ReadsBack types layout subs ↔ layout = .withPaidPerMonth ∨ subs.length ≤ 1 := by
  obtain ⟨few,fits⟩ := written
  constructor
  · intro decoded
    by_contra neither
    obtain ⟨older,many⟩ := not_or.mp neither
    rcases subs with _ | ⟨sub,_ | ⟨other,subs⟩⟩
    · exact many (by simp)
    · exact many (by simp)
    · obtain ⟨⟨_,_⟩,read,same⟩ := Option.map_eq_some_iff.mp decoded
      cases same
      rw [encodeAll,writeVec,readVec,readCompact_compact few,Option.bind_some] at read
      obtain ⟨left,first,others⟩ := readItems_cons read
      have needed := rows_consume older (other :: subs) left others
      have long := encode_long types layout other
      have more : (other :: subs).flatMap (encode types layout) ≠ [] := by
        intro none
        rw [flatMap_cons,append_eq_nil_iff] at none
        rw [none.1,length_nil] at long
        omega
      have overrun := decode_overruns older (fits sub (mem_cons_self ..)) more first
      rw [flatMap_cons,length_append] at needed overrun
      rcases overrun with rfl | short
      · rw [length_nil] at needed
        omega
      · omega
  · rintro (rfl | short)
    · exact readsBack_of_each few fun sub mem => decode_complete (fits sub mem)
    · rcases subs with _ | ⟨sub,_ | ⟨_,_⟩⟩
      · exact readsBack_of_each few (forall_mem_nil _)
      · have length := readCompact_compact few (encode types layout sub)
        rw [ReadsBack,decodeAll,encodeAll,writeVec,flatMap_singleton,readVec,length,Option.bind_some,length_singleton,readItems,
          decode_last layout (fits sub (mem_singleton_self sub))]
        rfl
      · simp at short

end

section
variable (accountId : Codec A) (blockNumber : Codec BlockNumber) (hash : Codec Hash)

def current : Types A BlockNumber (Plan Hash) := ⟨accountId,blockNumber,planCodec hash,Plan.price⟩

def beforeS3 : Types A BlockNumber (PlanV1 Hash) := ⟨accountId,blockNumber,planV1Codec hash,PlanV1.price⟩

theorem stored_subscriptions_decoded (layout : Layout) :
    (∀ subs, Written (current accountId blockNumber hash) subs →
      (ReadsBack (current accountId blockNumber hash) layout subs ↔ layout = .withPaidPerMonth ∨ subs.length ≤ 1)) ∧
    ∀ subs, Written (beforeS3 accountId blockNumber hash) subs →
      (ReadsBack (beforeS3 accountId blockNumber hash) layout subs ↔ layout = .withPaidPerMonth ∨ subs.length ≤ 1) :=
  ⟨readsBack_iff layout,readsBack_iff layout⟩

end

abbrev Bytes32 := {b : List UInt8 // b.length = 32}

def mainnet : Types Bytes32 (Word 64) (Plan Bytes32) := current (Codec.fixed 32) u64 (Codec.fixed 32)

def repeated (byte : UInt8) : Bytes32 := ⟨List.replicate 32 byte,List.length_replicate⟩

def drivePlan : Plan Bytes32 := ⟨repeated 7,[65],[],[],false,1000,true,false,some 5⟩

def rented (id : Word 32) : UserPlanSubscription Bytes32 (Word 64) (Plan Bytes32) :=
  ⟨⟨id,repeated 1,drivePlan,none,true,40,none⟩,some 20000,950⟩

theorem stored_subscriptions_decoded_rented :
    decodeAll mainnet (encodeAll mainnet .legacy [rented 0]) = some [{rented 0 with nextChargeUnixDay:=none,paidPerMonth:=1000}] ∧
      decodeAll mainnet (encodeAll mainnet .withNextCharge [rented 0]) = some [{rented 0 with paidPerMonth:=1000}] ∧
      decodeAll mainnet (encodeAll mainnet .withPaidPerMonth [rented 0,rented 1]) = some [rented 0,rented 1] := by
  have fits : ∀ id, (commonCodec mainnet).fits (rented id).toCommon := by
    intro id
    refine ⟨trivial,trivial,⟨trivial,?_,?_,?_,trivial,trivial,trivial,trivial,?_⟩,?_,trivial,trivial,?_⟩
    · exact (by decide : 1 < 2 ^ 32)
    · exact Nat.two_pow_pos 32
    · exact Nat.two_pow_pos 32
    · exact fun _ _ => trivial
    · exact fun _ _ => trivial
    · exact nofun
  refine ⟨?_,?_,?_⟩
  · refine ((stored_subscriptions_decoded (Codec.fixed 32) u64 (Codec.fixed 32) .legacy).1 [rented 0] ⟨by decide,?_⟩).mpr (.inr (by decide))
    exact forall_mem_singleton.mpr (fits 0)
  · refine ((stored_subscriptions_decoded (Codec.fixed 32) u64 (Codec.fixed 32) .withNextCharge).1 [rented 0] ⟨by decide,?_⟩).mpr
      (.inr (by decide))
    exact forall_mem_singleton.mpr (fits 0)
  · refine ((stored_subscriptions_decoded (Codec.fixed 32) u64 (Codec.fixed 32) .withPaidPerMonth).1 [rented 0,rented 1]
      ⟨by decide,?_⟩).mpr (.inl rfl)
    exact forall_mem_cons.mpr ⟨fits 0,forall_mem_singleton.mpr (fits 1)⟩

-- With a second row behind it, the first takes the bytes of the second for its own end.
theorem stored_subscriptions_misread :
    decodeAll mainnet (encodeAll mainnet .legacy [rented 0,rented 0]) ≠
        some [filled mainnet .legacy (rented 0),filled mainnet .legacy (rented 0)] ∧
      decodeAll mainnet (encodeAll mainnet .withNextCharge [rented 0,rented 0]) = none := by
  decide +kernel

end TheBrain.Marketplace.Stored
