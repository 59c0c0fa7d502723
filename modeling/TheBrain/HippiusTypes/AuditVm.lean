import TheBrain.HippiusTypes.Cbor

namespace TheBrain.HippiusTypes
open Library Words Cbor List

def aggregateDomain : String := "HIPPIUS_AUDIT_VM_AGGREGATE_V1"

structure ServedDeliveryAggregate (H : Type) where
  chainGenesis : H
  palletInstance : H
  validatorId : List UInt8
  familyId : List UInt8
  nodeId : H
  auditVmKeyId : List UInt8
  epoch : Word 64
  challengeNonce : H
  intervalStart : Word 64
  intervalEnd : Word 64
  mapRoot : H
  totalsRoot : H
  prevAggregateHash : H
  expiry : Word 64

namespace ServedDeliveryAggregate
variable (digest : Digest H)

def fields (a : ServedDeliveryAggregate H) : List (String × Value) :=
  [("audit_vm_key_id",.bytes a.auditVmKeyId),
   ("chain_genesis",.bytes (digest.bytes a.chainGenesis)),
   ("challenge_nonce",.bytes (digest.bytes a.challengeNonce)),
   ("domain",label aggregateDomain),
   ("epoch",.unsigned a.epoch),
   ("expiry",.unsigned a.expiry),
   ("family_id",.bytes a.familyId),
   ("interval_end",.unsigned a.intervalEnd),
   ("interval_start",.unsigned a.intervalStart),
   ("map_root",.bytes (digest.bytes a.mapRoot)),
   ("node_id",.bytes (digest.bytes a.nodeId)),
   ("pallet_instance",.bytes (digest.bytes a.palletInstance)),
   ("prev_aggregate_hash",.bytes (digest.bytes a.prevAggregateHash)),
   ("totals_root",.bytes (digest.bytes a.totalsRoot)),
   ("validator_id",.bytes a.validatorId)]

def canonical (a : ServedDeliveryAggregate H) : Option (List UInt8) :=
  if a.intervalEnd < a.intervalStart then none
  else if a.expiry < a.intervalEnd then none
  else toCanonicalVec (record (a.fields digest))

def names : List String :=
  ["audit_vm_key_id","chain_genesis","challenge_nonce","domain","epoch","expiry","family_id","interval_end","interval_start",
   "map_root","node_id","pallet_instance","prev_aggregate_hash","totals_root","validator_id"]

theorem names_fields (a : ServedDeliveryAggregate H) : (a.fields digest).map Prod.fst = names := rfl

theorem names_distinct : (names.map fun name => encode (label name)).Nodup := by decide +kernel

theorem names_short : ∀ name ∈ names, (ascii name).length < 2 ^ 64 := by simp [ascii,names]

structure Short (a : ServedDeliveryAggregate H) : Prop where
  validatorId : a.validatorId.length < 2 ^ 64
  familyId : a.familyId.length < 2 ^ 64
  auditVmKeyId : a.auditVmKeyId.length < 2 ^ 64

theorem fields_record (a : ServedDeliveryAggregate H) (short : a.Short) : Record (a.fields digest) := by
  refine .of_names names (names_fields digest a) (by decide) ⟨names_distinct,names_short⟩ ?_
  have domain : Fits (label aggregateDomain) := fits_label (by simp [ascii,aggregateDomain])
  intro value mem
  simp only [fields,map_cons,map_nil,mem_cons,not_mem_nil,or_false] at mem
  rcases mem with rfl | rfl | rfl | rfl | rfl | rfl | rfl | rfl | rfl | rfl | rfl | rfl | rfl | rfl | rfl
  all_goals first | exact ⟨atom_label _,domain⟩ | exact ⟨rfl,digest.bytes_short _⟩ | exact ⟨rfl,True.intro⟩ | refine ⟨rfl,?_⟩
  · exact short.auditVmKeyId
  · exact short.familyId
  · exact short.validatorId

theorem canonical_injective (one two : ServedDeliveryAggregate H) (left : one.Short) (right : two.Short)
    (first : one.canonical digest = some bytes) (second : two.canonical digest = some bytes) : one = two := by
  simp only [canonical] at first second
  split at first
  · cases first
  split at first
  · cases first
  split at second
  · cases second
  split at second
  · cases second
  have same := record_injective (fields_record digest one left) (fields_record digest two right) rfl first second
  simp only [fields,cons.injEq,Prod.mk.injEq,Value.bytes.injEq,Value.unsigned.injEq,true_and,and_true] at same
  obtain ⟨key,genesis,nonce,epoch,expiry,family,ends,starts,map,node,pallet,prev,totals,validator⟩ := same
  obtain ⟨⟩ := one
  obtain ⟨⟩ := two
  simp only [ServedDeliveryAggregate.mk.injEq]
  exact ⟨digest.bytes_injective genesis,digest.bytes_injective pallet,validator,family,digest.bytes_injective node,key,epoch,
    digest.bytes_injective nonce,starts,ends,digest.bytes_injective map,digest.bytes_injective totals,
    digest.bytes_injective prev,expiry⟩

end ServedDeliveryAggregate
end TheBrain.HippiusTypes
