import TheBrain.HippiusTypes.Cbor

-- The 64 bytes that a guest or host folds into its hardware report: a nonce, then a key
-- or the hash of what the report is about.
namespace TheBrain.HippiusTypes.ReportData
open Library Words Cbor

abbrev Bytes32 := {b : List UInt8 // b.length = 32}

def auditVmDomain : String := "HIPPIUS_AUDIT_VM_V1"
def tenantTelemetryDomain : String := "HIPPIUS_TENANT_TELEMETRY_V1"
def liveAttestationReportDomain : String := "HIPPIUS_LIVE_ATTESTATION_REPORT_V1"
def hostAttestorReportDomain : String := "HIPPIUS_HOST_ATTESTOR_REPORT_V1"

def lengthPrefixed (bytes : List UInt8) : List UInt8 := beBytes 4 (bytes.length % 2 ^ 32) ++ bytes

def auditVmPreimage (auditVmEd25519Pub nodeId platformId : List UInt8) : List UInt8 :=
  lengthPrefixed auditVmEd25519Pub ++ (ascii auditVmDomain ++ (lengthPrefixed nodeId ++ lengthPrefixed platformId))

def tenantTelemetryFields (telemetrySignerPubkey : Bytes32) (nodeId : List UInt8) (vmId : Text) : List (String × Value) :=
  [("domain",label tenantTelemetryDomain),
   ("node_id",.bytes nodeId),
   ("signer_pubkey",.bytes telemetrySignerPubkey.val),
   ("vm_id",.text vmId)]

def liveAttestationFields (vmId : Text) : List (String × Value) :=
  [("domain",label liveAttestationReportDomain),
   ("vm_id",.text vmId)]

def hostAttestorFields (attestorPubkey : Bytes32) (nodeId : Text) : List (String × Value) :=
  [("attestor_pubkey",.bytes attestorPubkey.val),
   ("domain",label hostAttestorReportDomain),
   ("node_id",.text nodeId)]

section
variable (sha256 : List UInt8 → Bytes32)

def layout (nonce half : Bytes32) : List UInt8 := nonce.val ++ half.val

def tenant (nonce guestX25519Pub : Bytes32) : List UInt8 := layout nonce guestX25519Pub

def auditVm (nonce : Bytes32) (auditVmEd25519Pub nodeId platformId : List UInt8) : List UInt8 :=
  layout nonce (sha256 (auditVmPreimage auditVmEd25519Pub nodeId platformId))

def tenantTelemetry (nonce telemetrySignerPubkey : Bytes32) (nodeId : List UInt8) (vmId : Text) : Option (List UInt8) := do
  let preimage ← toCanonicalVec (record (tenantTelemetryFields telemetrySignerPubkey nodeId vmId))
  some (layout nonce (sha256 preimage))

def liveAttestation (nonce : Bytes32) (vmId : Text) : Option (List UInt8) := do
  let preimage ← toCanonicalVec (record (liveAttestationFields vmId))
  some (layout nonce (sha256 preimage))

def hostAttestor (nonce attestorPubkey : Bytes32) (nodeId : Text) : Option (List UInt8) := do
  let preimage ← toCanonicalVec (record (hostAttestorFields attestorPubkey nodeId))
  some (layout nonce (sha256 preimage))

end

inductive Request where
  | tenant (nonce guestX25519Pub : Bytes32)
  | auditVm (nonce : Bytes32) (auditVmEd25519Pub nodeId platformId : List UInt8)
  | tenantTelemetry (nonce telemetrySignerPubkey : Bytes32) (nodeId : List UInt8) (vmId : Text)
  | liveAttestation (nonce : Bytes32) (vmId : Text)
  | hostAttestor (nonce attestorPubkey : Bytes32) (nodeId : Text)

inductive Protocol where
  | tenant | auditVm | tenantTelemetry | liveAttestation | hostAttestor
  deriving DecidableEq

namespace Request

def protocol : Request → Protocol
  | .tenant .. => .tenant
  | .auditVm .. => .auditVm
  | .tenantTelemetry .. => .tenantTelemetry
  | .liveAttestation .. => .liveAttestation
  | .hostAttestor .. => .hostAttestor

def reportData (sha256 : List UInt8 → Bytes32) : Request → Option (List UInt8)
  | .tenant nonce guestX25519Pub => some (ReportData.tenant nonce guestX25519Pub)
  | .auditVm nonce auditVmEd25519Pub nodeId platformId => some (ReportData.auditVm sha256 nonce auditVmEd25519Pub nodeId platformId)
  | .tenantTelemetry nonce telemetrySignerPubkey nodeId vmId => ReportData.tenantTelemetry sha256 nonce telemetrySignerPubkey nodeId vmId
  | .liveAttestation nonce vmId => ReportData.liveAttestation sha256 nonce vmId
  | .hostAttestor nonce attestorPubkey nodeId => ReportData.hostAttestor sha256 nonce attestorPubkey nodeId

def preimage : Request → Option (List UInt8)
  | .tenant .. => none
  | .auditVm _ auditVmEd25519Pub nodeId platformId => some (auditVmPreimage auditVmEd25519Pub nodeId platformId)
  | .tenantTelemetry _ telemetrySignerPubkey nodeId vmId => toCanonicalVec (record (tenantTelemetryFields telemetrySignerPubkey nodeId vmId))
  | .liveAttestation _ vmId => toCanonicalVec (record (liveAttestationFields vmId))
  | .hostAttestor _ attestorPubkey nodeId => toCanonicalVec (record (hostAttestorFields attestorPubkey nodeId))

def Short : Request → Prop
  | .auditVm _ auditVmEd25519Pub nodeId platformId =>
    auditVmEd25519Pub.length < 2 ^ 31 ∧ nodeId.length < 2 ^ 31 ∧ platformId.length < 2 ^ 31
  | .tenantTelemetry _ _ nodeId vmId => nodeId.length < 2 ^ 31 ∧ vmId.val.length < 2 ^ 31
  | .liveAttestation _ vmId => vmId.val.length < 2 ^ 31
  | .hostAttestor _ _ nodeId => nodeId.val.length < 2 ^ 31
  | .tenant .. => True

end Request

theorem layout_inj (same : layout nonce half = layout nonce' half') : nonce = nonce' ∧ half = half' := by
  have sized : nonce.val.length = nonce'.val.length := by rw [nonce.property,nonce'.property]
  obtain ⟨first,second⟩ := List.append_inj same sized
  exact ⟨Subtype.ext first,Subtype.ext second⟩

-- A record opens with the head of its map, which counts the fields.
theorem record_opens (ok : Record fields) (encoded : toCanonicalVec (record fields) = some bytes)
    (few : fields.length < 24) : bytes.head? = some (UInt8.ofNat (160 + fields.length)) := by
  rw [record_encodes ok] at encoded
  cases encoded
  rw [encode,head,sortEntries,List.length_insertionSort,List.length_map,if_pos few]
  rfl

theorem fits_key (key : Bytes32) : Fits (.bytes key.val) := by
  change key.val.length < 2 ^ 64
  rw [key.property]
  decide

theorem labels_checked : ∀ names ∈ [["domain","node_id","signer_pubkey","vm_id"],["domain","vm_id"],["attestor_pubkey","domain","node_id"]],
    (names.map fun name => encode (label name)).Nodup ∧ ∀ name ∈ names, (ascii name).length < 2 ^ 64 := by decide +kernel

theorem telemetry_record {vmId : Text} (key : Bytes32) (node : nodeId.length < 2 ^ 31) (vm : vmId.val.length < 2 ^ 31) :
    Record (tenantTelemetryFields key nodeId vmId) := by
  refine .of_names _ rfl (by simp [tenantTelemetryFields]) (labels_checked _ (by simp [tenantTelemetryFields])) ?_
  simp only [tenantTelemetryFields,List.map_cons,List.forall_mem_cons]
  exact ⟨⟨atom_label _,fits_label (by simp [ascii,tenantTelemetryDomain])⟩,⟨rfl,node.trans (by decide)⟩,⟨rfl,fits_key key⟩,⟨rfl,vm.trans (by decide)⟩,nofun⟩

theorem live_record {vmId : Text} (vm : vmId.val.length < 2 ^ 31) : Record (liveAttestationFields vmId) := by
  refine .of_names _ rfl (by simp [liveAttestationFields]) (labels_checked _ (by simp [liveAttestationFields])) ?_
  simp only [liveAttestationFields,List.map_cons,List.forall_mem_cons]
  exact ⟨⟨atom_label _,fits_label (by simp [ascii,liveAttestationReportDomain])⟩,⟨rfl,vm.trans (by decide)⟩,nofun⟩

theorem host_record {nodeId : Text} (key : Bytes32) (node : nodeId.val.length < 2 ^ 31) : Record (hostAttestorFields key nodeId) := by
  refine .of_names _ rfl (by simp [hostAttestorFields]) (labels_checked _ (by simp [hostAttestorFields])) ?_
  simp only [hostAttestorFields,List.map_cons,List.forall_mem_cons]
  exact ⟨⟨rfl,fits_key key⟩,⟨atom_label _,fits_label (by simp [ascii,hostAttestorReportDomain])⟩,⟨rfl,node.trans (by decide)⟩,nofun⟩

-- A length below 2^31 leaves the top bit of its first byte clear.
theorem lengthPrefixed_opens (bytes rest : List UInt8) (short : bytes.length < 2 ^ 31) :
    ∃ first : UInt8, (lengthPrefixed bytes ++ rest).head? = some first ∧ first.toNat < 128 := by
  refine ⟨UInt8.ofNat (bytes.length % 2 ^ 32 / 256 ^ 3),rfl,?_⟩
  rw [UInt8.toNat_ofNat']
  omega

namespace Request

-- The first byte of what is hashed, as a number. It tells the four hashing layouts apart.
def opening : Protocol → Nat → Prop
  | .tenant, _ => False
  | .auditVm, byte => byte < 128
  | .tenantTelemetry, byte => byte = 164
  | .liveAttestation, byte => byte = 162
  | .hostAttestor, byte => byte = 163

theorem preimage_opens {request : Request} (short : request.Short) (hashed : request.preimage = some bytes) :
    ∃ first : UInt8, bytes.head? = some first ∧ opening request.protocol first.toNat := by
  cases request with
  | tenant => cases hashed
  | auditVm _ key =>
    cases hashed
    exact lengthPrefixed_opens key _ short.1
  | tenantTelemetry _ key =>
    exact ⟨_,record_opens (telemetry_record key short.1 short.2) hashed (show 4 < 24 by decide),rfl⟩
  | liveAttestation =>
    exact ⟨_,record_opens (live_record short) hashed (show 2 < 24 by decide),rfl⟩
  | hostAttestor _ key =>
    exact ⟨_,record_opens (host_record key short) hashed (show 3 < 24 by decide),rfl⟩

theorem opening_apart {one two : Protocol} (different : one ≠ two) (first : opening one byte) (second : opening two byte) : False := by
  cases one <;> cases two <;> simp only [opening] at first second <;> first | exact different rfl | omega

theorem preimages_apart {one two : Request} (different : one.protocol ≠ two.protocol) (left : one.Short) (right : two.Short)
    (first : one.preimage = some x) (second : two.preimage = some y) : x ≠ y := by
  rintro rfl
  obtain ⟨_,opens,kind⟩ := preimage_opens left first
  obtain ⟨_,again,other⟩ := preimage_opens right second
  rw [opens] at again
  cases again
  exact opening_apart different kind other

def nonce : Request → Bytes32
  | .tenant nonce _ | .auditVm nonce .. | .tenantTelemetry nonce .. | .liveAttestation nonce _ | .hostAttestor nonce .. => nonce

theorem preimage_some {request : Request} (hashes : request.protocol ≠ .tenant) (short : request.Short) :
    ∃ x, request.preimage = some x := by
  cases request with
  | tenant => exact absurd rfl hashes
  | auditVm => exact ⟨_,rfl⟩
  | tenantTelemetry _ key => exact ⟨_,record_encodes (telemetry_record key short.1 short.2)⟩
  | liveAttestation => exact ⟨_,record_encodes (live_record short)⟩
  | hostAttestor _ key => exact ⟨_,record_encodes (host_record key short)⟩

theorem reportData_eq {request : Request} (hashed : request.preimage = some x) :
    request.reportData sha256 = some (layout request.nonce (sha256 x)) := by
  cases request with
  | tenant => cases hashed
  | auditVm =>
    cases hashed
    rfl
  | _ => exact Option.bind_eq_some_iff.mpr ⟨x,hashed,rfl⟩

end Request

def repeated (byte : UInt8) : Bytes32 := ⟨List.replicate 32 byte,rfl⟩

def node : Text := ⟨[110],by decide⟩

def enrolment : Request := .hostAttestor (repeated 1) (repeated 2) node

def sample : Protocol → Request
  | .tenant => .tenant (repeated 1) (repeated 2)
  | .auditVm => .auditVm (repeated 1) [] [] []
  | .tenantTelemetry => .tenantTelemetry (repeated 1) (repeated 2) [] node
  | .liveAttestation => .liveAttestation (repeated 1) node
  | .hostAttestor => enrolment

theorem sample_short : ∀ protocol, (sample protocol).protocol = protocol ∧ (sample protocol).Short := by
  intro protocol
  cases protocol <;> simp [sample,enrolment,Request.protocol,Request.Short,node]

-- No two requests of the two functions get the same report, unless the hash collides on them.
def Separated (sha256 : List UInt8 → Bytes32) (one two : Protocol) : Prop :=
  ∀ a b : Request, a.protocol = one → b.protocol = two → a.Short → b.Short →
    (∀ x ∈ a.preimage, ∀ y ∈ b.preimage, sha256 x = sha256 y → x = y) →
    ∀ out ∈ a.reportData sha256, ∀ out' ∈ b.reportData sha256, out ≠ out'

theorem Separated.symm (apart : Separated sha256 one two) : Separated sha256 two one := by
  intro a b first second left right collisionFree out mem out' mem' same
  exact apart b a second first right left (fun x hx y hy equal => (collisionFree y hy x hx equal.symm).symm) out' mem' out mem same.symm

-- The tenant's key is copied, so it may be the digest of any request of another function.
theorem tenant_unseparated (sha256 : List UInt8 → Bytes32) (different : two ≠ .tenant) : ¬ Separated sha256 .tenant two := by
  intro apart
  obtain ⟨named,short⟩ := sample_short two
  have hashes : (sample two).protocol ≠ .tenant := fun tenant => different (named.symm.trans tenant)
  obtain ⟨x,hashed⟩ := Request.preimage_some hashes short
  exact apart (.tenant (sample two).nonce (sha256 x)) (sample two) rfl named trivial short nofun _ rfl _
    (Request.reportData_eq hashed) rfl

theorem report_data_separated (sha256 : List UInt8 → Bytes32) {one two : Protocol} (different : one ≠ two) :
    Separated sha256 one two ↔ one ≠ .tenant ∧ two ≠ .tenant := by
  constructor
  · intro apart
    refine ⟨?_,?_⟩
    · rintro rfl
      exact tenant_unseparated sha256 different.symm apart
    · rintro rfl
      exact tenant_unseparated sha256 different apart.symm
  · rintro ⟨hashes,hashes'⟩ a b rfl rfl left right collisionFree out mem out' mem' same
    obtain ⟨x,first⟩ := Request.preimage_some hashes left
    obtain ⟨y,second⟩ := Request.preimage_some hashes' right
    cases (Request.reportData_eq first).symm.trans mem
    cases (Request.reportData_eq second).symm.trans mem'
    exact Request.preimages_apart different left right first second (collisionFree x first y second (layout_inj same).2)

def checksum (bytes : List UInt8) : Bytes32 := repeated bytes.sum

theorem report_data_separated_enrolment :
    (enrolment.reportData checksum).isSome = true ∧ ((sample .liveAttestation).reportData checksum).isSome = true ∧
      ∀ a ∈ enrolment.reportData checksum, ∀ b ∈ (sample .liveAttestation).reportData checksum, a ≠ b := by
  refine ⟨by decide +kernel,by decide +kernel,?_⟩
  have apart := (report_data_separated checksum (show Protocol.hostAttestor ≠ .liveAttestation by decide)).mpr (by decide)
  exact apart enrolment (sample .liveAttestation) rfl rfl (sample_short .hostAttestor).2 (sample_short _).2 (by decide +kernel)

-- A tenant that names the hash of an enrolment as its key gets the report of the enrolment,
-- whatever the hash is.
theorem tenant_reports_enrolment :
    {sha256 | ∃ key out, (Request.tenant (repeated 1) key).reportData sha256 = some out ∧
      enrolment.reportData sha256 = some out} = Set.univ := by
  apply Set.eq_univ_of_forall
  intro sha256
  have encoded := record_encodes (host_record (repeated 2) (show node.val.length < 2 ^ 31 by decide))
  generalize encode _ = hashed at encoded
  refine ⟨sha256 hashed,layout (repeated 1) (sha256 hashed),rfl,?_⟩
  rw [enrolment,Request.reportData,hostAttestor,encoded]
  rfl

-- A length of fixed size before the bytes it counts.
theorem framed_inj (frame : Nat → List UInt8) (fixed : ∀ n m, (frame n).length = (frame m).length)
    (exact : frame a.length = frame b.length → a.length = b.length)
    (same : frame a.length ++ a ++ rest = frame b.length ++ b ++ rest') : a = b ∧ rest = rest' := by
  rw [List.append_assoc,List.append_assoc] at same
  obtain ⟨sizes,bodies⟩ := List.append_inj same (fixed _ _)
  exact List.append_inj bodies (exact sizes)

theorem lengthPrefixed_inj (left : a.length < 2 ^ 31) (right : b.length < 2 ^ 31)
    (same : lengthPrefixed a ++ rest = lengthPrefixed b ++ rest') : a = b ∧ rest = rest' := by
  refine framed_inj (fun n => beBytes 4 (n % 2 ^ 32)) (fun _ _ => rfl) (fun sizes => ?_) same
  have first : ofBe (beBytes 4 (a.length % 2 ^ 32)) = _ := ofBe_beBytes (by omega)
  rw [sizes,ofBe_beBytes (by omega)] at first
  omega

def userdataDigestDomain : String := "HIPPIUS_USERDATA_DIGEST_V1"

def putFramed (s : List UInt8) : List UInt8 := leBytes 8 s.length ++ s

structure Userdata where
  tenantId : Text
  vmId : Text
  ticketId : Text
  secretType : Text
  path : Text
  version : Word 64
  plaintext : List UInt8

namespace Userdata

def preimage (u : Userdata) : List UInt8 :=
  putFramed (ascii userdataDigestDomain) ++ (putFramed u.tenantId.val ++ (putFramed u.vmId.val ++ (putFramed u.ticketId.val ++
    (putFramed u.secretType.val ++ (putFramed u.path.val ++ (leBytes 8 u.version ++ putFramed u.plaintext))))))

def Short (u : Userdata) : Prop :=
  ∀ field ∈ [u.tenantId.val,u.vmId.val,u.ticketId.val,u.secretType.val,u.path.val,u.plaintext], field.length < 2 ^ 31

def digest (sha256 : List UInt8 → Bytes32) (u : Userdata) : Bytes32 := sha256 u.preimage

theorem putFramed_inj (left : a.length < 2 ^ 31) (right : b.length < 2 ^ 31)
    (same : putFramed a ++ rest = putFramed b ++ rest') : a = b ∧ rest = rest' := by
  refine framed_inj (leBytes 8) (fun _ _ => by simp) (fun sizes => ?_) same
  exact leBytes_injective 8 (left.trans (by decide)) (right.trans (by decide)) sizes

theorem preimage_inj {one two : Userdata} (left : one.Short) (right : two.Short) (same : one.preimage = two.preimage) : one = two := by
  simp only [Short,List.forall_mem_cons] at left right
  obtain ⟨_,_,_,_,_,plain,_⟩ := left
  obtain ⟨_,_,_,_,_,plain',_⟩ := right
  have domain := (List.append_inj same rfl).2
  obtain ⟨_,vms⟩ := putFramed_inj ‹_› ‹_› domain
  obtain ⟨_,tickets⟩ := putFramed_inj ‹_› ‹_› vms
  obtain ⟨_,types⟩ := putFramed_inj ‹_› ‹_› tickets
  obtain ⟨_,paths⟩ := putFramed_inj ‹_› ‹_› types
  obtain ⟨_,versions⟩ := putFramed_inj ‹_› ‹_› paths
  obtain ⟨version,texts⟩ := List.append_inj versions (by simp)
  have plaintext := (putFramed_inj plain plain' (congrArg (· ++ []) texts)).1
  have number := Fin.ext (leBytes_injective 8 one.version.isLt two.version.isLt version)
  cases one
  cases two
  simp_all [Subtype.ext_iff]

end Userdata

namespace Request

theorem preimage_inj {one two : Request} (left : one.Short) (right : two.Short) (nonces : one.nonce = two.nonce)
    (first : one.preimage = some x) (second : two.preimage = some x) : one = two := by
  by_cases kind : one.protocol = two.protocol
  · cases one <;> cases two <;> cases kind <;> cases nonces
    · cases first
    · cases first
      obtain ⟨rfl,tagged⟩ := lengthPrefixed_inj left.1 right.1 (Option.some.inj second).symm
      obtain ⟨rfl,platform⟩ := lengthPrefixed_inj left.2.1 right.2.1 (List.append_cancel_left tagged)
      obtain ⟨rfl,_⟩ := lengthPrefixed_inj left.2.2 right.2.2 (congrArg (· ++ []) platform)
      rfl
    · have same := record_injective (telemetry_record _ left.1 left.2) (telemetry_record _ right.1 right.2) (by rfl) first second
      simp_all [tenantTelemetryFields,Subtype.ext_iff]
    · have same := record_injective (live_record left) (live_record right) rfl first second
      simp_all [liveAttestationFields]
    · have same := record_injective (host_record _ left) (host_record _ right) (by rfl) first second
      simp_all [hostAttestorFields,Subtype.ext_iff]
  · exact absurd rfl (preimages_apart kind left right first second)

end Request

theorem digests_bind (sha256 : List UInt8 → Bytes32) :
    (∀ one two : Request, one.protocol ≠ .tenant → two.protocol ≠ .tenant → one.Short → two.Short →
      (∀ x ∈ one.preimage, ∀ y ∈ two.preimage, sha256 x = sha256 y → x = y) →
      (one.reportData sha256).isSome = true ∧ (one.reportData sha256 = two.reportData sha256 → one = two) ∧
        (one.protocol ≠ two.protocol → ∀ x ∈ one.preimage, ∀ y ∈ two.preimage, sha256 x ≠ sha256 y)) ∧
    ∀ one two : Userdata, one.Short → two.Short → (sha256 one.preimage = sha256 two.preimage → one.preimage = two.preimage) →
      one.digest sha256 = two.digest sha256 → one = two := by
  constructor
  · intro one two hashes hashes' left right collisionFree
    obtain ⟨x,first⟩ := Request.preimage_some hashes left
    obtain ⟨y,second⟩ := Request.preimage_some hashes' right
    rw [Request.reportData_eq first,Request.reportData_eq second]
    refine ⟨rfl,?_,?_⟩
    · intro same
      obtain ⟨nonces,halves⟩ := layout_inj (Option.some.inj same)
      cases collisionFree x first y second halves
      exact Request.preimage_inj left right nonces first second
    · intro different x first y second halves
      exact Request.preimages_apart different left right first second (collisionFree x first y second halves)
  · intro one two left right collisionFree same
    exact Userdata.preimage_inj left right (collisionFree same)

def parcel (plaintext : List UInt8) : Userdata := ⟨node,node,node,node,node,0,plaintext⟩

theorem digests_bind_parcels : enrolment.reportData checksum ≠ (sample .liveAttestation).reportData checksum ∧
    (parcel [1]).digest checksum ≠ (parcel [2]).digest checksum := by
  obtain ⟨reports,digests⟩ := digests_bind checksum
  constructor
  · intro same
    have bound := (reports enrolment (sample .liveAttestation) (by decide) (by decide) (sample_short .hostAttestor).2 (sample_short _).2
      (by decide +kernel)).2.1 same
    cases bound
  · intro same
    cases digests (parcel [1]) (parcel [2]) (by simp [Userdata.Short,parcel,node]) (by simp [Userdata.Short,parcel,node])
      (by decide +kernel) same

end TheBrain.HippiusTypes.ReportData
