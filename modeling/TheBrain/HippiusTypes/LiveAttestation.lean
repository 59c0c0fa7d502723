import TheBrain.HippiusTypes.Cbor
import TheBrain.Library.Machine
import TheBrain.Library.StorageMap

namespace TheBrain.HippiusTypes
open Library Machine Words Cbor List StorageMap

def liveAttestationDomain : String := "HIPPIUS_LIVE_ATTESTATION_V1"

def liveAttestationSchemaVersion : Word 32 := 1

def digestLen : Nat := 32
def measurementLen : Nat := 48

structure LiveAttestation (H : Type) where
  schemaVersion : Word 32
  chainGenesis : H
  palletInstance : H
  vmId : Text
  nodeId : H
  attestationSeq : Word 64
  epoch : Word 64
  observedAtUnix : Word 64
  verifiedAtUnix : Word 64
  snpReportDigest : H
  vcekChainDigest : H
  measurement : {m : List UInt8 // m.length = measurementLen}
  prevAttestationHash : H
  expiryUnix : Word 64
  signerPubkey : H

inductive SchemaError where
  | unknownSchemaVersion (version : Nat)
  | emptyVmId | zeroAttestationSeq | zeroObservedAt | invertedWindow | expiryBeforeVerified
  | encode | body | decode
  | notMap | keyNotText | duplicateKey (name : List UInt8) | wrongDomain (domain : List UInt8)
  | missingField (key : String) | notText (key : String) | notBytes (key : String) | notInteger (key : String)
  | wrongLength (key : String) (want got : Nat) | outOfU64 (key : String) | outOfU32 (key : String)
  | unknownField

abbrev Fields := StorageMap (List UInt8) Value

def insertField (fields : Fields) (entry : Value × Value) : Except SchemaError Fields :=
  match entry.1 with
  | .text name => if (fields.lookup name.val).isSome then .error (.duplicateKey name.val) else .ok (fields.insert name.val entry.2)
  | _ => .error .keyNotText

def intoStringMap : Value → Except SchemaError Fields
  | .map entries => entries.foldlM insertField ∅
  | _ => .error .notMap

-- A taken field is removed, so that what is left at the end is unknown.
def take (fields : Fields) (key : String) : Except SchemaError (Value × Fields) := do
  let value ← okOr (fields.lookup (ascii key)) (.missingField key)
  .ok (value,fields.erase (ascii key))

def takeText (fields : Fields) (key : String) : Except SchemaError (Text × Fields) := do
  let (value,fields) ← take fields key
  match value with
  | .text t => .ok (t,fields)
  | _ => .error (.notText key)

def takeBytes (fields : Fields) (key : String) : Except SchemaError (List UInt8 × Fields) := do
  let (value,fields) ← take fields key
  match value with
  | .bytes b => .ok (b,fields)
  | _ => .error (.notBytes key)

def takeU64 (fields : Fields) (key : String) : Except SchemaError (Word 64 × Fields) := do
  let (value,fields) ← take fields key
  match value with
  | .unsigned n => .ok (n,fields)
  | .negative _ => .error (.outOfU64 key)
  | _ => .error (.notInteger key)

def takeU32 (fields : Fields) (key : String) : Except SchemaError (Word 32 × Fields) := do
  let (n,fields) ← takeU64 fields key
  if fits : n.val < 2 ^ 32 then .ok (⟨n.val,fits⟩,fields) else .error (.outOfU32 key)

def rejectLeftover (fields : Fields) : Except SchemaError Unit := ensure (fields.keys = []) .unknownField

namespace LiveAttestation
variable (digest : Digest H)

def takeDigest (fields : Fields) (key : String) : Except SchemaError (H × Fields) := do
  let (bytes,fields) ← takeBytes fields key
  let value ← okOr (digest.parse bytes) (.wrongLength key digestLen bytes.length)
  .ok (value,fields)

def takeMeasurement (fields : Fields) (key : String) :
    Except SchemaError ({m : List UInt8 // m.length = measurementLen} × Fields) := do
  let (bytes,fields) ← takeBytes fields key
  if sized : bytes.length = measurementLen then .ok (⟨bytes,sized⟩,fields)
  else .error (.wrongLength key measurementLen bytes.length)

def validate (a : LiveAttestation H) : Except SchemaError Unit := do
  ensure (a.schemaVersion = liveAttestationSchemaVersion) (.unknownSchemaVersion a.schemaVersion)
  ensure (a.vmId.val ≠ []) .emptyVmId
  ensure (a.attestationSeq ≠ 0) .zeroAttestationSeq
  ensure (a.observedAtUnix ≠ 0) .zeroObservedAt
  ensure (a.observedAtUnix ≤ a.verifiedAtUnix) .invertedWindow
  ensure (a.verifiedAtUnix < a.expiryUnix) .expiryBeforeVerified

def fields (a : LiveAttestation H) : List (String × Value) :=
  [("attestation_seq",.unsigned a.attestationSeq),
   ("chain_genesis",.bytes (digest.bytes a.chainGenesis)),
   ("domain",label liveAttestationDomain),
   ("epoch",.unsigned a.epoch),
   ("expiry_unix",.unsigned a.expiryUnix),
   ("measurement",.bytes a.measurement.val),
   ("node_id",.bytes (digest.bytes a.nodeId)),
   ("observed_at_unix",.unsigned a.observedAtUnix),
   ("pallet_instance",.bytes (digest.bytes a.palletInstance)),
   ("prev_attestation_hash",.bytes (digest.bytes a.prevAttestationHash)),
   ("schema_version",.unsigned ⟨a.schemaVersion,a.schemaVersion.isLt.trans (by decide)⟩),
   ("signer_pubkey",.bytes (digest.bytes a.signerPubkey)),
   ("snp_report_digest",.bytes (digest.bytes a.snpReportDigest)),
   ("vcek_chain_digest",.bytes (digest.bytes a.vcekChainDigest)),
   ("verified_at_unix",.unsigned a.verifiedAtUnix),
   ("vm_id",.text a.vmId)]

def canonical (a : LiveAttestation H) : Except SchemaError (List UInt8) := do
  a.validate
  okOr (toCanonicalVec (record (a.fields digest))) .encode

def decode (body : List UInt8) : Except SchemaError (LiveAttestation H) := do
  ensure (assertCanonical body = true) .body
  let value ← okOr (Cbor.decode body) .decode
  let fields ← intoStringMap value
  let (domain,fields) ← takeText fields "domain"
  ensure (domain.val = ascii liveAttestationDomain) (.wrongDomain domain.val)
  let (schemaVersion,fields) ← takeU32 fields "schema_version"
  ensure (schemaVersion = liveAttestationSchemaVersion) (.unknownSchemaVersion schemaVersion)
  let (chainGenesis,fields) ← takeDigest digest fields "chain_genesis"
  let (palletInstance,fields) ← takeDigest digest fields "pallet_instance"
  let (vmId,fields) ← takeText fields "vm_id"
  let (nodeId,fields) ← takeDigest digest fields "node_id"
  let (attestationSeq,fields) ← takeU64 fields "attestation_seq"
  let (epoch,fields) ← takeU64 fields "epoch"
  let (observedAtUnix,fields) ← takeU64 fields "observed_at_unix"
  let (verifiedAtUnix,fields) ← takeU64 fields "verified_at_unix"
  let (snpReportDigest,fields) ← takeDigest digest fields "snp_report_digest"
  let (vcekChainDigest,fields) ← takeDigest digest fields "vcek_chain_digest"
  let (measurement,fields) ← takeMeasurement fields "measurement"
  let (prevAttestationHash,fields) ← takeDigest digest fields "prev_attestation_hash"
  let (expiryUnix,fields) ← takeU64 fields "expiry_unix"
  let (signerPubkey,fields) ← takeDigest digest fields "signer_pubkey"
  rejectLeftover fields
  let a : LiveAttestation H := ⟨schemaVersion,chainGenesis,palletInstance,vmId,nodeId,attestationSeq,epoch,observedAtUnix,
    verifiedAtUnix,snpReportDigest,vcekChainDigest,measurement,prevAttestationHash,expiryUnix,signerPubkey⟩
  a.validate
  .ok a

end LiveAttestation

theorem label_text (valid : utf8 (ascii name) = true) : label name = .text ⟨ascii name,valid⟩ := by
  unfold label toText
  rw [dif_pos valid]

theorem insertFields_ok (entries : List (Value × Value)) (start : Fields)
    (texts : ∀ e ∈ entries, ∃ t : Text, e.1 = .text t ∧ start.lookup t.val = none)
    (distinct : (entries.map Prod.fst).Nodup) :
    ∃ filled, entries.foldlM insertField start = .ok filled ∧
      ∀ key value, filled.lookup key = some value ↔
        start.lookup key = some value ∨ ∃ t : Text, t.val = key ∧ (.text t,value) ∈ entries := by
  induction entries generalizing start with
  | nil => exact ⟨start,rfl,fun key value => by simp⟩
  | cons e entries ih =>
    obtain ⟨name,value⟩ := e
    obtain ⟨t,rfl,absent⟩ := texts (name,value) (mem_cons_self ..)
    obtain ⟨fresh,others⟩ := nodup_cons.mp distinct
    have inserted : insertField start (.text t,value) = .ok (start.insert t.val value) := by
      simp [insertField,absent]
    have later : ∀ e ∈ entries, ∃ u : Text, e.1 = .text u ∧ (start.insert t.val value).lookup u.val = none := by
      intro e mem
      obtain ⟨u,same,missing⟩ := texts e (mem_cons_of_mem _ mem)
      refine ⟨u,same,?_⟩
      have apart : u.val ≠ t.val := by
        intro equal
        rw [Subtype.ext equal] at same
        exact fresh (mem_map.mpr ⟨e,mem,same⟩)
      rw [AList.lookup_insert_ne apart]
      exact missing
    obtain ⟨filled,ran,lookups⟩ := ih (start.insert t.val value) later others
    refine ⟨filled,?_,?_⟩
    · rw [foldlM_cons,inserted]
      exact ran
    · intro key item
      rw [lookups,lookup_insert_if]
      constructor
      · rintro (here | ⟨u,named,mem⟩)
        · split at here
          next same =>
            cases here
            exact .inr ⟨t,same.symm,mem_cons_self ..⟩
          · exact .inl here
        · exact .inr ⟨u,named,mem_cons_of_mem _ mem⟩
      · rintro (before | ⟨u,named,mem⟩)
        · left
          rw [if_neg]
          · exact before
          · intro same
            rw [same,absent] at before
            cases before
        · rcases mem_cons.mp mem with here | further
          · obtain ⟨same,rfl⟩ := Prod.mk.inj here
            cases same
            left
            rw [if_pos named.symm]
          · exact .inr ⟨u,named,further⟩

def dropped (fields : Fields) (taken : List String) : Fields := taken.foldl (fun fields key => fields.erase (ascii key)) fields

theorem dropped_snoc (fields : Fields) (taken : List String) (key : String) :
    dropped fields (taken ++ [key]) = (dropped fields taken).erase (ascii key) := by
  simp [dropped]

theorem lookup_dropped (fields : Fields) (taken : List String) (key : List UInt8) :
    (dropped fields taken).lookup key = if key ∈ taken.map ascii then none else fields.lookup key := by
  induction taken using reverseRecOn with
  | nil => simp [dropped]
  | append_singleton _ last ih =>
    rw [dropped_snoc,lookup_erase_if,ih]
    by_cases same : key = ascii last
    · simp [same]
    · simp [same]

section
variable {fields : Fields} {key : String} (taken : List String)

theorem take_dropped (found : fields.lookup (ascii key) = some value) (fresh : ascii key ∉ taken.map ascii) :
    take (dropped fields taken) key = .ok (value,dropped fields (taken ++ [key])) := by
  have here : (dropped fields taken).lookup (ascii key) = some value := by
    rw [lookup_dropped,if_neg fresh,found]
  simp [take,here,okOr,dropped_snoc,bind,Except.bind]

theorem takeText_dropped (found : fields.lookup (ascii key) = some (.text t)) (fresh : ascii key ∉ taken.map ascii) :
    takeText (dropped fields taken) key = .ok (t,dropped fields (taken ++ [key])) := by
  rw [takeText,take_dropped taken found fresh]
  rfl

theorem takeU64_dropped (found : fields.lookup (ascii key) = some (.unsigned n)) (fresh : ascii key ∉ taken.map ascii) :
    takeU64 (dropped fields taken) key = .ok (n,dropped fields (taken ++ [key])) := by
  rw [takeU64,take_dropped taken found fresh]
  rfl

theorem takeU32_dropped {n : Word 64} (found : fields.lookup (ascii key) = some (.unsigned n)) (fits : n.val < 2 ^ 32)
    (fresh : ascii key ∉ taken.map ascii) :
    takeU32 (dropped fields taken) key = .ok (⟨n.val,fits⟩,dropped fields (taken ++ [key])) := by
  rw [takeU32,takeU64_dropped taken found fresh]
  exact dif_pos fits

theorem takeBytes_dropped (found : fields.lookup (ascii key) = some (.bytes b)) (fresh : ascii key ∉ taken.map ascii) :
    takeBytes (dropped fields taken) key = .ok (b,dropped fields (taken ++ [key])) := by
  rw [takeBytes,take_dropped taken found fresh]
  rfl

theorem takeDigest_dropped (digest : Digest H) {h : H} (found : fields.lookup (ascii key) = some (.bytes (digest.bytes h)))
    (fresh : ascii key ∉ taken.map ascii) :
    LiveAttestation.takeDigest digest (dropped fields taken) key = .ok (h,dropped fields (taken ++ [key])) := by
  rw [LiveAttestation.takeDigest,takeBytes_dropped taken found fresh]
  simp [bind,Except.bind,digest.parse_bytes,okOr]

theorem takeMeasurement_dropped (m : {m : List UInt8 // m.length = measurementLen})
    (found : fields.lookup (ascii key) = some (.bytes m.val)) (fresh : ascii key ∉ taken.map ascii) :
    LiveAttestation.takeMeasurement (dropped fields taken) key = .ok (m,dropped fields (taken ++ [key])) := by
  rw [LiveAttestation.takeMeasurement,takeBytes_dropped taken found fresh]
  simp [bind,Except.bind,m.property]

end

namespace LiveAttestation
variable (digest : Digest H)

def names : List String :=
  ["attestation_seq","chain_genesis","domain","epoch","expiry_unix","measurement","node_id","observed_at_unix","pallet_instance",
   "prev_attestation_hash","schema_version","signer_pubkey","snp_report_digest","vcek_chain_digest","verified_at_unix","vm_id"]

theorem names_fields (a : LiveAttestation H) : (a.fields digest).map Prod.fst = names := rfl

theorem names_checked : (names.map fun name => encode (label name)).Nodup ∧ (∀ name ∈ names, (ascii name).length < 2 ^ 64) ∧
    ∀ name ∈ liveAttestationDomain :: names, utf8 (ascii name) = true := by decide +kernel

theorem names_distinct : (names.map fun name => encode (label name)).Nodup := names_checked.1

theorem names_valid : ∀ name ∈ names, utf8 (ascii name) = true :=
  fun name mem => names_checked.2.2 name (mem_cons_of_mem _ mem)

theorem fields_record (a : LiveAttestation H) (short : a.vmId.val.length < 2 ^ 64) : Record (a.fields digest) := by
  refine .of_names names (names_fields digest a) (by decide) ⟨names_distinct,names_checked.2.1⟩ ?_
  have domain : Fits (label liveAttestationDomain) := fits_label (by simp [ascii,liveAttestationDomain])
  have sized : a.measurement.val.length < 2 ^ 64 := by
    rw [a.measurement.property]
    decide
  intro value mem
  simp only [fields,map_cons,map_nil,mem_cons,not_mem_nil,or_false] at mem
  rcases mem with rfl | rfl | rfl | rfl | rfl | rfl | rfl | rfl | rfl | rfl | rfl | rfl | rfl | rfl | rfl | rfl
  all_goals first
    | exact ⟨atom_label _,domain⟩ | exact ⟨rfl,digest.bytes_short _⟩ | exact ⟨rfl,True.intro⟩ | exact ⟨rfl,sized⟩ | exact ⟨rfl,short⟩

theorem intoStringMap_sorted (a : LiveAttestation H) :
    ∃ filled, intoStringMap (.map (sortEntries ((a.fields digest).map entry))) = .ok filled ∧
      (∀ field ∈ a.fields digest, filled.lookup (ascii field.1) = some field.2) ∧
      ∀ key value, filled.lookup key = some value → key ∈ names.map ascii := by
  have named : ∀ field ∈ a.fields digest, field.1 ∈ names := by
    intro field mem
    have named := mem_map_of_mem (f := Prod.fst) mem
    exact named
  have sorted : ∀ e, e ∈ sortEntries ((a.fields digest).map entry) ↔ e ∈ (a.fields digest).map entry := by
    intro e
    rw [sortEntries,mem_insertionSort]
  have distinct : ((sortEntries ((a.fields digest).map entry)).map Prod.fst).Nodup := by
    have keys := ((perm_insertionSort keyLe ((a.fields digest).map entry)).map Prod.fst).nodup_iff
    refine keys.mpr (Nodup.of_map encode ?_)
    have plain := names_distinct
    rw [← names_fields digest a,map_map] at plain
    rw [map_map,map_map]
    exact plain
  obtain ⟨filled,ran,lookups⟩ := insertFields_ok _ ∅ (by
    intro e mem
    obtain ⟨field,listed,rfl⟩ := mem_map.mp ((sorted e).mp mem)
    exact ⟨_,label_text (names_valid field.1 (named field listed)),rfl⟩) distinct
  refine ⟨filled,ran,?_,?_⟩
  · intro field mem
    refine (lookups _ _).mpr (.inr ⟨⟨ascii field.1,names_valid field.1 (named field mem)⟩,rfl,?_⟩)
    rw [sorted,← label_text]
    exact mem_map_of_mem mem
  · intro key value found
    rcases (lookups key value).mp found with empty | ⟨_,rfl,mem⟩
    · cases empty
    · obtain ⟨field,listed,same⟩ := mem_map.mp ((sorted _).mp mem)
      have labelled := (Prod.mk.inj same).1
      rw [label_text (names_valid field.1 (named field listed))] at labelled
      cases labelled
      exact mem_map_of_mem (named field listed)

theorem domain_valid : utf8 (ascii liveAttestationDomain) = true := names_checked.2.2 _ mem_cons_self

theorem leftover_none {fields : Fields} (all : ∀ key value, fields.lookup key = some value → key ∈ taken.map ascii) :
    rejectLeftover (dropped fields taken) = .ok () := by
  have missing : ∀ key, (dropped fields taken).lookup key = none := by
    intro key
    rw [lookup_dropped]
    split
    · rfl
    next fresh =>
      cases found : fields.lookup key with
      | none => rfl
      | some value => exact absurd (all key value found) fresh
  have empty : (dropped fields taken).keys = [] := by
    refine eq_nil_iff_forall_not_mem.mpr ?_
    intro key mem
    exact AList.lookup_eq_none.mp (missing key) (AList.mem_keys.mpr mem)
  simp [rejectLeftover,empty]

def readOrder : List String :=
  ["domain","schema_version","chain_genesis","pallet_instance","vm_id","node_id","attestation_seq","epoch","observed_at_unix",
   "verified_at_unix","snp_report_digest","vcek_chain_digest","measurement","prev_attestation_hash","expiry_unix","signer_pubkey"]

theorem readOrder_checked : (∀ name ∈ names, name ∈ readOrder) ∧
    ∀ i < readOrder.length, ascii (readOrder.getD i "") ∉ (readOrder.take i).map ascii := by decide +kernel

theorem read_fresh : ∀ i < readOrder.length, ascii (readOrder.getD i "") ∉ (readOrder.take i).map ascii := readOrder_checked.2

theorem decode_canonical (a : LiveAttestation H) (short : a.vmId.val.length < 2 ^ 64)
    (encoded : a.canonical digest = .ok body) : decode digest body = .ok a := by
  simp only [canonical,passes] at encoded
  obtain ⟨valid,encoded⟩ := encoded
  obtain ⟨read,checked⟩ := record_decodes (fields_record digest a short) encoded
  obtain ⟨filled,mapped,lookups,only⟩ := intoStringMap_sorted digest a
  have versioned : a.schemaVersion = liveAttestationSchemaVersion := by
    simp only [validate,passes] at valid
    exact valid.1
  have finished : rejectLeftover (dropped filled readOrder) = .ok () := by
    refine leftover_none ?_
    intro key value found
    obtain ⟨name,named,rfl⟩ := mem_map.mp (only key value found)
    exact mem_map_of_mem (readOrder_checked.1 name named)
  simp only [fields,forall_mem_cons,not_mem_nil,false_implies,implies_true,and_true] at lookups
  obtain ⟨seq,genesis,domain,epoch,expiry,measurement,node,observed,pallet,prev,version,signer,snp,vcek,verified,vm⟩ := lookups
  rw [label_text domain_valid] at domain
  refine bind_ok.mpr ⟨(),ensure_ok.mpr checked,?_⟩
  refine bind_ok.mpr ⟨_,okOr_ok.mpr read,?_⟩
  refine bind_ok.mpr ⟨filled,mapped,?_⟩
  refine bind_ok.mpr ⟨_,takeText_dropped [] domain (read_fresh 0 (by decide)),?_⟩
  refine bind_ok.mpr ⟨(),ensure_ok.mpr rfl,?_⟩
  refine bind_ok.mpr ⟨_,takeU32_dropped (readOrder.take 1) version a.schemaVersion.isLt (read_fresh 1 (by decide)),?_⟩
  refine bind_ok.mpr ⟨(),ensure_ok.mpr versioned,?_⟩
  refine bind_ok.mpr ⟨_,takeDigest_dropped (readOrder.take 2) digest genesis (read_fresh 2 (by decide)),?_⟩
  refine bind_ok.mpr ⟨_,takeDigest_dropped (readOrder.take 3) digest pallet (read_fresh 3 (by decide)),?_⟩
  refine bind_ok.mpr ⟨_,takeText_dropped (readOrder.take 4) vm (read_fresh 4 (by decide)),?_⟩
  refine bind_ok.mpr ⟨_,takeDigest_dropped (readOrder.take 5) digest node (read_fresh 5 (by decide)),?_⟩
  refine bind_ok.mpr ⟨_,takeU64_dropped (readOrder.take 6) seq (read_fresh 6 (by decide)),?_⟩
  refine bind_ok.mpr ⟨_,takeU64_dropped (readOrder.take 7) epoch (read_fresh 7 (by decide)),?_⟩
  refine bind_ok.mpr ⟨_,takeU64_dropped (readOrder.take 8) observed (read_fresh 8 (by decide)),?_⟩
  refine bind_ok.mpr ⟨_,takeU64_dropped (readOrder.take 9) verified (read_fresh 9 (by decide)),?_⟩
  refine bind_ok.mpr ⟨_,takeDigest_dropped (readOrder.take 10) digest snp (read_fresh 10 (by decide)),?_⟩
  refine bind_ok.mpr ⟨_,takeDigest_dropped (readOrder.take 11) digest vcek (read_fresh 11 (by decide)),?_⟩
  refine bind_ok.mpr ⟨_,takeMeasurement_dropped (readOrder.take 12) a.measurement measurement (read_fresh 12 (by decide)),?_⟩
  refine bind_ok.mpr ⟨_,takeDigest_dropped (readOrder.take 13) digest prev (read_fresh 13 (by decide)),?_⟩
  refine bind_ok.mpr ⟨_,takeU64_dropped (readOrder.take 14) expiry (read_fresh 14 (by decide)),?_⟩
  refine bind_ok.mpr ⟨_,takeDigest_dropped (readOrder.take 15) digest signer (read_fresh 15 (by decide)),?_⟩
  refine bind_ok.mpr ⟨(),finished,?_⟩
  exact bind_ok.mpr ⟨(),valid,rfl⟩

end LiveAttestation
end TheBrain.HippiusTypes
