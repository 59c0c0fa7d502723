import TheBrain.HippiusTypes.Cbor
import TheBrain.HippiusTypes.LiveAttestation

namespace TheBrain.HippiusTypes
open Library Machine Words Cbor List

theorem toCanonicalVec_perm (same : one.Perm two) : toCanonicalVec (.map one) = toCanonicalVec (.map two) := by
  rw [toCanonicalVec,toCanonicalVec,canonicalize_map,canonicalize_map,canonicalizePairs_perm same]

theorem insertField_ok {fields filled : Fields} (ran : insertField fields e = .ok filled) :
    ∃ name : Text, e.1 = .text name ∧ fields.lookup name.val = none ∧ filled = fields.insert name.val e.2 := by
  unfold insertField at ran
  split at ran
  next name named =>
    split at ran
    · cases ran
    next absent =>
      cases ran
      exact ⟨name,named,Option.not_isSome_iff_eq_none.mp absent,rfl⟩
  · cases ran

theorem insertFields_sound (entries : List (Value × Value)) {start filled : Fields}
    (ran : entries.foldlM insertField start = .ok filled) :
    (∀ e ∈ entries, ∃ t : Text, e.1 = .text t ∧ start.lookup t.val = none) ∧ (entries.map Prod.fst).Nodup := by
  induction entries generalizing start with
  | nil => exact ⟨nofun,nodup_nil⟩
  | cons e _ ih =>
    simp only [foldlM_cons,bind_ok] at ran
    obtain ⟨_,first,rest⟩ := ran
    obtain ⟨name,named,absent,rfl⟩ := insertField_ok first
    obtain ⟨texts,distinct⟩ := ih rest
    have apart : ∀ t : Text, (start.insert name.val e.2).lookup t.val = none → t.val ≠ name.val ∧ start.lookup t.val = none := by
      intro t missing
      exact StorageMap.insert_absent missing
    refine ⟨?_,?_⟩
    · intro other mem
      rcases mem_cons.mp mem with rfl | further
      · exact ⟨name,named,absent⟩
      · obtain ⟨t,same,missing⟩ := texts other further
        exact ⟨t,same,(apart t missing).2⟩
    · rw [map_cons,nodup_cons]
      refine ⟨?_,distinct⟩
      intro again
      obtain ⟨other,mem,same⟩ := mem_map.mp again
      obtain ⟨_,text,missing⟩ := texts other mem
      rw [text,named] at same
      cases same
      exact (apart name missing).1 rfl

theorem intoStringMap_sound {filled : Fields} (ran : intoStringMap value = .ok filled) :
    ∃ entries, value = .map entries ∧ entries.Nodup ∧
      ∀ key item, (key,item) ∈ entries ↔ ∃ t : Text, key = .text t ∧ filled.lookup t.val = some item := by
  unfold intoStringMap at ran
  split at ran
  next entries =>
    obtain ⟨texts,distinct⟩ := insertFields_sound entries ran
    obtain ⟨same,again,lookups⟩ := insertFields_ok entries ∅ texts distinct
    rw [ran] at again
    cases again
    refine ⟨entries,rfl,Nodup.of_map Prod.fst distinct,?_⟩
    intro key item
    constructor
    · intro mem
      obtain ⟨t,text,_⟩ := texts (key,item) mem
      subst text
      exact ⟨t,rfl,(lookups t.val item).mpr (.inr ⟨t,rfl,mem⟩)⟩
    · rintro ⟨t,rfl,found⟩
      rcases (lookups t.val item).mp found with empty | ⟨_,same,mem⟩
      · cases empty
      · rw [Subtype.ext same] at mem
        exact mem
  · cases ran

section
variable {fields rest : Fields} {key : String} {taken : List String}

theorem take_found (ran : take (dropped fields taken) key = .ok (value,rest)) :
    fields.lookup (ascii key) = some value ∧ rest = dropped fields (taken ++ [key]) := by
  simp only [take,passes] at ran
  obtain ⟨_,found,rfl,rfl⟩ := ran
  rw [lookup_dropped] at found
  split at found
  · cases found
  · exact ⟨found,(dropped_snoc fields taken key).symm⟩

theorem takeText_found (ran : takeText (dropped fields taken) key = .ok (t,rest)) :
    fields.lookup (ascii key) = some (.text t) ∧ rest = dropped fields (taken ++ [key]) := by
  simp only [takeText,bind_ok] at ran
  obtain ⟨⟨value,_⟩,takes,typed⟩ := ran
  cases value with
  | text =>
    cases typed
    exact take_found takes
  | _ => cases typed

theorem takeBytes_found (ran : takeBytes (dropped fields taken) key = .ok (b,rest)) :
    fields.lookup (ascii key) = some (.bytes b) ∧ rest = dropped fields (taken ++ [key]) := by
  simp only [takeBytes,bind_ok] at ran
  obtain ⟨⟨value,_⟩,takes,typed⟩ := ran
  cases value with
  | bytes =>
    cases typed
    exact take_found takes
  | _ => cases typed

theorem takeU64_found (ran : takeU64 (dropped fields taken) key = .ok (n,rest)) :
    fields.lookup (ascii key) = some (.unsigned n) ∧ rest = dropped fields (taken ++ [key]) := by
  simp only [takeU64,bind_ok] at ran
  obtain ⟨⟨value,_⟩,takes,typed⟩ := ran
  cases value with
  | unsigned =>
    cases typed
    exact take_found takes
  | _ => cases typed

theorem takeU32_found {n : Word 32} (ran : takeU32 (dropped fields taken) key = .ok (n,rest)) :
    fields.lookup (ascii key) = some (.unsigned ⟨n,n.isLt.trans (by decide)⟩) ∧ rest = dropped fields (taken ++ [key]) := by
  simp only [takeU32,bind_ok] at ran
  obtain ⟨⟨_,_⟩,takes,narrow⟩ := ran
  split at narrow
  · cases narrow
    exact takeU64_found takes
  · cases narrow

theorem takeDigest_found {digest : Digest H} (ran : LiveAttestation.takeDigest digest (dropped fields taken) key = .ok (h,rest)) :
    fields.lookup (ascii key) = some (.bytes (digest.bytes h)) ∧ rest = dropped fields (taken ++ [key]) := by
  simp only [LiveAttestation.takeDigest,passes] at ran
  obtain ⟨⟨bytes,_⟩,takes,_,parsed,same⟩ := ran
  cases same
  rw [digest.bytes_parse bytes h parsed]
  exact takeBytes_found takes

theorem takeMeasurement_found (ran : LiveAttestation.takeMeasurement (dropped fields taken) key = .ok (m,rest)) :
    fields.lookup (ascii key) = some (.bytes m.val) ∧ rest = dropped fields (taken ++ [key]) := by
  simp only [LiveAttestation.takeMeasurement,bind_ok] at ran
  obtain ⟨⟨_,_⟩,takes,sized⟩ := ran
  split at sized
  · cases sized
    exact takeBytes_found takes
  · cases sized

theorem leftover_found (ran : rejectLeftover (dropped fields taken) = .ok ()) (found : fields.lookup key' = some value) :
    key' ∈ taken.map ascii := by
  by_contra fresh
  have here := lookup_dropped fields taken key'
  rw [if_neg fresh,found] at here
  have mem : key' ∈ (dropped fields taken).keys := by
    refine AList.mem_keys.mp (AList.lookup_isSome.mp ?_)
    rw [here]
    rfl
  simp only [rejectLeftover,ensure_ok] at ran
  rw [ran] at mem
  cases mem

end

namespace LiveAttestation
variable (digest : Digest H)

theorem readOrder_names : ∀ name ∈ readOrder, name ∈ names := by simp [readOrder,names]

theorem entries_perm {a : LiveAttestation H} {filled : Fields} {entries : List (Value × Value)} (distinct : entries.Nodup)
    (listed : ∀ key item, (key,item) ∈ entries ↔ ∃ t : Text, key = .text t ∧ filled.lookup t.val = some item)
    (held : ∀ field ∈ a.fields digest, filled.lookup (ascii field.1) = some field.2)
    (only : ∀ key item, filled.lookup key = some item → key ∈ readOrder.map ascii) :
    entries.Perm ((a.fields digest).map entry) := by
  have single : ((a.fields digest).map entry).Nodup := by
    have plain := names_distinct
    rw [← names_fields digest a,map_map] at plain
    refine Nodup.of_map (fun e => encode e.1) ?_
    rw [map_map]
    exact plain
  have named : ∀ field ∈ a.fields digest, ∃ valid, label field.1 = .text ⟨ascii field.1,valid⟩ := by
    intro field mem
    have known := mem_map_of_mem (f := Prod.fst) mem
    exact ⟨_,label_text (names_valid field.1 known)⟩
  refine (perm_ext_iff_of_nodup distinct single).mpr ?_
  rintro ⟨_,item⟩
  rw [listed,mem_map]
  constructor
  · rintro ⟨t,rfl,found⟩
    obtain ⟨name,read,same⟩ := mem_map.mp (only t.val item found)
    have known := readOrder_names name read
    rw [← names_fields digest a] at known
    obtain ⟨field,mem,rfl⟩ := mem_map.mp known
    refine ⟨field,mem,?_⟩
    have value := held field mem
    rw [same,found] at value
    cases value
    obtain ⟨valid,labelled⟩ := named field mem
    rw [entry,labelled]
    exact congrArg (fun u => (Value.text u,field.2)) (Subtype.ext same)
  · rintro ⟨field,mem,same⟩
    obtain ⟨rfl,rfl⟩ := Prod.mk.inj same
    obtain ⟨_,labelled⟩ := named field mem
    exact ⟨_,labelled,held field mem⟩

theorem decode_fields {a : LiveAttestation H} (ran : decode digest body = .ok a) :
    assertCanonical body = true ∧ a.validate = .ok () ∧ ∃ value filled, Cbor.decode body = some value ∧
      intoStringMap value = .ok filled ∧ (∀ field ∈ a.fields digest, filled.lookup (ascii field.1) = some field.2) ∧
      ∀ key item, filled.lookup key = some item → key ∈ readOrder.map ascii := by
  simp only [decode,passes] at ran
  obtain ⟨checked,value,read,filled,mapped,⟨domain,_⟩,takes,tagged,ran⟩ := ran
  have first : takeText (dropped filled []) "domain" = .ok (domain,_) := takes
  obtain ⟨tag,rfl⟩ := takeText_found first
  obtain ⟨⟨_,_⟩,takes,_,ran⟩ := ran
  obtain ⟨schemaVersion,rfl⟩ := takeU32_found takes
  obtain ⟨⟨_,_⟩,takes,ran⟩ := ran
  obtain ⟨chainGenesis,rfl⟩ := takeDigest_found takes
  obtain ⟨⟨_,_⟩,takes,ran⟩ := ran
  obtain ⟨palletInstance,rfl⟩ := takeDigest_found takes
  obtain ⟨⟨_,_⟩,takes,ran⟩ := ran
  obtain ⟨vmId,rfl⟩ := takeText_found takes
  obtain ⟨⟨_,_⟩,takes,ran⟩ := ran
  obtain ⟨nodeId,rfl⟩ := takeDigest_found takes
  obtain ⟨⟨_,_⟩,takes,ran⟩ := ran
  obtain ⟨attestationSeq,rfl⟩ := takeU64_found takes
  obtain ⟨⟨_,_⟩,takes,ran⟩ := ran
  obtain ⟨epoch,rfl⟩ := takeU64_found takes
  obtain ⟨⟨_,_⟩,takes,ran⟩ := ran
  obtain ⟨observedAtUnix,rfl⟩ := takeU64_found takes
  obtain ⟨⟨_,_⟩,takes,ran⟩ := ran
  obtain ⟨verifiedAtUnix,rfl⟩ := takeU64_found takes
  obtain ⟨⟨_,_⟩,takes,ran⟩ := ran
  obtain ⟨snpReportDigest,rfl⟩ := takeDigest_found takes
  obtain ⟨⟨_,_⟩,takes,ran⟩ := ran
  obtain ⟨vcekChainDigest,rfl⟩ := takeDigest_found takes
  obtain ⟨⟨_,_⟩,takes,ran⟩ := ran
  obtain ⟨measurement,rfl⟩ := takeMeasurement_found takes
  obtain ⟨⟨_,_⟩,takes,ran⟩ := ran
  obtain ⟨prevAttestationHash,rfl⟩ := takeDigest_found takes
  obtain ⟨⟨_,_⟩,takes,ran⟩ := ran
  obtain ⟨expiryUnix,rfl⟩ := takeU64_found takes
  obtain ⟨⟨_,_⟩,takes,leftover,valid,same⟩ := ran
  obtain ⟨signerPubkey,rfl⟩ := takeDigest_found takes
  cases same
  refine ⟨checked,valid,value,filled,read,mapped,?_,fun key item found => leftover_found leftover found⟩
  have domainField : label liveAttestationDomain = .text domain := by
    rw [label_text domain_valid]
    exact congrArg Value.text (Subtype.ext tagged.symm)
  simp only [fields,forall_mem_cons,not_mem_nil,false_implies,implies_true,and_true,domainField]
  exact ⟨attestationSeq,chainGenesis,tag,epoch,expiryUnix,measurement,nodeId,observedAtUnix,palletInstance,prevAttestationHash,
    schemaVersion,signerPubkey,snpReportDigest,vcekChainDigest,verifiedAtUnix,vmId⟩

theorem canonical_decode {a : LiveAttestation H} (ran : decode digest body = .ok a) : a.canonical digest = .ok body := by
  obtain ⟨checked,valid,_,_,read,mapped,held,only⟩ := decode_fields digest ran
  obtain ⟨entries,rfl,distinct,listed⟩ := intoStringMap_sound mapped
  have encoded : toCanonicalVec (.map entries) = some body := by
    rw [assertCanonical,read] at checked
    exact of_decide_eq_true checked
  rw [toCanonicalVec_perm (entries_perm digest distinct listed held only)] at encoded
  refine bind_ok.mpr ⟨(),valid,okOr_ok.mpr encoded⟩

theorem wire_format_bijective (digest : Digest H) :
    (∀ a : LiveAttestation H, a.vmId.val.length < 2 ^ 64 → a.validate = .ok () →
      ∃ body, a.canonical digest = .ok body ∧ decode digest body = .ok a) ∧
    ∀ (body : List UInt8) (a : LiveAttestation H), decode digest body = .ok a → a.canonical digest = .ok body := by
  refine ⟨?_,fun body a ran => canonical_decode digest ran⟩
  intro a short valid
  have encoded : a.canonical digest = .ok _ :=
    bind_ok.mpr ⟨(),valid,okOr_ok.mpr (record_encodes (fields_record digest a short))⟩
  exact ⟨_,encoded,decode_canonical digest a short encoded⟩

end LiveAttestation

def bytes32 : Digest {b : List UInt8 // b.length = digestLen} where
  zero := ⟨List.replicate digestLen 0,rfl⟩
  bytes := Subtype.val
  parse := fun b => if sized : b.length = digestLen then some ⟨b,sized⟩ else none
  bytes_short := by
    intro h
    rw [h.property]
    decide
  parse_bytes := fun h => dif_pos h.property
  bytes_parse := by
    intro b h parsed
    split at parsed
    · cases parsed
      rfl
    · cases parsed

namespace LiveAttestation

def filled (byte : UInt8) : {b : List UInt8 // b.length = digestLen} := ⟨List.replicate digestLen byte,rfl⟩

def second : LiveAttestation {b : List UInt8 // b.length = digestLen} where
  schemaVersion := 1
  chainGenesis := filled 1
  palletInstance := filled 2
  vmId := ⟨[118,109],by decide⟩
  nodeId := filled 3
  attestationSeq := 2
  epoch := 7
  observedAtUnix := 1000
  verifiedAtUnix := 1001
  snpReportDigest := filled 4
  vcekChainDigest := filled 5
  measurement := ⟨List.replicate measurementLen 6,rfl⟩
  prevAttestationHash := filled 8
  expiryUnix := 2000
  signerPubkey := filled 9

theorem wire_format_bijective_second : ∃ body, second.canonical bytes32 = .ok body ∧ decode bytes32 body = .ok second ∧
    ∀ other, decode bytes32 other = .ok second → other = body := by
  obtain ⟨written,unique⟩ := wire_format_bijective bytes32
  obtain ⟨body,encoded,decoded⟩ := written second (by decide) rfl
  refine ⟨body,encoded,decoded,?_⟩
  intro other ran
  have again := unique other second ran
  rw [encoded] at again
  exact (Except.ok.inj again).symm

end LiveAttestation
end TheBrain.HippiusTypes
