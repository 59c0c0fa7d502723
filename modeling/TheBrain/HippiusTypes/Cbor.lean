import Mathlib.Algebra.BigOperators.Group.List.Basic
import Mathlib.Data.List.Sort
import TheBrain.Library.Cbor

namespace TheBrain.HippiusTypes
open Library Words Cbor List

def keyLe (a b : Value × Value) : Prop := encode a.1 ≤ encode b.1

instance : DecidableRel keyLe := fun a b => inferInstanceAs (Decidable (encode a.1 ≤ encode b.1))

instance : Std.Total keyLe := ⟨fun a b => List.le_total (encode a.1) (encode b.1)⟩

instance : IsTrans (Value × Value) keyLe := ⟨fun _ _ _ => List.le_trans⟩

def sortEntries (entries : List (Value × Value)) : List (Value × Value) := entries.insertionSort keyLe

def duplicateKey : List (Value × Value) → Bool
  | a :: b :: rest => encode a.1 = encode b.1 || duplicateKey (b :: rest)
  | _ => false

mutual

-- Maps and arrays are rebuilt at every depth; a tagged item is left as it stands.
def canonicalize : Value → Option Value
  | .map entries => do
      let canon ← canonicalizePairs entries
      let sorted := sortEntries canon
      if duplicateKey sorted then none else some (.map sorted)
  | .array items => do
      let items ← canonicalizeAll items
      some (.array items)
  | other => some other

def canonicalizeAll : List Value → Option (List Value)
  | [] => some []
  | item :: items => do
      let item ← canonicalize item
      let items ← canonicalizeAll items
      some (item :: items)

def canonicalizePairs : List (Value × Value) → Option (List (Value × Value))
  | [] => some []
  | (key,item) :: entries => do
      let key ← canonicalize key
      let item ← canonicalize item
      let entries ← canonicalizePairs entries
      some ((key,item) :: entries)

end

def toCanonicalVec (value : Value) : Option (List UInt8) := (canonicalize value).map encode

def assertCanonical (bytes : List UInt8) : Bool :=
  match decode bytes with
  | some value => toCanonicalVec value = some bytes
  | none => false

-- A 32-byte array, as the signed records hold them. The records are proved about for
-- any such type, so that a hash into it may be free of collisions.
structure Digest (H : Type) where
  zero : H
  bytes : H → List UInt8
  parse : List UInt8 → Option H
  bytes_short : ∀ h, (bytes h).length < 2 ^ 64
  parse_bytes : ∀ h, parse (bytes h) = some h
  bytes_parse : ∀ b h, parse b = some h → bytes h = b

theorem Digest.bytes_injective (d : Digest H) (same : d.bytes one = d.bytes two) : one = two := by
  have first := d.parse_bytes one
  rw [same,d.parse_bytes two] at first
  exact (Option.some.inj first).symm

@[irreducible] def label (name : String) : Value :=
  match toText (ascii name) with
  | some t => .text t
  | none => .null

def entry (field : String × Value) : Value × Value := (label field.1,field.2)

def record (fields : List (String × Value)) : Value := .map (fields.map entry)

def atom : Value → Bool
  | .array _ | .map _ | .tag _ _ => false
  | _ => true

theorem atom_label (name : String) : atom (label name) = true := by
  unfold label
  split <;> rfl

theorem canonicalize_atom (flat : atom value = true) : canonicalize value = some value := by
  cases value <;> first | rfl | cases flat

theorem foldBignums_atom (flat : atom value = true) : foldBignums value = some value := by
  cases value <;> first | rfl | cases flat

theorem canonicalizePairs_flat (flat : ∀ e ∈ entries, atom e.1 = true ∧ atom e.2 = true) :
    canonicalizePairs entries = some entries ∧ foldPairs entries = some entries := by
  induction entries with
  | nil => exact ⟨rfl,rfl⟩
  | cons entry _ ih =>
    obtain ⟨key,item⟩ := entry
    obtain ⟨plain,simple⟩ := flat (key,item) (mem_cons_self ..)
    have others := ih fun e mem => flat e (mem_cons_of_mem _ mem)
    simp [canonicalizePairs,canonicalize_atom plain,canonicalize_atom simple,foldPairs,foldBignums_atom plain,
      foldBignums_atom simple,others]

theorem toCanonicalVec_flat (flat : ∀ e ∈ entries, atom e.1 = true ∧ atom e.2 = true) :
    toCanonicalVec (.map entries) =
      if duplicateKey (sortEntries entries) then none else some (encode (.map (sortEntries entries))) := by
  rw [toCanonicalVec,canonicalize,(canonicalizePairs_flat flat).1]
  simp only [Option.bind_eq_bind,Option.bind_some]
  split <;> rfl

theorem fitsPairs_of (fit : ∀ e ∈ entries, Fits e.1 ∧ Fits e.2) : FitsPairs entries := by
  induction entries with
  | nil => trivial
  | cons entry _ ih =>
    obtain ⟨key,item⟩ := fit entry (mem_cons_self ..)
    exact ⟨key,item,ih fun e mem => fit e (mem_cons_of_mem _ mem)⟩

-- Sorting does not lose a field: under distinct names, records with the same sorted
-- entries have the same values.
theorem fields_of_perm {one two : List (String × Value)} (names : one.map Prod.fst = two.map Prod.fst)
    (distinct : (one.map fun field => encode (label field.1)).Nodup)
    (same : (one.map entry).Perm (two.map entry)) : one = two := by
  induction one generalizing two with
  | nil =>
    cases two with
    | nil => rfl
    | cons => cases names
  | cons field one ih =>
    cases two with
    | nil => cases names
    | cons other two =>
      obtain ⟨name,value⟩ := field
      obtain ⟨_,value'⟩ := other
      obtain ⟨rfl,rest⟩ := cons.inj names
      obtain ⟨fresh,others⟩ := nodup_cons.mp distinct
      have here : (label name,value) ∈ (label name,value') :: two.map entry :=
        same.mem_iff.mp (mem_cons_self ..)
      have equal : value = value' := by
        rcases mem_cons.mp here with same | later
        · exact (Prod.mk.inj same).2
        · obtain ⟨⟨n,_⟩,mem,labelled⟩ := mem_map.mp later
          have named : n ∈ one.map Prod.fst := by
            change _ = map Prod.fst two at rest
            rw [rest]
            exact mem_map_of_mem mem
          obtain ⟨field,listed,rfl⟩ := mem_map.mp named
          refine absurd (mem_map.mpr ⟨field,listed,?_⟩) fresh
          exact congrArg (fun e => encode e.1) labelled
      subst equal
      rw [ih rest others (Perm.cons_inv same)]

structure Record (fields : List (String × Value)) : Prop where
  flat : ∀ field ∈ fields, atom field.2 = true
  fit : ∀ field ∈ fields, Fits field.2
  labelled : ∀ field ∈ fields, (ascii field.1).length < 2 ^ 64
  few : fields.length < 2 ^ 64
  distinct : (fields.map fun field => encode (label field.1)).Nodup

theorem Record.of_names (names : List String) (named : fields.map Prod.fst = names) (few : names.length < 2 ^ 64)
    (checked : (names.map fun name => encode (label name)).Nodup ∧ ∀ name ∈ names, (ascii name).length < 2 ^ 64)
    (values : ∀ value ∈ fields.map Prod.snd, atom value = true ∧ Fits value) : Record fields where
  flat field mem := (values _ (mem_map_of_mem mem)).1
  fit field mem := (values _ (mem_map_of_mem mem)).2
  labelled field mem := checked.2 _ (named ▸ mem_map_of_mem mem)
  few := by simpa [← named] using few
  distinct := by simpa [← named,Function.comp_def] using checked.1

theorem Record.entries_flat (ok : Record fields) : ∀ e ∈ fields.map entry, atom e.1 = true ∧ atom e.2 = true := by
  intro e mem
  obtain ⟨field,listed,rfl⟩ := mem_map.mp mem
  exact ⟨atom_label field.1,ok.flat field listed⟩

theorem fits_label (short : (ascii name).length < 2 ^ 64) : Fits (label name) := by
  unfold label toText
  by_cases valid : utf8 (ascii name) = true
  · rw [dif_pos valid]
    exact short
  · rw [dif_neg valid]
    trivial

theorem Record.sorted_fits (ok : Record fields) : Fits (.map (sortEntries (fields.map entry))) := by
  refine ⟨?_,fitsPairs_of ?_⟩
  · rw [sortEntries,length_insertionSort,length_map]
    exact ok.few
  · intro e mem
    rw [sortEntries,mem_insertionSort] at mem
    obtain ⟨field,listed,rfl⟩ := mem_map.mp mem
    exact ⟨fits_label (ok.labelled field listed),ok.fit field listed⟩

theorem duplicateKey_distinct (distinct : (entries.map fun e => encode e.1).Nodup) : duplicateKey entries = false := by
  induction entries with
  | nil => rfl
  | cons first entries ih =>
    obtain ⟨fresh,others⟩ := nodup_cons.mp distinct
    cases entries with
    | nil => rfl
    | cons second =>
      have apart : encode first.1 ≠ encode second.1 := by
        intro same
        exact fresh (mem_map.mpr ⟨second,mem_cons_self ..,same.symm⟩)
      simp [duplicateKey,apart,ih others]

theorem record_encodes (ok : Record fields) :
    toCanonicalVec (record fields) = some (encode (.map (sortEntries (fields.map entry)))) := by
  have keys := ((perm_insertionSort keyLe (fields.map entry)).map fun e => encode e.1).nodup_iff
  have distinct : duplicateKey (sortEntries (fields.map entry)) = false := by
    refine duplicateKey_distinct (keys.mpr ?_)
    rw [map_map]
    exact ok.distinct
  rw [record,toCanonicalVec_flat ok.entries_flat,distinct]
  rfl

theorem record_length (ok : Record fields) (encoded : toCanonicalVec (record fields) = some bytes) :
    bytes.length ≤ 9 + ((fields.map fun field => (encode (label field.1)).length).sum +
      (fields.map fun field => (encode field.2).length).sum) := by
  rw [record_encodes ok] at encoded
  cases encoded
  have sorted := ((perm_insertionSort keyLe (fields.map entry)).map fun e : Value × Value =>
    (encode e.1).length + (encode e.2).length).sum_nat
  have size := (head_length 5 (sortEntries (fields.map entry)).length).2
  rw [map_map] at sorted
  rw [encode,length_append,encodePairs_length]
  refine Nat.add_le_add size (sorted.trans ?_).le
  exact sum_map_add

theorem record_injective {one two : List (String × Value)} (left : Record one) (right : Record two)
    (names : one.map Prod.fst = two.map Prod.fst)
    (first : toCanonicalVec (record one) = some bytes) (second : toCanonicalVec (record two) = some bytes) : one = two := by
  rw [record_encodes left] at first
  rw [record_encodes right] at second
  have same := encode_injective left.sorted_fits right.sorted_fits ((Option.some.inj first).trans (Option.some.inj second).symm)
  have sorted : sortEntries (one.map entry) = sortEntries (two.map entry) := Value.map.inj same
  have before : (one.map entry).Perm (sortEntries (one.map entry)) := (perm_insertionSort keyLe _).symm
  rw [sorted] at before
  exact fields_of_perm names left.distinct (before.trans (perm_insertionSort keyLe _))

theorem record_decodes (ok : Record fields) (encoded : toCanonicalVec (record fields) = some bytes) :
    decode bytes = some (.map (sortEntries (fields.map entry))) ∧ assertCanonical bytes = true := by
  have flat : ∀ e ∈ sortEntries (fields.map entry), atom e.1 = true ∧ atom e.2 = true := by
    intro e mem
    rw [sortEntries,mem_insertionSort] at mem
    exact ok.entries_flat e mem
  have settled : sortEntries (sortEntries (fields.map entry)) = sortEntries (fields.map entry) :=
    (pairwise_insertionSort keyLe _).insertionSort_eq
  have again : toCanonicalVec (.map (sortEntries (fields.map entry))) = toCanonicalVec (record fields) := by
    rw [record,toCanonicalVec_flat flat,toCanonicalVec_flat ok.entries_flat,settled]
  have read : decode bytes = some (.map (sortEntries (fields.map entry))) := by
    rw [record_encodes ok] at encoded
    cases encoded
    rw [decode,parse_encode ok.sorted_fits,Option.bind_some,foldBignums,(canonicalizePairs_flat flat).2]
    rfl
  rw [assertCanonical,read]
  simp [again,encoded]

-- Values that differ only in the order of map entries, at any depth.
mutual

inductive Shuffled : Value → Value → Prop where
  | same (value : Value) : Shuffled value value
  | array (items : ShuffledAll one two) : Shuffled (.array one) (.array two)
  | map (entries : ShuffledPairs one middle) (order : middle.Perm two) : Shuffled (.map one) (.map two)
  | tag (n : Word 64) (item : Shuffled one two) : Shuffled (.tag n one) (.tag n two)

inductive ShuffledAll : List Value → List Value → Prop where
  | nil : ShuffledAll [] []
  | cons (item : Shuffled one two) (items : ShuffledAll ones twos) : ShuffledAll (one :: ones) (two :: twos)

inductive ShuffledPairs : List (Value × Value) → List (Value × Value) → Prop where
  | nil : ShuffledPairs [] []
  | cons (keys : Shuffled key key') (item : Shuffled one two) (entries : ShuffledPairs ones twos) :
      ShuffledPairs ((key,one) :: ones) ((key',two) :: twos)

end

theorem ShuffledAll.refl (items : List Value) : ShuffledAll items items := by
  induction items with
  | nil => exact .nil
  | cons item _ ih => exact .cons (.same item) ih

theorem ShuffledPairs.refl (entries : List (Value × Value)) : ShuffledPairs entries entries := by
  induction entries with
  | nil => exact .nil
  | cons entry _ ih => exact .cons (.same entry.1) (.same entry.2) ih

-- No tagged item has another order.
mutual

def TagsFixed : Value → Prop
  | .map entries => TagsFixedPairs entries
  | .array items => TagsFixedAll items
  | .tag _ item => ∀ other, Shuffled item other → other = item
  | _ => True

def TagsFixedAll : List Value → Prop
  | [] => True
  | item :: items => TagsFixed item ∧ TagsFixedAll items

def TagsFixedPairs : List (Value × Value) → Prop
  | [] => True
  | (key,item) :: entries => TagsFixed key ∧ TagsFixed item ∧ TagsFixedPairs entries

end

-- Sorting forgets the order: the sorted entries have a duplicate key exactly if the
-- entries have one, and without one there is a single sorted order.

theorem sorted_distinct (sorted : entries.Pairwise keyLe) (single : duplicateKey entries = false) :
    (entries.map fun e => encode e.1).Nodup := by
  induction entries with
  | nil => exact nodup_nil
  | cons first entries ih =>
    obtain ⟨least,others⟩ := pairwise_cons.mp sorted
    cases entries with
    | nil => exact nodup_singleton _
    | cons second =>
      simp only [duplicateKey,Bool.or_eq_false_iff,decide_eq_false_iff_not] at single
      refine nodup_cons.mpr ⟨?_,ih others single.2⟩
      intro again
      obtain ⟨e,mem,same⟩ := mem_map.mp again
      -- The first key is at most the second and the second at most any later one.
      have after : encode second.1 ≤ encode e.1 := by
        rcases mem_cons.mp mem with rfl | later
        · exact List.le_refl _
        · exact (pairwise_cons.mp others).1 e later
      have here : encode first.1 ≤ encode second.1 := least second (mem_cons_self ..)
      rw [same] at after
      exact single.1 (List.le_antisymm here after)

section
variable (entries : List (Value × Value))
include entries

theorem sortEntries_perm : (sortEntries entries).Perm entries := perm_insertionSort keyLe entries

theorem sortEntries_sorted : (sortEntries entries).Pairwise keyLe :=
  pairwise_insertionSort keyLe entries

theorem duplicateKey_sorted :
    duplicateKey (sortEntries entries) = false ↔ (entries.map fun e => encode e.1).Nodup := by
  have keys := ((sortEntries_perm entries).map fun e => encode e.1).nodup_iff
  constructor
  · intro single
    exact keys.mp (sorted_distinct (sortEntries_sorted entries) single)
  · intro distinct
    exact duplicateKey_distinct (keys.mpr distinct)

end

theorem sortEntries_unique (same : one.Perm two) (distinct : (one.map fun e => encode e.1).Nodup) :
    sortEntries one = sortEntries two := by
  have order : (sortEntries one).Perm (sortEntries two) := (sortEntries_perm one).trans (same.trans (sortEntries_perm two).symm)
  refine order.eq_of_pairwise ?_ (sortEntries_sorted one) (sortEntries_sorted two)
  intro a b first second le ge
  have inOne : a ∈ one := (sortEntries_perm one).mem_iff.mp first
  have inTwo : b ∈ one := same.mem_iff.mpr ((sortEntries_perm two).mem_iff.mp second)
  exact inj_on_of_nodup_map distinct inOne inTwo (List.le_antisymm le ge)

def closeMap (canon : List (Value × Value)) : Option Value :=
  if duplicateKey (sortEntries canon) then none else some (.map (sortEntries canon))

theorem closeMap_perm (same : one.Perm two) : closeMap one = closeMap two := by
  have keys := (same.map fun e => encode e.1).nodup_iff
  unfold closeMap
  by_cases distinct : (one.map fun e => encode e.1).Nodup
  · rw [(duplicateKey_sorted one).mpr distinct,(duplicateKey_sorted two).mpr (keys.mp distinct),sortEntries_unique same distinct]
  · have first : duplicateKey (sortEntries one) = true := by
      rw [← Bool.not_eq_false]
      exact fun single => distinct ((duplicateKey_sorted one).mp single)
    have second : duplicateKey (sortEntries two) = true := by
      rw [← Bool.not_eq_false]
      exact fun single => distinct (keys.mpr ((duplicateKey_sorted two).mp single))
    rw [first,second]
    rfl

theorem canonicalize_map (entries : List (Value × Value)) :
    canonicalize (.map entries) = (canonicalizePairs entries).bind closeMap := by
  rfl

theorem canonicalize_array (items : List Value) : canonicalize (.array items) = (canonicalizeAll items).map .array := by
  rw [canonicalize]
  cases canonicalizeAll items with
  | none | some => rfl

def Canon (e canon : Value × Value) : Prop := canonicalize e.1 = some canon.1 ∧ canonicalize e.2 = some canon.2

theorem canonicalizePairs_some : canonicalizePairs entries = some canon ↔ Forall₂ Canon entries canon := by
  induction entries generalizing canon with
  | nil => simp [canonicalizePairs,eq_comm]
  | cons e entries ih =>
    obtain ⟨key,item⟩ := e
    simp only [canonicalizePairs,Option.bind_eq_bind,Option.bind_eq_some_iff,forall₂_cons_left_iff,ih]
    constructor
    · rintro ⟨k,first,i,second,rest,others,same⟩
      exact ⟨(k,i),rest,⟨first,second⟩,others,(Option.some.inj same).symm⟩
    · rintro ⟨⟨k,i⟩,rest,⟨first,second⟩,others,rfl⟩
      exact ⟨k,first,i,second,rest,others,rfl⟩

theorem canonicalizePairs_moved (order : one.Perm two) (read : canonicalizePairs two = some canon) :
    ∃ other, canonicalizePairs one = some other ∧ other.Perm canon := by
  obtain ⟨other,matched,same⟩ := perm_comp_forall₂ order (canonicalizePairs_some.mp read)
  exact ⟨other,canonicalizePairs_some.mpr matched,same⟩

theorem canonicalizePairs_perm (order : one.Perm two) :
    (canonicalizePairs one).bind closeMap = (canonicalizePairs two).bind closeMap := by
  cases read : canonicalizePairs two with
  | some canon =>
    obtain ⟨other,found,same⟩ := canonicalizePairs_moved order read
    rw [found]
    exact closeMap_perm same
  | none =>
    cases found : canonicalizePairs one with
    | none => rfl
    | some canon =>
      obtain ⟨_,again,_⟩ := canonicalizePairs_moved order.symm found
      cases read.symm.trans again

-- By induction on how the two values are related; a tag is where canonicalize stops.
mutual

theorem Shuffled.canonicalize : Shuffled one two → TagsFixed one → canonicalize one = canonicalize two
  | .same _, _ => rfl
  | .array items, fixed => by
      rw [canonicalize_array,canonicalize_array,items.canonicalizeAll fixed]
  | .map entries order, fixed => by
      rw [canonicalize_map,canonicalize_map,entries.canonicalizePairs fixed]
      exact canonicalizePairs_perm order
  | .tag n item, fixed => by
      rw [fixed _ item]

theorem ShuffledAll.canonicalizeAll : ShuffledAll one two → TagsFixedAll one → canonicalizeAll one = canonicalizeAll two
  | .nil, _ => rfl
  | .cons item items, fixed => by
      rw [HippiusTypes.canonicalizeAll,HippiusTypes.canonicalizeAll,item.canonicalize fixed.1,items.canonicalizeAll fixed.2]

theorem ShuffledPairs.canonicalizePairs : ShuffledPairs one two → TagsFixedPairs one → canonicalizePairs one = canonicalizePairs two
  | .nil, _ => rfl
  | .cons keys item entries, fixed => by
      rw [HippiusTypes.canonicalizePairs,HippiusTypes.canonicalizePairs,keys.canonicalize fixed.1,item.canonicalize fixed.2.1,
        entries.canonicalizePairs fixed.2.2]

end

theorem canonicalizeAll_cons : canonicalizeAll (item :: items) = some canon ↔
    ∃ first rest, canonicalize item = some first ∧ canonicalizeAll items = some rest ∧ canon = first :: rest := by
  simp only [canonicalizeAll,Option.bind_eq_bind,Option.bind_eq_some_iff,Option.some.injEq]
  constructor
  · rintro ⟨first,here,rest,there,rfl⟩
    exact ⟨first,rest,here,there,rfl⟩
  · rintro ⟨first,rest,here,there,rfl⟩
    exact ⟨first,here,rest,there,rfl⟩

theorem closeMap_some (closed : closeMap canon = some value) : value = .map (sortEntries canon) := by
  unfold closeMap at closed
  split at closed
  · cases closed
  · exact (Option.some.inj closed).symm

-- Conversely one canonical form for all orders leaves no order to a tagged item. The
-- entries of a map agree up to their own order, and all but one of them are the same.
mutual

theorem tagsFixed_of : ∀ (one canon : Value), (∀ two, Shuffled one two → canonicalize two = some canon) → TagsFixed one
  | .tag n item, _, all => by
      intro other shuffled
      have same := (all _ (.tag n shuffled)).trans (all _ (.same _)).symm
      cases same
      rfl
  | .array items, _, all => by
      have first := all _ (.same _)
      rw [canonicalize_array,Option.map_eq_some_iff] at first
      obtain ⟨canon,_,rfl⟩ := first
      refine tagsFixedAll_of items canon fun twos shuffled => ?_
      have same := all _ (.array shuffled)
      rw [canonicalize_array,Option.map_eq_some_iff] at same
      obtain ⟨_,found,same⟩ := same
      cases same
      exact found
  | .map entries, _, all => by
      have first := all _ (.same _)
      rw [canonicalize_map,Option.bind_eq_some_iff] at first
      obtain ⟨canon,read,closed⟩ := first
      refine tagsFixedPairs_of read fun twos shuffled => ?_
      have same := all _ (.map shuffled (Perm.refl _))
      rw [canonicalize_map,Option.bind_eq_some_iff] at same
      obtain ⟨other,found,again⟩ := same
      have sorted := Value.map.inj ((closeMap_some again).symm.trans (closeMap_some closed))
      exact ⟨other,found,(sortEntries_perm other).symm.trans (sorted ▸ sortEntries_perm canon)⟩
  | .unsigned _, _, _ | .negative _, _, _ | .bytes _, _, _ | .text _, _, _ | .bool _, _, _ | .null, _, _ => trivial

theorem tagsFixedAll_of : ∀ (one canon : List Value), (∀ twos, ShuffledAll one twos → canonicalizeAll twos = some canon) →
    TagsFixedAll one
  | [], _, _ => trivial
  | item :: items, _, all => by
      obtain ⟨first,rest,here,there,rfl⟩ := canonicalizeAll_cons.mp (all _ (.refl _))
      refine ⟨tagsFixed_of item first fun two shuffled => ?_,tagsFixedAll_of items rest fun twos shuffled => ?_⟩
      · obtain ⟨_,_,found,_,same⟩ := canonicalizeAll_cons.mp (all _ (.cons shuffled (.refl items)))
        cases same
        exact found
      · obtain ⟨_,_,_,found,same⟩ := canonicalizeAll_cons.mp (all _ (.cons (.same item) shuffled))
        cases same
        exact found

theorem tagsFixedPairs_of : ∀ {one canon : List (Value × Value)}, canonicalizePairs one = some canon →
    (∀ twos, ShuffledPairs one twos → ∃ other, canonicalizePairs twos = some other ∧ other.Perm canon) → TagsFixedPairs one
  | [], _, _, _ => trivial
  | (key,item) :: entries, _, read, all => by
      obtain ⟨first,rest,⟨named,held⟩,others,rfl⟩ := forall₂_cons_left_iff.mp (canonicalizePairs_some.mp read)
      have there := canonicalizePairs_some.mpr others
      have only : ∀ key' item', Shuffled key key' → Shuffled item item' → Canon (key',item') first := by
        intro key' item' keys items
        obtain ⟨_,found,same⟩ := all _ (.cons keys items (.refl entries))
        obtain ⟨other,_,canon,again,rfl⟩ := forall₂_cons_left_iff.mp (canonicalizePairs_some.mp found)
        cases there.symm.trans (canonicalizePairs_some.mpr again)
        have equal : [other].Perm [first] := (perm_append_right_iff rest).mp same
        cases perm_singleton.mp equal
        exact canon
      refine ⟨tagsFixed_of key _ fun two shuffled => (only two item shuffled (.same _)).1,
        tagsFixed_of item _ fun two shuffled => (only key two (.same _) shuffled).2,tagsFixedPairs_of there fun twos shuffled => ?_⟩
      obtain ⟨_,found,same⟩ := all _ (.cons (.same key) (.same item) shuffled)
      obtain ⟨⟨k,i⟩,canon,⟨keyed,valued⟩,again,rfl⟩ := forall₂_cons_left_iff.mp (canonicalizePairs_some.mp found)
      cases named.symm.trans keyed
      cases held.symm.trans valued
      exact ⟨canon,canonicalizePairs_some.mpr again,Perm.cons_inv same⟩

end

theorem canonical_up_to_order (one : Value) (short : ∀ two canon, Shuffled one two → canonicalize two = some canon → Fits canon) :
    (∀ two, Shuffled one two → toCanonicalVec one = toCanonicalVec two ∧
      ∀ left right, assertCanonical left = true → assertCanonical right = true → decode left = some one →
        decode right = some two → left = right) ↔
    TagsFixed one ∨ ∀ two, Shuffled one two → toCanonicalVec two = none := by
  constructor
  · intro agree
    cases read : canonicalize one with
    | none =>
      refine .inr fun two shuffled => ?_
      rw [← (agree two shuffled).1,toCanonicalVec,read]
      rfl
    | some canon =>
      refine .inl (tagsFixed_of one canon fun two shuffled => ?_)
      have same := (agree two shuffled).1
      rw [toCanonicalVec,toCanonicalVec,read,Option.map_some,eq_comm,Option.map_eq_some_iff] at same
      obtain ⟨other,found,bytes⟩ := same
      rw [found,encode_injective (short two other shuffled found) (short one canon (.same one) read) bytes]
  · intro holds two shuffled
    have same : toCanonicalVec one = toCanonicalVec two := by
      rcases holds with fixed | refused
      · rw [toCanonicalVec,toCanonicalVec,shuffled.canonicalize fixed]
      · rw [refused one (.same one),refused two shuffled]
    refine ⟨same,?_⟩
    intro left right first second readLeft readRight
    rw [assertCanonical,readLeft] at first
    rw [assertCanonical,readRight] at second
    rw [of_decide_eq_true first,of_decide_eq_true second] at same
    exact Option.some.inj same

def ascending : Value := .map [(.unsigned 1,.null),(.unsigned 2,.null)]

def descending : Value := .map [(.unsigned 2,.null),(.unsigned 1,.null)]

theorem descending_shuffled : Shuffled ascending descending := by
  have entries : ShuffledPairs [(.unsigned 1,.null),(.unsigned 2,.null)] [(.unsigned 1,.null),(.unsigned 2,.null)] :=
    .cons (.same _) (.same _) (.cons (.same _) (.same _) .nil)
  exact .map entries (Perm.swap _ _ _)

-- Under a tag both orders stay as they are and pass the check.
theorem tagged_order_kept :
    Shuffled (.tag 0 ascending) (.tag 0 descending) ∧
    toCanonicalVec (.tag 0 ascending) = some [0xC0,0xA2,0x01,0xF6,0x02,0xF6] ∧
    toCanonicalVec (.tag 0 descending) = some [0xC0,0xA2,0x02,0xF6,0x01,0xF6] ∧
    decode [0xC0,0xA2,0x01,0xF6,0x02,0xF6] = some (.tag 0 ascending) ∧
    decode [0xC0,0xA2,0x02,0xF6,0x01,0xF6] = some (.tag 0 descending) ∧
    assertCanonical [0xC0,0xA2,0x01,0xF6,0x02,0xF6] = true ∧ assertCanonical [0xC0,0xA2,0x02,0xF6,0x01,0xF6] = true := by
  refine ⟨.tag 0 descending_shuffled,by rfl,by rfl,by rfl,by rfl,by rfl,by rfl⟩

def nested : Value := .array [ascending,.tag 0 (.unsigned 5)]

theorem canonical_up_to_order_nested :
    Shuffled nested (.array [descending,.tag 0 (.unsigned 5)]) ∧ toCanonicalVec nested = some [0x82,0xA2,0x01,0xF6,0x02,0xF6,0xC0,0x05] ∧
    ∀ two, Shuffled nested two → toCanonicalVec nested = toCanonicalVec two ∧
      ∀ left right, assertCanonical left = true → assertCanonical right = true → decode left = some nested →
        decode right = some two → left = right := by
  have fixed : TagsFixed nested := by
    refine ⟨⟨trivial,trivial,trivial,trivial,trivial⟩,?_,trivial⟩
    intro other shuffled
    cases shuffled
    rfl
  refine ⟨.array (.cons descending_shuffled (.cons (.same _) .nil)),by rfl,(canonical_up_to_order nested ?_).mpr (.inl fixed)⟩
  intro two canon shuffled read
  have here : canonicalize nested = some nested := by rfl
  cases here.symm.trans ((shuffled.canonicalize fixed).trans read)
  simp [nested,ascending,Fits,FitsAll,FitsPairs]

end TheBrain.HippiusTypes
