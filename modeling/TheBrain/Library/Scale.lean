import TheBrain.Library.Cbor

-- SCALE: little-endian words, compact lengths and concatenated fields.
namespace Library.Scale
open Words Cbor List

-- A reader takes a value off the front. It reads back what was written, whatever
-- follows, for the values whose lengths can be written, and never a value from fewer
-- bytes than are written for it.
structure Codec (α : Type) where
  encode : α → List UInt8
  decode : List UInt8 → Option (α × List UInt8)
  fits : α → Prop
  decode_encode : ∀ a rest, fits a → decode (encode a ++ rest) = some (a,rest)
  consumes : ∀ input a rest, decode input = some (a,rest) → (encode a).length + rest.length ≤ input.length

def ofLe : List UInt8 → Nat
  | [] => 0
  | b :: bytes => b.toNat + 256 * ofLe bytes

def readLe (size : Nat) (bytes : List UInt8) : Option (Nat × List UInt8) :=
  (readFixed size bytes).map fun read => (ofLe read.1,read.2)

theorem ofLe_leBytes (fits : n < 256 ^ size) : ofLe (leBytes size n) = n := by
  induction size generalizing n with
  | zero =>
    rw [Nat.pow_zero,Nat.lt_one_iff] at fits
    rw [fits]
    rfl
  | succ _ ih =>
    have low : (UInt8.ofNat n).toNat = n % 256 := UInt8.toNat_ofNat'
    rw [leBytes,ofLe,ih (by omega),low]
    omega

theorem readLe_append (fits : n < 256 ^ size) (rest : List UInt8) : readLe size (leBytes size n ++ rest) = some (n,rest) := by
  have read := readFixed_append (leBytes size n) rest
  rw [leBytes_length] at read
  rw [readLe,read,Option.map_some,ofLe_leBytes fits]

theorem ofLe_lt (bytes : List UInt8) : ofLe bytes < 256 ^ bytes.length := by
  induction bytes with
  | nil => exact Nat.one_pos
  | cons b bytes ih =>
    have low := b.toNat_lt
    rw [ofLe,length_cons,Nat.pow_succ]
    omega

theorem readFixed_some (read : readFixed size bytes = some (taken,rest)) :
    taken.length = size ∧ size + rest.length = bytes.length := by
  unfold readFixed at read
  split at read
  next long =>
    cases read
    simp only [length_take,length_drop]
    omega
  · cases read

theorem readLe_some (read : readLe size bytes = some (n,rest)) : n < 256 ^ size ∧ size + rest.length = bytes.length := by
  obtain ⟨⟨taken,_⟩,taking,same⟩ := Option.map_eq_some_iff.mp read
  cases same
  obtain ⟨sized,whole⟩ := readFixed_some taking
  exact ⟨sized ▸ ofLe_lt taken,whole⟩

-- A u32 in the shortest of four modes, which the two low bits of its first byte name.
def compact (n : Nat) : List UInt8 :=
  if n < 2 ^ 6 then leBytes 1 (4 * n)
  else if n < 2 ^ 14 then leBytes 2 (4 * n + 1)
  else if n < 2 ^ 30 then leBytes 4 (4 * n + 2)
  else 3 :: leBytes 4 n

-- A value that a shorter mode could have carried is refused.
def readCompact : List UInt8 → Option (Nat × List UInt8)
  | [] => none
  | b :: rest =>
    match b.toNat % 4 with
    | 0 => some (b.toNat / 4,rest)
    | 1 => (readLe 1 rest).bind fun read =>
      if 2 ^ 6 ≤ (b.toNat + 256 * read.1) / 4 then some ((b.toNat + 256 * read.1) / 4,read.2) else none
    | 2 => (readLe 3 rest).bind fun read =>
      if 2 ^ 14 ≤ (b.toNat + 256 * read.1) / 4 then some ((b.toNat + 256 * read.1) / 4,read.2) else none
    | _ => if b.toNat / 4 = 0 then (readLe 4 rest).bind fun read =>
      if 2 ^ 30 ≤ read.1 then some (read.1,read.2) else none
    else none

theorem readCompact_compact (fits : n < 2 ^ 32) (rest : List UInt8) : readCompact (compact n ++ rest) = some (n,rest) := by
  have low : ∀ m, (UInt8.ofNat m).toNat = m % 256 := fun m => UInt8.toNat_ofNat'
  unfold compact
  split
  next small =>
    change readCompact (UInt8.ofNat (4 * n) :: rest) = _
    have mode : 4 * n % 256 % 4 = 0 := by omega
    have value : 4 * n % 256 / 4 = n := by omega
    simp only [readCompact,low,mode,value]
  split
  next large small =>
    change readCompact (UInt8.ofNat (4 * n + 1) :: (leBytes 1 ((4 * n + 1) / 256) ++ rest)) = _
    have read : readLe 1 (leBytes 1 ((4 * n + 1) / 256) ++ rest) = some ((4 * n + 1) / 256,rest) := readLe_append (by omega) rest
    have mode : (4 * n + 1) % 256 % 4 = 1 := by omega
    have value : ((4 * n + 1) % 256 + 256 * ((4 * n + 1) / 256)) / 4 = n := by omega
    simp only [readCompact,low,mode,read,Option.bind_some,value]
    exact if_pos (by omega)
  split
  next larger small =>
    change readCompact (UInt8.ofNat (4 * n + 2) :: (leBytes 3 ((4 * n + 2) / 256) ++ rest)) = _
    have read : readLe 3 (leBytes 3 ((4 * n + 2) / 256) ++ rest) = some ((4 * n + 2) / 256,rest) := readLe_append (by omega) rest
    have mode : (4 * n + 2) % 256 % 4 = 2 := by omega
    have value : ((4 * n + 2) % 256 + 256 * ((4 * n + 2) / 256)) / 4 = n := by omega
    simp only [readCompact,low,mode,read,Option.bind_some,value]
    exact if_pos (by omega)
  next largest =>
    have read : readLe 4 (leBytes 4 n ++ rest) = some (n,rest) := readLe_append (by omega) rest
    have mode : (3 : UInt8).toNat % 4 = 3 := rfl
    have value : (3 : UInt8).toNat / 4 = 0 := rfl
    rw [cons_append]
    simp only [readCompact,mode,value,if_true,read]
    exact if_pos (by omega)

theorem readCompact_some (read : readCompact bytes = some (n,rest)) : (compact n).length + rest.length ≤ bytes.length := by
  have width : (compact n).length = if n < 2 ^ 6 then 1 else if n < 2 ^ 14 then 2 else if n < 2 ^ 30 then 4 else 5 := by
    unfold compact
    split_ifs <;> simp
  unfold readCompact at read
  split at read
  · cases read
  next b tail =>
    have byte := b.toNat_lt
    rw [width,length_cons]
    split at read
    · cases read
      split_ifs <;> omega
    all_goals simp only [Option.ite_none_right_eq_some,Option.bind_eq_some_iff,Option.some.injEq,Prod.mk.injEq,Prod.exists] at read
    iterate 2
      · obtain ⟨_,_,took,_,rfl,rfl⟩ := read
        have taken := readLe_some took
        split_ifs <;> omega
    · obtain ⟨_,_,_,took,_,rfl,rfl⟩ := read
      have taken := readLe_some took
      split_ifs <;> omega

-- Items one after the other. What a reader makes of an item may depend on what follows.
def readItems (read : List UInt8 → Option (α × List UInt8)) : Nat → List UInt8 → Option (List α × List UInt8)
  | 0, bytes => some ([],bytes)
  | n + 1, bytes => (read bytes).bind fun first => (readItems read n first.2).map fun others => (first.1 :: others.1,others.2)

theorem readItems_cons {read : List UInt8 → Option (α × List UInt8)} (items : readItems read (n + 1) bytes = some (a :: others,rest)) :
    ∃ left, read bytes = some (a,left) ∧ readItems read n left = some (others,rest) := by
  obtain ⟨⟨_,left⟩,first,tail⟩ := Option.bind_eq_some_iff.mp items
  obtain ⟨⟨_,_⟩,later,same⟩ := Option.map_eq_some_iff.mp tail
  cases same
  exact ⟨left,first,later⟩

def readVec (read : List UInt8 → Option (α × List UInt8)) (bytes : List UInt8) : Option (List α × List UInt8) :=
  (readCompact bytes).bind fun length => readItems read length.1 length.2

def writeVec (write : α → List UInt8) (items : List α) : List UInt8 := compact items.length ++ items.flatMap write

theorem readItems_write {read : List UInt8 → Option (β × List UInt8)} {write : α → List UInt8} (reads : α → β) (items : List α)
    (each : ∀ item ∈ items, ∀ rest, read (write item ++ rest) = some (reads item,rest)) (rest : List UInt8) :
    readItems read items.length (items.flatMap write ++ rest) = some (items.map reads,rest) := by
  induction items with
  | nil => rfl
  | cons item items ih =>
    have first := each item (mem_cons_self ..) (items.flatMap write ++ rest)
    have others := ih fun other mem => each other (mem_cons_of_mem _ mem)
    rw [length_cons,flatMap_cons,append_assoc,readItems,first,Option.bind_some,others]
    rfl

theorem readVec_write {read : List UInt8 → Option (β × List UInt8)} {write : α → List UInt8} (reads : α → β) (items : List α)
    (few : items.length < 2 ^ 32) (each : ∀ item ∈ items, ∀ rest, read (write item ++ rest) = some (reads item,rest)) (rest : List UInt8) :
    readVec read (writeVec write items ++ rest) = some (items.map reads,rest) := by
  rw [readVec,writeVec,append_assoc,readCompact_compact few]
  exact readItems_write reads items each rest

namespace Codec

def word (size : Nat) : Codec (Word (8 * size)) where
  encode n := leBytes size n
  decode bytes := (readLe size bytes).bind fun read => if fits : read.1 < 2 ^ (8 * size) then some (⟨read.1,fits⟩,read.2) else none
  fits _ := True
  decode_encode := by
    intro n rest _
    have small : n.val < 256 ^ size := n.isLt.trans_eq (Nat.pow_mul 2 8 size)
    rw [readLe_append small,Option.bind_some]
    exact dif_pos n.isLt
  consumes := by
    intro input n rest read
    obtain ⟨_,taken,made⟩ := Option.bind_eq_some_iff.mp read
    split at made
    · cases made
      exact (leBytes_length ..).symm ▸ (readLe_some taken).2.le
    · cases made

def bool : Codec Bool where
  encode b := [if b then 1 else 0]
  decode
    | 0 :: rest => some (false,rest)
    | 1 :: rest => some (true,rest)
    | _ => none
  fits _ := True
  decode_encode := by
    intro b rest _
    cases b with
    | false | true => rfl
  consumes := by
    intro input b rest read
    split at read
    · cases read
      exact (Nat.add_comm ..).le
    · cases read
      exact (Nat.add_comm ..).le
    · cases read

def fixed (size : Nat) : Codec {b : List UInt8 // b.length = size} where
  encode := Subtype.val
  decode bytes := (readFixed size bytes).bind fun read => if sized : read.1.length = size then some (⟨read.1,sized⟩,read.2) else none
  fits _ := True
  decode_encode := by
    intro b rest _
    have read := readFixed_append b.val rest
    rw [b.property] at read
    rw [read,Option.bind_some]
    exact dif_pos b.property
  consumes := by
    intro input b rest read
    obtain ⟨_,taken,made⟩ := Option.bind_eq_some_iff.mp read
    split at made
    · cases made
      exact (readFixed_some taken).1.symm ▸ (readFixed_some taken).2.le
    · cases made

def bytes : Codec (List UInt8) where
  encode b := compact b.length ++ b
  decode input := (readCompact input).bind fun length => readFixed length.1 length.2
  fits b := b.length < 2 ^ 32
  decode_encode := by
    intro b rest short
    rw [List.append_assoc,readCompact_compact short,Option.bind_some]
    exact readFixed_append b rest
  consumes := by
    intro input b rest read
    obtain ⟨⟨_,_⟩,counted,taken⟩ := Option.bind_eq_some_iff.mp read
    obtain ⟨rfl,whole⟩ := readFixed_some taken
    have size := readCompact_some counted
    rw [length_append,Nat.add_assoc,whole]
    exact size

def option (c : Codec α) : Codec (Option α) where
  encode
    | none => [0]
    | some a => 1 :: c.encode a
  decode
    | 0 :: rest => some (none,rest)
    | 1 :: rest => (c.decode rest).map fun read => (some read.1,read.2)
    | _ => none
  fits o := ∀ a ∈ o, c.fits a
  decode_encode := by
    intro o rest fits
    cases o with
    | none => rfl
    | some a =>
      change (c.decode (c.encode a ++ rest)).map _ = _
      rw [c.decode_encode a rest (fits a rfl)]
      rfl
  consumes := by
    intro input o rest read
    split at read
    · cases read
      exact (Nat.add_comm ..).le
    · obtain ⟨⟨_,_⟩,taken,same⟩ := Option.map_eq_some_iff.mp read
      cases same
      have inner := c.consumes _ _ _ taken
      simp only [length_cons]
      omega
    · cases read

def pair (one : Codec α) (two : Codec β) : Codec (α × β) where
  encode p := one.encode p.1 ++ two.encode p.2
  decode input := (one.decode input).bind fun first => (two.decode first.2).map fun second => ((first.1,second.1),second.2)
  fits p := one.fits p.1 ∧ two.fits p.2
  decode_encode := by
    rintro ⟨a,b⟩ rest ⟨left,right⟩
    rw [List.append_assoc,one.decode_encode a _ left,Option.bind_some,two.decode_encode b rest right]
    rfl
  consumes := by
    intro input p rest read
    obtain ⟨_,first,others⟩ := Option.bind_eq_some_iff.mp read
    obtain ⟨_,second,same⟩ := Option.map_eq_some_iff.mp others
    cases same
    have left := one.consumes _ _ _ first
    have right := two.consumes _ _ _ second
    simp only [length_append]
    omega

def record (c : Codec α) (make : α → β) (fields : β → α) (exact : ∀ b, make (fields b) = b)
    (same : ∀ a, fields (make a) = a) : Codec β where
  encode b := c.encode (fields b)
  decode input := (c.decode input).map fun read => (make read.1,read.2)
  fits b := c.fits (fields b)
  decode_encode := by
    intro b rest fits
    rw [c.decode_encode (fields b) rest fits,Option.map_some,exact]
  consumes := by
    intro input b rest read
    obtain ⟨_,taken,made⟩ := Option.map_eq_some_iff.mp read
    cases made
    rw [same]
    exact c.consumes _ _ _ taken

end Codec
end Library.Scale
