import Mathlib.Tactic.Ring
import TheBrain.Library.Words

namespace Library.Cbor
open Words List

-- Text is kept as its UTF-8 bytes, with the byte ranges of well-formed sequences.
def continues (b : UInt8) : Bool := 0x80 ≤ b ∧ b ≤ 0xBF

def utf8 : List UInt8 → Bool
  | [] => true
  | a :: rest =>
    if a ≤ 0x7F then utf8 rest else
    match rest with
    | [] => false
    | b :: rest =>
      if 0xC2 ≤ a ∧ a ≤ 0xDF then continues b && utf8 rest else
      match rest with
      | [] => false
      | c :: rest =>
        if 0xE0 ≤ a ∧ a ≤ 0xEF then
          (if a = 0xE0 then decide (0xA0 ≤ b ∧ b ≤ 0xBF) else if a = 0xED then decide (0x80 ≤ b ∧ b ≤ 0x9F) else continues b) &&
            continues c && utf8 rest
        else
        match rest with
        | [] => false
        | d :: rest =>
          (if a = 0xF0 then decide (0x90 ≤ b ∧ b ≤ 0xBF) else if a = 0xF4 then decide (0x80 ≤ b ∧ b ≤ 0x8F)
            else decide (0xF1 ≤ a ∧ a ≤ 0xF3) && continues b) && continues c && continues d && utf8 rest

abbrev Text := {t : List UInt8 // utf8 t = true}

-- A data item without floats. A negative integer stands for -1 - n.
inductive Value where
  | unsigned (n : Word 64)
  | negative (n : Word 64)
  | bytes (b : List UInt8)
  | text (t : Text)
  | array (items : List Value)
  | map (entries : List (Value × Value))
  | tag (n : Word 64) (item : Value)
  | bool (b : Bool)
  | null

def beBytes : Nat → Nat → List UInt8
  | 0, _ => []
  | size + 1, n => UInt8.ofNat (n / 256 ^ size) :: beBytes size n

def ofBe (bytes : List UInt8) : Nat := bytes.foldl (fun n b => n * 256 + b.toNat) 0

-- A head is a major type and an argument in the shortest of five widths.
def head (major n : Nat) : List UInt8 :=
  if n < 24 then [UInt8.ofNat (32 * major + n)]
  else if n < 2 ^ 8 then UInt8.ofNat (32 * major + 24) :: beBytes 1 n
  else if n < 2 ^ 16 then UInt8.ofNat (32 * major + 25) :: beBytes 2 n
  else if n < 2 ^ 32 then UInt8.ofNat (32 * major + 26) :: beBytes 4 n
  else UInt8.ofNat (32 * major + 27) :: beBytes 8 n

def readFixed (size : Nat) (bytes : List UInt8) : Option (List UInt8 × List UInt8) :=
  if size ≤ bytes.length then some (bytes.take size,bytes.drop size) else none

def readArgument (size : Nat) (bytes : List UInt8) : Option (Nat × List UInt8) :=
  (readFixed size bytes).map fun read => (ofBe read.1,read.2)

-- The reader takes any of the widths, also one longer than needed.
def readInfo (major info : Nat) (rest : List UInt8) : Option (Nat × Nat × List UInt8) :=
  if info < 24 then some (major,info,rest)
  else if info = 24 then (readArgument 1 rest).map fun read => (major,read)
  else if info = 25 then (readArgument 2 rest).map fun read => (major,read)
  else if info = 26 then (readArgument 4 rest).map fun read => (major,read)
  else if info = 27 then (readArgument 8 rest).map fun read => (major,read)
  else none

def readHead : List UInt8 → Option (Nat × Nat × List UInt8)
  | [] => none
  | b :: rest => readInfo (b.toNat / 32) (b.toNat % 32) rest

mutual

def encode : Value → List UInt8
  | .unsigned n => head 0 n
  | .negative n => head 1 n
  | .bytes b => head 2 b.length ++ b
  | .text t => head 3 t.val.length ++ t.val
  | .array items => head 4 items.length ++ encodeAll items
  | .map entries => head 5 entries.length ++ encodePairs entries
  | .tag n item => head 6 n ++ encode item
  | .bool b => head 7 (if b then 21 else 20)
  | .null => head 7 22

def encodeAll : List Value → List UInt8
  | [] => []
  | item :: items => encode item ++ encodeAll items

def encodePairs : List (Value × Value) → List UInt8
  | [] => []
  | (key,item) :: entries => encode key ++ (encode item ++ encodePairs entries)

end

def toWord (n : Nat) : Option (Word 64) := if fits : n < 2 ^ 64 then some ⟨n,fits⟩ else none

def toText (bytes : List UInt8) : Option Text := if valid : utf8 bytes = true then some ⟨bytes,valid⟩ else none

mutual

-- Fuel bounds the nesting and the number of items still to read.
def decodeItem : Nat → List UInt8 → Option (Value × List UInt8)
  | 0, _ => none
  | fuel + 1, bytes =>
    match readHead bytes with
    | none => none
    | some (major,n,rest) =>
      match major with
      | 0 => (toWord n).map fun n => (.unsigned n,rest)
      | 1 => (toWord n).map fun n => (.negative n,rest)
      | 2 => (readFixed n rest).map fun read => (.bytes read.1,read.2)
      | 3 => (readFixed n rest).bind fun read => (toText read.1).map fun t => (.text t,read.2)
      | 4 => (decodeItems fuel n rest).map fun read => (.array read.1,read.2)
      | 5 => (decodePairs fuel n rest).map fun read => (.map read.1,read.2)
      | 6 => (toWord n).bind fun n => (decodeItem fuel rest).map fun read => (.tag n read.1,read.2)
      | _ => if n = 20 then some (.bool false,rest) else if n = 21 then some (.bool true,rest)
          else if n = 22 then some (.null,rest) else none

def decodeItems : Nat → Nat → List UInt8 → Option (List Value × List UInt8)
  | _, 0, bytes => some ([],bytes)
  | 0, _ + 1, _ => none
  | fuel + 1, n + 1, bytes =>
    (decodeItem fuel bytes).bind fun first => (decodeItems fuel n first.2).map fun others => (first.1 :: others.1,others.2)

def decodePairs : Nat → Nat → List UInt8 → Option (List (Value × Value) × List UInt8)
  | _, 0, bytes => some ([],bytes)
  | 0, _ + 1, _ => none
  | fuel + 1, n + 1, bytes =>
    (decodeItem fuel bytes).bind fun key => (decodeItem fuel key.2).bind fun item =>
      (decodePairs fuel n item.2).map fun others => ((key.1,item.1) :: others.1,others.2)

end

def parse (bytes : List UInt8) : Option Value := (decodeItem (2 * bytes.length) bytes).map Prod.fst

-- The reader takes a byte string under tag 2 or 3 for the integer that it spells, with tag
-- 3 for -1 - n. It keeps the tag where the integer does not fit a head, and refuses more
-- than 128 bits.
def bignum (negative : Bool) (bytes : List UInt8) : Option Value :=
  let digits := bytes.dropWhile (· == 0)
  let n := ofBe digits
  if 16 < digits.length ∨ negative = true ∧ 2 ^ 127 ≤ n then none else
  match toWord n with
  | some n => some (if negative then .negative n else .unsigned n)
  | none => some (.tag (if negative then 3 else 2) (.bytes digits))

mutual

def foldBignums : Value → Option Value
  | .tag n item =>
    if n = 2 ∨ n = 3 then
      match item with
      | .bytes b => bignum (n = 3) b
      | _ => none
    else (foldBignums item).map (.tag n)
  | .array items => (foldAll items).map .array
  | .map entries => (foldPairs entries).map .map
  | other => some other

def foldAll : List Value → Option (List Value)
  | [] => some []
  | item :: items => do some ((← foldBignums item) :: (← foldAll items))

def foldPairs : List (Value × Value) → Option (List (Value × Value))
  | [] => some []
  | (key,item) :: entries => do some ((← foldBignums key,← foldBignums item) :: (← foldPairs entries))

end

def decode (bytes : List UInt8) : Option Value := (parse bytes).bind foldBignums

@[simp] theorem beBytes_length (size n : Nat) : (beBytes size n).length = size := by
  induction size with
  | zero => rfl
  | succ _ ih => simp [beBytes,ih]

theorem foldl_beBytes (size n start : Nat) :
    (beBytes size n).foldl (fun n b => n * 256 + b.toNat) start = start * 256 ^ size + n % 256 ^ size := by
  induction size generalizing start with
  | zero => simp [beBytes,Nat.mod_one]
  | succ size ih =>
    have digit : (UInt8.ofNat (n / 256 ^ size)).toNat = n / 256 ^ size % 256 := UInt8.toNat_ofNat'
    rw [beBytes,foldl_cons,ih,digit,Nat.mod_pow_succ]
    ring

theorem ofBe_beBytes (fits : n < 256 ^ size) : ofBe (beBytes size n) = n := by
  rw [ofBe,foldl_beBytes,Nat.zero_mul,Nat.zero_add,Nat.mod_eq_of_lt fits]

@[simp] theorem readFixed_append (bytes rest : List UInt8) : readFixed bytes.length (bytes ++ rest) = some (bytes,rest) := by
  simp [readFixed]

theorem readArgument_append (fits : n < 256 ^ size) (rest : List UInt8) :
    readArgument size (beBytes size n ++ rest) = some (n,rest) := by
  have read := readFixed_append (beBytes size n) rest
  rw [beBytes_length] at read
  rw [readArgument,read,Option.map_some,ofBe_beBytes fits]

theorem readHead_byte (known : major < 8) (short : info < 32) (rest : List UInt8) :
    readHead (UInt8.ofNat (32 * major + info) :: rest) = readInfo major info rest := by
  have whole : (UInt8.ofNat (32 * major + info)).toNat = 32 * major + info := by
    rw [UInt8.toNat_ofNat',Nat.mod_eq_of_lt]
    omega
  have kind : (32 * major + info) / 32 = major := by omega
  have extra : (32 * major + info) % 32 = info := by omega
  rw [readHead,whole,kind,extra]

theorem readHead_head (known : major < 8) (fits : n < 2 ^ 64) (rest : List UInt8) :
    readHead (head major n ++ rest) = some (major,n,rest) := by
  unfold head
  split
  · rename_i short
    rw [singleton_append,readHead_byte known (by omega)]
    simp [readInfo,short]
  split
  · have read : readArgument 1 (beBytes 1 n ++ rest) = some (n,rest) := readArgument_append (by omega) rest
    rw [cons_append,readHead_byte known (by omega)]
    simp [readInfo,read]
  split
  · have read : readArgument 2 (beBytes 2 n ++ rest) = some (n,rest) := readArgument_append (by omega) rest
    rw [cons_append,readHead_byte known (by omega)]
    simp [readInfo,read]
  split
  · have read : readArgument 4 (beBytes 4 n ++ rest) = some (n,rest) := readArgument_append (by omega) rest
    rw [cons_append,readHead_byte known (by omega)]
    simp [readInfo,read]
  · have read : readArgument 8 (beBytes 8 n ++ rest) = some (n,rest) := readArgument_append (by omega) rest
    rw [cons_append,readHead_byte known (by omega)]
    simp [readInfo,read]

theorem head_length (major n : Nat) : 0 < (head major n).length ∧ (head major n).length ≤ 9 := by
  unfold head
  split
  · simp
  split
  · simp
  split
  · simp
  split
  · simp
  · simp

theorem encodePairs_length (entries : List (Value × Value)) :
    (encodePairs entries).length = (entries.map fun e => (encode e.1).length + (encode e.2).length).sum := by
  induction entries with
  | nil => rfl
  | cons _ _ ih =>
    rw [encodePairs,length_append,length_append,ih,map_cons,sum_cons,Nat.add_assoc]

mutual

-- Lengths have to fit the 64 bits of a head.
def Fits : Value → Prop
  | .bytes b => b.length < 2 ^ 64
  | .text t => t.val.length < 2 ^ 64
  | .array items => items.length < 2 ^ 64 ∧ FitsAll items
  | .map entries => entries.length < 2 ^ 64 ∧ FitsPairs entries
  | .tag _ item => Fits item
  | _ => True

def FitsAll : List Value → Prop
  | [] => True
  | item :: items => Fits item ∧ FitsAll items

def FitsPairs : List (Value × Value) → Prop
  | [] => True
  | (key,item) :: entries => Fits key ∧ Fits item ∧ FitsPairs entries

end

theorem encode_length_pos (item : Value) : 0 < (encode item).length := by
  cases item <;> simp only [encode,length_append]
  all_goals first | exact (head_length _ _).1 | exact Nat.add_pos_left (head_length _ _).1 _

@[simp] theorem toWord_val (n : Word 64) : toWord n.val = some n := by
  simp [toWord]

@[simp] theorem toText_val (t : Text) : toText t.val = some t := by
  simp [toText,t.property]

-- Decoding inverts encoding whatever follows, given two units of fuel for each byte.
-- A list spends one unit for an item and one for the items after it.
mutual

theorem decodeItem_encode : ∀ (item : Value) (fuel : Nat) (rest : List UInt8), Fits item →
    2 * (encode item).length ≤ fuel + 1 → decodeItem fuel (encode item ++ rest) = some (item,rest)
  | item, 0, _, _, enough => by
      have := encode_length_pos item
      omega
  | .unsigned n, _ + 1, rest, _, _ => by
      simp [decodeItem,encode,readHead_head (by decide : 0 < 8) n.isLt rest]
  | .negative n, _ + 1, rest, _, _ => by
      simp [decodeItem,encode,readHead_head (by decide : 1 < 8) n.isLt rest]
  | .bytes b, _ + 1, rest, fits, _ => by
      simp [decodeItem,encode,readHead_head (by decide : 2 < 8) fits (b ++ rest)]
  | .text t, _ + 1, rest, fits, _ => by
      simp [decodeItem,encode,readHead_head (by decide : 3 < 8) fits (t.val ++ rest)]
  | .array items, fuel + 1, rest, fits, enough => by
      have inner : decodeItems fuel items.length (encodeAll items ++ rest) = some (items,rest) := by
        refine decodeItems_encode items fuel rest fits.2 ?_
        have positive := (head_length 4 items.length).1
        simp only [encode,length_append] at enough
        omega
      simp [decodeItem,encode,readHead_head (by decide : 4 < 8) fits.1 (encodeAll items ++ rest),inner]
  | .map entries, fuel + 1, rest, fits, enough => by
      have inner : decodePairs fuel entries.length (encodePairs entries ++ rest) = some (entries,rest) := by
        refine decodePairs_encode entries fuel rest fits.2 ?_
        have positive := (head_length 5 entries.length).1
        simp only [encode,length_append] at enough
        omega
      simp [decodeItem,encode,readHead_head (by decide : 5 < 8) fits.1 (encodePairs entries ++ rest),inner]
  | .tag n item, fuel + 1, rest, fits, enough => by
      have inner : decodeItem fuel (encode item ++ rest) = some (item,rest) := by
        refine decodeItem_encode item fuel rest fits ?_
        have positive := (head_length 6 n).1
        simp only [encode,length_append] at enough
        omega
      simp [decodeItem,encode,readHead_head (by decide : 6 < 8) n.isLt (encode item ++ rest),inner]
  | .bool b, _ + 1, rest, _, _ => by
      cases b with
      | false => simp [decodeItem,encode,readHead_head (by decide : 7 < 8) (by decide : 20 < 2 ^ 64) rest]
      | true => simp [decodeItem,encode,readHead_head (by decide : 7 < 8) (by decide : 21 < 2 ^ 64) rest]
  | .null, _ + 1, rest, _, _ => by
      simp [decodeItem,encode,readHead_head (by decide : 7 < 8) (by decide : 22 < 2 ^ 64) rest]

theorem decodeItems_encode : ∀ (items : List Value) (fuel : Nat) (rest : List UInt8), FitsAll items →
    2 * (encodeAll items).length ≤ fuel → decodeItems fuel items.length (encodeAll items ++ rest) = some (items,rest)
  | [], _, _, _, _ => by
      simp [decodeItems,encodeAll]
  | item :: items, fuel, rest, fits, enough => by
      have positive := encode_length_pos item
      simp only [encodeAll,length_append] at enough
      obtain ⟨fuel,rfl⟩ : ∃ less, fuel = less + 1 := ⟨fuel - 1,by omega⟩
      have first := decodeItem_encode item fuel (encodeAll items ++ rest) fits.1 (by omega)
      have others := decodeItems_encode items fuel rest fits.2 (by omega)
      simp [decodeItems,encodeAll,first,others]

theorem decodePairs_encode : ∀ (entries : List (Value × Value)) (fuel : Nat) (rest : List UInt8), FitsPairs entries →
    2 * (encodePairs entries).length ≤ fuel → decodePairs fuel entries.length (encodePairs entries ++ rest) = some (entries,rest)
  | [], _, _, _, _ => by
      simp [decodePairs,encodePairs]
  | (key,item) :: entries, fuel, rest, fits, enough => by
      have positive := encode_length_pos key
      simp only [encodePairs,length_append] at enough
      obtain ⟨fuel,rfl⟩ : ∃ less, fuel = less + 1 := ⟨fuel - 1,by omega⟩
      have first := decodeItem_encode key fuel (encode item ++ (encodePairs entries ++ rest)) fits.1 (by omega)
      have second := decodeItem_encode item fuel (encodePairs entries ++ rest) fits.2.1 (by omega)
      have others := decodePairs_encode entries fuel rest fits.2.2 (by omega)
      simp [decodePairs,encodePairs,first,second,others]

end

theorem parse_encode (fits : Fits item) : parse (encode item) = some item := by
  have read := decodeItem_encode item (2 * (encode item).length) [] fits (by omega)
  rw [append_nil] at read
  rw [parse,read]
  rfl

theorem encode_injective (left : Fits one) (right : Fits two) (same : encode one = encode two) : one = two := by
  have first := parse_encode left
  rw [same,parse_encode right] at first
  exact (Option.some.inj first).symm

end Library.Cbor
