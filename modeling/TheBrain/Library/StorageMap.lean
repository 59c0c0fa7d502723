import Mathlib.Data.List.AList
import Mathlib.Data.List.Sort
import Mathlib.Algebra.BigOperators.Group.List.Basic
import Mathlib.Algebra.BigOperators.Ring.List
import Mathlib.Algebra.Ring.Nat

namespace Library

-- A storage map has finitely many keys, at most one value each, and an iteration
-- order that is not the order of insertion. The order is a parameter: iter sorts
-- the entries by an arbitrary rank of their keys.
abbrev StorageMap (K V : Type) := AList (fun _ : K => V)

-- Of an ordered list an element is among the first, or they are all there and before it.
theorem mem_take_or {l : List α} {r : α → α → Prop} (ordered : l.Pairwise r) (limit : Nat) (mem : x ∈ l) :
    x ∈ l.take limit ∨ limit ≤ (l.take limit).length ∧ ∀ y ∈ l.take limit, r y x := by
  rw [← List.take_append_drop limit l] at mem ordered
  rcases List.mem_append.mp mem with now | later
  · exact .inl now
  · refine .inr ⟨?_,fun y early => (List.pairwise_append.mp ordered).2.2 y early x later⟩
    have longer := List.length_pos_of_mem later
    rw [List.length_drop] at longer
    rw [List.length_take]
    omega

namespace StorageMap

def iter (rank : K → Nat) (m : StorageMap K V) : List (K × V) :=
  (m.entries.map fun e => (e.1,e.2)).insertionSort fun a b => rank a.1 ≤ rank b.1

def total (f : K → V → Nat) (m : StorageMap K V) : Nat := (m.entries.map fun e => f e.1 e.2).sum

@[simp] theorem total_empty (f : K → V → Nat) : total f (∅ : StorageMap K V) = 0 := rfl

variable [DecidableEq K]

theorem lookup_insert_if (k l : K) (v : V) (m : StorageMap K V) :
    (m.insert k v).lookup l = if l = k then some v else m.lookup l := by
  by_cases equal : l = k
  · subst equal
    simp
  · simp [equal]

theorem lookup_erase_if (k l : K) (m : StorageMap K V) : (m.erase k).lookup l = if l = k then none else m.lookup l := by
  by_cases equal : l = k
  · subst equal
    simp
  · simp [equal]

theorem insert_cases {m : StorageMap K V} (found : (m.insert k v).lookup l = some w) :
    l = k ∧ w = v ∨ l ≠ k ∧ m.lookup l = some w := by
  rw [lookup_insert_if] at found
  split at found
  · next same => exact .inl ⟨same,(Option.some.inj found).symm⟩
  · next apart => exact .inr ⟨apart,found⟩

theorem insert_absent {m : StorageMap K V} (missing : (m.insert k v).lookup l = none) : l ≠ k ∧ m.lookup l = none := by
  rw [lookup_insert_if] at missing
  split at missing
  · cases missing
  · next apart => exact ⟨apart,missing⟩

theorem erase_found {m : StorageMap K V} (found : (m.erase k).lookup l = some v) : l ≠ k ∧ m.lookup l = some v := by
  rw [lookup_erase_if] at found
  split at found
  · cases found
  · next apart => exact ⟨apart,found⟩

theorem mem_iter (rank : K → Nat) (m : StorageMap K V) : (k,v) ∈ iter rank m ↔ m.lookup k = some v := by
  rw [iter,List.mem_insertionSort,List.mem_map]
  constructor
  · rintro ⟨⟨_,_⟩,mem,same⟩
    obtain ⟨rfl,rfl⟩ := Prod.mk.inj same
    exact AList.mem_lookup_iff.mpr mem
  · intro found
    exact ⟨⟨k,v⟩,AList.mem_lookup_iff.mp found,rfl⟩

def eraseAll (m : StorageMap K V) (keys : List K) : StorageMap K V := keys.foldl (fun m key => m.erase key) m

theorem lookup_eraseAll (keys : List K) (m : StorageMap K V) (key : K) :
    (eraseAll m keys).lookup key = if key ∈ keys then none else m.lookup key := by
  induction keys generalizing m with
  | nil => simp [eraseAll]
  | cons first keys ih =>
    rw [eraseAll,List.foldl_cons,← eraseAll,ih (m.erase first),lookup_erase_if]
    by_cases later : key ∈ keys
    · rw [if_pos later,if_pos (List.mem_cons_of_mem _ later)]
    · by_cases same : key = first
      · simp [same]
      · simp [later,same]

section
variable [DecidableEq L]

-- The keys of a double map under one first part, in the iteration order of the second.
def keysUnder (rank : L → Nat) (first : K) (m : StorageMap (K × L) V) : List (K × L) :=
  ((m.iter fun key => rank key.2).map Prod.fst).filter fun key => key.1 = first

-- Removing them up to a limit: what is left, how many went, and whether some stay. All of
-- them are taken to be in the backend, where the limit counts; what the same block has
-- written would go besides.
def clearPrefix (rank : L → Nat) (first : K) (limit : Nat) (m : StorageMap (K × L) V) : StorageMap (K × L) V × Nat × Bool :=
  let keys := keysUnder rank first m
  (eraseAll m (keys.take limit),(keys.take limit).length,limit < keys.length)

theorem mem_keysUnder (rank : L → Nat) (first : K) (m : StorageMap (K × L) V) (key : K × L) :
    key ∈ keysUnder rank first m ↔ key.1 = first ∧ (m.lookup key).isSome = true := by
  rw [keysUnder,List.mem_filter,List.mem_map]
  constructor
  · rintro ⟨⟨_,mem,rfl⟩,under⟩
    refine ⟨of_decide_eq_true under,?_⟩
    rw [(mem_iter _ m).mp mem]
    rfl
  · rintro ⟨under,present⟩
    obtain ⟨value,found⟩ := Option.isSome_iff_exists.mp present
    exact ⟨⟨(key,value),(mem_iter _ m).mpr found,rfl⟩,decide_eq_true under⟩

theorem clearPrefix_erases (rank : L → Nat) (first : K) (limit : Nat) (m : StorageMap (K × L) V) :
    ∃ keys, (clearPrefix rank first limit m).1 = eraseAll m keys ∧ (clearPrefix rank first limit m).2.1 = keys.length ∧
      keys.length ≤ limit ∧ ∀ key ∈ keys, key.1 = first := by
  refine ⟨_,rfl,rfl,List.length_take_le ..,?_⟩
  intro key mem
  exact ((mem_keysUnder rank first m key).mp (List.mem_of_mem_take mem)).1

theorem clearPrefix_other (rank : L → Nat) (limit : Nat) (m : StorageMap (K × L) V) (other : key.1 ≠ first) :
    (clearPrefix rank first limit m).1.lookup key = m.lookup key := by
  refine (lookup_eraseAll _ m key).trans (if_neg ?_)
  intro mem
  exact other ((mem_keysUnder rank first m key).mp (List.mem_of_mem_take mem)).1

theorem clearPrefix_left (rank : L → Nat) (limit : Nat) (m : StorageMap (K × L) V)
    (left : (clearPrefix rank first limit m).1.lookup key = some v) : m.lookup key = some v := by
  rw [clearPrefix,lookup_eraseAll] at left
  split at left
  · cases left
  · exact left

theorem clearPrefix_done (rank : L → Nat) (limit : Nat) (m : StorageMap (K × L) V) (first : K)
    (done : (clearPrefix rank first limit m).2.2 = false) (second : L) :
    (clearPrefix rank first limit m).1.lookup (first,second) = none := by
  have all : (keysUnder rank first m).length ≤ limit := Nat.le_of_not_lt (of_decide_eq_false done)
  have after := lookup_eraseAll ((keysUnder rank first m).take limit) m (first,second)
  rw [List.take_of_length_le all] at after
  rw [clearPrefix,List.take_of_length_le all,after]
  split
  · rfl
  next missing =>
    cases found : m.lookup (first,second) with
    | none => rfl
    | some => exact absurd ((mem_keysUnder rank first m _).mpr ⟨rfl,by rw [found]; rfl⟩) missing

end

omit [DecidableEq K] in
theorem iter_keys_nodup (rank : K → Nat) (m : StorageMap K V) : ((iter rank m).map Prod.fst).Nodup := by
  have keys : ((iter rank m).map Prod.fst).Perm m.keys := by
    refine ((List.perm_insertionSort _ _).map Prod.fst).trans ?_
    rw [List.map_map]
    exact .refl _
  exact keys.nodup_iff.mpr m.keys_nodup

omit [DecidableEq K] in
theorem iter_sorted (rank : K → Nat) (m : StorageMap K V) : (iter rank m).Pairwise fun a b => rank a.1 ≤ rank b.1 := by
  have : Std.Total (fun a b : K × V => rank a.1 ≤ rank b.1) := ⟨fun a b => Nat.le_total _ _⟩
  have : IsTrans (K × V) (fun a b => rank a.1 ≤ rank b.1) := ⟨fun a b c => Nat.le_trans⟩
  exact List.pairwise_insertionSort _ _

omit [DecidableEq K] in
theorem iter_increasing (injective : Function.Injective rank) (m : StorageMap K V) :
    (iter rank m).Pairwise fun a b => rank a.1 < rank b.1 := by
  have distinct := List.pairwise_map.mp (iter_keys_nodup rank m)
  refine ((iter_sorted rank m).and distinct).imp ?_
  intro a b both
  exact Nat.lt_of_le_of_ne both.1 fun same => both.2 (injective same)

-- Of the entries behind a cursor each is on the page, or the page is full and ends before it.
theorem mem_page (injective : Function.Injective rank) (behind : K × V → Bool) (limit : Nat)
    (found : m.lookup k = some v) (passed : behind (k,v) = true) :
    (k,v) ∈ ((iter rank m).filter behind).take limit ∨
      limit ≤ (((iter rank m).filter behind).take limit).length ∧
        ∀ last ∈ ((iter rank m).filter behind).take limit, rank last.1 < rank k := by
  have mem : (k,v) ∈ (iter rank m).filter behind := List.mem_filter.mpr ⟨(mem_iter rank m).mpr found,passed⟩
  exact mem_take_or ((iter_increasing injective m).filter behind) limit mem

omit [DecidableEq K] in
theorem sum_iter (rank : K → Nat) (f : K → V → Nat) (m : StorageMap K V) :
    ((iter rank m).map fun e => f e.1 e.2).sum = total f m := by
  have sorted := (List.perm_insertionSort (fun a b : K × V => rank a.1 ≤ rank b.1) (m.entries.map fun e => (e.1,e.2))).map
    fun e => f e.1 e.2
  rw [iter,total,sorted.sum_eq,List.map_map]
  rfl

theorem total_erase (f : K → V → Nat) (m : StorageMap K V) (found : m.lookup k = some v) :
    total f m = f k v + total f (m.erase k) := by
  obtain ⟨w,before,after,_,split,rest⟩ := List.exists_of_kerase (AList.mem_keys.mp (AList.lookup_isSome.mp (by simp [found] : (m.lookup k).isSome)))
  have mem : (⟨k,w⟩ : Sigma fun _ : K => V) ∈ m.entries := by simp [split]
  have same : w = v := Option.some.inj ((AList.mem_lookup_iff.mpr mem).symm.trans found)
  subst same
  have erased : (m.erase k).entries = before ++ after := rest
  simp only [total,split,erased,List.map_append,List.map_cons,List.sum_append,List.sum_cons]
  omega

theorem total_insert (f : K → V → Nat) (m : StorageMap K V) : total f (m.insert k v) = f k v + total f (m.erase k) := by
  have erased : (m.erase k).entries = m.entries.kerase k := rfl
  simp [total,erased]

theorem total_replace (f : K → V → Nat) (m : StorageMap K V) (found : m.lookup k = some old) :
    total f (m.insert k v) + f k old = total f m + f k v := by
  rw [total_insert,total_erase f m found]
  omega

theorem erase_absent (m : StorageMap K V) (absent : m.lookup k = none) : m.erase k = m := by
  apply AList.ext
  exact List.kerase_of_notMem_keys (AList.lookup_eq_none.mp absent)

section
variable (f : K → V → Nat)
include f

theorem total_create (m : StorageMap K V) (absent : m.lookup k = none) :
    total f (m.insert k v) = total f m + f k v := by
  rw [total_insert,erase_absent m absent,Nat.add_comm]

theorem le_total (m : StorageMap K V) (found : m.lookup k = some v) : f k v ≤ total f m := by
  rw [total_erase f m found]
  omega

theorem total_single (m : StorageMap K V) (key : K) :
    total (fun k v => if k = key then f k v else 0) m = (m.lookup key).elim 0 (f key) := by
  induction m using AList.insertRec with
  | H0 => rfl
  | IH k v m fresh ih =>
    rw [total_create _ m (AList.lookup_eq_none.mpr fresh),ih,lookup_insert_if]
    by_cases equal : k = key
    · subst equal
      rw [if_pos rfl,if_pos rfl,AList.lookup_eq_none.mpr fresh]
      exact Nat.zero_add _
    · rw [if_neg equal,if_neg (Ne.symm equal),Nat.add_zero]

theorem total_le (g : K → W → Nat) (m : StorageMap K V) (n : StorageMap K W)
    (covered : ∀ k v, m.lookup k = some v → f k v ≤ (n.lookup k).elim 0 (g k)) : total f m ≤ total g n := by
  induction m using AList.insertRec generalizing n with
  | H0 => exact Nat.zero_le _
  | IH k v m fresh ih =>
    have absent : m.lookup k = none := AList.lookup_eq_none.mpr fresh
    have here : f k v ≤ (n.lookup k).elim 0 (g k) := covered k v (AList.lookup_insert m)
    have apart : ∀ l w, m.lookup l = some w → l ≠ k := by
      intro l w found same
      rw [same,absent] at found
      cases found
    rw [total_create f m absent]
    cases held : n.lookup k with
    | none =>
      have rest := ih n (fun l w found => covered l w ((AList.lookup_insert_ne (apart l w found)).trans found))
      rw [held] at here
      exact Nat.add_le_add rest here
    | some w =>
      have rest := ih (n.erase k) (by
        intro l x found
        rw [AList.lookup_erase_ne (apart l x found)]
        exact covered l x ((AList.lookup_insert_ne (apart l x found)).trans found))
      rw [held] at here
      rw [total_erase g n held,Nat.add_comm (g k w)]
      exact Nat.add_le_add rest here

end

theorem total_congr (f g : K → V → Nat) (m : StorageMap K V) (same : ∀ k v, m.lookup k = some v → f k v = g k v) :
    total f m = total g m := by
  refine congrArg List.sum (List.map_congr_left ?_)
  intro entry mem
  exact same entry.1 entry.2 (AList.mem_lookup_iff.mpr mem)

theorem total_rewrite (f g : K → V → Nat) (m : StorageMap K V) (found : m.lookup k = some old)
    (agree : ∀ l v, l ≠ k → g l v = f l v) : total g (m.insert k v) + f k old = total f m + g k v := by
  rw [total_insert,total_erase f m found,total_congr g f (m.erase k)]
  · omega
  · intro l w mem
    refine agree l w ?_
    intro same
    rw [same,AList.lookup_erase] at mem
    cases mem

theorem total_remove (f g : K → V → Nat) (m : StorageMap K V) (found : m.lookup k = some old)
    (agree : ∀ l v, l ≠ k → g l v = f l v) : total g (m.erase k) + f k old = total f m := by
  have whole := total_rewrite (v := old) f g m found agree
  rw [total_insert] at whole
  omega

theorem total_extend (f g : K → V → Nat) (m : StorageMap K V) (absent : m.lookup k = none)
    (agree : ∀ l v, l ≠ k → g l v = f l v) : total g (m.insert k v) = total f m + g k v := by
  rw [total_create g m absent,total_congr g f m]
  intro l w mem
  refine agree l w ?_
  intro same
  rw [same,absent] at mem
  cases mem

theorem total_write_le (f g : K → V → Nat) (m : StorageMap K V) (agree : ∀ l v, l ≠ k → g l v = f l v) :
    total g (m.insert k v) ≤ total f m + g k v := by
  cases found : m.lookup k with
  | none => exact (total_extend f g m found agree).le
  | some =>
    have whole := total_rewrite (v := v) f g m found agree
    omega

theorem total_insert_le (f : K → V → Nat) (m : StorageMap K V) : total f (m.insert k v) ≤ total f m + f k v :=
  total_write_le f f m fun _ _ _ => rfl

theorem total_listed (f : K → V → Nat) (m : StorageMap K V) (keys : List K) (distinct : keys.Nodup)
    (outside : ∀ k v, m.lookup k = some v → k ∉ keys → f k v = 0) :
    total f m = (keys.map fun k => (m.lookup k).elim 0 (f k)).sum := by
  induction keys generalizing m with
  | nil =>
    refine Nat.le_zero.mp (total_le f f m ∅ ?_)
    intro k v found
    exact (outside k v found List.not_mem_nil).le
  | cons key keys ih =>
    obtain ⟨apart,rest⟩ := List.nodup_cons.mp distinct
    rw [List.map_cons,List.sum_cons]
    cases found : m.lookup key with
    | none =>
      rw [ih m rest,Option.elim_none,Nat.zero_add]
      intro k v present missing
      refine outside k v present fun mem => ?_
      rcases List.mem_cons.mp mem with same | mem
      · rw [same,found] at present
        cases present
      · exact missing mem
    | some =>
      -- The key's own share is split off; no other key of the list is affected.
      have others : keys.map (fun k => ((m.erase key).lookup k).elim 0 (f k)) =
          keys.map fun k => (m.lookup k).elim 0 (f k) := by
        refine List.map_congr_left fun k mem => ?_
        have different : k ≠ key := by
          intro same
          exact apart (same ▸ mem)
        rw [lookup_erase_if,if_neg different]
      rw [total_erase f m found,ih (m.erase key) rest,others,Option.elim_some]
      intro k v present missing
      rw [lookup_erase_if] at present
      split at present
      · cases present
      next different =>
        refine outside k v present fun mem => ?_
        rcases List.mem_cons.mp mem with same | mem
        · exact different same
        · exact missing mem

omit [DecidableEq K] in
theorem total_add (f g : K → V → Nat) (m : StorageMap K V) : total (fun k v => f k v + g k v) m = total f m + total g m := by
  simp only [total]
  exact List.sum_map_add

omit [DecidableEq K] in
theorem total_mul (f : K → V → Nat) (n : Nat) (m : StorageMap K V) : total (fun k v => f k v * n) m = total f m * n := by
  simp only [total]
  exact List.sum_map_mul_right ..

end StorageMap
end Library
