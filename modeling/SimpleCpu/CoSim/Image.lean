import Mathlib.Data.List.TakeWhile
import Mathlib.Logic.Function.Basic

/-!
# Loading a program twice

A testbench and its reference each take the words of a program from the same list of pairs
of address and word.  `Stores.foldl_agree`: they then agree at every address of the list,
whatever they held before, and at every other address at which they agreed.
-/

namespace SimpleCpu.CoSim

/-! ## Words written one by one -/

section Stores

variable {M M' A W : Type} [DecidableEq A]

/-- Writing is reading back, between addresses that are `ok`. -/
structure Stores (ok : A → Prop) (read : M → A → W) (write : M → A × W → M) : Prop where
  read_write : ∀ mem p a, ok p.1 → ok a →
    read (write mem p) a = if a = p.1 then p.2 else read mem a

namespace Stores

variable {ok : A → Prop} {read : M → A → W} {write : M → A × W → M}
  {read' : M' → A → W} {write' : M' → A × W → M'} {words : List (A × W)} {a : A}

theorem mono {ok' : A → Prop} (h : Stores ok read write) (hok : ∀ a, ok' a → ok a) :
    Stores ok' read write where
  read_write mem p a hp ha := h.read_write mem p a (hok p.1 hp) (hok a ha)

/-- What the list does not name is kept. -/
theorem foldl_of_not_mem (h : Stores ok read write) (hwords : ∀ p ∈ words, ok p.1) (ha : ok a)
    (hmem : a ∉ words.map Prod.fst) (mem : M) :
    read (words.foldl write mem) a = read mem a := by
  induction words generalizing mem with
  | nil => rfl
  | cons p words ih =>
      rw [List.forall_mem_cons] at hwords
      rw [List.map_cons, List.mem_cons, not_or] at hmem
      rw [List.foldl_cons, ih hwords.2 hmem.2, h.read_write _ _ _ hwords.1 ha, if_neg hmem.1]

/-- The words of a list that is a part of `f`. -/
theorem foldl_part {f : A → W} (h : Stores ok read write) (hwords : ∀ p ∈ words, ok p.1)
    (hf : ∀ p ∈ words, p.2 = f p.1) (ha : ok a) {mem : M}
    (hor : a ∈ words.map Prod.fst ∨ read mem a = f a) : read (words.foldl write mem) a = f a := by
  induction words generalizing mem with
  | nil => exact hor.resolve_left List.not_mem_nil
  | cons p words ih =>
      rw [List.forall_mem_cons] at hwords hf
      rw [List.foldl_cons]
      refine ih hwords.2 hf.2 ?_
      rw [h.read_write _ _ _ hwords.1 ha]
      by_cases hap : a = p.1
      · rw [if_pos hap, hf.1, hap]
        exact Or.inr rfl
      · rw [if_neg hap]
        exact hor.imp_left fun hmem => (List.mem_cons.mp hmem).resolve_left hap

/-- Two memories that take the same words. -/
theorem foldl_agree (h : Stores ok read write) (h' : Stores ok read' write')
    (hwords : ∀ p ∈ words, ok p.1) (ha : ok a) {mem : M} {mem' : M'}
    (hor : a ∈ words.map Prod.fst ∨ read mem a = read' mem' a) :
    read (words.foldl write mem) a = read' (words.foldl write' mem') a := by
  induction words generalizing mem mem' with
  | nil => exact hor.resolve_left List.not_mem_nil
  | cons p words ih =>
      rw [List.forall_mem_cons] at hwords
      rw [List.foldl_cons, List.foldl_cons]
      refine ih hwords.2 ?_
      rw [h.read_write _ _ _ hwords.1 ha, h'.read_write _ _ _ hwords.1 ha]
      by_cases hap : a = p.1
      · rw [if_pos hap, if_pos hap]
        exact Or.inr rfl
      · rw [if_neg hap, if_neg hap]
        exact hor.imp_left fun hmem => (List.mem_cons.mp hmem).resolve_left hap

end Stores

end Stores

/-! ## Word arrays -/

section Array

variable {n m : Nat} {W : Type}

/-- An array of `size` words takes a word at the index of its address. -/
def storeWord (index : BitVec n → BitVec n) (size : BitVec n) (mem : BitVec n → W)
    (p : BitVec n × W) : BitVec n → W :=
  if index p.1 < size then Function.update mem (index p.1) p.2 else mem

/-- The words of a list, which pass through an array of the same size and end at the first
one that is zero. -/
def loadWords (index : BitVec n → BitVec n) (size : BitVec n) (mem : BitVec n → BitVec m)
    (words : List (BitVec n × BitVec m)) : BitVec n → BitVec m :=
  ((words.take size.toNat).takeWhile fun p => p.2 ≠ 0).foldl (storeWord index size) mem

/-- The first `count` words of an array set to one value. -/
def fillWords (count : BitVec n) (value : W) (mem : BitVec n → W) : BitVec n → W :=
  fun i => if i < count then value else mem i

variable {index : BitVec n → BitVec n} {size : BitVec n}

/-- A list without a zero that fits is loaded to its end. -/
theorem loadWords_eq {words : List (BitVec n × BitVec m)} (hfits : words.length ≤ size.toNat)
    (hnonzero : ∀ p ∈ words, p.2 ≠ 0) (mem : BitVec n → BitVec m) :
    loadWords index size mem words = words.foldl (storeWord index size) mem := by
  unfold loadWords
  rw [List.take_of_length_le hfits, List.takeWhile_eq_self_iff.mpr]
  exact fun p hp => decide_eq_true (hnonzero p hp)

/-- Addresses that have an index of their own. -/
theorem stores_storeWord {ok : BitVec n → Prop} (hin : ∀ a, ok a → index a < size)
    (hinj : ∀ a b, ok a → ok b → index a = index b → a = b) :
    Stores ok (fun (mem : BitVec n → W) a => mem (index a)) (storeWord index size) where
  read_write mem p a hp ha := by
    unfold storeWord
    rw [if_pos (hin p.1 hp)]
    by_cases hap : a = p.1
    · rw [if_pos hap, hap, Function.update_self]
    · rw [if_neg hap, Function.update_of_ne]
      exact fun hidx => hap (hinj a p.1 ha hp hidx)

end Array

end SimpleCpu.CoSim
