import Mathlib.Logic.Function.Basic

/-!
# The table of used slots

Both program generators keep an array `PC` that marks the slots of the program that are
taken, and `make_room` searches it for two free slots in a row.  An index outside the
array stops a generator here.
-/

namespace SimpleCpu.HexGen

/-- Why a generator does not return: `exit`, an index outside `PC` and `instr`, another
access or a division that C leaves undefined, or the end of the random numbers. -/
inductive Stop where
  | exit
  | index (i : BitVec 32)
  | undefined
  | draws
  deriving DecidableEq, Repr

theorem bind_ok {α β ε : Type} {x : Except ε α} {f : α → Except ε β} {b : β}
    (h : x >>= f = .ok b) : ∃ a, x = .ok a ∧ f a = .ok b := by
  cases x with
  | error e => exact absurd h nofun
  | ok a => exact ⟨a, rfl, h⟩

/-- A test of the result, where there is one. -/
theorem exists_of_any {α ε : Type} {x : Except ε α} {p : α → Bool}
    (h : x.toOption.any p = true) : ∃ a, x = .ok a ∧ p a = true := by
  cases x with
  | error e => exact absurd h Bool.false_ne_true
  | ok a => exact ⟨a, rfl, h⟩

/-- No index outside `PC` and `instr` is used. -/
def Inside {α : Type} (x : Except Stop α) : Prop := ∀ i, x ≠ .error (.index i)

theorem inside_ok {α : Type} (a : α) : Inside (.ok a : Except Stop α) := fun _ => nofun

theorem inside_error {α : Type} {e : Stop} (h : ∀ i, e ≠ .index i) :
    Inside (.error e : Except Stop α) := by
  intro i he
  exact h i (Except.error.inj he)

theorem inside_exit {α : Type} : Inside (.error .exit : Except Stop α) :=
  inside_error fun _ => nofun

theorem inside_undefined {α : Type} : Inside (.error .undefined : Except Stop α) :=
  inside_error fun _ => nofun

theorem inside_draws {α : Type} : Inside (.error .draws : Except Stop α) :=
  inside_error fun _ => nofun

instance {α : Type} : (x : Except Stop α) → Decidable (Inside x)
  | .ok a => isTrue (inside_ok a)
  | .error (.index i) => isFalse fun h => h i rfl
  | .error .exit => isTrue inside_exit
  | .error .undefined => isTrue inside_undefined
  | .error .draws => isTrue inside_draws

/-- A sequence stays inside when both parts do. -/
theorem inside_bind {α β : Type} {x : Except Stop α} {f : α → Except Stop β} :
    Inside (x >>= f) ↔ Inside x ∧ ∀ a, x = .ok a → Inside (f a) := by
  cases x with
  | error e =>
      have hbind : (Except.error e >>= f) = .error e := rfl
      rw [hbind]
      constructor
      · intro h
        refine ⟨fun i he => ?_, fun a ha => absurd ha nofun⟩
        exact h i (by rw [Except.error.inj he])
      · rintro ⟨h, -⟩ i he
        exact h i (by rw [Except.error.inj he])
  | ok a =>
      have hbind : (Except.ok a >>= f) = f a := rfl
      rw [hbind]
      constructor
      · intro h
        refine ⟨inside_ok a, fun b hb => ?_⟩
        rw [← Except.ok.inj hb]
        exact h
      · rintro ⟨-, h⟩
        exact h a rfl

/-- `IMEM_SIZE` -/
def imemSize : BitVec 32 := 0x2000

/-- `PC` -/
abbrev Slots := BitVec 32 → Bool

namespace Slots

variable {pc : Slots} {i : BitVec 32} {b : Bool}

/-- `PC[i]` -/
def read (pc : Slots) (i : BitVec 32) : Except Stop Bool :=
  if i < imemSize then .ok (pc i) else .error (.index i)

/-- `(PC[i]==0) && (PC[i+4]==0)` -/
def isFree (pc : Slots) (i : BitVec 32) : Except Stop Bool := do
  if ← pc.read i then return false
  else return !(← pc.read (i + 4))

/-- The search of `make_room`, over what is left of the indices. -/
def find (pc : Slots) : List (BitVec 32) → Except Stop (Option (BitVec 32))
  | [] => .ok none
  | i :: is => do if ← pc.isFree i then return some i else find pc is

/-! ## What is read is inside -/

theorem read_ok (h : pc.read i = .ok b) : i < imemSize ∧ pc i = b := by
  unfold read at h
  split at h
  next hi => exact ⟨hi, Except.ok.inj h⟩
  next => exact absurd h nofun

/-- Two slots in a row are free. -/
theorem isFree_ok (h : pc.isFree i = .ok b) :
    (b = true ↔ pc i = false ∧ pc (i + 4) = false) ∧ i < imemSize ∧
      (pc i = false → i + 4 < imemSize) := by
  obtain ⟨used, hi, h⟩ := bind_ok h
  obtain ⟨hlt, rfl⟩ := read_ok hi
  cases hused : pc i with
  | true =>
      rw [hused] at h
      obtain rfl : false = b := Except.ok.inj h
      simp [hlt]
  | false =>
      rw [hused] at h
      obtain ⟨used', hi', h⟩ := bind_ok h
      obtain ⟨hlt', rfl⟩ := read_ok hi'
      obtain rfl := Except.ok.inj h
      exact ⟨by simp, hlt, fun _ => hlt'⟩

/-- Inside the array the search does not stop. -/
theorem isFree_eq (hi : i < imemSize) (hi4 : i + 4 < imemSize) :
    pc.isFree i = .ok (!pc i && !pc (i + 4)) := by
  unfold isFree read
  rw [if_pos hi, if_pos hi4]
  cases pc i <;> rfl

/-- What the search finds is free. -/
theorem find_ok {is : List (BitVec 32)} (h : pc.find is = .ok (some i)) :
    i ∈ is ∧ pc i = false ∧ pc (i + 4) = false ∧ i < imemSize ∧ i + 4 < imemSize := by
  induction is with
  | nil => exact absurd h nofun
  | cons j is ih =>
      obtain ⟨free, hfree, h⟩ := bind_ok h
      cases free with
      | true =>
          obtain rfl := Option.some.inj (Except.ok.inj h)
          obtain ⟨hiff, hlt, hlt'⟩ := isFree_ok hfree
          have hpc := hiff.mp rfl
          exact ⟨List.mem_cons_self, hpc.1, hpc.2, hlt, hlt' hpc.1⟩
      | false =>
          obtain ⟨hmem, hrest⟩ := ih h
          exact ⟨List.mem_cons_of_mem _ hmem, hrest⟩

/-- The search behind indices that are inside and not free. -/
theorem find_append {is js : List (BitVec 32)}
    (his : ∀ i ∈ is, i < imemSize ∧ i + 4 < imemSize) :
    pc.find (is ++ js) =
      match is.find? fun i => !pc i && !pc (i + 4) with
      | some i => .ok (some i)
      | none => pc.find js := by
  induction is with
  | nil => rfl
  | cons i is ih =>
      obtain ⟨hi, hi4⟩ := his i List.mem_cons_self
      have hrest := ih fun j hj => his j (List.mem_cons_of_mem _ hj)
      have hstep : pc.find (i :: is ++ js) =
          if !pc i && !pc (i + 4) then .ok (some i) else pc.find (is ++ js) := by
        show (do if ← pc.isFree i then return some i else find pc (is ++ js)) = _
        rw [isFree_eq hi hi4]
        rfl
      rw [hstep, List.find?_cons]
      cases !pc i && !pc (i + 4) with
      | true => rfl
      | false => exact hrest

end Slots

end SimpleCpu.HexGen
