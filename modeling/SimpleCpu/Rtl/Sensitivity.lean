import Mathlib.Logic.Basic

/-!
# Blocks with a sensitivity list

An `always` block runs when a signal of its list changes, and keeps what it has assigned
otherwise.  Where it reads other signals too, its outputs depend on the past.

* `run_out_iff`: the outputs are those of a combinational block exactly if they are what the
  block assigns whenever it does not run.
* `run_out`: a block that reads nothing but its list is combinational.
-/

namespace SimpleCpu.Rtl

variable {S I V : Type} [DecidableEq S]

/-- The values of the list when the block last ran, and what it assigned. -/
structure AlwaysBlock (S V : Type) where
  seen : S
  out : V

namespace AlwaysBlock

/-- The signals take new values, those of the list being `key`. -/
def step (body : S → I → V) (b : AlwaysBlock S V) (key : S) (input : I) : AlwaysBlock S V :=
  if key = b.seen then b else { seen := key, out := body key input }

/-- The block after the signals have taken `k` values. -/
def run (body : S → I → V) (b : AlwaysBlock S V) (key : Nat → S) (input : Nat → I) :
    Nat → AlwaysBlock S V
  | 0 => b
  | k + 1 => (run body b key input k).step body (key k) (input k)

variable {body : S → I → V} {b : AlwaysBlock S V} {key : Nat → S} {input : Nat → I}

theorem step_seen (k : S) (i : I) : (b.step body k i).seen = k := by
  unfold step
  split
  next h => exact h.symm
  next => rfl

theorem run_seen (k : Nat) : (b.run body key input (k + 1)).seen = key k :=
  step_seen _ _

theorem step_of_eq {k : S} (i : I) (h : k = b.seen) : b.step body k i = b := if_pos h

theorem step_out_of_ne {k : S} (i : I) (h : k ≠ b.seen) : (b.step body k i).out = body k i :=
  congrArg AlwaysBlock.out (if_neg h)

/-- When the values of the list stay as they are, so does the output. -/
theorem run_out_of_eq {k : Nat} (h : key (k + 1) = key k) :
    (b.run body key input (k + 2)).out = (b.run body key input (k + 1)).out :=
  congrArg AlwaysBlock.out (step_of_eq (input (k + 1)) (h.trans (run_seen k).symm))

theorem run_out_of_ne {k : Nat} (h : key (k + 1) ≠ key k) :
    (b.run body key input (k + 2)).out = body (key (k + 1)) (input (k + 1)) :=
  step_out_of_ne (input (k + 1)) fun hc => h (hc.trans (run_seen k))

/-- The output is what the block would assign, over the first `n` values, exactly if it is
at the first and no value that leaves the list alone would change it. -/
theorem run_out_iff (n : Nat) :
    (∀ k < n, (b.run body key input (k + 1)).out = body (key k) (input k)) ↔
      (0 < n → key 0 = b.seen → b.out = body (key 0) (input 0)) ∧
        ∀ k, k + 1 < n → key (k + 1) = key k →
          body (key k) (input k) = body (key (k + 1)) (input (k + 1)) := by
  constructor
  · intro hall
    refine ⟨fun hn hkey => ?_, fun k hk hkey => ?_⟩
    · have hfirst := hall 0 hn
      have hsame : b.run body key input 1 = b := step_of_eq (input 0) hkey
      rw [hsame] at hfirst
      exact hfirst
    · rw [← hall k (by omega), ← hall (k + 1) hk]
      exact (run_out_of_eq hkey).symm
  · rintro ⟨hfirst, hstep⟩ k hk
    induction k with
    | zero =>
        by_cases hkey : key 0 = b.seen
        · have hsame : b.run body key input 1 = b := step_of_eq (input 0) hkey
          rw [hsame]
          exact hfirst hk hkey
        · exact step_out_of_ne (input 0) hkey
    | succ k ih =>
        by_cases hkey : key (k + 1) = key k
        · rw [run_out_of_eq hkey, ih (by omega)]
          exact hstep k hk hkey
        · exact run_out_of_ne hkey

/-- A block that reads nothing but its list, and has run. -/
theorem run_out {body : S → V} {input : Nat → Unit} (hfirst : key 0 ≠ b.seen) (k : Nat) :
    (b.run (fun s _ => body s) key input (k + 1)).out = body (key k) := by
  refine (run_out_iff (k + 1)).mpr ⟨fun _ h => absurd h hfirst, fun i _ h => ?_⟩ k (by omega)
  rw [h]

end AlwaysBlock

end SimpleCpu.Rtl
