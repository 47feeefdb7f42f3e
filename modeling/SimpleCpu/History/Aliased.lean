import Mathlib.Data.List.Basic

/-!
# Histories of stores and loads

What a load returns, as a function of the stores before it.  A memory that is accessed
through an index function keeps one value for each index, so the keys of one index alias.

* `loads_eq_results`: such a memory returns what was stored last under the index of the
  key that is loaded.
* `latest_eq_iff`: this is what was stored last under the key itself unless a store to
  another key of that index came between and left another value.
-/

namespace SimpleCpu.History

/-- A store or a load. -/
inductive Op (K V : Type) where
  | store (k : K) (v : V)
  | load (k : K)
  deriving DecidableEq, Repr

variable {K I V M : Type}

def Op.key : Op K V → K
  | .store k _ => k
  | .load k => k

/-- The values the loads of a history return, each a function of the operations before
it. -/
def results (f : List (Op K V) → K → V) (past : List (Op K V)) : List (Op K V) → List V
  | [] => []
  | .store k v :: ops => results f (past ++ [.store k v]) ops
  | .load k :: ops => f past k :: results f (past ++ [.load k]) ops

/-- The values the loads return from a memory. -/
def loads (read : M → K → V) (write : M → K → V → M) (m : M) : List (Op K V) → List V
  | [] => []
  | .store k v :: ops => loads read write (write m k v) ops
  | .load k :: ops => read m k :: loads read write m ops

section Latest

variable [DecidableEq I]

/-- The last store to a key of index `i`. -/
def lastStore (idx : K → I) (i : I) : List (Op K V) → Option (K × V)
  | [] => none
  | .store k v :: ops => (lastStore idx i ops).or (if idx k = i then some (k, v) else none)
  | .load _ :: ops => lastStore idx i ops

/-- The value last stored under the index of a key, or the initial one. -/
def latest (idx : K → I) (init : K → V) (past : List (Op K V)) (k : K) : V :=
  ((lastStore idx (idx k) past).map Prod.snd).getD (init k)

variable {idx : K → I} {i : I} {init : K → V} {k : K} {v : V}

theorem lastStore_append_load (past : List (Op K V)) :
    lastStore idx i (past ++ [.load k]) = lastStore idx i past := by
  induction past with
  | nil => rfl
  | cons op past ih =>
      cases op with
      | store | load => simp only [List.cons_append, lastStore, ih]

theorem lastStore_append_store (past : List (Op K V)) :
    lastStore idx i (past ++ [.store k v]) =
      if idx k = i then some (k, v) else lastStore idx i past := by
  induction past with
  | nil => simp [lastStore]
  | cons op past ih =>
      cases op with
      | store =>
          simp only [List.cons_append, lastStore, ih]
          split <;> rfl
      | load => simp only [List.cons_append, lastStore, ih]

/-- The key of the last store under an index is the key of an operation, and has the
index. -/
theorem lastStore_mem {past : List (Op K V)} {j : K}
    (h : lastStore idx i past = some (j, v)) : .store j v ∈ past ∧ idx j = i := by
  induction past with
  | nil => exact absurd h.symm (Option.some_ne_none _)
  | cons op past ih =>
      cases op with
      | load =>
          obtain ⟨hmem, hidx⟩ := ih h
          exact ⟨List.mem_cons_of_mem _ hmem, hidx⟩
      | store j' w =>
          unfold lastStore at h
          cases hpast : lastStore idx i past with
          | some x =>
              rw [hpast, Option.some_or] at h
              obtain ⟨hmem, hidx⟩ := ih (hpast.trans h)
              exact ⟨List.mem_cons_of_mem _ hmem, hidx⟩
          | none =>
              rw [hpast, Option.none_or] at h
              split at h
              next hidx =>
                obtain ⟨rfl, rfl⟩ := Prod.mk.inj (Option.some.inj h)
                exact ⟨List.mem_cons_self, hidx⟩
              next => exact absurd h.symm (Option.some_ne_none _)

theorem latest_append_load (past : List (Op K V)) (j : K) :
    latest idx init (past ++ [.load k]) j = latest idx init past j := by
  unfold latest
  rw [lastStore_append_load]

theorem latest_append_store (past : List (Op K V)) (j : K) :
    latest idx init (past ++ [.store k v]) j =
      if idx j = idx k then v else latest idx init past j := by
  unfold latest
  rw [lastStore_append_store]
  by_cases h : idx j = idx k
  · rw [if_pos h.symm, if_pos h]
    rfl
  · rw [if_neg (Ne.symm h), if_neg h]

/-! ## Memories -/

/-- On the keys in `D`, the memory finds again what was last stored under an index. -/
def Keeps (idx : K → I) (D : K → Prop) (read : M → K → V) (write : M → K → V → M) : Prop :=
  ∀ m k j v, D k → D j → read (write m k v) j = if idx j = idx k then v else read m j

variable {D : K → Prop} {read : M → K → V} {write : M → K → V → M}

/-- A memory that returns the latest values goes on to do so. -/
theorem loads_eq_results_of_past (h : Keeps idx D read write) {ops : List (Op K V)}
    (hops : ∀ op ∈ ops, D op.key) {m : M} {past : List (Op K V)}
    (hm : ∀ j, D j → read m j = latest idx init past j) :
    loads read write m ops = results (latest idx init) past ops := by
  induction ops generalizing m past with
  | nil => rfl
  | cons op ops ih =>
      obtain ⟨hop, hrest⟩ := List.forall_mem_cons.mp hops
      cases op with
      | store k v =>
          refine ih hrest fun j hj => ?_
          rw [h m k j v hop hj, latest_append_store, hm j hj]
      | load k =>
          have htail : loads read write m ops =
              results (latest idx init) (past ++ [.load k]) ops :=
            ih hrest fun j hj => by rw [latest_append_load, hm j hj]
          show read m k :: loads read write m ops = _ :: _
          rw [hm k hop, htail]

/-- The loads return what was stored last under their index. -/
theorem loads_eq_results (h : Keeps idx D read write) {ops : List (Op K V)}
    (hops : ∀ op ∈ ops, D op.key) (m : M) :
    loads read write m ops = results (latest idx (read m)) [] ops :=
  loads_eq_results_of_past h hops fun _ _ => rfl

end Latest

/-! ## Two ways to answer -/

section Results

variable {f g : List (Op K V) → K → V}

/-- Two histories of answers agree if all their answers do. -/
theorem results_eq_iff (past ops : List (Op K V)) :
    results f past ops = results g past ops ↔
      ∀ pre k post, ops = pre ++ .load k :: post → f (past ++ pre) k = g (past ++ pre) k := by
  induction ops generalizing past with
  | nil =>
      refine ⟨fun _ pre k post h => ?_, fun _ => rfl⟩
      exact absurd h.symm (by simp)
  | cons op ops ih =>
      have hshift : ∀ pre, past ++ [op] ++ pre = past ++ (op :: pre) := fun pre => by
        rw [List.append_assoc, List.singleton_append]
      have htail := ih (past ++ [op])
      simp only [hshift] at htail
      cases op with
      | store k v =>
          rw [results, results, htail]
          constructor
          · intro h pre j post heq
            cases pre with
            | nil => exact absurd heq (by simp)
            | cons op' pre =>
                obtain ⟨rfl, heq'⟩ := List.cons.inj heq
                exact h pre j post heq'
          · intro h pre j post heq
            exact h (.store k v :: pre) j post (by rw [heq, List.cons_append])
      | load k =>
          rw [results, results, List.cons.injEq, htail]
          constructor
          · rintro ⟨hhead, h⟩ pre j post heq
            cases pre with
            | nil =>
                obtain ⟨hop, -⟩ := List.cons.inj heq
                obtain rfl := Op.load.inj hop
                rw [List.append_nil]
                exact hhead
            | cons op' pre =>
                obtain ⟨rfl, heq'⟩ := List.cons.inj heq
                exact h pre j post heq'
          · intro h
            refine ⟨?_, fun pre j post heq => ?_⟩
            · have hhead := h [] k ops rfl
              rwa [List.append_nil] at hhead
            · exact h (.load k :: pre) j post (by rw [heq, List.cons_append])

end Results

section Initial

variable [DecidableEq I] {idx : K → I} {init init' : K → V} {ops : List (Op K V)}

/-- The initial values of the keys alone matter. -/
theorem results_latest_congr (h : ∀ op ∈ ops, init op.key = init' op.key) :
    results (latest idx init) [] ops = results (latest idx init') [] ops := by
  refine (results_eq_iff [] ops).mpr fun pre k post heq => ?_
  have hload : .load k ∈ ops := by
    rw [heq]
    exact List.mem_append_right _ List.mem_cons_self
  have hk : init k = init' k := h _ hload
  unfold latest
  rw [hk]

end Initial

/-! ## Keys that alias -/

section Alias

variable [DecidableEq I] [DecidableEq K] {idx : K → I} {init : K → V} {k : K} {v : V}

/-- Where no key of the index was stored, the key itself was not. -/
theorem lastStore_eq_none {past : List (Op K V)} (h : lastStore idx (idx k) past = none) :
    lastStore id k past = none := by
  induction past with
  | nil => rfl
  | cons op past ih =>
      cases op with
      | load => exact ih h
      | store j w =>
          obtain ⟨hpast, hj⟩ := Option.or_eq_none_iff.mp h
          have hne : j ≠ k := by
            rintro rfl
            rw [if_pos rfl] at hj
            exact Option.some_ne_none _ hj
          exact Option.or_eq_none_iff.mpr ⟨ih hpast, if_neg hne⟩

/-- Where the last store under the index is one to the key itself, it is the last one to
the key. -/
theorem lastStore_eq_some {past : List (Op K V)}
    (h : lastStore idx (idx k) past = some (k, v)) : lastStore id k past = some (k, v) := by
  induction past with
  | nil => exact h
  | cons op past ih =>
      cases op with
      | load => exact ih h
      | store j w =>
          unfold lastStore at h ⊢
          cases hpast : lastStore idx (idx k) past with
          | some x =>
              rw [hpast, Option.some_or] at h
              rw [ih (hpast.trans h), Option.some_or]
          | none =>
              rw [hpast, Option.none_or] at h
              rw [lastStore_eq_none hpast, Option.none_or]
              split at h
              next =>
                obtain ⟨rfl, rfl⟩ := Prod.mk.inj (Option.some.inj h)
                exact if_pos rfl
              next => exact absurd h.symm (Option.some_ne_none _)

/-- What is kept for the index is what was stored last under the key, unless a store to
another key came last and left another value. -/
theorem latest_eq_iff (past : List (Op K V)) :
    latest idx init past k = latest id init past k ↔
      ∀ j v, lastStore idx (idx k) past = some (j, v) → j = k ∨ v = latest id init past k := by
  cases hlast : lastStore idx (idx k) past with
  | none =>
      have hown : lastStore id (id k) past = none := lastStore_eq_none hlast
      refine ⟨fun _ j v h => absurd h.symm (Option.some_ne_none _), fun _ => ?_⟩
      unfold latest
      rw [hlast, hown]
  | some x =>
      obtain ⟨j, v⟩ := x
      have hleft : latest idx init past k = v := by
        unfold latest
        rw [hlast]
        rfl
      rw [hleft]
      constructor
      · rintro h j' v' hsome
        obtain ⟨rfl, rfl⟩ := Prod.mk.inj (Option.some.inj hsome)
        exact Or.inr h
      · intro h
        rcases h j v rfl with rfl | hv
        · have hown : lastStore id (id j) past = some (j, v) := lastStore_eq_some hlast
          unfold latest
          rw [hown]
          rfl
        · exact hv

/-- At every load, the last store under its index is one to its key or left the value last
stored there. -/
def NoClobber (idx : K → I) (init : K → V) (ops : List (Op K V)) : Prop :=
  ∀ past k post, ops = past ++ .load k :: post →
    ∀ j v, lastStore idx (idx k) past = some (j, v) → j = k ∨ v = latest id init past k

theorem results_latest_eq_iff (ops : List (Op K V)) :
    results (latest idx init) [] ops = results (latest id init) [] ops ↔
      NoClobber idx init ops := by
  rw [results_eq_iff]
  simp only [List.nil_append, latest_eq_iff]
  exact Iff.rfl

/-- A history whose keys do not alias is not clobbered, whatever it stores. -/
theorem NoClobber.of_separate {ops : List (Op K V)}
    (h : ∀ a ∈ ops, ∀ b ∈ ops, idx a.key = idx b.key → a.key = b.key) :
    NoClobber idx init ops := by
  intro past k post heq j v hlast
  obtain ⟨hmem, hidx⟩ := lastStore_mem hlast
  have hstore : .store j v ∈ ops := by
    rw [heq]
    exact List.mem_append_left _ hmem
  have hload : .load k ∈ ops := by
    rw [heq]
    exact List.mem_append_right _ List.mem_cons_self
  exact Or.inl (h _ hstore _ hload hidx)

end Alias

end SimpleCpu.History
