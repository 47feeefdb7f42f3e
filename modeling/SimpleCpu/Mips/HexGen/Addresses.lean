import Mathlib.Data.Finset.Card
import Mathlib.Data.Finset.Range
import SimpleCpu.Mips.HexGen.EndSeq

/-!
# Addresses that have been used

`ls_addr` and `br_addr` hold the addresses of the loads and stores and of the branches that
have been generated.  `get_rand_ls_addr` and `get_rand_br_addr` choose one of them, with an
index below `instr_gen`.

* `History`, `Session`: runs with the addresses that they record.
* `card_usedSlots_placed`: every request takes a slot, so `instr_gen` stays inside the
  arrays.
* `Tracks`: what the arrays hold.
* `getRandAddr_iff`: what the two functions return, and when they do.
-/

namespace SimpleCpu.Mips.HexGen

open SimpleCpu.HexGen SimpleCpu.Iss SimpleCpu.Mips.Iss

/-! ## `hex_gen_api.c` -/

/-- The first loop of the two functions, with the rounds that are left. -/
def drawAddr (addr : Nat → BitVec 32) (instrGen : Nat) :
    Nat → List Nat → Except Stop (Option (BitVec 32) × List Nat)
  | 0, rand => .ok (none, rand)
  | _ + 1, [] => .error .draws
  | rounds + 1, n :: rand =>
      if instrGen = 0 then .error .undefined
      else if 0x2000 ≤ n % instrGen then .error .undefined
      else if addr (n % instrGen) ≠ 0 then .ok (some (addr (n % instrGen)), rand)
      else drawAddr addr instrGen rounds rand

/-- The second loop. -/
def firstAddr (addr : Nat → BitVec 32) : BitVec 32 :=
  match (List.range 0x2000).find? fun i => addr i != 0 with
  | some i => addr i
  | none => 0

/-- The body of the two functions. -/
def Gen.getRandAddr (g : Gen) (addr : Nat → BitVec 32) : Except Stop (BitVec 32 × Gen) := do
  let (found, rand) ← drawAddr addr g.instrGen 0x2000 g.rand
  return (found.getD (firstAddr addr), { g with rand := rand })

/-- `get_rand_ls_addr` -/
def Gen.getRandLsAddr (g : Gen) : Except Stop (BitVec 32 × Gen) := g.getRandAddr g.lsAddr

/-- `get_rand_br_addr` -/
def Gen.getRandBrAddr (g : Gen) : Except Stop (BitVec 32 × Gen) := g.getRandAddr g.brAddr

/-! ## Runs with their addresses -/

/-- What `gen_i_instr` goes on with, once there is room. -/
def Gen.iArgs (g : Gen) : Request → Except Stop (Option IArgs)
  | .i (some a) => .ok (some a.variant)
  | .i none => do
      let (a, _) ← g.drawI g.rand
      return some a
  | _ => .ok none

/-- The address of a load or store that is fine. -/
def Gen.lsAccess (g : Gen) (a : IArgs) : Option (BitVec 32) :=
  if isLsOpcode a.opcode ∧ g.verdict a.opcode a.rs a.imm = .fine then
    some (g.checkLsAddr a.rs a.imm)
  else none

/-- The target of a branch that is fine. -/
def Gen.brAccess (g : Gen) (a : IArgs) : Option (BitVec 32) :=
  if isBrnOpcode a.opcode ∧ g.verdict a.opcode a.rs a.imm = .fine then
    some (g.checkBrnAddr a.imm)
  else none

/-- A run of requests, any numbers drawn, with the addresses of the loads and stores and
those of the branches it has generated. -/
inductive History : Gen → List (BitVec 32) → List (BitVec 32) → Prop where
  | init (rand : List Nat) : History (init rand) [] []
  | draw {g : Gen} {ls br : List (BitVec 32)} (rand : List Nat) :
      History g ls br → History { g with rand := rand } ls br
  | request {g g₁ g' : Gen} {ls br : List (BitVec 32)} {r : Request} {args : Option IArgs} :
      History g ls br → g.makeRoom = .ok g₁ → g₁.iArgs r = .ok args → g.request r = .ok g' →
      History g' (ls ++ (args.bind g₁.lsAccess).toList) (br ++ (args.bind g₁.brAccess).toList)

/-! ## One request -/

/-- An entry for `instr_gen+1`, if there is an address. -/
def record (addr : Nat → BitVec 32) (instrGen : Nat) : Option (BitVec 32) → Nat → BitVec 32
  | some a => Function.update addr (instrGen + 1) a
  | none => addr

section Requests

variable {g g₁ g' : Gen}

theorem makeRoom_addrs (h : g.makeRoom = .ok g') :
    g'.lsAddr = g.lsAddr ∧ g'.brAddr = g.brAddr ∧ g'.instrGen = g.instrGen := by
  obtain ⟨room, -, h⟩ := bind_ok h
  cases room with
  | true =>
      obtain rfl := Except.ok.inj h
      exact ⟨rfl, rfl, rfl⟩
  | false =>
      obtain ⟨found, -, h⟩ := bind_ok h
      cases found with
      | none => exact absurd h nofun
      | some i =>
          obtain ⟨g₁, hrun, h⟩ := bind_ok h
          obtain ⟨-, rfl⟩ := Gen.run_ok hrun
          obtain ⟨-, rfl⟩ := Gen.updateCpu_ok h
          exact ⟨rfl, rfl, rfl⟩

theorem emit_addrs {w : BitVec 32} (h : g.emit w = .ok g') :
    g'.lsAddr = g.lsAddr ∧ g'.brAddr = g.brAddr := by
  obtain ⟨g₁, hrun, h⟩ := bind_ok h
  obtain ⟨-, rfl⟩ := Gen.run_ok hrun
  obtain ⟨g₂, hupdate, h⟩ := bind_ok h
  obtain ⟨-, rfl⟩ := Gen.updateCpu_ok hupdate
  obtain rfl := Except.ok.inj h
  exact ⟨rfl, rfl⟩

/-- A load or store is not a branch. -/
theorem isBrnOpcode_of_isLsOpcode {opcode : BitVec 32} (h : isLsOpcode opcode = true) :
    isBrnOpcode opcode = false := by
  unfold isLsOpcode at h
  rcases of_decide_eq_true h with rfl | rfl <;> rfl

theorem recordAddr_addrs {a : IArgs} (h : g.recordAddr a = .ok g') :
    g'.lsAddr = record g.lsAddr g.instrGen (g.lsAccess a) ∧
      g'.brAddr = record g.brAddr g.instrGen (g.brAccess a) := by
  unfold Gen.recordAddr at h
  unfold Gen.lsAccess Gen.brAccess
  split at h
  next hfine =>
      cases hls : isLsOpcode a.opcode with
      | true =>
          rw [if_pos hls] at h
          rw [isBrnOpcode_of_isLsOpcode hls, if_pos ⟨rfl, hfine⟩,
            if_neg fun hc => Bool.false_ne_true hc.1]
          split at h
          next =>
              obtain rfl := Except.ok.inj h
              exact ⟨rfl, rfl⟩
          next => exact absurd h nofun
      | false =>
          rw [if_neg (Bool.eq_false_iff.mp hls)] at h
          rw [if_neg fun hc => Bool.false_ne_true hc.1]
          cases hbrn : isBrnOpcode a.opcode with
          | true =>
              rw [if_pos hbrn] at h
              rw [if_pos ⟨rfl, hfine⟩]
              split at h
              next =>
                  obtain rfl := Except.ok.inj h
                  exact ⟨rfl, rfl⟩
              next => exact absurd h nofun
          | false =>
              rw [if_neg (Bool.eq_false_iff.mp hbrn)] at h
              obtain rfl := Except.ok.inj h
              rw [if_neg fun hc => Bool.false_ne_true hc.1]
              exact ⟨rfl, rfl⟩
  next hverdict =>
      obtain rfl := Except.ok.inj h
      rw [if_neg fun hc => hverdict hc.2, if_neg fun hc => hverdict hc.2]
      exact ⟨rfl, rfl⟩

/-- What a request records. -/
theorem request_addrs {r : Request} (hroom : g.makeRoom = .ok g₁)
    (h : g.request r = .ok g') : ∃ args, g₁.iArgs r = .ok args ∧
      g'.lsAddr = record g.lsAddr g.instrGen (args.bind g₁.lsAccess) ∧
      g'.brAddr = record g.brAddr g.instrGen (args.bind g₁.brAccess) := by
  obtain ⟨g₂, hroom', h⟩ := bind_ok h
  obtain rfl := Except.ok.inj (hroom'.symm.trans hroom)
  obtain ⟨hls, hbr, hgen⟩ := makeRoom_addrs hroom
  rw [← hls, ← hbr, ← hgen]
  have htail : ∀ (a : IArgs) (rand : List Nat),
      (({ g₂ with rand := rand }.recordAddr a) >>= fun g => g.emit a.word) = .ok g' →
      g'.lsAddr = record g₂.lsAddr g₂.instrGen (g₂.lsAccess a) ∧
        g'.brAddr = record g₂.brAddr g₂.instrGen (g₂.brAccess a) := by
    intro a rand h
    obtain ⟨g₃, hrecord, h⟩ := bind_ok h
    obtain ⟨hls', hbr'⟩ := emit_addrs h
    rw [hls', hbr']
    exact recordAddr_addrs (g := { g₂ with rand := rand }) hrecord
  cases r with
  | r args =>
      refine ⟨none, rfl, ?_⟩
      cases args with
      | some a => exact emit_addrs (h : g₂.emit a.word = .ok g')
      | none =>
          obtain ⟨⟨a, rand⟩, -, h⟩ := bind_ok (h : g₂.genRInstr none = .ok g')
          exact emit_addrs (g := { g₂ with rand := rand }) h
  | i args =>
      cases args with
      | some a => exact ⟨some a.variant, rfl, htail a.variant g₂.rand h⟩
      | none =>
          obtain ⟨⟨a, rand⟩, hdraw, h⟩ := bind_ok (h : g₂.genIInstr none = .ok g')
          refine ⟨some a, ?_, htail a rand h⟩
          show (g₂.drawI g₂.rand >>= fun x => (.ok (some x.1) : Except Stop _)) = _
          rw [hdraw]
          rfl
  | j =>
      refine ⟨none, rfl, ?_⟩
      obtain ⟨target, rand, -, -, hemit⟩ := Gen.genJInstr_ok (h : g₂.genJInstr = .ok g')
      exact emit_addrs (g := { g₂ with rand := rand }) hemit

/-- `gen_end_seq` generates no address. -/
theorem genEndSeq_addrs (h : g.genEndSeq = .ok g') :
    g'.lsAddr = g.lsAddr ∧ g'.brAddr = g.brAddr ∧ g'.instrGen = g.instrGen + 1 := by
  obtain ⟨g₃, haddi, hsyscall⟩ := bind_ok h
  obtain ⟨g₁, hroom₁, h⟩ := bind_ok haddi
  obtain ⟨g₂, hupdate₁, h⟩ := bind_ok h
  obtain ⟨-, rfl⟩ := Gen.updateCpu_ok hupdate₁
  obtain ⟨g₂, hrun₁, h⟩ := bind_ok h
  obtain ⟨-, rfl⟩ := Gen.run_ok hrun₁
  obtain rfl := Except.ok.inj h
  obtain ⟨g₂, hroom₂, h⟩ := bind_ok hsyscall
  obtain ⟨g₃, hupdate₂, hrun₂⟩ := bind_ok h
  obtain ⟨-, rfl⟩ := Gen.updateCpu_ok hupdate₂
  obtain ⟨-, rfl⟩ := Gen.run_ok hrun₂
  obtain ⟨hls₁, hbr₁, hgen₁⟩ := makeRoom_addrs hroom₁
  obtain ⟨hls₂, hbr₂, hgen₂⟩ := makeRoom_addrs hroom₂
  exact ⟨hls₂.trans hls₁, hbr₂.trans hbr₁, hgen₂.trans (congrArg (· + 1) hgen₁)⟩

end Requests

/-! ## The arrays hold what has been recorded -/

/-- The array holds the addresses that have been recorded, up to the index `k`. -/
structure Tracks (addr : Nat → BitVec 32) (k : Nat) (seen : List (BitVec 32)) : Prop where
  recorded : ∀ i, addr i ≠ 0 → addr i ∈ seen
  entry : ∀ a ∈ seen, a ≠ 0 ∧ ∃ i ≤ k, addr i = a
  above : ∀ i, k < i → addr i = 0

theorem tracks_init : Tracks (fun _ => 0) 0 [] where
  recorded _ h := absurd rfl h
  entry _ h := absurd h (List.not_mem_nil)
  above _ _ := rfl

/-- The index of a new entry has not been used. -/
theorem Tracks.record {addr : Nat → BitVec 32} {k : Nat} {seen : List (BitVec 32)}
    {o : Option (BitVec 32)} (ht : Tracks addr k seen) (ho : ∀ a, o = some a → a ≠ 0) :
    Tracks (record addr k o) (k + 1) (seen ++ o.toList) := by
  cases o with
  | none =>
      show Tracks addr (k + 1) (seen ++ [])
      rw [List.append_nil]
      refine ⟨ht.recorded, fun a ha => ?_, fun i hi => ht.above i (by omega)⟩
      obtain ⟨hne, i, hi, haddr⟩ := ht.entry a ha
      exact ⟨hne, i, by omega, haddr⟩
  | some a =>
      show Tracks (Function.update addr (k + 1) a) (k + 1) (seen ++ [a])
      refine ⟨fun i hi => ?_, fun b hb => ?_, fun i hi => ?_⟩
      · by_cases hik : i = k + 1
        · rw [hik, Function.update_self]
          exact List.mem_append_right seen (List.mem_singleton_self a)
        · rw [Function.update_of_ne hik] at hi ⊢
          exact List.mem_append_left [a] (ht.recorded i hi)
      · rcases List.mem_append.mp hb with hb | hb
        · obtain ⟨hne, i, hi, haddr⟩ := ht.entry b hb
          refine ⟨hne, i, by omega, ?_⟩
          rw [Function.update_of_ne (by omega)]
          exact haddr
        · obtain rfl := List.mem_singleton.mp hb
          exact ⟨ho b rfl, k + 1, Nat.le_refl _, Function.update_self ..⟩
      · rw [Function.update_of_ne (by omega)]
        exact ht.above i (by omega)

section Access

variable {g : Gen} {a : IArgs} {addr : BitVec 32}

/-- `check_ls_addr` returns 0 for an address that is not fine. -/
theorem lsAccess_ne_zero (h : g.lsAccess a = some addr) : addr ≠ 0 := by
  unfold Gen.lsAccess at h
  split at h
  next hc =>
      obtain rfl := Option.some.inj h
      obtain ⟨hls, hv⟩ := hc
      intro hzero
      unfold Gen.verdict at hv
      rw [if_pos hls, hzero] at hv
      exact absurd hv (by decide)
  next => exact absurd h nofun

/-- The target of a branch is behind the start of the text. -/
theorem brAccess_ne_zero (h : g.brAccess a = some addr) : addr ≠ 0 := by
  unfold Gen.brAccess at h
  split at h
  next hc =>
      obtain rfl := Option.some.inj h
      intro hzero
      unfold Gen.checkBrnAddr at hzero
      dsimp only at hzero
      split at hzero
      next hlt =>
          rw [hzero] at hlt
          exact absurd hlt.1 (by decide)
      next => exact absurd hzero (by decide)
  next => exact absurd h nofun

end Access

/-! ## Every request takes a slot -/

/-- The slots below the last that are taken. -/
def usedSlots (pc : Slots) : Finset Nat :=
  (Finset.range 0x1FFC).filter fun k => pc (BitVec.ofNat 32 k) = true

theorem card_usedSlots_le (pc : Slots) : (usedSlots pc).card ≤ 0x1FFC := by
  have h := Finset.card_le_card (Finset.filter_subset
    (fun k => pc (BitVec.ofNat 32 k) = true) (Finset.range 0x1FFC))
  rw [Finset.card_range] at h
  exact h

/-- One slot more is taken, and none is given back. -/
theorem card_usedSlots_lt {pc pc' : Slots} {slot : BitVec 32}
    (hmono : ∀ i, pc i = true → pc' i = true) (hslot : slot.toNat < 0x1FFC)
    (hfree : pc slot = false) (hused : pc' slot = true) :
    (usedSlots pc).card < (usedSlots pc').card := by
  refine Finset.card_lt_card ((Finset.ssubset_iff_of_subset fun k hk => ?_).mpr
    ⟨slot.toNat, ?_, fun hmem => ?_⟩)
  · obtain ⟨hrange, hk⟩ := Finset.mem_filter.mp hk
    exact Finset.mem_filter.mpr ⟨hrange, hmono _ hk⟩
  · refine Finset.mem_filter.mpr ⟨Finset.mem_range.mpr hslot, ?_⟩
    rw [BitVec.ofNat_toNat, BitVec.setWidth_eq]
    exact hused
  · obtain ⟨-, hmem⟩ := Finset.mem_filter.mp hmem
    rw [BitVec.ofNat_toNat, BitVec.setWidth_eq, hfree] at hmem
    exact Bool.false_ne_true hmem

section Growth

variable {g g₁ g' : Gen} {w slot : BitVec 32}

theorem Placed.mono (hp : Placed g w slot g') (i : BitVec 32) (h : g.pc i = true) :
    g'.pc i = true := by
  rw [hp.pc]
  by_cases hi : i = slot
  · rw [hi, Function.update_self]
  · rw [Function.update_of_ne hi]
    exact h

/-- `make_room` goes to a slot that has been free. -/
theorem makeRoom_free (hs : Settled g) (h : g.makeRoom = .ok g₁) :
    g.pc g₁.cur = false ∧ ∀ i, g.pc i = true → g₁.pc i = true := by
  obtain ⟨-, ⟨hroom, rfl⟩ | ⟨i, hj⟩⟩ := makeRoom_cases hs h
  · exact ⟨((Gen.hasRoom_ok hroom).1.mp rfl).1, fun _ hi => hi⟩
  · rw [hj.cur]
    exact ⟨hj.free, hj.placed.mono⟩

/-- A word that is placed where `make_room` goes takes a slot. -/
theorem card_usedSlots_placed (hs : Settled g) (hroom : g.makeRoom = .ok g₁)
    (hp : Placed g₁ w g₁.cur g') : (usedSlots g.pc).card < (usedSlots g'.pc).card := by
  obtain ⟨hfree, hmono⟩ := makeRoom_free hs hroom
  refine card_usedSlots_lt (fun i hi => hp.mono i (hmono i hi)) (makeRoom_cur_lt hs hroom)
    hfree hp.recorded.1

end Growth

/-! ## Every run -/

/-- What the arrays and the counter hold. -/
structure Addresses (g : Gen) (ls br : List (BitVec 32)) : Prop where
  ls : Tracks g.lsAddr g.instrGen ls
  br : Tracks g.brAddr g.instrGen br
  used : g.instrGen ≤ (usedSlots g.pc).card

section Runs

variable {g g' : Gen} {ls br : List (BitVec 32)}

theorem Addresses.instrGen_lt (h : Addresses g ls br) : g.instrGen < 0x2000 := by
  have := card_usedSlots_le g.pc
  have := h.used
  omega

/-- What a request preserves. -/
theorem Addresses.request {g₁ : Gen} {r : Request} {args : Option IArgs} (hb : Between g)
    (ha : Addresses g ls br) (hroom : g.makeRoom = .ok g₁) (hargs : g₁.iArgs r = .ok args)
    (h : g.request r = .ok g') :
    Addresses g' (ls ++ (args.bind g₁.lsAccess).toList)
      (br ++ (args.bind g₁.brAccess).toList) := by
  obtain ⟨args', hargs', hls, hbr⟩ := request_addrs hroom h
  obtain rfl := Except.ok.inj (hargs'.symm.trans hargs)
  obtain ⟨-, -, hgen⟩ := makeRoom_addrs hroom
  obtain ⟨g₂, w, hroom₂, -, -, -, hgen'⟩ := Gen.request_ok h
  obtain rfl := Except.ok.inj (hroom₂.symm.trans hroom)
  rw [hgen] at hgen'
  obtain ⟨-, g₃, w', hroom₃, -, -, -, hp⟩ := request_placed hb h
  obtain rfl := Except.ok.inj (hroom₃.symm.trans hroom)
  have hcard := card_usedSlots_placed hb.toSettled hroom hp
  have hused := ha.used
  refine ⟨?_, ?_, by omega⟩
  · rw [hls, hgen']
    refine ha.ls.record fun a heq => ?_
    obtain ⟨x, -, hx⟩ := Option.bind_eq_some_iff.mp heq
    exact lsAccess_ne_zero hx
  · rw [hbr, hgen']
    refine ha.br.record fun a heq => ?_
    obtain ⟨x, -, hx⟩ := Option.bind_eq_some_iff.mp heq
    exact brAccess_ne_zero hx

theorem History.addresses (h : History g ls br) : Between g ∧ Addresses g ls br := by
  induction h with
  | init rand => exact ⟨between_init rand, tracks_init, tracks_init, Nat.zero_le _⟩
  | draw rand _ ih => exact ⟨ih.1.withRand rand, ih.2.ls, ih.2.br, ih.2.used⟩
  | request _ hroom hargs hr ih =>
      exact ⟨(request_placed ih.1 hr).1, ih.2.request ih.1 hroom hargs hr⟩

/-- The addresses of a run of requests are determined, whatever the requests are. -/
theorem Run.history {ok : Gen → Request → Prop} (h : Run ok g) : ∃ ls br, History g ls br := by
  induction h with
  | init rand => exact ⟨[], [], .init rand⟩
  | draw rand _ ih =>
      obtain ⟨ls, br, hh⟩ := ih
      exact ⟨ls, br, hh.draw rand⟩
  | request _ _ hr ih =>
      obtain ⟨ls, br, hh⟩ := ih
      obtain ⟨g₁, hroom, -⟩ := bind_ok hr
      obtain ⟨args, hargs, -⟩ := request_addrs hroom hr
      exact ⟨_, _, hh.request hroom hargs hr⟩

/-- A run that may have been ended by `gen_end_seq`. -/
def Session (g : Gen) (ls br : List (BitVec 32)) : Prop :=
  History g ls br ∨ ∃ g₀, History g₀ ls br ∧ g₀.genEndSeq = .ok g

theorem Session.addresses (h : Session g ls br) : Addresses g ls br := by
  rcases h with h | ⟨g₀, h, hend⟩
  · exact h.addresses.2
  · obtain ⟨hb, ha⟩ := h.addresses
    obtain ⟨hls, hbr, hgen⟩ := genEndSeq_addrs hend
    obtain ⟨g₁, g₂, g₃, hrun⟩ := genEndSeq_ok hb hend
    obtain ⟨hfree, hmono⟩ := makeRoom_free hb.toSettled hrun.room₁
    have hmono' : ∀ i, g₂.pc i = true → g.pc i = true := fun i hi =>
      hrun.syscall.mono i ((makeRoom_free hrun.settled hrun.room₂).2 i hi)
    have hcard := card_usedSlots_lt (fun i hi => hmono' i (hrun.addi.mono i (hmono i hi)))
      (makeRoom_cur_lt hb.toSettled hrun.room₁) hfree (hmono' _ hrun.addi.recorded.1)
    have hused := ha.used
    refine ⟨?_, ?_, by omega⟩
    · rw [hls, hgen]
      have := ha.ls.record (o := none) nofun
      rwa [Option.toList_none, List.append_nil] at this
    · rw [hbr, hgen]
      have := ha.br.record (o := none) nofun
      rwa [Option.toList_none, List.append_nil] at this

end Runs

/-! ## What is drawn -/

section Draws

variable {addr : Nat → BitVec 32} {k : Nat} {seen : List (BitVec 32)}

/-- The first loop draws entries until one is not 0. -/
theorem drawAddr_ok (addr : Nat → BitVec 32) (hk : k ≠ 0) (hlt : k < 0x2000) (rounds : Nat)
    (rand : List Nat) (hrand : rounds ≤ rand.length) :
    ∃ found rand', drawAddr addr k rounds rand = .ok (found, rand') ∧
      ∀ a, found = some a → a ≠ 0 ∧ ∃ i, addr i = a := by
  induction rounds generalizing rand with
  | zero => exact ⟨none, rand, rfl, fun _ h => absurd h nofun⟩
  | succ rounds ih =>
      cases rand with
      | nil => exact absurd hrand (Nat.not_succ_le_zero rounds)
      | cons n rand =>
          have hmod : n % k < k := Nat.mod_lt n (Nat.pos_of_ne_zero hk)
          unfold drawAddr
          rw [if_neg hk, if_neg (by omega)]
          split
          next hne =>
              refine ⟨_, rand, rfl, fun a h => ?_⟩
              obtain rfl := Option.some.inj h
              exact ⟨hne, n % k, rfl⟩
          next => exact ih rand (Nat.le_of_succ_le_succ hrand)

/-- The second loop finds an entry if there is one. -/
theorem firstAddr_of_tracks (ht : Tracks addr k seen) (hlt : k < 0x2000) :
    firstAddr addr ∈ seen ∨ firstAddr addr = 0 ∧ seen = [] := by
  unfold firstAddr
  split
  next i hfind =>
      have hne := List.find?_some hfind
      exact Or.inl (ht.recorded i (bne_iff_ne.mp hne))
  next hfind =>
      refine Or.inr ⟨rfl, List.eq_nil_iff_forall_not_mem.mpr fun a ha => ?_⟩
      obtain ⟨hne, i, hi, haddr⟩ := ht.entry a ha
      have hzero := List.find?_eq_none.mp hfind i (List.mem_range.mpr (by omega))
      rw [bne_iff_ne, haddr] at hzero
      exact hzero hne

/-- Once an instruction has been generated, the functions return. -/
theorem getRandAddr_ok {g : Gen} (ht : Tracks addr g.instrGen seen) (hk : g.instrGen ≠ 0)
    (hlt : g.instrGen < 0x2000) (hrand : 0x2000 ≤ g.rand.length) :
    ∃ a g', g.getRandAddr addr = .ok (a, g') ∧ (a ∈ seen ∨ a = 0 ∧ seen = []) := by
  obtain ⟨found, rand', hdraw, hfound⟩ := drawAddr_ok addr hk hlt 0x2000 g.rand hrand
  refine ⟨found.getD (firstAddr addr), { g with rand := rand' }, ?_, ?_⟩
  · unfold Gen.getRandAddr
    rw [hdraw]
    rfl
  · cases found with
    | none =>
        rw [Option.getD_none]
        exact firstAddr_of_tracks ht hlt
    | some a =>
        obtain ⟨hne, i, rfl⟩ := hfound a rfl
        rw [Option.getD_some]
        exact Or.inl (ht.recorded i hne)

theorem drawAddr_zero {rounds : Nat} {rand : List Nat} (hrounds : 0 < rounds)
    (hrand : 0 < rand.length) : drawAddr addr 0 rounds rand = .error .undefined := by
  cases rounds with
  | zero => exact absurd hrounds (Nat.lt_irrefl 0)
  | succ rounds =>
      cases rand with
      | nil => exact absurd hrand (Nat.lt_irrefl 0)
      | cons n rand => rfl

/-- Before, the first index that is drawn is a remainder of a division by 0. -/
theorem getRandAddr_zero {g : Gen} (hk : g.instrGen = 0) (hrand : 0x2000 ≤ g.rand.length) :
    g.getRandAddr addr = .error .undefined := by
  unfold Gen.getRandAddr
  rw [hk, drawAddr_zero (by omega) (by omega)]
  rfl

end Draws

/-- The two functions return an address that has been recorded, or 0 when there is none,
exactly when an instruction has been generated. -/
theorem getRandAddr_iff {g : Gen} {ls br : List (BitVec 32)} (h : Session g ls br)
    (hrand : 0x2000 ≤ g.rand.length) :
    ((∃ a g', g.getRandLsAddr = .ok (a, g') ∧ (a ∈ ls ∨ a = 0 ∧ ls = [])) ↔ g.instrGen ≠ 0) ∧
      ((∃ a g', g.getRandBrAddr = .ok (a, g') ∧ (a ∈ br ∨ a = 0 ∧ br = [])) ↔
        g.instrGen ≠ 0) := by
  have ha := h.addresses
  have hlt := ha.instrGen_lt
  refine ⟨⟨?_, fun hk => getRandAddr_ok ha.ls hk hlt hrand⟩,
    ⟨?_, fun hk => getRandAddr_ok ha.br hk hlt hrand⟩⟩
  · rintro ⟨a, g', hget, -⟩ hk
    exact absurd ((getRandAddr_zero hk hrand).symm.trans hget) nofun
  · rintro ⟨a, g', hget, -⟩ hk
    exact absurd ((getRandAddr_zero hk hrand).symm.trans hget) nofun

/-- After `LW R1, 0x2004 (R0)` the address 0x2004 is returned. -/
theorem getRandAddr_lw : ∃ g : Gen, Session g [0x2004] [] ∧
    ∃ a g', g.getRandLsAddr = .ok (a, g') ∧ a = 0x2004 := by
  let lw : IArgs := { opcode := LW, rt := 1, rs := 0, imm := 0x2004 }
  have hcall : ((init []).request (.i (some lw))).toOption.any
      (fun g => g.instrGen == 1) = true := by
    decide +kernel
  obtain ⟨g, hg, hgen⟩ := exists_of_any hcall
  have hroom : (init []).makeRoom = .ok (init []) := rfl
  have hargs : (init []).iArgs (.i (some lw)) = .ok (some lw) := rfl
  have hls : (init []).lsAccess lw = some 0x2004 := by decide +kernel
  have hbr : (init []).brAccess lw = none := by decide +kernel
  have hist := (History.init []).request hroom hargs hg
  rw [Option.bind_some, Option.bind_some, hls, hbr] at hist
  have hs : Session { g with rand := List.replicate 0x2000 0 } [0x2004] [] :=
    Or.inl (hist.draw _)
  have hrand : 0x2000 ≤ (List.replicate 0x2000 0).length := by rw [List.length_replicate]
  have hne : g.instrGen ≠ 0 := by
    rw [beq_iff_eq.mp hgen]
    decide
  obtain ⟨a, g', hget, ha⟩ := (getRandAddr_iff hs hrand).1.mpr hne
  refine ⟨_, hs, a, g', hget, ?_⟩
  rcases ha with ha | ⟨-, ha⟩
  · exact List.mem_singleton.mp ha
  · exact absurd ha nofun

/-- Before the first instruction, `get_rand_ls_addr` divides by 0. -/
theorem getRandAddr_empty :
    ¬ ∀ (g : Gen) (ls br : List (BitVec 32)), Session g ls br → 0x2000 ≤ g.rand.length →
      (∃ a g', g.getRandLsAddr = .ok (a, g') ∧ (a ∈ ls ∨ a = 0 ∧ ls = [])) ∧
        ∃ a g', g.getRandBrAddr = .ok (a, g') ∧ (a ∈ br ∨ a = 0 ∧ br = []) := by
  intro hall
  have hrand : 0x2000 ≤ (init (List.replicate 0x2000 0)).rand.length := by
    show 0x2000 ≤ (List.replicate 0x2000 0).length
    rw [List.length_replicate]
  obtain ⟨⟨a, g', hget, -⟩, -⟩ := hall _ [] [] (Or.inl (.init (List.replicate 0x2000 0))) hrand
  exact absurd ((getRandAddr_zero rfl hrand).symm.trans hget) nofun

end SimpleCpu.Mips.HexGen
