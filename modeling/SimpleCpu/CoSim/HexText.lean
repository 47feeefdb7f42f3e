import Mathlib.Algebra.Group.Nat.Defs
import Mathlib.Data.List.TakeWhile

/-!
# Files of hexadecimal numerals

A file of words is written with `"%x\n"`, and read by `fscanf` with the same format or by
`$readmemh`.  `Holds` says which numbers a text holds.  Both readers find them
(`Holds.scanHex_cons`, `Holds.readmemh`), and a printed text holds what has been printed
(`holds_printLines`).  A program is a file of words and a file of their addresses, and both
ways to read these give the same pairs (`Holds.pairs`).
-/

namespace SimpleCpu.CoSim

/-! ## Digits -/

def hexValue (c : Char) : Option Nat :=
  if '0' ≤ c ∧ c ≤ '9' then some (c.toNat - '0'.toNat)
  else if 'a' ≤ c ∧ c ≤ 'f' then some (c.toNat - 'a'.toNat + 10)
  else if 'A' ≤ c ∧ c ≤ 'F' then some (c.toNat - 'A'.toNat + 10)
  else none

def isHex (c : Char) : Bool := (hexValue c).isSome

/-- The number of a run of digits. -/
def ofHex (digits : List Char) : Nat :=
  digits.foldl (fun n c => 16 * n + (hexValue c).getD 0) 0

theorem hexValue_digitChar : ∀ d < 16, hexValue d.digitChar = some d := by
  decide

/-- The digits of a number stand for it. -/
theorem ofHex_toDigits (n : Nat) : ofHex (Nat.toDigits 16 n) = n := by
  induction n using Nat.strongRecOn with
  | ind n ih =>
      rw [Nat.toDigits_eq_if (by decide)]
      by_cases hn : n < 16
      · rw [if_pos hn]
        unfold ofHex
        rw [List.foldl_cons, List.foldl_nil, hexValue_digitChar n hn, Option.getD_some]
        omega
      · rw [if_neg hn]
        unfold ofHex at ih ⊢
        rw [List.foldl_append, ih (n / 16) (by omega), List.foldl_cons, List.foldl_nil,
          hexValue_digitChar _ (Nat.mod_lt n (by decide)), Option.getD_some]
        omega

theorem isHex_of_mem_toDigits {n : Nat} {c : Char} (hc : c ∈ Nat.toDigits 16 n) :
    isHex c = true := by
  induction n using Nat.strongRecOn with
  | ind n ih =>
      rw [Nat.toDigits_eq_if (by decide)] at hc
      by_cases hn : n < 16
      · rw [if_pos hn, List.mem_singleton] at hc
        rw [hc, isHex, hexValue_digitChar n hn]
        rfl
      · rw [if_neg hn, List.mem_append, List.mem_singleton] at hc
        rcases hc with hc | rfl
        · exact ih (n / 16) (by omega) hc
        · rw [isHex, hexValue_digitChar _ (Nat.mod_lt n (by decide))]
          rfl

/-! ## White space -/

/-- What `fscanf` takes for white space. -/
def isSpace (c : Char) : Bool := c == ' ' || ('\t' ≤ c && c ≤ '\r')

/-- What separates the numbers of `$readmemh`. -/
def isBlank (c : Char) : Bool := c == ' ' || c == '\t' || c == '\n' || c == '\x0c'

theorem isSpace_of_isBlank {c : Char} (h : isBlank c = true) : isSpace c = true := by
  unfold isBlank at h
  simp only [Bool.or_eq_true, beq_iff_eq] at h
  rcases h with ((rfl | rfl) | rfl) | rfl <;> decide

theorem le_of_isHex {c : Char} (h : isHex c = true) : '0' ≤ c := by
  unfold isHex hexValue at h
  split at h
  next hc => exact hc.1
  next =>
    split at h
    next hc => exact Char.le_trans (by decide) hc.1
    next =>
      split at h
      next hc => exact Char.le_trans (by decide) hc.1
      next => exact absurd h Bool.false_ne_true

theorem not_isSpace_of_isHex {c : Char} (h : isHex c = true) : isSpace c = false := by
  have hlow := le_of_isHex h
  rw [← Bool.not_eq_true]
  intro hspace
  unfold isSpace at hspace
  rw [Bool.or_eq_true, Bool.and_eq_true, beq_iff_eq, decide_eq_true_eq, decide_eq_true_eq] at hspace
  rcases hspace with rfl | ⟨-, hhigh⟩
  · exact absurd hlow (by decide)
  · exact absurd (Char.le_trans hlow hhigh) (by decide)

/-! ## `fscanf` -/

/-- What a call of `fscanf` with `"%x\n"` comes to: the end of the file, a number that the
variable cannot hold, or the word that has been read, if one has, with what it leaves of the
file. -/
inductive Scan (w : Nat) where
  | eof
  | wide
  | item (word : Option (BitVec w)) (rest : List Char)

def scanSign : List Char → Bool × List Char
  | '+' :: file => (false, file)
  | '-' :: file => (true, file)
  | file => (false, file)

def scanPrefix : List Char → List Char
  | '0' :: 'x' :: file => file
  | '0' :: 'X' :: file => file
  | file => file

/-- A numeral, with a sign and a prefix if they are there, and the white space around it. -/
def scanHex (w : Nat) (file : List Char) : Scan w :=
  match file.dropWhile isSpace with
  | [] => .eof
  | c :: cs =>
      let (negative, text) := scanSign (c :: cs)
      let text := scanPrefix text
      let digits := text.takeWhile isHex
      let rest := text.dropWhile isHex
      if digits = [] then .item none rest
      else if 2 ^ w ≤ ofHex digits then .wide
      else
        let word := BitVec.ofNat w (ofHex digits)
        .item (some (if negative then -word else word)) (rest.dropWhile isSpace)

/-- What comes of reading two files in step. -/
inductive Loading (w : Nat) where
  | ends (pairs : List (BitVec w × BitVec w))
  | hangs
  | undefined

def Loading.cons {w : Nat} (pair : BitVec w × BitVec w) : Loading w → Loading w
  | .ends pairs => .ends (pair :: pairs)
  | .hangs => .hangs
  | .undefined => .undefined

/-- A word is read, then its address, until the words are at their end.  A call that reads no
word leaves the variable as it was, and one that finds no address skips the word. -/
def readInStep {w : Nat} : Nat → List Char → List Char → Option (BitVec w) → Option (BitVec w) →
    Loading w
  | 0, _, _, _, _ => .hangs
  | n + 1, words, addrs, word, addr =>
      match scanHex w words with
      | .eof => .ends []
      | .wide => .undefined
      | .item word' words =>
          match scanHex w addrs with
          | .eof => readInStep n words [] (word'.or word) addr
          | .wide => .undefined
          | .item addr' addrs =>
              match addr'.or addr, word'.or word with
              | some a, some v => (readInStep n words addrs (some v) (some a)).cons (a, v)
              | _, _ => .undefined

/-- `$readmemh`, of a file without comments, addresses and unknown digits. -/
def readmemh (w : Nat) : Nat → List Char → Option (List (BitVec w))
  | 0, _ => none
  | n + 1, file =>
      match file.dropWhile isBlank with
      | [] => some []
      | c :: cs =>
          let digits := (c :: cs).takeWhile isHex
          let rest := (c :: cs).dropWhile isHex
          if digits = [] ∨ 2 ^ w ≤ ofHex digits then none
          else (readmemh w n rest).map (BitVec.ofNat w (ofHex digits) :: ·)

/-- The pairs of two files that are read in step to the end of the words.  A call that moves
on takes a character, so more calls than characters never come to an end. -/
def scanPairs (w : Nat) (words addrs : List Char) : Option (List (BitVec w × BitVec w)) :=
  match readInStep (words.length + 1) words addrs none none with
  | .ends pairs => some pairs
  | .hangs | .undefined => none

/-- The pairs of two files that are read one after the other. -/
def memhPairs (w : Nat) (words addrs : List Char) : Option (List (BitVec w × BitVec w)) := do
  let values ← readmemh w (words.length + 1) words
  let places ← readmemh w (addrs.length + 1) addrs
  return places.zip values

/-! ## The format -/

/-- The text holds these numbers: runs of digits with blanks between them. -/
inductive Holds : List Char → List Nat → Prop where
  | nil {blanks : List Char} (hb : ∀ c ∈ blanks, isBlank c = true) : Holds blanks []
  | cons {blanks digits rest : List Char} {ns : List Nat}
      (hb : ∀ c ∈ blanks, isBlank c = true) (hd : ∀ c ∈ digits, isHex c = true)
      (hne : digits ≠ []) (hsep : ∀ c ∈ rest.head?, isBlank c = true) (h : Holds rest ns) :
      Holds (blanks ++ (digits ++ rest)) (ofHex digits :: ns)

theorem isBlank_of_mem_nil : ∀ c ∈ ([] : List Char), isBlank c = true := nofun

section Numeral

variable {digits rest : List Char} (hd : ∀ c ∈ digits, isHex c = true)
  (hsep : ∀ c ∈ rest.head?, isBlank c = true)

theorem not_isHex_of_isBlank {c : Char} (h : isBlank c = true) : isHex c = false := by
  rw [← Bool.not_eq_true]
  intro hhex
  have hspace := isSpace_of_isBlank h
  rw [not_isSpace_of_isHex hhex] at hspace
  exact absurd hspace Bool.false_ne_true

include hd hsep

/-- Where the digits end. -/
theorem takeWhile_numeral : (digits ++ rest).takeWhile isHex = digits ∧
    (digits ++ rest).dropWhile isHex = rest := by
  rw [List.takeWhile_append_of_pos hd, List.dropWhile_append_of_pos hd]
  cases rest with
  | nil => exact ⟨List.append_nil _, rfl⟩
  | cons c cs =>
      have hc : ¬ isHex c = true := by
        rw [not_isHex_of_isBlank (hsep c rfl)]
        exact Bool.false_ne_true
      rw [List.takeWhile_cons_of_neg hc, List.dropWhile_cons_of_neg hc]
      exact ⟨List.append_nil _, rfl⟩

/-- Digits have no sign and no prefix in front of them. -/
theorem scan_numeral (hne : digits ≠ []) :
    scanSign (digits ++ rest) = (false, digits ++ rest) ∧
      scanPrefix (digits ++ rest) = digits ++ rest := by
  cases digits with
  | nil => exact absurd rfl hne
  | cons c cs =>
      have hc := hd c List.mem_cons_self
      have hnext : ∀ d ∈ (cs ++ rest).head?, d ≠ 'x' ∧ d ≠ 'X' := by
        intro d hmem
        have hcase : isHex d = true ∨ isBlank d = true := by
          cases cs with
          | nil => exact Or.inr (hsep d hmem)
          | cons e es =>
              obtain rfl := Option.some.inj hmem
              exact Or.inl (hd _ (List.mem_cons_of_mem _ List.mem_cons_self))
        constructor
        · rintro rfl
          exact absurd hcase (by decide)
        · rintro rfl
          exact absurd hcase (by decide)
      rw [List.cons_append]
      constructor
      · unfold scanSign
        split
        next heq =>
            obtain rfl := (List.cons.inj heq).1
            exact absurd hc (by decide)
        next heq =>
            obtain rfl := (List.cons.inj heq).1
            exact absurd hc (by decide)
        next => rfl
      · unfold scanPrefix
        split
        next heq => exact absurd rfl (hnext 'x' (by rw [(List.cons.inj heq).2]; rfl)).1
        next heq => exact absurd rfl (hnext 'X' (by rw [(List.cons.inj heq).2]; rfl)).2
        next => rfl

end Numeral

/-! ## Reading -/

section Reading

variable {file blanks : List Char} {n : Nat} {ns : List Nat} {w : Nat}

/-- In front of a number, blanks are skipped, and nothing else. -/
theorem dropWhile_blanks {p : Char → Bool} {digits rest : List Char}
    (hb : ∀ c ∈ blanks, p c = true) (hd : ∀ c ∈ digits, p c = false) (hne : digits ≠ []) :
    (blanks ++ (digits ++ rest)).dropWhile p = digits ++ rest := by
  rw [List.dropWhile_append_of_pos hb]
  cases digits with
  | nil => exact absurd rfl hne
  | cons c cs =>
      refine List.dropWhile_cons_of_neg ?_
      rw [hd c List.mem_cons_self]
      exact Bool.false_ne_true

/-- White space in front of the text is of no account. -/
theorem Holds.dropSpace (h : Holds file ns) : Holds (file.dropWhile isSpace) ns := by
  cases h with
  | nil hb =>
      rw [List.dropWhile_eq_nil_iff.mpr fun c hc => isSpace_of_isBlank (hb c hc)]
      exact .nil isBlank_of_mem_nil
  | cons hb hd hne hsep hrest =>
      rw [dropWhile_blanks (fun c hc => isSpace_of_isBlank (hb c hc))
        (fun c hc => not_isSpace_of_isHex (hd c hc)) hne]
      exact .cons isBlank_of_mem_nil hd hne hsep hrest

theorem Holds.scanHex_nil (h : Holds file []) : scanHex w file = .eof := by
  cases h with
  | nil hb =>
      unfold scanHex
      rw [List.dropWhile_eq_nil_iff.mpr fun c hc => isSpace_of_isBlank (hb c hc)]

/-- `fscanf` reads the first number. -/
theorem Holds.scanHex_cons (h : Holds file (n :: ns)) (hn : n < 2 ^ w) :
    ∃ rest, scanHex w file = .item (some (BitVec.ofNat w n)) rest ∧ Holds rest ns ∧
      rest.length < file.length := by
  cases h with
  | @cons blanks digits rest ns hb hd hne hsep hrest =>
      obtain ⟨htake, hdrop⟩ := takeWhile_numeral hd hsep
      obtain ⟨hsign, hprefix⟩ := scan_numeral hd hsep hne
      refine ⟨rest.dropWhile isSpace, ?_, hrest.dropSpace, ?_⟩
      · unfold scanHex
        rw [dropWhile_blanks (fun c hc => isSpace_of_isBlank (hb c hc))
          (fun c hc => not_isSpace_of_isHex (hd c hc)) hne]
        obtain ⟨c, cs, htext⟩ : ∃ c cs, digits ++ rest = c :: cs :=
          List.exists_cons_of_ne_nil (List.append_ne_nil_of_left_ne_nil hne rest)
        rw [htext] at htake hdrop hsign hprefix ⊢
        simp only [hsign, hprefix, htake, hdrop]
        rw [if_neg hne, if_neg (Nat.not_le.mpr hn)]
        rfl
      · have hpos := List.length_pos_iff.mpr hne
        have hle := (List.dropWhile_sublist (l := rest) isSpace).length_le
        rw [List.length_append, List.length_append]
        omega

/-- Two files that are read in step give pairs; the longer one is cut off. -/
theorem Holds.readInStep {addrs : List Char} {as : List Nat} (h : Holds file ns)
    (ha : Holds addrs as) (hn : ∀ n ∈ ns, n < 2 ^ w) (han : ∀ a ∈ as, a < 2 ^ w) {k : Nat}
    (hk : file.length < k) (word addr : Option (BitVec w)) :
    CoSim.readInStep k file addrs word addr =
      .ends ((as.map (BitVec.ofNat w)).zip (ns.map (BitVec.ofNat w))) := by
  induction ns generalizing file addrs as k word addr with
  | nil =>
      obtain ⟨k, rfl⟩ := Nat.exists_eq_add_of_lt hk
      rw [CoSim.readInStep, h.scanHex_nil, List.map_nil, List.zip_nil_right]
  | cons n ns ih =>
      obtain ⟨k, rfl⟩ := Nat.exists_eq_add_of_lt hk
      obtain ⟨rest, hscan, hrest, hlength⟩ := h.scanHex_cons (hn n List.mem_cons_self)
      have hns : ∀ n ∈ ns, n < 2 ^ w := fun m hm => hn m (List.mem_cons_of_mem _ hm)
      rw [CoSim.readInStep, hscan]
      cases as with
      | nil =>
          dsimp only
          rw [ha.scanHex_nil]
          exact ih hrest (.nil isBlank_of_mem_nil) hns nofun (by omega) _ _
      | cons a as =>
          obtain ⟨rest', hscan', hrest', -⟩ := ha.scanHex_cons (han a List.mem_cons_self)
          dsimp only
          rw [hscan']
          dsimp only [Option.or]
          rw [ih hrest hrest' hns (fun m hm => han m (List.mem_cons_of_mem _ hm)) (by omega)]
          rfl

/-- `$readmemh` reads all numbers. -/
theorem Holds.readmemh (h : Holds file ns) (hn : ∀ n ∈ ns, n < 2 ^ w) {k : Nat}
    (hk : file.length < k) : CoSim.readmemh w k file = some (ns.map (BitVec.ofNat w)) := by
  induction h generalizing k with
  | nil hb =>
      obtain ⟨k, rfl⟩ := Nat.exists_eq_add_of_lt hk
      rw [CoSim.readmemh, List.dropWhile_eq_nil_iff.mpr hb]
      rfl
  | @cons blanks digits rest ns hb hd hne hsep hrest ih =>
      obtain ⟨k, rfl⟩ := Nat.exists_eq_add_of_lt hk
      obtain ⟨htake, hdrop⟩ := takeWhile_numeral hd hsep
      have hfits := Nat.not_le.mpr (hn _ List.mem_cons_self)
      have hpos := List.length_pos_iff.mpr hne
      rw [List.length_append, List.length_append] at hk ⊢
      have htail := ih (fun m hm => hn m (List.mem_cons_of_mem _ hm))
        (k := blanks.length + (digits.length + rest.length) + k) (by omega)
      rw [CoSim.readmemh, dropWhile_blanks hb (fun c hc => ?_) hne]
      · obtain ⟨c, cs, htext⟩ : ∃ c cs, digits ++ rest = c :: cs :=
          List.exists_cons_of_ne_nil (List.append_ne_nil_of_left_ne_nil hne rest)
        rw [htext] at htake hdrop ⊢
        simp only [htake, hdrop]
        rw [if_neg (not_or.mpr ⟨hne, hfits⟩), htail]
        rfl
      · rw [← Bool.not_eq_true]
        intro hblank
        have hhex := hd c hc
        rw [not_isHex_of_isBlank hblank] at hhex
        exact absurd hhex Bool.false_ne_true

/-- Both readers find the same pairs. -/
theorem Holds.pairs {addrs : List Char} {as : List Nat} (h : Holds file ns)
    (ha : Holds addrs as) (hn : ∀ n ∈ ns, n < 2 ^ w) (han : ∀ a ∈ as, a < 2 ^ w) :
    scanPairs w file addrs = some ((as.map (BitVec.ofNat w)).zip (ns.map (BitVec.ofNat w))) ∧
      memhPairs w file addrs =
        some ((as.map (BitVec.ofNat w)).zip (ns.map (BitVec.ofNat w))) := by
  constructor
  · unfold scanPairs
    rw [h.readInStep ha hn han (Nat.lt_succ_self _)]
  · unfold memhPairs
    rw [h.readmemh hn (Nat.lt_succ_self _), ha.readmemh han (Nat.lt_succ_self _)]
    rfl

end Reading

/-! ## Printing -/

section Printing

variable {w : Nat}

/-- `fprintf` with `"%x\n"`, for one word after the other. -/
def printLines (words : List (BitVec w)) : List Char :=
  words.flatMap fun word => Nat.toDigits 16 word.toNat ++ ['\n']

/-- What has been printed holds what has been printed. -/
theorem holds_printLines (words : List (BitVec w)) :
    Holds (printLines words) (words.map BitVec.toNat) := by
  suffices hblank : ∀ blanks, (∀ c ∈ blanks, isBlank c = true) →
      Holds (blanks ++ printLines words) (words.map BitVec.toNat) from hblank [] nofun
  induction words with
  | nil =>
      intro blanks hb
      rw [printLines, List.flatMap_nil, List.append_nil]
      exact .nil hb
  | cons word words ih =>
      intro blanks hb
      have hline : printLines (word :: words) =
          Nat.toDigits 16 word.toNat ++ (['\n'] ++ printLines words) := by
        rw [printLines, List.flatMap_cons, List.append_assoc]
        rfl
      have hdigits : ∀ c ∈ Nat.toDigits 16 word.toNat, isHex c = true :=
        fun c hc => isHex_of_mem_toDigits hc
      have hrest := ih ['\n'] fun c hc => by rw [List.mem_singleton.mp hc]; decide
      have hholds := Holds.cons hb hdigits Nat.toDigits_ne_nil
        (fun c hc => by rw [← Option.some.inj hc]; decide) hrest
      rw [ofHex_toDigits] at hholds
      rw [hline]
      exact hholds

theorem map_ofNat_toNat (words : List (BitVec w)) :
    (words.map BitVec.toNat).map (BitVec.ofNat w) = words := by
  rw [List.map_map]
  exact (List.map_congr_left fun v _ => (BitVec.ofNat_toNat w v).trans (BitVec.setWidth_eq v)).trans (List.map_id _)

theorem toNat_lt_of_mem {words : List (BitVec w)} :
    ∀ n ∈ words.map BitVec.toNat, n < 2 ^ w := by
  intro n hn
  obtain ⟨v, -, rfl⟩ := List.mem_map.mp hn
  exact v.isLt

/-- Two printed files are read back, by both readers. -/
theorem pairs_printLines (pairs : List (BitVec w × BitVec w)) :
    scanPairs w (printLines (pairs.map Prod.snd)) (printLines (pairs.map Prod.fst)) =
        some pairs ∧
      memhPairs w (printLines (pairs.map Prod.snd)) (printLines (pairs.map Prod.fst)) =
        some pairs := by
  have hpairs := (holds_printLines (pairs.map Prod.snd)).pairs
    (holds_printLines (pairs.map Prod.fst)) toNat_lt_of_mem toNat_lt_of_mem
  rw [map_ofNat_toNat, map_ofNat_toNat, List.zip_map'] at hpairs
  have hid : pairs.map (fun pair => (pair.1, pair.2)) = pairs := List.map_id _
  rw [hid] at hpairs
  exact hpairs

end Printing

end SimpleCpu.CoSim
