/-
The texts that are numerals of a base, for every string of bytes. A numeral is white space, a minus or
none, a digit, and then digits and white space to the end; it denotes the positional value of its
digits with that sign (`Denotes`). What is looked at is the text without the mark of base 16 and up to
its first NUL (`significant`).

The reader takes a text apart in stages: it skips, takes the sign off, tests one character, and filters.
Each stage has its part of the grammar, and together they accept the numerals and nothing else.
-/
import FlowAutomaton.Proofs.Numeral.RoundTrip
import FlowAutomaton.Proofs.Text.Latin

namespace FlowAutomaton.Numeral

open FlowAutomaton.Text

/-! ## The grammar -/

/-- White space: a space, or one of the five characters from tab to carriage return. -/
def IsBlank (c : Char) : Prop := c = ' ' ∨ '\t'.toNat ≤ c.toNat ∧ c.toNat ≤ '\r'.toNat

/-- A character is a digit of a base, with its value. Letters come after the decimal digits: up to base
36 those of both cases from 10 on, and above that upper case from 10 and lower case from 36 on. -/
inductive DigitOf (base : Nat) (c : Char) : Nat → Prop
  | decimal {d : Nat} (hc : c.toNat = '0'.toNat + d) (hd : d < 10) (hb : d < base) : DigitOf base c d
  | upper {k : Nat} (hc : c.toNat = 'A'.toNat + k) (hk : k < 26) (hb : 10 + k < base) :
    DigitOf base c (10 + k)
  | lower {k : Nat} (hc : c.toNat = 'a'.toNat + k) (hk : k < 26) (hs : base ≤ 36)
    (hb : 10 + k < base) : DigitOf base c (10 + k)
  | lowerLast {k : Nat} (hc : c.toNat = 'a'.toNat + k) (hk : k < 26) (hl : 36 < base)
    (hb : 36 + k < base) : DigitOf base c (36 + k)

/-- Digits and white space in any order, and the values of the digits. -/
inductive Digits (base : Nat) : List Char → List Nat → Prop
  | nil : Digits base [] []
  | blank {c : Char} {cs : List Char} {ds : List Nat} (hc : IsBlank c) (h : Digits base cs ds) :
    Digits base (c :: cs) ds
  | digit {c : Char} {cs : List Char} {d : Nat} {ds : List Nat} (hc : DigitOf base c d)
    (h : Digits base cs ds) : Digits base (c :: cs) (d :: ds)

/-- A magnitude: a digit, then digits and white space. Its value is that of the digits by their
positions, the last one having weight 1. -/
inductive Magnitude (base : Nat) : List Char → Nat → Prop
  | mk {c : Char} {cs : List Char} {d : Nat} {ds : List Nat} (hc : DigitOf base c d)
    (h : Digits base cs ds) : Magnitude base (c :: cs) (Nat.ofDigits base (d :: ds).reverse)

/-- A numeral: white space, a minus or none, and a magnitude. -/
inductive Denotes (base : Nat) : List Char → Int → Prop
  | plain {blanks cs : List Char} {m : Nat} (hblanks : ∀ b ∈ blanks, IsBlank b)
    (h : Magnitude base cs m) : Denotes base (blanks ++ cs) m
  | minus {blanks cs : List Char} {m : Nat} (hblanks : ∀ b ∈ blanks, IsBlank b)
    (h : Magnitude base cs m) : Denotes base (blanks ++ '-' :: cs) (-m)

/-- A text begins with the mark of base 16, and more than the mark is there. -/
def Marked (cs : List Char) : Prop :=
  2 < cs.length ∧ (cs.take 2 = ['0', 'x'] ∨ cs.take 2 = ['0', 'X'])

instance (cs : List Char) : Decidable (Marked cs) := inferInstanceAs (Decidable (_ ∧ _))

/-- A text without one mark in front, which only base 16 has. -/
def unmarked (base : Nat) (cs : List Char) : List Char :=
  if base = 16 ∧ Marked cs then cs.drop 2 else cs

/-- The part of a text that is looked at: without a mark, and up to the first NUL. -/
def significant (base : Nat) (cs : List Char) : List Char :=
  (unmarked base cs).takeWhile (· ≠ '\x00')

/-- The integer that bytes denote in a base, read as the characters of their codes. -/
def parseBytes (base : Nat) (bytes : List UInt8) : Except Fault Int :=
  match read? base (String.ofList (latin bytes)) with
  | some n => .ok n
  | none => .error (.malformedNumeral (ofBytes bytes) base)

/-! ## Characters -/

theorem isBlank_iff {c : Char} : isBlank c = true ↔ IsBlank c := by
  have hcode (d : Char) : c = d ↔ c.toNat = d.toNat := Char.toNat_inj.symm
  simp only [isBlank, IsBlank, Bool.or_eq_true, decide_eq_true_eq, hcode]
  simp
  omega

theorem digitValue_eq_some_iff {base : Nat} {c : Char} {d : Nat} :
    digitValue base c = some d ↔ DigitOf base c d := by
  have hle (a : Char) : a ≤ c ↔ a.toNat ≤ c.toNat := UInt32.le_iff_toNat_le
  have hge (a : Char) : c ≤ a ↔ c.toNat ≤ a.toNat := UInt32.le_iff_toNat_le
  have h0 : '0'.toNat = 48 := rfl
  have h9 : '9'.toNat = 57 := rfl
  have hA : 'A'.toNat = 65 := rfl
  have hZ : 'Z'.toNat = 90 := rfl
  have ha : 'a'.toNat = 97 := rfl
  have hz : 'z'.toNat = 122 := rfl
  rw [digitValue, Option.filter_eq_some_iff, decide_eq_true_eq]
  simp only [letterValue, hle, hge, h0, h9, hA, hZ, ha, hz]
  constructor
  · rintro ⟨hv, hb⟩
    split at hv
    · cases hv
      exact .decimal (by omega) (by omega) hb
    split at hv
    · obtain ⟨k, hk⟩ := Nat.exists_eq_add_of_le (show 65 ≤ c.toNat by omega)
      have hd := Option.some.inj hv
      obtain rfl : 10 + k = d := by omega
      exact .upper hk (by omega) hb
    split at hv
    · obtain ⟨k, hk⟩ := Nat.exists_eq_add_of_le (show 97 ≤ c.toNat by omega)
      have hd := Option.some.inj hv
      split at hd
      · rename_i hs
        obtain rfl : 10 + k = d := by omega
        exact .lower hk (by omega) hs hb
      · obtain rfl : 36 + k = d := by omega
        exact .lowerLast hk (by omega) (by omega) hb
    · cases hv
  · intro h
    cases h with
    | decimal hc hd hb =>
      refine ⟨?_, hb⟩
      rw [if_pos (by omega)]
      congr 1
      omega
    | upper hc hk hb =>
      refine ⟨?_, hb⟩
      rw [if_neg (by omega), if_pos (by omega)]
      congr 1
      omega
    | lower hc hk hs hb =>
      refine ⟨?_, hb⟩
      rw [if_neg (by omega), if_neg (by omega), if_pos (by omega), if_pos hs]
      congr 1
      omega
    | lowerLast hc hk hl hb =>
      refine ⟨?_, hb⟩
      rw [if_neg (by omega), if_neg (by omega), if_pos (by omega), if_neg (by omega)]
      congr 1
      omega

variable {base : Nat} {c : Char} {cs : List Char}

theorem DigitOf.isDigit {d : Nat} (h : DigitOf base c d) : IsDigit base c :=
  ⟨d, digitValue_eq_some_iff.2 h⟩

theorem IsBlank.ascii (h : IsBlank c) : c.toNat < 128 := by
  rcases h with rfl | ⟨-, h⟩
  · decide
  · exact Nat.lt_of_le_of_lt h (by decide)

theorem DigitOf.ascii {d : Nat} (h : DigitOf base c d) : c.toNat < 128 := by
  have h0 : '0'.toNat = 48 := rfl
  have hA : 'A'.toNat = 65 := rfl
  have ha : 'a'.toNat = 97 := rfl
  cases h with
  | _ => omega

/-! ## Magnitudes -/

theorem mapM_filter_eq_some_iff {ds : List Nat} :
    (cs.filter (!isBlank ·)).mapM (digitValue base) = some ds ↔ Digits base cs ds := by
  induction cs generalizing ds with
  | nil =>
    constructor
    · rintro ⟨⟩
      exact .nil
    · rintro ⟨⟩
      rfl
  | cons c cs ih =>
    cases hblank : isBlank c with
    | true =>
      rw [List.filter_cons_of_neg (by simp [hblank]), ih]
      constructor
      · exact .blank (isBlank_iff.1 hblank)
      · intro h
        cases h with
        | blank hc h => exact h
        | digit hc h =>
          rw [hc.isDigit.not_blank] at hblank
          cases hblank
    | false =>
      rw [List.filter_cons_of_pos (by simp [hblank]), List.mapM_cons]
      simp only [Option.bind_eq_bind, Option.bind_eq_some_iff, Option.pure_def, Option.some.injEq,
        digitValue_eq_some_iff, ih]
      constructor
      · rintro ⟨d, hd, ds, hds, rfl⟩
        exact .digit hd hds
      · intro h
        cases h with
        | blank hc h =>
          rw [isBlank_iff.2 hc] at hblank
          cases hblank
        | digit hc h => exact ⟨_, hc, _, h, rfl⟩

theorem readDigits?_eq_some_iff {m : Nat} :
    readDigits? base cs = some m ↔ ∃ ds, Digits base cs ds ∧ Nat.ofDigits base ds.reverse = m := by
  simp only [readDigits?, Option.map_eq_some_iff, mapM_filter_eq_some_iff, ofDigits_eq_positional]

theorem readMagnitude?_eq_some_iff (hb : base ≠ 0) {m : Nat} :
    readMagnitude? base cs = some m ↔ Magnitude base cs m := by
  unfold readMagnitude?
  rw [if_neg hb]
  cases cs with
  | nil =>
    constructor
    · rintro ⟨⟩
    · rintro ⟨⟩
  | cons c cs =>
    simp only [hb, if_false]
    -- the first character decides whether anything is read, and is read again with the others
    cases hc : digitValue base c with
    | none =>
      constructor
      · rintro ⟨⟩
      · rintro ⟨hd, -⟩
        rw [digitValue_eq_some_iff.2 hd] at hc
        cases hc
    | some d =>
      have hd : DigitOf base c d := digitValue_eq_some_iff.1 hc
      simp only [readDigits?_eq_some_iff]
      constructor
      · rintro ⟨ds, hds, rfl⟩
        cases hds with
        | blank hblank h =>
          rw [← isBlank_iff, hd.isDigit.not_blank] at hblank
          cases hblank
        | digit hd' h => exact .mk hd' h
      · rintro ⟨hd', h⟩
        exact ⟨_, .digit hd' h, rfl⟩

/-! ## Numerals -/

/-- White space in front is skipped up to what is none. -/
theorem dropWhile_blanks {blanks : List Char} (hblanks : ∀ b ∈ blanks, IsBlank b)
    (hc : isBlank c = false) : (blanks ++ c :: cs).dropWhile isBlank = c :: cs := by
  rw [List.dropWhile_append_of_pos fun b hb => isBlank_iff.2 (hblanks b hb),
    List.dropWhile_cons_of_neg (by simp [hc])]

theorem readSigned?_eq_some_iff (hb : base ≠ 0) {n : Int} :
    readSigned? base cs = some n ↔ Denotes base cs n := by
  constructor
  · intro h
    have hsplit : cs = cs.takeWhile isBlank ++ cs.dropWhile isBlank :=
      List.takeWhile_append_dropWhile.symm
    have hblanks : ∀ b ∈ cs.takeWhile isBlank, IsBlank b := fun b hb =>
      isBlank_iff.1 (List.mem_takeWhile_imp hb)
    unfold readSigned? at h
    split at h
    · rename_i rest hrest
      obtain ⟨k, hk, rfl⟩ := Option.map_eq_some_iff.1 h
      obtain ⟨m, hm, ⟨⟩⟩ := Option.bind_eq_some_iff.1 hk
      rw [hsplit, hrest]
      exact .minus hblanks ((readMagnitude?_eq_some_iff hb).1 hm)
    · obtain ⟨k, hk, rfl⟩ := Option.map_eq_some_iff.1 h
      obtain ⟨m, hm, ⟨⟩⟩ := Option.bind_eq_some_iff.1 hk
      rw [hsplit]
      exact .plain hblanks ((readMagnitude?_eq_some_iff hb).1 hm)
  · intro h
    cases h with
    | @plain blanks cs m hblanks h =>
      have hm := (readMagnitude?_eq_some_iff hb).2 h
      obtain ⟨hd, -⟩ := h
      rw [readSigned?, dropWhile_blanks hblanks hd.isDigit.not_blank]
      split
      · rename_i hminus
        exact absurd (List.cons.inj hminus).1 hd.isDigit.ne_minus
      · rw [hm]
        rfl
    | @minus blanks cs m hblanks h =>
      rw [readSigned?, dropWhile_blanks hblanks (by decide)]
      simp only [(readMagnitude?_eq_some_iff hb).2 h]
      rfl

/-! ## What is looked at -/

theorem marked_iff :
    Marked cs ↔ ∃ x rest, (x = 'x' ∨ x = 'X') ∧ rest ≠ [] ∧ cs = '0' :: x :: rest := by
  constructor
  · rintro ⟨hlength, hmark⟩
    match cs, hlength with
    | a :: b :: c :: rest, _ =>
      rcases hmark with h | h
      · cases h
        exact ⟨'x', c :: rest, .inl rfl, List.cons_ne_nil _ _, rfl⟩
      · cases h
        exact ⟨'X', c :: rest, .inr rfl, List.cons_ne_nil _ _, rfl⟩
  · rintro ⟨x, rest, hx, hrest, rfl⟩
    refine ⟨Nat.add_lt_add_right (List.length_pos_iff.2 hrest) 2, ?_⟩
    rcases hx with rfl | rfl
    · exact .inl rfl
    · exact .inr rfl

theorem dropHexMark_eq (cs : List Char) : dropHexMark cs = unmarked 16 cs := by
  by_cases hmarked : Marked cs
  · rw [unmarked, if_pos ⟨rfl, hmarked⟩]
    obtain ⟨x, rest, hx, hrest, rfl⟩ := marked_iff.1 hmarked
    obtain ⟨c, rest, rfl⟩ := List.exists_cons_of_ne_nil hrest
    rw [dropHexMark, if_pos hx]
    rfl
  · rw [unmarked, if_neg fun h => hmarked h.2]
    unfold dropHexMark
    split
    · rename_i x c rest
      have hx : ¬(x = 'x' ∨ x = 'X') := fun hx =>
        hmarked (marked_iff.2 ⟨x, c :: rest, hx, List.cons_ne_nil _ _, rfl⟩)
      rw [if_neg hx]
    · rfl

theorem read?_ofList (base : Nat) (cs : List Char) :
    read? base (String.ofList cs) =
      if 62 < base then none else readSigned? base (significant base cs) := by
  have hunmarked : (if base = 16 then dropHexMark cs else cs) = unmarked base cs := by
    split
    · rename_i h
      rw [h, dropHexMark_eq]
    · rename_i h
      rw [unmarked, if_neg fun h' => h h'.1]
  rw [read?, String.toList_ofList]
  simp only [hunmarked]
  rfl

/-! ## Texts and their bytes -/

theorem ascii_of_mark {x : Char} (h : x = 'x' ∨ x = 'X') : x.toNat < 128 := by
  rcases h with rfl | rfl
  · decide
  · decide

theorem spread_marked {x : Char} (hx : x = 'x' ∨ x = 'X') (rest : List Char) :
    spread ('0' :: x :: rest) = '0' :: x :: spread rest := by
  rw [spread_cons_of_ascii (by decide), spread_cons_of_ascii (ascii_of_mark hx)]

/-- The mark is seen in the bytes exactly if it is there, and something after it. -/
theorem marked_spread_iff : Marked (spread cs) ↔ Marked cs := by
  rw [marked_iff, marked_iff]
  constructor
  · rintro ⟨x, rest, hx, hrest, hseen⟩
    obtain ⟨cs', rfl, hcs'⟩ := eq_cons_of_spread_eq_cons (by decide) hseen
    obtain ⟨cs'', rfl, rfl⟩ := eq_cons_of_spread_eq_cons (ascii_of_mark hx) hcs'
    exact ⟨x, cs'', hx, mt spread_eq_nil_iff.2 hrest, rfl⟩
  · rintro ⟨x, rest, hx, hrest, rfl⟩
    exact ⟨x, spread rest, hx, mt spread_eq_nil_iff.1 hrest, spread_marked hx rest⟩

theorem significant_spread (base : Nat) (cs : List Char) :
    significant base (spread cs) = spread (significant base cs) := by
  have hunmarked : unmarked base (spread cs) = spread (unmarked base cs) := by
    unfold unmarked
    simp only [marked_spread_iff]
    split
    · rename_i h
      obtain ⟨x, rest, hx, -, rfl⟩ := marked_iff.1 h.2
      rw [spread_marked hx]
      rfl
    · rfl
  rw [significant, hunmarked, takeWhile_spread, significant]

theorem Digits.ascii {ds : List Nat} (h : Digits base cs ds) : ∀ c ∈ cs, c.toNat < 128 := by
  induction h with
  | nil => exact fun _ hc => absurd hc List.not_mem_nil
  | blank hc h ih => exact List.forall_mem_cons.2 ⟨hc.ascii, ih⟩
  | digit hc h ih => exact List.forall_mem_cons.2 ⟨hc.ascii, ih⟩

theorem Magnitude.ascii {m : Nat} (h : Magnitude base cs m) : ∀ c ∈ cs, c.toNat < 128 := by
  obtain ⟨hc, h⟩ := h
  exact List.forall_mem_cons.2 ⟨hc.ascii, h.ascii⟩

/-- All characters of a numeral are below 128. -/
theorem Denotes.ascii {n : Int} (h : Denotes base cs n) : ∀ c ∈ cs, c.toNat < 128 := by
  cases h with
  | plain hblanks h =>
    exact List.forall_mem_append.2 ⟨fun b hb => (hblanks b hb).ascii, h.ascii⟩
  | minus hblanks h =>
    refine List.forall_mem_append.2 ⟨fun b hb => (hblanks b hb).ascii, ?_⟩
    exact List.forall_mem_cons.2 ⟨by decide, h.ascii⟩

/-- A text is a numeral exactly if its bytes are. -/
theorem denotes_spread_iff {n : Int} : Denotes base (spread cs) n ↔ Denotes base cs n := by
  constructor
  · intro h
    rwa [spread_of_ascii (ascii_of_spread h.ascii)] at h
  · intro h
    rwa [spread_of_ascii h.ascii]

theorem read?_latin (hb : base ≠ 0) (s : String) :
    read? base (String.ofList (latin (toBytes s))) = read? base s := by
  have hs : read? base s = read? base (String.ofList s.toList) := by rw [String.ofList_toList]
  rw [hs, read?_ofList, read?_ofList]
  split
  · rfl
  · refine Option.ext fun n => ?_
    rw [readSigned?_eq_some_iff hb, readSigned?_eq_some_iff hb]
    change Denotes base (significant base (spread s.toList)) n ↔ _
    rw [significant_spread, denotes_spread_iff]

/-- A text is read as its bytes are. -/
theorem parse_eq (hb : base ≠ 0) (s : String) : parse base s = parseBytes base (toBytes s) := by
  have hread := read?_latin hb s
  unfold parse parseBytes
  cases h : read? base s with
  | some n => simp only [hread, h]
  | none => simp only [hread, h, ofBytes_toBytes]

/-! ## Acceptance -/

theorem parseBytes_eq_ok_iff {bytes : List UInt8} {n : Int} :
    parseBytes base bytes = .ok n ↔ read? base (String.ofList (latin bytes)) = some n := by
  unfold parseBytes
  split
  · rename_i m hm
    rw [hm, Except.ok.injEq, Option.some.injEq]
  · rename_i hnone
    rw [hnone]
    exact iff_of_false nofun nofun

theorem parseBytes_eq_error_iff {bytes : List UInt8} :
    parseBytes base bytes = .error (.malformedNumeral (ofBytes bytes) base) ↔
      ∀ n, parseBytes base bytes ≠ .ok n := by
  unfold parseBytes
  split
  · exact iff_of_false nofun fun h => h _ rfl
  · exact iff_of_true rfl nofun

/-- Numerals are read by exactly one grammar, from a text as from its bytes. In a base from 2 to 62,
bytes are accepted as a number exactly if what is looked at denotes that number, and everything else
is refused; in a base above 62, everything is. -/
theorem numerals_accepted (base : Nat) :
    (2 ≤ base → base ≤ 62 →
      (∀ s, parse base s = parseBytes base (toBytes s)) ∧
        ∀ bytes,
          (∀ n, parseBytes base bytes = .ok n ↔ Denotes base (significant base (latin bytes)) n) ∧
          (parseBytes base bytes = .error (.malformedNumeral (ofBytes bytes) base) ↔
            ∀ n, ¬Denotes base (significant base (latin bytes)) n)) ∧
      (62 < base →
        (∀ s, parse base s = .error (.malformedNumeral s base)) ∧
          ∀ bytes, parseBytes base bytes = .error (.malformedNumeral (ofBytes bytes) base)) := by
  refine ⟨fun hb hb' => ?_, fun hb => ⟨fun s => ?_, fun bytes => ?_⟩⟩
  · have hz : base ≠ 0 := by omega
    have hok (bytes : List UInt8) (n : Int) :
        parseBytes base bytes = .ok n ↔ Denotes base (significant base (latin bytes)) n := by
      rw [parseBytes_eq_ok_iff, read?_ofList, if_neg (Nat.not_lt.2 hb'),
        readSigned?_eq_some_iff hz]
    refine ⟨parse_eq hz, fun bytes => ⟨hok bytes, ?_⟩⟩
    rw [parseBytes_eq_error_iff]
    exact forall_congr' fun n => not_congr (hok bytes n)
  · rw [parse, read?, if_pos hb]
  · rw [parseBytes, read?_ofList, if_pos hb]

/-- The bytes of `0x -f F` with a line feed, a NUL and one byte that is no character after it. -/
def markedBytes : List UInt8 := [48, 120, 32, 45, 102, 32, 70, 10, 0, 255]

theorem numerals_accepted_marked :
    (2 ≤ 16 ∧ 16 ≤ 62) ∧ Denotes 16 (significant 16 (latin markedBytes)) (-255) ∧
      parseBytes 16 markedBytes = .ok (-255) ∧
      62 < 63 ∧ parse 63 "1" = .error (.malformedNumeral "1" 63) := by
  have hseen : significant 16 (latin markedBytes) = [' '] ++ '-' :: ['f', ' ', 'F', '\n'] := by
    decide
  have hblank : ∀ b ∈ [' '], IsBlank b := fun b hb => .inl (List.mem_singleton.1 hb)
  have hlow : DigitOf 16 'f' 15 := .lower (k := 5) rfl (by decide) (by decide) (by decide)
  have hup : DigitOf 16 'F' 15 := .upper (k := 5) rfl (by decide) (by decide)
  have hend : IsBlank '\n' := .inr (by decide)
  have hm : Magnitude 16 ['f', ' ', 'F', '\n'] 255 :=
    .mk hlow (.blank (.inl rfl) (.digit hup (.blank hend .nil)))
  have hdenotes : Denotes 16 (significant 16 (latin markedBytes)) (-255) := by
    rw [hseen]
    exact .minus hblank hm
  obtain ⟨haccepted, -⟩ := numerals_accepted 16
  obtain ⟨-, hbytes⟩ := haccepted (by decide) (by decide)
  obtain ⟨-, hlarge⟩ := numerals_accepted 63
  exact ⟨by decide, hdenotes, ((hbytes markedBytes).1 (-255)).2 hdenotes, by decide,
    (hlarge (by decide)).1 "1"⟩

end FlowAutomaton.Numeral
