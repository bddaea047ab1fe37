/-
What is printed of a number is enough to get the number back: in every base, in base 16 behind the
mark `0x`, from a checkpoint, and from the contents and taints of a configuration in words, where
`?` and `!` stand between the numbers. No digit and no sign of a number is one of these, so the
pieces between them are the numbers as they were written.
-/
import FlowAutomaton.Initializer
import FlowAutomaton.Proofs.Checkpoint.Lawful

namespace FlowAutomaton

namespace Numeral

/-! ## Numbers behind a mark -/

/-- A number in base 16 behind its mark, as characters. -/
def markedChars (n : Int) : List Char := '0' :: 'x' :: chars 16 n

@[simp] theorem toList_hex (n : Int) : (hex n).toList = chars 16 n := toList_render 16 n

theorem chars_ne_nil {base : Nat} (hb : 2 ≤ base) (n : Int) : chars base n ≠ [] := by
  rw [chars]
  split
  · exact List.cons_ne_nil _ _
  · exact mt List.map_eq_nil_iff.1 (digits_ne_nil hb n.natAbs)

/-- The mark is taken off, also where a sign comes after it. -/
theorem dropHexMark_markedChars (n : Int) : dropHexMark (markedChars n) = chars 16 n := by
  have hne : chars 16 n ≠ [] := chars_ne_nil (by decide) n
  obtain ⟨c, cs, hc⟩ := List.exists_cons_of_ne_nil hne
  rw [markedChars, hc, dropHexMark, if_pos (.inl rfl)]

theorem parse_markedChars (n : Int) : parse 16 (String.ofList (markedChars n)) = .ok n := by
  refine parse_of_unmarked (by decide) (by decide) ?_
  rw [if_pos rfl, String.toList_ofList, dropHexMark_markedChars]

theorem parse_marked (n : Int) : parse 16 ("0x" ++ hex n) = .ok n := by
  have ht : "0x" ++ hex n = String.ofList (markedChars n) := mark_append_ofList (chars 16 n)
  rw [ht, parse_markedChars]

/-! ## Pieces of a text -/

/-- The marks between the numbers of an initializer in words. -/
def isMark (c : Char) : Bool := c = '?' || c = '!'

/-- What is between the marks of a text, where anything is. -/
def pieces (cs : List Char) : List (List Char) := (cs.splitOnP isMark).filter (· ≠ [])

/-- The numbers of an initializer in words: each piece is one, in base 16. -/
def readPieces (s : String) : Except Fault (List Int) :=
  (pieces s.toList).mapM fun piece => parse 16 (String.ofList piece)

theorem isMark_of_isDigit {c : Char} (h : IsDigit 16 c) : isMark c = false := by
  rw [← Bool.not_eq_true]
  intro hm
  simp only [isMark, Bool.or_eq_true, decide_eq_true_eq] at hm
  rcases hm with rfl | rfl
  · exact h.letterValue_ne_none rfl
  · exact h.letterValue_ne_none rfl

theorem isMark_of_mem_markedChars {n : Int} {c : Char} (h : c ∈ markedChars n) :
    isMark c = false := by
  rcases List.mem_cons.1 h with rfl | h
  · rfl
  rcases List.mem_cons.1 h with rfl | h
  · rfl
  rcases mem_chars (by decide) (by decide) n c h with rfl | hd
  · rfl
  · exact isMark_of_isDigit hd

@[simp] theorem pieces_markedChars (n : Int) : pieces (markedChars n) = [markedChars n] := by
  rw [pieces, List.splitOnP_eq_singleton fun _ => isMark_of_mem_markedChars]
  rfl

theorem pieces_append_cons (as : List Char) {mark : Char} (h : isMark mark = true)
    (bs : List Char) : pieces (as ++ mark :: bs) = pieces as ++ pieces bs := by
  rw [pieces, List.splitOnP_append_cons as bs h, List.filter_append]
  rfl

@[simp] theorem pieces_pair (v m : Int) :
    pieces (markedChars v ++ '?' :: markedChars m) = [markedChars v, markedChars m] := by
  rw [pieces_append_cons _ rfl, pieces_markedChars, pieces_markedChars]
  rfl

theorem mapM_parse_markedChars (ns : List Int) :
    (ns.map markedChars).mapM (fun piece => parse 16 (String.ofList piece)) = .ok ns := by
  induction ns with
  | nil => rfl
  | cons n ns ih =>
    rw [List.map_cons, List.mapM_cons, parse_markedChars, ih]
    rfl

/-- A text whose pieces are written numbers is read as these. -/
theorem readPieces_eq_ok {s : String} {ns : List Int} (h : pieces s.toList = ns.map markedChars) :
    readPieces s = .ok ns := by
  rw [readPieces, h, mapM_parse_markedChars]

end Numeral

/-! ## Initializers in words -/

open Numeral

theorem Content.pieces_text {c : Content} (h : c.isBytes = false) :
    pieces c.text.toList = c.numbers.map markedChars := by
  cases c with
  | exact v =>
    have ht : (Content.exact v).text.toList = markedChars v := by simp [Content.text, markedChars]
    rw [ht, pieces_markedChars]
    rfl
  | masked v m =>
    have ht : (Content.masked v m).text.toList = markedChars v ++ '?' :: markedChars m := by
      simp [Content.text, markedChars]
    rw [ht, pieces_pair]
    rfl
  | bytes p => cases h

/-- A taint in words begins with its mark. -/
theorem Taint.exists_text_eq_cons (t : Taint) :
    ∃ cs, t.text.toList = '!' :: cs ∧ pieces cs = t.numbers.map markedChars := by
  cases t with
  | exact v => exact ⟨markedChars v, by simp [Taint.text, markedChars], pieces_markedChars v⟩
  | masked v m =>
    exact ⟨markedChars v ++ '?' :: markedChars m, by simp [Taint.text, markedChars],
      pieces_pair v m⟩

/-- The pieces of a text with a taint after it. -/
theorem Taint.pieces_append_text (as : List Char) (t : Taint) :
    pieces (as ++ t.text.toList) = pieces as ++ t.numbers.map markedChars := by
  obtain ⟨cs, ht, hcs⟩ := t.exists_text_eq_cons
  rw [ht, pieces_append_cons as rfl, hcs]

theorem Taint.pieces_text (t : Taint) : pieces t.text.toList = t.numbers.map markedChars :=
  t.pieces_append_text []

theorem Initializer.pieces_text {i : Initializer} (h : i.content.isBytes = false) :
    pieces i.text.toList = i.numbers.map markedChars := by
  obtain ⟨c, t⟩ := i
  have hc := Content.pieces_text h
  rw [Initializer.text, String.toList_append, Initializer.numbers, List.map_append]
  cases t with
  | none =>
    rw [Taint.optionText, String.toList_empty, List.append_nil, hc]
    exact (List.append_nil _).symm
  | some t =>
    rw [Taint.optionText, Taint.pieces_append_text, hc]
    rfl

/-! ## Reading back -/

/-- Numbers survive being printed. In each base from 2 to 62 an integer is written with its sign and
the digits of its magnitude, and read back from them; in base 16 also behind a mark. A stored number
is loaded whatever is stored after it; and an initializer in words, its content and its taint give
back their numbers. -/
theorem Numeral.printed_read_back :
    (∀ base, 2 ≤ base → base ≤ 62 → ∀ n : Int,
        (render base n).toList = (if n < 0 then ['-'] else []) ++
          (if n = 0 then [0] else (Nat.digits base n.natAbs).reverse).map (digitChar base) ∧
        parse base (render base n) = .ok n) ∧
      (∀ n, parse 16 ("0x" ++ hex n) = .ok n) ∧
      (∀ (n : Int) (rest : List Checkpoint.Field),
        (Checkpoint.read : Checkpoint.Reader Int).run (Checkpoint.write n ++ rest) =
          .ok (n, rest)) ∧
      (∀ c : Content, c.isBytes = false → readPieces c.text = .ok c.numbers) ∧
      (∀ t : Taint, readPieces t.text = .ok t.numbers) ∧
      ∀ i : Initializer, i.content.isBytes = false → readPieces i.text = .ok i.numbers := by
  refine ⟨fun base hb hb' n => ⟨?_, parse_render hb hb' n⟩, parse_marked, Checkpoint.read_write,
    fun c hc => readPieces_eq_ok (Content.pieces_text hc),
    fun t => readPieces_eq_ok t.pieces_text,
    fun i hi => readPieces_eq_ok (Initializer.pieces_text hi)⟩
  rw [toList_render, chars_eq hb]

theorem Numeral.printed_read_back_signed :
    ((2 ≤ 62 ∧ 62 ≤ 62) ∧ render 62 (-3843) = "-zz" ∧ parse 62 "-zz" = .ok (-3843)) ∧
      ("0x" ++ hex (-255) = "0x-ff" ∧ parse 16 "0x-ff" = .ok (-255)) ∧
      ((Content.masked (-1) 240).isBytes = false ∧
        (Content.masked (-1) 240).text = "0x-1?0xf0" ∧ readPieces "0x-1?0xf0" = .ok [-1, 240]) ∧
      (Initializer.mk (.exact (-16)) (some (.masked 255 (-2)))).text = "0x-10!0xff?0x-2" ∧
      readPieces "0x-10!0xff?0x-2" = .ok [-16, 255, -2] := by
  obtain ⟨hbase, hmarked, -, hcontent, -, hinit⟩ := printed_read_back
  have hr : render 62 (-3843) = "-zz" := by decide
  have hx : "0x" ++ hex (-255) = "0x-ff" := by decide
  have hc : (Content.masked (-1) 240).text = "0x-1?0xf0" := by decide
  have hi : (Initializer.mk (.exact (-16)) (some (.masked 255 (-2)))).text = "0x-10!0xff?0x-2" := by
    decide
  refine ⟨⟨by decide, hr, ?_⟩, ⟨hx, ?_⟩, ⟨rfl, hc, ?_⟩, hi, ?_⟩
  · rw [← hr]
    exact (hbase 62 (by decide) (by decide) (-3843)).2
  · rw [← hx]
    exact hmarked (-255)
  · rw [← hc]
    exact hcontent _ rfl
  · rw [← hi]
    exact hinit _ rfl

end FlowAutomaton
