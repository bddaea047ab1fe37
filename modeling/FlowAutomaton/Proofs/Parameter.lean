/-
The texts that parameters accept, for every string of bytes. A value is checked in stages: the first
byte, the number at the front of the text as the platform reads it into 64 bits, how far that number
goes, and whether it has 32 bits (`readBytes`). What comes of it is one grammar: decimal digits, as
many as there are, of a value below `2 ^ 32`; and of the two failures, that of size is for numbers
that are too large, where more than 64 bits at the front are enough whatever follows.

Texts are read as their bytes are (`read_eq`), since only digits matter and all bytes of a longer
character are beyond them.
-/
import FlowAutomaton.Proofs.Configuration.History
import FlowAutomaton.Proofs.Numeral.RoundTrip
import FlowAutomaton.Proofs.Text.Order

namespace FlowAutomaton

namespace Parameter

open FlowAutomaton.Text (toBytes ofBytes)

/-! ## Reading bytes -/

/-- A byte that is a decimal digit. -/
def isDigit (b : UInt8) : Bool := 48 ≤ b.toNat && b.toNat ≤ 57

/-- A byte that numbers may begin with, and that says nothing. -/
def isBlank (b : UInt8) : Bool := b.toNat = 32 || 9 ≤ b.toNat && b.toNat ≤ 13

/-- The number that digits denote. -/
def decimal (ds : List UInt8) : Nat := Numeral.ofDigits 10 (ds.map fun b => b.toNat - 48)

/-- How the reading of a number at the front of a text ends. -/
inductive Scan where
  | absent
  /-- There are more than 64 bits. -/
  | tooLarge
  /-- The number and how many bytes were looked at. -/
  | number (n : UInt64) (length : Nat)

/-- Reads the digits that come next, after some bytes and maybe a minus. -/
def scanDigits (before : Nat) (negative : Bool) (rest : List UInt8) : Scan :=
  let ds := rest.takeWhile isDigit
  if ds = [] then .absent
  else if UInt64.size ≤ decimal ds then .tooLarge
  else
    let n := UInt64.ofNat (decimal ds)
    .number (if negative then -n else n) (before + ds.length)

/-- Reads a number of 64 bits at the front of a text: blanks, a sign or none, and as many digits as
there are. What a minus stands before is taken from zero. -/
def scan (bytes : List UInt8) : Scan :=
  match bytes.dropWhile isBlank with
  | 43 :: rest => scanDigits (bytes.length - rest.length) false rest
  | 45 :: rest => scanDigits (bytes.length - rest.length) true rest
  | rest => scanDigits (bytes.length - rest.length) false rest

/-- Reads the value of a parameter, stage by stage. -/
def readBytes (bytes : List UInt8) : Except Fault UInt32 :=
  match bytes with
  | [] => .error (.notUnsigned (ofBytes bytes))
  | b :: _ =>
    if isDigit b = false then .error (.notUnsigned (ofBytes bytes))
    else
      match scan bytes with
      | .absent => .error (.notUnsigned (ofBytes bytes))
      | .tooLarge => .error (.unsignedOverflow (ofBytes bytes))
      | .number n length =>
        if length ≠ bytes.length then .error (.notUnsigned (ofBytes bytes))
        else if UInt32.size ≤ n.toNat then .error (.unsignedOverflow (ofBytes bytes))
        else .ok n.toUInt32

theorem isBlank_of_isDigit {b : UInt8} (h : isDigit b = true) : isBlank b = false := by
  simp only [isDigit, isBlank, Bool.and_eq_true, decide_eq_true_eq, Bool.or_eq_false_iff,
    Bool.and_eq_false_iff, decide_eq_false_iff_not] at *
  omega

/-- A digit is neither a blank nor a sign, so a text that begins with one is read from there. -/
theorem scan_of_isDigit {b : UInt8} (h : isDigit b = true) (rest : List UInt8) :
    scan (b :: rest) = scanDigits 0 false (b :: rest) := by
  unfold scan
  rw [List.dropWhile_cons, isBlank_of_isDigit h]
  split
  · rename_i hrest
    cases hrest
    cases h
  · rename_i hrest
    cases hrest
    cases h
  · simp

/-- The digits at the front are all of a text exactly if they are as many as there are bytes. -/
theorem length_takeWhile_eq_iff (bytes : List UInt8) :
    (bytes.takeWhile isDigit).length = bytes.length ↔ bytes.takeWhile isDigit = bytes :=
  ⟨(List.takeWhile_prefix isDigit).eq_of_length, congrArg List.length⟩

/-- What the stages amount to: digits at the front, their number, and whether that is all. -/
theorem readBytes_eq (bytes : List UInt8) :
    readBytes bytes =
      let ds := bytes.takeWhile isDigit
      if ds = [] then .error (.notUnsigned (ofBytes bytes))
      else if UInt64.size ≤ decimal ds then .error (.unsignedOverflow (ofBytes bytes))
      else if ds ≠ bytes then .error (.notUnsigned (ofBytes bytes))
      else if UInt32.size ≤ decimal ds then .error (.unsignedOverflow (ofBytes bytes))
      else .ok (UInt32.ofNat (decimal ds)) := by
  cases bytes with
  | nil => rfl
  | cons b rest =>
    unfold readBytes
    by_cases hb : isDigit b = true
    · have hds : (b :: rest).takeWhile isDigit ≠ [] := by simp [hb]
      have hlength := length_takeWhile_eq_iff (b :: rest)
      rw [List.length_cons] at hlength
      rw [scan_of_isDigit hb, scanDigits]
      generalize (b :: rest).takeWhile isDigit = ds at *
      by_cases hsize : UInt64.size ≤ decimal ds
      · simp [hb, hds, hsize]
      · have hword : (UInt64.ofNat (decimal ds)).toNat = decimal ds :=
          UInt64.toNat_ofNat_of_lt' (Nat.lt_of_not_le hsize)
        have hhalf : (UInt64.ofNat (decimal ds)).toUInt32 = UInt32.ofNat (decimal ds) := by
          rw [← UInt32.toNat_inj, UInt64.toNat_toUInt32, hword, UInt32.toNat_ofNat']
        simp [hb, hds, hsize, hword, hhalf, hlength]
    · simp [Bool.eq_false_iff.2 hb]

/-! ## Texts and their bytes -/

theorem isDigit_iff {b : UInt8} : isDigit b = true ↔ 48 ≤ b.toNat ∧ b.toNat ≤ 57 := by
  simp [isDigit]

theorem char_isDigit_iff {c : Char} : c.isDigit = true ↔ 48 ≤ c.toNat ∧ c.toNat ≤ 57 := by
  simp [Char.isDigit, UInt32.le_iff_toNat_le]

/-- The byte of a character below 128. -/
def byteOf (c : Char) : UInt8 := UInt8.ofNat c.toNat

/-- A digit is written as one byte, which is that digit. -/
theorem encodeChar_of_isDigit {c : Char} (h : c.isDigit = true) :
    String.utf8EncodeChar c = [byteOf c] ∧ (byteOf c).toNat = c.toNat := by
  have hc := char_isDigit_iff.1 h
  have hval : c.val.toNat = c.toNat := rfl
  refine ⟨?_, Text.toNat_byte (by omega)⟩
  unfold String.utf8EncodeChar
  simp only [hval]
  rw [if_pos (by omega)]
  rfl

/-- What is not a digit is written with a first byte that is none. -/
theorem encodeChar_of_not_isDigit {c : Char} (h : c.isDigit = false) :
    ∃ b bs, String.utf8EncodeChar c = b :: bs ∧ isDigit b = false := by
  have hc := mt char_isDigit_iff.2 (Bool.eq_false_iff.1 h)
  have hval : c.val.toNat = c.toNat := rfl
  have first {n : Nat} (hn : n < 256) (hd : ¬(48 ≤ n ∧ n ≤ 57)) : isDigit (UInt8.ofNat n) = false := by
    rw [Bool.eq_false_iff, ne_eq, isDigit_iff, Text.toNat_byte hn]
    exact hd
  have hlt : c.toNat < 0x110000 := by
    have valid : c.toNat < 0xD800 ∨ (0xDFFF < c.toNat ∧ c.toNat < 0x110000) := c.valid
    omega
  unfold String.utf8EncodeChar
  simp only [hval]
  split
  · exact ⟨_, _, rfl, first (by omega) hc⟩
  · split
    · exact ⟨_, _, rfl, first (by omega) (by omega)⟩
    · split
      · exact ⟨_, _, rfl, first (by omega) (by omega)⟩
      · exact ⟨_, _, rfl, first (by omega) (by omega)⟩

theorem takeWhile_encode (cs : List Char) :
    (cs.flatMap String.utf8EncodeChar).takeWhile isDigit = (cs.takeWhile Char.isDigit).map byteOf := by
  induction cs with
  | nil => rfl
  | cons c cs ih =>
    rw [List.flatMap_cons]
    by_cases hc : c.isDigit = true
    · obtain ⟨henc, hbyte⟩ := encodeChar_of_isDigit hc
      have hb : isDigit (byteOf c) = true := by
        rw [isDigit_iff, hbyte]
        exact char_isDigit_iff.1 hc
      rw [henc, List.singleton_append, List.takeWhile_cons_of_pos hb, ih,
        List.takeWhile_cons_of_pos hc, List.map_cons]
    · obtain ⟨b, bs, henc, hb⟩ := encodeChar_of_not_isDigit (Bool.eq_false_iff.2 hc)
      rw [henc, List.cons_append, List.takeWhile_cons_of_neg (by simp [hb]),
        List.takeWhile_cons_of_neg hc, List.map_nil]

/-- The bytes of a text are all digits exactly if its characters are. -/
theorem takeWhile_encode_eq_iff (cs : List Char) :
    (cs.flatMap String.utf8EncodeChar).takeWhile isDigit = cs.flatMap String.utf8EncodeChar ↔
      cs.takeWhile Char.isDigit = cs := by
  rw [List.takeWhile_eq_self_iff, List.takeWhile_eq_self_iff]
  simp only [List.mem_flatMap, forall_exists_index, and_imp]
  constructor
  · intro h c hc
    by_contra hd
    obtain ⟨b, bs, henc, hb⟩ := encodeChar_of_not_isDigit (Bool.eq_false_iff.2 hd)
    rw [h b c hc (henc ▸ List.mem_cons_self)] at hb
    cases hb
  · intro h b c hc hb
    obtain ⟨henc, hbyte⟩ := encodeChar_of_isDigit (h c hc)
    rw [henc, List.mem_singleton] at hb
    rw [hb, isDigit_iff, hbyte]
    exact char_isDigit_iff.1 (h c hc)

theorem decimal_map_byteOf {cs : List Char} (h : ∀ c ∈ cs, c.isDigit = true) :
    decimal (cs.map byteOf) = digitsValue cs := by
  unfold decimal digitsValue
  rw [List.map_map]
  congr 1
  refine List.map_congr_left fun c hc => ?_
  change (byteOf c).toNat - 48 = c.toNat - 48
  rw [(encodeChar_of_isDigit (h c hc)).2]

/-- A text is read as its bytes are. -/
theorem read_eq (s : String) : read s = readBytes (toBytes s) := by
  have hds : (toBytes s).takeWhile isDigit = (leadingDigits s.toList).map byteOf :=
    takeWhile_encode s.toList
  have hall : (leadingDigits s.toList).map byteOf = toBytes s ↔ leadingDigits s.toList = s.toList := by
    rw [← hds]
    exact takeWhile_encode_eq_iff s.toList
  have hvalue : decimal ((leadingDigits s.toList).map byteOf) = digitsValue (leadingDigits s.toList) :=
    decimal_map_byteOf fun c hc => List.mem_takeWhile_imp hc
  rw [readBytes_eq, hds]
  simp only [hvalue, Text.ofBytes_toBytes, List.map_eq_nil_iff, ne_eq, hall]
  rfl

/-! ## The grammar -/

/-- Bytes that are decimal digits, one at least, and the number that they denote. -/
structure Denotes (bytes : List UInt8) (n : Nat) : Prop where
  ne_nil : bytes ≠ []
  digits : ∀ b ∈ bytes, 48 ≤ b.toNat ∧ b.toNat ≤ 57
  value : Nat.ofDigits 10 (bytes.map fun b => b.toNat - 48).reverse = n

/-- Bytes that begin with too large a number: with digits of more than 64 bits, as many as there
are and whatever follows, or with nothing but digits of more than 32 bits. -/
def Exceeds (bytes : List UInt8) : Prop :=
  (∃ ds rest n, bytes = ds ++ rest ∧ Denotes ds n ∧
    (∀ b ∈ rest.head?, ¬(48 ≤ b.toNat ∧ b.toNat ≤ 57)) ∧ 2 ^ 64 ≤ n) ∨
    ∃ n, Denotes bytes n ∧ 2 ^ 32 ≤ n

theorem denotes_iff {bytes : List UInt8} {n : Nat} :
    Denotes bytes n ↔ bytes ≠ [] ∧ bytes.takeWhile isDigit = bytes ∧ decimal bytes = n := by
  unfold decimal
  rw [List.takeWhile_eq_self_iff, Numeral.ofDigits_eq_positional]
  simp only [isDigit_iff]
  exact ⟨fun ⟨hne, hdigits, hvalue⟩ => ⟨hne, hdigits, hvalue⟩,
    fun ⟨hne, hdigits, hvalue⟩ => ⟨hne, hdigits, hvalue⟩⟩

/-- Digits before something that does not begin with one are all that are in front. -/
theorem takeWhile_append_of_head {ds rest : List UInt8} (hds : ds.takeWhile isDigit = ds)
    (hrest : ∀ b ∈ rest.head?, ¬(48 ≤ b.toNat ∧ b.toNat ≤ 57)) :
    (ds ++ rest).takeWhile isDigit = ds := by
  rw [List.takeWhile_append_of_pos (List.takeWhile_eq_self_iff.1 hds)]
  cases rest with
  | nil => exact List.append_nil ds
  | cons b rest =>
    have hb : ¬isDigit b = true := mt isDigit_iff.1 (hrest b rfl)
    rw [List.takeWhile_cons_of_neg hb, List.append_nil]

theorem exceeds_iff {bytes : List UInt8} :
    Exceeds bytes ↔ bytes.takeWhile isDigit ≠ [] ∧
      (2 ^ 64 ≤ decimal (bytes.takeWhile isDigit) ∨
        bytes.takeWhile isDigit = bytes ∧ 2 ^ 32 ≤ decimal (bytes.takeWhile isDigit)) := by
  constructor
  · rintro (⟨ds, rest, n, rfl, hds, hrest, hn⟩ | ⟨n, hall, hn⟩)
    · obtain ⟨hne, hself, rfl⟩ := denotes_iff.1 hds
      rw [takeWhile_append_of_head hself hrest]
      exact ⟨hne, .inl hn⟩
    · obtain ⟨hne, hself, rfl⟩ := denotes_iff.1 hall
      rw [hself]
      exact ⟨hne, .inr ⟨rfl, hn⟩⟩
  · rintro ⟨hne, hn | ⟨hself, hn⟩⟩
    · refine .inl ⟨_, bytes.dropWhile isDigit, _, List.takeWhile_append_dropWhile.symm,
        denotes_iff.2 ⟨hne, ?_, rfl⟩, fun b hb => ?_, hn⟩
      · exact List.takeWhile_eq_self_iff.2 fun b hb => List.mem_takeWhile_imp hb
      · have hnot := List.head?_dropWhile_not isDigit bytes
        rw [Option.mem_def.1 hb] at hnot
        rw [← isDigit_iff]
        simpa using hnot
    · rw [hself] at hne hn
      exact .inr ⟨_, denotes_iff.2 ⟨hne, hself, rfl⟩, hn⟩

theorem Denotes.unique {bytes : List UInt8} {m n : UInt32} (hm : Denotes bytes m.toNat)
    (hn : Denotes bytes n.toNat) : m = n :=
  UInt32.toNat_inj.1 (hm.value.symm.trans hn.value)

theorem Denotes.not_exceeds {bytes : List UInt8} {n : UInt32} (h : Denotes bytes n.toNat) :
    ¬Exceeds bytes := by
  obtain ⟨-, hself, hvalue⟩ := denotes_iff.1 h
  rw [exceeds_iff, hself, hvalue]
  have hlt := n.toNat_lt
  rintro ⟨-, hn | ⟨-, hn⟩⟩
  · omega
  · omega

/-- What becomes of a value, by the grammar alone. -/
inductive Verdict (bytes : List UInt8) : Except Fault UInt32 → Prop
  | number {n : UInt32} (h : Denotes bytes n.toNat) : Verdict bytes (.ok n)
  | tooLarge (h : Exceeds bytes) : Verdict bytes (.error (.unsignedOverflow (ofBytes bytes)))
  | malformed (hnone : ∀ n, ¬Denotes bytes n) (h : ¬Exceeds bytes) :
    Verdict bytes (.error (.notUnsigned (ofBytes bytes)))

/-- The stages come to the verdict of the grammar. -/
theorem verdict_readBytes (bytes : List UInt8) : Verdict bytes (readBytes bytes) := by
  have hdenotes (n : Nat) : Denotes bytes n ↔ _ := denotes_iff
  have hexceeds : Exceeds bytes ↔ _ := exceeds_iff
  rw [readBytes_eq]
  generalize hds : bytes.takeWhile isDigit = ds at *
  dsimp only
  split
  · rename_i hnil
    refine .malformed (fun n hn => ?_) fun he => (hexceeds.1 he).1 hnil
    obtain ⟨hne, hself, -⟩ := (hdenotes n).1 hn
    exact hne (hself.symm.trans hnil)
  · rename_i hne
    split
    · rename_i hn
      exact .tooLarge (hexceeds.2 ⟨hne, .inl hn⟩)
    · rename_i hn
      split
      · rename_i hself
        refine .malformed (fun n hd => hself ((hdenotes n).1 hd).2.1) fun he => ?_
        obtain ⟨-, hlarge | ⟨hall, -⟩⟩ := hexceeds.1 he
        · exact hn hlarge
        · exact hself hall
      · rename_i hself
        have hself : ds = bytes := not_not.1 hself
        split
        · rename_i hsize
          exact .tooLarge (hexceeds.2 ⟨hne, .inr ⟨hself, hsize⟩⟩)
        · rename_i hsize
          refine .number ((hdenotes _).2 ⟨hself ▸ hne, hself, ?_⟩)
          rw [UInt32.toNat_ofNat_of_lt' (Nat.lt_of_not_le hsize), hself]

/-! ## Names -/

/-- The name of a parameter. -/
def name : Parameter → String
  | addressSize => "analyzer.address_sz"
  | operandSize => "analyzer.operand_sz"
  | loglevel => "analyzer.loglevel"

theorem ofName?_name (p : Parameter) : ofName? p.name = some p := by
  cases p with
  | _ => rfl

end Parameter

namespace Configuration

open FlowAutomaton.Action
open FlowAutomaton.Parameter (Denotes Exceeds readBytes)
open FlowAutomaton.Text (toBytes ofBytes)

/-! ## Setting parameters -/

/-- Sets the parameter of a name from bytes. -/
def setParameterBytes (name : String) (value : List UInt8) : Action Configuration Unit :=
  match Parameter.ofName? name with
  | some p => .tryModify fun c => (readBytes value).map (c.assign p)
  | none => .emit (.warning ("Ignored unsupported parameter " ++ name ++ "\n"))

/-- The value of a parameter. -/
def parameter (c : Configuration) : Parameter → UInt32
  | .addressSize => c.addressSize
  | .operandSize => c.operandSize
  | .loglevel => c.loglevel

/-- One parameter has a value, and all else is as it was. -/
structure Sets (c c' : Configuration) (p : Parameter) (n : UInt32) : Prop where
  value : c'.parameter p = n
  others : ∀ q, q ≠ p → c'.parameter q = c.parameter q
  registers : c'.registers = c.registers
  contents : c'.contents = c.contents
  memory : ∀ region, c'.memory region = c.memory region

theorem sets_assign (c : Configuration) (p : Parameter) (n : UInt32) :
    Sets c (c.assign p n) p n := by
  obtain ⟨hregisters, hcontents⟩ := registers_assign c p n
  refine ⟨?_, fun q hq => ?_, hregisters, hcontents, fun region => ?_⟩
  · cases p <;> rfl
  · cases p <;> cases q <;> simp_all [parameter, assign]
  · cases p <;> cases region <;> rfl

/-- What the setting of a parameter from bytes comes to. -/
structure Parses (c : Configuration) (p : Parameter) (bytes : List UInt8)
    (o : Outcome Configuration Unit) : Prop where
  succeeds_iff : o.result = .ok () ↔ ∃ n : UInt32, Denotes bytes n.toNat
  sets : ∀ n : UInt32, Denotes bytes n.toNat → Sets c o.state p n
  keeps : ∀ e, o.result = .error e → o.state = c
  overflow_iff : o.result = .error (.unsignedOverflow (ofBytes bytes)) ↔ Exceeds bytes
  notUnsigned_iff : o.result = .error (.notUnsigned (ofBytes bytes)) ↔
    (∀ n : UInt32, ¬Denotes bytes n.toNat) ∧ ¬Exceeds bytes
  quiet : o.events = []

/-- A parameter is set from a text as from its bytes. -/
theorem setParameter_eq (name value : String) :
    setParameter name value = setParameterBytes name (toBytes value) := by
  unfold setParameter setParameterBytes
  cases Parameter.ofName? name with
  | some p =>
    dsimp only
    rw [Parameter.read_eq]
  | none => rfl

/-- What the value that was read for a parameter makes of a configuration. -/
def assigned (c : Configuration) (p : Parameter) :
    Except Fault UInt32 → Outcome Configuration Unit
  | .ok n => ⟨.ok (), c.assign p n, []⟩
  | .error e => ⟨.error e, c, []⟩

theorem run_setParameterBytes (c : Configuration) (p : Parameter) (bytes : List UInt8) :
    (setParameterBytes p.name bytes).run c = c.assigned p (readBytes bytes) := by
  unfold setParameterBytes
  rw [Parameter.ofName?_name, run_tryModify]
  cases readBytes bytes with
  | ok n => rfl
  | error e => rfl

/-- A value of any verdict is set, or refused, as that verdict says. -/
theorem parses_of_verdict (c : Configuration) (p : Parameter) {bytes : List UInt8}
    {x : Except Fault UInt32} (h : Parameter.Verdict bytes x) :
    Parses c p bytes (c.assigned p x) := by
  cases h with
  | @number n h =>
    constructor
    · exact iff_of_true rfl ⟨n, h⟩
    · intro m hm
      rw [hm.unique h]
      exact sets_assign c p n
    · rintro e ⟨⟩
    · exact iff_of_false nofun h.not_exceeds
    · exact iff_of_false nofun fun hnone => hnone.1 n h
    · rfl
  | tooLarge h =>
    constructor
    · exact iff_of_false nofun fun ⟨n, hn⟩ => hn.not_exceeds h
    · intro m hm
      exact absurd h hm.not_exceeds
    · exact fun _ _ => rfl
    · exact iff_of_true rfl h
    · exact iff_of_false nofun fun hnone => hnone.2 h
    · rfl
  | malformed hnone h =>
    constructor
    · exact iff_of_false nofun fun ⟨n, hn⟩ => hnone _ hn
    · intro m hm
      exact absurd hm (hnone _)
    · exact fun _ _ => rfl
    · exact iff_of_false nofun h
    · exact iff_of_true rfl ⟨fun n => hnone _, h⟩
    · rfl

/-- Every parameter takes its value from bytes by the one grammar, and from a text by that of its
bytes. -/
theorem parameters_parsed (c : Configuration) (p : Parameter) :
    (∀ value, setParameter p.name value = setParameterBytes p.name (toBytes value)) ∧
      ∀ bytes, Parses c p bytes ((setParameterBytes p.name bytes).run c) := by
  refine ⟨setParameter_eq p.name, fun bytes => ?_⟩
  rw [run_setParameterBytes]
  exact parses_of_verdict c p (Parameter.verdict_readBytes bytes)

end Configuration

end FlowAutomaton
