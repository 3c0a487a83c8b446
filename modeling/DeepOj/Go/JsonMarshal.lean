import DeepOj.Go.Json

/-!
# `json.Marshal` of a flat structure

The fields are texts and integers. What is written is read back by the scanner.
-/

namespace DeepOj.Go.Json

/-- A field as it is written. -/
inductive Scalar where
  | str (s : String)
  | int (n : Int)
  deriving DecidableEq, Repr

/-- The value `omitempty` leaves out. -/
def Scalar.isEmpty : Scalar → Bool
  | .str s => s = ""
  | .int n => n = 0

theorem Scalar.str_of_isEmpty {s : String} (h : (Scalar.str s).isEmpty = true) :
    Scalar.str "" = .str s := by
  rw [of_decide_eq_true h]

theorem Scalar.int_of_isEmpty {n : Int} (h : (Scalar.int n).isEmpty = true) :
    Scalar.int 0 = .int n := by
  rw [of_decide_eq_true h]

/-- A string in quotes. -/
def quote (s : String) : Bytes := 34 :: (s.toList.flatMap quoteChar ++ [34])

/-- The decimal digits of a number. -/
def natText (n : Nat) : Bytes := (Nat.toDigits 10 n).map fun c => UInt8.ofNat c.toNat

/-- `strconv.AppendInt`. -/
def intText (n : Int) : Bytes := if n < 0 then 45 :: natText n.natAbs else natText n.natAbs

def Scalar.text : Scalar → Bytes
  | .str s => quote s
  | .int n => intText n

/-- The value a field is read back as. -/
def Scalar.json : Scalar → Json
  | .str s => .str s
  | .int n => .num (intText n)

/-- The members of an object, separated by commas. -/
def membersText : List (String × Scalar) → Bytes
  | [] => []
  | [m] => quote m.1 ++ 58 :: m.2.text
  | m :: ms => quote m.1 ++ 58 :: (m.2.text ++ 44 :: membersText ms)

/-- A structure. -/
def objectText (ms : List (String × Scalar)) : Bytes := 123 :: (membersText ms ++ [125])

/-! The same for any choice of the characters to be escaped by number. -/

def quoteWith (esc : Char → Bool) (s : String) : Bytes :=
  34 :: (s.toList.flatMap (quoteCharWith esc) ++ [34])

def Scalar.textWith (esc : Char → Bool) : Scalar → Bytes
  | .str s => quoteWith esc s
  | .int n => intText n

def membersTextWith (esc : Char → Bool) : List (String × Scalar) → Bytes
  | [] => []
  | [m] => quoteWith esc m.1 ++ 58 :: m.2.textWith esc
  | m :: ms => quoteWith esc m.1 ++ 58 :: (m.2.textWith esc ++ 44 :: membersTextWith esc ms)

def objectTextWith (esc : Char → Bool) (ms : List (String × Scalar)) : Bytes :=
  123 :: (membersTextWith esc ms ++ [125])

theorem textWith_escapesNumber (v : Scalar) : v.textWith escapesNumber = v.text := by
  cases v <;> rfl

theorem membersTextWith_escapesNumber (ms : List (String × Scalar)) :
    membersTextWith escapesNumber ms = membersText ms := by
  induction ms with
  | nil => rfl
  | cons m ms ih =>
    cases ms with
    | nil => rw [membersTextWith, membersText, textWith_escapesNumber]; rfl
    | cons m' ms =>
      rw [membersTextWith, membersText, textWith_escapesNumber, ih]
      · rfl
      · simp
      · simp

theorem objectTextWith_escapesNumber (ms : List (String × Scalar)) :
    objectTextWith escapesNumber ms = objectText ms := by
  rw [objectTextWith, membersTextWith_escapesNumber, objectText]

/-- The digits of a number, as `strconv` reads them. -/
def parseNat (ds : Bytes) : Option Nat :=
  if ds ≠ [] ∧ ds.all isDigit = true then some (ds.foldl (fun n b => n * 10 + (b.toNat - 48)) 0)
  else none

/-- `strconv.ParseInt` of a number the scanner has read, but for the range. -/
def parseInt : Bytes → Option Int
  | [] => none
  | b :: ds =>
    if b = 45 then (parseNat ds).map fun n => -Int.ofNat n else (parseNat (b :: ds)).map Int.ofNat

/-! ## Strings -/

section Strings

variable {esc : Char → Bool} {fs : List Frame} {slot : Slot} {raw : Bytes}

theorem step_inString {b : UInt8} (h₁ : b ≠ 34) (h₂ : b ≠ 92) (h₃ : 32 ≤ b.toNat) :
    step ⟨.inString slot raw, fs⟩ b = some ⟨.inString slot (b :: raw), fs⟩ := by
  simp only [step, if_neg h₁, if_neg h₂, if_neg (Nat.not_lt_of_le h₃)]

/-- Ordinary bytes are taken as they are. -/
theorem run_plain {bs : Bytes} (h : ∀ b ∈ bs, b ≠ 34 ∧ b ≠ 92 ∧ 32 ≤ b.toNat) :
    run ⟨.inString slot raw, fs⟩ bs = some ⟨.inString slot (bs.reverse ++ raw), fs⟩ := by
  induction bs generalizing raw with
  | nil => rfl
  | cons b bs ih =>
    obtain ⟨h₁, h₂, h₃⟩ := h b List.mem_cons_self
    rw [run_cons, step_inString h₁ h₂ h₃, List.reverse_cons, List.append_assoc]
    exact ih fun b hb => h b (List.mem_cons_of_mem _ hb)

theorem hexValue_isSome_hexDigit {d : Nat} (h : d < 16) : (hexValue (hexDigit d)).isSome = true := by
  rw [hexValue_hexDigit h]
  rfl

theorem shortEscape_mem {c : Char} {e : UInt8} (h : shortEscape c = some e) :
    e ∈ ([98, 102, 110, 114, 116, 92, 47, 34] : List UInt8) := by
  unfold shortEscape at h
  repeat' split at h
  all_goals cases h <;> decide

/-- A character that needs no escape has no special byte. -/
theorem plain_of_not_escaped (hesc : Escapes esc) {c : Char} (hs : shortEscape c = none)
    (hn : ¬ esc c = true) :
    ∀ b ∈ String.utf8EncodeChar c, b ≠ 34 ∧ b ≠ 92 ∧ 32 ≤ b.toNat := by
  have h34 : (34 : UInt8).toNat = 34 := rfl
  have h92 : (92 : UInt8).toNat = 92 := rfl
  intro b hb
  by_cases hlt : c.toNat < 128
  · rw [utf8EncodeChar_ascii hlt, List.mem_singleton] at hb
    have hval : b.toNat = c.toNat := by
      rw [hb, UInt8.toNat_ofNat']
      omega
    have hback : ∀ n, c.toNat = n → c = Char.ofNat n := by
      rintro n rfl
      exact (Char.ofNat_toNat c).symm
    refine ⟨?_, ?_, ?_⟩
    · rintro rfl
      rw [hback 34 (by omega)] at hs
      exact absurd hs (by decide)
    · rintro rfl
      rw [hback 92 (by omega)] at hs
      exact absurd hs (by decide)
    · by_contra hctl
      exact hn (hesc.control c (by omega))
  · have hle := le_of_mem_utf8EncodeChar (Nat.le_of_not_lt hlt) b hb
    refine ⟨?_, ?_, by omega⟩
    · rintro rfl
      omega
    · rintro rfl
      omega

/-- The bytes of one character stay within the string. -/
theorem run_quoteCharWith (h : Escapes esc) (c : Char) :
    run ⟨.inString slot raw, fs⟩ (quoteCharWith esc c) =
      some ⟨.inString slot ((quoteCharWith esc c).reverse ++ raw), fs⟩ := by
  unfold quoteCharWith
  cases hs : shortEscape c with
  | some e =>
    have hmem := shortEscape_mem hs
    show (step ⟨.inString slot raw, fs⟩ 92).bind (fun s => (step s e).bind some) = _
    have hesc : step ⟨.inString slot raw, fs⟩ 92 = some ⟨.inStringEsc slot (92 :: raw), fs⟩ := rfl
    rw [hesc, Option.bind_some]
    simp only [step, if_pos hmem]
    rfl
  | none =>
    by_cases hn : esc c = true
    · have hlt := h.small c hn
      have hhex : ∀ d, d < 16 → ∀ raw more, step ⟨.inStringEscU slot raw (more + 1), fs⟩ (hexDigit d) =
          some ⟨.inStringEscU slot (hexDigit d :: raw) more, fs⟩ := by
        intro d hd raw more
        simp only [step, hexValue_isSome_hexDigit hd, if_true]
      have hlast : ∀ d, d < 16 → ∀ raw, step ⟨.inStringEscU slot raw 0, fs⟩ (hexDigit d) =
          some ⟨.inString slot (hexDigit d :: raw), fs⟩ := by
        intro d hd raw
        simp only [step, hexValue_isSome_hexDigit hd, if_true]
      have hesc : step ⟨.inString slot raw, fs⟩ 92 = some ⟨.inStringEsc slot (92 :: raw), fs⟩ := rfl
      have hu : step ⟨.inStringEsc slot (92 :: raw), fs⟩ 117 =
          some ⟨.inStringEscU slot (117 :: 92 :: raw) 3, fs⟩ := rfl
      simp only [hn, if_true, run_cons, hesc, hu, Option.bind_some, hhex _ (show c.toNat / 4096 < 16 by omega),
        hhex _ (show c.toNat / 256 % 16 < 16 by omega), hhex _ (show c.toNat / 16 % 16 < 16 by omega),
        hlast _ (show c.toNat % 16 < 16 by omega)]
      rfl
    · simp only [if_neg hn]
      exact run_plain (plain_of_not_escaped h hs hn)

theorem run_quoteChars (h : Escapes esc) (cs : List Char) :
    run ⟨.inString slot raw, fs⟩ (cs.flatMap (quoteCharWith esc)) =
      some ⟨.inString slot ((cs.flatMap (quoteCharWith esc)).reverse ++ raw), fs⟩ := by
  induction cs generalizing raw with
  | nil => rfl
  | cons c cs ih =>
    rw [List.flatMap_cons, run_append, run_quoteCharWith h, List.reverse_append, List.append_assoc]
    exact ih

/-- From the opening quote to the closing one. -/
theorem run_inString (h : Escapes esc) (s : String) :
    run ⟨.inString slot [], fs⟩ (s.toList.flatMap (quoteCharWith esc) ++ [34]) =
      some (endString slot s fs) := by
  rw [run_append, run_quoteChars h, List.append_nil]
  show some (endString slot (unquote (List.reverse (List.reverse _))) fs) = _
  rw [List.reverse_reverse, unquote_quoteWith h]

/-- A string value. -/
theorem run_quoteWith (h : Escapes esc) (s : String) :
    run ⟨.beginValue, fs⟩ (quoteWith esc s) = some ⟨.endValue (.str s), fs⟩ := run_inString h s

/-- A key. -/
theorem run_key (h : Escapes esc) (before : List (String × Json)) (key : String) :
    run ⟨.beginString before, fs⟩ (quoteWith esc key) = some ⟨.endKey before key, fs⟩ :=
  run_inString h key

end Strings

/-! ## Integers -/

/-- A digit as it is written. -/
theorem digit_text {d : Nat} (h : d < 10) :
    isDigit (UInt8.ofNat d.digitChar.toNat) = true ∧
      (UInt8.ofNat d.digitChar.toNat).toNat = 48 + d := by
  interval_cases d <;> decide

theorem natText_of_lt {n : Nat} (h : n < 10) : natText n = [UInt8.ofNat n.digitChar.toNat] := by
  rw [natText, Nat.toDigits_of_lt_base h]
  rfl

theorem natText_of_le {n : Nat} (h : 10 ≤ n) :
    natText n = natText (n / 10) ++ [UInt8.ofNat (n % 10).digitChar.toNat] := by
  rw [natText, Nat.toDigits_of_base_le (by omega) h, List.map_append]
  rfl

theorem natText_ne_nil (n : Nat) : natText n ≠ [] := by
  unfold natText
  simp

theorem isDigit_natText (n : Nat) : ∀ b ∈ natText n, isDigit b = true := by
  induction n using Nat.strongRecOn with
  | ind n ih =>
    intro b hb
    by_cases hlt : n < 10
    · rw [natText_of_lt hlt, List.mem_singleton] at hb
      rw [hb]
      exact (digit_text hlt).1
    · rw [natText_of_le (Nat.le_of_not_lt hlt)] at hb
      rcases List.mem_append.mp hb with hb | hb
      · exact ih (n / 10) (by omega) b hb
      · rw [List.mem_singleton.mp hb]
        exact (digit_text (Nat.mod_lt _ (by omega))).1

theorem notMem_natText {b : UInt8} (hb : isDigit b = false) (n : Nat) : b ∉ natText n := by
  intro hmem
  rw [isDigit_natText n b hmem] at hb
  cases hb

theorem foldl_natText (n : Nat) :
    (natText n).foldl (fun n b => n * 10 + (b.toNat - 48)) 0 = n := by
  induction n using Nat.strongRecOn with
  | ind n ih =>
    by_cases hlt : n < 10
    · have hval := (digit_text hlt).2
      rw [natText_of_lt hlt, List.foldl_cons, List.foldl_nil]
      omega
    · have hval := (digit_text (d := n % 10) (Nat.mod_lt _ (by omega))).2
      rw [natText_of_le (Nat.le_of_not_lt hlt), List.foldl_append, ih (n / 10) (by omega),
        List.foldl_cons, List.foldl_nil]
      omega

theorem parseNat_natText (n : Nat) : parseNat (natText n) = some n := by
  rw [parseNat, if_pos ⟨natText_ne_nil n, List.all_eq_true.mpr (isDigit_natText n)⟩, foldl_natText]

theorem natText_inj {m n : Nat} (h : natText m = natText n) : m = n := by
  have hm := parseNat_natText m
  rw [h, parseNat_natText] at hm
  exact (Option.some.inj hm).symm

/-- An integer is read as it was written. -/
theorem parseInt_intText (n : Int) : parseInt (intText n) = some n := by
  unfold intText
  split
  · have hback : -Int.ofNat n.natAbs = n := by
      rw [Int.ofNat_eq_natCast]
      omega
    rw [parseInt, if_pos rfl, parseNat_natText, Option.map_some, hback]
  · have hback : Int.ofNat n.natAbs = n := by
      rw [Int.ofNat_eq_natCast]
      omega
    cases htext : natText n.natAbs with
    | nil => exact absurd htext (natText_ne_nil _)
    | cons b ds =>
      have hdigit : isDigit b = true := isDigit_natText n.natAbs b (by simp [htext])
      have hminus : b ≠ 45 := by
        rintro rfl
        cases hdigit
      rw [parseInt, if_neg hminus, ← htext, parseNat_natText, Option.map_some, hback]

section Numbers

variable {esc : Char → Bool} {fs : List Frame}

/-- The state after the digits of a number. -/
def numberState (n : Nat) : NumberState := if n = 0 then .zero else .int

theorem step_int {raw : Bytes} {b : UInt8} (h : isDigit b = true) :
    step ⟨.inNumber .int raw, fs⟩ b = some ⟨.inNumber .int (b :: raw), fs⟩ := by
  simp only [step, NumberState.next, h, if_true]

/-- Digits, from a state in which a number begins. -/
theorem run_natText {s : Scanner} {raw : Bytes}
    (hs : ∀ d, d < 10 → step s (UInt8.ofNat d.digitChar.toNat) =
      some ⟨.inNumber (numberState d) (UInt8.ofNat d.digitChar.toNat :: raw), fs⟩) (n : Nat) :
    run s (natText n) = some ⟨.inNumber (numberState n) ((natText n).reverse ++ raw), fs⟩ := by
  induction n using Nat.strongRecOn with
  | ind n ih =>
    by_cases hlt : n < 10
    · rw [natText_of_lt hlt, run_cons, hs n hlt]
      rfl
    · have hint : numberState (n / 10) = .int := if_neg (by omega)
      have hint' : numberState n = .int := if_neg (by omega)
      rw [natText_of_le (Nat.le_of_not_lt hlt), run_append, ih (n / 10) (by omega), hint, hint',
        List.reverse_append, Option.bind_some, run_cons,
        step_int (digit_text (Nat.mod_lt _ (by omega))).1]
      rfl

/-- An integer value. The scanner knows only from the next byte that it has ended. -/
theorem run_intText (n : Int) :
    run ⟨.beginValue, fs⟩ (intText n) =
      some ⟨.inNumber (numberState n.natAbs) (intText n).reverse, fs⟩ := by
  unfold intText
  split
  · have hminus : step ⟨.beginValue, fs⟩ 45 = some ⟨.inNumber .neg [45], fs⟩ := rfl
    rw [run_cons, hminus, List.reverse_cons]
    refine run_natText (s := ⟨.inNumber .neg [45], fs⟩) (fun d hd => ?_) n.natAbs
    interval_cases d <;> rfl
  · rw [← List.append_nil (List.reverse _)]
    refine run_natText (s := ⟨.beginValue, fs⟩) (fun d hd => ?_) n.natAbs
    interval_cases d <;> rfl

/-- A comma or a brace ends a number. -/
theorem step_endNumber {raw : Bytes} {b : UInt8} (n : Nat) (hb : b = 44 ∨ b = 125) :
    step ⟨.inNumber (numberState n) raw, fs⟩ b = endValue (.num raw.reverse) fs b := by
  unfold numberState
  rcases hb with rfl | rfl
  · split <;> rfl
  · split <;> rfl

/-- A value of a structure and the byte after it. -/
theorem run_scalar (h : Escapes esc) (v : Scalar) {b : UInt8} (hb : b = 44 ∨ b = 125) (rest : Bytes) :
    run ⟨.beginValue, fs⟩ (v.textWith esc ++ b :: rest) =
      (endValue v.json fs b).bind fun s => run s rest := by
  rw [run_append]
  cases v with
  | str s =>
    rw [Scalar.textWith, run_quoteWith h]
    rfl
  | int n =>
    rw [Scalar.textWith, run_intText, Option.bind_some, run_cons, step_endNumber _ hb,
      List.reverse_reverse]
    rfl

end Numbers

/-! ## Objects -/

/-- The members as they are read back. -/
def membersJson (ms : List (String × Scalar)) : List (String × Json) :=
  ms.map fun m => (m.1, m.2.json)

section Objects

variable {esc : Char → Bool} {fs : List Frame} {before : List (String × Json)}

/-- A member and the byte after it. -/
theorem run_member (h : Escapes esc) (m : String × Scalar) {b : UInt8} (hb : b = 44 ∨ b = 125)
    (rest : Bytes) :
    run ⟨.beginString before, fs⟩ (quoteWith esc m.1 ++ 58 :: (m.2.textWith esc ++ b :: rest)) =
      (endValue m.2.json (.object before m.1 :: fs) b).bind fun s => run s rest := by
  have hcolon : step ⟨.endKey before m.1, fs⟩ 58 = some ⟨.beginValue, .object before m.1 :: fs⟩ := rfl
  rw [run_append, run_key h, Option.bind_some, run_cons, hcolon, Option.bind_some,
    run_scalar h m.2 hb]

/-- The members, up to the closing brace. -/
theorem run_members (h : Escapes esc) {ms : List (String × Scalar)} (hms : ms ≠ []) :
    run ⟨.beginString before, fs⟩ (membersTextWith esc ms ++ [125]) =
      some ⟨.endValue (.obj (before.reverse ++ membersJson ms)), fs⟩ := by
  induction ms generalizing before with
  | nil => exact absurd rfl hms
  | cons m ms ih =>
    have hkept : ∀ v : Json, List.reverse ((m.1, v) :: before) = before.reverse ++ [(m.1, v)] :=
      fun v => List.reverse_cons
    cases ms with
    | nil =>
      have hbrace : endValue m.2.json (.object before m.1 :: fs) 125 =
          some ⟨.endValue (.obj ((m.1, m.2.json) :: before).reverse), fs⟩ := rfl
      simp only [membersTextWith, List.append_assoc, List.cons_append]
      rw [run_member h m (.inr rfl), hbrace, hkept]
      rfl
    | cons m' ms =>
      have hcomma : endValue m.2.json (.object before m.1 :: fs) 44 =
          some ⟨.beginString ((m.1, m.2.json) :: before), fs⟩ := rfl
      simp only [membersTextWith, List.append_assoc, List.cons_append]
      rw [run_member h m (.inl rfl), hcomma, Option.bind_some, ih (by simp), hkept, List.append_assoc]
      rfl

/-- A structure is read back, member by member. -/
theorem parse_objectTextWith (h : Escapes esc) (ms : List (String × Scalar)) :
    parse (objectTextWith esc ms) = some (.obj (membersJson ms)) := by
  have hopen : step ⟨.beginValue, []⟩ 123 = some ⟨.beginStringOrEmpty, []⟩ := rfl
  have hrun : run ⟨.beginValue, []⟩ (objectTextWith esc ms) =
      some ⟨.endValue (.obj (membersJson ms)), []⟩ := by
    rw [objectTextWith, run_cons, hopen]
    cases ms with
    | nil => rfl
    | cons m ms =>
      have hfirst : run ⟨.beginStringOrEmpty, []⟩ (membersTextWith esc (m :: ms) ++ [125]) =
          run ⟨.beginString [], []⟩ (membersTextWith esc (m :: ms) ++ [125]) := by
        cases ms with
        | nil => rfl
        | cons m' ms => rfl
      exact hfirst.trans (run_members h (by simp))
  rw [parse, hrun]
  rfl

theorem parse_objectText (ms : List (String × Scalar)) :
    parse (objectText ms) = some (.obj (membersJson ms)) := by
  rw [← objectTextWith_escapesNumber]
  exact parse_objectTextWith escapes_escapesNumber ms

end Objects

/-! ## What is written is one line -/

section Line

variable {esc : Char → Bool}

theorem le_hexDigit {d : Nat} (h : d < 16) : 32 ≤ (hexDigit d).toNat := by
  interval_cases d <;> decide

theorem le_of_mem_quoteCharWith (h : Escapes esc) {c : Char} :
    ∀ b ∈ quoteCharWith esc c, 32 ≤ b.toNat := by
  unfold quoteCharWith
  intro b hb
  cases hs : shortEscape c with
  | some e =>
    rw [hs] at hb
    have hmem := shortEscape_mem hs
    simp only [List.mem_cons, List.not_mem_nil, or_false] at hb hmem
    rcases hb with rfl | rfl
    · decide
    · rcases hmem with rfl | rfl | rfl | rfl | rfl | rfl | rfl | rfl <;> decide
  | none =>
    rw [hs] at hb
    by_cases hn : esc c = true
    · have hlt := h.small c hn
      simp only [hn, if_true, List.mem_cons, List.not_mem_nil, or_false] at hb
      rcases hb with rfl | rfl | rfl | rfl | rfl | rfl
      · decide
      · decide
      · exact le_hexDigit (by omega)
      · exact le_hexDigit (by omega)
      · exact le_hexDigit (by omega)
      · exact le_hexDigit (by omega)
    · simp only [if_neg hn] at hb
      exact (plain_of_not_escaped h hs hn b hb).2.2

theorem le_of_mem_quoteWith (h : Escapes esc) {s : String} :
    ∀ b ∈ quoteWith esc s, 32 ≤ b.toNat := by
  intro b hb
  simp only [quoteWith, List.mem_cons, List.mem_append, List.mem_flatMap, List.not_mem_nil,
    or_false] at hb
  rcases hb with rfl | ⟨c, -, hb⟩ | rfl
  · decide
  · exact le_of_mem_quoteCharWith h b hb
  · decide

theorem le_of_mem_natText {n : Nat} : ∀ b ∈ natText n, 32 ≤ b.toNat := by
  intro b hb
  have hdigit := isDigit_natText n b hb
  unfold isDigit at hdigit
  simp only [Bool.and_eq_true, decide_eq_true_eq] at hdigit
  omega

theorem le_of_mem_textWith (h : Escapes esc) (v : Scalar) : ∀ b ∈ v.textWith esc, 32 ≤ b.toNat := by
  intro b hb
  cases v with
  | str s => exact le_of_mem_quoteWith h b hb
  | int n =>
    rw [Scalar.textWith, intText] at hb
    split at hb
    · rcases List.mem_cons.mp hb with rfl | hb
      · decide
      · exact le_of_mem_natText b hb
    · exact le_of_mem_natText b hb

theorem le_of_mem_membersTextWith (h : Escapes esc) (ms : List (String × Scalar)) :
    ∀ b ∈ membersTextWith esc ms, 32 ≤ b.toNat := by
  induction ms with
  | nil =>
    intro b hb
    cases hb
  | cons m ms ih =>
    intro b hb
    cases ms with
    | nil =>
      simp only [membersTextWith, List.mem_append, List.mem_cons] at hb
      rcases hb with hb | rfl | hb
      · exact le_of_mem_quoteWith h b hb
      · decide
      · exact le_of_mem_textWith h _ b hb
    | cons m' ms =>
      simp only [membersTextWith, List.mem_append, List.mem_cons] at hb ih
      rcases hb with hb | rfl | hb | rfl | hb
      · exact le_of_mem_quoteWith h b hb
      · decide
      · exact le_of_mem_textWith h _ b hb
      · decide
      · exact ih b hb

/-- No control character stands in an object. -/
theorem le_of_mem_objectTextWith (h : Escapes esc) (ms : List (String × Scalar)) :
    ∀ b ∈ objectTextWith esc ms, 32 ≤ b.toNat := by
  intro b hb
  simp only [objectTextWith, List.mem_cons, List.mem_append, List.not_mem_nil, or_false] at hb
  rcases hb with rfl | hb | rfl
  · decide
  · exact le_of_mem_membersTextWith h ms b hb
  · decide

end Line

end DeepOj.Go.Json
