import DeepOj.Go.Utf8
import Mathlib.Tactic.IntervalCases

/-!
# The strings of `encoding/json`

A string is escaped character by character, and read back character by character.
-/

namespace DeepOj.Go.Json

/-- A hexadecimal digit. -/
def hexDigit (d : Nat) : UInt8 := if d < 10 then UInt8.ofNat (48 + d) else UInt8.ofNat (87 + d)

/-- The value of a hexadecimal digit. -/
def hexValue (b : UInt8) : Option Nat :=
  if 48 ≤ b.toNat ∧ b.toNat ≤ 57 then some (b.toNat - 48)
  else if 97 ≤ b.toNat ∧ b.toNat ≤ 102 then some (b.toNat - 87)
  else if 65 ≤ b.toNat ∧ b.toNat ≤ 70 then some (b.toNat - 55)
  else none

/-! ## Writing -/

/-- The character after the backslash of a short escape. -/
def shortEscape (c : Char) : Option UInt8 :=
  if c = '"' then some 34
  else if c = '\\' then some 92
  else if c.toNat = 8 then some 98
  else if c.toNat = 12 then some 102
  else if c = '\n' then some 110
  else if c = '\r' then some 114
  else if c = '\t' then some 116
  else none

/-- The characters that are escaped by their number: the other control characters, those of HTML,
and the line separators of JavaScript. -/
def escapesNumber (c : Char) : Bool :=
  c.toNat < 32 || c ∈ ['<', '>', '&'] || c.toNat = 0x2028 || c.toNat = 0x2029

/-- A character as `appendString` writes it. -/
def quoteChar (c : Char) : Bytes :=
  match shortEscape c with
  | some e => [92, e]
  | none =>
    if escapesNumber c then
      [92, 117, hexDigit (c.toNat / 4096), hexDigit (c.toNat / 256 % 16), hexDigit (c.toNat / 16 % 16),
        hexDigit (c.toNat % 16)]
    else String.utf8EncodeChar c

/-- A character, where those in `esc` are escaped by their number. -/
def quoteCharWith (esc : Char → Bool) (c : Char) : Bytes :=
  match shortEscape c with
  | some e => [92, e]
  | none =>
    if esc c then
      [92, 117, hexDigit (c.toNat / 4096), hexDigit (c.toNat / 256 % 16), hexDigit (c.toNat / 16 % 16),
        hexDigit (c.toNat % 16)]
    else String.utf8EncodeChar c

/-- All control characters are escaped by their number, and only characters with small ones. -/
structure Escapes (esc : Char → Bool) : Prop where
  control : ∀ c, c.toNat < 32 → esc c = true
  small : ∀ c, esc c = true → c.toNat < 0x3000

/-! ## Reading -/

/-- The number of four hexadecimal digits. -/
def hex4 : Bytes → Option (Nat × Bytes)
  | a :: b :: c :: d :: rest => do
    let a ← hexValue a
    let b ← hexValue b
    let c ← hexValue c
    let d ← hexValue d
    pure (a * 4096 + b * 256 + c * 16 + d, rest)
  | _ => none

/-- `getu4`. -/
def getu4 : Bytes → Option (Nat × Bytes)
  | x :: y :: s => if x = 92 ∧ y = 117 then hex4 s else none
  | _ => none

/-- `unicode.ReplacementChar`. -/
def replacementChar : Char := Char.ofNat 0xFFFD

/-- `utf16.IsSurrogate`. -/
def isSurrogate (r : Nat) : Bool := 0xD800 ≤ r && r < 0xE000

/-- `utf16.DecodeRune`, of a pair of surrogates. -/
def surrogatePair (r₁ r₂ : Nat) : Option Char :=
  if 0xD800 ≤ r₁ ∧ r₁ < 0xDC00 ∧ 0xDC00 ≤ r₂ ∧ r₂ < 0xE000 then
    some (Char.ofNat ((r₁ - 0xD800) * 1024 + (r₂ - 0xDC00) + 0x10000))
  else none

/-- The character of a short escape. -/
def unescape (e : UInt8) : Char :=
  if e = 98 then Char.ofNat 8
  else if e = 102 then Char.ofNat 12
  else if e = 110 then '\n'
  else if e = 114 then '\r'
  else if e = 116 then '\t'
  else Char.ofNat e.toNat

/-- A number escape; a surrogate that has no partner is replaced. -/
def unicodeEscape (r : Nat) (rest : Bytes) : Char × Bytes :=
  if isSurrogate r then
    match getu4 rest with
    | some (r', rest') =>
      match surrogatePair r r' with
      | some c => (c, rest')
      | none => (replacementChar, rest)
    | none => (replacementChar, rest)
  else (Char.ofNat r, rest)

/-- The first character of a string the scanner has accepted, and what follows it. -/
def nextChar : Bytes → Option (Char × Bytes)
  | [] => none
  | b :: rest =>
    if b = 92 then
      match getu4 (b :: rest) with
      | some (r, rest') => some (unicodeEscape r rest')
      | none => rest.head?.map fun e => (unescape e, rest.tail)
    else
      match decodeRune (b :: rest) with
      | some c => some (c, (b :: rest).drop c.utf8Size)
      | none => some (replacementChar, rest)

/-- The first `n` characters, at most. -/
def unquoteChars : Nat → Bytes → List Char
  | 0, _ => []
  | n + 1, bs =>
    match nextChar bs with
    | some (c, rest) => c :: unquoteChars n rest
    | none => []

/-- `unquote`, of what stands between the quotes. -/
def unquote (bs : Bytes) : String := String.ofList (unquoteChars bs.length bs)

/-! ## Reading what was written -/

theorem hexValue_hexDigit {d : Nat} (h : d < 16) : hexValue (hexDigit d) = some d := by
  interval_cases d <;> decide

theorem escapes_escapesNumber : Escapes escapesNumber where
  control c h := by
    simp only [escapesNumber, Bool.or_eq_true, decide_eq_true_eq]
    exact .inl (.inl (.inl h))
  small c h := by
    unfold escapesNumber at h
    simp only [Bool.or_eq_true, decide_eq_true_eq, List.mem_cons, List.not_mem_nil, or_false] at h
    rcases h with ((h | rfl | rfl | rfl) | h) | h
    · omega
    · decide
    · decide
    · decide
    · omega
    · omega

theorem unescape_of_shortEscape {c : Char} {e : UInt8} (h : shortEscape c = some e) :
    unescape e = c ∧ e ≠ 117 := by
  have hnat : ∀ n, c.toNat = n → c = Char.ofNat n := by
    intro n hn
    rw [← hn, Char.ofNat_toNat]
  unfold shortEscape at h
  split at h
  · rename_i hc
    subst hc
    cases h
    decide
  split at h
  · rename_i hc
    subst hc
    cases h
    decide
  split at h
  · rename_i hc
    cases h
    rw [hnat 8 hc]
    decide
  split at h
  · rename_i hc
    cases h
    rw [hnat 12 hc]
    decide
  split at h
  · rename_i hc
    subst hc
    cases h
    decide
  split at h
  · rename_i hc
    subst hc
    cases h
    decide
  split at h
  · rename_i hc
    subst hc
    cases h
    decide
  cases h

/-- An ordinary character begins with no backslash. -/
theorem ne_backslash {c : Char} (hc : shortEscape c = none) {b : UInt8} {tail : Bytes}
    (h : String.utf8EncodeChar c = b :: tail) : b ≠ 92 := by
  rintro rfl
  have hmem : (92 : UInt8) ∈ String.utf8EncodeChar c := by
    rw [h]
    exact List.mem_cons_self
  by_cases hlt : c.toNat < 128
  · rw [utf8EncodeChar_ascii hlt, List.mem_singleton] at hmem
    have hval : c.toNat = 92 := by
      have hnat := congrArg UInt8.toNat hmem
      rw [UInt8.toNat_ofNat'] at hnat
      have h92 : (92 : UInt8).toNat = 92 := rfl
      omega
    have hback : c = '\\' := by
      rw [← Char.ofNat_toNat c, hval]
    rw [hback] at hc
    exact absurd hc (by decide)
  · have hle := le_of_mem_utf8EncodeChar (Nat.le_of_not_lt hlt) 92 hmem
    exact absurd hle (by decide)

section Quote

variable {esc : Char → Bool}

/-- A character is read as it was written. -/
theorem nextChar_quoteCharWith (h : Escapes esc) (c : Char) (rest : Bytes) :
    nextChar (quoteCharWith esc c ++ rest) = some (c, rest) := by
  unfold quoteCharWith
  cases hs : shortEscape c with
  | some e =>
    obtain ⟨he, hne⟩ := unescape_of_shortEscape hs
    show nextChar (92 :: e :: rest) = _
    rw [nextChar, if_pos rfl, getu4, if_neg (fun h => hne h.2)]
    show some (unescape e, rest) = _
    rw [he]
  | none =>
    by_cases hn : esc c = true
    · have hlt := h.small c hn
      have hval : c.toNat / 4096 * 4096 + c.toNat / 256 % 16 * 256 + c.toNat / 16 % 16 * 16 +
          c.toNat % 16 = c.toNat := by omega
      have hfour : hex4 (hexDigit (c.toNat / 4096) :: hexDigit (c.toNat / 256 % 16) ::
          hexDigit (c.toNat / 16 % 16) :: hexDigit (c.toNat % 16) :: rest) = some (c.toNat, rest) := by
        rw [hex4, hexValue_hexDigit (by omega), hexValue_hexDigit (by omega),
          hexValue_hexDigit (by omega), hexValue_hexDigit (by omega)]
        simp only [Option.bind_eq_bind, Option.bind_some, Option.pure_def, hval]
      have hplain : isSurrogate c.toNat = false := by
        unfold isSurrogate
        rw [Bool.and_eq_false_iff]
        exact .inl (decide_eq_false (by omega))
      simp only [hn, if_true, List.cons_append, List.nil_append]
      rw [nextChar, if_pos rfl, getu4, if_pos ⟨rfl, rfl⟩, hfour]
      show some (unicodeEscape c.toNat rest) = _
      rw [unicodeEscape, hplain, if_neg Bool.false_ne_true, Char.ofNat_toNat]
    · simp only [if_neg hn]
      have hdec := decodeRune_append c rest
      have hlen := String.length_utf8EncodeChar c
      cases henc : String.utf8EncodeChar c with
      | nil => exact absurd henc String.utf8EncodeChar_ne_nil
      | cons b tail =>
        rw [henc] at hdec hlen
        rw [List.cons_append] at hdec
        rw [List.cons_append, nextChar, if_neg (ne_backslash hs henc), hdec]
        show some (c, (b :: (tail ++ rest)).drop c.utf8Size) = _
        rw [← hlen, ← List.cons_append, List.drop_left]

theorem unquoteChars_quoteWith (hesc : Escapes esc) {cs : List Char} {n : Nat} (h : cs.length ≤ n) :
    unquoteChars n (cs.flatMap (quoteCharWith esc)) = cs := by
  induction cs generalizing n with
  | nil =>
    cases n with
    | zero => rfl
    | succ n => rfl
  | cons c cs ih =>
    cases n with
    | zero => simp at h
    | succ n =>
      rw [List.flatMap_cons, unquoteChars, nextChar_quoteCharWith hesc]
      show c :: unquoteChars n (cs.flatMap (quoteCharWith esc)) = _
      rw [ih (Nat.le_of_succ_le_succ h)]

theorem quoteCharWith_ne_nil (c : Char) : quoteCharWith esc c ≠ [] := by
  unfold quoteCharWith
  split
  · simp
  · split
    · simp
    · exact String.utf8EncodeChar_ne_nil

theorem length_le_flatMap_quoteCharWith (cs : List Char) :
    cs.length ≤ (cs.flatMap (quoteCharWith esc)).length := by
  induction cs with
  | nil => simp
  | cons c cs ih =>
    have hpos : 0 < (quoteCharWith esc c).length := List.length_pos_of_ne_nil (quoteCharWith_ne_nil c)
    rw [List.flatMap_cons, List.length_append, List.length_cons]
    omega

/-- Every string survives. -/
theorem unquote_quoteWith (h : Escapes esc) (s : String) :
    unquote (s.toList.flatMap (quoteCharWith esc)) = s := by
  rw [unquote, unquoteChars_quoteWith h (length_le_flatMap_quoteCharWith _), String.ofList_toList]

end Quote

end DeepOj.Go.Json
