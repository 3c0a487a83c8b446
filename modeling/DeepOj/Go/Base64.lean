import DeepOj.Go.Bytes
import Mathlib.Tactic.IntervalCases

/-!
# `base64.StdEncoding`
-/

namespace DeepOj.Go.Base64

/-- The character of a base 64 digit. -/
def digitChar (d : Nat) : Char :=
  if d < 26 then Char.ofNat (65 + d)
  else if d < 52 then Char.ofNat (71 + d)
  else if d < 62 then Char.ofNat (d - 4)
  else if d = 62 then '+'
  else '/'

/-- `decodeMap`. -/
def digitValue (c : Char) : Option Nat :=
  if 65 ≤ c.toNat ∧ c.toNat ≤ 90 then some (c.toNat - 65)
  else if 97 ≤ c.toNat ∧ c.toNat ≤ 122 then some (c.toNat - 71)
  else if 48 ≤ c.toNat ∧ c.toNat ≤ 57 then some (c.toNat + 4)
  else if c = '+' then some 62
  else if c = '/' then some 63
  else none

/-- The characters of a byte string: three bytes make four digits, the last of them padded. -/
def encodeChars : Bytes → List Char
  | a :: b :: c :: rest =>
    let n := a.toNat * 65536 + b.toNat * 256 + c.toNat
    digitChar (n / 262144) :: digitChar (n / 4096 % 64) :: digitChar (n / 64 % 64) ::
      digitChar (n % 64) :: encodeChars rest
  | [a, b] =>
    let n := a.toNat * 1024 + b.toNat * 4
    [digitChar (n / 4096), digitChar (n / 64 % 64), digitChar (n % 64), '=']
  | [a] =>
    let n := a.toNat * 16
    [digitChar (n / 64), digitChar (n % 64), '=', '=']
  | [] => []

/-- `EncodeToString`. -/
def encodeToString (bs : Bytes) : String := String.ofList (encodeChars bs)

/-- The bytes of groups of four characters. Only the last group may be padded; what padding cuts
off is not looked at. -/
def decodeQuanta : List Char → Option Bytes
  | [] => some []
  | a :: b :: c :: d :: rest =>
    if d = '=' then
      if rest ≠ [] then none
      else if c = '=' then do
        let x ← digitValue a
        let y ← digitValue b
        pure [UInt8.ofNat ((x * 64 + y) / 16)]
      else do
        let x ← digitValue a
        let y ← digitValue b
        let z ← digitValue c
        let n := (x * 4096 + y * 64 + z) / 4
        pure [UInt8.ofNat (n / 256), UInt8.ofNat n]
    else do
      let x ← digitValue a
      let y ← digitValue b
      let z ← digitValue c
      let w ← digitValue d
      let n := x * 262144 + y * 4096 + z * 64 + w
      let tail ← decodeQuanta rest
      pure (UInt8.ofNat (n / 65536) :: UInt8.ofNat (n / 256) :: UInt8.ofNat n :: tail)
  | _ => none

/-- `DecodeString`, which skips line breaks. -/
def decodeString (s : String) : Option Bytes :=
  decodeQuanta (s.toList.filter fun c => c ≠ '\n' ∧ c ≠ '\r')

/-! ## Decoding what was encoded -/

theorem digitValue_digitChar {d : Nat} (h : d < 64) : digitValue (digitChar d) = some d := by
  interval_cases d <;> decide

theorem digitChar_plain {d : Nat} (h : d < 64) :
    digitChar d ≠ '=' ∧ digitChar d ≠ '\n' ∧ digitChar d ≠ '\r' := by
  interval_cases d <;> decide

/-- A byte is known by its value. -/
theorem ofNat_eq_of {a : UInt8} {n : Nat} (h : n % 256 = a.toNat) : UInt8.ofNat n = a := by
  refine UInt8.toNat_inj.mp ?_
  rw [UInt8.toNat_ofNat']
  exact h

theorem decodeQuanta_encodeChars (bs : Bytes) : decodeQuanta (encodeChars bs) = some bs := by
  fun_induction encodeChars bs with
  | case1 a b c rest n ih =>
    have ha := a.toNat_lt
    have hb := b.toNat_lt
    have hc := c.toNat_lt
    have hn : n = a.toNat * 65536 + b.toNat * 256 + c.toNat := rfl
    clear_value n
    have hw : n / 262144 * 262144 + n / 4096 % 64 * 4096 + n / 64 % 64 * 64 + n % 64 = n := by
      omega
    have hpad : digitChar (n % 64) ≠ '=' := (digitChar_plain (by omega)).1
    have h₁ : UInt8.ofNat (n / 65536) = a := ofNat_eq_of (by omega)
    have h₂ : UInt8.ofNat (n / 256) = b := ofNat_eq_of (by omega)
    have h₃ : UInt8.ofNat n = c := ofNat_eq_of (by omega)
    rw [decodeQuanta, if_neg hpad, digitValue_digitChar (by omega), digitValue_digitChar (by omega),
      digitValue_digitChar (by omega), digitValue_digitChar (by omega), ih]
    simp only [Option.bind_eq_bind, Option.bind_some, Option.pure_def, hw, h₁, h₂, h₃]
  | case2 a b n =>
    have ha := a.toNat_lt
    have hb := b.toNat_lt
    have hn : n = a.toNat * 1024 + b.toNat * 4 := rfl
    clear_value n
    have hw : (n / 4096 * 4096 + n / 64 % 64 * 64 + n % 64) / 4 = a.toNat * 256 + b.toNat := by
      omega
    have hpad : digitChar (n % 64) ≠ '=' := (digitChar_plain (by omega)).1
    have h₁ : UInt8.ofNat ((a.toNat * 256 + b.toNat) / 256) = a := ofNat_eq_of (by omega)
    have h₂ : UInt8.ofNat (a.toNat * 256 + b.toNat) = b := ofNat_eq_of (by omega)
    rw [decodeQuanta, if_pos rfl, if_neg (by simp), if_neg hpad, digitValue_digitChar (by omega),
      digitValue_digitChar (by omega), digitValue_digitChar (by omega)]
    simp only [Option.bind_eq_bind, Option.bind_some, Option.pure_def, hw, h₁, h₂]
  | case3 a n =>
    have ha := a.toNat_lt
    have hn : n = a.toNat * 16 := rfl
    clear_value n
    have hw : (n / 64 * 64 + n % 64) / 16 = a.toNat := by omega
    have h₁ : UInt8.ofNat a.toNat = a := ofNat_eq_of (by omega)
    rw [decodeQuanta, if_pos rfl, if_neg (by simp), if_pos rfl, digitValue_digitChar (by omega),
      digitValue_digitChar (by omega)]
    simp only [Option.bind_eq_bind, Option.bind_some, Option.pure_def, hw, h₁]
  | case4 => rfl

/-- The encoding has no line breaks. -/
theorem no_break_encodeChars (bs : Bytes) : ∀ c ∈ encodeChars bs, c ≠ '\n' ∧ c ≠ '\r' := by
  have hpad : '=' ≠ '\n' ∧ '=' ≠ '\r' := by decide
  fun_induction encodeChars bs with
  | case1 a b c rest n ih =>
    have ha := a.toNat_lt
    have hb := b.toNat_lt
    have hc := c.toNat_lt
    have hn : n = a.toNat * 65536 + b.toNat * 256 + c.toNat := rfl
    intro x hx
    simp only [List.mem_cons] at hx
    rcases hx with rfl | rfl | rfl | rfl | hx
    · exact (digitChar_plain (by omega)).2
    · exact (digitChar_plain (by omega)).2
    · exact (digitChar_plain (by omega)).2
    · exact (digitChar_plain (by omega)).2
    · exact ih x hx
  | case2 a b n =>
    have ha := a.toNat_lt
    have hb := b.toNat_lt
    have hn : n = a.toNat * 1024 + b.toNat * 4 := rfl
    intro x hx
    simp only [List.mem_cons, List.not_mem_nil, or_false] at hx
    rcases hx with rfl | rfl | rfl | rfl
    · exact (digitChar_plain (by omega)).2
    · exact (digitChar_plain (by omega)).2
    · exact (digitChar_plain (by omega)).2
    · exact hpad
  | case3 a n =>
    have ha := a.toNat_lt
    have hn : n = a.toNat * 16 := rfl
    intro x hx
    simp only [List.mem_cons, List.not_mem_nil, or_false] at hx
    rcases hx with rfl | rfl | rfl | rfl
    · exact (digitChar_plain (by omega)).2
    · exact (digitChar_plain (by omega)).2
    · exact hpad
    · exact hpad
  | case4 =>
    intro x hx
    cases hx

/-- Base 64 loses nothing. -/
theorem decodeString_encodeToString (bs : Bytes) : decodeString (encodeToString bs) = some bs := by
  unfold decodeString encodeToString
  rw [String.toList_ofList, List.filter_eq_self.mpr fun c hc => ?_]
  · exact decodeQuanta_encodeChars bs
  · exact decide_eq_true (no_break_encodeChars bs c hc)

end DeepOj.Go.Base64
