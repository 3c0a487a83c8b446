import DeepOj.Go.JsonString

/-!
# The JSON scanner

A text is read byte by byte. The state of the scanner says what may come next; the
values around the one that is being read are kept on a stack.
-/

namespace DeepOj.Go

/-- A JSON value. A number is kept as it is written, and the members of an object in their order. -/
inductive Json where
  | null
  | bool (b : Bool)
  | num (literal : Bytes)
  | str (s : String)
  | arr (elems : List Json)
  | obj (members : List (String × Json))
  deriving Repr

namespace Json

/-- What a value is part of; what came before is kept last first. -/
inductive Frame where
  | array (before : List Json)
  | object (before : List (String × Json)) (key : String)

/-- What a string is. -/
inductive Slot where
  | value
  | key (before : List (String × Json))

/-- The states within a number. -/
inductive NumberState where
  | neg
  | zero
  | int
  | dot
  | frac
  | e
  | eSign
  | exp
  deriving DecidableEq, Repr

/-- The states within `true`, `false` and `null`. -/
inductive LiteralState where
  | t
  | tr
  | tru
  | f
  | fa
  | fal
  | fals
  | n
  | nu
  | nul
  deriving DecidableEq, Repr

/-- The states of the scanner. -/
inductive ScanState where
  | beginValue
  | beginValueOrEmpty
  | beginString (before : List (String × Json))
  | beginStringOrEmpty
  /-- In a string; the bytes read are kept last first. -/
  | inString (slot : Slot) (raw : Bytes)
  | inStringEsc (slot : Slot) (raw : Bytes)
  /-- After `more` further hexadecimal digits one is to come. -/
  | inStringEscU (slot : Slot) (raw : Bytes) (more : Nat)
  | inNumber (st : NumberState) (raw : Bytes)
  | inLiteral (st : LiteralState)
  | endKey (before : List (String × Json)) (key : String)
  | endValue (v : Json)

/-- The scanner, with the frames around the place it is at. -/
structure Scanner where
  state : ScanState
  frames : List Frame

/-- `maxNestingDepth`. -/
def maxNestingDepth : Nat := 10000

/-- `isSpace`. -/
def isSpace (b : UInt8) : Bool := b = 32 || b = 9 || b = 13 || b = 10

/-- A decimal digit. -/
def isDigit (b : UInt8) : Bool := 48 ≤ b.toNat && b.toNat ≤ 57

/-- `stateBeginValue`. -/
def beginValue (fs : List Frame) (b : UInt8) : Option Scanner :=
  if isSpace b then some ⟨.beginValue, fs⟩
  else if b = 123 then if fs.length < maxNestingDepth then some ⟨.beginStringOrEmpty, fs⟩ else none
  else if b = 91 then if fs.length < maxNestingDepth then some ⟨.beginValueOrEmpty, fs⟩ else none
  else if b = 34 then some ⟨.inString .value [], fs⟩
  else if b = 45 then some ⟨.inNumber .neg [b], fs⟩
  else if b = 48 then some ⟨.inNumber .zero [b], fs⟩
  else if b = 116 then some ⟨.inLiteral .t, fs⟩
  else if b = 102 then some ⟨.inLiteral .f, fs⟩
  else if b = 110 then some ⟨.inLiteral .n, fs⟩
  else if isDigit b then some ⟨.inNumber .int [b], fs⟩
  else none

/-- `stateBeginString`. -/
def beginString (before : List (String × Json)) (fs : List Frame) (b : UInt8) : Option Scanner :=
  if isSpace b then some ⟨.beginString before, fs⟩
  else if b = 34 then some ⟨.inString (.key before) [], fs⟩
  else none

/-- `stateEndValue`. -/
def endValue (v : Json) (fs : List Frame) (b : UInt8) : Option Scanner :=
  if isSpace b then some ⟨.endValue v, fs⟩
  else
    match fs with
    | [] => none
    | .array before :: fs =>
      if b = 44 then some ⟨.beginValue, .array (v :: before) :: fs⟩
      else if b = 93 then some ⟨.endValue (.arr (v :: before).reverse), fs⟩
      else none
    | .object before key :: fs =>
      if b = 44 then some ⟨.beginString ((key, v) :: before), fs⟩
      else if b = 125 then some ⟨.endValue (.obj ((key, v) :: before).reverse), fs⟩
      else none

/-- The end of a string. -/
def endString (slot : Slot) (s : String) (fs : List Frame) : Scanner :=
  match slot with
  | .value => ⟨.endValue (.str s), fs⟩
  | .key before => ⟨.endKey before s, fs⟩

/-- The next state within a number. -/
def NumberState.next : NumberState → UInt8 → Option NumberState
  | .neg, b => if b = 48 then some .zero else if isDigit b then some .int else none
  | .zero, b => if b = 46 then some .dot else if b = 101 ∨ b = 69 then some .e else none
  | .int, b =>
    if isDigit b then some .int
    else if b = 46 then some .dot else if b = 101 ∨ b = 69 then some .e else none
  | .dot, b => if isDigit b then some .frac else none
  | .frac, b => if isDigit b then some .frac else if b = 101 ∨ b = 69 then some .e else none
  | .e, b => if b = 43 ∨ b = 45 then some .eSign else if isDigit b then some .exp else none
  | .eSign, b => if isDigit b then some .exp else none
  | .exp, b => if isDigit b then some .exp else none

/-- The number may end here. -/
def NumberState.mayEnd (st : NumberState) : Bool := st ∈ [.zero, .int, .frac, .exp]

/-- The byte to come within a literal, and the state it leads to. -/
def LiteralState.next : LiteralState → UInt8 × ScanState
  | .t => (114, .inLiteral .tr)
  | .tr => (117, .inLiteral .tru)
  | .tru => (101, .endValue (.bool true))
  | .f => (97, .inLiteral .fa)
  | .fa => (108, .inLiteral .fal)
  | .fal => (115, .inLiteral .fals)
  | .fals => (101, .endValue (.bool false))
  | .n => (117, .inLiteral .nu)
  | .nu => (108, .inLiteral .nul)
  | .nul => (108, .endValue .null)

/-- One byte. -/
def step (s : Scanner) (b : UInt8) : Option Scanner :=
  match s.state with
  | .beginValue => beginValue s.frames b
  | .beginValueOrEmpty =>
    if isSpace b then some s
    else if b = 93 then some ⟨.endValue (.arr []), s.frames⟩
    else beginValue (.array [] :: s.frames) b
  | .beginString before => beginString before s.frames b
  | .beginStringOrEmpty =>
    if isSpace b then some s
    else if b = 125 then some ⟨.endValue (.obj []), s.frames⟩
    else beginString [] s.frames b
  | .inString slot raw =>
    if b = 34 then some (endString slot (unquote raw.reverse) s.frames)
    else if b = 92 then some ⟨.inStringEsc slot (b :: raw), s.frames⟩
    else if b.toNat < 32 then none
    else some ⟨.inString slot (b :: raw), s.frames⟩
  | .inStringEsc slot raw =>
    if b ∈ [98, 102, 110, 114, 116, 92, 47, 34] then some ⟨.inString slot (b :: raw), s.frames⟩
    else if b = 117 then some ⟨.inStringEscU slot (b :: raw) 3, s.frames⟩
    else none
  | .inStringEscU slot raw more =>
    if (hexValue b).isSome then
      match more with
      | 0 => some ⟨.inString slot (b :: raw), s.frames⟩
      | n + 1 => some ⟨.inStringEscU slot (b :: raw) n, s.frames⟩
    else none
  | .inNumber st raw =>
    match st.next b with
    | some st => some ⟨.inNumber st (b :: raw), s.frames⟩
    | none => if st.mayEnd then endValue (.num raw.reverse) s.frames b else none
  | .inLiteral st => if b = st.next.1 then some ⟨st.next.2, s.frames⟩ else none
  | .endKey before key =>
    if isSpace b then some s
    else if b = 58 then some ⟨.beginValue, .object before key :: s.frames⟩
    else none
  | .endValue v => endValue v s.frames b

/-- The end of the text. -/
def eof (s : Scanner) : Option Json :=
  match s.frames, s.state with
  | [], .endValue v => some v
  | [], .inNumber st raw => if st.mayEnd then some (.num raw.reverse) else none
  | _, _ => none

/-- The scanner on several bytes. -/
def run (s : Scanner) (text : Bytes) : Option Scanner := text.foldlM step s

/-- The value of a text, if the text is valid. -/
def parse (text : Bytes) : Option Json := (run ⟨.beginValue, []⟩ text).bind eof

theorem run_cons (s : Scanner) (b : UInt8) (text : Bytes) :
    run s (b :: text) = (step s b).bind fun s => run s text := List.foldlM_cons

theorem run_append (s : Scanner) (pre post : Bytes) :
    run s (pre ++ post) = (run s pre).bind fun s => run s post := List.foldlM_append

/-! ## Control characters -/

section Control

variable {b : UInt8} (hb : b.toNat < 32) (hspace : isSpace b = false)
include hb hspace

theorem beginValue_control (fs : List Frame) : beginValue fs b = none := by
  have hne : ∀ n : UInt8, 32 ≤ n.toNat → b ≠ n := by
    rintro n hn rfl
    omega
  have hdigit : isDigit b = false := by
    rw [isDigit, Bool.and_eq_false_iff]
    exact .inl (decide_eq_false (by omega))
  unfold beginValue
  rw [hspace, hdigit, if_neg (hne 123 (by decide)), if_neg (hne 91 (by decide)),
    if_neg (hne 34 (by decide)), if_neg (hne 45 (by decide)), if_neg (hne 48 (by decide)),
    if_neg (hne 116 (by decide)), if_neg (hne 102 (by decide)), if_neg (hne 110 (by decide))]
  rfl

/-- A control character that is no white space is not valid anywhere. -/
theorem step_control (s : Scanner) : step s b = none := by
  have hne : ∀ n : UInt8, 32 ≤ n.toNat → b ≠ n := by
    rintro n hn rfl
    omega
  have hdigit : isDigit b = false := by
    rw [isDigit, Bool.and_eq_false_iff]
    exact .inl (decide_eq_false (by omega))
  have hend : ∀ v fs, endValue v fs b = none := by
    intro v fs
    unfold endValue
    rw [hspace, if_neg (by simp)]
    split
    · rfl
    · rw [if_neg (hne 44 (by decide)), if_neg (hne 93 (by decide))]
    · rw [if_neg (hne 44 (by decide)), if_neg (hne 125 (by decide))]
  have hstring : ∀ before fs, beginString before fs b = none := by
    intro before fs
    rw [beginString, hspace, if_neg (by simp), if_neg (hne 34 (by decide))]
  obtain ⟨st, fs⟩ := s
  cases st with
  | beginValue => exact beginValue_control hb hspace fs
  | beginValueOrEmpty =>
    simp only [step, hspace, Bool.false_eq_true, if_false, if_neg (hne 93 (by decide))]
    exact beginValue_control hb hspace _
  | beginString before => exact hstring before fs
  | beginStringOrEmpty =>
    simp only [step, hspace, Bool.false_eq_true, if_false, if_neg (hne 125 (by decide))]
    exact hstring [] fs
  | inString slot raw =>
    simp only [step, if_neg (hne 34 (by decide)), if_neg (hne 92 (by decide)), if_pos hb]
  | inStringEsc slot raw =>
    have hmem : b ∉ ([98, 102, 110, 114, 116, 92, 47, 34] : List UInt8) := by
      intro h
      simp only [List.mem_cons, List.not_mem_nil, or_false] at h
      rcases h with rfl | rfl | rfl | rfl | rfl | rfl | rfl | rfl <;> exact absurd hb (by decide)
    simp only [step, if_neg hmem, if_neg (hne 117 (by decide))]
  | inStringEscU slot raw more =>
    have hhex : hexValue b = none := by
      rw [hexValue, if_neg (by omega), if_neg (by omega), if_neg (by omega)]
    simp only [step, hhex, Option.isSome_none, Bool.false_eq_true, if_false]
  | inNumber st raw =>
    have hnext : st.next b = none := by
      cases st <;> simp [NumberState.next, hdigit, hne 48 (by decide), hne 46 (by decide),
        hne 101 (by decide), hne 69 (by decide), hne 43 (by decide), hne 45 (by decide)]
    simp only [step, hnext, hend, ite_self]
  | inLiteral st =>
    have hnext : b ≠ st.next.1 := hne _ (by cases st <;> decide)
    simp only [step, if_neg hnext]
  | endKey before key =>
    simp only [step, hspace, Bool.false_eq_true, if_false, if_neg (hne 58 (by decide))]
  | endValue v => exact hend v fs

/-- No valid text contains one. -/
theorem parse_control {text : Bytes} (h : b ∈ text) : parse text = none := by
  obtain ⟨pre, post, rfl⟩ := List.append_of_mem h
  rw [parse, run_append]
  cases run ⟨.beginValue, []⟩ pre with
  | none => rfl
  | some s =>
    rw [Option.bind_some, run_cons, step_control hb hspace]
    rfl

end Control

/-! ## A text that is cut off -/

/-- After a value that stands alone only white space can follow. -/
theorem run_endValue {v : Json} {text : Bytes} {s : Scanner}
    (h : run ⟨.endValue v, []⟩ text = some s) : ∀ b ∈ text, isSpace b = true := by
  induction text with
  | nil => simp
  | cons b text ih =>
    rw [run_cons] at h
    by_cases hb : isSpace b = true
    · have hstep : step ⟨.endValue v, []⟩ b = some ⟨.endValue v, []⟩ := by
        show endValue v [] b = _
        rw [endValue, if_pos hb]
      rw [hstep, Option.bind_some] at h
      intro b' hb'
      rcases List.mem_cons.mp hb' with rfl | hb'
      · exact hb
      · exact ih h b' hb'
    · have hstep : step ⟨.endValue v, []⟩ b = none := by
        show endValue v [] b = _
        rw [endValue, if_neg hb]
      rw [hstep] at h
      cases h

/-- The scanner at the end of a text with this object as its value. -/
theorem eof_obj {s : Scanner} {members : List (String × Json)} (h : eof s = some (.obj members)) :
    s = ⟨.endValue (.obj members), []⟩ := by
  obtain ⟨state, frames⟩ := s
  unfold eof at h
  split at h
  · cases h
    simp_all
  · split at h <;> cases h
  · cases h

/-- What has an object as its value before the end of a valid text lacks white space only. -/
theorem space_of_parse_obj {pre post : Bytes} {members : List (String × Json)} {v : Json}
    (hpre : parse pre = some (.obj members)) (h : parse (pre ++ post) = some v) :
    ∀ b ∈ post, isSpace b = true := by
  obtain ⟨s, hs, heof⟩ := Option.bind_eq_some_iff.mp hpre
  obtain ⟨s', hs', -⟩ := Option.bind_eq_some_iff.mp h
  rw [run_append, hs, Option.bind_some, eof_obj heof] at hs'
  exact run_endValue hs'

end Json

end DeepOj.Go
