import DeepOj.Go.Utf8
import Mathlib.Algebra.Ring.Nat

/-!
# The wire format of protocol buffers

A message is a sequence of fields: a tag, which holds the number of the field and the
type of its encoding, and a value. A field that is not known is skipped.
-/

namespace DeepOj.Go.Protowire

/-! ## Numbers -/

/-- A number, with at most `n` bytes before the last. -/
def appendVarintAux : Nat → Nat → Bytes
  | 0, v => [UInt8.ofNat v]
  | n + 1, v =>
    if v < 128 then [UInt8.ofNat v] else UInt8.ofNat (v % 128 + 128) :: appendVarintAux n (v / 128)

/-- `AppendVarint`. -/
def appendVarint (v : UInt64) : Bytes := appendVarintAux 9 v.toNat

/-- The last of ten bytes has room for one bit. -/
def consumeVarintAux : Nat → Bytes → Option (Nat × Bytes)
  | _, [] => none
  | 0, b :: rest => if b.toNat < 2 then some (b.toNat, rest) else none
  | n + 1, b :: rest =>
    if b.toNat < 128 then some (b.toNat, rest)
    else (consumeVarintAux n rest).map fun r => (b.toNat - 128 + 128 * r.1, r.2)

/-- `ConsumeVarint`. -/
def consumeVarint (b : Bytes) : Option (Nat × Bytes) := consumeVarintAux 9 b

theorem consumeVarintAux_append {n v : Nat} (h : v < 2 ^ (7 * n + 1)) (rest : Bytes) :
    consumeVarintAux n (appendVarintAux n v ++ rest) = some (v, rest) := by
  induction n generalizing v with
  | zero =>
    have hlt : v < 2 := by simpa using h
    have hval : (UInt8.ofNat v).toNat = v := by
      rw [UInt8.toNat_ofNat']
      omega
    rw [appendVarintAux, List.cons_append, List.nil_append, consumeVarintAux, hval, if_pos hlt]
  | succ n ih =>
    rw [appendVarintAux]
    by_cases hlt : v < 128
    · have hval : (UInt8.ofNat v).toNat = v := by
        rw [UInt8.toNat_ofNat']
        omega
      rw [if_pos hlt, List.cons_append, List.nil_append, consumeVarintAux, hval, if_pos hlt]
    · have hval : (UInt8.ofNat (v % 128 + 128)).toNat = v % 128 + 128 := by
        rw [UInt8.toNat_ofNat']
        omega
      have hpow : 2 ^ (7 * (n + 1) + 1) = 2 ^ (7 * n + 1) * 128 := by
        rw [show 7 * (n + 1) + 1 = 7 * n + 1 + 7 by omega, Nat.pow_add]
      have hdiv : v / 128 < 2 ^ (7 * n + 1) := by
        rw [Nat.div_lt_iff_lt_mul (by omega)]
        omega
      have hsum : v % 128 + 128 - 128 + 128 * (v / 128) = v := by omega
      rw [if_neg hlt, List.cons_append, consumeVarintAux, hval, if_neg (by omega), ih hdiv,
        Option.map_some, hsum]

/-- A number is read as it was written. -/
theorem consumeVarint_append (v : UInt64) (rest : Bytes) :
    consumeVarint (appendVarint v ++ rest) = some (v.toNat, rest) :=
  consumeVarintAux_append v.toNat_lt rest

theorem appendVarint_ne_nil (v : UInt64) : appendVarint v ≠ [] := by
  unfold appendVarint appendVarintAux
  split <;> simp

/-- A byte string after its length. -/
def appendBytes (v : Bytes) : Bytes := appendVarint (UInt64.ofNat v.length) ++ v

/-- `ConsumeBytes`. -/
def consumeBytes (b : Bytes) : Option (Bytes × Bytes) :=
  match consumeVarint b with
  | none => none
  | some (m, rest) => if m ≤ rest.length then some (rest.take m, rest.drop m) else none

theorem consumeBytes_append {v : Bytes} (h : v.length < 2 ^ 63) (rest : Bytes) :
    consumeBytes (appendBytes v ++ rest) = some (v, rest) := by
  have hlen : (UInt64.ofNat v.length).toNat = v.length := by
    rw [UInt64.toNat_ofNat']
    omega
  rw [consumeBytes, appendBytes, List.append_assoc, consumeVarint_append, hlen]
  have hle : v.length ≤ (v ++ rest).length := by
    rw [List.length_append]
    omega
  simp only [if_pos hle, List.take_left, List.drop_left]

/-! ## Fields -/

/-- The wire types. -/
def varintType : Nat := 0
def fixed64Type : Nat := 1
def bytesType : Nat := 2
def startGroupType : Nat := 3
def endGroupType : Nat := 4
def fixed32Type : Nat := 5

/-- `AppendTag`. -/
def appendTag (num typ : Nat) : Bytes := appendVarint (UInt64.ofNat (num * 8 + typ))

/-- `ConsumeTag`. -/
def consumeTag (b : Bytes) : Option (Nat × Nat × Bytes) :=
  match consumeVarint b with
  | none => none
  | some (tag, rest) =>
    if 1 ≤ tag / 8 ∧ tag / 8 < 2 ^ 31 then some (tag / 8, tag % 8, rest) else none

theorem consumeVarint_appendTag {num typ : Nat} (hnum : num < 2 ^ 29) (htyp : typ < 8)
    (rest : Bytes) :
    consumeVarint (appendTag num typ ++ rest) = some (num * 8 + typ, rest) := by
  have hval : (UInt64.ofNat (num * 8 + typ)).toNat = num * 8 + typ := by
    rw [UInt64.toNat_ofNat']
    omega
  rw [appendTag, consumeVarint_append, hval]

/-- What follows a value that is not of a group. -/
def skipScalar (typ : Nat) (b : Bytes) : Option Bytes :=
  if typ = varintType then (consumeVarint b).map Prod.snd
  else if typ = fixed32Type then if 4 ≤ b.length then some (b.drop 4) else none
  else if typ = fixed64Type then if 8 ≤ b.length then some (b.drop 8) else none
  else if typ = bytesType then (consumeBytes b).map Prod.snd
  else none

/-- What follows the groups that are open, in at most `n` fields. -/
def skipGroups : Nat → List Nat → Bytes → Option Bytes
  | _, [], b => some b
  | 0, _ :: _, _ => none
  | n + 1, num :: nums, b =>
    match consumeTag b with
    | none => none
    | some (num', typ, b) =>
      if typ = endGroupType then if num' = num then skipGroups n nums b else none
      else if typ = startGroupType then
        if nums.length < 10000 then skipGroups n (num' :: num :: nums) b else none
      else
        match skipScalar typ b with
        | none => none
        | some b => skipGroups n (num :: nums) b

/-- `ConsumeFieldValue`. -/
def consumeFieldValue (num typ : Nat) (b : Bytes) : Option Bytes :=
  if typ = startGroupType then skipGroups b.length [num] b else skipScalar typ b

/-- A field of bytes; an empty one is left out. -/
def appendBytesField (num : Nat) (v : Bytes) : Bytes :=
  if v = [] then [] else appendTag num bytesType ++ appendBytes v

/-- A field of a number; zero is left out. -/
def appendVarintField (num : Nat) (v : UInt64) : Bytes :=
  if v = 0 then [] else appendTag num varintType ++ appendVarint v

theorem length_le_appendBytesField (num : Nat) (v : Bytes) :
    v.length ≤ (appendBytesField num v).length := by
  unfold appendBytesField
  split
  · rename_i hv
    simp [hv]
  · rw [appendBytes, List.length_append, List.length_append]
    omega

/-! ## Messages -/

variable {M : Type}

/-- How a field of a message is stored; text that is not valid UTF-8 is refused. -/
inductive FieldCoder (M : Type) where
  | varint (set : M → Nat → M)
  | bytes (set : M → Bytes → Option M)

/-- The wire type a field is read from. -/
def FieldCoder.wireType : FieldCoder M → Nat
  | .varint _ => varintType
  | .bytes _ => bytesType

/-- The value of a known field. -/
def FieldCoder.read (m : M) (b : Bytes) : FieldCoder M → Option (M × Bytes)
  | .varint set => (consumeVarint b).map fun r => (set m r.1, r.2)
  | .bytes set =>
    match consumeBytes b with
    | none => none
    | some (v, b) => (set m v).map fun m => (m, b)

/-- One value: it is stored, or skipped when the field is not known with this type. -/
def readField (fields : Nat → Option (FieldCoder M)) (num typ : Nat) (m : M) (b : Bytes) :
    Option (M × Bytes) :=
  match fields num with
  | some f =>
    if typ = f.wireType then f.read m b else (consumeFieldValue num typ b).map fun b => (m, b)
  | none => (consumeFieldValue num typ b).map fun b => (m, b)

/-- At most `n` fields. -/
def unmarshalFields (fields : Nat → Option (FieldCoder M)) : Nat → M → Bytes → Option M
  | _, m, [] => some m
  | 0, _, _ :: _ => none
  | n + 1, m, b =>
    match consumeVarint b with
    | none => none
    | some (tag, b) =>
      if tag / 8 < 1 ∨ 2 ^ 29 - 1 < tag / 8 then none
      else if tag % 8 = endGroupType then none
      else
        match readField fields (tag / 8) (tag % 8) m b with
        | none => none
        | some (m, b) => unmarshalFields fields n m b

/-- `proto.Unmarshal`, into a message. -/
def unmarshal (fields : Nat → Option (FieldCoder M)) (m : M) (b : Bytes) : Option M :=
  unmarshalFields fields b.length m b

/-! ## Reading a message that was written -/

/-- These bytes make one message of the other, however many fields may be read beyond their
length. -/
def Reads (fields : Nat → Option (FieldCoder M)) (m : M) (b : Bytes) (m' : M) : Prop :=
  ∀ n, b.length ≤ n → unmarshalFields fields n m b = some m'

section Reads

variable {fields : Nat → Option (FieldCoder M)} {m m' m'' : M} {num : Nat} {rest : Bytes}

theorem Reads.unmarshal {b : Bytes} (h : Reads fields m b m') :
    unmarshal fields m b = some m' := h _ (Nat.le_refl _)

theorem Reads.nil : Reads fields m [] m := by
  intro n _
  cases n <;> rfl

/-- One field, and then the others. -/
theorem Reads.field {f : FieldCoder M} {v : Bytes} (hnum : 1 ≤ num ∧ num < 2 ^ 29)
    (hf : fields num = some f) (hread : f.read m (v ++ rest) = some (m', rest))
    (h : Reads fields m' rest m'') :
    Reads fields m (appendTag num f.wireType ++ (v ++ rest)) m'' := by
  have htyp : f.wireType < 3 := by
    cases f
    · show 0 < 3
      omega
    · show 2 < 3
      omega
  intro n hn
  have hne : appendTag num f.wireType ++ (v ++ rest) ≠ [] := by
    intro hnil
    exact appendVarint_ne_nil _ (List.append_eq_nil_iff.mp hnil).1
  have hlen := List.length_pos_of_ne_nil (appendVarint_ne_nil (UInt64.ofNat (num * 8 + f.wireType)))
  have hlt : rest.length < n := by
    rw [List.length_append, List.length_append] at hn
    unfold appendTag at hn
    omega
  cases n with
  | zero => omega
  | succ n =>
    have hdiv : (num * 8 + f.wireType) / 8 = num := by omega
    have hmod : (num * 8 + f.wireType) % 8 = f.wireType := by omega
    have hgroup : f.wireType ≠ endGroupType := by
      unfold endGroupType
      omega
    rw [unmarshalFields, consumeVarint_appendTag hnum.2 (by omega)]
    · simp only [hdiv, hmod]
      rw [if_neg (by omega), if_neg hgroup, readField, hf]
      simp only [if_true, hread]
      exact h n (by omega)
    · exact hne

/-- A field of bytes, and then the others. -/
theorem Reads.bytesField (m' : M) {set : M → Bytes → Option M} {v : Bytes} (hnum : 1 ≤ num ∧ num < 2 ^ 29)
    (hf : fields num = some (.bytes set)) (hlen : v.length < 2 ^ 63) (hset : set m v = some m')
    (hempty : v = [] → m' = m) (h : Reads fields m' rest m'') :
    Reads fields m (appendBytesField num v ++ rest) m'' := by
  unfold appendBytesField
  by_cases hv : v = []
  · rw [if_pos hv, ← hempty hv]
    exact h
  · rw [if_neg hv, List.append_assoc]
    refine Reads.field (f := FieldCoder.bytes set) hnum hf ?_ h
    rw [FieldCoder.read, consumeBytes_append hlen]
    simp only [hset, Option.map_some]

/-- A field of a number, and then the others. -/
theorem Reads.varintField (m' : M) {set : M → Nat → M} {v : UInt64} (hnum : 1 ≤ num ∧ num < 2 ^ 29)
    (hf : fields num = some (.varint set)) (hset : set m v.toNat = m') (hzero : v = 0 → m' = m)
    (h : Reads fields m' rest m'') : Reads fields m (appendVarintField num v ++ rest) m'' := by
  unfold appendVarintField
  by_cases hv : v = 0
  · rw [if_pos hv, ← hzero hv]
    exact h
  · rw [if_neg hv, List.append_assoc]
    refine Reads.field (f := FieldCoder.varint set) hnum hf ?_ h
    rw [FieldCoder.read, consumeVarint_append, Option.map_some, hset]

/-- A field of text, and then the others. -/
theorem Reads.stringField (put : M → String → M) {s : String} (hnum : 1 ≤ num ∧ num < 2 ^ 29)
    (hf : fields num = some (.bytes fun m v => (text? v).map (put m))) (hlen : (utf8 s).length < 2 ^ 63)
    (hempty : s = "" → put m s = m) (h : Reads fields (put m s) rest m'') :
    Reads fields m (appendBytesField num (utf8 s) ++ rest) m'' := by
  refine Reads.bytesField _ hnum hf hlen ?_ (fun hnil => hempty (eq_empty_of_utf8 hnil)) h
  show (text? (utf8 s)).map (put m) = _
  rw [text?_utf8, Option.map_some]

/-- A field of a number that the bits of its varint tell, and then the others. -/
theorem Reads.wireField {N : Type*} (put : M → N → M) (bits : N → UInt64) (ofBits : UInt64 → N) {n : N}
    (hback : ∀ n, ofBits (bits n) = n) (hnum : 1 ≤ num ∧ num < 2 ^ 29)
    (hf : fields num = some (.varint fun m v => put m (ofBits (UInt64.ofNat v))))
    (hzero : n = ofBits 0 → put m n = m) (h : Reads fields (put m n) rest m'') :
    Reads fields m (appendVarintField num (bits n) ++ rest) m'' := by
  refine Reads.varintField _ hnum hf ?_ ?_ h
  · show put m (ofBits (UInt64.ofNat (bits n).toNat)) = _
    rw [UInt64.ofNat_toNat, hback]
  · intro hv
    apply hzero
    rw [← hv, hback]

end Reads

end DeepOj.Go.Protowire
