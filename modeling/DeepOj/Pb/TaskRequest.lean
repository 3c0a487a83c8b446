import DeepOj.Go.JsonUnmarshal
import DeepOj.Go.Protowire

/-!
# `pb.TaskRequest`

The task as the services exchange it, in JSON and in the wire format of protocol
buffers. A text is valid UTF-8; the code is any byte string.
-/

namespace DeepOj.Pb

open Go

structure TaskRequest where
  jobID : String := ""
  code : Bytes := []
  language : Int32 := 0
  timeLimit : Int32 := 0
  memoryLimit : Int32 := 0
  cacheKey : String := ""
  submitTime : Int64 := 0
  problemID : UInt32 := 0
  traceID : String := ""
  deriving DecidableEq, Repr

/-- The fields, in their order. -/
inductive Field where
  | jobID
  | code
  | language
  | timeLimit
  | memoryLimit
  | cacheKey
  | submitTime
  | problemID
  | traceID
  deriving DecidableEq, Repr

namespace Field

def all : List Field :=
  [jobID, code, language, timeLimit, memoryLimit, cacheKey, submitTime, problemID, traceID]

/-- The JSON tag. -/
def name : Field → String
  | jobID => "job_id"
  | code => "code"
  | language => "language"
  | timeLimit => "time_limit"
  | memoryLimit => "memory_limit"
  | cacheKey => "cache_key"
  | submitTime => "submit_time"
  | problemID => "problem_id"
  | traceID => "trace_id"

theorem mem_all (f : Field) : f ∈ all := by
  cases f <;> decide

end Field

namespace TaskRequest

/-! ## JSON -/

/-- A field as JSON has it. -/
def get (t : TaskRequest) : Field → Json.Scalar
  | .jobID => .str t.jobID
  | .code => .str (Base64.encodeToString t.code)
  | .language => .int t.language.toInt
  | .timeLimit => .int t.timeLimit.toInt
  | .memoryLimit => .int t.memoryLimit.toInt
  | .cacheKey => .str t.cacheKey
  | .submitTime => .int t.submitTime.toInt
  | .problemID => .int t.problemID.toNat
  | .traceID => .str t.traceID

/-- A value in a field of type `int32`. -/
def storeInt32 (old : Int32) (v : Json) : Option Int32 :=
  (Json.storeInt (-2 ^ 31) (2 ^ 31 - 1) old.toInt v).map Int32.ofInt

/-- Store a value in a field. -/
def store (t : TaskRequest) (f : Field) (v : Json) : Option TaskRequest :=
  match f with
  | .jobID => (Json.storeString t.jobID v).map fun s => { t with jobID := s }
  | .code => (Json.storeBytes t.code v).map fun b => { t with code := b }
  | .language => (storeInt32 t.language v).map fun n => { t with language := n }
  | .timeLimit => (storeInt32 t.timeLimit v).map fun n => { t with timeLimit := n }
  | .memoryLimit => (storeInt32 t.memoryLimit v).map fun n => { t with memoryLimit := n }
  | .cacheKey => (Json.storeString t.cacheKey v).map fun s => { t with cacheKey := s }
  | .submitTime =>
    (Json.storeInt (-2 ^ 63) (2 ^ 63 - 1) t.submitTime.toInt v).map fun n =>
      { t with submitTime := Int64.ofInt n }
  | .problemID =>
    (Json.storeUint (2 ^ 32 - 1) t.problemID.toNat v).map fun n =>
      { t with problemID := UInt32.ofNat n }
  | .traceID => (Json.storeString t.traceID v).map fun s => { t with traceID := s }

/-- The structure with its tags. -/
def struct : Json.Struct TaskRequest Field := ⟨Field.all, Field.name, get, store⟩

/-- `json.Marshal` of a task; every field has `omitempty`. -/
def marshalJSON (t : TaskRequest) : Bytes := struct.marshal (fun _ => true) t

/-- `json.Unmarshal` into a new task. -/
def unmarshalJSON (text : Bytes) : Option TaskRequest := struct.unmarshal {} text

/-- A task is known by its fields. -/
theorem eq_of_get {t t' : TaskRequest} (h : ∀ f, t.get f = t'.get f) : t = t' := by
  have hstr : ∀ {s s'}, Json.Scalar.str s = .str s' → s = s' := fun h => by
    cases h
    rfl
  have hint : ∀ {n n'}, Json.Scalar.int n = .int n' → n = n' := fun h => by
    cases h
    rfl
  have hcode : t.code = t'.code := by
    have hback := congrArg Base64.decodeString (hstr (h .code))
    rw [Base64.decodeString_encodeToString, Base64.decodeString_encodeToString] at hback
    exact Option.some.inj hback
  have hproblem : t.problemID = t'.problemID :=
    UInt32.toNat_inj.mp (Int.ofNat.inj (hint (h .problemID)))
  obtain ⟨j, c, l, tl, ml, ck, st, p, tr⟩ := t
  obtain ⟨j', c', l', tl', ml', ck', st', p', tr'⟩ := t'
  obtain rfl : j = j' := hstr (h .jobID)
  obtain rfl : c = c' := hcode
  obtain rfl : l = l' := Int32.toInt_inj.mp (hint (h .language))
  obtain rfl : tl = tl' := Int32.toInt_inj.mp (hint (h .timeLimit))
  obtain rfl : ml = ml' := Int32.toInt_inj.mp (hint (h .memoryLimit))
  obtain rfl : ck = ck' := hstr (h .cacheKey)
  obtain rfl : st = st' := Int64.toInt_inj.mp (hint (h .submitTime))
  obtain rfl : p = p' := hproblem
  obtain rfl : tr = tr' := hstr (h .traceID)
  rfl

/-! ## Storing what was written -/

theorem storeInt32_holds {old n : Int32} {v : Json} (h : Json.Holds v (.int n.toInt)) :
    storeInt32 old v = some n := by
  have hlo := n.le_toInt
  have hhi := n.toInt_lt
  rw [storeInt32, Json.storeInt_holds hlo (by omega) h, Option.map_some, Int32.ofInt_toInt]

/-- Each field is stored from what it was written as, and the others stay. -/
theorem struct_lawful : struct.Lawful where
  names := by decide
  store t m f v hv := by
    cases f
    case jobID | cacheKey | traceID =>
      refine ⟨_, congrArg (Option.map _) (Json.storeString_holds hv), rfl, fun g hg => ?_⟩
      cases g <;> first | rfl | exact absurd rfl hg
    case code =>
      refine ⟨_, congrArg (Option.map _) (Json.storeBytes_holds hv), rfl, fun g hg => ?_⟩
      cases g <;> first | rfl | exact absurd rfl hg
    case language | timeLimit | memoryLimit =>
      refine ⟨_, congrArg (Option.map _) (storeInt32_holds hv), rfl, fun g hg => ?_⟩
      cases g <;> first | rfl | exact absurd rfl hg
    case submitTime =>
      have hlo := t.submitTime.le_toInt
      have hhi := t.submitTime.toInt_lt
      refine ⟨{ m with submitTime := t.submitTime }, ?_, rfl, fun g hg => ?_⟩
      · show (Json.storeInt _ _ m.submitTime.toInt v).map _ = _
        rw [Json.storeInt_holds hlo (by omega) hv, Option.map_some, Int64.ofInt_toInt]
      · cases g <;> first | rfl | exact absurd rfl hg
    case problemID =>
      have hlt := t.problemID.toNat_lt
      refine ⟨{ m with problemID := t.problemID }, ?_, rfl, fun g hg => ?_⟩
      · show (Json.storeUint _ m.problemID.toNat v).map _ = _
        rw [Json.storeUint_holds (by omega) hv, Option.map_some, UInt32.ofNat_toNat]
      · cases g <;> first | rfl | exact absurd rfl hg

/-- An empty field is as in a new task. -/
theorem get_of_isEmpty {t : TaskRequest} {f : Field} (h : (t.get f).isEmpty = true) :
    ({} : TaskRequest).get f = t.get f := by
  cases f with
  | jobID => exact Json.Scalar.str_of_isEmpty h
  | code => exact Json.Scalar.str_of_isEmpty h
  | language => exact Json.Scalar.int_of_isEmpty h
  | timeLimit => exact Json.Scalar.int_of_isEmpty h
  | memoryLimit => exact Json.Scalar.int_of_isEmpty h
  | cacheKey => exact Json.Scalar.str_of_isEmpty h
  | submitTime => exact Json.Scalar.int_of_isEmpty h
  | problemID => exact Json.Scalar.int_of_isEmpty h
  | traceID => exact Json.Scalar.str_of_isEmpty h

/-- A task is read back from any text with the value of what was written. -/
theorem unmarshalJSON_same {t : TaskRequest} {text : Bytes} {v : Json} (hparse : Json.parse text = some v)
    (hv : Json.Same (.obj (Json.membersJson (struct.members (fun _ => true) t))) v) :
    unmarshalJSON text = some t := by
  have hwrites : struct.Writes t {} (struct.members (fun _ => true) t) :=
    Json.Struct.writes_members _ fun _ _ _ hempty => get_of_isEmpty hempty
  obtain ⟨t', ht', hget⟩ := Json.Struct.unmarshal_same struct_lawful hwrites hparse hv
  rw [unmarshalJSON, ht', eq_of_get fun f => hget f f.mem_all]

/-- Also from what was written itself. -/
theorem unmarshalJSON_marshalJSON (t : TaskRequest) : unmarshalJSON t.marshalJSON = some t :=
  unmarshalJSON_same (Json.parse_objectText _)
    (Json.same_membersJson (Json.Struct.nodup_members struct_lawful _ t))

/-! ## Protocol buffers -/

open Protowire

/-- The fields in the order of their numbers. -/
def wire (t : TaskRequest) : Bytes :=
  appendBytesField 1 (utf8 t.jobID) ++ (appendBytesField 2 t.code ++
    (appendVarintField 3 t.language.toInt64.toUInt64 ++
    (appendVarintField 4 t.timeLimit.toInt64.toUInt64 ++
    (appendVarintField 5 t.memoryLimit.toInt64.toUInt64 ++
    (appendBytesField 6 (utf8 t.cacheKey) ++ (appendVarintField 7 t.submitTime.toUInt64 ++
    (appendVarintField 8 t.problemID.toUInt64 ++ (appendBytesField 9 (utf8 t.traceID) ++ []))))))))

/-- `proto.Marshal` of a task; no slice is longer than an `int` can say. -/
def marshalProto (t : TaskRequest) : Option Bytes :=
  if t.wire.length < 2 ^ 63 then some t.wire else none

/-- How the fields are stored. -/
def fields : Nat → Option (FieldCoder TaskRequest)
  | 1 => some (.bytes fun t v => (text? v).map fun s => { t with jobID := s })
  | 2 => some (.bytes fun t v => some { t with code := v })
  | 3 => some (.varint fun t v => { t with language := (UInt64.ofNat v).toInt64.toInt32 })
  | 4 => some (.varint fun t v => { t with timeLimit := (UInt64.ofNat v).toInt64.toInt32 })
  | 5 => some (.varint fun t v => { t with memoryLimit := (UInt64.ofNat v).toInt64.toInt32 })
  | 6 => some (.bytes fun t v => (text? v).map fun s => { t with cacheKey := s })
  | 7 => some (.varint fun t v => { t with submitTime := (UInt64.ofNat v).toInt64 })
  | 8 => some (.varint fun t v => { t with problemID := (UInt64.ofNat v).toUInt32 })
  | 9 => some (.bytes fun t v => (text? v).map fun s => { t with traceID := s })
  | _ => none

/-- `proto.Unmarshal` into a new task. -/
def unmarshalProto (b : Bytes) : Option TaskRequest := unmarshal fields {} b

theorem reads_wire {t : TaskRequest} (hlen : t.wire.length < 2 ^ 63) : Reads fields {} t.wire t := by
  obtain ⟨j, c, l, tl, ml, ck, st, p, tr⟩ := t
  unfold wire at hlen ⊢
  simp only [List.length_append] at hlen
  have hjob : (utf8 j).length < 2 ^ 63 := by
    have hle := length_le_appendBytesField 1 (utf8 j)
    omega
  have hcode : c.length < 2 ^ 63 := by
    have hle := length_le_appendBytesField 2 c
    omega
  have hcache : (utf8 ck).length < 2 ^ 63 := by
    have hle := length_le_appendBytesField 6 (utf8 ck)
    omega
  have htrace : (utf8 tr).length < 2 ^ 63 := by
    have hle := length_le_appendBytesField 9 (utf8 tr)
    omega
  have hint32 : ∀ n : Int32, n.toInt64.toUInt64.toInt64.toInt32 = n := fun n => by simp
  -- the fields are set one after the other, and an empty one is as in a new task
  refine Reads.stringField (fun t s => { t with jobID := s }) (by omega) rfl hjob ?_ ?_
  · rintro rfl
    rfl
  refine Reads.bytesField ⟨j, c, 0, 0, 0, "", 0, 0, ""⟩ (by omega) rfl hcode rfl ?_ ?_
  · rintro rfl
    rfl
  refine Reads.wireField (fun t n => { t with language := n }) (fun n : Int32 => n.toInt64.toUInt64)
    (fun v => v.toInt64.toInt32) hint32 (by omega) rfl ?_ ?_
  · rintro rfl
    rfl
  refine Reads.wireField (fun t n => { t with timeLimit := n }) (fun n : Int32 => n.toInt64.toUInt64)
    (fun v => v.toInt64.toInt32) hint32 (by omega) rfl ?_ ?_
  · rintro rfl
    rfl
  refine Reads.wireField (fun t n => { t with memoryLimit := n }) (fun n : Int32 => n.toInt64.toUInt64)
    (fun v => v.toInt64.toInt32) hint32 (by omega) rfl ?_ ?_
  · rintro rfl
    rfl
  refine Reads.stringField (fun t s => { t with cacheKey := s }) (by omega) rfl hcache ?_ ?_
  · rintro rfl
    rfl
  refine Reads.wireField (fun t n => { t with submitTime := n }) Int64.toUInt64 UInt64.toInt64
    (fun n => n.toInt64_toUInt64) (by omega) rfl ?_ ?_
  · rintro rfl
    rfl
  refine Reads.wireField (fun t n => { t with problemID := n }) UInt32.toUInt64 UInt64.toUInt32
    (fun n => n.toUInt32_toUInt64) (by omega) rfl ?_ ?_
  · rintro rfl
    rfl
  refine Reads.stringField (fun t s => { t with traceID := s }) (by omega) rfl htrace ?_ .nil
  rintro rfl
  rfl

/-- A task is read back from its bytes. -/
theorem unmarshalProto_marshalProto {t : TaskRequest} {b : Bytes} (h : t.marshalProto = some b) :
    unmarshalProto b = some t := by
  unfold marshalProto at h
  split at h
  · rename_i hlen
    cases h
    exact (reads_wire hlen).unmarshal
  · cases h

end TaskRequest

end DeepOj.Pb
