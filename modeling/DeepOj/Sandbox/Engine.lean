import DeepOj.Go.JsonMarshal
import DeepOj.Sandbox.Report
import Mathlib.Data.List.Sort
import Mathlib.Data.List.TakeWhile

/-!
# Run mode of the engine

`main` prints one line of JSON, as `nlohmann::json` dumps it: the members are in the order
of their keys, and a string that is not valid UTF-8 makes `dump` throw. Nobody catches it.
-/

namespace DeepOj.Sandbox

open Go

/-! ## `nlohmann::json` -/

/-- A value that is dumped; a string is any bytes. -/
inductive DumpValue where
  | str (bytes : Bytes)
  | int (n : Int)
  deriving DecidableEq, Repr

namespace DumpValue

/-- The value can be dumped. -/
def Dumps : DumpValue → Prop
  | .str bytes => (text? bytes).isSome = true
  | .int _ => True

instance : (v : DumpValue) → Decidable v.Dumps
  | .str bytes => inferInstanceAs (Decidable ((text? bytes).isSome = true))
  | .int _ => inferInstanceAs (Decidable True)

/-- The value as it is dumped. -/
def scalar : DumpValue → Json.Scalar
  | .str bytes => .str ((text? bytes).getD "")
  | .int n => .int n

theorem scalar_utf8 (s : String) : (str (utf8 s)).scalar = .str s := by
  rw [scalar, text?_utf8]
  rfl

theorem dumps_utf8 (s : String) : (str (utf8 s)).Dumps := by
  show (text? (utf8 s)).isSome = true
  rw [text?_utf8]
  rfl

end DumpValue

/-- The characters that `dump` escapes by number, unless there is a short escape. -/
def dumpEscapes (c : Char) : Bool := c.toNat < 32

theorem escapes_dumpEscapes : Json.Escapes dumpEscapes where
  control c h := decide_eq_true h
  small c h := by
    have hlt : c.toNat < 32 := of_decide_eq_true h
    omega

/-- The members of an object, in the order of their keys. -/
def ordered (out : List (String × DumpValue)) : List (String × DumpValue) :=
  out.insertionSort fun p q => p.1 ≤ q.1

/-- `dump`. -/
def dump (out : List (String × DumpValue)) : Option Bytes :=
  if ∀ m ∈ out, m.2.Dumps then
    some (Json.objectTextWith dumpEscapes ((ordered out).map fun m => (m.1, m.2.scalar)))
  else none

/-- The assignments of `BuildRunJSON`. -/
def RunJSON.members (out : RunJSON) : List (String × DumpValue) :=
  [("schema_version", .int out.schemaVersion), ("job_id", .str (utf8 out.jobID)),
    ("attempt_id", .int out.attemptID), ("verdict", .str (utf8 out.verdict)),
    ("time_ms", .int out.timeMs), ("mem_kb", .int out.memKb), ("exit_signal", .int out.exitSignal),
    ("sandbox_error", .str (utf8 out.sandboxError)), ("status", .str (utf8 out.status)),
    ("time_used", .int out.timeUsed), ("memory_used", .int out.memoryUsed),
    ("exit_code", .int out.exitCode)] ++ (out.error.map fun e => ("error", .str e)).toList

/-- `EmitJSONLine`; `none` when `dump` throws. -/
def emitJSONLine (out : RunJSON) : Option Bytes := (dump out.members).map (· ++ [10])

/-! ## `main` -/

/-- `std::stoll`: white space, a sign, and digits, whatever follows them. -/
def stoll (raw : Bytes) : Option Int :=
  let rest := raw.dropWhile fun b => b = 32 ∨ (9 ≤ b.toNat ∧ b.toNat ≤ 13)
  let signed := match rest with
    | 45 :: rest => (true, rest)
    | 43 :: rest => (false, rest)
    | rest => (false, rest)
  match Json.parseNat (signed.2.takeWhile Json.isDigit) with
  | some n =>
    let n : Int := if signed.1 then -n else n
    if -2 ^ 63 ≤ n ∧ n < 2 ^ 63 then some n else none
  | none => none

/-- The options that run mode reads. -/
structure ExecutionConfig where
  codePath : String := ""
  inputPath : String := ""
  outputPath : String := ""
  jobID : String := ""
  attemptID : Int := -1
  attemptExplicit : Bool := false
  deriving DecidableEq, Repr

/-- `--attempt_id`. -/
def ExecutionConfig.setAttemptID (config : ExecutionConfig) (raw : Bytes) : ExecutionConfig :=
  match stoll raw with
  | some n => { config with attemptID := n, attemptExplicit := true }
  | none => { config with attemptID := -1 }

/-- `EmitRunSystemError`. -/
def emitRunSystemError (config : ExecutionConfig) (sandboxError errorMessage : String) :
    Option Bytes :=
  emitJSONLine (buildRunJSON config.jobID config.attemptID "SE" 0 0 0 sandboxError 0 "System Error"
    (utf8 errorMessage))

/-- What `main` prints in run mode, when the sandbox has answered `r`. -/
def runMode (config : ExecutionConfig) (r : RunResult) : Option Bytes :=
  if config.codePath = "" ∨ config.inputPath = "" ∨ config.outputPath = "" then
    emitRunSystemError config "missing_run_args" "run mode requires -c, -i and -o"
  else if config.jobID = "" then
    emitRunSystemError config "missing_job_id" "missing required --job_id/JUDGE_JOB_ID"
  else if config.attemptExplicit = false then
    emitRunSystemError config "missing_attempt_id" "missing required --attempt_id/JUDGE_ATTEMPT_ID"
  else emitJSONLine (runReport config.jobID config.attemptID r)

/-! ## What is printed -/

theorem perm_ordered (out : List (String × DumpValue)) : (ordered out).Perm out :=
  List.perm_insertionSort _ out

/-- An object with these members is printed, or `dump` throws. -/
theorem dump_of_dumps {out : List (String × DumpValue)} (h : ∀ m ∈ out, m.2.Dumps) :
    dump out = some (Json.objectTextWith dumpEscapes ((ordered out).map fun m => (m.1, m.2.scalar))) :=
  if_pos h

/-- Only the error text can be invalid. -/
theorem dumps_members {out : RunJSON} :
    (∀ m ∈ out.members, m.2.Dumps) ↔ ∀ e, out.error = some e → (text? e).isSome = true := by
  constructor
  · intro h e he
    refine h ("error", .str e) ?_
    rw [RunJSON.members, he]
    exact List.mem_append_right _ (List.mem_singleton.mpr rfl)
  · intro h m hm
    rw [RunJSON.members] at hm
    rcases List.mem_append.mp hm with hm | hm
    · simp only [List.mem_cons, List.not_mem_nil, or_false] at hm
      rcases hm with rfl | rfl | rfl | rfl | rfl | rfl | rfl | rfl | rfl | rfl | rfl | rfl
      all_goals first | exact DumpValue.dumps_utf8 _ | exact trivial
    · cases he : out.error with
      | none =>
        rw [he] at hm
        cases hm
      | some e =>
        rw [he] at hm
        rw [List.mem_singleton.mp hm]
        exact h e he

/-- The attempt arrives as it was formatted. -/
theorem stoll_intText {n : Int} (hlo : -2 ^ 63 ≤ n) (hhi : n < 2 ^ 63) :
    stoll (Json.intText n) = some n := by
  have hdigits : ∀ m, (Json.natText m).takeWhile Json.isDigit = Json.natText m := fun m =>
    List.takeWhile_eq_self_iff.mpr (Json.isDigit_natText m)
  unfold stoll Json.intText
  by_cases hneg : n < 0
  · have hsign : -((n.natAbs : Nat) : Int) = n := by omega
    rw [if_pos hneg]
    show (match Json.parseNat ((Json.natText n.natAbs).takeWhile Json.isDigit) with
      | some m => if -2 ^ 63 ≤ -(m : Int) ∧ -(m : Int) < 2 ^ 63 then some (-(m : Int)) else none
      | none => none) = some n
    rw [hdigits, Json.parseNat_natText]
    show (if -2 ^ 63 ≤ -((n.natAbs : Nat) : Int) ∧ -((n.natAbs : Nat) : Int) < 2 ^ 63 then
      some (-((n.natAbs : Nat) : Int)) else none) = some n
    rw [hsign, if_pos ⟨hlo, hhi⟩]
  · have hsign : ((n.natAbs : Nat) : Int) = n := by omega
    rw [if_neg hneg]
    cases htext : Json.natText n.natAbs with
    | nil => exact absurd htext (Json.natText_ne_nil _)
    | cons b ds =>
      have hdigit : Json.isDigit b = true := Json.isDigit_natText n.natAbs b (by simp [htext])
      have hrange : 48 ≤ b.toNat ∧ b.toNat ≤ 57 := by
        unfold Json.isDigit at hdigit
        simpa using hdigit
      have hne : ∀ c : UInt8, c.toNat < 48 → b ≠ c := by
        rintro c hc rfl
        omega
      have hspace : decide (b = 32 ∨ (9 ≤ b.toNat ∧ b.toNat ≤ 13)) = false := by
        refine decide_eq_false ?_
        rintro (rfl | h)
        · exact absurd hrange.1 (by decide)
        · omega
      rw [List.dropWhile_cons, hspace]
      have hsigned : (match b :: ds with
          | 45 :: rest => (true, rest)
          | 43 :: rest => (false, rest)
          | rest => (false, rest)) = (false, b :: ds) := by
        have h45 := hne 45 (by decide)
        have h43 := hne 43 (by decide)
        split
        · rename_i heq
          exact absurd (List.cons.inj heq).1 h45
        · rename_i heq
          exact absurd (List.cons.inj heq).1 h43
        · rfl
      simp only [Bool.false_eq_true, if_false]
      rw [hsigned, ← htext]
      simp only [hdigits, Json.parseNat_natText, Bool.false_eq_true, if_false, hsign]
      rw [if_pos ⟨hlo, hhi⟩]

end DeepOj.Sandbox
