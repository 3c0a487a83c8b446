import DeepOj.Worker.Drain
import Mathlib.Data.Nat.Find

/-!
# Draining any reader

`DrainWithLimit` reads until the reader answers with an error. A `Read` may answer
with data and an error at once, with no bytes and no error, and with chunks of any
size that fits the buffer.
-/

namespace DeepOj.Worker.Drain

open Go Conc

/-! ## Readers -/

/-- The error of a `Read`. -/
inductive ReadError where
  | eof
  | other (err : String)
  deriving DecidableEq, Repr

/-- What one `Read` answers. -/
structure ReadAnswer where
  bytes : Bytes
  err : Option ReadError
  deriving DecidableEq, Repr

/-- An `io.Reader`, as its caller sees it: what the `i`-th `Read` answers. It never writes more
than the buffer holds. -/
structure IoReader where
  read : Nat → ReadAnswer
  fits : ∀ i, (read i).bytes.length ≤ readSize

/-- The bytes of the first `k` answers. -/
def IoReader.stream (r : IoReader) (k : Nat) : Bytes :=
  (List.range k).flatMap fun i => (r.read i).bytes

/-- The answer `last` is the first one with an error. -/
def IoReader.EndsAt (r : IoReader) (last : Nat) : Prop :=
  (r.read last).err ≠ none ∧ ∀ i < last, (r.read i).err = none

/-! ## The loop -/

/-- The body of the loop of `DrainWithLimit`, up to the check of the error. -/
def drainChunk (limit : Int) (st : Draining) (bytes : Bytes) : Draining :=
  if 0 < bytes.length then
    let total := st.total + bytes.length
    if st.buf.length < limit then
      let remain := limit - st.buf.length
      if bytes.length ≤ remain then { st with buf := st.buf ++ bytes, total }
      else { buf := st.buf ++ bytes.take remain.toNat, total, truncated := true }
    else { st with total, truncated := true }
  else st

/-- The error that `DrainWithLimit` returns: the end of the file is none. -/
def drainErr : ReadError → Option String
  | .eof => none
  | .other err => some err

/-- One turn of the loop, with the number of the `Read` that it makes. -/
def readTurn (limit : Int) (r : IoReader) (s : Nat × Draining) : Turn (Nat × Draining) DrainResult :=
  let answer := r.read s.1
  let st := drainChunk limit s.2 answer.bytes
  match answer.err with
  | none => .again (s.1 + 1, st)
  | some err => .leave { data := st.buf, truncated := st.truncated, n := st.total, err := drainErr err }

/-- `DrainWithLimit`, within a number of turns. -/
def drainWithLimit (limit : Int) (r : IoReader) (fuel : Nat) : Option DrainResult :=
  Loop.run (readTurn (if limit < 0 then 0 else limit) r) fuel (0, {})

/-! ## What has been drained -/

/-- The variables of the loop after these bytes. -/
structure Drained (limit : Int) (bytes : Bytes) (st : Draining) : Prop where
  buf : st.buf = bytes.take limit.toNat
  total : st.total = bytes.length
  truncated : st.truncated = true ↔ limit.toNat < bytes.length

section Loop

variable {limit : Int} {bytes chunk : Bytes} {st : Draining} {r : IoReader} {k last : Nat}

theorem Drained.empty : Drained limit [] {} := ⟨by simp, rfl, by simp⟩

/-- A chunk is kept as far as there is room, and what is not kept is noted. -/
theorem Drained.append (h : Drained limit bytes st) (hlimit : 0 ≤ limit) :
    Drained limit (bytes ++ chunk) (drainChunk limit st chunk) := by
  have hlen : st.buf.length = min limit.toNat bytes.length := by rw [h.buf, List.length_take]
  have htrunc := h.truncated
  unfold drainChunk
  by_cases hempty : 0 < chunk.length
  · rw [if_pos hempty]
    by_cases hroom : (st.buf.length : Int) < limit
    · -- the limit has not been reached, so nothing has been dropped before
      have hshort : bytes.length < limit.toNat := by omega
      have hbuf : st.buf = bytes := by rw [h.buf, List.take_of_length_le (by omega)]
      rw [if_pos hroom]
      simp only [hbuf]
      by_cases hfits : (chunk.length : Int) ≤ limit - bytes.length
      · rw [if_pos hfits]
        refine ⟨?_, ?_, ?_⟩
        · show bytes ++ chunk = _
          rw [List.take_of_length_le]
          simp only [List.length_append]
          omega
        · show st.total + chunk.length = _
          simp [h.total]
        · show st.truncated = true ↔ _
          rw [htrunc, List.length_append]
          omega
      · rw [if_neg hfits]
        have hremain : (limit - bytes.length).toNat = limit.toNat - bytes.length := by omega
        refine ⟨?_, ?_, ?_⟩
        · show bytes ++ chunk.take _ = _
          rw [hremain, List.take_append, List.take_of_length_le (l := bytes) (by omega)]
        · show st.total + chunk.length = _
          simp [h.total]
        · simp only [List.length_append, true_iff]
          omega
    · -- a chunk that arrives at the limit is dropped whole
      rw [if_neg hroom]
      have hfull : limit.toNat ≤ bytes.length := by omega
      refine ⟨?_, ?_, ?_⟩
      · show st.buf = _
        rw [h.buf, List.take_append_of_le_length hfull]
      · show st.total + chunk.length = _
        simp [h.total]
      · simp only [List.length_append, true_iff]
        omega
  · rw [if_neg hempty]
    have hnil : chunk = [] := List.length_eq_zero_iff.mp (by omega)
    simpa [hnil] using h

theorem stream_succ (r : IoReader) (k : Nat) : r.stream (k + 1) = r.stream k ++ (r.read k).bytes := by
  simp [IoReader.stream, List.range_succ]

/-- The result of the loop in its turn at an error. -/
def Draining.result (st : Draining) (err : ReadError) : DrainResult :=
  { data := st.buf, truncated := st.truncated, n := st.total, err := drainErr err }

/-- From a state that has drained the first `k` answers, the loop ends at the first answer with an
error. -/
theorem exists_run (hlimit : 0 ≤ limit) (hend : r.EndsAt last) (hk : k ≤ last)
    (h : Drained limit (r.stream k) st) :
    ∃ st' err, Drained limit (r.stream (last + 1)) st' ∧ (r.read last).err = some err ∧
      ∀ fuel, Loop.run (readTurn limit r) fuel (k, st) =
        if last < k + fuel then some (st'.result err) else none := by
  obtain ⟨err, herr⟩ := Option.ne_none_iff_exists'.mp hend.1
  have hnext : Drained limit (r.stream (k + 1)) (drainChunk limit st (r.read k).bytes) := by
    rw [stream_succ]
    exact h.append hlimit
  -- by induction on the number of answers that are still to come before the last one
  induction hgap : last - k generalizing k st with
  | zero =>
    obtain rfl : k = last := by omega
    refine ⟨_, err, hnext, herr, ?_⟩
    intro fuel
    cases fuel with
    | zero => simp [Loop.run]
    | succ fuel => simp [Loop.run, readTurn, herr, Draining.result]
  | succ gap ih =>
    have hquiet : (r.read k).err = none := hend.2 k (by omega)
    obtain ⟨st', err', hst', herr', hrun⟩ := ih (k := k + 1) (by omega) hnext
      (by rw [stream_succ]; exact hnext.append hlimit) (by omega)
    refine ⟨st', err', hst', herr', ?_⟩
    intro fuel
    cases fuel with
    | zero =>
      rw [if_neg (by omega)]
      rfl
    | succ fuel =>
      simp only [Loop.run, readTurn, hquiet]
      rw [hrun fuel, show k + 1 + fuel = k + (fuel + 1) by omega]

/-- A reader that answers with an error once has a first such answer. -/
theorem exists_endsAt (h : ∃ i, (r.read i).err ≠ none) : ∃ last, r.EndsAt last := by
  classical
  refine ⟨Nat.find h, Nat.find_spec h, ?_⟩
  intro i hi
  simpa using Nat.find_min h hi

/-- On an answer without an error, the goroutines of `runWithDrain` do what the loop does. -/
theorem drainTurn_data_eq (hlimit : 0 ≤ limit) (hchunk : chunk ≠ []) :
    drainTurn limit st (.data chunk) = .again (drainChunk limit st chunk) := by
  have hpos : 0 < chunk.length := List.length_pos_iff.mpr hchunk
  unfold drainTurn drainChunk
  simp only [if_pos hpos]
  by_cases hroom : (st.buf.length : Int) < limit
  · have hroom' : st.buf.length < limit.toNat := by omega
    have hremain : (limit - st.buf.length).toNat = limit.toNat - st.buf.length := by omega
    rw [if_pos hroom, if_pos hroom', hremain]
    by_cases hfits : (chunk.length : Int) ≤ limit - st.buf.length
    · rw [if_pos hfits, if_pos (by omega)]
    · rw [if_neg hfits, if_neg (by omega)]
  · rw [if_neg hroom, if_neg (by omega)]

end Loop

/-! ## The contract -/

/-- The stream has been read to its end; the data is its beginning, up to the limit. -/
structure Contract (limit : Int) (stream : Bytes) (err : Option ReadError) (res : DrainResult) : Prop where
  data : res.data = stream.take (min (max limit 0).toNat stream.length)
  n : res.n = stream.length
  truncated : res.truncated = true ↔ max limit 0 < stream.length
  err : res.err = none ↔ err = some .eof

/-- For every limit and every reader that answers with an error at some time, `DrainWithLimit`
reads up to the first such answer and no further, and keeps its contract. -/
theorem drain_contract (limit : Int) (r : IoReader) (h : ∃ i, (r.read i).err ≠ none) :
    ∃ last res, r.EndsAt last ∧ Contract limit (r.stream (last + 1)) (r.read last).err res ∧
      ∀ fuel, drainWithLimit limit r fuel = if last < fuel then some res else none := by
  obtain ⟨last, hend⟩ := exists_endsAt h
  have hlimit : (if limit < 0 then 0 else limit) = max limit 0 := by
    by_cases hneg : limit < 0
    · rw [if_pos hneg]
      omega
    · rw [if_neg hneg]
      omega
  have hstart : Drained (max limit 0) (r.stream 0) {} := Drained.empty
  obtain ⟨st, err, hst, herr, hrun⟩ := exists_run (by omega) hend (Nat.zero_le last) hstart
  refine ⟨last, st.result err, hend, ⟨?_, hst.total, ?_, ?_⟩, ?_⟩
  · show st.buf = _
    rw [hst.buf, List.take_eq_take_min]
  · show st.truncated = true ↔ _
    rw [hst.truncated]
    omega
  · show drainErr err = none ↔ _
    rw [herr]
    cases err <;> simp [drainErr]
  · intro fuel
    unfold drainWithLimit
    rw [hlimit, hrun fuel, Nat.zero_add]

/-- A reader that answers with one byte, with nothing, and with two bytes and the end of the file. -/
def threeBytes : IoReader where
  read
    | 0 => ⟨[1], none⟩
    | 1 => ⟨[], none⟩
    | 2 => ⟨[2, 3], some .eof⟩
    | _ => ⟨[], some .eof⟩
  fits i := by
    match i with
    | 0 | 1 | 2 => decide
    | n + 3 => simp

theorem drain_contract_threeBytes :
    ∃ last res, threeBytes.EndsAt last ∧
      Contract 2 (threeBytes.stream (last + 1)) (threeBytes.read last).err res ∧
      ∀ fuel, drainWithLimit 2 threeBytes fuel = if last < fuel then some res else none :=
  drain_contract 2 threeBytes ⟨2, by decide⟩

/-- At the limit nothing is lost, one byte over it is noted. -/
example : drainWithLimit 3 threeBytes 3 = some ⟨[1, 2, 3], false, 3, none⟩ ∧
    drainWithLimit 2 threeBytes 3 = some ⟨[1, 2], true, 3, none⟩ := by decide

end DeepOj.Worker.Drain
