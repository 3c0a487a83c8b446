import DeepOj.Conc.Loop
import DeepOj.Conc.Run
import DeepOj.Go.Bytes

/-!
# Draining the engine's output

`runWithDrain` reads the two pipes of the engine in goroutines of their own, while another
one is in `cmd.Wait`. `Wait` closes the read ends as soon as the engine has exited, whether
or not everything has been read.
-/

namespace DeepOj.Worker.Drain

open Go Conc

/-! ## `DrainWithLimit` -/

/-- What `Read` answers. -/
inductive ReadReply where
  | data (bytes : Bytes)
  | eof
  | error (err : String)
  deriving DecidableEq, Repr

/-- `drainResult`. -/
structure DrainResult where
  data : Bytes
  truncated : Bool
  n : Nat
  err : Option String
  deriving DecidableEq, Repr

/-- The variables of the loop of `DrainWithLimit`. -/
structure Draining where
  buf : Bytes := []
  total : Nat := 0
  truncated : Bool := false
  deriving DecidableEq, Repr

/-- One turn of the loop. -/
def drainTurn (limit : Int) (st : Draining) : ReadReply → Turn Draining DrainResult
  | .data bytes =>
    let total := st.total + bytes.length
    if st.buf.length < limit.toNat then
      let remain := limit.toNat - st.buf.length
      if bytes.length ≤ remain then .again { st with buf := st.buf ++ bytes, total }
      else .again { buf := st.buf ++ bytes.take remain, total, truncated := true }
    else .again { st with total, truncated := true }
  | .eof => .leave { data := st.buf, truncated := st.truncated, n := st.total, err := none }
  | .error err => .leave { data := st.buf, truncated := st.truncated, n := st.total, err := some err }

/-! ## The parties -/

/-- The two pipes. -/
inductive Fd where
  | stdout
  | stderr
  deriving DecidableEq, Repr

/-- What is in a pipe, and whether its read end is open. -/
structure Pipe where
  content : Bytes := []
  readOpen : Bool := true
  deriving DecidableEq, Repr

inductive Engine where
  | running
  | exited
  | killed
  deriving DecidableEq, Repr

/-- A goroutine that drains a pipe, until its result is in its channel. -/
inductive Reader where
  | draining (st : Draining)
  | sent (r : DrainResult)
  deriving DecidableEq, Repr

/-- The goroutine in `cmd.Wait`: it waits for the engine, closes the read ends, and sends on `done`. -/
inductive Waiter where
  | waiting
  | closing (rest : List Fd)
  | done
  deriving DecidableEq, Repr

/-- `runWithDrain`, from the `select` of `waitWithContext` on. -/
inductive Caller where
  | selecting
  /-- The process group has been killed; `done` is still to be received from. -/
  | timedOut
  | receiving
  | returned (stdoutRes stderrRes : DrainResult)
  deriving DecidableEq, Repr

structure State where
  engine : Engine := .running
  pipe : Fd → Pipe := fun _ => {}
  reader : Fd → Reader := fun _ => .draining {}
  waiter : Waiter := .waiting
  caller : Caller := .selecting
  /-- The context is done. -/
  late : Bool := false
  /-- All that the engine has written. -/
  wrote : Fd → Bytes := fun _ => []
  /-- The engine has exited by itself, before the deadline. -/
  inTime : Bool := false

/-- The size of a pipe. -/
def pipeCapacity : Nat := 65536

/-- The size of the buffer that `DrainWithLimit` reads into. -/
def readSize : Nat := 32 * 1024

inductive Move where
  | write (fd : Fd) (bytes : Bytes)
  | exit
  | deadline
  /-- A reader is answered with `n` bytes. -/
  | read (fd : Fd) (n : Nat)
  /-- A reader is answered with an error, or with the end of the file. -/
  | readEnd (fd : Fd)
  /-- `Wait` learns that the engine is gone. -/
  | reap
  /-- `Wait` closes the next read end. -/
  | close
  | sendDone
  | timeOut
  | recvDone
  | recvResults
  deriving DecidableEq, Repr

/-- Change one pipe. -/
def State.setPipe (s : State) (fd : Fd) (p : Pipe) : State :=
  { s with pipe := Function.update s.pipe fd p }

/-- Give a reader its answer. -/
def State.answer (s : State) (limit : Fd → Int) (fd : Fd) (st : Draining) (reply : ReadReply) : State :=
  { s with reader := Function.update s.reader fd <|
      match drainTurn (limit fd) st reply with
      | .again st => .draining st
      | .leave r => .sent r }

/-- One step of one of the parties. -/
def step (limit : Fd → Int) (s : State) : Move → Option State
  | .write fd bytes =>
    if s.engine = .running ∧ (s.pipe fd).readOpen = true ∧
        (s.pipe fd).content.length + bytes.length ≤ pipeCapacity then
      some { s.setPipe fd { s.pipe fd with content := (s.pipe fd).content ++ bytes } with
        wrote := Function.update s.wrote fd (s.wrote fd ++ bytes) }
    else none
  | .exit =>
    if s.engine = .running then some { s with engine := .exited, inTime := !s.late } else none
  | .deadline => some { s with late := true }
  | .read fd n =>
    match s.reader fd with
    | .draining st =>
      if (s.pipe fd).readOpen = true ∧ 0 < n ∧ n ≤ readSize ∧ n ≤ (s.pipe fd).content.length then
        some ((s.setPipe fd { s.pipe fd with content := (s.pipe fd).content.drop n }).answer limit fd st
          (.data ((s.pipe fd).content.take n)))
      else none
    | .sent _ => none
  | .readEnd fd =>
    match s.reader fd with
    | .draining st =>
      if (s.pipe fd).readOpen = false then some (s.answer limit fd st (.error "file already closed"))
      else if (s.pipe fd).content = [] ∧ s.engine ≠ .running then some (s.answer limit fd st .eof)
      else none
    | .sent _ => none
  | .reap =>
    if s.waiter = .waiting ∧ s.engine ≠ .running then
      some { s with waiter := .closing [.stdout, .stderr] }
    else none
  | .close =>
    match s.waiter with
    | .closing (fd :: rest) =>
      some { s.setPipe fd { s.pipe fd with readOpen := false } with waiter := .closing rest }
    | _ => none
  | .sendDone => if s.waiter = .closing [] then some { s with waiter := .done } else none
  | .timeOut =>
    if s.caller = .selecting ∧ s.late = true then
      some { s with
        caller := .timedOut
        engine := if s.engine = .running then .killed else s.engine }
    else none
  | .recvDone =>
    if (s.caller = .selecting ∨ s.caller = .timedOut) ∧ s.waiter = .done then
      some { s with caller := .receiving }
    else none
  | .recvResults =>
    match s.caller, s.reader .stdout, s.reader .stderr with
    | .receiving, .sent stdoutRes, .sent stderrRes =>
      some { s with caller := .returned stdoutRes stderrRes }
    | _, _, _ => none

/-! ## What is to be kept -/

/-- `runWithDrain` has returned, and the engine exited in time: then it has all that the engine
wrote to stdout, up to the limit. -/
def Kept (limit : Fd → Int) (s : State) : Prop :=
  ∀ stdoutRes stderrRes, s.caller = .returned stdoutRes stderrRes → s.inTime = true →
    stdoutRes.data = (s.wrote .stdout).take (limit .stdout).toNat

/-- What a reader has collected so far. -/
def Reader.collected : Reader → Bytes
  | .draining st => st.buf
  | .sent r => r.data

/-- All that is to be kept of the pipe has been collected. -/
def Collected (limit : Fd → Int) (s : State) (fd : Fd) : Prop :=
  min (limit fd).toNat (s.wrote fd).length ≤ (s.reader fd).collected.length

instance (limit : Fd → Int) (s : State) (fd : Fd) : Decidable (Collected limit s fd) :=
  inferInstanceAs (Decidable (_ ≤ _))

/-- The next that `Wait` does is to close the read end of stdout. -/
def State.ClosesStdout (s : State) : Prop := ∃ rest, s.waiter = .closing (.stdout :: rest)

instance (s : State) : Decidable s.ClosesStdout :=
  match h : s.waiter with
  | .closing (.stdout :: rest) => isTrue ⟨rest, h⟩
  | .closing (.stderr :: _) => isFalse fun ⟨_, h'⟩ => by rw [h] at h'; cases h'
  | .closing [] => isFalse fun ⟨_, h'⟩ => by rw [h] at h'; cases h'
  | .waiting => isFalse fun ⟨_, h'⟩ => by rw [h] at h'; cases h'
  | .done => isFalse fun ⟨_, h'⟩ => by rw [h] at h'; cases h'

/-- `Wait` closes the read end of stdout only after all that is to be kept has been read. -/
def Patient (limit : Fd → Int) (s : State) (m : Move) : Prop :=
  m = .close → s.ClosesStdout → Collected limit s .stdout

instance (limit : Fd → Int) (s : State) (m : Move) : Decidable (Patient limit s m) :=
  inferInstanceAs (Decidable (_ → _ → _))

/-! ## One pipe -/

/-- What holds of a pipe and its reader, whatever the others do. -/
structure PipeInv (limit : Int) (engine : Engine) (wrote : Bytes) (p : Pipe) (reader : Reader) : Prop where
  /-- What has been taken out of the pipe has been kept up to the limit. -/
  split : ∃ taken, wrote = taken ++ p.content ∧ reader.collected = taken.take limit.toNat
  sent : ∀ r, reader = .sent r → engine ≠ .running ∧ (p.content = [] ∨ p.readOpen = false)

section Pipe

variable {limit : Int} {engine : Engine} {wrote bytes : Bytes} {p : Pipe} {reader : Reader} {st : Draining}

/-- A chunk is kept as far as the limit allows. -/
theorem drainTurn_data (limit : Int) (st : Draining) (bytes : Bytes) :
    ∃ st', drainTurn limit st (.data bytes) = .again st' ∧
      st'.buf = st.buf ++ bytes.take (limit.toNat - st.buf.length) := by
  unfold drainTurn
  by_cases hroom : st.buf.length < limit.toNat
  · by_cases hfits : bytes.length ≤ limit.toNat - st.buf.length
    · simp only [if_pos hroom, if_pos hfits]
      refine ⟨_, rfl, ?_⟩
      rw [List.take_of_length_le hfits]
    · simp only [if_pos hroom, if_neg hfits]
      exact ⟨_, rfl, rfl⟩
  · simp only [if_neg hroom]
    refine ⟨_, rfl, ?_⟩
    have hzero : limit.toNat - st.buf.length = 0 := by omega
    rw [hzero, List.take_zero, List.append_nil]

theorem PipeInv.write (h : PipeInv limit .running wrote p reader) :
    PipeInv limit .running (wrote ++ bytes) { p with content := p.content ++ bytes } reader := by
  obtain ⟨taken, hwrote, hkept⟩ := h.split
  refine ⟨⟨taken, ?_, hkept⟩, fun r hr => absurd rfl (h.sent r hr).1⟩
  rw [hwrote, List.append_assoc]

theorem PipeInv.read (h : PipeInv limit engine wrote p (.draining st)) (n : Nat) :
    ∃ st', drainTurn limit st (.data (p.content.take n)) = .again st' ∧
      PipeInv limit engine wrote { p with content := p.content.drop n } (.draining st') := by
  obtain ⟨taken, hwrote, hkept⟩ := h.split
  obtain ⟨st', hturn, hbuf⟩ := drainTurn_data limit st (p.content.take n)
  refine ⟨st', hturn, ⟨taken ++ p.content.take n, ?_, ?_⟩, fun r hr => by cases hr⟩
  · rw [List.append_assoc, List.take_append_drop]
    exact hwrote
  · have hst : st.buf = taken.take limit.toNat := hkept
    have hroom : limit.toNat - st.buf.length = limit.toNat - taken.length := by
      rw [hst, List.length_take]
      omega
    show st'.buf = _
    rw [hbuf, hroom, hst, List.take_append]

theorem PipeInv.readEnd (h : PipeInv limit engine wrote p (.draining st)) (hgone : engine ≠ .running)
    (hend : p.content = [] ∨ p.readOpen = false) {r : DrainResult} (hr : r.data = st.buf) :
    PipeInv limit engine wrote p (.sent r) := by
  obtain ⟨taken, hwrote, hkept⟩ := h.split
  exact ⟨⟨taken, hwrote, hr.trans hkept⟩, fun _ _ => ⟨hgone, hend⟩⟩

theorem PipeInv.close (h : PipeInv limit engine wrote p reader) :
    PipeInv limit engine wrote { p with readOpen := false } reader :=
  ⟨h.split, fun r hr => ⟨(h.sent r hr).1, .inr rfl⟩⟩

theorem PipeInv.leave (h : PipeInv limit engine wrote p reader) {engine' : Engine}
    (he : engine' ≠ .running) : PipeInv limit engine' wrote p reader :=
  ⟨h.split, fun r hr => ⟨he, (h.sent r hr).2⟩⟩

/-- A reader that is through has what is to be kept, unless the read end was closed on it. -/
theorem PipeInv.eq_take (h : PipeInv limit engine wrote p reader) {r : DrainResult}
    (hr : reader = .sent r)
    (hclosed : p.readOpen = false → min limit.toNat wrote.length ≤ reader.collected.length) :
    r.data = wrote.take limit.toNat := by
  obtain ⟨taken, hwrote, hkept⟩ := h.split
  have hdata : reader.collected = r.data := by
    rw [hr]
    rfl
  rw [hdata] at hkept hclosed
  rcases (h.sent r hr).2 with hempty | hopen
  · rw [hkept, hwrote, hempty, List.append_nil]
  · have hlen := hclosed hopen
    rw [hkept, List.length_take, hwrote, List.length_append] at hlen
    rw [hkept, hwrote, List.take_append]
    -- either the limit lies within what was taken, or nothing was left behind
    by_cases hlimit : limit.toNat ≤ taken.length
    · have hzero : limit.toNat - taken.length = 0 := by omega
      rw [hzero, List.take_zero, List.append_nil]
    · have hnone : p.content = [] := List.length_eq_zero_iff.mp (by omega)
      rw [hnone, List.take_nil, List.append_nil]

end Pipe

/-! ## All parties -/

/-- What holds in every state of a run. -/
structure Inv (limit : Fd → Int) (s : State) : Prop where
  pipes : ∀ fd, PipeInv (limit fd) s.engine (s.wrote fd) (s.pipe fd) (s.reader fd)
  gone : s.waiter ≠ .waiting → s.engine ≠ .running
  closed : ∀ fd, (s.pipe fd).readOpen = false → s.waiter ≠ .waiting
  returned : ∀ r r', s.caller = .returned r r' → s.reader .stdout = .sent r

section Steps

variable {limit : Fd → Int} {s s' : State} {m : Move}

theorem inv_start : Inv limit {} where
  pipes fd := ⟨⟨[], rfl, (List.take_nil).symm⟩, fun r hr => by cases hr⟩
  gone h := absurd rfl h
  closed fd h := by cases h
  returned r r' h := by cases h

/-- A step on one pipe leaves the other alone. -/
theorem pipes_update (fd : Fd) (hs : Inv limit s) (he : s'.engine = s.engine)
    (hother : ∀ fd' ≠ fd, s'.wrote fd' = s.wrote fd' ∧ s'.pipe fd' = s.pipe fd' ∧
      s'.reader fd' = s.reader fd')
    (h : PipeInv (limit fd) s.engine (s'.wrote fd) (s'.pipe fd) (s'.reader fd)) :
    ∀ fd', PipeInv (limit fd') s'.engine (s'.wrote fd') (s'.pipe fd') (s'.reader fd') := by
  intro fd'
  rw [he]
  by_cases hfd : fd' = fd
  · rw [hfd]
    exact h
  · obtain ⟨hw, hp, hr⟩ := hother fd' hfd
    rw [hw, hp, hr]
    exact hs.pipes fd'

/-- A pipe that is changed keeps its read end as it was. -/
theorem closed_update {fd : Fd} {p : Pipe} (hs : Inv limit s) (hp : p.readOpen = (s.pipe fd).readOpen) :
    ∀ fd', (Function.update s.pipe fd p fd').readOpen = false → s.waiter ≠ .waiting := by
  intro fd' hopen
  by_cases hfd : fd' = fd
  · rw [hfd, Function.update_self, hp] at hopen
    exact hs.closed fd hopen
  · rw [Function.update_of_ne hfd] at hopen
    exact hs.closed fd' hopen

theorem inv_write {fd : Fd} {bytes : Bytes} (hs : Inv limit s)
    (h : step limit s (.write fd bytes) = some s') : Inv limit s' := by
  simp only [step] at h
  split at h
  · rename_i hguard
    obtain ⟨hrun, -, -⟩ := hguard
    cases h
    refine ⟨pipes_update fd hs rfl (fun fd' hfd => ?_) ?_, hs.gone, closed_update hs rfl,
      hs.returned⟩
    · exact ⟨Function.update_of_ne hfd _ _, Function.update_of_ne hfd _ _, rfl⟩
    · have hpipe := hs.pipes fd
      rw [hrun] at hpipe ⊢
      simp only [State.setPipe, Function.update_self]
      exact hpipe.write
  · cases h

theorem inv_read {fd : Fd} {n : Nat} (hs : Inv limit s) (h : step limit s (.read fd n) = some s') :
    Inv limit s' := by
  simp only [step] at h
  split at h
  · rename_i st hreader
    split at h
    · cases h
      have hpipe := hs.pipes fd
      rw [hreader] at hpipe
      obtain ⟨st', hturn, hnew⟩ := hpipe.read n
      refine ⟨pipes_update fd hs rfl (fun fd' hfd => ?_) ?_, hs.gone, closed_update hs rfl, ?_⟩
      · exact ⟨rfl, Function.update_of_ne hfd _ _, Function.update_of_ne hfd _ _⟩
      · simp only [State.answer, State.setPipe, Function.update_self, hturn]
        exact hnew
      · intro r r' hcaller
        have hsent := hs.returned r r' hcaller
        have hne : Fd.stdout ≠ fd := by
          rintro rfl
          rw [hreader] at hsent
          cases hsent
        exact (Function.update_of_ne hne _ _).trans hsent
    · cases h
  · cases h

/-- The end of a pipe, whether it was reached or the read end has been closed. -/
theorem inv_answer_end {fd : Fd} {st : Draining} {reply : ReadReply} (hs : Inv limit s)
    (hreader : s.reader fd = .draining st) (hgone : s.engine ≠ .running)
    (hend : (s.pipe fd).content = [] ∨ (s.pipe fd).readOpen = false)
    (hreply : ∃ r, drainTurn (limit fd) st reply = .leave r ∧ r.data = st.buf) :
    Inv limit (s.answer limit fd st reply) := by
  obtain ⟨r, hturn, hr⟩ := hreply
  have hpipe := hs.pipes fd
  rw [hreader] at hpipe
  refine ⟨pipes_update fd hs rfl (fun fd' hfd => ?_) ?_, hs.gone, hs.closed, ?_⟩
  · exact ⟨rfl, rfl, Function.update_of_ne hfd _ _⟩
  · simp only [State.answer, Function.update_self, hturn]
    exact hpipe.readEnd hgone hend hr
  · intro q q' hcaller
    have hsent := hs.returned q q' hcaller
    have hne : Fd.stdout ≠ fd := by
      rintro rfl
      rw [hreader] at hsent
      cases hsent
    exact (Function.update_of_ne hne _ _).trans hsent

theorem inv_readEnd {fd : Fd} (hs : Inv limit s) (h : step limit s (.readEnd fd) = some s') :
    Inv limit s' := by
  simp only [step] at h
  split at h
  · rename_i st hreader
    split at h
    · rename_i hopen
      cases h
      exact inv_answer_end hs hreader (hs.gone (hs.closed fd hopen)) (.inr hopen) ⟨_, rfl, rfl⟩
    · split at h
      · rename_i hend
        cases h
        exact inv_answer_end hs hreader hend.2 (.inl hend.1) ⟨_, rfl, rfl⟩
      · cases h
  · cases h

theorem inv_close (hs : Inv limit s) (h : step limit s .close = some s') : Inv limit s' := by
  simp only [step] at h
  split at h
  · rename_i fd rest hwaiter
    cases h
    have hne : s.waiter ≠ .waiting := by
      rw [hwaiter]
      exact Waiter.noConfusion
    refine ⟨pipes_update fd hs rfl (fun fd' hfd => ?_) ?_, fun _ => hs.gone hne, fun _ _ => ?_,
      hs.returned⟩
    · exact ⟨rfl, Function.update_of_ne hfd _ _, rfl⟩
    · simp only [State.setPipe, Function.update_self]
      exact (hs.pipes fd).close
    · exact Waiter.noConfusion
  · cases h

theorem inv_step (hs : Inv limit s) (h : step limit s m = some s') : Inv limit s' := by
  cases m with
  | write fd bytes => exact inv_write hs h
  | read fd n => exact inv_read hs h
  | readEnd fd => exact inv_readEnd hs h
  | close => exact inv_close hs h
  | exit =>
    simp only [step] at h
    split at h
    · cases h
      exact ⟨fun fd => (hs.pipes fd).leave Engine.noConfusion, fun _ => Engine.noConfusion, hs.closed,
        hs.returned⟩
    · cases h
  | deadline =>
    cases h
    exact ⟨hs.pipes, hs.gone, hs.closed, hs.returned⟩
  | reap =>
    simp only [step] at h
    split at h
    · rename_i hguard
      cases h
      exact ⟨hs.pipes, fun _ => hguard.2, fun _ _ => Waiter.noConfusion, hs.returned⟩
    · cases h
  | sendDone =>
    simp only [step] at h
    split at h
    · rename_i hwaiter
      cases h
      have hne : s.waiter ≠ .waiting := by
        rw [hwaiter]
        exact Waiter.noConfusion
      exact ⟨hs.pipes, fun _ => hs.gone hne, fun _ _ => Waiter.noConfusion, hs.returned⟩
    · cases h
  | timeOut =>
    simp only [step] at h
    split at h
    · cases h
      have hnot : (if s.engine = .running then Engine.killed else s.engine) ≠ .running := by
        split
        · exact Engine.noConfusion
        · assumption
      exact ⟨fun fd => (hs.pipes fd).leave hnot, fun _ => hnot, hs.closed,
        fun _ _ hcaller => Caller.noConfusion hcaller⟩
    · cases h
  | recvDone =>
    simp only [step] at h
    split at h
    · cases h
      exact ⟨hs.pipes, hs.gone, hs.closed, fun _ _ hcaller => Caller.noConfusion hcaller⟩
    · cases h
  | recvResults =>
    simp only [step] at h
    split at h
    · rename_i r r' hcaller hout herr
      cases h
      refine ⟨hs.pipes, hs.gone, hs.closed, fun q q' hreturned => ?_⟩
      obtain ⟨rfl, rfl⟩ := Caller.returned.inj hreturned
      exact hout
    · cases h

/-- Once its read end is closed, nothing more is written to a pipe or read from it. -/
theorem closed_step {fd : Fd} (hs : (s.pipe fd).readOpen = false) (h : step limit s m = some s') :
    (s'.pipe fd).readOpen = false ∧ s'.wrote fd = s.wrote fd ∧
      (s'.reader fd).collected = (s.reader fd).collected := by
  cases m with
  | write fd' bytes =>
    simp only [step] at h
    split at h
    · rename_i hguard
      cases h
      have hne : fd ≠ fd' := by
        rintro rfl
        rw [hguard.2.1] at hs
        cases hs
      refine ⟨?_, Function.update_of_ne hne _ _, rfl⟩
      simp only [State.setPipe, Function.update_of_ne hne, hs]
    · cases h
  | read fd' n =>
    simp only [step] at h
    split at h
    · split at h
      · rename_i hguard
        cases h
        have hne : fd ≠ fd' := by
          rintro rfl
          rw [hguard.1] at hs
          cases hs
        refine ⟨?_, rfl, ?_⟩
        · simp only [State.answer, State.setPipe, Function.update_of_ne hne, hs]
        · simp only [State.answer, State.setPipe, Function.update_of_ne hne]
      · cases h
    · cases h
  | readEnd fd' =>
    have hcollected : ∀ st reply, s.reader fd' = .draining st →
        (∃ r, drainTurn (limit fd') st reply = .leave r ∧ r.data = st.buf) →
        ((s.answer limit fd' st reply).reader fd).collected = (s.reader fd).collected := by
      rintro st reply hreader ⟨r, hturn, hr⟩
      by_cases hfd : fd = fd'
      · subst hfd
        simp only [State.answer, Function.update_self, hturn, hreader]
        exact hr
      · simp only [State.answer, Function.update_of_ne hfd]
    simp only [step] at h
    split at h
    · rename_i st hreader
      split at h
      · cases h
        exact ⟨hs, rfl, hcollected _ _ hreader ⟨_, rfl, rfl⟩⟩
      · split at h
        · cases h
          exact ⟨hs, rfl, hcollected _ _ hreader ⟨_, rfl, rfl⟩⟩
        · cases h
    · cases h
  | close =>
    simp only [step] at h
    split at h
    · rename_i fd' rest hwaiter
      cases h
      refine ⟨?_, rfl, rfl⟩
      by_cases hfd : fd = fd'
      · subst hfd
        simp only [State.setPipe, Function.update_self]
      · simp only [State.setPipe, Function.update_of_ne hfd, hs]
    · cases h
  | deadline =>
    cases h
    exact ⟨hs, rfl, rfl⟩
  | exit | reap | sendDone | timeOut | recvDone | recvResults =>
    simp only [step] at h
    split at h
    · cases h
      exact ⟨hs, rfl, rfl⟩
    · cases h

/-- A read end is closed only by `Wait`. -/
theorem close_of_step {fd : Fd} (hopen : (s.pipe fd).readOpen = true) (h : step limit s m = some s')
    (hclosed : (s'.pipe fd).readOpen = false) :
    m = .close ∧ (∃ rest, s.waiter = .closing (fd :: rest)) ∧ s'.wrote = s.wrote ∧
      s'.reader = s.reader := by
  have hsame : ∀ (fd' : Fd) (p : Pipe), p.readOpen = (s.pipe fd').readOpen →
      (Function.update s.pipe fd' p fd).readOpen = false → False := by
    intro fd' p hp hfalse
    by_cases hfd : fd = fd'
    · rw [hfd, Function.update_self, hp, ← hfd, hopen] at hfalse
      cases hfalse
    · rw [Function.update_of_ne hfd, hopen] at hfalse
      cases hfalse
  cases m with
  | write fd' bytes =>
    simp only [step] at h
    split at h
    · cases h
      exact (hsame fd' _ (by rfl) hclosed).elim
    · cases h
  | read fd' n =>
    simp only [step] at h
    split at h
    · split at h
      · cases h
        exact (hsame fd' _ (by rfl) hclosed).elim
      · cases h
    · cases h
  | readEnd fd' =>
    simp only [step] at h
    split at h
    · split at h
      · cases h
        exact absurd hopen (by rw [show (s.pipe fd).readOpen = false from hclosed]; decide)
      · split at h
        · cases h
          exact absurd hopen (by rw [show (s.pipe fd).readOpen = false from hclosed]; decide)
        · cases h
    · cases h
  | close =>
    simp only [step] at h
    split at h
    · rename_i fd' rest hwaiter
      cases h
      by_cases hfd : fd = fd'
      · subst hfd
        exact ⟨rfl, ⟨rest, hwaiter⟩, rfl, rfl⟩
      · simp only [State.setPipe, Function.update_of_ne hfd, hopen] at hclosed
        cases hclosed
    · cases h
  | deadline =>
    cases h
    exact absurd hopen (by rw [show (s.pipe fd).readOpen = false from hclosed]; decide)
  | exit | reap | sendDone | timeOut | recvDone | recvResults =>
    simp only [step] at h
    split at h
    · cases h
      exact absurd hopen (by rw [show (s.pipe fd).readOpen = false from hclosed]; decide)
    · cases h

end Steps

/-! ## Runs -/

variable {limit : Fd → Int} {s s₁ : State}

theorem inv_run {ok : State → Move → Prop} (h : Run (step limit) ok {} s) : Inv limit s :=
  h.invariant inv_start fun _ _ _ hs _ hstep => inv_step hs hstep

/-- In a run whose `Wait` is patient, everything is kept. -/
theorem kept_of_patient (h : Run (step limit) (Patient limit) {} s) : Kept limit s := by
  have hcollected : (s.pipe .stdout).readOpen = false → Collected limit s .stdout := by
    refine h.invariant (J := fun s => (s.pipe .stdout).readOpen = false → Collected limit s .stdout)
      (fun hclosed => by cases hclosed) ?_
    intro s s' m hs hok hstep hclosed
    unfold Collected at hs ⊢
    cases hopen : (s.pipe .stdout).readOpen with
    | true =>
      obtain ⟨rfl, ⟨rest, hwaiter⟩, hwrote, hreader⟩ := close_of_step hopen hstep hclosed
      rw [hwrote, hreader]
      exact hok rfl ⟨rest, hwaiter⟩
    | false =>
      obtain ⟨-, hwrote, hsame⟩ := closed_step hopen hstep
      rw [hwrote, hsame]
      exact hs hopen
  intro r r' hcaller _
  have hinv := inv_run h
  exact (hinv.pipes .stdout).eq_take (hinv.returned r r' hcaller) hcollected

/-- Where `Wait` is not, something is lost for good. -/
theorem lost_of_impatient (h₁ : Run (step limit) always {} s₁) {s₂ : State}
    (hcloses : s₁.ClosesStdout) (hnot : ¬ Collected limit s₁ .stdout)
    (hclose : step limit s₁ .close = some s₂) (h : Run (step limit) always s₂ s)
    {r r' : DrainResult} (hcaller : s.caller = .returned r r') :
    r.data ≠ (s.wrote .stdout).take (limit .stdout).toNat := by
  obtain ⟨rest, hwaiter⟩ := hcloses
  have hlost : (s.pipe .stdout).readOpen = false ∧ ¬ Collected limit s .stdout := by
    refine h.invariant (J := fun s => (s.pipe .stdout).readOpen = false ∧ ¬ Collected limit s .stdout)
      ?_ ?_
    · simp only [step, hwaiter] at hclose
      cases hclose
      exact ⟨by simp only [State.setPipe, Function.update_self], hnot⟩
    · rintro s s' m ⟨hclosed, hs⟩ _ hstep
      obtain ⟨hclosed', hwrote, hsame⟩ := closed_step hclosed hstep
      refine ⟨hclosed', ?_⟩
      unfold Collected at hs ⊢
      rw [hwrote, hsame]
      exact hs
  have hreturned : s.reader .stdout = .sent r :=
    (inv_run ((h₁.step _ trivial hclose).trans h)).returned r r' hcaller
  intro hdata
  refine hlost.2 ?_
  unfold Collected
  rw [hreturned]
  have hlen := congrArg List.length hdata
  rw [List.length_take] at hlen
  exact Nat.le_of_eq hlen.symm

/-- Play moves from the start, with a limit of 256 KiB on either pipe. -/
def played (ms : List Move) : State :=
  playAll (step fun _ => 262144) (Patient fun _ => 262144) {} ms

/-- The readers are done with stdout before `Wait` closes it. -/
def patientWait : List Move :=
  [.write .stdout (utf8 "line\n"), .exit, .reap, .read .stdout 5, .readEnd .stdout, .close, .close,
    .sendDone, .readEnd .stderr, .recvDone, .recvResults]

theorem kept_of_patient_wait : Kept (fun _ => 262144) (played patientWait) :=
  kept_of_patient (Run.playAll .init patientWait)

/-- The line is written and the engine exits; `Wait` is through before the readers begin. -/
def eagerWait : List Move :=
  [.write .stdout (utf8 "line\n"), .exit, .reap, .close, .close, .sendDone, .readEnd .stdout,
    .readEnd .stderr, .recvDone, .recvResults]

/-- Then the line is lost. -/
theorem eager_wait_loses :
    ¬ ∀ (limit : Fd → Int) (s : State), Run (step limit) always {} s → Kept limit s := by
  intro h
  have hrun : Run (step fun _ => 262144) always {}
      (playAll (step fun _ => 262144) always {} eagerWait) := Run.playAll .init eagerWait
  have hdata : ([] : Bytes) = (utf8 "line\n").take 262144 := h _ _ hrun _ _ rfl rfl
  exact absurd hdata (by decide)

end DeepOj.Worker.Drain
