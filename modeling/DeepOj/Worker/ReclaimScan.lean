import DeepOj.Conc.Events
import DeepOj.Redis.AutoClaim
import DeepOj.Worker.SlotPool

/-!
# The reclaim scan

`reclaimOnce` goes through the pending entries with one `XAUTOCLAIM` after another. Where
one ends the next begins, in the same call or in the next tick.
-/

namespace DeepOj.Worker.Slots

open Go Conc Redis

abbrev Event := Conc.Event Op Op.Reply

/-- A call of `XAUTOCLAIM` and its reply. -/
structure ClaimCall where
  minIdle : Int
  startID : String
  count : Nat
  reply : Except ReadError (List String × String)

/-- The calls of `XAUTOCLAIM` in a run. -/
def claimCalls (tr : List Event) : List ClaimCall :=
  tr.filterMap fun
    | ⟨.autoClaim minIdle startID count, reply⟩ => some ⟨minIdle, startID, count, reply⟩
    | _ => none

/-- The cursors a run saves. -/
def savedCursors (tr : List Event) : List String :=
  tr.filterMap fun
    | ⟨.setReclaimNextStartID next, _⟩ => some next
    | _ => none

/-- A slot was free when the run asked for one. -/
def GotSlot (tr : List Event) : Prop :=
  ⟨.recvSlot, true⟩ ∈ tr ∨ ∃ wait, ⟨.waitSlot wait, true⟩ ∈ tr

/-- The run hands the message to a handler. -/
def HandsOut (tr : List Event) (message : String) : Prop :=
  ∃ wg, ⟨.go (.handler wg true message), ()⟩ ∈ tr

/-- The turns of one `reclaimOnce` from a start id on. -/
inductive Turns (cfg : ConsumerConfig) : String → List Event → Prop where
  | last {startID : String} {tr : List Event} (h : (reclaimTurn cfg startID).Runs tr none) : Turns cfg startID tr
  | again {startID nextID : String} {tr tr' : List Event} (h : (reclaimTurn cfg startID).Runs tr (some nextID))
      (hrest : Turns cfg nextID tr') : Turns cfg startID (tr ++ tr')

/-- Turns of a `reclaimOnce` none of which is the last. -/
inductive Going (cfg : ConsumerConfig) : String → List (List Event) → String → Prop where
  | nil (startID : String) : Going cfg startID [] startID
  | cons {startID nextID lastID : String} {tr : List Event} {trs : List (List Event)}
      (h : (reclaimTurn cfg startID).Runs tr (some nextID)) (hrest : Going cfg nextID trs lastID) :
      Going cfg startID (tr :: trs) lastID

/-- The id a tick starts from, by the cursor that was saved. -/
def startIDOf (saved : String) : String := if trimSpace saved = "" then "0-0" else saved

/-- Ticks in a row: each begins with the cursor that is saved by then. -/
inductive Ticks (cfg : ConsumerConfig) : String → List (List Event) → Prop where
  | nil (saved : String) : Ticks cfg saved []
  | cons {saved : String} {tr : List Event} {trs : List (List Event)} (h : Turns cfg (startIDOf saved) tr)
      (hrest : Ticks cfg ((savedCursors tr).getLastD saved) trs) : Ticks cfg saved (tr :: trs)

/-- `minIdle` in `reclaimOnce`: the lease and the grace. -/
def minIdle (cfg : ConsumerConfig) : Int :=
  (if cfg.jobLeaseSec ≤ 0 then 60 else cfg.jobLeaseSec) +
    (if cfg.jobReclaimGraceSec < 0 then 0 else cfg.jobReclaimGraceSec)

/-- The call was answered as Redis answers it, by a list of pending entries with ids in a set. A
message is known by its id. -/
def Answered (U : Finset Nat) (good : List PelEntry → Prop) (c : ClaimCall) : Prop :=
  ∃ pel start claimed next, c.startID = idText start ∧
    AutoClaims pel c.minIdle start c.count claimed next ∧ (∀ e ∈ pel, e.id ∈ U) ∧ good pel ∧
    c.reply = .ok (claimed.map idText, idText next)

/-! ## One turn -/

/-- An operation that neither claims nor saves a cursor. -/
def Quiet (o : Op) : Prop := (∀ m s c, o ≠ .autoClaim m s c) ∧ ∀ next, o ≠ .setReclaimNextStartID next

section Turn

variable {cfg : ConsumerConfig} {tr tr₁ tr₂ : List Event} {startID : String} {res : Option String}

@[simp] theorem claimCalls_append : claimCalls (tr₁ ++ tr₂) = claimCalls tr₁ ++ claimCalls tr₂ :=
  List.filterMap_append

@[simp] theorem savedCursors_append : savedCursors (tr₁ ++ tr₂) = savedCursors tr₁ ++ savedCursors tr₂ :=
  List.filterMap_append

theorem quiet_events (h : ∀ ev ∈ tr, Quiet ev.1) : claimCalls tr = [] ∧ savedCursors tr = [] := by
  unfold claimCalls savedCursors
  rw [List.filterMap_eq_nil_iff, List.filterMap_eq_nil_iff]
  refine ⟨?_, ?_⟩
  · rintro ⟨o, r⟩ hev
    have hq := h _ hev
    cases o <;> first | rfl | exact absurd rfl (hq.1 _ _ _)
  · rintro ⟨o, r⟩ hev
    have hq := h _ hev
    cases o <;> first | rfl | exact absurd rfl (hq.2 _)

theorem quiet_reserveUpTo (limit : Nat) : Prog.Uses Quiet (reserveUpTo limit) := by
  induction limit with
  | zero => exact trivial
  | succ limit ih =>
    refine ⟨by simp [Quiet], fun taken => ?_⟩
    cases taken with
    | true => exact ih.bind fun _ => trivial
    | false => exact trivial

theorem quiet_reserveSlotsWithWait (limit wait : Int) : Prog.Uses Quiet (reserveSlotsWithWait limit wait) := by
  unfold reserveSlotsWithWait
  split
  · exact trivial
  refine (quiet_reserveUpTo _).bind fun reserved => ?_
  split
  · exact trivial
  split
  · exact trivial
  refine ⟨by simp [Quiet], fun taken => ?_⟩
  cases taken with
  | false => exact trivial
  | true =>
    show Prog.Uses Quiet (if 1 < limit then _ else _)
    split
    · exact (quiet_reserveUpTo _).bind fun _ => trivial
    · exact trivial

theorem quiet_topUp (count : Int) (reserved : Nat) : Prog.Uses Quiet (topUp count reserved) := by
  unfold topUp
  split
  · exact trivial
  split
  · exact (quiet_reserveUpTo _).bind fun _ => trivial
  · exact trivial

theorem quiet_reserveForReclaim (count : Int) : Prog.Uses Quiet (reserveForReclaim cfg count) := by
  refine (quiet_reserveUpTo _).bind fun reserved => ?_
  split
  · exact (quiet_reserveSlotsWithWait _ _).bind fun _ => quiet_topUp _ _
  · exact quiet_topUp _ _

theorem quiet_releaseUpTo (count : Nat) : Prog.Uses Quiet (releaseUpTo count) := by
  induction count with
  | zero => exact trivial
  | succ count ih =>
    refine ⟨by simp [Quiet], fun sent => ?_⟩
    cases sent with
    | true => exact ih
    | false => exact trivial

theorem quiet_startHandlers (wg : Nat) (messages : List String) :
    Prog.Uses Quiet (startHandlers wg true messages) := by
  induction messages with
  | nil => exact trivial
  | cons message rest ih => exact ⟨by simp [Quiet], fun _ => ⟨by simp [Quiet], fun _ => ih⟩⟩

theorem quiet_handOut (wg reserved : Nat) (messages : List String) :
    Prog.Uses Quiet (handOut wg true reserved messages) := by
  refine (quiet_startHandlers wg messages).bind fun _ => ?_
  simp only
  split
  · exact quiet_releaseUpTo _
  · exact trivial

/-- Nothing reserved means that no slot was free. -/
theorem gotSlot_reserveUpTo {limit : Nat} (h : (reserveUpTo limit).Runs tr 0) : ¬ GotSlot tr := by
  cases limit with
  | zero =>
    obtain ⟨rfl, _⟩ := Prog.runs_ret.mp h
    simp [GotSlot]
  | succ limit =>
    obtain ⟨taken, tr', rfl, hrest⟩ := Prog.runs_perform_bind.mp h
    cases taken with
    | true =>
      have hmore : (reserveUpTo limit >>= fun reserved => .ret (reserved + 1)).Runs tr' 0 := hrest
      obtain ⟨_, _, reserved, _, _, hret⟩ := Prog.runs_bind.mp hmore
      have hzero := (Prog.runs_ret.mp hret).2
      omega
    | false =>
      have hnone : (Prog.ret 0 : Program Nat).Runs tr' 0 := hrest
      obtain ⟨rfl, _⟩ := Prog.runs_ret.mp hnone
      simp [GotSlot]

theorem not_gotSlot_append (h₁ : ¬ GotSlot tr₁) (h₂ : ¬ GotSlot tr₂) : ¬ GotSlot (tr₁ ++ tr₂) := by
  unfold GotSlot at *
  simp only [List.mem_append]
  rintro ((h | h) | ⟨wait, h | h⟩)
  · exact h₁ (.inl h)
  · exact h₂ (.inl h)
  · exact h₁ (.inr ⟨wait, h⟩)
  · exact h₂ (.inr ⟨wait, h⟩)

theorem gotSlot_reserveSlotsWithWait {limit wait : Int}
    (h : (reserveSlotsWithWait limit wait).Runs tr 0) : ¬ GotSlot tr := by
  have hnil : ¬ GotSlot [] := by simp [GotSlot]
  unfold reserveSlotsWithWait at h
  by_cases hlimit : limit ≤ 0
  · rw [if_pos hlimit] at h
    obtain ⟨rfl, _⟩ := Prog.runs_ret.mp h
    exact hnil
  rw [if_neg hlimit] at h
  obtain ⟨tr₁, tr₂, reserved, rfl, hfirst, h⟩ := Prog.runs_bind.mp h
  by_cases hpos : reserved > 0
  · rw [if_pos hpos] at h
    have hzero := (Prog.runs_ret.mp h).2
    omega
  rw [if_neg hpos] at h
  obtain rfl : reserved = 0 := by omega
  refine not_gotSlot_append (gotSlot_reserveUpTo hfirst) ?_
  by_cases hwait : wait ≤ 0
  · rw [if_pos hwait] at h
    obtain ⟨rfl, _⟩ := Prog.runs_ret.mp h
    exact hnil
  rw [if_neg hwait] at h
  obtain ⟨taken, tr', rfl, hrest⟩ := Prog.runs_perform_bind.mp h
  cases taken with
  | false =>
    have hnone : (Prog.ret 0 : Program Nat).Runs tr' 0 := hrest
    obtain ⟨rfl, _⟩ := Prog.runs_ret.mp hnone
    simp [GotSlot]
  | true =>
    -- with the slot that was waited for, something is reserved
    have hmore : (if 1 < limit then reserveSlots (limit - 1) >>= fun more => .ret (1 + more)
      else .ret 1 : Program Nat).Runs tr' 0 := hrest
    by_cases hone : 1 < limit
    · rw [if_pos hone] at hmore
      obtain ⟨_, _, more, _, _, hret⟩ := Prog.runs_bind.mp hmore
      have hzero := (Prog.runs_ret.mp hret).2
      omega
    · rw [if_neg hone] at hmore
      have hzero := (Prog.runs_ret.mp hmore).2
      omega

theorem gotSlot_topUp {count : Int} {reserved : Nat} (h : (topUp count reserved).Runs tr 0) :
    reserved = 0 ∧ tr = [] := by
  unfold topUp at h
  by_cases hzero : reserved = 0
  · rw [if_pos hzero] at h
    exact ⟨hzero, (Prog.runs_ret.mp h).1⟩
  rw [if_neg hzero] at h
  by_cases hless : (reserved : Int) < count
  · rw [if_pos hless] at h
    obtain ⟨_, _, more, _, _, hret⟩ := Prog.runs_bind.mp h
    have hsum := (Prog.runs_ret.mp hret).2
    omega
  · rw [if_neg hless] at h
    exact absurd (Prog.runs_ret.mp h).2 hzero

theorem gotSlot_reserveForReclaim {count : Int} (h : (reserveForReclaim cfg count).Runs tr 0) :
    ¬ GotSlot tr := by
  obtain ⟨tr₁, tr₂, reserved, rfl, hfirst, h⟩ := Prog.runs_bind.mp h
  by_cases hzero : reserved = 0
  · rw [if_pos hzero] at h
    subst hzero
    obtain ⟨tr₃, tr₄, waited, rfl, hwait, h⟩ := Prog.runs_bind.mp h
    obtain ⟨rfl, rfl⟩ := gotSlot_topUp h
    rw [List.append_nil]
    exact not_gotSlot_append (gotSlot_reserveUpTo hfirst) (gotSlot_reserveSlotsWithWait hwait)
  · rw [if_neg hzero] at h
    exact absurd (gotSlot_topUp h).1 hzero

theorem handsOut_startHandlers {wg : Nat} {messages : List String}
    (h : (startHandlers wg true messages).Runs tr ()) : ∀ m ∈ messages, HandsOut tr m := by
  induction messages generalizing tr with
  | nil => simp
  | cons message rest ih =>
    obtain ⟨_, tr₁, rfl, hadd⟩ := Prog.runs_perform_bind.mp h
    have hgo : (op (.go (.handler wg true message)) >>= fun _ => startHandlers wg true rest).Runs tr₁ () := hadd
    obtain ⟨_, tr₂, rfl, hrest⟩ := Prog.runs_perform_bind.mp hgo
    intro m hm
    rcases List.mem_cons.mp hm with rfl | hm
    · exact ⟨wg, List.mem_cons_of_mem _ List.mem_cons_self⟩
    · obtain ⟨wg', hev⟩ := ih hrest m hm
      exact ⟨wg', List.mem_cons_of_mem _ (List.mem_cons_of_mem _ hev)⟩

/-- All messages are handed out. -/
theorem handsOut_handOut {wg reserved : Nat} {messages : List String}
    (h : (handOut wg true reserved messages).Runs tr ()) : ∀ m ∈ messages, HandsOut tr m := by
  obtain ⟨tr₁, tr₂, _, rfl, hstart, _⟩ := Prog.runs_bind.mp h
  intro m hm
  obtain ⟨wg', hev⟩ := handsOut_startHandlers hstart m hm
  exact ⟨wg', List.mem_append_left _ hev⟩

theorem savedCursors_advance {next : String} (h : (advance next).Runs tr ()) :
    claimCalls tr = [] ∧ savedCursors tr = if next ≠ "" then [next] else [] := by
  unfold advance at h
  by_cases hne : next ≠ ""
  · rw [if_pos hne] at h ⊢
    rw [Prog.runs_perform.mp h]
    exact ⟨rfl, rfl⟩
  · rw [if_neg hne] at h ⊢
    obtain ⟨rfl, _⟩ := Prog.runs_ret.mp h
    exact ⟨rfl, rfl⟩

/-- Nothing was claimed: the slots go back, the next id is saved, and the tick ends. -/
theorem empty_reply_spec {reserved : Nat} {nextID : String}
    (h : (releaseSlots reserved >>= fun _ => advance nextID >>= fun _ => .ret none).Runs tr res) :
    claimCalls tr = [] ∧ savedCursors tr = (if nextID ≠ "" then [nextID] else []) ∧ res = none := by
  obtain ⟨tr₁, tr₂, _, rfl, hrelease, hrest⟩ := Prog.runs_bind.mp h
  obtain ⟨tr₃, tr₄, _, rfl, hadvance, hret⟩ := Prog.runs_bind.mp hrest
  obtain ⟨rfl, rfl⟩ := Prog.runs_ret.mp hret
  have hq := quiet_events (hrelease.uses (quiet_releaseUpTo _))
  have ha := savedCursors_advance hadvance
  rw [List.append_nil]
  refine ⟨?_, ?_, rfl⟩
  · rw [claimCalls_append, hq.1, ha.1]
    rfl
  · rw [savedCursors_append, hq.2, ha.2]
    rfl

/-- After a batch the tick goes on from the next id only, and never from the end of the list. -/
theorem goes_on_spec {reserved found : Nat} {nextID : String}
    (h : (if nextID = "" ∨ nextID = "0-0" ∨ nextID = startID then .ret none
      else if (found : Int) < reserved then .ret none
      else .ret (some nextID) : Program (Option String)).Runs tr res) :
    tr = [] ∧ ∀ r, res = some r → r = nextID ∧ nextID ≠ "0-0" := by
  by_cases hstop : nextID = "" ∨ nextID = "0-0" ∨ nextID = startID
  · rw [if_pos hstop] at h
    obtain ⟨rfl, rfl⟩ := Prog.runs_ret.mp h
    exact ⟨rfl, by simp⟩
  rw [if_neg hstop] at h
  rw [not_or, not_or] at hstop
  by_cases hshort : (found : Int) < reserved
  · rw [if_pos hshort] at h
    obtain ⟨rfl, rfl⟩ := Prog.runs_ret.mp h
    exact ⟨rfl, by simp⟩
  · rw [if_neg hshort] at h
    obtain ⟨rfl, rfl⟩ := Prog.runs_ret.mp h
    refine ⟨rfl, ?_⟩
    rintro _ ⟨⟩
    exact ⟨rfl, hstop.2.1⟩

/-- A batch is handed out whole, and only then is the next id saved. -/
theorem batch_spec {reserved : Nat} {msgs : List String} {nextID : String}
    (h : (op .newGroup >>= fun wg => handOut wg true reserved msgs >>= fun _ =>
      op (.waitGroup wg) >>= fun _ => advance nextID >>= fun _ =>
      if nextID = "" ∨ nextID = "0-0" ∨ nextID = startID then .ret none
      else if (msgs.length : Int) < reserved then .ret none
      else .ret (some nextID) : Program (Option String)).Runs tr res) :
    claimCalls tr = [] ∧ savedCursors tr = (if nextID ≠ "" then [nextID] else []) ∧
      (∀ m ∈ msgs, HandsOut tr m) ∧ ∀ r, res = some r → r = nextID ∧ nextID ≠ "0-0" := by
  obtain ⟨wg, tr₁, rfl, hafter⟩ := Prog.runs_perform_bind.mp h
  obtain ⟨tr₂, tr₃, _, rfl, hhand, hrest⟩ := Prog.runs_bind.mp hafter
  obtain ⟨_, tr₄, rfl, hwait⟩ := Prog.runs_perform_bind.mp hrest
  obtain ⟨tr₅, tr₆, _, rfl, hadvance, hend⟩ := Prog.runs_bind.mp hwait
  obtain ⟨rfl, hgoes⟩ := goes_on_spec hend
  have hq := quiet_events (hhand.uses (quiet_handOut _ _ _))
  have ha := savedCursors_advance hadvance
  rw [List.append_nil]
  refine ⟨?_, ?_, ?_, hgoes⟩
  · show claimCalls (tr₂ ++ _) = []
    rw [claimCalls_append, hq.1]
    exact ha.1
  · show savedCursors (tr₂ ++ _) = _
    rw [savedCursors_append, hq.2]
    exact ha.2
  · intro m hm
    obtain ⟨wg', hev⟩ := handsOut_handOut hhand m hm
    exact ⟨wg', List.mem_cons_of_mem _ (List.mem_append_left _ hev)⟩

/-- A turn of `reclaimOnce` makes no call if no slot is free; and else one, from its start id. It
then saves the next id, and goes on from there only if that is not the end. -/
theorem reclaimTurn_spec (h : (reclaimTurn cfg startID).Runs tr res) :
    (¬ GotSlot tr ∧ claimCalls tr = [] ∧ savedCursors tr = [] ∧ res = none) ∨
      ∃ count reply, claimCalls tr = [⟨minIdle cfg, startID, count, reply⟩] ∧
        match reply with
        | .error _ => res = none
        | .ok (msgs, nextID) => savedCursors tr = (if nextID ≠ "" then [nextID] else []) ∧
          (∀ m ∈ msgs, HandsOut tr m) ∧ ∀ r, res = some r → r = nextID ∧ nextID ≠ "0-0" := by
  unfold reclaimTurn at h
  obtain ⟨tr₁, tr₂, reserved, rfl, hreserve, h⟩ := Prog.runs_bind.mp h
  have hquiet := quiet_events (hreserve.uses (quiet_reserveForReclaim _))
  by_cases hzero : reserved = 0
  · rw [if_pos hzero] at h
    subst hzero
    obtain ⟨rfl, rfl⟩ := Prog.runs_ret.mp h
    rw [List.append_nil]
    exact .inl ⟨gotSlot_reserveForReclaim hreserve, hquiet.1, hquiet.2, rfl⟩
  right
  rw [if_neg hzero] at h
  obtain ⟨reply, tr₃, rfl, hreply⟩ := Prog.runs_perform_bind.mp h
  have hcalls : ∀ tr, claimCalls tr = [] →
      claimCalls (tr₁ ++ ⟨.autoClaim (minIdle cfg) startID reserved, reply⟩ :: tr) =
        [⟨minIdle cfg, startID, reserved, reply⟩] := by
    intro tr htr
    rw [claimCalls_append, hquiet.1]
    show (⟨minIdle cfg, startID, reserved, reply⟩ : ClaimCall) :: claimCalls tr = _
    rw [htr]
  have hsaved : ∀ tr, savedCursors
      (tr₁ ++ ⟨.autoClaim (minIdle cfg) startID reserved, reply⟩ :: tr) = savedCursors tr := by
    intro tr
    rw [savedCursors_append, hquiet.2]
    rfl
  refine ⟨reserved, reply, ?_⟩
  cases reply with
  | error err =>
    have hfail : (releaseSlots reserved >>= fun _ => .ret none).Runs tr₃ res := hreply
    obtain ⟨tr₄, tr₅, _, rfl, hrelease, hret⟩ := Prog.runs_bind.mp hfail
    obtain ⟨rfl, rfl⟩ := Prog.runs_ret.mp hret
    rw [List.append_nil]
    exact ⟨hcalls tr₄ (quiet_events (hrelease.uses (quiet_releaseUpTo _))).1, rfl⟩
  | ok found =>
    obtain ⟨msgs, nextID⟩ := found
    have hok : (if msgs.length = 0 then _ else _ : Program (Option String)).Runs tr₃ res := hreply
    by_cases hnone : msgs.length = 0
    · rw [if_pos hnone] at hok
      obtain ⟨hno, hcursors, rfl⟩ := empty_reply_spec hok
      refine ⟨hcalls tr₃ hno, (hsaved tr₃).trans hcursors, ?_, by simp⟩
      rw [List.length_eq_zero_iff.mp hnone]
      simp
    · rw [if_neg hnone] at hok
      obtain ⟨hno, hcursors, hall, hgoes⟩ := batch_spec hok
      refine ⟨hcalls tr₃ hno, (hsaved tr₃).trans hcursors, ?_, hgoes⟩
      intro m hm
      obtain ⟨wg, hev⟩ := hall m hm
      exact ⟨wg, List.mem_append_right _ (List.mem_cons_of_mem _ hev)⟩

end Turn

/-! ## Turns and ticks -/

/-- An entry is pending, its entry is in the stream, and nobody has claimed it for the lease and the
grace. -/
def StaysIdle (cfg : ConsumerConfig) (x : Nat) (pel : List PelEntry) : Prop :=
  ∃ e ∈ pel, e.id = x ∧ e.there = true ∧ minIdle cfg ≤ e.idle

section Ticks

variable {cfg : ConsumerConfig} {U : Finset Nat} {x : Nat} {tr : List Event} {trs : List (List Event)}
  {startID nextID lastID saved : String} {good : List PelEntry → Prop}

theorem idText_zero : idText 0 = "0-0" := by decide

theorem claimCalls_length_le {res : Option String} (h : (reclaimTurn cfg startID).Runs tr res) :
    (claimCalls tr).length ≤ 1 := by
  rcases reclaimTurn_spec h with ⟨_, hnone, _⟩ | ⟨_, _, hone, _⟩
  · simp [hnone]
  · simp [hone]

/-- A turn that goes on leaves fewer ids ahead of it. -/
theorem ahead_turn (h : (reclaimTurn cfg startID).Runs tr (some nextID))
    (hans : ∀ c ∈ claimCalls tr, (∃ err, c.reply = .error err) ∨ Answered U good c) :
    ∃ n n', startID = idText n ∧ nextID = idText n' ∧ ahead U n' < ahead U n := by
  rcases reclaimTurn_spec h with ⟨_, _, _, hnone⟩ | ⟨count, reply, hone, hreply⟩
  · cases hnone
  cases reply with
  | error err => cases hreply
  | ok found =>
    obtain ⟨msgs, next⟩ := found
    obtain ⟨rfl, hmore⟩ := hreply.2.2 nextID rfl
    rcases hans _ (by rw [hone]; exact List.mem_cons_self) with ⟨err, herr⟩ | hgood
    · cases herr
    · obtain ⟨pel, start, claimed, n', hstart, hclaims, hU, _, hfound⟩ := hgood
      obtain ⟨-, rfl⟩ := Prod.mk.inj (Except.ok.inj hfound)
      refine ⟨start, n', hstart, rfl, (hclaims.ahead_next hU ?_).2⟩
      rintro rfl
      exact hmore idText_zero

theorem length_going (h : Going cfg startID trs lastID)
    (hans : ∀ tr ∈ trs, ∀ c ∈ claimCalls tr, (∃ err, c.reply = .error err) ∨ Answered U good c) :
    trs = [] ∨ ∃ n, startID = idText n ∧ trs.length ≤ ahead U n := by
  induction h with
  | nil startID => exact .inl rfl
  | @cons startID nextID lastID tr trs hturn _ ih =>
    right
    obtain ⟨n, n', hn, hn', hless⟩ := ahead_turn hturn (hans tr List.mem_cons_self)
    refine ⟨n, hn, ?_⟩
    rw [List.length_cons]
    rcases ih fun tr htr => hans tr (List.mem_cons_of_mem _ htr) with rfl | ⟨m, hm, hlen⟩
    · simp only [List.length_nil]
      omega
    · obtain rfl := idText_inj (hn'.symm.trans hm)
      omega

/-- A tick makes no more calls than there are ids, and one. -/
theorem length_claimCalls_turns (h : Turns cfg startID tr)
    (hans : ∀ c ∈ claimCalls tr, (∃ err, c.reply = .error err) ∨ Answered U good c) :
    (claimCalls tr).length ≤ 1 ∨ ∃ n, startID = idText n ∧ (claimCalls tr).length ≤ ahead U n + 1 := by
  induction h with
  | last hturn => exact .inl (claimCalls_length_le hturn)
  | @again startID nextID tr tr' hturn _ ih =>
    right
    rw [claimCalls_append] at hans ⊢
    have hone := claimCalls_length_le hturn
    obtain ⟨n, n', hn, hn', hless⟩ := ahead_turn hturn fun c hc => hans c (List.mem_append_left _ hc)
    refine ⟨n, hn, ?_⟩
    rw [List.length_append]
    rcases ih fun c hc => hans c (List.mem_append_right _ hc) with hlen | ⟨m, hm, hlen⟩
    · omega
    · obtain rfl := idText_inj (hn'.symm.trans hm)
      omega

/-- A turn that makes a call saves its next id, and that is nearer to an idle entry which the turn
does not hand out. -/
theorem nearer_turn {res : Option String} (h : (reclaimTurn cfg startID).Runs tr res)
    (hans : ∀ c ∈ claimCalls tr, Answered U (StaysIdle cfg x) c) (hnot : ¬ HandsOut tr (idText x)) :
    (¬ GotSlot tr ∧ savedCursors tr = [] ∧ res = none) ∨
      ∃ n n', startID = idText n ∧ savedCursors tr = [idText n'] ∧ (∀ r, res = some r → r = idText n') ∧
        distance U x n' < distance U x n := by
  rcases reclaimTurn_spec h with ⟨hslot, _, hsaved, hnone⟩ | ⟨count, reply, hone, hreply⟩
  · exact .inl ⟨hslot, hsaved, hnone⟩
  right
  obtain ⟨pel, start, claimed, next, hstart, hclaims, hU, hidle, hfound⟩ :=
    hans _ (by rw [hone]; exact List.mem_cons_self)
  simp only at hfound
  subst hfound
  obtain ⟨hsaved, hhands, hgoes⟩ := hreply
  obtain ⟨e, he, rfl, hthere, hlong⟩ := hidle
  rw [if_pos (idText_ne_empty next)] at hsaved
  refine ⟨start, next, hstart, hsaved, fun r hr => (hgoes r hr).1, ?_⟩
  refine hclaims.nearer hU he ?_ fun hclaimed => hnot (hhands _ (List.mem_map_of_mem hclaimed))
  simp [PelEntry.claimable, hthere, hlong]

theorem nearer_turns (h : Turns cfg startID tr)
    (hans : ∀ c ∈ claimCalls tr, Answered U (StaysIdle cfg x) c) (hnot : ¬ HandsOut tr (idText x)) :
    (¬ GotSlot tr ∧ savedCursors tr = []) ∨
      ∃ n n', startID = idText n ∧ (savedCursors tr).getLast? = some (idText n') ∧
        distance U x n' < distance U x n := by
  induction h with
  | last hturn =>
    rcases nearer_turn hturn hans hnot with ⟨hslot, hsaved, _⟩ | ⟨n, n', hn, hsaved, _, hless⟩
    · exact .inl ⟨hslot, hsaved⟩
    · exact .inr ⟨n, n', hn, by rw [hsaved]; rfl, hless⟩
  | @again startID nextID tr tr' hturn _ ih =>
    right
    rw [claimCalls_append] at hans
    have hfirst : ¬ HandsOut tr (idText x) := fun ⟨wg, hev⟩ => hnot ⟨wg, List.mem_append_left _ hev⟩
    have hrest : ¬ HandsOut tr' (idText x) := fun ⟨wg, hev⟩ => hnot ⟨wg, List.mem_append_right _ hev⟩
    rcases nearer_turn hturn (fun c hc => hans c (List.mem_append_left _ hc)) hfirst with
      ⟨_, _, hnone⟩ | ⟨n, n', hn, hsaved, hgoes, hless⟩
    · cases hnone
    rw [savedCursors_append, hsaved]
    rcases ih (fun c hc => hans c (List.mem_append_right _ hc)) hrest with
      ⟨_, hsaved'⟩ | ⟨m, m', hm, hsaved', hless'⟩
    · refine ⟨n, n', hn, ?_, hless⟩
      rw [hsaved']
      rfl
    · obtain rfl := idText_inj ((hgoes nextID rfl).symm.trans hm)
      refine ⟨n, m', hn, ?_, hless'.trans hless⟩
      rw [List.getLast?_append, hsaved']
      rfl

/-- Tick after tick the cursor comes nearer to an idle entry that is not handed out. -/
theorem length_ticks (h : Ticks cfg saved trs)
    (hans : ∀ tr ∈ trs, GotSlot tr ∧ ∀ c ∈ claimCalls tr, Answered U (StaysIdle cfg x) c)
    (hnot : ∀ tr ∈ trs, ¬ HandsOut tr (idText x)) :
    trs = [] ∨ ∃ n, startIDOf saved = idText n ∧ trs.length ≤ distance U x n := by
  induction h with
  | nil saved => exact .inl rfl
  | @cons saved tr trs hturns _ ih =>
    right
    obtain ⟨hslot, hcalls⟩ := hans tr List.mem_cons_self
    rcases nearer_turns hturns hcalls (hnot tr List.mem_cons_self) with
      ⟨hnone, _⟩ | ⟨n, n', hn, hsaved, hless⟩
    · exact absurd hslot hnone
    refine ⟨n, hn, ?_⟩
    rw [List.length_cons]
    rcases ih (fun tr htr => hans tr (List.mem_cons_of_mem _ htr))
      (fun tr htr => hnot tr (List.mem_cons_of_mem _ htr)) with rfl | ⟨m, hm, hlen⟩
    · simp only [List.length_nil]
      omega
    · -- the next tick starts where this one ended
      rw [List.getLastD_eq_getLast?, hsaved, Option.getD_some, startIDOf, if_neg (trimSpace_idText n')] at hm
      obtain rfl := idText_inj hm
      omega

end Ticks

/-- A consumer with one slot. -/
def singleSlot : ConsumerConfig :=
  { poolSize := 1, jobStreamReadCount := 1, jobStreamBlockMs := 1, jobReclaimCount := 1
    jobLeaseSec := 60, jobReclaimGraceSec := 5, backpressureSleepMs := 1 }

/-- A tick that claims the one entry `0-5`. -/
def singleTick : List Event :=
  [⟨.recvSlot, true⟩, ⟨.autoClaim 65 "0-0" 1, .ok (["0-5"], "0-0")⟩, ⟨.newGroup, (0 : Nat)⟩, ⟨.addGroup 0, ()⟩,
    ⟨.go (.handler 0 true "0-5"), ()⟩, ⟨.waitGroup 0, ()⟩, ⟨.setReclaimNextStartID "0-0", ()⟩]

theorem runs_singleTick : (reclaimTurn singleSlot "0-0").Runs singleTick none := by
  have hreserve : (reserveForReclaim singleSlot 1).Runs [⟨.recvSlot, true⟩] 1 := by
    refine Prog.runs_bind.mpr ⟨[⟨.recvSlot, true⟩], [], 1, rfl, ?_, .ret 1⟩
    exact Prog.runs_perform_bind.mpr ⟨true, [], rfl, .ret 1⟩
  refine Prog.runs_bind.mpr ⟨[⟨.recvSlot, true⟩], singleTick.tail, 1, rfl, hreserve, ?_⟩
  refine Prog.runs_perform_bind.mpr ⟨.ok (["0-5"], "0-0"), singleTick.tail.tail, rfl, ?_⟩
  refine Prog.runs_perform_bind.mpr ⟨(0 : Nat), singleTick.drop 3, rfl, ?_⟩
  refine Prog.runs_bind.mpr ⟨[⟨.addGroup 0, ()⟩, ⟨.go (.handler 0 true "0-5"), ()⟩], singleTick.drop 5, (), rfl, ?_, ?_⟩
  · refine Prog.runs_perform_bind.mpr ⟨(), [⟨.go (.handler 0 true "0-5"), ()⟩], rfl, ?_⟩
    exact Prog.runs_perform_bind.mpr ⟨(), [], rfl, .ret ()⟩
  · refine Prog.runs_perform_bind.mpr ⟨(), singleTick.drop 6, rfl, ?_⟩
    exact Prog.runs_perform_bind.mpr ⟨(), [], rfl, .ret none⟩

end DeepOj.Worker.Slots
