import DeepOj.Repository.Submission
import Mathlib.Data.Rat.Defs
import Mathlib.Data.List.Sort
import Mathlib.Algebra.Order.Ring.Unbundled.Rat

/-!
# Tasks and the `outbox_events` table

The outbox carries one enqueue event per submission. A dispatcher claims a batch
of pending events, which pushes their next attempt into the future, and later
marks each of them delivered or records an error.
-/

namespace DeepOj.Repository

/-- The task handed to the worker (`pb.TaskRequest`). -/
structure TaskRequest where
  jobID : String
  code : String
  language : Int
  timeLimit : Int
  memoryLimit : Int
  cacheKey : String
  submitTime : Nat
  problemID : Nat
  traceID : String
  deriving DecidableEq, Repr

/-- A row of `outbox_events`; its id is its position in the table. -/
structure OutboxEvent where
  jobID : String
  enqueueTS : Int
  priority : Int
  payload : TaskRequest
  status : String
  attempts : Nat
  nextAttemptAt : Nat
  lastError : Option String
  dispatchedAt : Option Nat
  streamEntryID : Option Nat
  deriving DecidableEq, Repr

/-- `OutboxStatusPending`. -/
def outboxStatusPending : String := "pending"

/-- `OutboxStatusDelivered`. -/
def outboxStatusDelivered : String := "delivered"

namespace OutboxEvent

/-- The event still waits to be delivered. -/
def Undelivered (e : OutboxEvent) : Prop := e.status = outboxStatusPending ∧ e.dispatchedAt = none

instance (e : OutboxEvent) : Decidable e.Undelivered :=
  inferInstanceAs (Decidable (_ ∧ _))

/-- The event has been delivered. -/
def Delivered (e : OutboxEvent) : Prop := e.status = outboxStatusDelivered ∧ e.dispatchedAt ≠ none

/-- The event can be claimed at `now`. -/
def Claimable (e : OutboxEvent) (now : Nat) : Prop := e.Undelivered ∧ e.nextAttemptAt ≤ now

instance (e : OutboxEvent) (now : Nat) : Decidable (e.Claimable now) :=
  inferInstanceAs (Decidable (_ ∧ _))

end OutboxEvent

/-- The batch size `ClaimPendingOutboxEvents` uses. -/
def claimLimit (limit : Int) : Nat := (if limit ≤ 0 then 32 else limit).toNat

/-- The base and the cap of the backoff, in milliseconds, as
`ClaimPendingOutboxEvents` derives them from the configured ones. -/
def backoffBounds (baseMs maxMs : Int) : Nat × Nat :=
  let base := if baseMs ≤ 0 then 500 else baseMs
  let cap := if maxMs ≤ 0 then 30000 else maxMs
  (base.toNat, (if cap < base then base else cap).toNat)

/-- The delay of the claim statement, in milliseconds: exponential in the attempts
made, within ten percent of jitter `r`, capped. -/
def backoffMs (base cap attempts : Nat) (r : ℚ) : Nat :=
  let grown : ℚ := min ((base : ℚ) * 2 ^ min attempts 30) cap
  let ms : ℚ := min (cap : ℚ) (max 1 (grown * (9 / 10 + r * (1 / 5))))
  (ms + 1 / 2).floor.toNat

/-- The claim of one event. -/
def claimOutboxEvent (now base cap : Nat) (r : ℚ) (e : OutboxEvent) : OutboxEvent :=
  { e with
    attempts := e.attempts + 1
    nextAttemptAt := now + backoffMs base cap e.attempts r * 1000 }

/-- The ids of the events a claim statement picks: the claimable ones that no
concurrent claim has locked, the longest due first. -/
def pickOutbox (now limit : Nat) (locked : List Nat) (events : List OutboxEvent) : List Nat :=
  let due := events.zipIdx.filter fun p => decide (p.1.Claimable now) && !locked.contains p.2
  let ordered := due.insertionSort fun p q =>
    p.1.nextAttemptAt < q.1.nextAttemptAt ∨ (p.1.nextAttemptAt = q.1.nextAttemptAt ∧ p.2 ≤ q.2)
  (ordered.map (·.2)).take limit

/-- `MarkOutboxDispatched`. The statement does not look at the status it replaces. -/
def markOutboxDispatched (now streamEntryID : Nat) (e : OutboxEvent) : OutboxEvent :=
  { e with
    status := outboxStatusDelivered
    lastError := none
    dispatchedAt := some now
    streamEntryID := some streamEntryID }

/-- `MarkOutboxDispatchError`. -/
def markOutboxDispatchError (lastError : String) (e : OutboxEvent) : OutboxEvent :=
  if e.dispatchedAt = none then
    { e with status := outboxStatusPending, lastError := some lastError }
  else e

/-! ## Claims -/

/-- A claim statement picks claimable events that are not locked. -/
theorem of_mem_pickOutbox {now limit i : Nat} {locked : List Nat} {events : List OutboxEvent}
    (h : i ∈ pickOutbox now limit locked events) :
    i ∉ locked ∧ ∃ e, events[i]? = some e ∧ e.Claimable now := by
  unfold pickOutbox at h
  obtain ⟨p, hp, rfl⟩ := List.mem_map.mp (List.mem_of_mem_take h)
  have hdue := (List.perm_insertionSort _ _).mem_iff.mp hp
  obtain ⟨hin, hpick⟩ := List.mem_filter.mp hdue
  obtain ⟨hclaimable, hfree⟩ := Bool.and_eq_true_iff.mp hpick
  refine ⟨by simpa using hfree, p.1, ?_, of_decide_eq_true hclaimable⟩
  exact List.mk_mem_zipIdx_iff_getElem?.mp hin

/-- With room for all events, it picks every claimable one that is not locked. -/
theorem mem_pickOutbox {now limit i : Nat} {locked : List Nat} {events : List OutboxEvent} {e : OutboxEvent}
    (he : events[i]? = some e) (hclaimable : e.Claimable now) (hfree : i ∉ locked)
    (hroom : events.length ≤ limit) : i ∈ pickOutbox now limit locked events := by
  unfold pickOutbox
  rw [List.take_of_length_le]
  · refine List.mem_map.mpr ⟨(e, i), ?_, rfl⟩
    refine (List.perm_insertionSort _ _).mem_iff.mpr (List.mem_filter.mpr ⟨?_, ?_⟩)
    · exact List.mk_mem_zipIdx_iff_getElem?.mpr he
    · exact Bool.and_eq_true_iff.mpr ⟨decide_eq_true hclaimable, by simpa using hfree⟩
  · rw [List.length_map, (List.perm_insertionSort _ _).length_eq]
    refine (List.length_filter_le _ _).trans ?_
    rwa [List.length_zipIdx]

/-! ## Marks -/

/-- What is delivered is not recorded as an error any more. -/
theorem markOutboxDispatchError_delivered {e : OutboxEvent} (h : e.Delivered) (lastError : String) :
    markOutboxDispatchError lastError e = e := if_neg h.2

theorem delivered_markOutboxDispatched (now streamEntryID : Nat) (e : OutboxEvent) :
    (markOutboxDispatched now streamEntryID e).Delivered := ⟨rfl, Option.some_ne_none now⟩

theorem not_claimable_of_delivered {e : OutboxEvent} (h : e.Delivered) (now : Nat) : ¬e.Claimable now :=
  fun hc => h.2 hc.1.2

theorem markOutboxDispatchError_nextAttemptAt (lastError : String) (e : OutboxEvent) :
    (markOutboxDispatchError lastError e).nextAttemptAt = e.nextAttemptAt := by
  unfold markOutboxDispatchError
  split <;> rfl

theorem markOutboxDispatchError_jobID (lastError : String) (e : OutboxEvent) :
    (markOutboxDispatchError lastError e).jobID = e.jobID := by
  unfold markOutboxDispatchError
  split <;> rfl

end DeepOj.Repository
