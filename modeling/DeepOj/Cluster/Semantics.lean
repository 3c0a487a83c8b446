import DeepOj.Cluster.World

/-!
# The meaning of one effect

The servers execute a request atomically. The answer can be lost on the way back
(the request took effect, the caller sees an error), and the request can fail
before it takes effect.
-/

namespace DeepOj.Cluster

open Repository Go

/-- What an effect leaves to the environment. -/
structure Chance where
  /-- The reading of the process clock. -/
  now : Nat := 0
  uuid : String := ""
  outcome : JudgeOutcome := .busy ""
  /-- A `select` sees the ticker rather than the context. -/
  tick : Bool := false
  /-- The worker itself is shutting down. -/
  stopping : Bool := false
  /-- The rate limiter lets the request pass. -/
  allowed : Bool := true
  testcaseHash : String := ""
  /-- The random part of the backoff of an outbox event. -/
  jitter : Nat → ℚ := fun _ => 0
  /-- The outbox rows a concurrent claim holds locked. -/
  locked : List Nat := []

/-- How an effect ends. -/
inductive Fate where
  | ok (ch : Chance)
  | failed (msg : String)
  | lost (ch : Chance) (msg : String)

/-- The text of a UUID is not blank and has no blanks around it. -/
def UUIDText (s : String) : Prop := s ≠ "" ∧ trimSpace s = s

instance (s : String) : Decidable (UUIDText s) := inferInstanceAs (Decidable (_ ∧ _))

namespace World

/-- The history entry of an `UPDATE` that took effect. -/
def recordUpdate (w : World) (jobID : String) (op : RowOp) (via : Option Nat) (v : Nat) : World :=
  match op with
  | .claim leaseOwner _ => w.record (.started jobID v leaseOwner via)
  | .reclaim leaseOwner _ => w.record (.started jobID v leaseOwner via)
  | .finalize attemptID _ status result => w.record (.finalized jobID attemptID status result)
  | _ => w

/-- The jobs that have a row. -/
def jobs (w : World) : List String :=
  w.log.filterMap fun
    | .created j _ => some j
    | _ => none

/-- `CountActiveSubmissions`. -/
def activeSubmissions (w : World) : Nat :=
  (w.jobs.filter fun j =>
    match w.submissions j with
    | some s => s.state = "pending" || s.state = "processing"
    | none => false).length

/-- The history entry of an `UPDATE` that had no effect. -/
def recordSkip (w : World) (jobID : String) : RowOp → World
  | .updateResult _ _ => w.record (.skipped jobID)
  | _ => w

/-- The history entry of a read. -/
def recordGet (w : World) (reader : Reader) (k : RedisKey) : World :=
  match reader, k.name, w.redis k with
  | .api, .result jobID, some (.result m) => w.record (.served jobID m)
  | _, _, _ => w

/-- A new row, with the timestamps the table defaults to. -/
def insertRow (w : World) (s : Submission) (origin : Origin) : World :=
  (w.setRow s.jobID { s with createdAt := w.dbNow, updatedAt := w.dbNow }).record
    (.created s.jobID origin)

/-- The claimed events, each pushed back by its backoff. -/
def claimOutbox (w : World) (base cap : Nat) (jitter : Nat → ℚ) (ids : List Nat) : World :=
  w.setOutbox ids fun i => claimOutboxEvent w.dbNow base cap (jitter i)

/-- Acknowledge an entry; only a pending entry is affected. -/
def xack (w : World) (i : Nat) : World :=
  match w.stream[i]? with
  | some ⟨_, .pending _ _⟩ => w.setDelivery i .acked
  | _ => w

end World

/-- The text of a unique constraint violation. -/
def duplicateKey : String := "duplicate key value violates unique constraint"

/-- The servers' execution of a request. -/
def serve (w : World) (ch : Chance) : (q : Request) → World × Except String q.Response
  | .update jobID op via =>
    match w.submissions jobID with
    | none => (w.recordSkip jobID op, .ok none)
    | some s =>
      match op.exec w.dbNow s with
      | none => (w.recordSkip jobID op, .ok none)
      | some (s', v) => ((w.setRow jobID s').recordUpdate jobID op via v, .ok (some v))
  | .select jobID purpose =>
    match purpose with
    | .reclaimInspect => (w.record (.inspected jobID (w.submissions jobID)), .ok (w.submissions jobID))
    | _ => (w, .ok (w.submissions jobID))
  | .insert s origin =>
    match w.submissions s.jobID with
    | some _ => (w, .error duplicateKey)
    | none => (w.insertRow s origin, .ok ())
  | .insertWithOutbox s event =>
    if (w.submissions s.jobID).isSome ∨ w.outbox.any (fun e => e.jobID = event.jobID) = true then
      (w, .error duplicateKey)
    else
      let w' := w.insertRow s .outbox
      ({ w' with outbox := w'.outbox ++ [{ event with attempts := 0, nextAttemptAt := w.dbNow }] },
        .ok w.outbox.length)
  | .countActive => (w, .ok w.activeSubmissions)
  | .getProblem _ => (w, .ok ch.testcaseHash)
  | .claimOutbox limit baseMs maxMs =>
    let (base, cap) := backoffBounds baseMs maxMs
    let ids := pickOutbox w.dbNow (claimLimit limit) ch.locked w.outbox
    let w' := w.claimOutbox base cap ch.jitter ids
    (w', .ok (ids.filterMap fun i => (w'.outbox[i]?).map fun e => (i, e)))
  | .markDispatched eventID streamEntryID =>
    (w.setOutbox [eventID] fun _ => markOutboxDispatched w.dbNow streamEntryID, .ok ())
  | .markDispatchError eventID lastError =>
    (w.setOutbox [eventID] fun _ => markOutboxDispatchError lastError, .ok ())
  | .get reader k => (w.recordGet reader k, .ok (w.redis k))
  | .set k v => (w.setKey k (some v), .ok ())
  | .setNX k v =>
    match w.redis k with
    | some _ => (w, .ok false)
    | none => (w.setKey k (some v), .ok true)
  | .del k => (w.setKey k none, .ok ())
  | .xadd values => ({ w with stream := w.stream ++ [⟨values, .fresh⟩] }, .ok w.stream.length)
  | .xack entryID _ => (w.xack entryID, .ok ())

/-- A request that failed before it took effect. -/
def World.drop (w : World) : Request → World
  | .update jobID op _ => w.recordSkip jobID op
  | _ => w

/-- Change one run cell. -/
def World.setCell (w : World) (i : Nat) (f : RunCell → RunCell) : World :=
  { w with cells := w.cells.modify i f }

/-- An action of the own process; `none` while it blocks. -/
def actLocally (w : World) (ch : Chance) : (a : Action) → Option (World × a.Response)
  | .now => some (w, ch.now)
  | .uuid => if UUIDText ch.uuid then some (w, ch.uuid) else none
  | .judge task attemptID => some (w.record (.executed task attemptID ch.outcome), ch.outcome)
  | .newRun => some ({ w with cells := w.cells ++ [⟨false, none⟩] }, w.cells.length)
  | .cancelRun cell => some (w.setCell cell fun c => { c with cancelled := true }, ())
  | .go _ => some (w, ())
  | .selectTick cell =>
    if ch.tick then some (w, true)
    else
      match w.cells[cell]? with
      | some c => if c.cancelled || ch.stopping then some (w, false) else none
      | none => none
  | .sendHeartbeat cell r => some (w.setCell cell fun c => { c with heartbeat := some r }, ())
  | .recvHeartbeat cell =>
    match w.cells[cell]? with
    | some ⟨_, some r⟩ => some (w, r)
    | _ => none
  | .rateLimit => some (w, ch.allowed)
  | .reply rid r => some (w.record (.replied rid r), ())

/-- One effect, ended by `fate`. -/
def perform (w : World) : (e : Effect) → Fate → Option (World × e.Reply)
  | .request q, .ok ch => some (serve w ch q)
  | .request q, .failed msg => some (w.drop q, .error msg)
  | .request q, .lost ch msg => some ((serve w ch q).1, .error msg)
  | .act a, .ok ch => actLocally w ch a
  | .act _, .failed _ => none
  | .act _, .lost _ _ => none

/-! ## What an effect can do -/

/-- A request either is served, with its answer possibly lost, or is dropped. -/
theorem perform_request {w w' : World} {q : Request} {c : Fate}
    {r : Except String q.Response} (h : perform w (.request q) c = some (w', r)) :
    (∃ ch, w' = (serve w ch q).1 ∧ (r = (serve w ch q).2 ∨ ∃ msg, r = .error msg)) ∨
      (w' = w.drop q ∧ ∃ msg, r = .error msg) := by
  cases c with
  | ok ch =>
    have h' := Option.some.inj h
    exact .inl ⟨ch, by rw [h'], .inl (by rw [h'])⟩
  | failed msg =>
    obtain ⟨rfl, rfl⟩ := Prod.mk.inj (Option.some.inj h)
    exact .inr ⟨rfl, msg, rfl⟩
  | lost ch msg =>
    obtain ⟨rfl, rfl⟩ := Prod.mk.inj (Option.some.inj h)
    exact .inl ⟨ch, rfl, .inr ⟨msg, rfl⟩⟩

/-- An action of the own process is resolved by its chance alone. -/
theorem perform_act {w w' : World} {a : Action} {c : Fate} {r : a.Response}
    (h : perform w (.act a) c = some (w', r)) : ∃ ch, actLocally w ch a = some (w', r) := by
  cases c with
  | ok ch => exact ⟨ch, h⟩
  | failed msg => cases h
  | lost ch msg => cases h

/-- An update either takes effect on the row, or leaves it alone. -/
theorem serve_update (w : World) (ch : Chance) (j : String) (op : RowOp) (via : Option Nat) :
    (∃ s s' v, w.submissions j = some s ∧ op.exec w.dbNow s = some (s', v) ∧
      serve w ch (.update j op via) = ((w.setRow j s').recordUpdate j op via v, .ok (some v))) ∨
    ((∀ s, w.submissions j = some s → op.exec w.dbNow s = none) ∧
      serve w ch (.update j op via) = (w.recordSkip j op, .ok none)) := by
  cases hs : w.submissions j with
  | none =>
    refine .inr ⟨fun s h => by simp at h, ?_⟩
    simp only [serve, hs]
  | some s =>
    cases hx : op.exec w.dbNow s with
    | none =>
      refine .inr ⟨fun s' h => by simp at h; exact h ▸ hx, ?_⟩
      simp only [serve, hs, hx]
    | some p =>
      obtain ⟨s', v⟩ := p
      refine .inl ⟨s, s', v, rfl, hx, ?_⟩
      simp only [serve, hs, hx]

end DeepOj.Cluster
