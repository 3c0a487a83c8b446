import DeepOj.Conc.Record
import DeepOj.Go.Strings

/-!
# The consumer's slots

The loop that reads new messages, the loop that reclaims pending ones, and the
handlers both start, down to the single operations on the channel of free slots. A
handler's own work is one effect, since it does not touch the channel.
-/

namespace DeepOj.Worker.Slots

open Go

/-- The part of the configuration the loops read. Times are milliseconds. -/
structure ConsumerConfig where
  poolSize : Int
  jobStreamReadCount : Int
  jobStreamBlockMs : Int
  jobReclaimCount : Int
  jobLeaseSec : Int
  jobReclaimGraceSec : Int
  backpressureSleepMs : Int
  deriving DecidableEq, Repr

/-- `getWorkerConcurrency`. -/
def getWorkerConcurrency (cfg : ConsumerConfig) : Int :=
  if cfg.poolSize < 1 then 1 else cfg.poolSize

/-- The capacity of the channel `newSlotPool` makes and fills. -/
def newSlotPool (size : Int) : Nat := (if size < 1 then 1 else size).toNat

/-- `c.maxConcurrency`, as the capacity of `c.slots`. -/
def maxConcurrency (cfg : ConsumerConfig) : Nat := newSlotPool (getWorkerConcurrency cfg)

/-- A pool has a slot. -/
theorem maxConcurrency_pos (cfg : ConsumerConfig) : 1 ≤ maxConcurrency cfg := by
  unfold maxConcurrency newSlotPool getWorkerConcurrency
  split_ifs <;> omega

/-- How a read of the stream fails. -/
inductive ReadError where
  /-- `context.Canceled` or `context.DeadlineExceeded`. -/
  | cancelled
  /-- `redis.Nil`. -/
  | empty
  | other (err : String)
  deriving DecidableEq, Repr

/-- A goroutine of the consumer. A loop starts its next turn as a goroutine. -/
inductive Routine where
  | run (workerWG : Nat)
  | reclaimLoop
  | reclaim (startID : String)
  | handler (wg : Nat) (reclaimed : Bool) (message : String)
  deriving DecidableEq, Repr

/-- The operations of the goroutines. -/
inductive Op where
  /-- `ctx.Err() != nil`. -/
  | ctxErr
  /-- `select { case <-c.slots: default: }` -/
  | recvSlot
  /-- `select` on the context, a timer and `<-c.slots`. -/
  | waitSlot (wait : Int)
  /-- `select { case c.slots <- struct{}{}: default: }` -/
  | sendSlot
  /-- `select` on the context and a timer. -/
  | pause (wait : Int)
  /-- `select` on the context and the ticker of the reclaim loop. -/
  | tick
  | readNew (count : Nat) (block : Int)
  | autoClaim (minIdle : Int) (startID : String) (count : Nat)
  | getReclaimNextStartID
  | setReclaimNextStartID (next : String)
  | newGroup
  | addGroup (wg : Nat)
  | doneGroup (wg : Nat)
  | waitGroup (wg : Nat)
  /-- `handleMessage` or `handleReclaimedMessage`, to its end. -/
  | handle (reclaimed : Bool) (message : String)
  | go (r : Routine)
  deriving DecidableEq

/-- What an operation returns: for a `select`, whether the case it names was taken;
a `select` on the context and a timer tells whether the context was done. -/
@[reducible] def Op.Reply : Op → Type
  | .ctxErr => Bool
  | .recvSlot => Bool
  | .waitSlot _ => Bool
  | .sendSlot => Bool
  | .pause _ => Bool
  | .tick => Bool
  | .readNew .. => Except ReadError (List (List String))
  | .autoClaim .. => Except ReadError (List String × String)
  | .getReclaimNextStartID => String
  | .setReclaimNextStartID _ => Unit
  | .newGroup => Nat
  | .addGroup _ => Unit
  | .doneGroup _ => Unit
  | .waitGroup _ => Unit
  | .handle .. => Unit
  | .go _ => Unit

/-- Programs of the consumer. -/
abbrev Program (α : Type) : Type := Conc.Prog Op Op.Reply α

/-- Perform one operation. -/
abbrev op (o : Op) : Program o.Reply := Conc.Prog.perform o

/-! ## Taking and giving slots -/

/-- The loop of `reserveSlots`: take slots until one is not free. -/
def reserveUpTo : Nat → Program Nat
  | 0 => pure 0
  | limit + 1 => do
    if ← op .recvSlot then
      let reserved ← reserveUpTo limit
      pure (reserved + 1)
    else pure 0

/-- `reserveSlots`. -/
def reserveSlots (limit : Int) : Program Nat := reserveUpTo limit.toNat

/-- `reserveSlotsWithWait`. -/
def reserveSlotsWithWait (limit wait : Int) : Program Nat := do
  if limit ≤ 0 then pure 0
  else
    let reserved ← reserveSlots limit
    if reserved > 0 then pure reserved
    else if wait ≤ 0 then pure 0
    else if ← op (.waitSlot wait) then
      if 1 < limit then
        let more ← reserveSlots (limit - 1)
        pure (1 + more)
      else pure 1
    else pure 0

/-- The loop of `releaseSlots`: give slots back until the channel is full. -/
def releaseUpTo : Nat → Program Unit
  | 0 => pure ()
  | count + 1 => do
    if ← op .sendSlot then releaseUpTo count
    else pure ()

/-- `releaseSlots`. -/
def releaseSlots (count : Int) : Program Unit := releaseUpTo count.toNat

/-- `reclaimReserveWait`. -/
def reclaimReserveWait (cfg : ConsumerConfig) : Int :=
  let sleep := if cfg.backpressureSleepMs ≤ 0 then 100 else cfg.backpressureSleepMs
  let block := if cfg.jobStreamBlockMs ≤ 0 then 2000 else cfg.jobStreamBlockMs
  if sleep + block > 3000 then 3000 else sleep + block

/-! ## The goroutines -/

/-- The goroutine of one message: the deferred calls run last in, first out. -/
def handleAndRelease (wg : Nat) (reclaimed : Bool) (message : String) : Program Unit := do
  op (.handle reclaimed message)
  releaseSlots 1
  op (.doneGroup wg)

/-- Start one handler for each message. -/
def startHandlers (wg : Nat) (reclaimed : Bool) : List String → Program Unit
  | [] => pure ()
  | message :: rest => do
    op (.addGroup wg)
    op (.go (.handler wg reclaimed message))
    startHandlers wg reclaimed rest

/-- Start the handlers and give back the slots that were reserved for more messages. -/
def handOut (wg : Nat) (reclaimed : Bool) (reserved : Nat) (messages : List String) :
    Program Unit := do
  startHandlers wg reclaimed messages
  let released : Int := reserved - messages.length
  if released > 0 then releaseSlots released
  else pure ()

/-- One turn of the loop of `Run`; `return` runs the deferred `workerWG.Wait`. -/
def runTurn (cfg : ConsumerConfig) (workerWG : Nat) : Program Unit := do
  let readCount := if cfg.jobStreamReadCount ≤ 0 then 16 else cfg.jobStreamReadCount
  let block := if cfg.jobStreamBlockMs ≤ 0 then 2000 else cfg.jobStreamBlockMs
  if ← op .ctxErr then op (.waitGroup workerWG)
  else
    let reserved ← reserveSlots readCount
    if reserved = 0 then
      if ← op (.pause cfg.backpressureSleepMs) then op (.waitGroup workerWG)
      else op (.go (.run workerWG))
    else
      match ← op (.readNew reserved block) with
      | .error err =>
        releaseSlots reserved
        if err = .cancelled then op (.waitGroup workerWG)
        else op (.go (.run workerWG))
      | .ok streams =>
        handOut workerWG false reserved streams.flatten
        op (.go (.run workerWG))

/-- Remember where the next reclaim starts. -/
def advance (nextID : String) : Program Unit :=
  if nextID ≠ "" then op (.setReclaimNextStartID nextID) else pure ()

/-- Top a reservation up to `count`; without a slot the turn ends. -/
def topUp (count : Int) (reserved : Nat) : Program Nat := do
  if reserved = 0 then pure 0
  else if reserved < count then
    let more ← reserveSlots (count - reserved)
    pure (reserved + more)
  else pure reserved

/-- The slots a turn of `reclaimOnce` reserves: it waits for a first one. -/
def reserveForReclaim (cfg : ConsumerConfig) (count : Int) : Program Nat := do
  let reserved ← reserveSlots count
  if reserved = 0 then
    let waited ← reserveSlotsWithWait 1 (reclaimReserveWait cfg)
    topUp count waited
  else topUp count reserved

/-- One turn of the loop of `reclaimOnce`; the turn after it starts at the returned
id, `none` when `reclaimOnce` returns. -/
def reclaimTurn (cfg : ConsumerConfig) (startID : String) : Program (Option String) := do
  let count := if cfg.jobReclaimCount ≤ 0 then 16 else cfg.jobReclaimCount
  let leaseSec := if cfg.jobLeaseSec ≤ 0 then 60 else cfg.jobLeaseSec
  let graceSec := if cfg.jobReclaimGraceSec < 0 then 0 else cfg.jobReclaimGraceSec
  let reserved ← reserveForReclaim cfg count
  if reserved = 0 then pure none
  else
    match ← op (.autoClaim (leaseSec + graceSec) startID reserved) with
    | .error _ =>
      releaseSlots reserved
      pure none
    | .ok (msgs, nextID) =>
      if msgs.length = 0 then
        releaseSlots reserved
        advance nextID
        pure none
      else
        let reclaimWG ← op .newGroup
        handOut reclaimWG true reserved msgs
        op (.waitGroup reclaimWG)
        advance nextID
        if nextID = "" ∨ nextID = "0-0" ∨ nextID = startID then pure none
        else if (msgs.length : Int) < reserved then pure none
        else pure (some nextID)

/-- `reclaimOnce` from a turn on, and then the next turn of `runReclaimLoop`. -/
def reclaimFrom (cfg : ConsumerConfig) (startID : String) : Program Unit := do
  match ← reclaimTurn cfg startID with
  | some nextID => op (.go (.reclaim nextID))
  | none => op (.go .reclaimLoop)

/-- One turn of `runReclaimLoop`. -/
def runReclaimLoop (cfg : ConsumerConfig) : Program Unit := do
  if ← op .tick then
    let startID ← op .getReclaimNextStartID
    reclaimFrom cfg (if trimSpace startID = "" then "0-0" else startID)
  else pure ()

/-- `Run`, once the consumer group exists. -/
def consume : Program Unit := do
  op (.go .reclaimLoop)
  let workerWG ← op .newGroup
  op (.go (.run workerWG))

/-- The program of a goroutine. -/
def Routine.program (cfg : ConsumerConfig) : Routine → Program Unit
  | .run workerWG => runTurn cfg workerWG
  | .reclaimLoop => runReclaimLoop cfg
  | .reclaim startID => reclaimFrom cfg startID
  | .handler wg reclaimed message => handleAndRelease wg reclaimed message

/-! ## The consumer as a machine -/

/-- The shared state of the goroutines. -/
structure Pool where
  /-- The slots in the channel. -/
  free : Nat
  cap : Nat
  cancelled : Bool
  reclaimNextStartID : String
  groups : List Nat
  deriving DecidableEq, Repr

/-- What an operation leaves to the environment: the case a `select` takes, and what
the stream answers. -/
structure Pick where
  /-- A `select` sees the context. -/
  done : Bool := false
  /-- A `select` sees a slot. -/
  slot : Bool := false
  read : Except ReadError (List (List String)) := .error .empty
  claim : Except ReadError (List String × String) := .error .empty
  deriving Repr

/-- Take a slot from the channel. -/
def Pool.take (w : Pool) : Pool := { w with free := w.free - 1 }

/-- Put a slot into the channel. -/
def Pool.put (w : Pool) : Pool := { w with free := w.free + 1 }

/-- One operation; `none` while it blocks. -/
def perform (w : Pool) : (o : Op) → Pick → Option (Pool × o.Reply)
  | .ctxErr, _ => some (w, w.cancelled)
  | .recvSlot, _ => if 0 < w.free then some (w.take, true) else some (w, false)
  | .waitSlot _, p =>
    if p.slot then if 0 < w.free then some (w.take, true) else none
    else if p.done && !w.cancelled then none
    else some (w, false)
  | .sendSlot, _ => if w.free < w.cap then some (w.put, true) else some (w, false)
  | .pause _, p => if p.done && !w.cancelled then none else some (w, p.done)
  | .tick, p => if p.done && !w.cancelled then none else some (w, !p.done)
  | .readNew count _, p =>
    match p.read with
    | .error err => some (w, .error err)
    | .ok streams => if streams.flatten.length ≤ count then some (w, .ok streams) else none
  | .autoClaim _ _ count, p =>
    match p.claim with
    | .error err => some (w, .error err)
    | .ok (msgs, nextID) => if msgs.length ≤ count then some (w, .ok (msgs, nextID)) else none
  | .getReclaimNextStartID, _ => some (w, w.reclaimNextStartID)
  | .setReclaimNextStartID next, _ => some ({ w with reclaimNextStartID := next }, ())
  | .newGroup, _ => some ({ w with groups := w.groups ++ [0] }, w.groups.length)
  | .addGroup wg, _ => some ({ w with groups := w.groups.modify wg (· + 1) }, ())
  | .doneGroup wg, _ => some ({ w with groups := w.groups.modify wg (· - 1) }, ())
  | .waitGroup wg, _ => if w.groups[wg]? = some 0 then some (w, ()) else none
  | .handle .., _ => some (w, ())
  | .go _, _ => some (w, ())

/-- The goroutines an operation starts. -/
def forks (cfg : ConsumerConfig) : Op → List (Program Unit)
  | .go r => [r.program cfg]
  | _ => []

/-- The environment: the context of `Run` is cancelled. -/
inductive Shutdown where
  | cancel
  deriving DecidableEq

/-- The consumer as an interleaving machine. -/
def consumer (cfg : ConsumerConfig) : Conc.Machine Pool Op Op.Reply Pick Shutdown where
  sem := perform
  forks := forks cfg
  env w _ := some ({ w with cancelled := true }, [])

end DeepOj.Worker.Slots
