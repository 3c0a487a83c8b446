import DeepOj.Conc.Token
import DeepOj.Worker.SlotPool

/-!
# What the return of `Run` waits for

Each goroutine's record says what it is there for, and which wait group it owes a
`Done`. There is one loop of `Run` and at most one reclaim loop, each with its own wait
group; so the deferred `workerWG.Wait` lets `Run` return when the handlers of the
messages it has read are done, and does not wait for those of reclaimed ones.
-/

namespace DeepOj.Worker.RunReturn

open Conc
open Slots (Op Program Pool Pick Shutdown Routine ConsumerConfig ReadError op perform forks consumer consume
  maxConcurrency reserveUpTo reserveSlots reserveSlotsWithWait releaseUpTo releaseSlots reclaimReserveWait
  handleAndRelease startHandlers handOut runTurn advance topUp reserveForReclaim reclaimTurn reclaimFrom
  runReclaimLoop)

/-- What a goroutine is there for. -/
inductive Role where
  /-- `Run` before its loop, and whether it has started the reclaim loop. -/
  | setup (reclaiming : Bool)
  | run (workerWG : Nat)
  /-- `Run` after its deferred `workerWG.Wait`. -/
  | returned (workerWG : Nat)
  /-- The reclaim loop, and the `reclaimWG` it has made and not waited for. -/
  | reclaim (reclaimWG : Option Nat)
  | handler (wg : Nat) (reclaimed : Bool)
  /-- A turn of a loop that has started the next one. -/
  | stopped
  deriving DecidableEq, Repr

/-- What a goroutine is there for, and the group it owes a `Done`. -/
structure Duty where
  role : Role
  owes : Option Nat
  deriving DecidableEq, Repr

def Role.next : Role → (o : Op) → o.Reply → Role
  | .setup _, .go .reclaimLoop, _ => .setup true
  | .setup _, .newGroup, wg => .run wg
  | .run wg, .waitGroup _, _ => .returned wg
  | .run _, .go (.run _), _ => .stopped
  | .reclaim _, .newGroup, wg => .reclaim (some wg)
  | .reclaim _, .waitGroup _, _ => .reclaim none
  | .reclaim _, .go .reclaimLoop, _ => .stopped
  | .reclaim _, .go (.reclaim _), _ => .stopped
  | role, _, _ => role

/-- A handler takes over the `Done` of the goroutine that starts it. -/
def owesNext (owes : Option Nat) : Op → Option Nat
  | .addGroup wg => some wg
  | .doneGroup _ => none
  | .go (.handler ..) => none
  | _ => owes

def Duty.next (g : Duty) (o : Op) (r : o.Reply) : Duty := ⟨g.role.next o r, owesNext g.owes o⟩

/-- The duty of the goroutines an operation starts. -/
def Duty.fork : Op → Duty
  | .go (.run wg) => ⟨.run wg, none⟩
  | .go .reclaimLoop => ⟨.reclaim none, none⟩
  | .go (.reclaim _) => ⟨.reclaim none, none⟩
  | .go (.handler wg reclaimed _) => ⟨.handler wg reclaimed, some wg⟩
  | _ => ⟨.stopped, none⟩

def dutyRecorder : Recorder Op Op.Reply Shutdown Duty where
  start _ := ⟨.stopped, none⟩
  fork := Duty.fork
  next := Duty.next

/-- The operations that have nothing to do with duties. -/
def Neutral : Op → Prop
  | .ctxErr | .recvSlot | .waitSlot _ | .sendSlot | .pause _ | .tick => True
  | .getReclaimNextStartID | .setReclaimNextStartID _ => True
  | _ => False

/-- Which goroutine performs an operation: the loops make groups, add to them, wait for
them and start handlers, each with its own; a handler works before its `Done`. -/
def Allowed (g : Duty) : Op → Prop
  | .readNew .. => ∃ wg, g = ⟨.run wg, none⟩
  | .autoClaim .. => g = ⟨.reclaim none, none⟩
  | .newGroup => g = ⟨.setup true, none⟩ ∨ g = ⟨.reclaim none, none⟩
  | .addGroup wg => g = ⟨.run wg, none⟩ ∨ g = ⟨.reclaim (some wg), none⟩
  | .doneGroup wg => ∃ reclaimed, g = ⟨.handler wg reclaimed, some wg⟩
  | .waitGroup wg => g = ⟨.run wg, none⟩ ∨ g = ⟨.reclaim (some wg), none⟩
  | .handle reclaimed _ => ∃ wg, g = ⟨.handler wg reclaimed, some wg⟩
  | .go (.run wg) => g = ⟨.run wg, none⟩
  | .go .reclaimLoop => g = ⟨.setup false, none⟩ ∨ g = ⟨.reclaim none, none⟩
  | .go (.reclaim _) => g = ⟨.reclaim none, none⟩
  | .go (.handler wg false _) => g = ⟨.run wg, some wg⟩
  | .go (.handler wg true _) => g = ⟨.reclaim (some wg), some wg⟩
  | _ => True

/-- A goroutine ends when it owes nothing and has handed its loop on; `Run` by returning. -/
inductive Ended : Duty → Prop where
  | returned (wg : Nat) : Ended ⟨.returned wg, none⟩
  | reclaim : Ended ⟨.reclaim none, none⟩
  | handler (wg : Nat) (reclaimed : Bool) : Ended ⟨.handler wg reclaimed, none⟩
  | stopped : Ended ⟨.stopped, none⟩

def dutyRules : Rules Op Op.Reply Duty where
  allowed := Allowed
  promised _ _ _ := True
  ended := Ended

/-- The program keeps the rules from the duty `g`. -/
abbrev Obeys {α : Type} (g : Duty) (p : Program α) (Q : Duty → α → Prop) : Prop :=
  Conc.Obeys dutyRecorder dutyRules g p Q

/-! ## What the programs do to their duty -/

theorem next_neutral {g : Duty} {o : Op} {r : o.Reply} (ho : Neutral o) : g.next o r = g := by
  obtain ⟨role, owes⟩ := g
  cases o with
  | ctxErr => cases role <;> rfl
  | recvSlot => cases role <;> rfl
  | waitSlot _ => cases role <;> rfl
  | sendSlot => cases role <;> rfl
  | pause _ => cases role <;> rfl
  | tick => cases role <;> rfl
  | getReclaimNextStartID => cases role <;> rfl
  | setReclaimNextStartID _ => cases role <;> rfl
  | _ => exact ho.elim

theorem allowed_neutral {g : Duty} {o : Op} (ho : Neutral o) : Allowed g o := by
  cases o <;> trivial

/-- A program of neutral operations leaves the duty as it is. -/
theorem obeys_neutral {α : Type} {g : Duty} {p : Program α} (hp : p.Confined Neutral) :
    Obeys g p fun g' _ => g' = g :=
  ⟨heeds_of_uses (K := dutyRecorder) (L := dutyRules) (I := fun g' : Duty => g' = g)
    (fun _ _ _ ho => allowed_neutral ho) (fun _ _ _ hg ho => (next_neutral ho).trans hg) hp.uses rfl⟩

/-- A neutral operation and the rest. -/
theorem obeys_op {α : Type} {g : Duty} {o : Op} {f : o.Reply → Program α} {Q : Duty → α → Prop}
    (ho : Neutral o) (hf : ∀ r, Obeys g (f r) Q) : Obeys g (op o >>= f) Q :=
  .bind (obeys_neutral (.perform ho)) fun _ r hg => hg ▸ hf r

theorem neutral_reserveUpTo (limit : Nat) : (reserveUpTo limit).Confined Neutral := by
  induction limit with
  | zero => exact .ret 0
  | succ limit ih =>
    refine .call trivial fun r => ?_
    cases r with
    | false => exact .ret 0
    | true => exact ih.bind fun _ => .ret _

theorem neutral_reserveSlots (limit : Int) : (reserveSlots limit).Confined Neutral :=
  neutral_reserveUpTo limit.toNat

theorem neutral_reserveSlotsWithWait (limit wait : Int) :
    (reserveSlotsWithWait limit wait).Confined Neutral := by
  unfold reserveSlotsWithWait
  split
  · exact .ret 0
  · refine (neutral_reserveSlots limit).bind fun reserved => ?_
    split
    · exact .ret _
    · split
      · exact .ret 0
      · refine .call trivial fun r => ?_
        cases r with
        | false => exact .ret 0
        | true =>
          show (if 1 < limit then _ else _ : Program Nat).Confined Neutral
          split
          · exact (neutral_reserveSlots _).bind fun _ => .ret _
          · exact .ret 1

theorem neutral_releaseUpTo (count : Nat) : (releaseUpTo count).Confined Neutral := by
  induction count with
  | zero => exact .ret ()
  | succ count ih =>
    refine .call trivial fun r => ?_
    cases r with
    | false => exact .ret ()
    | true => exact ih

theorem neutral_releaseSlots (count : Int) : (releaseSlots count).Confined Neutral :=
  neutral_releaseUpTo count.toNat

theorem neutral_advance (nextID : String) : (advance nextID).Confined Neutral := by
  unfold advance
  split
  · exact .perform trivial
  · exact .ret ()

theorem neutral_topUp (count : Int) (reserved : Nat) : (topUp count reserved).Confined Neutral := by
  unfold topUp
  split
  · exact .ret 0
  · split
    · exact (neutral_reserveSlots _).bind fun _ => .ret _
    · exact .ret reserved

theorem neutral_reserveForReclaim (cfg : ConsumerConfig) (count : Int) :
    (reserveForReclaim cfg count).Confined Neutral := by
  unfold reserveForReclaim
  refine (neutral_reserveSlots count).bind fun reserved => ?_
  split
  · exact (neutral_reserveSlotsWithWait _ _).bind fun waited => neutral_topUp count waited
  · exact neutral_topUp count reserved

/-- The duty of the loop that hands out messages with `wg`. -/
def loopDuty (wg : Nat) (reclaimed : Bool) (owes : Option Nat) : Duty :=
  ⟨if reclaimed then .reclaim (some wg) else .run wg, owes⟩

/-- A loop adds to its group for each handler, which takes the `Done` over. -/
theorem obeys_startHandlers (wg : Nat) (reclaimed : Bool) (messages : List String) :
    Obeys (loopDuty wg reclaimed none) (startHandlers wg reclaimed messages) fun g' _ =>
      g' = loopDuty wg reclaimed none := by
  induction messages with
  | nil => exact .pure rfl
  | cons message rest ih =>
    cases reclaimed with
    | false => exact .effect (.inl rfl) fun _ _ => .effect rfl fun _ _ => ih
    | true => exact .effect (.inr rfl) fun _ _ => .effect rfl fun _ _ => ih

theorem obeys_handOut (wg : Nat) (reclaimed : Bool) (reserved : Nat) (messages : List String) :
    Obeys (loopDuty wg reclaimed none) (handOut wg reclaimed reserved messages) fun g' _ =>
      g' = loopDuty wg reclaimed none := by
  unfold handOut
  refine .bind (obeys_startHandlers wg reclaimed messages) fun g' _ hg => ?_
  subst hg
  dsimp only
  split
  · exact obeys_neutral (neutral_releaseSlots _)
  · exact .pure rfl

theorem obeys_runTurn (cfg : ConsumerConfig) (wg : Nat) :
    Obeys ⟨.run wg, none⟩ (runTurn cfg wg) fun g' _ => Ended g' := by
  have hreturn : Obeys ⟨.run wg, none⟩ (op (.waitGroup wg)) fun g' _ => Ended g' :=
    .perform (.inl rfl) fun _ _ => .returned wg
  have hcontinue : Obeys ⟨.run wg, none⟩ (op (.go (.run wg))) fun g' _ => Ended g' :=
    .perform rfl fun _ _ => .stopped
  unfold runTurn
  refine obeys_op trivial fun stopped => ?_
  cases stopped with
  | true => exact hreturn
  | false =>
    refine .bind (obeys_neutral (neutral_reserveSlots _)) fun g' reserved hg => ?_
    subst hg
    by_cases hr : reserved = 0
    · rw [if_pos hr]
      refine obeys_op trivial fun stopped => ?_
      cases stopped with
      | true => exact hreturn
      | false => exact hcontinue
    · rw [if_neg hr]
      refine .effect ⟨wg, rfl⟩ fun answer _ => ?_
      cases answer with
      | error err =>
        refine .bind (obeys_neutral (neutral_releaseSlots _)) fun g' _ hg => ?_
        subst hg
        by_cases he : err = .cancelled
        · rw [if_pos he]
          exact hreturn
        · rw [if_neg he]
          exact hcontinue
      | ok streams =>
        refine .bind (obeys_handOut wg false reserved streams.flatten) fun g' _ hg => ?_
        subst hg
        exact hcontinue

theorem obeys_reclaimTurn (cfg : ConsumerConfig) (startID : String) :
    Obeys ⟨.reclaim none, none⟩ (reclaimTurn cfg startID) fun g' _ => g' = ⟨.reclaim none, none⟩ := by
  unfold reclaimTurn
  dsimp only
  refine .bind (obeys_neutral (neutral_reserveForReclaim cfg _)) fun g' reserved hg => ?_
  subst hg
  by_cases hr : reserved = 0
  · rw [if_pos hr]
    exact .pure rfl
  · rw [if_neg hr]
    refine .effect rfl fun answer _ => ?_
    cases answer with
    | error err =>
      exact .bind (obeys_neutral (neutral_releaseSlots _)) fun g' _ hg => .pure hg
    | ok claimed =>
      obtain ⟨msgs, nextID⟩ := claimed
      dsimp only
      by_cases hm : msgs.length = 0
      · rw [if_pos hm]
        refine .bind (obeys_neutral (neutral_releaseSlots _)) fun g' _ hg => ?_
        subst hg
        exact .bind (obeys_neutral (neutral_advance nextID)) fun g' _ hg => .pure hg
      · rw [if_neg hm]
        refine .effect (.inr rfl) fun wg _ => ?_
        refine .bind (obeys_handOut wg true reserved msgs) fun g' _ hg => ?_
        subst hg
        refine .effect (.inr rfl) fun _ _ => ?_
        refine .bind (obeys_neutral (neutral_advance nextID)) fun g' _ hg => ?_
        subst hg
        split
        · exact .pure rfl
        · split <;> exact .pure rfl

theorem obeys_reclaimFrom (cfg : ConsumerConfig) (startID : String) :
    Obeys ⟨.reclaim none, none⟩ (reclaimFrom cfg startID) fun g' _ => Ended g' := by
  unfold reclaimFrom
  refine .bind (obeys_reclaimTurn cfg startID) fun g' next hg => ?_
  subst hg
  cases next with
  | some nextID => exact .perform rfl fun _ _ => .stopped
  | none => exact .perform (.inr rfl) fun _ _ => .stopped

theorem obeys_runReclaimLoop (cfg : ConsumerConfig) :
    Obeys ⟨.reclaim none, none⟩ (runReclaimLoop cfg) fun g' _ => Ended g' := by
  refine obeys_op trivial fun tick => ?_
  cases tick with
  | false => exact .pure .reclaim
  | true => exact obeys_op trivial fun startID => obeys_reclaimFrom cfg _

theorem obeys_consume : Obeys ⟨.setup false, none⟩ consume fun g' _ => Ended g' :=
  .effect (.inl rfl) fun _ _ => .effect (.inl rfl) fun _ _ => .perform rfl fun _ _ => .stopped

theorem obeys_handleAndRelease (wg : Nat) (reclaimed : Bool) (message : String) :
    Obeys ⟨.handler wg reclaimed, some wg⟩ (handleAndRelease wg reclaimed message) fun g' _ => Ended g' := by
  refine .effect ⟨wg, rfl⟩ fun _ _ => ?_
  refine .bind (obeys_neutral (neutral_releaseSlots 1)) fun g' _ hg => ?_
  subst hg
  exact .perform ⟨reclaimed, rfl⟩ fun _ _ => .handler wg reclaimed

/-! ## Groups and their owners -/

/-- The token of the loop of `Run`. -/
def Duty.runs (g : Duty) : Nat :=
  match g.role with
  | .setup _ => 1
  | .run _ => 1
  | .returned _ => 1
  | _ => 0

/-- The token of the reclaim loop. -/
def Duty.reclaims (g : Duty) : Nat :=
  match g.role with
  | .setup false => 1
  | .reclaim _ => 1
  | _ => 0

/-- Whether the goroutine owes the group `wg` a `Done`. -/
def Duty.owed (wg : Nat) (g : Duty) : Nat := if g.owes = some wg then 1 else 0

/-- A duty fits the groups of the two loops: what a goroutine may owe is known by what it is
there for. -/
inductive Fits (workerWG reclaimWG : Option Nat) : Duty → Prop where
  | setup {reclaiming : Bool} (h : workerWG = none) (hloop : reclaiming = false → reclaimWG = none) :
      Fits workerWG reclaimWG ⟨.setup reclaiming, none⟩
  | run {wg : Nat} {owes : Option Nat} (h : workerWG = some wg) (howes : owes = none ∨ owes = some wg) :
      Fits workerWG reclaimWG ⟨.run wg, owes⟩
  | returned {wg : Nat} (h : workerWG = some wg) : Fits workerWG reclaimWG ⟨.returned wg, none⟩
  | reclaim {owes : Option Nat} (howes : owes = none ∨ owes = reclaimWG) :
      Fits workerWG reclaimWG ⟨.reclaim reclaimWG, owes⟩
  | handler {wg : Nat} (h : workerWG = some wg) : Fits workerWG reclaimWG ⟨.handler wg false, some wg⟩
  | reclaimed {wg : Nat} (h : reclaimWG = some wg) : Fits workerWG reclaimWG ⟨.handler wg true, some wg⟩
  | done (wg : Nat) (reclaimed : Bool) : Fits workerWG reclaimWG ⟨.handler wg reclaimed, none⟩
  | stopped : Fits workerWG reclaimWG ⟨.stopped, none⟩

variable {cfg : ConsumerConfig} {g : Duty} {w w' : Pool} {workerWG reclaimWG : Option Nat}

/-- A loop makes its group or has waited for it; the others, which neither have the loop nor owe
the group, do not mind. -/
theorem Fits.others {workerWG' reclaimWG' : Option Nat} (h : Fits workerWG reclaimWG g)
    (hworker : workerWG' = workerWG ∨ (workerWG = none ∧ g.runs = 0))
    (hreclaim : reclaimWG' = reclaimWG ∨
      (g.reclaims = 0 ∧ ∀ wg, reclaimWG = some wg → g.owed wg = 0)) :
    Fits workerWG' reclaimWG' g := by
  have hsome : ∀ {wg : Nat}, workerWG = some wg → workerWG' = some wg := by
    intro wg hwg
    obtain rfl | ⟨hnone, _⟩ := hworker
    · exact hwg
    · rw [hnone] at hwg
      cases hwg
  cases h with
  | @setup reclaiming h hloop =>
    obtain rfl | ⟨_, hruns⟩ := hworker
    · refine .setup h fun hfalse => ?_
      subst hfalse
      obtain rfl | ⟨hreclaims, _⟩ := hreclaim
      · exact hloop rfl
      · cases hreclaims
    · cases hruns
  | run h howes => exact .run (hsome h) howes
  | returned h => exact .returned (hsome h)
  | reclaim howes =>
    obtain rfl | ⟨hloop, _⟩ := hreclaim
    · exact .reclaim howes
    · cases hloop
  | handler h => exact .handler (hsome h)
  | @reclaimed wg h =>
    obtain rfl | ⟨_, howed⟩ := hreclaim
    · exact .reclaimed h
    · have := howed wg h
      simp [Duty.owed] at this
  | done wg reclaimed => exact .done wg reclaimed
  | stopped => exact .stopped

theorem Fits.of_returned (h : Fits workerWG reclaimWG g) {wg : Nat} (hrole : g.role = .returned wg) :
    workerWG = some wg := by
  cases h with
  | returned h =>
    cases hrole
    exact h
  | _ => cases hrole

/-- The operations that change no duty. -/
def Quiet : Op → Prop
  | .readNew .. | .autoClaim .. | .handle .. => True
  | o => Neutral o

theorem next_quiet {o : Op} {r : o.Reply} (ho : Quiet o) : g.next o r = g := by
  obtain ⟨role, owes⟩ := g
  cases o with
  | readNew _ _ => cases role <;> rfl
  | autoClaim _ _ _ => cases role <;> rfl
  | handle _ _ => cases role <;> rfl
  | newGroup => exact ho.elim
  | addGroup _ => exact ho.elim
  | doneGroup _ => exact ho.elim
  | waitGroup _ => exact ho.elim
  | go _ => exact ho.elim
  | _ => exact next_neutral ho

theorem forks_quiet {o : Op} (ho : Quiet o) : forks cfg o = [] := by
  cases o with
  | go _ => exact ho.elim
  | _ => rfl

/-- The ways to change a duty. -/
inductive Turn : Duty → Op → Prop where
  | quiet {g : Duty} {o : Op} (h : Quiet o) : Turn g o
  | makeWorker : Turn ⟨.setup true, none⟩ .newGroup
  | makeReclaim : Turn ⟨.reclaim none, none⟩ .newGroup
  | addWorker (wg : Nat) : Turn ⟨.run wg, none⟩ (.addGroup wg)
  | addReclaim (wg : Nat) : Turn ⟨.reclaim (some wg), none⟩ (.addGroup wg)
  | startHandler (wg : Nat) (message : String) : Turn ⟨.run wg, some wg⟩ (.go (.handler wg false message))
  | startReclaimed (wg : Nat) (message : String) :
      Turn ⟨.reclaim (some wg), some wg⟩ (.go (.handler wg true message))
  | finish (wg : Nat) (reclaimed : Bool) : Turn ⟨.handler wg reclaimed, some wg⟩ (.doneGroup wg)
  | waitWorker (wg : Nat) : Turn ⟨.run wg, none⟩ (.waitGroup wg)
  | waitReclaim (wg : Nat) : Turn ⟨.reclaim (some wg), none⟩ (.waitGroup wg)
  | startLoop : Turn ⟨.setup false, none⟩ (.go .reclaimLoop)
  | nextTick : Turn ⟨.reclaim none, none⟩ (.go .reclaimLoop)
  | nextReclaim (startID : String) : Turn ⟨.reclaim none, none⟩ (.go (.reclaim startID))
  | nextRun (wg : Nat) : Turn ⟨.run wg, none⟩ (.go (.run wg))

theorem turn_of_allowed {o : Op} (ha : Allowed g o) : Turn g o := by
  cases o with
  | newGroup =>
    obtain rfl | rfl := ha
    · exact .makeWorker
    · exact .makeReclaim
  | addGroup wg =>
    obtain rfl | rfl := ha
    · exact .addWorker wg
    · exact .addReclaim wg
  | doneGroup wg =>
    obtain ⟨reclaimed, rfl⟩ := ha
    exact .finish wg reclaimed
  | waitGroup wg =>
    obtain rfl | rfl := ha
    · exact .waitWorker wg
    · exact .waitReclaim wg
  | go routine =>
    cases routine with
    | run wg => exact ha ▸ .nextRun wg
    | reclaimLoop =>
      obtain rfl | rfl := ha
      · exact .startLoop
      · exact .nextTick
    | reclaim startID => exact ha ▸ .nextReclaim startID
    | handler wg reclaimed message =>
      cases reclaimed with
      | false => exact ha ▸ .startHandler wg message
      | true => exact ha ▸ .startReclaimed wg message
  | _ => exact .quiet trivial

/-- A loop goes on in the goroutine that starts its next turn. -/
theorem runs_next (cfg : ConsumerConfig) {o : Op} {r : o.Reply} (ht : Turn g o) :
    (g.next o r).runs + (forks cfg o).length * (Duty.fork o).runs = g.runs := by
  cases ht with
  | quiet h => rw [next_quiet h, forks_quiet h, List.length_nil, Nat.zero_mul, Nat.add_zero]
  | _ => rfl

theorem reclaims_next (cfg : ConsumerConfig) {o : Op} {r : o.Reply} (ht : Turn g o) :
    (g.next o r).reclaims + (forks cfg o).length * (Duty.fork o).reclaims = g.reclaims := by
  cases ht with
  | quiet h => rw [next_quiet h, forks_quiet h, List.length_nil, Nat.zero_mul, Nat.add_zero]
  | _ => rfl

/-- What an operation does to the counters of the groups. -/
def groupsNext (groups : List Nat) : Op → List Nat
  | .newGroup => groups ++ [0]
  | .addGroup wg => groups.modify wg (· + 1)
  | .doneGroup wg => groups.modify wg (· - 1)
  | _ => groups

theorem perform_pool {o : Op} {p : Pick} {r : o.Reply} (hp : perform w o p = some (w', r)) :
    w'.groups = groupsNext w.groups o ∧ w'.cancelled = w.cancelled := by
  cases o with
  | recvSlot =>
    simp only [perform] at hp
    split at hp <;> cases hp <;> exact ⟨rfl, rfl⟩
  | waitSlot wait =>
    simp only [perform] at hp
    split at hp
    · split at hp <;> cases hp
      exact ⟨rfl, rfl⟩
    · split at hp <;> cases hp
      exact ⟨rfl, rfl⟩
  | sendSlot =>
    simp only [perform] at hp
    split at hp <;> cases hp <;> exact ⟨rfl, rfl⟩
  | pause wait =>
    simp only [perform] at hp
    split at hp <;> cases hp
    exact ⟨rfl, rfl⟩
  | tick =>
    simp only [perform] at hp
    split at hp <;> cases hp
    exact ⟨rfl, rfl⟩
  | readNew count block =>
    simp only [perform] at hp
    split at hp
    · cases hp
      exact ⟨rfl, rfl⟩
    · split at hp <;> cases hp
      exact ⟨rfl, rfl⟩
  | autoClaim minIdle startID count =>
    simp only [perform] at hp
    split at hp
    · cases hp
      exact ⟨rfl, rfl⟩
    · split at hp <;> cases hp
      exact ⟨rfl, rfl⟩
  | waitGroup wg =>
    simp only [perform] at hp
    split at hp <;> cases hp
    exact ⟨rfl, rfl⟩
  | ctxErr => cases hp; exact ⟨rfl, rfl⟩
  | getReclaimNextStartID => cases hp; exact ⟨rfl, rfl⟩
  | setReclaimNextStartID next => cases hp; exact ⟨rfl, rfl⟩
  | newGroup => cases hp; exact ⟨rfl, rfl⟩
  | addGroup wg => cases hp; exact ⟨rfl, rfl⟩
  | doneGroup wg => cases hp; exact ⟨rfl, rfl⟩
  | handle reclaimed message => cases hp; exact ⟨rfl, rfl⟩
  | go routine => cases hp; exact ⟨rfl, rfl⟩

/-- The counter of a group; `0` for one that has not been made. -/
def counter (groups : List Nat) (wg : Nat) : Nat := groups.getD wg 0

theorem counter_append (groups : List Nat) (wg : Nat) : counter (groups ++ [0]) wg = counter groups wg := by
  simp only [counter, List.getD_eq_getElem?_getD, List.getElem?_append]
  split
  · rfl
  · rw [List.getElem?_eq_none (by omega : groups.length ≤ wg)]
    cases wg - groups.length <;> rfl

theorem counter_modify {groups : List Nat} {x : Nat} (hx : x < groups.length) (f : Nat → Nat) (wg : Nat) :
    counter (groups.modify x f) wg = if x = wg then f (counter groups wg) else counter groups wg := by
  simp only [counter, List.getD_eq_getElem?_getD, List.getElem?_modify]
  split
  · rename_i heq
    subst heq
    rw [List.getElem?_eq_getElem hx]
    rfl
  · cases groups[wg]? <;> rfl

theorem lt_of_counter {groups : List Nat} {wg : Nat} (h : 1 ≤ counter groups wg) : wg < groups.length := by
  by_contra hge
  rw [counter, List.getD_eq_getElem?_getD, List.getElem?_eq_none (Nat.le_of_not_lt hge)] at h
  cases h

/-- Adding to a group makes the goroutine owe a `Done`, and its handler pays it. -/
theorem owed_next (cfg : ConsumerConfig) {groups : List Nat} {o : Op} {r : o.Reply} (ht : Turn g o)
    (hadd : ∀ wg, o = .addGroup wg → wg < groups.length)
    (hdone : ∀ wg, o = .doneGroup wg → 1 ≤ counter groups wg) (wg : Nat) :
    counter (groupsNext groups o) wg + g.owed wg =
      counter groups wg + (g.next o r).owed wg + (forks cfg o).length * (Duty.fork o).owed wg := by
  have hnone : ∀ role, (⟨role, none⟩ : Duty).owed wg = 0 := fun _ => rfl
  have hsome : ∀ role x, (⟨role, some x⟩ : Duty).owed wg = if x = wg then 1 else 0 := by
    intro role x
    simp only [Duty.owed, Option.some.injEq]
  have hadded : ∀ x, o = .addGroup x → ∀ role, counter (groups.modify x (· + 1)) wg =
      counter groups wg + (⟨role, some x⟩ : Duty).owed wg := by
    intro x hx role
    rw [counter_modify (hadd x hx), hsome]
    split <;> rfl
  cases ht with
  | quiet h =>
    rw [next_quiet h, forks_quiet h, List.length_nil, Nat.zero_mul, Nat.add_zero]
    congr 1
    cases o <;> first | rfl | exact h.elim
  | makeWorker => exact congrArg (· + 0) (counter_append groups wg)
  | makeReclaim => exact congrArg (· + 0) (counter_append groups wg)
  | addWorker x =>
    show counter (groups.modify x (· + 1)) wg + 0 = _ + (⟨.run x, some x⟩ : Duty).owed wg + 0 * 0
    have := hadded x rfl (.run x)
    omega
  | addReclaim x =>
    show counter (groups.modify x (· + 1)) wg + 0 = _ + (⟨.reclaim (some x), some x⟩ : Duty).owed wg + 0 * 0
    have := hadded x rfl (.reclaim (some x))
    omega
  | startHandler x message =>
    show counter groups wg + (⟨.run x, some x⟩ : Duty).owed wg =
      counter groups wg + 0 + 1 * (⟨.handler x false, some x⟩ : Duty).owed wg
    rw [hsome, hsome]
    omega
  | startReclaimed x message =>
    show counter groups wg + (⟨.reclaim (some x), some x⟩ : Duty).owed wg =
      counter groups wg + 0 + 1 * (⟨.handler x true, some x⟩ : Duty).owed wg
    rw [hsome, hsome]
    omega
  | finish x reclaimed =>
    have hpos := hdone x rfl
    show counter (groups.modify x (· - 1)) wg + (⟨.handler x reclaimed, some x⟩ : Duty).owed wg = _ + 0 + 0 * 0
    rw [counter_modify (lt_of_counter hpos), hsome]
    split
    · rename_i heq
      subst heq
      omega
    · omega
  | _ => rfl

/-! ## The invariant -/

/-- A recorded state of the consumer. -/
abbrev DutyState := RecordedConfig Pool Op Op.Reply Duty

/-- The consumer as `Run` starts it. -/
def startOf (cfg : ConsumerConfig) : DutyState :=
  ⟨⟨maxConcurrency cfg, maxConcurrency cfg, false, "0-0", []⟩, [(⟨.setup false, none⟩, consume)]⟩

/-- No goroutine panics. -/
def noPanic (_ : DutyState) : Conc.Move Pick Shutdown → Prop
  | .crash _ => False
  | _ => True

instance (s : DutyState) (m : Conc.Move Pick Shutdown) : Decidable (noPanic s m) :=
  match m with
  | .crash _ => inferInstanceAs (Decidable False)
  | .call .. => inferInstanceAs (Decidable True)
  | .env _ => inferInstanceAs (Decidable True)

/-- A run of the consumer from `s₀`. -/
abbrev DutyRun (cfg : ConsumerConfig) (s₀ s : DutyState) : Prop :=
  Conc.Run ((consumer cfg).record dutyRecorder) noPanic s₀ s

/-- The loops have their own groups, every counter is the number of the `Done`s that are owed,
and once `Run` has returned its group stays at zero. -/
structure Settled (s : DutyState) (workerWG reclaimWG : Option Nat) : Prop where
  heeds : Machine.AllHeed dutyRecorder dutyRules s
  fits : ∀ t ∈ s.threads, Fits workerWG reclaimWG t.1
  owed : ∀ wg, counter s.world.groups wg = Machine.total (Duty.owed wg) s
  runs : Machine.total Duty.runs s = 1
  reclaims : Machine.total Duty.reclaims s ≤ 1
  made : ∀ wg, workerWG = some wg ∨ reclaimWG = some wg → wg < s.world.groups.length
  apart : ∀ wg, workerWG = some wg → reclaimWG ≠ some wg
  returned : ∀ t ∈ s.threads, ∀ wg, t.1.role = .returned wg → counter s.world.groups wg = 0

theorem disciplined (cfg : ConsumerConfig) : (consumer cfg).Disciplined dutyRecorder dutyRules where
  env := fun w v w' ps hv p hp => by
    cases hv
    cases hp
  forks := fun o p hp => by
    cases o with
    | go routine =>
      rw [List.mem_singleton.mp hp]
      cases routine with
      | run wg => exact (obeys_runTurn cfg wg).heeds
      | reclaimLoop => exact (obeys_runReclaimLoop cfg).heeds
      | reclaim startID => exact (obeys_reclaimFrom cfg startID).heeds
      | handler wg reclaimed message => exact (obeys_handleAndRelease wg reclaimed message).heeds
    | _ => cases hp

theorem settled_start (cfg : ConsumerConfig) : Settled (startOf cfg) none none where
  heeds := fun t ht => by
    rw [List.mem_singleton.mp ht]
    exact obeys_consume.heeds
  fits := fun t ht => by
    rw [List.mem_singleton.mp ht]
    exact .setup rfl fun _ => rfl
  owed := fun _ => rfl
  runs := rfl
  reclaims := Nat.le_refl 1
  made := fun _ h => by rcases h with h | h <;> cases h
  apart := fun _ h => by cases h
  returned := fun t ht wg h => by
    rw [List.mem_singleton.mp ht] at h
    cases h

/-- The group of the loop of `Run` after an operation. -/
def workerNext (workerWG : Option Nat) (g : Duty) : (o : Op) → o.Reply → Option Nat
  | .newGroup, wg => if g.role = .setup true then some wg else workerWG
  | _, _ => workerWG

/-- The group of the reclaim loop after an operation. -/
def reclaimNext (reclaimWG : Option Nat) (g : Duty) : (o : Op) → o.Reply → Option Nat
  | .newGroup, wg => if g.role = .setup true then reclaimWG else some wg
  | .waitGroup _, _ => match g.role with
    | .reclaim _ => none
    | _ => reclaimWG
  | _, _ => reclaimWG

theorem workerNext_quiet {o : Op} {r : o.Reply} (ho : Quiet o) : workerNext workerWG g o r = workerWG := by
  cases o <;> first | rfl | exact ho.elim

theorem reclaimNext_quiet {o : Op} {r : o.Reply} (ho : Quiet o) :
    reclaimNext reclaimWG g o r = reclaimWG := by
  cases o <;> first | rfl | exact ho.elim

/-- A goroutine fits the groups after its operation, and so do those it starts. -/
theorem fits_next (cfg : ConsumerConfig) {o : Op} {r : o.Reply} (ht : Turn g o)
    (hf : Fits workerWG reclaimWG g) :
    Fits (workerNext workerWG g o r) (reclaimNext reclaimWG g o r) (g.next o r) ∧
      ∀ p ∈ forks cfg o, Fits (workerNext workerWG g o r) (reclaimNext reclaimWG g o r) (Duty.fork o) := by
  cases ht with
  | quiet h =>
    rw [workerNext_quiet h, reclaimNext_quiet h, next_quiet h, forks_quiet h]
    exact ⟨hf, fun _ hp => absurd hp List.not_mem_nil⟩
  | makeWorker => exact ⟨.run rfl (.inl rfl), fun _ hp => absurd hp List.not_mem_nil⟩
  | makeReclaim => exact ⟨.reclaim (.inl rfl), fun _ hp => absurd hp List.not_mem_nil⟩
  | addWorker wg =>
    cases hf with
    | run h => exact ⟨.run h (.inr rfl), fun _ hp => absurd hp List.not_mem_nil⟩
  | addReclaim wg =>
    cases hf with
    | reclaim => exact ⟨.reclaim (.inr rfl), fun _ hp => absurd hp List.not_mem_nil⟩
  | startHandler wg message =>
    cases hf with
    | run h => exact ⟨.run h (.inl rfl), fun _ _ => .handler h⟩
  | startReclaimed wg message =>
    cases hf with
    | reclaim => exact ⟨.reclaim (.inl rfl), fun _ _ => .reclaimed rfl⟩
  | finish wg reclaimed => exact ⟨.done wg reclaimed, fun _ hp => absurd hp List.not_mem_nil⟩
  | waitWorker wg =>
    cases hf with
    | run h => exact ⟨.returned h, fun _ hp => absurd hp List.not_mem_nil⟩
  | waitReclaim wg => exact ⟨.reclaim (.inl rfl), fun _ hp => absurd hp List.not_mem_nil⟩
  | startLoop =>
    cases hf with
    | setup h hloop =>
      obtain rfl := hloop rfl
      exact ⟨.setup h nofun, fun _ _ => .reclaim (.inl rfl)⟩
  | nextTick =>
    cases hf with
    | reclaim => exact ⟨.stopped, fun _ _ => .reclaim (.inl rfl)⟩
  | nextReclaim startID =>
    cases hf with
    | reclaim => exact ⟨.stopped, fun _ _ => .reclaim (.inl rfl)⟩
  | nextRun wg =>
    cases hf with
    | run h => exact ⟨.stopped, fun _ _ => .run h (.inl rfl)⟩

/-- So do the others, which have no part in the loop that makes a group or waits for one. -/
theorem fits_others {o : Op} {r : o.Reply} {g' : Duty} (ht : Turn g o) (hf : Fits workerWG reclaimWG g)
    (hruns : g.runs = 1 → g'.runs = 0) (hreclaims : g.reclaims = 1 → g'.reclaims = 0)
    (hwait : ∀ wg, o = .waitGroup wg → g'.owed wg = 0) (hf' : Fits workerWG reclaimWG g') :
    Fits (workerNext workerWG g o r) (reclaimNext reclaimWG g o r) g' := by
  cases ht with
  | quiet h =>
    rw [workerNext_quiet h, reclaimNext_quiet h]
    exact hf'
  | makeWorker =>
    cases hf with
    | setup h => exact hf'.others (.inr ⟨h, hruns rfl⟩) (.inl rfl)
  | makeReclaim =>
    cases hf with
    | reclaim => exact hf'.others (.inl rfl) (.inr ⟨hreclaims rfl, fun _ h => by cases h⟩)
  | waitReclaim wg =>
    cases hf with
    | reclaim =>
      refine hf'.others (.inl rfl) (.inr ⟨hreclaims rfl, fun x h => ?_⟩)
      cases h
      exact hwait wg rfl
  | _ => exact hf'

/-- A group that a loop makes is new, and the other loop has another one. -/
theorem groups_next {o : Op} {p : Pick} {r : o.Reply} (ht : Turn g o) (hf : Fits workerWG reclaimWG g)
    (hp : perform w o p = some (w', r))
    (hmade : ∀ wg, workerWG = some wg ∨ reclaimWG = some wg → wg < w.groups.length)
    (hapart : ∀ wg, workerWG = some wg → reclaimWG ≠ some wg) :
    (∀ wg, workerNext workerWG g o r = some wg ∨ reclaimNext reclaimWG g o r = some wg →
      wg < w'.groups.length) ∧
    ∀ wg, workerNext workerWG g o r = some wg → reclaimNext reclaimWG g o r ≠ some wg := by
  have hgroups := (perform_pool hp).1
  have hle : w.groups.length ≤ w'.groups.length := by
    rw [hgroups]
    cases o <;> simp [groupsNext]
  have hsame : (∀ wg, workerWG = some wg ∨ reclaimWG = some wg → wg < w'.groups.length) ∧
      ∀ wg, workerWG = some wg → reclaimWG ≠ some wg :=
    ⟨fun wg h => Nat.lt_of_lt_of_le (hmade wg h) hle, hapart⟩
  cases ht with
  | quiet h =>
    rw [workerNext_quiet h, reclaimNext_quiet h]
    exact hsame
  | makeWorker =>
    cases hp
    refine ⟨fun wg h => ?_, fun wg h hreclaim => ?_⟩
    · rcases h with h | h
      · cases h
        simp
      · exact hsame.1 wg (.inr h)
    · cases h
      exact absurd (hmade _ (.inr hreclaim)) (Nat.lt_irrefl _)
  | makeReclaim =>
    cases hp
    refine ⟨fun wg h => ?_, fun wg h hreclaim => ?_⟩
    · rcases h with h | h
      · exact hsame.1 wg (.inl h)
      · cases h
        simp
    · cases hreclaim
      exact absurd (hmade _ (.inl h)) (Nat.lt_irrefl _)
  | waitReclaim wg =>
    exact ⟨fun x h => hsame.1 x (h.imp_right nofun), fun _ _ => nofun⟩
  | _ => exact hsame

/-- The group of `Run` stays at zero unless the loop of `Run` adds to it. -/
theorem counter_zero {groups : List Nat} {o : Op} {wg : Nat} (hadd : o ≠ .addGroup wg)
    (h : counter groups wg = 0) (hin : ∀ x, o = .addGroup x ∨ o = .doneGroup x → x < groups.length) :
    counter (groupsNext groups o) wg = 0 := by
  cases o with
  | addGroup x =>
    refine (counter_modify (hin x (.inl rfl)) _ wg).trans ?_
    rw [if_neg fun heq => hadd (congrArg Op.addGroup heq)]
    exact h
  | doneGroup x =>
    refine (counter_modify (hin x (.inr rfl)) _ wg).trans ?_
    split
    · rw [h]
    · exact h
  | newGroup => exact (counter_append groups wg).trans h
  | _ => exact h

/-- Whoever has waited for a group has seen its counter at zero. -/
theorem counter_of_wait {wg : Nat} {p : Pick} {r : Unit} (hp : perform w (.waitGroup wg) p = some (w', r)) :
    counter w.groups wg = 0 := by
  simp only [perform] at hp
  split at hp
  · rename_i hzero
    rw [counter, List.getD_eq_getElem?_getD, hzero]
    rfl
  · cases hp

variable {s s' : DutyState}

theorem Settled.counter_pos (h : Settled s workerWG reclaimWG) {t : Duty × Program Unit} (ht : t ∈ s.threads)
    {wg : Nat} (howes : t.1.owes = some wg) : 1 ≤ counter s.world.groups wg := by
  rw [h.owed wg]
  refine Nat.le_trans ?_ (Machine.le_total ht)
  show 1 ≤ if t.1.owes = some wg then 1 else 0
  rw [if_pos howes]

/-- The group that a goroutine names in an operation has been made. -/
theorem Settled.in_range (h : Settled s workerWG reclaimWG) {t : Duty × Program Unit} (ht : t ∈ s.threads)
    {o : Op} (hturn : Turn t.1 o) {wg : Nat} (ho : o = .addGroup wg ∨ o = .doneGroup wg) :
    wg < s.world.groups.length := by
  have hfit := h.fits t ht
  obtain ⟨g, p⟩ := t
  rcases ho with rfl | rfl
  · cases hturn with
    | quiet hq => exact hq.elim
    | addWorker wg =>
      cases hfit with
      | run hworker => exact h.made wg (.inl hworker)
    | addReclaim wg =>
      cases hfit with
      | reclaim => exact h.made wg (.inr rfl)
  · cases hturn with
    | quiet hq => exact hq.elim
    | finish wg reclaimed => exact lt_of_counter (h.counter_pos ht rfl)

/-- What has become of the threads after an operation of thread `i`. -/
theorem threads_call {α : Type} {ts fs : List α} {i : Nat} {a b : α} (hi : ts[i]? = some a) {t : α}
    (ht : t ∈ ts.set i b ++ fs) : t = b ∨ (∃ j, j ≠ i ∧ ts[j]? = some t) ∨ t ∈ fs := by
  rcases List.mem_append.mp ht with ht | ht
  · obtain ⟨j, hj⟩ := List.getElem?_of_mem ht
    by_cases hji : j = i
    · subst hji
      rw [List.getElem?_set_self (List.getElem?_eq_some_iff.mp hi).1] at hj
      exact .inl (Option.some.inj hj).symm
    · rw [List.getElem?_set_ne (Ne.symm hji)] at hj
      exact .inr (.inl ⟨j, hji, hj⟩)
  · exact .inr (.inr ht)

theorem Settled.call (h : Settled s workerWG reclaimWG) {i : Nat} {o : Op} {k : o.Reply → Program Unit}
    {p : Pick} {r : o.Reply} (hi : s.threads[i]? = some (g, .call o k))
    (hsem : perform s.world o p = some (w, r))
    (hs' : s' = ⟨w, s.threads.set i (g.next o r, k r) ++ (forks cfg o).map fun p => (Duty.fork o, p)⟩)
    (hheeds : Machine.AllHeed dutyRecorder dutyRules s') :
    Settled s' (workerNext workerWG g o r) (reclaimNext reclaimWG g o r) := by
  have hmem : (g, .call o k) ∈ s.threads := List.mem_of_getElem? hi
  have hturn : Turn g o := turn_of_allowed (h.heeds.allowed hi)
  have hfit : Fits workerWG reclaimWG g := h.fits _ hmem
  have hgroups : w.groups = groupsNext s.world.groups o := (perform_pool hsem).1
  have hthreads : s'.threads = s.threads.set i (g.next o r, k r) ++
      (forks cfg o).map fun p => (Duty.fork o, p) := by rw [hs']
  have hworld : s'.world = w := by rw [hs']
  have htotal : ∀ f : Duty → Nat, Machine.total f s' + f g = Machine.total f s + f (g.next o r) +
      (forks cfg o).length * f (Duty.fork o) :=
    fun f => Machine.total_call (M := consumer cfg) (K := dutyRecorder) (f := f) hi hs'
  have hrange : ∀ x, o = .addGroup x ∨ o = .doneGroup x → x < s.world.groups.length :=
    fun x => h.in_range hmem hturn
  have hother : ∀ {f : Duty → Nat} {j : Nat} {t : Duty × Program Unit}, Machine.total f s ≤ 1 → j ≠ i →
      s.threads[j]? = some t → f g = 1 → f t.1 = 0 := by
    intro f j t hone hji hj hg
    by_contra hne
    exact hji (Machine.holder_unique hone hj hi (Nat.one_le_iff_ne_zero.mpr hne) (Nat.le_of_eq hg.symm))
  refine ⟨hheeds, fun t ht => ?_, fun wg => ?_, ?_, ?_, ?_, ?_, fun t ht wg hrole => ?_⟩
  · rw [hthreads] at ht
    obtain rfl | ⟨j, hji, hj⟩ | ht := threads_call hi ht
    · exact (fits_next cfg hturn hfit).1
    · refine fits_others hturn hfit (hother (Nat.le_of_eq h.runs) hji hj) (hother h.reclaims hji hj) ?_
        (h.fits t (List.mem_of_getElem? hj))
      rintro wg rfl
      have hzero := h.owed wg
      have hle : t.1.owed wg ≤ Machine.total (Duty.owed wg) s := Machine.le_total (List.mem_of_getElem? hj)
      rw [counter_of_wait hsem] at hzero
      omega
    · obtain ⟨q, hq, rfl⟩ := List.mem_map.mp ht
      exact (fits_next cfg hturn hfit).2 q hq
  · have hnext := owed_next cfg (r := r) hturn (fun x hx => hrange x (.inl hx)) ?_ wg
    · have := h.owed wg
      have := htotal (Duty.owed wg)
      rw [hworld, hgroups]
      omega
    · rintro x rfl
      cases hturn with
      | quiet hq => exact hq.elim
      | finish => exact h.counter_pos hmem rfl
  · have := runs_next cfg (r := r) hturn
    have := htotal Duty.runs
    have := h.runs
    omega
  · have := reclaims_next cfg (r := r) hturn
    have := htotal Duty.reclaims
    have := h.reclaims
    omega
  · rw [hworld]
    exact (groups_next hturn hfit hsem h.made h.apart).1
  · exact (groups_next hturn hfit hsem h.made h.apart).2
  · rw [hthreads] at ht
    rw [hworld, hgroups]
    obtain rfl | ⟨j, hji, hj⟩ | ht := threads_call hi ht
    · -- the goroutine has returned just now, or it has had nothing to do with groups
      cases hturn with
      | quiet hq =>
        rw [show (g.next o r).role = g.role from congrArg Duty.role (next_quiet hq)] at hrole
        refine counter_zero ?_ (h.returned _ hmem wg hrole) hrange
        rintro rfl
        exact hq.elim
      | waitWorker x =>
        cases hrole
        exact counter_of_wait hsem
      | _ => cases hrole
    · have hold := List.mem_of_getElem? hj
      refine counter_zero ?_ (h.returned t hold wg hrole) hrange
      rintro rfl
      have hruns : t.1.runs = 1 := by
        unfold Duty.runs
        rw [hrole]
      cases hturn with
      | quiet hq => exact hq.elim
      | addWorker x =>
        have := hother (Nat.le_of_eq h.runs) hji hj rfl
        omega
      | addReclaim x =>
        cases hfit with
        | reclaim => exact h.apart wg ((h.fits t hold).of_returned hrole) rfl
    · obtain ⟨q, hq, rfl⟩ := List.mem_map.mp ht
      cases hturn with
      | quiet hquiet =>
        rw [forks_quiet hquiet] at hq
        cases hq
      | _ => cases hrole

theorem Settled.step {m : Conc.Move Pick Shutdown} (h : Settled s workerWG reclaimWG) (hm : noPanic s m)
    (hstep : (consumer cfg).record dutyRecorder s m = some s') : ∃ wk rc, Settled s' wk rc := by
  have hheeds : Machine.AllHeed dutyRecorder dutyRules s' := by
    refine (disciplined cfg).record h.heeds (fun _ _ _ _ _ _ _ _ _ _ => trivial) ?_ hstep
    rintro t _ i rfl
    exact hm.elim
  obtain ⟨i, c, g, o, k, w, r, rfl, hi, hsem, hs'⟩ | ⟨i, rfl, rfl⟩ | ⟨v, w, ps, rfl, hv, rfl⟩ :=
    Machine.record_cases hstep
  · exact ⟨_, _, h.call hi hsem hs' hheeds⟩
  · exact hm.elim
  · cases hv
    refine ⟨workerWG, reclaimWG, hheeds, ?_, ?_, ?_, ?_, h.made, h.apart, ?_⟩ <;>
      simp only [List.map_nil, List.append_nil]
    · exact h.fits
    · exact h.owed
    · exact h.runs
    · exact h.reclaims
    · exact h.returned

theorem Settled.run (h : Settled s workerWG reclaimWG) (hrun : DutyRun cfg s s') :
    ∃ wk rc, Settled s' wk rc :=
  hrun.invariant (J := fun s => ∃ wk rc, Settled s wk rc) ⟨_, _, h⟩ fun _ _ _ hs hm hstep => by
    obtain ⟨wk, rc, hs⟩ := hs
    exact hs.step hm hstep

/-! ## What the wait means -/

/-- `Run` has returned. -/
def Returned (s : DutyState) : Prop := ∃ t ∈ s.threads, ∃ wg, t.1.role = .returned wg

theorem next_returned {wg : Nat} (hrole : g.role = .returned wg) (o : Op) (r : o.Reply) :
    (g.next o r).role = .returned wg := by
  show g.role.next o r = _
  rw [hrole]
  cases o <;> rfl

theorem returned_run (h : DutyRun cfg s s') (hs : Returned s) : Returned s' := by
  refine h.invariant hs fun s₁ s₂ m h₁ _ hstep => ?_
  obtain ⟨t, ht, wg, hrole⟩ := h₁
  obtain ht' | ⟨i, c, g, o, k, r, rfl, hi, rfl, hsem, ht'⟩ | ⟨i, rfl, hi, ht'⟩ :=
    Machine.record_forward hstep ht
  · exact ⟨t, ht', wg, hrole⟩
  · exact ⟨_, ht', wg, next_returned hrole o r⟩
  · exact ⟨_, ht', wg, hrole⟩

/-- A goroutine performs what its duty allows. -/
theorem Settled.allowed (h : Settled s workerWG reclaimWG) {t : Duty × Program Unit} (ht : t ∈ s.threads)
    {o : Op} (ho : t.2.next = some o) : Allowed t.1 o := by
  obtain ⟨g, p⟩ := t
  cases p with
  | ret a => cases ho
  | call o' k =>
    cases ho
    exact (h.heeds _ ht).1

/-- A reclaim claims nothing while handlers of the messages it has claimed before are at work. -/
theorem Settled.claims_alone (h : Settled s workerWG reclaimWG) {t t' : Duty × Program Unit}
    (ht : t ∈ s.threads) (ht' : t' ∈ s.threads) {minIdle : Int} {startID : String} {count : Nat}
    (hclaim : t.2.next = some (.autoClaim minIdle startID count)) (message : String) :
    t'.2.next ≠ some (.handle true message) := by
  intro hwork
  have hloop : t.1 = ⟨.reclaim none, none⟩ := h.allowed ht hclaim
  obtain ⟨wg, hhandler⟩ : ∃ wg, t'.1 = ⟨.handler wg true, some wg⟩ := h.allowed ht' hwork
  have hfit := h.fits t ht
  have hfit' := h.fits t' ht'
  rw [hloop] at hfit
  rw [hhandler] at hfit'
  cases hfit with
  | reclaim =>
    cases hfit' with
    | reclaimed hnone => cases hnone

/-- When `Run` has returned, no handler of a message that it has read is at work, and it reads
no more. -/
theorem Settled.quiet_of_returned (h : Settled s workerWG reclaimWG) (hreturned : Returned s)
    {t : Duty × Program Unit} (ht : t ∈ s.threads) {o : Op} (ho : t.2.next = some o) :
    (∀ message, o ≠ .handle false message) ∧ ∀ count block, o ≠ .readNew count block := by
  obtain ⟨t₀, ht₀, wg₀, hrole⟩ := hreturned
  have hworker := (h.fits t₀ ht₀).of_returned hrole
  refine ⟨?_, ?_⟩
  · rintro message rfl
    obtain ⟨wg, hhandler⟩ : ∃ wg, t.1 = ⟨.handler wg false, some wg⟩ := h.allowed ht ho
    have hfit := h.fits t ht
    rw [hhandler] at hfit
    cases hfit with
    | handler hwg =>
      rw [hworker] at hwg
      cases hwg
      have hpos := h.counter_pos ht (show t.1.owes = some wg₀ by rw [hhandler])
      have hzero := h.returned t₀ ht₀ wg₀ hrole
      omega
  · rintro count block rfl
    obtain ⟨wg, hloop⟩ : ∃ wg, t.1 = ⟨.run wg, none⟩ := h.allowed ht ho
    obtain ⟨i, hi⟩ := List.getElem?_of_mem ht
    obtain ⟨j, hj⟩ := List.getElem?_of_mem ht₀
    have hruns : t₀.1.runs = 1 := by
      unfold Duty.runs
      rw [hrole]
    have hruns' : t.1.runs = 1 := by
      rw [hloop]
      rfl
    have hsame := Machine.holder_unique (f := Duty.runs) (Nat.le_of_eq h.runs) hi hj (Nat.le_of_eq hruns'.symm)
      (Nat.le_of_eq hruns.symm)
    subst hsame
    rw [hi] at hj
    cases hj
    rw [hloop] at hrole
    cases hrole

/-! ## `Run` can return -/

/-- The goroutines move, and nothing else does. -/
def onlyCalls (_ : DutyState) : Conc.Move Pick Shutdown → Prop
  | .call .. => True
  | _ => False

/-- What the goroutines can do by themselves. -/
abbrev Calls (cfg : ConsumerConfig) (s s' : DutyState) : Prop :=
  Conc.Run ((consumer cfg).record dutyRecorder) onlyCalls s s'

theorem dutyRun_of_calls (h : Calls cfg s s') : DutyRun cfg s s' :=
  h.mono fun _ m hm => by cases m <;> trivial

/-- Every operation but a wait can be performed. -/
theorem performable (w : Pool) {o : Op} (ho : ∀ wg, o ≠ .waitGroup wg) :
    ∃ w' r, perform w o {} = some (w', r) := by
  cases o with
  | waitGroup wg => exact absurd rfl (ho wg)
  | recvSlot =>
    simp only [perform]
    split <;> exact ⟨_, _, rfl⟩
  | sendSlot =>
    simp only [perform]
    split <;> exact ⟨_, _, rfl⟩
  | _ => exact ⟨_, _, rfl⟩

/-- The state after an operation of thread `i`. -/
def after (cfg : ConsumerConfig) (s : DutyState) (i : Nat) (g : Duty) (o : Op) (r : o.Reply)
    (k : o.Reply → Program Unit) (w : Pool) : DutyState :=
  ⟨w, s.threads.set i (g.next o r, k r) ++ (forks cfg o).map fun p => (Duty.fork o, p)⟩

theorem calls_after {i : Nat} {o : Op} {k : o.Reply → Program Unit} {r : o.Reply}
    (hi : s.threads[i]? = some (g, .call o k)) (hp : perform s.world o {} = some (w, r)) :
    Calls cfg s (after cfg s i g o r k w) := by
  refine .step (.call i {}) .init trivial ?_
  simp only [Machine.record, hi]
  have hsem : (consumer cfg).sem s.world o {} = some (w, r) := hp
  rw [hsem]
  rfl

theorem getElem?_after {i : Nat} {o : Op} {k : o.Reply → Program Unit} (r : o.Reply)
    (hi : s.threads[i]? = some (g, .call o k)) (w : Pool) :
    (after cfg s i g o r k w).threads[i]? = some (g.next o r, k r) := by
  have hlt : i < s.threads.length := (List.getElem?_eq_some_iff.mp hi).1
  show (s.threads.set i _ ++ _)[i]? = _
  rw [List.getElem?_append_left (by simpa using hlt), List.getElem?_set_self hlt]

/-- The other goroutines have not moved. -/
theorem mem_after {i : Nat} {o : Op} {k : o.Reply → Program Unit} (r : o.Reply)
    (hi : s.threads[i]? = some (g, .call o k)) (w : Pool) {t : Duty × Program Unit} (ht : t ∈ s.threads)
    (hne : t.1 ≠ g) : t ∈ (after cfg s i g o r k w).threads := by
  obtain ⟨j, hj⟩ := List.getElem?_of_mem ht
  have hji : j ≠ i := by
    rintro rfl
    rw [hi] at hj
    cases hj
    exact hne rfl
  refine List.mem_append_left _ (List.mem_of_getElem? (i := j) ?_)
  rw [List.getElem?_set_ne (Ne.symm hji)]
  exact hj

/-- The handlers of reclaimed messages have not moved. -/
def Kept (s s' : DutyState) : Prop := ∀ t ∈ s.threads, ∀ wg, t.1.role = .handler wg true → t ∈ s'.threads

theorem kept_after {i : Nat} {o : Op} {k : o.Reply → Program Unit} (r : o.Reply)
    (hi : s.threads[i]? = some (g, .call o k)) (w : Pool) (hg : ∀ wg, g.role ≠ .handler wg true) :
    Kept s (after cfg s i g o r k w) := by
  intro t ht wg hrole
  refine mem_after r hi w ht ?_
  rintro rfl
  exact hg wg hrole

/-- `Run` is on its way to its loop or in it. -/
inductive Open : Duty → Prop where
  | setup (reclaiming : Bool) : Open ⟨.setup reclaiming, none⟩
  | run (wg : Nat) (owes : Option Nat) : Open ⟨.run wg, owes⟩

theorem open_next {o : Op} (r : o.Reply) (hopen : Open g) (ht : Turn g o) (ho : ∀ wg, o ≠ .waitGroup wg) :
    Open (g.next o r) ∨ ∃ wg, g = ⟨.run wg, none⟩ ∧ o = .go (.run wg) := by
  cases ht with
  | quiet h =>
    rw [next_quiet h]
    exact .inl hopen
  | makeWorker => exact .inl (.run _ _)
  | addWorker wg => exact .inl (.run _ _)
  | startHandler wg message => exact .inl (.run _ _)
  | startLoop => exact .inl (.setup _)
  | nextRun wg => exact .inr ⟨wg, rfl, rfl⟩
  | waitWorker wg => exact absurd rfl (ho wg)
  | _ => cases hopen

/-- The loop of `Run` at its deferred wait. -/
def waiting (wg : Nat) (k : Unit → Program Unit) : Duty × Program Unit :=
  (⟨.run wg, none⟩, .call (.waitGroup wg) k)

/-- Once the context is cancelled, the loop of `Run` comes to its deferred wait by itself. -/
theorem exists_waiting {p : Program Unit} :
    ∀ {s : DutyState} {g : Duty} {i : Nat} {workerWG reclaimWG : Option Nat},
    Settled s workerWG reclaimWG → s.world.cancelled = true → s.threads[i]? = some (g, p) → Open g →
    ∃ (s' : DutyState) (j wg : Nat) (k : Unit → Program Unit),
      Calls cfg s s' ∧ Kept s s' ∧ s'.threads[j]? = some (waiting wg k) := by
  induction p with
  | ret a =>
    intro s g i _ _ h _ hi hopen
    have hended : Ended g := h.heeds _ (List.mem_of_getElem? hi)
    cases hopen <;> cases hended
  | call o k ih =>
    intro s g i _ _ h hcancelled hi hopen
    have hturn : Turn g o := turn_of_allowed (h.heeds.allowed hi)
    have hrole : ∀ wg, g.role ≠ .handler wg true := by
      intro wg hg
      cases hopen <;> cases hg
    by_cases ho : ∀ wg, o ≠ .waitGroup wg
    · obtain ⟨w, r, hp⟩ := performable s.world ho
      have hcalls : Calls cfg s (after cfg s i g o r k w) := calls_after hi hp
      have hkept : Kept s (after cfg s i g o r k w) := kept_after r hi w hrole
      have hcancelled' : w.cancelled = true := (perform_pool hp).2.trans hcancelled
      obtain ⟨wk, rc, h'⟩ := h.run (dutyRun_of_calls hcalls)
      obtain hopen' | ⟨wg, rfl, rfl⟩ := open_next r hopen hturn ho
      · obtain ⟨s', j, wg, k', hrun, hkept', hj⟩ := ih r h' hcancelled' (getElem?_after r hi w) hopen'
        refine ⟨s', j, wg, k', hcalls.trans hrun, fun t ht x hx => hkept' t (hkept t ht x hx) x hx, hj⟩
      · -- the next turn sees that the context is done
        have hturn : (after cfg s i ⟨.run wg, none⟩ (.go (.run wg)) r k w).threads[s.threads.length]? =
            some (⟨.run wg, none⟩, runTurn cfg wg) := by
          show (s.threads.set i _ ++ [_])[s.threads.length]? = _
          rw [List.getElem?_append_right (by simp), List.length_set, Nat.sub_self]
          rfl
        have hstopped : perform w .ctxErr {} = some (w, true) := by
          rw [← hcancelled']
          rfl
        refine ⟨_, s.threads.length, wg, .ret, hcalls.trans (calls_after hturn hstopped), ?_,
          getElem?_after true hturn w⟩
        intro t ht x hx
        exact kept_after true hturn w (fun _ => nofun) t (hkept t ht x hx) x hx
    · push Not at ho
      obtain ⟨wg, rfl⟩ := ho
      cases hturn with
      | quiet hq => exact hq.elim
      | waitWorker => exact ⟨s, i, wg, k, .init, fun _ ht _ _ => ht, hi⟩
      | waitReclaim => cases hopen

/-- A handler of a message that `Run` has read goes on to its end by itself. -/
theorem finish_handler (cfg : ConsumerConfig) {p : Program Unit} : ∀ {s : DutyState} {g : Duty} {i wg : Nat}
    {workerWG reclaimWG : Option Nat}, Settled s workerWG reclaimWG → s.threads[i]? = some (g, p) →
    g.role = .handler wg false →
    ∃ (s' : DutyState) (g' : Duty), Calls cfg s s' ∧ g'.role = .handler wg false ∧
      s'.threads = s.threads.set i (g', .ret ()) := by
  induction p with
  | ret a =>
    intro s g i wg _ _ _ hi hrole
    refine ⟨s, g, .init, hrole, ?_⟩
    rw [← (List.getElem?_eq_some_iff.mp hi).2, List.set_getElem_self]
  | call o k ih =>
    intro s g i wg _ _ h hi hrole
    have hturn : Turn g o := turn_of_allowed (h.heeds.allowed hi)
    have hquiet : (∀ x, o ≠ .waitGroup x) ∧ forks cfg o = [] ∧ ∀ r, (g.next o r).role = .handler wg false := by
      cases hturn with
      | quiet hq =>
        refine ⟨?_, forks_quiet hq, fun r => ?_⟩
        · rintro x rfl
          exact hq.elim
        · rw [next_quiet hq]
          exact hrole
      | finish x reclaimed => exact ⟨fun _ => nofun, rfl, fun _ => hrole⟩
      | _ => cases hrole
    obtain ⟨ho, hforks, hnext⟩ := hquiet
    obtain ⟨w, r, hp⟩ := performable s.world ho
    have hcalls : Calls cfg s (after cfg s i g o r k w) := calls_after hi hp
    obtain ⟨wk, rc, h'⟩ := h.run (dutyRun_of_calls hcalls)
    obtain ⟨s', g', hrun, hrole', hthreads⟩ := ih r h' (getElem?_after r hi w) (hnext r)
    refine ⟨s', g', hcalls.trans hrun, hrole', hthreads.trans ?_⟩
    show (s.threads.set i _ ++ (forks cfg o).map _).set i _ = _
    rw [hforks, List.map_nil, List.append_nil, List.set_set]

/-- A handler of a message that `Run` has read has not come to its end. -/
def busy (t : Duty × Program Unit) : Bool :=
  match t.1.role, t.2 with
  | .handler _ false, .call _ _ => true
  | _, _ => false

/-- All of them come to their ends, and nobody else moves. -/
theorem finish_handlers (cfg : ConsumerConfig) (n : Nat) : ∀ {s : DutyState} {workerWG reclaimWG : Option Nat},
    Settled s workerWG reclaimWG → s.threads.countP busy = n →
    ∃ s' : DutyState, Calls cfg s s' ∧ s'.threads.countP busy = 0 ∧
      ∀ (j : Nat) (t : Duty × Program Unit), s.threads[j]? = some t → busy t = false →
        s'.threads[j]? = some t := by
  induction n with
  | zero => exact fun {s} _ _ _ hn => ⟨s, .init, hn, fun _ _ hj _ => hj⟩
  | succ n ih =>
    intro s _ _ h hn
    obtain ⟨t, ht, hbusy⟩ := List.countP_pos_iff.mp (hn ▸ Nat.succ_pos n : 0 < s.threads.countP busy)
    obtain ⟨i, hi⟩ := List.getElem?_of_mem ht
    obtain ⟨g, p⟩ := t
    obtain ⟨wg, hrole⟩ : ∃ wg, g.role = .handler wg false := by
      unfold busy at hbusy
      split at hbusy
      · rename_i wg _ _ hrole _
        exact ⟨wg, hrole⟩
      · cases hbusy
    obtain ⟨s₁, g', hrun₁, hrole', hthreads⟩ := finish_handler cfg h hi hrole
    have hidle : busy (g', .ret ()) = false := by
      unfold busy
      rw [hrole']
    have hcount := Machine.countP_set_add (P := busy) (b := (g', Prog.ret ())) hi
    rw [hbusy, hidle, ← hthreads] at hcount
    obtain ⟨wk, rc, h₁⟩ := h.run (dutyRun_of_calls hrun₁)
    obtain ⟨s', hrun, hzero, hsame⟩ := ih h₁ (by simpa [hn] using hcount)
    refine ⟨s', hrun₁.trans hrun, hzero, fun j t hj hfree => hsame j t ?_ hfree⟩
    rw [hthreads, List.getElem?_set_ne ?_]
    · exact hj
    · rintro rfl
      rw [hi] at hj
      cases hj
      rw [hbusy] at hfree
      cases hfree

/-- A group that only finished handlers and the waiting loop have is at zero. -/
theorem Settled.drained (h : Settled s workerWG reclaimWG) (hidle : s.threads.countP busy = 0) {j wg : Nat}
    {k : Unit → Program Unit} (hj : s.threads[j]? = some (waiting wg k)) : s.world.groups[wg]? = some 0 := by
  have hworker : workerWG = some wg := by
    have hfit : Fits workerWG reclaimWG ⟨.run wg, none⟩ := h.fits _ (List.mem_of_getElem? hj)
    cases hfit with
    | run hwg => exact hwg
  have hlt : wg < s.world.groups.length := h.made wg (.inl hworker)
  have hzero : counter s.world.groups wg = 0 := by
    rw [h.owed wg]
    refine Machine.total_eq_zero fun t ht => ?_
    have hfit := h.fits t ht
    have hheeds := h.heeds t ht
    obtain ⟨g, p⟩ := t
    cases hfit with
    | @run x owes hwg howes =>
      -- there is one loop, and it owes nothing while it waits
      obtain ⟨i, hi⟩ := List.getElem?_of_mem ht
      have hsame := Machine.holder_unique (f := Duty.runs) (Nat.le_of_eq h.runs) hi hj (Nat.le_refl 1)
        (Nat.le_refl 1)
      subst hsame
      rw [hj] at hi
      cases hi
      rfl
    | reclaim howes =>
      refine if_neg fun howed => ?_
      obtain hnone | hreclaim := howes
      · rw [show _ = _ from hnone] at howed
        cases howed
      · exact h.apart wg hworker (hreclaim ▸ howed)
    | @handler x hwg =>
      -- such a handler has come to its end, where it owes nothing
      cases p with
      | ret a => cases (show Ended ⟨.handler x false, some x⟩ from hheeds)
      | call o k => exact absurd rfl (List.countP_eq_zero.mp hidle _ ht)
    | @reclaimed x hreclaim =>
      refine if_neg fun howed => ?_
      cases howed
      exact h.apart wg hworker hreclaim
    | _ => rfl
  rw [counter, List.getD_eq_getElem?_getD, List.getElem?_eq_getElem hlt] at hzero
  rw [List.getElem?_eq_getElem hlt]
  exact congrArg some hzero

/-- Once the context is cancelled, `Run` can return, and leave the handlers of reclaimed messages
where they are. -/
theorem Settled.can_return (cfg : ConsumerConfig) (h : Settled s workerWG reclaimWG)
    (hcancelled : s.world.cancelled = true) :
    ∃ s' : DutyState, Calls cfg s s' ∧ Returned s' ∧ Kept s s' := by
  obtain ⟨t, ht, hruns⟩ := Machine.exists_holder (f := Duty.runs) (Nat.le_of_eq h.runs.symm)
  obtain ⟨i, hi⟩ := List.getElem?_of_mem ht
  have hcase : Open t.1 ∨ ∃ wg, t.1.role = .returned wg := by
    have hfit := h.fits t ht
    obtain ⟨g, p⟩ := t
    cases hfit with
    | setup => exact .inl (.setup _)
    | run => exact .inl (.run _ _)
    | returned => exact .inr ⟨_, rfl⟩
    | _ => exact absurd hruns (Nat.not_succ_le_zero 0)
  obtain hopen | ⟨wg, hrole⟩ := hcase
  · obtain ⟨s₁, j, wg, k, hrun₁, hkept₁, hj⟩ := exists_waiting h hcancelled hi hopen
    obtain ⟨wk, rc, h₁⟩ := h.run (dutyRun_of_calls hrun₁)
    obtain ⟨s₂, hrun₂, hidle, hsame⟩ := finish_handlers cfg _ h₁ rfl
    obtain ⟨wk', rc', h₂⟩ := h₁.run (dutyRun_of_calls hrun₂)
    have hj₂ := hsame j _ hj rfl
    have hwait : perform s₂.world (.waitGroup wg) {} = some (s₂.world, ()) := by
      simp only [perform]
      rw [if_pos (h₂.drained hidle hj₂)]
    refine ⟨_, (hrun₁.trans hrun₂).trans (calls_after hj₂ hwait),
      ⟨_, List.mem_of_getElem? (getElem?_after () hj₂ s₂.world), wg, rfl⟩, ?_⟩
    intro t ht x hx
    obtain ⟨n, hn⟩ := List.getElem?_of_mem (hkept₁ t ht x hx)
    have hfree : busy t = false := by
      unfold busy
      rw [hx]
    exact kept_after () hj₂ s₂.world (fun _ => nofun) t (List.mem_of_getElem? (hsame n t hn hfree)) x hx
  · exact ⟨s, .init, ⟨t, ht, wg, hrole⟩, fun _ ht _ _ => ht⟩

/-- `Run` waits for the handlers of the messages it reads, and for these only. Whatever the
interleaving, a `Done` finds its group above zero, and a reclaim claims no messages while those
it has claimed before are handled. When `Run` has returned, no handler of a message that it has
read is at work, and none will be. And once the context is cancelled it can return, without the
handlers of reclaimed messages coming any further. -/
theorem run_waits_for_handlers (h : DutyRun cfg (startOf cfg) s) :
    (∀ t ∈ s.threads, ∀ wg, t.2.next = some (.doneGroup wg) → 1 ≤ counter s.world.groups wg) ∧
    (∀ t ∈ s.threads, ∀ minIdle startID count, t.2.next = some (.autoClaim minIdle startID count) →
      ∀ t' ∈ s.threads, ∀ message, t'.2.next ≠ some (.handle true message)) ∧
    (Returned s → ∀ s', DutyRun cfg s s' → Returned s' ∧ ∀ t ∈ s'.threads, ∀ o, t.2.next = some o →
      (∀ message, o ≠ .handle false message) ∧ ∀ count block, o ≠ .readNew count block) ∧
    (s.world.cancelled = true → ∃ s', Calls cfg s s' ∧ Returned s' ∧
      ∀ t ∈ s.threads, ∀ message, t.2.next = some (.handle true message) → t ∈ s'.threads) := by
  obtain ⟨wk, rc, hs⟩ := (settled_start cfg).run h
  refine ⟨fun t ht wg hdone => ?_, fun t ht _ _ _ hclaim t' ht' message => ?_, fun hreturned s' hrun => ?_,
    fun hcancelled => ?_⟩
  · obtain ⟨reclaimed, hduty⟩ : ∃ reclaimed, t.1 = ⟨.handler wg reclaimed, some wg⟩ := hs.allowed ht hdone
    exact hs.counter_pos ht (by rw [hduty])
  · exact hs.claims_alone ht ht' hclaim message
  · obtain ⟨wk', rc', hs'⟩ := hs.run hrun
    have hreturned' := returned_run hrun hreturned
    exact ⟨hreturned', fun t ht o ho => hs'.quiet_of_returned hreturned' ht ho⟩
  · obtain ⟨s', hrun, hreturned, hkept⟩ := hs.can_return cfg hcancelled
    refine ⟨s', hrun, hreturned, fun t ht message hwork => ?_⟩
    obtain ⟨wg, hduty⟩ : ∃ wg, t.1 = ⟨.handler wg true, some wg⟩ := hs.allowed ht hwork
    exact hkept t ht wg (by rw [hduty])

/-- A worker with two slots. -/
def twoSlots : ConsumerConfig := ⟨2, 16, 2000, 16, 60, 5, 100⟩

/-- `Run` reads one message and a reclaim claims another. The context is cancelled, and the
handler of the first message comes to its end. -/
def readAndReclaim : List (Conc.Move Pick Shutdown) :=
  List.replicate 3 (.call 0 {}) ++ List.replicate 4 (.call 2 {}) ++ [.call 2 { read := .ok [["7-0"]] }] ++
    List.replicate 4 (.call 2 {}) ++ List.replicate 5 (.call 1 {}) ++
    [.call 1 { claim := .ok (["5-0"], "0-0") }] ++ List.replicate 3 (.call 1 {}) ++
    [.env .cancel, .call 4 {}] ++ List.replicate 3 (.call 3 {}) ++ [.call 4 {}]

/-- `Run` has returned, and the handler of the other message is still at work. -/
theorem run_waits_for_handlers_read :
    let s := playAll ((consumer twoSlots).record dutyRecorder) noPanic (startOf twoSlots) readAndReclaim
    Returned s ∧ (s.threads[5]?.bind fun t => t.2.next) = some (.handle true "5-0") ∧
      ∀ s', DutyRun twoSlots s s' → Returned s' := by
  intro s
  have hrun : DutyRun twoSlots (startOf twoSlots) s := Conc.Run.init.playAll readAndReclaim
  have hreturned : Returned s := by
    have hduty : s.threads[4]?.map Prod.fst = some ⟨.returned 0, none⟩ := by decide +kernel
    obtain ⟨t, ht, hrole⟩ := Option.map_eq_some_iff.mp hduty
    exact ⟨t, List.mem_of_getElem? ht, 0, congrArg Duty.role hrole⟩
  have hwork : (s.threads[5]?.bind fun t => t.2.next) = some (.handle true "5-0") := by decide +kernel
  exact ⟨hreturned, hwork, fun s' hrun' => ((run_waits_for_handlers hrun).2.2.1 hreturned s' hrun').1⟩

end DeepOj.Worker.RunReturn
