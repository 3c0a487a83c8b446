import DeepOj.Worker.SlotPool

/-!
# No slot is lost

Each goroutine's record counts the slots it has taken and not given back. A program
is checked against its own count; the free slots and the counts then add up to the
capacity in every state, so a slot that is given back always fits.
-/

namespace DeepOj.Worker.Slots

open Conc Go

/-- What a goroutine holds. -/
structure Holding where
  handler : Bool := false
  slots : Nat := 0
  deriving DecidableEq, Repr

/-- What an operation and its reply do to a holding: a handler takes over the slot
of the goroutine that starts it. -/
def Holding.next (g : Holding) : (o : Op) → o.Reply → Holding
  | .recvSlot, true => { g with slots := g.slots + 1 }
  | .waitSlot _, true => { g with slots := g.slots + 1 }
  | .sendSlot, true => { g with slots := g.slots - 1 }
  | .go (.handler ..), _ => { g with slots := g.slots - 1 }
  | _, _ => g

/-- The holding of the goroutines an operation starts. -/
def Holding.fork : Op → Holding
  | .go (.handler ..) => { handler := true, slots := 1 }
  | _ => {}

/-- The recorder of the consumer. -/
def recorder : Recorder Op Op.Reply Shutdown Holding where
  start _ := {}
  fork := Holding.fork
  next := Holding.next

/-- When a goroutine may perform an operation: it gives back, passes on and works
with slots it holds. -/
def Allowed (g : Holding) : Op → Prop
  | .sendSlot => 1 ≤ g.slots
  | .go (.handler ..) => 1 ≤ g.slots
  | .handle .. => g.handler = true ∧ 1 ≤ g.slots
  | _ => True

/-- What the goroutine expects: a slot given back fits into the channel, and the
stream returns no more messages than it was asked for. -/
def Promised : (o : Op) → o.Reply → Prop
  | .sendSlot, r => r = true
  | .readNew count _, .ok streams => streams.flatten.length ≤ count
  | .autoClaim _ _ count, .ok (msgs, _) => msgs.length ≤ count
  | _, _ => True

/-- The rules of the goroutines: a goroutine that has ended holds nothing. -/
def slotRules : Rules Op Op.Reply Holding where
  allowed := Allowed
  promised _ := Promised
  ended g := g.slots = 0

/-- The program keeps the rules from the holding `g`. -/
abbrev Obeys {α : Type} (g : Holding) (p : Program α) (Q : Holding → α → Prop) : Prop :=
  Conc.Obeys recorder slotRules g p Q

/-! ## What the programs do to their holding -/

section Programs

variable {h : Bool} {n : Nat}

/-- An operation that neither takes nor gives a slot. -/
theorem obeys_op {α : Type} {g : Holding} {o : Op} {f : o.Reply → Program α}
    {Q : Holding → α → Prop} (ha : Allowed g o) (hn : ∀ r, g.next o r = g)
    (hf : ∀ r, Promised o r → Obeys g (f r) Q) : Obeys g (op o >>= f) Q := by
  refine .effect ha fun r hr => ?_
  show Obeys (g.next o r) (f r) Q
  rw [hn r]
  exact hf r hr

theorem obeys_last {g : Holding} {o : Op} (ha : Allowed g o) (hn : ∀ r, g.next o r = g) :
    Obeys g (op o) fun g' _ => g' = g :=
  .perform ha fun r _ => hn r

/-- `reserveSlots` takes what it returns, and no more than it was asked for. -/
theorem obeys_reserveUpTo (limit : Nat) :
    Obeys ⟨h, n⟩ (reserveUpTo limit) fun g' k => g' = ⟨h, n + k⟩ ∧ k ≤ limit := by
  induction limit generalizing n with
  | zero => exact .pure ⟨rfl, Nat.le_refl 0⟩
  | succ limit ih =>
    refine .effect trivial fun r _ => ?_
    cases r with
    | false => exact .pure ⟨rfl, Nat.zero_le _⟩
    | true =>
      refine .bind (ih (n := n + 1)) fun g' k hk => .pure ⟨?_, ?_⟩
      · rw [hk.1, show n + 1 + k = n + (k + 1) by omega]
      · omega

theorem obeys_reserveSlots (limit : Int) :
    Obeys ⟨h, n⟩ (reserveSlots limit) fun g' k => g' = ⟨h, n + k⟩ ∧ k ≤ limit.toNat :=
  obeys_reserveUpTo limit.toNat

/-- `releaseSlots` gives back as many as it is asked for. -/
theorem obeys_releaseUpTo (count : Nat) (hn : count ≤ n) :
    Obeys ⟨h, n⟩ (releaseUpTo count) fun g' _ => g' = ⟨h, n - count⟩ := by
  induction count generalizing n with
  | zero => exact .pure rfl
  | succ count ih =>
    refine .effect (show 1 ≤ n by omega) fun r hr => ?_
    -- the slot fits, so the loop does not stop early
    obtain rfl : r = true := hr
    refine (ih (n := n - 1) (by omega)).mono fun g' _ hg => ?_
    rw [hg, show n - 1 - count = n - (count + 1) by omega]

theorem obeys_releaseSlots {count : Int} {k : Nat} (hk : count.toNat = k) (hn : k ≤ n) :
    Obeys ⟨h, n⟩ (releaseSlots count) fun g' _ => g' = ⟨h, n - k⟩ := by
  unfold releaseSlots
  rw [hk]
  exact obeys_releaseUpTo k hn

theorem obeys_reserveSlotsWithWait (limit wait : Int) :
    Obeys ⟨h, n⟩ (reserveSlotsWithWait limit wait) fun g' k => g' = ⟨h, n + k⟩ := by
  unfold reserveSlotsWithWait
  by_cases hl : limit ≤ 0
  · rw [if_pos hl]
    exact .pure rfl
  · rw [if_neg hl]
    refine .bind (obeys_reserveSlots limit) fun g' k hk => ?_
    obtain ⟨rfl, -⟩ := hk
    by_cases hk : k > 0
    · rw [if_pos hk]
      exact .pure rfl
    · rw [if_neg hk]
      obtain rfl : k = 0 := by omega
      by_cases hw : wait ≤ 0
      · rw [if_pos hw]
        exact .pure rfl
      · rw [if_neg hw]
        refine .effect trivial fun r _ => ?_
        cases r with
        | false => exact .pure rfl
        | true =>
          show Obeys ⟨h, n + 1⟩ (if 1 < limit then _ else _) _
          by_cases h1 : 1 < limit
          · rw [if_pos h1]
            refine .bind (obeys_reserveSlots (limit - 1)) fun g' k hk => ?_
            obtain ⟨rfl, -⟩ := hk
            exact .pure (by rw [show n + 1 + k = n + (1 + k) by omega])
          · rw [if_neg h1]
            exact .pure rfl

/-- Each handler takes one slot over. -/
theorem obeys_startHandlers (wg : Nat) (reclaimed : Bool) (msgs : List String)
    (hn : msgs.length ≤ n) :
    Obeys ⟨h, n⟩ (startHandlers wg reclaimed msgs) fun g' _ => g' = ⟨h, n - msgs.length⟩ := by
  induction msgs generalizing n with
  | nil => exact .pure rfl
  | cons msg rest ih =>
    rw [List.length_cons] at hn
    refine obeys_op trivial (fun _ => rfl) fun _ _ => ?_
    refine .effect (show 1 ≤ n by omega) fun _ _ => ?_
    refine (ih (n := n - 1) (by omega)).mono fun g' _ hg => ?_
    rw [hg, List.length_cons, show n - 1 - rest.length = n - (rest.length + 1) by omega]

/-- The slots that are not handed out are given back. -/
theorem obeys_handOut (wg : Nat) (reclaimed : Bool) {msgs : List String} (hn : msgs.length ≤ n) :
    Obeys ⟨h, n⟩ (handOut wg reclaimed n msgs) fun g' _ => g' = ⟨h, 0⟩ := by
  unfold handOut
  refine .bind (obeys_startHandlers wg reclaimed msgs hn) fun g' _ hg => ?_
  subst hg
  dsimp only
  by_cases hr : (n : Int) - msgs.length > 0
  · rw [if_pos hr]
    refine (obeys_releaseSlots (k := n - msgs.length) (by omega) (Nat.le_refl _)).mono ?_
    intro g' _ hg
    rw [hg, Nat.sub_self]
  · rw [if_neg hr]
    exact .pure (by rw [show n - msgs.length = 0 by omega])

/-- All the slots are given back. -/
theorem obeys_releaseAll (n : Nat) :
    Obeys ⟨h, n⟩ (releaseSlots n) fun g' _ => g' = ⟨h, 0⟩ :=
  (obeys_releaseSlots (k := n) (Int.toNat_natCast n) (Nat.le_refl n)).mono fun g' _ hg => by
    rw [hg, Nat.sub_self]

/-- A last operation without slots. -/
theorem obeys_idle {o : Op} (ha : Allowed ⟨h, 0⟩ o)
    (hn : ∀ r, Holding.next ⟨h, 0⟩ o r = ⟨h, 0⟩) :
    Obeys ⟨h, 0⟩ (op o) fun g' _ => g'.slots = 0 :=
  (obeys_last ha hn).mono fun g' _ hg => by rw [hg]

theorem obeys_runTurn (cfg : ConsumerConfig) (wg : Nat) :
    Obeys {} (runTurn cfg wg) fun g' _ => g'.slots = 0 := by
  have hreturn : Obeys {} (op (.waitGroup wg)) fun g' _ => g'.slots = 0 :=
    obeys_idle trivial fun _ => rfl
  have hcontinue : Obeys {} (op (.go (.run wg))) fun g' _ => g'.slots = 0 :=
    obeys_idle trivial fun _ => rfl
  unfold runTurn
  refine obeys_op trivial (fun _ => rfl) fun stopped _ => ?_
  cases stopped with
  | true => exact hreturn
  | false =>
    refine .bind (obeys_reserveSlots _) fun g' reserved hg => ?_
    obtain ⟨rfl, -⟩ := hg
    rw [Nat.zero_add]
    by_cases hr : reserved = 0
    · subst hr
      rw [if_pos rfl]
      refine obeys_op trivial (fun _ => rfl) fun stopped _ => ?_
      cases stopped with
      | true => exact hreturn
      | false => exact hcontinue
    · rw [if_neg hr]
      refine obeys_op trivial (fun _ => rfl) fun answer hp => ?_
      cases answer with
      | error err =>
        refine .bind (obeys_releaseAll reserved) fun g' _ hg => ?_
        subst hg
        by_cases he : err = .cancelled
        · rw [if_pos he]
          exact hreturn
        · rw [if_neg he]
          exact hcontinue
      | ok streams =>
        refine .bind (obeys_handOut wg false hp) fun g' _ hg => ?_
        subst hg
        exact hcontinue

theorem obeys_advance (nextID : String) {g : Holding} :
    Obeys g (advance nextID) fun g' _ => g' = g := by
  unfold advance
  by_cases hn : nextID ≠ ""
  · rw [if_pos hn]
    exact obeys_last trivial fun _ => rfl
  · rw [if_neg hn]
    exact .pure rfl

theorem obeys_topUp (count : Int) (n : Nat) :
    Obeys ⟨h, n⟩ (topUp count n) fun g' k => g' = ⟨h, k⟩ := by
  unfold topUp
  by_cases hn : n = 0
  · subst hn
    rw [if_pos rfl]
    exact .pure rfl
  · rw [if_neg hn]
    by_cases hc : (n : Int) < count
    · rw [if_pos hc]
      exact .bind (obeys_reserveSlots _) fun g' k hg => .pure hg.1
    · rw [if_neg hc]
      exact .pure rfl

theorem obeys_reserveForReclaim (cfg : ConsumerConfig) (count : Int) :
    Obeys {} (reserveForReclaim cfg count) fun g' k => g' = ⟨false, k⟩ := by
  unfold reserveForReclaim
  refine .bind (obeys_reserveSlots count) fun g' first hg => ?_
  obtain ⟨rfl, -⟩ := hg
  rw [Nat.zero_add]
  by_cases hf : first = 0
  · subst hf
    rw [if_pos rfl]
    refine .bind (obeys_reserveSlotsWithWait 1 _) fun g' waited hg => ?_
    rw [hg, Nat.zero_add]
    exact obeys_topUp count waited
  · rw [if_neg hf]
    exact obeys_topUp count first

theorem obeys_reclaimTurn (cfg : ConsumerConfig) (startID : String) :
    Obeys {} (reclaimTurn cfg startID) fun g' _ => g' = {} := by
  unfold reclaimTurn
  dsimp only
  refine .bind (obeys_reserveForReclaim cfg _) fun g' reserved hg => ?_
  subst hg
  by_cases hr : reserved = 0
  · subst hr
    rw [if_pos rfl]
    exact .pure rfl
  · rw [if_neg hr]
    refine obeys_op trivial (fun _ => rfl) fun answer hp => ?_
    cases answer with
    | error err =>
      refine .bind (obeys_releaseAll reserved) fun g' _ hg => ?_
      exact .pure hg
    | ok claimed =>
      obtain ⟨msgs, nextID⟩ := claimed
      dsimp only
      by_cases hm : msgs.length = 0
      · rw [if_pos hm]
        refine .bind (obeys_releaseAll reserved) fun g' _ hg => ?_
        subst hg
        exact .bind (obeys_advance nextID) fun g' _ hg => .pure hg
      · rw [if_neg hm]
        refine obeys_op trivial (fun _ => rfl) fun wg _ => ?_
        refine .bind (obeys_handOut wg true hp) fun g' _ hg => ?_
        subst hg
        refine obeys_op trivial (fun _ => rfl) fun _ _ => ?_
        refine .bind (obeys_advance nextID) fun g' _ hg => ?_
        subst hg
        split
        · exact .pure rfl
        · split <;> exact .pure rfl

theorem obeys_reclaimFrom (cfg : ConsumerConfig) (startID : String) :
    Obeys {} (reclaimFrom cfg startID) fun g' _ => g'.slots = 0 := by
  unfold reclaimFrom
  refine .bind (obeys_reclaimTurn cfg startID) fun g' next hg => ?_
  subst hg
  cases next <;> exact obeys_idle trivial fun _ => rfl

theorem obeys_runReclaimLoop (cfg : ConsumerConfig) :
    Obeys {} (runReclaimLoop cfg) fun g' _ => g'.slots = 0 := by
  unfold runReclaimLoop
  refine obeys_op trivial (fun _ => rfl) fun tick _ => ?_
  cases tick with
  | false => exact .pure rfl
  | true => exact obeys_op trivial (fun _ => rfl) fun startID _ => obeys_reclaimFrom cfg _

theorem obeys_consume : Obeys {} consume fun g' _ => g'.slots = 0 := by
  refine obeys_op trivial (fun _ => rfl) fun _ _ => ?_
  refine obeys_op trivial (fun _ => rfl) fun wg _ => ?_
  exact obeys_idle trivial fun _ => rfl

theorem obeys_handleAndRelease (wg : Nat) (reclaimed : Bool) (msg : String) :
    Obeys ⟨true, 1⟩ (handleAndRelease wg reclaimed msg) fun g' _ => g'.slots = 0 := by
  refine obeys_op ⟨rfl, Nat.le_refl 1⟩ (fun _ => rfl) fun _ _ => ?_
  refine .bind (obeys_releaseAll 1) fun g' _ hg => ?_
  subst hg
  exact obeys_idle trivial fun _ => rfl

end Programs

/-! ## Runs -/

/-- A recorded state of the consumer. -/
abbrev SlotState := RecordedConfig Pool Op Op.Reply Holding

/-- The consumer as `Run` starts it, with every slot free. -/
def startOf (cfg : ConsumerConfig) : SlotState :=
  ⟨⟨maxConcurrency cfg, maxConcurrency cfg, false, "0-0", []⟩, [({}, consume)]⟩

/-- No goroutine panics. -/
def noPanic (_ : SlotState) : Conc.Move Pick Shutdown → Prop
  | .crash _ => False
  | _ => True

instance (s : SlotState) (m : Conc.Move Pick Shutdown) : Decidable (noPanic s m) :=
  match m with
  | .crash _ => inferInstanceAs (Decidable False)
  | .call .. => inferInstanceAs (Decidable True)
  | .env _ => inferInstanceAs (Decidable True)

/-- A run of the consumer. -/
abbrev SlotRun (cfg : ConsumerConfig) (s : SlotState) : Prop :=
  Conc.Run ((consumer cfg).record recorder) noPanic (startOf cfg) s

/-- The slots the two loops have reserved. -/
def reservedSlots (s : SlotState) : Nat :=
  Machine.total (fun g => if g.handler then 0 else g.slots) s

/-- The slots the handlers hold. -/
def heldSlots (s : SlotState) : Nat :=
  Machine.total (fun g => if g.handler then g.slots else 0) s

/-- The goroutine is in `handleMessage` or `handleReclaimedMessage`. -/
def handling (t : Holding × Program Unit) : Bool :=
  match t.2.next with
  | some (.handle ..) => true
  | _ => false

/-- The number of handlers at work. -/
def runningHandlers (s : SlotState) : Nat := s.threads.countP handling

/-- The accounts of the pool. -/
structure Conserved (cfg : ConsumerConfig) (s : SlotState) : Prop where
  sum : s.world.free + reservedSlots s + heldSlots s = maxConcurrency cfg
  running : runningHandlers s ≤ maxConcurrency cfg
  /-- A slot that is given back is one the goroutine holds, and it fits. -/
  release : ∀ t ∈ s.threads, t.2.next = some .sendSlot →
    1 ≤ t.1.slots ∧ s.world.free < s.world.cap
  /-- A goroutine that has ended holds no slot. -/
  ended : ∀ t ∈ s.threads, t.2.next = none → t.1.slots = 0

theorem disciplined (cfg : ConsumerConfig) : (consumer cfg).Disciplined recorder slotRules where
  env := fun w v w' ps hv p hp => by
    cases hv
    cases hp
  forks := fun o p hp => by
    cases o with
    | go r =>
      rw [List.mem_singleton.mp hp]
      cases r with
      | run wg => exact (obeys_runTurn cfg wg).heeds
      | reclaimLoop => exact (obeys_runReclaimLoop cfg).heeds
      | reclaim startID => exact (obeys_reclaimFrom cfg startID).heeds
      | handler wg reclaimed msg => exact (obeys_handleAndRelease wg reclaimed msg).heeds
    | _ => cases hp

/-- An operation moves slots between the channel, its goroutine and the goroutine it
starts. -/
theorem balance_perform {w w' : Pool} {g : Holding} {o : Op} {p : Pick} {r : o.Reply}
    (cfg : ConsumerConfig) (ha : Allowed g o) (h : perform w o p = some (w', r)) :
    w'.cap = w.cap ∧
      w'.free + (g.next o r).slots + (forks cfg o).length * (Holding.fork o).slots =
        w.free + g.slots := by
  have hsame : w'.free = w.free → w'.cap = w.cap → (g.next o r).slots = g.slots →
      (forks cfg o).length * (Holding.fork o).slots = 0 →
      w'.cap = w.cap ∧
        w'.free + (g.next o r).slots + (forks cfg o).length * (Holding.fork o).slots =
          w.free + g.slots := by
    intro h₁ hc h₂ h₃
    exact ⟨hc, by omega⟩
  cases o with
  | recvSlot =>
    simp only [perform] at h
    by_cases hf : 0 < w.free
    · rw [if_pos hf] at h
      cases h
      refine ⟨rfl, ?_⟩
      show w.free - 1 + (g.slots + 1) + 0 * 0 = w.free + g.slots
      omega
    · rw [if_neg hf] at h
      cases h
      exact hsame rfl rfl rfl rfl
  | waitSlot wait =>
    simp only [perform] at h
    by_cases hs : p.slot = true
    · rw [if_pos hs] at h
      by_cases hf : 0 < w.free
      · rw [if_pos hf] at h
        cases h
        refine ⟨rfl, ?_⟩
        show w.free - 1 + (g.slots + 1) + 0 * 0 = w.free + g.slots
        omega
      · rw [if_neg hf] at h
        cases h
    · rw [if_neg hs] at h
      split at h
      · cases h
      · cases h
        exact hsame rfl rfl rfl rfl
  | sendSlot =>
    simp only [perform] at h
    by_cases hf : w.free < w.cap
    · rw [if_pos hf] at h
      cases h
      have hg : 1 ≤ g.slots := ha
      refine ⟨rfl, ?_⟩
      show w.free + 1 + (g.slots - 1) + 0 * 0 = w.free + g.slots
      omega
    · rw [if_neg hf] at h
      cases h
      exact hsame rfl rfl rfl rfl
  | pause wait =>
    simp only [perform] at h
    split at h
    · cases h
    · cases h
      exact hsame rfl rfl rfl rfl
  | tick =>
    simp only [perform] at h
    split at h
    · cases h
    · cases h
      exact hsame rfl rfl rfl rfl
  | readNew count block =>
    simp only [perform] at h
    split at h
    · cases h
      exact hsame rfl rfl rfl rfl
    · split at h
      · cases h
        exact hsame rfl rfl rfl rfl
      · cases h
  | autoClaim minIdle startID count =>
    simp only [perform] at h
    split at h
    · cases h
      exact hsame rfl rfl rfl rfl
    · split at h
      · cases h
        exact hsame rfl rfl rfl rfl
      · cases h
  | waitGroup wg =>
    simp only [perform] at h
    split at h
    · cases h
      exact hsame rfl rfl rfl rfl
    · cases h
  | go routine =>
    cases h
    cases routine with
    | handler wg reclaimed msg =>
      have hg : 1 ≤ g.slots := ha
      refine ⟨rfl, ?_⟩
      show w.free + (g.slots - 1) + 1 * 1 = w.free + g.slots
      omega
    | run wg => exact hsame rfl rfl rfl rfl
    | reclaimLoop => exact hsame rfl rfl rfl rfl
    | reclaim startID => exact hsame rfl rfl rfl rfl
  | ctxErr => cases h; exact hsame rfl rfl rfl rfl
  | getReclaimNextStartID => cases h; exact hsame rfl rfl rfl rfl
  | setReclaimNextStartID next => cases h; exact hsame rfl rfl rfl rfl
  | newGroup => cases h; exact hsame rfl rfl rfl rfl
  | addGroup wg => cases h; exact hsame rfl rfl rfl rfl
  | doneGroup wg => cases h; exact hsame rfl rfl rfl rfl
  | handle reclaimed msg => cases h; exact hsame rfl rfl rfl rfl

/-- The channel and the stream keep their promises, when a slot fits. -/
theorem promised_perform {w w' : Pool} {o : Op} {p : Pick} {r : o.Reply}
    (hfit : o = .sendSlot → w.free < w.cap) (h : perform w o p = some (w', r)) :
    Promised o r := by
  cases o with
  | sendSlot =>
    simp only [perform] at h
    rw [if_pos (hfit rfl)] at h
    cases h
    rfl
  | readNew count block =>
    simp only [perform] at h
    split at h
    · cases h
      trivial
    · split at h
      · rename_i hle
        cases h
        exact hle
      · cases h
  | autoClaim minIdle startID count =>
    simp only [perform] at h
    split at h
    · cases h
      trivial
    · split at h
      · rename_i hle
        cases h
        exact hle
      · cases h
  | _ => trivial

/-- The invariant: the programs are in step with their holdings, and the slots add up. -/
structure Accounted (cfg : ConsumerConfig) (s : SlotState) : Prop where
  heeds : Machine.AllHeed recorder slotRules s
  cap : s.world.cap = maxConcurrency cfg
  sum : s.world.free + Machine.total Holding.slots s = maxConcurrency cfg

theorem accounted_start (cfg : ConsumerConfig) : Accounted cfg (startOf cfg) where
  heeds := fun t ht => by
    rw [List.mem_singleton.mp ht]
    exact obeys_consume.heeds
  cap := rfl
  sum := rfl

/-- A slot that a goroutine holds fits into the channel. -/
theorem Accounted.fits {cfg : ConsumerConfig} {s : SlotState} (h : Accounted cfg s)
    {t : Holding × Program Unit} (ht : t ∈ s.threads) (hs : 1 ≤ t.1.slots) :
    s.world.free < s.world.cap := by
  have hle : t.1.slots ≤ Machine.total Holding.slots s := Machine.le_total ht
  have hsum := h.sum
  rw [h.cap]
  omega

theorem Accounted.step {cfg : ConsumerConfig} {s s' : SlotState} {m : Conc.Move Pick Shutdown}
    (h : Accounted cfg s) (hm : noPanic s m) (hstep : (consumer cfg).record recorder s m = some s') :
    Accounted cfg s' := by
  have hfit : ∀ {i : Nat} {g : Holding} {o : Op} {k : o.Reply → Program Unit},
      s.threads[i]? = some (g, .call o k) → o = .sendSlot → s.world.free < s.world.cap := by
    rintro i g o k hi rfl
    exact h.fits (List.mem_of_getElem? hi) (h.heeds.allowed hi)
  have hheeds : Machine.AllHeed recorder slotRules s' := by
    refine (disciplined cfg).record h.heeds ?_ ?_ hstep
    · rintro i c g o k w r rfl hi hsem
      exact promised_perform (hfit hi) hsem
    · rintro t _ i rfl
      exact hm.elim
  obtain ⟨i, c, g, o, k, w, r, rfl, hi, hsem, hs'⟩ | ⟨i, rfl, rfl⟩ | ⟨v, w, ps, rfl, hv, rfl⟩ :=
    Machine.record_cases hstep
  · refine ⟨hheeds, ?_, ?_⟩
    · rw [hs']
      exact (balance_perform cfg (h.heeds.allowed hi) hsem).1.trans h.cap
    · have hbal := (balance_perform cfg (h.heeds.allowed hi) hsem).2
      have htot := Machine.total_call (f := Holding.slots) hi hs'
      have hsum := h.sum
      have hw : s'.world = w := by rw [hs']
      change _ + _ = _ + (g.next o r).slots + (forks cfg o).length * (Holding.fork o).slots at htot
      rw [hw]
      omega
  · exact hm.elim
  · cases hv
    refine ⟨hheeds, h.cap, ?_⟩
    have hsum := h.sum
    simpa only [Machine.total, List.map_nil, List.append_nil] using hsum

theorem accounted_of_run {cfg : ConsumerConfig} {s : SlotState} (h : SlotRun cfg s) :
    Accounted cfg s :=
  h.invariant (accounted_start cfg) fun _ _ _ hs hm hstep => hs.step hm hstep

/-- Every slot is held by a loop or by a handler. -/
theorem reserved_add_held (s : SlotState) :
    reservedSlots s + heldSlots s = Machine.total Holding.slots s := by
  unfold reservedSlots heldSlots Machine.total
  induction s.threads with
  | nil => rfl
  | cons t l ih =>
    simp only [List.map_cons, List.sum_cons] at ih ⊢
    cases t.1.handler with
    | true =>
      simp only [if_true]
      omega
    | false =>
      simp only [Bool.false_eq_true, if_false]
      omega

/-- A handler at work holds a slot. -/
theorem Accounted.running_le_held {cfg : ConsumerConfig} {s : SlotState} (h : Accounted cfg s) :
    runningHandlers s ≤ heldSlots s := by
  refine Machine.countP_le_total fun t ht hp => ?_
  obtain ⟨g, p⟩ := t
  cases p with
  | ret a => cases hp
  | call o k =>
    cases o with
    | handle reclaimed msg =>
      obtain ⟨i, hi⟩ := List.getElem?_of_mem ht
      obtain ⟨hh, hs⟩ : g.handler = true ∧ 1 ≤ g.slots := h.heeds.allowed hi
      show 1 ≤ if g.handler = true then g.slots else 0
      rw [if_pos hh]
      exact hs
    | _ => cases hp

/-- Whatever the interleaving of the loop that reads, the loop that reclaims and the
handlers, and whatever the stream answers: the free slots, the reserved ones and those
the handlers hold add up to the capacity. So no more handlers run than that, every
slot that is given back is one that was taken and fits into the channel, and a
goroutine that has ended has given all its slots back. -/
theorem slots_conserved {cfg : ConsumerConfig} {s : SlotState} (h : SlotRun cfg s) :
    Conserved cfg s := by
  have ha : Accounted cfg s := accounted_of_run h
  have hsplit : reservedSlots s + heldSlots s = Machine.total Holding.slots s :=
    reserved_add_held s
  have hsum := ha.sum
  refine ⟨by omega, ?_, fun t ht hn => ?_, fun t ht hn => ?_⟩
  · have hle : runningHandlers s ≤ heldSlots s := ha.running_le_held
    omega
  · obtain ⟨g, p⟩ := t
    cases p with
    | ret a => cases hn
    | call o k =>
      obtain rfl : o = .sendSlot := Option.some.inj hn
      have hg : 1 ≤ g.slots := (ha.heeds _ ht).1
      exact ⟨hg, ha.fits ht hg⟩
  · obtain ⟨g, p⟩ := t
    cases p with
    | ret a => exact ha.heeds _ ht
    | call o k => cases hn

/-- A worker with two slots. -/
def twoSlots : ConsumerConfig := ⟨2, 16, 2000, 16, 60, 5, 100⟩

/-- A read returns one message and a reclaim another, so that both slots are held. -/
def bothHeld : List (Conc.Move Pick Shutdown) :=
  List.replicate 3 (.call 0 {}) ++ List.replicate 4 (.call 2 {}) ++
    [.call 2 { read := .ok [["7-0"]] }] ++ List.replicate 4 (.call 2 {}) ++
    List.replicate 5 (.call 1 {}) ++ [.call 1 { claim := .ok (["5-0"], "0-0") }] ++
    List.replicate 3 (.call 1 {})

/-- Two handlers run, and no slot is free. -/
theorem slots_conserved_both :
    let s := playAll ((consumer twoSlots).record recorder) noPanic (startOf twoSlots) bothHeld
    s.world.free = 0 ∧ runningHandlers s = 2 ∧ Conserved twoSlots s := by
  intro s
  have hrun : SlotRun twoSlots s := Conc.Run.init.playAll bothHeld
  have hfree : s.world.free = 0 := by decide +kernel
  have hhandlers : runningHandlers s = 2 := by decide +kernel
  exact ⟨hfree, hhandlers, slots_conserved hrun⟩

end DeepOj.Worker.Slots
