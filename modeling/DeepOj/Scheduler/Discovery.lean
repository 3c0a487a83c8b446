import DeepOj.Conc.Run
import DeepOj.Go.JsonMarshal
import DeepOj.Go.Trim
import DeepOj.Naming.Suffix
import Mathlib.Data.List.Infix

/-!
# The workers a scheduler knows

The endpoints are parsed from one text, in which ids are written or left out. A worker is handed out
with its id and its address in turn, and whether it is there is asked by the id alone.
-/

namespace DeepOj.Scheduler.Discovery

open Go Conc

/-- `workerEndpoint`. -/
structure WorkerEndpoint where
  id : Bytes
  addr : Bytes
  deriving DecidableEq, Repr

/-- `WorkerDiscovery`; the timeout is in nanoseconds. -/
structure WorkerDiscovery where
  workers : List WorkerEndpoint
  rrIndex : UInt64 := 0
  probeTimeout : Int64
  deriving DecidableEq, Repr

/-! ## `parseWorkerEndpoints` -/

def comma : UInt8 := 44
def equals : UInt8 := 61

/-- `strings.SplitN(s, sep, 2)`, where `sep` occurs. -/
def splitFirst (sep : UInt8) (s : Bytes) : Bytes × Bytes :=
  (s.takeWhile (· ≠ sep), (s.dropWhile (· ≠ sep)).drop 1)

/-- The id and the address that are written in a part; an id that is not is empty. -/
def splitPart (part : Bytes) : Bytes × Bytes :=
  if equals ∈ part then
    let pair := splitFirst equals part
    (trimSpaces pair.1, trimSpaces pair.2)
  else ([], part)

/-- `worker-%d`. -/
def workerID (number : Nat) : Bytes := utf8 "worker-" ++ Json.natText number

/-- `%s-%d`. -/
def suffixed (id : Bytes) (number : Nat) : Bytes := id ++ utf8 "-" ++ Json.natText number

/-- One turn of the loop up to the test of the id; `none` is `continue`. -/
def readPart (idx : Nat) (part : Bytes) : Option WorkerEndpoint :=
  let part := trimSpaces part
  if part = [] then none
  else
    let (id, addr) := splitPart part
    if addr = [] then none
    else some ⟨if id = [] then workerID (idx + 1) else id, addr⟩

/-- The loop over the parts. -/
def parseParts (idx : Nat) (seenIDs : List Bytes) : List Bytes → List WorkerEndpoint
  | [] => []
  | part :: parts =>
    match readPart idx part with
    | none => parseParts (idx + 1) seenIDs parts
    | some w =>
      let id := if w.id ∈ seenIDs then suffixed w.id (idx + 1) else w.id
      ⟨id, w.addr⟩ :: parseParts (idx + 1) (id :: seenIDs) parts

/-- `parseWorkerEndpoints`. -/
def parseWorkerEndpoints (raw : Bytes) : List WorkerEndpoint :=
  if trimSpaces raw = [] then [] else parseParts 0 [] (raw.splitOn comma)

/-- The environment; an unset address variable is empty, and the timeout is what `getEnvInt` makes of
its own. -/
structure Environ where
  workerAddrs : Bytes
  workerAddr : Bytes
  probeTimeoutMs : Int64

/-- The text `NewWorkerDiscovery` parses. -/
def rawWorkers (env : Environ) : Bytes :=
  let raw := trimSpaces env.workerAddrs
  if raw = [] then trimSpaces env.workerAddr else raw

/-- `NewWorkerDiscovery`. -/
def newWorkerDiscovery (env : Environ) : WorkerDiscovery :=
  let probeMs := if env.probeTimeoutMs ≤ 0 then 1000 else env.probeTimeoutMs
  { workers := parseWorkerEndpoints (rawWorkers env), probeTimeout := probeMs * 1000000 }

/-! ## The workers in turn -/

/-- `GetNextWorker`. -/
def getNextWorker (d : WorkerDiscovery) : Option (Bytes × Bytes) × WorkerDiscovery :=
  if h : d.workers.length = 0 then (none, d)
  else
    let idx := d.rrIndex + 1
    let w := d.workers.get ⟨(idx - 1).toNat % d.workers.length, Nat.mod_lt _ (Nat.pos_of_ne_zero h)⟩
    (some (w.id, w.addr), { d with rrIndex := idx })

/-- The network, and what `url.Parse` takes for the host of an address, if it can read it. -/
structure Network where
  parseHost : Bytes → Option Bytes
  dialTimeout : Bytes → Int64 → Bool

/-- `normalizeDialAddress`. -/
def normalizeDialAddress (net : Network) (raw : Bytes) : Bytes :=
  let addr := trimSpaces raw
  if addr = [] then []
  else if utf8 "://" <:+: addr then
    match net.parseHost addr with
    | none => []
    | some host => if host ≠ [] then trimSpaces host else []
  else addr

/-- `probeTCPAddress`. -/
def probeTCPAddress (net : Network) (rawAddr : Bytes) (timeout : Int64) : Bool :=
  let addr := normalizeDialAddress net rawAddr
  if addr = [] then false else net.dialTimeout addr timeout

/-- `IsWorkerActive`. -/
def isWorkerActive (net : Network) (d : WorkerDiscovery) (workerID : Bytes) : Bool :=
  match d.workers.find? fun w => w.id = workerID with
  | some w => probeTCPAddress net w.addr d.probeTimeout
  | none => false

/-- The calls that change the state are those for the next worker. -/
def step (d : WorkerDiscovery) (_ : Unit) : Option WorkerDiscovery := some (getNextWorker d).2

/-! ## What the ids are for -/

/-- The parts with an address, each with its number; the id is the one that is written, or the one a
part without is given. -/
def written (idx : Nat) (parts : List Bytes) : List (Nat × WorkerEndpoint) :=
  (parts.zipIdx idx).filterMap fun p => (readPart p.2 p.1).map fun w => (p.2 + 1, w)

/-- The ids the parts of a configuration ask for. -/
def asked (raw : Bytes) : List (Naming.Request Nat Bytes) :=
  (written 0 (raw.splitOn comma)).map fun p => ⟨p.1, p.2.id⟩

/-- The addresses of the parts that have one. -/
def addresses (raw : Bytes) : List Bytes :=
  ((raw.splitOn comma).map fun part => (splitPart (trimSpaces part)).2).filter (· ≠ [])

/-- The endpoints are those of the parts, in order, and their ids tell them apart. -/
structure WorkersUnique (raw : Bytes) : Prop where
  distinct : ((parseWorkerEndpoints raw).map WorkerEndpoint.id).Nodup
  inOrder : (parseWorkerEndpoints raw).map WorkerEndpoint.addr = addresses raw
  /-- A worker that has been handed out is probed under its id, at its address, however many were
  handed out before and since. -/
  probed : ∀ net probeTimeout d d' id addr, Run step always ⟨parseWorkerEndpoints raw, 0, probeTimeout⟩ d →
    (getNextWorker d).1 = some (id, addr) → Run step always (getNextWorker d).2 d' →
      isWorkerActive net d' id = probeTCPAddress net addr probeTimeout

/-! ## The loop -/

section Loop

variable {idx : Nat} {part : Bytes} {parts seenIDs : List Bytes} {raw : Bytes} {w : WorkerEndpoint}

theorem written_none (h : readPart idx part = none) : written idx (part :: parts) = written (idx + 1) parts := by
  unfold written
  rw [List.zipIdx_cons, List.filterMap_cons_none]
  simp [h]

theorem written_some (h : readPart idx part = some w) :
    written idx (part :: parts) = (idx + 1, w) :: written (idx + 1) parts := by
  unfold written
  rw [List.zipIdx_cons, List.filterMap_cons_some]
  simp [h]

theorem parseParts_none (h : readPart idx part = none) :
    parseParts idx seenIDs (part :: parts) = parseParts (idx + 1) seenIDs parts := by
  rw [parseParts, h]

/-- An endpoint is given its id while those before it are in use. -/
theorem parseParts_some (h : readPart idx part = some w) :
    parseParts idx seenIDs (part :: parts) =
      ⟨Naming.pick suffixed seenIDs ⟨idx + 1, w.id⟩, w.addr⟩ ::
        parseParts (idx + 1) (Naming.pick suffixed seenIDs ⟨idx + 1, w.id⟩ :: seenIDs) parts := by
  rw [parseParts, h]
  by_cases hseen : w.id ∈ seenIDs
  · rw [Naming.pick_of_mem (r := ⟨idx + 1, w.id⟩) hseen]
    simp only [if_pos hseen]
  · rw [Naming.pick_of_notMem (r := ⟨idx + 1, w.id⟩) hseen]
    simp only [if_neg hseen]

/-- The ids of the loop are those the parts ask for, told apart by their numbers. -/
theorem map_id_parseParts : (parseParts idx seenIDs parts).map WorkerEndpoint.id =
    Naming.assign suffixed seenIDs ((written idx parts).map fun p => ⟨p.1, p.2.id⟩) := by
  induction parts generalizing idx seenIDs with
  | nil => rfl
  | cons part parts ih =>
    cases hread : readPart idx part with
    | none =>
      rw [parseParts_none hread, written_none hread]
      exact ih
    | some w =>
      rw [parseParts_some hread, written_some hread, List.map_cons, List.map_cons, ih]
      rfl

theorem map_addr_parseParts : (parseParts idx seenIDs parts).map WorkerEndpoint.addr =
    (written idx parts).map fun p => p.2.addr := by
  induction parts generalizing idx seenIDs with
  | nil => rfl
  | cons part parts ih =>
    cases hread : readPart idx part with
    | none =>
      rw [parseParts_none hread, written_none hread]
      exact ih
    | some w =>
      rw [parseParts_some hread, written_some hread, List.map_cons, List.map_cons, ih]

/-- The numbers of the parts grow. -/
theorem numbers_written (idx : Nat) (parts : List Bytes) : ((written idx parts).map Prod.fst).Pairwise (· < ·) ∧
    ∀ n ∈ (written idx parts).map Prod.fst, idx < n := by
  induction parts generalizing idx with
  | nil => exact ⟨.nil, fun n hn => by cases hn⟩
  | cons part parts ih =>
    obtain ⟨hpairs, hlt⟩ := ih (idx + 1)
    cases hread : readPart idx part with
    | none =>
      rw [written_none hread]
      exact ⟨hpairs, fun n hn => Nat.lt_of_succ_lt (hlt n hn)⟩
    | some w =>
      rw [written_some hread, List.map_cons]
      refine ⟨List.pairwise_cons.mpr ⟨hlt, hpairs⟩, ?_⟩
      intro n hn
      rcases List.mem_cons.mp hn with rfl | hn
      · exact Nat.lt_succ_self idx
      · exact Nat.lt_of_succ_lt (hlt n hn)

/-- A part is read exactly if it has an address, which is read as it is written. -/
theorem readPart_addr (idx : Nat) (part : Bytes) :
    (readPart idx part).map WorkerEndpoint.addr =
      if (splitPart (trimSpaces part)).2 = [] then none else some (splitPart (trimSpaces part)).2 := by
  unfold readPart
  by_cases hblank : trimSpaces part = []
  · rw [hblank]
    rfl
  · simp only [if_neg hblank]
    split <;> rfl

theorem addr_written : (written idx parts).map (fun p => p.2.addr) =
    (parts.map fun part => (splitPart (trimSpaces part)).2).filter (· ≠ []) := by
  induction parts generalizing idx with
  | nil => rfl
  | cons part parts ih =>
    have haddr := readPart_addr idx part
    rw [List.map_cons]
    cases hread : readPart idx part with
    | none =>
      rw [written_none hread, ih, List.filter_cons_of_neg]
      intro hne
      rw [hread, if_neg (of_decide_eq_true hne)] at haddr
      cases haddr
    | some w =>
      rw [written_some hread, List.map_cons, ih]
      have hne : (splitPart (trimSpaces part)).2 ≠ [] := by
        intro hnil
        rw [hread, if_pos hnil] at haddr
        cases haddr
      rw [hread, if_neg hne] at haddr
      have hsame : w.addr = (splitPart (trimSpaces part)).2 := Option.some.inj haddr
      rw [List.filter_cons_of_pos (p := fun addr : Bytes => addr ≠ []) (decide_eq_true hne), hsame]

theorem comma_notMem_spaces : ∀ sp ∈ spaces, comma ∉ sp := by decide

/-- The test for a blank configuration makes no difference, as it has no part with an address. -/
theorem parseWorkerEndpoints_eq (raw : Bytes) :
    parseWorkerEndpoints raw = parseParts 0 [] (raw.splitOn comma) := by
  unfold parseWorkerEndpoints
  by_cases hblank : trimSpaces raw = []
  · have hcomma : comma ∉ raw := by
      intro hmem
      have hkept := mem_trimSpaces comma_notMem_spaces hmem
      rw [hblank] at hkept
      cases hkept
    have hread : readPart 0 raw = none := by
      unfold readPart
      rw [hblank]
      rfl
    rw [if_pos hblank, List.splitOn_eq_singleton hcomma, parseParts, hread]
    rfl
  · rw [if_neg hblank]

end Loop

/-! ## The ids -/

/-- The number is what stands behind the last dash. -/
theorem number_of_suffixed {id id' : Bytes} {m n : Nat} (h : suffixed id m = suffixed id' n) : m = n := by
  have hsplit : ∀ (id : Bytes) (n : Nat), suffixed id n = id ++ 45 :: Json.natText n := by
    intro id n
    show id ++ [45] ++ Json.natText n = _
    rw [List.append_assoc, List.singleton_append]
  have hdigit : Json.isDigit 45 = false := by decide
  rw [hsplit, hsplit] at h
  exact Json.natText_inj (append_cons_right_inj (Json.notMem_natText hdigit m) (Json.notMem_natText hdigit n) h).2

theorem map_id_parseWorkerEndpoints (raw : Bytes) :
    (parseWorkerEndpoints raw).map WorkerEndpoint.id = Naming.names suffixed (asked raw) := by
  rw [parseWorkerEndpoints_eq]
  exact map_id_parseParts

theorem nodup_key_asked (raw : Bytes) : ((asked raw).map Naming.Request.key).Nodup := by
  unfold asked
  rw [List.map_map]
  exact (numbers_written 0 (raw.splitOn comma)).1.imp Nat.ne_of_lt

/-- Ids are given twice exactly if a part comes to an id in use whose own suffixed form was asked for. -/
theorem nodup_ids_iff (raw : Bytes) :
    ((parseWorkerEndpoints raw).map WorkerEndpoint.id).Nodup ↔ ¬ Naming.Clash suffixed (asked raw) := by
  rw [map_id_parseWorkerEndpoints]
  exact Naming.nodup_names_iff (fun _ _ _ _ => number_of_suffixed) (nodup_key_asked raw)

/-! ## The workers that are handed out -/

section Handed

variable {d d' : WorkerDiscovery} {id addr : Bytes}

theorem getNextWorker_keeps (d : WorkerDiscovery) :
    (getNextWorker d).2.workers = d.workers ∧ (getNextWorker d).2.probeTimeout = d.probeTimeout := by
  unfold getNextWorker
  split
  · exact ⟨rfl, rfl⟩
  · exact ⟨rfl, rfl⟩

/-- The workers are those of the start, and so is the timeout. -/
theorem kept_of_run (h : Run step always d d') : d'.workers = d.workers ∧ d'.probeTimeout = d.probeTimeout := by
  refine h.invariant (J := fun d' => d'.workers = d.workers ∧ d'.probeTimeout = d.probeTimeout) ⟨rfl, rfl⟩ ?_
  intro d₁ d₂ m hd _ hstep
  obtain rfl := Option.some.inj hstep
  obtain ⟨hworkers, htimeout⟩ := getNextWorker_keeps d₁
  exact ⟨hworkers.trans hd.1, htimeout.trans hd.2⟩

theorem mem_of_getNextWorker (h : (getNextWorker d).1 = some (id, addr)) : ⟨id, addr⟩ ∈ d.workers := by
  unfold getNextWorker at h
  split at h
  · cases h
  · cases h
    exact List.get_mem _ _

/-- Where the ids are distinct, an id leads to the endpoint that has it. -/
theorem isWorkerActive_of_mem (net : Network) (hdistinct : (d.workers.map WorkerEndpoint.id).Nodup)
    (hmem : ⟨id, addr⟩ ∈ d.workers) : isWorkerActive net d id = probeTCPAddress net addr d.probeTimeout := by
  unfold isWorkerActive
  cases hfind : d.workers.find? fun w => w.id = id with
  | none =>
    have hnone := List.find?_eq_none.mp hfind _ hmem
    exact absurd (decide_eq_true rfl) hnone
  | some w =>
    have hfound := List.find?_some hfind
    have hid : w.id = id := of_decide_eq_true hfound
    have hsame := List.inj_on_of_nodup_map hdistinct (List.mem_of_find?_eq_some hfind) hmem hid
    rw [hsame]

/-- A worker that is handed out is probed at its address, at any time later. -/
theorem probed_of_distinct {d₀ : WorkerDiscovery} (net : Network)
    (hdistinct : (d₀.workers.map WorkerEndpoint.id).Nodup) (hbefore : Run step always d₀ d)
    (hnext : (getNextWorker d).1 = some (id, addr)) (hsince : Run step always (getNextWorker d).2 d') :
    isWorkerActive net d' id = probeTCPAddress net addr d₀.probeTimeout := by
  obtain ⟨hworkers, htimeout⟩ := kept_of_run hbefore
  obtain ⟨hworkers', htimeout'⟩ := kept_of_run hsince
  obtain ⟨hnextWorkers, hnextTimeout⟩ := getNextWorker_keeps d
  have hids : (d'.workers.map WorkerEndpoint.id).Nodup := by
    rw [hworkers', hnextWorkers, hworkers]
    exact hdistinct
  have hmem : ⟨id, addr⟩ ∈ d'.workers := by
    rw [hworkers', hnextWorkers]
    exact mem_of_getNextWorker hnext
  rw [← htimeout, ← hnextTimeout, ← htimeout']
  exact isWorkerActive_of_mem net hids hmem

/-- So it is in a scheduler whose environment lists no clash. -/
theorem newWorkerDiscovery_probed (net : Network) {env : Environ}
    (hclash : ¬ Naming.Clash suffixed (asked (rawWorkers env))) (hbefore : Run step always (newWorkerDiscovery env) d)
    (hnext : (getNextWorker d).1 = some (id, addr)) (hsince : Run step always (getNextWorker d).2 d') :
    isWorkerActive net d' id = probeTCPAddress net addr (newWorkerDiscovery env).probeTimeout :=
  probed_of_distinct net ((nodup_ids_iff (rawWorkers env)).mpr hclash) hbefore hnext hsince

end Handed

/-- The ids of a configuration tell the workers apart exactly if no part that comes to an id in use has
its suffixed form written before it. -/
theorem workers_unique_iff (raw : Bytes) : WorkersUnique raw ↔ ¬ Naming.Clash suffixed (asked raw) := by
  constructor
  · intro h
    exact (nodup_ids_iff raw).mp h.distinct
  · intro hclash
    have hdistinct := (nodup_ids_iff raw).mpr hclash
    refine ⟨hdistinct, ?_, ?_⟩
    · rw [parseWorkerEndpoints_eq, map_addr_parseParts]
      exact addr_written
    · intro net probeTimeout d d' id addr hbefore hnext hsince
      exact probed_of_distinct net hdistinct hbefore hnext hsince

/-- The id that the third part is told apart by has been written in the first one. -/
def clashing : Bytes := utf8 "a-3=10.0.0.1:5001,a=10.0.0.2:5001,a=10.0.0.3:5001"

theorem parse_clashing : parseWorkerEndpoints clashing =
    [⟨utf8 "a-3", utf8 "10.0.0.1:5001"⟩, ⟨utf8 "a", utf8 "10.0.0.2:5001"⟩,
      ⟨utf8 "a-3", utf8 "10.0.0.3:5001"⟩] := by decide +kernel

/-- Two workers are known under one id. -/
theorem clashing_not_unique : ¬ WorkersUnique clashing := by
  intro h
  have hdistinct := h.distinct
  rw [parse_clashing] at hdistinct
  exact absurd hdistinct (by decide)

end DeepOj.Scheduler.Discovery
