import DeepOj.Cluster.JobStream
import DeepOj.Cluster.System
import DeepOj.Conc.Simulation

/-!
# The job stream refines the stream of the system

The system numbers the entries of the stream and marks each as new, pending or
acknowledged. Redis keeps ids, a pending entries list and a position in the group, reads and
reclaims in batches, trims the stream and loses what was there before the group. All it can
do, the stream of the system can do.
-/

namespace DeepOj.Cluster.StreamRefinement

open Redis Conc JobStream
open Worker (WorkerConfig)

/-! ## The server -/

/-- The stream and the clock of the server. -/
structure Server where
  jobs : Jobs := Stream.empty
  now : Nat := 0

inductive Command where
  | tick (d : Nat)
  | give (m : JobStream.Move)
  deriving DecidableEq

/-- A command that carries a time carries that of the server. -/
def AtTime (now : Nat) : JobStream.Move → Prop
  | .readNew _ _ _ t => t = now
  | .autoClaim _ _ _ t _ => t = now
  | _ => True

instance (now : Nat) (m : JobStream.Move) : Decidable (AtTime now m) := by
  cases m <;> unfold AtTime <;> infer_instance

def step (s : Server) : Command → Option Server
  | .tick d => some { s with now := s.now + d }
  | .give m => if AtTime s.now m then (JobStream.step s.jobs m).map fun jobs => { s with jobs } else none

/-- The workers of the group reclaim what has been idle for as long as their settings say. -/
def Configured (group : String) (_ : Server) : Command → Prop
  | .give (.autoClaim group' consumer idle _ _) =>
    group' = group → ∃ cfg : WorkerConfig, cfg.jobStreamConsumer = consumer ∧ minIdle cfg = idle
  | _ => True

/-! ## The stream of the system -/

/-- What the system does to its stream. -/
inductive StreamOp where
  | env (v : Env)
  | request (q : Request)

def streamStep (w : World) : StreamOp → Option World
  | .env v => (envStep w v).map (·.1)
  | .request q => some (serve w {} q).1

/-- It touches nothing but the stream and its clock. -/
def OnStream (_ : World) : StreamOp → Prop
  | .env (.redisTick _) => True
  | .env (.deliver _ _) => True
  | .env (.autoclaim _ _) => True
  | .request (.xadd _) => True
  | .request (.xack _ _) => True
  | _ => False

abbrev StreamRun (w w' : World) : Prop := Run streamStep OnStream w w'

theorem run_deliver {w : World} {i : Nat} {v : StreamValues} (consumer : String)
    (h : w.stream[i]? = some ⟨v, .fresh⟩) : StreamRun w (w.give i consumer) :=
  .one (.env (.deliver ⟨consumer, 60, 15⟩ i)) trivial (by simp only [streamStep, envStep, h, Option.map_some])

theorem run_autoclaim {w : World} {i t : Nat} {v : StreamValues} {c : String} {cfg : WorkerConfig}
    (h : w.stream[i]? = some ⟨v, .pending c t⟩) (hidle : t + minIdle cfg ≤ w.redisNow) :
    StreamRun w (w.give i cfg.jobStreamConsumer) :=
  .one (.env (.autoclaim cfg i)) trivial (by simp only [streamStep, envStep, h, if_pos hidle, Option.map_some])

/-! ## The entries of the two streams -/

section Shows

variable {ids : List Nat} {es es' : List StreamEntry} {id id' : Nat} {d d' : Delivery}

/-- The entry with this id is marked `d`. -/
def Shows (ids : List Nat) (es : List StreamEntry) (id : Nat) (d : Delivery) : Prop :=
  ∃ (i : Nat) (v : StreamValues), ids[i]? = some id ∧ es[i]? = some ⟨v, d⟩

theorem index_unique (hn : ids.Nodup) {i k : Nat} (hi : ids[i]? = some id)
    (hk : ids[k]? = some id) : i = k := by
  obtain ⟨hilt, hi⟩ := List.getElem?_eq_some_iff.mp hi
  obtain ⟨hklt, hk⟩ := List.getElem?_eq_some_iff.mp hk
  exact (List.Nodup.getElem_inj_iff hn).mp (hi.trans hk.symm)

theorem Shows.unique (hn : ids.Nodup) (h : Shows ids es id d) (h' : Shows ids es id d') : d = d' := by
  obtain ⟨i, v, hi, he⟩ := h
  obtain ⟨k, v', hk, he'⟩ := h'
  obtain rfl := index_unique hn hi hk
  rw [he] at he'
  cases he'
  rfl

/-- Marking another entry changes nothing. -/
theorem Shows.frame (h : Shows ids es id d) {i : Nat} (hi : ids[i]? = some id') (hne : id ≠ id')
    (hes : ∀ k, k ≠ i → es'[k]? = es[k]?) : Shows ids es' id d := by
  obtain ⟨k, v, hk, he⟩ := h
  have hki : k ≠ i := by
    rintro rfl
    rw [hi] at hk
    exact hne (Option.some.inj hk).symm
  exact ⟨k, v, hk, (hes k hki).trans he⟩

theorem Shows.append (h : Shows ids es id d) (ids' : List Nat) (es' : List StreamEntry) :
    Shows (ids ++ ids') (es ++ es') id d := by
  obtain ⟨i, v, hi, he⟩ := h
  refine ⟨i, v, ?_, ?_⟩
  · rw [List.getElem?_append_left (List.getElem?_eq_some_iff.mp hi).1, hi]
  · rw [List.getElem?_append_left (List.getElem?_eq_some_iff.mp he).1, he]

end Shows

/-! ## The group and the marks -/

/-- The marks say what the group has recorded. Entries that the group has missed, or whose
pending entry has been dropped with a trimmed entry, keep the mark they had. -/
structure Mirrors (g : Group) (ids : List Nat) (es : List StreamEntry) : Prop where
  fresh : ∀ (i id : Nat) (e : StreamEntry), ids[i]? = some id → es[i]? = some e → g.lastDelivered < id →
    e.delivery = .fresh
  pending : ∀ p ∈ g.pending, Shows ids es p.id (.pending p.consumer p.deliveredAt)
  acked : ∀ id ∈ g.acked, Shows ids es id .acked
  nodup : g.pendingIDs.Nodup

/-- The two streams have the same entries, as far as they have not been trimmed, and the
two clocks agree. -/
structure Aligned (ids : List Nat) (entries : List (Entry StreamValues)) (now : Nat) (w : World) : Prop where
  clock : w.redisNow = now
  length : w.stream.length = ids.length
  nodup : ids.Nodup
  entries : ∀ e ∈ entries, ∃ (i : Nat) (d : Delivery), ids[i]? = some e.id ∧ w.stream[i]? = some ⟨e.values, d⟩

section Give

variable {g : Group} {ids : List Nat} {entries : List (Entry StreamValues)} {now : Nat} {w : World}

theorem Aligned.give (h : Aligned ids entries now w) (i : Nat) (consumer : String) :
    Aligned ids entries now (w.give i consumer) where
  clock := h.clock
  length := by
    rw [← h.length]
    simp [World.give, World.setDelivery]
  nodup := h.nodup
  entries := fun e he => by
    obtain ⟨k, d, hk, hs⟩ := h.entries e he
    by_cases hki : k = i
    · subst hki
      exact ⟨k, _, hk, w.give_self consumer hs⟩
    · exact ⟨k, d, hk, (w.give_getElem? i consumer hki).trans hs⟩

theorem Aligned.xack (h : Aligned ids entries now w) (i : Nat) : Aligned ids entries now (w.xack i) := by
  unfold World.xack
  split
  · rename_i v c t he
    refine ⟨h.clock, ?_, h.nodup, fun e hin => ?_⟩
    · rw [← h.length]
      simp [World.setDelivery]
    · obtain ⟨k, d, hk, hs⟩ := h.entries e hin
      by_cases hki : k = i
      · subst hki
        exact ⟨k, .acked, hk, by simp [World.setDelivery, hs]⟩
      · exact ⟨k, d, hk, by simp [World.setDelivery, Ne.symm hki, hs]⟩
  · exact h

/-- What is pending has been delivered. -/
theorem Mirrors.pending_le {es : List StreamEntry} (h : Mirrors g ids es) {p : Pending} (hp : p ∈ g.pending) :
    p.id ≤ g.lastDelivered := by
  obtain ⟨i, v, hi, he⟩ := h.pending p hp
  by_contra hlt
  have hfresh := h.fresh i p.id _ hi he (by omega)
  cases hfresh

theorem Mirrors.acked_le {es : List StreamEntry} (h : Mirrors g ids es) {id : Nat} (hid : id ∈ g.acked) :
    id ≤ g.lastDelivered := by
  obtain ⟨i, v, hi, he⟩ := h.acked id hid
  by_contra hlt
  have hfresh := h.fresh i id _ hi he (by omega)
  cases hfresh

/-- The group after it has been given one entry more. -/
def gave (g : Group) (consumer : String) (now id : Nat) : Group :=
  { g with lastDelivered := id, pending := g.pending ++ [⟨id, consumer, now⟩] }

/-- An entry after those delivered is new, and can be given to a consumer. -/
theorem mirrors_gave (ha : Aligned ids entries now w) (h : Mirrors g ids w.stream) {e : Entry StreamValues}
    (he : e ∈ entries) (hlt : g.lastDelivered < e.id) (consumer : String) :
    ∃ i, StreamRun w (w.give i consumer) ∧
      Mirrors (gave g consumer now e.id) ids (w.give i consumer).stream := by
  obtain ⟨i, d, hi, hs⟩ := ha.entries e he
  obtain rfl : d = .fresh := h.fresh i e.id _ hi hs hlt
  have hframe : ∀ {id d}, id ≤ g.lastDelivered → Shows ids w.stream id d →
      Shows ids (w.give i consumer).stream id d := fun hid hshow =>
    hshow.frame hi (by omega) fun k hk => w.give_getElem? i consumer hk
  refine ⟨i, run_deliver consumer hs, fun k id e' hk hs' hlast => ?_, fun p hp => ?_, fun id hid => ?_, ?_⟩
  · have hki : k ≠ i := by
      rintro rfl
      rw [hi] at hk
      cases hk
      exact absurd hlast (Nat.lt_irrefl _)
    have hlast' : g.lastDelivered < id := Nat.lt_trans hlt hlast
    exact h.fresh k id e' hk ((w.give_getElem? i consumer hki).symm.trans hs') hlast'
  · rcases List.mem_append.mp hp with hp | hp
    · exact hframe (h.pending_le hp) (h.pending p hp)
    · obtain rfl := List.mem_singleton.mp hp
      exact ⟨i, e.values, hi, ha.clock ▸ w.give_self consumer hs⟩
  · exact hframe (h.acked_le hid) (h.acked id hid)
  · have hnew : e.id ∉ g.pendingIDs := fun hmem => by
      obtain ⟨p, hp, hid⟩ := List.mem_map.mp hmem
      have hle := h.pending_le hp
      omega
    simp only [gave, Group.pendingIDs, List.map_append, List.map_cons, List.map_nil]
    exact List.nodup_append.mpr ⟨h.nodup, List.nodup_singleton _, fun a hmem b hb => by
      rw [List.mem_singleton.mp hb]
      exact fun heq => hnew (heq ▸ hmem)⟩

/-- A batch is given entry by entry. -/
theorem mirrors_batch (consumer : String) {es : List (Entry StreamValues)} (ha : Aligned ids entries now w)
    (h : Mirrors g ids w.stream) (hes : ∀ e ∈ es, e ∈ entries) (hlt : ∀ e ∈ es, g.lastDelivered < e.id)
    (hsorted : es.Pairwise (·.id < ·.id)) :
    ∃ w', StreamRun w w' ∧ Aligned ids entries now w' ∧
      Mirrors { g with
        lastDelivered := Stream.lastOf g.lastDelivered es
        pending := g.pending ++ es.map fun e => ⟨e.id, consumer, now⟩ } ids w'.stream := by
  induction es generalizing g w with
  | nil => exact ⟨w, .init, ha, by simpa [Stream.lastOf] using h⟩
  | cons e es ih =>
    obtain ⟨i, hrun, h₁⟩ := mirrors_gave ha h (hes e List.mem_cons_self) (hlt e List.mem_cons_self) consumer
    obtain ⟨hfirst, hsorted⟩ := List.pairwise_cons.mp hsorted
    obtain ⟨w', hrun', ha', h'⟩ := ih (ha.give i consumer) h₁ (fun e' he => hes e' (List.mem_cons_of_mem _ he))
      (fun e' he => hfirst e' he) hsorted
    refine ⟨w', hrun.trans hrun', ha', ?_⟩
    have hlast : Stream.lastOf e.id es = Stream.lastOf g.lastDelivered (e :: es) :=
      List.getLastD_cons.symm
    simpa [gave, hlast] using h'

end Give

/-! ## Reclaiming and acknowledging -/

section Held

variable {g : Group} {ids : List Nat} {entries : List (Entry StreamValues)} {now : Nat} {w : World}
  {l₁ l₂ : List Pending} {p : Pending} {acked : List Nat}

/-- A shorter pending entries list asks for less. -/
theorem Mirrors.sublist {es : List StreamEntry} (h : Mirrors g ids es) {l : List Pending}
    (hl : l.Sublist g.pending) :
    Mirrors { g with pending := l } ids es where
  fresh := h.fresh
  pending := fun p hp => h.pending p (hl.subset hp)
  acked := h.acked
  nodup := h.nodup.sublist (hl.map _)

/-- Another entry of the list has another id. -/
theorem ne_of_other (h : (l₁ ++ p :: l₂).map Pending.id |>.Nodup) {q : Pending}
    (hq : q ∈ l₁ ++ l₂) : q.id ≠ p.id := by
  rw [List.map_append, List.map_cons, List.nodup_middle, List.nodup_cons, ← List.map_append] at h
  intro heq
  exact h.1 (heq ▸ List.mem_map_of_mem hq)

/-- After a change of the mark of a pending entry, the other marks are right. -/
theorem mirrors_marked {w' : World} {d : Delivery} {i : Nat} {v : StreamValues} (hn : ids.Nodup)
    (h : Mirrors { g with pending := l₁ ++ p :: l₂, acked := acked } ids w.stream) (hi : ids[i]? = some p.id)
    (he : w'.stream[i]? = some ⟨v, d⟩) (hframe : ∀ k, k ≠ i → w'.stream[k]? = w.stream[k]?) :
    (∀ (k id : Nat) (e : StreamEntry), ids[k]? = some id → w'.stream[k]? = some e → g.lastDelivered < id →
      e.delivery = .fresh) ∧
    (∀ q ∈ l₁ ++ l₂, Shows ids w'.stream q.id (.pending q.consumer q.deliveredAt)) ∧
    ∀ id ∈ acked, Shows ids w'.stream id .acked := by
  have hle := h.pending_le (p := p) (by simp)
  have hp := h.pending p (by simp)
  refine ⟨fun k id e hk he' hlast => ?_, fun q hq => ?_, fun id hid => ?_⟩
  · have hki : k ≠ i := by
      rintro rfl
      rw [hi] at hk
      cases hk
      exact absurd hlast (Nat.not_lt.mpr hle)
    exact h.fresh k id e hk ((hframe k hki).symm.trans he') hlast
  · have hmem : q ∈ l₁ ++ p :: l₂ := by
      rcases List.mem_append.mp hq with hq | hq
      · exact List.mem_append_left _ hq
      · exact List.mem_append_right _ (List.mem_cons_of_mem _ hq)
    exact (h.pending q hmem).frame hi (ne_of_other h.nodup hq) hframe
  · refine (h.acked id hid).frame hi (fun heq => ?_) hframe
    -- a pending entry is not acknowledged
    subst heq
    cases (h.acked _ hid).unique hn hp

/-- An idle entry can be given to the consumer. -/
theorem mirrors_reclaimed {cfg : WorkerConfig} (ha : Aligned ids entries now w)
    (h : Mirrors { g with pending := l₁ ++ p :: l₂ } ids w.stream)
    (hidle : Stream.Pending.Idle p (minIdle cfg) now) :
    ∃ i, StreamRun w (w.give i cfg.jobStreamConsumer) ∧
      Mirrors { g with pending := l₁ ++ ⟨p.id, cfg.jobStreamConsumer, now⟩ :: l₂ } ids
        (w.give i cfg.jobStreamConsumer).stream := by
  obtain ⟨i, v, hi, he⟩ := h.pending p (by simp)
  have hself := w.give_self cfg.jobStreamConsumer he
  obtain ⟨hfresh, hpending, hacked⟩ := mirrors_marked ha.nodup h hi hself fun k hk => w.give_getElem? i _ hk
  refine ⟨i, run_autoclaim he (ha.clock ▸ hidle), hfresh, fun q hq => ?_, hacked, ?_⟩
  · rcases List.mem_append.mp hq with hq | hq
    · exact hpending q (List.mem_append_left _ hq)
    · rcases List.mem_cons.mp hq with rfl | hq
      · exact ⟨i, v, hi, ha.clock ▸ hself⟩
      · exact hpending q (List.mem_append_right _ hq)
  · simpa [Group.pendingIDs] using h.nodup

/-- An `XAUTOCLAIM` is carried out entry by entry. -/
theorem mirrors_autoclaim {cfg : WorkerConfig} {s : Jobs} (scanned : List Nat) (l₁ ps : List Pending)
    (ha : Aligned ids entries now w) (h : Mirrors { g with pending := l₁ ++ ps } ids w.stream) :
    ∃ w', StreamRun w w' ∧ Aligned ids entries now w' ∧
      Mirrors { g with
        pending := l₁ ++ ps.filterMap (s.claimPending cfg.jobStreamConsumer (minIdle cfg) now scanned) } ids
        w'.stream := by
  induction ps generalizing l₁ w with
  | nil => exact ⟨w, .init, ha, by simpa using h⟩
  | cons p ps ih =>
    by_cases hscan : p.id ∈ scanned ∧ Stream.Pending.Idle p (minIdle cfg) now
    · by_cases hid : p.id ∈ s.ids
      · obtain ⟨i, hrun, h₁⟩ := mirrors_reclaimed ha h hscan.2
        obtain ⟨w', hrun', ha', h'⟩ := ih (l₁ ++ [⟨p.id, cfg.jobStreamConsumer, now⟩])
          (ha.give i cfg.jobStreamConsumer) (by simpa using h₁)
        refine ⟨w', hrun.trans hrun', ha', ?_⟩
        have hclaim : s.claimPending cfg.jobStreamConsumer (minIdle cfg) now scanned p =
            some ⟨p.id, cfg.jobStreamConsumer, now⟩ := by rw [Stream.claimPending, if_pos hscan, if_pos hid]
        simpa [List.filterMap_cons, hclaim] using h'
      · -- the entry has been trimmed, and leaves the list
        have hclaim : s.claimPending cfg.jobStreamConsumer (minIdle cfg) now scanned p = none := by
          rw [Stream.claimPending, if_pos hscan, if_neg hid]
        rw [List.filterMap_cons_none hclaim]
        exact ih l₁ ha (h.sublist (List.Sublist.append_left (List.sublist_cons_self p ps) l₁))
    · have hclaim : s.claimPending cfg.jobStreamConsumer (minIdle cfg) now scanned p = some p := by
        rw [Stream.claimPending, if_neg hscan]
      obtain ⟨w', hrun, ha', h'⟩ := ih (l₁ ++ [p]) ha (by simpa using h)
      exact ⟨w', hrun, ha', by simpa [List.filterMap_cons, hclaim] using h'⟩

/-- A pending entry can be acknowledged. -/
theorem mirrors_acked (ha : Aligned ids entries now w)
    (h : Mirrors { g with pending := l₁ ++ p :: l₂, acked := acked } ids w.stream) :
    ∃ i, StreamRun w (w.xack i) ∧
      Mirrors { g with pending := l₁ ++ l₂, acked := p.id :: acked } ids (w.xack i).stream := by
  obtain ⟨i, v, hi, he⟩ := h.pending p (by simp)
  have hack : w.xack i = w.setDelivery i .acked := by simp only [World.xack, he]
  have hself : (w.xack i).stream[i]? = some ⟨v, .acked⟩ := by simp [hack, World.setDelivery, he]
  have hframe : ∀ k, k ≠ i → (w.xack i).stream[k]? = w.stream[k]? := fun k hk => by
    simp [hack, World.setDelivery, Ne.symm hk]
  obtain ⟨hfresh, hpending, hacked⟩ := mirrors_marked ha.nodup h hi hself hframe
  refine ⟨i, .one (.request (.xack i .poison)) trivial rfl, hfresh, hpending, fun id hid => ?_, ?_⟩
  · rcases List.mem_cons.mp hid with rfl | hid
    · exact ⟨i, v, hi, hself⟩
    · exact hacked id hid
  · have hl : (l₁ ++ l₂).Sublist (l₁ ++ p :: l₂) := List.Sublist.append_left (List.sublist_cons_self p l₂) l₁
    exact h.nodup.sublist (hl.map _)

/-- The order in which entries were acknowledged does not count. -/
theorem Mirrors.reorder {es : List StreamEntry} (h : Mirrors g ids es) (hsub : ∀ id ∈ acked, id ∈ g.acked) :
    Mirrors { g with acked := acked } ids es where
  fresh := h.fresh
  pending := h.pending
  acked := fun id hid => h.acked id (hsub id hid)
  nodup := h.nodup

/-- An `XACK` is carried out entry by entry. -/
theorem mirrors_xack (acks : List Nat) (l₁ ps : List Pending) (ha : Aligned ids entries now w)
    (h : Mirrors { g with pending := l₁ ++ ps, acked := acked } ids w.stream) :
    ∃ w', StreamRun w w' ∧ Aligned ids entries now w' ∧
      Mirrors { g with
        pending := l₁ ++ ps.filter (·.id ∉ acks)
        acked := (ps.map Pending.id).filter (· ∈ acks) ++ acked } ids w'.stream := by
  induction ps generalizing l₁ acked w with
  | nil => exact ⟨w, .init, ha, by simpa using h⟩
  | cons p ps ih =>
    by_cases hack : p.id ∈ acks
    · obtain ⟨i, hrun, h₁⟩ := mirrors_acked ha h
      obtain ⟨w', hrun', ha', h'⟩ := ih l₁ (ha.xack i) h₁
      refine ⟨w', hrun.trans hrun', ha', ?_⟩
      have hkept : (p :: ps).filter (·.id ∉ acks) = ps.filter (·.id ∉ acks) := by simp [hack]
      rw [hkept]
      refine h'.reorder fun id hid => ?_
      simp only [List.map_cons, List.filter_cons, hack, decide_true, if_true, List.cons_append, List.mem_cons,
        List.mem_append] at hid ⊢
      tauto
    · obtain ⟨w', hrun, ha', h'⟩ := ih (l₁ ++ [p]) ha (by simpa using h)
      exact ⟨w', hrun, ha', by simpa [hack] using h'⟩

end Held

/-! ## The simulation -/

/-- The server and the stream of the system, seen by the consumer group. -/
def Represents (group : String) (s : Server) (w : World) : Prop :=
  ∃ ids, Aligned ids s.jobs.entries s.now w ∧ (∀ id ∈ ids, id ≤ s.jobs.lastID) ∧
    ∀ g, s.jobs.groups group = some g → Mirrors g ids w.stream

theorem represents_empty (group : String) : Represents group {} World.empty :=
  ⟨[], ⟨rfl, rfl, .nil, fun _ h => absurd h List.not_mem_nil⟩, fun _ h => absurd h List.not_mem_nil,
    fun _ h => absurd h nofun⟩

section Simulation

variable {group : String} {s s' : Server} {w : World} {jobs : Jobs}

/-- A new entry is new to the group. -/
theorem represents_xadd {id : Nat} {values : StreamValues} (h : Represents group s w)
    (hadd : s.jobs.xadd id values = some jobs) :
    ∃ w', StreamRun w w' ∧ Represents group { s with jobs } w' := by
  obtain ⟨ids, ha, hle, hg⟩ := h
  obtain ⟨hid, hentries, hlast, hgroups⟩ := Stream.xadd_eq_some hadd
  let w' : World := { w with stream := w.stream ++ [⟨values, .fresh⟩] }
  have hnew : id ∉ ids := fun hmem => absurd (hle id hmem) (Nat.not_le.mpr hid)
  refine ⟨w', .one (.request (.xadd values)) trivial rfl, ids ++ [id], ⟨ha.clock, ?_, ?_, ?_⟩, ?_, ?_⟩
  · simp [w', ha.length]
  · exact List.nodup_append.mpr ⟨ha.nodup, List.nodup_singleton _, fun a hmem b hb heq => by
      rw [List.mem_singleton.mp hb] at heq
      exact hnew (heq ▸ hmem)⟩
  · intro e he
    rw [hentries] at he
    rcases List.mem_append.mp he with he | he
    · obtain ⟨i, d, hi, hs⟩ := ha.entries e he
      refine ⟨i, d, ?_, ?_⟩
      · rw [List.getElem?_append_left (List.getElem?_eq_some_iff.mp hi).1, hi]
      · exact (List.getElem?_append_left (List.getElem?_eq_some_iff.mp hs).1).trans hs
    · obtain rfl := List.mem_singleton.mp he
      refine ⟨ids.length, .fresh, List.getElem?_concat_length, ?_⟩
      rw [← ha.length]
      exact List.getElem?_concat_length
  · intro id' hmem
    rw [hlast]
    rcases List.mem_append.mp hmem with hmem | hmem
    · exact Nat.le_of_lt (Nat.lt_of_le_of_lt (hle id' hmem) hid)
    · rw [List.mem_singleton.mp hmem]
  · intro g hsome
    have hm := hg g (hgroups ▸ hsome)
    refine ⟨fun i id' e hi hs hlt => ?_, fun p hp => (hm.pending p hp).append _ _,
      fun id' hmem => (hm.acked id' hmem).append _ _, hm.nodup⟩
    by_cases hi' : i < ids.length
    · rw [List.getElem?_append_left hi'] at hi
      have hi'' : i < w.stream.length := ha.length ▸ hi'
      exact hm.fresh i id' e hi ((List.getElem?_append_left hi'').symm.trans hs) hlt
    · have hmem := List.mem_of_getElem? hs
      have hge : w.stream.length ≤ i := by rw [ha.length]; omega
      rw [List.getElem?_append_right hge] at hs
      obtain rfl := List.mem_singleton.mp (List.mem_of_getElem? hs)
      rfl

/-- A trim takes entries of the server only. -/
theorem represents_drop (h : Represents group s w) (k : Nat) :
    Represents group { s with jobs := s.jobs.dropOldest k } w := by
  obtain ⟨ids, ha, hle, hg⟩ := h
  exact ⟨ids, ⟨ha.clock, ha.length, ha.nodup, fun e he => ha.entries e (List.mem_of_mem_drop he)⟩, hle, hg⟩

theorem represents_xtrim {maxLen k : Nat} (h : Represents group s w) (ht : s.jobs.xtrim maxLen k = some jobs) :
    Represents group { s with jobs } w := by
  obtain ⟨_, rfl⟩ := Stream.xtrim_eq_some ht
  exact represents_drop h k

theorem represents_xaddMaxLen {id k : Nat} {values : StreamValues} {maxLen : Option Nat}
    (h : Represents group s w)
    (hadd : s.jobs.xaddMaxLen id values maxLen k = some jobs) :
    ∃ w', StreamRun w w' ∧ Represents group { s with jobs } w' := by
  obtain ⟨jobs₁, h₁, rfl | ⟨n, _, h₂⟩⟩ := Stream.xaddMaxLen_eq_some hadd
  · exact represents_xadd h h₁
  · obtain ⟨w', hrun, h'⟩ := represents_xadd h h₁
    exact ⟨w', hrun, represents_xtrim (s := { s with jobs := jobs₁ }) h' h₂⟩

/-- A command on a group leaves the entries alone. What it does to this group is to be shown. -/
theorem represents_setGroup {name : String} {g' : Group} (hg' : g'.lastDelivered ≤ s.jobs.lastID)
    {ids : List Nat} {w' : World} (ha : Aligned ids s.jobs.entries s.now w')
    (hle : ∀ id ∈ ids, id ≤ s.jobs.lastID)
    (hm : name = group → Mirrors g' ids w'.stream)
    (hother : name ≠ group → ∀ g, s.jobs.groups group = some g → Mirrors g ids w'.stream) :
    Represents group { s with jobs := s.jobs.setGroup name g' hg' } w' := by
  refine ⟨ids, ha, hle, fun g hsome => ?_⟩
  by_cases hname : name = group
  · subst hname
    rw [Stream.setGroup_self] at hsome
    exact Option.some.inj hsome ▸ hm rfl
  · rw [Stream.setGroup_of_ne (Ne.symm hname)] at hsome
    exact hother hname g hsome

/-- Another group is none of the system's business. -/
theorem represents_other {name : String} {g' : Group} {hg' : g'.lastDelivered ≤ s.jobs.lastID}
    (h : Represents group s w) (hname : name ≠ group) :
    Represents group { s with jobs := s.jobs.setGroup name g' hg' } w := by
  obtain ⟨ids, ha, hle, hg⟩ := h
  exact represents_setGroup _ ha hle (fun heq => absurd heq hname) fun _ => hg

/-- A new group has been given nothing, and starts after the last entry. -/
theorem represents_ensureGroup (h : Represents group s w) (name : String) :
    Represents group { s with jobs := ensureGroup s.jobs name } w := by
  unfold ensureGroup
  cases hcreate : s.jobs.xgroupCreate name .dollar with
  | none => exact h
  | some jobs =>
    obtain ⟨_, rfl⟩ := Stream.xgroupCreate_eq_some hcreate
    obtain ⟨ids, ha, hle, hg⟩ := h
    refine represents_setGroup (Start.after_le .dollar s.jobs.lastID) ha hle
      (fun _ => ⟨fun i id e hi he hlt => ?_, ?_, ?_, ?_⟩) fun _ => hg
    · exact absurd hlt (Nat.not_lt.mpr (hle id (List.mem_of_getElem? hi)))
    · exact fun _ h => absurd h List.not_mem_nil
    · exact fun _ h => absurd h List.not_mem_nil
    · exact List.nodup_nil

theorem represents_xreadgroup {name consumer : String} {count : Nat} {es : List (Entry StreamValues)}
    (h : Represents group s w) (hread : s.jobs.xreadgroup name consumer count s.now = some (jobs, es)) :
    ∃ w', StreamRun w w' ∧ Represents group { s with jobs } w' := by
  obtain ⟨g, ⟨_, _, _⟩, hg', hg, hes, rfl, hlast, hpending, hacked⟩ := Stream.xreadgroup_eq_some hread
  dsimp only at hlast hpending hacked
  subst hlast hpending hacked
  by_cases hname : name = group
  · subst hname
    obtain ⟨ids, ha, hle, hm⟩ := h
    have hsub : es.Sublist (s.jobs.deliverable g) := hes ▸ List.take_sublist _ _
    have hin : ∀ e ∈ es, e ∈ s.jobs.entries ∧ g.lastDelivered < e.id := fun e he => by
      obtain ⟨hin, hlt⟩ := List.mem_filter.mp (hsub.subset he)
      exact ⟨hin, of_decide_eq_true hlt⟩
    obtain ⟨w', hrun, ha', hm'⟩ := mirrors_batch consumer ha (hm g hg) (fun e he => (hin e he).1)
      (fun e he => (hin e he).2) (s.jobs.ascending.sublist (hsub.trans List.filter_sublist))
    exact ⟨w', hrun, represents_setGroup _ ha' hle (fun _ => hm') fun hne => absurd rfl hne⟩
  · exact ⟨w, .init, represents_other h hname⟩

theorem represents_xautoclaim {cfg : WorkerConfig} {scanned : List Nat} (h : Represents group s w)
    (hclaim : s.jobs.xautoclaim group cfg.jobStreamConsumer (minIdle cfg) s.now scanned = some jobs) :
    ∃ w', StreamRun w w' ∧ Represents group { s with jobs } w' := by
  obtain ⟨g, ⟨_, _, _⟩, hg', hg, rfl, hlast, hpending, hacked⟩ := Stream.xautoclaim_eq_some hclaim
  dsimp only at hlast hpending hacked
  subst hlast hpending hacked
  obtain ⟨ids, ha, hle, hm⟩ := h
  obtain ⟨w', hrun, ha', hm'⟩ := mirrors_autoclaim (s := s.jobs) scanned [] g.pending ha (hm g hg)
  exact ⟨w', hrun, represents_setGroup _ ha' hle (fun _ => hm') fun hne => absurd rfl hne⟩

theorem represents_xack {name : String} {acks : List Nat} (h : Represents group s w)
    (hack : s.jobs.xack name acks = some jobs) :
    ∃ w', StreamRun w w' ∧ Represents group { s with jobs } w' := by
  obtain ⟨g, ⟨_, _, _⟩, hg', hg, rfl, hlast, hpending, hacked⟩ := Stream.xack_eq_some hack
  dsimp only at hlast hpending hacked
  subst hlast hpending hacked
  by_cases hname : name = group
  · subst hname
    obtain ⟨ids, ha, hle, hm⟩ := h
    obtain ⟨w', hrun, ha', hm'⟩ := mirrors_xack acks [] g.pending ha (hm g hg)
    exact ⟨w', hrun, represents_setGroup _ ha' hle (fun _ => hm') fun hne => absurd rfl hne⟩
  · exact ⟨w, .init, represents_other h hname⟩

/-- One command on the stream. -/
theorem simulates_command {m : JobStream.Move} (h : Represents group s w) (hok : Configured group s (.give m))
    (htime : AtTime s.now m) (hm : JobStream.step s.jobs m = some jobs) :
    ∃ w', StreamRun w w' ∧ Represents group { s with jobs } w' := by
  cases m with
  | enqueue streamMaxLen values id trimmed => exact represents_xaddMaxLen h hm
  | repair cfg values id trimmed => exact represents_xaddMaxLen h hm
  | streamTrim cfg trimmed =>
    refine ⟨w, .init, ?_⟩
    simp only [JobStream.step, runStreamTrim] at hm
    split at hm
    · cases hm
      exact h
    · exact represents_xtrim h hm
  | ensureGroup name =>
    cases hm
    exact ⟨w, .init, represents_ensureGroup h name⟩
  | readNew name consumer count now =>
    obtain ⟨⟨jobs, es⟩, hread, rfl⟩ := Option.map_eq_some_iff.mp hm
    obtain rfl : now = s.now := htime
    exact represents_xreadgroup h hread
  | autoClaim name consumer idle now scanned =>
    obtain rfl : now = s.now := htime
    by_cases hname : name = group
    · subst hname
      obtain ⟨cfg, rfl, rfl⟩ := hok rfl
      exact represents_xautoclaim h hm
    · obtain ⟨g, g', hg', _, rfl, _⟩ := Stream.xautoclaim_eq_some hm
      exact ⟨w, .init, represents_other h hname⟩
  | ack name acks => exact represents_xack h hm

/-- Every command is answered by the system's own operations on its stream. -/
theorem simulates_stream (group : String) :
    Simulates step (Configured group) streamStep OnStream (Represents group) := by
  intro s w c s' h hok hstep
  cases c with
  | tick d =>
    cases hstep
    obtain ⟨ids, ha, hle, hg⟩ := h
    refine ⟨{ w with redisNow := w.redisNow + d }, .one (.env (.redisTick d)) trivial rfl, ids, ?_, hle, hg⟩
    exact ⟨congrArg (· + d) ha.clock, ha.length, ha.nodup, ha.entries⟩
  | give m =>
    simp only [step] at hstep
    split at hstep
    · rename_i htime
      obtain ⟨jobs, hm, rfl⟩ := Option.map_eq_some_iff.mp hstep
      exact simulates_command h hok htime hm
    · cases hstep

end Simulation

/-- Two jobs are read, one is acknowledged, and another worker takes over the other one. -/
def sampleCommands : List Command :=
  [.give (.ensureGroup "workers"), .give (.enqueue 200000 (sampleValues "a") 1 0),
    .give (.enqueue 200000 (sampleValues "b") 5 0), .give (.readNew "workers" "w1" 16 0),
    .give (.ack "workers" [1]),
    .tick 75000000, .give (.autoClaim "workers" "w2" 75000000 75000000 [1, 5])]

end DeepOj.Cluster.StreamRefinement
