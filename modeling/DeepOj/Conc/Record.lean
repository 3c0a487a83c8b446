import DeepOj.Conc.Machine
import DeepOj.Conc.Run
import Mathlib.Algebra.Ring.Nat

/-!
# Recorded runs

A recorder keeps a record for every thread: what it was started for, and what the
effects it has performed have told it. A program is checked once, against its own
record; the records of a run then say where the values a thread uses come from.
-/

namespace DeepOj.Conc

variable {W E : Type} {R : E → Type} {C V G α β : Type}

/-- How the record of a thread begins, and what an effect adds to it. -/
structure Recorder (E : Type) (R : E → Type) (V G : Type) where
  /-- The record of a thread that the environment starts. -/
  start : V → G
  /-- The record of a thread that an effect starts. -/
  fork : E → G
  next : G → (e : E) → R e → G

/-- A configuration in which every thread has its record. -/
structure RecordedConfig (W E : Type) (R : E → Type) (G : Type) where
  world : W
  threads : List (G × Prog E R Unit)

namespace RecordedConfig

/-- Forget the records. -/
def config (s : RecordedConfig W E R G) : Config W E R := ⟨s.world, s.threads.map Prod.snd⟩

/-- The effect thread `i` performs next. -/
def nextAt (s : RecordedConfig W E R G) (i : Nat) : Option E := s.threads[i]?.bind fun t => t.2.next

theorem nextAt_of_thread {s : RecordedConfig W E R G} {i : Nat} {g : G} {e : E}
    {k : R e → Prog E R Unit} (h : s.threads[i]? = some (g, .call e k)) : s.nextAt i = some e := by
  simp only [nextAt, h, Option.bind_some, Prog.next_call]

end RecordedConfig

/-! ## Programs and their records -/

/-- The rules a thread keeps, in terms of its own record. -/
structure Rules (E : Type) (R : E → Type) (G : Type) where
  /-- When an effect may be performed. -/
  allowed : G → E → Prop
  /-- What the thread may expect of the reply. -/
  promised : G → (e : E) → R e → Prop
  /-- What holds of the record when the program has ended. -/
  ended : G → Prop

variable (K : Recorder E R V G) (L : Rules E R G)

/-- Every effect of the program is allowed by the record it is performed with, and
the program returns with `Q`. -/
def Heeds : G → Prog E R α → (G → α → Prop) → Prop
  | g, .ret a, Q => Q g a
  | g, .call e k, Q =>
    L.allowed g e ∧ ∀ r, L.promised g e r → Heeds (K.next g e r) (k r) Q

variable {K L}

@[simp] theorem heeds_call {g : G} {e : E} {k : R e → Prog E R α} {Q : G → α → Prop} :
    Heeds K L g (.call e k) Q ↔
      L.allowed g e ∧ ∀ r, L.promised g e r → Heeds K L (K.next g e r) (k r) Q := Iff.rfl

theorem heeds_bind {g : G} {p : Prog E R α} {f : α → Prog E R β} {Q : G → β → Prop} :
    Heeds K L g (p >>= f) Q ↔ Heeds K L g p fun g a => Heeds K L g (f a) Q := by
  induction p generalizing g with
  | ret a => exact Iff.rfl
  | call e k ih => simp only [Prog.call_bind, heeds_call, ih]

theorem heeds_mono {g : G} {p : Prog E R α} {Q Q' : G → α → Prop} (hQ : ∀ g a, Q g a → Q' g a)
    (h : Heeds K L g p Q) : Heeds K L g p Q' := by
  induction p generalizing g with
  | ret a => exact hQ g a h
  | call e k ih => exact ⟨h.1, fun r hr => ih r (h.2 r hr)⟩

/-- A program whose effects every record of a kind allows. -/
theorem heeds_of_uses {I : G → Prop} {P : E → Prop} (hL : ∀ g e, I g → P e → L.allowed g e)
    (hI : ∀ g e r, I g → P e → I (K.next g e r)) {p : Prog E R α} (hp : p.Uses P) {g : G}
    (hg : I g) : Heeds K L g p fun g _ => I g := by
  induction p generalizing g with
  | ret a => exact hg
  | call e k ih => exact ⟨hL g e hg hp.1, fun r _ => ih r (hp.2 r) (hI g e r hg hp.1)⟩

/-- `Heeds`, closed to evaluation. -/
structure Obeys (K : Recorder E R V G) (L : Rules E R G) (g : G) (p : Prog E R α)
    (Q : G → α → Prop) : Prop where
  heeds : Heeds K L g p Q

namespace Obeys

theorem pure {g : G} {a : α} {Q : G → α → Prop} (h : Q g a) :
    Obeys K L g (Pure.pure a : Prog E R α) Q := ⟨h⟩

theorem effect {g : G} {e : E} {f : R e → Prog E R β} {Q : G → β → Prop} (h : L.allowed g e)
    (hf : ∀ r, L.promised g e r → Obeys K L (K.next g e r) (f r) Q) :
    Obeys K L g (Prog.perform e >>= f) Q :=
  ⟨h, fun r hr => (hf r hr).heeds⟩

theorem perform {g : G} {e : E} {Q : G → R e → Prop} (h : L.allowed g e)
    (hf : ∀ r, L.promised g e r → Q (K.next g e r) r) : Obeys K L g (Prog.perform e) Q :=
  ⟨h, hf⟩

theorem bind {g : G} {p : Prog E R α} {f : α → Prog E R β} {P : G → α → Prop} {Q : G → β → Prop}
    (hp : Obeys K L g p P) (hf : ∀ g' a, P g' a → Obeys K L g' (f a) Q) :
    Obeys K L g (p >>= f) Q :=
  ⟨heeds_bind.mpr (heeds_mono (fun g' a h => (hf g' a h).heeds) hp.heeds)⟩

theorem mono {g : G} {p : Prog E R α} {Q Q' : G → α → Prop} (h : Obeys K L g p Q)
    (hQ : ∀ g a, Q g a → Q' g a) : Obeys K L g p Q' :=
  ⟨heeds_mono hQ h.heeds⟩

end Obeys

/-! ## Recorded steps -/

namespace Machine

variable (M : Machine W E R C V) (K)

/-- One move, kept on record. -/
def record (s : RecordedConfig W E R G) : Move C V → Option (RecordedConfig W E R G)
  | .call i c =>
    match s.threads[i]? with
    | some (g, .call e k) =>
      match M.sem s.world e c with
      | some (w, r) =>
        some ⟨w, s.threads.set i (K.next g e r, k r) ++ (M.forks e).map fun p => (K.fork e, p)⟩
      | none => none
    | _ => none
  | .crash i => some ⟨s.world, s.threads.modify i fun t => (t.1, .ret ())⟩
  | .env v =>
    match M.env s.world v with
    | some (w, ps) => some ⟨w, s.threads ++ ps.map fun p => (K.start v, p)⟩
    | none => none

variable {M K}

/-- What one move can do. -/
theorem record_cases {s s' : RecordedConfig W E R G} {m : Move C V} (h : M.record K s m = some s') :
    (∃ i c g e k w r, m = .call i c ∧ s.threads[i]? = some (g, .call e k) ∧
        M.sem s.world e c = some (w, r) ∧
        s' = ⟨w, s.threads.set i (K.next g e r, k r) ++
          (M.forks e).map fun p => (K.fork e, p)⟩) ∨
    (∃ i, m = .crash i ∧ s' = ⟨s.world, s.threads.modify i fun t => (t.1, .ret ())⟩) ∨
    (∃ v w ps, m = .env v ∧ M.env s.world v = some (w, ps) ∧
        s' = ⟨w, s.threads ++ ps.map fun p => (K.start v, p)⟩) := by
  cases m with
  | call i c =>
    refine .inl ?_
    simp only [record] at h
    split at h
    · rename_i g e k ht
      split at h
      · rename_i w r hs
        exact ⟨i, c, g, e, k, w, r, rfl, ht, hs, (Option.some.inj h).symm⟩
      · cases h
    · cases h
  | crash i => exact .inr (.inl ⟨i, rfl, (Option.some.inj h).symm⟩)
  | env v =>
    refine .inr (.inr ?_)
    simp only [record] at h
    split at h
    · rename_i w ps hv
      exact ⟨v, w, ps, rfl, hv, (Option.some.inj h).symm⟩
    · cases h

/-- The records follow the run, they do not influence it. -/
theorem step_of_record {s s' : RecordedConfig W E R G} {m : Move C V} (h : M.record K s m = some s') :
    M.step s.config m = some s'.config := by
  obtain ⟨i, c, g, e, k, w, r, rfl, ht, hs, rfl⟩ | ⟨i, rfl, rfl⟩ | ⟨v, w, ps, rfl, hv, rfl⟩ :=
    record_cases h
  · have hc : s.config.threads[i]? = some (.call e k) := by
      simp [RecordedConfig.config, ht]
    have hw : M.sem s.config.world e c = some (w, r) := hs
    simp only [step, hc, hw]
    simp [RecordedConfig.config, List.map_set, Function.comp_def]
  · simp only [step, RecordedConfig.config]
    congr 2
    refine List.ext_getElem? fun n => ?_
    by_cases hn : i = n
    · subst hn
      cases ht : s.threads[i]? with
      | none =>
        have hlen : s.threads.length ≤ i := List.getElem?_eq_none_iff.mp ht
        simp [hlen]
      | some t =>
        have hlt : i < s.threads.length := (List.getElem?_eq_some_iff.mp ht).1
        simp [hlt]
    · simp [hn]
  · have hw : M.env s.config.world v = some (w, ps) := hv
    simp only [step, hw]
    simp [RecordedConfig.config, Function.comp_def]

/-- A recorded run is a run. -/
theorem reach_of_run {ok : RecordedConfig W E R G → Move C V → Prop} {s₀ s : RecordedConfig W E R G}
    (h : Run (M.record K) ok s₀ s) : M.Reach anyMove s₀.config s.config := by
  induction h with
  | init => exact .init
  | step m _ _ hstep ih => exact .step m ih trivial (step_of_record hstep)

/-- A move that can be made can be made on record. -/
theorem record_of_step {s : RecordedConfig W E R G} {m : Move C V} {s' : Config W E R}
    (h : M.step s.config m = some s') : ∃ r, M.record K s m = some r ∧ r.config = s' := by
  have hsome : ∃ r, M.record K s m = some r := by
    obtain ⟨i, c, e, k, w, r, rfl, ht, hs, -⟩ | ⟨i, rfl, -⟩ | ⟨v, w, ps, rfl, hv, -⟩ :=
      M.step_cases h
    · simp only [RecordedConfig.config, List.getElem?_map] at ht
      obtain ⟨⟨g, p⟩, hi, rfl⟩ := Option.map_eq_some_iff.mp ht
      have hw : M.sem s.world e c = some (w, r) := hs
      simp only [record, hi, hw]
      exact ⟨_, rfl⟩
    · exact ⟨_, rfl⟩
    · have hw : M.env s.world v = some (w, ps) := hv
      simp only [record, hw]
      exact ⟨_, rfl⟩
  obtain ⟨r, hr⟩ := hsome
  exact ⟨r, hr, Option.some.inj ((step_of_record hr).symm.trans h)⟩

/-- Every run can be recorded. -/
theorem exists_record {ok : Config W E R → Move C V → Prop} {s₀ s : Config W E R}
    (h : M.Reach ok s₀ s) (r₀ : RecordedConfig W E R G) (h₀ : r₀.config = s₀) :
    ∃ r, r.config = s ∧ Run (M.record K) (fun r m => ok r.config m) r₀ r := by
  induction h with
  | init => exact ⟨r₀, h₀, .init⟩
  | step m _ hok hstep ih =>
    obtain ⟨r, rfl, hrun⟩ := ih
    obtain ⟨r', hr', hc⟩ := record_of_step (K := K) hstep
    exact ⟨r', hc, .step m hrun hok hr'⟩

/-- The thread of a record after a move: it has not moved, it has performed an
effect, it was killed, or it was started. -/
theorem mem_record {s s' : RecordedConfig W E R G} {m : Move C V} (h : M.record K s m = some s')
    {t : G × Prog E R Unit} (ht : t ∈ s'.threads) :
    t ∈ s.threads ∨
    (∃ i c g e k r, m = .call i c ∧ s.threads[i]? = some (g, .call e k) ∧
      M.sem s.world e c = some (s'.world, r) ∧ t = (K.next g e r, k r)) ∨
    (∃ i, ∃ t₀ ∈ s.threads, m = .crash i ∧ t = (t₀.1, .ret ())) ∨
    (∃ i c g e k r, m = .call i c ∧ s.threads[i]? = some (g, .call e k) ∧
      M.sem s.world e c = some (s'.world, r) ∧ t.1 = K.fork e ∧ t.2 ∈ M.forks e) ∨
    ∃ v ps, m = .env v ∧ M.env s.world v = some (s'.world, ps) ∧ t.1 = K.start v ∧ t.2 ∈ ps := by
  obtain ⟨i, c, g, e, k, w, r, rfl, hi, hsem, rfl⟩ | ⟨i, rfl, rfl⟩ | ⟨v, w, ps, rfl, hv, rfl⟩ :=
    record_cases h
  · rcases List.mem_append.mp ht with ht | ht
    · rcases List.mem_or_eq_of_mem_set ht with ht | rfl
      · exact .inl ht
      · exact .inr (.inl ⟨i, c, g, e, k, r, rfl, hi, hsem, rfl⟩)
    · obtain ⟨p, hp, rfl⟩ := List.mem_map.mp ht
      exact .inr (.inr (.inr (.inl ⟨i, c, g, e, k, r, rfl, hi, hsem, rfl, hp⟩)))
  · obtain ⟨n, hn⟩ := List.getElem?_of_mem ht
    rw [List.getElem?_modify] at hn
    obtain ⟨t₀, ht₀, heq⟩ := Option.map_eq_some_iff.mp hn
    by_cases hin : i = n
    · rw [if_pos hin] at heq
      exact .inr (.inr (.inl ⟨i, t₀, List.mem_of_getElem? ht₀, rfl, heq.symm⟩))
    · rw [if_neg hin] at heq
      subst heq
      exact .inl (List.mem_of_getElem? ht₀)
  · rcases List.mem_append.mp ht with ht | ht
    · exact .inl ht
    · obtain ⟨p, hp, rfl⟩ := List.mem_map.mp ht
      exact .inr (.inr (.inr (.inr ⟨v, ps, rfl, hv, rfl, hp⟩)))

/-- What becomes of a thread in a move: it stays, it performs its effect, or it is killed. -/
theorem record_forward {s s' : RecordedConfig W E R G} {m : Move C V} (h : M.record K s m = some s')
    {t : G × Prog E R Unit} (ht : t ∈ s.threads) :
    t ∈ s'.threads ∨
    (∃ i c g e k r, m = .call i c ∧ s.threads[i]? = some (g, .call e k) ∧ t = (g, .call e k) ∧
      M.sem s.world e c = some (s'.world, r) ∧ (K.next g e r, k r) ∈ s'.threads) ∨
    ∃ i, m = .crash i ∧ s.threads[i]? = some t ∧ (t.1, .ret ()) ∈ s'.threads := by
  obtain ⟨n, hn⟩ := List.getElem?_of_mem ht
  have hlt : n < s.threads.length := (List.getElem?_eq_some_iff.mp hn).1
  obtain ⟨i, c, g, e, k, w, r, rfl, hi, hsem, rfl⟩ | ⟨i, rfl, rfl⟩ | ⟨v, w, ps, rfl, hv, rfl⟩ :=
    record_cases h
  · by_cases hin : i = n
    · subst hin
      rw [hi] at hn
      cases hn
      exact .inr (.inl ⟨i, c, g, e, k, r, rfl, hi, rfl, hsem,
        List.mem_append_left _ (List.mem_set hlt _)⟩)
    · refine .inl (List.mem_append_left _ (List.mem_of_getElem? (i := n) ?_))
      rw [List.getElem?_set_ne hin]
      exact hn
  · by_cases hin : i = n
    · subst hin
      refine .inr (.inr ⟨i, rfl, hn, List.mem_of_getElem? (i := i) ?_⟩)
      simp [hn]
    · refine .inl (List.mem_of_getElem? (i := n) ?_)
      simp [hin, hn]
  · exact .inl (List.mem_append_left _ ht)

/-- A thread that is killed leaves its record. -/
theorem records_crash (ts : List (G × Prog E R Unit)) (i : Nat) :
    (ts.modify i fun t => (t.1, .ret ())).map Prod.fst = ts.map Prod.fst := by
  refine List.ext_getElem? fun j => ?_
  rw [List.getElem?_map, List.getElem?_modify, List.getElem?_map]
  cases ts[j]? with
  | none => rfl
  | some t => by_cases hj : i = j <;> simp [hj]

/-- Every program the machine starts heeds the record it is started with. -/
structure Disciplined (M : Machine W E R C V) (K : Recorder E R V G) (L : Rules E R G) : Prop where
  env : ∀ w v w' ps, M.env w v = some (w', ps) → ∀ p ∈ ps,
    Heeds K L (K.start v) p fun g _ => L.ended g
  forks : ∀ e, ∀ p ∈ M.forks e, Heeds K L (K.fork e) p fun g _ => L.ended g

/-- Every thread's program heeds its record. -/
def AllHeed (K : Recorder E R V G) (L : Rules E R G) (s : RecordedConfig W E R G) : Prop :=
  ∀ t ∈ s.threads, Heeds K L t.1 t.2 fun g _ => L.ended g

theorem AllHeed.allowed {s : RecordedConfig W E R G} (h : AllHeed K L s) {i : Nat} {g : G} {e : E}
    {k : R e → Prog E R Unit} (ht : s.threads[i]? = some (g, .call e k)) : L.allowed g e :=
  (h _ (List.mem_of_getElem? ht)).1

/-- A move keeps every program in step with its record, when the replies are as
promised and a program that is killed may end there. -/
theorem Disciplined.record (hM : Disciplined M K L) {s s' : RecordedConfig W E R G} {m : Move C V}
    (hs : AllHeed K L s)
    (hreply : ∀ i c g e k w r, m = .call i c → s.threads[i]? = some (g, .call e k) →
      M.sem s.world e c = some (w, r) → L.promised g e r)
    (hcrash : ∀ t ∈ s.threads, ∀ i, m = .crash i → L.ended t.1)
    (h : M.record K s m = some s') : AllHeed K L s' := by
  intro t ht
  obtain ht | ⟨i, c, g, e, k, r, rfl, hi, hsem, rfl⟩ | ⟨i, t₀, ht₀, rfl, rfl⟩ |
    ⟨i, c, g, e, k, r, rfl, hi, hsem, hg, hp⟩ | ⟨v, ps, rfl, hv, hg, hp⟩ := mem_record h ht
  · exact hs t ht
  · exact (hs _ (List.mem_of_getElem? hi)).2 r (hreply i c g e k _ r rfl hi hsem)
  · exact hcrash t₀ ht₀ i rfl
  · rw [hg]
    exact hM.forks e t.2 hp
  · rw [hg]
    exact hM.env s.world v s'.world ps hv t.2 hp

/-! ## Sums over the records -/

variable {f : G → Nat}

/-- The sum of `f` over the records. -/
def total (f : G → Nat) (s : RecordedConfig W E R G) : Nat := (s.threads.map fun t => f t.1).sum

theorem sum_map_set {l : List α} {f : α → Nat} {i : Nat} {a b : α} (h : l[i]? = some a) :
    ((l.set i b).map f).sum + f a = (l.map f).sum + f b := by
  induction l generalizing i with
  | nil => simp at h
  | cons x l ih =>
    cases i with
    | zero =>
      obtain rfl : x = a := by simpa using h
      simp only [List.set_cons_zero, List.map_cons, List.sum_cons]
      omega
    | succ i =>
      have hl : l[i]? = some a := by simpa using h
      have := ih hl
      simp only [List.set_cons_succ, List.map_cons, List.sum_cons]
      omega

theorem countP_set_add {l : List α} {P : α → Bool} {i : Nat} {a b : α} (h : l[i]? = some a) :
    (l.set i b).countP P + (if P a then 1 else 0) = l.countP P + if P b then 1 else 0 := by
  induction l generalizing i with
  | nil => simp at h
  | cons x l ih =>
    cases i with
    | zero =>
      obtain rfl : x = a := by simpa using h
      simp only [List.set_cons_zero, List.countP_cons]
      omega
    | succ i =>
      have hl : l[i]? = some a := by simpa using h
      have := ih hl
      simp only [List.set_cons_succ, List.countP_cons]
      omega

theorem countP_modify_le {P : α → Bool} {f : α → α} (hf : ∀ a, P (f a) = true → P a = true) (l : List α)
    (i : Nat) : (l.modify i f).countP P ≤ l.countP P := by
  induction l generalizing i with
  | nil => simp
  | cons x l ih =>
    cases i with
    | zero =>
      simp only [List.modify_zero_cons, List.countP_cons]
      by_cases hx : P (f x) = true
      · rw [if_pos hx, if_pos (hf x hx)]
      · rw [if_neg hx]
        exact Nat.le_add_right _ _
    | succ i =>
      simp only [List.modify_succ_cons, List.countP_cons]
      exact Nat.add_le_add_right (ih i) _

theorem sum_map_const {l : List α} {f : α → Nat} {n : Nat} (h : ∀ a ∈ l, f a = n) :
    (l.map f).sum = l.length * n := by
  rw [List.map_congr_left h, List.map_const', List.sum_replicate_nat]

theorem le_total {s : RecordedConfig W E R G} {t : G × Prog E R Unit} (ht : t ∈ s.threads) :
    f t.1 ≤ total f s := by
  obtain ⟨l, l', hl⟩ := List.append_of_mem ht
  simp only [total, hl, List.map_append, List.map_cons, List.sum_append, List.sum_cons]
  omega

/-- The sum counts every thread that weighs at least one. -/
theorem countP_le_total {s : RecordedConfig W E R G} {P : G × Prog E R Unit → Bool}
    (h : ∀ t ∈ s.threads, P t = true → 1 ≤ f t.1) : s.threads.countP P ≤ total f s := by
  unfold total
  generalize s.threads = l at h ⊢
  induction l with
  | nil => exact Nat.le_refl 0
  | cons t l ih =>
    have hl := ih fun t ht => h t (List.mem_cons_of_mem _ ht)
    have ht := h t List.mem_cons_self
    rw [List.countP_cons, List.map_cons, List.sum_cons]
    split
    · rename_i hP
      have := ht hP
      omega
    · omega

/-- What an effect does to the sum. -/
theorem total_call {s s' : RecordedConfig W E R G} {i : Nat} {g : G} {e : E}
    {k : R e → Prog E R Unit} {r : R e} {w : W} (hi : s.threads[i]? = some (g, .call e k))
    (hs : s' = ⟨w, s.threads.set i (K.next g e r, k r) ++ (M.forks e).map fun p => (K.fork e, p)⟩) :
    total f s' + f g = total f s + f (K.next g e r) + (M.forks e).length * f (K.fork e) := by
  subst hs
  have hset : ((s.threads.set i (K.next g e r, k r)).map fun t => f t.1).sum + f g =
      (s.threads.map fun t => f t.1).sum + f (K.next g e r) := sum_map_set hi
  have hfork : (((M.forks e).map fun p => (K.fork e, p)).map fun t => f t.1).sum =
      (M.forks e).length * f (K.fork e) := by
    rw [List.map_map]
    exact sum_map_const fun _ _ => rfl
  simp only [total, List.map_append, List.sum_append, hfork]
  omega

end Machine

end DeepOj.Conc
