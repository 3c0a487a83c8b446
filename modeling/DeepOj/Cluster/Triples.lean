import DeepOj.Cluster.Contract

/-!
# Rules for programs of the system

Triples for single effects, and facts that survive interference.
-/

namespace DeepOj.Cluster

open Repository Worker Api

variable {α β : Type} {kept : Bool}

/-- From a world satisfying `P` the program keeps the contract and ends with `Q`. -/
abbrev Keeps (kept : Bool) (P : World → Prop) (p : Program α) (Q : α → World → Prop) : Prop :=
  system.Triple (contract kept) P p Q

/-- The fact survives every step of the system. -/
def Stable (P : World → Prop) : Prop := ∀ w w', Grows w w' → P w → P w'

/-- No particular outcome. -/
abbrev anyOutcome (_ : α) (_ : World) : Prop := True

theorem Stable.and {P Q : World → Prop} (hP : Stable P) (hQ : Stable Q) :
    Stable fun w => P w ∧ Q w :=
  fun w w' g h => ⟨hP w w' g h.1, hQ w w' g h.2⟩

theorem stable_true : Stable fun _ => True := fun _ _ _ _ => trivial

theorem stable_logged (ev : LogEvent) : Stable fun w => ev ∈ w.log := fun _ _ g h => g.mem h

theorem stable_started (j : String) (a : Nat) (o : String) (i : Nat) :
    Stable fun w => Started w j a o i := fun _ _ g h => h.grows g

theorem stable_entryFor (i : Nat) (j : String) : Stable fun w => EntryFor w i j :=
  fun _ _ g h => h.grows g

theorem stable_exists {ι : Type} {P : ι → World → Prop} (h : ∀ x, Stable (P x)) :
    Stable fun w => ∃ x, P x w :=
  fun w w' g ⟨x, hx⟩ => ⟨x, h x w w' g hx⟩

theorem stable_rowDone (j : String) : Stable fun w => RowDone w j := by
  rintro w w' g ⟨r, hr, hd⟩
  obtain ⟨r', hr', hl⟩ := g.rows j r hr
  exact ⟨r', hr', by rw [hl.final hd]; exact hd⟩

/-- An attempt of the job has been started, or the job is done. -/
def RowStarted (w : World) (j : String) : Prop :=
  ∃ r, w.submissions j = some r ∧ r.state ≠ "pending"

theorem stable_rowStarted (j : String) : Stable fun w => RowStarted w j := by
  rintro w w' g ⟨r, hr, hs⟩
  obtain ⟨r', hr', hl⟩ := g.rows j r hr
  exact ⟨r', hr', hl.started hs⟩

theorem stable_cacheStored (j : String) (m : ResultMap) : Stable fun w => CacheStored w j m :=
  fun _ _ g h => h.grows g

theorem stable_ackJustified (i : Nat) (j : String) (site : AckSite) :
    Stable fun w => AckJustified w i j site := by
  cases site with
  | poison => exact stable_rowDone j
  | claimRejected => exact stable_rowStarted j
  | doneOrStale => exact stable_exists fun r => stable_logged _
  | notFound => exact stable_exists fun r => stable_logged _
  | finalizeRejected a => exact stable_exists fun o => stable_started j a o i
  | finalized a => exact (stable_exists fun o => stable_started j a o i).and (stable_rowDone j)

/-! ## One effect -/

/-- A request: justified by `P`, and `Q` holds whether it is served or dropped. -/
theorem keeps_request {P : World → Prop} {q : Request}
    {Q : Except String q.Response → World → Prop} (hst : Stable P)
    (hj : ∀ w, Sane w → P w → RequestJustified kept w q)
    (hserved : ∀ w ch, Sane w → P w → P (serve w ch q).1 → Sane (serve w ch q).1 →
      Q (serve w ch q).2 (serve w ch q).1)
    (hlost : ∀ w ch msg, Sane w → P w → P (serve w ch q).1 → Q (.error msg) (serve w ch q).1)
    (hdrop : ∀ w msg, P w → P (w.drop q) → Q (.error msg) (w.drop q)) :
    Keeps kept P (request q) Q := by
  refine Conc.Machine.Triple.call (D := contract kept) Q (fun w w' g h => hst w w' g.grows h) hj ?_
    fun r => Conc.Machine.Triple.ret fun w hw => hw
  intro w c w' r hs hP hp hs'
  have hP' : P w' := hst w w' (grows_perform hp) hP
  obtain ⟨ch, rfl, rfl | ⟨msg, rfl⟩⟩ | ⟨rfl, msg, rfl⟩ := perform_request hp
  · exact hserved w ch hs hP hP' hs'
  · exact hlost w ch msg hs hP hP'
  · exact hdrop w msg hP hP'

/-- A request whose outcome the program learns nothing from. -/
theorem keeps_request_any {P : World → Prop} {q : Request} (hst : Stable P)
    (hj : ∀ w, Sane w → P w → RequestJustified kept w q) :
    Keeps kept P (request q) fun _ w => P w :=
  keeps_request hst hj (fun _ _ _ _ h _ => h) (fun _ _ _ _ _ h => h) fun _ _ _ h => h

/-- An action of the own process. -/
theorem keeps_act {P : World → Prop} {a : Action} {Q : a.Response → World → Prop}
    (hst : Stable P) (hj : ∀ w, Sane w → P w → ActionJustified w a)
    (hq : ∀ w ch w' r, Sane w → P w → actLocally w ch a = some (w', r) → P w' → Q r w') :
    Keeps kept P (act a) Q := by
  refine Conc.Machine.Triple.call (D := contract kept) Q (fun w w' g h => hst w w' g.grows h) hj ?_
    fun r => Conc.Machine.Triple.ret fun w hw => hw
  intro w c w' r hs hP hp _
  obtain ⟨ch, ha⟩ := perform_act hp
  exact hq w ch w' r hs hP ha (hst w w' (grows_actLocally ha) hP)

/-- An action that tells the program nothing. -/
theorem keeps_act_any {P : World → Prop} {a : Action} (hst : Stable P)
    (hj : ∀ w, Sane w → P w → ActionJustified w a) : Keeps kept P (act a) fun _ w => P w :=
  keeps_act hst hj fun _ _ _ _ _ _ _ h => h

theorem keeps_pure {P : World → Prop} {a : α} {Q : α → World → Prop} (h : ∀ w, P w → Q a w) :
    Keeps kept P (pure a) Q :=
  Conc.Machine.Triple.ret h

theorem keeps_bind {P : World → Prop} {p : Program α} {Q : α → World → Prop}
    {f : α → Program β} {Q' : β → World → Prop} (hp : Keeps kept P p Q)
    (hf : ∀ a, Keeps kept (Q a) (f a) Q') : Keeps kept P (p >>= f) Q' :=
  Conc.Machine.Triple.bind hp hf

theorem keeps_weaken {P P' : World → Prop} {p : Program α} {Q Q' : α → World → Prop}
    (h : Keeps kept P p Q) (hP : ∀ w, P' w → P w) (hQ : ∀ a w, Q a w → Q' a w) : Keeps kept P' p Q' :=
  Conc.Machine.Triple.conseq h hP hQ

/-- A program keeps every fact that survives interference. -/
theorem keeps_frame {P F : World → Prop} {p : Program α} {Q : α → World → Prop} (hF : Stable F)
    (h : Keeps kept P p Q) : Keeps kept (fun w => P w ∧ F w) p fun a w => Q a w ∧ F w :=
  Conc.Machine.Triple.frame (fun _ w w' g => hF w w' g.grows)
    (fun w _ _ w' _ hp => hF w w' (grows_perform hp)) h

/-- Splitting on a fact that does not depend on the world. -/
theorem keeps_of_imp {P : World → Prop} {p : Program α} {Q : α → World → Prop} {φ : Prop}
    (hφ : ∀ w, P w → φ) (h : φ → Keeps kept P p Q) : Keeps kept P p Q :=
  ⟨fun w hw => (h (hφ w hw)).wp w hw⟩

/-! ## Updates of a row -/

/-- What a served update tells: the row it left, or that it selected nothing. -/
theorem serve_update_result {w : World} {ch : Chance} {j : String} {op : RowOp}
    {via : Option Nat} {v : Nat} (h : (serve w ch (.update j op via)).2 = .ok (some v)) :
    ∃ s s', w.submissions j = some s ∧ op.exec w.dbNow s = some (s', v) ∧
      (serve w ch (.update j op via)).1 = (w.setRow j s').recordUpdate j op via v := by
  obtain ⟨s, s', v', hs, hx, hw⟩ | ⟨_, hw⟩ := serve_update w ch j op via
  · rw [hw] at h
    cases h
    exact ⟨s, s', hs, hx, by rw [hw]⟩
  · rw [hw] at h
    cases h

theorem serve_update_none {w : World} {ch : Chance} {j : String} {op : RowOp}
    {via : Option Nat} (h : (serve w ch (.update j op via)).2 = .ok none) :
    (∀ s, w.submissions j = some s → op.exec w.dbNow s = none) ∧
      (serve w ch (.update j op via)).1 = w.recordSkip j op := by
  obtain ⟨s, s', v', hs, hx, hw⟩ | ⟨hn, hw⟩ := serve_update w ch j op via
  · rw [hw] at h
    cases h
  · exact ⟨hn, by rw [hw]⟩

end DeepOj.Cluster
