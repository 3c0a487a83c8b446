import DeepOj.Cluster.Phantom

/-!
# Whose job an answer names

A submission belongs to the user whose request created it, and a status request
checks that. An answer names a job of the user who asked as long as an in-flight key
only answers with an id that a request of the same user has generated.
-/

namespace DeepOj.Cluster

open Repository Worker Api Conc

/-- The check of `HandleStatus`: once the row has been read, the handler goes on to
read the result. -/
def PassesOwnershipCheck (caller : Caller) (j : String) (row : Submission) : Prop :=
  ∀ k, handleStatus caller j = .call (.request (.select j .status)) k →
    ∃ k', k (.ok (some row)) = .call (.request (.get .api (resultKey j))) k'

section Check

variable {rid u : Nat} {requestID j : String} {admin : Bool} {row : Submission}

theorem passesOwnershipCheck_of_owner (h : row.userID.getD 0 = u) :
    PassesOwnershipCheck ⟨rid, requestID, some u, admin⟩ j row := by
  intro k hk
  unfold handleStatus at hk
  by_cases hj : j = ""
  · rw [if_pos hj] at hk
    cases hk
  · rw [if_neg hj] at hk
    cases hk
    have hno : ¬ (admin = false ∧ row.userID.getD 0 ≠ u) := fun hf => hf.2 h
    show ∃ k', (if admin = false ∧ row.userID.getD 0 ≠ u then _ else _) = _
    rw [if_neg hno]
    exact ⟨_, rfl⟩

/-- Only the owner passes, unless the caller is an admin. -/
theorem owner_of_passesOwnershipCheck (hj : j ≠ "")
    (h : PassesOwnershipCheck ⟨rid, requestID, some u, false⟩ j row) : row.userID.getD 0 = u := by
  by_contra hne
  obtain ⟨k', hk⟩ := h _ (by unfold handleStatus; rw [if_neg hj]; rfl)
  change (if false = false ∧ row.userID.getD 0 ≠ u then _ else _) = _ at hk
  rw [if_pos ⟨rfl, hne⟩] at hk
  cases hk

end Check

/-- The user a row is stored for. -/
def ownerOf : Option Nat → Option Nat
  | some u => if u > 0 then some u else none
  | none => none

theorem ownerOf_getD (u : Nat) : (ownerOf (some u)).getD 0 = u := by
  by_cases hu : u > 0
  · simp [ownerOf, hu]
  · have h0 : u = 0 := by omega
    simp [ownerOf, h0]

/-- An id answered to a submit request of a user is not the id of someone else's job,
and `HandleStatus` lets the user read it. -/
def OwnershipAgrees (s : RecordedState) : Prop :=
  ∀ t ∈ s.threads, t.1.submits = true → ∀ u, t.1.userID = some u → ∀ j ∈ t.1.answered,
    ∀ row, s.world.submissions j = some row → row.userID.getD 0 = u ∧
      ∀ rid requestID admin, PassesOwnershipCheck ⟨rid, requestID, some u, admin⟩ j row

/-- The id a move generates. -/
def draws (s : RecordedState) : Step → Option String
  | .call i (.ok ch) => if s.nextAt i = some (.act .uuid) then some ch.uuid else none
  | _ => none

/-- `uuid.New` does not repeat itself. -/
def FreshIDs (s : RecordedState) (m : Step) : Prop :=
  ∀ j ∈ draws s m, ∀ t ∈ s.threads, j ∉ t.1.drawn

instance (s : RecordedState) (m : Step) : Decidable (FreshIDs s m) :=
  inferInstanceAs (Decidable (∀ j ∈ draws s m, _))

/-- The user of the thread that moves. -/
def mover (s : RecordedState) : Step → Option Record
  | .call i _ => s.threads[i]?.map Prod.fst
  | _ => none

/-- An in-flight key answers a request with an id that a submit request of the same
user has generated. -/
def AnswersOwn (s : RecordedState) (m : Step) : Prop :=
  ∀ j ∈ readsInflight s m, ∀ g ∈ mover s m,
    ∃ t ∈ s.threads, t.1.submits = true ∧ j ∈ t.1.drawn ∧ t.1.userID = g.userID

instance (s : RecordedState) (m : Step) : Decidable (AnswersOwn s m) :=
  inferInstanceAs (Decidable (∀ j ∈ readsInflight s m, ∀ g ∈ mover s m, _))

/-- The condition of a run in which in-flight keys stay between the requests of one user. -/
def KeepsOwners (s : RecordedState) (m : Step) : Prop := FreshIDs s m ∧ AnswersOwn s m

instance (s : RecordedState) (m : Step) : Decidable (KeepsOwners s m) :=
  inferInstanceAs (Decidable (_ ∧ _))

/-! ## Where ids and rows come from -/

variable {ok : RecordedState → Step → Prop} {s s' : RecordedState} {m : Step} {j : String}

/-- An id is added to those a thread has drawn when it is generated. -/
theorem drawn_call {i : Nat} {c : Fate} {g : Record} {e : Effect} {k : e.Reply → Program Unit}
    {w : World} {r : e.Reply} (hi : s.threads[i]? = some (g, .call e k))
    (h : perform s.world e c = some (w, r)) (hj : j ∈ (g.next e r).drawn) :
    j ∈ g.drawn ∨ draws s (.call i c) = some j := by
  have hn : s.nextAt i = some e := RecordedConfig.nextAt_of_thread hi
  cases e with
  | act a =>
    cases a with
    | uuid =>
      rcases List.mem_cons.mp hj with rfl | hj
      · cases c with
        | ok ch =>
          have ha : actLocally s.world ch .uuid = some (w, j) := h
          simp only [actLocally] at ha
          split at ha
          · cases ha
            right
            simp only [draws, hn, if_true]
          · cases ha
        | failed msg => cases h
        | lost ch msg => cases h
      · exact .inl hj
    | _ => exact .inl hj
  | request q =>
    cases q with
    | get reader k' => cases r <;> exact .inl hj
    | insert sub origin => cases r <;> exact .inl hj
    | insertWithOutbox sub event => cases r <;> exact .inl hj
    | select j' purpose =>
      cases r with
      | error err => exact .inl hj
      | ok row => cases row <;> exact .inl hj
    | _ => exact .inl hj

/-- An id belongs to the requests of one user. -/
def OneUser (s : RecordedState) : Prop :=
  ∀ t ∈ s.threads, ∀ t' ∈ s.threads, ∀ j, j ∈ t.1.drawn → j ∈ t'.1.drawn →
    t.1.userID = t'.1.userID

/-- The records of a move: an old record that has not drawn more, or the record of the
thread that has drawn the new id. -/
theorem drawn_record (hstep : recordStep s m = some s') {t : Record × Program Unit}
    (ht : t ∈ s'.threads) (hj : j ∈ t.1.drawn) :
    (∃ t₀ ∈ s.threads, j ∈ t₀.1.drawn ∧ t₀.1.userID = t.1.userID) ∨
      draws s m = some j ∧ ∃ g ∈ mover s m, g.userID = t.1.userID := by
  obtain ht | ⟨i, c, g, e, k, r, rfl, hi, hsem, rfl⟩ | ⟨_, t₀, ht₀, rfl, rfl⟩ |
    ⟨i, c, g, e, k, r, rfl, hi, hsem, hg, _⟩ | ⟨v, ps, rfl, hv, hg, _⟩ :=
    Machine.mem_record hstep ht
  · exact .inl ⟨t, ht, hj, rfl⟩
  · have hu : g.userID = (g.next e r).userID := (extends_next g e r).userID.symm
    obtain hj | hdraw := drawn_call hi hsem hj
    · exact .inl ⟨_, List.mem_of_getElem? hi, hj, hu⟩
    · exact .inr ⟨hdraw, g, by simp [mover, hi], hu⟩
  · exact .inl ⟨t₀, ht₀, hj, rfl⟩
  · rw [hg] at hj
    cases hj
  · rw [hg] at hj
    cases v <;> cases hj

theorem oneUser_of_run (h : RecordedRun FreshIDs s) : OneUser s := by
  induction h with
  | init => exact fun t ht => by cases ht
  | step m hrun hok hstep ih =>
    rename_i s s'
    intro t ht t' ht' j hj hj'
    obtain ⟨t₀, ht₀, hj₀, hu⟩ | ⟨hdraw, g, hg, hu⟩ := drawn_record hstep ht hj
    · obtain ⟨t₁, ht₁, hj₁, hu'⟩ | ⟨hdraw, _⟩ := drawn_record hstep ht' hj'
      · rw [← hu, ← hu']
        exact ih t₀ ht₀ t₁ ht₁ j hj₀ hj₁
      · exact absurd hj₀ (hok j hdraw t₀ ht₀)
    · obtain ⟨t₁, ht₁, hj₁, _⟩ | ⟨_, g', hg', hu'⟩ := drawn_record hstep ht' hj'
      · exact absurd hj₁ (hok j hdraw t₁ ht₁)
      · -- both are the record of the thread that moves
        rw [Option.mem_def] at hg hg'
        rw [hg] at hg'
        cases hg'
        exact hu.symm.trans hu'

/-- A row after a request: it has the user it had, or the request has created it. -/
theorem userID_serve {w : World} {ch : Chance} {q : Request} {row : Submission}
    (hrow : (serve w ch q).1.submissions j = some row) :
    (∃ row₀, w.submissions j = some row₀ ∧ row₀.userID = row.userID) ∨
      ∃ sub, sub.jobID = j ∧ sub.userID = row.userID ∧
        ((∃ origin, q = .insert sub origin) ∨ ∃ event, q = .insertWithOutbox sub event) := by
  have hc : Change w q (serve w ch q).1 := change_serve w ch q
  generalize (serve w ch q).1 = w' at hc hrow
  have hsame : w'.submissions = w.submissions → _ := fun heq =>
    (⟨row, heq ▸ hrow, rfl⟩ : ∃ row₀, w.submissions j = some row₀ ∧ row₀.userID = row.userID)
  have hinsert : ∀ sub : Submission, ∀ origin, (w.insertRow sub origin).submissions j = some row →
      (∃ row₀, w.submissions j = some row₀ ∧ row₀.userID = row.userID) ∨
        sub.jobID = j ∧ sub.userID = row.userID := by
    intro sub origin hr
    by_cases hj : j = sub.jobID
    · subst hj
      rw [show (w.insertRow sub origin).submissions sub.jobID = _ from
        w.setRow_self sub.jobID _] at hr
      cases hr
      exact .inr ⟨rfl, rfl⟩
    · exact .inl ⟨row, (w.setRow_of_ne hj _).symm.trans hr, rfl⟩
  cases hc with
  | update hr hx =>
    rename_i j' op via r r₁ v
    obtain ⟨hrows, _⟩ := recordUpdate_eq (w.setRow j' r₁) j' op via v
    rw [hrows] at hrow
    by_cases hjj : j = j'
    · subst hjj
      obtain rfl := Option.some.inj ((w.setRow_self j r₁).symm.trans hrow)
      exact .inl ⟨r, hr, (userID_of_exec hx).symm⟩
    · exact .inl ⟨row, (w.setRow_of_ne hjj r₁).symm.trans hrow, rfl⟩
  | insert _ =>
    exact (hinsert _ _ hrow).imp_right fun h => ⟨_, h.1, h.2, .inl ⟨_, rfl⟩⟩
  | insertWithOutbox _ hw =>
    subst hw
    exact (hinsert _ .outbox hrow).imp_right fun h => ⟨_, h.1, h.2, .inr ⟨_, rfl⟩⟩
  | get => exact .inl (hsame (sameData_recordGet w _ _).rows)
  | skip _ => exact .inl (hsame (sameData_recordSkip w _ _).rows)
  | xack =>
    refine .inl (hsame ?_)
    unfold World.xack
    split <;> rfl
  | same => exact .inl (hsame rfl)
  | inspect => exact .inl (hsame rfl)
  | outbox _ => exact .inl (hsame rfl)
  | dispatched => exact .inl (hsame rfl)
  | set _ => exact .inl (hsame rfl)
  | del => exact .inl (hsame rfl)
  | xadd => exact .inl (hsame rfl)

/-- A row after an effect that follows the rules: it has the user it had, or it was
created for an id the thread has drawn. -/
theorem userID_perform {w w' : World} {g : Record} {e : Effect} {c : Fate} {r : e.Reply}
    (hf : Follows g e) (h : perform w e c = some (w', r)) {row : Submission}
    (hrow : w'.submissions j = some row) :
    (∃ row₀, w.submissions j = some row₀ ∧ row₀.userID = row.userID) ∨
      g.submits = true ∧ j ∈ g.drawn ∧ row.userID = ownerOf g.userID := by
  have hcreated : ∀ (sub : Submission), sub.jobID = j → sub.userID = row.userID →
      (∃ j' ∈ g.drawn, ∃ req, sub = newSubmission j' g.userID req) →
      j ∈ g.drawn ∧ row.userID = ownerOf g.userID := by
    rintro sub hj hu ⟨j', hd, req, rfl⟩
    exact ⟨hj ▸ hd, hu.symm⟩
  cases e with
  | act a =>
    obtain ⟨ch, ha⟩ := perform_act h
    exact .inl ⟨row, (quiet_actLocally ha).data.rows ▸ hrow, rfl⟩
  | request q =>
    obtain ⟨ch, rfl, _⟩ | ⟨rfl, _⟩ := perform_request h
    · obtain hold | ⟨sub, hj, hu, ⟨origin, rfl⟩ | ⟨event, rfl⟩⟩ := userID_serve hrow
      · exact .inl hold
      · exact .inr ⟨hf.1, hcreated sub hj hu hf.2⟩
      · exact .inr ⟨hf.1, hcreated sub hj hu hf.2.2⟩
    · exact .inl ⟨row, (sameData_drop w q).rows ▸ hrow, rfl⟩

/-- Every row belongs to the user whose request generated its id. -/
def RowsOwned (s : RecordedState) : Prop :=
  ∀ j row, s.world.submissions j = some row →
    ∃ t ∈ s.threads, j ∈ t.1.drawn ∧ row.userID = ownerOf t.1.userID

/-- A record that has drawn an id goes on, with the same user. -/
theorem drawn_forward (hstep : recordStep s m = some s') {t : Record × Program Unit}
    (ht : t ∈ s.threads) :
    ∃ t' ∈ s'.threads, t.1.Extends t'.1 := by
  obtain ht | ⟨i, c, g, e, k, r, rfl, hi, rfl, hsem, hnext⟩ | ⟨i, rfl, hi, hdead⟩ :=
    Machine.record_forward hstep ht
  · exact ⟨t, ht, .refl t.1⟩
  · exact ⟨_, hnext, extends_next g e r⟩
  · exact ⟨_, hdead, .refl t.1⟩

theorem submissions_envStep {w w' : World} {v : Env} {ps : List (Program Unit)}
    (h : envStep w v = some (w', ps)) : w'.submissions = w.submissions := by
  have hc : EnvChange w v w' := change_envStep h
  cases hc with
  | same hd _ => exact hd.rows
  | asked _ _ hd _ => exact hd.rows
  | dbTick => rfl
  | give _ _ => rfl
  | expire => rfl
  | fillCache => rfl

theorem rowsOwned_of_run (h : RecordedRun ok s) : RowsOwned s := by
  induction h with
  | init => exact fun j row hr => by simp [recordedStart, World.empty] at hr
  | step m hrun hok hstep ih =>
    rename_i s s'
    intro j row hr
    have hold : ∀ row₀, s.world.submissions j = some row₀ → row₀.userID = row.userID →
        ∃ t ∈ s'.threads, j ∈ t.1.drawn ∧ row.userID = ownerOf t.1.userID := by
      intro row₀ hr₀ hu
      obtain ⟨t, ht, hj, ho⟩ := ih j row₀ hr₀
      obtain ⟨t', ht', hx⟩ := drawn_forward hstep ht
      exact ⟨t', ht', hx.drawn hj, by rw [← hu, ho, hx.userID]⟩
    have hmove := Machine.record_cases hstep
    obtain ⟨i, c, g, e, k, w, r, rfl, hi, hs, rfl⟩ | ⟨i, rfl, rfl⟩ | ⟨v, w, ps, rfl, hv, rfl⟩ :=
      hmove
    · obtain ⟨row₀, hr₀, hu⟩ | ⟨_, hj, hu⟩ := userID_perform (follows_of_run hrun hi) hs hr
      · exact hold row₀ hr₀ hu
      · obtain ⟨t', ht', hx⟩ := drawn_forward hstep (List.mem_of_getElem? hi)
        exact ⟨t', ht', hx.drawn hj, by rw [hu, hx.userID]⟩
    · exact hold row hr rfl
    · rw [submissions_envStep hv] at hr
      exact hold row hr rfl

/-- What a submit request has persisted it has drawn. -/
def PersistedDrawn (s : RecordedState) : Prop :=
  ∀ t ∈ s.threads, ∀ j ∈ t.1.persisted, j ∈ t.1.drawn

theorem persisted_next {g : Record} {e : Effect} {r : e.Reply} (hf : Follows g e)
    (hj : j ∈ (g.next e r).persisted) : j ∈ g.persisted ∨ j ∈ g.drawn := by
  cases e with
  | act a => cases a <;> exact .inl hj
  | request q =>
    cases q with
    | insert sub origin =>
      cases r with
      | error err => exact .inl hj
      | ok u =>
        rcases List.mem_cons.mp hj with rfl | hj
        · obtain ⟨_, j', hd, req, rfl⟩ := hf
          exact .inr hd
        · exact .inl hj
    | insertWithOutbox sub event =>
      cases r with
      | error err => exact .inl hj
      | ok u =>
        rcases List.mem_cons.mp hj with rfl | hj
        · obtain ⟨_, _, j', hd, req, rfl⟩ := hf
          exact .inr hd
        · exact .inl hj
    | get reader k => cases r <;> exact .inl hj
    | select j' purpose =>
      cases r with
      | error err => exact .inl hj
      | ok row => cases row <;> exact .inl hj
    | _ => exact .inl hj

theorem persistedDrawn_of_run (h : RecordedRun ok s) : PersistedDrawn s := by
  induction h with
  | init => exact fun t ht => by cases ht
  | step m hrun hok hstep ih =>
    rename_i s s'
    intro t ht j hj
    obtain ht | ⟨i, c, g, e, k, r, rfl, hi, hsem, rfl⟩ | ⟨_, t₀, ht₀, rfl, rfl⟩ |
      ⟨i, c, g, e, k, r, rfl, hi, hsem, hg, _⟩ | ⟨v, ps, rfl, hv, hg, _⟩ :=
      Machine.mem_record hstep ht
    · exact ih t ht j hj
    · have hx : g.Extends (g.next e r) := extends_next g e r
      rcases persisted_next (follows_of_run hrun hi) hj with hj | hj
      · exact hx.drawn (ih _ (List.mem_of_getElem? hi) j hj)
      · exact hx.drawn hj
    · exact ih t₀ ht₀ j hj
    · rw [hg] at hj
      cases hj
    · rw [hg] at hj
      cases v <;> cases hj

/-- An id a request was given has been generated by a request of the same user. -/
def GivenOwn (s : RecordedState) : Prop :=
  ∀ t ∈ s.threads, ∀ j ∈ t.1.given, ∃ t' ∈ s.threads, j ∈ t'.1.drawn ∧ t'.1.userID = t.1.userID

theorem givenOwn_of_run (h : RecordedRun AnswersOwn s) : GivenOwn s := by
  induction h with
  | init => exact fun t ht => by cases ht
  | step m hrun hok hstep ih =>
    rename_i s s'
    intro t ht j hj
    have hlater : ∀ {u}, (∃ t' ∈ s.threads, j ∈ t'.1.drawn ∧ t'.1.userID = u) →
        ∃ t' ∈ s'.threads, j ∈ t'.1.drawn ∧ t'.1.userID = u := by
      rintro u ⟨t', ht', hd, hu⟩
      obtain ⟨t'', ht'', hx⟩ := drawn_forward hstep ht'
      exact ⟨t'', ht'', hx.drawn hd, hx.userID.trans hu⟩
    obtain ht | ⟨i, c, g, e, k, r, rfl, hi, hsem, rfl⟩ | ⟨_, t₀, ht₀, rfl, rfl⟩ |
      ⟨i, c, g, e, k, r, rfl, hi, hsem, hg, _⟩ | ⟨v, ps, rfl, hv, hg, _⟩ :=
      Machine.mem_record hstep ht
    · exact hlater (ih t ht j hj)
    · have hu : (g.next e r).userID = g.userID := (extends_next g e r).userID
      show ∃ t' ∈ s'.threads, j ∈ t'.1.drawn ∧ t'.1.userID = (g.next e r).userID
      rw [hu]
      obtain hj | ⟨hread, _⟩ := given_call hi hsem hj
      · exact hlater (ih _ (List.mem_of_getElem? hi) j hj)
      · -- the id is read now, from a key that only answers with an id of the same user
        obtain ⟨t', ht', _, hd, hu'⟩ := hok j hread g (by simp [mover, hi])
        exact hlater ⟨t', ht', hd, hu'⟩
    · exact hlater (ih t₀ ht₀ j hj)
    · rw [hg] at hj
      cases hj
    · rw [hg] at hj
      cases v <;> cases hj

/-- In a run in which an in-flight key answers a request only with an id that a
request of the same user has generated, and generated ids do not repeat: an id
answered to a user is never the id of someone else's job, and `HandleStatus` lets the
user read it. -/
theorem ownership_agrees (h : RecordedRun KeepsOwners s) : OwnershipAgrees s := by
  have hone : OneUser s := oneUser_of_run (h.mono fun _ _ hm => hm.1)
  have hgiven : GivenOwn s := givenOwn_of_run (h.mono fun _ _ hm => hm.2)
  intro t ht hsub u hu j hj row hrow
  have hdrawn : ∃ t' ∈ s.threads, j ∈ t'.1.drawn ∧ t'.1.userID = t.1.userID := by
    obtain hp | hg | ⟨hno, _⟩ := answersKnown_of_run h t ht j hj
    · exact ⟨t, ht, persistedDrawn_of_run h t ht j hp, rfl⟩
    · exact hgiven t ht j hg
    · rw [hsub] at hno
      cases hno
  obtain ⟨t₁, ht₁, hj₁, hu₁⟩ := hdrawn
  obtain ⟨t₂, ht₂, hj₂, ho⟩ := rowsOwned_of_run h j row hrow
  have howner : row.userID.getD 0 = u := by
    rw [ho, hone t₂ ht₂ t₁ ht₁ j hj₂ hj₁, hu₁, hu]
    exact ownerOf_getD u
  exact ⟨howner, fun rid requestID admin => passesOwnershipCheck_of_owner howner⟩

set_option maxRecDepth 4000 in
/-- User 7 submits the same program twice and is answered with the same id. -/
theorem ownership_agrees_duplicate :
    let s := playRecorded KeepsOwners recordedStart
      (submission ++ resubmission 7 1 "job-2" ++ calls 1 2)
    ∃ t ∈ s.threads, t.1.drawn = ["job-2"] ∧ t.1.answered = ["job-1"] ∧
      ∃ row, s.world.submissions "job-1" = some row ∧ row.userID.getD 0 = 7 := by
  intro s
  have hrun : RecordedRun KeepsOwners s :=
    Run.init.playAll (submission ++ resubmission 7 1 "job-2" ++ calls 1 2)
  have hthread : ∃ t ∈ s.threads, t.1.submits = true ∧ t.1.userID = some 7 ∧
      t.1.drawn = ["job-2"] ∧ t.1.answered = ["job-1"] := by decide +kernel
  have hrow : (s.world.submissions "job-1").isSome = true := by decide +kernel
  obtain ⟨t, ht, hsub, hu, hd, ha⟩ := hthread
  obtain ⟨row, hrow⟩ := Option.isSome_iff_exists.mp hrow
  exact ⟨t, ht, hd, ha, row, hrow, (ownership_agrees hrun t ht hsub 7 hu "job-1"
    (by rw [ha]; exact List.mem_singleton_self _) row hrow).1⟩

set_option maxRecDepth 4000 in
/-- User 8 submits the program of user 7 and is answered with the id of that job,
which `HandleStatus` then refuses to show. -/
theorem foreign_id : ∃ s, RecordedRun FreshIDs s ∧ ¬ OwnershipAgrees s := by
  let s := playRecorded FreshIDs recordedStart
    (submission ++ resubmission 8 1 "job-2" ++ calls 1 2)
  have hrun : RecordedRun FreshIDs s :=
    Run.init.playAll (submission ++ resubmission 8 1 "job-2" ++ calls 1 2)
  have hthread : ∃ t ∈ s.threads, t.1.submits = true ∧ t.1.userID = some 8 ∧
      "job-1" ∈ t.1.answered := by decide +kernel
  have hrow : (s.world.submissions "job-1").map (·.userID) = some (some 7) := by decide +kernel
  refine ⟨s, hrun, fun hagree => ?_⟩
  obtain ⟨t, ht, hsub, hu, ha⟩ := hthread
  obtain ⟨row, hrow, huser⟩ := Option.map_eq_some_iff.mp hrow
  have hpass := (hagree t ht hsub 8 hu "job-1" ha row hrow).2 2 "" false
  have howner := owner_of_passesOwnershipCheck (by decide) hpass
  rw [huser] at howner
  exact absurd howner (by decide)

end DeepOj.Cluster
