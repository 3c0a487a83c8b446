import DeepOj.Cluster.Requests

/-!
# The ids in the answers

An in-flight key publishes a job id before the row of the job is there. An answer
taken from it names a job with a row as long as the request that generated the id
still creates the row.
-/

namespace DeepOj.Cluster

open Repository Worker Api Conc

/-- The program goes on to create the row of `j`: its next effects read the clock,
and then it sends the insert. -/
def Owes (j : String) : Program Unit → Prop
  | .ret _ => False
  | .call e k => e.creates = some j ∨ (e = .act .now ∧ ∀ r, Owes j (k r))

/-- The job has a row, or the request that generated its id still creates it. -/
def Backed (s : RecordedState) (j : String) : Prop :=
  HasRow s.world j ∨ ∃ t ∈ s.threads, t.1.submits = true ∧ j ∈ t.1.drawn ∧ Owes j t.2

/-- The id a move reads from an in-flight key. -/
def readsInflight (s : RecordedState) : Step → Option String
  | .call i (.ok _) =>
    match s.nextAt i with
    | some (.request (.get _ k)) => inflightText k (s.world.redis k)
    | _ => none
  | _ => none

/-- The move ends a request before it has created the row of `j`: its insert fails,
or its process stops. -/
def Loses (s : RecordedState) (j : String) : Step → Prop
  | .call i c => (∃ e, s.nextAt i = some e ∧ e.creates = some j) ∧ c.served = false
  | .crash i => ∃ t, s.threads[i]? = some t ∧ Owes j t.2
  | .env _ => False

/-- An in-flight key only answers with an id that is backed, and a request whose id
was given to another is not lost before its row is there. -/
structure KeepsPromises (s : RecordedState) (m : Step) : Prop where
  backed : ∀ j, readsInflight s m = some j → Backed s j
  kept : ∀ t ∈ s.threads, ∀ j ∈ t.1.given, ¬ Loses s j m

/-- The submit request that generated the id `j` has finished. -/
def GeneratorFinished (s : RecordedState) (j : String) : Prop :=
  ∀ t ∈ s.threads, t.1.submits = true → j ∈ t.1.drawn → t.2.next = none

/-- The answer to a submit request names a job that has a row, once the request that
generated the id has finished. -/
def NoPhantom (s : RecordedState) : Prop :=
  ∀ t ∈ s.threads, t.1.submits = true → ∀ j ∈ t.1.answered, GeneratorFinished s j →
    HasRow s.world j

variable {ok : RecordedState → Step → Prop} {s s' : RecordedState} {m : Step} {j : String}

/-- Only a loss ends the backing of an id. -/
theorem Backed.record (h : Backed s j) (hrun : RecordedRun ok s) (hl : ¬ Loses s j m)
    (hstep : recordStep s m = some s') : Backed s' j := by
  obtain hrow | ⟨t, ht, hsub, hdrawn, howes⟩ := h
  · exact .inl (hrow.grows (grows_recordStep hstep))
  · obtain ht | ⟨i, c, g, e, k, r, rfl, hi, rfl, hsem, hnext⟩ | ⟨i, rfl, hi, _⟩ :=
      Machine.record_forward hstep ht
    · exact .inr ⟨t, ht, hsub, hdrawn, howes⟩
    · have hn : s.nextAt i = some e := RecordedConfig.nextAt_of_thread hi
      rcases howes with hcreates | ⟨rfl, hcont⟩
      · -- the request creates its row, since the insert is served
        refine .inl (hasRow_of_perform (sane_of_run hrun) (follows_of_run hrun hi) hcreates ?_ hsem)
        by_contra hs
        exact hl ⟨⟨e, hn, hcreates⟩, Bool.eq_false_iff.mpr hs⟩
      · have hg : g.Extends (g.next (.act .now) r) := extends_next g (.act .now) r
        exact .inr ⟨_, hnext, hg.submits.trans hsub, hg.drawn hdrawn, hcont r⟩
    · exact absurd ⟨t, hi, howes⟩ hl

/-- The ids a thread was given are backed. -/
def GivenBacked (s : RecordedState) : Prop := ∀ t ∈ s.threads, ∀ j ∈ t.1.given, Backed s j

/-- An id is given by a read of an in-flight key. -/
theorem given_call {i : Nat} {c : Fate} {g : Record} {e : Effect} {k : e.Reply → Program Unit}
    {w : World} {r : e.Reply} (hi : s.threads[i]? = some (g, .call e k))
    (h : perform s.world e c = some (w, r)) (hj : j ∈ (g.next e r).given) :
    j ∈ g.given ∨ readsInflight s (.call i c) = some j ∧ e.creates = none := by
  have hn : s.nextAt i = some e := RecordedConfig.nextAt_of_thread hi
  cases e with
  | act a => cases a <;> exact .inl hj
  | request q =>
    cases q with
    | get reader k' =>
      cases r with
      | error err => exact .inl hj
      | ok v =>
        rcases List.mem_append.mp hj with hj | hj
        · cases c with
          | ok ch =>
            have hv : s.world.redis k' = v := Except.ok.inj (Prod.mk.inj (Option.some.inj h)).2
            have hread : inflightText k' v = some j := Option.mem_toList.mp hj
            refine .inr ⟨?_, rfl⟩
            simp only [readsInflight, hn, hv, hread]
          | failed msg => exact absurd (Prod.mk.inj (Option.some.inj h)).2 (by simp)
          | lost ch msg => exact absurd (Prod.mk.inj (Option.some.inj h)).2 (by simp)
        · exact .inl hj
    | insert sub origin => cases r <;> exact .inl hj
    | insertWithOutbox sub event => cases r <;> exact .inl hj
    | select j' purpose =>
      cases r with
      | error err => exact .inl hj
      | ok row => cases row <;> exact .inl hj
    | _ => exact .inl hj

theorem givenBacked_of_run (h : RecordedRun KeepsPromises s) : GivenBacked s := by
  induction h with
  | init => exact fun t ht => by cases ht
  | step m hrun hok hstep ih =>
    rename_i s s'
    intro t ht j hj
    -- an id that was given before stays backed, since it is not lost
    have hold : ∀ t ∈ s.threads, j ∈ t.1.given → Backed s' j := fun t ht hj =>
      (ih t ht j hj).record hrun (hok.kept t ht j hj) hstep
    obtain ht | ⟨i, c, g, e, k, r, rfl, hi, hsem, rfl⟩ | ⟨_, t₀, ht₀, rfl, rfl⟩ |
      ⟨i, c, g, e, k, r, rfl, hi, hsem, hg, _⟩ | ⟨v, ps, rfl, hv, hg, _⟩ :=
      Machine.mem_record hstep ht
    · exact hold t ht hj
    · obtain hj | ⟨hread, hcreates⟩ := given_call hi hsem hj
      · exact hold _ (List.mem_of_getElem? hi) hj
      · -- the id is read now, from a key that only answers with a backed id
        refine (hok.backed j hread).record hrun ?_ hstep
        rintro ⟨⟨e', hn, hc⟩, _⟩
        rw [RecordedConfig.nextAt_of_thread hi] at hn
        cases hn
        rw [hcreates] at hc
        cases hc
    · exact hold t₀ ht₀ hj
    · rw [hg] at hj
      cases hj
    · rw [hg] at hj
      cases v <;> cases hj

theorem Owes.unfinished {p : Program Unit} (h : Owes j p) : p.next ≠ none := by
  cases p with
  | ret a => exact absurd h id
  | call e k => exact fun hn => by cases hn

/-- In a run in which an in-flight key only answers with the id of a job that has a
row or whose request still creates it, and no request is lost between the two once
its id was given to another: every id answered to a submit request names a job that
has a row, once the request that generated the id has finished. -/
theorem no_phantom (h : RecordedRun KeepsPromises s) : NoPhantom s := by
  intro t ht hsub j hj hdone
  obtain hp | hgiven | ⟨hno, _⟩ := answersKnown_of_run h t ht j hj
  · exact rowsKnown_of_run h t ht j (.inl hp)
  · obtain hrow | ⟨t', ht', hsub', hdrawn, howes⟩ := givenBacked_of_run h t ht j hgiven
    · exact hrow
    · exact absurd (hdone t' ht' hsub' hdrawn) howes.unfinished
  · rw [hsub] at hno
    cases hno

/-! ## Runs -/

/-- Every request is served, and no process stops. -/
def nothingLost : Step → Bool
  | .call _ c => c.served
  | .crash _ => false
  | .env _ => true

/-- An in-flight key only answers with the id of a job that has a row, and nothing is lost. -/
def AnswersPersisted (s : RecordedState) (m : Step) : Prop :=
  (∀ j ∈ readsInflight s m, (s.world.submissions j).isSome = true) ∧ nothingLost m = true

instance (s : RecordedState) (m : Step) : Decidable (AnswersPersisted s m) :=
  inferInstanceAs (Decidable (_ ∧ _))

theorem keepsPromises_of_answersPersisted (h : AnswersPersisted s m) : KeepsPromises s m where
  backed := fun j hj => .inl (Option.isSome_iff_exists.mp (h.1 j hj))
  kept := by
    intro t _ j _ hl
    cases m with
    | call i c => exact absurd (hl.2.symm.trans h.2) Bool.false_ne_true
    | crash i => exact absurd h.2 Bool.false_ne_true
    | env v => exact hl

/-- Play a schedule on record. -/
abbrev playRecorded (ok : RecordedState → Step → Prop) [∀ s m, Decidable (ok s m)] :
    RecordedState → List Step → RecordedState :=
  playAll recordStep ok

/-- User `user` submits the program of `submission`, as thread `i`; the request
generates the id `jobID`, and has tried to take the in-flight key. -/
def resubmission (user i : Nat) (jobID : String) : List Step :=
  [.env (.submit ⟨65536, 1000, 10000, 65536, 524288, 0, true⟩ "r2" (some user)
      ⟨"int main(){}", 1, 1000, 65536, 0⟩)] ++
    calls i 2 ++ [.call i (.ok { uuid := jobID })] ++ calls i 1

set_option maxRecDepth 4000 in
/-- The second of two equal submissions is answered with the id of the first. -/
theorem no_phantom_duplicate :
    let s := playRecorded AnswersPersisted recordedStart
      (submission ++ resubmission 7 1 "job-2" ++ calls 1 2)
    (∃ t ∈ s.threads, t.1.drawn = ["job-2"] ∧ t.1.answered = ["job-1"]) ∧
      HasRow s.world "job-1" := by
  intro s
  have hrun : RecordedRun KeepsPromises s :=
    (Run.init.playAll (submission ++ resubmission 7 1 "job-2" ++ calls 1 2)).mono
      fun _ _ => keepsPromises_of_answersPersisted
  have hthread : ∃ t ∈ s.threads, t.1.submits = true ∧ t.1.drawn = ["job-2"] ∧
      t.1.answered = ["job-1"] := by decide +kernel
  have hdone : ∀ t ∈ s.threads, t.1.submits = true → "job-1" ∈ t.1.drawn → t.2.next = none := by
    decide +kernel
  obtain ⟨t, ht, hsub, hd, ha⟩ := hthread
  exact ⟨⟨t, ht, hd, ha⟩,
    no_phantom hrun t ht hsub "job-1" (by rw [ha]; exact List.mem_singleton_self _) hdone⟩

/-- The first request takes the in-flight key, the second is answered from it, and
then the insert of the first fails. -/
def lostInsert : List Step :=
  resubmission 7 0 "job-1" ++ resubmission 7 1 "job-2" ++ calls 1 2 ++
    calls 0 1 ++ [.call 0 (.failed "connection reset")] ++ calls 0 2

set_option maxRecDepth 4000 in
/-- Both requests have finished, and the id the second was answered with has no row. -/
theorem phantom : ∃ s, RecordedRun always s ∧ ¬ NoPhantom s := by
  let s := playRecorded always recordedStart lostInsert
  have hrun : RecordedRun always s := Run.init.playAll lostInsert
  have hthread : ∃ t ∈ s.threads, t.1.submits = true ∧ "job-1" ∈ t.1.answered := by
    decide +kernel
  have hdone : ∀ t ∈ s.threads, t.1.submits = true → "job-1" ∈ t.1.drawn → t.2.next = none := by
    decide +kernel
  have hnone : s.world.submissions "job-1" = none := by decide +kernel
  refine ⟨s, hrun, fun hno => ?_⟩
  obtain ⟨t, ht, hsub, ha⟩ := hthread
  obtain ⟨row, hrow⟩ := hno t ht hsub "job-1" ha hdone
  rw [hnone] at hrow
  cases hrow

end DeepOj.Cluster
