import DeepOj.Worker.CacheRecord
import Mathlib.Algebra.Order.BigOperators.Group.List
import Mathlib.Algebra.Order.Group.Nat

/-!
# The byte budget of the cache

Between two calls of `Prepare`, what this life of the worker has put in its place
is on record and within the byte budget. What an earlier life has left on disk is
not on record, since the record is in memory only.
-/

namespace DeepOj.Worker.TestCases

open Conc Go Machine

/-! ## Touches -/

section Steps

variable {cfg : ManagerConfig} {stamp : Nat} {w w' : Workspace} {gs : List Ledger} {g g' : Ledger}
  {i pid : Nat} {P : Ledger → Prop}

namespace Acts

/-- Who owed something still owes it, except for the goroutine that has its turn. -/
theorem after_or (ht : Acts w gs i g w' g') (h : Someone w gs P) : P g ∨ Someone w' (gs.set i g') P := by
  by_cases hP : P g
  · exact .inl hP
  · exact .inr (ht.after (fun h => absurd h hP) h)

theorem after_else (ht : Acts w gs i g w' g') (h : Someone w (gs.eraseIdx i) P) :
    Someone w' (gs.set i g') P := by
  obtain ⟨x, hx, hlx, hPx⟩ := h
  obtain ⟨j, hji, hj⟩ := List.mem_eraseIdx_iff_getElem?.mp hx
  have hset : (gs.set i g')[j]? = some x := by rw [List.getElem?_set_ne (Ne.symm hji), hj]
  exact ⟨x, List.mem_of_getElem? hset, (ht.live_iff _).mpr hlx, hPx⟩

end Acts

theorem mem_deletions_problemID {e : CacheEntry} {d : Deletion} (h : d ∈ deletions e) :
    d.problemID = e.problemID := by
  unfold deletions at h
  rcases List.mem_append.mp h with h | h
  · split at h
    · simp only [List.mem_cons, List.not_mem_nil, or_false] at h
      rcases h with rfl | rfl <;> rfl
    · cases h
  · split at h
    · simp only [List.mem_cons, List.not_mem_nil, or_false] at h
      rcases h with rfl | rfl | rfl <;> rfl
    · cases h

theorem mem_deletions_zip {e : CacheEntry} (h : e.zipPath = true) :
    .remove e.problemID .zip ∈ deletions e := by simp [deletions, h]

theorem mem_deletions_dir {e : CacheEntry} (h : e.workDir = true) : .dir e.problemID ∈ deletions e := by
  simp [deletions, h]

/-- The size that a touch puts on record is that of the files, unless somebody else is changing
them. -/
def Measured (stamp : Nat) (w : Workspace) (others : List Ledger) (pid : Nat)
    (sizeOf : Bool → Bool → Nat) : Prop :=
  ∀ zipPath workDir, sizeOf zipPath workDir = calcEntrySizeBytes stamp (w.files pid) zipPath workDir ∨
    (zipPath = true ∧ Someone w others (Ledger.owesZip pid)) ∨
      (workDir = true ∧ Someone w others (Ledger.owesWork pid))

instance (stamp : Nat) (w : Workspace) (others : List Ledger) (pid : Nat) (sizeOf : Bool → Bool → Nat) :
    Decidable (Measured stamp w others pid sizeOf) := inferInstanceAs (Decidable (∀ _, _))

section Touch

variable {etag : Bytes} {zipPath workDir : Bool} {p : Pick} {list : Cache}

/-- What a touch does, when the list before the eviction is `list`. -/
structure Touched (cfg : ManagerConfig) (now : Int) (list : Cache) (w : Workspace) (gs : List Ledger) (i : Nat)
    (g : Ledger) (w' : Workspace) (g' : Ledger) : Prop where
  turn : Acts w gs i g w' g'
  free : w.cacheMu 0 = none
  mutex : w'.cacheMu 0 = some g.self
  files : w'.files = w.files
  serial : w'.nextSerial = w.nextSerial
  unique : Cache.Unique list
  caches : w'.caches 0 = (evictIfNeeded cfg.cache now list).2
  plan : g'.plan = some ((evictIfNeeded cfg.cache now list).1.flatMap deletions)

theorem Balanced.touched (h : Balanced cfg stamp w gs) (hi : gs[i]? = some g) (hl : Live w g.self)
    {evicted : List CacheEntry}
    (hp : perform cfg w g.self (.touch pid etag zipPath workDir) p = some (w', evicted)) :
    Touched cfg p.now (touchedList p.now p.sizeOf pid etag zipPath workDir (w.caches 0)) w gs i g w'
      (g.next (.touch pid etag zipPath workDir) evicted) := by
  have hproc : g.self.proc = 0 := h.roster.proc g (List.mem_of_getElem? hi)
  obtain ⟨hfree, rfl, rfl⟩ := perform_touch hp
  refine ⟨⟨hi, hl, rfl, rfl⟩, hproc ▸ hfree, ?_, rfl, rfl, unique_touchedList h.unique, ?_, ?_⟩
  · show Function.update w.cacheMu g.self.proc (some g.self) 0 = some g.self
    rw [hproc, Function.update_self]
  · show Function.update w.caches g.self.proc _ 0 = _
    rw [hproc, Function.update_self, touchCache]
  · show some (List.flatMap deletions _) = _
    rw [hproc, touchCache]

/-- While the lock is free, nobody evicts. -/
theorem Balanced.idle (h : Balanced cfg stamp w gs) (hfree : w.cacheMu 0 = none) {x : Ledger} (hx : x ∈ gs)
    (hlx : Live w x.self) : x.plan = none := by
  by_contra hne
  have hmu := h.locked x hx hlx hne
  rw [hfree] at hmu
  cases hmu

theorem Balanced.no_plan (h : Balanced cfg stamp w gs) (hfree : w.cacheMu 0 = none) {Q : List Deletion → Prop} :
    ¬ Someone w gs fun x => ∃ plan ∈ x.plan, Q plan := by
  rintro ⟨x, hx, hlx, plan, hp, -⟩
  rw [h.idle hfree hx hlx] at hp
  cases hp

/-- What is on the list stays on record, or is planned to be deleted. -/
theorem Touched.kept_or_planned (h : Touched cfg p.now list w gs i g w' g') {flag : CacheEntry → Bool}
    {del : Deletion} (hdel : ∀ e, e.problemID = pid → flag e = true → del ∈ deletions e)
    (he : ∃ e ∈ list, e.problemID = pid ∧ flag e = true) :
    (∃ e ∈ w'.caches 0, e.problemID = pid ∧ flag e = true) ∨ ∃ plan ∈ g'.plan, del ∈ plan := by
  obtain ⟨e, he, hpid, hflag⟩ := he
  rcases evicted_or_kept cfg.cache p.now he with hevicted | hkept
  · exact .inr ⟨_, h.plan, List.mem_flatMap.mpr ⟨e, hevicted, hdel e hpid hflag⟩⟩
  · exact .inl ⟨e, h.caches ▸ hkept, hpid, hflag⟩

theorem Balanced.zips_touch (h : Balanced cfg stamp w gs) (ht : Touched cfg p.now list w gs i g w' g')
    (hsaw : ∀ pid', g'.sawZip pid' → g.sawZip pid') (hzip : g.zip = true → zipPath = true)
    (hlist : list = touchedList p.now p.sizeOf g.problemID etag zipPath workDir (w.caches 0)) (pid' : Nat) :
    ZipBooked w' (gs.set i g') pid' := by
  intro hseen hthere
  rw [ht.files] at hthere
  have htouched : (∃ e ∈ w.caches 0, e.problemID = pid' ∧ e.zipPath = true) ∨
      (g.problemID = pid' ∧ zipPath = true) → ∃ e ∈ list, e.problemID = pid' ∧ e.zipPath = true :=
    fun he => hlist ▸ exists_touched h.unique touchedEntry_zipPath he
  have hdel : ∀ e : CacheEntry, e.problemID = pid' → e.zipPath = true →
      Deletion.remove pid' .zip ∈ deletions e := by
    rintro e rfl hz
    exact mem_deletions_zip hz
  have hon := fun he => (ht.kept_or_planned hdel (htouched he)).imp_right
    fun hplan => Or.inr (a := Someone w' (gs.set i g') (Ledger.owesZip pid'))
      (ht.turn.someone (P := Ledger.removesZip pid') hplan)
  rcases h.zips pid' (ht.turn.before (hsaw pid') hseen) hthere with he | howes | hremoves
  · exact hon (.inl he)
  · -- the debt of the goroutine itself is settled by the touch
    rcases ht.turn.after_or howes with hown | hother
    · exact hon (.inr ⟨hown.1, hzip hown.2⟩)
    · exact .inr (.inl hother)
  · exact absurd hremoves (h.no_plan ht.free)

theorem Balanced.works_touch (h : Balanced cfg stamp w gs) (ht : Touched cfg p.now list w gs i g w' g')
    (hsaw : ∀ pid', g'.sawWork pid' → g.sawWork pid' ∨ g.problemID = pid' ∧ workDir = true)
    (hwork : g.work = true → workDir = true)
    (hlist : list = touchedList p.now p.sizeOf g.problemID etag zipPath workDir (w.caches 0)) (pid' : Nat) :
    WorkBooked w' (gs.set i g') pid' := by
  intro t hseen hthere
  rw [ht.files] at hthere
  have htouched : (∃ e ∈ w.caches 0, e.problemID = pid' ∧ e.workDir = true) ∨
      (g.problemID = pid' ∧ workDir = true) → ∃ e ∈ list, e.problemID = pid' ∧ e.workDir = true :=
    fun he => hlist ▸ exists_touched h.unique touchedEntry_workDir he
  have hdel : ∀ e : CacheEntry, e.problemID = pid' → e.workDir = true → Deletion.dir pid' ∈ deletions e := by
    rintro e rfl hw
    exact mem_deletions_dir hw
  have hon := fun he => (ht.kept_or_planned hdel (htouched he)).imp_right
    fun ⟨plan, hp, hmem⟩ => Or.inr (a := Someone w' (gs.set i g') (Ledger.owesWork pid'))
      (ht.turn.someone (P := Ledger.removesWork pid' t) ⟨plan, hp, .inl hmem⟩)
  by_cases htold : g.problemID = pid' ∧ workDir = true
  · exact hon (.inr htold)
  · have hbefore := ht.turn.before (fun hs => (hsaw pid' hs).resolve_right htold) hseen
    rcases h.works pid' t hbefore hthere with he | howes | hremoves
    · exact hon (.inl he)
    · rcases ht.turn.after_or howes with hown | hother
      · exact hon (.inr ⟨hown.1, hwork hown.2⟩)
      · exact .inr (.inl hother)
    · exact absurd hremoves (h.no_plan ht.free)

theorem Balanced.sizes_touch (h : Balanced cfg stamp w gs) (ht : Touched cfg p.now list w gs i g w' g')
    (hsize : Measured stamp w (gs.eraseIdx i) g.problemID p.sizeOf)
    (hlist : list = touchedList p.now p.sizeOf g.problemID etag zipPath workDir (w.caches 0)) (pid' : Nat) :
    SizeBooked stamp w' (gs.set i g') pid' := by
  intro e he hpid
  rw [ht.caches] at he
  rw [ht.files]
  have hmem : e ∈ list := (kept_sublist list).mem he
  rw [hlist, touchedList] at hmem
  rcases List.mem_cons.mp hmem with htouched | hold
  · -- the entry of the touch has been measured
    obtain rfl : g.problemID = pid' := by rw [← hpid, htouched, touchedEntry_problemID]
    rw [touchedEntry_sizeBytes htouched]
    exact (hsize e.zipPath e.workDir).imp_right
      (Or.imp (And.imp_right ht.turn.after_else) (And.imp_right ht.turn.after_else))
  · obtain ⟨hold, hne⟩ := List.mem_filter.mp hold
    have hne' : g.problemID ≠ pid' := by
      rintro rfl
      simp [hpid] at hne
    refine (h.sizes pid' e hold hpid).imp_right (Or.imp ?_ ?_)
    · exact fun ⟨hz, hs⟩ => ⟨hz, (ht.turn.after_or hs).resolve_left fun hown => hne' hown.1⟩
    · exact fun ⟨hw, hs⟩ => ⟨hw, (ht.turn.after_or hs).resolve_left fun hown => hne' hown.1⟩

/-- A touch puts on record what is owed. -/
theorem Balanced.touch (hbudget : 0 < cfg.cache.cacheByteBudget) (h : Balanced cfg stamp w gs)
    (hi : gs[i]? = some g) (hl : Live w g.self) (ha : g.Allows (.touch pid etag zipPath workDir))
    (hsize : Measured stamp w (gs.eraseIdx i) pid p.sizeOf) {evicted : List CacheEntry}
    (hp : perform cfg w g.self (.touch pid etag zipPath workDir) p = some (w', evicted)) :
    Balanced cfg stamp w' (gs.set i (g.next (.touch pid etag zipPath workDir) evicted)) := by
  obtain ⟨hplan, hrun, rfl, hzip, hwork⟩ := ha
  have ht := h.touched hi hl hp
  refine ⟨h.roster.turn ht.turn ht.serial, ?_, ?_, ?_, ?_, ?_, ?_, ?_, ?_⟩
  · rw [ht.caches]
    exact ht.unique.sublist ((kept_sublist _).map _)
  · rw [ht.caches]
    exact kept_within hbudget _
  · refine ht.turn.forall_set (P := fun x => x.plan ≠ none → w'.cacheMu 0 = some x.self) ?_ fun _ => ht.mutex
    exact fun x hx hlx hne => absurd (h.idle ht.free hx hlx) hne
  · refine ht.turn.forall_set (P := fun x => ∀ plan ∈ x.plan, ∀ d ∈ plan, ∀ e ∈ w'.caches 0,
      e.problemID ≠ d.problemID) ?_ ?_
    · intro x hx hlx plan hp
      rw [h.idle ht.free hx hlx] at hp
      cases hp
    · intro plan hp d hd e he
      obtain rfl := Ledger.plan_eq ht.plan hp
      obtain ⟨e', he', hde⟩ := List.mem_flatMap.mp hd
      rw [mem_deletions_problemID hde]
      exact evicted_ne_kept ht.unique he' (ht.caches ▸ he)
  · refine ht.turn.forall_set h.returned fun hret => ?_
    rw [show g.returned = true from hret] at hrun
    cases hrun
  · exact h.zips_touch ht (fun _ => id) hzip rfl
  · refine h.works_touch ht (fun pid' ⟨hpid, hsaw⟩ => ?_) hwork rfl
    exact ((Bool.or_eq_true _ _).mp hsaw).imp (fun hs => ⟨hpid, hs⟩) fun hw => ⟨hpid, hw⟩
  · exact h.sizes_touch ht hsize rfl

end Touch

/-! ## The other steps -/

/-- An operation that leaves the files and the record alone. -/
theorem Balanced.apart (h : Balanced cfg stamp w gs) (ht : Acts w gs i g w' g') (hfiles : w'.files = w.files)
    (hserial : w'.nextSerial = w.nextSerial) (hcaches : w'.caches = w.caches)
    (hframe : ∀ pid, Frame pid g g') (hplan : g'.plan = g.plan ∨ g'.plan = none)
    (hlocked : ∀ x ∈ gs.set i g', Live w' x.self → x.plan ≠ none → w'.cacheMu 0 = some x.self)
    (hreturned : g'.returned = true → g'.plan = none ∧ g'.zip = false ∧ g'.work = false) :
    Balanced cfg stamp w' (gs.set i g') where
  roster := h.roster.turn ht hserial
  unique := hcaches ▸ h.unique
  within := hcaches ▸ h.within
  locked := hlocked
  planned := by
    rw [hcaches]
    refine ht.forall_set h.planned fun plan hp => ?_
    rcases hplan with hplan | hplan
    · rw [hplan] at hp
      exact h.planned g ht.mem ht.live plan hp
    · rw [hplan] at hp
      cases hp
  returned := ht.forall_set h.returned hreturned
  zips pid := (h.zips pid).after ht hcaches (by rw [hfiles]; exact id) (hframe pid).sawZip
    (hframe pid).owesZip (hframe pid).removesZip
  works pid := (h.works pid).after ht hcaches (by rw [hfiles]) (hframe pid).sawWork (hframe pid).owesWork
    (hframe pid).removesWork
  sizes pid := by
    refine (h.sizes pid).after ht hcaches (fun _ _ _ _ => .inr ?_) fun _ _ _ _ => .inr ?_
    · rw [hfiles]
      exact ⟨rfl, rfl, (hframe pid).owesZip⟩
    · rw [hfiles]
      exact ⟨rfl, (hframe pid).owesWork⟩

/-- An operation that is no entry in the ledger. -/
theorem Balanced.silent (h : Balanced cfg stamp w gs) (hi : gs[i]? = some g) (hl : Live w g.self)
    (hepochs : w'.epochs = w.epochs) (hfiles : w'.files = w.files) (hserial : w'.nextSerial = w.nextSerial)
    (hcaches : w'.caches = w.caches) (hmu : w'.cacheMu = w.cacheMu) : Balanced cfg stamp w' (gs.set i g) := by
  have ht : Acts w gs i g w' g := ⟨hi, hl, rfl, hepochs⟩
  refine h.apart ht hfiles hserial hcaches (fun _ => .refl) (.inl rfl) ?_ (h.returned g ht.mem hl)
  rw [hmu]
  exact ht.forall_set (P := fun x => x.plan ≠ none → w.cacheMu 0 = some x.self) h.locked
    (h.locked g ht.mem hl)

/-- The lock is given back when everything has been deleted. -/
theorem Balanced.unlock (h : Balanced cfg stamp w gs) (hi : gs[i]? = some g) (hl : Live w g.self)
    (hplan : g.plan = some []) :
    Balanced cfg stamp { w with cacheMu := Function.update w.cacheMu g.self.proc none }
      (gs.set i { g with plan := none }) := by
  refine h.apart ⟨hi, hl, rfl, rfl⟩ rfl rfl rfl (fun pid => ⟨id, id, id, id, ?_, ?_⟩) (.inr rfl) ?_ fun hr => ?_
  · rintro ⟨plan, hp, hmem⟩
    obtain rfl := g.plan_eq hplan hp
    cases hmem
  · rintro t ⟨plan, hp, hclears⟩
    obtain rfl := g.plan_eq hplan hp
    rcases hclears with hmem | ⟨paths, rest, heq, hroot, -, -⟩
    · cases hmem
    · cases paths with
      | nil => cases hroot
      | cons q paths => cases heq
  · -- nobody else has the lock
    intro x hx hlx hne
    obtain ⟨j, hj⟩ := List.getElem?_of_mem hx
    by_cases hji : i = j
    · subst hji
      rw [List.getElem?_set_self', hi] at hj
      obtain rfl : { g with plan := none } = x := by simpa using hj
      exact absurd rfl hne
    · rw [List.getElem?_set_ne hji] at hj
      exact absurd (h.evictor hi hl (by simp [hplan]) hj hlx hne) hji
  · have hnone := (h.returned g (List.mem_of_getElem? hi) hl hr).1
    rw [hplan] at hnone
    cases hnone

/-- The sizes of a touch are measured. -/
def MeasuredOp (stamp : Nat) (w : Workspace) (others : List Ledger) : Op → Pick → Prop
  | .touch pid _ _ _, p => Measured stamp w others pid p.sizeOf
  | _, _ => True

instance (stamp : Nat) (w : Workspace) (others : List Ledger) :
    (o : Op) → (p : Pick) → Decidable (MeasuredOp stamp w others o p)
  | .touch pid _ _ _, p => inferInstanceAs (Decidable (Measured stamp w others pid p.sizeOf))
  | .flight _, _ | .statObject _, _ | .file .., _ | .lock .., _ | .unlock, _ | .ret .., _ | .glob _, _ |
    .runCase _, _ | .done _, _ => isTrue trivial

/-- An extraction that fails after it has begun to replace the directory leaves none. -/
def CleanOp (w : Workspace) : (o : Op) → o.Reply → Prop
  | .file pid o, r => FailsLate o r → NoDirectory (w.caches 0) pid (w.files pid)
  | _, _ => True

instance (w : Workspace) (o : Op) (r : o.Reply) : Decidable (CleanOp w o r) := by
  unfold CleanOp
  split <;> infer_instance

/-- Every operation keeps the record. -/
theorem Balanced.perform (hbudget : 0 < cfg.cache.cacheByteBudget) (h : Balanced cfg stamp w gs)
    (hi : gs[i]? = some g) (hl : Live w g.self) {o : Op} {p : Pick} {r : o.Reply} (ha : g.Allows o)
    (hsize : MeasuredOp stamp w (gs.eraseIdx i) o p) (hclean : CleanOp w o r)
    (hp : perform cfg w g.self o p = some (w', r)) :
    Balanced cfg stamp w' (gs.set i (g.next o r)) := by
  obtain ⟨hepochs, hserial⟩ := perform_fixed hp
  cases o with
  | file pid o =>
    obtain ⟨c, hc, rfl⟩ := perform_file hp
    have he := effect_of_perform ha hclean hc
    have hsame : (g.nextFile o r).self = g.self := he.same
    exact h.effect ⟨hi, hl, hsame, rfl⟩ he
  | touch pid etag zipPath workDir => exact h.touch hbudget hi hl ha hsize hp
  | unlock =>
    cases hp
    exact h.unlock hi hl ha
  | ret pid how =>
    obtain ⟨hplan, hzip, hwork⟩ := ha
    have hfixed : w'.files = w.files ∧ w'.caches = w.caches ∧ w'.cacheMu = w.cacheMu := by
      simp only [TestCases.perform] at hp
      split at hp <;> cases hp <;> exact ⟨rfl, rfl, rfl⟩
    obtain ⟨hfiles, hcaches, hmu⟩ := hfixed
    have ht : Acts w gs i g w' { g with returned := true } := ⟨hi, hl, rfl, hepochs⟩
    refine h.apart ht hfiles hserial hcaches (fun _ => ⟨id, id, id, id, id, fun _ => id⟩) (.inl rfl) ?_
      fun _ => ⟨hplan, hzip, hwork⟩
    rw [hmu]
    exact ht.forall_set (P := fun x => x.plan ≠ none → w.cacheMu 0 = some x.self) h.locked
      fun hne => absurd hplan hne
  | lock lock o =>
    obtain ⟨hcaches, hmu⟩ := performLock_caches hp
    exact h.silent hi hl hepochs (performLock_fixed hp).1 hserial hcaches hmu
  | _ =>
    cases hp
    exact h.silent hi hl rfl rfl rfl rfl rfl

theorem Balanced.empty (hbudget : 0 < cfg.cache.cacheByteBudget) : Balanced cfg stamp {} [] where
  roster :=
    { serial := fun x hx => by cases hx
      past := fun x hx => by cases hx
      proc := fun x hx => by cases hx
      distinct := List.nodup_nil }
  unique := List.nodup_nil
  within := hbudget.le
  locked x hx := by cases hx
  planned x hx := by cases hx
  returned x hx := by cases hx
  zips pid := by
    rintro ⟨x, hx, -⟩
    cases hx
  works pid t := by
    rintro ⟨x, hx, -⟩
    cases hx
  sizes pid e he := by cases he

/-- A new goroutine has seen nothing and owes nothing. -/
theorem Balanced.start (h : Balanced cfg stamp w gs) {self : Self} (hproc : self.proc = 0)
    (hl : w.epochs self.proc = self.epoch) (hnew : w.nextSerial ≤ self.serial) (pid : Nat) :
    Balanced cfg stamp { w with nextSerial := self.serial + 1 } (gs ++ [{ self, problemID := pid }]) := by
  generalize hfresh : ({ self, problemID := pid } : Ledger) = new
  have hplan : new.plan = none := hfresh ▸ rfl
  have hself : new.self = self := hfresh ▸ rfl
  have hall : ∀ {P : Ledger → Prop}, (∀ x ∈ gs, P x) → P new → ∀ x ∈ gs ++ [new], P x := by
    intro P hP hn x hx
    rcases List.mem_append.mp hx with hx | hx
    · exact hP x hx
    · exact List.mem_singleton.mp hx ▸ hn
  -- for the old goroutines nothing changes
  have hold : ∀ {P : Ledger → Prop}, Someone w gs P →
      Someone { w with nextSerial := self.serial + 1 } (gs ++ [new]) P := by
    rintro P ⟨x, hx, hlx, hPx⟩
    exact ⟨x, List.mem_append_left _ hx, hlx, hPx⟩
  have hnot : ∀ {P : Ledger → Prop}, ¬ P new →
      Someone { w with nextSerial := self.serial + 1 } (gs ++ [new]) P → Someone w gs P := by
    rintro P hn ⟨x, hx, hlx, hPx⟩
    rcases List.mem_append.mp hx with hx | hx
    · exact ⟨x, hx, hlx, hPx⟩
    · exact absurd (List.mem_singleton.mp hx ▸ hPx) hn
  refine ⟨⟨?_, ?_, ?_, ?_⟩, h.unique, h.within, ?_, ?_, ?_, fun pid' => ?_, fun pid' => ?_, fun pid' => ?_⟩
  · refine hall (fun x hx => ?_) (hself ▸ Nat.lt_succ_self _)
    have := h.roster.serial x hx
    show x.self.serial < self.serial + 1
    omega
  · exact hall h.roster.past (hself ▸ hl.ge)
  · exact hall h.roster.proc (hself ▸ hproc)
  · -- the serial number of the new goroutine is larger than all others
    rw [List.map_append, List.map_singleton, List.nodup_append]
    refine ⟨h.roster.distinct, List.nodup_singleton _, ?_⟩
    rintro a ha b hb rfl
    obtain ⟨x, hx, hxa⟩ := List.mem_map.mp ha
    have hserial := h.roster.serial x hx
    rw [hxa, List.mem_singleton.mp hb, hself] at hserial
    omega
  · exact hall h.locked fun _ hne => absurd hplan hne
  · exact hall h.planned fun _ plan hp => by rw [hplan] at hp; cases hp
  · exact hall h.returned fun _ hr => by rw [← hfresh] at hr; cases hr
  · intro hseen hthere
    have hbefore := hnot (by rw [← hfresh]; rintro ⟨-, ⟨⟩⟩) hseen
    exact (h.zips pid' hbefore hthere).imp_right (Or.imp hold hold)
  · intro t hseen hthere
    have hbefore := hnot (by rw [← hfresh]; rintro ⟨-, ⟨⟩⟩) hseen
    exact (h.works pid' t hbefore hthere).imp_right (Or.imp hold hold)
  · intro e he hpid
    exact (h.sizes pid' e he hpid).imp_right (Or.imp (And.imp_right hold) (And.imp_right hold))

/-- When the worker is killed, nothing is on record, and nobody who lives has seen anything. -/
theorem Balanced.crash (hbudget : 0 < cfg.cache.cacheByteBudget) (h : Balanced cfg stamp w gs) :
    Balanced cfg stamp (w.crash 0) gs := by
  have hepochs : (w.crash 0).epochs 0 = w.epochs 0 + 1 := by
    show Function.update w.epochs 0 (w.epochs 0 + 1) 0 = _
    rw [Function.update_self]
  have hcaches : (w.crash 0).caches 0 = [] := by
    show Function.update w.caches 0 [] 0 = _
    rw [Function.update_self]
  have hdead : ∀ x ∈ gs, ¬ Live (w.crash 0) x.self := by
    intro x hx hl
    have hpast := h.roster.past x hx
    unfold Live at hl
    rw [h.roster.proc x hx] at hl hpast
    omega
  have hnobody : ∀ {P : Ledger → Prop}, ¬ Someone (w.crash 0) gs P := by
    rintro P ⟨x, hx, hlx, -⟩
    exact hdead x hx hlx
  refine ⟨⟨h.roster.serial, ?_, h.roster.proc, h.roster.distinct⟩, ?_, ?_, ?_, ?_, ?_, ?_, ?_, ?_⟩
  · intro x hx
    have hpast := h.roster.past x hx
    rw [h.roster.proc x hx] at hpast ⊢
    omega
  · rw [hcaches]
    exact List.nodup_nil
  · rw [hcaches]
    exact hbudget.le
  · exact fun x hx hlx => absurd hlx (hdead x hx)
  · exact fun x hx hlx => absurd hlx (hdead x hx)
  · exact fun x hx hlx => absurd hlx (hdead x hx)
  · exact fun pid hseen => absurd hseen hnobody
  · exact fun pid t hseen => absurd hseen hnobody
  · intro pid e he
    rw [hcaches] at he
    cases he

end Steps

/-! ## Runs -/

/-- The workers, and the ledger of each goroutine. -/
abbrev LedgerConfig : Type := RecordedConfig Workspace (Self × Op) (fun e => e.2.Reply) Ledger

def ledgers (s : LedgerConfig) : List Ledger := s.threads.map Prod.fst

/-- The moves of one worker process, with its sizes measured. -/
def OneWorker (stamp : Nat) (s : LedgerConfig) : Move Pick Event → Prop
  | .call i p =>
    match s.threads[i]? with
    | some (_, .call e _) => MeasuredOp stamp s.world ((ledgers s).eraseIdx i) e.2 p
    | _ => True
  | .crash _ => True
  | .env (.start self _) => self.proc = 0
  | .env (.crash proc) => proc = 0

instance (stamp : Nat) (s : LedgerConfig) : (m : Move Pick Event) → Decidable (OneWorker stamp s m)
  | .call i p => by
    dsimp only [OneWorker]
    split <;> infer_instance
  | .crash _ => isTrue trivial
  | .env (.start _ _) => inferInstanceAs (Decidable (_ = _))
  | .env (.crash _) => inferInstanceAs (Decidable (_ = _))

/-- The moves that leave no directory that has been replaced in part. -/
def Clean (cfg : ManagerConfig) (s : LedgerConfig) : Move Pick Event → Prop
  | .call i p =>
    match s.threads[i]? with
    | some (_, .call e _) =>
      match (workers cfg).sem s.world e p with
      | some (_, r) => CleanOp s.world e.2 r
      | none => True
    | _ => True
  | _ => True

instance (cfg : ManagerConfig) (s : LedgerConfig) : (m : Move Pick Event) → Decidable (Clean cfg s m)
  | .call i p => by
    dsimp only [Clean]
    split
    · split <;> infer_instance
    · infer_instance
  | .crash _ => isTrue trivial
  | .env _ => isTrue trivial

/-- The moves under which the record is kept. -/
def Orderly (cfg : ManagerConfig) (stamp : Nat) (s : LedgerConfig) (m : Move Pick Event) : Prop :=
  OneWorker stamp s m ∧ Clean cfg s m

instance (cfg : ManagerConfig) (stamp : Nat) (s : LedgerConfig) (m : Move Pick Event) :
    Decidable (Orderly cfg stamp s m) := inferInstanceAs (Decidable (_ ∧ _))

/-- The moves of a worker that is not restarted. -/
def OneLife (stamp : Nat) (s : LedgerConfig) : Move Pick Event → Prop
  | .env (.crash _) => False
  | m => OneWorker stamp s m

instance (stamp : Nat) (s : LedgerConfig) : (m : Move Pick Event) → Decidable (OneLife stamp s m)
  | .call i p => inferInstanceAs (Decidable (OneWorker stamp s (.call i p)))
  | .crash i => inferInstanceAs (Decidable (OneWorker stamp s (.crash i)))
  | .env (.start self pid) => inferInstanceAs (Decidable (OneWorker stamp s (.env (.start self pid))))
  | .env (.crash _) => isFalse id

/-- No `Prepare` is in progress. -/
def NoneInProgress (s : LedgerConfig) : Prop :=
  ∀ g ∈ ledgers s, Live s.world g.self → g.returned = true

instance (s : LedgerConfig) : Decidable (NoneInProgress s) :=
  inferInstanceAs (Decidable (∀ _ ∈ _, _))

/-- The problem is on record with this path, and with the size of its files. -/
def OnRecord (stamp : Nat) (w : Workspace) (pid : Nat) (path : CacheEntry → Bool) : Prop :=
  ∃ e ∈ w.caches 0, e.problemID = pid ∧ path e = true ∧
    e.sizeBytes = calcEntrySizeBytes stamp (w.files pid) e.zipPath e.workDir

instance (stamp : Nat) (w : Workspace) (pid : Nat) (path : CacheEntry → Bool) :
    Decidable (OnRecord stamp w pid path) := inferInstanceAs (Decidable (∃ _ ∈ _, _))

/-- What the files of a problem take on disk, as far as this life of the worker has seen them. -/
def seenBytes (stamp : Nat) (s : LedgerConfig) (pid : Nat) : Nat :=
  let c := s.world.files pid
  (if Someone s.world (ledgers s) (Ledger.sawZip pid) ∧ c.zip.isSome = true then
      calcEntrySizeBytes stamp c true false else 0) +
    if Someone s.world (ledgers s) (Ledger.sawWork pid) then calcEntrySizeBytes stamp c false true else 0

/-- What this life of the worker has seen is on record, and within the byte budget. -/
structure CacheBounded (cfg : ManagerConfig) (stamp : Nat) (s : LedgerConfig) : Prop where
  zips : ∀ pid, Someone s.world (ledgers s) (Ledger.sawZip pid) →
    (s.world.files pid).zip.isSome = true → OnRecord stamp s.world pid CacheEntry.zipPath
  works : ∀ pid, Someone s.world (ledgers s) (Ledger.sawWork pid) →
    (s.world.files pid).work.isSome = true → OnRecord stamp s.world pid CacheEntry.workDir
  bytes : ∀ pids : List Nat, pids.Nodup →
    ((pids.map (seenBytes stamp s)).sum : Int) ≤ cfg.cache.cacheByteBudget

section Runs

variable {cfg : ManagerConfig} {stamp : Nat} {s s' : LedgerConfig}

/-- Every goroutine keeps its ledger in order. -/
theorem ledger_disciplined : (workers cfg).Disciplined ledgerRecorder ledgerRules where
  env w v w' ps h p hp := by
    cases v with
    | start self pid =>
      simp only [workers, happen] at h
      split at h <;> cases h
      obtain rfl := List.mem_singleton.mp hp
      have hclear : Clear self pid { self, problemID := pid } :=
        ⟨rfl, rfl, rfl, rfl, fun hz => Bool.noConfusion hz, fun hw => Bool.noConfusion hw⟩
      exact heeds_mono (fun _ _ _ => trivial) (books_executeTask hclear).heeds
    | crash proc =>
      cases h
      cases hp
  forks e p hp := by cases hp

/-- A move keeps the record. -/
theorem Balanced.record {m : Move Pick Event} (hbudget : 0 < cfg.cache.cacheByteBudget)
    (h : Balanced cfg stamp s.world (ledgers s)) (hheed : AllHeed ledgerRecorder ledgerRules s)
    (hok : Orderly cfg stamp s m) (hstep : (workers cfg).record ledgerRecorder s m = some s') :
    Balanced cfg stamp s'.world (ledgers s') := by
  obtain ⟨i, c, g, e, k, w, r, rfl, hi, hsem, rfl⟩ | ⟨i, rfl, rfl⟩ | ⟨v, w, ps, rfl, hv, rfl⟩ :=
    record_cases hstep
  · obtain ⟨hself, hallow⟩ := hheed.allowed hi
    obtain ⟨self, o⟩ := e
    obtain rfl : self = g.self := hself
    have hgs : (ledgers s)[i]? = some g := by simp [ledgers, hi]
    obtain ⟨hsize, hclean⟩ := hok
    simp only [OneWorker, hi] at hsize
    simp only [Clean, hi, hsem] at hclean
    simp only [workers, sem] at hsem
    split at hsem
    · rename_i hl
      have hkept := h.perform hbudget hgs hl hallow hsize hclean hsem
      simpa [ledgers, List.map_set, workers, ledgerRecorder] using hkept
    · cases hsem
  · unfold ledgers
    rw [records_crash]
    exact h
  · cases v with
    | start self pid =>
      simp only [workers, happen] at hv
      split at hv <;> cases hv
      rename_i hnew
      have hproc : self.proc = 0 := hok.1
      simpa [ledgers, ledgerRecorder] using h.start hproc hnew.1 hnew.2 pid
    | crash proc =>
      cases hv
      obtain rfl : proc = 0 := hok.1
      simpa [ledgers] using h.crash hbudget

/-- When no `Prepare` is in progress, nothing is owed and nothing is being deleted. -/
theorem Balanced.settled (h : Balanced cfg stamp s.world (ledgers s)) (hnone : NoneInProgress s)
    {P : Ledger → Prop} (hP : ∀ g : Ledger, g.plan = none → g.zip = false → g.work = false → ¬ P g) :
    ¬ Someone s.world (ledgers s) P := by
  rintro ⟨g, hg, hl, hPg⟩
  obtain ⟨hplan, hzip, hwork⟩ := h.returned g hg hl (hnone g hg hl)
  exact hP g hplan hzip hwork hPg

theorem calcEntrySizeBytes_parts (c : CaseFiles) (zipPath workDir : Bool) :
    calcEntrySizeBytes stamp c zipPath workDir =
      calcEntrySizeBytes stamp c zipPath false + calcEntrySizeBytes stamp c false workDir := by
  cases zipPath <;> cases workDir <;> simp [calcEntrySizeBytes]

/-- What is seen of a problem is at most what is on record of it. -/
theorem seenBytes_le (hunique : (s.world.caches 0).Unique)
    (hzips : ∀ pid, Someone s.world (ledgers s) (Ledger.sawZip pid) →
      (s.world.files pid).zip.isSome = true → OnRecord stamp s.world pid CacheEntry.zipPath)
    (hworks : ∀ pid, Someone s.world (ledgers s) (Ledger.sawWork pid) →
      (s.world.files pid).work.isSome = true → OnRecord stamp s.world pid CacheEntry.workDir) (pid : Nat) :
    seenBytes stamp s pid ≤ (((s.world.caches 0).find pid).map CacheEntry.sizeBytes).getD 0 := by
  -- a path on record is that of the entry that is found, and is part of its size
  have hfound : ∀ path : CacheEntry → Bool, OnRecord stamp s.world pid path → ∃ e,
      (s.world.caches 0).find pid = some e ∧ path e = true ∧ e.sizeBytes =
        calcEntrySizeBytes stamp (s.world.files pid) e.zipPath false +
          calcEntrySizeBytes stamp (s.world.files pid) false e.workDir := by
    rintro path ⟨e, he, rfl, hpath, hsize⟩
    exact ⟨e, hunique.find_eq he, hpath, hsize.trans (calcEntrySizeBytes_parts _ _ _)⟩
  unfold seenBytes
  dsimp only
  generalize hzip : (if Someone s.world (ledgers s) (Ledger.sawZip pid) ∧
    (s.world.files pid).zip.isSome = true then _ else 0) = zip
  generalize hwork : (if Someone s.world (ledgers s) (Ledger.sawWork pid) then _ else 0) = work
  have hzipPart : zip = 0 ∨ zip = calcEntrySizeBytes stamp (s.world.files pid) true false ∧
      OnRecord stamp s.world pid CacheEntry.zipPath := by
    subst hzip
    split
    · rename_i hseen
      exact .inr ⟨rfl, hzips pid hseen.1 hseen.2⟩
    · exact .inl rfl
  have hworkPart : work = 0 ∨ work = calcEntrySizeBytes stamp (s.world.files pid) false true ∧
      OnRecord stamp s.world pid CacheEntry.workDir := by
    subst hwork
    split
    · rename_i hseen
      cases hthere : (s.world.files pid).work with
      | none => exact .inl (by simp [calcEntrySizeBytes, hthere])
      | some t => exact .inr ⟨rfl, hworks pid hseen (by rw [hthere]; rfl)⟩
    · exact .inl rfl
  rcases hzipPart with rfl | ⟨rfl, hz⟩
  · rcases hworkPart with rfl | ⟨rfl, hw⟩
    · exact Nat.zero_le _
    · obtain ⟨e, hfind, hpath, hsize⟩ := hfound _ hw
      rw [hfind, Option.map_some, Option.getD_some, hsize, hpath]
      omega
  · obtain ⟨e, hfind, hpath, hsize⟩ := hfound _ hz
    rw [hfind, Option.map_some, Option.getD_some, hsize, hpath]
    rcases hworkPart with rfl | ⟨rfl, hw⟩
    · omega
    · obtain ⟨e', hfind', hpath', -⟩ := hfound _ hw
      obtain rfl : e = e' := Option.some.inj (hfind.symm.trans hfind')
      rw [hpath']

/-- Between two calls of `Prepare`, the record is complete and within the budget. -/
theorem Balanced.bounded (h : Balanced cfg stamp s.world (ledgers s)) (hnone : NoneInProgress s) :
    CacheBounded cfg stamp s := by
  have hzip : ∀ pid, ¬ Someone s.world (ledgers s) (Ledger.owesZip pid) := fun pid =>
    h.settled hnone fun g _ hz _ ⟨_, hg⟩ => by rw [hz] at hg; cases hg
  have hwork : ∀ pid, ¬ Someone s.world (ledgers s) (Ledger.owesWork pid) := fun pid =>
    h.settled hnone fun g _ _ hw ⟨_, hg⟩ => by rw [hw] at hg; cases hg
  have hplan : ∀ {Q : List Deletion → Prop}, ¬ Someone s.world (ledgers s) fun g => ∃ plan ∈ g.plan, Q plan :=
    h.settled hnone fun g hp _ _ ⟨plan, hg, _⟩ => by rw [hp] at hg; cases hg
  have hsize : ∀ e ∈ s.world.caches 0, e.sizeBytes =
      calcEntrySizeBytes stamp (s.world.files e.problemID) e.zipPath e.workDir := by
    intro e he
    rcases h.sizes e.problemID e he rfl with heq | ⟨-, howes⟩ | ⟨-, howes⟩
    · exact heq
    · exact absurd howes (hzip _)
    · exact absurd howes (hwork _)
  have hzips : ∀ pid, Someone s.world (ledgers s) (Ledger.sawZip pid) →
      (s.world.files pid).zip.isSome = true → OnRecord stamp s.world pid CacheEntry.zipPath := by
    intro pid hseen hthere
    rcases h.zips pid hseen hthere with ⟨e, he, rfl, hflag⟩ | howes | hremoves
    · exact ⟨e, he, rfl, hflag, hsize e he⟩
    · exact absurd howes (hzip pid)
    · exact absurd hremoves hplan
  have hworks : ∀ pid, Someone s.world (ledgers s) (Ledger.sawWork pid) →
      (s.world.files pid).work.isSome = true → OnRecord stamp s.world pid CacheEntry.workDir := by
    intro pid hseen hthere
    obtain ⟨t, ht⟩ := Option.isSome_iff_exists.mp hthere
    rcases h.works pid t hseen ht with ⟨e, he, rfl, hflag⟩ | howes | hremoves
    · exact ⟨e, he, rfl, hflag, hsize e he⟩
    · exact absurd howes (hwork pid)
    · exact absurd hremoves hplan
  refine ⟨hzips, hworks, fun pids hnd => ?_⟩
  have hsum : (pids.map (seenBytes stamp s)).sum ≤ totalCacheBytes (s.world.caches 0) :=
    (List.sum_le_sum fun pid _ => seenBytes_le h.unique hzips hworks pid).trans (sum_found_le _ hnd)
  have hwithin := h.within
  omega

/-- Settings with a byte budget of 200. -/
def narrowConfig : ManagerConfig := ⟨⟨0, 200, 0⟩, ⟨0, 0, 0⟩, [utf8 "ws"]⟩

/-- The environment of a goroutine whose problem has an archive with one test case, as long as
`workDir` takes so many bytes. -/
def measuredPick (dirBytes : Nat) : Pick where
  etag := some (utf8 "e")
  object := some ⟨100, .ok oneCase⟩
  sizeOf := fun zipPath workDir => (if zipPath then 101 else 0) + if workDir then dirBytes else 0

/-- A task prepares a problem that nobody has prepared. -/
def preparedTask (i : Nat) (self : Self) (pid : Nat) : List (Move Pick Event) :=
  .env (.start self pid) :: List.replicate 27 (.call i (measuredPick 0)) ++
    List.replicate 10 (.call i (measuredPick 23))

/-- A task prepares problem 1, and the next one evicts it and prepares problem 2. -/
def afterEviction : List (Move Pick Event) :=
  preparedTask 0 ⟨0, 0, 0⟩ 1 ++
  .env (.start ⟨0, 0, 1⟩ 2) :: List.replicate 15 (.call 1 (measuredPick 0)) ++
  [.call 1 { order := [[utf8 "1.in"], [utf8 "1.out"], readyPath, readyETagPath, []] }] ++
  List.replicate 23 (.call 1 (measuredPick 0)) ++ List.replicate 10 (.call 1 (measuredPick 23))

/-- The run of a schedule. -/
def cacheRun (ok : LedgerConfig → Move Pick Event → Prop) [∀ s m, Decidable (ok s m)]
    (moves : List (Move Pick Event)) : LedgerConfig :=
  playAll ((workers narrowConfig).record ledgerRecorder) ok ⟨{}, []⟩ moves

/-- Everything on disk is on record, and within the byte budget. -/
structure AllBounded (cfg : ManagerConfig) (stamp : Nat) (w : Workspace) : Prop where
  zips : ∀ pid, (w.files pid).zip.isSome = true → OnRecord stamp w pid CacheEntry.zipPath
  works : ∀ pid, (w.files pid).work.isSome = true → OnRecord stamp w pid CacheEntry.workDir
  bytes : ∀ pids : List Nat, pids.Nodup →
    ((pids.map fun pid => calcEntrySizeBytes stamp (w.files pid) true true).sum : Int) ≤
      cfg.cache.cacheByteBudget

/-- In every run with these moves, everything is within the budget when a `Prepare` has returned
and none is in progress. -/
def BoundedUnder (ok : ManagerConfig → Nat → LedgerConfig → Move Pick Event → Prop) : Prop :=
  ∀ (cfg : ManagerConfig) (stamp : Nat) (s : LedgerConfig), 0 < cfg.cache.cacheByteBudget →
    Run ((workers cfg).record ledgerRecorder) (ok cfg stamp) ⟨{}, []⟩ s → NoneInProgress s →
    Someone s.world (ledgers s) (fun g => g.returned = true) → AllBounded cfg stamp s.world

/-- A task prepares problem 1, the worker is restarted, and a task prepares problem 2. -/
def afterRestart : List (Move Pick Event) :=
  preparedTask 0 ⟨0, 0, 0⟩ 1 ++ .env (.crash 0) :: preparedTask 1 ⟨0, 1, 1⟩ 2

/-- A task extracts problem 1 and cannot create the ready marker. -/
def withoutMarker : List (Move Pick Event) :=
  .env (.start ⟨0, 0, 0⟩ 1) :: List.replicate 31 (.call 0 (measuredPick 0)) ++
    [.call 0 { ok := false }] ++ List.replicate 2 (.call 0 (measuredPick 0))

end Runs

end DeepOj.Worker.TestCases
