import DeepOj.Go.Bytes
import Mathlib.Data.List.Nodup
import Mathlib.Tactic.Common
import Mathlib.Algebra.Ring.Nat

/-!
# The list of cached test cases

Every worker process keeps a list of the problems it has test cases of, the
latest used first. `touchCache` moves a problem to the front and then takes the
entries to evict off the list: what is expired, and from the back as long as the
rest is too much.
-/

namespace DeepOj.Worker

open Go

/-- The limits of the cache; those that are not positive do not apply. -/
structure CacheConfig where
  cacheTTL : Int
  cacheByteBudget : Int
  cacheMax : Int
  deriving DecidableEq, Repr

/-- A `cacheEntry`. The paths of a problem are fixed by its id, so an entry only says whether
it has them. -/
structure CacheEntry where
  problemID : Nat
  etag : Bytes
  zipPath : Bool
  workDir : Bool
  sizeBytes : Nat
  lastAccess : Int
  deriving DecidableEq, Repr

/-- `cacheList`, from the front. -/
abbrev Cache := List CacheEntry

/-- The entry of a problem. -/
def Cache.find (cache : Cache) (problemID : Nat) : Option CacheEntry :=
  List.find? (·.problemID = problemID) cache

/-- The loop that evicts from the back: what it takes off a list that starts at the back, and
what it keeps. -/
def evictBack (full : List CacheEntry → Bool) : List CacheEntry → List CacheEntry × List CacheEntry
  | [] => ([], [])
  | e :: es => if full (e :: es) then (e :: (evictBack full es).1, (evictBack full es).2)
    else ([], e :: es)

/-- `time.Since(entry.lastAccess) > m.cacheTTL`, if there is a TTL. -/
def CacheEntry.expired (cfg : CacheConfig) (now : Int) (e : CacheEntry) : Bool :=
  0 < cfg.cacheTTL ∧ cfg.cacheTTL < now - e.lastAccess

/-- `totalCacheBytes`. -/
def totalCacheBytes (es : List CacheEntry) : Nat :=
  (es.map CacheEntry.sizeBytes).sum

/-- What is in the list is too much: by its bytes if there is a byte budget, by its length
otherwise. -/
def CacheConfig.over (cfg : CacheConfig) (es : List CacheEntry) : Bool :=
  if 0 < cfg.cacheByteBudget then cfg.cacheByteBudget < totalCacheBytes es
  else 0 < cfg.cacheMax ∧ cfg.cacheMax < es.length

/-- `evictIfNeeded`: the entries it removes, in order, and the list that is left. -/
def evictIfNeeded (cfg : CacheConfig) (now : Int) (cache : Cache) : List CacheEntry × Cache :=
  let fresh := cache.filter fun e => !e.expired cfg now
  let evicted := evictBack cfg.over fresh.reverse
  (cache.filter (·.expired cfg now) ++ evicted.1, evicted.2.reverse)

/-- The entry `touchCache` puts at the front. `sizeOf` is `calcEntrySizeBytes`. -/
def touchedEntry (now : Int) (sizeOf : Bool → Bool → Nat) (problemID : Nat) (etag : Bytes)
    (zipPath workDir : Bool) (cache : Cache) : CacheEntry :=
  match cache.find problemID with
  | some e =>
    { problemID, etag := if etag ≠ [] then etag else e.etag
      zipPath := e.zipPath || zipPath
      workDir := e.workDir || workDir
      sizeBytes := sizeOf (e.zipPath || zipPath) (e.workDir || workDir)
      lastAccess := now }
  | none => { problemID, etag, zipPath, workDir, sizeBytes := sizeOf zipPath workDir, lastAccess := now }

/-- The list `touchCache` passes to `evictIfNeeded`. -/
def touchedList (now : Int) (sizeOf : Bool → Bool → Nat) (problemID : Nat) (etag : Bytes)
    (zipPath workDir : Bool) (cache : Cache) : Cache :=
  touchedEntry now sizeOf problemID etag zipPath workDir cache ::
    cache.filter (·.problemID ≠ problemID)

/-- `touchCache`: the entries to remove, in order, and the list that is left. -/
def touchCache (cfg : CacheConfig) (now : Int) (sizeOf : Bool → Bool → Nat) (problemID : Nat)
    (etag : Bytes) (zipPath workDir : Bool) (cache : Cache) : List CacheEntry × Cache :=
  evictIfNeeded cfg now (touchedList now sizeOf problemID etag zipPath workDir cache)

/-! ## What is evicted -/

variable {full : List CacheEntry → Bool} {cfg : CacheConfig} {now : Int} {e : CacheEntry}

/-- The loop evicts an entry exactly when the list from that entry on is too much. -/
theorem mem_evictBack_iff (hmono : ∀ e es, full es = true → full (e :: es) = true)
    {behind front : List CacheEntry} (hnd : (behind ++ e :: front).Nodup) :
    e ∈ (evictBack full (behind ++ e :: front)).1 ↔ full (e :: front) = true := by
  induction behind with
  | nil =>
    rw [List.nil_append, evictBack]
    by_cases ho : full (e :: front) = true
    · simp [ho]
    · simp [ho]
  | cons b behind ih =>
    rw [List.cons_append, List.nodup_cons] at hnd
    have hne : e ≠ b := by
      rintro rfl
      exact hnd.1 (List.mem_append_right _ List.mem_cons_self)
    rw [List.cons_append, evictBack]
    by_cases ho : full (b :: (behind ++ e :: front)) = true
    · rw [if_pos ho, List.mem_cons, ih hnd.2]
      simp [hne]
    · rw [if_neg ho]
      -- the loop stops before it reaches the entry, so what is left is not too much
      have hle : ∀ l : List CacheEntry, full (l ++ e :: front) = false → full (e :: front) = false := by
        intro l
        induction l with
        | nil => exact id
        | cons x l ihl =>
          intro hx
          refine ihl ?_
          by_contra hl
          rw [Bool.not_eq_false] at hl
          have hcons := hmono x _ hl
          rw [List.cons_append] at hx
          rw [hx] at hcons
          cases hcons
      have hfront : full (e :: front) = false := hle (b :: behind) (by simpa using ho)
      simp [hfront]

/-- What is too much stays too much with one more entry. -/
theorem over_cons (es : List CacheEntry) (h : cfg.over es = true) : cfg.over (e :: es) = true := by
  unfold CacheConfig.over at h ⊢
  by_cases hb : 0 < cfg.cacheByteBudget
  · rw [if_pos hb, decide_eq_true_eq] at h ⊢
    have hsum : totalCacheBytes (e :: es) = e.sizeBytes + totalCacheBytes es := rfl
    omega
  · simp only [if_neg hb, decide_eq_true_eq, List.length_cons] at h ⊢
    omega

/-- The entries at least as recently used as an entry at a place of the list, it included. -/
theorem mem_evictIfNeeded_iff (cfg : CacheConfig) (now : Int) {front behind : List CacheEntry}
    (hnd : (front ++ e :: behind).Nodup) :
    e ∈ (evictIfNeeded cfg now (front ++ e :: behind)).1 ↔
      e.expired cfg now = true ∨
        cfg.over (e :: (front.filter fun x => !x.expired cfg now).reverse) = true := by
  unfold evictIfNeeded
  dsimp only
  by_cases hx : e.expired cfg now = true
  · simp [hx]
  · rw [Bool.not_eq_true] at hx
    have hlist : ((front ++ e :: behind).filter fun x => !x.expired cfg now).reverse =
        (behind.filter fun x => !x.expired cfg now).reverse ++
          e :: (front.filter fun x => !x.expired cfg now).reverse := by
      simp [hx, List.filter_append]
    have hnd' : ((behind.filter fun x => !x.expired cfg now).reverse ++
        e :: (front.filter fun x => !x.expired cfg now).reverse).Nodup := by
      rw [← hlist, List.nodup_reverse]
      exact hnd.filter _
    rw [hlist, List.mem_append, mem_evictBack_iff (fun e es => over_cons es) hnd']
    simp [hx]

/-- The eviction leaves an entry of the list alone: it is not expired, and the entries that are
not expired and at least as recently used, it included, are not too much. -/
def spared (cfg : CacheConfig) (now : Int) (cache : Cache) (e : CacheEntry) : Bool :=
  !e.expired cfg now &&
    !cfg.over (e :: ((cache.takeWhile (· ≠ e)).filter fun x => !x.expired cfg now).reverse)

/-- The eviction takes off the list what it does not spare. -/
theorem evicted_iff {cache : Cache} (hnd : cache.Nodup) (he : e ∈ cache) :
    e ∈ (evictIfNeeded cfg now cache).1 ↔ spared cfg now cache e = false := by
  have hsplit : ∃ behind, cache = cache.takeWhile (· ≠ e) ++ e :: behind := by
    clear hnd
    induction cache with
    | nil => cases he
    | cons x cache ih =>
      by_cases hx : x = e
      · subst hx
        exact ⟨cache, by simp⟩
      · obtain ⟨behind, hb⟩ := ih ((List.mem_cons.mp he).resolve_left (Ne.symm hx))
        refine ⟨behind, ?_⟩
        rw [List.takeWhile_cons_of_pos (by simpa using hx), List.cons_append, ← hb]
  obtain ⟨behind, hb⟩ := hsplit
  have hiff := mem_evictIfNeeded_iff cfg now (hb ▸ hnd)
  rw [← hb] at hiff
  rw [hiff, spared, Bool.and_eq_false_iff, Bool.not_eq_false', Bool.not_eq_false']

/-- What the loop takes off and what it keeps were there. -/
theorem evictBack_append (full : List CacheEntry → Bool) (es : List CacheEntry) :
    (evictBack full es).1 ++ (evictBack full es).2 = es := by
  induction es with
  | nil => rfl
  | cons e es ih =>
    rw [evictBack]
    by_cases ho : full (e :: es) = true
    · rw [if_pos ho, List.cons_append, ih]
    · rw [if_neg ho, List.nil_append]

/-- Only what is in the list is evicted. -/
theorem mem_of_evicted {cache : Cache} (h : e ∈ (evictIfNeeded cfg now cache).1) : e ∈ cache := by
  rcases List.mem_append.mp h with h | h
  · exact (List.mem_filter.mp h).1
  · have hmem := List.mem_append_left (evictBack cfg.over
      (cache.filter fun e => !e.expired cfg now).reverse).2 h
    rw [evictBack_append, List.mem_reverse] at hmem
    exact (List.mem_filter.mp hmem).1

/-- The eviction shortens the list. -/
theorem kept_sublist (cache : Cache) : (evictIfNeeded cfg now cache).2.Sublist cache := by
  have hsuf : (evictBack cfg.over (cache.filter fun e => !e.expired cfg now).reverse).2.Sublist
      (cache.filter fun e => !e.expired cfg now).reverse := by
    conv_rhs => rw [← evictBack_append cfg.over
      ((cache.filter fun e => !e.expired cfg now).reverse)]
    exact List.sublist_append_right _ _
  exact (List.reverse_sublist.mpr hsuf).trans (by simp)

/-- What is taken off the list and what is left of it is what was there. -/
theorem evictIfNeeded_perm (cfg : CacheConfig) (now : Int) (cache : Cache) :
    ((evictIfNeeded cfg now cache).1 ++ (evictIfNeeded cfg now cache).2).Perm cache := by
  unfold evictIfNeeded
  dsimp only
  generalize hf : (cache.filter fun e => !e.expired cfg now) = fresh
  have hback : ((evictBack cfg.over fresh.reverse).1 ++ (evictBack cfg.over fresh.reverse).2.reverse).Perm
      fresh := by
    refine ((List.reverse_perm _).append_left _).trans ?_
    rw [evictBack_append]
    exact List.reverse_perm _
  rw [List.append_assoc]
  refine (hback.append_left _).trans ?_
  subst hf
  exact List.filter_append_perm _ _

/-- The loop stops when what is left is not too much. -/
theorem evictBack_kept (full : List CacheEntry → Bool) (es : List CacheEntry) :
    (evictBack full es).2 = [] ∨ full (evictBack full es).2 = false := by
  induction es with
  | nil => exact .inl rfl
  | cons e es ih =>
    rw [evictBack]
    by_cases ho : full (e :: es) = true
    · rw [if_pos ho]
      exact ih
    · rw [if_neg ho]
      exact .inr (Bool.eq_false_iff.mpr ho)

/-- What is left is within the byte budget. -/
theorem kept_within (hbudget : 0 < cfg.cacheByteBudget) (cache : Cache) :
    (totalCacheBytes (evictIfNeeded cfg now cache).2 : Int) ≤ cfg.cacheByteBudget := by
  have hreverse : ∀ es : List CacheEntry, totalCacheBytes es.reverse = totalCacheBytes es := by
    intro es
    simp [totalCacheBytes, List.map_reverse, List.sum_reverse]
  unfold evictIfNeeded
  rw [hreverse]
  rcases evictBack_kept cfg.over (cache.filter fun e => !e.expired cfg now).reverse with hnil | hfits
  · rw [hnil]
    simp [totalCacheBytes]
    omega
  · simp only [CacheConfig.over, if_pos hbudget, decide_eq_false_iff_not] at hfits
    omega

/-- Every problem has one entry. -/
def Cache.Unique (cache : Cache) : Prop := (cache.map CacheEntry.problemID).Nodup

theorem Cache.Unique.nodup {cache : Cache} (h : cache.Unique) : cache.Nodup :=
  List.Nodup.of_map _ h

variable {sizeOf : Bool → Bool → Nat} {problemID : Nat} {etag : Bytes} {zipPath workDir : Bool}
  {cache : Cache}

@[simp] theorem touchedEntry_problemID :
    (touchedEntry now sizeOf problemID etag zipPath workDir cache).problemID = problemID := by
  unfold touchedEntry
  split <;> rfl

theorem unique_touchedList (h : cache.Unique) :
    (touchedList now sizeOf problemID etag zipPath workDir cache).Unique := by
  unfold Cache.Unique touchedList at *
  rw [List.map_cons, List.nodup_cons, touchedEntry_problemID]
  constructor
  · rintro hmem
    obtain ⟨e, he, heq⟩ := List.mem_map.mp hmem
    have hne := (List.mem_filter.mp he).2
    simp [heq] at hne
  · exact h.sublist (List.filter_sublist.map _)

@[simp] theorem touchedEntry_zipPath :
    (touchedEntry now sizeOf problemID etag zipPath workDir cache).zipPath =
      (((cache.find problemID).map CacheEntry.zipPath).getD false || zipPath) := by
  unfold touchedEntry
  split <;> simp [*]

@[simp] theorem touchedEntry_workDir :
    (touchedEntry now sizeOf problemID etag zipPath workDir cache).workDir =
      (((cache.find problemID).map CacheEntry.workDir).getD false || workDir) := by
  unfold touchedEntry
  split <;> simp [*]

/-- The size is taken of what the entry says that there is. -/
theorem touchedEntry_sizeBytes {e : CacheEntry}
    (h : e = touchedEntry now sizeOf problemID etag zipPath workDir cache) :
    e.sizeBytes = sizeOf e.zipPath e.workDir := by
  subst h
  unfold touchedEntry
  split <;> rfl

/-- Where every problem has one entry, it is the one that is found. -/
theorem Cache.Unique.find_eq (h : cache.Unique) (he : e ∈ cache) : cache.find e.problemID = some e := by
  induction cache with
  | nil => cases he
  | cons x cache ih =>
    obtain ⟨hx, hcache⟩ := List.nodup_cons.mp h
    unfold Cache.find
    rcases List.mem_cons.mp he with rfl | he
    · rw [List.find?_cons_of_pos (by simp)]
    · have hne : x.problemID ≠ e.problemID := fun heq => hx (heq ▸ List.mem_map_of_mem he)
      rw [List.find?_cons_of_neg (by simpa using hne)]
      exact ih hcache he

/-- Distinct problems take no more than everything on the list. -/
theorem sum_found_le (cache : Cache) {pids : List Nat} (h : pids.Nodup) :
    (pids.map fun pid => ((cache.find pid).map CacheEntry.sizeBytes).getD 0).sum ≤
      totalCacheBytes cache := by
  induction cache generalizing pids with
  | nil =>
    show (pids.map fun _ => 0).sum ≤ 0
    simp
  | cons e cache ih =>
    have htotal : totalCacheBytes (e :: cache) = e.sizeBytes + totalCacheBytes cache := rfl
    -- the entry counts for its own problem only
    have hskip : ∀ pids : List Nat, e.problemID ∉ pids →
        (pids.map fun pid => ((Cache.find (e :: cache) pid).map CacheEntry.sizeBytes).getD 0) =
          pids.map fun pid => ((Cache.find cache pid).map CacheEntry.sizeBytes).getD 0 := by
      intro pids hnot
      refine List.map_congr_left fun pid hpid => ?_
      have hne : e.problemID ≠ pid := fun heq => hnot (heq ▸ hpid)
      unfold Cache.find
      rw [List.find?_cons_of_neg (by simpa using hne)]
    by_cases hmem : e.problemID ∈ pids
    · rw [((List.perm_cons_erase hmem).map _).sum_nat, List.map_cons, List.sum_cons,
        hskip _ h.not_mem_erase]
      have hself : Cache.find (e :: cache) e.problemID = some e :=
        List.find?_cons_of_pos (by simp)
      have hrest := ih (h.erase e.problemID)
      simp only [hself, Option.map_some, Option.getD_some]
      omega
    · rw [hskip pids hmem]
      have hrest := ih h
      omega

/-- A path that is on record, or that `touchCache` is told of, is on record after the touch. -/
theorem exists_touched (h : cache.Unique) {flag : CacheEntry → Bool} {told : Bool} {pid : Nat}
    (hflag : flag (touchedEntry now sizeOf problemID etag zipPath workDir cache) =
      (((cache.find problemID).map flag).getD false || told))
    (hpid : (∃ e ∈ cache, e.problemID = pid ∧ flag e = true) ∨ (problemID = pid ∧ told = true)) :
    ∃ e ∈ touchedList now sizeOf problemID etag zipPath workDir cache, e.problemID = pid ∧ flag e = true := by
  by_cases hp : problemID = pid
  · refine ⟨_, List.mem_cons_self, by rw [touchedEntry_problemID, hp], ?_⟩
    rw [hflag, Bool.or_eq_true]
    rcases hpid with ⟨e, he, rfl, hf⟩ | ⟨-, ht⟩
    · refine .inl ?_
      rw [hp, h.find_eq he]
      exact hf
    · exact .inr ht
  · obtain ⟨e, he, rfl, hf⟩ := hpid.resolve_right fun h => hp h.1
    exact ⟨e, List.mem_cons_of_mem _ (List.mem_filter.mpr ⟨he, by simpa using Ne.symm hp⟩), rfl, hf⟩

/-- What was there is taken off the list or left. -/
theorem evicted_or_kept (cfg : CacheConfig) (now : Int) (he : e ∈ cache) :
    e ∈ (evictIfNeeded cfg now cache).1 ∨ e ∈ (evictIfNeeded cfg now cache).2 :=
  List.mem_append.mp ((evictIfNeeded_perm cfg now cache).mem_iff.mpr he)

/-- No problem is both taken off the list and left. -/
theorem evicted_ne_kept (h : cache.Unique) {e' : CacheEntry} (he : e ∈ (evictIfNeeded cfg now cache).1)
    (he' : e' ∈ (evictIfNeeded cfg now cache).2) : e'.problemID ≠ e.problemID := by
  have hnd := ((evictIfNeeded_perm cfg now cache).map CacheEntry.problemID).nodup_iff.mpr h
  rw [List.map_append] at hnd
  have hdisj := (List.nodup_append.mp hnd).2.2
  exact (hdisj _ (List.mem_map_of_mem he) _ (List.mem_map_of_mem he')).symm

/-- `touchCache` keeps one entry for every problem. -/
theorem unique_touchCache (h : cache.Unique) :
    (touchCache cfg now sizeOf problemID etag zipPath workDir cache).2.Unique :=
  (unique_touchedList h).sublist ((kept_sublist _).map _)

end DeepOj.Worker
