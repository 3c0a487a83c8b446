import DeepOj.Go.Clean
import DeepOj.Go.LinkedList
import DeepOj.Worker.TestCaseCache
import Mathlib

/-!
# The cache of test cases, in its map and its list

`touchCache` keeps an entry of every problem in a map and in a list at once. Both hold
pointers to the entry, and the entry points to its element of the list, so the two
have to be kept in step by hand.
-/

namespace DeepOj.Worker.CacheIndex

open Go

/-- The address of an entry. -/
abbrev Ref := Nat

/-- A `cacheEntry`. -/
structure CacheEntry where
  problemID : Bytes
  etag : Bytes
  zipPath : Bytes
  workDir : Bytes
  sizeBytes : Nat
  lastAccess : Int
  /-- The address of its element. -/
  elem : Nat
  deriving DecidableEq, Inhabited

/-- What is done to a file when an entry goes; errors are ignored. -/
inductive FileOp where
  | remove (path : Bytes)
  | removeAll (path : Bytes)
  deriving DecidableEq

/-- An entry that was removed, with the time that was read last and what was there. -/
structure Eviction where
  entry : CacheEntry
  now : Int
  present : List CacheEntry

/-- The part of a `TestCaseManager` that `cacheMu` guards. -/
structure Manager where
  heap : Ref → CacheEntry := fun _ => default
  /-- The next address that is free, for an entry and for an element. -/
  next : Nat := 0
  cacheMap : List (Bytes × Ref) := []
  cacheList : LinkedList Ref := []
  fileOps : List FileOp := []
  evicted : List Eviction := []

/-- What the file system answers: the size of a file, and of the files in a directory. -/
structure Sizes where
  fileSize : Bytes → Nat
  dirSize : Bytes → Nat

/-- The order in which a `range` over a map goes through it. -/
structure MapOrder where
  visit : List (Bytes × Ref) → List (Bytes × Ref)
  perm : ∀ l, (visit l).Perm l

/-- A call of `touchCache`, with all it reads from the outside. -/
structure Call where
  problemID : Bytes
  etag : Bytes
  zipPath : Bytes
  workDir : Bytes
  sizes : Sizes
  /-- What the clock says, reading after reading. -/
  clock : Nat → Int
  monotone : Monotone clock
  order : MapOrder

def calcEntrySizeBytes (sizes : Sizes) (zipPath workDir : Bytes) : Nat :=
  (if zipPath ≠ [] then sizes.fileSize zipPath + sizes.fileSize (zipPath ++ utf8 ".etag") else 0) +
    (if workDir ≠ [] then sizes.dirSize workDir else 0)

/-- The `int64` sum of the sizes in the map. -/
def totalCacheBytes (m : Manager) : Int :=
  m.cacheMap.foldl (fun total x => (total + (m.heap x.2).sizeBytes).bmod (2 ^ 64)) 0

/-- The files that go with an entry. -/
def removals (entry : CacheEntry) : List FileOp :=
  (if entry.zipPath ≠ [] then
    [.remove entry.zipPath, .remove (entry.zipPath ++ utf8 ".etag"), .remove (entry.zipPath ++ utf8 ".lock")]
  else []) ++
  (if entry.workDir ≠ [] then
    [.removeAll entry.workDir, .remove (entry.workDir ++ utf8 ".lock"),
      .remove (joinPath entry.workDir (utf8 ".ready")), .remove (joinPath entry.workDir (utf8 ".ready.etag"))]
  else [])

/-- The entries in the map. -/
def Manager.present (m : Manager) : List CacheEntry := m.cacheMap.map fun x => m.heap x.2

/-- The entries in the list, from the front. -/
def Manager.listed (m : Manager) : List CacheEntry := m.cacheList.map fun x => m.heap x.2

def removeEntry (now : Int) (m : Manager) (problemID : Bytes) : Manager :=
  match m.cacheMap.lookup problemID with
  | none => m
  | some r =>
    { m with
      cacheList := m.cacheList.remove (m.heap r).elem
      cacheMap := m.cacheMap.filter (·.1 ≠ problemID)
      fileOps := m.fileOps ++ removals (m.heap r)
      evicted := ⟨m.heap r, now, m.present⟩ :: m.evicted }

/-- An entry after a hit. -/
def Call.update (c : Call) (e : CacheEntry) : CacheEntry :=
  let zipPath := if c.zipPath ≠ [] then c.zipPath else e.zipPath
  let workDir := if c.workDir ≠ [] then c.workDir else e.workDir
  { e with
    lastAccess := c.clock 0
    etag := if c.etag ≠ [] then c.etag else e.etag
    zipPath, workDir
    sizeBytes := calcEntrySizeBytes c.sizes zipPath workDir }

/-- The entry of a problem that has none. -/
def Call.newEntry (c : Call) (elem : Nat) : CacheEntry :=
  { problemID := c.problemID, etag := c.etag, zipPath := c.zipPath, workDir := c.workDir
    sizeBytes := calcEntrySizeBytes c.sizes c.zipPath c.workDir, lastAccess := c.clock 0, elem }

/-- The first part of `touchCache`: the entry of the problem comes to the front. -/
def record (m : Manager) (c : Call) : Manager :=
  match m.cacheMap.lookup c.problemID with
  | some r =>
    { m with
      heap := Function.update m.heap r (c.update (m.heap r))
      cacheList := m.cacheList.moveToFront (m.heap r).elem }
  | none =>
    { m with
      heap := Function.update m.heap m.next (c.newEntry m.next)
      next := m.next + 1
      cacheList := m.cacheList.pushFront m.next m.next
      cacheMap := (c.problemID, m.next) :: m.cacheMap }

variable (lims : CacheConfig)

/-- The loop over the map that removes what has expired. -/
def removeExpired (clock : Nat → Int) : Nat → List (Bytes × Ref) → Manager → Manager
  | _, [], m => m
  | i, (id, r) :: rest, m =>
    if 0 < lims.cacheTTL ∧ lims.cacheTTL < clock i - (m.heap r).lastAccess then
      removeExpired clock (i + 1) rest (removeEntry (clock i) m id)
    else removeExpired clock (i + 1) rest m

/-- The two loops that evict from the back, given what is too much. They are let run for a
number of turns. -/
def evictBack (full : Manager → Bool) (now : Int) : Nat → Manager → Option Manager
  | 0, _ => none
  | fuel + 1, m =>
    if full m then
      match m.cacheList.back with
      | none => some m
      | some x => evictBack full now fuel (removeEntry now m (m.heap x.2).problemID)
    else some m

def evictIfNeeded (fuel : Nat) (c : Call) (m : Manager) : Option Manager :=
  let now := c.clock (m.cacheMap.length + 1)
  let m := removeExpired lims c.clock 1 (c.order.visit m.cacheMap) m
  if 0 < lims.cacheByteBudget then
    evictBack (fun m => lims.cacheByteBudget < totalCacheBytes m) now fuel m
  else evictBack (fun m => 0 < lims.cacheMax ∧ lims.cacheMax < m.cacheList.length) now fuel m

def touchCache (fuel : Nat) (m : Manager) (c : Call) : Option Manager :=
  evictIfNeeded lims fuel c (record m c)

/-- The settings that `deriveCacheByteBudget` reads. -/
structure Config where
  testcaseCacheMax : Int
  unzipMaxBytes : Int

def deriveCacheByteBudget : Option Config → Int
  | none => 0
  | some cfg =>
    if cfg.testcaseCacheMax ≤ 0 ∨ cfg.unzipMaxBytes ≤ 0 then 0
    else if (2 ^ 63 - 1) / cfg.unzipMaxBytes < cfg.testcaseCacheMax then 2 ^ 63 - 1
    else (cfg.testcaseCacheMax * cfg.unzipMaxBytes).bmod (2 ^ 64)

/-! ## What is to hold -/

/-- The map and the list hold the same entries, each once, under its own id and at its own
element. -/
structure InStep (m : Manager) : Prop where
  same : m.cacheMap.Perm (m.cacheList.map fun x => ((m.heap x.2).problemID, x.2))
  keys : (m.listed.map CacheEntry.problemID).Nodup
  distinct : m.cacheList.Distinct
  elem : ∀ x ∈ m.cacheList, (m.heap x.2).elem = x.1
  taken : ∀ x ∈ m.cacheList, x.1 < m.next ∧ x.2 < m.next

/-- The latest used come first. -/
def Ordered (m : Manager) : Prop := m.listed.Pairwise fun a b => b.lastAccess ≤ a.lastAccess

/-- What was removed had expired, or had been touched least recently of what was there. -/
def Eviction.Right (ev : Eviction) : Prop :=
  (0 < lims.cacheTTL ∧ lims.cacheTTL < ev.now - ev.entry.lastAccess) ∨
    ∀ e ∈ ev.present, ev.entry.lastAccess ≤ e.lastAccess

/-- The sum of the recorded sizes is an `int64`. -/
def Fits (m : Manager) : Prop := (m.present.map CacheEntry.sizeBytes).sum < 2 ^ 63

/-- What is left is within the budget, or within the count if there is no budget. -/
def Within (m : Manager) : Prop :=
  if 0 < lims.cacheByteBudget then ((m.present.map CacheEntry.sizeBytes).sum : Int) ≤ lims.cacheByteBudget
  else 0 < lims.cacheMax → (m.cacheMap.length : Int) ≤ lims.cacheMax

/-- The states that calls lead to, and the time that has been reached. -/
inductive Reached : Int → Manager → Prop
  | start (t : Int) : Reached t {}
  | touch {t t' : Int} {m m' : Manager} {c : Call} {fuel : Nat} (h : Reached t m) (hnow : t ≤ c.clock 0)
    (hfits : Fits (record m c)) (hrun : touchCache lims fuel m c = some m')
    (hlater : c.clock (m.cacheMap.length + 2) ≤ t') : Reached t' m'

/-! ## The map and the list -/

section InStep

variable {lims} {m m' : Manager} {id : Bytes} {r : Ref} {now t : Int} {c : Call}

/-- The entries of the map, from its list. -/
theorem InStep.present_perm (h : InStep m) : m.present.Perm m.listed := by
  have hmap := h.same.map fun x => m.heap x.2
  rwa [List.map_map] at hmap

/-- The problem of an entry is its key. -/
theorem InStep.mem_map (h : InStep m) :
    (id, r) ∈ m.cacheMap ↔ ∃ x ∈ m.cacheList, (m.heap x.2).problemID = id ∧ x.2 = r := by
  rw [h.same.mem_iff, List.mem_map]
  simp only [Prod.mk.injEq]

theorem InStep.nodup_keys (h : InStep m) : (m.cacheMap.map Prod.fst).Nodup := by
  have hperm := (h.same.map Prod.fst).nodup_iff
  rw [hperm, List.map_map]
  have hkeys := h.keys
  rw [Manager.listed, List.map_map] at hkeys
  exact hkeys

/-- One element for every problem. -/
theorem InStep.eq_of_problemID (h : InStep m) {x y : Nat × Ref} (hx : x ∈ m.cacheList)
    (hy : y ∈ m.cacheList) (heq : (m.heap x.2).problemID = (m.heap y.2).problemID) : x = y := by
  have hkeys := h.keys
  rw [Manager.listed, List.map_map] at hkeys
  exact List.inj_on_of_nodup_map hkeys hx hy heq

/-- What `lookup` finds is bound, where every key is bound once. -/
theorem lookup_eq_some {l : List (Bytes × Ref)} (h : l.lookup id = some r) : (id, r) ∈ l := by
  induction l with
  | nil => cases h
  | cons x l ih =>
    obtain ⟨k, s⟩ := x
    rw [List.lookup_cons] at h
    by_cases hk : id = k
    · subst hk
      simp at h
      simp [h]
    · have hne : (id == k) = false := by simpa using hk
      rw [hne] at h
      exact List.mem_cons_of_mem _ (ih h)

theorem lookup_eq_none {l : List (Bytes × Ref)} (h : l.lookup id = none) : (id, r) ∉ l := by
  induction l with
  | nil => simp
  | cons x l ih =>
    obtain ⟨k, s⟩ := x
    rw [List.lookup_cons] at h
    by_cases hk : id = k
    · subst hk
      simp at h
    · have hne : (id == k) = false := by simpa using hk
      rw [hne] at h
      simp [hk, ih h]

/-- Of the list, the element goes whose entry has the id. -/
theorem InStep.remove_eq_filter (h : InStep m) {x : Nat × Ref} (hx : x ∈ m.cacheList)
    (hid : (m.heap x.2).problemID = id) :
    m.cacheList.remove (m.heap x.2).elem = m.cacheList.filter fun y => (m.heap y.2).problemID ≠ id := by
  refine List.filter_congr ?_
  intro y hy
  rw [h.elem x hx, decide_eq_decide, not_iff_not]
  constructor
  · intro heq
    rw [h.distinct.eq_of_mem hy hx heq, hid]
  · intro heq
    rw [h.eq_of_problemID hy hx (heq.trans hid.symm)]

/-- Removing an entry takes it out of both. -/
theorem removeEntry_spec (h : InStep m) (now : Int) (id : Bytes) :
    InStep (removeEntry now m id) ∧
      (removeEntry now m id).listed = m.listed.filter (·.problemID ≠ id) := by
  unfold removeEntry
  cases hl : m.cacheMap.lookup id with
  | none =>
    refine ⟨h, (List.filter_eq_self.mpr ?_).symm⟩
    intro e he
    obtain ⟨x, hx, rfl⟩ := List.mem_map.mp he
    have hnot := lookup_eq_none (r := x.2) hl
    rw [h.mem_map] at hnot
    by_contra heq
    exact hnot ⟨x, hx, by simpa using heq, rfl⟩
  | some r =>
    obtain ⟨x, hx, hid, rfl⟩ := h.mem_map.mp (lookup_eq_some hl)
    have hlist := h.remove_eq_filter hx hid
    have hlisted : (m.cacheList.remove (m.heap x.2).elem).map (fun y => m.heap y.2) =
        m.listed.filter (·.problemID ≠ id) := by
      rw [hlist, Manager.listed, List.filter_map]
      rfl
    refine ⟨⟨?_, ?_, h.distinct.remove, ?_, ?_⟩, hlisted⟩
    · show (m.cacheMap.filter _).Perm ((m.cacheList.remove _).map _)
      refine (h.same.filter _).trans ?_
      rw [hlist, List.filter_map]
      rfl
    · show (((m.cacheList.remove _).map _).map _).Nodup
      rw [hlisted]
      exact h.keys.sublist (List.filter_sublist.map _)
    · exact fun y hy => h.elem y (LinkedList.mem_remove.mp hy).1
    · exact fun y hy => h.taken y (LinkedList.mem_remove.mp hy).1

/-- A hit moves the entry to the front of the list, and updates it in place. -/
theorem record_hit (h : InStep m) {x : Nat × Ref} (hx : x ∈ m.cacheList)
    (hid : (m.heap x.2).problemID = c.problemID) (hl : m.cacheMap.lookup c.problemID = some x.2) :
    InStep (record m c) ∧ (record m c).listed =
      c.update (m.heap x.2) :: m.listed.filter (·.problemID ≠ c.problemID) := by
  unfold record
  rw [hl]
  simp only
  have hids : ∀ r, (Function.update m.heap x.2 (c.update (m.heap x.2)) r).problemID =
      (m.heap r).problemID := by
    intro r
    by_cases hr : r = x.2
    · rw [hr, Function.update_self]
      rfl
    · rw [Function.update_of_ne hr]
  have helems : ∀ r, (Function.update m.heap x.2 (c.update (m.heap x.2)) r).elem = (m.heap r).elem := by
    intro r
    by_cases hr : r = x.2
    · rw [hr, Function.update_self]
      rfl
    · rw [Function.update_of_ne hr]
  have hmoved := LinkedList.moveToFront_of_mem h.distinct hx
  have hperm := LinkedList.moveToFront_perm h.distinct hx
  rw [← h.elem x hx] at hmoved hperm
  have hlisted : (m.cacheList.moveToFront (m.heap x.2).elem).map
        (fun y => Function.update m.heap x.2 (c.update (m.heap x.2)) y.2) =
      c.update (m.heap x.2) :: m.listed.filter (·.problemID ≠ c.problemID) := by
    rw [hmoved, List.map_cons, Function.update_self, Manager.listed, List.filter_map,
      h.remove_eq_filter hx hid]
    congr 1
    refine List.map_congr_left ?_
    intro y hy
    refine Function.update_of_ne ?_ _ _
    intro heq
    have hother := (List.mem_filter.mp hy).2
    rw [heq, hid] at hother
    simp at hother
  refine ⟨⟨?_, ?_, ?_, ?_, ?_⟩, hlisted⟩
  · show m.cacheMap.Perm ((m.cacheList.moveToFront _).map fun y =>
      ((Function.update m.heap x.2 (c.update (m.heap x.2)) y.2).problemID, y.2))
    simp only [hids]
    exact h.same.trans (hperm.symm.map _)
  · show (((m.cacheList.moveToFront _).map fun y => Function.update m.heap x.2 _ y.2).map _).Nodup
    have hkeys := h.keys
    rw [Manager.listed, List.map_map] at hkeys
    rw [List.map_map]
    have hsame : (CacheEntry.problemID ∘ fun y : Nat × Ref =>
        Function.update m.heap x.2 (c.update (m.heap x.2)) y.2) =
        CacheEntry.problemID ∘ fun y : Nat × Ref => m.heap y.2 := funext fun y => hids y.2
    rw [hsame]
    exact (hperm.map _).nodup_iff.mpr hkeys
  · exact (hperm.map Prod.fst).nodup_iff.mpr h.distinct
  · intro y hy
    rw [helems]
    exact h.elem y (hperm.mem_iff.mp hy)
  · exact fun y hy => h.taken y (hperm.mem_iff.mp hy)

/-- A miss puts a new entry at the front. -/
theorem record_miss (h : InStep m) (hl : m.cacheMap.lookup c.problemID = none) :
    InStep (record m c) ∧ (record m c).listed =
      c.newEntry m.next :: m.listed.filter (·.problemID ≠ c.problemID) := by
  unfold record
  rw [hl]
  simp only
  -- the addresses of the new entry and element are not in use
  have hheap : ∀ y ∈ m.cacheList, Function.update m.heap m.next (c.newEntry m.next) y.2 = m.heap y.2 :=
    fun y hy => Function.update_of_ne (h.taken y hy).2.ne _ _
  have hnot : ∀ e ∈ m.listed, e.problemID ≠ c.problemID := by
    intro e he heq
    obtain ⟨y, hy, rfl⟩ := List.mem_map.mp he
    exact lookup_eq_none (r := y.2) hl (h.mem_map.mpr ⟨y, hy, heq, rfl⟩)
  have hlisted : ((m.next, m.next) :: m.cacheList).map
      (fun y => Function.update m.heap m.next (c.newEntry m.next) y.2) = c.newEntry m.next :: m.listed := by
    rw [List.map_cons, Function.update_self, Manager.listed, List.map_congr_left hheap]
  refine ⟨⟨?_, ?_, ?_, ?_, ?_⟩, ?_⟩
  · show ((c.problemID, m.next) :: m.cacheMap).Perm (((m.next, m.next) :: m.cacheList).map fun y =>
      ((Function.update m.heap m.next (c.newEntry m.next) y.2).problemID, y.2))
    rw [List.map_cons, Function.update_self]
    refine List.Perm.cons _ ?_
    have hsame : (m.cacheList.map fun y =>
        ((Function.update m.heap m.next (c.newEntry m.next) y.2).problemID, y.2)) =
        m.cacheList.map fun y => ((m.heap y.2).problemID, y.2) := by
      refine List.map_congr_left ?_
      intro y hy
      rw [hheap y hy]
    rw [hsame]
    exact h.same
  · show ((((m.next, m.next) :: m.cacheList).map fun y => Function.update m.heap m.next _ y.2).map
      CacheEntry.problemID).Nodup
    rw [hlisted, List.map_cons]
    refine List.nodup_cons.mpr ⟨?_, h.keys⟩
    intro hmem
    obtain ⟨e, he, heq⟩ := List.mem_map.mp hmem
    exact hnot e he heq
  · exact h.distinct.pushFront fun y hy => (h.taken y hy).1.ne
  · intro y hy
    rcases List.mem_cons.mp hy with rfl | hy
    · show (Function.update m.heap m.next (c.newEntry m.next) m.next).elem = m.next
      rw [Function.update_self]
      rfl
    · show (Function.update m.heap m.next (c.newEntry m.next) y.2).elem = y.1
      rw [hheap y hy]
      exact h.elem y hy
  · intro y hy
    rcases List.mem_cons.mp hy with rfl | hy
    · show m.next < m.next + 1 ∧ m.next < m.next + 1
      omega
    · have htaken := h.taken y hy
      exact ⟨Nat.lt_succ_of_lt htaken.1, Nat.lt_succ_of_lt htaken.2⟩
  · refine hlisted.trans ?_
    rw [List.filter_eq_self.mpr]
    intro e he
    simpa using hnot e he

/-- The entry of the problem comes to the front of the list, in step with the map. -/
theorem record_spec (h : InStep m) (c : Call) :
    InStep (record m c) ∧ ∃ e : CacheEntry, e.problemID = c.problemID ∧ e.lastAccess = c.clock 0 ∧
      (record m c).listed = e :: m.listed.filter (·.problemID ≠ c.problemID) := by
  cases hl : m.cacheMap.lookup c.problemID with
  | some r =>
    obtain ⟨x, hx, hid, rfl⟩ := h.mem_map.mp (lookup_eq_some hl)
    have hrec := record_hit h hx hid hl
    exact ⟨hrec.1, c.update (m.heap x.2), hid, rfl, hrec.2⟩
  | none =>
    have hrec := record_miss h hl
    exact ⟨hrec.1, c.newEntry m.next, rfl, rfl, hrec.2⟩

end InStep

/-! ## The loops -/

/-- What holds while the loops run. -/
structure Inv (t : Int) (m : Manager) : Prop where
  inStep : InStep m
  ordered : Ordered m
  early : ∀ e ∈ m.listed, e.lastAccess ≤ t
  fits : Fits m
  right : ∀ ev ∈ m.evicted, ev.Right lims

section Loops

variable {lims} {m m' : Manager} {id : Bytes} {r : Ref} {now t t' : Int} {c : Call}

theorem Inv.mono (h : Inv lims t m) (ht : t ≤ t') : Inv lims t' m :=
  ⟨h.inStep, h.ordered, fun e he => (h.early e he).trans ht, h.fits, h.right⟩

theorem InStep.sum_sizes (h : InStep m) :
    (m.present.map CacheEntry.sizeBytes).sum = (m.listed.map CacheEntry.sizeBytes).sum :=
  (h.present_perm.map _).sum_eq

/-- A removal that has a reason keeps the invariant. -/
theorem removeEntry_inv (now : Int) (h : Inv lims t m)
    (hright : ∀ r, m.cacheMap.lookup id = some r → Eviction.Right lims ⟨m.heap r, now, m.present⟩) :
    Inv lims t (removeEntry now m id) := by
  obtain ⟨hstep, hlisted⟩ := removeEntry_spec h.inStep now id
  have hsub : (removeEntry now m id).listed.Sublist m.listed := hlisted ▸ List.filter_sublist
  refine ⟨hstep, h.ordered.sublist hsub, fun e he => h.early e (hsub.subset he), ?_, ?_⟩
  · have hsum := (hsub.map CacheEntry.sizeBytes).sum_le_sum fun _ _ => Nat.zero_le _
    have hfits := h.fits
    unfold Fits at hfits ⊢
    rw [hstep.sum_sizes]
    rw [h.inStep.sum_sizes] at hfits
    omega
  · unfold removeEntry
    cases hl : m.cacheMap.lookup id with
    | none => exact h.right
    | some r =>
      intro ev hev
      rcases List.mem_cons.mp hev with rfl | hev
      · exact hright r hl
      · exact h.right ev hev

theorem removeEntry_cacheMap_subset (now : Int) (m : Manager) (id : Bytes) :
    (removeEntry now m id).cacheMap ⊆ m.cacheMap := by
  unfold removeEntry
  split
  · exact List.Subset.refl _
  · exact List.filter_subset_self _

/-- The loop over the map removes nothing but what has expired, in whatever order it goes. -/
theorem removeExpired_inv (clock : Nat → Int) (i : Nat) (rest : List (Bytes × Ref)) (h : Inv lims t m)
    (hrest : ∀ x ∈ rest, ∀ r, (x.1, r) ∈ m.cacheMap → r = x.2) :
    Inv lims t (removeExpired lims clock i rest m) := by
  induction rest generalizing i m with
  | nil => exact h
  | cons x rest ih =>
    obtain ⟨id, r⟩ := x
    have htail : ∀ x ∈ rest, ∀ r, (x.1, r) ∈ m.cacheMap → r = x.2 :=
      fun x hx => hrest x (List.mem_cons_of_mem _ hx)
    unfold removeExpired
    by_cases hexp : 0 < lims.cacheTTL ∧ lims.cacheTTL < clock i - (m.heap r).lastAccess
    · rw [if_pos hexp]
      refine ih (i + 1) (removeEntry_inv _ h ?_) ?_
      · intro r' hl
        -- the entry under this id is the one that was looked at
        obtain rfl : r' = r := hrest (id, r) List.mem_cons_self r' (lookup_eq_some hl)
        exact .inl hexp
      · intro x hx r' hr'
        exact htail x hx r' (removeEntry_cacheMap_subset _ _ _ hr')
    · rw [if_neg hexp]
      exact ih (i + 1) h htail

/-- What is evicted from the back has been touched least recently. -/
theorem right_back (h : Inv lims t m) {x : Nat × Ref} (hx : m.cacheList.back = some x)
    (hl : m.cacheMap.lookup (m.heap x.2).problemID = some r) :
    Eviction.Right lims ⟨m.heap r, now, m.present⟩ := by
  right
  obtain ⟨front, hfront⟩ := List.getLast?_eq_some_iff.mp hx
  have hmem : x ∈ m.cacheList := by
    rw [hfront]
    simp
  have hr : r = x.2 := by
    obtain ⟨y, hy, hid, rfl⟩ := h.inStep.mem_map.mp (lookup_eq_some hl)
    rw [h.inStep.eq_of_problemID hy hmem hid]
  have hsplit : m.listed = front.map (fun y => m.heap y.2) ++ [m.heap x.2] := by
    rw [Manager.listed, hfront, List.map_append]
    rfl
  have hordered := h.ordered
  unfold Ordered at hordered
  rw [hsplit, List.pairwise_append] at hordered
  intro e he
  have hlisted : e ∈ m.listed := h.inStep.present_perm.mem_iff.mp he
  rw [hsplit, List.mem_append, List.mem_singleton] at hlisted
  show (m.heap r).lastAccess ≤ e.lastAccess
  rw [hr]
  rcases hlisted with hbefore | rfl
  · exact hordered.2.2 e hbefore _ (by simp)
  · exact le_refl _

/-- An eviction from the back shortens the list. -/
theorem length_removeEntry_back (now : Int) (h : InStep m) {x : Nat × Ref} (hx : x ∈ m.cacheList) :
    (removeEntry now m (m.heap x.2).problemID).cacheList.length < m.cacheList.length := by
  have hbound : (x.2 : Ref) ∈ m.cacheMap.map Prod.snd :=
    List.mem_map.mpr ⟨((m.heap x.2).problemID, x.2), h.mem_map.mpr ⟨x, hx, rfl, rfl⟩, rfl⟩
  unfold removeEntry
  cases hl : m.cacheMap.lookup (m.heap x.2).problemID with
  | none => exact absurd (h.mem_map.mpr ⟨x, hx, rfl, rfl⟩) (lookup_eq_none hl)
  | some r =>
    obtain ⟨y, hy, hid, rfl⟩ := h.mem_map.mp (lookup_eq_some hl)
    obtain rfl := h.eq_of_problemID hy hx hid
    show (m.cacheList.filter _).length < _
    refine List.length_filter_lt_length_iff_exists.mpr ⟨y, hx, ?_⟩
    simp [h.elem y hx]

/-- A loop that evicts from the back ends, once it has been let run for more turns than there
are elements: with a list that is not too much, or empty. -/
theorem evictBack_spec (full : Manager → Bool) (now : Int) (n : Nat) (h : Inv lims t m)
    (hlen : m.cacheList.length ≤ n) :
    ∃ m', (∀ fuel, n < fuel → evictBack full now fuel m = some m') ∧ Inv lims t m' ∧
      (full m' = false ∨ m'.cacheList = []) := by
  induction n generalizing m with
  | zero =>
    have hnil : m.cacheList = [] := List.length_eq_zero_iff.mp (by omega)
    refine ⟨m, ?_, h, .inr hnil⟩
    intro fuel hfuel
    obtain ⟨k, rfl⟩ : ∃ k, fuel = k + 1 := ⟨fuel - 1, by omega⟩
    unfold evictBack
    split
    · rw [hnil]
      rfl
    · rfl
  | succ n ih =>
    by_cases hfull : full m = true
    · cases hb : m.cacheList.back with
      | none =>
        refine ⟨m, ?_, h, .inr (List.getLast?_eq_none_iff.mp hb)⟩
        intro fuel hfuel
        obtain ⟨k, rfl⟩ : ∃ k, fuel = k + 1 := ⟨fuel - 1, by omega⟩
        rw [evictBack, if_pos hfull, hb]
      | some x =>
        have hx : x ∈ m.cacheList := List.mem_of_getLast? hb
        have hshort := length_removeEntry_back now h.inStep hx
        obtain ⟨m', hrun, hinv, hstop⟩ :=
          ih (removeEntry_inv now h fun r hl => right_back h hb hl) (by omega)
        refine ⟨m', ?_, hinv, hstop⟩
        intro fuel hfuel
        obtain ⟨k, rfl⟩ : ∃ k, fuel = k + 1 := ⟨fuel - 1, by omega⟩
        rw [evictBack, if_pos hfull, hb]
        exact hrun k (by omega)
    · rw [Bool.not_eq_true] at hfull
      refine ⟨m, ?_, h, .inl hfull⟩
      intro fuel hfuel
      obtain ⟨k, rfl⟩ : ∃ k, fuel = k + 1 := ⟨fuel - 1, by omega⟩
      rw [evictBack, if_neg (by simp [hfull])]

/-- The sum does not wrap where it is an `int64`. -/
theorem totalCacheBytes_eq (h : Fits m) :
    totalCacheBytes m = ((m.present.map CacheEntry.sizeBytes).sum : Nat) := by
  have hloop : ∀ (l : List (Bytes × Ref)) (total : Nat),
      total + ((l.map fun x => m.heap x.2).map CacheEntry.sizeBytes).sum < 2 ^ 63 →
      l.foldl (fun total x => (total + ((m.heap x.2).sizeBytes : Int)).bmod (2 ^ 64)) (total : Int) =
        ((total + ((l.map fun x => m.heap x.2).map CacheEntry.sizeBytes).sum : Nat) : Int) := by
    intro l
    induction l with
    | nil =>
      intro total _
      simp
    | cons x l ih =>
      intro total hsum
      simp only [List.map_cons, List.sum_cons] at hsum ⊢
      have hmod : ((total : Int) + ((m.heap x.2).sizeBytes : Int)).bmod (2 ^ 64) =
          ((total + (m.heap x.2).sizeBytes : Nat) : Int) := by
        rw [Int.bmod_eq_of_le] <;> omega
      rw [List.foldl_cons, hmod, ih _ (by omega), Nat.add_assoc]
  have hall := hloop m.cacheMap 0 (by simpa [Fits, Manager.present] using h)
  simpa [totalCacheBytes, Manager.present] using hall

/-- More turns change no result. -/
theorem evictBack_mono {full : Manager → Bool} {fuel k : Nat} (h : evictBack full now fuel m = some m') :
    evictBack full now (fuel + k) m = some m' := by
  induction fuel generalizing m with
  | zero => cases h
  | succ fuel ih =>
    rw [Nat.succ_add]
    unfold evictBack at h ⊢
    by_cases hfull : full m = true
    · rw [if_pos hfull] at h ⊢
      cases hb : m.cacheList.back with
      | none =>
        rw [hb] at h
        exact h
      | some x =>
        rw [hb] at h
        exact ih h
    · rw [if_neg hfull] at h ⊢
      exact h

theorem touchCache_mono {fuel k : Nat} (h : touchCache lims fuel m c = some m') :
    touchCache lims (fuel + k) m c = some m' := by
  unfold touchCache evictIfNeeded at h ⊢
  simp only at h ⊢
  by_cases hb : 0 < lims.cacheByteBudget
  · rw [if_pos hb] at h ⊢
    exact evictBack_mono h
  · rw [if_neg hb] at h ⊢
    exact evictBack_mono h

/-- The eviction ends with what is within the limits. -/
theorem evictIfNeeded_spec (h : Inv lims t m) (c : Call) :
    ∃ n m', (∀ fuel, n < fuel → evictIfNeeded lims fuel c m = some m') ∧ Inv lims t m' ∧ Within lims m' := by
  have hkeys : ∀ x ∈ c.order.visit m.cacheMap, ∀ r, (x.1, r) ∈ m.cacheMap → r = x.2 := by
    intro x hx r hr
    have hmem := (c.order.perm m.cacheMap).mem_iff.mp hx
    exact congrArg Prod.snd (List.inj_on_of_nodup_map h.inStep.nodup_keys hr hmem rfl)
  have hfresh := removeExpired_inv c.clock 1 (c.order.visit m.cacheMap) h hkeys
  unfold evictIfNeeded
  simp only
  generalize removeExpired lims c.clock 1 (c.order.visit m.cacheMap) m = m₁ at hfresh ⊢
  by_cases hb : 0 < lims.cacheByteBudget
  · -- the loop of the byte budget
    obtain ⟨m', hrun, hinv, hstop⟩ := evictBack_spec
      (fun m => lims.cacheByteBudget < totalCacheBytes m) (c.clock (m.cacheMap.length + 1))
      m₁.cacheList.length hfresh le_rfl
    refine ⟨m₁.cacheList.length, m', ?_, hinv, ?_⟩
    · intro fuel hfuel
      rw [if_pos hb]
      exact hrun fuel hfuel
    · unfold Within
      rw [if_pos hb, ← totalCacheBytes_eq hinv.fits]
      rcases hstop with hstop | hnil
      · exact not_lt.mp (of_decide_eq_false hstop)
      · rw [totalCacheBytes_eq hinv.fits, hinv.inStep.sum_sizes, Manager.listed, hnil]
        exact hb.le
  · -- the loop of the count
    obtain ⟨m', hrun, hinv, hstop⟩ := evictBack_spec
      (fun m => 0 < lims.cacheMax ∧ lims.cacheMax < m.cacheList.length) (c.clock (m.cacheMap.length + 1))
      m₁.cacheList.length hfresh le_rfl
    refine ⟨m₁.cacheList.length, m', ?_, hinv, ?_⟩
    · intro fuel hfuel
      rw [if_neg hb]
      exact hrun fuel hfuel
    · unfold Within
      rw [if_neg hb]
      intro hmax
      have hlen := hinv.inStep.same.length_eq
      rw [List.length_map] at hlen
      rw [hlen]
      rcases hstop with hstop | hnil
      · have hnot := of_decide_eq_false hstop
        exact not_lt.mp fun hlt => hnot ⟨hmax, hlt⟩
      · rw [hnil]
        exact hmax.le

/-- Recording a touch keeps the invariant. -/
theorem record_inv (h : Inv lims t m) (ht : t ≤ c.clock 0) (hfits : Fits (record m c)) :
    Inv lims (c.clock 0) (record m c) := by
  obtain ⟨hstep, e, _, htime, hlisted⟩ := record_spec h.inStep c
  have hrest : ∀ x ∈ m.listed.filter (·.problemID ≠ c.problemID), x.lastAccess ≤ c.clock 0 :=
    fun x hx => (h.early x (List.mem_filter.mp hx).1).trans ht
  refine ⟨hstep, ?_, ?_, hfits, ?_⟩
  · unfold Ordered
    rw [hlisted]
    refine List.pairwise_cons.mpr ⟨?_, h.ordered.sublist List.filter_sublist⟩
    intro x hx
    rw [htime]
    exact hrest x hx
  · rw [hlisted]
    intro x hx
    rcases List.mem_cons.mp hx with rfl | hx
    · exact htime.le
    · exact hrest x hx
  · unfold record
    split <;> exact h.right

/-- A call that can be made ends, and keeps the invariant. -/
theorem touchCache_spec (h : Inv lims t m) (ht : t ≤ c.clock 0) (hfits : Fits (record m c)) :
    ∃ n m', (∀ fuel, n < fuel → touchCache lims fuel m c = some m') ∧ Inv lims (c.clock 0) m' ∧
      Within lims m' :=
  evictIfNeeded_spec (record_inv h ht hfits) c

theorem Reached.inv (h : Reached lims t m) : Inv lims t m ∧ Within lims m := by
  induction h with
  | start t =>
    refine ⟨⟨⟨by rfl, by simp [Manager.listed], by simp [LinkedList.Distinct], by simp, by simp⟩,
      by simp [Ordered, Manager.listed], by simp [Manager.listed], by simp [Fits, Manager.present], by simp⟩, ?_⟩
    unfold Within
    split
    · rename_i hb
      simpa [Manager.present] using hb.le
    · intro hmax
      exact hmax.le
  | @touch t t' m m' c fuel hreached hnow hfits hrun hlater ih =>
    obtain ⟨n, m'', hall, hinv, hwithin⟩ := touchCache_spec ih.1 hnow hfits
    have hsame : some m' = some m'' := by
      rw [← touchCache_mono hrun, ← hall (fuel + (n + 1)) (by omega)]
    cases hsame
    exact ⟨hinv.mono ((c.monotone (Nat.zero_le _)).trans hlater), hwithin⟩

end Loops

/-- The budget is the product of the settings, or the largest `int64` if that is less. -/
theorem deriveCacheByteBudget_eq {cfg : Config} (hmax : 0 < cfg.testcaseCacheMax)
    (hbytes : 0 < cfg.unzipMaxBytes) :
    deriveCacheByteBudget (some cfg) = min (cfg.testcaseCacheMax * cfg.unzipMaxBytes) (2 ^ 63 - 1) := by
  unfold deriveCacheByteBudget
  simp only
  rw [if_neg (by omega)]
  have hpos : 0 < cfg.testcaseCacheMax * cfg.unzipMaxBytes := Int.mul_pos hmax hbytes
  by_cases hover : (2 ^ 63 - 1) / cfg.unzipMaxBytes < cfg.testcaseCacheMax
  · have hlt := (Int.ediv_lt_iff_lt_mul hbytes).mp hover
    rw [if_pos hover, min_eq_right hlt.le]
  · -- the guard keeps the product from wrapping
    have hle := (Int.le_ediv_iff_mul_le hbytes).mp (not_lt.mp hover)
    rw [if_neg hover, min_eq_left hle]
    rw [Int.bmod_eq_of_le] <;> omega

/-- What holds of the cache after any calls of `touchCache`: the map and the list are in step,
the list is ordered by the last access, whatever was removed had expired or had been
touched least recently, and what is left is within the limits. Any further call ends. -/
theorem cache_invariants {t : Int} {m : Manager} (h : Reached lims t m) :
    InStep m ∧ Ordered m ∧ (∀ ev ∈ m.evicted, ev.Right lims) ∧ Within lims m ∧
      ∀ c : Call, t ≤ c.clock 0 → Fits (record m c) →
        ∃ n m', ∀ fuel, n < fuel → touchCache lims fuel m c = some m' := by
  obtain ⟨hinv, hwithin⟩ := h.inv
  refine ⟨hinv.inStep, hinv.ordered, hinv.right, hwithin, ?_⟩
  intro c ht hfits
  obtain ⟨n, m', hall, _⟩ := touchCache_spec hinv ht hfits
  exact ⟨n, m', hall⟩

/-- The archive of a problem is downloaded, at a time. -/
def downloaded (id : String) (now : Int) : Call where
  problemID := utf8 id
  etag := utf8 "e"
  zipPath := utf8 id ++ utf8 ".zip"
  workDir := []
  sizes := ⟨fun _ => 5, fun _ => 0⟩
  clock := fun _ => now
  monotone := monotone_const
  order := ⟨fun l => l, List.Perm.refl⟩

/-- With one entry allowed, the second problem evicts the first. -/
theorem cache_invariants_second :
    ∃ m, (m.present.map CacheEntry.problemID = [utf8 "2"] ∧
        m.evicted.map (·.entry.problemID) = [utf8 "1"]) ∧
      InStep m ∧ Ordered m ∧ Within ⟨0, 0, 1⟩ m := by
  have hfirst : Reached ⟨0, 0, 1⟩ 1 _ :=
    .touch (c := downloaded "1" 1) (.start 1) le_rfl (by unfold Fits; decide) (rfl : touchCache _ 2 _ _ = _) le_rfl
  have hsecond : Reached ⟨0, 0, 1⟩ 2 _ :=
    .touch (c := downloaded "2" 2) hfirst (by decide) (by unfold Fits; decide) (rfl : touchCache _ 3 _ _ = _) le_rfl
  have hall := cache_invariants ⟨0, 0, 1⟩ hsecond
  exact ⟨_, ⟨by decide, by decide⟩, hall.1, hall.2.1, hall.2.2.2.1⟩

end DeepOj.Worker.CacheIndex
