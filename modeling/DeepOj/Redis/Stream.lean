import Mathlib.Data.List.Basic
import Mathlib.Logic.Function.Basic
import Mathlib.Tactic.Common

/-!
# Redis streams

A stream with its consumer groups, and the commands on it: `XADD`, `XTRIM`, `XGROUP CREATE`,
`XREADGROUP`, `XAUTOCLAIM` and `XACK`. What a command leaves to the server, such as the id
of a new entry, is an argument.
-/

namespace DeepOj.Redis

/-- An entry of a stream; later entries have greater ids. -/
structure Entry (V : Type) where
  id : Nat
  values : V
  deriving DecidableEq, Repr

/-- An entry that a consumer has been given and has not acknowledged. -/
structure Pending where
  id : Nat
  consumer : String
  deliveredAt : Nat
  deriving DecidableEq, Repr

/-- A consumer group. `acked` is its history: what `XACK` has taken out of the pending
entries list. -/
structure Group where
  lastDelivered : Nat
  pending : List Pending
  acked : List Nat
  deriving DecidableEq, Repr

/-- The ids in the pending entries list. -/
def Group.pendingIDs (g : Group) : List Nat := g.pending.map (·.id)

/-- A stream. -/
structure Stream (V : Type) where
  entries : List (Entry V)
  lastID : Nat
  groups : String → Option Group
  ascending : entries.Pairwise (·.id < ·.id)
  bounded : ∀ e ∈ entries, e.id ≤ lastID
  lastDelivered_le : ∀ name g, groups name = some g → g.lastDelivered ≤ lastID

/-- Where a new group starts: at the first entry of the stream (`0`), or after the last one (`$`). -/
inductive Start where
  | zero
  | dollar
  deriving DecidableEq, Repr

/-- The id after which the group starts. -/
def Start.after (lastID : Nat) : Start → Nat
  | .zero => 0
  | .dollar => lastID

theorem Start.after_le (start : Start) (lastID : Nat) : start.after lastID ≤ lastID := by
  cases start with
  | zero => exact Nat.zero_le lastID
  | dollar => exact Nat.le_refl lastID

variable {V : Type}

namespace Stream

/-- A stream that is made by the first command on it. -/
def empty : Stream V where
  entries := []
  lastID := 0
  groups := fun _ => none
  ascending := .nil
  bounded := fun _ h => nomatch h
  lastDelivered_le := fun _ _ h => nomatch h

/-- Write one group. -/
def setGroup (s : Stream V) (name : String) (g : Group) (h : g.lastDelivered ≤ s.lastID) : Stream V :=
  { s with
    groups := Function.update s.groups name (some g)
    lastDelivered_le := fun name' g' hg' => by
      by_cases hname : name' = name
      · rw [hname, Function.update_self] at hg'
        exact Option.some.inj hg' ▸ h
      · rw [Function.update_of_ne hname] at hg'
        exact s.lastDelivered_le name' g' hg' }

/-- `XADD`. The id is refused unless it is greater than all before it. -/
def xadd (s : Stream V) (id : Nat) (values : V) : Option (Stream V) :=
  if h : s.lastID < id then
    some
      { s with
        entries := s.entries ++ [⟨id, values⟩]
        lastID := id
        ascending := by
          refine List.pairwise_append.mpr ⟨s.ascending, List.pairwise_singleton .., ?_⟩
          intro e he e' he'
          rw [List.mem_singleton.mp he']
          exact Nat.lt_of_le_of_lt (s.bounded e he) h
        bounded := by
          intro e he
          rcases List.mem_append.mp he with he | he
          · exact Nat.le_of_lt (Nat.lt_of_le_of_lt (s.bounded e he) h)
          · obtain rfl := List.mem_singleton.mp he
            exact Nat.le_refl id
        lastDelivered_le := fun name g hg =>
          Nat.le_of_lt (Nat.lt_of_le_of_lt (s.lastDelivered_le name g hg) h) }
  else none

/-- What `MAXLEN ~ maxLen` may remove: the `k` oldest entries, with no fewer than `maxLen` left.
How many they are depends on how the entries are laid out in nodes. -/
def trimmable (s : Stream V) (maxLen k : Nat) : Prop := k ≤ s.entries.length - maxLen

instance (s : Stream V) (maxLen k : Nat) : Decidable (s.trimmable maxLen k) :=
  inferInstanceAs (Decidable (_ ≤ _))

/-- Remove the `k` oldest entries. -/
def dropOldest (s : Stream V) (k : Nat) : Stream V :=
  { s with
    entries := s.entries.drop k
    ascending := s.ascending.sublist (List.drop_sublist k s.entries)
    bounded := fun e he => s.bounded e (List.mem_of_mem_drop he) }

/-- `XTRIM MAXLEN ~`. -/
def xtrim (s : Stream V) (maxLen k : Nat) : Option (Stream V) :=
  if s.trimmable maxLen k then some (s.dropOldest k) else none

/-- `XADD` with `MAXLEN ~` if there is a length, else without. -/
def xaddMaxLen (s : Stream V) (id : Nat) (values : V) (maxLen : Option Nat) (k : Nat) : Option (Stream V) :=
  match maxLen with
  | none => s.xadd id values
  | some maxLen => (s.xadd id values).bind fun s => s.xtrim maxLen k

/-- `XGROUP CREATE … MKSTREAM`; `none` is the error `BUSYGROUP`. -/
def xgroupCreate (s : Stream V) (name : String) (start : Start) : Option (Stream V) :=
  match s.groups name with
  | some _ => none
  | none => some (s.setGroup name ⟨start.after s.lastID, [], []⟩ (start.after_le s.lastID))

/-- The entries that `XREADGROUP >` still has for a group, the oldest first. -/
def deliverable (s : Stream V) (g : Group) : List (Entry V) :=
  s.entries.filter (g.lastDelivered < ·.id)

/-- The id a group has got to when it has been given `es`. -/
def lastOf (lastDelivered : Nat) (es : List (Entry V)) : Nat := (es.map (·.id)).getLastD lastDelivered

theorem lastOf_le {s : Stream V} {lastDelivered : Nat} {es : List (Entry V)} (h : lastDelivered ≤ s.lastID)
    (hes : ∀ e ∈ es, e ∈ s.entries) : lastOf lastDelivered es ≤ s.lastID := by
  unfold lastOf
  rcases List.eq_nil_or_concat es with rfl | ⟨es', e, rfl⟩
  · exact h
  · simp only [List.concat_eq_append, List.map_append, List.map_cons, List.map_nil, List.getLastD_concat]
    exact s.bounded e (hes e (by simp))

/-- What one `XREADGROUP COUNT count` of `>` returns. -/
def batch (s : Stream V) (g : Group) (count : Nat) : List (Entry V) := (s.deliverable g).take count

theorem mem_of_mem_batch {s : Stream V} {g : Group} {count : Nat} {e : Entry V} (h : e ∈ s.batch g count) :
    e ∈ s.entries :=
  List.mem_of_mem_filter (List.mem_of_mem_take h)

/-- `XREADGROUP` of `>`. It is refused when there is no such group. -/
def xreadgroup (s : Stream V) (name consumer : String) (count now : Nat) :
    Option (Stream V × List (Entry V)) :=
  match hg : s.groups name with
  | none => none
  | some g =>
    let es := s.batch g count
    some (s.setGroup name
      { g with
        lastDelivered := lastOf g.lastDelivered es
        pending := g.pending ++ es.map fun e => ⟨e.id, consumer, now⟩ }
      (lastOf_le (s.lastDelivered_le name g hg) fun _ h => mem_of_mem_batch h), es)

/-- `XAUTOCLAIM` takes over the pending entry. -/
def Pending.Idle (p : Pending) (minIdle now : Nat) : Prop := p.deliveredAt + minIdle ≤ now

instance (p : Pending) (minIdle now : Nat) : Decidable (Pending.Idle p minIdle now) :=
  inferInstanceAs (Decidable (_ ≤ _))

/-- The ids of the entries of a stream. -/
def ids (s : Stream V) : List Nat := s.entries.map (·.id)

/-- What `XAUTOCLAIM` does with a pending entry: an idle one is given to the consumer, or leaves the
list if its entry is gone. -/
def claimPending (s : Stream V) (consumer : String) (minIdle now : Nat) (scanned : List Nat) (p : Pending) :
    Option Pending :=
  if p.id ∈ scanned ∧ Pending.Idle p minIdle now then
    if p.id ∈ s.ids then some ⟨p.id, consumer, now⟩ else none
  else some p

/-- `XAUTOCLAIM`, which looks at the pending entries `scanned`. -/
def xautoclaim (s : Stream V) (name consumer : String) (minIdle now : Nat) (scanned : List Nat) :
    Option (Stream V) :=
  match hg : s.groups name with
  | none => none
  | some g =>
    some (s.setGroup name { g with pending := g.pending.filterMap (s.claimPending consumer minIdle now scanned) }
      (s.lastDelivered_le name g hg))

/-- `XACK`. -/
def xack (s : Stream V) (name : String) (acks : List Nat) : Option (Stream V) :=
  match hg : s.groups name with
  | none => none
  | some g =>
    some (s.setGroup name
      { g with
        pending := g.pending.filter (·.id ∉ acks)
        acked := g.pendingIDs.filter (· ∈ acks) ++ g.acked }
      (s.lastDelivered_le name g hg))

/-! ## What the commands do to entries and groups -/

section Spec

variable {s s' : Stream V} {id maxLen k count minIdle now : Nat} {values : V} {name name' consumer : String}
  {start : Start} {es : List (Entry V)} {scanned acks : List Nat} {g : Group}

@[simp] theorem setGroup_self (s : Stream V) (name : String) (g : Group) (h : g.lastDelivered ≤ s.lastID) :
    (s.setGroup name g h).groups name = some g := Function.update_self ..

theorem setGroup_of_ne (h : name' ≠ name) (hg : g.lastDelivered ≤ s.lastID) :
    (s.setGroup name g hg).groups name' = s.groups name' := Function.update_of_ne h ..

theorem xadd_eq_some (h : s.xadd id values = some s') :
    s.lastID < id ∧ s'.entries = s.entries ++ [⟨id, values⟩] ∧ s'.lastID = id ∧ s'.groups = s.groups := by
  unfold xadd at h
  split at h
  · rename_i hid
    cases h
    exact ⟨hid, rfl, rfl, rfl⟩
  · cases h

theorem xtrim_eq_some (h : s.xtrim maxLen k = some s') : s.trimmable maxLen k ∧ s' = s.dropOldest k := by
  unfold xtrim at h
  split at h
  · rename_i hk
    exact ⟨hk, (Option.some.inj h).symm⟩
  · cases h

/-- First the new entry is appended, then old ones are removed. -/
theorem xaddMaxLen_eq_some {maxLen : Option Nat} (h : s.xaddMaxLen id values maxLen k = some s') :
    ∃ s₁, s.xadd id values = some s₁ ∧ (s' = s₁ ∨ ∃ n, maxLen = some n ∧ s₁.xtrim n k = some s') := by
  cases maxLen with
  | none => exact ⟨s', h, .inl rfl⟩
  | some n =>
    obtain ⟨s₁, h₁, h₂⟩ := Option.bind_eq_some_iff.mp h
    exact ⟨s₁, h₁, .inr ⟨n, rfl, h₂⟩⟩

theorem xgroupCreate_eq_some (h : s.xgroupCreate name start = some s') :
    s.groups name = none ∧
      s' = s.setGroup name ⟨start.after s.lastID, [], []⟩ (start.after_le s.lastID) := by
  unfold xgroupCreate at h
  split at h
  · cases h
  · rename_i hnone
    exact ⟨hnone, (Option.some.inj h).symm⟩

theorem xreadgroup_eq_some (h : s.xreadgroup name consumer count now = some (s', es)) :
    ∃ g g' hg', s.groups name = some g ∧ es = s.batch g count ∧ s' = s.setGroup name g' hg' ∧
      g'.lastDelivered = lastOf g.lastDelivered es ∧
      g'.pending = g.pending ++ es.map (fun e => ⟨e.id, consumer, now⟩) ∧ g'.acked = g.acked := by
  unfold xreadgroup at h
  split at h
  · cases h
  · rename_i g hg
    cases h
    exact ⟨g, _, _, hg, rfl, rfl, rfl, rfl, rfl⟩

theorem xautoclaim_eq_some (h : s.xautoclaim name consumer minIdle now scanned = some s') :
    ∃ g g' hg', s.groups name = some g ∧ s' = s.setGroup name g' hg' ∧ g'.lastDelivered = g.lastDelivered ∧
      g'.pending = g.pending.filterMap (s.claimPending consumer minIdle now scanned) ∧ g'.acked = g.acked := by
  unfold xautoclaim at h
  split at h
  · cases h
  · rename_i g hg
    cases h
    exact ⟨g, _, _, hg, rfl, rfl, rfl, rfl⟩

theorem xack_eq_some (h : s.xack name acks = some s') :
    ∃ g g' hg', s.groups name = some g ∧ s' = s.setGroup name g' hg' ∧ g'.lastDelivered = g.lastDelivered ∧
      g'.pending = g.pending.filter (·.id ∉ acks) ∧
      g'.acked = g.pendingIDs.filter (· ∈ acks) ++ g.acked := by
  unfold xack at h
  split at h
  · cases h
  · rename_i g hg
    cases h
    exact ⟨g, _, _, hg, rfl, rfl, rfl, rfl⟩

end Spec

end Stream

/-! ## What a group keeps track of -/

/-- The entry with this id is still to be delivered, is pending, or has been acknowledged. -/
def Group.Tracks (g : Group) (id : Nat) : Prop := g.lastDelivered < id ∨ id ∈ g.pendingIDs ∨ id ∈ g.acked

instance (g : Group) (id : Nat) : Decidable (g.Tracks id) := inferInstanceAs (Decidable (_ ∨ _ ∨ _))

namespace Stream

/-- No entry escapes the group. -/
def Tracked (s : Stream V) (name : String) : Prop :=
  ∀ g, s.groups name = some g → ∀ e ∈ s.entries, g.Tracks e.id

section Tracks

variable {s s' : Stream V} {id maxLen k count minIdle now : Nat} {values : V} {name name' consumer : String}
  {start : Start} {es : List (Entry V)} {scanned acks : List Nat} {g : Group}

/-- In a stream in order, the entries up to the last delivered one have been delivered. -/
theorem mem_batch (he : e ∈ s.entries) (hg : g.lastDelivered < e.id)
    (hlast : e.id ≤ lastOf g.lastDelivered (s.batch g count)) : e ∈ s.batch g count := by
  have hmem : e ∈ s.deliverable g := List.mem_filter.mpr ⟨he, decide_eq_true hg⟩
  have hsorted : (s.deliverable g).Pairwise (·.id < ·.id) := s.ascending.sublist List.filter_sublist
  rw [← List.take_append_drop count (s.deliverable g)] at hmem hsorted
  rcases List.mem_append.mp hmem with hin | hout
  · exact hin
  · exfalso
    have hlt : ∀ x ∈ s.batch g count, x.id < e.id := fun x hx => (List.pairwise_append.mp hsorted).2.2 x hx e hout
    unfold lastOf at hlast
    rcases List.eq_nil_or_concat (s.batch g count) with hnil | ⟨es, x, hes⟩
    · rw [hnil] at hlast
      exact absurd hlast (Nat.not_le.mpr hg)
    · have hx := hlt x (by rw [hes]; simp)
      rw [hes] at hlast
      simp only [List.concat_eq_append, List.map_append, List.map_cons, List.map_nil,
        List.getLastD_concat] at hlast
      omega

/-- A new entry is after all that a group has been given. -/
theorem tracked_xadd (ht : s.Tracked name) (h : s.xadd id values = some s') : s'.Tracked name := by
  obtain ⟨hid, hentries, _, hgroups⟩ := xadd_eq_some h
  intro g hg e he
  rw [hgroups] at hg
  rw [hentries] at he
  rcases List.mem_append.mp he with he | he
  · exact ht g hg e he
  · rw [List.mem_singleton.mp he]
    exact .inl (Nat.lt_of_le_of_lt (s.lastDelivered_le name g hg) hid)

theorem tracked_xtrim (ht : s.Tracked name) (h : s.xtrim maxLen k = some s') : s'.Tracked name := by
  obtain ⟨_, rfl⟩ := xtrim_eq_some h
  intro g hg e he
  exact ht g hg e (List.mem_of_mem_drop he)

theorem tracked_xaddMaxLen {maxLen : Option Nat} (ht : s.Tracked name)
    (h : s.xaddMaxLen id values maxLen k = some s') : s'.Tracked name := by
  obtain ⟨s₁, h₁, rfl | ⟨n, _, h₂⟩⟩ := xaddMaxLen_eq_some h
  · exact tracked_xadd ht h₁
  · exact tracked_xtrim (tracked_xadd ht h₁) h₂

/-- A command on one group leaves the others alone. -/
theorem tracked_setGroup (ht : s.Tracked name) (hg : g.lastDelivered ≤ s.lastID)
    (hself : name = name' → ∀ e ∈ s.entries, g.Tracks e.id) : (s.setGroup name' g hg).Tracked name := by
  intro g' hg' e he
  by_cases hname : name = name'
  · subst hname
    rw [setGroup_self] at hg'
    exact Option.some.inj hg' ▸ hself rfl e he
  · rw [setGroup_of_ne hname] at hg'
    exact ht g' hg' e he

/-- The group gets to the last entry of the batch. -/
theorem le_lastOf {lastDelivered : Nat} (h : es.Pairwise (·.id < ·.id)) (hes : ∀ e ∈ es, lastDelivered < e.id) :
    lastDelivered ≤ lastOf lastDelivered es := by
  unfold lastOf
  rcases List.eq_nil_or_concat es with rfl | ⟨es', e, rfl⟩
  · exact Nat.le_refl lastDelivered
  · simp only [List.concat_eq_append, List.map_append, List.map_cons, List.map_nil, List.getLastD_concat]
    exact Nat.le_of_lt (hes e (by simp))

/-- A command on the group `name` after which the group keeps track of the same entries. -/
def Keeps (s s' : Stream V) (name : String) : Prop :=
  ∃ g g' hg', s.groups name = some g ∧ s' = s.setGroup name g' hg' ∧
    (∀ id, g'.Tracks id → g.Tracks id) ∧ ∀ e ∈ s.entries, g.Tracks e.id → g'.Tracks e.id

theorem keeps_xreadgroup (h : s.xreadgroup name consumer count now = some (s', es)) : s.Keeps s' name := by
  obtain ⟨g, g', hg', hg, rfl, rfl, hlast, hpending, hacked⟩ := xreadgroup_eq_some h
  have hids : g'.pendingIDs = g.pendingIDs ++ (s.batch g count).map (·.id) := by
    simp [Group.pendingIDs, hpending]
  have hnew : ∀ x ∈ s.batch g count, g.lastDelivered < x.id := fun x hx =>
    of_decide_eq_true (List.mem_filter.mp (List.mem_of_mem_take hx)).2
  have hle : g.lastDelivered ≤ g'.lastDelivered := by
    rw [hlast]
    exact le_lastOf (s.ascending.sublist ((List.take_sublist ..).trans List.filter_sublist)) hnew
  refine ⟨g, g', hg', hg, rfl, ?_, ?_⟩
  · intro id h
    unfold Group.Tracks at h ⊢
    rw [hacked, hids, List.mem_append] at h
    rcases h with h | (h | h) | h
    · exact .inl (Nat.lt_of_le_of_lt hle h)
    · exact .inr (.inl h)
    · obtain ⟨x, hx, rfl⟩ := List.mem_map.mp h
      exact .inl (hnew x hx)
    · exact .inr (.inr h)
  · intro e he h
    unfold Group.Tracks at h ⊢
    rw [hacked, hids, List.mem_append]
    rcases h with h | h | h
    · -- Delivered now, or still ahead of the group.
      by_cases hlt : g'.lastDelivered < e.id
      · exact .inl hlt
      · have hmem := mem_batch he h (hlast ▸ Nat.not_lt.mp hlt)
        exact .inr (.inl (.inr (List.mem_map_of_mem hmem)))
    · exact .inr (.inl (.inl h))
    · exact .inr (.inr h)

theorem id_of_claimPending {p p' : Pending} (h : s.claimPending consumer minIdle now scanned p = some p') :
    p'.id = p.id := by
  unfold claimPending at h
  split at h
  · split at h
    · cases h
      rfl
    · cases h
  · cases h
    rfl

/-- `XAUTOCLAIM` drops only what is not in the stream. -/
theorem claimPending_ne_none {p : Pending} (hid : p.id ∈ s.ids) :
    ∃ p', s.claimPending consumer minIdle now scanned p = some p' ∧ p'.id = p.id := by
  by_cases hscan : p.id ∈ scanned ∧ Pending.Idle p minIdle now
  · exact ⟨⟨p.id, consumer, now⟩, by rw [claimPending, if_pos hscan, if_pos hid], rfl⟩
  · exact ⟨p, by rw [claimPending, if_neg hscan], rfl⟩

theorem keeps_xautoclaim (h : s.xautoclaim name consumer minIdle now scanned = some s') : s.Keeps s' name := by
  obtain ⟨g, g', hg', hg, rfl, hlast, hpending, hacked⟩ := xautoclaim_eq_some h
  refine ⟨g, g', hg', hg, rfl, ?_, ?_⟩
  · intro id
    unfold Group.Tracks Group.pendingIDs
    rw [hlast, hacked, hpending]
    refine Or.imp_right (Or.imp_left fun hid => ?_)
    obtain ⟨p', hp', rfl⟩ := List.mem_map.mp hid
    obtain ⟨p, hp, hclaim⟩ := List.mem_filterMap.mp hp'
    exact id_of_claimPending hclaim ▸ List.mem_map_of_mem hp
  · intro e he
    unfold Group.Tracks Group.pendingIDs
    rw [hlast, hacked, hpending]
    refine Or.imp_right (Or.imp_left fun hid => ?_)
    obtain ⟨p, hp, hpid⟩ := List.mem_map.mp hid
    obtain ⟨p', hclaim, hp'⟩ := claimPending_ne_none (hpid ▸ List.mem_map_of_mem he : p.id ∈ s.ids)
    exact List.mem_map.mpr ⟨p', List.mem_filterMap.mpr ⟨p, hp, hclaim⟩, hp'.trans hpid⟩

theorem keeps_xack (h : s.xack name acks = some s') : s.Keeps s' name := by
  obtain ⟨g, g', hg', hg, rfl, hlast, hpending, hacked⟩ := xack_eq_some h
  have hids : g'.pendingIDs = g.pendingIDs.filter (· ∉ acks) := by
    simp [Group.pendingIDs, hpending, List.filter_map, Function.comp_def]
  have htracks : ∀ id, g'.Tracks id ↔ g.Tracks id := by
    intro id
    unfold Group.Tracks
    rw [hlast, hacked, hids, List.mem_append, List.mem_filter, List.mem_filter]
    by_cases hack : id ∈ acks <;> simp [hack]
  exact ⟨g, g', hg', hg, rfl, fun id => (htracks id).mp, fun e _ => (htracks e.id).mpr⟩

theorem tracked_keeps (ht : s.Tracked name) (h : s.Keeps s' name') : s'.Tracked name := by
  obtain ⟨g, g', hg', hg, rfl, _, htracks⟩ := h
  refine tracked_setGroup ht hg' fun hname e he => htracks e he ?_
  subst hname
  exact ht g hg e he

/-- A new group keeps track of the stream just when it starts before the first entry. -/
theorem tracked_xgroupCreate (h : s.xgroupCreate name start = some s') :
    s'.Tracked name ↔ ∀ e ∈ s.entries, start.after s.lastID < e.id := by
  obtain ⟨_, rfl⟩ := xgroupCreate_eq_some h
  constructor
  · intro ht e he
    rcases ht _ (setGroup_self ..) e he with hlt | hmem | hmem
    · exact hlt
    · exact nomatch hmem
    · exact nomatch hmem
  · intro hall g hg e he
    rw [setGroup_self] at hg
    exact Option.some.inj hg ▸ .inl (hall e he)

/-- A group created with `$` keeps track of the stream just when there is nothing in it. -/
theorem tracked_dollar (h : s.xgroupCreate name .dollar = some s') : s'.Tracked name ↔ s.entries = [] := by
  rw [tracked_xgroupCreate h]
  constructor
  · intro hall
    refine List.eq_nil_iff_forall_not_mem.mpr fun e he => ?_
    exact absurd (hall e he) (Nat.not_lt.mpr (s.bounded e he))
  · rintro hnil e he
    rw [hnil] at he
    exact nomatch he

/-! ## What a group has missed -/

/-- The group exists, and `P` holds of it. -/
def HasGroup (s : Stream V) (name : String) (P : Group → Prop) : Prop := ∃ g, s.groups name = some g ∧ P g

instance (s : Stream V) (name : String) (P : Group → Prop) [DecidablePred P] : Decidable (s.HasGroup name P) :=
  match h : s.groups name with
  | none => isFalse fun ⟨_, hg, _⟩ => by rw [h] at hg; cases hg
  | some g =>
    decidable_of_iff (P g)
      ⟨fun hp => ⟨g, h, hp⟩, fun ⟨g', hg, hp⟩ => by rw [h] at hg; exact Option.some.inj hg ▸ hp⟩

section HasGroup

variable {P : Group → Prop} {g' : Group}

theorem HasGroup.of_groups (hP : s.HasGroup name P) (h : s'.groups = s.groups) : s'.HasGroup name P := by
  obtain ⟨g, hg, hp⟩ := hP
  exact ⟨g, h ▸ hg, hp⟩

theorem HasGroup.setGroup (hP : s.HasGroup name P) (hg : s.groups name' = some g)
    (hg' : g'.lastDelivered ≤ s.lastID) (h : P g → P g') : (s.setGroup name' g' hg').HasGroup name P := by
  obtain ⟨g₁, hg₁, hp⟩ := hP
  by_cases hname : name = name'
  · subst hname
    rw [hg] at hg₁
    cases hg₁
    exact ⟨g', setGroup_self .., h hp⟩
  · exact ⟨g₁, by rw [setGroup_of_ne hname, hg₁], hp⟩

/-- A group that exists is not created again. -/
theorem HasGroup.xgroupCreate (hP : s.HasGroup name P) (h : s.xgroupCreate name' start = some s') :
    s'.HasGroup name P := by
  obtain ⟨g, hg, hp⟩ := hP
  obtain ⟨hnone, rfl⟩ := xgroupCreate_eq_some h
  have hname : name ≠ name' := by
    rintro rfl
    rw [hg] at hnone
    cases hnone
  exact ⟨g, by rw [setGroup_of_ne hname, hg], hp⟩

end HasGroup

theorem groups_xaddMaxLen {maxLen : Option Nat} (h : s.xaddMaxLen id values maxLen k = some s') :
    s'.groups = s.groups := by
  obtain ⟨s₁, h₁, rfl | ⟨n, _, h₂⟩⟩ := xaddMaxLen_eq_some h
  · exact (xadd_eq_some h₁).2.2.2
  · obtain ⟨_, rfl⟩ := xtrim_eq_some h₂
    exact (xadd_eq_some h₁).2.2.2

theorem groups_xtrim (h : s.xtrim maxLen k = some s') : s'.groups = s.groups := by
  obtain ⟨_, rfl⟩ := xtrim_eq_some h
  rfl

/-- The group exists and does not keep track of the entry. -/
def Missed (s : Stream V) (name : String) (id : Nat) : Prop := s.HasGroup name fun g => ¬g.Tracks id

theorem Missed.keeps (hm : s.Missed name id) (h : s.Keeps s' name') : s'.Missed name id := by
  obtain ⟨g, g', hg', hg, rfl, htracks, _⟩ := h
  exact HasGroup.setGroup hm hg hg' fun hid h => hid (htracks id h)

/-- A group created with `$` misses every entry that is in the stream. -/
theorem missed_dollar (h : s.xgroupCreate name .dollar = some s') {e : Entry V} (he : e ∈ s.entries) :
    s'.Missed name e.id := by
  obtain ⟨_, rfl⟩ := xgroupCreate_eq_some h
  refine ⟨_, setGroup_self .., ?_⟩
  rintro (hlt | hmem | hmem)
  · exact Nat.not_lt.mpr (s.bounded e he) hlt
  · exact nomatch hmem
  · exact nomatch hmem

end Tracks

/-! ## Acknowledged and removed entries -/

/-- The entry has been acknowledged in the group. -/
def Acked (s : Stream V) (name : String) (id : Nat) : Prop := s.HasGroup name (id ∈ ·.acked)

instance (s : Stream V) (name : String) (id : Nat) : Decidable (s.Acked name id) :=
  inferInstanceAs (Decidable (s.HasGroup name _))

section Acked

variable {s s' : Stream V} {id maxLen k count minIdle now : Nat} {values : V} {name name' consumer : String}
  {es : List (Entry V)} {scanned acks : List Nat} {e : Entry V}

theorem Acked.xreadgroup (ha : s.Acked name id) (h : s.xreadgroup name' consumer count now = some (s', es)) :
    s'.Acked name id := by
  obtain ⟨g, g', hg', hg, _, rfl, _, _, hacked⟩ := xreadgroup_eq_some h
  exact HasGroup.setGroup ha hg hg' fun hid => hacked ▸ hid

theorem Acked.xautoclaim (ha : s.Acked name id) (h : s.xautoclaim name' consumer minIdle now scanned = some s') :
    s'.Acked name id := by
  obtain ⟨g, g', hg', hg, rfl, _, _, hacked⟩ := xautoclaim_eq_some h
  exact HasGroup.setGroup ha hg hg' fun hid => hacked ▸ hid

theorem Acked.xack (ha : s.Acked name id) (h : s.xack name' acks = some s') : s'.Acked name id := by
  obtain ⟨g, g', hg', hg, rfl, _, _, hacked⟩ := xack_eq_some h
  exact HasGroup.setGroup ha hg hg' fun hid => hacked ▸ List.mem_append_right _ hid

/-- What a trim removes is among the oldest entries. -/
theorem mem_take_of_dropped (he : e ∈ s.entries) (h : e.id ∉ (s.dropOldest k).ids) : e ∈ s.entries.take k := by
  rw [← List.take_append_drop k s.entries] at he
  rcases List.mem_append.mp he with he | he
  · exact he
  · exact absurd (List.mem_map_of_mem he) h

theorem mem_take_of_xtrim (h : s.xtrim maxLen k = some s') (he : e ∈ s.entries) (hgone : e.id ∉ s'.ids) :
    e ∈ s.entries.take (s.entries.length - maxLen) := by
  obtain ⟨hk, rfl⟩ := xtrim_eq_some h
  exact (List.take_sublist_take_left hk).subset (mem_take_of_dropped he hgone)

/-- `XADD MAXLEN ~` removes none of the newest entries, the one it appends being the newest. -/
theorem mem_take_of_xaddMaxLen (h : s.xaddMaxLen id values (some maxLen) k = some s') (hmax : 0 < maxLen)
    (he : e ∈ s.entries) (hgone : e.id ∉ s'.ids) : e ∈ s.entries.take (s.entries.length + 1 - maxLen) := by
  obtain ⟨s₁, h₁, h₂⟩ := Option.bind_eq_some_iff.mp h
  obtain ⟨_, hentries, _⟩ := xadd_eq_some h₁
  have hmem := mem_take_of_xtrim h₂ (hentries ▸ List.mem_append_left _ he) hgone
  rw [hentries, List.length_append, List.length_singleton] at hmem
  have hle : s.entries.length + 1 - maxLen ≤ s.entries.length := by omega
  rwa [List.take_append_of_le_length hle] at hmem

end Acked

end Stream

end DeepOj.Redis
