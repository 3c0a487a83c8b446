import DeepOj.Go.Strings
import Mathlib.Data.Finset.Card
import Mathlib.Order.Interval.Finset.Nat

/-!
# Scanning with `XAUTOCLAIM`

A reply names the id from which the next call is to go on. What a chain of such calls
visits, whatever happens to the pending entries in between.
-/

namespace DeepOj.Redis

/-- An entry in the pending entries list at the time of a call. -/
structure PelEntry where
  id : Nat
  /-- For how long nobody has claimed it. -/
  idle : Int
  /-- It is still in the stream. -/
  there : Bool
  deriving DecidableEq, Repr

/-- The text `ms-seq` of an id, which is `ms * 2 ^ 64 + seq`. -/
def idText (id : Nat) : String := toString (id / 2 ^ 64) ++ "-" ++ toString (id % 2 ^ 64)

/-- The call claims this entry when it comes to it. -/
def PelEntry.claimable (minIdle : Int) (e : PelEntry) : Bool := minIdle ≤ e.idle && e.there

/-- What `XAUTOCLAIM` does with a list of pending entries in the order of their ids: it scans the
entries from `start` on, at least one if there is one, and stops where it likes. It claims at most
`count`. The next id is past what was scanned and not past what was not, or 0 if nothing is left. -/
structure AutoClaims (pel : List PelEntry) (minIdle : Int) (start count : Nat) (claimed : List Nat)
    (next : Nat) : Prop where
  sorted : pel.Pairwise (·.id < ·.id)
  scan : ∃ scanned rest, pel.filter (start ≤ ·.id) = scanned ++ rest ∧
    claimed = (scanned.filter (PelEntry.claimable minIdle)).map PelEntry.id ∧
    (rest = [] → next = 0) ∧
    ∀ e ∈ rest.head?, scanned ≠ [] ∧ (∀ s ∈ scanned, s.id < next) ∧ next ≤ e.id
  few : claimed.length ≤ count

/-! ## The measure of a scan -/

/-- The ids of a set from a start on. -/
def ahead (U : Finset Nat) (start : Nat) : Nat := (U.filter (start ≤ ·)).card

section Scan

variable {U : Finset Nat} {pel : List PelEntry} {minIdle : Int} {start count next x : Nat}
  {claimed : List Nat}

theorem ahead_le (U : Finset Nat) (start : Nat) : ahead U start ≤ U.card :=
  Finset.card_filter_le _ _

/-- A start past one of the ids has fewer ahead. -/
theorem ahead_lt {y : Nat} (hy : y ∈ U) (hstart : start ≤ y) (hnext : y < next) :
    ahead U next < ahead U start := by
  refine Finset.card_lt_card (Finset.ssubset_iff_of_subset ?_ |>.mpr ⟨y, ?_, ?_⟩)
  · intro z hz
    rw [Finset.mem_filter] at hz ⊢
    exact ⟨hz.1, hstart.trans (hnext.le.trans hz.2)⟩
  · exact Finset.mem_filter.mpr ⟨hy, hstart⟩
  · rw [Finset.mem_filter, not_and]
    intro _
    omega

theorem ahead_lt_card (hx : x ∈ U) (hlt : x < start) : ahead U start < U.card := by
  have hall : ahead U 0 = U.card := by
    unfold ahead
    rw [Finset.filter_true_of_mem]
    simp
  rw [← hall]
  exact ahead_lt hx (Nat.zero_le x) hlt

/-- A call that does not come to the end leaves fewer ids ahead. -/
theorem AutoClaims.ahead_next (h : AutoClaims pel minIdle start count claimed next)
    (hU : ∀ e ∈ pel, e.id ∈ U) (hnext : next ≠ 0) : start < next ∧ ahead U next < ahead U start := by
  obtain ⟨scanned, rest, hsplit, -, hend, hhead⟩ := h.scan
  cases rest with
  | nil => exact absurd (hend rfl) hnext
  | cons e rest =>
    obtain ⟨hne, hpast, -⟩ := hhead e rfl
    obtain ⟨s, scanned, rfl⟩ := List.exists_cons_of_ne_nil hne
    -- the first entry that was scanned is left behind
    have hmem : s ∈ pel.filter (start ≤ ·.id) := by
      rw [hsplit]
      simp
    obtain ⟨hs, hstart⟩ := List.mem_filter.mp hmem
    have hstart : start ≤ s.id := of_decide_eq_true hstart
    have hlt := hpast s List.mem_cons_self
    exact ⟨by omega, ahead_lt (hU s hs) hstart hlt⟩

/-- What a chain of calls still has to go through until it comes to an id. -/
def distance (U : Finset Nat) (x start : Nat) : Nat :=
  if start ≤ x then ahead U start - 1 else ahead U start + U.card

/-- The call either claims an entry that it could claim, or comes nearer to it. -/
theorem AutoClaims.nearer (h : AutoClaims pel minIdle start count claimed next)
    (hU : ∀ e ∈ pel, e.id ∈ U) {e : PelEntry} (he : e ∈ pel) (hclaim : e.claimable minIdle = true)
    (hnot : e.id ∉ claimed) : distance U e.id next < distance U e.id start := by
  have hx : e.id ∈ U := hU e he
  have hcard : 0 < U.card := Finset.card_pos.mpr ⟨_, hx⟩
  unfold distance
  by_cases hstart : start ≤ e.id
  · -- the entry is ahead, so it is in what was not scanned
    obtain ⟨scanned, rest, hsplit, hclaimed, -, hhead⟩ := h.scan
    have hmem : e ∈ scanned ++ rest := by
      rw [← hsplit]
      exact List.mem_filter.mpr ⟨he, by simpa using hstart⟩
    have hrest : e ∈ rest := by
      refine (List.mem_append.mp hmem).resolve_left fun hscanned => hnot ?_
      rw [hclaimed]
      exact List.mem_map_of_mem (List.mem_filter.mpr ⟨hscanned, hclaim⟩)
    have hsorted : (scanned ++ rest).Pairwise (·.id < ·.id) := hsplit ▸ h.sorted.filter _
    cases rest with
    | nil => cases hrest
    | cons r rest =>
      obtain ⟨hne, hpast, hle⟩ := hhead r rfl
      have hre : r.id ≤ e.id := by
        rcases List.mem_cons.mp hrest with rfl | hlater
        · exact le_rfl
        · exact (List.rel_of_pairwise_cons (List.pairwise_append.mp hsorted).2.1 hlater).le
      obtain ⟨s, hs⟩ := List.exists_mem_of_ne_nil scanned hne
      have hnext : next ≠ 0 := Nat.ne_of_gt (Nat.lt_of_le_of_lt (Nat.zero_le _) (hpast s hs))
      have hless := (h.ahead_next hU hnext).2
      have hahead : 0 < ahead U next :=
        Finset.card_pos.mpr ⟨_, Finset.mem_filter.mpr ⟨hx, hle.trans hre⟩⟩
      rw [if_pos hstart, if_pos (hle.trans hre)]
      omega
  · rw [if_neg hstart]
    by_cases hnext : next = 0
    · -- the chain starts over
      subst hnext
      have hall := ahead_le U 0
      rw [if_pos (Nat.zero_le _)]
      omega
    · have hless := h.ahead_next hU hnext
      rw [if_neg (by omega)]
      omega

theorem distance_lt (hx : x ∈ U) (start : Nat) : distance U x start < 2 * U.card := by
  have hcard : 0 < U.card := Finset.card_pos.mpr ⟨x, hx⟩
  have hle := ahead_le U start
  unfold distance
  by_cases hstart : start ≤ x
  · rw [if_pos hstart]
    omega
  · have hlt := ahead_lt_card hx (not_le.mp hstart)
    rw [if_neg hstart]
    omega

end Scan

/-! ## The text of an id -/

theorem toList_idText (id : Nat) :
    (idText id).toList = Nat.toDigits 10 (id / 2 ^ 64) ++ '-' :: Nat.toDigits 10 (id % 2 ^ 64) := by
  simp [idText]

theorem dash_notMem_toDigits (n : Nat) : '-' ∉ Nat.toDigits 10 n := by
  intro hmem
  have hdigit := Nat.isDigit_of_mem_toDigits (by decide) (by decide) hmem
  revert hdigit
  decide

theorem toDigits_inj {m n : Nat} (h : Nat.toDigits 10 m = Nat.toDigits 10 n) : m = n := by
  rw [← Nat.ofDigitChars_ten_toDigits (n := m), h, Nat.ofDigitChars_ten_toDigits]

/-- The text tells the id. -/
theorem idText_inj {m n : Nat} (h : idText m = idText n) : m = n := by
  have hlist := congrArg String.toList h
  rw [toList_idText, toList_idText,
    List.append_cons_inj_of_notMem (dash_notMem_toDigits _) (dash_notMem_toDigits _)] at hlist
  have hhigh := toDigits_inj hlist.1
  have hlow := toDigits_inj hlist.2.2
  omega

theorem idText_ne_empty (n : Nat) : idText n ≠ "" := by
  intro h
  have hlist := congrArg String.toList h
  rw [toList_idText] at hlist
  simp at hlist

/-- The text of an id is not blank: it has a dash. -/
theorem trimSpace_idText (n : Nat) : Go.trimSpace (idText n) ≠ "" := by
  have hdash : '-' ∈ (idText n).toList := by
    rw [toList_idText]
    simp
  rw [← List.takeWhile_append_dropWhile (p := Go.isSpace) (l := (idText n).toList), List.mem_append] at hdash
  have hkept : '-' ∈ (idText n).toList.dropWhile Go.isSpace := by
    refine hdash.resolve_left fun hspace => ?_
    have hall := List.mem_takeWhile_imp hspace
    revert hall
    decide
  intro h
  have hnil := congrArg String.toList h
  rw [Go.trimSpace, String.toList_ofList] at hnil
  have hall := List.rdropWhile_eq_nil_iff.mp hnil '-' hkept
  revert hall
  decide

end DeepOj.Redis
