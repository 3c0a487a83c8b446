import Mathlib.Data.List.Basic

/-!
# Regular expressions

The expressions modelled here are made of the two anchors and of repeated classes of
characters. Without flags `$` stands for the end of the text only, not for that of a line.
-/

namespace DeepOj.Go

/-- One piece of an expression. -/
inductive Piece where
  | beginText
  | endText
  /-- A class of characters, at least `lo` and at most `hi` times. -/
  | repeated (cls : Char → Bool) (lo hi : Nat)

/-- The pieces match some beginning of the characters; `front` says that the text begins here. -/
def matchHere : List Piece → Bool → List Char → Bool
  | [], _, _ => true
  | .beginText :: ps, front, cs => front && matchHere ps front cs
  | .endText :: ps, front, cs => cs.isEmpty && matchHere ps front cs
  | .repeated cls lo hi :: ps, front, cs =>
    (List.range (hi + 1)).any fun n =>
      lo ≤ n && n ≤ cs.length && (cs.take n).all cls && matchHere ps (front && n = 0) (cs.drop n)

/-- `MatchString`: the expression matches somewhere. -/
def matchString (ps : List Piece) (cs : List Char) : Bool :=
  (List.range (cs.length + 1)).any fun n => matchHere ps (n = 0) (cs.drop n)

/-- An expression with an anchor in front matches from the beginning. -/
theorem matchString_beginText (ps : List Piece) (cs : List Char) :
    matchString (.beginText :: ps) cs = matchHere ps true cs := by
  rw [Bool.eq_iff_iff]
  unfold matchString
  rw [List.any_eq_true]
  constructor
  · rintro ⟨n, _, hmatch⟩
    rw [matchHere, Bool.and_eq_true, decide_eq_true_iff] at hmatch
    obtain ⟨rfl, hmatch⟩ := hmatch
    exact hmatch
  · intro hmatch
    refine ⟨0, List.mem_range.mpr (Nat.succ_pos _), ?_⟩
    rw [matchHere, Bool.and_eq_true]
    exact ⟨rfl, hmatch⟩

/-- One class between the anchors: the whole text is of the class and of a length allowed. -/
theorem matchString_anchored {cls : Char → Bool} {lo hi : Nat} {cs : List Char} :
    matchString [.beginText, .repeated cls lo hi, .endText] cs = true ↔
      lo ≤ cs.length ∧ cs.length ≤ hi ∧ ∀ c ∈ cs, cls c = true := by
  rw [matchString_beginText, matchHere, List.any_eq_true]
  simp only [matchHere, Bool.and_true, Bool.and_eq_true, decide_eq_true_iff, List.mem_range,
    List.all_eq_true, List.isEmpty_iff, List.drop_eq_nil_iff]
  constructor
  · rintro ⟨n, hhi, ⟨⟨hlo, hlen⟩, hall⟩, hend⟩
    -- nothing is left behind the run, so it is the whole text
    have hn : n = cs.length := by omega
    rw [hn, List.take_length] at hall
    exact ⟨by omega, by omega, hall⟩
  · rintro ⟨hlo, hhi, hall⟩
    refine ⟨cs.length, by omega, ⟨⟨hlo, Nat.le_refl _⟩, ?_⟩, Nat.le_refl _⟩
    rw [List.take_length]
    exact hall

end DeepOj.Go
