import DeepOj.Go.Filepath
import Mathlib.Algebra.Order.Group.Nat

/-!
# `filepath.Clean`

A path text is rooted or relative. `Clean` drops empty components and dots, and
lets `..` cancel the component before it; the `..` that are left stand in front.
-/

namespace DeepOj.Go

def dot : Bytes := utf8 "."
def dotDot : Bytes := utf8 ".."

/-- The text begins at the root. -/
def isRooted (p : Bytes) : Bool := p.head? = some slash

/-- What one component does to the clean components before it. -/
def cleanPush (rooted : Bool) (out : List Bytes) (comp : Bytes) : List Bytes :=
  if comp = [] ∨ comp = dot then out
  else if comp = dotDot then
    if out = [] ∨ out.getLast? = some dotDot then if rooted then out else out ++ [dotDot]
    else out.dropLast
  else out ++ [comp]

/-- The components of the clean path. -/
def components (p : Bytes) : List Bytes := (p.splitOn slash).foldl (cleanPush (isRooted p)) []

/-- The text of clean components. -/
def cleanText (rooted : Bool) (out : List Bytes) : Bytes :=
  if rooted then slash :: [slash].intercalate out
  else if out = [] then dot else [slash].intercalate out

/-- `filepath.Clean`. -/
def clean (p : Bytes) : Bytes := cleanText (isRooted p) (components p)

/-- `filepath.Join(dir, name)`. -/
def joinPath (dir name : Bytes) : Bytes :=
  if dir ≠ [] then clean (dir ++ slash :: name) else if name ≠ [] then clean name else []

/-- Where a path text leads from the working directory. -/
def locate (cwd : Path) (p : Bytes) : Path :=
  (components p).foldl push (if isRooted p then [] else cwd)

/-! ## Clean components -/

/-- A component that stands for a name. -/
structure Ordinary (comp : Bytes) : Prop where
  nonempty : comp ≠ []
  notDot : comp ≠ dot
  notDotDot : comp ≠ dotDot
  noSlash : slash ∉ comp

/-- What `Clean` leaves: no empty components, no dots, and `..` in front only, below no root. -/
structure Normal (rooted : Bool) (out : List Bytes) : Prop where
  comp : ∀ c ∈ out, c = dotDot ∨ Ordinary c
  root : rooted = true → dotDot ∉ out
  front : out.Pairwise fun a b => b = dotDot → a = dotDot

section Components

variable {rooted : Bool} {out rest : List Bytes} {c : Bytes} {cwd base : Path} {dir name p : Bytes}

theorem Normal.noSlash (h : Normal rooted out) : ∀ c ∈ out, slash ∉ c := by
  intro c hc
  rcases h.comp c hc with rfl | hord
  · decide
  · exact hord.noSlash

theorem Normal.append (h : Normal rooted out) (hc : c = dotDot ∨ Ordinary c)
    (hroot : rooted = true → c ≠ dotDot) (hfront : c = dotDot → ∀ a ∈ out, a = dotDot) :
    Normal rooted (out ++ [c]) where
  comp a ha := by
    rcases List.mem_append.mp ha with ha | ha
    · exact h.comp a ha
    · rw [List.mem_singleton.mp ha]
      exact hc
  root hr ha := by
    rcases List.mem_append.mp ha with ha | ha
    · exact h.root hr ha
    · exact hroot hr (List.mem_singleton.mp ha).symm
  front := by
    refine List.pairwise_append.mpr ⟨h.front, by simp, ?_⟩
    intro a ha b hb hdots
    rw [List.mem_singleton] at hb
    exact hfront (hb ▸ hdots) a ha

/-- Every component keeps the normal form. -/
theorem Normal.push (h : Normal rooted out) (hc : slash ∉ c) :
    Normal rooted (cleanPush rooted out c) := by
  unfold cleanPush
  by_cases hskip : c = [] ∨ c = dot
  · rw [if_pos hskip]
    exact h
  rw [if_neg hskip]
  rw [not_or] at hskip
  by_cases hdots : c = dotDot
  · rw [if_pos hdots]
    by_cases hlast : out = [] ∨ out.getLast? = some dotDot
    · rw [if_pos hlast]
      cases rooted with
      | true => exact h
      | false =>
        refine h.append (.inl rfl) (by simp) ?_
        intro _ a ha
        rcases hlast with rfl | hlast
        · cases ha
        · -- the last one is `..`, so all before it are
          obtain ⟨front, rfl⟩ := List.getLast?_eq_some_iff.mp hlast
          rcases List.mem_append.mp ha with ha | ha
          · exact (List.pairwise_append.mp h.front).2.2 a ha dotDot (by simp) rfl
          · exact List.mem_singleton.mp ha
    · rw [if_neg hlast]
      have hsub := List.dropLast_sublist out
      exact ⟨fun a ha => h.comp a (hsub.subset ha), fun hr ha => h.root hr (hsub.subset ha),
        h.front.sublist hsub⟩
  · rw [if_neg hdots]
    exact h.append (.inr ⟨hskip.1, hskip.2, hdots, hc⟩) (fun _ => hdots) fun heq => absurd heq hdots

theorem noSlash_splitOn (p : Bytes) : ∀ c ∈ p.splitOn slash, slash ∉ c := by
  induction p with
  | nil => simp [List.splitOn_nil]
  | cons b p ih =>
    rw [List.splitOn_cons_eq_if_modifyHead]
    by_cases hb : b == slash
    · rw [if_pos hb]
      intro c hc
      rcases List.mem_cons.mp hc with rfl | hc
      · simp
      · exact ih c hc
    · rw [if_neg hb]
      have hne : slash ≠ b := by
        rintro rfl
        simp at hb
      cases hs : p.splitOn slash with
      | nil => simp
      | cons d ds =>
        rw [hs] at ih
        intro c hc
        rcases List.mem_cons.mp hc with rfl | hc
        · have hd := ih d List.mem_cons_self
          simp [hne, hd]
        · exact ih c (List.mem_cons_of_mem _ hc)

theorem normal_foldl (h : Normal rooted out) (hs : ∀ c ∈ rest, slash ∉ c) :
    Normal rooted (rest.foldl (cleanPush rooted) out) := by
  induction rest generalizing out with
  | nil => exact h
  | cons c rest ih =>
    exact ih (h.push (hs c List.mem_cons_self)) fun c hc => hs c (List.mem_cons_of_mem _ hc)

theorem normal_components (p : Bytes) : Normal (isRooted p) (components p) :=
  normal_foldl ⟨by simp, by simp, by simp⟩ (noSlash_splitOn p)

/-! ## The text of a clean path -/

theorem splitOn_cleanText (h : Normal rooted out) (hne : out ≠ []) :
    (cleanText rooted out).splitOn slash = if rooted then [] :: out else out := by
  have hsplit : ([slash].intercalate out).splitOn slash = out :=
    List.splitOn_intercalate slash h.noSlash hne
  unfold cleanText
  cases rooted with
  | true =>
    simp only [if_true, List.splitOn_cons_eq_if_modifyHead, beq_self_eq_true, hsplit]
  | false => simp only [Bool.false_eq_true, if_false, if_neg hne, hsplit]

theorem splitOn_cleanText_nil (rooted : Bool) :
    (cleanText rooted []).splitOn slash = if rooted then [[], []] else [dot] := by
  cases rooted <;> decide

theorem isRooted_cleanText (h : Normal rooted out) : isRooted (cleanText rooted out) = rooted := by
  unfold cleanText
  cases rooted with
  | true => rfl
  | false =>
    by_cases hnil : out = []
    · subst hnil
      decide
    · obtain ⟨c, rest, rfl⟩ := List.exists_cons_of_ne_nil hnil
      -- the first byte is that of a component, which is not empty and has no slash
      have hne : c ≠ [] := by
        rcases h.comp c List.mem_cons_self with rfl | hord
        · decide
        · exact hord.nonempty
      obtain ⟨b, c, rfl⟩ := List.exists_cons_of_ne_nil hne
      have hslash := h.noSlash _ List.mem_cons_self
      have hb : b ≠ slash := by
        rintro rfl
        simp at hslash
      cases rest <;> simpa [isRooted, List.intercalate] using hb

/-- Clean components are kept as they are. -/
theorem foldl_cleanPush (h : Normal rooted (out ++ rest)) :
    rest.foldl (cleanPush rooted) out = out ++ rest := by
  induction rest generalizing out with
  | nil => simp
  | cons c rest ih =>
    have hpush : cleanPush rooted out c = out ++ [c] := by
      unfold cleanPush
      rcases h.comp c (by simp) with rfl | hord
      · have hroot : rooted = false := by
          by_contra hr
          exact h.root (by simpa using hr) (by simp)
        have hfront : out = [] ∨ out.getLast? = some dotDot := by
          rcases List.eq_nil_or_concat out with rfl | ⟨front, a, rfl⟩
          · exact .inl rfl
          · right
            have ha := (List.pairwise_append.mp h.front).2.2 a (by simp) dotDot (by simp) rfl
            simp [ha]
        rw [if_neg (by decide), if_pos rfl, if_pos hfront, hroot]
        simp
      · rw [if_neg (by simp [hord.nonempty, hord.notDot]), if_neg hord.notDotDot]
    rw [List.foldl_cons, hpush, ih (by simpa using h)]
    simp

/-- Cleaning a clean path changes nothing. -/
theorem components_cleanText (h : Normal rooted out) : components (cleanText rooted out) = out := by
  unfold components
  rw [isRooted_cleanText h]
  by_cases hnil : out = []
  · subst hnil
    rw [splitOn_cleanText_nil]
    cases rooted <;> decide
  · have hfold : out.foldl (cleanPush rooted) [] = out := foldl_cleanPush (by simpa using h)
    rw [splitOn_cleanText h hnil]
    cases rooted with
    | true => simpa [cleanPush] using hfold
    | false => simpa using hfold

/-- The components of a path below another one. -/
theorem components_joinPath (name : Bytes) (hdir : dir ≠ []) :
    isRooted (dir ++ slash :: name) = isRooted dir ∧
      components (dir ++ slash :: name) =
        (name.splitOn slash).foldl (cleanPush (isRooted dir)) (components dir) := by
  have hroot : isRooted (dir ++ slash :: name) = isRooted dir := by
    cases dir with
    | nil => exact absurd rfl hdir
    | cons b dir => rfl
  refine ⟨hroot, ?_⟩
  unfold components
  rw [hroot, List.splitOn_append_cons_self, List.foldl_append]

theorem clean_joinPath (name : Bytes) (hdir : dir ≠ []) :
    joinPath dir name = cleanText (isRooted dir)
      ((name.splitOn slash).foldl (cleanPush (isRooted dir)) (components dir)) := by
  obtain ⟨hroot, hcomp⟩ := components_joinPath name hdir
  rw [joinPath, if_pos hdir, clean, hroot, hcomp]

/-! ## The check of the prefix -/

/-- No clean path begins with the root or the working directory and another slash. -/
theorem not_hasPrefix_nil {rooted' : Bool} (h : Normal rooted out) (hroot : rooted' = true → rooted = true) :
    hasPrefix (cleanText rooted out) (cleanText rooted' [] ++ [slash]) = false := by
  by_contra hpre
  rw [Bool.not_eq_false] at hpre
  obtain ⟨below, hbelow⟩ := List.isPrefixOf_iff_prefix.mp hpre
  have hsplit : (cleanText rooted out).splitOn slash =
      (if rooted' then [[], []] else [dot]) ++ below.splitOn slash := by
    rw [← hbelow, List.append_assoc, List.singleton_append, List.splitOn_append_cons_self,
      splitOn_cleanText_nil]
  by_cases hnil : out = []
  · -- the text is too short
    rw [hnil, splitOn_cleanText_nil] at hsplit
    cases rooted <;> cases rooted' <;> simp at hsplit hroot
    exact absurd hsplit.1 (by decide)
  · -- the first component would be empty or a dot
    rw [splitOn_cleanText h hnil] at hsplit
    cases rooted <;> cases rooted' <;> simp at hsplit hroot
    · have hdot := h.comp dot (by simp [hsplit])
      exact hdot.elim (by decide) fun hord => hord.notDot rfl
    · exact absurd hsplit.1 (by decide)
    · have hempty := h.comp [] (by simp [hsplit])
      exact hempty.elim (by decide) fun hord => hord.nonempty rfl

/-- Below the root and the working directory themselves the check lets nothing pass. -/
theorem components_ne_nil (h : hasPrefix (joinPath dir name) (clean dir ++ [slash]) = true) :
    components dir ≠ [] := by
  intro hnil
  have hno : hasPrefix (joinPath dir name) (clean dir ++ [slash]) = false := by
    by_cases hdir : dir = []
    · subst hdir
      rw [joinPath, if_neg (by simp)]
      by_cases hname : name = []
      · rw [if_neg (by simpa using hname)]
        decide
      · rw [if_pos hname]
        exact not_hasPrefix_nil (normal_components name) fun hfalse : false = true => nomatch hfalse
    · rw [clean_joinPath name hdir, clean, hnil]
      exact not_hasPrefix_nil (normal_foldl ⟨by simp, by simp, by simp⟩ (noSlash_splitOn name)) id
  rw [h] at hno
  cases hno

/-- A joined path that begins with the directory and a slash lies below the directory, unless that
ends with `..`. -/
theorem below_of_hasPrefix (hlast : (components dir).getLast? ≠ some dotDot)
    (h : hasPrefix (joinPath dir name) (clean dir ++ [slash]) = true) :
    isRooted (joinPath dir name) = isRooted dir ∧ ∃ rest, rest ≠ [] ∧ (∀ c ∈ rest, Ordinary c) ∧
      components (joinPath dir name) = components dir ++ rest := by
  have hne := components_ne_nil h
  have hdir : dir ≠ [] := by
    rintro rfl
    exact hne (by decide)
  have hnormal := normal_components dir
  have hjoin := clean_joinPath name hdir
  have hnormal' := normal_foldl hnormal (noSlash_splitOn name)
  generalize (name.splitOn slash).foldl (cleanPush (isRooted dir)) (components dir) = out at hjoin hnormal'
  rw [hjoin] at h ⊢
  rw [components_cleanText hnormal', isRooted_cleanText hnormal']
  refine ⟨rfl, ?_⟩
  obtain ⟨below, hbelow⟩ := List.isPrefixOf_iff_prefix.mp h
  -- both sides of the slash split on their own
  have hsplit : (cleanText (isRooted dir) out).splitOn slash =
      (clean dir).splitOn slash ++ below.splitOn slash := by
    rw [← hbelow, List.append_assoc, List.singleton_append, List.splitOn_append_cons_self]
  have hbelowNe : below.splitOn slash ≠ [] := List.splitOn_ne_nil slash below
  rw [clean, splitOn_cleanText hnormal hne] at hsplit
  have hout : out = components dir ++ below.splitOn slash := by
    by_cases hnil : out = []
    · rw [hnil, splitOn_cleanText_nil] at hsplit
      have hlen := congrArg List.length hsplit
      have h₁ := List.length_pos_iff.mpr hne
      have h₂ := List.length_pos_iff.mpr hbelowNe
      cases hr : isRooted dir <;> simp [hr] at hlen <;> omega
    · rw [splitOn_cleanText hnormal' hnil] at hsplit
      cases hr : isRooted dir <;> simpa [hr] using hsplit
  refine ⟨below.splitOn slash, hbelowNe, ?_, hout⟩
  intro c hc
  rw [hout] at hnormal'
  rcases hnormal'.comp c (List.mem_append_right _ hc) with rfl | hord
  · -- `..` stands in front only, and the directory ends with a name
    obtain ⟨front, a, ha⟩ := (List.eq_nil_or_concat (components dir)).resolve_left hne
    have hmem : a ∈ components dir := by
      rw [ha]
      simp
    have hdots := (List.pairwise_append.mp hnormal'.front).2.2 a hmem dotDot hc rfl
    exact absurd (by rw [ha, hdots]; simp) hlast
  · exact hord

/-- An ordinary component leads one level down. -/
theorem push_of_ordinary (hc : Ordinary c) (path : Path) : push path c = path ++ [c] := by
  show (if c = [] ∨ c = dot then path else if c = dotDot then path.dropLast else path ++ [c]) = _
  rw [if_neg (not_or.mpr ⟨hc.nonempty, hc.notDot⟩), if_neg hc.notDotDot]

theorem foldl_push_ordinary (h : ∀ c ∈ rest, Ordinary c) (path : Path) :
    rest.foldl push path = path ++ rest := by
  induction rest generalizing path with
  | nil => simp
  | cons c rest ih =>
    rw [List.foldl_cons, push_of_ordinary (h c List.mem_cons_self),
      ih fun c hc => h c (List.mem_cons_of_mem _ hc)]
    simp

/-- Such a path leads strictly below the directory, wherever that is. -/
theorem locate_below (cwd : Path) (hlast : (components dir).getLast? ≠ some dotDot)
    (h : hasPrefix (joinPath dir name) (clean dir ++ [slash]) = true) :
    locate cwd dir <+: locate cwd (joinPath dir name) ∧
      locate cwd (joinPath dir name) ≠ locate cwd dir := by
  obtain ⟨hroot, rest, hrest, hord, hcomp⟩ := below_of_hasPrefix hlast h
  have hlocate : locate cwd (joinPath dir name) = locate cwd dir ++ rest := by
    unfold locate
    rw [hroot, hcomp, List.foldl_append, foldl_push_ordinary hord]
  rw [hlocate]
  exact ⟨List.prefix_append _ _, by simpa using hrest⟩

end Components

end DeepOj.Go
