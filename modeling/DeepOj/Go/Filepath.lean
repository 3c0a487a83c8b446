import DeepOj.Go.Bytes

/-!
# Paths

An absolute clean path is the list of its components. A name is resolved below a
directory as `filepath.Join` does, without looking at the file system.
-/

namespace DeepOj.Go

/-- The components of an absolute clean path. -/
abbrev Path := List Bytes

def slash : UInt8 := 47

/-- What one component of a name does to the path before it. -/
def push (path : Path) (comp : Bytes) : Path :=
  if comp = [] ∨ comp = utf8 "." then path
  else if comp = utf8 ".." then path.dropLast
  else path ++ [comp]

/-- `filepath.Join(dir, name)`. -/
def join (dir : Path) (name : Bytes) : Path :=
  (name.splitOn slash).foldl push dir

/-- `filepath.Base`. -/
def base (name : Bytes) : Bytes :=
  match ((name.splitOn slash).filter (· ≠ [])).getLast? with
  | some comp => comp
  | none => if name = [] then utf8 "." else [slash]

/-- `filepath.Ext`: what follows the last dot of the last component, with the dot. -/
def ext (name : Bytes) : Bytes :=
  let tail := name.reverse.takeWhile fun c => c ≠ slash ∧ c ≠ 46
  if (name.reverse.drop tail.length).head? = some 46 then 46 :: tail.reverse else []

/-- The text of a path. -/
def Path.toBytes (path : Path) : Bytes :=
  path.flatMap fun comp => slash :: comp

/-- A component that is pushed as it is. -/
theorem push_of_not_dot {c : UInt8} {comp : Bytes} (h : c ≠ 46) (path : Path) :
    push path (c :: comp) = path ++ [c :: comp] := by
  have hdot : c :: comp ≠ utf8 "." := fun he => h (List.cons.inj he).1
  have hdots : c :: comp ≠ utf8 ".." := fun he => h (List.cons.inj he).1
  unfold push
  rw [if_neg (by simp [hdot]), if_neg hdots]

/-- What follows the last slash of a name is its last component: it can be replaced. -/
theorem splitOn_append (p : Bytes) :
    ∃ dirs y, ∀ s : Bytes, slash ∉ s → (p ++ s).splitOn slash = dirs ++ [y ++ s] := by
  induction p with
  | nil =>
    refine ⟨[], [], fun s hs => ?_⟩
    induction s with
    | nil => rfl
    | cons c s ih =>
      rw [List.mem_cons, not_or] at hs
      have hc : (c == slash) = false := by simpa using Ne.symm hs.1
      have hrest := ih hs.2
      rw [List.nil_append, List.splitOn] at hrest ⊢
      rw [List.splitOnP_cons_eq_if_modifyHead, hc, hrest]
      rfl
  | cons c p ih =>
    obtain ⟨dirs, y, hsplit⟩ := ih
    by_cases hc : c = slash
    · refine ⟨[] :: dirs, y, fun s hs => ?_⟩
      have hrest := hsplit s hs
      rw [List.splitOn] at hrest
      rw [List.cons_append, List.splitOn, List.splitOnP_cons_eq_if_modifyHead, hrest, hc]
      rfl
    · have hne : (c == slash) = false := by simpa using hc
      -- the character joins the first component, which is the last one if there is one
      cases dirs with
      | nil =>
        refine ⟨[], c :: y, fun s hs => ?_⟩
        have hrest := hsplit s hs
        rw [List.splitOn] at hrest
        rw [List.cons_append, List.splitOn, List.splitOnP_cons_eq_if_modifyHead, hrest, hne]
        rfl
      | cons d dirs =>
        refine ⟨(c :: d) :: dirs, y, fun s hs => ?_⟩
        have hrest := hsplit s hs
        rw [List.splitOn] at hrest
        rw [List.cons_append, List.splitOn, List.splitOnP_cons_eq_if_modifyHead, hrest, hne]
        rfl

/-- A name whose base does not begin with a dot resolves to a file of that base; so does
the name with another extension, in the same directory. -/
theorem join_append {p ext : Bytes} (hext : slash ∉ ext) (hne : ext ≠ [])
    (hvisible : hasPrefix (base (p ++ ext)) (utf8 ".") = false) (hdot : hasPrefix ext (utf8 ".")) :
    ∃ y, base (p ++ ext) = y ++ ext ∧ ∀ dir, ∃ parent, ∀ s : Bytes, slash ∉ s →
      join dir (p ++ s) = parent ++ [y ++ s] := by
  obtain ⟨dirs, y, hsplit⟩ := splitOn_append p
  have hbase : base (p ++ ext) = y ++ ext := by
    have hlast : y ++ ext ≠ [] := by simp [hne]
    unfold base
    rw [hsplit ext hext, List.filter_append]
    simp [hlast]
  refine ⟨y, hbase, fun dir => ⟨dirs.foldl push dir, fun s hs => ?_⟩⟩
  -- `y` is not empty and does not begin with a dot, so its component is an ordinary one
  rw [hbase] at hvisible
  cases y with
  | nil =>
    rw [List.nil_append, hdot] at hvisible
    cases hvisible
  | cons c y =>
    have hc : c ≠ 46 := by
      rintro rfl
      have hbegins : hasPrefix (46 :: y ++ ext) (utf8 ".") = true := rfl
      rw [hbegins] at hvisible
      cases hvisible
    rw [join, hsplit s hs, List.foldl_append]
    exact push_of_not_dot hc (dirs.foldl push dir)

end DeepOj.Go
