import DeepOj.Go.Clean

/-!
# The entry a path names

The kernel follows a path name by name, from the root or the working directory, and follows the
links it meets. Whatever directories and links there are, what is removed under a path is an entry
of the directory that the names in front of the last one lead to.
-/

namespace DeepOj.Go

/-- Directories, and where a name leads from one of them. -/
structure Directories (δ : Type) where
  root : δ
  cwd : δ
  look : δ → Bytes → Option δ

/-- The names in a path. -/
def names (p : Bytes) : List Bytes := (p.splitOn slash).filter (· ≠ [])

section Resolution

variable {δ : Type} (fs : Directories δ)

def Directories.start (p : Bytes) : δ := if isRooted p then fs.root else fs.cwd

/-- The directory a path leads to. -/
def Directories.resolve (p : Bytes) : Option δ := (names p).foldlM fs.look (fs.start p)

/-- The directory and the name that a removal of the path is about. -/
def Directories.entry (p : Bytes) : Option (δ × Bytes) :=
  match (names p).getLast? with
  | none => none
  | some name => ((names p).dropLast.foldlM fs.look (fs.start p)).map fun d => (d, name)

end Resolution

/-- The path is that of an entry of the base directory, under a name of its own. -/
structure DirectChild (base path name : Bytes) : Prop where
  ordinary : Ordinary name
  entry : ∀ {δ : Type} (fs : Directories δ), fs.entry path = (fs.resolve base).map fun d => (d, name)
  location : ∀ cwd, locate cwd path = locate cwd base ++ [name]

section Children

variable {base path name : Bytes}

theorem names_append (base rest : Bytes) : names (base ++ slash :: rest) = names base ++ names rest := by
  unfold names
  rw [List.splitOn_append_cons_self, List.filter_append]

theorem splitOn_of_ordinary (h : Ordinary name) : name.splitOn slash = [name] :=
  List.splitOn_eq_singleton h.noSlash

theorem names_of_ordinary (h : Ordinary name) : names name = [name] := by
  unfold names
  rw [splitOn_of_ordinary h]
  simp [h.nonempty]

/-- An ordinary name is added to the clean components. -/
theorem cleanPush_of_ordinary (h : Ordinary name) (rooted : Bool) (out : List Bytes) :
    cleanPush rooted out name = out ++ [name] := by
  unfold cleanPush
  rw [if_neg (not_or.mpr ⟨h.nonempty, h.notDot⟩), if_neg h.notDotDot]

theorem components_append (h : Ordinary name) (hbase : base ≠ []) :
    components (base ++ slash :: name) = components base ++ [name] := by
  rw [(components_joinPath name hbase).2, splitOn_of_ordinary h]
  exact cleanPush_of_ordinary h _ _

theorem isRooted_of_ordinary (h : Ordinary name) : isRooted name = false := by
  unfold isRooted
  rw [decide_eq_false_iff_not]
  intro hhead
  exact h.noSlash (List.mem_of_mem_head? hhead)

theorem intercalate_concat (c : Bytes) (rest : List Bytes) (name : Bytes) :
    [slash].intercalate (c :: rest ++ [name]) = [slash].intercalate (c :: rest) ++ slash :: name := by
  induction rest generalizing c with
  | nil => simp [List.intercalate]
  | cons d rest ih =>
    have hcons : ∀ more, [slash].intercalate (c :: d :: more) = c ++ slash :: [slash].intercalate (d :: more) := by
      intro more
      simp [List.intercalate]
    rw [List.cons_append, List.cons_append, hcons, ← List.cons_append, ih d, hcons]
    simp

/-- Cleaning keeps a name below a directory that has one. -/
theorem clean_append (h : Ordinary name) (hbase : base ≠ []) (hcomp : components base ≠ []) :
    clean (base ++ slash :: name) = clean base ++ slash :: name := by
  have hroot := (components_joinPath name hbase).1
  obtain ⟨c, rest, hc⟩ := List.exists_cons_of_ne_nil hcomp
  unfold clean
  rw [hroot, components_append h hbase, hc]
  unfold cleanText
  cases isRooted base with
  | true =>
    rw [if_pos rfl, if_pos rfl, intercalate_concat]
    rfl
  | false =>
    rw [if_neg Bool.false_ne_true, if_neg Bool.false_ne_true, if_neg (by simp), if_neg (by simp),
      intercalate_concat]

theorem clean_ne_nil (p : Bytes) : clean p ≠ [] := by
  intro hnil
  have hsplit := components_cleanText (normal_components p)
  unfold clean at hnil
  have hroot := isRooted_cleanText (normal_components p)
  rw [hnil] at hsplit hroot
  -- no components are left: the text is a slash or a dot
  rw [← hroot, ← hsplit] at hnil
  exact absurd hnil (by decide)

/-- A path with one name more, behind a slash of its own or behind that of the base. -/
theorem directChild_of_names (h : Ordinary name) (hnames : names path = names base ++ [name])
    (hroot : isRooted path = isRooted base) (hcomp : components path = components base ++ [name]) :
    DirectChild base path name where
  ordinary := h
  entry fs := by
    have hlast : (names path).getLast? = some name := by
      rw [hnames, List.getLast?_append]
      rfl
    have hfront : (names path).dropLast = names base := by
      rw [hnames, List.dropLast_concat]
    have hstart : fs.start path = fs.start base := by
      unfold Directories.start
      rw [hroot]
    unfold Directories.entry Directories.resolve
    rw [hlast, hfront, hstart]
  location cwd := by
    unfold locate
    rw [hroot, hcomp, List.foldl_append, List.foldl_cons, List.foldl_nil, push_of_ordinary h]

theorem directChild_append (h : Ordinary name) (hbase : base ≠ []) :
    DirectChild base (base ++ slash :: name) name := by
  apply directChild_of_names h
  · rw [names_append, names_of_ordinary h]
  · exact (components_joinPath name hbase).1
  · exact components_append h hbase

/-- Below a base that is empty the name stands alone. -/
theorem directChild_nil (h : Ordinary name) : DirectChild [] name name := by
  apply directChild_of_names h
  · rw [names_of_ordinary h]
    rfl
  · rw [isRooted_of_ordinary h]
    rfl
  · unfold components
    rw [splitOn_of_ordinary h]
    exact cleanPush_of_ordinary h _ _

/-- No slash is added to a base that ends with one. -/
theorem directChild_slash (h : Ordinary name) : DirectChild (base ++ [slash]) (base ++ slash :: name) name := by
  have hnames : names (base ++ [slash]) = names base := by
    rw [names_append base []]
    show names base ++ [] = names base
    rw [List.append_nil]
  by_cases hbase : base = []
  · subst hbase
    apply directChild_of_names h
    · rw [hnames, names_append [] name, names_of_ordinary h]
    · rfl
    · show (List.splitOn slash (slash :: name)).foldl (cleanPush true) [] = [name]
      rw [List.splitOn_cons_eq_if_modifyHead, if_pos (beq_self_eq_true _), splitOn_of_ordinary h]
      exact cleanPush_of_ordinary h _ _
  · have hroot : isRooted (base ++ [slash]) = isRooted base := (components_joinPath [] hbase).1
    have hcomp : components (base ++ [slash]) = components base := (components_joinPath [] hbase).2
    apply directChild_of_names h
    · rw [hnames, names_append, names_of_ordinary h]
    · rw [hroot]
      exact (components_joinPath name hbase).1
    · rw [hcomp]
      exact components_append h hbase

end Children

end DeepOj.Go
