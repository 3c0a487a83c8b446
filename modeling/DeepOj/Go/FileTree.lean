import DeepOj.Go.Filepath
import Mathlib.Data.List.Infix

/-!
# File trees

A tree binds paths to directories and files. The operating system may refuse to
create a path for reasons of its own (`refuses`). A failed operation leaves the
tree as far as it got.
-/

namespace DeepOj.Go

inductive Node where
  | dir
  | file (content : Bytes)
  deriving DecidableEq

/-- The bindings of a file tree, the latest first. The root is always a directory. -/
abbrev Tree := List (Path × Node)

variable {T A : Type}

namespace Tree

/-- What stands at a path. -/
def stat (t : Tree) (p : Path) : Option Node :=
  if p = [] then some .dir else t.lookup p

def put (t : Tree) (p : Path) (n : Node) : Tree :=
  (p, n) :: t

/-- `os.RemoveAll`. -/
def removeAll (t : Tree) (p : Path) : Tree :=
  t.filter fun b => !p.isPrefixOf b.1

/-- Something stands at the path. -/
def Has (t : Tree) (p : Path) : Prop :=
  (t.stat p).isSome = true

instance (t : Tree) (p : Path) : Decidable (t.Has p) :=
  inferInstanceAs (Decidable (_ = true))

end Tree

/-- The result of an operation on a tree, or the tree it left behind and an error text. -/
abbrev Fallible (T : Type) := Except (Tree × Bytes) T

variable (refuses : Path → Option Bytes)

/-- `os.Mkdir`, unless the directory is there already. -/
def mkdir (t : Tree) (p : Path) : Fallible Tree :=
  match t.stat p with
  | some .dir => .ok t
  | some (.file _) => .error (t, utf8 "not a directory")
  | none =>
    match refuses p with
    | some err => .error (t, err)
    | none => .ok (t.put p .dir)

/-- `os.MkdirAll`. -/
def mkdirAll (t : Tree) (p : Path) : Fallible Tree :=
  p.inits.foldlM (mkdir refuses) t

/-- `os.OpenFile` with `O_CREATE` and `O_TRUNC`. -/
def createFile (t : Tree) (p : Path) : Fallible Tree :=
  match t.stat p with
  | some .dir => .error (t, utf8 "is a directory")
  | _ =>
    match refuses p with
    | some err => .error (t, err)
    | none => .ok (t.put p (.file []))

namespace Tree

variable {refuses} {t t' : Tree} {p q : Path}

/-- Where something stands after something was put. -/
theorem has_put {n : Node} : (t.put p n).Has q ↔ t.Has q ∨ q = p := by
  unfold Has stat put
  by_cases hroot : q = []
  · simp [hroot]
  rw [if_neg hroot, if_neg hroot, List.lookup_cons]
  by_cases hq : q = p
  · simp [hq]
  · have hne : (q == p) = false := by simpa using hq
    simp [hne, hq]

/-- Other paths stay when something is put. -/
theorem stat_put_ne {n : Node} (h : q ≠ p) : (t.put p n).stat q = t.stat q := by
  unfold stat put
  have hne : (q == p) = false := by simpa using h
  rw [List.lookup_cons, hne]

/-- The root is there. -/
theorem has_root : t.Has [] := by
  simp [Has, stat]

/-- A path is there exactly if it is bound. -/
theorem has_iff_mem (hp : p ≠ []) : t.Has p ↔ ∃ n, (p, n) ∈ t := by
  unfold Has stat
  rw [if_neg hp]
  induction t with
  | nil => simp
  | cons b t ih =>
    obtain ⟨r, m⟩ := b
    rw [List.lookup_cons]
    by_cases hr : p = r
    · subst hr
      simp
    · have hne : (p == r) = false := by simpa using hr
      simp only [hne, ih, List.mem_cons, Prod.mk.injEq, hr, false_and, false_or]

/-- Nothing is left where all was removed. -/
theorem not_has_removeAll (hpq : p <+: q) (hq : q ≠ []) : ¬ (t.removeAll p).Has q := by
  rw [has_iff_mem hq]
  rintro ⟨n, hn⟩
  have hkept := (List.mem_filter.mp hn).2
  rw [List.isPrefixOf_iff_prefix.mpr hpq] at hkept
  cases hkept

/-- A directory that was made is all that is new. -/
theorem has_mkdir (h : mkdir refuses t p = .ok t') : t'.Has q ↔ t.Has q ∨ q = p := by
  unfold mkdir at h
  cases hs : t.stat p with
  | some n =>
    rw [hs] at h
    have hp : t.Has p := by simp [Has, hs]
    cases n with
    | dir =>
      cases h
      exact ⟨.inl, fun hq => hq.elim id fun heq => heq ▸ hp⟩
    | file content => cases h
  | none =>
    rw [hs] at h
    cases hr : refuses p with
    | some err =>
      rw [hr] at h
      cases h
    | none =>
      rw [hr] at h
      cases h
      exact has_put

/-- What is new after steps that each add certain paths. -/
theorem has_foldlM {S A E : Type} (tree : S → Tree) (adds : A → Path → Prop)
    {step : S → A → Except E S}
    (hstep : ∀ s a s', step s a = .ok s' → ∀ q, (tree s').Has q ↔ (tree s).Has q ∨ adds a q)
    {as : List A} {s s' : S} (h : as.foldlM step s = .ok s') :
    (tree s').Has q ↔ (tree s).Has q ∨ ∃ a ∈ as, adds a q := by
  induction as generalizing s with
  | nil =>
    cases h
    simp
  | cons a as ih =>
    rw [List.foldlM_cons] at h
    cases hs : step s a with
    | error e =>
      rw [hs] at h
      cases h
    | ok s₁ =>
      rw [hs] at h
      rw [ih h, hstep s a s₁ hs q, or_assoc]
      simp

/-- `mkdirAll` makes the path and all above it. -/
theorem has_mkdirAll (h : mkdirAll refuses t p = .ok t') : t'.Has q ↔ t.Has q ∨ q <+: p := by
  have hall := has_foldlM (q := q) id (fun r q => q = r) (fun _ _ _ hm _ => has_mkdir hm) h
  simpa using hall

/-- A file that was created is all that is new. -/
theorem has_createFile (h : createFile refuses t p = .ok t') : t'.Has q ↔ t.Has q ∨ q = p := by
  unfold createFile at h
  by_cases hd : t.stat p = some .dir
  · rw [hd] at h
    cases h
  · have hopen : (match refuses p with
        | some err => .error (t, err)
        | none => .ok (t.put p (.file []))) = (.ok t' : Fallible Tree) := by
      rw [← h]
      cases hs : t.stat p with
      | none => rfl
      | some n =>
        cases n with
        | dir => exact absurd hs hd
        | file content => rfl
    cases hr : refuses p with
    | some err =>
      rw [hr] at hopen
      cases hopen
    | none =>
      rw [hr] at hopen
      cases hopen
      exact has_put

/-! ## What stays -/

/-- The tree that a fallible operation leaves. -/
def leftBy : Fallible Tree → Tree
  | .ok t => t
  | .error (t, _) => t

/-- `os.Mkdir` changes nothing but a path at which nothing stands, and makes a directory there. -/
theorem mkdir_changes (refuses : Path → Option Bytes) (t : Tree) (p q : Path) :
    (leftBy (mkdir refuses t p)).stat q = t.stat q ∨
      q = p ∧ t.stat q = none ∧ (leftBy (mkdir refuses t p)).stat q = some .dir := by
  unfold mkdir
  cases hs : t.stat p with
  | some n => cases n <;> exact .inl rfl
  | none =>
    cases refuses p with
    | some err => exact .inl rfl
    | none =>
      by_cases hq : q = p
      · subst hq
        right
        refine ⟨rfl, hs, ?_⟩
        by_cases hroot : q = [] <;> simp [leftBy, put, stat, hroot]
      · exact .inl (stat_put_ne hq)

/-- The same for the steps of `mkdirAll`. -/
theorem mkdirs_change (refuses : Path → Option Bytes) (ps : List Path) (t : Tree) (q : Path) :
    (leftBy (ps.foldlM (mkdir refuses) t)).stat q = t.stat q ∨
      q ∈ ps ∧ t.stat q = none ∧ (leftBy (ps.foldlM (mkdir refuses) t)).stat q = some .dir := by
  induction ps generalizing t with
  | nil => exact .inl rfl
  | cons r ps ih =>
    have hfirst := mkdir_changes refuses t r q
    rw [List.foldlM_cons]
    cases hm : mkdir refuses t r with
    | error e =>
      rw [hm] at hfirst
      exact hfirst.imp_right fun ⟨hq, h⟩ => ⟨hq ▸ List.mem_cons_self, h⟩
    | ok t' =>
      rw [hm] at hfirst
      have hrest := ih t'
      rcases hfirst with hsame | ⟨hq, hnone, hdir⟩
      · rw [show t'.stat q = t.stat q from hsame] at hrest
        exact hrest.imp_right fun ⟨hq, h⟩ => ⟨List.mem_cons_of_mem _ hq, h⟩
      · -- the directory that was just made stays
        have hstays : (leftBy (ps.foldlM (mkdir refuses) t')).stat q = some .dir := by
          rcases hrest with hsame | ⟨_, _, hdir⟩
          · exact hsame.trans hdir
          · exact hdir
        exact .inr ⟨hq ▸ List.mem_cons_self, hnone, hstays⟩

/-- `mkdirAll` makes directories above its path where nothing stands, and changes nothing else. -/
theorem mkdirAll_changes (refuses : Path → Option Bytes) (t : Tree) (p q : Path) :
    (leftBy (mkdirAll refuses t p)).stat q = t.stat q ∨
      q <+: p ∧ t.stat q = none ∧ (leftBy (mkdirAll refuses t p)).stat q = some .dir :=
  (mkdirs_change refuses p.inits t q).imp_right fun ⟨hq, h⟩ => ⟨(List.mem_inits q p).mp hq, h⟩

/-- A directory that was made is there. -/
theorem dir_mkdir (h : mkdir refuses t p = .ok t') : t'.stat p = some .dir := by
  unfold mkdir at h
  cases hs : t.stat p with
  | some n =>
    rw [hs] at h
    cases n with
    | dir =>
      cases h
      exact hs
    | file content => cases h
  | none =>
    rw [hs] at h
    cases hr : refuses p with
    | some err =>
      rw [hr] at h
      cases h
    | none =>
      rw [hr] at h
      cases h
      by_cases hroot : p = [] <;> simp [put, stat, hroot]

/-- After `mkdirAll` its path is a directory, and so is all above it. -/
theorem dir_mkdirAll (h : mkdirAll refuses t p = .ok t') (hq : q <+: p) : t'.stat q = some .dir := by
  have hloop : ∀ (ps : List Path) (t : Tree), ps.foldlM (mkdir refuses) t = .ok t' → q ∈ ps →
      t'.stat q = some .dir := by
    intro ps
    induction ps with
    | nil =>
      intro t _ hq
      cases hq
    | cons r ps ih =>
      intro t h hq
      rw [List.foldlM_cons] at h
      cases hm : mkdir refuses t r with
      | error e =>
        rw [hm] at h
        cases h
      | ok t₁ =>
        rw [hm] at h
        rcases List.mem_cons.mp hq with rfl | hq
        · -- what the first step made is there after the others
          have hdir := dir_mkdir hm
          have hrest := mkdirs_change refuses ps t₁ q
          rw [show ps.foldlM (mkdir refuses) t₁ = .ok t' from h] at hrest
          rcases hrest with hsame | ⟨_, _, hnew⟩
          · exact hsame.trans hdir
          · exact hnew
        · exact ih t₁ h hq
  exact hloop p.inits t h ((List.mem_inits q p).mpr hq)

/-- `os.OpenFile` changes nothing but its path. -/
theorem stat_createFile (h : q ≠ p) : (leftBy (createFile refuses t p)).stat q = t.stat q := by
  unfold createFile
  split
  · rfl
  · split
    · rfl
    · exact stat_put_ne h

end Tree

end DeepOj.Go
