import DeepOj.Go.FileTree
import DeepOj.Go.Zip
import Mathlib.Data.List.Dedup
import Mathlib.Data.List.Sort
import Mathlib.Algebra.Ring.Nat

/-!
# Test cases on disk

`Prepare` extracts the archive of a problem into a fresh directory;
`ExecuteTask` takes its test cases from the `*.in` files right in it.
-/

namespace DeepOj.Worker

open Go

/-- The limits of `UnzipWithLimits`; those that are not positive do not apply. -/
structure UnzipLimits where
  maxTotalBytes : Int
  maxFileBytes : Int
  maxFiles : Int

/-- Where an extraction stands. -/
structure Unzip where
  tree : Tree
  totalWritten : Int := 0
  fileCount : Int := 0

/-- The conversion of a `uint64` to `int64`. -/
def toInt64 (n : Nat) : Int :=
  (n : Int).bmod (2 ^ 64)

variable (refuses : Path → Option Bytes) (lims : UnzipLimits) (dest : Path)

/-- The part of an entry that is copied: one byte over the limit is enough to see it. -/
def copied (f : ZipEntry) : Bytes :=
  if 0 < lims.maxFileBytes then f.data.take (lims.maxFileBytes + 1).toNat else f.data

/-- The error of `io.Copy`: it comes after the data, unless the limit cuts them off. -/
def copyErr (f : ZipEntry) : Option Bytes :=
  if 0 < lims.maxFileBytes ∧ lims.maxFileBytes < f.data.length then none else f.readErr

/-- Write the content of an entry to a file that was just created. -/
def writeEntry (f : ZipEntry) (fpath : Path) (st : Unzip) : Fallible Unzip :=
  match f.openErr with
  | some err => .error (st.tree, err)
  | none =>
    let tree := st.tree.put fpath (.file (copied lims f))
    let written : Int := (copied lims f).length
    match copyErr lims f with
    | some err => .error (tree, err)
    | none =>
      if 0 < lims.maxFileBytes ∧ lims.maxFileBytes < written then
        .error (tree, utf8 "zip 条目超出大小限制: " ++ f.name)
      else
        let totalWritten := st.totalWritten + written
        if 0 < lims.maxTotalBytes ∧ lims.maxTotalBytes < totalWritten then
          .error (tree, utf8 "zip 总大小超出限制")
        else .ok { st with tree, totalWritten }

/-- One turn of the loop of `UnzipWithLimits`. -/
def extractEntry (st : Unzip) (f : ZipEntry) : Fallible Unzip :=
  let fpath := join dest f.name
  if ¬ (dest ≠ [] ∧ dest <+: fpath ∧ fpath ≠ dest) then
    .error (st.tree, utf8 "非法文件路径: " ++ fpath.toBytes)
  else if f.isDir then
    match mkdirAll refuses st.tree fpath with
    | .error e => .error e
    | .ok tree => .ok { st with tree }
  else
    let fileCount := st.fileCount + 1
    if 0 < lims.maxFiles ∧ lims.maxFiles < fileCount then
      .error (st.tree, utf8 ("zip 文件数量过多: " ++ toString fileCount))
    else if 0 < lims.maxFileBytes ∧ lims.maxFileBytes < toInt64 f.uncompressedSize64 then
      .error (st.tree, utf8 "zip 条目过大: " ++ f.name)
    else
      match mkdirAll refuses st.tree fpath.dropLast with
      | .error e => .error e
      | .ok tree =>
        match createFile refuses tree fpath with
        | .error e => .error e
        | .ok tree => writeEntry lims f fpath { st with tree, fileCount }

/-- `UnzipWithLimits`. -/
def unzipWithLimits (archive : Archive) (t : Tree) : Fallible Tree :=
  match archive with
  | .error err => .error (t, err)
  | .ok entries =>
    match mkdirAll refuses t dest with
    | .error e => .error e
    | .ok tree =>
      match entries.foldlM (extractEntry refuses lims dest) { tree } with
      | .error e => .error e
      | .ok st => .ok st.tree

/-- The extraction in `Prepare`, into a directory that is emptied first. -/
def prepareTestCases (archive : Archive) (t : Tree) : Fallible Tree :=
  match mkdirAll refuses (t.removeAll dest) dest with
  | .error e => .error e
  | .ok tree => unzipWithLimits refuses lims dest archive tree

/-- The names right in a directory. -/
def readDirNames (t : Tree) (dir : Path) : List Bytes :=
  (t.filterMap fun b =>
    if b.1 ≠ [] ∧ b.1.dropLast = dir then b.1.getLast? else none).dedup

/-- The inputs: `filepath.Glob` of `*.in`, sorted. -/
def inputNames (t : Tree) (workDir : Path) : List Bytes :=
  ((readDirNames t workDir).filter fun name => hasSuffix name (utf8 ".in")).insertionSort (· ≤ ·)

/-- The expected output of an input: the `.ans` file if there is no `.out` file. -/
def expectedPath (t : Tree) (workDir : Path) (baseName : Bytes) : Path :=
  if t.stat (workDir ++ [baseName ++ utf8 ".out"]) = none then
    workDir ++ [baseName ++ utf8 ".ans"]
  else workDir ++ [baseName ++ utf8 ".out"]

/-- The pairs of input and expected output that `ExecuteTask` goes through. -/
def testCases (t : Tree) (workDir : Path) : List (Path × Path) :=
  (inputNames t workDir).map fun name =>
    (workDir ++ [name], expectedPath t workDir (trimSuffix name (utf8 ".in")))

/-! ## What is there after an extraction -/

variable {refuses lims dest} {t t' : Tree} {st st' : Unzip} {f : ZipEntry} {q : Path}

/-- Writing to a file that is there adds nothing. -/
theorem has_writeEntry {fpath : Path} (hthere : st.tree.Has fpath)
    (h : writeEntry lims f fpath st = .ok st') : st'.tree.Has q ↔ st.tree.Has q := by
  unfold writeEntry at h
  cases ho : f.openErr with
  | some err =>
    rw [ho] at h
    cases h
  | none =>
    cases hc : copyErr lims f with
    | some err =>
      simp only [ho, hc] at h
      cases h
    | none =>
      simp only [ho, hc] at h
      by_cases hf : 0 < lims.maxFileBytes ∧ lims.maxFileBytes < ((copied lims f).length : Int)
      · rw [if_pos hf] at h
        cases h
      rw [if_neg hf] at h
      by_cases ht : 0 < lims.maxTotalBytes ∧
          lims.maxTotalBytes < st.totalWritten + ((copied lims f).length : Int)
      · rw [if_pos ht] at h
        cases h
      rw [if_neg ht] at h
      cases h
      show (st.tree.put fpath _).Has q ↔ st.tree.Has q
      rw [Tree.has_put]
      exact ⟨fun hq => hq.elim id fun heq => heq ▸ hthere, .inl⟩

/-- A prefix of a path is the path itself or a prefix of the path above it. -/
theorem prefix_iff_dropLast {p : Path} (hp : p ≠ []) : q <+: p ↔ q <+: p.dropLast ∨ q = p := by
  constructor
  · intro h
    rcases eq_or_ne q p with heq | hne
    · exact .inr heq
    · left
      rw [← List.dropLast_append_getLast hp, List.prefix_concat_iff] at h
      rcases h with heq | hpre
      · exact absurd (heq.trans (List.dropLast_append_getLast hp)) hne
      · exact hpre
  · rintro (hpre | rfl)
    · exact hpre.trans (List.dropLast_prefix p)
    · exact List.prefix_refl q

/-- An entry adds its path and all above it. -/
theorem has_extractEntry (h : extractEntry refuses lims dest st f = .ok st') :
    (dest <+: join dest f.name ∧ join dest f.name ≠ dest) ∧
      (st'.tree.Has q ↔ st.tree.Has q ∨ q <+: join dest f.name) := by
  unfold extractEntry at h
  by_cases hin : dest ≠ [] ∧ dest <+: join dest f.name ∧ join dest f.name ≠ dest
  swap
  · simp only [if_pos hin] at h
    cases h
  refine ⟨hin.2, ?_⟩
  simp only [if_neg (not_not.mpr hin)] at h
  by_cases hdir : f.isDir = true
  · rw [if_pos hdir] at h
    cases hm : mkdirAll refuses st.tree (join dest f.name) with
    | error e =>
      rw [hm] at h
      cases h
    | ok tree =>
      rw [hm] at h
      cases h
      exact Tree.has_mkdirAll hm
  rw [if_neg hdir] at h
  by_cases hcount : 0 < lims.maxFiles ∧ lims.maxFiles < st.fileCount + 1
  · rw [if_pos hcount] at h
    cases h
  rw [if_neg hcount] at h
  by_cases hsize : 0 < lims.maxFileBytes ∧ lims.maxFileBytes < toInt64 f.uncompressedSize64
  · rw [if_pos hsize] at h
    cases h
  rw [if_neg hsize] at h
  cases hm : mkdirAll refuses st.tree (join dest f.name).dropLast with
  | error e =>
    rw [hm] at h
    cases h
  | ok tree =>
    rw [hm] at h
    cases hc : createFile refuses tree (join dest f.name) with
    | error e =>
      simp only [hc] at h
      cases h
    | ok tree' =>
      simp only [hc] at h
      have hnew : ∀ r, tree'.Has r ↔ st.tree.Has r ∨ r <+: join dest f.name := by
        intro r
        have hne : join dest f.name ≠ [] := by
          intro hnil
          rw [hnil, List.prefix_nil] at hin
          exact hin.1 hin.2.1
        rw [Tree.has_createFile hc, Tree.has_mkdirAll hm, prefix_iff_dropLast hne, or_assoc]
      have hthere : tree'.Has (join dest f.name) :=
        (hnew _).mpr (.inr (List.prefix_refl _))
      rw [has_writeEntry hthere h]
      exact hnew q

/-- What is in the directory after an extraction: the paths of its entries and all above
them. -/
theorem has_prepareTestCases {entries : List ZipEntry}
    (h : prepareTestCases refuses lims dest (.ok entries) t = .ok t')
    (hq : dest <+: q) (hne : q ≠ dest) :
    t'.Has q ↔ ∃ f ∈ entries, q <+: join dest f.name := by
  have hroot : q ≠ [] := by
    rintro rfl
    exact hne (List.prefix_nil.mp hq).symm
  have hnot : ¬ q <+: dest := fun hqd => hne (hqd.eq_of_length_le hq.length_le)
  unfold prepareTestCases at h
  cases hm : mkdirAll refuses (t.removeAll dest) dest with
  | error e =>
    rw [hm] at h
    cases h
  | ok t₁ =>
    simp only [hm, unzipWithLimits] at h
    cases hm₂ : mkdirAll refuses t₁ dest with
    | error e =>
      rw [hm₂] at h
      cases h
    | ok t₂ =>
      simp only [hm₂] at h
      cases hf : entries.foldlM (extractEntry refuses lims dest) { tree := t₂ } with
      | error e =>
        rw [hf] at h
        cases h
      | ok st =>
        rw [hf] at h
        cases h
        -- the directory was empty before the first entry
        have hempty : ¬ t₂.Has q := by
          rw [Tree.has_mkdirAll hm₂, Tree.has_mkdirAll hm]
          rintro ((hold | hpre) | hpre)
          · exact Tree.not_has_removeAll hq hroot hold
          · exact hnot hpre
          · exact hnot hpre
        have hall := Tree.has_foldlM (q := q) Unzip.tree (fun f r => r <+: join dest f.name)
          (fun _ _ _ hs _ => (has_extractEntry hs).2) hf
        rw [hall]
        exact ⟨fun hq => hq.elim (fun hold => absurd hold hempty) id, .inr⟩

/-- The names right in a directory are those of the paths right below it. -/
theorem mem_readDirNames {dir : Path} {name : Bytes} :
    name ∈ readDirNames t dir ↔ t.Has (dir ++ [name]) := by
  have hne : dir ++ [name] ≠ [] := by simp
  rw [readDirNames, List.mem_dedup, List.mem_filterMap, Tree.has_iff_mem hne]
  constructor
  · rintro ⟨⟨p, n⟩, hmem, hname⟩
    by_cases hp : p ≠ [] ∧ p.dropLast = dir
    · simp only [if_pos hp] at hname
      have hlast := List.getLast?_eq_some_iff.mp hname
      obtain ⟨ys, hys⟩ := hlast
      refine ⟨n, ?_⟩
      rw [← hp.2, hys, List.dropLast_concat, ← hys]
      exact hmem
    · simp only [if_neg hp] at hname
      cases hname
  · rintro ⟨n, hn⟩
    refine ⟨(dir ++ [name], n), hn, ?_⟩
    simp

/-- The inputs are the names in the working directory that end in `.in`. -/
theorem mem_inputNames {workDir : Path} {name : Bytes} :
    name ∈ inputNames t workDir ↔
      t.Has (workDir ++ [name]) ∧ hasSuffix name (utf8 ".in") = true := by
  rw [inputNames, List.mem_insertionSort, List.mem_filter, mem_readDirNames]

end DeepOj.Worker
