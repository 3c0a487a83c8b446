import DeepOj.Go.Clean
import DeepOj.Worker.Unzip

/-!
# What an extraction can write

`UnzipWithLimits` on path texts, with the operating system free to refuse any
directory or file and to stop any copy after some bytes. Whatever the archive says
about itself, nothing changes outside the directory, and the bytes are bounded.
-/

namespace DeepOj.Worker.Unzipping

open Go

/-- What the operating system answers while one entry is extracted. -/
structure OsAnswer where
  refuses : Path → Option Bytes := fun _ => none
  /-- Writing the file fails after so many bytes. -/
  writeErr : Option (Nat × Bytes) := none

/-- A copy into a regular file. -/
structure FileWrite where
  path : Path
  written : Nat
  deriving DecidableEq, Repr

/-- The files, the counters of the loop, and the copies that were made, the latest first. -/
structure State where
  tree : Tree
  totalWritten : Int := 0
  fileCount : Int := 0
  writes : List FileWrite := []

/-- The state after a success, or the state an error leaves, with its text. -/
abbrev Outcome := Except (State × Bytes) State

/-- The state that is left. -/
def left : Outcome → State
  | .ok st => st
  | .error (st, _) => st

/-- All bytes that have been written to regular files. -/
def State.bytesWritten (st : State) : Nat := (st.writes.map FileWrite.written).sum

variable (lims : UnzipLimits) (cwd : Path) (dest : Bytes)

/-- `io.Copy`: what it writes, and its error. -/
def ioCopy (os : OsAnswer) (f : ZipEntry) : Bytes × Option Bytes :=
  match os.writeErr with
  | some (n, err) =>
    if n < (copied lims f).length then ((copied lims f).take n, some err)
    else (copied lims f, copyErr lims f)
  | none => (copied lims f, copyErr lims f)

/-- The end of the loop body: copy an entry into the file that was just opened. -/
def copyFile (os : OsAnswer) (f : ZipEntry) (fpath : Path) (st : State) : Outcome :=
  match f.openErr with
  | some err => .error (st, err)
  | none =>
    let content := (ioCopy lims os f).1
    let st := { st with
      tree := st.tree.put fpath (.file content)
      writes := ⟨fpath, content.length⟩ :: st.writes }
    match (ioCopy lims os f).2 with
    | some err => .error (st, err)
    | none =>
      if 0 < lims.maxFileBytes ∧ lims.maxFileBytes < content.length then
        .error (st, utf8 "zip 条目超出大小限制: " ++ f.name)
      else
        let st := { st with totalWritten := st.totalWritten + content.length }
        if 0 < lims.maxTotalBytes ∧ lims.maxTotalBytes < st.totalWritten then
          .error (st, utf8 "zip 总大小超出限制")
        else .ok st

/-- One turn of the loop. -/
def extractEntry (os : OsAnswer) (st : State) (f : ZipEntry) : Outcome :=
  let fpath := joinPath dest f.name
  if ¬ hasPrefix fpath (clean dest ++ [slash]) then
    .error (st, utf8 "非法文件路径: " ++ fpath)
  else if f.isDir then
    match mkdirAll os.refuses st.tree (locate cwd fpath) with
    | .error (tree, err) => .error ({ st with tree }, err)
    | .ok tree => .ok { st with tree }
  else
    let st := { st with fileCount := st.fileCount + 1 }
    if 0 < lims.maxFiles ∧ lims.maxFiles < st.fileCount then
      .error (st, utf8 ("zip 文件数量过多: " ++ toString st.fileCount))
    else if 0 < lims.maxFileBytes ∧ lims.maxFileBytes < toInt64 f.uncompressedSize64 then
      .error (st, utf8 "zip 条目过大: " ++ f.name)
    else
      match mkdirAll os.refuses st.tree (locate cwd fpath).dropLast with
      | .error (tree, err) => .error ({ st with tree }, err)
      | .ok tree =>
        match createFile os.refuses tree (locate cwd fpath) with
        | .error (tree, err) => .error ({ st with tree }, err)
        | .ok tree => copyFile lims os f (locate cwd fpath) { st with tree }

/-- The loop, with the number of the entry that is next. -/
def extractAll (os : Nat → OsAnswer) : Nat → List ZipEntry → State → Outcome
  | _, [], st => .ok st
  | i, f :: fs, st =>
    match extractEntry lims cwd dest (os i) st f with
    | .error e => .error e
    | .ok st => extractAll os (i + 1) fs st

/-- `UnzipWithLimits`. -/
def unzipWithLimits (os : Nat → OsAnswer) (archive : Archive) (t : Tree) : Outcome :=
  match archive with
  | .error err => .error ({ tree := t }, err)
  | .ok entries =>
    match mkdirAll (os 0).refuses t (locate cwd dest) with
    | .error (tree, err) => .error ({ tree }, err)
    | .ok tree => extractAll lims cwd dest os 1 entries { tree }

/-- `tmpDir` in `Prepare`. -/
def tmpDir (workDir : Bytes) : Bytes := workDir ++ utf8 ".tmp"

/-! ## What is to hold -/

/-- All limits apply. -/
structure Positive : Prop where
  total : 0 < lims.maxTotalBytes
  file : 0 < lims.maxFileBytes
  files : 0 < lims.maxFiles

/-- The path is strictly inside the directory. -/
def Inside (dir q : Path) : Prop := dir <+: q ∧ q ≠ dir

/-- The directory is there, and all above it. -/
def DirThere (dir : Path) (t : Tree) : Prop := ∀ q, q <+: dir → t.stat q = some .dir

/-- Nothing but what is strictly inside the directory is written to; where the directory
was missing, it has been made. -/
structure Confined (dir : Path) (t : Tree) (st : State) : Prop where
  outside : ∀ q, ¬ Inside dir q → st.tree.stat q = t.stat q ∨
    q <+: dir ∧ t.stat q = none ∧ st.tree.stat q = some .dir
  inside : ∀ w ∈ st.writes, Inside dir w.path

/-- The regular entries that were written fit the limits. -/
structure Fits (st : State) : Prop where
  count : st.writes.length ≤ lims.maxFiles
  each : ∀ w ∈ st.writes, w.written ≤ lims.maxFileBytes
  total : st.bytesWritten ≤ lims.maxTotalBytes

/-! ## One entry -/

/-- What holds between two entries. -/
structure Loop (dir : Path) (t : Tree) (st : State) : Prop where
  there : DirThere dir st.tree
  confined : Confined dir t st
  fits : Fits lims st
  counted : st.fileCount = st.writes.length
  totalled : st.totalWritten = st.bytesWritten

/-- The bytes written, at any time. -/
def Bounded (st : State) : Prop := st.bytesWritten ≤ lims.maxTotalBytes + lims.maxFileBytes + 1

section Entry

variable {lims : UnzipLimits} {cwd dir q : Path} {dest : Bytes} {t t' : Tree} {st st' : State}
  {os : OsAnswer} {f : ZipEntry} {fpath : Path}

theorem Loop.bounded (h : Loop lims dir t st) (hlims : Positive lims) : Bounded lims st := by
  have htotal := h.fits.total
  have hfile := hlims.file
  unfold Bounded
  omega

/-- What is above the directory is not inside it. -/
theorem not_inside_of_leads (hq : q <+: dir) : ¬ Inside dir q := by
  rintro ⟨hbelow, hne⟩
  exact hne (hq.eq_of_length_le hbelow.length_le)

/-- A step that changes no tree but inside the directory, and writes to no file. -/
theorem Confined.step (h : Confined dir t st)
    (hsame : ∀ q, ¬ Inside dir q → st'.tree.stat q = st.tree.stat q) (hwrites : st'.writes = st.writes) :
    Confined dir t st' := by
  refine ⟨?_, ?_⟩
  · intro q hq
    rw [hsame q hq]
    exact h.outside q hq
  · rw [hwrites]
    exact h.inside

theorem DirThere.tree (h : DirThere dir t) (hsame : ∀ q, ¬ Inside dir q → t'.stat q = t.stat q) :
    DirThere dir t' := by
  intro q hq
  rw [hsame q (not_inside_of_leads hq)]
  exact h q hq

/-- Directories below the directory change nothing outside it. -/
theorem outside_mkdirAll (hdir : DirThere dir t) (hp : dir <+: fpath) (hq : ¬ Inside dir q)
    (refuses : Path → Option Bytes) :
    (Tree.leftBy (mkdirAll refuses t fpath)).stat q = t.stat q := by
  rcases Tree.mkdirAll_changes refuses t fpath q with hsame | ⟨hqp, hnone, _⟩
  · exact hsame
  · -- of what is above the path, all up to the directory is there
    have hqd : q <+: dir := by
      rcases List.prefix_or_prefix_of_prefix hqp hp with hqd | hdq
      · exact hqd
      · by_cases heq : q = dir
        · rw [heq]
        · exact absurd ⟨hdq, heq⟩ hq
    rw [hdir q hqd] at hnone
    cases hnone

theorem length_copied_le (hlims : Positive lims) : ((copied lims f).length : Int) ≤ lims.maxFileBytes + 1 := by
  have hfile := hlims.file
  unfold copied
  rw [if_pos hfile, List.length_take]
  omega

/-- No copy writes more than one byte over the limit. -/
theorem length_ioCopy_le (os : OsAnswer) (f : ZipEntry) (hlims : Positive lims) :
    ((ioCopy lims os f).1.length : Int) ≤ lims.maxFileBytes + 1 := by
  have hcopied := length_copied_le (f := f) hlims
  unfold ioCopy
  split
  · split
    · simp only [List.length_take]
      omega
    · exact hcopied
  · exact hcopied

/-- A copy keeps what holds between entries, or ends the loop with at most one file too much. -/
theorem copyFile_spec (hlims : Positive lims) (hthere : DirThere dir st.tree) (h : Confined dir t st)
    (hfits : Fits lims st) (hcount : st.fileCount = st.writes.length + 1)
    (hmax : st.fileCount ≤ lims.maxFiles) (htotal : st.totalWritten = st.bytesWritten)
    (hin : Inside dir fpath) :
    Confined dir t (left (copyFile lims os f fpath st)) ∧
      Bounded lims (left (copyFile lims os f fpath st)) ∧
      ∀ st', copyFile lims os f fpath st = .ok st' → Loop lims dir t st' := by
  have hsum := hfits.total
  have hfile := hlims.file
  have htot := hlims.total
  have hlen := length_ioCopy_le os f hlims
  unfold copyFile
  cases hopen : f.openErr with
  | some err =>
    refine ⟨h, ?_, by simp⟩
    show (st.bytesWritten : Int) ≤ _
    omega
  | none =>
    generalize ioCopy lims os f = copy at hlen ⊢
    obtain ⟨content, err⟩ := copy
    have hother : ∀ q, ¬ Inside dir q →
        (st.tree.put fpath (.file content)).stat q = st.tree.stat q := by
      intro q hq
      refine Tree.stat_put_ne ?_
      rintro rfl
      exact hq hin
    have hinside : ∀ w ∈ (⟨fpath, content.length⟩ :: st.writes : List FileWrite), Inside dir w.path := by
      intro w hw
      rcases List.mem_cons.mp hw with rfl | hw
      · exact hin
      · exact h.inside w hw
    have hconf : ∀ n, Confined dir t { st with
        tree := st.tree.put fpath (.file content)
        totalWritten := n
        writes := ⟨fpath, content.length⟩ :: st.writes } := by
      intro n
      refine ⟨?_, hinside⟩
      intro q hq
      show (st.tree.put fpath (.file content)).stat q = _ ∨
        _ ∧ _ ∧ (st.tree.put fpath (.file content)).stat q = _
      rw [hother q hq]
      exact h.outside q hq
    have hbytes : ((⟨fpath, content.length⟩ :: st.writes).map FileWrite.written).sum =
        content.length + st.bytesWritten := by
      simp [State.bytesWritten]
    have hbound : ∀ n, Bounded lims { st with
        tree := st.tree.put fpath (.file content)
        totalWritten := n
        writes := ⟨fpath, content.length⟩ :: st.writes } := by
      intro n
      show ((List.map FileWrite.written _).sum : Int) ≤ _
      rw [hbytes]
      simp only at hlen
      omega
    cases err with
    | some err => exact ⟨hconf _, hbound _, by simp⟩
    | none =>
      simp only
      by_cases hbig : 0 < lims.maxFileBytes ∧ lims.maxFileBytes < (content.length : Int)
      · rw [if_pos hbig]
        exact ⟨hconf _, hbound _, by simp⟩
      rw [if_neg hbig]
      by_cases hfull : 0 < lims.maxTotalBytes ∧ lims.maxTotalBytes < st.totalWritten + (content.length : Int)
      · rw [if_pos hfull]
        exact ⟨hconf _, hbound _, by simp⟩
      rw [if_neg hfull]
      refine ⟨hconf _, hbound _, ?_⟩
      rintro _ ⟨⟩
      -- all three checks have passed
      refine ⟨hthere.tree hother, hconf _, ⟨?_, ?_, ?_⟩, ?_, ?_⟩
      · simp only [List.length_cons]
        omega
      · intro w hw
        rcases List.mem_cons.mp hw with rfl | hw
        · show (content.length : Int) ≤ _
          omega
        · exact hfits.each w hw
      · show ((List.map FileWrite.written _).sum : Int) ≤ _
        rw [hbytes]
        omega
      · simp only [List.length_cons]
        omega
      · show st.totalWritten + (content.length : Int) = ((List.map FileWrite.written _).sum : Int)
        rw [hbytes]
        omega

/-- One entry keeps what holds between entries; an error leaves no more than is allowed. -/
theorem extractEntry_spec (os : OsAnswer) (f : ZipEntry) (hlims : Positive lims)
    (hdest : (components dest).getLast? ≠ some dotDot) (h : Loop lims (locate cwd dest) t st) :
    Confined (locate cwd dest) t (left (extractEntry lims cwd dest os st f)) ∧
      Bounded lims (left (extractEntry lims cwd dest os st f)) ∧
      ∀ st', extractEntry lims cwd dest os st f = .ok st' → Loop lims (locate cwd dest) t st' := by
  have hbound := h.bounded hlims
  unfold extractEntry
  by_cases hpre : ¬ hasPrefix (joinPath dest f.name) (clean dest ++ [slash]) = true
  · simp only [if_pos hpre]
    exact ⟨h.confined, hbound, by simp⟩
  simp only [if_neg hpre]
  have hin : Inside (locate cwd dest) (locate cwd (joinPath dest f.name)) :=
    locate_below cwd hdest (not_not.mp hpre)
  generalize locate cwd (joinPath dest f.name) = fpath at hin ⊢
  by_cases hdir : f.isDir = true
  · -- a directory entry
    simp only [if_pos hdir]
    have hsame : ∀ q, ¬ Inside (locate cwd dest) q →
        (Tree.leftBy (mkdirAll os.refuses st.tree fpath)).stat q = st.tree.stat q :=
      fun q hq => outside_mkdirAll h.there hin.1 hq os.refuses
    cases hm : mkdirAll os.refuses st.tree fpath with
    | error e =>
      rw [hm] at hsame
      exact ⟨h.confined.step hsame rfl, hbound, by simp⟩
    | ok tree =>
      rw [hm] at hsame
      refine ⟨h.confined.step hsame rfl, hbound, ?_⟩
      rintro _ ⟨⟩
      exact ⟨h.there.tree hsame, h.confined.step hsame rfl, ⟨h.fits.count, h.fits.each, h.fits.total⟩,
        h.counted, h.totalled⟩
  simp only [if_neg hdir]
  by_cases hfiles : 0 < lims.maxFiles ∧ lims.maxFiles < st.fileCount + 1
  · rw [if_pos hfiles]
    exact ⟨⟨h.confined.outside, h.confined.inside⟩, hbound, by simp⟩
  rw [if_neg hfiles]
  by_cases hsize : 0 < lims.maxFileBytes ∧ lims.maxFileBytes < toInt64 f.uncompressedSize64
  · rw [if_pos hsize]
    exact ⟨⟨h.confined.outside, h.confined.inside⟩, hbound, by simp⟩
  rw [if_neg hsize]
  -- the directory of the file is the directory itself or below it
  have hparent : locate cwd dest <+: fpath.dropLast := by
    have hne : fpath ≠ [] := by
      rintro rfl
      exact hin.2 (List.prefix_nil.mp hin.1).symm
    exact ((prefix_iff_dropLast hne).mp hin.1).resolve_right fun heq => hin.2 heq.symm
  have hsame : ∀ q, ¬ Inside (locate cwd dest) q →
      (Tree.leftBy (mkdirAll os.refuses st.tree fpath.dropLast)).stat q = st.tree.stat q :=
    fun q hq => outside_mkdirAll h.there hparent hq os.refuses
  cases hm : mkdirAll os.refuses st.tree fpath.dropLast with
  | error e =>
    rw [hm] at hsame
    exact ⟨h.confined.step hsame rfl, hbound, by simp⟩
  | ok tree =>
    rw [hm] at hsame
    have hsame' : ∀ q, ¬ Inside (locate cwd dest) q →
        (Tree.leftBy (createFile os.refuses tree fpath)).stat q = st.tree.stat q := by
      intro q hq
      rw [← hsame q hq]
      refine Tree.stat_createFile ?_
      rintro rfl
      exact hq hin
    cases hc : createFile os.refuses tree fpath with
    | error e =>
      rw [hc] at hsame'
      simp only [hc]
      exact ⟨h.confined.step hsame' rfl, hbound, by simp⟩
    | ok tree' =>
      rw [hc] at hsame'
      simp only [hc]
      have hcount := h.counted
      have hpos := hlims.files
      refine copyFile_spec hlims (h.there.tree hsame') (h.confined.step hsame' rfl)
        ⟨h.fits.count, h.fits.each, h.fits.total⟩ ?_ ?_ h.totalled hin
      · show st.fileCount + 1 = (st.writes.length : Int) + 1
        omega
      · show st.fileCount + 1 ≤ _
        omega

end Entry

/-! ## All entries -/

section Run

variable {lims : UnzipLimits} {cwd : Path} {dest : Bytes} {t : Tree} {st : State}

/-- The loop keeps what holds between entries up to the entry that fails. -/
theorem extractAll_spec (hlims : Positive lims) (hdest : (components dest).getLast? ≠ some dotDot)
    (os : Nat → OsAnswer) (i : Nat) (entries : List ZipEntry) (h : Loop lims (locate cwd dest) t st) :
    Confined (locate cwd dest) t (left (extractAll lims cwd dest os i entries st)) ∧
      Bounded lims (left (extractAll lims cwd dest os i entries st)) ∧
      ∀ st', extractAll lims cwd dest os i entries st = .ok st' → Loop lims (locate cwd dest) t st' := by
  induction entries generalizing i st with
  | nil =>
    refine ⟨h.confined, h.bounded hlims, ?_⟩
    rintro _ ⟨⟩
    exact h
  | cons f entries ih =>
    have hentry := extractEntry_spec (os i) f hlims hdest h
    unfold extractAll
    cases hf : extractEntry lims cwd dest (os i) st f with
    | error e =>
      rw [hf] at hentry
      exact ⟨hentry.1, hentry.2.1, by simp⟩
    | ok st' => exact ih (i + 1) (hentry.2.2 st' hf)

/-- Extraction is confined to the directory and bounded by the limits, whatever the archive
says about itself and wherever the system stops it. The directory must not end with `..`. -/
theorem unzipWithLimits_confined (hlims : Positive lims)
    (hdest : (components dest).getLast? ≠ some dotDot) (os : Nat → OsAnswer) (archive : Archive) :
    Confined (locate cwd dest) t (left (unzipWithLimits lims cwd dest os archive t)) ∧
      (DirThere (locate cwd dest) t → ∀ q, ¬ Inside (locate cwd dest) q →
        (left (unzipWithLimits lims cwd dest os archive t)).tree.stat q = t.stat q) ∧
      Bounded lims (left (unzipWithLimits lims cwd dest os archive t)) ∧
      ∀ st, unzipWithLimits lims cwd dest os archive t = .ok st → Fits lims st := by
  have hmain : Confined (locate cwd dest) t (left (unzipWithLimits lims cwd dest os archive t)) ∧
      Bounded lims (left (unzipWithLimits lims cwd dest os archive t)) ∧
      ∀ st, unzipWithLimits lims cwd dest os archive t = .ok st → Fits lims st := by
    have htotal := hlims.total
    have hfile := hlims.file
    have hfiles := hlims.files
    have hnone : ∀ tree, Bounded lims { tree } := by
      intro tree
      show ((0 : Nat) : Int) ≤ _
      omega
    unfold unzipWithLimits
    cases archive with
    | error err => exact ⟨⟨fun _ _ => .inl rfl, by simp [left]⟩, hnone _, by simp⟩
    | ok entries =>
      have hmade := Tree.mkdirAll_changes (os 0).refuses t (locate cwd dest)
      cases hm : mkdirAll (os 0).refuses t (locate cwd dest) with
      | error e =>
        rw [hm] at hmade
        exact ⟨⟨fun q _ => hmade q, by simp [left]⟩, hnone _, by simp⟩
      | ok tree =>
        rw [hm] at hmade
        have hloop : Loop lims (locate cwd dest) t { tree } := by
          refine ⟨fun q hq => Tree.dir_mkdirAll hm hq, ⟨fun q _ => hmade q, by simp⟩, ⟨?_, by simp, ?_⟩,
            rfl, rfl⟩
          · show ((0 : Nat) : Int) ≤ _
            omega
          · show ((0 : Nat) : Int) ≤ _
            omega
        have hall := extractAll_spec hlims hdest os 1 entries hloop
        exact ⟨hall.1, hall.2.1, fun st hst => (hall.2.2 st hst).fits⟩
  refine ⟨hmain.1, ?_, hmain.2⟩
  intro hthere q hq
  rcases hmain.1.outside q hq with hsame | ⟨habove, hnone, _⟩
  · exact hsame
  · rw [hthere q habove] at hnone
    cases hnone

/-- The directory of `Prepare` ends with a name. -/
theorem tmpDir_last (workDir : Bytes) : (components (tmpDir workDir)).getLast? ≠ some dotDot := by
  obtain ⟨dirs, y, hsplit⟩ := splitOn_append workDir
  have hname : ∀ c : Bytes, (y ++ utf8 ".tmp") ≠ c ∨ 4 ≤ c.length := by
    intro c
    by_cases heq : y ++ utf8 ".tmp" = c
    · right
      rw [← heq]
      simp [show (utf8 ".tmp").length = 4 by decide]
    · exact .inl heq
  unfold components tmpDir
  rw [hsplit _ (by decide), List.foldl_append]
  show (cleanPush _ _ (y ++ utf8 ".tmp")).getLast? ≠ _
  unfold cleanPush
  have hempty := (hname []).resolve_right (by decide)
  have hdot := (hname dot).resolve_right (by decide)
  have hdots := (hname dotDot).resolve_right (by decide)
  rw [if_neg (not_or.mpr ⟨hempty, hdot⟩), if_neg hdots]
  simpa using hdots

end Run

/-- An archive with a name that leads out of the directory, after a file that fits. -/
def climbing : Archive :=
  .ok [.ofFile "1.in" "3 4", { ZipEntry.ofFile "../7/1.in" "5 6" with uncompressedSize64 := 1 }]

/-- Two directories, of which the second is the one `Prepare` has just made. -/
def prepared : Tree :=
  [([utf8 "cases_unzipped", utf8 "7.tmp"], .dir), ([utf8 "cases_unzipped"], .dir)]

/-- The second entry is not extracted. -/
theorem unzipWithLimits_confined_climbing :
    let r := unzipWithLimits ⟨10, 4, 2⟩ [] (tmpDir (utf8 "cases_unzipped/7")) (fun _ => {}) climbing prepared
    let dir := locate [] (tmpDir (utf8 "cases_unzipped/7"))
    (dir = [utf8 "cases_unzipped", utf8 "7.tmp"] ∧ (left r).writes = [⟨dir ++ [utf8 "1.in"], 3⟩] ∧
      ∃ e, r = .error e) ∧
    Confined dir prepared (left r) ∧ (∀ q, ¬ Inside dir q → (left r).tree.stat q = prepared.stat q) ∧
    Bounded ⟨10, 4, 2⟩ (left r) := by
  have hlims : Positive ⟨10, 4, 2⟩ := ⟨by decide, by decide, by decide⟩
  have hdest : (components (tmpDir (utf8 "cases_unzipped/7"))).getLast? ≠ some dotDot := by decide
  refine ⟨⟨by decide, by decide, _, rfl⟩, (unzipWithLimits_confined hlims hdest _ climbing).1,
    (unzipWithLimits_confined hlims hdest _ climbing).2.1 ?_,
    (unzipWithLimits_confined hlims hdest _ climbing).2.2.1⟩
  have hall : ∀ q ∈ [[], [utf8 "cases_unzipped"], [utf8 "cases_unzipped", utf8 "7.tmp"]],
      prepared.stat q = some .dir := by decide
  intro q hq
  exact hall q ((List.mem_inits _ _).mpr hq)

end DeepOj.Worker.Unzipping
