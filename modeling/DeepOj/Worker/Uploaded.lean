import DeepOj.Api.ProblemZip
import DeepOj.Worker.TestLoop
import DeepOj.Worker.Unzip

/-!
# The problem that was checked and the problem that is judged

The API pairs inputs and outputs by the names of the archive's entries, the
worker by what stands right in the directory they are extracted to.
-/

namespace DeepOj.Worker

open Api Go Cluster

/-- The checked pairs, as the paths they are extracted to. -/
def checkedPaths (entries : List ZipEntry) (workDir : Path) : List (Path × Path) :=
  (checkedPairs entries).map fun pair => (join workDir pair.1, join workDir pair.2)

/-- The test cases are exactly the checked pairs, and "Accepted" says that at least one ran
and that all of them passed. -/
def JudgedAsChecked (entries : List ZipEntry) (workDir : Path) (t : Tree) : Prop :=
  (∀ pair, pair ∈ testCases t workDir ↔ pair ∈ checkedPaths entries workDir) ∧
  ∀ (execute : Path × Path → Except String JudgeResult) (same : Path × Path → Bool),
    verdictOf (judgeCases execute same (testCases t workDir)) = some "Accepted" →
    testCases t workDir ≠ [] ∧ ∀ pair ∈ checkedPaths entries workDir, Passed execute same pair

/-- An entry the API takes for an input. -/
def IsInput (f : ZipEntry) : Prop :=
  considered f = true ∧ hasSuffix f.name (utf8 ".in") = true

/-- The API and the worker see the same test cases in an archive. -/
structure SameView (entries : List ZipEntry) (workDir : Path) : Prop where
  /-- Every input is extracted right into the directory. -/
  top : ∀ f ∈ entries, IsInput f → ∃ name, join workDir f.name = workDir ++ [name]
  /-- Whatever makes a name ending in `.in` there is such an input. -/
  seen : ∀ f ∈ entries, ∀ name, workDir ++ [name] <+: join workDir f.name →
    hasSuffix name (utf8 ".in") = true → ∃ g ∈ entries, IsInput g ∧
      join workDir g.name = workDir ++ [name]
  /-- Where an input goes without its `.out` file, no entry makes one of that name. -/
  expected : ∀ pre ∈ inFiles entries, ∀ baseName,
    join workDir (pre ++ utf8 ".in") = workDir ++ [baseName ++ utf8 ".in"] →
    (∀ f ∈ entries, considered f = true → f.name ≠ pre ++ utf8 ".out") →
    ∀ f ∈ entries, ¬ workDir ++ [baseName ++ utf8 ".out"] <+: join workDir f.name

section View

variable {entries : List ZipEntry} {workDir : Path} {t : Tree} {pre : Bytes}

/-- The three paths of a prefix differ in the extension only. -/
theorem join_extensions (h : pre ∈ inFiles entries) (workDir : Path) :
    ∃ parent baseName, join workDir (pre ++ utf8 ".in") = parent ++ [baseName ++ utf8 ".in"] ∧
      join workDir (pre ++ utf8 ".out") = parent ++ [baseName ++ utf8 ".out"] ∧
      join workDir (pre ++ utf8 ".ans") = parent ++ [baseName ++ utf8 ".ans"] := by
  obtain ⟨f, -, hc, hname⟩ := mem_inFiles.mp h
  have hvisible : hasPrefix (base (pre ++ utf8 ".in")) (utf8 ".") = false := by
    rw [← hname]
    simp only [considered, Bool.not_eq_true', Bool.or_eq_false_iff] at hc
    exact hc.2
  obtain ⟨baseName, -, hjoin⟩ :=
    join_append (p := pre) (by decide) (by decide) hvisible (by decide)
  obtain ⟨parent, hparent⟩ := hjoin workDir
  exact ⟨parent, baseName, hparent _ (by decide), hparent _ (by decide), hparent _ (by decide)⟩

/-- A pair was checked exactly if it belongs to the prefix of an input. -/
theorem mem_checkedPaths {pair : Path × Path} : pair ∈ checkedPaths entries workDir ↔
    ∃ pre ∈ inFiles entries, pair = (join workDir (pre ++ utf8 ".in"),
      join workDir (checkedOutput entries pre)) := by
  simp only [checkedPaths, checkedPairs, List.map_map, List.mem_map, Function.comp]
  constructor
  · rintro ⟨pre, hpre, rfl⟩
    exact ⟨pre, hpre, rfl⟩
  · rintro ⟨pre, hpre, rfl⟩
    exact ⟨pre, hpre, rfl⟩

/-- A pair is a test case exactly if its input stands in the directory. -/
theorem mem_testCases {pair : Path × Path} : pair ∈ testCases t workDir ↔
    ∃ baseName, t.Has (workDir ++ [baseName ++ utf8 ".in"]) ∧
      pair = (workDir ++ [baseName ++ utf8 ".in"], expectedPath t workDir baseName) := by
  rw [testCases, List.mem_map]
  constructor
  · rintro ⟨name, hname, rfl⟩
    obtain ⟨hhas, hsuf⟩ := mem_inputNames.mp hname
    obtain ⟨baseName, rfl⟩ := hasSuffix_iff.mp hsuf
    exact ⟨baseName, hhas, by rw [trimSuffix_append]⟩
  · rintro ⟨baseName, hhas, rfl⟩
    refine ⟨baseName ++ utf8 ".in", mem_inputNames.mpr ⟨hhas, hasSuffix_append _ _⟩, ?_⟩
    rw [trimSuffix_append]

/-- The worker takes the `.out` file exactly if it stands there. -/
theorem expectedPath_eq (baseName : Bytes) : expectedPath t workDir baseName =
    if t.Has (workDir ++ [baseName ++ utf8 ".out"]) then workDir ++ [baseName ++ utf8 ".out"]
    else workDir ++ [baseName ++ utf8 ".ans"] := by
  unfold expectedPath
  by_cases hthere : t.Has (workDir ++ [baseName ++ utf8 ".out"])
  · rw [if_neg (Option.isSome_iff_ne_none.mp hthere), if_pos hthere]
  · rw [if_pos (Option.not_isSome_iff_eq_none.mp hthere), if_neg hthere]

/-- The expected outputs with either extension are different files. -/
theorem out_ne_ans (baseName : Bytes) :
    workDir ++ [baseName ++ utf8 ".out"] ≠ workDir ++ [baseName ++ utf8 ".ans"] := by
  intro heq
  have hext : baseName ++ utf8 ".out" = baseName ++ utf8 ".ans" := by simpa using heq
  exact absurd (List.append_cancel_left hext) (by decide)

/-- The checked output of a prefix is the `.out` name exactly if the check saw that entry. -/
theorem checkedOutput_eq (entries : List ZipEntry) (pre : Bytes) :
    ((∃ f ∈ entries, considered f = true ∧ f.name = pre ++ utf8 ".out") ∧
      checkedOutput entries pre = pre ++ utf8 ".out") ∨
    ((∀ f ∈ entries, considered f = true → f.name ≠ pre ++ utf8 ".out") ∧
      checkedOutput entries pre = pre ++ utf8 ".ans") := by
  unfold checkedOutput
  by_cases hout : ((entries.filter considered).map (·.name)).contains (pre ++ utf8 ".out") = true
  · left
    obtain ⟨f, hf, hname⟩ := List.mem_map.mp (List.contains_iff_mem.mp hout)
    obtain ⟨hmem, hc⟩ := List.mem_filter.mp hf
    exact ⟨⟨f, hmem, hc, hname⟩, if_pos hout⟩
  · right
    refine ⟨fun f hmem hc hname => hout ?_, if_neg hout⟩
    exact List.contains_iff_mem.mpr (List.mem_map.mpr ⟨f, List.mem_filter.mpr ⟨hmem, hc⟩, hname⟩)

/-- An input is one of the API's prefixes. -/
theorem isInput_iff {f : ZipEntry} (hf : f ∈ entries) (h : IsInput f) :
    ∃ pre ∈ inFiles entries, f.name = pre ++ utf8 ".in" := by
  obtain ⟨pre, hpre⟩ := hasSuffix_iff.mp h.2
  exact ⟨pre, mem_inFiles.mpr ⟨f, hf, h.1, hpre⟩, hpre⟩

section Extracted

-- below the directory stands what the entries make
variable (hhas : ∀ q, workDir <+: q → q ≠ workDir →
  (t.Has q ↔ ∃ f ∈ entries, q <+: join workDir f.name))

include hhas

/-- A name stands right in the directory exactly if an entry makes it. -/
theorem has_name (name : Bytes) :
    t.Has (workDir ++ [name]) ↔ ∃ f ∈ entries, workDir ++ [name] <+: join workDir f.name :=
  hhas _ (List.prefix_append _ _) (by simp)

/-- An entry that is extracted right into the directory stands there. -/
theorem has_of_join {f : ZipEntry} (hf : f ∈ entries) {name : Bytes}
    (hj : join workDir f.name = workDir ++ [name]) : t.Has (workDir ++ [name]) :=
  (has_name hhas name).mpr ⟨f, hf, hj ▸ List.prefix_refl _⟩

/-- Where both see the same, a prefix and the name of its input lead to the same expected
output. -/
theorem expected_agrees (hview : SameView entries workDir) (hpre : pre ∈ inFiles entries)
    {baseName : Bytes}
    (hj : join workDir (pre ++ utf8 ".in") = workDir ++ [baseName ++ utf8 ".in"]) :
    join workDir (checkedOutput entries pre) = expectedPath t workDir baseName := by
  obtain ⟨parent, b, hin, hout, hans⟩ := join_extensions hpre workDir
  obtain ⟨rfl, hlast⟩ := List.append_inj' (hin.symm.trans hj) rfl
  have hb : b = baseName := List.append_cancel_right (List.cons.inj hlast).1
  subst hb
  rw [expectedPath_eq]
  rcases checkedOutput_eq entries pre with ⟨⟨f, hf, -, hname⟩, heq⟩ | ⟨hno, heq⟩
  · have hthere := has_of_join hhas hf (hname ▸ hout)
    rw [heq, if_pos hthere, hout]
  · have hnot : ¬ t.Has (parent ++ [b ++ utf8 ".out"]) := by
      rw [has_name hhas]
      rintro ⟨f, hf, hmakes⟩
      exact hview.expected pre hpre b hj hno f hf hmakes
    rw [heq, if_neg hnot, hans]

/-- The worker goes through the checked pairs exactly if both see the same. -/
theorem pairs_iff_sameView :
    (∀ pair, pair ∈ testCases t workDir ↔ pair ∈ checkedPaths entries workDir) ↔
      SameView entries workDir := by
  constructor
  · intro hpairs
    refine ⟨?_, ?_, ?_⟩
    · intro f hf hinput
      obtain ⟨pre, hpre, hname⟩ := isInput_iff hf hinput
      have hcase := (hpairs _).mpr (mem_checkedPaths.mpr ⟨pre, hpre, rfl⟩)
      obtain ⟨baseName, -, heq⟩ := mem_testCases.mp hcase
      exact ⟨_, hname ▸ (Prod.mk.inj heq).1⟩
    · intro f hf name hmakes hsuf
      obtain ⟨baseName, rfl⟩ := hasSuffix_iff.mp hsuf
      have hthere := (has_name hhas _).mpr ⟨f, hf, hmakes⟩
      have hchecked := (hpairs _).mp (mem_testCases.mpr ⟨baseName, hthere, rfl⟩)
      obtain ⟨pre, hpre, heq⟩ := mem_checkedPaths.mp hchecked
      obtain ⟨g, hg, hc, hname⟩ := mem_inFiles.mp hpre
      refine ⟨g, hg, ⟨hc, ?_⟩, ?_⟩
      · rw [hname]
        exact hasSuffix_append _ _
      · rw [hname]
        exact (Prod.mk.inj heq).1.symm
    · intro pre hpre baseName hj hno f hf hmakes
      -- the test case of this name has the `.out` file, the checked pair the `.ans` file
      have hcase := (hpairs _).mpr (mem_checkedPaths.mpr ⟨pre, hpre, rfl⟩)
      obtain ⟨b, -, heq⟩ := mem_testCases.mp hcase
      obtain ⟨hin, hexp⟩ := Prod.mk.inj heq
      have hb : b = baseName := by
        have hlast := hin.symm.trans hj
        simpa using hlast
      subst hb
      obtain ⟨parent, b', hin', -, hans⟩ := join_extensions hpre workDir
      obtain ⟨rfl, hlast⟩ := List.append_inj' (hin'.symm.trans hj) rfl
      have hb' : b' = b := List.append_cancel_right (List.cons.inj hlast).1
      subst hb'
      have hchecked : checkedOutput entries pre = pre ++ utf8 ".ans" := by
        rcases checkedOutput_eq entries pre with ⟨⟨g, hg, hc, hname⟩, -⟩ | ⟨-, heq⟩
        · exact absurd hname (hno g hg hc)
        · exact heq
      have hthere := (has_name hhas _).mpr ⟨f, hf, hmakes⟩
      rw [hchecked, hans, expectedPath_eq, if_pos hthere] at hexp
      exact out_ne_ans b' hexp.symm
  · intro hview pair
    rw [mem_testCases, mem_checkedPaths]
    constructor
    · rintro ⟨baseName, hthere, rfl⟩
      obtain ⟨f, hf, hmakes⟩ := (has_name hhas _).mp hthere
      obtain ⟨g, hg, hinput, hj⟩ := hview.seen f hf _ hmakes (hasSuffix_append _ _)
      obtain ⟨pre, hpre, hname⟩ := isInput_iff hg hinput
      rw [hname] at hj
      exact ⟨pre, hpre, by rw [hj, expected_agrees hhas hview hpre hj]⟩
    · rintro ⟨pre, hpre, rfl⟩
      obtain ⟨f, hf, hc, hname⟩ := mem_inFiles.mp hpre
      have hinput : IsInput f := ⟨hc, hname ▸ hasSuffix_append _ _⟩
      obtain ⟨name, hj⟩ := hview.top f hf hinput
      rw [hname] at hj
      -- the name right in the directory is that of the prefix, with its extension
      obtain ⟨parent, baseName, hin, -, -⟩ := join_extensions hpre workDir
      obtain ⟨rfl, hlast⟩ := List.append_inj' (hin.symm.trans hj) rfl
      refine ⟨baseName, has_of_join hhas hf (hname ▸ hin), ?_⟩
      rw [hin, expected_agrees hhas hview hpre hin]

end Extracted

/-- If the test cases are the checked pairs, "Accepted" means that they all ran and passed. -/
theorem accepted_of_pairs (hvalid : validateZipContent (.ok entries) = true)
    (hpairs : ∀ pair, pair ∈ testCases t workDir ↔ pair ∈ checkedPaths entries workDir) :
    JudgedAsChecked entries workDir t := by
  refine ⟨hpairs, fun execute same hacc => ⟨?_, ?_⟩⟩
  · intro hnil
    obtain ⟨pre, hpre⟩ := List.exists_mem_of_ne_nil _ (validateZipContent_iff.mp hvalid).1
    have hcase := (hpairs _).mpr (mem_checkedPaths.mpr ⟨pre, hpre, rfl⟩)
    rw [hnil] at hcase
    cases hcase
  · intro pair hpair
    exact (judgeCases_accepted_iff _).mp hacc pair ((hpairs pair).mpr hpair)

end View

/-- For an archive that was accepted and extracted, the worker judges by the pairs the API
checked exactly if both see the same test cases in it. -/
theorem uploaded_is_judged (refuses : Path → Option Bytes) (lims : UnzipLimits)
    (entries : List ZipEntry) (workDir : Path) (disk t : Tree)
    (hvalid : validateZipContent (.ok entries) = true)
    (hunzip : prepareTestCases refuses lims workDir (.ok entries) disk = .ok t) :
    JudgedAsChecked entries workDir t ↔ SameView entries workDir := by
  have hhas : ∀ q, workDir <+: q → q ≠ workDir →
      (t.Has q ↔ ∃ f ∈ entries, q <+: join workDir f.name) :=
    fun q hq hne => has_prepareTestCases hunzip hq hne
  rw [← pairs_iff_sameView hhas]
  exact ⟨fun h => h.1, accepted_of_pairs hvalid⟩

/-! ## Two archives -/

/-- The limits of an ordinary installation. -/
def shippedLimits : UnzipLimits := ⟨268435456, 67108864, 5000⟩

/-- Where an archive is extracted. -/
def caseDir : Path := [utf8 "data", utf8 "7.tmp"]

/-- One test case at the top of the archive. -/
def flatArchive : List ZipEntry := [.ofFile "1.in" "1 2", .ofFile "1.out" "3"]

/-- The directory the flat archive is extracted to. -/
def flatTree : Tree :=
  [(caseDir ++ [utf8 "1.out"], .file (utf8 "3")), (caseDir ++ [utf8 "1.out"], .file []),
    (caseDir ++ [utf8 "1.in"], .file (utf8 "1 2")), (caseDir ++ [utf8 "1.in"], .file []),
    (caseDir, .dir), ([utf8 "data"], .dir)]

/-- The flat archive is accepted and extracted. -/
theorem uploaded_is_judged_flat :
    JudgedAsChecked flatArchive caseDir flatTree ↔ SameView flatArchive caseDir :=
  uploaded_is_judged (fun _ => none) shippedLimits flatArchive caseDir [] flatTree
    (by decide +kernel) (by rfl)

/-- The same test case in a folder of the archive. -/
def nestedArchive : List ZipEntry := [.ofFile "tests/1.in" "1 2", .ofFile "tests/1.out" "3"]

/-- An archive with its test cases in a folder is accepted, and leaves no test case to run:
every program is "Accepted". -/
theorem nested_archive_accepts_all : validateZipContent (.ok nestedArchive) = true ∧
    ∃ t, prepareTestCases (fun _ => none) shippedLimits caseDir (.ok nestedArchive) [] = .ok t ∧
      verdictOf (judgeCases (fun _ => .error "") (fun _ => false) (testCases t caseDir)) =
        some "Accepted" ∧
      ¬ JudgedAsChecked nestedArchive caseDir t := by
  refine ⟨by decide +kernel, _, rfl, by decide +kernel, ?_⟩
  intro h
  refine (h.2 (fun _ => .error "") (fun _ => false) (by decide +kernel)).1 ?_
  decide +kernel

end DeepOj.Worker
