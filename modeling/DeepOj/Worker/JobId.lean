import DeepOj.Go.Regexp
import DeepOj.Go.Resolve
import DeepOj.Go.Utf8
import DeepOj.Sandbox.Compile
import DeepOj.Worker.Judge

/-!
# Job ids and the directories named after them

Two validators guard the recursive deletion of a job's directories: a regular expression over
the characters of the id in the judge, a loop over its signed bytes in the engine.
-/

namespace DeepOj.Worker

open Go Sandbox

/-! ## The two validators -/

/-- `[A-Za-z0-9_-]`. -/
def isJobIDChar (c : Char) : Bool :=
  (65 ≤ c.toNat && c.toNat ≤ 90) || (97 ≤ c.toNat && c.toNat ≤ 122) ||
    (48 ≤ c.toNat && c.toNat ≤ 57) || c = '_' || c = '-'

/-- `safeJobIDRegex`: `^[A-Za-z0-9_-]{1,64}$`. -/
def safeJobIDRegex : List Piece := [.beginText, .repeated isJobIDChar 1 64, .endText]

/-- `isSafeJobID`, of any bytes. -/
def isSafeJobIDBytes (jobID : Bytes) : Bool := matchString safeJobIDRegex (runes jobID)

/-- A `char` as it is passed to `isalnum`. -/
def signedChar (b : UInt8) : Int := if b.toNat < 128 then b.toNat else b.toNat - 256

/-- `std::isalnum` in the C locale. -/
def isalnum (c : Int) : Bool :=
  (48 ≤ c && c ≤ 57) || (65 ≤ c && c ≤ 90) || (97 ≤ c && c ≤ 122)

/-- `IsValidRequestId`, with the characters signed. -/
def isValidRequestIdChars (id : Bytes) : Bool :=
  if id = [] ∨ 64 < id.length then false
  else id.all fun b => isalnum (signedChar b) || signedChar b = 95 || signedChar b = 45

section Validators

variable {id : Bytes}

/-- Of a text the bytes and the characters say the same. -/
theorem isSafeJobIDBytes_utf8 (jobID : String) : isSafeJobIDBytes (utf8 jobID) = isSafeJobID jobID := by
  rw [Bool.eq_iff_iff]
  unfold isSafeJobIDBytes safeJobIDRegex isSafeJobID
  rw [runes_utf8, matchString_anchored, String.length_toList]
  simp only [Bool.and_eq_true, decide_eq_true_iff, List.all_eq_true, and_assoc]
  exact Iff.rfl

/-- A negative character is neither a letter nor a digit. -/
theorem isValidRequestIdChars_eq (id : Bytes) : isValidRequestIdChars id = Compile.isValidRequestId id := by
  have hbyte : ∀ b : UInt8, (isalnum (signedChar b) || signedChar b = 95 || signedChar b = 45) =
      ((48 ≤ b.toNat && b.toNat ≤ 57) || (65 ≤ b.toNat && b.toNat ≤ 90) ||
        (97 ≤ b.toNat && b.toNat ≤ 122) || b = 95 || b = 45) := by
    intro b
    have hlt : b.toNat < 256 := b.toNat_lt
    have h95 : b = 95 ↔ b.toNat = 95 := UInt8.toNat_inj.symm
    have h45 : b = 45 ↔ b.toNat = 45 := UInt8.toNat_inj.symm
    rw [Bool.eq_iff_iff]
    unfold isalnum signedChar
    simp only [Bool.or_eq_true, Bool.and_eq_true, decide_eq_true_iff, h95, h45]
    split <;> omega
  unfold isValidRequestIdChars Compile.isValidRequestId
  simp only [hbyte]
  by_cases hbad : id = [] ∨ 64 < id.length
  · rw [if_pos hbad]
    rcases hbad with rfl | hlong
    · rfl
    · have hle : ¬ id.length ≤ 64 := by omega
      simp [hle]
  · rw [if_neg hbad]
    rw [not_or, Nat.not_lt] at hbad
    simp [hbad.1, hbad.2]

/-- Bytes of the engine's set are read as the judge's characters, one by one. -/
theorem runes_of_isValidRequestId (h : Compile.isValidRequestId id = true) :
    runes id = id.map (fun b => Char.ofNat b.toNat) ∧ ∀ c ∈ runes id, isJobIDChar c = true := by
  unfold Compile.isValidRequestId at h
  simp only [Bool.and_eq_true, Bool.or_eq_true, decide_eq_true_iff, List.all_eq_true] at h
  have hascii : ∀ b ∈ id, b.toNat < 128 := by
    intro b hb
    rcases h.2 b hb with (hset | rfl) | rfl
    · omega
    · decide
    · decide
  have hmap := runes_ascii hascii
  refine ⟨hmap, ?_⟩
  rw [hmap]
  intro c hc
  obtain ⟨b, hb, rfl⟩ := List.mem_map.mp hc
  have hvalid : b.toNat.isValidChar := .inl (by have hlt := hascii b hb; omega)
  have hnat : (Char.ofNat b.toNat).toNat = b.toNat := by
    rw [Char.ofNat, dif_pos hvalid]
    rfl
  unfold isJobIDChar
  simp only [hnat, Bool.or_eq_true, Bool.and_eq_true, decide_eq_true_iff]
  rcases h.2 b hb with (hset | rfl) | rfl
  · omega
  · decide
  · decide

/-- The judge's characters are bytes of the engine's set. -/
theorem byte_of_isJobIDChar {c : Char} (h : isJobIDChar c = true) : c.toNat < 128 ∧
    ((48 ≤ (UInt8.ofNat c.toNat).toNat ∧ (UInt8.ofNat c.toNat).toNat ≤ 57) ∨
      (65 ≤ (UInt8.ofNat c.toNat).toNat ∧ (UInt8.ofNat c.toNat).toNat ≤ 90) ∨
      (97 ≤ (UInt8.ofNat c.toNat).toNat ∧ (UInt8.ofNat c.toNat).toNat ≤ 122) ∨
      UInt8.ofNat c.toNat = 95 ∨ UInt8.ofNat c.toNat = 45) := by
  unfold isJobIDChar at h
  simp only [Bool.or_eq_true, Bool.and_eq_true, decide_eq_true_iff] at h
  rcases h with (hset | rfl) | rfl
  · have hlt : c.toNat < 128 := by omega
    have hnat : (UInt8.ofNat c.toNat).toNat = c.toNat := by
      rw [UInt8.toNat_ofNat']
      omega
    rw [hnat]
    omega
  · decide
  · decide

/-- The two validators accept the same byte strings. -/
theorem isSafeJobIDBytes_eq (id : Bytes) : isSafeJobIDBytes id = Compile.isValidRequestId id := by
  rw [Bool.eq_iff_iff]
  unfold isSafeJobIDBytes safeJobIDRegex
  rw [matchString_anchored]
  constructor
  · rintro ⟨hlo, hhi, hall⟩
    have hbytes := eq_map_runes fun c hc => (byte_of_isJobIDChar (hall c hc)).1
    have hlen : id.length = (runes id).length := by
      rw [hbytes, List.length_map, ← hbytes]
    have hne : id ≠ [] := by
      rintro rfl
      rw [← hlen] at hlo
      exact absurd hlo (by decide)
    unfold Compile.isValidRequestId
    simp only [Bool.and_eq_true, Bool.or_eq_true, decide_eq_true_iff, List.all_eq_true]
    refine ⟨⟨hne, by omega⟩, ?_⟩
    intro b hb
    rw [hbytes] at hb
    obtain ⟨c, hc, rfl⟩ := List.mem_map.mp hb
    have hset := (byte_of_isJobIDChar (hall c hc)).2
    tauto
  · intro h
    obtain ⟨hmap, hall⟩ := runes_of_isValidRequestId h
    unfold Compile.isValidRequestId at h
    simp only [Bool.and_eq_true, decide_eq_true_iff] at h
    have hpos := List.length_pos_iff.mpr h.1.1
    have hlen : (runes id).length = id.length := by rw [hmap, List.length_map]
    exact ⟨by omega, by omega, hall⟩

/-- An accepted id is the name of something in a directory. -/
theorem ordinary_of_isValidRequestId (h : Compile.isValidRequestId id = true) : Ordinary id := by
  unfold Compile.isValidRequestId at h
  simp only [Bool.and_eq_true, decide_eq_true_iff, List.all_eq_true] at h
  have hnot : ∀ b ∈ id, b ≠ 46 ∧ b ≠ slash := by
    intro b hb
    have hset := h.2 b hb
    constructor <;> rintro rfl <;> exact absurd hset (by decide)
  exact
    { nonempty := h.1.1
      notDot := by
        rintro rfl
        exact (hnot 46 (by decide)).1 rfl
      notDotDot := by
        rintro rfl
        exact (hnot 46 (by decide)).1 rfl
      noSlash := fun hmem => (hnot slash hmem).2 rfl }

end Validators

/-! ## The directories -/

/-- `filepath.Join`, of any number of elements. -/
def joinPaths (elems : List Bytes) : Bytes :=
  match elems.dropWhile (· = []) with
  | [] => []
  | elem :: more => clean ([slash].intercalate (elem :: more))

/-- Where `ExecuteTask` keeps the directories of the jobs. -/
def codeDir (workspace : Bytes) : Bytes := joinPaths [workspace, utf8 "code"]

/-- `jobDir` in `ExecuteTask`. -/
def jobDir (workspace jobID : Bytes) : Bytes := joinPaths [workspace, utf8 "code", jobID]

/-- `fs::path(path) / name`. -/
def fsAppend (path name : Bytes) : Bytes :=
  if isRooted name then name
  else if path = [] ∨ path.getLast? = some slash then path ++ name
  else path ++ slash :: name

/-- What `ExecuteTask` removes in the end. -/
def removedByExecuteTask (workspace : Bytes) (keepWorkdir : Bool) (jobID : Bytes) : Option Bytes :=
  if isSafeJobIDBytes jobID = false then none
  else if keepWorkdir then none else some (jobDir workspace jobID)

/-- What `Sandbox::Compile` removes unless the source compiles. -/
def removedByCompile (tempDir requestID : Bytes) : Option Bytes :=
  if isValidRequestIdChars requestID = false then none else some (fsAppend tempDir requestID)

/-- What `Sandbox::Cleanup` removes. -/
def removedByCleanup (tempDir requestID : Bytes) : Option Bytes :=
  if requestID = [] then none
  else if isValidRequestIdChars requestID = false then none
  else some (fsAppend tempDir requestID)

section Confined

variable {id : Bytes}

/-- The judge removes an entry of its code directory. -/
theorem directChild_jobDir (h : Ordinary id) (workspace : Bytes) :
    DirectChild (codeDir workspace) (jobDir workspace id) id := by
  have hcode : Ordinary (utf8 "code") := ⟨by decide, by decide, by decide, by decide⟩
  -- the code directory is clean and has a name, and the id is added to it
  have hchild : ∀ path : Bytes, path ≠ [] → components path ≠ [] →
      DirectChild (clean path) (clean (path ++ slash :: id)) id := by
    intro path hpath hcomp
    rw [clean_append h hpath hcomp]
    exact directChild_append h (clean_ne_nil path)
  by_cases hempty : workspace = []
  · have hbase : codeDir workspace = clean (utf8 "code") := by
      rw [hempty]
      decide
    have hpath : jobDir workspace id = clean (utf8 "code" ++ slash :: id) := by
      unfold jobDir joinPaths
      rw [List.dropWhile_cons_of_pos (by simpa using hempty), List.dropWhile_cons_of_neg (by decide)]
      simp [List.intercalate]
    rw [hbase, hpath]
    exact hchild (utf8 "code") (by decide) (by decide)
  · have hbase : codeDir workspace = clean (workspace ++ slash :: utf8 "code") := by
      unfold codeDir joinPaths
      rw [List.dropWhile_cons_of_neg (by simpa using hempty)]
      simp [List.intercalate]
    have hpath : jobDir workspace id = clean (workspace ++ slash :: utf8 "code" ++ slash :: id) := by
      unfold jobDir joinPaths
      rw [List.dropWhile_cons_of_neg (by simpa using hempty)]
      simp [List.intercalate]
    rw [hbase, hpath]
    apply hchild
    · simp
    · rw [components_append hcode hempty]
      simp

/-- The engine's directories are entries of its own, wherever that is. -/
theorem directChild_fsAppend (h : Ordinary id) (tempDir : Bytes) :
    DirectChild tempDir (fsAppend tempDir id) id := by
  unfold fsAppend
  rw [isRooted_of_ordinary h, if_neg Bool.false_ne_true]
  by_cases hnil : tempDir = []
  · subst hnil
    exact directChild_nil h
  by_cases hlast : tempDir.getLast? = some slash
  · obtain ⟨front, rfl⟩ := List.getLast?_eq_some_iff.mp hlast
    rw [if_pos (.inr hlast), List.append_assoc]
    exact directChild_slash h
  · rw [if_neg (not_or.mpr ⟨hnil, hlast⟩)]
    exact directChild_append h hnil

/-- A workspace that is not empty is what compile mode is given: the paths are the same. -/
theorem fsAppend_eq_requestDir (cfg : Compile.GlobalConfig) (hroot : cfg.workspaceRoot ≠ [])
    (h : Ordinary id) : fsAppend cfg.workspaceRoot id = Compile.requestDir cfg id := by
  unfold fsAppend Compile.requestDir Compile.appendPath
  rw [isRooted_of_ordinary h, if_neg Bool.false_ne_true]
  simp only [hroot, false_or]
  rfl

/-- What is removed for an id, each time only after the check. -/
theorem removedByExecuteTask_eq_some {workspace path : Bytes} {keepWorkdir : Bool} :
    removedByExecuteTask workspace keepWorkdir id = some path ↔
      isSafeJobIDBytes id = true ∧ keepWorkdir = false ∧ jobDir workspace id = path := by
  unfold removedByExecuteTask
  cases hsafe : isSafeJobIDBytes id with
  | false => simp
  | true => cases keepWorkdir <;> simp

theorem removedByCompile_eq_some {tempDir path : Bytes} :
    removedByCompile tempDir id = some path ↔
      isValidRequestIdChars id = true ∧ fsAppend tempDir id = path := by
  unfold removedByCompile
  cases isValidRequestIdChars id <;> simp

/-- The test for the empty id makes no difference, as the other refuses that id too. -/
theorem removedByCleanup_eq (tempDir id : Bytes) : removedByCleanup tempDir id = removedByCompile tempDir id := by
  unfold removedByCleanup removedByCompile
  by_cases hnil : id = []
  · rw [if_pos hnil, hnil]
    rfl
  · rw [if_neg hnil]

/-- The two validators agree on every byte string, what they accept is named after, and whatever is
removed for a byte string, accepted or not, is an entry of the base directory under that name. -/
theorem job_ids_confined (id : Bytes) :
    isSafeJobIDBytes id = isValidRequestIdChars id ∧
      (isValidRequestIdChars id = true → ∀ base,
        DirectChild (codeDir base) (jobDir base id) id ∧ DirectChild base (fsAppend base id) id) ∧
      (∀ workspace keepWorkdir path, removedByExecuteTask workspace keepWorkdir id = some path →
        DirectChild (codeDir workspace) path id) ∧
      (∀ tempDir path, removedByCompile tempDir id = some path → DirectChild tempDir path id) ∧
      ∀ tempDir path, removedByCleanup tempDir id = some path → DirectChild tempDir path id := by
  have hsame : isSafeJobIDBytes id = isValidRequestIdChars id := by
    rw [isSafeJobIDBytes_eq, isValidRequestIdChars_eq]
  have hname : isValidRequestIdChars id = true → Ordinary id := by
    intro hvalid
    rw [isValidRequestIdChars_eq] at hvalid
    exact ordinary_of_isValidRequestId hvalid
  have hengine : ∀ tempDir path, removedByCompile tempDir id = some path → DirectChild tempDir path id := by
    intro tempDir path hpath
    obtain ⟨hvalid, rfl⟩ := removedByCompile_eq_some.mp hpath
    exact directChild_fsAppend (hname hvalid) tempDir
  refine ⟨hsame, ?_, ?_, ?_, ?_⟩
  · intro hvalid base
    exact ⟨directChild_jobDir (hname hvalid) base, directChild_fsAppend (hname hvalid) base⟩
  · intro workspace keepWorkdir path hpath
    obtain ⟨hsafe, _, rfl⟩ := removedByExecuteTask_eq_some.mp hpath
    exact directChild_jobDir (hname (hsame.symm.trans hsafe)) workspace
  · exact hengine
  · intro tempDir path hpath
    rw [removedByCleanup_eq] at hpath
    exact hengine tempDir path hpath

end Confined

end DeepOj.Worker
