import DeepOj.Go.Filepath
import DeepOj.Go.Zip

/-!
# The check of an uploaded problem

`validateZipContent` goes by the names of the archive's entries.
-/

namespace DeepOj.Api

open Go

/-- An entry that the check does not skip. -/
def considered (f : ZipEntry) : Bool :=
  !(f.isDir || hasPrefix f.name (utf8 "__MACOSX") || hasPrefix (base f.name) (utf8 "."))

/-- The keys of `inFiles`. -/
def inFiles (entries : List ZipEntry) : List Bytes :=
  (entries.filter considered).filterMap fun f =>
    if hasSuffix f.name (utf8 ".in") then some (trimSuffix f.name (utf8 ".in")) else none

/-- The keys of `outFiles`. -/
def outFiles (entries : List ZipEntry) : List Bytes :=
  (entries.filter considered).filterMap fun f =>
    if hasSuffix f.name (utf8 ".in") then none
    else if hasSuffix f.name (utf8 ".out") then some (trimSuffix f.name (utf8 ".out"))
    else if hasSuffix f.name (utf8 ".ans") then some (trimSuffix f.name (utf8 ".ans"))
    else none

/-- `validateZipContent`. -/
def validateZipContent : Archive → Bool
  | .error _ => false
  | .ok entries =>
    if inFiles entries = [] then false
    else (inFiles entries).all fun pre => (outFiles entries).contains pre

/-- The name of the expected output checked for a prefix: the `.out` file if there is one. -/
def checkedOutput (entries : List ZipEntry) (pre : Bytes) : Bytes :=
  if ((entries.filter considered).map (·.name)).contains (pre ++ utf8 ".out") then
    pre ++ utf8 ".out"
  else pre ++ utf8 ".ans"

/-- The pairs of input and expected output that were checked. -/
def checkedPairs (entries : List ZipEntry) : List (Bytes × Bytes) :=
  (inFiles entries).map fun pre => (pre ++ utf8 ".in", checkedOutput entries pre)

variable {entries : List ZipEntry} {pre : Bytes}

/-- A prefix of an input comes from an entry of that name. -/
theorem mem_inFiles : pre ∈ inFiles entries ↔
    ∃ f ∈ entries, considered f = true ∧ f.name = pre ++ utf8 ".in" := by
  unfold inFiles
  rw [List.mem_filterMap]
  constructor
  · rintro ⟨f, hf, hpre⟩
    obtain ⟨hmem, hc⟩ := List.mem_filter.mp hf
    by_cases hs : hasSuffix f.name (utf8 ".in") = true
    · rw [if_pos hs] at hpre
      obtain ⟨p, hp⟩ := hasSuffix_iff.mp hs
      rw [hp, trimSuffix_append] at hpre
      cases hpre
      exact ⟨f, hmem, hc, hp⟩
    · rw [if_neg hs] at hpre
      cases hpre
  · rintro ⟨f, hmem, hc, hname⟩
    refine ⟨f, List.mem_filter.mpr ⟨hmem, hc⟩, ?_⟩
    rw [hname, if_pos (hasSuffix_append _ _), trimSuffix_append]

/-- An archive is accepted if it has inputs and every input has an expected output. -/
theorem validateZipContent_iff : validateZipContent (.ok entries) = true ↔
    inFiles entries ≠ [] ∧ ∀ pre ∈ inFiles entries, pre ∈ outFiles entries := by
  show (if inFiles entries = [] then false
    else (inFiles entries).all fun pre => (outFiles entries).contains pre) = true ↔ _
  by_cases hnil : inFiles entries = []
  · simp [hnil]
  · simp [hnil]

/-- Where a prefix has no `.out` file, its `.ans` file is the one that was checked. -/
theorem exists_checkedOutput (h : validateZipContent (.ok entries) = true)
    (hpre : pre ∈ inFiles entries) :
    ∃ f ∈ entries, considered f = true ∧ f.name = checkedOutput entries pre := by
  unfold checkedOutput
  by_cases hout : ((entries.filter considered).map (·.name)).contains (pre ++ utf8 ".out") = true
  · rw [if_pos hout]
    obtain ⟨f, hf, hname⟩ := List.mem_map.mp (List.contains_iff_mem.mp hout)
    obtain ⟨hmem, hc⟩ := List.mem_filter.mp hf
    exact ⟨f, hmem, hc, hname⟩
  · rw [if_neg hout]
    have hkey := (validateZipContent_iff.mp h).2 pre hpre
    unfold outFiles at hkey
    obtain ⟨f, hf, hkey⟩ := List.mem_filterMap.mp hkey
    obtain ⟨hmem, hc⟩ := List.mem_filter.mp hf
    by_cases hin : hasSuffix f.name (utf8 ".in") = true
    · rw [if_pos hin] at hkey
      cases hkey
    rw [if_neg hin] at hkey
    by_cases ho : hasSuffix f.name (utf8 ".out") = true
    · -- a key that comes from an `.out` file was found there before
      rw [if_pos ho] at hkey
      obtain ⟨p, hp⟩ := hasSuffix_iff.mp ho
      rw [hp, trimSuffix_append] at hkey
      cases hkey
      exact absurd (List.contains_iff_mem.mpr (List.mem_map.mpr ⟨f, hf, hp⟩)) hout
    rw [if_neg ho] at hkey
    by_cases ha : hasSuffix f.name (utf8 ".ans") = true
    · rw [if_pos ha] at hkey
      obtain ⟨p, hp⟩ := hasSuffix_iff.mp ha
      rw [hp, trimSuffix_append] at hkey
      cases hkey
      exact ⟨f, hmem, hc, hp⟩
    · rw [if_neg ha] at hkey
      cases hkey

end DeepOj.Api
