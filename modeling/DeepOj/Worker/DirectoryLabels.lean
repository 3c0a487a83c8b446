import DeepOj.Worker.ExtractionFiles

/-!
# What a directory tells by its label

A directory from which nothing was taken tells by its `.ready.etag` which zip it
was extracted from: the label is written after the extraction is in place, and no
other operation writes one.
-/

namespace DeepOj.Worker.TestCases

open Conc Go

/-- The directory holds the extraction of the zip with this ETag, and this stands in its
`.ready.etag`. -/
def WorkHolds (cfg : ManagerConfig) (zipOf : Bytes → Archive) (pid : Nat) (c : CaseFiles) (etag : Bytes)
    (mark : Option Bytes) : Prop :=
  ∃ d, c.work = some d ∧ Complete cfg pid [zipOf etag] d ∧ c.read .readyETag = mark

/-- A directory from which nothing was taken holds the zip that its `.ready.etag` names. -/
def Labelled (cfg : ManagerConfig) (zipOf : Bytes → Archive) (pid : Nat) (c : CaseFiles) : Prop :=
  ∀ d b, c.work = some d → c.torn = false → c.read .readyETag = some b → b ≠ [] →
    trimSpaces b = b ∧ Complete cfg pid [zipOf b] d

/-- The directory is as the goroutine that has put it in place or found it expects it. -/
structure Claimed (cfg : ManagerConfig) (zipOf : Bytes → Archive) (pid : Nat) (c : CaseFiles) (etag : Bytes)
    (mark : Option Bytes) : Prop where
  torn : c.torn = false
  work : WorkHolds cfg zipOf pid c etag mark

/-- The operations that change more of the directory than its ready marker. -/
def FileOp.Changes : FileOp → Prop
  | .create .readyETag => True
  | .write .readyETag _ => True
  | .remove .readyETag => True
  | .unlink .work _ => True
  | .rename => True
  | _ => False

/-- The directory stays as it is, its ready marker aside. -/
structure Steady (c c' : CaseFiles) : Prop where
  torn : c'.torn = c.torn
  etag : c'.read .readyETag = c.read .readyETag
  work : Option.Rel (fun d d' => ∀ q, q ≠ readyPath → Tree.stat d' q = Tree.stat d q) c.work c'.work

section Files

variable {cfg : ManagerConfig} {zipOf : Bytes → Archive} {pid : Nat} {c c' : CaseFiles} {t d : Tree}
  {etag : Bytes} {mark : Option Bytes}

theorem readyETag_ne_ready : readyETagPath ≠ readyPath := by decide

theorem read_readyETag {b : Bytes} :
    c.read .readyETag = some b ↔ ∃ d, c.work = some d ∧ d.stat readyETagPath = some (.file b) := by
  unfold CaseFiles.read
  cases c.work with
  | none => simp
  | some d =>
    cases hs : d.stat readyETagPath with
    | none => simp [hs]
    | some n => cases n <;> simp [hs]

theorem stat_put_self {p : Path} {n : Node} (hp : p ≠ []) : (t.put p n).stat p = some n := by
  unfold Tree.stat Tree.put
  rw [if_neg hp, List.lookup_cons_self]

/-- What is left where a path was erased was there before. -/
theorem stat_of_erase {p q : Path} {n : Node} (h : (erase t p).stat q = some n) : t.stat q = some n := by
  by_cases hq : q = p
  · subst hq
    unfold erase at h
    by_cases hb : hasBelow t q = true
    · rwa [if_pos hb] at h
    · rw [if_neg hb] at h
      unfold Tree.stat at h ⊢
      by_cases hroot : q = []
      · rwa [if_pos hroot] at h ⊢
      · rw [if_neg hroot] at h
        have hnone : (t.filter (·.1 ≠ q)).lookup q = none := by
          rw [List.lookup_eq_none_iff]
          intro b hb
          have hne : b.1 ≠ q := by simpa using (List.mem_filter.mp hb).2
          simpa using hne.symm
        rw [hnone] at h
        cases h
  · rwa [stat_erase_ne hq] at h

/-- A change of the ready marker alone. -/
theorem steady_map (f : Tree → Tree) (hf : ∀ t q, q ≠ readyPath → (f t).stat q = t.stat q) :
    Steady c { c with work := c.work.map f } := by
  refine ⟨rfl, ?_, ?_⟩
  · unfold CaseFiles.read
    cases c.work with
    | none => rfl
    | some d => simp [hf d _ readyETag_ne_ready]
  · cases c.work with
    | none => exact .none
    | some d => exact .some fun q hq => hf d q hq

theorem steady_refl : Steady c c := by
  refine ⟨rfl, rfl, ?_⟩
  cases c.work with
  | none => exact .none
  | some d => exact .some fun _ _ => rfl

/-- Files outside the directory do not count. -/
theorem steady_of_work (hwork : c'.work = c.work) (htorn : c'.torn = c.torn) : Steady c c' := by
  refine ⟨htorn, ?_, ?_⟩
  · unfold CaseFiles.read
    rw [hwork]
  · rw [hwork]
    exact steady_refl.work

theorem steady_create {f : CaseFile} (hf : f ≠ .readyETag) (h : c.create f = some c') : Steady c c' := by
  obtain ⟨path, d, hpath, hw, rfl⟩ | ⟨-, rfl⟩ := create_cases h
  · obtain rfl : path = readyPath := by
      cases f <;> cases hpath
      · rfl
      · exact absurd rfl hf
    have hput : Steady c { c with work := c.work.map fun t => t.put readyPath (.file []) } :=
      steady_map _ fun t q hq => Tree.stat_put_ne hq
    rw [hw] at hput
    exact hput
  · exact steady_of_work rfl rfl

theorem steady_write {f : CaseFile} (hf : f ≠ .readyETag) (content : Bytes) :
    Steady c (c.write f content) := by
  cases f with
  | readyETag => exact absurd rfl hf
  | zip => exact steady_refl
  | zipTmp => exact steady_refl
  | zipETag => exact steady_of_work rfl rfl
  | ready =>
    refine steady_map _ fun t q hq => ?_
    by_cases hh : t.Has readyPath
    · rw [if_pos hh]
      exact Tree.stat_put_ne hq
    · rw [if_neg hh]

theorem steady_remove {f : CaseFile} (hf : f ≠ .readyETag) : Steady c (c.remove f) := by
  cases f with
  | readyETag => exact absurd rfl hf
  | ready => exact steady_map _ fun t q hq => stat_erase_ne hq
  | zip => exact steady_of_work rfl rfl
  | zipTmp => exact steady_of_work rfl rfl
  | zipETag => exact steady_of_work rfl rfl

/-- Every other operation leaves the directory as it is. -/
theorem steady_perform {o : FileOp} {k : Pick} {r : o.Reply} {tmpDir : Path} (hne : ¬ o.Changes)
    (hp : c.perform cfg tmpDir o k = some (c', r)) : Steady c c' := by
  cases step_of_perform hp with
  | renamed => exact absurd trivial hne
  | notRenamed => exact absurd trivial hne
  | created hc =>
    refine steady_create ?_ hc
    rintro rfl
    exact hne trivial
  | written f content =>
    refine steady_write ?_ content
    rintro rfl
    exact hne trivial
  | removed f =>
    refine steady_remove ?_
    rintro rfl
    exact hne trivial
  | unlinked dir q =>
    cases dir with
    | work => exact absurd trivial hne
    | tmp => exact steady_of_work rfl rfl
  | fetched => exact steady_of_work rfl rfl
  | zipPlaced => exact steady_of_work rfl rfl
  | madeTmp => exact steady_of_work rfl rfl
  | extracted => exact steady_of_work rfl rfl
  | notExtracted => exact steady_of_work rfl rfl
  | _ => exact steady_refl

theorem Labelled.steady (h : Labelled cfg zipOf pid c) (hs : Steady c c') : Labelled cfg zipOf pid c' := by
  intro d' b hd' htorn hb hne
  have hrel := hs.work
  rw [hd'] at hrel
  cases hw : c.work with
  | none =>
    rw [hw] at hrel
    cases hrel
  | some d =>
    rw [hw] at hrel
    cases hrel with
    | some hstat =>
      obtain ⟨htrim, hcomplete⟩ := h d b hw (hs.torn ▸ htorn) (hs.etag ▸ hb) hne
      exact ⟨htrim, hcomplete.congr fun q h₁ _ => hstat q h₁⟩

theorem Claimed.steady (h : Claimed cfg zipOf pid c etag mark) (hs : Steady c c') :
    Claimed cfg zipOf pid c' etag mark := by
  obtain ⟨htorn, d, hd, hcomplete, hmark⟩ := h
  have hrel := hs.work
  rw [hd] at hrel
  cases hw : c'.work with
  | none =>
    rw [hw] at hrel
    cases hrel
  | some d' =>
    rw [hw] at hrel
    cases hrel with
    | some hstat =>
      exact ⟨hs.torn.trans htorn, d', hw, hcomplete.congr fun q h₁ _ => hstat q h₁, hs.etag.trans hmark⟩

/-- A step of a recursive delete takes the label, or tears the directory, or changes nothing. -/
theorem Labelled.unlink (h : Labelled cfg zipOf pid c) (q : Path) :
    Labelled cfg zipOf pid (c.unlink .work q) := by
  unfold CaseFiles.unlink
  cases hw : c.work with
  | none => exact h
  | some t =>
    dsimp only
    by_cases hq : q = []
    · rw [if_pos hq]
      by_cases hb : hasBelow t [] = true
      · rw [if_pos hb]
        exact h
      · rw [if_neg hb]
        intro d b hd
        cases hd
    · rw [if_neg hq]
      intro d b hd htorn hb hne
      obtain rfl : erase t q = d := Option.some.inj hd
      obtain ⟨d, hd, hstat⟩ := read_readyETag.mp hb
      obtain rfl : erase t q = d := Option.some.inj hd
      rw [Bool.or_eq_false_iff, decide_eq_false_iff_not] at htorn
      obtain ⟨htrim, hcomplete⟩ := h t b hw htorn.1 (read_readyETag.mpr ⟨t, hw, stat_of_erase hstat⟩) hne
      refine ⟨htrim, hcomplete.congr fun r h₁ h₂ => ?_⟩
      by_cases hr : r = q
      · subst hr
        exact stat_erase_absent fun hhas => htorn.2 ⟨hhas, h₁, h₂⟩
      · exact stat_erase_ne hr

theorem Labelled.remove (h : Labelled cfg zipOf pid c) : Labelled cfg zipOf pid (c.remove .readyETag) := by
  intro d' b hd' htorn hb hne
  obtain ⟨d, hd, rfl⟩ := Option.map_eq_some_iff.mp hd'
  obtain ⟨d', hd', hstat⟩ := read_readyETag.mp hb
  obtain rfl : erase d readyETagPath = d' := by
    simpa [CaseFiles.remove, hd] using hd'
  obtain ⟨htrim, hcomplete⟩ := h d b hd htorn (read_readyETag.mpr ⟨d, hd, stat_of_erase hstat⟩) hne
  exact ⟨htrim, hcomplete.congr fun r _ h₂ => stat_erase_ne h₂⟩

/-- `.ready.etag` is created empty. -/
theorem create_readyETag (h : c.create .readyETag = some c') :
    ∃ t, c.work = some t ∧ c' = { c with work := some (t.put readyETagPath (.file [])) } := by
  obtain ⟨path, t, hpath, hw, rfl⟩ | ⟨hf, -⟩ := create_cases h
  · cases hpath
    exact ⟨t, hw, rfl⟩
  · cases hf

theorem read_put {b : Bytes} {n : Node} (hn : n = .file b) :
    CaseFiles.read { c with work := some (t.put readyETagPath n) } .readyETag = some b := by
  subst hn
  exact read_readyETag.mpr ⟨_, rfl, stat_put_self (by decide)⟩

theorem Labelled.create (h : c.create .readyETag = some c') : Labelled cfg zipOf pid c' := by
  obtain ⟨t, -, rfl⟩ := create_readyETag h
  intro d b _ _ hb hne
  rw [read_put rfl] at hb
  exact absurd (Option.some.inj hb).symm hne

/-- What a goroutine has put in place, it may mark: first with an empty file. -/
theorem Claimed.create (h : Claimed cfg zipOf pid c etag mark) (hc : c.create .readyETag = some c') :
    Claimed cfg zipOf pid c' etag (some []) := by
  obtain ⟨htorn, d, hd, hcomplete, -⟩ := h
  obtain ⟨t, ht, rfl⟩ := create_readyETag hc
  obtain rfl : d = t := Option.some.inj (hd.symm.trans ht)
  exact ⟨htorn, _, rfl, hcomplete.congr fun q _ h₂ => Tree.stat_put_ne h₂, read_put rfl⟩

/-- Then with the ETag. -/
theorem Claimed.write (h : Claimed cfg zipOf pid c etag (some [])) :
    Claimed cfg zipOf pid (c.write .readyETag etag) etag (some etag) := by
  obtain ⟨htorn, d, hd, hcomplete, hmark⟩ := h
  have hhas : d.Has readyETagPath := by
    obtain ⟨d', hd', hstat⟩ := read_readyETag.mp hmark
    obtain rfl : d = d' := Option.some.inj (hd.symm.trans hd')
    simp [Tree.Has, hstat]
  have hwrite : c.write .readyETag etag =
      { c with work := some (d.put readyETagPath (.file etag)) } := by
    simp [CaseFiles.write, CaseFile.marker, hd, hhas]
  rw [hwrite]
  exact ⟨htorn, _, rfl, hcomplete.congr fun q _ h₂ => Tree.stat_put_ne h₂, read_put rfl⟩

theorem Claimed.labelled (h : Claimed cfg zipOf pid c etag mark) (htrim : trimSpaces etag = etag)
    (hmark : ∀ b, mark = some b → b ≠ [] → b = etag) : Labelled cfg zipOf pid c := by
  obtain ⟨-, d, hd, hcomplete, hread⟩ := h
  intro d' b hd' _ hb hne
  obtain rfl : d = d' := Option.some.inj (hd.symm.trans hd')
  obtain rfl : b = etag := hmark b (hread.symm.trans hb) hne
  exact ⟨htrim, hcomplete⟩

/-- A labelled directory may be claimed. -/
theorem Labelled.claim (h : Labelled cfg zipOf pid c) (htorn : c.torn = false)
    (hread : c.read .readyETag = some etag) (hne : etag ≠ []) :
    Claimed cfg zipOf pid c etag (some etag) := by
  obtain ⟨d, hd, -⟩ := read_readyETag.mp hread
  exact ⟨htorn, d, hd, (h d etag hd htorn hread hne).2, hread⟩

/-- What is renamed to the place of the directory is the extraction. -/
theorem claimed_rename {entries : List ZipEntry} {counts : Counts} {k : Pick}
    (hunp : Unpacking cfg pid c.tmp entries [] counts) (hzip : zipOf etag = .ok entries)
    (hclean : ¬ (relative (cfg.tmpDir pid) c.tmp).Has readyETagPath)
    (hp : c.perform cfg (cfg.tmpDir pid) .rename k = some (c', true)) :
    Claimed cfg zipOf pid c' etag none := by
  cases step_of_perform hp with
  | renamed =>
    obtain ⟨t₀, ht⟩ := hunp.done
    refine ⟨rfl, relative (cfg.tmpDir pid) c.tmp, rfl, ?_, ?_⟩
    · exact ⟨.ok entries, by simp [hzip], t₀, c.tmp, ht, fun _ _ _ => rfl⟩
    · rw [Option.eq_none_iff_forall_ne_some]
      intro b hb
      obtain ⟨d, hd, hstat⟩ := read_readyETag.mp hb
      obtain rfl : relative (cfg.tmpDir pid) c.tmp = d := Option.some.inj hd
      exact hclean (by simp [Tree.Has, hstat])

/-- A directory with a marker is not replaced. -/
theorem rename_refused {k : Pick} {r : Bool} {b : Bytes} {tmpDir : Path}
    (hread : c.read .readyETag = some b)
    (hp : c.perform cfg tmpDir .rename k = some (c', r)) : c' = c := by
  cases step_of_perform hp with
  | renamed _ hempty =>
    obtain ⟨d, hd, hstat⟩ := read_readyETag.mp hread
    have hhas : d.Has readyETagPath := by simp [Tree.Has, hstat]
    obtain ⟨n, hn⟩ := (Tree.has_iff_mem (by decide)).mp hhas
    have hbelow : hasBelow d [] = true := List.any_eq_true.mpr ⟨_, hn, rfl⟩
    rw [hd] at hempty
    simp [hbelow] at hempty
  | notRenamed => rfl

end Files

end DeepOj.Worker.TestCases
