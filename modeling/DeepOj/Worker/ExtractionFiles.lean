import DeepOj.Worker.ExtractionStages

/-!
# What an extraction leaves on disk

What a stage tells of `tmpDir`, and what holds of `workDir` after every single
operation: a directory from which nothing was deleted is one complete extraction,
with or without its markers.
-/

namespace DeepOj.Worker.TestCases

open Conc Go

/-! ## What an operation does to the files -/

/-- What an operation on the files of a problem does to them, and what it replies. -/
inductive FileStep (lims : UnzipLimits) (tmpDir : Path) (c : CaseFiles) :
    (o : FileOp) → CaseFiles → o.Reply → Prop where
  | etagMatch (remoteETag : Bytes) : FileStep lims tmpDir c (.etagMatch remoteETag) c (c.hasETag remoteETag)
  | fetched (z : ZipFile) :
      FileStep lims tmpDir c .fetch { c with zipTmp := some z, downloaded := z.archive :: c.downloaded } true
  | notFetched : FileStep lims tmpDir c .fetch c false
  | zipPlaced {z : ZipFile} (h : c.zipTmp = some z) :
      FileStep lims tmpDir c .renameZip { c with zip := some z, zipTmp := none } true
  | zipNotPlaced : FileStep lims tmpDir c .renameZip c false
  | statReady : FileStep lims tmpDir c .statReady c ((c.work.map (·.Has readyPath)).getD false)
  | readFile (f : CaseFile) : FileStep lims tmpDir c (.readFile f) c (c.read f)
  | created {f : CaseFile} {c' : CaseFiles} (h : c.create f = some c') :
      FileStep lims tmpDir c (.create f) c' true
  | notCreated (f : CaseFile) : FileStep lims tmpDir c (.create f) c false
  | written (f : CaseFile) (content : Bytes) :
      FileStep lims tmpDir c (.write f content) (c.write f content) true
  | notWritten (f : CaseFile) (content : Bytes) : FileStep lims tmpDir c (.write f content) c false
  | removed (f : CaseFile) : FileStep lims tmpDir c (.remove f) (c.remove f) ()
  | walked {dir : CaseDir} {order : List Path} (h : ValidWalk (c.walk tmpDir dir) order) :
      FileStep lims tmpDir c (.readDir dir) c order
  | unlinked (dir : CaseDir) (q : Path) : FileStep lims tmpDir c (.unlink dir q) (c.unlink dir q) ()
  | madeTmp {t : Tree} (h : mkdirAll (fun _ => none) c.tmp tmpDir = .ok t) :
      FileStep lims tmpDir c .mkdirTmp { c with tmp := t } true
  | notMadeTmp : FileStep lims tmpDir c .mkdirTmp c false
  | opened {z : ZipFile} (h : c.zip = some z) : FileStep lims tmpDir c .openZip c z.archive
  | notOpened : FileStep lims tmpDir c .openZip c (.error (utf8 "open: no such file or directory"))
  | extracted {f : ZipEntry} {counts : Counts} {st : Unzip}
      (h : extractEntry (fun _ => none) lims tmpDir ⟨c.tmp, counts.totalWritten, counts.fileCount⟩ f = .ok st) :
      FileStep lims tmpDir c (.extract f counts) { c with tmp := st.tree }
        (some ⟨st.totalWritten, st.fileCount⟩)
  | notExtracted (f : ZipEntry) (counts : Counts) (t : Tree) :
      FileStep lims tmpDir c (.extract f counts) { c with tmp := t } none
  | renamed (hthere : c.tmp.Has tmpDir) (hempty : (c.work.map fun t => hasBelow t []).getD false = false) :
      FileStep lims tmpDir c .rename
        { c with work := some (relative tmpDir c.tmp), torn := false, tmp := c.tmp.removeAll tmpDir } true
  | notRenamed : FileStep lims tmpDir c .rename c false

section Files

variable {cfg : ManagerConfig} {pid : Nat} {c c' : CaseFiles} {t t' d d' : Tree} {p q : Path}

/-- Every operation is one of these. -/
theorem step_of_perform {o : FileOp} {k : Pick} {r : o.Reply} {tmpDir : Path}
    (hp : c.perform cfg tmpDir o k = some (c', r)) : FileStep cfg.lims tmpDir c o c' r := by
  cases o with
  | etagMatch remoteETag => cases hp; exact .etagMatch remoteETag
  | statReady => cases hp; exact .statReady
  | readFile f => cases hp; exact .readFile f
  | remove f => cases hp; exact .removed f
  | unlink dir q => cases hp; exact .unlinked dir q
  | fetch =>
    simp only [CaseFiles.perform] at hp
    split at hp <;> cases hp
    · exact .notFetched
    · exact .fetched _
  | renameZip =>
    simp only [CaseFiles.perform] at hp
    split at hp <;> cases hp
    · rename_i z _ hz
      exact .zipPlaced hz
    · exact .zipNotPlaced
  | create f =>
    simp only [CaseFiles.perform] at hp
    split at hp <;> cases hp
    · rename_i hc
      exact .created hc
    · exact .notCreated f
  | write f content =>
    simp only [CaseFiles.perform] at hp
    split at hp <;> cases hp
    · exact .written f content
    · exact .notWritten f content
  | readDir dir =>
    simp only [CaseFiles.perform] at hp
    split at hp <;> cases hp
    rename_i hwalk
    exact .walked hwalk
  | mkdirTmp =>
    simp only [CaseFiles.perform] at hp
    split at hp <;> cases hp
    · rename_i t _ hmk
      exact .madeTmp hmk
    · exact .notMadeTmp
  | openZip =>
    simp only [CaseFiles.perform] at hp
    split at hp <;> cases hp
    · rename_i z _ hz
      exact .opened hz
    · exact .notOpened
  | extract f counts =>
    simp only [CaseFiles.perform] at hp
    split at hp
    · cases hp
      exact .notExtracted f counts _
    · split at hp <;> cases hp
      · rename_i st hst
        exact .extracted hst
      · exact .notExtracted f counts _
  | rename =>
    simp only [CaseFiles.perform] at hp
    split at hp <;> cases hp
    · rename_i hren
      unfold CaseFiles.rename at hren
      split at hren <;> cases hren
      rename_i hfree
      exact .renamed hfree.1 hfree.2
    · exact .notRenamed

/-- A marker is created in the directory, the ETag next to the zip; both are empty. -/
theorem create_cases {f : CaseFile} (h : c.create f = some c') :
    (∃ path t, f.marker = some path ∧ c.work = some t ∧
      c' = { c with work := some (t.put path (.file [])) }) ∨
    (f = .zipETag ∧ c' = { c with zipETag := some [] }) := by
  unfold CaseFiles.create at h
  split at h
  · rename_i path t hf hw
    unfold createFile at h
    split at h
    · rename_i t' ht
      split at ht
      · cases ht
      · cases ht
        exact .inl ⟨path, t, hf, hw, (Option.some.inj h).symm⟩
    · cases h
  · cases h
  · split at h <;> cases h
    rename_i hf
    exact .inr ⟨hf, rfl⟩

theorem lookup_filter_ne (h : q ≠ p) : (t.filter (·.1 ≠ p)).lookup q = t.lookup q := by
  induction t with
  | nil => rfl
  | cons b t ih =>
    obtain ⟨r, n⟩ := b
    rw [List.filter_cons, List.lookup_cons]
    by_cases hr : r = p
    · subst hr
      have hne : (q == r) = false := by simpa using h
      rw [if_neg (by simp), hne]
      exact ih
    · rw [if_pos (by simpa using hr), List.lookup_cons, ih]

/-- Other paths stay when one is erased. -/
theorem stat_erase_ne (h : q ≠ p) : (erase t p).stat q = t.stat q := by
  unfold erase
  by_cases hb : hasBelow t p = true
  · rw [if_pos hb]
  · rw [if_neg hb]
    unfold Tree.stat
    rw [lookup_filter_ne h]

/-- Nothing changes when a path is erased where nothing stands. -/
theorem stat_erase_absent (h : ¬ t.Has p) : (erase t p).stat q = t.stat q := by
  by_cases hq : q = p
  · subst hq
    have hnone : t.stat q = none := by simpa [Tree.Has] using h
    have hroot : q ≠ [] := by
      rintro rfl
      exact h Tree.has_root
    rw [hnone]
    unfold erase
    by_cases hb : hasBelow t q = true
    · rw [if_pos hb, hnone]
    · rw [if_neg hb]
      unfold Tree.stat
      rw [if_neg hroot, List.lookup_eq_none_iff]
      intro b hb
      have hne : b.1 ≠ q := by simpa using (List.mem_filter.mp hb).2
      simpa using hne.symm
  · exact stat_erase_ne hq

/-- What stands below a directory, by its paths relative to it. -/
theorem has_relative {dir q : Path} {t : Tree} (hq : q ≠ []) :
    (relative dir t).Has q ↔ t.Has (dir ++ q) := by
  have hne : dir ++ q ≠ [] := by simp [hq]
  rw [Tree.has_iff_mem hq, Tree.has_iff_mem hne]
  refine exists_congr fun n => ?_
  unfold relative
  rw [List.mem_filterMap]
  constructor
  · rintro ⟨b, hb, heq⟩
    by_cases hpre : dir <+: b.1
    · obtain ⟨r, hr⟩ := hpre
      rw [if_pos ⟨r, hr⟩, ← hr, List.drop_left, Option.some.injEq, Prod.mk.injEq] at heq
      rw [← heq.1, ← heq.2, hr]
      exact hb
    · rw [if_neg hpre] at heq
      cases heq
  · intro hb
    refine ⟨(dir ++ q, n), hb, ?_⟩
    rw [if_pos (List.prefix_append dir q), List.drop_left]

/-- Apart from the markers, the directory holds exactly what one complete extraction of a
downloaded archive gives. -/
def Complete (cfg : ManagerConfig) (pid : Nat) (downloaded : List Archive) (d : Tree) : Prop :=
  ∃ a ∈ downloaded, ∃ t₀ t,
    prepareTestCases (fun _ => none) cfg.lims (cfg.tmpDir pid) a t₀ = .ok t ∧
    ∀ q, q ≠ readyPath → q ≠ readyETagPath → d.stat q = (relative (cfg.tmpDir pid) t).stat q

theorem Complete.congr {l : List Archive} (h : Complete cfg pid l d)
    (heq : ∀ q, q ≠ readyPath → q ≠ readyETagPath → d'.stat q = d.stat q) :
    Complete cfg pid l d' := by
  obtain ⟨a, ha, t₀, t, ht, hd⟩ := h
  exact ⟨a, ha, t₀, t, ht, fun q h₁ h₂ => (heq q h₁ h₂).trans (hd q h₁ h₂)⟩

theorem Complete.mono {l l' : List Archive} (h : Complete cfg pid l d) (hl : l ⊆ l') :
    Complete cfg pid l' d := by
  obtain ⟨a, ha, hrest⟩ := h
  exact ⟨a, hl ha, hrest⟩

/-- The files of a problem are as they should be: the zips are downloads, and a directory from
which nothing was taken is complete. -/
structure Sound (cfg : ManagerConfig) (pid : Nat) (c : CaseFiles) : Prop where
  zip : ∀ z, c.zip = some z → z.archive ∈ c.downloaded
  zipTmp : ∀ z, c.zipTmp = some z → z.archive ∈ c.downloaded
  work : ∀ d, c.work = some d → c.torn = false → Complete cfg pid c.downloaded d

/-- A change of the markers alone. -/
theorem Sound.markers (h : Sound cfg pid c) (f : Tree → Tree)
    (hf : ∀ t q, q ≠ readyPath → q ≠ readyETagPath → (f t).stat q = t.stat q) :
    Sound cfg pid { c with work := c.work.map f } where
  zip := h.zip
  zipTmp := h.zipTmp
  work d hd htorn := by
    obtain ⟨t, ht, rfl⟩ := Option.map_eq_some_iff.mp hd
    exact (h.work t ht htorn).congr (hf t)

theorem Sound.create {f : CaseFile} (h : Sound cfg pid c) (hc : c.create f = some c') :
    Sound cfg pid c' := by
  obtain ⟨path, t, hf, hw, rfl⟩ | ⟨-, rfl⟩ := create_cases hc
  · have hpath : path = readyPath ∨ path = readyETagPath := by
      cases f <;> cases hf
      · exact .inl rfl
      · exact .inr rfl
    refine ⟨h.zip, h.zipTmp, fun d hd htorn => ?_⟩
    obtain rfl : t.put path (.file []) = d := Option.some.inj hd
    refine (h.work t hw htorn).congr fun q h₁ h₂ => Tree.stat_put_ne ?_
    rintro rfl
    exact hpath.elim h₁ h₂
  · exact ⟨h.zip, h.zipTmp, h.work⟩

theorem Sound.write {f : CaseFile} {content : Bytes} (h : Sound cfg pid c) :
    Sound cfg pid (c.write f content) := by
  have hput : ∀ path, path = readyPath ∨ path = readyETagPath → Sound cfg pid
      { c with work := c.work.map fun t => if t.Has path then t.put path (.file content) else t } := by
    intro path hpath
    refine h.markers _ fun t q h₁ h₂ => ?_
    by_cases hh : t.Has path
    · rw [if_pos hh]
      refine Tree.stat_put_ne ?_
      rintro rfl
      exact hpath.elim h₁ h₂
    · rw [if_neg hh]
  cases f with
  | ready => exact hput readyPath (.inl rfl)
  | readyETag => exact hput readyETagPath (.inr rfl)
  | zipETag => exact ⟨h.zip, h.zipTmp, h.work⟩
  | zip => exact h
  | zipTmp => exact h

theorem Sound.remove {f : CaseFile} (h : Sound cfg pid c) : Sound cfg pid (c.remove f) := by
  cases f with
  | ready => exact h.markers _ fun t q h₁ _ => stat_erase_ne h₁
  | readyETag => exact h.markers _ fun t q _ h₂ => stat_erase_ne h₂
  | zip => exact ⟨(fun z hz => by cases hz), h.zipTmp, h.work⟩
  | zipTmp => exact ⟨h.zip, (fun z hz => by cases hz), h.work⟩
  | zipETag => exact ⟨h.zip, h.zipTmp, h.work⟩

/-- A step of a recursive delete leaves a complete directory, or one that is torn. -/
theorem Sound.unlink {dir : CaseDir} (h : Sound cfg pid c) : Sound cfg pid (c.unlink dir q) := by
  cases dir with
  | tmp => exact ⟨h.zip, h.zipTmp, h.work⟩
  | work =>
    unfold CaseFiles.unlink
    cases hw : c.work with
    | none => exact h
    | some t =>
      dsimp only
      by_cases hq : q = []
      · rw [if_pos hq]
        by_cases hb : hasBelow t [] = true
        · rw [if_pos hb]
          exact h
        · rw [if_neg hb]
          exact ⟨h.zip, h.zipTmp, fun d hd => by cases hd⟩
      · rw [if_neg hq]
        refine ⟨h.zip, h.zipTmp, fun d hd htorn => ?_⟩
        obtain rfl : erase t q = d := Option.some.inj hd
        rw [Bool.or_eq_false_iff, decide_eq_false_iff_not] at htorn
        refine (h.work t hw htorn.1).congr fun r h₁ h₂ => ?_
        by_cases hr : r = q
        · subst hr
          exact stat_erase_absent fun hhas => htorn.2 ⟨hhas, h₁, h₂⟩
        · exact stat_erase_ne hr

/-- Every operation but the rename keeps the files sound. -/
theorem Sound.perform {o : FileOp} {k : Pick} {r : o.Reply} {tmpDir : Path} (h : Sound cfg pid c)
    (hne : o ≠ .rename) (hp : c.perform cfg tmpDir o k = some (c', r)) : Sound cfg pid c' := by
  cases step_of_perform hp with
  | renamed => exact absurd rfl hne
  | notRenamed => exact absurd rfl hne
  | fetched z =>
    exact ⟨fun z hz => List.mem_cons_of_mem _ (h.zip z hz),
      (fun z hz => by cases hz; exact List.mem_cons_self),
      fun d hd htorn => (h.work d hd htorn).mono (List.subset_cons_self _ _)⟩
  | zipPlaced hz =>
    exact ⟨(fun z' hz' => by cases hz'; exact h.zipTmp _ hz), (fun z' hz' => by cases hz'), h.work⟩
  | created hc => exact h.create hc
  | written f content => exact h.write
  | removed f => exact h.remove
  | unlinked dir q => exact h.unlink
  | madeTmp => exact ⟨h.zip, h.zipTmp, h.work⟩
  | extracted => exact ⟨h.zip, h.zipTmp, h.work⟩
  | notExtracted => exact ⟨h.zip, h.zipTmp, h.work⟩
  | _ => exact h

theorem downloaded_subset {o : FileOp} {k : Pick} {r : o.Reply} {tmpDir : Path}
    (hp : c.perform cfg tmpDir o k = some (c', r)) : c.downloaded ⊆ c'.downloaded := by
  cases step_of_perform hp with
  | fetched z => exact List.subset_cons_self _ _
  | created hc =>
    obtain ⟨path, t, -, -, rfl⟩ | ⟨-, rfl⟩ := create_cases hc
    · exact List.Subset.refl _
    · exact List.Subset.refl _
  | written f content => cases f <;> exact List.Subset.refl _
  | removed f => cases f <;> exact List.Subset.refl _
  | unlinked dir q =>
    unfold CaseFiles.unlink
    split
    · exact List.Subset.refl _
    · split
      · exact List.Subset.refl _
      · split
        · split <;> exact List.Subset.refl _
        · exact List.Subset.refl _
  | _ => exact List.Subset.refl _

/-- A plain operation does not touch `tmpDir`. -/
theorem tmp_of_plain {o : FileOp} {k : Pick} {r : o.Reply} {tmpDir : Path}
    (h : Plain (.file pid o)) (hp : c.perform cfg tmpDir o k = some (c', r)) : c'.tmp = c.tmp := by
  cases step_of_perform hp with
  | madeTmp => exact h.elim
  | extracted => exact h.elim
  | notExtracted => exact h.elim
  | renamed => exact h.elim
  | created hc =>
    obtain ⟨path, t, -, -, rfl⟩ | ⟨-, rfl⟩ := create_cases hc
    · rfl
    · rfl
  | written f content => cases f <;> rfl
  | removed f => cases f <;> rfl
  | unlinked dir q =>
    cases dir with
    | tmp => exact h.elim
    | work =>
      unfold CaseFiles.unlink
      cases hw : c.work with
      | none => rfl
      | some t =>
        dsimp only
        split
        · split <;> rfl
        · rfl
  | _ => rfl

/-! ## What is in the temporary directory -/

/-- The tree in which `tmpDir` has just been made. -/
def Made (cfg : ManagerConfig) (pid : Nat) (t : Tree) : Prop :=
  ∃ t₀ : Tree, mkdirAll (fun _ => none) (t₀.removeAll (cfg.tmpDir pid)) (cfg.tmpDir pid) = .ok t

/-- The tree in which the entries before `todo` have been extracted. -/
def Unpacking (cfg : ManagerConfig) (pid : Nat) (t : Tree) (entries todo : List ZipEntry)
    (counts : Counts) : Prop :=
  ∃ t₁ t₂ before, Made cfg pid t₁ ∧ mkdirAll (fun _ => none) t₁ (cfg.tmpDir pid) = .ok t₂ ∧
    entries = before ++ todo ∧
    before.foldlM (extractEntry (fun _ => none) cfg.lims (cfg.tmpDir pid)) { tree := t₂ } =
      .ok ⟨t, counts.totalWritten, counts.fileCount⟩

/-- What a stage tells of `tmpDir`. -/
def TmpIs (cfg : ManagerConfig) (pid : Nat) (c : CaseFiles) : Stage → Prop
  | .clearing _ rest => (∀ b ∈ c.tmp, cfg.tmpDir pid <+: b.1 → b.1 ∈ rest) ∧
      (∀ q ∈ rest, cfg.tmpDir pid <+: q) ∧ rest.Pairwise fun a b => ¬ a <+: b
  | .made _ => Made cfg pid c.tmp
  | .opening _ entries => Made cfg pid c.tmp ∧ .ok entries ∈ c.downloaded
  | .unzipping _ entries todo counts =>
    Unpacking cfg pid c.tmp entries todo counts ∧ .ok entries ∈ c.downloaded
  | _ => True

theorem TmpIs.congr {st : Stage} (h : TmpIs cfg pid c st) (ht : c'.tmp = c.tmp)
    (hd : c.downloaded ⊆ c'.downloaded) : TmpIs cfg pid c' st := by
  cases st with
  | clearing _ rest => simpa only [TmpIs, ht] using h
  | made _ => simpa only [TmpIs, ht] using h
  | opening _ entries => exact ⟨ht ▸ h.1, hd h.2⟩
  | unzipping _ entries todo counts => exact ⟨ht ▸ h.1, hd h.2⟩
  | _ => trivial

/-- An operation on the files keeps the lock. -/
theorem Stage.holds_nextFile (st : Stage) (o : FileOp) (r : o.Reply) :
    (st.nextFile o r).holds = st.holds := by
  unfold Stage.nextFile
  split
  · cases st <;> rfl
  · cases st with
    | clearing pid rest => cases rest <;> rfl
    | _ => rfl
  · rename_i ok
    cases st <;> first | rfl | (cases ok <;> rfl)
  · rename_i archive
    cases st <;> first | rfl | (cases archive <;> rfl)
  · rename_i reply
    cases st <;> first | rfl | (cases reply <;> rfl)
  · cases st <;> rfl
  · rfl

/-- An operation on `tmpDir` needs the lock of the problem. -/
theorem holds_of_allowsFile {st : Stage} {o : FileOp} (ha : st.AllowsFile pid o)
    (hn : ¬ Plain (.file pid o)) : st.holds = some pid := by
  cases o with
  | readDir dir =>
    cases dir with
    | work => exact absurd trivial hn
    | tmp =>
      obtain rfl : st = .locked pid := ha
      rfl
  | unlink dir q =>
    cases dir with
    | work => exact absurd trivial hn
    | tmp =>
      obtain ⟨rest, rfl⟩ := ha
      rfl
  | mkdirTmp => obtain rfl | ⟨entries, rfl⟩ := ha <;> rfl
  | openZip =>
    obtain rfl : st = .made pid := ha
    rfl
  | extract f counts =>
    obtain ⟨entries, todo, rfl⟩ := ha
    rfl
  | rename =>
    obtain ⟨entries, counts, rfl⟩ := ha
    rfl
  | _ => exact absurd trivial hn

/-- When all entries are extracted, the tree is what `Prepare` makes of the archive. -/
theorem Unpacking.done {entries : List ZipEntry} {counts : Counts}
    (h : Unpacking cfg pid t entries [] counts) :
    ∃ t₀, prepareTestCases (fun _ => none) cfg.lims (cfg.tmpDir pid) (.ok entries) t₀ = .ok t := by
  obtain ⟨t₁, t₂, before, ⟨t₀, h₁⟩, h₂, rfl, hfold⟩ := h
  refine ⟨t₀, ?_⟩
  simp only [prepareTestCases, unzipWithLimits, h₁, h₂, List.append_nil, hfold]

/-- Erasing the next path of a walk leaves the rest of it. -/
theorem clearing_unlink {rest : List Path} (h : TmpIs cfg pid c (.clearing pid (q :: rest))) :
    TmpIs cfg pid (c.unlink .tmp q) (.clearing pid rest) := by
  obtain ⟨hall, hunder, hpair⟩ := h
  rw [List.pairwise_cons] at hpair
  have hbelow : ¬ hasBelow c.tmp q = true := by
    intro hb
    obtain ⟨b, hb, hp⟩ := List.any_eq_true.mp hb
    rw [Bool.and_eq_true, List.isPrefixOf_iff_prefix, bne_iff_ne] at hp
    -- what is below `q` would come before it
    rcases List.mem_cons.mp (hall b hb ((hunder q List.mem_cons_self).trans hp.1)) with heq | hmem
    · exact hp.2 heq
    · exact hpair.1 _ hmem hp.1
  refine ⟨fun b hb hpre => ?_, fun r hr => hunder r (List.mem_cons_of_mem _ hr), hpair.2⟩
  have hmem : b ∈ c.tmp.filter (·.1 ≠ q) := by
    simpa only [CaseFiles.unlink, erase, if_neg hbelow] using hb
  obtain ⟨hb, hne⟩ := List.mem_filter.mp hmem
  exact (List.mem_cons.mp (hall b hb hpre)).resolve_left (by simpa using hne)

/-- What the operations on `tmpDir` do, each in its stage: the stage stays true, and what is
renamed is complete. -/
theorem TmpIs.perform {st : Stage} {o : FileOp} {k : Pick} {r : o.Reply} (h : TmpIs cfg pid c st)
    (hs : Sound cfg pid c) (ha : st.AllowsFile pid o)
    (hp : c.perform cfg (cfg.tmpDir pid) o k = some (c', r)) :
    TmpIs cfg pid c' (st.nextFile o r) ∧ Sound cfg pid c' := by
  by_cases hplain : Plain (.file pid o)
  · refine ⟨?_, ?_⟩
    · have hnext : st.nextFile o r = st := hplain.next r
      rw [hnext]
      exact h.congr (tmp_of_plain hplain hp) (downloaded_subset hp)
    · refine hs.perform ?_ hp
      rintro rfl
      exact hplain
  · cases step_of_perform hp with
    | @walked dir order hwalk =>
      cases dir with
      | work => exact absurd trivial hplain
      | tmp =>
        obtain rfl : st = .locked pid := ha
        obtain ⟨hsub, hsup, hpair⟩ := hwalk
        refine ⟨⟨fun b hb hpre => hsup _ ?_, fun q hq => ?_, hpair⟩, hs⟩
        · exact List.mem_filter.mpr ⟨List.mem_map_of_mem hb, by simpa using hpre⟩
        · simpa using (List.mem_filter.mp (hsub q hq)).2
    | unlinked dir q =>
      cases dir with
      | work => exact absurd trivial hplain
      | tmp =>
        obtain ⟨rest, rfl⟩ := ha
        exact ⟨clearing_unlink h, hs.unlink⟩
    | @madeTmp t hmk =>
      refine ⟨?_, ⟨hs.zip, hs.zipTmp, hs.work⟩⟩
      obtain rfl | ⟨entries, rfl⟩ := ha
      · -- nothing is left of an earlier extraction
        refine ⟨c.tmp, ?_⟩
        rw [Tree.removeAll, List.filter_eq_self.mpr fun b hb => ?_]
        · exact hmk
        · have hnot : ¬ cfg.tmpDir pid <+: b.1 := fun hpre => List.not_mem_nil (h.1 b hb hpre)
          rw [Bool.not_eq_true', ← Bool.not_eq_true, List.isPrefixOf_iff_prefix]
          exact hnot
      · exact ⟨⟨c.tmp, t, [], h.1, hmk, rfl, rfl⟩, h.2⟩
    | notMadeTmp => obtain rfl | ⟨entries, rfl⟩ := ha <;> exact ⟨trivial, hs⟩
    | @opened z hz =>
      obtain rfl : st = .made pid := ha
      refine ⟨?_, hs⟩
      have hmem := hs.zip z hz
      cases ha : z.archive with
      | ok entries => exact ⟨h, ha ▸ hmem⟩
      | error err => trivial
    | notOpened =>
      obtain rfl : st = .made pid := ha
      exact ⟨trivial, hs⟩
    | @extracted f counts st hst =>
      obtain ⟨entries, todo, rfl⟩ := ha
      obtain ⟨⟨t₁, t₂, before, hmade, hmk, rfl, hfold⟩, hdown⟩ := h
      refine ⟨⟨⟨t₁, t₂, before ++ [f], hmade, hmk, by simp, ?_⟩, hdown⟩, hs.zip, hs.zipTmp, hs.work⟩
      rw [List.foldlM_append, hfold]
      show ([f].foldlM _ _ : Fallible Unzip) = _
      rw [List.foldlM_cons, hst]
      rfl
    | notExtracted =>
      obtain ⟨entries, todo, rfl⟩ := ha
      exact ⟨trivial, hs.zip, hs.zipTmp, hs.work⟩
    | renamed =>
      obtain ⟨entries, counts, rfl⟩ := ha
      obtain ⟨hunp, hdown⟩ := h
      refine ⟨trivial, hs.zip, hs.zipTmp, fun d hd _ => ?_⟩
      obtain ⟨t₀, ht⟩ := hunp.done
      cases hd
      exact ⟨_, hdown, t₀, c.tmp, ht, fun _ _ _ => rfl⟩
    | notRenamed =>
      obtain ⟨entries, counts, rfl⟩ := ha
      exact ⟨trivial, hs⟩
    | _ => exact absurd trivial hplain

end Files

end DeepOj.Worker.TestCases
