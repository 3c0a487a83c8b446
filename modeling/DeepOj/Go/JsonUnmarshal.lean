import DeepOj.Go.Base64
import DeepOj.Go.JsonMarshal
import Mathlib.Data.List.Forall2
import Mathlib.Data.List.Induction
import Mathlib.Data.List.Nodup

/-!
# `json.Unmarshal` into a flat structure

A member is stored in the field of its name. When the names of an object are distinct,
a field depends only on the member that has its name, wherever it stands.
-/

namespace DeepOj.Go.Json

/-! ## Storing a value in a field -/

/-- A value in a field of type `string`. -/
def storeString (old : String) : Json → Option String
  | .null => some old
  | .str s => some s
  | _ => none

/-- A value in a field of a signed integer type. -/
def storeInt (lo hi old : Int) : Json → Option Int
  | .null => some old
  | .num l => (parseInt l).filter fun n => lo ≤ n ∧ n ≤ hi
  | _ => none

/-- A value in a field of an unsigned integer type. -/
def storeUint (hi old : Nat) : Json → Option Nat
  | .null => some old
  | .num l => (parseNat l).filter fun n => n ≤ hi
  | _ => none

/-- The elements of an array in a byte slice; `null` leaves an element as it is. -/
def storeElems : Bytes → List Json → Option Bytes
  | _, [] => some []
  | old, v :: vs =>
    match storeUint 255 (old.headD 0).toNat v, storeElems old.tail vs with
    | some n, some rest => some (UInt8.ofNat n :: rest)
    | _, _ => none

/-- A value in a field of type `[]byte`. -/
def storeBytes (old : Bytes) : Json → Option Bytes
  | .null => some []
  | .str s => Base64.decodeString s
  | .arr elems => storeElems old elems
  | _ => none

/-! ## Structures -/

/-- A structure with its JSON tags: the fields, how each is written, and how it is stored. -/
structure Struct (M F : Type) where
  fields : List F
  name : F → String
  get : M → F → Scalar
  store : M → F → Json → Option M

/-- The value is `null`. -/
def isNull : Json → Bool
  | .null => true
  | _ => false

/-- `foldRune`, for comparison with ASCII names: U+017F and U+212A are the only characters outside
ASCII that fold to a letter. -/
def foldRune (c : Char) : Char :=
  if 97 ≤ c.toNat ∧ c.toNat ≤ 122 then Char.ofNat (c.toNat - 32)
  else if c.toNat = 0x17F then 'S'
  else if c.toNat = 0x212A then 'K'
  else c

namespace Struct

variable {M F : Type} (S : Struct M F)

/-- The members `json.Marshal` writes, where the fields that `omitempty` names are left out. -/
def members (omitempty : F → Bool) (m : M) : List (String × Scalar) :=
  (S.fields.filter fun f => !(omitempty f && (S.get m f).isEmpty)).map fun f => (S.name f, S.get m f)

/-- `json.Marshal`. -/
def marshal (omitempty : F → Bool) (m : M) : Bytes := objectText (S.members omitempty m)

/-- The field a key stands for: that of the name, or else of the same name but for the case. -/
def field (key : String) : Option F :=
  match S.fields.find? fun f => S.name f = key with
  | some f => some f
  | none => S.fields.find? fun f => (S.name f).toList.map foldRune = key.toList.map foldRune

/-- Store one member. -/
def storeMember (m : M) (member : String × Json) : Option M :=
  match S.field member.1 with
  | some f => S.store m f member.2
  | none => some m

/-- A value in the structure. -/
def storeValue (m : M) : Json → Option M
  | .null => some m
  | .obj members => members.foldlM S.storeMember m
  | _ => none

/-- `json.Unmarshal`. -/
def unmarshal (m : M) (text : Bytes) : Option M := (parse text).bind (S.storeValue m)

end Struct

/-! ## What becomes of a field -/

section Fields

variable {M α : Type} {step : M → String × Json → Option M} {proj : M → α} {key : String}
  {m m' : M} {ms : List (String × Json)}

/-- If every member can be stored, the object can. -/
theorem exists_foldlM (m : M) (h : ∀ p ∈ ms, ∀ m, ∃ m', step m p = some m') :
    ∃ m', ms.foldlM step m = some m' := by
  induction ms generalizing m with
  | nil => exact ⟨m, rfl⟩
  | cons p ms ih =>
    obtain ⟨m₁, h₁⟩ := h p List.mem_cons_self m
    obtain ⟨m', h'⟩ := ih m₁ fun q hq => h q (List.mem_cons_of_mem _ hq)
    refine ⟨m', ?_⟩
    rw [List.foldlM_cons, h₁]
    exact h'

/-- A field without a member keeps its value. -/
theorem foldlM_absent (proj : M → α)
    (hother : ∀ p ∈ ms, ∀ m m', p.1 ≠ key → step m p = some m' → proj m' = proj m)
    (hkey : key ∉ ms.map Prod.fst) (h : ms.foldlM step m = some m') : proj m' = proj m := by
  induction ms generalizing m with
  | nil =>
    cases h
    rfl
  | cons p ms ih =>
    rw [List.map_cons, List.mem_cons, not_or] at hkey
    rw [List.foldlM_cons] at h
    obtain ⟨m₁, h₁, h⟩ := Option.bind_eq_some_iff.mp h
    rw [ih (fun q hq => hother q (List.mem_cons_of_mem _ hq)) hkey.2 h]
    exact hother p List.mem_cons_self m m₁ (Ne.symm hkey.1) h₁

/-- A field with a member has the value of that member. -/
theorem foldlM_present (proj : M → α) {v : Json} {a : α}
    (hset : ∀ m m', step m (key, v) = some m' → proj m' = a)
    (hother : ∀ p ∈ ms, ∀ m m', p.1 ≠ key → step m p = some m' → proj m' = proj m)
    (hnd : (ms.map Prod.fst).Nodup) (hin : (key, v) ∈ ms) (h : ms.foldlM step m = some m') :
    proj m' = a := by
  induction ms generalizing m with
  | nil => cases hin
  | cons p ms ih =>
    rw [List.map_cons, List.nodup_cons] at hnd
    rw [List.foldlM_cons] at h
    obtain ⟨m₁, h₁, hfold⟩ := Option.bind_eq_some_iff.mp h
    have hrest : ∀ q ∈ ms, ∀ m m', q.1 ≠ key → step m q = some m' → proj m' = proj m :=
      fun q hq => hother q (List.mem_cons_of_mem _ hq)
    rcases List.mem_cons.mp hin with rfl | hin
    · rw [foldlM_absent proj hrest hnd.1 hfold]
      exact hset m m₁ h₁
    · exact ih hrest hnd.2 hin hfold

end Fields

/-! ## The same value, written differently -/

/-- The same value up to the order of members, with integers in decimal digits. -/
inductive Same : Json → Json → Prop where
  | null : Same .null .null
  | bool (b : Bool) : Same (.bool b) (.bool b)
  | num {l l' : Bytes} (h : ∀ n, parseInt l = some n → l' = intText n) : Same (.num l) (.num l')
  | str (s : String) : Same (.str s) (.str s)
  | arr {vs vs' : List Json} (h : List.Forall₂ Same vs vs') : Same (.arr vs) (.arr vs')
  | obj {ms ms' : List (String × Json)} (hnd : (ms.map Prod.fst).Nodup)
      (hkeys : (ms.map Prod.fst).Perm (ms'.map Prod.fst))
      (h : ∀ key v v', (key, v) ∈ ms → (key, v') ∈ ms' → Same v v') : Same (.obj ms) (.obj ms')

/-- What was written is the same as itself. -/
theorem same_json (s : Scalar) : Same s.json s.json := by
  cases s with
  | str s => exact .str s
  | int n =>
    refine .num fun n' hn => ?_
    rw [parseInt_intText] at hn
    rw [Option.some.inj hn]

theorem same_membersJson {ms : List (String × Scalar)} (hnd : (ms.map Prod.fst).Nodup) :
    Same (.obj (membersJson ms)) (.obj (membersJson ms)) := by
  have hfst : (membersJson ms).map Prod.fst = ms.map Prod.fst := by
    rw [membersJson, List.map_map]
    rfl
  rw [← hfst] at hnd
  refine .obj hnd (.refl _) fun key v v' hv hv' => ?_
  obtain rfl : v = v' := congrArg Prod.snd (List.inj_on_of_nodup_map hnd hv hv' rfl)
  obtain ⟨m, -, heq⟩ := List.mem_map.mp hv
  obtain rfl := congrArg Prod.snd heq
  exact same_json m.2

/-- A value from which a field is read. -/
def Holds : Json → Scalar → Prop
  | .str s, .str s' => s = s'
  | .num l, .int n => l = intText n
  | _, _ => False

theorem Same.holds {s : Scalar} {v : Json} (h : Same s.json v) : Holds v s := by
  cases s with
  | str s =>
    cases h
    rfl
  | int n =>
    cases h with
    | num h => exact h n (parseInt_intText n)

/-! Storing what was written. -/

theorem storeString_holds {old s : String} {v : Json} (h : Holds v (.str s)) :
    storeString old v = some s := by
  cases v with
  | str s' =>
    obtain rfl : s' = s := h
    rfl
  | _ => exact h.elim

theorem storeBytes_holds {old b : Bytes} {v : Json}
    (h : Holds v (.str (Base64.encodeToString b))) : storeBytes old v = some b := by
  cases v with
  | str s =>
    obtain rfl : s = Base64.encodeToString b := h
    exact Base64.decodeString_encodeToString b
  | _ => exact h.elim

theorem storeInt_holds {lo hi old n : Int} (hlo : lo ≤ n) (hhi : n ≤ hi) {v : Json}
    (h : Holds v (.int n)) : storeInt lo hi old v = some n := by
  cases v with
  | num l =>
    obtain rfl : l = intText n := h
    rw [storeInt, parseInt_intText, Option.filter_some, if_pos (decide_eq_true ⟨hlo, hhi⟩)]
  | _ => exact h.elim

theorem storeUint_holds {hi old n : Nat} (hhi : n ≤ hi) {v : Json} (h : Holds v (.int n)) :
    storeUint hi old v = some n := by
  cases v with
  | num l =>
    obtain rfl : l = intText n := h
    have htext : intText n = natText n := if_neg (by omega)
    rw [storeUint, htext, parseNat_natText, Option.filter_some, if_pos (decide_eq_true hhi)]
  | _ => exact h.elim

/-- The members that hold these fields, in some order. -/
structure HoldsAll (ms : List (String × Scalar)) (members : List (String × Json)) : Prop where
  nodup : (members.map Prod.fst).Nodup
  keys : ∀ key, key ∈ members.map Prod.fst ↔ key ∈ ms.map Prod.fst
  holds : ∀ p ∈ members, ∃ s, (p.1, s) ∈ ms ∧ Holds p.2 s

/-- The object, as it was written or rearranged, holds its fields. -/
theorem Same.holdsAll {ms : List (String × Scalar)} {v : Json} (h : Same (.obj (membersJson ms)) v) :
    ∃ members, v = .obj members ∧ HoldsAll ms members := by
  cases h with
  | @obj _ members hnd hkeys h =>
    have hfst : (membersJson ms).map Prod.fst = ms.map Prod.fst := by
      rw [membersJson, List.map_map]
      rfl
    rw [hfst] at hkeys
    refine ⟨members, rfl, hkeys.nodup_iff.mp (hfst ▸ hnd), fun key => hkeys.mem_iff.symm, ?_⟩
    intro p hp
    have hkey : p.1 ∈ ms.map Prod.fst := hkeys.mem_iff.mpr (List.mem_map_of_mem hp)
    obtain ⟨m, hm, hmp⟩ := List.mem_map.mp hkey
    have hin : (p.1, m.2.json) ∈ membersJson ms := List.mem_map.mpr ⟨m, hm, by rw [hmp]⟩
    exact ⟨m.2, by rw [← hmp]; exact hm, (h p.1 m.2.json p.2 hin hp).holds⟩

/-! ## Reading a structure that was written -/

namespace Struct

variable {M F : Type} {S : Struct M F}

/-- The fields have names of their own, and a member sets its field alone. -/
structure Lawful (S : Struct M F) : Prop where
  names : (S.fields.map S.name).Nodup
  store : ∀ t m f v, Holds v (S.get t f) → ∃ m', S.store m f v = some m' ∧
    S.get m' f = S.get t f ∧ ∀ g, g ≠ f → S.get m' g = S.get m g

theorem field_name (h : S.Lawful) {f : F} (hf : f ∈ S.fields) : S.field (S.name f) = some f := by
  have hfind : S.fields.find? (fun g => decide (S.name g = S.name f)) = some f := by
    refine List.find?_eq_some_iff_append.mpr ⟨decide_eq_true rfl, ?_⟩
    obtain ⟨pre, post, hsplit⟩ := List.append_of_mem hf
    refine ⟨pre, post, hsplit, fun g hg => ?_⟩
    have hnd := h.names
    rw [hsplit, List.map_append, List.nodup_append] at hnd
    have hne : S.name g ≠ S.name f :=
      hnd.2.2 _ (List.mem_map_of_mem hg) _ (List.mem_map_of_mem List.mem_cons_self)
    simpa using hne
  rw [field, hfind]

/-- Every member of `ms` is a field of `t`; the fields that have no member are as in `m`. -/
structure Writes (S : Struct M F) (t m : M) (ms : List (String × Scalar)) : Prop where
  member : ∀ p ∈ ms, ∃ f ∈ S.fields, p = (S.name f, S.get t f)
  omitted : ∀ f ∈ S.fields, S.name f ∉ ms.map Prod.fst → S.get m f = S.get t f

/-- The members set the fields that they hold, in any order. -/
theorem foldlM_storeMember (h : S.Lawful) {t m : M} {ms : List (String × Scalar)}
    {members : List (String × Json)} (hw : S.Writes t m ms) (hm : HoldsAll ms members) :
    ∃ m', members.foldlM S.storeMember m = some m' ∧ ∀ f ∈ S.fields, S.get m' f = S.get t f := by
  -- each member belongs to a field, and holds what the field was
  have hmember : ∀ p ∈ members, ∃ f ∈ S.fields, p.1 = S.name f ∧ Holds p.2 (S.get t f) := by
    intro p hp
    obtain ⟨s, hin, hs⟩ := hm.holds p hp
    obtain ⟨f, hf, heq⟩ := hw.member _ hin
    obtain ⟨hname, rfl⟩ := Prod.mk.inj heq
    exact ⟨f, hf, hname, hs⟩
  have hstep : ∀ p ∈ members, ∀ m, ∃ f ∈ S.fields, p.1 = S.name f ∧ ∃ m',
      S.storeMember m p = some m' ∧ S.get m' f = S.get t f ∧ ∀ g, g ≠ f → S.get m' g = S.get m g := by
    intro p hp m
    obtain ⟨f, hf, hname, hs⟩ := hmember p hp
    obtain ⟨m', hstore, hset⟩ := h.store t m f p.2 hs
    refine ⟨f, hf, hname, m', ?_, hset⟩
    rw [storeMember, hname, field_name h hf]
    exact hstore
  obtain ⟨m', hfold⟩ := exists_foldlM m fun p hp m => by
    obtain ⟨f, -, -, m', hstore, -⟩ := hstep p hp m
    exact ⟨m', hstore⟩
  refine ⟨m', hfold, fun f hf => ?_⟩
  have hother : ∀ p ∈ members, ∀ m m', p.1 ≠ S.name f → S.storeMember m p = some m' →
      S.get m' f = S.get m f := by
    intro p hp m m' hne hstore
    obtain ⟨g, -, hname, m'', hstore', -, hkeep⟩ := hstep p hp m
    rw [hstore] at hstore'
    cases hstore'
    refine hkeep f ?_
    rintro rfl
    exact hne hname
  by_cases hkey : S.name f ∈ members.map Prod.fst
  · obtain ⟨p, hp, hpf⟩ := List.mem_map.mp hkey
    refine foldlM_present (fun m => S.get m f) (v := p.2) ?_ hother
      hm.nodup (by rw [← hpf]; exact hp) hfold
    intro m m' hstore
    obtain ⟨g, hg, hname, m'', hstore', hset, -⟩ := hstep p hp m
    have hfg : g = f := by
      have hfield := field_name h hg
      rw [← hname, hpf, field_name h hf] at hfield
      exact (Option.some.inj hfield).symm
    rw [← hpf] at hstore
    rw [hstore] at hstore'
    cases hstore'
    rw [← hfg]
    exact hset
  · rw [foldlM_absent (fun m => S.get m f) hother hkey hfold]
    exact hw.omitted f hf (fun hin => hkey ((hm.keys _).mpr hin))

theorem members_fst (omitempty : F → Bool) (t : M) :
    (S.members omitempty t).map Prod.fst =
      (S.fields.filter fun f => !(omitempty f && (S.get t f).isEmpty)).map S.name := by
  rw [members, List.map_map]
  rfl

/-- What `json.Marshal` writes, over a structure that has the empty fields of `t`. -/
theorem writes_members (omitempty : F → Bool) {t m : M}
    (hempty : ∀ f ∈ S.fields, omitempty f = true → (S.get t f).isEmpty = true → S.get m f = S.get t f) :
    S.Writes t m (S.members omitempty t) := by
  refine ⟨fun p hp => ?_, fun f hf hnot => ?_⟩
  · obtain ⟨f, hf, rfl⟩ := List.mem_map.mp hp
    exact ⟨f, (List.mem_filter.mp hf).1, rfl⟩
  · rw [members_fst] at hnot
    cases hb : (omitempty f && (S.get t f).isEmpty) with
    | true =>
      obtain ⟨h₁, h₂⟩ := Bool.and_eq_true_iff.mp hb
      exact hempty f hf h₁ h₂
    | false =>
      refine absurd (List.mem_map_of_mem (List.mem_filter.mpr ⟨hf, ?_⟩)) hnot
      rw [hb]
      rfl

theorem nodup_members (h : S.Lawful) (omitempty : F → Bool) (t : M) :
    ((S.members omitempty t).map Prod.fst).Nodup := by
  rw [members_fst]
  exact h.names.sublist ((List.filter_sublist).map S.name)

/-- A text with the value of what was written is read back, field by field. -/
theorem unmarshal_same (h : S.Lawful) {t m : M} {ms : List (String × Scalar)} (hw : S.Writes t m ms)
    {text : Bytes} {v : Json} (hparse : parse text = some v) (hv : Same (.obj (membersJson ms)) v) :
    ∃ m', S.unmarshal m text = some m' ∧ ∀ f ∈ S.fields, S.get m' f = S.get t f := by
  obtain ⟨members, rfl, hm⟩ := hv.holdsAll
  obtain ⟨m', hfold, hget⟩ := foldlM_storeMember h hw hm
  refine ⟨m', ?_, hget⟩
  rw [unmarshal, hparse]
  exact hfold

/-! ## Members for the same field -/

/-- A member that sets a field: its key stands for the field, and its value is not `null`. -/
def Sets (S : Struct M F) (f : F) (p : String × Json) : Prop := S.field p.1 = some f ∧ p.2.isNull = false

/-- A value other than `null` is read by itself, into its field alone; `null` changes nothing. -/
structure ReadsBy (S : Struct M F) (read : F → Json → Option Scalar) : Prop where
  null : ∀ m f, S.store m f .null = some m
  value : ∀ {m m' f v}, v.isNull = false → S.store m f v = some m' →
    read f v = some (S.get m' f) ∧ ∀ g, g ≠ f → S.get m' g = S.get m g

variable {read : F → Json → Option Scalar} {m m' : M} {members : List (String × Json)} {f : F}
  {p : String × Json}

theorem get_of_not_sets (h : S.ReadsBy read) (hstore : S.storeMember m p = some m')
    (hp : ¬ S.Sets f p) : S.get m' f = S.get m f := by
  unfold storeMember at hstore
  cases hfield : S.field p.1 with
  | none =>
    rw [hfield] at hstore
    cases hstore
    rfl
  | some g =>
    simp only [hfield] at hstore
    by_cases hnull : p.2.isNull = true
    · have hv : p.2 = .null := by
        cases hp2 : p.2 <;> simp_all [isNull]
      rw [hv, h.null] at hstore
      cases hstore
      rfl
    · have hne : f ≠ g := by
        rintro rfl
        exact hp ⟨hfield, by simpa using hnull⟩
      exact (h.value (by simpa using hnull) hstore).2 f hne

theorem read_of_sets (h : S.ReadsBy read) (hstore : S.storeMember m p = some m')
    (hp : S.Sets f p) : read f p.2 = some (S.get m' f) := by
  unfold storeMember at hstore
  simp only [hp.1] at hstore
  exact (h.value hp.2 hstore).1

section

variable [DecidableEq F]

instance : Decidable (S.Sets f p) := inferInstanceAs (Decidable (_ ∧ _))

/-- The value of the last member that sets a field. -/
def lastSet (S : Struct M F) (members : List (String × Json)) (f : F) : Option Json :=
  ((members.filter fun p => S.Sets f p).map Prod.snd).getLast?

theorem lastSet_append_of_sets (h : S.Sets f p) : S.lastSet (members ++ [p]) f = some p.2 := by
  simp [lastSet, List.filter_append, h]

theorem lastSet_append_of_not_sets (h : ¬ S.Sets f p) :
    S.lastSet (members ++ [p]) f = S.lastSet members f := by
  simp [lastSet, List.filter_append, h]

/-- A field has the value of the last member that sets it; without one it is as it was. -/
theorem get_of_foldlM (h : S.ReadsBy read) (hfold : members.foldlM S.storeMember m = some m') :
    (S.lastSet members f).elim (some (S.get m f)) (read f) = some (S.get m' f) := by
  induction members using List.reverseRecOn generalizing m' with
  | nil =>
    cases hfold
    rfl
  | append_singleton members p ih =>
    rw [List.foldlM_append] at hfold
    obtain ⟨m₁, hmembers, hlast⟩ := Option.bind_eq_some_iff.mp hfold
    have hstore : S.storeMember m₁ p = some m' := by simpa using hlast
    by_cases hp : S.Sets f p
    · rw [lastSet_append_of_sets hp]
      exact read_of_sets h hstore hp
    · rw [lastSet_append_of_not_sets hp, get_of_not_sets h hstore hp]
      exact ih hmembers

end

end Struct

end DeepOj.Go.Json
