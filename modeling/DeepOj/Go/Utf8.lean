import DeepOj.Go.Bytes

/-!
# UTF-8
-/

namespace DeepOj.Go

/-- `utf8.DecodeRune`; `none` where it reports `RuneError` and one byte. -/
def decodeRune (bs : Bytes) : Option Char := (bs.take 4).toByteArray.utf8DecodeChar? 0

/-- The text of a byte string, if it is valid UTF-8. -/
def text? (bs : Bytes) : Option String := String.fromUTF8? bs.toByteArray

/-- The first character of a text is what is decoded first. -/
theorem decodeRune_append (c : Char) (rest : Bytes) :
    decodeRune (String.utf8EncodeChar c ++ rest) = some c := by
  have hle : (String.utf8EncodeChar c).length ≤ 4 := by
    rw [String.length_utf8EncodeChar]
    exact c.utf8Size_le_four
  rw [decodeRune, List.take_append, List.take_of_length_le hle, List.toByteArray_append]
  exact ByteArray.utf8DecodeChar?_utf8EncodeChar_append

theorem toByteArray_utf8 (s : String) : (utf8 s).toByteArray = s.toByteArray := by
  show s.toList.utf8Encode = _
  exact String.utf8Encode_toList

/-- A text is read back. -/
theorem text?_utf8 (s : String) : text? (utf8 s) = some s := by
  rw [text?, toByteArray_utf8, String.fromUTF8?, dif_pos s.isValidUTF8]
  rfl

theorem eq_empty_of_utf8 {s : String} (h : utf8 s = []) : s = "" := by
  have hback := text?_utf8 s
  rw [h] at hback
  exact (Option.some.inj hback).symm

/-- The bytes of an ASCII character. -/
theorem utf8EncodeChar_ascii {c : Char} (h : c.toNat < 128) :
    String.utf8EncodeChar c = [UInt8.ofNat c.toNat] := by
  have hle : c.val.toNat ≤ 0x7f := Nat.le_of_lt_succ h
  unfold String.utf8EncodeChar
  rw [if_pos hle]
  rfl

/-- Every byte of another character is at least 128. -/
theorem le_of_mem_utf8EncodeChar {c : Char} (h : 128 ≤ c.toNat) :
    ∀ b ∈ String.utf8EncodeChar c, 128 ≤ b.toNat := by
  have hlt : ¬ c.val.toNat ≤ 0x7f := Nat.not_le_of_lt h
  unfold String.utf8EncodeChar
  simp only [if_neg hlt]
  intro b hb
  split at hb
  · simp only [List.mem_cons, List.not_mem_nil, or_false] at hb
    rcases hb with rfl | rfl <;> rw [UInt8.toNat_ofNat'] <;> omega
  · split at hb
    · simp only [List.mem_cons, List.not_mem_nil, or_false] at hb
      rcases hb with rfl | rfl | rfl <;> rw [UInt8.toNat_ofNat'] <;> omega
    · simp only [List.mem_cons, List.not_mem_nil, or_false] at hb
      rcases hb with rfl | rfl | rfl | rfl <;> rw [UInt8.toNat_ofNat'] <;> omega

theorem utf8_of_text? {s : String} {bs : Bytes} (h : text? bs = some s) : utf8 s = bs := by
  unfold text? String.fromUTF8? at h
  split at h
  · have hbytes : s.toByteArray = bs.toByteArray := by
      rw [← Option.some.inj h]
      rfl
    rw [← toByteArray_utf8] at hbytes
    exact List.toByteArray_inj.mp hbytes
  · cases h

theorem isSome_text? {bs : Bytes} : (text? bs).isSome = true ↔ bs.toByteArray.IsValidUTF8 := by
  unfold text? String.fromUTF8?
  split
  · rename_i h
    exact ⟨fun _ => h, fun _ => rfl⟩
  · rename_i h
    exact ⟨fun hsome => absurd hsome Bool.false_ne_true, fun h' => absurd h' h⟩

/-- A text in front makes no difference to whether bytes are valid. -/
theorem isSome_text?_utf8_append (s : String) (bs : Bytes) :
    (text? (utf8 s ++ bs)).isSome = (text? bs).isSome := by
  have happend : ∀ cs : List Char, (cs.flatMap String.utf8EncodeChar ++ bs).toByteArray.IsValidUTF8 ↔
      bs.toByteArray.IsValidUTF8 := by
    intro cs
    induction cs with
    | nil => exact Iff.rfl
    | cons c cs ih =>
      rw [List.flatMap_cons, List.append_assoc, List.toByteArray_append, ← List.utf8Encode_singleton,
        ByteArray.isValidUTF8_utf8Encode_singleton_append_iff]
      exact ih
  rw [Bool.eq_iff_iff, isSome_text?, isSome_text?]
  exact happend s.toList

/-! ## Cutting a text -/

theorem toByteArray_take (bs : Bytes) (n : Nat) : (bs.take n).toByteArray = bs.toByteArray.extract 0 n := by
  rw [ByteArray.ext_iff]
  simp

/-- Bytes in front of a position are valid exactly when a character begins there. -/
theorem isSome_text?_take (s : String) {n : Nat} (hn : n < (utf8 s).length) :
    (text? ((utf8 s).take n)).isSome = true ↔ ((utf8 s)[n]).IsUTF8FirstByte := by
  have hsize : (utf8 s).length = s.utf8ByteSize := by
    rw [← String.size_toByteArray, ← toByteArray_utf8, List.size_toByteArray]
  have hlt : (⟨n⟩ : String.Pos.Raw) < s.rawEndPos := by
    rw [String.Pos.Raw.lt_iff, String.byteIdx_rawEndPos, ← hsize]
    exact hn
  have hbyte : s.getUTF8Byte ⟨n⟩ hlt = (utf8 s)[n] := by
    unfold String.getUTF8Byte
    simp only [← toByteArray_utf8, List.getElem_toByteArray]
  rw [isSome_text?, toByteArray_take, toByteArray_utf8, ← hbyte]
  constructor
  · intro h
    have hvalid := String.Pos.Raw.isValid_iff_isValidUTF8_extract_zero.mpr ⟨Nat.le_of_lt hlt, h⟩
    rcases String.Pos.Raw.isValid_iff_isUTF8FirstByte.mp hvalid with heq | ⟨_, hfirst⟩
    · rw [heq] at hlt
      exact absurd hlt (Nat.lt_irrefl _)
    · exact hfirst
  · intro h
    have hvalid := String.Pos.Raw.isValid_iff_isUTF8FirstByte.mpr (.inr ⟨hlt, h⟩)
    exact (String.Pos.Raw.isValid_iff_isValidUTF8_extract_zero.mp hvalid).2

/-- A text behind makes no difference to whether bytes are valid. -/
theorem isSome_text?_append_utf8 (bs : Bytes) (s : String) :
    (text? (bs ++ utf8 s)).isSome = (text? bs).isSome := by
  rw [Bool.eq_iff_iff]
  constructor
  · intro h
    obtain ⟨whole, hwhole⟩ := Option.isSome_iff_exists.mp h
    have hbytes := utf8_of_text? hwhole
    cases hs : s.toList with
    | nil =>
      have hnil : utf8 s = [] := by rw [utf8, hs, List.flatMap_nil]
      rw [hnil, List.append_nil] at h
      exact h
    | cons c cs =>
      -- the whole is a text, and one of its characters begins where `s` does
      have hcons : utf8 s = String.utf8EncodeChar c ++ cs.flatMap String.utf8EncodeChar := by
        rw [utf8, hs, List.flatMap_cons]
      have hpos : 0 < (String.utf8EncodeChar c).length := by
        rw [String.length_utf8EncodeChar]
        exact c.utf8Size_pos
      have hn : bs.length < (utf8 whole).length := by
        rw [hbytes, hcons, List.length_append, List.length_append]
        omega
      have hfirst : ((utf8 whole)[bs.length]).IsUTF8FirstByte := by
        simp only [hbytes, hcons, List.getElem_append_right (Nat.le_refl _), Nat.sub_self,
          List.getElem_append_left hpos]
        exact UInt8.isUTF8FirstByte_getElem_zero_utf8EncodeChar
      have htake := (isSome_text?_take whole hn).mpr hfirst
      rw [hbytes, List.take_left] at htake
      exact htake
  · intro h
    obtain ⟨front, hfront⟩ := Option.isSome_iff_exists.mp h
    rw [← utf8_of_text? hfront, isSome_text?_utf8_append, text?_utf8]
    rfl

/-! ## Reading bytes as characters -/

theorem exists_of_decodeRune {bs : Bytes} {c : Char} (h : decodeRune bs = some c) :
    ∃ rest, bs = String.utf8EncodeChar c ++ rest := by
  obtain ⟨more, hmore⟩ := ByteArray.exists_of_utf8DecodeChar?_eq_some h
  have hcons : (bs.take 4).toByteArray = (String.utf8EncodeChar c ++ more.data.toList).toByteArray := by
    rw [hmore, List.toByteArray_append, ByteArray.ext_iff]
    simp
  refine ⟨more.data.toList ++ bs.drop 4, ?_⟩
  rw [← List.append_assoc, ← List.toByteArray_inj.mp hcons, List.take_append_drop]

/-- What a byte is read as that begins no character. -/
def runeError : Char := Char.ofNat 0xFFFD

/-- Up to `n` characters, as `utf8.DecodeRune` reads them one after the other. -/
def runesUpTo : Nat → Bytes → List Char
  | 0, _ => []
  | _ + 1, [] => []
  | n + 1, b :: bs =>
    match decodeRune (b :: bs) with
    | some c => c :: runesUpTo n ((b :: bs).drop c.utf8Size)
    | none => runeError :: runesUpTo n bs

/-- The characters of a byte string. -/
def runes (bs : Bytes) : List Char := runesUpTo bs.length bs

/-- A byte string begins with a character or with a byte that begins none. -/
theorem bytes_cases {motive : Bytes → Prop} (nil : motive [])
    (char : ∀ c rest, motive rest → motive (String.utf8EncodeChar c ++ rest))
    (invalid : ∀ b rest, decodeRune (b :: rest) = none → motive rest → motive (b :: rest))
    (bs : Bytes) : motive bs := by
  induction hn : bs.length using Nat.strongRecOn generalizing bs with
  | ind n ih =>
    cases bs with
    | nil => exact nil
    | cons b rest =>
      cases hc : decodeRune (b :: rest) with
      | none => exact invalid b rest hc (ih rest.length (by rw [← hn, List.length_cons]; omega) rest rfl)
      | some c =>
        obtain ⟨rest', hrest⟩ := exists_of_decodeRune hc
        have hlen : rest'.length < n := by
          rw [← hn, hrest, List.length_append, String.length_utf8EncodeChar]
          have hpos := c.utf8Size_pos
          omega
        rw [hrest]
        exact char c rest' (ih _ hlen rest' rfl)

theorem runesUpTo_char (n : Nat) (c : Char) (rest : Bytes) :
    runesUpTo (n + 1) (String.utf8EncodeChar c ++ rest) = c :: runesUpTo n rest := by
  have hlen := String.length_utf8EncodeChar c
  cases henc : String.utf8EncodeChar c with
  | nil =>
    rw [henc, List.length_nil] at hlen
    exact absurd hlen.symm (Nat.ne_of_gt c.utf8Size_pos)
  | cons b enc =>
    have hdecode := decodeRune_append c rest
    rw [henc] at hdecode hlen
    show (match decodeRune (b :: (enc ++ rest)) with
      | some c => c :: runesUpTo n ((b :: (enc ++ rest)).drop c.utf8Size)
      | none => runeError :: runesUpTo n (enc ++ rest)) = _
    rw [← List.cons_append, hdecode]
    show c :: runesUpTo n ((b :: enc ++ rest).drop c.utf8Size) = _
    rw [← hlen, List.drop_left]

theorem runesUpTo_invalid (n : Nat) {b : UInt8} {rest : Bytes} (h : decodeRune (b :: rest) = none) :
    runesUpTo (n + 1) (b :: rest) = runeError :: runesUpTo n rest := by
  rw [runesUpTo, h]

/-- No more characters are read than there are bytes. -/
theorem runesUpTo_of_le (bs : Bytes) : ∀ n, bs.length ≤ n → runesUpTo n bs = runes bs := by
  have hagree : ∀ n m, bs.length ≤ n → bs.length ≤ m → runesUpTo n bs = runesUpTo m bs := by
    induction bs using bytes_cases with
    | nil =>
      intro n m _ _
      cases n <;> cases m <;> rfl
    | char c rest ih =>
      intro n m hn hm
      rw [List.length_append, String.length_utf8EncodeChar] at hn hm
      have hpos := c.utf8Size_pos
      obtain ⟨n, rfl⟩ := Nat.exists_eq_add_one_of_ne_zero (by omega : n ≠ 0)
      obtain ⟨m, rfl⟩ := Nat.exists_eq_add_one_of_ne_zero (by omega : m ≠ 0)
      rw [runesUpTo_char, runesUpTo_char, ih n m (by omega) (by omega)]
    | invalid b rest hb ih =>
      intro n m hn hm
      rw [List.length_cons] at hn hm
      obtain ⟨n, rfl⟩ := Nat.exists_eq_add_one_of_ne_zero (by omega : n ≠ 0)
      obtain ⟨m, rfl⟩ := Nat.exists_eq_add_one_of_ne_zero (by omega : m ≠ 0)
      rw [runesUpTo_invalid n hb, runesUpTo_invalid m hb, ih n m (by omega) (by omega)]
  exact fun n hn => hagree n bs.length hn (Nat.le_refl _)

theorem runes_char (c : Char) (rest : Bytes) :
    runes (String.utf8EncodeChar c ++ rest) = c :: runes rest := by
  have hlen : rest.length + 1 ≤ (String.utf8EncodeChar c ++ rest).length := by
    rw [List.length_append, String.length_utf8EncodeChar]
    have hpos := c.utf8Size_pos
    omega
  obtain ⟨n, hn⟩ := Nat.exists_eq_add_of_le' (Nat.le_of_add_left_le hlen)
  rw [runes, hn, runesUpTo_char, runesUpTo_of_le rest n (by omega)]

theorem runes_invalid {b : UInt8} {rest : Bytes} (h : decodeRune (b :: rest) = none) :
    runes (b :: rest) = runeError :: runes rest :=
  runesUpTo_invalid rest.length h

/-- A text is read as its characters. -/
theorem runes_utf8 (s : String) : runes (utf8 s) = s.toList := by
  have hchars : ∀ cs : List Char, runes (cs.flatMap String.utf8EncodeChar) = cs := by
    intro cs
    induction cs with
    | nil => rfl
    | cons c cs ih => rw [List.flatMap_cons, runes_char, ih]
  exact hchars s.toList

/-- Bytes that are read as ASCII characters only are those characters. -/
theorem eq_map_runes {bs : Bytes} (h : ∀ c ∈ runes bs, c.toNat < 128) :
    bs = (runes bs).map fun c => UInt8.ofNat c.toNat := by
  induction bs using bytes_cases with
  | nil => rfl
  | char c rest ih =>
    rw [runes_char] at h ⊢
    rw [List.map_cons, ← ih fun d hd => h d (List.mem_cons_of_mem _ hd),
      utf8EncodeChar_ascii (h c List.mem_cons_self)]
    rfl
  | invalid b rest hb ih =>
    rw [runes_invalid hb] at h
    exact absurd (h runeError List.mem_cons_self) (by decide)

/-- ASCII bytes are read one by one. -/
theorem runes_ascii {bs : Bytes} (h : ∀ b ∈ bs, b.toNat < 128) :
    runes bs = bs.map fun b => Char.ofNat b.toNat := by
  induction bs with
  | nil => rfl
  | cons b rest ih =>
    have hb := h b List.mem_cons_self
    have hnat : (Char.ofNat b.toNat).toNat = b.toNat := by
      have hvalid : b.toNat.isValidChar := .inl (by omega)
      rw [Char.ofNat, dif_pos hvalid]
      rfl
    have henc : String.utf8EncodeChar (Char.ofNat b.toNat) = [b] := by
      rw [utf8EncodeChar_ascii (by rw [hnat]; exact hb), hnat, UInt8.ofNat_toNat]
    have hcons : b :: rest = String.utf8EncodeChar (Char.ofNat b.toNat) ++ rest := by
      rw [henc]
      rfl
    rw [hcons, runes_char, ih fun d hd => h d (List.mem_cons_of_mem _ hd), henc]
    rfl

end DeepOj.Go
