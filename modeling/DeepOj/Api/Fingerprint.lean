import DeepOj.Api.Handler
import DeepOj.Common.Keyspace
import DeepOj.Go.JsonMarshal
import DeepOj.Redis.AutoClaim

/-!
# The fingerprint of a submission

The cache and the in-flight keys are made from a hash of six components joined by bars. The
program text comes first and may contain bars; what follows it does not.
-/

namespace DeepOj.Api

open Go Common

def bar : UInt8 := 124

/-- What a submission is known by. -/
structure Components where
  code : Bytes
  language : Int
  timeLimit : Int
  memoryLimit : Int
  problemID : Int
  testcaseHash : Bytes
  deriving DecidableEq

/-- `%d`. -/
def decimal (n : Int) : Bytes := Json.intText n

/-- The text that `generateCacheKey` hashes. -/
def Components.text (c : Components) : Bytes :=
  c.code ++ bar :: (decimal c.language ++ bar :: (decimal c.timeLimit ++ bar ::
    (decimal c.memoryLimit ++ bar :: (decimal c.problemID ++ bar :: c.testcaseHash))))

/-- The components of a request and the hash of its problem. -/
def componentsOf (req : SubmitRequest) (testcaseHash : String) : Components where
  code := utf8 req.code
  language := req.language
  timeLimit := req.timeLimit
  memoryLimit := req.memoryLimit
  problemID := req.problemID
  testcaseHash := utf8 testcaseHash

section Text

theorem utf8_append (s t : String) : utf8 (s ++ t) = utf8 s ++ utf8 t := by
  unfold utf8
  rw [String.toList_append, List.flatMap_append]

theorem utf8_ascii {cs : List Char} (h : ∀ c ∈ cs, c.toNat < 128) :
    cs.flatMap String.utf8EncodeChar = cs.map fun c => UInt8.ofNat c.toNat := by
  induction cs with
  | nil => rfl
  | cons c cs ih =>
    rw [List.flatMap_cons, List.map_cons, ih fun d hd => h d (List.mem_cons_of_mem _ hd),
      utf8EncodeChar_ascii (h c List.mem_cons_self)]
    rfl

theorem digit_lt {m : Nat} {c : Char} (hc : c ∈ Nat.toDigits 10 m) : c.toNat < 128 := by
  have hdigit := Nat.isDigit_of_mem_toDigits (by decide) (by decide) hc
  unfold Char.isDigit at hdigit
  rw [Bool.and_eq_true, decide_eq_true_iff, decide_eq_true_iff] at hdigit
  have hle : c.toNat ≤ 57 := hdigit.2
  omega

theorem utf8_toString (n : Int) : utf8 (toString n) = decimal n := by
  unfold decimal Json.intText Json.natText utf8
  cases n with
  | ofNat m =>
    have hlist : (toString (Int.ofNat m)).toList = Nat.toDigits 10 m := by
      show (Int.repr m).toList = _
      simp [Int.repr]
    have hnonneg : ¬ Int.ofNat m < 0 := Int.not_lt.mpr (Int.natCast_nonneg m)
    rw [hlist, if_neg hnonneg, utf8_ascii fun _ => digit_lt]
    rfl
  | negSucc m =>
    have hlist : (toString (Int.negSucc m)).toList = '-' :: Nat.toDigits 10 (m + 1) := by
      simp [toString, Int.repr]
    rw [hlist, if_pos (by omega), List.flatMap_cons, utf8_ascii fun _ => digit_lt]
    rfl

/-- The handler hashes this text. -/
theorem utf8_generateCacheKey (req : SubmitRequest) (testcaseHash : String) :
    utf8 (generateCacheKey req testcaseHash) = (componentsOf req testcaseHash).text := by
  have hbar : utf8 "|" = [bar] := by decide
  unfold generateCacheKey Components.text componentsOf
  simp only [utf8_append, utf8_toString, hbar, List.append_assoc, List.cons_append, List.nil_append]

theorem bar_notMem_decimal (n : Int) : bar ∉ decimal n := by
  have hdigit : Json.isDigit bar = false := by decide
  unfold decimal Json.intText
  split
  · rw [List.mem_cons, not_or]
    exact ⟨by decide, Json.notMem_natText hdigit _⟩
  · exact Json.notMem_natText hdigit _

theorem decimal_inj {m n : Int} (h : decimal m = decimal n) : m = n := by
  have hm := Json.parseInt_intText m
  have hn := Json.parseInt_intText n
  unfold decimal at h
  rw [h, hn] at hm
  exact (Option.some.inj hm).symm

/-- The text tells the components, when the hash has no bar. -/
theorem Components.text_inj {c c' : Components} (hc : bar ∉ c.testcaseHash) (hc' : bar ∉ c'.testcaseHash)
    (h : c.text = c'.text) : c = c' := by
  have hassoc : ∀ c : Components, c.text = ((((c.code ++ bar :: decimal c.language) ++ bar ::
      decimal c.timeLimit) ++ bar :: decimal c.memoryLimit) ++ bar :: decimal c.problemID) ++
      bar :: c.testcaseHash := by
    intro c
    unfold Components.text
    simp only [List.append_assoc, List.cons_append]
  rw [hassoc, hassoc] at h
  -- from the right, one component after the other
  obtain ⟨h, hhash⟩ := append_cons_right_inj hc hc' h
  obtain ⟨h, hproblem⟩ := append_cons_right_inj (bar_notMem_decimal _) (bar_notMem_decimal _) h
  obtain ⟨h, hmemory⟩ := append_cons_right_inj (bar_notMem_decimal _) (bar_notMem_decimal _) h
  obtain ⟨h, htime⟩ := append_cons_right_inj (bar_notMem_decimal _) (bar_notMem_decimal _) h
  obtain ⟨hcode, hlanguage⟩ := append_cons_right_inj (bar_notMem_decimal _) (bar_notMem_decimal _) h
  cases c
  cases c'
  simp only [Components.mk.injEq]
  exact ⟨hcode, decimal_inj hlanguage, decimal_inj htime, decimal_inj hmemory, decimal_inj hproblem, hhash⟩

end Text

/-! ## The keys -/

/-- `hex.EncodeToString`. -/
def hexText (bs : Bytes) : Bytes :=
  bs.flatMap fun b => [Json.hexDigit (b.toNat / 16), Json.hexDigit (b.toNat % 16)]

def cacheKeyPrefix : Bytes := utf8 "oj:cache:"
def inFlightKeyPrefix : Bytes := utf8 "oj:inflight:"

section Hashed

variable (sha256 : Bytes → Vector UInt8 32)

/-- `generateCacheKey`, of the text that is hashed. -/
def rawCacheKey (text : Bytes) : Bytes := cacheKeyPrefix ++ hexText (sha256 text).toList

/-- The key of the result cache. -/
def cacheKey (env : Environ) (text : Bytes) : Bytes := namespacedRedisKey env (rawCacheKey sha256 text)

/-- The key of a submission in flight. -/
def inflightKey (env : Environ) (text : Bytes) : Bytes :=
  namespacedRedisKey env (inFlightKeyPrefix ++ rawCacheKey sha256 text)

end Hashed

section Hex

variable {bs bs' : Bytes}

theorem hexText_inj (h : hexText bs = hexText bs') : bs = bs' := by
  induction bs generalizing bs' with
  | nil =>
    cases bs' with
    | nil => rfl
    | cons b bs' => cases h
  | cons a bs ih =>
    cases bs' with
    | nil => cases h
    | cons b bs' =>
      have hcons : Json.hexDigit (a.toNat / 16) :: Json.hexDigit (a.toNat % 16) :: hexText bs =
          Json.hexDigit (b.toNat / 16) :: Json.hexDigit (b.toNat % 16) :: hexText bs' := h
      simp only [List.cons.injEq] at hcons
      have ha := a.toNat_lt
      have hb := b.toNat_lt
      have hdigit : ∀ m n, m < 16 → n < 16 → Json.hexDigit m = Json.hexDigit n → m = n := by
        intro m n hm hn heq
        have hvalue := Json.hexValue_hexDigit hm
        rw [heq, Json.hexValue_hexDigit hn] at hvalue
        exact (Option.some.inj hvalue).symm
      have hhigh := hdigit _ _ (by omega) (by omega) hcons.1
      have hlow := hdigit _ _ (by omega) (by omega) hcons.2.1
      rw [ih hcons.2.2, UInt8.toNat_inj.mp (show a.toNat = b.toNat by omega)]

theorem mem_hexText {x : UInt8} (h : x ∈ hexText bs) : ∃ d < 16, x = Json.hexDigit d := by
  obtain ⟨b, _, hx⟩ := List.mem_flatMap.mp h
  have hlt := b.toNat_lt
  simp only [List.mem_cons, List.not_mem_nil, or_false] at hx
  rcases hx with rfl | rfl
  · exact ⟨_, by omega, rfl⟩
  · exact ⟨_, by omega, rfl⟩

theorem colon_notMem_hexText (bs : Bytes) : colon ∉ hexText bs := by
  intro hmem
  obtain ⟨d, hd, hx⟩ := mem_hexText hmem
  have hnone : ∀ d < 16, colon ≠ Json.hexDigit d := by decide
  exact hnone d hd hx

theorem hexText_ne_nil (hne : bs ≠ []) : hexText bs ≠ [] := by
  cases bs with
  | nil => exact absurd rfl hne
  | cons b bs => exact List.cons_ne_nil _ _

/-- No white space ends with a hexadecimal digit. -/
theorem hexText_back (hne : bs ≠ []) : OpensClean (spaces.map List.reverse) (hexText bs).reverse := by
  have hlast : ∀ pre ∈ spaces.map List.reverse, pre ≠ [] ∧ ∀ d < 16, pre.head? ≠ some (Json.hexDigit d) := by
    decide
  obtain ⟨x, more, hcons⟩ := List.exists_cons_of_ne_nil
    (List.reverse_ne_nil_iff.mpr (hexText_ne_nil hne))
  have hx : x ∈ hexText bs := by
    rw [← List.mem_reverse, hcons]
    exact List.mem_cons_self
  obtain ⟨d, hd, rfl⟩ := mem_hexText hx
  intro pre hpre
  rw [hcons]
  exact hasPrefix_of_head (hlast pre hpre).1 ((hlast pre hpre).2 d hd) more

end Hex

/-- The text stands behind the last colon, or is all there is. -/
def Closes (h t : Bytes) : Prop := t = h ∨ ∃ front, t = front ++ colon :: h

section Namespaced

variable {env : Environ} {front front' h h' t x : Bytes}

/-- What stands behind a colon of the key. -/
theorem closes_of_split (hh : colon ∉ h) (hkey : front ++ colon :: h = x ++ colon :: t) : Closes h t := by
  rcases List.append_eq_append_iff.mp hkey with ⟨mid, _, hmid⟩ | ⟨mid, _, hmid⟩
  · cases mid with
    | nil => exact .inl (List.cons.inj hmid).2.symm
    | cons a mid =>
      rw [(List.cons.inj hmid).2] at hh
      exact absurd (List.mem_append_right mid List.mem_cons_self) hh
  · cases mid with
    | nil => exact .inl (List.cons.inj hmid).2
    | cons a mid => exact .inr ⟨mid, (List.cons.inj hmid).2⟩

/-- A colon in front is not the last one, or the text is all that follows. -/
theorem Closes.trimPrefix (hh : colon ∉ h) (ht : Closes h t) : Closes h (trimPrefix t [colon]) := by
  by_cases hpre : hasPrefix t [colon] = true
  · obtain ⟨rest, hrest⟩ := hasPrefix_iff.mp hpre
    rw [← hrest, trimPrefix_append]
    rcases ht with rfl | ⟨front, rfl⟩
    · rw [← hrest] at hh
      exact absurd (List.mem_append_left rest List.mem_cons_self) hh
    · exact closes_of_split hh (x := []) hrest.symm
  · unfold Go.trimPrefix
    rw [if_neg hpre]
    exact ht

theorem Closes.ne_nil (hne : h ≠ []) (ht : Closes h t) : t ≠ [] := by
  rcases ht with rfl | ⟨front, rfl⟩
  · exact hne
  · simp

theorem Closes.below (ht : Closes h t) (ns : Bytes) : ∃ front, ns ++ colon :: t = front ++ colon :: h := by
  rcases ht with rfl | ⟨front, rfl⟩
  · exact ⟨ns, rfl⟩
  · exact ⟨ns ++ colon :: front, by simp⟩

/-- A key that begins with the configured prefix and is not in the namespace yet. -/
theorem normalizePrefixed_of_append (hh : colon ∉ h) (hne : h ≠ [])
    (hout : ¬ InNamespace env (redisKeyPrefix env ++ colon :: t)) (ht : Closes h t) :
    ∃ t', Closes h t' ∧
      normalizePrefixed env (redisKeyPrefix env ++ colon :: t) = redisKeyNamespace env ++ colon :: t' := by
  have hrest : trimPrefix (trimPrefix (redisKeyPrefix env ++ colon :: t) (redisKeyPrefix env)) [colon] = t := by
    rw [trimPrefix_append, ← List.singleton_append, trimPrefix_append]
  -- the environment in front of the rest would make it a key of the namespace
  have hall : ¬ (redisKeyEnv env ≠ [] ∧ t = redisKeyEnv env) := by
    rintro ⟨henv, rfl⟩
    apply hout
    left
    unfold redisKeyNamespace
    rw [if_neg henv]
  have hfront : ¬ (redisKeyEnv env ≠ [] ∧ hasPrefix t (redisKeyEnv env ++ [colon]) = true) := by
    rintro ⟨henv, hpre⟩
    apply hout
    right
    obtain ⟨rest, rfl⟩ := hasPrefix_iff.mp hpre
    apply hasPrefix_iff.mpr
    unfold redisKeyNamespace
    rw [if_neg henv]
    exact ⟨rest, by simp⟩
  have hcut := ht.trimPrefix hh
  refine ⟨_, hcut, ?_⟩
  unfold normalizePrefixed
  simp only [hrest, if_neg hall, if_neg hfront, if_neg (hcut.ne_nil hne)]

/-- A key that is the configured prefix becomes the namespace. -/
theorem normalizePrefixed_self : normalizePrefixed env (redisKeyPrefix env) = redisKeyNamespace env := by
  have hrest : trimPrefix (trimPrefix (redisKeyPrefix env) (redisKeyPrefix env)) [colon] = [] := by
    have hself := trimPrefix_append (redisKeyPrefix env) []
    rw [List.append_nil] at hself
    rw [hself]
    decide
  have hall : ¬ (redisKeyEnv env ≠ [] ∧ [] = redisKeyEnv env) := fun hboth => hboth.1 hboth.2.symm
  have hfront : ¬ (redisKeyEnv env ≠ [] ∧ hasPrefix [] (redisKeyEnv env ++ [colon]) = true) := by
    rintro ⟨_, hpre⟩
    have hin := List.prefix_nil.mp (hasPrefix_iff.mp hpre)
    simp at hin
  have hcut : trimPrefix [] [colon] = [] := by decide
  unfold normalizePrefixed
  simp only [hrest, if_neg hall, if_neg hfront, hcut, if_true]

/-- An old key keeps what stands behind its last colon, unless it is the configured prefix itself. -/
theorem namespacedRedisKey_legacy (env : Environ) (hh : colon ∉ h) (hne : h ≠ [])
    (hback : OpensClean (spaces.map List.reverse) h.reverse) (hfront : Trimmed front)
    (hlegacy : ∃ rest, front ++ colon :: h = legacyRedisKeyPrefix ++ colon :: rest) :
    namespacedRedisKey env (front ++ colon :: h) = front ++ colon :: h ∨
    (front ++ colon :: h = redisKeyPrefix env ∧
      namespacedRedisKey env (front ++ colon :: h) = redisKeyNamespace env) ∨
    ∃ t, Closes h t ∧ namespacedRedisKey env (front ++ colon :: h) = redisKeyNamespace env ++ colon :: t := by
  have htrim : Trimmed (front ++ colon :: h) := hfront.append_cons colon_notMem_spaces hback
  have hnil : front ++ colon :: h ≠ [] := by simp
  by_cases hin : InNamespace env (front ++ colon :: h)
  · exact .inl (namespacedRedisKey_of_inNamespace hin htrim)
  have hout : ¬ (front ++ colon :: h = redisKeyNamespace env ∨
      hasPrefix (front ++ colon :: h) (redisKeyNamespace env ++ [colon]) = true) := hin
  right
  unfold namespacedRedisKey
  simp only [htrim.trimSpaces]
  rw [if_neg hnil, if_neg hout]
  by_cases hpre : front ++ colon :: h = redisKeyPrefix env ∨
      hasPrefix (front ++ colon :: h) (redisKeyPrefix env ++ [colon]) = true
  · rw [if_pos hpre]
    rcases hpre with hself | hpre
    · exact .inl ⟨hself, by rw [hself, normalizePrefixed_self]⟩
    · obtain ⟨t, ht⟩ := hasPrefix_iff.mp hpre
      have hkey : front ++ colon :: h = redisKeyPrefix env ++ colon :: t := by
        rw [← ht]
        simp
      rw [hkey] at hin ⊢
      exact .inr (normalizePrefixed_of_append hh hne hin (closes_of_split hh hkey))
  · obtain ⟨rest, hrest⟩ := hlegacy
    have hold : hasPrefix (front ++ colon :: h) (legacyRedisKeyPrefix ++ [colon]) = true := by
      rw [hrest]
      exact hasPrefix_iff.mpr ⟨rest, by simp⟩
    have hcut := (closes_of_split hh hrest).trimPrefix hh
    have hstrip : trimPrefix (front ++ colon :: h) (legacyRedisKeyPrefix ++ [colon]) = rest := by
      have happend := trimPrefix_append (legacyRedisKeyPrefix ++ [colon]) rest
      rw [List.append_assoc, List.singleton_append, ← hrest] at happend
      exact happend
    rw [if_neg hpre, if_pos hold]
    right
    refine ⟨_, hcut, ?_⟩
    unfold normalizeLegacy
    simp only [hstrip, if_neg ((closes_of_split hh hrest).ne_nil hne)]

end Namespaced

/-- What stands before the hash in a key of the result cache, or of a submission in flight. -/
def IsFront (front : Bytes) : Prop := front = utf8 "oj:cache" ∨ front = utf8 "oj:inflight:oj:cache"

section Injective

variable {env : Environ} {front front' bs bs' : Bytes}

theorem IsFront.trimmed (hf : IsFront front) : Trimmed front := by
  rcases hf with rfl | rfl <;> exact ⟨by decide, by decide⟩

theorem IsFront.legacy (hf : IsFront front) (h : Bytes) :
    ∃ rest, front ++ colon :: h = legacyRedisKeyPrefix ++ colon :: rest := by
  have hcache : utf8 "oj:cache" = legacyRedisKeyPrefix ++ colon :: utf8 "cache" := by decide
  have hflight : utf8 "oj:inflight:oj:cache" = legacyRedisKeyPrefix ++ colon :: utf8 "inflight:oj:cache" := by
    decide
  rcases hf with rfl | rfl
  · rw [hcache, List.append_assoc]
    exact ⟨_, rfl⟩
  · rw [hflight, List.append_assoc]
    exact ⟨_, rfl⟩

/-- No such key continues another one behind a colon. -/
theorem IsFront.not_continued (hf : IsFront front) (hf' : IsFront front') (bs bs' rest : Bytes) :
    front' ++ colon :: hexText bs' ≠ (front ++ colon :: hexText bs) ++ colon :: rest := by
  intro heq
  have hlong : ∀ {f : Bytes}, IsFront f → 4 ≤ f.length := by
    intro f hf
    rcases hf with rfl | rfl <;> decide
  have htake := congrArg (List.take 4) heq
  rw [List.append_assoc, List.take_append_of_le_length (hlong hf'),
    List.take_append_of_le_length (hlong hf)] at htake
  have hsame : front = front' := by
    rcases hf with rfl | rfl <;> rcases hf' with rfl | rfl
    · rfl
    · exact absurd htake (by decide)
    · exact absurd htake (by decide)
    · rfl
  rw [hsame, List.append_assoc] at heq
  have htail := (List.cons.inj (List.append_cancel_left heq)).2
  have hcolon := colon_notMem_hexText bs'
  rw [htail] at hcolon
  exact hcolon (List.mem_append_right _ List.mem_cons_self)

/-- The configured prefix is a key of its own. -/
theorem eq_of_configured (hf : IsFront front) (hf' : IsFront front') (hne' : bs' ≠ [])
    (hself : front ++ colon :: hexText bs = redisKeyPrefix env)
    (heq : redisKeyNamespace env = namespacedRedisKey env (front' ++ colon :: hexText bs')) : bs = bs' := by
  have hsame : front ++ colon :: hexText bs = front' ++ colon :: hexText bs' → bs = bs' := by
    intro hkeys
    exact hexText_inj (append_cons_right_inj (colon_notMem_hexText _) (colon_notMem_hexText _) hkeys).2
  rcases namespacedRedisKey_legacy env (colon_notMem_hexText bs') (hexText_ne_nil hne') (hexText_back hne')
    hf'.trimmed (hf'.legacy _) with hkept | ⟨hself', _⟩ | ⟨t, _, hbelow⟩
  · rw [hkept] at heq
    unfold redisKeyNamespace at heq
    by_cases henv : redisKeyEnv env = []
    · rw [if_pos henv, ← hself] at heq
      exact hsame heq
    · rw [if_neg henv, ← hself] at heq
      exact absurd heq.symm (hf.not_continued hf' bs bs' _)
  · exact hsame (hself.trans hself'.symm)
  · rw [hbelow] at heq
    have hlen := congrArg List.length heq
    simp at hlen

/-- In every environment the key tells the hash. -/
theorem namespacedRedisKey_hash_inj (hf : IsFront front) (hf' : IsFront front') (hne : bs ≠ []) (hne' : bs' ≠ [])
    (heq : namespacedRedisKey env (front ++ colon :: hexText bs) =
      namespacedRedisKey env (front' ++ colon :: hexText bs')) : bs = bs' := by
  have hends : ∀ {f b : Bytes}, IsFront f → b ≠ [] →
      (f ++ colon :: hexText b = redisKeyPrefix env ∧
        namespacedRedisKey env (f ++ colon :: hexText b) = redisKeyNamespace env) ∨
      ∃ g, namespacedRedisKey env (f ++ colon :: hexText b) = g ++ colon :: hexText b := by
    intro f b hf hb
    rcases namespacedRedisKey_legacy env (colon_notMem_hexText b) (hexText_ne_nil hb) (hexText_back hb)
      hf.trimmed (hf.legacy _) with hkept | hself | ⟨t, ht, hbelow⟩
    · exact .inr ⟨f, hkept⟩
    · exact .inl hself
    · obtain ⟨g, hg⟩ := ht.below (redisKeyNamespace env)
      exact .inr ⟨g, hbelow.trans hg⟩
  rcases hends hf hne with ⟨hself, hns⟩ | ⟨g, hg⟩
  · rw [hns] at heq
    exact eq_of_configured hf hf' hne' hself heq
  · rcases hends hf' hne' with ⟨hself', hns'⟩ | ⟨g', hg'⟩
    · rw [hns'] at heq
      exact (eq_of_configured hf' hf hne hself' heq.symm).symm
    · rw [hg, hg'] at heq
      exact hexText_inj (append_cons_right_inj (colon_notMem_hexText _) (colon_notMem_hexText _) heq).2

end Injective

end DeepOj.Api
