import DeepOj.Go.Utf8
import DeepOj.Repository.Outbox

/-!
# Recording a dispatch failure

`truncateErr` cuts the text of an error by bytes; `last_error` is a `TEXT` column, in
which PostgreSQL stores well-formed text only.
-/

namespace DeepOj.Api

open Repository Go

/-- `truncateErr`, of the text of the error if there is one. -/
def truncateErr : Option Bytes → Bytes
  | none => []
  | some msg => if msg.length ≤ 512 then msg else msg.take 509 ++ utf8 "..."

/-- What PostgreSQL makes of the bytes of a `TEXT` parameter: a zero byte is no text either. -/
def textParameter (value : Bytes) : Except String String :=
  match text? value with
  | none => .error "invalid byte sequence for encoding \"UTF8\""
  | some s => if 0 ∈ value then .error "invalid byte sequence for encoding \"UTF8\": 0x00" else .ok s

/-- The statement of `MarkOutboxDispatchError`, on one event of a healthy database. -/
def execMarkDispatchError (lastError : Bytes) (e : OutboxEvent) : Except String OutboxEvent :=
  match textParameter lastError with
  | .error err => .error ("mark outbox dispatch error: " ++ err)
  | .ok s => .ok (markOutboxDispatchError s e)

/-- What is kept of the text of an error. -/
def kept (msg : Bytes) : Bytes := if msg.length ≤ 512 then msg else msg.take 509

/-- The text is short, or a character begins at byte 509. -/
def CutBetweenCharacters (msg : Bytes) : Prop :=
  msg.length ≤ 512 ∨ ∃ h : 509 < msg.length, (msg[509]).IsUTF8FirstByte

/-- The failure is recorded: the text that is stored is short, well-formed and a beginning of the
error's up to the ellipsis, and the statement stores it in every event that is not delivered. -/
structure Recordable (msg : Bytes) : Prop where
  short : (truncateErr (some msg)).length ≤ 512
  wellFormed : (text? (truncateErr (some msg))).isSome = true
  beginning : truncateErr (some msg) = msg ∨
    ∃ pre, pre <+: msg ∧ truncateErr (some msg) = pre ++ utf8 "..."
  stored : ∀ e : OutboxEvent, e.dispatchedAt = none → ∃ s, utf8 s = truncateErr (some msg) ∧
    execMarkDispatchError (truncateErr (some msg)) e =
      .ok { e with status := outboxStatusPending, lastError := some s }

section Texts

variable {msg : String}

theorem length_truncateErr_le (msg : Bytes) : (truncateErr (some msg)).length ≤ 512 := by
  unfold truncateErr
  simp only
  split
  · assumption
  · have hdots : (utf8 "...").length = 3 := by decide
    rw [List.length_append, List.length_take, hdots]
    omega

theorem truncateErr_beginning (msg : Bytes) : truncateErr (some msg) = msg ∨
    ∃ pre, pre <+: msg ∧ truncateErr (some msg) = pre ++ utf8 "..." := by
  unfold truncateErr
  simp only
  split
  · exact .inl rfl
  · exact .inr ⟨_, List.take_prefix 509 msg, rfl⟩

/-- What is stored is well-formed exactly when the cut does not go through a character. -/
theorem wellFormed_iff (msg : String) :
    (text? (truncateErr (some (utf8 msg)))).isSome = true ↔ CutBetweenCharacters (utf8 msg) := by
  unfold truncateErr CutBetweenCharacters
  simp only
  by_cases hshort : (utf8 msg).length ≤ 512
  · rw [if_pos hshort, text?_utf8]
    simp [hshort]
  · have hlt : 509 < (utf8 msg).length := by omega
    rw [if_neg hshort, isSome_text?_append_utf8, isSome_text?_take msg hlt]
    simp [hshort, hlt]

theorem zero_mem_truncateErr (msg : Bytes) : 0 ∈ truncateErr (some msg) ↔ 0 ∈ kept msg := by
  unfold truncateErr kept
  simp only
  split
  · exact Iff.rfl
  · have hdots : 0 ∉ utf8 "..." := by decide
    simp [hdots]

/-- Of a well-formed text without a zero byte, the statement stores what it is given. -/
theorem execMarkDispatchError_ok {value : Bytes} (hwell : (text? value).isSome = true) (hzero : 0 ∉ value)
    {e : OutboxEvent} (he : e.dispatchedAt = none) : ∃ s, utf8 s = value ∧
      execMarkDispatchError value e = .ok { e with status := outboxStatusPending, lastError := some s } := by
  obtain ⟨s, hs⟩ := Option.isSome_iff_exists.mp hwell
  refine ⟨s, utf8_of_text? hs, ?_⟩
  unfold execMarkDispatchError textParameter markOutboxDispatchError
  simp only [hs, if_neg hzero, if_pos he]

/-- Otherwise it fails, whatever the event. -/
theorem execMarkDispatchError_error {value : Bytes} (h : (text? value).isSome = false ∨ 0 ∈ value)
    (e : OutboxEvent) : ∃ err, execMarkDispatchError value e = .error err := by
  unfold execMarkDispatchError textParameter
  cases hs : text? value with
  | none => exact ⟨_, rfl⟩
  | some s =>
    rcases h with h | h
    · rw [hs] at h
      cases h
    · simp only [if_pos h]
      exact ⟨_, rfl⟩

/-- A dispatch failure is recorded exactly when byte 509 of a longer text begins a character, and
what is kept has no zero byte. -/
theorem recordable_iff (msg : String) :
    Recordable (utf8 msg) ↔ CutBetweenCharacters (utf8 msg) ∧ 0 ∉ kept (utf8 msg) := by
  constructor
  · intro h
    refine ⟨(wellFormed_iff msg).mp h.wellFormed, ?_⟩
    intro hzero
    have hsome : ∃ e : OutboxEvent, e.dispatchedAt = none :=
      ⟨⟨"", 0, 0, ⟨"", "", 0, 0, 0, "", 0, 0, ""⟩, "", 0, 0, none, none, none⟩, rfl⟩
    obtain ⟨e, he⟩ := hsome
    obtain ⟨err, herr⟩ := execMarkDispatchError_error (.inr ((zero_mem_truncateErr _).mpr hzero)) e
    obtain ⟨s, _, hok⟩ := h.stored e he
    rw [herr] at hok
    cases hok
  · rintro ⟨hcut, hzero⟩
    have hwell := (wellFormed_iff msg).mpr hcut
    have hclean : 0 ∉ truncateErr (some (utf8 msg)) := by
      rw [zero_mem_truncateErr]
      exact hzero
    exact
      { short := length_truncateErr_le _
        wellFormed := hwell
        beginning := truncateErr_beginning _
        stored := fun _ he => execMarkDispatchError_ok hwell hclean he }

end Texts

/-- 171 characters of three bytes each. -/
def longError : String := String.ofList (List.replicate 171 '错')

/-- Byte 509 of 513 is the last of its character. -/
theorem longError_not_recordable : ¬ Recordable (utf8 longError) := by
  intro h
  have hcut := (wellFormed_iff longError).mp h.wellFormed
  have hbytes : utf8 longError = (List.replicate 171 '错').flatMap String.utf8EncodeChar := by
    unfold utf8 longError
    rw [String.toList_ofList]
  have hnot : ¬ CutBetweenCharacters (utf8 longError) := by
    rw [hbytes]
    unfold CutBetweenCharacters
    decide +kernel
  exact hnot hcut

end DeepOj.Api
