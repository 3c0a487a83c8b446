import DeepOj.Go.Bytes
import Mathlib.Data.List.Forall2
import Mathlib.Data.List.Induction

/-!
# Reading the reply of `XAUTOCLAIM`

The client hands over what the server answered as nested values without a type.
`parseXAutoClaimReply` reads the next id, the messages and the ids of deleted messages.
-/

namespace DeepOj.Worker.AutoClaim

open Go

/-- A value of the reply, `interface{}`; a value of another type is known by its type and text. -/
inductive Reply where
  | nil
  | str (s : Bytes)
  | bytes (b : Bytes)
  | array (items : List Reply)
  | other (goType text : String)

/-- `%T`. -/
def Reply.typeName : Reply → String
  | .nil => "<nil>"
  | .str _ => "string"
  | .bytes _ => "[]uint8"
  | .array _ => "[]interface \x7b\x7d"
  | .other goType _ => goType

/-- `map[string]interface{}`, in the order in which the keys were first set. -/
abbrev Values := List (Bytes × Reply)

/-- `values[key] = value`. -/
def Values.set (key : Bytes) (value : Reply) : Values → Values
  | [] => [(key, value)]
  | (key', value') :: rest =>
    if key' = key then (key, value) :: rest else (key', value') :: Values.set key value rest

/-- `redis.XMessage`. -/
structure XMessage where
  id : Bytes
  values : Values

/-! ## The parser -/

def parseRedisBulkString : Reply → Except String Bytes
  | .str value => .ok value
  | .bytes value => .ok value
  | v => .error ("unexpected bulk string type: " ++ v.typeName)

/-- What is kept of the value of a field. -/
def stored : Reply → Reply
  | .bytes value => .str value
  | value => value

/-- The loop over the fields. -/
def parseFields (values : Values) : List Reply → Except String Values
  | key :: value :: rest =>
    match parseRedisBulkString key with
    | .error err => .error ("xautoclaim parse field key: " ++ err)
    | .ok key => parseFields (values.set key (stored value)) rest
  | _ => .ok values

def parseXAutoClaimValues : Reply → Except String Values
  | .array rawValues =>
    if rawValues.length % 2 ≠ 0 then
      .error ("xautoclaim values length is not even: " ++ toString rawValues.length)
    else parseFields [] rawValues
  | v => .error ("xautoclaim unexpected values type: " ++ v.typeName)

/-- One turn of the loop over the messages. -/
def parseMessage : Reply → Except String XMessage
  | .array [rawID, rawValues] =>
    match parseRedisBulkString rawID with
    | .error err => .error ("xautoclaim parse message id: " ++ err)
    | .ok id =>
      match parseXAutoClaimValues rawValues with
      | .error err => .error err
      | .ok values => .ok ⟨id, values⟩
  | .array parts => .error ("xautoclaim unexpected message length: " ++ toString parts.length)
  | rawMsg => .error ("xautoclaim unexpected message type: " ++ rawMsg.typeName)

/-- A loop that is left at the first error. -/
def parseEach {β : Type} (f : Reply → Except String β) : List Reply → Except String (List β)
  | [] => .ok []
  | v :: rest =>
    match f v with
    | .error err => .error err
    | .ok b =>
      match parseEach f rest with
      | .error err => .error err
      | .ok bs => .ok (b :: bs)

def parseXAutoClaimMessages : Reply → Except String (List XMessage)
  | .array rawMessages => parseEach parseMessage rawMessages
  | v => .error ("xautoclaim unexpected messages type: " ++ v.typeName)

/-- One turn of the loop over the deleted ids. -/
def parseDeletedID (rawDeletedID : Reply) : Except String Bytes :=
  match parseRedisBulkString rawDeletedID with
  | .error err => .error ("xautoclaim parse deleted id: " ++ err)
  | .ok deletedID => .ok deletedID

def parseXAutoClaimDeletedIDs : Reply → Except String (List Bytes)
  | .nil => .ok []
  | .array rawDeletedIDs => parseEach parseDeletedID rawDeletedIDs
  | v => .error ("xautoclaim unexpected deleted ids type: " ++ v.typeName)

/-- What `parseXAutoClaimReply` returns. -/
structure Parsed where
  nextID : Bytes
  msgs : List XMessage
  deletedIDs : List Bytes
  err : Option String

/-- What is returned with an error. -/
def Parsed.failed (err : String) : Parsed := ⟨[], [], [], some err⟩

/-- `parseXAutoClaimReply` on two or three parts. -/
def parseParts (first second : Reply) (third : Option Reply) : Parsed :=
  match parseRedisBulkString first with
  | .error err => .failed ("xautoclaim parse next id: " ++ err)
  | .ok nextID =>
    match parseXAutoClaimMessages second with
    | .error err => .failed err
    | .ok msgs =>
      match third with
      | none => ⟨nextID, msgs, [], none⟩
      | some third =>
        match parseXAutoClaimDeletedIDs third with
        | .error err => .failed err
        | .ok deletedIDs => ⟨nextID, msgs, deletedIDs, none⟩

def parseXAutoClaimReply : Reply → Parsed
  | .array [first, second] => parseParts first second none
  | .array [first, second, third] => parseParts first second (some third)
  | .array parts => .failed ("xautoclaim unexpected response length: " ++ toString parts.length)
  | v => .failed ("xautoclaim unexpected response type: " ++ v.typeName)

/-- What `AutoClaim` returns, and the `XACK` it has sent. -/
structure AutoClaimed where
  msgs : List XMessage
  nextID : Bytes
  err : Option String
  xack : Option (List Bytes)

/-- `xackDeletedIDsBestEffort`: what comes back of it is only logged. -/
def xackDeletedIDsBestEffort (deletedIDs : List Bytes) : Option (List Bytes) :=
  if deletedIDs = [] then none else some deletedIDs

/-- `AutoClaim`, of what the server answers. -/
def autoClaim : Except String Reply → AutoClaimed
  | .error err => ⟨[], [], some err, none⟩
  | .ok res =>
    let parsed := parseXAutoClaimReply res
    match parsed.err with
    | some err => ⟨[], [], some err, none⟩
    | none => ⟨parsed.msgs, parsed.nextID, none, xackDeletedIDsBestEffort parsed.deletedIDs⟩

/-! ## What a reply encodes -/

/-- The value is a bulk string, in one of its two forms. -/
inductive Bulk : Reply → Bytes → Prop
  | str (s : Bytes) : Bulk (.str s) s
  | bytes (s : Bytes) : Bulk (.bytes s) s

/-- The value is kept as it is, bytes as a string. -/
def Kept (v kept : Reply) : Prop := kept = stored v

section Encoding

variable {β : Type} (val : Reply → β → Prop)

/-- Names and values of fields, alternating. -/
inductive FieldItems : List Reply → List (Bytes × β) → Prop
  | nil : FieldItems [] []
  | cons {rawName v : Reply} {name : Bytes} {b : β} {items : List Reply} {fields : List (Bytes × β)}
      (hname : Bulk rawName name) (hval : val v b) (h : FieldItems items fields) :
      FieldItems (rawName :: v :: items) ((name, b) :: fields)

/-- A pair of an id and a list of fields. -/
inductive MessageItems : Reply → Bytes × List (Bytes × β) → Prop
  | intro {rawID : Reply} {id : Bytes} {items : List Reply} {fields : List (Bytes × β)}
      (hid : Bulk rawID id) (hfields : FieldItems val items fields) :
      MessageItems (.array [rawID, .array items]) (id, fields)

/-- The third part, if there is one; `gap` says whether it may be nil. -/
inductive DeletedItems (gap : Bool) : List Reply → Option (List Bytes) → Prop
  | absent : DeletedItems gap [] none
  | ids {raws : List Reply} {ids : List Bytes} (h : List.Forall₂ Bulk raws ids) :
      DeletedItems gap [.array raws] (some ids)
  | nil (h : gap = true) : DeletedItems gap [.nil] none

/-- The reply encodes the cursor, the messages and the deleted ids. -/
inductive Encodes (gap : Bool) : Reply → Bytes → List (Bytes × List (Bytes × β)) →
    Option (List Bytes) → Prop
  | intro {first : Reply} {cursor : Bytes} {raws rest : List Reply}
      {msgs : List (Bytes × List (Bytes × β))} {deleted : Option (List Bytes)}
      (hcursor : Bulk first cursor) (hmsgs : List.Forall₂ (MessageItems val) raws msgs)
      (hdeleted : DeletedItems gap rest deleted) :
      Encodes gap (.array (first :: .array raws :: rest)) cursor msgs deleted

end Encoding

/-- The map of the fields: the last value of a name counts. -/
def valuesOf (fields : List (Bytes × Reply)) : Values :=
  fields.foldl (fun values field => values.set field.1 field.2) []

/-- A message as it is handed on. -/
def toXMessage (m : Bytes × List (Bytes × Reply)) : XMessage := ⟨m.1, valuesOf m.2⟩

section Parse

variable {v : Reply}

theorem parseRedisBulkString_iff {s : Bytes} : parseRedisBulkString v = .ok s ↔ Bulk v s := by
  constructor
  · intro h
    cases v with
    | str value =>
      cases h
      exact .str s
    | bytes value =>
      cases h
      exact .bytes s
    | nil | array | other => cases h
  · intro h
    cases h <;> rfl

/-- A loop that is not left reads every value. -/
theorem parseEach_iff {β : Type} {f : Reply → Except String β} {vs : List Reply} {bs : List β} :
    parseEach f vs = .ok bs ↔ List.Forall₂ (fun v b => f v = .ok b) vs bs := by
  induction vs generalizing bs with
  | nil =>
    rw [parseEach, List.forall₂_nil_left_iff]
    constructor
    · intro h
      cases h
      rfl
    · rintro rfl
      rfl
  | cons v vs ih =>
    rw [parseEach]
    constructor
    · intro h
      cases hv : f v with
      | error err =>
        rw [hv] at h
        cases h
      | ok b =>
        rw [hv] at h
        cases hvs : parseEach f vs with
        | error err =>
          rw [hvs] at h
          cases h
        | ok more =>
          rw [hvs] at h
          cases h
          exact .cons hv (ih.mp hvs)
    · intro h
      cases h with
      | cons hv hvs =>
        rw [hv, ih.mpr hvs]

theorem parseFields_iff {values kept : Values} {items : List Reply} (heven : items.length % 2 = 0) :
    parseFields values items = .ok kept ↔ ∃ fields, FieldItems Kept items fields ∧
      kept = fields.foldl (fun values field => values.set field.1 field.2) values := by
  induction values, items using parseFields.induct with
  | case1 values key value rest err hkey =>
    rw [parseFields, hkey]
    constructor
    · intro h
      cases h
    · rintro ⟨fields, hfields, _⟩
      cases hfields with
      | cons hname _ _ =>
        rw [parseRedisBulkString_iff.mpr hname] at hkey
        cases hkey
  | case2 values key value rest name hkey ih =>
    rw [parseFields, hkey]
    have hrest : rest.length % 2 = 0 := by
      simp only [List.length_cons] at heven
      omega
    refine (ih hrest).trans ?_
    constructor
    · rintro ⟨fields, hfields, hkept⟩
      exact ⟨(name, stored value) :: fields, .cons (parseRedisBulkString_iff.mp hkey) rfl hfields, hkept⟩
    · rintro ⟨fields, hfields, hkept⟩
      cases hfields with
      | cons hname hval h =>
        rw [parseRedisBulkString_iff.mpr hname, Except.ok.injEq] at hkey
        rw [hkey, hval] at hkept
        exact ⟨_, h, hkept⟩
  | case3 items values hshort =>
    -- an even number of values is none here
    have hnil : items = [] := by
      cases items with
      | nil => rfl
      | cons key rest =>
        cases rest with
        | nil =>
          rw [List.length_singleton] at heven
          cases heven
        | cons value rest => exact absurd rfl (hshort key value rest)
    subst hnil
    rw [parseFields]
    constructor
    · intro h
      cases h
      exact ⟨[], .nil, rfl⟩
    · rintro ⟨fields, hfields, hkept⟩
      cases hfields
      rw [hkept]
      rfl
    · intro key value rest h
      cases h

theorem FieldItems.even {β : Type} {val : Reply → β → Prop} {items : List Reply}
    {fields : List (Bytes × β)} (h : FieldItems val items fields) : items.length % 2 = 0 := by
  induction h with
  | nil => rfl
  | cons _ _ _ ih =>
    simp only [List.length_cons]
    omega

theorem parseXAutoClaimValues_iff {values : Values} : parseXAutoClaimValues v = .ok values ↔
    ∃ items fields, v = .array items ∧ FieldItems Kept items fields ∧ values = valuesOf fields := by
  constructor
  · intro h
    cases v with
    | array items =>
      rw [parseXAutoClaimValues] at h
      by_cases heven : items.length % 2 = 0
      · rw [if_neg (not_not.mpr heven)] at h
        obtain ⟨fields, hfields, hvalues⟩ := (parseFields_iff heven).mp h
        exact ⟨items, fields, rfl, hfields, hvalues⟩
      · rw [if_pos heven] at h
        cases h
    | nil | str | bytes | other => cases h
  · rintro ⟨items, fields, rfl, hfields, hvalues⟩
    rw [parseXAutoClaimValues, if_neg (not_not.mpr hfields.even)]
    exact (parseFields_iff hfields.even).mpr ⟨fields, hfields, hvalues⟩

theorem parseMessage_iff {msg : XMessage} :
    parseMessage v = .ok msg ↔ ∃ m, MessageItems Kept v m ∧ msg = toXMessage m := by
  constructor
  · intro h
    cases v with
    | array parts =>
      match parts with
      | [rawID, rawValues] =>
        rw [parseMessage] at h
        cases hid : parseRedisBulkString rawID with
        | error err =>
          rw [hid] at h
          cases h
        | ok id =>
          rw [hid] at h
          cases hvalues : parseXAutoClaimValues rawValues with
          | error err =>
            rw [hvalues] at h
            cases h
          | ok values =>
            rw [hvalues] at h
            cases h
            obtain ⟨items, fields, rfl, hfields, rfl⟩ := parseXAutoClaimValues_iff.mp hvalues
            exact ⟨(id, fields), .intro (parseRedisBulkString_iff.mp hid) hfields, rfl⟩
      | [] | [_] | _ :: _ :: _ :: _ => cases h
    | nil | str | bytes | other => cases h
  · rintro ⟨m, hm, rfl⟩
    cases hm with
    | intro hid hfields =>
      rw [parseMessage, parseRedisBulkString_iff.mpr hid]
      simp only [parseXAutoClaimValues_iff.mpr ⟨_, _, rfl, hfields, rfl⟩]
      rfl

theorem parseXAutoClaimMessages_iff {msgs : List XMessage} : parseXAutoClaimMessages v = .ok msgs ↔
    ∃ raws ms, v = .array raws ∧ List.Forall₂ (MessageItems Kept) raws ms ∧ msgs = ms.map toXMessage := by
  have hall : ∀ raws msgs, List.Forall₂ (fun v msg => parseMessage v = .ok msg) raws msgs ↔
      ∃ ms, List.Forall₂ (MessageItems Kept) raws ms ∧ msgs = ms.map toXMessage := by
    intro raws
    induction raws with
    | nil =>
      intro msgs
      simp only [List.forall₂_nil_left_iff, exists_eq_left, List.map_nil]
    | cons raw raws ih =>
      intro msgs
      constructor
      · intro h
        cases h with
        | cons hraw hraws =>
          obtain ⟨m, hm, rfl⟩ := parseMessage_iff.mp hraw
          obtain ⟨ms, hms, rfl⟩ := (ih _).mp hraws
          exact ⟨m :: ms, .cons hm hms, rfl⟩
      · rintro ⟨ms, hms, rfl⟩
        cases hms with
        | cons hm hms =>
          exact .cons (parseMessage_iff.mpr ⟨_, hm, rfl⟩) ((ih _).mpr ⟨_, hms, rfl⟩)
  constructor
  · intro h
    cases v with
    | array raws =>
      obtain ⟨ms, hms, hmsgs⟩ := (hall raws msgs).mp (parseEach_iff.mp h)
      exact ⟨raws, ms, rfl, hms, hmsgs⟩
    | nil | str | bytes | other => cases h
  · rintro ⟨raws, ms, rfl, hms, hmsgs⟩
    exact parseEach_iff.mpr ((hall raws msgs).mpr ⟨ms, hms, hmsgs⟩)

theorem parseDeletedID_iff {id : Bytes} : parseDeletedID v = .ok id ↔ Bulk v id := by
  rw [← parseRedisBulkString_iff]
  unfold parseDeletedID
  cases parseRedisBulkString v with
  | error err =>
    constructor <;> intro h <;> cases h
  | ok s => exact Iff.rfl

theorem parseXAutoClaimDeletedIDs_iff {ids : List Bytes} : parseXAutoClaimDeletedIDs v = .ok ids ↔
    ∃ deleted, DeletedItems true [v] deleted ∧ ids = deleted.getD [] := by
  constructor
  · intro h
    cases v with
    | nil =>
      cases h
      exact ⟨none, .nil rfl, rfl⟩
    | array raws =>
      have hraws := parseEach_iff.mp h
      simp only [parseDeletedID_iff] at hraws
      exact ⟨some ids, .ids hraws, rfl⟩
    | str | bytes | other => cases h
  · rintro ⟨deleted, hdeleted, rfl⟩
    cases hdeleted with
    | nil _ => rfl
    | ids hraws =>
      exact parseEach_iff.mpr (hraws.imp fun _ _ hraw => parseDeletedID_iff.mpr hraw)

/-- What a reply is read as that encodes something. -/
theorem parse_of_encodes {cursor : Bytes} {ms : List (Bytes × List (Bytes × Reply))}
    {deleted : Option (List Bytes)} (h : Encodes Kept true v cursor ms deleted) :
    parseXAutoClaimReply v = ⟨cursor, ms.map toXMessage, deleted.getD [], none⟩ := by
  cases h with
  | intro hcursor hmsgs hdeleted =>
    have hfirst := parseRedisBulkString_iff.mpr hcursor
    have hsecond := parseXAutoClaimMessages_iff.mpr ⟨_, ms, rfl, hmsgs, rfl⟩
    cases hdeleted with
    | absent =>
      show parseParts _ _ none = _
      unfold parseParts
      rw [hfirst, hsecond]
      rfl
    | ids hraws =>
      have hthird := parseXAutoClaimDeletedIDs_iff.mpr ⟨_, .ids hraws, rfl⟩
      show parseParts _ _ (some _) = _
      unfold parseParts
      simp only [hfirst, hsecond, hthird]
    | nil hgap =>
      show parseParts _ _ (some .nil) = _
      unfold parseParts
      rw [hfirst, hsecond]
      rfl

theorem parseParts_cases (first second : Reply) (third : Option Reply) :
    (∃ err, parseParts first second third = .failed err) ∨
      ∃ cursor ms deleted, Encodes Kept true (.array (first :: second :: third.toList)) cursor ms deleted := by
  unfold parseParts
  cases hfirst : parseRedisBulkString first with
  | error err => exact .inl ⟨_, rfl⟩
  | ok cursor =>
    have hcursor := parseRedisBulkString_iff.mp hfirst
    cases hsecond : parseXAutoClaimMessages second with
    | error err => exact .inl ⟨_, rfl⟩
    | ok msgs =>
      obtain ⟨raws, ms, rfl, hms, _⟩ := parseXAutoClaimMessages_iff.mp hsecond
      cases third with
      | none => exact .inr ⟨cursor, ms, none, .intro hcursor hms .absent⟩
      | some third =>
        cases hthird : parseXAutoClaimDeletedIDs third with
        | error err => exact .inl ⟨err, by simp only [hthird]⟩
        | ok ids =>
          obtain ⟨deleted, hdeleted, _⟩ := parseXAutoClaimDeletedIDs_iff.mp hthird
          exact .inr ⟨cursor, ms, deleted, .intro hcursor hms hdeleted⟩

/-- A reply encodes something, or it is refused with nothing but an error. -/
theorem parse_cases (v : Reply) : (∃ err, parseXAutoClaimReply v = .failed err) ∨
    ∃ cursor ms deleted, Encodes Kept true v cursor ms deleted := by
  cases v with
  | array parts =>
    match parts with
    | [first, second] => exact parseParts_cases first second none
    | [first, second, third] => exact parseParts_cases first second (some third)
    | [] | [_] | _ :: _ :: _ :: _ :: _ => exact .inl ⟨_, rfl⟩
  | nil | str | bytes | other => exact .inl ⟨_, rfl⟩

end Parse

section Fields

variable {key : Bytes} {value : Reply} {values : Values} {fields : List (Bytes × Reply)}

theorem lookup_cons_ite (name : Bytes) (v : Reply) (rest : Values) (key : Bytes) :
    List.lookup key ((name, v) :: rest) = if key = name then some v else rest.lookup key := by
  rw [List.lookup_cons]
  by_cases hkey : key = name
  · rw [if_pos hkey, beq_iff_eq.mpr hkey]
  · rw [if_neg hkey, beq_false_of_ne hkey]

theorem lookup_set (key' : Bytes) :
    (Values.set key value values).lookup key' = if key' = key then some value else values.lookup key' := by
  induction values with
  | nil => exact lookup_cons_ite key value [] key'
  | cons head rest ih =>
    obtain ⟨name, v⟩ := head
    rw [Values.set]
    by_cases hname : name = key
    · rw [if_pos hname, lookup_cons_ite, lookup_cons_ite, hname]
      by_cases hkey : key' = key
      · rw [if_pos hkey, if_pos hkey]
      · rw [if_neg hkey, if_neg hkey, if_neg hkey]
    · rw [if_neg hname, lookup_cons_ite, lookup_cons_ite, ih]
      by_cases hkey : key' = name
      · have hne : key' ≠ key := fun heq => hname (hkey ▸ heq)
        rw [if_pos hkey, if_neg hne, if_pos hkey]
      · rw [if_neg hkey, if_neg hkey]

/-- Of the values of one name the last counts. -/
theorem lookup_valuesOf (fields : List (Bytes × Reply)) (key : Bytes) :
    (valuesOf fields).lookup key = fields.reverse.lookup key := by
  induction fields using List.reverseRecOn with
  | nil => rfl
  | append_singleton fields field ih =>
    obtain ⟨name, v⟩ := field
    unfold valuesOf at ih ⊢
    rw [List.foldl_append, List.foldl_cons, List.foldl_nil, lookup_set, ih, List.reverse_append,
      List.reverse_singleton, List.singleton_append, lookup_cons_ite]

theorem set_of_notMem (h : key ∉ values.map Prod.fst) :
    Values.set key value values = values ++ [(key, value)] := by
  induction values with
  | nil => rfl
  | cons head rest ih =>
    obtain ⟨name, v⟩ := head
    rw [List.map_cons, List.mem_cons, not_or] at h
    rw [Values.set, if_neg (Ne.symm h.1), ih h.2]
    rfl

/-- Fields with distinct names are the map. -/
theorem valuesOf_of_nodup (h : (fields.map Prod.fst).Nodup) : valuesOf fields = fields := by
  induction fields using List.reverseRecOn with
  | nil => rfl
  | append_singleton fields field ih =>
    rw [List.map_append, List.nodup_append] at h
    have hnot : field.1 ∉ fields.map Prod.fst := fun hmem => h.2.2 _ hmem _ (by simp) rfl
    unfold valuesOf at ih ⊢
    rw [List.foldl_append, List.foldl_cons, List.foldl_nil, ih h.1, set_of_notMem hnot]

end Fields

/-! ## Strings only -/

/-- The fields of a message as they are kept. -/
def asStrings (m : Bytes × List (Bytes × Bytes)) : Bytes × List (Bytes × Reply) :=
  (m.1, m.2.map fun field => (field.1, .str field.2))

/-- The reply encodes messages whose fields have distinct names and strings as values. -/
def EncodesStrings (v : Reply) (cursor : Bytes) (msgs : List (Bytes × List (Bytes × Bytes)))
    (deleted : Option (List Bytes)) : Prop :=
  Encodes Bulk false v cursor msgs deleted ∧ ∀ m ∈ msgs, (m.2.map Prod.fst).Nodup

section Strings

variable {v : Reply} {cursor : Bytes} {msgs : List (Bytes × List (Bytes × Bytes))}
  {deleted : Option (List Bytes)}

theorem stored_of_bulk {s : Bytes} (h : Bulk v s) : stored v = .str s := by
  cases h <;> rfl

theorem FieldItems.asStrings {items : List Reply} {fields : List (Bytes × Bytes)}
    (h : FieldItems Bulk items fields) :
    FieldItems Kept items (fields.map fun field => (field.1, .str field.2)) := by
  induction h with
  | nil => exact .nil
  | cons hname hval _ ih => exact .cons hname (stored_of_bulk hval).symm ih

theorem DeletedItems.gap {rest : List Reply} (h : DeletedItems false rest deleted) :
    DeletedItems true rest deleted := by
  cases h with
  | absent => exact .absent
  | ids hraws => exact .ids hraws
  | nil hgap => cases hgap

/-- Strings are kept as strings. -/
theorem Encodes.asStrings (h : Encodes Bulk false v cursor msgs deleted) :
    Encodes Kept true v cursor (msgs.map asStrings) deleted := by
  cases h with
  | intro hcursor hmsgs hdeleted =>
    refine .intro hcursor ?_ hdeleted.gap
    rw [List.forall₂_map_right_iff]
    refine hmsgs.imp fun raw m hm => ?_
    cases hm with
    | intro hid hfields => exact .intro hid hfields.asStrings

/-- Such messages are handed on in order, with their fields as they are. -/
theorem parse_of_encodesStrings (h : EncodesStrings v cursor msgs deleted) :
    parseXAutoClaimReply v = ⟨cursor,
      msgs.map fun m => ⟨m.1, m.2.map fun field => (field.1, .str field.2)⟩, deleted.getD [], none⟩ := by
  rw [parse_of_encodes h.1.asStrings, List.map_map]
  have hfields : ∀ m ∈ msgs, (toXMessage ∘ asStrings) m = ⟨m.1, m.2.map fun field => (field.1, .str field.2)⟩ := by
    intro m hm
    have hnodup : ((asStrings m).2.map Prod.fst).Nodup := by
      unfold asStrings
      rw [List.map_map]
      exact h.2 m hm
    show XMessage.mk m.1 (valuesOf (asStrings m).2) = _
    rw [valuesOf_of_nodup hnodup]
    rfl
  rw [List.map_congr_left hfields]

end Strings

section Acknowledged

variable {v : Reply} {ids : List Bytes}

/-- Only ids that the reply lists as deleted are acknowledged. -/
theorem encodes_of_xack (h : (autoClaim (.ok v)).xack = some ids) :
    ∃ cursor ms, Encodes Kept true v cursor ms (some ids) := by
  rcases parse_cases v with ⟨err, hfailed⟩ | ⟨cursor, ms, deleted, hv⟩
  · simp only [autoClaim, hfailed, Parsed.failed] at h
    cases h
  · simp only [autoClaim, parse_of_encodes hv, xackDeletedIDsBestEffort] at h
    cases deleted with
    | none => simp at h
    | some deleted =>
      by_cases hnil : deleted = []
      · simp [hnil] at h
      · simp only [Option.getD_some, if_neg hnil, Option.some.injEq] at h
        rw [h] at hv
        exact ⟨cursor, ms, hv⟩

/-- A reply of strings is read exactly. Beyond these, names may repeat, and the last value of one
counts; a value that is no bulk string is kept; and nil stands for no deleted ids. What is not of
this form is an error and nothing else, and only ids of the third part are acknowledged. -/
theorem reply_decoded (v : Reply) :
    (∀ cursor msgs deleted, EncodesStrings v cursor msgs deleted → parseXAutoClaimReply v = ⟨cursor,
      msgs.map fun m => ⟨m.1, m.2.map fun field => (field.1, .str field.2)⟩, deleted.getD [], none⟩) ∧
    (∀ cursor ms deleted, Encodes Kept true v cursor ms deleted →
      parseXAutoClaimReply v = ⟨cursor, ms.map toXMessage, deleted.getD [], none⟩ ∧
      ∀ m ∈ ms, ∀ key, (toXMessage m).values.lookup key = m.2.reverse.lookup key) ∧
    ((∀ cursor ms deleted, ¬ Encodes Kept true v cursor ms deleted) →
      ∃ err, parseXAutoClaimReply v = ⟨[], [], [], some err⟩ ∧
        autoClaim (.ok v) = ⟨[], [], some err, none⟩) ∧
    ∀ ids, (autoClaim (.ok v)).xack = some ids → ∃ cursor ms, Encodes Kept true v cursor ms (some ids) := by
  refine ⟨fun _ _ _ => parse_of_encodesStrings, ?_, ?_, fun _ => encodes_of_xack⟩
  · intro cursor ms deleted hv
    exact ⟨parse_of_encodes hv, fun m _ key => lookup_valuesOf m.2 key⟩
  · intro hnot
    rcases parse_cases v with ⟨err, hfailed⟩ | ⟨cursor, ms, deleted, hv⟩
    · refine ⟨err, hfailed, ?_⟩
      simp only [autoClaim, hfailed, Parsed.failed]
    · exact absurd hv (hnot cursor ms deleted)

end Acknowledged

/-- A reply that is accepted though it encodes no fields of distinct names with strings, and ids. -/
def AcceptedBeyond (v : Reply) : Prop :=
  (parseXAutoClaimReply v).err = none ∧ ¬ ∃ cursor msgs deleted, EncodesStrings v cursor msgs deleted

/-- No deleted ids. -/
def nilIDs : Reply := .array [.str (utf8 "0-0"), .array [], .nil]

/-- A message with a value that is no string. -/
def numberValue : Reply :=
  .array [.str (utf8 "0-0"), .array [.array [.str (utf8 "1-0"), .array [.str (utf8 "priority"), .other "int64" "0"]]]]

/-- A message with the same name twice. -/
def repeatedName : Reply :=
  .array [.str (utf8 "0-0"), .array [.array [.str (utf8 "1-0"),
    .array [.str (utf8 "a"), .str (utf8 "1"), .str (utf8 "a"), .str (utf8 "2")]]]]

theorem accepted_beyond_strings :
    AcceptedBeyond nilIDs ∧ AcceptedBeyond numberValue ∧ AcceptedBeyond repeatedName := by
  refine ⟨?_, ?_, ?_⟩
  · refine ⟨rfl, ?_⟩
    rintro ⟨cursor, msgs, deleted, h, _⟩
    cases h with
    | intro _ _ hdeleted =>
      cases hdeleted with
      | nil hgap => cases hgap
  · refine ⟨rfl, ?_⟩
    rintro ⟨cursor, msgs, deleted, h, _⟩
    cases h with
    | intro _ hmsgs _ =>
      cases hmsgs with
      | cons hm _ =>
        cases hm with
        | intro _ hfields =>
          cases hfields with
          | cons _ hval _ => cases hval
  · refine ⟨rfl, ?_⟩
    rintro ⟨cursor, msgs, deleted, h, hnodup⟩
    cases h with
    | intro _ hmsgs _ =>
      cases hmsgs with
      | cons hm _ =>
        cases hm with
        | intro _ hfields =>
          cases hfields with
          | cons hname _ hrest =>
            cases hrest with
            | cons hname' _ _ =>
              cases hname
              cases hname'
              have hdistinct := hnodup _ List.mem_cons_self
              simp at hdistinct

end DeepOj.Worker.AutoClaim
