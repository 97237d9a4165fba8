import StuntDouble.JsonShape
import StuntDouble.LineReader
import StuntDouble.Protocol
import Mathlib.Data.String.Basic

/-!
The messages on the wire. A message is an object that names its variant first, on a line of
its own. The decoder reads the tag and then the fields of the variant from the members of
the object; a payload becomes a value, in which a repeated member replaces the earlier one.
-/
namespace StuntDouble

namespace Json

/-- A member put into a map that is in key order. -/
def insertEntry (key : String) (value : Json) : List (String × Json) → List (String × Json)
  | [] => [(key, value)]
  | entry :: rest =>
    if key < entry.1 then (key, value) :: entry :: rest
    else if key = entry.1 then (key, value) :: rest
    else entry :: insertEntry key value rest

mutual

/-- The value that is read from a text with these members. -/
def toValue : Json → Json
  | .array items => .array (toValues items)
  | .object entries => .object (toEntries [] entries)
  | value => value

def toValues : List Json → List Json
  | [] => []
  | item :: rest => toValue item :: toValues rest

/-- The members are put into the map one after the other. -/
def toEntries (entries : List (String × Json)) : List (String × Json) → List (String × Json)
  | [] => entries
  | (key, value) :: rest => toEntries (insertEntry key (toValue value) entries) rest

end

mutual

/-- A value whose maps are in key order, as all values are. -/
def Ordered : Json → Prop
  | .array items => OrderedItems items
  | .object entries => (entries.map Prod.fst).Pairwise (· < ·) ∧ OrderedEntries entries
  | _ => True

def OrderedItems : List Json → Prop
  | [] => True
  | item :: rest => Ordered item ∧ OrderedItems rest

def OrderedEntries : List (String × Json) → Prop
  | [] => True
  | (_, value) :: rest => Ordered value ∧ OrderedEntries rest

end

section Values

theorem insertEntry_last {key : String} (value : Json) {entries : List (String × Json)}
    (h : ∀ entry ∈ entries, entry.1 < key) :
    insertEntry key value entries = entries ++ [(key, value)] := by
  induction entries with
  | nil => rfl
  | cons entry rest ih =>
    have hlt := h entry (by simp)
    rw [insertEntry, if_neg (not_lt.mpr hlt.le), if_neg (ne_of_gt hlt),
      ih fun entry hentry => h entry (List.mem_cons_of_mem _ hentry), List.cons_append]

mutual

/-- A value in key order is read as it is. -/
theorem toValue_eq (v : Json) (h : Ordered v) : v.toValue = v := by
  match v with
  | .null | .bool _ | .number _ | .string _ => rfl
  | .array items => rw [toValue, toValues_eq items h]
  | .object entries => rw [toValue, toEntries_eq [] entries h.1 h.2, List.nil_append]

theorem toValues_eq (items : List Json) (h : OrderedItems items) : toValues items = items := by
  match items with
  | [] => rfl
  | item :: rest => rw [toValues, toValue_eq item h.1, toValues_eq rest h.2]

theorem toEntries_eq (front entries : List (String × Json))
    (hkeys : ((front ++ entries).map Prod.fst).Pairwise (· < ·)) (h : OrderedEntries entries) :
    toEntries front entries = front ++ entries := by
  match entries with
  | [] => rw [toEntries, List.append_nil]
  | (key, value) :: rest =>
    have hlt : ∀ entry ∈ front, entry.1 < key := by
      intro entry hentry
      rw [List.map_append, List.pairwise_append] at hkeys
      exact hkeys.2.2 entry.1 (List.mem_map_of_mem hentry) key (by simp)
    have hsplit : front ++ (key, value) :: rest = front ++ [(key, value)] ++ rest := by simp
    rw [hsplit] at hkeys ⊢
    rw [toEntries, toValue_eq value h.1, insertEntry_last value hlt,
      toEntries_eq (front ++ [(key, value)]) rest hkeys h.2]

end

theorem lookup_insertEntry (name key : String) (value : Json) (entries : List (String × Json)) :
    (insertEntry key value entries).lookup name =
      if name = key then some value else entries.lookup name := by
  induction entries with
  | nil =>
    rw [insertEntry, List.lookup_cons]
    by_cases hname : name = key
    · simp [hname]
    · simp [hname, beq_false_of_ne hname]
  | cons entry rest ih =>
    rw [insertEntry]
    by_cases hname : name = key
    · subst hname
      rw [if_pos rfl] at ih ⊢
      split
      · exact List.lookup_cons_self
      · split
        · exact List.lookup_cons_self
        · rename_i hne
          rw [List.lookup_cons, beq_false_of_ne hne]
          exact ih
    · rw [if_neg hname] at ih ⊢
      have hkey : (name == key) = false := beq_false_of_ne hname
      split
      · rw [List.lookup_cons, hkey]
      · split
        · rename_i heq
          rw [List.lookup_cons, hkey, List.lookup_cons, ← heq, hkey]
        · rw [List.lookup_cons, List.lookup_cons, ih]

/-- Members that are not repeated are found in the map as they stand in the text. -/
theorem lookup_toEntries (name : String) (front entries : List (String × Json))
    (h : (entries.map Prod.fst).Nodup) :
    (toEntries front entries).lookup name =
      ((entries.lookup name).map toValue).or (front.lookup name) := by
  induction entries generalizing front with
  | nil => rfl
  | cons entry rest ih =>
    obtain ⟨key, value⟩ := entry
    obtain ⟨hkey, hrest⟩ := List.nodup_cons.mp h
    rw [toEntries, ih _ hrest, lookup_insertEntry, List.lookup_cons]
    by_cases hname : name = key
    · subst hname
      have hnone : rest.lookup name = none := by
        rw [List.lookup_eq_none_iff]
        intro entry hentry
        refine bne_iff_ne.mpr fun heq => hkey ?_
        show name ∈ rest.map Prod.fst
        rw [heq]
        exact List.mem_map_of_mem hentry
      rw [hnone, if_pos rfl, beq_self_eq_true]
      rfl
    · rw [if_neg hname, beq_false_of_ne hname]

end Values

end Json

namespace Script

section Encoding

def ParentMessage.toJson : ParentMessage → Json
  | .job script request matchKind allowedMethods =>
    .object [("type", .string "job"), ("script", .string script), ("request", request),
      ("match_kind", .string matchKind), ("allowed_methods", .array (allowedMethods.map .string))]
  | .hostResult result => .object [("type", .string "host_result"), ("result", result)]

/-- A kind that is absent is not written. -/
def FinalError.toJson (error : FinalError) : Json :=
  match error.kind with
  | none => .object [("message", .string error.message)]
  | some kind => .object [("kind", .string kind.wireName), ("message", .string error.message)]

def WorkerMessage.toJson : WorkerMessage → Json
  | .hostCall name payload =>
    .object [("type", .string "host_call"), ("name", .string name.asStr), ("payload", payload)]
  | .finalResult (.success result) =>
    .object [("type", .string "final_result"), ("ok", .bool true), ("result", result)]
  | .finalResult (.error error) =>
    .object [("type", .string "final_result"), ("ok", .bool false), ("error", error.toJson)]

end Encoding

section Decoding

/-- The field of a name that no other member has. -/
def field (name : String) (entries : List (String × Json)) : Option Json :=
  match entries.filter (fun entry => entry.1 == name) with
  | [entry] => some entry.2
  | _ => none

def others (name : String) (entries : List (String × Json)) : List (String × Json) :=
  entries.filter (fun entry => entry.1 != name)

/-- The tag of an enumeration and the content beside it; a sequence starts with its tag. -/
def tagged : Json → Option (String × Json)
  | .object entries =>
    match field "type" entries with
    | some (.string tag) => some (tag, .object (others "type" entries))
    | _ => none
  | .array (.string tag :: items) => some (tag, .array items)
  | _ => none

/-- The fields of a variant, by name or in order; other members are ignored. -/
def structFields (names : List String) : Json → Option (List Json)
  | .object entries => names.mapM fun name => field name entries
  | .array items => if items.length = names.length then some items else none
  | _ => none

def BridgeName.fromName (name : String) : Option BridgeName :=
  [.httpGet, .httpPipe, .file, .upload, .state, .validateHeaders, .crypto].find?
    fun bridge => bridge.asStr == name

/-- A unit variant is its name, or an object from its name to a unit. -/
def BridgeName.fromTree : Json → Option BridgeName
  | .string name => fromName name
  | .object [(name, .null)] => fromName name
  | .object [(name, .object [])] => fromName name
  | _ => none

def ParentMessage.fromTree (tree : Json) : Option ParentMessage :=
  match tagged tree with
  | none => none
  | some (tag, content) =>
    if tag = "job" then
      match structFields ["script", "request", "match_kind", "allowed_methods"] content with
      | some [.string script, request, .string matchKind, .array methods] =>
        (methods.mapM Json.asStr).map (.job script request.toValue matchKind)
      | _ => none
    else if tag = "host_result" then
      match structFields ["result"] content with
      | some [result] => some (.hostResult result.toValue)
      | _ => none
    else none

def Wire.fromTree (tree : Json) : Option Wire :=
  match tagged tree with
  | none => none
  | some (tag, content) =>
    if tag = "host_call" then
      match structFields ["name", "payload"] content with
      | some [name, payload] => (BridgeName.fromTree name).map (.hostCall · payload.toValue)
      | _ => none
    else if tag = "final_result" then
      match content with
      | .object entries =>
        match field "ok" entries with
        | some (.bool ok) => some (.finalResult ok (Json.toEntries [] (others "ok" entries)))
        | _ => none
      | _ => none
    else none

def WorkerMessage.fromTree (tree : Json) : Option WorkerMessage :=
  (Wire.fromTree tree).bind WorkerMessage.ofWire

end Decoding

section Lines

variable (floatText : UInt64 → String) (parse : List Char → Option Json)

/-- The object of a message, as it is written on its line. -/
def encode (message : Json) : Bytes := Utf8.encode (message.compact floatText)

def writeLine (message : Json) : Bytes := encode floatText message ++ [LineReader.newline]

def ParentMessage.decode (line : Bytes) : Option ParentMessage :=
  (Utf8.decode line).bind fun text => (parse text.toList).bind ParentMessage.fromTree

/-- What the exchange makes of the text of a line. -/
def decodeWire (text : String) : Option Wire := (parse text.toList).bind Wire.fromTree

def WorkerMessage.decode (line : Bytes) : Option WorkerMessage :=
  (Utf8.decode line).bind fun text => (decodeWire parse text).bind WorkerMessage.ofWire

end Lines

section Members

variable {entries : List (String × Json)}

theorem filter_key_nil {name : String} (h : name ∉ entries.map Prod.fst) :
    entries.filter (fun entry => entry.1 == name) = [] := by
  rw [List.filter_eq_nil_iff]
  intro entry hentry heq
  have heq : entry.1 = name := eq_of_beq heq
  exact h (heq ▸ List.mem_map_of_mem hentry)

/-- Without repeated members a field is what its name leads to. -/
theorem field_eq_lookup (h : (entries.map Prod.fst).Nodup) (name : String) :
    field name entries = entries.lookup name := by
  induction entries with
  | nil => rfl
  | cons entry rest ih =>
    obtain ⟨key, value⟩ := entry
    obtain ⟨hkey, hrest⟩ := List.nodup_cons.mp h
    have ih := ih hrest
    unfold field at ih ⊢
    by_cases hname : name = key
    · subst hname
      rw [List.filter_cons_of_pos (by simp), filter_key_nil hkey, List.lookup_cons_self]
    · have hne : (name == key) = false := beq_false_of_ne hname
      rw [List.filter_cons_of_neg (by simp [Ne.symm hname]), List.lookup_cons, hne]
      exact ih

theorem lookup_others {name other : String} (hne : name ≠ other) :
    (others other entries).lookup name = entries.lookup name := by
  induction entries with
  | nil => rfl
  | cons entry rest ih =>
    unfold others at ih ⊢
    by_cases hentry : entry.1 = other
    · have hname : (name == entry.1) = false := by
        rw [hentry]
        exact beq_false_of_ne hne
      rw [List.filter_cons_of_neg (by simp [hentry]), List.lookup_cons, hname]
      exact ih
    · rw [List.filter_cons_of_pos (by simp [hentry]), List.lookup_cons, List.lookup_cons, ih]

theorem others_nodup (name : String) (h : (entries.map Prod.fst).Nodup) :
    ((others name entries).map Prod.fst).Nodup :=
  h.sublist ((List.filter_sublist).map _)

end Members

section FinalResults

/-- The kind of an error that is written as a kind is read. -/
def IsKind (value : Json) : Prop :=
  value = .null ∨ ∃ kind : FinalErrorKind, value = .string kind.wireName ∨
    value = .object [(kind.wireName, .null)]

/-- An error has a message, and a kind that is known if there is one. -/
def IsFinalError : Json → Prop
  | .object fields => (∃ message, fields.lookup "message" = some (.string message)) ∧
      ∀ kind, fields.lookup "kind" = some kind → IsKind kind
  | .array items => ∃ kind message, items = [kind, .string message] ∧ IsKind kind
  | _ => False

theorem fromName_isSome_iff (name : String) :
    (FinalErrorKind.fromName name).isSome ↔ ∃ kind : FinalErrorKind, kind.wireName = name := by
  rw [FinalErrorKind.fromName, List.find?_isSome]
  constructor
  · rintro ⟨kind, -, hkind⟩
    exact ⟨kind, eq_of_beq hkind⟩
  · rintro ⟨kind, rfl⟩
    exact ⟨kind, by cases kind <;> simp, beq_self_eq_true _⟩

theorem fromValue_isSome_iff (value : Json) : (FinalErrorKind.fromValue value).isSome ↔
    ∃ kind : FinalErrorKind, value = .string kind.wireName ∨
      value = .object [(kind.wireName, .null)] := by
  unfold FinalErrorKind.fromValue
  split
  · rename_i name
    rw [fromName_isSome_iff]
    constructor
    · rintro ⟨kind, rfl⟩
      exact ⟨kind, Or.inl rfl⟩
    · rintro ⟨kind, h | h⟩
      · cases h
        exact ⟨kind, rfl⟩
      · cases h
  · rename_i name
    rw [fromName_isSome_iff]
    constructor
    · rintro ⟨kind, rfl⟩
      exact ⟨kind, Or.inr rfl⟩
    · rintro ⟨kind, h | h⟩
      · cases h
      · cases h
        exact ⟨kind, rfl⟩
  · rename_i hstring hobject
    constructor
    · intro h
      cases h
    · rintro ⟨kind, rfl | rfl⟩
      · exact absurd rfl (hstring _)
      · exact absurd rfl (hobject _)

theorem kindFromValue_isSome_iff (value : Option Json) :
    (FinalError.kindFromValue value).isSome ↔ ∀ kind, value = some kind → IsKind kind := by
  unfold FinalError.kindFromValue
  split
  · simp
  · simp [IsKind]
  · rename_i value hnull
    rw [Option.isSome_map, fromValue_isSome_iff]
    constructor
    · rintro h kind hkind
      cases hkind
      exact Or.inr h
    · intro h
      rcases h value rfl with rfl | h
      · exact absurd rfl hnull
      · exact h

theorem asStr_eq_some_iff (value : Json) (text : String) :
    value.asStr = some text ↔ value = .string text := by
  cases value with
  | string s => simp [Json.asStr]
  | _ => simp [Json.asStr]

/-- Either shape needs its message and its kind. -/
theorem fromValue_object_isSome (fields : List (String × Json)) :
    (FinalError.fromValue (.object fields)).isSome ↔
      ((fields.lookup "message").bind Json.asStr).isSome ∧
        (FinalError.kindFromValue (fields.lookup "kind")).isSome := by
  rw [FinalError.fromValue]
  cases FinalError.kindFromValue (fields.lookup "kind") <;>
    cases (fields.lookup "message").bind Json.asStr <;> simp

theorem fromValue_pair_isSome (kind message : Json) :
    (FinalError.fromValue (.array [kind, message])).isSome ↔
      message.asStr.isSome ∧ (FinalError.kindFromValue (some kind)).isSome := by
  rw [FinalError.fromValue]
  cases FinalError.kindFromValue (some kind) <;> cases message.asStr <;> simp

theorem isFinalError_iff (value : Json) :
    (FinalError.fromValue value).isSome ↔ IsFinalError value := by
  cases value with
  | object fields =>
    rw [fromValue_object_isSome, kindFromValue_isSome_iff, Option.isSome_iff_exists]
    refine and_congr ?_ Iff.rfl
    refine exists_congr fun message => ?_
    cases fields.lookup "message" with
    | none => simp
    | some value =>
      rw [Option.bind_some, asStr_eq_some_iff, Option.some.injEq]
  | array items =>
    rcases items with _ | ⟨kind, _ | ⟨message, _ | ⟨third, rest⟩⟩⟩
    case cons.cons.nil =>
      rw [fromValue_pair_isSome, kindFromValue_isSome_iff, Option.isSome_iff_exists]
      constructor
      · rintro ⟨⟨text, htext⟩, hkind⟩
        rw [asStr_eq_some_iff] at htext
        exact ⟨kind, text, by rw [htext], hkind kind rfl⟩
      · rintro ⟨_, text, hitems, hkind⟩
        cases hitems
        refine ⟨⟨text, rfl⟩, ?_⟩
        intro kind hsome
        cases hsome
        exact hkind
    -- An array of any other length is no error.
    all_goals
      refine iff_of_false (by simp [FinalError.fromValue]) ?_
      rintro ⟨kind, message, hitems, -⟩
      simp at hitems
  | _ => exact iff_of_false (by simp [FinalError.fromValue]) id

theorem deserialize_isSome_iff (ok : Bool) (fields : List (String × Json)) :
    (FinalResult.deserialize ok fields).isSome ↔
      (ok = true ∧ (fields.lookup "result").isSome ∧ fields.lookup "error" = none) ∨
      (ok = false ∧ fields.lookup "result" = none ∧
        ∃ error, fields.lookup "error" = some error ∧ IsFinalError error) := by
  unfold FinalResult.deserialize
  cases ok with
  | true =>
    cases fields.lookup "result" <;> cases fields.lookup "error" <;> simp
  | false =>
    cases fields.lookup "result" with
    | some result => simp
    | none =>
      cases fields.lookup "error" with
      | none => simp
      | some error => simp [← isFinalError_iff]

/-- Which objects with the tag of a result are one. -/
theorem finalResult_isSome_iff {entries : List (String × Json)}
    (h : (entries.map Prod.fst).Nodup)
    (htag : entries.lookup "type" = some (.string "final_result")) :
    (WorkerMessage.fromTree (.object entries)).isSome ↔
      (entries.lookup "ok" = some (.bool true) ∧ (entries.lookup "result").isSome ∧
        entries.lookup "error" = none) ∨
      (entries.lookup "ok" = some (.bool false) ∧ entries.lookup "result" = none ∧
        ∃ error, entries.lookup "error" = some error ∧ IsFinalError error.toValue) := by
  have hnodup := others_nodup "type" h
  have hok : field "ok" (others "type" entries) = entries.lookup "ok" := by
    rw [field_eq_lookup hnodup, lookup_others (by decide)]
  have hfield (name : String) (hok : name ≠ "ok") (htype : name ≠ "type") :
      (Json.toEntries [] (others "ok" (others "type" entries))).lookup name =
        (entries.lookup name).map Json.toValue := by
    rw [Json.lookup_toEntries name [] _ (others_nodup "ok" hnodup), lookup_others hok,
      lookup_others htype, List.lookup_nil, Option.or_none]
  have htagged : tagged (.object entries) =
      some ("final_result", .object (others "type" entries)) := by
    rw [tagged, field_eq_lookup h, htag]
  rw [WorkerMessage.fromTree, Wire.fromTree, htagged]
  simp only [if_neg (show ¬ "final_result" = "host_call" by decide), if_true, hok]
  cases hlookup : entries.lookup "ok" with
  | none => simp
  | some value =>
    cases value with
    | bool ok =>
      rw [Option.bind_some, WorkerMessage.ofWire, Option.isSome_map, deserialize_isSome_iff,
        hfield "result" (by decide) (by decide), hfield "error" (by decide) (by decide)]
      simp
    | _ => simp

end FinalResults

section RoundTrip

/-- A payload is a value in key order, with no floating-point numbers in it. -/
def Payload (value : Json) : Prop := JsonText.Plain value ∧ value.Ordered

def ParentMessage.Plain : ParentMessage → Prop
  | .job _ request _ _ => Payload request
  | .hostResult result => Payload result

def WorkerMessage.Plain : WorkerMessage → Prop
  | .hostCall _ payload => Payload payload
  | .finalResult (.success result) => Payload result
  | .finalResult (.error _) => True

theorem plainItems_strings (texts : List String) :
    JsonText.PlainItems (texts.map Json.string) := by
  induction texts with
  | nil => trivial
  | cons text texts ih => exact ⟨trivial, ih⟩

theorem ParentMessage.plain_toJson {message : ParentMessage} (h : message.Plain) :
    JsonText.Plain message.toJson := by
  cases message with
  | job script request matchKind allowedMethods =>
    exact ⟨trivial, trivial, h.1, trivial, plainItems_strings allowedMethods, trivial⟩
  | hostResult result => exact ⟨trivial, h.1, trivial⟩

theorem FinalError.plain_toJson (error : FinalError) : JsonText.Plain error.toJson := by
  unfold FinalError.toJson
  cases error.kind with
  | none => exact ⟨trivial, trivial⟩
  | some kind => exact ⟨trivial, trivial, trivial⟩

theorem WorkerMessage.plain_toJson {message : WorkerMessage} (h : message.Plain) :
    JsonText.Plain message.toJson := by
  match message with
  | .hostCall name payload => exact ⟨trivial, trivial, h.1, trivial⟩
  | .finalResult (.success result) => exact ⟨trivial, trivial, h.1, trivial⟩
  | .finalResult (.error error) => exact ⟨trivial, trivial, error.plain_toJson, trivial⟩

theorem mapM_asStr (texts : List String) :
    (texts.map Json.string).mapM Json.asStr = some texts := by
  induction texts with
  | nil => rfl
  | cons text texts ih =>
    rw [List.map_cons, List.mapM_cons, ih]
    rfl

theorem ParentMessage.fromTree_toJson {message : ParentMessage} (h : message.Plain) :
    ParentMessage.fromTree message.toJson = some message := by
  cases message with
  | job script request matchKind allowedMethods =>
    have hrequest : request.toValue = request := Json.toValue_eq request h.2
    have hfields : structFields ["script", "request", "match_kind", "allowed_methods"]
        (.object [("script", .string script), ("request", request),
          ("match_kind", .string matchKind),
          ("allowed_methods", .array (allowedMethods.map .string))]) =
        some [.string script, request, .string matchKind,
          .array (allowedMethods.map .string)] := rfl
    have htagged : tagged (ParentMessage.job script request matchKind allowedMethods).toJson =
        some ("job", .object [("script", .string script), ("request", request),
          ("match_kind", .string matchKind),
          ("allowed_methods", .array (allowedMethods.map .string))]) := rfl
    rw [fromTree, htagged]
    simp only [if_true, hfields, hrequest, mapM_asStr, Option.map_some]
  | hostResult result =>
    have hresult : result.toValue = result := Json.toValue_eq result h.2
    have htagged : tagged (ParentMessage.hostResult result).toJson =
        some ("host_result", .object [("result", result)]) := rfl
    have hfields : structFields ["result"] (.object [("result", result)]) = some [result] := rfl
    rw [fromTree, htagged]
    simp only [if_neg (show ¬ "host_result" = "job" by decide), if_true, hfields, hresult]

theorem BridgeName.fromTree_asStr (name : BridgeName) :
    BridgeName.fromTree (.string name.asStr) = some name := by
  cases name <;> rfl

/-- An error is read back from the value it is written as. -/
theorem FinalError.fromValue_toJson (error : FinalError) :
    FinalError.fromValue error.toJson.toValue = some error := by
  have hvalue : error.toJson.toValue = error.toJson := by
    apply Json.toValue_eq
    unfold FinalError.toJson
    cases error.kind with
    | none => exact ⟨by simp, trivial, trivial⟩
    | some kind =>
      have hkeys : "kind" < "message" := by decide
      exact ⟨List.pairwise_pair.mpr hkeys, trivial, trivial, trivial⟩
  rw [hvalue]
  obtain ⟨kind, message⟩ := error
  cases kind with
  | none => rfl
  | some kind => cases kind <;> rfl

theorem WorkerMessage.fromTree_toJson {message : WorkerMessage} (h : message.Plain) :
    WorkerMessage.fromTree message.toJson = some message := by
  match message with
  | .hostCall name payload =>
    have hpayload : payload.toValue = payload := Json.toValue_eq payload h.2
    have htagged : tagged (WorkerMessage.hostCall name payload).toJson =
        some ("host_call", .object [("name", .string name.asStr), ("payload", payload)]) := rfl
    have hfields : structFields ["name", "payload"]
        (.object [("name", .string name.asStr), ("payload", payload)]) =
        some [.string name.asStr, payload] := rfl
    rw [fromTree, Wire.fromTree, htagged]
    simp only [if_true, hfields, BridgeName.fromTree_asStr, Option.map_some, Option.bind_some,
      hpayload, ofWire]
  | .finalResult (.success result) =>
    have hresult : result.toValue = result := Json.toValue_eq result h.2
    have hwire : Wire.fromTree (WorkerMessage.finalResult (.success result)).toJson =
        some (.finalResult true [("result", result.toValue)]) := rfl
    rw [fromTree, hwire, hresult]
    rfl
  | .finalResult (.error error) =>
    have hwire : Wire.fromTree (WorkerMessage.finalResult (.error error)).toJson =
        some (.finalResult false [("error", error.toJson.toValue)]) := rfl
    have hresult : FinalResult.deserialize false [("error", error.toJson.toValue)] =
        (FinalError.fromValue error.toJson.toValue).map .error := rfl
    rw [fromTree, hwire, Option.bind_some, ofWire, hresult, FinalError.fromValue_toJson]
    rfl

end RoundTrip

section Wire

variable {floatText : UInt64 → String} {parse : List Char → Option Json}

theorem encode_eq (message : Json) :
    encode floatText message = Utf8.encodeChars (message.compactChars floatText) :=
  Utf8.encode_ofList _

theorem newline_not_mem_encode {message : Json} (h : JsonText.Plain message) :
    LineReader.newline ∉ encode floatText message := by
  intro hmem
  rw [encode_eq] at hmem
  have hline := JsonText.newline_not_mem_compact floatText message h
  exact Utf8.byte_not_mem_encodeChars (by decide) (by decide) hline _ hmem rfl

/-- A line is the text of its object and the newline. -/
theorem decode_writeLine (message : Json) : Utf8.decode (writeLine floatText message) =
    some (String.ofList (message.compactChars floatText ++ ['\n'])) := by
  have hline : writeLine floatText message =
      Utf8.encode (String.ofList (message.compactChars floatText ++ ['\n'])) := by
    rw [Utf8.encode_ofList, writeLine, encode_eq, Utf8.encodeChars, Utf8.encodeChars,
      List.flatMap_append]
    rfl
  rw [hline, Utf8.decode_encode]

theorem parse_line (hparse : JsonText.Standard floatText parse) {message : Json}
    (h : JsonText.Plain message) :
    parse (String.ofList (message.compactChars floatText ++ ['\n'])).toList = some message := by
  rw [String.toList_ofList]
  refine hparse.reads message h ['\n'] ?_
  intro c hc
  cases List.mem_singleton.mp hc
  rfl

/-- What was cut off before its end is not taken for a message. -/
theorem decode_cut (hparse : JsonText.Standard floatText parse) {entries : List (String × Json)}
    (h : JsonText.Plain (.object entries)) {cut : Bytes}
    (hcut : cut <+: encode floatText (.object entries))
    (hne : cut ≠ encode floatText (.object entries)) :
    ParentMessage.decode parse cut = none ∧ WorkerMessage.decode parse cut = none := by
  unfold ParentMessage.decode WorkerMessage.decode
  cases htext : Utf8.decode cut with
  | none => exact ⟨rfl, rfl⟩
  | some text =>
    have hbytes : Utf8.encodeChars text.toList = cut := by
      rw [← Utf8.encode_eq_encodeChars]
      exact Utf8.encode_of_decode htext
    rw [encode_eq, ← hbytes] at hcut
    have hprefix := Utf8.prefix_of_encodeChars hcut
    have hproper : text.toList ≠ Json.compactChars floatText (.object entries) := by
      intro heq
      rw [heq, ← encode_eq] at hbytes
      exact hne hbytes.symm
    have hopen := JsonText.not_closed_of_prefix floatText h hprefix hproper
    have hnone : parse text.toList = none := by
      cases hread : parse text.toList with
      | none => rfl
      | some value => exact absurd (hparse.closed _ _ hread) hopen
    simp only [Option.bind_some, decodeWire, hnone]
    exact ⟨rfl, rfl⟩

theorem ParentMessage.exists_object (message : ParentMessage) :
    ∃ entries, message.toJson = .object entries := by
  cases message <;> exact ⟨_, rfl⟩

theorem WorkerMessage.exists_object (message : WorkerMessage) :
    ∃ entries, message.toJson = .object entries := by
  match message with
  | .hostCall name payload => exact ⟨_, rfl⟩
  | .finalResult (.success result) => exact ⟨_, rfl⟩
  | .finalResult (.error error) => exact ⟨_, rfl⟩

theorem ParentMessage.decode_toJson (hparse : JsonText.Standard floatText parse)
    {message : ParentMessage} (h : message.Plain) :
    ParentMessage.decode parse (writeLine floatText message.toJson) = some message := by
  rw [ParentMessage.decode, decode_writeLine, Option.bind_some,
    parse_line hparse (message.plain_toJson h)]
  exact message.fromTree_toJson h

theorem WorkerMessage.decode_toJson (hparse : JsonText.Standard floatText parse)
    {message : WorkerMessage} (h : message.Plain) :
    WorkerMessage.decode parse (writeLine floatText message.toJson) = some message := by
  rw [WorkerMessage.decode, decode_writeLine, Option.bind_some, decodeWire,
    parse_line hparse (message.plain_toJson h)]
  exact message.fromTree_toJson h

/-- Messages stand on one line and are read back from it, a part of a message is no message,
and of the objects with the tag of a result those are one that announce what they have. -/
theorem messages_on_the_wire (hparse : JsonText.Standard floatText parse) :
    (∀ message : ParentMessage, message.Plain →
      LineReader.newline ∉ encode floatText message.toJson ∧
      ParentMessage.decode parse (writeLine floatText message.toJson) = some message ∧
      ∀ cut, cut <+: encode floatText message.toJson → cut ≠ encode floatText message.toJson →
        ParentMessage.decode parse cut = none ∧ WorkerMessage.decode parse cut = none) ∧
    (∀ message : WorkerMessage, message.Plain →
      LineReader.newline ∉ encode floatText message.toJson ∧
      WorkerMessage.decode parse (writeLine floatText message.toJson) = some message ∧
      ∀ cut, cut <+: encode floatText message.toJson → cut ≠ encode floatText message.toJson →
        ParentMessage.decode parse cut = none ∧ WorkerMessage.decode parse cut = none) ∧
    (∀ entries : List (String × Json), (entries.map Prod.fst).Nodup →
      entries.lookup "type" = some (.string "final_result") →
      ((WorkerMessage.fromTree (.object entries)).isSome ↔
        (entries.lookup "ok" = some (.bool true) ∧ (entries.lookup "result").isSome ∧
          entries.lookup "error" = none) ∨
        (entries.lookup "ok" = some (.bool false) ∧ entries.lookup "result" = none ∧
          ∃ error, entries.lookup "error" = some error ∧ IsFinalError error.toValue))) := by
  refine ⟨?_, ?_, fun entries => finalResult_isSome_iff⟩
  · intro message hmessage
    have hplain := message.plain_toJson hmessage
    refine ⟨newline_not_mem_encode hplain, message.decode_toJson hparse hmessage, ?_⟩
    · obtain ⟨entries, hentries⟩ := message.exists_object
      rw [hentries] at hplain ⊢
      exact fun cut => decode_cut hparse hplain
  · intro message hmessage
    have hplain := message.plain_toJson hmessage
    refine ⟨newline_not_mem_encode hplain, message.decode_toJson hparse hmessage, ?_⟩
    · obtain ⟨entries, hentries⟩ := message.exists_object
      rw [hentries] at hplain ⊢
      exact fun cut => decode_cut hparse hplain

/-- The readings of a result that is null, through a reader of JSON texts. -/
theorem messages_on_the_wire_null :
    WorkerMessage.decode (JsonText.parse fun _ => none)
        (writeLine (fun _ => "") (WorkerMessage.finalResult (.success .null)).toJson) =
      some (.finalResult (.success .null)) ∧
    WorkerMessage.decode (JsonText.parse fun _ => none)
        ((encode (fun _ => "") (WorkerMessage.finalResult (.success .null)).toJson).take 20) =
      none := by
  have hread := (messages_on_the_wire
    (JsonText.standard_parse (fun _ => "") fun _ => none)).2.1
      (.finalResult (.success .null)) ⟨trivial, trivial⟩
  have hne : (encode (fun _ => "") (WorkerMessage.finalResult (.success .null)).toJson).take 20 ≠
      encode (fun _ => "") (WorkerMessage.finalResult (.success .null)).toJson := by
    intro heq
    have hlength := congrArg List.length heq
    revert hlength
    decide +kernel
  exact ⟨hread.2.1, (hread.2.2 _ (List.take_prefix _ _) hne).2⟩

end Wire

end Script

end StuntDouble
