import StuntDouble.BridgeCalls
import StuntDouble.Crypto
import StuntDouble.LineLengths

/-!
The calls of `ctx.crypto` from a script to the host and back. A call computes its digest or
comparison of the bytes that its operands stand for, and it throws before the host is asked
when one of them stands for none or is out of bounds.
-/
namespace StuntDouble.Prelude

open Crypto JsonText

section Calls

variable (floatText : UInt64 → String) (readFloat : List Char → Option UInt64)

inductive CryptoAnswer
  | bytes (bytes : Bytes)
  | value (value : Option Json)

def CryptoCall.label : CryptoCall → String
  | .sha256 => "ctx.crypto.sha256"
  | .hmacSha256 => "ctx.crypto.hmacSha256"
  | .timingSafeEqual => "ctx.crypto.timingSafeEqual"

/-- The bytes of an answer. -/
def answeredBytes (result : Json) : Except Raised CryptoAnswer :=
  ((decodeBase64 (textMember result "bytes_base64").toList).mapError Raised.thrown).map .bytes

def CryptoCall.answer (result : Json) : CryptoCall → Except Raised CryptoAnswer
  | .sha256 | .hmacSha256 => answeredBytes result
  | .timingSafeEqual => .ok (.value (result.get "equal"))

/-- A call of a script, with the bridge to a host. -/
def CryptoCall.run (serve : Json → Option Json) (call : CryptoCall) (arguments : List InputArg) :
    Except Raised CryptoAnswer := do
  let payload ← (call.payload arguments).mapError Raised.thrown
  let result ← callBridge readFloat (workerBridge floatText readFloat serve payload) call.label
  call.answer result

/-- The payload of a call for random bytes; what is no integer is no length. -/
def cryptoRandomBytes : List Element → Except Thrown Tree
  | .integer byteLength :: _ =>
    if 1 ≤ byteLength ∧ byteLength ≤ 1024 then
      .ok (.object [(Utf16.encode "op", .string (Utf16.encode "random_bytes")),
        (Utf16.encode "byte_length", natTree byteLength.toNat)])
    else .error (.coded "crypto_invalid_input"
      "ctx.crypto.randomBytes: byteLength must be an integer in [1, 1024]")
  | _ => .error (.coded "crypto_invalid_input"
      "ctx.crypto.randomBytes: byteLength must be an integer in [1, 1024]")

def runRandomBytes (serve : Json → Option Json) (arguments : List Element) :
    Except Raised CryptoAnswer := do
  let payload ← (cryptoRandomBytes arguments).mapError Raised.thrown
  let result ← callBridge readFloat (workerBridge floatText readFloat serve payload)
    "ctx.crypto.randomBytes"
  answeredBytes result

end Calls

section Meaning

def itemByte (item : Option Element) : Option UInt8 := (item.bind checkByte).map UInt8.ofNat

/-- The bytes that an argument stands for. -/
def operandBytes : InputArg → Option Bytes
  | .text units => (toText units).map Utf8.encode
  | .typed bytes => some bytes
  | .array items => items.mapM itemByte
  | .missing | .other => none

def operand (value : InputArg) (minBytes maxBytes : ℕ) : Option Bytes :=
  (operandBytes value).filter fun bytes =>
    decide (minBytes ≤ bytes.length ∧ bytes.length ≤ maxBytes)

/-- What a call computes, when its operands are within their bounds. -/
def CryptoCall.computes (library : Library) (mac : Bytes → Bytes → Digest) :
    CryptoCall → List InputArg → Option CryptoAnswer
  | .sha256, value :: _ =>
    (operand value 0 maxSha256InputBytes).map fun message => .bytes (library.sha256 message).val
  | .hmacSha256, key :: message :: _ =>
    (operand key 0 maxHmacKeyBytes).bind fun key =>
      (operand message 0 maxHmacMessageBytes).map fun message => .bytes (mac key message).val
  | .timingSafeEqual, left :: right :: _ =>
    (operand left minTimingSafeEqualBytes maxTimingSafeEqualBytes).bind fun left =>
      (operand right minTimingSafeEqualBytes maxTimingSafeEqualBytes).map fun right =>
        .value (some (.bool (decide (left = right))))
  | _, _ => none

end Meaning

section Operands

variable (readFloat : List Char → Option UInt64) {label : String} {minBytes maxBytes : ℕ}

/-- An exception about an input. -/
def Invalid (thrown : Thrown) : Prop := ∃ message, thrown = .coded "crypto_invalid_input" message

/-- A checked operand as the worker reads it. -/
def Sent (checked : CryptoInput) (value : Json) : Prop :=
  checked.toTree.toJson readFloat = some value ∧ value.toValue = value ∧ depth value ≤ 1

/-- An operand that the host reads as these bytes. -/
def Carries (checked : CryptoInput) (bytes : Bytes) : Prop :=
  ∃ json, Sent readFloat checked json ∧
    ∀ (base64 : Engine) (minBytes maxBytes : ℕ), base64.Standard → minBytes ≤ bytes.length →
      bytes.length ≤ maxBytes →
        decodeCryptoInput base64 (some json) minBytes maxBytes = .ok bytes

theorem operand_keys : "type" < "value" := by decide

theorem carries_string (text : String) :
    Carries readFloat (.string (Utf16.encode text)) (Utf8.encode text) := by
  refine ⟨stringInput text, ⟨?_, ?_, Nat.le_refl 1⟩, ?_⟩
  · simp only [CryptoInput.toTree, Tree.toJson, entriesToJson, toText_encode, Option.bind_some,
      Option.map_some, stringInput]
  · exact Json.toValue_eq _ ⟨List.pairwise_pair.mpr operand_keys, trivial, trivial, trivial⟩
  · intro base64 minBytes maxBytes _ hmin hmax
    have hread : decodeCryptoInput base64 (some (stringInput text)) minBytes maxBytes =
        if (Utf8.encode text).length < minBytes ∨ maxBytes < (Utf8.encode text).length then
          .error (.invalidInput "crypto: input size out of range")
        else .ok (Utf8.encode text) := rfl
    rw [hread, if_neg (by omega)]

theorem carries_bytes (bytes : Bytes) :
    Carries readFloat (.bytes (encodeBase64 bytes)) bytes := by
  refine ⟨.object [("type", .string "bytes"),
    ("value", .string (String.ofList (encodeBase64 bytes)))], ⟨?_, ?_, Nat.le_refl 1⟩, ?_⟩
  · have hvalue : toText (Utf16.encodeChars (encodeBase64 bytes)) =
        some (String.ofList (encodeBase64 bytes)) := by
      rw [toText, toChars_encodeChars, Option.map_some]
    simp only [CryptoInput.toTree, Tree.toJson, entriesToJson, toText_encode, hvalue,
      Option.bind_some, Option.map_some]
  · exact Json.toValue_eq _ ⟨List.pairwise_pair.mpr operand_keys, trivial, trivial, trivial⟩
  · intro base64 minBytes maxBytes hbase64 hmin hmax
    have htaken : base64.decode (String.ofList (encodeBase64 bytes)) = some bytes := by
      rw [hbase64.takes, String.toList_ofList, encodeBase64_canonical]
    have hbounds : ¬(bytes.length < minBytes ∨ maxBytes < bytes.length) := by omega
    simp [decodeCryptoInput, List.lookup_cons, Json.asStr, htaken, hbounds, bind, Except.bind]

theorem checkItems_bytes (label : String) (items : List (Option Element)) :
    (∃ bytes, items.mapM itemByte = some bytes ∧ items.mapM (checkItem label) = .ok bytes) ∨
    (items.mapM itemByte = none ∧
      ∃ thrown, items.mapM (checkItem label) = .error thrown ∧ Invalid thrown) := by
  induction items with
  | nil => exact Or.inl ⟨[], rfl, rfl⟩
  | cons item rest ih =>
    rw [List.mapM_cons, List.mapM_cons]
    cases item with
    | none => exact Or.inr ⟨rfl, _, rfl, _, rfl⟩
    | some item =>
      cases hbyte : checkByte item with
      | none => exact Or.inr ⟨by simp [itemByte, hbyte], _, by simp [checkItem, hbyte]; rfl, _, rfl⟩
      | some byte =>
        have hfirst : checkItem label (some item) = .ok (UInt8.ofNat byte) := by
          simp [checkItem, hbyte]
        have hitem : itemByte (some item) = some (UInt8.ofNat byte) := by
          simp [itemByte, hbyte]
        rw [hfirst, hitem]
        rcases ih with ⟨bytes, hbytes, hchecked⟩ | ⟨hnone, thrown, hthrown, hinvalid⟩
        · rw [hbytes, hchecked]
          exact Or.inl ⟨_, rfl, rfl⟩
        · rw [hnone, hthrown]
          exact Or.inr ⟨rfl, thrown, rfl, hinvalid⟩

/-- A check passes exactly the operands within their bounds, and with the bytes they have. -/
def Passes (value : InputArg) (minBytes maxBytes : ℕ) (check : Except Thrown CryptoInput) : Prop :=
  (∃ bytes checked, operand value minBytes maxBytes = some bytes ∧ check = .ok checked ∧
    Carries readFloat checked bytes) ∨
  (operand value minBytes maxBytes = none ∧ ∃ thrown, check = .error thrown ∧ Invalid thrown)

/-- Bytes whose length is all that is left to check. -/
theorem passes_checkLength (label : String) {value : InputArg} {bytes : Bytes}
    {checked : CryptoInput} (hvalue : operandBytes value = some bytes)
    (hcarries : Carries readFloat checked bytes) :
    Passes readFloat value minBytes maxBytes
      ((checkLength label (some minBytes) maxBytes bytes.length).map fun _ => checked) := by
  unfold Passes operand
  rw [hvalue, Option.filter_some]
  by_cases hbounds : minBytes ≤ bytes.length ∧ bytes.length ≤ maxBytes
  · have hchecked := (checkLength_ok label (some minBytes) maxBytes bytes.length).mpr hbounds
    rw [if_pos (decide_eq_true hbounds), hchecked]
    exact Or.inl ⟨bytes, checked, rfl, rfl, hcarries⟩
  · rw [if_neg (by simp only [hbounds, decide_false, Bool.false_eq_true, not_false_eq_true])]
    refine Or.inr ⟨rfl, ?_⟩
    unfold checkLength
    by_cases hshort : bytes.length < minBytes
    · exact ⟨_, by simp [hshort]; rfl, _, rfl⟩
    · have hlong : maxBytes < bytes.length := by omega
      exact ⟨_, by simp [hshort, hlong]; rfl, _, rfl⟩

theorem passes_nothing {value : InputArg} {thrown : Thrown} (hvalue : operandBytes value = none)
    (h : Invalid thrown) : Passes readFloat value minBytes maxBytes (.error thrown) := by
  unfold Passes operand
  rw [hvalue]
  exact Or.inr ⟨rfl, thrown, rfl, h⟩

theorem checkCryptoInput_passes (value : InputArg) (label : String) (minBytes maxBytes : ℕ) :
    Passes readFloat value minBytes maxBytes
      (checkCryptoInput value label (some minBytes) maxBytes) := by
  cases value with
  | missing => exact passes_nothing readFloat rfl ⟨_, rfl⟩
  | other => exact passes_nothing readFloat rfl ⟨_, rfl⟩
  | typed bytes => exact passes_checkLength readFloat label rfl (carries_bytes readFloat bytes)
  | array items =>
    have hvalue : operandBytes (.array items) = items.mapM itemByte := rfl
    show Passes readFloat _ minBytes maxBytes ((items.mapM (checkItem label)).bind fun bytes =>
      (checkLength label (some minBytes) maxBytes bytes.length).map fun _ =>
        .bytes (encodeBase64 bytes))
    rcases checkItems_bytes label items with ⟨bytes, hbytes, hchecked⟩ | ⟨hnone, thrown, hthrown, h⟩
    · rw [hchecked]
      exact passes_checkLength readFloat label (hvalue.trans hbytes) (carries_bytes readFloat bytes)
    · rw [hthrown]
      exact passes_nothing readFloat (hvalue.trans hnone) h
  | text units =>
    have hvalue : operandBytes (.text units) = (toText units).map Utf8.encode := rfl
    by_cases hwell : Utf16.WellFormed units
    · obtain ⟨text, rfl⟩ := (Utf16.wellFormed_iff units).mp hwell
      rw [toText_encode] at hvalue
      have hcheck : checkCryptoInput (.text (Utf16.encode text)) label (some minBytes) maxBytes =
          (checkLength label (some minBytes) maxBytes (Utf8.encode text).length).map
            fun _ => .string (Utf16.encode text) := by
        unfold checkCryptoInput checkCryptoString
        simp only [checkUtf16Surrogates_encode, measureUtf8Bytes_encode]
        rfl
      rw [hcheck]
      exact passes_checkLength readFloat label hvalue (carries_string readFloat text)
    · have hnone : toText units = none := by
        cases htext : toChars units with
        | none => rw [toText, htext, Option.map_none]
        | some chars => exact absurd ((toChars_isSome_iff units).mp (by rw [htext]; rfl)) hwell
      rw [hnone] at hvalue
      show Passes readFloat _ minBytes maxBytes ((checkCryptoString units label).bind fun _ =>
        (checkLength label (some minBytes) maxBytes (measureUtf8Bytes units)).map fun _ =>
          .string units)
      cases hcheck : checkCryptoString units label with
      | ok _ => exact absurd (checkUtf16Surrogates_sound hcheck) hwell
      | error thrown => exact passes_nothing readFloat hvalue ⟨_, checkUtf16Surrogates_error hcheck⟩

end Operands

section Payloads

variable (readFloat : List Char → Option UInt64)

/-- The host reads these bytes from a member of a payload. -/
def Reads (payload : Json) (name : String) (bytes : Bytes) : Prop :=
  ∀ (base64 : Engine) (minBytes maxBytes : ℕ), base64.Standard → minBytes ≤ bytes.length →
    bytes.length ≤ maxBytes → input base64 payload name minBytes maxBytes = .ok bytes

theorem reads_of_get {payload json : Json} {name : String} {bytes : Bytes}
    (hget : payload.get name = some json)
    (hread : ∀ (base64 : Engine) (minBytes maxBytes : ℕ), base64.Standard →
      minBytes ≤ bytes.length → bytes.length ≤ maxBytes →
        decodeCryptoInput base64 (some json) minBytes maxBytes = .ok bytes) :
    Reads payload name bytes := by
  intro base64 minBytes maxBytes hbase64 hmin hmax
  rw [input, hget, hread base64 minBytes maxBytes hbase64 hmin hmax]
  rfl

theorem entriesToJson_sent {operands : List (String × CryptoInput)} {values : List Json}
    (h : List.Forall₂ (fun operand value => Sent readFloat operand.2 value) operands values) :
    entriesToJson readFloat
        (operands.map fun operand => (Utf16.encode operand.1, operand.2.toTree)) =
      some ((operands.map Prod.fst).zip values) ∧
    ((operands.map Prod.fst).zip values).map Prod.fst = operands.map Prod.fst ∧
    depthEntries ((operands.map Prod.fst).zip values) ≤ 1 ∧
    ∀ name, (((operands.map Prod.fst).zip values).lookup name).map Json.toValue =
      ((operands.map Prod.fst).zip values).lookup name := by
  induction h with
  | nil => exact ⟨rfl, rfl, Nat.zero_le 1, fun _ => rfl⟩
  | @cons operand value operands values hfirst hrest ih =>
    obtain ⟨hvalue, hread, hdepth⟩ := hfirst
    obtain ⟨hentries, hnames, hdepths, hlookup⟩ := ih
    refine ⟨?_, ?_, max_le hdepth hdepths, ?_⟩
    · rw [List.map_cons, entriesToJson, toText_encode, hvalue, hentries]
      rfl
    · rw [List.map_cons, List.zip_cons_cons, List.map_cons, hnames]
    · intro name
      rw [List.map_cons, List.zip_cons_cons, List.lookup_cons]
      split
      · rw [Option.map_some, hread]
      · exact hlookup name

/-- The operands of a payload are its members, beside the operation. -/
theorem payload_read (op : String) {operands : List (String × CryptoInput)} {values : List Json}
    (h : List.Forall₂ (fun operand value => Sent readFloat operand.2 value) operands values)
    (hkeys : ("op" :: operands.map Prod.fst).Nodup) :
    ∃ json, fromStr readFloat (stringify (cryptoPayload op operands)) = some json ∧
      json.get "op" = some (.string op) ∧
        ∀ name, name ≠ "op" → json.get name = ((operands.map Prod.fst).zip values).lookup name := by
  obtain ⟨hentries, hnames, hdepths, hlookup⟩ := entriesToJson_sent readFloat h
  have hmembers : entriesToJson readFloat ((Utf16.encode "op", .string (Utf16.encode op)) ::
      operands.map fun operand => (Utf16.encode operand.1, operand.2.toTree)) =
        some (("op", .string op) :: (operands.map Prod.fst).zip values) := by
    simp only [entriesToJson, toText_encode, Tree.toJson, hentries, Option.bind_some,
      Option.map_some]
  obtain ⟨json, hjson, hget⟩ := fromStr_object readFloat hmembers
    (by rw [List.map_cons, hnames]; exact hkeys)
    (by simp only [depthEntries, depth, recursionLimit]; omega)
  refine ⟨json, hjson, ?_, ?_⟩
  · rw [hget, List.lookup_cons_self]
    rfl
  · intro name hname
    rw [hget, List.lookup_cons, beq_false_of_ne hname]
    exact hlookup name

end Payloads

section Answers

variable (floatText : UInt64 → String) (readFloat : List Char → Option UInt64)
  {library : Library} {base64 : Engine} {mac : Bytes → Bytes → Digest} (entropy : EntropySource)

/-- What the host answers to a payload. -/
def cryptoHost (library : Library) (base64 : Engine) (payload : Json) : Option Json :=
  some (dispatchCryptoWithEntropy library base64 entropy payload)

/-- Bytes come back as they were answered. -/
theorem answeredBytes_response (hbase64 : base64.Standard) (bytes : Bytes) :
    (readAnswer (bytesResponseJson base64 bytes)).bind answeredBytes = .ok (.bytes bytes) := by
  have htext : textMember (bytesResponseJson base64 bytes) "bytes_base64" =
      base64.encode bytes := rfl
  show answeredBytes (bytesResponseJson base64 bytes) = _
  rw [answeredBytes, htext, hbase64.writes, decodeBase64_encode]
  rfl

theorem plain_bytesResponseJson (bytes : Bytes) : Plain (bytesResponseJson base64 bytes) :=
  ⟨trivial, trivial, trivial⟩

theorem plain_equalJson (equal : Bool) : Plain (equalJson equal) := ⟨trivial, trivial, trivial⟩

/-- A call whose payload the host answers. -/
theorem run_answered {serve : Json → Option Json} {call : CryptoCall} {arguments : List InputArg}
    {payload : Tree} {json answer : Json} (hpayload : call.payload arguments = .ok payload)
    (hread : fromStr readFloat (stringify payload) = some json)
    (hserve : serve json = some answer) (hplain : Plain answer) :
    call.run floatText readFloat serve arguments =
      (readAnswer answer).bind fun result => call.answer result := by
  unfold CryptoCall.run
  rw [hpayload]
  show (callBridge readFloat (workerBridge floatText readFloat serve payload) call.label).bind
    (fun result => call.answer result) = _
  rw [callBridge_answered floatText readFloat call.label hread hserve hplain]

/-- A call that throws for its operands, whatever the host would answer. -/
def Refuses (call : CryptoCall) (arguments : List InputArg) : Prop :=
  ∃ message, ∀ serve, call.run floatText readFloat serve arguments =
    .error (.thrown (.coded "crypto_invalid_input" message))

theorem refuses_of_payload {call : CryptoCall} {arguments : List InputArg} {thrown : Thrown}
    (hpayload : call.payload arguments = .error thrown) (h : Invalid thrown) :
    Refuses floatText readFloat call arguments := by
  obtain ⟨message, rfl⟩ := h
  refine ⟨message, ?_⟩
  intro serve
  unfold CryptoCall.run
  rw [hpayload]
  rfl

/-- A call is answered with what it computes, or refuses its operands. -/
def Computed (library : Library) (base64 : Engine) (mac : Bytes → Bytes → Digest)
    (call : CryptoCall) (arguments : List InputArg) : Prop :=
  (∃ answer, call.computes library mac arguments = some answer ∧
    call.run floatText readFloat (cryptoHost entropy library base64) arguments = .ok answer) ∨
  (call.computes library mac arguments = none ∧ Refuses floatText readFloat call arguments)

theorem operand_bounds {value : InputArg} {minBytes maxBytes : ℕ} {bytes : Bytes}
    (h : operand value minBytes maxBytes = some bytes) :
    minBytes ≤ bytes.length ∧ bytes.length ≤ maxBytes := by
  obtain ⟨-, hbounds⟩ := Option.filter_eq_some_iff.mp h
  exact of_decide_eq_true hbounds

section Cases

variable {floatText readFloat entropy} {call : CryptoCall} {arguments : List InputArg}

theorem computed_of_answer {operands : List (String × CryptoInput)} {values : List Json}
    {op : String} {json : Json} {answer : CryptoAnswer}
    (hpayload : call.payload arguments = .ok (cryptoPayload op operands))
    (hvalues : List.Forall₂ (fun operand value => Sent readFloat operand.2 value) operands values)
    (hkeys : ("op" :: operands.map Prod.fst).Nodup)
    (hserve : ∀ payload : Json, payload.get "op" = some (.string op) →
      (∀ name, name ≠ "op" →
        payload.get name = ((operands.map Prod.fst).zip values).lookup name) →
          dispatchCryptoWithEntropy library base64 entropy payload = json)
    (hplain : Plain json)
    (hanswer : ((readAnswer json).bind fun result => call.answer result) = .ok answer)
    (hcomputes : call.computes library mac arguments = some answer) :
    Computed floatText readFloat entropy library base64 mac call arguments := by
  obtain ⟨payload, hread, hop, hget⟩ := payload_read readFloat op hvalues hkeys
  have hserved : cryptoHost entropy library base64 payload = some json :=
    congrArg some (hserve payload hop hget)
  refine Or.inl ⟨answer, hcomputes, ?_⟩
  rw [run_answered floatText readFloat hpayload hread hserved hplain]
  exact hanswer

theorem computed_of_refusal {thrown : Thrown} (hpayload : call.payload arguments = .error thrown)
    (h : Invalid thrown) (hcomputes : call.computes library mac arguments = none) :
    Computed floatText readFloat entropy library base64 mac call arguments :=
  Or.inr ⟨hcomputes, refuses_of_payload floatText readFloat hpayload h⟩

theorem sha256_computed (hbase64 : base64.Standard) (arguments : List InputArg) :
    Computed floatText readFloat entropy library base64 mac .sha256 arguments := by
  match arguments with
  | [] => exact computed_of_refusal rfl ⟨_, rfl⟩ rfl
  | value :: rest =>
    have hpayload : CryptoCall.sha256.payload (value :: rest) =
        (checkCryptoInput value "ctx.crypto.sha256" (some 0) maxSha256InputBytes).map
          fun checked => cryptoPayload "sha256" [("input", checked)] := rfl
    rcases checkCryptoInput_passes readFloat value "ctx.crypto.sha256" 0 maxSha256InputBytes with
      ⟨bytes, checked, hoperand, hcheck, json, hsent, hdecode⟩ | ⟨hoperand, thrown, hcheck, h⟩
    · rw [hcheck] at hpayload
      refine computed_of_answer hpayload (.cons hsent .nil) (by simp) ?_
        (plain_bytesResponseJson (library.sha256 bytes).val)
        (answeredBytes_response hbase64 _) (by rw [CryptoCall.computes, hoperand]; rfl)
      intro payload hop hget
      have hreads : Reads payload "input" bytes :=
        reads_of_get (hget "input" (by decide)) hdecode
      rw [dispatchCryptoWithEntropy, hop]
      simp only [Option.bind_some, Json.asStr, String.reduceEq, if_false, if_true]
      rw [sha256_eq, hreads base64 0 _ hbase64 (Nat.zero_le _) (operand_bounds hoperand).2]
      rfl
    · rw [hcheck] at hpayload
      exact computed_of_refusal hpayload h (by rw [CryptoCall.computes, hoperand]; rfl)

theorem hmacSha256_computed (hbase64 : base64.Standard) (hlibrary : library.Standard mac)
    (arguments : List InputArg) :
    Computed floatText readFloat entropy library base64 mac .hmacSha256 arguments := by
  match arguments with
  | [] | [_] => exact computed_of_refusal rfl ⟨_, rfl⟩ rfl
  | key :: message :: rest =>
    have hpayload : CryptoCall.hmacSha256.payload (key :: message :: rest) =
        (checkCryptoInput key "ctx.crypto.hmacSha256" (some 0) maxHmacKeyBytes).bind fun key =>
          (checkCryptoInput message "ctx.crypto.hmacSha256" (some 0) maxHmacMessageBytes).map
            fun message => cryptoPayload "hmac_sha256" [("key", key), ("message", message)] := rfl
    rcases checkCryptoInput_passes readFloat key "ctx.crypto.hmacSha256" 0 maxHmacKeyBytes with
      ⟨keyBytes, checkedKey, hkey, hcheck, keyJson, hkeySent, hkeyDecode⟩ |
        ⟨hkey, thrown, hcheck, h⟩
    · rw [hcheck] at hpayload
      rcases checkCryptoInput_passes readFloat message "ctx.crypto.hmacSha256" 0
          maxHmacMessageBytes with
        ⟨bytes, checked, hmessage, hcheck, json, hsent, hdecode⟩ | ⟨hmessage, thrown, hcheck, h⟩
      · simp only [Except.bind, hcheck, Except.map] at hpayload
        refine computed_of_answer hpayload (.cons hkeySent (.cons hsent .nil)) (by simp) ?_
          (plain_bytesResponseJson (mac keyBytes bytes).val) (answeredBytes_response hbase64 _)
          (by rw [CryptoCall.computes, hkey, hmessage]; rfl)
        intro payload hop hget
        have hreadsKey : Reads payload "key" keyBytes :=
          reads_of_get (hget "key" (by decide)) hkeyDecode
        have hreads : Reads payload "message" bytes :=
          reads_of_get (hget "message" (by decide)) hdecode
        rw [dispatchCryptoWithEntropy, hop]
        simp only [Option.bind_some, Json.asStr, String.reduceEq, if_false, if_true]
        rw [hmacSha256_eq hlibrary,
          hreadsKey base64 0 _ hbase64 (Nat.zero_le _) (operand_bounds hkey).2]
        simp only [Except.bind]
        rw [hreads base64 0 _ hbase64 (Nat.zero_le _) (operand_bounds hmessage).2]
        rfl
      · simp only [Except.bind, hcheck, Except.map] at hpayload
        exact computed_of_refusal hpayload h (by rw [CryptoCall.computes, hkey, hmessage]; rfl)
    · rw [hcheck] at hpayload
      exact computed_of_refusal hpayload h (by rw [CryptoCall.computes, hkey]; rfl)

theorem timingSafeEqual_computed (hbase64 : base64.Standard) (hlibrary : library.Standard mac)
    (arguments : List InputArg) :
    Computed floatText readFloat entropy library base64 mac .timingSafeEqual arguments := by
  match arguments with
  | [] | [_] => exact computed_of_refusal rfl ⟨_, rfl⟩ rfl
  | left :: right :: rest =>
    have hpayload : CryptoCall.timingSafeEqual.payload (left :: right :: rest) =
        (checkCryptoInput left "ctx.crypto.timingSafeEqual" (some minTimingSafeEqualBytes)
          maxTimingSafeEqualBytes).bind fun left =>
            (checkCryptoInput right "ctx.crypto.timingSafeEqual" (some minTimingSafeEqualBytes)
              maxTimingSafeEqualBytes).map fun right =>
                cryptoPayload "timing_safe_equal" [("left", left), ("right", right)] := rfl
    rcases checkCryptoInput_passes readFloat left "ctx.crypto.timingSafeEqual"
        minTimingSafeEqualBytes maxTimingSafeEqualBytes with
      ⟨leftBytes, checkedLeft, hleft, hcheck, leftJson, hleftSent, hleftDecode⟩ |
        ⟨hleft, thrown, hcheck, h⟩
    · rw [hcheck] at hpayload
      rcases checkCryptoInput_passes readFloat right "ctx.crypto.timingSafeEqual"
          minTimingSafeEqualBytes maxTimingSafeEqualBytes with
        ⟨bytes, checked, hright, hcheck, json, hsent, hdecode⟩ | ⟨hright, thrown, hcheck, h⟩
      · simp only [Except.bind, hcheck, Except.map] at hpayload
        refine computed_of_answer hpayload (.cons hleftSent (.cons hsent .nil)) (by simp) ?_
          (plain_equalJson (decide (leftBytes = bytes))) rfl
          (by rw [CryptoCall.computes, hleft, hright]; rfl)
        intro payload hop hget
        have hreadsLeft : Reads payload "left" leftBytes :=
          reads_of_get (hget "left" (by decide)) hleftDecode
        have hreads : Reads payload "right" bytes :=
          reads_of_get (hget "right" (by decide)) hdecode
        obtain ⟨hleftMin, hleftMax⟩ := operand_bounds hleft
        obtain ⟨hmin, hmax⟩ := operand_bounds hright
        rw [dispatchCryptoWithEntropy, hop]
        simp only [Option.bind_some, Json.asStr, String.reduceEq, if_false, if_true]
        rw [timingSafeEqualInputs_eq hlibrary, hreadsLeft base64 _ _ hbase64 hleftMin hleftMax]
        simp only [Except.bind]
        rw [hreads base64 _ _ hbase64 hmin hmax]
        rfl
      · simp only [Except.bind, hcheck, Except.map] at hpayload
        exact computed_of_refusal hpayload h (by rw [CryptoCall.computes, hleft, hright]; rfl)
    · rw [hcheck] at hpayload
      exact computed_of_refusal hpayload h (by rw [CryptoCall.computes, hleft]; rfl)

end Cases

/-- A call of `ctx.crypto` returns the digest or the comparison of the bytes that its operands
stand for, and exactly the operands that stand for none or that are out of bounds are refused,
before the host is asked. -/
theorem crypto_calls_computed (hbase64 : base64.Standard) (hlibrary : library.Standard mac)
    (call : CryptoCall) (arguments : List InputArg) :
    (∀ answer, call.computes library mac arguments = some answer ↔
      call.run floatText readFloat (cryptoHost entropy library base64) arguments = .ok answer) ∧
    (call.computes library mac arguments = none →
      ∃ message, ∀ serve, call.run floatText readFloat serve arguments =
        .error (.thrown (.coded "crypto_invalid_input" message))) := by
  have hcomputed : Computed floatText readFloat entropy library base64 mac call arguments := by
    cases call with
    | sha256 => exact sha256_computed hbase64 arguments
    | hmacSha256 => exact hmacSha256_computed hbase64 hlibrary arguments
    | timingSafeEqual => exact timingSafeEqual_computed hbase64 hlibrary arguments
  rcases hcomputed with ⟨answer, hcomputes, hrun⟩ | ⟨hnone, message, hrefused⟩
  · rw [hcomputes, hrun]
    refine ⟨?_, by simp⟩
    intro other
    simp only [Option.some.injEq, Except.ok.injEq]
  · rw [hnone, hrefused]
    refine ⟨by simp, ?_⟩
    intro _
    exact ⟨message, hrefused⟩

/-- Digests that are all zero, with the codec of the standard alphabet. -/
theorem crypto_calls_computed_abc :
    let zeros : Digest := ⟨List.replicate 32 0, rfl⟩
    let library : Library := ⟨fun _ => zeros, fun _ => some fun _ => zeros,
      fun left right => decide (left = right)⟩
    let host := cryptoHost (fun _ => .error .randomUnavailable) library Engine.strict
    (∃ answer, CryptoCall.sha256.run (fun _ => "") (fun _ => none) host
      [.text (Utf16.encode "abc")] = .ok answer) ∧
    (∃ answer, CryptoCall.timingSafeEqual.run (fun _ => "") (fun _ => none) host
      [.typed [1, 2], .array [some (.integer 1), some (.integer 2)]] = .ok answer) := by
  intro zeros library host
  have hlibrary : library.Standard fun _ _ => zeros := ⟨fun _ => rfl, fun _ _ => rfl⟩
  have hcomputed (call : CryptoCall) (arguments : List InputArg) :=
    crypto_calls_computed (fun _ => "") (fun _ => none) (fun _ => .error .randomUnavailable)
      Engine.strict_standard hlibrary call arguments
  have htext : toText (Utf16.encode "abc") = some "abc" := toText_encode "abc"
  have habc : CryptoCall.sha256.computes library (fun _ _ => zeros)
      [.text (Utf16.encode "abc")] = some (.bytes zeros.val) := by
    rw [CryptoCall.computes, operand, operandBytes, htext]
    rfl
  exact ⟨⟨_, ((hcomputed .sha256 _).1 _).mp habc⟩,
    ⟨_, ((hcomputed .timingSafeEqual _).1 (.value (some (.bool true)))).mp rfl⟩⟩

end Answers

section Random

variable (floatText : UInt64 → String) (readFloat : List Char → Option UInt64)
  {library : Library} {base64 : Engine} (entropy : EntropySource)

theorem payload_read_random {byteLength : ℤ} (hmin : 1 ≤ byteLength) (hmax : byteLength ≤ 1024)
    (rest : List Element) :
    ∃ payload json, cryptoRandomBytes (.integer byteLength :: rest) = .ok payload ∧
      fromStr readFloat (stringify payload) = some json ∧
        json.get "op" = some (.string "random_bytes") ∧
          json.get "byte_length" = some (.nat byteLength.toNat) := by
  have hsmall : byteLength.toNat < 2 ^ 64 := by omega
  rw [cryptoRandomBytes, if_pos ⟨hmin, hmax⟩]
  have hentries : entriesToJson readFloat
      [(Utf16.encode "op", .string (Utf16.encode "random_bytes")),
        (Utf16.encode "byte_length", natTree byteLength.toNat)] =
      some [("op", .string "random_bytes"), ("byte_length", .nat byteLength.toNat)] := by
    simp only [entriesToJson, toText_encode, Tree.toJson, natTree_toJson readFloat hsmall,
      Option.bind_some, Option.map_some]
  obtain ⟨json, hjson, hget⟩ := fromStr_object readFloat hentries (by simp)
    (show (1 : ℕ) ≤ 127 by omega)
  refine ⟨_, json, rfl, hjson, ?_, ?_⟩
  · rw [hget]
    rfl
  · rw [hget]
    rfl

/-- As many bytes of the source are returned as were asked for, between one and 1024 of them;
no other argument reaches the host, and a source that fails is an exception with its code. -/
theorem random_bytes_returned (hbase64 : base64.Standard) (arguments : List Element) :
    (∀ byteLength rest, arguments = .integer byteLength :: rest → 1 ≤ byteLength →
      byteLength ≤ 1024 →
        (∀ bytes, entropy byteLength.toNat = .ok bytes →
          runRandomBytes floatText readFloat (cryptoHost entropy library base64) arguments =
            .ok (.bytes bytes.val)) ∧
        ∀ error, entropy byteLength.toNat = .error error →
          runRandomBytes floatText readFloat (cryptoHost entropy library base64) arguments =
            .error (.thrown (.coded error.code error.message))) ∧
    ((¬∃ byteLength rest, arguments = .integer byteLength :: rest ∧ 1 ≤ byteLength ∧
      byteLength ≤ 1024) →
        ∃ message, ∀ serve, runRandomBytes floatText readFloat serve arguments =
          .error (.thrown (.coded "crypto_invalid_input" message))) := by
  constructor
  · rintro byteLength rest rfl hmin hmax
    obtain ⟨payload, json, hpayload, hread, hop, hlength⟩ :=
      payload_read_random readFloat hmin hmax rest
    have hserve : cryptoHost entropy library base64 json =
        some (answerJson (bytesResponseJson base64)
          ((entropy byteLength.toNat).map Subtype.val)) := by
      have hfits : ¬State.usizeMax < byteLength.toNat := by
        unfold State.usizeMax
        omega
      rw [cryptoHost, dispatchCryptoWithEntropy, hop]
      simp only [Option.bind_some, Json.asStr, if_true]
      rw [randomBytes, hlength]
      simp only [Option.bind_some, Json.asU64, if_neg hfits, generateRandomBytes]
      rw [if_pos]
      unfold minRandomBytes maxRandomBytes
      omega
    have hrun (hplain : Plain (answerJson (bytesResponseJson base64)
        ((entropy byteLength.toNat).map Subtype.val))) :
        runRandomBytes floatText readFloat (cryptoHost entropy library base64)
          (.integer byteLength :: rest) =
            (readAnswer (answerJson (bytesResponseJson base64)
              ((entropy byteLength.toNat).map Subtype.val))).bind answeredBytes := by
      unfold runRandomBytes
      rw [hpayload]
      show (callBridge readFloat (workerBridge floatText readFloat _ payload) _).bind
        answeredBytes = _
      rw [callBridge_answered floatText readFloat _ hread hserve hplain]
    constructor
    · intro bytes hbytes
      rw [hbytes] at hrun
      rw [hrun (plain_bytesResponseJson _)]
      exact answeredBytes_response hbase64 _
    · intro error herror
      rw [herror] at hrun
      rw [hrun ⟨trivial, trivial, trivial, trivial⟩]
      cases error <;> rfl
  · intro hnone
    refine ⟨"ctx.crypto.randomBytes: byteLength must be an integer in [1, 1024]", ?_⟩
    intro serve
    unfold runRandomBytes
    cases arguments with
    | nil => rfl
    | cons first rest =>
      cases first with
      | other => rfl
      | integer byteLength =>
        have hbounds : ¬(1 ≤ byteLength ∧ byteLength ≤ 1024) := by
          intro hbounds
          exact hnone ⟨byteLength, rest, rfl, hbounds⟩
        rw [cryptoRandomBytes, if_neg hbounds]
        rfl

theorem random_bytes_returned_three :
    runRandomBytes (fun _ => "") (fun _ => none)
        (cryptoHost (fun n => .ok ⟨List.replicate n 7, by simp⟩)
          ⟨fun _ => ⟨List.replicate 32 0, rfl⟩, fun _ => none, fun _ _ => false⟩ Engine.strict)
        [.integer 3] = .ok (.bytes [7, 7, 7]) :=
  ((random_bytes_returned (fun _ => "") (fun _ => none) (fun n => .ok ⟨List.replicate n 7, by simp⟩)
    Engine.strict_standard [.integer 3]).1 3 [] rfl (by decide) (by decide)).1 _ rfl

end Random

end StuntDouble.Prelude
