import StuntDouble.Codecs
import StuntDouble.Utf16
import StuntDouble.State
import StuntDouble.Prelude

/-!
The checks of the prelude on the keys of `ctx.state` and on the inputs of `ctx.crypto`. A
string of a script is a sequence of UTF-16 units, and the prelude measures it in UTF-8. The
host sees the string only after it was decoded, and checks it again.
-/
namespace StuntDouble.Prelude

section Strings

/-- The loop stands before the given units. -/
def checkUtf16Surrogates (message code : String) : List UInt16 → Except Thrown Unit
  | [] => .ok ()
  | unit :: rest =>
    if 0xD800 ≤ unit ∧ unit ≤ 0xDBFF then
      match rest with
      | [] => .error (.coded code message)
      | next :: rest =>
        if next < 0xDC00 ∨ next > 0xDFFF then .error (.coded code message)
        else checkUtf16Surrogates message code rest
    else if 0xDC00 ≤ unit ∧ unit ≤ 0xDFFF then .error (.coded code message)
    else checkUtf16Surrogates message code rest

/-- The loop stands before the given units, with the bytes measured so far. -/
def measureFrom (bytes : ℕ) : List UInt16 → ℕ
  | [] => bytes
  | unit :: rest =>
    if unit ≤ 0x7F then measureFrom (bytes + 1) rest
    else if unit ≤ 0x7FF then measureFrom (bytes + 2) rest
    else if 0xD800 ≤ unit ∧ unit ≤ 0xDBFF then
      -- the unit after a high surrogate is skipped unseen
      match rest with
      | [] => bytes + 4
      | _ :: rest => measureFrom (bytes + 4) rest
    else measureFrom (bytes + 3) rest

def measureUtf8Bytes (units : List UInt16) : ℕ := measureFrom 0 units

end Strings

section Checks

inductive KeyArg
  | text (units : List UInt16)
  | other

def checkStateString (units : List UInt16) : Except Thrown Unit :=
  checkUtf16Surrogates "ctx.state: strings must be well-formed UTF-16" "state_invalid_input" units

def checkStateKey : KeyArg → Except Thrown (List UInt16)
  | .other => .error (.coded "state_invalid_input" "ctx.state: key must be a non-empty string")
  | .text units =>
    if units.length = 0 then
      .error (.coded "state_invalid_input" "ctx.state: key must be a non-empty string")
    else
      match checkStateString units with
      | .error e => .error e
      | .ok () =>
        if State.maxKeyBytes < measureUtf8Bytes units then
          .error (.coded "state_invalid_input" "ctx.state: key exceeds 256 UTF-8 bytes")
        else .ok units

/-- An input of `ctx.crypto`: a string, the bytes of a buffer that was made as one, or an array of
data, in which a hole is no element. -/
inductive InputArg
  | missing
  | text (units : List UInt16)
  | typed (bytes : Bytes)
  | array (items : List (Option Element))
  | other

/-- A checked input, as it is sent to the host. -/
inductive CryptoInput
  | string (value : List UInt16)
  | bytes (value : List Char)
deriving DecidableEq, Repr

def checkCryptoString (units : List UInt16) (label : String) : Except Thrown Unit :=
  checkUtf16Surrogates (label ++ ": strings must not contain lone surrogates")
    "crypto_invalid_input" units

def checkItem (label : String) : Option Element → Except Thrown UInt8
  | none => .error (.coded "crypto_invalid_input" (label ++ ": sparse arrays are not allowed"))
  | some item =>
    match checkByte item with
    | none => .error (.coded "crypto_invalid_input"
        (label ++ ": array elements must be integers in [0, 255]"))
    | some byte => .ok (UInt8.ofNat byte)

/-- The bounds of an input; there may be no lower one. -/
def checkLength (label : String) (minBytes : Option ℕ) (maxBytes length : ℕ) :
    Except Thrown Unit :=
  if minBytes.any (fun bound => length < bound) then
    .error (.coded "crypto_invalid_input" (label ++ ": input length below minimum"))
  else if maxBytes < length then
    .error (.coded "crypto_invalid_input" (label ++ ": input length exceeds maximum"))
  else .ok ()

def checkCryptoInput (value : InputArg) (label : String) (minBytes : Option ℕ) (maxBytes : ℕ) :
    Except Thrown CryptoInput :=
  match value with
  | .missing => .error (.coded "crypto_invalid_input" (label ++ ": input is required"))
  | .text units => do
    checkCryptoString units label
    checkLength label minBytes maxBytes (measureUtf8Bytes units)
    return .string units
  | .typed bytes => do
    checkLength label minBytes maxBytes bytes.length
    return .bytes (encodeBase64 bytes)
  | .array items => do
    let bytes ← items.mapM (checkItem label)
    checkLength label minBytes maxBytes bytes.length
    return .bytes (encodeBase64 bytes)
  | .other => .error (.coded "crypto_invalid_input" (label ++ ": unsupported input type"))

end Checks

section Host

inductive CryptoError
  | invalidInput (message : String)
deriving DecidableEq, Repr

def decodeCryptoInput (host : Engine) (value : Option Json) (minBytes maxBytes : ℕ) :
    Except CryptoError Bytes :=
  match value with
  | some (.object obj) =>
    match (obj.lookup "type").bind Json.asStr with
    | none => .error (.invalidInput "crypto: missing input type")
    | some kind => do
      let bytes ←
        if kind = "string" then
          match (obj.lookup "value").bind Json.asStr with
          | none => .error (.invalidInput "crypto: invalid string value")
          | some text => .ok (Utf8.encode text)
        else if kind = "bytes" then
          match (obj.lookup "value").bind Json.asStr with
          | none => .error (.invalidInput "crypto: invalid bytes value")
          | some text =>
            match host.decode text with
            | none => .error (.invalidInput "crypto: invalid base64 input")
            | some bytes => .ok bytes
        else .error (.invalidInput "crypto: unsupported input type")
      if bytes.length < minBytes ∨ maxBytes < bytes.length then
        .error (.invalidInput "crypto: input size out of range")
      else .ok bytes
  | _ => .error (.invalidInput "crypto: input must be an object")

/-- A string as an input that the host reads. -/
def stringInput (text : String) : Json :=
  .object [("type", .string "string"), ("value", .string text)]

end Host

section Units

theorem high_iff (unit : UInt16) : (0xD800 ≤ unit ∧ unit ≤ 0xDBFF) ↔ Utf16.High unit := by
  rw [UInt16.le_iff_toNat_le, UInt16.le_iff_toNat_le]
  rfl

theorem low_iff (unit : UInt16) : (0xDC00 ≤ unit ∧ unit ≤ 0xDFFF) ↔ Utf16.Low unit := by
  rw [UInt16.le_iff_toNat_le, UInt16.le_iff_toNat_le]
  rfl

theorem not_low_iff (unit : UInt16) :
    (unit < 0xDC00 ∨ unit > 0xDFFF) ↔ ¬ Utf16.Low unit := by
  rw [gt_iff_lt, UInt16.lt_iff_toNat_lt, UInt16.lt_iff_toNat_lt]
  change unit.toNat < 0xDC00 ∨ 0xDFFF < unit.toNat ↔ _
  unfold Utf16.Low
  omega

variable (c : Char) (rest : List UInt16)

/-- The loop passes over the units of a character. -/
theorem checkUtf16Surrogates_char (message code : String) :
    checkUtf16Surrogates message code (Utf16.encodeChar c ++ rest) =
      checkUtf16Surrogates message code rest := by
  rcases Utf16.encodeChar_cases c with ⟨u, hc, hhigh, hlow, -⟩ | ⟨u, v, hc, hhigh, hlow, -⟩
  · rw [hc, List.singleton_append, checkUtf16Surrogates.eq_def]
    simp only [if_neg ((high_iff u).not.mpr hhigh), if_neg ((low_iff u).not.mpr hlow)]
  · have hpair : [u, v] ++ rest = u :: v :: rest := rfl
    rw [hc, hpair, checkUtf16Surrogates.eq_def]
    simp only [if_pos ((high_iff u).mpr hhigh)]
    simp only [if_neg ((not_low_iff v).not.mpr (not_not.mpr hlow))]

theorem utf8Size_toNat : c.utf8Size =
    if c.toNat ≤ 0x7F then 1 else if c.toNat ≤ 0x7FF then 2
    else if c.toNat ≤ 0xFFFF then 3 else 4 := by
  unfold Char.utf8Size
  simp only [UInt32.le_iff_toNat_le]
  rfl

/-- The units of a character count as its bytes. -/
theorem measureFrom_char (bytes : ℕ) :
    measureFrom bytes (Utf16.encodeChar c ++ rest) = measureFrom (bytes + c.utf8Size) rest := by
  have hone (unit : UInt16) : unit ≤ 0x7F ↔ unit.toNat ≤ 0x7F := UInt16.le_iff_toNat_le
  have htwo (unit : UInt16) : unit ≤ 0x7FF ↔ unit.toNat ≤ 0x7FF := UInt16.le_iff_toNat_le
  rcases Utf16.encodeChar_cases c with ⟨u, hc, hhigh, -, hu⟩ | ⟨u, v, hc, hhigh, -, huv⟩
  · have hlt := u.toNat_lt
    rw [hc, List.singleton_append, measureFrom.eq_def, utf8Size_toNat, ← hu]
    simp only [hone, htwo, if_neg ((high_iff u).not.mpr hhigh)]
    rw [if_pos (by omega : u.toNat ≤ 0xFFFF)]
    split
    · rfl
    · split
      · rfl
      · rfl
  · have hpair : [u, v] ++ rest = u :: v :: rest := rfl
    have hu := hhigh
    unfold Utf16.High at hu
    rw [hc, hpair, measureFrom.eq_def, utf8Size_toNat]
    simp only [hone, htwo, if_pos ((high_iff u).mpr hhigh)]
    rw [if_neg (by omega), if_neg (by omega), if_neg (by omega), if_neg (by omega),
      if_neg (by omega)]

end Units

section Strings

theorem checkUtf16Surrogates_sound {message code : String} {units : List UInt16}
    (h : checkUtf16Surrogates message code units = .ok ()) : Utf16.WellFormed units := by
  fun_induction checkUtf16Surrogates message code units with
  | case1 => exact Utf16.wellFormed_nil
  | case2 unit hhigh => cases h
  | case3 unit hhigh next rest hnext => cases h
  | case4 unit hhigh next rest hnext ih =>
    have hlow := not_not.mp ((not_low_iff next).not.mp hnext)
    obtain ⟨c, hc⟩ := Utf16.exists_pair ((high_iff unit).mp hhigh) hlow
    have hpair : unit :: next :: rest = Utf16.encodeChar c ++ rest := by
      rw [hc]
      rfl
    rw [hpair]
    exact (Utf16.wellFormed_append (Utf16.wellFormed_encodeChar c) rest).mpr (ih h)
  | case5 unit rest hhigh hlow => cases h
  | case6 unit rest hhigh hlow ih =>
    obtain ⟨c, hc⟩ :=
      Utf16.exists_single ((high_iff unit).not.mp hhigh) ((low_iff unit).not.mp hlow)
    have hsingle : unit :: rest = Utf16.encodeChar c ++ rest := by
      rw [hc]
      rfl
    rw [hsingle]
    exact (Utf16.wellFormed_append (Utf16.wellFormed_encodeChar c) rest).mpr (ih h)

theorem checkUtf16Surrogates_encode (message code text : String) :
    checkUtf16Surrogates message code (Utf16.encode text) = .ok () := by
  unfold Utf16.encode
  induction text.toList with
  | nil => rfl
  | cons c chars ih => exact (checkUtf16Surrogates_char c _ message code).trans ih

theorem checkUtf16Surrogates_iff (message code : String) (units : List UInt16) :
    checkUtf16Surrogates message code units = .ok () ↔ Utf16.WellFormed units := by
  constructor
  · exact checkUtf16Surrogates_sound
  · intro h
    obtain ⟨text, rfl⟩ := (Utf16.wellFormed_iff units).mp h
    exact checkUtf16Surrogates_encode message code text

/-- Well-formed units are measured as the host will see them. -/
theorem measureUtf8Bytes_encode (text : String) :
    measureUtf8Bytes (Utf16.encode text) = (Utf8.encode text).length := by
  have hfrom (chars : List Char) (bytes : ℕ) :
      measureFrom bytes (Utf16.encodeChars chars) = bytes + (Utf8.encodeChars chars).length := by
    induction chars generalizing bytes with
    | nil => rfl
    | cons c chars ih =>
      have hcons : Utf16.encodeChars (c :: chars) =
          Utf16.encodeChar c ++ Utf16.encodeChars chars := List.flatMap_cons
      have hbytes : Utf8.encodeChars (c :: chars) =
          String.utf8EncodeChar c ++ Utf8.encodeChars chars := List.flatMap_cons
      rw [hcons, hbytes, measureFrom_char, ih, List.length_append, String.length_utf8EncodeChar,
        Nat.add_assoc]
  have htext : Utf8.encode text = Utf8.encodeChars text.toList := by
    rw [← Utf8.encode_ofList, String.ofList_toList]
  rw [htext, measureUtf8Bytes, Utf16.encode, hfrom, Nat.zero_add]

end Strings

section Operands

theorem encode_length (text : String) : (Utf8.encode text).length = text.utf8ByteSize := rfl

theorem utf16_length_eq_zero (text : String) :
    (Utf16.encode text).length = 0 ↔ text.utf8ByteSize = 0 := by
  rw [List.length_eq_zero_iff, String.utf8ByteSize_eq_zero_iff]
  constructor
  · intro h
    have hempty : Utf16.encode "" = [] := rfl
    exact Utf16.encode_injective (h.trans hempty.symm)
  · rintro rfl
    rfl

theorem checkStateKey_text (text : String) :
    (∃ key, checkStateKey (.text (Utf16.encode text)) = .ok key) ↔
      State.validateKey text = .ok () := by
  unfold checkStateKey checkStateString State.validateKey
  simp only [checkUtf16Surrogates_encode, measureUtf8Bytes_encode, encode_length,
    utf16_length_eq_zero]
  by_cases hzero : text.utf8ByteSize = 0
  · simp [hzero]
  · by_cases hlong : State.maxKeyBytes < text.utf8ByteSize
    · simp [hzero, hlong]
    · simp [hzero, hlong]

theorem checkLength_ok (label : String) (minBytes : Option ℕ) (maxBytes length : ℕ) :
    checkLength label minBytes maxBytes length = .ok () ↔
      minBytes.getD 0 ≤ length ∧ length ≤ maxBytes := by
  unfold checkLength
  cases minBytes with
  | none =>
    simp only [Option.any_none, Bool.false_eq_true, if_false, Option.getD_none, Nat.zero_le,
      true_and]
    split
    · simp only [reduceCtorEq, false_iff]
      omega
    · simp only [true_iff]
      omega
  | some bound =>
    simp only [Option.any_some, decide_eq_true_eq, Option.getD_some]
    split
    · simp only [reduceCtorEq, false_iff]
      omega
    · split
      · simp only [reduceCtorEq, false_iff]
        omega
      · simp only [true_iff]
        omega

theorem checkStateKey_wellFormed {units key : List UInt16}
    (h : checkStateKey (.text units) = .ok key) : Utf16.WellFormed units := by
  unfold checkStateKey at h
  simp only at h
  split at h
  · cases h
  · split at h
    · cases h
    · exact checkUtf16Surrogates_sound ‹_›

theorem checkCryptoInput_wellFormed {units : List UInt16} {label : String} {minBytes : Option ℕ}
    {maxBytes : ℕ} {input : CryptoInput}
    (h : checkCryptoInput (.text units) label minBytes maxBytes = .ok input) :
    Utf16.WellFormed units := by
  cases hcheck : checkCryptoString units label with
  | error e =>
    simp only [checkCryptoInput, hcheck] at h
    cases h
  | ok _ => exact checkUtf16Surrogates_sound hcheck

theorem checkCryptoInput_text (host : Engine) (text label : String) (minBytes : Option ℕ)
    (maxBytes : ℕ) :
    (∃ input, checkCryptoInput (.text (Utf16.encode text)) label minBytes maxBytes = .ok input) ↔
      ∃ bytes, decodeCryptoInput host (some (stringInput text)) (minBytes.getD 0) maxBytes =
        .ok bytes := by
  have hworker : (∃ input, checkCryptoInput (.text (Utf16.encode text)) label minBytes maxBytes =
      .ok input) ↔ minBytes.getD 0 ≤ (Utf8.encode text).length ∧
        (Utf8.encode text).length ≤ maxBytes := by
    have hchecked : checkCryptoInput (.text (Utf16.encode text)) label minBytes maxBytes =
        (checkLength label minBytes maxBytes (Utf8.encode text).length).map
          (fun _ => .string (Utf16.encode text)) := by
      unfold checkCryptoInput checkCryptoString
      simp only [checkUtf16Surrogates_encode, measureUtf8Bytes_encode]
      rfl
    rw [hchecked, ← checkLength_ok label]
    cases checkLength label minBytes maxBytes (Utf8.encode text).length with
    | error e => simp [Except.map]
    | ok _ => simp [Except.map]
  have hhost : (∃ bytes, decodeCryptoInput host (some (stringInput text)) (minBytes.getD 0)
      maxBytes = .ok bytes) ↔ minBytes.getD 0 ≤ (Utf8.encode text).length ∧
        (Utf8.encode text).length ≤ maxBytes := by
    have hsent : decodeCryptoInput host (some (stringInput text)) (minBytes.getD 0) maxBytes =
        if (Utf8.encode text).length < minBytes.getD 0 ∨ maxBytes < (Utf8.encode text).length then
          .error (.invalidInput "crypto: input size out of range")
        else .ok (Utf8.encode text) := rfl
    rw [hsent]
    split
    · simp only [reduceCtorEq, exists_false, false_iff]
      omega
    · simp only [Except.ok.injEq, exists_eq', true_iff]
      omega
  exact hworker.trans hhost.symm

end Operands

/-- The worker and the host accept the same strings. -/
theorem utf16_checks (host : Engine) (units : List UInt16) (message code label : String)
    (minBytes : Option ℕ) (maxBytes : ℕ) :
    (checkUtf16Surrogates message code units = .ok () ↔ Utf16.WellFormed units) ∧
    (Utf16.WellFormed units →
      ∃ text, Utf16.encode text = units ∧ measureUtf8Bytes units = (Utf8.encode text).length) ∧
    ((∃ key, checkStateKey (.text units) = .ok key) ↔
      Utf16.WellFormed units ∧
        ∃ text, Utf16.encode text = units ∧ State.validateKey text = .ok ()) ∧
    ((∃ input, checkCryptoInput (.text units) label minBytes maxBytes = .ok input) ↔
      Utf16.WellFormed units ∧
        ∃ text, Utf16.encode text = units ∧ ∃ bytes,
          decodeCryptoInput host (some (stringInput text)) (minBytes.getD 0) maxBytes =
            .ok bytes) := by
  refine ⟨checkUtf16Surrogates_iff message code units, ?_, ?_, ?_⟩
  · intro h
    obtain ⟨text, rfl⟩ := (Utf16.wellFormed_iff units).mp h
    exact ⟨text, rfl, measureUtf8Bytes_encode text⟩
  · constructor
    · rintro ⟨key, hkey⟩
      have hwell := checkStateKey_wellFormed hkey
      obtain ⟨text, rfl⟩ := (Utf16.wellFormed_iff units).mp hwell
      exact ⟨hwell, text, rfl, (checkStateKey_text text).mp ⟨key, hkey⟩⟩
    · rintro ⟨-, text, rfl, hvalid⟩
      exact (checkStateKey_text text).mpr hvalid
  · constructor
    · rintro ⟨input, hinput⟩
      have hwell := checkCryptoInput_wellFormed hinput
      obtain ⟨text, rfl⟩ := (Utf16.wellFormed_iff units).mp hwell
      exact ⟨hwell, text, rfl,
        (checkCryptoInput_text host text label minBytes maxBytes).mp ⟨input, hinput⟩⟩
    · rintro ⟨-, text, rfl, hdecoded⟩
      exact (checkCryptoInput_text host text label minBytes maxBytes).mpr hdecoded

end StuntDouble.Prelude
