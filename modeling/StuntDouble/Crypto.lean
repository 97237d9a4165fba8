import StuntDouble.Operands

/-!
The operations of `ctx.crypto` at the host. The digests, the comparison and the source of
random bytes come from outside; the limits, the order of the checks and the answers are
modelled here.
-/
namespace StuntDouble.Crypto

open Prelude (Engine decodeCryptoInput)

def minRandomBytes : ℕ := 1
def maxRandomBytes : ℕ := 1024
def maxSha256InputBytes : ℕ := 8 * 1024 * 1024
def maxHmacKeyBytes : ℕ := 1024
def maxHmacMessageBytes : ℕ := 8 * 1024 * 1024
def minTimingSafeEqualBytes : ℕ := 1
def maxTimingSafeEqualBytes : ℕ := 1024

inductive CryptoError
  | invalidInput (message : String)
  | randomUnavailable
deriving DecidableEq, Repr

def CryptoError.code : CryptoError → String
  | .invalidInput _ => "crypto_invalid_input"
  | .randomUnavailable => "crypto_random_unavailable"

def CryptoError.message : CryptoError → String
  | .invalidInput message => message
  | .randomUnavailable => "system random entropy unavailable"

/-- The errors of an input are among those of an operation. -/
def CryptoError.ofInput : Prelude.CryptoError → CryptoError
  | .invalidInput message => .invalidInput message

abbrev Digest := {bytes : Bytes // bytes.length = 32}

/-- What comes from the libraries; a key that is refused has no digest. -/
structure Library where
  sha256 : Bytes → Digest
  hmacSha256 : Bytes → Option (Bytes → Digest)
  constantTimeEq : Bytes → Bytes → Bool

/-- A key of any length is taken, and a comparison says whether its operands are equal. -/
structure Library.Standard (library : Library) (mac : Bytes → Bytes → Digest) : Prop where
  takes : ∀ key, library.hmacSha256 key = some (mac key)
  compares : ∀ left right, library.constantTimeEq left right = decide (left = right)

/-- A source that fills a buffer, or fails. -/
abbrev EntropySource := (length : ℕ) → Except CryptoError {bytes : Bytes // bytes.length = length}

section Operations

variable (library : Library)

def sha256Digest (input : Bytes) : Except CryptoError Digest :=
  if maxSha256InputBytes < input.length then .error (.invalidInput "sha256: input exceeds 8 MiB")
  else .ok (library.sha256 input)

def hmacSha256Digest (key message : Bytes) : Except CryptoError Digest :=
  if maxHmacKeyBytes < key.length then .error (.invalidInput "hmacSha256: key exceeds 1 KiB")
  else if maxHmacMessageBytes < message.length then
    .error (.invalidInput "hmacSha256: message exceeds 8 MiB")
  else
    match library.hmacSha256 key with
    | none => .error (.invalidInput "hmacSha256: invalid key")
    | some mac => .ok (mac message)

/-- A length that may be compared. -/
def comparable (bytes : Bytes) : Bool :=
  decide (minTimingSafeEqualBytes ≤ bytes.length ∧ bytes.length ≤ maxTimingSafeEqualBytes)

def timingSafeEqual (left right : Bytes) : Except CryptoError Bool :=
  if comparable left = false then
    .error (.invalidInput "timingSafeEqual: left length must be in [1, 1024] bytes")
  else if comparable right = false then
    .error (.invalidInput "timingSafeEqual: right length must be in [1, 1024] bytes")
  else if left.length ≠ right.length then .ok false
  else .ok (library.constantTimeEq left right)

def generateRandomBytes (byteLength : ℕ) (entropy : EntropySource) : Except CryptoError Bytes :=
  if minRandomBytes ≤ byteLength ∧ byteLength ≤ maxRandomBytes then
    (entropy byteLength).map Subtype.val
  else .error (.invalidInput "randomBytes: byteLength must be in [1, 1024]")

end Operations

section Answers

variable (library : Library) (base64 : Engine) (entropy : EntropySource) (payload : Json)

def bytesResponseJson (bytes : Bytes) : Json :=
  .object [("bytes_base64", .string (base64.encode bytes)), ("ok", .bool true)]

def equalJson (equal : Bool) : Json := .object [("equal", .bool equal), ("ok", .bool true)]

def cryptoErrorJson (error : CryptoError) : Json :=
  .object [("code", .string error.code), ("message", .string error.message), ("ok", .bool false)]

def answerJson {A : Type} (render : A → Json) : Except CryptoError A → Json
  | .ok a => render a
  | .error error => cryptoErrorJson error

/-- An operand of a payload, within its bounds. -/
def input (name : String) (minBytes maxBytes : ℕ) : Except CryptoError Bytes :=
  (decodeCryptoInput base64 (payload.get name) minBytes maxBytes).mapError .ofInput

def randomBytes : Except CryptoError Bytes :=
  match (payload.get "byte_length").bind Json.asU64 with
  | none => .error (.invalidInput "randomBytes: byteLength must be a positive integer")
  | some byteLength =>
    if State.usizeMax < byteLength then
      .error (.invalidInput "randomBytes: byteLength out of range")
    else generateRandomBytes byteLength entropy

def sha256 : Except CryptoError Digest := do
  let message ← input base64 payload "input" 0 maxSha256InputBytes
  sha256Digest library message

def hmacSha256 : Except CryptoError Digest := do
  let key ← input base64 payload "key" 0 maxHmacKeyBytes
  let message ← input base64 payload "message" 0 maxHmacMessageBytes
  hmacSha256Digest library key message

def timingSafeEqualInputs : Except CryptoError Bool := do
  let left ← input base64 payload "left" minTimingSafeEqualBytes maxTimingSafeEqualBytes
  let right ← input base64 payload "right" minTimingSafeEqualBytes maxTimingSafeEqualBytes
  timingSafeEqual library left right

def dispatchCryptoWithEntropy : Json :=
  match (payload.get "op").bind Json.asStr with
  | none => cryptoErrorJson (.invalidInput "crypto: missing op")
  | some op =>
    if op = "random_bytes" then answerJson (bytesResponseJson base64) (randomBytes entropy payload)
    else if op = "sha256" then
      answerJson (bytesResponseJson base64 ·.val) (sha256 library base64 payload)
    else if op = "hmac_sha256" then
      answerJson (bytesResponseJson base64 ·.val) (hmacSha256 library base64 payload)
    else if op = "timing_safe_equal" then
      answerJson equalJson (timingSafeEqualInputs library base64 payload)
    else cryptoErrorJson (.invalidInput "crypto: unknown operation")

end Answers

section Bounds

variable {library : Library} {base64 : Engine} {payload : Json} {mac : Bytes → Bytes → Digest}

theorem decodeCryptoInput_bounds {value : Option Json} {minBytes maxBytes : ℕ} {bytes : Bytes}
    (h : decodeCryptoInput base64 value minBytes maxBytes = .ok bytes) :
    minBytes ≤ bytes.length ∧ bytes.length ≤ maxBytes := by
  have hsize {found : Bytes}
      (h : (if found.length < minBytes ∨ maxBytes < found.length then
        Except.error (Prelude.CryptoError.invalidInput "crypto: input size out of range")
          else Except.ok found) = .ok bytes) :
      minBytes ≤ bytes.length ∧ bytes.length ≤ maxBytes := by
    split at h
    · cases h
    · cases h
      omega
  unfold decodeCryptoInput at h
  simp only [bind, Except.bind] at h
  split at h
  · split at h
    · cases h
    · split at h
      · split at h
        · cases h
        · exact hsize h
      · split at h
        · split at h
          · cases h
          · split at h
            · cases h
            · exact hsize h
        · cases h
  · cases h

theorem input_bounds {name : String} {minBytes maxBytes : ℕ} {bytes : Bytes}
    (h : input base64 payload name minBytes maxBytes = .ok bytes) :
    minBytes ≤ bytes.length ∧ bytes.length ≤ maxBytes := by
  unfold input at h
  cases hread : decodeCryptoInput base64 (payload.get name) minBytes maxBytes with
  | error e =>
    rw [hread] at h
    cases h
  | ok found =>
    rw [hread] at h
    cases h
    exact decodeCryptoInput_bounds hread

/-- The limits of an operation are those of its operands, so it never refuses one itself. -/
theorem sha256_eq : sha256 library base64 payload =
    (input base64 payload "input" 0 maxSha256InputBytes).map library.sha256 := by
  unfold sha256
  cases hinput : input base64 payload "input" 0 maxSha256InputBytes with
  | error e => rfl
  | ok message =>
    have hbounds := (input_bounds hinput).2
    show sha256Digest library message = _
    rw [sha256Digest, if_neg (by omega)]
    rfl

theorem hmacSha256_eq (h : library.Standard mac) : hmacSha256 library base64 payload =
    (input base64 payload "key" 0 maxHmacKeyBytes).bind fun key =>
      (input base64 payload "message" 0 maxHmacMessageBytes).map fun message =>
        mac key message := by
  unfold hmacSha256
  cases hkey : input base64 payload "key" 0 maxHmacKeyBytes with
  | error e => rfl
  | ok key =>
    cases hmessage : input base64 payload "message" 0 maxHmacMessageBytes with
    | error e => rfl
    | ok message =>
      have hshort := (input_bounds hkey).2
      have hbounds := (input_bounds hmessage).2
      show hmacSha256Digest library key message = _
      rw [hmacSha256Digest, if_neg (by omega), if_neg (by omega), h.takes]
      rfl

theorem timingSafeEqualInputs_eq (h : library.Standard mac) :
    timingSafeEqualInputs library base64 payload =
      (input base64 payload "left" minTimingSafeEqualBytes maxTimingSafeEqualBytes).bind
        fun left =>
          (input base64 payload "right" minTimingSafeEqualBytes maxTimingSafeEqualBytes).map
            fun right => decide (left = right) := by
  unfold timingSafeEqualInputs
  cases hleft :
      input base64 payload "left" minTimingSafeEqualBytes maxTimingSafeEqualBytes with
  | error e => rfl
  | ok left =>
    cases hright :
        input base64 payload "right" minTimingSafeEqualBytes maxTimingSafeEqualBytes with
    | error e => rfl
    | ok right =>
      have hfirst : comparable left = true := decide_eq_true (input_bounds hleft)
      have hsecond : comparable right = true := decide_eq_true (input_bounds hright)
      show timingSafeEqual library left right = _
      rw [timingSafeEqual, if_neg (by simp [hfirst]), if_neg (by simp [hsecond]), h.compares]
      by_cases hlength : left.length = right.length
      · rw [if_neg (not_not.mpr hlength)]
        rfl
      · have hne : left ≠ right := fun heq => hlength (congrArg List.length heq)
        rw [if_pos hlength]
        simp [Except.bind, Except.map, hne]

end Bounds

end StuntDouble.Crypto
