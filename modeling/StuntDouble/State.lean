import StuntDouble.ExpiringMaps
import StuntDouble.Json

/-!
The process-local state store. A store is a table of entries, each with the
compact length of its value and an optional expiry, and a byte counter that is
updated apart from the table. Every operation returns the store it leaves, also
when it fails. Instants and durations are whole nanoseconds.
-/
namespace StuntDouble.State

open ExpiringMaps

def maxKeyBytes : ℕ := 256
def maxValueBytes : ℕ := 16 * 1024
def maxTotalBytes : ℕ := 8 * 1024 * 1024
def maxEntries : ℕ := 1024
def maxTtlMs : ℕ := 604800000
def maxValueDepth : ℕ := 32

/-- What the platform decides: the text of a double and the last representable instant. -/
structure Platform where
  floatText : UInt64 → String
  instantMax : ℕ

inductive StateError
  | invalidInput
  | capacityExceeded
  | internal
deriving DecidableEq, Repr

def StateError.code : StateError → String
  | .invalidInput => "state_invalid_input"
  | .capacityExceeded => "state_capacity_exceeded"
  | .internal => "state_internal_error"

structure Entry where
  value : Json
  valueBytes : ℕ
  expiresAt : Option ℕ

structure Store where
  entries : Table String Entry
  usedBytes : ℕ

def new : Store := ⟨∅, 0⟩

section Arithmetic

def usizeMax : ℕ := 2 ^ 64 - 1

def checkedAdd (a b : ℕ) : Option ℕ := if a + b ≤ usizeMax then some (a + b) else none

def checkedSub (a b : ℕ) : Option ℕ := if b ≤ a then some (a - b) else none

/-- `Instant::checked_add`. -/
def Platform.instantAdd (p : Platform) (now ttl : ℕ) : Option ℕ :=
  if now + ttl ≤ p.instantMax then some (now + ttl) else none

end Arithmetic

def nanosOfMillis (ms : ℕ) : ℕ := ms * 1000000

def entryCost (key : String) (valueBytes : ℕ) : Option ℕ := checkedAdd key.utf8ByteSize valueBytes

def Entry.isExpired (entry : Entry) (now : ℕ) : Bool :=
  match entry.expiresAt with
  | none => false
  | some expiresAt => decide (expiresAt ≤ now)

section Validation

def validateKey (key : String) : Except StateError Unit :=
  if key.utf8ByteSize = 0 ∨ maxKeyBytes < key.utf8ByteSize then .error .invalidInput else .ok ()

mutual

def validateJsonValue (value : Json) (depth : ℕ) : Except StateError Unit :=
  if maxValueDepth < depth then .error .invalidInput
  else match value with
    | .array items => validateItems items (depth + 1)
    | .object entries => validateEntries entries (depth + 1)
    | _ => .ok ()

def validateItems (items : List Json) (depth : ℕ) : Except StateError Unit :=
  match items with
  | [] => .ok ()
  | item :: rest =>
    match validateJsonValue item depth with
    | .error e => .error e
    | .ok () => validateItems rest depth

def validateEntries (entries : List (String × Json)) (depth : ℕ) : Except StateError Unit :=
  match entries with
  | [] => .ok ()
  | (_, value) :: rest =>
    match validateJsonValue value depth with
    | .error e => .error e
    | .ok () => validateEntries rest depth

end

/-- Serialising a `Value` cannot fail, so only the length of its text is checked. -/
def validateValue (p : Platform) (value : Json) : Except StateError ℕ :=
  match validateJsonValue value 0 with
  | .error e => .error e
  | .ok () =>
    let compact := value.compactLen p.floatText
    if maxValueBytes < compact then .error .invalidInput else .ok compact

def validateTtl (ttl : Option ℕ) : Except StateError Unit :=
  match ttl with
  | none => .ok ()
  | some ttl =>
    if ttl = 0 ∨ nanosOfMillis maxTtlMs < ttl then .error .invalidInput else .ok ()

end Validation

def expiresAt (p : Platform) (now : ℕ) (ttl : Option ℕ) : Except StateError (Option ℕ) :=
  match ttl with
  | none => .ok none
  | some ttl =>
    match p.instantAdd now ttl with
    | none => .error .internal
    | some expiry => .ok (some expiry)

def Store.removeEntry (s : Store) (key : String) : Store × Except StateError (Option Entry) :=
  match s.entries.lookup key with
  | none => (s, .ok none)
  | some entry =>
    match entryCost key entry.valueBytes with
    | none => (s, .error .internal)
    | some cost =>
      match checkedSub s.usedBytes cost with
      | none => (s, .error .internal)
      | some newUsed =>
        match s.entries.extract key with
        | (none, _) => (s, .error .internal)
        | (some entry, entries) => (⟨entries, newUsed⟩, .ok (some entry))

def Store.removeIfExpired (s : Store) (key : String) (now : ℕ) :
    Store × Except StateError Bool :=
  match (s.entries.lookup key).any (fun entry => entry.isExpired now) with
  | false => (s, .ok false)
  | true =>
    match s.removeEntry key with
    | (s, .error e) => (s, .error e)
    | (s, .ok none) => (s, .error .internal)
    | (s, .ok (some _)) => (s, .ok true)

/-- The loop of `remove_all_expired` over the collected keys. -/
def Store.removeKeys (s : Store) : List String → Store × Except StateError Unit
  | [] => (s, .ok ())
  | key :: rest =>
    match s.removeEntry key with
    | (s, .error e) => (s, .error e)
    | (s, .ok none) => (s, .error .internal)
    | (s, .ok (some _)) => s.removeKeys rest

def Store.removeAllExpired (s : Store) (now : ℕ) : Store × Except StateError Unit :=
  s.removeKeys ((s.entries.entries.filter (fun p => p.2.isExpired now)).map (fun p => p.1))

/-- What the entry to be replaced counts; nothing when the key is free. -/
def Store.oldCost (s : Store) (key : String) : Option ℕ :=
  match s.entries.lookup key with
  | none => some 0
  | some entry => entryCost key entry.valueBytes

def Store.commitWrite (p : Platform) (s : Store) (key : String) (value : Json)
    (valueBytes : ℕ) (ttl : Option ℕ) (now : ℕ) : Store × Except StateError Unit :=
  match entryCost key valueBytes with
  | none => (s, .error .capacityExceeded)
  | some newCost =>
    if (s.entries.lookup key).isNone ∧ maxEntries ≤ s.entries.entries.length then
      (s, .error .capacityExceeded)
    else
      match s.oldCost key with
      | none => (s, .error .internal)
      | some oldCost =>
        match checkedSub s.usedBytes oldCost with
        | none => (s, .error .internal)
        | some afterRemoval =>
          match checkedAdd afterRemoval newCost with
          | none => (s, .error .capacityExceeded)
          | some newUsed =>
            if maxTotalBytes < newUsed then (s, .error .capacityExceeded)
            else
              match expiresAt p now ttl with
              | .error e => (s, .error e)
              | .ok expiry =>
                (⟨s.entries.insert key ⟨value, valueBytes, expiry⟩, newUsed⟩, .ok ())

def Store.get (s : Store) (now : ℕ) (key : String) : Store × Except StateError (Option Json) :=
  match validateKey key with
  | .error e => (s, .error e)
  | .ok () =>
    match s.removeIfExpired key now with
    | (s, .error e) => (s, .error e)
    | (s, .ok true) => (s, .ok none)
    | (s, .ok false) => (s, .ok ((s.entries.lookup key).map Entry.value))

def Store.take (s : Store) (now : ℕ) (key : String) : Store × Except StateError (Option Json) :=
  match validateKey key with
  | .error e => (s, .error e)
  | .ok () =>
    match s.removeIfExpired key now with
    | (s, .error e) => (s, .error e)
    | (s, .ok true) => (s, .ok none)
    | (s, .ok false) =>
      match s.removeEntry key with
      | (s, .error e) => (s, .error e)
      | (s, .ok entry) => (s, .ok (entry.map Entry.value))

/-- The checks shared by both writes: key, value, TTL, in this order. -/
def validateWrite (p : Platform) (key : String) (value : Json) (ttl : Option ℕ) :
    Except StateError ℕ :=
  match validateKey key with
  | .error e => .error e
  | .ok () =>
    match validateValue p value with
    | .error e => .error e
    | .ok valueBytes =>
      match validateTtl ttl with
      | .error e => .error e
      | .ok () => .ok valueBytes

def Store.set (p : Platform) (s : Store) (now : ℕ) (key : String) (value : Json)
    (ttl : Option ℕ) : Store × Except StateError Unit :=
  match validateWrite p key value ttl with
  | .error e => (s, .error e)
  | .ok valueBytes =>
    match s.removeAllExpired now with
    | (s, .error e) => (s, .error e)
    | (s, .ok ()) => s.commitWrite p key value valueBytes ttl now

def Store.setIfAbsent (p : Platform) (s : Store) (now : ℕ) (key : String) (value : Json)
    (ttl : Option ℕ) : Store × Except StateError Bool :=
  match validateWrite p key value ttl with
  | .error e => (s, .error e)
  | .ok valueBytes =>
    match s.removeAllExpired now with
    | (s, .error e) => (s, .error e)
    | (s, .ok ()) =>
      match s.entries.lookup key with
      | some _ => (s, .ok false)
      | none =>
        match s.commitWrite p key value valueBytes ttl now with
        | (s, .error e) => (s, .error e)
        | (s, .ok ()) => (s, .ok true)

/-- One call of the store's interface. -/
inductive Op
  | get (key : String)
  | set (key : String) (value : Json) (ttl : Option ℕ)
  | take (key : String)
  | setIfAbsent (key : String) (value : Json) (ttl : Option ℕ)

/-- A call with the clock reading it makes. -/
structure Call where
  now : ℕ
  op : Op

/-- What a successful call answers. -/
inductive Answer
  | found (value : Option Json)
  | done
  | stored (stored : Bool)

abbrev Reply := Except StateError Answer

def Store.call (p : Platform) (s : Store) (c : Call) : Store × Reply :=
  match c.op with
  | .get key =>
    match s.get c.now key with
    | (s, r) => (s, r.map .found)
  | .set key value ttl =>
    match s.set p c.now key value ttl with
    | (s, r) => (s, r.map fun _ => .done)
  | .take key =>
    match s.take c.now key with
    | (s, r) => (s, r.map .found)
  | .setIfAbsent key value ttl =>
    match s.setIfAbsent p c.now key value ttl with
    | (s, r) => (s, r.map .stored)

end StuntDouble.State
