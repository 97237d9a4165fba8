import Mathlib.Algebra.Group.Nat.Defs
import Mathlib.Data.List.Basic
import Mathlib.Order.Basic

/-!
JSON values as `serde_json::Value` holds them. A number is an unsigned or a
negative 64-bit integer, or a double given by its bits; the text of a double is
left to the number formatter of the platform. An object is the list of its
members in key order. The compact text is what `serde_json::to_vec` writes.
-/
namespace StuntDouble

/-- `negInt n` is the integer `-(n + 1)`; `float bits` is the double with these bits. -/
inductive Number
  | posInt (n : ℕ)
  | negInt (n : ℕ)
  | float (bits : UInt64)
deriving DecidableEq, Repr

inductive Json
  | null
  | bool (b : Bool)
  | number (n : Number)
  | string (s : String)
  | array (items : List Json)
  | object (entries : List (String × Json))
deriving Repr

namespace Json

def get (key : String) : Json → Option Json
  | .object entries => entries.lookup key
  | _ => none

def asStr : Json → Option String
  | .string s => some s
  | _ => none

def asBool : Json → Option Bool
  | .bool b => some b
  | _ => none

def asU64 : Json → Option ℕ
  | .number (.posInt n) => some n
  | _ => none

def asArray : Json → Option (List Json)
  | .array items => some items
  | _ => none

def isNull : Json → Bool
  | .null => true
  | _ => false

theorem eq_null_of_isNull {value : Json} (h : value.isNull = true) : value = .null := by
  cases value with
  | null => rfl
  | _ => contradiction

def asObject : Json → Option (List (String × Json))
  | .object entries => some entries
  | _ => none

/-- A value that may be absent. -/
def opt {A : Type} (render : A → Json) : Option A → Json
  | none => .null
  | some a => render a

/-- An unsigned integer. -/
abbrev nat (n : ℕ) : Json := .number (.posInt n)

mutual

/-- How deep containers are nested; scalars and empty containers have depth 0. -/
def nesting : Json → ℕ
  | .array items => nestingItems items
  | .object entries => nestingEntries entries
  | _ => 0

def nestingItems : List Json → ℕ
  | [] => 0
  | item :: rest => max (nesting item + 1) (nestingItems rest)

def nestingEntries : List (String × Json) → ℕ
  | [] => 0
  | (_, value) :: rest => max (nesting value + 1) (nestingEntries rest)

end

section Compact

variable (floatText : UInt64 → String)

def hexDigit (n : ℕ) : Char :=
  if n < 10 then Char.ofNat (n + 48) else Char.ofNat (n + 87)

/-- A character inside a JSON string literal. -/
def escapeChar (c : Char) : List Char :=
  if c = '"' then ['\\', '"']
  else if c = '\\' then ['\\', '\\']
  else if c.toNat = 8 then ['\\', 'b']
  else if c.toNat = 12 then ['\\', 'f']
  else if c = '\n' then ['\\', 'n']
  else if c = '\r' then ['\\', 'r']
  else if c = '\t' then ['\\', 't']
  else if c.toNat < 32 then
    ['\\', 'u', '0', '0', hexDigit (c.toNat / 16), hexDigit (c.toNat % 16)]
  else [c]

def quote (s : String) : List Char := '"' :: s.toList.flatMap escapeChar ++ ['"']

def numberText : Number → List Char
  | .posInt n => (toString n).toList
  | .negInt n => '-' :: (toString (n + 1)).toList
  | .float bits => (floatText bits).toList

mutual

def compactChars : Json → List Char
  | .null => ['n', 'u', 'l', 'l']
  | .bool true => ['t', 'r', 'u', 'e']
  | .bool false => ['f', 'a', 'l', 's', 'e']
  | .number n => numberText floatText n
  | .string s => quote s
  | .array items => '[' :: compactItems items ++ [']']
  | .object entries => '{' :: compactEntries entries ++ ['}']

def compactItems : List Json → List Char
  | [] => []
  | [item] => compactChars item
  | item :: next :: rest => compactChars item ++ ',' :: compactItems (next :: rest)

def compactEntries : List (String × Json) → List Char
  | [] => []
  | [(key, value)] => quote key ++ ':' :: compactChars value
  | (key, value) :: next :: rest =>
      quote key ++ ':' :: compactChars value ++ ',' :: compactEntries (next :: rest)

end

/-- The compact text of a value. -/
def compact (value : Json) : String := String.ofList (compactChars floatText value)

/-- The length of the compact text in bytes. -/
def compactLen (value : Json) : ℕ := (compact floatText value).utf8ByteSize

end Compact

example : (Json.object [("a", .array [.null, nat 12]), ("b", .string "x\"y")]).compact
    (fun _ => "") = "\x7b\"a\":[null,12],\"b\":\"x\\\"y\"\x7d" := by decide

end Json

end StuntDouble
