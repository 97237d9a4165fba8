import StuntDouble.Json
import Mathlib.Data.List.Infix
import Mathlib.Data.List.TakeWhile
import Mathlib.Tactic.Common

/-!
JSON texts. The reader keeps the members of an object in the order of the text, with the
repeated ones, and what the compact writer puts out is read back as the value it was.
-/
namespace StuntDouble.JsonText

section Reader

-- the double that a number denotes which is no integer of 64 bits, if it is a number
variable (readFloat : List Char → Option UInt64)

def isSpace (c : Char) : Bool := c == ' ' || c == '\n' || c == '\r' || c == '\t'

def skip (text : List Char) : List Char := text.dropWhile isSpace

/-- What stands after the next character, if it is the given one. -/
def expect (c : Char) (text : List Char) : Option (List Char) :=
  match skip text with
  | [] => none
  | d :: rest => if d = c then some rest else none

def dropWord : List Char → List Char → Option (List Char)
  | [], text => some text
  | _ :: _, [] => none
  | c :: word, d :: text => if d = c then dropWord word text else none

/-- A string literal up to its closing quote, with its escapes as they stand. -/
def rawString : List Char → Option (List Char × List Char)
  | [] => none
  | c :: rest =>
    if c = '"' then some ([], rest)
    else if c = '\\' then
      match rest with
      | [] => none
      | e :: rest => (rawString rest).map fun read => (c :: e :: read.1, read.2)
    else if c.toNat < 32 then none
    else (rawString rest).map fun read => (c :: read.1, read.2)

def hexValue (c : Char) : Option ℕ :=
  if c.isDigit then some (c.toNat - 48)
  else if 'a' ≤ c ∧ c ≤ 'f' then some (c.toNat - 87)
  else if 'A' ≤ c ∧ c ≤ 'F' then some (c.toNat - 55)
  else none

def hexUnit (a b c d : Char) : Option ℕ := do
  let a ← hexValue a
  let b ← hexValue b
  let c ← hexValue c
  let d ← hexValue d
  return ((a * 16 + b) * 16 + c) * 16 + d

def simpleEscape (e : Char) : Option Char :=
  if e = '"' ∨ e = '\\' ∨ e = '/' then some e
  else if e = 'b' then some (Char.ofNat 8)
  else if e = 'f' then some (Char.ofNat 12)
  else if e = 'n' then some '\n'
  else if e = 'r' then some '\r'
  else if e = 't' then some '\t'
  else none

/-- The characters that a literal stands for; a high surrogate waits for the low one. -/
def unescape (high : Option ℕ) : List Char → Option (List Char)
  | [] => if high.isSome then none else some []
  | c :: rest =>
    if c = '\\' then
      match rest with
      | [] => none
      | e :: rest =>
        if e = 'u' then
          match rest with
          | a :: b :: c :: d :: rest =>
            match hexUnit a b c d, high with
            | none, _ => none
            | some unit, none =>
              if 0xD800 ≤ unit ∧ unit ≤ 0xDBFF then unescape (some unit) rest
              else if 0xDC00 ≤ unit ∧ unit ≤ 0xDFFF then none
              else (unescape none rest).map (Char.ofNat unit :: ·)
            | some unit, some first =>
              if 0xDC00 ≤ unit ∧ unit ≤ 0xDFFF then
                (unescape none rest).map
                  (Char.ofNat (0x10000 + (first - 0xD800) * 1024 + (unit - 0xDC00)) :: ·)
              else none
          | _ => none
        else if high.isSome then none
        else
          match simpleEscape e with
          | none => none
          | some c => (unescape none rest).map (c :: ·)
    else if high.isSome then none
    else (unescape none rest).map (c :: ·)

def string (text : List Char) : Option (String × List Char) :=
  match rawString text with
  | none => none
  | some (raw, rest) => (unescape none raw).map fun chars => (String.ofList chars, rest)

def isNumeric (c : Char) : Bool :=
  c.isDigit || c == '-' || c == '+' || c == '.' || c == 'e' || c == 'E'

/-- Digits without a leading zero. -/
def isInteger (text : List Char) : Bool :=
  text.all Char.isDigit && (text == ['0'] || (text.head?.any (· != '0')))

def numberOf (text : List Char) : Option Number :=
  let n := Nat.ofDigitChars 10 text 0
  let m := Nat.ofDigitChars 10 text.tail 0
  if isInteger text && n < 2 ^ 64 then some (.posInt n)
  else if text.head? == some '-' && isInteger text.tail && (0 < m && m ≤ 2 ^ 63) then
    some (.negInt (m - 1))
  else (readFloat text).map .float

def number (text : List Char) : Option (Json × List Char) :=
  (numberOf readFloat (text.takeWhile isNumeric)).map fun n =>
    (.number n, text.dropWhile isNumeric)

mutual

def value : ℕ → List Char → Option (Json × List Char)
  | 0, _ => none
  | fuel + 1, text =>
    match skip text with
    | [] => none
    | c :: rest =>
      if c = '{' then
        match expect '}' rest with
        | some rest => some (.object [], rest)
        | none => (members fuel rest).map fun read => (.object read.1, read.2)
      else if c = '[' then
        match expect ']' rest with
        | some rest => some (.array [], rest)
        | none => (elements fuel rest).map fun read => (.array read.1, read.2)
      else if c = '"' then (string rest).map fun read => (.string read.1, read.2)
      else if c = 't' then (dropWord ['r', 'u', 'e'] rest).map fun rest => (.bool true, rest)
      else if c = 'f' then
        (dropWord ['a', 'l', 's', 'e'] rest).map fun rest => (.bool false, rest)
      else if c = 'n' then (dropWord ['u', 'l', 'l'] rest).map fun rest => (.null, rest)
      else number readFloat (c :: rest)

/-- One element or more, up to the closing bracket. -/
def elements : ℕ → List Char → Option (List Json × List Char)
  | 0, _ => none
  | fuel + 1, text =>
    match value fuel text with
    | none => none
    | some (item, rest) =>
      match expect ']' rest, expect ',' rest with
      | some rest, _ => some ([item], rest)
      | none, some rest => (elements fuel rest).map fun read => (item :: read.1, read.2)
      | none, none => none

/-- One member or more, up to the closing brace. -/
def members : ℕ → List Char → Option (List (String × Json) × List Char)
  | 0, _ => none
  | fuel + 1, text =>
    match (expect '"' text).bind string with
    | none => none
    | some (key, rest) =>
      match (expect ':' rest).bind (value fuel) with
      | none => none
      | some (item, rest) =>
        match expect '}' rest, expect ',' rest with
        | some rest, _ => some ([(key, item)], rest)
        | none, some rest =>
          (members fuel rest).map fun read => ((key, item) :: read.1, read.2)
        | none, none => none

end

/-- A value with nothing but white space around it. -/
def parse (text : List Char) : Option Json :=
  match value readFloat (2 * text.length + 2) text with
  | none => none
  | some (read, rest) => if skip rest = [] then some read else none

end Reader

section Tokens

theorem skip_cons {c : Char} (h : isSpace c = false) (rest : List Char) :
    skip (c :: rest) = c :: rest := by
  rw [skip, List.dropWhile_cons, h]
  rfl

theorem expect_self {c : Char} (h : isSpace c = false) (rest : List Char) :
    expect c (c :: rest) = some rest := by
  rw [expect, skip_cons h]
  exact if_pos rfl

theorem expect_other {c d : Char} (h : isSpace d = false) (hne : d ≠ c) (rest : List Char) :
    expect c (d :: rest) = none := by
  rw [expect, skip_cons h]
  exact if_neg hne

theorem rawString_plain {c : Char} (hquote : c ≠ '"') (hslash : c ≠ '\\')
    (hcontrol : ¬ c.toNat < 32)
    (rest : List Char) :
    rawString (c :: rest) = (rawString rest).map fun read => (c :: read.1, read.2) := by
  rw [rawString.eq_def]
  simp only [if_neg hquote, if_neg hslash, if_neg hcontrol]

theorem rawString_escape (e : Char) (rest : List Char) :
    rawString ('\\' :: e :: rest) =
      (rawString rest).map fun read => ('\\' :: e :: read.1, read.2) := by
  rw [rawString]
  rfl

theorem hexDigit_plain {n : ℕ} (h : n < 16) :
    Json.hexDigit n ≠ '"' ∧ Json.hexDigit n ≠ '\\' ∧ ¬ (Json.hexDigit n).toNat < 32 ∧
      hexValue (Json.hexDigit n) = some n := by
  have hall : ∀ n : Fin 16, Json.hexDigit n ≠ '"' ∧ Json.hexDigit n ≠ '\\' ∧
      ¬ (Json.hexDigit n).toNat < 32 ∧ hexValue (Json.hexDigit n) = some n.val := by decide
  exact hall ⟨n, h⟩

/-- The escapes of the compact writer, and what is written as it is. -/
theorem escapeChar_cases (c : Char) :
    (∃ e, Json.escapeChar c = ['\\', e] ∧ e ≠ 'u' ∧ simpleEscape e = some c) ∨
      (c.toNat < 32 ∧ Json.escapeChar c =
        ['\\', 'u', '0', '0', Json.hexDigit (c.toNat / 16), Json.hexDigit (c.toNat % 16)]) ∨
      (Json.escapeChar c = [c] ∧ c ≠ '"' ∧ c ≠ '\\' ∧ ¬ c.toNat < 32) := by
  have hchar {n : ℕ} (h : c.toNat = n) : c = Char.ofNat n := by rw [← h, Char.ofNat_toNat]
  unfold Json.escapeChar
  split
  · rename_i h
    subst h
    exact Or.inl ⟨'"', rfl, by decide, rfl⟩
  · rename_i hquote
    split
    · rename_i h
      subst h
      exact Or.inl ⟨'\\', rfl, by decide, rfl⟩
    · rename_i hslash
      split
      · rename_i h
        rw [hchar h]
        exact Or.inl ⟨'b', rfl, by decide, rfl⟩
      · split
        · rename_i h
          rw [hchar h]
          exact Or.inl ⟨'f', rfl, by decide, rfl⟩
        · split
          · rename_i h
            subst h
            exact Or.inl ⟨'n', rfl, by decide, rfl⟩
          · split
            · rename_i h
              subst h
              exact Or.inl ⟨'r', rfl, by decide, rfl⟩
            · split
              · rename_i h
                subst h
                exact Or.inl ⟨'t', rfl, by decide, rfl⟩
              · split
                · rename_i h
                  exact Or.inr (Or.inl ⟨h, rfl⟩)
                · rename_i h
                  exact Or.inr (Or.inr ⟨rfl, hquote, hslash, h⟩)

theorem rawString_escapeChar (c : Char) (rest : List Char) :
    rawString (Json.escapeChar c ++ rest) =
      (rawString rest).map fun read => (Json.escapeChar c ++ read.1, read.2) := by
  rcases escapeChar_cases c with ⟨e, he, -, -⟩ | ⟨hc, he⟩ | ⟨he, hquote, hslash, hcontrol⟩
  · rw [he]
    exact rawString_escape e rest
  · obtain ⟨hq₁, hs₁, hc₁, -⟩ := hexDigit_plain (n := c.toNat / 16) (by omega)
    obtain ⟨hq₂, hs₂, hc₂, -⟩ := hexDigit_plain (n := c.toNat % 16) (by omega)
    have hzero : ∀ rest, rawString ('0' :: rest) =
        (rawString rest).map fun read => ('0' :: read.1, read.2) :=
      rawString_plain (by decide) (by decide) (by decide)
    rw [he]
    simp only [List.cons_append, List.nil_append, rawString_escape, hzero,
      rawString_plain hq₁ hs₁ hc₁, rawString_plain hq₂ hs₂ hc₂, Option.map_map]
    rfl
  · rw [he]
    exact rawString_plain hquote hslash hcontrol rest

theorem unescape_escapeChar (c : Char) (rest : List Char) :
    unescape none (Json.escapeChar c ++ rest) = (unescape none rest).map (c :: ·) := by
  rcases escapeChar_cases c with ⟨e, he, hu, hsimple⟩ | ⟨hc, he⟩ | ⟨he, -, hslash, -⟩
  · rw [he]
    show unescape none ('\\' :: e :: rest) = _
    rw [unescape.eq_def]
    simp only [if_true, if_neg hu, hsimple]
    rfl
  · obtain ⟨-, -, -, hhigh⟩ := hexDigit_plain (n := c.toNat / 16) (by omega)
    obtain ⟨-, -, -, hlow⟩ := hexDigit_plain (n := c.toNat % 16) (by omega)
    have hunit : hexUnit '0' '0' (Json.hexDigit (c.toNat / 16)) (Json.hexDigit (c.toNat % 16)) =
        some c.toNat := by
      have hzero : hexValue '0' = some 0 := rfl
      have hsum : ((0 * 16 + 0) * 16 + c.toNat / 16) * 16 + c.toNat % 16 = c.toNat := by omega
      rw [hexUnit, hzero, hhigh, hlow]
      show some _ = some _
      rw [hsum]
    have hsurrogate : ¬ (0xD800 ≤ c.toNat ∧ c.toNat ≤ 0xDBFF) := by omega
    have hother : ¬ (0xDC00 ≤ c.toNat ∧ c.toNat ≤ 0xDFFF) := by omega
    rw [he]
    show unescape none ('\\' :: 'u' :: '0' :: '0' :: Json.hexDigit (c.toNat / 16) ::
      Json.hexDigit (c.toNat % 16) :: rest) = _
    rw [unescape.eq_def]
    simp only [if_true, hunit, if_neg hsurrogate, if_neg hother, Char.ofNat_toNat]
  · rw [he]
    show unescape none (c :: rest) = _
    rw [unescape.eq_def]
    simp only [if_neg hslash]
    rfl

theorem rawString_escaped (chars rest : List Char) :
    rawString (chars.flatMap Json.escapeChar ++ '"' :: rest) =
      some (chars.flatMap Json.escapeChar, rest) := by
  induction chars with
  | nil =>
    rw [List.flatMap_nil, List.nil_append, rawString.eq_def]
    exact if_pos rfl
  | cons c chars ih =>
    rw [List.flatMap_cons, List.append_assoc, rawString_escapeChar, ih]
    rfl

theorem unescape_escaped (chars : List Char) :
    unescape none (chars.flatMap Json.escapeChar) = some chars := by
  induction chars with
  | nil => rfl
  | cons c chars ih =>
    rw [List.flatMap_cons, unescape_escapeChar, ih]
    rfl

/-- A quoted string is read back, once its opening quote is read. -/
theorem string_quote (s : String) (rest : List Char) :
    string (s.toList.flatMap Json.escapeChar ++ '"' :: rest) = some (s, rest) := by
  rw [string, rawString_escaped]
  simp only [unescape_escaped, Option.map_some, String.ofList_toList]

end Tokens

section Numbers

/-- A number ends where the text goes on with something else. -/
def NumberEnd (rest : List Char) : Prop := ∀ c more, rest = c :: more → isNumeric c = false

/-- The integers of 64 bits. -/
def Integral : Number → Prop
  | .posInt n => n < 2 ^ 64
  | .negInt n => n < 2 ^ 63
  | .float _ => False

theorem toDigits_head (n : ℕ) (h : 0 < n) : (Nat.toDigits 10 n).head?.any (· != '0') = true := by
  induction n using Nat.strongRecOn with
  | _ n ih =>
    by_cases hlt : n < 10
    · have hall : ∀ n : Fin 10, 0 < n.val → [n.val.digitChar].head?.any (· != '0') = true := by
        decide
      rw [Nat.toDigits_of_lt_base hlt]
      exact hall ⟨n, hlt⟩ h
    · have hhead := ih (n / 10) (by omega) (by omega)
      rw [Nat.toDigits_of_base_le (by omega) (by omega), List.head?_append]
      cases hdigits : (Nat.toDigits 10 (n / 10)).head? with
      | none =>
        rw [hdigits] at hhead
        cases hhead
      | some c => rwa [hdigits] at hhead

theorem isInteger_toDigits (n : ℕ) : isInteger (Nat.toDigits 10 n) = true := by
  have hall : (Nat.toDigits 10 n).all Char.isDigit = true := by
    rw [List.all_eq_true]
    intro c hc
    exact Nat.isDigit_of_mem_toDigits (by omega) (by omega) hc
  rw [isInteger, hall, Bool.true_and]
  by_cases hzero : n = 0
  · subst hzero
    decide
  · rw [toDigits_head n (by omega), Bool.or_true]

theorem takeWhile_number {text rest : List Char} (htext : ∀ c ∈ text, isNumeric c = true)
    (hrest : NumberEnd rest) :
    (text ++ rest).takeWhile isNumeric = text ∧ (text ++ rest).dropWhile isNumeric = rest := by
  have hnone : rest.takeWhile isNumeric = [] ∧ rest.dropWhile isNumeric = rest := by
    cases rest with
    | nil => exact ⟨rfl, rfl⟩
    | cons c more =>
      have hc := hrest c more rfl
      constructor
      · rw [List.takeWhile_cons, hc]
        rfl
      · rw [List.dropWhile_cons, hc]
        rfl
  constructor
  · rw [List.takeWhile_append_of_pos htext, hnone.1, List.append_nil]
  · rw [List.dropWhile_append_of_pos htext, hnone.2]

variable (floatText : UInt64 → String) (readFloat : List Char → Option UInt64)

theorem toDigits_numeric {n : ℕ} : ∀ c ∈ Nat.toDigits 10 n, isNumeric c = true := by
  intro c hc
  rw [isNumeric, Nat.isDigit_of_mem_toDigits (by omega) (by omega) hc]
  rfl

theorem numberText_numeric {n : Number} (h : Integral n) :
    ∀ c ∈ Json.numberText floatText n, isNumeric c = true := by
  cases n with
  | posInt n =>
    rw [Json.numberText, Nat.toString_eq_repr, Nat.toList_repr]
    exact toDigits_numeric
  | negInt n =>
    rw [Json.numberText, Nat.toString_eq_repr, Nat.toList_repr]
    intro c hc
    rcases List.mem_cons.mp hc with rfl | hc
    · rfl
    · exact toDigits_numeric c hc
  | float bits => exact absurd h id

theorem numberOf_numberText {n : Number} (h : Integral n) :
    numberOf readFloat (Json.numberText floatText n) = some n := by
  cases n with
  | posInt n =>
    have hlt : n < 2 ^ 64 := h
    rw [Json.numberText, Nat.toString_eq_repr, Nat.toList_repr, numberOf]
    simp only [isInteger_toDigits, Nat.ofDigitChars_ten_toDigits, Bool.true_and,
      decide_eq_true hlt, if_true]
  | negInt n =>
    have hlt : n < 2 ^ 63 := h
    have hpos : 0 < n + 1 := by omega
    have hle : n + 1 ≤ 2 ^ 63 := by omega
    have hsign : isInteger ('-' :: Nat.toDigits 10 (n + 1)) = false := rfl
    rw [Json.numberText, Nat.toString_eq_repr, Nat.toList_repr, numberOf]
    simp only [hsign, Bool.false_and, Bool.false_eq_true, if_false, List.tail_cons,
      isInteger_toDigits, Nat.ofDigitChars_ten_toDigits, List.head?_cons, beq_self_eq_true,
      Bool.true_and, decide_eq_true hpos, decide_eq_true hle, if_true, Nat.add_sub_cancel]
  | float bits => exact absurd h id

theorem number_numberText {n : Number} (h : Integral n) {rest : List Char}
    (hrest : NumberEnd rest) :
    number readFloat (Json.numberText floatText n ++ rest) = some (.number n, rest) := by
  obtain ⟨htake, hdrop⟩ := takeWhile_number (numberText_numeric floatText h) hrest
  rw [number, htake, hdrop, numberOf_numberText floatText readFloat h]
  rfl

end Numbers

section Values

mutual

/-- A value whose numbers are integers of 64 bits. -/
def Plain : Json → Prop
  | .number n => Integral n
  | .array items => PlainItems items
  | .object entries => PlainEntries entries
  | _ => True

def PlainItems : List Json → Prop
  | [] => True
  | item :: rest => Plain item ∧ PlainItems rest

def PlainEntries : List (String × Json) → Prop
  | [] => True
  | (_, value) :: rest => Plain value ∧ PlainEntries rest

end

variable (floatText : UInt64 → String) (readFloat : List Char → Option UInt64)

/-- What no compact text of a value starts with. -/
def Starts (c : Char) : Prop := isSpace c = false ∧ c ≠ ']' ∧ c ≠ '}'

theorem starts_of_isNumeric {c : Char} (h : isNumeric c = true) : Starts c ∧ c ≠ '{' ∧
    c ≠ '[' ∧ c ≠ '"' ∧ c ≠ 't' ∧ c ≠ 'f' ∧ c ≠ 'n' := by
  have hne {d : Char} (hd : isNumeric d = false) : c ≠ d := by
    rintro rfl
    rw [h] at hd
    cases hd
  have hspace : isSpace c = false := by
    simp only [isSpace, Bool.or_eq_false_iff, beq_eq_false_iff_ne]
    exact ⟨⟨⟨hne rfl, hne rfl⟩, hne rfl⟩, hne rfl⟩
  exact ⟨⟨hspace, hne rfl, hne rfl⟩, hne rfl, hne rfl, hne rfl, hne rfl, hne rfl, hne rfl⟩

theorem numberText_ne_nil (n : Number) (h : Integral n) : Json.numberText floatText n ≠ [] := by
  cases n with
  | posInt n =>
    rw [Json.numberText, Nat.toString_eq_repr, Nat.toList_repr]
    exact Nat.toDigits_ne_nil
  | negInt n => simp [Json.numberText]
  | float bits => exact absurd h id

theorem compactChars_starts (v : Json) (h : Plain v) :
    ∃ c more, Json.compactChars floatText v = c :: more ∧ Starts c := by
  cases v with
  | null => exact ⟨'n', _, rfl, rfl, by decide, by decide⟩
  | bool b => cases b <;> exact ⟨_, _, rfl, rfl, by decide, by decide⟩
  | number n =>
    cases htext : Json.numberText floatText n with
    | nil => exact absurd htext (numberText_ne_nil floatText n h)
    | cons c more =>
      have hnumeric := numberText_numeric floatText h c (by rw [htext]; simp)
      exact ⟨c, more, htext, (starts_of_isNumeric hnumeric).1⟩
  | string s => exact ⟨'"', _, rfl, rfl, by decide, by decide⟩
  | array items => exact ⟨'[', _, rfl, rfl, by decide, by decide⟩
  | object entries => exact ⟨'{', _, rfl, rfl, by decide, by decide⟩

theorem numberEnd_cons {c : Char} (h : isNumeric c = false) (rest : List Char) :
    NumberEnd (c :: rest) := by
  intro d more hd
  cases hd
  exact h

theorem value_number {n : Number} (h : Integral n) (fuel : ℕ) {rest : List Char}
    (hrest : NumberEnd rest) :
    value readFloat (fuel + 1) (Json.numberText floatText n ++ rest) =
      some (.number n, rest) := by
  cases htext : Json.numberText floatText n with
  | nil => exact absurd htext (numberText_ne_nil floatText n h)
  | cons c more =>
    have hnumeric := numberText_numeric floatText h c (by rw [htext]; simp)
    obtain ⟨hstart, hbrace, hbracket, hquote, ht, hf, hn⟩ := starts_of_isNumeric hnumeric
    have hnumber := number_numberText floatText readFloat h hrest
    rw [htext, List.cons_append] at hnumber
    rw [List.cons_append, value, skip_cons hstart.1]
    simp only [if_neg hbrace, if_neg hbracket, if_neg hquote, if_neg ht, if_neg hf, if_neg hn,
      hnumber]

theorem value_string (s : String) (fuel : ℕ) (rest : List Char) :
    value readFloat (fuel + 1) (Json.quote s ++ rest) = some (.string s, rest) := by
  have hquote : Json.quote s ++ rest =
      '"' :: (s.toList.flatMap Json.escapeChar ++ '"' :: rest) := by
    rw [Json.quote, List.append_assoc]
    rfl
  rw [hquote, value, skip_cons rfl]
  simp only [string_quote]
  rfl

theorem key_quote (key : String) (rest : List Char) :
    (expect '"' (Json.quote key ++ rest)).bind string = some (key, rest) := by
  have hquote : Json.quote key ++ rest =
      '"' :: (key.toList.flatMap Json.escapeChar ++ '"' :: rest) := by
    rw [Json.quote, List.append_assoc]
    rfl
  rw [hquote, expect_self rfl]
  exact string_quote key rest

theorem compactItems_cons (item : Json) (items : List Json) (hne : items ≠ []) :
    Json.compactItems floatText (item :: items) =
      Json.compactChars floatText item ++ ',' :: Json.compactItems floatText items := by
  cases items with
  | nil => exact absurd rfl hne
  | cons next more => rw [Json.compactItems]

theorem compactEntries_cons (key : String) (item : Json) (entries : List (String × Json))
    (hne : entries ≠ []) :
    Json.compactEntries floatText ((key, item) :: entries) = Json.quote key ++
      ':' :: Json.compactChars floatText item ++ ',' :: Json.compactEntries floatText entries := by
  cases entries with
  | nil => exact absurd rfl hne
  | cons next more => rw [Json.compactEntries]

theorem compactItems_starts (items : List Json) (hne : items ≠ []) (h : PlainItems items) :
    ∃ c more, Json.compactItems floatText items = c :: more ∧ Starts c := by
  cases items with
  | nil => exact absurd rfl hne
  | cons item items =>
    obtain ⟨c, more, htext, hc⟩ := compactChars_starts floatText item h.1
    by_cases hnil : items = []
    · subst hnil
      exact ⟨c, more, by rw [Json.compactItems, htext], hc⟩
    · rw [compactItems_cons floatText item items hnil, htext]
      exact ⟨c, _, rfl, hc⟩

theorem compactEntries_starts (entries : List (String × Json)) (hne : entries ≠ []) :
    ∃ more, Json.compactEntries floatText entries = '"' :: more := by
  match entries with
  | [] => exact absurd rfl hne
  | [(key, item)] => exact ⟨_, rfl⟩
  | (key, item) :: next :: more => exact ⟨_, rfl⟩

end Values

section Steps

variable (readFloat : List Char → Option UInt64)

/-- An array that has an element. -/
theorem value_bracket {c : Char} (h : Starts c) (fuel : ℕ) (text : List Char) :
    value readFloat (fuel + 1) ('[' :: c :: text) =
      (elements readFloat fuel (c :: text)).map fun read => (.array read.1, read.2) := by
  rw [value, skip_cons rfl]
  simp only [expect_other h.1 h.2.1]
  rfl

/-- An object that has a member. -/
theorem value_brace (fuel : ℕ) (text : List Char) :
    value readFloat (fuel + 1) ('{' :: '"' :: text) =
      (members readFloat fuel ('"' :: text)).map fun read => (.object read.1, read.2) := by
  have hclose : expect '}' ('"' :: text) = none := expect_other rfl (by decide) text
  rw [value, skip_cons rfl]
  simp only [hclose]
  rfl

variable {readFloat} {fuel : ℕ} {text more rest : List Char} (item : Option Json)

theorem elements_last
    (h : value readFloat fuel text = item.map fun json => (json, ']' :: rest)) :
    elements readFloat (fuel + 1) text = item.map fun json => ([json], rest) := by
  rw [elements, h]
  cases item with
  | none => rfl
  | some json => simp only [Option.map_some, expect_self (c := ']') rfl]

theorem elements_next
    (h : value readFloat fuel text = item.map fun json => (json, ',' :: rest)) :
    elements readFloat (fuel + 1) text = item.bind fun json =>
      (elements readFloat fuel rest).map fun read => (json :: read.1, read.2) := by
  have hcomma : expect ']' (',' :: rest) = none := expect_other rfl (by decide) rest
  rw [elements, h]
  cases item with
  | none => rfl
  | some json =>
    simp only [Option.map_some, Option.bind_some, hcomma, expect_self (c := ',') rfl]

variable (key : Option String)

theorem members_last
    (hkey : (expect '"' text).bind string = key.map fun name => (name, ':' :: more))
    (h : value readFloat fuel more = item.map fun json => (json, '}' :: rest)) :
    members readFloat (fuel + 1) text =
      key.bind fun name => item.map fun json => ([(name, json)], rest) := by
  rw [members, hkey]
  cases key with
  | none => rfl
  | some name =>
    simp only [Option.map_some, Option.bind_some, expect_self (c := ':') rfl, h]
    cases item with
    | none => rfl
    | some json => simp only [Option.map_some, expect_self (c := '}') rfl]

theorem members_next
    (hkey : (expect '"' text).bind string = key.map fun name => (name, ':' :: more))
    (h : value readFloat fuel more = item.map fun json => (json, ',' :: rest)) :
    members readFloat (fuel + 1) text = key.bind fun name => item.bind fun json =>
      (members readFloat fuel rest).map fun read => ((name, json) :: read.1, read.2) := by
  have hcomma : expect '}' (',' :: rest) = none := expect_other rfl (by decide) rest
  rw [members, hkey]
  cases key with
  | none => rfl
  | some name =>
    simp only [Option.map_some, Option.bind_some, expect_self (c := ':') rfl, h]
    cases item with
    | none => rfl
    | some json =>
      simp only [Option.map_some, Option.bind_some, hcomma, expect_self (c := ',') rfl]

end Steps

section ReadBack

variable (floatText : UInt64 → String) (readFloat : List Char → Option UInt64)

mutual

/-- The compact text of a value is read back, whatever follows it. -/
theorem value_compact (v : Json) (h : Plain v) (fuel : ℕ)
    (hfuel : 2 * (Json.compactChars floatText v).length ≤ fuel) {rest : List Char}
    (hrest : NumberEnd rest) :
    value readFloat fuel (Json.compactChars floatText v ++ rest) = some (v, rest) := by
  obtain ⟨c, more, htext, -⟩ := compactChars_starts floatText v h
  have hlength := congrArg List.length htext
  rw [List.length_cons] at hlength
  obtain ⟨fuel, rfl⟩ := Nat.exists_eq_succ_of_ne_zero (n := fuel) (by omega)
  match v with
  | .null => rfl
  | .bool true => rfl
  | .bool false => rfl
  | .number n => exact value_number floatText readFloat h fuel hrest
  | .string s => exact value_string readFloat s fuel rest
  | .array [] => rfl
  | .array (item :: items) =>
    have hne : item :: items ≠ [] := by simp
    obtain ⟨d, text, hitems, hstarts⟩ := compactItems_starts floatText (item :: items) hne h
    have htext : Json.compactChars floatText (.array (item :: items)) ++ rest =
        '[' :: (Json.compactItems floatText (item :: items) ++ ']' :: rest) := by
      rw [Json.compactChars, List.append_assoc]
      rfl
    have hread := elements_compact (item :: items) hne h fuel
      (by rw [Json.compactChars, List.length_append, List.length_cons, List.length_singleton]
            at hfuel
          omega) rest
    rw [hitems, List.cons_append] at hread
    rw [htext, hitems, List.cons_append, value_bracket readFloat hstarts, hread]
    rfl
  | .object [] => rfl
  | .object (entry :: entries) =>
    have hne : entry :: entries ≠ [] := by simp
    obtain ⟨text, hentries⟩ := compactEntries_starts floatText (entry :: entries) hne
    have htext : Json.compactChars floatText (.object (entry :: entries)) ++ rest =
        '{' :: (Json.compactEntries floatText (entry :: entries) ++ '}' :: rest) := by
      rw [Json.compactChars, List.append_assoc]
      rfl
    have hread := members_compact (entry :: entries) hne h fuel
      (by rw [Json.compactChars, List.length_append, List.length_cons, List.length_singleton]
            at hfuel
          omega) rest
    rw [hentries, List.cons_append] at hread
    rw [htext, hentries, List.cons_append, value_brace, hread]
    rfl

theorem elements_compact (items : List Json) (hne : items ≠ []) (h : PlainItems items) (fuel : ℕ)
    (hfuel : 2 * (Json.compactItems floatText items).length + 1 ≤ fuel) (rest : List Char) :
    elements readFloat fuel (Json.compactItems floatText items ++ ']' :: rest) =
      some (items, rest) := by
  obtain ⟨fuel, rfl⟩ := Nat.exists_eq_succ_of_ne_zero (n := fuel) (by omega)
  match items with
  | [] => exact absurd rfl hne
  | [item] =>
    rw [Json.compactItems] at hfuel ⊢
    exact elements_last (some item)
      (value_compact item h.1 fuel (by omega) (numberEnd_cons rfl rest))
  | item :: next :: items =>
    have hnext : next :: items ≠ [] := by simp
    rw [compactItems_cons floatText item _ hnext] at hfuel ⊢
    rw [List.length_append, List.length_cons] at hfuel
    obtain ⟨c, more, hitem, -⟩ := compactChars_starts floatText item h.1
    have hlength := congrArg List.length hitem
    rw [List.length_cons] at hlength
    have hvalue := value_compact item h.1 fuel (by omega) (numberEnd_cons (c := ',') rfl
      (Json.compactItems floatText (next :: items) ++ ']' :: rest))
    rw [List.append_assoc, List.cons_append, elements_next (some item) hvalue,
      elements_compact (next :: items) hnext h.2 fuel (by omega) rest]
    rfl

theorem members_compact (entries : List (String × Json)) (hne : entries ≠ [])
    (h : PlainEntries entries) (fuel : ℕ)
    (hfuel : 2 * (Json.compactEntries floatText entries).length + 1 ≤ fuel) (rest : List Char) :
    members readFloat fuel (Json.compactEntries floatText entries ++ '}' :: rest) =
      some (entries, rest) := by
  obtain ⟨fuel, rfl⟩ := Nat.exists_eq_succ_of_ne_zero (n := fuel) (by omega)
  match entries with
  | [] => exact absurd rfl hne
  | [(key, item)] =>
    rw [Json.compactEntries] at hfuel ⊢
    rw [List.length_append, List.length_cons] at hfuel
    have hvalue := value_compact item h.1 fuel (by omega) (numberEnd_cons (c := '}') rfl rest)
    rw [List.append_assoc, List.cons_append]
    exact members_last (some item) (some key) (key_quote key _) hvalue
  | (key, item) :: next :: entries =>
    have hnext : next :: entries ≠ [] := by simp
    rw [compactEntries_cons floatText key item _ hnext] at hfuel ⊢
    simp only [List.length_append, List.length_cons] at hfuel
    have hvalue := value_compact item h.1 fuel (by omega) (numberEnd_cons (c := ',') rfl
      (Json.compactEntries floatText (next :: entries) ++ '}' :: rest))
    simp only [List.append_assoc, List.cons_append]
    rw [members_next (some item) (some key) (key_quote key _) hvalue,
      members_compact (next :: entries) hnext h.2 fuel (by omega) rest]
    rfl

end

/-- The compact text of a value is the text of that value. -/
theorem parse_compact (v : Json) (h : Plain v) {space : List Char}
    (hspace : ∀ c ∈ space, isSpace c = true) :
    parse readFloat (Json.compactChars floatText v ++ space) = some v := by
  have hend : NumberEnd space := by
    rintro c more rfl
    have hc := hspace c (by simp)
    cases hnumeric : isNumeric c with
    | false => rfl
    | true =>
      rw [(starts_of_isNumeric hnumeric).1.1] at hc
      cases hc
  have hskip : skip space = [] := by
    rw [skip, List.dropWhile_eq_nil_iff]
    exact hspace
  rw [parse, value_compact floatText readFloat v h _ _ hend]
  · simp only [hskip, if_true]
  · rw [List.length_append]
    omega

end ReadBack

end StuntDouble.JsonText
