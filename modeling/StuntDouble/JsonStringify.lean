import StuntDouble.JsonText
import StuntDouble.Utf16

/-!
The text that a script engine writes for a tree whose strings are UTF-16, and what a reader
of JSON makes of it. A surrogate without its counterpart is written as an escape, which no
reader takes, so a tree with one in it is not read back; any other tree is.
-/
namespace StuntDouble.JsonText

open Utf16

section Strings

def Surrogate (unit : UInt16) : Prop := High unit ∨ Low unit

instance (unit : UInt16) : Decidable (Surrogate unit) := inferInstanceAs (Decidable (_ ∨ _))

/-- The character of a high surrogate and a low one. -/
def pairChar (high low : UInt16) : Char :=
  Char.ofNat (0x10000 + (high.toNat - 0xD800) * 1024 + (low.toNat - 0xDC00))

def unitEscape (unit : UInt16) : List Char :=
  ['\\', 'u', Json.hexDigit (unit.toNat / 4096), Json.hexDigit (unit.toNat / 256 % 16),
    Json.hexDigit (unit.toNat / 16 % 16), Json.hexDigit (unit.toNat % 16)]

/-- A unit that belongs to no pair. -/
def quoteUnit (unit : UInt16) : List Char :=
  if Surrogate unit then unitEscape unit else Json.escapeChar (Char.ofNat unit.toNat)

/-- What stands between the quotes of a string. -/
def quoteUnits : List UInt16 → List Char
  | [] => []
  | [unit] => quoteUnit unit
  | high :: low :: rest =>
    if High high ∧ Low low then pairChar high low :: quoteUnits rest
    else quoteUnit high ++ quoteUnits (low :: rest)

def unitChar (unit : UInt16) : Option Char :=
  if Surrogate unit then none else some (Char.ofNat unit.toNat)

/-- The characters of a string, when no surrogate in it is alone. -/
def toChars : List UInt16 → Option (List Char)
  | [] => some []
  | [unit] => (unitChar unit).map fun c => [c]
  | high :: low :: rest =>
    if High high ∧ Low low then (toChars rest).map (pairChar high low :: ·)
    else (unitChar high).bind fun c => (toChars (low :: rest)).map (c :: ·)

theorem unitChar_toNat {unit : UInt16} {c : Char} (h : unitChar unit = some c) :
    c.toNat = unit.toNat ∧ ¬ Surrogate unit := by
  unfold unitChar at h
  split at h
  · cases h
  · rename_i hplain
    cases h
    refine ⟨?_, hplain⟩
    have hlt := unit.toNat_lt
    unfold Surrogate High Low at hplain
    obtain ⟨c, hc⟩ := char_of_nat unit.toNat (by omega)
    rw [← hc, Char.ofNat_toNat]

theorem pairChar_toNat {high low : UInt16} (hhigh : High high) (hlow : Low low) :
    (pairChar high low).toNat =
      0x10000 + (high.toNat - 0xD800) * 1024 + (low.toNat - 0xDC00) := by
  unfold High at hhigh
  unfold Low at hlow
  obtain ⟨c, hc⟩ := char_of_nat
    (0x10000 + (high.toNat - 0xD800) * 1024 + (low.toNat - 0xDC00)) (by omega)
  rw [pairChar, ← hc, Char.ofNat_toNat]

theorem encodeChar_unitChar {unit : UInt16} {c : Char} (h : unitChar unit = some c) :
    encodeChar c = [unit] := by
  obtain ⟨hc, -⟩ := unitChar_toNat h
  have hlt := unit.toNat_lt
  rw [encodeChar, if_pos (by omega), hc, UInt16.ofNat_toNat]

theorem encodeChar_pairChar {high low : UInt16} (hhigh : High high) (hlow : Low low) :
    encodeChar (pairChar high low) = [high, low] := by
  have hc := pairChar_toNat hhigh hlow
  unfold High at hhigh
  unfold Low at hlow
  have hfirst : 0xD800 + ((pairChar high low).toNat - 0x10000) / 1024 = high.toNat := by omega
  have hsecond : 0xDC00 + ((pairChar high low).toNat - 0x10000) % 1024 = low.toNat := by omega
  rw [encodeChar, if_neg (by omega), hfirst, hsecond, UInt16.ofNat_toNat, UInt16.ofNat_toNat]

/-- The characters of a string are those that it encodes. -/
theorem encodeChars_of_toChars {units : List UInt16} {chars : List Char}
    (h : toChars units = some chars) : encodeChars chars = units := by
  induction units using toChars.induct generalizing chars with
  | case1 =>
    cases h
    rfl
  | case2 unit =>
    rw [toChars] at h
    obtain ⟨c, hc, rfl⟩ := Option.map_eq_some_iff.mp h
    rw [encodeChars, List.flatMap_singleton, encodeChar_unitChar hc]
  | case3 high low rest hpair ih =>
    rw [toChars, if_pos hpair] at h
    obtain ⟨chars, hchars, rfl⟩ := Option.map_eq_some_iff.mp h
    have hrest := ih hchars
    unfold encodeChars at hrest ⊢
    rw [List.flatMap_cons, encodeChar_pairChar hpair.1 hpair.2, hrest]
    rfl
  | case4 high low rest hpair ih =>
    rw [toChars, if_neg hpair] at h
    obtain ⟨c, hc, h⟩ := Option.bind_eq_some_iff.mp h
    obtain ⟨chars, hchars, rfl⟩ := Option.map_eq_some_iff.mp h
    have hrest := ih hchars
    unfold encodeChars at hrest ⊢
    rw [List.flatMap_cons, encodeChar_unitChar hc, hrest]
    rfl

theorem toChars_append (c : Char) (rest : List UInt16) :
    toChars (encodeChar c ++ rest) = (toChars rest).map (c :: ·) := by
  rcases encodeChar_cases c with ⟨unit, hc, hhigh, hlow, hnat⟩ | ⟨high, low, hc, hhigh, hlow, hnat⟩
  · have hchar : unitChar unit = some c := by
      have hplain : ¬ Surrogate unit := not_or.mpr ⟨hhigh, hlow⟩
      rw [unitChar, if_neg hplain, hnat, Char.ofNat_toNat]
    rw [hc]
    cases rest with
    | nil =>
      show (unitChar unit).map _ = _
      rw [hchar]
      rfl
    | cons next more =>
      show toChars (unit :: next :: more) = _
      rw [toChars, if_neg fun hpair => hhigh hpair.1, hchar, Option.bind_some]
  · rw [hc]
    show toChars (high :: low :: rest) = _
    rw [toChars, if_pos ⟨hhigh, hlow⟩, pairChar, ← hnat, Char.ofNat_toNat]

theorem toChars_encodeChars (chars : List Char) : toChars (encodeChars chars) = some chars := by
  induction chars with
  | nil => rfl
  | cons c chars ih =>
    show toChars (encodeChar c ++ encodeChars chars) = _
    rw [toChars_append, ih]
    rfl

/-- A string has characters exactly when no surrogate in it is alone. -/
theorem toChars_isSome_iff (units : List UInt16) : (toChars units).isSome ↔ WellFormed units := by
  constructor
  · intro h
    obtain ⟨chars, hchars⟩ := Option.isSome_iff_exists.mp h
    rw [← encodeChars_of_toChars hchars]
    exact wellFormed_encodeChars chars
  · intro h
    obtain ⟨chars, rfl⟩ := h.exists_chars
    rw [toChars_encodeChars]
    rfl

end Strings

section Literals

theorem unitEscape_units (unit : UInt16) :
    hexUnit (Json.hexDigit (unit.toNat / 4096)) (Json.hexDigit (unit.toNat / 256 % 16))
      (Json.hexDigit (unit.toNat / 16 % 16)) (Json.hexDigit (unit.toNat % 16)) =
        some unit.toNat := by
  have hlt := unit.toNat_lt
  obtain ⟨-, -, -, h₁⟩ := hexDigit_plain (n := unit.toNat / 4096) (by omega)
  obtain ⟨-, -, -, h₂⟩ := hexDigit_plain (n := unit.toNat / 256 % 16) (by omega)
  obtain ⟨-, -, -, h₃⟩ := hexDigit_plain (n := unit.toNat / 16 % 16) (by omega)
  obtain ⟨-, -, -, h₄⟩ := hexDigit_plain (n := unit.toNat % 16) (by omega)
  have hsum : ((unit.toNat / 4096 * 16 + unit.toNat / 256 % 16) * 16 + unit.toNat / 16 % 16) * 16 +
      unit.toNat % 16 = unit.toNat := by omega
  rw [hexUnit, h₁, h₂, h₃, h₄]
  show some _ = some _
  rw [hsum]

/-- The raw reader takes a piece of a literal as it stands. -/
def Passes (piece : List Char) : Prop :=
  ∀ rest, rawString (piece ++ rest) =
    (rawString rest).map fun read => (piece ++ read.1, read.2)

theorem Passes.append {front back : List Char} (h : Passes front) (hback : Passes back) :
    Passes (front ++ back) := by
  intro rest
  rw [List.append_assoc, h, hback, Option.map_map]
  cases rawString rest with
  | none => rfl
  | some read =>
    show some (front ++ (back ++ read.1), read.2) = some (front ++ back ++ read.1, read.2)
    rw [List.append_assoc]

theorem passes_nil : Passes [] := by
  intro rest
  cases hread : rawString rest <;> simp [hread]

theorem passes_plain {c : Char} (hquote : c ≠ '"') (hslash : c ≠ '\\')
    (hcontrol : ¬ c.toNat < 32) : Passes [c] := rawString_plain hquote hslash hcontrol

theorem passes_hexDigit {n : ℕ} (h : n < 16) : Passes [Json.hexDigit n] := by
  obtain ⟨hquote, hslash, hcontrol, -⟩ := hexDigit_plain h
  exact passes_plain hquote hslash hcontrol

theorem passes_unitEscape (unit : UInt16) : Passes (unitEscape unit) := by
  have hlt := unit.toNat_lt
  have hdigits := (passes_hexDigit (n := unit.toNat / 4096) (by omega)).append
    ((passes_hexDigit (n := unit.toNat / 256 % 16) (by omega)).append
      ((passes_hexDigit (n := unit.toNat / 16 % 16) (by omega)).append
        (passes_hexDigit (n := unit.toNat % 16) (by omega))))
  have hescape : Passes ['\\', 'u'] := fun rest => rawString_escape 'u' rest
  exact hescape.append hdigits

theorem passes_quoteUnit (unit : UInt16) : Passes (quoteUnit unit) := by
  unfold quoteUnit
  split
  · exact passes_unitEscape unit
  · exact rawString_escapeChar _

theorem pairChar_plain {high low : UInt16} (hhigh : High high) (hlow : Low low) :
    pairChar high low ≠ '"' ∧ pairChar high low ≠ '\\' ∧ ¬ (pairChar high low).toNat < 32 := by
  have hnat := pairChar_toNat hhigh hlow
  refine ⟨?_, ?_, by omega⟩
  · intro heq
    rw [heq] at hnat
    have hquote : '"'.toNat = 34 := rfl
    omega
  · intro heq
    rw [heq] at hnat
    have hslash : '\\'.toNat = 92 := rfl
    omega

theorem passes_quoteUnits (units : List UInt16) : Passes (quoteUnits units) := by
  induction units using quoteUnits.induct with
  | case1 => exact passes_nil
  | case2 unit =>
    rw [quoteUnits]
    exact passes_quoteUnit unit
  | case3 high low rest hpair ih =>
    obtain ⟨hquote, hslash, hcontrol⟩ := pairChar_plain hpair.1 hpair.2
    rw [quoteUnits, if_pos hpair]
    exact (passes_plain hquote hslash hcontrol).append ih
  | case4 high low rest hpair ih =>
    rw [quoteUnits, if_neg hpair]
    exact (passes_quoteUnit high).append ih

/-- The escape of a unit, as the reader meets it with or without a high surrogate before it. -/
theorem unescape_unitEscape (high : Option ℕ) (unit : UInt16) (rest : List Char) :
    unescape high (unitEscape unit ++ rest) =
      match high with
      | none =>
        if High unit then unescape (some unit.toNat) rest
        else if Low unit then none
        else (unescape none rest).map (Char.ofNat unit.toNat :: ·)
      | some first =>
        if Low unit then
          (unescape none rest).map
            (Char.ofNat (0x10000 + (first - 0xD800) * 1024 + (unit.toNat - 0xDC00)) :: ·)
        else none := by
  show unescape high ('\\' :: 'u' :: Json.hexDigit (unit.toNat / 4096) ::
    Json.hexDigit (unit.toNat / 256 % 16) :: Json.hexDigit (unit.toNat / 16 % 16) ::
      Json.hexDigit (unit.toNat % 16) :: rest) = _
  rw [unescape.eq_def]
  simp only [if_true, unitEscape_units]
  cases high <;> rfl

/-- After a high surrogate the reader takes the escape of a low one and nothing else. -/
theorem unescape_high_quoteUnit (first : ℕ) {unit : UInt16} (h : ¬ Low unit) (rest : List Char) :
    unescape (some first) (quoteUnit unit ++ rest) = none := by
  unfold quoteUnit
  split
  · rw [unescape_unitEscape]
    exact if_neg h
  · rename_i hplain
    have hunit : unitChar unit = some (Char.ofNat unit.toNat) := if_neg hplain
    have hnat := (unitChar_toNat hunit).1
    rcases escapeChar_cases (Char.ofNat unit.toNat) with
      ⟨e, he, hu, -⟩ | ⟨hc, he⟩ | ⟨he, -, hslash, -⟩
    · rw [he]
      show unescape (some first) ('\\' :: e :: rest) = none
      rw [unescape.eq_def]
      simp only [if_true, if_neg hu, Option.isSome_some]
    · have hescape : Json.escapeChar (Char.ofNat unit.toNat) = unitEscape unit := by
        rw [he, hnat, unitEscape]
        have h₁ : unit.toNat / 4096 = 0 := by omega
        have h₂ : unit.toNat / 256 % 16 = 0 := by omega
        have h₃ : unit.toNat / 16 % 16 = unit.toNat / 16 := by omega
        rw [h₁, h₂, h₃]
        rfl
      rw [hescape, unescape_unitEscape]
      exact if_neg h
    · rw [he]
      show unescape (some first) (_ :: rest) = none
      rw [unescape.eq_def]
      simp only [if_neg hslash, Option.isSome_some, if_true]

theorem unescape_pairChar {high low : UInt16} (hhigh : High high) (hlow : Low low)
    (rest : List Char) :
    unescape none (pairChar high low :: rest) =
      (unescape none rest).map (pairChar high low :: ·) := by
  obtain ⟨-, hslash, -⟩ := pairChar_plain hhigh hlow
  rw [unescape.eq_def]
  simp only [if_neg hslash]
  rfl

theorem unescape_high_pairChar (first : ℕ) {high low : UInt16} (hhigh : High high)
    (hlow : Low low) (rest : List Char) :
    unescape (some first) (pairChar high low :: rest) = none := by
  obtain ⟨-, hslash, -⟩ := pairChar_plain hhigh hlow
  rw [unescape.eq_def]
  simp only [if_neg hslash, Option.isSome_some, if_true]

/-- A high surrogate before anything but a low one is not read. -/
theorem unescape_high_quoteUnits (first : ℕ) (units : List UInt16)
    (h : ∀ unit, units.head? = some unit → ¬ Low unit) :
    unescape (some first) (quoteUnits units) = none := by
  match units with
  | [] => rfl
  | [unit] =>
    have hnone := unescape_high_quoteUnit first (h unit rfl) []
    rwa [List.append_nil] at hnone
  | high :: low :: rest =>
    rw [quoteUnits]
    split
    · rename_i hpair
      exact unescape_high_pairChar first hpair.1 hpair.2 _
    · exact unescape_high_quoteUnit first (h high rfl) _

theorem unescape_quoteUnit {unit : UInt16} (rest : List Char) (h : ¬ High unit) :
    unescape none (quoteUnit unit ++ rest) =
      (unitChar unit).bind fun c => (unescape none rest).map (c :: ·) := by
  unfold quoteUnit unitChar
  split
  · rename_i hsurrogate
    have hlow : Low unit := hsurrogate.resolve_left h
    rw [unescape_unitEscape]
    simp only [if_neg h, if_pos hlow, Option.bind_none]
  · rw [unescape_escapeChar, Option.bind_some]

/-- The reader takes a quoted string for its characters, if it has any. -/
theorem unescape_quoteUnits (units : List UInt16) :
    unescape none (quoteUnits units) = toChars units := by
  induction units using quoteUnits.induct with
  | case1 => rfl
  | case2 unit =>
    rw [quoteUnits, toChars, ← List.append_nil (quoteUnit unit)]
    by_cases hhigh : High unit
    · have hsurrogate : Surrogate unit := Or.inl hhigh
      rw [quoteUnit, if_pos hsurrogate, unescape_unitEscape, unitChar, if_pos hsurrogate]
      simp only [if_pos hhigh]
      rfl
    · rw [unescape_quoteUnit [] hhigh]
      cases unitChar unit <;> rfl
  | case3 high low rest hpair ih =>
    rw [quoteUnits, toChars, if_pos hpair, if_pos hpair, unescape_pairChar hpair.1 hpair.2, ih]
  | case4 high low rest hpair ih =>
    rw [quoteUnits, toChars, if_neg hpair, if_neg hpair]
    by_cases hhigh : High high
    · have hsurrogate : Surrogate high := Or.inl hhigh
      have hnext : unescape (some high.toNat) (quoteUnits (low :: rest)) = none := by
        apply unescape_high_quoteUnits
        intro unit hunit
        cases hunit
        exact fun hlow => hpair ⟨hhigh, hlow⟩
      rw [quoteUnit, if_pos hsurrogate, unescape_unitEscape, unitChar, if_pos hsurrogate]
      simp only [if_pos hhigh, hnext, Option.bind_none]
    · rw [unescape_quoteUnit _ hhigh, ih]

/-- A string literal, once its opening quote is read. -/
theorem string_quoteUnits (units : List UInt16) (rest : List Char) :
    string (quoteUnits units ++ '"' :: rest) =
      (toChars units).map fun chars => (String.ofList chars, rest) := by
  have hraw : rawString (quoteUnits units ++ '"' :: rest) = some (quoteUnits units, rest) := by
    have hquote : rawString ('"' :: rest) = some ([], rest) := by
      rw [rawString.eq_def]
      exact if_pos rfl
    rw [passes_quoteUnits, hquote, Option.map_some, List.append_nil]
  rw [string, hraw]
  simp only [unescape_quoteUnits]

end Literals

section Trees

/-- The text of a number; what it denotes is left to the reader. -/
abbrev NumberText := {text : List Char // text ≠ [] ∧ ∀ c ∈ text, isNumeric c = true}

/-- What an engine finds when it writes a value, with its strings as they are. -/
inductive Tree
  | null
  | bool (b : Bool)
  | number (text : NumberText)
  | string (units : List UInt16)
  | array (items : List Tree)
  | object (entries : List (List UInt16 × Tree))

def quoteString (units : List UInt16) : List Char := '"' :: quoteUnits units ++ ['"']

mutual

def stringify : Tree → List Char
  | .null => ['n', 'u', 'l', 'l']
  | .bool true => ['t', 'r', 'u', 'e']
  | .bool false => ['f', 'a', 'l', 's', 'e']
  | .number text => text.val
  | .string units => quoteString units
  | .array items => '[' :: stringifyItems items ++ [']']
  | .object entries => '{' :: stringifyEntries entries ++ ['}']

def stringifyItems : List Tree → List Char
  | [] => []
  | [item] => stringify item
  | item :: next :: rest => stringify item ++ ',' :: stringifyItems (next :: rest)

def stringifyEntries : List (List UInt16 × Tree) → List Char
  | [] => []
  | [(key, value)] => quoteString key ++ ':' :: stringify value
  | (key, value) :: next :: rest =>
      quoteString key ++ ':' :: stringify value ++ ',' :: stringifyEntries (next :: rest)

end

variable (readFloat : List Char → Option UInt64)

def toText (units : List UInt16) : Option String := (toChars units).map String.ofList

mutual

/-- The value of a tree, when every string of it is a text and every number a number. -/
def Tree.toJson : Tree → Option Json
  | .null => some .null
  | .bool b => some (.bool b)
  | .number text => (numberOf readFloat text.val).map .number
  | .string units => (toText units).map .string
  | .array items => (itemsToJson items).map .array
  | .object entries => (entriesToJson entries).map .object

def itemsToJson : List Tree → Option (List Json)
  | [] => some []
  | item :: rest => item.toJson.bind fun value => (itemsToJson rest).map (value :: ·)

def entriesToJson : List (List UInt16 × Tree) → Option (List (String × Json))
  | [] => some []
  | (key, value) :: rest => (toText key).bind fun key =>
      value.toJson.bind fun value => (entriesToJson rest).map ((key, value) :: ·)

end

theorem itemsToJson_cons (item : Tree) (items : List Tree) :
    itemsToJson readFloat (item :: items) = (item.toJson readFloat).bind fun value =>
      (itemsToJson readFloat items).map (value :: ·) := by
  rw [itemsToJson]

theorem entriesToJson_cons (key : List UInt16) (item : Tree)
    (entries : List (List UInt16 × Tree)) :
    entriesToJson readFloat ((key, item) :: entries) = (toText key).bind fun key =>
      (item.toJson readFloat).bind fun value =>
        (entriesToJson readFloat entries).map ((key, value) :: ·) := by
  rw [entriesToJson]

theorem stringify_starts (tree : Tree) :
    ∃ c more, stringify tree = c :: more ∧ Starts c := by
  cases tree with
  | null => exact ⟨'n', _, rfl, rfl, by decide, by decide⟩
  | bool b => cases b <;> exact ⟨_, _, rfl, rfl, by decide, by decide⟩
  | number text =>
    obtain ⟨text, hne, hnumeric⟩ := text
    cases text with
    | nil => exact absurd rfl hne
    | cons c more => exact ⟨c, more, rfl, (starts_of_isNumeric (hnumeric c (by simp))).1⟩
  | string units => exact ⟨'"', _, rfl, rfl, by decide, by decide⟩
  | array items => exact ⟨'[', _, rfl, rfl, by decide, by decide⟩
  | object entries => exact ⟨'{', _, rfl, rfl, by decide, by decide⟩

theorem stringifyItems_cons (item : Tree) {items : List Tree} (hne : items ≠ []) :
    stringifyItems (item :: items) = stringify item ++ ',' :: stringifyItems items := by
  cases items with
  | nil => exact absurd rfl hne
  | cons next more => rw [stringifyItems]

theorem stringifyEntries_cons (key : List UInt16) (item : Tree)
    {entries : List (List UInt16 × Tree)} (hne : entries ≠ []) :
    stringifyEntries ((key, item) :: entries) =
      quoteString key ++ ':' :: stringify item ++ ',' :: stringifyEntries entries := by
  cases entries with
  | nil => exact absurd rfl hne
  | cons next more => rw [stringifyEntries]

theorem stringifyItems_starts {items : List Tree} (hne : items ≠ []) :
    ∃ c more, stringifyItems items = c :: more ∧ Starts c := by
  cases items with
  | nil => exact absurd rfl hne
  | cons item items =>
    obtain ⟨c, more, htext, hc⟩ := stringify_starts item
    by_cases hnil : items = []
    · subst hnil
      exact ⟨c, more, by rw [stringifyItems, htext], hc⟩
    · rw [stringifyItems_cons item hnil, htext]
      exact ⟨c, _, rfl, hc⟩

theorem stringifyEntries_starts {entries : List (List UInt16 × Tree)} (hne : entries ≠ []) :
    ∃ more, stringifyEntries entries = '"' :: more := by
  match entries with
  | [] => exact absurd rfl hne
  | [(key, item)] => exact ⟨_, rfl⟩
  | (key, item) :: next :: more => exact ⟨_, rfl⟩

theorem value_numberText (text : NumberText) (fuel : ℕ) {rest : List Char}
    (hrest : NumberEnd rest) :
    value readFloat (fuel + 1) (text.val ++ rest) =
      (numberOf readFloat text.val).map fun n => (.number n, rest) := by
  obtain ⟨text, hne, hnumeric⟩ := text
  obtain ⟨htake, hdrop⟩ := takeWhile_number hnumeric hrest
  cases text with
  | nil => exact absurd rfl hne
  | cons c more =>
    obtain ⟨hstart, hbrace, hbracket, hquote, ht, hf, hn⟩ :=
      starts_of_isNumeric (hnumeric c (by simp))
    rw [List.cons_append] at htake hdrop ⊢
    rw [value, skip_cons hstart.1]
    simp only [if_neg hbrace, if_neg hbracket, if_neg hquote, if_neg ht, if_neg hf, if_neg hn,
      number, htake, hdrop]

theorem quoteString_append (units : List UInt16) (rest : List Char) :
    quoteString units ++ rest = '"' :: (quoteUnits units ++ '"' :: rest) := by
  rw [quoteString, List.append_assoc]
  rfl

theorem value_quoteString (units : List UInt16) (fuel : ℕ) (rest : List Char) :
    value readFloat (fuel + 1) (quoteString units ++ rest) =
      (toText units).map fun text => (.string text, rest) := by
  rw [quoteString_append, value, skip_cons rfl]
  simp only [string_quoteUnits, Option.map_map, toText]
  rfl

theorem key_quoteString (units : List UInt16) (rest : List Char) :
    (expect '"' (quoteString units ++ rest)).bind string =
      (toText units).map fun text => (text, rest) := by
  rw [quoteString_append, expect_self rfl, Option.bind_some, string_quoteUnits, toText,
    Option.map_map]
  rfl

mutual

/-- What the reader makes of the text of a tree, whatever follows it. -/
theorem value_stringify (tree : Tree) (fuel : ℕ) (hfuel : 2 * (stringify tree).length ≤ fuel)
    {rest : List Char} (hrest : NumberEnd rest) :
    value readFloat fuel (stringify tree ++ rest) =
      (tree.toJson readFloat).map fun json => (json, rest) := by
  obtain ⟨c, more, htext, -⟩ := stringify_starts tree
  have hlength := congrArg List.length htext
  rw [List.length_cons] at hlength
  obtain ⟨fuel, rfl⟩ := Nat.exists_eq_succ_of_ne_zero (n := fuel) (by omega)
  match tree with
  | .null => rfl
  | .bool true => rfl
  | .bool false => rfl
  | .number text =>
    rw [stringify, Tree.toJson, Option.map_map]
    exact value_numberText readFloat text fuel hrest
  | .string units =>
    rw [stringify, Tree.toJson, Option.map_map]
    exact value_quoteString readFloat units fuel rest
  | .array [] => rfl
  | .array (item :: items) =>
    have hne : item :: items ≠ [] := by simp
    obtain ⟨d, text, hitems, hstarts⟩ := stringifyItems_starts hne
    have htext : stringify (.array (item :: items)) ++ rest =
        '[' :: (stringifyItems (item :: items) ++ ']' :: rest) := by
      rw [stringify, List.append_assoc]
      rfl
    have hread := elements_stringify (item :: items) hne fuel
      (by rw [stringify, List.length_append, List.length_cons, List.length_singleton] at hfuel
          omega) rest
    rw [hitems, List.cons_append] at hread
    rw [htext, hitems, List.cons_append, value_bracket readFloat hstarts, hread]
    simp only [Tree.toJson, Option.map_map]
    rfl
  | .object [] => rfl
  | .object (entry :: entries) =>
    have hne : entry :: entries ≠ [] := by simp
    obtain ⟨text, hentries⟩ := stringifyEntries_starts hne
    have htext : stringify (.object (entry :: entries)) ++ rest =
        '{' :: (stringifyEntries (entry :: entries) ++ '}' :: rest) := by
      rw [stringify, List.append_assoc]
      rfl
    have hread := members_stringify (entry :: entries) hne fuel
      (by rw [stringify, List.length_append, List.length_cons, List.length_singleton] at hfuel
          omega) rest
    rw [hentries, List.cons_append] at hread
    rw [htext, hentries, List.cons_append, value_brace, hread]
    simp only [Tree.toJson, Option.map_map]
    rfl

theorem elements_stringify (items : List Tree) (hne : items ≠ []) (fuel : ℕ)
    (hfuel : 2 * (stringifyItems items).length + 1 ≤ fuel) (rest : List Char) :
    elements readFloat fuel (stringifyItems items ++ ']' :: rest) =
      (itemsToJson readFloat items).map fun values => (values, rest) := by
  obtain ⟨fuel, rfl⟩ := Nat.exists_eq_succ_of_ne_zero (n := fuel) (by omega)
  match items with
  | [] => exact absurd rfl hne
  | [item] =>
    rw [stringifyItems] at hfuel ⊢
    have hvalue := value_stringify item fuel (by omega) (numberEnd_cons (c := ']') rfl rest)
    rw [elements_last (item.toJson readFloat) hvalue]
    simp only [itemsToJson]
    cases item.toJson readFloat <;> rfl
  | item :: next :: items =>
    have hnext : next :: items ≠ [] := by simp
    rw [stringifyItems_cons item hnext] at hfuel ⊢
    rw [List.length_append, List.length_cons] at hfuel
    obtain ⟨c, more, hitem, -⟩ := stringify_starts item
    have hlength := congrArg List.length hitem
    rw [List.length_cons] at hlength
    have hvalue := value_stringify item fuel (by omega) (numberEnd_cons (c := ',') rfl
      (stringifyItems (next :: items) ++ ']' :: rest))
    rw [List.append_assoc, List.cons_append, elements_next (item.toJson readFloat) hvalue,
      elements_stringify (next :: items) hnext fuel (by omega) rest,
      itemsToJson_cons readFloat item, Option.map_bind]
    simp only [Function.comp_def, Option.map_map]

theorem members_stringify (entries : List (List UInt16 × Tree)) (hne : entries ≠ []) (fuel : ℕ)
    (hfuel : 2 * (stringifyEntries entries).length + 1 ≤ fuel) (rest : List Char) :
    members readFloat fuel (stringifyEntries entries ++ '}' :: rest) =
      (entriesToJson readFloat entries).map fun values => (values, rest) := by
  obtain ⟨fuel, rfl⟩ := Nat.exists_eq_succ_of_ne_zero (n := fuel) (by omega)
  match entries with
  | [] => exact absurd rfl hne
  | [(key, item)] =>
    rw [stringifyEntries] at hfuel ⊢
    rw [List.length_append, List.length_cons] at hfuel
    have hvalue := value_stringify item fuel (by omega) (numberEnd_cons (c := '}') rfl rest)
    rw [List.append_assoc, List.cons_append,
      members_last (item.toJson readFloat) (toText key) (key_quoteString key _) hvalue]
    simp only [entriesToJson]
    cases toText key with
    | none => rfl
    | some text => cases item.toJson readFloat <;> rfl
  | (key, item) :: next :: entries =>
    have hnext : next :: entries ≠ [] := by simp
    rw [stringifyEntries_cons key item hnext] at hfuel ⊢
    simp only [List.length_append, List.length_cons] at hfuel
    have hvalue := value_stringify item fuel (by omega) (numberEnd_cons (c := ',') rfl
      (stringifyEntries (next :: entries) ++ '}' :: rest))
    simp only [List.append_assoc, List.cons_append]
    rw [members_next (item.toJson readFloat) (toText key) (key_quoteString key _) hvalue,
      members_stringify (next :: entries) hnext fuel (by omega) rest,
      entriesToJson_cons readFloat key item, Option.map_bind]
    simp only [Function.comp_def, Option.map_bind, Option.map_map]

end

/-- The text of a tree is read exactly when the tree has a value, and as that value. -/
theorem parse_stringify (tree : Tree) :
    parse readFloat (stringify tree) = tree.toJson readFloat := by
  have hend : NumberEnd ([] : List Char) := by
    intro c more h
    cases h
  have hread := value_stringify readFloat tree (2 * (stringify tree).length + 2) (by omega) hend
  rw [List.append_nil] at hread
  rw [parse, hread]
  cases tree.toJson readFloat <;> rfl

end Trees

end StuntDouble.JsonText
