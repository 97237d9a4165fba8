import StuntDouble.JsonStringify
import StuntDouble.Messages

/-!
Values with numbers of every kind. The compact text of a value is the text that an engine
would write for it, so it is read back as soon as each of its numbers is.
-/
namespace StuntDouble.JsonText

open Utf16

section Quotes

theorem quoteUnits_encodeChar (c : Char) (rest : List UInt16) :
    quoteUnits (encodeChar c ++ rest) = Json.escapeChar c ++ quoteUnits rest := by
  rcases encodeChar_cases c with ⟨unit, hc, hhigh, hlow, hnat⟩ | ⟨high, low, hc, hhigh, hlow, hnat⟩
  · have hchar : quoteUnit unit = Json.escapeChar c := by
      have hplain : ¬Surrogate unit := not_or.mpr ⟨hhigh, hlow⟩
      rw [quoteUnit, if_neg hplain, hnat, Char.ofNat_toNat]
    rw [hc, List.singleton_append]
    cases rest with
    | nil =>
      have hsingle : quoteUnits [unit] = quoteUnit unit := by rw [quoteUnits]
      rw [hsingle, hchar, quoteUnits, List.append_nil]
    | cons next rest =>
      rw [quoteUnits, if_neg (fun hpair => hhigh hpair.1), hchar]
  · have hchar : pairChar high low = c := by
      rw [pairChar, ← hnat, Char.ofNat_toNat]
    have hplain : Json.escapeChar c = [c] := by
      have hne {d : Char} (hd : d.toNat < 128) : c ≠ d := by
        intro heq
        subst heq
        omega
      unfold Json.escapeChar
      rw [if_neg (hne (by decide)), if_neg (hne (by decide)), if_neg (by omega),
        if_neg (by omega), if_neg (hne (by decide)), if_neg (hne (by decide)),
        if_neg (hne (by decide)), if_neg (by omega)]
    rw [hc, List.cons_append, List.singleton_append, quoteUnits, if_pos ⟨hhigh, hlow⟩, hchar,
      hplain, List.singleton_append]

theorem quoteString_encode (text : String) : quoteString (encode text) = Json.quote text := by
  have hchars (chars : List Char) :
      quoteUnits (encodeChars chars) = chars.flatMap Json.escapeChar := by
    induction chars with
    | nil => rfl
    | cons c chars ih =>
      show quoteUnits (encodeChar c ++ encodeChars chars) = _
      rw [quoteUnits_encodeChar, ih, List.flatMap_cons]
  rw [quoteString, encode, hchars]
  rfl

end Quotes

section Legible

variable (floatText : UInt64 → String) (readFloat : List Char → Option UInt64)

/-- A number whose text is read back. -/
structure LegibleNumber (n : Number) : Prop where
  written : Json.numberText floatText n ≠ []
  numeric : ∀ c ∈ Json.numberText floatText n, isNumeric c = true
  read : numberOf readFloat (Json.numberText floatText n) = some n

mutual

/-- A value all of whose numbers are read back. -/
def Legible : Json → Prop
  | .number n => LegibleNumber floatText readFloat n
  | .array items => LegibleItems items
  | .object entries => LegibleEntries entries
  | _ => True

def LegibleItems : List Json → Prop
  | [] => True
  | item :: rest => Legible item ∧ LegibleItems rest

def LegibleEntries : List (String × Json) → Prop
  | [] => True
  | (_, value) :: rest => Legible value ∧ LegibleEntries rest

end

variable {floatText readFloat}

mutual

/-- A value as the tree that an engine would have for it. -/
theorem Legible.exists_tree (v : Json) (h : Legible floatText readFloat v) :
    ∃ tree, stringify tree = Json.compactChars floatText v ∧ tree.toJson readFloat = some v := by
  match v with
  | .null => exact ⟨.null, rfl, rfl⟩
  | .bool true => exact ⟨.bool true, rfl, rfl⟩
  | .bool false => exact ⟨.bool false, rfl, rfl⟩
  | .number n =>
    obtain ⟨hwritten, hnumeric, hread⟩ := h
    refine ⟨.number ⟨Json.numberText floatText n, hwritten, hnumeric⟩, rfl, ?_⟩
    rw [Tree.toJson, hread, Option.map_some]
  | .string s =>
    refine ⟨.string (encode s), ?_, ?_⟩
    · rw [stringify, quoteString_encode]
      rfl
    · rw [Tree.toJson, toText, encode, toChars_encodeChars]
      simp
  | .array items =>
    obtain ⟨trees, htext, hread, -⟩ := Legible.exists_items items h
    refine ⟨.array trees, ?_, ?_⟩
    · rw [stringify, htext]
      rfl
    · rw [Tree.toJson, hread, Option.map_some]
  | .object entries =>
    obtain ⟨trees, htext, hread, -⟩ := Legible.exists_entries entries h
    refine ⟨.object trees, ?_, ?_⟩
    · rw [stringify, htext]
      rfl
    · rw [Tree.toJson, hread, Option.map_some]

theorem Legible.exists_items (items : List Json) (h : LegibleItems floatText readFloat items) :
    ∃ trees, stringifyItems trees = Json.compactItems floatText items ∧
      itemsToJson readFloat trees = some items ∧ (items = [] ↔ trees = []) := by
  match items with
  | [] => exact ⟨[], rfl, rfl, iff_of_true rfl rfl⟩
  | item :: rest =>
    obtain ⟨tree, htext, hread⟩ := Legible.exists_tree item h.1
    obtain ⟨trees, htexts, hreads, hnil⟩ := Legible.exists_items rest h.2
    refine ⟨tree :: trees, ?_, ?_, by simp⟩
    · match rest with
      | [] =>
        rw [hnil.mp rfl, stringifyItems, htext]
        rfl
      | next :: rest =>
        have hne : trees ≠ [] := fun heq => by simpa using hnil.mpr heq
        rw [stringifyItems_cons tree hne, htext, htexts]
        rfl
    · rw [itemsToJson, hread, hreads]
      rfl

theorem Legible.exists_entries (entries : List (String × Json))
    (h : LegibleEntries floatText readFloat entries) :
    ∃ trees, stringifyEntries trees = Json.compactEntries floatText entries ∧
      entriesToJson readFloat trees = some entries ∧ (entries = [] ↔ trees = []) := by
  match entries with
  | [] => exact ⟨[], rfl, rfl, iff_of_true rfl rfl⟩
  | (key, value) :: rest =>
    obtain ⟨tree, htext, hread⟩ := Legible.exists_tree value h.1
    obtain ⟨trees, htexts, hreads, hnil⟩ := Legible.exists_entries rest h.2
    have hkey : toText (encode key) = some key := by
      rw [toText, encode, toChars_encodeChars]
      simp
    refine ⟨(encode key, tree) :: trees, ?_, ?_, by simp⟩
    · match rest with
      | [] =>
        rw [hnil.mp rfl, stringifyEntries, htext, quoteString_encode]
        rfl
      | next :: rest =>
        have hne : trees ≠ [] := fun heq => by simpa using hnil.mpr heq
        rw [stringifyEntries_cons _ tree hne, htext, htexts, quoteString_encode]
        rfl
    · rw [entriesToJson, hkey, hread, hreads]
      rfl

end

/-- The compact text of a value is read back. -/
theorem Legible.parse_compact {v : Json} (h : Legible floatText readFloat v) :
    parse readFloat (Json.compactChars floatText v) = some v := by
  obtain ⟨tree, htext, hread⟩ := Legible.exists_tree v h
  rw [← htext, parse_stringify, hread]

theorem insertEntry_legible {key : String} {value : Json} {entries : List (String × Json)}
    (hvalue : Legible floatText readFloat value)
    (h : LegibleEntries floatText readFloat entries) :
    LegibleEntries floatText readFloat (Json.insertEntry key value entries) := by
  induction entries with
  | nil => exact ⟨hvalue, trivial⟩
  | cons entry rest ih =>
    rw [Json.insertEntry]
    split
    · exact ⟨hvalue, h⟩
    · split
      · exact ⟨hvalue, h.2⟩
      · exact ⟨h.1, ih h.2⟩

mutual

theorem Legible.toValue (v : Json) (h : Legible floatText readFloat v) :
    Legible floatText readFloat v.toValue := by
  match v with
  | .null | .bool _ | .number _ | .string _ => exact h
  | .array items =>
    rw [Json.toValue]
    exact Legible.toValues items h
  | .object entries =>
    rw [Json.toValue]
    exact Legible.toEntries [] entries trivial h

theorem Legible.toValues (items : List Json) (h : LegibleItems floatText readFloat items) :
    LegibleItems floatText readFloat (Json.toValues items) := by
  match items with
  | [] => trivial
  | item :: rest => exact ⟨Legible.toValue item h.1, Legible.toValues rest h.2⟩

theorem Legible.toEntries (front entries : List (String × Json))
    (hfront : LegibleEntries floatText readFloat front)
    (h : LegibleEntries floatText readFloat entries) :
    LegibleEntries floatText readFloat (Json.toEntries front entries) := by
  match entries with
  | [] => exact hfront
  | (key, value) :: rest =>
    exact Legible.toEntries _ rest (insertEntry_legible (Legible.toValue value h.1) hfront) h.2

end

end Legible

end StuntDouble.JsonText
