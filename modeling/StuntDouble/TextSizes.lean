import StuntDouble.JsonText
import StuntDouble.Base64
import Mathlib.Algebra.GroupWithZero.Nat

/-!
How many bytes a compact JSON text has. A string grows in its literal, at most six times, and
bytes that are decoded with replacement grow no more than well-formed ones do: two
replacement characters together cost less than one escaped control character.
-/
namespace StuntDouble

namespace Utf8

section Sizes

theorem encodeChars_append (front back : List Char) :
    encodeChars (front ++ back) = encodeChars front ++ encodeChars back := List.flatMap_append

theorem encodeChars_cons (c : Char) (rest : List Char) :
    encodeChars (c :: rest) = String.utf8EncodeChar c ++ encodeChars rest := List.flatMap_cons

theorem encodeChars_length (chars : List Char) :
    (encodeChars chars).length = (chars.map Char.utf8Size).sum := by
  induction chars with
  | nil => rfl
  | cons c rest ih =>
    rw [encodeChars_cons, List.length_append, String.length_utf8EncodeChar, ih, List.map_cons,
      List.sum_cons]

theorem utf8ByteSize_eq (text : String) :
    text.utf8ByteSize = (text.toList.map Char.utf8Size).sum := by
  rw [← encodeChars_length, ← encode_eq_encodeChars]
  rfl

theorem utf8Size_of_lt {c : Char} (h : c.toNat < 128) : c.utf8Size = 1 := by
  have hle : c.val ≤ 0x7F := by
    rw [UInt32.le_iff_toNat_le]
    exact Nat.lt_succ_iff.mp h
  exact if_pos hle

/-- What a character under way will cost if it is cut off. -/
def Pending.debt (cost : Char → ℕ) : Pending → ℕ
  | .start => 0
  | .inside _ _ _ _ => cost replacement

theorem first_cost {cost : Char → ℕ} {limit : ℕ} (hcost : ∀ c, cost c ≤ limit) (b : ℕ) :
    ((first b).1.toList.map cost).sum + (first b).2.debt cost ≤ limit := by
  have hone (c : Char) : (([c] : List Char).map cost).sum + Pending.start.debt cost ≤ limit :=
    hcost c
  have hnone (bits missing low high : ℕ) :
      (([] : List Char).map cost).sum + (Pending.inside bits missing low high).debt cost ≤
        limit := by
    rw [List.map_nil, List.sum_nil, Nat.zero_add]
    exact hcost replacement
  unfold first
  split
  · exact hone _
  · split
    · exact hone _
    · repeat' split
      all_goals first
        | exact hnone _ _ _ _
        | exact hone _

/-- A byte pays for one character, and the first byte of a character for its replacement. -/
theorem lossyFrom_cost {cost : Char → ℕ} {limit : ℕ} (hcost : ∀ c, cost c ≤ limit)
    (hdouble : 2 * cost replacement ≤ limit) (bytes : Bytes) (pending : Pending) :
    ((lossyFrom pending bytes).map cost).sum ≤ limit * bytes.length + pending.debt cost := by
  induction bytes generalizing pending with
  | nil =>
    cases pending with
    | start => exact Nat.zero_le _
    | inside bits missing low high => simp [lossyFrom, Pending.debt]
  | cons b rest ih =>
    have hfirst := first_cost hcost b.toNat
    have hnext := ih (first b.toNat).2
    rw [List.length_cons, Nat.mul_add_one]
    cases pending with
    | start =>
      rw [lossyFrom, List.map_append, List.sum_append]
      omega
    | inside bits missing low high =>
      rw [lossyFrom]
      split
      · split
        · have hlast := hcost (Char.ofNat (bits * 64 + b.toNat % 64))
          have hstart := ih .start
          rw [List.map_cons, List.sum_cons]
          simp only [Pending.debt] at hstart ⊢
          omega
        · have hinside := ih (.inside (bits * 64 + b.toNat % 64) (missing - 1) 0x80 0xBF)
          simp only [Pending.debt] at hinside ⊢
          omega
      · rw [List.map_cons, List.sum_cons, List.map_append, List.sum_append]
        simp only [Pending.debt] at hfirst hnext ⊢
        omega

end Sizes

end Utf8

namespace Json

section Sizes

/-- The bytes of a character inside a string literal. -/
def escapedSize (c : Char) : ℕ := (Utf8.encodeChars (escapeChar c)).length

/-- The bytes of a string literal between its quotes. -/
def literalSize (s : String) : ℕ := (s.toList.map escapedSize).sum

theorem hexDigit_size {n : ℕ} (h : n < 16) : (hexDigit n).utf8Size = 1 := by
  have hall : ∀ n : Fin 16, (hexDigit n).utf8Size = 1 := by decide
  exact hall ⟨n, h⟩

theorem simpleEscape_size {e c : Char} (h : JsonText.simpleEscape e = some c) :
    e.utf8Size = 1 := by
  unfold JsonText.simpleEscape at h
  split at h
  · rename_i heq
    rcases heq with rfl | rfl | rfl <;> rfl
  · repeat' split at h
    all_goals first
      | contradiction
      | (rename_i heq; rw [heq]; rfl)

/-- A character is escaped by two characters, by six, or not at all. -/
theorem escapedSize_cases (c : Char) : escapedSize c = 2 ∨ escapedSize c = 6 ∨
    (escapedSize c = c.utf8Size ∧ escapeChar c = [c]) := by
  unfold escapedSize
  rcases JsonText.escapeChar_cases c with ⟨e, hc, -, he⟩ | ⟨hc, hhex⟩ | ⟨hc, -⟩
  · have hsize := simpleEscape_size he
    have hslash : '\\'.utf8Size = 1 := rfl
    refine Or.inl ?_
    rw [hc, Utf8.encodeChars_length]
    simp only [List.map_cons, List.map_nil, List.sum_cons, List.sum_nil, hslash, hsize,
      Nat.add_zero]
  · have hfirst := hexDigit_size (n := c.toNat / 16) (by omega)
    have hsecond := hexDigit_size (n := c.toNat % 16) (by omega)
    have hfront : (['\\', 'u', '0', '0'].map Char.utf8Size).sum = 4 := rfl
    refine Or.inr (Or.inl ?_)
    rw [hhex, Utf8.encodeChars_length]
    simp only [List.map_cons, List.map_nil, List.sum_cons, List.sum_nil] at hfront ⊢
    omega
  · refine Or.inr (Or.inr ⟨?_, hc⟩)
    rw [hc, Utf8.encodeChars_length, List.map_singleton, List.sum_singleton]

theorem escapedSize_le (c : Char) : escapedSize c ≤ 6 * c.utf8Size := by
  have hpos := c.utf8Size_pos
  rcases escapedSize_cases c with h | h | ⟨h, -⟩ <;> omega

theorem escapedSize_le_six (c : Char) : escapedSize c ≤ 6 := by
  have hle := c.utf8Size_le_four
  rcases escapedSize_cases c with h | h | ⟨h, -⟩ <;> omega

theorem literalSize_le (s : String) : literalSize s ≤ 6 * s.utf8ByteSize := by
  rw [literalSize, Utf8.utf8ByteSize_eq]
  induction s.toList with
  | nil => exact Nat.le_refl 0
  | cons c rest ih =>
    have hc := escapedSize_le c
    rw [List.map_cons, List.map_cons, List.sum_cons, List.sum_cons, Nat.mul_add]
    omega

/-- Bytes that are no text are no worse than text. -/
theorem literalSize_decodeLossy (bytes : Bytes) :
    literalSize (Utf8.decodeLossy bytes) ≤ 6 * bytes.length := by
  have hreplacement : escapedSize Utf8.replacement = 3 := rfl
  have hcost := Utf8.lossyFrom_cost escapedSize_le_six (by omega) bytes .start
  rw [literalSize, Utf8.decodeLossy, String.toList_ofList]
  exact hcost

theorem quote_size (s : String) : (Utf8.encodeChars (quote s)).length = literalSize s + 2 := by
  have hchars (chars : List Char) : (Utf8.encodeChars (chars.flatMap escapeChar)).length =
      (chars.map escapedSize).sum := by
    induction chars with
    | nil => rfl
    | cons c rest ih =>
      rw [List.flatMap_cons, Utf8.encodeChars_append, List.length_append, ih, List.map_cons,
        List.sum_cons, escapedSize]
  have hquote : (Utf8.encodeChars ['"']).length = 1 := rfl
  rw [quote, List.cons_append, Utf8.encodeChars_cons, Utf8.encodeChars_append, List.length_append,
    List.length_append, hchars, hquote, literalSize, String.length_utf8EncodeChar]
  show 1 + (_ + 1) = _
  omega

end Sizes

section Bounds

variable (floatText : UInt64 → String)

mutual

/-- The bytes that the text of a value has at most. -/
def sizeBound : Json → ℕ
  | .null => 4
  | .bool _ => 5
  | .number n => (Utf8.encodeChars (numberText floatText n)).length
  | .string s => literalSize s + 2
  | .array items => itemsBound items + 2
  | .object entries => entriesBound entries + 2

def itemsBound : List Json → ℕ
  | [] => 0
  | item :: rest => sizeBound item + 1 + itemsBound rest

def entriesBound : List (String × Json) → ℕ
  | [] => 0
  | (key, value) :: rest => literalSize key + sizeBound value + 4 + entriesBound rest

end

mutual

theorem compactChars_size (v : Json) :
    (Utf8.encodeChars (compactChars floatText v)).length ≤ sizeBound floatText v := by
  match v with
  | .null => exact Nat.le_refl 4
  | .bool true => exact Nat.le_succ 4
  | .bool false => exact Nat.le_refl 5
  | .number n => exact Nat.le_refl _
  | .string s => exact (quote_size s).le
  | .array items =>
    have hitems := compactItems_size items
    rw [compactChars, sizeBound, List.cons_append, Utf8.encodeChars_cons, List.length_append,
      Utf8.encodeChars_append, List.length_append]
    show 1 + (_ + 1) ≤ _
    omega
  | .object entries =>
    have hentries := compactEntries_size entries
    rw [compactChars, sizeBound, List.cons_append, Utf8.encodeChars_cons, List.length_append,
      Utf8.encodeChars_append, List.length_append]
    show 1 + (_ + 1) ≤ _
    omega

theorem compactItems_size (items : List Json) :
    (Utf8.encodeChars (compactItems floatText items)).length ≤ itemsBound floatText items := by
  match items with
  | [] => exact Nat.le_refl 0
  | item :: [] =>
    have hitem := compactChars_size item
    rw [compactItems, itemsBound]
    omega
  | item :: next :: rest =>
    have hitem := compactChars_size item
    have hrest := compactItems_size (next :: rest)
    rw [compactItems, itemsBound, Utf8.encodeChars_append, List.length_append,
      Utf8.encodeChars_cons, List.length_append]
    show _ + (1 + _) ≤ _
    omega

theorem compactEntries_size (entries : List (String × Json)) :
    (Utf8.encodeChars (compactEntries floatText entries)).length ≤
      entriesBound floatText entries := by
  match entries with
  | [] => exact Nat.le_refl 0
  | (key, value) :: [] =>
    have hkey := quote_size key
    have hvalue := compactChars_size value
    rw [compactEntries, entriesBound, Utf8.encodeChars_append, List.length_append,
      Utf8.encodeChars_cons, List.length_append]
    show _ + (1 + _) ≤ _
    omega
  | (key, value) :: next :: rest =>
    have hkey := quote_size key
    have hvalue := compactChars_size value
    have hrest := compactEntries_size (next :: rest)
    rw [compactEntries, entriesBound, List.append_assoc, Utf8.encodeChars_append,
      List.length_append, List.cons_append, Utf8.encodeChars_cons, List.length_append,
      Utf8.encodeChars_append, List.length_append, Utf8.encodeChars_cons, List.length_append]
    show _ + (1 + (_ + (1 + _))) ≤ _
    omega

end

theorem nat_size {n k : ℕ} (hk : 0 < k) (h : n < 10 ^ k) : sizeBound floatText (.nat n) ≤ k := by
  have hdigits (chars : List Char) (hall : ∀ c ∈ chars, c.toNat < 128) :
      (chars.map Char.utf8Size).sum = chars.length := by
    induction chars with
    | nil => rfl
    | cons c rest ih =>
      rw [List.map_cons, List.sum_cons, Utf8.utf8Size_of_lt (hall c (by simp)),
        ih fun d hd => hall d (List.mem_cons_of_mem _ hd), List.length_cons]
      omega
  have hlength := (Nat.length_repr_le_iff hk).mpr h
  have hascii : ∀ c ∈ (toString n).toList, c.toNat < 128 := by
    intro c hc
    rw [Nat.toString_eq_repr, Nat.toList_repr] at hc
    have hdigit := Nat.isDigit_of_mem_toDigits (by omega) (by omega) hc
    have hle : c.toNat ≤ 57 := (Char.isDigit_iff_toNat.mp hdigit).2
    omega
  show (Utf8.encodeChars (toString n).toList).length ≤ k
  rw [Utf8.encodeChars_length, hdigits _ hascii]
  exact hlength

end Bounds

end Json

namespace Base64

section Sizes

theorem letter_size (value : ℕ) : Json.escapedSize (letter value) = 1 := by
  by_cases h : value < 64
  · have hall : ∀ value : Fin 64, Json.escapedSize (letter value) = 1 := by decide +kernel
    exact hall ⟨value, h⟩
  · have hlength : alphabet.length = 64 := rfl
    have hpad : letter value = pad := by
      rw [letter, List.getD_eq_getElem?_getD, List.getElem?_eq_none (by omega), Option.getD_none]
    rw [hpad]
    rfl

/-- Four characters for three bytes, with the padding, and none of them is escaped. -/
theorem encode_size (bytes : Bytes) : Json.literalSize (String.ofList (encode bytes)) =
    4 * ((bytes.length + 2) / 3) := by
  have hpad : Json.escapedSize pad = 1 := rfl
  rw [Json.literalSize, String.toList_ofList]
  fun_induction encode bytes with
  | case1 => rfl
  | case2 a => simp [letters, letter_size, hpad]
  | case3 a b => simp [letters, letter_size, hpad]
  | case4 a b c rest ih =>
    rw [List.map_append, List.sum_append, ih]
    simp only [letters, List.map_cons, List.map_nil, List.sum_cons, List.sum_nil, letter_size,
      List.length_cons]
    omega

end Sizes

end Base64

end StuntDouble
