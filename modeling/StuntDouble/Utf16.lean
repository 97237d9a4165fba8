import StuntDouble.Utf8
import Mathlib.Tactic.Common

/-!
UTF-16. A character is one unit, or a high surrogate and a low one. A sequence of units is
well-formed if every surrogate in it belongs to such a pair, and then it is the encoding of
just one text.
-/
namespace StuntDouble.Utf16

def High (unit : UInt16) : Prop := 0xD800 ≤ unit.toNat ∧ unit.toNat ≤ 0xDBFF

def Low (unit : UInt16) : Prop := 0xDC00 ≤ unit.toNat ∧ unit.toNat ≤ 0xDFFF

instance (unit : UInt16) : Decidable (High unit) := inferInstanceAs (Decidable (_ ∧ _))

instance (unit : UInt16) : Decidable (Low unit) := inferInstanceAs (Decidable (_ ∧ _))

/-- After every high surrogate there is a low one, and before every low surrogate a high one. -/
def WellFormed (units : List UInt16) : Prop :=
  ∀ i unit, units[i]? = some unit →
    (High unit → ∃ next, units[i + 1]? = some next ∧ Low next) ∧
    (Low unit → ∃ j last, i = j + 1 ∧ units[j]? = some last ∧ High last)

def encodeChar (c : Char) : List UInt16 :=
  if c.toNat < 0x10000 then [UInt16.ofNat c.toNat]
  else
    [UInt16.ofNat (0xD800 + (c.toNat - 0x10000) / 1024),
      UInt16.ofNat (0xDC00 + (c.toNat - 0x10000) % 1024)]

def encodeChars (chars : List Char) : List UInt16 := chars.flatMap encodeChar

def encode (text : String) : List UInt16 := encodeChars text.toList

section Characters

theorem char_range (c : Char) : c.toNat < 0xD800 ∨ 0xDFFF < c.toNat ∧ c.toNat < 0x110000 :=
  c.valid

/-- The units of a character below the supplementary planes, or above. -/
theorem encodeChar_cases (c : Char) :
    (∃ unit, encodeChar c = [unit] ∧ ¬ High unit ∧ ¬ Low unit ∧ unit.toNat = c.toNat) ∨
      ∃ high low, encodeChar c = [high, low] ∧ High high ∧ Low low ∧
        c.toNat = 0x10000 + (high.toNat - 0xD800) * 1024 + (low.toNat - 0xDC00) := by
  have hrange := char_range c
  unfold encodeChar
  split
  · have hunit : (UInt16.ofNat c.toNat).toNat = c.toNat := by
      rw [UInt16.toNat_ofNat']
      omega
    refine Or.inl ⟨_, rfl, ?_, ?_, hunit⟩
    · unfold High
      omega
    · unfold Low
      omega
  · have hhigh : (UInt16.ofNat (0xD800 + (c.toNat - 0x10000) / 1024)).toNat =
        0xD800 + (c.toNat - 0x10000) / 1024 := by
      rw [UInt16.toNat_ofNat']
      omega
    have hlow : (UInt16.ofNat (0xDC00 + (c.toNat - 0x10000) % 1024)).toNat =
        0xDC00 + (c.toNat - 0x10000) % 1024 := by
      rw [UInt16.toNat_ofNat']
      omega
    refine Or.inr ⟨_, _, rfl, ?_, ?_, ?_⟩
    · unfold High
      omega
    · unfold Low
      omega
    · omega

theorem char_of_nat (n : ℕ) (h : n < 0xD800 ∨ 0xDFFF < n ∧ n < 0x110000) :
    ∃ c : Char, c.toNat = n := ⟨Char.ofNatAux n h, rfl⟩

theorem exists_single {unit : UInt16} (hhigh : ¬ High unit) (hlow : ¬ Low unit) :
    ∃ c, encodeChar c = [unit] := by
  have hlt := unit.toNat_lt
  unfold High at hhigh
  unfold Low at hlow
  obtain ⟨c, hc⟩ := char_of_nat unit.toNat (by omega)
  refine ⟨c, ?_⟩
  rw [encodeChar, if_pos (by omega), hc, UInt16.ofNat_toNat]

theorem exists_pair {high low : UInt16} (hhigh : High high) (hlow : Low low) :
    ∃ c, encodeChar c = [high, low] := by
  unfold High at hhigh
  unfold Low at hlow
  obtain ⟨c, hc⟩ := char_of_nat
    (0x10000 + (high.toNat - 0xD800) * 1024 + (low.toNat - 0xDC00)) (by omega)
  refine ⟨c, ?_⟩
  have hfirst : 0xD800 + (c.toNat - 0x10000) / 1024 = high.toNat := by omega
  have hsecond : 0xDC00 + (c.toNat - 0x10000) % 1024 = low.toNat := by omega
  rw [encodeChar, if_neg (by omega), hfirst, hsecond, UInt16.ofNat_toNat, UInt16.ofNat_toNat]

end Characters

section Concatenation

theorem wellFormed_nil : WellFormed [] := by
  intro i unit h
  simp at h

/-- A well-formed front decides nothing about what follows it. -/
theorem wellFormed_append {front : List UInt16} (h : WellFormed front) (rest : List UInt16) :
    WellFormed (front ++ rest) ↔ WellFormed rest := by
  have hback (i : ℕ) : (front ++ rest)[front.length + i]? = rest[i]? := by
    rw [List.getElem?_append_right (by omega), Nat.add_sub_cancel_left]
  have hfront {i : ℕ} {unit : UInt16} (hunit : front[i]? = some unit) :
      (front ++ rest)[i]? = some unit := by
    rw [List.getElem?_append_left (List.getElem?_eq_some_iff.mp hunit).1, hunit]
  constructor
  · intro hall i unit hunit
    obtain ⟨hhigh, hlow⟩ := hall (front.length + i) unit ((hback i).trans hunit)
    constructor
    · intro hu
      rw [Nat.add_assoc, hback] at hhigh
      exact hhigh hu
    · intro hu
      obtain ⟨j, last, hj, hlast, hlastHigh⟩ := hlow hu
      cases i with
      | zero =>
        -- the front would end in a high surrogate
        have hin : front[j]? = some last := by
          rwa [List.getElem?_append_left (by omega)] at hlast
        obtain ⟨next, hnext, -⟩ := (h j last hin).1 hlastHigh
        have hbound := (List.getElem?_eq_some_iff.mp hnext).1
        omega
      | succ i =>
        have hji : j = front.length + i := by omega
        rw [hji, hback] at hlast
        exact ⟨i, last, rfl, hlast, hlastHigh⟩
  · intro hrest i unit hunit
    by_cases hi : i < front.length
    · rw [List.getElem?_append_left hi] at hunit
      obtain ⟨hhigh, hlow⟩ := h i unit hunit
      constructor
      · intro hu
        obtain ⟨next, hnext, hnextLow⟩ := hhigh hu
        exact ⟨next, hfront hnext, hnextLow⟩
      · intro hu
        obtain ⟨j, last, hj, hlast, hlastHigh⟩ := hlow hu
        exact ⟨j, last, hj, hfront hlast, hlastHigh⟩
    · obtain ⟨k, rfl⟩ := Nat.exists_eq_add_of_le (Nat.le_of_not_lt hi)
      rw [hback] at hunit
      obtain ⟨hhigh, hlow⟩ := hrest k unit hunit
      constructor
      · intro hu
        rw [Nat.add_assoc, hback]
        exact hhigh hu
      · intro hu
        obtain ⟨j, last, rfl, hlast, hlastHigh⟩ := hlow hu
        exact ⟨front.length + j, last, rfl, (hback j).trans hlast, hlastHigh⟩

theorem wellFormed_encodeChar (c : Char) : WellFormed (encodeChar c) := by
  intro i unit hunit
  rcases encodeChar_cases c with ⟨single, hc, hhigh, hlow, -⟩ | ⟨high, low, hc, hhigh, hlow, -⟩
  · rw [hc, List.getElem?_singleton] at hunit
    split at hunit
    · cases hunit
      exact ⟨fun h => absurd h hhigh, fun h => absurd h hlow⟩
    · cases hunit
  · rw [hc] at hunit ⊢
    match i with
    | 0 =>
      cases hunit
      refine ⟨fun _ => ⟨low, rfl, hlow⟩, fun h => ?_⟩
      unfold High at hhigh
      unfold Low at h
      omega
    | 1 =>
      cases hunit
      refine ⟨fun h => ?_, fun _ => ⟨0, high, rfl, rfl, hhigh⟩⟩
      unfold High at h
      unfold Low at hlow
      omega
    | i + 2 => cases hunit

/-- What a well-formed sequence starts with. -/
theorem WellFormed.start {unit : UInt16} {rest : List UInt16} (h : WellFormed (unit :: rest)) :
    ∃ c more, unit :: rest = encodeChar c ++ more ∧ WellFormed more := by
  obtain ⟨hhigh, hlow⟩ := h 0 unit rfl
  have hunit : ¬ Low unit := by
    intro hu
    obtain ⟨j, last, hj, -⟩ := hlow hu
    cases hj
  have hsplit : ∃ c more, unit :: rest = encodeChar c ++ more := by
    by_cases hu : High unit
    · obtain ⟨next, hnext, hnextLow⟩ := hhigh hu
      obtain ⟨c, hc⟩ := exists_pair hu hnextLow
      cases rest with
      | nil => cases hnext
      | cons first more =>
        cases hnext
        refine ⟨c, more, ?_⟩
        rw [hc]
        rfl
    · obtain ⟨c, hc⟩ := exists_single hu hunit
      refine ⟨c, rest, ?_⟩
      rw [hc]
      rfl
  obtain ⟨c, more, hsplit⟩ := hsplit
  rw [hsplit, wellFormed_append (wellFormed_encodeChar c)] at h
  exact ⟨c, more, hsplit, h⟩

end Concatenation

section Texts

theorem wellFormed_encodeChars (chars : List Char) : WellFormed (encodeChars chars) := by
  induction chars with
  | nil => exact wellFormed_nil
  | cons c chars ih => exact (wellFormed_append (wellFormed_encodeChar c) _).mpr ih

theorem encodeChar_ne_nil (c : Char) : encodeChar c ≠ [] := by
  unfold encodeChar
  split
  · simp
  · simp

/-- A well-formed sequence is the encoding of some characters. -/
theorem WellFormed.exists_chars {units : List UInt16} (h : WellFormed units) :
    ∃ chars, encodeChars chars = units := by
  induction hn : units.length using Nat.strongRecOn generalizing units with
  | _ n ih =>
    cases units with
    | nil => exact ⟨[], rfl⟩
    | cons unit rest =>
      obtain ⟨c, more, hsplit, hmore⟩ := h.start
      have hlength := congrArg List.length hsplit
      rw [List.length_append] at hlength
      have hpos := List.length_pos_of_ne_nil (encodeChar_ne_nil c)
      obtain ⟨chars, hchars⟩ := ih more.length (by omega) hmore rfl
      refine ⟨c :: chars, ?_⟩
      rw [hsplit, ← hchars]
      rfl

/-- Well-formed sequences are the encodings of texts. -/
theorem wellFormed_iff (units : List UInt16) : WellFormed units ↔ ∃ text, encode text = units := by
  constructor
  · intro h
    obtain ⟨chars, hchars⟩ := h.exists_chars
    exact ⟨String.ofList chars, by rw [encode, String.toList_ofList, hchars]⟩
  · rintro ⟨text, rfl⟩
    exact wellFormed_encodeChars text.toList

theorem encodeChar_append_inj {c d : Char} {front back : List UInt16}
    (h : encodeChar c ++ front = encodeChar d ++ back) : c = d ∧ front = back := by
  rcases encodeChar_cases c with ⟨u, hc, hu, -, hcu⟩ | ⟨u, v, hc, hu, -, hcu⟩
  · rcases encodeChar_cases d with ⟨w, hd, -, -, hdw⟩ | ⟨w, x, hd, hw, -, -⟩
    · rw [hc, hd] at h
      obtain ⟨rfl, hrest⟩ := List.cons.inj h
      exact ⟨Char.toNat_inj.mp (hcu.symm.trans hdw), hrest⟩
    · rw [hc, hd] at h
      obtain ⟨rfl, -⟩ := List.cons.inj h
      exact absurd hw hu
  · rcases encodeChar_cases d with ⟨w, hd, hw, -, -⟩ | ⟨w, x, hd, -, -, hdw⟩
    · rw [hc, hd] at h
      obtain ⟨rfl, -⟩ := List.cons.inj h
      exact absurd hu hw
    · rw [hc, hd] at h
      obtain ⟨rfl, hrest⟩ := List.cons.inj h
      obtain ⟨rfl, hmore⟩ := List.cons.inj hrest
      exact ⟨Char.toNat_inj.mp (hcu.trans hdw.symm), hmore⟩

theorem encodeChars_injective {chars others : List Char}
    (h : encodeChars chars = encodeChars others) : chars = others := by
  induction chars generalizing others with
  | nil =>
    cases others with
    | nil => rfl
    | cons d others =>
      exact absurd (List.append_eq_nil_iff.mp h.symm).1 (encodeChar_ne_nil d)
  | cons c chars ih =>
    cases others with
    | nil => exact absurd (List.append_eq_nil_iff.mp h).1 (encodeChar_ne_nil c)
    | cons d others =>
      obtain ⟨rfl, hrest⟩ := encodeChar_append_inj h
      rw [ih hrest]

/-- A well-formed sequence is the encoding of one text only. -/
theorem encode_injective {text other : String} (h : encode text = encode other) : text = other :=
  String.toList_injective (encodeChars_injective h)

end Texts

end StuntDouble.Utf16
