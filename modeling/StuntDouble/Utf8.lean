import Mathlib.Algebra.Group.Nat.Defs
import Mathlib.Data.List.Basic

/-!
Bytes and text. Strict decoding is that of the standard library; decoding with
replacement puts one replacement character for each maximal ill-formed piece and
is a machine that holds the character it is in the middle of.
-/
namespace StuntDouble

abbrev Bytes := List UInt8

namespace Utf8

def encode (text : String) : Bytes := text.toByteArray.data.toList

def decode (bytes : Bytes) : Option String := String.fromUTF8? ⟨bytes.toArray⟩

@[simp] theorem decode_encode (text : String) : decode (encode text) = some text :=
  dif_pos text.isValidUTF8

def replacement : Char := Char.ofNat 0xFFFD

/-- Between characters, or inside one: the bits so far, how many bytes are still
missing, and the bounds of the next one. -/
inductive Pending
  | start
  | inside (bits missing low high : ℕ)

/-- The first byte of a character: what it puts out at once, and what it waits for. -/
def first (b : ℕ) : Option Char × Pending :=
  if b < 0x80 then (some (Char.ofNat b), .start)
  else if b < 0xC2 then (some replacement, .start)
  else if b < 0xE0 then (none, .inside (b - 0xC0) 1 0x80 0xBF)
  else if b = 0xE0 then (none, .inside 0 2 0xA0 0xBF)
  else if b = 0xED then (none, .inside 0xD 2 0x80 0x9F)
  else if b < 0xF0 then (none, .inside (b - 0xE0) 2 0x80 0xBF)
  else if b = 0xF0 then (none, .inside 0 3 0x90 0xBF)
  else if b < 0xF4 then (none, .inside (b - 0xF0) 3 0x80 0xBF)
  else if b = 0xF4 then (none, .inside 4 3 0x80 0x8F)
  else (some replacement, .start)

def lossyFrom : Pending → Bytes → List Char
  | .start, [] => []
  | .inside _ _ _ _, [] => [replacement]
  | .start, b :: rest => (first b.toNat).1.toList ++ lossyFrom (first b.toNat).2 rest
  | .inside bits missing low high, b :: rest =>
    if low ≤ b.toNat ∧ b.toNat ≤ high then
      if missing ≤ 1 then Char.ofNat (bits * 64 + b.toNat % 64) :: lossyFrom .start rest
      else lossyFrom (.inside (bits * 64 + b.toNat % 64) (missing - 1) 0x80 0xBF) rest
    else replacement :: ((first b.toNat).1.toList ++ lossyFrom (first b.toNat).2 rest)

def decodeLossy (bytes : Bytes) : String := String.ofList (lossyFrom .start bytes)

section WellFormed

/-- The bytes of characters, one after the other. -/
def encodeChars (chars : List Char) : Bytes := chars.flatMap String.utf8EncodeChar

theorem encode_ofList (chars : List Char) : encode (String.ofList chars) = encodeChars chars := by
  simp [encode, encodeChars, List.utf8Encode]

theorem toNat_byte {n : ℕ} (h : n < 256) : (UInt8.ofNat n).toNat = n := by
  rw [UInt8.toNat_ofNat', Nat.mod_eq_of_lt h]

/-- A byte within the bounds of the character that is under way. -/
theorem lossyFrom_continue (bits missing low high b : ℕ) (rest : Bytes) (hlow : low ≤ b)
    (hhigh : b ≤ high) (hbyte : b < 256) :
    lossyFrom (.inside bits (missing + 2) low high) (UInt8.ofNat b :: rest) =
      lossyFrom (.inside (bits * 64 + b % 64) (missing + 1) 0x80 0xBF) rest := by
  rw [lossyFrom, toNat_byte hbyte, if_pos ⟨hlow, hhigh⟩, if_neg (by omega)]
  rfl

theorem lossyFrom_last (bits low high b : ℕ) (rest : Bytes) (hlow : low ≤ b)
    (hhigh : b ≤ high) (hbyte : b < 256) :
    lossyFrom (.inside bits 1 low high) (UInt8.ofNat b :: rest) =
      Char.ofNat (bits * 64 + b % 64) :: lossyFrom .start rest := by
  rw [lossyFrom, toNat_byte hbyte, if_pos ⟨hlow, hhigh⟩, if_pos (Nat.le_refl 1)]

theorem lossyFrom_first (b : ℕ) (rest : Bytes) (pending : Pending) (hbyte : b < 256)
    (hfirst : first b = (none, pending)) :
    lossyFrom .start (UInt8.ofNat b :: rest) = lossyFrom pending rest := by
  rw [lossyFrom, toNat_byte hbyte, hfirst]
  rfl

theorem first_two (n : ℕ) (hlow : 2 ≤ n) (hhigh : n < 0x20) :
    first (n + 0xC0) = (none, .inside n 1 0x80 0xBF) := by
  unfold first
  rw [if_neg (by omega), if_neg (by omega), if_pos (by omega), Nat.add_sub_cancel]

/-- The bounds of the second byte leave out short forms and surrogates. -/
theorem first_three (n : ℕ) (h : n < 0x10) :
    first (n + 0xE0) = (none, .inside n 2 (if n = 0 then 0xA0 else 0x80)
      (if n = 0xD then 0x9F else 0xBF)) := by
  unfold first
  rw [if_neg (by omega), if_neg (by omega), if_neg (by omega)]
  by_cases hzero : n = 0
  · subst hzero
    rfl
  · rw [if_neg (by omega), if_neg hzero]
    by_cases hsurrogate : n = 0xD
    · subst hsurrogate
      rfl
    · rw [if_neg (by omega), if_pos (by omega), if_neg hsurrogate, Nat.add_sub_cancel]

theorem first_four (n : ℕ) (h : n < 5) :
    first (n + 0xF0) = (none, .inside n 3 (if n = 0 then 0x90 else 0x80)
      (if n = 4 then 0x8F else 0xBF)) := by
  have hcases : n = 0 ∨ n = 1 ∨ n = 2 ∨ n = 3 ∨ n = 4 := by omega
  rcases hcases with rfl | rfl | rfl | rfl | rfl <;> rfl

/-- A character is decoded from its own bytes. -/
theorem lossyFrom_encodeChar (c : Char) (rest : Bytes) :
    lossyFrom .start (String.utf8EncodeChar c ++ rest) = c :: lossyFrom .start rest := by
  have hvalid : c.val.toNat < 0xD800 ∨ 0xDFFF < c.val.toNat ∧ c.val.toNat < 0x110000 := c.valid
  have hback : Char.ofNat c.val.toNat = c := Char.ofNat_toNat c
  unfold String.utf8EncodeChar
  generalize c.val.toNat = v at hvalid hback
  by_cases hone : v ≤ 0x7F
  · have hfirst : first v = (some (Char.ofNat v), .start) := if_pos (by omega)
    simp only [if_pos hone, List.cons_append, List.nil_append]
    rw [lossyFrom, toNat_byte (by omega), hfirst, hback]
    rfl
  · by_cases htwo : v ≤ 0x7FF
    · simp only [if_neg hone, if_pos htwo, List.cons_append, List.nil_append]
      have hlead : first (v / 64 % 0x20 + 0xC0) = (none, .inside (v / 64) 1 0x80 0xBF) := by
        rw [Nat.mod_eq_of_lt (by omega), first_two (v / 64) (by omega) (by omega)]
      have hvalue : v / 64 * 64 + (v % 0x40 + 0x80) % 64 = v := by omega
      rw [lossyFrom_first _ _ _ (by omega) hlead,
        lossyFrom_last _ _ _ _ _ (by omega) (by omega) (by omega), hvalue, hback]
    · by_cases hthree : v ≤ 0xFFFF
      · simp only [if_neg hone, if_neg htwo, if_pos hthree, List.cons_append, List.nil_append]
        have hlead := first_three (v / 4096) (by omega)
        rw [← Nat.mod_eq_of_lt (a := v / 4096) (b := 0x10) (by omega)] at hlead
        have hvalue : (v / 4096 % 0x10 * 64 + (v / 64 % 0x40 + 0x80) % 64) * 64 +
            (v % 0x40 + 0x80) % 64 = v := by omega
        rw [lossyFrom_first _ _ _ (by omega) hlead,
          lossyFrom_continue _ 0 _ _ _ _ (by split <;> omega) (by split <;> omega) (by omega),
          lossyFrom_last _ _ _ _ _ (by omega) (by omega) (by omega), hvalue, hback]
      · simp only [if_neg hone, if_neg htwo, if_neg hthree, List.cons_append, List.nil_append]
        have hlead := first_four (v / 262144) (by omega)
        rw [← Nat.mod_eq_of_lt (a := v / 262144) (b := 0x08) (by omega)] at hlead
        have hvalue : ((v / 262144 % 0x08 * 64 + (v / 4096 % 0x40 + 0x80) % 64) * 64 +
            (v / 64 % 0x40 + 0x80) % 64) * 64 + (v % 0x40 + 0x80) % 64 = v := by omega
        rw [lossyFrom_first _ _ _ (by omega) hlead,
          lossyFrom_continue _ 1 _ _ _ _ (by split <;> omega) (by split <;> omega) (by omega),
          lossyFrom_continue _ 0 _ _ _ _ (by omega) (by omega) (by omega),
          lossyFrom_last _ _ _ _ _ (by omega) (by omega) (by omega), hvalue, hback]

theorem lossyFrom_encodeChars (chars : List Char) :
    lossyFrom .start (encodeChars chars) = chars := by
  induction chars with
  | nil => rfl
  | cons c rest ih =>
    rw [encodeChars, List.flatMap_cons, lossyFrom_encodeChar]
    exact congrArg (List.cons c) ih

/-- Well-formed text is decoded without replacement. -/
@[simp] theorem decodeLossy_encode (text : String) : decodeLossy (encode text) = text := by
  have hchars := encode_ofList text.toList
  rw [String.ofList_toList] at hchars
  rw [decodeLossy, hchars, lossyFrom_encodeChars, String.ofList_toList]

example : decodeLossy [0x61, 0xE2, 0x82, 0xAC, 0xF0, 0x9F, 0x62, 0xFF] =
    String.ofList ['a', Char.ofNat 0x20AC, replacement, 'b', replacement] := by decide

end WellFormed

section Counting

/-- What a character under way has read already is not zero, or will not be with its next
byte. -/
def Pending.Wide : Pending → Prop
  | .start => True
  | .inside bits missing low high =>
    0x80 ≤ low ∧ (1 ≤ bits ∨ (2 ≤ missing ∧ 0x81 ≤ low ∧ high ≤ 0xBF))

theorem first_wide (b : ℕ) : (first b).2.Wide := by
  unfold first
  split
  · trivial
  · split
    · trivial
    · split
      · exact ⟨by omega, Or.inl (by omega)⟩
      · split
        · exact ⟨by omega, Or.inr (by omega)⟩
        · split
          · exact ⟨by omega, Or.inl (by omega)⟩
          · split
            · exact ⟨by omega, Or.inl (by omega)⟩
            · split
              · exact ⟨by omega, Or.inr (by omega)⟩
              · split
                · exact ⟨by omega, Or.inl (by omega)⟩
                · split
                  · exact ⟨by omega, Or.inl (by omega)⟩
                  · trivial

/-- A number that is no character stands for the null character. -/
theorem toNat_ofNat (n : ℕ) : (Char.ofNat n).toNat = n ∨ (Char.ofNat n).toNat = 0 := by
  by_cases h : n.isValidChar
  · have hvalid : Char.ofNat n = Char.ofNatAux n h := dif_pos h
    rw [hvalid]
    exact Or.inl rfl
  · have hinvalid : Char.ofNat n = ⟨0, by decide⟩ := dif_neg h
    rw [hinvalid]
    exact Or.inr rfl

theorem ofNat_ne {c : Char} (hpos : 0 < c.toNat) (hlt : c.toNat < 64) {n : ℕ} (hn : 64 ≤ n) :
    Char.ofNat n ≠ c := by
  intro h
  subst h
  rcases toNat_ofNat n with heq | hzero <;> omega

theorem first_count {c : Char} (hpos : 0 < c.toNat) (hlt : c.toNat < 64) (b : ℕ) :
    (first b).1.toList.count c = if b = c.toNat then 1 else 0 := by
  have hreplacement : replacement ≠ c := ofNat_ne hpos hlt (by omega)
  by_cases hascii : b < 0x80
  · have hfirst : first b = (some (Char.ofNat b), .start) := if_pos hascii
    rw [hfirst]
    by_cases hsame : b = c.toNat
    · subst hsame
      simp
    · have hne : Char.ofNat b ≠ c := by
        intro h
        subst h
        rcases toNat_ofNat b with heq | hzero <;> omega
      simp [hsame, hne]
  · rw [if_neg (by omega), List.count_eq_zero]
    intro hmem
    have hout : ∀ d ∈ (first b).1.toList, d = replacement := by
      intro d hd
      unfold first at hd
      rw [if_neg hascii] at hd
      repeat' split at hd
      all_goals simp_all
    exact hreplacement (hout c hmem).symm

/-- Among the characters that come out there are as many of an ASCII sign as bytes went in. -/
theorem lossyFrom_count {c : Char} (hpos : 0 < c.toNat) (hlt : c.toNat < 64) (bytes : Bytes)
    (pending : Pending) (hwide : pending.Wide) :
    (lossyFrom pending bytes).count c = bytes.countP (fun b => b.toNat = c.toNat) := by
  have hreplacement : replacement ≠ c := ofNat_ne hpos hlt (by omega)
  induction bytes generalizing pending with
  | nil =>
    cases pending with
    | start => rfl
    | inside bits missing low high => simp [lossyFrom, hreplacement]
  | cons b rest ih =>
    have hfresh : ((first b.toNat).1.toList ++ lossyFrom (first b.toNat).2 rest).count c =
        (b :: rest).countP (fun b => b.toNat = c.toNat) := by
      rw [List.count_append, first_count hpos hlt, ih _ (first_wide b.toNat), List.countP_cons,
        Nat.add_comm]
      simp
    cases pending with
    | start => rw [lossyFrom, hfresh]
    | inside bits missing low high =>
      obtain ⟨hlow, hbits⟩ := hwide
      rw [lossyFrom]
      by_cases hin : low ≤ b.toNat ∧ b.toNat ≤ high
      · have hother : ¬ b.toNat = c.toNat := by omega
        rw [if_pos hin, List.countP_cons_of_neg (by simpa using hother)]
        split
        · rw [List.count_cons, if_neg, ih .start trivial, Nat.add_zero]
          have hne := ofNat_ne (n := bits * 64 + b.toNat % 64) hpos hlt (by omega)
          simpa using hne
        · exact ih _ ⟨by omega, Or.inl (by omega)⟩
      · rw [if_neg hin, List.count_cons, if_neg (by simpa using hreplacement), hfresh, Nat.add_zero]

end Counting

section Prefixes

/-- What is decoded is encoded as it was. -/
theorem encode_of_decode {bytes : Bytes} {text : String} (h : decode bytes = some text) :
    encode text = bytes := by
  unfold decode String.fromUTF8? at h
  split at h
  · cases h
    rfl
  · cases h

theorem encode_eq_encodeChars (text : String) : encode text = encodeChars text.toList := by
  rw [← encode_ofList, String.ofList_toList]

/-- A part of an encoding that is well-formed encodes a part of the characters. -/
theorem prefix_of_encodeChars {chars others : List Char}
    (h : encodeChars chars <+: encodeChars others) : chars <+: others := by
  obtain ⟨back, hback⟩ := h
  induction chars generalizing others with
  | nil => exact List.nil_prefix
  | cons c chars ih =>
    rw [encodeChars, List.flatMap_cons, List.append_assoc] at hback
    have hfirst := lossyFrom_encodeChar c (encodeChars chars ++ back)
    cases others with
    | nil =>
      have hlength := congrArg List.length hback
      rw [List.length_append, String.length_utf8EncodeChar] at hlength
      have hpos := c.utf8Size_pos
      have hzero : (encodeChars []).length = 0 := rfl
      omega
    | cons d others =>
      rw [encodeChars, List.flatMap_cons] at hback
      have hsecond := lossyFrom_encodeChar d (encodeChars others)
      rw [encodeChars] at hfirst hsecond
      rw [hback, hsecond] at hfirst
      obtain ⟨rfl, -⟩ := List.cons.inj hfirst
      exact List.cons_prefix_cons.mpr ⟨rfl, ih (List.append_cancel_left hback)⟩

theorem byte_not_mem_encodeChars {c : Char} (hpos : 0 < c.toNat) (hlt : c.toNat < 64)
    {chars : List Char} (h : c ∉ chars) : ∀ b ∈ encodeChars chars, b.toNat ≠ c.toNat := by
  have hcount := lossyFrom_count hpos hlt (encodeChars chars) .start trivial
  rw [lossyFrom_encodeChars, List.count_eq_zero_of_not_mem h] at hcount
  intro b hb hbyte
  have hnone := List.countP_eq_zero.mp hcount.symm b hb
  exact hnone (decide_eq_true hbyte)

end Prefixes

end Utf8

end StuntDouble
