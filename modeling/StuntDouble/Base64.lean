import StuntDouble.Utf8

/-!
Base64 with the standard alphabet and padding. Three bytes are a number of 24 bits and four
letters of 6 bits each; a last group of one or two bytes is filled up with zero bits, and its
missing letters are padding. The strict decoder takes canonical texts only.
-/
namespace StuntDouble.Base64

def alphabet : List Char :=
  "ABCDEFGHIJKLMNOPQRSTUVWXYZabcdefghijklmnopqrstuvwxyz0123456789+/".toList

def pad : Char := '='

def letter (value : ℕ) : Char := alphabet.getD value pad

def valueOf (c : Char) : Option ℕ := alphabet.idxOf? c

/-- The number that three bytes are together. -/
def number (a b c : UInt8) : ℕ := a.toNat * 65536 + b.toNat * 256 + c.toNat

/-- The four letters of a number of 24 bits. -/
def letters (n : ℕ) : List Char :=
  [letter (n / 262144), letter (n / 4096 % 64), letter (n / 64 % 64), letter (n % 64)]

def encode : Bytes → List Char
  | [] => []
  | [a] => (letters (number a 0 0)).take 2 ++ [pad, pad]
  | [a, b] => (letters (number a b 0)).take 3 ++ [pad]
  | a :: b :: c :: rest => letters (number a b c) ++ encode rest

/-- The number that four letters are together; a character that is no letter counts as zero. -/
def joined (c₀ c₁ c₂ c₃ : Char) : ℕ :=
  (valueOf c₀).getD 0 * 262144 + (valueOf c₁).getD 0 * 4096 + (valueOf c₂).getD 0 * 64 +
    (valueOf c₃).getD 0

def octets (n : ℕ) : Bytes := [UInt8.ofNat (n / 65536), UInt8.ofNat (n / 256), UInt8.ofNat n]

/-- The bytes of a canonical text. -/
def read : List Char → Bytes
  | c₀ :: c₁ :: c₂ :: c₃ :: rest =>
    if c₂ = pad then (octets (joined c₀ c₁ c₂ c₃)).take 1
    else if c₃ = pad then (octets (joined c₀ c₁ c₂ c₃)).take 2
    else octets (joined c₀ c₁ c₂ c₃) ++ read rest
  | _ => []

/-- Strict decoding. -/
def decode (text : List Char) : Option Bytes :=
  if encode (read text) = text then some (read text) else none

section Alphabet

theorem valueOf_letter {value : ℕ} (h : value < 64) : valueOf (letter value) = some value := by
  have hall : ∀ value < 64, valueOf (letter value) = some value := by decide
  exact hall value h

@[simp] theorem valueOf_pad : valueOf pad = none := by decide

theorem letter_ne_pad {value : ℕ} (h : value < 64) : letter value ≠ pad := by
  intro hpad
  have hvalue := valueOf_letter h
  rw [hpad, valueOf_pad] at hvalue
  cases hvalue

end Alphabet

section Groups

theorem number_lt (a b c : UInt8) : number a b c < 16777216 := by
  have ha := a.toNat_lt
  have hb := b.toNat_lt
  have hc := c.toNat_lt
  unfold number
  omega

/-- The bytes of a number are read back from it. -/
theorem number_octets (a b c : UInt8) :
    UInt8.ofNat (number a b c / 65536) = a ∧ UInt8.ofNat (number a b c / 256) = b ∧
      UInt8.ofNat (number a b c) = c := by
  have hb := b.toNat_lt
  have hc := c.toNat_lt
  have hbyte (x : UInt8) (n : ℕ) (h : n % 256 = x.toNat) : UInt8.ofNat n = x := by
    rw [← UInt8.toNat_inj, UInt8.toNat_ofNat']
    exact h
  have ha := a.toNat_lt
  unfold number
  exact ⟨hbyte a _ (by omega), hbyte b _ (by omega), hbyte c _ (by omega)⟩

theorem octets_number (a b c : UInt8) : octets (number a b c) = [a, b, c] := by
  obtain ⟨ha, hb, hc⟩ := number_octets a b c
  rw [octets, ha, hb, hc]

/-- The letters of a number are read back as the number. -/
theorem joined_letters {n : ℕ} (h : n < 16777216) :
    joined (letter (n / 262144)) (letter (n / 4096 % 64)) (letter (n / 64 % 64))
      (letter (n % 64)) = n := by
  unfold joined
  rw [valueOf_letter (by omega), valueOf_letter (by omega), valueOf_letter (by omega),
    valueOf_letter (by omega)]
  simp only [Option.getD_some]
  omega

theorem pad_counts_zero : (valueOf pad).getD 0 = (valueOf (letter 0)).getD 0 := by decide

/-- A group of one byte, whose missing letters would be zero. -/
theorem joined_one (a : UInt8) :
    joined (letter (number a 0 0 / 262144)) (letter (number a 0 0 / 4096 % 64)) pad pad =
      number a 0 0 := by
  have hthird : number a 0 0 / 64 % 64 = 0 := by
    simp only [number, UInt8.toNat_zero]
    omega
  have hlast : number a 0 0 % 64 = 0 := by
    simp only [number, UInt8.toNat_zero]
    omega
  have hall := joined_letters (number_lt a 0 0)
  rw [hthird, hlast] at hall
  unfold joined at hall ⊢
  rw [pad_counts_zero]
  exact hall

theorem joined_two (a b : UInt8) :
    joined (letter (number a b 0 / 262144)) (letter (number a b 0 / 4096 % 64))
      (letter (number a b 0 / 64 % 64)) pad = number a b 0 := by
  have hlast : number a b 0 % 64 = 0 := by
    simp only [number, UInt8.toNat_zero]
    omega
  have hall := joined_letters (number_lt a b 0)
  rw [hlast] at hall
  unfold joined at hall ⊢
  rw [pad_counts_zero]
  exact hall

end Groups

theorem read_encode (bytes : Bytes) : read (encode bytes) = bytes := by
  fun_induction encode bytes with
  | case1 => rfl
  | case2 a =>
    have hpad : read ((letters (number a 0 0)).take 2 ++ [pad, pad]) =
        (octets (joined (letter (number a 0 0 / 262144)) (letter (number a 0 0 / 4096 % 64))
          pad pad)).take 1 := rfl
    rw [hpad, joined_one, octets_number]
    rfl
  | case3 a b =>
    have hne := letter_ne_pad (Nat.mod_lt (number a b 0 / 64) (by decide : 0 < 64))
    have hpad : read ((letters (number a b 0)).take 3 ++ [pad]) =
        (octets (joined (letter (number a b 0 / 262144)) (letter (number a b 0 / 4096 % 64))
          (letter (number a b 0 / 64 % 64)) pad)).take 2 := by
      change read [_, _, _, _] = _
      rw [read, if_neg hne, if_pos rfl]
    rw [hpad, joined_two, octets_number]
    rfl
  | case4 a b c rest ih =>
    have hthird := letter_ne_pad (Nat.mod_lt (number a b c / 64) (by decide : 0 < 64))
    have hlast := letter_ne_pad (Nat.mod_lt (number a b c) (by decide : 0 < 64))
    change read (_ :: _ :: _ :: _ :: encode rest) = _
    rw [read, if_neg hthird, if_neg hlast, joined_letters (number_lt a b c), octets_number, ih]
    rfl

section Unpadded

/-- The letters without the padding. -/
def body : Bytes → List Char
  | [] => []
  | [a] => (letters (number a 0 0)).take 2
  | [a, b] => (letters (number a b 0)).take 3
  | a :: b :: c :: rest => letters (number a b c) ++ body rest

theorem encode_body (bytes : Bytes) :
    ∃ count, encode bytes = body bytes ++ List.replicate count pad := by
  fun_induction encode bytes with
  | case1 => exact ⟨0, rfl⟩
  | case2 a => exact ⟨2, rfl⟩
  | case3 a b => exact ⟨1, rfl⟩
  | case4 a b c rest ih =>
    obtain ⟨count, hrest⟩ := ih
    refine ⟨count, ?_⟩
    rw [hrest, body, List.append_assoc]

theorem pad_not_mem_body (bytes : Bytes) : pad ∉ body bytes := by
  have hletters (a b c : UInt8) : pad ∉ letters (number a b c) := by
    have hlt := number_lt a b c
    simp only [letters, List.mem_cons, List.not_mem_nil, or_false, not_or]
    exact ⟨(letter_ne_pad (by omega)).symm, (letter_ne_pad (by omega)).symm,
      (letter_ne_pad (by omega)).symm, (letter_ne_pad (by omega)).symm⟩
  fun_induction body bytes with
  | case1 => simp
  | case2 a => exact fun hmem => hletters a 0 0 (List.mem_of_mem_take hmem)
  | case3 a b => exact fun hmem => hletters a b 0 (List.mem_of_mem_take hmem)
  | case4 a b c rest ih =>
    rw [List.mem_append]
    exact fun hmem => hmem.elim (hletters a b c) ih

/-- Four letters for three bytes, rounded up. -/
theorem body_length (bytes : Bytes) : (body bytes).length = (bytes.length * 4 + 2) / 3 := by
  fun_induction body bytes with
  | case1 => rfl
  | case2 a => simp [letters]
  | case3 a b => simp [letters]
  | case4 a b c rest ih =>
    rw [List.length_append, ih]
    simp only [letters, List.length_cons, List.length_nil]
    omega

end Unpadded

/-- The strict decoder takes the canonical text of each byte sequence, and nothing else. -/
theorem decode_eq_some (text : List Char) (bytes : Bytes) :
    decode text = some bytes ↔ text = encode bytes := by
  unfold decode
  constructor
  · intro h
    split at h
    · cases h
      exact Eq.symm ‹_›
    · cases h
  · rintro rfl
    rw [read_encode, if_pos rfl]

end StuntDouble.Base64
