import StuntDouble.Matcher

/-!
Percent decoding against its reference: from left to right, a percent sign that two
hexadecimal digits follow stands for one byte, and every other byte for itself. The
program reads the two bytes as an integer, which may begin with a plus sign.
-/
namespace StuntDouble.Matcher

/-- The reference decoder. -/
def decodeEscapes : Bytes → Bytes
  | 37 :: b :: c :: rest =>
    match hexDigit b, hexDigit c with
    | some high, some low => UInt8.ofNat (high * 16 + low) :: decodeEscapes rest
    | _, _ => 37 :: decodeEscapes (b :: c :: rest)
  | other :: rest => other :: decodeEscapes rest
  | [] => []

/-- Somewhere a percent sign is followed by a plus sign and a hexadecimal digit. -/
def SignedEscape (bytes : Bytes) : Prop :=
  ∃ front digit back, bytes = front ++ 37 :: 43 :: digit :: back ∧ (hexDigit digit).isSome = true

theorem percentDecodeBytes_other (b : UInt8) (rest : Bytes) (h : b ≠ 37) :
    percentDecodeBytes (b :: rest) = b :: percentDecodeBytes rest := by
  rw [percentDecodeBytes]
  intro _ _ _ hpercent
  exact absurd hpercent h

theorem percentDecodeBytes_append (bytes rest : Bytes) (h : ∀ b ∈ bytes, b ≠ 37) :
    percentDecodeBytes (bytes ++ rest) = bytes ++ percentDecodeBytes rest := by
  induction bytes with
  | nil => rfl
  | cons b more ih =>
    rw [List.cons_append, percentDecodeBytes_other b _ (h b (by simp)),
      ih (fun c hc => h c (by simp [hc])), List.cons_append]

theorem percentDecodeBytes_escape (b c : UInt8) (rest : Bytes) (high low : ℕ)
    (hb : hexDigit b = some high) (hc : hexDigit c = some low) :
    percentDecodeBytes (37 :: b :: c :: rest) =
      UInt8.ofNat (high * 16 + low) :: percentDecodeBytes rest := by
  rw [percentDecodeBytes, fromHex, hb, hc]

theorem decodeEscapes_other (b : UInt8) (rest : Bytes) (h : b ≠ 37) :
    decodeEscapes (b :: rest) = b :: decodeEscapes rest := by
  rw [decodeEscapes]
  intro _ _ _ hpercent
  exact absurd hpercent h

section Digits

theorem hexDigit_bounds {b : UInt8} {value : ℕ} (h : hexDigit b = some value) :
    value < 16 ∧ b ≠ 37 ∧ b ≠ 43 := by
  unfold hexDigit at h
  refine ⟨?_, ?_, ?_⟩
  · split at h
    · obtain rfl := Option.some.inj h
      omega
    · split at h
      · obtain rfl := Option.some.inj h
        omega
      · split at h
        · obtain rfl := Option.some.inj h
          omega
        · contradiction
  · rintro rfl
    contradiction
  · rintro rfl
    contradiction

/-- What two bytes stand for: both are digits, or a plus sign stands before one. -/
theorem fromHex_eq_some {b c : UInt8} {value : ℕ} (h : fromHex b c = some value) :
    (∃ high low, hexDigit b = some high ∧ hexDigit c = some low ∧ value = high * 16 + low) ∨
      (b = 43 ∧ hexDigit c = some value) := by
  unfold fromHex at h
  cases hb : hexDigit b with
  | some high =>
    cases hc : hexDigit c with
    | some low =>
      simp only [hb, hc, Option.some.injEq] at h
      exact Or.inl ⟨high, low, rfl, rfl, h.symm⟩
    | none =>
      simp only [hb, hc] at h
      contradiction
  | none =>
    cases hc : hexDigit c with
    | some low =>
      simp only [hb, hc] at h
      by_cases hplus : b = 43
      · rw [if_pos hplus] at h
        exact Or.inr ⟨hplus, h⟩
      · rw [if_neg hplus] at h
        contradiction
    | none =>
      simp only [hb, hc] at h
      contradiction

theorem fromHex_eq_none {b c : UInt8} (h : fromHex b c = none) :
    (hexDigit b = none ∨ hexDigit c = none) ∧ ¬ (b = 43 ∧ (hexDigit c).isSome = true) := by
  unfold fromHex at h
  cases hb : hexDigit b with
  | some high =>
    cases hc : hexDigit c with
    | some low =>
      simp only [hb, hc] at h
      contradiction
    | none => simp
  | none =>
    cases hc : hexDigit c with
    | some low =>
      simp only [hb, hc] at h
      by_cases hplus : b = 43
      · rw [if_pos hplus] at h
        contradiction
      · simp [hplus]
    | none => simp

end Digits

section Escapes

theorem signedEscape_cons (b : UInt8) (rest : Bytes) :
    SignedEscape (b :: rest) ↔
      (b = 37 ∧ ∃ digit back, rest = 43 :: digit :: back ∧ (hexDigit digit).isSome = true) ∨
        SignedEscape rest := by
  constructor
  · intro h
    obtain ⟨front, digit, back, heq, hdigit⟩ := h
    cases front with
    | nil =>
      obtain ⟨rfl, rfl⟩ := List.cons.inj heq
      exact Or.inl ⟨rfl, digit, back, rfl, hdigit⟩
    | cons first front =>
      obtain ⟨rfl, rfl⟩ := List.cons.inj heq
      exact Or.inr ⟨front, digit, back, rfl, hdigit⟩
  · intro h
    rcases h with ⟨rfl, digit, back, rfl, hdigit⟩ | ⟨front, digit, back, rfl, hdigit⟩
    · exact ⟨[], digit, back, rfl, hdigit⟩
    · exact ⟨b :: front, digit, back, rfl, hdigit⟩

theorem signedEscape_other (b : UInt8) (rest : Bytes) (h : b ≠ 37) :
    SignedEscape (b :: rest) ↔ SignedEscape rest := by
  rw [signedEscape_cons]
  simp [h]

/-- An escape that is read does not hide another one: its digits are no percent signs. -/
theorem signedEscape_escape {b c : UInt8} {high low : ℕ} (rest : Bytes)
    (hb : hexDigit b = some high) (hc : hexDigit c = some low) :
    SignedEscape (37 :: b :: c :: rest) ↔ SignedEscape rest := by
  obtain ⟨-, hb37, hb43⟩ := hexDigit_bounds hb
  obtain ⟨-, hc37, -⟩ := hexDigit_bounds hc
  rw [signedEscape_cons, signedEscape_other b _ hb37, signedEscape_other c _ hc37]
  simp [hb43]

theorem signedEscape_plain {b c : UInt8} (rest : Bytes)
    (h : ¬ (b = 43 ∧ (hexDigit c).isSome = true)) :
    SignedEscape (37 :: b :: c :: rest) ↔ SignedEscape (b :: c :: rest) := by
  rw [signedEscape_cons]
  constructor
  · intro hescape
    rcases hescape with ⟨-, digit, back, heq, hdigit⟩ | hrest
    · simp only [List.cons.injEq] at heq
      obtain ⟨rfl, rfl, rfl⟩ := heq
      exact absurd ⟨rfl, hdigit⟩ h
    · exact hrest
  · exact Or.inr

end Escapes

section Counting

/-- The percent signs among some bytes. -/
def percents (bytes : Bytes) : ℕ := bytes.countP (fun b => b.toNat = '%'.toNat)

theorem percents_cons (b : UInt8) (rest : Bytes) :
    percents (b :: rest) = percents rest + if b = 37 then 1 else 0 := by
  have hbyte : b.toNat = '%'.toNat ↔ b = 37 := by
    rw [← UInt8.toNat_inj]
    rfl
  unfold percents
  simp only [List.countP_cons, hbyte, decide_eq_true_eq]

/-- What the program and the reference put out for some bytes: the same where no escape has a
plus sign, and where one has, the reference keeps a percent sign more. -/
structure Beside (bytes program reference : Bytes) : Prop where
  same : ¬ SignedEscape bytes → program = reference
  fewer : percents program ≤ percents reference
  lost : SignedEscape bytes → percents program < percents reference

theorem Beside.cons {bytes rest program reference : Bytes} (h : Beside rest program reference)
    (b : UInt8) (hescape : SignedEscape bytes ↔ SignedEscape rest) :
    Beside bytes (b :: program) (b :: reference) := by
  have hfewer := h.fewer
  refine ⟨?_, ?_, ?_⟩
  · intro hplain
    rw [h.same (fun hrest => hplain (hescape.mpr hrest))]
  · rw [percents_cons, percents_cons]
    omega
  · intro hsigned
    have hlost := h.lost (hescape.mp hsigned)
    rw [percents_cons, percents_cons]
    omega

/-- The program decodes an escape with a plus sign, which the reference copies. -/
theorem Beside.signed {c : UInt8} {rest : Bytes} {value : ℕ} (hdigit : hexDigit c = some value)
    (h : Beside rest (percentDecodeBytes rest) (decodeEscapes rest)) :
    Beside (37 :: 43 :: c :: rest) (UInt8.ofNat value :: percentDecodeBytes rest)
      (decodeEscapes (37 :: 43 :: c :: rest)) := by
  have hfewer := h.fewer
  obtain ⟨hsmall, hpercent, -⟩ := hexDigit_bounds hdigit
  have hescape : SignedEscape (37 :: 43 :: c :: rest) :=
    ⟨[], c, rest, rfl, by rw [hdigit]; rfl⟩
  have href : decodeEscapes (37 :: 43 :: c :: rest) = 37 :: 43 :: c :: decodeEscapes rest := by
    rw [decodeEscapes, decodeEscapes_other 43 _ (by decide), decodeEscapes_other c _ hpercent]
    rfl
  have hother : UInt8.ofNat value ≠ 37 := by
    intro hvalue
    have hnat := congrArg UInt8.toNat hvalue
    rw [Utf8.toNat_byte (by omega)] at hnat
    simp at hnat
    omega
  have hmore : percents (UInt8.ofNat value :: percentDecodeBytes rest) <
      percents (decodeEscapes (37 :: 43 :: c :: rest)) := by
    rw [href, percents_cons, percents_cons, percents_cons, percents_cons, if_neg hother,
      if_pos rfl, if_neg hpercent, if_neg (show (43 : UInt8) ≠ 37 by decide)]
    omega
  exact ⟨fun hplain => absurd hescape hplain, Nat.le_of_lt hmore, fun _ => hmore⟩

theorem decode_beside (bytes : Bytes) :
    Beside bytes (percentDecodeBytes bytes) (decodeEscapes bytes) := by
  fun_induction percentDecodeBytes bytes with
  | case1 b c rest value hvalue ih =>
    rcases fromHex_eq_some hvalue with ⟨high, low, hb, hc, rfl⟩ | ⟨rfl, hc⟩
    · have href : decodeEscapes (37 :: b :: c :: rest) =
          UInt8.ofNat (high * 16 + low) :: decodeEscapes rest := by
        rw [decodeEscapes, hb, hc]
      rw [href]
      exact ih.cons _ (signedEscape_escape rest hb hc)
    · exact ih.signed hc
  | case2 b c rest hvalue ih =>
    obtain ⟨hdigits, hplus⟩ := fromHex_eq_none hvalue
    have href : decodeEscapes (37 :: b :: c :: rest) = 37 :: decodeEscapes (b :: c :: rest) := by
      rw [decodeEscapes]
      rcases hdigits with hb | hc
      · rw [hb]
      · rw [hc]
        cases hexDigit b <;> rfl
    rw [href]
    exact ih.cons 37 (signedEscape_plain rest hplus)
  | case3 b rest hother ih =>
    have href : decodeEscapes (b :: rest) = b :: decodeEscapes rest := by
      rw [decodeEscapes]
      exact hother
    have hescape : SignedEscape (b :: rest) ↔ SignedEscape rest := by
      rw [signedEscape_cons]
      constructor
      · intro h
        rcases h with ⟨hb, digit, back, hrest, -⟩ | hrest
        · exact absurd hrest (fun hrest => hother 43 digit back hb hrest)
        · exact hrest
      · exact Or.inr
    rw [href]
    exact ih.cons b hescape
  | case4 =>
    refine ⟨fun _ => rfl, le_refl _, fun h => ?_⟩
    obtain ⟨front, digit, back, heq, -⟩ := h
    simp at heq

end Counting

/-- The program decodes as the reference does exactly when no percent sign is followed by a
plus sign and a hexadecimal digit. -/
theorem percentDecode_reference (bytes : Bytes) :
    percentDecode bytes = Utf8.decodeLossy (decodeEscapes bytes) ↔ ¬ SignedEscape bytes := by
  obtain ⟨hsame, -, hlost⟩ := decode_beside bytes
  constructor
  · intro h hescape
    have hchars : Utf8.lossyFrom .start (percentDecodeBytes bytes) =
        Utf8.lossyFrom .start (decodeEscapes bytes) := by
      have htext := congrArg String.toList h
      simpa only [percentDecode, Utf8.decodeLossy, String.toList_ofList] using htext
    have hcount := congrArg (List.count '%') hchars
    rw [Utf8.lossyFrom_count (by decide) (by decide) _ .start trivial,
      Utf8.lossyFrom_count (by decide) (by decide) _ .start trivial] at hcount
    have hmore := hlost hescape
    unfold percents at hmore
    omega
  · intro h
    rw [percentDecode, hsame h]

/-- `%+5` is read as one byte. -/
theorem percentDecode_reference_plus :
    percentDecode [37, 43, 53] ≠ Utf8.decodeLossy (decodeEscapes [37, 43, 53]) := by
  decide

end StuntDouble.Matcher
