import StuntDouble.PercentDecoding
import StuntDouble.Ranges
import StuntDouble.Segments

/-!
Query strings. A list of names and values may be written in many ways: with more
separators than needed, with escapes in either case, and with characters that stand for
themselves. Whichever way it is written, parsing reads it back, and of several values of one
name it keeps the last.
-/
namespace StuntDouble.Script

open Matcher Files Segments

def plusToSpace (token : List Char) : List Char :=
  token.map (fun c => if c = '+' then ' ' else c)

/-- A name or a value as it stands in a query. -/
def decodeToken (token : List Char) : String :=
  percentDecode (Utf8.encodeChars (plusToSpace token))

def parsePair (pair : List Char) : String × String :=
  match splitOnce '=' pair with
  | some (key, value) => (decodeToken key, decodeToken value)
  | none => (decodeToken pair, decodeToken [])

def parseQuery (raw : String) : Params :=
  ((segments '&' raw.toList).map parsePair).foldl (fun map pair => map.insert pair.1 pair.2) ∅

section Encoding

/-- A hexadecimal digit in either case. -/
def HexChar (value : ℕ) (c : Char) : Prop :=
  "0123456789abcdef".toList[value]? = some c ∨ "0123456789ABCDEF".toList[value]? = some c

/-- Bytes written as escapes. -/
inductive EncodesBytes : Bytes → List Char → Prop
  | nil : EncodesBytes [] []
  | cons (b : UInt8) (rest : Bytes) (high low : Char) (text : List Char)
      (hhigh : HexChar (b.toNat / 16) high) (hlow : HexChar (b.toNat % 16) low)
      (hrest : EncodesBytes rest text) :
      EncodesBytes (b :: rest) ('%' :: high :: low :: text)

/-- A character written literally, as the escapes of its bytes, or a space as a plus sign. -/
inductive EncodesChar : Char → List Char → Prop
  | literal (c : Char) (h : c ∉ ['%', '&', '=', '+', ' ']) : EncodesChar c [c]
  | escaped (c : Char) (text : List Char) (h : EncodesBytes (String.utf8EncodeChar c) text) :
      EncodesChar c text
  | plus : EncodesChar ' ' ['+']

inductive EncodesText : List Char → List Char → Prop
  | nil : EncodesText [] []
  | cons (c : Char) (rest text more : List Char) (hchar : EncodesChar c text)
      (hrest : EncodesText rest more) : EncodesText (c :: rest) (text ++ more)

/-- A name and its value; without the equals sign when a name has an empty value. -/
inductive EncodesPair : String × String → List Char → Prop
  | full (name value : String) (key text : List Char) (hname : EncodesText name.toList key)
      (hvalue : EncodesText value.toList text) : EncodesPair (name, value) (key ++ '=' :: text)
  | bare (name : String) (key : List Char) (hne : name ≠ "")
      (hname : EncodesText name.toList key) : EncodesPair (name, "") key

/-- The pairs in order, with at least one separator between them and any number around them. -/
inductive EncodesQuery : List (String × String) → List Char → Prop
  | nil (n : ℕ) : EncodesQuery [] (List.replicate n '&')
  | last (pair : String × String) (text : List Char) (lead trail : ℕ)
      (hpair : EncodesPair pair text) :
      EncodesQuery [pair] (List.replicate lead '&' ++ (text ++ List.replicate trail '&'))
  | cons (pair next : String × String) (rest : List (String × String)) (text more : List Char)
      (lead : ℕ) (hpair : EncodesPair pair text) (hrest : EncodesQuery (next :: rest) more) :
      EncodesQuery (pair :: next :: rest) (List.replicate lead '&' ++ (text ++ '&' :: more))

end Encoding

/-- The value of the last occurrence of a name. -/
def LastValue (pairs : List (String × String)) (name value : String) : Prop :=
  ∃ front back, pairs = front ++ (name, value) :: back ∧ ∀ pair ∈ back, pair.1 ≠ name

section Tokens

theorem hexChar_spec {value : ℕ} {c : Char} (h : HexChar value c) :
    c.toNat < 128 ∧ c ∉ ['%', '&', '=', '+', ' '] ∧
      hexDigit (UInt8.ofNat c.toNat) = some value := by
  unfold HexChar at h
  have hvalue : value < 16 := by
    rcases h with h | h
    · exact (List.getElem?_eq_some_iff.mp h).1
    · exact (List.getElem?_eq_some_iff.mp h).1
  have hall : ∀ value < 16, ∀ text ∈ ["0123456789abcdef".toList, "0123456789ABCDEF".toList],
      (text[value]?).all (fun c => decide (c.toNat < 128 ∧ c ∉ ['%', '&', '=', '+', ' '] ∧
        hexDigit (UInt8.ofNat c.toNat) = some value)) = true := by decide
  rcases h with h | h
  · have hdigit := hall value hvalue _ (List.mem_cons_self)
    rw [h] at hdigit
    simpa using hdigit
  · have hdigit := hall value hvalue "0123456789ABCDEF".toList (by simp)
    rw [h] at hdigit
    simpa using hdigit

/-- The single byte of an ASCII character. -/
theorem encodeChars_ascii (c : Char) (rest : List Char) (h : c.toNat < 128) :
    Utf8.encodeChars (c :: rest) = UInt8.ofNat c.toNat :: Utf8.encodeChars rest := by
  have hone : c.val.toNat ≤ 0x7f := by
    have hval : c.val.toNat = c.toNat := rfl
    omega
  unfold Utf8.encodeChars
  rw [List.flatMap_cons, String.utf8EncodeChar]
  simp only [if_pos hone]
  rfl

/-- The bytes of a character hold a percent sign only if it is one. -/
theorem percent_not_mem {c : Char} (h : c ≠ '%') : ∀ b ∈ String.utf8EncodeChar c, b ≠ 37 := by
  have hne : c.val.toNat ≠ 37 := fun hsame => h (Char.toNat_inj.mp hsame)
  intro b hb hpercent
  subst hpercent
  have hnat : ∀ n, (37 : UInt8) = UInt8.ofNat n → n % 256 = 37 := by
    intro n hn
    have htoNat := congrArg UInt8.toNat hn
    rw [UInt8.toNat_ofNat'] at htoNat
    exact htoNat.symm
  unfold String.utf8EncodeChar at hb
  simp only at hb
  split at hb
  · have hone := hnat _ (List.mem_singleton.mp hb)
    omega
  · split at hb
    · simp only [List.mem_cons, List.not_mem_nil, or_false] at hb
      rcases hb with hb | hb
      · have hlead := hnat _ hb
        omega
      · have hlast := hnat _ hb
        omega
    · split at hb
      · simp only [List.mem_cons, List.not_mem_nil, or_false] at hb
        rcases hb with hb | hb | hb
        · have hlead := hnat _ hb
          omega
        · have hmiddle := hnat _ hb
          omega
        · have hlast := hnat _ hb
          omega
      · simp only [List.mem_cons, List.not_mem_nil, or_false] at hb
        rcases hb with hb | hb | hb | hb
        · have hlead := hnat _ hb
          omega
        · have hsecond := hnat _ hb
          omega
        · have hthird := hnat _ hb
          omega
        · have hlast := hnat _ hb
          omega

theorem decode_bytes {bytes : Bytes} {text : List Char} (h : EncodesBytes bytes text)
    (rest : List Char) :
    percentDecodeBytes (Utf8.encodeChars (plusToSpace text ++ rest)) =
      bytes ++ percentDecodeBytes (Utf8.encodeChars rest) := by
  induction h with
  | nil => rfl
  | cons b bytes high low text hhigh hlow _ ih =>
    obtain ⟨hhighAscii, hhighPlain, hhighDigit⟩ := hexChar_spec hhigh
    obtain ⟨hlowAscii, hlowPlain, hlowDigit⟩ := hexChar_spec hlow
    have hhighSame : high ≠ '+' := by
      rintro rfl
      simp at hhighPlain
    have hlowSame : low ≠ '+' := by
      rintro rfl
      simp at hlowPlain
    have hspaced : plusToSpace ('%' :: high :: low :: text) =
        '%' :: high :: low :: plusToSpace text := by
      simp [plusToSpace, hhighSame, hlowSame]
    have hbyte : UInt8.ofNat (b.toNat / 16 * 16 + b.toNat % 16) = b := by
      rw [Nat.div_add_mod', UInt8.ofNat_toNat]
    rw [hspaced, List.cons_append, List.cons_append, List.cons_append,
      encodeChars_ascii '%' _ (by decide), encodeChars_ascii high _ hhighAscii,
      encodeChars_ascii low _ hlowAscii]
    rw [show UInt8.ofNat '%'.toNat = 37 from rfl,
      percentDecodeBytes_escape _ _ _ _ _ hhighDigit hlowDigit, ih, hbyte, List.cons_append]

theorem decode_char {c : Char} {text : List Char} (h : EncodesChar c text) (rest : List Char) :
    percentDecodeBytes (Utf8.encodeChars (plusToSpace text ++ rest)) =
      String.utf8EncodeChar c ++ percentDecodeBytes (Utf8.encodeChars rest) := by
  cases h with
  | literal _ hplain =>
    have hpercent : c ≠ '%' := by
      rintro rfl
      simp at hplain
    have hplus : c ≠ '+' := by
      rintro rfl
      simp at hplain
    have hspaced : plusToSpace [c] = [c] := by simp [plusToSpace, hplus]
    rw [hspaced, List.singleton_append, Utf8.encodeChars, List.flatMap_cons,
      percentDecodeBytes_append _ _ (percent_not_mem hpercent)]
    rfl
  | escaped _ _ hbytes => exact decode_bytes hbytes rest
  | plus =>
    have hspaced : plusToSpace ['+'] = [' '] := rfl
    rw [hspaced, List.singleton_append, encodeChars_ascii ' ' _ (by decide),
      percentDecodeBytes_other _ _ (by decide)]
    rfl

/-- A token is read back, however it was written. -/
theorem decodeToken_text {chars text : List Char} (h : EncodesText chars text) :
    decodeToken text = String.ofList chars := by
  have hbytes : ∀ rest, percentDecodeBytes (Utf8.encodeChars (plusToSpace text ++ rest)) =
      Utf8.encodeChars chars ++ percentDecodeBytes (Utf8.encodeChars rest) := by
    induction h with
    | nil => exact fun rest => rfl
    | cons c chars text more hchar _ ih =>
      intro rest
      have hspaced : plusToSpace (text ++ more) = plusToSpace text ++ plusToSpace more :=
        List.map_append
      have hcons : Utf8.encodeChars (c :: chars) =
          String.utf8EncodeChar c ++ Utf8.encodeChars chars := List.flatMap_cons
      rw [hspaced, List.append_assoc, decode_char hchar, ih, hcons, List.append_assoc]
  have hall := hbytes []
  rw [List.append_nil] at hall
  rw [decodeToken, percentDecode, hall, Utf8.decodeLossy]
  simp only [Utf8.encodeChars, List.flatMap_nil, percentDecodeBytes, List.append_nil]
  exact congrArg String.ofList (Utf8.lossyFrom_encodeChars chars)

end Tokens

section Separators

theorem bytes_plain {bytes : Bytes} {text : List Char} (h : EncodesBytes bytes text) :
    '&' ∉ text ∧ '=' ∉ text := by
  induction h with
  | nil => simp
  | cons b bytes high low text hhigh hlow _ ih =>
    obtain ⟨-, hhighPlain, -⟩ := hexChar_spec hhigh
    obtain ⟨-, hlowPlain, -⟩ := hexChar_spec hlow
    simp only [List.mem_cons, not_or] at hhighPlain hlowPlain ⊢
    refine ⟨⟨by decide, ?_, ?_, ih.1⟩, by decide, ?_, ?_, ih.2⟩
    · exact Ne.symm hhighPlain.2.1
    · exact Ne.symm hlowPlain.2.1
    · exact Ne.symm hhighPlain.2.2.1
    · exact Ne.symm hlowPlain.2.2.1

theorem char_plain {c : Char} {text : List Char} (h : EncodesChar c text) :
    '&' ∉ text ∧ '=' ∉ text ∧ text ≠ [] := by
  cases h with
  | literal _ hplain =>
    simp only [List.mem_cons, not_or] at hplain
    simp only [List.mem_singleton]
    exact ⟨Ne.symm hplain.2.1, Ne.symm hplain.2.2.1, by simp⟩
  | escaped _ _ hbytes =>
    obtain ⟨hamp, heq⟩ := bytes_plain hbytes
    refine ⟨hamp, heq, ?_⟩
    rintro rfl
    cases hbytes' : String.utf8EncodeChar c with
    | nil => exact String.utf8EncodeChar_ne_nil hbytes'
    | cons b bytes =>
      rw [hbytes'] at hbytes
      cases hbytes
  | plus => decide

/-- What is written for a token holds no separator, and something unless the token is empty. -/
theorem text_plain {chars text : List Char} (h : EncodesText chars text) :
    '&' ∉ text ∧ '=' ∉ text ∧ (chars ≠ [] → text ≠ []) := by
  induction h with
  | nil => simp
  | cons c chars text more hchar _ ih =>
    obtain ⟨hamp, heq, hne⟩ := char_plain hchar
    simp [hamp, heq, hne, ih.1, ih.2.1]

/-- A pair is one piece of the query, and is read back from it. -/
theorem parsePair_text {pair : String × String} {text : List Char} (h : EncodesPair pair text) :
    text ≠ [] ∧ '&' ∉ text ∧ parsePair text = pair := by
  cases h with
  | full name value key text hname hvalue =>
    obtain ⟨hkeyAmp, hkeyEq, -⟩ := text_plain hname
    obtain ⟨hvalueAmp, -, -⟩ := text_plain hvalue
    refine ⟨by simp, by simp [hkeyAmp, hvalueAmp], ?_⟩
    rw [parsePair, splitOnce_append '=' key text hkeyEq]
    simp only [decodeToken_text hname, decodeToken_text hvalue, String.ofList_toList]
  | bare name key hne hname =>
    obtain ⟨hamp, heq, hkey⟩ := text_plain hname
    refine ⟨hkey ?_, hamp, ?_⟩
    · simpa using hne
    · rw [parsePair, splitOnce_none '=' text heq]
      simp only [decodeToken_text hname, decodeToken_text .nil, String.ofList_toList]

/-- The pieces of a query are read back as the list it was written for. -/
theorem parse_pieces {pairs : List (String × String)} {text : List Char}
    (h : EncodesQuery pairs text) : (segments '&' text).map parsePair = pairs := by
  have htrail : ∀ n, segments '&' (List.replicate n '&') = [] := by
    intro n
    have hnone := segments_replicate '&' n []
    rwa [List.append_nil, segments_nil] at hnone
  induction h with
  | nil n =>
    rw [htrail]
    rfl
  | last pair text lead trail hpair =>
    obtain ⟨hne, hamp, hparse⟩ := parsePair_text hpair
    rw [segments_replicate]
    cases trail with
    | zero =>
      rw [List.replicate_zero, List.append_nil, segments_piece '&' text hne hamp,
        List.map_singleton, hparse]
    | succ n =>
      rw [List.replicate_succ, segments_cons '&' text _ hne hamp, htrail, List.map_singleton,
        hparse]
  | cons pair next rest text more lead hpair _ ih =>
    obtain ⟨hne, hamp, hparse⟩ := parsePair_text hpair
    rw [segments_replicate, segments_cons '&' text _ hne hamp, List.map_cons, hparse, ih]

end Separators

section Map

theorem lastValue_cons (first : String × String) (rest : List (String × String))
    (name value : String) :
    LastValue (first :: rest) name value ↔
      LastValue rest name value ∨ (first = (name, value) ∧ ∀ pair ∈ rest, pair.1 ≠ name) := by
  constructor
  · intro h
    obtain ⟨front, back, hpairs, hlast⟩ := h
    cases front with
    | nil =>
      obtain ⟨rfl, rfl⟩ := List.cons.inj hpairs
      exact Or.inr ⟨rfl, hlast⟩
    | cons _ front =>
      obtain ⟨-, rfl⟩ := List.cons.inj hpairs
      exact Or.inl ⟨front, back, rfl, hlast⟩
  · intro h
    rcases h with ⟨front, back, rfl, hlast⟩ | ⟨rfl, hlast⟩
    · exact ⟨first :: front, back, rfl, hlast⟩
    · exact ⟨[], rest, rfl, hlast⟩

/-- Inserting pairs in order keeps the last value of every name. -/
theorem insert_all (pairs : List (String × String)) (map : Params) (name value : String) :
    (pairs.foldl (fun map pair => map.insert pair.1 pair.2) map).lookup name = some value ↔
      LastValue pairs name value ∨
        ((∀ pair ∈ pairs, pair.1 ≠ name) ∧ map.lookup name = some value) := by
  induction pairs generalizing map with
  | nil => simp [LastValue]
  | cons first rest ih =>
    obtain ⟨key, text⟩ := first
    rw [List.foldl_cons, ih, lastValue_cons, List.forall_mem_cons]
    by_cases hname : key = name
    · subst hname
      rw [AList.lookup_insert]
      simp [and_comm]
    · rw [AList.lookup_insert_ne (Ne.symm hname)]
      simp [hname]

end Map

/-- However a list of pairs is written, it is parsed to the map of its last values. -/
theorem parseQuery_written (pairs : List (String × String)) (raw : String)
    (h : EncodesQuery pairs raw.toList) (name value : String) :
    (parseQuery raw).lookup name = some value ↔ LastValue pairs name value := by
  rw [parseQuery, parse_pieces h, insert_all]
  simp

/-- A repeated name, with a spare separator and an escaped plus sign. -/
theorem parseQuery_written_repeated : (parseQuery "a=1&&a=%2B&").lookup "a" = some "+" := by
  have hone : EncodesText "1".toList "1".toList :=
    .cons '1' [] ['1'] [] (.literal '1' (by decide)) .nil
  have hname : EncodesText "a".toList "a".toList :=
    .cons 'a' [] ['a'] [] (.literal 'a' (by decide)) .nil
  have hescape : EncodesBytes (String.utf8EncodeChar '+') "%2B".toList :=
    .cons 43 [] '2' 'B' [] (Or.inl rfl) (Or.inr rfl) .nil
  have hplus : EncodesText "+".toList "%2B".toList :=
    .cons '+' [] "%2B".toList [] (.escaped '+' _ hescape) .nil
  have hquery : EncodesQuery [("a", "1"), ("a", "+")] "a=1&&a=%2B&".toList :=
    .cons ("a", "1") ("a", "+") [] "a=1".toList "&a=%2B&".toList 0
      (.full "a" "1" "a".toList "1".toList hname hone)
      (.last ("a", "+") "a=%2B".toList 1 1 (.full "a" "+" "a".toList "%2B".toList hname hplus))
  rw [parseQuery_written _ _ hquery]
  exact ⟨[("a", "1")], [], rfl, by simp⟩

end StuntDouble.Script
