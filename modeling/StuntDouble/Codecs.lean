import StuntDouble.Base64
import Mathlib.Data.List.DropRight

/-!
The Base64 codecs of the script prelude. The decoder shifts its letters into a signed number
of 32 bits and never takes any bits away. It writes into an array whose length is estimated
before.
-/
namespace StuntDouble.Prelude

/-- An exception of the prelude. -/
inductive Thrown
  | typeError (message : String)
  | coded (code message : String)
deriving DecidableEq, Repr

section Encoder

def charAt (index : ℕ) : List Char := (Base64.alphabet[index]?).toList

/-- The loop over whole triples; a chunk that is long enough becomes a part. -/
def encodeTriples (chunk : List Char) (parts : List (List Char)) : Bytes → List (List Char)
  | b₀ :: b₁ :: b₂ :: rest =>
    let chunk := chunk ++ (charAt (b₀.toNat >>> 2) ++
      charAt (((b₀.toNat &&& 3) <<< 4) ||| (b₁.toNat >>> 4)) ++
      charAt (((b₁.toNat &&& 15) <<< 2) ||| (b₂.toNat >>> 6)) ++ charAt (b₂.toNat &&& 63))
    if 8192 ≤ chunk.length then encodeTriples [] (parts ++ [chunk]) rest
    else encodeTriples chunk parts rest
  | _ => if 0 < chunk.length then parts ++ [chunk] else parts

def encodeBase64 (bytes : Bytes) : List Char :=
  let extra := bytes.length % 3
  let mainLen := bytes.length - extra
  let parts := encodeTriples [] [] (bytes.take mainLen)
  let b₀ := (bytes.getD mainLen 0).toNat
  let b₁ := (bytes.getD (mainLen + 1) 0).toNat
  let parts :=
    if extra = 1 then parts ++ [charAt (b₀ >>> 2) ++ charAt ((b₀ &&& 3) <<< 4) ++ ['=', '=']]
    else if extra = 2 then
      parts ++ [charAt (b₀ >>> 2) ++ charAt (((b₀ &&& 3) <<< 4) ||| (b₁ >>> 4)) ++
        charAt ((b₁ &&& 15) <<< 2) ++ ['=']]
    else parts
  parts.flatten

end Encoder

section Decoder

structure Decoder where
  out : Bytes
  buffer : BitVec 32
  bits : ℕ
  index : ℕ

/-- One letter. A typed array ignores what is written past its end. -/
def decodeLetter (d : Decoder) (c : Char) : Except Thrown Decoder :=
  match Base64.alphabet.idxOf? c with
  | none => .error (.typeError "invalid base64 body")
  | some value =>
    let buffer := (d.buffer <<< 6) ||| BitVec.ofNat 32 value
    let bits := d.bits + 6
    if 8 ≤ bits then
      let byte := UInt8.ofNat (buffer.sshiftRight (bits - 8) &&& 0xff#32).toNat
      .ok ⟨d.out.set d.index byte, buffer, bits - 8, d.index + 1⟩
    else .ok ⟨d.out, buffer, bits, d.index⟩

def decodeBase64 (text : List Char) : Except Thrown Bytes :=
  let clean := text.rdropWhile (· == '=')
  let out := List.replicate (clean.length * 3 / 4) 0
  (clean.foldlM decodeLetter ⟨out, 0, 0, 0⟩).map Decoder.out

end Decoder

/-- The codec of the host. -/
structure Engine where
  encode : Bytes → String
  decode : String → Option Bytes

/-- A codec with the standard alphabet that writes and takes canonical padded texts only. -/
structure Engine.Standard (host : Engine) : Prop where
  writes (bytes : Bytes) : (host.encode bytes).toList = Base64.encode bytes
  takes (text : String) (bytes : Bytes) :
    host.decode text = some bytes ↔ text.toList = Base64.encode bytes

section EncoderSpec

theorem charAt_letter {value : ℕ} (h : value < 64) : charAt value = [Base64.letter value] := by
  have hlt : value < Base64.alphabet.length := h
  rw [charAt, Base64.letter, List.getD_eq_getElem?_getD, List.getElem?_eq_getElem hlt]
  rfl

/-- Low bits moved up, with bits put below them. -/
theorem joinBits (x y low shift : ℕ) (h : y < 2 ^ shift) :
    ((x &&& (2 ^ low - 1)) <<< shift) ||| y = x % 2 ^ low * 2 ^ shift + y := by
  rw [Nat.and_two_pow_sub_one_eq_mod, ← Nat.shiftLeft_add_eq_or_of_lt h, Nat.shiftLeft_eq]

theorem first_letter (a b c : UInt8) :
    charAt (a.toNat >>> 2) = [Base64.letter (Base64.number a b c / 262144)] := by
  have ha := a.toNat_lt
  have hb := b.toNat_lt
  have hc := c.toNat_lt
  have hsame : a.toNat >>> 2 = Base64.number a b c / 262144 := by
    rw [Nat.shiftRight_eq_div_pow, Base64.number]
    omega
  rw [← hsame]
  apply charAt_letter
  rw [Nat.shiftRight_eq_div_pow]
  omega

theorem second_letter (a b c : UInt8) :
    charAt (((a.toNat &&& 3) <<< 4) ||| (b.toNat >>> 4)) =
      [Base64.letter (Base64.number a b c / 4096 % 64)] := by
  have hb := b.toNat_lt
  have hc := c.toNat_lt
  have hhigh : b.toNat >>> 4 < 2 ^ 4 := by
    rw [Nat.shiftRight_eq_div_pow]
    omega
  have hsame : ((a.toNat &&& 3) <<< 4) ||| (b.toNat >>> 4) =
      Base64.number a b c / 4096 % 64 := by
    refine (joinBits a.toNat (b.toNat >>> 4) 2 4 hhigh).trans ?_
    rw [Nat.shiftRight_eq_div_pow, Base64.number]
    omega
  rw [hsame]
  exact charAt_letter (by omega)

theorem third_letter (a b c : UInt8) :
    charAt (((b.toNat &&& 15) <<< 2) ||| (c.toNat >>> 6)) =
      [Base64.letter (Base64.number a b c / 64 % 64)] := by
  have hc := c.toNat_lt
  have hhigh : c.toNat >>> 6 < 2 ^ 2 := by
    rw [Nat.shiftRight_eq_div_pow]
    omega
  have hsame : ((b.toNat &&& 15) <<< 2) ||| (c.toNat >>> 6) =
      Base64.number a b c / 64 % 64 := by
    refine (joinBits b.toNat (c.toNat >>> 6) 4 2 hhigh).trans ?_
    rw [Nat.shiftRight_eq_div_pow, Base64.number]
    omega
  rw [hsame]
  exact charAt_letter (by omega)

theorem fourth_letter (a b c : UInt8) :
    charAt (c.toNat &&& 63) = [Base64.letter (Base64.number a b c % 64)] := by
  have hsame : c.toNat &&& 63 = Base64.number a b c % 64 := by
    refine (Nat.and_two_pow_sub_one_eq_mod c.toNat 6).trans ?_
    rw [Base64.number]
    omega
  rw [hsame]
  exact charAt_letter (by omega)

theorem triple_letters (a b c : UInt8) :
    charAt (a.toNat >>> 2) ++ charAt (((a.toNat &&& 3) <<< 4) ||| (b.toNat >>> 4)) ++
      charAt (((b.toNat &&& 15) <<< 2) ||| (c.toNat >>> 6)) ++ charAt (c.toNat &&& 63) =
    Base64.letters (Base64.number a b c) := by
  rw [first_letter a b c, second_letter a b c, third_letter a b c, fourth_letter a b c]
  rfl

theorem eq_nil_of_triples (bytes : Bytes) (h : bytes.length % 3 = 0)
    (hrest : ∀ a b c rest, bytes = a :: b :: c :: rest → False) : bytes = [] := by
  match bytes with
  | [] => rfl
  | [_] => simp at h
  | [_, _] => simp at h
  | a :: b :: c :: rest => exact (hrest a b c rest rfl).elim

theorem encodeTriples_flatten (bytes : Bytes) (chunk : List Char) (parts : List (List Char))
    (h : bytes.length % 3 = 0) :
    (encodeTriples chunk parts bytes).flatten =
      parts.flatten ++ (chunk ++ Base64.encode bytes) := by
  fun_induction encodeTriples chunk parts bytes with
  | case1 chunk parts a b c rest next _ ih =>
    have hnext : next = chunk ++ Base64.letters (Base64.number a b c) :=
      congrArg (chunk ++ ·) (triple_letters a b c)
    rw [ih (by simp only [List.length_cons] at h; omega), hnext]
    simp [Base64.encode]
  | case2 chunk parts a b c rest next _ ih =>
    have hnext : next = chunk ++ Base64.letters (Base64.number a b c) :=
      congrArg (chunk ++ ·) (triple_letters a b c)
    rw [ih (by simp only [List.length_cons] at h; omega), hnext]
    simp [Base64.encode]
  | case3 bytes chunk parts _ hrest =>
    rw [eq_nil_of_triples _ h hrest]
    simp [Base64.encode]
  | case4 bytes chunk parts hempty hrest =>
    have hchunk : chunk = [] := List.eq_nil_of_length_eq_zero (by omega)
    rw [eq_nil_of_triples _ h hrest, hchunk]
    simp [Base64.encode]

/-- The canonical text of whole triples and what is left after them. -/
theorem encode_append (front back : Bytes) (h : front.length % 3 = 0) :
    Base64.encode (front ++ back) = Base64.encode front ++ Base64.encode back := by
  fun_induction Base64.encode front with
  | case1 => rfl
  | case2 a => simp at h
  | case3 a b => simp at h
  | case4 a b c rest ih =>
    have hrest := ih (by simp only [List.length_cons] at h; omega)
    simp only [List.cons_append, Base64.encode, hrest, List.append_assoc]

theorem encodeBase64_canonical (bytes : Bytes) : encodeBase64 bytes = Base64.encode bytes := by
  obtain ⟨front, back, hbytes, hfront, hback⟩ : ∃ front back, bytes = front ++ back ∧
      front.length % 3 = 0 ∧ back.length < 3 := by
    refine ⟨bytes.take (bytes.length - bytes.length % 3),
      bytes.drop (bytes.length - bytes.length % 3), (List.take_append_drop _ _).symm, ?_, ?_⟩
    · rw [List.length_take]
      omega
    · rw [List.length_drop]
      omega
  subst hbytes
  have hextra : (front ++ back).length % 3 = back.length := by
    rw [List.length_append]
    omega
  have hmain : (front ++ back).length - back.length = front.length := by
    rw [List.length_append]
    omega
  have hat (i : ℕ) : (front ++ back).getD (front.length + i) 0 = back.getD i 0 := by
    rw [List.getD_eq_getElem?_getD, List.getElem?_append_right (by omega),
      Nat.add_sub_cancel_left, ← List.getD_eq_getElem?_getD]
  unfold encodeBase64
  simp only [hextra, hmain, List.take_left]
  rw [encode_append front back hfront, ← Nat.add_zero front.length, hat, Nat.add_zero, hat]
  match back with
  | [] =>
    rw [if_neg (by simp), if_neg (by simp), encodeTriples_flatten front [] [] hfront]
    simp [Base64.encode]
  | [a] =>
    have hsecond := second_letter a 0 0
    rw [UInt8.toNat_zero, Nat.zero_shiftRight, Nat.or_zero] at hsecond
    rw [if_pos (List.length_singleton), List.flatten_append,
      encodeTriples_flatten front [] [] hfront]
    simp [Base64.encode, Base64.letters, Base64.pad, first_letter a 0 0, hsecond]
  | [a, b] =>
    have hthird := third_letter a b 0
    rw [UInt8.toNat_zero, Nat.zero_shiftRight, Nat.or_zero] at hthird
    rw [if_neg (by simp), if_pos (by simp), List.flatten_append,
      encodeTriples_flatten front [] [] hfront]
    simp [Base64.encode, Base64.letters, Base64.pad, first_letter a b 0, second_letter a b 0,
      hthird]
  | a :: b :: c :: rest =>
    simp only [List.length_cons] at hback
    omega

end EncoderSpec

section DecoderSpec

/-- The bits that are never taken away stay above the ones that are looked at. -/
theorem buffer_byte (n shift : ℕ) (h : shift ≤ 24) :
    UInt8.ofNat ((BitVec.ofNat 32 n).sshiftRight shift &&& 0xff#32).toNat =
      UInt8.ofNat (n / 2 ^ shift) := by
  have hbits : (BitVec.ofNat 32 n).sshiftRight shift &&& 0xff#32 =
      BitVec.ofNat 32 (n / 2 ^ shift % 256) := by
    apply BitVec.eq_of_getLsbD_eq
    intro i hi
    have hmask : (0xff#32).getLsbD i = decide (i < 8) := by
      have hall : ∀ i < 32, (0xff#32).getLsbD i = decide (i < 8) := by decide
      exact hall i hi
    rw [BitVec.getLsbD_and, hmask, BitVec.getLsbD_sshiftRight, show 256 = 2 ^ 8 from rfl,
      BitVec.getLsbD_ofNat _ (_ % _), Nat.testBit_mod_two_pow, Nat.testBit_div_two_pow]
    by_cases hlow : i < 8
    · have hin : shift + i < 32 := by omega
      have hle : ¬ 32 ≤ i := by omega
      rw [if_pos hin, BitVec.getLsbD_ofNat]
      simp [hlow, hi, hin, hle, Nat.add_comm]
    · simp [hlow]
  rw [hbits, BitVec.toNat_ofNat, ← UInt8.toNat_inj, UInt8.toNat_ofNat', UInt8.toNat_ofNat']
  omega

/-- The buffer holds the low bits of the number that all letters are together. -/
theorem buffer_step (n : ℕ) {value : ℕ} (h : value < 64) :
    (BitVec.ofNat 32 n <<< 6) ||| BitVec.ofNat 32 value = BitVec.ofNat 32 (n * 64 + value) := by
  apply BitVec.eq_of_toNat_eq
  have hor : n * 64 + value = n <<< 6 ||| value := by
    rw [← Nat.shiftLeft_add_eq_or_of_lt h, Nat.shiftLeft_eq]
  rw [BitVec.toNat_or, BitVec.toNat_shiftLeft, BitVec.toNat_ofNat, BitVec.toNat_ofNat,
    BitVec.toNat_ofNat, hor, Nat.or_mod_two_pow]
  have hshift : (n % 2 ^ 32) <<< 6 % 2 ^ 32 = n <<< 6 % 2 ^ 32 := by
    rw [Nat.shiftLeft_eq, Nat.shiftLeft_eq]
    omega
  rw [hshift]

/-- A letter that does not complete a byte. -/
theorem decodeLetter_waits (out : Bytes) (n bits index : ℕ) {value : ℕ} (h : value < 64)
    (hbits : bits < 2) :
    decodeLetter ⟨out, BitVec.ofNat 32 n, bits, index⟩ (Base64.letter value) =
      .ok ⟨out, BitVec.ofNat 32 (n * 64 + value), bits + 6, index⟩ := by
  have hvalue : Base64.alphabet.idxOf? (Base64.letter value) = some value :=
    Base64.valueOf_letter h
  unfold decodeLetter
  simp only [hvalue, buffer_step n h]
  rw [if_neg (by omega)]

theorem decodeLetter_writes (out : Bytes) (n bits index : ℕ) {value : ℕ} (h : value < 64)
    (hbits : bits ≤ 4) :
    decodeLetter ⟨out, BitVec.ofNat 32 n, bits + 2, index⟩ (Base64.letter value) =
      .ok ⟨out.set index (UInt8.ofNat ((n * 64 + value) / 2 ^ bits)),
        BitVec.ofNat 32 (n * 64 + value), bits, index + 1⟩ := by
  have hvalue : Base64.alphabet.idxOf? (Base64.letter value) = some value :=
    Base64.valueOf_letter h
  have hshift : bits + 2 + 6 - 8 = bits := by omega
  unfold decodeLetter
  simp only [hvalue, buffer_step n h]
  rw [if_pos (by omega), hshift, buffer_byte _ _ (by omega)]

theorem foldlM_cons_ok {d next : Decoder} {c : Char} (h : decodeLetter d c = .ok next)
    (rest : List Char) :
    (c :: rest).foldlM decodeLetter d = rest.foldlM decodeLetter next := by
  rw [List.foldlM_cons, h]
  rfl

theorem ofNat_congr {m n : ℕ} (h : m % 256 = n % 256) : UInt8.ofNat m = UInt8.ofNat n := by
  rw [← UInt8.toNat_inj, UInt8.toNat_ofNat', UInt8.toNat_ofNat']
  exact h

variable (out : Bytes) (n index group : ℕ) (h : group < 16777216) (rest : List Char)

include h

/-- Two letters complete a byte, whatever was read before them. -/
theorem decode_two :
    (Base64.letter (group / 262144) :: Base64.letter (group / 4096 % 64) :: rest).foldlM
        decodeLetter ⟨out, BitVec.ofNat 32 n, 0, index⟩ =
      rest.foldlM decodeLetter ⟨out.set index (UInt8.ofNat (group / 65536)),
        BitVec.ofNat 32 (n * 4096 + group / 4096), 4, index + 1⟩ := by
  have hbyte : UInt8.ofNat (((n * 64 + group / 262144) * 64 + group / 4096 % 64) / 2 ^ 4) =
      UInt8.ofNat (group / 65536) := ofNat_congr (by omega)
  have hnumber : (n * 64 + group / 262144) * 64 + group / 4096 % 64 =
      n * 4096 + group / 4096 := by omega
  rw [foldlM_cons_ok (decodeLetter_waits out n 0 index (by omega) (by omega)),
    foldlM_cons_ok (decodeLetter_writes out _ 4 index (by omega) (by omega)), hbyte, hnumber]

/-- A third letter completes a second byte. -/
theorem decode_three :
    (Base64.letter (group / 262144) :: Base64.letter (group / 4096 % 64) ::
        Base64.letter (group / 64 % 64) :: rest).foldlM
        decodeLetter ⟨out, BitVec.ofNat 32 n, 0, index⟩ =
      rest.foldlM decodeLetter
        ⟨(out.set index (UInt8.ofNat (group / 65536))).set (index + 1) (UInt8.ofNat (group / 256)),
          BitVec.ofNat 32 (n * 262144 + group / 64), 2, index + 2⟩ := by
  have hbyte : UInt8.ofNat (((n * 4096 + group / 4096) * 64 + group / 64 % 64) / 2 ^ 2) =
      UInt8.ofNat (group / 256) := ofNat_congr (by omega)
  have hnumber : (n * 4096 + group / 4096) * 64 + group / 64 % 64 =
      n * 262144 + group / 64 := by omega
  rw [decode_two out n index group h,
    foldlM_cons_ok (decodeLetter_writes _ _ 2 (index + 1) (by omega) (by omega)), hbyte, hnumber]

/-- Four letters are the three bytes of their group. -/
theorem decode_four :
    (Base64.letters group ++ rest).foldlM decodeLetter ⟨out, BitVec.ofNat 32 n, 0, index⟩ =
      rest.foldlM decodeLetter
        ⟨((out.set index (UInt8.ofNat (group / 65536))).set (index + 1)
            (UInt8.ofNat (group / 256))).set (index + 2) (UInt8.ofNat group),
          BitVec.ofNat 32 (n * 16777216 + group), 0, index + 3⟩ := by
  have hbyte : UInt8.ofNat (((n * 262144 + group / 64) * 64 + group % 64) / 2 ^ 0) =
      UInt8.ofNat group := ofNat_congr (by omega)
  have hnumber : (n * 262144 + group / 64) * 64 + group % 64 = n * 16777216 + group := by omega
  rw [Base64.letters, List.cons_append, List.cons_append, List.cons_append,
    decode_three out n index group h, List.cons_append, List.nil_append,
    foldlM_cons_ok (decodeLetter_writes _ _ 0 (index + 2) (by omega) (by omega)), hbyte, hnumber]

omit h n index group rest out

/-- The letters of some bytes, read into an array of just their length. -/
theorem decode_body (bytes done : Bytes) (n : ℕ) :
    ∃ d, (Base64.body bytes).foldlM decodeLetter
        ⟨done ++ List.replicate bytes.length 0, BitVec.ofNat 32 n, 0, done.length⟩ = .ok d ∧
      d.out = done ++ bytes := by
  have hset (front back : Bytes) (i : ℕ) (b : UInt8) :
      (front ++ back).set (front.length + i) b = front ++ back.set i b := by
    rw [List.set_append_right _ _ (by omega), Nat.add_sub_cancel_left]
  fun_induction Base64.body bytes generalizing done n with
  | case1 => exact ⟨_, rfl, rfl⟩
  | case2 a =>
    obtain ⟨ha, -, -⟩ := Base64.number_octets a 0 0
    refine ⟨_, decode_two _ n done.length _ (Base64.number_lt a 0 0) [], ?_⟩
    rw [ha, ← Nat.add_zero done.length, hset]
    rfl
  | case3 a b =>
    obtain ⟨ha, hb, -⟩ := Base64.number_octets a b 0
    refine ⟨_, decode_three _ n done.length _ (Base64.number_lt a b 0) [], ?_⟩
    simp only [ha, hb]
    rw [← Nat.add_zero done.length, hset, Nat.add_zero, hset]
    rfl
  | case4 a b c rest ih =>
    obtain ⟨ha, hb, hc⟩ := Base64.number_octets a b c
    have hout : (((done ++ List.replicate (a :: b :: c :: rest).length 0).set done.length a).set
        (done.length + 1) b).set (done.length + 2) c =
          (done ++ [a, b, c]) ++ List.replicate rest.length 0 := by
      have hfirst := hset done (List.replicate (a :: b :: c :: rest).length 0) 0 a
      rw [Nat.add_zero] at hfirst
      rw [hfirst, hset, hset, List.append_assoc]
      rfl
    have hindex : done.length + 3 = (done ++ [a, b, c]).length := by simp
    rw [decode_four _ n done.length _ (Base64.number_lt a b c), ha, hb, hc, hout, hindex]
    obtain ⟨d, hd, hrest⟩ := ih (done ++ [a, b, c]) (n * 16777216 + Base64.number a b c)
    refine ⟨d, hd, ?_⟩
    rw [hrest, List.append_assoc]
    rfl

/-- Padding is stripped, and nothing else. -/
theorem strip_padding (letters : List Char) (count : ℕ) (h : Base64.pad ∉ letters) :
    (letters ++ List.replicate count Base64.pad).rdropWhile (· == '=') = letters := by
  induction count with
  | zero =>
    rw [List.replicate_zero, List.append_nil, List.rdropWhile_eq_self_iff]
    intro hne hlast
    have hpad : letters.getLast hne = Base64.pad := beq_iff_eq.mp hlast
    exact h (hpad ▸ List.getLast_mem hne)
  | succ count ih =>
    rw [List.replicate_succ', ← List.append_assoc, List.rdropWhile_concat_pos _ _ _ rfl, ih]

theorem decodeBase64_encode (bytes : Bytes) :
    decodeBase64 (Base64.encode bytes) = .ok bytes := by
  obtain ⟨count, hcount⟩ := Base64.encode_body bytes
  have hsize : (bytes.length * 4 + 2) / 3 * 3 / 4 = bytes.length := by omega
  obtain ⟨d, hd, hout⟩ := decode_body bytes [] 0
  rw [List.nil_append] at hd hout
  unfold decodeBase64
  rw [hcount, strip_padding _ count (Base64.pad_not_mem_body bytes)]
  simp only [Base64.body_length, hsize]
  exact (congrArg (Except.map Decoder.out) hd).trans (congrArg Except.ok hout)

end DecoderSpec

/-- Both directions between the prelude and the host. -/
theorem base64_interoperates (host : Engine) (h : host.Standard) (bytes : Bytes) :
    encodeBase64 bytes = Base64.encode bytes ∧
      host.decode (String.ofList (encodeBase64 bytes)) = some bytes ∧
      decodeBase64 (host.encode bytes).toList = .ok bytes := by
  refine ⟨encodeBase64_canonical bytes, ?_, ?_⟩
  · rw [h.takes, String.toList_ofList, encodeBase64_canonical]
  · rw [h.writes]
    exact decodeBase64_encode bytes

/-- The strict codec. -/
def Engine.strict : Engine :=
  ⟨fun bytes => String.ofList (Base64.encode bytes), fun text => Base64.decode text.toList⟩

theorem Engine.strict_standard : Engine.strict.Standard where
  writes _ := String.toList_ofList
  takes text bytes := Base64.decode_eq_some text.toList bytes

theorem base64_interoperates_two :
    encodeBase64 [0xfb, 0xff] = "+/8=".toList ∧
      Engine.strict.decode (String.ofList (encodeBase64 [0xfb, 0xff])) = some [0xfb, 0xff] ∧
      decodeBase64 "+/8=".toList = .ok [0xfb, 0xff] :=
  base64_interoperates Engine.strict Engine.strict_standard [0xfb, 0xff]

end StuntDouble.Prelude
