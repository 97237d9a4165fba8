import StuntDouble.Files

/-!
The single-range grammar over unbounded numbers, and how the decision of the program
relates to it. The program reads its numbers into 64 bits, so a last position or a suffix
length that does not fit is refused where the grammar clamps it to the end of the file.
-/
namespace StuntDouble.Files

open Http

/-- A range as the grammar reads it. -/
inductive RangeSpec
  | between (first last : ℕ)
  | onward (first : ℕ)
  | suffix (length : ℕ)
deriving DecidableEq, Repr

namespace RangeSpec

/-- The slice of a file that a range asks for, if there is any. -/
def slice (size : ℕ) : RangeSpec → Option (ℕ × ℕ)
  | between first last =>
    if first < size ∧ first ≤ last then some (first, min last (size - 1) + 1 - first) else none
  | onward first => if first < size then some (first, size - first) else none
  | suffix length =>
    if 0 < length ∧ 0 < size then some (size - min length size, min length size) else none

/-- The number behind the dash. -/
def bound : RangeSpec → ℕ
  | between _ last => last
  | onward _ => 0
  | suffix length => length

end RangeSpec

/-- The decision for a slice, or for none. -/
def RangeDecision.ofSlice : Option (ℕ × ℕ) → RangeDecision
  | some (start, len) => .partialContent start len
  | none => .unsatisfiable

/-- A non-empty string of ASCII digits. -/
def Digits (text : List Char) : Prop := text ≠ [] ∧ ∀ c ∈ text, c.isDigit = true

/-- The grammar: a unit that is `bytes` in any case, and one of the three forms. -/
inductive Reads (header : String) : RangeSpec → Prop
  | between (unit first last : List Char)
      (hunit : eqIgnoreAsciiCase (String.ofList unit) "bytes" = true)
      (hfirst : Digits first) (hlast : Digits last)
      (htext : trim header.toList = unit ++ '=' :: (first ++ '-' :: last)) :
      Reads header (.between (digitsValue first) (digitsValue last))
  | onward (unit first : List Char)
      (hunit : eqIgnoreAsciiCase (String.ofList unit) "bytes" = true) (hfirst : Digits first)
      (htext : trim header.toList = unit ++ '=' :: (first ++ ['-'])) :
      Reads header (.onward (digitsValue first))
  | suffix (unit length : List Char)
      (hunit : eqIgnoreAsciiCase (String.ofList unit) "bytes" = true) (hlength : Digits length)
      (htext : trim header.toList = unit ++ '=' :: '-' :: length) :
      Reads header (.suffix (digitsValue length))

/-- What the grammar decides: the slice that the header asks for, or none. -/
def Agrees (size : ℕ) (range : Option String) (decision : RangeDecision) : Prop :=
  match range with
  | none => decision = .full
  | some header =>
    (∀ spec start len, Reads header spec → spec.slice size = some (start, len) →
      decision = .partialContent start len) ∧
    ((∀ spec, Reads header spec → spec.slice size = none) → decision = .unsatisfiable)

/-- The header asks for a slice with a number behind the dash that needs more than 64 bits. -/
def Overlong (size : ℕ) (range : Option String) : Prop :=
  ∃ header spec, range = some header ∧ Reads header spec ∧ (spec.slice size).isSome = true ∧
    2 ^ 64 ≤ spec.bound

section Reading

theorem digits_not_mem {text : List Char} (h : Digits text) {c : Char} (hc : c.isDigit = false) :
    c ∉ text := by
  intro hmem
  rw [h.2 c hmem] at hc
  contradiction

theorem digits_all {text : List Char} (h : Digits text) : text.all Char.isDigit = true :=
  List.all_eq_true.mpr h.2

/-- Digits are read, unless their number does not fit. -/
theorem parseIndex_digits {text : List Char} (h : Digits text) :
    parseIndex text = if digitsValue text < 2 ^ 64 then some (digitsValue text) else none := by
  unfold parseIndex
  rw [if_neg]
  rw [not_or, not_not]
  exact ⟨h.1, digits_all h⟩

theorem parseIndex_some {text : List Char} {value : ℕ} (h : parseIndex text = some value) :
    Digits text ∧ value = digitsValue text ∧ value < 2 ^ 64 := by
  unfold parseIndex at h
  by_cases hbad : text = [] ∨ ¬ text.all Char.isDigit
  · rw [if_pos hbad] at h
    contradiction
  · rw [if_neg hbad] at h
    rw [not_or, not_not, List.all_eq_true] at hbad
    by_cases hlt : digitsValue text < 2 ^ 64
    · rw [if_pos hlt] at h
      obtain rfl := Option.some.inj h
      exact ⟨hbad, rfl, hlt⟩
    · rw [if_neg hlt] at h
      contradiction

/-- A unit that is accepted has no equals sign in it. -/
theorem unit_not_mem {unit : List Char}
    (h : eqIgnoreAsciiCase (String.ofList unit) "bytes" = true) : '=' ∉ unit := by
  intro hmem
  unfold eqIgnoreAsciiCase asciiLower at h
  have hchars := congrArg String.toList (beq_iff_eq.mp h)
  simp only [String.toList_ofList] at hchars
  have hlower : '='.toLower ∈ unit.map Char.toLower := List.mem_map_of_mem hmem
  rw [hchars] at hlower
  revert hlower
  decide

end Reading

section Decision

variable (size : ℕ) (header : String)

/-- The decision on a header with an accepted unit. -/
theorem decideRange_text {unit spec : List Char}
    (hunit : eqIgnoreAsciiCase (String.ofList unit) "bytes" = true)
    (htext : trim header.toList = unit ++ '=' :: spec) (hcomma : ',' ∉ spec) (hsize : size ≠ 0) :
    decideRange size (some header) =
      match splitOnce '-' spec with
      | none => some .unsatisfiable
      | some (first, last) =>
        if first = [] then
          match parseIndex last with
          | none => some .unsatisfiable
          | some suffix => suffixRange size suffix
        else
          match parseIndex first with
          | none => some .unsatisfiable
          | some start => indexRange size start last := by
  have husable : ¬ (eqIgnoreAsciiCase (String.ofList unit) "bytes" = false ∨ ',' ∈ spec ∨
      size = 0) := by
    simp [hunit, hcomma, hsize]
  rw [decideRange, htext, splitOnce_append '=' unit spec (unit_not_mem hunit)]
  exact if_neg husable

theorem decideRange_empty : decideRange 0 (some header) = some .unsatisfiable := by
  simp only [decideRange, or_true, if_true]
  cases splitOnce '=' (trim header.toList) <;> rfl

theorem indexRange_onward (start : ℕ) (hsize : size < 2 ^ 64) :
    indexRange size start [] = some (.ofSlice (RangeSpec.slice size (.onward start))) := by
  unfold indexRange
  by_cases hstart : size ≤ start
  · have hslice : RangeSpec.slice size (.onward start) = none := if_neg (by omega)
    rw [if_pos hstart, hslice]
    rfl
  · have hone : checkedSub size 1 = some (size - 1) := if_pos (by omega)
    have hsteps : checkedSub (size - 1) start = some (size - 1 - start) := if_pos (by omega)
    have hlen : checkedAdd (size - 1 - start) 1 = some (size - 1 - start + 1) :=
      if_pos (by omega)
    have hsame : size - 1 - start + 1 = size - start := by omega
    have hslice : RangeSpec.slice size (.onward start) = some (start, size - start) :=
      if_pos (by omega)
    rw [if_neg hstart, rangeEnd, if_pos rfl, hone, hslice]
    simp only [Option.map_some, hsteps, Option.bind_some, hlen, hsame]
    rfl

/-- A last position that fits is clamped, one that does not is refused. -/
theorem indexRange_between (start : ℕ) {last : List Char} (hlast : Digits last)
    (hsize : size < 2 ^ 64) :
    indexRange size start last =
      some (if 2 ^ 64 ≤ digitsValue last then .unsatisfiable
        else .ofSlice (RangeSpec.slice size (.between start (digitsValue last)))) := by
  unfold indexRange
  by_cases hin : start < size ∧ start ≤ digitsValue last
  · have hslice : RangeSpec.slice size (.between start (digitsValue last)) =
        some (start, min (digitsValue last) (size - 1) + 1 - start) := if_pos hin
    rw [if_neg (by omega), rangeEnd, if_neg hlast.1, parseIndex_digits hlast, hslice]
    by_cases hlong : 2 ^ 64 ≤ digitsValue last
    · rw [if_neg (by omega), if_pos hlong]
    · have hone : checkedSub size 1 = some (size - 1) := if_pos (by omega)
      have hsteps : checkedSub (min (digitsValue last) (size - 1)) start =
          some (min (digitsValue last) (size - 1) - start) := if_pos (by omega)
      have hlen : checkedAdd (min (digitsValue last) (size - 1) - start) 1 =
          some (min (digitsValue last) (size - 1) - start + 1) := if_pos (by omega)
      have hsame : min (digitsValue last) (size - 1) - start + 1 =
          min (digitsValue last) (size - 1) + 1 - start := by omega
      rw [if_pos (by omega), if_neg hlong]
      simp only [if_neg (Nat.not_lt.mpr hin.2), hone, Option.map_some, hsteps, Option.bind_some,
        hlen, hsame]
      rfl
  · have hslice : RangeSpec.slice size (.between start (digitsValue last)) = none := if_neg hin
    rw [hslice]
    by_cases hstart : size ≤ start
    · rw [if_pos hstart]
      simp [RangeDecision.ofSlice]
    · have hback : digitsValue last < start := by omega
      rw [if_neg hstart, rangeEnd, if_neg hlast.1, parseIndex_digits hlast]
      by_cases hlong : 2 ^ 64 ≤ digitsValue last
      · rw [if_neg (by omega), if_pos hlong]
      · rw [if_pos (by omega), if_neg hlong]
        simp only [if_pos hback]
        rfl

theorem suffixRange_slice (length : ℕ) (hsize : size ≠ 0) :
    suffixRange size length = some (.ofSlice (RangeSpec.slice size (.suffix length))) := by
  unfold suffixRange
  by_cases hzero : length = 0
  · have hslice : RangeSpec.slice size (.suffix length) = none := if_neg (by omega)
    rw [if_pos hzero, hslice]
    rfl
  · have hstart : checkedSub size (min length size) = some (size - min length size) :=
      if_pos (by omega)
    have hslice : RangeSpec.slice size (.suffix length) =
        some (size - min length size, min length size) := if_pos (by omega)
    rw [if_neg hzero, hstart, hslice, Option.map_some]
    rfl

/-- On a header of the grammar the program decides as the grammar does, but refuses a number
behind the dash that needs more than 64 bits. -/
theorem decideRange_reads {spec : RangeSpec} (hsize : size < 2 ^ 64) (h : Reads header spec) :
    decideRange size (some header) =
      some (if 2 ^ 64 ≤ spec.bound then .unsatisfiable else .ofSlice (spec.slice size)) := by
  by_cases hzero : size = 0
  · subst hzero
    have hslice : spec.slice 0 = none := by cases spec <;> simp [RangeSpec.slice]
    rw [decideRange_empty, hslice]
    simp [RangeDecision.ofSlice]
  · cases h with
    | between unit first last hunit hfirst hlast htext =>
      have hcomma : ',' ∉ first ++ '-' :: last := by
        have hfirst' := digits_not_mem hfirst (c := ',') rfl
        have hlast' := digits_not_mem hlast (c := ',') rfl
        simp [hfirst', hlast']
      rw [decideRange_text size header hunit htext hcomma hzero,
        splitOnce_append '-' first last (digits_not_mem hfirst rfl)]
      simp only [if_neg hfirst.1, parseIndex_digits hfirst]
      by_cases hlong : 2 ^ 64 ≤ digitsValue first
      · have hslice : RangeSpec.slice size (.between (digitsValue first) (digitsValue last)) =
            none := if_neg (by omega)
        rw [if_neg (by omega), hslice]
        simp [RangeDecision.ofSlice]
      · rw [if_pos (by omega)]
        exact indexRange_between size (digitsValue first) hlast hsize
    | onward unit first hunit hfirst htext =>
      have hcomma : ',' ∉ first ++ ['-'] := by
        have hfirst' := digits_not_mem hfirst (c := ',') rfl
        simp [hfirst']
      rw [decideRange_text size header hunit htext hcomma hzero,
        splitOnce_append '-' first [] (digits_not_mem hfirst rfl),
        if_neg (by simp [RangeSpec.bound])]
      simp only [if_neg hfirst.1, parseIndex_digits hfirst]
      by_cases hlong : 2 ^ 64 ≤ digitsValue first
      · have hslice : RangeSpec.slice size (.onward (digitsValue first)) = none :=
          if_neg (by omega)
        rw [if_neg (by omega), hslice]
        rfl
      · rw [if_pos (by omega)]
        exact indexRange_onward size (digitsValue first) hsize
    | suffix unit length hunit hlength htext =>
      have hcomma : ',' ∉ '-' :: length := by
        have hlength' := digits_not_mem hlength (c := ',') rfl
        simp [hlength']
      have hsplit : splitOnce '-' ('-' :: length) = some ([], length) := if_pos rfl
      rw [decideRange_text size header hunit htext hcomma hzero, hsplit]
      simp only [if_true, parseIndex_digits hlength]
      by_cases hlong : 2 ^ 64 ≤ digitsValue length
      · have hbound : 2 ^ 64 ≤ (RangeSpec.suffix (digitsValue length)).bound := hlong
        rw [if_neg (by omega), if_pos hbound]
      · have hbound : ¬ 2 ^ 64 ≤ (RangeSpec.suffix (digitsValue length)).bound := hlong
        rw [if_pos (by omega), if_neg hbound]
        exact suffixRange_slice size (digitsValue length) hzero

/-- A header that the grammar does not read is refused. -/
theorem decideRange_unread (h : ∀ spec, ¬ Reads header spec) :
    decideRange size (some header) = some .unsatisfiable := by
  rw [decideRange]
  cases hhalves : splitOnce '=' (trim header.toList) with
  | none => rfl
  | some halves =>
    obtain ⟨unit, spec⟩ := halves
    have htext := splitOnce_some hhalves
    by_cases hunusable : eqIgnoreAsciiCase (String.ofList unit) "bytes" = false ∨ ',' ∈ spec ∨
        size = 0
    · exact if_pos hunusable
    · have hunit : eqIgnoreAsciiCase (String.ofList unit) "bytes" = true := by
        simpa using (not_or.mp hunusable).1
      simp only [if_neg hunusable]
      cases hbounds : splitOnce '-' spec with
      | none => rfl
      | some bounds =>
        obtain ⟨first, last⟩ := bounds
        obtain rfl := splitOnce_some hbounds
        by_cases hfirst : first = []
        · subst hfirst
          cases hlast : parseIndex last with
          | none => simp only [if_true, hlast]
          | some suffix =>
            obtain ⟨hdigits, -, -⟩ := parseIndex_some hlast
            exact absurd (.suffix unit last hunit hdigits htext) (h _)
        · simp only [if_neg hfirst]
          cases hindex : parseIndex first with
          | none => rfl
          | some index =>
            obtain ⟨hdigits, -, -⟩ := parseIndex_some hindex
            by_cases hlast : last = []
            · subst hlast
              exact absurd (.onward unit first hunit hdigits htext) (h _)
            · cases hstop : parseIndex last with
              | none =>
                simp only [indexRange, rangeEnd, if_neg hlast, hstop]
                exact ite_self _
              | some stop =>
                obtain ⟨hlastDigits, -, -⟩ := parseIndex_some hstop
                exact absurd (.between unit first last hunit hdigits hlastDigits htext) (h _)

/-- A header that is no range is refused, and one that is gets its slice, or none. -/
theorem decideRange_slice (hsize : size < 2 ^ 64) :
    decideRange size (some header) = some .unsatisfiable ∨
      ∃ spec start len, Reads header spec ∧ spec.slice size = some (start, len) ∧
        decideRange size (some header) = some (.partialContent start len) := by
  by_cases hread : ∃ spec, Reads header spec
  · obtain ⟨spec, hspec⟩ := hread
    rw [decideRange_reads size header hsize hspec]
    by_cases hlong : 2 ^ 64 ≤ spec.bound
    · rw [if_pos hlong]
      exact Or.inl rfl
    · rw [if_neg hlong]
      cases hslice : spec.slice size with
      | none => exact Or.inl rfl
      | some slice => exact Or.inr ⟨spec, slice.1, slice.2, hspec, hslice, rfl⟩
  · exact Or.inl (decideRange_unread size header (not_exists.mp hread))

end Decision

/-- The program decides as the grammar does exactly when no number behind the dash of a
satisfiable range needs more than 64 bits. -/
theorem decideRange_grammar (size : UInt64) (range : Option String) :
    ∃ decision, decideRange size.toNat range = some decision ∧
      ((Agrees size.toNat range decision ∧ decision.Within size.toNat) ↔
        ¬ Overlong size.toNat range) := by
  have hsize : size.toNat < 2 ^ 64 := size.toNat_lt
  generalize size.toNat = size at hsize ⊢
  obtain ⟨decision, hdecision, hwithin⟩ := decideRange_within size range hsize
  refine ⟨decision, hdecision, ?_⟩
  constructor
  · intro h hoverlong
    obtain ⟨hagrees, -⟩ := h
    obtain ⟨header, spec, rfl, hspec, hslice, hlong⟩ := hoverlong
    obtain ⟨⟨start, len⟩, hslice⟩ := Option.isSome_iff_exists.mp hslice
    have hpartial := hagrees.1 spec start len hspec hslice
    rw [decideRange_reads size header hsize hspec, if_pos hlong, hpartial] at hdecision
    exact absurd (Option.some.inj hdecision) nofun
  · intro hfits
    refine ⟨?_, hwithin⟩
    cases range with
    | none => exact (Option.some.inj hdecision).symm
    | some header =>
      constructor
      · intro spec start len hspec hslice
        have hshort : ¬ 2 ^ 64 ≤ spec.bound := by
          intro hlong
          exact hfits ⟨header, spec, rfl, hspec, by rw [hslice]; rfl, hlong⟩
        rw [decideRange_reads size header hsize hspec, if_neg hshort, hslice] at hdecision
        exact (Option.some.inj hdecision).symm
      · intro hnone
        rcases decideRange_slice size header hsize with
          hrefused | ⟨spec, start, len, hspec, hslice, -⟩
        · exact Option.some.inj (hdecision.symm.trans hrefused)
        · rw [hnone spec hspec] at hslice
          contradiction

/-- A last position of twenty digits is refused. -/
theorem decideRange_grammar_long :
    ¬ ∃ decision,
      decideRange (10 : UInt64).toNat (some "bytes=0-99999999999999999999") = some decision ∧
      Agrees (10 : UInt64).toNat (some "bytes=0-99999999999999999999") decision ∧
        decision.Within (10 : UInt64).toNat := by
  intro h
  obtain ⟨decision, hdecision, hagrees, -⟩ := h
  have hrefused : decideRange (10 : UInt64).toNat (some "bytes=0-99999999999999999999") =
      some .unsatisfiable := by
    decide
  obtain rfl := Option.some.inj (hrefused.symm.trans hdecision)
  have hreads : Reads "bytes=0-99999999999999999999" (.between 0 99999999999999999999) :=
    .between "bytes".toList ['0'] "99999999999999999999".toList (by decide)
      ⟨by decide, List.all_eq_true.mp rfl⟩ ⟨by decide, List.all_eq_true.mp rfl⟩ (by decide)
  exact absurd (hagrees.1 _ 0 10 hreads (by decide)) nofun

end StuntDouble.Files
