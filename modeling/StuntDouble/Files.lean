import StuntDouble.RequestLog
import StuntDouble.Http

/-!
File calls and file streams: the record of one call, an opened file body, and
the decision which slice of it a `Range` header asks for. Arithmetic on unsigned
64-bit integers is checked; no result stands for an operation that would wrap.
-/
namespace StuntDouble.Files

open RequestLog Http

/-- One `ctx.file` or upload call in the request log. -/
structure CallRecord where
  api : String
  bytes : Option ℕ
  durationMs : Option Ms
  error : Option String
deriving DecidableEq

def CallRecord.new (api : String) : CallRecord := ⟨api, none, none, none⟩

instance : LogRecord CallRecord where
  toJson record := .object [("api", .string record.api), ("bytes", Json.opt Json.nat record.bytes),
    ("duration_ms", Json.opt (fun ms => .number (.float ms)) record.durationMs),
    ("error", Json.opt Json.string record.error)]
  setDurationMs record ms := { record with durationMs := some ms }
  setBytes record bytes := { record with bytes := some bytes }
  durationMs record := record.durationMs
  toJson_duration record := by cases record.durationMs <;> rfl
  durationMs_set _ _ := rfl
  durationMs_setBytes _ _ := rfl

abbrev CallLog := Chain CallRecord

inductive RangeDecision
  | full
  | partialContent (start len : ℕ)
  | unsatisfiable
deriving DecidableEq, Repr

def checkedAdd (a b : ℕ) : Option ℕ := if a + b < 2 ^ 64 then some (a + b) else none

def checkedSub (a b : ℕ) : Option ℕ := if b ≤ a then some (a - b) else none

/-- The characters that trimming removes. -/
def isWhitespace (c : Char) : Bool :=
  (9 ≤ c.toNat && c.toNat ≤ 13) || (0x2000 ≤ c.toNat && c.toNat ≤ 0x200A) ||
    [0x20, 0x85, 0xA0, 0x1680, 0x2028, 0x2029, 0x202F, 0x205F, 0x3000].contains c.toNat

def trim (s : List Char) : List Char :=
  ((s.dropWhile isWhitespace).reverse.dropWhile isWhitespace).reverse

/-- The text before and after the first occurrence of a separator. -/
def splitOnce (sep : Char) : List Char → Option (List Char × List Char)
  | [] => none
  | c :: rest =>
    if c = sep then some ([], rest)
    else (splitOnce sep rest).map (fun halves => (c :: halves.1, halves.2))

section Splitting

theorem splitOnce_append (sep : Char) (front back : List Char) (h : sep ∉ front) :
    splitOnce sep (front ++ sep :: back) = some (front, back) := by
  induction front with
  | nil => simp [splitOnce]
  | cons c rest ih =>
    rw [List.mem_cons, not_or] at h
    rw [List.cons_append, splitOnce, if_neg (Ne.symm h.1), ih h.2]
    rfl

theorem splitOnce_none (sep : Char) (text : List Char) (h : sep ∉ text) :
    splitOnce sep text = none := by
  induction text with
  | nil => rfl
  | cons c rest ih =>
    rw [List.mem_cons, not_or] at h
    rw [splitOnce, if_neg (Ne.symm h.1), ih h.2]
    rfl

theorem splitOnce_some {sep : Char} {text front back : List Char}
    (h : splitOnce sep text = some (front, back)) : text = front ++ sep :: back := by
  induction text generalizing front with
  | nil => contradiction
  | cons c rest ih =>
    rw [splitOnce] at h
    by_cases hsep : c = sep
    · rw [if_pos hsep] at h
      obtain ⟨rfl, rfl⟩ := Prod.mk.inj (Option.some.inj h)
      rw [hsep]
      rfl
    · rw [if_neg hsep] at h
      obtain ⟨halves, hrest, heq⟩ := Option.map_eq_some_iff.mp h
      obtain ⟨rfl, rfl⟩ := Prod.mk.inj heq
      rw [ih hrest]
      rfl

end Splitting

def digitsValue (digits : List Char) : ℕ :=
  digits.foldl (fun value c => value * 10 + (c.toNat - '0'.toNat)) 0

def parseIndex (raw : List Char) : Option ℕ :=
  if raw = [] ∨ ¬ raw.all Char.isDigit then none
  else if digitsValue raw < 2 ^ 64 then some (digitsValue raw) else none

/-- The last `suffix` bytes of a file. -/
def suffixRange (size suffix : ℕ) : Option RangeDecision :=
  if suffix = 0 then some .unsatisfiable
  else (checkedSub size (min suffix size)).map
    (fun start => .partialContent start (min suffix size))

/-- The last index of a range, `none` inside when it is unusable. -/
def rangeEnd (size start : ℕ) (last : List Char) : Option (Option ℕ) :=
  if last = [] then (checkedSub size 1).map some
  else
    match parseIndex last with
    | none => some none
    | some stop =>
      if stop < start then some none
      else (checkedSub size 1).map (fun greatest => some (min stop greatest))

def indexRange (size start : ℕ) (last : List Char) : Option RangeDecision :=
  if size ≤ start then some .unsatisfiable
  else
    match rangeEnd size start last with
    | none => none
    | some none => some .unsatisfiable
    | some (some stop) =>
      ((checkedSub stop start).bind (fun steps => checkedAdd steps 1)).map
        (fun len => .partialContent start len)

def decideRange (size : ℕ) (range : Option String) : Option RangeDecision :=
  match range with
  | none => some .full
  | some header =>
    match splitOnce '=' (trim header.toList) with
    | none => some .unsatisfiable
    | some (unit, spec) =>
      if eqIgnoreAsciiCase (String.ofList unit) "bytes" = false ∨ ',' ∈ spec ∨ size = 0 then
        some .unsatisfiable
      else
        match splitOnce '-' spec with
        | none => some .unsatisfiable
        | some (first, last) =>
          if first = [] then
            match parseIndex last with
            | none => some .unsatisfiable
            | some suffix => suffixRange size suffix
          else
            match parseIndex first with
            | none => some .unsatisfiable
            | some start => indexRange size start last

/-- One opened file body; `content` is what the open file holds. -/
structure FileBody where
  content : Bytes
  size : ℕ
  offset : ℕ
  len : ℕ
  call : Pending

inductive StreamOutcome
  | complete
  | fileError
  | clientDisconnected
deriving DecidableEq, Repr

namespace StreamOutcome

def fromChannelClose (bytes : ℕ) (announcedContentLength : Option ℕ) : StreamOutcome :=
  if announcedContentLength = some bytes then .complete else .clientDisconnected

def errorClass : StreamOutcome → Option String
  | .complete => none
  | .fileError => some "file_stream_error"
  | .clientDisconnected => some "client_disconnected"

end StreamOutcome

/-- Finalize a file call with the outcome of its body stream. -/
def finishStream (elapsedMs : ℕ → Ms) (now bytes : ℕ) (outcome : StreamOutcome)
    (fileCalls : CallLog) (call : Pending) : CallLog :=
  (call.finishWith elapsedMs now bytes
    (fun record => { record with error := outcome.errorClass }) fileCalls).1

theorem finishStream_get (elapsedMs : ℕ → Ms) (now bytes : ℕ) (outcome : StreamOutcome)
    (fileCalls : CallLog) (call : Pending) (hpending : call.finished = false)
    (hbegun : call.index < fileCalls.length) :
    ∃ record, (finishStream elapsedMs now bytes outcome fileCalls call)[call.index]? =
      some record ∧ record.bytes = some bytes := by
  obtain ⟨record, hrecord⟩ := finishWith_get elapsedMs now bytes
    (fun record : CallRecord => { record with error := outcome.errorClass }) fileCalls call
    hpending hbegun
  exact ⟨_, hrecord, rfl⟩

/-- A usable range is a non-empty slice of the file. -/
def RangeDecision.Within (size : ℕ) : RangeDecision → Prop
  | .partialContent start len => 0 < len ∧ start + len ≤ size
  | _ => True

theorem suffixRange_within (size suffix : ℕ) (hsize : size ≠ 0) :
    ∃ decision, suffixRange size suffix = some decision ∧ decision.Within size := by
  unfold suffixRange
  by_cases hzero : suffix = 0
  · exact ⟨.unsatisfiable, if_pos hzero, trivial⟩
  · have hle : min suffix size ≤ size := Nat.min_le_right suffix size
    refine ⟨.partialContent (size - min suffix size) (min suffix size), ?_, ?_, ?_⟩
    · rw [if_neg hzero, checkedSub, if_pos hle]
      rfl
    · omega
    · omega

theorem indexRange_within (size start : ℕ) (last : List Char) (hsize : size < 2 ^ 64) :
    ∃ decision, indexRange size start last = some decision ∧ decision.Within size := by
  unfold indexRange
  by_cases hstart : size ≤ start
  · exact ⟨.unsatisfiable, if_pos hstart, trivial⟩
  · rw [if_neg hstart]
    have hrange : ∀ stop, start ≤ stop → stop < size →
        ∃ decision, ((checkedSub stop start).bind (fun steps => checkedAdd steps 1)).map
          (fun len => RangeDecision.partialContent start len) = some decision ∧
            decision.Within size := by
      intro stop hle hlt
      refine ⟨.partialContent start (stop - start + 1), ?_, ?_, ?_⟩
      · have hfits : stop - start + 1 < 2 ^ 64 := by omega
        have hsteps : checkedSub stop start = some (stop - start) := if_pos hle
        have hlen : checkedAdd (stop - start) 1 = some (stop - start + 1) := if_pos hfits
        rw [hsteps, Option.bind_some, hlen, Option.map_some]
      · omega
      · omega
    have hone : checkedSub size 1 = some (size - 1) := if_pos (by omega)
    unfold rangeEnd
    by_cases hlast : last = []
    · rw [if_pos hlast, hone]
      exact hrange (size - 1) (by omega) (by omega)
    · rw [if_neg hlast]
      cases parseIndex last with
      | none => exact ⟨.unsatisfiable, rfl, trivial⟩
      | some stop =>
        by_cases hback : stop < start
        · simp only [if_pos hback]
          exact ⟨.unsatisfiable, rfl, trivial⟩
        · simp only [if_neg hback, hone]
          exact hrange (min stop (size - 1)) (by omega) (by omega)

/-- The decision never wraps, and a partial one is a slice of the file. -/
theorem decideRange_within (size : ℕ) (range : Option String) (hsize : size < 2 ^ 64) :
    ∃ decision, decideRange size range = some decision ∧ decision.Within size := by
  unfold decideRange
  cases range with
  | none => exact ⟨.full, rfl, trivial⟩
  | some header =>
    simp only
    cases splitOnce '=' (trim header.toList) with
    | none => exact ⟨.unsatisfiable, rfl, trivial⟩
    | some halves =>
      obtain ⟨unit, spec⟩ := halves
      simp only
      by_cases hunusable : eqIgnoreAsciiCase (String.ofList unit) "bytes" = false ∨
          ',' ∈ spec ∨ size = 0
      · exact ⟨.unsatisfiable, if_pos hunusable, trivial⟩
      · rw [if_neg hunusable]
        have hpos : size ≠ 0 := fun h => hunusable (Or.inr (Or.inr h))
        cases splitOnce '-' spec with
        | none => exact ⟨.unsatisfiable, rfl, trivial⟩
        | some bounds =>
          obtain ⟨first, last⟩ := bounds
          simp only
          by_cases hfirst : first = []
          · rw [if_pos hfirst]
            cases parseIndex last with
            | none => exact ⟨.unsatisfiable, rfl, trivial⟩
            | some suffix => exact suffixRange_within size suffix hpos
          · rw [if_neg hfirst]
            cases parseIndex first with
            | none => exact ⟨.unsatisfiable, rfl, trivial⟩
            | some start => exact indexRange_within size start last hsize

example : decideRange 10 (some " bytes=2-4") = some (.partialContent 2 3) := by decide

end StuntDouble.Files
