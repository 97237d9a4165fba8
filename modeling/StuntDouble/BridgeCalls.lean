import StuntDouble.Codecs
import StuntDouble.Operands
import StuntDouble.Extraction

/-!
How the prelude calls the host. A payload is written as JSON, read by the worker as a value,
and the answer of the host takes the same way back. An answer that is not `ok` is thrown.
-/
namespace StuntDouble.Prelude

open JsonText

/-- An exception that leaves a call of a bridge; an upstream error carries its kind. -/
inductive Raised
  | thrown (thrown : Thrown)
  | upstream (message kind : String)
  | syntaxError
deriving DecidableEq, Repr

section Members

def truthy : Option Json → Bool
  | none | some .null => false
  | some (.bool b) => b
  | some (.number (.posInt n)) => n != 0
  | some (.number (.negInt _)) => true
  | some (.number (.float bits)) => bits <<< 1 != 0
  | some (.string s) => s != ""
  | some (.array _) | some (.object _) => true

/-- A member as a text; one that is missing is `undefined`. -/
def textMember (result : Json) (name : String) : String :=
  ((result.get name).bind Json.asStr).getD "undefined"

/-- The kind of an upstream error, which is `transport` unless the host says more. -/
def kindMember (result : Json) : String :=
  (((result.get "kind").bind Json.asStr).filter (· != "")).getD "transport"

/-- What becomes of the answer of the host. -/
def readAnswer (result : Json) : Except Raised Json :=
  if truthy (result.get "ok") then .ok result
  else if (result.get "code").bind Json.asStr = some "upstream_unreachable" then
    .error (.upstream (textMember result "message") (kindMember result))
  else .error (.thrown (.coded (textMember result "code") (textMember result "message")))

theorem checkUtf16Surrogates_error {message code : String} {units : List UInt16}
    {thrown : Thrown} (h : checkUtf16Surrogates message code units = .error thrown) :
    thrown = .coded code message := by
  fun_induction checkUtf16Surrogates message code units with
  | case1 => cases h
  | case2 | case3 | case5 =>
    cases h
    rfl
  | case4 unit hhigh next rest hnext ih => exact ih h
  | case6 unit rest hhigh hlow ih => exact ih h

end Members

section Calls

variable (floatText : UInt64 → String) (readFloat : List Char → Option UInt64)

/-- A call of a bridge in the worker; without an answer it throws. -/
def workerBridge (serve : Json → Option Json) (payload : Tree) : Option (List Char) :=
  ((fromStr readFloat (stringify payload)).bind serve).map (Json.compactChars floatText)

def callBridge (raw : Option (List Char)) (label : String) : Except Raised Json :=
  match raw with
  | none => .error (.thrown (.coded "script_error" (label ++ ": host bridge failed")))
  | some raw =>
    match parse readFloat raw with
    | none => .error .syntaxError
    | some result => readAnswer result

/-- An answer is read as the host wrote it. -/
theorem callBridge_compact {answer : Json} (label : String) (hplain : Plain answer) :
    callBridge readFloat (some (Json.compactChars floatText answer)) label = readAnswer answer := by
  have hread : parse readFloat (Json.compactChars floatText answer ++ []) = some answer :=
    parse_compact floatText readFloat answer hplain (by simp)
  rw [List.append_nil] at hread
  simp only [callBridge, hread]

theorem callBridge_answered {serve : Json → Option Json} {payload : Tree} {json answer : Json}
    (label : String) (hpayload : fromStr readFloat (stringify payload) = some json)
    (hserve : serve json = some answer) (hplain : Plain answer) :
    callBridge readFloat (workerBridge floatText readFloat serve payload) label =
      readAnswer answer := by
  rw [workerBridge, hpayload, Option.bind_some, hserve, Option.map_some,
    callBridge_compact floatText readFloat label hplain]

/-- A payload of members that are not repeated, as the host finds it. -/
theorem fromStr_object {entries : List (List UInt16 × Tree)} {members : List (String × Json)}
    (h : entriesToJson readFloat entries = some members) (hkeys : (members.map Prod.fst).Nodup)
    (hdepth : depthEntries members + 1 ≤ recursionLimit) :
    ∃ json, fromStr readFloat (stringify (.object entries)) = some json ∧
      ∀ name, json.get name = (members.lookup name).map Json.toValue := by
  have htree : (Tree.object entries).toJson readFloat = some (.object members) := by
    rw [Tree.toJson, h, Option.map_some]
  refine ⟨.object (Json.toEntries [] members), ?_, ?_⟩
  · rw [fromStr, parse_stringify, htree, Option.filter_some,
      if_pos (decide_eq_true (show depth (.object members) ≤ recursionLimit from hdepth))]
    rfl
  · intro name
    show (Json.toEntries [] members).lookup name = _
    rw [Json.lookup_toEntries name [] members hkeys, List.lookup_nil, Option.or_none]

end Calls

end StuntDouble.Prelude
