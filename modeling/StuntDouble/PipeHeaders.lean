import StuntDouble.FirstValues
import StuntDouble.CallFacts
import StuntDouble.Host

/-!
The headers of a piped response: those of the script, as they are, and behind them the two
headers of the upstream answer that describe its body. The loop that merges them looks for a
name in the list that it is extending, so the first readable value of a name wins.
-/
namespace StuntDouble.Upstream

open FirstValues Http RequestLog Script

section Merge

/-- The headers of an answer, a line for each value. -/
def headerLines (headers : HeaderMap) : List (String × HeaderValue) :=
  headers.flatMap fun entry => entry.2.map (Prod.mk entry.1)

/-- The first value of a name, in any case, that is text. -/
def firstText (lines : List (String × HeaderValue)) (name : String) : Option String :=
  (lines.filter fun line => eqIgnoreAsciiCase line.1 name).findSome? fun line => line.2.toStr

def IsSet (headers : List (String × String)) (name : String) : Prop :=
  ∃ header ∈ headers, eqIgnoreAsciiCase header.1 name = true

/-- The names of the upstream headers that travel with a piped body. -/
def bodyNames : List String := ["content-range", "content-length"]

/-- The upstream headers that stand behind those of the script. -/
structure Relayed (script : List (String × String)) (lines : List (String × HeaderValue))
    (relayed : List (String × String)) : Prop where
  nodup : (relayed.map Prod.fst).Nodup
  mem_iff : ∀ name value, (name, value) ∈ relayed ↔
    name ∈ bodyNames ∧ ¬ IsSet script name ∧ firstText lines name = some value

theorem asciiLower_bodyName {name : String} (h : name ∈ bodyNames) : asciiLower name = name := by
  rcases List.mem_pair.mp h with rfl | rfl
  · decide
  · decide

theorem any_iff_isSet (headers : List (String × String)) (name : String) :
    headers.any (fun existing => eqIgnoreAsciiCase existing.1 name) = true ↔
      IsSet headers name := List.any_eq_true

def wanted (script : List (String × String)) (name : String) : Bool :=
  decide (name ∈ bodyNames) && !script.any (fun existing => eqIgnoreAsciiCase existing.1 name)

theorem wanted_iff (script : List (String × String)) (name : String) :
    wanted script name = true ↔ name ∈ bodyNames ∧ ¬ IsSet script name := by
  rw [wanted, Bool.and_eq_true, decide_eq_true_iff, Bool.not_eq_true', ← Bool.not_eq_true,
    any_iff_isSet]

/-- Lower-case names are set when they are there. -/
theorem isSet_bodyNames {taken : List (String × String)}
    (h : ∀ header ∈ taken, header.1 ∈ bodyNames) {name : String} (hname : name ∈ bodyNames) :
    IsSet taken name ↔ name ∈ taken.map Prod.fst := by
  unfold IsSet eqIgnoreAsciiCase
  rw [List.mem_map]
  constructor
  · rintro ⟨header, hheader, hsame⟩
    rw [beq_iff_eq, asciiLower_bodyName (h header hheader), asciiLower_bodyName hname] at hsame
    exact ⟨header, hheader, hsame⟩
  · rintro ⟨header, hheader, rfl⟩
    exact ⟨header, hheader, beq_self_eq_true _⟩

/-- A value with the name that the merge gives it. -/
def named (line : String × HeaderValue) : String × Option String :=
  (asciiLower line.1, line.2.toStr)

theorem mem_bodyNames_of_take (script : List (String × String)) {taken : List (String × String)}
    (h : ∀ header ∈ taken, header.1 ∈ bodyNames) (line : String × HeaderValue) :
    ∀ header ∈ FirstValues.take (wanted script) taken (named line), header.1 ∈ bodyNames := by
  unfold FirstValues.take
  split
  · rename_i hadd
    intro header hheader
    rcases List.mem_append.mp hheader with hheader | hheader
    · exact h header hheader
    · obtain ⟨value, -, rfl⟩ := Option.map_eq_some_iff.mp (Option.mem_toList.mp hheader)
      exact ((wanted_iff script (named line).1).mp hadd.1).1
  · exact h

/-- What the loop asks of a line, seen from what was taken of the lines before it. -/
theorem added_iff (script : List (String × String)) {taken : List (String × String)}
    (h : ∀ header ∈ taken, header.1 ∈ bodyNames) (name : String) :
    ((name = "content-range" ∨ name = "content-length") ∧
      ¬ (script ++ taken).any (fun existing => eqIgnoreAsciiCase existing.1 name)) ↔
      (wanted script name = true ∧ name ∉ taken.map Prod.fst) := by
  rw [wanted_iff, List.any_append, Bool.or_eq_true, not_or, any_iff_isSet, any_iff_isSet,
    ← List.mem_pair, and_assoc]
  apply and_congr_right
  intro hname
  rw [isSet_bodyNames h hname]

/-- A loop that adds the lines to the headers of the script as `take` adds them to a list. -/
theorem foldl_script (script : List (String × String))
    (step : List (String × String) → String × HeaderValue → List (String × String))
    (hstep : ∀ taken : List (String × String), (∀ header ∈ taken, header.1 ∈ bodyNames) →
      ∀ line : String × HeaderValue, step (script ++ taken) (asciiLower line.1, line.2) =
        script ++ FirstValues.take (wanted script) taken (named line))
    (lines : List (String × HeaderValue)) {taken : List (String × String)}
    (h : ∀ header ∈ taken, header.1 ∈ bodyNames) :
    (lines.map fun line => (asciiLower line.1, line.2)).foldl step (script ++ taken) =
      script ++ (lines.map named).foldl (FirstValues.take (wanted script)) taken := by
  induction lines generalizing taken with
  | nil => rfl
  | cons line rest ih =>
    have hrest := ih (mem_bodyNames_of_take script h line)
    rw [← hstep taken h line] at hrest
    exact hrest

theorem passthrough_eq (script : List (String × String)) (headers : HeaderMap) :
    passthrough script headers =
      script ++ collect (wanted script) ((headerLines headers).map named) := by
  have hlines : headers.flatMap (fun entry => entry.2.map (fun value =>
      (asciiLower entry.1, value))) =
        (headerLines headers).map (fun line => (asciiLower line.1, line.2)) := by
    rw [headerLines, List.map_flatMap]
    simp only [List.map_map]
    rfl
  have hnone : ∀ header ∈ ([] : List (String × String)), header.1 ∈ bodyNames := by simp
  unfold passthrough
  rw [hlines, ← List.append_nil script]
  refine (foldl_script script _ ?_ (headerLines headers) hnone).trans ?_
  · intro taken htaken line
    have hadded := added_iff script htaken (asciiLower line.1)
    unfold FirstValues.take
    by_cases hadd : wanted script (named line).1 = true ∧ (named line).1 ∉ taken.map Prod.fst
    · rw [if_pos (hadded.mpr hadd), if_pos hadd]
      show _ = script ++ (taken ++ (line.2.toStr.map (Prod.mk (asciiLower line.1))).toList)
      cases line.2.toStr with
      | none => simp
      | some value => simp
    · rw [if_neg (hadded.not.mpr hadd), if_neg hadd]
  · rw [List.append_nil]
    rfl

theorem first_named (lines : List (String × HeaderValue)) {name : String}
    (hname : name ∈ bodyNames) : first (lines.map named) name = firstText lines name := by
  have hsame (line : String × HeaderValue) :
      decide ((named line).1 = name) = eqIgnoreAsciiCase line.1 name := by
    rw [eqIgnoreAsciiCase, asciiLower_bodyName hname]
    rfl
  unfold first firstText
  rw [List.filter_map, List.findSome?_map]
  have hfilter : lines.filter ((fun entry => decide (entry.1 = name)) ∘ named) =
      lines.filter fun line => eqIgnoreAsciiCase line.1 name :=
    List.filter_congr fun line _ => hsame line
  rw [hfilter]
  rfl

theorem passthrough_relayed (script : List (String × String)) (headers : HeaderMap) :
    ∃ relayed, passthrough script headers = script ++ relayed ∧
      Relayed script (headerLines headers) relayed := by
  have hcollects := collects_collect (wanted script) ((headerLines headers).map named)
  refine ⟨_, passthrough_eq script headers, hcollects.nodup, ?_⟩
  intro name value
  rw [hcollects.mem_iff, wanted_iff, and_assoc]
  apply and_congr_right
  intro hname
  rw [first_named _ hname]

end Merge

section Calls

variable {Url : Type} (lib : UrlLibrary Url) (access : Access) (world : World Url)

/-- The pairs that a script has passed; it may pass none. -/
def Supplied (value : Option Json) (pairs : List (String × String)) : Prop :=
  value = some (.array (pairs.map headerRow)) ∨ (pairs = [] ∧ (value = none ∨ value = some .null))

theorem parsePipeRow_ok {row : Json} {pair : String × String} (h : parsePipeRow row = .ok pair) :
    row = headerRow pair := by
  unfold parsePipeRow at h
  split at h
  · cases h
    rfl
  · cases h

theorem parsePipeHeaders_ok {value : Option Json} {pairs : List (String × String)}
    (h : parsePipeHeaders value = .ok pairs) : Supplied value pairs := by
  have hrows : ∀ (rows : List Json) (pairs : List (String × String)),
      rows.mapM parsePipeRow = .ok pairs → rows = pairs.map headerRow := by
    intro rows
    induction rows with
    | nil =>
      intro pairs h
      cases h
      rfl
    | cons row rest ih =>
      intro pairs h
      rw [List.mapM_cons] at h
      cases hrow : parsePipeRow row with
      | error error =>
        rw [hrow] at h
        cases h
      | ok pair =>
        rw [hrow] at h
        cases hrest : rest.mapM parsePipeRow with
        | error error =>
          rw [hrest] at h
          cases h
        | ok others =>
          rw [hrest] at h
          cases h
          rw [List.map_cons, parsePipeRow_ok hrow, ih others hrest]
  unfold parsePipeHeaders at h
  split at h
  · cases h
    exact Or.inr ⟨rfl, Or.inl rfl⟩
  · cases h
    exact Or.inr ⟨rfl, Or.inr rfl⟩
  · rename_i rows
    exact Or.inl (by rw [hrows rows pairs h])
  · cases h

theorem parsePipeCall_ok {debugText : String → String} {payload : Json} {call : PipeCall}
    (h : parsePipeCall debugText payload = .ok call) :
    Supplied (payload.get "headers") call.headers := by
  unfold parsePipeCall at h
  repeat' split at h
  all_goals first
    | cases h
    | skip
  cases hheaders : parsePipeHeaders (payload.get "headers") with
  | error error =>
    rw [hheaders] at h
    cases h
  | ok pairs =>
    rw [hheaders] at h
    cases h
    exact parsePipeHeaders_ok hheaders

theorem pipeInner_ok {payload : Json} {index : ℕ} {calls : CallLog} {response : PipeResponse}
    (h : (pipeInner lib access world payload index calls).result = .ok response) :
    ∃ call answer, parsePipeCall lib.debugText payload = .ok call ∧
      pipeAnswered lib access world payload = some answer ∧
        pipeAnswer world call index answer = .ok response := by
  unfold pipeInner at h
  cases hparsed : parsePipeCall lib.debugText payload with
  | error error =>
    rw [hparsed] at h
    cases h
  | ok call =>
    simp only [hparsed] at h
    cases hurl : lib.parse call.url with
    | error message =>
      simp only [hurl] at h
      cases h
    | ok url =>
      simp only [hurl] at h
      have hresult := sendFirst_result lib access world (pipeMode access) .invalidUrl none index 0
        url (calls.update index (recordUrl lib url)) []
      split at h
      · cases h
      · rename_i answer hsent
        refine ⟨call, answer, rfl, ?_, h⟩
        rw [hsent] at hresult
        simp only [pipeAnswered, pipeUrl, hparsed, Except.toOption, Option.bind_some, hurl,
          ← hresult]

theorem pipe_ok (elapsedMs : ℕ → Ms) {payload : Json} {calls : CallLog}
    {response : PipeResponse}
    (h : (pipe lib access world elapsedMs payload calls).result = .ok response) :
    ∃ call index answer, parsePipeCall lib.debugText payload = .ok call ∧
      pipeAnswered lib access world payload = some answer ∧
        pipeAnswer world call index answer = .ok response := by
  unfold pipe at h
  simp only at h
  split at h
  · obtain ⟨call, answer, hparsed, hanswered, hanswer⟩ := pipeInner_ok lib access world h
    exact ⟨call, _, answer, hparsed, hanswered, hanswer⟩
  · rename_i error herror
    rw [herror] at h
    cases h

/-- A call that succeeds has merged the headers of its answer into those of the script. -/
theorem pipe_headers (elapsedMs : ℕ → Ms) {payload : Json} {calls : CallLog}
    {response : PipeResponse}
    (h : (pipe lib access world elapsedMs payload calls).result = .ok response) :
    ∃ script answer relayed, Supplied (payload.get "headers") script ∧
      pipeAnswered lib access world payload = some answer ∧
        response.headers = script ++ relayed ∧
          Relayed script (headerLines answer.headers) relayed := by
  obtain ⟨call, index, answer, hparsed, hanswered, hanswer⟩ :=
    pipe_ok lib access world elapsedMs h
  obtain ⟨relayed, hmerged, hrelayed⟩ := passthrough_relayed call.headers answer.headers
  refine ⟨call.headers, answer, relayed, parsePipeCall_ok hparsed, hanswered, ?_, hrelayed⟩
  unfold pipeAnswer at hanswer
  split at hanswer
  · cases hanswer
    exact hmerged
  · cases hanswer

end Calls

end StuntDouble.Upstream

namespace StuntDouble.Script

open Upstream

/-- What the worker is told of a piped answer: the headers of the script as they are, and then
the upstream headers of the body that the script has not set, each once and with the first of
its values that is text. -/
theorem pipe_headers_merged {Url : Type} (env : Server.Env) (world : HostWorld Url)
    (host : HostState) (call : HostCall) (result : Json) (hname : call.name = .httpPipe)
    (hresult : (host.dispatch env world call).2 = some result)
    (hok : result.get "ok" = some (.bool true)) :
    ∃ access script answer relayed, host.upstream = some access ∧
      Supplied (call.payload.get "headers") script ∧
      pipeAnswered world.lib access (world.upstream host.turn) call.payload = some answer ∧
      result.get "headers" = some (.array ((script ++ relayed).map headerRow)) ∧
      Relayed script (headerLines answer.headers) relayed := by
  unfold HostState.dispatch at hresult
  simp only [hname] at hresult
  cases haccess : host.upstream with
  | none =>
    simp only [haccess] at hresult
    cases hresult
  | some access =>
    simp only [haccess] at hresult
    cases hpiped : (Upstream.pipe world.lib access (world.upstream host.turn) env.elapsedMs
        call.payload host.calls).result with
    | error error =>
      simp only [hpiped] at hresult
      cases hresult
      simp [upstreamErrorJson, Json.get, List.lookup_cons] at hok
    | ok response =>
      simp only [hpiped] at hresult
      cases hresult
      obtain ⟨script, answer, relayed, hscript, hanswered, hheaders, hrelayed⟩ :=
        pipe_headers world.lib access (world.upstream host.turn) env.elapsedMs hpiped
      refine ⟨access, script, answer, relayed, rfl, hscript, hanswered, ?_, hrelayed⟩
      rw [← hheaders]
      rfl

/-- The script has set the length, and the first range that the upstream names is no text. -/
theorem pipe_headers_merged_mixed :
    let env : Server.Env := ⟨Http.HeaderGrammar.letters, id, fun elapsed => UInt64.ofNat elapsed⟩
    let library : UrlLibrary String :=
      ⟨.ok, fun _ url => .ok url, fun _ => "http", some, some, fun _ => "/", id⟩
    let headers : Http.HeaderMap :=
      [("Set-Cookie", [[120]]), ("Content-Range", [[255], [98], [99]]), ("content-length", [[49]])]
    let world : HostWorld String :=
      ⟨library, fun _ => ⟨fun _ _ _ _ => .ok ⟨200, headers, fun _ => .ok [], [.chunk [1]]⟩, 0, 0,
        fun _ => 0, 0, 0⟩, fun _ _ => ⟨.error .notFound, 0, 0, by simp⟩, fun _ _ => none,
        ⟨fun _ => "", 0⟩, fun _ => State.newSharedState, id, fun _ => "", fun _ => 0⟩
    let host := HostState.new ⟨["a"], 1000, 1000, none⟩ false
    let call : HostCall := ⟨.httpPipe, .object [("url", .string "a"),
      ("headers", .array [.array [.string "CONTENT-length", .string "1"]])]⟩
    ∃ result, (host.dispatch env world call).2 = some result ∧
      ∃ access script answer relayed, host.upstream = some access ∧
        Supplied (call.payload.get "headers") script ∧
        pipeAnswered world.lib access (world.upstream host.turn) call.payload = some answer ∧
        result.get "headers" = some (.array ((script ++ relayed).map headerRow)) ∧
        Relayed script (headerLines answer.headers) relayed := by
  intro env library headers world host call
  have hok : ((host.dispatch env world call).2.bind (Json.get "ok")).bind Json.asBool =
      some true := by decide +kernel +revert
  obtain ⟨value, hvalue, htrue⟩ := Option.bind_eq_some_iff.mp hok
  obtain ⟨result, hresult, hget⟩ := Option.bind_eq_some_iff.mp hvalue
  cases value with
  | bool b =>
    cases htrue
    exact ⟨result, hresult, pipe_headers_merged env world host call result rfl hresult hget⟩
  | _ => cases htrue

end StuntDouble.Script
