import StuntDouble.UpstreamCalls
import StuntDouble.FileAccess

/-!
What is known of a call from the outside: its capability, the host and the path of every
URL that it went to, the status, the number of bytes, the code and the kind of its error,
and how long it took. The entry that a call leaves in its chain is made of these facts,
whatever else the URLs, the payloads, the bodies and the messages of its errors say.
-/
namespace StuntDouble.Upstream

open RequestLog Http

structure Facts where
  api : String
  hops : List (Option String × String)
  status : Option ℕ
  bytes : Option ℕ
  durationMs : Option Ms
  error : Option String
  kind : Option String
deriving DecidableEq

/-- The entry that is about the last of the hops. -/
def CallRecord.placed (record : CallRecord) (hops : List (Option String × String)) : CallRecord :=
  { record with
    host := hops.getLast?.bind Prod.fst
    path := hops.getLast?.map Prod.snd
    redirects := hops.length - 1 }

/-- The entry that the facts of a call make. -/
def Facts.record (facts : Facts) : CallRecord :=
  CallRecord.placed ⟨facts.api, none, none, facts.status, facts.bytes, facts.durationMs, 0,
    facts.error, facts.kind⟩ facts.hops

instance : LogRecord Facts where
  toJson facts := LogRecord.toJson facts.record
  setDurationMs facts ms := { facts with durationMs := some ms }
  setBytes facts bytes := { facts with bytes := some bytes }
  durationMs facts := facts.durationMs
  toJson_duration facts := LogRecord.toJson_duration facts.record
  durationMs_set _ _ := rfl
  durationMs_setBytes _ _ := rfl

theorem renders_record : Renders Facts.record := ⟨fun _ _ => rfl, fun _ _ => rfl⟩

theorem snapshot_record (calls : Chain Facts) :
    Chain.snapshot (calls.map Facts.record) = calls.snapshot := by
  unfold Chain.snapshot
  rw [List.map_map]
  rfl

variable {Url : Type} (lib : UrlLibrary Url) (access : Access) (world : World Url)

section Hops

variable (mode : Mode) (deadline : ℕ)

/-- What an entry says about a URL. -/
def place (url : Url) : Option String × String := (lib.hostStr url, lib.path url)

/-- The permitted URL that the answer to the n-th request points to. -/
def nextHop (n : ℕ) (url : Url) : Option Url :=
  if deadline - world.turnAt n = 0 then none
  else
    match world.fetch n url (deadline - world.turnAt n) mode.range with
    | .error _ => none
    | .ok answer =>
      if isRedirect answer.status then
        ((answer.headers.get "location").bind HeaderValue.toStr).bind (fun text =>
          (lib.join url text).toOption.bind (fun next =>
            (validate lib access next mode.redirectError).toOption.map (fun _ => next)))
      else none

/-- The URLs that a call goes to, with so many redirects left. -/
def visited : ℕ → Url → List Url
  | 0, url => [url]
  | left + 1, url =>
    match nextHop lib access world mode deadline (maxRedirects - (left + 1)) url with
    | none => [url]
    | some next => url :: visited left next

/-- The URLs that a call goes to from its first one, which may be refused. -/
def hops (url : Url) : List (Option String × String) :=
  match validate lib access url .policy with
  | .error _ => [place lib url]
  | .ok () => (visited lib access world mode deadline maxRedirects url).map (place lib)

variable {lib access world mode deadline}

theorem nextHop_some {n : ℕ} {url next : Url}
    (h : nextHop lib access world mode deadline n url = some next) :
    Redirects lib world mode deadline n url next ∧ Permitted lib access next := by
  unfold nextHop at h
  by_cases htime : deadline - world.turnAt n = 0
  · rw [if_pos htime] at h
    contradiction
  · rw [if_neg htime] at h
    cases hfetch : world.fetch n url (deadline - world.turnAt n) mode.range with
    | error error =>
      rw [hfetch] at h
      contradiction
    | ok answer =>
      simp only [hfetch] at h
      by_cases hstatus : isRedirect answer.status = true
      · rw [if_pos hstatus] at h
        obtain ⟨text, htext, hjoined⟩ := Option.bind_eq_some_iff.mp h
        obtain ⟨location, hlocation, htext⟩ := Option.bind_eq_some_iff.mp htext
        obtain ⟨joined, hjoin, hvalid⟩ := Option.bind_eq_some_iff.mp hjoined
        obtain ⟨-, hvalid, rfl⟩ := Option.map_eq_some_iff.mp hvalid
        refine ⟨⟨answer, location, text, ⟨htime, hfetch⟩, hstatus, hlocation, htext, ?_⟩, ?_⟩
        · cases hresult : lib.join url text with
          | error message =>
            rw [hresult] at hjoin
            contradiction
          | ok next =>
            rw [hresult] at hjoin
            rw [Option.some.inj hjoin]
        · apply (validate_ok_iff lib access joined mode.redirectError).mp
          cases hresult : validate lib access joined mode.redirectError with
          | error error =>
            rw [hresult] at hvalid
            contradiction
          | ok _ => rfl
      · rw [if_neg hstatus] at h
        contradiction

theorem nextHop_of_redirects {n : ℕ} {url next : Url}
    (hredirects : Redirects lib world mode deadline n url next)
    (hpermitted : Permitted lib access next) :
    nextHop lib access world mode deadline n url = some next := by
  obtain ⟨answer, location, text, hanswers, hstatus, hlocation, htext, hjoin⟩ := hredirects
  unfold nextHop
  rw [if_neg hanswers.time, hanswers.fetched]
  simp only [if_pos hstatus, hlocation, Option.bind_some, htext, hjoin, Except.toOption,
    validate_permitted lib access next mode.redirectError hpermitted, Option.map_some]

/-- Where the loop ends there is no further URL. -/
theorem nextHop_ending {n : ℕ} {url : Url} {result : Except Error Answer}
    (hending : Ending lib access world mode deadline n url result) (hlimit : n < maxRedirects) :
    nextHop lib access world mode deadline n url = none := by
  cases hnext : nextHop lib access world mode deadline n url with
  | none => rfl
  | some next =>
    obtain ⟨hredirects, hpermitted⟩ := nextHop_some hnext
    rcases hending.redirected hredirects with ⟨hreached, -⟩ | ⟨error, hrejected, -⟩
    · omega
    · rw [validate_permitted lib access next mode.redirectError hpermitted] at hrejected
      contradiction

theorem visited_ending {n : ℕ} {url : Url} {result : Except Error Answer}
    (hending : Ending lib access world mode deadline n url result) (hle : n ≤ maxRedirects) :
    visited lib access world mode deadline (maxRedirects - n) url = [url] := by
  cases hleft : maxRedirects - n with
  | zero => rfl
  | succ left =>
    have hn : maxRedirects - (left + 1) = n := by omega
    rw [visited, hn, nextHop_ending hending (by omega)]

theorem visited_hop {n : ℕ} {url next : Url}
    (hredirects : Redirects lib world mode deadline n url next) (hlimit : n < maxRedirects)
    (hpermitted : Permitted lib access next) :
    visited lib access world mode deadline (maxRedirects - n) url =
      url :: visited lib access world mode deadline (maxRedirects - (n + 1)) next := by
  obtain ⟨left, hleft⟩ : ∃ left, maxRedirects - n = left + 1 := ⟨maxRedirects - n - 1, by omega⟩
  have hn : maxRedirects - (left + 1) = n := by omega
  have hrest : maxRedirects - (n + 1) = left := by omega
  rw [hleft, hrest, visited, hn, nextHop_of_redirects hredirects hpermitted]

/-- Without time nothing is requested. -/
theorem visited_late (left : ℕ) (url : Url) :
    visited lib access world mode 0 left url = [url] := by
  cases left with
  | zero => rfl
  | succ left =>
    have hnone : nextHop lib access world mode 0 (maxRedirects - (left + 1)) url = none :=
      if_pos (Nat.zero_sub _)
    rw [visited, hnone]

end Hops

section Calls

variable {lib access world}

theorem placed_hop (record : CallRecord) (past : List (Option String × String)) (url : Url)
    (n : ℕ) (hn : past.length = n) :
    recordUrl lib url { record.placed past with redirects := n } =
      record.placed (past ++ [place lib url]) := by
  simp [recordUrl, CallRecord.placed, place, hn]

/-- Following redirects puts the entry of a call at the last URL that it goes to. -/
theorem send_calls (mode : Mode) (deadline n : ℕ) (url : Url) (base : CallLog)
    (record : CallRecord) (past : List (Option String × String)) (requested : List Url)
    (hpast : past.length = n) (hle : n ≤ maxRedirects) :
    (sendFollowingRedirects lib access world mode deadline base.length n url
      (base ++ [record.placed (past ++ [place lib url])]) requested).calls =
        base ++ [record.placed (past ++
          (visited lib access world mode deadline (maxRedirects - n) url).map (place lib))] := by
  induction hhops : maxRedirects - n using Nat.strongRecOn
    generalizing n url past requested with
  | ind left ih =>
    rcases send_turn lib access world mode deadline base.length n url
      (base ++ [record.placed (past ++ [place lib url])]) requested with
      ⟨result, more, hending, -, hsent⟩ | ⟨next, hredirects, hlimit, hpermitted, hsent⟩
    · rw [hsent, ← hhops, visited_ending hending hle, List.map_singleton]
    · have hlength : (past ++ [place lib url]).length = n + 1 := by
        rw [List.length_append, hpast, List.length_singleton]
      have hnext := ih (maxRedirects - (n + 1)) (by omega) (n + 1) next
        (past ++ [place lib url]) (requested ++ [url]) hlength (by omega) rfl
      rw [hsent, ← hhops, visited_hop hredirects hlimit hpermitted, update_last,
        placed_hop record _ next (n + 1) hlength, hnext, List.map_cons, List.append_assoc]
      rfl

variable (lib access world)

theorem sendFirst_calls (mode : Mode) (invalidUrl : String → Error) (timeout : Option ℕ)
    (url : Url) (base : CallLog) (record : CallRecord) :
    (sendFirst lib access world mode invalidUrl timeout base.length url
      (base ++ [record.placed [place lib url]])).calls =
        base ++ [record.placed
          (hops lib access world mode (deadlineOf access world timeout) url)] := by
  unfold sendFirst hops deadlineOf
  by_cases hpermitted : Permitted lib access url
  · simp only [validate_permitted lib access url _ hpermitted]
    cases hbudget : budget access world timeout with
    | error error => simp only [visited_late, List.map_singleton]
    | ok budget =>
      exact send_calls mode _ 0 url base record [] [] rfl (Nat.zero_le maxRedirects)
  · have hrefused (invalidUrl : String → Error) :
        ∃ error, validate lib access url invalidUrl = .error error := by
      cases hvalid : validate lib access url invalidUrl with
      | error error => exact ⟨error, rfl⟩
      | ok _ => exact absurd ((validate_ok_iff lib access url invalidUrl).mp hvalid) hpermitted
    obtain ⟨error, herror⟩ := hrefused invalidUrl
    obtain ⟨other, hother⟩ := hrefused .policy
    simp only [herror, hother]

/-- What a call comes to does not depend on the chain. -/
theorem send_result (mode : Mode) (deadline index other n : ℕ) (url : Url)
    (calls others : CallLog) (requested : List Url) :
    (sendFollowingRedirects lib access world mode deadline index n url calls requested).result =
      (sendFollowingRedirects lib access world mode deadline other n url others
        requested).result := by
  induction hhops : maxRedirects - n using Nat.strongRecOn
    generalizing n url calls others requested with
  | ind left ih =>
    rw [send_eq lib access world mode deadline index, send_eq lib access world mode deadline other]
    rcases takeTurn_cases lib access world mode deadline n url with
      ⟨result, sent, hturn, -⟩ | ⟨next, hturn, -, hlimit, -⟩
    · rw [hturn]
      rfl
    · rw [hturn]
      exact ih (maxRedirects - (n + 1)) (by omega) (n + 1) next _ _ _ rfl

theorem sendFirst_result (mode : Mode) (invalidUrl : String → Error) (timeout : Option ℕ)
    (index other : ℕ) (url : Url) (calls others : CallLog) :
    (sendFirst lib access world mode invalidUrl timeout index url calls).result =
      (sendFirst lib access world mode invalidUrl timeout other url others).result := by
  unfold sendFirst
  split
  · rfl
  · split
    · rfl
    · exact send_result lib access world mode _ index other 0 url calls others []

theorem getInner_result (call : Json) (index other : ℕ) (calls others : CallLog) :
    (getInner lib access world call index calls).result =
      (getInner lib access world call other others).result := by
  unfold getInner
  split
  · rfl
  · split
    · rfl
    · simp only
      rw [sendFirst_result lib access world getMode .policy _ index other]

end Calls

section Facts

variable (elapsedMs : ℕ → Ms)

/-- The status of an error that an upstream answered with. -/
def Error.answered : Error → Option ℕ
  | .status answered => some answered
  | _ => none

/-- The error of a result, if it is one. -/
def failure {A : Type} : Except Error A → Option Error
  | .error error => some error
  | .ok _ => none

/-- The facts of a call that failed or not, once its hops and its answer are known. -/
def Facts.of (api : String) (hops : List (Option String × String)) (answered bytes : Option ℕ)
    (durationMs : Option Ms) (failed : Option Error) : Facts :=
  ⟨api, hops, (failed.bind Error.answered).or answered, bytes, durationMs,
    failed.map Error.code, failed.bind Error.transportKind⟩

def World.duration : Ms := elapsedMs (world.finishedAt - world.startedAt)

def getHops (call : Json) : List (Option String × String) :=
  match getUrl lib call with
  | none => []
  | some url => hops lib access world getMode (getDeadline lib access world call) url

def getFacts (call : Json) : Facts :=
  let result := (getInner lib access world call 0 []).result
  .of "http.get" (getHops lib access world call) (result.toOption.map Response.status)
    (result.toOption.map (fun response => response.body.length))
    (some (world.duration elapsedMs)) (failure result)

def pipeHops (call : Json) : List (Option String × String) :=
  match pipeUrl lib call with
  | none => []
  | some url => hops lib access world (pipeMode access) (deadlineOf access world none) url

/-- The answer that a piped call is about. -/
def pipeAnswered (call : Json) : Option Answer :=
  (pipeUrl lib call).bind (fun url =>
    (sendFirst lib access world (pipeMode access) .invalidUrl none 0 url []).result.toOption)

/-- The facts of a piped call when it returns; its body is not counted yet. -/
def pipeFacts (call : Json) (result : Except Error PipeResponse) : Facts :=
  .of "http.pipe" (pipeHops lib access world call)
    ((pipeAnswered lib access world call).map Answer.status) none
    ((failure result).map (fun _ => world.duration elapsedMs)) (failure result)

theorem finishCall_error (record : CallRecord) (error : Error) :
    finishCall world elapsedMs (some error) record =
      { record with
        durationMs := some (world.duration elapsedMs)
        error := some error.code
        kind := error.transportKind
        status := error.answered.or record.status } := by
  cases error <;> rfl

theorem getInner_calls (call : Json) (base : CallLog) :
    (getInner lib access world call base.length (base ++ [CallRecord.new "http.get"])).calls =
      base ++ [(CallRecord.new "http.get").placed (getHops lib access world call)] := by
  unfold getInner getHops getUrl getDeadline
  cases hparsed : parseGetCall lib.debugText call with
  | error error => rfl
  | ok call =>
    cases hurl : lib.parse call.url with
    | error message =>
      simp only [Except.toOption, Option.bind_some, hurl]
      rfl
    | ok url =>
      simp only [Except.toOption, Option.bind_some, hurl, update_last]
      exact sendFirst_calls lib access world getMode .policy call.timeout url base
        (CallRecord.new "http.get")

/-- The entry of a `ctx.http.get` is made of its facts. -/
theorem get_calls (call : Json) (calls : CallLog) :
    (get lib access world elapsedMs call calls).calls =
      calls ++ [(getFacts lib access world elapsedMs call).record] := by
  have hcalls := getInner_calls lib access world call calls
  have hresult := getInner_result lib access world call calls.length 0
    (calls ++ [CallRecord.new "http.get"]) []
  unfold get getFacts
  simp only [Chain.beginCall]
  generalize getInner lib access world call calls.length _ = inner at hcalls hresult ⊢
  obtain ⟨result, logged, requested⟩ := inner
  simp only at hcalls hresult
  rw [← hresult, hcalls]
  cases result with
  | ok response =>
    simp only [update_last]
    rfl
  | error error =>
    simp only [update_last, finishCall_error]
    rfl

theorem pipeInner_calls (call : Json) (base : CallLog) :
    (pipeInner lib access world call base.length (base ++ [CallRecord.new "http.pipe"])).calls =
      base ++ [{ (CallRecord.new "http.pipe").placed (pipeHops lib access world call) with
        status := (pipeAnswered lib access world call).map Answer.status }] := by
  unfold pipeInner pipeHops pipeAnswered pipeUrl
  cases hparsed : parsePipeCall lib.debugText call with
  | error error => rfl
  | ok call =>
    cases hurl : lib.parse call.url with
    | error message =>
      simp only [Except.toOption, Option.bind_some, hurl]
      rfl
    | ok url =>
      have hsent := sendFirst_calls lib access world
        (pipeMode access) .invalidUrl none url base (CallRecord.new "http.pipe")
      have hresult := sendFirst_result lib access world
        (pipeMode access) .invalidUrl none base.length 0 url
        (base ++ [(CallRecord.new "http.pipe").placed [place lib url]]) []
      have hplaced : recordUrl lib url (CallRecord.new "http.pipe") =
          (CallRecord.new "http.pipe").placed [place lib url] := rfl
      simp only [Except.toOption, Option.bind_some, hurl, update_last, hplaced]
      rw [← hresult]
      generalize sendFirst lib access world (pipeMode access) .invalidUrl none base.length url
        _ = sent at hsent ⊢
      obtain ⟨result, logged, requested⟩ := sent
      simp only at hsent
      rw [hsent]
      cases result with
      | error error => rfl
      | ok answer =>
        simp only [update_last]
        rfl

/-- The entry of a `ctx.http.pipe` is made of its facts. -/
theorem pipe_calls (call : Json) (calls : CallLog) :
    (pipe lib access world elapsedMs call calls).calls =
      calls ++ [(pipeFacts lib access world elapsedMs call
        (pipe lib access world elapsedMs call calls).result).record] := by
  have hcalls := pipeInner_calls lib access world call calls
  unfold pipe pipeFacts
  simp only [Chain.beginCall]
  generalize pipeInner lib access world call calls.length _ = inner at hcalls ⊢
  obtain ⟨result, logged, requested⟩ := inner
  simp only at hcalls
  rw [hcalls]
  cases result with
  | ok response => rfl
  | error error =>
    simp only [update_last, finishCall_error]
    rfl

end Facts

end StuntDouble.Upstream

namespace StuntDouble.Files

open RequestLog Script

section Facts

variable (base64 : Bytes → String) (elapsedMs : ℕ → Ms)

/-- The bytes that a call counts when it returns; those of a stream are counted later. -/
def counted (op : FileOp) (opening : Opening) : Except Error (Option ℕ) :=
  match opening.content with
  | .error error => .error error
  | .ok content =>
    if op = .stream then .ok none
    else (readAll base64 op content).map (fun read => some read.2)

/-- The entry of a call, from what it counts or the code of its error. -/
def performed (op : FileOp) (api : String) (opening : Opening) : CallRecord :=
  let ms := elapsedMs (opening.finishedAt - opening.startedAt)
  match counted base64 op opening with
  | .error error => ⟨api, none, some ms, some error.code⟩
  | .ok none => CallRecord.new api
  | .ok (some bytes) => ⟨api, some bytes, some ms, none⟩

/-- The entry of a file call, when its payload is well formed. -/
def fileCalled (openFile : String → Opening) (payload : Json) : Option CallRecord :=
  ((payload.get "op").bind Json.asStr).bind (fun raw =>
    ((payload.get "path").bind Json.asStr).bind (fun path =>
      (FileOp.parse raw).map (fun op => performed base64 elapsedMs op op.api (openFile path))))

/-- The entry of an upload call, when its payload names an upload. -/
def uploadCalled (uploaded : ℕ → Option Opening) (payload : Json) : Option CallRecord :=
  ((payload.get "op").bind Json.asStr).bind (fun raw =>
    (FileOp.parse raw).bind (fun op =>
      (((payload.get "index").bind Json.asU64).bind uploaded).map
        (performed base64 elapsedMs op op.uploadApi)))

theorem perform_calls (op : FileOp) (api : String) (opening : Opening)
    (streams : Streams FileBody) (calls : CallLog) :
    (perform base64 elapsedMs op api opening streams calls).calls =
      calls ++ [performed base64 elapsedMs op api opening] := by
  unfold perform performed counted
  simp only [Chain.beginCall, update_last]
  cases opening.content with
  | error error => rfl
  | ok content =>
    by_cases hstream : op = .stream
    · simp only [if_pos hstream]
    · simp only [if_neg hstream]
      cases readAll base64 op content with
      | error error => rfl
      | ok read => rfl

theorem fileCall_calls (openFile : String → Opening) (payload : Json)
    (streams : Streams FileBody) (calls : CallLog) :
    (fileCall base64 elapsedMs openFile payload streams calls).calls =
      calls ++ (fileCalled base64 elapsedMs openFile payload).toList := by
  unfold fileCall fileCalled
  cases (payload.get "op").bind Json.asStr with
  | none => simp
  | some raw =>
    cases (payload.get "path").bind Json.asStr with
    | none => simp
    | some path =>
      simp only [Option.bind_some]
      cases FileOp.parse raw with
      | none => simp
      | some op => exact perform_calls base64 elapsedMs op op.api (openFile path) streams calls

theorem uploadCall_calls (uploaded : ℕ → Option Opening) (payload : Json)
    (streams : Streams FileBody) (calls : CallLog) :
    (uploadCall base64 elapsedMs uploaded payload streams calls).calls =
      calls ++ (uploadCalled base64 elapsedMs uploaded payload).toList := by
  unfold uploadCall uploadCalled
  cases (payload.get "op").bind Json.asStr with
  | none => simp
  | some raw =>
    simp only [Option.bind_some]
    cases FileOp.parse raw with
    | none => simp
    | some op =>
      cases (payload.get "index").bind Json.asU64 with
      | none => simp
      | some index =>
        simp only [Option.bind_some]
        cases uploaded index with
        | none => simp
        | some opening =>
          exact perform_calls base64 elapsedMs op op.uploadApi opening streams calls

end Facts

end StuntDouble.Files
