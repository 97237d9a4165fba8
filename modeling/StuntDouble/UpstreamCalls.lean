import StuntDouble.Redirects

/-!
What the two upstream calls may request, how they fail, and what their records
say. Both send their first URL through the same validation and the same loop;
they differ in the codes of their errors and in a redirect without `Location`.
-/
namespace StuntDouble.Upstream

open RequestLog Http

variable {Url : Type} (lib : UrlLibrary Url) (access : Access) (world : World Url)

section First

/-- The deadline of a call; without a budget no request is in time. -/
def deadlineOf (timeout : Option ℕ) : ℕ :=
  match budget access world timeout with
  | .ok budget => world.startAt + budget
  | .error _ => 0

theorem budget_error (timeout : Option ℕ) (error : Error)
    (h : budget access world timeout = .error error) : error = timeoutError := by
  unfold budget at h
  by_cases hzero : callBudget (access.scriptDeadline - world.budgetAt)
      (timeout.getD access.defaultTimeout) = 0
  · simp only [if_pos hzero] at h
    exact (Except.error.inj h).symm
  · simp only [if_neg hzero] at h
    contradiction

/-- A call whose first URL is permitted follows its chain to the end. -/
theorem sendFirst_ends (mode : Mode) (invalidUrl : String → Error) (timeout : Option ℕ)
    (index : ℕ) (url : Url) (calls : CallLog) (hpermitted : Permitted lib access url)
    (hlogged : Logged lib calls index 0 url) :
    ∃ n last, Ends lib access world mode (deadlineOf access world timeout) url index n last
      (sendFirst lib access world mode invalidUrl timeout index url calls) := by
  have hvalid := validate_permitted lib access url invalidUrl hpermitted
  unfold sendFirst deadlineOf
  simp only [hvalid]
  cases hbudget : budget access world timeout with
  | error error =>
    obtain rfl := budget_error access world timeout error hbudget
    exact ⟨0, url, .first hpermitted, hlogged, by simp, by simp, .timeout (by simp)⟩
  | ok budget =>
    exact send_ends lib access world _ _ url index 0 url calls [] (.first hpermitted) hlogged rfl
      (by simp)

/-- A call fails with an error of this code. -/
def HasCode {A : Type} (result : Except Error A) (code : String) : Prop :=
  ∃ error, result = .error error ∧ error.code = code

/-- A call stays within the allowlist. `firstCode` and `chainCode` are the codes for a bad
scheme of its first URL, and for a chain that it cannot follow. -/
structure Confined {A : Type} (mode : Mode) (deadline : ℕ) (firstCode chainCode : String)
    (first : Option Url) (index : ℕ) (called : Called Url A) : Prop where
  few : called.requested.length ≤ 4
  permitted : ∀ url ∈ called.requested, Permitted lib access url
  unread : first = none → ∃ record, called.calls[index]? = some record ∧ record.redirects = 0 ∧
    record.host = none ∧ record.path = none
  refused : ∀ url, first = some url → ¬ Permitted lib access url →
    called.requested = [] ∧ Logged lib called.calls index 0 url
  followed : ∀ url, first = some url → Permitted lib access url → ∃ n last,
    Followed lib access world mode deadline url n last ∧
      (∀ next, ¬ Followed lib access world mode deadline url (n + 1) next) ∧
        Logged lib called.calls index n last
  firstHost : ∀ url, first = some url → IsWeb lib url → ¬ Permitted lib access url →
    HasCode called.result "script_error"
  firstScheme : ∀ url, first = some url → ¬ IsWeb lib url → HasCode called.result firstCode
  hopHost : ∀ url n last next, first = some url →
    Followed lib access world mode deadline url n last → n < maxRedirects →
      Redirects lib world mode deadline n last next → IsWeb lib next →
        ¬ Permitted lib access next → HasCode called.result "script_error"
  hopScheme : ∀ url n last next, first = some url →
    Followed lib access world mode deadline url n last → n < maxRedirects →
      Redirects lib world mode deadline n last next → ¬ IsWeb lib next →
        HasCode called.result chainCode
  stuck : ∀ url n last answer, first = some url →
    Followed lib access world mode deadline url n last → Answers world mode deadline n last answer →
      isRedirect answer.status = true →
        (answer.headers.get "location" = none → mode.missingLocationIsError = true) →
          (maxRedirects ≤ n ∨ ∀ next, ¬ Redirects lib world mode deadline n last next) →
            HasCode called.result chainCode

variable {lib access world}

theorem HasCode.of_same {A B : Type} {result : Except Error A} {other : Except Error B}
    {code : String} (h : HasCode result code)
    (hsame : ∀ error, result = .error error → other = .error error) : HasCode other code := by
  obtain ⟨error, herror, hcode⟩ := h
  exact ⟨error, hsame error herror, hcode⟩

/-- An update that leaves the place of a record alone. -/
def KeepsPlace (f : CallRecord → CallRecord) : Prop :=
  ∀ record, (f record).redirects = record.redirects ∧ (f record).host = record.host ∧
    (f record).path = record.path

/-- A result that passes errors on keeps their codes. -/
theorem Confined.of_same {A B : Type} {mode : Mode} {deadline : ℕ} {firstCode chainCode : String}
    {first : Option Url} {index : ℕ} {called : Called Url A}
    (h : Confined lib access world mode deadline firstCode chainCode first index called)
    (result : Except Error B) (hsame : ∀ error, called.result = .error error →
      result = .error error) :
    Confined lib access world mode deadline firstCode chainCode first index
      (⟨result, called.calls, called.requested⟩ : Called Url B) := by
  refine ⟨h.few, h.permitted, h.unread, h.refused, h.followed, ?_, ?_, ?_, ?_, ?_⟩
  · intro url hfirst hweb hrefused
    exact (h.firstHost url hfirst hweb hrefused).of_same hsame
  · intro url hfirst hscheme
    exact (h.firstScheme url hfirst hscheme).of_same hsame
  · intro url n last next hfirst hfollowed hlimit hredirects hweb hrefused
    exact (h.hopHost url n last next hfirst hfollowed hlimit hredirects hweb hrefused).of_same
      hsame
  · intro url n last next hfirst hfollowed hlimit hredirects hscheme
    exact (h.hopScheme url n last next hfirst hfollowed hlimit hredirects hscheme).of_same hsame
  · intro url n last answer hfirst hfollowed hanswers hstatus hlocation hstuck
    exact (h.stuck url n last answer hfirst hfollowed hanswers hstatus hlocation hstuck).of_same
      hsame

/-- Updates that leave the place of the record alone change nothing. -/
theorem Confined.update {A : Type} {mode : Mode} {deadline : ℕ} {firstCode chainCode : String}
    {first : Option Url} {index : ℕ} {called : Called Url A}
    (h : Confined lib access world mode deadline firstCode chainCode first index called)
    (f : CallRecord → CallRecord) (hf : KeepsPlace f) :
    Confined lib access world mode deadline firstCode chainCode first index
      { called with calls := called.calls.update index f } := by
  refine ⟨h.few, h.permitted, ?_, ?_, ?_, h.firstHost, h.firstScheme, h.hopHost, h.hopScheme,
    h.stuck⟩
  · intro hnone
    obtain ⟨record, hrecord, hredirects, hhost, hpath⟩ := h.unread hnone
    obtain ⟨hsame, hsame', hsame''⟩ := hf record
    refine ⟨f record, ?_, hsame.trans hredirects, hsame'.trans hhost, hsame''.trans hpath⟩
    rw [update_get, if_pos rfl, hrecord, Option.map_some]
  · intro url hfirst hrefused
    obtain ⟨hempty, hlogged⟩ := h.refused url hfirst hrefused
    exact ⟨hempty, hlogged.update f hf⟩
  · intro url hfirst hpermitted
    obtain ⟨n, last, hfollowed, hfinal, hlogged⟩ := h.followed url hfirst hpermitted
    exact ⟨n, last, hfollowed, hfinal, hlogged.update f hf⟩

/-- A call that read no URL requests nothing. -/
theorem confined_unread {A : Type} (mode : Mode) (deadline : ℕ) (firstCode chainCode : String)
    (index : ℕ) (calls : CallLog) (error : Error)
    (hrecord : ∃ record, calls[index]? = some record ∧ record.redirects = 0 ∧
      record.host = none ∧ record.path = none) :
    Confined lib access world mode deadline firstCode chainCode none index
      (⟨.error error, calls, []⟩ : Called Url A) := by
  refine ⟨by simp, by simp, fun _ => hrecord, ?_, ?_, ?_, ?_, ?_, ?_, ?_⟩ <;> intros <;>
    contradiction

variable (lib access world)

theorem sendFirst_confined_permitted (mode : Mode) (invalidUrl : String → Error)
    (timeout : Option ℕ) (firstCode chainCode : String)
    (hchain : ∀ message, (mode.redirectError message).code = chainCode) (index : ℕ) (url : Url)
    (calls : CallLog) (hlogged : Logged lib calls index 0 url)
    (hpermitted : Permitted lib access url) :
    Confined lib access world mode (deadlineOf access world timeout) firstCode chainCode (some url)
      index (sendFirst lib access world mode invalidUrl timeout index url calls) := by
  obtain ⟨n, last, hends⟩ := sendFirst_ends lib access world mode invalidUrl timeout index url
    calls hpermitted hlogged
  have hcalled : ∀ start, some url = some start → start = url :=
    fun start h => (Option.some.inj h).symm
  refine ⟨?_, ?_, fun h => by contradiction, ?_, ?_, ?_, ?_, ?_, ?_, ?_⟩
  · have hle := hends.followed.le
    have hfew := hends.few
    simp only [maxRedirects] at hle
    omega
  · intro other hother
    obtain ⟨i, hi⟩ := List.mem_iff_getElem?.mp hother
    exact (hends.past i other hi).permitted
  · intro start hstart hrefused
    obtain rfl := hcalled start hstart
    exact absurd hpermitted hrefused
  · intro start hstart _
    obtain rfl := hcalled start hstart
    exact ⟨n, last, hends.followed, hends.final, hends.logged⟩
  · intro start hstart _ hrefused
    obtain rfl := hcalled start hstart
    exact absurd hpermitted hrefused
  · intro start hstart hscheme
    obtain rfl := hcalled start hstart
    exact absurd hpermitted.1 hscheme
  · intro start m spot next hstart hfollowed hlimit hredirects hweb hrefused
    obtain rfl := hcalled start hstart
    obtain ⟨error, hvalid, hresult⟩ := hends.rejected hfollowed hlimit hredirects hrefused
    obtain ⟨message, hmessage⟩ := validate_rejected lib access next mode.redirectError hweb
      hrefused
    rw [hmessage] at hvalid
    obtain rfl := Except.error.inj hvalid
    exact ⟨_, hresult, rfl⟩
  · intro start m spot next hstart hfollowed hlimit hredirects hscheme
    obtain rfl := hcalled start hstart
    obtain ⟨error, hvalid, hresult⟩ := hends.rejected hfollowed hlimit hredirects
      (fun hpermitted => hscheme hpermitted.1)
    obtain ⟨message, hmessage⟩ := validate_badScheme lib access next mode.redirectError hscheme
    rw [hmessage] at hvalid
    obtain rfl := Except.error.inj hvalid
    exact ⟨_, hresult, hchain message⟩
  · intro start m spot answer hstart hfollowed hanswers hstatus hlocation hstuck
    obtain rfl := hcalled start hstart
    rcases hends.stuck hfollowed hanswers hstatus hstuck with
      ⟨hnone, hmode, -⟩ | ⟨-, message, hresult⟩
    · rw [hlocation hnone] at hmode
      contradiction
    · exact ⟨_, hresult, hchain message⟩

theorem sendFirst_confined_refused (mode : Mode) (invalidUrl : String → Error)
    (timeout : Option ℕ) (firstCode chainCode : String)
    (hinvalid : ∀ message, (invalidUrl message).code = firstCode) (index : ℕ) (url : Url)
    (calls : CallLog) (hlogged : Logged lib calls index 0 url)
    (hpermitted : ¬ Permitted lib access url) :
    Confined lib access world mode (deadlineOf access world timeout) firstCode chainCode (some url)
      index (sendFirst lib access world mode invalidUrl timeout index url calls) := by
  have hcalled : ∀ start, some url = some start → start = url :=
    fun start h => (Option.some.inj h).symm
  have hchainless : ∀ start n last, some url = some start →
      ¬ Followed lib access world mode (deadlineOf access world timeout) start n last := by
    intro start n last hstart hfollowed
    obtain rfl := hcalled start hstart
    obtain ⟨first, hfirst⟩ := hfollowed.earlier (Nat.zero_le n)
    cases hfirst with
    | first h => exact hpermitted h
  obtain ⟨error, herror, hhost, hscheme⟩ : ∃ error,
      validate lib access url invalidUrl = .error error ∧
        (IsWeb lib url → error.code = "script_error") ∧
          (¬ IsWeb lib url → error.code = firstCode) := by
    by_cases hweb : IsWeb lib url
    · obtain ⟨message, hmessage⟩ := validate_rejected lib access url invalidUrl hweb hpermitted
      exact ⟨_, hmessage, fun _ => rfl, fun h => absurd hweb h⟩
    · obtain ⟨message, hmessage⟩ := validate_badScheme lib access url invalidUrl hweb
      exact ⟨_, hmessage, fun h => absurd h hweb, fun _ => hinvalid message⟩
  unfold sendFirst
  simp only [herror]
  refine ⟨by simp, by simp, fun h => by contradiction, ?_, ?_, ?_, ?_, ?_, ?_, ?_⟩
  · intro start hstart _
    obtain rfl := hcalled start hstart
    exact ⟨rfl, hlogged⟩
  · intro start hstart hallowed
    obtain rfl := hcalled start hstart
    exact absurd hallowed hpermitted
  · intro start hstart hweb _
    obtain rfl := hcalled start hstart
    exact ⟨error, rfl, hhost hweb⟩
  · intro start hstart hbad
    obtain rfl := hcalled start hstart
    exact ⟨error, rfl, hscheme hbad⟩
  · intro start n last next hstart hfollowed
    exact absurd hfollowed (hchainless start n last hstart)
  · intro start n last next hstart hfollowed
    exact absurd hfollowed (hchainless start n last hstart)
  · intro start n last answer hstart hfollowed
    exact absurd hfollowed (hchainless start n last hstart)

theorem sendFirst_confined (mode : Mode) (invalidUrl : String → Error) (timeout : Option ℕ)
    (firstCode chainCode : String) (hinvalid : ∀ message, (invalidUrl message).code = firstCode)
    (hchain : ∀ message, (mode.redirectError message).code = chainCode) (index : ℕ) (url : Url)
    (calls : CallLog) (hlogged : Logged lib calls index 0 url) :
    Confined lib access world mode (deadlineOf access world timeout) firstCode chainCode (some url)
      index (sendFirst lib access world mode invalidUrl timeout index url calls) := by
  by_cases hpermitted : Permitted lib access url
  · exact sendFirst_confined_permitted lib access world mode invalidUrl timeout firstCode chainCode
      hchain index url calls hlogged hpermitted
  · exact sendFirst_confined_refused lib access world mode invalidUrl timeout firstCode chainCode
      hinvalid index url calls hlogged hpermitted

end First

section Calls

/-- The URL that a call begins with, if its payload has one. -/
def getUrl (call : Json) : Option Url :=
  (parseGetCall lib.debugText call).toOption.bind (fun call => (lib.parse call.url).toOption)

def getDeadline (call : Json) : ℕ :=
  match parseGetCall lib.debugText call with
  | .ok call => deadlineOf access world call.timeout
  | .error _ => 0

def pipeUrl (call : Json) : Option Url :=
  (parsePipeCall lib.debugText call).toOption.bind (fun call => (lib.parse call.url).toOption)

variable {lib access world}

theorem logged_first (calls : CallLog) (index : ℕ) (url : Url) (record : CallRecord)
    (hrecord : calls[index]? = some record) (hredirects : record.redirects = 0) :
    Logged lib (calls.update index (recordUrl lib url)) index 0 url := by
  refine ⟨recordUrl lib url record, ?_, hredirects, rfl, rfl⟩
  rw [update_get, if_pos rfl, hrecord, Option.map_some]

theorem begun_record (calls : CallLog) (api : String) :
    (calls.beginCall (CallRecord.new api)).1[calls.length]? = some (CallRecord.new api) := by
  rw [Chain.beginCall, List.getElem?_concat_length]

theorem finishCall_keepsPlace (elapsedMs : ℕ → Ms) (error : Option Error) :
    KeepsPlace (finishCall world elapsedMs error) := by
  intro record
  cases error <;> exact ⟨rfl, rfl, rfl⟩

variable (lib access world)

theorem getInner_confined (call : Json) (calls : CallLog) :
    Confined lib access world getMode (getDeadline lib access world call) "script_error"
      "script_error" (getUrl lib call) calls.length (getInner lib access world call calls.length
        (calls.beginCall (CallRecord.new "http.get")).1) := by
  have hrecord := begun_record calls "http.get"
  unfold getInner getUrl getDeadline
  cases hparsed : parseGetCall lib.debugText call with
  | error error =>
    simp only [Except.toOption, Option.bind_none]
    exact confined_unread _ _ _ _ _ _ error ⟨_, hrecord, rfl, rfl, rfl⟩
  | ok call =>
    simp only [Except.toOption, Option.bind_some]
    cases hurl : lib.parse call.url with
    | error message => exact confined_unread _ _ _ _ _ _ _ ⟨_, hrecord, rfl, rfl, rfl⟩
    | ok url =>
      have hsent := sendFirst_confined lib access world getMode
        .policy call.timeout "script_error" "script_error" (fun _ => rfl) (fun _ => rfl)
        calls.length url _ (logged_first _ calls.length url _ hrecord rfl)
      apply hsent.of_same
      intro error herror
      rw [herror]
      rfl

theorem get_confined (elapsedMs : ℕ → Ms) (call : Json) (calls : CallLog) :
    Confined lib access world getMode (getDeadline lib access world call) "script_error"
      "script_error" (getUrl lib call) calls.length
        (get lib access world elapsedMs call calls) := by
  have hinner := getInner_confined lib access world call calls
  unfold get
  simp only [Chain.beginCall] at hinner ⊢
  generalize getInner lib access world call calls.length _ = inner at hinner ⊢
  obtain ⟨result, logged, requested⟩ := inner
  cases result with
  | ok response =>
    have hlogged := hinner.update (fun record => { record with
      status := some response.status, responseBytes := some response.body.length })
      (fun _ => ⟨rfl, rfl, rfl⟩)
    exact hlogged.update _ (finishCall_keepsPlace elapsedMs none)
  | error error => exact hinner.update _ (finishCall_keepsPlace elapsedMs (some error))

theorem pipeInner_confined (call : Json) (calls : CallLog) :
    Confined lib access world (pipeMode access) (deadlineOf access world none)
      "upstream_url_invalid" "upstream_redirect_error" (pipeUrl lib call) calls.length
        (pipeInner lib access world call calls.length
          (calls.beginCall (CallRecord.new "http.pipe")).1) := by
  have hrecord := begun_record calls "http.pipe"
  unfold pipeInner pipeUrl
  cases hparsed : parsePipeCall lib.debugText call with
  | error error =>
    simp only [Except.toOption, Option.bind_none]
    exact confined_unread _ _ _ _ _ _ error ⟨_, hrecord, rfl, rfl, rfl⟩
  | ok call =>
    simp only [Except.toOption, Option.bind_some]
    cases hurl : lib.parse call.url with
    | error message => exact confined_unread _ _ _ _ _ _ _ ⟨_, hrecord, rfl, rfl, rfl⟩
    | ok url =>
      have hsent := sendFirst_confined lib access world
        (pipeMode access) .invalidUrl none "upstream_url_invalid" "upstream_redirect_error"
        (fun _ => rfl) (fun _ => rfl) calls.length url _
        (logged_first _ calls.length url _ hrecord rfl)
      simp only
      generalize sendFirst lib access world (pipeMode access) .invalidUrl none calls.length url _ =
        sent at hsent ⊢
      cases hresult : sent.result with
      | error error =>
        apply hsent.of_same
        intro other hother
        obtain rfl := Except.error.inj (hresult.symm.trans hother)
        rfl
      | ok answer =>
        refine (hsent.of_same _ ?_).update _ (fun _ => ⟨rfl, rfl, rfl⟩)
        intro error herror
        rw [hresult] at herror
        contradiction

theorem pipe_confined (elapsedMs : ℕ → Ms) (call : Json) (calls : CallLog) :
    Confined lib access world (pipeMode access) (deadlineOf access world none)
      "upstream_url_invalid" "upstream_redirect_error" (pipeUrl lib call) calls.length
        (pipe lib access world elapsedMs call calls) := by
  have hinner := pipeInner_confined lib access world call calls
  unfold pipe
  simp only [Chain.beginCall] at hinner ⊢
  generalize pipeInner lib access world call calls.length _ = inner at hinner ⊢
  obtain ⟨result, logged, requested⟩ := inner
  cases result with
  | ok response => exact hinner
  | error error => exact hinner.update _ (finishCall_keepsPlace elapsedMs (some error))

theorem get_result (elapsedMs : ℕ → Ms) (call : Json) (calls : CallLog) :
    (get lib access world elapsedMs call calls).result =
      (getInner lib access world call calls.length
        (calls.beginCall (CallRecord.new "http.get")).1).result := by
  unfold get
  simp only [Chain.beginCall]
  generalize getInner lib access world call calls.length _ = inner
  obtain ⟨result, logged, requested⟩ := inner
  cases result <;> rfl

/-- A redirect status without `Location` is data for `ctx.http.get`. -/
theorem get_data (elapsedMs : ℕ → Ms) (call : Json) (calls : CallLog) (url last : Url) (n : ℕ)
    (answer : Answer) (hfirst : getUrl lib call = some url)
    (hfollowed : Followed lib access world getMode (getDeadline lib access world call) url n last)
    (hanswers : Answers world getMode (getDeadline lib access world call) n last answer)
    (hstatus : isRedirect answer.status = true)
    (hlocation : answer.headers.get "location" = none) :
    (get lib access world elapsedMs call calls).result = readResponse answer := by
  rw [get_result]
  unfold getUrl at hfirst
  unfold getDeadline at hfollowed hanswers
  unfold getInner
  cases hparsed : parseGetCall lib.debugText call with
  | error error =>
    rw [hparsed] at hfirst
    contradiction
  | ok call =>
    simp only [hparsed, Except.toOption, Option.bind_some] at hfirst hfollowed hanswers ⊢
    cases hurl : lib.parse call.url with
    | error message =>
      rw [hurl] at hfirst
      contradiction
    | ok first =>
      rw [hurl] at hfirst
      obtain rfl := Option.some.inj hfirst
      obtain ⟨start, hstart⟩ := hfollowed.earlier (Nat.zero_le n)
      have hpermitted : Permitted lib access first := by
        cases hstart with
        | first h => exact h
      obtain ⟨m, stop, hends⟩ := sendFirst_ends lib access world getMode .policy call.timeout
        calls.length first _ hpermitted (logged_first _ calls.length first _
          (begun_record calls "http.get") rfl)
      have hnowhere : ∀ next, ¬ Redirects lib world getMode
          (deadlineOf access world call.timeout) n last next := by
        intro next hredirects
        obtain ⟨answer', location, -, hanswers', -, hlocation', -⟩ := hredirects
        obtain rfl := hanswers.unique hanswers'
        rw [hlocation] at hlocation'
        contradiction
      rcases hends.stuck hfollowed hanswers hstatus (Or.inr hnowhere) with
        ⟨-, -, hresult⟩ | ⟨hmode, -⟩
      · simp only
        rw [hresult]
        rfl
      · have hmissing := hmode hlocation
        contradiction

end Calls

/-- Every upstream call, whatever its payload and whatever the servers answer, stays within the
allowlist and three redirects, and its record says how far it came. -/
theorem upstream_calls_confined (elapsedMs : ℕ → Ms) (call : Json) (calls : CallLog) :
    Confined lib access world getMode (getDeadline lib access world call) "script_error"
      "script_error" (getUrl lib call) calls.length (get lib access world elapsedMs call calls) ∧
    (∀ url n last answer, getUrl lib call = some url →
      Followed lib access world getMode (getDeadline lib access world call) url n last →
        Answers world getMode (getDeadline lib access world call) n last answer →
          isRedirect answer.status = true → answer.headers.get "location" = none →
            (∀ body, answer.readToVec maxResponseBytes = .ok body →
              (get lib access world elapsedMs call calls).result =
                .ok ⟨answer.status, textHeaders answer.headers, body⟩) ∧
            ∀ error, answer.readToVec maxResponseBytes = .error error →
              (get lib access world elapsedMs call calls).result =
                .error (mapUreqError error)) ∧
    Confined lib access world (pipeMode access) (deadlineOf access world none)
      "upstream_url_invalid" "upstream_redirect_error" (pipeUrl lib call) calls.length
        (pipe lib access world elapsedMs call calls) := by
  refine ⟨get_confined lib access world elapsedMs call calls, ?_,
    pipe_confined lib access world elapsedMs call calls⟩
  intro url n last answer hfirst hfollowed hanswers hstatus hlocation
  have hdata := get_data lib access world elapsedMs call calls url last n answer hfirst hfollowed
    hanswers hstatus hlocation
  rw [readResponse] at hdata
  refine ⟨fun body hbody => ?_, fun error herror => ?_⟩
  · rwa [hbody] at hdata
  · rwa [herror] at hdata

section Chain

/-- A chain with one entry more, whose duration is not known yet. -/
def Begun (calls chain : CallLog) : Prop :=
  ∃ record, chain = calls ++ [record] ∧ record.durationMs = none

theorem Begun.update {calls chain : CallLog} (h : Begun calls chain)
    (f : CallRecord → CallRecord) (hf : ∀ record, (f record).durationMs = record.durationMs) :
    Begun calls (chain.update calls.length f) := by
  obtain ⟨record, rfl, hrecord⟩ := h
  exact ⟨f record, update_last calls record f, (hf record).trans hrecord⟩

theorem begun_beginCall (calls : CallLog) (api : String) :
    Begun calls (calls.beginCall (CallRecord.new api)).1 := ⟨CallRecord.new api, rfl, rfl⟩

/-- Following redirects leaves the entry of the call open. -/
theorem send_begun (base : CallLog) (mode : Mode) (deadline redirects : ℕ) (url : Url)
    (calls : CallLog) (requested : List Url) (h : Begun base calls) :
    Begun base (sendFollowingRedirects lib access world mode deadline base.length redirects url
      calls requested).calls := by
  induction hhops : maxRedirects - redirects using Nat.strongRecOn
    generalizing redirects url calls requested with
  | ind hops ih =>
    rcases send_turn lib access world mode deadline base.length redirects url calls requested with
      ⟨result, more, -, -, hsent⟩ | ⟨next, -, hlimit, -, hsent⟩
    · rw [hsent]
      exact h
    · rw [hsent]
      exact ih (maxRedirects - (redirects + 1)) (by omega) (redirects + 1) next _ _
        (h.update _ (fun _ => rfl)) rfl

theorem sendFirst_begun (base : CallLog) (mode : Mode) (invalidUrl : String → Error)
    (timeout : Option ℕ) (url : Url) (calls : CallLog) (h : Begun base calls) :
    Begun base
      (sendFirst lib access world mode invalidUrl timeout base.length url calls).calls := by
  unfold sendFirst
  split
  · exact h
  · split
    · exact h
    · exact send_begun lib access world base mode _ 0 url calls [] h

theorem getInner_begun (base : CallLog) (call : Json) (calls : CallLog) (h : Begun base calls) :
    Begun base (getInner lib access world call base.length calls).calls := by
  unfold getInner
  split
  · exact h
  · split
    · exact h
    · exact sendFirst_begun lib access world base _ _ _ _ _ (h.update _ (fun _ => rfl))

/-- A piped response comes with the handle of its entry. -/
theorem pipeInner_begun (base : CallLog) (call : Json) (calls : CallLog) (h : Begun base calls) :
    Begun base (pipeInner lib access world call base.length calls).calls ∧
      ∀ response, (pipeInner lib access world call base.length calls).result = .ok response →
        response.body.call = ⟨base.length, world.startedAt, false⟩ := by
  unfold pipeInner
  split
  · exact ⟨h, by simp⟩
  · split
    · exact ⟨h, by simp⟩
    · rename_i parsed _ _ url _
      have hsent := sendFirst_begun lib access world base
        (pipeMode access) .invalidUrl none url _ (h.update (recordUrl lib url) (fun _ => rfl))
      simp only
      split
      · exact ⟨hsent, by simp⟩
      · rename_i answer _
        refine ⟨hsent.update _ (fun _ => rfl), ?_⟩
        intro response hresponse
        unfold pipeAnswer at hresponse
        by_cases hstatus : 200 ≤ answer.status ∧ answer.status ≤ 299
        · rw [if_pos hstatus] at hresponse
          obtain rfl := Except.ok.inj hresponse
          rfl
        · rw [if_neg hstatus] at hresponse
          contradiction

theorem closed_finishCall (elapsedMs : ℕ → Ms) (error : Option Error) (record : CallRecord) :
    Closed (finishCall world elapsedMs error record) := by
  cases error <;> rfl

theorem Begun.finish {calls chain : CallLog} (h : Begun calls chain) (elapsedMs : ℕ → Ms)
    (error : Option Error) :
    ∃ record, chain.update calls.length (finishCall world elapsedMs error) = calls ++ [record] ∧
      Closed record := by
  obtain ⟨record, rfl, -⟩ := h
  exact ⟨_, update_last calls record _, closed_finishCall world elapsedMs error record⟩

/-- `ctx.http.get` adds one closed entry. -/
theorem get_chain (elapsedMs : ℕ → Ms) (call : Json) (calls : CallLog) :
    ∃ record, (get lib access world elapsedMs call calls).calls = calls ++ [record] ∧
      Closed record := by
  have hinner := getInner_begun lib access world calls call _
    (begun_beginCall calls "http.get")
  unfold get
  simp only [Chain.beginCall] at hinner ⊢
  generalize getInner lib access world call calls.length _ = inner at hinner ⊢
  obtain ⟨result, logged, requested⟩ := inner
  cases result with
  | ok response =>
    have hlogged := hinner.update (fun record => { record with
      status := some response.status, responseBytes := some response.body.length })
      (fun _ => rfl)
    exact hlogged.finish world elapsedMs none
  | error error => exact hinner.finish world elapsedMs (some error)

/-- `ctx.http.pipe` adds one entry: closed when it fails, else open with its handle. -/
theorem pipe_chain (elapsedMs : ℕ → Ms) (call : Json) (calls : CallLog) :
    ∃ record, (pipe lib access world elapsedMs call calls).calls = calls ++ [record] ∧
      match (pipe lib access world elapsedMs call calls).result with
      | .error _ => Closed record
      | .ok response => ¬ Closed record ∧
          response.body.call = ⟨calls.length, world.startedAt, false⟩ := by
  obtain ⟨hinner, hbody⟩ := pipeInner_begun lib access world calls
    call _ (begun_beginCall calls "http.pipe")
  unfold pipe
  simp only [Chain.beginCall] at hinner hbody ⊢
  generalize pipeInner lib access world call calls.length _ = inner at hinner hbody ⊢
  obtain ⟨result, logged, requested⟩ := inner
  cases result with
  | ok response =>
    obtain ⟨record, hrecord, hduration⟩ := hinner
    refine ⟨record, hrecord, ?_, hbody response rfl⟩
    simp [Closed, LogRecord.durationMs, hduration]
  | error error => exact hinner.finish world elapsedMs (some error)

end Chain

section Budget

/-- The script time that is left when a call computes its budget. -/
def remaining : ℕ := access.scriptDeadline - world.budgetAt

/-- What a call may expect of its budget: it fails only without time left, it is at most the
timeout that was asked for and leaves the reply margin, and it does not shrink when a longer
timeout is asked for. -/
structure Budgeted (requested : Option ℕ) : Prop where
  failed : ∀ error, budget access world requested = .error error →
    error = timeoutError ∧ remaining access world = 0
  fits : ∀ granted, budget access world requested = .ok granted →
    0 < granted ∧ granted ≤ requested.getD access.defaultTimeout ∧
      granted ≤ remaining access world - replyMargin (remaining access world)
  grows : ∀ granted longer, budget access world requested = .ok granted →
    requested.getD access.defaultTimeout ≤ longer →
      ∃ more, budget access world (some longer) = .ok more ∧ granted ≤ more

/-- The timeout is shorter than the time left, but not by the reply margin. -/
def InsideMargin (requested : Option ℕ) : Prop :=
  remaining access world - replyMargin (remaining access world) <
      requested.getD access.defaultTimeout ∧
    requested.getD access.defaultTimeout < remaining access world

theorem replyMargin_lt (left : ℕ) (h : 0 < left) : replyMargin left < left := by
  unfold replyMargin
  omega

theorem budget_eq (requested : Option ℕ)
    (hrequested : 0 < requested.getD access.defaultTimeout) :
    budget access world requested =
      if remaining access world = 0 then .error timeoutError
      else .ok (callBudget (remaining access world) (requested.getD access.defaultTimeout)) := by
  have hzero : callBudget (remaining access world) (requested.getD access.defaultTimeout) = 0 ↔
      remaining access world = 0 := by
    have hmargin := replyMargin_lt (remaining access world)
    unfold callBudget
    split <;> omega
  have hbudget : budget access world requested =
      if callBudget (remaining access world) (requested.getD access.defaultTimeout) = 0 then
        .error timeoutError
      else .ok (callBudget (remaining access world) (requested.getD access.defaultTimeout)) := rfl
  simp only [hbudget, hzero]

/-- The budget is as expected exactly for the timeouts that do not end inside the margin. -/
theorem budget_margin (requested : Option ℕ)
    (hrequested : 0 < requested.getD access.defaultTimeout) :
    Budgeted access world requested ↔ ¬ InsideMargin access world requested := by
  have hbudget := budget_eq access world requested hrequested
  have hlonger : ∀ longer, requested.getD access.defaultTimeout ≤ longer →
      budget access world (some longer) =
        if remaining access world = 0 then .error timeoutError
        else .ok (callBudget (remaining access world) longer) := by
    intro longer hle
    exact budget_eq access world (some longer) (Nat.lt_of_lt_of_le hrequested hle)
  unfold InsideMargin
  by_cases hzero : remaining access world = 0
  · rw [if_pos hzero] at hbudget
    refine ⟨fun _ => by omega, fun _ => ⟨?_, ?_, ?_⟩⟩
    · intro error herror
      exact ⟨(Except.error.inj (hbudget.symm.trans herror)).symm, hzero⟩
    · intro granted hgranted
      rw [hbudget] at hgranted
      contradiction
    · intro granted longer hgranted
      rw [hbudget] at hgranted
      contradiction
  · have hmargin := replyMargin_lt (remaining access world) (by omega)
    rw [if_neg hzero] at hbudget
    constructor
    · intro h hinside
      obtain ⟨-, -, hfits⟩ := h.fits _ hbudget
      unfold callBudget at hfits
      rw [if_neg (by omega)] at hfits
      omega
    · intro houtside
      refine ⟨?_, ?_, ?_⟩
      · intro error herror
        rw [hbudget] at herror
        contradiction
      · intro granted hgranted
        obtain rfl := Except.ok.inj (hbudget.symm.trans hgranted)
        unfold callBudget
        split <;> omega
      · intro granted longer hgranted hle
        obtain rfl := Except.ok.inj (hbudget.symm.trans hgranted)
        refine ⟨_, by rw [hlonger longer hle, if_neg hzero], ?_⟩
        unfold callBudget
        split <;> split <;> omega

theorem budget_margin_default :
    Budgeted (⟨[], 15000000000, 1000000000, none⟩ : Access)
        (⟨fun _ _ _ _ => .error .timeout, 0, 0, fun _ => 0, 0, 0⟩ : World Unit) none ↔
      ¬ InsideMargin (⟨[], 15000000000, 1000000000, none⟩ : Access)
        (⟨fun _ _ _ _ => .error .timeout, 0, 0, fun _ => 0, 0, 0⟩ : World Unit) none :=
  budget_margin _ _ none (by decide)

/-- With a second left, a timeout of 950 ms keeps only half of the margin of 100 ms. -/
theorem budget_margin_inside :
    ¬ Budgeted (⟨[], 15000000000, 1000000000, none⟩ : Access)
      (⟨fun _ _ _ _ => .error .timeout, 0, 0, fun _ => 0, 0, 0⟩ : World Unit)
      (some 950000000) := by
  intro h
  obtain ⟨-, -, hfits⟩ := h.fits 950000000 (by decide)
  exact absurd hfits (by decide)

end Budget

end StuntDouble.Upstream
