import StuntDouble.Upstream

/-!
Redirect chains of upstream calls. A chain is what a call has followed so far:
every URL in it passed the validation, and each one is where the request before
it was redirected. The loop that follows redirects ends at the last URL of the
only maximal chain, with at most one request for each of its URLs.
-/
namespace StuntDouble.Upstream

open RequestLog Http

variable {Url : Type}

section Validation

variable (lib : UrlLibrary Url) (access : Access)

def IsWeb (url : Url) : Prop := lib.scheme url = "http" ∨ lib.scheme url = "https"

/-- A web URL with a host that the allowlist has. -/
def Permitted (url : Url) : Prop :=
  IsWeb lib url ∧ ∃ host, lib.host url = some host ∧
    ∃ allowed ∈ access.allowHosts, eqIgnoreAsciiCase allowed host = true

theorem validate_badScheme (url : Url) (invalidUrl : String → Error) (h : ¬ IsWeb lib url) :
    ∃ message, validate lib access url invalidUrl = .error (invalidUrl message) := by
  unfold validate
  exact ⟨_, if_neg h⟩

theorem validate_rejected (url : Url) (invalidUrl : String → Error) (hweb : IsWeb lib url)
    (h : ¬ Permitted lib access url) :
    ∃ message, validate lib access url invalidUrl = .error (.policy message) := by
  unfold IsWeb at hweb
  unfold validate
  rw [if_pos hweb]
  cases hhost : lib.host url with
  | none => exact ⟨_, rfl⟩
  | some host =>
    have hnone :
        ¬ access.allowHosts.any (fun allowed => eqIgnoreAsciiCase allowed host) = true := by
      intro hany
      obtain ⟨allowed, hallowed, hsame⟩ := List.any_eq_true.mp hany
      apply h
      exact ⟨hweb, host, hhost, allowed, hallowed, hsame⟩
    simp only [if_neg hnone]
    exact ⟨_, rfl⟩

theorem validate_permitted (url : Url) (invalidUrl : String → Error)
    (h : Permitted lib access url) : validate lib access url invalidUrl = .ok () := by
  obtain ⟨hweb, host, hhost, allowed, hallowed, hsame⟩ := h
  have hany : access.allowHosts.any (fun allowed => eqIgnoreAsciiCase allowed host) = true :=
    List.any_eq_true.mpr ⟨allowed, hallowed, hsame⟩
  unfold IsWeb at hweb
  unfold validate
  rw [if_pos hweb, hhost]
  exact if_pos hany

theorem validate_ok_iff (url : Url) (invalidUrl : String → Error) :
    validate lib access url invalidUrl = .ok () ↔ Permitted lib access url := by
  constructor
  · intro h
    by_contra hrefused
    by_cases hweb : IsWeb lib url
    · obtain ⟨message, hmessage⟩ := validate_rejected lib access url invalidUrl hweb hrefused
      rw [hmessage] at h
      contradiction
    · obtain ⟨message, hmessage⟩ := validate_badScheme lib access url invalidUrl hweb
      rw [hmessage] at h
      contradiction
  · exact validate_permitted lib access url invalidUrl

end Validation

section Chains

variable (lib : UrlLibrary Url) (access : Access) (world : World Url) (mode : Mode) (deadline : ℕ)

/-- The n-th request of a call is sent in time, and answered. -/
structure Answers (n : ℕ) (url : Url) (answer : Answer) : Prop where
  time : deadline - world.turnAt n ≠ 0
  fetched : world.fetch n url (deadline - world.turnAt n) mode.range = .ok answer

/-- The answer to the n-th request points to another URL. -/
def Redirects (n : ℕ) (url next : Url) : Prop :=
  ∃ answer location text, Answers world mode deadline n url answer ∧
    isRedirect answer.status = true ∧ answer.headers.get "location" = some location ∧
      location.toStr = some text ∧ lib.join url text = .ok next

/-- A call has followed so many redirects and is at this URL. -/
inductive Followed (start : Url) : ℕ → Url → Prop
  | first (hpermitted : Permitted lib access start) : Followed start 0 start
  | hop (n : ℕ) (url next : Url) (hfollowed : Followed start n url) (hlimit : n < maxRedirects)
      (hredirects : Redirects lib world mode deadline n url next)
      (hpermitted : Permitted lib access next) : Followed start (n + 1) next

variable {lib access world mode deadline}

theorem Answers.unique {n : ℕ} {url : Url} {answer other : Answer}
    (h : Answers world mode deadline n url answer) (h' : Answers world mode deadline n url other) :
    answer = other := Except.ok.inj (h.fetched.symm.trans h'.fetched)

theorem Redirects.unique {n : ℕ} {url next other : Url}
    (h : Redirects lib world mode deadline n url next)
    (h' : Redirects lib world mode deadline n url other) : next = other := by
  obtain ⟨answer, location, text, hanswer, -, hlocation, htext, hjoin⟩ := h
  obtain ⟨answer', location', text', hanswer', -, hlocation', htext', hjoin'⟩ := h'
  obtain rfl := hanswer.unique hanswer'
  obtain rfl := Option.some.inj (hlocation.symm.trans hlocation')
  obtain rfl := Option.some.inj (htext.symm.trans htext')
  exact Except.ok.inj (hjoin.symm.trans hjoin')

/-- The next URL, once the answer and its `Location` are known. -/
theorem redirects_iff {n : ℕ} {url next : Url} {answer : Answer} {location : HeaderValue}
    (hanswers : Answers world mode deadline n url answer)
    (hstatus : isRedirect answer.status = true)
    (hlocation : answer.headers.get "location" = some location) :
    Redirects lib world mode deadline n url next ↔
      ∃ text, location.toStr = some text ∧ lib.join url text = .ok next := by
  constructor
  · intro h
    obtain ⟨answer', location', text, hanswers', -, hlocation', htext, hjoin⟩ := h
    obtain rfl := hanswers.unique hanswers'
    obtain rfl := Option.some.inj (hlocation.symm.trans hlocation')
    exact ⟨text, htext, hjoin⟩
  · intro h
    obtain ⟨text, htext, hjoin⟩ := h
    exact ⟨answer, location, text, hanswers, hstatus, hlocation, htext, hjoin⟩

/-- A `Location` that cannot be read or joined leads nowhere. -/
theorem not_redirects {n : ℕ} {url : Url} {answer : Answer} {location : HeaderValue}
    (hanswers : Answers world mode deadline n url answer)
    (hstatus : isRedirect answer.status = true)
    (hlocation : answer.headers.get "location" = some location)
    (hnowhere : ∀ text, location.toStr = some text → ∀ next, lib.join url text ≠ .ok next)
    (next : Url) : ¬ Redirects lib world mode deadline n url next := by
  intro h
  obtain ⟨text, htext, hjoin⟩ := (redirects_iff hanswers hstatus hlocation).mp h
  exact hnowhere text htext next hjoin

theorem Followed.permitted {start url : Url} {n : ℕ}
    (h : Followed lib access world mode deadline start n url) : Permitted lib access url := by
  cases h with
  | first hpermitted => exact hpermitted
  | hop _ _ _ _ _ _ hpermitted => exact hpermitted

theorem Followed.le {start url : Url} {n : ℕ}
    (h : Followed lib access world mode deadline start n url) : n ≤ maxRedirects := by
  cases h with
  | first _ => exact Nat.zero_le _
  | hop n _ _ _ hlimit _ _ => exact hlimit

/-- After so many redirects a call can be at one URL only. -/
theorem Followed.unique {start url other : Url} {n : ℕ}
    (h : Followed lib access world mode deadline start n url)
    (h' : Followed lib access world mode deadline start n other) : url = other := by
  induction h generalizing other with
  | first _ =>
    cases h' with
    | first _ => rfl
  | hop n url next _ _ hredirects _ ih =>
    cases h' with
    | hop _ url' _ hfollowed' _ hredirects' _ =>
      obtain rfl := ih hfollowed'
      exact hredirects.unique hredirects'

theorem Followed.earlier {start url : Url} {n m : ℕ}
    (h : Followed lib access world mode deadline start n url) (hle : m ≤ n) :
    ∃ earlier, Followed lib access world mode deadline start m earlier := by
  induction h with
  | first hpermitted =>
    obtain rfl : m = 0 := by omega
    exact ⟨start, .first hpermitted⟩
  | hop n url next hfollowed hlimit hredirects hpermitted ih =>
    by_cases hlast : m = n + 1
    · subst hlast
      exact ⟨next, .hop n url next hfollowed hlimit hredirects hpermitted⟩
    · exact ih (by omega)

end Chains

section Endings

variable (lib : UrlLibrary Url) (access : Access) (world : World Url) (mode : Mode) (deadline : ℕ)

/-- Why the loop ends at a URL, and with what. -/
inductive Ending (n : ℕ) (url : Url) : Except Error Answer → Prop
  | timeout (htime : deadline - world.turnAt n = 0) : Ending n url (.error timeoutError)
  | failed (error : ClientError)
      (hfetch : world.fetch n url (deadline - world.turnAt n) mode.range = .error error) :
      Ending n url (.error (mapUreqError error))
  | answered (answer : Answer) (hanswers : Answers world mode deadline n url answer)
      (hstatus : isRedirect answer.status = false) : Ending n url (.ok answer)
  | data (answer : Answer) (hanswers : Answers world mode deadline n url answer)
      (hstatus : isRedirect answer.status = true)
      (hlocation : answer.headers.get "location" = none)
      (hmode : mode.missingLocationIsError = false) : Ending n url (.ok answer)
  | unlocated (answer : Answer) (hanswers : Answers world mode deadline n url answer)
      (hstatus : isRedirect answer.status = true)
      (hlocation : answer.headers.get "location" = none)
      (hmode : mode.missingLocationIsError = true) (message : String) :
      Ending n url (.error (mode.redirectError message))
  | limit (answer : Answer) (hanswers : Answers world mode deadline n url answer)
      (hstatus : isRedirect answer.status = true)
      (hlocation : answer.headers.get "location" ≠ none) (hlimit : maxRedirects ≤ n)
      (message : String) :
      Ending n url (.error (mode.redirectError message))
  | unusable (answer : Answer) (hanswers : Answers world mode deadline n url answer)
      (hstatus : isRedirect answer.status = true)
      (hlocation : answer.headers.get "location" ≠ none)
      (hnone : ∀ next, ¬ Redirects lib world mode deadline n url next) (message : String) :
      Ending n url (.error (mode.redirectError message))
  | rejected (next : Url) (hredirects : Redirects lib world mode deadline n url next)
      (hlimit : n < maxRedirects) (error : Error)
      (hrejected : validate lib access next mode.redirectError = .error error) :
      Ending n url (.error error)

/-- The record of a call is about this URL, after so many redirects. -/
def Logged (calls : CallLog) (index n : ℕ) (url : Url) : Prop :=
  ∃ record, calls[index]? = some record ∧ record.redirects = n ∧
    record.host = lib.hostStr url ∧ record.path = some (lib.path url)

/-- The loop has followed a chain to its end. -/
structure Ends (start : Url) (index n : ℕ) (last : Url) (sent : Called Url Answer) : Prop where
  followed : Followed lib access world mode deadline start n last
  logged : Logged lib sent.calls index n last
  few : sent.requested.length ≤ n + 1
  past : ∀ i url, sent.requested[i]? = some url →
    Followed lib access world mode deadline start i url
  ending : Ending lib access world mode deadline n last sent.result

variable {lib access world mode deadline}

theorem Logged.update {calls : CallLog} {index n : ℕ} {url : Url}
    (h : Logged lib calls index n url) (f : CallRecord → CallRecord)
    (hf : ∀ record, (f record).redirects = record.redirects ∧ (f record).host = record.host ∧
      (f record).path = record.path) : Logged lib (calls.update index f) index n url := by
  obtain ⟨record, hrecord, hredirects, hhost, hpath⟩ := h
  obtain ⟨hsame, hsame', hsame''⟩ := hf record
  refine ⟨f record, ?_, hsame.trans hredirects, hsame'.trans hhost, hsame''.trans hpath⟩
  rw [update_get, if_pos rfl, hrecord, Option.map_some]

theorem logged_hop {calls : CallLog} {index n : ℕ} {url : Url} (h : Logged lib calls index n url)
    (next : Url) (m : ℕ) :
    Logged lib (calls.update index
      (fun record => recordUrl lib next { record with redirects := m })) index m next := by
  obtain ⟨record, hrecord, -⟩ := h
  refine ⟨recordUrl lib next { record with redirects := m }, ?_, rfl, rfl, rfl⟩
  rw [update_get, if_pos rfl, hrecord, Option.map_some]

theorem past_snoc {start url : Url} {n : ℕ} {requested : List Url}
    (hfollowed : Followed lib access world mode deadline start n url)
    (hlength : requested.length = n)
    (hpast : ∀ i url, requested[i]? = some url →
      Followed lib access world mode deadline start i url) :
    ∀ i other, (requested ++ [url])[i]? = some other →
      Followed lib access world mode deadline start i other := by
  intro i other hother
  rcases Nat.lt_trichotomy i requested.length with hlt | rfl | hgt
  · rw [List.getElem?_append_left hlt] at hother
    exact hpast i other hother
  · rw [List.getElem?_concat_length] at hother
    obtain rfl := Option.some.inj hother
    rw [hlength]
    exact hfollowed
  · rw [List.getElem?_eq_none (by simp; omega)] at hother
    contradiction

variable (lib access world mode deadline)

/-- What one turn of the loop comes to: the end, with what it has requested, or the next URL. -/
inductive Turn (Url : Type)
  | stop (result : Except Error Answer) (sent : List Url)
  | follow (next : Url)

/-- A turn as part of the loop, which goes on at the next URL. -/
def Turn.run (turn : Turn Url) (calls : CallLog) (requested : List Url)
    (goOn : Url → Called Url Answer) : Called Url Answer :=
  match turn with
  | .stop result sent => ⟨result, calls, requested ++ sent⟩
  | .follow next => goOn next

/-- One turn of the loop. -/
def takeTurn (redirects : ℕ) (url : Url) : Turn Url :=
  if deadline - world.turnAt redirects = 0 then .stop (.error timeoutError) []
  else
    match world.fetch redirects url (deadline - world.turnAt redirects) mode.range with
    | .error error => .stop (.error (mapUreqError error)) [url]
    | .ok answer =>
      if isRedirect answer.status then
        match answer.headers.get "location" with
        | none =>
          if mode.missingLocationIsError then
            .stop (.error (mode.redirectError (mode.call ++ ": redirect status " ++
              toString answer.status ++ " has no Location header"))) [url]
          else .stop (.ok answer) [url]
        | some location =>
          if maxRedirects ≤ redirects then
            .stop (.error (mode.redirectError
              (mode.call ++ ": redirect limit exceeded (max 3 hops)"))) [url]
          else
            match location.toStr with
            | none =>
              .stop (.error (mode.redirectError
                (mode.call ++ ": redirect Location is not a valid string"))) [url]
            | some location =>
              match lib.join url location with
              | .error error =>
                .stop (.error (mode.redirectError
                  (mode.call ++ ": invalid redirect Location: " ++ error))) [url]
              | .ok next =>
                match validate lib access next mode.redirectError with
                | .error error => .stop (.error error) [url]
                | .ok () => .follow next
      else .stop (.ok answer) [url]

/-- The loop takes its turns one after the other. -/
theorem send_eq (index redirects : ℕ) (url : Url) (calls : CallLog) (requested : List Url) :
    sendFollowingRedirects lib access world mode deadline index redirects url calls requested =
      (takeTurn lib access world mode deadline redirects url).run calls requested fun next =>
        sendFollowingRedirects lib access world mode deadline index (redirects + 1) next
          (calls.update index (fun record =>
            recordUrl lib next { record with redirects := redirects + 1 }))
          (requested ++ [url]) := by
  rw [sendFollowingRedirects, takeTurn]
  by_cases htime : deadline - world.turnAt redirects = 0
  · simp only [if_pos htime, Turn.run, List.append_nil]
  · simp only [if_neg htime]
    cases world.fetch redirects url (deadline - world.turnAt redirects) mode.range with
    | error error => rfl
    | ok answer =>
      by_cases hstatus : isRedirect answer.status = true
      · simp only [if_pos hstatus]
        cases answer.headers.get "location" with
        | none => by_cases hmode : mode.missingLocationIsError = true <;> simp [hmode, Turn.run]
        | some location =>
          by_cases hlimit : maxRedirects ≤ redirects
          · simp only [if_pos hlimit, Turn.run]
          · simp only [if_neg hlimit]
            cases location.toStr with
            | none => rfl
            | some text =>
              cases hjoin : lib.join url text with
              | error error => simp only [hjoin, Turn.run]
              | ok next =>
                simp only [hjoin]
                cases validate lib access next mode.redirectError <;> rfl
      · simp only [if_neg hstatus, Turn.run]

/-- A turn ends the loop, or follows one redirect. -/
theorem takeTurn_cases (redirects : ℕ) (url : Url) :
    (∃ result sent, takeTurn lib access world mode deadline redirects url = .stop result sent ∧
      Ending lib access world mode deadline redirects url result ∧
        (sent = [] ∨ sent = [url])) ∨
    (∃ next, takeTurn lib access world mode deadline redirects url = .follow next ∧
      Redirects lib world mode deadline redirects url next ∧ redirects < maxRedirects ∧
        Permitted lib access next) := by
  rw [takeTurn]
  by_cases htime : deadline - world.turnAt redirects = 0
  · simp only [if_pos htime]
    exact Or.inl ⟨_, [], rfl, .timeout htime, Or.inl rfl⟩
  · simp only [if_neg htime]
    cases hfetch : world.fetch redirects url (deadline - world.turnAt redirects) mode.range with
    | error error => exact Or.inl ⟨_, [url], rfl, .failed error hfetch, Or.inr rfl⟩
    | ok answer =>
      have hanswers : Answers world mode deadline redirects url answer := ⟨htime, hfetch⟩
      simp only
      by_cases hstatus : isRedirect answer.status = true
      · simp only [if_pos hstatus]
        cases hlocation : answer.headers.get "location" with
        | none =>
          by_cases hmode : mode.missingLocationIsError = true
          · simp only [if_pos hmode]
            exact Or.inl ⟨_, [url], rfl, .unlocated answer hanswers hstatus hlocation hmode _,
              Or.inr rfl⟩
          · simp only [if_neg hmode]
            exact Or.inl ⟨_, [url], rfl, .data answer hanswers hstatus hlocation
              (Bool.eq_false_iff.mpr hmode), Or.inr rfl⟩
        | some location =>
          have hsome : answer.headers.get "location" ≠ none := by simp [hlocation]
          simp only
          by_cases hlimit : maxRedirects ≤ redirects
          · simp only [if_pos hlimit]
            exact Or.inl ⟨_, [url], rfl, .limit answer hanswers hstatus hsome hlimit _, Or.inr rfl⟩
          · simp only [if_neg hlimit]
            cases htext : location.toStr with
            | none =>
              have hnone : ∀ next, ¬ Redirects lib world mode deadline redirects url next := by
                apply not_redirects hanswers hstatus hlocation
                simp [htext]
              exact Or.inl ⟨_, [url], rfl, .unusable answer hanswers hstatus hsome hnone _,
                Or.inr rfl⟩
            | some text =>
              simp only
              cases hjoin : lib.join url text with
              | error error =>
                have hnone : ∀ next, ¬ Redirects lib world mode deadline redirects url next := by
                  apply not_redirects hanswers hstatus hlocation
                  intro text' hread
                  obtain rfl := Option.some.inj (htext.symm.trans hread)
                  simp [hjoin]
                exact Or.inl ⟨_, [url], rfl, .unusable answer hanswers hstatus hsome hnone _,
                  Or.inr rfl⟩
              | ok next =>
                have hredirects :=
                  (redirects_iff hanswers hstatus hlocation).mpr ⟨text, htext, hjoin⟩
                simp only
                cases hvalid : validate lib access next mode.redirectError with
                | error error =>
                  exact Or.inl ⟨_, [url], rfl,
                    .rejected next hredirects (by omega) error hvalid, Or.inr rfl⟩
                | ok _ =>
                  have hpermitted := (validate_ok_iff lib access next mode.redirectError).mp hvalid
                  exact Or.inr ⟨next, rfl, hredirects, by omega, hpermitted⟩
      · simp only [if_neg hstatus]
        exact Or.inl ⟨_, [url], rfl, .answered answer hanswers (Bool.eq_false_iff.mpr hstatus),
          Or.inr rfl⟩

theorem send_turn (index redirects : ℕ) (url : Url) (calls : CallLog) (requested : List Url) :
    (∃ result more, Ending lib access world mode deadline redirects url result ∧
      (more = [] ∨ more = [url]) ∧
        sendFollowingRedirects lib access world mode deadline index redirects url calls requested =
          ⟨result, calls, requested ++ more⟩) ∨
    (∃ next, Redirects lib world mode deadline redirects url next ∧ redirects < maxRedirects ∧
      Permitted lib access next ∧
        sendFollowingRedirects lib access world mode deadline index redirects url calls requested =
          sendFollowingRedirects lib access world mode deadline index (redirects + 1) next
            (calls.update index (fun record =>
              recordUrl lib next { record with redirects := redirects + 1 }))
            (requested ++ [url])) := by
  rw [send_eq]
  rcases takeTurn_cases lib access world mode deadline redirects url with
    ⟨result, sent, hturn, hending, hsent⟩ | ⟨next, hturn, hredirects, hlimit, hpermitted⟩
  · rw [hturn]
    exact Or.inl ⟨result, sent, hending, hsent, rfl⟩
  · rw [hturn]
    exact Or.inr ⟨next, hredirects, hlimit, hpermitted, rfl⟩

/-- The loop follows its chain to the end, from wherever it stands in it. -/
theorem send_ends (start : Url) (index redirects : ℕ) (url : Url) (calls : CallLog)
    (requested : List Url)
    (hfollowed : Followed lib access world mode deadline start redirects url)
    (hlogged : Logged lib calls index redirects url) (hlength : requested.length = redirects)
    (hpast : ∀ i url, requested[i]? = some url →
      Followed lib access world mode deadline start i url) :
    ∃ n last, Ends lib access world mode deadline start index n last
      (sendFollowingRedirects lib access world mode deadline index redirects url calls
        requested) := by
  induction hhops : maxRedirects - redirects using Nat.strongRecOn
    generalizing redirects url calls requested with
  | ind hops ih =>
    have hsnoc := past_snoc hfollowed hlength hpast
    rcases send_turn lib access world mode deadline index redirects url calls requested with
      ⟨result, more, hending, hmore, hsent⟩ | ⟨next, hredirects, hlimit, hpermitted, hsent⟩
    · rw [hsent]
      refine ⟨redirects, url, hfollowed, hlogged, ?_, ?_, hending⟩
      · rcases hmore with rfl | rfl <;> simp [hlength]
      · rcases hmore with rfl | rfl
        · simpa using hpast
        · exact hsnoc
    · rw [hsent]
      exact ih (maxRedirects - (redirects + 1)) (by omega) (redirects + 1) next _ _
        (.hop redirects url next hfollowed hlimit hredirects hpermitted)
        (logged_hop hlogged next _) (by simp [hlength]) hsnoc rfl

variable {lib access world mode deadline}

/-- An answer that redirects ends the loop at the limit, or with a URL that is refused. -/
theorem Ending.redirected {n : ℕ} {url next : Url} {result : Except Error Answer}
    (h : Ending lib access world mode deadline n url result)
    (hredirects : Redirects lib world mode deadline n url next) :
    (maxRedirects ≤ n ∧ ∃ message, result = .error (mode.redirectError message)) ∨
      ∃ error, validate lib access next mode.redirectError = .error error ∧
        result = .error error := by
  obtain ⟨answer', location', text', hanswers', hstatus', hlocation', -⟩ := id hredirects
  cases h with
  | timeout htime => exact absurd htime hanswers'.time
  | failed error hfetch =>
    rw [hanswers'.fetched] at hfetch
    contradiction
  | answered answer hanswers hstatus =>
    obtain rfl := hanswers.unique hanswers'
    rw [hstatus'] at hstatus
    contradiction
  | data answer hanswers _ hlocation _ =>
    obtain rfl := hanswers.unique hanswers'
    rw [hlocation'] at hlocation
    contradiction
  | unlocated answer hanswers _ hlocation _ message =>
    obtain rfl := hanswers.unique hanswers'
    rw [hlocation'] at hlocation
    contradiction
  | limit answer _ _ _ hreached message => exact Or.inl ⟨hreached, message, rfl⟩
  | unusable answer _ _ _ hnone message => exact absurd hredirects (hnone next)
  | rejected other hredirects' _ error hrejected =>
    obtain rfl := hredirects.unique hredirects'
    exact Or.inr ⟨error, hrejected, rfl⟩

/-- A redirect status that leads nowhere is data without a `Location`, or an error of the chain. -/
theorem Ending.stuck {n : ℕ} {url : Url} {answer : Answer} {result : Except Error Answer}
    (h : Ending lib access world mode deadline n url result)
    (hanswers : Answers world mode deadline n url answer)
    (hstatus : isRedirect answer.status = true)
    (hstuck : maxRedirects ≤ n ∨ ∀ next, ¬ Redirects lib world mode deadline n url next) :
    (answer.headers.get "location" = none ∧ mode.missingLocationIsError = false ∧
        result = .ok answer) ∨
      ((answer.headers.get "location" = none → mode.missingLocationIsError = true) ∧
        ∃ message, result = .error (mode.redirectError message)) := by
  cases h with
  | timeout htime => exact absurd htime hanswers.time
  | failed error hfetch =>
    rw [hanswers.fetched] at hfetch
    contradiction
  | answered answer' hanswers' hstatus' =>
    obtain rfl := hanswers.unique hanswers'
    rw [hstatus] at hstatus'
    contradiction
  | data answer' hanswers' _ hlocation hmode =>
    obtain rfl := hanswers.unique hanswers'
    exact Or.inl ⟨hlocation, hmode, rfl⟩
  | unlocated answer' hanswers' _ hlocation hmode message =>
    exact Or.inr ⟨fun _ => hmode, message, rfl⟩
  | limit answer' hanswers' _ hlocation _ message =>
    obtain rfl := hanswers.unique hanswers'
    exact Or.inr ⟨fun hnone => absurd hnone hlocation, message, rfl⟩
  | unusable answer' hanswers' _ hlocation _ message =>
    obtain rfl := hanswers.unique hanswers'
    exact Or.inr ⟨fun hnone => absurd hnone hlocation, message, rfl⟩
  | rejected next hredirects hlimit error _ =>
    rcases hstuck with hreached | hnone
    · omega
    · exact absurd hredirects (hnone next)

/-- Where the loop ends, the chain ends. -/
theorem Ends.final {start last : Url} {index n : ℕ} {sent : Called Url Answer}
    (h : Ends lib access world mode deadline start index n last sent) (next : Url) :
    ¬ Followed lib access world mode deadline start (n + 1) next := by
  intro hmore
  cases hmore with
  | hop _ url _ hfollowed hlimit hredirects hpermitted =>
    obtain rfl := h.followed.unique hfollowed
    rcases h.ending.redirected hredirects with ⟨hreached, -⟩ | ⟨error, hrejected, -⟩
    · omega
    · rw [validate_permitted lib access next mode.redirectError hpermitted] at hrejected
      contradiction

/-- A chain that cannot go on is where the loop ends. -/
theorem Ends.at_end {start last url : Url} {index n m : ℕ} {sent : Called Url Answer}
    (h : Ends lib access world mode deadline start index n last sent)
    (hfollowed : Followed lib access world mode deadline start m url)
    (hfinal : ∀ next, ¬ Followed lib access world mode deadline start (m + 1) next) :
    Ending lib access world mode deadline m url sent.result := by
  have hlast := h.followed
  rcases Nat.lt_trichotomy n m with hlt | rfl | hgt
  · obtain ⟨next, hnext⟩ := hfollowed.earlier (m := n + 1) (by omega)
    exact absurd hnext (h.final next)
  · obtain rfl := hlast.unique hfollowed
    exact h.ending
  · obtain ⟨next, hnext⟩ := hlast.earlier (m := m + 1) (by omega)
    exact absurd hnext (hfinal next)

/-- A redirect to a URL that is not permitted ends the loop with the error of its validation. -/
theorem Ends.rejected {start last url next : Url} {index n m : ℕ} {sent : Called Url Answer}
    (h : Ends lib access world mode deadline start index n last sent)
    (hfollowed : Followed lib access world mode deadline start m url) (hlimit : m < maxRedirects)
    (hredirects : Redirects lib world mode deadline m url next)
    (hrefused : ¬ Permitted lib access next) :
    ∃ error, validate lib access next mode.redirectError = .error error ∧
      sent.result = .error error := by
  have hfinal : ∀ other, ¬ Followed lib access world mode deadline start (m + 1) other := by
    intro other hmore
    cases hmore with
    | hop _ url' _ hfollowed' _ hredirects' hpermitted =>
      obtain rfl := hfollowed.unique hfollowed'
      obtain rfl := hredirects.unique hredirects'
      exact hrefused hpermitted
  rcases (h.at_end hfollowed hfinal).redirected hredirects with ⟨hreached, -⟩ | hrejected
  · omega
  · exact hrejected

/-- A redirect status that leads nowhere ends the loop. -/
theorem Ends.stuck {start last url : Url} {index n m : ℕ} {sent : Called Url Answer}
    {answer : Answer} (h : Ends lib access world mode deadline start index n last sent)
    (hfollowed : Followed lib access world mode deadline start m url)
    (hanswers : Answers world mode deadline m url answer)
    (hstatus : isRedirect answer.status = true)
    (hstuck : maxRedirects ≤ m ∨ ∀ next, ¬ Redirects lib world mode deadline m url next) :
    (answer.headers.get "location" = none ∧ mode.missingLocationIsError = false ∧
        sent.result = .ok answer) ∨
      ((answer.headers.get "location" = none → mode.missingLocationIsError = true) ∧
        ∃ message, sent.result = .error (mode.redirectError message)) := by
  refine (h.at_end hfollowed ?_).stuck hanswers hstatus hstuck
  intro next hmore
  cases hmore with
  | hop _ url' _ hfollowed' hlimit hredirects _ =>
    obtain rfl := hfollowed.unique hfollowed'
    rcases hstuck with hreached | hnone
    · omega
    · exact hnone next hredirects

end Endings

end StuntDouble.Upstream
