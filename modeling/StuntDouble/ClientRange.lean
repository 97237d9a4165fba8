import StuntDouble.PipeHeaders

/-!
The Range of the client on its way to the upstream of a piped call. The snapshot of the
request holds a text for each header line, and the first Range among them is what every hop of
the call sends. What a call sends is told from how it depends on the HTTP client: it sends
nothing but certain Ranges when it comes to the same whatever other requests would answer.
-/
namespace StuntDouble.Upstream

open Http RequestLog

section Snapshot

/-- The header map that a request with these lines has. -/
def headerMap (lines : List (String × HeaderValue)) : HeaderMap :=
  lines.foldl (fun headers line => headers.append (asciiLower line.1) line.2) []

/-- The headers of the snapshot of a request. -/
def snapshotHeaders (headers : HeaderMap) : List (String × String) :=
  headers.flatMap fun entry =>
    entry.2.map fun value => (asciiLower entry.1, Utf8.decodeLossy value)

/-- The Range that a run keeps of its request. -/
def clientRange (headers : List (String × String)) : Option String :=
  (headers.find? fun header => header.1 = "range").map Prod.snd

/-- The values of the Range lines of a request, in order. -/
def rangeValues (lines : List (String × HeaderValue)) : List HeaderValue :=
  (lines.filter fun line => eqIgnoreAsciiCase line.1 "range").map Prod.snd

/-- Names are in lower case, and each has a value. -/
def Stored (headers : HeaderMap) : Prop :=
  ∀ entry ∈ headers, asciiLower entry.1 = entry.1 ∧ entry.2 ≠ []

theorem toLower_toLower (c : Char) : c.toLower.toLower = c.toLower := by
  by_cases h : c.val ≥ 'A'.val ∧ c.val ≤ 'Z'.val
  · have hlow : 65 ≤ c.toNat := UInt32.le_iff_toNat_le.mp h.1
    have hhigh : c.toNat ≤ 90 := UInt32.le_iff_toNat_le.mp h.2
    have hsum : (c.val + ('a'.val - 'A'.val)).toNat = (c.toNat + 32) % 2 ^ 32 :=
      UInt32.toNat_add c.val 32
    have hval : c.toLower.val = c.val + ('a'.val - 'A'.val) := by
      unfold Char.toLower
      rw [dif_pos h]
    have hnot : ¬ (c.toLower.val ≥ 'A'.val ∧ c.toLower.val ≤ 'Z'.val) := by
      rintro ⟨-, hle⟩
      have hle : c.toLower.val.toNat ≤ 90 := UInt32.le_iff_toNat_le.mp hle
      rw [hval] at hle
      omega
    exact dif_neg hnot
  · have hsame : c.toLower = c := dif_neg h
    rw [hsame, hsame]

theorem asciiLower_asciiLower (s : String) : asciiLower (asciiLower s) = asciiLower s := by
  unfold asciiLower
  rw [String.toList_ofList, List.map_map]
  congr 1
  exact List.map_congr_left fun c _ => toLower_toLower c

theorem Stored.append {headers : HeaderMap} (h : Stored headers) (name : String)
    (value : HeaderValue) : Stored (headers.append (asciiLower name) value) := by
  induction headers with
  | nil =>
    intro entry hentry
    cases List.mem_singleton.mp hentry
    exact ⟨asciiLower_asciiLower name, by simp⟩
  | cons other rest ih =>
    have hrest : Stored rest := fun entry hentry => h entry (List.mem_cons_of_mem _ hentry)
    have hother := h other List.mem_cons_self
    intro entry hentry
    rw [HeaderMap.append] at hentry
    split at hentry
    · rcases List.mem_cons.mp hentry with rfl | hentry
      · exact ⟨hother.1, by simp⟩
      · exact hrest entry hentry
    · rcases List.mem_cons.mp hentry with rfl | hentry
      · exact hother
      · exact ih hrest entry hentry

theorem clientRange_cons (entry : String × List HeaderValue) (rest : HeaderMap) :
    clientRange (snapshotHeaders (entry :: rest)) =
      (if asciiLower entry.1 = "range" then entry.2.head?.map Utf8.decodeLossy else none).or
        (clientRange (snapshotHeaders rest)) := by
  have hentry : (entry.2.map fun value => (asciiLower entry.1, Utf8.decodeLossy value)).find?
      (fun header => header.1 = "range") =
        if asciiLower entry.1 = "range" then
          entry.2.head?.map fun value => (asciiLower entry.1, Utf8.decodeLossy value)
        else none := by
    by_cases hname : asciiLower entry.1 = "range"
    · cases entry.2 with
      | nil => simp
      | cons value values => simp [hname]
    · simp [hname]
  unfold clientRange snapshotHeaders
  rw [List.flatMap_cons, List.find?_append, hentry, Option.map_or]
  split
  · rw [Option.map_map]
    rfl
  · rfl

/-- A line more is only seen when no Range came before it. -/
theorem clientRange_append {headers : HeaderMap} (h : Stored headers) (name : String)
    (value : HeaderValue) :
    clientRange (snapshotHeaders (headers.append (asciiLower name) value)) =
      (clientRange (snapshotHeaders headers)).or
        (if asciiLower name = "range" then some (Utf8.decodeLossy value) else none) := by
  induction headers with
  | nil =>
    rw [HeaderMap.append, clientRange_cons, asciiLower_asciiLower]
    split <;> rfl
  | cons entry rest ih =>
    have hrest : Stored rest := fun other hother => h other (List.mem_cons_of_mem _ hother)
    obtain ⟨hlower, hne⟩ := h entry List.mem_cons_self
    obtain ⟨first, more, hvalues⟩ := List.exists_cons_of_ne_nil hne
    rw [HeaderMap.append]
    split
    · rename_i hname
      rw [clientRange_cons, clientRange_cons, hlower, hname, hvalues]
      by_cases hrange : asciiLower name = "range"
      · rw [if_pos hrange, if_pos hrange, if_pos hrange]
        simp
      · rw [if_neg hrange, if_neg hrange, if_neg hrange]
        simp
    · rw [clientRange_cons, clientRange_cons, ih hrest, Option.or_assoc]

theorem headerMap_concat (lines : List (String × HeaderValue)) (line : String × HeaderValue) :
    headerMap (lines ++ [line]) = (headerMap lines).append (asciiLower line.1) line.2 := by
  unfold headerMap
  rw [List.foldl_append]
  rfl

theorem stored_headerMap (lines : List (String × HeaderValue)) : Stored (headerMap lines) := by
  induction lines using List.reverseRecOn with
  | nil => exact fun entry hentry => absurd hentry List.not_mem_nil
  | append_singleton lines line ih =>
    rw [headerMap_concat]
    exact ih.append line.1 line.2

/-- The run keeps the first Range line, with what is no text in it replaced. -/
theorem clientRange_headerMap (lines : List (String × HeaderValue)) :
    clientRange (snapshotHeaders (headerMap lines)) =
      (rangeValues lines).head?.map Utf8.decodeLossy := by
  induction lines using List.reverseRecOn with
  | nil => rfl
  | append_singleton lines line ih =>
    have hrange : eqIgnoreAsciiCase line.1 "range" = true ↔ asciiLower line.1 = "range" := by
      have hname : asciiLower "range" = "range" := by decide
      rw [eqIgnoreAsciiCase, hname, beq_iff_eq]
    have hvalues : rangeValues (lines ++ [line]) = rangeValues lines ++
        if asciiLower line.1 = "range" then [line.2] else [] := by
      unfold rangeValues
      rw [List.filter_append, List.map_append]
      simp only [List.filter_cons, List.filter_nil, hrange]
      split <;> rfl
    rw [headerMap_concat, clientRange_append (stored_headerMap lines), ih, hvalues]
    by_cases hline : asciiLower line.1 = "range"
    · rw [if_pos hline, if_pos hline]
      cases rangeValues lines <;> rfl
    · rw [if_neg hline, if_neg hline, Option.or_none, List.append_nil]

end Snapshot

section Carrying

/-- One text for several values: a list has commas between them, with blanks around. -/
inductive Listed : List Bytes → Bytes → Prop
  | one (value : Bytes) : Listed [value] value
  | more (value before after : Bytes) {values : List Bytes} {bytes : Bytes}
      (hblank : ∀ b ∈ before ++ after, b = 32 ∨ b = 9) (hrest : Listed values bytes) :
      Listed (value :: values) (value ++ before ++ 44 :: (after ++ bytes))

/-- The sent Range is the Range of the client: no header for none, and all values of several. -/
def Carries (values : List Bytes) : Option String → Prop
  | none => values = []
  | some range => Listed values (Utf8.encode range)

/-- The client has sent no Range line, or one that is text. -/
def Readable (lines : List (String × HeaderValue)) : Prop :=
  rangeValues lines = [] ∨ ∃ value, rangeValues lines = [value] ∧ (Utf8.decode value).isSome

theorem encode_decodeLossy_iff (value : Bytes) :
    Utf8.encode (Utf8.decodeLossy value) = value ↔ (Utf8.decode value).isSome = true := by
  constructor
  · intro h
    rw [← h, Utf8.decode_encode]
    rfl
  · intro h
    obtain ⟨text, htext⟩ := Option.isSome_iff_exists.mp h
    rw [← Utf8.encode_of_decode htext, Utf8.decodeLossy_encode]

/-- Decoding with replacement keeps the number of commas. -/
theorem count_comma (value : Bytes) :
    (Utf8.encode (Utf8.decodeLossy value)).countP (fun b => b.toNat = 44) =
      value.countP (fun b => b.toNat = 44) := by
  have hcomma : (','.toNat) = 44 := rfl
  have hbefore := Utf8.lossyFrom_count (c := ',') (by decide) (by decide) value .start trivial
  have hafter := Utf8.lossyFrom_count (c := ',') (by decide) (by decide)
    (Utf8.encode (Utf8.decodeLossy value)) .start trivial
  rw [Utf8.encode_eq_encodeChars, Utf8.lossyFrom_encodeChars, Utf8.decodeLossy,
    String.toList_ofList, hbefore] at hafter
  rw [Utf8.encode_eq_encodeChars, Utf8.decodeLossy, String.toList_ofList]
  exact hafter.symm

/-- A list of several values has more commas than its first value. -/
theorem Listed.comma_lt {value : Bytes} {values : List Bytes} {bytes : Bytes}
    (h : Listed (value :: values) bytes) (hne : values ≠ []) :
    value.countP (fun b => b.toNat = 44) < bytes.countP (fun b => b.toNat = 44) := by
  cases h with
  | one => exact absurd rfl hne
  | more _ before after hblank hrest =>
    rw [List.countP_append, List.countP_append, List.countP_cons_of_pos rfl]
    omega

/-- The text of the first value carries the Range of readable lines, and of no others. -/
theorem carries_iff (lines : List (String × HeaderValue)) :
    Carries (rangeValues lines) ((rangeValues lines).head?.map Utf8.decodeLossy) ↔
      Readable lines := by
  unfold Readable
  cases rangeValues lines with
  | nil => simp [Carries]
  | cons value values =>
    show Listed (value :: values) (Utf8.encode (Utf8.decodeLossy value)) ↔ _
    by_cases hnil : values = []
    · subst hnil
      have hlisted : Listed [value] (Utf8.encode (Utf8.decodeLossy value)) ↔
          Utf8.encode (Utf8.decodeLossy value) = value := by
        constructor
        · intro h
          generalize Utf8.encode (Utf8.decodeLossy value) = bytes at h
          cases h with
          | one => rfl
          | more _ before after hblank hrest => cases hrest
        · intro h
          rw [h]
          exact .one value
      rw [hlisted, encode_decodeLossy_iff]
      simp
    · constructor
      · intro h
        have hlt := h.comma_lt hnil
        rw [count_comma] at hlt
        exact absurd hlt (lt_irrefl _)
      · rintro (h | ⟨other, h, -⟩)
        · cases h
        · exact absurd (List.cons.inj h).2 hnil

end Carrying

section Sending

variable {Url : Type} (lib : UrlLibrary Url) (access : Access) (world : World Url)

abbrev Fetch (Url : Type) := ℕ → Url → ℕ → Option String → Except ClientError Answer

/-- The same world with another HTTP client. -/
def World.withFetch (fetch : Fetch Url) : World Url := { world with fetch := fetch }

/-- A client that answers a Range in the same way at every hop makes no difference. -/
theorem send_withFetch (fetch : Fetch Url) (mode : Mode)
    (hfetch : ∀ hop url left, fetch hop url left mode.range = world.fetch hop url left mode.range)
    (deadline index n : ℕ) (url : Url) (calls : CallLog) (requested : List Url) :
    sendFollowingRedirects lib access (world.withFetch fetch) mode deadline index n url calls
      requested =
        sendFollowingRedirects lib access world mode deadline index n url calls requested := by
  have hsame (n : ℕ) (url : Url) : takeTurn lib access (world.withFetch fetch) mode deadline n url =
      takeTurn lib access world mode deadline n url := by
    unfold takeTurn
    simp only [World.withFetch, hfetch]
  induction hhops : maxRedirects - n using Nat.strongRecOn generalizing n url calls requested with
  | ind left ih =>
    rw [send_eq lib access (world.withFetch fetch), send_eq lib access world, hsame]
    rcases takeTurn_cases lib access world mode deadline n url with
      ⟨result, sent, hturn, -⟩ | ⟨next, hturn, -, hlimit, -⟩
    · rw [hturn]
      rfl
    · rw [hturn]
      exact ih (maxRedirects - (n + 1)) (by omega) (n + 1) next _ _ rfl

theorem pipe_withFetch (fetch : Fetch Url)
    (hfetch : ∀ hop url left,
      fetch hop url left access.clientRange = world.fetch hop url left access.clientRange)
    (elapsedMs : ℕ → Ms) (payload : Json) (calls : CallLog) :
    pipe lib access (world.withFetch fetch) elapsedMs payload calls =
      pipe lib access world elapsedMs payload calls := by
  have hsent (timeout : Option ℕ) (index : ℕ) (url : Url) (calls : CallLog) :
      sendFirst lib access (world.withFetch fetch) (pipeMode access) .invalidUrl timeout index url
        calls = sendFirst lib access world (pipeMode access) .invalidUrl timeout index url
          calls := by
    unfold sendFirst
    cases validate lib access url .invalidUrl with
    | error error => rfl
    | ok _ =>
      have hbudget : budget access (world.withFetch fetch) timeout = budget access world timeout :=
        rfl
      simp only [hbudget]
      cases budget access world timeout with
      | error error => rfl
      | ok time => exact send_withFetch lib access world fetch (pipeMode access) hfetch _ _ _ _ _ _
  unfold pipe pipeInner
  simp only [hsent]
  rfl

/-- A client that refuses the Range of the client leaves no call that succeeds. -/
theorem pipe_refused (fetch : Fetch Url)
    (hfetch : ∀ hop url left, fetch hop url left access.clientRange = .error .timeout)
    (elapsedMs : ℕ → Ms) (payload : Json) (calls : CallLog) (response : PipeResponse) :
    (pipe lib access (world.withFetch fetch) elapsedMs payload calls).result ≠ .ok response := by
  intro h
  obtain ⟨call, index, answer, -, hanswered, -⟩ := pipe_ok lib access _ elapsedMs h
  obtain ⟨url, -, hsent⟩ := Option.bind_eq_some_iff.mp hanswered
  unfold sendFirst at hsent
  cases hvalid : validate lib access url .invalidUrl with
  | error error =>
    simp only [hvalid] at hsent
    cases hsent
  | ok _ =>
    simp only [hvalid] at hsent
    cases hbudget : budget access (world.withFetch fetch) none with
    | error error =>
      simp only [hbudget] at hsent
      cases hsent
    | ok time =>
      simp only [hbudget] at hsent
      rw [sendFollowingRedirects] at hsent
      have hrefused (hop left : ℕ) :
          (world.withFetch fetch).fetch hop url left (pipeMode access).range = .error .timeout :=
        hfetch hop url left
      simp only [hrefused] at hsent
      split at hsent
      · cases hsent
      · cases hsent

end Sending

section Runs

/-- What a piped call meets, but for the Range of its client. -/
structure PipeRun (Url : Type) where
  lib : UrlLibrary Url
  allowHosts : List String
  defaultTimeout : ℕ
  scriptDeadline : ℕ
  world : World Url
  elapsedMs : ℕ → Ms
  payload : Json
  calls : CallLog

variable {Url : Type} (lines : List (String × HeaderValue)) (run : PipeRun Url)

/-- The host of a run knows the Range from the headers of the request. -/
def PipeRun.access : Access :=
  ⟨run.allowHosts, run.defaultTimeout, run.scriptDeadline,
    clientRange (snapshotHeaders (headerMap lines))⟩

/-- The piped call of a request with these header lines, with any HTTP client. -/
def PipeRun.called (fetch : Fetch Url) : Called Url PipeResponse :=
  pipe run.lib (run.access lines) (run.world.withFetch fetch) run.elapsedMs run.payload run.calls

/-- The call depends on the HTTP client for requests with these Ranges only. -/
def PipeRun.SendsOnly (ranges : Option String → Prop) : Prop :=
  ∀ fetch : Fetch Url,
    (∀ hop url left range, ranges range →
      fetch hop url left range = run.world.fetch hop url left range) →
        run.called lines fetch = run.called lines run.world.fetch

def PipeRun.Succeeds : Prop := ∃ response, (run.called lines run.world.fetch).result = .ok response

/-- Every hop sends the Range of the client; with several Range lines the call may fail. -/
def Faithful : Prop :=
  run.SendsOnly lines (Carries (rangeValues lines)) ∨
    (2 ≤ (rangeValues lines).length ∧ ¬ run.Succeeds lines)

theorem sendsOnly_of_clientRange {ranges : Option String → Prop}
    (h : ranges (run.access lines).clientRange) : run.SendsOnly lines ranges := by
  intro fetch hfetch
  have hsame : run.world.withFetch run.world.fetch = run.world := rfl
  unfold PipeRun.called
  rw [hsame]
  exact pipe_withFetch run.lib (run.access lines) run.world fetch
    (fun hop url left => hfetch hop url left _ h) run.elapsedMs run.payload run.calls

theorem clientRange_of_sendsOnly {ranges : Option String → Prop} (hok : run.Succeeds lines)
    (h : run.SendsOnly lines ranges) : ranges (run.access lines).clientRange := by
  classical
  by_contra hother
  obtain ⟨response, hresponse⟩ := hok
  let refusing : Fetch Url := fun hop url left range =>
    if range = (run.access lines).clientRange then .error .timeout
    else run.world.fetch hop url left range
  have hsame := h refusing fun hop url left range hrange => by
    apply if_neg
    rintro rfl
    exact hother hrange
  rw [← hsame] at hresponse
  exact pipe_refused run.lib (run.access lines) run.world refusing (fun _ _ _ => if_pos rfl)
    run.elapsedMs run.payload run.calls response hresponse

theorem carries_clientRange_iff :
    Carries (rangeValues lines) (run.access lines).clientRange ↔ Readable lines := by
  unfold PipeRun.access
  rw [clientRange_headerMap, carries_iff]

theorem faithful_of_readable (h : Readable lines) : Faithful lines run :=
  Or.inl (sendsOnly_of_clientRange lines run ((carries_clientRange_iff lines run).mpr h))

/-- A call that succeeds has sent the Range that the run keeps. -/
theorem readable_of_faithful (hok : run.Succeeds lines) (h : Faithful lines run) :
    Readable lines := by
  rcases h with h | ⟨-, hfails⟩
  · exact (carries_clientRange_iff lines run).mp (clientRange_of_sendsOnly lines run hok h)
  · exact absurd hok hfails

end Runs

section Forwarding

/-- A call of a server that answers every request with an empty body. -/
def PipeRun.simple : PipeRun String where
  lib := ⟨.ok, fun _ url => .ok url, fun _ => "http", some, some, fun _ => "/", id⟩
  allowHosts := ["a"]
  defaultTimeout := 1000
  scriptDeadline := 1000
  world := ⟨fun _ _ _ _ => .ok ⟨200, [], fun _ => .ok [], []⟩, 0, 0, fun _ => 0, 0, 0⟩
  elapsedMs := UInt64.ofNat
  payload := .object [("url", .string "a")]
  calls := []

theorem simple_sent (access : Access) (hhosts : access.allowHosts = ["a"])
    (hbudget : budget access PipeRun.simple.world none = .ok 900) (calls : CallLog) :
    (sendFirst PipeRun.simple.lib access PipeRun.simple.world (pipeMode access) .invalidUrl none 0
      "a" calls).result = .ok ⟨200, [], fun _ => .ok [], []⟩ := by
  have hpermitted : Permitted PipeRun.simple.lib access "a" :=
    ⟨Or.inl rfl, "a", rfl, "a", by simp [hhosts], beq_self_eq_true _⟩
  unfold sendFirst
  simp only [validate_permitted _ _ _ .invalidUrl hpermitted, hbudget]
  rw [sendFollowingRedirects]
  rfl

theorem simple_succeeds (lines : List (String × HeaderValue)) : PipeRun.simple.Succeeds lines := by
  have hbudget : budget (PipeRun.simple.access lines) PipeRun.simple.world none = .ok 900 := by
    simp [budget, callBudget, replyMargin, PipeRun.access, PipeRun.simple]
  have hsent := simple_sent (PipeRun.simple.access lines) rfl hbudget
  have hparsed : parsePipeCall PipeRun.simple.lib.debugText PipeRun.simple.payload =
      .ok ⟨"a", none, []⟩ := rfl
  have hurl : PipeRun.simple.lib.parse "a" = .ok "a" := rfl
  have hinner (calls : CallLog) : (pipeInner PipeRun.simple.lib (PipeRun.simple.access lines)
      PipeRun.simple.world PipeRun.simple.payload 0 calls).result =
        .ok ⟨200, [], ⟨[], ⟨0, 0, false⟩⟩⟩ := by
    unfold pipeInner
    simp only [hparsed, hurl, hsent]
    rfl
  refine ⟨⟨200, [], ⟨[], ⟨0, 0, false⟩⟩⟩, ?_⟩
  have hresult := hinner [CallRecord.new "http.pipe"]
  show (pipe PipeRun.simple.lib (PipeRun.simple.access lines) PipeRun.simple.world
    PipeRun.simple.elapsedMs PipeRun.simple.payload []).result = _
  unfold pipe
  simp only [Chain.beginCall, List.nil_append, List.length_nil, hresult]

/-- Every call forwards the Range of its client exactly when there is no Range line, or one
that is text; a call that succeeds sends one Range, so it loses the others of several. -/
theorem client_range_forwarded (lines : List (String × HeaderValue)) :
    (∀ (Url : Type) (run : PipeRun Url), Faithful lines run) ↔ Readable lines := by
  constructor
  · intro h
    exact readable_of_faithful lines PipeRun.simple (simple_succeeds lines) (h String _)
  · intro h Url run
    exact faithful_of_readable lines run h

/-- Two Range lines, of which the upstream is sent the first. -/
theorem client_range_two_lines :
    let lines : List (String × HeaderValue) :=
      [("Range", Utf8.encode "bytes=0-1"), ("range", Utf8.encode "bytes=5-9")]
    (PipeRun.simple.access lines).clientRange = some "bytes=0-1" ∧
      ¬ Faithful lines PipeRun.simple := by
  intro lines
  have hvalues : rangeValues lines = [Utf8.encode "bytes=0-1", Utf8.encode "bytes=5-9"] := by
    decide +kernel +revert
  constructor
  · decide +kernel +revert
  · intro hfaithful
    rcases readable_of_faithful lines _ (simple_succeeds lines) hfaithful with h | ⟨value, h, -⟩
    · rw [hvalues] at h
      cases h
    · rw [hvalues] at h
      cases h

end Forwarding

end StuntDouble.Upstream
