import StuntDouble.WorkerPipes

/-!
A worker and its parent, when messages are read as they were written. Message by message the
two take turns: the worker asks, the parent answers, and there is never more than one message
on its way. Each step that they take of themselves leads on, and towards the end of a script
that ends.
-/
namespace StuntDouble.ScriptWorker

open Calls Channels LineReader Machine Script Transitions

/-- Where a parent is that has its result: it holds it until the end of the stream, waits for
the exit of the worker, and returns. -/
inductive Closing
  | held
  | reaping
  | returned
deriving DecidableEq, Repr

def Closing.parent (result : FinalResult) : Closing → Parent
  | .held => .reading []
  | .reaping => .reaping result
  | .returned => .returned (.ok result)

/-- Where a run is, message by message. -/
inductive Spot
  | job
  | idle
  | asking (message : WorkerMessage)
  | dispatching (call : HostCall)
  | answering (call : HostCall) (result : Json)
  | closing (place : Closing) (result : FinalResult)

/-- The calls that a message of the worker asks for. -/
def callsOf : WorkerMessage → List HostCall
  | .hostCall name payload => [⟨name, payload⟩]
  | .finalResult _ => []

/-- The books when these calls were made and answered, and what goes beyond them. -/
def booksOf (log : List (HostCall × Json)) (made dispatched : List HostCall)
    (answered : List Json) : Books :=
  ⟨log.map Prod.fst ++ made, log.map Prod.snd, log.map Prod.fst ++ dispatched,
    log.map Prod.snd ++ answered⟩

/-- The worker while it writes a message of which this is left. -/
def saying {E : Type} (e : E) : WorkerMessage → Bytes → Worker E
  | .hostCall name payload, left =>
    if left = [] then .waiting e ⟨name, payload⟩ [] else .calling e ⟨name, payload⟩ left
  | .finalResult _, left => if left = [] then .returning else .finishing left

/-- What a run is made of: the two parties, and what they start from. -/
structure Setup (E H : Type) where
  floatText : UInt64 → String
  parse : List Char → Option Json
  wording : Wording
  engine : Engine E
  dispatch : H → HostCall → H × Option Json
  memoryBounded : Bool
  job : ParentMessage
  host : H
  script : E

section Runs

variable {E H : Type} (setup : Setup E H) {capacity : ℕ}

namespace Setup

def program : Program E HostCall Json (Except Error Json) :=
  scriptProgram setup.floatText setup.parse setup.wording setup.engine

def step (s : State E H capacity) (a : Action) : Option (State E H capacity) :=
  ScriptWorker.step setup.floatText setup.parse setup.wording setup.engine setup.dispatch
    setup.memoryBounded s a

def start : State E H capacity := State.start setup.floatText setup.job setup.host

def jobLine : Bytes := writeLine setup.floatText setup.job.toJson

def messageLine (message : WorkerMessage) : Bytes := writeLine setup.floatText message.toJson

def replyLine (result : Json) : Bytes :=
  writeLine setup.floatText (ParentMessage.hostResult result).toJson

/-- What the script reaches when the host answers on the spot. -/
def Served (log : List (HostCall × Json)) (host : H) (e : E) : Prop :=
  Reached setup.program setup.dispatch setup.host setup.script log host e

/-- What the script says next. -/
def Says (e : E) : WorkerMessage → Prop
  | .hostCall name payload => setup.program.turn e = .call ⟨name, payload⟩
  | .finalResult final => ∃ result, setup.program.turn e = .ended result ∧
      Prelude.runJob result = some final

/-- What this script and this host say to each other is read as it was written: the job, each
call that the script comes to when the host answers on the spot, the answer to it, and the result
that an end of the script is. -/
structure Clear : Prop where
  starts : startJob setup.parse setup.engine setup.jobLine = some setup.script
  job : ReadsBack setup.floatText setup.parse setup.job
  calls : ∀ log host e call, setup.Served log host e → setup.program.turn e = .call call →
    SpeaksClearly setup.floatText setup.parse (.hostCall call.name call.payload)
  results : ∀ log host e call next result, setup.Served log host e →
    setup.program.turn e = .call call → setup.dispatch host call = (next, some result) →
      ReadsBack setup.floatText setup.parse (.hostResult result)
  ends : ∀ log host e result, setup.Served log host e → setup.program.turn e = .ended result →
    ∃ final, Prelude.runJob result = some final ∧
      SpeaksClearly setup.floatText setup.parse (.finalResult final)

end Setup

/-- How far the script is, had the host answered on the spot. -/
inductive Tells (host : H) (books : Books) : List (HostCall × Json) → E → Spot → Prop
  | job (hhost : host = setup.host) (hbooks : books = booksOf [] [] [] []) :
      Tells host books [] setup.script .job
  | idle {log : List (HostCall × Json)} {e : E} (h : setup.Served log host e)
      (hbooks : books = booksOf log [] [] []) : Tells host books log e .idle
  | asking {log : List (HostCall × Json)} {e : E} {message : WorkerMessage}
      (h : setup.Served log host e) (htells : setup.Says e message)
      (hbooks : books = booksOf log (callsOf message) [] []) :
      Tells host books log e (.asking message)
  | dispatching {log : List (HostCall × Json)} {e : E} {call : HostCall}
      (h : setup.Served log host e) (hturn : setup.program.turn e = .call call)
      (hbooks : books = booksOf log [call] [call] []) : Tells host books log e (.dispatching call)
  | answering {log : List (HostCall × Json)} {e : E} {before : H} {call : HostCall} {result : Json}
      (h : setup.Served log before e) (hturn : setup.program.turn e = .call call)
      (hdispatch : setup.dispatch before call = (host, some result))
      (hbooks : books = booksOf log [call] [call] [result]) :
      Tells host books log e (.answering call result)
  | closing {log : List (HostCall × Json)} {e : E} {place : Closing} {result : FinalResult}
      (h : setup.Served log host e) (htells : setup.Says e (.finalResult result))
      (hbooks : books = booksOf log [] [] []) : Tells host books log e (.closing place result)

/-- A worker is here, unless it went: at its end with success, or earlier where workers die. -/
def At (dies : Prop) (s : State E H capacity) (worker : Worker E) : Prop :=
  s.worker = worker ∨ (worker = .returning ∧ s.worker = .exited true) ∨
    (dies ∧ s.worker.gone = true)

/-- Where the bytes of a message are. -/
inductive Wires (dies : Prop) (s : State E H capacity) (e : E) : Spot → Prop
  | job {taken left : Bytes} (hworker : At dies s (.starting taken))
      (hparent : s.parent = if left = [] then .reading [] else .sendingJob left)
      (hdown : Channel.Carries setup.jobLine taken left s.toWorker)
      (hshort : taken ≠ setup.jobLine) (hup : s.toParent.queue = [])
      (hfinal : s.finalResult = none) : Wires dies s e .job
  | idle (hworker : At dies s (.evaluating e)) (hparent : s.parent = .reading [])
      (hdown : s.toWorker.queue = []) (hup : s.toParent.queue = [])
      (hfinal : s.finalResult = none) : Wires dies s e .idle
  | asking {message : WorkerMessage} {taken left : Bytes}
      (hworker : At dies s (saying e message left)) (hparent : s.parent = .reading taken)
      (hup : Channel.Carries (setup.messageLine message) taken left s.toParent)
      (hshort : taken ≠ setup.messageLine message) (hdown : s.toWorker.queue = [])
      (hfinal : s.finalResult = none) : Wires dies s e (.asking message)
  | dispatching {call : HostCall} (hworker : At dies s (.waiting e call []))
      (hparent : s.parent = .dispatching call) (hdown : s.toWorker.queue = [])
      (hup : s.toParent.queue = []) (hfinal : s.finalResult = none) :
      Wires dies s e (.dispatching call)
  | answering {call : HostCall} {result : Json} {taken left : Bytes}
      (hworker : At dies s (.waiting e call taken))
      (hparent : s.parent = if left = [] then .reading [] else .replying left)
      (hdown : Channel.Carries (setup.replyLine result) taken left s.toWorker)
      (hshort : taken ≠ setup.replyLine result) (hup : s.toParent.queue = [])
      (hfinal : s.finalResult = none) : Wires dies s e (.answering call result)
  | closing {place : Closing} {result : FinalResult} (hworker : At dies s .returning)
      (hparent : s.parent = place.parent result) (hdown : s.toWorker.queue = [])
      (hup : s.toParent.queue = []) (hfinal : s.finalResult = some result) :
      Wires dies s e (.closing place result)

/-- The two parties take turns; whether workers die is part of what is considered. -/
structure Together (dies : Prop) (s : State E H capacity) (log : List (HostCall × Json)) (e : E)
    (spot : Spot) : Prop where
  ends : Ends s
  orphan : s.orphan = none
  tells : Tells setup s.host s.books log e spot
  wires : Wires setup dies s e spot

/-- The parent gave the worker up. -/
def GivenUp (s : State E H capacity) : Prop :=
  (∃ reason, s.parent = .terminating reason) ∨ ∃ error, s.parent = .returned (.error error)

section Remaining

/-- The steps that a call takes, one for each byte at either end of a pipe. -/
def Setup.callWeight (call : HostCall) (result : Json) : ℕ :=
  2 * (setup.messageLine (.hostCall call.name call.payload)).length +
    2 * (setup.replyLine result).length + 2

def Setup.endWeight (result : Except Error Json) : ℕ :=
  match Prelude.runJob result with
  | some final => 2 * (setup.messageLine (.finalResult final)).length + 3
  | none => 0

/-- The script ends, after these steps and calls. -/
def Setup.Ends (host : H) (e : E) (n : ℕ) (rest : List (HostCall × Json)) (last : H)
    (result : Except Error Json) : Prop :=
  Finishes setup.program setup.dispatch setup.callWeight setup.endWeight host e n rest last result

/-- The script ends after this call, whose message is read. -/
def Setup.EndsAfter (host : H) (e : E) (call : HostCall) (n : ℕ) (rest : List (HostCall × Json))
    (last : H) (result : Except Error Json) : Prop :=
  ∃ next answer m rest', n = 2 * (setup.replyLine answer).length + 1 + m ∧
    rest = (call, answer) :: rest' ∧ setup.dispatch host call = (next, some answer) ∧
      setup.Ends next (setup.program.resume e answer) m rest' last result

/-- The script has ended like this. -/
def IsEnd (host : H) (final : FinalResult) (rest : List (HostCall × Json)) (last : H)
    (result : Except Error Json) : Prop :=
  rest = [] ∧ last = host ∧ Prelude.runJob result = some final

def Closing.steps : Closing → ℕ
  | .held => 2
  | .reaping => 1
  | .returned => 0

/-- What is to come of a script that ends, beside the bytes on their way. -/
def Remains (host : H) (e : E) (n : ℕ) (rest : List (HostCall × Json)) (last : H)
    (result : Except Error Json) : Spot → Prop
  | .job | .idle => setup.Ends host e n rest last result
  | .asking (.hostCall name payload) =>
    setup.EndsAfter host e ⟨name, payload⟩ n rest last result
  | .asking (.finalResult final) => n = 2 ∧ IsEnd host final rest last result
  | .dispatching call => setup.EndsAfter host e call n rest last result
  | .answering call answer => ∃ rest', rest = (call, answer) :: rest' ∧
      setup.Ends host (setup.program.resume e answer) n rest' last result
  | .closing place final => n = place.steps ∧ IsEnd host final rest last result

def Parent.left : Parent → Bytes
  | .sendingJob left | .replying left => left
  | _ => []

/-- A worker has yet to exit, or has. -/
def Worker.standing : Worker E → ℕ
  | .exited _ => 0
  | _ => 1

/-- The steps of the bytes on their way, and of a worker that has yet to exit. -/
def State.traffic (s : State E H capacity) : ℕ :=
  2 * s.worker.left.length + s.toParent.queue.length + 2 * s.parent.left.length +
    s.toWorker.queue.length + s.worker.standing

/-- A script that ends is nearer to its end. -/
def Nearer (s next : State E H capacity) (log log' : List (HostCall × Json)) (e e' : E)
    (spot spot' : Spot) : Prop :=
  ∀ n rest last result, Remains setup s.host e n rest last result spot →
    ∃ n' rest', Remains setup next.host e' n' rest' last result spot' ∧
      log' ++ rest' = log ++ rest ∧ n' + next.traffic < n + s.traffic

/-- A step that the two take together, towards the end where no worker dies. -/
def Onward (dies : Prop) (s next : State E H capacity) (log : List (HostCall × Json)) (e : E)
    (spot : Spot) : Prop :=
  ∃ log' e' spot', Together setup dies next log' e' spot' ∧
    (¬dies → Nearer setup s next log log' e e' spot spot')

/-- A step of the parent goes on, or it gives up: on a worker that died, or on a script whose
call has no answer. -/
def Proceeds (dies : Prop) (s next : State E H capacity) (log : List (HostCall × Json)) (e : E)
    (spot : Spot) : Prop :=
  Onward setup dies s next log e spot ∨
    (GivenUp next ∧ (¬dies → ∀ n rest last result, ¬Remains setup s.host e n rest last result spot))

end Remaining

end Runs

section Frames

/-- A byte taken from the front of a line, which is complete exactly at its newline. -/
theorem line_byte {limit : ℕ} {line taken rest : Bytes} {b : UInt8} (hline : IsLine limit line)
    (h : line = taken ++ [b] ++ rest) :
    appendProtocolChunk limit taken [b] = some (taken ++ [b]) ∧
      (b = newline ↔ taken ++ [b] = line) := by
  obtain ⟨hshort, body, hbody, hnot⟩ := hline
  have hlength : taken.length + [b].length ≤ limit := by
    rw [h, List.length_append, List.length_append] at hshort
    omega
  refine ⟨by rw [appendProtocolChunk, if_neg (by omega)], ?_⟩
  constructor
  · intro hb
    rw [h, List.append_assoc, List.singleton_append, hb] at hbody
    cases rest with
    | nil => rw [h, List.append_nil]
    | cons c rest =>
      -- a newline before the last byte would be one in the body
      have hlast : taken ++ newline :: (c :: rest) =
          (taken ++ newline :: (c :: rest).dropLast) ++ [(c :: rest).getLast (by simp)] := by
        rw [List.append_assoc, List.cons_append, List.dropLast_append_getLast]
      rw [hlast] at hbody
      have hfront := (List.append_inj' hbody rfl).1
      exact absurd (by rw [← hfront]; simp) hnot
  · intro htaken
    rw [hbody] at htaken
    exact List.singleton_inj.mp (List.append_inj' htaken rfl).2

end Frames

section Turns

variable {E H : Type} {setup : Setup E H} {capacity : ℕ} {dies : Prop}
  {s next : State E H capacity} {log : List (HostCall × Json)} {e : E} {spot : Spot}

theorem At.alive {worker : Worker E} (h : At dies s worker) (hgone : s.worker.gone = false) :
    s.worker = worker := by
  rcases h with h | ⟨-, h⟩ | ⟨-, h⟩
  · exact h
  · rw [h] at hgone
    contradiction
  · rw [h] at hgone
    contradiction

theorem writeLine_ne_nil (floatText : UInt64 → String) (message : Json) :
    writeLine floatText message ≠ [] := by
  simp [writeLine]

theorem ReadsBack.isLine {floatText : UInt64 → String} {parse : List Char → Option Json}
    {message : ParentMessage} (h : ReadsBack floatText parse message) :
    IsLine maxProtocolLineBytes (writeLine floatText message.toJson) :=
  ⟨h.short, _, rfl, h.oneLine⟩

theorem SpeaksClearly.isLine {floatText : UInt64 → String} {parse : List Char → Option Json}
    {message : WorkerMessage} (h : SpeaksClearly floatText parse message) :
    IsLine maxProtocolLineBytes (writeLine floatText message.toJson) :=
  ⟨h.short, _, rfl, h.oneLine⟩

theorem says_clearly (hclear : setup.Clear) {message : WorkerMessage} {host : H}
    (hserved : setup.Served log host e) (h : setup.Says e message) :
    SpeaksClearly setup.floatText setup.parse message := by
  cases message with
  | hostCall name payload => exact hclear.calls log host e ⟨name, payload⟩ hserved h
  | finalResult final =>
    obtain ⟨result, hturn, hjob⟩ := h
    obtain ⟨found, hfound, hspeaks⟩ := hclear.ends log host e result hserved hturn
    rw [hjob] at hfound
    cases hfound
    exact hspeaks

theorem saying_left (e : E) (message : WorkerMessage) (left : Bytes) :
    (saying e message left).left = left := by
  by_cases hleft : left = []
  · cases message <;> simp [saying, hleft, Worker.left]
  · cases message <;> simp [saying, hleft, Worker.left]

theorem saying_ne_evaluating (e e₁ : E) (message : WorkerMessage) (left : Bytes) :
    saying e message left ≠ .evaluating e₁ := by
  by_cases hleft : left = []
  · cases message <;> simp [saying, hleft]
  · cases message <;> simp [saying, hleft]

theorem saying_ne_starting (e : E) (line : Bytes) (message : WorkerMessage) (left : Bytes) :
    saying e message left ≠ .starting line := by
  by_cases hleft : left = []
  · cases message <;> simp [saying, hleft]
  · cases message <;> simp [saying, hleft]

/-- Only an idle run evaluates the script. -/
theorem Wires.idle_of_evaluating (h : Wires setup dies s e spot) {e₁ : E}
    (hworker : s.worker = .evaluating e₁) : spot = .idle ∧ e₁ = e := by
  have hgone : s.worker.gone = false := by rw [hworker]; rfl
  cases h with
  | idle hat =>
    have hsame := hat.alive hgone
    rw [hworker] at hsame
    cases hsame
    exact ⟨rfl, rfl⟩
  | asking hat =>
    have hsame := hat.alive hgone
    rw [hworker] at hsame
    exact absurd hsame.symm (saying_ne_evaluating _ _ _ _)
  | job hat | dispatching hat | answering hat | closing hat =>
    have hsame := hat.alive hgone
    rw [hworker] at hsame
    contradiction

/-- A message that is not written yet. -/
theorem carries_new {word : Bytes} {channel : Channel UInt8 capacity} (h : channel.queue = []) :
    Channel.Carries word [] word channel := by
  unfold Channel.Carries
  rw [h]
  rfl

/-- The worker starts to write what the script says next. -/
theorem Together.ask (h : Together setup dies s log e .idle) (hends : Ends next)
    (message : WorkerMessage) (htells : setup.Says e message)
    (hworker : next.worker = saying e message (setup.messageLine message))
    (hparent : next.parent = s.parent) (hhost : next.host = s.host)
    (horphan : next.orphan = s.orphan) (hfinal : next.finalResult = s.finalResult)
    (hdown : next.toWorker = s.toWorker) (hup : next.toParent = s.toParent)
    (hbooks : next.books = { s.books with made := s.books.made ++ callsOf message }) :
    Together setup dies next log e (.asking message) := by
  obtain ⟨-, hnone, htells, hwires⟩ := h
  cases htells with
  | idle hserved hlog =>
    cases hwires with
    | idle hat hreading hdownQueue hupQueue hopen =>
      refine ⟨hends, by rw [horphan, hnone], ?_, ?_⟩
      · rw [hhost]
        refine .asking hserved htells ?_
        rw [hbooks, hlog]
        simp [booksOf]
      · refine .asking (Or.inl hworker) (by rw [hparent, hreading]) ?_ ?_ ?_ ?_
        · rw [hup]
          exact carries_new hupQueue
        · exact (writeLine_ne_nil _ _).symm
        · rw [hdown, hdownQueue]
        · rw [hfinal, hopen]

theorem compute_onward (hclear : setup.Clear) (h : Together setup dies s log e spot)
    (hstep : s.compute setup.floatText setup.parse setup.wording setup.engine = some next) :
    Onward setup dies s next log e spot := by
  have hends := compute_ends h.ends hstep
  unfold State.compute at hstep
  split at hstep
  · rename_i e₁ hworker
    obtain ⟨rfl, rfl⟩ := h.wires.idle_of_evaluating hworker
    split at hstep
    · rename_i e' hturn
      cases hstep
      obtain ⟨-, horphan, htells, hwires⟩ := h
      cases htells with
      | idle hserved hbooks =>
        cases hwires with
        | idle hat hparent hdown hup hfinal =>
          refine ⟨log, e', .idle, ⟨hends, horphan, .idle (.goOn hserved hturn) hbooks,
            .idle (Or.inl rfl) hparent hdown hup hfinal⟩, ?_⟩
          intro _ n rest last result hremains
          obtain ⟨m, rfl, hm⟩ := hremains.of_goOn hturn
          refine ⟨m, rest, hm, rfl, ?_⟩
          simp only [State.traffic, hworker, Worker.left, Worker.standing, List.length_nil]
          omega
    · rename_i call hturn
      cases hstep
      refine ⟨log, e₁, .asking (.hostCall call.name call.payload),
        h.ask hends _ hturn ?_ rfl rfl rfl rfl rfl rfl rfl, ?_⟩
      · exact (if_neg (writeLine_ne_nil _ _)).symm
      · intro _ n rest last result hremains
        obtain ⟨host₁, answer, m, rest', hdispatch, rfl, rfl, hm⟩ := hremains.of_call hturn
        refine ⟨_, _, ⟨host₁, answer, m, rest', rfl, rfl, hdispatch, hm⟩, rfl, ?_⟩
        simp only [State.traffic, hworker, Worker.left, Worker.standing, Setup.callWeight,
          Setup.messageLine, List.length_nil]
        omega
    · rename_i result hturn
      obtain ⟨final, hjob, -⟩ : ∃ final, Prelude.runJob result = some final ∧
          SpeaksClearly setup.floatText setup.parse (.finalResult final) := by
        cases h.tells with
        | idle hserved => exact hclear.ends log s.host e₁ result hserved hturn
      rw [hjob] at hstep
      cases hstep
      refine ⟨log, e₁, .asking (.finalResult final),
        h.ask hends _ ⟨result, hturn, hjob⟩ ?_ rfl rfl rfl rfl rfl rfl ?_, ?_⟩
      · exact (if_neg (writeLine_ne_nil _ _)).symm
      · simp [callsOf]
      · intro _ n rest last found hremains
        obtain ⟨rfl, rfl, rfl, rfl⟩ := hremains.of_ended hturn
        refine ⟨2, [], ⟨rfl, rfl, rfl, hjob⟩, rfl, ?_⟩
        simp only [State.traffic, hworker, Worker.left, Worker.standing, Setup.endWeight, hjob,
          Setup.messageLine, List.length_nil]
        omega
  · contradiction

theorem Worker.alive_of_left {worker : Worker E} (h : worker.left ≠ []) :
    worker.gone = false := by
  cases worker with
  | exited success => exact absurd rfl h
  | _ => rfl

/-- Only a run in which the worker asks has a worker that writes. -/
theorem Wires.asking_of_left (h : Wires setup dies s e spot) (hleft : s.worker.left ≠ []) :
    ∃ message, spot = .asking message := by
  have hgone := Worker.alive_of_left hleft
  cases h with
  | asking => exact ⟨_, rfl⟩
  | idle hat | job hat | dispatching hat | answering hat | closing hat =>
    rw [hat.alive hgone] at hleft
    exact absurd rfl hleft

theorem workerWrite_accepted {message : WorkerMessage} {b : UInt8} {left : Bytes}
    {pipe : Channel UInt8 capacity} (hworker : s.worker = saying e message (b :: left))
    (hsend : s.toParent.send b = .accepted pipe) :
    s.workerWrite setup.wording setup.engine =
      some { s with toParent := pipe, worker := saying e message left } := by
  cases message with
  | hostCall name payload =>
    have hworker : s.worker = .calling e ⟨name, payload⟩ (b :: left) := by
      simpa [saying] using hworker
    simp only [State.workerWrite, hworker, hsend]
    rfl
  | finalResult final =>
    have hworker : s.worker = .finishing (b :: left) := by simpa [saying] using hworker
    simp only [State.workerWrite, hworker, hsend]
    rfl

theorem workerWrite_full {message : WorkerMessage} {b : UInt8} {left : Bytes}
    (hworker : s.worker = saying e message (b :: left)) (hsend : s.toParent.send b = .full) :
    s.workerWrite setup.wording setup.engine = none := by
  cases message with
  | hostCall name payload =>
    have hworker : s.worker = .calling e ⟨name, payload⟩ (b :: left) := by
      simpa [saying] using hworker
    simp only [State.workerWrite, hworker, hsend]
  | finalResult final =>
    have hworker : s.worker = .finishing (b :: left) := by simpa [saying] using hworker
    simp only [State.workerWrite, hworker, hsend]

theorem saying_standing (e : E) (message : WorkerMessage) (left : Bytes) :
    (saying e message left).standing = 1 := by
  by_cases hleft : left = []
  · cases message <;> simp [saying, hleft, Worker.standing]
  · cases message <;> simp [saying, hleft, Worker.standing]

/-- The bytes of a message go one by one, as long as the parent listens. -/
theorem workerWrite_onward (h : Together setup dies s log e spot)
    (hstep : s.workerWrite setup.wording setup.engine = some next) :
    Onward setup dies s next log e spot := by
  have hends := workerWrite_ends h.ends hstep
  have hleft : s.worker.left ≠ [] := by
    intro hnil
    unfold State.workerWrite at hstep
    split at hstep
    · rename_i hworker
      rw [hworker] at hnil
      contradiction
    · rename_i hworker
      rw [hworker] at hnil
      contradiction
    · contradiction
  obtain ⟨message, rfl⟩ := h.wires.asking_of_left hleft
  obtain ⟨hpipes, horphan, htells, hwires⟩ := h
  cases hwires with
  | @asking _ taken left hat hparent hup hshort hdown hfinal =>
    have hworker := hat.alive (Worker.alive_of_left hleft)
    rw [hworker, saying_left] at hleft
    obtain ⟨b, rest, rfl⟩ := List.exists_cons_of_ne_nil hleft
    have hopen : s.toParent.closed = false := by rw [hpipes.listens, hparent]; rfl
    cases hsend : s.toParent.send b with
    | accepted pipe =>
      rw [workerWrite_accepted hworker hsend] at hstep
      cases hstep
      refine ⟨log, e, .asking message, ⟨hends, horphan, htells, .asking (Or.inl rfl) hparent
        (hup.sent hsend) hshort hdown hfinal⟩, ?_⟩
      intro _ n rest' last result hremains
      refine ⟨n, rest', hremains, rfl, ?_⟩
      have hqueue := congrArg List.length (Channel.send_accepted hsend).queue
      simp only [State.traffic, hworker, saying_left, saying_standing, List.length_cons]
      rw [List.length_append, List.length_singleton] at hqueue
      omega
    | refused =>
      have hclosed := Channel.send_refused hsend
      rw [hopen] at hclosed
      contradiction
    | full =>
      rw [workerWrite_full hworker hsend] at hstep
      contradiction

/-- A byte that the receiver takes off a line is the last one exactly if it is the newline. -/
theorem received_byte {line taken left : Bytes} {b : UInt8} {channel pipe : Channel UInt8 capacity}
    (hline : IsLine maxProtocolLineBytes line) (h : Channel.Carries line taken left channel)
    (hreceive : channel.receive = .item b pipe) :
    appendProtocolChunk maxProtocolLineBytes taken [b] = some (taken ++ [b]) ∧
      (b = newline → taken ++ [b] = line ∧ left = [] ∧ pipe.queue = []) ∧
        (b ≠ newline → taken ++ [b] ≠ line) := by
  have hnext : line = taken ++ [b] ++ (pipe.queue ++ left) := by
    rw [← List.append_assoc]
    exact h.received hreceive
  obtain ⟨happend, hcomplete⟩ := line_byte hline hnext
  refine ⟨happend, ?_, fun hb htaken => hb (hcomplete.mpr htaken)⟩
  intro hb
  have htaken := hcomplete.mp hb
  have hnothing : pipe.queue ++ left = [] := by
    rw [htaken] at hnext
    exact List.self_eq_append_right.mp hnext
  exact ⟨htaken, (List.append_eq_nil_iff.mp hnothing).2, (List.append_eq_nil_iff.mp hnothing).1⟩

theorem traffic_received {b : UInt8} {pipe : Channel UInt8 capacity}
    (hreceive : s.toWorker.receive = .item b pipe) :
    s.toWorker.queue.length = pipe.queue.length + 1 := by
  rw [(Channel.receive_item hreceive).queue, List.length_cons]

/-- The job arrives byte by byte, and complete it starts the script. -/
theorem readJob_onward (hclear : setup.Clear) (h : Together setup dies s log e .job)
    {line : Bytes} (hworker : s.worker = .starting line)
    (hstep : s.workerRead setup.floatText setup.parse setup.wording setup.engine = some next) :
    Onward setup dies s next log e .job := by
  have hends := workerRead_ends h.ends hstep
  obtain ⟨hpipes, horphan, htells, hwires⟩ := h
  cases hwires with
  | @job taken left hat hparent hdown hshort hup hfinal =>
    have hgone : s.worker.gone = false := by rw [hworker]; rfl
    have hsame := hat.alive hgone
    rw [hworker] at hsame
    cases hsame
    have hopen : s.toWorker.ended = false := by
      rw [hpipes.speaks, hparent]
      split <;> rfl
    unfold State.workerRead at hstep
    rw [hworker] at hstep
    cases hreceive : s.toWorker.receive with
    | empty =>
      simp only [hreceive] at hstep
      contradiction
    | ended =>
      have hended := (Channel.receive_ended hreceive).2
      rw [hopen] at hended
      contradiction
    | item b pipe =>
      obtain ⟨happend, hlast, hmore⟩ := received_byte hclear.job.isLine hdown hreceive
      have htraffic := traffic_received hreceive
      simp only [hreceive, happend] at hstep
      by_cases hb : b = newline
      · obtain ⟨hline, rfl, hempty⟩ := hlast hb
        have hstart := hclear.starts
        unfold Setup.jobLine at hstart
        rw [if_pos hb, State.takeJob, hline, hstart] at hstep
        cases hstep
        cases htells with
        | job hhost hbooks =>
          refine ⟨[], setup.script, .idle, ⟨hends, horphan, .idle ?_ hbooks,
            .idle (Or.inl rfl) hparent hempty hup hfinal⟩, ?_⟩
          · show setup.Served [] s.host setup.script
            rw [hhost]
            exact .start
          · intro _ n rest last result hremains
            refine ⟨n, rest, hremains, rfl, ?_⟩
            simp only [State.traffic, hworker, Worker.left, Worker.standing, htraffic]
            omega
      · rw [if_neg hb] at hstep
        cases hstep
        refine ⟨log, e, .job, ⟨hends, horphan, htells, .job (Or.inl rfl) hparent
          (hdown.received hreceive) (hmore hb) hup hfinal⟩, ?_⟩
        intro _ n rest last result hremains
        refine ⟨n, rest, hremains, rfl, ?_⟩
        simp only [State.traffic, hworker, Worker.left, Worker.standing, htraffic]
        omega

/-- The answer arrives byte by byte, and complete it lets the script go on. -/
theorem readResponse_onward (hclear : setup.Clear) {call : HostCall} {result : Json}
    (h : Together setup dies s log e (.answering call result)) {e₁ : E} {asked : HostCall}
    {line : Bytes} (hworker : s.worker = .waiting e₁ asked line)
    (hstep : s.workerRead setup.floatText setup.parse setup.wording setup.engine = some next) :
    Onward setup dies s next log e (.answering call result) := by
  have hends := workerRead_ends h.ends hstep
  obtain ⟨hpipes, horphan, htells, hwires⟩ := h
  cases htells with
  | @answering _ _ before _ _ hserved hturn hdispatch hbooks =>
    have hreads : ReadsBack setup.floatText setup.parse (.hostResult result) :=
      hclear.results log before e call s.host result hserved hturn hdispatch
    cases hwires with
    | @answering _ _ taken left hat hparent hdown hshort hup hfinal =>
      have hgone : s.worker.gone = false := by rw [hworker]; rfl
      have hsame := hat.alive hgone
      rw [hworker] at hsame
      cases hsame
      have hopen : s.toWorker.ended = false := by
        rw [hpipes.speaks, hparent]
        split <;> rfl
      unfold State.workerRead at hstep
      rw [hworker] at hstep
      cases hreceive : s.toWorker.receive with
      | empty =>
        simp only [hreceive] at hstep
        contradiction
      | ended =>
        have hended := (Channel.receive_ended hreceive).2
        rw [hopen] at hended
        contradiction
      | item b pipe =>
        obtain ⟨happend, hlast, hmore⟩ := received_byte hreads.isLine hdown hreceive
        have htraffic := traffic_received hreceive
        simp only [hreceive, happend] at hstep
        by_cases hb : b = newline
        · obtain ⟨hline, rfl, hempty⟩ := hlast hb
          have hresponse : hostResponse setup.parse setup.wording call.name
              (setup.replyLine result) = .ok result :=
            hostResponse_of_decode setup.wording call.name (writeLine_ne_nil _ _) hreads.decodes
          unfold Setup.replyLine at hresponse
          rw [if_pos hb, State.takeResponse, hline, hresponse] at hstep
          cases hstep
          refine ⟨log ++ [(call, result)], setup.program.resume e result, .idle,
            ⟨hends, horphan, .idle (.call hserved hturn hdispatch) ?_,
              .idle (Or.inl rfl) hparent hempty hup hfinal⟩, ?_⟩
          · show ({ s.books with received := s.books.received ++ [result] } : Books) = _
            rw [hbooks]
            simp [booksOf]
          · intro _ n rest last final hremains
            obtain ⟨rest', rfl, hfinishes⟩ := hremains
            refine ⟨n, rest', hfinishes, by simp, ?_⟩
            simp only [State.traffic, hworker, Worker.left, Worker.standing, htraffic]
            omega
        · rw [if_neg hb] at hstep
          cases hstep
          refine ⟨log, e, .answering call result, ⟨hends, horphan,
            .answering hserved hturn hdispatch hbooks,
            .answering (Or.inl rfl) hparent (hdown.received hreceive) (hmore hb) hup hfinal⟩, ?_⟩
          intro _ n rest last final hremains
          refine ⟨n, rest, hremains, rfl, ?_⟩
          simp only [State.traffic, hworker, Worker.left, Worker.standing, htraffic]
          omega

/-- Only a run that hands over its job has a worker that starts. -/
theorem Wires.job_of_starting (h : Wires setup dies s e spot) {line : Bytes}
    (hworker : s.worker = .starting line) : spot = .job := by
  have hgone : s.worker.gone = false := by rw [hworker]; rfl
  cases h with
  | job => rfl
  | asking hat =>
    have hsame := hat.alive hgone
    rw [hworker] at hsame
    exact absurd hsame.symm (saying_ne_starting _ _ _ _)
  | idle hat | dispatching hat | answering hat | closing hat =>
    have hsame := hat.alive hgone
    rw [hworker] at hsame
    contradiction

/-- A worker that waits has an answer on its way, or nothing to read. -/
theorem Wires.answering_of_waiting (h : Wires setup dies s e spot) {e₁ : E} {asked : HostCall}
    {line : Bytes} (hworker : s.worker = .waiting e₁ asked line) :
    (∃ call result, spot = .answering call result) ∨
      (s.toWorker.queue = [] ∧ s.parent.talks = true) := by
  have hgone : s.worker.gone = false := by rw [hworker]; rfl
  cases h with
  | answering => exact Or.inl ⟨_, _, rfl⟩
  | asking hat hparent hup hshort hdown => exact Or.inr ⟨hdown, by rw [hparent]; rfl⟩
  | dispatching hat hparent hdown => exact Or.inr ⟨hdown, by rw [hparent]; rfl⟩
  | idle hat | job hat | closing hat =>
    have hsame := hat.alive hgone
    rw [hworker] at hsame
    contradiction

theorem workerRead_onward (hclear : setup.Clear) (h : Together setup dies s log e spot)
    (hstep : s.workerRead setup.floatText setup.parse setup.wording setup.engine = some next) :
    Onward setup dies s next log e spot := by
  cases hworker : s.worker with
  | starting line =>
    obtain rfl := h.wires.job_of_starting hworker
    exact readJob_onward hclear h hworker hstep
  | waiting e₁ asked line =>
    rcases h.wires.answering_of_waiting hworker with ⟨call, result, rfl⟩ | ⟨hqueue, htalks⟩
    · exact readResponse_onward hclear h hworker hstep
    · have hempty : s.toWorker.receive = .empty := by
        apply Channel.receive_eq_empty hqueue
        rw [h.ends.speaks, htalks]
        rfl
      simp only [State.workerRead, hworker, hempty] at hstep
      contradiction
  | evaluating e₁ | calling e₁ call left | finishing left | returning | exited success =>
    simp only [State.workerRead, hworker] at hstep
    contradiction

theorem workerExit_onward (h : Together setup dies s log e spot)
    (hstep : s.workerExit = some next) : Onward setup dies s next log e spot := by
  obtain ⟨hpipes, horphan, htells, hwires⟩ := h
  unfold State.workerExit at hstep
  split at hstep
  · rename_i hworker
    cases hstep
    have hgone : s.worker.gone = false := by rw [hworker]; rfl
    refine ⟨log, e, spot, ⟨hpipes.exit true, horphan, htells, ?_⟩, ?_⟩
    · cases hwires with
      | asking hat hparent hup hshort hdown hfinal =>
        have hsame := hat.alive hgone
        refine .asking ?_ hparent hup hshort hdown hfinal
        exact Or.inr (Or.inl ⟨hsame.symm.trans hworker, rfl⟩)
      | closing hat hparent hdown hup hfinal =>
        exact .closing (Or.inr (Or.inl ⟨rfl, rfl⟩)) hparent hdown hup hfinal
      | idle hat | job hat | dispatching hat | answering hat =>
        have hsame := hat.alive hgone
        rw [hworker] at hsame
        contradiction
    · intro _ n rest last result hremains
      refine ⟨n, rest, hremains, rfl, ?_⟩
      simp only [State.traffic, State.exit, hworker, Worker.left, Worker.standing,
        Channel.finish_queue, Channel.close_queue]
      omega
  · contradiction

theorem At.gone_or {worker : Worker E} (h : At dies s worker) (hstays : worker ≠ .returning)
    (halive : worker.gone = false) : s.worker.gone = false ∨ dies := by
  rcases h with h | ⟨h, -⟩ | ⟨hdies, -⟩
  · exact Or.inl (by rw [h, halive])
  · exact absurd h hstays
  · exact Or.inr hdies

theorem sent_traffic {b : UInt8} {pipe : Channel UInt8 capacity}
    (hsend : s.toWorker.send b = .accepted pipe) :
    pipe.queue.length = s.toWorker.queue.length + 1 := by
  rw [(Channel.send_accepted hsend).queue, List.length_append, List.length_singleton]

/-- What a parent still has to write, after all of it or some of it. -/
theorem Parent.left_of_written (sending : Bytes → Parent)
    (hsending : ∀ left, (sending left).left = left) (left : Bytes) :
    (if left = [] then Parent.reading [] else sending left).left = left := by
  by_cases hleft : left = []
  · rw [if_pos hleft, hleft]
    rfl
  · rw [if_neg hleft, hsending]

theorem parentWrite_onward (h : Together setup dies s log e spot)
    (hstep : s.parentWrite = some next) : Proceeds setup dies s next log e spot := by
  have hends := parentWrite_ends h.ends hstep
  obtain ⟨hpipes, horphan, htells, hwires⟩ := h
  cases hwires with
  | @job taken rest hat hparent hdown hshort hup hfinal =>
    cases rest with
    | nil =>
      simp only [State.parentWrite, hparent, if_true] at hstep
      contradiction
    | cons b left =>
      rw [if_neg (List.cons_ne_nil b left)] at hparent
      simp only [State.parentWrite, hparent] at hstep
      cases hsend : s.toWorker.send b with
      | accepted pipe =>
        simp only [hsend] at hstep
        cases hstep
        have htraffic := sent_traffic hsend
        refine Or.inl ⟨log, e, .job, ⟨hends, horphan, htells,
          .job hat rfl (hdown.sent hsend) hshort hup hfinal⟩, ?_⟩
        intro _ n rest last result hremains
        refine ⟨n, rest, hremains, rfl, ?_⟩
        simp only [State.traffic, hparent, Parent.left_of_written .sendingJob (fun _ => rfl),
          htraffic]
        simp only [Parent.left, List.length_cons]
        omega
      | refused =>
        simp only [hsend] at hstep
        cases hstep
        have hclosed := Channel.send_refused hsend
        rw [hpipes.reads] at hclosed
        rcases hat.gone_or (by simp) rfl with halive | hdies
        · rw [hclosed] at halive
          contradiction
        · exact Or.inr ⟨Or.inl ⟨_, rfl⟩, fun hlives => absurd hdies hlives⟩
      | full =>
        simp only [hsend] at hstep
        contradiction
  | @answering call answer taken rest hat hparent hdown hshort hup hfinal =>
    cases rest with
    | nil =>
      simp only [State.parentWrite, hparent, if_true] at hstep
      contradiction
    | cons b left =>
      rw [if_neg (List.cons_ne_nil b left)] at hparent
      simp only [State.parentWrite, hparent] at hstep
      cases hsend : s.toWorker.send b with
      | accepted pipe =>
        simp only [hsend] at hstep
        cases hstep
        have htraffic := sent_traffic hsend
        refine Or.inl ⟨log, e, .answering call answer, ⟨hends, horphan, htells,
          .answering hat rfl (hdown.sent hsend) hshort hup hfinal⟩, ?_⟩
        intro _ n rest last result hremains
        refine ⟨n, rest, hremains, rfl, ?_⟩
        simp only [State.traffic, hparent, Parent.left_of_written .replying (fun _ => rfl),
          htraffic]
        simp only [Parent.left, List.length_cons]
        omega
      | refused =>
        simp only [hsend] at hstep
        cases hstep
        have hclosed := Channel.send_refused hsend
        rw [hpipes.reads] at hclosed
        rcases hat.gone_or (by simp) rfl with halive | hdies
        · rw [hclosed] at halive
          contradiction
        · exact Or.inr ⟨Or.inl ⟨_, rfl⟩, fun hlives => absurd hdies hlives⟩
      | full =>
        simp only [hsend] at hstep
        contradiction
  | closing hat hparent =>
    rename_i place result _ _ _
    cases place <;> simp only [State.parentWrite, hparent, Closing.parent] at hstep <;>
      contradiction
  | idle hat hparent | asking hat hparent | dispatching hat hparent =>
    simp only [State.parentWrite, hparent] at hstep
    contradiction

/-- Where a run is once a message of the worker is read. -/
def afterAsking : WorkerMessage → Spot
  | .hostCall name payload => .dispatching ⟨name, payload⟩
  | .finalResult final => .closing .held final

theorem remains_afterAsking {message : WorkerMessage} {host last : H} {n : ℕ}
    {rest : List (HostCall × Json)} {result : Except Error Json}
    (h : Remains setup host e n rest last result (.asking message)) :
    Remains setup host e n rest last result (afterAsking message) := by
  cases message with
  | hostCall name payload => exact h
  | finalResult final => exact h

/-- The parent takes a message for what the worker said. -/
theorem takeMessage_together {message : WorkerMessage} {line : Bytes}
    (hends : Ends (s.takeMessage setup.parse line)) (horphan : s.orphan = none)
    (htells : Tells setup s.host s.books log e (.asking message))
    (hat : At dies s (saying e message [])) (hfinal : s.finalResult = none)
    (hdown : s.toWorker.queue = []) (hup : s.toParent.queue = [])
    (hdecode : WorkerMessage.decode setup.parse line = some message) :
    Together setup dies (s.takeMessage setup.parse line) log e (afterAsking message) := by
  cases htells with
  | asking hserved htells hbooks =>
    unfold State.takeMessage at hends ⊢
    rw [hfinal, hdecode] at hends ⊢
    cases message with
    | hostCall name payload =>
      refine ⟨hends, horphan, .dispatching hserved htells ?_,
        .dispatching hat rfl hdown hup rfl⟩
      show ({ s.books with dispatched := s.books.dispatched ++ [⟨name, payload⟩] } : Books) = _
      rw [hbooks]
      simp [booksOf, callsOf]
    | finalResult final =>
      exact ⟨hends, horphan, .closing hserved htells hbooks, .closing hat rfl hdown hup rfl⟩

theorem takeMessage_standing (line : Bytes) (message : WorkerMessage)
    (hfinal : s.finalResult = none)
    (hdecode : WorkerMessage.decode setup.parse line = some message) :
    (s.takeMessage setup.parse line).traffic + 2 * s.parent.left.length = s.traffic ∧
      (s.takeMessage setup.parse line).host = s.host := by
  unfold State.takeMessage
  rw [hfinal, hdecode]
  cases message with
  | hostCall name payload =>
    refine ⟨?_, rfl⟩
    simp only [State.traffic, Parent.left, List.length_nil]
    omega
  | finalResult final =>
    refine ⟨?_, rfl⟩
    simp only [State.traffic, Parent.left, List.length_nil]
    omega

/-- At the end of the stream without a result the parent gives up. -/
theorem parentRead_nothing (hpipes : Ends s) (hparent : s.parent = .reading [])
    (hup : s.toParent.queue = []) (hfinal : s.finalResult = none)
    (hstep : s.parentRead setup.parse = some next) : s.worker.gone = true ∧ GivenUp next := by
  unfold State.parentRead at hstep
  rw [hparent] at hstep
  cases hreceive : s.toParent.receive with
  | empty =>
    simp only [hreceive] at hstep
    contradiction
  | item b pipe =>
    have hqueue := (Channel.receive_item hreceive).queue
    rw [hup] at hqueue
    contradiction
  | ended =>
    simp only [hreceive, hfinal] at hstep
    cases hstep
    have hended := (Channel.receive_ended hreceive).2
    rw [hpipes.writes] at hended
    exact ⟨hended, Or.inl ⟨_, rfl⟩⟩

/-- A line that was cut off with its newline is whole, and less of it is no message. -/
theorem takeMessage_cut {message : WorkerMessage} {taken : Bytes}
    (hspeaks : SpeaksClearly setup.floatText setup.parse message)
    (htaken : taken <+: setup.messageLine message) (hshort : taken ≠ setup.messageLine message) :
    WorkerMessage.decode setup.parse taken = some message ∨
      WorkerMessage.decode setup.parse taken = none := by
  have hbody : taken <+: encode setup.floatText message.toJson := by
    rcases List.prefix_concat_iff.mp htaken with hwhole | hbody
    · exact absurd hwhole hshort
    · exact hbody
  by_cases hwhole : taken = encode setup.floatText message.toJson
  · rw [hwhole]
    exact Or.inl hspeaks.unterminated
  · exact Or.inr (hspeaks.cut taken hbody hwhole)

/-- A message of the worker arrives byte by byte; of one that broke off, the parent takes
what is whole. -/
theorem readMessage_onward (hclear : setup.Clear) {message : WorkerMessage}
    (h : Together setup dies s log e (.asking message))
    (hstep : s.parentRead setup.parse = some next) :
    Proceeds setup dies s next log e (.asking message) := by
  have hends := parentRead_ends h.ends hstep
  obtain ⟨hpipes, horphan, htells, hwires⟩ := h
  have hspeaks : SpeaksClearly setup.floatText setup.parse message := by
    cases htells with
    | asking hserved htells => exact says_clearly hclear hserved htells
  cases hwires with
  | @asking _ taken left hat hparent hup hshort hdown hfinal =>
    have hnear (line : Bytes) (pipe : Channel UInt8 capacity)
        (hless : pipe.queue.length < s.toParent.queue.length)
        (hdecode : WorkerMessage.decode setup.parse line = some message) :
        Nearer setup s (State.takeMessage setup.parse { s with toParent := pipe } line) log log e e
          (.asking message) (afterAsking message) := by
      intro n rest last result hremains
      obtain ⟨htraffic, hhost⟩ :=
        takeMessage_standing (s := { s with toParent := pipe }) line message hfinal hdecode
      refine ⟨n, rest, ?_, rfl, ?_⟩
      · rw [hhost]
        exact remains_afterAsking hremains
      · simp only [State.traffic] at htraffic ⊢
        omega
    unfold State.parentRead at hstep
    rw [hparent] at hstep
    cases hreceive : s.toParent.receive with
    | empty =>
      simp only [hreceive] at hstep
      contradiction
    | item b pipe =>
      obtain ⟨happend, hlast, hmore⟩ := received_byte hspeaks.isLine hup hreceive
      have hqueue := congrArg List.length (Channel.receive_item hreceive).queue
      rw [List.length_cons] at hqueue
      simp only [hreceive, happend] at hstep
      by_cases hb : b = newline
      · obtain ⟨hline, rfl, hempty⟩ := hlast hb
        rw [if_pos hb, hline] at hstep
        cases hstep
        refine Or.inl ⟨log, e, afterAsking message,
          takeMessage_together hends horphan htells hat hfinal hdown hempty hspeaks.decodes, ?_⟩
        intro _
        exact hnear _ pipe (by omega) hspeaks.decodes
      · rw [if_neg hb] at hstep
        cases hstep
        refine Or.inl ⟨log, e, .asking message, ⟨hends, horphan, htells,
          .asking hat rfl (hup.received hreceive) (hmore hb) hdown hfinal⟩, ?_⟩
        intro _ n rest last result hremains
        refine ⟨n, rest, hremains, rfl, ?_⟩
        simp only [State.traffic, hparent, Parent.left]
        omega
    | ended =>
      obtain ⟨hempty, hended⟩ := Channel.receive_ended hreceive
      rw [hpipes.writes] at hended
      -- all of the message was not written, so the worker did not go of itself
      have hdies : dies := by
        rcases hat with hat | ⟨hlast, -⟩ | ⟨hdies, -⟩
        · rw [hat] at hended
          have hstands := saying_standing e message left
          cases hsaying : saying e message left with
          | exited success =>
            rw [hsaying] at hstands
            contradiction
          | _ =>
            rw [hsaying] at hended
            contradiction
        · have hleft := congrArg Worker.left hlast
          rw [saying_left] at hleft
          have hnil : left = [] := hleft
          rw [hnil] at hup
          exact absurd (hup.arrived hempty) hshort
        · exact hdies
      cases taken with
      | nil =>
        simp only [hreceive, hfinal] at hstep
        cases hstep
        exact Or.inr ⟨Or.inl ⟨_, rfl⟩, fun hlives => absurd hdies hlives⟩
      | cons b taken =>
        simp only [hreceive] at hstep
        cases hstep
        have hfront : b :: taken <+: setup.messageLine message := by
          unfold Channel.Carries at hup
          rw [hup, List.append_assoc]
          exact List.prefix_append _ _
        rcases takeMessage_cut hspeaks hfront hshort with hdecode | hdecode
        · refine Or.inl ⟨log, e, afterAsking message,
            takeMessage_together hends horphan htells ?_ hfinal hdown hempty hdecode,
              fun hlives => absurd hdies hlives⟩
          exact Or.inr (Or.inr ⟨hdies, hended⟩)
        · refine Or.inr ⟨Or.inl ⟨.unexpected, ?_⟩, fun hlives => absurd hdies hlives⟩
          unfold State.takeMessage
          rw [hfinal, hdecode]
          rfl

theorem parentRead_onward (hclear : setup.Clear) (h : Together setup dies s log e spot)
    (hstep : s.parentRead setup.parse = some next) : Proceeds setup dies s next log e spot := by
  have hends := parentRead_ends h.ends hstep
  have hwires := h.wires
  have hquiet {worker : Worker E} (hat : At dies s worker) (hstays : worker ≠ .returning)
      (halive : worker.gone = false) (hparent : s.parent = .reading [])
      (hup : s.toParent.queue = []) (hfinal : s.finalResult = none) :
      Proceeds setup dies s next log e spot := by
    obtain ⟨hgone, hgivenUp⟩ := parentRead_nothing h.ends hparent hup hfinal hstep
    rcases hat.gone_or hstays halive with hlives | hdies
    · rw [hgone] at hlives
      contradiction
    · exact Or.inr ⟨hgivenUp, fun hlives => absurd hdies hlives⟩
  cases hwires with
  | @job taken left hat hparent hdown hshort hup hfinal =>
    by_cases hleft : left = []
    · rw [if_pos hleft] at hparent
      exact hquiet hat (by simp) rfl hparent hup hfinal
    · rw [if_neg hleft] at hparent
      simp only [State.parentRead, hparent] at hstep
      contradiction
  | idle hat hparent hdown hup hfinal => exact hquiet hat (by simp) rfl hparent hup hfinal
  | asking => exact readMessage_onward hclear h hstep
  | dispatching hat hparent =>
    simp only [State.parentRead, hparent] at hstep
    contradiction
  | @answering call answer taken left hat hparent hdown hshort hup hfinal =>
    by_cases hleft : left = []
    · rw [if_pos hleft] at hparent
      exact hquiet hat (by simp) rfl hparent hup hfinal
    · rw [if_neg hleft] at hparent
      simp only [State.parentRead, hparent] at hstep
      contradiction
  | @closing place final hat hparent hdown hup hfinal =>
    cases place with
    | held =>
      simp only [Closing.parent] at hparent
      unfold State.parentRead at hstep
      rw [hparent] at hstep
      cases hreceive : s.toParent.receive with
      | empty =>
        simp only [hreceive] at hstep
        contradiction
      | item b pipe =>
        have hqueue := (Channel.receive_item hreceive).queue
        rw [hup] at hqueue
        contradiction
      | ended =>
        simp only [hreceive, hfinal] at hstep
        cases hstep
        refine Or.inl ⟨log, e, .closing .reaping final, ⟨hends, h.orphan, ?_,
          .closing hat rfl hdown hup hfinal⟩, ?_⟩
        · obtain ⟨-, -, htells, -⟩ := h
          cases htells with
          | closing hserved htells hbooks => exact .closing hserved htells hbooks
        · intro _ n rest last result hremains
          obtain ⟨rfl, hend⟩ := hremains
          refine ⟨1, rest, ⟨rfl, hend⟩, rfl, ?_⟩
          simp only [State.traffic, State.leave, hparent, Parent.left, Closing.steps,
            Channel.finish_queue, Channel.close_queue]
          omega
    | reaping | returned =>
      simp only [State.parentRead, hparent, Closing.parent] at hstep
      contradiction

theorem serve_onward (h : Together setup dies s log e spot)
    (hstep : s.serve setup.floatText setup.dispatch = some next) :
    Proceeds setup dies s next log e spot := by
  have hends := serve_ends h.ends hstep
  obtain ⟨hpipes, horphan, htells, hwires⟩ := h
  unfold State.serve at hstep
  rw [horphan] at hstep
  cases hwires with
  | @dispatching call hat hparent hdown hup hfinal =>
    simp only [hparent] at hstep
    cases htells with
    | dispatching hserved hturn hbooks =>
      cases hdispatch : setup.dispatch s.host call with
      | mk host answer =>
        cases answer with
        | none =>
          simp only [hdispatch] at hstep
          cases hstep
          refine Or.inr ⟨Or.inl ⟨_, rfl⟩, ?_⟩
          intro _ n rest last result hremains
          obtain ⟨next, answer, m, rest', -, -, hanswer, -⟩ := hremains
          rw [hdispatch] at hanswer
          cases hanswer
        | some answer =>
          simp only [hdispatch] at hstep
          cases hstep
          refine Or.inl ⟨log, e, .answering call answer, ⟨hends, rfl,
            .answering hserved hturn hdispatch ?_, .answering hat ?_ (carries_new hdown)
              (writeLine_ne_nil _ _).symm hup hfinal⟩, ?_⟩
          · show ({ s.books with answered := s.books.answered ++ [answer] } : Books) = _
            rw [hbooks]
            simp [booksOf]
          · exact (if_neg (writeLine_ne_nil _ _)).symm
          · intro _ n rest last result hremains
            obtain ⟨next, found, m, rest', rfl, rfl, hanswer, hfinishes⟩ := hremains
            rw [hdispatch] at hanswer
            cases hanswer
            refine ⟨m, _, ⟨rest', rfl, hfinishes⟩, rfl, ?_⟩
            simp only [State.traffic, hparent, Parent.left, List.length_nil, Setup.replyLine]
            omega
  | @job taken left hat hparent | @answering call answer taken left hat hparent =>
    by_cases hleft : left = []
    · rw [if_pos hleft] at hparent
      simp only [hparent] at hstep
      contradiction
    · rw [if_neg hleft] at hparent
      simp only [hparent] at hstep
      contradiction
  | idle hat hparent | asking hat hparent =>
    simp only [hparent] at hstep
    contradiction
  | @closing place final hat hparent =>
    cases place <;> simp only [hparent, Closing.parent] at hstep <;> contradiction

theorem reap_onward (h : Together setup dies s log e spot)
    (hstep : s.reap setup.memoryBounded = some next) : Proceeds setup dies s next log e spot := by
  have hends := reap_ends h.ends hstep
  obtain ⟨hpipes, horphan, htells, hwires⟩ := h
  unfold State.reap at hstep
  cases hwires with
  | @closing place final hat hparent hdown hup hfinal =>
    cases place with
    | reaping =>
      simp only [hparent, Closing.parent] at hstep
      split at hstep
      · rename_i hworker
        cases hstep
        refine Or.inl ⟨log, e, .closing .returned final, ⟨hends, horphan, ?_,
          .closing hat rfl hdown hup hfinal⟩, ?_⟩
        · cases htells with
          | closing hserved htells hbooks => exact .closing hserved htells hbooks
        · intro _ n rest last result hremains
          obtain ⟨rfl, hend⟩ := hremains
          refine ⟨0, rest, ⟨rfl, hend⟩, rfl, ?_⟩
          simp only [State.traffic, hparent, Closing.parent, Parent.left, Closing.steps]
          omega
      · rename_i hworker
        cases hstep
        refine Or.inr ⟨Or.inr ⟨_, rfl⟩, ?_⟩
        intro hlives
        rcases hat with hat | ⟨-, hat⟩ | ⟨hdies, -⟩
        · rw [hworker] at hat
          contradiction
        · rw [hworker] at hat
          cases hat
        · exact absurd hdies hlives
      · contradiction
    | held | returned =>
      simp only [hparent, Closing.parent] at hstep
      contradiction
  | @job taken left hat hparent | @answering call answer taken left hat hparent =>
    by_cases hleft : left = []
    · rw [if_pos hleft] at hparent
      simp only [hparent] at hstep
      contradiction
    · rw [if_neg hleft] at hparent
      simp only [hparent] at hstep
      contradiction
  | idle hat hparent | asking hat hparent | dispatching hat hparent =>
    simp only [hparent] at hstep
    contradiction

/-- What the two parties do of themselves: no worker dies, and no deadline passes. -/
def Regular : Action → Prop
  | .crash _ | .deadline | .waitError => False
  | _ => True

theorem step_onward (hclear : setup.Clear) (h : Together setup dies s log e spot) {a : Action}
    (ha : Regular a) (hstep : setup.step s a = some next) :
    Proceeds setup dies s next log e spot := by
  cases a with
  | compute => exact Or.inl (compute_onward hclear h hstep)
  | workerWrite => exact Or.inl (workerWrite_onward h hstep)
  | workerRead => exact Or.inl (workerRead_onward hclear h hstep)
  | workerExit => exact Or.inl (workerExit_onward h hstep)
  | parentWrite => exact parentWrite_onward h hstep
  | parentRead => exact parentRead_onward hclear h hstep
  | serve => exact serve_onward h hstep
  | reap => exact reap_onward h hstep
  | crash allocatorAbort | deadline | waitError => contradiction

/-- A worker that dies leaves the bytes that it wrote. -/
theorem crash_together (h : Together setup True s log e spot) {allocatorAbort : Bool}
    (hstep : s.crash allocatorAbort = some next) : Together setup True next log e spot := by
  unfold State.crash at hstep
  split at hstep
  · contradiction
  · cases hstep
    obtain ⟨hpipes, horphan, htells, hwires⟩ := h
    have hat (worker : Worker E) :
        At True { s.exit false with allocatorAbort := s.allocatorAbort || allocatorAbort } worker :=
      Or.inr (Or.inr ⟨trivial, rfl⟩)
    refine ⟨(hpipes.exit false).same rfl rfl rfl rfl rfl rfl, horphan, htells, ?_⟩
    cases hwires with
    | job _ hparent hdown hshort hup hfinal => exact .job (hat _) hparent hdown hshort hup hfinal
    | idle _ hparent hdown hup hfinal => exact .idle (hat _) hparent hdown hup hfinal
    | asking _ hparent hup hshort hdown hfinal =>
      exact .asking (hat _) hparent hup hshort hdown hfinal
    | dispatching _ hparent hdown hup hfinal => exact .dispatching (hat _) hparent hdown hup hfinal
    | answering _ hparent hdown hshort hup hfinal =>
      exact .answering (hat _) hparent hdown hshort hup hfinal
    | closing _ hparent hdown hup hfinal => exact .closing (hat _) hparent hdown hup hfinal

end Turns

end StuntDouble.ScriptWorker
