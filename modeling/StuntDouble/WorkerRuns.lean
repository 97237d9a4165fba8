import StuntDouble.WorkerTurns

/-!
Every run of a worker and its parent. The calls of the script are served as if the host had
answered on the spot, each once and in order, whenever a worker dies and whenever the deadline
passes; nothing but the host or the script can keep a run from going on; and a run that
nothing disturbs ends like the script.
-/
namespace StuntDouble.ScriptWorker

open Calls Channels LineReader Machine Script Transitions

section Sample

/-- A script that asks for the state once and returns, and a host that counts its calls. -/
def askingOnce : Setup Bool ℕ where
  floatText _ := ""
  parse := JsonText.parse fun _ => none
  wording := ⟨"broken pipe", "invalid UTF-8", fun _ => "invalid JSON"⟩
  engine :=
    { start := fun _ _ _ _ => false
      turn := fun answered =>
        if answered then .ended (.ok .null) else .call (.state, some "null")
      resume := fun _ _ => true }
  dispatch n _ := (n + 1, some .null)
  memoryBounded := true
  job := .job "" .null "" []
  host := 0
  script := false

theorem askingOnce_call : askingOnce.program.turn false = .call ⟨.state, .null⟩ := rfl

theorem askingOnce_end : askingOnce.program.turn true = .ended (.ok .null) := rfl

theorem askingOnce_clear : askingOnce.Clear := by
  have hparse : JsonText.Standard askingOnce.floatText askingOnce.parse :=
    JsonText.standard_parse _ _
  refine ⟨?_, ?_, ?_, ?_, ?_⟩
  · exact startJob_of_decode _ (writeLine_ne_nil _ _)
      (ParentMessage.decode_toJson hparse ⟨trivial, trivial⟩)
  · exact readsBack_of_plain hparse ⟨trivial, trivial⟩ (by decide +kernel)
  · intro log host e call _ hcall
    cases e with
    | false =>
      rw [askingOnce_call] at hcall
      cases hcall
      exact speaksClearly_of_plain hparse ⟨trivial, trivial⟩ (by decide +kernel)
    | true =>
      rw [askingOnce_end] at hcall
      cases hcall
  · intro log host e call next result _ _ hresult
    cases hresult
    exact readsBack_of_plain hparse ⟨trivial, trivial⟩ (by decide +kernel)
  · intro log host e result _ hended
    cases e with
    | false =>
      rw [askingOnce_call] at hended
      cases hended
    | true =>
      rw [askingOnce_end] at hended
      cases hended
      exact ⟨_, rfl, speaksClearly_of_plain hparse ⟨trivial, trivial⟩ (by decide +kernel)⟩

theorem askingOnce_served : askingOnce.Served [(⟨.state, .null⟩, .null)] 1 true :=
  .call .start askingOnce_call rfl

/-- A line that the parent writes and the worker reads. -/
def downward (line : Bytes) : List Action :=
  List.replicate line.length .parentWrite ++ List.replicate line.length .workerRead

/-- A line that the worker writes and the parent reads. -/
def upward (line : Bytes) : List Action :=
  .compute :: List.replicate line.length .workerWrite ++ List.replicate line.length .parentRead

/-- The run in which every line is written before it is read. -/
def askingOnceRun : List Action :=
  downward askingOnce.jobLine ++ upward (askingOnce.messageLine (.hostCall .state .null)) ++
    .serve :: downward (askingOnce.replyLine .null) ++
      upward (askingOnce.messageLine (.finalResult (.success .null))) ++
        [.workerExit, .parentRead, .reap]

def askingOnceEnd : Option (State Bool ℕ 128) := run askingOnce.step askingOnce.start askingOnceRun

/-- The run up to the first bytes of the answer. -/
def askingOnceAnswering : List Action :=
  downward askingOnce.jobLine ++ upward (askingOnce.messageLine (.hostCall .state .null)) ++
    .serve :: List.replicate 9 .parentWrite

def askingOnceMiddle : Option (State Bool ℕ 128) :=
  run askingOnce.step askingOnce.start askingOnceAnswering

def Parent.isNull : Parent → Bool
  | .returned (.ok (.success .null)) => true
  | _ => false

theorem Parent.isNull_eq {parent : Parent} (h : parent.isNull = true) :
    parent = .returned (.ok (.success .null)) := by
  unfold Parent.isNull at h
  split at h
  · rfl
  · contradiction

theorem askingOnce_ends : ∃ s : State Bool ℕ 128,
    run askingOnce.step askingOnce.start askingOnceRun = some s ∧
      s.parent = .returned (.ok (.success .null)) := by
  have hend : (askingOnceEnd.map fun s => s.parent.isNull) = some true := by decide +kernel
  obtain ⟨s, hs, hnull⟩ := Option.map_eq_some_iff.mp hend
  exact ⟨s, hs, Parent.isNull_eq hnull⟩

end Sample

section Safety

variable {E H : Type} {setup : Setup E H} {capacity : ℕ} {dies : Prop}
  {s next : State E H capacity} {log : List (HostCall × Json)} {e : E} {spot : Spot}

theorem start_together :
    Together setup dies (setup.start : State E H capacity) [] setup.script .job :=
  ⟨start_ends setup.job setup.host, rfl, .job rfl rfl,
    .job (Or.inl rfl) (if_neg (writeLine_ne_nil _ _)).symm (carries_new rfl)
      (writeLine_ne_nil _ _).symm rfl rfl⟩

/-- A step to a parent that gives up dispatches nothing. -/
theorem givenUp_books {dispatch : H → HostCall → H × Option Json} (hkind : Kind dispatch s next)
    (hgiven : GivenUp next) : next.books.dispatched = s.books.dispatched ∧
      s.books.made <+: next.books.made := by
  cases hkind with
  | worker hgone hparent hhost horphan hmade hdispatched hanswered => exact ⟨hdispatched, hmade⟩
  | dispatch call hworker hbefore hafter =>
    rcases hgiven with ⟨reason, hgiven⟩ | ⟨error, hgiven⟩
    · rw [hafter] at hgiven
      contradiction
    · rw [hafter] at hgiven
      contradiction
  | serve call result hworker hbefore hafter hdispatch hrunning horphan hbooks =>
    rw [hbooks]
    exact ⟨rfl, List.prefix_rfl⟩
  | talk hworker hbefore hafter hhost horphan hbooks
  | refuse call hworker hbefore hafter hdispatch hrunning horphan hbooks
  | late call hworker hparent hhost hrunning horphan hbooks
  | leave hworker hbefore hafter hhost horphan hbooks
  | abandon call hworker hbefore hafter hhost horphan hbooks
  | giveUp result reason hworker hbefore hafter hhost horphan hbooks
  | succeed result hbefore hsuccess hworker hafter hhost horphan hbooks
  | fail error hbefore hworker hafter hhost horphan hbooks =>
    rw [hbooks]
    exact ⟨rfl, List.prefix_rfl⟩

/-- A parent that gave up stays with that. -/
theorem givenUp_step {dispatch : H → HostCall → H × Option Json} (hkind : Kind dispatch s next)
    (hgiven : GivenUp s) : GivenUp next := by
  have hbusy : s.parent.busy = false := by
    rcases hgiven with ⟨reason, hgiven⟩ | ⟨error, hgiven⟩
    · rw [hgiven]
      rfl
    · rw [hgiven]
      rfl
  have hsame (hparent : next.parent = s.parent) : GivenUp next := by
    unfold GivenUp
    rw [hparent]
    exact hgiven
  have hnot (parent : Parent) (hparent : s.parent = parent)
      (hreason : ∀ reason, parent ≠ .terminating reason)
      (herror : ∀ error, parent ≠ .returned (.error error)) : GivenUp next := by
    rcases hgiven with ⟨reason, hgiven⟩ | ⟨error, hgiven⟩
    · exact absurd (hparent.symm.trans hgiven) (hreason reason)
    · exact absurd (hparent.symm.trans hgiven) (herror error)
  cases hkind with
  | worker hgone hparent => exact hsame hparent
  | late call hworker hparent => exact hsame hparent
  | talk hworker hbefore | dispatch call hworker hbefore | leave hworker hbefore =>
    rw [hbusy] at hbefore
    contradiction
  | serve call result hworker hbefore => exact hnot _ hbefore (by simp) (by simp)
  | refuse call hworker hbefore hafter | abandon call hworker hbefore hafter =>
    exact Or.inl ⟨_, hafter⟩
  | giveUp result reason hworker hbefore hafter => exact Or.inl ⟨_, hafter⟩
  | succeed result hbefore => exact hnot _ hbefore (by simp) (by simp)
  | fail error hbefore hworker hafter => exact Or.inr ⟨_, hafter⟩

theorem Together.dispatched_made (h : Together setup dies s log e spot) :
    s.books.dispatched <+: s.books.made := by
  obtain ⟨-, -, htells, -⟩ := h
  cases htells with
  | job hhost hbooks | idle hserved hbooks | asking hserved htells hbooks
  | dispatching hserved hturn hbooks | answering hserved hturn hdispatch hbooks
  | closing hserved htells hbooks =>
    rw [hbooks]
    simp [booksOf]

/-- The two take turns, or the parent gave up. -/
def Stage (setup : Setup E H) (s : State E H capacity) : Prop :=
  (∃ log e spot, Together setup True s log e spot) ∨
    (GivenUp s ∧ s.books.dispatched <+: s.books.made)

theorem step_stage (hclear : setup.Clear) (hs : Stage setup s) {a : Action}
    (hstep : setup.step s a = some next) : Stage setup next := by
  have hkind : Kind setup.dispatch s next := step_kind hstep
  have hkept (hgiven : GivenUp next) (hfront : s.books.dispatched <+: s.books.made) :
      Stage setup next := by
    obtain ⟨hdispatched, hmade⟩ := givenUp_books hkind hgiven
    refine Or.inr ⟨hgiven, ?_⟩
    rw [hdispatched]
    exact hfront.trans hmade
  rcases hs with ⟨log, e, spot, htogether⟩ | ⟨hgiven, hfront⟩
  · have hfront := htogether.dispatched_made
    by_cases ha : Regular a
    · rcases step_onward hclear htogether ha hstep with ⟨log', e', spot', hnext, -⟩ | ⟨hgiven, -⟩
      · exact Or.inl ⟨log', e', spot', hnext⟩
      · exact hkept hgiven hfront
    · cases a with
      | crash allocatorAbort => exact Or.inl ⟨log, e, spot, crash_together htogether hstep⟩
      | deadline =>
        have hstep : s.deadline = some next := hstep
        apply hkept _ hfront
        unfold State.deadline at hstep
        split at hstep
        all_goals
          first
          | contradiction
          | cases hstep
            exact Or.inl ⟨_, rfl⟩
      | waitError =>
        have hstep : s.waitError = some next := hstep
        apply hkept _ hfront
        unfold State.waitError at hstep
        split at hstep
        · cases hstep
          exact Or.inl ⟨_, rfl⟩
        · contradiction
      | _ => exact absurd trivial ha
  · exact hkept (givenUp_step hkind hgiven) hfront

theorem run_stage (hclear : setup.Clear) {as : List Action}
    (h : run setup.step (setup.start : State E H capacity) as = some s) : Stage setup s :=
  run_invariant (Stage setup) (fun _ => True)
    (fun _ _ _ _ hs hstep => step_stage hclear hs hstep) (fun _ _ => trivial)
    (Or.inl ⟨[], setup.script, .job, start_together⟩) h

/-- While the two take turns, the script has had the answers to all of its calls but one. -/
theorem Together.answers (h : Together setup dies s log e spot) :
    (∃ host, setup.Served log host e) ∧ s.books.received = log.map Prod.snd ∧
      log.map Prod.fst <+: s.books.dispatched ∧ s.books.received <+: s.books.answered ∧
        s.books.made.length ≤ log.length + 1 := by
  obtain ⟨-, -, htells, -⟩ := h
  cases htells with
  | job hhost hbooks =>
    rw [hbooks]
    exact ⟨⟨_, .start⟩, rfl, by simp, by simp [booksOf], by simp [booksOf]⟩
  | @asking _ _ message hserved htells hbooks =>
    rw [hbooks]
    refine ⟨⟨_, hserved⟩, rfl, by simp [booksOf], by simp [booksOf], ?_⟩
    cases message <;> simp [booksOf, callsOf]
  | idle hserved hbooks | dispatching hserved hturn hbooks
  | answering hserved hturn hdispatch hbooks | closing hserved htells hbooks =>
    rw [hbooks]
    exact ⟨⟨_, hserved⟩, rfl, by simp [booksOf], by simp [booksOf], by simp [booksOf]⟩

theorem Together.one_message (h : Together setup dies s log e spot) :
    s.toWorker.queue = [] ∨ s.toParent.queue = [] := by
  obtain ⟨-, -, -, hwires⟩ := h
  cases hwires with
  | job _ _ _ _ hup => exact Or.inr hup
  | idle _ _ hdown => exact Or.inl hdown
  | asking _ _ _ _ hdown => exact Or.inl hdown
  | dispatching _ _ hdown => exact Or.inl hdown
  | answering _ _ _ _ hup => exact Or.inr hup
  | closing _ _ hdown => exact Or.inl hdown

/-- A parent with a result has that of the script, all of whose calls were served. -/
theorem Together.of_result (h : Together setup dies s log e spot) {result : FinalResult}
    (hparent : s.parent = .reaping result ∨ s.parent = .returned (.ok result)) :
    setup.Served log s.host e ∧ setup.Says e (.finalResult result) ∧
      s.books = booksOf log [] [] [] := by
  obtain ⟨-, -, htells, hwires⟩ := h
  have hnot (parent : Parent) (hsame : s.parent = parent) (hfirst : parent ≠ .reaping result)
      (hsecond : parent ≠ .returned (.ok result)) : False := by
    rcases hparent with hparent | hparent
    · exact hfirst (hsame.symm.trans hparent)
    · exact hsecond (hsame.symm.trans hparent)
  cases hwires with
  | @closing place final _ hplace =>
    have hfinal : final = result := by
      rcases hparent with hparent | hparent
      · rw [hparent] at hplace
        cases place <;> simp [Closing.parent] at hplace
        exact hplace.symm
      · rw [hparent] at hplace
        cases place <;> simp [Closing.parent] at hplace
        exact hplace.symm
    subst hfinal
    cases htells with
    | closing hserved htells hbooks => exact ⟨hserved, htells, hbooks⟩
  | @job taken left _ hplace | @answering call answer taken left _ hplace =>
    by_cases hleft : left = []
    · rw [if_pos hleft] at hplace
      exact (hnot _ hplace (by simp) (by simp)).elim
    · rw [if_neg hleft] at hplace
      exact (hnot _ hplace (by simp) (by simp)).elim
  | idle _ hplace | asking _ hplace | dispatching _ hplace =>
    exact (hnot _ hplace (by simp) (by simp)).elim

/-- In every run, also of workers that die and with a deadline that passes at any moment: the
calls dispatched are calls that the script made, in order; until the parent gives up, the
script runs as if the host answered on the spot, one call at a time and with one message on
its way; and a run that returns a result returns that of the script, with every call of it
served once. -/
theorem calls_served_in_turn (hclear : setup.Clear) {as : List Action}
    (h : run setup.step (setup.start : State E H capacity) as = some s) :
    s.books.dispatched <+: s.books.made ∧
    (GivenUp s ∨ ((s.toWorker.queue = [] ∨ s.toParent.queue = []) ∧
      ∃ log host e, setup.Served log host e ∧ s.books.received = log.map Prod.snd ∧
        log.map Prod.fst <+: s.books.dispatched ∧ s.books.received <+: s.books.answered ∧
          s.books.made.length ≤ log.length + 1)) ∧
    ∀ result, s.parent = .reaping result ∨ s.parent = .returned (.ok result) →
      ∃ log e, setup.Served log s.host e ∧ setup.Says e (.finalResult result) ∧
        s.books = booksOf log [] [] [] := by
  rcases run_stage hclear h with ⟨log, e, spot, htogether⟩ | ⟨hgiven, hfront⟩
  · obtain ⟨⟨host, hserved⟩, hanswers⟩ := htogether.answers
    refine ⟨htogether.dispatched_made,
      Or.inr ⟨htogether.one_message, log, host, e, hserved, hanswers⟩, ?_⟩
    intro result hparent
    exact ⟨log, e, htogether.of_result hparent⟩
  · refine ⟨hfront, Or.inl hgiven, ?_⟩
    intro result hparent
    rcases hgiven with ⟨reason, hgiven⟩ | ⟨error, hgiven⟩
    · rw [hgiven] at hparent
      rcases hparent with hparent | hparent <;> contradiction
    · rw [hgiven] at hparent
      rcases hparent with hparent | hparent
      · contradiction
      · cases hparent

/-- A run that returns null, whose one call was served once. -/
theorem calls_served_in_turn_once :
    ∃ s : State Bool ℕ 128, s.parent = .returned (.ok (.success .null)) ∧
      s.books.dispatched <+: s.books.made ∧
        ∃ log e, askingOnce.Served log s.host e ∧
          askingOnce.Says e (.finalResult (.success .null)) ∧ s.books = booksOf log [] [] [] := by
  obtain ⟨s, hrun, hparent⟩ := askingOnce_ends
  obtain ⟨hfront, -, hresult⟩ := calls_served_in_turn askingOnce_clear hrun
  exact ⟨s, hparent, hfront, hresult _ (Or.inr hparent)⟩

theorem run_reaped {as : List Action}
    (h : run setup.step (setup.start : State E H capacity) as = some s) : Reaped s :=
  run_invariant Reaped (fun _ => True) (fun _ _ _ _ hs hstep => step_reaped hs hstep)
    (fun _ _ => trivial) (Reaped.of_not_returned (by simp [Setup.start, State.start])) h

/-- Whatever is written on the pipes: the host serves the calls that were dispatched, each
once and in order; a call is left running only by a parent for which the deadline passed; and
when a run has returned, its worker is gone, with success if the run returned a result. -/
theorem dispatched_calls_served {as : List Action}
    (h : run setup.step (setup.start : State E H capacity) as = some s) :
    (∃ served, s.books.dispatched = served ++ s.running.toList ∧
      s.host = final setup.dispatch setup.host served ∧
        s.books.answered.map some <+: outputs setup.dispatch setup.host served) ∧
    (s.parent.talks = true → s.orphan = none) ∧
    (∀ call, s.orphan = some call →
      s.parent = .terminating .timedOut ∨ s.parent = .returned (.error .timedOut)) ∧
    (∀ outcome, s.parent = .returned outcome → s.worker.gone = true) ∧
    ∀ result, s.parent = .returned (.ok result) → s.worker = .exited true := by
  have hhosted : Hosted setup.dispatch setup.host s :=
    run_invariant (Hosted setup.dispatch setup.host) (fun _ => True)
      (fun _ _ _ _ hs hstep => step_hosted hs hstep) (fun _ _ => trivial)
      (start_hosted setup.job) h
  obtain ⟨served, hdispatched, hhost, hanswered, -⟩ := hhosted.served
  obtain ⟨hgone, hsuccess⟩ := run_reaped h
  exact ⟨⟨served, hdispatched, hhost, hanswered⟩, hhosted.orphaned, hhosted.late, hgone, hsuccess⟩

theorem dispatched_calls_served_once :
    ∃ s : State Bool ℕ 128, s.parent = .returned (.ok (.success .null)) ∧
      s.worker = .exited true := by
  obtain ⟨s, hrun, hparent⟩ := askingOnce_ends
  obtain ⟨-, -, -, -, hsuccess⟩ := dispatched_calls_served hrun
  exact ⟨s, hparent, hsuccess _ hparent⟩

end Safety

section Progress

variable {E H : Type} {setup : Setup E H} {capacity : ℕ} {dies : Prop}
  {s next : State E H capacity} {log : List (HostCall × Json)} {e : E} {spot : Spot}

/-- Something that the parties do of themselves is possible. -/
def Moves (setup : Setup E H) (s : State E H capacity) : Prop :=
  ∃ a, Regular a ∧ (setup.step s a).isSome

theorem moves_of_compute {e₁ : E} (hworker : s.worker = .evaluating e₁) : Moves setup s := by
  refine ⟨.compute, trivial, ?_⟩
  show (s.compute _ _ _ _).isSome
  unfold State.compute
  rw [hworker]
  dsimp only
  split
  · rfl
  · rfl
  · split <;> rfl

/-- A parent that reads goes on, unless it has to wait for the worker. -/
theorem moves_of_reading {line : Bytes} (hparent : s.parent = .reading line)
    (hready : s.toParent.queue ≠ [] ∨ s.toParent.ended = true) : Moves setup s := by
  refine ⟨.parentRead, trivial, ?_⟩
  show (s.parentRead _).isSome
  unfold State.parentRead
  rw [hparent]
  dsimp only
  cases hreceive : s.toParent.receive with
  | empty =>
    obtain ⟨hqueue, hended⟩ := Channel.receive_empty hreceive
    rcases hready with hready | hready
    · exact absurd hqueue hready
    · rw [hended] at hready
      contradiction
  | ended =>
    dsimp only
    split <;> rfl
  | item b pipe =>
    dsimp only
    split
    · rfl
    · split <;> rfl

theorem moves_of_starting {line : Bytes} (hworker : s.worker = .starting line) {b : UInt8}
    {pipe : Channel UInt8 capacity} (hreceive : s.toWorker.receive = .item b pipe) :
    Moves setup s := by
  refine ⟨.workerRead, trivial, ?_⟩
  show (s.workerRead _ _ _ _).isSome
  unfold State.workerRead
  rw [hworker]
  dsimp only
  rw [hreceive]
  dsimp only
  split
  · rfl
  · split <;> rfl

theorem moves_of_waiting {e₁ : E} {call : HostCall} {line : Bytes}
    (hworker : s.worker = .waiting e₁ call line) {b : UInt8} {pipe : Channel UInt8 capacity}
    (hreceive : s.toWorker.receive = .item b pipe) : Moves setup s := by
  refine ⟨.workerRead, trivial, ?_⟩
  show (s.workerRead _ _ _ _).isSome
  unfold State.workerRead
  rw [hworker]
  dsimp only
  rw [hreceive]
  dsimp only
  split
  · rfl
  · split <;> rfl

/-- A parent that writes goes on, unless the pipe is full. -/
theorem moves_of_writing {b : UInt8} {left : Bytes}
    (hparent : s.parent = .sendingJob (b :: left) ∨ s.parent = .replying (b :: left))
    (hsend : s.toWorker.send b ≠ .full) : Moves setup s := by
  refine ⟨.parentWrite, trivial, ?_⟩
  show (s.parentWrite).isSome
  unfold State.parentWrite
  rcases hparent with hparent | hparent
  · rw [hparent]
    dsimp only
    cases hresult : s.toWorker.send b with
    | full => exact absurd hresult hsend
    | accepted pipe => rfl
    | refused => rfl
  · rw [hparent]
    dsimp only
    cases hresult : s.toWorker.send b with
    | full => exact absurd hresult hsend
    | accepted pipe => rfl
    | refused => rfl

/-- A message to the worker goes on, also when the worker is gone. -/
theorem moves_down (hcapacity : 0 < capacity) (hpipes : Ends s) {line taken left : Bytes}
    {worker : Worker E} (hat : At dies s worker) (sending : Bytes → Parent)
    (hsending : ∀ left, sending left = .sendingJob left ∨ sending left = .replying left)
    (hparent : s.parent = if left = [] then .reading [] else sending left)
    (hcarries : Channel.Carries line taken left s.toWorker) (hshort : taken ≠ line)
    (hreads : s.worker = worker → ∀ b pipe, s.toWorker.receive = .item b pipe → Moves setup s) :
    Moves setup s := by
  have hwriting (b : UInt8) (rest : Bytes) (hleft : left = b :: rest)
      (hsend : s.toWorker.send b ≠ .full) : Moves setup s := by
    rw [if_neg (by rw [hleft]; simp), hleft] at hparent
    have hwrites := hsending (b :: rest)
    rw [← hparent] at hwrites
    exact moves_of_writing hwrites hsend
  by_cases hgone : s.worker.gone = true
  · cases hleft : left with
    | nil =>
      rw [if_pos hleft] at hparent
      exact moves_of_reading hparent (Or.inr (hpipes.writes.trans hgone))
    | cons b rest =>
      apply hwriting b rest hleft
      have hclosed : s.toWorker.closed = true := hpipes.reads.trans hgone
      unfold Channel.send
      rw [if_pos hclosed]
      simp
  · rw [Bool.not_eq_true] at hgone
    have hopen : s.toWorker.closed = false := hpipes.reads.trans hgone
    rcases hcarries.goes_on hcapacity hopen hshort with
      ⟨b, pipe, hreceive⟩ | ⟨b, rest, pipe, hleft, hsend⟩
    · exact hreads (hat.alive hgone) b pipe hreceive
    · exact hwriting b rest hleft (by rw [hsend]; simp)

/-- While the two take turns something is possible, until the run returns. -/
theorem Together.moves (hcapacity : 0 < capacity) (h : Together setup dies s log e spot) :
    (∃ result, spot = .closing .returned result) ∨ Moves setup s := by
  obtain ⟨hpipes, horphan, htells, hwires⟩ := h
  cases hwires with
  | @job taken left hat hparent hdown hshort hup hfinal =>
    right
    exact moves_down hcapacity hpipes hat .sendingJob (fun _ => Or.inl rfl) hparent
      hdown hshort (fun hworker b pipe hreceive => moves_of_starting hworker hreceive)
  | @answering call answer taken left hat hparent hdown hshort hup hfinal =>
    right
    exact moves_down hcapacity hpipes hat .replying (fun _ => Or.inr rfl) hparent
      hdown hshort (fun hworker b pipe hreceive => moves_of_waiting hworker hreceive)
  | idle hat hparent hdown hup hfinal =>
    right
    by_cases hgone : s.worker.gone = true
    · exact moves_of_reading hparent (Or.inr (hpipes.writes.trans hgone))
    · rw [Bool.not_eq_true] at hgone
      exact moves_of_compute (hat.alive hgone)
  | @asking message taken left hat hparent hup hshort hdown hfinal =>
    right
    by_cases hgone : s.worker.gone = true
    · exact moves_of_reading hparent (Or.inr (hpipes.writes.trans hgone))
    · rw [Bool.not_eq_true] at hgone
      have hopen : s.toParent.closed = false := by
        rw [hpipes.listens, hparent]
        rfl
      rcases hup.goes_on hcapacity hopen hshort with
        ⟨b, pipe, hreceive⟩ | ⟨b, rest, pipe, rfl, hsend⟩
      · apply moves_of_reading hparent
        rw [(Channel.receive_item hreceive).queue]
        exact Or.inl (List.cons_ne_nil b _)
      · refine ⟨.workerWrite, trivial, ?_⟩
        have hwrite : s.workerWrite setup.wording setup.engine = some _ :=
          workerWrite_accepted (hat.alive hgone) hsend
        show (s.workerWrite _ _).isSome
        rw [hwrite]
        rfl
  | @dispatching call hat hparent hdown hup hfinal =>
    right
    refine ⟨.serve, trivial, ?_⟩
    show (s.serve _ _).isSome
    unfold State.serve
    rw [horphan, hparent]
    dsimp only
    split <;> rfl
  | @closing place final hat hparent hdown hup hfinal =>
    have hexit (hworker : s.worker = .returning) : Moves setup s := by
      refine ⟨.workerExit, trivial, ?_⟩
      show (s.workerExit).isSome
      unfold State.workerExit
      rw [hworker]
      rfl
    cases place with
    | held =>
      right
      by_cases hgone : s.worker.gone = true
      · exact moves_of_reading hparent (Or.inr (hpipes.writes.trans hgone))
      · rw [Bool.not_eq_true] at hgone
        exact hexit (hat.alive hgone)
    | reaping =>
      right
      by_cases hgone : s.worker.gone = true
      · refine ⟨.reap, trivial, ?_⟩
        show (s.reap _).isSome
        unfold State.reap
        rw [hparent]
        cases hworker : s.worker with
        | exited success => cases success <;> rfl
        | _ =>
          rw [hworker] at hgone
          contradiction
      · rw [Bool.not_eq_true] at hgone
        exact hexit (hat.alive hgone)
    | returned => exact Or.inl ⟨final, rfl⟩

/-- No run waits for its deadline because the parties wait for each other: until it returns,
the worker, the host or the parent has a step to take, whatever the pipes hold. -/
theorem no_deadlock (hclear : setup.Clear) (hcapacity : 0 < capacity) {as : List Action}
    (h : run setup.step (setup.start : State E H capacity) as = some s) :
    (∃ outcome, s.parent = .returned outcome) ∨
      ∃ a, Regular a ∧ (setup.step s a).isSome := by
  rcases run_stage hclear h with ⟨log, e, spot, htogether⟩ | ⟨hgiven, -⟩
  · rcases htogether.moves hcapacity with ⟨result, rfl⟩ | hmoves
    · obtain ⟨-, -, -, hwires⟩ := htogether
      cases hwires with
      | closing hat hparent => exact Or.inl ⟨_, hparent⟩
    · exact Or.inr hmoves
  · rcases hgiven with ⟨reason, hgiven⟩ | ⟨error, hgiven⟩
    · refine Or.inr ⟨.reap, trivial, ?_⟩
      show (s.reap _).isSome
      unfold State.reap
      rw [hgiven]
      rfl
    · exact Or.inl ⟨_, hgiven⟩

/-- After the job, the call and the first bytes of the answer, there is a step to take. -/
theorem no_deadlock_answering : ∃ s : State Bool ℕ 128,
    run askingOnce.step askingOnce.start askingOnceAnswering = some s ∧
      s.toWorker.queue.length = 9 ∧ ((∃ outcome, s.parent = .returned outcome) ∨
        ∃ a, Regular a ∧ (askingOnce.step s a).isSome) := by
  have hend : (askingOnceMiddle.map fun s => s.toWorker.queue.length) = some 9 := by
    decide +kernel
  obtain ⟨s, hs, hqueue⟩ := Option.map_eq_some_iff.mp hend
  exact ⟨s, hs, hqueue, no_deadlock askingOnce_clear (by decide) hs⟩

end Progress

section Completion

variable {E H : Type} {setup : Setup E H} {capacity : ℕ} {s next : State E H capacity}
  {total : List (HostCall × Json)} {last : H} {result : Except Error Json}

/-- The run of a script that ends like this has so many steps to go. -/
def Due (setup : Setup E H) (total : List (HostCall × Json)) (last : H)
    (result : Except Error Json) (n : ℕ) (s : State E H capacity) : Prop :=
  ∃ log e spot m rest, Together setup False s log e spot ∧
    Remains setup s.host e m rest last result spot ∧ log ++ rest = total ∧ m + s.traffic = n

theorem step_due (hclear : setup.Clear) {n : ℕ} (hs : Due setup total last result n s) {a : Action}
    (ha : Regular a) (hstep : setup.step s a = some next) :
    ∃ m, m < n ∧ Due setup total last result m next := by
  obtain ⟨log, e, spot, m, rest, htogether, hremains, rfl, rfl⟩ := hs
  rcases step_onward hclear htogether ha hstep with
    ⟨log', e', spot', hnext, hnearer⟩ | ⟨-, hnever⟩
  · obtain ⟨m', rest', hremains', htotal, hless⟩ := hnearer id m rest last result hremains
    exact ⟨m' + next.traffic, hless, log', e', spot', m', rest', hnext, hremains', htotal, rfl⟩
  · exact absurd hremains (hnever id m rest last result)

theorem run_due (hclear : setup.Clear) {n : ℕ} {as : List Action} (has : ∀ a ∈ as, Regular a)
    (hs : Due setup total last result n s) (h : run setup.step s as = some next) :
    ∃ m, as.length + m ≤ n ∧ Due setup total last result m next := by
  induction as generalizing s n with
  | nil =>
    cases h
    exact ⟨n, by simp, hs⟩
  | cons a rest ih =>
    obtain ⟨between, hstep, hrest⟩ := run_cons.mp h
    obtain ⟨m, hless, hm⟩ := step_due hclear hs (has a List.mem_cons_self) hstep
    obtain ⟨m', hle, hm'⟩ := ih (fun b hb => has b (List.mem_cons_of_mem a hb)) hm hrest
    refine ⟨m', ?_, hm'⟩
    rw [List.length_cons]
    omega

theorem Due.of_quiet (hcapacity : 0 < capacity) {n : ℕ} (h : Due setup total last result n s)
    (hquiet : Quiet setup.step Regular s) :
    ∃ final, Prelude.runJob result = some final ∧ s.parent = .returned (.ok final) ∧
      s.host = last ∧ s.books = booksOf total [] [] [] := by
  obtain ⟨log, e, spot, m, rest, htogether, hremains, rfl, -⟩ := h
  rcases htogether.moves hcapacity with ⟨final, rfl⟩ | ⟨a, ha, hmoves⟩
  · obtain ⟨-, rfl, rfl, hjob⟩ := hremains
    obtain ⟨-, -, htells, hwires⟩ := htogether
    cases hwires with
    | closing hat hparent =>
      cases htells with
      | closing hserved htells hbooks =>
        refine ⟨final, hjob, hparent, rfl, ?_⟩
        rw [List.append_nil]
        exact hbooks
  · rw [hquiet a ha] at hmoves
    contradiction

/-- A script that ends when the host answers on the spot ends in the worker: whatever the order
of the steps, a run that nothing disturbs takes a bounded number of them, and where it can go
no further it has returned the result of the script, with the same calls, the same answers and
the same host, and the worker has exited. -/
theorem undisturbed_run_ends (hclear : setup.Clear) (hcapacity : 0 < capacity) {e : E}
    (hserved : setup.Served total last e) (hended : setup.program.turn e = .ended result) :
    ∃ bound, ∀ as (s : State E H capacity), (∀ a ∈ as, Regular a) →
      run setup.step setup.start as = some s → as.length ≤ bound ∧
        (Quiet setup.step Regular s → ∃ final, Prelude.runJob result = some final ∧
          s.parent = .returned (.ok final) ∧ s.worker = .exited true ∧ s.host = last ∧
            s.books = booksOf total [] [] []) := by
  obtain ⟨m, hends⟩ : ∃ m, setup.Ends setup.host setup.script m total last result := by
    have hlast : setup.Ends last e (setup.endWeight result) [] last result := .ended hended
    obtain ⟨m, hm⟩ := Reached.finishes hserved hlast
    rw [List.append_nil] at hm
    exact ⟨m, hm⟩
  refine ⟨m + (setup.start : State E H capacity).traffic, ?_⟩
  intro as s has hrun
  have hstart : Due setup total last result (m + (setup.start : State E H capacity).traffic)
      (setup.start : State E H capacity) :=
    ⟨[], setup.script, .job, m, total, start_together, hends, rfl, rfl⟩
  obtain ⟨m', hle, hdue⟩ := run_due hclear has hstart hrun
  refine ⟨by omega, ?_⟩
  intro hquiet
  obtain ⟨final, hjob, hparent, hhost, hbooks⟩ := hdue.of_quiet hcapacity hquiet
  exact ⟨final, hjob, hparent, (run_reaped hrun).2 final hparent, hhost, hbooks⟩

theorem undisturbed_run_ends_once :
    ∃ bound, ∀ as (s : State Bool ℕ 1), (∀ a ∈ as, Regular a) →
      run askingOnce.step askingOnce.start as = some s → as.length ≤ bound ∧
        (Quiet askingOnce.step Regular s → ∃ final, Prelude.runJob (.ok .null) = some final ∧
          s.parent = .returned (.ok final) ∧ s.worker = .exited true ∧ s.host = 1 ∧
            s.books = booksOf [(⟨.state, .null⟩, .null)] [] [] []) :=
  undisturbed_run_ends askingOnce_clear (by decide) askingOnce_served askingOnce_end

end Completion

end StuntDouble.ScriptWorker
