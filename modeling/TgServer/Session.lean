/-
A client process as one machine: `__deamon_read` with its two descriptors, the
event queue between the threads and `__deamon_response`, which calls
`handle_response`.  A handler is one step, since nothing it does to the outside
depends on what the reader thread does meanwhile.  The break out of the loop of
`__deamon_read` is a run in which `select` returns no more.
-/
import TgServer.ClientLife
import TgServer.Reader
import TgServer.ThreadProgress

namespace TgServer

open Bytes ByteStream Transition

variable {σ ρ : Type}

/-- The message an event made of the signal holds. -/
def Signal.message (signal : Signal) : Message := (signal.type, signal.data)

/-- `todo` is what `select` reported and `__deamon_read` has not looked at
yet; `rounds` and `turns` record what `select` returned and what was handled,
`effects` what the process did to the outside. -/
structure Session (σ ρ : Type) where
  threads : Threads
  todo : Ready
  sock : σ
  pipe : ρ
  rounds : List Ready
  turns : List Turn
  effects : List Effect
  ended : Bool

inductive SessionStep where
  /-- `select` returns. -/
  | select (ready : Ready)
  /-- `read_data_from_cli`, and the call of `__send_thread_signal` if any. -/
  | readSock
  | readPipe
  /-- A step inside `__send_thread_signal` or `__deamon_response`. -/
  | thread (act : ThreadStep)
  /-- `handle_response`, with what lies on its stack and what `do_request`
  returns if it is called. -/
  | handle (stack : List Byte) (reply : Option Reply)

/-- The steps of the threads that are not part of another step. -/
def ThreadStep.inner : ThreadStep → Bool
  | .readerCall _ | .responseHandle => false
  | _ => true

/-- `__send_thread_signal` is called for a signal. -/
def Threads.call (s : Threads) : List Signal → Option Threads
  | [] => some s
  | signal :: _ => s.step (.readerCall signal.message)

section Machine

variable (p : Child) (readSock : Descriptor σ) (junk : σ → Nat → Byte)
variable (readPipe : Descriptor ρ) (stack : ρ → List Byte)

/-- `none` is a step the process is not at, that has to wait or that is
undefined; a process that has called `exit` takes none. -/
def Session.step (s : Session σ ρ) (act : SessionStep) :
    Option (Session σ ρ) :=
  if s.ended then none
  else match act with
    | .select ready =>
        if s.threads.readerAt = .idle ∧ s.todo = ⟨false, false⟩ then
          some { s with todo := ready, rounds := s.rounds ++ [ready] }
        else none
    | .readSock =>
        if s.todo.sock then do
          let (signals, sock) ← sockCall p.client readSock junk s.sock
          if s.threads.readerAt = .idle then
            let threads ← s.threads.call signals
            return { s with
              threads := threads, sock := sock
              todo := ⟨false, s.todo.mPipe⟩ }
          else none
        else none
    | .readPipe =>
        if s.todo = ⟨false, true⟩ ∧ s.threads.readerAt = .idle then do
          let (signals, pipe) := pipeCall p.client readPipe stack s.pipe
          let threads ← s.threads.call signals
          return { s with
            threads := threads, pipe := pipe, todo := ⟨false, false⟩ }
        else none
    | .thread act =>
        if act.inner then
          (s.threads.step act).map fun threads =>
            { s with threads := threads }
        else none
    | .handle stack reply =>
        match s.threads.responseAt with
        | .handle pEv => do
            let event ← s.threads.queue.cells pEv
            let turn : Turn := ⟨event, stack, reply⟩
            let (_, effects) ← handleResponse p turn
            let threads ← s.threads.step .responseHandle
            return { s with
              threads := threads, turns := s.turns ++ [turn]
              effects := s.effects ++ effects, ended := exits effects }
        | _ => none

/-- The threads of a client process, once its services are initialised. -/
def session (sock : σ) (pipe : ρ) :
    Machine (Session σ ρ) SessionStep where
  start := ⟨threads.start, ⟨false, false⟩, sock, pipe, [], [], [], false⟩
  step := Session.step p readSock junk readPipe stack

/-- What a step of a process that has not ended does. -/
inductive Session.Took (s : Session σ ρ) :
    SessionStep → Session σ ρ → Prop where
  | select (ready : Ready) (htodo : s.todo = ⟨false, false⟩) :
      Took s (.select ready)
        { s with todo := ready, rounds := s.rounds ++ [ready] }
  | readSock {signals : List Signal} {sock : σ} {threads : Threads}
      (hsock : s.todo.sock = true) (hidle : s.threads.readerAt = .idle)
      (hread : sockCall p.client readSock junk s.sock = some (signals, sock))
      (hcall : s.threads.call signals = some threads) :
      Took s .readSock
        { s with
          threads := threads, sock := sock, todo := ⟨false, s.todo.mPipe⟩ }
  | readPipe {threads : Threads} (htodo : s.todo = ⟨false, true⟩)
      (hidle : s.threads.readerAt = .idle)
      (hcall : s.threads.call (pipeCall p.client readPipe stack s.pipe).1 =
        some threads) :
      Took s .readPipe
        { s with
          threads := threads
          pipe := (pipeCall p.client readPipe stack s.pipe).2
          todo := ⟨false, false⟩ }
  | thread {act : ThreadStep} {threads : Threads} (hinner : act.inner = true)
      (hthread : s.threads.step act = some threads) :
      Took s (.thread act) { s with threads := threads }
  | handle {text : List Byte} {reply : Option Reply} {pEv : Addr}
      {event : TGEvent} {ret : Int} {effects : List Effect}
      {threads : Threads} (hat : s.threads.responseAt = .handle pEv)
      (hcell : s.threads.queue.cells pEv = some event)
      (hhandle : handleResponse p ⟨event, text, reply⟩ = some (ret, effects))
      (hthread : s.threads.step .responseHandle = some threads) :
      Took s (.handle text reply)
        { s with
          threads := threads, turns := s.turns ++ [⟨event, text, reply⟩]
          effects := s.effects ++ effects, ended := exits effects }

variable {p readSock junk readPipe stack} in
theorem Session.step_took {s next : Session σ ρ} {act : SessionStep}
    (hstep : s.step p readSock junk readPipe stack act = some next) :
    s.ended = false ∧ s.Took p readSock junk readPipe stack act next := by
  unfold Session.step at hstep
  split at hstep
  · cases hstep
  next halive =>
  refine ⟨eq_false_of_ne_true halive, ?_⟩
  cases act with
  | select ready =>
      dsimp only at hstep
      split at hstep
      · next hat => exact Option.some.inj hstep ▸ .select ready hat.2
      · cases hstep
  | readSock =>
      dsimp only at hstep
      split at hstep
      · next hsock =>
        simp only [Option.bind_eq_bind, Option.bind_eq_some_iff] at hstep
        obtain ⟨⟨signals, sock'⟩, hread, hstep⟩ := hstep
        dsimp only at hstep
        split at hstep
        · next hidle =>
          rw [Option.bind_eq_some_iff] at hstep
          obtain ⟨threads, hcall, hnext⟩ := hstep
          exact Option.some.inj hnext ▸ .readSock hsock hidle hread hcall
        · cases hstep
      · cases hstep
  | readPipe =>
      dsimp only at hstep
      split at hstep
      · next hat =>
        simp only [Option.bind_eq_bind, Option.bind_eq_some_iff] at hstep
        obtain ⟨threads, hcall, hnext⟩ := hstep
        exact Option.some.inj hnext ▸ .readPipe hat.1 hat.2 hcall
      · cases hstep
  | thread act =>
      dsimp only at hstep
      split at hstep
      · next hinner =>
        obtain ⟨threads, hthread, hnext⟩ := Option.map_eq_some_iff.mp hstep
        exact hnext ▸ .thread hinner hthread
      · cases hstep
  | handle text reply =>
      dsimp only at hstep
      split at hstep
      · next pEv hat =>
        simp only [Option.bind_eq_bind, Option.bind_eq_some_iff] at hstep
        obtain ⟨event, hcell, ⟨ret, effects⟩, hhandle, threads, hthread,
          hnext⟩ := hstep
        exact Option.some.inj hnext ▸ .handle hat hcell hhandle hthread
      · cases hstep

end Machine

section Calls

variable {p : Child} {readSock : Descriptor σ} {junk : σ → Nat → Byte}
variable (readPipe : Descriptor ρ) (stack : ρ → List Byte)

theorem signalOf_cases (out : ReadOutcome) :
    signalOf out = [] ∨ ∃ signal, signalOf out = [signal] := by
  rw [signalOf]
  split
  · exact Or.inr ⟨_, rfl⟩
  · exact Or.inl rfl

theorem sockCall_cases {s s' : σ} {signals : List Signal}
    (hcall : sockCall p.client readSock junk s = some (signals, s')) :
    signals = [] ∨ ∃ signal, signals = [signal] := by
  obtain ⟨⟨out, s''⟩, -, hout⟩ := Option.map_eq_some_iff.mp hcall
  obtain ⟨rfl, -⟩ := Prod.mk.inj hout
  exact signalOf_cases out

theorem pipeCall_cases (at_ : ρ) :
    (pipeCall p.client readPipe stack at_).1 = [] ∨
      ∃ signal, (pipeCall p.client readPipe stack at_).1 = [signal] :=
  signalOf_cases _

/-- A call of `__send_thread_signal` adds its message to those sent. -/
theorem Threads.call_some {s next : Threads} {signals : List Signal}
    (hone : signals = [] ∨ ∃ signal, signals = [signal])
    (hidle : s.readerAt = .idle) (hcall : s.call signals = some next) :
    next.sent = s.sent ++ signals.map Signal.message ∧
      next.handled = s.handled := by
  rcases hone with rfl | ⟨signal, rfl⟩
  · rw [Threads.call, Option.some.injEq] at hcall
    rw [← hcall, List.map_nil, List.append_nil]
    exact ⟨rfl, rfl⟩
  · simp only [Threads.call, Threads.step, hidle, Option.some.injEq] at hcall
    subst hcall
    simp [Threads.sent, hidle, ReaderAt.pending]

end Calls

section Sequential

variable (p : Child) (readSock : Descriptor σ) (junk : σ → Nat → Byte)
variable (readPipe : Descriptor ρ) (stack : ρ → List Byte)
variable (sock : σ) (pipe : ρ)

/-- What was sent and what the rest of the round sends is what `__deamon_read`
sends alone; what was done is what `handle_response` does with the events one
after the other. -/
structure Session.Inv (s : Session σ ρ) : Prop where
  threads : s.threads.Consistent
  sent : ∀ later,
    (deamonRead p.client readSock junk readPipe stack (s.rounds ++ later)
      sock pipe).map (·.2.message) =
    s.threads.sent ++ (deamonReadLoop p.client readSock junk readPipe stack
      (s.todo :: later) s.sock s.pipe).map (·.2.message)
  handled : s.turns.map (·.event.message) = s.threads.handled
  effects : ∀ more, handleEvents p (s.turns ++ more) =
    if s.ended then s.effects else s.effects ++ handleEvents p more
  ended : s.ended = exits s.effects

variable {p readSock junk readPipe stack sock pipe}
variable {s next : Session σ ρ}

theorem Session.inv_start : Session.Inv p readSock junk readPipe stack sock
    pipe (session p readSock junk readPipe stack sock pipe).start where
  threads := ⟨[], Threads.inv_start⟩
  sent := fun _ => rfl
  handled := rfl
  effects := fun _ => rfl
  ended := rfl

/-- A step of the threads that neither calls nor handles. -/
theorem Session.Inv.thread
    (hinv : s.Inv p readSock junk readPipe stack sock pipe)
    {act : ThreadStep} (hinner : act.inner = true) {threads : Threads}
    (hstep : s.threads.step act = some threads) :
    Session.Inv p readSock junk readPipe stack sock pipe
      { s with threads := threads } where
  threads := by
    obtain ⟨content, hcontent⟩ := hinv.threads
    exact hcontent.step hstep
  sent := by
    intro later
    rw [hinv.sent, ← Threads.step_sent hstep]
    rintro message rfl
    cases hinner
  handled := by
    rw [hinv.handled]
    refine (Threads.step_handled hstep ?_).symm
    rintro rfl
    cases hinner
  effects := hinv.effects
  ended := hinv.ended

theorem Session.Inv.select
    (hinv : s.Inv p readSock junk readPipe stack sock pipe)
    (htodo : s.todo = ⟨false, false⟩) (ready : Ready) :
    Session.Inv p readSock junk readPipe stack sock pipe
      { s with todo := ready, rounds := s.rounds ++ [ready] } where
  threads := hinv.threads
  sent := by
    intro later
    have hsent := hinv.sent (ready :: later)
    rw [htodo, deamonReadLoop] at hsent
    rw [List.append_assoc, List.singleton_append, hsent]
    rfl
  handled := hinv.handled
  effects := hinv.effects
  ended := hinv.ended

theorem Session.Inv.call
    (hinv : s.Inv p readSock junk readPipe stack sock pipe)
    {signals : List Signal} {threads : Threads}
    (hcall : s.threads.call signals = some threads) : threads.Consistent := by
  obtain ⟨content, hcontent⟩ := hinv.threads
  cases signals with
  | nil => exact ⟨content, Option.some.inj hcall ▸ hcontent⟩
  | cons signal _ =>
      have hstep : s.threads.step (.readerCall signal.message) =
          some threads := hcall
      exact hcontent.step hstep

theorem Session.Inv.sockRead
    (hinv : s.Inv p readSock junk readPipe stack sock pipe)
    (hsock : s.todo.sock = true) (hidle : s.threads.readerAt = .idle)
    {signals : List Signal} {sock' : σ} {threads : Threads}
    (hread : sockCall p.client readSock junk s.sock = some (signals, sock'))
    (hcall : s.threads.call signals = some threads) :
    Session.Inv p readSock junk readPipe stack sock pipe
      { s with
        threads := threads, sock := sock', todo := ⟨false, s.todo.mPipe⟩ } where
  threads := hinv.call hcall
  sent := by
    intro later
    obtain ⟨hsent, -⟩ :=
      Threads.call_some (sockCall_cases hread) hidle hcall
    rw [hinv.sent, hsent, deamonReadLoop, deamonReadLoop]
    simp [hsock, hread]
  handled := by
    rw [hinv.handled]
    exact (Threads.call_some (sockCall_cases hread) hidle hcall).2.symm
  effects := hinv.effects
  ended := hinv.ended

theorem Session.Inv.pipeRead
    (hinv : s.Inv p readSock junk readPipe stack sock pipe)
    (htodo : s.todo = ⟨false, true⟩) (hidle : s.threads.readerAt = .idle)
    {threads : Threads}
    (hcall : s.threads.call (pipeCall p.client readPipe stack s.pipe).1 =
      some threads) :
    Session.Inv p readSock junk readPipe stack sock pipe
      { s with
        threads := threads
        pipe := (pipeCall p.client readPipe stack s.pipe).2
        todo := ⟨false, false⟩ } where
  threads := hinv.call hcall
  sent := by
    intro later
    obtain ⟨hsent, -⟩ := Threads.call_some
      (pipeCall_cases readPipe stack s.pipe) hidle hcall
    rw [hinv.sent, hsent, htodo, deamonReadLoop, deamonReadLoop]
    simp
  handled := by
    rw [hinv.handled]
    exact (Threads.call_some (pipeCall_cases readPipe stack s.pipe) hidle
      hcall).2.symm
  effects := hinv.effects
  ended := hinv.ended

theorem Session.Inv.handle
    (hinv : s.Inv p readSock junk readPipe stack sock pipe)
    (halive : s.ended = false) {pEv : Addr} {event : TGEvent}
    (hat : s.threads.responseAt = .handle pEv)
    (hcell : s.threads.queue.cells pEv = some event)
    {text : List Byte} {reply : Option Reply} {ret : Int}
    {effects : List Effect}
    (hhandle : handleResponse p ⟨event, text, reply⟩ = some (ret, effects))
    {threads : Threads}
    (hstep : s.threads.step .responseHandle = some threads) :
    Session.Inv p readSock junk readPipe stack sock pipe
      { s with
        threads := threads, turns := s.turns ++ [⟨event, text, reply⟩]
        effects := s.effects ++ effects, ended := exits effects } where
  threads := by
    obtain ⟨content, hcontent⟩ := hinv.threads
    exact hcontent.step hstep
  sent := by
    intro later
    rw [hinv.sent, ← Threads.step_sent hstep (by simp)]
  handled := by
    rw [Threads.handled_snoc hat hcell hstep, List.map_append, hinv.handled]
    rfl
  effects := by
    intro more
    have hrun := hinv.effects (⟨event, text, reply⟩ :: more)
    rw [halive] at hrun
    simp only [Bool.false_eq_true, ↓reduceIte, handleEvents, hhandle] at hrun
    rw [List.append_assoc, List.singleton_append, hrun]
    cases hexits : exits effects <;> simp
  ended := by
    have hnone := hinv.ended
    rw [halive] at hnone
    rw [exits_append, ← hnone, Bool.false_or]

theorem Session.Inv.step
    (hinv : s.Inv p readSock junk readPipe stack sock pipe)
    {act : SessionStep}
    (hstep : s.step p readSock junk readPipe stack act = some next) :
    next.Inv p readSock junk readPipe stack sock pipe := by
  obtain ⟨halive, htook⟩ := Session.step_took hstep
  cases htook with
  | select ready htodo => exact hinv.select htodo ready
  | readSock hsock hidle hread hcall =>
      exact hinv.sockRead hsock hidle hread hcall
  | readPipe htodo hidle hcall => exact hinv.pipeRead htodo hidle hcall
  | thread hinner hthread => exact hinv.thread hinner hthread
  | handle hat hcell hhandle hthread =>
      exact hinv.handle halive hat hcell hhandle hthread

theorem session_inv
    (hreach : (session p readSock junk readPipe stack sock pipe).Reachable s) :
    s.Inv p readSock junk readPipe stack sock pipe := by
  apply hreach.invariant Session.inv_start
  intro state act next hinv hstep
  exact hinv.step hstep

/-- What was handled was sent by the reading loop. -/
theorem session_handled
    (hreach : (session p readSock junk readPipe stack sock pipe).Reachable s) :
    s.turns.map (·.event.message) <+:
      (deamonRead p.client readSock junk readPipe stack s.rounds sock
        pipe).map (·.2.message) := by
  have hinv := session_inv hreach
  have hsent := hinv.sent []
  rw [List.append_nil] at hsent
  rw [hinv.handled, hsent]
  exact hinv.threads.handled_prefix.trans (List.prefix_append _ _)

/-- Whatever the order in which the two threads take their steps, the turns
handled so far are the first of the events that `__deamon_read` sends for what
`select` returned so far, the process has done to the outside what it would do
handling them one after the other, and it has ended when that does. -/
theorem session_sequential {calls : List ServiceCall} {g : Registry}
    (hinit : initAllServices p.registry = some (calls, g))
    (hreach : (session p readSock junk readPipe stack sock pipe).Reachable s) :
    s.turns.map (·.event.message) <+:
      (deamonRead p.client readSock junk readPipe stack s.rounds sock
        pipe).map (·.2.message) ∧
    doRequest p s.turns = some (calls.map .call ++ s.effects) ∧
    s.ended = exits s.effects := by
  have hinv := session_inv hreach
  refine ⟨session_handled hreach, ?_, hinv.ended⟩
  have hrun := hinv.effects []
  have hnil : handleEvents p [] = [] := rfl
  rw [List.append_nil, hnil, List.append_nil, ite_self] at hrun
  rw [doRequest, hinit, hrun]
  rfl

end Sequential

namespace Session

open ClientLife (child)

/-- The client has closed the connection and the pipe is silent. -/
def closed : Descriptor Unit := fun s _ => (.data [], s)

def threadSteps (acts : List ThreadStep) : List SessionStep :=
  acts.map .thread

/-- While the start signal is handled, the reader thread meets the end of the
socket. -/
def steps : List SessionStep :=
  threadSteps [.readerLock, .readerPush 1, .readerSignal, .readerUnlock,
      .responseCreate, .responseLock, .responseHead] ++
    [.select ⟨true, false⟩, .readSock] ++
    threadSteps [.responseUnlock, .readerLock] ++ [.handle [] none] ++
    threadSteps [.readerPush 2, .readerSignal, .readerUnlock, .responseFree,
      .responseLock, .responseHead, .responseUnlock] ++ [.handle [] none]

theorem session_sequential_steps :
    ∃ calls g s, initAllServices child.registry = some (calls, g) ∧
      (session child closed (fun _ _ => 0) closed (fun _ => []) () ()).run
        (session child closed (fun _ _ => 0) closed (fun _ => []) () ()).start
        steps = some s ∧ s.ended = true ∧
      s.turns.map (·.event.message) <+:
        (deamonRead child.client closed (fun _ _ => 0) closed (fun _ => [])
          s.rounds () ()).map (·.2.message) ∧
      doRequest child s.turns = some (calls.map .call ++ s.effects) ∧
      s.ended = exits s.effects :=
  ⟨_, _, _, rfl, rfl, rfl, session_sequential rfl ⟨steps, rfl⟩⟩

end Session

end TgServer
