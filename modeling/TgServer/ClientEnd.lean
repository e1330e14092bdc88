/-
Why a client process ends: the machine of the main process writes the pipe that
the machine of the client process reads, and the process exits at the end of
its own connection or at an order executed for it, and at nothing else.
-/
import TgServer.MainProcess
import TgServer.QuitOnce
import TgServer.SessionProgress

namespace TgServer

open Bytes ByteStream Transition

variable {σ ρ : Type}

section Signals

variable {client : TGClient} {readSock : Descriptor σ}
variable {junk : σ → Nat → Byte}

/-- The types `read_data_from_cli` gives. -/
def FromSocket (type : Int) : Prop :=
  type = msgTypeClientQuit ∨ type = msgTypeClientRequest ∨
    type = msgTypeDataLengthError

theorem restOutcome_type {ppData : Option (List Byte)}
    {result : Option (List Byte) × σ} {out : ReadOutcome} {s : σ}
    (hout : restOutcome ppData result = (out, s)) :
    FromSocket out.pType := by
  obtain ⟨block, fd⟩ := result
  cases block with
  | none =>
      obtain ⟨rfl, -⟩ := Prod.mk.inj hout
      exact Or.inl rfl
  | some pDataBuf =>
      obtain ⟨rfl, -⟩ := Prod.mk.inj hout
      exact Or.inr (Or.inl rfl)

theorem readDataFromCli_type {s s' : σ} {out : ReadOutcome}
    (hread : readDataFromCli (some client) readSock junk s 0 none =
      some (out, s')) :
    out.ret = -1 ∨ FromSocket out.pType := by
  rw [readDataFromCli] at hread
  split at hread
  · obtain ⟨rfl, -⟩ := Prod.mk.inj (Option.some.inj hread)
    exact Or.inl rfl
  refine Or.inr ?_
  split at hread
  · obtain ⟨rfl, -⟩ := Prod.mk.inj (Option.some.inj hread)
    exact Or.inl rfl
  split at hread
  · obtain ⟨rfl, -⟩ := Prod.mk.inj (Option.some.inj hread)
    exact Or.inl rfl
  split at hread
  · obtain ⟨rfl, -⟩ := Prod.mk.inj (Option.some.inj hread)
    exact Or.inr (Or.inr rfl)
  split at hread
  · simp only [readLong, Option.bind_eq_some_iff, Option.map_eq_some_iff]
      at hread
    obtain ⟨-, -, -, -, -, -, result, -, hout⟩ := hread
    exact restOutcome_type hout
  · simp only [readShort, Option.bind_eq_some_iff, Option.map_eq_some_iff]
      at hread
    obtain ⟨-, -, -, -, block, -, hout⟩ := hread
    obtain ⟨rfl, -⟩ := Prod.mk.inj hout
    exact Or.inr (Or.inl rfl)

theorem sockSignals_type {n : Nat} {s : σ} {signal : Signal}
    (hmem : signal ∈ sockSignals client readSock junk n s) :
    FromSocket signal.type := by
  induction n generalizing s with
  | zero => cases hmem
  | succ n ih =>
      rw [sockSignals] at hmem
      cases hcall : sockCall client readSock junk s with
      | none =>
          rw [hcall] at hmem
          cases hmem
      | some called =>
          rw [hcall] at hmem
          rcases List.mem_append.mp hmem with hhere | hlater
          · obtain ⟨⟨out, s'⟩, hread, rfl⟩ := Option.map_eq_some_iff.mp hcall
            change signal ∈ signalOf out at hhere
            rw [signalOf] at hhere
            split at hhere
            · next hret =>
              rw [List.mem_singleton] at hhere
              rw [hhere]
              exact (readDataFromCli_type hread).resolve_left hret
            · cases hhere
          · exact ih hlater

/-- Of these only one ends the process. -/
theorem FromSocket.quit {type : Int} (hfrom : FromSocket type)
    (hterminating : terminating type = true) : type = msgTypeClientQuit := by
  rcases hfrom with htype | htype | htype
  · exact htype
  · rw [htype] at hterminating
    cases hterminating
  · rw [htype] at hterminating
    cases hterminating

theorem dispatched_of_terminating {type : Int}
    (hterminating : terminating type = true) : dispatched type = true := by
  simp only [terminating, Bool.or_eq_true, beq_iff_eq] at hterminating
  rcases hterminating with (rfl | rfl) | rfl <;> decide

theorem Order.terminating_type (order : Order) :
    terminating order.type = true := by
  cases order <;> rfl

variable (readPipe : Descriptor ρ) (stack : ρ → List Byte)

/-- Every signal but the first comes from one of the descriptors. -/
theorem deamonReadLoop_origin (rounds : List Ready) (s : σ) (p : ρ)
    {sent : Origin × Signal}
    (hmem : sent ∈ deamonReadLoop client readSock junk readPipe stack rounds
      s p) : sent.1 ≠ .start := by
  induction rounds generalizing s p with
  | nil => cases hmem
  | cons ready rest ih =>
      rw [deamonReadLoop] at hmem
      split at hmem
      · cases hmem
      simp only [List.mem_append, List.mem_map] at hmem
      rcases hmem with (⟨signal, -, rfl⟩ | ⟨signal, -, rfl⟩) | hlater
      · exact Origin.noConfusion
      · exact Origin.noConfusion
      · exact ih _ _ hlater

/-- A signal that ends the process is the quit of its own client or came
through the pipe. -/
theorem deamonRead_terminating {rounds : List Ready} {s : σ} {p : ρ}
    {signal : Signal} (hterminating : terminating signal.type = true)
    (hmem : signal ∈ (deamonRead client readSock junk readPipe stack rounds
      s p).map (·.2)) :
    (signal ∈ signalsFrom .client
        (deamonRead client readSock junk readPipe stack rounds s p) ∧
      signal.type = msgTypeClientQuit) ∨
    signal ∈ signalsFrom .mainProcess
      (deamonRead client readSock junk readPipe stack rounds s p) := by
  obtain ⟨⟨origin, signal'⟩, hsent, rfl⟩ := List.mem_map.mp hmem
  have hfrom : signal' ∈ signalsFrom origin
      (deamonRead client readSock junk readPipe stack rounds s p) :=
    List.mem_map.mpr ⟨_, List.mem_filter.mpr ⟨hsent, by simp⟩, rfl⟩
  cases origin with
  | start =>
      rcases List.mem_cons.mp hsent with hfirst | hlater
      · obtain ⟨-, rfl⟩ := Prod.mk.inj hfirst
        cases hterminating
      · exact absurd rfl (deamonReadLoop_origin readPipe stack _ _ _ hlater)
  | client =>
      refine Or.inl ⟨hfrom, ?_⟩
      rw [deamonRead_client] at hfrom
      exact (sockSignals_type hfrom).quit hterminating
  | mainProcess => exact Or.inr hfrom

end Signals

/-- Further calls only add signals. -/
theorem pipeSignals_mono (client : TGClient) (readPipe : Descriptor ρ)
    (stack : ρ → List Byte) (n k : Nat) (p : ρ) :
    pipeSignals client readPipe stack n p <+:
      pipeSignals client readPipe stack (n + k) p := by
  induction n generalizing p with
  | zero => exact List.nil_prefix
  | succ n ih =>
      rw [Nat.succ_add, pipeSignals, pipeSignals]
      exact (List.prefix_append_right_inj _).mpr (ih _)

namespace Session

/-- Nothing that was handled before the last event ended the process. -/
structure EndsLast (s : Session σ ρ) : Prop where
  accounted : s.Accounted
  last : s.ended = true → ∃ front turn, s.turns = front ++ [turn] ∧
    (front.any fun turn => terminating turn.event.type) = false ∧
    terminating turn.event.type = true

section Runs

variable {p : Child} {services : List TGService}
variable (hservices : loadedServices p.registry = some services)
variable {readSock : Descriptor σ} {junk : σ → Nat → Byte}
variable {readPipe : Descriptor ρ} {stack : ρ → List Byte}
variable {sock : σ} {pipe : ρ} {s next : Session σ ρ} {act : SessionStep}

include hservices

theorem EndsLast.step (hlast : s.EndsLast)
    (hstep : s.step p readSock junk readPipe stack act = some next) :
    next.EndsLast := by
  have hnext := hlast.accounted.step hservices hstep
  refine ⟨hnext, fun hended => ?_⟩
  obtain ⟨halive, htook⟩ := Session.step_took hstep
  have hnone := hlast.accounted.ended
  rw [halive] at hnone
  cases htook with
  | select | readSock | readPipe | thread =>
      rw [halive] at hended
      cases hended
  | handle hat hcell hhandle hthread =>
      have hsome := hnext.ended
      rw [hended, List.any_append, ← hnone, Bool.false_or] at hsome
      refine ⟨_, _, rfl, hnone.symm, ?_⟩
      simpa using hsome.symm

theorem endsLast_reachable
    (hreach : (session p readSock junk readPipe stack sock pipe).Reachable s) :
    s.EndsLast := by
  apply hreach.invariant
  · exact ⟨⟨Threads.sound_start, rfl, rfl⟩, fun hended => by cases hended⟩
  · intro state act next hlast hstep
    exact hlast.step hservices hstep

/-- A process that has ended did so at its last event, and the reading loop
sent that one. -/
theorem last_turn
    (hreach : (session p readSock junk readPipe stack sock pipe).Reachable s)
    (hended : s.ended = true) :
    ∃ front last, s.turns = front ++ [last] ∧
      (∀ turn ∈ front, terminating turn.event.type = false) ∧
      ∃ signal ∈ (deamonRead p.client readSock junk readPipe stack s.rounds
          sock pipe).map (·.2),
        terminating signal.type = true ∧
          last.event.message = signal.message := by
  obtain ⟨front, last, hturns, hfront, hlast⟩ :=
    (endsLast_reachable hservices hreach).last hended
  refine ⟨front, last, hturns, ?_, ?_⟩
  · intro turn hturn
    exact eq_false_of_ne_true fun htrue =>
      Bool.eq_false_iff.mp hfront (List.any_eq_true.mpr ⟨turn, hturn, htrue⟩)
  · have hmem : last.event.message ∈
        (deamonRead p.client readSock junk readPipe stack s.rounds sock
          pipe).map (·.2.message) :=
      (session_handled hreach).subset (by rw [hturns]; simp)
    obtain ⟨sent, hsent, hmessage⟩ := List.mem_map.mp hmem
    refine ⟨sent.2, List.mem_map_of_mem hsent, ?_, hmessage.symm⟩
    have htype : sent.2.type = last.event.type :=
      congrArg Prod.fst hmessage
    rw [htype]
    exact hlast

end Runs

end Session

section Told

variable {inherited : SigNo → Disposition} {stack : Nat → List Byte}
variable {g : Globals} (hempty : HoldsMap g fun _ => none)
variable {readFifo : Descriptor Nat} {s : MainProcess} {client : TGClient}
variable {p : Child} {services : List TGService}
variable (hservices : loadedServices p.registry = some services)
variable (hpipe : 0 ≤ p.client.readPipe) (readSock : Descriptor σ)
variable (junk : σ → Nat → Byte) (pipeAvail : Nat → Nat)
variable (behind : Nat → List Byte) (sock : σ) {c : Session σ Nat}

include hempty hservices hpipe

/-- Whatever the main process, the reads and the threads do, the event at which
a client process ends is the end of its own connection or an order executed for
this client since it was accepted. -/
theorem clientProcess_told (hfew : ∀ offset, FewDigits (behind offset))
    (hmain : (mainProcess inherited readFifo stack g).Reachable s)
    (hclient : client ∈ s.globals.clients)
    (hreach : (session p readSock junk
      (Source.read ⟨s.contents client.writePipe, pipeAvail⟩) behind sock
      0).Reachable c)
    (hended : c.ended = true) :
    ∃ front last, c.turns = front ++ [last] ∧
      (∀ turn ∈ front, terminating turn.event.type = false) ∧
      ((∃ signal ∈ signalsFrom .client (deamonRead p.client readSock junk
            (Source.read ⟨s.contents client.writePipe, pipeAvail⟩) behind
            c.rounds sock 0),
          signal.type = msgTypeClientQuit ∧
            last.event.message = signal.message) ∨
        ∃ order ∈ s.due client,
          last.event.message = order.signal.message) := by
  obtain ⟨front, last, hturns, hfront, signal, hsent, hterminating, hmessage⟩ :=
    Session.last_turn hservices hreach hended
  refine ⟨front, last, hturns, hfront, ?_⟩
  rcases deamonRead_terminating _ behind hterminating hsent with
    ⟨hfrom, hquit⟩ | hfrom
  · exact Or.inl ⟨signal, hfrom, hquit, hmessage⟩
  · have hordered :=
      (MainProcess.inv_reachable hempty hmain).ordered client hclient
    have hmem : signal ∈ (s.due client).map Order.signal :=
      (hordered.sublist hpipe readSock junk pipeAvail hfew c.rounds
        sock).subset (List.mem_filter.mpr
          ⟨hfrom, dispatched_of_terminating hterminating⟩)
    obtain ⟨order, hdue, rfl⟩ := List.mem_map.mp hmem
    exact Or.inr ⟨order, hdue, hmessage⟩

/-- A client process whose pipe has a reader while orders are sent, and that
reads them one at a time, has exited when it is left with nothing to do if and
only if an order was executed for it or its connection has ended. -/
theorem clientProcess_obeys
    (hmain : (mainProcess inherited readFifo stack g).GuardedReachable
      (MainProcess.KeepsReader client.pid) s) (halive : s.alive = true)
    (hclient : client ∈ s.globals.clients)
    (haligned : OrdersAligned ⟨s.contents client.writePipe, pipeAvail⟩ behind 0
      (s.due client))
    (hreach : (session p readSock junk
      (Source.read ⟨s.contents client.writePipe, pipeAvail⟩) behind sock
      0).Reachable c)
    (hreturns : ∀ message ∈ c.threads.sent, Returns p message)
    (hidle : c.todo = ⟨false, false⟩)
    (hstuck : ∀ act : SessionStep, act.own = true →
      c.step p readSock junk (Source.read ⟨s.contents client.writePipe,
        pipeAvail⟩) behind act = none)
    (henough : c.ended = false → 10 * (s.due client).length ≤
      (liveRounds p.client readSock junk c.rounds sock).countP Ready.mPipe) :
    c.ended = true ↔ s.due client ≠ [] ∨
      ∃ signal ∈ signalsFrom .client (deamonRead p.client readSock junk
          (Source.read ⟨s.contents client.writePipe, pipeAvail⟩) behind
          c.rounds sock 0), signal.type = msgTypeClientQuit := by
  have hat : At ⟨s.contents client.writePipe, pipeAvail⟩ 0 0 (s.due client) :=
    ⟨MainProcess.contents_due hempty hmain halive hclient, Nat.zero_le _⟩
  constructor
  · intro hended
    obtain ⟨-, -, -, -, signal, hsent, hterminating, -⟩ :=
      Session.last_turn hservices hreach hended
    rcases deamonRead_terminating _ behind hterminating hsent with
      ⟨hfrom, hquit⟩ | hfrom
    · exact Or.inr ⟨signal, hfrom, hquit⟩
    · left
      intro hnone
      rw [deamonRead_mainProcess] at hfrom
      have hmore := (pipeSignals_mono p.client _ behind _
        (10 * (s.due client).length) 0).subset hfrom
      rw [(pipeSignals_orders hpipe _ behind hat
        (Nat.le_add_left _ _)).mpr haligned, hnone] at hmore
      cases hmore
  · intro hcause
    by_contra hnot
    have hended : c.ended = false := eq_false_of_ne_true hnot
    have hacc := (Session.endsLast_reachable hservices hreach).accounted
    have hdrained := (hacc.stuck hreturns hstuck).resolve_left hnot
    have hsent := (session_inv hreach).sent []
    rw [hidle, List.append_nil] at hsent
    have hall : (deamonRead p.client readSock junk
        (Source.read ⟨s.contents client.writePipe, pipeAvail⟩) behind
        c.rounds sock 0).map (·.2.message) = c.threads.handled := by
      rw [hsent, hdrained.handled]
      exact List.append_nil _
    have hquiet : ∀ origin, ∀ signal ∈ signalsFrom origin
        (deamonRead p.client readSock junk
          (Source.read ⟨s.contents client.writePipe, pipeAvail⟩) behind
          c.rounds sock 0), terminating signal.type = false := by
      intro origin signal hfrom
      apply eq_false_of_ne_true
      intro hterminating
      obtain ⟨sent, hmem, rfl⟩ := List.mem_map.mp hfrom
      have hhandled : sent.2.message ∈ c.threads.handled := by
        rw [← hall]
        exact List.mem_map_of_mem (List.mem_of_mem_filter hmem)
      have hends := hacc.ended
      rw [Session.handled_ended hacc.handled, hended, eq_comm,
        List.any_eq_false] at hends
      exact hends _ hhandled hterminating
    rcases hcause with hdue | ⟨signal, hfrom, hquit⟩
    · obtain ⟨order, hmem⟩ := List.exists_mem_of_ne_nil _ hdue
      have hfrom := (pipeSignals_orders hpipe _ behind hat
        (henough hended)).mpr haligned
      have hquietOrder := hquiet .mainProcess order.signal (by
        rw [deamonRead_mainProcess, hfrom]
        exact List.mem_map_of_mem hmem)
      rw [Order.signal, order.terminating_type] at hquietOrder
      cases hquietOrder
    · have hquietQuit := hquiet .client signal hfrom
      rw [hquit] at hquietQuit
      cases hquietQuit

end Told

namespace ClientEnd

open ClientLife (child)
open ControlPipe (closedSock)
open MainProcess (acts acts_guarded server server_empty)
open Session (threadSteps)

/-- What the main process has written comes one message at a time. -/
def reads (s : MainProcess) : Descriptor Nat :=
  Source.read ⟨s.contents MainProcess.client.writePipe, fun _ => 10⟩

def process (s : MainProcess) : Machine (Session Unit Nat) SessionStep :=
  session child closedSock (fun _ _ => 7) (reads s) (fun _ => [0]) () 0

/-- The first order is read while the start signal is still queued. -/
def steps : List SessionStep :=
  threadSteps [.readerLock, .readerPush 1, .readerSignal, .readerUnlock] ++
    [.select ⟨false, true⟩, .readPipe] ++
    threadSteps [.readerLock, .readerPush 2, .readerSignal, .readerUnlock,
      .responseCreate, .responseLock, .responseHead, .responseUnlock] ++
    [.handle [] none] ++
    threadSteps [.responseFree, .responseLock, .responseHead,
      .responseUnlock] ++ [.handle [] none]

theorem steps_run : ∃ s c, server.run server.start acts = some s ∧
    s.alive = true ∧ MainProcess.client ∈ s.globals.clients ∧
    s.due MainProcess.client = [.close, .shutDown] ∧
    (process s).run (process s).start steps = some c ∧ c.ended = true ∧
    c.todo = ⟨false, false⟩ ∧
    c.threads.sent = [clientInit, (msgTypeClientBeClosedByAdmin, none)] := by
  have hcheck : (server.run server.start acts).any (fun s =>
      decide (s.alive = true ∧ MainProcess.client ∈ s.globals.clients ∧
        s.due MainProcess.client = [.close, .shutDown]) &&
      ((process s).run (process s).start steps).any (fun c =>
        decide (c.ended = true ∧ c.todo = ⟨false, false⟩ ∧ c.threads.sent =
          [clientInit, (msgTypeClientBeClosedByAdmin, none)]))) = true := by
    decide +kernel
  obtain ⟨s, hrun, hat⟩ := (Option.any_eq_true _ _).mp hcheck
  obtain ⟨hmain, hsession⟩ := Bool.and_eq_true_iff.mp hat
  obtain ⟨halive, hclient, hdue⟩ := of_decide_eq_true hmain
  obtain ⟨c, hsteps, hthere⟩ := (Option.any_eq_true _ _).mp hsession
  obtain ⟨hended, htodo, hsent⟩ := of_decide_eq_true hthere
  exact ⟨s, c, hrun, halive, hclient, hdue, hsteps, hended, htodo, hsent⟩

theorem clientProcess_told_steps :
    ∃ s c, server.run server.start acts = some s ∧
      (process s).run (process s).start steps = some c ∧ c.ended = true ∧
      ∃ front last, c.turns = front ++ [last] ∧
        (∀ turn ∈ front, terminating turn.event.type = false) ∧
        ((∃ signal ∈ signalsFrom .client (deamonRead child.client closedSock
              (fun _ _ => 7) (reads s) (fun _ => [0]) c.rounds () 0),
            signal.type = msgTypeClientQuit ∧
              last.event.message = signal.message) ∨
          ∃ order ∈ s.due MainProcess.client,
            last.event.message = order.signal.message) := by
  obtain ⟨s, c, hrun, -, hclient, -, hsteps, hended, -⟩ := steps_run
  exact ⟨s, c, hrun, hsteps, hended, clientProcess_told server_empty rfl
    (by decide) closedSock (fun _ _ => 7) (fun _ => 10) (fun _ => [0]) ()
    (fun _ => by decide) ⟨acts, hrun⟩ hclient ⟨steps, hsteps⟩ hended⟩

/-- The handlers of these events return. -/
theorem sent_returns : ∀ message ∈
    [clientInit, (msgTypeClientBeClosedByAdmin, none)],
    Returns child message := by
  intro message hmem event hevent
  refine ⟨[], none, ?_⟩
  obtain ⟨token, type, data, pNext⟩ := event
  rw [handleResponse_eq]
  simp only [List.mem_cons, List.not_mem_nil, or_false] at hmem
  rcases hmem with rfl | rfl
  · obtain ⟨rfl, rfl⟩ := Prod.mk.inj hevent
    exact Option.some_ne_none _
  · obtain ⟨rfl, rfl⟩ := Prod.mk.inj hevent
    exact Option.some_ne_none _

theorem clientProcess_obeys_steps :
    ∃ s c, server.run server.start acts = some s ∧
      (process s).run (process s).start steps = some c ∧
      (c.ended = true ↔ s.due MainProcess.client ≠ [] ∨
        ∃ signal ∈ signalsFrom .client (deamonRead child.client closedSock
          (fun _ _ => 7) (reads s) (fun _ => [0]) c.rounds () 0),
          signal.type = msgTypeClientQuit) := by
  obtain ⟨s, c, hrun, halive, hclient, hdue, hsteps, hended, htodo, hsent⟩ :=
    steps_run
  have haligned : OrdersAligned ⟨s.contents MainProcess.client.writePipe,
      fun _ => 10⟩ (fun _ => [0]) 0 (s.due MainProcess.client) := by
    rw [MainProcess.contents_due server_empty ⟨acts, acts_guarded, hrun⟩
      halive hclient, hdue]
    exact ⟨rfl, rfl, rfl, rfl, trivial⟩
  refine ⟨s, c, hrun, hsteps, clientProcess_obeys server_empty rfl (by decide)
    closedSock (fun _ _ => 7) (fun _ => 10) (fun _ => [0]) ()
    ⟨acts, acts_guarded, hrun⟩ halive hclient haligned ⟨steps, hsteps⟩
    (hsent ▸ sent_returns) htodo (fun act _ => if_pos hended) ?_⟩
  intro hnot
  rw [hended] at hnot
  cases hnot

end ClientEnd

end TgServer
