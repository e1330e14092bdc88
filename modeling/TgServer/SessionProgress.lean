/-
What a client process comes to when nothing more arrives: whatever the schedule
of its threads, it handles what was sent and exits if and only if an event that
ends it was among that.
-/
import TgServer.Session

namespace TgServer

open Bytes ByteStream Transition

variable {σ ρ : Type}

/-- The steps that wait for nothing from outside. -/
def SessionStep.own : SessionStep → Bool
  | .thread act => act.own
  | .handle _ _ => true
  | .select _ | .readSock | .readPipe => false

/-- The handler of the message returns, or exits, for some reply of the service
and some contents of its stack. -/
def Returns (p : Child) (message : Message) : Prop :=
  ∀ event : TGEvent, event.message = message →
    ∃ text reply, handleResponse p ⟨event, text, reply⟩ ≠ none

namespace Session

/-- The account of the events, and what was handled so far. -/
structure Accounted (s : Session σ ρ) : Prop where
  sound : s.threads.Sound
  handled : s.turns.map (·.event.message) = s.threads.handled
  ended : s.ended = s.turns.any fun turn => terminating turn.event.type

/-- The first list goes with the second one. -/
theorem handled_ended {turns : List Turn} {messages : List Message}
    (hturns : turns.map (·.event.message) = messages) :
    (turns.any fun turn => terminating turn.event.type) =
      messages.any fun message => terminating message.1 := by
  rw [← hturns, List.any_map]
  rfl

section Steps

variable {p : Child} {readSock : Descriptor σ} {junk : σ → Nat → Byte}
variable {readPipe : Descriptor ρ} {stack : ρ → List Byte}
variable {s next : Session σ ρ} {act : SessionStep}

theorem sound_call {threads threads' : Threads} (hsound : threads.Sound)
    {signals : List Signal} (hcall : threads.call signals = some threads') :
    threads'.Sound := by
  cases signals with
  | nil => exact Option.some.inj hcall ▸ hsound
  | cons signal _ =>
      have hstep : threads.step (.readerCall signal.message) =
          some threads' := hcall
      exact hsound.step hstep

theorem Accounted.step {services : List TGService}
    (hservices : loadedServices p.registry = some services)
    (hacc : s.Accounted)
    (hstep : s.step p readSock junk readPipe stack act = some next) :
    next.Accounted := by
  obtain ⟨halive, htook⟩ := Session.step_took hstep
  cases htook with
  | select ready htodo => exact ⟨hacc.sound, hacc.handled, hacc.ended⟩
  | readSock hsock hidle hread hcall =>
      obtain ⟨-, hsame⟩ :=
        Threads.call_some (sockCall_cases hread) hidle hcall
      exact ⟨sound_call hacc.sound hcall, hacc.handled.trans hsame.symm,
        hacc.ended⟩
  | readPipe htodo hidle hcall =>
      obtain ⟨-, hsame⟩ := Threads.call_some
        (pipeCall_cases readPipe stack s.pipe) hidle hcall
      exact ⟨sound_call hacc.sound hcall, hacc.handled.trans hsame.symm,
        hacc.ended⟩
  | @thread act threads hinner hthread =>
      have hother : act ≠ .responseHandle := by
        rintro rfl
        cases hinner
      have hsame := Threads.step_handled hthread hother
      exact ⟨hacc.sound.step hthread, hacc.handled.trans hsame.symm,
        hacc.ended⟩
  | handle hat hcell hhandle hthread =>
      refine ⟨hacc.sound.step hthread, ?_, ?_⟩
      · dsimp only
        rw [List.map_append, hacc.handled,
          Threads.handled_snoc hat hcell hthread]
        rfl
      · have hends :=
          (handleResponse_handled hservices hhandle).summary.2.2
        dsimp only at hends ⊢
        rw [List.any_append, ← hacc.ended, halive, hends, Bool.false_or]
        exact (Bool.or_false _).symm

/-- A step of the code uses up work and sends nothing. -/
theorem Accounted.own (hacc : s.Accounted) (hown : act.own = true)
    (hstep : s.step p readSock junk readPipe stack act = some next) :
    next.threads.sent = s.threads.sent ∧
      next.threads.work < s.threads.work := by
  obtain ⟨-, htook⟩ := Session.step_took hstep
  cases htook with
  | select | readSock | readPipe => cases hown
  | thread _ htaken => exact hacc.sound.own hown htaken
  | handle _ _ _ htaken => exact hacc.sound.own rfl htaken

/-- A process that cannot go on has exited, or its threads have nothing left
to do. -/
theorem Accounted.stuck (hacc : s.Accounted)
    (hreturns : ∀ message ∈ s.threads.sent, Returns p message)
    (hstuck : ∀ act : SessionStep, act.own = true →
      s.step p readSock junk readPipe stack act = none) :
    s.ended = true ∨ s.threads.Drained s.threads.sent := by
  by_cases hended : s.ended = true
  · exact Or.inl hended
  · obtain ⟨content, hinv, howned⟩ := hacc.sound
    refine Or.inr (hinv.stuck_drained howned fun act hown => ?_)
    by_cases hhandle : act = .responseHandle
    swap
    · have htaken := hstuck (.thread act) hown
      have hinner : act.inner = true := by
        cases act <;> first | rfl | exact absurd rfl hhandle | cases hown
      rw [Session.step, if_neg hended, if_pos hinner] at htaken
      exact Option.map_eq_none_iff.mp htaken
    subst hhandle
    by_contra hsome
    obtain ⟨threads, hthread⟩ := Option.ne_none_iff_exists'.mp hsome
    -- the event in hand is one of those sent, so its handler returns
    cases hat : s.threads.responseAt with
    | handle pEv =>
        cases hcell : s.threads.queue.cells pEv with
        | none =>
            simp [Threads.step, hat, EventQueue.messageAt, hcell] at hthread
        | some event =>
            obtain ⟨content', hinv', -, -⟩ := howned.step hinv hthread
            have hhandled :=
              Threads.Consistent.handled_prefix ⟨content', hinv'⟩
            rw [Threads.handled_snoc hat hcell hthread,
              Threads.step_sent hthread (by simp)] at hhandled
            have hsent : event.message ∈ s.threads.sent :=
              hhandled.subset (by simp)
            obtain ⟨text, reply, hreturn⟩ :=
              hreturns event.message hsent event rfl
            obtain ⟨⟨ret, effects⟩, hresult⟩ :=
              Option.ne_none_iff_exists'.mp hreturn
            have htaken := hstuck (.handle text reply) rfl
            rw [Session.step, if_neg hended] at htaken
            simp [hat, hcell, hresult, hthread] at htaken
    | _ => simp [Threads.step, hat] at hthread

end Steps

end Session

/-- When nothing more arrives, the steps a client process still takes are
bounded however its threads are scheduled; where none is left the process has
exited if and only if an event that ends it was sent, and otherwise every event
has been handled, none is allocated and the response thread waits. -/
theorem session_finishes {p : Child} {services : List TGService}
    (hservices : loadedServices p.registry = some services)
    (readSock : Descriptor σ) (junk : σ → Nat → Byte)
    (readPipe : Descriptor ρ) (stack : ρ → List Byte) (sock : σ) (pipe : ρ)
    {s : Session σ ρ}
    (hreach : (session p readSock junk readPipe stack sock pipe).Reachable s)
    (hreturns : ∀ message ∈ s.threads.sent, Returns p message) :
    (∀ acts last, (∀ act ∈ acts, act.own = true) →
      (session p readSock junk readPipe stack sock pipe).run s acts =
        some last → acts.length ≤ s.threads.work ∧
      ((∀ act : SessionStep, act.own = true →
          last.step p readSock junk readPipe stack act = none) →
        (last.ended = true ↔
          ∃ message ∈ s.threads.sent, terminating message.1 = true) ∧
        (last.ended = false → last.threads.Drained s.threads.sent))) ∧
    ∃ acts last, (∀ act ∈ acts, act.own = true) ∧
      (session p readSock junk readPipe stack sock pipe).run s acts =
        some last ∧
      ∀ act : SessionStep, act.own = true →
        last.step p readSock junk readPipe stack act = none := by
  have haccounted : s.Accounted := by
    apply hreach.invariant
    · refine ⟨Threads.sound_start, rfl, rfl⟩
    · intro state act next hacc hstep
      exact hacc.step hservices hstep
  have hstep : ∀ (state : Session σ ρ) (act : SessionStep)
      (next : Session σ ρ),
      state.Accounted ∧ state.threads.sent = s.threads.sent →
      act.own = true →
      (session p readSock junk readPipe stack sock pipe).step state act =
        some next →
      (next.Accounted ∧ next.threads.sent = s.threads.sent) ∧
        next.threads.work < state.threads.work := by
    rintro state act next ⟨hacc, hsent⟩ hown htaken
    obtain ⟨hsame, hless⟩ := hacc.own hown htaken
    exact ⟨⟨hacc.step hservices htaken, hsame.trans hsent⟩, hless⟩
  refine ⟨fun acts last hown hrun => ?_, ?_⟩
  · obtain ⟨⟨hacc, hsent⟩, hused⟩ :=
      Machine.run_uses_work hstep ⟨haccounted, rfl⟩ hown hrun
    refine ⟨by omega, fun hstuck => ?_⟩
    have hrest := hacc.stuck (hsent.symm ▸ hreturns) hstuck
    rw [hsent] at hrest
    have hdrained : last.ended = false →
        last.threads.Drained s.threads.sent := fun hended =>
      hrest.resolve_left (by rw [hended]; exact Bool.false_ne_true)
    refine ⟨?_, hdrained⟩
    have hends := hacc.ended
    rw [Session.handled_ended hacc.handled] at hends
    constructor
    · intro hended
      rw [hended] at hends
      obtain ⟨message, hmem, hterminating⟩ := List.any_eq_true.mp hends.symm
      obtain ⟨content, hinv, -⟩ := hacc.sound
      have hhandled := Threads.Consistent.handled_prefix ⟨content, hinv⟩
      exact ⟨message, hsent ▸ hhandled.subset hmem, hterminating⟩
    · intro hterminating
      by_contra hnot
      have hall := (hdrained (eq_false_of_ne_true hnot)).handled
      rw [hall, eq_comm] at hends
      exact hnot (hends.symm.trans (List.any_eq_true.mpr hterminating))
  · obtain ⟨acts, last, hown, hrun, hstuck⟩ :=
      Machine.exists_run_stuck hstep ⟨haccounted, rfl⟩
    exact ⟨acts, last, hown, hrun, hstuck⟩

namespace SessionProgress

open ClientLife (child)
open Session (closed threadSteps)

/-- The reader thread has sent the start signal and meets the end of the
socket; the response thread does not exist yet. -/
def early : List SessionStep :=
  threadSteps [.readerLock, .readerPush 1, .readerSignal, .readerUnlock] ++
    [.select ⟨true, false⟩, .readSock]

def machine : Machine (Session Unit Unit) SessionStep :=
  session child closed (fun _ _ => 0) closed (fun _ => []) () ()

theorem early_returns : ∀ message ∈ [clientInit, (msgTypeClientQuit, none)],
    Returns child message := by
  intro message hmem event hevent
  refine ⟨[], none, ?_⟩
  obtain ⟨token, type, data, pNext⟩ := event
  simp only [List.mem_cons, List.not_mem_nil, or_false] at hmem
  rcases hmem with rfl | rfl
  · obtain ⟨rfl, rfl⟩ := Prod.mk.inj hevent
    rw [handleResponse_eq]
    exact Option.some_ne_none _
  · obtain ⟨rfl, rfl⟩ := Prod.mk.inj hevent
    rw [handleResponse_eq]
    exact Option.some_ne_none _

theorem session_finishes_early :
    ∃ services s, loadedServices child.registry = some services ∧
      machine.run machine.start early = some s ∧
      s.threads.sent = [clientInit, (msgTypeClientQuit, none)] ∧
      (∀ acts last, (∀ act ∈ acts, act.own = true) →
        machine.run s acts = some last → acts.length ≤ s.threads.work ∧
        ((∀ act : SessionStep, act.own = true →
            last.step child closed (fun _ _ => 0) closed (fun _ => []) act =
              none) →
          (last.ended = true ↔
            ∃ message ∈ s.threads.sent, terminating message.1 = true) ∧
          (last.ended = false → last.threads.Drained s.threads.sent))) ∧
      ∃ acts last, (∀ act ∈ acts, act.own = true) ∧
        machine.run s acts = some last ∧
        ∀ act : SessionStep, act.own = true →
          last.step child closed (fun _ _ => 0) closed (fun _ => []) act =
            none :=
  ⟨_, _, rfl, rfl, rfl, session_finishes rfl closed (fun _ _ => 0) closed
    (fun _ => []) () () ⟨early, rfl⟩ early_returns⟩

end SessionProgress

end TgServer
