/-
What the two threads of a client process come to when the reader thread calls
`__send_thread_signal` no more: every event is handled, the memory of every
event is given back, and the response thread waits.
-/
import Mathlib.Data.Fintype.EquivFin
import TgServer.EventThreads

namespace TgServer

open Bytes Transition LinkedCells

/-- The steps of the code itself: all but a new call of `__send_thread_signal`
and a wake-up nobody asked for. -/
def ThreadStep.own : ThreadStep → Bool
  | .readerCall _ | .wakeSpuriously => false
  | _ => true

/-- The message of a call that has not come to its push yet. -/
def ReaderAt.pending : ReaderAt → List Message
  | .lock message | .push message => [message]
  | _ => []

/-- How many steps a call may still cause, those of the woken response thread
and those for its event included. -/
def ReaderAt.work : ReaderAt → Nat
  | .idle => 0
  | .unlock => 1
  | .signal => 7
  | .push _ => 13
  | .lock _ => 14

/-- How many steps the response thread may take with nothing queued. -/
def ResponseAt.work : ResponseAt → Nat
  | .blocked => 0
  | .wait => 1
  | .head => 2
  | .lock => 3
  | .absent | .unlockWait | .free _ => 4
  | .woken | .handle _ => 5
  | .unlockHead _ => 6

namespace Threads

/-- A bound on the steps of the code that are still to come. -/
def work (s : Threads) : Nat :=
  5 * s.queue.queueCount.toNat + s.readerAt.work + s.responseAt.work

/-- The messages of all calls so far. -/
def sent (s : Threads) : List Message := s.enqueued ++ s.readerAt.pending

/-- The events that are allocated are the queued ones and the one in the hands
of the response thread. -/
def Owned (s : Threads) (content : List (Addr × Message)) : Prop :=
  ∀ a, s.queue.cells a ≠ none ↔
    a ∈ content.map Prod.fst ∨ s.responseAt.event = some a

/-- Every message has been handled, no event is allocated and both threads
wait for something to happen. -/
structure Drained (s : Threads) (messages : List Message) : Prop where
  enqueued : s.enqueued = messages
  handled : s.handled = messages
  reader : s.readerAt = .idle
  response : s.responseAt = .blocked
  queue : s.queue.pHead = none
  freed : ∀ a, s.queue.cells a = none

section Steps

variable {s next : Threads} {act : ThreadStep}
variable {content : List (Addr × Message)}

/-- A step that is neither a push nor a take nor a free. -/
structure Quiet (s : Threads) (act : ThreadStep) (next : Threads) :
    Prop where
  queue : next.queue = s.queue
  event : next.responseAt.event = s.responseAt.event
  sent : (∀ message, act ≠ .readerCall message) → next.sent = s.sent
  handled : act ≠ .responseHandle → next.handled = s.handled
  work : act.own = true → next.readerAt.work + next.responseAt.work <
    s.readerAt.work + s.responseAt.work

/-- The signal costs what it wakes. -/
theorem work_signalled (at_ : ResponseAt) :
    at_.signalled.work ≤ at_.work + 5 := by
  cases at_ <;> simp [ResponseAt.signalled, ResponseAt.work]

theorem event_signalled (at_ : ResponseAt) :
    at_.signalled.event = at_.event := by
  cases at_ <;> rfl

theorem step_cases (hstep : s.step act = some next) :
    Quiet s act next ∨
    (∃ pEv type pData queue, s.readerAt = .push (type, pData) ∧
      pushEventToQueue s.queue pEv type pData = some queue ∧
      next = { s with
        queue := queue, readerAt := .signal
        enqueued := s.enqueued ++ [(type, pData)] }) ∨
    (∃ pEv queue, s.responseAt = .head ∧
      TgServer.head s.queue = some (pEv, queue) ∧
      next = { s with
        queue := queue
        responseAt := match pEv with
          | none => .wait
          | some pEv => .unlockHead pEv }) ∨
    ∃ pEv queue, s.responseAt = .free pEv ∧
      freeTGEvent s.queue pEv = some queue ∧
      next = { s with queue := queue, responseAt := .lock } := by
  cases act with
  | readerCall message =>
      cases hat : s.readerAt <;> simp [Threads.step, hat] at hstep
      subst hstep
      refine .inl ⟨rfl, rfl, ?_, fun _ => rfl, ?_⟩
      · exact fun hnot => absurd rfl (hnot message)
      · simp [ThreadStep.own]
  | readerLock =>
      cases hat : s.readerAt <;> cases howner : s.owner <;>
        simp [Threads.step, hat, howner] at hstep
      subst hstep
      refine .inl ⟨rfl, rfl, ?_, fun _ => rfl, ?_⟩ <;>
        simp [sent, hat, ReaderAt.pending, ReaderAt.work]
  | readerPush pEv =>
      cases hat : s.readerAt <;> simp [Threads.step, hat] at hstep
      obtain ⟨queue, hpush, rfl⟩ := hstep
      exact .inr (.inl ⟨pEv, _, _, queue, rfl, hpush, rfl⟩)
  | readerSignal =>
      cases hat : s.readerAt <;> simp [Threads.step, hat] at hstep
      subst hstep
      refine .inl ⟨rfl, event_signalled _, ?_, fun _ => rfl, ?_⟩
      · simp [sent, hat, ReaderAt.pending]
      · intro _
        have hwoken := work_signalled s.responseAt
        simp only [hat, ReaderAt.work]
        omega
  | readerUnlock =>
      cases hat : s.readerAt <;> simp [Threads.step, hat] at hstep
      subst hstep
      refine .inl ⟨rfl, rfl, ?_, fun _ => rfl, ?_⟩ <;>
        simp [sent, hat, ReaderAt.pending, ReaderAt.work]
  | responseHead =>
      cases hat : s.responseAt <;> simp [Threads.step, hat] at hstep
      obtain ⟨pEv, queue, hhead, rfl⟩ := hstep
      exact .inr (.inr (.inl ⟨pEv, queue, rfl, hhead, rfl⟩))
  | responseFree =>
      cases hat : s.responseAt <;> simp [Threads.step, hat] at hstep
      obtain ⟨queue, hfree, rfl⟩ := hstep
      exact .inr (.inr (.inr ⟨_, queue, rfl, hfree, rfl⟩))
  | responseHandle =>
      cases hat : s.responseAt <;> simp [Threads.step, hat] at hstep
      obtain ⟨type, pData, hmessage, rfl⟩ := hstep
      refine .inl ⟨rfl, ?_, fun _ => rfl, fun hnot => absurd rfl hnot, ?_⟩ <;>
        simp [hat, ResponseAt.event, ResponseAt.work]
  | responseLock | responseRelock =>
      cases hat : s.responseAt <;> cases howner : s.owner <;>
        simp [Threads.step, hat, howner] at hstep
      subst hstep
      refine .inl ⟨rfl, ?_, fun _ => rfl, fun _ => rfl, ?_⟩ <;>
        simp [hat, ResponseAt.event, ResponseAt.work]
  | responseCreate | responseWait | wakeSpuriously | responseUnlock =>
      cases hat : s.responseAt <;> simp [Threads.step, hat] at hstep
      all_goals
        subst hstep
        refine .inl ⟨rfl, ?_, fun _ => rfl, fun _ => rfl, ?_⟩ <;>
          simp [hat, ResponseAt.event, ResponseAt.work, ThreadStep.own]

/-- Only a call adds to the messages. -/
theorem step_sent (hstep : s.step act = some next)
    (hcall : ∀ message, act ≠ .readerCall message) : next.sent = s.sent := by
  rcases step_cases hstep with hquiet |
    ⟨pEv, type, pData, queue, hat, -, rfl⟩ | ⟨pEv, queue, -, -, rfl⟩ |
    ⟨pEv, queue, -, -, rfl⟩
  · exact hquiet.sent hcall
  · simp [sent, hat, ReaderAt.pending]
  · rfl
  · rfl

theorem step_handled (hstep : s.step act = some next)
    (hhandle : act ≠ .responseHandle) : next.handled = s.handled := by
  rcases step_cases hstep with hquiet |
    ⟨pEv, type, pData, queue, -, -, rfl⟩ | ⟨pEv, queue, -, -, rfl⟩ |
    ⟨pEv, queue, -, -, rfl⟩
  · exact hquiet.handled hhandle
  · rfl
  · rfl
  · rfl

/-- What the response thread does to the record of what was handled. -/
theorem handled_snoc {pEv : Addr} {event : TGEvent}
    (hat : s.responseAt = .handle pEv) (hcell : s.queue.cells pEv = some event)
    (hstep : s.step .responseHandle = some next) :
    next.handled = s.handled ++ [event.message] := by
  simp only [step, hat, EventQueue.messageAt, hcell, Option.map_some,
    Option.some.injEq] at hstep
  rw [← hstep]

/-- A queue holds one list of events only. -/
theorem content_unique {q : EventQueue} {other : List (Addr × Message)}
    (hrep : q.Represents content) (hother : q.Represents other) :
    content = other :=
  hrep.chain.unique hother.chain

theorem Owned.push (hinv : Inv s content) (howned : s.Owned content)
    {pEv : Addr} {type : Int} {pData : Option (List Byte)} {queue : EventQueue}
    (hpush : pushEventToQueue s.queue pEv type pData = some queue) :
    queue.Represents (content ++ [(pEv, type, pData)]) ∧
      Owned { s with
        queue := queue, readerAt := .signal
        enqueued := s.enqueued ++ [(type, pData)] }
        (content ++ [(pEv, type, pData)]) := by
  have hfree : s.queue.cells pEv = none := by
    by_contra hlive
    rw [pushEventToQueue, if_pos (Option.isSome_iff_ne_none.mpr hlive)] at hpush
    cases hpush
  obtain ⟨queue', hpush', hrep, hframe⟩ :=
    pushEventToQueue_represents hinv.queue hfree type pData
  obtain rfl := Option.some.inj (hpush.symm.trans hpush')
  refine ⟨hrep, fun a => ?_⟩
  by_cases hmem : a ∈ (content ++ [(pEv, type, pData)]).map Prod.fst
  · exact iff_of_true (hrep.chain.live hmem) (Or.inl hmem)
  · have houtside := hmem
    simp only [List.map_append, List.map_singleton, List.mem_append,
      List.mem_singleton, not_or] at houtside
    have hsame := howned a
    dsimp only
    rw [hframe a houtside.2 houtside.1, hsame]
    exact or_congr (iff_of_false houtside.1 hmem) Iff.rfl

theorem Owned.take {pEv : Option Addr} {queue : EventQueue}
    (hnext : next = { s with
      queue := queue
      responseAt := match pEv with
        | none => .wait
        | some pEv => .unlockHead pEv })
    (hinv : Inv s content) (howned : s.Owned content)
    (hat : s.responseAt = .head)
    (hhead : TgServer.head s.queue = some (pEv, queue)) :
    (pEv = none ∧ queue = s.queue ∧ content = [] ∨
      ∃ a message, pEv = some a ∧ content = (a, message) :: content.tail) ∧
    queue.Represents content.tail ∧ next.Owned content.tail := by
  subst hnext
  rcases content with _ | ⟨⟨a, message⟩, rest⟩
  · rw [head_nil hinv.queue, Option.some.injEq, Prod.mk.injEq] at hhead
    obtain ⟨rfl, rfl⟩ := hhead
    refine ⟨.inl ⟨rfl, rfl, rfl⟩, hinv.queue, fun b => ?_⟩
    have hsame := howned b
    rw [hat] at hsame
    exact hsame
  · obtain ⟨queue', hhead', hrep, hcells, -, -⟩ := head_cons hinv.queue
    rw [hhead', Option.some.injEq, Prod.mk.injEq] at hhead
    obtain ⟨rfl, rfl⟩ := hhead
    refine ⟨.inr ⟨a, message, rfl, rfl⟩, hrep, fun b => ?_⟩
    have hsame := howned b
    rw [hat] at hsame
    dsimp only
    rw [hcells, hsame]
    simp only [List.map_cons, List.mem_cons, ResponseAt.event,
      Option.some.injEq, reduceCtorEq, or_false, List.tail_cons]
    rw [or_comm, eq_comm]

theorem Owned.free {pEv : Addr} {queue : EventQueue}
    (hinv : Inv s content) (howned : s.Owned content)
    (hat : s.responseAt = .free pEv)
    (hfree : freeTGEvent s.queue pEv = some queue) :
    queue.Represents content ∧
      Owned { s with queue := queue, responseAt := .lock } content := by
  obtain ⟨hlive, houtside⟩ := hinv.event pEv (by rw [hat]; rfl)
  obtain ⟨queue', hfree', hrep⟩ :=
    freeTGEvent_represents hinv.queue hlive houtside
  obtain rfl := Option.some.inj (hfree.symm.trans hfree')
  refine ⟨hrep, fun b => ?_⟩
  have hcells : queue.cells = Function.update s.queue.cells pEv none := by
    obtain ⟨cell, -, rfl⟩ := Option.map_eq_some_iff.mp hfree
    rfl
  have hsame := howned b
  rw [hat] at hsame
  dsimp only
  rw [hcells]
  by_cases hb : b = pEv
  · subst hb
    rw [Function.update_self]
    exact iff_of_false (fun h => h rfl)
      (not_or.mpr ⟨houtside, fun h => by cases h⟩)
  · rw [Function.update_of_ne hb, hsame]
    refine or_congr Iff.rfl (iff_of_false ?_ fun h => by cases h)
    intro hevent
    exact hb (Option.some.inj hevent).symm

/-- Every step keeps the account of the memory; the steps of the code use up
work. -/
theorem Owned.step (hinv : Inv s content) (howned : s.Owned content)
    (hstep : s.step act = some next) :
    ∃ content', Inv next content' ∧ next.Owned content' ∧
      (act.own = true → next.work < s.work) := by
  obtain ⟨content', hnext⟩ := hinv.step hstep
  refine ⟨content', hnext, ?_⟩
  have hcount := hinv.queue.count
  have hcount' := hnext.queue.count
  rcases step_cases hstep with hquiet |
    ⟨pEv, type, pData, queue, hat, hpush, rfl⟩ |
    ⟨pEv, queue, hat, hhead, rfl⟩ | ⟨pEv, queue, hat, hfree, rfl⟩
  · have hsame := content_unique hinv.queue (hquiet.queue ▸ hnext.queue)
    subst hsame
    refine ⟨fun a => ?_, fun hown => ?_⟩
    · rw [hquiet.queue, hquiet.event]
      exact howned a
    · have hless := hquiet.work hown
      rw [work, work, hquiet.queue]
      omega
  · obtain ⟨hrep, hkept⟩ := howned.push hinv hpush
    obtain rfl := content_unique hnext.queue hrep
    refine ⟨hkept, fun _ => ?_⟩
    dsimp only at hcount'
    rw [List.length_append, List.length_singleton] at hcount'
    simp only [work, hat, ReaderAt.work, hcount, hcount']
    omega
  · obtain ⟨hcases, hrep, hkept⟩ := howned.take rfl hinv hat hhead
    obtain rfl := content_unique hnext.queue hrep
    refine ⟨hkept, fun _ => ?_⟩
    dsimp only at hcount'
    rcases hcases with ⟨rfl, rfl, rfl⟩ | ⟨a, message, rfl, hcontent⟩
    · simp only [work, hat, ResponseAt.work]
      omega
    · rw [hcontent, List.length_cons] at hcount
      simp only [work, hat, ResponseAt.work, hcount, hcount']
      omega
  · obtain ⟨hrep, hkept⟩ := howned.free hinv hat hfree
    obtain rfl := content_unique hnext.queue hrep
    refine ⟨hkept, fun _ => ?_⟩
    dsimp only at hcount'
    simp only [work, hat, ResponseAt.work, hcount, hcount']
    omega

/-- The memory holds finitely many events, so `malloc` finds room. -/
theorem Owned.exists_free (howned : s.Owned content) :
    ∃ a, s.queue.cells a = none := by
  obtain ⟨a, ha⟩ := Infinite.exists_notMem_finset
    ((content.map Prod.fst ++ s.responseAt.event.toList).toFinset)
  refine ⟨a, ?_⟩
  by_contra hlive
  apply ha
  rcases (howned a).mp hlive with hmem | hevent
  · simpa using Or.inl (by simpa using hmem)
  · simp [hevent]

/-- Where the response thread is left when it cannot go on: it needs the mutex
or a signal. -/
theorem Inv.stuck_response (hinv : Inv s content)
    (hstuck : ∀ act : ThreadStep, act.own = true → s.step act = none) :
    s.responseAt = .lock ∨ s.responseAt = .woken ∨
      s.responseAt = .blocked := by
  have hlive : ∀ pEv, s.responseAt.event = some pEv →
      s.queue.cells pEv ≠ none := fun pEv hevent => (hinv.event pEv hevent).1
  cases hat : s.responseAt with
  | lock => exact .inl rfl
  | woken => exact .inr (.inl rfl)
  | blocked => exact .inr (.inr rfl)
  | absent =>
      have htaken := hstuck .responseCreate rfl
      simp [Threads.step, hat] at htaken
  | head =>
      have htaken := hstuck .responseHead rfl
      rcases content with _ | ⟨⟨pEv, message⟩, rest⟩
      · simp [Threads.step, hat, head_nil hinv.queue] at htaken
      · obtain ⟨queue, hhead, -⟩ := head_cons hinv.queue
        simp [Threads.step, hat, hhead] at htaken
  | wait =>
      have htaken := hstuck .responseWait rfl
      simp [Threads.step, hat] at htaken
  | unlockWait | unlockHead pEv =>
      have htaken := hstuck .responseUnlock rfl
      simp [Threads.step, hat] at htaken
  | handle pEv =>
      have htaken := hstuck .responseHandle rfl
      simp [Threads.step, hat, EventQueue.messageAt] at htaken
      exact absurd htaken (hlive pEv (by rw [hat]; rfl))
  | free pEv =>
      have htaken := hstuck .responseFree rfl
      simp [Threads.step, hat, freeTGEvent] at htaken
      exact absurd htaken (hlive pEv (by rw [hat]; rfl))

theorem Inv.stuck_reader (hinv : Inv s content) (howned : s.Owned content)
    (hstuck : ∀ act : ThreadStep, act.own = true → s.step act = none) :
    s.readerAt = .idle := by
  have hresponse : s.owner ≠ some .response := by
    intro howner
    have hholds := hinv.response.mpr howner
    rcases hinv.stuck_response hstuck with hat | hat | hat <;>
      rw [hat] at hholds <;> cases hholds
  cases hat : s.readerAt with
  | idle => rfl
  | lock message =>
      have hreader : s.owner ≠ some .reader := by
        intro howner
        have hcritical := hinv.reader.mpr howner
        rw [hat] at hcritical
        cases hcritical
      have hnone : s.owner = none := by
        cases howner : s.owner with
        | none => rfl
        | some owner => cases owner <;> simp_all
      have htaken := hstuck .readerLock rfl
      simp [Threads.step, hat, hnone] at htaken
  | push message =>
      obtain ⟨pEv, hfree⟩ := howned.exists_free
      obtain ⟨queue, hpush, -⟩ :=
        pushEventToQueue_represents hinv.queue hfree message.1 message.2
      have htaken := hstuck (.readerPush pEv) rfl
      simp [Threads.step, hat, hpush] at htaken
  | signal =>
      have htaken := hstuck .readerSignal rfl
      simp [Threads.step, hat] at htaken
  | unlock =>
      have htaken := hstuck .readerUnlock rfl
      simp [Threads.step, hat] at htaken

/-- The threads stop only when there is nothing left to do. -/
theorem Inv.stuck_drained (hinv : Inv s content) (howned : s.Owned content)
    (hstuck : ∀ act : ThreadStep, act.own = true → s.step act = none) :
    s.Drained s.sent := by
  have hreader := hinv.stuck_reader howned hstuck
  have hnone : s.owner = none := by
    cases howner : s.owner with
    | none => rfl
    | some owner =>
        exfalso
        cases owner with
        | reader =>
            have hcritical := hinv.reader.mpr howner
            rw [hreader] at hcritical
            cases hcritical
        | response =>
            have hholds := hinv.response.mpr howner
            rcases hinv.stuck_response hstuck with hat | hat | hat <;>
              rw [hat] at hholds <;> cases hholds
  have hblocked : s.responseAt = .blocked := by
    rcases hinv.stuck_response hstuck with hat | hat | hat
    · have htaken := hstuck .responseLock rfl
      simp [Threads.step, hat, hnone] at htaken
    · have htaken := hstuck .responseRelock rfl
      simp [Threads.step, hat, hnone] at htaken
    · exact hat
  -- a queued event would be owed a signal
  have hcontent : content = [] := by
    by_contra hsome
    have hsignal := hinv.blocked hblocked hsome
    rw [hreader] at hsignal
    cases hsignal
  subst hcontent
  have hsent : s.sent = s.enqueued := by
    rw [sent, hreader]
    exact List.append_nil _
  have hhistory := hinv.history
  simp only [inFlight, hblocked, ResponseAt.taken, Option.bind_none,
    Option.toList_none, List.map_nil, List.append_nil] at hhistory
  refine ⟨hsent.symm, ?_, hreader, hblocked, hinv.queue.chain, fun a => ?_⟩
  · rw [hsent, hhistory]
  · by_contra hlive
    rcases (howned a).mp hlive with hmem | hevent
    · cases hmem
    · rw [hblocked] at hevent
      cases hevent

end Steps

/-- The invariant and the account of the memory, for what the queue
contains. -/
def Sound (s : Threads) : Prop := ∃ content, s.Inv content ∧ s.Owned content

theorem sound_start : threads.start.Sound := by
  refine ⟨[], inv_start, fun a => iff_of_false (fun h => h rfl) ?_⟩
  rintro (hmem | hevent)
  · cases hmem
  · cases hevent

theorem Sound.step {s next : Threads} {act : ThreadStep} (hsound : s.Sound)
    (hstep : s.step act = some next) : next.Sound := by
  obtain ⟨content, hinv, howned⟩ := hsound
  obtain ⟨content', hinv', howned', -⟩ := howned.step hinv hstep
  exact ⟨content', hinv', howned'⟩

/-- A step of one of the two threads uses up work and sends nothing. -/
theorem Sound.own {s next : Threads} {act : ThreadStep} (hsound : s.Sound)
    (hown : act.own = true) (hstep : s.step act = some next) :
    next.sent = s.sent ∧ next.work < s.work := by
  obtain ⟨content, hinv, howned⟩ := hsound
  obtain ⟨-, -, -, hused⟩ := howned.step hinv hstep
  refine ⟨step_sent hstep ?_, hused hown⟩
  rintro message rfl
  cases hown

/-- Messages are handled in the order of the calls. -/
theorem Consistent.handled_prefix {s : Threads} (hsound : s.Consistent) :
    s.handled <+: s.sent := by
  obtain ⟨content, hinv⟩ := hsound
  rw [sent, hinv.history, List.append_assoc, List.append_assoc]
  exact List.prefix_append _ _

end Threads

theorem threads_sound {s : Threads} (hreach : threads.Reachable s) :
    s.Sound := by
  apply hreach.invariant
  · exact Threads.sound_start
  · intro state act next hsound hstep
    exact hsound.step hstep

/-- In every reachable state the allocated events are exactly those in the
queue and the one the response thread has in hand, which is not in the queue:
no event is lost and none is freed twice. -/
theorem threads_owned {s : Threads} (hreach : threads.Reachable s) :
    ∃ content, s.queue.Represents content ∧ (content.map Prod.fst).Nodup ∧
      (∀ a, s.queue.cells a ≠ none ↔
        a ∈ content.map Prod.fst ∨ s.responseAt.event = some a) ∧
      ∀ a, s.responseAt.event = some a → a ∉ content.map Prod.fst := by
  obtain ⟨content, hinv, howned⟩ := threads_sound hreach
  exact ⟨content, hinv.queue, hinv.queue.distinct, howned,
    fun a hevent => (hinv.event a hevent).2⟩

/-- From every reachable state the steps of the two threads come to an end,
however they are scheduled, and where none is left every message of every call
has been handled and no event is allocated. -/
theorem threads_drain {s : Threads} (hreach : threads.Reachable s) :
    (∀ acts last, (∀ act ∈ acts, act.own = true) →
      threads.run s acts = some last → acts.length ≤ s.work ∧
        ((∀ act : ThreadStep, act.own = true → last.step act = none) →
          last.Drained s.sent)) ∧
    ∃ acts last, (∀ act ∈ acts, act.own = true) ∧
      threads.run s acts = some last ∧ last.Drained s.sent := by
  have hstep : ∀ (state : Threads) (act : ThreadStep) (next : Threads),
      state.Sound ∧ state.sent = s.sent → act.own = true →
      threads.step state act = some next →
      (next.Sound ∧ next.sent = s.sent) ∧ next.work < state.work := by
    rintro state act next ⟨hsound, hsent⟩ hown htaken
    obtain ⟨hsame, hused⟩ := hsound.own hown htaken
    exact ⟨⟨hsound.step htaken, hsame.trans hsent⟩, hused⟩
  have hstart : s.Sound ∧ s.sent = s.sent := ⟨threads_sound hreach, rfl⟩
  have hdrained : ∀ acts last, (∀ act ∈ acts, act.own = true) →
      threads.run s acts = some last →
      (∀ act : ThreadStep, act.own = true → last.step act = none) →
      last.Drained s.sent := by
    intro acts last hown hrun hstuck
    obtain ⟨⟨⟨content, hinv, howned⟩, hsent⟩, -⟩ :=
      Machine.run_uses_work hstep hstart hown hrun
    exact hsent ▸ hinv.stuck_drained howned hstuck
  refine ⟨fun acts last hown hrun => ⟨?_, hdrained acts last hown hrun⟩, ?_⟩
  · have hused := (Machine.run_uses_work hstep hstart hown hrun).2
    omega
  · obtain ⟨acts, last, hown, hrun, hstuck⟩ :=
      Machine.exists_run_stuck hstep hstart
    exact ⟨acts, last, hown, hrun, hdrained acts last hown hrun hstuck⟩

namespace ThreadProgress

/-- The start signal and a request are sent before the response thread
exists. -/
def early : List ThreadStep :=
  [.readerLock, .readerPush 1, .readerSignal, .readerUnlock,
    .readerCall (msgTypeClientRequest, some (ascii "a")), .readerLock]

theorem threads_owned_early :
    ∃ s, threads.run threads.start early = some s ∧
      ∃ content, s.queue.Represents content ∧ (content.map Prod.fst).Nodup ∧
        (∀ a, s.queue.cells a ≠ none ↔
          a ∈ content.map Prod.fst ∨ s.responseAt.event = some a) ∧
        ∀ a, s.responseAt.event = some a → a ∉ content.map Prod.fst :=
  ⟨_, rfl, threads_owned ⟨early, rfl⟩⟩

theorem threads_drain_early :
    ∃ s, threads.run threads.start early = some s ∧
      s.sent = [clientInit, (msgTypeClientRequest, some (ascii "a"))] ∧
      (∀ acts last, (∀ act ∈ acts, act.own = true) →
        threads.run s acts = some last → acts.length ≤ s.work ∧
          ((∀ act : ThreadStep, act.own = true → last.step act = none) →
            last.Drained s.sent)) ∧
      ∃ acts last, (∀ act ∈ acts, act.own = true) ∧
        threads.run s acts = some last ∧ last.Drained s.sent :=
  ⟨_, rfl, rfl, threads_drain ⟨early, rfl⟩⟩

end ThreadProgress

end TgServer
