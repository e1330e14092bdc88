/-
The two threads of a client process: the reader thread enqueues through
`__send_thread_signal`, `__deamon_response` takes events off the queue under
the mutex and waits on the condition variable when there are none.
-/
import TgServer.Event
import TgServer.MessageTypes
import TgServer.Transition

namespace TgServer

open Bytes Transition

/-- Who holds `event_mutex`. -/
inductive Owner where
  | reader
  | response
deriving Repr, DecidableEq

/-- The call in `__send_thread_signal` the reader thread is about to make; it is
`idle` outside that function. -/
inductive ReaderAt where
  | idle
  | lock (message : Message)
  | push (message : Message)
  | signal
  | unlock
deriving Repr, DecidableEq

def ReaderAt.critical : ReaderAt → Bool
  | .push _ | .signal | .unlock => true
  | _ => false

/-- The call in `__deamon_response` the response thread is about to make, once
it has been created; `blocked` and `woken` are inside `pthread_cond_wait`. -/
inductive ResponseAt where
  | absent
  | lock
  | head
  | wait
  | blocked
  /-- About to take the mutex again. -/
  | woken
  | unlockWait
  | unlockHead (pEv : Addr)
  | handle (pEv : Addr)
  | free (pEv : Addr)
deriving Repr, DecidableEq

def ResponseAt.holds : ResponseAt → Bool
  | .head | .wait | .unlockWait | .unlockHead _ => true
  | _ => false

/-- The event that was taken off the queue and not handled yet. -/
def ResponseAt.taken : ResponseAt → Option Addr
  | .unlockHead pEv | .handle pEv => some pEv
  | _ => none

/-- The event that was taken off the queue and not freed yet. -/
def ResponseAt.event : ResponseAt → Option Addr
  | .unlockHead pEv | .handle pEv | .free pEv => some pEv
  | _ => none

/-- `enqueued` and `handled` record the messages pushed and the messages passed
to `handle_response`, in order. -/
structure Threads where
  queue : EventQueue
  owner : Option Owner
  readerAt : ReaderAt
  responseAt : ResponseAt
  enqueued : List Message
  handled : List Message

/-- `readerCall` enters `__send_thread_signal`; `malloc` returns the address of
`readerPush`. -/
inductive ThreadStep where
  | readerCall (message : Message)
  | readerLock
  | readerPush (pEv : Addr)
  | readerSignal
  | readerUnlock
  | responseCreate
  | responseLock
  | responseHead
  | responseWait
  | wakeSpuriously
  | responseRelock
  | responseUnlock
  | responseHandle
  | responseFree
deriving Repr, DecidableEq

/-- `pthread_cond_signal` -/
def ResponseAt.signalled : ResponseAt → ResponseAt
  | .blocked => .woken
  | other => other

/-- `none` is a step that the thread is not at, that has to wait for the mutex
or that is undefined. -/
def Threads.step (s : Threads) : ThreadStep → Option Threads
  | .readerCall message =>
      match s.readerAt with
      | .idle => some { s with readerAt := .lock message }
      | _ => none
  | .readerLock =>
      match s.readerAt, s.owner with
      | .lock message, none =>
          some { s with readerAt := .push message, owner := some .reader }
      | _, _ => none
  | .readerPush pEv =>
      match s.readerAt with
      | .push (type, pData) =>
          (pushEventToQueue s.queue pEv type pData).map fun queue =>
            { s with
              queue := queue, readerAt := .signal
              enqueued := s.enqueued ++ [(type, pData)] }
      | _ => none
  | .readerSignal =>
      match s.readerAt with
      | .signal =>
          some { s with
            readerAt := .unlock, responseAt := s.responseAt.signalled }
      | _ => none
  | .readerUnlock =>
      match s.readerAt with
      | .unlock => some { s with readerAt := .idle, owner := none }
      | _ => none
  | .responseCreate =>
      match s.responseAt with
      | .absent => some { s with responseAt := .lock }
      | _ => none
  | .responseLock =>
      match s.responseAt, s.owner with
      | .lock, none =>
          some { s with responseAt := .head, owner := some .response }
      | _, _ => none
  | .responseHead =>
      match s.responseAt with
      | .head =>
          (head s.queue).map fun (pEv, queue) =>
            { s with
              queue := queue
              responseAt := match pEv with
                | none => .wait
                | some pEv => .unlockHead pEv }
      | _ => none
  | .responseWait =>
      match s.responseAt with
      | .wait => some { s with responseAt := .blocked, owner := none }
      | _ => none
  | .wakeSpuriously =>
      match s.responseAt with
      | .blocked => some { s with responseAt := .woken }
      | _ => none
  | .responseRelock =>
      match s.responseAt, s.owner with
      | .woken, none =>
          some { s with responseAt := .unlockWait, owner := some .response }
      | _, _ => none
  | .responseUnlock =>
      match s.responseAt with
      | .unlockWait => some { s with responseAt := .lock, owner := none }
      | .unlockHead pEv =>
          some { s with responseAt := .handle pEv, owner := none }
      | _ => none
  | .responseHandle =>
      match s.responseAt with
      | .handle pEv =>
          (s.queue.messageAt pEv).map fun message =>
            { s with
              responseAt := .free pEv, handled := s.handled ++ [message] }
      | _ => none
  | .responseFree =>
      match s.responseAt with
      | .free pEv =>
          (freeTGEvent s.queue pEv).map fun queue =>
            { s with queue := queue, responseAt := .lock }
      | _ => none

/-- The first thing `__deamon_read` does is to signal the start. -/
def clientInit : Message := (msgTypeClientInit, none)

/-- The reader thread exists; the response thread is created at any time
later. -/
def threads : Machine Threads ThreadStep where
  start := ⟨.initial, none, .lock clientInit, .absent, [], []⟩
  step := Threads.step

theorem ResponseAt.event_of_taken {at_ : ResponseAt} {pEv : Addr}
    (htaken : at_.taken = some pEv) : at_.event = some pEv := by
  cases at_ <;> first | exact htaken | cases htaken

namespace Threads

/-- The message in hand, if any. -/
def inFlight (s : Threads) : List Message :=
  (s.responseAt.taken.bind s.queue.messageAt).toList

/-- The queue, the mutex and the places of both threads fit together. -/
structure Inv (s : Threads) (content : List (Addr × Message)) : Prop where
  queue : s.queue.Represents content
  history : s.enqueued = s.handled ++ s.inFlight ++ content.map Prod.snd
  event : ∀ pEv, s.responseAt.event = some pEv →
    s.queue.cells pEv ≠ none ∧ pEv ∉ content.map Prod.fst
  first : s.enqueued.head? = some clientInit ∨ s.enqueued = [] ∧
    (s.readerAt = .lock clientInit ∨ s.readerAt = .push clientInit)
  reader : s.readerAt.critical = true ↔ s.owner = some .reader
  response : s.responseAt.holds = true ↔ s.owner = some .response
  waits : s.responseAt = .wait → content = []
  blocked : s.responseAt = .blocked → content ≠ [] → s.readerAt = .signal

variable {s : Threads} {content : List (Addr × Message)}

theorem inv_start : Inv threads.start [] where
  queue := EventQueue.represents_initial
  history := rfl
  event := by
    intro pEv hevent
    cases hevent
  first := Or.inr ⟨rfl, Or.inl rfl⟩
  reader := by decide
  response := by decide
  waits := fun _ => rfl
  blocked := by
    intro hblocked
    cases hblocked

/-- The response thread cannot be about to wait while the reader thread is in
its critical section. -/
theorem Inv.not_holds (hinv : Inv s content)
    (hcritical : s.readerAt.critical = true) : s.responseAt.holds ≠ true := by
  intro hholds
  have hreader := hinv.reader.mp hcritical
  rw [hinv.response.mp hholds] at hreader
  cases hreader

theorem Inv.readerCall (hinv : Inv s content) (hat : s.readerAt = .idle)
    (message : Message) :
    Inv { s with readerAt := .lock message } content where
  queue := hinv.queue
  history := hinv.history
  event := hinv.event
  first := by
    rcases hinv.first with hfirst | ⟨-, hlock | hpush⟩
    · exact Or.inl hfirst
    · rw [hat] at hlock
      cases hlock
    · rw [hat] at hpush
      cases hpush
  reader := by simpa [hat, ReaderAt.critical] using hinv.reader
  response := hinv.response
  waits := hinv.waits
  blocked := by
    intro hblocked hcontent
    have hsignal := hinv.blocked hblocked hcontent
    rw [hat] at hsignal
    cases hsignal

theorem Inv.readerLock (hinv : Inv s content) {message : Message}
    (hat : s.readerAt = .lock message) (hfree : s.owner = none) :
    Inv { s with readerAt := .push message, owner := some .reader } content where
  queue := hinv.queue
  history := hinv.history
  event := hinv.event
  first := by
    rcases hinv.first with hfirst | ⟨hnil, hlock | hpush⟩
    · exact Or.inl hfirst
    · rw [hat, ReaderAt.lock.injEq] at hlock
      exact Or.inr ⟨hnil, Or.inr (by rw [hlock])⟩
    · rw [hat] at hpush
      cases hpush
  reader := by simp [ReaderAt.critical]
  response := by simpa [hfree] using hinv.response
  waits := hinv.waits
  blocked := by
    intro hblocked hcontent
    have hsignal := hinv.blocked hblocked hcontent
    rw [hat] at hsignal
    cases hsignal

/-- The push appends to the queue; a blocked response thread is owed the
signal that comes next. -/
theorem Inv.readerPush (hinv : Inv s content) {type : Int}
    {pData : Option (List Byte)} (hat : s.readerAt = .push (type, pData))
    {pEv : Addr} {queue : EventQueue}
    (hpush : pushEventToQueue s.queue pEv type pData = some queue) :
    Inv { s with
      queue := queue, readerAt := .signal
      enqueued := s.enqueued ++ [(type, pData)] }
      (content ++ [(pEv, type, pData)]) := by
  have hfree : s.queue.cells pEv = none := by
    by_contra hlive
    rw [pushEventToQueue, if_pos (Option.isSome_iff_ne_none.mpr hlive)] at hpush
    cases hpush
  obtain ⟨queue', hpush', hrep, hframe⟩ :=
    pushEventToQueue_represents hinv.queue hfree type pData
  rw [hpush', Option.some.injEq] at hpush
  subst hpush
  have hcritical : s.readerAt.critical = true := by rw [hat]; rfl
  -- the event in the hands of the response thread is neither new nor queued
  have hkept : ∀ other, s.responseAt.event = some other →
      other ≠ pEv ∧ queue'.cells other = s.queue.cells other := by
    intro other hother
    obtain ⟨hlive, houtside⟩ := hinv.event other hother
    have hne : other ≠ pEv := fun heq => hlive (heq ▸ hfree)
    exact ⟨hne, hframe other hne houtside⟩
  constructor
  · exact hrep
  · have hsame : s.responseAt.taken.bind queue'.messageAt =
        s.responseAt.taken.bind s.queue.messageAt := by
      cases htaken : s.responseAt.taken with
      | none => rfl
      | some other =>
          have hcell := (hkept other (ResponseAt.event_of_taken htaken)).2
          simp only [Option.bind_some, EventQueue.messageAt, hcell]
    simp only [inFlight, hsame]
    rw [hinv.history, List.map_append]
    simp [inFlight]
  · intro other hother
    obtain ⟨hlive, houtside⟩ := hinv.event other hother
    obtain ⟨hne, hcell⟩ := hkept other hother
    refine ⟨by rw [hcell]; exact hlive, ?_⟩
    simpa using ⟨by simpa using houtside, hne⟩
  · left
    rcases hinv.first with hfirst | ⟨hnil, hlock | hpush⟩
    · simp [List.head?_append, hfirst]
    · rw [hat] at hlock
      cases hlock
    · rw [hat, ReaderAt.push.injEq] at hpush
      simp [hnil, hpush]
  · simpa [hat, ReaderAt.critical] using hinv.reader
  · exact hinv.response
  · intro hwait
    have hnot := hinv.not_holds hcritical
    rw [hwait] at hnot
    exact absurd rfl hnot
  · exact fun _ _ => rfl

theorem Inv.readerSignal (hinv : Inv s content) (hat : s.readerAt = .signal) :
    Inv { s with
      readerAt := .unlock, responseAt := s.responseAt.signalled } content := by
  have htaken : s.responseAt.signalled.taken = s.responseAt.taken := by
    cases s.responseAt <;> rfl
  have hevent : s.responseAt.signalled.event = s.responseAt.event := by
    cases s.responseAt <;> rfl
  have hholds : s.responseAt.signalled.holds = s.responseAt.holds := by
    cases s.responseAt <;> rfl
  constructor
  · exact hinv.queue
  · simpa only [inFlight, htaken] using hinv.history
  · simpa only [hevent] using hinv.event
  · rcases hinv.first with hfirst | ⟨-, hlock | hpush⟩
    · exact Or.inl hfirst
    · rw [hat] at hlock
      cases hlock
    · rw [hat] at hpush
      cases hpush
  · simpa [hat, ReaderAt.critical] using hinv.reader
  · simpa only [hholds] using hinv.response
  · intro hwait
    apply hinv.waits
    cases hresponse : s.responseAt <;> simp_all [ResponseAt.signalled]
  · intro hblocked
    cases hresponse : s.responseAt <;> simp_all [ResponseAt.signalled]

theorem Inv.readerUnlock (hinv : Inv s content) (hat : s.readerAt = .unlock) :
    Inv { s with readerAt := .idle, owner := none } content where
  queue := hinv.queue
  history := hinv.history
  event := hinv.event
  first := by
    rcases hinv.first with hfirst | ⟨-, hlock | hpush⟩
    · exact Or.inl hfirst
    · rw [hat] at hlock
      cases hlock
    · rw [hat] at hpush
      cases hpush
  reader := by simp [ReaderAt.critical]
  response := by
    have hnot := hinv.not_holds (by rw [hat]; rfl)
    simpa using hnot
  waits := hinv.waits
  blocked := by
    intro hblocked hcontent
    have hsignal := hinv.blocked hblocked hcontent
    rw [hat] at hsignal
    cases hsignal

/-- A move of the response thread that touches neither the queue nor the
events. -/
theorem Inv.responseMove (hinv : Inv s content) {next : ResponseAt}
    {owner : Option Owner} (htaken : next.taken = s.responseAt.taken)
    (hevent : next.event = s.responseAt.event)
    (hreader : s.readerAt.critical = true ↔ owner = some .reader)
    (hresponse : next.holds = true ↔ owner = some .response)
    (hwait : next ≠ .wait)
    (hblocked : next = .blocked → content = []) :
    Inv { s with responseAt := next, owner := owner } content where
  queue := hinv.queue
  history := by simpa only [inFlight, htaken] using hinv.history
  event := by simpa only [hevent] using hinv.event
  first := hinv.first
  reader := hreader
  response := hresponse
  waits := fun hnext => absurd hnext hwait
  blocked := fun hnext hcontent => absurd (hblocked hnext) hcontent

theorem Inv.not_critical (hinv : Inv s content)
    (hholds : s.responseAt.holds = true) : s.readerAt.critical ≠ true :=
  fun hcritical => hinv.not_holds hcritical hholds

theorem Inv.responseHead_nil (hinv : Inv s []) (hat : s.responseAt = .head) :
    Inv { s with responseAt := .wait } [] where
  queue := hinv.queue
  history := by simpa [inFlight, hat, ResponseAt.taken] using hinv.history
  event := by
    intro pEv hevent
    cases hevent
  first := hinv.first
  reader := hinv.reader
  response := by simpa [hat, ResponseAt.holds] using hinv.response
  waits := fun _ => rfl
  blocked := by
    intro hblocked
    cases hblocked

theorem Inv.responseHead_cons {pEv : Addr} {message : Message}
    {rest : List (Addr × Message)} (hinv : Inv s ((pEv, message) :: rest))
    (hat : s.responseAt = .head) {queue : EventQueue}
    (hrep : queue.Represents rest) (hcells : queue.cells = s.queue.cells)
    (hmessage : s.queue.messageAt pEv = some message)
    (houtside : pEv ∉ rest.map Prod.fst) :
    Inv { s with queue := queue, responseAt := .unlockHead pEv } rest where
  queue := hrep
  history := by
    have hsame : queue.messageAt pEv = some message := by
      rw [EventQueue.messageAt, hcells]
      exact hmessage
    rw [hinv.history]
    simp [inFlight, hat, ResponseAt.taken, hsame]
  event := by
    intro other hother
    cases hother
    refine ⟨?_, houtside⟩
    rw [hcells]
    exact hinv.queue.chain.live List.mem_cons_self
  first := hinv.first
  reader := hinv.reader
  response := by simpa [hat, ResponseAt.holds] using hinv.response
  waits := by
    intro hwait
    cases hwait
  blocked := by
    intro hblocked
    cases hblocked

theorem Inv.responseHandle (hinv : Inv s content) {pEv : Addr}
    (hat : s.responseAt = .handle pEv) {message : Message}
    (hmessage : s.queue.messageAt pEv = some message) :
    Inv { s with
      responseAt := .free pEv, handled := s.handled ++ [message] } content where
  queue := hinv.queue
  history := by
    rw [hinv.history]
    simp [inFlight, hat, ResponseAt.taken, hmessage]
  event := by
    intro other hother
    apply hinv.event
    rw [hat]
    exact hother
  first := hinv.first
  reader := hinv.reader
  response := by simpa [hat, ResponseAt.holds] using hinv.response
  waits := by
    intro hwait
    cases hwait
  blocked := by
    intro hblocked
    cases hblocked

theorem Inv.responseFree (hinv : Inv s content) {pEv : Addr}
    (hat : s.responseAt = .free pEv) {queue : EventQueue}
    (hrep : queue.Represents content) :
    Inv { s with queue := queue, responseAt := .lock } content where
  queue := hrep
  history := by simpa [inFlight, hat, ResponseAt.taken] using hinv.history
  event := by
    intro other hother
    cases hother
  first := hinv.first
  reader := hinv.reader
  response := by simpa [hat, ResponseAt.holds] using hinv.response
  waits := by
    intro hwait
    cases hwait
  blocked := by
    intro hblocked
    cases hblocked

/-- Every step of either thread keeps the invariant. -/
theorem Inv.step (hinv : Inv s content) {act : ThreadStep} {next : Threads}
    (hstep : s.step act = some next) : ∃ content', Inv next content' := by
  cases act with
  | readerCall message =>
      cases hat : s.readerAt <;> simp [Threads.step, hat] at hstep
      exact ⟨content, hstep ▸ hinv.readerCall hat message⟩
  | readerLock =>
      cases hat : s.readerAt <;> cases howner : s.owner <;>
        simp [Threads.step, hat, howner] at hstep
      exact ⟨content, hstep ▸ hinv.readerLock hat howner⟩
  | readerPush pEv =>
      cases hat : s.readerAt <;> simp [Threads.step, hat] at hstep
      obtain ⟨queue, hpush, rfl⟩ := hstep
      exact ⟨_, hinv.readerPush hat hpush⟩
  | readerSignal =>
      cases hat : s.readerAt <;> simp [Threads.step, hat] at hstep
      exact ⟨content, hstep ▸ hinv.readerSignal hat⟩
  | readerUnlock =>
      cases hat : s.readerAt <;> simp [Threads.step, hat] at hstep
      exact ⟨content, hstep ▸ hinv.readerUnlock hat⟩
  | responseCreate =>
      cases hat : s.responseAt <;> simp [Threads.step, hat] at hstep
      subst hstep
      refine ⟨content, hinv.responseMove ?_ ?_ hinv.reader ?_ ?_ ?_⟩ <;>
        simp [hat, ResponseAt.taken, ResponseAt.event, ResponseAt.holds]
      simpa [hat, ResponseAt.holds] using hinv.response
  | responseLock =>
      cases hat : s.responseAt <;> cases howner : s.owner <;>
        simp [Threads.step, hat, howner] at hstep
      subst hstep
      refine ⟨content, hinv.responseMove ?_ ?_ ?_ ?_ ?_ ?_⟩ <;>
        simp [hat, ResponseAt.taken, ResponseAt.event, ResponseAt.holds]
      simpa [howner] using hinv.reader
  | responseHead =>
      cases hat : s.responseAt <;> simp [Threads.step, hat] at hstep
      obtain ⟨pEv, queue, hhead, rfl⟩ := hstep
      rcases content with _ | ⟨⟨first, message⟩, rest⟩
      · rw [head_nil hinv.queue, Option.some.injEq, Prod.mk.injEq] at hhead
        obtain ⟨rfl, rfl⟩ := hhead
        exact ⟨[], hinv.responseHead_nil hat⟩
      · obtain ⟨queue', hhead', hrep, hcells, hmessage, houtside⟩ :=
          head_cons hinv.queue
        rw [hhead', Option.some.injEq, Prod.mk.injEq] at hhead
        obtain ⟨rfl, rfl⟩ := hhead
        exact ⟨rest,
          hinv.responseHead_cons hat hrep hcells hmessage houtside⟩
  | responseWait =>
      cases hat : s.responseAt <;> simp [Threads.step, hat] at hstep
      subst hstep
      have hnot := hinv.not_critical (by rw [hat]; rfl)
      refine ⟨content, hinv.responseMove ?_ ?_ ?_ ?_ ?_ ?_⟩ <;>
        simp [hat, ResponseAt.taken, ResponseAt.event, ResponseAt.holds]
      · simpa using hnot
      · exact hinv.waits hat
  | wakeSpuriously =>
      cases hat : s.responseAt <;> simp [Threads.step, hat] at hstep
      subst hstep
      refine ⟨content, hinv.responseMove ?_ ?_ hinv.reader ?_ ?_ ?_⟩ <;>
        simp [hat, ResponseAt.taken, ResponseAt.event, ResponseAt.holds]
      simpa [hat, ResponseAt.holds] using hinv.response
  | responseRelock =>
      cases hat : s.responseAt <;> cases howner : s.owner <;>
        simp [Threads.step, hat, howner] at hstep
      subst hstep
      refine ⟨content, hinv.responseMove ?_ ?_ ?_ ?_ ?_ ?_⟩ <;>
        simp [hat, ResponseAt.taken, ResponseAt.event, ResponseAt.holds]
      simpa [howner] using hinv.reader
  | responseUnlock =>
      cases hat : s.responseAt <;> simp [Threads.step, hat] at hstep
      all_goals
        subst hstep
        have hnot := hinv.not_critical (by rw [hat]; rfl)
        refine ⟨content, hinv.responseMove ?_ ?_ ?_ ?_ ?_ ?_⟩ <;>
          simp [hat, ResponseAt.taken, ResponseAt.event, ResponseAt.holds]
        simpa using hnot
  | responseHandle =>
      cases hat : s.responseAt <;> simp [Threads.step, hat] at hstep
      obtain ⟨type, pData, hmessage, rfl⟩ := hstep
      exact ⟨content, hinv.responseHandle hat hmessage⟩
  | responseFree =>
      cases hat : s.responseAt <;> simp [Threads.step, hat] at hstep
      obtain ⟨queue, hfree, rfl⟩ := hstep
      obtain ⟨hlive, houtside⟩ := hinv.event _ (by rw [hat]; rfl)
      obtain ⟨queue', hfree', hrep⟩ :=
        freeTGEvent_represents hinv.queue hlive houtside
      rw [hfree', Option.some.injEq] at hfree
      subst hfree
      exact ⟨content, hinv.responseFree hat hrep⟩

end Threads

def Threads.Consistent (s : Threads) : Prop := ∃ content, s.Inv content

/-- Both threads keep the invariant in every run. -/
theorem threads_consistent {s : Threads} (hreach : threads.Reachable s) :
    s.Consistent := by
  apply hreach.invariant
  · exact ⟨[], Threads.inv_start⟩
  · rintro state act next ⟨content, hinv⟩ hstep
    exact hinv.step hstep

/-- The calls the threads make on the queue are never undefined: a step that
cannot be taken is one the thread is not at or that waits for the mutex. -/
theorem threads_defined {s : Threads} (hreach : threads.Reachable s) :
    (∀ pEv, s.queue.cells pEv = none → ∀ type pData,
      pushEventToQueue s.queue pEv type pData ≠ none) ∧
    head s.queue ≠ none ∧
    (∀ pEv, s.responseAt = .handle pEv → s.queue.messageAt pEv ≠ none) ∧
    ∀ pEv, s.responseAt = .free pEv → freeTGEvent s.queue pEv ≠ none := by
  obtain ⟨content, hinv⟩ := threads_consistent hreach
  refine ⟨?_, ?_, ?_, ?_⟩
  · intro pEv hfree type pData
    obtain ⟨queue, hpush, -⟩ :=
      pushEventToQueue_represents hinv.queue hfree type pData
    simp [hpush]
  · rcases content with _ | ⟨⟨pEv, message⟩, rest⟩
    · simp [head_nil hinv.queue]
    · obtain ⟨queue, hhead, -⟩ := head_cons hinv.queue
      simp [hhead]
  · intro pEv hat
    have hlive := (hinv.event pEv (by rw [hat]; rfl)).1
    simpa [EventQueue.messageAt] using hlive
  · intro pEv hat
    have hlive := (hinv.event pEv (by rw [hat]; rfl)).1
    simpa [freeTGEvent] using hlive

/-- In every reachable state the events enqueued are those handled, the one in
hand and those in the queue, in this order and starting with the start signal,
and the response thread is not left blocked while there are events and the
reader is outside its critical section. -/
theorem threads_handled_prefix {s : Threads} (hreach : threads.Reachable s) :
    s.handled <+: s.enqueued ∧
    (∃ content, s.queue.Represents content ∧
      s.enqueued = s.handled ++ s.inFlight ++ content.map Prod.snd) ∧
    (∀ message, s.enqueued.head? = some message → message = clientInit) ∧
    ¬ (s.responseAt = .blocked ∧ s.queue.pHead ≠ none ∧
      s.readerAt.critical = false) := by
  obtain ⟨content, hinv⟩ := threads_consistent hreach
  refine ⟨?_, ⟨content, hinv.queue, hinv.history⟩, ?_, ?_⟩
  · rw [hinv.history, List.append_assoc]
    exact List.prefix_append _ _
  · intro message hmessage
    rcases hinv.first with hfirst | ⟨hnil, -⟩
    · exact Option.some.inj (hmessage.symm.trans hfirst)
    · rw [hnil] at hmessage
      cases hmessage
  · rintro ⟨hblocked, hqueue, hcritical⟩
    have hcontent : content ≠ [] := fun hnil =>
      hqueue (hinv.queue.chain.nil_iff.mpr hnil)
    have hsignal := hinv.blocked hblocked hcontent
    rw [hsignal] at hcritical
    cases hcritical

namespace EventThreads

/-- The start signal is sent before the response thread exists; a request
comes while it is blocked. -/
def steps : List ThreadStep :=
  [.readerLock, .readerPush 1, .readerSignal, .readerUnlock, .responseCreate,
    .responseLock, .responseHead, .responseUnlock, .responseHandle,
    .responseFree, .responseLock, .responseHead, .responseWait,
    .readerCall (msgTypeClientRequest, some (ascii "a")), .readerLock,
    .readerPush 1, .readerSignal, .readerUnlock]

theorem threads_handled_prefix_steps :
    ∃ s, threads.run threads.start steps = some s ∧
      s.responseAt = .woken ∧ s.handled = [clientInit] ∧
      s.enqueued = [clientInit, (msgTypeClientRequest, some (ascii "a"))] ∧
      s.handled <+: s.enqueued ∧
      (∃ content, s.queue.Represents content ∧
        s.enqueued = s.handled ++ s.inFlight ++ content.map Prod.snd) ∧
      (∀ message, s.enqueued.head? = some message → message = clientInit) ∧
      ¬ (s.responseAt = .blocked ∧ s.queue.pHead ≠ none ∧
        s.readerAt.critical = false) :=
  ⟨_, rfl, rfl, rfl, rfl, threads_handled_prefix ⟨steps, rfl⟩⟩

end EventThreads

end TgServer
