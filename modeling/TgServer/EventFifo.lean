/-
The four operations of `tg_event.c` in any order: the linked cells behind
`pHead` and `pTail` are a first-in first-out queue.
-/
import TgServer.Event
import TgServer.Fifo
import TgServer.Transition

namespace TgServer

open Bytes LinkedCells Transition

def getQueueSize (q : EventQueue) : Int := q.queueCount

/-- The loop of `cancelAllEvent`; `none` also if it goes on for more rounds. -/
def cancelAllEventLoop : Nat → EventQueue → Option EventQueue
  | 0, _ => none
  | rounds + 1, q => do
      match ← head q with
      | (none, q) => return q
      | (some pEv, q) => cancelAllEventLoop rounds (← freeTGEvent q pEv)

/-- Every round takes an event, so one round more than there are events ends
the loop. -/
def cancelAllEvent (q : EventQueue) : Option EventQueue :=
  cancelAllEventLoop (q.queueCount.toNat + 1) q

/-- A call of one of the four functions; `pEv` is what `malloc` returns. -/
inductive QueueOp where
  | pushEventToQueue (pEv : Addr) (type : Int) (pData : Option (List Byte))
  | head
  | getQueueSize
  | cancelAllEvent
deriving Repr, DecidableEq

/-- What a call returns; an event is seen with its type and data. -/
inductive QueueResult where
  | void
  | event (pEv : Option (Addr × Message))
  | size (n : Int)
deriving Repr, DecidableEq

/-- What the caller of `head` gets. -/
def takeHead (q : EventQueue) : Option (Option (Addr × Message) × EventQueue) := do
  match ← head q with
  | (none, q) => return (none, q)
  | (some pEv, q) => return (some (pEv, ← q.messageAt pEv), q)

def QueueOp.call (q : EventQueue) :
    QueueOp → Option (QueueResult × EventQueue)
  | .pushEventToQueue pEv type pData =>
      (TgServer.pushEventToQueue q pEv type pData).map (.void, ·)
  | .head => (takeHead q).map fun (pEv, q) => (.event pEv, q)
  | .getQueueSize => some (.size (TgServer.getQueueSize q), q)
  | .cancelAllEvent => (TgServer.cancelAllEvent q).map (.void, ·)

/-- What a call does to a first-in first-out queue. -/
def fifoEvent : QueueOp → QueueResult → Option (Fifo.Event (Addr × Message))
  | .pushEventToQueue pEv type pData, _ => some (.push (pEv, type, pData))
  | .head, .event pEv => some (.take pEv)
  | .cancelAllEvent, _ => some .clear
  | _, _ => none

/-- The queue and what happened to it so far. -/
structure QueueRun where
  queue : EventQueue
  history : List (Fifo.Event (Addr × Message))

def QueueRun.step (s : QueueRun) (op : QueueOp) : Option QueueRun :=
  (op.call s.queue).map fun (result, queue) =>
    ⟨queue, s.history ++ (fifoEvent op result).toList⟩

/-- Any sequence of calls on the queue of a fresh process. -/
def queueRuns : Machine QueueRun QueueOp where
  start := ⟨.initial, []⟩
  step := QueueRun.step

/-- What holds of the pointers whatever was called: `content` is what `pHead`
leads to, `returned` are the events that `head` has handed out. -/
structure EventQueue.WellLinked (q : EventQueue)
    (content returned : List (Addr × Message)) : Prop where
  null : q.pHead = none ↔ q.pTail = none
  chain : Segment TGEvent.pNext TGEvent.message q.cells q.pHead content
  tail : q.pTail = content.getLast?.map Prod.fst
  tailNext : ∀ pEv, q.pTail = some pEv →
    ∃ cell, q.cells pEv = some cell ∧ cell.pNext = none
  count : q.queueCount = content.length
  outside : ∀ event ∈ returned, event.1 ∉ content.map Prod.fst
  kept : ∀ event ∈ returned, q.messageAt event.1 = some event.2

section Operations

variable {q : EventQueue} {content : List (Addr × Message)}

theorem takeHead_nil (hrep : q.Represents []) :
    takeHead q = some (none, q) := by
  rw [takeHead, head_nil hrep]
  rfl

theorem takeHead_cons {event : Addr × Message}
    {rest : List (Addr × Message)} (hrep : q.Represents (event :: rest)) :
    ∃ q', takeHead q = some (some event, q') ∧ q'.Represents rest ∧
      q'.cells = q.cells ∧ q.messageAt event.1 = some event.2 ∧
      event.1 ∉ rest.map Prod.fst := by
  obtain ⟨pEv, message⟩ := event
  obtain ⟨q', hhead, hrest, hcells, hmessage, hout⟩ := head_cons hrep
  refine ⟨q', ?_, hrest, hcells, hmessage, hout⟩
  have hsame : q'.messageAt pEv = some message := by
    rw [EventQueue.messageAt, hcells]
    exact hmessage
  rw [takeHead, hhead]
  change (q'.messageAt pEv).bind _ = _
  rw [hsame]
  rfl

theorem freeTGEvent_frame {q' : EventQueue} {a : Addr}
    (hfree : freeTGEvent q a = some q') {b : Addr} (hne : b ≠ a) :
    q'.cells b = q.cells b := by
  rw [freeTGEvent, Option.map_eq_some_iff] at hfree
  obtain ⟨pEv, -, rfl⟩ := hfree
  exact Function.update_of_ne hne _ _

/-- The loop ends with an empty queue and frees the cells of the queue only. -/
theorem cancelAllEventLoop_represents (hrep : q.Represents content)
    {rounds : Nat} (hrounds : content.length < rounds) :
    ∃ q', cancelAllEventLoop rounds q = some q' ∧ q'.Represents [] ∧
      ∀ b ∉ content.map Prod.fst, q'.cells b = q.cells b := by
  induction content generalizing q rounds with
  | nil =>
      obtain ⟨rounds, rfl⟩ := Nat.exists_eq_succ_of_ne_zero
        (Nat.ne_of_gt hrounds)
      refine ⟨q, ?_, hrep, fun _ _ => rfl⟩
      rw [cancelAllEventLoop, head_nil hrep]
      rfl
  | cons event rest ih =>
      obtain ⟨pEv, message⟩ := event
      obtain ⟨rounds, rfl⟩ := Nat.exists_eq_succ_of_ne_zero
        (Nat.ne_of_gt (Nat.zero_lt_of_lt hrounds))
      obtain ⟨taken, hhead, hrest, hcells, -, hout⟩ := head_cons hrep
      have hlive : taken.cells pEv ≠ none := by
        rw [hcells]
        exact hrep.chain.live List.mem_cons_self
      obtain ⟨freed, hfree, hrest⟩ := freeTGEvent_represents hrest hlive hout
      obtain ⟨q', hloop, hempty, hframe⟩ :=
        ih hrest (Nat.lt_of_succ_lt_succ hrounds)
      refine ⟨q', ?_, hempty, ?_⟩
      · rw [cancelAllEventLoop, hhead]
        change (freeTGEvent taken pEv).bind _ = _
        rw [hfree]
        exact hloop
      · intro b hb
        rw [List.map_cons, List.mem_cons, not_or] at hb
        rw [hframe b hb.2, freeTGEvent_frame hfree hb.1, hcells]

theorem cancelAllEvent_represents (hrep : q.Represents content) :
    ∃ q', cancelAllEvent q = some q' ∧ q'.Represents [] ∧
      ∀ b ∉ content.map Prod.fst, q'.cells b = q.cells b := by
  refine cancelAllEventLoop_represents hrep ?_
  rw [hrep.count]
  omega

end Operations

/-- What the runs keep: the cells hold what the history leaves in the queue,
and the events handed out are alive outside it. -/
structure QueueRun.Inv (s : QueueRun) (content : List (Addr × Message)) :
    Prop where
  leads : Fifo.Leads s.history content
  rep : s.queue.Represents content
  outside : ∀ event ∈ Fifo.everTaken s.history,
    event.1 ∉ content.map Prod.fst
  kept : ∀ event ∈ Fifo.everTaken s.history,
    s.queue.messageAt event.1 = some event.2

namespace QueueRun.Inv

variable {s s' : QueueRun} {content : List (Addr × Message)}

theorem start : QueueRun.Inv queueRuns.start [] where
  leads := .nil
  rep := EventQueue.represents_initial
  outside := by intro event hevent; cases hevent
  kept := by intro event hevent; cases hevent

theorem alive (hinv : s.Inv content) {event : Addr × Message}
    (hevent : event ∈ Fifo.everTaken s.history) :
    s.queue.cells event.1 ≠ none := by
  intro hnone
  have hkept := hinv.kept event hevent
  rw [EventQueue.messageAt, hnone] at hkept
  cases hkept

theorem push (hinv : s.Inv content) {a : Addr}
    (hfree : s.queue.cells a = none) (type : Int)
    (pData : Option (List Byte)) :
    ∃ next, s.step (.pushEventToQueue a type pData) = some next ∧
      next.Inv (content ++ [(a, type, pData)]) := by
  obtain ⟨q', hpush, hrep, hframe⟩ :=
    pushEventToQueue_represents hinv.rep hfree type pData
  refine ⟨⟨q', s.history ++ [.push (a, type, pData)]⟩, ?_, ?_, hrep, ?_, ?_⟩
  · rw [QueueRun.step, QueueOp.call, hpush]
    rfl
  · exact hinv.leads.snoc (.push _ _)
  · intro event hevent
    rw [Fifo.everTaken_push] at hevent
    have hne : event.1 ≠ a := by
      rintro rfl
      exact hinv.alive hevent hfree
    rw [List.map_append, List.mem_append, not_or]
    exact ⟨hinv.outside event hevent, by simpa using hne⟩
  · intro event hevent
    rw [Fifo.everTaken_push] at hevent
    have hne : event.1 ≠ a := by
      rintro rfl
      exact hinv.alive hevent hfree
    rw [EventQueue.messageAt,
      hframe _ hne (hinv.outside event hevent)]
    exact hinv.kept event hevent

/-- `head` takes what a first-in first-out queue would give. -/
theorem head (hinv : s.Inv content) :
    ∃ next, takeHead s.queue = some (content.head?, next) ∧
      QueueRun.Inv ⟨next, s.history ++ [.take content.head?]⟩
        content.tail := by
  rcases content with _ | ⟨event, rest⟩
  · refine ⟨s.queue, takeHead_nil hinv.rep, ?_, hinv.rep, ?_, ?_⟩
    · exact hinv.leads.snoc .empty
    · intro event _ hmem
      cases hmem
    · simpa using hinv.kept
  · obtain ⟨q', htake, hrep, hcells, hmessage, hout⟩ := takeHead_cons hinv.rep
    refine ⟨q', htake, hinv.leads.snoc (.take _ _), hrep, ?_, ?_⟩
    · intro other hother
      rw [List.head?_cons, Fifo.everTaken_take, List.mem_append] at hother
      rcases hother with hother | hother
      · intro hmem
        exact hinv.outside other hother (List.mem_cons_of_mem _ hmem)
      · rw [Option.toList_some, List.mem_singleton] at hother
        exact hother ▸ hout
    · intro other hother
      rw [List.head?_cons, Fifo.everTaken_take, List.mem_append] at hother
      rw [EventQueue.messageAt, hcells]
      rcases hother with hother | hother
      · exact hinv.kept other hother
      · rw [Option.toList_some, List.mem_singleton] at hother
        exact hother ▸ hmessage

theorem cancel (hinv : s.Inv content) :
    ∃ next, cancelAllEvent s.queue = some next ∧
      QueueRun.Inv ⟨next, s.history ++ [.clear]⟩ [] := by
  obtain ⟨q', hcancel, hrep, hframe⟩ := cancelAllEvent_represents hinv.rep
  refine ⟨q', hcancel, hinv.leads.snoc (.clear _), hrep, ?_, ?_⟩
  · intro event _ hmem
    cases hmem
  · intro event hevent
    rw [Fifo.everTaken_clear] at hevent
    rw [EventQueue.messageAt, hframe _ (hinv.outside event hevent)]
    exact hinv.kept event hevent

/-- Every call keeps the invariant. -/
theorem step (hinv : s.Inv content) {op : QueueOp}
    (hstep : s.step op = some s') : ∃ content, s'.Inv content := by
  cases op with
  | pushEventToQueue a type pData =>
      have hfree : s.queue.cells a = none := by
        by_contra hlive
        have hsome := Option.isSome_iff_ne_none.mpr hlive
        simp [QueueRun.step, QueueOp.call, TgServer.pushEventToQueue, hsome]
          at hstep
      obtain ⟨next, hnext, hinv⟩ := hinv.push hfree type pData
      rw [hnext, Option.some.injEq] at hstep
      exact ⟨_, hstep ▸ hinv⟩
  | head =>
      obtain ⟨next, htake, hinv⟩ := hinv.head
      rw [QueueRun.step, QueueOp.call, htake, Option.map_some,
        Option.map_some, Option.some.injEq] at hstep
      subst hstep
      exact ⟨_, hinv⟩
  | getQueueSize =>
      rw [QueueRun.step, QueueOp.call, Option.map_some, Option.some.injEq]
        at hstep
      refine ⟨content, hstep ▸ ?_⟩
      simpa [fifoEvent] using hinv
  | cancelAllEvent =>
      obtain ⟨next, hcancel, hinv⟩ := hinv.cancel
      rw [QueueRun.step, QueueOp.call, hcancel, Option.map_some,
        Option.map_some, Option.some.injEq] at hstep
      subst hstep
      exact ⟨_, hinv⟩

theorem wellLinked (hinv : s.Inv content) :
    s.queue.WellLinked content (Fifo.everTaken s.history) where
  null := by
    rw [hinv.rep.chain.nil_iff, hinv.rep.tail, Option.map_eq_none_iff,
      List.getLast?_eq_none_iff]
  chain := hinv.rep.chain
  tail := hinv.rep.tail
  tailNext := by
    intro pEv htail
    rw [hinv.rep.tail] at htail
    rcases List.eq_nil_or_concat' content with rfl | ⟨front, ⟨last, m⟩, rfl⟩
    · cases htail
    · obtain ⟨cell, hcell, -, hnext⟩ := hinv.rep.chain.last
      rw [List.getLast?_append, List.getLast?_singleton] at htail
      exact ⟨cell, Option.some.inj htail ▸ hcell, hnext⟩
  count := hinv.rep.count
  outside := hinv.outside
  kept := hinv.kept

end QueueRun.Inv

theorem queueRuns_inv {s : QueueRun} (hreach : queueRuns.Reachable s) :
    ∃ content, s.Inv content := by
  apply hreach.invariant
  · exact ⟨[], QueueRun.Inv.start⟩
  · rintro state op next ⟨content, hinv⟩ hstep
    exact hinv.step hstep

/-- Whatever was called so far, the events come out in the order they went in:
`head` returns the first event pushed and not taken since the last
`cancelAllEvent`, none if all were taken, the size is the number of those
events, cancelling ends with an empty queue, and the pointers are well
linked. -/
theorem queueRuns_fifo {s : QueueRun} (hreach : queueRuns.Reachable s) :
    Fifo.taken s.history <+: Fifo.pushed s.history ∧
    (takeHead s.queue).map Prod.fst = some
      ((Fifo.pushed s.history).drop (Fifo.taken s.history).length).head? ∧
    ((takeHead s.queue).map Prod.fst = some none ↔
      Fifo.taken s.history = Fifo.pushed s.history) ∧
    getQueueSize s.queue =
      (Fifo.pushed s.history).length - (Fifo.taken s.history).length ∧
    (∃ q, cancelAllEvent s.queue = some q ∧ q.Represents []) ∧
    (∀ pEv, s.queue.cells pEv = none → ∀ type pData,
      pushEventToQueue s.queue pEv type pData ≠ none) ∧
    s.queue.WellLinked
      ((Fifo.pushed s.history).drop (Fifo.taken s.history).length)
      (Fifo.everTaken s.history) := by
  obtain ⟨content, hinv⟩ := queueRuns_inv hreach
  obtain ⟨next, htake, -⟩ := hinv.head
  have hcontent := hinv.leads.content_eq
  refine ⟨?_, ?_, ?_, ?_, ?_, ?_, ?_⟩
  · rw [hinv.leads.pushed_eq]
    exact List.prefix_append _ _
  · rw [htake, ← hcontent]
    rfl
  · rw [htake, Option.map_some, Option.some.injEq, List.head?_eq_none_iff]
    exact hinv.leads.eq_nil_iff
  · rw [getQueueSize, hinv.rep.count, hinv.leads.length]
  · obtain ⟨q, hcancel, hrep, -⟩ := cancelAllEvent_represents hinv.rep
    exact ⟨q, hcancel, hrep⟩
  · intro pEv hfree type pData
    obtain ⟨q, hpush, -⟩ :=
      pushEventToQueue_represents hinv.rep hfree type pData
    rw [hpush]
    exact Option.some_ne_none q
  · rw [← hcontent]
    exact hinv.wellLinked

namespace EventFifo

/-- Two events, one of them taken, everything cancelled, and two events more
of which one is taken. -/
def calls : List QueueOp :=
  [.pushEventToQueue 1 1003 none, .pushEventToQueue 2 1001 (some (ascii "a")),
    .head, .getQueueSize, .cancelAllEvent,
    .pushEventToQueue 2 1001 (some (ascii "b")), .pushEventToQueue 3 1000 none,
    .head]

theorem queueRuns_fifo_calls :
    ∃ s, queueRuns.run queueRuns.start calls = some s ∧
      Fifo.pushed s.history =
        [(2, 1001, some (ascii "b")), (3, 1000, none)] ∧
      Fifo.taken s.history = [(2, 1001, some (ascii "b"))] ∧
      (takeHead s.queue).map Prod.fst = some (some (3, 1000, none)) ∧
      getQueueSize s.queue = 1 ∧
      s.queue.WellLinked [(3, 1000, none)]
        [(1, 1003, none), (2, 1001, some (ascii "b"))] := by
  have hfifo := queueRuns_fifo (s := _) ⟨calls, rfl⟩
  exact ⟨_, rfl, rfl, rfl, hfifo.2.1, hfifo.2.2.2.1, hfifo.2.2.2.2.2.2⟩

end EventFifo

end TgServer
