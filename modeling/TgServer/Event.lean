/-
The event queue of `tg_event.c`: cells linked through `pNext` between `pHead`
and `pTail`.  `none` is an access through NULL or to a freed cell, or a second
`free`.
-/
import Mathlib.Data.List.Nodup
import TgServer.Bytes
import TgServer.LinkedCells

namespace TgServer

open Bytes LinkedCells

/-- The type and the data of an event. -/
abbrev Message := Int × Option (List Byte)

structure TGEvent where
  token : Int
  type : Int
  data : Option (List Byte)
  pNext : Option Addr
deriving Repr, DecidableEq

def TGEvent.message (pEv : TGEvent) : Message := (pEv.type, pEv.data)

/-- The statics of `tg_event.c` and the events that are allocated. -/
structure EventQueue where
  pHead : Option Addr
  pTail : Option Addr
  queueCount : Int
  cells : Addr → Option TGEvent

namespace EventQueue

def initial : EventQueue := ⟨none, none, 0, fun _ => none⟩

/-- `a->pNext = p`. -/
def setNext (q : EventQueue) (a : Addr) (p : Option Addr) :
    Option EventQueue :=
  (q.cells a).map fun pEv =>
    { q with cells := Function.update q.cells a (some { pEv with pNext := p }) }

/-- The message at an address. -/
def messageAt (q : EventQueue) (a : Addr) : Option Message :=
  (q.cells a).map TGEvent.message

end EventQueue

/-- `a` is what `malloc` returns: some address that holds no event. -/
def pushEventToQueue (q : EventQueue) (a : Addr) (type : Int)
    (pData : Option (List Byte)) : Option EventQueue :=
  if (q.cells a).isSome then none
  else
    let pEv : TGEvent := ⟨-1, type, pData, none⟩
    let q := { q with cells := Function.update q.cells a (some pEv) }
    let linked := match q.pHead with
      | none => some { q with pHead := some a, pTail := some a }
      | some _ => do
          let q ← q.setNext (← q.pTail) (some a)
          return { q with pTail := some a }
    do
      let q ← linked
      let q ← q.setNext (← q.pTail) none
      return { q with queueCount := q.queueCount + 1 }

def head (q : EventQueue) : Option (Option Addr × EventQueue) :=
  match q.pHead with
  | none => some (none, q)
  | some a => do
      let pEv ← q.cells a
      let pTail := if pEv.pNext = none then none else q.pTail
      return (some a,
        { q with
          pHead := pEv.pNext, pTail := pTail, queueCount := q.queueCount - 1 })

def freeTGEvent (q : EventQueue) (a : Addr) : Option EventQueue :=
  (q.cells a).map fun _ => { q with cells := Function.update q.cells a none }

/-- The queue holds the listed events, from head to tail. -/
structure EventQueue.Represents (q : EventQueue)
    (content : List (Addr × Message)) : Prop where
  chain : Segment TGEvent.pNext TGEvent.message q.cells q.pHead content
  tail : q.pTail = content.getLast?.map Prod.fst
  distinct : (content.map Prod.fst).Nodup
  count : q.queueCount = content.length

theorem EventQueue.represents_initial : EventQueue.initial.Represents [] where
  chain := rfl
  tail := rfl
  distinct := List.nodup_nil
  count := rfl

section Operations

variable {q : EventQueue} {content : List (Addr × Message)}

/-- The first event of a queue. -/
theorem pushEventToQueue_nil (hrep : q.Represents []) {a : Addr}
    (hfree : q.cells a = none) (type : Int) (pData : Option (List Byte)) :
    ∃ q', pushEventToQueue q a type pData = some q' ∧
      q'.Represents [(a, type, pData)] ∧
      ∀ b, b ≠ a → q'.cells b = q.cells b := by
  have hnull : q.pHead = none := hrep.chain
  have hcount : q.queueCount = 0 := hrep.count
  refine ⟨⟨some a, some a, 1,
    Function.update q.cells a (some ⟨-1, type, pData, none⟩)⟩, ?_, ?_, ?_⟩
  · simp [pushEventToQueue, hfree, hnull, EventQueue.setNext, hcount]
  · exact
      { chain := ⟨rfl, _, Function.update_self .., rfl, rfl⟩
        tail := rfl
        distinct := List.nodup_singleton a
        count := rfl }
  · exact fun b hb => Function.update_of_ne hb _ _

/-- A further event is linked to the last one. -/
theorem pushEventToQueue_snoc {front : List (Addr × Message)} {last : Addr}
    {message : Message} (hrep : q.Represents (front ++ [(last, message)]))
    {a : Addr} (hfree : q.cells a = none) (type : Int)
    (pData : Option (List Byte)) :
    ∃ q', pushEventToQueue q a type pData = some q' ∧
      q'.Represents (front ++ [(last, message)] ++ [(a, type, pData)]) ∧
      ∀ b, b ≠ a → b ≠ last → q'.cells b = q.cells b := by
  obtain ⟨pLast, hlast, hmessage, -⟩ := hrep.chain.last
  have htail : q.pTail = some last := by simp [hrep.tail]
  have hhead : q.pHead ≠ none := by simp [hrep.chain.nil_iff]
  obtain ⟨first, hfirst⟩ := Option.ne_none_iff_exists'.mp hhead
  have hne : last ≠ a := by
    rintro rfl
    rw [hfree] at hlast
    cases hlast
  have hfresh : ∀ b ∈ (front ++ [(last, message)]).map Prod.fst, b ≠ a := by
    rintro b hb rfl
    exact hrep.chain.live hb hfree
  have hdistinct := hrep.distinct
  refine ⟨⟨some first, some a, q.queueCount + 1,
    Function.update (Function.update q.cells last
      (some { pLast with pNext := some a })) a
        (some ⟨-1, type, pData, none⟩)⟩, ?_, ?_, ?_⟩
  · simp [pushEventToQueue, hfree, hfirst, htail, EventQueue.setNext, hlast,
      hne, hne.symm, Function.update_comm hne]
  · constructor
    · have hchain := hrep.chain
      rw [hfirst] at hchain
      apply hchain.snoc _ _ _ _ (Function.update_self ..) rfl rfl
      · exact { pLast with pNext := some a }
      · intro b hb
        have hmem : b ∈ (front ++ [(last, message)]).map Prod.fst := by
          rw [List.map_append]
          exact List.mem_append_left _ hb
        have hblast : b ≠ last := by
          rw [List.map_append, List.nodup_append] at hdistinct
          exact hdistinct.2.2 b hb last List.mem_cons_self
        rw [Function.update_of_ne (hfresh b hmem),
          Function.update_of_ne hblast]
      · rw [Function.update_of_ne hne, Function.update_self]
      · exact hmessage
      · rfl
    · simp
    · rw [List.map_append, List.nodup_append]
      refine ⟨hdistinct, List.nodup_singleton a, ?_⟩
      intro b hb c hc
      rw [List.map_singleton, List.mem_singleton] at hc
      exact hc ▸ hfresh b hb
    · simp only [hrep.count, List.length_append, List.length_singleton]
      omega
  · intro b hba hbl
    simp only [Function.update_of_ne hba, Function.update_of_ne hbl]

/-- Pushing appends the event and touches the cells of the queue only. -/
theorem pushEventToQueue_represents (hrep : q.Represents content) {a : Addr}
    (hfree : q.cells a = none) (type : Int) (pData : Option (List Byte)) :
    ∃ q', pushEventToQueue q a type pData = some q' ∧
      q'.Represents (content ++ [(a, type, pData)]) ∧
      ∀ b, b ≠ a → b ∉ content.map Prod.fst → q'.cells b = q.cells b := by
  rcases List.eq_nil_or_concat' content with rfl | ⟨front, ⟨last, m⟩, rfl⟩
  · obtain ⟨q', hpush, hnext, hframe⟩ :=
      pushEventToQueue_nil hrep hfree type pData
    exact ⟨q', hpush, hnext, fun b hb _ => hframe b hb⟩
  · obtain ⟨q', hpush, hnext, hframe⟩ :=
      pushEventToQueue_snoc hrep hfree type pData
    refine ⟨q', hpush, hnext, fun b hb hout => hframe b hb ?_⟩
    rintro rfl
    apply hout
    simp

/-- Taking the head of an empty queue changes nothing. -/
theorem head_nil (hrep : q.Represents []) : head q = some (none, q) := by
  have hnull : q.pHead = none := hrep.chain
  rw [head, hnull]

/-- Taking the head removes the first event and leaves its cell alone. -/
theorem head_cons {a : Addr} {message : Message}
    {rest : List (Addr × Message)}
    (hrep : q.Represents ((a, message) :: rest)) :
    ∃ q', head q = some (some a, q') ∧ q'.Represents rest ∧
      q'.cells = q.cells ∧ q.messageAt a = some message ∧
      a ∉ rest.map Prod.fst := by
  obtain ⟨hhead, pEv, hcell, hmessage, hrest⟩ := hrep.chain
  have hdistinct := hrep.distinct
  rw [List.map_cons, List.nodup_cons] at hdistinct
  have hcount := hrep.count
  rw [List.length_cons] at hcount
  refine ⟨⟨pEv.pNext, if pEv.pNext = none then none else q.pTail,
    q.queueCount - 1, q.cells⟩, by simp [head, hhead, hcell],
    ⟨hrest, ?_, hdistinct.2, ?_⟩, rfl, ?_, hdistinct.1⟩
  · have hnull := hrest.nil_iff
    rcases List.eq_nil_or_concat' rest with rfl | ⟨front, last, rfl⟩
    · simp [hnull.mpr rfl]
    · have hsome : pEv.pNext ≠ none := by simp [hnull]
      have htail := hrep.tail
      rw [← List.cons_append, List.getLast?_append] at htail
      simpa [hsome] using htail
  · simp only
    omega
  · rw [EventQueue.messageAt, hcell, Option.map_some, hmessage]

/-- Freeing an event outside the queue leaves the queue alone. -/
theorem freeTGEvent_represents (hrep : q.Represents content) {a : Addr}
    (hlive : q.cells a ≠ none) (houtside : a ∉ content.map Prod.fst) :
    ∃ q', freeTGEvent q a = some q' ∧ q'.Represents content := by
  obtain ⟨pEv, hcell⟩ := Option.ne_none_iff_exists'.mp hlive
  refine ⟨{ q with cells := Function.update q.cells a none },
    by rw [freeTGEvent, hcell]; rfl,
    ⟨hrep.chain.frame ?_, hrep.tail, hrep.distinct, hrep.count⟩⟩
  intro b hb
  have hne : b ≠ a := fun heq => houtside (heq ▸ hb)
  exact Function.update_of_ne hne _ _

end Operations

end TgServer
