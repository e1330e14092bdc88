/-
The children of a server that has loaded `plugins/demo`: each runs `init` and
answers its client while the others store into the same segment.  `initPoint`
is run store by store, `do_request` as a whole: once a child has come to it, no
store of the others changes anything.
-/
import TgServer.DemoPlugin

namespace TgServer.Demo

open Bytes ByteStream Transition

/-- How far `initPoint` has come in a child, and the threads of the child once
its first call has returned. -/
structure DemoChild where
  stored : Nat
  session : Option (Session Nat Nat)

structure World where
  segment : Segment
  children : TgPid → DemoChild

/-- What a child reads, and what its memory holds where nothing is stored. -/
structure Outside where
  src : Source
  pipeSrc : Source
  junk : Nat → Nat → Byte
  stack : Nat → List Byte

inductive WorldStep where
  /-- The next store of `initPoint` in a child. -/
  | store (pid : TgPid)
  /-- `initAllServices` returns in `__do_request`. -/
  | start (pid : TgPid)
  /-- A step of the threads of a child; the reply that comes with it is that
  of another plugin. -/
  | session (pid : TgPid) (act : SessionStep)

/-- The event `handle_response` is called with. -/
def inHand (s : Session Nat Nat) : Option TGEvent :=
  match s.threads.responseAt with
  | .handle pEv => s.threads.queue.cells pEv
  | _ => none

/-- The child is in `init`: the first time before its threads run, then with
the event of the start. -/
def DemoChild.initialising (child : DemoChild) : Bool :=
  match child.session with
  | none => true
  | some s => (inHand s).any fun event =>
      decide (event.type = msgTypeClientInit)

section Machine

variable (p : TgPid → Child) (fn : Addr) (outside : TgPid → Outside)

/-- The threads of a child. -/
def threadsOf (pid : TgPid) : Machine (Session Nat Nat) SessionStep :=
  session (p pid) (outside pid).src.read (outside pid).junk
    (outside pid).pipeSrc.read (outside pid).stack 0 0

/-- What the call of `do_request` returns to the handler of the event: `fn` is
the function of this plugin.  The handler of the start returns behind the last
store. -/
def replyTo (pid : TgPid) (m : Segment) (stored : Nat) (event : TGEvent)
    (stack : List Byte) (other : Option Reply) : Option (Option Reply) :=
  if event.type = msgTypeClientInit then
    if stored = initPoint.length then some other else none
  else if event.type = msgTypeClientRequest then do
    let pReq ← event.data
    match checkRequest (p pid).registry pReq stack with
    | some (0, some pSer) =>
        if pSer.doRequest = fn then return some (← replyOf m pReq)
        else return other
    | _ => return other
  else some other

def World.step (w : World) : WorldStep → Option World
  | .store pid =>
      let child := w.children pid
      if child.initialising then do
        let (octet, offset) ← initPoint[child.stored]?
        return {
          segment := Function.update w.segment offset octet
          children := Function.update w.children pid
            { child with stored := child.stored + 1 } }
      else none
  | .start pid =>
      let child := w.children pid
      if child.session.isNone ∧ child.stored = initPoint.length then
        some { w with
          children := Function.update w.children pid
            ⟨0, some (threadsOf p outside pid).start⟩ }
      else none
  | .session pid act => do
      let child := w.children pid
      let s ← child.session
      match act with
      | .handle stack other =>
          let event ← inHand s
          let reply ← replyTo p fn pid w.segment child.stored event stack other
          let next ← (threadsOf p outside pid).step s (.handle stack reply)
          return { w with
            children := Function.update w.children pid ⟨0, some next⟩ }
      | act =>
          let next ← (threadsOf p outside pid).step s act
          return { w with
            children := Function.update w.children pid
              { child with session := some next } }

/-- The children of a server that has loaded the plugin, whatever the segment
holds at first. -/
def world (m : Segment) : Machine World WorldStep where
  start := ⟨m, fun _ => ⟨0, none⟩⟩
  step := World.step p fn outside

end Machine

section Points

/-- The eighteen points. -/
def initPoints : List Point :=
  (List.range 18).map fun i =>
    ⟨UInt32.ofNat ((i + 1) * 15), UInt32.ofNat ((i + 1) * 15)⟩

/-- What the client is sent for them: one octet more than the points have is
counted for each point, and four of these hold the count. -/
def pointsAnswer : Answer :=
  (ascii "tg://2000/", le32 18 ++ octetsOf initPoints ++ List.replicate 14 0)

/-- All that `initPoint` stores is there. -/
def Filled (m : Segment) : Prop := ∀ st ∈ initPoint, m st.2 = st.1

/-- What the stores leave in each place. -/
def filledAt (offset : Nat) : Byte :=
  if 14 ≤ offset then (octetsOf initPoints).getD (offset - 14) 0
  else (le32 18).getD (offset - 10) 0

theorem initPoint_filledAt : ∀ st ∈ initPoint, st.1 = filledAt st.2 := by
  decide +kernel

theorem initPoint_eq :
    initPoint =
      (octetsOf initPoints).zipIdx 14 ++ (le32 18).zipIdx 10 := by
  decide +kernel

variable {m : Segment}

/-- A store of any child leaves what another child has stored. -/
theorem store_keeps {st other : Byte × Nat} (hst : st ∈ initPoint)
    (hother : other ∈ initPoint) (hkept : m other.2 = other.1) :
    Function.update m st.2 st.1 other.2 = other.1 := by
  by_cases hsame : other.2 = st.2
  · rw [hsame, Function.update_self, initPoint_filledAt st hst,
      initPoint_filledAt other hother, hsame]
  · rw [Function.update_of_ne hsame, hkept]

theorem Filled.store (hfilled : Filled m) {st : Byte × Nat}
    (hst : st ∈ initPoint) : Filled (Function.update m st.2 st.1) :=
  fun other hother => store_keeps hst hother (hfilled other hother)

/-- Octets that were stored one behind the other are read back. -/
theorem map_stored {octets : List Byte} {offset : Nat}
    (hstored : ∀ st ∈ octets.zipIdx offset, m st.2 = st.1) :
    (List.range octets.length).map (fun i => m (offset + i)) = octets := by
  apply List.ext_getElem (by simp)
  intro i hi hlt
  have hmem : (octets[i], offset + i) ∈ octets.zipIdx offset := by
    rw [List.mk_add_mem_zipIdx_iff_getElem?]
    exact List.getElem?_eq_getElem hlt
  rw [List.getElem_map, List.getElem_range]
  exact hstored _ hmem

/-- The segment holds the eighteen points. -/
theorem Filled.holds (hfilled : Filled m) : Holds m initPoints := by
  have hcount := @map_stored m (le32 18) 10 fun st hst =>
    hfilled st (initPoint_eq ▸ List.mem_append_right _ hst)
  have hpoints := @map_stored m (octetsOf initPoints) 14 fun st hst =>
    hfilled st (initPoint_eq ▸ List.mem_append_left _ hst)
  have hlength : (octetsOf initPoints).length =
      sizeofPoint * initPoints.length := by decide +kernel
  rw [hlength] at hpoints
  constructor
  · exact congrArg some hcount
  · rw [Segment.read, if_pos (by decide), hpoints]

end Points

section Answers

variable {pSer : TGService} {stack : List Byte}
variable {p : TgPid → Child} {fn : Addr} {pid : TgPid} {m : Segment}

/-- The reply to a request with a NUL behind it. -/
theorem Filled.reply (hfilled : Filled m) :
    ∃ reply, replyOf m (allRequest ++ [0]) = some reply ∧
      intAt reply.block = (162 : Nat) ∧ reply.data = pointsAnswer.2 := by
  have hholds := hfilled.holds
  have hcount := hholds.countable (by decide) (by decide)
  obtain ⟨hnumber, hdata⟩ := hholds.data (by decide)
  obtain ⟨reply, hreply, hblock⟩ := hcount.reply
  obtain ⟨hsize, hsame⟩ := reply_data hcount hblock
  rw [hnumber] at hsize
  exact ⟨reply, hreply, hsize, hsame.trans hdata⟩

/-- A request for all points gets what the plugin returns. -/
theorem replyTo_all
    (hfound : findServiceN (p pid).registry (ascii "libdemo.so") =
      some (some pSer)) (hfn : pSer.doRequest = fn) {event : TGEvent}
    (htype : event.type = msgTypeClientRequest)
    (hdata : event.data = some (allRequest ++ [0]))
    (hstack : stack.head? = some 0) (stored : Nat) (other : Option Reply) :
    replyTo p fn pid m stored event stack other =
      (replyOf m (allRequest ++ [0])).map some := by
  have hcheck := checkRequest_all hfound hstack
  have hstart : ¬ event.type = msgTypeClientInit := by
    rw [htype]
    decide
  rw [replyTo, if_neg hstart, if_pos htype, hdata]
  simp only [Option.bind_eq_bind, Option.bind_some, hcheck, hfn, ↓reduceIte]
  cases replyOf m (allRequest ++ [0]) <;> rfl

/-- Whatever the other children store meanwhile, a request for all points is
answered with the eighteen points. -/
theorem answered_all
    (hfound : findServiceN (p pid).registry (ascii "libdemo.so") =
      some (some pSer)) (hfn : pSer.doRequest = fn) (hfilled : Filled m)
    {event : TGEvent} (htype : event.type = msgTypeClientRequest)
    (hdata : event.data.map List.dropLast = some allRequest)
    (hstack : stack.head? = some 0) {stored : Nat} {other reply : Option Reply}
    (hreply : replyTo p fn pid m stored event stack other = some reply)
    (hhandle : handleResponse (p pid) ⟨event, stack, reply⟩ ≠ none) :
    requestAnswer (p pid) ⟨event, stack, reply⟩ = [pointsAnswer] := by
  obtain ⟨pReq, check, hreq, hchecked⟩ := checked_of_handled htype hhandle
  dsimp only at hreq hchecked
  -- the block of the event is the request and a NUL
  have hzero : pReq = allRequest ++ [0] := by
    rw [hreq, Option.map_some, Option.some.injEq] at hdata
    have hne : pReq ≠ [] := by
      rintro rfl
      cases hdata
    have hsplit := List.dropLast_append_getLast hne
    rw [hdata] at hsplit
    rw [← hsplit] at hchecked
    rw [← hsplit, terminated_of_checked hchecked]
  subst hzero
  have hcheck := checkRequest_all hfound hstack
  rw [replyTo_all hfound hfn htype hreq hstack] at hreply
  obtain ⟨done, hdone, rfl⟩ := Option.map_eq_some_iff.mp hreply
  obtain ⟨filled, hreplied, hsize, hsame⟩ := hfilled.reply
  obtain rfl := Option.some.inj (hdone.symm.trans hreplied)
  have hpos : ¬ intAt done.block ≤ 0 := by omega
  rw [Reply.data] at hsame
  rw [requestAnswer, hreq]
  simp only [hcheck, ↓reduceIte, hpos, hsame]
  rfl

/-- Such a request is answered where its block ends with a NUL. -/
theorem request_answered
    (hfound : findServiceN (p pid).registry (ascii "libdemo.so") =
      some (some pSer)) (hfn : pSer.doRequest = fn) (hfilled : Filled m)
    {event : TGEvent} (htype : event.type = msgTypeClientRequest)
    (hdata : event.data = some (allRequest ++ [0]))
    (hstack : stack.head? = some 0) (stored : Nat) (other : Option Reply) :
    ∃ reply, replyTo p fn pid m stored event stack other = some reply ∧
      handleResponse (p pid) ⟨event, stack, reply⟩ ≠ none := by
  obtain ⟨reply, hreply, hsize, -⟩ := hfilled.reply
  have hcheck := checkRequest_all hfound hstack
  refine ⟨some reply, ?_, ?_⟩
  · rw [replyTo_all hfound hfn htype hdata hstack, hreply]
    rfl
  · rw [handled_reply htype hdata hcheck (by omega) (by omega)]
    exact Option.some_ne_none _

end Answers

section Runs

variable (p : TgPid → Child) (fn : Addr) (outside : TgPid → Outside)

/-- What a step does. -/
inductive World.Took (w : World) : WorldStep → World → Prop where
  | store {pid : TgPid} {octet : Byte} {offset : Nat}
      (hstore : initPoint[(w.children pid).stored]? = some (octet, offset)) :
      Took w (.store pid)
        { segment := Function.update w.segment offset octet
          children := Function.update w.children pid
            { w.children pid with stored := (w.children pid).stored + 1 } }
  | start {pid : TgPid} (hnone : (w.children pid).session = none)
      (hall : (w.children pid).stored = initPoint.length) :
      Took w (.start pid)
        { w with
          children := Function.update w.children pid
            ⟨0, some (threadsOf p outside pid).start⟩ }
  | handle {pid : TgPid} {stack : List Byte} {other reply : Option Reply}
      {s next : Session Nat Nat} {event : TGEvent}
      (hs : (w.children pid).session = some s) (hevent : inHand s = some event)
      (hreply : replyTo p fn pid w.segment (w.children pid).stored event stack
        other = some reply)
      (hstep : (threadsOf p outside pid).step s (.handle stack reply) =
        some next) :
      Took w (.session pid (.handle stack other))
        { w with
          children := Function.update w.children pid ⟨0, some next⟩ }
  | session {pid : TgPid} {act : SessionStep} {s next : Session Nat Nat}
      (hs : (w.children pid).session = some s)
      (hother : ∀ stack reply, act ≠ .handle stack reply)
      (hstep : (threadsOf p outside pid).step s act = some next) :
      Took w (.session pid act)
        { w with
          children := Function.update w.children pid
            { w.children pid with session := some next } }

variable {p fn outside} {w next : World} {act : WorldStep}

theorem World.step_took (hstep : w.step p fn outside act = some next) :
    w.Took p fn outside act next := by
  cases act with
  | store pid =>
      rw [World.step] at hstep
      dsimp only at hstep
      split at hstep
      · rw [Option.bind_eq_bind, Option.bind_eq_some_iff] at hstep
        obtain ⟨⟨octet, offset⟩, hstore, hnext⟩ := hstep
        exact Option.some.inj hnext ▸ .store hstore
      · cases hstep
  | start pid =>
      rw [World.step] at hstep
      split at hstep
      · next hat =>
        exact Option.some.inj hstep ▸
          .start (Option.isNone_iff_eq_none.mp hat.1) hat.2
      · cases hstep
  | session pid act =>
      rw [World.step] at hstep
      simp only [Option.bind_eq_bind, Option.bind_eq_some_iff] at hstep
      obtain ⟨s, hs, hstep⟩ := hstep
      cases act with
      | handle stack other =>
          simp only [Option.bind_eq_some_iff] at hstep
          obtain ⟨event, hevent, reply, hreply, last, hlast, hnext⟩ := hstep
          exact Option.some.inj hnext ▸ .handle hs hevent hreply hlast
      | select | readSock | readPipe | thread =>
          simp only [Option.bind_eq_some_iff] at hstep
          obtain ⟨last, hlast, hnext⟩ := hstep
          exact Option.some.inj hnext ▸ .session hs (by simp) hlast

/-- The request is one for all points. -/
def Asks (turn : Turn) : Prop :=
  turn.event.type = msgTypeClientRequest ∧
    turn.event.data.map List.dropLast = some allRequest

/-- What the buffer of the name lies in front of is a NUL. -/
def NameEnds : SessionStep → Prop
  | .handle stack _ => stack.head? = some 0
  | _ => True

instance : (act : SessionStep) → Decidable (NameEnds act)
  | .handle _ _ => inferInstanceAs (Decidable (_ = _))
  | .select _ | .readSock | .readPipe | .thread _ => .isTrue trivial

/-- The requests of the client of a child. -/
def asks (n : Nat) : List (List Byte) := List.replicate n allRequest

variable (p outside) in
/-- The client of one child waits for each answer; the other clients do what
they like. -/
def Patient (pid : TgPid) (n : Nat) (w : World) : WorldStep → Prop
  | .session other act => other = pid → ∀ s ∈ (w.children pid).session,
      StopAndWait (p pid) (asks n) (outside pid).src s act ∧ NameEnds act
  | _ => True

instance (pid : TgPid) (n : Nat) (w : World) :
    (act : WorldStep) → Decidable (Patient p outside pid n w act)
  | .session _ _ => inferInstanceAs (Decidable (_ → _))
  | .store _ | .start _ => .isTrue trivial

/-- What a child has stored is there and stays there. -/
structure Kept (w : World) : Prop where
  stored : ∀ pid, ∀ st ∈ initPoint.take (w.children pid).stored,
    w.segment st.2 = st.1
  filled : ∀ pid, (w.children pid).session ≠ none → Filled w.segment

theorem kept_start (m : Segment) : Kept (world p fn outside m).start where
  stored := by
    intro pid st hst
    cases hst
  filled := by
    intro pid hsession
    exact absurd rfl hsession

theorem Filled.kept (hfilled : Filled w.segment) : Kept w where
  stored := fun _ st hst => hfilled st (List.mem_of_mem_take hst)
  filled := fun _ _ => hfilled

theorem Kept.step (hkept : Kept w)
    (hstep : w.step p fn outside act = some next) : Kept next := by
  cases World.step_took hstep with
  | @store pid octet offset hstore =>
      have hmem := List.mem_of_getElem? hstore
      constructor
      · intro other st hst
        dsimp only at hst ⊢
        by_cases hsame : other = pid
        · subst hsame
          rw [Function.update_self, List.take_add_one, hstore] at hst
          rcases List.mem_append.mp hst with hbefore | hnow
          · exact store_keeps hmem (List.mem_of_mem_take hbefore)
              (hkept.stored other st hbefore)
          · rw [List.mem_singleton.mp hnow]
            exact Function.update_self _ _ _
        · rw [Function.update_of_ne hsame] at hst
          exact store_keeps hmem (List.mem_of_mem_take hst)
            (hkept.stored other st hst)
      · intro other hsession
        dsimp only at hsession
        apply Filled.store _ hmem
        by_cases hsame : other = pid
        · subst hsame
          rw [Function.update_self] at hsession
          exact hkept.filled other hsession
        · rw [Function.update_of_ne hsame] at hsession
          exact hkept.filled other hsession
  | @start pid hnone hall =>
      apply Filled.kept
      intro st hst
      apply hkept.stored pid
      rwa [hall, List.take_length]
  | @handle pid _ _ _ _ _ _ hs =>
      exact Filled.kept (hkept.filled pid (by simp [hs]))
  | @session pid _ _ _ hs =>
      exact Filled.kept (hkept.filled pid (by simp [hs]))

variable (p outside) in
/-- The client of the child gets its answers, and these are the points. -/
structure Conversing (pid : TgPid) (n : Nat) (orders : List Order)
    (s : Session Nat Nat) : Prop where
  dialogue : Dialogue (p pid) (asks n) orders (outside pid).src
    (outside pid).pipeSrc (outside pid).junk (outside pid).stack s
  answers : ∀ turn ∈ s.turns, Asks turn →
    requestAnswer (p pid) turn = [pointsAnswer]

/-- What is assumed of the child whose client is looked at. -/
structure Installed (p : TgPid → Child) (fn : Addr) (outside : TgPid → Outside)
    (pid : TgPid) (n : Nat) (orders : List Order) : Prop where
  sock : 0 ≤ (p pid).client.sockfd
  pipe : 0 ≤ (p pid).client.readPipe
  /-- The plugin is the one found under its name. -/
  found : ∃ pSer, findServiceN (p pid).registry (ascii "libdemo.so") =
    some (some pSer) ∧ pSer.doRequest = fn
  src : (outside pid).src.octets <+: wire (asks n)
  orders : (outside pid).pipeSrc.octets = orderStream orders
  digits : ∀ offset, FewDigits ((outside pid).stack offset)

section Conversations

variable {pid : TgPid} {n : Nat} {orders : List Order}
variable (hinstalled : Installed p fn outside pid n orders)

include hinstalled

theorem Conversing.step {s last : Session Nat Nat} {inner : SessionStep}
    (hconv : Conversing p outside pid n orders s)
    (hguard : StopAndWait (p pid) (asks n) (outside pid).src s inner)
    (hstep : (threadsOf p outside pid).step s inner = some last)
    (hanswer : ∀ turn ∈ last.turns, turn ∉ s.turns → Asks turn →
      requestAnswer (p pid) turn = [pointsAnswer]) :
    Conversing p outside pid n orders last where
  dialogue := by
    apply hconv.dialogue.step hinstalled.sock hinstalled.pipe hinstalled.src ?_
      hinstalled.digits hguard hstep
    intro request hrequest
    rw [List.eq_of_mem_replicate hrequest]
    decide
  answers := by
    intro turn hturn hasks
    by_cases hold : turn ∈ s.turns
    · exact hconv.answers turn hold hasks
    · exact hanswer turn hturn hold hasks

omit hinstalled in
/-- Only the handlers add to the record of what was handled. -/
theorem turns_step {s last : Session Nat Nat} {inner : SessionStep}
    (hother : ∀ stack reply, inner ≠ .handle stack reply)
    (hstep : (threadsOf p outside pid).step s inner = some last) :
    last.turns = s.turns := by
  obtain ⟨-, htook⟩ := Session.step_took hstep
  cases htook with
  | select | readSock | readPipe | thread => rfl
  | handle => exact absurd rfl (hother _ _)

/-- A handler that is called on a filled segment. -/
theorem Conversing.handle {s last : Session Nat Nat} {m : Segment}
    (hconv : Conversing p outside pid n orders s) (hfilled : Filled m)
    {stack : List Byte} {other reply : Option Reply} {event : TGEvent}
    {stored : Nat} (hstack : stack.head? = some 0)
    (hevent : inHand s = some event)
    (hreply : replyTo p fn pid m stored event stack other = some reply)
    (hstep : (threadsOf p outside pid).step s (.handle stack reply) =
      some last) :
    Conversing p outside pid n orders last := by
  obtain ⟨pSer, hfound, hfn⟩ := hinstalled.found
  have hguard : StopAndWait (p pid) (asks n) (outside pid).src s
      (.handle stack reply) := trivial
  apply hconv.step hinstalled hguard hstep
  intro turn hturn hnew hasks
  have htaken : s.step (p pid) (outside pid).src.read (outside pid).junk
      (outside pid).pipeSrc.read (outside pid).stack (.handle stack reply) =
      some last := hstep
  obtain ⟨-, htook⟩ := Session.step_took htaken
  cases htook with
  | @handle _ _ pEv event' ret effects threads hat hcell hhandle =>
      rw [inHand, hat] at hevent
      obtain rfl := Option.some.inj (hcell.symm.trans hevent)
      rcases List.mem_append.mp hturn with hold | hnow
      · exact absurd hold hnew
      · obtain rfl := List.mem_singleton.mp hnow
        exact answered_all hfound hfn hfilled hasks.1 hasks.2 hstack hreply
          (by simp [hhandle])

/-- What holds in every state of the server. -/
theorem conversing_step (hkept : Kept w)
    (hconv : ∀ s, (w.children pid).session = some s →
      Conversing p outside pid n orders s)
    (hguard : Patient p outside pid n w act)
    (hstep : w.step p fn outside act = some next) :
    ∀ s, (next.children pid).session = some s →
      Conversing p outside pid n orders s := by
  intro s hs
  cases World.step_took hstep with
  | @store other octet offset hstore =>
      apply hconv
      dsimp only at hs
      by_cases hsame : pid = other
      · subst hsame
        rwa [Function.update_self] at hs
      · rwa [Function.update_of_ne hsame] at hs
  | @start other hnone hall =>
      dsimp only at hs
      by_cases hsame : pid = other
      · subst hsame
        rw [Function.update_self] at hs
        obtain rfl := Option.some.inj hs
        exact ⟨dialogue_start hinstalled.orders,
          fun turn hturn => absurd hturn List.not_mem_nil⟩
      · rw [Function.update_of_ne hsame] at hs
        exact hconv s hs
  | @handle other stack reply reply' before last event hbefore hevent hreply
      hlast =>
      dsimp only at hs
      by_cases hsame : pid = other
      · subst hsame
        rw [Function.update_self] at hs
        obtain rfl := Option.some.inj hs
        have hstack := (hguard rfl before hbefore).2
        exact (hconv before hbefore).handle hinstalled
          (hkept.filled pid (by simp [hbefore])) hstack hevent hreply hlast
      · rw [Function.update_of_ne hsame] at hs
        exact hconv s hs
  | @session other inner before last hbefore hother hlast =>
      dsimp only at hs
      by_cases hsame : pid = other
      · subst hsame
        rw [Function.update_self] at hs
        obtain rfl := Option.some.inj hs
        apply (hconv before hbefore).step hinstalled
          (hguard rfl before hbefore).1 hlast
        intro turn hturn hnew
        rw [turns_step hother hlast] at hturn
        exact absurd hturn hnew
      · rw [Function.update_of_ne hsame] at hs
        exact hconv s hs

omit hinstalled in
/-- Every request that was handled is for all points. -/
theorem Conversing.asks {s : Session Nat Nat}
    (hconv : Conversing p outside pid n orders s) :
    ∀ turn ∈ asked s.turns, Asks turn := by
  intro turn hturn
  obtain ⟨hmem, hasks⟩ := List.mem_filter.mp hturn
  obtain ⟨frames, tail, r, -, hreading⟩ := hconv.dialogue.spoken
  have hrequests := hreading.asked.2
  have hmessage : turn.event.message ∈ s.turns.map (·.event.message) :=
    List.mem_map_of_mem hmem
  have htype : turn.event.message.1 = msgTypeClientRequest :=
    of_decide_eq_true hasks
  rcases (hreading.tame_turns _ hmessage).requestsOf with
    ⟨-, data, hdata⟩ | ⟨hother, -⟩
  swap
  · exact absurd htype hother
  refine ⟨htype, ?_⟩
  have hsame : turn.event.data.map List.dropLast = some data := by
    rw [requestsOf, List.filterMap_cons, List.filterMap_nil,
      if_pos htype] at hdata
    cases hmap : turn.event.message.2.map List.dropLast with
    | none =>
        rw [hmap] at hdata
        cases hdata
    | some other =>
        rw [hmap] at hdata
        rw [← (List.cons.inj hdata).1]
        exact hmap
  have hasked : data ∈ requestsOf (s.turns.map (·.event.message)) := by
    rw [requestsOf, List.mem_filterMap]
    exact ⟨turn.event.message, hmessage, by rw [if_pos htype]; exact hsame⟩
  rw [hrequests] at hasked
  rw [hsame, List.eq_of_mem_replicate (List.mem_of_mem_take hasked)]

omit hinstalled in
/-- What the client has received are the points, once for each answer. -/
theorem Conversing.answered {s : Session Nat Nat}
    (hconv : Conversing p outside pid n orders s) :
    ∃ k, answered (p pid) s.effects = List.replicate k pointsAnswer ∧
      k ≤ (asked s.turns).length ∧ (asked s.turns).length ≤ k + 1 := by
  obtain ⟨frames, tail, r, hspoken, -⟩ := hconv.dialogue.spoken
  have hall : ∀ turn ∈ asked s.turns,
      requestAnswer (p pid) turn = [pointsAnswer] := fun turn hturn =>
    hconv.answers turn (List.mem_of_mem_filter hturn) (hconv.asks turn hturn)
  have hsaid := hspoken.answers
  rw [due, List.flatMap_congr hall, ← List.map_eq_flatMap,
    List.map_const'] at hsaid
  refine ⟨frames.length, ?_, hspoken.low, hspoken.high⟩
  rw [hspoken.answered_eq]
  exact List.eq_replicate_of_mem fun answer hanswer =>
    List.eq_of_mem_replicate (hsaid.subset hanswer)

/-- The request in hand of a child is one that is answered. -/
theorem request_taken (hkept : Kept w) {s : Session Nat Nat}
    (hs : (w.children pid).session = some s) (halive : s.ended = false)
    {event : TGEvent} (hevent : inHand s = some event)
    (htype : event.type = msgTypeClientRequest)
    (hdata : event.data = some (allRequest ++ [0])) {stack : List Byte}
    (hstack : stack.head? = some 0) (other : Option Reply) :
    ∃ next, w.step p fn outside (.session pid (.handle stack other)) =
      some next := by
  obtain ⟨pSer, hfound, hfn⟩ := hinstalled.found
  have hfilled := hkept.filled pid (by simp [hs])
  obtain ⟨reply, hreply, hhandle⟩ := request_answered hfound hfn hfilled htype
    hdata hstack (w.children pid).stored other
  obtain ⟨⟨ret, effects⟩, hresult⟩ := Option.ne_none_iff_exists'.mp hhandle
  have hcell := hevent
  rw [inHand] at hcell
  cases hat : s.threads.responseAt with
  | handle pEv =>
      simp only [hat] at hcell
      have hthread : ∃ threads, s.threads.step .responseHandle =
          some threads := by
        simp [Threads.step, hat, EventQueue.messageAt, hcell]
      obtain ⟨threads, hthread⟩ := hthread
      have hlast : ∃ last, (threadsOf p outside pid).step s
          (.handle stack reply) = some last := by
        apply Option.isSome_iff_exists.mp
        simp [threadsOf, session, Session.step, halive, hat, hcell, hresult,
          hthread]
      obtain ⟨last, hlast⟩ := hlast
      apply Option.isSome_iff_exists.mp
      simp [World.step, hs, hevent, hreply, hlast]
  | _ => simp [hat] at hcell

end Conversations

/-- However the stores of the children and the steps of their threads come one
after the other: a client that waits for its answers and asks for all points
is sent the eighteen points each time, with one request at most still
unanswered, and a request in hand whose block ends with a NUL is always
answered. -/
theorem demo_answers {pid : TgPid} {n : Nat} {orders : List Order}
    (hinstalled : Installed p fn outside pid n orders) (m : Segment)
    (hreach : (world p fn outside m).GuardedReachable
      (Patient p outside pid n) w)
    {s : Session Nat Nat} (hs : (w.children pid).session = some s) :
    (∃ k, answered (p pid) s.effects = List.replicate k pointsAnswer ∧
      k ≤ (asked s.turns).length ∧ (asked s.turns).length ≤ k + 1) ∧
    ∀ event stack other, s.ended = false → inHand s = some event →
      event.type = msgTypeClientRequest →
      event.data = some (allRequest ++ [0]) → stack.head? = some 0 →
      ∃ next, w.step p fn outside (.session pid (.handle stack other)) =
        some next := by
  have hinv : Kept w ∧ ∀ s, (w.children pid).session = some s →
      Conversing p outside pid n orders s := by
    apply hreach.invariant
    · exact ⟨kept_start m, fun s hnone => by cases hnone⟩
    · rintro state act next ⟨hkept, hconv⟩ hguard hstep
      exact ⟨hkept.step hstep,
        conversing_step hinstalled hkept hconv hguard hstep⟩
  obtain ⟨hkept, hconv⟩ := hinv
  refine ⟨(hconv s hs).answered, ?_⟩
  intro event stack other halive hevent htype hdata hstack
  exact request_taken hinstalled hkept hs halive hevent htype hdata hstack
    other

end Runs

namespace DemoChildren

open DemoPlugin (child)

/-- The client asks once, and the pipe is silent. -/
def quiet : Outside :=
  ⟨⟨wire (asks 1), fun _ => 255⟩, ⟨orderStream [], fun _ => 10⟩, fun _ _ => 0,
    fun _ => [0]⟩

def stores (pid : TgPid) (n : Nat) : List WorldStep :=
  List.replicate n (.store pid)

def threadSteps (acts : List ThreadStep) : List WorldStep :=
  acts.map fun act => .session 1 (.thread act)

/-- A message is sent and taken from the queue. -/
def sent : List ThreadStep :=
  [.readerLock, .readerPush 1, .readerSignal, .readerUnlock, .responseLock,
    .responseHead, .responseUnlock]

/-- Child 1 answers its client while child 2 is in `initPoint`. -/
def steps : List WorldStep :=
  stores 2 3 ++ stores 1 148 ++ [.start 1] ++
    threadSteps (.responseCreate :: sent) ++ stores 2 5 ++ stores 1 148 ++
    [.session 1 (.handle [0] none)] ++ threadSteps [.responseFree] ++
    [.session 1 (.select ⟨true, false⟩), .session 1 .readSock] ++
    stores 2 4 ++ threadSteps sent ++ [.session 1 (.handle [0] none)]

/-- The segment holds ones at first. -/
def server : Machine World WorldStep :=
  world (fun _ => child) 3 (fun _ => quiet) fun _ => 255

theorem installed :
    Installed (fun _ => child) 3 (fun _ => quiet) 1 1 [] where
  sock := by decide
  pipe := by decide
  found := ⟨_, rfl, rfl⟩
  src := by decide
  orders := rfl
  digits := fun _ => show FewDigits [0] by decide

theorem demo_answers_steps :
    ∃ w s, server.run server.start steps = some w ∧
      (w.children 1).session = some s ∧
      answered child s.effects = [pointsAnswer] ∧
      (∃ k, answered child s.effects = List.replicate k pointsAnswer ∧
        k ≤ (asked s.turns).length ∧ (asked s.turns).length ≤ k + 1) ∧
      ∀ event stack other, s.ended = false → inHand s = some event →
        event.type = msgTypeClientRequest →
        event.data = some (allRequest ++ [0]) → stack.head? = some 0 →
        ∃ next, w.step (fun _ => child) 3 (fun _ => quiet)
          (.session 1 (.handle stack other)) = some next :=
  have hcheck : (server.run server.start steps).any (fun w =>
      (w.children 1).session.any fun s =>
        decide (answered child s.effects = [pointsAnswer])) = true := by
    decide +kernel
  have hguard : server.Guarded
      (Patient (fun _ => child) (fun _ => quiet) 1 1) server.start steps := by
    decide +kernel
  let ⟨w, hrun, hw⟩ := (Option.any_eq_true _ _).mp hcheck
  let ⟨s, hs, hat⟩ := (Option.any_eq_true _ _).mp hw
  ⟨w, s, hrun, hs, of_decide_eq_true hat,
    demo_answers installed _ ⟨steps, hguard, hrun⟩ hs⟩

end DemoChildren

end TgServer.Demo
