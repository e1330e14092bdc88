/-
A client process and a client that sends its next request once it has the
answer to the one before.  Such a client never has two requests on the way, so
the reader cannot drop the second one.  The connection may end anywhere, and a
read may cut a length field, which the reader takes for the end; what the
services do, what the administrator orders and how the threads are scheduled is
left open.
-/
import TgServer.OrderSafety
import TgServer.QuitOnce
import TgServer.ReplyStream
import TgServer.Session

namespace TgServer

open Bytes ByteStream Transition

/-- The event is a request. -/
def Turn.asks (turn : Turn) : Bool :=
  decide (turn.event.type = msgTypeClientRequest)

/-- The requests among the messages, without the spare octet of their
blocks. -/
def requestsOf (messages : List Message) : List (List Byte) :=
  messages.filterMap fun message =>
    if message.1 = msgTypeClientRequest then message.2.map List.dropLast
    else none

/-- The requests that were handled. -/
def asked (turns : List Turn) : List Turn := turns.filter Turn.asks

/-- What the server had to say to them. -/
def due (p : Child) (turns : List Turn) : List Answer :=
  (asked turns).flatMap (requestAnswer p)

/-- What the client makes of the octets written so far. -/
def answered (p : Child) (effects : List Effect) : List Answer :=
  receive (written p.client.sockfd effects)

/-- The octets of the requests sent by a client that waits for each answer
before it goes on. -/
def sentOctets (p : Child) (requests : List (List Byte))
    (s : Session Nat Nat) : Nat :=
  (wire (requests.take ((answered p s.effects).length + 1))).length

/-- A read of the socket gets nothing that is not sent yet. -/
def StopAndWait (p : Child) (requests : List (List Byte)) (src : Source)
    (s : Session Nat Nat) : SessionStep → Prop
  | .readSock =>
      s.sock + (src.chunk s.sock bufSize).length ≤ sentOctets p requests s
  | _ => True

instance (p : Child) (requests : List (List Byte)) (src : Source)
    (s : Session Nat Nat) :
    (act : SessionStep) → Decidable (StopAndWait p requests src s act)
  | .readSock => inferInstanceAs (Decidable (_ ≤ _))
  | .select _ | .readPipe | .thread _ | .handle _ _ => .isTrue trivial

section Streams

/-- A message with data, as it is framed. -/
def Framed (message : Answer) : Prop :=
  message.1.length = 10 ∧ 14 + message.2.length < 2 ^ 32

/-- The octets of framed messages. -/
def framesOf (frames : List Answer) : List Byte :=
  frames.flatMap fun message => Framing.encode (message.1 ++ message.2)

/-- At most two messages without a length field. -/
def Bare (tail : List Byte) : Prop :=
  tail = [] ∨ tail.length ≤ 20 ∧ ∃ rest, tail = ascii "tg:/" ++ rest

theorem receive_tail {tail : List Byte} (hbare : Bare tail) :
    receive tail = [] := by
  have hnone : Framing.decodeOne tail = none := by
    rcases hbare with rfl | ⟨hlength, rest, rfl⟩
    · rfl
    · have hword : (wordAt (ascii "tg:/" ++ rest)).toNat = 0x2F3A6774 := by
        change (word 116 103 58 47).toNat = 0x2F3A6774
        rw [word_toNat]
        decide
      rw [Framing.decodeOne, if_pos]
      rw [hword]
      omega
  rw [receive, Framing.decode_none hnone]
  rfl

/-- The client finds the framed messages and stops in front of the rest. -/
theorem receive_frames {frames : List Answer}
    (hframes : ∀ message ∈ frames, Framed message) {tail : List Byte}
    (hbare : Bare tail) : receive (framesOf frames ++ tail) = frames := by
  induction frames with
  | nil => exact receive_tail hbare
  | cons message rest ih =>
      obtain ⟨hheader, hsize⟩ := hframes message List.mem_cons_self
      have hrest :=
        ih fun other hother => hframes other (List.mem_cons_of_mem _ hother)
      rw [framesOf] at hrest
      rw [framesOf, List.flatMap_cons, List.append_assoc,
        receive_frame message hheader hsize, hrest]

theorem length_notice {id : Nat} (hlisted : Listed id) :
    (notice id).1.length = 10 := by
  have hall : ∀ message ∈ gHandleResponseMsg, message.length = 10 := by
    decide
  have hlt : id - responseBase < gHandleResponseMsg.length := by
    have hlow := hlisted.1
    have hhigh := hlisted.2
    omega
  apply hall
  rw [notice, List.getD_eq_getElem?_getD, List.getElem?_eq_getElem hlt]
  exact List.getElem_mem hlt

/-- A message without a length field, behind at most one other. -/
theorem Bare.append {tail : List Byte} (hbare : Bare tail)
    (hten : tail.length ≤ 10) {id : Nat} (hlisted : Listed id) :
    Bare (tail ++ (notice id).1) := by
  have hlength := length_notice hlisted
  obtain ⟨rest, hrest⟩ := notice_octets hlisted
  refine Or.inr ⟨by rw [List.length_append]; omega, ?_⟩
  rcases hbare with rfl | ⟨-, more, rfl⟩
  · exact ⟨47 :: rest, by rw [List.nil_append, hrest]⟩
  · exact ⟨more ++ (notice id).1, by rw [List.append_assoc]⟩

end Streams

section Messages

/-- The event is a request with its data, a quit, one of the orders or the
start signal, or `handle_response` rejects it. -/
def Tame (message : Message) : Prop :=
  (message.1 = msgTypeClientRequest ∧ message.2 ≠ none) ∨
  message.1 = msgTypeClientQuit ∨ message.1 = msgTypeServerShutDown ∨
  message.1 = msgTypeClientInit ∨ message.1 = msgTypeClientBeClosedByAdmin ∨
  dispatched message.1 = false

@[simp] theorem requestsOf_append (first second : List Message) :
    requestsOf (first ++ second) = requestsOf first ++ requestsOf second :=
  List.filterMap_append

/-- A tame message holds a request exactly if it is of that type. -/
theorem Tame.requestsOf {message : Message} (htame : Tame message) :
    (message.1 = msgTypeClientRequest ∧
      ∃ data, requestsOf [message] = [data]) ∨
    (message.1 ≠ msgTypeClientRequest ∧ requestsOf [message] = []) := by
  by_cases htype : message.1 = msgTypeClientRequest
  · left
    have hdata : message.2 ≠ none := by
      rcases htame with ⟨-, hdata⟩ | hother | hother | hother | hother | hother
      · exact hdata
      · exact absurd (htype.symm.trans hother) (by decide)
      · exact absurd (htype.symm.trans hother) (by decide)
      · exact absurd (htype.symm.trans hother) (by decide)
      · exact absurd (htype.symm.trans hother) (by decide)
      · rw [htype] at hother
        cases hother
    obtain ⟨data, hsome⟩ := Option.ne_none_iff_exists'.mp hdata
    exact ⟨htype, data.dropLast,
      by simp [TgServer.requestsOf, htype, hsome]⟩
  · exact Or.inr ⟨htype, by simp [TgServer.requestsOf, htype]⟩

theorem requestsOf_mono {first second : List Message}
    (hhandled : first <+: second) : requestsOf first <+: requestsOf second :=
  hhandled.filterMap _

/-- Only the requests count. -/
theorem requestsOf_asked (turns : List Turn) :
    requestsOf ((asked turns).map (·.event.message)) =
      requestsOf (turns.map (·.event.message)) := by
  induction turns with
  | nil => rfl
  | cons turn rest ih =>
      rw [asked] at ih
      rw [asked, List.filter_cons]
      by_cases htype : turn.event.type = msgTypeClientRequest
      · have hasks : turn.asks = true := by simp [Turn.asks, htype]
        rw [if_pos hasks, List.map_cons, List.map_cons,
          ← List.singleton_append, requestsOf_append, ih,
          ← requestsOf_append, List.singleton_append]
      · have hasks : ¬ turn.asks = true := by simp [Turn.asks, htype]
        have hnone : requestsOf [turn.event.message] = [] := by
          simp [TgServer.requestsOf, TGEvent.message, htype]
        rw [if_neg hasks, ih, List.map_cons, ← List.singleton_append,
          requestsOf_append, hnone, List.nil_append]

/-- Every request that was handled has its data. -/
theorem length_asked {turns : List Turn}
    (htame : ∀ message ∈ turns.map (·.event.message), Tame message) :
    (asked turns).length =
      (requestsOf (turns.map (·.event.message))).length := by
  induction turns with
  | nil => rfl
  | cons turn rest ih =>
      rw [List.map_cons, List.forall_mem_cons] at htame
      have hsplit := requestsOf_append [turn.event.message]
        (rest.map (·.event.message))
      rw [List.singleton_append] at hsplit
      rw [List.map_cons, hsplit, List.length_append, ← ih htame.2, asked,
        List.filter_cons]
      rcases htame.1.requestsOf with ⟨htype, data, hdata⟩ | ⟨htype, hnone⟩
      · have hasks : turn.asks = true := decide_eq_true htype
        rw [if_pos hasks, hdata, List.length_cons, Nat.add_comm]
        rfl
      · have hasks : ¬ turn.asks = true := fun hasks =>
          htype (of_decide_eq_true hasks)
        rw [if_neg hasks, hnone, List.length_nil, Nat.zero_add]
        rfl

/-- One of the messages is a quit. -/
def HasQuit (messages : List Message) : Prop :=
  ∃ message ∈ messages, message.1 = msgTypeClientQuit

/-- The messages up to the first quit; those behind it are not handled. -/
def untilQuit : List Message → List Message
  | [] => []
  | message :: rest =>
      if message.1 = msgTypeClientQuit then [message]
      else message :: untilQuit rest

theorem mem_of_mem_untilQuit {messages : List Message} {message : Message}
    (hmem : message ∈ untilQuit messages) : message ∈ messages := by
  induction messages with
  | nil => exact hmem
  | cons head rest ih =>
      rw [untilQuit] at hmem
      split at hmem
      · rw [List.mem_singleton.mp hmem]
        exact List.mem_cons_self
      · rcases List.mem_cons.mp hmem with rfl | hlater
        · exact List.mem_cons_self
        · exact List.mem_cons_of_mem _ (ih hlater)

theorem untilQuit_append {messages : List Message}
    (hnone : ¬ HasQuit messages) (more : List Message) :
    untilQuit (messages ++ more) = messages ++ untilQuit more := by
  induction messages with
  | nil => rfl
  | cons message rest ih =>
      have hother : message.1 ≠ msgTypeClientQuit := fun htype =>
        hnone ⟨message, List.mem_cons_self, htype⟩
      have hrest : ¬ HasQuit rest := fun ⟨quit, hmem, htype⟩ =>
        hnone ⟨quit, List.mem_cons_of_mem _ hmem, htype⟩
      rw [List.cons_append, untilQuit, if_neg hother, ih hrest,
        List.cons_append]

theorem untilQuit_eq {messages : List Message} (hnone : ¬ HasQuit messages) :
    untilQuit messages = messages := by
  have hall := untilQuit_append hnone []
  rwa [untilQuit, List.append_nil] at hall

theorem untilQuit_late {messages : List Message} (hquit : HasQuit messages)
    (more : List Message) :
    untilQuit (messages ++ more) = untilQuit messages := by
  induction messages with
  | nil =>
      obtain ⟨quit, hmem, -⟩ := hquit
      cases hmem
  | cons message rest ih =>
      by_cases htype : message.1 = msgTypeClientQuit
      · rw [List.cons_append, untilQuit, untilQuit, if_pos htype,
          if_pos htype]
      · have hrest : HasQuit rest := by
          obtain ⟨quit, hmem, hsame⟩ := hquit
          rcases List.mem_cons.mp hmem with rfl | hlater
          · exact absurd hsame htype
          · exact ⟨quit, hlater, hsame⟩
        rw [List.cons_append, untilQuit, untilQuit, if_neg htype,
          if_neg htype, ih hrest]

/-- What is handled without a quit before it comes up to the first quit. -/
theorem prefix_untilQuit {handled sent : List Message} {message : Message}
    (hnone : ¬ HasQuit handled) (hhandled : handled ++ [message] <+: sent) :
    handled ++ [message] <+: untilQuit sent := by
  obtain ⟨later, rfl⟩ := hhandled
  rw [List.append_assoc, untilQuit_append hnone, List.prefix_append_right_inj,
    List.singleton_append, untilQuit]
  split
  · exact List.prefix_rfl
  · exact (List.prefix_cons_inj message).mpr List.nil_prefix

end Messages

section Speaking

variable {p : Child} {turns : List Turn} {effects : List Effect}
variable {frames : List Answer} {tail : List Byte}

/-- What the process has written: the answers to the requests, framed, and
behind the last of them what has no length field.  As long as the process goes
on, either every request has been answered so, or the last one has not. -/
structure Spoken (p : Child) (turns : List Turn) (effects : List Effect)
    (ended : Bool) (frames : List Answer) (tail : List Byte) : Prop where
  octets : written p.client.sockfd effects = framesOf frames ++ tail
  framed : ∀ message ∈ frames, Framed message
  bare : Bare tail
  answers : frames <+: due p turns
  low : frames.length ≤ (asked turns).length
  high : (asked turns).length ≤ frames.length + 1
  waiting : ended = false →
    ((asked turns).length = frames.length ∧ frames = due p turns ∧
      tail = []) ∨
    ((asked turns).length = frames.length + 1 ∧ tail.length ≤ 10)

theorem Spoken.answered_eq {ended : Bool}
    (hspoken : Spoken p turns effects ended frames tail) :
    answered p effects = frames := by
  rw [answered, hspoken.octets]
  exact receive_frames hspoken.framed hspoken.bare

theorem asked_snoc (turns : List Turn) (turn : Turn) :
    asked (turns ++ [turn]) =
      asked turns ++ if turn.asks then [turn] else [] := by
  rw [asked, List.filter_append, List.filter_singleton, asked]
  cases turn.asks <;> rfl

theorem due_snoc (p : Child) (turns : List Turn) (turn : Turn) :
    due p (turns ++ [turn]) =
      due p turns ++ if turn.asks then requestAnswer p turn else [] := by
  rw [due, asked_snoc, List.flatMap_append]
  split
  · rw [List.flatMap_singleton]
    rfl
  · rfl

/-- A request is answered by one framed message, by one without a length field
or not at all. -/
theorem Spoken.request (hspoken : Spoken p turns effects false frames tail)
    (hopen : (asked turns).length = frames.length) {turn : Turn}
    (hasks : turn.asks = true) {ret : Int} {more : List Effect}
    (hhandle : handleResponse p turn = some (ret, more)) :
    ∃ frames' tail', frames <+: frames' ∧
      Spoken p (turns ++ [turn]) (effects ++ more) (exits more) frames'
        tail' := by
  have hasked : (asked (turns ++ [turn])).length = frames.length + 1 := by
    rw [asked_snoc, if_pos hasks, List.length_append, hopen,
      List.length_singleton]
  have hdue := due_snoc p turns turn
  rw [if_pos hasks] at hdue
  obtain ⟨-, rfl, rfl⟩ : _ ∧ frames = due p turns ∧ tail = [] := by
    rcases hspoken.waiting rfl with hcase | hcase
    · exact hcase
    · omega
  have hanswer : answer p turn = requestAnswer p turn := by
    rw [answer, if_pos (of_decide_eq_true hasks)]
  have hwritten := hspoken.octets
  rw [List.append_nil] at hwritten
  by_cases hbare : AnsweredBare p turn
  · obtain ⟨ret', more', hsame, id, hlisted, hnotice, hsaid⟩ :=
      handleResponse_bare p hbare
    obtain ⟨-, rfl⟩ := Prod.mk.inj (Option.some.inj (hsame.symm.trans hhandle))
    have hten := length_notice hlisted
    refine ⟨due p turns, (notice id).1, List.prefix_rfl, ?_⟩
    constructor
    · rw [written_append, hwritten, hnotice]
    · exact hspoken.framed
    · have hbare' := hspoken.bare.append (Nat.zero_le _) hlisted
      rwa [List.nil_append] at hbare'
    · rw [hdue]
      exact List.prefix_append _ _
    · omega
    · omega
    · exact fun _ => Or.inr ⟨hasked, Nat.le_of_eq hten⟩
  · obtain ⟨hframed, -⟩ := handleResponse_framed p hbare hhandle
    rcases hframed with ⟨hnothing, hsaid⟩ |
      ⟨message, hheader, hsize, hmessage, hsaid⟩
    · refine ⟨due p turns, [], List.prefix_rfl, ?_⟩
      constructor
      · rw [written_append, hwritten, hnothing]
      · exact hspoken.framed
      · exact Or.inl rfl
      · rw [hdue]
        exact List.prefix_append _ _
      · omega
      · omega
      · exact fun _ => Or.inr ⟨hasked, Nat.zero_le _⟩
    · rw [← hanswer, hsaid] at hdue
      refine ⟨due p turns ++ [message], [], List.prefix_append _ _, ?_⟩
      have hlength : (due p turns ++ [message]).length =
          (due p turns).length + 1 := List.length_append
      constructor
      · rw [written_append, hwritten, hmessage, framesOf, framesOf,
          List.flatMap_append, List.flatMap_singleton, List.append_nil]
      · intro other hother
        rcases List.mem_append.mp hother with hold | hnew
        · exact hspoken.framed other hold
        · rw [List.mem_singleton.mp hnew]
          exact ⟨hheader, hsize⟩
      · exact Or.inl rfl
      · rw [hdue]
      · omega
      · omega
      · exact fun _ => Or.inl ⟨by omega, hdue.symm, rfl⟩

/-- The handlers of the orders end the process. -/
theorem handleResponse_leaves (p : Child) {turn : Turn}
    (htype : turn.event.type = msgTypeServerShutDown ∨
      turn.event.type = msgTypeClientBeClosedByAdmin) :
    ∃ ret effects, handleResponse p turn = some (ret, effects) ∧
      exits effects = true := by
  obtain ⟨last, hleave, -, hexits⟩ := leave_eq p p.client.sockfd [.sleep 2] rfl
  have hsend : ∀ id, Listed id → ∃ ret effects,
      (leave p [.sleep 2]).bind (send p.client id) = some (ret, effects) ∧
        exits effects = true := by
    intro id hlisted
    refine ⟨handleResponseSuccess,
      .write p.client.sockfd (notice id).1 :: last, ?_, hexits⟩
    rw [hleave]
    exact send_notice p.client id hlisted _
  rcases htype with htype | htype
  · rw [handleResponse_eq, htype]
    exact hsend responseServerShutDown (by decide)
  · rw [handleResponse_eq, htype]
    exact hsend responseConnClosedByAdmin (by decide)

/-- An event without anything to say. -/
theorem Spoken.silent (hspoken : Spoken p turns effects false frames tail)
    {turn : Turn} (hasks : turn.asks = false) {more : List Effect}
    (hnothing : written p.client.sockfd more = []) (ended : Bool) :
    Spoken p (turns ++ [turn]) (effects ++ more) ended frames tail := by
  have hasked : asked (turns ++ [turn]) = asked turns := by
    rw [asked_snoc, hasks]
    exact List.append_nil _
  have hdue : due p (turns ++ [turn]) = due p turns := by
    rw [due, hasked, due]
  constructor
  · rw [written_append, hnothing, List.append_nil, hspoken.octets]
  · exact hspoken.framed
  · exact hspoken.bare
  · rw [hdue]
    exact hspoken.answers
  · rw [hasked]
    exact hspoken.low
  · rw [hasked]
    exact hspoken.high
  · rw [hasked, hdue]
    exact fun _ => hspoken.waiting rfl

/-- An order is the last thing that is said. -/
theorem Spoken.order (hspoken : Spoken p turns effects false frames tail)
    {turn : Turn} (htype : turn.event.type = msgTypeServerShutDown ∨
      turn.event.type = msgTypeClientBeClosedByAdmin)
    {ret : Int} {more : List Effect}
    (hhandle : handleResponse p turn = some (ret, more)) :
    ∃ tail', Spoken p (turns ++ [turn]) (effects ++ more) (exits more) frames
      tail' := by
  have hasks : turn.asks = false := by
    rw [Turn.asks]
    rcases htype with htype | htype <;> rw [htype] <;> rfl
  have hasked : asked (turns ++ [turn]) = asked turns := by
    rw [asked_snoc, hasks]
    exact List.append_nil _
  have hdue : due p (turns ++ [turn]) = due p turns := by
    rw [due, hasked, due]
  have hbare : AnsweredBare p turn := by
    rcases htype with htype | htype
    · exact Or.inr (Or.inl htype)
    · exact Or.inr (Or.inr (Or.inl htype))
  obtain ⟨ret', more', hsame, id, hlisted, hnotice, -⟩ :=
    handleResponse_bare p hbare
  obtain ⟨-, rfl⟩ := Prod.mk.inj (Option.some.inj (hsame.symm.trans hhandle))
  obtain ⟨ret'', more'', hsame', hexits⟩ := handleResponse_leaves p htype
  obtain ⟨-, rfl⟩ := Prod.mk.inj (Option.some.inj (hsame'.symm.trans hhandle))
  have hten : tail.length ≤ 10 := by
    rcases hspoken.waiting rfl with ⟨-, -, rfl⟩ | ⟨-, hten⟩
    · exact Nat.zero_le _
    · exact hten
  refine ⟨tail ++ (notice id).1, ?_⟩
  constructor
  · rw [written_append, hnotice, hspoken.octets, List.append_assoc]
  · exact hspoken.framed
  · exact hspoken.bare.append hten hlisted
  · rw [hdue]
    exact hspoken.answers
  · rw [hasked]
    exact hspoken.low
  · rw [hasked]
    exact hspoken.high
  · rw [hexits]
    exact fun halive => by cases halive

/-- Neither a quit nor the start signal is answered in the short form. -/
theorem not_answeredBare {turn : Turn}
    (htype : turn.event.type = msgTypeClientQuit ∨
      turn.event.type = msgTypeClientInit) : ¬ AnsweredBare p turn := by
  rintro (hother | hother | hother | ⟨hother, -⟩) <;>
    rcases htype with htype | htype <;>
      exact absurd (htype.symm.trans hother) (by decide)

/-- Nothing is said to a quit or the start signal. -/
theorem Spoken.mute (hspoken : Spoken p turns effects false frames tail)
    {turn : Turn} (hasks : turn.asks = false)
    (htype : turn.event.type = msgTypeClientQuit ∨
      turn.event.type = msgTypeClientInit)
    {ret : Int} {more : List Effect}
    (hhandle : handleResponse p turn = some (ret, more)) :
    Spoken p (turns ++ [turn]) (effects ++ more) (exits more) frames tail := by
  have hanswer : answer p turn = [] := by
    rw [answer]
    rcases htype with htype | htype <;> rw [htype] <;> rfl
  obtain ⟨hframed, -⟩ :=
    handleResponse_framed p (not_answeredBare htype) hhandle
  rcases hframed with ⟨hnothing, -⟩ | ⟨message, -, -, -, hsaid⟩
  · exact hspoken.silent hasks hnothing _
  · rw [hanswer] at hsaid
    cases hsaid

/-- What a tame event adds. -/
theorem Spoken.handle (hspoken : Spoken p turns effects false frames tail)
    {turn : Turn} (htame : Tame turn.event.message)
    (hopen : turn.asks = true → (asked turns).length = frames.length)
    {ret : Int} {more : List Effect}
    (hhandle : handleResponse p turn = some (ret, more)) :
    ∃ frames' tail', frames <+: frames' ∧
      Spoken p (turns ++ [turn]) (effects ++ more) (exits more) frames'
        tail' := by
  by_cases hasks : turn.asks = true
  · exact hspoken.request (hopen hasks) hasks hhandle
  have hquiet : turn.asks = false := eq_false_of_ne_true hasks
  rcases htame with ⟨htype, -⟩ | htype | htype | htype | htype | hrejected
  · exact absurd (decide_eq_true htype) hasks
  · exact ⟨frames, tail, List.prefix_rfl,
      hspoken.mute hquiet (Or.inl htype) hhandle⟩
  · obtain ⟨tail', hnext⟩ := hspoken.order (Or.inl htype) hhandle
    exact ⟨frames, tail', List.prefix_rfl, hnext⟩
  · exact ⟨frames, tail, List.prefix_rfl,
      hspoken.mute hquiet (Or.inr htype) hhandle⟩
  · obtain ⟨tail', hnext⟩ := hspoken.order (Or.inr htype) hhandle
    exact ⟨frames, tail', List.prefix_rfl, hnext⟩
  · have hcheck : checkEvent turn.event = false := hrejected
    rw [handleResponse, hcheck] at hhandle
    obtain ⟨-, rfl⟩ := Prod.mk.inj (Option.some.inj hhandle)
    exact ⟨frames, tail, List.prefix_rfl, hspoken.silent hquiet rfl _⟩

end Speaking

section Runs

variable (p : Child) (requests : List (List Byte)) (orders : List Order)
variable (src pipeSrc : Source) (junk : Nat → Nat → Byte)
variable (stack : Nat → List Byte)

/-- Up to the first quit the reader has sent whole requests, at most one more
than the client has answers for, and only these events are handled. -/
structure Reading (s : Session Nat Nat) (frames : List Answer) (r : Nat) :
    Prop where
  within : r ≤ requests.length
  tame : ∀ message ∈ untilQuit s.threads.sent, Tame message
  sent : requestsOf (untilQuit s.threads.sent) = requests.take r
  handled : s.turns.map (·.event.message) <+: untilQuit s.threads.sent
  place : ¬ HasQuit s.threads.sent →
    s.sock = (wire (requests.take r)).length
  ahead : r ≤ frames.length + 1

/-- What holds in every state of a dialogue. -/
structure Dialogue (s : Session Nat Nat) : Prop where
  process : s.Inv p src.read junk pipeSrc.read stack 0 0
  pipe : ∃ i, At pipeSrc s.pipe i orders
  quit : HasQuit (s.turns.map (·.event.message)) → s.ended = true
  spoken : ∃ frames tail r,
    Spoken p s.turns s.effects s.ended frames tail ∧
      Reading requests s frames r

variable {p requests orders src pipeSrc junk stack}
variable {s next : Session Nat Nat}

theorem Reading.tame_turns {frames : List Answer} {r : Nat}
    (hreading : Reading requests s frames r) :
    ∀ message ∈ s.turns.map (·.event.message), Tame message :=
  fun message hmem => hreading.tame message (hreading.handled.subset hmem)

theorem Reading.noQuit {frames : List Answer} {r : Nat}
    (hreading : Reading requests s frames r)
    (hnone : ¬ HasQuit s.threads.sent) :
    (∀ message ∈ s.threads.sent, Tame message) ∧
      requestsOf s.threads.sent = requests.take r ∧
      s.turns.map (·.event.message) <+: s.threads.sent := by
  have hsame := untilQuit_eq hnone
  exact ⟨hsame ▸ hreading.tame, hsame ▸ hreading.sent,
    hsame ▸ hreading.handled⟩

/-- The requests handled are the first ones of those read. -/
theorem Reading.asked {frames : List Answer} {r : Nat}
    (hreading : Reading requests s frames r) :
    (asked s.turns).length ≤ r ∧
      requestsOf (s.turns.map (·.event.message)) =
        requests.take (asked s.turns).length := by
  have hrequests := requestsOf_mono hreading.handled
  rw [hreading.sent] at hrequests
  have hlength := length_asked hreading.tame_turns
  have hle := hrequests.length_le
  rw [← hlength, List.length_take] at hle
  refine ⟨hle.trans (Nat.min_le_left _ _), ?_⟩
  have htake := List.prefix_iff_eq_take.mp hrequests
  rwa [← hlength, List.take_take,
    Nat.min_eq_left (hle.trans (Nat.min_le_left _ _))] at htake

theorem dialogue_start (hpipe : pipeSrc.octets = orderStream orders) :
    Dialogue p requests orders src pipeSrc junk stack
      (session p src.read junk pipeSrc.read stack 0 0).start where
  process := Session.inv_start
  pipe := ⟨0, by rw [← hpipe]; rfl, Nat.zero_le _⟩
  quit := fun ⟨_, hmem, _⟩ => absurd hmem List.not_mem_nil
  spoken := by
    refine ⟨[], [], 0, ?_, Nat.zero_le _, ?_, rfl, List.nil_prefix,
      fun _ => rfl, Nat.zero_le _⟩
    · exact ⟨rfl, fun message hmem => absurd hmem List.not_mem_nil,
        Or.inl rfl, List.nil_prefix, Nat.le_refl _, Nat.zero_le _,
        fun _ => Or.inl ⟨rfl, rfl, rfl⟩⟩
    · intro message hmem
      have hinit : message = clientInit := List.mem_singleton.mp hmem
      rw [hinit]
      exact Or.inr (Or.inr (Or.inr (Or.inl rfl)))

/-- Events that are no requests, or come behind a quit. -/
theorem Reading.more {frames : List Answer} {r : Nat}
    (hreading : Reading requests s frames r) {more : List Message}
    (hmore : HasQuit s.threads.sent ∨
      ∀ message ∈ more, Tame message ∧ message.1 ≠ msgTypeClientRequest)
    (hsent : next.threads.sent = s.threads.sent ++ more)
    (hturns : next.turns = s.turns)
    (hsock : ¬ HasQuit (s.threads.sent ++ more) → next.sock = s.sock) :
    Reading requests next frames r := by
  by_cases hquit : HasQuit s.threads.sent
  · have hsame := untilQuit_late hquit more
    rw [← hsent] at hsame
    have hlate : HasQuit next.threads.sent := by
      obtain ⟨quit, hmem, htype⟩ := hquit
      exact ⟨quit, hsent ▸ List.mem_append_left _ hmem, htype⟩
    exact ⟨hreading.within, hsame ▸ hreading.tame, hsame ▸ hreading.sent,
      hturns ▸ hsame ▸ hreading.handled, fun hnone => absurd hlate hnone,
      hreading.ahead⟩
  have hquiet : ∀ message ∈ untilQuit more,
      Tame message ∧ message.1 ≠ msgTypeClientRequest := fun message hmem =>
    (hmore.resolve_left hquit) message (mem_of_mem_untilQuit hmem)
  have hsame := untilQuit_append hquit more
  obtain ⟨htame, hrequests, hhandled⟩ := hreading.noQuit hquit
  refine ⟨hreading.within, ?_, ?_, ?_, ?_, hreading.ahead⟩
  · intro message hmem
    rw [hsent, hsame] at hmem
    rcases List.mem_append.mp hmem with hold | hnew
    · exact htame message hold
    · exact (hquiet message hnew).1
  · have hnone : requestsOf (untilQuit more) = [] := by
      rw [requestsOf, List.filterMap_eq_nil_iff]
      exact fun message hmem => if_neg (hquiet message hmem).2
    rw [hsent, hsame, requestsOf_append, hnone, List.append_nil, hrequests]
  · rw [hsent, hsame, hturns]
    exact hhandled.trans (List.prefix_append _ _)
  · intro hnone
    rw [hsent] at hnone
    rw [hsock hnone, hreading.place hquit]

/-- A client that waits for its answers has sent one request at most that is
not read yet. -/
theorem Reading.unread {frames : List Answer} {r : Nat}
    (hread : Reading requests s frames r) (hge : frames.length ≤ r)
    (hnone : ¬ HasQuit s.threads.sent) {chunk : Nat} (hfour : 4 ≤ chunk)
    (hwithin : s.sock + chunk ≤
      (wire (requests.take (frames.length + 1))).length) :
    ∃ request rest, requests.drop r = request :: rest ∧ r = frames.length ∧
      chunk ≤ (frame request).length := by
  have hplace := hread.place hnone
  have hr : r = frames.length := by
    have hahead := hread.ahead
    by_contra hne
    have hsame : r = frames.length + 1 := by omega
    rw [hplace, hsame] at hwithin
    omega
  cases hdrop : requests.drop r with
  | nil =>
      exfalso
      rw [List.drop_eq_nil_iff] at hdrop
      rw [hplace, List.take_of_length_le hdrop,
        List.take_of_length_le (by omega)] at hwithin
      omega
  | cons request rest =>
      refine ⟨request, rest, rfl, hr, ?_⟩
      have hone : requests.take (frames.length + 1) =
          requests.take r ++ [request] := by
        rw [← hr, List.take_add, hdrop]
        rfl
      have hwire : wire (requests.take r ++ [request]) =
          wire (requests.take r) ++ frame request := by
        rw [wire, List.flatMap_append, List.flatMap_singleton]
        rfl
      rw [hplace, hone, hwire, List.length_append] at hwithin
      omega

/-- Where a call at the head of a frame does not meet the end, the stream holds
the whole frame. -/
theorem frame_whole {offset : Nat} {request tail : List Byte}
    (hmax : request.length ≤ 2 ^ 31 - 2)
    (hpart : src.octets.drop offset <+: frame request ++ tail)
    (hends : ¬ socketEnds src.read offset = true) :
    ∃ rest, src.octets.drop offset = frame request ++ rest := by
  rcases List.prefix_or_prefix_of_prefix hpart (List.prefix_append _ _) with
    hshort | ⟨rest, hrest⟩
  · by_cases hcut : (src.octets.drop offset).length < (frame request).length
    · exact absurd (socketEnds_cut src hmax hshort hcut) hends
    · refine ⟨[], ?_⟩
      rw [List.append_nil]
      exact hshort.eq_of_length_le (Nat.le_of_not_lt hcut)
  · exact ⟨rest, hrest.symm⟩

/-- The next request is read whole, or the end is met. -/
theorem Reading.sockRead {frames : List Answer} {r : Nat}
    (hreading : Reading requests s frames r) (hge : frames.length ≤ r)
    (hfd : 0 ≤ p.client.sockfd) (hsrc : src.octets <+: wire requests)
    (hrequests : ∀ request ∈ requests,
      1 ≤ request.length ∧ request.length ≤ 2 ^ 31 - 2)
    (hwithin : s.sock + (src.chunk s.sock bufSize).length ≤
      (wire (requests.take (frames.length + 1))).length)
    {signals : List Signal} {sock : Nat}
    (hread : sockCall p.client src.read junk s.sock = some (signals, sock))
    (hsent : next.threads.sent =
      s.threads.sent ++ signals.map Signal.message)
    (hturns : next.turns = s.turns) (hsock : next.sock = sock) :
    ∃ r', Reading requests next frames r' := by
  by_cases hquit : HasQuit s.threads.sent
  · refine ⟨r, hreading.more (Or.inl hquit) hsent hturns fun hnone => ?_⟩
    obtain ⟨quit, hmem, htype⟩ := hquit
    exact absurd ⟨quit, List.mem_append_left _ hmem, htype⟩ hnone
  obtain ⟨signal, rfl, hends⟩ := sockCall_quit hfd hread
  rw [List.map_singleton] at hsent
  by_cases hend : socketEnds src.read s.sock = true
  · -- the reader takes it for the end of the connection
    have htype : signal.message.1 = msgTypeClientQuit := hends.mpr hend
    refine ⟨r, hreading.more (Or.inr fun message hmem => ?_) hsent hturns
      fun hnone => absurd ⟨signal.message, by simp, htype⟩ hnone⟩
    rw [List.mem_singleton.mp hmem]
    exact ⟨Or.inr (Or.inl htype), htype ▸ by decide⟩
  have hfour : 4 ≤ (src.chunk s.sock bufSize).length :=
    Nat.le_of_not_lt fun hfew => hend (socketEnds_few src hfew)
  obtain ⟨request, rest, hdrop, hr, hle⟩ :=
    hreading.unread hge hquit hfour hwithin
  have hplace := hreading.place hquit
  obtain ⟨hpos, hmax⟩ := hrequests request
    (List.mem_of_mem_drop (hdrop ▸ List.mem_cons_self))
  have hone : requests.take (r + 1) = requests.take r ++ [request] := by
    rw [List.take_add, hdrop]
    rfl
  have hsplit : wire requests =
      wire (requests.take r) ++ (frame request ++ wire rest) := by
    conv_lhs => rw [← List.take_append_drop r requests, hdrop]
    rw [wire, List.flatMap_append, List.flatMap_cons]
    rfl
  have hpart : src.octets.drop s.sock <+: frame request ++ wire rest := by
    have hdropped := hsrc.drop s.sock
    rwa [hsplit, List.drop_left' hplace.symm] at hdropped
  obtain ⟨tail, hstream⟩ := frame_whole hmax hpart hend
  obtain ⟨spare, hframe⟩ :=
    sockCall_frame hfd src junk hpos hmax hstream hfour
  rw [hframe, Option.some.injEq, Prod.mk.injEq, List.cons.injEq] at hread
  obtain ⟨⟨rfl, -⟩, rfl⟩ := hread
  have hsame : untilQuit next.threads.sent = s.threads.sent ++
      [(msgTypeClientRequest, some (request ++ [spare]))] := by
    rw [hsent, untilQuit_append hquit]
    rfl
  obtain ⟨htame, hrequested, hhandled⟩ := hreading.noQuit hquit
  refine ⟨r + 1, ?_, ?_, ?_, ?_, ?_, ?_⟩
  · have hlength := congrArg List.length hdrop
    rw [List.length_drop, List.length_cons] at hlength
    omega
  · intro message hmem
    rw [hsame] at hmem
    rcases List.mem_append.mp hmem with hold | hnew
    · exact htame message hold
    · rw [List.mem_singleton.mp hnew]
      exact Or.inl ⟨rfl, Option.some_ne_none _⟩
  · rw [hsame, requestsOf_append, hrequested, hone]
    simp [requestsOf]
  · rw [hsame, hturns]
    exact hhandled.trans (List.prefix_append _ _)
  · intro
    rw [hsock, hone, wire, List.flatMap_append, List.flatMap_singleton,
      List.length_append, Nat.max_eq_left hle, hplace, wire]
  · omega

/-- A message of the main process is an order or is rejected. -/
theorem pipeCall_tame {i offset : Nat} (hat : At pipeSrc offset i orders)
    (hfd : 0 ≤ p.client.readPipe) (hfew : FewDigits (stack offset)) :
    (∀ signal ∈ (pipeCall p.client pipeSrc.read stack offset).1,
      Tame signal.message ∧ signal.type ≠ msgTypeClientRequest) ∧
    ∃ i, At pipeSrc (pipeCall p.client pipeSrc.read stack offset).2 i
      orders := by
  by_cases hlt : offset < pipeSrc.octets.length
  swap
  · rw [pipeCall_end hfd pipeSrc stack (Nat.le_of_not_lt hlt)]
    exact ⟨fun signal hsignal => absurd hsignal List.not_mem_nil, i, hat⟩
  rw [pipeCall_data hfd pipeSrc stack hlt]
  refine ⟨fun signal hsignal => ?_, _, hat.next⟩
  rw [List.mem_singleton.mp hsignal]
  by_cases hdispatched : dispatched
      (Decimal.atoi (numberRead pipeSrc offset ++ stack offset)) = true
  · obtain ⟨order, -, -, -, -, htype⟩ := hat.dispatched_order hfew hdispatched
    rw [htype]
    cases order with
    | shutDown => exact ⟨Or.inr (Or.inr (Or.inl rfl)), by decide⟩
    | close =>
        exact ⟨Or.inr (Or.inr (Or.inr (Or.inr (Or.inl rfl)))), by decide⟩
  · refine ⟨Or.inr (Or.inr (Or.inr (Or.inr (Or.inr ?_)))), fun htype => ?_⟩
    · exact eq_false_of_ne_true hdispatched
    · dsimp only at htype
      rw [htype] at hdispatched
      exact hdispatched rfl

/-- The event in hand is one of those sent. -/
theorem Dialogue.handle
    (hdialogue : Dialogue p requests orders src pipeSrc junk stack s)
    (halive : s.ended = false) {pEv : Addr} {event : TGEvent}
    (hat : s.threads.responseAt = .handle pEv)
    (hcell : s.threads.queue.cells pEv = some event)
    {text : List Byte} {reply : Option Reply} {ret : Int}
    {effects : List Effect}
    (hhandle : handleResponse p ⟨event, text, reply⟩ = some (ret, effects))
    {threads : Threads}
    (hthread : s.threads.step .responseHandle = some threads) :
    Dialogue p requests orders src pipeSrc junk stack
      { s with
        threads := threads, turns := s.turns ++ [⟨event, text, reply⟩]
        effects := s.effects ++ effects, ended := exits effects } := by
  have hprocess := hdialogue.process.handle halive hat hcell hhandle hthread
  have hsent := Threads.step_sent hthread (by simp)
  obtain ⟨frames, tail, r, hspoken, hreading⟩ := hdialogue.spoken
  have hnone : ¬ HasQuit (s.turns.map (·.event.message)) := fun hquit => by
    rw [hdialogue.quit hquit] at halive
    cases halive
  -- the event comes next among those sent, with no quit before it
  have hhandled := hprocess.threads.handled_prefix
  rw [← hprocess.handled] at hhandled
  dsimp only at hhandled
  rw [hsent, List.map_append, List.map_singleton] at hhandled
  have hnext := prefix_untilQuit hnone hhandled
  have htame := hreading.tame event.message (hnext.subset (by simp))
  have hopen : (Turn.mk event text reply).asks = true →
      (asked s.turns).length = frames.length := by
    intro hasks
    have hle := (requestsOf_mono hnext).length_le
    rcases htame.requestsOf with ⟨-, data, hdata⟩ | ⟨hother, -⟩
    swap
    · exact absurd (of_decide_eq_true hasks) hother
    rw [requestsOf_append, List.length_append,
      ← length_asked hreading.tame_turns, hdata, List.length_singleton,
      hreading.sent, List.length_take] at hle
    have hahead := hreading.ahead
    have hlow := hspoken.low
    omega
  rw [halive] at hspoken
  obtain ⟨frames', tail', hmore, hsaid⟩ :=
    hspoken.handle htame hopen hhandle
  refine ⟨hprocess, hdialogue.pipe, ?_, frames', tail', r, hsaid,
    hreading.within, ?_, ?_, ?_, ?_, ?_⟩
  · rw [List.map_append, List.map_singleton]
    rintro ⟨quit, hmem, htype⟩
    rcases List.mem_append.mp hmem with hold | hnew
    · exact absurd ⟨quit, hold, htype⟩ hnone
    · rw [List.mem_singleton.mp hnew] at htype
      exact (handleResponse_framed p (not_answeredBare (Or.inl htype))
        hhandle).2.mpr htype
  · rw [hsent]
    exact hreading.tame
  · rw [hsent]
    exact hreading.sent
  · rw [hsent, List.map_append, List.map_singleton]
    exact hnext
  · rw [hsent]
    exact hreading.place
  · have hle := hmore.length_le
    have hahead := hreading.ahead
    omega

/-- Every step of a dialogue. -/
theorem Dialogue.step
    (hdialogue : Dialogue p requests orders src pipeSrc junk stack s)
    (hsock : 0 ≤ p.client.sockfd) (hpipe : 0 ≤ p.client.readPipe)
    (hsrc : src.octets <+: wire requests)
    (hrequests : ∀ request ∈ requests,
      1 ≤ request.length ∧ request.length ≤ 2 ^ 31 - 2)
    (hfew : ∀ offset, FewDigits (stack offset)) {act : SessionStep}
    (hguard : StopAndWait p requests src s act)
    (hstep : s.step p src.read junk pipeSrc.read stack act = some next) :
    Dialogue p requests orders src pipeSrc junk stack next := by
  obtain ⟨halive, htook⟩ := Session.step_took hstep
  obtain ⟨frames, tail, r, hspoken, hreading⟩ := hdialogue.spoken
  cases htook with
  | select ready htodo =>
      exact ⟨hdialogue.process.select htodo ready, hdialogue.pipe,
        hdialogue.quit, frames, tail, r, hspoken, hreading.within,
        hreading.tame, hreading.sent, hreading.handled, hreading.place,
        hreading.ahead⟩
  | @readSock signals sock threads htodo hidle hread hcall =>
      rw [StopAndWait, sentOctets, hspoken.answered_eq] at hguard
      have hsent := (Threads.call_some (sockCall_cases hread) hidle hcall).1
      obtain ⟨r', hnext⟩ : ∃ r', Reading requests
          { s with
            threads := threads, sock := sock, todo := ⟨false, s.todo.mPipe⟩ }
          frames r' :=
        hreading.sockRead (hspoken.low.trans hreading.asked.1) hsock hsrc
          hrequests hguard hread hsent rfl rfl
      exact ⟨hdialogue.process.sockRead htodo hidle hread hcall,
        hdialogue.pipe, hdialogue.quit, frames, tail, r', hspoken, hnext⟩
  | readPipe htodo hidle hcall =>
      obtain ⟨i, hat⟩ := hdialogue.pipe
      obtain ⟨hquiet, hnext⟩ := pipeCall_tame hat hpipe (hfew s.pipe)
      refine ⟨hdialogue.process.pipeRead htodo hidle hcall, hnext,
        hdialogue.quit, frames, tail, r, hspoken,
        hreading.more (Or.inr fun message hmem => ?_)
          (Threads.call_some (pipeCall_cases pipeSrc.read stack s.pipe)
            hidle hcall).1 rfl fun _ => rfl⟩
      obtain ⟨signal, hsignal, rfl⟩ := List.mem_map.mp hmem
      exact hquiet signal hsignal
  | thread hinner hthread =>
      have hsent := Threads.step_sent hthread (by
        rintro message rfl
        cases hinner)
      exact ⟨hdialogue.process.thread hinner hthread, hdialogue.pipe,
        hdialogue.quit, frames, tail, r, hspoken,
        hreading.more (Or.inr fun message hmem => absurd hmem
          List.not_mem_nil) (hsent.trans (List.append_nil _).symm) rfl
          fun _ => rfl⟩
  | handle hat hcell hhandle hthread =>
      exact hdialogue.handle halive hat hcell hhandle hthread

end Runs

/-- Whatever the services do, whatever the administrator orders, however the
octets are grouped and the threads scheduled, and wherever the connection ends:
with a client that waits for each answer, the requests handled are the first
ones the client sent, whole and in order, and what the client receives are
answers to them, in order, with one request at most still unanswered. -/
theorem dialogue_answers (p : Child) (hsock : 0 ≤ p.client.sockfd)
    (hpipe : 0 ≤ p.client.readPipe) (requests : List (List Byte))
    (hrequests : ∀ request ∈ requests,
      1 ≤ request.length ∧ request.length ≤ 2 ^ 31 - 2)
    (orders : List Order) (src pipeSrc : Source)
    (hsrc : src.octets <+: wire requests)
    (horders : pipeSrc.octets = orderStream orders)
    (junk : Nat → Nat → Byte) (stack : Nat → List Byte)
    (hfew : ∀ offset, FewDigits (stack offset)) {s : Session Nat Nat}
    (hreach : (session p src.read junk pipeSrc.read stack 0
      0).GuardedReachable (StopAndWait p requests src) s) :
    requestsOf ((asked s.turns).map (·.event.message)) =
        requests.take (asked s.turns).length ∧
      answered p s.effects <+: due p s.turns ∧
      (answered p s.effects).length ≤ (asked s.turns).length ∧
      (asked s.turns).length ≤ (answered p s.effects).length + 1 := by
  have hdialogue : Dialogue p requests orders src pipeSrc junk stack s :=
    hreach.invariant (dialogue_start horders)
      fun state act next hdialogue hguard hstep =>
        hdialogue.step hsock hpipe hsrc hrequests hfew hguard hstep
  obtain ⟨frames, tail, r, hspoken, hreading⟩ := hdialogue.spoken
  rw [hspoken.answered_eq, requestsOf_asked]
  exact ⟨hreading.asked.2, hspoken.answers, hspoken.low, hspoken.high⟩

namespace Dialogue

/-- One service, named "echo", and no descriptors but those of the client. -/
def child : Child :=
  ⟨⟨some [some 0, none], 10, 1,
      [⟨0, some (ascii "echo" ++ [0]), none, 0, 1, 2, 3, 4, 5, none⟩], []⟩,
    .initial, ⟨0, 5, 6, 7, none, 0⟩, Globals.initial_fits⟩

/-- A request to the service, one to another and one that is not sent any
more. -/
def requests : List (List Byte) :=
  [ascii "tg://echo/a", ascii "tg://e/", ascii "tg://echo/b"]

/-- At most five octets a read, and the connection ends behind the second
request. -/
def src : Source := ⟨wire (requests.take 2), fun _ => 5⟩

def pipeSrc : Source := ⟨orderStream [.close], fun _ => 10⟩

/-- One octet of data. -/
def reply : Reply := ⟨[1, 0, 0, 0, 97], by decide, by decide⟩

/-- A message is sent and handled. -/
def exchange (reply : Option Reply) : List SessionStep :=
  [ThreadStep.readerLock, .readerPush 1, .readerSignal, .readerUnlock,
      .responseLock, .responseHead, .responseUnlock].map .thread ++
    [.handle [0] reply, .thread .responseFree]

/-- The two requests, then the end of the connection; the order to close comes
too late. -/
def steps : List SessionStep :=
  [.thread .responseCreate] ++ exchange none ++
    [.select ⟨true, false⟩, .readSock] ++ exchange (some reply) ++
    [.select ⟨true, false⟩, .readSock] ++ exchange none ++
    [.select ⟨true, true⟩, .readSock] ++ (exchange none).dropLast

/-- The process with its descriptors at the start of both streams. -/
def server : Machine (Session Nat Nat) SessionStep :=
  session child src.read (fun _ _ => 0) pipeSrc.read (fun _ => [0]) 0 0

theorem dialogue_answers_steps :
    ∃ s, server.run server.start steps = some s ∧
      server.Guarded (StopAndWait child requests src) server.start steps ∧
      s.ended = true ∧
      answered child s.effects = [(ascii "tg://2000/", [97])] ∧
      due child s.turns =
        [(ascii "tg://2000/", [97]), (ascii "tg://2004/", [])] ∧
      requestsOf ((asked s.turns).map (·.event.message)) =
        requests.take (asked s.turns).length ∧
      answered child s.effects <+: due child s.turns ∧
      (answered child s.effects).length ≤ (asked s.turns).length ∧
      (asked s.turns).length ≤ (answered child s.effects).length + 1 :=
  have hcheck : (server.run server.start steps).any (fun s =>
      decide (s.ended = true ∧
        answered child s.effects = [(ascii "tg://2000/", [97])] ∧
        due child s.turns =
          [(ascii "tg://2000/", [97]), (ascii "tg://2004/", [])])) = true := by
    decide +kernel
  have hguard : server.Guarded (StopAndWait child requests src)
      server.start steps := by decide +kernel
  let ⟨s, hrun, hat⟩ := (Option.any_eq_true _ _).mp hcheck
  have ⟨hended, hreceived, hdue⟩ := of_decide_eq_true hat
  ⟨s, hrun, hguard, hended, hreceived, hdue,
    dialogue_answers child (by decide) (by decide) requests (by decide)
      [.close] src pipeSrc (by decide) rfl (fun _ _ => 0) (fun _ => [0])
      (fun _ => by decide) ⟨steps, hguard, hrun⟩⟩

end Dialogue

end TgServer
