/-
What a client that reads length-prefixed frames makes of the octets a client
process writes: replies are framed, everything sent through `SEND` is not.
-/
import TgServer.Framing
import TgServer.Response

namespace TgServer

open Bytes

/-- A message to the client: its `tg://20xx/` header and its data. -/
abbrev Answer := List Byte × List Byte

/-- A message without data. -/
def notice (id : Nat) : Answer :=
  (gHandleResponseMsg.getD (id - responseBase) [], [])

/-- What the server has to say to a request. -/
def requestAnswer (p : Child) (turn : Turn) : List Answer :=
  match turn.event.data with
  | none => []
  | some pReq =>
      match checkRequest p.registry pReq turn.stack with
      | none => []
      | some (ret, pSer) =>
          if ret = 0 then
            match pSer, turn.reply with
            | some _, some reply =>
                if intAt reply.block ≤ 0 then
                  [notice responseReturnedDataFormatIllegal]
                else
                  [(gHandleResponseMsg.getD 0 [],
                    (reply.block.drop 4).take (intAt reply.block).toNat)]
            | _, _ => []
          else if ret = 1 then [notice responseRequireStrIllegal]
          else [notice responseRequireServiceNotFound]

/-- What the server has to say to an event. -/
def answer (p : Child) (turn : Turn) : List Answer :=
  let type := turn.event.type
  if type = msgTypeClientRequest then requestAnswer p turn
  else if type = msgTypeDataLengthError then [notice responseDataLengthError]
  else if type = msgTypeServerShutDown then [notice responseServerShutDown]
  else if type = msgTypeClientBeClosedByAdmin then
    [notice responseConnClosedByAdmin]
  else []

/-- The messages sent while the events are handled. -/
def messages (p : Child) : List Turn → List Answer
  | [] => []
  | turn :: rest =>
      match handleResponse p turn with
      | none => []
      | some (_, effects) =>
          if exits effects then answer p turn
          else answer p turn ++ messages p rest

/-- The messages a reader of length-prefixed frames finds in a stream. -/
def receive (stream : List Byte) : List Answer :=
  (Framing.decode stream).map fun body => (body.take 10, body.drop 10)

/-- The event is answered without a length field: a message for the process,
a request that is illegal or names no service, or a reply without data. -/
def AnsweredBare (p : Child) (turn : Turn) : Prop :=
  turn.event.type = msgTypeDataLengthError ∨
  turn.event.type = msgTypeServerShutDown ∨
  turn.event.type = msgTypeClientBeClosedByAdmin ∨
  turn.event.type = msgTypeClientRequest ∧
    ∃ pReq ret pSer, turn.event.data = some pReq ∧
      checkRequest p.registry pReq turn.stack = some (ret, pSer) ∧
      (ret ≠ 0 ∨ ∃ reply, turn.reply = some reply ∧ intAt reply.block ≤ 0)

/-- No event handled before the client quits is answered without a length
field. -/
def NeverBare (p : Child) : List Turn → Prop
  | [] => True
  | turn :: rest => ¬ AnsweredBare p turn ∧
      (turn.event.type ≠ msgTypeClientQuit → handleResponse p turn ≠ none →
        NeverBare p rest)

section Written

variable (p : Child) (fd : Int)

@[simp] theorem written_nil : written fd [] = [] := rfl

@[simp] theorem written_fd (calls : List FdCall) :
    written fd (calls.map Effect.fd) = [] := by
  simp [written]

@[simp] theorem written_call (calls : List ServiceCall) :
    written fd (calls.map Effect.call) = [] := by
  simp [written]

/-- Leaving is always defined, writes nothing and ends the process. -/
theorem leave_eq (last : List Effect) (hlast : written fd last = []) :
    ∃ effects, leave p last = some (handleResponseSuccess, effects) ∧
      written fd effects = [] ∧ exits effects = true := by
  have hrelease := release_eq { p.globals with fdCalls := [] } p.fits
  refine ⟨_, by simp only [leave, releaseCalls, hrelease]; rfl, ?_, ?_⟩
  · simp [written_append, hlast]
    rfl
  · simp [exits]

end Written

section Notices

/-- The numbers `SEND` is used with. -/
def Listed (id : Nat) : Prop :=
  responseBase ≤ id ∧ id < responseBase + gHandleResponseMsg.length

instance (id : Nat) : Decidable (Listed id) :=
  inferInstanceAs (Decidable (_ ∧ _))

theorem send_notice (pCli : TGClient) (id : Nat) (hlisted : Listed id)
    (rest : Int × List Effect) :
    send pCli id rest =
      some (rest.1, .write pCli.sockfd (notice id).1 :: rest.2) := by
  have hlt : id - responseBase < gHandleResponseMsg.length := by
    have hlow := hlisted.1
    have hhigh := hlisted.2
    omega
  have hmax : ¬ responseMax ≤ id := by
    have hhigh := hlisted.2
    simp only [gHandleResponseMsg, responseBase, responseMax, List.length_cons,
      List.length_nil] at *
    omega
  rw [send, if_neg hmax, notice, List.getD_eq_getElem?_getD,
    List.getElem?_eq_getElem hlt]
  rfl

/-- Every message without data starts with the octets of `tg:/` and goes on
with a slash. -/
theorem notice_octets {id : Nat} (hlisted : Listed id) :
    ∃ tail, (notice id).1 = ascii "tg:/" ++ 47 :: tail := by
  have hall : ∀ message ∈ gHandleResponseMsg,
      message = ascii "tg:/" ++ 47 :: message.drop 5 := by
    decide
  have hlt : id - responseBase < gHandleResponseMsg.length := by
    have hlow := hlisted.1
    have hhigh := hlisted.2
    omega
  refine ⟨(notice id).1.drop 5, hall _ ?_⟩
  rw [notice, List.getD_eq_getElem?_getD, List.getElem?_eq_getElem hlt]
  exact List.getElem_mem hlt

/-- A message sent without a length field is never received as sent. -/
theorem receive_bare {id : Nat} (hlisted : Listed id) (rest : List Byte)
    (answers : List Answer) :
    receive ((notice id).1 ++ rest) ≠ notice id :: answers := by
  obtain ⟨tail, htail⟩ := notice_octets hlisted
  intro hreceive
  rw [receive] at hreceive
  cases hone : Framing.decodeOne ((notice id).1 ++ rest) with
  | none =>
      rw [Framing.decode_none hone] at hreceive
      cases hreceive
  | some pair =>
      obtain ⟨body, behind⟩ := pair
      rw [Framing.decode_some hone, List.map_cons, List.cons.injEq] at hreceive
      have hhead := congrArg Prod.fst hreceive.1
      rw [htail] at hone hhead
      -- the length field is taken from "tg:/", the body starts behind it
      have hbody : ∃ more, body = 47 :: more := by
        have hword : (wordAt (ascii "tg:/" ++ 47 :: tail ++ rest)).toNat =
            0x2F3A6774 := by
          change (word 116 103 58 47).toNat = 0x2F3A6774
          rw [word_toNat]
          decide
        rw [Framing.decodeOne, hword] at hone
        split at hone
        · cases hone
        · rw [Option.some.injEq, Prod.mk.injEq, List.drop_take] at hone
          exact ⟨_, hone.1.symm⟩
      obtain ⟨more, rfl⟩ := hbody
      have hfirst : (47 : Byte) = 116 := (List.cons.inj hhead).1
      exact absurd hfirst (by decide)

/-- A framed message is received as sent. -/
theorem receive_frame (message : Answer) (hheader : message.1.length = 10)
    (hsize : 14 + message.2.length < 2 ^ 32) (rest : List Byte) :
    receive (Framing.encode (message.1 ++ message.2) ++ rest) =
      message :: receive rest := by
  rw [receive, Framing.decode_encode _ _
    (by rw [List.length_append, hheader]; omega), List.map_cons,
    List.take_left' hheader, List.drop_left' hheader]
  rfl

end Notices

section Handled

variable (p : Child) (turn : Turn)

theorem checkRequest_cases {registry : Registry} {pReq stack : List Byte}
    {ret : Int} {pSer : Option TGService}
    (hcheck : checkRequest registry pReq stack = some (ret, pSer)) :
    (ret = 0 ∧ pSer ≠ none) ∨ ret = -1 ∨ ret = 1 := by
  simp only [checkRequest, Option.bind_eq_bind, Option.bind_eq_some_iff,
    Option.pure_def] at hcheck
  obtain ⟨starts, -, hcheck⟩ := hcheck
  split at hcheck
  · rw [Option.bind_eq_some_iff] at hcheck
    obtain ⟨text, -, hcheck⟩ := hcheck
    split at hcheck
    · simp only [Option.bind_eq_some_iff] at hcheck
      obtain ⟨name, -, found, -, hcheck⟩ := hcheck
      cases found with
      | none =>
          rw [Option.some.injEq, Prod.mk.injEq] at hcheck
          exact Or.inr (Or.inl hcheck.1.symm)
      | some pReqService =>
          rw [Option.some.injEq, Prod.mk.injEq] at hcheck
          exact Or.inl ⟨hcheck.1.symm, by simp [← hcheck.2]⟩
    · rw [Option.some.injEq, Prod.mk.injEq] at hcheck
      exact Or.inr (Or.inr hcheck.1.symm)
  · rw [Option.some.injEq, Prod.mk.injEq] at hcheck
    exact Or.inr (Or.inr hcheck.1.symm)

/-- The handler wrote one message, without a length field. -/
def WroteBare (effects : List Effect) : Prop :=
  ∃ id, Listed id ∧ written p.client.sockfd effects = (notice id).1 ∧
    answer p turn = [notice id]

/-- The handler wrote nothing or one message behind its length. -/
def WroteFramed (effects : List Effect) : Prop :=
  (written p.client.sockfd effects = [] ∧ answer p turn = []) ∨
  ∃ message : Answer, message.1.length = 10 ∧
    14 + message.2.length < 2 ^ 32 ∧
    written p.client.sockfd effects =
      Framing.encode (message.1 ++ message.2) ∧
    answer p turn = [message]

theorem wroteBare_notice {id : Nat} (hlisted : Listed id) {effects : List Effect}
    (heffects : written p.client.sockfd effects = [])
    (hanswer : answer p turn = [notice id]) :
    WroteBare p turn (.write p.client.sockfd (notice id).1 :: effects) := by
  refine ⟨id, hlisted, ?_, hanswer⟩
  rw [← List.singleton_append, written_append, heffects, List.append_nil]
  simp [written]

/-- An event that is answered without a length field is handled. -/
theorem handleResponse_bare {turn : Turn} (hbare : AnsweredBare p turn) :
    ∃ ret effects, handleResponse p turn = some (ret, effects) ∧
      WroteBare p turn effects := by
  obtain ⟨last, hleave, hlast, -⟩ :=
    leave_eq p p.client.sockfd [.sleep 2] rfl
  rcases hbare with htype | htype | htype |
    ⟨htype, pReq, ret, pSer, hdata, hcheck, hcause⟩
  · have hanswer : answer p turn = [notice responseDataLengthError] := by
      rw [answer, htype]
      rfl
    refine ⟨handleResponseSuccess, _, ?_,
      wroteBare_notice p turn (by decide) (written_nil _) hanswer⟩
    rw [handleResponse_eq, htype]
    exact send_notice p.client responseDataLengthError (by decide) _
  · have hanswer : answer p turn = [notice responseServerShutDown] := by
      rw [answer, htype]
      rfl
    refine ⟨handleResponseSuccess, _, ?_,
      wroteBare_notice p turn (by decide) hlast hanswer⟩
    rw [handleResponse_eq, htype]
    change handleResponseServerShutDown p = _
    rw [handleResponseServerShutDown, hleave]
    exact send_notice p.client responseServerShutDown (by decide) _
  · have hanswer : answer p turn = [notice responseConnClosedByAdmin] := by
      rw [answer, htype]
      rfl
    refine ⟨handleResponseSuccess, _, ?_,
      wroteBare_notice p turn (by decide) hlast hanswer⟩
    rw [handleResponse_eq, htype]
    change handleResponseClientConnClosedByAdmin p = _
    rw [handleResponseClientConnClosedByAdmin, hleave]
    exact send_notice p.client responseConnClosedByAdmin (by decide) _
  · have hhandle : handleResponse p turn =
        handleResponseClientRequest p turn := by
      rw [handleResponse_eq, htype]
      rfl
    have hevent : checkEvent turn.event = true := by
      rw [checkEvent, htype]
      rfl
    have hanswer : answer p turn = requestAnswer p turn := by
      rw [answer, htype]
      rfl
    rw [hhandle, handleResponseClientRequest, hevent, hdata]
    simp only [Bool.not_true, Bool.false_eq_true, ↓reduceIte,
      Option.bind_eq_bind, Option.bind_some, hcheck]
    rw [requestAnswer, hdata] at hanswer
    simp only [hcheck] at hanswer
    rcases checkRequest_cases hcheck with ⟨rfl, hser⟩ | rfl | rfl
    · obtain ⟨pSer, rfl⟩ := Option.ne_none_iff_exists'.mp hser
      obtain ⟨reply, hreply, hsize⟩ := hcause.resolve_left (by simp)
      simp only [hreply, hsize, ↓reduceIte] at hanswer
      rw [if_pos rfl]
      simp only [hreply, replyData, hsize, ↓reduceIte]
      rw [send_notice p.client responseReturnedDataFormatIllegal (by decide)]
      obtain ⟨id, hlisted, hwritten, hnotice⟩ :=
        wroteBare_notice p turn (by decide) (written_nil _) hanswer
      refine ⟨_, _, rfl, id, hlisted, ?_, hnotice⟩
      rw [← List.singleton_append, written_append, hwritten]
      exact List.nil_append _
    · rw [if_neg (by decide), if_neg (by decide),
        send_notice p.client responseRequireServiceNotFound (by decide)]
      exact ⟨_, _, rfl,
        wroteBare_notice p turn (by decide) (written_nil _) hanswer⟩
    · rw [if_neg (by decide), if_pos rfl,
        send_notice p.client responseRequireStrIllegal (by decide)]
      exact ⟨_, _, rfl,
        wroteBare_notice p turn (by decide) (written_nil _) hanswer⟩

/-- A reply with data is framed. -/
theorem replyData_framed {reply : Reply} (hsize : ¬ intAt reply.block ≤ 0)
    {ret : Int} {effects : List Effect}
    (hreply : replyData p reply = some (ret, effects)) :
    ∃ message : Answer,
      message = (gHandleResponseMsg.getD 0 [],
        (reply.block.drop 4).take (intAt reply.block).toNat) ∧
      message.1.length = 10 ∧ 14 + message.2.length < 2 ^ 32 ∧
      written p.client.sockfd effects =
        Framing.encode (message.1 ++ message.2) ∧
      exits effects = false := by
  have hcovers := reply.covers
  have hdata : ((reply.block.drop 4).take (intAt reply.block).toNat).length =
      (intAt reply.block).toNat := by
    rw [List.length_take, List.length_drop]
    omega
  rw [replyData, if_neg hsize] at hreply
  simp only [gHandleResponseMsg, List.getElem?_cons_zero, Option.bind_eq_bind,
    Option.bind_some] at hreply
  split at hreply
  · rename_i hlt
    rw [Option.pure_def, Option.some.injEq, Prod.mk.injEq] at hreply
    have hheader : (ascii "tg://2000/").length = 10 := rfl
    rw [hheader] at hreply hlt
    refine ⟨_, rfl, rfl, ?_, ?_, ?_⟩
    · simp only [hdata]
      omega
    · rw [← hreply.2, Framing.encode]
      have htotal : 4 + ((gHandleResponseMsg.getD 0 []) ++
          (reply.block.drop 4).take (intAt reply.block).toNat).length =
          4 + 10 + (intAt reply.block).toNat := by
        rw [List.length_append, hdata]
        have hzero : (gHandleResponseMsg.getD 0 []).length = 10 := rfl
        omega
      simp only [htotal]
      simp [written, gHandleResponseMsg]
    · rw [← hreply.2]
      rfl
  · cases hreply

theorem handleResponseClientRequest_framed {turn : Turn}
    (htype : turn.event.type = msgTypeClientRequest)
    (hnot : ¬ AnsweredBare p turn) {ret : Int} {effects : List Effect}
    (hhandle : handleResponseClientRequest p turn = some (ret, effects)) :
    WroteFramed p turn effects ∧ exits effects = false := by
  have hevent : checkEvent turn.event = true := by
    rw [checkEvent, htype]
    rfl
  have hanswer : answer p turn = requestAnswer p turn := by
    rw [answer, htype]
    rfl
  rw [handleResponseClientRequest, hevent] at hhandle
  simp only [Bool.not_true, Bool.false_eq_true, ↓reduceIte, Option.bind_eq_bind,
    Option.bind_eq_some_iff] at hhandle
  obtain ⟨pReq, hdata, ⟨code, pSer⟩, hcheck, hrest⟩ := hhandle
  rw [requestAnswer, hdata] at hanswer
  simp only [hcheck] at hanswer
  have hzero : code = 0 := by
    by_contra hne
    exact hnot (Or.inr (Or.inr (Or.inr
      ⟨htype, pReq, code, pSer, hdata, hcheck, Or.inl hne⟩)))
  subst hzero
  simp only [↓reduceIte] at hrest hanswer
  cases pSer with
  | none =>
      rw [Option.pure_def, Option.some.injEq, Prod.mk.injEq] at hrest
      rw [← hrest.2]
      exact ⟨Or.inl ⟨rfl, hanswer⟩, rfl⟩
  | some pSer =>
      cases hreply : turn.reply with
      | none =>
          simp only [hreply, Option.pure_def, Option.some.injEq,
            Prod.mk.injEq] at hrest
          rw [← hrest.2]
          refine ⟨Or.inl ⟨rfl, ?_⟩, rfl⟩
          simpa [hreply] using hanswer
      | some reply =>
          have hsize : ¬ intAt reply.block ≤ 0 := fun hle =>
            hnot (Or.inr (Or.inr (Or.inr ⟨htype, pReq, 0, some pSer, hdata,
              hcheck, Or.inr ⟨reply, hreply, hle⟩⟩)))
          simp only [hreply, hsize, ↓reduceIte] at hrest hanswer
          rw [Option.bind_eq_some_iff] at hrest
          obtain ⟨⟨code, sent⟩, hsent, hrest⟩ := hrest
          obtain ⟨message, hmessage, hheader, hlength, hwritten, hexits⟩ :=
            replyData_framed p hsize hsent
          rw [Option.pure_def, Option.some.injEq, Prod.mk.injEq] at hrest
          rw [← hrest.2]
          refine ⟨Or.inr ⟨message, hheader, hlength, hwritten, ?_⟩, hexits⟩
          rw [hanswer, hmessage]

/-- Any other event that is handled leaves the stream framed, and only the end
of the connection ends the process. -/
theorem handleResponse_framed {turn : Turn} (hnot : ¬ AnsweredBare p turn)
    {ret : Int} {effects : List Effect}
    (hhandle : handleResponse p turn = some (ret, effects)) :
    WroteFramed p turn effects ∧
      (exits effects = true ↔ turn.event.type = msgTypeClientQuit) := by
  rw [handleResponse_eq] at hhandle
  split at hhandle
  · next htype =>
    have hanswer : answer p turn = [] := by
      rw [answer, htype]
      rfl
    obtain ⟨last, hleave, hlast, hexits⟩ := leave_eq p p.client.sockfd [] rfl
    rw [handleResponseClientQuit, hleave] at hhandle
    simp only [Option.bind_eq_bind, Option.bind_eq_some_iff, Option.bind_some,
      Option.pure_def, Option.some.injEq, Prod.mk.injEq] at hhandle
    obtain ⟨⟨calls, _⟩, -, -, rfl⟩ := hhandle
    exact ⟨Or.inl ⟨by simp [hlast], hanswer⟩, by simp [hexits, htype]⟩
  split at hhandle
  · next hquit htype =>
    obtain ⟨hframed, hexits⟩ :=
      handleResponseClientRequest_framed p htype hnot hhandle
    exact ⟨hframed, by simp [hexits, hquit]⟩
  split at hhandle
  · next htype => exact absurd (Or.inl htype) hnot
  split at hhandle
  · next htype => exact absurd (Or.inr (Or.inl htype)) hnot
  split at hhandle
  · next hquit hrequest hlength hshut htype =>
    have hanswer : answer p turn = [] := by
      rw [answer, htype]
      rfl
    rw [handleResponseClientInit] at hhandle
    simp only [Option.bind_eq_bind, Option.bind_eq_some_iff, Option.pure_def,
      Option.some.injEq, Prod.mk.injEq] at hhandle
    obtain ⟨⟨calls, _⟩, -, -, rfl⟩ := hhandle
    exact ⟨Or.inl ⟨by simp, hanswer⟩, by simp [hquit]⟩
  split at hhandle
  · next htype => exact absurd (Or.inr (Or.inr (Or.inl htype))) hnot
  · next hquit hrequest hlength hshut hinit hclosed =>
    have hanswer : answer p turn = [] := by
      simp [answer, hrequest, hlength, hshut, hclosed]
    split at hhandle
    · cases hhandle
    · rw [Option.some.injEq, Prod.mk.injEq] at hhandle
      obtain ⟨-, rfl⟩ := hhandle
      exact ⟨Or.inl ⟨rfl, hanswer⟩, by simp [exits, hquit]⟩

end Handled

/-- A client that reads length-prefixed frames recovers exactly the messages
sent if and only if none of the events handled is answered without a length
field. -/
theorem receive_messages_iff (p : Child) (turns : List Turn) :
    receive (written p.client.sockfd (handleEvents p turns)) =
      messages p turns ↔ NeverBare p turns := by
  induction turns with
  | nil => exact ⟨fun _ => trivial, fun _ => rfl⟩
  | cons turn rest ih =>
      rw [handleEvents, messages, NeverBare]
      by_cases hbare : AnsweredBare p turn
      · -- what follows the octets without a length field cannot repair them
        refine ⟨fun hreceive => ?_, fun hnever => absurd hbare hnever.1⟩
        obtain ⟨ret, effects, hhandle, id, hlisted, hwritten, hanswer⟩ :=
          handleResponse_bare p hbare
        simp only [hhandle, hanswer] at hreceive
        split at hreceive
        · have hstream := receive_bare hlisted [] []
          rw [List.append_nil] at hstream
          rw [hwritten] at hreceive
          exact absurd hreceive hstream
        · rw [written_append, hwritten] at hreceive
          exact absurd hreceive (receive_bare hlisted _ _)
      cases hhandle : handleResponse p turn with
      | none =>
          refine ⟨fun _ => ⟨hbare, fun _ hdefined => absurd rfl hdefined⟩, ?_⟩
          exact fun _ => rfl
      | some out =>
          obtain ⟨ret, effects⟩ := out
          obtain ⟨hframed, hexits⟩ := handleResponse_framed p hbare hhandle
          simp only
          split
          · next hexit =>
            have hquit := hexits.mp hexit
            refine ⟨fun _ => ⟨hbare, fun hne => absurd hquit hne⟩, fun _ => ?_⟩
            have hanswer : answer p turn = [] := by
              rw [answer, hquit]
              rfl
            rcases hframed with ⟨hwritten, -⟩ | ⟨message, -, -, -, hmessage⟩
            · rw [hwritten, hanswer]
              rfl
            · rw [hanswer] at hmessage
              cases hmessage
          · next hexit =>
            have hquit : turn.event.type ≠ msgTypeClientQuit := fun htype =>
              hexit (hexits.mpr htype)
            have hnever : (¬ AnsweredBare p turn ∧
                (turn.event.type ≠ msgTypeClientQuit →
                  some (ret, effects) ≠ none → NeverBare p rest)) ↔
                NeverBare p rest := by
              simp [hbare, hquit]
            rw [hnever, ← ih, written_append]
            rcases hframed with ⟨hwritten, hanswer⟩ |
              ⟨message, hheader, hsize, hwritten, hanswer⟩
            · rw [hwritten, hanswer, List.nil_append, List.nil_append]
            · rw [hwritten, hanswer, receive_frame message hheader hsize,
                List.singleton_append, List.cons.injEq]
              exact and_iff_right rfl

namespace ReplyStream

/-- A client process without services. -/
def child : Child :=
  ⟨Registry.initial, Globals.initial, ⟨100, 4, 5, 6, none, 0⟩,
    Globals.initial_fits⟩

/-- A request that names no service. -/
def request : Turn :=
  ⟨⟨-1, msgTypeClientRequest, some (ascii "hello" ++ [0]), none⟩, [], none⟩

/-- The refusal is written without a length field and not received. -/
theorem receive_messages_refused :
    written 4 (handleEvents child [request]) = ascii "tg://2002/" ∧
    messages child [request] = [(ascii "tg://2002/", [])] ∧
    receive (written child.client.sockfd (handleEvents child [request])) ≠
      messages child [request] := by
  decide

end ReplyStream

end TgServer
