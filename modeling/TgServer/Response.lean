/-
`tg_process_response.c`: what a client process does with an event.  A handler
yields its result and what it does to the outside, in order; `none` is
undefined behaviour.  The stores of `__check_request` behind the end of its
`name` buffer are taken to do no harm to the frame it runs in.
-/
import TgServer.Context
import TgServer.Event
import TgServer.MessageTypes
import TgServer.Service

namespace TgServer

open Bytes

/-- What a handler does to the outside. -/
inductive Effect where
  | write (fd : Int) (octets : List Byte)
  | call (call : ServiceCall)
  | doRequest (fn : Addr) (data : List Byte)
  | fd (call : FdCall)
  | sleep (seconds : Nat)
  | exit (status : Int)
deriving Repr, DecidableEq

def handleResponseSuccess : Int := 0

/-- `HEADER`. -/
def header : List Byte := ascii "tg://"

def gHandleResponseMsg : List (List Byte) :=
  [ascii "tg://2000/", ascii "tg://2001/", ascii "tg://2002/",
    ascii "tg://2003/", ascii "tg://2004/", ascii "tg://2005/",
    ascii "tg://2006/", ascii "tg://2007/"]

/-- A block `do_request` returned: four octets of data size and at least as
much data as a positive size announces. -/
structure Reply where
  block : List Byte
  sized : 4 ≤ block.length
  covers : 4 + intAt block ≤ block.length

/-- A client process after the fork: the registry and the globals it
inherited, with an array as long as its counter says, and its own client. -/
structure Child where
  registry : Registry
  globals : Globals
  client : TGClient
  fits : globals.slots.length = globals.clientsArSize

/-- An event that is handled, what lies behind the text `__check_request`
copies into `name`, and what `do_request` returns if it is called. -/
structure Turn where
  event : TGEvent
  stack : List Byte
  reply : Option Reply

/-- `CHECK_EVENT` lets the event pass. -/
def checkEvent (pEv : TGEvent) : Bool :=
  decide (msgTypeBase ≤ pEv.type) && decide (pEv.type ≤ msgTypeMax)

/-- `SEND`, then the rest of the handler. -/
def send (pCli : TGClient) (id : Nat) (rest : Int × List Effect) :
    Option (Int × List Effect) :=
  if responseMax ≤ id then some (-1, [])
  else do
    let response ← gHandleResponseMsg[id - responseBase]?
    return (rest.1, .write pCli.sockfd response :: rest.2)

/-- The result of `__check_request` and the service it found. -/
def checkRequest (registry : Registry) (pReq stack : List Byte) :
    Option (Int × Option TGService) := do
  if ← startsWith pReq header then
    let rest := pReq.drop header.length
    let pos := findSeparator (← cString rest) (ascii "/") []
    if pos ≠ -1 then
      let name ← cString (strncpy rest pos.toNat ++ stack)
      match ← findServiceN registry name with
      | some pReqService => return (0, some pReqService)
      | none => return (-1, none)
    else return (1, none)
  else return (1, none)

/-- The calls of `release`. -/
def releaseCalls (p : Child) : Option (List Effect) := do
  let g ← release { p.globals with fdCalls := [] }
  return g.fdCalls.map .fd

/-- `destroyClient`, `release` and what comes before `exit(0)`. -/
def leave (p : Child) (last : List Effect) : Option (Int × List Effect) := do
  return (handleResponseSuccess,
    (releaseClient p.client).map .fd ++ (← releaseCalls p) ++ last ++ [.exit 0])

def handleResponseClientQuit (p : Child) : Option (Int × List Effect) := do
  let (calls, _) ← releaseAllServices p.registry
  let (ret, effects) ← leave p []
  return (ret, calls.map .call ++ effects)

/-- What is done with the data of a reply. -/
def replyData (p : Child) (reply : Reply) : Option (Int × List Effect) :=
  let dataSize := intAt reply.block
  if dataSize ≤ 0 then
    send p.client responseReturnedDataFormatIllegal (0, [])
  else do
    let header ← gHandleResponseMsg[0]?
    let headerSize := 4 + header.length
    let allSize := headerSize + dataSize.toNat
    if allSize < 2 ^ 31 then
      return (0,
        [.write p.client.sockfd (le32 allSize ++ header),
          .write p.client.sockfd ((reply.block.drop 4).take dataSize.toNat)])
    else none

def handleResponseClientRequest (p : Child) (turn : Turn) :
    Option (Int × List Effect) :=
  if !checkEvent turn.event then some (-1, [])
  else do
    let pReq ← turn.event.data
    let (ret, pSer) ← checkRequest p.registry pReq turn.stack
    if ret = 0 then
      match pSer with
      | none => return (-1, [])
      | some pSer =>
          let request := Effect.doRequest pSer.doRequest pReq
          match turn.reply with
          | none => return (ret, [request])
          | some reply =>
              let (ret, effects) ← replyData p reply
              return (ret, request :: effects)
    else if ret = 1 then send p.client responseRequireStrIllegal (ret, [])
    else send p.client responseRequireServiceNotFound (ret, [])

def handleResponseDataLengthError (p : Child) : Option (Int × List Effect) :=
  send p.client responseDataLengthError (handleResponseSuccess, [])

def handleResponseServerShutDown (p : Child) : Option (Int × List Effect) := do
  send p.client responseServerShutDown (← leave p [.sleep 2])

def handleResponseClientInit (p : Child) : Option (Int × List Effect) := do
  let (calls, _) ← initAllServices p.registry
  return (handleResponseSuccess, calls.map .call)

def handleResponseClientConnClosedByAdmin (p : Child) :
    Option (Int × List Effect) := do
  send p.client responseConnClosedByAdmin (← leave p [.sleep 2])

/-- The handlers, in the order of the message types. -/
def gHandleResponseFp (p : Child) (turn : Turn) :
    List (Option (Int × List Effect)) :=
  [handleResponseClientQuit p, handleResponseClientRequest p turn,
    handleResponseDataLengthError p, handleResponseServerShutDown p,
    handleResponseClientInit p, handleResponseClientConnClosedByAdmin p]

/-- Event types up to `MSG_TYPE_MAX` pass the check, but the table ends before
that. -/
def handleResponse (p : Child) (turn : Turn) : Option (Int × List Effect) :=
  if !checkEvent turn.event then some (-1, [])
  else ((gHandleResponseFp p turn)[(turn.event.type - msgTypeBase).toNat]?).join

/-- The handler ended the process. -/
def exits (effects : List Effect) : Bool :=
  effects.any fun
    | .exit _ => true
    | _ => false

/-- What the loop of `__deamon_response` does with the events it takes off the
queue, up to the end of the process or undefined behaviour. -/
def handleEvents (p : Child) : List Turn → List Effect
  | [] => []
  | turn :: rest =>
      match handleResponse p turn with
      | none => []
      | some (_, effects) =>
          if exits effects then effects else effects ++ handleEvents p rest

/-- The octets written to a descriptor, every write being accepted in full. -/
def written (fd : Int) (effects : List Effect) : List Byte :=
  effects.flatMap fun
    | .write target octets => if target = fd then octets else []
    | _ => []

@[simp] theorem written_append (fd : Int) (first second : List Effect) :
    written fd (first ++ second) = written fd first ++ written fd second :=
  List.flatMap_append

@[simp] theorem exits_append (first second : List Effect) :
    exits (first ++ second) = (exits first || exits second) := by
  simp [exits]

@[simp] theorem exits_call (calls : List ServiceCall) :
    exits (calls.map Effect.call) = false := by
  simp [exits]

section Dispatch

variable (p : Child) (turn : Turn)

/-- The table of handlers, spelled out. -/
theorem handleResponse_eq : handleResponse p turn =
    if turn.event.type = msgTypeClientQuit then handleResponseClientQuit p
    else if turn.event.type = msgTypeClientRequest then
      handleResponseClientRequest p turn
    else if turn.event.type = msgTypeDataLengthError then
      handleResponseDataLengthError p
    else if turn.event.type = msgTypeServerShutDown then
      handleResponseServerShutDown p
    else if turn.event.type = msgTypeClientInit then handleResponseClientInit p
    else if turn.event.type = msgTypeClientBeClosedByAdmin then
      handleResponseClientConnClosedByAdmin p
    else if checkEvent turn.event then none else some (-1, []) := by
  have hentry : ∀ i : Nat, i < 6 → turn.event.type = msgTypeBase + i →
      handleResponse p turn = ((gHandleResponseFp p turn)[i]?).join := by
    intro i hi htype
    have hcheck : checkEvent turn.event = true := by
      simp only [checkEvent, htype, msgTypeBase, msgTypeMax, Bool.and_eq_true,
        decide_eq_true_eq]
      omega
    have hindex : (turn.event.type - msgTypeBase).toNat = i := by
      rw [htype]
      omega
    rw [handleResponse, hcheck, hindex]
    rfl
  split
  · next htype => exact hentry 0 (by decide) htype
  split
  · next htype => exact hentry 1 (by decide) htype
  split
  · next htype => exact hentry 2 (by decide) htype
  split
  · next htype => exact hentry 3 (by decide) htype
  split
  · next htype => exact hentry 4 (by decide) htype
  split
  · next htype => exact hentry 5 (by decide) htype
  · next hquit hrequest hlength hshut hinit hclosed =>
    rw [handleResponse]
    cases hcheck : checkEvent turn.event with
    | false => rfl
    | true =>
        have hbehind : (gHandleResponseFp p turn).length ≤
            (turn.event.type - msgTypeBase).toNat := by
          simp only [checkEvent, Bool.and_eq_true, decide_eq_true_eq] at hcheck
          simp only [msgTypeBase, msgTypeClientQuit, msgTypeClientRequest,
            msgTypeDataLengthError, msgTypeServerShutDown, msgTypeClientInit,
            msgTypeClientBeClosedByAdmin] at *
          simp only [gHandleResponseFp, List.length_cons, List.length_nil]
          omega
        rw [List.getElem?_eq_none hbehind]
        rfl

end Dispatch

end TgServer
