/-
The administration side of the main process: `tg_process_admin.c`, `do_admin`
of `tg_process.c` and the listing of `tg_context.c`.  Writes are taken to be
accepted in full.  `none` is undefined behaviour.
-/
import TgServer.ByteStream
import TgServer.Context
import TgServer.Decimal

namespace TgServer

open Bytes ByteStream

/-- The size of `buf` in `do_admin`. -/
def adminBufSize : Nat := 20

inductive AdminRequest where
  | listClients
  | closeClient (id : Int)
deriving Repr, DecidableEq

inductive AdminCommand where
  | shutDown
  | request (req : AdminRequest)
deriving Repr, DecidableEq

/-- What `do_admin` does to the outside. -/
inductive AdminEffect where
  | unlinkPipe
  | hostShutdown
  /-- `open(OUT_PIPE, O_RDWR|O_NONBLOCK, 0)` returned `fd`. -/
  | openOutPipe (fd : Int)
  | write (fd : Int) (octets : List Byte)
deriving Repr, DecidableEq

def clientLine (pC : TGClient) : Option (List Byte) := do
  return Decimal.text pC.pid ++ ascii "\t\t" ++ (← pC.clientIP) ++
    ascii "\t\t" ++ Decimal.text pC.port ++ ascii "\r\n"

/-- The loop of `getCurrentClientsInfo`, from slot `i` on; a line and its
terminator have to fit in `buf`. -/
def clientsInfoFrom (slots : List (Option TGClient)) :
    Nat → Nat → List Byte → Nat → Option (List Byte)
  | 0, _, pData, _ => some pData
  | n + 1, i, pData, pos => do
      match ← slots[i]? with
      | none => clientsInfoFrom slots n (i + 1) pData pos
      | some pC =>
          let line ← clientLine pC
          if line.length < 50 then
            clientsInfoFrom slots n (i + 1) (← store pData pos line)
              (pos + line.length)
          else none

def getCurrentClientsInfo (g : Globals) : Option (List Byte) :=
  let count := g.clientsArSize
  clientsInfoFrom g.slots count 0 (List.replicate (50 * count) 0) 0

def unknownPid (id : Int) : List Byte :=
  ascii "unkown pid:" ++ Decimal.text id ++ ascii "\n"

/-- The request in the buffer `pReq`, none in an empty one; `stack` is what
lies behind the buffer. -/
def writeRequest (pReq stack : List Byte) : Option AdminRequest :=
  if startsWith pReq (ascii "tg://1040/") = some true then some .listClients
  else if startsWith pReq (ascii "tg://1041/") = some true then
    some (.closeClient (Decimal.atoi (pReq.drop 10 ++ stack)))
  else none

/-- The part of `write_data` behind each comparison. -/
def performRequest (g : Globals) (fd : Int) :
    AdminRequest → Option (List AdminEffect)
  | .listClients => do
      let pData ← getCurrentClientsInfo g
      return [.write fd (← cString pData), .write fd (ascii "\n\n")]
  | .closeClient id =>
      if 0 < id then do
        match ← findClient g id with
        | (_, some pCli) =>
            return [.write pCli.writePipe (ascii "tg://1005" ++ [0])]
        | (_, none) => return [.write fd (unknownPid id)]
      else some [.write fd (unknownPid id)]

def writeData (g : Globals) (fd : Int) (pReq stack : List Byte) :
    Option (List AdminEffect) :=
  match writeRequest pReq stack with
  | none => some []
  | some req => performRequest g fd req

def adminBuf (octets : List Byte) : List Byte :=
  octets ++ List.replicate (adminBufSize - octets.length) 0

/-- The command in what a read returned, if any. -/
def adminCommand (octets stack : List Byte) : Option AdminCommand :=
  if strcmpEq (adminBuf octets) (ascii "tg://1003/") = some true then
    some .shutDown
  else (writeRequest (adminBuf octets) stack).map .request

/-- `outFd` is what the `open` of the reply FIFO returns.  A shutdown does not
come back. -/
def doAdmin (g : Globals) (result : ReadResult) (stack : List Byte)
    (outFd : Int) : Option (List AdminEffect) :=
  match result with
  | .failed | .data [] => some []
  | .data (c :: cs) =>
      if strcmpEq (adminBuf (c :: cs)) (ascii "tg://1003/") = some true then
        some [.unlinkPipe, .hostShutdown]
      else do
        return .openOutPipe outFd ::
          (← writeData g outFd (adminBuf (c :: cs)) stack)

theorem doAdmin_eq (g : Globals) {octets : List Byte} (hsome : octets ≠ [])
    (stack : List Byte) (outFd : Int) :
    doAdmin g (.data octets) stack outFd =
      match adminCommand octets stack with
      | none => some [.openOutPipe outFd]
      | some .shutDown => some [.unlinkPipe, .hostShutdown]
      | some (.request req) =>
          (performRequest g outFd req).map (.openOutPipe outFd :: ·) := by
  cases octets with
  | nil => exact absurd rfl hsome
  | cons c cs =>
      rw [doAdmin, adminCommand]
      split
      · rfl
      · rw [writeData]
        cases writeRequest (adminBuf (c :: cs)) stack with
        | none => rfl
        | some req =>
            cases hperform : performRequest g outFd req <;> simp [hperform]

end TgServer
