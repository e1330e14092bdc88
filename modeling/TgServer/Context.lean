/-
The globals of `tg_context.c` and the functions that read and write them.  A
function is partial: `none` is an access outside the slot array or through a
null pointer.  Allocation is taken to succeed, and the clients to be fewer than
2^31: their counter and the size of the array have no bound.  The calls a
process makes on its descriptors are recorded in the order it makes them.
-/
import Mathlib.Data.List.ReduceOption
import TgServer.Bytes
import TgServer.SlotTable
import TgServer.Transition

namespace TgServer

open Bytes

abbrev TgPid := Int

def defaultMaxClients : Nat := 20
def defaultListenPort : Int := 6666
def findClientSuccess : Int := 0
def findClientNotFound : Int := -1

structure TGServer where
  port : Int
  listenIp : Option (List Byte)
  name : Option (List Byte)
  version : Int
  maxClients : Int
deriving Repr, DecidableEq

structure TGContext where
  pServer : TGServer
  logLevel : Int
  curClientCounts : Int
  listenfd : Int
  localAdminfd : Int
deriving Repr, DecidableEq

structure TGClient where
  pid : TgPid
  sockfd : Int
  readPipe : Int
  writePipe : Int
  clientIP : Option (List Byte)
  port : Int
deriving Repr, DecidableEq

/-- A call on a descriptor. -/
inductive FdCall where
  | close (fd : Int)
  | shutdown (fd : Int)
deriving Repr, DecidableEq

structure Globals where
  gClients : Option (List (Option TGClient))
  clientsArSize : Nat
  gContext : Option TGContext
  fdCalls : List FdCall
deriving Repr, DecidableEq

namespace Globals

/-- The static initial values. -/
def initial : Globals := ⟨none, 0, none, []⟩

/-- The block behind `g_clients`; nothing can be read through NULL. -/
def slots (g : Globals) : List (Option TGClient) := g.gClients.getD []

/-- The clients in the slots that are not NULL, in order. -/
def clients (g : Globals) : List TGClient := g.slots.reduceOption

theorem initial_fits : initial.slots.length = initial.clientsArSize := rfl

/-- `g_clients[i] = pT`. -/
def storeClient (g : Globals) (i : Nat) (pT : Option TGClient) :
    Option Globals :=
  if i < g.slots.length then
    some { g with gClients := some (g.slots.set i pT) }
  else none

def logFds (g : Globals) (calls : List FdCall) : Globals :=
  { g with fdCalls := g.fdCalls ++ calls }

/-- `g_context->curClientCounts += delta`. -/
def addCounts (g : Globals) (delta : Int) : Option Globals :=
  g.gContext.map fun ctx =>
    let counts := ctx.curClientCounts + delta
    { g with gContext := some { ctx with curClientCounts := counts } }

end Globals

/-- The descriptor calls of `releaseClient`: the socket is shut down, the two
pipe ends are closed. -/
def releaseClient (pClient : TGClient) : List FdCall :=
  (if 0 ≤ pClient.sockfd then [.shutdown pClient.sockfd] else []) ++
    (if 0 ≤ pClient.readPipe then [.close pClient.readPipe] else []) ++
    (if 0 ≤ pClient.writePipe then [.close pClient.writePipe] else [])

/-- Release what a slot points to, if anything. -/
def releaseSlot : Option TGClient → List FdCall
  | none => []
  | some pClient => releaseClient pClient

/-- The loop of `releaseClientArray`, from slot `i` on. -/
def releaseFrom : Nat → Nat → Globals → Option Globals
  | 0, _, g => some g
  | n + 1, i, g => do
      let pT ← g.slots[i]?
      releaseFrom n (i + 1) (g.logFds (releaseSlot pT))

def releaseClientArray (g : Globals) : Option Globals := do
  let g ← releaseFrom g.clientsArSize 0 g
  return { g with gClients := none }

/-- The new array starts with the old slots and goes on with empty ones. -/
def appendClient (g : Globals) : Globals :=
  let newClientCounts := g.clientsArSize + defaultMaxClients
  { g with
    gClients := some (g.slots.take g.clientsArSize ++
      List.replicate (newClientCounts - g.clientsArSize) none)
    clientsArSize := newClientCounts }

def init (g : Globals) : Globals :=
  { appendClient g with
    gContext := some
      { pServer :=
          { port := defaultListenPort, listenIp := none, name := none,
            version := 0, maxClients := defaultMaxClients }
        logLevel := 0, curClientCounts := 0, listenfd := 0,
        localAdminfd := 0 } }

/-- The descriptor calls `release` makes for the context. -/
def releaseContext (ctx : TGContext) : List FdCall :=
  (if 0 ≤ ctx.listenfd then [.shutdown ctx.listenfd, .close ctx.listenfd]
    else []) ++
    (if 0 ≤ ctx.localAdminfd then [.close ctx.localAdminfd] else [])

/-- The second half of `release`, once the clients are gone. -/
def releaseRest (g : Globals) : Globals :=
  match g.gContext with
  | none => { g with clientsArSize := 0 }
  | some ctx =>
      { g.logFds (releaseContext ctx) with gContext := none, clientsArSize := 0 }

def release (g : Globals) : Option Globals :=
  (if g.gClients.isSome then releaseClientArray g else some g).map releaseRest

def findClient (g : Globals) (pid : TgPid) : Option (Int × Option TGClient) := do
  match ← SlotTable.scan g.slots (SlotTable.hasKey TGClient.pid pid)
      g.clientsArSize 0 with
  | some i => return (findClientSuccess, ← g.slots[i]?)
  | none => return (findClientNotFound, none)

/-- `addClient` stores a copy of the record in the first empty slot, or in the
first slot a grown array adds. -/
def addClient (g : Globals) (pClient : Option TGClient) : Option Globals :=
  match pClient with
  | none => some g
  | some pT => do
      match ← SlotTable.scan g.slots Option.isNone g.clientsArSize 0 with
      | some i => (← g.storeClient i (some pT)).addCounts 1
      | none =>
          let currentPos := g.clientsArSize
          (← (appendClient g).storeClient currentPos (some pT)).addCounts 1

def closeClient (g : Globals) (pid : TgPid) : Option Globals := do
  match ← SlotTable.scan g.slots (SlotTable.hasKey TGClient.pid pid)
      g.clientsArSize 0 with
  | some i =>
      let pC ← g.slots[i]?
      ((← g.storeClient i none).logFds (releaseSlot pC)).addCounts (-1)
  | none => return g

/-- The loop of `closeAllClient`, from slot `i` on. -/
def closeAllFrom : Nat → Nat → Globals → Option Globals
  | 0, _, g => some g
  | n + 1, i, g => do
      match ← g.slots[i]? with
      | none => closeAllFrom n (i + 1) g
      | some pC =>
          closeAllFrom n (i + 1)
            (← (g.logFds (releaseClient pC)).storeClient i none)

def closeAllClient (g : Globals) : Option Globals :=
  closeAllFrom g.clientsArSize 0 g

@[simp] theorem Globals.slots_logFds (g : Globals) (calls : List FdCall) :
    (g.logFds calls).slots = g.slots := rfl

/-- The loop over the slots stays inside an array that is long enough. -/
theorem releaseFrom_eq (n i : Nat) (g : Globals)
    (hfits : i + n ≤ g.slots.length) :
    releaseFrom n i g =
      some (g.logFds (((g.slots.drop i).take n).flatMap releaseSlot)) := by
  induction n generalizing i g with
  | zero => simp [releaseFrom, Globals.logFds]
  | succ n ih =>
      have hlt : i < g.slots.length := by omega
      rw [releaseFrom, List.getElem?_eq_getElem hlt,
        List.drop_eq_getElem_cons hlt, List.take_succ_cons, List.flatMap_cons]
      simp only [Option.bind_eq_bind, Option.bind_some]
      rw [ih (i + 1) _ (by rw [Globals.slots_logFds]; omega)]
      simp [Globals.logFds, Globals.slots]

/-- `release` shuts down every client and the context and forgets them. -/
theorem release_eq (g : Globals) (hfits : g.slots.length = g.clientsArSize) :
    release g = some ⟨none, 0, none, g.fdCalls ++
      g.slots.flatMap releaseSlot ++
      (g.gContext.map releaseContext).getD []⟩ := by
  obtain ⟨gClients, size, gContext, fdCalls⟩ := g
  cases gClients with
  | none => cases gContext <;> simp [release, releaseRest, Globals.slots,
      Globals.logFds]
  | some slots =>
      have hloop := releaseFrom_eq size 0 ⟨some slots, size, gContext, fdCalls⟩
        (by rw [hfits]; exact Nat.le_of_eq (Nat.zero_add size))
      have hall : (slots.drop 0).take size = slots := by
        rw [List.drop_zero]
        exact List.take_of_length_le (Nat.le_of_eq hfits)
      simp only [Globals.slots, Option.getD_some, hall] at hloop
      cases gContext <;> simp [release, releaseClientArray, hloop, releaseRest,
        Globals.slots, Globals.logFds]

end TgServer
