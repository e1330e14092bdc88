/-
The registry of `tg_service.c`: the array `g_services`, the records its slots
point to and the parameter arrays these own.  Slots hold addresses or NULL;
`none` as a result is an access outside a block, through NULL or through an
address nothing was allocated at; what `loadService` clears behind the block of
a name made of a number is not counted.  Allocation is taken to succeed.
-/
import TgServer.Decimal
import TgServer.SlotTable
import TgServer.Util

namespace TgServer

open Bytes

def defaultServiceSize : Nat := 10
def serviceDefaultParaCounts : Nat := 5

/-- Function pointers are the addresses `dlsym` returned. -/
structure TGService where
  sID : Int
  serviceName : Option (List Byte)
  parameters : Option Addr
  parCounts : Nat
  doCreate : Addr
  doInit : Addr
  doRequest : Addr
  doRelease : Addr
  doDestroy : Addr
  pGlobalData : Option Addr
deriving Repr, DecidableEq

/-- A parameter array; each parameter is given by its text. -/
abbrev ParameterBlock := List (Option (List Byte))

/-- `sID` is the static of `checkLib`.  Records are never freed, so a record's
address is its place in `objects`; a freed parameter array leaves `none`. -/
structure Registry where
  gServices : Option (List (Option Addr))
  gServicesCounts : Nat
  sID : Int
  objects : List TGService
  blocks : List (Option ParameterBlock)
deriving Repr, DecidableEq

/-- A call of a library function or of `free` on a string. -/
inductive ServiceCall where
  | create (fn : Addr) (parameters : Option Addr)
  | init (fn : Addr) (parameters : Option Addr)
  | release (fn : Addr) (pGlobalData : Option Addr)
  | destroy (fn : Addr) (parameters : Option Addr)
  | free (text : List Byte)
deriving Repr, DecidableEq

/-- What `dlsym` returns for the five names. -/
structure Library where
  create : Option Addr
  init : Option Addr
  doRequest : Option Addr
  release : Option Addr
  destroy : Option Addr
deriving Repr, DecidableEq

namespace Registry

/-- The static initial values. -/
def initial : Registry := ⟨none, 0, 0, [], []⟩

/-- The block behind `g_services`; nothing can be read through NULL. -/
def slots (g : Registry) : List (Option Addr) := g.gServices.getD []

/-- `g_services[i] = pSer`. -/
def storeService (g : Registry) (i : Nat) (pSer : Addr) : Option Registry :=
  if i < g.slots.length then
    some { g with gServices := some (g.slots.set i (some pSer)) }
  else none

end Registry

/-- `junk n i` is what word `i` of the block holds that is allocated when
`g_services_counts` is `n`. -/
def appendGServiceArrayCount (junk : Nat → Nat → Option Addr) (g : Registry) :
    Registry :=
  let counts := g.gServicesCounts + defaultServiceSize
  let ppservices := (List.range counts).map (junk g.gServicesCounts)
  { g with
    gServices := some (match g.gServices with
      | none => ppservices
      | some old =>
          old.take g.gServicesCounts ++ ppservices.drop g.gServicesCounts)
    gServicesCounts := counts }

def addService (junk : Nat → Nat → Option Addr) (g : Registry) (pSer : Addr) :
    Option Registry :=
  match g.gServices with
  | none => (appendGServiceArrayCount junk g).storeService 0 pSer
  | some slots => do
      match ← SlotTable.scan slots Option.isNone g.gServicesCounts 0 with
      | some i => g.storeService i pSer
      | none =>
          let i := g.gServicesCounts
          (appendGServiceArrayCount junk g).storeService i pSer

/-- The record of a library that exports all five functions. -/
def checkLib (g : Registry) (lib : Library) : Option (TGService × Registry) := do
  let fpC ← lib.create
  let fpI ← lib.init
  let fpDo ← lib.doRequest
  let fpR ← lib.release
  let fpD ← lib.destroy
  return (⟨g.sID, none, none, 0, fpC, fpI, fpDo, fpR, fpD, none⟩,
    { g with sID := g.sID + 1 })

/-- The arguments of a `loadService` call, what `dlopen` finds, and the octet
`lastFindSeparator` meets below its buffer. -/
structure LoadCall where
  path : List Byte
  lib : Option Library
  below : Byte
deriving Repr, DecidableEq

/-- The name `loadService` gives a service: the last part of the path or the
number of the service. -/
def libName (call : LoadCall) (sID : Int) : List Byte :=
  (getLibName call.path [] call.below).getD (Decimal.text sID ++ [0])

/-- For a path without `/` the code clears ten octets of a block of four, which
is not `none` here. -/
def loadService (junk : Nat → Nat → Option Addr) (g : Registry)
    (call : LoadCall) : Option Registry :=
  if call.path = [] then some g
  else
    match call.lib with
    | none => some g
    | some lib =>
        match checkLib g lib with
        | none => some g
        | some (pService, g) =>
            let name := libName call pService.sID
            addService junk
              { g with
                objects := g.objects ++ [{ pService with serviceName := name }] }
              g.objects.length

/-- The strings `unLoadService` frees for one record. -/
def freedStrings (g : Registry) (pSer : TGService) : Option (List ServiceCall) :=
  let name := (pSer.serviceName.map ServiceCall.free).toList
  match pSer.parameters with
  | none => some name
  | some ppara => do
      let block ← (← g.blocks[ppara]?)
      return name ++ (← SlotTable.walk block).map ServiceCall.free

/-- The record as `unLoadService` leaves it. -/
def clearService (pSer : TGService) : TGService :=
  { pSer with parCounts := 0, serviceName := none, parameters := none }

/-- Run `body` on the records behind the slots up to the first empty slot. -/
def traverse (body : Registry → Addr → TGService →
    Option (List ServiceCall × Registry)) :
    List Addr → Registry → Option (List ServiceCall × Registry)
  | [], g => some ([], g)
  | a :: rest, g => do
      let pS ← g.objects[a]?
      let (calls, g) ← body g a pS
      let (more, g) ← traverse body rest g
      return (calls ++ more, g)

/-- `while ((pS = *ppHead++) != NULL) body` where `g_services` is not NULL. -/
def forServices (body : Registry → Addr → TGService →
    Option (List ServiceCall × Registry)) (g : Registry) :
    Option (List ServiceCall × Registry) :=
  match g.gServices with
  | none => some ([], g)
  | some slots => do traverse body (← SlotTable.walk slots) g

def unLoadService (g : Registry) : Option (List ServiceCall × Registry) :=
  match g.gServices with
  | none => some ([], g)
  | some _ => do
      let (calls, g) ← forServices (fun g a pSer => do
        return (← freedStrings g pSer,
          { g with objects := g.objects.set a (clearService pSer) })) g
      return (calls, { g with gServices := none, gServicesCounts := 0 })

/-- The copy has no room for the terminator of the name. -/
def copyService (pSource : TGService) : Option TGService :=
  match pSource.serviceName with
  | none => some pSource
  | some block => do
      return { pSource with serviceName := some (← cString block) }

/-- The test in the loop of `findServiceI`. -/
def probeI (g : Registry) (id : Int) (a : Addr) : Option SlotTable.Probe := do
  let pS ← g.objects[a]?
  return if pS.sID = id then .found else .next

/-- The test in the loops over names. -/
def probeN (g : Registry) (name : List Byte) (a : Addr) :
    Option SlotTable.Probe := do
  let pS ← g.objects[a]?
  match pS.serviceName with
  | none => return .stop
  | some block => return if ← strcmpEq block name then .found else .next

/-- A search through `g_services`: how many slots it reads and what it takes. -/
def searchServices (probe : Addr → Option SlotTable.Probe) (g : Registry) :
    Option (Nat × Option Addr) :=
  match g.gServices with
  | none => some (0, none)
  | some slots => SlotTable.search probe slots

/-- A copy of the record a search took. -/
def copyFound (g : Registry) (probe : Addr → Option SlotTable.Probe) :
    Option (Option TGService) := do
  match (← searchServices probe g).2 with
  | none => return none
  | some a => return some (← copyService (← g.objects[a]?))

def findServiceI (g : Registry) (id : Int) : Option (Option TGService) :=
  copyFound g (probeI g id)

def findServiceN (g : Registry) (name : List Byte) : Option (Option TGService) :=
  copyFound g (probeN g name)

/-- The parameter array `setServiceCreateParameters` stores into, after a
first or a further allocation if there is need for one. -/
def parameterRoom (g : Registry) (pSer : TGService) :
    Option (Addr × ParameterBlock × TGService × Registry) :=
  let fresh := g.blocks.length
  match pSer.parameters with
  | none =>
      let block : ParameterBlock := List.replicate serviceDefaultParaCounts none
      some (fresh, block,
        { pSer with parameters := some fresh, parCounts := 0 },
        { g with blocks := g.blocks ++ [some block] })
  | some ppara => do
      let old ← (← g.blocks[ppara]?)
      if pSer.parCounts ≠ 0 ∧ pSer.parCounts % serviceDefaultParaCounts = 0 then
        let size := pSer.parCounts + serviceDefaultParaCounts
        let block := old.take pSer.parCounts ++
          List.replicate (size - pSer.parCounts) none
        if old.length < pSer.parCounts then none
        else
          some (fresh, block, { pSer with parameters := some fresh },
            { g with blocks := g.blocks.set ppara none ++ [some block] })
      else some (ppara, old, pSer, g)

def setServiceCreateParameters (g : Registry) (a : Addr) (para : List Byte) :
    Option Registry := do
  let pSer ← g.objects[a]?
  let (ppara, block, pSer, g) ← parameterRoom g pSer
  if pSer.parCounts < block.length then
    return { g with
      blocks := g.blocks.set ppara (some (block.set pSer.parCounts para))
      objects := g.objects.set a
        { pSer with parCounts := pSer.parCounts + 1 } }
  else none

def setServiceCreateParametersByN (g : Registry) (name : Option (List Byte))
    (para : List Byte) : Option Registry :=
  match name with
  | none => some g
  | some [] => some g
  | some (c :: cs) => do
      match (← searchServices (probeN g (c :: cs)) g).2 with
      | none => return g
      | some a => setServiceCreateParameters g a para

/-- `pData` is what `do_create` of the record at each address returns. -/
def createAllServices (pData : Addr → Option Addr) (g : Registry) :
    Option (List ServiceCall × Registry) :=
  forServices (fun g a pS =>
    some ([.create pS.doCreate pS.parameters],
      { g with
        objects := g.objects.set a { pS with pGlobalData := pData a } })) g

def initAllServices (g : Registry) : Option (List ServiceCall × Registry) :=
  forServices (fun g _ pS => some ([.init pS.doInit pS.parameters], g)) g

def releaseAllServices (g : Registry) : Option (List ServiceCall × Registry) :=
  forServices (fun g _ pS => some ([.release pS.doRelease pS.pGlobalData], g)) g

def destroyAllServices (g : Registry) : Option (List ServiceCall × Registry) :=
  forServices (fun g _ pS => some ([.destroy pS.doDestroy pS.parameters], g)) g

end TgServer
