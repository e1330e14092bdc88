/-
The configuration of `tg_server.c`: the command line in its two passes, the
configuration file and the directories of services.  Strings are given by
their texts; `none` is an access outside a buffer, behind the end of `argv` or
through NULL.
-/
import TgServer.Context
import TgServer.Decimal
import TgServer.ServiceArray

namespace TgServer

open Bytes

def defaultConfPath : List Byte := ascii "conf/server.conf"
def defaultServiceDir : List Byte := ascii "plugins/"

/-- The size of the path buffers of `init_context`. -/
def pathBufSize : Nat := 255

/-- The size of `line` in `__read_conf_file`. -/
def lineBufSize : Nat := 500

def logLevelError : Int := 0
def logLevelWarning : Int := 1
def logLevelInfo : Int := 2
def logLevelDebug : Int := 3

/-- An entry `readdir` returns. -/
structure DirEntry where
  dName : List Byte
  isRegular : Bool
deriving Repr, DecidableEq

/-- What the program finds where it is started: its environment, directories,
libraries and files; `below` and `junk` are what memory holds. -/
structure Host where
  tgserverHome : Option (List Byte)
  readdir : List Byte → Option (List DirEntry)
  dlopen : List Byte → Option Library
  fopen : List Byte → Option (List Byte)
  below : List Byte → Byte
  junk : Nat → Nat → Option Addr

/-- `envLogLevel` is the variable `LOG_LEVEL` of the environment. -/
structure Server where
  globals : Globals
  registry : Registry
  envLogLevel : List Byte
deriving Repr, DecidableEq

namespace Host

/-- The calls of `loadService` that `__load_services` makes. -/
def loadCalls (host : Host) (dir : List Byte) : List LoadCall :=
  if dir = [] then []
  else
    ((host.readdir dir).getD []).filterMap fun pEntry =>
      if pEntry.isRegular then
        let path := dir ++ ascii "/" ++ pEntry.dName
        some ⟨path, host.dlopen path, host.below path⟩
      else none

end Host

namespace Server

/-- As `main` starts. -/
def initial : Server := ⟨.initial, .initial, ascii "2"⟩

def loadServices (host : Host) (dir : List Byte) (s : Server) :
    Option Server := do
  let g ← TgServer.loadServices host.junk (host.loadCalls dir) s.registry
  return { s with registry := g }

/-- A store through `g_context`. -/
def setContext (s : Server) (store : TGContext → TGContext) : Option Server :=
  s.globals.gContext.map fun ctx =>
    { s with globals := { s.globals with gContext := some (store ctx) } }

def setParameters (s : Server) (name para : List Byte) : Option Server := do
  let g ← setServiceCreateParametersByN s.registry (some name) para
  return { s with registry := g }

end Server

def TGContext.setPort (pVal : List Byte) (ctx : TGContext) : TGContext :=
  let port := Decimal.atoi pVal
  { ctx with pServer := { ctx.pServer with
      port := if port = 0 then defaultListenPort else port } }

def TGContext.setListenIp (pVal : List Byte) (ctx : TGContext) : TGContext :=
  { ctx with pServer := { ctx.pServer with listenIp := some pVal } }

def TGContext.setMaxClients (pVal : List Byte) (ctx : TGContext) : TGContext :=
  let maxClients := Decimal.atoi pVal
  { ctx with pServer := { ctx.pServer with
      maxClients := if maxClients = 0 then defaultMaxClients else maxClients } }

/-- The level a digit stands for and the value of `LOG_LEVEL`. -/
def logLevelOf (c : Byte) : Int × List Byte :=
  if c = char '0' then (logLevelError, ascii "0")
  else if c = char '1' then (logLevelWarning, ascii "1")
  else if c = char '2' then (logLevelInfo, ascii "2")
  else if c = char '3' then (logLevelDebug, ascii "3")
  else (logLevelError, ascii "0")

def Server.setLogLevel (s : Server) (pVal : List Byte) : Option Server := do
  let (level, text) := logLevelOf (pVal.getD 0 0)
  let s ← s.setContext fun ctx => { ctx with logLevel := level }
  return { s with envLogLevel := text }

/-- `__parse_parameter`; only the first octet of `pPar` counts. -/
def parseParameter (s : Server) (pPar : Option (List Byte))
    (pVal : List Byte) : Option Server := do
  let c := (← pPar).getD 0 0
  if c = char 'p' then s.setContext (TGContext.setPort pVal)
  else if c = char 'l' then s.setContext (TGContext.setListenIp pVal)
  else if c = char 'm' then s.setContext (TGContext.setMaxClients pVal)
  else if c = char 'o' then s.setLogLevel pVal
  else return s

/-- All `__parse_parameter` can do: nothing, or a store through `g_context` that
keeps the descriptors, with one in the environment for the log level. -/
theorem parseParameter_cases (pPar pVal : List Byte) :
    (∀ s, parseParameter s (some pPar) pVal = some s) ∨
      ∃ (store : TGContext → TGContext) (level : List Byte → List Byte),
        (∀ ctx, (store ctx).localAdminfd = ctx.localAdminfd) ∧
        ∀ s, parseParameter s (some pPar) pVal =
          (s.setContext store).map fun s =>
            { s with envLogLevel := level s.envLogLevel } := by
  have hstored : ∀ (store : TGContext → TGContext) (s : Server),
      s.setContext store = (s.setContext store).map fun s =>
        { s with envLogLevel := id s.envLogLevel } :=
    fun store s => Option.map_id'.symm
  simp only [parseParameter, Option.bind_eq_bind, Option.bind_some]
  by_cases hp : pPar.getD 0 0 = char 'p'
  · simp only [if_pos hp]
    exact .inr ⟨TGContext.setPort pVal, id, fun _ => rfl, hstored _⟩
  · by_cases hl : pPar.getD 0 0 = char 'l'
    · simp only [if_neg hp, if_pos hl]
      exact .inr ⟨TGContext.setListenIp pVal, id, fun _ => rfl, hstored _⟩
    · by_cases hm : pPar.getD 0 0 = char 'm'
      · simp only [if_neg hp, if_neg hl, if_pos hm]
        exact .inr ⟨TGContext.setMaxClients pVal, id, fun _ => rfl, hstored _⟩
      · by_cases ho : pPar.getD 0 0 = char 'o'
        · simp only [if_neg hp, if_neg hl, if_neg hm, if_pos ho]
          exact .inr
            ⟨fun ctx => { ctx with logLevel := (logLevelOf (pVal.getD 0 0)).1 },
            fun _ => (logLevelOf (pVal.getD 0 0)).2, fun _ => rfl,
            fun s => Option.map_eq_bind.symm⟩
        · simp only [if_neg hp, if_neg hl, if_neg hm, if_neg ho]
          exact .inl fun _ => rfl

/-- The octets `fgets` takes with `n` places in front of the terminator, and
what it leaves. -/
def fgets : Nat → List Byte → List Byte × List Byte
  | 0, stream => ([], stream)
  | _, [] => ([], [])
  | n + 1, c :: rest =>
      if c = char '\n' then ([c], rest)
      else (c :: (fgets n rest).1, (fgets n rest).2)

/-- What `fgets` reads until it returns NULL; there are no more reads than
octets. -/
def fileLines : Nat → List Byte → List (List Byte)
  | 0, _ => []
  | reads + 1, stream =>
      if stream = [] then []
      else
        let (line, rest) := fgets (lineBufSize - 1) stream
        line :: fileLines reads rest

/-- The parameter a key of the file stands for; NULL for an unknown key. -/
def confParameter (pPar : List Byte) : Option (List Byte) :=
  if strncmpEq pPar (ascii "port") 4 then some (ascii "p")
  else if strncmpEq pPar (ascii "listen") 6 then some (ascii "l")
  else if strncmpEq pPar (ascii "max-clients") 11 then some (ascii "m")
  else if strncmpEq pPar (ascii "log-level") 9 then some (ascii "o")
  else none

/-- One round of the loop of `__read_conf_file`. -/
def confLine (s : Server) (buf : List Byte) : Option Server :=
  let line := buf.takeWhile (· != 0)
  if line = [] ∨ line.getD 0 0 = char '\n' then some s
  else
    let separPos := findSeparator line (ascii "=") []
    if separPos = -1 then some s
    else
      let pPar := line.take separPos.toNat
      let pVal := line.drop (separPos.toNat + 1)
      if pPar.getD 0 0 ≠ char '[' then
        parseParameter s (confParameter pPar) pVal
      else if strncmpEq pPar (ascii "[D]") 3 ∧ 3 < pPar.length then
        s.setParameters (pPar.drop 3) pVal
      else some s

def readConfFile (host : Host) (filePath : List Byte) (s : Server) :
    Option Server :=
  if filePath = [] then some s
  else
    match host.fopen filePath with
    | none => some s
    | some content => (fileLines content.length content).foldlM confLine s

/-- `pPar == NULL || *pPar != '-' || *++pPar == '\0' || pVal == NULL ||
*pVal == '\0'` for arguments that are there. -/
def badPair (pPar pVal : List Byte) : Bool :=
  pPar.getD 0 0 != char '-' || pPar.length < 2 || pVal == []

/-- The rejection of the command line in `init_context`. -/
def rejectArgv (s : Server) : Option (Int × Server) :=
  (release s.globals).map fun g => (-1, { s with globals := g })

/-- The loop of `init_context` over the arguments that are left. -/
def contextOptions (host : Host) :
    List (List Byte) → Server → Option (Int × Server)
  | [], s => some (0, s)
  | [pPar], s => if pPar = [] then some (0, s) else rejectArgv s
  | pPar :: pVal :: argv, s =>
      if pPar = [] then some (0, s)
      else if badPair pPar pVal then rejectArgv s
      else
        let c := pPar.getD 1 0
        if c = char 'f' then do
          contextOptions host argv (← readConfFile host pVal s)
        else if c = char 's' then do
          contextOptions host argv (← s.loadServices host pVal)
        else if c = char 'D' then contextOptions host argv s
        else do
          contextOptions host argv (← parseParameter s (some (pPar.drop 1)) pVal)

/-- `dirBuf`, and a path below it, in their buffers. -/
def homePath (host : Host) (path : List Byte) : Option (List Byte) :=
  let full := host.tgserverHome.getD (ascii "../") ++ path
  if full.length < pathBufSize then some full else none

/-- `init_context` up to the command line. -/
def startContext (host : Host) (s : Server) : Option Server := do
  let dir ← homePath host defaultServiceDir
  { s with globals := init s.globals }.loadServices host dir

def initContext (host : Host) (argv : List (List Byte)) (s : Server) :
    Option (Int × Server) := do
  let s ← startContext host s
  let s ← if argv.length = 1 then
      readConfFile host (← homePath host defaultConfPath) s
    else some s
  match argv with
  | [] => none
  | _ :: argv => contextOptions host argv s

/-- The loop of `init_plugin`; a single argument at the end makes it read on
behind the NULL. -/
def pluginOptions : List (List Byte) → Server → Option Server
  | [], s => some s
  | [_], _ => none
  | pPar :: pVal :: argv, s =>
      let pos := findSeparator pVal (ascii "=") []
      if badPair pPar pVal ∨ pos = -1 then pluginOptions argv s
      else if pPar.getD 1 0 = char 'D' then do
        pluginOptions argv (← s.setParameters (pVal.take pos.toNat)
          (pVal.drop (pos.toNat + 1)))
      else pluginOptions argv s

/-- `init_plugin` up to the creation of its thread. -/
def initPlugin (argv : List (List Byte)) (s : Server) : Option Server :=
  if argv.length ≤ 1 then some s else pluginOptions (argv.drop 1) s

end TgServer
