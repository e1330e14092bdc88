/-
The descriptors of the main process and of the client processes, from the
start of the server to its end.  The kernel returns numbers that are not open;
a call of `close` or `shutdown` on a number that is not open is recorded.
What is read through pointers to freed memory is part of the label of a step.
-/
import TgServer.Accept
import TgServer.Admin
import TgServer.Configuration
import TgServer.DescriptorTable
import TgServer.Response

namespace TgServer

open Bytes Transition DescriptorTable

/-- What a descriptor refers to; connections are numbered. -/
inductive OpenFile where
  /-- Open when the server is started. -/
  | inherited
  | listening
  | adminPipe
  /-- `OUT_PIPE` -/
  | replyPipe
  | connection (n : Nat)
  /-- An end of the pipe `fd` or `fd1` of `do_accept`. -/
  | pipeEnd (n : Nat) (fd1 : Bool) (write : Bool)
deriving Repr, DecidableEq

def OpenFile.ofClient : OpenFile → Bool
  | .connection _ => true
  | .pipeEnd _ _ _ => true
  | _ => false

def FdCall.use : FdCall → Use
  | .close fd => .close fd
  | .shutdown fd => .keep fd

/-- A client process as it comes to the limit check; its slots are all NULL. -/
structure ClientFds where
  files : Table OpenFile
  client : TGClient
  clientsArSize : Nat
  connection : Nat

inductive Phase where
  | boot
  /-- In the loop of `startListen`. -/
  | loop
  /-- In `__handle_host_shutdown_signal`, before `closeAllClient`. -/
  | sleeping
  /-- In `closeAllClient`, at slot `i`. -/
  | closing (i : Nat)
  /-- The client of slot `i` is released and the slot not yet NULL. -/
  | released (i : Nat)
  | ended
deriving Repr, DecidableEq

/-- `terminating` says whether the handler of `SIGTERM` runs, `procs` holds the
last client process with each pid, `commands` counts the administration
commands that were not a shutdown. -/
structure FdState where
  phase : Phase
  terminating : Bool
  main : MainState
  gContext : Option TGContext
  files : Table OpenFile
  connections : Nat
  commands : Nat
  procs : TgPid → Option ClientFds
  misuses : List Use

inductive FdAct where
  /-- `init_context`, and `startListen` up to its loop; `adminfd` is what
  `open_admin_pipe` returns. -/
  | start (host : Host) (argv : List (List Byte)) (listenfd : Int)
      (adminfd : Option Int)
  /-- `accept`, and for a connection the two calls of `pipe`; where one fails,
  its array holds what it held. -/
  | accept (sockfd : Int) (ip : List Byte) (sinPort : Int) (pipes : Pipes)
      (piped : Bool × Bool)
  | fork (cpid : TgPid) (stale : Addr → TGClient)
  /-- Any other step of the accept loop, of the handler of `SIGCHLD` or of a
  child. -/
  | main (act : Act)
  /-- `do_admin`, when `read` has returned some octets. -/
  | admin (octets stack : List Byte) (outFd : Int)
  | handle (pid : TgPid) (registry : Registry) (turns : List Turn)
  /-- A client process behind the limit check handles `SIGTERM`; it inherited
  the handler. -/
  | terminate (pid : TgPid)
  /-- `SIGTERM`.  In the handler of `SIGCHLD` it comes behind some rounds, and
  behind some of the calls of a last one. -/
  | stop (rounds : List Reaped) (last : Option (Reaped × Nat))
  /-- The next step of the shutdown. -/
  | shut (round : Reaped)

namespace FdState

def initial (inherited : Int → Bool) : FdState :=
  ⟨.boot, false, .initial, none,
    fun fd => if inherited fd then some .inherited else none,
    0, 0, fun _ => none, []⟩

def perform (s : FdState) (calls : List FdCall) : FdState :=
  { s with
    files := after s.files (calls.map FdCall.use)
    misuses := s.misuses ++ misused s.files (calls.map FdCall.use) }

/-- The calls a step of the machine of `Accept` adds to the list. -/
def added (main next : MainState) : List FdCall :=
  next.fdCalls.drop main.fdCalls.length

def follow (s : FdState) (main : MainState) (calls : List FdCall) : FdState :=
  { s with main := main }.perform calls

def opens (s : FdState) (opened : List (Int × OpenFile)) : Option FdState :=
  if Fresh s.files (opened.map Prod.fst) then
    some { s with files := openAll s.files opened }
  else none

/-- `main` up to the loop of `startListen`; when `init_context` rejects the
arguments, `main` calls `release` once more and exits. -/
def start (s : FdState) (host : Host) (argv : List (List Byte))
    (listenfd : Int) (adminfd : Option Int) : Option FdState :=
  if s.phase = .boot then do
    let (flag, server) ← initContext host argv .initial
    if flag = -1 then
      let g ← release server.globals
      return { s.perform g.fdCalls with phase := .ended }
    else
      let ctx ← server.globals.gContext
      let s ← (s.perform server.globals.fdCalls).opens
        ((listenfd, .listening) ::
          (adminfd.map fun fd => (fd, OpenFile.adminPipe)).toList)
      return { s with
        phase := .loop
        gContext := some { ctx with
          listenfd := listenfd
          localAdminfd := adminfd.getD ctx.localAdminfd } }
  else none

def connectionFds (n : Nat) (sockfd : Int) (pipes : Pipes)
    (piped : Bool × Bool) : List (Int × OpenFile) :=
  [(sockfd, .connection n)] ++
    (if piped.1 then [(pipes.fd.1, .pipeEnd n false false),
      (pipes.fd.2, .pipeEnd n false true)] else []) ++
    (if piped.2 then [(pipes.fd1.1, .pipeEnd n true false),
      (pipes.fd1.2, .pipeEnd n true true)] else [])

def advance (s : FdState) (act : Act) : Option FdState := do
  let ctx ← s.gContext
  let main ← acceptStep ctx.pServer.maxClients s.main act
  return s.follow main (added s.main main)

def accept (s : FdState) (sockfd : Int) (ip : List Byte) (sinPort : Int)
    (pipes : Pipes) (piped : Bool × Bool) : Option FdState :=
  if s.phase = .loop then do
    let s ← s.advance (.accept sockfd ip sinPort pipes)
    if sockfd = -1 then return s
    else
      let s ← s.opens (connectionFds s.connections sockfd pipes piped)
      return { s with connections := s.connections + 1 }
  else none

def childCalls (s : FdState) (ctx : TGContext) (pipes : Pipes)
    (stale : Addr → TGClient) : List FdCall :=
  [.close pipes.fd1.1, .close pipes.fd.2] ++
    (s.main.gClients.take s.main.clientsArSize).flatMap
      (fun slot => releaseSlot (slot.map fun pC =>
        (s.main.records pC).getD (stale pC))) ++
    [.close ctx.listenfd, .close ctx.localAdminfd]

def limitCheck (s : FdState) (ctx : TGContext) (sockfd : Int)
    (pClient : TGClient) (pipes : Pipes) (stale : Addr → TGClient) :
    ClientFds :=
  ⟨after s.files ((s.childCalls ctx pipes stale).map FdCall.use),
    setPipe { pClient with sockfd := sockfd } pipes.fd.1 pipes.fd1.2,
    s.main.clientsArSize, s.connections - 1⟩

def fork (s : FdState) (cpid : TgPid) (stale : Addr → TGClient) :
    Option FdState :=
  if s.phase = .loop then do
    let ctx ← s.gContext
    let next ← s.advance (.fork cpid)
    match s.main.pc with
    | .accepted sockfd pClient pipes =>
        if 0 < cpid then
          let child := s.limitCheck ctx sockfd pClient pipes stale
          let calls := s.childCalls ctx pipes stale
          return { next with
            procs := Function.update s.procs cpid (some child)
            misuses := next.misuses ++ misused s.files (calls.map FdCall.use) }
        else return next
    | _ => none
  else none

def runs (s : FdState) : Act → Bool
  | .accept _ _ _ _ => false
  | .fork _ => false
  | .advance _ => s.phase == .loop
  | .check _ => true
  | .exit _ => true
  | .sigchld _ => s.phase != .boot && s.phase != .ended

def globals (s : FdState) : Globals :=
  ⟨some s.main.view, s.main.clientsArSize, s.gContext, []⟩

/-- An `open` that fails returns -1. -/
def admin (s : FdState) (octets stack : List Byte) (outFd : Int) :
    Option FdState :=
  if s.phase = .loop ∧ s.main.pc = .select ∧ octets ≠ [] then do
    let effects ← doAdmin s.globals (.data octets) stack outFd
    if effects = [.unlinkPipe, .hostShutdown] then
      return { s with phase := .sleeping }
    else
      let s ← if outFd = -1 then some s else s.opens [(outFd, .replyPipe)]
      return { s with commands := s.commands + 1 }
  else none

end FdState

def ClientFds.globals (c : ClientFds) (ctx : TGContext) : Globals :=
  ⟨some (List.replicate c.clientsArSize none), c.clientsArSize, some ctx, []⟩

def ClientFds.child (c : ClientFds) (registry : Registry) (ctx : TGContext) :
    Child where
  registry := registry
  globals := c.globals ctx
  client := c.client
  fits := List.length_replicate

def fdUses (effects : List Effect) : List Use :=
  effects.filterMap fun
    | .fd call => some call.use
    | _ => none

namespace FdState

def serves (s : FdState) (pid : TgPid) : Bool :=
  s.main.children.any fun child => child.pid == pid && child.phase == .serving

def handle (s : FdState) (pid : TgPid) (registry : Registry)
    (turns : List Turn) : Option FdState :=
  if s.serves pid then do
    let ctx ← s.gContext
    let c ← s.procs pid
    let effects := handleEvents (c.child registry ctx) turns
    let next ← if exits effects then s.advance (.exit pid) else some s
    return { next with
      misuses := next.misuses ++ misused c.files (fdUses effects) }
  else none

/-- `closeAllClient` finds no clients, `release` the context. -/
def terminate (s : FdState) (pid : TgPid) : Option FdState :=
  if s.serves pid then do
    let ctx ← s.gContext
    let c ← s.procs pid
    let g ← release (← closeAllClient (c.globals ctx))
    let next ← s.advance (.exit pid)
    return { next with
      misuses := next.misuses ++
        misused c.files (g.fdCalls.map FdCall.use) }
  else none

/-- The handler of `SIGTERM` may interrupt anything but itself, and does not
come back. -/
def stop (s : FdState) (rounds : List Reaped)
    (last : Option (Reaped × Nat)) : Option FdState :=
  if s.phase ≠ .boot ∧ s.phase ≠ .ended ∧ s.terminating = false then do
    let main ← rounds.foldlM MainState.reap s.main
    let s := s.follow main (added s.main main)
    let s ← match last with
      | none => some s
      | some (round, made) => do
          let main ← s.main.reap round
          pure (s.follow main ((added s.main main).take made))
    return { s with phase := .sleeping, terminating := true }
  else none

def shut (s : FdState) (round : Reaped) : Option FdState :=
  match s.phase with
  | .sleeping => some { s with phase := .closing 0 }
  | .closing i =>
      if i < s.main.clientsArSize then do
        match ← (s.main.slotsRead round)[i]? with
        | none => return { s with phase := .closing (i + 1) }
        | some pC =>
            let s := s.perform (releaseClient (s.main.deref round pC))
            let records := Function.update s.main.records pC none
            return { s with
              main := { s.main with records := records }
              phase := .released i }
      else do
        let ctx ← s.gContext
        let slots := (s.main.slotsRead round).take s.main.clientsArSize
        let clients := slots.flatMap fun slot =>
          releaseSlot (slot.map (s.main.deref round))
        return { s.perform (clients ++ releaseContext ctx) with
          phase := .ended }
  | .released i =>
      let gClients := s.main.clearSlot i
      some { s with
        main := { s.main with gClients := gClients }
        phase := .closing (i + 1) }
  | _ => none

end FdState

def fdStep (s : FdState) : FdAct → Option FdState
  | .start host argv listenfd adminfd => s.start host argv listenfd adminfd
  | .accept sockfd ip sinPort pipes piped =>
      s.accept sockfd ip sinPort pipes piped
  | .fork cpid stale => s.fork cpid stale
  | .main act => if s.runs act then s.advance act else none
  | .admin octets stack outFd => s.admin octets stack outFd
  | .handle pid registry turns => s.handle pid registry turns
  | .terminate pid => s.terminate pid
  | .stop rounds last => s.stop rounds last
  | .shut round => s.shut round

/-- The server, started with the given descriptors open. -/
def fdMachine (inherited : Int → Bool) : Machine FdState FdAct :=
  ⟨.initial inherited, fdStep⟩

end TgServer
