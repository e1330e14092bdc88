/-
The main process from one `select` to the next: the parent branch of
`do_accept` in the steps `__handle_child_quit_signal` can come between, that
handler, and the children from `fork` through the limit check to their end.
What is read through a pointer to freed memory is part of the label of a step,
what is written there is lost.  `none` is a step that cannot be taken, or an
access outside an array.
-/
import TgServer.Context
import Mathlib.Data.List.Count

namespace TgServer

open Bytes Transition

def initClient : TGClient := ⟨0, -1, -1, -1, none, 0⟩

def setClient (pCli : TGClient) (ip : List Byte) (sinPort : Int) : TGClient :=
  { pCli with port := sinPort, clientIP := some ip }

def setPipe (pCli : TGClient) (readfd writefd : Int) : TGClient :=
  { pCli with
    readPipe := if readfd ≠ -1 then readfd else pCli.readPipe
    writePipe := if writefd ≠ -1 then writefd else pCli.writePipe }

/-- The locals `fd` and `fd1` of `do_accept`: read end, write end. -/
structure Pipes where
  fd : Int × Int
  fd1 : Int × Int
deriving Repr, DecidableEq

/-- Where the main process stands in `do_accept`, `addClient` and
`appendClient`, with the locals it still needs. -/
inductive Pc where
  | select
  | accepted (sockfd : Int) (pClient : TGClient) (pipes : Pipes)
  | forked (sockfd : Int) (pClient : TGClient) (pipes : Pipes) (cpid : TgPid)
  | adding (pClient : TGClient)
  | scanning (pT : Addr) (i : Nat)
  /-- Slot `i` was NULL when it was read. -/
  | found (pT : Addr) (i : Nat)
  | appending (pT : Addr)
  /-- The first `copied` slots of `ppNew` are copied. -/
  | copying (pT : Addr) (ppNew : List (Option Addr)) (copied : Nat)
  /-- The old array is freed and `g_clients` still points to it. -/
  | freed (pT : Addr) (ppNew : List (Option Addr))
  /-- `g_clients` is set and `clients_ar_size` is not. -/
  | swapped (pT : Addr)
  | grown (pT : Addr) (currentPos : Nat)
  | counting
  /-- `curClientCounts` is read and not yet written back. -/
  | loaded (curClientCounts : Int)
deriving Repr, DecidableEq

inductive ChildPhase where
  | starting
  | serving
  | exited
deriving Repr, DecidableEq

/-- A child that has not been reaped, with its copy of the counter. -/
structure ChildProc where
  pid : TgPid
  curClientCounts : Int
  phase : ChildPhase
deriving Repr, DecidableEq

namespace ChildProc

/-- The condition of the limit check. -/
def overLimit (maxClients : Int) (child : ChildProc) : Bool :=
  maxClients ≤ child.curClientCounts

/-- The limit check: refused children exit, the others serve. -/
def check (maxClients : Int) (child : ChildProc) : ChildProc :=
  if child.phase = .starting then
    { child with
      phase := if child.overLimit maxClients then .exited else .serving }
  else child

def quit (child : ChildProc) : ChildProc := { child with phase := .exited }

@[simp] theorem pid_check (maxClients : Int) (child : ChildProc) :
    (child.check maxClients).pid = child.pid := by
  rw [check]
  split <;> rfl

@[simp] theorem pid_quit (child : ChildProc) : child.quit.pid = child.pid := rfl

end ChildProc

structure MainState where
  gClients : List (Option Addr)
  clientsArSize : Nat
  /-- The records that are allocated. -/
  records : Addr → Option TGClient
  curClientCounts : Int
  /-- In the order they were forked. -/
  children : List ChildProc
  fdCalls : List FdCall
  pc : Pc

/-- One round of the handler's loop: what `waitpid` returns, and what released
records and a freed array are read as. -/
structure Reaped where
  pid : TgPid
  stale : Addr → TGClient
  freedSlot : Nat → Option Addr

namespace MainState

def initial : MainState :=
  ⟨List.replicate defaultMaxClients none, defaultMaxClients, fun _ => none, 0,
    [], [], .select⟩

/-- What the slots point to; NULL where that has been released. -/
def view (s : MainState) : List (Option TGClient) :=
  s.gClients.map fun slot => slot.bind s.records

/-- The globals of `tg_context.c` in this state; the context has other fields
as well. -/
def globals (ctx : TGContext) (s : MainState) : Globals where
  gClients := some s.view
  clientsArSize := s.clientsArSize
  gContext := some { ctx with curClientCounts := s.curClientCounts }
  fdCalls := s.fdCalls

def deref (s : MainState) (round : Reaped) (pC : Addr) : TGClient :=
  (s.records pC).getD (round.stale pC)

/-- The array as the handler reads it. -/
def slotsRead (s : MainState) (round : Reaped) : List (Option Addr) :=
  match s.pc with
  | .freed _ _ => (List.range s.clientsArSize).map round.freedSlot
  | _ => s.gClients

/-- `g_clients[i] = NULL` in the handler. -/
def clearSlot (s : MainState) (i : Nat) : List (Option Addr) :=
  match s.pc with
  | .freed _ _ => s.gClients
  | _ => s.gClients.set i none

def isClient (s : MainState) (round : Reaped) : Option Addr → Bool
  | none => false
  | some pC => (s.deref round pC).pid == round.pid

/-- What `closeClient` does with the slot it has found. -/
def dropClient (s : MainState) (round : Reaped) (i : Nat) (pC : Addr) :
    MainState :=
  { s with
    gClients := s.clearSlot i
    records := Function.update s.records pC none
    curClientCounts := s.curClientCounts - 1
    fdCalls := s.fdCalls ++ releaseClient (s.deref round pC) }

def closeClient (s : MainState) (round : Reaped) : Option MainState := do
  match ← SlotTable.scan (s.slotsRead round) (s.isClient round)
      s.clientsArSize 0 with
  | none => return s
  | some i => return s.dropClient round i (← (← (s.slotsRead round)[i]?))

def isZombie (pid : TgPid) (child : ChildProc) : Bool :=
  child.pid == pid && child.phase == .exited

def reap (s : MainState) (round : Reaped) : Option MainState :=
  if s.children.any (isZombie round.pid) then
    closeClient { s with children := s.children.eraseP (isZombie round.pid) }
      round
  else none

/-- The handler goes on until no child is left to wait for. -/
def handleChildQuitSignal : List Reaped → MainState → Option MainState
  | [], s => if s.children.any (·.phase == .exited) then none else some s
  | round :: rest, s => (s.reap round).bind (handleChildQuitSignal rest)

def storeClient (s : MainState) (i : Nat) (pT : Addr) : Option MainState :=
  if i < s.gClients.length then
    some { s with gClients := s.gClients.set i (some pT), pc := .counting }
  else none

def fork (s : MainState) (cpid : TgPid) : Option MainState :=
  match s.pc with
  | .accepted sockfd pClient pipes =>
      if cpid < 0 then some { s with pc := .select }
      else if 0 < cpid ∧ cpid ∉ s.children.map ChildProc.pid then
        some { s with
          children := s.children ++ [⟨cpid, s.curClientCounts, .starting⟩]
          pc := .forked sockfd pClient pipes cpid }
      else none
  | _ => none

/-- The next step of the parent after `fork`; `addr` is what `malloc` returns
for the record of `addClient`. -/
def advance (s : MainState) (addr : Addr) : Option MainState :=
  match s.pc with
  | .select => none
  | .accepted _ _ _ => none
  | .forked sockfd pClient pipes cpid => some { s with
      fdCalls := s.fdCalls ++
        [.close sockfd, .close pipes.fd1.2, .close pipes.fd.1]
      pc := .adding
        (setPipe { pClient with pid := cpid } pipes.fd1.1 pipes.fd.2) }
  | .adding pClient =>
      if (s.records addr).isSome then none
      else some { s with
        records := Function.update s.records addr (some pClient)
        pc := .scanning addr 0 }
  | .scanning pT i =>
      if i < s.clientsArSize then
        match s.gClients[i]? with
        | none => none
        | some none => some { s with pc := .found pT i }
        | some (some _) => some { s with pc := .scanning pT (i + 1) }
      else some { s with pc := .appending pT }
  | .found pT i => s.storeClient i pT
  | .appending pT =>
      let newClientCounts := s.clientsArSize + defaultMaxClients
      some { s with pc := .copying pT (List.replicate newClientCounts none) 0 }
  | .copying pT ppNew copied =>
      if copied < s.clientsArSize then
        match s.gClients[copied]? with
        | none => none
        | some slot =>
            if copied < ppNew.length then
              some { s with
                pc := .copying pT (ppNew.set copied slot) (copied + 1) }
            else none
      else some { s with pc := .freed pT ppNew }
  | .freed pT ppNew => some { s with gClients := ppNew, pc := .swapped pT }
  | .swapped pT => some { s with
      clientsArSize := s.clientsArSize + defaultMaxClients
      pc := .grown pT s.clientsArSize }
  | .grown pT currentPos => s.storeClient currentPos pT
  | .counting => some { s with pc := .loaded s.curClientCounts }
  | .loaded counts => some { s with
      curClientCounts := counts + 1, pc := .select }

end MainState

/-- The child branch of `do_accept` up to the limit check, on the globals as
`fork` copied them: the child exits or goes on to serve. -/
def childBranch (g : Globals) : Option ChildPhase := do
  let g ← closeAllClient g
  let pContext ← g.gContext
  return if pContext.pServer.maxClients ≤ pContext.curClientCounts then .exited
    else .serving

/-- A step of the main process, of a child, or the handler. -/
inductive Act where
  /-- `accept` returns; for a connection, the record and the pipes are set up. -/
  | accept (sockfd : Int) (ip : List Byte) (sinPort : Int) (pipes : Pipes)
  | fork (cpid : TgPid)
  | advance (addr : Addr)
  | check (pid : TgPid)
  | exit (pid : TgPid)
  | sigchld (rounds : List Reaped)

def acceptStep (maxClients : Int) (s : MainState) : Act → Option MainState
  | .accept sockfd ip sinPort pipes =>
      if s.pc = .select then
        if sockfd = -1 then some s
        else some { s with
          pc := .accepted sockfd (setClient initClient ip sinPort) pipes }
      else none
  | .fork cpid => s.fork cpid
  | .advance addr => s.advance addr
  | .check pid =>
      if s.children.any (fun child => child.pid == pid &&
          child.phase == .starting) then
        some { s with children := s.children.map fun child =>
          if child.pid = pid then child.check maxClients else child }
      else none
  | .exit pid =>
      if s.children.any (fun child => child.pid == pid &&
          child.phase != .exited) then
        some { s with children := s.children.map fun child =>
          if child.pid = pid then child.quit else child }
      else none
  | .sigchld rounds => MainState.handleChildQuitSignal rounds s

/-- The main process with its children, for a configured limit. -/
def acceptMachine (maxClients : Int) : Machine MainState Act :=
  ⟨.initial, acceptStep maxClients⟩

namespace MainState

section Cases

variable {s s' : MainState} {round : Reaped}

/-- `closeClient` changes nothing, or drops a client it found. -/
theorem closeClient_cases (hclose : s.closeClient round = some s') :
    (s' = s ∧ SlotTable.scan (s.slotsRead round) (s.isClient round)
        s.clientsArSize 0 = some none) ∨
    ∃ i pC, (s.slotsRead round)[i]? = some (some pC) ∧
      (s.deref round pC).pid = round.pid ∧ s' = s.dropClient round i pC := by
  rw [closeClient] at hclose
  cases hscan : SlotTable.scan (s.slotsRead round) (s.isClient round)
      s.clientsArSize 0 with
  | none => simp [hscan] at hclose
  | some result =>
      cases result with
      | none =>
          simp only [hscan, Option.bind_eq_bind, Option.bind_some,
            Option.pure_def, Option.some.injEq] at hclose
          exact Or.inl ⟨hclose.symm, rfl⟩
      | some i =>
          obtain ⟨slot, hslot, hfound⟩ := SlotTable.scan_found hscan
          cases slot with
          | none => cases hfound
          | some pC =>
              simp only [hscan, Option.bind_eq_bind, Option.bind_some, hslot,
                Option.pure_def, Option.some.injEq] at hclose
              refine Or.inr ⟨i, pC, hslot, ?_, hclose.symm⟩
              simpa [isClient] using hfound

/-- A round of the handler takes an exited child off the list and then closes
its client. -/
theorem reap_cases (hreap : s.reap round = some s') :
    (∃ child ∈ s.children, isZombie round.pid child = true) ∧
    closeClient { s with children := s.children.eraseP (isZombie round.pid) }
      round = some s' := by
  rw [reap] at hreap
  split at hreap
  · rename_i hany
    exact ⟨List.any_eq_true.mp hany, hreap⟩
  · cases hreap

theorem fork_cases {cpid : TgPid} (hfork : s.fork cpid = some s') :
    ∃ sockfd pClient pipes, s.pc = .accepted sockfd pClient pipes ∧
      (cpid < 0 ∧ s' = { s with pc := .select } ∨
        0 < cpid ∧ cpid ∉ s.children.map ChildProc.pid ∧
        s' = { s with
          children := s.children ++ [⟨cpid, s.curClientCounts, .starting⟩]
          pc := .forked sockfd pClient pipes cpid }) := by
  rw [fork] at hfork
  split at hfork
  · rename_i sockfd pClient pipes hpc
    refine ⟨sockfd, pClient, pipes, hpc, ?_⟩
    split at hfork
    · rename_i herror
      exact Or.inl ⟨herror, (Option.some.inj hfork).symm⟩
    · split at hfork
      · rename_i hnew
        exact Or.inr ⟨hnew.1, hnew.2, (Option.some.inj hfork).symm⟩
      · cases hfork
  · cases hfork

theorem storeClient_some {i : Nat} {pT : Addr}
    (hstore : s.storeClient i pT = some s') : i < s.gClients.length ∧
      s' = { s with
        gClients := s.gClients.set i (some pT), pc := .counting } := by
  rw [storeClient] at hstore
  split at hstore
  · rename_i hlt
    exact ⟨hlt, (Option.some.inj hstore).symm⟩
  · cases hstore

/-- What each round preserves, the handler preserves; the rounds to come are
part of the property. -/
theorem handle_preserves {P : List Reaped → MainState → Prop}
    (hround : ∀ round rest s s', P (round :: rest) s →
      s.reap round = some s' → P rest s')
    {rounds : List Reaped} {s s' : MainState} (hstart : P rounds s)
    (hhandle : handleChildQuitSignal rounds s = some s') : P [] s' := by
  induction rounds generalizing s with
  | nil =>
      rw [handleChildQuitSignal] at hhandle
      split at hhandle
      · cases hhandle
      · exact Option.some.inj hhandle ▸ hstart
  | cons round rest ih =>
      rw [handleChildQuitSignal, Option.bind_eq_some_iff] at hhandle
      obtain ⟨mid, hreap, hrest⟩ := hhandle
      exact ih (hround round rest s mid hstart hreap) hrest

theorem reap_pc (hreap : s.reap round = some s') : s'.pc = s.pc := by
  rcases closeClient_cases (reap_cases hreap).2 with
    ⟨rfl, _⟩ | ⟨i, pC, _, _, rfl⟩ <;> rfl

theorem reap_size (hreap : s.reap round = some s') :
    s'.clientsArSize = s.clientsArSize := by
  rcases closeClient_cases (reap_cases hreap).2 with
    ⟨rfl, _⟩ | ⟨i, pC, _, _, rfl⟩ <;> rfl

theorem reap_children (hreap : s.reap round = some s') :
    s'.children = s.children.eraseP (isZombie round.pid) := by
  rcases closeClient_cases (reap_cases hreap).2 with
    ⟨rfl, _⟩ | ⟨i, pC, _, _, rfl⟩ <;> rfl

/-- A round lowers the counter by one at most. -/
theorem reap_counts (hreap : s.reap round = some s') :
    s.curClientCounts - 1 ≤ s'.curClientCounts ∧
      s'.curClientCounts ≤ s.curClientCounts := by
  rcases closeClient_cases (reap_cases hreap).2 with
    ⟨rfl, _⟩ | ⟨i, pC, _, _, rfl⟩
  · exact ⟨Int.sub_le_self _ (by decide), Int.le_refl _⟩
  · exact ⟨Int.le_refl _, Int.sub_le_self _ (by decide)⟩

theorem length_clearSlot (s : MainState) (i : Nat) :
    (s.clearSlot i).length = s.gClients.length := by
  rw [clearSlot]
  split
  · rfl
  · exact List.length_set

theorem reap_length (hreap : s.reap round = some s') :
    s'.gClients.length = s.gClients.length := by
  rcases closeClient_cases (reap_cases hreap).2 with
    ⟨rfl, _⟩ | ⟨i, pC, _, _, rfl⟩
  · rfl
  · exact length_clearSlot _ i

end Cases

/-- The arrays have the lengths the code takes them to have. -/
def Shape (s : MainState) : Prop :=
  match s.pc with
  | .found _ i => s.gClients.length = s.clientsArSize ∧ i < s.clientsArSize
  | .copying _ ppNew _ => s.gClients.length = s.clientsArSize ∧
      ppNew.length = s.clientsArSize + defaultMaxClients
  | .freed _ ppNew => s.gClients.length = s.clientsArSize ∧
      ppNew.length = s.clientsArSize + defaultMaxClients
  | .swapped _ =>
      s.gClients.length = s.clientsArSize + defaultMaxClients
  | .grown _ currentPos => s.gClients.length = s.clientsArSize ∧
      currentPos < s.clientsArSize
  | _ => s.gClients.length = s.clientsArSize

theorem Shape.length_slotsRead {s : MainState} (hshape : s.Shape)
    (round : Reaped) : s.clientsArSize ≤ (s.slotsRead round).length := by
  obtain ⟨gClients, size, records, counts, children, fdCalls, pc⟩ := s
  cases pc <;> simp_all [Shape, slotsRead]

theorem Shape.reap {s s' : MainState} {round : Reaped} (hshape : s.Shape)
    (hreap : s.reap round = some s') : s'.Shape := by
  have hpc := reap_pc hreap
  have hsize := reap_size hreap
  have hlength := reap_length hreap
  simp only [Shape, hpc, hsize, hlength]
  exact hshape

/-- The steps of the parent after `fork`. -/
inductive Advanced (s : MainState) : MainState → Prop where
  | record {sockfd : Int} {pClient : TGClient} {pipes : Pipes} {cpid : TgPid}
      (hpc : s.pc = .forked sockfd pClient pipes cpid) : Advanced s { s with
        fdCalls := s.fdCalls ++
          [.close sockfd, .close pipes.fd1.2, .close pipes.fd.1]
        pc := .adding
          (setPipe { pClient with pid := cpid } pipes.fd1.1 pipes.fd.2) }
  | alloc {pClient : TGClient} {addr : Addr} (hpc : s.pc = .adding pClient)
      (hfresh : s.records addr = none) : Advanced s { s with
        records := Function.update s.records addr (some pClient)
        pc := .scanning addr 0 }
  | free {pT : Addr} {i : Nat} (hpc : s.pc = .scanning pT i)
      (hlt : i < s.clientsArSize) (hslot : s.gClients[i]? = some none) :
      Advanced s { s with pc := .found pT i }
  | next {pT : Addr} {i : Nat} (hpc : s.pc = .scanning pT i) :
      Advanced s { s with pc := .scanning pT (i + 1) }
  | full {pT : Addr} {i : Nat} (hpc : s.pc = .scanning pT i) :
      Advanced s { s with pc := .appending pT }
  | insert {pT : Addr} {i : Nat}
      (hpc : s.pc = .found pT i ∨ s.pc = .grown pT i)
      (hlt : i < s.gClients.length) : Advanced s { s with
        gClients := s.gClients.set i (some pT), pc := .counting }
  | append {pT : Addr} (hpc : s.pc = .appending pT) : Advanced s { s with
      pc := .copying pT
        (List.replicate (s.clientsArSize + defaultMaxClients) none) 0 }
  | copy {pT : Addr} {ppNew : List (Option Addr)} {copied : Nat}
      {slot : Option Addr} (hpc : s.pc = .copying pT ppNew copied)
      (hlt : copied < s.clientsArSize)
      (hslot : s.gClients[copied]? = some slot) : Advanced s { s with
        pc := .copying pT (ppNew.set copied slot) (copied + 1) }
  | copied {pT : Addr} {ppNew : List (Option Addr)} {copied : Nat}
      (hpc : s.pc = .copying pT ppNew copied)
      (hle : s.clientsArSize ≤ copied) :
      Advanced s { s with pc := .freed pT ppNew }
  | swap {pT : Addr} {ppNew : List (Option Addr)}
      (hpc : s.pc = .freed pT ppNew) :
      Advanced s { s with gClients := ppNew, pc := .swapped pT }
  | grow {pT : Addr} (hpc : s.pc = .swapped pT) : Advanced s { s with
      clientsArSize := s.clientsArSize + defaultMaxClients
      pc := .grown pT s.clientsArSize }
  | load (hpc : s.pc = .counting) :
      Advanced s { s with pc := .loaded s.curClientCounts }
  | write {counts : Int} (hpc : s.pc = .loaded counts) :
      Advanced s { s with curClientCounts := counts + 1, pc := .select }

theorem advance_cases {s s' : MainState} {addr : Addr}
    (hstep : s.advance addr = some s') : Advanced s s' := by
  rw [advance] at hstep
  split at hstep <;> rename_i hpc
  · cases hstep
  · cases hstep
  · exact Option.some.inj hstep ▸ .record hpc
  · split at hstep
    · cases hstep
    · rename_i hfresh
      exact Option.some.inj hstep ▸
        .alloc hpc (Option.not_isSome_iff_eq_none.mp hfresh)
  · split at hstep
    · rename_i hlt
      split at hstep <;> rename_i hslot
      · cases hstep
      · exact Option.some.inj hstep ▸ .free hpc hlt hslot
      · exact Option.some.inj hstep ▸ .next hpc
    · exact Option.some.inj hstep ▸ .full hpc
  · obtain ⟨hlt, rfl⟩ := storeClient_some hstep
    exact .insert (Or.inl hpc) hlt
  · exact Option.some.inj hstep ▸ .append hpc
  · split at hstep
    · rename_i hlt
      split at hstep
      · cases hstep
      · rename_i slot hslot
        split at hstep
        · exact Option.some.inj hstep ▸ .copy hpc hlt hslot
        · cases hstep
    · rename_i hge
      exact Option.some.inj hstep ▸ .copied hpc (Nat.le_of_not_lt hge)
  · exact Option.some.inj hstep ▸ .swap hpc
  · exact Option.some.inj hstep ▸ .grow hpc
  · obtain ⟨hlt, rfl⟩ := storeClient_some hstep
    exact .insert (Or.inr hpc) hlt
  · exact Option.some.inj hstep ▸ .load hpc
  · exact Option.some.inj hstep ▸ .write hpc

theorem Shape.advanced {s s' : MainState} (hshape : s.Shape)
    (hstep : Advanced s s') : s'.Shape := by
  rw [Shape] at hshape
  cases hstep with
  | record hpc | alloc hpc _ | next hpc | full hpc | load hpc | write hpc =>
      rw [hpc] at hshape
      exact hshape
  | free hpc hlt _ =>
      rw [hpc] at hshape
      exact ⟨hshape, hlt⟩
  | insert hpc _ =>
      change (s.gClients.set _ _).length = s.clientsArSize
      rw [List.length_set]
      rcases hpc with hpc | hpc <;> rw [hpc] at hshape <;> exact hshape.1
  | append hpc =>
      rw [hpc] at hshape
      exact ⟨hshape, List.length_replicate⟩
  | copy hpc _ _ =>
      rw [hpc] at hshape
      exact ⟨hshape.1, by rw [List.length_set]; exact hshape.2⟩
  | copied hpc _ =>
      rw [hpc] at hshape
      exact hshape
  | swap hpc =>
      rw [hpc] at hshape
      exact hshape.2
  | grow hpc =>
      rw [hpc] at hshape
      exact ⟨hshape, Nat.lt_add_of_pos_right (by decide)⟩

/-- In an array of the expected length no step of the parent goes astray. -/
theorem Shape.advance_defined {s : MainState} (hshape : s.Shape) {addr : Addr}
    (hfresh : s.records addr = none) (hselect : s.pc ≠ .select)
    (haccepted : ∀ sockfd pClient pipes,
      s.pc ≠ .accepted sockfd pClient pipes) :
    ∃ s', s.advance addr = some s' := by
  rw [Shape] at hshape
  cases hpc : s.pc with
  | select => exact absurd hpc hselect
  | accepted sockfd pClient pipes => exact absurd hpc (haccepted _ _ _)
  | adding pClient => simp [advance, hpc, hfresh]
  | scanning pT i =>
      rw [hpc] at hshape
      by_cases hlt : i < s.clientsArSize
      · have hget := List.getElem?_eq_getElem
          (show i < s.gClients.length by omega)
        cases hslot : s.gClients[i] <;> simp [advance, hpc, hlt, hget, hslot]
      · simp [advance, hpc, hlt]
  | found pT i =>
      rw [hpc] at hshape
      have hlt : i < s.gClients.length := hshape.1.symm ▸ hshape.2
      simp [advance, hpc, storeClient, hlt]
  | copying pT ppNew copied =>
      rw [hpc] at hshape
      by_cases hlt : copied < s.clientsArSize
      · have hget := List.getElem?_eq_getElem
          (show copied < s.gClients.length by omega)
        have hroom : copied < ppNew.length := by omega
        simp [advance, hpc, hlt, hget, hroom]
      · simp [advance, hpc, hlt]
  | grown pT currentPos =>
      rw [hpc] at hshape
      have hlt : currentPos < s.gClients.length := hshape.1.symm ▸ hshape.2
      simp [advance, hpc, storeClient, hlt]
  | forked _ _ _ _ | appending _ | freed _ _ | swapped _ | counting
  | loaded _ => simp [advance, hpc]

theorem Shape.closeClient_defined {s : MainState} (hshape : s.Shape)
    (round : Reaped) : ∃ s', s.closeClient round = some s' := by
  have hlength := hshape.length_slotsRead round
  obtain ⟨result, hscan⟩ := SlotTable.scan_defined (s.slotsRead round)
    (s.isClient round) (show 0 + s.clientsArSize ≤ _ by omega)
  cases result with
  | none => simp [closeClient, hscan]
  | some i =>
      obtain ⟨slot, hslot, hfound⟩ := SlotTable.scan_found hscan
      cases slot with
      | none => cases hfound
      | some pC => simp [closeClient, hscan, hslot]

theorem Shape.reap_defined {s : MainState} (hshape : s.Shape) {round : Reaped}
    (hzombie : ∃ child ∈ s.children, isZombie round.pid child = true) :
    ∃ s', s.reap round = some s' := by
  have hany := List.any_eq_true.mpr hzombie
  have hrest : Shape { s with
      children := s.children.eraseP (isZombie round.pid) } := hshape
  rw [MainState.reap, if_pos hany]
  exact hrest.closeClient_defined round

end MainState

section Steps

variable {maxClients : Int} {s s' : MainState}

theorem accept_cases {sockfd sinPort : Int} {ip : List Byte} {pipes : Pipes}
    (hstep : acceptStep maxClients s (.accept sockfd ip sinPort pipes) =
      some s') :
    s.pc = .select ∧ (s' = s ∨ s' = { s with
      pc := .accepted sockfd (setClient initClient ip sinPort) pipes }) := by
  rw [acceptStep] at hstep
  split at hstep
  · rename_i hpc
    refine ⟨hpc, ?_⟩
    split at hstep
    · exact Or.inl (Option.some.inj hstep).symm
    · exact Or.inr (Option.some.inj hstep).symm
  · cases hstep

theorem check_eq {pid : TgPid}
    (hstep : acceptStep maxClients s (.check pid) = some s') :
    s' = { s with children := s.children.map fun child =>
      if child.pid = pid then child.check maxClients else child } := by
  rw [acceptStep] at hstep
  split at hstep
  · exact (Option.some.inj hstep).symm
  · cases hstep

theorem exit_eq {pid : TgPid}
    (hstep : acceptStep maxClients s (.exit pid) = some s') :
    s' = { s with children := s.children.map fun child =>
      if child.pid = pid then child.quit else child } := by
  rw [acceptStep] at hstep
  split at hstep
  · exact (Option.some.inj hstep).symm
  · cases hstep

end Steps

theorem shape_reachable {maxClients : Int} {s : MainState}
    (hreach : (acceptMachine maxClients).Reachable s) : s.Shape := by
  refine hreach.invariant ?_ ?_
  · exact List.length_replicate
  intro s act s' hshape hstep
  change acceptStep maxClients s act = some s' at hstep
  cases act with
  | accept sockfd ip sinPort pipes =>
      obtain ⟨hpc, rfl | rfl⟩ := accept_cases hstep
      · exact hshape
      · rw [MainState.Shape, hpc] at hshape
        exact hshape
  | fork cpid =>
      obtain ⟨sockfd, pClient, pipes, hpc, hcases⟩ := MainState.fork_cases hstep
      rw [MainState.Shape, hpc] at hshape
      rcases hcases with ⟨_, rfl⟩ | ⟨_, _, rfl⟩ <;> exact hshape
  | advance addr => exact hshape.advanced (MainState.advance_cases hstep)
  | check pid => exact check_eq hstep ▸ hshape
  | exit pid => exact exit_eq hstep ▸ hshape
  | sigchld rounds =>
      exact MainState.handle_preserves (P := fun _ s => s.Shape)
        (fun _ _ _ _ hshape hreap => hshape.reap hreap) hshape hstep

/-- No run leaves an array: inside `do_accept` the parent can go on, and the
handler can deal with every exited child at any time. -/
theorem acceptMachine_defined {maxClients : Int} {s : MainState}
    (hreach : (acceptMachine maxClients).Reachable s) :
    (∀ addr, s.records addr = none → s.pc ≠ .select →
      (∀ sockfd pClient pipes, s.pc ≠ .accepted sockfd pClient pipes) →
      ∃ s', s.advance addr = some s') ∧
    ∀ round : Reaped,
      (∃ child ∈ s.children, MainState.isZombie round.pid child = true) →
      ∃ s', s.reap round = some s' :=
  ⟨fun _ hfresh hselect haccepted =>
    (shape_reachable hreach).advance_defined hfresh hselect haccepted,
    fun _ hzombie => (shape_reachable hreach).reap_defined hzombie⟩

end TgServer
