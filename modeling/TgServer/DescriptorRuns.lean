/-
The descriptors of the main process over its runs.  Where no step reads or
enters a record that has been released, and both pipes of a connection are
opened, what is open for clients is what the process holds, and what it was
left with when `fork` failed or a signal handler did not come back.
-/
import TgServer.DescriptorOwners
import TgServer.Descriptors

namespace TgServer

open Bytes Transition DescriptorTable

/-- From the loop of `startListen` to the `release` of the shutdown. -/
def Phase.busy : Phase → Bool
  | .boot => false
  | .ended => false
  | _ => true

/-- `closeAllClient` has yet to overwrite a pointer to a released record. -/
def Phase.dangling : Phase → Bool
  | .released _ => true
  | _ => false

/-- Where this is a `fork`, it succeeds. -/
def FdAct.Forks : FdAct → Prop
  | .fork cpid _ => 0 < cpid
  | _ => True

namespace FdState

/-- The handler of `SIGCHLD` may reap this child here. -/
def mayReap (s : FdState) (pid : TgPid) : Bool :=
  !s.phase.dangling &&
    if s.phase = .loop then s.main.mayDrop pid else s.main.readable

/-- No step opens half of the pipes, and none goes through a pointer to what
has been released, or will be with such a pointer left behind. -/
def Orderly (s : FdState) : FdAct → Prop
  | .start _ _ listenfd adminfd =>
      adminfd.isSome ∨ (s.files 0).isSome ∨ listenfd = 0
  | .accept sockfd _ _ _ piped => sockfd = -1 ∨ piped = (true, true)
  | .main (.sigchld rounds) =>
      ∀ round ∈ rounds, s.mayReap round.pid = true
  | .stop rounds last => s.phase.dangling = false ∧
      (rounds = [] ∧ last.isNone ∨ s.main.readable = true)
  | .shut _ => s.main.readable = true
  | _ => True

instance (s : FdState) (act : FdAct) : Decidable (s.Orderly act) :=
  match act with
  | .start _ _ listenfd adminfd => inferInstanceAs
      (Decidable (adminfd.isSome ∨ (s.files 0).isSome ∨ listenfd = 0))
  | .accept sockfd _ _ _ piped =>
      inferInstanceAs (Decidable (sockfd = -1 ∨ piped = (true, true)))
  | .main (.sigchld rounds) => inferInstanceAs
      (Decidable (∀ round ∈ rounds, s.mayReap round.pid = true))
  | .stop rounds last => inferInstanceAs
      (Decidable (s.phase.dangling = false ∧
        (rounds = [] ∧ last.isNone ∨ s.main.readable = true)))
  | .shut _ => inferInstanceAs (Decidable (s.main.readable = true))
  | .main (.accept _ _ _ _) | .main (.fork _) | .main (.advance _)
  | .main (.check _) | .main (.exit _) | .fork _ _ | .admin _ _ _
  | .handle _ _ _ | .terminate _ => .isTrue trivial

/-- The main process with NULL for the pointer that is overwritten next. -/
def table (s : FdState) : MainState :=
  match s.phase with
  | .released i => { s.main with gClients := s.main.gClients.set i none }
  | _ => s.main

/-- The listening socket and the FIFO are open where the context says, and
nowhere else. -/
structure Grounded (files : Table OpenFile) (ctx : TGContext) : Prop where
  listening : files ctx.listenfd = some .listening
  listens : ∀ {fd}, files fd = some .listening → fd = ctx.listenfd
  admin : ∃ file, files ctx.localAdminfd = some file ∧ file.ofClient = false
  administers : ∀ {fd}, files fd = some .adminPipe → fd = ctx.localAdminfd

/-- What is open for clients is held, but for the numbers listed, and the
locals of `do_accept` belong to the last connection. -/
structure Sound (s : FdState) (ctx : TGContext) (leaked : List Int) : Prop where
  busy : s.phase.busy = true
  context : s.gContext = some ctx
  pointers : s.table.Pointers
  looping : s.phase = .loop → s.main.Shape ∧ s.main.Located
  exact : Exactly (·.ofClient = true) s.files (s.table.held ++ leaked)
  grounded : Grounded s.files ctx
  latest : ∀ {sockfd pClient pipes},
    s.main.pc = .accepted sockfd pClient pipes →
    s.files sockfd = some (.connection (s.connections - 1)) ∧
    s.files pipes.fd.1 = some (.pipeEnd (s.connections - 1) false false) ∧
    s.files pipes.fd1.2 = some (.pipeEnd (s.connections - 1) true true)

/-- The step makes its calls in order and changes nothing that is not open for
clients. -/
structure Neat (s s' : FdState) : Prop where
  misuses : s'.misuses = s.misuses
  others : SameBut (·.ofClient = true) s.files s'.files

section Steps

variable {s s' : FdState} {ctx : TGContext} {leaked : List Int}

theorem map_use_close (fds : List Int) :
    (fds.map FdCall.close).map FdCall.use = fds.map Use.close :=
  List.map_map

theorem table_of_not_dangling (hphase : s.phase.dangling = false) :
    s.table = s.main := by
  rw [table]
  split
  · rename_i hreleased
    rw [hreleased] at hphase
    cases hphase
  · rfl

theorem Grounded.same {files files' : Table OpenFile}
    (hgrounded : Grounded files ctx)
    (hsame : SameBut (·.ofClient = true) files files') :
    Grounded files' ctx := by
  obtain ⟨file, hfile, hother⟩ := hgrounded.admin
  have hlistening : ¬OpenFile.listening.ofClient = true := Bool.false_ne_true
  have hpipe : ¬OpenFile.adminPipe.ofClient = true := Bool.false_ne_true
  refine ⟨(hsame hlistening).mpr hgrounded.listening,
    fun hopen => hgrounded.listens ((hsame hlistening).mp hopen),
    ⟨file, (hsame (by simp [hother])).mpr hfile, hother⟩,
    fun hopen => hgrounded.administers ((hsame hpipe).mp hopen)⟩

theorem Grounded.opens {files : Table OpenFile} (hgrounded : Grounded files ctx)
    {opened : List (Int × OpenFile)}
    (hfresh : Fresh files (opened.map Prod.fst))
    (hother : ∀ entry ∈ opened, entry.2 = .replyPipe) :
    Grounded (openAll files opened) ctx := by
  obtain ⟨file, hfile, hclient⟩ := hgrounded.admin
  refine ⟨openAll_other files hfresh hgrounded.listening, fun hopen => ?_,
    ⟨file, openAll_other files hfresh hfile, hclient⟩, fun hopen => ?_⟩
  · exact hgrounded.listens ((openAll_some files hfresh hopen).resolve_left
      fun hnew => by cases hother _ hnew)
  · exact hgrounded.administers ((openAll_some files hfresh hopen).resolve_left
      fun hnew => by cases hother _ hnew)

theorem table_of_loop (hphase : s.phase = .loop) : s.table = s.main := by
  rw [table, hphase]

/-- Closing what is not held any longer is in order; what is left open of it
is leaked. -/
theorem Sound.closes (hsound : s.Sound ctx leaked) {closed left : List Int}
    (hheld : s.table.held.Perm (closed ++ (left ++ s'.table.held)))
    (hfiles : s'.files = after s.files (closed.map .close))
    (hbusy : s'.phase.busy = true) (hcontext : s'.gContext = s.gContext)
    (hconnections : s'.connections = s.connections)
    (hpointers : s'.table.Pointers)
    (hlooping : s'.phase = .loop → s'.main.Shape ∧ s'.main.Located)
    (hlocals : ∀ sockfd pClient pipes,
      s'.main.pc = .accepted sockfd pClient pipes →
      s.main.pc = s'.main.pc ∧ s'.table.pc = s'.main.pc) :
    s'.Sound ctx (left ++ leaked) ∧
      misused s.files (closed.map .close) = [] ∧
      SameBut (·.ofClient = true) s.files s'.files := by
  have hsplit : (closed ++ (s'.table.held ++ (left ++ leaked))).Perm
      (s.table.held ++ leaked) := by
    refine List.Perm.trans ?_ (hheld.symm.append_right leaked)
    rw [List.append_assoc, List.append_assoc]
    exact (List.perm_append_comm_assoc ..).append_left closed
  have hexact := hsound.exact.perm hsplit
  obtain ⟨hrest, horder⟩ := hexact.close
  have hsame : SameBut (·.ofClient = true) s.files s'.files := by
    rw [hfiles]
    exact hexact.sameBut
  refine ⟨⟨hbusy, hcontext.trans hsound.context, hpointers, hlooping, ?_,
    hsound.grounded.same hsame, ?_⟩, horder, hsame⟩
  · rw [hfiles]
    exact hrest
  · intro sockfd pClient pipes hpc
    obtain ⟨hstill, htable⟩ := hlocals sockfd pClient pipes hpc
    obtain ⟨hsock, hread, hwrite⟩ := hsound.latest (hstill.trans hpc)
    have hlocal : ∀ fd ∈ [sockfd, pipes.fd.1, pipes.fd.2, pipes.fd1.1,
        pipes.fd1.2], s'.files fd = s.files fd := by
      intro fd hfd
      rw [hfiles]
      refine hexact.kept (List.mem_append_left _ ?_)
      refine List.mem_append_right _ ?_
      rw [MainState.localFds, htable, hpc]
      exact hfd
    rw [hconnections, hlocal _ (by simp), hlocal _ (by simp),
      hlocal _ (by simp)]
    exact ⟨hsock, hread, hwrite⟩

/-- Where the parent goes on without a call, what it does not hold any longer
is leaked. -/
theorem Sound.moved (hsound : s.Sound ctx leaked) (hphase : s.phase = .loop)
    (hsame : s'.phase = s.phase ∧ s'.files = s.files ∧
      s'.gContext = s.gContext ∧ s'.connections = s.connections)
    {left : List Int} (hheld : s.main.held.Perm (left ++ s'.main.held))
    (hpointers : s'.main.Pointers) (hshape : s'.main.Shape)
    (hlocated : s'.main.Located)
    (hpc : ∀ sockfd pClient pipes,
      s'.main.pc ≠ .accepted sockfd pClient pipes) :
    s'.Sound ctx (left ++ leaked) := by
  obtain ⟨hphase', hfiles, hcontext, hconnections⟩ := hsame
  have htable : s'.table = s'.main := table_of_loop (hphase'.trans hphase)
  have hnone : s.table.held.Perm ([] ++ (left ++ s'.table.held)) := by
    rw [table_of_loop hphase, htable]
    exact hheld
  have hbusy : s'.phase.busy = true := by
    rw [hphase']
    exact hsound.busy
  exact (hsound.closes hnone hfiles hbusy hcontext hconnections
    (by rw [htable]; exact hpointers) (fun _ => ⟨hshape, hlocated⟩)
    fun _ _ _ hsame => absurd hsame (hpc _ _ _)).1

theorem advance_cases {act : Act} (hstep : s.advance act = some s') :
    ∃ ctx main, s.gContext = some ctx ∧
      acceptStep ctx.pServer.maxClients s.main act = some main ∧
      s' = s.follow main (added s.main main) := by
  simp only [advance, Option.bind_eq_bind, Option.bind_eq_some_iff,
    Option.pure_def, Option.some.injEq] at hstep
  obtain ⟨ctx, hctx, main, hmain, hsame⟩ := hstep
  exact ⟨ctx, main, hctx, hmain, hsame.symm⟩

/-- The main process comes to a state in which it holds less and has made
some of the calls that close the rest. -/
theorem Sound.follow (hsound : s.Sound ctx leaked)
    (hphase : s.phase.dangling = false) {main : MainState}
    (hfrees : s.main.Frees main) (hpointers : main.Pointers)
    (hlooping : s.phase = .loop → main.Shape ∧ main.Located)
    (hpc : ∀ sockfd pClient pipes, main.pc = .accepted sockfd pClient pipes →
      s.main.pc = main.pc)
    {calls rest : List FdCall} (hcalls : added s.main main = calls ++ rest) :
    ∃ left : List Int, rest = left.map FdCall.close ∧
      (s.follow main calls).Sound ctx (left ++ leaked) ∧
      s.Neat (s.follow main calls) := by
  obtain ⟨fds, hadded, hheld⟩ := hfrees
  rw [added, hadded, List.drop_left, List.map_eq_append_iff] at hcalls
  obtain ⟨closed, left, rfl, rfl, rfl⟩ := hcalls
  have htable : (s.follow main (closed.map .close)).table = main :=
    table_of_not_dangling hphase
  have hperm : s.table.held.Perm (closed ++ (left ++
      (s.follow main (closed.map .close)).table.held)) := by
    rw [htable, table_of_not_dangling hphase, ← List.append_assoc]
    exact hheld
  have hfiles : (s.follow main (closed.map .close)).files =
      after s.files (closed.map .close) := by
    rw [FdState.follow, perform, map_use_close]
  obtain ⟨hnext, horder, hothers⟩ := hsound.closes hperm hfiles hsound.busy rfl
    rfl (by rw [htable]; exact hpointers) hlooping
    fun sockfd pClient pipes haccepted => ⟨hpc _ _ _ haccepted,
      congrArg MainState.pc htable⟩
  refine ⟨left, rfl, hnext, ?_, hothers⟩
  rw [FdState.follow, perform, map_use_close, horder, List.append_nil]

/-- The full calls leave nothing behind. -/
theorem Sound.follow_all (hsound : s.Sound ctx leaked)
    (hphase : s.phase.dangling = false) {main : MainState}
    (hfrees : s.main.Frees main) (hpointers : main.Pointers)
    (hlooping : s.phase = .loop → main.Shape ∧ main.Located)
    (hpc : ∀ sockfd pClient pipes, main.pc = .accepted sockfd pClient pipes →
      s.main.pc = main.pc) :
    (s.follow main (added s.main main)).Sound ctx leaked ∧
      s.Neat (s.follow main (added s.main main)) := by
  obtain ⟨left, hleft, hnext, horder⟩ := hsound.follow hphase hfrees hpointers
    hlooping hpc (List.append_nil _).symm
  obtain rfl := List.map_eq_nil_iff.mp hleft.symm
  exact ⟨hnext, horder⟩

/-- What children do does not concern the descriptors of the main process. -/
theorem Sound.relabel (hsound : s.Sound ctx leaked)
    (children : List ChildProc) (misuses : List Use) :
    Sound { s with
      main := { s.main with children := children }
      misuses := misuses } ctx leaked := by
  have htable : table { s with
      main := { s.main with children := children }
      misuses := misuses } = { s.table with children := children } := by
    cases hphase : s.phase <;> simp [table, hphase]
  obtain ⟨hlive, honce, hnew, hlocals⟩ := hsound.pointers
  refine ⟨hsound.busy, hsound.context, ?_, hsound.looping, ?_, hsound.grounded,
    hsound.latest⟩
  · rw [htable]
    exact ⟨hlive, honce, hnew, hlocals⟩
  · rw [htable]
    exact hsound.exact

theorem advanced_pc {m m' : MainState} (hstep : MainState.Advanced m m')
    (sockfd : Int) (pClient : TGClient) (pipes : Pipes) :
    m'.pc ≠ .accepted sockfd pClient pipes := by
  cases hstep <;> nofun

theorem follow_same {main : MainState} (hcalls : main.fdCalls = s.main.fdCalls) :
    s.follow main (added s.main main) = { s with main := main } := by
  rw [added, hcalls, List.drop_length, FdState.follow, perform]
  simp

/-- The steps of children. -/
theorem child_step {act : Act} (hact : (∃ pid, act = .check pid) ∨
      ∃ pid, act = .exit pid) (hstep : s.advance act = some s') :
    ∃ children, s' = { s with
      main := { s.main with children := children } } := by
  obtain ⟨_, main, _, hmain, rfl⟩ := advance_cases hstep
  rcases hact with ⟨pid, rfl⟩ | ⟨pid, rfl⟩
  · obtain rfl := check_eq hmain
    exact ⟨_, follow_same rfl⟩
  · obtain rfl := exit_eq hmain
    exact ⟨_, follow_same rfl⟩

/-- A step of the parent behind `fork`. -/
theorem Sound.advanced (hsound : s.Sound ctx leaked)
    (hphase : s.phase = .loop) {addr : Addr}
    (hstep : s.advance (.advance addr) = some s') :
    s'.Sound ctx leaked ∧ s.Neat s' := by
  obtain ⟨_, main, _, hmain, rfl⟩ := advance_cases hstep
  have hdangling : s.phase.dangling = false := by rw [hphase]; rfl
  have hadvanced := MainState.advance_cases hmain
  obtain ⟨hshape, hlocated⟩ := hsound.looping hphase
  have hpointers := hsound.pointers
  rw [table_of_not_dangling hdangling] at hpointers
  obtain ⟨hnext, hfrees⟩ := hpointers.advanced hlocated hadvanced
  exact hsound.follow_all hdangling hfrees hnext
    (fun _ => ⟨hshape.advanced hadvanced, hlocated.advanced hshape hadvanced⟩)
    fun _ _ _ hpc => absurd hpc (advanced_pc hadvanced _ _ _)

theorem mayReap_cases {pid : TgPid} (hmay : s.mayReap pid = true) :
    s.phase.dangling = false ∧ s.main.readable = true ∧
      (s.phase = .loop → s.main.mayDrop pid = true) := by
  rw [mayReap, Bool.and_eq_true, Bool.not_eq_true'] at hmay
  obtain ⟨hdangling, hread⟩ := hmay
  split at hread
  · exact ⟨hdangling, MainState.readable_of_mayDrop hread, fun _ => hread⟩
  · rename_i hphase
    exact ⟨hdangling, hread, fun hloop => absurd hloop hphase⟩

/-- The handler of `SIGCHLD`. -/
theorem Sound.reaped (hsound : s.Sound ctx leaked) {rounds : List Reaped}
    (hmay : ∀ round ∈ rounds, s.mayReap round.pid = true)
    (hstep : s.advance (.sigchld rounds) = some s') :
    s'.Sound ctx leaked ∧ s.Neat s' := by
  obtain ⟨_, main, _, hmain, rfl⟩ := advance_cases hstep
  cases rounds with
  | nil =>
      have hsame : main = s.main := by
        change (if _ then none else some s.main) = some main at hmain
        split at hmain
        · cases hmain
        · exact (Option.some.inj hmain).symm
      rw [hsame, follow_same rfl]
      exact ⟨hsound, rfl, SameBut.refl _ _⟩
  | cons round rest =>
      obtain ⟨hdangling, hread, -⟩ :=
        mayReap_cases (hmay round List.mem_cons_self)
      have hpointers := hsound.pointers
      rw [table_of_not_dangling hdangling] at hpointers
      obtain ⟨hnext, hfrees⟩ := hpointers.handle (fun _ _ => hread) hmain
      refine hsound.follow_all hdangling hfrees hnext ?_ ?_
      · intro hphase
        obtain ⟨hshape, hlocated⟩ := hsound.looping hphase
        exact (hlocated.handle hshape hpointers (fun other hother =>
          (mayReap_cases (hmay other hother)).2.2 hphase) hmain).symm
      · exact fun _ _ _ _ => (MainState.handle_pc hmain).symm

theorem opens_cases {opened : List (Int × OpenFile)}
    (hopens : s.opens opened = some s') :
    Fresh s.files (opened.map Prod.fst) ∧
      s' = { s with files := openAll s.files opened } := by
  rw [opens] at hopens
  split at hopens
  · rename_i hfresh
    exact ⟨hfresh, (Option.some.inj hopens).symm⟩
  · cases hopens

/-- A failed `accept` changes nothing, a connection comes with its
descriptors. -/
theorem accept_cases {sockfd sinPort : Int} {ip : List Byte} {pipes : Pipes}
    {piped : Bool × Bool}
    (hstep : s.accept sockfd ip sinPort pipes piped = some s') :
    s.phase = .loop ∧ s.main.pc = .select ∧ ((sockfd = -1 ∧ s' = s) ∨
      let opened := connectionFds s.connections sockfd pipes piped
      sockfd ≠ -1 ∧ Fresh s.files (opened.map Prod.fst) ∧ s' = { s with
        main := { s.main with
          pc := .accepted sockfd (setClient initClient ip sinPort) pipes }
        files := openAll s.files opened
        connections := s.connections + 1 }) := by
  rw [accept] at hstep
  split at hstep
  swap
  · cases hstep
  rename_i hphase
  simp only [Option.bind_eq_bind, Option.bind_eq_some_iff, Option.pure_def]
    at hstep
  obtain ⟨mid, hadvance, hrest⟩ := hstep
  obtain ⟨_, main, _, hmain, rfl⟩ := advance_cases hadvance
  rw [acceptStep] at hmain
  split at hmain
  swap
  · cases hmain
  rename_i hpc
  refine ⟨hphase, hpc, ?_⟩
  by_cases hsock : sockfd = -1
  · rw [if_pos hsock, Option.some.injEq] at hmain hrest
    subst hmain
    exact Or.inl ⟨hsock, hrest.symm.trans (follow_same rfl)⟩
  · rw [if_neg hsock, Option.some.injEq] at hmain
    have hcalls : main.fdCalls = s.main.fdCalls := by rw [← hmain]
    rw [if_neg hsock, follow_same hcalls, Option.bind_eq_some_iff] at hrest
    obtain ⟨next, hopens, hsame⟩ := hrest
    obtain ⟨hfresh, rfl⟩ := opens_cases hopens
    subst hmain
    exact Or.inr ⟨hsock, hfresh, (Option.some.inj hsame).symm⟩

theorem Sound.accepted (hsound : s.Sound ctx leaked) {sockfd sinPort : Int}
    {ip : List Byte} {pipes : Pipes} {piped : Bool × Bool}
    (hpiped : sockfd = -1 ∨ piped = (true, true))
    (hstep : s.accept sockfd ip sinPort pipes piped = some s') :
    s'.Sound ctx leaked ∧ s.Neat s' := by
  obtain ⟨hphase, hpc, ⟨-, rfl⟩ | ⟨hsock, hfresh, rfl⟩⟩ := accept_cases hstep
  · exact ⟨hsound, rfl, SameBut.refl _ _⟩
  obtain rfl := hpiped.resolve_left hsock
  have htable := table_of_loop hphase
  have hpointers := hsound.pointers
  rw [htable] at hpointers
  have hshape := hsound.looping hphase
  rw [MainState.Shape, hpc] at hshape
  have hnonneg : ∀ fd ∈ [sockfd, pipes.fd.1, pipes.fd.2, pipes.fd1.1,
      pipes.fd1.2], 0 ≤ fd := fun fd hfd => (hfresh.2 fd hfd).1
  have hopen : ∀ {fd file}, (fd, file) ∈ connectionFds s.connections sockfd
      pipes (true, true) → openAll s.files (connectionFds s.connections sockfd
        pipes (true, true)) fd = some file :=
    fun hentry => openAll_of_mem s.files hfresh.1 hentry
  have hclient : ∀ entry ∈ connectionFds s.connections sockfd pipes
      (true, true), entry.2.ofClient = true := by
    simp [connectionFds, OpenFile.ofClient]
  have hothers : SameBut (·.ofClient = true) s.files _ :=
    SameBut.openAll s.files hfresh hclient
  obtain ⟨hnext, hheld⟩ := hpointers.accept hpc sockfd sinPort ip
    (hnonneg pipes.fd.2 (by simp)) (hnonneg pipes.fd1.1 (by simp))
  refine ⟨⟨hsound.busy, hsound.context, ?_, fun _ => ⟨hshape.1, trivial⟩, ?_,
    hsound.grounded.same hothers, ?_⟩, rfl, hothers⟩
  · simpa only [table, hphase] using hnext
  · have hexact := hsound.exact.opens hfresh hclient
    rw [htable] at hexact
    have hopened : (connectionFds s.connections sockfd pipes
      (true, true)).map Prod.fst = [sockfd, pipes.fd.1, pipes.fd.2,
        pipes.fd1.1, pipes.fd1.2] := rfl
    simp only [table, hphase, hheld]
    refine hexact.perm ?_
    rw [hopened, List.append_assoc, List.append_assoc]
    exact List.perm_append_comm.append_left _
  · intro other pClient others hsame
    obtain ⟨rfl, -, rfl⟩ := Pc.accepted.inj hsame
    exact ⟨hopen (by simp [connectionFds]), hopen (by simp [connectionFds]),
      hopen (by simp [connectionFds])⟩

/-- A failed `fork` sends the parent back, a successful one makes a child that
comes to the limit check. -/
theorem fork_cases {cpid : TgPid} {stale : Addr → TGClient}
    (hstep : s.fork cpid stale = some s') :
    s.phase = .loop ∧ ∃ sockfd pClient pipes,
      s.main.pc = .accepted sockfd pClient pipes ∧
      (cpid < 0 ∧ s' = { s with main := { s.main with pc := .select } } ∨
        0 < cpid ∧ ∃ ctx children, s.gContext = some ctx ∧ s' = { s with
          main := { s.main with
            children := children, pc := .forked sockfd pClient pipes cpid }
          procs := Function.update s.procs cpid
            (some (s.limitCheck ctx sockfd pClient pipes stale))
          misuses := s.misuses ++ misused s.files
            ((s.childCalls ctx pipes stale).map FdCall.use) }) := by
  rw [fork] at hstep
  split at hstep
  swap
  · cases hstep
  rename_i hphase
  simp only [Option.bind_eq_bind, Option.bind_eq_some_iff, Option.pure_def]
    at hstep
  obtain ⟨ctx, hctx, next, hadvance, hrest⟩ := hstep
  obtain ⟨_, main, _, hmain, rfl⟩ := advance_cases hadvance
  obtain ⟨sockfd, pClient, pipes, hpc, hcases⟩ := MainState.fork_cases hmain
  refine ⟨hphase, sockfd, pClient, pipes, hpc, ?_⟩
  have hcalls : main.fdCalls = s.main.fdCalls := by
    rcases hcases with ⟨_, rfl⟩ | ⟨_, _, rfl⟩ <;> rfl
  simp only [hpc, follow_same hcalls] at hrest
  rcases hcases with ⟨hneg, rfl⟩ | ⟨hpos, -, rfl⟩
  · rw [if_neg (Int.lt_asymm hneg), Option.some.injEq] at hrest
    exact Or.inl ⟨hneg, hrest.symm⟩
  · rw [if_pos hpos, Option.some.injEq] at hrest
    exact Or.inr ⟨hpos, ctx, _, hctx, hrest.symm⟩

theorem Sound.childCalls_eq (hsound : s.Sound ctx leaked)
    (hphase : s.phase = .loop) {sockfd : Int} {pClient : TGClient}
    {pipes : Pipes} (hpc : s.main.pc = .accepted sockfd pClient pipes)
    (stale : Addr → TGClient) :
    s.childCalls ctx pipes stale =
      ([pipes.fd1.1, pipes.fd.2] ++ s.main.view.flatMap slotEnds).map
        FdCall.close ++ [.close ctx.listenfd, .close ctx.localAdminfd] := by
  have hpointers := hsound.pointers
  rw [table_of_loop hphase] at hpointers
  obtain ⟨hshape, -⟩ := hsound.looping hphase
  rw [MainState.Shape, hpc] at hshape
  rw [childCalls, List.take_of_length_le (Nat.le_of_eq hshape),
    hpointers.releases stale fun _ hslot => hslot, List.map_append]
  rfl

/-- The child closes its copies of what it does not need, then the listening
socket and the FIFO; its own socket and ends stay open. -/
theorem Sound.childCalls (hsound : s.Sound ctx leaked)
    (hphase : s.phase = .loop) {sockfd : Int} {pClient : TGClient}
    {pipes : Pipes} (hpc : s.main.pc = .accepted sockfd pClient pipes)
    (stale : Addr → TGClient) :
    ∃ files, after s.files ((s.childCalls ctx pipes stale).map FdCall.use) =
        after files [.close ctx.listenfd, .close ctx.localAdminfd] ∧
      misused s.files ((s.childCalls ctx pipes stale).map FdCall.use) =
        misused files [.close ctx.listenfd, .close ctx.localAdminfd] ∧
      Exactly (·.ofClient = true) files
        ([sockfd, pipes.fd.1, pipes.fd1.2] ++ leaked) ∧
      Grounded files ctx ∧
      ∀ fd ∈ [sockfd, pipes.fd.1, pipes.fd1.2], files fd = s.files fd := by
  have hexact : Exactly (·.ofClient = true) s.files
      (([pipes.fd1.1, pipes.fd.2] ++ s.main.view.flatMap slotEnds) ++
        ([sockfd, pipes.fd.1, pipes.fd1.2] ++ leaked)) := by
    have hheld := hsound.exact
    rw [table_of_loop hphase] at hheld
    refine hheld.perm ?_
    rw [← List.append_assoc]
    exact (MainState.held_accepted hpc).append_right leaked
  obtain ⟨hrest, horder⟩ := hexact.close
  refine ⟨_, ?_, ?_, hrest, hsound.grounded.same hexact.sameBut, ?_⟩
  · rw [hsound.childCalls_eq hphase hpc stale, List.map_append, map_use_close,
      after_append]
    rfl
  · rw [hsound.childCalls_eq hphase hpc stale, List.map_append, map_use_close,
      misused_append, horder, List.nil_append]
    rfl
  · intro fd hfd
    exact hexact.kept (List.mem_append_left _ hfd)

/-- A successful `fork` leaves the parent with what it had; a failed one also
leaves the connection open for good. -/
theorem Sound.forked (hsound : s.Sound ctx leaked) {cpid : TgPid}
    {stale : Addr → TGClient} (hstep : s.fork cpid stale = some s') :
    ∃ left : List Int, s'.Sound ctx (left ++ leaked) ∧
      (0 < cpid → left = []) := by
  obtain ⟨hphase, sockfd, pClient, pipes, hpc, hcases⟩ := fork_cases hstep
  have hpointers := hsound.pointers
  rw [table_of_loop hphase] at hpointers
  obtain ⟨hshape, -⟩ := hsound.looping hphase
  rw [MainState.Shape, hpc] at hshape
  rcases hcases with ⟨hneg, rfl⟩ | ⟨hpos, _, children, _, rfl⟩
  · obtain ⟨hnext, hheld⟩ := hpointers.unforked hpc
    refine ⟨[sockfd, pipes.fd.1, pipes.fd.2, pipes.fd1.1, pipes.fd1.2], ?_,
      fun hpos => absurd hpos (Int.lt_asymm hneg)⟩
    refine hsound.moved hphase ?_ hheld hnext hshape trivial ?_
    · exact ⟨rfl, rfl, rfl, rfl⟩
    · exact fun _ _ _ hpc => by cases hpc
  · obtain ⟨hnext, hheld⟩ := hpointers.forked hpc children cpid
    refine ⟨[], ?_, fun _ => rfl⟩
    refine hsound.moved hphase ?_ (.of_eq hheld.symm) hnext hshape trivial ?_
    · exact ⟨rfl, rfl, rfl, rfl⟩
    · exact fun _ _ _ hpc => by cases hpc

/-- A command of the administrator. -/
theorem admin_cases {octets stack : List Byte} {outFd : Int}
    (hstep : s.admin octets stack outFd = some s') :
    s.phase = .loop ∧ s.main.pc = .select ∧
      (s' = { s with phase := .sleeping } ∨
        outFd = -1 ∧ s' = { s with commands := s.commands + 1 } ∨
        Fresh s.files [outFd] ∧ s' = { s with
          files := openAll s.files [(outFd, .replyPipe)]
          commands := s.commands + 1 }) := by
  rw [admin] at hstep
  split at hstep
  swap
  · cases hstep
  rename_i hready
  simp only [Option.bind_eq_bind, Option.bind_eq_some_iff, Option.pure_def]
    at hstep
  obtain ⟨effects, _, hrest⟩ := hstep
  refine ⟨hready.1, hready.2.1, ?_⟩
  split at hrest
  · exact Or.inl (Option.some.inj hrest).symm
  split at hrest
  · rename_i hfailed
    exact Or.inr (Or.inl ⟨hfailed, (Option.some.inj hrest).symm⟩)
  · obtain ⟨mid, hopens, hsame⟩ := Option.bind_eq_some_iff.mp hrest
    obtain ⟨hfresh, rfl⟩ := opens_cases hopens
    exact Or.inr (Or.inr ⟨hfresh, (Option.some.inj hsame).symm⟩)

/-- A step of the shutdown that closes nothing. -/
theorem Sound.rephase (hsound : s.Sound ctx leaked)
    (hphase : s.phase.dangling = false) (phase : Phase)
    (hbusy : phase.busy = true) (hnext : phase.dangling = false)
    (hleft : phase ≠ .loop) (terminating : Bool) :
    Sound { s with phase := phase, terminating := terminating } ctx
      leaked := by
  have htable : table { s with phase := phase, terminating := terminating } =
      s.table :=
    (table_of_not_dangling hnext).trans (table_of_not_dangling hphase).symm
  refine ⟨hbusy, hsound.context, ?_, fun hloop => absurd hloop hleft, ?_,
    hsound.grounded, hsound.latest⟩
  · rw [htable]
    exact hsound.pointers
  · rw [htable]
    exact hsound.exact

theorem Sound.administered (hsound : s.Sound ctx leaked)
    {octets stack : List Byte} {outFd : Int}
    (hstep : s.admin octets stack outFd = some s') :
    s'.Sound ctx leaked ∧ s'.misuses = s.misuses := by
  obtain ⟨hphase, hpc, rfl | ⟨-, rfl⟩ | ⟨hfresh, rfl⟩⟩ := admin_cases hstep
  · have hdangling : s.phase.dangling = false := by rw [hphase]; rfl
    exact ⟨hsound.rephase hdangling .sleeping rfl rfl nofun s.terminating, rfl⟩
  · obtain ⟨hbusy, hcontext, hpointers, hlooping, hexact, hgrounded, hlatest⟩ :=
      hsound
    exact ⟨⟨hbusy, hcontext, hpointers, hlooping, hexact, hgrounded, hlatest⟩,
      rfl⟩
  · obtain ⟨hbusy, hcontext, hpointers, hlooping, hexact, hgrounded, -⟩ := hsound
    refine ⟨⟨hbusy, hcontext, hpointers, hlooping, ?_, ?_, ?_⟩, rfl⟩
    · exact hexact.opens_other hfresh (by simp [OpenFile.ofClient])
    · exact hgrounded.opens hfresh (by simp)
    · intro _ _ _ haccepted
      cases hpc.symm.trans haccepted

theorem stop_frame {rounds : List Reaped} {last : Option (Reaped × Nat)}
    (hstep : s.stop rounds last = some s') :
    s'.phase = .sleeping ∧ s'.procs = s.procs := by
  rw [stop] at hstep
  split at hstep
  swap
  · cases hstep
  obtain ⟨main, -, hrest⟩ := Option.bind_eq_some_iff.mp hstep
  cases last with
  | none => exact Option.some.inj hrest ▸ ⟨rfl, rfl⟩
  | some entry =>
      obtain ⟨next, -, hsame⟩ := Option.bind_eq_some_iff.mp hrest
      exact Option.some.inj hsame ▸ ⟨rfl, rfl⟩

/-- `SIGTERM` behind some rounds of the handler of `SIGCHLD`. -/
theorem Sound.stopped (hsound : s.Sound ctx leaked) {rounds : List Reaped}
    {last : Option (Reaped × Nat)} (hphase : s.phase.dangling = false)
    (hread : rounds = [] ∧ last.isNone ∨ s.main.readable = true)
    (hstep : s.stop rounds last = some s') :
    ∃ left : List Int, s'.Sound ctx (left ++ leaked) ∧
      s'.misuses = s.misuses := by
  rw [stop] at hstep
  split at hstep
  swap
  · cases hstep
  obtain ⟨main, hreaps, hrest⟩ := Option.bind_eq_some_iff.mp hstep
  have hpointers := hsound.pointers
  rw [table_of_not_dangling hphase] at hpointers
  obtain ⟨hnext, hfrees, hpc⟩ := hpointers.reaps
    (hread.imp_left And.left) hreaps
  have hsleeps := hsound.rephase hphase .sleeping rfl rfl nofun true
  obtain ⟨hfollowed, horder⟩ := hsleeps.follow_all rfl hfrees hnext
    (fun hloop => by cases hloop) fun _ _ _ _ => hpc.symm
  cases last with
  | none =>
      obtain rfl := Option.some.inj hrest
      exact ⟨[], hfollowed, horder.misuses⟩
  | some entry =>
      obtain ⟨round, made⟩ := entry
      obtain ⟨next, hreap, hsame⟩ := Option.bind_eq_some_iff.mp hrest
      obtain rfl := Option.some.inj hsame
      have hreadable : main.readable = true := by
        rw [MainState.readable, hpc]
        exact hread.resolve_left fun hnone => by cases hnone.2
      obtain ⟨hlast, hmore⟩ := hnext.reap hreadable hreap
      obtain ⟨left, -, hleft, hordered⟩ := hfollowed.follow rfl hmore hlast
        (fun hloop => by cases hloop)
        (fun _ _ _ _ => (MainState.reap_pc hreap).symm)
        (List.take_append_drop made _).symm
      exact ⟨left, hleft, hordered.misuses.trans horder.misuses⟩

theorem slotsRead_of_readable {m : MainState} (hread : m.readable = true)
    (round : Reaped) : m.slotsRead round = m.gClients := by
  rw [MainState.slotsRead]
  split
  · rename_i hpc
    exact absurd hpc (MainState.readable_iff.mp hread _ _)
  · rfl

/-- The calls of `release` for the context are in order when the two
descriptors are not the same. -/
theorem Grounded.release {files : Table OpenFile}
    (hgrounded : Grounded files ctx)
    (hapart : ctx.localAdminfd ≠ ctx.listenfd) :
    misused files ((releaseContext ctx).map FdCall.use) = [] := by
  obtain ⟨file, hfile, -⟩ := hgrounded.admin
  rw [releaseContext]
  split <;> split <;>
    simp [misused, FdCall.use, Use.close, Use.keep, Use.after,
      hgrounded.listening, hfile, Function.update_of_ne hapart]

theorem clearSlot_of_readable {m : MainState} (hread : m.readable = true)
    (i : Nat) : m.clearSlot i = m.gClients.set i none := by
  rw [MainState.clearSlot]
  split
  · rename_i hpc
    exact absurd hpc (MainState.readable_iff.mp hread _ _)
  · rfl

/-- `closeAllClient` releases the client of a slot. -/
theorem Sound.releases (hsound : s.Sound ctx leaked) {i : Nat} {pC : Addr}
    (hphase : s.phase.dangling = false)
    (hslot : s.main.gClients[i]? = some (some pC)) (round : Reaped) :
    let next := s.perform (releaseClient (s.main.deref round pC))
    Sound { next with
      main := { next.main with
        records := Function.update next.main.records pC none }
      phase := .released i } ctx leaked ∧ next.misuses = s.misuses := by
  have hpointers := hsound.pointers
  rw [table_of_not_dangling hphase] at hpointers
  obtain ⟨hrecord, hentered⟩ :=
    hpointers.deref (List.mem_of_getElem? hslot) round
  have hdrop : MainState.Pointers { s.main with
      records := Function.update s.main.records pC none
      gClients := s.main.gClients.set i none } ∧ _ :=
    hpointers.drop hslot hrecord rfl rfl rfl
  have hheld : s.table.held.Perm ((s.main.deref round pC).ends ++ ([] ++
      MainState.held { s.main with
        records := Function.update s.main.records pC none
        gClients := s.main.gClients.set i none })) := by
    rw [table_of_not_dangling hphase]
    exact hdrop.2
  rw [perform, hentered.releaseClient, map_use_close]
  have hclosed : Sound { s with
      files := after s.files ((s.main.deref round pC).ends.map .close)
      misuses := s.misuses ++
        misused s.files ((s.main.deref round pC).ends.map .close)
      main := { s.main with
        records := Function.update s.main.records pC none }
      phase := .released i } ctx ([] ++ leaked) ∧ _ :=
    hsound.closes hheld rfl rfl rfl rfl hdrop.1 (fun hloop => by cases hloop)
      fun _ _ _ _ => ⟨rfl, rfl⟩
  refine ⟨hclosed.1, ?_⟩
  dsimp only
  rw [hclosed.2.1, List.append_nil]

/-- What `release` does at the end of the shutdown. -/
theorem Sound.ends (hsound : s.Sound ctx leaked)
    (hphase : s.phase.dangling = false)
    (hapart : ctx.localAdminfd ≠ ctx.listenfd) (round : Reaped) :
    misused s.files ((((s.main.gClients.take s.main.clientsArSize).flatMap
      fun slot => releaseSlot (slot.map (s.main.deref round))) ++
        releaseContext ctx).map FdCall.use) = [] := by
  have hpointers := hsound.pointers
  have hexact := hsound.exact
  rw [table_of_not_dangling hphase] at hpointers hexact
  have hclients : ((s.main.gClients.take s.main.clientsArSize).flatMap
      fun slot => releaseSlot (slot.map (s.main.deref round))) =
      (((s.main.gClients.take s.main.clientsArSize).map
        fun slot => slot.bind s.main.records).flatMap slotEnds).map .close :=
    hpointers.releases round.stale fun _ hslot => List.mem_of_mem_take hslot
  have hsplit : (((s.main.gClients.take s.main.clientsArSize).map
        fun slot => slot.bind s.main.records).flatMap slotEnds ++
      (((s.main.gClients.drop s.main.clientsArSize).map
        fun slot => slot.bind s.main.records).flatMap slotEnds ++
        s.main.localFds ++ leaked)) = s.main.held ++ leaked := by
    rw [MainState.held, MainState.view, ← List.append_assoc,
      ← List.append_assoc, ← List.flatMap_append, ← List.map_append,
      List.take_append_drop]
  rw [← hsplit] at hexact
  rw [List.map_append, misused_append, hclients, map_use_close,
    hexact.close.2, List.nil_append]
  exact (hsound.grounded.same hexact.sameBut).release hapart

theorem shut_frame {round : Reaped} (hstep : s.shut round = some s') :
    s'.phase ≠ .loop ∧ s'.phase ≠ .boot ∧ s'.procs = s.procs := by
  rw [shut] at hstep
  split at hstep
  · exact Option.some.inj hstep ▸ ⟨nofun, nofun, rfl⟩
  · split at hstep
    · obtain ⟨slot, -, hrest⟩ := Option.bind_eq_some_iff.mp hstep
      cases slot with
      | none => exact Option.some.inj hrest ▸ ⟨nofun, nofun, rfl⟩
      | some pC => exact Option.some.inj hrest ▸ ⟨nofun, nofun, rfl⟩
    · obtain ⟨ctx, -, hsame⟩ := Option.bind_eq_some_iff.mp hstep
      exact Option.some.inj hsame ▸ ⟨nofun, nofun, rfl⟩
  · exact Option.some.inj hstep ▸ ⟨nofun, nofun, rfl⟩
  · cases hstep

/-- A step of the shutdown. -/
theorem Sound.shuts (hsound : s.Sound ctx leaked) {round : Reaped}
    (hread : s.main.readable = true) (hstep : s.shut round = some s') :
    s'.Sound ctx leaked ∧ s'.misuses = s.misuses ∨
      s'.phase = .ended ∧
        (ctx.localAdminfd ≠ ctx.listenfd → s'.misuses = s.misuses) := by
  rw [shut] at hstep
  split at hstep
  · rename_i hphase
    obtain rfl := Option.some.inj hstep
    have hdangling : s.phase.dangling = false := by rw [hphase]; rfl
    exact Or.inl
      ⟨hsound.rephase hdangling (.closing 0) rfl rfl nofun s.terminating, rfl⟩
  · rename_i i hphase
    have hdangling : s.phase.dangling = false := by rw [hphase]; rfl
    rw [slotsRead_of_readable hread] at hstep
    split at hstep
    · obtain ⟨slot, hslot, hrest⟩ := Option.bind_eq_some_iff.mp hstep
      cases slot with
      | none =>
          obtain rfl := Option.some.inj hrest
          exact Or.inl ⟨hsound.rephase hdangling (.closing (i + 1)) rfl rfl nofun
            s.terminating, rfl⟩
      | some pC =>
          obtain rfl := Option.some.inj hrest
          exact Or.inl (hsound.releases hdangling hslot round)
    · rw [hsound.context] at hstep
      obtain rfl := Option.some.inj hstep
      refine Or.inr ⟨rfl, fun hapart => ?_⟩
      rw [perform]
      dsimp only
      rw [hsound.ends hdangling hapart round, List.append_nil]
  · rename_i i hphase
    obtain rfl := Option.some.inj hstep
    have htable : s.table = { s.main with
        gClients := s.main.clearSlot i } := by
      rw [table, hphase, clearSlot_of_readable hread]
    obtain ⟨-, hcontext, hpointers, -, hexact, hgrounded, hlatest⟩ := hsound
    rw [htable] at hpointers hexact
    exact Or.inl ⟨⟨rfl, hcontext, hpointers, (fun hloop => by cases hloop),
      hexact, hgrounded, hlatest⟩, rfl⟩
  · cases hstep

/-- A client process handles events; what it does to descriptors is added to
the record of misuses. -/
theorem handle_cases {pid : TgPid} {registry : Registry} {turns : List Turn}
    (hstep : s.handle pid registry turns = some s') :
    ∃ (ctx : TGContext) (c : ClientFds) (children : List ChildProc), s' = { s with
      main := { s.main with children := children }
      misuses := s.misuses ++ misused c.files
        (fdUses (handleEvents (c.child registry ctx) turns)) } := by
  rw [handle] at hstep
  split at hstep
  swap
  · cases hstep
  obtain ⟨ctx, _, hrest⟩ := Option.bind_eq_some_iff.mp hstep
  obtain ⟨c, _, hlast⟩ := Option.bind_eq_some_iff.mp hrest
  dsimp only at hlast
  split at hlast
  · obtain ⟨next, hexit, hsame⟩ := Option.bind_eq_some_iff.mp hlast
    obtain ⟨children, rfl⟩ := child_step (Or.inr ⟨pid, rfl⟩) hexit
    exact ⟨ctx, c, children, (Option.some.inj hsame).symm⟩
  · exact ⟨ctx, c, s.main.children, (Option.some.inj hlast).symm⟩

theorem terminate_cases {pid : TgPid} (hstep : s.terminate pid = some s') :
    ∃ (children : List ChildProc) (misuses : List Use), s' = { s with
      main := { s.main with children := children }
      misuses := misuses } := by
  rw [terminate] at hstep
  split at hstep
  swap
  · cases hstep
  obtain ⟨ctx, _, hrest⟩ := Option.bind_eq_some_iff.mp hstep
  obtain ⟨c, _, hrest⟩ := Option.bind_eq_some_iff.mp hrest
  obtain ⟨g, _, hrest⟩ := Option.bind_eq_some_iff.mp hrest
  obtain ⟨g', _, hrest⟩ := Option.bind_eq_some_iff.mp hrest
  obtain ⟨next, hexit, hsame⟩ := Option.bind_eq_some_iff.mp hrest
  obtain ⟨children, rfl⟩ := child_step (Or.inr ⟨pid, rfl⟩) hexit
  exact ⟨children, _, (Option.some.inj hsame).symm⟩

theorem start_frame {host : Host} {argv : List (List Byte)} {listenfd : Int}
    {adminfd : Option Int}
    (hstep : s.start host argv listenfd adminfd = some s') :
    s.phase = .boot ∧ s'.phase ≠ .boot ∧ s'.procs = s.procs := by
  rw [start] at hstep
  split at hstep
  swap
  · cases hstep
  refine ⟨‹_›, ?_⟩
  obtain ⟨⟨flag, server⟩, -, hrest⟩ := Option.bind_eq_some_iff.mp hstep
  dsimp only at hrest
  split at hrest
  · obtain ⟨g, -, hsame⟩ := Option.bind_eq_some_iff.mp hrest
    exact Option.some.inj hsame ▸ ⟨nofun, rfl⟩
  · obtain ⟨ctx, -, hlast⟩ := Option.bind_eq_some_iff.mp hrest
    obtain ⟨mid, hopens, hsame⟩ := Option.bind_eq_some_iff.mp hlast
    obtain ⟨-, rfl⟩ := opens_cases hopens
    exact Option.some.inj hsame ▸ ⟨nofun, rfl⟩

/-- The steps of the machine of `Accept` that are left. -/
theorem main_cases {act : Act} (hstep : fdStep s (.main act) = some s') :
    s.advance act = some s' ∧
      ((∃ addr, act = .advance addr) ∧ s.phase = .loop ∨
        ((∃ pid, act = .check pid) ∨ ∃ pid, act = .exit pid) ∨
        (∃ rounds, act = .sigchld rounds) ∧ s.phase.busy = true) := by
  change (if s.runs act then s.advance act else none) = some s' at hstep
  split at hstep
  swap
  · cases hstep
  rename_i hruns
  refine ⟨hstep, ?_⟩
  cases act with
  | accept _ _ _ _ | fork _ => cases hruns
  | advance addr => exact Or.inl ⟨⟨addr, rfl⟩, beq_iff_eq.mp hruns⟩
  | check pid => exact Or.inr (Or.inl (Or.inl ⟨pid, rfl⟩))
  | exit pid => exact Or.inr (Or.inl (Or.inr ⟨pid, rfl⟩))
  | sigchld rounds =>
      refine Or.inr (Or.inr ⟨⟨rounds, rfl⟩, ?_⟩)
      rw [runs, Bool.and_eq_true, bne_iff_ne, bne_iff_ne] at hruns
      cases hphase : s.phase with
      | boot => exact absurd hphase hruns.1
      | ended => exact absurd hphase hruns.2
      | loop | sleeping | closing _ | released _ => rfl

theorem Sound.step (hsound : s.Sound ctx leaked) {act : FdAct}
    (horderly : s.Orderly act) (hstep : fdStep s act = some s') :
    s'.phase = .ended ∨ ∃ left : List Int, s'.Sound ctx (left ++ leaked) ∧
      (s'.phase = .loop → act.Forks → left = []) := by
  cases act with
  | start host argv listenfd adminfd =>
      have hbusy := hsound.busy
      rw [(start_frame hstep).1] at hbusy
      cases hbusy
  | accept sockfd ip sinPort pipes piped =>
      exact Or.inr ⟨[], (hsound.accepted horderly hstep).1, fun _ _ => rfl⟩
  | fork cpid stale =>
      obtain ⟨left, hnext, hnone⟩ := hsound.forked hstep
      exact Or.inr ⟨left, hnext, fun _ => hnone⟩
  | main act =>
      obtain ⟨hadvance, ⟨⟨addr, rfl⟩, hphase⟩ | hchild | ⟨⟨rounds, rfl⟩, -⟩⟩ :=
        main_cases hstep
      · exact Or.inr ⟨[], (hsound.advanced hphase hadvance).1, fun _ _ => rfl⟩
      · obtain ⟨children, rfl⟩ := child_step hchild hadvance
        exact Or.inr ⟨[], hsound.relabel children s.misuses, fun _ _ => rfl⟩
      · exact Or.inr ⟨[], (hsound.reaped horderly hadvance).1, fun _ _ => rfl⟩
  | admin octets stack outFd =>
      exact Or.inr ⟨[], (hsound.administered hstep).1, fun _ _ => rfl⟩
  | handle pid registry turns =>
      obtain ⟨_, _, children, rfl⟩ := handle_cases hstep
      exact Or.inr ⟨[], hsound.relabel children _, fun _ _ => rfl⟩
  | terminate pid =>
      obtain ⟨children, misuses, rfl⟩ := terminate_cases hstep
      exact Or.inr ⟨[], hsound.relabel children misuses, fun _ _ => rfl⟩
  | stop rounds last =>
      obtain ⟨left, hnext, -⟩ := hsound.stopped horderly.1 horderly.2 hstep
      refine Or.inr ⟨left, hnext, fun hloop => ?_⟩
      cases (stop_frame hstep).1.symm.trans hloop
  | shut round =>
      rcases hsound.shuts horderly hstep with ⟨hnext, -⟩ | ⟨hended, -⟩
      · exact Or.inr ⟨[], hnext, fun _ _ => rfl⟩
      · exact Or.inl hended

end Steps

end FdState

end TgServer
