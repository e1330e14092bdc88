/-
What a client process has open at the limit check: its socket and its two pipe
ends, and nothing else of the server.  That holds while the handler of
`SIGCHLD` does not release, in `appendClient`, a client whose slot is already
copied: `closeAllClient` in a later child then goes through a pointer to freed
memory.
-/
import TgServer.DescriptorStart

namespace TgServer

open Bytes Transition DescriptorTable

/-- The sockets and pipe ends of clients, the listening socket and the FIFO of
the administrator. -/
def OpenFile.ofServer : OpenFile → Bool
  | .listening => true
  | .adminPipe => true
  | file => file.ofClient

/-- Of these a client has its own socket, the read end of `fd` and the write
end of `fd1`. -/
structure ClientFds.Isolated (c : ClientFds) : Prop where
  exact : ∀ fd, (∃ file, c.files fd = some file ∧ file.ofServer = true) ↔
    fd = c.client.sockfd ∨ fd = c.client.readPipe ∨ fd = c.client.writePipe
  socket : c.files c.client.sockfd = some (.connection c.connection)
  reads : c.files c.client.readPipe =
    some (.pipeEnd c.connection false false)
  writes : c.files c.client.writePipe =
    some (.pipeEnd c.connection true true)

/-- In the loop `pipe` and `fork` succeed and the handler releases no client
whose slot is already copied; the number that is closed for the FIFO is open
when the loop begins. -/
def Undisturbed (s : FdState) : FdAct → Prop
  | .start _ _ listenfd adminfd =>
      adminfd.isSome ∨ (s.files 0).isSome ∨ listenfd = 0
  | .accept sockfd _ _ _ piped => sockfd = -1 ∨ piped = (true, true)
  | .fork cpid _ => 0 < cpid
  | .main (.sigchld rounds) =>
      s.phase = .loop → ∀ round ∈ rounds, s.main.mayDrop round.pid = true
  | _ => True

instance (s : FdState) (act : FdAct) : Decidable (Undisturbed s act) :=
  match act with
  | .start _ _ listenfd adminfd => inferInstanceAs
      (Decidable (adminfd.isSome ∨ (s.files 0).isSome ∨ listenfd = 0))
  | .accept sockfd _ _ _ piped =>
      inferInstanceAs (Decidable (sockfd = -1 ∨ piped = (true, true)))
  | .fork cpid _ => inferInstanceAs (Decidable (0 < cpid))
  | .main (.sigchld rounds) => inferInstanceAs (Decidable (s.phase = .loop →
      ∀ round ∈ rounds, s.main.mayDrop round.pid = true))
  | .main (.accept _ _ _ _) | .main (.fork _) | .main (.advance _)
  | .main (.check _) | .main (.exit _) | .admin _ _ _ | .handle _ _ _
  | .terminate _ | .stop _ _ | .shut _ => .isTrue trivial

namespace FdState

variable {s s' : FdState} {ctx : TGContext} {act : FdAct}

theorem limitCheck_client {sockfd : Int} {pClient : TGClient} {pipes : Pipes}
    (hread : 0 ≤ pipes.fd.1) (hwrite : 0 ≤ pipes.fd1.2)
    (stale : Addr → TGClient) :
    (s.limitCheck ctx sockfd pClient pipes stale).client = { pClient with
      sockfd := sockfd, readPipe := pipes.fd.1, writePipe := pipes.fd1.2 } := by
  change setPipe { pClient with sockfd := sockfd } pipes.fd.1 pipes.fd1.2 = _
  rw [setPipe, if_pos (by omega), if_pos (by omega)]

/-- The child of a connection keeps what it needs and nothing else of the
server's. -/
theorem Sound.child_files (hsound : s.Sound ctx []) (hphase : s.phase = .loop)
    {sockfd : Int} {pClient : TGClient} {pipes : Pipes}
    (hpc : s.main.pc = .accepted sockfd pClient pipes)
    (stale : Addr → TGClient) :
    (∀ fd ∈ [sockfd, pipes.fd.1, pipes.fd1.2], 0 ≤ fd ∧
      (s.limitCheck ctx sockfd pClient pipes stale).files fd = s.files fd) ∧
    ∀ fd file, (s.limitCheck ctx sockfd pClient pipes stale).files fd =
      some file → file.ofServer = true →
      fd ∈ [sockfd, pipes.fd.1, pipes.fd1.2] := by
  obtain ⟨files, hafter, -, hexact, hgrounded, hkept⟩ :=
    hsound.childCalls hphase hpc stale
  rw [List.append_nil] at hexact
  have hfiles : ∀ fd, (s.limitCheck ctx sockfd pClient pipes stale).files fd =
      after files ([ctx.listenfd, ctx.localAdminfd].map .close) fd :=
    fun fd => congrFun hafter fd
  simp only [after_closes] at hfiles
  constructor
  · obtain ⟨file, hfile, hother⟩ := hgrounded.admin
    have hlisten := hexact.not_mem hgrounded.listening Bool.false_ne_true
    have hadmin := hexact.not_mem hfile (by simp [hother])
    intro fd hfd
    have hapart : fd ∉ [ctx.listenfd, ctx.localAdminfd] := by
      intro hclosed
      rcases List.mem_pair.mp hclosed with rfl | rfl
      · exact hlisten hfd
      · exact hadmin hfd
    exact ⟨(hexact.held fd hfd).1,
      (hfiles fd).trans ((if_neg hapart).trans (hkept fd hfd))⟩
  · intro fd file hfile hserver
    rw [hfiles] at hfile
    split at hfile
    · cases hfile
    · rename_i hapart
      cases file with
      | listening =>
          exact absurd (hgrounded.listens hfile ▸ List.mem_cons_self) hapart
      | adminPipe =>
          refine absurd (List.mem_pair.mpr (Or.inr ?_)) hapart
          exact hgrounded.administers hfile
      | inherited | replyPipe => cases hserver
      | connection _ | pipeEnd _ _ _ => exact hexact.covers hfile rfl

/-- The child of a connection accepted in an undisturbed loop. -/
theorem Sound.isolated (hsound : s.Sound ctx []) (hphase : s.phase = .loop)
    {sockfd : Int} {pClient : TGClient} {pipes : Pipes}
    (hpc : s.main.pc = .accepted sockfd pClient pipes)
    (stale : Addr → TGClient) :
    (s.limitCheck ctx sockfd pClient pipes stale).Isolated := by
  obtain ⟨hown, hrest⟩ := hsound.child_files hphase hpc stale
  obtain ⟨-, hsock⟩ := hown sockfd (by simp)
  obtain ⟨hread, hreads⟩ := hown pipes.fd.1 (by simp)
  obtain ⟨hwrite, hwrites⟩ := hown pipes.fd1.2 (by simp)
  obtain ⟨hsock', hreads', hwrites'⟩ := hsound.latest hpc
  have hclient : (s.limitCheck ctx sockfd pClient pipes stale).client = _ :=
    limitCheck_client hread hwrite stale
  refine ⟨fun fd => ?_, ?_, ?_, ?_⟩
  · rw [hclient]
    constructor
    · rintro ⟨file, hfile, hserver⟩
      simpa using hrest fd file hfile hserver
    · rintro (rfl | rfl | rfl)
      · exact ⟨_, hsock.trans hsock', rfl⟩
      · exact ⟨_, hreads.trans hreads', rfl⟩
      · exact ⟨_, hwrites.trans hwrites', rfl⟩
  · rw [hclient]
    exact hsock.trans hsock'
  · rw [hclient]
    exact hreads.trans hreads'
  · rw [hclient]
    exact hwrites.trans hwrites'

/-- Client processes are made by `fork` alone. -/
theorem procs_step (hstep : fdStep s act = some s') :
    s'.procs = s.procs ∨ s.phase = .loop ∧
      ∃ cpid stale ctx sockfd pClient pipes,
        s.main.pc = .accepted sockfd pClient pipes ∧
        s.gContext = some ctx ∧
        s'.procs = Function.update s.procs cpid
          (some (s.limitCheck ctx sockfd pClient pipes stale)) := by
  cases act with
  | start host argv listenfd adminfd => exact Or.inl (start_frame hstep).2.2
  | accept sockfd ip sinPort pipes piped =>
      obtain ⟨-, -, ⟨-, rfl⟩ | ⟨-, -, rfl⟩⟩ := accept_cases hstep
      · exact Or.inl rfl
      · exact Or.inl rfl
  | fork cpid stale =>
      change s.fork cpid stale = some s' at hstep
      obtain ⟨hphase, sockfd, pClient, pipes, hpc,
        ⟨-, rfl⟩ | ⟨-, ctx, _, hctx, rfl⟩⟩ := fork_cases hstep
      · exact Or.inl rfl
      · exact Or.inr ⟨hphase, cpid, stale, ctx, sockfd, pClient, pipes, hpc,
          hctx, rfl⟩
  | main act =>
      obtain ⟨_, _, _, _, rfl⟩ := advance_cases (main_cases hstep).1
      exact Or.inl rfl
  | admin octets stack outFd =>
      obtain ⟨-, -, rfl | ⟨-, rfl⟩ | ⟨-, rfl⟩⟩ := admin_cases hstep
      · exact Or.inl rfl
      · exact Or.inl rfl
      · exact Or.inl rfl
  | handle pid registry turns =>
      obtain ⟨_, _, children, rfl⟩ := handle_cases hstep
      exact Or.inl rfl
  | terminate pid =>
      obtain ⟨children, misuses, rfl⟩ := terminate_cases hstep
      exact Or.inl rfl
  | stop rounds last => exact Or.inl (stop_frame hstep).2
  | shut round => exact Or.inl (shut_frame hstep).2.2

/-- While the loop is not left, an undisturbed step is orderly. -/
theorem orderly_of_undisturbed (hphase : s.phase = .loop)
    (hguard : Undisturbed s act) (hstep : fdStep s act = some s')
    (hloop : s'.phase = .loop) : s.Orderly act ∧ act.Forks := by
  cases act with
  | start _ _ _ _ => exact ⟨hguard, trivial⟩
  | accept _ _ _ _ _ => exact ⟨hguard, trivial⟩
  | fork _ _ => exact ⟨trivial, hguard⟩
  | main act =>
      cases act with
      | sigchld rounds =>
          refine ⟨fun round hround => ?_, trivial⟩
          rw [mayReap, if_pos hphase, hphase]
          exact hguard hphase round hround
      | accept _ _ _ _ | fork _ | advance _ | check _ | exit _ =>
          exact ⟨trivial, trivial⟩
  | admin _ _ _ | handle _ _ _ | terminate _ => exact ⟨trivial, trivial⟩
  | stop _ _ => cases (stop_frame hstep).1.symm.trans hloop
  | shut _ => exact absurd hloop (shut_frame hstep).1

/-- The server has not started, holds in the loop just what is open for
clients, or has left the loop; the client processes are isolated. -/
structure Isolates (inherited : Int → Bool) (s : FdState) : Prop where
  loop : s = .initial inherited ∨ (s.phase ≠ .boot ∧ s.phase ≠ .loop) ∨
    s.phase = .loop ∧ ∃ ctx, s.Sound ctx []
  procs : ∀ {pid c}, s.procs pid = some c → c.Isolated

theorem Isolates.sound {inherited : Int → Bool} (hisolates : s.Isolates inherited)
    (hphase : s.phase = .loop) : ∃ ctx, s.Sound ctx [] := by
  rcases hisolates.loop with rfl | ⟨-, hleft⟩ | ⟨-, hsound⟩
  · cases hphase
  · exact absurd hphase hleft
  · exact hsound

theorem Isolates.step {inherited : Int → Bool} (hisolates : s.Isolates inherited)
    (hguard : Undisturbed s act) (hstep : fdStep s act = some s') :
    s'.Isolates inherited := by
  obtain ⟨hloop, hprocs⟩ := hisolates
  constructor
  · rcases hloop with rfl | ⟨hboot, hleft⟩ | ⟨hphase, ctx, hsound⟩
    · obtain ⟨host, argv, listenfd, adminfd, rfl⟩ := initial_step hstep
      rcases start_cases hguard hstep with ⟨hended, -⟩ | ⟨ctx, hphase, hsound, -⟩
      · rw [hended]
        exact Or.inr (Or.inl ⟨nofun, nofun⟩)
      · exact Or.inr (Or.inr ⟨hphase, ctx, hsound⟩)
    · obtain ⟨hboot', hback⟩ := phase_step hboot hstep
      exact Or.inr (Or.inl ⟨hboot', fun hphase => hleft (hback hphase)⟩)
    · by_cases hstays : s'.phase = .loop
      · obtain ⟨horderly, hforks⟩ :=
          orderly_of_undisturbed hphase hguard hstep hstays
        rcases hsound.step horderly hstep with hended | ⟨left, hnext, hnone⟩
        · cases hended.symm.trans hstays
        · rw [hnone hstays hforks] at hnext
          exact Or.inr (Or.inr ⟨hstays, ctx, hnext⟩)
      · exact Or.inr (Or.inl ⟨(phase_step hsound.ne_boot hstep).1, hstays⟩)
  · intro pid c hchild
    rcases procs_step hstep with hsame | ⟨hphase, cpid, stale, ctx, sockfd,
      pClient, pipes, hpc, hctx, hupdate⟩
    · exact hprocs (hsame ▸ hchild)
    · obtain ⟨ctx', hsound⟩ := Isolates.sound ⟨hloop, hprocs⟩ hphase
      obtain rfl := Option.some.inj (hsound.context.symm.trans hctx)
      rw [hupdate] at hchild
      by_cases hnew : pid = cpid
      · subst hnew
        rw [Function.update_self, Option.some.injEq] at hchild
        exact hchild ▸ hsound.isolated hphase hpc stale
      · rw [Function.update_of_ne hnew] at hchild
        exact hprocs hchild

end FdState

/-- Every client process is isolated at the limit check, in every run in which
the handler leaves alone what `appendClient` has copied. -/
theorem fdMachine_isolated {inherited : Int → Bool} {s : FdState}
    (hreach : (fdMachine inherited).GuardedReachable Undisturbed s)
    {pid : TgPid} {c : ClientFds} (hchild : s.procs pid = some c) :
    c.Isolated := by
  have hisolates : s.Isolates inherited :=
    hreach.invariant ⟨Or.inl rfl, nofun⟩ fun _ _ _ hisolates hguard hstep =>
      hisolates.step hguard hstep
  exact hisolates.procs hchild

namespace DescriptorIsolation

open DescriptorStart

/-- A client is reaped while the next is entered, whose descriptors the third
gets. -/
def reapedRun : List FdAct :=
  begins :: clients 1 ++ connect 10 102 ++ advances 4 2 ++ reaps 101 ++
    advances 3 2 ++ connect 5 103

/-- The record the next connection gets, as its child sees it; `malloc` returns
what `releaseClient` has freed. -/
def ownRecord : TGClient := ⟨0, 110, 111, 114, some (ascii "10.0.0.1"), 4000⟩

/-- The array is full with 20 clients and is copied for the next one; before
the old array is freed, the client of slot 0 is reaped. -/
def copiedRun : List FdAct :=
  begins :: clients 20 ++ connect 105 121 ++ advances 44 21 ++ reaps 101 ++
    advances 6 0 ++
    [.accept 110 (ascii "10.0.0.1") 4000 ⟨(111, 112), (113, 114)⟩ (true, true),
      .fork 122 fun _ => ownRecord]

theorem fdMachine_isolated_reaped :
    ∃ s, (fdMachine streams).run (fdMachine streams).start reapedRun = some s ∧
      ∃ c, s.procs 103 = some c ∧ c.client.sockfd = 5 ∧ c.Isolated := by
  have hcheck : ((fdMachine streams).run (fdMachine streams).start
      reapedRun).any (fun s => (s.procs 103).any fun c =>
        decide (c.client.sockfd = 5)) = true := by decide +kernel
  obtain ⟨s, hrun, hany⟩ := (Option.any_eq_true _ _).mp hcheck
  obtain ⟨c, hchild, hsock⟩ := (Option.any_eq_true _ _).mp hany
  exact ⟨s, hrun, c, hchild, of_decide_eq_true hsock,
    fdMachine_isolated ⟨reapedRun, by decide +kernel, hrun⟩ hchild⟩

/-- The child goes through the pointer in slot 0, and has closed its own pipe
ends at the limit check. -/
theorem fdMachine_closes_own :
    ∃ s, (fdMachine streams).run (fdMachine streams).start copiedRun =
        some s ∧ s.misuses = [] ∧
      ∃ c, s.procs 122 = some c ∧ c.files c.client.readPipe = none ∧
        ¬c.Isolated := by
  have hcheck : ((fdMachine streams).run (fdMachine streams).start
      copiedRun).any (fun s => decide (s.misuses = []) &&
        (s.procs 122).any fun c =>
          decide (c.files c.client.readPipe = none)) = true := by
    decide +kernel
  obtain ⟨s, hrun, hat⟩ := (Option.any_eq_true _ _).mp hcheck
  obtain ⟨hmisuses, hany⟩ := (Bool.and_eq_true _ _).mp hat
  obtain ⟨c, hchild, hread⟩ := (Option.any_eq_true _ _).mp hany
  have hclosed := of_decide_eq_true hread
  refine ⟨s, hrun, of_decide_eq_true hmisuses, c, hchild, hclosed, ?_⟩
  intro hisolated
  cases hclosed.symm.trans hisolated.reads

end DescriptorIsolation

end TgServer
