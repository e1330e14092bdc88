/-
Which descriptors `close` and `shutdown` are applied to.  Only to open ones, as
long as the arguments of the server are accepted, no client process comes to
its `release`, and nothing is read through a pointer to freed memory:
`release` takes the numbers in the context for open, whether they have been
set at all, and whether the process has closed them.
-/
import TgServer.ClientLife
import TgServer.DescriptorStart

namespace TgServer

open Bytes Transition DescriptorTable

/-- The context is released only where its two numbers are open: not in
`init_context` and not in a client process. -/
def OwnRelease (s : FdState) : FdAct → Prop
  | .start _ argv _ adminfd => rejects (argv.drop 1) = false ∧
      (adminfd.isSome ∨ (s.files 0).isSome)
  | .handle _ _ turns => ∀ turn ∈ turns, terminating turn.event.type = false
  | .terminate _ => False
  | _ => True

instance (s : FdState) (act : FdAct) : Decidable (OwnRelease s act) :=
  match act with
  | .start _ argv _ adminfd => inferInstanceAs
      (Decidable (rejects (argv.drop 1) = false ∧
        (adminfd.isSome ∨ (s.files 0).isSome)))
  | .handle _ _ turns => inferInstanceAs
      (Decidable (∀ turn ∈ turns, terminating turn.event.type = false))
  | .terminate _ => .isFalse id
  | .accept _ _ _ _ _ | .fork _ _ | .main _ | .admin _ _ _ | .stop _ _
  | .shut _ => .isTrue trivial

section Events

variable {p : Child} {turn : Turn}

@[simp] theorem fdUses_append (first second : List Effect) :
    fdUses (first ++ second) = fdUses first ++ fdUses second :=
  List.filterMap_append

@[simp] theorem fdUses_call (calls : List ServiceCall) :
    fdUses (calls.map .call) = [] := by
  rw [fdUses, List.filterMap_eq_nil_iff]
  simp

theorem fdUses_reply {effects : List Effect}
    (hreply : ∀ effect ∈ effects, effect.isReply = true) :
    fdUses effects = [] := by
  rw [fdUses, List.filterMap_eq_nil_iff]
  intro effect heffect
  cases effect with
  | fd call => cases hreply _ heffect
  | write | call | doRequest | sleep | exit => rfl

theorem fdUses_send {id : Nat} {ret ret' : Int} {effects : List Effect}
    (hsend : send p.client id (ret', []) = some (ret, effects)) :
    fdUses effects = [] := by
  rcases send_some hsend with rfl | ⟨fd, octets, rfl⟩ <;> rfl

/-- A handler that does not end the process leaves the descriptors alone. -/
theorem handleResponse_fdUses {ret : Int} {effects : List Effect}
    (hstays : terminating turn.event.type = false)
    (hhandle : handleResponse p turn = some (ret, effects)) :
    fdUses effects = [] := by
  simp only [terminating, Bool.or_eq_false_iff, beq_eq_false_iff_ne] at hstays
  obtain ⟨⟨hquit, hshut⟩, hclosed⟩ := hstays
  rw [handleResponse_eq, if_neg hquit, if_neg hshut, if_neg hclosed] at hhandle
  split at hhandle
  · exact fdUses_reply (handleResponseClientRequest_reply hhandle)
  split at hhandle
  · exact fdUses_send hhandle
  split at hhandle
  · rw [handleResponseClientInit] at hhandle
    obtain ⟨⟨calls, _⟩, -, hsame⟩ := Option.bind_eq_some_iff.mp hhandle
    obtain ⟨-, rfl⟩ := Prod.mk.inj (Option.some.inj hsame)
    exact fdUses_call calls
  split at hhandle
  · cases hhandle
  · obtain ⟨-, rfl⟩ := Prod.mk.inj (Option.some.inj hhandle)
    rfl

theorem handleEvents_fdUses {turns : List Turn}
    (hstays : ∀ turn ∈ turns, terminating turn.event.type = false) :
    fdUses (handleEvents p turns) = [] := by
  induction turns with
  | nil => rfl
  | cons turn rest ih =>
      rw [List.forall_mem_cons] at hstays
      rw [handleEvents]
      split
      · rfl
      · rename_i ret effects hhandle
        have hnone := handleResponse_fdUses hstays.1 hhandle
        split
        · exact hnone
        · rw [fdUses_append, hnone, ih hstays.2]
          rfl

end Events

namespace FdState

variable {s s' : FdState} {ctx : TGContext} {leaked : List Int} {act : FdAct}

theorem handle_misuses {pid : TgPid} {registry : Registry} {turns : List Turn}
    (hown : OwnRelease s (.handle pid registry turns))
    (hstep : s.handle pid registry turns = some s') :
    s'.misuses = s.misuses := by
  obtain ⟨_, _, children, rfl⟩ := handle_cases hstep
  dsimp only
  rw [handleEvents_fdUses hown, misused_nil, List.append_nil]

/-- The child of a `fork` closes the listening socket and the FIFO once. -/
theorem Sound.childCalls_misused (hsound : s.Sound ctx leaked)
    (hapart : ctx.localAdminfd ≠ ctx.listenfd) (hphase : s.phase = .loop)
    {sockfd : Int} {pClient : TGClient} {pipes : Pipes}
    (hpc : s.main.pc = .accepted sockfd pClient pipes)
    (stale : Addr → TGClient) :
    misused s.files ((s.childCalls ctx pipes stale).map FdCall.use) = [] := by
  obtain ⟨files, -, horder, -, hgrounded, -⟩ :=
    hsound.childCalls hphase hpc stale
  obtain ⟨file, hfile, -⟩ := hgrounded.admin
  have hboth : misused files ([ctx.listenfd, ctx.localAdminfd].map .close) =
      [] := misused_closes files (by simp [hapart.symm])
        (by simp [hgrounded.listening, hfile])
  exact horder.trans hboth

/-- What the main process and its children do in one step is in order. -/
theorem Sound.misuses_step (hsound : s.Sound ctx leaked)
    (hapart : ctx.localAdminfd ≠ ctx.listenfd) (horderly : s.Orderly act)
    (hown : OwnRelease s act) (hstep : fdStep s act = some s') :
    s'.misuses = s.misuses := by
  cases act with
  | start host argv listenfd adminfd =>
      exact absurd (start_frame hstep).1 hsound.ne_boot
  | accept sockfd ip sinPort pipes piped =>
      exact (hsound.accepted horderly hstep).2.misuses
  | fork cpid stale =>
      change s.fork cpid stale = some s' at hstep
      obtain ⟨hphase, sockfd, pClient, pipes, hpc,
        ⟨-, rfl⟩ | ⟨-, ctx', children, hctx, rfl⟩⟩ := fork_cases hstep
      · rfl
      · obtain rfl := Option.some.inj (hsound.context.symm.trans hctx)
        dsimp only
        rw [hsound.childCalls_misused hapart hphase hpc, List.append_nil]
  | main act =>
      obtain ⟨hadvance, ⟨⟨addr, rfl⟩, hphase⟩ | hchild | ⟨⟨rounds, rfl⟩, -⟩⟩ :=
        main_cases hstep
      · exact (hsound.advanced hphase hadvance).2.misuses
      · obtain ⟨children, rfl⟩ := child_step hchild hadvance
        rfl
      · exact (hsound.reaped horderly hadvance).2.misuses
  | admin octets stack outFd => exact (hsound.administered hstep).2
  | handle pid registry turns => exact handle_misuses hown hstep
  | terminate pid => exact hown.elim
  | stop rounds last =>
      obtain ⟨left, -, hsame⟩ := hsound.stopped horderly.1 horderly.2 hstep
      exact hsame
  | shut round =>
      rcases hsound.shuts horderly hstep with ⟨-, hsame⟩ | ⟨-, hsame⟩
      · exact hsame
      · exact hsame hapart

/-- Nor is anything closed that is not open when the main process has ended. -/
theorem ended_misuses (hphase : s.phase = .ended) (hown : OwnRelease s act)
    (hstep : fdStep s act = some s') : s'.misuses = s.misuses := by
  rcases ended_cases hphase hstep with
    ⟨children, rfl⟩ | ⟨pid, registry, turns, rfl⟩ | ⟨pid, rfl⟩
  · rfl
  · exact handle_misuses hown hstep
  · exact hown.elim

/-- Nothing has been closed that was not open; the main process has not
started, has ended, or has its two numbers apart. -/
structure Intact (inherited : Int → Bool) (s : FdState) : Prop where
  place : s = .initial inherited ∨ s.phase = .ended ∨
    ∃ ctx leaked, s.Sound ctx leaked ∧ ctx.localAdminfd ≠ ctx.listenfd
  misuses : s.misuses = []

theorem Intact.step {inherited : Int → Bool} (hintact : s.Intact inherited)
    (horderly : s.Orderly act) (hown : OwnRelease s act)
    (hstep : fdStep s act = some s') : s'.Intact inherited := by
  obtain ⟨rfl | hended | ⟨ctx, leaked, hsound, hapart⟩, hmisuses⟩ := hintact
  · obtain ⟨host, argv, listenfd, adminfd, rfl⟩ := initial_step hstep
    obtain ⟨haccepts, hadmin⟩ := hown
    rcases start_cases horderly hstep with
      ⟨-, hrejects⟩ | ⟨ctx, -, hsound, hnone, -, hapart⟩
    · cases haccepts.symm.trans hrejects
    · refine ⟨Or.inr (Or.inr ⟨ctx, [], hsound, hapart ?_⟩), hnone⟩
      refine hadmin.imp_right fun hopen => ?_
      simpa [initial] using hopen
  · exact ⟨Or.inr (Or.inl (ended_step hended hstep)),
      (ended_misuses hended hown hstep).trans hmisuses⟩
  · refine ⟨?_, (hsound.misuses_step hapart horderly hown hstep).trans
      hmisuses⟩
    rcases hsound.step horderly hstep with hended | ⟨left, hnext, -⟩
    · exact Or.inr (Or.inl hended)
    · exact Or.inr (Or.inr ⟨ctx, _, hnext, hapart⟩)

end FdState

/-- In every process only open descriptors are closed or shut down, in every
run in which only the main process releases the context and no step goes
through a pointer to freed memory. -/
theorem fdMachine_closes_open {inherited : Int → Bool} {s : FdState}
    (hreach : (fdMachine inherited).GuardedReachable
      (fun s act => s.Orderly act ∧ OwnRelease s act) s) :
    s.misuses = [] := by
  have hintact : s.Intact inherited :=
    hreach.invariant ⟨Or.inl rfl, rfl⟩ fun _ _ _ hintact hguard hstep =>
      hintact.step hguard.1 hguard.2 hstep
  exact hintact.misuses

namespace DescriptorClosing

open DescriptorStart

/-- Two clients, of which one handles an event and the other is reaped, then
`SIGTERM` up to the end of the main process. -/
def shutdownRun : List FdAct :=
  begins :: clients 2 ++ [.main (.check 101),
      .handle 101 .initial [ClientLife.turn msgTypeDataLengthError]] ++
    reaps 102 ++ .stop [] none ::
      List.replicate 23 (.shut ⟨0, fun _ => initClient, fun _ => none⟩)

/-- A parameter without its dash. -/
def rejectedRun : List FdAct :=
  [.start host [ascii "tgserver", ascii "p"] 3 (some 4)]

/-- The peer of the only client closes the connection. -/
def quitRun : List FdAct :=
  begins :: clients 1 ++ [.main (.check 101),
    .handle 101 .initial [ClientLife.turn msgTypeClientQuit]]

theorem fdMachine_closes_open_shutdown :
    ∃ s, (fdMachine streams).run (fdMachine streams).start shutdownRun =
      some s ∧ s.phase = .ended ∧ s.misuses = [] := by
  have hcheck : ((fdMachine streams).run (fdMachine streams).start
      shutdownRun).any (fun s => decide (s.phase = .ended)) = true := by
    decide +kernel
  obtain ⟨s, hrun, hphase⟩ := (Option.any_eq_true _ _).mp hcheck
  exact ⟨s, hrun, of_decide_eq_true hphase,
    fdMachine_closes_open ⟨shutdownRun, by decide +kernel, hrun⟩⟩

/-- `release` closes descriptor 0 twice when the arguments are rejected, and a
client process shuts down and closes once more what it closed after `fork`. -/
theorem fdMachine_closes_closed :
    ((fdMachine streams).run (fdMachine streams).start rejectedRun).map
        FdState.misuses = some [.close 0] ∧
      ((fdMachine streams).run (fdMachine streams).start quitRun).map
        FdState.misuses = some [.keep 3, .close 3, .close 4] := by
  constructor <;> decide +kernel

end DescriptorClosing

end TgServer
