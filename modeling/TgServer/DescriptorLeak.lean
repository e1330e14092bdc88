/-
What stays open in the main process.  Over the runs of the loop in which every
call succeeds, back at `select` just the pipe ends of the clients are open of
what the loop has opened, unless `do_admin` has executed a command: it opens
`OUT_PIPE` each time and never closes it.
-/
import TgServer.DescriptorStart

namespace TgServer

open Bytes Transition DescriptorTable

/-- Opened by the main process in its loop. -/
def OpenFile.ofLoop : OpenFile → Bool
  | .replyPipe => true
  | file => file.ofClient

def FdAct.isAdmin : FdAct → Bool
  | .admin _ _ _ => true
  | _ => false

/-- A run of the loop in which the calls succeed and children are reaped while
no connection is being accepted. -/
def CallsSucceed (s : FdState) : FdAct → Prop
  | .start _ _ _ adminfd => adminfd.isSome
  | .accept sockfd _ _ _ piped => sockfd ≠ -1 ∧ piped = (true, true)
  | .fork cpid _ => 0 < cpid
  | .main (.sigchld _) => s.phase = .loop ∧ s.main.pc = .select
  | .admin _ _ outFd => outFd ≠ -1
  | .stop _ _ => False
  | .shut _ => False
  | _ => True

instance (s : FdState) (act : FdAct) : Decidable (CallsSucceed s act) :=
  match act with
  | .start _ _ _ adminfd => inferInstanceAs (Decidable (adminfd.isSome = true))
  | .accept sockfd _ _ _ piped =>
      inferInstanceAs (Decidable (sockfd ≠ -1 ∧ piped = (true, true)))
  | .fork cpid _ => inferInstanceAs (Decidable (0 < cpid))
  | .main (.sigchld _) =>
      inferInstanceAs (Decidable (s.phase = .loop ∧ s.main.pc = .select))
  | .admin _ _ outFd => inferInstanceAs (Decidable (outFd ≠ -1))
  | .stop _ _ | .shut _ => .isFalse id
  | .main (.accept _ _ _ _) | .main (.fork _) | .main (.advance _)
  | .main (.check _) | .main (.exit _) | .handle _ _ _ | .terminate _ =>
      .isTrue trivial

namespace FdState

variable {s s' : FdState} {ctx : TGContext} {leaked : List Int} {act : FdAct}

theorem orderly_of_callsSucceed (hsucceed : CallsSucceed s act) :
    s.Orderly act ∧ act.Forks := by
  cases act with
  | start _ _ _ _ => exact ⟨Or.inl hsucceed, trivial⟩
  | accept _ _ _ _ _ => exact ⟨Or.inr hsucceed.2, trivial⟩
  | fork _ _ => exact ⟨trivial, hsucceed⟩
  | main act =>
      cases act with
      | sigchld rounds =>
          obtain ⟨hphase, hpc⟩ := hsucceed
          refine ⟨fun round _ => ?_, trivial⟩
          rw [mayReap, if_pos hphase, hphase, MainState.mayDrop, hpc]
          rfl
      | accept _ _ _ _ | fork _ | advance _ | check _ | exit _ =>
          exact ⟨trivial, trivial⟩
  | admin _ _ _ | handle _ _ _ | terminate _ => exact ⟨trivial, trivial⟩
  | stop _ _ | shut _ => exact hsucceed.elim

/-- The parent, the handler and the children leave the reply FIFO alone. -/
theorem files_step (hsound : s.Sound ctx leaked)
    (horderly : s.Orderly act) (hstep : fdStep s act = some s')
    (hadmin : act.isAdmin = false) (hloop : s'.phase = .loop) :
    SameBut (·.ofClient = true) s.files s'.files := by
  cases act with
  | start _ _ _ _ =>
      exact absurd (start_frame hstep).1 hsound.ne_boot
  | accept _ _ _ _ _ => exact (hsound.accepted horderly hstep).2.others
  | fork cpid stale =>
      change s.fork cpid stale = some s' at hstep
      obtain ⟨-, _, _, _, -, ⟨-, rfl⟩ | ⟨-, _, _, -, rfl⟩⟩ := fork_cases hstep
      · exact SameBut.refl _ _
      · exact SameBut.refl _ _
  | main act =>
      obtain ⟨hadvance, ⟨⟨addr, rfl⟩, hphase⟩ | hchild | ⟨⟨rounds, rfl⟩, -⟩⟩ :=
        main_cases hstep
      · exact (hsound.advanced hphase hadvance).2.others
      · obtain ⟨children, rfl⟩ := child_step hchild hadvance
        exact SameBut.refl _ _
      · exact (hsound.reaped horderly hadvance).2.others
  | admin _ _ _ => cases hadmin
  | handle _ _ _ =>
      obtain ⟨_, _, children, rfl⟩ := handle_cases hstep
      exact SameBut.refl _ _
  | terminate _ =>
      obtain ⟨children, misuses, rfl⟩ := terminate_cases hstep
      exact SameBut.refl _ _
  | stop _ _ => cases (stop_frame hstep).1.symm.trans hloop
  | shut _ => exact absurd hloop (shut_frame hstep).1

/-- A command leaves the reply FIFO open, nothing else opens or closes it. -/
theorem replyPipe_step (hsound : s.Sound ctx leaked)
    (hsucceed : CallsSucceed s act) (hstep : fdStep s act = some s')
    (hloop : s'.phase = .loop) :
    (∃ fd, s'.files fd = some .replyPipe) ↔
      (∃ fd, s.files fd = some .replyPipe) ∨ act.isAdmin = true := by
  cases hadmin : act.isAdmin with
  | false =>
      have hsame := files_step hsound (orderly_of_callsSucceed hsucceed).1
        hstep hadmin hloop
      have hother : ¬OpenFile.replyPipe.ofClient = true := Bool.false_ne_true
      simp only [Bool.false_eq_true, or_false]
      exact exists_congr fun fd => hsame hother
  | true =>
      refine iff_of_true ?_ (Or.inr rfl)
      cases act with
      | admin octets stack outFd =>
          obtain ⟨-, -, rfl | ⟨hfailed, -⟩ | ⟨hfresh, rfl⟩⟩ :=
            admin_cases hstep
          · cases hloop
          · exact absurd hfailed hsucceed
          · exact ⟨outFd, Function.update_self ..⟩
      | start _ _ _ _ | accept _ _ _ _ _ | fork _ _ | main _ | handle _ _ _
      | terminate _ | stop _ _ | shut _ => cases hadmin

/-- After these steps the loop has the reply FIFO open if one of them was a
command. -/
structure RepliesAfter (inherited : Int → Bool) (past : List FdAct)
    (s : FdState) : Prop where
  tidy : s.Tidy inherited
  first : s.phase = .boot → past = []
  replies : s.phase = .loop → ((∃ fd, s.files fd = some .replyPipe) ↔
    ∃ act ∈ past, act.isAdmin = true)

theorem RepliesAfter.step {inherited : Int → Bool} {past : List FdAct}
    (hpast : RepliesAfter inherited past s) (hsucceed : CallsSucceed s act)
    (hstep : fdStep s act = some s') :
    RepliesAfter inherited (past ++ [act]) s' := by
  obtain ⟨htidy, hfirst, hreplies⟩ := hpast
  obtain ⟨horderly, hforks⟩ := orderly_of_callsSucceed hsucceed
  have hnext := htidy.step horderly hforks hstep
  rcases htidy with rfl | hended | ⟨ctx, leaked, hsound, -⟩
  · obtain ⟨host, argv, listenfd, adminfd, rfl⟩ := initial_step hstep
    obtain rfl := hfirst rfl
    rcases start_cases horderly hstep with
      ⟨hended, -⟩ | ⟨ctx, hphase, -, -, hnone, -⟩
    · exact ⟨hnext, (fun hboot => by cases hended.symm.trans hboot),
        (fun hloop => by cases hended.symm.trans hloop)⟩
    · refine ⟨hnext, (fun hboot => by cases hphase.symm.trans hboot),
        fun _ => iff_of_false (fun ⟨fd, hfile⟩ => hnone fd hfile) ?_⟩
      simp [FdAct.isAdmin]
  · have hended' := ended_step hended hstep
    exact ⟨hnext, (fun hboot => by cases hended'.symm.trans hboot),
      (fun hloop => by cases hended'.symm.trans hloop)⟩
  · refine ⟨hnext, fun hboot => ?_, fun hloop => ?_⟩
    · exact absurd hboot (phase_step hsound.ne_boot hstep).1
    · rw [replyPipe_step hsound hsucceed hstep hloop,
        hreplies ((phase_step hsound.ne_boot hstep).2 hloop)]
      simp [or_and_right, exists_or]

/-- At `select` in the loop the open pipe ends are those of the clients. -/
theorem Sound.at_select (hsound : s.Sound ctx []) (hloop : s.phase = .loop)
    (hselect : s.main.pc = .select) :
    Exactly (·.ofClient = true) s.files (s.main.view.flatMap slotEnds) := by
  have hexact := hsound.exact
  have hlocals : s.main.localFds = [] := by
    rw [MainState.localFds, hselect, MainState.newRecord, hselect]
    rfl
  rwa [table_of_loop hloop, MainState.held, hlocals, List.append_nil,
    List.append_nil] at hexact

theorem mem_slotEnds {slots : List (Option TGClient)} {fd : Int} :
    fd ∈ slots.flatMap slotEnds ↔ ∃ pClient, some pClient ∈ slots ∧
      (fd = pClient.readPipe ∨ fd = pClient.writePipe) := by
  rw [List.mem_flatMap]
  constructor
  · rintro ⟨slot, hslot, hfd⟩
    cases slot with
    | none => cases hfd
    | some pClient =>
        exact ⟨pClient, hslot, by simpa [slotEnds, TGClient.ends] using hfd⟩
  · rintro ⟨pClient, hslot, hfd⟩
    exact ⟨some pClient, hslot, by simpa [slotEnds, TGClient.ends] using hfd⟩

/-- At `select` nothing but the pipes of the clients is open of what the loop
has opened, unless it is the reply FIFO. -/
theorem Sound.leakless_iff (hsound : s.Sound ctx []) (hloop : s.phase = .loop)
    (hselect : s.main.pc = .select) :
    (∀ fd, (∃ file, s.files fd = some file ∧ file.ofLoop = true) ↔
      ∃ pClient, some pClient ∈ s.main.view ∧
        (fd = pClient.readPipe ∨ fd = pClient.writePipe)) ↔
    ¬∃ fd, s.files fd = some .replyPipe := by
  have hexact := hsound.at_select hloop hselect
  constructor
  · rintro hall ⟨fd, hfile⟩
    have hend := mem_slotEnds.mpr ((hall fd).mp ⟨_, hfile, rfl⟩)
    exact hexact.not_mem hfile Bool.false_ne_true hend
  · intro hclosed fd
    rw [← mem_slotEnds]
    constructor
    · rintro ⟨file, hfile, hofLoop⟩
      refine hexact.covers hfile ?_
      cases file with
      | replyPipe => exact absurd ⟨fd, hfile⟩ hclosed
      | inherited | listening | adminPipe | connection _ | pipeEnd _ _ _ =>
          exact hofLoop
    · intro hfd
      obtain ⟨-, file, hfile, hclient⟩ := hexact.held fd hfd
      refine ⟨file, hfile, ?_⟩
      cases file with
      | replyPipe => rfl
      | inherited | listening | adminPipe | connection _ | pipeEnd _ _ _ =>
          exact hclient

/-- In the loop everything is in its place. -/
theorem Tidy.sound {inherited : Int → Bool} (htidy : s.Tidy inherited)
    (hloop : s.phase = .loop) : ∃ ctx, s.Sound ctx [] := by
  rcases htidy with rfl | hended | ⟨ctx, leaked, hsound, hnone⟩
  · cases hloop
  · cases hended.symm.trans hloop
  · exact ⟨ctx, hnone hloop ▸ hsound⟩

end FdState

/-- Back at `select`, what the loop has opened and not closed is the pipes of
the clients, if and only if no command has been executed. -/
theorem fdMachine_leakless_iff {inherited : Int → Bool} {acts : List FdAct}
    {s : FdState}
    (hsucceed : (fdMachine inherited).Guarded CallsSucceed
      (fdMachine inherited).start acts)
    (hrun : (fdMachine inherited).run (fdMachine inherited).start acts =
      some s)
    (hloop : s.phase = .loop) (hselect : s.main.pc = .select) :
    (∀ fd, (∃ file, s.files fd = some file ∧ file.ofLoop = true) ↔
      ∃ pClient, some pClient ∈ s.main.view ∧
        (fd = pClient.readPipe ∨ fd = pClient.writePipe)) ↔
    ∀ act ∈ acts, act.isAdmin = false := by
  have hstart : FdState.RepliesAfter inherited [] (fdMachine inherited).start :=
    ⟨Or.inl rfl, fun _ => rfl, fun hphase => by cases hphase⟩
  have hlast : FdState.RepliesAfter inherited ([] ++ acts) s :=
    (fdMachine inherited).guarded_run_history
      (fun _ _ _ _ hpast hguard hstep => hpast.step hguard hstep) hstart
      hsucceed hrun
  obtain ⟨ctx, hsound⟩ := hlast.tidy.sound hloop
  rw [hsound.leakless_iff hloop hselect, hlast.replies hloop, List.nil_append]
  simp

namespace DescriptorLeak

open DescriptorStart

/-- A client is connected and entered; another one comes, quits and is
reaped. -/
def clientRun : List FdAct :=
  begins :: clients 2 ++ reaps 102

def commandRun : List FdAct := [begins, .admin (ascii "tg://1040/") [] 5]

theorem fdMachine_leakless_iff_clients :
    ∃ s, (fdMachine streams).run (fdMachine streams).start clientRun = some s ∧
      s.phase = .loop ∧ s.main.pc = .select ∧
      ((∀ fd, (∃ file, s.files fd = some file ∧ file.ofLoop = true) ↔
        ∃ pClient, some pClient ∈ s.main.view ∧
          (fd = pClient.readPipe ∨ fd = pClient.writePipe)) ↔
        ∀ act ∈ clientRun, act.isAdmin = false) :=
  have hcheck : ((fdMachine streams).run (fdMachine streams).start
      clientRun).any (fun s => decide (s.phase = .loop ∧ s.main.pc = .select)) =
      true := by decide +kernel
  let ⟨s, hrun, hat⟩ := (Option.any_eq_true _ _).mp hcheck
  have ⟨hloop, hselect⟩ := of_decide_eq_true hat
  ⟨s, hrun, hloop, hselect,
    fdMachine_leakless_iff (by decide +kernel) hrun hloop hselect⟩

/-- One listing, and its reply FIFO stays open. -/
theorem fdMachine_leaks :
    ∃ s, (fdMachine streams).run (fdMachine streams).start commandRun =
        some s ∧ (fdMachine streams).Guarded CallsSucceed
        (fdMachine streams).start commandRun ∧
      s.phase = .loop ∧ s.main.pc = .select ∧
      s.files 5 = some .replyPipe ∧ (∀ pClient, some pClient ∉ s.main.view) ∧
      ¬∀ fd, (∃ file, s.files fd = some file ∧ file.ofLoop = true) ↔
        ∃ pClient, some pClient ∈ s.main.view ∧
          (fd = pClient.readPipe ∨ fd = pClient.writePipe) := by
  have hcheck : ((fdMachine streams).run (fdMachine streams).start
      commandRun).any (fun s => decide (s.phase = .loop ∧ s.main.pc = .select ∧
        s.files 5 = some .replyPipe ∧ s.main.view = List.replicate 20 none)) =
      true := by decide +kernel
  obtain ⟨s, hrun, hat⟩ := (Option.any_eq_true _ _).mp hcheck
  obtain ⟨hloop, hselect, hfile, hview⟩ := of_decide_eq_true hat
  have hnone : ∀ pClient, some pClient ∉ s.main.view := by
    rw [hview]
    intro pClient hmem
    cases (List.mem_replicate.mp hmem).2
  refine ⟨s, hrun, by decide +kernel, hloop, hselect, hfile, hnone, ?_⟩
  intro hall
  obtain ⟨pClient, hmem, -⟩ := (hall 5).mp ⟨_, hfile, rfl⟩
  exact hnone pClient hmem

end DescriptorLeak

end TgServer
