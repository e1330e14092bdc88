/-
The limit of `do_accept` over all runs of the main process.  The counter may
count children that are gone, but never misses one that is not reaped.
-/
import TgServer.Accept
import TgServer.ClientTable

namespace TgServer

open Transition

/-- A child that serves, or will once it comes to the limit check. -/
def ChildProc.admitted (maxClients : Int) (child : ChildProc) : Bool :=
  match child.phase with
  | .starting => !child.overLimit maxClients
  | .serving => true
  | .exited => false

/-- A child that has passed the limit check and is alive. -/
def ChildProc.serving (child : ChildProc) : Bool := child.phase == .serving

namespace ChildProc

variable (maxClients : Int) (child : ChildProc)

theorem admitted_of_serving (hserving : child.serving = true) :
    child.admitted maxClients = true := by
  have hphase : child.phase = .serving := by simpa [serving] using hserving
  rw [admitted, hphase]

/-- The limit check does what the copy of the counter had decided. -/
@[simp] theorem admitted_check :
    (child.check maxClients).admitted maxClients =
      child.admitted maxClients := by
  obtain ⟨pid, counts, phase⟩ := child
  cases phase with
  | starting =>
      cases hover : overLimit maxClients ⟨pid, counts, .starting⟩ <;>
        simp [check, admitted, hover]
  | serving => rfl
  | exited => rfl

@[simp] theorem admitted_quit : child.quit.admitted maxClients = false := rfl

/-- The limit check changes nothing for the count. -/
theorem countP_check (children : List ChildProc) (pid : TgPid) :
    (children.map fun child =>
        if child.pid = pid then child.check maxClients else child).countP
      (admitted maxClients) = children.countP (admitted maxClients) := by
  rw [List.countP_map]
  congr 1
  funext child
  simp only [Function.comp]
  split <;> simp

theorem countP_quit_le (children : List ChildProc) (pid : TgPid) :
    (children.map fun child =>
        if child.pid = pid then child.quit else child).countP
      (admitted maxClients) ≤ children.countP (admitted maxClients) := by
  rw [List.countP_map]
  apply List.countP_mono_left
  intro child _ hquit
  simp only [Function.comp] at hquit
  split at hquit
  · cases hquit
  · exact hquit

end ChildProc

namespace MainState

/-- What the counter will be when the parent is back at `select` and no child
is reaped before. -/
def countBound (s : MainState) : Int :=
  match s.pc with
  | .select => s.curClientCounts
  | .accepted _ _ _ => s.curClientCounts
  | .loaded counts => counts + 1
  | _ => s.curClientCounts + 1

/-- Every child that is not reaped is counted, and no more than `maxClients`
of them are admitted. -/
structure Limited (maxClients : Int) (s : MainState) : Prop where
  counted : (s.children.length : Int) ≤ s.countBound
  within : (s.children.countP (ChildProc.admitted maxClients) : Int) ≤ maxClients

/-- The parent's own steps do not change what it will have counted. -/
theorem countBound_advanced {s s' : MainState} (hstep : Advanced s s') :
    s'.children = s.children ∧ s'.countBound = s.countBound := by
  cases hstep with
  | insert hpc _ => rcases hpc with hpc | hpc <;> simp [countBound, hpc]
  | record hpc | alloc hpc _ | free hpc _ _ | next hpc | full hpc | append hpc
  | copy hpc _ _ | copied hpc _ | swap hpc | grow hpc | load hpc
  | write hpc => simp [countBound, hpc]

/-- A round of the handler takes one child and at most one from the counter. -/
theorem Limited.reap {maxClients : Int} {s s' : MainState} {round : Reaped}
    (hlimited : s.Limited maxClients) (hreap : s.reap round = some s') :
    s'.Limited maxClients := by
  obtain ⟨⟨child, hchild, hzombie⟩, -⟩ := reap_cases hreap
  have hlength := List.length_eraseP_of_mem hchild hzombie
  have hpos := List.length_pos_of_mem hchild
  have hsub := List.eraseP_sublist (l := s.children) (p := isZombie round.pid)
  have hcounts := reap_counts hreap
  have hbound : s.countBound - 1 ≤ s'.countBound := by
    rw [countBound, countBound, reap_pc hreap]
    split <;> omega
  have hcounted := hlimited.counted
  have hwithin := hlimited.within
  constructor
  · rw [reap_children hreap]
    omega
  · rw [reap_children hreap]
    have hle := hsub.countP_le (p := ChildProc.admitted maxClients)
    omega

theorem Limited.step {maxClients : Int} {s s' : MainState} {act : Act}
    (hlimited : s.Limited maxClients)
    (hstep : acceptStep maxClients s act = some s') : s'.Limited maxClients := by
  obtain ⟨hcounted, hwithin⟩ := hlimited
  cases act with
  | accept sockfd ip sinPort pipes =>
      obtain ⟨hpc, rfl | rfl⟩ := accept_cases hstep
      · exact ⟨hcounted, hwithin⟩
      · rw [countBound, hpc] at hcounted
        exact ⟨hcounted, hwithin⟩
  | fork cpid =>
      obtain ⟨sockfd, pClient, pipes, hpc, hcases⟩ := fork_cases hstep
      rw [countBound, hpc] at hcounted
      dsimp only at hcounted
      rcases hcases with ⟨_, rfl⟩ | ⟨_, _, rfl⟩
      · exact ⟨hcounted, hwithin⟩
      · constructor
        · simp only [countBound, List.length_append, List.length_singleton]
          omega
        · -- an admitted child has seen a counter below the limit
          have hall := List.countP_le_length (p := ChildProc.admitted maxClients)
            (l := s.children)
          rw [List.countP_append, List.countP_singleton]
          split
          · rename_i hadmitted
            simp [ChildProc.admitted, ChildProc.overLimit] at hadmitted
            omega
          · exact hwithin
  | advance addr =>
      obtain ⟨hchildren, hbound⟩ := countBound_advanced (advance_cases hstep)
      exact ⟨by rw [hchildren, hbound]; exact hcounted,
        by rw [hchildren]; exact hwithin⟩
  | check pid =>
      obtain rfl := check_eq hstep
      refine ⟨by rw [List.length_map]; exact hcounted, ?_⟩
      rw [ChildProc.countP_check]
      exact hwithin
  | exit pid =>
      obtain rfl := exit_eq hstep
      refine ⟨by rw [List.length_map]; exact hcounted, ?_⟩
      have hle := ChildProc.countP_quit_le maxClients s.children pid
      exact Int.le_trans (Int.ofNat_le.mpr hle) hwithin
  | sigchld rounds =>
      exact handle_preserves (P := fun _ s => s.Limited maxClients)
        (fun _ _ _ _ hlimited hreap => hlimited.reap hreap)
        ⟨hcounted, hwithin⟩ hstep

/-- `closeAllClient` leaves the copy of the counter alone, so a new child comes
to the check with the counter of the `fork`. -/
theorem Shape.fork_childBranch {s s' : MainState} (hshape : s.Shape)
    {cpid : TgPid} (hpos : 0 < cpid) (hfork : s.fork cpid = some s')
    (ctx : TGContext) :
    ∃ child, s'.children = s.children ++ [child] ∧ child.phase = .starting ∧
      childBranch (s.globals ctx) =
        some (child.check ctx.pServer.maxClients).phase := by
  obtain ⟨sockfd, pClient, pipes, hpc, hcases⟩ := fork_cases hfork
  rw [Shape, hpc] at hshape
  have hfits : (s.globals ctx).slots.length = (s.globals ctx).clientsArSize :=
    (List.length_map ..).trans hshape
  obtain ⟨closed, hclose, -, -, hcontext⟩ := closeAllFrom_holds
    (s.globals ctx).clientsArSize 0 _ ((Nat.zero_add _).trans hfits.symm)
  rcases hcases with ⟨hneg, -⟩ | ⟨-, -, rfl⟩
  · exact absurd hneg (Int.lt_asymm hpos)
  refine ⟨_, rfl, rfl, ?_⟩
  rw [childBranch, closeAllClient, hclose]
  simp only [Option.bind_eq_bind, Option.bind_some, hcontext, globals,
    Option.pure_def, ChildProc.check, ChildProc.overLimit, ↓reduceIte,
    decide_eq_true_eq]

end MainState

/-- Never more than `maxClients` clients are being served, and the check that
sees to it is the one a child comes to on its own copy of the globals. -/
theorem serving_le_maxClients {maxClients : Int} (hmax : 1 ≤ maxClients)
    {s : MainState} (hreach : (acceptMachine maxClients).Reachable s) :
    (s.children.countP ChildProc.serving : Int) ≤ maxClients ∧
    ∀ cpid s' (ctx : TGContext), 0 < cpid → s.fork cpid = some s' →
      ctx.pServer.maxClients = maxClients →
      ∃ child, s'.children = s.children ++ [child] ∧
        child.phase = .starting ∧
        childBranch (s.globals ctx) = some (child.check maxClients).phase := by
  have hlimited : s.Limited maxClients := by
    refine hreach.invariant ?_ ?_
    · exact ⟨Int.le_refl 0, show (0 : Int) ≤ maxClients by omega⟩
    · exact fun _ _ _ hlimited hstep => hlimited.step hstep
  have hle : s.children.countP ChildProc.serving ≤
      s.children.countP (ChildProc.admitted maxClients) :=
    List.countP_mono_left fun child _ => child.admitted_of_serving maxClients
  refine ⟨?_, ?_⟩
  · have hwithin := hlimited.within
    omega
  · rintro cpid s' ctx hpos hfork rfl
    exact (shape_reachable hreach).fork_childBranch hpos hfork ctx

namespace AcceptLimit

def pipes : Pipes := ⟨(7, 8), (9, 10)⟩

/-- A client connects and passes the limit check before the parent goes on. -/
def firstClient : List Act :=
  [.accept 6 (Bytes.ascii "10.0.0.1") 4000 pipes, .fork 101, .check 101]

theorem serving_le_maxClients_first :
    ∃ s, (acceptMachine 1).run .initial firstClient = some s ∧
      s.children.countP ChildProc.serving = 1 ∧
      (s.children.countP ChildProc.serving : Int) ≤ 1 ∧
      ∀ cpid s' (ctx : TGContext), 0 < cpid → s.fork cpid = some s' →
        ctx.pServer.maxClients = 1 →
        ∃ child, s'.children = s.children ++ [child] ∧
          child.phase = .starting ∧
          childBranch (s.globals ctx) = some (child.check 1).phase :=
  ⟨_, rfl, by decide, serving_le_maxClients (by decide) ⟨firstClient, rfl⟩⟩

end AcceptLimit

end TgServer
