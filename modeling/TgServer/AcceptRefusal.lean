/-
When a refusal is justified.  The counter counts every child that is not
reaped, so a refusal says that the server was full only where the children it
counted at `fork` were admitted and stay until the check.
-/
import TgServer.AcceptTable

namespace TgServer

open Transition

variable {maxClients : Int}

/-- Some child is about to be refused. -/
def MainState.refusing (maxClients : Int) (s : MainState) : Bool :=
  s.children.any fun child =>
    child.phase == .starting && child.overLimit maxClients

/-- The child with this pid is not refused. -/
def MainState.admits (maxClients : Int) (s : MainState) (pid : TgPid) : Bool :=
  s.children.any fun child => child.pid == pid && child.admitted maxClients

/-- Children that are refused or have exited are reaped before they stand in
the way of a new one, and no admitted child exits while another is about to be
refused. -/
def TimelyReaping (maxClients : Int) (s : MainState) : Act → Prop
  | .fork cpid => cpid < 0 ∨ (s.children.length : Int) < maxClients ∨
      maxClients ≤ (s.children.countP (ChildProc.admitted maxClients) : Int)
  | .exit pid => s.refusing maxClients = false ∨ s.admits maxClients pid = false
  | _ => True

instance (s : MainState) (act : Act) :
    Decidable (TimelyReaping maxClients s act) :=
  match act with
  | .fork cpid => inferInstanceAs (Decidable (cpid < 0 ∨
      (s.children.length : Int) < maxClients ∨
      maxClients ≤ (s.children.countP (ChildProc.admitted maxClients) : Int)))
  | .exit pid => inferInstanceAs (Decidable
      (s.refusing maxClients = false ∨ s.admits maxClients pid = false))
  | .accept _ _ _ _ | .advance _ | .check _ | .sigchld _ => .isTrue trivial

/-- Each child that is to be refused has `maxClients` admitted ones before it,
counting from `ahead`. -/
def Backed (maxClients : Int) : Nat → List ChildProc → Prop
  | _, [] => True
  | ahead, child :: rest =>
      (child.phase = .starting → child.overLimit maxClients = true →
        maxClients ≤ ahead) ∧
      Backed maxClients
        (ahead + if child.admitted maxClients then 1 else 0) rest

namespace Backed

variable {ahead : Nat} {children earlier later : List ChildProc}
variable {child : ChildProc}

theorem split (hbacked : Backed maxClients ahead (earlier ++ child :: later))
    (hphase : child.phase = .starting)
    (hover : child.overLimit maxClients = true) :
    maxClients ≤ ahead + earlier.countP (ChildProc.admitted maxClients) := by
  induction earlier generalizing ahead with
  | nil =>
      have hle := hbacked.1 hphase hover
      simpa using hle
  | cons first rest ih =>
      have hrest := ih hbacked.2
      rw [List.countP_cons]
      push_cast at hrest ⊢
      omega

theorem snoc (hbacked : Backed maxClients ahead children)
    (hnew : child.phase = .starting → child.overLimit maxClients = true →
      maxClients ≤ ahead + children.countP (ChildProc.admitted maxClients)) :
    Backed maxClients ahead (children ++ [child]) := by
  induction children generalizing ahead with
  | nil => exact ⟨by simpa using hnew, trivial⟩
  | cons first rest ih =>
      refine ⟨hbacked.1, ih hbacked.2 ?_⟩
      intro hphase hover
      have hle := hnew hphase hover
      rw [List.countP_cons] at hle
      push_cast at hle ⊢
      omega

/-- Relabelling keeps this if no child is admitted or about to be refused that
was not before. -/
theorem relabel {label : ChildProc → ChildProc}
    (hbacked : Backed maxClients ahead children)
    (hadmitted : ∀ child ∈ children,
      (label child).admitted maxClients = child.admitted maxClients)
    (hrefused : ∀ child ∈ children, (label child).phase = .starting →
      label child = child) :
    Backed maxClients ahead (children.map label) := by
  induction children generalizing ahead with
  | nil => trivial
  | cons first rest ih =>
      refine ⟨?_, ?_⟩
      · intro hphase hover
        have hsame := hrefused first List.mem_cons_self hphase
        rw [hsame] at hphase hover
        exact hbacked.1 hphase hover
      · rw [hadmitted first List.mem_cons_self]
        exact ih hbacked.2
          (fun child hchild => hadmitted child (List.mem_cons_of_mem _ hchild))
          (fun child hchild => hrefused child (List.mem_cons_of_mem _ hchild))

/-- Where nobody is about to be refused nothing is asked. -/
theorem of_none
    (hnone : ∀ child ∈ children, child.phase = .starting →
      child.overLimit maxClients = false) :
    Backed maxClients ahead children := by
  induction children generalizing ahead with
  | nil => trivial
  | cons first rest ih =>
      refine ⟨?_, ih fun child hchild =>
        hnone child (List.mem_cons_of_mem _ hchild)⟩
      intro hphase hover
      rw [hnone first List.mem_cons_self hphase] at hover
      cases hover

/-- An exited child backs no refusal. -/
theorem erase {pid : TgPid} (hbacked : Backed maxClients ahead children) :
    Backed maxClients ahead
      (children.eraseP (MainState.isZombie pid)) := by
  induction children generalizing ahead with
  | nil => trivial
  | cons first rest ih =>
      by_cases hzombie : MainState.isZombie pid first = true
      · rw [List.eraseP_cons_of_pos hzombie]
        rw [MainState.isZombie, Bool.and_eq_true, beq_iff_eq, beq_iff_eq]
          at hzombie
        have hadmitted : first.admitted maxClients = false := by
          rw [ChildProc.admitted, hzombie.2]
        have hrest := hbacked.2
        rwa [hadmitted] at hrest
      · rw [List.eraseP_cons_of_neg hzombie]
        exact ⟨hbacked.1, ih hbacked.2⟩

end Backed

namespace MainState

variable {s s' : MainState} {act : Act}

/-- The limit check leaves no child before it. -/
theorem backed_check {ahead : Nat} {children : List ChildProc} (pid : TgPid)
    (hbacked : Backed maxClients ahead children) :
    Backed maxClients ahead (children.map fun child =>
      if child.pid = pid then child.check maxClients else child) := by
  refine hbacked.relabel ?_ ?_
  · intro child _
    split <;> simp
  · intro child _ hphase
    split at hphase
    · rw [ChildProc.check] at hphase ⊢
      split at hphase
      · simp only at hphase
        split at hphase <;> cases hphase
      · rename_i hnot
        simp [hnot]
    · rename_i hother
      rw [if_neg hother]

/-- A child that exits is not admitted, or nobody is about to be refused. -/
theorem backed_exit {pid : TgPid} (hbacked : Backed maxClients 0 s.children)
    (hexit : s.refusing maxClients = false ∨ s.admits maxClients pid = false) :
    Backed maxClients 0 (s.children.map fun child =>
      if child.pid = pid then child.quit else child) := by
  rcases hexit with hnone | hother
  · rw [refusing, List.any_eq_false] at hnone
    apply Backed.of_none
    intro child hchild hphase
    obtain ⟨before, hbefore, rfl⟩ := List.mem_map.mp hchild
    split at hphase
    · cases hphase
    · rename_i hne
      rw [if_neg hne]
      have hunder := hnone before hbefore
      simpa [hphase] using hunder
  · rw [admits, List.any_eq_false] at hother
    refine hbacked.relabel ?_ ?_
    · intro child hchild
      split
      · rename_i hpid
        have hout := hother child hchild
        simpa [hpid] using hout
      · rfl
    · intro child _ hphase
      split at hphase
      · cases hphase
      · rename_i hne
        rw [if_neg hne]

/-- Table and refusals are in order. -/
structure Justified (maxClients : Int) (s : MainState) : Prop where
  table : s.Consistent
  backed : Backed maxClients 0 s.children

theorem Justified.step (hjust : s.Justified maxClients)
    (hcalm : CalmReaping s act) (htimely : TimelyReaping maxClients s act)
    (hstep : acceptStep maxClients s act = some s') :
    s'.Justified maxClients := by
  refine ⟨hjust.table.step hcalm hstep, ?_⟩
  have hbacked := hjust.backed
  cases act with
  | accept sockfd ip sinPort pipes =>
      obtain ⟨_, rfl | rfl⟩ := accept_cases hstep <;> exact hbacked
  | fork cpid =>
      obtain ⟨sockfd, pClient, pipes, hpc, ⟨_, rfl⟩ | ⟨hpos, hnew, rfl⟩⟩ :=
        fork_cases hstep
      · exact hbacked
      · have hcounts := hjust.table.counts
        rw [countBound, hpc] at hcounts
        dsimp only at hcounts
        refine hbacked.snoc fun _ hover => ?_
        rw [ChildProc.overLimit, decide_eq_true_eq] at hover
        dsimp only at hover
        rcases htimely with hneg | hroom | hfull
        · exact absurd hneg (Int.lt_asymm hpos)
        · omega
        · simpa using hfull
  | advance addr =>
      rw [(countBound_advanced (advance_cases hstep)).1]
      exact hbacked
  | check pid =>
      obtain rfl := check_eq hstep
      exact backed_check pid hbacked
  | exit pid =>
      obtain rfl := exit_eq hstep
      exact backed_exit hbacked htimely
  | sigchld rounds =>
      refine handle_preserves (P := fun _ s => Backed maxClients 0 s.children)
        ?_ hbacked hstep
      intro round rest s s' hbacked hreap
      rw [reap_children hreap]
      exact hbacked.erase

end MainState

/-- In a run in which the handler reaps where that does no harm, and in time,
a child is refused only while `maxClients` earlier ones that are not refused
are alive. -/
theorem refused_of_full {s : MainState}
    (hreach : (acceptMachine maxClients).GuardedReachable
      (fun s act => CalmReaping s act ∧ TimelyReaping maxClients s act) s)
    {earlier later : List ChildProc} {child : ChildProc}
    (hchildren : s.children = earlier ++ child :: later)
    (hstarting : child.phase = .starting)
    (hrefused : (child.check maxClients).phase = .exited) :
    maxClients ≤ earlier.countP (ChildProc.admitted maxClients) := by
  have hjust : s.Justified maxClients := by
    refine hreach.invariant ?_ ?_
    · exact ⟨MainState.initial_consistent, trivial⟩
    · exact fun _ _ _ hjust hguard hstep =>
        hjust.step hguard.1 hguard.2 hstep
  have hover : child.overLimit maxClients = true := by
    by_contra hunder
    rw [ChildProc.check, if_pos hstarting] at hrefused
    simp [hunder] at hrefused
  have hbacked := hjust.backed
  rw [hchildren] at hbacked
  have hfull := hbacked.split hstarting hover
  simpa using hfull

namespace AcceptRefusal

open AcceptTable (connect reapOne)

/-- One client is served; the next one is refused while it is. -/
def fullRun : List Act :=
  connect 101 ++ [.check 101] ++ List.replicate 6 (.advance 1) ++ connect 102

/-- The refused client is entered, the served one quits and is reaped, and a
third one connects before the second comes to the check. -/
def blockedRun : List Act :=
  fullRun ++ List.replicate 7 (.advance 2) ++ [.exit 101, reapOne 101] ++
    connect 103 ++ [.check 102]

theorem refused_of_full_one :
    ∃ s, (acceptMachine 1).run .initial fullRun = some s ∧
      s.children = [⟨101, 0, .serving⟩, ⟨102, 1, .starting⟩] ∧
      (1 : Int) ≤ [(⟨101, 0, .serving⟩ : ChildProc)].countP
        (ChildProc.admitted 1) := by
  have hreach : ∃ s, (acceptMachine 1).run .initial fullRun = some s ∧
      s.children = [⟨101, 0, .serving⟩, ⟨102, 1, .starting⟩] :=
    ⟨_, rfl, rfl⟩
  obtain ⟨s, hrun, hchildren⟩ := hreach
  have hsplit : s.children =
      [⟨101, 0, .serving⟩] ++ ⟨102, 1, .starting⟩ :: [] := hchildren
  exact ⟨s, hrun, hchildren,
    refused_of_full ⟨fullRun, by decide, hrun⟩ hsplit rfl rfl⟩

/-- The third client is refused although nobody is served. -/
theorem refused_empty :
    (∃ s, (acceptMachine 1).run .initial blockedRun = some s ∧
      s.children = [⟨102, 1, .exited⟩, ⟨103, 1, .starting⟩] ∧
      (ChildProc.check 1 ⟨103, 1, .starting⟩).phase = .exited) ∧
    ¬ ∀ s, (acceptMachine 1).Reachable s →
      ∀ earlier child later, s.children = earlier ++ child :: later →
        child.phase = .starting → (child.check 1).phase = .exited →
        (1 : Int) ≤ earlier.countP (ChildProc.admitted 1) := by
  refine ⟨⟨_, rfl, rfl, rfl⟩, fun hclaim => ?_⟩
  have hrun : ∃ s, (acceptMachine 1).run .initial blockedRun = some s ∧
      s.children = [⟨102, 1, .exited⟩] ++ ⟨103, 1, .starting⟩ :: [] :=
    ⟨_, rfl, rfl⟩
  obtain ⟨s, hrun, hchildren⟩ := hrun
  have hle := hclaim s ⟨blockedRun, hrun⟩ _ _ _ hchildren rfl rfl
  exact absurd hle (by decide)

end AcceptRefusal

end TgServer
