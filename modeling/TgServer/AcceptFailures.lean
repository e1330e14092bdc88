/-
One call of `do_accept` when `accept`, `pipe` and `fork` can fail: what it
leaves open when it gives up, and which ends of the pipes it goes on to use
although they were never made.
-/
import TgServer.AcceptAtomic
import TgServer.ClientCount
import TgServer.DescriptorRuns

namespace TgServer

open Bytes DescriptorTable

/-- What the kernel answers the main process during the call: `none` is a call
that fails, and the two arrays then hold what `stack` says. -/
structure KernelAnswers where
  accepted : Option (Int × List Byte × Int)
  fd : Option (Int × Int)
  fd1 : Option (Int × Int)
  stack : Pipes
  cpid : TgPid
  parent : cpid ≠ 0

/-- A process's end of `do_accept`: `none` among the numbers that were closed
or recorded is an element of an array that no `pipe` has set. -/
structure AcceptOutcome where
  ret : Int
  globals : Globals
  files : Table OpenFile
  closed : List (Option Int)
  recorded : List (Option Int)

namespace KernelAnswers

variable (k : KernelAnswers)

/-- The arrays behind the two calls of `pipe`. -/
def pipes : Pipes := ⟨k.fd.getD k.stack.fd, k.fd1.getD k.stack.fd1⟩

def piped : Bool × Bool := (k.fd.isSome, k.fd1.isSome)

/-- What the call opens for connection `n`. -/
def opened (n : Nat) : List (Int × OpenFile) :=
  (k.accepted.map fun (sockfd, _, _) =>
    FdState.connectionFds n sockfd k.pipes k.piped).getD []

/-- The ends the child closes and those it records. -/
def childEnds : List (Option Int) :=
  [k.fd1.map Prod.fst, k.fd.map Prod.snd, k.fd.map Prod.fst,
    k.fd1.map Prod.snd]

end KernelAnswers

/-- `do_accept` in the main process; `n` is the number of the connection. -/
def doAccept (n : Nat) (g : Globals) (files : Table OpenFile)
    (k : KernelAnswers) : Option AcceptOutcome :=
  match k.accepted with
  | none => some ⟨-1, g, files, [], []⟩
  | some (sockfd, ip, sinPort) => do
      let pClient := setClient initClient ip sinPort
      let files := openAll files (k.opened n)
      if 0 < k.cpid then
        let calls := [sockfd, k.pipes.fd1.2, k.pipes.fd.1].map FdCall.close
        let files := after files (calls.map FdCall.use)
        let g ← addClient (g.logFds calls) (some (setPipe
          { pClient with pid := k.cpid } k.pipes.fd1.1 k.pipes.fd.2))
        return ⟨0, g, files,
          [some sockfd, k.fd1.map Prod.snd, k.fd.map Prod.fst],
          [k.fd1.map Prod.fst, k.fd.map Prod.snd]⟩
      else return ⟨-1, g, files, [], []⟩

/-- A call that fails leaves nothing behind, and no end of a pipe is used that
was not made, in the main process or in the child. -/
def FailsCleanly (n : Nat) (g : Globals) (files : Table OpenFile)
    (k : KernelAnswers) : Prop :=
  ∃ out, doAccept n g files k = some out ∧
    (out.ret = -1 → out.globals = g ∧
      ∀ entry ∈ k.opened n, out.files entry.1 = none) ∧
    none ∉ out.closed ∧ none ∉ out.recorded ∧
    (k.accepted.isSome → 0 < k.cpid → none ∉ k.childEnds)

section Outcome

variable {n : Nat} {g : Globals} {files : Table OpenFile} {k : KernelAnswers}

/-- Without a connection nothing is opened and nothing changes. -/
theorem failsCleanly_refused (hrefused : k.accepted = none) :
    FailsCleanly n g files k := by
  refine ⟨⟨-1, g, files, [], []⟩, by rw [doAccept, hrefused], ?_,
    List.not_mem_nil, List.not_mem_nil, ?_⟩
  · intro _
    rw [KernelAnswers.opened, hrefused]
    exact ⟨rfl, fun entry hentry => absurd hentry List.not_mem_nil⟩
  · intro hsome
    rw [hrefused] at hsome
    cases hsome

/-- Where `fork` fails the connection stays open. -/
theorem doAccept_unforked (hfork : ¬ 0 < k.cpid) {sockfd sinPort : Int}
    {ip : List Byte} (haccepted : k.accepted = some (sockfd, ip, sinPort)) :
    doAccept n g files k =
      some ⟨-1, g, openAll files (k.opened n), [], []⟩ := by
  rw [doAccept, haccepted]
  exact if_neg hfork

theorem not_failsCleanly_unforked (hfork : ¬ 0 < k.cpid)
    (haccepted : k.accepted.isSome)
    (hfresh : Fresh files ((k.opened n).map Prod.fst)) :
    ¬ FailsCleanly n g files k := by
  obtain ⟨⟨sockfd, ip, sinPort⟩, haccepted⟩ :=
    Option.isSome_iff_exists.mp haccepted
  rintro ⟨out, hout, hclean, -⟩
  rw [doAccept_unforked hfork haccepted, Option.some.injEq] at hout
  subst hout
  have hsocket : (sockfd, OpenFile.connection n) ∈ k.opened n := by
    rw [KernelAnswers.opened, haccepted]
    exact List.mem_cons_self
  have hclosed := (hclean rfl).2 _ hsocket
  have hopen := openAll_of_mem files hfresh.1 hsocket
  exact Option.some_ne_none _ (hopen.symm.trans hclosed)

/-- With a child the record is entered in the table. -/
theorem doAccept_forked (hfork : 0 < k.cpid) {sockfd sinPort : Int}
    {ip : List Byte} (haccepted : k.accepted = some (sockfd, ip, sinPort))
    {g' : Globals}
    (hadd : addClient
      (g.logFds ([sockfd, k.pipes.fd1.2, k.pipes.fd.1].map FdCall.close))
      (some (setPipe { setClient initClient ip sinPort with pid := k.cpid }
        k.pipes.fd1.1 k.pipes.fd.2)) = some g') :
    ∃ files', doAccept n g files k = some ⟨0, g', files',
      [some sockfd, k.fd1.map Prod.snd, k.fd.map Prod.fst],
      [k.fd1.map Prod.fst, k.fd.map Prod.snd]⟩ := by
  rw [doAccept, haccepted]
  simp only [if_pos hfork, hadd, Option.bind_eq_bind, Option.bind_some]
  exact ⟨_, rfl⟩

/-- With a child the call is clean exactly if both pipes were made. -/
theorem failsCleanly_forked (hlive : g.Live) (hfork : 0 < k.cpid)
    (haccepted : k.accepted.isSome) :
    FailsCleanly n g files k ↔ k.fd.isSome ∧ k.fd1.isSome := by
  constructor
  · rintro ⟨-, -, -, -, -, hchild⟩
    have hends := hchild haccepted hfork
    simp only [KernelAnswers.childEnds, List.mem_cons, List.not_mem_nil,
      not_or, or_false] at hends
    constructor <;> refine Option.isSome_iff_ne_none.mpr fun heq => ?_
    · exact hends.2.1 (by rw [heq]; rfl)
    · exact hends.1 (by rw [heq]; rfl)
  · rintro ⟨hfd, hfd1⟩
    obtain ⟨⟨sockfd, ip, sinPort⟩, haccepted⟩ :=
      Option.isSome_iff_exists.mp haccepted
    obtain ⟨fd, hfd⟩ := Option.isSome_iff_exists.mp hfd
    obtain ⟨fd1, hfd1⟩ := Option.isSome_iff_exists.mp hfd1
    have hclosing : (g.logFds
        ([sockfd, k.pipes.fd1.2, k.pipes.fd.1].map FdCall.close)).Live :=
      ⟨hlive.fits, hlive.context⟩
    obtain ⟨g', hadd, -⟩ := addClient_count hclosing
      (setPipe { setClient initClient ip sinPort with pid := k.cpid }
        k.pipes.fd1.1 k.pipes.fd.2)
    obtain ⟨files', hout⟩ := doAccept_forked hfork haccepted hadd
    refine ⟨_, hout, ?_, ?_, ?_, ?_⟩
    · intro hret
      cases hret
    · simp [hfd, hfd1]
    · simp [hfd, hfd1]
    · simp [hfd, hfd1, KernelAnswers.childEnds]

end Outcome

section Machine

variable {s mid last : FdState} {k : KernelAnswers} {sockfd sinPort : Int}
  {ip : List Byte} {stale : Addr → TGClient}

/-- The steps of the main process from `accept` to a `fork` that fails. -/
theorem doAccept_fork_failed (ctx : TGContext) (hsocket : sockfd ≠ -1)
    (haccepted : k.accepted = some (sockfd, ip, sinPort))
    (haccept : s.accept sockfd ip sinPort k.pipes k.piped = some mid)
    (hfork : mid.fork k.cpid stale = some last) (hfailed : k.cpid < 0) :
    doAccept s.connections (s.main.globals ctx) s.files k =
      some ⟨-1, last.main.globals ctx, last.files, [], []⟩ := by
  rw [doAccept_unforked (Int.lt_asymm hfailed) haccepted]
  obtain ⟨-, -, ⟨hrefused, -⟩ | ⟨-, -, rfl⟩⟩ := FdState.accept_cases haccept
  · exact absurd hrefused hsocket
  · obtain ⟨-, _, _, _, -, ⟨-, rfl⟩ | ⟨hforked, -⟩⟩ := FdState.fork_cases hfork
    · rw [KernelAnswers.opened, haccepted]
      rfl
    · exact absurd hforked (Int.lt_asymm hfailed)

/-- The steps of the main process from `accept` to the end of `addClient`. -/
theorem doAccept_forked_steps (ctx : TGContext) (hsocket : sockfd ≠ -1)
    (haccepted : k.accepted = some (sockfd, ip, sinPort))
    (haccept : s.accept sockfd ip sinPort k.pipes k.piped = some mid)
    (hfork : mid.fork k.cpid stale = some last) (hforked : 0 < k.cpid)
    (hcons : last.main.Consistent) {addr : Addr}
    (hfresh : last.main.records addr = none) :
    ∃ done out, last.main.Proceeds done ∧ done.pc = .select ∧
      doAccept s.connections (s.main.globals ctx) s.files k = some out ∧
      out.ret = 0 ∧ out.globals = done.globals ctx := by
  obtain ⟨-, -, ⟨hrefused, -⟩ | ⟨-, -, rfl⟩⟩ := FdState.accept_cases haccept
  · exact absurd hrefused hsocket
  obtain ⟨-, _, _, _, hpc, ⟨hfailed, -⟩ | ⟨-, _, _, -, rfl⟩⟩ :=
    FdState.fork_cases hfork
  · exact absurd hforked (Int.lt_asymm hfailed)
  cases hpc
  have hclosed := hcons.advanced (.record rfl)
  obtain ⟨done, hproceeds, hselect, hadd⟩ :=
    hclosed.proceeds_addClient ctx rfl hfresh
  obtain ⟨files', hout⟩ := doAccept_forked (n := s.connections)
    (g := s.main.globals ctx) hforked haccepted hadd
  exact ⟨done, _, .step 0 rfl hproceeds, hselect, hout, rfl, rfl⟩

end Machine

/-- The call is clean exactly where no connection is accepted, or `fork` and
both calls of `pipe` succeed: after `accept` there is no way back. -/
theorem failsCleanly_iff (n : Nat) {g : Globals} (hlive : g.Live)
    {files : Table OpenFile} (k : KernelAnswers)
    (hfresh : Fresh files ((k.opened n).map Prod.fst)) :
    FailsCleanly n g files k ↔
      k.accepted = none ∨ 0 < k.cpid ∧ k.fd.isSome ∧ k.fd1.isSome := by
  constructor
  · intro hclean
    refine or_iff_not_imp_left.mpr fun hsocket => ?_
    have haccepted := Option.isSome_iff_ne_none.mpr hsocket
    by_cases hfork : 0 < k.cpid
    · exact ⟨hfork, (failsCleanly_forked hlive hfork haccepted).mp hclean⟩
    · exact absurd hclean (not_failsCleanly_unforked hfork haccepted hfresh)
  · rintro (hrefused | ⟨hfork, hpipes⟩)
    · exact failsCleanly_refused hrefused
    · cases haccepted : k.accepted with
      | none => exact failsCleanly_refused haccepted
      | some connection =>
          exact (failsCleanly_forked hlive hfork
            (by rw [haccepted]; rfl)).mpr hpipes

namespace AcceptFailures

def table : Globals := init Globals.initial

theorem table_live : table.Live := ⟨rfl, Option.some_ne_none _⟩

/-- The listening socket and the FIFO. -/
def files : Table OpenFile := fun fd =>
  if fd = 3 then some .listening else if fd = 4 then some .adminPipe else none

def answers (fd fd1 : Option (Int × Int)) (cpid : TgPid) (parent : cpid ≠ 0) :
    KernelAnswers :=
  ⟨some (5, ascii "10.0.0.9", 80), fd, fd1, ⟨(-1, 32767), (0, 21)⟩, cpid,
    parent⟩

/-- Everything succeeds. -/
theorem failsCleanly_iff_forked :
    FailsCleanly 0 table files
      (answers (some (6, 7)) (some (8, 9)) 100 (by decide)) :=
  (failsCleanly_iff 0 table_live _ (by decide)).mpr
    (Or.inr ⟨by decide, rfl, rfl⟩)

/-- Without a child the socket and the four ends stay open; with a child and
without the first pipe the parent closes and records what the array holds. -/
theorem failsCleanly_leaks :
    (∃ out, doAccept 0 table files
        (answers (some (6, 7)) (some (8, 9)) (-1) (by decide)) = some out ∧
      out.ret = -1 ∧ ∀ fd ∈ [5, 6, 7, 8, 9], (out.files fd).isSome) ∧
    ¬ FailsCleanly 0 table files
      (answers (some (6, 7)) (some (8, 9)) (-1) (by decide)) ∧
    ∃ out, doAccept 0 table files
        (answers none (some (8, 9)) 100 (by decide)) = some out ∧
      none ∈ out.closed ∧ none ∈ out.recorded := by
  refine ⟨⟨_, rfl, rfl, by decide⟩, ?_, _, rfl, by decide, by decide⟩
  rintro ⟨out, hout, hclean, -⟩
  cases hout
  have hopen := (hclean rfl).2 (5, .connection 0) (by decide)
  cases hopen

end AcceptFailures

end TgServer
