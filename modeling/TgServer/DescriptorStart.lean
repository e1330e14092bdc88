/-
The descriptors from `main` to the loop of `startListen`: `init_context`
rejects exactly the command lines with a malformed pair in front of the first
empty argument, and touches no descriptor otherwise; the numbers in the
context are 0 until `startListen` sets them.
-/
import TgServer.DescriptorRuns

namespace TgServer

open Bytes Transition DescriptorTable

/-- The arguments behind the program's name are rejected. -/
def rejects : List (List Byte) → Bool
  | [] => false
  | [pPar] => pPar != []
  | pPar :: pVal :: argv =>
      pPar != [] && (badPair pPar pVal || rejects argv)

theorem rejects_good {pPar pVal : List Byte} (hsome : ¬pPar = [])
    (hgood : ¬badPair pPar pVal = true) (argv : List (List Byte)) :
    rejects (pPar :: pVal :: argv) = rejects argv := by
  simp [rejects, hsome, hgood]

namespace Server

/-- No call has been made, and the context has its first numbers. -/
structure Quiet (s : Server) : Prop where
  calls : s.globals.fdCalls = []
  context : ∃ ctx, s.globals.gContext = some ctx ∧ ctx.localAdminfd = 0

variable {s s' : Server}

theorem Quiet.setContext {store : TGContext → TGContext} (hquiet : s.Quiet)
    (hset : s.setContext store = some s')
    (hstore : ∀ ctx, (store ctx).localAdminfd = ctx.localAdminfd) :
    s'.Quiet := by
  obtain ⟨hcalls, ctx, hctx, hadmin⟩ := hquiet
  rw [Server.setContext, hctx, Option.map_some, Option.some.injEq] at hset
  subst hset
  exact ⟨hcalls, store ctx, rfl, (hstore ctx).trans hadmin⟩

theorem Quiet.setParameters {name para : List Byte} (hquiet : s.Quiet)
    (hset : s.setParameters name para = some s') : s'.Quiet := by
  obtain ⟨g, -, hsame⟩ := Option.bind_eq_some_iff.mp hset
  obtain rfl := Option.some.inj hsame
  exact ⟨hquiet.calls, hquiet.context⟩

theorem Quiet.loadServices {host : Host} {dir : List Byte} (hquiet : s.Quiet)
    (hload : s.loadServices host dir = some s') : s'.Quiet := by
  obtain ⟨g, -, hsame⟩ := Option.bind_eq_some_iff.mp hload
  obtain rfl := Option.some.inj hsame
  exact ⟨hquiet.calls, hquiet.context⟩

theorem Quiet.parseParameter {pPar : Option (List Byte)} {pVal : List Byte}
    (hquiet : s.Quiet) (hparse : TgServer.parseParameter s pPar pVal = some s') :
    s'.Quiet := by
  obtain ⟨par, rfl, -⟩ := Option.bind_eq_some_iff.mp hparse
  rcases parseParameter_cases par pVal with
    hsame | ⟨store, level, hkept, hstored⟩
  · rw [hsame, Option.some.injEq] at hparse
    exact hparse ▸ hquiet
  · rw [hstored, Option.map_eq_some_iff] at hparse
    obtain ⟨mid, hset, rfl⟩ := hparse
    have hnext := hquiet.setContext hset hkept
    exact ⟨hnext.calls, hnext.context⟩

theorem Quiet.confLine {buf : List Byte} (hquiet : s.Quiet)
    (hline : TgServer.confLine s buf = some s') : s'.Quiet := by
  rw [TgServer.confLine] at hline
  split at hline
  · exact Option.some.inj hline ▸ hquiet
  dsimp only at hline
  split at hline
  · exact Option.some.inj hline ▸ hquiet
  split at hline
  · exact hquiet.parseParameter hline
  split at hline
  · exact hquiet.setParameters hline
  · exact Option.some.inj hline ▸ hquiet

theorem Quiet.readConfFile {host : Host} {path : List Byte} (hquiet : s.Quiet)
    (hread : TgServer.readConfFile host path s = some s') : s'.Quiet := by
  rw [TgServer.readConfFile] at hread
  split at hread
  · exact Option.some.inj hread ▸ hquiet
  split at hread
  · exact Option.some.inj hread ▸ hquiet
  · exact foldlM_preserves (P := fun _ mid => mid.Quiet)
      (fun _ _ _ _ hmid hline => hmid.confLine hline) hquiet hread

end Server

/-- The loop of `init_context` ends without a call, or rejects. -/
theorem contextOptions_cases {host : Host} {argv : List (List Byte)}
    {s s' : Server} {flag : Int} (hquiet : s.Quiet)
    (hoptions : contextOptions host argv s = some (flag, s')) :
    rejects argv = true ∧ flag = -1 ∨
      rejects argv = false ∧ flag = 0 ∧ s'.Quiet := by
  have hreject : ∀ {s : Server}, rejectArgv s = some (flag, s') →
      flag = -1 := by
    intro s hreject
    rw [rejectArgv, Option.map_eq_some_iff] at hreject
    obtain ⟨g, -, hsame⟩ := hreject
    exact (congrArg Prod.fst hsame).symm
  fun_induction contextOptions host argv s with
  | case1 s =>
      obtain ⟨rfl, rfl⟩ := Prod.mk.inj (Option.some.inj hoptions)
      exact Or.inr ⟨rfl, rfl, hquiet⟩
  | case2 s =>
      obtain ⟨rfl, rfl⟩ := Prod.mk.inj (Option.some.inj hoptions)
      exact Or.inr ⟨rfl, rfl, hquiet⟩
  | case3 pPar s hsome =>
      exact Or.inl ⟨by simp [rejects, hsome], hreject hoptions⟩
  | case4 pVal argv s =>
      obtain ⟨rfl, rfl⟩ := Prod.mk.inj (Option.some.inj hoptions)
      exact Or.inr ⟨rfl, rfl, hquiet⟩
  | case5 pPar pVal argv s hsome hbad =>
      exact Or.inl ⟨by simp [rejects, hsome, hbad], hreject hoptions⟩
  | case6 pPar pVal argv s hsome hgood _ _ ih =>
      obtain ⟨mid, hmid, hrest⟩ := Option.bind_eq_some_iff.mp hoptions
      rw [rejects_good hsome hgood]
      exact ih mid (hquiet.readConfFile hmid) hrest
  | case7 pPar pVal argv s hsome hgood _ _ _ ih =>
      obtain ⟨mid, hmid, hrest⟩ := Option.bind_eq_some_iff.mp hoptions
      rw [rejects_good hsome hgood]
      exact ih mid (hquiet.loadServices hmid) hrest
  | case8 pPar pVal argv s hsome hgood _ _ _ _ ih =>
      rw [rejects_good hsome hgood]
      exact ih hquiet hoptions
  | case9 pPar pVal argv s hsome hgood _ _ _ _ ih =>
      obtain ⟨mid, hmid, hrest⟩ := Option.bind_eq_some_iff.mp hoptions
      rw [rejects_good hsome hgood]
      exact ih mid (hquiet.parseParameter hmid) hrest

theorem initContext_cases {host : Host} {argv : List (List Byte)}
    {server : Server} {flag : Int}
    (hinit : initContext host argv .initial = some (flag, server)) :
    rejects (argv.drop 1) = true ∧ flag = -1 ∨
      rejects (argv.drop 1) = false ∧ flag = 0 ∧ server.Quiet := by
  obtain ⟨started, hstart, hrest⟩ := Option.bind_eq_some_iff.mp hinit
  obtain ⟨dir, -, hload⟩ := Option.bind_eq_some_iff.mp hstart
  have hquiet : Server.Quiet { Server.initial with
      globals := init Server.initial.globals } := ⟨rfl, _, rfl, rfl⟩
  have hstarted := hquiet.loadServices hload
  have hoptions : ∃ mid : Server, mid.Quiet ∧
      contextOptions host (argv.drop 1) mid = some (flag, server) := by
    cases argv with
    | nil => simp at hrest
    | cons program argv =>
        dsimp only at hrest
        by_cases hlone : (program :: argv).length = 1
        · rw [if_pos hlone] at hrest
          obtain ⟨path, -, hconf⟩ := Option.bind_eq_some_iff.mp hrest
          obtain ⟨mid, hread, hlast⟩ := Option.bind_eq_some_iff.mp hconf
          exact ⟨mid, hstarted.readConfFile hread, hlast⟩
        · rw [if_neg hlone] at hrest
          exact ⟨started, hstarted, hrest⟩
  obtain ⟨mid, hmid, hlast⟩ := hoptions
  exact contextOptions_cases hmid hlast

namespace FdState

variable {s : FdState} {inherited : Int → Bool}

theorem initial_files {fd : Int}
    (hopen : ((initial inherited).files fd).isSome = true) :
    (initial inherited).files fd = some .inherited := by
  change (if inherited fd then some OpenFile.inherited else none).isSome = true
    at hopen
  change (if inherited fd then some OpenFile.inherited else none) = _
  by_cases hinherited : inherited fd = true
  · rw [if_pos hinherited]
  · rw [if_neg hinherited] at hopen
    cases hopen

theorem initial_exact (inherited : Int → Bool) :
    Exactly (·.ofClient = true) (initial inherited).files [] where
  once := List.nodup_nil
  held := fun _ hfd => by cases hfd
  covers := fun hfile hclient => by
    rw [initial_files (by rw [hfile]; rfl), Option.some.injEq] at hfile
    cases hfile.symm ▸ hclient

/-- What is open and was not inherited has been opened since. -/
theorem initial_opened {opened : List (Int × OpenFile)}
    (hfresh : Fresh (initial inherited).files (opened.map Prod.fst)) {fd : Int}
    {file : OpenFile} (hown : file ≠ .inherited)
    (hfile : openAll (initial inherited).files opened fd = some file) :
    (fd, file) ∈ opened := by
  refine (openAll_some _ hfresh hfile).resolve_right fun hold => ?_
  have hinherited := initial_files (Option.isSome_of_eq_some hold)
  exact hown (Option.some.inj (hold.symm.trans hinherited))

/-- What `startListen` opens in front of its loop. -/
def startFds (listenfd : Int) (adminfd : Option Int) : List (Int × OpenFile) :=
  (listenfd, .listening) ::
    (adminfd.map fun fd => (fd, OpenFile.adminPipe)).toList

/-- The listening socket and the FIFO are open where the context says; where
there is no FIFO, the number kept for it was open before. -/
theorem initial_grounded {listenfd localAdminfd : Int} {adminfd : Option Int}
    (hfresh : Fresh (initial inherited).files
      ((startFds listenfd adminfd).map Prod.fst))
    (hadmin : adminfd = some localAdminfd ∨ adminfd = none ∧
      (((initial inherited).files localAdminfd).isSome = true ∨
        listenfd = localAdminfd)) (ctx : TGContext) :
    Grounded (openAll (initial inherited).files (startFds listenfd adminfd))
      { ctx with listenfd := listenfd, localAdminfd := localAdminfd } := by
  have hlisten : openAll (initial inherited).files (startFds listenfd adminfd)
      listenfd = some .listening :=
    openAll_of_mem _ hfresh.1 List.mem_cons_self
  refine ⟨hlisten, fun hfile => ?_, ?_, fun hfile => ?_⟩
  · have hnew := initial_opened hfresh (by decide) hfile
    cases adminfd <;> simpa [startFds] using hnew
  · rcases hadmin with rfl | ⟨rfl, hopen | rfl⟩
    · exact ⟨.adminPipe, openAll_of_mem _ hfresh.1 (by simp [startFds]), rfl⟩
    · exact ⟨.inherited, openAll_other _ hfresh (initial_files hopen), rfl⟩
    · exact ⟨.listening, hlisten, rfl⟩
  · have hnew := initial_opened hfresh (by decide) hfile
    rcases hadmin with rfl | ⟨rfl, -⟩
    · simpa [startFds] using hnew
    · simp [startFds] at hnew

/-- `main` ends, or comes to the loop with everything in its place. -/
theorem start_cases {host : Host} {argv : List (List Byte)} {listenfd : Int}
    {adminfd : Option Int}
    (horderly : Orderly (.initial inherited)
      (.start host argv listenfd adminfd))
    (hstep : (initial inherited).start host argv listenfd adminfd = some s) :
    s.phase = .ended ∧ rejects (argv.drop 1) = true ∨
      ∃ ctx, s.phase = .loop ∧ s.Sound ctx [] ∧ s.misuses = [] ∧
        (∀ fd, s.files fd ≠ some .replyPipe) ∧
        (adminfd.isSome ∨ inherited 0 = true →
          ctx.localAdminfd ≠ ctx.listenfd) := by
  rw [start, if_pos (show (initial inherited).phase = .boot from rfl)] at hstep
  obtain ⟨⟨flag, server⟩, hinit, hrest⟩ := Option.bind_eq_some_iff.mp hstep
  rcases initContext_cases hinit with ⟨hrejects, rfl⟩ | ⟨-, rfl, hquiet⟩
  · obtain ⟨g, -, hsame⟩ := Option.bind_eq_some_iff.mp hrest
    obtain rfl := Option.some.inj hsame
    exact Or.inl ⟨rfl, hrejects⟩
  obtain ⟨hcalls, ctx, hctx, hadmin⟩ := hquiet
  dsimp only at hrest
  rw [if_neg (by decide), hctx, hcalls] at hrest
  obtain ⟨mid, hopens, hsame⟩ :=
    Option.bind_eq_some_iff.mp ((Option.bind_some ..).symm.trans hrest)
  obtain ⟨hfresh, rfl⟩ := opens_cases hopens
  obtain rfl := Option.some.inj hsame
  have hdefault : adminfd = some (adminfd.getD ctx.localAdminfd) ∨
      adminfd = none ∧
        (((initial inherited).files (adminfd.getD ctx.localAdminfd)).isSome =
          true ∨ listenfd = adminfd.getD ctx.localAdminfd) := by
    cases adminfd with
    | some fd => exact Or.inl rfl
    | none =>
        refine Or.inr ⟨rfl, ?_⟩
        rw [Option.getD_none, hadmin]
        exact horderly.resolve_left fun hnone => by cases hnone
  refine Or.inr ⟨_, rfl, ⟨rfl, rfl, MainState.initial_pointers,
    fun _ => ⟨List.length_replicate, trivial⟩, ?_,
    initial_grounded hfresh hdefault ctx, fun hpc => by cases hpc⟩, rfl, ?_, ?_⟩
  · refine (initial_exact inherited).opens_other hfresh ?_
    cases adminfd <;> simp [OpenFile.ofClient]
  · intro fd hfile
    have hnew := initial_opened hfresh (by decide) hfile
    cases adminfd <;> simp at hnew
  · intro hadminfd
    cases adminfd with
    | some fd =>
        have hdistinct : [listenfd, fd].Nodup := hfresh.1
        simpa [eq_comm] using hdistinct
    | none =>
        have hopen := hadminfd.resolve_left fun hnone => by cases hnone
        change ctx.localAdminfd ≠ listenfd
        rw [hadmin]
        rintro rfl
        have hnone := (hfresh.2 0 List.mem_cons_self).2
        change (if inherited 0 then some OpenFile.inherited else none).isNone =
          true at hnone
        rw [if_pos hopen] at hnone
        cases hnone

/-- The first step is the start. -/
theorem initial_step {act : FdAct}
    (hstep : fdStep (.initial inherited) act = some s) :
    ∃ host argv listenfd adminfd, act = .start host argv listenfd adminfd := by
  cases act with
  | start host argv listenfd adminfd => exact ⟨_, _, _, _, rfl⟩
  | accept sockfd ip sinPort pipes piped => cases (accept_cases hstep).1
  | fork cpid stale =>
      change FdState.fork _ cpid stale = some s at hstep
      cases (fork_cases hstep).1
  | main act =>
      obtain ⟨ctx, main, hctx, -⟩ := advance_cases (main_cases hstep).1
      cases hctx
  | admin octets stack outFd => cases (admin_cases hstep).1
  | handle pid registry turns => cases hstep
  | terminate pid => cases hstep
  | stop rounds last => cases hstep
  | shut round => cases hstep

/-- A process that has ended makes no more steps, its children may. -/
theorem ended_cases {s s' : FdState} {act : FdAct} (hphase : s.phase = .ended)
    (hstep : fdStep s act = some s') :
    (∃ children, s' = { s with
      main := { s.main with children := children } }) ∨
    (∃ pid registry turns, act = .handle pid registry turns) ∨
    ∃ pid, act = .terminate pid := by
  cases act with
  | start host argv listenfd adminfd =>
      cases hphase.symm.trans (start_frame hstep).1
  | accept sockfd ip sinPort pipes piped =>
      cases hphase.symm.trans (accept_cases hstep).1
  | fork cpid stale =>
      change s.fork cpid stale = some s' at hstep
      cases hphase.symm.trans (fork_cases hstep).1
  | main act =>
      obtain ⟨hadvance, ⟨-, hloop⟩ | hchild | ⟨-, hbusy⟩⟩ := main_cases hstep
      · cases hphase.symm.trans hloop
      · exact Or.inl (child_step hchild hadvance)
      · rw [hphase] at hbusy
        cases hbusy
  | admin octets stack outFd => cases hphase.symm.trans (admin_cases hstep).1
  | handle pid registry turns => exact Or.inr (Or.inl ⟨pid, registry, turns, rfl⟩)
  | terminate pid => exact Or.inr (Or.inr ⟨pid, rfl⟩)
  | stop rounds last =>
      change s.stop rounds last = some s' at hstep
      rw [stop, if_neg (by simp [hphase])] at hstep
      cases hstep
  | shut round =>
      change s.shut round = some s' at hstep
      rw [shut, hphase] at hstep
      cases hstep

theorem ended_step {s s' : FdState} {act : FdAct} (hphase : s.phase = .ended)
    (hstep : fdStep s act = some s') : s'.phase = .ended := by
  rcases ended_cases hphase hstep with
    ⟨children, rfl⟩ | ⟨pid, registry, turns, rfl⟩ | ⟨pid, rfl⟩
  · exact hphase
  · obtain ⟨_, _, children, rfl⟩ := handle_cases hstep
    exact hphase
  · obtain ⟨children, misuses, rfl⟩ := terminate_cases hstep
    exact hphase

/-- The loop is entered once. -/
theorem phase_step {s s' : FdState} {act : FdAct} (hboot : s.phase ≠ .boot)
    (hstep : fdStep s act = some s') :
    s'.phase ≠ .boot ∧ (s'.phase = .loop → s.phase = .loop) := by
  cases act with
  | start host argv listenfd adminfd =>
      exact absurd (start_frame hstep).1 hboot
  | accept sockfd ip sinPort pipes piped =>
      obtain ⟨hphase, -, ⟨-, rfl⟩ | ⟨-, -, rfl⟩⟩ := accept_cases hstep
      · exact ⟨hboot, id⟩
      · exact ⟨hboot, id⟩
  | fork cpid stale =>
      change s.fork cpid stale = some s' at hstep
      obtain ⟨hphase, _, _, _, -, ⟨-, rfl⟩ | ⟨-, _, _, -, rfl⟩⟩ :=
        fork_cases hstep
      · exact ⟨hboot, id⟩
      · exact ⟨hboot, id⟩
  | main act =>
      obtain ⟨_, _, _, _, rfl⟩ := advance_cases (main_cases hstep).1
      exact ⟨hboot, id⟩
  | admin octets stack outFd =>
      obtain ⟨hphase, -, rfl | ⟨-, rfl⟩ | ⟨-, rfl⟩⟩ := admin_cases hstep
      · exact ⟨nofun, fun _ => hphase⟩
      · exact ⟨hboot, id⟩
      · exact ⟨hboot, id⟩
  | handle pid registry turns =>
      obtain ⟨_, _, children, rfl⟩ := handle_cases hstep
      exact ⟨hboot, id⟩
  | terminate pid =>
      obtain ⟨children, misuses, rfl⟩ := terminate_cases hstep
      exact ⟨hboot, id⟩
  | stop rounds last =>
      rw [(stop_frame hstep).1]
      exact ⟨nofun, nofun⟩
  | shut round =>
      obtain ⟨hloop, hboot', -⟩ := shut_frame hstep
      exact ⟨hboot', fun hphase => absurd hphase hloop⟩

theorem Sound.ne_boot {s : FdState} {ctx : TGContext} {leaked : List Int}
    (hsound : s.Sound ctx leaked) : s.phase ≠ .boot := by
  intro hboot
  have hbusy := hsound.busy
  rw [hboot] at hbusy
  cases hbusy

/-- The server has not started, has ended, or holds what is open for clients;
in the loop nothing is leaked. -/
def Tidy (inherited : Int → Bool) (s : FdState) : Prop :=
  s = .initial inherited ∨ s.phase = .ended ∨
    ∃ ctx leaked, s.Sound ctx leaked ∧ (s.phase = .loop → leaked = [])

theorem Tidy.step {s s' : FdState} {act : FdAct} (htidy : s.Tidy inherited)
    (horderly : s.Orderly act) (hforks : act.Forks)
    (hstep : fdStep s act = some s') : s'.Tidy inherited := by
  rcases htidy with rfl | hended | ⟨ctx, leaked, hsound, hnone⟩
  · obtain ⟨host, argv, listenfd, adminfd, rfl⟩ := initial_step hstep
    rcases start_cases horderly hstep with ⟨hended, -⟩ | ⟨ctx, -, hsound, -⟩
    · exact Or.inr (Or.inl hended)
    · exact Or.inr (Or.inr ⟨ctx, [], hsound, fun _ => rfl⟩)
  · exact Or.inr (Or.inl (ended_step hended hstep))
  · rcases hsound.step horderly hstep with hended | ⟨left, hnext, hleft⟩
    · exact Or.inr (Or.inl hended)
    · refine Or.inr (Or.inr ⟨ctx, left ++ leaked, hnext, fun hloop => ?_⟩)
      rw [hleft hloop hforks, hnone ((phase_step hsound.ne_boot hstep).2 hloop)]
      rfl

end FdState

namespace DescriptorStart

/-- Neither plugins nor a configuration file. -/
def host : Host :=
  ⟨none, fun _ => none, fun _ => none, fun _ => none, fun _ => 0,
    fun _ _ => none⟩

/-- The standard streams. -/
def streams (fd : Int) : Bool := decide (0 ≤ fd) && decide (fd ≤ 2)

def begins : FdAct := .start host [ascii "tgserver"] 3 (some 4)

/-- A connection with the five descriptors from `fd` on, up to the child. -/
def connect (fd : Int) (cpid : TgPid) : List FdAct :=
  [.accept fd (ascii "10.0.0.1") 4000 ⟨(fd + 1, fd + 2), (fd + 3, fd + 4)⟩
    (true, true), .fork cpid fun _ => initClient]

def advances (n : Nat) (addr : Addr) : List FdAct :=
  List.replicate n (.main (.advance addr))

/-- Clients are connected and entered, the handler does not run. -/
def clients (n : Nat) : List FdAct :=
  (List.range n).flatMap fun (k : Nat) =>
    connect (5 + 5 * (k : Int)) (101 + (k : Int)) ++ advances (6 + k) (k + 1)

/-- A client ends and is reaped. -/
def reaps (pid : TgPid) : List FdAct :=
  [.main (.check pid), .main (.exit pid),
    .main (.sigchld [⟨pid, fun _ => initClient, fun _ => none⟩])]

end DescriptorStart

end TgServer
