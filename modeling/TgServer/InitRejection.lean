/-
A command line that `init_context` rejects: `release` clears the clients and
the context whatever they were, and leaves the services that were loaded and
the parameters that were set in front of the bad pair.
-/
import Mathlib.Algebra.Order.BigOperators.Group.List
import Mathlib.Algebra.Order.Group.Nat
import TgServer.OptionOrder

namespace TgServer

open Bytes Transition

/-- A call `init_context` makes for the services: a library of a directory, or
a `[D]` line of a file. -/
inductive ServiceSetup where
  | load (call : LoadCall)
  | set (line : List Byte × List Byte)

namespace ServiceSetup

def run (junk : Nat → Nat → Option Addr) (g : Registry) :
    ServiceSetup → Option Registry
  | .load call => loadService junk g call
  | .set line => setServiceCreateParametersByN g (some line.1) line.2

def runAll (junk : Nat → Nat → Option Addr) :
    List ServiceSetup → Registry → Option Registry :=
  fun setups g => setups.foldlM (run junk) g

/-- The library is not one of a service; the line is of none that is there. -/
def Idle (g : Registry) : ServiceSetup → Prop
  | .load call => call.record g.sID = none
  | .set line => lookupN g line.1 = some none

instance (g : Registry) (setup : ServiceSetup) : Decidable (setup.Idle g) :=
  match setup with
  | .load call => inferInstanceAs (Decidable (call.record g.sID = none))
  | .set line => inferInstanceAs (Decidable (lookupN g line.1 = some none))

/-- What is set up for a pair that is taken. -/
def ofPair (host : Host) (pair : OptionPair) : List ServiceSetup :=
  if optionLetter pair = char 'f' then
    (serviceLines host pair.2).map .set
  else if optionLetter pair = char 's' then (host.loadCalls pair.2).map .load
  else []

/-- What is set up before a command line is rejected: the services of the
default directory and what the pairs in front of the bad one ask for. -/
def before (host : Host) (argv : List (List Byte)) : List ServiceSetup :=
  ((homePath host defaultServiceDir).toList.flatMap host.loadCalls).map .load ++
    (goodPairs argv.tail).flatMap (ofPair host)

end ServiceSetup

/-- Without the log of closed descriptors. -/
def Globals.unlogged (g : Globals) : Globals := { g with fdCalls := [] }

/-- Without that and the environment. -/
def Server.seen (s : Server) : Server :=
  { s with globals := s.globals.unlogged, envLogLevel := [] }

/-- What a call returns, and what is seen of the state it leaves. -/
def resultSeen : Int × Server → Int × Server := Prod.map id Server.seen

/-- After the call the globals, the services and their parameters are those
from before. -/
structure Restored (s s' : Server) : Prop where
  context : s'.globals.gContext = s.globals.gContext
  clients : s'.globals.gClients = s.globals.gClients
  size : s'.globals.clientsArSize = s.globals.clientsArSize
  services : s'.registry.gServices = s.registry.gServices
  parameters : s'.parameterLists = s.parameterLists

/-- A later call does what it would do without the one in between. -/
def SameLater (s s' : Server) : Prop :=
  ∀ host argv, (initContext host argv s').map resultSeen =
    (initContext host argv s).map resultSeen

section Views

universe u

variable {S T R V W X : Type u} {view : S → V} {next : T → W} {last : R → X}

/-- From two states with one view the step comes to results with one view. -/
def Blind (view : S → V) (next : T → W) (f : S → Option T) : Prop :=
  ∀ s s', view s' = view s → (f s').map next = (f s).map next

theorem blind_some : Blind view view some :=
  fun _ _ hview => congrArg some hview

theorem Blind.bind {f : S → Option T} {f' : T → Option R}
    (hf : Blind view next f) (hf' : Blind next last f') :
    Blind view last fun s => (f s).bind f' := by
  intro s s' hview
  have hfirst := hf s s' hview
  dsimp only
  cases hnew : f s' with
  | none =>
      rw [hnew, Option.map_none, eq_comm, Option.map_eq_none_iff] at hfirst
      rw [hfirst]
  | some t' =>
      rw [hnew, Option.map_some, eq_comm, Option.map_eq_some_iff] at hfirst
      obtain ⟨t, hold, hsame⟩ := hfirst
      rw [hold]
      exact hf' t t' hsame.symm

theorem Blind.foldlM {α : Type u} {f : S → α → Option S}
    (hf : ∀ x, Blind view view (f · x)) (xs : List α) :
    Blind view view (xs.foldlM f) := by
  induction xs with
  | nil => exact blind_some
  | cons x xs ih => exact (hf x).bind ih

end Views

section Later

theorem unlogged_cases {g g' : Globals} (hview : g'.unlogged = g.unlogged) :
    ∃ calls, g' = { g with fdCalls := calls } := by
  obtain ⟨gClients, size, gContext, calls⟩ := g'
  obtain ⟨gClients', size', gContext', calls'⟩ := g
  simp only [Globals.unlogged, Globals.mk.injEq, and_true] at hview
  obtain ⟨rfl, rfl, rfl⟩ := hview
  exact ⟨calls, rfl⟩

theorem blind_releaseFrom (n i : Nat) :
    Blind Globals.unlogged Globals.unlogged (releaseFrom n i) := by
  induction n generalizing i with
  | zero => exact blind_some
  | succ n ih =>
      intro g g' hview
      obtain ⟨calls, rfl⟩ := unlogged_cases hview
      change ((g.slots[i]?).bind _).map _ = ((g.slots[i]?).bind _).map _
      cases g.slots[i]? with
      | none => rfl
      | some pT => exact ih (i + 1) (g.logFds (releaseSlot pT)) _ rfl

theorem blind_release : Blind Globals.unlogged Globals.unlogged release := by
  have hrest : Blind Globals.unlogged Globals.unlogged fun g =>
      some (releaseRest g) := by
    intro g g' hview
    obtain ⟨calls, rfl⟩ := unlogged_cases hview
    simp only [releaseRest]
    cases g.gContext <;> rfl
  have hclear : Blind Globals.unlogged Globals.unlogged fun g =>
      some { g with gClients := none } := by
    intro g g' hview
    obtain ⟨calls, rfl⟩ := unlogged_cases hview
    rfl
  intro g g' hview
  obtain ⟨calls, rfl⟩ := unlogged_cases hview
  have hmap : ∀ left : Option Globals, left.map releaseRest =
      left.bind fun g => some (releaseRest g) := fun _ => Option.map_eq_bind
  rw [release, release, hmap, hmap]
  by_cases hclients : g.gClients.isSome = true
  · simp only [hclients, if_true]
    exact (((blind_releaseFrom g.clientsArSize 0).bind hclear).bind hrest) g
      { g with fdCalls := calls } rfl
  · simp only [hclients]
    exact hrest g { g with fdCalls := calls } rfl

theorem seen_cases {s s' : Server} (hview : s'.seen = s.seen) :
    ∃ calls level, s' = { s with
      globals := { s.globals with fdCalls := calls }, envLogLevel := level } := by
  obtain ⟨globals', registry', level⟩ := s'
  obtain ⟨globals, registry, level'⟩ := s
  simp only [Server.seen, Server.mk.injEq, and_true] at hview
  obtain ⟨hglobals, rfl⟩ := hview
  obtain ⟨calls, rfl⟩ := unlogged_cases hglobals
  exact ⟨calls, level, rfl⟩

theorem blind_parseParameter (pPar : Option (List Byte)) (pVal : List Byte) :
    Blind Server.seen Server.seen (parseParameter · pPar pVal) := by
  intro s s' hview
  cases pPar with
  | none => rfl
  | some pPar =>
      dsimp only
      rcases parseParameter_cases pPar pVal with
        hsame | ⟨store, level, -, hstored⟩
      · rw [hsame, hsame]
        exact blind_some s s' hview
      · obtain ⟨calls, envLogLevel, rfl⟩ := seen_cases hview
        rw [hstored, hstored, Server.setContext, Server.setContext]
        cases s.globals.gContext <;> rfl

theorem blind_setParameters (name para : List Byte) :
    Blind Server.seen Server.seen (·.setParameters name para) := by
  intro s s' hview
  obtain ⟨calls, level, rfl⟩ := seen_cases hview
  simp only [Server.setParameters]
  cases setServiceCreateParametersByN s.registry (some name) para <;> rfl

theorem blind_loadServices (host : Host) (dir : List Byte) :
    Blind Server.seen Server.seen (Server.loadServices host dir) := by
  intro s s' hview
  obtain ⟨calls, level, rfl⟩ := seen_cases hview
  simp only [Server.loadServices]
  cases TgServer.loadServices host.junk (host.loadCalls dir) s.registry <;> rfl

theorem blind_confStore (pair : List Byte × List Byte) :
    Blind Server.seen Server.seen (confStore · pair) := by
  intro s s' hview
  simp only [confStore]
  split
  · exact blind_parseParameter _ _ s s' hview
  · split
    · exact blind_setParameters _ _ s s' hview
    · exact blind_some s s' hview

theorem blind_readConfFile (host : Host) (path : List Byte) :
    Blind Server.seen Server.seen (readConfFile host path) := by
  intro s s' hview
  rw [readConfFile_pairs, readConfFile_pairs]
  exact Blind.foldlM blind_confStore _ s s' hview

theorem blind_contextStep (host : Host) (pair : OptionPair) :
    Blind Server.seen Server.seen (contextStep host · pair) := by
  intro s s' hview
  simp only [contextStep]
  split
  · exact blind_readConfFile host _ s s' hview
  · split
    · exact blind_loadServices host _ s s' hview
    · split
      · exact blind_some s s' hview
      · exact blind_parseParameter _ _ s s' hview

theorem blind_code (code : Int) :
    Blind Server.seen resultSeen fun s => some (code, s) :=
  fun _ _ hview => congrArg (fun s => some (code, s)) hview

theorem blind_rejectArgv : Blind Server.seen resultSeen rejectArgv := by
  intro s s' hview
  obtain ⟨calls, level, rfl⟩ := seen_cases hview
  have hrelease := congrArg
    (Option.map fun g => ((-1, ⟨g, s.registry, []⟩) : Int × Server))
    (blind_release s.globals { s.globals with fdCalls := calls } rfl)
  rw [Option.map_map, Option.map_map] at hrelease
  rw [rejectArgv, rejectArgv, Option.map_map, Option.map_map]
  exact hrelease

theorem blind_contextOptions (host : Host) (argv : List (List Byte)) :
    Blind Server.seen resultSeen (contextOptions host argv) := by
  intro s s' hview
  rw [contextOptions_eq, contextOptions_eq]
  have hsteps := Blind.foldlM (blind_contextStep host) (goodPairs argv)
  by_cases hpairs : (contextPairs argv).isSome = true
  · simp only [hpairs, if_true]
    exact (hsteps.bind (blind_code 0)) s s' hview
  · simp only [hpairs]
    exact (hsteps.bind blind_rejectArgv) s s' hview

theorem blind_startContext (host : Host) :
    Blind Server.seen Server.seen (startContext host) := by
  intro s s' hview
  rw [startContext, startContext]
  cases homePath host defaultServiceDir with
  | none => rfl
  | some dir =>
      obtain ⟨calls, level, rfl⟩ := seen_cases hview
      exact blind_loadServices host dir _ _ rfl

/-- The log and the environment make no difference to `init_context`. -/
theorem blind_initContext (host : Host) (argv : List (List Byte)) :
    Blind Server.seen resultSeen (initContext host argv) := by
  intro s s' hview
  cases argv with
  | nil => simp [initContext]
  | cons tgserver argv =>
      have hread : Blind Server.seen Server.seen fun s =>
          if (tgserver :: argv).length = 1 then
            (homePath host defaultConfPath).bind (readConfFile host · s)
          else some s := by
        intro s s' hview
        dsimp only
        split
        · cases homePath host defaultConfPath with
          | none => rfl
          | some path => exact blind_readConfFile host path s s' hview
        · exact blind_some s s' hview
      rw [initContext_cons, initContext_cons]
      exact (((blind_startContext host).bind hread).bind
        (blind_contextOptions host argv)) s s' hview

end Later

section Setups

variable {junk : Nat → Nat → Option Addr} {g g' : Registry}
variable {lists : Addr → List (List Byte)} {setup : ServiceSetup}

theorem ServiceSetup.Idle.run (hidle : setup.Idle g) :
    ServiceSetup.run junk g setup = some g := by
  cases setup with
  | load call => exact loadService_skip junk g hidle
  | set line =>
      have hset := setServiceCreateParametersByN_eq g line.1 line.2
      rw [show lookupN g line.1 = some none from hidle] at hset
      exact hset

/-- The services and their parameters, counted. -/
def weight (g : Registry) (lists : Addr → List (List Byte)) : Nat :=
  ((List.range g.objects.length).map fun a => (lists a).length + 1).sum

/-- A call that is not idle adds a service or a parameter. -/
theorem Holding.busy (hholding : Holding g lists) (hbusy : ¬ setup.Idle g)
    (hrun : ServiceSetup.run junk g setup = some g') :
    ∃ lists', Holding g' lists' ∧ weight g lists < weight g' lists' := by
  cases setup with
  | load call =>
      obtain ⟨pService, hrecord⟩ := Option.ne_none_iff_exists'.mp hbusy
      obtain ⟨g'', hload, hnext, -⟩ := hholding.loadService junk call
      obtain rfl := Option.some.inj (hload.symm.trans hrun)
      rw [loadService_add junk g hrecord] at hload
      refine ⟨lists, hnext, ?_⟩
      rw [weight, weight, (addService_records hload).objects,
        List.length_append, List.length_singleton, List.range_succ,
        List.map_append, List.sum_append, List.map_singleton, List.sum_singleton]
      omega
  | set line =>
      have hset := setServiceCreateParametersByN_eq g line.1 line.2
      cases hlookup : lookupN g line.1 with
      | none =>
          rw [hlookup] at hset
          cases hset.symm.trans hrun
      | some found =>
          cases found with
          | none => exact absurd hlookup hbusy
          | some a =>
              obtain ⟨g'', hpush, hbare, hnext⟩ :=
                hholding.push hlookup line.2
              obtain rfl := Option.some.inj (hpush.symm.trans hrun)
              obtain ⟨pSer, hget⟩ := lookupN_found hlookup
              have hlt := (List.getElem?_eq_some_iff.mp hget).1
              have hlength : g''.objects.length = g.objects.length := by
                rw [← g''.bare_length, hbare, g.bare_length]
              refine ⟨_, hnext, ?_⟩
              rw [weight, weight, hlength]
              refine List.sum_lt_sum _ _ (fun b _ => ?_)
                ⟨a, List.mem_range.mpr hlt, ?_⟩
              · simp
              · simp

theorem runAll_idle {setups : List ServiceSetup}
    (hidle : ∀ setup ∈ setups, setup.Idle g) :
    ServiceSetup.runAll junk setups g = some g := by
  induction setups with
  | nil => rfl
  | cons setup setups ih =>
      obtain ⟨hfirst, hrest⟩ := List.forall_mem_cons.mp hidle
      rw [ServiceSetup.runAll, List.foldlM_cons, hfirst.run]
      exact ih hrest

/-- Where the count is the same in the end, every call was idle. -/
theorem Holding.runAll {setups : List ServiceSetup}
    (hholding : Holding g lists)
    (hrun : ServiceSetup.runAll junk setups g = some g') :
    ∃ lists', Holding g' lists' ∧ weight g lists ≤ weight g' lists' ∧
      (weight g lists = weight g' lists' →
        ∀ setup ∈ setups, setup.Idle g) := by
  induction setups generalizing g lists with
  | nil =>
      obtain rfl := Option.some.inj hrun
      exact ⟨lists, hholding, Nat.le_refl _, fun _ _ hmem => by cases hmem⟩
  | cons setup setups ih =>
      rw [ServiceSetup.runAll, List.foldlM_cons, Option.bind_eq_bind,
        Option.bind_eq_some_iff] at hrun
      obtain ⟨mid, hfirst, hrest⟩ := hrun
      by_cases hidle : setup.Idle g
      · obtain rfl := Option.some.inj (hidle.run.symm.trans hfirst)
        obtain ⟨lists', hnext, hle, hall⟩ := ih hholding hrest
        exact ⟨lists', hnext, hle, fun hsame =>
          List.forall_mem_cons.mpr ⟨hidle, hall hsame⟩⟩
      · obtain ⟨lists', hmid, hlt⟩ := hholding.busy hidle hfirst
        obtain ⟨lists'', hnext, hle, -⟩ := ih hmid hrest
        exact ⟨lists'', hnext, Nat.le_of_lt (Nat.lt_of_lt_of_le hlt hle),
          fun hsame => absurd hsame (Nat.ne_of_lt (Nat.lt_of_lt_of_le hlt hle))⟩

/-- The count is one of the parameter lists. -/
theorem Holding.parameterLists_weight {s s' : Server}
    {lists' : Addr → List (List Byte)} (hholding : Holding s.registry lists)
    (hholding' : Holding s'.registry lists')
    (hsame : s'.parameterLists = s.parameterLists) :
    weight s.registry lists = weight s'.registry lists' := by
  rw [Server.parameterLists, Server.parameterLists,
    hholding.owned.parameterTexts, hholding'.owned.parameterTexts,
    Option.some.injEq] at hsame
  have hcount := congrArg
    (fun all => (all.map fun texts => texts.length + 1).sum) hsame
  simp only [List.map_map] at hcount
  exact hcount.symm

end Setups

section Runs

variable {host : Host} {s s' : Server}

theorem runAll_append {junk : Nat → Nat → Option Addr}
    (first second : List ServiceSetup) (g : Registry) :
    ServiceSetup.runAll junk (first ++ second) g =
      (ServiceSetup.runAll junk first g).bind
        (ServiceSetup.runAll junk second) := by
  rw [ServiceSetup.runAll, List.foldlM_append]
  rfl

theorem loadServices_runAll (junk : Nat → Nat → Option Addr)
    (calls : List LoadCall) (g : Registry) : loadServices junk calls g =
      ServiceSetup.runAll junk (calls.map .load) g := by
  induction calls generalizing g with
  | nil => rfl
  | cons call calls ih =>
      rw [loadServices, ServiceSetup.runAll, List.map_cons, List.foldlM_cons]
      cases hload : loadService junk g call with
      | none => rw [ServiceSetup.run, hload]; rfl
      | some next => rw [ServiceSetup.run, hload]; exact ih next

theorem Server.loadServices_runAll {dir : List Byte}
    (hload : s.loadServices host dir = some s') :
    s'.globals = s.globals ∧ ServiceSetup.runAll host.junk
      ((host.loadCalls dir).map .load) s.registry = some s'.registry := by
  simp only [Server.loadServices, TgServer.loadServices_runAll,
    Option.bind_eq_bind, Option.bind_eq_some_iff, Option.pure_def,
    Option.some.injEq] at hload
  obtain ⟨g, hrun, rfl⟩ := hload
  exact ⟨rfl, hrun⟩

theorem setContext_registry {store : TGContext → TGContext}
    (hset : s.setContext store = some s') : s'.registry = s.registry := by
  obtain ⟨ctx, -, rfl⟩ := Option.map_eq_some_iff.mp hset
  rfl

theorem parseParameter_registry {pPar : Option (List Byte)} {pVal : List Byte}
    (hparse : parseParameter s pPar pVal = some s') :
    s'.registry = s.registry := by
  obtain ⟨par, rfl, -⟩ := Option.bind_eq_some_iff.mp hparse
  rcases parseParameter_cases par pVal with hsame | ⟨store, level, -, hstored⟩
  · rw [hsame, Option.some.injEq] at hparse
    rw [hparse]
  · rw [hstored, Option.map_eq_some_iff] at hparse
    obtain ⟨mid, hset, rfl⟩ := hparse
    exact (setContext_registry hset : mid.registry = s.registry)

theorem confStore_runAll {pair : List Byte × List Byte}
    (hstore : confStore s pair = some s') :
    ServiceSetup.runAll host.junk ((serviceLine pair).toList.map .set)
      s.registry = some s'.registry := by
  cases hline : serviceLine pair with
  | none =>
      rw [confStore_other hline] at hstore
      split at hstore
      · rw [parseParameter_registry hstore]
        rfl
      · rw [Option.some.inj hstore]
        rfl
  | some line =>
      rw [(confStore_line hline s).2] at hstore
      simp only [Server.setParameters, Option.bind_eq_bind,
        Option.bind_eq_some_iff, Option.pure_def, Option.some.injEq] at hstore
      obtain ⟨g, hset, rfl⟩ := hstore
      change (ServiceSetup.run host.junk s.registry (.set line)).bind _ = _
      rw [ServiceSetup.run, hset]
      rfl

/-- What each step sets up, a run of steps does. -/
theorem foldlM_runAll {α : Type} {step : Server → α → Option Server}
    {setups : α → List ServiceSetup}
    (hstep : ∀ s s' x, step s x = some s' →
      ServiceSetup.runAll host.junk (setups x) s.registry = some s'.registry)
    {xs : List α} (hrun : xs.foldlM step s = some s') :
    ServiceSetup.runAll host.junk (xs.flatMap setups) s.registry =
      some s'.registry := by
  have hlast := foldlM_preserves (P := fun rest mid =>
    ServiceSetup.runAll host.junk (rest.flatMap setups) mid.registry =
      ServiceSetup.runAll host.junk (xs.flatMap setups) s.registry) ?_ rfl hrun
  · exact hlast.symm
  · intro x rest mid next hmid hnext
    rwa [List.flatMap_cons, runAll_append, hstep mid next x hnext,
      Option.bind_some] at hmid

theorem readConfFile_runAll {path : List Byte}
    (hread : readConfFile host path s = some s') :
    ServiceSetup.runAll host.junk ((serviceLines host path).map .set)
      s.registry = some s'.registry := by
  rw [readConfFile_pairs] at hread
  have hrun : ServiceSetup.runAll host.junk ((confPairs host path).flatMap
      fun pair => (serviceLine pair).toList.map .set) s.registry =
        some s'.registry :=
    foldlM_runAll (fun _ _ _ hstore => confStore_runAll hstore) hread
  rwa [← List.map_flatMap, ← List.filterMap_eq_flatMap_toList] at hrun

/-- What a pair does to the services. -/
theorem contextStep_runAll {pair : OptionPair}
    (hstep : contextStep host s pair = some s') :
    ServiceSetup.runAll host.junk (ServiceSetup.ofPair host pair) s.registry =
      some s'.registry := by
  rw [contextStep_letter] at hstep
  rw [ServiceSetup.ofPair]
  split at hstep
  · next hf =>
      rw [if_pos hf]
      exact readConfFile_runAll hstep
  · next hf =>
      rw [if_neg hf]
      split at hstep
      · next hs =>
          rw [if_pos hs]
          exact (Server.loadServices_runAll hstep).2
      · next hs =>
          rw [if_neg hs]
          split at hstep
          · rw [Option.some.inj hstep]
            rfl
          · rw [parseParameter_registry hstep]
            rfl

theorem startContext_runAll (hstart : startContext host s = some s') :
    ServiceSetup.runAll host.junk
      (((homePath host defaultServiceDir).toList.flatMap host.loadCalls).map
        .load) s.registry = some s'.registry := by
  rw [startContext, Option.bind_eq_bind, Option.bind_eq_some_iff] at hstart
  obtain ⟨dir, hdir, hload⟩ := hstart
  rw [hdir, Option.toList_some, List.flatMap_singleton]
  exact (Server.loadServices_runAll hload).2

theorem contextOptions_rejected {argv : List (List Byte)}
    (hoptions : contextOptions host argv s = some (-1, s')) :
    ∃ mid, (goodPairs argv).foldlM (contextStep host) s = some mid ∧
      rejectArgv mid = some (-1, s') := by
  rw [contextOptions_eq, Option.bind_eq_some_iff] at hoptions
  obtain ⟨mid, hsteps, hend⟩ := hoptions
  split at hend
  · cases hend
  · exact ⟨mid, hsteps, hend⟩

/-- The rejection leaves the services alone and clears the rest. -/
theorem rejectArgv_cleared (hreject : rejectArgv s = some (-1, s')) :
    s'.registry = s.registry ∧ s'.globals.gContext = none ∧
      s'.globals.gClients = none ∧ s'.globals.clientsArSize = 0 := by
  rw [rejectArgv, Option.map_eq_some_iff] at hreject
  obtain ⟨g, hrelease, hsame⟩ := hreject
  obtain rfl := (Prod.mk.inj hsame).2
  rw [release, Option.map_eq_some_iff] at hrelease
  obtain ⟨left, hclients, rfl⟩ := hrelease
  have hnone : left.gClients = none := by
    split at hclients
    · rw [releaseClientArray, Option.bind_eq_bind,
        Option.bind_eq_some_iff] at hclients
      obtain ⟨g, -, hclients⟩ := hclients
      rw [← Option.some.inj hclients]
    · next hnone =>
        rw [← Option.some.inj hclients]
        exact Option.not_isSome_iff_eq_none.mp hnone
  refine ⟨rfl, ?_⟩
  rw [releaseRest]
  split
  · next hcontext => exact ⟨hcontext, hnone, rfl⟩
  · exact ⟨rfl, hnone, rfl⟩

/-- A rejected call sets up what stands in front of the bad pair, and leaves
neither clients nor a context. -/
theorem initContext_rejected {argv : List (List Byte)}
    (hinit : initContext host argv s = some (-1, s')) :
    ServiceSetup.runAll host.junk (ServiceSetup.before host argv) s.registry =
      some s'.registry ∧ s'.globals.gContext = none ∧
      s'.globals.gClients = none ∧ s'.globals.clientsArSize = 0 := by
  cases argv with
  | nil => simp [initContext] at hinit
  | cons tgserver argv =>
      rw [initContext_cons, Option.bind_eq_some_iff] at hinit
      obtain ⟨read, hread, hoptions⟩ := hinit
      obtain ⟨mid, hsteps, hreject⟩ := contextOptions_rejected hoptions
      rw [Option.bind_eq_some_iff] at hread
      obtain ⟨started, hstart, hread⟩ := hread
      have hmore : ¬(tgserver :: argv).length = 1 := by
        intro hone
        obtain rfl := List.length_eq_zero_iff.mp (Nat.succ.inj hone)
        cases hoptions
      rw [if_neg hmore, Option.some.injEq] at hread
      subst hread
      obtain ⟨hregistry, hcleared⟩ := rejectArgv_cleared hreject
      refine ⟨?_, hcleared⟩
      rw [ServiceSetup.before, runAll_append, startContext_runAll hstart,
        hregistry]
      exact foldlM_runAll (fun _ _ _ hstep => contextStep_runAll hstep) hsteps

end Runs

/-- A command line that is rejected leaves everything as it was exactly if
there were neither clients nor a context, and what was set up in front of the
bad pair was idle: no library is one of a service, no line is of a service that
is there. -/
theorem initContext_restores_iff {host : Host} {argv : List (List Byte)}
    {s s' : Server} {lists : Addr → List (List Byte)}
    (hholding : Holding s.registry lists)
    (hinit : initContext host argv s = some (-1, s')) :
    Restored s s' ∧ SameLater s s' ↔
      (s.globals.gContext = none ∧ s.globals.gClients = none ∧
        s.globals.clientsArSize = 0) ∧
      ∀ setup ∈ ServiceSetup.before host argv, setup.Idle s.registry := by
  obtain ⟨hrun, hcontext, hclients, hsize⟩ := initContext_rejected hinit
  constructor
  · rintro ⟨hrestored, -⟩
    obtain ⟨lists', hnext, -, hidle⟩ := hholding.runAll hrun
    refine ⟨⟨hrestored.context.symm.trans hcontext,
      hrestored.clients.symm.trans hclients,
      hrestored.size.symm.trans hsize⟩, hidle ?_⟩
    exact hholding.parameterLists_weight hnext hrestored.parameters
  · rintro ⟨⟨hcontext', hclients', hsize'⟩, hidle⟩
    have hregistry : s'.registry = s.registry :=
      Option.some.inj (hrun.symm.trans (runAll_idle hidle))
    have hseen : s'.seen = s.seen := by
      simp only [Server.seen, Globals.unlogged, hcontext, hcontext', hclients,
        hclients', hsize, hsize', hregistry]
    refine ⟨⟨hcontext.trans hcontext'.symm, hclients.trans hclients'.symm,
      hsize.trans hsize'.symm, by rw [hregistry], ?_⟩, ?_⟩
    · rw [Server.parameterLists, Server.parameterLists, hregistry]
    · intro host argv
      exact blind_initContext host argv s s' hseen

namespace InitRejection

/-- A pair without a letter behind a good one. -/
def bad : List (List Byte) :=
  [ascii "tgserver", ascii "-m", ascii "9", ascii "-", ascii "80"]

def good : List (List Byte) := [ascii "tgserver", ascii "-p", ascii "80"]

/-- One service in the default directory. -/
def host : Host where
  tgserverHome := none
  readdir := fun dir =>
    if dir = ascii "../plugins/" then some [⟨ascii "libecho.so", true⟩]
    else none
  dlopen := fun _ => some ⟨some 1, some 2, some 3, some 4, some 5⟩
  fopen := fun _ => none
  below := fun _ => 0
  junk := fun _ _ => none

/-- Without services. -/
theorem initContext_restores_iff_empty :
    ∃ s', initContext PluginOptions.host bad .initial = some (-1, s') ∧
      Restored .initial s' ∧ SameLater .initial s' := by
  obtain ⟨s', hinit⟩ : ∃ s', initContext PluginOptions.host bad .initial =
      some (-1, s') := ⟨_, rfl⟩
  exact ⟨s', hinit, (initContext_restores_iff holding_initial hinit).mpr
    ⟨⟨rfl, rfl, rfl⟩, by decide⟩⟩

/-- The service stays behind, and a later call loads it once more. -/
theorem initContext_leaves :
    ∃ s', initContext host bad .initial = some (-1, s') ∧
      s'.registry.gServices ≠ Registry.initial.gServices ∧
      (initContext host good s').map (·.2.registry.objects.length) = some 2 ∧
      (initContext host good .initial).map (·.2.registry.objects.length) =
        some 1 ∧
      ¬ Restored .initial s' ∧ ¬ SameLater .initial s' := by
  refine ⟨_, rfl, by decide, by decide +kernel, by decide +kernel, ?_, ?_⟩
  · intro hrestored
    exact absurd hrestored.services (by decide)
  · intro hlater
    have hcount := congrArg (Option.map (·.2.registry.objects.length))
      (hlater host good)
    exact absurd hcount (by decide +kernel)

end InitRejection

end TgServer
