/-
The run of `init_context` over the pairs of a command line: the settings of the
files in their order, each with the directories loaded in front of it.
-/
import TgServer.OptionPairs
import TgServer.RegistryLoads

namespace TgServer

open Bytes

/-- The settings of a file; none if it cannot be opened. -/
def confPairs (host : Host) (path : List Byte) :
    List (List Byte × List Byte) :=
  if path = [] then [] else ((host.fopen path).map filePairs).getD []

/-- The settings of all the files, in their order. -/
def settings (host : Host) (pairs : List OptionPair) :
    List (List Byte × List Byte) :=
  (valuesOf (char 'f') pairs).flatMap (confPairs host)

/-- The services after the default directory and these have been loaded. -/
def loadAfter (host : Host) (done : List (List Byte)) : Option Registry := do
  loadDirs host ((← homePath host defaultServiceDir) :: done) .initial

/-- What a name finds then. -/
def lookAfter (host : Host) (done : List (List Byte)) (name : List Byte) :
    Option (Option Addr) :=
  (loadAfter host done).bind fun g => lookupN g name

/-- What is known of the state once these directories are loaded. -/
structure Configured (host : Host) (done : List (List Byte))
    (lists : Addr → List (List Byte)) (s : Server) : Prop where
  context : s.globals.gContext ≠ none
  loaded : ∃ g, loadAfter host done = some g ∧ s.registry.bare = g.bare
  holding : Holding s.registry lists

/-- A run comes to an end exactly under a condition, and leaves this state. -/
def Ends (host : Host) (ready : Prop) (done : List (List Byte))
    (lists : Addr → List (List Byte)) (run : Option Server) : Prop :=
  ¬ ready ∧ run = none ∨
    ready ∧ ∃ s', run = some s' ∧ Configured host done lists s'

/-- The key of a setting has a letter, and the lookup of its service does not
leave the array. -/
structure Readable (look : List Byte → Option (Option Addr))
    (pair : List Byte × List Byte) : Prop where
  lettered : pair.1.getD 0 0 ≠ char '[' → confParameter pair.1 ≠ none
  defined : ∀ line, serviceLine pair = some line → look line.1 ≠ none

/-- The parameter that a setting leaves at a service. -/
def stored (look : List Byte → Option (Option Addr)) (a : Addr)
    (pair : List Byte × List Byte) : Option (List Byte) :=
  (serviceLine pair).bind fun (name, value) =>
    if look name = some (some a) then some value else none

/-- The settings of the files in their order, each with what is loaded in front
of it. -/
def events (host : Host) : List OptionPair → List (List Byte) →
    List (List (List Byte) × (List Byte × List Byte))
  | [], _ => []
  | pair :: pairs, done =>
      (if optionLetter pair = char 'f' then
        (confPairs host pair.2).map fun setting => (done, setting)
      else []) ++ events host pairs (done ++ valuesOf (char 's') [pair])

section Events

variable (host : Host)

theorem events_one (pair : OptionPair) (done : List (List Byte)) :
    events host [pair] done =
      if optionLetter pair = char 'f' then
        (confPairs host pair.2).map fun setting => (done, setting)
      else [] := List.append_nil _

theorem events_cons (pair : OptionPair) (pairs : List OptionPair)
    (done : List (List Byte)) : events host (pair :: pairs) done =
      events host [pair] done ++
        events host pairs (done ++ valuesOf (char 's') [pair]) := by
  rw [events_one, events]

theorem events_append (first second : List OptionPair)
    (done : List (List Byte)) : events host (first ++ second) done =
      events host first done ++
        events host second (done ++ valuesOf (char 's') first) := by
  induction first generalizing done with
  | nil => rw [valuesOf, optionsOf, List.filter_nil, List.map_nil,
      List.append_nil, events, List.nil_append, List.nil_append]
  | cons pair first ih =>
      rw [List.cons_append, events_cons, ih, events_cons host pair first,
        valuesOf_cons _ pair first, List.append_assoc, List.append_assoc]

theorem events_settings (pairs : List OptionPair) (done : List (List Byte)) :
    (events host pairs done).map Prod.snd = settings host pairs := by
  rw [settings]
  induction pairs generalizing done with
  | nil => rfl
  | cons pair pairs ih =>
      rw [events_cons, List.map_append, ih, valuesOf_cons _ pair pairs,
        List.flatMap_append, events_one, valuesOf_one]
      congr 1
      split
      · simp
      · rfl

/-- What is loaded in front of a setting begins the directories. -/
theorem events_done {pairs : List OptionPair} {done : List (List Byte)}
    {event : List (List Byte) × (List Byte × List Byte)}
    (hevent : event ∈ events host pairs done) :
    event.1 <+: done ++ valuesOf (char 's') pairs := by
  induction pairs generalizing done with
  | nil => cases hevent
  | cons pair pairs ih =>
      rw [events_cons, List.mem_append, events_one] at hevent
      rcases hevent with hfirst | hrest
      · split at hfirst
        · obtain ⟨setting, -, rfl⟩ := List.mem_map.mp hfirst
          exact List.prefix_append _ _
        · cases hfirst
      · rw [valuesOf_cons, ← List.append_assoc]
        exact ih hrest

/-- Only files and directories count. -/
theorem events_moves (pairs : List OptionPair) (done : List (List Byte)) :
    events host (pairs.filter fun pair => Moves pair) done =
      events host pairs done := by
  induction pairs generalizing done with
  | nil => rfl
  | cons pair pairs ih =>
      by_cases hmoves : Moves pair
      · rw [List.filter_cons_of_pos (by simpa), events_cons, ih,
          ← events_cons]
      · rw [List.filter_cons_of_neg (by simpa), ih, events_cons, events_one,
          valuesOf_one, if_neg fun h => hmoves (Or.inl h),
          if_neg fun h => hmoves (Or.inr h), List.append_nil, List.nil_append]

theorem events_dirs {dirs : List OptionPair}
    (hdirs : ∀ pair ∈ dirs, optionLetter pair = char 's')
    (done : List (List Byte)) : events host dirs done = [] := by
  have hsettings := events_settings host dirs done
  rw [settings, valuesOf, optionsOf_other (by decide) hdirs] at hsettings
  exact List.map_eq_nil_iff.mp hsettings

theorem events_files {files : List OptionPair}
    (hfiles : ∀ pair ∈ files, optionLetter pair = char 'f')
    (done : List (List Byte)) : events host files done =
      (settings host files).map fun setting => (done, setting) := by
  induction files with
  | nil => rfl
  | cons file files ih =>
      rw [List.forall_mem_cons] at hfiles
      obtain ⟨hfile, hrest⟩ := hfiles
      have hother : ¬(optionLetter file = char 's') := by
        rw [hfile]
        decide
      rw [events_cons, events_one, if_pos hfile, valuesOf_one, if_neg hother,
        List.append_nil, ih hrest, settings, settings, valuesOf_cons _ file,
        valuesOf_one, if_pos hfile, List.flatMap_append, List.map_append,
        List.flatMap_singleton]

end Events

section Runs

variable {host : Host} {done : List (List Byte)}
variable {lists : Addr → List (List Byte)} {s : Server}

theorem Ends.bind {ready more : Prop} {done' : List (List Byte)}
    {last : Addr → List (List Byte)} {run : Option Server}
    {next : Server → Option Server} (hrun : Ends host ready done lists run)
    (hnext : ∀ s, Configured host done lists s →
      Ends host more done' last (next s)) :
    Ends host (ready ∧ more) done' last (run.bind next) := by
  rcases hrun with ⟨hstop, rfl⟩ | ⟨hready, s, rfl, hmid⟩
  · exact Or.inl ⟨fun h => hstop h.1, rfl⟩
  · rcases hnext s hmid with ⟨hstop, hnone⟩ | ⟨hmore, hlast⟩
    · exact Or.inl ⟨fun h => hstop h.2, hnone⟩
    · exact Or.inr ⟨⟨hready, hmore⟩, hlast⟩

theorem Ends.same {ready : Prop} (hready : ready)
    (hconf : Configured host done lists s) :
    Ends host ready done lists (some s) :=
  Or.inr ⟨hready, s, rfl, hconf⟩

theorem Configured.look (hconf : Configured host done lists s)
    (name : List Byte) : lookupN s.registry name = lookAfter host done name := by
  obtain ⟨g, hload, hbare⟩ := hconf.loaded
  rw [lookAfter, hload, Option.bind_some, lookupN_bare hbare]

theorem Configured.parseParameter (hconf : Configured host done lists s)
    (pPar pVal : List Byte) :
    ∃ s', parseParameter s (some pPar) pVal = some s' ∧
      Configured host done lists s' := by
  obtain ⟨s', hparse, hctx, hsame⟩ :=
    parseParameter_kept hconf.context pPar pVal
  exact ⟨s', hparse, hctx, hsame ▸ hconf.loaded, hsame ▸ hconf.holding⟩

theorem Configured.setParameters (hconf : Configured host done lists s)
    {name : List Byte} {found : Option Addr}
    (hlook : lookAfter host done name = some found) (value : List Byte) :
    ∃ s', s.setParameters name value = some s' ∧
      Configured host done (fun a => lists a ++
        if found = some a then [value] else []) s' := by
  obtain ⟨hctx, ⟨g, hload, hbare⟩, hholding⟩ := hconf
  have hlookup : lookupN s.registry name = some found := by
    rw [← hlook, lookAfter, hload, Option.bind_some, lookupN_bare hbare]
  obtain ⟨g', hset, hsame, hnext⟩ := hholding.push hlookup value
  refine ⟨{ s with registry := g' }, ?_, hctx,
    ⟨g, hload, hsame.trans hbare⟩, hnext⟩
  rw [Server.setParameters, hset]
  rfl

/-- What the loop makes of one setting. -/
theorem confStore_ends (hconf : Configured host done lists s)
    (pair : List Byte × List Byte) :
    Ends host (Readable (lookAfter host done) pair) done
      (fun a => lists a ++ [pair].filterMap (stored (lookAfter host done) a))
      (confStore s pair) := by
  cases hline : serviceLine pair with
  | none =>
      have hdefined : ∀ line, serviceLine pair = some line →
          lookAfter host done line.1 ≠ none := fun line hservice => by
        rw [hline] at hservice
        cases hservice
      have hstored : ∀ a, [pair].filterMap (stored (lookAfter host done) a) =
          [] := fun a => by simp [stored, hline]
      simp only [hstored, List.append_nil, confStore_other hline]
      split
      · next hkey =>
          cases hletter : confParameter pair.1 with
          | none => exact Or.inl ⟨fun h => h.lettered hkey hletter, rfl⟩
          | some pPar =>
              obtain ⟨s', hparse, hnext⟩ := hconf.parseParameter pPar pair.2
              refine Or.inr ⟨⟨fun _ => ?_, hdefined⟩, s', hparse, hnext⟩
              rw [hletter]
              exact Option.some_ne_none _
      · next hkey =>
          exact Ends.same ⟨fun h => absurd h hkey, hdefined⟩ hconf
  | some line =>
      obtain ⟨hbracket, hstore⟩ := confStore_line hline s
      rw [hstore]
      cases hlook : lookAfter host done line.1 with
      | none =>
          refine Or.inl ⟨fun h => h.defined _ hline hlook, ?_⟩
          rw [Server.setParameters, setServiceCreateParametersByN_eq,
            hconf.look, hlook]
          rfl
      | some found =>
          obtain ⟨s', hset, hnext⟩ := hconf.setParameters hlook line.2
          refine Or.inr ⟨⟨fun h => absurd hbracket h, ?_⟩, s', hset, ?_⟩
          · intro other hsame
            obtain rfl := Option.some.inj (hline.symm.trans hsame)
            rw [hlook]
            exact Option.some_ne_none _
          · have hstored : ∀ a, [pair].filterMap
                (stored (lookAfter host done) a) =
                  if found = some a then [line.2] else [] := fun a => by
              by_cases hfound : found = some a <;>
                simp [stored, hline, hlook, hfound]
            simp only [hstored]
            exact hnext

theorem confStores_ends (hconf : Configured host done lists s)
    (pairs : List (List Byte × List Byte)) :
    Ends host (∀ pair ∈ pairs, Readable (lookAfter host done) pair) done
      (fun a => lists a ++ pairs.filterMap (stored (lookAfter host done) a))
      (pairs.foldlM confStore s) := by
  induction pairs generalizing lists s with
  | nil =>
      simp only [List.filterMap_nil, List.append_nil]
      exact Ends.same (fun pair hpair => by cases hpair) hconf
  | cons pair pairs ih =>
      have hboth := (confStore_ends hconf pair).bind fun s hmid => ih hmid
      simp only [List.append_assoc, ← List.filterMap_append,
        List.singleton_append] at hboth
      simp only [List.forall_mem_cons, List.foldlM_cons]
      exact hboth

/-- Reading a file makes its settings. -/
theorem readConfFile_pairs (host : Host) (path : List Byte) (s : Server) :
    readConfFile host path s = (confPairs host path).foldlM confStore s := by
  rw [readConfFile, confPairs]
  split
  · rfl
  · cases host.fopen path with
    | none => rfl
    | some content => exact foldlM_confLine _ s

theorem readConfFile_ends (hconf : Configured host done lists s)
    (path : List Byte) :
    Ends host
      (∀ pair ∈ confPairs host path, Readable (lookAfter host done) pair) done
      (fun a => lists a ++
        (confPairs host path).filterMap (stored (lookAfter host done) a))
      (readConfFile host path s) := by
  rw [readConfFile_pairs]
  exact confStores_ends hconf _

/-- A directory can always be loaded; what is set stays. -/
theorem Configured.loadServices (hconf : Configured host done lists s)
    (dir : List Byte) :
    ∃ s', s.loadServices host dir = some s' ∧
      Configured host (done ++ [dir]) lists s' := by
  obtain ⟨hctx, ⟨g, hload, hbare⟩, hholding⟩ := hconf
  obtain ⟨g', hcalls, hnext, -⟩ :=
    hholding.loadServices host.junk (host.loadCalls dir)
  have hsame := loadServices_bare host.junk (host.loadCalls dir) s.registry
  rw [hbare, loadServices_bare, hcalls, Option.map_some,
    Option.map_eq_some_iff] at hsame
  obtain ⟨next, hmore, hlast⟩ := hsame
  refine ⟨{ s with registry := g' }, ?_, hctx, ⟨next, ?_, hlast.symm⟩, hnext⟩
  · rw [Server.loadServices, hcalls]
    rfl
  · simp only [loadAfter, loadDirs, Option.bind_eq_bind] at hload ⊢
    obtain ⟨start, hpath, hload⟩ := Option.bind_eq_some_iff.mp hload
    rw [hpath, Option.bind_some, ← List.cons_append, List.foldlM_append, hload]
    simpa using hmore

theorem contextStep_letter (host : Host) (s : Server) (pair : OptionPair) :
    contextStep host s pair =
      if optionLetter pair = char 'f' then readConfFile host pair.2 s
      else if optionLetter pair = char 's' then s.loadServices host pair.2
      else if optionLetter pair = char 'D' then some s
      else parseParameter s (some (pair.1.drop 1)) pair.2 := rfl

/-- What the loop of `init_context` makes of a pair. -/
theorem contextStep_ends (hconf : Configured host done lists s)
    (pair : OptionPair) :
    Ends host
      (∀ event ∈ events host [pair] done,
        Readable (lookAfter host event.1) event.2)
      (done ++ valuesOf (char 's') [pair])
      (fun a => lists a ++ (events host [pair] done).filterMap fun event =>
        stored (lookAfter host event.1) a event.2)
      (contextStep host s pair) := by
  rw [valuesOf_one, events_one, contextStep_letter]
  by_cases hf : optionLetter pair = char 'f'
  · have hs : ¬(optionLetter pair = char 's') := by
      rw [hf]
      decide
    rw [if_pos hf, if_pos hf, if_neg hs, List.append_nil]
    simp only [List.forall_mem_map, List.filterMap_map]
    exact readConfFile_ends hconf pair.2
  · have hnone : ∀ event ∈ ([] : List (List (List Byte) ×
        (List Byte × List Byte))), Readable (lookAfter host event.1)
          event.2 := fun event hevent => by cases hevent
    rw [if_neg hf, if_neg hf]
    simp only [List.filterMap_nil, List.append_nil]
    by_cases hs : optionLetter pair = char 's'
    · obtain ⟨s', hload, hnext⟩ := hconf.loadServices pair.2
      rw [if_pos hs, if_pos hs]
      exact Or.inr ⟨hnone, s', hload, hnext⟩
    · rw [if_neg hs, if_neg hs, List.append_nil]
      split
      · exact Ends.same hnone hconf
      · obtain ⟨s', hparse, hnext⟩ :=
          hconf.parseParameter (pair.1.drop 1) pair.2
        exact Or.inr ⟨hnone, s', hparse, hnext⟩

theorem contextSteps_ends (hconf : Configured host done lists s)
    (pairs : List OptionPair) :
    Ends host
      (∀ event ∈ events host pairs done,
        Readable (lookAfter host event.1) event.2)
      (done ++ valuesOf (char 's') pairs)
      (fun a => lists a ++ (events host pairs done).filterMap fun event =>
        stored (lookAfter host event.1) a event.2)
      (pairs.foldlM (contextStep host) s) := by
  induction pairs generalizing done lists s with
  | nil =>
      simp only [events, valuesOf, optionsOf, List.filter_nil, List.map_nil,
        List.append_nil, List.filterMap_nil]
      exact Ends.same (fun event hevent => by cases hevent) hconf
  | cons pair pairs ih =>
      have hboth := (contextStep_ends hconf pair).bind fun s hmid => ih hmid
      rw [events_cons, valuesOf_cons _ pair pairs, List.foldlM_cons]
      simp only [List.forall_mem_append, List.filterMap_append,
        ← List.append_assoc]
      exact hboth

end Runs

section Start

variable {host : Host}

/-- `init_context` up to the loop over the command line. -/
def contextStart (host : Host) (argc : Nat) : Option Server := do
  let s ← startContext host .initial
  if argc = 1 then readConfFile host (← homePath host defaultConfPath) s
  else some s

theorem initContext_start {argv : List (List Byte)} (hargv : argv ≠ []) :
    initContext host argv .initial = (contextStart host argv.length).bind
      (contextOptions host argv.tail) := by
  cases argv with
  | nil => exact absurd rfl hargv
  | cons tgserver argv =>
      rw [initContext_cons, contextStart]
      rfl

/-- What the default file holds is set first, if nothing else is given. -/
def startSettings (host : Host) (argc : Nat) : List (List Byte × List Byte) :=
  if argc = 1 then
    ((homePath host defaultConfPath).map (confPairs host)).getD []
  else []

/-- What a start leaves in front of the loop over the command line; all names
of services it read could be looked up. -/
theorem contextStart_lists {argc : Nat} {s : Server}
    (hstart : contextStart host argc = some s) :
    (∀ pair ∈ startSettings host argc, Readable (lookAfter host []) pair) ∧
      Configured host [] (fun a =>
        (startSettings host argc).filterMap (stored (lookAfter host []) a))
        s := by
  rw [contextStart, Option.bind_eq_bind, Option.bind_eq_some_iff] at hstart
  obtain ⟨started, hstarted, hstart⟩ := hstart
  have hconf : Configured host [] (fun _ => []) started := by
    simp only [startContext, Server.loadServices, Option.bind_eq_bind,
      Option.bind_eq_some_iff] at hstarted
    obtain ⟨dir, hdir, g, hload, hstarted⟩ := hstarted
    obtain rfl := Option.some.inj hstarted
    obtain ⟨g', hcalls, hholding, -⟩ :=
      holding_initial.loadServices host.junk (host.loadCalls dir)
    obtain rfl := Option.some.inj (hload.symm.trans hcalls)
    refine ⟨Option.some_ne_none _, ⟨g, ?_, rfl⟩, hholding⟩
    rw [loadAfter, hdir, Option.bind_eq_bind, Option.bind_some, loadDirs,
      List.foldlM_cons, hcalls]
    rfl
  rw [startSettings]
  split at hstart
  · next hone =>
      rw [Option.bind_eq_bind, Option.bind_eq_some_iff] at hstart
      obtain ⟨path, hpath, hread⟩ := hstart
      rw [if_pos hone, hpath, Option.map_some, Option.getD_some]
      rcases readConfFile_ends hconf path with
        ⟨-, hnone⟩ | ⟨hready, s', hrun, hnext⟩
      · rw [hread] at hnone
        cases hnone
      · obtain rfl := Option.some.inj (hread.symm.trans hrun)
        simp only [List.nil_append] at hnext
        exact ⟨hready, hnext⟩
  · next hmore =>
      obtain rfl := Option.some.inj hstart
      rw [if_neg hmore]
      exact ⟨fun pair hpair => (List.not_mem_nil hpair).elim, hconf⟩

theorem contextStart_configured {argc : Nat} {s : Server}
    (hstart : contextStart host argc = some s) :
    ∃ lists, Configured host [] lists s :=
  ⟨_, (contextStart_lists hstart).2⟩

end Start

section Loads

variable {host : Host}

theorem loadAfter_append (host : Host) (done more : List (List Byte)) :
    loadAfter host (done ++ more) =
      (loadAfter host done).bind (loadDirs host more) := by
  rw [loadAfter, loadAfter]
  cases homePath host defaultServiceDir with
  | none => rfl
  | some dir =>
      rw [Option.bind_eq_bind, Option.bind_some, Option.bind_some,
        ← List.cons_append, loadDirs, List.foldlM_append]
      rfl

/-- A service found in front of further directories is found behind them. -/
theorem lookAfter_stays {done more : List (List Byte)} {name : List Byte}
    {a : Addr} (hlook : lookAfter host done name = some (some a)) :
    lookAfter host (done ++ more) name = some (some a) := by
  rw [lookAfter, Option.bind_eq_some_iff] at hlook
  obtain ⟨g, hload, hlookup⟩ := hlook
  have hholding : Holding g fun _ => [] := by
    rw [loadAfter, Option.bind_eq_bind, Option.bind_eq_some_iff] at hload
    obtain ⟨dir, -, hload⟩ := hload
    obtain ⟨g', hdirs, hnext, -⟩ := holding_initial.loadDirs host (dir :: done)
    obtain rfl := Option.some.inj (hload.symm.trans hdirs)
    exact hnext
  obtain ⟨g', hmore, -, hfinds⟩ := hholding.loadDirs host more
  rw [lookAfter, loadAfter_append, hload, Option.bind_some, hmore]
  exact hfinds name a hlookup

theorem lookAfter_lt {done : List (List Byte)} {name : List Byte} {a : Addr}
    (hlook : lookAfter host done name = some (some a)) {g : Registry}
    (hload : loadAfter host done = some g) : a < g.objects.length := by
  rw [lookAfter, hload] at hlook
  obtain ⟨pSer, hget⟩ := lookupN_found hlook
  exact (List.getElem?_eq_some_iff.mp hget).1

end Loads

end TgServer
