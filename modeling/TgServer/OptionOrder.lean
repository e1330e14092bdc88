/-
The order of the options `-f` and `-s` on the command line: on which command
lines all lines of the files reach their services, in whatever order the files
are read and the directories loaded.
-/
import TgServer.OptionRun

namespace TgServer

open Bytes

/-- The lines of a file that give a service a parameter. -/
def serviceLines (host : Host) (path : List Byte) :
    List (List Byte × List Byte) :=
  (confPairs host path).filterMap serviceLine

/-- The parameters of each service, in the order they were loaded. -/
def Server.parameterLists (s : Server) : Option (List (List (List Byte))) :=
  s.registry.objects.mapM (parameterTexts s.registry)

/-- Every command line with the pairs moved is accepted and leaves the same
parameters, among them each line of a file whose service is loaded. -/
def OrderFree (host : Host) (argv : List (List Byte))
    (pairs : List OptionPair)
    (Moved : List OptionPair → List OptionPair → Prop) : Prop :=
  ∃ lists, ∀ pairs', Moved pairs pairs' → ∃ s',
    initContext host (withPairs argv pairs pairs') .initial = some (0, s') ∧
    s'.parameterLists = some lists ∧
    ∀ file ∈ valuesOf (char 'f') pairs, ∀ line ∈ serviceLines host file,
      ∀ a, lookupN s'.registry line.1 = some (some a) →
        ∃ texts, lists[a]? = some texts ∧ line.2 ∈ texts

/-- The service of each line of a file is found after the default directory, or
after none of the others; no lookup leaves the array. -/
def Settled (host : Host) (pairs : List OptionPair) : Prop :=
  ∀ file ∈ valuesOf (char 'f') pairs, ∀ line ∈ serviceLines host file,
    ∃ found, ∀ done, done <+: valuesOf (char 's') pairs →
      lookAfter host done line.1 = some found

section Agreement

variable {look look' : List Byte → Option (Option Addr)}
variable {setting : List Byte × List Byte}

/-- Only the lookup of its service counts for what a setting leaves. -/
theorem stored_congr (hsame : ∀ line, serviceLine setting = some line →
    look' line.1 = look line.1) (a : Addr) :
    stored look' a setting = stored look a setting := by
  rw [stored, stored]
  cases hline : serviceLine setting with
  | none => rfl
  | some line =>
      have hlook := hsame line hline
      simp only [Option.bind_some, hlook]

theorem stored_some_iff {a : Addr} {value : List Byte} :
    stored look a setting = some value ↔ ∃ name,
      serviceLine setting = some (name, value) ∧
        look name = some (some a) := by
  rw [stored, Option.bind_eq_some_iff]
  constructor
  · rintro ⟨⟨name, text⟩, hline, hstored⟩
    dsimp only at hstored
    split at hstored
    · next hfound =>
        obtain rfl := Option.some.inj hstored
        exact ⟨name, hline, hfound⟩
    · cases hstored
  · rintro ⟨name, hline, hfound⟩
    exact ⟨(name, value), hline, if_pos hfound⟩

/-- Of two ways to pick from a list, one of which picks what the other does, the
numbers agree only if both pick the same. -/
theorem filterMap_agree {α β : Type} {f g : α → Option β} {l : List α}
    (hpicks : ∀ x ∈ l, ∀ y, f x = some y → g x = some y) :
    (l.filterMap f).length ≤ (l.filterMap g).length ∧
      ((l.filterMap f).length = (l.filterMap g).length →
        ∀ x ∈ l, f x = g x) := by
  induction l with
  | nil => exact ⟨Nat.le_refl 0, fun _ x hx => by cases hx⟩
  | cons x l ih =>
      obtain ⟨hle, hsame⟩ := ih fun other hother =>
        hpicks other (List.mem_cons_of_mem x hother)
      cases hf : f x with
      | some y =>
          have hg := hpicks x List.mem_cons_self y hf
          rw [List.filterMap_cons_some hf, List.filterMap_cons_some hg]
          refine ⟨Nat.succ_le_succ hle, fun hlength => ?_⟩
          rw [List.forall_mem_cons, hf, hg]
          exact ⟨rfl, hsame (Nat.succ.inj hlength)⟩
      | none =>
          rw [List.filterMap_cons_none hf]
          cases hg : g x with
          | none =>
              rw [List.filterMap_cons_none hg]
              refine ⟨hle, fun hlength => ?_⟩
              rw [List.forall_mem_cons, hf, hg]
              exact ⟨rfl, hsame hlength⟩
          | some y =>
              rw [List.filterMap_cons_some hg, List.length_cons]
              exact ⟨Nat.le_succ_of_le hle, fun hlength => by omega⟩

end Agreement

section Moved

variable {host : Host} {argv : List (List Byte)} {pairs pairs' : List OptionPair}

theorem Configured.parameterLists {done : List (List Byte)}
    {lists : Addr → List (List Byte)} {s : Server}
    (hconf : Configured host done lists s) {g : Registry}
    (hload : loadAfter host done = some g) :
    s.registry.objects.length = g.objects.length ∧
      s.parameterLists = some ((List.range g.objects.length).map lists) := by
  obtain ⟨g', hload', hbare⟩ := hconf.loaded
  obtain rfl := Option.some.inj (hload.symm.trans hload')
  have hlength : s.registry.objects.length = g.objects.length := by
    rw [← s.registry.bare_length, hbare, g.bare_length]
  exact ⟨hlength, hlength ▸ hconf.holding.owned.parameterTexts⟩

/-- A command line in which the pairs were moved does what its pairs do. -/
theorem initContext_moved (hpairs : contextPairs argv.tail = some pairs)
    (hargv : argv ≠ []) {start : Server}
    (hstart : contextStart host argv.length = some start)
    (hperm : pairs'.Perm pairs) :
    initContext host (withPairs argv pairs pairs') .initial =
      (pairs'.foldlM (contextStep host) start).map fun s => (0, s) := by
  obtain ⟨htaken, hlength⟩ := contextPairs_withPairs hpairs hargv hperm
  have hsome : withPairs argv pairs pairs' ≠ [] := by
    rw [← List.length_pos_iff, hlength]
    exact List.length_pos_iff.mpr hargv
  rw [initContext_start hsome, hlength, hstart, Option.bind_some,
    contextOptions_pairs host htaken]

theorem Reordered.sameSettings (hmoved : Reordered pairs pairs') :
    settings host pairs' = settings host pairs := by
  rw [settings, settings, valuesOf, valuesOf, hmoved.files]

/-- A setting that names a service is one of the lines. -/
theorem Settled.setting (hsettled : Settled host pairs)
    {setting line : List Byte × List Byte}
    (hsetting : setting ∈ settings host pairs)
    (hline : serviceLine setting = some line) :
    ∃ found, ∀ done, done <+: valuesOf (char 's') pairs →
      lookAfter host done line.1 = some found := by
  obtain ⟨file, hfile, hsetting⟩ := List.mem_flatMap.mp hsetting
  exact hsettled file hfile line
    (List.mem_filterMap.mpr ⟨setting, hsetting, hline⟩)

variable {event : List (List Byte) × (List Byte × List Byte)}

/-- However the pairs were moved, the settings are those of the files, each
behind a part of the directories. -/
theorem Reordered.taken (hmoved : Reordered pairs pairs')
    (hevent : event ∈ events host pairs' []) :
    event.1 <+: valuesOf (char 's') pairs ∧
      event.2 ∈ settings host pairs := by
  constructor
  · have hbegins := events_done host hevent
    rwa [List.nil_append, valuesOf, hmoved.dirs] at hbegins
  · rw [← hmoved.sameSettings, ← events_settings host pairs' []]
    exact List.mem_map_of_mem hevent

/-- In front of each setting its service is found where it is in the end. -/
theorem Settled.look (hsettled : Settled host pairs)
    (hmoved : Reordered pairs pairs')
    (hevent : event ∈ events host pairs' []) :
    ∀ line, serviceLine event.2 = some line →
      lookAfter host event.1 line.1 ≠ none ∧
      lookAfter host event.1 line.1 =
        lookAfter host (valuesOf (char 's') pairs) line.1 := by
  intro line hline
  obtain ⟨hbegins, hsetting⟩ := hmoved.taken hevent
  obtain ⟨found, hfound⟩ := hsettled.setting hsetting hline
  rw [hfound _ hbegins, hfound _ List.prefix_rfl]
  exact ⟨Option.some_ne_none _, rfl⟩

/-- What reaches a service does not depend on the order. -/
theorem Settled.sameStored (hsettled : Settled host pairs)
    (hmoved : Reordered pairs pairs') (a : Addr) :
    ((events host pairs' []).filterMap fun event =>
      stored (lookAfter host event.1) a event.2) =
    (settings host pairs).filterMap
      (stored (lookAfter host (valuesOf (char 's') pairs)) a) := by
  have hsame : ∀ event ∈ events host pairs' [],
      stored (lookAfter host event.1) a event.2 =
        (stored (lookAfter host (valuesOf (char 's') pairs)) a ∘
          Prod.snd) event := fun event hevent =>
    stored_congr (fun line hline => (hsettled.look hmoved hevent line hline).2)
      a
  rw [List.filterMap_congr hsame, ← List.filterMap_map, events_settings,
    hmoved.sameSettings]

/-- What an accepted command line shows of its start and its files. -/
theorem accepted_start {s : Server}
    (haccepts : initContext host argv .initial = some (0, s))
    (hpairs : contextPairs argv.tail = some pairs) :
    argv ≠ [] ∧ ∃ start lists, contextStart host argv.length = some start ∧
      Configured host [] lists start ∧
      ∀ setting ∈ settings host pairs, setting.1.getD 0 0 ≠ char '[' →
        confParameter setting.1 ≠ none := by
  have hargv : argv ≠ [] := by
    rintro rfl
    simp [initContext] at haccepts
  rw [initContext_start hargv, Option.bind_eq_some_iff] at haccepts
  obtain ⟨start, hstart, hrun⟩ := haccepts
  obtain ⟨lists, hconf⟩ := contextStart_configured hstart
  refine ⟨hargv, start, lists, hstart, hconf, fun setting hsetting => ?_⟩
  rw [contextOptions_pairs host hpairs, Option.map_eq_some_iff] at hrun
  obtain ⟨last, hlast, -⟩ := hrun
  rw [← events_settings host pairs [], List.mem_map] at hsetting
  obtain ⟨event, hevent, rfl⟩ := hsetting
  rcases contextSteps_ends hconf pairs with ⟨-, hnone⟩ | ⟨hready, -⟩
  · rw [hlast] at hnone
    cases hnone
  · exact (hready event hevent).lettered

theorem orderFree_of_settled {s : Server}
    (haccepts : initContext host argv .initial = some (0, s))
    (hpairs : contextPairs argv.tail = some pairs)
    (hsettled : Settled host pairs) : OrderFree host argv pairs Reordered := by
  obtain ⟨hargv, start, lists, hstart, hconf, hlettered⟩ :=
    accepted_start haccepts hpairs
  let dirs := valuesOf (char 's') pairs
  let texts : Addr → List (List Byte) := fun a => lists a ++
    (settings host pairs).filterMap (stored (lookAfter host dirs) a)
  have hruns : ∀ pairs', Reordered pairs pairs' → ∃ s',
      pairs'.foldlM (contextStep host) start = some s' ∧
      Configured host dirs texts s' := by
    intro pairs' hmoved
    have hready : ∀ event ∈ events host pairs' [],
        Readable (lookAfter host event.1) event.2 := by
      intro event hevent
      refine ⟨hlettered _ (hmoved.taken hevent).2, fun line hline => ?_⟩
      exact (hsettled.look hmoved hevent line hline).1
    rcases contextSteps_ends hconf pairs' with ⟨hstop, -⟩ | ⟨-, s', hrun, hnext⟩
    · exact absurd hready hstop
    · refine ⟨s', hrun, ?_⟩
      simp only [hsettled.sameStored hmoved, List.nil_append, valuesOf,
        hmoved.dirs] at hnext
      exact hnext
  obtain ⟨first, -, hfirst⟩ := hruns pairs ⟨rfl, rfl, rfl⟩
  obtain ⟨g, hload, -⟩ := hfirst.loaded
  refine ⟨(List.range g.objects.length).map texts, fun pairs' hmoved => ?_⟩
  obtain ⟨s', hrun, hnext⟩ := hruns pairs' hmoved
  obtain ⟨hlength, htexts⟩ := hnext.parameterLists hload
  refine ⟨s', ?_, htexts, ?_⟩
  · rw [initContext_moved hpairs hargv hstart hmoved.perm, hrun]
    rfl
  · intro file hfile line hline a hfound
    obtain ⟨pSer, hget⟩ := lookupN_found hfound
    have hlt := (List.getElem?_eq_some_iff.mp hget).1
    rw [hlength] at hlt
    obtain ⟨setting, hsetting, hservice⟩ := List.mem_filterMap.mp hline
    refine ⟨texts a, by simp [hlt], List.mem_append_right _ ?_⟩
    refine List.mem_filterMap.mpr
      ⟨setting, List.mem_flatMap.mpr ⟨file, hfile, hsetting⟩, ?_⟩
    rw [hnext.look] at hfound
    exact stored_some_iff.mpr ⟨line.1, hservice, hfound⟩

end Moved

section Behind

variable (host : Host) (pairs : List OptionPair) (n : Nat)

/-- Moved behind some directories, all settings are made there. -/
theorem events_filesBehind : events host (filesBehind pairs n) [] =
    (settings host pairs).map fun setting =>
      ((valuesOf (char 's') pairs).take n, setting) := by
  have hfront : ∀ pair ∈ (optionsOf (char 's') pairs).take n,
      optionLetter pair = char 's' := fun pair hpair =>
    letter_of_mem (List.mem_of_mem_take hpair)
  have hback : ∀ pair ∈ (optionsOf (char 's') pairs).drop n,
      optionLetter pair = char 's' := fun pair hpair =>
    letter_of_mem (List.mem_of_mem_drop hpair)
  have hfiles : ∀ pair ∈ optionsOf (char 'f') pairs,
      optionLetter pair = char 'f' := fun pair hpair => letter_of_mem hpair
  rw [filesBehind, events_append, events_append, events_dirs host hfront,
    events_dirs host hback, events_files host hfiles, settings, settings]
  simp only [valuesOf, optionsOf_same hfiles, optionsOf_same hfront,
    List.map_take, List.nil_append, List.append_nil]

end Behind

section Freedom

variable {host : Host} {argv : List (List Byte)} {pairs : List OptionPair}

/-- What each service has when the files are moved behind the first
directories. -/
theorem OrderFree.behind {s : Server}
    (haccepts : initContext host argv .initial = some (0, s))
    (hpairs : contextPairs argv.tail = some pairs)
    (hfree : OrderFree host argv pairs ReorderedInPlace) :
    ∃ g, ∃ counts : Addr → Nat,
      loadAfter host (valuesOf (char 's') pairs) = some g ∧ ∀ n,
      (∀ setting ∈ settings host pairs, Readable
        (lookAfter host ((valuesOf (char 's') pairs).take n)) setting) ∧
      ∀ a < g.objects.length, ((settings host pairs).filterMap (stored
        (lookAfter host ((valuesOf (char 's') pairs).take n)) a)).length =
          counts a := by
  obtain ⟨hargv, start, lists, hstart, hconf, -⟩ :=
    accepted_start haccepts hpairs
  obtain ⟨all, hall⟩ := hfree
  have hruns : ∀ n, ∃ s', s'.parameterLists = some all ∧
      (∀ setting ∈ settings host pairs, Readable
        (lookAfter host ((valuesOf (char 's') pairs).take n)) setting) ∧
      Configured host (valuesOf (char 's') pairs) (fun a => lists a ++
        (settings host pairs).filterMap (stored
          (lookAfter host ((valuesOf (char 's') pairs).take n)) a)) s' := by
    intro n
    have hmoved := refill_reordered pairs n
    have hevents : events host (refill pairs (filesBehind pairs n)) [] =
        (settings host pairs).map fun setting =>
          ((valuesOf (char 's') pairs).take n, setting) := by
      rw [← events_moves, refill_moved (filesBehind_moves pairs n)
        (length_filesBehind pairs n), events_filesBehind]
    obtain ⟨s', hrun, hlists, -⟩ := hall _ hmoved
    rw [initContext_moved hpairs hargv hstart hmoved.perm,
      Option.map_eq_some_iff] at hrun
    obtain ⟨last, hlast, heq⟩ := hrun
    obtain rfl : last = s' := (Prod.mk.inj heq).2
    have hends := contextSteps_ends hconf (refill pairs (filesBehind pairs n))
    simp only [hevents, List.forall_mem_map, List.filterMap_map, hlast,
      List.nil_append, valuesOf, hmoved.dirs] at hends
    rcases hends with ⟨-, hnone⟩ | ⟨hready, s', hsame, hnext⟩
    · cases hnone
    · obtain rfl := Option.some.inj hsame
      exact ⟨last, hlists, hready, hnext⟩
  obtain ⟨first, -, -, hfirst⟩ := hruns 0
  obtain ⟨g, hload, -⟩ := hfirst.loaded
  refine ⟨g, fun a => (all.getD a []).length - (lists a).length, hload,
    fun n => ?_⟩
  obtain ⟨s', hlists, hready, hnext⟩ := hruns n
  refine ⟨hready, fun a ha => ?_⟩
  have hsame := (hnext.parameterLists hload).2
  rw [hlists, Option.some.injEq] at hsame
  rw [hsame]
  simp [ha]

/-- So many parameters cannot reach the services unless each setting that
reaches one in the end reaches it there. -/
theorem OrderFree.agree {s : Server}
    (haccepts : initContext host argv .initial = some (0, s))
    (hpairs : contextPairs argv.tail = some pairs)
    (hfree : OrderFree host argv pairs ReorderedInPlace)
    {done : List (List Byte)} (hdone : done <+: valuesOf (char 's') pairs)
    {setting : List Byte × List Byte}
    (hsetting : setting ∈ settings host pairs) :
    Readable (lookAfter host done) setting ∧
      ∀ g, loadAfter host (valuesOf (char 's') pairs) = some g →
      ∀ a < g.objects.length, stored (lookAfter host done) a setting =
        stored (lookAfter host (valuesOf (char 's') pairs)) a setting := by
  obtain ⟨g, counts, hload, hbehind⟩ := hfree.behind haccepts hpairs
  obtain ⟨hready, hcounts⟩ := hbehind done.length
  obtain ⟨-, hlast⟩ := hbehind (valuesOf (char 's') pairs).length
  rw [← List.prefix_iff_eq_take.mp hdone] at hready hcounts
  rw [List.take_length] at hlast
  refine ⟨hready setting hsetting, fun g' hload' a ha => ?_⟩
  obtain rfl := Option.some.inj (hload.symm.trans hload')
  have hpicks : ∀ other ∈ settings host pairs, ∀ value,
      stored (lookAfter host done) a other = some value →
      stored (lookAfter host (valuesOf (char 's') pairs)) a other =
        some value := by
    intro other _ value hvalue
    obtain ⟨name, hline, hfound⟩ := stored_some_iff.mp hvalue
    obtain ⟨more, hmore⟩ := hdone
    exact stored_some_iff.mpr ⟨name, hline, hmore ▸ lookAfter_stays hfound⟩
  exact (filterMap_agree hpicks).2 ((hcounts a ha).trans (hlast a ha).symm)
    setting hsetting

theorem settled_of_orderFree {s : Server}
    (haccepts : initContext host argv .initial = some (0, s))
    (hpairs : contextPairs argv.tail = some pairs)
    (hfree : OrderFree host argv pairs ReorderedInPlace) :
    Settled host pairs := by
  intro file hfile line hline
  obtain ⟨setting, hsetting, hservice⟩ := List.mem_filterMap.mp hline
  have hmem : setting ∈ settings host pairs :=
    List.mem_flatMap.mpr ⟨file, hfile, hsetting⟩
  obtain ⟨hreadyLast, -⟩ :=
    hfree.agree haccepts hpairs List.prefix_rfl hmem
  obtain ⟨found, hlast⟩ := Option.ne_none_iff_exists'.mp
    (hreadyLast.defined line hservice)
  refine ⟨found, fun done hdone => ?_⟩
  obtain ⟨hready, hagree⟩ := hfree.agree haccepts hpairs hdone hmem
  obtain ⟨early, hlook⟩ := Option.ne_none_iff_exists'.mp
    (hready.defined line hservice)
  rw [hlook, ← hlast]
  cases early with
  | some a =>
      obtain ⟨more, hmore⟩ := hdone
      exact (hmore ▸ lookAfter_stays hlook).symm
  | none =>
      cases found with
      | none => exact hlast.symm
      | some a =>
          -- the line would not reach the service behind these directories
          obtain ⟨g, hload⟩ : ∃ g,
              loadAfter host (valuesOf (char 's') pairs) = some g := by
            cases hload : loadAfter host (valuesOf (char 's') pairs) with
            | none =>
                rw [lookAfter, hload] at hlast
                cases hlast
            | some g => exact ⟨g, rfl⟩
          have hstored := stored_some_iff.mpr ⟨line.1, hservice, hlast⟩
          rw [← hagree g hload a (lookAfter_lt hlast hload)] at hstored
          obtain ⟨name, hname, hfound⟩ := stored_some_iff.mp hstored
          have hsame : line.1 = name :=
            congrArg Prod.fst (Option.some.inj (hservice.symm.trans hname))
          rw [← hsame, hlook] at hfound
          cases hfound

/-- On a command line that `init_context` accepts, the parameters are the same
however the files and the directories are moved, and each line of a file
reaches its service, exactly if no line names a service that only a directory
on the command line loads. -/
theorem orderFree_iff {host : Host} {argv : List (List Byte)} {s : Server}
    (haccepts : initContext host argv .initial = some (0, s)) :
    ∃ pairs, contextPairs argv.tail = some pairs ∧
      (OrderFree host argv pairs Reordered ↔ Settled host pairs) ∧
      (OrderFree host argv pairs ReorderedInPlace ↔ Settled host pairs) := by
  obtain ⟨read, hoptions⟩ := initContext_options haccepts
  obtain ⟨pairs, hpairs⟩ := contextPairs_of_accepts host hoptions
  have hplaces : OrderFree host argv pairs Reordered →
      OrderFree host argv pairs ReorderedInPlace := by
    rintro ⟨lists, hlists⟩
    exact ⟨lists, fun pairs' hmoved => hlists pairs' hmoved.toReordered⟩
  refine ⟨pairs, hpairs, ?_, ?_⟩
  · exact ⟨fun hfree => settled_of_orderFree haccepts hpairs (hplaces hfree),
      orderFree_of_settled haccepts hpairs⟩
  · exact ⟨settled_of_orderFree haccepts hpairs,
      fun hsettled => hplaces (orderFree_of_settled haccepts hpairs hsettled)⟩

end Freedom

namespace OptionOrder

/-- A host with a library in the default directory, another one in every other
directory, and one file. -/
def host (default extra : List Byte) (file : List Byte) : Host :=
  ⟨none, fun dir =>
      if dir = ascii "../plugins/" then some [⟨default, true⟩]
      else some [⟨extra, true⟩],
    fun _ => some ⟨some 1, some 2, some 3, some 4, some 5⟩,
    fun _ => some file, fun _ => 0, fun _ _ => none⟩

/-- The file in front of the directory. -/
def front : List (List Byte) :=
  [ascii "tgserver", ascii "-f", ascii "conf", ascii "-s", ascii "lib"]

/-- The line names the service of the default directory. -/
def early : Host := host (ascii "echo") (ascii "log") (ascii "[D]echo=a\n")

theorem orderFree_iff_default :
    ∃ s, initContext early front .initial = some (0, s) ∧
      ∃ pairs, contextPairs front.tail = some pairs ∧
        (OrderFree early front pairs Reordered ↔ Settled early pairs) ∧
        (OrderFree early front pairs ReorderedInPlace ↔
          Settled early pairs) := by
  obtain ⟨s, haccepts⟩ : ∃ s, initContext early front .initial =
      some (0, s) := ⟨_, rfl⟩
  exact ⟨s, haccepts, orderFree_iff haccepts⟩

def conf : OptionPair := (ascii "-f", ascii "conf")
def lib : OptionPair := (ascii "-s", ascii "lib")

/-- It names the service of the other directory. -/
def late : Host := host (ascii "log") (ascii "echo") (ascii "[D]echo=a\n")

/-- The parameter is lost behind `-f` and set in front of it. -/
theorem order_matters :
    contextPairs front.tail = some [conf, lib] ∧
    ReorderedInPlace [conf, lib] [lib, conf] ∧
    (initContext late front .initial).map
      (fun result => (result.1, result.2.parameterLists)) =
        some (0, some [[], []]) ∧
    (initContext late (withPairs front [conf, lib] [lib, conf]) .initial).map
      (fun result => (result.1, result.2.parameterLists)) =
        some (0, some [[], [ascii "a\n"]]) ∧
    ¬ OrderFree late front [conf, lib] ReorderedInPlace := by
  have hmoved : ReorderedInPlace [conf, lib] [lib, conf] :=
    ⟨⟨by decide, by decide, by decide⟩, by decide⟩
  have hfront : (initContext late front .initial).map
      (fun result => (result.1, result.2.parameterLists)) =
        some (0, some [[], []]) := by decide +kernel
  have hbehind : (initContext late (withPairs front [conf, lib] [lib, conf])
      .initial).map (fun result => (result.1, result.2.parameterLists)) =
        some (0, some [[], [ascii "a\n"]]) := by decide +kernel
  refine ⟨by decide, hmoved, hfront, hbehind, ?_⟩
  rintro ⟨lists, hlists⟩
  obtain ⟨first, hrun, hfirst, -⟩ :=
    hlists [conf, lib] ⟨⟨rfl, rfl, rfl⟩, rfl⟩
  obtain ⟨second, hrun', hsecond, -⟩ := hlists [lib, conf] hmoved
  rw [show withPairs front [conf, lib] [conf, lib] = front from rfl] at hrun
  rw [hrun, Option.map_some, hfirst] at hfront
  rw [hrun', Option.map_some, hsecond] at hbehind
  have hsame := hfront.symm.trans hbehind
  exact absurd hsame (by decide)

end OptionOrder

end TgServer
