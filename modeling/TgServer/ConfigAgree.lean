/-
The same settings given in a file and on the command line.  Numbers and the
level of the log come out the same; whatever is kept as a text differs by the
newline of its line.
-/
import TgServer.Setting

namespace TgServer

open Bytes

/-- What a start leaves of its settings; the parameters are those of each
registered service. -/
structure Configuration where
  port : Int
  listenIp : Option (List Byte)
  maxClients : Int
  logLevel : Int
  parameters : List (List (List Byte))
deriving Repr, DecidableEq

def Server.configuration (s : Server) : Option Configuration := do
  let ctx ← s.globals.gContext
  return ⟨ctx.pServer.port, ctx.pServer.listenIp, ctx.pServer.maxClients,
    ctx.logLevel, ← s.registry.objects.mapM (parameterTexts s.registry)⟩

/-- `init_context` and then `init_plugin`, as `main` calls them. -/
def configure (host : Host) (argv : List (List Byte)) :
    Option Configuration := do
  let (flag, s) ← initContext host argv .initial
  if flag = 0 then (← initPlugin argv s).configuration else none

/-- The command lines that make `init_context` read a file with the given
content and no other. -/
inductive Host.Reads (host : Host) (content : List Byte) :
    List (List Byte) → Prop where
  | default (tgserver : List Byte) {path : List Byte}
      (hpath : homePath host defaultConfPath = some path)
      (hopen : host.fopen path = some content) : host.Reads content [tgserver]
  | option (tgserver : List Byte) {path : List Byte} (hpath : path ≠ [])
      (hopen : host.fopen path = some content) :
      host.Reads content [tgserver, ascii "-f", path]

/-- Not kept as a text: neither the address nor a parameter of a loaded
service. -/
def Setting.Plain (g : Registry) : Setting → Prop
  | .listen _ => False
  | .service text => lookupN g (Setting.serviceName text) = some none
  | _ => True

def Setting.isListen : Setting → Bool
  | .listen _ => true
  | _ => false

section Contexts

/-- The contexts after settings from a file and from the command line;
`listens` says whether the address was among them. -/
structure Alike (listens : Bool) (file argv : TGContext × List Byte) : Prop where
  port : file.1.pServer.port = argv.1.pServer.port
  maxClients : file.1.pServer.maxClients = argv.1.pServer.maxClients
  logLevel : file.1.logLevel = argv.1.logLevel
  listenIp : if listens then ∃ v,
      file.1.pServer.listenIp = some (v ++ [char '\n']) ∧
        argv.1.pServer.listenIp = some v
    else file.1.pServer.listenIp = argv.1.pServer.listenIp

theorem atoi_newline (v : List Byte) :
    Decimal.atoi (v ++ [char '\n']) = Decimal.atoi (v ++ []) := by
  rw [List.append_nil]
  exact Decimal.atoi_append_space v (by decide)

theorem Alike.context {listens : Bool} {file argv : TGContext × List Byte}
    (halike : Alike listens file argv) {setting : Setting}
    (hfits : setting.Fits) :
    Alike (listens || setting.isListen) (setting.context [char '\n'] file)
      (setting.context [] argv) := by
  obtain ⟨hport, hmax, hlevel, hlisten⟩ := halike
  cases setting with
  | port v =>
      refine ⟨?_, hmax, hlevel, (Bool.or_false listens).symm ▸ hlisten⟩
      simp only [Setting.context, TGContext.setPort, atoi_newline]
  | maxClients v =>
      refine ⟨hport, ?_, hlevel, (Bool.or_false listens).symm ▸ hlisten⟩
      simp only [Setting.context, TGContext.setMaxClients, atoi_newline]
  | listen v =>
      refine ⟨hport, hmax, hlevel, ?_⟩
      rw [Setting.isListen, Bool.or_true, if_pos rfl]
      exact ⟨v, rfl, by rw [Setting.context, List.append_nil]; rfl⟩
  | logLevel v =>
      refine ⟨hport, hmax, ?_, (Bool.or_false listens).symm ▸ hlisten⟩
      have hfirst : (v ++ [char '\n']).getD 0 0 = (v ++ []).getD 0 0 := by
        cases v with
        | nil => exact absurd rfl hfits.value
        | cons c rest => rfl
      simp only [Setting.context, hfirst]
  | service text =>
      exact ⟨hport, hmax, hlevel, (Bool.or_false listens).symm ▸ hlisten⟩

theorem contextRun_alike {settings : List Setting}
    (hfits : ∀ setting ∈ settings, setting.Fits) {listens : Bool}
    {file argv : TGContext × List Byte} (halike : Alike listens file argv) :
    Alike (listens || settings.any Setting.isListen)
      (Setting.contextRun [char '\n'] settings file)
      (Setting.contextRun [] settings argv) := by
  induction settings generalizing listens file argv with
  | nil => rwa [List.any_nil, Bool.or_false]
  | cons setting rest ih =>
      have hnext := ih
        (fun other hother => hfits other (List.mem_cons_of_mem _ hother))
        (halike.context (hfits setting List.mem_cons_self))
      rw [List.any_cons, ← Bool.or_assoc]
      exact hnext

end Contexts

section Services

/-- The values a setting gives the record at `a`. -/
def Setting.received (g : Registry) (a : Addr) : Setting → List (List Byte)
  | .service text =>
      if lookupN g (Setting.serviceName text) = some (some a) then
        [Setting.serviceValue text]
      else []
  | _ => []

def received (g : Registry) (a : Addr) (settings : List Setting) :
    List (List Byte) :=
  settings.flatMap (Setting.received g a)

/-- All lookups of a list of settings stay inside the array. -/
def LookupsDefined (g : Registry) (settings : List Setting) : Prop :=
  ∀ text, .service text ∈ settings →
    lookupN g (Setting.serviceName text) ≠ none

/-- A setting of a service is stored for the record its name is looked up at;
a lookup that leaves the array is undefined. -/
theorem service_cases (text tail : List Byte) {start g : Registry}
    {lists : Addr → List (List Byte)} (hsame : SameNames start g)
    (howned : Owned g lists) :
    (lookupN start (Setting.serviceName text) = none ∧
      (Setting.service text).parameters tail g = none) ∨
    ∃ g', (Setting.service text).parameters tail g = some g' ∧
      lookupN start (Setting.serviceName text) ≠ none ∧
      SameNames start g' ∧ g'.objects.length = g.objects.length ∧
      Owned g' fun a => lists a ++
        ((Setting.service text).received start a).map (· ++ tail) := by
  have hparameters : (Setting.service text).parameters tail g = _ :=
    setServiceCreateParametersByN_eq g _ _
  rw [hsame.lookupN] at hparameters
  simp only [hparameters, Setting.received]
  cases hlookup : lookupN start (Setting.serviceName text) with
  | none => exact Or.inl ⟨rfl, rfl⟩
  | some found =>
      refine Or.inr ?_
      cases found with
      | none =>
          refine ⟨g, rfl, Option.some_ne_none _, hsame, rfl, ?_⟩
          simpa using howned
      | some a =>
          obtain ⟨pSer, hget⟩ :=
            lookupN_found ((hsame.lookupN _).trans hlookup)
          obtain ⟨g', hset, hnames, hlength, hpush⟩ :=
            howned.push hget (Setting.serviceValue text ++ tail)
          refine ⟨g', hset, Option.some_ne_none _, hsame.trans hnames, hlength,
            ?_⟩
          rw [update_append] at hpush
          simpa [apply_ite (List.map (· ++ tail))] using hpush

/-- A setting of the context looks up nothing. -/
theorem setting_cases (setting : Setting) (tail : List Byte)
    {start g : Registry} {lists : Addr → List (List Byte)}
    (hsame : SameNames start g) (howned : Owned g lists) :
    (¬LookupsDefined start [setting] ∧
      setting.parameters tail g = none) ∨
    ∃ g', setting.parameters tail g = some g' ∧
      LookupsDefined start [setting] ∧
      SameNames start g' ∧ g'.objects.length = g.objects.length ∧
      Owned g' fun a =>
        lists a ++ (setting.received start a).map (· ++ tail) := by
  cases setting with
  | service text =>
      rcases service_cases text tail hsame howned with
        ⟨hlookup, hnone⟩ | ⟨g', hsome, hlookup, hrest⟩
      · exact Or.inl ⟨fun hall => hall text List.mem_cons_self hlookup, hnone⟩
      · refine Or.inr ⟨g', hsome, fun other hother => ?_, hrest⟩
        cases List.mem_singleton.mp hother
        exact hlookup
  | port v | listen v | maxClients v | logLevel v =>
      refine Or.inr ⟨g, rfl, fun text htext => ?_, hsame, rfl, ?_⟩
      · cases List.mem_singleton.mp htext
      · simpa [Setting.received] using howned

/-- Each setting of a service is stored for the record its name is looked up
at; a lookup that leaves the array ends the run. -/
theorem parametersRun_cases (tail : List Byte) (settings : List Setting)
    {start g : Registry} {lists : Addr → List (List Byte)}
    (hsame : SameNames start g) (howned : Owned g lists) :
    (¬LookupsDefined start settings ∧
      Setting.parametersRun tail settings g = none) ∨
    ∃ g', Setting.parametersRun tail settings g = some g' ∧
      LookupsDefined start settings ∧
      g'.objects.length = g.objects.length ∧
      Owned g' fun a =>
        lists a ++ (received start a settings).map (· ++ tail) := by
  induction settings generalizing g lists with
  | nil =>
      refine Or.inr ⟨g, rfl, fun text htext => ?_, rfl, ?_⟩
      · cases htext
      · simpa [received] using howned
  | cons setting rest ih =>
      rw [Setting.parametersRun, List.foldlM_cons]
      rcases setting_cases setting tail hsame howned with
        ⟨hundefined, hnone⟩ | ⟨mid, hsome, hdefined, hmid, hlength, hpush⟩
      · rw [hnone]
        refine Or.inl ⟨fun hall => hundefined fun text htext => ?_, rfl⟩
        exact hall text (List.mem_cons.mpr
          (Or.inl (List.mem_singleton.mp htext)))
      · rw [hsome]
        rcases ih hmid hpush with
          ⟨hundefined, hnone⟩ | ⟨g', hrun, hall, hobjects, hfinal⟩
        · refine Or.inl ⟨fun hboth => hundefined fun text htext => ?_, hnone⟩
          exact hboth text (List.mem_cons_of_mem _ htext)
        · refine Or.inr ⟨g', hrun, fun text htext => ?_,
            hobjects.trans hlength, ?_⟩
          · rcases List.mem_cons.mp htext with heq | hmem
            · exact hdefined text (List.mem_singleton.mpr heq)
            · exact hall text hmem
          · simpa only [received, List.flatMap_cons, List.map_append,
              List.append_assoc] using hfinal

end Services

section Starts

variable {host : Host} {start : Server}

/-- `init_context` comes to the command line with a context and with services
that have no parameters. -/
theorem startContext_started (hstart : startContext host .initial = some start) :
    (∃ ctx, start.globals.gContext = some ctx) ∧ Unset start.registry := by
  simp only [startContext, Option.bind_eq_bind, Option.bind_eq_some_iff]
    at hstart
  obtain ⟨dir, -, hload⟩ := hstart
  simp only [Server.loadServices, Option.bind_eq_bind, Option.bind_eq_some_iff,
    Option.pure_def, Option.some.injEq] at hload
  obtain ⟨g, hload, rfl⟩ := hload
  refine ⟨⟨_, rfl⟩, Unset.loadServices ?_ hload⟩
  intro pSer hmem
  cases hmem

/-- A start that reads a file takes its lines one after the other. -/
theorem configure_reads (hstart : startContext host .initial = some start)
    {content : List Byte} {argv : List (List Byte)}
    (hreads : host.Reads content argv) :
    configure host argv =
      ((fileLines content.length content).foldlM confLine start).bind
        Server.configuration := by
  cases hreads with
  | @default tgserver path hpath hopen =>
      have hsome : path ≠ [] := by
        rw [homePath] at hpath
        split at hpath
        · rintro rfl
          have hnil := (List.append_eq_nil_iff.mp (Option.some.inj hpath)).2
          exact absurd hnil (by decide)
        · cases hpath
      simp only [configure, initContext, hstart, hpath, Option.bind_eq_bind,
        Option.bind_some, List.length_singleton, ↓reduceIte,
        readConfFile_opened hsome hopen]
      cases (fileLines content.length content).foldlM confLine start <;> rfl
  | @option tgserver path hsome hopen =>
      have hgood : badPair (ascii "-f") path = false := badPair_letter hsome
      have hcontext : initContext host [tgserver, ascii "-f", path] .initial =
          ((fileLines content.length content).foldlM confLine start).map
            (0, ·) := by
        rw [initContext, hstart, ← readConfFile_opened hsome hopen]
        change contextOptions host [ascii "-f", path] start = _
        rw [contextOptions, if_neg (by decide), hgood, if_neg (by decide),
          if_pos (by decide)]
        cases readConfFile host path start <;> rfl
      have hplugin : ∀ s, initPlugin [tgserver, ascii "-f", path] s =
          some s := by
        intro s
        change pluginOptions [ascii "-f", path] s = _
        rw [pluginOptions, hgood]
        split
        · rfl
        · rw [if_neg (by decide)]
          rfl
      rw [configure, hcontext]
      cases (fileLines content.length content).foldlM confLine start with
      | none => rfl
      | some s =>
          simp [hplugin]

/-- A start with settings on its command line takes them in two passes. -/
theorem configure_options (hstart : startContext host .initial = some start)
    {ctx : TGContext} (hctx : start.globals.gContext = some ctx)
    {settings : List Setting} (hfits : ∀ setting ∈ settings, setting.Fits)
    (hsome : settings ≠ []) (tgserver : List Byte) :
    configure host (tgserver :: settings.flatMap Setting.option) =
      (Setting.parametersRun [] settings start.registry).bind fun g =>
        (start.settle (Setting.contextRun [] settings
          (ctx, start.envLogLevel)) g).configuration := by
  have hlength : 1 < (tgserver :: settings.flatMap Setting.option).length := by
    cases settings with
    | nil => exact absurd rfl hsome
    | cons setting rest => cases setting <;> simp [Setting.option]
  have hone : ¬(tgserver :: settings.flatMap Setting.option).length = 1 := by
    omega
  have hmany : ¬(tgserver :: settings.flatMap Setting.option).length ≤ 1 := by
    omega
  have hcontext : initContext host
      (tgserver :: settings.flatMap Setting.option) .initial =
        some (0, start.settle (Setting.contextRun [] settings
          (ctx, start.envLogLevel)) start.registry) := by
    rw [initContext, hstart, Option.bind_eq_bind, Option.bind_some,
      if_neg hone]
    exact contextOptions_run host hfits hctx
  rw [configure, hcontext, Option.bind_eq_bind, Option.bind_some]
  simp only [↓reduceIte, initPlugin, if_neg hmany, List.drop_succ_cons,
    List.drop_zero, pluginOptions_run hfits]
  change (Option.map _ (Setting.parametersRun [] settings start.registry)).bind
    _ = _
  cases Setting.parametersRun [] settings start.registry <;> rfl

theorem configuration_settle (s : Server) (ctx : TGContext × List Byte)
    {g : Registry} {lists : Addr → List (List Byte)} (howned : Owned g lists) :
    (s.settle ctx g).configuration =
      some ⟨ctx.1.pServer.port, ctx.1.pServer.listenIp,
        ctx.1.pServer.maxClients, ctx.1.logLevel,
        (List.range g.objects.length).map lists⟩ := by
  simp [Server.configuration, Server.settle, howned.parameterTexts]

end Starts

section Differences

variable {g : Registry} {settings : List Setting}

/-- Values that are kept differ by what is left behind them. -/
theorem map_newline_eq_iff (values : List (List Byte)) :
    values.map (· ++ [char '\n']) = values.map (· ++ []) ↔ values = [] := by
  constructor
  · intro hsame
    cases values with
    | nil => rfl
    | cons v rest =>
        rw [List.map_cons, List.map_cons, List.cons.injEq] at hsame
        have hlength := congrArg List.length hsame.1
        simp at hlength
  · rintro rfl
    rfl

/-- No record receives anything if and only if no setting names a loaded
service. -/
theorem received_nil_iff :
    (LookupsDefined g settings ∧
      ∀ a < g.objects.length, received g a settings = []) ↔
    ∀ text, .service text ∈ settings →
      lookupN g (Setting.serviceName text) = some none := by
  constructor
  · rintro ⟨hdefined, hnone⟩ text htext
    cases hlookup : lookupN g (Setting.serviceName text) with
    | none => exact absurd hlookup (hdefined text htext)
    | some found =>
        cases found with
        | none => rfl
        | some a =>
            obtain ⟨pSer, hget⟩ := lookupN_found hlookup
            have hnil := hnone a (List.getElem?_eq_some_iff.mp hget).1
            rw [received, List.flatMap_eq_nil_iff] at hnil
            have hvalue := hnil _ htext
            rw [Setting.received, if_pos hlookup] at hvalue
            cases hvalue
  · intro hplain
    constructor
    · intro text htext hnone
      rw [hplain text htext] at hnone
      cases hnone
    · intro a _
      rw [received, List.flatMap_eq_nil_iff]
      intro setting hsetting
      cases setting with
      | service text =>
          rw [Setting.received, if_neg]
          rw [hplain text hsetting]
          simp
      | port v | listen v | maxClients v | logLevel v => rfl

theorem plain_iff : (∀ setting ∈ settings, setting.Plain g) ↔
    settings.any Setting.isListen = false ∧
      ∀ text, .service text ∈ settings →
        lookupN g (Setting.serviceName text) = some none := by
  constructor
  · intro hplain
    constructor
    · rw [List.any_eq_false]
      intro setting hsetting hlisten
      have hnot := hplain setting hsetting
      cases setting with
      | listen v => exact hnot
      | port v | maxClients v | logLevel v | service text => cases hlisten
    · exact fun text htext => hplain _ htext
  · rintro ⟨hlisten, hservices⟩ setting hsetting
    cases setting with
    | listen v =>
        have hnone := List.any_eq_false.mp hlisten _ hsetting
        exact absurd rfl hnone
    | service text => exact hservices text hsetting
    | port v | maxClients v | logLevel v => trivial

/-- The parameter lists are the same if and only if they are all empty. -/
theorem receivedLists_eq_iff :
    (List.range g.objects.length).map (fun a =>
        [] ++ (received g a settings).map (· ++ [char '\n'])) =
      (List.range g.objects.length).map (fun a =>
        [] ++ (received g a settings).map (· ++ [])) ↔
    ∀ a < g.objects.length, received g a settings = [] := by
  rw [List.map_inj_left]
  simp only [List.mem_range, List.nil_append, map_newline_eq_iff]

/-- So are the addresses, if and only if none is set. -/
theorem listenIp_eq_iff (hfits : ∀ setting ∈ settings, setting.Fits)
    (ctx : TGContext × List Byte) :
    (Setting.contextRun [char '\n'] settings ctx).1.pServer.listenIp =
      (Setting.contextRun [] settings ctx).1.pServer.listenIp ↔
    settings.any Setting.isListen = false := by
  have hsame : Alike false ctx ctx := ⟨rfl, rfl, rfl, rfl⟩
  obtain ⟨-, -, -, hlisten⟩ := contextRun_alike hfits hsame
  rw [Bool.false_or] at hlisten
  cases hany : settings.any Setting.isListen with
  | false =>
      rw [hany, if_neg Bool.false_ne_true] at hlisten
      exact iff_of_true hlisten rfl
  | true =>
      rw [hany, if_pos rfl] at hlisten
      obtain ⟨v, hfileIp, hargvIp⟩ := hlisten
      rw [hfileIp, hargvIp]
      simp

end Differences

/-- No settings change nothing. -/
theorem parametersRun_nil (start : Server) (tail : List Byte) {ctx : TGContext}
    (hctx : start.globals.gContext = some ctx) :
    (Setting.parametersRun tail [] start.registry).map
      (start.settle (Setting.contextRun tail [] (ctx, start.envLogLevel))) =
      some start := by
  obtain ⟨⟨gClients, size, gContext, fdCalls⟩, registry, env⟩ := start
  dsimp only at hctx
  subst hctx
  rfl

/-- A file and a command line with the same settings leave the same
configuration if and only if none of them is the address or a parameter of a
loaded service; without settings the command line stands for the default
file. -/
theorem configure_agrees_iff {host : Host} {start : Server}
    (hstart : startContext host .initial = some start)
    {settings : List Setting} (hfits : ∀ setting ∈ settings, setting.Fits)
    {argv : List (List Byte)}
    (hreads : host.Reads (settings.flatMap Setting.line) argv)
    (tgserver : List Byte) :
    (∃ configuration, configure host argv = some configuration ∧
      configure host (tgserver :: settings.flatMap Setting.option) =
        some configuration) ↔
    (∀ setting ∈ settings, setting.Plain start.registry) ∧
      (settings = [] →
        configure host [tgserver] = start.configuration) := by
  obtain ⟨⟨ctx, hctx⟩, hunset⟩ := startContext_started hstart
  have howned := hunset.owned
  rw [configure_reads hstart hreads, fileLines_lines hfits (Nat.le_refl _),
    confLine_run hfits hctx]
  by_cases hnil : settings = []
  · subst hnil
    obtain ⟨c, hc⟩ : ∃ c, start.configuration = some c := by
      simp [Server.configuration, hctx, howned.parameterTexts]
    rw [parametersRun_nil start _ hctx, Option.bind_some, hc]
    constructor
    · rintro ⟨c', hsame, hargv⟩
      rw [← hsame] at hargv
      exact ⟨fun _ hsetting => absurd hsetting List.not_mem_nil,
        fun _ => hargv⟩
    · exact fun hboth => ⟨c, rfl, hboth.2 rfl⟩
  · rw [configure_options hstart hctx hfits hnil]
    have hsame : Alike false (ctx, start.envLogLevel)
        (ctx, start.envLogLevel) := ⟨rfl, rfl, rfl, rfl⟩
    obtain ⟨hport, hmax, hlevel, -⟩ := contextRun_alike hfits hsame
    have hsettings : (settings = [] → configure host [tgserver] =
        start.configuration) ↔ True :=
      iff_true_intro fun heq => absurd heq hnil
    rw [hsettings, and_true, plain_iff, ← received_nil_iff]
    rcases parametersRun_cases [char '\n'] settings (.refl _) howned with
      ⟨hundefined, hnone⟩ | ⟨gFile, hfile, hdefined, hlengthFile, hlistsFile⟩
    · rw [hnone]
      constructor
      · rintro ⟨c, hfile, -⟩
        cases hfile
      · exact fun hboth => absurd hboth.2.1 hundefined
    rcases parametersRun_cases [] settings (.refl _) howned with
      ⟨hundefined, -⟩ | ⟨gArgv, hargv, -, hlengthArgv, hlistsArgv⟩
    · exact absurd hdefined hundefined
    rw [hfile, hargv, Option.map_some, Option.bind_some, Option.bind_some,
      configuration_settle start _ hlistsFile,
      configuration_settle start _ hlistsArgv, hlengthFile, hlengthArgv]
    have hlistens := listenIp_eq_iff hfits (ctx, start.envLogLevel)
    constructor
    · rintro ⟨c, hfirst, hsecond⟩
      have heq := Option.some.inj (hfirst.trans hsecond.symm)
      rw [Configuration.mk.injEq] at heq
      exact ⟨hlistens.mp heq.2.1, hdefined,
        receivedLists_eq_iff.mp heq.2.2.2.2⟩
    · rintro ⟨hnone, -, hreceived⟩
      refine ⟨_, rfl, ?_⟩
      rw [hport, hmax, hlevel, hlistens.mpr hnone,
        receivedLists_eq_iff.mpr hreceived]

namespace ConfigAgree

/-- A library with the five functions. -/
def lib : Library := ⟨some 1, some 2, some 3, some 4, some 5⟩

/-- One library in the default directory, and the default file. -/
def host (conf : List Byte) : Host where
  tgserverHome := none
  readdir dir := if dir = ascii "../plugins/" then
    some [⟨ascii "libdemo.so", true⟩] else none
  dlopen _ := some lib
  fopen path := if path = ascii "../conf/server.conf" then some conf else none
  below _ := 0
  junk _ _ := none

def numbers : List Setting :=
  [.port (ascii "6000"), .maxClients (ascii "5"), .logLevel (ascii "3")]

def texts : List Setting :=
  [.listen (ascii "127.0.0.1"), .service (ascii "libdemo.so=a=b")]

theorem configure_agrees_iff_numbers :
    ∃ start, startContext (host (numbers.flatMap Setting.line)) .initial =
        some start ∧ (∀ setting ∈ numbers, setting.Fits) ∧
      (host (numbers.flatMap Setting.line)).Reads
        (numbers.flatMap Setting.line) [ascii "tgserver"] ∧
      ((∃ configuration,
        configure (host (numbers.flatMap Setting.line)) [ascii "tgserver"] =
          some configuration ∧
        configure (host (numbers.flatMap Setting.line))
          (ascii "tgserver" :: numbers.flatMap Setting.option) =
            some configuration) ↔
        (∀ setting ∈ numbers, setting.Plain start.registry) ∧
          (numbers = [] → configure (host (numbers.flatMap Setting.line))
            [ascii "tgserver"] = start.configuration)) := by
  have hfits : ∀ setting ∈ numbers, setting.Fits := by
    intro setting hsetting
    simp only [numbers, List.mem_cons, List.not_mem_nil, or_false] at hsetting
    rcases hsetting with rfl | rfl | rfl <;>
      exact ⟨by decide, by decide, by decide, by decide⟩
  have hreads : (host (numbers.flatMap Setting.line)).Reads
      (numbers.flatMap Setting.line) [ascii "tgserver"] :=
    .default _ rfl rfl
  exact ⟨_, rfl, hfits, hreads,
    configure_agrees_iff rfl hfits hreads (ascii "tgserver")⟩

/-- The newline of the line stays in the address and in the parameter. -/
theorem configure_texts :
    (∀ setting ∈ texts, setting.Fits) ∧
    configure (host (texts.flatMap Setting.line)) [ascii "tgserver"] =
      some ⟨6666, some (ascii "127.0.0.1\n"), 20, 0, [[ascii "a=b\n"]]⟩ ∧
    configure (host (texts.flatMap Setting.line))
        (ascii "tgserver" :: texts.flatMap Setting.option) =
      some ⟨6666, some (ascii "127.0.0.1"), 20, 0, [[ascii "a=b"]]⟩ ∧
    ¬∃ configuration,
      configure (host (texts.flatMap Setting.line)) [ascii "tgserver"] =
        some configuration ∧
      configure (host (texts.flatMap Setting.line))
          (ascii "tgserver" :: texts.flatMap Setting.option) =
        some configuration := by
  have hfile : configure (host (texts.flatMap Setting.line))
      [ascii "tgserver"] =
      some ⟨6666, some (ascii "127.0.0.1\n"), 20, 0, [[ascii "a=b\n"]]⟩ := by
    decide
  have hargv : configure (host (texts.flatMap Setting.line))
      (ascii "tgserver" :: texts.flatMap Setting.option) =
      some ⟨6666, some (ascii "127.0.0.1"), 20, 0, [[ascii "a=b"]]⟩ := by
    decide
  refine ⟨?_, hfile, hargv, ?_⟩
  · intro setting hsetting
    simp only [texts, List.mem_cons, List.not_mem_nil, or_false] at hsetting
    rcases hsetting with rfl | rfl <;>
      exact ⟨by decide, by decide, by decide, by decide⟩
  · rintro ⟨configuration, hfirst, hsecond⟩
    have heq := (hfile.symm.trans hfirst).trans (hsecond.symm.trans hargv)
    exact absurd heq (by decide)

end ConfigAgree

end TgServer
