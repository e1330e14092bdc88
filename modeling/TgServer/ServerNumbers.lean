/-
The two numbers a start leaves in the server record, from all the places they
can be given in, and what the server makes of them: the 16-bit port it binds
and the check of its first client.
-/
import Mathlib.Data.List.Induction
import TgServer.Accept
import TgServer.OptionRun

namespace TgServer

open Bytes Transition

/-- A call of `__parse_parameter`: the letter that counts and the value. -/
abbrev ParameterCall := Byte × List Byte

/-- What such a call does to the context. -/
def TGContext.withParameter (ctx : TGContext) (call : ParameterCall) :
    TGContext :=
  let (c, pVal) := call
  if c = char 'p' then ctx.setPort pVal
  else if c = char 'l' then ctx.setListenIp pVal
  else if c = char 'm' then ctx.setMaxClients pVal
  else if c = char 'o' then
    { ctx with logLevel := (logLevelOf (pVal.getD 0 0)).1 }
  else ctx

/-- The call a setting in a file leads to. -/
def confCall (pair : List Byte × List Byte) : Option ParameterCall :=
  if pair.1.getD 0 0 = char '[' then none
  else (confParameter pair.1).map fun pPar => (pPar.getD 0 0, pair.2)

/-- The calls the settings in a file lead to. -/
def confCalls (host : Host) (path : List Byte) : List ParameterCall :=
  (confPairs host path).filterMap confCall

/-- The calls an option leads to. -/
def optionCalls (host : Host) (pair : OptionPair) : List ParameterCall :=
  if optionLetter pair = char 'f' then confCalls host pair.2
  else if optionLetter pair = char 's' then []
  else if optionLetter pair = char 'D' then []
  else [(optionLetter pair, pair.2)]

/-- All the calls of a start in their order: the default file is read if there
is nothing on the command line. -/
def parameterCalls (host : Host) (argv : List (List Byte)) :
    List ParameterCall :=
  (if argv.length = 1 then
      ((homePath host defaultConfPath).map (confCalls host)).getD []
    else []) ++
    ((contextPairs argv.tail).getD []).flatMap (optionCalls host)

/-- The last value given for a letter. -/
def lastValue (c : Byte) (calls : List ParameterCall) : Option (List Byte) :=
  ((calls.filter (·.1 == c)).getLast?).map Prod.snd

/-- The number a value gives; 0 stands for the default. -/
def numberOr (default : Int) (pVal : List Byte) : Int :=
  if Decimal.atoi pVal = 0 then default else Decimal.atoi pVal

/-- The port `bind_w` binds: `htons` takes the low 16 bits. -/
def boundPort (port : Int) : Int := port % 2 ^ 16

/-- A server that listens on the port its record says and can take a client. -/
structure Usable (pServer : TGServer) : Prop where
  port : 1 ≤ pServer.port ∧ pServer.port ≤ 65535
  bound : boundPort pServer.port = pServer.port
  maxClients : 1 ≤ pServer.maxClients
  admits : ∀ pid, ChildProc.overLimit pServer.maxClients ⟨pid, 0, .starting⟩ =
    false

section Calls

variable {s s' : Server}

theorem setContext_context {store : TGContext → TGContext}
    (hstore : s.setContext store = some s') :
    s'.globals.gContext = s.globals.gContext.map store := by
  rw [Server.setContext, Option.map_eq_some_iff] at hstore
  obtain ⟨ctx, hctx, rfl⟩ := hstore
  rw [hctx]
  rfl

/-- The context is as the call leaves it. -/
theorem parseParameter_context {pPar pVal : List Byte}
    (hparse : parseParameter s (some pPar) pVal = some s') :
    s'.globals.gContext =
      s.globals.gContext.map (·.withParameter (pPar.getD 0 0, pVal)) := by
  rw [parseParameter, Option.bind_eq_bind, Option.bind_some] at hparse
  dsimp only at hparse
  split at hparse
  · next hp =>
      rw [setContext_context hparse]
      simp only [TGContext.withParameter, if_pos hp]
  · next hp =>
      split at hparse
      · next hl =>
          rw [setContext_context hparse]
          simp only [TGContext.withParameter, if_neg hp, if_pos hl]
      · next hl =>
          split at hparse
          · next hm =>
              rw [setContext_context hparse]
              simp only [TGContext.withParameter, if_neg hp, if_neg hl,
                if_pos hm]
          · next hm =>
              split at hparse
              · next ho =>
                  rw [Server.setLogLevel, Option.bind_eq_bind,
                    Option.bind_eq_some_iff] at hparse
                  obtain ⟨mid, hstore, hmid⟩ := hparse
                  obtain rfl := Option.some.inj hmid
                  refine (setContext_context hstore).trans ?_
                  simp only [TGContext.withParameter, if_neg hp, if_neg hl,
                    if_neg hm, if_pos ho]
              · next ho =>
                  obtain rfl := Option.some.inj hparse
                  simp only [TGContext.withParameter, if_neg hp, if_neg hl,
                    if_neg hm, if_neg ho, Option.map_id_fun', id]

/-- What is seen of the server changes with each call in the same way, and with
nothing else a start does once the context is there. -/
structure CallView {V : Type} (view : Server → V)
    (act : V → ParameterCall → V) : Prop where
  parse : ∀ {s s' : Server} {pPar pVal : List Byte},
    parseParameter s (some pPar) pVal = some s' →
    view s' = act (view s) (pPar.getD 0 0, pVal)
  set : ∀ {s s' : Server} {name para : List Byte},
    s.setParameters name para = some s' → view s' = view s
  load : ∀ {host : Host} {s s' : Server} {dir : List Byte},
    s.loadServices host dir = some s' → view s' = view s

namespace CallView

variable {V : Type} {view : Server → V} {act : V → ParameterCall → V}
variable (hview : CallView view act) {host : Host}

include hview

theorem confStore {pair : List Byte × List Byte}
    (hstore : confStore s pair = some s') :
    view s' = (confCall pair).toList.foldl act (view s) := by
  obtain ⟨pPar, pVal⟩ := pair
  rw [TgServer.confStore] at hstore
  split at hstore
  · next hkey =>
      rw [confCall, if_neg hkey]
      cases hletter : confParameter pPar with
      | none =>
          rw [hletter] at hstore
          cases hstore
      | some letter =>
          rw [hletter] at hstore
          exact hview.parse hstore
  · next hkey =>
      rw [not_not] at hkey
      rw [confCall, if_pos hkey]
      split at hstore
      · exact hview.set hstore
      · obtain rfl := Option.some.inj hstore
        rfl

omit hview in
/-- What each step does to the view, a run of steps does. -/
theorem foldlM {α : Type} {step : Server → α → Option Server}
    {calls : α → List ParameterCall}
    (hstep : ∀ s s' x, step s x = some s' →
      view s' = (calls x).foldl act (view s))
    {xs : List α} (hrun : xs.foldlM step s = some s') :
    view s' = (xs.flatMap calls).foldl act (view s) := by
  have hlast := foldlM_preserves (P := fun rest mid =>
    (rest.flatMap calls).foldl act (view mid) =
      (xs.flatMap calls).foldl act (view s)) ?_ rfl hrun
  · exact hlast
  · intro x rest mid next hmid hnext
    rw [hstep mid next x hnext, ← hmid, List.flatMap_cons, List.foldl_append]

theorem readConfFile {path : List Byte}
    (hread : readConfFile host path s = some s') :
    view s' = (confCalls host path).foldl act (view s) := by
  rw [readConfFile_pairs] at hread
  have hcalls := foldlM (fun _ _ _ hstore => hview.confStore hstore) hread
  rwa [← List.filterMap_eq_flatMap_toList] at hcalls

theorem contextStep {pair : OptionPair}
    (hstep : contextStep host s pair = some s') :
    view s' = (optionCalls host pair).foldl act (view s) := by
  rw [contextStep_letter] at hstep
  rw [optionCalls]
  split at hstep
  · next hf => rw [if_pos hf, hview.readConfFile hstep]
  · next hf =>
      rw [if_neg hf]
      split at hstep
      · next hs =>
          rw [if_pos hs]
          exact hview.load hstep
      · next hs =>
          rw [if_neg hs]
          split at hstep
          · next hD =>
              obtain rfl := Option.some.inj hstep
              rw [if_pos hD]
              rfl
          · next hD =>
              have hletter : (pair.1.drop 1).getD 0 0 = optionLetter pair := by
                rw [optionLetter, List.getD_eq_getElem?_getD,
                  List.getD_eq_getElem?_getD, List.getElem?_drop]
              rw [if_neg hD, hview.parse hstep, hletter]
              rfl

/-- An accepted start makes the calls its arguments lead to, in their order. -/
theorem initContext {argv : List (List Byte)}
    (haccepts : initContext host argv s = some (0, s')) :
    view s' = (parameterCalls host argv).foldl act
      (view { s with globals := init s.globals }) := by
  cases argv with
  | nil => simp [TgServer.initContext] at haccepts
  | cons tgserver argv =>
      rw [initContext_cons, Option.bind_eq_some_iff] at haccepts
      obtain ⟨read, hread, hoptions⟩ := haccepts
      rw [Option.bind_eq_some_iff] at hread
      obtain ⟨started, hstart, hread⟩ := hread
      rw [startContext, Option.bind_eq_bind, Option.bind_eq_some_iff] at hstart
      obtain ⟨dir, -, hstart⟩ := hstart
      have hfile : view read = (if (tgserver :: argv).length = 1 then
            ((homePath host defaultConfPath).map (confCalls host)).getD []
          else []).foldl act (view started) := by
        split at hread
        · next hone =>
            obtain ⟨path, hpath, hread⟩ := Option.bind_eq_some_iff.mp hread
            rw [if_pos hone, hpath]
            exact hview.readConfFile hread
        · next hmore =>
            obtain rfl := Option.some.inj hread
            rw [if_neg hmore]
            rfl
      obtain ⟨pairs, hpairs⟩ := contextPairs_of_accepts host hoptions
      rw [contextOptions_pairs host hpairs, Option.map_eq_some_iff] at hoptions
      obtain ⟨last, hrun, heq⟩ := hoptions
      obtain rfl := (Prod.mk.inj heq).2
      rw [foldlM (fun _ _ _ hstep => hview.contextStep hstep) hrun, hfile,
        hview.load hstart, parameterCalls, List.tail_cons, hpairs,
        List.foldl_append]
      rfl

end CallView

/-- The context after the calls, in their order. -/
def afterCalls (ctx : TGContext) (calls : List ParameterCall) : TGContext :=
  calls.foldl TGContext.withParameter ctx

theorem contextView : CallView (·.globals.gContext)
    (fun gContext call => gContext.map (·.withParameter call)) where
  parse := parseParameter_context
  set hset := by
    rw [Server.setParameters, Option.bind_eq_bind, Option.bind_eq_some_iff]
      at hset
    obtain ⟨g, -, hset⟩ := hset
    obtain rfl := Option.some.inj hset
    rfl
  load hload := by
    rw [Server.loadServices, Option.bind_eq_bind, Option.bind_eq_some_iff]
      at hload
    obtain ⟨g, -, hload⟩ := hload
    obtain rfl := Option.some.inj hload
    rfl

end Calls

/-- A start fills a fresh context with the calls its arguments lead to. -/
theorem initContext_context {host : Host} {argv : List (List Byte)}
    {s s' : Server} (haccepts : initContext host argv s = some (0, s')) :
    s'.globals.gContext = (init s.globals).gContext.map
      (afterCalls · (parameterCalls host argv)) := by
  have hcalls := contextView.initContext haccepts
  rw [hcalls]
  exact List.foldl_hom Option.some fun _ _ => rfl

/-- A field that only the calls of one letter set holds what the last of them
gave. -/
theorem foldl_last {V α : Type} {act : V → ParameterCall → V} {field : V → α}
    {c : Byte} {value : List Byte → α}
    (hset : ∀ v call, field (act v call) =
      if call.1 = c then value call.2 else field v)
    (v : V) (calls : List ParameterCall) :
    field (calls.foldl act v) =
      ((lastValue c calls).map value).getD (field v) := by
  induction calls using List.reverseRecOn with
  | nil => rfl
  | append_singleton calls call ih =>
      rw [List.foldl_append, List.foldl_cons, List.foldl_nil, hset, lastValue,
        List.filter_append]
      by_cases hc : call.1 = c
      · rw [if_pos hc, List.filter_cons_of_pos (by simpa using hc)]
        simp
      · rw [if_neg hc, List.filter_cons_of_neg (by simpa using hc)]
        simpa [lastValue] using ih

theorem afterCalls_last {α : Type} {field : TGContext → α} {c : Byte}
    {value : List Byte → α}
    (hset : ∀ ctx call, field (ctx.withParameter call) =
      if call.1 = c then value call.2 else field ctx)
    (ctx : TGContext) (calls : List ParameterCall) :
    field (afterCalls ctx calls) =
      ((lastValue c calls).map value).getD (field ctx) :=
  foldl_last hset ctx calls

theorem withParameter_port (ctx : TGContext) (call : ParameterCall) :
    (ctx.withParameter call).pServer.port =
      if call.1 = char 'p' then
        numberOr defaultListenPort call.2
      else ctx.pServer.port := by
  obtain ⟨c, pVal⟩ := call
  simp only [TGContext.withParameter]
  split
  · rfl
  · split
    · rfl
    · split
      · rfl
      · split <;> rfl

theorem withParameter_maxClients (ctx : TGContext) (call : ParameterCall) :
    (ctx.withParameter call).pServer.maxClients =
      if call.1 = char 'm' then
        numberOr defaultMaxClients call.2
      else ctx.pServer.maxClients := by
  obtain ⟨c, pVal⟩ := call
  simp only [TGContext.withParameter]
  split
  · next hp =>
      rw [if_neg (by rw [hp]; decide)]
      rfl
  · split
    · next hl =>
        rw [if_neg (by rw [hl]; decide)]
        rfl
    · split
      · next hm => rfl
      · next hm => split <;> rfl

/-- The last two fields follow from the numbers. -/
theorem usable_iff (pServer : TGServer) :
    Usable pServer ↔ (1 ≤ pServer.port ∧ pServer.port ≤ 65535) ∧
      1 ≤ pServer.maxClients := by
  constructor
  · exact fun husable => ⟨husable.port, husable.maxClients⟩
  · rintro ⟨hport, hmax⟩
    refine ⟨hport, ?_, hmax, fun pid => ?_⟩
    · exact Int.emod_eq_of_lt (by omega) (by omega)
    · rw [ChildProc.overLimit, decide_eq_false_iff_not]
      exact Int.not_le.mpr hmax

/-- What an accepted start leaves is usable exactly if the last port that was
given, and the last number of clients, are 0 or in range, read as `int`s; no
other occurrence counts, and none need be given. -/
theorem initContext_usable_iff {host : Host} {argv : List (List Byte)}
    {s s' : Server} (haccepts : initContext host argv s = some (0, s')) :
    ∃ ctx, s'.globals.gContext = some ctx ∧
      (Usable ctx.pServer ↔
        (∀ pVal, lastValue (char 'p') (parameterCalls host argv) = some pVal →
          0 ≤ Decimal.atoi pVal ∧ Decimal.atoi pVal ≤ 65535) ∧
        ∀ pVal, lastValue (char 'm') (parameterCalls host argv) = some pVal →
          0 ≤ Decimal.atoi pVal) := by
  have hcontext := initContext_context haccepts
  refine ⟨_, hcontext, ?_⟩
  rw [usable_iff,
    @afterCalls_last _ (·.pServer.port) _ _ withParameter_port,
    @afterCalls_last _ (·.pServer.maxClients) _ _ withParameter_maxClients]
  refine and_congr ?_ ?_
  · cases lastValue (char 'p') (parameterCalls host argv) with
    | none =>
        refine iff_of_true (by decide) fun pVal hval => ?_
        cases hval
    | some pVal =>
        simp only [Option.map_some, Option.getD_some, Option.some.injEq,
          forall_eq', numberOr, defaultListenPort]
        split <;> omega
  · cases lastValue (char 'm') (parameterCalls host argv) with
    | none =>
        refine iff_of_true (by decide) fun pVal hval => ?_
        cases hval
    | some pVal =>
        simp only [Option.map_some, Option.getD_some, Option.some.injEq,
          forall_eq', numberOr, defaultMaxClients]
        split <;> omega

namespace ServerNumbers

/-- A host with one file and no services. -/
def host (content : List Byte) : Host where
  tgserverHome := none
  readdir := fun _ => none
  dlopen := fun _ => none
  fopen := fun path =>
    if path = ascii "conf" then some content else none
  below := fun _ => 0
  junk := fun _ _ => none

def conf : Host := host (ascii "port=70000\nmax-clients=-3\n")

/-- The command line after the file. -/
def corrected : List (List Byte) :=
  [ascii "tgserver", ascii "-f", ascii "conf", ascii "-p", ascii "0080",
    ascii "-m", ascii "0"]

def alone : List (List Byte) := [ascii "tgserver", ascii "-f", ascii "conf"]

theorem initContext_usable_iff_corrected :
    ∃ s' ctx, initContext conf corrected .initial = some (0, s') ∧
      s'.globals.gContext = some ctx ∧ Usable ctx.pServer := by
  obtain ⟨s', haccepts⟩ : ∃ s', initContext conf corrected .initial =
      some (0, s') := ⟨_, rfl⟩
  obtain ⟨ctx, hctx, hiff⟩ := initContext_usable_iff haccepts
  exact ⟨s', ctx, haccepts, hctx, hiff.mpr ⟨by decide, by decide⟩⟩

/-- The numbers of the file are taken as they are: 4464 is bound for 70000, and
the first client is refused. -/
theorem initContext_unusable :
    ∃ s' ctx, initContext conf alone .initial = some (0, s') ∧
      s'.globals.gContext = some ctx ∧ ctx.pServer.port = 70000 ∧
      boundPort ctx.pServer.port = 4464 ∧ ctx.pServer.maxClients = -3 ∧
      ChildProc.overLimit ctx.pServer.maxClients ⟨100, 0, .starting⟩ = true ∧
      ¬ Usable ctx.pServer := by
  refine ⟨_, _, rfl, rfl, by decide, by decide, by decide, by decide, ?_⟩
  intro husable
  exact absurd husable.maxClients (by decide)

end ServerNumbers

end TgServer
