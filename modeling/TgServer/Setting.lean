/-
Settings as they are written in a file and on the command line, and what the
two parsers make of them: one effect of a setting, which takes what the parser
leaves behind a value, the newline of the line or nothing.
-/
import TgServer.FileLines
import TgServer.ServiceParameters

namespace TgServer

open Bytes

/-- A setting with its value; the last kind is `service=value`. -/
inductive Setting where
  | port (v : List Byte)
  | listen (v : List Byte)
  | maxClients (v : List Byte)
  | logLevel (v : List Byte)
  | service (text : List Byte)
deriving Repr, DecidableEq

namespace Setting

def body : Setting → List Byte
  | port v => ascii "port" ++ char '=' :: v
  | listen v => ascii "listen" ++ char '=' :: v
  | maxClients v => ascii "max-clients" ++ char '=' :: v
  | logLevel v => ascii "log-level" ++ char '=' :: v
  | service text => ascii "[D]" ++ text

def line (setting : Setting) : List Byte := setting.body ++ [char '\n']

def option : Setting → List (List Byte)
  | port v => [ascii "-p", v]
  | listen v => [ascii "-l", v]
  | maxClients v => [ascii "-m", v]
  | logLevel v => [ascii "-o", v]
  | service text => [ascii "-D", text]

def serviceName (text : List Byte) : List Byte :=
  text.takeWhile (· != char '=')

def serviceValue (text : List Byte) : List Byte :=
  (text.dropWhile (· != char '=')).drop 1

/-- The option letter of a setting of the context, and its value. -/
def parameter : Setting → Option (List Byte × List Byte)
  | port v => some (ascii "p", v)
  | listen v => some (ascii "l", v)
  | maxClients v => some (ascii "m", v)
  | logLevel v => some (ascii "o", v)
  | service _ => none

/-- The value is not empty and its line fits the buffer. -/
structure Fits (setting : Setting) : Prop where
  value : match setting with
    | .port v | .listen v | .maxClients v | .logLevel v => v ≠ []
    | .service text => char '=' ∈ text
  newline : char '\n' ∉ setting.body
  nul : 0 ∉ setting.body
  short : setting.line.length < lineBufSize

/-- What a setting does to the context and to `LOG_LEVEL`; `tail` is what
comes behind its value. -/
def context (tail : List Byte) :
    Setting → TGContext × List Byte → TGContext × List Byte
  | port v, (ctx, env) => (ctx.setPort (v ++ tail), env)
  | listen v, (ctx, env) => (ctx.setListenIp (v ++ tail), env)
  | maxClients v, (ctx, env) => (ctx.setMaxClients (v ++ tail), env)
  | logLevel v, (ctx, _) =>
      let (level, text) := logLevelOf ((v ++ tail).getD 0 0)
      ({ ctx with logLevel := level }, text)
  | service _, (ctx, env) => (ctx, env)

/-- What it does to the services. -/
def parameters (tail : List Byte) (g : Registry) : Setting → Option Registry
  | service text => setServiceCreateParametersByN g (some (serviceName text))
      (serviceValue text ++ tail)
  | _ => some g

end Setting

/-- A state with the context, the environment and the services given. -/
def Server.settle (s : Server) (ctx : TGContext × List Byte) (g : Registry) :
    Server :=
  ⟨{ s.globals with gContext := some ctx.1 }, g, ctx.2⟩

/-- What a state already has can be put back. -/
theorem Server.settle_self {s : Server} {ctx : TGContext}
    (hctx : s.globals.gContext = some ctx) :
    s.settle (ctx, s.envLogLevel) s.registry = s := by
  obtain ⟨globals, registry, env⟩ := s
  obtain ⟨gClients, size, gContext, fdCalls⟩ := globals
  dsimp only at hctx
  subst hctx
  rfl

section Values

variable {text : List Byte}

theorem split_service (htext : char '=' ∈ text) :
    Setting.serviceName text ++ char '=' :: Setting.serviceValue text =
        text ∧ char '=' ∉ Setting.serviceName text := by
  have hname : char '=' ∉ Setting.serviceName text := by
    intro hmem
    have hne := List.mem_takeWhile_imp hmem
    simp at hne
  refine ⟨?_, hname⟩
  have hwhole := List.takeWhile_append_dropWhile (p := (· != char '='))
    (l := text)
  have hdrop : text.dropWhile (· != char '=') =
      char '=' :: Setting.serviceValue text := by
    rw [Setting.serviceValue]
    cases hrest : text.dropWhile (· != char '=') with
    | nil =>
        rw [hrest, List.append_nil] at hwhole
        rw [Setting.serviceName, hwhole] at hname
        exact absurd htext hname
    | cons c rest =>
        have hhead := List.head_dropWhile_not (l := text) (· != char '=')
          (by rw [hrest]; exact List.cons_ne_nil c rest)
        simp only [hrest, List.head_cons, bne_eq_false_iff_eq] at hhead
        rw [hhead, List.drop_succ_cons, List.drop_zero]
  rw [← hdrop]
  exact hwhole

/-- Where the source looks for a '=', it takes the text apart there. -/
theorem findSeparator_service (htext : char '=' ∈ text) :
    findSeparator text (ascii "=") [] = (Setting.serviceName text).length ∧
      text.take (Setting.serviceName text).length =
        Setting.serviceName text ∧
      text.drop ((Setting.serviceName text).length + 1) =
        Setting.serviceValue text := by
  obtain ⟨hsplit, hname⟩ := split_service htext
  refine ⟨?_, (congrArg (List.take _) hsplit).symm.trans List.take_left,
    (congrArg (List.drop _) hsplit).symm.trans ?_⟩
  · have hfound := findSeparator_split [] (c := char '=') (by decide) hname
      (Setting.serviceValue text)
    rw [hsplit] at hfound
    exact hfound
  · rw [List.drop_append]
    simp

end Values

section File

/-- A line with a key is split behind it. -/
theorem confLine_pair (s : Server) {key : List Byte} (value : List Byte)
    (hkey : char '=' ∉ key) (hnul : 0 ∉ key ++ char '=' :: value)
    (hhead : key.getD 0 (char '\n') ≠ char '\n') :
    confLine s (key ++ char '=' :: value) =
      if key.getD 0 0 ≠ char '[' then
        parseParameter s (confParameter key) value
      else if strncmpEq key (ascii "[D]") 3 ∧ 3 < key.length then
        s.setParameters (key.drop 3) value
      else some s := by
  obtain ⟨c, rest, rfl⟩ : ∃ c rest, key = c :: rest := by
    cases key with
    | nil => exact absurd rfl hhead
    | cons c rest => exact ⟨c, rest, rfl⟩
  have hfirst : ¬(c :: rest ++ char '=' :: value = [] ∨
      (c :: rest ++ char '=' :: value).getD 0 0 = char '\n') := by
    simpa using hhead
  have hpos : findSeparator (c :: rest ++ char '=' :: value) (ascii "=") [] =
      (c :: rest).length :=
    findSeparator_split [] (c := char '=') (by decide) hkey value
  have hfound : ¬(((c :: rest).length : Int) = -1) := by omega
  have htake : (c :: rest ++ char '=' :: value).take (c :: rest).length =
      c :: rest := List.take_left
  have hdrop : (c :: rest ++ char '=' :: value).drop
      ((c :: rest).length + 1) = value := by
    rw [List.drop_append]
    simp
  rw [confLine, takeWhile_nonzero hnul]
  simp only [if_neg hfirst, hpos, if_neg hfound, Int.toNat_natCast, htake,
    hdrop]

/-- How the settings of the context are written: in the file under a key, on
the command line behind a letter. -/
theorem parameter_written {setting : Setting} {pPar v : List Byte}
    (hparameter : setting.parameter = some (pPar, v)) :
    (∃ key, setting.body = key ++ char '=' :: v ∧ char '=' ∉ key ∧
      key.getD 0 (char '\n') ≠ char '\n' ∧ key.getD 0 0 ≠ char '[' ∧
      confParameter key = some pPar) ∧
    setting.option = [char '-' :: pPar, v] ∧ (setting.Fits → v ≠ []) ∧
    ∃ c, pPar = [c] ∧ c ≠ char 'f' ∧ c ≠ char 's' ∧ c ≠ char 'D' := by
  cases setting with
  | service text => cases hparameter
  | port w | listen w | maxClients w | logLevel w =>
      obtain ⟨rfl, rfl⟩ := Prod.mk.inj (Option.some.inj hparameter)
      exact ⟨⟨_, rfl, by decide, by decide, by decide, by decide⟩, rfl,
        Setting.Fits.value, _, rfl, by decide, by decide, by decide⟩

/-- A setting of the context takes effect, with whatever is left behind its
value. -/
theorem parseParameter_setting {setting : Setting} {pPar v : List Byte}
    (hparameter : setting.parameter = some (pPar, v)) {s : Server}
    {ctx : TGContext} (hctx : s.globals.gContext = some ctx)
    (tail : List Byte) :
    parseParameter s (some pPar) (v ++ tail) =
      some (s.settle (setting.context tail (ctx, s.envLogLevel))
        s.registry) := by
  cases setting with
  | service text => cases hparameter
  | port w =>
      obtain ⟨rfl, rfl⟩ := Prod.mk.inj (Option.some.inj hparameter)
      change s.setContext (TGContext.setPort (w ++ tail)) = _
      rw [Server.setContext, hctx]
      rfl
  | listen w =>
      obtain ⟨rfl, rfl⟩ := Prod.mk.inj (Option.some.inj hparameter)
      change s.setContext (TGContext.setListenIp (w ++ tail)) = _
      rw [Server.setContext, hctx]
      rfl
  | maxClients w =>
      obtain ⟨rfl, rfl⟩ := Prod.mk.inj (Option.some.inj hparameter)
      change s.setContext (TGContext.setMaxClients (w ++ tail)) = _
      rw [Server.setContext, hctx]
      rfl
  | logLevel w =>
      obtain ⟨rfl, rfl⟩ := Prod.mk.inj (Option.some.inj hparameter)
      change s.setLogLevel (w ++ tail) = _
      simp only [Server.setLogLevel, Server.setContext, hctx]
      rfl

theorem service_of_parameter {setting : Setting}
    (hparameter : setting.parameter = none) :
    ∃ text, setting = .service text := by
  cases setting with
  | service text => exact ⟨text, rfl⟩
  | port w | listen w | maxClients w | logLevel w => cases hparameter

theorem parameters_of_parameter {setting : Setting} {pPar v : List Byte}
    (hparameter : setting.parameter = some (pPar, v)) (tail : List Byte)
    (g : Registry) : setting.parameters tail g = some g := by
  cases setting with
  | service text => cases hparameter
  | port w | listen w | maxClients w | logLevel w => rfl

/-- The effect of a service setting, as both parsers produce it. -/
theorem setParameters_service (s : Server) {ctx : TGContext}
    (hctx : s.globals.gContext = some ctx) (text tail : List Byte) :
    s.setParameters (Setting.serviceName text)
        (Setting.serviceValue text ++ tail) =
      ((Setting.service text).parameters tail s.registry).map
        (s.settle ((Setting.service text).context tail
          (ctx, s.envLogLevel))) := by
  obtain ⟨globals, registry, env⟩ := s
  obtain ⟨gClients, size, gContext, fdCalls⟩ := globals
  dsimp only at hctx
  subst hctx
  simp only [Server.setParameters, Setting.parameters, Setting.context]
  cases setServiceCreateParametersByN registry
    (some (Setting.serviceName text)) (Setting.serviceValue text ++ tail) <;>
    rfl

/-- The line of a setting takes effect with its newline behind the value. -/
theorem confLine_line {setting : Setting} (hfits : setting.Fits) {s : Server}
    {ctx : TGContext} (hctx : s.globals.gContext = some ctx) :
    confLine s setting.line =
      (setting.parameters [char '\n'] s.registry).map
        (s.settle (setting.context [char '\n'] (ctx, s.envLogLevel))) := by
  have hnul : 0 ∉ setting.line := by
    rw [Setting.line, List.mem_append]
    rintro (hmem | hmem)
    · exact hfits.nul hmem
    · exact absurd hmem (by decide)
  cases hparameter : setting.parameter with
  | some written =>
      obtain ⟨pPar, v⟩ := written
      obtain ⟨⟨key, hbody, hkey, hfirst, hbracket, hconf⟩, -⟩ :=
        parameter_written hparameter
      have hline : setting.line =
          key ++ char '=' :: (v ++ [char '\n']) := by
        rw [Setting.line, hbody, List.append_assoc, List.cons_append]
      rw [hline] at hnul ⊢
      rw [confLine_pair s _ hkey hnul hfirst, if_pos hbracket, hconf,
        parseParameter_setting hparameter hctx,
        parameters_of_parameter hparameter, Option.map_some]
  | none =>
      obtain ⟨text, rfl⟩ := service_of_parameter hparameter
      obtain ⟨hsplit, hname⟩ := split_service hfits.value
      have hline : (Setting.service text).line =
          (ascii "[D]" ++ Setting.serviceName text) ++ char '=' ::
            (Setting.serviceValue text ++ [char '\n']) := by
        have htext := congrArg (ascii "[D]" ++ · ++ [char '\n']) hsplit
        simp only [List.append_assoc, List.cons_append] at htext ⊢
        exact htext.symm
      have hkey : char '=' ∉ ascii "[D]" ++ Setting.serviceName text := by
        rw [List.mem_append]
        rintro (hmem | hmem)
        · exact absurd hmem (by decide)
        · exact hname hmem
      have hfirst : ∀ d : Byte,
          (ascii "[D]" ++ Setting.serviceName text).getD 0 d = char '[' :=
        fun _ => rfl
      have hdrop : (ascii "[D]" ++ Setting.serviceName text).drop 3 =
          Setting.serviceName text := rfl
      have hstarts : strncmpEq (ascii "[D]" ++ Setting.serviceName text)
          (ascii "[D]") 3 = true := rfl
      rw [hline] at hnul ⊢
      rw [confLine_pair s _ hkey hnul (by rw [hfirst]; decide),
        if_neg (by rw [hfirst]; decide), hdrop]
      split
      · exact setParameters_service s hctx text _
      · next hshort =>
        -- without a name there is nothing to set
        have hnil : Setting.serviceName text = [] := by
          by_contra hsome
          have hpos := List.length_pos_iff.mpr hsome
          refine hshort ⟨hstarts, ?_⟩
          rw [List.length_append]
          exact Nat.lt_add_of_pos_right hpos
        rw [← setParameters_service s hctx text, hnil, Server.setParameters]
        rfl

/-- The lines of the settings come back as they were written. -/
theorem fileLines_lines {settings : List Setting}
    (hfits : ∀ setting ∈ settings, setting.Fits) {reads : Nat}
    (hreads : (settings.flatMap Setting.line).length ≤ reads) :
    fileLines reads (settings.flatMap Setting.line) =
      settings.map Setting.line := by
  have hended : ∀ setting ∈ settings, Lines.IsLine (char '\n') setting.line :=
    fun setting hsetting =>
      ⟨setting.body, (hfits setting hsetting).newline, Or.inl rfl⟩
  rw [List.flatMap_def] at hreads ⊢
  refine fileLines_fit ⟨?_, ?_⟩ ?_ hreads
  · intro line hline
    obtain ⟨setting, hsetting, rfl⟩ := List.mem_map.mp hline
    exact hended setting hsetting
  · rw [List.pairwise_map]
    refine List.pairwise_of_forall fun setting _ => ?_
    exact List.mem_append_right _ (List.mem_singleton_self _)
  · intro line hline
    obtain ⟨setting, hsetting, rfl⟩ := List.mem_map.mp hline
    exact (hfits setting hsetting).short

end File

section CommandLine

variable {setting : Setting} {s : Server} {ctx : TGContext}

theorem badPair_letter {c : Byte} {pVal : List Byte} (hval : pVal ≠ []) :
    badPair [char '-', c] pVal = false := by
  simp [badPair, hval]

/-- The first pass takes the settings of the context. -/
theorem contextOptions_option (host : Host) (hfits : setting.Fits)
    (hctx : s.globals.gContext = some ctx) (argv : List (List Byte)) :
    contextOptions host (setting.option ++ argv) s =
      contextOptions host argv
        (s.settle (setting.context [] (ctx, s.envLogLevel)) s.registry) := by
  cases hparameter : setting.parameter with
  | some written =>
      obtain ⟨pPar, v⟩ := written
      obtain ⟨-, hoption, hv, c, rfl, hf, hs, hD⟩ :=
        parameter_written hparameter
      have hgood := badPair_letter (c := c) (hv hfits)
      have hparse := parseParameter_setting hparameter hctx []
      rw [List.append_nil] at hparse
      rw [hoption]
      simp [contextOptions, hgood, hf, hs, hD, hparse]
  | none =>
      obtain ⟨text, rfl⟩ := service_of_parameter hparameter
      have hgood := badPair_letter (c := char 'D')
        (List.ne_nil_of_mem hfits.value)
      have hsame : s.settle ((Setting.service text).context []
          (ctx, s.envLogLevel)) s.registry = s := Server.settle_self hctx
      rw [hsame]
      change contextOptions host ([char '-', char 'D'] :: text :: argv) s = _
      rw [contextOptions, if_neg (List.cons_ne_nil _ _), hgood]
      rfl

/-- The second pass takes the settings of the services. -/
theorem pluginOptions_option (hfits : setting.Fits)
    (argv : List (List Byte)) :
    pluginOptions (setting.option ++ argv) s =
      (setting.parameters [] s.registry).bind fun g =>
        pluginOptions argv { s with registry := g } := by
  cases hparameter : setting.parameter with
  | some written =>
      obtain ⟨pPar, v⟩ := written
      obtain ⟨-, hoption, -, c, rfl, -, -, hD⟩ := parameter_written hparameter
      rw [hoption, parameters_of_parameter hparameter]
      simp [pluginOptions, hD]
  | none =>
      obtain ⟨text, rfl⟩ := service_of_parameter hparameter
      obtain ⟨hpos, htake, hdrop⟩ := findSeparator_service hfits.value
      have hgood := badPair_letter (c := char 'D')
        (List.ne_nil_of_mem hfits.value)
      have hfound : ¬(((Setting.serviceName text).length : Int) = -1) := by
        omega
      change pluginOptions ([char '-', char 'D'] :: text :: argv) s = _
      simp only [pluginOptions, hpos, hgood, hfound, Bool.false_eq_true,
        or_self, ↓reduceIte, Int.toNat_natCast, htake, hdrop]
      simp [Server.setParameters, Setting.parameters, Option.bind_assoc]

end CommandLine

namespace Setting

/-- What a list of settings does to the context. -/
def contextRun (tail : List Byte) (settings : List Setting)
    (ctx : TGContext × List Byte) : TGContext × List Byte :=
  settings.foldl (fun ctx setting => setting.context tail ctx) ctx

/-- What it does to the services. -/
def parametersRun (tail : List Byte) (settings : List Setting)
    (g : Registry) : Option Registry :=
  settings.foldlM (fun g setting => setting.parameters tail g) g

end Setting

section Runs

variable {settings : List Setting} {s : Server} {ctx : TGContext}

theorem confLine_run (hfits : ∀ setting ∈ settings, setting.Fits)
    (hctx : s.globals.gContext = some ctx) :
    (settings.map Setting.line).foldlM confLine s =
      (Setting.parametersRun [char '\n'] settings s.registry).map
        (s.settle (Setting.contextRun [char '\n'] settings
          (ctx, s.envLogLevel))) := by
  induction settings generalizing s ctx with
  | nil => exact congrArg some (Server.settle_self hctx).symm
  | cons setting rest ih =>
      have hfirst := hfits setting List.mem_cons_self
      rw [List.map_cons, List.foldlM_cons, confLine_line hfirst hctx,
        Setting.parametersRun, List.foldlM_cons, Setting.contextRun,
        List.foldl_cons]
      cases setting.parameters [char '\n'] s.registry with
      | none => rfl
      | some g =>
          exact ih
            (fun other hother => hfits other (List.mem_cons_of_mem _ hother))
            rfl

theorem contextOptions_run (host : Host)
    (hfits : ∀ setting ∈ settings, setting.Fits)
    (hctx : s.globals.gContext = some ctx) :
    contextOptions host (settings.flatMap Setting.option) s =
      some (0, s.settle (Setting.contextRun [] settings (ctx, s.envLogLevel))
        s.registry) := by
  induction settings generalizing s ctx with
  | nil =>
      exact congrArg (fun s => some (0, s)) (Server.settle_self hctx).symm
  | cons setting rest ih =>
      rw [List.flatMap_cons, contextOptions_option host
        (hfits setting List.mem_cons_self) hctx]
      exact ih (fun other hother => hfits other (List.mem_cons_of_mem _ hother))
        rfl

theorem pluginOptions_run (hfits : ∀ setting ∈ settings, setting.Fits) :
    pluginOptions (settings.flatMap Setting.option) s =
      (Setting.parametersRun [] settings s.registry).map fun g =>
        { s with registry := g } := by
  induction settings generalizing s with
  | nil => rfl
  | cons setting rest ih =>
      rw [List.flatMap_cons, pluginOptions_option
        (hfits setting List.mem_cons_self), Setting.parametersRun,
        List.foldlM_cons]
      cases setting.parameters [] s.registry with
      | none => rfl
      | some g =>
          exact ih fun other hother =>
            hfits other (List.mem_cons_of_mem _ hother)

end Runs

end TgServer
