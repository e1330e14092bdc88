/-
The messages of `tg_log.c`: which are printed under the level that the
environment holds, as what, and which level a start leaves there.
-/
import TgServer.ServerNumbers
import TgServer.StartUp

namespace TgServer

open Bytes Transition

/-- `BUFFER_SIZE`, for a formatted message. -/
def logBufferSize : Nat := 1024

/-- The size of `buf_head`. -/
def logHeadSize : Nat := 100

/-- `szPrintLogLevel`. -/
def printLogLevel (level : Int) : List Byte :=
  if level = logLevelError then ascii " [ERROR] "
  else if level = logLevelWarning then ascii " [WARNING] "
  else if level = logLevelInfo then ascii " [INFO] "
  else if level = logLevelDebug then ascii " [DEBUG] "
  else ascii " [INFO] "

/-- What `snprintf` puts into `buf_head`; `ctime` is the text of the time. -/
def logHead (ctime tag : List Byte) (level : Int) : List Byte :=
  (ctime.take 24 ++ ascii "[" ++ tag ++ ascii "]" ++ printLogLevel level ++
    ascii "==>").take (logHeadSize - 1)

/-- `__log`: the octets it prints where `getenv("LOG_LEVEL")` is `czLevel`. -/
def log (czLevel : Option (List Byte)) (ctime tag : List Byte) (level : Int)
    (msg : List Byte) : List Byte :=
  let l := (czLevel.map Decimal.atoi).getD logLevelWarning
  if level ≤ l then logHead ctime tag level ++ msg ++ [char '\n'] else []

/-- `vsnprintf` keeps of the formatted text what fits in the buffer. -/
def logN (czLevel : Option (List Byte)) (ctime tag : List Byte) (level : Int)
    (text : List Byte) : List Byte :=
  log czLevel ctime tag level (text.take (logBufferSize - 1))

def logD (czLevel : Option (List Byte)) (ctime tag text : List Byte) :
    List Byte := logN czLevel ctime tag logLevelDebug text

def logW (czLevel : Option (List Byte)) (ctime tag text : List Byte) :
    List Byte := logN czLevel ctime tag logLevelWarning text

def logI (czLevel : Option (List Byte)) (ctime tag text : List Byte) :
    List Byte := logN czLevel ctime tag logLevelInfo text

def logE (czLevel : Option (List Byte)) (ctime tag text : List Byte) :
    List Byte := logN czLevel ctime tag logLevelError text

/-- The level a value stands for. -/
def levelOf (pVal : List Byte) : Int := (logLevelOf (pVal.getD 0 0)).1

/-- The level of the last setting; without one it is what `main` sets. -/
def givenLevel (host : Host) (argv : List (List Byte)) : Int :=
  ((lastValue (char 'o') (parameterCalls host argv)).map levelOf).getD
    logLevelInfo

/-- What the running server prints for a message, and the level it has on
record. -/
structure LogsAt (s : Server) (given : Option (List Byte)) (level : Int) :
    Prop where
  range : 0 ≤ level ∧ level ≤ logLevelDebug
  printed : ∀ ctime tag of text,
    logN (some s.envLogLevel) ctime tag of text =
      if of ≤ level then
        logHead ctime tag of ++ text.take 1023 ++ [char '\n']
      else []
  errors : ∀ ctime tag text, logE (some s.envLogLevel) ctime tag text ≠ []
  others : ∀ ctime tag text,
    (logW (some s.envLogLevel) ctime tag text ≠ [] ↔
      logLevelWarning ≤ level) ∧
    (logI (some s.envLogLevel) ctime tag text ≠ [] ↔ logLevelInfo ≤ level) ∧
    (logD (some s.envLogLevel) ctime tag text ≠ [] ↔ level = logLevelDebug)
  recorded : ∃ ctx, s.globals.gContext = some ctx ∧
    (ctx.logLevel = level ↔ given ≠ none)

section Levels

variable {s s' : Server}

/-- What a call does to `LOG_LEVEL`. -/
def withLevel (envLogLevel : List Byte) (call : ParameterCall) : List Byte :=
  if call.1 = char 'o' then (logLevelOf (call.2.getD 0 0)).2 else envLogLevel

theorem setContext_level {store : TGContext → TGContext}
    (hstore : s.setContext store = some s') :
    s'.envLogLevel = s.envLogLevel := by
  obtain ⟨ctx, -, rfl⟩ := Option.map_eq_some_iff.mp hstore
  rfl

theorem parseParameter_level {pPar pVal : List Byte}
    (hparse : parseParameter s (some pPar) pVal = some s') :
    s'.envLogLevel = withLevel s.envLogLevel (pPar.getD 0 0, pVal) := by
  rw [parseParameter, Option.bind_eq_bind, Option.bind_some] at hparse
  rw [withLevel]
  dsimp only at hparse ⊢
  split at hparse
  · next hp =>
      rw [if_neg (by rw [hp]; decide), setContext_level hparse]
  · split at hparse
    · next hl =>
        rw [if_neg (by rw [hl]; decide), setContext_level hparse]
    · split at hparse
      · next hm =>
          rw [if_neg (by rw [hm]; decide), setContext_level hparse]
      · split at hparse
        · next ho =>
            rw [if_pos ho]
            rw [Server.setLogLevel, Option.bind_eq_bind,
              Option.bind_eq_some_iff] at hparse
            obtain ⟨mid, -, hmid⟩ := hparse
            obtain rfl := Option.some.inj hmid
            rfl
        · next ho =>
            obtain rfl := Option.some.inj hparse
            rw [if_neg ho]

theorem levelView : CallView Server.envLogLevel withLevel where
  parse := parseParameter_level
  set hset := by
    rw [Server.setParameters, Option.bind_eq_bind, Option.bind_eq_some_iff]
      at hset
    obtain ⟨g, -, hset⟩ := hset
    obtain rfl := Option.some.inj hset
    rfl
  load hload := by
    rw [Server.loadServices, Option.bind_eq_bind, Option.bind_eq_some_iff]
      at hload
    obtain ⟨g, -, hload⟩ := hload
    obtain rfl := Option.some.inj hload
    rfl

/-- `init_plugin` leaves what the calls of a start have made. -/
theorem CallView.initPlugin {V : Type} {view : Server → V}
    {act : V → ParameterCall → V} (hview : CallView view act)
    {argv : List (List Byte)} (hplugin : initPlugin argv s = some s') :
    view s' = view s := by
  rw [initPlugin_pairs, Option.bind_eq_some_iff] at hplugin
  obtain ⟨taken, -, hcalls⟩ := hplugin
  refine foldlM_preserves (P := fun _ mid => view mid = view s) ?_ rfl hcalls
  exact fun _ _ _ _ hmid hset => (hview.set hset).trans hmid

theorem withParameter_logLevel (ctx : TGContext) (call : ParameterCall) :
    (ctx.withParameter call).logLevel =
      if call.1 = char 'o' then levelOf call.2 else ctx.logLevel := by
  obtain ⟨c, pVal⟩ := call
  simp only [TGContext.withParameter]
  split
  · next hp =>
      rw [if_neg (by rw [hp]; decide)]
      rfl
  · split
    · next hl =>
        rw [if_neg (by rw [hl]; decide)]
        rfl
    · split
      · next hm =>
          rw [if_neg (by rw [hm]; decide)]
          rfl
      · split <;> rfl

/-- The text in the environment is that of the level. -/
theorem atoi_logLevelOf (c : Byte) :
    Decimal.atoi (logLevelOf c).2 = (logLevelOf c).1 ∧
      0 ≤ (logLevelOf c).1 ∧ (logLevelOf c).1 ≤ logLevelDebug := by
  unfold logLevelOf
  split
  · decide
  · split
    · decide
    · split
      · decide
      · split <;> decide

end Levels

/-- Every start leaves the level of its last log level, wherever that was given,
and 2 if there was none: a message of the running server is printed, with a
head of its own and cut to the buffer, exactly if its level is not above that;
errors always are.  The context has this level on record only if one was
given. -/
theorem main_logs {host : Host} {argv : List (List Byte)} {s : Server}
    (hmain : main host argv = some (.startup s)) :
    LogsAt s (lastValue (char 'o') (parameterCalls host argv))
      (givenLevel host argv) := by
  obtain ⟨accepted, hinit, hplugin⟩ := main_accepts hmain
  have henv : s.envLogLevel =
      ((lastValue (char 'o') (parameterCalls host argv)).map
        fun pVal => (logLevelOf (pVal.getD 0 0)).2).getD (ascii "2") := by
    rw [levelView.initPlugin hplugin, levelView.initContext hinit]
    exact @foldl_last _ _ withLevel id _ _ (fun _ _ => rfl) _ _
  have hatoi : Decimal.atoi s.envLogLevel = givenLevel host argv ∧
      0 ≤ givenLevel host argv ∧ givenLevel host argv ≤ logLevelDebug := by
    rw [henv, givenLevel]
    cases lastValue (char 'o') (parameterCalls host argv) with
    | none => decide
    | some pVal => exact atoi_logLevelOf _
  obtain ⟨hatoi, hrange⟩ := hatoi
  have hprinted : ∀ ctime tag of text,
      logN (some s.envLogLevel) ctime tag of text =
        if of ≤ givenLevel host argv then
          logHead ctime tag of ++ text.take 1023 ++ [char '\n']
        else [] := by
    intro ctime tag of text
    rw [← hatoi]
    rfl
  have hshown : ∀ ctime tag of text,
      logN (some s.envLogLevel) ctime tag of text ≠ [] ↔
        of ≤ givenLevel host argv := by
    intro ctime tag of text
    rw [hprinted]
    split <;> simp [*]
  refine ⟨hrange, hprinted, fun ctime tag text => ?_, fun ctime tag text =>
    ⟨hshown _ _ _ _, hshown _ _ _ _, ?_⟩, ?_⟩
  · exact (hshown _ _ logLevelError _).mpr hrange.1
  · exact (hshown _ _ _ _).trans ⟨fun hle => Int.le_antisymm hrange.2 hle,
      fun heq => Int.le_of_eq heq.symm⟩
  · rw [contextView.initPlugin hplugin, initContext_context hinit]
    refine ⟨_, rfl, ?_⟩
    rw [@afterCalls_last _ TGContext.logLevel _ levelOf
      withParameter_logLevel, givenLevel]
    cases lastValue (char 'o') (parameterCalls host argv) with
    | none => exact iff_of_false (by decide) fun hsome => hsome rfl
    | some pVal => exact iff_of_true rfl (Option.some_ne_none pVal)

namespace Log

/-- The file comes behind the option. -/
def host : Host := ServerNumbers.host (ascii "port=80\nlog-level=3\n")

def argv : List (List Byte) :=
  [ascii "tgserver", ascii "-o", ascii "0", ascii "-f", ascii "conf"]

theorem main_logs_argv :
    ∃ s, main host argv = some (.startup s) ∧
      LogsAt s (some (ascii "3\n")) logLevelDebug := by
  obtain ⟨s, hmain⟩ : ∃ s, main host argv = some (.startup s) := ⟨_, rfl⟩
  have hgiven : lastValue (char 'o') (parameterCalls host argv) =
      some (ascii "3\n") := by decide +kernel
  have hlogs := main_logs hmain
  rw [givenLevel, hgiven] at hlogs
  exact ⟨s, hmain, hlogs⟩

end Log

end TgServer
