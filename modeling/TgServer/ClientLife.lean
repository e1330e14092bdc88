/-
The service functions a client process calls over its life: `do_init` when it
starts and once more for each `CLIENT_INIT` event, `do_release` in one of the
three handlers that end it.
-/
import TgServer.EventThreads
import TgServer.Response

namespace TgServer

open Bytes Transition

/-- The records a loop over the registry visits; `none` is a loop that leaves
the array. -/
def loadedServices (g : Registry) : Option (List TGService) :=
  match g.gServices with
  | none => some []
  | some slots => do (← SlotTable.walk slots).mapM (g.objects[·]?)

/-- `__do_request`, then what the response thread does with the events. -/
def doRequest (p : Child) (turns : List Turn) : Option (List Effect) := do
  let (calls, _) ← initAllServices p.registry
  return calls.map .call ++ handleEvents p turns

def ServiceCall.isInit : ServiceCall → Bool
  | .init _ _ => true
  | _ => false

def ServiceCall.isRelease : ServiceCall → Bool
  | .release _ _ => true
  | _ => false

def TGService.initCall (pS : TGService) : ServiceCall :=
  .init pS.doInit pS.parameters

def TGService.releaseCall (pS : TGService) : ServiceCall :=
  .release pS.doRelease pS.pGlobalData

/-- The service calls of a kind among the effects, in order. -/
def serviceCalls (kind : ServiceCall → Bool) (effects : List Effect) :
    List ServiceCall :=
  effects.filterMap fun
    | .call call => if kind call then some call else none
    | _ => none

/-- Each loaded service is initialised once, all of them before the first
request any of them gets. -/
def InitializedOnce (registry : Registry) (trace : List Effect) : Prop :=
  ∃ services, loadedServices registry = some services ∧
    serviceCalls ServiceCall.isInit trace =
      services.map TGService.initCall ∧
    ∀ before fn data after, trace = before ++ .doRequest fn data :: after →
      serviceCalls ServiceCall.isInit before =
        services.map TGService.initCall

/-- Each loaded service is released once, and the process exits behind that. -/
def ReleasedOnce (registry : Registry) (trace : List Effect) : Prop :=
  ∃ services before, loadedServices registry = some services ∧
    trace = before ++ [.exit 0] ∧
    serviceCalls ServiceCall.isRelease before =
      services.map TGService.releaseCall

/-- The types of the events that end the process. -/
def terminating (type : Int) : Bool :=
  type == msgTypeClientQuit || type == msgTypeServerShutDown ||
    type == msgTypeClientBeClosedByAdmin

/-- The type of the first event that ends the process. -/
def endingType (turns : List Turn) : Option Int :=
  (turns.map fun turn => turn.event.type).find? terminating

section Loops

/-- A loop that leaves the registry alone makes one call for each record. -/
theorem forServices_calls {body : Registry → Addr → TGService →
      Option (List ServiceCall × Registry)} {call : TGService → ServiceCall}
    (hround : ∀ g a pS, body g a pS = some ([call pS], g)) (g : Registry) :
    forServices body g =
      (loadedServices g).map fun services => (services.map call, g) := by
  have htraverse : ∀ addrs : List Addr, traverse body addrs g =
      (addrs.mapM (g.objects[·]?)).map fun services =>
        (services.map call, g) := by
    intro addrs
    induction addrs with
    | nil => rfl
    | cons a rest ih =>
        rw [traverse, List.mapM_cons]
        cases g.objects[a]? with
        | none => rfl
        | some pS =>
            simp only [Option.bind_eq_bind, Option.bind_some, hround, ih,
              Option.pure_def]
            cases rest.mapM (g.objects[·]?) <;> rfl
  rw [forServices, loadedServices]
  cases g.gServices with
  | none => rfl
  | some slots =>
      simp only [Option.bind_eq_bind]
      cases SlotTable.walk slots with
      | none => rfl
      | some addrs => exact htraverse addrs

theorem initAllServices_eq (g : Registry) :
    initAllServices g = (loadedServices g).map fun services =>
      (services.map TGService.initCall, g) :=
  forServices_calls (fun _ _ _ => rfl) g

theorem releaseAllServices_eq (g : Registry) :
    releaseAllServices g = (loadedServices g).map fun services =>
      (services.map TGService.releaseCall, g) :=
  forServices_calls (fun _ _ _ => rfl) g

end Loops

section Calls

variable (kind : ServiceCall → Bool)

@[simp] theorem serviceCalls_nil : serviceCalls kind [] = [] := rfl

@[simp] theorem serviceCalls_append (first second : List Effect) :
    serviceCalls kind (first ++ second) =
      serviceCalls kind first ++ serviceCalls kind second :=
  List.filterMap_append

@[simp] theorem serviceCalls_call (calls : List ServiceCall) :
    serviceCalls kind (calls.map .call) = calls.filter kind := by
  rw [serviceCalls, List.filterMap_map, ← List.filterMap_eq_filter]
  rfl

/-- Effects that are no service calls. -/
theorem serviceCalls_of_none {effects : List Effect}
    (hnone : ∀ call, Effect.call call ∉ effects) :
    serviceCalls kind effects = [] := by
  rw [serviceCalls, List.filterMap_eq_nil_iff]
  intro effect heffect
  cases effect with
  | call call => exact absurd heffect (hnone call)
  | write | doRequest | fd | sleep | exit => rfl

theorem filter_initCalls (services : List TGService) :
    (services.map TGService.initCall).filter ServiceCall.isInit =
        services.map TGService.initCall ∧
      (services.map TGService.initCall).filter ServiceCall.isRelease = [] := by
  constructor <;> simp [List.filter_map, Function.comp_def,
    TGService.initCall, ServiceCall.isInit, ServiceCall.isRelease]

theorem filter_releaseCalls (services : List TGService) :
    (services.map TGService.releaseCall).filter ServiceCall.isRelease =
        services.map TGService.releaseCall ∧
      (services.map TGService.releaseCall).filter ServiceCall.isInit = [] := by
  constructor <;> simp [List.filter_map, Function.comp_def,
    TGService.releaseCall, ServiceCall.isInit, ServiceCall.isRelease]

end Calls

section Handlers

variable {p : Child} {turn : Turn} {services : List TGService}

/-- The effect is a write to the client or a request to a service. -/
def Effect.isReply : Effect → Bool
  | .write _ _ | .doRequest _ _ => true
  | _ => false

/-- What a handler does, as far as service calls and the end of the process
are concerned. -/
inductive Handled (services : List TGService) (type : Int) :
    List Effect → Prop where
  | quit {rest : List Effect} (htype : type = msgTypeClientQuit)
      (hrest : ∀ call, Effect.call call ∉ rest) :
      Handled services type
        ((services.map TGService.releaseCall).map .call ++ rest ++ [.exit 0])
  | init (htype : type = msgTypeClientInit) :
      Handled services type ((services.map TGService.initCall).map .call)
  | leave {rest : List Effect} (htype : type = msgTypeServerShutDown ∨
        type = msgTypeClientBeClosedByAdmin)
      (hrest : ∀ call, Effect.call call ∉ rest) :
      Handled services type (rest ++ [.exit 0])
  | reply {effects : List Effect} (hstays : terminating type = false)
      (hinit : type ≠ msgTypeClientInit)
      (hreply : ∀ effect ∈ effects, effect.isReply = true) :
      Handled services type effects

/-- `destroyClient` and `release` call no service. -/
theorem leave_calls {last : List Effect} {ret : Int} {effects : List Effect}
    (hlast : ∀ call, Effect.call call ∉ last)
    (hleave : leave p last = some (ret, effects)) :
    ∃ rest, effects = rest ++ [.exit 0] ∧ ∀ call, Effect.call call ∉ rest := by
  simp only [leave, Option.bind_eq_bind, Option.bind_eq_some_iff,
    Option.pure_def, Option.some.injEq, Prod.mk.injEq, releaseCalls] at hleave
  obtain ⟨calls, ⟨g, -, rfl⟩, -, rfl⟩ := hleave
  refine ⟨_, rfl, ?_⟩
  simp [hlast]

theorem send_some {pCli : TGClient} {id : Nat} {rest : Int × List Effect}
    {ret : Int} {effects : List Effect}
    (hsend : send pCli id rest = some (ret, effects)) :
    effects = [] ∨ ∃ fd octets, effects = .write fd octets :: rest.2 := by
  rw [send] at hsend
  split at hsend
  · rw [Option.some.injEq, Prod.mk.injEq] at hsend
    exact Or.inl hsend.2.symm
  · simp only [Option.bind_eq_bind, Option.bind_eq_some_iff, Option.pure_def,
      Option.some.injEq, Prod.mk.injEq] at hsend
    obtain ⟨response, -, -, rfl⟩ := hsend
    exact Or.inr ⟨_, _, rfl⟩

/-- The effects of a reply are writes. -/
theorem replyData_reply {reply : Reply} {ret : Int} {effects : List Effect}
    (hdata : replyData p reply = some (ret, effects)) :
    ∀ effect ∈ effects, effect.isReply = true := by
  rw [replyData] at hdata
  split at hdata
  · rcases send_some hdata with rfl | ⟨fd, octets, rfl⟩ <;>
      simp [Effect.isReply]
  · simp only [Option.bind_eq_bind, Option.bind_eq_some_iff] at hdata
    obtain ⟨header, -, hdata⟩ := hdata
    split at hdata
    · rw [Option.pure_def, Option.some.injEq, Prod.mk.injEq] at hdata
      rw [← hdata.2]
      simp [Effect.isReply]
    · cases hdata

theorem handleResponseClientRequest_reply {ret : Int} {effects : List Effect}
    (hrequest : handleResponseClientRequest p turn = some (ret, effects)) :
    ∀ effect ∈ effects, effect.isReply = true := by
  rw [handleResponseClientRequest] at hrequest
  split at hrequest
  · rw [Option.some.injEq, Prod.mk.injEq] at hrequest
    simp [← hrequest.2]
  simp only [Option.bind_eq_bind, Option.bind_eq_some_iff] at hrequest
  obtain ⟨pReq, -, ⟨found, pSer⟩, -, hrequest⟩ := hrequest
  dsimp only at hrequest
  split at hrequest
  · cases pSer with
    | none =>
        simp only [Option.pure_def, Option.some.injEq, Prod.mk.injEq]
          at hrequest
        simp [← hrequest.2]
    | some pSer =>
        cases hreply : turn.reply with
        | none =>
            simp only [hreply, Option.pure_def, Option.some.injEq,
              Prod.mk.injEq] at hrequest
            simp [← hrequest.2, Effect.isReply]
        | some reply =>
            simp only [hreply, Option.bind_eq_some_iff, Option.pure_def,
              Option.some.injEq, Prod.mk.injEq] at hrequest
            obtain ⟨⟨_, more⟩, hdata, -, rfl⟩ := hrequest
            rw [List.forall_mem_cons]
            exact ⟨rfl, replyData_reply hdata⟩
  · split at hrequest <;>
      rcases send_some hrequest with rfl | ⟨fd, octets, rfl⟩ <;>
      simp [Effect.isReply]

/-- The two administrative ends: a message, then `destroyClient`, `release`
and the rest. -/
theorem leave_handled {type : Int} (htype : type = msgTypeServerShutDown ∨
      type = msgTypeClientBeClosedByAdmin) {id : Nat} (hid : id < responseMax)
    {ret : Int} {effects : List Effect}
    (hleave : (leave p [.sleep 2]).bind (send p.client id) =
      some (ret, effects)) :
    Handled services type effects := by
  rw [Option.bind_eq_some_iff] at hleave
  obtain ⟨⟨_, last⟩, hlast, hsend⟩ := hleave
  obtain ⟨rest, rfl, hrest⟩ := leave_calls (by simp) hlast
  rw [send, if_neg (by omega)] at hsend
  simp only [Option.bind_eq_bind, Option.bind_eq_some_iff, Option.pure_def,
    Option.some.injEq, Prod.mk.injEq] at hsend
  obtain ⟨response, -, -, rfl⟩ := hsend
  rw [← List.cons_append]
  exact .leave htype (by simpa using hrest)

/-- Every event that is handled is handled in one of these ways. -/
theorem handleResponse_handled
    (hservices : loadedServices p.registry = some services) {ret : Int}
    {effects : List Effect}
    (hhandle : handleResponse p turn = some (ret, effects)) :
    Handled services turn.event.type effects := by
  rw [handleResponse_eq] at hhandle
  split at hhandle
  · next htype =>
    simp only [handleResponseClientQuit, releaseAllServices_eq, hservices,
      Option.map_some, Option.bind_eq_bind, Option.bind_some,
      Option.bind_eq_some_iff, Option.pure_def, Option.some.injEq,
      Prod.mk.injEq] at hhandle
    obtain ⟨⟨_, last⟩, hlast, -, rfl⟩ := hhandle
    obtain ⟨rest, rfl, hrest⟩ := leave_calls (by simp) hlast
    rw [← List.append_assoc]
    exact .quit htype hrest
  split at hhandle
  · next htype =>
    refine .reply (by rw [htype]; decide) (by rw [htype]; decide) ?_
    exact handleResponseClientRequest_reply hhandle
  split at hhandle
  · next htype =>
    refine .reply (by rw [htype]; decide) (by rw [htype]; decide) ?_
    rcases send_some hhandle with rfl | ⟨fd, octets, rfl⟩ <;>
      simp [Effect.isReply]
  split at hhandle
  · next htype => exact leave_handled (Or.inl htype) (by decide) hhandle
  split at hhandle
  · next htype =>
    simp only [handleResponseClientInit, initAllServices_eq, hservices,
      Option.map_some, Option.bind_eq_bind, Option.bind_some, Option.pure_def,
      Option.some.injEq, Prod.mk.injEq] at hhandle
    exact hhandle.2 ▸ .init htype
  split at hhandle
  · next htype => exact leave_handled (Or.inr htype) (by decide) hhandle
  · next hquit _ _ hshut hinit hclosed =>
    split at hhandle
    · cases hhandle
    · rw [Option.some.injEq, Prod.mk.injEq] at hhandle
      refine .reply ?_ hinit (by simp [← hhandle.2])
      simp [terminating, hquit, hshut, hclosed]

/-- What is known of a handled event: the calls it makes and whether it ends
the process. -/
theorem Handled.summary {type : Int} {effects : List Effect}
    (hhandled : Handled services type effects) :
    serviceCalls ServiceCall.isInit effects =
        (if type = msgTypeClientInit then services.map TGService.initCall
          else []) ∧
      serviceCalls ServiceCall.isRelease effects =
        (if type = msgTypeClientQuit then services.map TGService.releaseCall
          else []) ∧
      exits effects = terminating type := by
  cases hhandled with
  | quit htype hrest =>
      subst htype
      simp only [serviceCalls_append, serviceCalls_call, filter_releaseCalls,
        serviceCalls_of_none _ hrest, exits_append]
      refine ⟨rfl, ?_, ?_⟩
      · rw [List.append_nil, if_pos trivial]
        exact List.append_nil _
      · exact Bool.or_true _
  | init htype =>
      subst htype
      simp only [serviceCalls_call, filter_initCalls, exits_call]
      exact ⟨rfl, rfl, rfl⟩
  | leave htype hrest =>
      simp only [serviceCalls_append, serviceCalls_of_none _ hrest,
        exits_append]
      rcases htype with rfl | rfl <;> exact ⟨rfl, rfl, Bool.or_true _⟩
  | reply hstays hinit hreply =>
      have hnone : ∀ call, Effect.call call ∉ effects := fun call hmem => by
        cases hreply _ hmem
      have hquit : type ≠ msgTypeClientQuit := by
        rintro rfl
        cases hstays
      rw [serviceCalls_of_none _ hnone, serviceCalls_of_none _ hnone,
        if_neg hinit, if_neg hquit, hstays]
      refine ⟨rfl, rfl, ?_⟩
      rw [exits, List.any_eq_false]
      intro effect heffect
      have heffect := hreply effect heffect
      cases effect <;> simp_all [Effect.isReply]

end Handlers

section Runs

variable {p : Child} {services : List TGService}

/-- The `CLIENT_INIT` events among those that are handled. -/
def initEvents (p : Child) : List Turn → Nat
  | [] => 0
  | turn :: rest =>
      match handleResponse p turn with
      | none => 0
      | some (_, effects) =>
          (if turn.event.type = msgTypeClientInit then 1 else 0) +
            if exits effects then 0 else initEvents p rest

/-- Every `CLIENT_INIT` event that is handled initialises all services. -/
theorem handleEvents_inits
    (hservices : loadedServices p.registry = some services)
    (turns : List Turn) :
    serviceCalls ServiceCall.isInit (handleEvents p turns) =
      (List.replicate (initEvents p turns)
        (services.map TGService.initCall)).flatten := by
  induction turns with
  | nil => rfl
  | cons turn rest ih =>
      rw [handleEvents, initEvents]
      cases hhandle : handleResponse p turn with
      | none => rfl
      | some result =>
          obtain ⟨ret, effects⟩ := result
          have hsummary :=
            (handleResponse_handled hservices hhandle).summary.1
          dsimp only
          cases hexits : exits effects with
          | true =>
              simp only [↓reduceIte, Nat.add_zero, hsummary]
              split <;> simp
          | false =>
              simp only [Bool.false_eq_true, ↓reduceIte, serviceCalls_append,
                hsummary, ih]
              split
              · rw [Nat.add_comm, List.replicate_succ, List.flatten_cons]
              · rw [Nat.zero_add, List.nil_append]

/-- Over its life a client process initialises its services once and once more
for each `CLIENT_INIT` event it handles. -/
theorem doRequest_inits (hservices : loadedServices p.registry = some services)
    (turns : List Turn) :
    ∃ trace, doRequest p turns = some trace ∧
      trace = (services.map TGService.initCall).map .call ++
        handleEvents p turns ∧
      serviceCalls ServiceCall.isInit trace =
        (List.replicate (initEvents p turns + 1)
          (services.map TGService.initCall)).flatten := by
  refine ⟨_, by simp [doRequest, initAllServices_eq, hservices], rfl, ?_⟩
  rw [serviceCalls_append, serviceCalls_call, (filter_initCalls services).1,
    handleEvents_inits hservices, List.replicate_succ, List.flatten_cons]

/-- The services are initialised exactly once if and only if there are none or
no `CLIENT_INIT` event is handled. -/
theorem initializedOnce_iff
    (hservices : loadedServices p.registry = some services)
    {turns : List Turn} {trace : List Effect}
    (htrace : doRequest p turns = some trace) :
    InitializedOnce p.registry trace ↔
      services = [] ∨ initEvents p turns = 0 := by
  obtain ⟨trace', hrun, hshape, hinits⟩ := doRequest_inits hservices turns
  obtain rfl : trace' = trace := Option.some.inj (hrun.symm.trans htrace)
  constructor
  · rintro ⟨other, hother, honce, -⟩
    obtain rfl : services = other := Option.some.inj (hservices.symm.trans hother)
    have hlength := congrArg List.length (hinits.symm.trans honce)
    simp only [List.length_flatten, List.map_replicate,
      List.sum_replicate_nat, List.length_map, Nat.add_mul, Nat.one_mul]
      at hlength
    have hzero : initEvents p turns * services.length = 0 := by omega
    rcases Nat.mul_eq_zero.mp hzero with hnone | hnil
    · exact Or.inr hnone
    · exact Or.inl (List.length_eq_zero_iff.mp hnil)
  · intro hcases
    have honce : serviceCalls ServiceCall.isInit trace' =
        services.map TGService.initCall := by
      rw [hinits]
      rcases hcases with rfl | hzero
      · simp
      · simp [hzero]
    refine ⟨services, hservices, honce, ?_⟩
    intro before fn data after hsplit
    -- the calls of the start are all made before the first request
    have hsplit' := hshape.symm.trans hsplit
    rcases List.append_eq_append_iff.mp hsplit' with
      ⟨middle, hbefore, -⟩ | ⟨middle, hcalls, hrest⟩
    · rw [hsplit, serviceCalls_append] at honce
      rw [hbefore, serviceCalls_append, serviceCalls_call,
        (filter_initCalls services).1] at honce ⊢
      rw [List.append_assoc] at honce
      have hnil := List.self_eq_append_right.mp honce.symm
      rw [(List.append_eq_nil_iff.mp hnil).1, List.append_nil]
    · cases middle with
      | nil =>
          rw [List.append_nil] at hcalls
          rw [← hcalls, serviceCalls_call, (filter_initCalls services).1]
      | cons effect middle =>
          rw [List.cons_append, List.cons.injEq] at hrest
          have hmem : Effect.doRequest fn data ∈
              (services.map TGService.initCall).map Effect.call := by
            rw [hcalls, hrest.1]
            simp
          simp at hmem

/-- The events handled in a run of the two threads start with the one the
reader thread sends first. -/
theorem handled_head {s : Threads} (hreach : threads.Reachable s) :
    s.handled = [] ∨ ∃ rest, s.handled = clientInit :: rest := by
  obtain ⟨content, hinv⟩ := threads_consistent hreach
  cases hhandled : s.handled with
  | nil => exact Or.inl rfl
  | cons first rest =>
      have hhistory := hinv.history
      rw [hhandled, List.cons_append, List.cons_append] at hhistory
      rcases hinv.first with hhead | ⟨hnil, -⟩
      · rw [hhistory, List.head?_cons, Option.some.injEq] at hhead
        exact Or.inr ⟨rest, by rw [hhead]⟩
      · rw [hnil] at hhistory
        cases hhistory

end Runs

/-- In every run of a client process each service is initialised exactly once,
before the first request, if and only if the registry can be walked and there
are no services or no event has been handled. -/
theorem doRequest_initializedOnce_iff (p : Child) {s : Threads}
    (hreach : threads.Reachable s) {turns : List Turn}
    (hturns : turns.map (fun turn => turn.event.message) = s.handled) :
    (∃ trace, doRequest p turns = some trace ∧
        InitializedOnce p.registry trace) ↔
      ∃ services, loadedServices p.registry = some services ∧
        (services = [] ∨ s.handled = []) := by
  constructor
  · rintro ⟨trace, htrace, honce⟩
    have hloaded := honce
    obtain ⟨services, hservices, -⟩ := hloaded
    refine ⟨services, hservices, ?_⟩
    have hcases := (initializedOnce_iff hservices htrace).mp honce
    refine hcases.imp_right fun hzero => ?_
    rcases handled_head hreach with hnil | ⟨rest, hrest⟩
    · exact hnil
    · exfalso
      rw [hrest] at hturns
      obtain ⟨turn, more, rfl, hfirst, -⟩ := List.map_eq_cons_iff.mp hturns
      have htype : turn.event.type = msgTypeClientInit :=
        congrArg Prod.fst hfirst
      have hhandle : handleResponse p turn = handleResponseClientInit p := by
        rw [handleResponse_eq, htype]
        rfl
      rw [handleResponseClientInit, initAllServices_eq, hservices] at hhandle
      rw [initEvents, hhandle] at hzero
      simp only [Option.map_some, Option.bind_eq_bind, Option.bind_some,
        Option.pure_def, htype, ↓reduceIte] at hzero
      omega
  · rintro ⟨services, hservices, hcases⟩
    obtain ⟨trace, htrace, -⟩ := doRequest_inits hservices turns
    refine ⟨trace, htrace, (initializedOnce_iff hservices htrace).mpr ?_⟩
    refine hcases.imp_right fun hnil => ?_
    rw [hnil, List.map_eq_nil_iff] at hturns
    rw [hturns]
    rfl

section Releases

variable {p : Child} {services : List TGService}

/-- The handler of a terminating event exits last. -/
theorem Handled.ends {type : Int} {effects : List Effect}
    (hhandled : Handled services type effects)
    (hterminating : terminating type = true) :
    ∃ before, effects = before ++ [.exit 0] ∧
      serviceCalls ServiceCall.isRelease before =
        serviceCalls ServiceCall.isRelease effects := by
  have hback : ∃ before, effects = before ++ [.exit 0] := by
    cases hhandled with
    | quit htype hrest => exact ⟨_, rfl⟩
    | init htype =>
        rw [htype] at hterminating
        cases hterminating
    | leave htype hrest => exact ⟨_, rfl⟩
    | reply hstays _ _ =>
        rw [hstays] at hterminating
        cases hterminating
  obtain ⟨before, rfl⟩ := hback
  refine ⟨before, rfl, ?_⟩
  rw [serviceCalls_append]
  exact (List.append_nil _).symm

/-- A run that exits does so in the handler of the first terminating event,
and only the one for the quit of the client has released the services. -/
theorem handleEvents_releases
    (hservices : loadedServices p.registry = some services)
    {turns : List Turn} (hexits : exits (handleEvents p turns) = true) :
    ∃ type before, endingType turns = some type ∧
      terminating type = true ∧
      handleEvents p turns = before ++ [.exit 0] ∧
      serviceCalls ServiceCall.isRelease before =
        if type = msgTypeClientQuit then services.map TGService.releaseCall
        else [] := by
  induction turns with
  | nil => cases hexits
  | cons turn rest ih =>
      rw [handleEvents] at hexits ⊢
      cases hhandle : handleResponse p turn with
      | none =>
          rw [hhandle] at hexits
          cases hexits
      | some result =>
          obtain ⟨ret, effects⟩ := result
          have hhandled := handleResponse_handled hservices hhandle
          obtain ⟨-, hreleases, hends⟩ := hhandled.summary
          rw [hhandle] at hexits
          dsimp only at hexits ⊢
          cases hterminating : terminating turn.event.type with
          | true =>
              rw [hterminating] at hends
              have hending : endingType (turn :: rest) =
                  some turn.event.type := by
                rw [endingType, List.map_cons, List.find?_cons_of_pos
                  hterminating]
              simp only [hends, ↓reduceIte]
              obtain ⟨before, hbefore, hcalls⟩ := hhandled.ends hterminating
              exact ⟨turn.event.type, before, hending, hterminating, hbefore,
                hcalls.trans hreleases⟩
          | false =>
              rw [hterminating] at hends
              simp only [hends, Bool.false_eq_true, ↓reduceIte, exits_append,
                Bool.false_or] at hexits ⊢
              obtain ⟨type, before, hending, hterm, hbefore, hcalls⟩ := ih hexits
              refine ⟨type, effects ++ before, ?_, hterm, ?_, ?_⟩
              · rw [endingType, List.map_cons, List.find?_cons_of_neg
                  (by rw [hterminating]; exact Bool.false_ne_true)]
                exact hending
              · rw [hbefore, List.append_assoc]
              · have hquit : turn.event.type ≠ msgTypeClientQuit := by
                  intro htype
                  rw [htype] at hterminating
                  cases hterminating
                rw [serviceCalls_append, hreleases, if_neg hquit,
                  List.nil_append, hcalls]

end Releases

/-- When a client process ends, each of its services has been released exactly
once if and only if it was the client that quit, or there are none. -/
theorem doRequest_releasedOnce_iff (p : Child) {turns : List Turn}
    {trace : List Effect} (htrace : doRequest p turns = some trace)
    (hexits : exits trace = true) :
    ReleasedOnce p.registry trace ↔
      loadedServices p.registry = some [] ∨
        endingType turns = some msgTypeClientQuit := by
  have hwalk : ∃ services, loadedServices p.registry = some services := by
    rw [doRequest, initAllServices_eq] at htrace
    cases hservices : loadedServices p.registry with
    | none => simp [hservices] at htrace
    | some services => exact ⟨services, rfl⟩
  obtain ⟨services, hservices⟩ := hwalk
  obtain ⟨trace', hrun, hshape, -⟩ := doRequest_inits hservices turns
  obtain rfl : trace' = trace := Option.some.inj (hrun.symm.trans htrace)
  rw [hshape, exits_append, exits_call, Bool.false_or] at hexits
  obtain ⟨type, before, hending, -, hbefore, hcalls⟩ :=
    handleEvents_releases hservices hexits
  have hstart := filter_initCalls services
  rw [hending, Option.some.injEq, hservices, Option.some.injEq]
  have hall : trace' = ((services.map TGService.initCall).map .call ++
      before) ++ [.exit 0] := by
    rw [hshape, hbefore, List.append_assoc]
  have hreleases : serviceCalls ServiceCall.isRelease
      ((services.map TGService.initCall).map .call ++ before) =
        if type = msgTypeClientQuit then services.map TGService.releaseCall
        else [] := by
    rw [serviceCalls_append, serviceCalls_call, hstart.2, List.nil_append,
      hcalls]
  constructor
  · rintro ⟨other, front, hother, hsplit, honce⟩
    obtain rfl : services = other :=
      Option.some.inj (hservices.symm.trans hother)
    obtain rfl := List.append_cancel_right (hall.symm.trans hsplit)
    rw [hreleases] at honce
    split at honce
    · next hquit => exact Or.inr hquit
    · exact Or.inl (List.map_eq_nil_iff.mp honce.symm)
  · intro hcases
    refine ⟨services, _, hservices, hall, hreleases.trans ?_⟩
    rcases hcases with rfl | hquit
    · split <;> rfl
    · rw [if_pos hquit]

namespace ClientLife

/-- One service whose five functions lie at the addresses 1 to 5. -/
def registry : Registry :=
  ⟨some [some 0, none], 2, 1, [⟨0, none, none, 0, 1, 2, 3, 4, 5, some 9⟩], []⟩

def child : Child :=
  ⟨registry, .initial, ⟨0, 5, 6, 7, none, 0⟩, Globals.initial_fits⟩

/-- An event without data. -/
def turn (type : Int) : Turn := ⟨⟨-1, type, none, none⟩, [], none⟩

/-- The start signal is sent, taken off the queue and handled. -/
def steps : List ThreadStep :=
  [.readerLock, .readerPush 1, .readerSignal, .readerUnlock, .responseCreate,
    .responseLock, .responseHead, .responseUnlock, .responseHandle]

theorem doRequest_initializedOnce_iff_steps :
    ∃ s, threads.run threads.start steps = some s ∧
      [turn msgTypeClientInit].map (fun turn => turn.event.message) =
        s.handled ∧
      ((∃ trace, doRequest child [turn msgTypeClientInit] = some trace ∧
          InitializedOnce child.registry trace) ↔
        ∃ services, loadedServices child.registry = some services ∧
          (services = [] ∨ s.handled = [])) :=
  ⟨_, rfl, rfl, doRequest_initializedOnce_iff child ⟨steps, rfl⟩ rfl⟩

/-- The start and the first event initialise the service twice. -/
theorem doRequest_init_twice :
    doRequest child [turn msgTypeClientInit] =
        some [.call (.init 2 none), .call (.init 2 none)] ∧
      ¬ ∃ trace, doRequest child [turn msgTypeClientInit] = some trace ∧
        InitializedOnce child.registry trace := by
  refine ⟨by decide, ?_⟩
  rintro ⟨trace, htrace, services, hservices, honce, -⟩
  have hrun : doRequest child [turn msgTypeClientInit] =
      some [.call (.init 2 none), .call (.init 2 none)] := by decide
  obtain rfl := Option.some.inj (hrun.symm.trans htrace)
  have hloaded : loadedServices child.registry = some registry.objects := by
    decide
  obtain rfl := Option.some.inj (hloaded.symm.trans hservices)
  exact absurd honce (by decide)

theorem doRequest_releasedOnce_iff_quit :
    ∃ trace, doRequest child [turn msgTypeClientInit, turn msgTypeClientQuit] =
        some trace ∧ exits trace = true ∧
      (ReleasedOnce child.registry trace ↔
        loadedServices child.registry = some [] ∨
          endingType [turn msgTypeClientInit, turn msgTypeClientQuit] =
            some msgTypeClientQuit) :=
  ⟨_, rfl, rfl, doRequest_releasedOnce_iff child rfl rfl⟩

/-- A shutdown ends the process without a release. -/
theorem doRequest_shutDown_unreleased :
    ∃ trace, doRequest child
        [turn msgTypeClientInit, turn msgTypeServerShutDown] = some trace ∧
      exits trace = true ∧
      serviceCalls ServiceCall.isRelease trace = [] ∧
      ¬ ReleasedOnce child.registry trace := by
  refine ⟨_, rfl, rfl, by decide, ?_⟩
  rintro ⟨services, before, hservices, hsplit, honce⟩
  have hloaded : loadedServices child.registry = some registry.objects := by
    decide
  obtain rfl := Option.some.inj (hloaded.symm.trans hservices)
  have hcalls := (congrArg (serviceCalls ServiceCall.isRelease) hsplit).trans
    (serviceCalls_append ServiceCall.isRelease before [.exit 0])
  rw [honce] at hcalls
  exact absurd hcalls (by decide)

end ClientLife

end TgServer
