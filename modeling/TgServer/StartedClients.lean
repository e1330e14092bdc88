/-
From `main` to the client processes: in whatever order the thread that creates
the services, the accept loop and the children take their steps, what the
services are called with is what the start was given.
-/
import TgServer.ServiceStart
import TgServer.SharedParameters
import TgServer.StartUp

namespace TgServer

open Bytes Transition

/-- The places of the services whose `do_create` returned, in order. -/
def createdPlaces (trace : List LifeEvent) : List Addr :=
  trace.filterMap fun
    | .created a _ => some a
    | _ => none

/-- The places of the services whose `do_init` a child called, in order. -/
def initPlaces (pid : TgPid) (trace : List LifeEvent) : List Addr :=
  trace.filterMap fun
    | .inChild other a (.init _ _) => if other = pid then some a else none
    | _ => none

/-- How far the thread of `createAllServices` has come with `n` services. -/
def CreatedTo (n : Nat) (trace : List LifeEvent) : CreatorPc → Prop
  | .fetch i => i ≤ n ∧ createdPlaces trace = List.range i
  | .calling i a => i < n ∧ a = i ∧ createdPlaces trace = List.range i
  | .storing i a _ => i < n ∧ a = i ∧
      createdPlaces trace = List.range (i + 1)
  | .done => createdPlaces trace = List.range n

/-- A registry has at this place the service of the start, with the parameters
it was given, and this holds of the service and its record. -/
def Given (host : Host) (argv : List (List Byte)) (g : Registry) (a : Addr)
    (fact : TGService → TGService → Prop) : Prop :=
  ∃ pService pSer, (startServices host argv)[a]? = some pService ∧
    g.objects[a]? = some pSer ∧ fact pService pSer ∧
    HoldsTexts g pSer (textsFor host argv a)

/-- What the process and its children do with the services of a start. -/
structure Serves (host : Host) (argv : List (List Byte)) (l : LifeState) :
    Prop where
  /-- No `do_create` returns twice, and all are called in load order. -/
  created : ∃ k ≤ (startServices host argv).length,
    createdPlaces l.trace = List.range k
  complete : l.creator = .done →
    createdPlaces l.trace = List.range (startServices host argv).length
  creating : ∀ i a, l.creator = .calling i a →
    Given host argv l.registry a fun pService pSer =>
      pSer.doCreate = pService.doCreate
  /-- A child initialises all services, in load order, or none. -/
  inits : ∀ pid, ∃ m, initPlaces pid l.trace =
    (List.replicate m (List.range (startServices host argv).length)).flatten
  called : ∀ pid a fn parameters,
    .inChild pid a (.init fn parameters) ∈ l.trace →
      Given host argv (l.copies pid) a fun pService pSer =>
        fn = pService.doInit ∧ parameters = pSer.parameters
  /-- In a child that was forked at any time a name leads to the earliest
  service of the name. -/
  answers : ∀ pid, .forked pid ∈ l.trace →
    (startServices host argv = [] ∨
      (startServices host argv).length % defaultServiceSize ≠ 0) →
    ∀ name, 0 ∉ name →
      (findServiceN (l.copies pid) name).map (Option.map TGService.doRequest) =
        some (((startServices host argv).find? (·.name == some name)).map
          TGService.doRequest)

/-- What holds while the process is there that started with this registry. -/
structure Serving (base : Registry) (l : LifeState) : Prop where
  registry : SameButData base l.registry
  forked : ∀ pid, .forked pid ∈ l.trace → SameButData base (l.copies pid)
  idle : ∀ pid, .forked pid ∉ l.trace → l.copies pid = .initial
  creator : CreatedTo base.objects.length l.trace l.creator
  inits : ∀ pid, ∃ m, initPlaces pid l.trace =
    (List.replicate m (List.range base.objects.length)).flatten
  called : ∀ pid a call, .inChild pid a call ∈ l.trace →
    .forked pid ∈ l.trace ∧ ∃ pS, base.objects[a]? = some pS ∧
      (call = pS.initCall ∨ ∃ data, call = .release pS.doRelease data)
  destroyed : ∀ a call, .inMain a call ∈ l.trace →
    ∃ pS, base.objects[a]? = some pS ∧ call = pS.destroyCall

section Registries

variable {base g : Registry}

theorem SameButData.refl (g : Registry) : SameButData g g := ⟨rfl, rfl⟩

/-- What `do_create` returned is stored in a record. -/
theorem SameButData.store (hsame : SameButData base g) {a : Addr}
    {pS : TGService} (hget : g.objects[a]? = some pS) (data : Option Addr) :
    SameButData base { g with
      objects := g.objects.set a { pS with pGlobalData := data } } := by
  obtain ⟨hlt, hself⟩ := List.getElem?_eq_some_iff.mp hget
  have hdata : withoutData { pS with pGlobalData := data } =
      withoutData g.objects[a] := by
    rw [hself]
    rfl
  constructor
  · rw [hsame.rest]
  · rw [← hsame.records, List.map_set, hdata]
    apply List.ext_getElem?
    intro b
    by_cases hb : a = b
    · subst hb
      rw [List.getElem?_set_self (by rwa [List.length_map]),
        List.getElem?_map, List.getElem?_eq_getElem hlt]
      rfl
    · rw [List.getElem?_set_ne hb]

/-- A record in the array stands at the place of its number. -/
theorem Packed.slot (hpacked : Packed g g.objects) {i a : Nat}
    (hslot : g.slots[i]? = some (some a)) : i < g.objects.length ∧ a = i := by
  rw [hpacked.slots] at hslot
  by_cases hi : i < g.objects.length
  · rw [List.getElem?_append_left (by simpa using hi)] at hslot
    simp only [List.getElem?_map, List.getElem?_range hi, Option.map_some,
      Option.some.injEq] at hslot
    exact ⟨hi, hslot.symm⟩
  · rw [List.getElem?_append_right (by simpa using hi)] at hslot
    cases List.mem_replicate.mp (List.mem_of_getElem? hslot) with
    | intro hlength hnone => cases hnone

/-- The first NULL comes behind the services. -/
theorem Packed.end (hpacked : Packed g g.objects) {i : Nat}
    (hi : i ≤ g.objects.length)
    (hend : g.gServices = none ∨ g.slots[i]? = some none) :
    i = g.objects.length := by
  rcases hend with hnone | hnull
  · have hnil := hpacked.array.mp hnone
    rw [hnil, List.length_nil] at hi ⊢
    omega
  · by_contra hne
    have hlt : i < g.objects.length := by omega
    rw [hpacked.slots, List.getElem?_append_left (by simpa using hlt)] at hnull
    simp [List.getElem?_range hlt] at hnull

/-- A loop over the registry visits the places in order. -/
theorem Packed.visits (hpacked : Packed g g.objects)
    {records : List (Addr × TGService)} (hvisits : visits g = some records) :
    records.map Prod.fst = List.range g.objects.length := by
  rw [TgServer.visits] at hvisits
  cases harray : g.gServices with
  | none =>
      simp only [harray, Option.some.injEq] at hvisits
      rw [← hvisits, hpacked.array.mp harray]
      rfl
  | some slots =>
      obtain ⟨-, hwalk⟩ := hpacked.walk harray
      simp only [harray, hwalk, Option.bind_eq_bind] at hvisits
      split at hvisits
      · cases hvisits
      · rw [Option.bind_some] at hvisits
        generalize List.range g.objects.length = addrs at hvisits
        induction addrs generalizing records with
        | nil =>
            obtain rfl := Option.some.inj hvisits
            rfl
        | cons a addrs ih =>
            simp only [List.mapM_cons, Option.bind_eq_bind,
              Option.bind_eq_some_iff, Option.pure_def, Option.some.injEq,
              Option.map_eq_some_iff] at hvisits
            obtain ⟨first, ⟨pS, -, rfl⟩, rest, hrest, rfl⟩ := hvisits
            rw [List.map_cons, ih hrest]

end Registries

section Traces

theorem createdPlaces_append (first second : List LifeEvent) :
    createdPlaces (first ++ second) =
      createdPlaces first ++ createdPlaces second := List.filterMap_append

theorem initPlaces_append (pid : TgPid) (first second : List LifeEvent) :
    initPlaces pid (first ++ second) =
      initPlaces pid first ++ initPlaces pid second := List.filterMap_append

theorem CreatedTo.congr {n : Nat} {trace trace' : List LifeEvent}
    {creator : CreatorPc} (hcreated : CreatedTo n trace creator)
    (hsame : createdPlaces trace' = createdPlaces trace) :
    CreatedTo n trace' creator := by
  cases creator with
  | fetch i | calling i a | storing i a data | done =>
      simp only [CreatedTo, hsame]
      exact hcreated

theorem createdPlaces_none {events : List LifeEvent}
    (hnone : ∀ a data, .created a data ∉ events) :
    createdPlaces events = [] := by
  apply List.filterMap_eq_nil_iff.mpr
  intro event hevent
  cases event with
  | created a data => exact absurd hevent (hnone a data)
  | forked pid | inChild pid a call | inMain a call => rfl

theorem initPlaces_inits (pid other : TgPid)
    (records : List (Addr × TGService)) :
    initPlaces other (records.map fun record =>
      .inChild pid record.1 record.2.initCall) =
      if pid = other then records.map Prod.fst else [] := by
  rw [initPlaces, List.filterMap_map]
  split
  · next hsame =>
      subst hsame
      rw [← List.filterMap_eq_map]
      apply List.filterMap_congr
      intro record _
      simp [TGService.initCall]
  · next hother =>
      apply List.filterMap_eq_nil_iff.mpr
      intro record _
      simp [TGService.initCall, hother]

end Traces

namespace Serving

variable {base : Registry} {l l' : LifeState}

section Events

variable {events : List LifeEvent}
variable (hforked : ∀ pid, .forked pid ∉ events)
variable (hinits : ∀ pid, ∃ m, initPlaces pid events =
  (List.replicate m (List.range base.objects.length)).flatten)
variable (hcalled : ∀ pid a call, .inChild pid a call ∈ events →
  .forked pid ∈ l.trace ∧ ∃ pS, base.objects[a]? = some pS ∧
    (call = pS.initCall ∨ ∃ data, call = .release pS.doRelease data))
variable (hdestroyed : ∀ a call, .inMain a call ∈ events →
  ∃ pS, base.objects[a]? = some pS ∧ call = pS.destroyCall)

include hforked hinits hcalled hdestroyed

/-- A step that adds to the trace but forks nobody. -/
theorem append (hserving : Serving base l) {creator : CreatorPc}
    (hcreator : CreatedTo base.objects.length (l.trace ++ events) creator) :
    Serving base
      { l with creator := creator, trace := l.trace ++ events } where
  registry := hserving.registry
  forked := by
    intro pid hmem
    rcases List.mem_append.mp hmem with hbefore | hnow
    · exact hserving.forked pid hbefore
    · exact absurd hnow (hforked pid)
  idle := by
    intro pid hmem
    apply hserving.idle pid
    exact fun hbefore => hmem (List.mem_append_left _ hbefore)
  creator := hcreator
  inits := by
    intro pid
    obtain ⟨m, hm⟩ := hserving.inits pid
    obtain ⟨k, hk⟩ := hinits pid
    exact ⟨m + k, by rw [initPlaces_append, hm, hk, List.replicate_add,
      List.flatten_append]⟩
  called := by
    intro pid a call hmem
    rcases List.mem_append.mp hmem with hbefore | hnow
    · obtain ⟨hfork, hcall⟩ := hserving.called pid a call hbefore
      exact ⟨List.mem_append_left _ hfork, hcall⟩
    · obtain ⟨hfork, hcall⟩ := hcalled pid a call hnow
      exact ⟨List.mem_append_left _ hfork, hcall⟩
  destroyed := by
    intro a call hmem
    rcases List.mem_append.mp hmem with hbefore | hnow
    · exact hserving.destroyed a call hbefore
    · exact hdestroyed a call hnow

/-- Calls in a child or in the main process. -/
theorem calls (hserving : Serving base l)
    (hcreated : ∀ a data, .created a data ∉ events) :
    Serving base { l with trace := l.trace ++ events } := by
  apply append hforked hinits hcalled hdestroyed hserving
  apply hserving.creator.congr
  rw [createdPlaces_append, createdPlaces_none hcreated, List.append_nil]

end Events

/-- A `fork` gives the child the registry as it is then. -/
theorem main (hserving : Serving base l) (next : MainState) (act : Act) :
    Serving base (l.forkCopies next act) := by
  obtain ⟨hregistry, hcreator, -, hcases⟩ := l.forkCopies_cases next act
  rcases hcases with ⟨-, hcopies, htrace⟩ | ⟨cpid, -, -, hcopies, htrace⟩
  · constructor
    · rw [hregistry]
      exact hserving.registry
    · rw [htrace, hcopies]
      exact hserving.forked
    · rw [htrace, hcopies]
      exact hserving.idle
    · rw [htrace, hcreator]
      exact hserving.creator
    · rw [htrace]
      exact hserving.inits
    · rw [htrace]
      exact hserving.called
    · rw [htrace]
      exact hserving.destroyed
  · have hnew : ∀ {event : LifeEvent}, event ∈ l.trace ++ [.forked cpid] →
        event ≠ .forked cpid → event ∈ l.trace := by
      intro event hmem hne
      rcases List.mem_append.mp hmem with hbefore | hnow
      · exact hbefore
      · exact absurd (List.mem_singleton.mp hnow) hne
    constructor
    · rw [hregistry]
      exact hserving.registry
    · intro pid hmem
      rw [htrace] at hmem
      rw [hcopies]
      by_cases hpid : pid = cpid
      · subst hpid
        rw [Function.update_self]
        exact hserving.registry
      · rw [Function.update_of_ne hpid]
        exact hserving.forked pid (hnew hmem (by simpa using hpid))
    · intro pid hmem
      rw [htrace, List.mem_append, not_or] at hmem
      have hpid : pid ≠ cpid := fun hsame => hmem.2 (by simp [hsame])
      rw [hcopies, Function.update_of_ne hpid]
      exact hserving.idle pid hmem.1
    · rw [htrace, hcreator]
      apply hserving.creator.congr
      rw [createdPlaces_append]
      exact List.append_nil _
    · intro pid
      obtain ⟨m, hm⟩ := hserving.inits pid
      exact ⟨m, by rw [htrace, initPlaces_append, hm]; exact List.append_nil _⟩
    · intro pid a call hmem
      rw [htrace] at hmem ⊢
      obtain ⟨hfork, hcall⟩ :=
        hserving.called pid a call (hnew hmem (by simp))
      exact ⟨List.mem_append_left _ hfork, hcall⟩
    · intro a call hmem
      rw [htrace] at hmem
      exact hserving.destroyed a call (hnew hmem (by simp))

variable (hpacked : Packed base base.objects)

include hpacked

/-- The thread goes on to the next service. -/
theorem create (hserving : Serving base l) {pData : Option Addr}
    (hcreate : l.Created pData l') : Serving base l' := by
  have hnow := hserving.registry.packed hpacked
  have hlength := hserving.registry.length
  have hcreator := hserving.creator
  cases hcreate with
  | @finish i hpc hend =>
      rw [hpc] at hcreator
      have hlast := hnow.end (by rw [hlength]; exact hcreator.1) hend
      rw [hlength] at hlast
      exact { hserving with creator := hlast ▸ hcreator.2 }
  | @fetch i a hpc hslot =>
      rw [hpc] at hcreator
      obtain ⟨hlt, hplace⟩ := hnow.slot hslot
      rw [hlength] at hlt
      exact { hserving with creator := ⟨hlt, hplace, hcreator.2⟩ }
  | @call i a hpc =>
      rw [hpc] at hcreator
      obtain ⟨hlt, hplace, hplaces⟩ := hcreator
      apply hserving.append
      · refine ⟨hlt, hplace, ?_⟩
        rw [createdPlaces_append, hplaces, hplace, List.range_succ]
        rfl
      · simp
      · exact fun pid => ⟨0, rfl⟩
      · simp
      · simp
  | @store i a value pS hpc hget =>
      rw [hpc] at hcreator
      obtain ⟨hlt, -, hplaces⟩ := hcreator
      exact { hserving with
        registry := hserving.registry.store hget value
        creator := ⟨hlt, hplaces⟩ }

/-- A record a child's loop visits is one of the start. -/
theorem visited (hserving : Serving base l) {pid : TgPid}
    {records : List (Addr × TGService)}
    (hvisits : visits (l.copies pid) = some records) :
    records = [] ∨ .forked pid ∈ l.trace ∧
      records.map Prod.fst = List.range base.objects.length ∧
      ∀ record ∈ records, ∃ pS, base.objects[record.1]? = some pS ∧
        record.2 = { pS with pGlobalData := record.2.pGlobalData } := by
  by_cases hfork : .forked pid ∈ l.trace
  · have hsame := hserving.forked pid hfork
    right
    refine ⟨hfork, ?_, fun record hrecord => ?_⟩
    · rw [(hsame.packed hpacked).visits hvisits, hsame.length]
    · obtain ⟨i, -, hget, -⟩ := visits_mem hvisits hrecord
      exact hsame.object hget
  · rw [hserving.idle pid hfork] at hvisits
    exact Or.inl (Option.some.inj hvisits).symm

/-- A child calls a function of each service in its copy. -/
theorem inChild (hserving : Serving base l) {pid : TgPid}
    {call : TGService → ServiceCall}
    (hcall : ∀ (pS : TGService) data,
      call { pS with pGlobalData := data } = pS.initCall ∨
        call { pS with pGlobalData := data } = .release pS.doRelease data)
    (hinits : ∀ (other : TgPid) (records : List (Addr × TGService)),
      initPlaces other (records.map fun (a, pS) =>
        .inChild pid a (call pS)) = records.map Prod.fst ∨
      initPlaces other (records.map fun (a, pS) =>
        .inChild pid a (call pS)) = [])
    (hstep : l.inChild pid call = some l') : Serving base l' := by
  rw [LifeState.inChild] at hstep
  split at hstep
  · simp only [Option.bind_eq_bind, Option.bind_eq_some_iff,
      Option.pure_def, Option.some.injEq] at hstep
    obtain ⟨records, hvisits, rfl⟩ := hstep
    have hvisited := hserving.visited hpacked hvisits
    apply hserving.calls
    · simp
    · intro other
      rcases hvisited with rfl | ⟨-, hplaces, -⟩
      · exact ⟨0, rfl⟩
      · rcases hinits other records with hall | hnone
        · exact ⟨1, by rw [hall, hplaces]; simp⟩
        · exact ⟨0, hnone⟩
    · intro other a event hmem
      obtain ⟨⟨b, pS⟩, hrecord, heq⟩ := List.mem_map.mp hmem
      cases heq
      rcases hvisited with rfl | ⟨hfork, -, hobjects⟩
      · cases hrecord
      · obtain ⟨pOld, hget, hdata⟩ := hobjects _ hrecord
        refine ⟨hfork, pOld, hget, ?_⟩
        dsimp only at hdata
        rw [hdata]
        rcases hcall pOld pS.pGlobalData with hinit | hrelease
        · exact Or.inl hinit
        · exact Or.inr ⟨_, hrelease⟩
    · simp
    · simp
  · cases hstep

omit hpacked in
theorem shutDown (hserving : Serving base l) (hstep : l.shutDown = some l') :
    Serving base l' := by
  rw [LifeState.shutDown] at hstep
  simp only [Option.bind_eq_bind, Option.bind_eq_some_iff,
    Option.pure_def, Option.some.injEq] at hstep
  obtain ⟨records, hvisits, rfl⟩ := hstep
  apply hserving.calls
  · simp
  · intro pid
    refine ⟨0, ?_⟩
    rw [initPlaces, List.filterMap_map]
    exact List.filterMap_eq_nil_iff.mpr fun _ _ => rfl
  · simp
  · intro a event hmem
    obtain ⟨⟨b, pS⟩, hrecord, heq⟩ := List.mem_map.mp hmem
    cases heq
    obtain ⟨i, -, hget, -⟩ := visits_mem hvisits hrecord
    obtain ⟨pOld, hold, hdata⟩ := hserving.registry.object hget
    refine ⟨pOld, hold, ?_⟩
    dsimp only at hdata
    rw [hdata]
    rfl
  · simp

theorem step (hserving : Serving base l) {maxClients : Int} {act : LifeAct}
    (hstep : lifeStep maxClients l act = some l') : Serving base l' := by
  cases act with
  | main act =>
      obtain ⟨next, -, rfl⟩ := Option.map_eq_some_iff.mp hstep
      exact hserving.main next act
  | create pData =>
      exact hserving.create hpacked (LifeState.create_cases hstep)
  | init pid =>
      refine hserving.inChild hpacked (fun _ _ => Or.inl rfl) ?_ hstep
      intro other records
      have hplaces := initPlaces_inits pid other records
      split at hplaces
      · exact Or.inl hplaces
      · exact Or.inr hplaces
  | release pid =>
      refine hserving.inChild hpacked (fun _ _ => Or.inr rfl) ?_ hstep
      intro other records
      right
      rw [initPlaces, List.filterMap_map]
      exact List.filterMap_eq_nil_iff.mpr fun _ _ => rfl
  | shutDown => exact hserving.shutDown hstep

theorem of_reachable {maxClients : Int}
    (hreach : (lifeMachine maxClients base).Reachable l) :
    Serving base l := by
  refine Machine.Reachable.invariant ?_ ?_ hreach
  · constructor
    · exact SameButData.refl base
    · exact fun pid hmem => absurd hmem List.not_mem_nil
    · exact fun pid _ => rfl
    · exact ⟨Nat.zero_le _, rfl⟩
    · exact fun pid => ⟨0, rfl⟩
    · exact fun pid a call hmem => absurd hmem List.not_mem_nil
    · exact fun a call hmem => absurd hmem List.not_mem_nil
  · exact fun state act next hserving hstep => hserving.step hpacked hstep

end Serving

section Lookups

variable {base g : Registry}

theorem copyService_doRequest {pS copy : TGService}
    (hcopy : copyService pS = some copy) :
    copy.doRequest = pS.doRequest := by
  rw [copyService] at hcopy
  split at hcopy
  · exact congrArg _ (Option.some.inj hcopy).symm
  · obtain ⟨text, -, hcopy⟩ := Option.bind_eq_some_iff.mp hcopy
    obtain rfl := Option.some.inj hcopy
    rfl

/-- The same names with the same functions are found alike. -/
theorem find?_doRequest {first second : List TGService}
    (hsame : first.map (fun pS => (pS.name, pS.doRequest)) =
      second.map fun pS => (pS.name, pS.doRequest)) (name : List Byte) :
    (first.find? (·.name == some name)).map TGService.doRequest =
      (second.find? (·.name == some name)).map TGService.doRequest := by
  have hkey : ∀ services : List TGService,
      (services.find? (·.name == some name)).map TGService.doRequest =
        ((services.map fun pS => (pS.name, pS.doRequest)).find?
          (·.1 == some name)).map Prod.snd := by
    intro services
    rw [List.find?_map, Option.map_map]
    rfl
  rw [hkey, hkey, hsame]

theorem findServiceN_doRequest (hpacked : Packed g g.objects)
    (hroom : g.objects = [] ∨
      g.objects.length % defaultServiceSize ≠ 0)
    (hnamed : ∀ pS ∈ g.objects,
      ∃ block, pS.serviceName = some block ∧ 0 ∈ block)
    {name : List Byte} (hname : 0 ∉ name) :
    (findServiceN g name).map (Option.map TGService.doRequest) =
      some ((g.objects.find? (·.name == some name)).map
        TGService.doRequest) := by
  have hloaded : Loaded g g.objects := by
    refine ⟨?_, hnamed⟩
    have hcounts := hpacked.counts
    rw [defaultServiceSize] at hcounts hroom
    rcases hpacked.terminated (hroom.imp_right (by omega)) with
      hnone | ⟨spare, hslots⟩
    · exact Or.inl hnone
    · exact Or.inr ⟨_, spare, hslots, hpacked.map_objects⟩
  rw [findServiceN_loaded hloaded hname, Option.map_some]
  cases hfind : g.objects.find? (·.name == some name) with
  | none => rfl
  | some pS =>
      have hcopy :=
        copyService_named (hnamed pS (List.mem_of_find?_eq_some hfind))
      rw [Option.bind_some, hcopy, Option.map_some, Option.map_some,
        copyService_doRequest hcopy]

end Lookups

section Start

variable {host : Host} {argv : List (List Byte)} {s : Server}
variable (hclear : ∀ n, Cleared host.junk n) (hstrings : ∀ arg ∈ argv, 0 ∉ arg)
variable (hmain : main host argv = some (.startup s))

include hclear hstrings hmain

theorem main_packed :
    s.registry.objects.map TGService.bare = startServices host argv ∧
      Packed s.registry s.registry.objects :=
  (main_configured hclear hstrings hmain).packed hclear

theorem main_length : s.registry.objects.length =
    (startServices host argv).length := by
  rw [← (main_packed hclear hstrings hmain).1, List.length_map]

/-- What `do_create` returns does not change what a service is given. -/
theorem main_given {g : Registry} (hsame : SameButData s.registry g)
    {a : Addr} {pOld : TGService} (hold : s.registry.objects[a]? = some pOld)
    {fact : TGService → TGService → Prop}
    (hfact : ∀ data, fact pOld.bare { pOld with pGlobalData := data }) :
    Given host argv g a fact := by
  have hconf := main_configured hclear hstrings hmain
  have hlt := (List.getElem?_eq_some_iff.mp hold).1
  rw [← hsame.length] at hlt
  have hget := List.getElem?_eq_getElem hlt
  obtain ⟨pFirst, hfirst, hdata⟩ := hsame.object hget
  obtain rfl := Option.some.inj (hold.symm.trans hfirst)
  refine ⟨pOld.bare, _, ?_, hget, ?_,
    ((hsame.owned hconf.holding.owned).owner hget).holdsTexts⟩
  · rw [← (main_packed hclear hstrings hmain).1, List.getElem?_map, hold]
    rfl
  · rw [hdata]
    exact hfact _

/-- Nor does it change its name. -/
theorem main_named {g : Registry} (hsame : SameButData s.registry g) :
    (∀ pS ∈ g.objects, ∃ block, pS.serviceName = some block ∧ 0 ∈ block) ∧
      g.objects.map (fun pS => (pS.name, pS.doRequest)) =
        (startServices host argv).map fun pS => (pS.name, pS.doRequest) := by
  have hservices := (main_packed hclear hstrings hmain).1
  have hnames : g.objects.map TGService.serviceName =
      (startServices host argv).map TGService.serviceName := by
    have hrecords := congrArg (List.map TGService.serviceName) hsame.records
    rw [List.map_map, List.map_map] at hrecords
    rw [← hservices, List.map_map]
    exact hrecords
  constructor
  · intro pS hpS
    have hmem := List.mem_map_of_mem (f := TGService.serviceName) hpS
    rw [hnames] at hmem
    obtain ⟨pService, hpService, hname⟩ := List.mem_map.mp hmem
    rw [← hname]
    exact (records_registered hpService).name
  · have hrecords := congrArg
      (List.map fun pS => (pS.name, pS.doRequest)) hsame.records
    rw [List.map_map, List.map_map] at hrecords
    rw [← hservices, List.map_map]
    exact hrecords

/-- In every run of a process that started, whenever its children are forked
and however the thread of `createAllServices` gets on meanwhile, the services
are created once, in load order, and a child initialises them in this order
with the parameters they were given, and asks the earliest service of a
name. -/
theorem main_serves {maxClients : Int} {l : LifeState}
    (hreach : (lifeMachine maxClients s.registry).Reachable l) :
    Serves host argv l := by
  have hpacked := (main_packed hclear hstrings hmain).2
  have hlength := main_length hclear hstrings hmain
  have hserving := Serving.of_reachable hpacked hreach
  have hcreator := hserving.creator
  rw [hlength] at hcreator
  constructor
  · cases hpc : l.creator with
    | fetch i =>
        rw [hpc] at hcreator
        exact ⟨i, hcreator⟩
    | calling i a =>
        rw [hpc] at hcreator
        exact ⟨i, Nat.le_of_lt hcreator.1, hcreator.2.2⟩
    | storing i a data =>
        rw [hpc] at hcreator
        exact ⟨i + 1, hcreator.1, hcreator.2.2⟩
    | done =>
        rw [hpc] at hcreator
        exact ⟨_, Nat.le_refl _, hcreator⟩
  · intro hdone
    rw [hdone] at hcreator
    exact hcreator
  · intro i a hpc
    rw [hpc, ← hlength] at hcreator
    obtain ⟨hlt, rfl, -⟩ := hcreator
    exact main_given hclear hstrings hmain hserving.registry
      (List.getElem?_eq_getElem hlt) fun _ => rfl
  · rw [← hlength]
    exact hserving.inits
  · intro pid a fn parameters hmem
    obtain ⟨hfork, pOld, hold, hcall⟩ := hserving.called pid a _ hmem
    rcases hcall with hinit | ⟨data, hrelease⟩
    · cases hinit
      exact main_given hclear hstrings hmain (hserving.forked pid hfork) hold
        fun _ => ⟨rfl, rfl⟩
    · cases hrelease
  · intro pid hfork hroom name hname
    have hsame := hserving.forked pid hfork
    obtain ⟨hnamed, hkeys⟩ := main_named hclear hstrings hmain hsame
    have hlast : (l.copies pid).objects.length =
        (startServices host argv).length := hsame.length.trans hlength
    rw [findServiceN_doRequest (hsame.packed hpacked) ?_ hnamed hname,
      find?_doRequest hkeys]
    rwa [← List.length_eq_zero_iff, hlast, List.length_eq_zero_iff]

end Start

namespace StartedClients

def pipes : Pipes := ⟨(7, 8), (9, 10)⟩

/-- A client that is forked while the first service is being created. -/
def acts : List LifeAct :=
  [.create none, .main (.accept 6 (ascii "10.0.0.1") 4000 pipes),
    .main (.fork 101), .main (.check 101), .create (some 7), .init 101,
    .create none, .create none, .create (some 8), .create none]

theorem main_serves_acts :
    ∃ s l, main StartUp.host StartUp.argv = some (.startup s) ∧
      (lifeMachine 5 s.registry).run (lifeMachine 5 s.registry).start acts =
        some l ∧
      createdPlaces l.trace = [0, 1] ∧ initPlaces 101 l.trace = [0, 1] ∧
      Serves StartUp.host StartUp.argv l := by
  obtain ⟨s, hmain, l, hrun, hcreated, hinits⟩ :
      ∃ s, main StartUp.host StartUp.argv = some (.startup s) ∧ ∃ l,
        (lifeMachine 5 s.registry).run (lifeMachine 5 s.registry).start acts =
          some l ∧ createdPlaces l.trace = [0, 1] ∧
            initPlaces 101 l.trace = [0, 1] :=
    ⟨_, rfl, _, rfl, rfl, rfl⟩
  exact ⟨s, l, hmain, hrun, hcreated, hinits,
    main_serves (fun _ _ _ _ => rfl) (by decide) hmain ⟨acts, hrun⟩⟩

end StartedClients

end TgServer
