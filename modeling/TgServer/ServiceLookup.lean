/-
The three loops over `g_services` that look for a service, and which one they
take: a registry is built by loads and updates, in any order.
-/
import TgServer.ServiceParameters
import TgServer.ServiceWalks
import TgServer.Transition

namespace TgServer

open Bytes

/-- The text of a service's name. -/
def TGService.name (pS : TGService) : Option (List Byte) :=
  pS.serviceName.bind cString

/-- A registry of services in the order they were loaded, with a NULL slot
behind the last one. -/
structure Loaded (g : Registry) (services : List TGService) : Prop where
  slots : g.gServices = none ∧ services = [] ∨
    ∃ (addrs : List Addr) (spare : List (Option Addr)),
      g.gServices = some (addrs.map some ++ none :: spare) ∧
      addrs.map (g.objects[·]?) = services.map some
  named : ∀ pS ∈ services, ∃ block, pS.serviceName = some block ∧ 0 ∈ block

section Lookup

variable {g : Registry} {services : List TGService}

theorem Packed.loaded (hpacked : Packed g services)
    (hservices : ∀ pS ∈ services, Registered pS)
    (hroom : services = [] ∨ services.length < g.gServicesCounts) :
    Loaded g services where
  slots := by
    rcases hpacked.terminated hroom with hnone | ⟨spare, hslots⟩
    · exact Or.inl hnone
    · exact Or.inr ⟨_, spare, hslots, hpacked.map_objects⟩
  named := fun pS hpS => (hservices pS hpS).name

/-- The test of the lookup loop compares two texts. -/
theorem probeN_name {name : List Byte} (hname : 0 ∉ name) {a : Addr}
    {pS : TGService} (hget : g.objects[a]? = some pS)
    (hnamed : ∃ block, pS.serviceName = some block ∧ 0 ∈ block) :
    probeN g name a =
      some (if pS.name == some name then .found else .next) := by
  obtain ⟨block, hblock, hzero⟩ := hnamed
  obtain ⟨text, behind, rfl, htext⟩ := List.eq_append_cons_of_mem hzero
  rw [TGService.name, hblock, Option.bind_some, cString_terminated behind htext]
  simp [probeN, hget, hblock, strcmpEq_terminated behind htext hname]

/-- A search through addresses finds what a search through the records behind
them finds. -/
theorem find?_objects {addrs : List Addr} {take : Addr → Bool}
    {test : TGService → Bool}
    (hobjects : addrs.map (g.objects[·]?) = services.map some)
    (htake : ∀ a pS, pS ∈ services → g.objects[a]? = some pS →
      take a = test pS) :
    (addrs.find? take).bind (g.objects[·]?) = services.find? test := by
  induction addrs generalizing services with
  | nil =>
      obtain rfl := List.map_eq_nil_iff.mp hobjects.symm
      rfl
  | cons a addrs ih =>
      cases services with
      | nil => cases hobjects
      | cons pS services =>
          simp only [List.map_cons, List.cons.injEq] at hobjects
          have hfirst := htake a pS List.mem_cons_self hobjects.1
          rw [List.find?_cons, List.find?_cons, hfirst]
          cases test pS with
          | true => exact hobjects.1
          | false =>
              exact ih hobjects.2 fun b other hother =>
                htake b other (List.mem_cons_of_mem pS hother)

/-- Every address in the array is that of a service. -/
theorem object_of_addr {addrs : List Addr}
    (hobjects : addrs.map (g.objects[·]?) = services.map some) {a : Addr}
    (ha : a ∈ addrs) : ∃ pS ∈ services, g.objects[a]? = some pS := by
  have hmem : g.objects[a]? ∈ addrs.map (g.objects[·]?) :=
    List.mem_map_of_mem ha
  rw [hobjects, List.mem_map] at hmem
  obtain ⟨pS, hpS, heq⟩ := hmem
  exact ⟨pS, hpS, heq.symm⟩

/-- The copy has everything the service has, its name as a bare text. -/
theorem copyService_named {pS : TGService}
    (hnamed : ∃ block, pS.serviceName = some block ∧ 0 ∈ block) :
    copyService pS = some { pS with serviceName := pS.name } := by
  obtain ⟨block, hblock, hzero⟩ := hnamed
  obtain ⟨text, htext⟩ := cString_defined hzero
  rw [copyService, TGService.name, hblock]
  simp only [Option.bind_some, htext]
  rfl

/-- The lookup hands out a copy of the first service of the name. -/
theorem findServiceN_loaded (hloaded : Loaded g services) {name : List Byte}
    (hname : 0 ∉ name) :
    findServiceN g name =
      some ((services.find? (·.name == some name)).bind copyService) := by
  rcases hloaded.slots with ⟨hnone, rfl⟩ | ⟨addrs, spare, hslots, hobjects⟩
  · simp [findServiceN, copyFound, searchServices, hnone]
  let take : Addr → Bool := fun a =>
    (g.objects[a]?).any fun pS => pS.name == some name
  have hprobe : ∀ a ∈ addrs,
      probeN g name a = some (if take a then .found else .next) := by
    intro a ha
    obtain ⟨pS, hpS, hget⟩ := object_of_addr hobjects ha
    rw [probeN_name hname hget (hloaded.named pS hpS)]
    simp [take, hget]
  have hfind : (addrs.find? take).bind (g.objects[·]?) =
      services.find? (·.name == some name) :=
    find?_objects hobjects fun a pS _ hget => by simp [take, hget]
  have hsearch := SlotTable.search_terminated (probeN g name) take addrs spare
    hprobe
  rw [findServiceN, copyFound, searchServices, hslots]
  simp only [hsearch, Option.bind_eq_bind, Option.bind_some]
  cases htaken : addrs.find? take with
  | none =>
      rw [htaken, Option.bind_none] at hfind
      rw [← hfind]
      rfl
  | some a =>
      obtain ⟨pS, hpS, hget⟩ :=
        object_of_addr hobjects (List.mem_of_find?_eq_some htaken)
      have hcopy := copyService_named (hloaded.named pS hpS)
      rw [htaken, Option.bind_some, hget] at hfind
      rw [← hfind]
      simp [hget, hcopy]

end Lookup

/-- The calls that build a registry, set the parameters of its services and
start them; `pData` is what the calls of `do_create` return. -/
inductive RegistryCall where
  | loadService (call : LoadCall)
  | setServiceCreateParametersByN (name : Option (List Byte))
      (para : List Byte)
  | createAllServices (pData : Addr → Option Addr)

def registryMachine (junk : Nat → Nat → Option Addr) :
    Transition.Machine Registry RegistryCall where
  start := Registry.initial
  step g
    | .loadService call => loadService junk g call
    | .setServiceCreateParametersByN name para =>
        setServiceCreateParametersByN g name para
    | .createAllServices pData => (createAllServices pData g).map Prod.snd

/-- The array holds the services in the order they were registered, and a NULL
behind the last one. -/
def Registry.Terminated (g : Registry) : Prop :=
  g.gServices = none ∧ g.objects = [] ∨
    ∃ spare, g.gServices =
      some ((List.range g.objects.length).map some ++ none :: spare)

/-- What every call keeps, whatever fresh memory holds. -/
structure Built (g : Registry) : Prop where
  named : ∀ pS ∈ g.objects, ∃ block, pS.serviceName = some block ∧ 0 ∈ block
  number : g.sID = g.objects.length
  numbers : g.objects.map TGService.sID =
    (List.range g.objects.length).map Int.ofNat
  owned : ∃ lists : Addr → List (List Byte), Owned g lists ∧
    ∀ a, g.objects.length ≤ a → lists a = []

/-- The earliest service of a name. -/
structure FirstNamed (g : Registry) (name : List Byte) (a : Addr)
    (pS : TGService) : Prop where
  object : g.objects[a]? = some pS
  named : pS.name = some name
  first : ∀ b < a, ∀ pOther, g.objects[b]? = some pOther →
    pOther.name ≠ some name

/-- A parameter is appended at one service; the other services and the array
are as they were. -/
structure Appends (g g' : Registry) (a : Addr) (para : List Byte) : Prop where
  selected : ∃ pOld pNew texts, g.objects[a]? = some pOld ∧
    g'.objects[a]? = some pNew ∧
    pNew = { pOld with
      parameters := pNew.parameters, parCounts := pNew.parCounts } ∧
    parameterTexts g pOld = some texts ∧
    parameterTexts g' pNew = some (texts ++ [para])
  others : ∀ b, b ≠ a → g'.objects[b]? = g.objects[b]?
  texts : ∀ b pOther, b ≠ a → g.objects[b]? = some pOther →
    parameterTexts g' pOther = parameterTexts g pOther
  array : g'.gServices = g.gServices ∧ g'.gServicesCounts = g.gServicesCounts

/-- A copy of the service was handed out: it has its number, its functions and
the text of its name. -/
structure Selects (pS : TGService)
    (found : Option (Option TGService)) : Prop where
  copied : copyService pS = some { pS with serviceName := pS.name }
  handed : found = some (some { pS with serviceName := pS.name })

/-- The three loops take the same service. -/
structure LookupsAgree (g : Registry) : Prop where
  increasing : (g.objects.map TGService.sID).Pairwise (· < ·)
  byId : ∀ (a : Addr) pS, g.objects[a]? = some pS →
    Selects pS (findServiceI g pS.sID)
  noId : ∀ id, (∀ pS ∈ g.objects, pS.sID ≠ id) → findServiceI g id = some none
  byName : ∀ name a pS, FirstNamed g name a pS →
    Selects pS (findServiceN g name) ∧
    (name ≠ [] → ∀ para, ∃ g',
      setServiceCreateParametersByN g (some name) para = some g' ∧
      Appends g g' a para)
  noName : ∀ name, 0 ∉ name → (∀ pS ∈ g.objects, pS.name ≠ some name) →
    findServiceN g name = some none ∧
    ∀ para, setServiceCreateParametersByN g (some name) para = some g
  emptyName : ∀ para, setServiceCreateParametersByN g none para = some g ∧
    setServiceCreateParametersByN g (some []) para = some g

section Built

variable {junk : Nat → Nat → Option Addr} {g g' : Registry}

theorem built_initial : Built Registry.initial where
  named := by
    intro pS hpS
    cases hpS
  number := rfl
  numbers := rfl
  owned := by
    refine ⟨fun _ => [], Unset.owned ?_, fun _ _ => rfl⟩
    intro pSer hpSer
    cases hpSer

theorem Built.load (hbuilt : Built g) {call : LoadCall}
    (hload : loadService junk g call = some g') : Built g' := by
  cases hrecord : call.record g.sID with
  | none =>
      rw [loadService_skip junk g hrecord] at hload
      exact Option.some.inj hload ▸ hbuilt
  | some pService =>
      rw [loadService_add junk g hrecord] at hload
      obtain ⟨hobjects, hblocks, hnumber⟩ := addService_records hload
      dsimp only at hobjects hblocks hnumber
      obtain ⟨hsID, -⟩ := record_name hrecord
      obtain ⟨hnone, hzero⟩ := LoadCall.record_unset hrecord
      obtain ⟨lists, howned, hfree⟩ := hbuilt.owned
      have hlength : g'.objects.length = g.objects.length + 1 := by
        rw [hobjects, List.length_append, List.length_singleton]
      refine ⟨?_, ?_, ?_, lists, ?_, ?_⟩
      · intro pS hpS
        rw [hobjects] at hpS
        rcases List.mem_append.mp hpS with hold | hnew
        · exact hbuilt.named pS hold
        · obtain rfl := List.mem_singleton.mp hnew
          exact (call.record_registered hrecord).name
      · rw [hnumber, hlength, hbuilt.number, Int.natCast_succ]
      · rw [hlength, List.range_succ, List.map_append, ← hbuilt.numbers,
          hobjects, List.map_append, List.map_singleton, List.map_singleton,
          hsID, hbuilt.number]
        rfl
      · exact howned.add (hfree _ (Nat.le_refl _)) hnone hzero hobjects hblocks
      · intro a ha
        exact hfree a (by omega)

/-- What is the same whatever array and counter a record has is the same for
all records after an update. -/
theorem Updates.map {a : Addr} (hupdates : Updates g g' a) {β : Type}
    {f : TGService → β} (hsame : ∀ pSer parameters parCounts,
      f { pSer with parameters := parameters, parCounts := parCounts } =
        f pSer) : g'.objects.map f = g.objects.map f := by
  obtain ⟨pSer, parameters, parCounts, hget, hobjects⟩ := hupdates.selected
  obtain ⟨hlt, hself⟩ := List.getElem?_eq_some_iff.mp hget
  rw [hobjects, List.map_set, hsame, ← hself,
    ← List.getElem_map f (h := by rwa [List.length_map]),
    List.set_getElem_self]

theorem Built.push (hbuilt : Built g) {a : Addr} {para : List Byte}
    (hpush : setServiceCreateParameters g a para = some g') : Built g' := by
  have hupdates := setServiceCreateParameters_updates hpush
  obtain ⟨pSer, parameters, parCounts, hget, hobjects⟩ := hupdates.selected
  obtain ⟨lists, howned, hfree⟩ := hbuilt.owned
  obtain ⟨last, hlast, -, hlength, hnext⟩ := howned.push hget para
  obtain rfl := Option.some.inj (hpush.symm.trans hlast)
  refine ⟨?_, ?_, ?_, _, hnext, ?_⟩
  · intro pS hpS
    rw [hobjects] at hpS
    rcases List.mem_or_eq_of_mem_set hpS with hold | rfl
    · exact hbuilt.named pS hold
    · exact hbuilt.named pSer (List.mem_of_getElem? hget)
  · rw [hupdates.number, hbuilt.number, hlength]
  · rw [hlength, hupdates.map fun _ _ _ => rfl, hbuilt.numbers]
  · intro b hb
    have hne : b ≠ a := by
      rintro rfl
      rw [hlength] at hb
      exact Nat.not_lt_of_le hb (List.getElem?_eq_some_iff.mp hget).1
    rw [Function.update_of_ne hne]
    exact hfree b (hlength ▸ hb)

theorem Built.update (hbuilt : Built g) {name : Option (List Byte)}
    {para : List Byte}
    (hset : setServiceCreateParametersByN g name para = some g') :
    Built g' := by
  cases name with
  | none => exact Option.some.inj hset ▸ hbuilt
  | some name =>
      rw [setServiceCreateParametersByN_eq, Option.bind_eq_some_iff] at hset
      obtain ⟨found, -, hset⟩ := hset
      cases found with
      | none => exact Option.some.inj hset ▸ hbuilt
      | some a => exact hbuilt.push hset

/-- The record without what `do_create` returned for it. -/
def withoutData (pS : TGService) : TGService := { pS with pGlobalData := none }

/-- The registries differ in what `do_create` returned only. -/
structure SameButData (g g' : Registry) : Prop where
  rest : g' = { g with objects := g'.objects }
  records : g'.objects.map withoutData = g.objects.map withoutData

theorem SameButData.object (hsame : SameButData g g') {a : Addr}
    {pNew : TGService} (hget : g'.objects[a]? = some pNew) :
    ∃ pOld, g.objects[a]? = some pOld ∧
      pNew = { pOld with pGlobalData := pNew.pGlobalData } := by
  have hrecords := congrArg (·[a]?) hsame.records
  simp only [List.getElem?_map, hget, Option.map_some] at hrecords
  obtain ⟨pOld, hold, hdata⟩ := Option.map_eq_some_iff.mp hrecords.symm
  refine ⟨pOld, hold, ?_⟩
  cases pNew
  cases pOld
  simpa [withoutData, eq_comm] using hdata

/-- Each round stores the data of one record. -/
theorem traverse_create {pData : Addr → Option Addr} {addrs : List Addr}
    {calls : List ServiceCall}
    (htraverse : traverse (fun g a pS =>
      some ([.create pS.doCreate pS.parameters], { g with
        objects := g.objects.set a { pS with pGlobalData := pData a } }))
      addrs g = some (calls, g')) : SameButData g g' := by
  induction addrs generalizing g calls with
  | nil =>
      simp only [traverse, Option.some.injEq, Prod.mk.injEq] at htraverse
      exact htraverse.2 ▸ ⟨rfl, rfl⟩
  | cons a rest ih =>
      simp only [traverse, Option.bind_eq_bind, Option.bind_some,
        Option.bind_eq_some_iff, Option.pure_def, Option.some.injEq,
        Prod.mk.injEq, Prod.exists] at htraverse
      obtain ⟨pS, hget, more, last, hrest, -, rfl⟩ := htraverse
      obtain ⟨hfields, hrecords⟩ := ih hrest
      obtain ⟨hlt, hself⟩ := List.getElem?_eq_some_iff.mp hget
      refine ⟨hfields, hrecords.trans ?_⟩
      have hdata : withoutData { pS with pGlobalData := pData a } =
          withoutData g.objects[a] := by
        rw [hself]
        rfl
      rw [List.map_set, hdata,
        ← List.getElem_map withoutData (h := by rwa [List.length_map]),
        List.set_getElem_self]

theorem createAllServices_same {pData : Addr → Option Addr}
    {calls : List ServiceCall}
    (hcreate : createAllServices pData g = some (calls, g')) :
    SameButData g g' := by
  rw [createAllServices, forServices] at hcreate
  split at hcreate
  · simp only [Option.some.injEq, Prod.mk.injEq] at hcreate
    exact hcreate.2 ▸ ⟨rfl, rfl⟩
  · simp only [Option.bind_eq_bind, Option.bind_eq_some_iff] at hcreate
    obtain ⟨addrs, -, htraverse⟩ := hcreate
    exact traverse_create htraverse

theorem SameButData.length (hsame : SameButData g g') :
    g'.objects.length = g.objects.length := by
  have hlength := congrArg List.length hsame.records
  rwa [List.length_map, List.length_map] at hlength

theorem SameButData.owned (hsame : SameButData g g')
    {lists : Addr → List (List Byte)} (howned : Owned g lists) :
    Owned g' lists := by
  have hblocks : g'.blocks = g.blocks := by rw [hsame.rest]
  constructor
  · intro a pNew hget
    obtain ⟨pOld, hold, hdata⟩ := hsame.object hget
    obtain ⟨hcounts, hmissing, hblock⟩ := howned.owner hold
    have hparameters : pNew.parameters = pOld.parameters := by
      rw [hdata]
    have hnumber : pNew.parCounts = pOld.parCounts := by
      rw [hdata]
    rw [← hparameters] at hmissing hblock
    exact ⟨hnumber.trans hcounts, hmissing, hblocks ▸ hblock⟩
  · intro a b pNew pOther ppara hget hother hsome hshared
    obtain ⟨pOld, hold, hdata⟩ := hsame.object hget
    obtain ⟨pSecond, hsecond, hdata'⟩ := hsame.object hother
    have hparameters : pNew.parameters = pOld.parameters := by
      rw [hdata]
    have hparameters' : pOther.parameters = pSecond.parameters := by
      rw [hdata']
    exact howned.apart hold hsecond (hparameters.symm.trans hsome)
      (hparameters'.symm.trans hshared)

theorem Built.create (hbuilt : Built g) (hsame : SameButData g g') :
    Built g' := by
  obtain ⟨lists, howned, hfree⟩ := hbuilt.owned
  have hlength := hsame.length
  refine ⟨?_, ?_, ?_, lists, hsame.owned howned, ?_⟩
  · intro pS hpS
    obtain ⟨a, hget⟩ := List.getElem?_of_mem hpS
    obtain ⟨pOld, hold, hdata⟩ := hsame.object hget
    have hname : pS.serviceName = pOld.serviceName := by
      rw [hdata]
    rw [hname]
    exact hbuilt.named pOld (List.mem_of_getElem? hold)
  · rw [hsame.rest]
    exact hlength ▸ hbuilt.number
  · have hnumbers := congrArg (·.map TGService.sID) hsame.records
    rw [List.map_map, List.map_map] at hnumbers
    rw [hlength, ← hbuilt.numbers]
    exact hnumbers
  · rw [hlength]
    exact hfree

theorem built_of_reachable (hreach : (registryMachine junk).Reachable g) :
    Built g := by
  refine Transition.Machine.Reachable.invariant built_initial ?_ hreach
  intro state act next hbuilt hstep
  cases act with
  | loadService call => exact hbuilt.load hstep
  | setServiceCreateParametersByN name para => exact hbuilt.update hstep
  | createAllServices pData =>
      obtain ⟨⟨calls, last⟩, hcreate, rfl⟩ := Option.map_eq_some_iff.mp hstep
      exact hbuilt.create (createAllServices_same hcreate)

theorem Built.sID_eq (hbuilt : Built g) {a : Addr} {pS : TGService}
    (hget : g.objects[a]? = some pS) : pS.sID = Int.ofNat a := by
  have hlt := (List.getElem?_eq_some_iff.mp hget).1
  have hnumbers := congrArg (·[a]?) hbuilt.numbers
  simp only [List.getElem?_map, hget, Option.map_some,
    List.getElem?_range hlt, Option.some.injEq] at hnumbers
  exact hnumbers

end Built

section Search

variable {g : Registry} (hterm : g.Terminated)
variable {probe : Addr → Option SlotTable.Probe} {take : Addr → Bool}
variable (hprobe : ∀ a < g.objects.length,
  probe a = some (if take a then .found else .next))

include hterm hprobe

theorem searchServices_terminated :
    ∃ n, searchServices probe g =
      some (n, (List.range g.objects.length).find? take) := by
  rcases hterm with ⟨hnone, hnil⟩ | ⟨spare, hslots⟩
  · exact ⟨0, by simp [searchServices, hnone, hnil]⟩
  · have hsearch := SlotTable.search_terminated probe take
      (List.range g.objects.length) spare fun a ha =>
        hprobe a (List.mem_range.mp ha)
    simp only [searchServices, hslots]
    exact ⟨_, hsearch⟩

/-- A search takes the first service that passes its test. -/
theorem searchServices_first {a : Addr} (hlt : a < g.objects.length)
    (htake : take a = true) (hfirst : ∀ b < a, take b = false) :
    ∃ n, searchServices probe g = some (n, some a) := by
  obtain ⟨n, hsearch⟩ := searchServices_terminated hterm hprobe
  have hfind : (List.range g.objects.length).find? take = some a := by
    rw [List.find?_range_eq_some]
    exact ⟨htake, List.mem_range.mpr hlt, fun b hb => by rw [hfirst b hb]; rfl⟩
  exact ⟨n, by rw [hsearch, hfind]⟩

theorem searchServices_missing
    (hmissing : ∀ a < g.objects.length, take a = false) :
    ∃ n, searchServices probe g = some (n, none) := by
  obtain ⟨n, hsearch⟩ := searchServices_terminated hterm hprobe
  have hfind : (List.range g.objects.length).find? take = none := by
    rw [List.find?_range_eq_none]
    exact fun a ha => by rw [hmissing a ha]; rfl
  exact ⟨n, by rw [hsearch, hfind]⟩

end Search

section Agreement

variable {g : Registry} (hbuilt : Built g) (hterm : g.Terminated)

include hbuilt

/-- The test on numbers takes the service at that place. -/
theorem Built.probeI (id : Int) : ∀ a < g.objects.length,
    TgServer.probeI g id a =
      some (if decide (Int.ofNat a = id) then .found else .next) := by
  intro a ha
  have hget := List.getElem?_eq_getElem ha
  simp [TgServer.probeI, hget, hbuilt.sID_eq hget]

/-- The test on names takes the services of the name. -/
theorem Built.probeN {name : List Byte} (hname : 0 ∉ name) :
    ∀ a < g.objects.length, TgServer.probeN g name a =
      some (if (g.objects[a]?).any (·.name == some name) then .found
        else .next) := by
  intro a ha
  have hget := List.getElem?_eq_getElem ha
  rw [probeN_name hname hget (hbuilt.named _ (List.getElem_mem ha)), hget,
    Option.any_some]

theorem FirstNamed.nonzero {name : List Byte} {a : Addr} {pS : TGService}
    (hfirst : FirstNamed g name a pS) : 0 ∉ name := by
  obtain ⟨block, hblock, hzero⟩ :=
    hbuilt.named pS (List.mem_of_getElem? hfirst.object)
  obtain ⟨text, behind, rfl, htext⟩ := List.eq_append_cons_of_mem hzero
  have hnamed := hfirst.named
  rw [TGService.name, hblock, Option.bind_some, cString_terminated behind htext,
    Option.some.injEq] at hnamed
  exact hnamed ▸ htext

include hterm

theorem findServiceI_built {a : Addr} {pS : TGService}
    (hget : g.objects[a]? = some pS) :
    Selects pS (findServiceI g pS.sID) := by
  have hcopy :=
    copyService_named (hbuilt.named pS (List.mem_of_getElem? hget))
  have hid := hbuilt.sID_eq hget
  obtain ⟨n, hsearch⟩ := searchServices_first hterm (hbuilt.probeI pS.sID)
    (List.getElem?_eq_some_iff.mp hget).1 (by simp [hid])
    fun b hb => by
      rw [hid, decide_eq_false_iff_not]
      exact fun heq => Nat.ne_of_lt hb (Int.ofNat.inj heq)
  exact ⟨hcopy, by simp [findServiceI, copyFound, hsearch, hget, hcopy]⟩

theorem findServiceI_unknown {id : Int}
    (hunknown : ∀ pS ∈ g.objects, pS.sID ≠ id) :
    findServiceI g id = some none := by
  obtain ⟨n, hsearch⟩ := searchServices_missing hterm (hbuilt.probeI id)
    fun a ha => by
      have hne := hunknown _ (List.getElem_mem ha)
      rw [hbuilt.sID_eq (List.getElem?_eq_getElem ha)] at hne
      exact decide_eq_false hne
  simp [findServiceI, copyFound, hsearch]

/-- The loops over names stop at the earliest service of the name. -/
theorem searchN_first {name : List Byte} {a : Addr} {pS : TGService}
    (hfirst : FirstNamed g name a pS) :
    ∃ n, searchServices (probeN g name) g = some (n, some a) := by
  refine searchServices_first hterm (hbuilt.probeN (hfirst.nonzero hbuilt))
    (List.getElem?_eq_some_iff.mp hfirst.object).1 ?_ ?_
  · rw [hfirst.object, Option.any_some, hfirst.named, beq_self_eq_true]
  · intro b hb
    cases hget : g.objects[b]? with
    | none => rfl
    | some pOther =>
        rw [Option.any_some]
        exact beq_eq_false_iff_ne.mpr (hfirst.first b hb pOther hget)

theorem searchN_unknown {name : List Byte} (hname : 0 ∉ name)
    (hunknown : ∀ pS ∈ g.objects, pS.name ≠ some name) :
    ∃ n, searchServices (probeN g name) g = some (n, none) := by
  refine searchServices_missing hterm (hbuilt.probeN hname) fun a ha => ?_
  rw [List.getElem?_eq_getElem ha, Option.any_some]
  exact beq_eq_false_iff_ne.mpr (hunknown _ (List.getElem_mem ha))

omit hterm in
/-- An update of a service appends its parameter there. -/
theorem Built.appends {a : Addr} {pS : TGService}
    (hget : g.objects[a]? = some pS) (para : List Byte) :
    ∃ g', setServiceCreateParameters g a para = some g' ∧
      Appends g g' a para := by
  obtain ⟨lists, howned, -⟩ := hbuilt.owned
  obtain ⟨g', hpush, -, -, hnext⟩ := howned.push hget para
  have hupdates := setServiceCreateParameters_updates hpush
  obtain ⟨pOld, parameters, parCounts, hold, hobjects⟩ := hupdates.selected
  obtain rfl := Option.some.inj (hget.symm.trans hold)
  have hlt := (List.getElem?_eq_some_iff.mp hget).1
  have hself : g'.objects[a]? = some
      { pS with parameters := parameters, parCounts := parCounts } := by
    rw [hobjects, List.getElem?_set_self hlt]
  have hothers : ∀ b, b ≠ a → g'.objects[b]? = g.objects[b]? := fun b hb => by
    rw [hobjects, List.getElem?_set_ne hb.symm]
  refine ⟨g', hpush, ?_, hothers, ?_, hupdates.array, hupdates.counts⟩
  · refine ⟨pS, _, lists a, hget, hself, rfl,
      (howned.owner hget).parameterTexts, ?_⟩
    rw [(hnext.owner hself).parameterTexts, Function.update_self]
  · intro b pOther hb hother
    rw [(howned.owner hother).parameterTexts,
      (hnext.owner ((hothers b hb).trans hother)).parameterTexts,
      Function.update_of_ne hb]

end Agreement

section Zeroed

variable {g g' : Registry}

theorem Updates.packed {a : Addr} (hupdates : Updates g g' a)
    (hpacked : Packed g g.objects) : Packed g' g'.objects := by
  obtain ⟨pSer, parameters, parCounts, -, hobjects⟩ := hupdates.selected
  have hlength : g'.objects.length = g.objects.length := by
    rw [hobjects, List.length_set]
  have hnil : g'.objects = [] ↔ g.objects = [] := by
    rw [← List.length_eq_zero_iff, hlength, List.length_eq_zero_iff]
  constructor
  · rfl
  · rw [hupdates.number, hpacked.number, hlength]
  · rw [hupdates.array, hpacked.array, hnil]
  · rw [hupdates.counts, hpacked.counts, hlength]
  · rw [Registry.slots, hupdates.array, hupdates.counts, hlength]
    exact hpacked.slots

theorem SameButData.packed (hsame : SameButData g g')
    (hpacked : Packed g g.objects) : Packed g' g'.objects := by
  have hlength := hsame.length
  have hnil : g'.objects = [] ↔ g.objects = [] := by
    rw [← List.length_eq_zero_iff, hlength, List.length_eq_zero_iff]
  constructor
  · rfl
  · rw [hlength, ← hpacked.number, hsame.rest]
  · rw [hnil, ← hpacked.array, hsame.rest]
  · rw [hlength, ← hpacked.counts, hsame.rest]
  · rw [hlength, hsame.rest]
    exact hpacked.slots

/-- Where fresh memory is zero, the array has a NULL behind the services if it
has room for one. -/
theorem terminated_of_room
    (hreach : (registryMachine fun _ _ => none).Reachable g)
    (hroom : g.objects = [] ∨ g.objects.length < g.gServicesCounts) :
    g.Terminated := by
  have hpacked : Packed g g.objects := by
    refine @Transition.Machine.Reachable.invariant _ _ _
      (fun g => Packed g g.objects) packed_initial ?_ g hreach
    intro state act next hpacked hstep
    cases act with
    | loadService call =>
        have hstep : loadService (fun _ _ => none) state call = some next :=
          hstep
        rcases loadService_packed (fun _ _ => none) hpacked call with
          ⟨-, hload⟩ | ⟨pService, loaded, -, hload, hnext⟩
        · obtain rfl := Option.some.inj (hload.symm.trans hstep)
          exact hpacked
        · obtain rfl := Option.some.inj (hload.symm.trans hstep)
          have hpacked : Packed loaded (state.objects ++ [pService]) := by
            rcases hnext with ⟨-, hnext⟩ | ⟨hmod, hgrown⟩
            · exact hnext
            · exact hgrown.packed hmod fun _ _ _ => rfl
          exact hpacked.objects.symm ▸ hpacked
    | setServiceCreateParametersByN name para =>
        have hstep : setServiceCreateParametersByN state name para =
          some next := hstep
        cases name with
        | none => exact Option.some.inj hstep ▸ hpacked
        | some name =>
            rw [setServiceCreateParametersByN_eq, Option.bind_eq_some_iff]
              at hstep
            obtain ⟨found, -, hset⟩ := hstep
            cases found with
            | none => exact Option.some.inj hset ▸ hpacked
            | some a =>
                exact (setServiceCreateParameters_updates hset).packed hpacked
    | createAllServices pData =>
        obtain ⟨⟨calls, last⟩, hcreate, rfl⟩ := Option.map_eq_some_iff.mp hstep
        exact (createAllServices_same hcreate).packed hpacked
  exact hpacked.terminated hroom

end Zeroed

/-- Whatever calls have built a registry, its numbers increase in the order of
the loads, a number and a name are looked up at the one service and the
earliest service that have them, and a parameter goes to the service the lookup
of the name would take, leaving everything else as it is. -/
theorem services_lookupsAgree (junk : Nat → Nat → Option Addr) {g : Registry}
    (hreach : (registryMachine junk).Reachable g) (hterm : g.Terminated) :
    LookupsAgree g := by
  have hbuilt := built_of_reachable hreach
  refine ⟨?_, fun a pS hget => findServiceI_built hbuilt hterm hget,
    fun id hunknown => findServiceI_unknown hbuilt hterm hunknown, ?_, ?_,
    fun para => ⟨rfl, rfl⟩⟩
  · rw [hbuilt.numbers, List.pairwise_map]
    exact List.pairwise_lt_range.imp fun hlt => Int.ofNat_lt.mpr hlt
  · intro name a pS hfirst
    obtain ⟨n, hsearch⟩ := searchN_first hbuilt hterm hfirst
    have hmem := List.mem_of_getElem? hfirst.object
    have hcopy := copyService_named (hbuilt.named pS hmem)
    refine ⟨⟨hcopy, ?_⟩, fun hsome para => ?_⟩
    · simp [findServiceN, copyFound, hsearch, hfirst.object, hcopy]
    · rw [setServiceCreateParametersByN_eq, lookupN, if_neg hsome, hsearch]
      exact hbuilt.appends hfirst.object para
  · intro name hname hunknown
    obtain ⟨n, hsearch⟩ := searchN_unknown hbuilt hterm hname hunknown
    refine ⟨by simp [findServiceN, copyFound, hsearch], fun para => ?_⟩
    rw [setServiceCreateParametersByN_eq, lookupN]
    split
    · rfl
    · rw [hsearch]
      rfl

namespace ServiceLookup

/-- A library that lacks a function. -/
def broken : LoadCall :=
  ⟨ascii "plugins/echo", some ⟨some 1, none, some 3, some 4, some 5⟩, 0⟩

/-- Two services of one name; between their loads the first is given a parameter
and started, and a library is not loaded. -/
def calls : List RegistryCall :=
  [.loadService ServiceArray.echo,
    .setServiceCreateParametersByN (some (ascii "echo")) (ascii "p"),
    .loadService broken, .createAllServices some,
    .loadService ServiceArray.echo]

theorem services_lookupsAgree_echo :
    ∃ g, (registryMachine fun _ _ => none).Reachable g ∧
      g.objects.length = 2 ∧ LookupsAgree g := by
  obtain ⟨g, hrun, hlength, hcounts⟩ :
      ∃ g, (registryMachine fun _ _ => none).run Registry.initial calls =
        some g ∧ g.objects.length = 2 ∧ g.gServicesCounts = 10 :=
    ⟨_, rfl, rfl, rfl⟩
  have hreach : (registryMachine fun _ _ => none).Reachable g := ⟨calls, hrun⟩
  have hroom : g.objects.length < g.gServicesCounts := by omega
  exact ⟨g, hreach, hlength, services_lookupsAgree _ hreach
    (terminated_of_room hreach (Or.inr hroom))⟩

end ServiceLookup

end TgServer
