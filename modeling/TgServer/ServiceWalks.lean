/-
How far the loops over `g_services` read when fresh arrays are zero.  They
stop at a NULL slot only, and the array has one exactly when the number of
services is not a positive multiple of the growth step.
-/
import TgServer.ServiceArray

namespace TgServer

open Bytes

/-- A record as `loadService` registers it. -/
structure Registered (pService : TGService) : Prop where
  name : ∃ block, pService.serviceName = some block ∧ 0 ∈ block
  parameters : pService.parameters = none

theorem libName_terminated (call : LoadCall) (sID : Int) :
    0 ∈ libName call sID := by
  unfold libName getLibName
  simp only
  split <;> simp

theorem LoadCall.record_registered {call : LoadCall} {sID : Int}
    {pService : TGService} (hrecord : call.record sID = some pService) :
    Registered pService := by
  unfold LoadCall.record at hrecord
  split at hrecord
  · cases hrecord
  · simp only [Option.pure_def, Option.bind_eq_bind, Option.bind_eq_some_iff,
      Option.some.injEq] at hrecord
    obtain ⟨_, _, _, _, _, _, _, _, _, _, _, _, rfl⟩ := hrecord
    exact ⟨⟨_, rfl, libName_terminated call sID⟩, rfl⟩

theorem records_registered {calls : List LoadCall} {sID : Int}
    {pService : TGService} (hmem : pService ∈ records calls sID) :
    Registered pService := by
  induction calls generalizing sID with
  | nil => cases hmem
  | cons call calls ih =>
      rw [records] at hmem
      cases hrecord : call.record sID with
      | none => exact ih (by simpa [hrecord] using hmem)
      | some first =>
          simp only [hrecord, List.mem_cons] at hmem
          rcases hmem with rfl | hmem
          · exact call.record_registered hrecord
          · exact ih hmem

section Traverse

variable {body : Registry → Addr → TGService →
  Option (List ServiceCall × Registry)}
variable {call : TGService → ServiceCall}
variable {update : Addr → TGService → TGService}

/-- One round makes the call for its record and rewrites no other. -/
def RoundOf (body : Registry → Addr → TGService →
      Option (List ServiceCall × Registry))
    (call : TGService → ServiceCall)
    (update : Addr → TGService → TGService) : Prop :=
  ∀ g a pS, g.objects[a]? = some pS → Registered pS →
    body g a pS =
      some ([call pS], { g with objects := g.objects.set a (update a pS) })

/-- The rounds go through the records one after the other. -/
theorem traverse_records (hround : RoundOf body call update)
    (front rest : List TGService) (g : Registry)
    (hobjects : g.objects = front ++ rest)
    (hrest : ∀ pS ∈ rest, Registered pS) :
    traverse body (List.range' front.length rest.length) g =
      some (rest.map call,
        { g with objects := front ++
          (rest.zipIdx front.length).map fun (pS, a) => update a pS }) := by
  induction rest generalizing front g with
  | nil =>
      simp only [List.length_nil, List.range'_zero, traverse, List.zipIdx_nil,
        List.map_nil, ← hobjects]
  | cons pS rest ih =>
      have hget : g.objects[front.length]? = some pS := by
        rw [hobjects, List.getElem?_append_right (Nat.le_refl _), Nat.sub_self,
          List.getElem?_cons_zero]
      have hset : g.objects.set front.length (update front.length pS) =
          front ++ [update front.length pS] ++ rest := by
        rw [hobjects, List.set_append_right _ _ (Nat.le_refl _), Nat.sub_self,
          List.set_cons_zero, List.append_assoc, List.singleton_append]
      have htail := ih (front ++ [update front.length pS])
        { g with objects := g.objects.set front.length (update front.length pS) }
        hset (fun other hother => hrest other (List.mem_cons_of_mem _ hother))
      rw [List.length_append, List.length_singleton] at htail
      rw [List.length_cons, List.range'_succ, traverse, hget,
        Option.bind_eq_bind, Option.bind_some,
        hround g front.length pS hget (hrest pS List.mem_cons_self)]
      simp only [Option.bind_eq_bind, Option.bind_some, htail,
        Option.pure_def, List.zipIdx_cons, List.map_cons, List.append_assoc,
        List.singleton_append]

/-- A loop that meets a NULL slot visits each record once, in order. -/
theorem forServices_records (hround : RoundOf body call update)
    {g : Registry} {services : List TGService} (hpacked : Packed g services)
    (hservices : ∀ pS ∈ services, Registered pS)
    (hroom : services = [] ∨ services.length < g.gServicesCounts) :
    forServices body g = some (services.map call,
      { g with objects := services.zipIdx.map fun (pS, a) => update a pS }) := by
  rw [forServices]
  cases hslots : g.gServices with
  | none =>
      have hnil := hpacked.array.mp hslots
      subst hnil
      have hsame : { g with objects := ([] : List TGService) } = g := by
        rw [← hpacked.objects]
      simp only [hslots] at hsame
      simp only [List.zipIdx_nil, List.map_nil, hsame]
  | some slots =>
      have hsome : services ≠ [] := by
        intro hnil
        rw [hpacked.array.mpr hnil] at hslots
        cases hslots
      have hlt := hroom.resolve_left hsome
      have hlayout := hpacked.slots
      obtain ⟨spare, hspare⟩ := Nat.exists_eq_add_of_lt hlt
      have hrest : g.gServicesCounts - services.length = spare + 1 := by omega
      rw [Registry.slots, hslots, Option.getD_some, hrest,
        List.replicate_succ] at hlayout
      have hwalk : SlotTable.walk slots =
          some (List.range' 0 services.length) := by
        rw [hlayout, SlotTable.walk_terminated, List.range_eq_range']
      have hrun :=
        traverse_records hround [] services g hpacked.objects hservices
      rw [hslots] at hrun
      simp only [hwalk, Option.bind_eq_bind, Option.bind_some]
      exact hrun

/-- The loops that leave the records alone. -/
theorem forServices_unchanged
    (hround : ∀ g a pS, body g a pS = some ([call pS], g))
    {g : Registry} {services : List TGService} (hpacked : Packed g services)
    (hservices : ∀ pS ∈ services, Registered pS)
    (hroom : services = [] ∨ services.length < g.gServicesCounts) :
    forServices body g = some (services.map call, g) := by
  have hround' : RoundOf body call (fun _ pS => pS) := by
    intro g a pS hget _
    obtain ⟨hlt, hpS⟩ := List.getElem?_eq_some_iff.mp hget
    have hset : g.objects.set a pS = g.objects := by
      rw [← hpS, List.set_getElem_self]
    rw [hround, hset]
  rw [forServices_records hround' hpacked hservices hroom]
  have hobjects : (services.zipIdx.map fun (pS, _) => pS) = g.objects := by
    rw [hpacked.objects]
    exact List.zipIdx_map_fst 0 services
  rw [hobjects]

/-- A loop over a full array reads behind its end. -/
theorem forServices_full {g : Registry} {services : List TGService}
    (hpacked : Packed g services) (hsome : services ≠ [])
    (hfull : services.length = g.gServicesCounts) :
    forServices body g = none := by
  have harray : g.gServices ≠ none := fun hnone =>
    hsome (hpacked.array.mp hnone)
  obtain ⟨slots, hslots⟩ := Option.ne_none_iff_exists'.mp harray
  have hlayout := hpacked.slots
  rw [Registry.slots, hslots, Option.getD_some, hfull, Nat.sub_self,
    List.replicate_zero, List.append_nil] at hlayout
  simp [forServices, hslots, hlayout, SlotTable.walk_full]

end Traverse

/-- A search is defined and reads `n` slots: none outside the array, and none
behind the first one that holds no service. -/
def SearchWithin (g : Registry) (services : List TGService)
    (probe : Addr → Option SlotTable.Probe) : Prop :=
  ∃ n found, searchServices probe g = some (n, found) ∧
    n ≤ g.gServicesCounts ∧ n ≤ services.length + 1

/-- The eight operations stay inside the array; those on the whole registry
make one call for each service, in load order. -/
structure WalksWithin (g : Registry) (services : List TGService) : Prop where
  searchI : ∀ id, SearchWithin g services (probeI g id)
  searchN : ∀ name, 0 ∉ name → SearchWithin g services (probeN g name)
  findI : ∀ id, findServiceI g id ≠ none
  findN : ∀ name, 0 ∉ name → findServiceN g name ≠ none
  setByN : ∀ name para, (∀ text ∈ name, 0 ∉ text) →
    setServiceCreateParametersByN g name para ≠ none
  create : ∀ pData, createAllServices pData g = some
    (services.map fun pS => .create pS.doCreate pS.parameters,
      { g with
        objects := services.zipIdx.map fun (pS, a) =>
          { pS with pGlobalData := pData a } })
  init : initAllServices g = some
    (services.map fun pS => .init pS.doInit pS.parameters, g)
  release : releaseAllServices g = some
    (services.map fun pS => .release pS.doRelease pS.pGlobalData, g)
  destroy : destroyAllServices g = some
    (services.map fun pS => .destroy pS.doDestroy pS.parameters, g)
  unLoad : unLoadService g = some
    (services.map fun pS => .free (pS.serviceName.getD []),
      { g with
        gServices := none
        gServicesCounts := 0
        objects := services.map clearService })

section Within

variable {g : Registry} {services : List TGService}

/-- Every address in the array is that of a registered record. -/
theorem Packed.object (hpacked : Packed g services)
    (hservices : ∀ pS ∈ services, Registered pS) {a : Addr}
    (ha : a ∈ List.range services.length) :
    ∃ pS, g.objects[a]? = some pS ∧ Registered pS := by
  have hlt := List.mem_range.mp ha
  rw [hpacked.objects, List.getElem?_eq_getElem hlt]
  exact ⟨_, rfl, hservices _ (List.getElem_mem hlt)⟩

/-- A search whose test is defined on all records stays inside the array. -/
theorem searchWithin_of_probe (hpacked : Packed g services)
    (hroom : services = [] ∨ services.length < g.gServicesCounts)
    {probe : Addr → Option SlotTable.Probe}
    (hprobe : ∀ a ∈ List.range services.length,
      probe a = some .found ∨ probe a = some .next) :
    SearchWithin g services probe ∧
      ∀ {n a}, searchServices probe g = some (n, some a) →
        a ∈ List.range services.length := by
  rw [SearchWithin, searchServices]
  rcases hpacked.terminated hroom with ⟨hnone, -⟩ | ⟨spare, hslots⟩
  · rw [hnone]
    refine ⟨⟨0, none, rfl, Nat.zero_le _, Nat.zero_le _⟩, ?_⟩
    intro n a hfound
    cases hfound
  · let take : Addr → Bool := fun a => probe a == some .found
    have hsearch := SlotTable.search_terminated probe take
      (List.range services.length) spare (by
        intro a ha
        rcases hprobe a ha with hfound | hnext
        · simp [take, hfound]
        · simp [take, hnext])
    simp only [hslots, hsearch]
    have hle : ((List.range services.length).findIdx? take).getD
        (List.range services.length).length ≤ services.length := by
      cases hidx : (List.range services.length).findIdx? take with
      | none => simp
      | some i =>
          have hi := (List.findIdx?_eq_some_iff_getElem.mp hidx).1
          rw [List.length_range] at hi
          exact Nat.le_of_lt hi
    have hlength : services.length + 1 ≤ g.gServicesCounts := by
      rw [← hpacked.length_slots, Registry.slots, hslots, Option.getD_some,
        List.length_append, List.length_map, List.length_range,
        List.length_cons]
      omega
    constructor
    · exact ⟨_, _, rfl, by omega, by omega⟩
    · intro n a hfound
      simp only [Option.some.injEq, Prod.mk.injEq] at hfound
      exact List.mem_of_find?_eq_some hfound.2

theorem probeI_next (hpacked : Packed g services)
    (hservices : ∀ pS ∈ services, Registered pS) (id : Int) :
    ∀ a ∈ List.range services.length,
      probeI g id a = some .found ∨ probeI g id a = some .next := by
  intro a ha
  obtain ⟨pS, hget, -⟩ := hpacked.object hservices ha
  by_cases hid : pS.sID = id
  · simp [probeI, hget, hid]
  · simp [probeI, hget, hid]

theorem probeN_next (hpacked : Packed g services)
    (hservices : ∀ pS ∈ services, Registered pS) {name : List Byte}
    (hname : 0 ∉ name) :
    ∀ a ∈ List.range services.length,
      probeN g name a = some .found ∨ probeN g name a = some .next := by
  intro a ha
  obtain ⟨pS, hget, hregistered⟩ := hpacked.object hservices ha
  obtain ⟨block, hblock, hzero⟩ := hregistered.name
  obtain ⟨equal, hequal⟩ := strcmpEq_defined hzero hname
  cases equal with
  | true => simp [probeN, hget, hblock, hequal]
  | false => simp [probeN, hget, hblock, hequal]

/-- What a search takes can be copied. -/
theorem copyFound_defined (hpacked : Packed g services)
    (hservices : ∀ pS ∈ services, Registered pS)
    (hroom : services = [] ∨ services.length < g.gServicesCounts)
    {probe : Addr → Option SlotTable.Probe}
    (hprobe : ∀ a ∈ List.range services.length,
      probe a = some .found ∨ probe a = some .next) :
    copyFound g probe ≠ none := by
  obtain ⟨⟨n, found, hsearch, -, -⟩, hmem⟩ :=
    searchWithin_of_probe hpacked hroom hprobe
  rw [copyFound, hsearch]
  cases found with
  | none => simp
  | some a =>
      obtain ⟨pS, hget, hregistered⟩ := hpacked.object hservices (hmem hsearch)
      obtain ⟨block, hblock, hzero⟩ := hregistered.name
      obtain ⟨text, htext⟩ := cString_defined hzero
      simp [hget, copyService, hblock, htext]

/-- The first parameter of a registered service has room. -/
theorem setServiceCreateParameters_registered {a : Addr} {pS : TGService}
    (hget : g.objects[a]? = some pS) (hregistered : Registered pS)
    (para : List Byte) : setServiceCreateParameters g a para ≠ none := by
  simp [setServiceCreateParameters, hget, parameterRoom, hregistered.parameters,
    serviceDefaultParaCounts]

/-- With a NULL slot behind the services, or no array at all, everything
stays inside. -/
theorem walksWithin_of_room (hpacked : Packed g services)
    (hservices : ∀ pS ∈ services, Registered pS)
    (hroom : services = [] ∨ services.length < g.gServicesCounts) :
    WalksWithin g services where
  searchI id := (searchWithin_of_probe hpacked hroom
    (probeI_next hpacked hservices id)).1
  searchN name hname := (searchWithin_of_probe hpacked hroom
    (probeN_next hpacked hservices hname)).1
  findI id := copyFound_defined hpacked hservices hroom
    (probeI_next hpacked hservices id)
  findN name hname := copyFound_defined hpacked hservices hroom
    (probeN_next hpacked hservices hname)
  setByN := by
    intro name para hname
    rcases name with _ | _ | ⟨c, cs⟩
    · simp [setServiceCreateParametersByN]
    · simp [setServiceCreateParametersByN]
    · obtain ⟨⟨n, found, hsearch, -, -⟩, hmem⟩ :=
        searchWithin_of_probe hpacked hroom
          (probeN_next hpacked hservices (hname (c :: cs) rfl))
      rw [setServiceCreateParametersByN, hsearch]
      cases found with
      | none => simp
      | some a =>
          obtain ⟨pS, hget, hregistered⟩ :=
            hpacked.object hservices (hmem hsearch)
          exact setServiceCreateParameters_registered hget hregistered para
  create pData := by
    have hround : RoundOf (fun g a pS => some
          ([.create pS.doCreate pS.parameters], { g with
            objects := g.objects.set a { pS with pGlobalData := pData a } }))
        (fun pS => .create pS.doCreate pS.parameters)
        (fun a pS => { pS with pGlobalData := pData a }) :=
      fun g a pS _ _ => rfl
    exact forServices_records hround hpacked hservices hroom
  init := forServices_unchanged (fun _ _ _ => rfl) hpacked hservices hroom
  release := forServices_unchanged (fun _ _ _ => rfl) hpacked hservices hroom
  destroy := forServices_unchanged (fun _ _ _ => rfl) hpacked hservices hroom
  unLoad := by
    have hround : RoundOf (fun g a pSer => do
          return (← freedStrings g pSer,
            { g with objects := g.objects.set a (clearService pSer) }))
        (fun pS => .free (pS.serviceName.getD []))
        (fun _ pS => clearService pS) := by
      intro g a pS _ hregistered
      obtain ⟨block, hblock, -⟩ := hregistered.name
      simp [freedStrings, hblock, hregistered.parameters]
    have hrun := forServices_records hround hpacked hservices hroom
    have hcleared : (services.zipIdx.map fun (pS, _) => clearService pS) =
        services.map clearService := by
      rw [← List.zipIdx_map_fst 0 services, List.map_map]
      rw [List.zipIdx_map_fst 0 services]
      rfl
    rw [hcleared] at hrun
    rw [unLoadService]
    cases hslots : g.gServices with
    | none =>
        have hnil := hpacked.array.mp hslots
        subst hnil
        have hcounts : g.gServicesCounts = 0 := hpacked.counts
        have hobjects := hpacked.objects
        cases g
        cases hslots
        cases hcounts
        cases hobjects
        rfl
    | some slots =>
        simp only [hrun]
        rfl

end Within

/-- Whatever was loaded, the eight operations keep to the array, terminate and
visit the services in load order if and only if the number of services is not
a positive multiple of the growth step. -/
theorem services_walksWithin_iff (calls : List LoadCall) :
    ∃ g, loadServices (fun _ _ => none) calls Registry.initial = some g ∧
      (WalksWithin g (records calls 0) ↔
        ¬ (0 < (records calls 0).length ∧
          (records calls 0).length % defaultServiceSize = 0)) := by
  obtain ⟨g, hrun, hpacked⟩ := loadServices_packed calls packed_initial
  simp only [List.nil_append, List.length_nil, Int.natCast_zero] at hpacked
  refine ⟨g, hrun, ?_⟩
  have hservices : ∀ pS ∈ records calls 0, Registered pS :=
    fun pS hmem => records_registered hmem
  have hcounts := hpacked.counts
  have hle := hpacked.le_counts
  rw [defaultServiceSize] at hcounts ⊢
  constructor
  · rintro hwalks ⟨hpos, hmod⟩
    -- the loop of initAllServices meets no NULL slot
    have hfull : initAllServices g = none := by
      apply forServices_full hpacked (List.ne_nil_of_length_pos hpos)
      omega
    rw [hwalks.init] at hfull
    cases hfull
  · intro hnot
    apply walksWithin_of_room hpacked hservices
    rcases Nat.eq_zero_or_pos (records calls 0).length with hzero | hpos
    · exact Or.inl (List.length_eq_zero_iff.mp hzero)
    · refine Or.inr ?_
      have hmod := fun hmod => hnot ⟨hpos, hmod⟩
      omega

namespace ServiceWalks

/-- Ten plugins of one library. -/
def ten : List LoadCall :=
  List.replicate 10
    ⟨ascii "plugins/echo", some ⟨some 1, some 2, some 3, some 4, some 5⟩, 0⟩

/-- With ten services loaded a search for an unknown number and every loop
over the registry leave the array. -/
theorem services_ten_outside :
    ∃ g, loadServices (fun _ _ => none) ten Registry.initial = some g ∧
      (records ten 0).length = 10 ∧ g.slots.length = 10 ∧
      findServiceI g 77 = none ∧ initAllServices g = none ∧
      ¬ WalksWithin g (records ten 0) := by
  refine ⟨(loadServices (fun _ _ => none) ten Registry.initial).getD
    Registry.initial, by decide, by decide, by decide, by decide, by decide, ?_⟩
  intro hwalks
  have hfind := hwalks.findI 77
  exact absurd hfind (by decide)

end ServiceWalks

end TgServer
