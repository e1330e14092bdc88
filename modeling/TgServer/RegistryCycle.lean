/-
The registry over several rounds of loading and unloading: what
`unLoadService` frees, when it stays inside the arrays, and what is left for
the next round.  The storage of the arrays is taken to be zero when it is
allocated.
-/
import Mathlib.Data.List.Perm.Basic
import TgServer.ParameterArrays
import TgServer.RegistryLoads

namespace TgServer

open Bytes Transition

/-- The name and the parameters of a record. -/
def TGService.strings (g : Registry) (pSer : TGService) : List (List Byte) :=
  pSer.serviceName.toList ++ (parameterTexts g pSer).getD []

/-- What `unLoadService` walks over: every slot of the services, and every
array of parameters, has to end with a NULL. -/
def TGService.full (pSer : TGService) : Bool :=
  decide (0 < pSer.parCounts) &&
    decide (pSer.parCounts % serviceDefaultParaCounts = 0)

namespace Registry

/-- The strings of all records. -/
def strings (g : Registry) : List (List Byte) :=
  g.objects.flatMap (TGService.strings g)

/-- The records that `unLoadService` has not cleared. -/
def loaded (g : Registry) : List TGService :=
  g.objects.filter (·.serviceName.isSome)

/-- An array is full: that of the services or that of some parameters. -/
def Overrun (g : Registry) : Prop :=
  (0 < g.loaded.length ∧ g.loaded.length % defaultServiceSize = 0) ∨
    ∃ pSer ∈ g.loaded, pSer.full = true

instance (g : Registry) : Decidable g.Overrun :=
  inferInstanceAs (Decidable (_ ∨ _))

/-- The registry without services; the records and the arrays of parameters
are not given back. -/
def unloaded (g : Registry) : Registry :=
  { g with
    gServices := none, gServicesCounts := 0
    objects := g.objects.map clearService }

end Registry

/-- `made` has the names and the parameters stored so far. -/
structure ServiceCycle where
  registry : Registry
  made : List (List Byte)
  freed : List ServiceCall

inductive CycleAct where
  | loadService (call : LoadCall)
  | setServiceCreateParametersByN (name : Option (List Byte))
      (para : List Byte)
  | createAllServices (pData : Addr → Option Addr)
  | unLoadService

namespace ServiceCycle

/-- The parameter is stored if the name is found. -/
def stored (g : Registry) (name : Option (List Byte)) (para : List Byte) :
    List (List Byte) :=
  match name.map (lookupN g) with
  | some (some (some _)) => [para]
  | _ => []

def step (s : ServiceCycle) : CycleAct → Option ServiceCycle
  | .loadService call => do
      let g ← loadService (fun _ _ => none) s.registry call
      let added := g.objects.drop s.registry.objects.length
      return { s with
        registry := g
        made := s.made ++ added.filterMap TGService.serviceName }
  | .setServiceCreateParametersByN name para => do
      let g ← setServiceCreateParametersByN s.registry name para
      return { s with
        registry := g, made := s.made ++ stored s.registry name para }
  | .createAllServices pData => do
      let (_, g) ← createAllServices pData s.registry
      return { s with registry := g }
  | .unLoadService => do
      let (calls, g) ← unLoadService s.registry
      return { s with registry := g, freed := s.freed ++ calls }

end ServiceCycle

def serviceCycle : Machine ServiceCycle CycleAct where
  start := ⟨Registry.initial, [], []⟩
  step := ServiceCycle.step

section Slots

/-- The array holds the given addresses and NULLs behind them; it grows by one
block at a time. -/
structure Slotted (g : Registry) (front : List Addr) (spare : Nat) :
    Prop where
  slots : g.slots = front.map some ++ List.replicate spare none
  counts : g.gServicesCounts = front.length + spare
  array : g.gServices = none ↔ front = []
  steps : (front.length + spare) % defaultServiceSize = 0
  few : spare < defaultServiceSize

variable {g g' : Registry} {front : List Addr} {spare : Nat}

theorem Slotted.of_same (hslotted : Slotted g front spare)
    (harray : g'.gServices = g.gServices)
    (hcounts : g'.gServicesCounts = g.gServicesCounts) :
    Slotted g' front spare where
  slots := by rw [Registry.slots, harray]; exact hslotted.slots
  counts := hcounts.trans hslotted.counts
  array := by rw [harray]; exact hslotted.array
  steps := hslotted.steps
  few := hslotted.few

theorem slotted_empty (hnone : g.gServices = none)
    (hzero : g.gServicesCounts = 0) : Slotted g [] 0 where
  slots := by rw [Registry.slots, hnone]; rfl
  counts := hzero
  array := iff_of_true hnone rfl
  steps := rfl
  few := by decide

/-- A store at the first NULL. -/
theorem storeService_front {room : Nat} (pSer : Addr)
    (hslots : g.slots = front.map some ++ List.replicate (room + 1) none) :
    ∃ g', g.storeService front.length pSer = some g' ∧ SameRecords g g' ∧
      g'.gServicesCounts = g.gServicesCounts ∧ g'.gServices ≠ none ∧
      g'.slots = (front ++ [pSer]).map some ++ List.replicate room none := by
  have hlt : front.length < g.slots.length := by
    rw [hslots]
    simp
  refine ⟨_, if_pos hlt, ⟨rfl, rfl, rfl⟩, rfl, Option.some_ne_none _, ?_⟩
  change g.slots.set front.length (some pSer) = _
  rw [hslots, List.set_append_right _ _ (by simp), List.length_map,
    Nat.sub_self, List.replicate_succ, List.set_cons_zero, List.map_append,
    List.map_singleton, List.append_assoc, List.singleton_append]

/-- A full array grows by one block of NULLs. -/
theorem Slotted.append (hslotted : Slotted g front 0) :
    (appendGServiceArrayCount (fun _ _ => none) g).slots =
      front.map some ++ List.replicate defaultServiceSize none := by
  obtain ⟨hslots, hcounts, -⟩ := hslotted
  have hfresh : (List.range (g.gServicesCounts + defaultServiceSize)).map
      (fun _ => (none : Option Addr)) =
        List.replicate (g.gServicesCounts + defaultServiceSize) none := by
    simp
  rw [List.replicate_zero, List.append_nil] at hslots
  rw [Nat.add_zero] at hcounts
  rw [appendGServiceArrayCount, Registry.slots, Option.getD_some, hfresh]
  cases hservices : g.gServices with
  | none =>
      have hnil : front.map some = [] := by
        rw [← hslots, Registry.slots, hservices]
        rfl
      have hzero : g.gServicesCounts = 0 := by
        rw [hcounts, List.map_eq_nil_iff.mp hnil]
        rfl
      rw [hnil, hzero, Nat.zero_add]
      rfl
  | some old =>
      have hold : old = front.map some := by
        rw [← hslots, Registry.slots, hservices]
        rfl
      dsimp only
      rw [hold, hcounts, List.take_of_length_le (by simp), List.drop_replicate,
        Nat.add_sub_cancel_left]

/-- A record is put behind those that are there. -/
theorem Slotted.addService (hslotted : Slotted g front spare) (pSer : Addr) :
    ∃ g' spare', addService (fun _ _ => none) g pSer = some g' ∧
      SameRecords g g' ∧ Slotted g' (front ++ [pSer]) spare' := by
  have hdone : ∀ {g' : Registry} {room : Nat}, g'.gServices ≠ none →
      g'.gServicesCounts = front.length + (room + 1) →
      (front.length + (room + 1)) % defaultServiceSize = 0 →
      room < defaultServiceSize →
      g'.slots = (front ++ [pSer]).map some ++ List.replicate room none →
      Slotted g' (front ++ [pSer]) room := by
    intro g' room hsome hcounts hsteps hfew hslots
    have hlength : (front ++ [pSer]).length + room =
        front.length + (room + 1) := by
      rw [List.length_append, List.length_singleton]
      omega
    refine ⟨hslots, hcounts.trans hlength.symm, ?_, hlength.symm ▸ hsteps, hfew⟩
    exact iff_of_false hsome (by simp)
  have hscan : ∀ {slots}, g.gServices = some slots →
      SlotTable.scan slots Option.isNone g.gServicesCounts 0 =
        some (g.slots.findIdx? Option.isNone) := by
    intro slots hservices
    have hown : slots = g.slots := by rw [Registry.slots, hservices]; rfl
    have hlength : g.gServicesCounts = slots.length := by
      rw [hown, hslotted.slots, hslotted.counts]
      simp
    rw [hlength, SlotTable.scan_length, hown]
  cases spare with
  | zero =>
      obtain ⟨g', hstore, hrecords, hcounts, hsome, hslots⟩ :=
        storeService_front pSer hslotted.append
      have hfull : g.gServicesCounts = front.length := hslotted.counts
      refine ⟨g', _, ?_, ⟨hrecords.objects, hrecords.blocks, hrecords.number⟩,
        hdone hsome ?_ ?_ (by decide) hslots⟩
      · rw [TgServer.addService]
        cases hservices : g.gServices with
        | none =>
            rw [hslotted.array.mp hservices] at hstore
            exact hstore
        | some slots =>
            have hnone : g.slots.findIdx? Option.isNone = none := by
              rw [hslotted.slots]
              simp
            simp only [hscan hservices, hnone, Option.bind_eq_bind,
              Option.bind_some]
            rw [hfull]
            exact hstore
      · rw [hcounts, appendGServiceArrayCount, hfull]
        rfl
      · have hsteps := hslotted.steps
        rw [defaultServiceSize] at hsteps ⊢
        omega
  | succ room =>
      obtain ⟨g', hstore, hrecords, hcounts, hsome, hslots⟩ :=
        storeService_front pSer hslotted.slots
      refine ⟨g', room, ?_, hrecords, hdone hsome
        (hcounts.trans hslotted.counts) hslotted.steps
        (Nat.lt_of_succ_lt hslotted.few) hslots⟩
      rw [TgServer.addService]
      cases hservices : g.gServices with
      | none =>
          have hslots := hslotted.slots
          rw [Registry.slots, hservices, hslotted.array.mp hservices] at hslots
          cases hslots
      | some slots =>
          have hfirst : g.slots.findIdx? Option.isNone =
              some front.length := by
            rw [hslotted.slots, List.findIdx?_append, List.replicate_succ]
            have hnone : (front.map some).findIdx? Option.isNone = none := by
              simp
            simp [hnone, List.findIdx?_cons]
          simp only [hscan hservices, hfirst, Option.bind_eq_bind,
            Option.bind_some]
          exact hstore

/-- A loop over the slots ends unless the array is full. -/
theorem Slotted.walk (hslotted : Slotted g front spare) :
    SlotTable.walk g.slots = if spare = 0 then none else some front := by
  rw [hslotted.slots]
  cases spare with
  | zero =>
      rw [List.replicate_zero, List.append_nil, SlotTable.walk_full, if_pos rfl]
  | succ room =>
      rw [List.replicate_succ, SlotTable.walk_terminated, if_neg (by simp)]

end Slots

section Freed

variable {g g' : Registry} {pSer : TGService}

/-- The strings of a record depend on the arrays alone. -/
theorem strings_congr (hblocks : g'.blocks = g.blocks) (pSer : TGService) :
    pSer.strings g' = pSer.strings g := by
  have htexts : parameterTexts g' pSer = parameterTexts g pSer := by
    rw [parameterTexts, hblocks]
    rfl
  rw [TGService.strings, htexts, TGService.strings]

theorem ParameterOwner.strings {texts : List (List Byte)}
    (howner : ParameterOwner g pSer texts) :
    pSer.strings g = pSer.serviceName.toList ++ texts := by
  rw [TGService.strings, howner.parameterTexts, Option.getD_some]

/-- The strings of a record are freed unless its array is full. -/
theorem ParameterOwner.freed {texts : List (List Byte)}
    (howner : ParameterOwner g pSer texts) :
    freedStrings g pSer =
      if pSer.full then none
      else some ((pSer.strings g).map ServiceCall.free) := by
  have hname : pSer.serviceName.toList.map ServiceCall.free =
      (pSer.serviceName.map ServiceCall.free).toList := by
    cases pSer.serviceName <;> rfl
  rw [howner.strings, List.map_append, hname, TGService.full, howner.counts]
  by_cases hnil : texts = []
  · have hnone : pSer.parameters = none := by
      cases hparameters : pSer.parameters with
      | none => rfl
      | some ppara => exact absurd hnil (howner.block ppara hparameters).1
    subst hnil
    simp [freedStrings, hnone]
  have hpos : 0 < texts.length := List.length_pos_iff.mpr hnil
  by_cases hmod : texts.length % serviceDefaultParaCounts = 0
  · cases hparameters : pSer.parameters with
    | none => exact absurd (howner.missing hparameters) hnil
    | some ppara =>
        obtain ⟨-, spare, hblock, hall, hspare⟩ :=
          howner.block ppara hparameters
        obtain rfl : spare = 0 := by
          rw [serviceDefaultParaCounts] at hmod hall hspare
          omega
        rw [List.replicate_zero, List.append_nil] at hblock
        simp [freedStrings, hparameters, hblock, SlotTable.walk_full, hpos,
          hmod]
  · rw [((howner.endsWithin_iff hnil).mpr hmod).release]
    simp [hmod]

/-- What the loop of `unLoadService` does to one record. -/
def unLoadRound (g : Registry) (a : Addr) (pSer : TGService) :
    Option (List ServiceCall × Registry) := do
  return (← freedStrings g pSer,
    { g with objects := g.objects.set a (clearService pSer) })

/-- The rounds free the strings of one record after the other. -/
theorem traverse_unLoad (old live : List TGService)
    (hobjects : g.objects = old ++ live) :
    traverse unLoadRound (List.range' old.length live.length) g =
      (live.mapM (freedStrings g)).map fun calls => (calls.flatten,
        { g with objects := old ++ live.map clearService }) := by
  induction live generalizing old g with
  | nil =>
      simp only [List.length_nil, List.range'_zero, traverse, List.mapM_nil,
        Option.pure_def, Option.map_some, List.flatten_nil, List.map_nil,
        ← hobjects]
  | cons pSer rest ih =>
      have hget : g.objects[old.length]? = some pSer := by
        rw [hobjects, List.getElem?_append_right (Nat.le_refl _), Nat.sub_self,
          List.getElem?_cons_zero]
      have hset : g.objects.set old.length (clearService pSer) =
          old ++ [clearService pSer] ++ rest := by
        rw [hobjects, List.set_append_right _ _ (Nat.le_refl _), Nat.sub_self,
          List.set_cons_zero, List.append_assoc, List.singleton_append]
      let mid : Registry :=
        { g with objects := g.objects.set old.length (clearService pSer) }
      have htail := ih (g := mid) (old ++ [clearService pSer]) hset
      have hfreed : freedStrings mid = freedStrings g := rfl
      rw [List.length_append, List.length_singleton, hfreed] at htail
      rw [List.length_cons, List.range'_succ, traverse, hget,
        Option.bind_eq_bind, Option.bind_some, unLoadRound, List.mapM_cons]
      cases freedStrings g pSer with
      | none => rfl
      | some calls =>
          change (traverse unLoadRound _ mid).bind _ = _
          rw [htail]
          cases rest.mapM (freedStrings g) with
          | none => rfl
          | some more => simp [mid]

end Freed

/-- The records from `base` on are in the array, those before it were cleared
by `unLoadService`. -/
structure Turned (g : Registry) (base : Nat) : Prop where
  le : base ≤ g.objects.length
  slotted : ∃ spare,
    Slotted g (List.range' base (g.objects.length - base)) spare
  cleared : ∀ {a pSer}, a < base → g.objects[a]? = some pSer →
    clearService pSer = pSer
  named : ∀ {a pSer}, base ≤ a → g.objects[a]? = some pSer →
    pSer.serviceName ≠ none
  owned : ∃ lists, Owned g lists ∧ ∀ a, g.objects.length ≤ a → lists a = []
  number : g.sID = g.objects.length
  numbers : g.objects.map TGService.sID =
    (List.range g.objects.length).map Int.ofNat

section Unloading

theorem turned_initial : Turned Registry.initial 0 where
  le := Nat.le_refl 0
  slotted := ⟨0, slotted_empty rfl rfl⟩
  cleared := fun hlt => absurd hlt (Nat.not_lt_zero _)
  named := by
    intro a pSer _ hget
    cases hget
  owned := ⟨_, holding_initial.owned, holding_initial.free⟩
  number := rfl
  numbers := rfl

theorem cleared_strings (g : Registry) {pSer : TGService}
    (hcleared : clearService pSer = pSer) :
    pSer.serviceName = none ∧ pSer.strings g = [] := by
  have hname : pSer.serviceName = none := by rw [← hcleared]; rfl
  have hnone : pSer.parameters = none := by rw [← hcleared]; rfl
  refine ⟨hname, ?_⟩
  rw [TGService.strings, hname, parameterTexts, hnone]
  rfl

variable {g : Registry} {base : Nat} (hturned : Turned g base)

include hturned

theorem Turned.mem_take {pSer : TGService}
    (hmem : pSer ∈ g.objects.take base) : clearService pSer = pSer := by
  obtain ⟨a, hget⟩ := List.getElem?_of_mem hmem
  have hlt : a < base :=
    Nat.lt_of_lt_of_le (List.getElem?_eq_some_iff.mp hget).1
      (List.length_take_le _ _)
  rw [List.getElem?_take_of_lt hlt] at hget
  exact hturned.cleared hlt hget

theorem Turned.mem_drop {pSer : TGService}
    (hmem : pSer ∈ g.objects.drop base) : pSer.serviceName ≠ none := by
  obtain ⟨i, hget⟩ := List.getElem?_of_mem hmem
  rw [List.getElem?_drop] at hget
  exact hturned.named (Nat.le_add_right base i) hget

theorem Turned.loaded : g.loaded = g.objects.drop base := by
  have hold : (g.objects.take base).filter (·.serviceName.isSome) = [] := by
    apply List.filter_eq_nil_iff.mpr
    intro pSer hmem
    rw [(cleared_strings g (hturned.mem_take hmem)).1]
    exact Bool.false_ne_true
  have hlive : (g.objects.drop base).filter (·.serviceName.isSome) =
      g.objects.drop base := by
    apply List.filter_eq_self.mpr
    intro pSer hmem
    exact Option.isSome_iff_ne_none.mpr (hturned.mem_drop hmem)
  have hsplit : g.loaded =
      (g.objects.take base).filter (·.serviceName.isSome) ++
        (g.objects.drop base).filter (·.serviceName.isSome) := by
    rw [← List.filter_append, List.take_append_drop, Registry.loaded]
  rw [hsplit, hold, hlive, List.nil_append]

theorem Turned.strings :
    g.strings = (g.objects.drop base).flatMap (TGService.strings g) := by
  have hold : (g.objects.take base).flatMap (TGService.strings g) = [] := by
    apply List.flatMap_eq_nil_iff.mpr
    intro pSer hmem
    exact (cleared_strings g (hturned.mem_take hmem)).2
  have hsplit : g.strings = (g.objects.take base).flatMap
      (TGService.strings g) ++ (g.objects.drop base).flatMap
        (TGService.strings g) := by
    rw [← List.flatMap_append, List.take_append_drop, Registry.strings]
  rw [hsplit, hold, List.nil_append]

omit hturned in
theorem mapM_freed {texts : Addr → List (List Byte)} (howned : Owned g texts)
    {live : List TGService} (hlive : ∀ pSer ∈ live, pSer ∈ g.objects) :
    live.mapM (freedStrings g) = if live.any TGService.full then none
      else some (live.map fun pSer => (pSer.strings g).map .free) := by
  induction live with
  | nil => rfl
  | cons pSer rest ih =>
      obtain ⟨a, hget⟩ :=
        List.getElem?_of_mem (hlive pSer List.mem_cons_self)
      have hrest := ih fun other hother =>
        hlive other (List.mem_cons_of_mem _ hother)
      rw [List.mapM_cons, (howned.owner hget).freed, hrest, List.any_cons]
      cases pSer.full with
      | true => rfl
      | false => cases rest.any TGService.full <;> rfl

theorem Turned.map_clear : g.objects.map clearService =
    g.objects.take base ++ (g.objects.drop base).map clearService := by
  have hold : (g.objects.take base).map clearService = g.objects.take base :=
    (List.map_congr_left fun _ hmem => hturned.mem_take hmem).trans
      (List.map_id _)
  have hsplit : g.objects.map clearService =
      (g.objects.take base).map clearService ++
        (g.objects.drop base).map clearService := by
    rw [← List.map_append, List.take_append_drop]
  rw [hsplit, hold]

/-- Without services there is no array, and nothing to unload. -/
theorem Turned.unLoad_empty (hnone : g.gServices = none) :
    g.loaded = [] ∧ unLoadService g = some ([], g.unloaded) := by
  obtain ⟨spare, hslotted⟩ := hturned.slotted
  have hnil := hslotted.array.mp hnone
  have hempty : g.objects.drop base = [] := by
    rw [List.drop_eq_nil_iff]
    exact Nat.le_of_sub_eq_zero (List.range'_eq_nil_iff.mp hnil)
  have hobjects : g.objects.map clearService = g.objects := by
    have htake := List.take_append_drop base g.objects
    rw [hempty, List.append_nil] at htake
    rw [hturned.map_clear, hempty, List.map_nil, List.append_nil, htake]
  have hzero : g.gServicesCounts = 0 := by
    have hsteps := hslotted.steps
    have hfew := hslotted.few
    have hcounts := hslotted.counts
    rw [hnil, List.length_nil, Nat.zero_add] at hsteps hcounts
    rw [defaultServiceSize] at hsteps hfew
    omega
  have hsame : g.unloaded = g := by
    rw [Registry.unloaded, hobjects]
    cases g
    cases hnone
    cases hzero
    rfl
  refine ⟨hturned.loaded.trans hempty, ?_⟩
  rw [unLoadService, hnone, hsame]

/-- `unLoadService` frees the strings of all services in load order and leaves
an empty registry, unless an array it walks over is full. -/
theorem Turned.unLoad : unLoadService g =
    if g.Overrun then none
    else some (g.strings.map .free, g.unloaded) := by
  cases hservices : g.gServices with
  | none =>
      obtain ⟨hloaded, hunload⟩ := hturned.unLoad_empty hservices
      have hnot : ¬ g.Overrun := by
        rw [Registry.Overrun, hloaded]
        simp
      rw [if_neg hnot, hunload, hturned.strings, ← hturned.loaded, hloaded]
      rfl
  | some slots =>
      obtain ⟨lists, howned, -⟩ := hturned.owned
      obtain ⟨spare, hslotted⟩ := hturned.slotted
      have hwalk := hslotted.walk
      rw [Registry.slots, hservices, Option.getD_some] at hwalk
      have hlive : (g.objects.drop base).length = g.objects.length - base :=
        List.length_drop ..
      have hbase : (g.objects.take base).length = base :=
        List.length_take_of_le hturned.le
      have hrounds := traverse_unLoad (g := g) (g.objects.take base)
        (g.objects.drop base) (List.take_append_drop _ _).symm
      rw [hbase, hlive, mapM_freed howned fun _ => List.mem_of_mem_drop,
        ← hturned.map_clear] at hrounds
      have hpos : 0 < g.objects.length - base := by
        apply Nat.pos_of_ne_zero
        intro hzero
        have hnone := hslotted.array.mpr (List.range'_eq_nil_iff.mpr hzero)
        rw [hservices] at hnone
        cases hnone
      have hfull : spare = 0 ↔
          (g.objects.length - base) % defaultServiceSize = 0 := by
        have hsteps := hslotted.steps
        have hfew := hslotted.few
        rw [List.length_range', defaultServiceSize] at *
        omega
      have hoverrun : g.Overrun ↔ spare = 0 ∨
          (g.objects.drop base).any TGService.full = true := by
        rw [Registry.Overrun, hturned.loaded, hlive, hfull, List.any_eq_true]
        exact or_congr_left (and_iff_right hpos)
      have hrun : unLoadService g =
          ((SlotTable.walk slots).bind fun front =>
            traverse unLoadRound front g).map fun (calls, g) =>
              (calls, { g with gServices := none, gServicesCounts := 0 }) := by
        rw [unLoadService, hservices]
        change (forServices unLoadRound g).bind _ = _
        rw [forServices, hservices]
        change ((SlotTable.walk slots).bind fun front =>
          traverse unLoadRound front g).bind _ = _
        cases SlotTable.walk slots with
        | none => rfl
        | some front =>
            change (traverse unLoadRound front g).bind _ = Option.map _
              (traverse unLoadRound front g)
            cases traverse unLoadRound front g <;> rfl
      rw [hrun, hwalk, hturned.strings]
      by_cases hspare : spare = 0
      · rw [if_pos hspare, if_pos (hoverrun.mpr (Or.inl hspare))]
        rfl
      rw [if_neg hspare, Option.bind_some, hrounds]
      cases hany : (g.objects.drop base).any TGService.full with
      | true =>
          rw [if_pos (hoverrun.mpr (Or.inr hany)), if_pos rfl]
          rfl
      | false =>
          have hnot : ¬ g.Overrun := by
            rw [hoverrun, hany]
            exact fun hcases => hcases.elim hspare Bool.false_ne_true.elim
          rw [if_neg hnot, if_neg Bool.false_ne_true]
          have hcalls : ((g.objects.drop base).map fun pSer =>
              (pSer.strings g).map ServiceCall.free).flatten =
                ((g.objects.drop base).flatMap
                  (TGService.strings g)).map .free := by
            rw [List.map_flatMap, List.flatMap_def]
          simp only [Option.map_some, hcalls]
          rfl

end Unloading

section Steps

variable {g g' : Registry} {base : Nat}

/-- A load puts at most one record behind the others. -/
theorem Turned.load (hturned : Turned g base) (call : LoadCall) :
    ∃ g' added, loadService (fun _ _ => none) g call = some g' ∧
      Turned g' base ∧ g'.objects = g.objects ++ added ∧
      g'.strings = g.strings ++ added.filterMap TGService.serviceName := by
  cases hrecord : call.record g.sID with
  | none =>
      exact ⟨g, [], loadService_skip _ g hrecord, hturned,
        (List.append_nil _).symm, (List.append_nil _).symm⟩
  | some pService =>
      obtain ⟨hnumber, hname⟩ := record_name hrecord
      obtain ⟨hnone, hzero⟩ := LoadCall.record_unset hrecord
      obtain ⟨spare, hslotted⟩ := hturned.slotted
      have hnumbered : Slotted (withRecord g pService) _ spare :=
        hslotted.of_same rfl rfl
      obtain ⟨g', spare', hadd, ⟨hobjects, hblocks, hsID⟩, hnext⟩ :=
        hnumbered.addService g.objects.length
      have hlength : g'.objects.length = g.objects.length + 1 := by
        rw [hobjects]
        exact List.length_append
      have hle := hturned.le
      refine ⟨g', [pService], (loadService_add _ g hrecord).trans hadd, ?_,
        hobjects, ?_⟩
      · refine ⟨by omega, ⟨spare', ?_⟩, ?_, ?_, ?_, ?_, ?_⟩
        · have hlast : List.range' base (g'.objects.length - base) =
              List.range' base (g.objects.length - base) ++
                [g.objects.length] := by
            have hone : g'.objects.length - base =
                g.objects.length - base + 1 := by omega
            rw [hone, List.range'_concat, Nat.one_mul, Nat.add_sub_cancel' hle]
          rw [hlast]
          exact hnext
        · intro a pSer hlt hget
          rw [hobjects, withRecord,
            List.getElem?_append_left (by omega)] at hget
          exact hturned.cleared hlt hget
        · intro a pSer hbase hget
          rcases loaded_object hobjects hget with hold | ⟨-, rfl⟩
          · exact hturned.named hbase hold
          · rw [hname]
            exact Option.some_ne_none _
        · obtain ⟨lists, howned, hfree⟩ := hturned.owned
          refine ⟨lists, howned.add (hfree _ (Nat.le_refl _)) hnone hzero
            hobjects hblocks, fun a ha => hfree a (by omega)⟩
        · rw [hsID, hlength, withRecord, hturned.number, Int.natCast_succ]
        · rw [hlength, List.range_succ, List.map_append, ← hturned.numbers,
            hobjects, withRecord, List.map_append, List.map_singleton,
            List.map_singleton, hnumber, hturned.number]
          rfl
      · have htexts : TGService.strings g' = TGService.strings g :=
          funext fun pSer => strings_congr hblocks pSer
        rw [Registry.strings, hobjects, withRecord, List.flatMap_append, htexts,
          List.flatMap_singleton, TGService.strings, parameterTexts, hnone]
        simp [Registry.strings, hname]

/-- The strings of a registry, by the addresses of its records. -/
theorem Owned.strings {texts : Addr → List (List Byte)}
    (howned : Owned g texts) :
    g.strings = (List.range g.objects.length).flatMap fun a =>
      ((g.objects.map TGService.serviceName)[a]?.join).toList ++ texts a := by
  rw [Registry.strings, List.flatMap_def, List.flatMap_def]
  congr 1
  apply List.ext_getElem
  · simp
  · intro a ha _
    rw [List.length_map] at ha
    have howner := howned.owner (List.getElem?_eq_getElem ha)
    simp [howner.strings, ha]

theorem flatMap_single {α β : Type} [DecidableEq α] {l : List α}
    (hnodup : l.Nodup) {a : α} (ha : a ∈ l) (x : β) :
    l.flatMap (fun b => if some a = some b then [x] else []) = [x] := by
  induction l with
  | nil => cases ha
  | cons b rest ih =>
      obtain ⟨hnot, hrest⟩ := List.nodup_cons.mp hnodup
      rw [List.flatMap_cons]
      by_cases hb : a = b
      · subst hb
        have hnil : rest.flatMap
            (fun b => if some a = some b then [x] else []) = [] := by
          apply List.flatMap_eq_nil_iff.mpr
          intro b hb
          rw [if_neg]
          rintro ⟨⟩
          exact hnot hb
        rw [if_pos rfl, hnil]
        rfl
      · rw [if_neg (fun hsame => hb (Option.some.inj hsame)), List.nil_append]
        exact ih hrest (List.mem_of_ne_of_mem hb ha)

/-- A name that is found leads to a record in the array. -/
theorem Slotted.lookupN {front : List Addr} {spare : Nat}
    (hslotted : Slotted g front spare) {name : List Byte} {a : Addr}
    (hlookup : lookupN g name = some (some a)) : a ∈ front := by
  rw [TgServer.lookupN] at hlookup
  split at hlookup
  · cases hlookup
  · obtain ⟨⟨n, found⟩, hsearch, hfound⟩ :=
      Option.map_eq_some_iff.mp hlookup
    obtain rfl : found = some a := hfound
    rw [searchServices] at hsearch
    cases hservices : g.gServices with
    | none =>
        rw [hservices] at hsearch
        cases hsearch
    | some slots =>
        rw [hservices] at hsearch
        obtain ⟨_, _, hsplit, -⟩ := SlotTable.search_split hsearch
        have hmem : some a ∈ g.slots := by
          rw [Registry.slots, hservices, Option.getD_some, hsplit]
          simp
        rw [hslotted.slots] at hmem
        rcases List.mem_append.mp hmem with hfront | hspare
        · simpa using hfront
        · cases (List.mem_replicate.mp hspare).2

/-- A parameter is stored for the service that its name finds. -/
theorem Turned.push (hturned : Turned g base) {name : Option (List Byte)}
    {para : List Byte}
    (hset : setServiceCreateParametersByN g name para = some g') :
    Turned g' base ∧
      g'.strings.Perm (g.strings ++ ServiceCycle.stored g name para) := by
  have hidle : g' = g → ServiceCycle.stored g name para = [] →
      Turned g' base ∧
        g'.strings.Perm (g.strings ++ ServiceCycle.stored g name para) := by
    rintro rfl hnone
    rw [hnone, List.append_nil]
    exact ⟨hturned, List.Perm.refl _⟩
  cases name with
  | none => exact hidle (Option.some.inj hset).symm rfl
  | some name =>
  rw [setServiceCreateParametersByN_eq] at hset
  rw [ServiceCycle.stored] at hidle ⊢
  rw [Option.map_some] at hidle ⊢
  cases hlookup : lookupN g name with
  | none =>
      rw [hlookup] at hset
      cases hset
  | some found =>
  rw [hlookup, Option.bind_some] at hset
  rw [hlookup] at hidle
  cases found with
  | none => exact hidle (Option.some.inj hset).symm rfl
  | some a =>
      obtain ⟨pSer, hget⟩ := lookupN_found hlookup
      obtain ⟨lists, howned, hfree⟩ := hturned.owned
      obtain ⟨spare, hslotted⟩ := hturned.slotted
      obtain ⟨last, hpush, hnames, hlength, hnext⟩ := howned.push hget para
      obtain rfl := Option.some.inj (hset.symm.trans hpush)
      have hupdates := setServiceCreateParameters_updates hset
      obtain ⟨pOld, parameters, parCounts, hold, hobjects⟩ :=
        hupdates.selected
      have hlt := (List.getElem?_eq_some_iff.mp hget).1
      have hrange := List.mem_range'_1.mp (hslotted.lookupN hlookup)
      refine ⟨⟨?_, ⟨spare, ?_⟩, ?_, ?_, ⟨_, hnext, ?_⟩, ?_, ?_⟩, ?_⟩
      · rw [hlength]
        exact hturned.le
      · rw [hlength]
        exact hslotted.of_same hupdates.array hupdates.counts
      · intro b pNew hb hnew
        rw [hobjects, List.getElem?_set_ne (by omega)] at hnew
        exact hturned.cleared hb hnew
      · intro b pNew hb hnew
        have hname := congrArg (·[b]?) hnames.names
        simp only [List.getElem?_map, hnew, Option.map_some] at hname
        obtain ⟨pBefore, hbefore, hsame⟩ :=
          Option.map_eq_some_iff.mp hname.symm
        rw [← hsame]
        exact hturned.named hb hbefore
      · intro b hb
        rw [hlength] at hb
        have hne : b ≠ a := Nat.ne_of_gt (Nat.lt_of_lt_of_le hlt hb)
        rw [Function.update_of_ne hne]
        exact hfree b hb
      · rw [hupdates.number, hlength, hturned.number]
      · rw [hlength, ← hturned.numbers]
        exact hupdates.map fun _ _ _ => rfl
      · have hadded := flatMap_single (List.nodup_range (n := g.objects.length))
          (List.mem_range.mpr hlt) para
        rw [hnext.strings, howned.strings, hlength, hnames.names, update_append]
        simp only [← List.append_assoc]
        refine (List.flatMap_append_perm _ _ _).symm.trans ?_
        rw [hadded]

theorem Turned.create (hturned : Turned g base)
    {pData : Addr → Option Addr} {calls : List ServiceCall}
    (hcreate : createAllServices pData g = some (calls, g')) :
    Turned g' base ∧ g'.strings = g.strings := by
  have hsame := createAllServices_same hcreate
  obtain ⟨spare, hslotted⟩ := hturned.slotted
  obtain ⟨lists, howned, hfree⟩ := hturned.owned
  have hnumbers := congrArg (·.map TGService.sID) hsame.records
  rw [List.map_map, List.map_map] at hnumbers
  refine ⟨⟨?_, ⟨spare, ?_⟩, ?_, ?_, ⟨lists, hsame.owned howned, ?_⟩, ?_, ?_⟩,
    ?_⟩
  · rw [hsame.length]
    exact hturned.le
  · rw [hsame.length]
    exact hslotted.of_same (by rw [hsame.rest]) (by rw [hsame.rest])
  · intro a pNew hlt hget
    obtain ⟨pOld, hold, hdata⟩ := hsame.object hget
    have hcleared := hturned.cleared hlt hold
    rw [hdata, ← hcleared]
    rfl
  · intro a pNew hle hget
    obtain ⟨pOld, hold, hdata⟩ := hsame.object hget
    have hname : pNew.serviceName = pOld.serviceName := by rw [hdata]
    rw [hname]
    exact hturned.named hle hold
  · rw [hsame.length]
    exact hfree
  · rw [hsame.length, ← hturned.number, hsame.rest]
  · rw [hsame.length, ← hturned.numbers]
    exact hnumbers
  · have hblocks : g'.blocks = g.blocks := by rw [hsame.rest]
    have htexts : TGService.strings g' = TGService.strings g :=
      funext fun pSer => strings_congr hblocks pSer
    have hdata := congrArg (·.flatMap (TGService.strings g)) hsame.records
    rw [List.flatMap_map, List.flatMap_map] at hdata
    rw [Registry.strings, htexts]
    exact hdata

theorem Turned.unloaded (hturned : Turned g base) :
    Turned g.unloaded g.objects.length ∧ g.unloaded.strings = [] := by
  have hlength : g.unloaded.objects.length = g.objects.length :=
    List.length_map _
  have hclear : ∀ pSer ∈ g.unloaded.objects, clearService pSer = pSer := by
    intro pSer hmem
    obtain ⟨pOld, -, rfl⟩ := List.mem_map.mp hmem
    rfl
  refine ⟨⟨?_, ⟨0, ?_⟩, ?_, ?_, ⟨_, Unset.owned ?_, fun _ _ => rfl⟩, ?_, ?_⟩,
    ?_⟩
  · exact Nat.le_of_eq hlength.symm
  · rw [hlength, Nat.sub_self]
    exact slotted_empty rfl rfl
  · intro a pSer _ hget
    exact hclear pSer (List.mem_of_getElem? hget)
  · intro a pSer hle hget
    have hlt := (List.getElem?_eq_some_iff.mp hget).1
    exact absurd hle (Nat.not_le_of_lt (hlength ▸ hlt))
  · intro pSer hmem
    rw [← hclear pSer hmem]
    exact ⟨rfl, rfl⟩
  · rw [hlength]
    exact hturned.number
  · rw [hlength, ← hturned.numbers, Registry.unloaded, List.map_map]
    rfl
  · apply List.flatMap_eq_nil_iff.mpr
    intro pSer hmem
    exact (cleared_strings _ (hclear pSer hmem)).2

end Steps

namespace ServiceCycle

/-- What was stored was freed once or is still there. -/
structure Inv (s : ServiceCycle) : Prop where
  turned : ∃ base, Turned s.registry base
  strings : (s.made.map ServiceCall.free).Perm
    (s.freed ++ s.registry.strings.map .free)

theorem Inv.step {s next : ServiceCycle} {act : CycleAct} (hinv : s.Inv)
    (hstep : s.step act = some next) : next.Inv := by
  obtain ⟨⟨base, hturned⟩, hstrings⟩ := hinv
  have hmore : ∀ {g : Registry} {new : List (List Byte)},
      g.strings.Perm (s.registry.strings ++ new) →
      ((s.made ++ new).map ServiceCall.free).Perm
        (s.freed ++ g.strings.map .free) := by
    intro g new hperm
    rw [List.map_append]
    refine (hstrings.append_right _).trans ?_
    rw [List.append_assoc, ← List.map_append]
    exact (hperm.symm.map _).append_left _
  cases act with
  | loadService call =>
      obtain ⟨g, hload, hnext⟩ := Option.bind_eq_some_iff.mp hstep
      obtain rfl := Option.some.inj hnext
      obtain ⟨g', added, hsome, hafter, hobjects, hmade⟩ := hturned.load call
      obtain rfl := Option.some.inj (hload.symm.trans hsome)
      refine ⟨⟨base, hafter⟩, hmore ?_⟩
      rw [hobjects, List.drop_left, hmade]
  | setServiceCreateParametersByN name para =>
      obtain ⟨g, hset, hnext⟩ := Option.bind_eq_some_iff.mp hstep
      obtain rfl := Option.some.inj hnext
      obtain ⟨hafter, hperm⟩ := hturned.push hset
      exact ⟨⟨base, hafter⟩, hmore hperm⟩
  | createAllServices pData =>
      obtain ⟨⟨calls, g⟩, hcreate, hnext⟩ := Option.bind_eq_some_iff.mp hstep
      obtain rfl := Option.some.inj hnext
      obtain ⟨hafter, hsame⟩ := hturned.create hcreate
      refine ⟨⟨base, hafter⟩, ?_⟩
      dsimp only
      rw [hsame]
      exact hstrings
  | unLoadService =>
      obtain ⟨⟨calls, g⟩, hunload, hnext⟩ := Option.bind_eq_some_iff.mp hstep
      obtain rfl := Option.some.inj hnext
      rw [hturned.unLoad] at hunload
      split at hunload
      · cases hunload
      · obtain ⟨rfl, rfl⟩ := Prod.mk.inj (Option.some.inj hunload)
        obtain ⟨hafter, hnil⟩ := hturned.unloaded
        refine ⟨⟨_, hafter⟩, ?_⟩
        dsimp only
        rw [hnil, List.map_nil, List.append_nil]
        exact hstrings

theorem inv_reachable {s : ServiceCycle} (hreach : serviceCycle.Reachable s) :
    s.Inv := by
  apply hreach.invariant
  · exact ⟨⟨0, turned_initial⟩, List.Perm.refl _⟩
  · intro state act next hinv hstep
    exact hinv.step hstep

end ServiceCycle

/-- However often services are loaded, given parameters and unloaded, every
name and parameter stored was freed once or is still in the registry, and the
numbers go on from one load to the next over all unloads; `unLoadService`
frees just what is there, in load order, and leaves an empty registry, unless
an array it walks over is full. -/
theorem registry_cycle {s : ServiceCycle} (hreach : serviceCycle.Reachable s) :
    (s.made.map ServiceCall.free).Perm
      (s.freed ++ s.registry.strings.map .free) ∧
    s.registry.objects.map TGService.sID =
      (List.range s.registry.objects.length).map Int.ofNat ∧
    unLoadService s.registry =
      if s.registry.Overrun then none
      else some (s.registry.strings.map .free, s.registry.unloaded) := by
  obtain ⟨⟨base, hturned⟩, hstrings⟩ := ServiceCycle.inv_reachable hreach
  exact ⟨hstrings, hturned.numbers, hturned.unLoad⟩

namespace RegistryCycle

def library : Library := ⟨some 1, some 2, some 3, some 4, some 5⟩

/-- A service with a parameter is unloaded and another one is loaded. -/
def acts : List CycleAct :=
  [.loadService ⟨ascii "/lib/echo", some library, 0⟩,
    .setServiceCreateParametersByN (some (ascii "echo")) (ascii "a"),
    .unLoadService, .loadService ⟨ascii "/lib/time", some library, 0⟩]

theorem registry_cycle_acts :
    ∃ s, serviceCycle.run serviceCycle.start acts = some s ∧
      s.freed = [.free (ascii "echo" ++ [0, 0]), .free (ascii "a")] ∧
      (s.made.map ServiceCall.free).Perm
        (s.freed ++ s.registry.strings.map .free) ∧
      s.registry.objects.map TGService.sID =
        (List.range s.registry.objects.length).map Int.ofNat ∧
      unLoadService s.registry =
        if s.registry.Overrun then none
        else some (s.registry.strings.map .free, s.registry.unloaded) := by
  have hcheck : (serviceCycle.run serviceCycle.start acts).any (fun s =>
      decide (s.freed = [.free (ascii "echo" ++ [0, 0]), .free (ascii "a")])) =
        true := by
    decide +kernel
  obtain ⟨s, hrun, hat⟩ := (Option.any_eq_true _ _).mp hcheck
  exact ⟨s, hrun, of_decide_eq_true hat, registry_cycle ⟨acts, hrun⟩⟩

end RegistryCycle

end TgServer
