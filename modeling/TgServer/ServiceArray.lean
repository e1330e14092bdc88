/-
What `loadService` leaves in `g_services`, and how far the loops over the
array read.
-/
import TgServer.Service

namespace TgServer

open Bytes

/-- The record a call registers under the given number, if its library passes
`checkLib`. -/
def LoadCall.record (call : LoadCall) (sID : Int) : Option TGService := do
  if call.path = [] then none
  else
    let lib ← call.lib
    return ⟨sID, some (libName call sID), none, 0, ← lib.create, ← lib.init,
      ← lib.doRequest, ← lib.release, ← lib.destroy, none⟩

/-- The records a sequence of calls registers, numbered from `sID` on. -/
def records : List LoadCall → Int → List TGService
  | [], _ => []
  | call :: rest, sID =>
      match call.record sID with
      | none => records rest sID
      | some pService => pService :: records rest (sID + 1)

def loadServices (junk : Nat → Nat → Option Addr) :
    List LoadCall → Registry → Option Registry
  | [], g => some g
  | call :: rest, g => do loadServices junk rest (← loadService junk g call)

/-- The first slots hold the given services, each once and in order; every
other slot is NULL. -/
structure Holds (g : Registry) (services : List TGService) : Prop where
  filled : ∃ addrs : List Addr, addrs.Nodup ∧
    g.slots.take services.length = addrs.map some ∧
    addrs.map (g.objects[·]?) = services.map some
  empty : ∀ i, services.length ≤ i → i < g.gServicesCounts →
    g.slots[i]? = some none

/-- What the array looks like as long as fresh memory did no harm. -/
structure Packed (g : Registry) (services : List TGService) : Prop where
  objects : g.objects = services
  number : g.sID = services.length
  array : g.gServices = none ↔ services = []
  counts : g.gServicesCounts =
    (services.length + 9) / defaultServiceSize * defaultServiceSize
  slots : g.slots = (List.range services.length).map some ++
    List.replicate (g.gServicesCounts - services.length) none

theorem packed_initial : Packed Registry.initial [] where
  objects := rfl
  number := rfl
  array := by simp [Registry.initial]
  counts := rfl
  slots := rfl

namespace Packed

variable {g : Registry} {services : List TGService}

theorem le_counts (hpacked : Packed g services) :
    services.length ≤ g.gServicesCounts := by
  rw [hpacked.counts, defaultServiceSize]
  omega

theorem length_slots (hpacked : Packed g services) :
    g.slots.length = g.gServicesCounts := by
  have hle := hpacked.le_counts
  rw [hpacked.slots, List.length_append, List.length_map, List.length_range,
    List.length_replicate]
  omega

/-- The addresses in the array are those of the services, in order. -/
theorem map_objects (hpacked : Packed g services) :
    (List.range services.length).map (g.objects[·]?) = services.map some := by
  rw [hpacked.objects]
  apply List.ext_getElem
  · simp
  · intro i hi _
    simp only [List.length_map, List.length_range] at hi
    simp [hi]

/-- With room behind the services, a NULL slot follows them. -/
theorem terminated (hpacked : Packed g services)
    (hroom : services = [] ∨ services.length < g.gServicesCounts) :
    g.gServices = none ∧ services = [] ∨
      ∃ spare, g.gServices =
        some ((List.range services.length).map some ++ none :: spare) := by
  cases hslots : g.gServices with
  | none => exact Or.inl ⟨rfl, hpacked.array.mp hslots⟩
  | some slots =>
      have hsome : services ≠ [] := by
        intro hnil
        rw [hpacked.array.mpr hnil] at hslots
        cases hslots
      obtain ⟨spare, hspare⟩ :=
        Nat.exists_eq_add_of_lt (hroom.resolve_left hsome)
      have hrest : g.gServicesCounts - services.length = spare + 1 := by omega
      have hlayout := hpacked.slots
      rw [Registry.slots, hslots, Option.getD_some, hrest,
        List.replicate_succ] at hlayout
      exact Or.inr ⟨List.replicate spare none, by rw [hlayout]⟩

theorem holds (hpacked : Packed g services) : Holds g services where
  filled := by
    refine ⟨List.range services.length, List.nodup_range, ?_, hpacked.map_objects⟩
    rw [hpacked.slots, List.take_left' (by simp)]
  empty := by
    intro i hi hlt
    rw [hpacked.slots, List.getElem?_append_right (by simpa using hi),
      List.getElem?_replicate, if_pos]
    rw [List.length_map, List.length_range]
    omega

end Packed

/-- `checkLib` makes the record of the call, but for its name. -/
theorem checkLib_record (g : Registry) {call : LoadCall} {lib : Library}
    (hpath : call.path ≠ []) (hlib : call.lib = some lib) :
    checkLib g lib = (call.record g.sID).map fun pService =>
      ({ pService with serviceName := none },
        { g with sID := g.sID + 1 }) := by
  simp [LoadCall.record, checkLib, hpath, hlib, Option.map_bind]

theorem record_name {call : LoadCall} {sID : Int} {pService : TGService}
    (hrecord : call.record sID = some pService) :
    pService.sID = sID ∧ pService.serviceName = some (libName call sID) := by
  rw [LoadCall.record] at hrecord
  split at hrecord
  · cases hrecord
  · simp only [Option.bind_eq_bind, Option.bind_eq_some_iff, Option.pure_def,
      Option.some.injEq] at hrecord
    obtain ⟨_, _, _, _, _, _, _, _, _, _, _, _, rfl⟩ := hrecord
    exact ⟨rfl, rfl⟩

/-- A call whose library does not qualify changes nothing. -/
theorem loadService_skip (junk : Nat → Nat → Option Addr) (g : Registry)
    {call : LoadCall} (hrecord : call.record g.sID = none) :
    loadService junk g call = some g := by
  by_cases hpath : call.path = []
  · rw [loadService, if_pos hpath]
  rw [loadService, if_neg hpath]
  cases hlib : call.lib with
  | none => rfl
  | some lib =>
      simp only [checkLib_record g hpath hlib, hrecord, Option.map_none]

/-- A call whose library qualifies adds its record. -/
theorem loadService_add (junk : Nat → Nat → Option Addr) (g : Registry)
    {call : LoadCall} {pService : TGService}
    (hrecord : call.record g.sID = some pService) :
    loadService junk g call =
      addService junk
        { g with objects := g.objects ++ [pService], sID := g.sID + 1 }
        g.objects.length := by
  by_cases hpath : call.path = []
  · simp [LoadCall.record, hpath] at hrecord
  obtain ⟨hnumber, hname⟩ := record_name hrecord
  obtain ⟨sID, serviceName⟩ := pService
  dsimp only at hnumber hname
  subst hnumber hname
  rw [loadService, if_neg hpath]
  cases hlib : call.lib with
  | none => simp [LoadCall.record, hlib] at hrecord
  | some lib =>
      simp only [checkLib_record g hpath hlib, hrecord, Option.map_some]

/-- The words of a fresh array that no load fills at once are NULL. -/
def Cleared (junk : Nat → Nat → Option Addr) (n : Nat) : Prop :=
  ∀ i, n < i → i < n + defaultServiceSize → junk n i = none

/-- The array and the counters after the record number `n` went into a grown
array. -/
structure Grown (junk : Nat → Nat → Option Addr) (g : Registry)
    (services : List TGService) (pService : TGService) : Prop where
  objects : g.objects = services ++ [pService]
  number : g.sID = services.length + 1
  array : g.gServices ≠ none
  counts : g.gServicesCounts = services.length + defaultServiceSize
  slots : g.slots = (List.range services.length).map some ++
    some services.length ::
      ((List.range (services.length + defaultServiceSize)).map
        (junk services.length)).drop (services.length + 1)

section AddService

variable (junk : Nat → Nat → Option Addr)
variable {g : Registry} {services : List TGService}

/-- The registry after the new record was numbered, before it has a slot. -/
def withRecord (g : Registry) (pService : TGService) : Registry :=
  { g with objects := g.objects ++ [pService], sID := g.sID + 1 }

/-- A slot is free: the record goes into the first one. -/
theorem addService_free (hpacked : Packed g services) (pService : TGService)
    (hroom : services.length < g.gServicesCounts) :
    ∃ g', addService junk (withRecord g pService) services.length = some g' ∧
      Packed g' (services ++ [pService]) := by
  have harray : ∃ slots, g.gServices = some slots := by
    apply Option.ne_none_iff_exists'.mp
    intro hnone
    have hnil := hpacked.array.mp hnone
    have hcounts := hpacked.counts
    subst hnil
    simp only [List.length_nil, defaultServiceSize] at hroom hcounts
    omega
  obtain ⟨slots, hslots⟩ := harray
  have hlayout := hpacked.slots
  have hlength := hpacked.length_slots
  simp only [Registry.slots, hslots, Option.getD_some] at hlayout hlength
  obtain ⟨spare, hspare⟩ : ∃ spare,
      g.gServicesCounts - services.length = spare + 1 :=
    Nat.exists_eq_add_of_lt hroom |>.imp fun _ h => by omega
  rw [hspare, List.replicate_succ] at hlayout
  have hfind : SlotTable.scan slots Option.isNone g.gServicesCounts 0 =
      some (some services.length) := by
    rw [← hlength, SlotTable.scan_length, hlayout, List.findIdx?_append]
    have hnone : ((List.range services.length).map some).findIdx?
        Option.isNone = none := by simp
    simp [hnone, List.findIdx?_cons]
  have hlt : services.length < slots.length := by omega
  refine ⟨{ withRecord g pService with
    gServices := some (slots.set services.length (some services.length)) },
    ?_, ?_, ?_, ?_, ?_, ?_⟩
  · simp [addService, withRecord, hslots, hfind, Registry.storeService,
      Registry.slots, hlt]
  · simp [withRecord, hpacked.objects]
  · simp [withRecord, hpacked.number]
  · simp
  · have hcounts := hpacked.counts
    rw [defaultServiceSize] at hcounts ⊢
    simp only [withRecord, List.length_append, List.length_singleton]
    omega
  · simp only [Registry.slots, Option.getD_some, withRecord,
      List.length_append, List.length_singleton]
    have hset := List.set_append_right
      (s := (List.range services.length).map some)
      (t := none :: List.replicate spare none) services.length
      (some services.length) (by simp)
    rw [hlayout, hset, List.range_succ, List.map_append]
    have hrest : g.gServicesCounts - (services.length + 1) = spare := by omega
    simp [hrest]

/-- No slot is free: the array grows and the record goes behind the old
slots. -/
theorem addService_grow (hpacked : Packed g services) (pService : TGService)
    (hfull : services.length = g.gServicesCounts) :
    ∃ g', addService junk (withRecord g pService) services.length = some g' ∧
      Grown junk g' services pService := by
  have hstart : (appendGServiceArrayCount junk (withRecord g pService)).slots =
      (List.range services.length).map some ++
        ((List.range (services.length + defaultServiceSize)).map
          (junk services.length)).drop services.length := by
    have hlayout := hpacked.slots
    rw [← hfull, Nat.sub_self, List.replicate_zero, List.append_nil] at hlayout
    cases hslots : g.gServices with
    | none =>
        have hnil := hpacked.array.mp hslots
        subst hnil
        simp only [List.length_nil] at hfull
        simp [appendGServiceArrayCount, Registry.slots, withRecord, hslots,
          ← hfull]
    | some slots =>
        simp only [Registry.slots, hslots, Option.getD_some] at hlayout
        simp only [appendGServiceArrayCount, Registry.slots, withRecord, hslots,
          ← hfull, Option.getD_some]
        rw [hlayout, List.take_of_length_le (by simp)]
  have hlength : services.length <
      (appendGServiceArrayCount junk (withRecord g pService)).slots.length := by
    rw [hstart]
    simp [defaultServiceSize]
  have hstore : addService junk (withRecord g pService) services.length =
      (appendGServiceArrayCount junk (withRecord g pService)).storeService
        services.length services.length := by
    cases hslots : g.gServices with
    | none =>
        have hnil := hpacked.array.mp hslots
        subst hnil
        simp [addService, withRecord, hslots]
    | some slots =>
        have hlayout := hpacked.slots
        have hcount := hpacked.length_slots
        simp only [Registry.slots, hslots, Option.getD_some] at hlayout hcount
        rw [← hfull, Nat.sub_self, List.replicate_zero, List.append_nil]
          at hlayout
        have hscan : SlotTable.scan slots Option.isNone g.gServicesCounts 0 =
            some none := by
          rw [← hcount, SlotTable.scan_length, hlayout]
          simp
        rw [← hfull] at hscan
        simp [addService, withRecord, hslots, hscan, ← hfull]
  refine ⟨{ appendGServiceArrayCount junk (withRecord g pService) with
    gServices := some
      ((appendGServiceArrayCount junk (withRecord g pService)).slots.set
        services.length (some services.length)) }, ?_, ?_, ?_, ?_, ?_, ?_⟩
  · rw [hstore, Registry.storeService, if_pos hlength]
  · simp [appendGServiceArrayCount, withRecord, hpacked.objects]
  · simp [appendGServiceArrayCount, withRecord, hpacked.number]
  · simp
  · simp [appendGServiceArrayCount, withRecord, hfull]
  · rw [hstart]
    simp only [Registry.slots, Option.getD_some]
    rw [List.set_append_right _ _ (by simp), List.drop_eq_getElem_cons
      (by simp [defaultServiceSize])]
    simp

end AddService

namespace Grown

variable {junk : Nat → Nat → Option Addr} {g : Registry}
variable {services : List TGService} {pService : TGService}

theorem slot_behind (hgrown : Grown junk g services pService) {i : Nat}
    (hlow : services.length < i)
    (hhigh : i < services.length + defaultServiceSize) :
    g.slots[i]? = some (junk services.length i) := by
  obtain ⟨d, rfl⟩ := Nat.exists_eq_add_of_lt hlow
  have hindex : services.length + d + 1 - services.length = d + 1 := by omega
  have hback : services.length + 1 + d = services.length + d + 1 := by omega
  rw [hgrown.slots, List.getElem?_append_right (by simp; omega),
    List.length_map, List.length_range, hindex, List.getElem?_cons_succ,
    List.getElem?_drop, hback, List.getElem?_map, List.getElem?_range hhigh,
    Option.map_some]

theorem packed (hgrown : Grown junk g services pService)
    (hdivides : services.length % defaultServiceSize = 0)
    (hcleared : Cleared junk services.length) :
    Packed g (services ++ [pService]) where
  objects := hgrown.objects
  number := by simp [hgrown.number]
  array := by simp [hgrown.array]
  counts := by
    rw [defaultServiceSize] at hdivides
    simp only [hgrown.counts, List.length_append, List.length_singleton,
      defaultServiceSize]
    omega
  slots := by
    rw [hgrown.slots, List.length_append, List.length_singleton,
      List.range_succ, List.map_append, List.append_assoc]
    congr 1
    rw [List.map_singleton, List.singleton_append, List.cons.injEq]
    refine ⟨rfl, ?_⟩
    apply List.ext_getElem
    · simp [hgrown.counts]
    · intro i hi _
      rw [List.getElem_drop, List.getElem_map, List.getElem_range,
        List.getElem_replicate]
      simp only [List.length_drop, List.length_map, List.length_range] at hi
      apply hcleared <;> omega

/-- Only cleared memory leaves the other slots NULL. -/
theorem cleared (hgrown : Grown junk g services pService)
    (hholds : Holds g (services ++ [pService])) :
    Cleared junk services.length := by
  intro i hlow hhigh
  have hempty := hholds.empty i (by rw [List.length_append]; exact hlow)
    (by rw [hgrown.counts]; exact hhigh)
  rw [hgrown.slot_behind hlow hhigh, Option.some.injEq] at hempty
  exact hempty

end Grown

/-- After every initial part of the calls the array is as it should be. -/
def AlwaysHolds (junk : Nat → Nat → Option Addr) (g : Registry)
    (services : List TGService) (calls : List LoadCall) : Prop :=
  ∀ done rest, calls = done ++ rest →
    ∃ g', loadServices junk done g = some g' ∧
      Holds g' (services ++ records done services.length)

/-- What a call does to a packed array. -/
theorem loadService_packed (junk : Nat → Nat → Option Addr) {g : Registry}
    {services : List TGService} (hpacked : Packed g services)
    (call : LoadCall) :
    (call.record services.length = none ∧ loadService junk g call = some g) ∨
    ∃ pService g', call.record services.length = some pService ∧
      loadService junk g call = some g' ∧
      ((services.length % defaultServiceSize ≠ 0 ∧
          Packed g' (services ++ [pService])) ∨
        services.length % defaultServiceSize = 0 ∧
          Grown junk g' services pService) := by
  rw [← hpacked.number]
  cases hrecord : call.record g.sID with
  | none => exact Or.inl ⟨rfl, loadService_skip junk g hrecord⟩
  | some pService =>
      refine Or.inr ⟨pService, ?_⟩
      have hload := loadService_add junk g hrecord
      rw [hpacked.objects] at hload
      have hcounts := hpacked.counts
      rw [defaultServiceSize] at hcounts ⊢
      by_cases hroom : services.length < g.gServicesCounts
      · obtain ⟨g', hadd, hnext⟩ := addService_free junk hpacked pService hroom
        rw [withRecord, hpacked.objects] at hadd
        exact ⟨g', rfl, hload.trans hadd, Or.inl ⟨by omega, hnext⟩⟩
      · have hle := hpacked.le_counts
        obtain ⟨g', hadd, hnext⟩ :=
          addService_grow junk hpacked pService (by omega)
        rw [withRecord, hpacked.objects] at hadd
        exact ⟨g', rfl, hload.trans hadd, Or.inr ⟨by omega, hnext⟩⟩

theorem alwaysHolds_cons (junk : Nat → Nat → Option Addr) {g g' : Registry}
    {services : List TGService} {call : LoadCall} {calls : List LoadCall}
    (hholds : Holds g services) (hload : loadService junk g call = some g') :
    AlwaysHolds junk g services (call :: calls) ↔
      ∀ done rest, calls = done ++ rest →
        ∃ g'', loadServices junk done g' = some g'' ∧
          Holds g'' (services ++ records (call :: done) services.length) := by
  constructor
  · intro halways done rest hcalls
    obtain ⟨g'', hrun, hholds⟩ :=
      halways (call :: done) rest (by rw [hcalls, List.cons_append])
    rw [loadServices, hload] at hrun
    exact ⟨g'', hrun, hholds⟩
  · intro htail done rest hcalls
    cases done with
    | nil => exact ⟨g, rfl, by simpa [records] using hholds⟩
    | cons head done =>
        rw [List.cons_append, List.cons.injEq] at hcalls
        obtain ⟨rfl, hcalls⟩ := hcalls
        obtain ⟨g'', hrun, hholds⟩ := htail done rest hcalls
        refine ⟨g'', ?_, hholds⟩
        rw [loadServices, hload]
        exact hrun

/-- From a packed array on, the array stays as it should be exactly when each
array allocated on the way is cleared behind its first new slot. -/
theorem alwaysHolds_iff (junk : Nat → Nat → Option Addr) {g : Registry}
    {services : List TGService} (hpacked : Packed g services)
    (calls : List LoadCall) :
    AlwaysHolds junk g services calls ↔
      ∀ n, services.length ≤ n →
        n < services.length + (records calls services.length).length →
        n % defaultServiceSize = 0 → Cleared junk n := by
  induction calls generalizing g services with
  | nil =>
      constructor
      · intro _ n hlow hhigh
        simp only [records, List.length_nil] at hhigh
        omega
      · intro _ done rest hcalls
        obtain ⟨rfl, -⟩ := List.append_eq_nil_iff.mp hcalls.symm
        exact ⟨g, rfl, by simpa [records] using hpacked.holds⟩
  | cons call calls ih =>
      rcases loadService_packed junk hpacked call with
        ⟨hnone, hload⟩ | ⟨pService, g', hsome, hload, hnext⟩
      · rw [alwaysHolds_cons junk hpacked.holds hload]
        simp only [records, hnone]
        exact ih hpacked
      · rw [alwaysHolds_cons junk hpacked.holds hload]
        have hrecords : ∀ calls, services ++ records (call :: calls)
            services.length = services ++ [pService] ++
              records calls (services ++ [pService]).length := by
          intro calls
          simp [records, hsome]
        have hlength : (records (call :: calls) services.length).length =
            (records calls (services ++ [pService]).length).length + 1 := by
          simp [records, hsome]
        simp only [hrecords, hlength]
        change AlwaysHolds junk g' (services ++ [pService]) calls ↔ _
        rcases hnext with ⟨hmod, hnext⟩ | ⟨hmod, hgrown⟩
        · rw [ih hnext]
          simp only [List.length_append, List.length_cons, List.length_nil]
          constructor
          · intro hclear n hlow hhigh hn
            have hne : n ≠ services.length := fun heq => hmod (heq ▸ hn)
            exact hclear n (by omega) (by omega) hn
          · intro hclear n hlow hhigh hn
            exact hclear n (by omega) (by omega) hn
        · constructor
          · intro halways
            have hfirst : Holds g' (services ++ [pService]) := by
              obtain ⟨g'', hrun, hholds⟩ := halways [] calls rfl
              rw [loadServices, Option.some.injEq] at hrun
              subst hrun
              simpa [records] using hholds
            have hcleared := hgrown.cleared hfirst
            have htail := (ih (hgrown.packed hmod hcleared)).mp halways
            simp only [List.length_append, List.length_cons, List.length_nil]
              at htail ⊢
            intro n hlow hhigh hn
            rcases Nat.eq_or_lt_of_le hlow with rfl | hlt
            · exact hcleared
            · exact htail n (by omega) (by omega) hn
          · intro hclear
            have hcleared := hclear services.length (Nat.le_refl _)
              (by simp) hmod
            rw [ih (hgrown.packed hmod hcleared)]
            simp only [List.length_append, List.length_cons, List.length_nil]
              at hclear ⊢
            intro n hlow hhigh hn
            exact hclear n (by omega) (by omega) hn

/-- On an empty registry every load leaves the array as it should be if and
only if each of the arrays allocated for them comes with NULL in all of its
slots behind the first new one. -/
theorem loadService_slots_iff (junk : Nat → Nat → Option Addr)
    (calls : List LoadCall) :
    (∀ done rest, calls = done ++ rest →
      ∃ g, loadServices junk done Registry.initial = some g ∧
        Holds g (records done 0)) ↔
    ∀ n, n < (records calls 0).length → n % defaultServiceSize = 0 →
      Cleared junk n := by
  have halways := alwaysHolds_iff junk packed_initial calls
  simp only [AlwaysHolds, List.nil_append, List.length_nil, Nat.zero_le,
    true_implies, Nat.zero_add, Int.natCast_zero] at halways
  exact halways

/-- Where the arrays come with NULLs in their new slots, they stay packed. -/
theorem loadServices_cleared {junk : Nat → Nat → Option Addr}
    (hclear : ∀ n, Cleared junk n) (calls : List LoadCall) {g : Registry}
    {services : List TGService} (hpacked : Packed g services) :
    ∃ g', loadServices junk calls g = some g' ∧
      Packed g' (services ++ records calls services.length) := by
  induction calls generalizing g services with
  | nil => exact ⟨g, rfl, by simpa [records] using hpacked⟩
  | cons call calls ih =>
      rcases loadService_packed junk hpacked call with
        ⟨hnone, hload⟩ | ⟨pService, g', hsome, hload, hnext⟩
      · simp only [loadServices, hload, records, hnone]
        exact ih hpacked
      · have hnext' : Packed g' (services ++ [pService]) := by
          rcases hnext with ⟨-, hnext⟩ | ⟨hmod, hgrown⟩
          · exact hnext
          · exact hgrown.packed hmod (hclear _)
        obtain ⟨g'', hrun, hlast⟩ := ih hnext'
        refine ⟨g'', ?_, ?_⟩
        · rw [loadServices, hload]
          exact hrun
        · simpa [records, hsome] using hlast

/-- Fresh memory that is zero keeps the array packed. -/
theorem loadServices_packed (calls : List LoadCall) {g : Registry}
    {services : List TGService} (hpacked : Packed g services) :
    ∃ g', loadServices (fun _ _ => none) calls g = some g' ∧
      Packed g' (services ++ records calls services.length) :=
  loadServices_cleared (fun _ _ _ _ => rfl) calls hpacked

namespace ServiceArray

/-- A plugin with its five functions at the addresses 1 to 5. -/
def echo : LoadCall :=
  ⟨ascii "plugins/echo", some ⟨some 1, some 2, some 3, some 4, some 5⟩, 0⟩

/-- Memory whose words all hold the same address. -/
def dirty : Nat → Nat → Option Addr := fun _ _ => some 9

/-- One load into a block that was not zero. -/
theorem loadService_slots_dirty :
    (loadServices dirty [echo] Registry.initial).map
        (fun g => (g.gServicesCounts, g.slots.take 3)) =
      some (10, [some 0, some 9, some 9]) ∧
    ¬ ∃ g, loadServices dirty [echo] Registry.initial = some g ∧
      Holds g (records [echo] 0) := by
  refine ⟨by decide, ?_⟩
  rintro ⟨g, hload, hholds⟩
  have hslot : (loadServices dirty [echo] Registry.initial).map
      (fun g => (g.gServicesCounts, g.slots[1]?)) = some (10, some (some 9)) := by
    decide
  rw [hload, Option.map_some, Option.some.injEq, Prod.mk.injEq] at hslot
  have hempty := hholds.empty 1 (by decide) (by rw [hslot.1]; decide)
  rw [hslot.2] at hempty
  cases hempty

end ServiceArray

end TgServer
