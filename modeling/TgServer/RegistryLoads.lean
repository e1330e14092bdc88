/-
The directories of services that are loaded one after the other, and what the
lookup of a name returns in between: loading does not read the parameters, and
a service once found stays found.
-/
import TgServer.ServiceLookup
import TgServer.Configuration

namespace TgServer

open Bytes

/-- The calls of `__load_services` for these directories. -/
def loadDirs (host : Host) (dirs : List (List Byte)) (g : Registry) :
    Option Registry :=
  dirs.foldlM (fun g dir =>
    loadServices host.junk (host.loadCalls dir) g) g

/-- The record without its parameters. -/
def TGService.bare (pS : TGService) : TGService :=
  { pS with parameters := none, parCounts := 0 }

namespace Registry

/-- The services without their parameters. -/
def bare (g : Registry) : Registry :=
  { g with objects := g.objects.map TGService.bare, blocks := [] }

/-- The counter is the size of the array. -/
def Sized (g : Registry) : Prop := g.slots.length = g.gServicesCounts

theorem bare_length (g : Registry) :
    g.bare.objects.length = g.objects.length := List.length_map _

theorem sameNames_bare (g : Registry) : SameNames g g.bare where
  array := rfl
  names := by
    rw [bare, List.map_map]
    rfl

end Registry

section Bare

variable (junk : Nat → Nat → Option Addr)

theorem storeService_bare (g : Registry) (i : Nat) (pSer : Addr) :
    g.bare.storeService i pSer =
      (g.storeService i pSer).map Registry.bare := by
  rw [Registry.storeService, Registry.storeService]
  change (if i < g.slots.length then _ else _) = _
  split <;> rfl

theorem addService_bare (g : Registry) (pSer : Addr) :
    addService junk g.bare pSer = (addService junk g pSer).map .bare := by
  have hgrown := storeService_bare (appendGServiceArrayCount junk g)
  have harray : g.bare.gServices = g.gServices := rfl
  rw [addService, addService, harray]
  cases g.gServices with
  | none => exact hgrown 0 pSer
  | some slots =>
      change (SlotTable.scan slots Option.isNone g.gServicesCounts 0).bind _ =
        ((SlotTable.scan slots Option.isNone g.gServicesCounts 0).bind _).map _
      cases SlotTable.scan slots Option.isNone g.gServicesCounts 0 with
      | none => rfl
      | some found =>
          cases found with
          | none => exact hgrown g.gServicesCounts pSer
          | some i => exact storeService_bare g i pSer

/-- A load neither reads nor makes parameters. -/
theorem loadService_bare (g : Registry) (call : LoadCall) :
    loadService junk g.bare call = (loadService junk g call).map .bare := by
  cases hrecord : call.record g.sID with
  | none =>
      have hbare : call.record g.bare.sID = none := hrecord
      rw [loadService_skip junk g hrecord, loadService_skip junk g.bare hbare]
      rfl
  | some pService =>
      have hbare : call.record g.bare.sID = some pService := hrecord
      have hsame : pService.bare = pService := by
        obtain ⟨hnone, hzero⟩ := LoadCall.record_unset hrecord
        rw [TGService.bare, ← hnone, ← hzero]
      rw [loadService_add junk g hrecord, loadService_add junk g.bare hbare,
        g.bare_length, ← addService_bare, Registry.bare, Registry.bare,
        List.map_append, List.map_singleton, hsame]

theorem loadServices_bare (calls : List LoadCall) (g : Registry) :
    loadServices junk calls g.bare =
      (loadServices junk calls g).map .bare := by
  induction calls generalizing g with
  | nil => rfl
  | cons call calls ih =>
      rw [loadServices, loadServices, loadService_bare]
      cases loadService junk g call with
      | none => rfl
      | some next => exact ih next

end Bare

/-- Nor does setting a parameter change anything else. -/
theorem Updates.bare {g g' : Registry} {a : Addr}
    (hupdates : Updates g g' a) : g'.bare = g.bare := by
  obtain ⟨array, counts, number⟩ :=
    And.intro hupdates.array (And.intro hupdates.counts hupdates.number)
  have hobjects : g'.objects.map TGService.bare =
      g.objects.map TGService.bare := hupdates.map fun _ _ _ => rfl
  rw [Registry.bare, Registry.bare, hobjects, array, counts, number]

theorem lookupN_bare {g g' : Registry} (hbare : g'.bare = g.bare)
    (name : List Byte) : lookupN g' name = lookupN g name := by
  rw [← g'.sameNames_bare.lookupN name, hbare, g.sameNames_bare.lookupN name]

section Sized

variable (junk : Nat → Nat → Option Addr) {g g' : Registry}

theorem storeService_sized (hsized : g.Sized) {i : Nat} (hi : i < g.slots.length)
    (pSer : Addr) :
    ∃ g', g.storeService i pSer = some g' ∧ g'.Sized ∧
      g'.slots = g.slots.set i (some pSer) ∧ SameRecords g g' := by
  refine ⟨_, if_pos hi, ?_, rfl, rfl, rfl, rfl⟩
  rw [Registry.Sized, Registry.slots, Option.getD_some, List.length_set]
  exact hsized

theorem append_slots (hsized : g.Sized) :
    (appendGServiceArrayCount junk g).Sized ∧
      ∃ fresh, (appendGServiceArrayCount junk g).slots = g.slots ++ fresh ∧
        0 < fresh.length := by
  obtain ⟨fresh, hfresh, hslots⟩ : ∃ fresh : List (Option Addr),
      fresh.length = defaultServiceSize ∧
        (appendGServiceArrayCount junk g).slots = g.slots ++ fresh := by
    rw [Registry.Sized] at hsized
    refine ⟨((List.range (g.gServicesCounts + defaultServiceSize)).map
      (junk g.gServicesCounts)).drop g.gServicesCounts, by simp, ?_⟩
    rw [appendGServiceArrayCount, Registry.slots, Option.getD_some]
    cases hservices : g.gServices with
    | none =>
        have hnil : g.slots = [] := by rw [Registry.slots, hservices]; rfl
        rw [hnil, List.length_nil] at hsized
        rw [hnil, ← hsized]
        rfl
    | some old =>
        have hold : g.slots = old := by rw [Registry.slots, hservices]; rfl
        rw [hold] at hsized ⊢
        simp only [List.take_of_length_le (Nat.le_of_eq hsized)]
  refine ⟨?_, fresh, hslots, by rw [hfresh]; decide⟩
  rw [Registry.Sized, hslots, List.length_append, hfresh, hsized]
  rfl

/-- The entries the array starts with stay where they are. -/
def Keeps (g g' : Registry) : Prop :=
  ∀ front : List Addr, front.map some <+: g.slots → front.map some <+: g'.slots

theorem begins_set {front slots : List (Option Addr)} (hfront : front <+: slots)
    {i : Nat} (hi : front.length ≤ i) (slot : Option Addr) :
    front <+: slots.set i slot := by
  obtain ⟨rest, rfl⟩ := hfront
  rw [List.set_append_right _ _ hi]
  exact List.prefix_append _ _

/-- A record is put into the first empty slot, or behind all of them. -/
theorem addService_sized (hsized : g.Sized) (pSer : Addr) :
    ∃ g', addService junk g pSer = some g' ∧ g'.Sized ∧ SameRecords g g' ∧
      Keeps g g' := by
  obtain ⟨hgrown, fresh, hslots, hpos⟩ := append_slots junk hsized
  have hbehind : ∃ g', (appendGServiceArrayCount junk g).storeService
      g.gServicesCounts pSer = some g' ∧ g'.Sized ∧ SameRecords g g' ∧
      Keeps g g' := by
    rw [← hsized]
    have hroom : g.slots.length <
        (appendGServiceArrayCount junk g).slots.length := by
      rw [hslots, List.length_append]
      exact Nat.lt_add_of_pos_right hpos
    obtain ⟨g', hstore, hnext, hset, hobjects, hblocks, hnumber⟩ :=
      storeService_sized hgrown hroom pSer
    refine ⟨g', hstore, hnext, ⟨hobjects, hblocks, hnumber⟩, ?_⟩
    intro front hfront
    rw [hset, hslots]
    exact begins_set (hfront.trans (List.prefix_append _ _))
      hfront.length_le _
  rw [addService]
  cases hservices : g.gServices with
  | none =>
      have hzero : g.gServicesCounts = 0 := by
        rw [← hsized, Registry.slots, hservices]
        rfl
      rw [hzero] at hbehind
      exact hbehind
  | some slots =>
      have hown : g.slots = slots := by rw [Registry.slots, hservices]; rfl
      have hscan := SlotTable.scan_length slots Option.isNone
      rw [← hown, hsized] at hscan
      simp only [← hown, hscan, Option.bind_eq_bind, Option.bind_some]
      cases hfind : g.slots.findIdx? Option.isNone with
      | none => exact hbehind
      | some i =>
          obtain ⟨hi, hnone, -⟩ := List.findIdx?_eq_some_iff_getElem.mp hfind
          obtain ⟨g', hstore, hnext, hset, hrecords⟩ :=
            storeService_sized hsized hi pSer
          refine ⟨g', hstore, hnext, hrecords, ?_⟩
          intro front hfront
          rw [hset]
          refine begins_set hfront ?_ _
          by_contra hlt
          have hlt := Nat.lt_of_not_le hlt
          rw [← hfront.getElem (by simpa using hlt), List.getElem_map] at hnone
          cases hnone

/-- A load is always possible; it adds a record without parameters or
nothing. -/
theorem loadService_sized (hsized : g.Sized) (call : LoadCall) :
    ∃ g', loadService junk g call = some g' ∧ g'.Sized ∧ Keeps g g' ∧
      g'.blocks = g.blocks ∧ (g'.objects = g.objects ∨
        ∃ pService, g'.objects = g.objects ++ [pService] ∧
          pService.parameters = none ∧ pService.parCounts = 0) := by
  cases hrecord : call.record g.sID with
  | none =>
      exact ⟨g, loadService_skip junk g hrecord, hsized, fun _ h => h, rfl,
        Or.inl rfl⟩
  | some pService =>
      let numbered : Registry :=
        { g with objects := g.objects ++ [pService], sID := g.sID + 1 }
      have hnumbered : numbered.Sized := hsized
      obtain ⟨g', hadd, hnext, ⟨hobjects, hblocks, -⟩, hkeeps⟩ :=
        addService_sized junk hnumbered g.objects.length
      refine ⟨g', (loadService_add junk g hrecord).trans hadd, hnext, hkeeps,
        hblocks, Or.inr ⟨pService, hobjects, ?_⟩⟩
      exact LoadCall.record_unset hrecord

/-- What a name finds, it finds afterwards. -/
def FindsToo (g g' : Registry) : Prop :=
  ∀ name a, lookupN g name = some (some a) → lookupN g' name = some (some a)

theorem probeN_stays (hobjects : g.objects <+: g'.objects) {name : List Byte}
    {a : Addr} {probe : SlotTable.Probe} (hprobe : probeN g name a = some probe) :
    probeN g' name a = some probe := by
  simp only [probeN, Option.bind_eq_bind, Option.bind_eq_some_iff] at hprobe ⊢
  obtain ⟨pS, hget, hrest⟩ := hprobe
  obtain ⟨hlt, hself⟩ := List.getElem?_eq_some_iff.mp hget
  refine ⟨pS, ?_, hrest⟩
  rw [List.getElem?_eq_getElem (Nat.lt_of_lt_of_le hlt hobjects.length_le),
    ← hobjects.getElem hlt, hself]

theorem Keeps.findsToo (hkeeps : Keeps g g')
    (hobjects : g.objects <+: g'.objects) : FindsToo g g' := by
  intro name a hlookup
  rw [lookupN] at hlookup ⊢
  split at hlookup
  · cases hlookup
  · next hname =>
      rw [if_neg hname]
      rw [searchServices] at hlookup ⊢
      cases hservices : g.gServices with
      | none =>
          rw [hservices] at hlookup
          cases hlookup
      | some slots =>
          simp only [hservices, Option.map_eq_some_iff] at hlookup
          obtain ⟨⟨n, found⟩, hsearch, hfound⟩ := hlookup
          obtain rfl : found = some a := hfound
          obtain ⟨front, rest, hslots, hfront⟩ := SlotTable.search_split hsearch
          have hentry := SlotTable.search_found hsearch
          obtain ⟨behind, hbehind⟩ := hkeeps (front ++ [a]) (by
            rw [Registry.slots, hservices, Option.getD_some, hslots,
              List.map_append, List.map_singleton]
            exact ⟨rest, by simp⟩)
          cases hservices' : g'.gServices with
          | none =>
              rw [Registry.slots, hservices'] at hbehind
              simp at hbehind
          | some slots' =>
              rw [Registry.slots, hservices', Option.getD_some, List.map_append,
                List.map_singleton, List.append_assoc,
                List.singleton_append] at hbehind
              have hreached := SlotTable.search_reached
                (fun other hother => probeN_stays hobjects (hfront other hother))
                (probeN_stays hobjects hentry) behind
              rw [hbehind] at hreached
              simp only [hreached, Option.map_some]

/-- A registry whose services have these parameters, with nothing set for the
records to come. -/
structure Holding (g : Registry) (lists : Addr → List (List Byte)) : Prop where
  sized : g.Sized
  owned : Owned g lists
  free : ∀ a, g.objects.length ≤ a → lists a = []

variable {lists : Addr → List (List Byte)}

theorem Holding.loadService (hholding : Holding g lists) (call : LoadCall) :
    ∃ g', loadService junk g call = some g' ∧ Holding g' lists ∧
      FindsToo g g' := by
  obtain ⟨hsized, howned, hfree⟩ := hholding
  obtain ⟨g', hload, hnext, hkeeps, hblocks, hobjects | hadded⟩ :=
    loadService_sized junk hsized call
  · refine ⟨g', hload, ⟨hnext, ?_, by rwa [hobjects]⟩, hkeeps.findsToo ?_⟩
    · constructor
      · intro a pSer hget
        rw [hobjects] at hget
        obtain ⟨hcounts, hmissing, hblock⟩ := howned.owner hget
        exact ⟨hcounts, hmissing, hblocks ▸ hblock⟩
      · rw [hobjects]
        exact howned.apart
    · exact hobjects ▸ List.prefix_rfl
  · obtain ⟨pService, hobjects, hnone, hzero⟩ := hadded
    refine ⟨g', hload, ⟨hnext, ?_, ?_⟩, hkeeps.findsToo ?_⟩
    · exact howned.add (hfree _ (Nat.le_refl _)) hnone hzero hobjects hblocks
    · intro a ha
      rw [hobjects, List.length_append] at ha
      exact hfree a (Nat.le_of_add_right_le ha)
    · rw [hobjects]
      exact List.prefix_append _ _

theorem Holding.loadServices (hholding : Holding g lists)
    (calls : List LoadCall) :
    ∃ g', loadServices junk calls g = some g' ∧ Holding g' lists ∧
      FindsToo g g' := by
  induction calls generalizing g with
  | nil => exact ⟨g, rfl, hholding, fun _ _ h => h⟩
  | cons call calls ih =>
      obtain ⟨mid, hcall, hmid, hfirst⟩ :=
        hholding.loadService junk call
      obtain ⟨g', hrest, hnext, hsecond⟩ := ih hmid
      refine ⟨g', ?_, hnext, fun name a h => hsecond name a (hfirst name a h)⟩
      rw [TgServer.loadServices, hcall]
      exact hrest

/-- Every directory can be loaded, and leaves what is set and what is found. -/
theorem Holding.loadDirs (hholding : Holding g lists) (host : Host)
    (dirs : List (List Byte)) :
    ∃ g', loadDirs host dirs g = some g' ∧ Holding g' lists ∧
      FindsToo g g' := by
  induction dirs generalizing g with
  | nil => exact ⟨g, rfl, hholding, fun _ _ h => h⟩
  | cons dir dirs ih =>
      obtain ⟨mid, hcalls, hmid, hfirst⟩ :=
        hholding.loadServices host.junk (host.loadCalls dir)
      obtain ⟨g', hrest, hnext, hsecond⟩ := ih hmid
      refine ⟨g', ?_, hnext, fun name a h => hsecond name a (hfirst name a h)⟩
      rw [TgServer.loadDirs, List.foldlM_cons, hcalls]
      exact hrest

/-- A parameter is appended where its name is found, if it is. -/
theorem Holding.push (hholding : Holding g lists) {found : Option Addr}
    {name : List Byte} (hlookup : lookupN g name = some found)
    (para : List Byte) :
    ∃ g', setServiceCreateParametersByN g (some name) para = some g' ∧
      g'.bare = g.bare ∧ Holding g' fun b =>
        lists b ++ if found = some b then [para] else [] := by
  have hset := setServiceCreateParametersByN_eq g name para
  rw [hlookup, Option.bind_some] at hset
  cases found with
  | none => exact ⟨g, hset, rfl, by simpa using hholding⟩
  | some a =>
      obtain ⟨pSer, hget⟩ := lookupN_found hlookup
      have hlt := (List.getElem?_eq_some_iff.mp hget).1
      obtain ⟨g', hpush, -, hlength, hnext⟩ := hholding.owned.push hget para
      have hbare := (setServiceCreateParameters_updates hpush).bare
      refine ⟨g', hset.trans hpush, hbare, ?_, ?_, ?_⟩
      · have hsized : g.bare.Sized := hholding.sized
        rwa [← hbare] at hsized
      · rwa [← update_append]
      · intro b hb
        rw [hlength] at hb
        have hne : ¬(some a = some b) := by
          rw [Option.some.injEq]
          exact Nat.ne_of_lt (Nat.lt_of_lt_of_le hlt hb)
        rw [hholding.free b hb, if_neg hne, List.nil_append]

theorem holding_initial : Holding Registry.initial fun _ => [] := by
  refine ⟨rfl, Unset.owned ?_, fun _ _ => rfl⟩
  intro pSer hpSer
  cases hpSer

/-- Every registry that calls of the program build. -/
theorem holding_of_reachable
    (hreach : (registryMachine junk).Reachable g) :
    ∃ lists, Holding g lists := by
  refine @Transition.Machine.Reachable.invariant _ _ _
    (fun g => ∃ lists, Holding g lists) ⟨_, holding_initial⟩ ?_ g hreach
  rintro state act next ⟨lists, hholding⟩ hstep
  cases act with
  | loadService call =>
      obtain ⟨g', hload, hnext, -⟩ := hholding.loadService junk call
      exact ⟨lists, Option.some.inj (hload.symm.trans hstep) ▸ hnext⟩
  | setServiceCreateParametersByN name para =>
      cases name with
      | none => exact ⟨lists, Option.some.inj hstep ▸ hholding⟩
      | some name =>
          cases hlookup : lookupN state name with
          | none =>
              have hset := setServiceCreateParametersByN_eq state name para
              rw [hlookup] at hset
              cases hset.symm.trans hstep
          | some found =>
              obtain ⟨g', hpush, -, hnext⟩ := hholding.push hlookup para
              exact ⟨_, Option.some.inj (hpush.symm.trans hstep) ▸ hnext⟩
  | createAllServices pData =>
      obtain ⟨⟨calls, last⟩, hcreate, rfl⟩ := Option.map_eq_some_iff.mp hstep
      have hsame := createAllServices_same hcreate
      refine ⟨lists, ?_, hsame.owned hholding.owned, ?_⟩
      · have hsized := hholding.sized
        rw [hsame.rest]
        exact hsized
      · rw [hsame.length]
        exact hholding.free

end Sized

end TgServer
