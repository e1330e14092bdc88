/-
The parameter arrays of the services: which texts `setServiceCreateParameters`
has stored for each record, across the allocations it makes.
-/
import TgServer.ServiceArray
import Mathlib.Logic.Function.Basic

namespace TgServer

open Bytes

/-- The parameters of a record, up to its counter. -/
def parameterTexts (g : Registry) (pSer : TGService) :
    Option (List (List Byte)) :=
  match pSer.parameters with
  | none => some []
  | some ppara => do
      let block ← (← g.blocks[ppara]?)
      if pSer.parCounts ≤ block.length then
        (block.take pSer.parCounts).mapM id
      else none

/-- The record at the start of the loops over names; NULL and the empty name
are looked up by nobody. -/
def lookupN (g : Registry) (name : List Byte) : Option (Option Addr) :=
  if name = [] then some none
  else (searchServices (probeN g name) g).map Prod.snd

theorem setServiceCreateParametersByN_eq (g : Registry)
    (name para : List Byte) :
    setServiceCreateParametersByN g (some name) para =
      (lookupN g name).bind fun
        | none => some g
        | some a => setServiceCreateParameters g a para := by
  cases name with
  | nil => rfl
  | cons c cs =>
      rw [setServiceCreateParametersByN, lookupN, if_neg (List.cons_ne_nil c cs)]
      cases searchServices (probeN g (c :: cs)) g with
      | none => rfl
      | some result =>
          obtain ⟨n, found⟩ := result
          cases found <;> rfl

/-- A record found by its name is there. -/
theorem lookupN_found {g : Registry} {name : List Byte} {a : Addr}
    (hlookup : lookupN g name = some (some a)) :
    ∃ pSer, g.objects[a]? = some pSer := by
  rw [lookupN] at hlookup
  split at hlookup
  · cases hlookup
  · rw [Option.map_eq_some_iff] at hlookup
    obtain ⟨⟨n, found⟩, hsearch, hfound⟩ := hlookup
    rw [searchServices] at hsearch
    dsimp only at hfound
    split at hsearch
    · rw [hfound, Option.some.injEq] at hsearch
      cases hsearch
    · rw [hfound] at hsearch
      have hprobe := SlotTable.search_found hsearch
      simp only [probeN, Option.bind_eq_bind, Option.bind_eq_some_iff] at hprobe
      obtain ⟨pSer, hget, -⟩ := hprobe
      exact ⟨pSer, hget⟩

/-- The loops over names see the same in both registries. -/
structure SameNames (g g' : Registry) : Prop where
  array : g'.gServices = g.gServices
  names : g'.objects.map TGService.serviceName =
    g.objects.map TGService.serviceName

theorem SameNames.refl (g : Registry) : SameNames g g := ⟨rfl, rfl⟩

theorem SameNames.trans {g g' g'' : Registry} (hfirst : SameNames g g')
    (hsecond : SameNames g' g'') : SameNames g g'' :=
  ⟨hsecond.array.trans hfirst.array, hsecond.names.trans hfirst.names⟩

theorem SameNames.lookupN {g g' : Registry} (hsame : SameNames g g')
    (name : List Byte) : lookupN g' name = lookupN g name := by
  have hprobe : probeN g' name = probeN g name := by
    funext a
    have hname := congrArg (·[a]?) hsame.names
    simp only [List.getElem?_map] at hname
    rw [probeN, probeN]
    cases hnew : g'.objects[a]? with
    | none =>
        rw [hnew, Option.map_none, eq_comm, Option.map_eq_none_iff] at hname
        rw [hname]
    | some pNew =>
        rw [hnew, Option.map_some, eq_comm, Option.map_eq_some_iff] at hname
        obtain ⟨pOld, hold, hnames⟩ := hname
        rw [hold, Option.bind_eq_bind, Option.bind_some, Option.bind_eq_bind,
          Option.bind_some, hnames]
  rw [TgServer.lookupN, TgServer.lookupN, searchServices, searchServices,
    hprobe, hsame.array]

/-- A record and the texts stored for it: the array is as long as its last
allocation made it, and NULL behind them. -/
structure ParameterOwner (g : Registry) (pSer : TGService)
    (texts : List (List Byte)) : Prop where
  counts : pSer.parCounts = texts.length
  missing : pSer.parameters = none → texts = []
  block : ∀ ppara, pSer.parameters = some ppara → texts ≠ [] ∧ ∃ spare,
    g.blocks[ppara]? =
      some (some (texts.map some ++ List.replicate spare none)) ∧
    (texts.length + spare) % serviceDefaultParaCounts = 0 ∧
    spare < serviceDefaultParaCounts

/-- Each record owns its array. -/
structure Owned (g : Registry) (texts : Addr → List (List Byte)) : Prop where
  owner : ∀ {a : Addr} {pSer : TGService}, g.objects[a]? = some pSer →
    ParameterOwner g pSer (texts a)
  apart : ∀ {a b : Addr} {pSer pOther : TGService} {ppara : Addr},
    g.objects[a]? = some pSer → g.objects[b]? = some pOther →
    pSer.parameters = some ppara → pOther.parameters = some ppara → a = b

theorem ParameterOwner.parameterTexts {g : Registry} {pSer : TGService}
    {texts : List (List Byte)} (howner : ParameterOwner g pSer texts) :
    parameterTexts g pSer = some texts := by
  rw [TgServer.parameterTexts]
  cases hparameters : pSer.parameters with
  | none => rw [howner.missing hparameters]
  | some ppara =>
      obtain ⟨-, spare, hblock, -⟩ := howner.block ppara hparameters
      have hfit : texts.length ≤
          (texts.map some ++ List.replicate spare none).length := by simp
      simp only [hblock, Option.bind_eq_bind, Option.bind_some, howner.counts,
        if_pos hfit]
      rw [List.take_left' (List.length_map ..)]
      exact SlotTable.mapM_of_map (List.map_id _)

/-- The texts of all records, in the order they were registered. -/
theorem Owned.parameterTexts {g : Registry} {texts : Addr → List (List Byte)}
    (howned : Owned g texts) :
    g.objects.mapM (parameterTexts g) =
      some ((List.range g.objects.length).map texts) := by
  apply SlotTable.mapM_of_map
  apply List.ext_getElem
  · simp
  · intro a ha _
    rw [List.length_map] at ha
    have howner := howned.owner (List.getElem?_eq_getElem ha)
    simp [howner.parameterTexts]

section Loading

/-- No record has parameters yet. -/
def Unset (g : Registry) : Prop :=
  ∀ pSer ∈ g.objects, pSer.parameters = none ∧ pSer.parCounts = 0

theorem Unset.owned {g : Registry} (hunset : Unset g) :
    Owned g fun _ => [] := by
  constructor
  · intro a pSer hget
    obtain ⟨hnone, hzero⟩ := hunset pSer (List.mem_of_getElem? hget)
    refine ⟨hzero, fun _ => rfl, fun ppara hsome => ?_⟩
    rw [hnone] at hsome
    cases hsome
  · intro a b pSer pOther ppara hget _ hsome _
    rw [(hunset pSer (List.mem_of_getElem? hget)).1] at hsome
    cases hsome

/-- The records, their arrays and the number of the next one are the same. -/
structure SameRecords (g g' : Registry) : Prop where
  objects : g'.objects = g.objects
  blocks : g'.blocks = g.blocks
  number : g'.sID = g.sID

theorem storeService_records {g g' : Registry} {i : Nat} {pSer : Addr}
    (hstore : g.storeService i pSer = some g') : SameRecords g g' := by
  rw [Registry.storeService] at hstore
  split at hstore
  · exact Option.some.inj hstore ▸ ⟨rfl, rfl, rfl⟩
  · cases hstore

theorem addService_records {junk : Nat → Nat → Option Addr} {g g' : Registry}
    {pSer : Addr} (hadd : addService junk g pSer = some g') :
    SameRecords g g' := by
  have hgrown : ∀ {i}, (appendGServiceArrayCount junk g).storeService i pSer =
      some g' → SameRecords g g' := by
    intro i hstore
    obtain ⟨hobjects, hblocks, hnumber⟩ := storeService_records hstore
    exact ⟨hobjects, hblocks, hnumber⟩
  rw [addService] at hadd
  split at hadd
  · exact hgrown hadd
  · simp only [Option.bind_eq_bind, Option.bind_eq_some_iff] at hadd
    obtain ⟨found, -, hadd⟩ := hadd
    cases found with
    | none => exact hgrown hadd
    | some i => exact storeService_records hadd

theorem LoadCall.record_unset {call : LoadCall} {sID : Int}
    {pService : TGService} (hrecord : call.record sID = some pService) :
    pService.parameters = none ∧ pService.parCounts = 0 := by
  rw [LoadCall.record] at hrecord
  split at hrecord
  · cases hrecord
  · simp only [Option.bind_eq_bind, Option.bind_eq_some_iff,
      Option.pure_def, Option.some.injEq] at hrecord
    obtain ⟨_, _, _, _, _, _, _, _, _, _, _, _, rfl⟩ := hrecord
    exact ⟨rfl, rfl⟩

/-- Loading adds records without parameters. -/
theorem Unset.loadServices {junk : Nat → Nat → Option Addr}
    {calls : List LoadCall} {g g' : Registry} (hunset : Unset g)
    (hload : loadServices junk calls g = some g') : Unset g' := by
  induction calls generalizing g with
  | nil =>
      obtain rfl := Option.some.inj hload
      exact hunset
  | cons call rest ih =>
      rw [TgServer.loadServices, Option.bind_eq_bind, Option.bind_eq_some_iff]
        at hload
      obtain ⟨mid, hcall, hrest⟩ := hload
      refine ih ?_ hrest
      cases hrecord : call.record g.sID with
      | none =>
          rw [loadService_skip junk g hrecord] at hcall
          exact Option.some.inj hcall ▸ hunset
      | some pService =>
          rw [loadService_add junk g hrecord] at hcall
          rw [Unset, (addService_records hcall).objects]
          intro pSer hmem
          rcases List.mem_append.mp hmem with hold | hnew
          · exact hunset pSer hold
          · obtain rfl := List.mem_singleton.mp hnew
            exact LoadCall.record_unset hrecord

/-- A record behind a load is an old one or the one that was added. -/
theorem loaded_object {g g' : Registry} {pService pSer : TGService}
    (hobjects : g'.objects = g.objects ++ [pService]) {a : Addr}
    (hget : g'.objects[a]? = some pSer) :
    g.objects[a]? = some pSer ∨ a = g.objects.length ∧ pSer = pService := by
  rw [hobjects] at hget
  by_cases hlt : a < g.objects.length
  · rw [List.getElem?_append_left hlt] at hget
    exact Or.inl hget
  · have hle := Nat.le_of_not_lt hlt
    rw [List.getElem?_append_right hle] at hget
    have hsingle := (List.getElem?_eq_some_iff.mp hget).1
    rw [List.length_singleton, Nat.lt_one_iff, Nat.sub_eq_zero_iff_le]
      at hsingle
    have ha : a = g.objects.length := Nat.le_antisymm hsingle hle
    rw [ha, Nat.sub_self, List.getElem?_cons_zero, Option.some.injEq] at hget
    exact Or.inr ⟨ha, hget.symm⟩

/-- A record without an array shares none. -/
theorem loaded_apart {g g' : Registry} {pService : TGService}
    (hobjects : g'.objects = g.objects ++ [pService])
    (hnone : pService.parameters = none)
    (hapart : ∀ {a b : Addr} {pSer pOther : TGService} {ppara : Addr},
      g.objects[a]? = some pSer → g.objects[b]? = some pOther →
      pSer.parameters = some ppara → pOther.parameters = some ppara → a = b)
    {a b : Addr} {pSer pOther : TGService} {ppara : Addr}
    (hget : g'.objects[a]? = some pSer) (hother : g'.objects[b]? = some pOther)
    (hsome : pSer.parameters = some ppara)
    (hshared : pOther.parameters = some ppara) : a = b := by
  rcases loaded_object hobjects hget with hold | ⟨-, rfl⟩
  · rcases loaded_object hobjects hother with hold' | ⟨-, rfl⟩
    · exact hapart hold hold' hsome hshared
    · rw [hnone] at hshared
      cases hshared
  · rw [hnone] at hsome
    cases hsome

/-- A record without parameters owns nothing. -/
theorem Owned.add {g : Registry} {lists : Addr → List (List Byte)}
    (howned : Owned g lists) (hfree : lists g.objects.length = [])
    {pService : TGService} (hnone : pService.parameters = none)
    (hzero : pService.parCounts = 0) {g' : Registry}
    (hobjects : g'.objects = g.objects ++ [pService])
    (hblocks : g'.blocks = g.blocks) : Owned g' lists := by
  constructor
  · intro a pSer hget
    rcases loaded_object hobjects hget with hold | ⟨rfl, rfl⟩
    · obtain ⟨hcounts, hmissing, hblock⟩ := howned.owner hold
      exact ⟨hcounts, hmissing, hblocks ▸ hblock⟩
    · refine ⟨by rw [hzero, hfree]; rfl, fun _ => hfree, fun ppara hsome => ?_⟩
      rw [hnone] at hsome
      cases hsome
  · exact loaded_apart hobjects hnone howned.apart

/-- A record with an array no other has shares none. -/
theorem stored_apart {objects : List TGService} {pNew : TGService} {a : Addr}
    (hfresh : ∀ {b : Addr} {pOther : TGService} {ppara : Addr}, b ≠ a →
      objects[b]? = some pOther → pOther.parameters = some ppara →
      pNew.parameters ≠ some ppara)
    (hapart : ∀ {b c : Addr} {pFirst pSecond : TGService} {ppara : Addr},
      objects[b]? = some pFirst → objects[c]? = some pSecond →
      pFirst.parameters = some ppara → pSecond.parameters = some ppara → b = c)
    {b c : Addr} {pFirst pSecond : TGService} {ppara : Addr}
    (hfirst : (objects.set a pNew)[b]? = some pFirst)
    (hsecond : (objects.set a pNew)[c]? = some pSecond)
    (hsome : pFirst.parameters = some ppara)
    (hshared : pSecond.parameters = some ppara) : b = c := by
  rcases SlotTable.set_cases hfirst with ⟨rfl, rfl⟩ | ⟨hne, hold⟩
  · rcases SlotTable.set_cases hsecond with ⟨rfl, -⟩ | ⟨hne, hold⟩
    · rfl
    · exact absurd hsome (hfresh hne hold hshared)
  · rcases SlotTable.set_cases hsecond with ⟨rfl, rfl⟩ | ⟨-, hold'⟩
    · exact absurd hshared (hfresh hne hold hsome)
    · exact hapart hold hold' hsome hshared

end Loading

section Push

variable {g : Registry} {pSer : TGService} {texts : List (List Byte)}

/-- The array `setServiceCreateParameters` stores into has room for one more
text; no other array is touched. -/
theorem parameterRoom_parameterOwner (howner : ParameterOwner g pSer texts) :
    ∃ ppara spare g', parameterRoom g pSer = some (ppara,
        texts.map some ++ List.replicate (spare + 1) none,
        { pSer with parameters := some ppara, parCounts := texts.length },
        g') ∧
      (texts.length + (spare + 1)) % serviceDefaultParaCounts = 0 ∧
      spare < serviceDefaultParaCounts ∧ ppara < g'.blocks.length ∧
      (pSer.parameters = some ppara ∨ ppara = g.blocks.length) ∧
      (∀ q < g.blocks.length, pSer.parameters ≠ some q →
        g'.blocks[q]? = g.blocks[q]?) ∧
      g'.objects = g.objects ∧ g'.gServices = g.gServices := by
  rw [parameterRoom]
  cases hparameters : pSer.parameters with
  | none =>
      obtain rfl := howner.missing hparameters
      refine ⟨g.blocks.length, 4, _, rfl, by decide, by decide, ?_, Or.inr rfl,
        ?_, rfl, rfl⟩
      · simp
      · intro q hq _
        exact List.getElem?_append_left hq
  | some ppara =>
      obtain ⟨hsome, spare, hblock, hmod, hspare⟩ :=
        howner.block ppara hparameters
      have hlt := (List.getElem?_eq_some_iff.mp hblock).1
      have hpos := List.length_pos_iff.mpr hsome
      simp only [hblock, Option.bind_eq_bind, Option.bind_some, howner.counts]
      rw [serviceDefaultParaCounts] at hmod hspare ⊢
      cases spare with
      | zero =>
          -- the array is full and a longer one takes its place
          have hfull : texts.length ≠ 0 ∧ texts.length % 5 = 0 := by omega
          have hroom : texts.length + 5 - texts.length = 5 := by omega
          simp only [if_pos hfull, List.replicate_zero, List.append_nil,
            List.length_map, Nat.lt_irrefl, ↓reduceIte, hroom,
            List.take_of_length_le (Nat.le_of_eq (List.length_map some))]
          refine ⟨g.blocks.length, 4, _, rfl, by omega, by decide, ?_,
            Or.inr rfl, ?_, rfl, rfl⟩
          · simp
          · intro q hq hother
            have hne : ppara ≠ q := fun heq => hother (congrArg some heq)
            rw [List.getElem?_append_left (by rwa [List.length_set]),
              List.getElem?_set_ne hne]
      | succ spare =>
          have hroom : ¬(texts.length ≠ 0 ∧ texts.length % 5 = 0) := by omega
          rw [if_neg hroom]
          refine ⟨ppara, spare, g, ?_, hmod, by omega, hlt, Or.inl rfl,
            fun _ _ _ => rfl, rfl, rfl⟩
          rw [← hparameters, ← howner.counts]

/-- With the text in its array, and the arrays of the others as they were, each
record again owns its array. -/
theorem Owned.stored {lists : Addr → List (List Byte)} (howned : Owned g lists)
    {a : Addr} (hget : g.objects[a]? = some pSer) {para : List Byte}
    {ppara spare : Nat} {mid : Registry} (hlt : ppara < mid.blocks.length)
    (hplace : pSer.parameters = some ppara ∨ ppara = g.blocks.length)
    (hothers : ∀ q < g.blocks.length, pSer.parameters ≠ some q →
      mid.blocks[q]? = g.blocks[q]?)
    (hmod : ((lists a).length + (spare + 1)) % serviceDefaultParaCounts = 0)
    (hspare : spare < serviceDefaultParaCounts) :
    Owned { mid with
        blocks := mid.blocks.set ppara
          (some ((lists a ++ [para]).map some ++ List.replicate spare none))
        objects := g.objects.set a { pSer with
          parameters := some ppara, parCounts := (lists a).length + 1 } }
      (Function.update lists a (lists a ++ [para])) := by
  have hbelow : ∀ {b : Addr} {pOther : TGService} {q : Addr},
      g.objects[b]? = some pOther → pOther.parameters = some q →
      q < g.blocks.length := by
    intro b pOther q hother hq
    obtain ⟨-, spare, hblock, -⟩ := (howned.owner hother).block q hq
    exact (List.getElem?_eq_some_iff.mp hblock).1
  have hfresh : ∀ {b : Addr} {pOther : TGService} {q : Addr}, b ≠ a →
      g.objects[b]? = some pOther → pOther.parameters = some q →
      some ppara ≠ some q := by
    intro b pOther q hne hother hq hsame
    obtain rfl := Option.some.inj hsame
    rcases hplace with hplace | hplace
    · exact hne (howned.apart hother hget hq hplace)
    · exact Nat.lt_irrefl _ (hplace ▸ hbelow hother hq)
  constructor
  · intro b pOther hother
    rcases SlotTable.set_cases hother with ⟨rfl, rfl⟩ | ⟨hne, hother⟩
    · rw [Function.update_self]
      refine ⟨by simp, fun hnone => absurd hnone (Option.some_ne_none _), ?_⟩
      intro q hq
      obtain rfl := Option.some.inj hq
      refine ⟨by simp, spare, List.getElem?_set_self hlt, ?_, hspare⟩
      rw [List.length_append, List.length_singleton, Nat.add_assoc,
        Nat.add_comm 1]
      exact hmod
    · rw [Function.update_of_ne hne]
      have howner := howned.owner hother
      refine ⟨howner.counts, howner.missing, ?_⟩
      intro q hq
      obtain ⟨hsome, room, hblock, hrest⟩ := howner.block q hq
      have hother' : ppara ≠ q := fun heq =>
        hfresh hne hother hq (congrArg some heq)
      refine ⟨hsome, room, ?_, hrest⟩
      rw [← hblock]
      refine (List.getElem?_set_ne hother').trans ?_
      refine hothers q (hbelow hother hq) fun hshared => ?_
      exact hne (howned.apart hother hget hq hshared)
  · exact stored_apart hfresh howned.apart

/-- A text is stored behind those the record has, and nothing else changes. -/
theorem Owned.push {lists : Addr → List (List Byte)} (howned : Owned g lists)
    {a : Addr} (hget : g.objects[a]? = some pSer) (para : List Byte) :
    ∃ g', setServiceCreateParameters g a para = some g' ∧ SameNames g g' ∧
      g'.objects.length = g.objects.length ∧
      Owned g' (Function.update lists a (lists a ++ [para])) := by
  obtain ⟨ppara, spare, mid, hroom, hmod, hspare, hlt, hplace, hothers,
    hobjects, harray⟩ := parameterRoom_parameterOwner (howned.owner hget)
  have hfit : (lists a).length <
      ((lists a).map some ++ List.replicate (spare + 1) none).length := by
    simp
  have hstore : ((lists a).map some ++ List.replicate (spare + 1) none).set
      (lists a).length (some para) =
        (lists a ++ [para]).map some ++ List.replicate spare none := by
    rw [List.set_append_right _ _ (by simp), List.length_map, Nat.sub_self,
      List.replicate_succ, List.set_cons_zero]
    simp
  have ha := (List.getElem?_eq_some_iff.mp hget).1
  refine ⟨{ mid with
    blocks := mid.blocks.set ppara
      (some ((lists a ++ [para]).map some ++ List.replicate spare none))
    objects := mid.objects.set a { pSer with
      parameters := some ppara, parCounts := (lists a).length + 1 } },
    ?_, ⟨harray, ?_⟩, ?_, ?_⟩
  · simp only [setServiceCreateParameters, hget, hroom, Option.bind_eq_bind,
      Option.bind_some, if_pos hfit, hstore, Option.pure_def]
  · have hname : (g.objects.map TGService.serviceName)[a]? =
        some pSer.serviceName := by
      rw [List.getElem?_map, hget, Option.map_some]
    obtain ⟨hlt, hself⟩ := List.getElem?_eq_some_iff.mp hname
    rw [hobjects, List.map_set, ← hself, List.set_getElem_self hlt]
  · rw [List.length_set, hobjects]
  · rw [hobjects]
    exact howned.stored hget hlt hplace hothers hmod hspare

/-- One more text at one record. -/
theorem update_append (lists : Addr → List (List Byte)) (a : Addr)
    (para : List Byte) :
    Function.update lists a (lists a ++ [para]) = fun b =>
      lists b ++ if some a = some b then [para] else [] := by
  funext b
  by_cases hb : b = a
  · subst hb
    simp
  · have hother : ¬(some a = some b) := by simpa using Ne.symm hb
    rw [if_neg hother, Function.update_of_ne hb, List.append_nil]

/-- One record has another array or counter; the array of services is as it
was. -/
structure Updates (g g' : Registry) (a : Addr) : Prop where
  selected : ∃ pSer parameters parCounts, g.objects[a]? = some pSer ∧
    g'.objects = g.objects.set a
      { pSer with parameters := parameters, parCounts := parCounts }
  array : g'.gServices = g.gServices
  counts : g'.gServicesCounts = g.gServicesCounts
  number : g'.sID = g.sID

theorem parameterRoom_frame {ppara : Addr} {block : ParameterBlock}
    {pNew : TGService} {mid : Registry}
    (hroom : parameterRoom g pSer = some (ppara, block, pNew, mid)) :
    (∃ parameters parCounts,
      pNew = { pSer with parameters := parameters, parCounts := parCounts }) ∧
    ∃ blocks, mid = { g with blocks := blocks } := by
  rw [parameterRoom] at hroom
  cases hparameters : pSer.parameters with
  | none =>
      simp only [hparameters, Option.some.injEq, Prod.mk.injEq] at hroom
      obtain ⟨-, -, rfl, rfl⟩ := hroom
      exact ⟨⟨_, _, rfl⟩, _, rfl⟩
  | some old =>
      simp only [hparameters, Option.bind_eq_bind, Option.bind_eq_some_iff]
        at hroom
      obtain ⟨_, -, _, -, hroom⟩ := hroom
      split at hroom
      · split at hroom
        · cases hroom
        · simp only [Option.some.injEq, Prod.mk.injEq] at hroom
          obtain ⟨-, -, rfl, rfl⟩ := hroom
          exact ⟨⟨_, _, rfl⟩, _, rfl⟩
      · simp only [Option.some.injEq, Prod.mk.injEq] at hroom
        obtain ⟨-, -, rfl, rfl⟩ := hroom
        exact ⟨⟨_, _, rfl⟩, _, rfl⟩

theorem setServiceCreateParameters_updates {g' : Registry} {a : Addr}
    {para : List Byte}
    (hpush : setServiceCreateParameters g a para = some g') :
    Updates g g' a := by
  simp only [setServiceCreateParameters, Option.bind_eq_bind,
    Option.bind_eq_some_iff] at hpush
  obtain ⟨pSer, hget, ⟨ppara, block, pNew, mid⟩, hroom, hpush⟩ := hpush
  obtain ⟨⟨parameters, parCounts, rfl⟩, blocks, rfl⟩ :=
    parameterRoom_frame hroom
  split at hpush
  · obtain rfl := Option.some.inj hpush
    exact ⟨⟨pSer, _, _, hget, rfl⟩, rfl, rfl, rfl⟩
  · cases hpush

end Push

end TgServer
