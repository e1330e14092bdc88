/-
Pushes of parameters on the copies `findServiceI` and `findServiceN` hand out,
between those by name: a copy has a counter of its own and the array of the
service, and a push on it stores into that array, or frees it.
-/
import TgServer.ParameterArrays
import TgServer.RegistryLoads
import TgServer.ServiceCopy

namespace TgServer

open Bytes Transition

/-- `setServiceCreateParameters` on a record, wherever it is. -/
def pushParameter (g : Registry) (pSer : TGService) (para : List Byte) :
    Option (TGService × Registry) := do
  let (ppara, block, pSer, g) ← parameterRoom g pSer
  if pSer.parCounts < block.length then
    let block := block.set pSer.parCounts para
    return ({ pSer with parCounts := pSer.parCounts + 1 },
      { g with blocks := g.blocks.set ppara (some block) })
  else none

/-- The registry and the pointers the lookups returned; `pushed` remembers
which texts were pushed by name, and on which service. -/
structure Sharing where
  registry : Registry
  copies : List (Option TGService)
  pushed : List (Addr × List Byte)
deriving Repr, DecidableEq

/-- `copy` is the place of a pointer among those the lookups returned. -/
inductive SharingCall where
  | loadService (call : LoadCall)
  | setServiceCreateParametersByN (name : Option (List Byte))
      (para : List Byte)
  | find (lookup : Lookup)
  | setServiceCreateParameters (copy : Nat) (para : List Byte)

namespace Sharing

def start : Sharing := ⟨Registry.initial, [], []⟩

/-- The service a push by name goes to. -/
def receiver (s : Sharing) (name : Option (List Byte)) : Option Addr :=
  (name.bind (lookupN s.registry)).join

def step (junk : Nat → Nat → Option Addr) (s : Sharing) :
    SharingCall → Option Sharing
  | .loadService call =>
      (loadService junk s.registry call).map fun g => { s with registry := g }
  | .setServiceCreateParametersByN name para =>
      (setServiceCreateParametersByN s.registry name para).map fun g =>
        { s with
          registry := g
          pushed := s.pushed ++ (s.receiver name).toList.map (·, para) }
  | .find lookup =>
      (lookup.result s.registry).map fun pService =>
        { s with copies := s.copies ++ [pService] }
  | .setServiceCreateParameters copy para =>
      match (s.copies[copy]?).join with
      | none => some s
      | some pSer =>
          (pushParameter s.registry pSer para).map fun (pSer, g) =>
            { s with registry := g, copies := s.copies.set copy (some pSer) }

/-- The parameters of every registered service are in a block that is
allocated, and up to its counter those pushed on it by name. -/
def Consistent (s : Sharing) : Prop :=
  ∀ a pSer, s.registry.objects[a]? = some pSer →
    HoldsTexts s.registry pSer (pushedOn a s.pushed)

end Sharing

/-- The array of the record is not freed, and a push frees no array of a
registered service and changes no text there. -/
def Registry.Spared (g : Registry) (pSer : TGService) (para : List Byte) :
    Prop :=
  ∀ ppara ∈ pSer.parameters, ∃ block ∈ (g.blocks[ppara]?).join,
    ∀ pOther ∈ g.objects, pOther.parameters = some ppara →
      pSer.parCounts % serviceDefaultParaCounts ≠ 0 ∧
      (pOther.parCounts ≤ pSer.parCounts ∨
        block[pSer.parCounts]? = some (some para))

namespace Sharing

/-- The searches stay in the array of services, and a push on a copy is on one
whose array, if it has any, is not freed, and spares the services. -/
def Harmless (s : Sharing) : SharingCall → Prop
  | .loadService _ => True
  | .setServiceCreateParametersByN name _ =>
      ∀ text ∈ name, (lookupN s.registry text).isSome
  | .find lookup => (lookup.result s.registry).isSome
  | .setServiceCreateParameters copy para =>
      ∀ pSer ∈ (s.copies[copy]?).join, s.registry.Spared pSer para

end Sharing

def sharingMachine (junk : Nat → Nat → Option Addr) :
    Machine Sharing SharingCall := ⟨Sharing.start, Sharing.step junk⟩

/-- Every call of the sequence returns, and leaves the registry consistent. -/
def KeepsRegistry (junk : Nat → Nat → Option Addr)
    (calls : List SharingCall) : Prop :=
  ∀ past, past <+: calls → ∃ s, (sharingMachine junk).run .start past = some s ∧
    s.Consistent

/-- The two forms of `setServiceCreateParameters`. -/
theorem setServiceCreateParameters_eq (g : Registry) (a : Addr)
    (para : List Byte) :
    setServiceCreateParameters g a para =
      (g.objects[a]?).bind fun pSer =>
        (pushParameter g pSer para).map fun (pSer, g) =>
          { g with objects := g.objects.set a pSer } := by
  rw [setServiceCreateParameters]
  cases g.objects[a]? with
  | none => rfl
  | some pSer =>
      simp only [Option.bind_eq_bind, Option.bind_some, pushParameter]
      cases parameterRoom g pSer with
      | none => rfl
      | some room =>
          obtain ⟨ppara, block, pNew, mid⟩ := room
          simp only [Option.bind_some]
          split <;> rfl

/-- An array is allocated in steps of five, and the counter stands in the last
step or at its end. -/
structure Fits (g : Registry) (pSer : TGService) : Prop where
  allocated : ∀ ppara, pSer.parameters = some ppara → ppara < g.blocks.length
  room : ∀ ppara block, pSer.parameters = some ppara →
    g.blocks[ppara]? = some (some block) →
    0 < pSer.parCounts ∧ pSer.parCounts ≤ block.length ∧
    block.length < pSer.parCounts + serviceDefaultParaCounts ∧
    block.length % serviceDefaultParaCounts = 0

/-- What a push does: it allocates a first array, it replaces a full one, or
it stores into one with room. -/
inductive Pushed (g : Registry) (pSer : TGService) (para : List Byte) :
    TGService → Registry → Prop where
  | first (hnone : pSer.parameters = none) : Pushed g pSer para
      { pSer with parameters := some g.blocks.length, parCounts := 1 }
      { g with
        blocks := g.blocks ++ [some (some para :: List.replicate 4 none)] }
  | grow {ppara : Addr} {old : ParameterBlock}
      (hppara : pSer.parameters = some ppara)
      (hold : g.blocks[ppara]? = some (some old))
      (hmod : pSer.parCounts % serviceDefaultParaCounts = 0)
      (hfull : old.length = pSer.parCounts) : Pushed g pSer para
      { pSer with
        parameters := some g.blocks.length
        parCounts := pSer.parCounts + 1 }
      { g with blocks := g.blocks.set ppara none ++
          [some (old ++ some para :: List.replicate 4 none)] }
  | room {ppara : Addr} {old : ParameterBlock}
      (hppara : pSer.parameters = some ppara)
      (hold : g.blocks[ppara]? = some (some old))
      (hmod : pSer.parCounts % serviceDefaultParaCounts ≠ 0)
      (hlt : pSer.parCounts < old.length) : Pushed g pSer para
      { pSer with parCounts := pSer.parCounts + 1 }
      { g with blocks :=
          g.blocks.set ppara (some (old.set pSer.parCounts para)) }

section Push

variable {g g' : Registry} {pSer pNew pOther : TGService} {para : List Byte}

theorem pushParameter_first (hnone : pSer.parameters = none) :
    ∃ pNew g', pushParameter g pSer para = some (pNew, g') ∧
      Pushed g pSer para pNew g' := by
  refine ⟨_, _, ?_, .first hnone⟩
  rw [pushParameter, parameterRoom, hnone]
  simp [serviceDefaultParaCounts, List.replicate_succ]

theorem pushParameter_live (hfits : Fits g pSer) {ppara : Addr}
    {old : ParameterBlock} (hppara : pSer.parameters = some ppara)
    (hold : g.blocks[ppara]? = some (some old)) :
    ∃ pNew g', pushParameter g pSer para = some (pNew, g') ∧
      Pushed g pSer para pNew g' := by
  obtain ⟨hpos, hle, hstep, hmultiple⟩ := hfits.room ppara old hppara hold
  rw [serviceDefaultParaCounts] at hstep hmultiple
  by_cases hmod : pSer.parCounts % serviceDefaultParaCounts = 0
  · have hmod' : pSer.parCounts % 5 = 0 := hmod
    have hfull : old.length = pSer.parCounts := by omega
    refine ⟨_, _, ?_, .grow hppara hold hmod hfull⟩
    have hgrows : pSer.parCounts ≠ 0 ∧
        pSer.parCounts % serviceDefaultParaCounts = 0 :=
      ⟨Nat.ne_of_gt hpos, hmod⟩
    have hall : old.take pSer.parCounts = old :=
      List.take_of_length_le (Nat.le_of_eq hfull)
    have hlonger : parameterRoom g pSer = some (g.blocks.length,
        old ++ List.replicate serviceDefaultParaCounts none,
        { pSer with parameters := some g.blocks.length },
        { g with
          blocks := g.blocks.set ppara none ++
            [some (old ++ List.replicate serviceDefaultParaCounts none)] }) := by
      simp only [parameterRoom, hppara, hold, Option.bind_eq_bind,
        Option.bind_some, if_pos hgrows, hall, Nat.add_sub_cancel_left,
        if_neg (Nat.not_lt.mpr (Nat.le_of_eq hfull.symm))]
    rw [pushParameter, hlonger]
    simp [← hfull, serviceDefaultParaCounts, List.replicate_succ]
  · have hmod' : pSer.parCounts % 5 ≠ 0 := hmod
    have hlt : pSer.parCounts < old.length := by omega
    refine ⟨_, _, ?_, .room hppara hold hmod hlt⟩
    have hsame : parameterRoom g pSer = some (ppara, old, pSer, g) := by
      rw [parameterRoom]
      simp only [hppara, hold, Option.bind_eq_bind, Option.bind_some, hmod,
        and_false, if_false]
    rw [pushParameter, hsame]
    simp [hlt]

/-- A push on a copy whose array is gone reads or writes a freed block. -/
theorem pushParameter_freed {ppara : Addr}
    (hppara : pSer.parameters = some ppara)
    (hfreed : (g.blocks[ppara]?).join = none) :
    pushParameter g pSer para = none := by
  rw [pushParameter, parameterRoom, hppara]
  cases hblock : g.blocks[ppara]? with
  | none => simp [hblock]
  | some block =>
      rw [hblock, Option.join_some] at hfreed
      simp [hblock, hfreed]

/-- A push that returns is one of the three. -/
theorem pushParameter_pushed (hfits : Fits g pSer)
    (hpush : pushParameter g pSer para = some (pNew, g')) :
    Pushed g pSer para pNew g' := by
  obtain ⟨pNew', g'', hdone, hpushed⟩ : ∃ pNew g',
      pushParameter g pSer para = some (pNew, g') ∧
        Pushed g pSer para pNew g' := by
    cases hparameters : pSer.parameters with
    | none => exact pushParameter_first hparameters
    | some ppara =>
        cases hblock : (g.blocks[ppara]?).join with
        | none =>
            rw [pushParameter_freed hparameters hblock] at hpush
            cases hpush
        | some block =>
            exact pushParameter_live hfits hparameters
              (Option.join_eq_some_iff.mp hblock)
  rw [hpush, Option.some.injEq, Prod.mk.injEq] at hdone
  rw [hdone.1, hdone.2]
  exact hpushed

theorem holdsTexts_some {ppara : Addr} (hppara : pSer.parameters = some ppara)
    {texts : List (List Byte)} :
    HoldsTexts g pSer texts ↔ pSer.parCounts = texts.length ∧ texts ≠ [] ∧
      ∃ block, g.blocks[ppara]? = some (some block) ∧
        ∀ i < texts.length, block[i]? = some texts[i]? := by
  constructor
  · rintro ⟨hcounts, hunset, hslots⟩
    have hsome : texts ≠ [] := fun hnil =>
      absurd (hppara.symm.trans (hunset hnil)) (Option.some_ne_none _)
    obtain ⟨other, block, hother, hblock, htexts⟩ := hslots hsome
    obtain rfl := Option.some.inj (hppara.symm.trans hother)
    exact ⟨hcounts, hsome, block, hblock, htexts⟩
  · rintro ⟨hcounts, hsome, block, hblock, htexts⟩
    exact ⟨hcounts, fun hnil => absurd hnil hsome,
      fun _ => ⟨ppara, block, hppara, hblock, htexts⟩⟩

theorem holdsTexts_none (hnone : pSer.parameters = none)
    {texts : List (List Byte)} :
    HoldsTexts g pSer texts ↔ pSer.parCounts = 0 ∧ texts = [] := by
  constructor
  · rintro ⟨hcounts, -, hslots⟩
    have hnil : texts = [] := by
      by_contra hsome
      obtain ⟨ppara, -, hppara, -⟩ := hslots hsome
      exact absurd (hppara.symm.trans hnone) (Option.some_ne_none _)
    exact ⟨by rw [hcounts, hnil]; rfl, hnil⟩
  · rintro ⟨hzero, rfl⟩
    exact ⟨hzero, fun _ => hnone, fun hsome => absurd rfl hsome⟩

namespace Pushed

variable (hpushed : Pushed g pSer para pNew g')

include hpushed

theorem record : ∃ parameters parCounts, pNew =
    { pSer with parameters := parameters, parCounts := parCounts } := by
  cases hpushed <;> exact ⟨_, _, rfl⟩

theorem frame : ∃ blocks, g' = { g with blocks := blocks } := by
  cases hpushed <;> exact ⟨_, rfl⟩

theorem live {ppara : Addr} (hppara : pSer.parameters = some ppara) :
    ∃ block, g.blocks[ppara]? = some (some block) := by
  cases hpushed with
  | first hnone =>
      rw [hnone] at hppara
      cases hppara
  | grow hown hold _ _ =>
      obtain rfl := Option.some.inj (hown.symm.trans hppara)
      exact ⟨_, hold⟩
  | room hown hold _ _ =>
      obtain rfl := Option.some.inj (hown.symm.trans hppara)
      exact ⟨_, hold⟩

/-- The array is the one that was there, or a new one. -/
theorem array {ppara : Addr} (hppara : pNew.parameters = some ppara) :
    ppara = g.blocks.length ∨ pSer.parameters = some ppara := by
  cases hpushed with
  | first hnone => exact Or.inl (Option.some.inj hppara).symm
  | grow _ _ _ _ => exact Or.inl (Option.some.inj hppara).symm
  | room _ _ _ _ => exact Or.inr hppara

theorem length_le : g.blocks.length ≤ g'.blocks.length := by
  cases hpushed <;> simp

theorem block_other {q : Addr} (hq : q < g.blocks.length)
    (hother : pSer.parameters ≠ some q) : g'.blocks[q]? = g.blocks[q]? := by
  cases hpushed with
  | first _ => exact List.getElem?_append_left hq
  | grow hppara _ _ _ =>
      refine (List.getElem?_append_left (by rwa [List.length_set])).trans ?_
      exact List.getElem?_set_ne fun heq =>
        hother (hppara.trans (congrArg some heq))
  | room hppara _ _ _ =>
      exact List.getElem?_set_ne fun heq =>
        hother (hppara.trans (congrArg some heq))

/-- The block at an old address keeps its length or is freed. -/
theorem block_length {q : Addr} (hq : q < g.blocks.length)
    {block : ParameterBlock} (hblock : g'.blocks[q]? = some (some block)) :
    ∃ old, g.blocks[q]? = some (some old) ∧ old.length = block.length := by
  by_cases hshared : pSer.parameters = some q
  swap
  · rw [hpushed.block_other hq hshared] at hblock
    exact ⟨block, hblock, rfl⟩
  cases hpushed with
  | first hnone => rw [hnone] at hshared; cases hshared
  | grow hppara _ _ _ =>
      obtain rfl := Option.some.inj (hppara.symm.trans hshared)
      rw [List.getElem?_append_left (by rwa [List.length_set]),
        List.getElem?_set_self hq] at hblock
      cases hblock
  | room hppara hold _ _ =>
      obtain rfl := Option.some.inj (hppara.symm.trans hshared)
      rw [List.getElem?_set_self hq, Option.some.injEq, Option.some.injEq]
        at hblock
      exact ⟨_, hold, by rw [← hblock, List.length_set]⟩

theorem fits_other (hfits : Fits g pOther) : Fits g' pOther where
  allocated := fun ppara hppara =>
    Nat.lt_of_lt_of_le (hfits.allocated ppara hppara) hpushed.length_le
  room := by
    intro ppara block hppara hblock
    obtain ⟨old, hold, hlength⟩ :=
      hpushed.block_length (hfits.allocated ppara hppara) hblock
    rw [← hlength]
    exact hfits.room ppara old hppara hold

theorem fits_new (hfits : Fits g pSer) : Fits g' pNew := by
  cases hpushed with
  | first hnone =>
      constructor
      · intro ppara hppara
        obtain rfl := Option.some.inj hppara
        simp
      · intro ppara block hppara hblock
        obtain rfl := Option.some.inj hppara
        rw [List.getElem?_concat_length, Option.some.injEq,
          Option.some.injEq] at hblock
        subst hblock
        simp [serviceDefaultParaCounts]
  | grow hppara hold hmod hfull =>
      constructor
      · intro ppara hppara
        obtain rfl := Option.some.inj hppara
        simp
      · intro ppara block hppara hblock
        obtain rfl := Option.some.inj hppara
        rw [List.getElem?_append_right (by rw [List.length_set]),
          List.length_set, Nat.sub_self, List.getElem?_cons_zero,
          Option.some.injEq, Option.some.injEq] at hblock
        subst hblock
        rw [serviceDefaultParaCounts] at hmod ⊢
        simp only [List.length_append, hfull, List.length_cons,
          List.length_replicate]
        omega
  | room hppara hold hmod hlt =>
      obtain ⟨hpos, -, hstep, hmultiple⟩ := hfits.room _ _ hppara hold
      have hallocated := hfits.allocated _ hppara
      constructor
      · intro ppara hsame
        rw [List.length_set]
        exact hfits.allocated ppara hsame
      · intro ppara block hsame hblock
        obtain rfl := Option.some.inj (hppara.symm.trans hsame)
        rw [List.getElem?_set_self hallocated, Option.some.injEq,
          Option.some.injEq] at hblock
        rw [← hblock, List.length_set]
        exact ⟨Nat.succ_pos _, hlt, Nat.lt_succ_of_lt hstep, hmultiple⟩

/-- A service with another array, or none, does not notice. -/
theorem holds_apart (hapart : ∀ ppara, pSer.parameters = some ppara →
      pOther.parameters ≠ some ppara) (hfits : Fits g pOther)
    {texts : List (List Byte)} (hholds : HoldsTexts g pOther texts) :
    HoldsTexts g' pOther texts := by
  cases hother : pOther.parameters with
  | none =>
      rw [holdsTexts_none hother] at hholds ⊢
      exact hholds
  | some q =>
      rw [holdsTexts_some hother] at hholds ⊢
      rw [hpushed.block_other (hfits.allocated q hother)
        fun hshared => hapart q hshared hother]
      exact hholds

/-- A service with the same array keeps its texts exactly if the array is not
replaced and the slot is none of its own, or holds the text already. -/
theorem holds_shared_iff {ppara : Addr} {old : ParameterBlock}
    (hppara : pSer.parameters = some ppara)
    (hold : g.blocks[ppara]? = some (some old))
    (hother : pOther.parameters = some ppara) {texts : List (List Byte)}
    (hholds : HoldsTexts g pOther texts) :
    HoldsTexts g' pOther texts ↔
      pSer.parCounts % serviceDefaultParaCounts ≠ 0 ∧
      (pOther.parCounts ≤ pSer.parCounts ∨
        old[pSer.parCounts]? = some (some para)) := by
  have hallocated := (List.getElem?_eq_some_iff.mp hold).1
  rw [holdsTexts_some hother] at hholds ⊢
  obtain ⟨hcounts, hsome, block, hblock, htexts⟩ := hholds
  obtain rfl : old = block :=
    Option.some.inj (Option.some.inj (hold.symm.trans hblock))
  cases hpushed with
  | first hnone =>
      rw [hnone] at hppara
      cases hppara
  | grow hown _ hmod _ =>
      obtain rfl := Option.some.inj (hppara.symm.trans hown)
      refine ⟨?_, fun hkeeps => absurd hmod hkeeps.1⟩
      rintro ⟨-, -, block, hblock, -⟩
      rw [List.getElem?_append_left (by rwa [List.length_set]),
        List.getElem?_set_self hallocated] at hblock
      cases hblock
  | @room own block hown hown' hmod hlt =>
      obtain rfl : ppara = own := Option.some.inj (hppara.symm.trans hown)
      obtain rfl : old = block :=
        Option.some.inj (Option.some.inj (hold.symm.trans hown'))
      have hstored : (g.blocks.set ppara
          (some (old.set pSer.parCounts (some para))))[ppara]? =
          some (some (old.set pSer.parCounts (some para))) :=
        List.getElem?_set_self hallocated
      constructor
      · rintro ⟨-, -, block, hblock, hkept⟩
        obtain rfl : _ = block :=
          Option.some.inj (Option.some.inj (hstored.symm.trans hblock))
        refine ⟨hmod, ?_⟩
        by_contra hcon
        obtain ⟨hbelow, hdiffers⟩ := not_or.mp hcon
        have hinside : pSer.parCounts < texts.length := by omega
        have hnew := hkept _ hinside
        rw [List.getElem?_set_self hlt] at hnew
        exact hdiffers ((htexts _ hinside).trans hnew.symm)
      · rintro ⟨-, hplace⟩
        refine ⟨hcounts, hsome, _, hstored, fun i hi => ?_⟩
        rcases hplace with hbehind | hsame
        · rw [List.getElem?_set_ne (by omega)]
          exact htexts i hi
        · obtain ⟨_, hself⟩ := List.getElem?_eq_some_iff.mp hsame
          rw [← hself, List.set_getElem_self]
          exact htexts i hi

/-- The service itself has one more text. -/
theorem holds_new (hfits : Fits g pSer) {texts : List (List Byte)}
    (hholds : HoldsTexts g pSer texts) :
    HoldsTexts g' pNew (texts ++ [para]) := by
  have hsnoc : texts ++ [para] ≠ [] := by simp
  have hlast : (texts ++ [para])[texts.length]? = some para :=
    List.getElem?_concat_length
  have hfront : ∀ i < texts.length, (texts ++ [para])[i]? = texts[i]? :=
    fun i hi => List.getElem?_append_left hi
  cases hpushed with
  | first hnone =>
      obtain ⟨-, rfl⟩ := (holdsTexts_none hnone).mp hholds
      apply (holdsTexts_some rfl).mpr
      refine ⟨rfl, hsnoc, _, List.getElem?_concat_length, fun i hi => ?_⟩
      obtain rfl : i = 0 := Nat.lt_one_iff.mp hi
      rfl
  | @grow ppara old hppara hold hmod hfull =>
      obtain ⟨hcounts, -, block, hblock, htexts⟩ :=
        (holdsTexts_some hppara).mp hholds
      obtain rfl : old = block :=
        Option.some.inj (Option.some.inj (hold.symm.trans hblock))
      have hbehind : texts.length = old.length := hcounts.symm.trans hfull.symm
      have hblock : (g.blocks.set ppara none ++ [some (old ++ some para ::
            List.replicate 4 none)])[g.blocks.length]? =
          some (some (old ++ some para :: List.replicate 4 none)) := by
        rw [List.getElem?_append_right (by rw [List.length_set]),
          List.length_set, Nat.sub_self, List.getElem?_cons_zero]
      apply (holdsTexts_some rfl).mpr
      refine ⟨by simp [hcounts], hsnoc, _, hblock, fun i hi => ?_⟩
      rw [List.length_append, List.length_singleton] at hi
      by_cases hlt : i < texts.length
      · rw [hfront i hlt, List.getElem?_append_left (by omega)]
        exact htexts i hlt
      · obtain rfl : i = texts.length := by omega
        rw [hlast, hbehind, List.getElem?_append_right (Nat.le_refl _),
          Nat.sub_self, List.getElem?_cons_zero]
  | @room ppara old hppara hold hmod hlt =>
      obtain ⟨hcounts, -, block, hblock, htexts⟩ :=
        (holdsTexts_some hppara).mp hholds
      obtain rfl : old = block :=
        Option.some.inj (Option.some.inj (hold.symm.trans hblock))
      have hkept : { pSer with parCounts := pSer.parCounts + 1 }.parameters =
          some ppara := hppara
      apply (holdsTexts_some hkept).mpr
      refine ⟨by simp [hcounts], hsnoc, _,
        List.getElem?_set_self (hfits.allocated _ hppara), fun i hi => ?_⟩
      rw [List.length_append, List.length_singleton] at hi
      by_cases hbelow : i < texts.length
      · rw [hfront i hbelow, List.getElem?_set_ne (by omega)]
        exact htexts i hbelow
      · obtain rfl : i = texts.length := by omega
        rw [hlast, ← hcounts, List.getElem?_set_self hlt]

end Pushed

end Push

theorem Fits.of_blocks {g g' : Registry} (hblocks : g'.blocks = g.blocks)
    {pSer : TGService} (hfits : Fits g pSer) : Fits g' pSer :=
  ⟨hblocks ▸ hfits.allocated, hblocks ▸ hfits.room⟩

theorem Fits.unset {g : Registry} {pSer : TGService}
    (hnone : pSer.parameters = none) : Fits g pSer := by
  constructor
  · intro ppara hppara
    rw [hnone] at hppara
    cases hppara
  · intro ppara block hppara
    rw [hnone] at hppara
    cases hppara

theorem HoldsTexts.of_blocks {g g' : Registry} (hblocks : g'.blocks = g.blocks)
    {pSer : TGService} {texts : List (List Byte)}
    (hholds : HoldsTexts g pSer texts) : HoldsTexts g' pSer texts :=
  ⟨hholds.counts, hholds.unset, hblocks ▸ hholds.slots⟩

/-- A copy has the array and the counter of a registered service. -/
theorem Lookup.result_fits {g : Registry} {lookup : Lookup} {pCopy : TGService}
    (hresult : lookup.result g = some (some pCopy))
    (hfits : ∀ pSer ∈ g.objects, Fits g pSer) : Fits g pCopy := by
  simp only [Lookup.result_eq, copyFound, Option.bind_eq_bind,
    Option.bind_eq_some_iff] at hresult
  obtain ⟨⟨n, found⟩, -, hresult⟩ := hresult
  cases found with
  | none => cases hresult
  | some a =>
      simp only [Option.bind_eq_some_iff, Option.pure_def, Option.some.injEq]
        at hresult
      obtain ⟨pSource, hobject, copy, hcopy, rfl⟩ := hresult
      have hsource := hfits pSource (List.mem_of_getElem? hobject)
      rw [copyService] at hcopy
      split at hcopy
      · exact Option.some.inj hcopy ▸ hsource
      · simp only [Option.bind_eq_bind, Option.bind_eq_some_iff,
          Option.pure_def, Option.some.injEq] at hcopy
        obtain ⟨_, -, rfl⟩ := hcopy
        exact ⟨hsource.allocated, hsource.room⟩

namespace Sharing

/-- What a run of harmless calls keeps: registered services have arrays of
their own, and copies one that fits as long as it is not freed. -/
structure Sound (s : Sharing) : Prop where
  consistent : s.Consistent
  sized : s.registry.Sized
  services : ∀ pSer ∈ s.registry.objects, Fits s.registry pSer
  copies : ∀ pSer, some pSer ∈ s.copies → Fits s.registry pSer
  apart : ∀ {a b : Addr} {pSer pOther : TGService} {ppara : Addr},
    s.registry.objects[a]? = some pSer →
    s.registry.objects[b]? = some pOther →
    pSer.parameters = some ppara → pOther.parameters = some ppara → a = b
  free : ∀ a, s.registry.objects.length ≤ a → pushedOn a s.pushed = []

theorem sound_start : start.Sound where
  consistent := fun _ _ hget => by cases hget
  sized := rfl
  services := fun _ hmem => by cases hmem
  copies := fun _ hmem => by cases hmem
  apart := fun hget => by cases hget
  free := fun _ _ => rfl

section Steps

variable {s : Sharing} (hsound : s.Sound)

include hsound

theorem Sound.loadService (junk : Nat → Nat → Option Addr) (call : LoadCall) :
    ∃ g, TgServer.loadService junk s.registry call = some g ∧
      Sound { s with registry := g } := by
  obtain ⟨g, hload, hsized, -, hblocks, hsame | hnew⟩ :=
    loadService_sized junk hsound.sized call
  · refine ⟨g, hload, ?_, hsized, ?_, ?_, ?_, ?_⟩
    · intro a pSer hget
      rw [hsame] at hget
      exact (hsound.consistent a pSer hget).of_blocks hblocks
    · intro pSer hmem
      rw [hsame] at hmem
      exact (hsound.services pSer hmem).of_blocks hblocks
    · exact fun pSer hmem => (hsound.copies pSer hmem).of_blocks hblocks
    · rw [hsame]
      exact hsound.apart
    · rw [hsame]
      exact hsound.free
  · obtain ⟨pService, hobjects, hnone, hzero⟩ := hnew
    refine ⟨g, hload, ?_, hsized, ?_, ?_, ?_, ?_⟩
    · intro a pSer hget
      rcases loaded_object hobjects hget with hold | ⟨rfl, rfl⟩
      · exact (hsound.consistent a pSer hold).of_blocks hblocks
      · exact (holdsTexts_none hnone).mpr
          ⟨hzero, hsound.free _ (Nat.le_refl _)⟩
    · intro pSer hmem
      rw [hobjects] at hmem
      rcases List.mem_append.mp hmem with hold | hnew
      · exact (hsound.services pSer hold).of_blocks hblocks
      · rw [List.mem_singleton.mp hnew]
        exact .unset hnone
    · exact fun pSer hmem => (hsound.copies pSer hmem).of_blocks hblocks
    · exact loaded_apart hobjects hnone hsound.apart
    · intro a ha
      rw [hobjects, List.length_append] at ha
      exact hsound.free a (Nat.le_of_add_right_le ha)

theorem Sound.find {lookup : Lookup} {pService : Option TGService}
    (hresult : lookup.result s.registry = some pService) :
    Sound { s with copies := s.copies ++ [pService] } := by
  refine ⟨hsound.consistent, hsound.sized, hsound.services, ?_, hsound.apart,
    hsound.free⟩
  intro pSer hmem
  rcases List.mem_append.mp hmem with hold | hnew
  · exact hsound.copies pSer hold
  · have hcopy : pService = some pSer := (List.mem_singleton.mp hnew).symm
    exact Lookup.result_fits (hcopy ▸ hresult) hsound.services

/-- A record of a registered service always has its array. -/
theorem Sound.pushes {a : Addr} {pSer : TGService}
    (hget : s.registry.objects[a]? = some pSer) (para : List Byte) :
    ∃ pNew g, pushParameter s.registry pSer para = some (pNew, g) ∧
      Pushed s.registry pSer para pNew g := by
  have hholds := hsound.consistent a pSer hget
  have hfits := hsound.services pSer (List.mem_of_getElem? hget)
  cases hparameters : pSer.parameters with
  | none => exact pushParameter_first hparameters
  | some ppara =>
      obtain ⟨-, -, block, hblock, -⟩ := (holdsTexts_some hparameters).mp hholds
      exact pushParameter_live hfits hparameters hblock

/-- A push by name goes to one service, which has its own array. -/
theorem Sound.stored {a : Addr} {pSer pNew : TGService} {para : List Byte}
    {g : Registry} (hget : s.registry.objects[a]? = some pSer)
    (hpushed : Pushed s.registry pSer para pNew g) :
    Sound { s with
      registry := { g with objects := g.objects.set a pNew }
      pushed := s.pushed ++ [(a, para)] } := by
  obtain ⟨blocks, hframe⟩ := hpushed.frame
  have hobjects : g.objects = s.registry.objects := by rw [hframe]
  have hlt := (List.getElem?_eq_some_iff.mp hget).1
  have hfits := hsound.services pSer (List.mem_of_getElem? hget)
  have hblocks : { g with objects := g.objects.set a pNew }.blocks =
      g.blocks := rfl
  have hseparate : ∀ {b : Addr} {pOther : TGService} {ppara : Addr}, b ≠ a →
      s.registry.objects[b]? = some pOther → pOther.parameters = some ppara →
      pNew.parameters ≠ some ppara := by
    intro b pOther ppara hne hother hppara hnew
    rcases hpushed.array hnew with rfl | hown
    · exact Nat.lt_irrefl _ ((hsound.services pOther
        (List.mem_of_getElem? hother)).allocated _ hppara)
    · exact hne (hsound.apart hother hget hppara hown)
  constructor
  · intro b pOther hother
    rw [hobjects] at hother
    rcases SlotTable.set_cases hother with ⟨rfl, rfl⟩ | ⟨hne, hother⟩
    · have htexts := hpushed.holds_new hfits (hsound.consistent b pSer hget)
      rw [pushedOn_snoc, if_pos rfl]
      exact htexts.of_blocks hblocks
    · have hkept := hpushed.holds_apart (fun ppara hown hshared =>
        hne (hsound.apart hother hget hshared hown))
        (hsound.services pOther (List.mem_of_getElem? hother))
        (hsound.consistent b pOther hother)
      rw [pushedOn_snoc, if_neg (Ne.symm hne), List.append_nil]
      exact hkept.of_blocks hblocks
  · rw [hframe]
    exact hsound.sized
  · intro pOther hmem
    obtain ⟨b, hother⟩ := List.getElem?_of_mem hmem
    rw [hobjects] at hother
    rcases SlotTable.set_cases hother with ⟨-, rfl⟩ | ⟨-, hother⟩
    · exact (hpushed.fits_new hfits).of_blocks hblocks
    · have hold := hsound.services pOther (List.mem_of_getElem? hother)
      exact (hpushed.fits_other hold).of_blocks hblocks
  · intro pOther hmem
    exact (hpushed.fits_other (hsound.copies pOther hmem)).of_blocks hblocks
  · rw [hobjects]
    exact stored_apart hseparate hsound.apart
  · intro b hb
    have hb : s.registry.objects.length ≤ b := by
      rw [List.length_set, hobjects] at hb
      exact hb
    rw [pushedOn_snoc, hsound.free b hb,
      if_neg (Nat.ne_of_lt (Nat.lt_of_lt_of_le hlt hb)), List.append_nil]

/-- After a push on a copy the registry is consistent exactly if the push
spared it. -/
theorem Sound.consistent_iff {pSer pNew : TGService} {para : List Byte}
    {g : Registry} (hpushed : Pushed s.registry pSer para pNew g)
    (copies : List (Option TGService)) :
    Consistent ⟨g, copies, s.pushed⟩ ↔ s.registry.Spared pSer para := by
  obtain ⟨blocks, hframe⟩ := hpushed.frame
  have hobjects : g.objects = s.registry.objects := by rw [hframe]
  constructor
  · intro hconsistent ppara hppara
    obtain ⟨block, hblock⟩ := hpushed.live hppara
    refine ⟨block, Option.join_eq_some_iff.mpr hblock, ?_⟩
    intro pOther hmem hother
    obtain ⟨a, hget⟩ := List.getElem?_of_mem hmem
    exact (hpushed.holds_shared_iff hppara hblock hother
      (hsound.consistent a pOther hget)).mp
        (hconsistent a pOther (hobjects ▸ hget))
  · intro hspared a pOther hother
    rw [hobjects] at hother
    have hholds := hsound.consistent a pOther hother
    by_cases hshared : ∃ ppara, pSer.parameters = some ppara ∧
        pOther.parameters = some ppara
    · obtain ⟨ppara, hppara, hother'⟩ := hshared
      obtain ⟨block, hblock, hothers⟩ := hspared ppara hppara
      have hold := Option.join_eq_some_iff.mp hblock
      exact (hpushed.holds_shared_iff hppara hold hother' hholds).mpr
        (hothers pOther (List.mem_of_getElem? hother) hother')
    · exact hpushed.holds_apart
        (fun ppara hppara hother' => hshared ⟨ppara, hppara, hother'⟩)
        (hsound.services pOther (List.mem_of_getElem? hother)) hholds

theorem Sound.copied {copy : Nat} {pSer pNew : TGService} {para : List Byte}
    {g : Registry} (hcopy : (s.copies[copy]?).join = some pSer)
    (hpushed : Pushed s.registry pSer para pNew g)
    (hspared : s.registry.Spared pSer para) :
    Sound ⟨g, s.copies.set copy (some pNew), s.pushed⟩ := by
  obtain ⟨blocks, hframe⟩ := hpushed.frame
  have hobjects : g.objects = s.registry.objects := by rw [hframe]
  have hmem := List.mem_of_getElem? (Option.join_eq_some_iff.mp hcopy)
  refine ⟨(hsound.consistent_iff hpushed _).mpr hspared, ?_, ?_, ?_, ?_, ?_⟩
  · rw [hframe]
    exact hsound.sized
  · intro pOther hother
    rw [hobjects] at hother
    exact hpushed.fits_other (hsound.services pOther hother)
  · intro pOther hother
    rcases List.mem_or_eq_of_mem_set hother with hold | hnew
    · exact hpushed.fits_other (hsound.copies pOther hold)
    · obtain rfl := Option.some.inj hnew
      exact hpushed.fits_new (hsound.copies pSer hmem)
  · rw [hobjects]
    exact hsound.apart
  · rw [hobjects]
    exact hsound.free

/-- The searches of a push by name. -/
theorem Sound.byName (junk : Nat → Nat → Option Addr)
    {name : Option (List Byte)} (para : List Byte)
    (hlookup : ∀ text ∈ name, (lookupN s.registry text).isSome) :
    ∃ next, s.step junk (.setServiceCreateParametersByN name para) =
      some next ∧ next.Sound := by
  cases name with
  | none => exact ⟨_, rfl, by simpa [receiver] using hsound⟩
  | some text =>
      obtain ⟨found, hfound⟩ :=
        Option.isSome_iff_exists.mp (hlookup text rfl)
      have hset := setServiceCreateParametersByN_eq s.registry text para
      rw [hfound, Option.bind_some] at hset
      have hreceiver : s.receiver (some text) = found := by
        rw [receiver, Option.bind_some, hfound, Option.join_some]
      rw [Sharing.step, hset, hreceiver]
      cases found with
      | none => exact ⟨_, rfl, by simpa using hsound⟩
      | some a =>
          obtain ⟨pSer, hget⟩ := lookupN_found hfound
          obtain ⟨pNew, g, hpush, hpushed⟩ := hsound.pushes hget para
          refine ⟨_, ?_, hsound.stored hget hpushed⟩
          simp [setServiceCreateParameters_eq, hget, hpush]

/-- A push on a copy, or on NULL. -/
theorem Sound.onCopy (junk : Nat → Nat → Option Addr) {copy : Nat}
    {para : List Byte}
    (hspared : ∀ pSer ∈ (s.copies[copy]?).join,
      s.registry.Spared pSer para) :
    ∃ next, s.step junk (.setServiceCreateParameters copy para) =
      some next ∧ next.Sound := by
  rw [Sharing.step]
  cases hcopy : (s.copies[copy]?).join with
  | none => exact ⟨s, rfl, hsound⟩
  | some pSer =>
      have hown := hspared pSer hcopy
      have hfits := hsound.copies pSer
        (List.mem_of_getElem? (Option.join_eq_some_iff.mp hcopy))
      obtain ⟨pNew, g, hpush, hpushed⟩ : ∃ pNew g,
          pushParameter s.registry pSer para = some (pNew, g) ∧
            Pushed s.registry pSer para pNew g := by
        cases hparameters : pSer.parameters with
        | none => exact pushParameter_first hparameters
        | some ppara =>
            obtain ⟨block, hblock, -⟩ := hown ppara hparameters
            exact pushParameter_live hfits hparameters
              (Option.join_eq_some_iff.mp hblock)
      refine ⟨_, ?_, hsound.copied hcopy hpushed hown⟩
      simp [hpush]

theorem Sound.step (junk : Nat → Nat → Option Addr) {call : SharingCall}
    (hharmless : s.Harmless call) :
    ∃ next, s.step junk call = some next ∧ next.Sound := by
  cases call with
  | loadService call =>
      obtain ⟨g, hload, hnext⟩ := hsound.loadService junk call
      exact ⟨_, by rw [Sharing.step, hload, Option.map_some], hnext⟩
  | setServiceCreateParametersByN name para =>
      exact hsound.byName junk para hharmless
  | find lookup =>
      obtain ⟨pService, hresult⟩ := Option.isSome_iff_exists.mp hharmless
      exact ⟨_, by rw [Sharing.step, hresult, Option.map_some],
        hsound.find hresult⟩
  | setServiceCreateParameters copy para => exact hsound.onCopy junk hharmless

/-- A call that returns and leaves the registry consistent was harmless. -/
theorem Sound.harmless {junk : Nat → Nat → Option Addr} {call : SharingCall}
    {next : Sharing} (hstep : s.step junk call = some next)
    (hconsistent : next.Consistent) : s.Harmless call := by
  cases call with
  | loadService call => trivial
  | setServiceCreateParametersByN name para =>
      intro text htext
      obtain rfl := Option.mem_def.mp htext
      rw [Sharing.step, setServiceCreateParametersByN_eq] at hstep
      cases hlookup : lookupN s.registry text with
      | none =>
          rw [hlookup] at hstep
          cases hstep
      | some found => rfl
  | find lookup =>
      obtain ⟨pService, hresult, -⟩ := Option.map_eq_some_iff.mp hstep
      exact Option.isSome_iff_exists.mpr ⟨pService, hresult⟩
  | setServiceCreateParameters copy para =>
      intro pSer hcopy
      have hcopy := Option.mem_def.mp hcopy
      have hfits := hsound.copies pSer
        (List.mem_of_getElem? (Option.join_eq_some_iff.mp hcopy))
      simp only [Sharing.step, hcopy] at hstep
      obtain ⟨⟨pNew, g⟩, hpush, rfl⟩ := Option.map_eq_some_iff.mp hstep
      exact (hsound.consistent_iff (pushParameter_pushed hfits hpush) _).mp
        hconsistent

end Steps

end Sharing

/-- The registry stays consistent exactly in the runs whose calls are all
harmless: a push on a copy that shares the array of a service frees the array
at a multiple of five, and overwrites a text of the service before its
counter. -/
theorem keepsRegistry_iff (junk : Nat → Nat → Option Addr)
    (calls : List SharingCall) :
    KeepsRegistry junk calls ↔
      (sharingMachine junk).Guarded Sharing.Harmless .start calls := by
  have hguard : ∀ s call, Sharing.Sound s → (s.Harmless call ↔
      ∃ next, s.step junk call = some next ∧ next.Consistent) := by
    intro s call hsound
    constructor
    · intro hharmless
      obtain ⟨next, hstep, hnext⟩ := hsound.step junk hharmless
      exact ⟨next, hstep, hnext.consistent⟩
    · rintro ⟨next, hstep, hconsistent⟩
      exact hsound.harmless hstep hconsistent
  have hkeeps : ∀ s call next, Sharing.Sound s → s.Harmless call →
      s.step junk call = some next → next.Sound := by
    intro s call next hsound hharmless hstep
    obtain ⟨last, hlast, hnext⟩ := hsound.step junk hharmless
    exact Option.some.inj (hlast.symm.trans hstep) ▸ hnext
  exact ((sharingMachine junk).guarded_iff_good
    (fun _ hsound => hsound.consistent) hguard hkeeps
    Sharing.sound_start).symm

namespace SharedParameters

def push (para : String) : SharingCall :=
  .setServiceCreateParametersByN (some (ascii "echo")) (ascii para)

/-- Five parameters by name fill the array; the sixth is pushed on a copy. -/
def full : List SharingCall :=
  [.loadService ServiceArray.echo, push "a", push "b", push "c", push "d",
    push "e", .find (.findServiceI 0),
    .setServiceCreateParameters 0 (ascii "f")]

/-- A push on a copy that is older than the last push by name. -/
def old : List SharingCall :=
  [.loadService ServiceArray.echo, push "a", .find (.findServiceI 0), push "b",
    .setServiceCreateParameters 0 (ascii "f")]

def machine : Machine Sharing SharingCall := sharingMachine fun _ _ => none

theorem full_freed : ∃ s pSer, machine.run .start full = some s ∧
    s.registry.objects = [pSer] ∧ pSer.parameters = some 0 ∧
    s.registry.blocks[0]? = some none := ⟨_, _, rfl, rfl, rfl, rfl⟩

theorem old_overwritten : ∃ s pSer, machine.run .start old = some s ∧
    s.registry.objects = [pSer] ∧ pSer.parameters = some 0 ∧
    pushedOn 0 s.pushed = [ascii "a", ascii "b"] ∧
    s.registry.blocks[0]? = some (some
      [some (ascii "a"), some (ascii "f"), none, none, none]) :=
  ⟨_, _, rfl, rfl, rfl, rfl, rfl⟩

/-- The registered service is left with an array that is freed, or with a text
that was pushed on the copy. -/
theorem keepsRegistry_broken : ¬ KeepsRegistry (fun _ _ => none) full ∧
    ¬ KeepsRegistry (fun _ _ => none) old := by
  constructor
  · intro hkeeps
    obtain ⟨s, hrun, hconsistent⟩ := hkeeps full List.prefix_rfl
    obtain ⟨last, pSer, hlast, hobjects, hparameters, hfreed⟩ := full_freed
    obtain rfl : last = s := Option.some.inj (hlast.symm.trans hrun)
    have hholds := hconsistent 0 pSer (by rw [hobjects]; rfl)
    obtain ⟨-, -, block, hblock, -⟩ := (holdsTexts_some hparameters).mp hholds
    rw [hfreed] at hblock
    cases hblock
  · intro hkeeps
    obtain ⟨s, hrun, hconsistent⟩ := hkeeps old List.prefix_rfl
    obtain ⟨last, pSer, hlast, hobjects, hparameters, hpushed, harray⟩ :=
      old_overwritten
    obtain rfl : last = s := Option.some.inj (hlast.symm.trans hrun)
    have hholds := hconsistent 0 pSer (by rw [hobjects]; rfl)
    obtain ⟨-, -, block, hblock, htexts⟩ :=
      (holdsTexts_some hparameters).mp hholds
    rw [harray] at hblock
    cases hblock
    rw [hpushed] at htexts
    exact absurd (htexts 1 (by decide)) (by decide)

end SharedParameters

end TgServer
