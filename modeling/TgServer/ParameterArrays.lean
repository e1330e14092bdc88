/-
The array of parameters a library function is handed: what the pushes on the
services leave in it, and whether a reader that stops at NULL stops inside.
-/
import Mathlib.Data.List.Induction
import TgServer.ServiceParameters

namespace TgServer

open Bytes

/-- Calls of `setServiceCreateParameters` on registered services. -/
def pushParameters (pushes : List (Addr × List Byte)) (g : Registry) :
    Option Registry :=
  pushes.foldlM (fun g push => setServiceCreateParameters g push.1 push.2) g

/-- The texts pushed on the service at an address, in order. -/
def pushedOn (a : Addr) (pushes : List (Addr × List Byte)) :
    List (List Byte) :=
  (pushes.filter (·.1 == a)).map Prod.snd

/-- The block `setServiceCreateParameters` stores a parameter in. -/
def copyParameter (junk : Nat → Byte) (para : List Byte) :
    Option (List Byte) := do
  let bufSize := para.length + 1
  let pBuf ← store (malloc bufSize junk) 0 (List.replicate bufSize 0)
  let pBuf ← store pBuf 0 (strncpy para (bufSize - 1))
  store pBuf (bufSize - 1) [0]

/-- The array of a service holds these texts, as many as its counter says. -/
structure HoldsTexts (g : Registry) (pSer : TGService)
    (texts : List (List Byte)) : Prop where
  counts : pSer.parCounts = texts.length
  unset : texts = [] → pSer.parameters = none
  slots : texts ≠ [] → ∃ ppara block, pSer.parameters = some ppara ∧
    g.blocks[ppara]? = some (some block) ∧
    ∀ i < texts.length, block[i]? = some texts[i]?

/-- A reader that is given the array alone, and `unLoadService`, find these
texts and then a NULL that is part of the array. -/
structure EndsWithin (g : Registry) (pSer : TGService)
    (texts : List (List Byte)) : Prop where
  array : ∃ ppara block, pSer.parameters = some ppara ∧
    g.blocks[ppara]? = some (some block) ∧
    (∀ i < texts.length, block[i]? = some texts[i]?) ∧
    block[texts.length]? = some none ∧ SlotTable.walk block = some texts
  release : freedStrings g pSer = some
    ((pSer.serviceName.map ServiceCall.free).toList ++
      texts.map ServiceCall.free)

/-- The copy of a parameter stays in its block and ends with a NUL. -/
theorem copyParameter_eq (junk : Nat → Byte) {para : List Byte}
    (hnul : 0 ∉ para) : copyParameter junk para = some (para ++ [0]) := by
  have hcopy : strncpy para para.length = para := by
    simpa using strncpy_append hnul []
  have hclear : store (malloc (para.length + 1) junk) 0
      (List.replicate (para.length + 1) 0) =
        some (List.replicate (para.length + 1) 0) := by
    rw [store_zero _ _ (by simp)]
    simp
  have hfill : store (List.replicate (para.length + 1) 0) 0 para =
      some (para ++ [0]) := by
    rw [store_zero _ _ (by simp), List.drop_replicate]
    simp
  have hend : store (para ++ [0]) para.length [0] = some (para ++ [0]) := by
    rw [store_append _ _ _ (by simp)]
    simp
  rw [copyParameter, Nat.add_sub_cancel, hclear]
  simp only [Option.bind_eq_bind, Option.bind_some, hcopy, hfill, hend]

theorem pushedOn_snoc (a : Addr) (pushes : List (Addr × List Byte))
    (push : Addr × List Byte) :
    pushedOn a (pushes ++ [push]) =
      pushedOn a pushes ++ if push.1 = a then [push.2] else [] := by
  by_cases ha : push.1 = a <;> simp [pushedOn, ha]

/-- The pushes on each service are in its array, whatever was pushed on the
others. -/
theorem pushParameters_owned {g : Registry} (hunset : Unset g)
    {pushes : List (Addr × List Byte)}
    (hpushes : ∀ push ∈ pushes, push.1 < g.objects.length) :
    ∃ g', pushParameters pushes g = some g' ∧
      g'.objects.length = g.objects.length ∧
      Owned g' fun a => pushedOn a pushes := by
  induction pushes using List.reverseRecOn with
  | nil => exact ⟨g, rfl, rfl, hunset.owned⟩
  | append_singleton pushes push ih =>
      obtain ⟨mid, hmid, hlength, howned⟩ := ih fun other hother =>
        hpushes other (List.mem_append_left _ hother)
      have hlt : push.1 < mid.objects.length := by
        rw [hlength]
        exact hpushes push (List.mem_append_right _ List.mem_cons_self)
      obtain ⟨g', hpush, -, hsame, hnext⟩ :=
        howned.push (List.getElem?_eq_getElem hlt) push.2
      refine ⟨g', ?_, hsame.trans hlength, ?_⟩
      · rw [pushParameters, List.foldlM_append]
        rw [pushParameters] at hmid
        rw [hmid, Option.bind_eq_bind, Option.bind_some, List.foldlM_cons, hpush]
        rfl
      · convert hnext using 1
        funext a
        rw [pushedOn_snoc]
        by_cases ha : push.1 = a
        · subst ha
          rw [if_pos rfl, Function.update_self]
        · rw [if_neg ha, Function.update_of_ne (Ne.symm ha), List.append_nil]

/-- What an owner has in its array, its counter and the place of the texts. -/
theorem ParameterOwner.holdsTexts {g : Registry} {pSer : TGService}
    {texts : List (List Byte)} (howner : ParameterOwner g pSer texts) :
    HoldsTexts g pSer texts where
  counts := howner.counts
  unset := by
    intro hnil
    cases hparameters : pSer.parameters with
    | none => rfl
    | some ppara => exact absurd hnil (howner.block ppara hparameters).1
  slots := by
    intro hsome
    cases hparameters : pSer.parameters with
    | none => exact absurd (howner.missing hparameters) hsome
    | some ppara =>
        obtain ⟨-, spare, hblock, -⟩ := howner.block ppara hparameters
        refine ⟨ppara, _, rfl, hblock, ?_⟩
        intro i hi
        rw [List.getElem?_append_left (by rwa [List.length_map]),
          List.getElem?_map, List.getElem?_eq_getElem hi, Option.map_some]

/-- The array ends with a NULL exactly if it is not full, and it is full at each
multiple of the growth step. -/
theorem ParameterOwner.endsWithin_iff {g : Registry} {pSer : TGService}
    {texts : List (List Byte)} (howner : ParameterOwner g pSer texts)
    (hsome : texts ≠ []) :
    EndsWithin g pSer texts ↔
      texts.length % serviceDefaultParaCounts ≠ 0 := by
  cases hparameters : pSer.parameters with
  | none => exact absurd (howner.missing hparameters) hsome
  | some ppara =>
      obtain ⟨-, spare, hblock, hmod, hspare⟩ :=
        howner.block ppara hparameters
      have hlength : (texts.map some).length = texts.length :=
        List.length_map some
      rw [serviceDefaultParaCounts] at hmod hspare ⊢
      constructor
      · rintro ⟨⟨other, block, hother, hget, -, hnull, -⟩, -⟩
        obtain rfl : ppara = other :=
          Option.some.inj (hparameters.symm.trans hother)
        rw [hblock, Option.some.injEq, Option.some.injEq] at hget
        subst hget
        have hlt := (List.getElem?_eq_some_iff.mp hnull).1
        rw [List.length_append, hlength, List.length_replicate] at hlt
        omega
      · intro hroom
        obtain ⟨more, rfl⟩ : ∃ more, spare = more + 1 :=
          ⟨spare - 1, by omega⟩
        rw [List.replicate_succ] at hblock
        have hwalk := SlotTable.walk_terminated texts (List.replicate more none)
        refine ⟨⟨ppara, _, hparameters, hblock, ?_, ?_, hwalk⟩, ?_⟩
        · intro i hi
          rw [List.getElem?_append_left (by rwa [hlength]),
            List.getElem?_map, List.getElem?_eq_getElem hi, Option.map_some]
        · rw [List.getElem?_append_right (by rw [hlength]), hlength,
            Nat.sub_self, List.getElem?_cons_zero]
        · simp [freedStrings, hparameters, hblock, hwalk]

section Pushes

variable {g : Registry} (hunset : Unset g) {pushes : List (Addr × List Byte)}
variable (hpushes : ∀ push ∈ pushes, push.1 < g.objects.length)

include hunset hpushes

/-- However many parameters are pushed on the services, in whatever order, no
store leaves an array, and each service has its own in its array, as strings in
the order they were pushed; one more push leaves those that are there in
place. -/
theorem pushParameters_holds :
    ∃ g', pushParameters pushes g = some g' ∧
      (∀ a pSer, g'.objects[a]? = some pSer →
        HoldsTexts g' pSer (pushedOn a pushes) ∧
        ∀ para, ∃ next pNext, setServiceCreateParameters g' a para = some next ∧
          next.objects[a]? = some pNext ∧
          HoldsTexts next pNext (pushedOn a pushes ++ [para])) ∧
      ∀ push ∈ pushes, 0 ∉ push.2 → ∀ junk,
        copyParameter junk push.2 = some (push.2 ++ [0]) := by
  obtain ⟨g', hrun, hlength, howned⟩ := pushParameters_owned hunset hpushes
  refine ⟨g', hrun, fun a pSer hget => ⟨(howned.owner hget).holdsTexts, ?_⟩,
    fun push _ hnul junk => copyParameter_eq junk hnul⟩
  intro para
  obtain ⟨next, hpush, -, hsame, hnext⟩ := howned.push hget para
  have hlt : a < next.objects.length := by
    rw [hsame]
    exact (List.getElem?_eq_some_iff.mp hget).1
  have howner := hnext.owner (List.getElem?_eq_getElem hlt)
  rw [Function.update_self] at howner
  exact ⟨next, _, hpush, List.getElem?_eq_getElem hlt, howner.holdsTexts⟩

/-- After at least one push a service hands out an array that ends with a NULL
unless the number of pushes is a multiple of five. -/
theorem parameters_endWithin_iff {g' : Registry}
    (hrun : pushParameters pushes g = some g') {a : Addr} {pSer : TGService}
    (hget : g'.objects[a]? = some pSer) (hsome : pushedOn a pushes ≠ []) :
    EndsWithin g' pSer (pushedOn a pushes) ↔
      (pushedOn a pushes).length % serviceDefaultParaCounts ≠ 0 := by
  obtain ⟨last, hlast, -, howned⟩ := pushParameters_owned hunset hpushes
  obtain rfl := Option.some.inj (hrun.symm.trans hlast)
  exact (howned.owner hget).endsWithin_iff hsome

end Pushes

namespace ParameterArrays

def service (sID : Int) (name : List Byte) : TGService :=
  ⟨sID, some (name ++ [0]), none, 0, 1, 2, 3, 4, 5, none⟩

/-- Two services as `loadService` registers them. -/
def registry : Registry :=
  ⟨some [some 0, some 1, none], 10, 2,
    [service 0 (ascii "a"), service 1 (ascii "b")], []⟩

/-- Five parameters for the first service, one for the second. -/
def pushes : List (Addr × List Byte) :=
  [(0, ascii "p"), (0, ascii "q"), (1, ascii "x"), (0, ascii "r"),
    (0, ascii "s"), (0, ascii "t")]

theorem registry_unset : Unset registry := by
  intro pSer hmem
  rcases List.mem_cons.mp hmem with rfl | hmem
  · exact ⟨rfl, rfl⟩
  · rw [List.mem_singleton.mp hmem]
    exact ⟨rfl, rfl⟩

theorem pushParameters_holds_six :
    ∃ g', pushParameters pushes registry = some g' ∧
      (∀ a pSer, g'.objects[a]? = some pSer →
        HoldsTexts g' pSer (pushedOn a pushes) ∧
        ∀ para, ∃ next pNext, setServiceCreateParameters g' a para = some next ∧
          next.objects[a]? = some pNext ∧
          HoldsTexts next pNext (pushedOn a pushes ++ [para])) ∧
      ∀ push ∈ pushes, 0 ∉ push.2 → ∀ junk,
        copyParameter junk push.2 = some (push.2 ++ [0]) :=
  pushParameters_holds registry_unset (by decide)

/-- The second service has room behind its parameter. -/
theorem parameters_endWithin_iff_one :
    ∃ g' pSer, pushParameters pushes registry = some g' ∧
      g'.objects[1]? = some pSer ∧
      (EndsWithin g' pSer (pushedOn 1 pushes) ↔
        (pushedOn 1 pushes).length % serviceDefaultParaCounts ≠ 0) :=
  ⟨_, _, rfl, rfl,
    parameters_endWithin_iff registry_unset (by decide) rfl rfl (by decide)⟩

/-- Five parameters fill the array: there is no slot for a NULL, and the loop of
`unLoadService` leaves the array. -/
theorem parameters_full :
    ∃ g' pSer, pushParameters pushes registry = some g' ∧
      g'.objects[0]? = some pSer ∧ (pushedOn 0 pushes).length = 5 ∧
      freedStrings g' pSer = none ∧
      ¬ EndsWithin g' pSer (pushedOn 0 pushes) := by
  refine ⟨_, _, rfl, rfl, rfl, rfl, ?_⟩
  rintro ⟨-, hrelease⟩
  cases hrelease

end ParameterArrays

end TgServer
