/-
The copy of a service that a lookup hands out: its name is copied without the
NUL behind it, so what is read there depends on the memory the copy got.
-/
import TgServer.ServiceLookup

namespace TgServer

open Bytes

/-- A call of one of the functions that hand out a copy; a name is a text. -/
inductive Lookup where
  | findServiceI (id : Int)
  | findServiceN (name : List Byte) (htext : 0 ∉ name)
deriving Repr, DecidableEq

namespace Lookup

def probe (g : Registry) : Lookup → Addr → Option SlotTable.Probe
  | .findServiceI id => probeI g id
  | .findServiceN name _ => probeN g name

def result (g : Registry) : Lookup → Option (Option TGService)
  | .findServiceI id => TgServer.findServiceI g id
  | .findServiceN name _ => TgServer.findServiceN g name

/-- The service is one the call asks for. -/
def Asks (pS : TGService) : Lookup → Prop
  | .findServiceI id => pS.sID = id
  | .findServiceN name _ => pS.name = some name

instance (pS : TGService) : (lookup : Lookup) → Decidable (lookup.Asks pS)
  | .findServiceI id => inferInstanceAs (Decidable (pS.sID = id))
  | .findServiceN name _ => inferInstanceAs (Decidable (pS.name = some name))

theorem result_eq (g : Registry) (lookup : Lookup) :
    lookup.result g = copyFound g (lookup.probe g) := by
  cases lookup <;> rfl

end Lookup

/-- The first slot whose service is asked for, behind those of `front`. -/
structure Selected (g : Registry) (lookup : Lookup) (front : List Addr)
    (a : Addr) (pSource : TGService) : Prop where
  slots : ∃ rest, g.gServices = some (front.map some ++ some a :: rest)
  object : g.objects[a]? = some pSource
  asked : lookup.Asks pSource
  before : ∀ b ∈ front, ∃ pOther, g.objects[b]? = some pOther ∧
    ¬ lookup.Asks pOther

/-- A faithful copy: everything but the name is equal, and the name reads as
the registered one, by which the same service is found again.  The memory from
the end of the name's block on holds `behind`. -/
structure Faithful (g : Registry) (pSource pCopy : TGService)
    (behind : List Byte) : Prop where
  fields : pCopy = { pSource with serviceName := pCopy.serviceName }
  name : ∃ buf text, pCopy.serviceName = some buf ∧
    cString (buf ++ behind) = some text ∧ pSource.name = some text ∧
    ∃ pAgain, findServiceN g text = some (some pAgain) ∧
      pAgain.sID = pSource.sID

/-- The copy has the text of the name in a block of its length. -/
theorem copyService_fields {pS : TGService} {text : List Byte}
    (hname : pS.name = some text) :
    copyService pS = some { pS with serviceName := some text } := by
  rw [TGService.name, Option.bind_eq_some_iff] at hname
  obtain ⟨block, hblock, htext⟩ := hname
  simp only [copyService, hblock, htext, Option.bind_eq_bind, Option.bind_some,
    Option.pure_def]

section Copies

variable {g : Registry} (hbuilt : Built g)

include hbuilt

theorem Built.name {a : Addr} {pS : TGService}
    (hget : g.objects[a]? = some pS) :
    ∃ text, pS.name = some text ∧ 0 ∉ text := by
  obtain ⟨block, hblock, hzero⟩ := hbuilt.named pS (List.mem_of_getElem? hget)
  obtain ⟨text, htext⟩ := cString_defined hzero
  obtain ⟨-, -, hnul⟩ := cString_some htext
  exact ⟨text, by rw [TGService.name, hblock, Option.bind_some, htext], hnul⟩

/-- The test of the call on a registered service. -/
theorem Built.probe (lookup : Lookup) {a : Addr} {pS : TGService}
    (hget : g.objects[a]? = some pS) :
    lookup.probe g a = some (if lookup.Asks pS then .found else .next) := by
  cases lookup with
  | findServiceI id =>
      by_cases hasks : pS.sID = id
      · rw [if_pos (show (Lookup.findServiceI id).Asks pS from hasks)]
        simp [Lookup.probe, TgServer.probeI, hget, hasks]
      · rw [if_neg (show ¬ (Lookup.findServiceI id).Asks pS from hasks)]
        simp [Lookup.probe, TgServer.probeI, hget, hasks]
  | findServiceN name htext =>
      rw [Lookup.probe, probeN_name htext hget
        (hbuilt.named pS (List.mem_of_getElem? hget))]
      by_cases hasks : pS.name = some name
      · rw [if_pos (show (Lookup.findServiceN name htext).Asks pS from hasks)]
        simp [hasks]
      · rw [if_neg (show ¬ (Lookup.findServiceN name htext).Asks pS from hasks)]
        simp [hasks]

/-- A test that is made is made on a registered service. -/
theorem Built.probed {lookup : Lookup} {a : Addr} {result : SlotTable.Probe}
    (hprobe : lookup.probe g a = some result) :
    ∃ pS, g.objects[a]? = some pS ∧
      result = if lookup.Asks pS then .found else .next := by
  cases hget : g.objects[a]? with
  | none =>
      cases lookup <;>
        simp [Lookup.probe, TgServer.probeI, TgServer.probeN, hget] at hprobe
  | some pS =>
      rw [hbuilt.probe lookup hget, Option.some.injEq] at hprobe
      exact ⟨pS, rfl, hprobe.symm⟩

/-- What is handed out is a copy of the service that was selected. -/
theorem Selected.result {lookup : Lookup} {front : List Addr} {a : Addr}
    {pSource : TGService} (hselected : Selected g lookup front a pSource) :
    ∃ pCopy, copyService pSource = some pCopy ∧
      lookup.result g = some (some pCopy) := by
  obtain ⟨rest, hslots⟩ := hselected.slots
  obtain ⟨text, hname, -⟩ := hbuilt.name hselected.object
  have hfound : lookup.probe g a = some .found := by
    rw [hbuilt.probe lookup hselected.object, if_pos hselected.asked]
  have hfront : ∀ b ∈ front, lookup.probe g b = some .next := by
    intro b hb
    obtain ⟨pOther, hother, hasks⟩ := hselected.before b hb
    rw [hbuilt.probe lookup hother, if_neg hasks]
  have hsearch := SlotTable.search_reached hfront hfound rest
  refine ⟨_, copyService_fields hname, ?_⟩
  simp [Lookup.result_eq, copyFound, searchServices, hslots, hsearch,
    hselected.object, copyService_fields hname]

/-- A call that hands out a copy has selected a service. -/
theorem selected_of_result {lookup : Lookup} {pCopy : TGService}
    (hresult : lookup.result g = some (some pCopy)) :
    ∃ front a pSource, Selected g lookup front a pSource ∧
      copyService pSource = some pCopy := by
  simp only [Lookup.result_eq, copyFound, Option.bind_eq_bind,
    Option.bind_eq_some_iff] at hresult
  obtain ⟨⟨n, found⟩, hsearch, hresult⟩ := hresult
  cases found with
  | none => cases hresult
  | some a =>
      simp only [Option.bind_eq_some_iff, Option.pure_def, Option.some.injEq]
        at hresult
      obtain ⟨pSource, hobject, copy, hcopy, rfl⟩ := hresult
      rw [searchServices] at hsearch
      split at hsearch
      · cases hsearch
      · next slots hslots =>
          obtain ⟨front, rest, rfl, hfront⟩ := SlotTable.search_split hsearch
          obtain ⟨pS, hget, hasks⟩ :=
            hbuilt.probed (SlotTable.search_found hsearch)
          obtain rfl := Option.some.inj (hobject.symm.trans hget)
          refine ⟨front, a, pSource, ⟨⟨rest, hslots⟩, hobject, ?_, ?_⟩, hcopy⟩
          · by_contra hnot
            rw [if_neg hnot] at hasks
            cases hasks
          · intro b hb
            obtain ⟨pOther, hother, hresult⟩ := hbuilt.probed (hfront b hb)
            refine ⟨pOther, hother, fun hasked => ?_⟩
            rw [if_pos hasked] at hresult
            cases hresult

/-- A name that a service in front has leads to another service. -/
theorem Selected.shadowed {lookup : Lookup} {front : List Addr} {a b : Addr}
    {pSource pOther : TGService}
    (hselected : Selected g lookup front a pSource) {text : List Byte}
    (hnul : 0 ∉ text) (hname : pSource.name = some text) (hb : b ∈ front)
    (hother : g.objects[b]? = some pOther)
    (hshared : pOther.name = some text) :
    ∃ pAgain, findServiceN g text = some (some pAgain) ∧
      pAgain.sID ≠ pSource.sID := by
  let named : Addr → Bool := fun b =>
    (g.objects[b]?).any fun pS => pS.name == some text
  obtain ⟨first, hfirst⟩ : ∃ first, front.find? named = some first :=
    Option.isSome_iff_exists.mp
      (List.find?_isSome.mpr ⟨b, hb, by simp [named, hother, hshared]⟩)
  obtain ⟨hnamed, early, late, rfl, hearly⟩ :=
    List.find?_eq_some_iff_append.mp hfirst
  obtain ⟨rest, hslots⟩ := hselected.slots
  obtain ⟨pFirst, hget, hasks⟩ := hselected.before first (by simp)
  have hsame : pFirst.name = some text := by simpa [named, hget] using hnamed
  have hagain : Selected g (.findServiceN text hnul) early first pFirst := by
    refine ⟨⟨late.map some ++ some a :: rest, by simp [hslots]⟩, hget, hsame,
      ?_⟩
    intro c hc
    obtain ⟨pS, hpS, -⟩ := hselected.before c (by simp [hc])
    have hnot : pS.name ≠ some text := by
      simpa [named, hpS] using hearly c hc
    exact ⟨pS, hpS, hnot⟩
  obtain ⟨pAgain, hcopy, hresult⟩ := hagain.result hbuilt
  rw [copyService_fields hsame, Option.some.injEq] at hcopy
  refine ⟨pAgain, hresult, ?_⟩
  subst hcopy
  intro hsID
  cases lookup with
  | findServiceI id => exact hasks (hsID.trans hselected.asked)
  | findServiceN name htext =>
      exact hasks (hsame.trans (hname.symm.trans hselected.asked))

end Copies

/-- A copy that is handed out is faithful exactly if a NUL happens to follow
the block of its name and no service of the name stands in front of the one it
was made of. -/
theorem copies_faithful_iff (junk : Nat → Nat → Option Addr) {g : Registry}
    (hreach : (registryMachine junk).Reachable g) {lookup : Lookup}
    {pCopy : TGService} (hresult : lookup.result g = some (some pCopy))
    (behind : List Byte) :
    ∃ front a pSource, Selected g lookup front a pSource ∧
      (Faithful g pSource pCopy behind ↔
        behind.head? = some 0 ∧ ∀ b ∈ front, ∀ pOther,
          g.objects[b]? = some pOther → pOther.name ≠ pSource.name) := by
  have hbuilt := built_of_reachable hreach
  obtain ⟨front, a, pSource, hselected, hcopy⟩ :=
    selected_of_result hbuilt hresult
  obtain ⟨text, hname, hnul⟩ := hbuilt.name hselected.object
  rw [copyService_fields hname, Option.some.injEq] at hcopy
  subst hcopy
  refine ⟨front, a, pSource, hselected, ?_⟩
  constructor
  · rintro ⟨-, buf, read, hbuf, hread, hsame, pAgain, hagain, hsID⟩
    obtain rfl := Option.some.inj hbuf
    obtain rfl := Option.some.inj (hname.symm.trans hsame)
    refine ⟨(cString_behind_iff hnul behind).mp hread, ?_⟩
    intro b hb pOther hother hshared
    obtain ⟨pFound, hfound, hne⟩ := hselected.shadowed hbuilt hnul hname hb
      hother (hshared.trans hname)
    rw [hagain, Option.some.injEq, Option.some.injEq] at hfound
    exact hne (hfound ▸ hsID)
  · rintro ⟨hhead, hfront⟩
    have hagain : Selected g (.findServiceN text hnul) front a pSource := by
      refine ⟨hselected.slots, hselected.object, hname, ?_⟩
      intro b hb
      obtain ⟨pOther, hother, -⟩ := hselected.before b hb
      exact ⟨pOther, hother, fun hasks =>
        hfront b hb pOther hother (hasks.trans hname.symm)⟩
    obtain ⟨pAgain, hcopy, hfound⟩ := hagain.result hbuilt
    rw [copyService_fields hname, Option.some.injEq] at hcopy
    exact ⟨rfl, text, text, rfl, (cString_behind_iff hnul behind).mpr hhead,
      hname, pAgain, hfound, hcopy ▸ rfl⟩

namespace ServiceCopy

/-- Two services of one name. -/
def twice : List RegistryCall :=
  [.loadService ServiceArray.echo, .loadService ServiceArray.echo]

/-- The second one, with a NUL behind the copy of its name. -/
theorem copies_faithful_iff_twice :
    ∃ g pCopy, (Lookup.findServiceI 1).result g = some (some pCopy) ∧
      ∃ front a pSource, Selected g (.findServiceI 1) front a pSource ∧
        (Faithful g pSource pCopy [0] ↔
          [(0 : Byte)].head? = some 0 ∧ ∀ b ∈ front, ∀ pOther,
            g.objects[b]? = some pOther → pOther.name ≠ pSource.name) := by
  obtain ⟨g, pCopy, hrun, hresult⟩ :
      ∃ g pCopy, (registryMachine fun _ _ => none).run Registry.initial twice =
        some g ∧ (Lookup.findServiceI 1).result g = some (some pCopy) :=
    ⟨_, _, rfl, rfl⟩
  exact ⟨g, pCopy, hresult,
    copies_faithful_iff (fun _ _ => none) ⟨twice, hrun⟩ hresult [0]⟩

/-- One service is loaded and looked up; the octet behind the four of the copy
of its name is not zero. -/
theorem copy_unfaithful :
    ∃ g pSource pCopy, (registryMachine fun _ _ => none).run Registry.initial
        [.loadService ServiceArray.echo] = some g ∧
      g.objects = [pSource] ∧ findServiceI g 0 = some (some pCopy) ∧
      pCopy.serviceName = some (ascii "echo") ∧
      cString (ascii "echo" ++ [1, 0]) = some (ascii "echo" ++ [1]) ∧
      ¬ Faithful g pSource pCopy [1, 0] := by
  refine ⟨_, _, _, rfl, rfl, rfl, rfl, by decide, ?_⟩
  rintro ⟨-, buf, text, hbuf, hread, hname, -⟩
  obtain rfl := Option.some.inj hbuf
  have htext : text = ascii "echo" :=
    Option.some.inj (hname.symm.trans (by decide))
  rw [htext] at hread
  exact absurd hread (by decide)

end ServiceCopy

end TgServer
