/-
The name `loadService` registers a service under, store by store: the block
`getLibName` fills, and the one for a path without a directory.
-/
import TgServer.AdminRequests
import TgServer.RegistryLoads

namespace TgServer

open Bytes

/-- `getLibName` with its two blocks; the inner `none` leaves `*ppName` as it
is, the outer one is a store outside of a block. -/
def getLibNameStores (stack junk : Nat → Byte) (path : List Byte)
    (below : Byte) : Option (Option (List Byte)) := do
  let size := path.length + 1
  let buf ← store (malloc size stack) 0 (List.replicate size 0)
  let buf ← store buf 0 path
  let buf ← store buf (size - 1) [0]
  let pos := lastFindSeparator (← cString buf) (ascii "/") [] below
  if 0 ≤ pos then
    let nsize := size - pos.toNat
    let pc ← store (malloc nsize junk) 0 (List.replicate nsize 0)
    let pc ← store pc 0 (strncpy (buf.drop (pos.toNat + 1)) (nsize - 1))
    return some pc
  else return none

/-- `sizeof(5)`, the size of an `int`. -/
def sizeofFive : Nat := 4

/-- The name of a service whose path has no directory: ten octets are cleared
in a block of `sizeof(5)`. -/
def numberName (junk : Nat → Byte) (sID : Int) : Option (List Byte) := do
  let pLibName ← store (malloc sizeofFive junk) 0 (List.replicate 10 0)
  store pLibName 0 (Decimal.text sID ++ [0])

/-- The name as `loadService` builds it for the service of number `sID`. -/
def libNameStores (stack junk : Nat → Byte) (call : LoadCall) (sID : Int) :
    Option (List Byte) := do
  match ← getLibNameStores stack junk call.path call.below with
  | some pLibName => return pLibName
  | none => numberName junk sID

/-- What stands behind the last `/` of a path, or the number if it has none. -/
def NameOf (path : List Byte) (sID : Int) (name : List Byte) : Prop :=
  char '/' ∉ name ∧ (∃ directory, path = directory ++ char '/' :: name) ∨
    char '/' ∉ path ∧ name = Decimal.text sID

/-- A service is registered under a block that was filled without a store
outside of it and reads as the name of the path. -/
def RegistersName (stack junk : Nat → Byte) (g g' : Registry)
    (call : LoadCall) : Prop :=
  ∃ pService block name, g'.objects = g.objects ++ [pService] ∧
    pService.serviceName = some block ∧
    libNameStores stack junk call g.sID = some block ∧
    cString block = some name ∧ NameOf call.path g.sID name

/-- A text that has an octet is split at the last one. -/
theorem split_last {c : Byte} {text : List Byte} (hmem : c ∈ text) :
    ∃ front back, text = front ++ c :: back ∧ c ∉ back := by
  obtain ⟨back, front, hsplit, hback⟩ :=
    List.eq_append_cons_of_mem (List.mem_reverse.mpr hmem)
  refine ⟨front.reverse, back.reverse, ?_, fun h => hback (List.mem_reverse.mp h)⟩
  have hreverse := congrArg List.reverse hsplit
  rw [List.reverse_reverse] at hreverse
  simpa using hreverse

theorem nul_notMem_name {directory name : List Byte}
    (hnul : 0 ∉ directory ++ char '/' :: name) : 0 ∉ name :=
  fun hmem => hnul (List.mem_append_right _ (List.mem_cons_of_mem _ hmem))

/-- Without the octet the backward loop ends below 0, whatever stands there. -/
theorem lastFindSeparatorFrom_absent (behind : List Byte) (below : Byte)
    {c : Byte} (hc : c ≠ 0) {source : List Byte} (habsent : c ∉ source)
    (pos : Nat) :
    lastFindSeparatorFrom source [c] behind below pos < 0 := by
  induction pos with
  | zero =>
      rw [lastFindSeparatorFrom]
      split <;> decide
  | succ pos ih =>
      have hne : (source.getD pos 0 == c) = false := by
        rw [List.getD_eq_getElem?_getD]
        cases hget : source[pos]? with
        | none => exact beq_eq_false_iff_ne.mpr (Ne.symm hc)
        | some d =>
            exact beq_eq_false_iff_ne.mpr fun heq =>
              habsent (heq ▸ List.mem_of_getElem? hget)
      rw [lastFindSeparatorFrom, separatorAt_octet behind hc, hne]
      exact ih

theorem lastFindSeparator_absent (behind : List Byte) (below : Byte) {c : Byte}
    (hc : c ≠ 0) {source : List Byte} (habsent : c ∉ source) :
    lastFindSeparator source [c] behind below < 0 := by
  rw [lastFindSeparator]
  split
  · decide
  · exact lastFindSeparatorFrom_absent behind below hc habsent _

section GetLibName

variable (stack junk : Nat → Byte) {path : List Byte} (hnul : 0 ∉ path)
variable (below : Byte)

include hnul

/-- The copy of the path stays inside its array and ends with a NUL. -/
theorem getLibNameStores_eq :
    getLibNameStores stack junk path below =
      (let pos := lastFindSeparator path (ascii "/") [] below
       let nsize := path.length + 1 - pos.toNat
       if 0 ≤ pos then
         some (some (strncpy ((path ++ [0]).drop (pos.toNat + 1)) (nsize - 1) ++
           List.replicate (nsize - (nsize - 1)) 0))
       else some none) := by
  have hclear : store (malloc (path.length + 1) stack) 0
      (List.replicate (path.length + 1) 0) =
        some (List.replicate (path.length + 1) 0) := by
    rw [store_zero _ _ (by simp)]
    simp
  have hcopy : store (List.replicate (path.length + 1) 0) 0 path =
      some (path ++ [0]) := by
    rw [store_zero _ _ (by simp), List.drop_replicate]
    simp
  have hend : store (path ++ [0]) path.length [0] = some (path ++ [0]) := by
    rw [store_append _ _ _ (by simp)]
    simp
  have htext : cString (path ++ [0]) = some path := cString_terminated [] hnul
  simp only [getLibNameStores, hclear, hcopy, hend, htext, Nat.add_sub_cancel,
    Option.bind_eq_bind, Option.bind_some]
  split
  · rw [store_zero _ _ (by simp), Option.bind_some, List.length_replicate,
      List.drop_of_length_le (by simp), List.append_nil,
      store_zero _ _ (by rw [length_strncpy]; simp), length_strncpy,
      List.drop_replicate]
    rfl
  · rfl

/-- Both stores of the name stay inside the block, and what they leave is what
stands behind the last `/`. -/
theorem getLibNameStores_directory {directory name : List Byte}
    (hpath : path = directory ++ char '/' :: name) (hname : char '/' ∉ name) :
    getLibNameStores stack junk path below = some (some (name ++ 0 :: [0])) := by
  have hpos : lastFindSeparator path (ascii "/") [] below = directory.length :=
    hpath ▸ lastFindSeparator_split [] below (by decide) directory hname
  have hfree : 0 ∉ name := nul_notMem_name (hpath ▸ hnul)
  have hsize : path.length + 1 - directory.length = name.length + 2 := by
    rw [hpath, List.length_append, List.length_cons]
    omega
  have hdrop : (path ++ [0]).drop (directory.length + 1) = name ++ [0] := by
    rw [hpath, List.append_assoc, List.drop_append]
    simp
  have hcopy : strncpy (name ++ [0]) (name.length + 1) = name ++ [0] := by
    rw [strncpy, List.takeWhile_append_of_pos
      (List.takeWhile_eq_self_iff.mp (takeWhile_nonzero hfree))]
    have htake : name.take (name.length + 1) = name :=
      List.take_of_length_le (Nat.le_succ _)
    simp [htake]
  have hnonneg : (0 : Int) ≤ directory.length := Int.natCast_nonneg _
  rw [getLibNameStores_eq stack junk hnul below, hpos]
  simp only [if_pos hnonneg, Int.toNat_natCast, hsize, hdrop,
    Nat.add_succ_sub_one, hcopy]
  simp

theorem getLibNameStores_plain (hplain : char '/' ∉ path) :
    getLibNameStores stack junk path below = some none := by
  have hpos : ¬ 0 ≤ lastFindSeparator path (ascii "/") [] below :=
    Int.not_le.mpr (lastFindSeparator_absent [] below (by decide) hplain)
  rw [getLibNameStores_eq stack junk hnul below]
  exact if_neg hpos

end GetLibName

/-- The block of the number is too small for what is cleared in it. -/
theorem numberName_outside (junk : Nat → Byte) (sID : Int) :
    numberName junk sID = none := by
  rw [numberName, store, if_neg (by simp [sizeofFive])]
  rfl

/-- A load of a library that qualifies registers the record of the call. -/
theorem loadService_registers (slots : Nat → Nat → Option Addr) {g : Registry}
    (hsized : g.Sized) {call : LoadCall} {pService : TGService}
    (hrecord : call.record g.sID = some pService) :
    ∃ g', loadService slots g call = some g' ∧
      g'.objects = g.objects ++ [pService] := by
  let numbered : Registry :=
    { g with objects := g.objects ++ [pService], sID := g.sID + 1 }
  have hnumbered : numbered.Sized := hsized
  obtain ⟨g', hadd, -, hrecords, -⟩ :=
    addService_sized slots hnumbered g.objects.length
  exact ⟨g', (loadService_add slots g hrecord).trans hadd, hrecords.objects⟩

/-- A service gets the name of its path, with every store inside the block,
exactly if the path has a directory: without one the block is always too
small. -/
theorem registersName_iff (slots : Nat → Nat → Option Addr)
    (stack junk : Nat → Byte) {g : Registry} (hsized : g.Sized)
    {call : LoadCall} (hnul : 0 ∉ call.path)
    (hrecord : (call.record g.sID).isSome) :
    ∃ g', loadService slots g call = some g' ∧
      (RegistersName stack junk g g' call ↔ char '/' ∈ call.path) := by
  obtain ⟨pService, hrecord⟩ := Option.isSome_iff_exists.mp hrecord
  obtain ⟨g', hload, hobjects⟩ := loadService_registers slots hsized hrecord
  refine ⟨g', hload, ?_, ?_⟩
  · rintro ⟨-, block, -, -, -, hstores, -, -⟩
    by_contra hplain
    rw [libNameStores, getLibNameStores_plain stack junk hnul call.below hplain]
      at hstores
    simp [numberName_outside] at hstores
  · intro hmem
    obtain ⟨directory, name, hpath, hname⟩ := split_last hmem
    have hfree : 0 ∉ name := nul_notMem_name (hpath ▸ hnul)
    have hstores : libNameStores stack junk call g.sID =
        some (name ++ 0 :: [0]) := by
      rw [libNameStores, getLibNameStores_directory stack junk hnul call.below
        hpath hname]
      rfl
    refine ⟨pService, _, name, hobjects, ?_, hstores,
      cString_terminated [0] hfree, .inl ⟨hname, directory, hpath⟩⟩
    rw [(record_name hrecord).2, libName, hpath,
      getLibName_path [] call.below directory hname hfree, Option.getD_some]

namespace LibraryName

def library : Library := ⟨some 1, some 2, some 3, some 4, some 5⟩

def junk : Nat → Byte := fun _ => 0xff

/-- The path of a library found in a directory of services. -/
def inDirectory : LoadCall := ⟨ascii "../services/libecho.so", some library, 0⟩

/-- The same library, found by the loader along its search path. -/
def bare : LoadCall := ⟨ascii "libecho.so", some library, 0⟩

theorem registersName_iff_directory :
    ∃ g', loadService (fun _ _ => none) Registry.initial inDirectory = some g' ∧
      RegistersName junk junk Registry.initial g' inDirectory := by
  have hsized : Registry.initial.Sized := rfl
  have hnul : 0 ∉ inDirectory.path := by decide
  obtain ⟨g', hload, hnamed⟩ :=
    registersName_iff (fun _ _ => none) junk junk hsized hnul rfl
  exact ⟨g', hload, hnamed.mpr (by decide)⟩

/-- Ten octets are cleared in a block of four, although the name "0" would
fit. -/
theorem registersName_overflow :
    ∃ g', loadService (fun _ _ => none) Registry.initial bare = some g' ∧
      libNameStores junk junk bare 0 = none ∧
      ¬ RegistersName junk junk Registry.initial g' bare := by
  refine ⟨_, rfl, rfl, ?_⟩
  rintro ⟨-, block, -, -, -, hstores, -⟩
  cases hstores

end LibraryName

end TgServer
