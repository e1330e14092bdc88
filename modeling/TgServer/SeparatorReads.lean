/-
What the two searches of `tg_util.c` read.  `strncmp` starts at the local `pt`,
one octet wide, and the backward loop steps below the copy of the source, so
here every read is checked: `none` is a read outside of what the function has.
-/
import Mathlib.Order.Bounds.Basic
import TgServer.Util

namespace TgServer

open Bytes

/-- A size kept in an `int`; one that does not fit has no value there. -/
def asInt (n : Nat) : Option Nat :=
  if n < 2 ^ 31 then some n else none

/-- `rounds` rounds of the loop of `findSeparator`, from position `pos` on. -/
def findSeparatorRounds (cs seopr : List Byte) : Nat → Nat → Option Int
  | 0, _ => some (-1)
  | rounds + 1, pos => do
      let pt ← cs[pos]?
      if ← startsWith [pt] seopr then return pos
      findSeparatorRounds cs seopr rounds (pos + 1)

/-- The loop of `lastFindSeparator`, entered with `pos`.  The test `pos-- >= 0`
lets 0 pass, and that round reads `c[-1]`. -/
def lastFindSeparatorRounds (cs seopr : List Byte) : Nat → Option Int
  | 0 => none
  | pos + 1 => do
      let pt ← cs[pos]?
      if ← startsWith [pt] seopr then return pos
      lastFindSeparatorRounds cs seopr pos

/-- Both functions compare the lengths, copy the source into `c[fLen + 1]` and
run their loop on the copy. -/
def searchCopy (loop : List Byte → Nat → Option Int)
    (source seopr : List Byte) : Option Int := do
  let sLen ← asInt seopr.length
  let fLen ← asInt source.length
  if fLen < sLen then return -1
  let _size ← asInt (fLen + 1)
  loop (source ++ [0]) (fLen - sLen + 1)

def findSeparatorChecked (source seopr : List Byte) : Option Int :=
  searchCopy (fun cs rounds => findSeparatorRounds cs seopr rounds 0)
    source seopr

def lastFindSeparatorChecked (source seopr : List Byte) : Option Int :=
  searchCopy (fun cs pos => lastFindSeparatorRounds cs seopr pos) source seopr

/-- The indices at which the separator stands in the source. -/
def occurrences (source seopr : List Byte) : Set Nat :=
  {i | seopr <+: source.drop i}

/-- A search that reads inside and returns the place there is among these, or
-1 if there are none. -/
def ReturnsPlace (IsPlace : Set Nat → Nat → Prop) (places : Set Nat)
    (search : Option Int) : Prop :=
  ∃ pos, search = some pos ∧
    (places = ∅ ∧ pos = -1 ∨ ∃ i : Nat, IsPlace places i ∧ pos = i)

def FindsFirst (source seopr : List Byte) : Prop :=
  ReturnsPlace IsLeast (occurrences source seopr)
    (findSeparatorChecked source seopr)

def FindsLast (source seopr : List Byte) : Prop :=
  ReturnsPlace IsGreatest (occurrences source seopr)
    (lastFindSeparatorChecked source seopr)

theorem startsWith_octet (pt s : Byte) :
    startsWith [pt] [s] = some (pt == s) := by
  by_cases hpt : pt = s <;> simp [startsWith, hpt]

/-- A comparison with more than one octet leaves `pt` if the first agrees. -/
theorem startsWith_long (pt s t : Byte) (more : List Byte) :
    startsWith [pt] (s :: t :: more) =
      if pt = s then none else some false := by
  by_cases hpt : pt = s <;> simp [startsWith, hpt]

/-- What is compared inside `pt` does not depend on the memory behind it. -/
theorem separatorAt_of_startsWith (behind : List Byte) {seopr : List Byte}
    (hseopr : 0 ∉ seopr) (hsome : seopr ≠ []) {pt : Byte} {found : Bool}
    (hstarts : startsWith [pt] seopr = some found) :
    separatorAt behind seopr pt = found := by
  obtain ⟨s, seopr, rfl⟩ := List.exists_cons_of_ne_nil hsome
  have hs : s ≠ 0 := fun heq => hseopr (heq ▸ List.mem_cons_self)
  cases seopr with
  | nil =>
      rw [startsWith_octet, Option.some.injEq] at hstarts
      rw [separatorAt_octet behind hs, hstarts]
  | cons t more =>
      rw [startsWith_long] at hstarts
      split at hstarts
      · cases hstarts
      · rename_i hpt
        obtain rfl := Option.some.inj hstarts
        rw [separatorAt, List.takeWhile_cons]
        by_cases hzero : pt = 0 <;> simp [strncmpEq, hzero, hpt]

/-- The forward loop as long as it reads inside is the unchecked one. -/
theorem findSeparatorFrom_of_rounds (behind : List Byte) {cs seopr : List Byte}
    (hseopr : 0 ∉ seopr) (hsome : seopr ≠ []) {rounds pos : Nat} {found : Int}
    (hrun : findSeparatorRounds cs seopr rounds pos = some found) :
    findSeparatorFrom behind seopr ((cs.drop pos).take rounds) pos = found := by
  induction rounds generalizing pos with
  | zero =>
      obtain rfl := Option.some.inj hrun
      rfl
  | succ rounds ih =>
      rw [findSeparatorRounds, Option.bind_eq_bind,
        Option.bind_eq_some_iff] at hrun
      obtain ⟨pt, hget, hrun⟩ := hrun
      rw [Option.bind_eq_bind, Option.bind_eq_some_iff] at hrun
      obtain ⟨equal, hstarts, hrun⟩ := hrun
      obtain ⟨hlt, rfl⟩ := List.getElem?_eq_some_iff.mp hget
      rw [List.drop_eq_getElem_cons hlt, List.take_succ_cons, findSeparatorFrom,
        separatorAt_of_startsWith behind hseopr hsome hstarts]
      cases equal with
      | true => exact Option.some.inj hrun
      | false => exact ih hrun

/-- Without a copy nothing is read; a copy needs a size that is an `int`. -/
theorem searchCopy_eq (loop : List Byte → Nat → Option Int)
    (source seopr : List Byte) :
    searchCopy loop source seopr =
      if source.length < seopr.length then
        if seopr.length < 2 ^ 31 then some (-1) else none
      else if source.length + 1 < 2 ^ 31 then
        loop (source ++ [0]) (source.length - seopr.length + 1)
      else none := by
  rw [searchCopy, asInt, asInt]
  by_cases hshort : source.length < seopr.length
  · rw [if_pos hshort]
    split
    · rename_i hsLen
      rw [if_pos (show source.length < 2 ^ 31 by omega)]
      exact if_pos hshort
    · rfl
  · rw [if_neg hshort]
    split
    · split
      · exact (if_neg hshort).trans (by rw [asInt]; split <;> rfl)
      · rename_i hfLen
        rw [if_neg (by omega)]
        rfl
    · rename_i hsLen
      have hsize : ¬ source.length + 1 < 2 ^ 31 := by omega
      rw [if_neg hsize]
      rfl

theorem findSeparator_of_checked (behind : List Byte)
    {source seopr : List Byte} (hseopr : 0 ∉ seopr) (hsome : seopr ≠ [])
    {found : Int} (hrun : findSeparatorChecked source seopr = some found) :
    findSeparator source seopr behind = found := by
  rw [findSeparatorChecked, searchCopy_eq] at hrun
  rw [findSeparator]
  split at hrun
  · rename_i hshort
    rw [if_pos hshort]
    split at hrun
    · exact Option.some.inj hrun
    · cases hrun
  · rename_i hlong
    rw [if_neg hlong]
    split at hrun
    · exact findSeparatorFrom_of_rounds behind hseopr hsome hrun
    · cases hrun

/-- The backward loop as long as it reads inside is the unchecked one. -/
theorem lastFindSeparatorFrom_of_rounds (behind : List Byte) (below : Byte)
    {source seopr : List Byte} (hseopr : 0 ∉ seopr) (hsome : seopr ≠ [])
    {pos : Nat} (hin : pos ≤ source.length) {found : Int}
    (hrun : lastFindSeparatorRounds (source ++ [0]) seopr pos = some found) :
    lastFindSeparatorFrom source seopr behind below pos = found := by
  induction pos with
  | zero => cases hrun
  | succ pos ih =>
      have hget : (source ++ [0])[pos]? = some (source.getD pos 0) := by
        rw [List.getElem?_append_left hin, List.getD_eq_getElem _ _ hin,
          List.getElem?_eq_getElem hin]
      rw [lastFindSeparatorRounds, hget, Option.bind_eq_bind,
        Option.bind_some, Option.bind_eq_bind, Option.bind_eq_some_iff] at hrun
      obtain ⟨equal, hstarts, hrun⟩ := hrun
      rw [lastFindSeparatorFrom,
        separatorAt_of_startsWith behind hseopr hsome hstarts]
      cases equal with
      | true => exact Option.some.inj hrun
      | false => exact ih (Nat.le_of_succ_le hin) hrun

/-- Where `lastFindSeparator` reads inside, neither the memory behind `pt` nor
the octet below the copy matters. -/
theorem lastFindSeparator_of_checked (behind : List Byte) (below : Byte)
    {source seopr : List Byte} (hseopr : 0 ∉ seopr) (hsome : seopr ≠ [])
    {found : Int} (hrun : lastFindSeparatorChecked source seopr = some found) :
    lastFindSeparator source seopr behind below = found := by
  rw [lastFindSeparatorChecked, searchCopy_eq] at hrun
  rw [lastFindSeparator]
  split at hrun
  · rename_i hshort
    rw [if_pos hshort]
    split at hrun
    · exact Option.some.inj hrun
    · cases hrun
  · rename_i hlong
    rw [if_neg hlong]
    have hpos : 0 < seopr.length := List.length_pos_of_ne_nil hsome
    split at hrun
    · exact lastFindSeparatorFrom_of_rounds behind below hseopr hsome
        (by omega) hrun
    · cases hrun

theorem mem_occurrences_octet {source : List Byte} {s : Byte} {i : Nat} :
    i ∈ occurrences source [s] ↔ source[i]? = some s := by
  constructor
  · rintro ⟨back, hback⟩
    have hget : (source.drop i)[0]? = source[i]? := List.getElem?_drop
    rw [← hback] at hget
    exact hget.symm
  · intro hget
    obtain ⟨hlt, rfl⟩ := List.getElem?_eq_some_iff.mp hget
    exact ⟨source.drop (i + 1), (List.drop_eq_getElem_cons hlt).symm⟩

/-- A separator stands only where its first octet does, with room for all of
it. -/
theorem getElem_of_mem_occurrences {source seopr : List Byte} {s : Byte}
    {i : Nat} (hi : i ∈ occurrences source (s :: seopr)) :
    source[i]? = some s ∧ i + (s :: seopr).length ≤ source.length := by
  obtain ⟨back, hback⟩ := hi
  have hget : (source.drop i)[0]? = source[i]? := List.getElem?_drop
  rw [← hback] at hget
  have hlength := congrArg List.length hback
  rw [List.length_append, List.length_drop, List.length_cons] at hlength
  rw [List.length_cons]
  exact ⟨hget.symm, by omega⟩

theorem occurrences_short {source seopr : List Byte} (hsome : seopr ≠ [])
    (hshort : source.length < seopr.length) :
    occurrences source seopr = ∅ := by
  obtain ⟨s, seopr, rfl⟩ := List.exists_cons_of_ne_nil hsome
  rw [Set.eq_empty_iff_forall_notMem]
  intro i hi
  have hroom := (getElem_of_mem_occurrences hi).2
  omega

theorem findSeparatorRounds_octet {cs : List Byte} {s : Byte} (hs : s ≠ 0)
    {rounds pos : Nat} (hin : pos + rounds ≤ cs.length) :
    findSeparatorRounds cs [s] rounds pos =
      some (findSeparatorFrom [] [s] ((cs.drop pos).take rounds) pos) := by
  induction rounds generalizing pos with
  | zero => rfl
  | succ rounds ih =>
      have hlt : pos < cs.length := by omega
      rw [findSeparatorRounds, List.drop_eq_getElem_cons hlt,
        List.take_succ_cons, findSeparatorFrom, separatorAt_octet [] hs,
        List.getElem?_eq_getElem hlt]
      simp only [Option.bind_eq_bind, Option.bind_some, startsWith_octet]
      split
      · rfl
      · exact ih (by omega)

/-- The forward loop for more than one octet stops with a read behind `pt` at
the first octet of the separator. -/
theorem findSeparatorRounds_long {cs : List Byte} (s t : Byte)
    (more : List Byte) {rounds pos : Nat} (hin : pos + rounds ≤ cs.length) :
    findSeparatorRounds cs (s :: t :: more) rounds pos =
      if s ∈ (cs.drop pos).take rounds then none else some (-1) := by
  induction rounds generalizing pos with
  | zero => rfl
  | succ rounds ih =>
      have hlt : pos < cs.length := by omega
      rw [findSeparatorRounds, List.drop_eq_getElem_cons hlt,
        List.take_succ_cons, List.getElem?_eq_getElem hlt]
      simp only [Option.bind_eq_bind, Option.bind_some, startsWith_long]
      by_cases hpt : cs[pos] = s
      · simp [hpt]
      · have hne : ¬ s = cs[pos] := fun heq => hpt heq.symm
        rw [if_neg hpt, Option.bind_some, if_neg (by simp), ih (by omega)]
        simp only [List.mem_cons, hne, false_or]

/-- The backward loop never finds more than one octet without a read outside:
behind `pt` where the first octet agrees, and at `c[-1]` if none does. -/
theorem lastFindSeparatorRounds_long (cs : List Byte) (s t : Byte)
    (more : List Byte) (pos : Nat) :
    lastFindSeparatorRounds cs (s :: t :: more) pos = none := by
  induction pos with
  | zero => rfl
  | succ pos ih =>
      rw [lastFindSeparatorRounds]
      cases cs[pos]? with
      | none => rfl
      | some pt =>
          simp only [Option.bind_eq_bind, Option.bind_some, startsWith_long]
          by_cases hpt : pt = s
          · rw [if_pos hpt]
            rfl
          · rw [if_neg hpt]
            exact ih

/-- The backward loop for a single octet returns the last one, and reads
`c[-1]` if there is none. -/
theorem lastFindSeparatorRounds_octet {cs : List Byte} (s : Byte) {pos : Nat}
    (hin : pos ≤ cs.length) :
    (∀ i < pos, cs[i]? ≠ some s) ∧
        lastFindSeparatorRounds cs [s] pos = none ∨
      ∃ i : Nat, IsGreatest {j | j < pos ∧ cs[j]? = some s} i ∧
        lastFindSeparatorRounds cs [s] pos = some (i : Int) := by
  induction pos with
  | zero => exact .inl ⟨fun i hi => absurd hi (Nat.not_lt_zero i), rfl⟩
  | succ pos ih =>
      have hlt : pos < cs.length := hin
      rw [lastFindSeparatorRounds, List.getElem?_eq_getElem hlt]
      simp only [Option.bind_eq_bind, Option.bind_some, startsWith_octet]
      by_cases hpt : cs[pos] = s
      · refine .inr ⟨pos, ⟨⟨Nat.lt_succ_self pos, ?_⟩, ?_⟩, ?_⟩
        · rw [List.getElem?_eq_getElem hlt, hpt]
        · exact fun j hj => Nat.le_of_lt_succ hj.1
        · rw [if_pos (beq_iff_eq.mpr hpt)]
          rfl
      · rw [if_neg (by simpa using hpt)]
        rcases ih (Nat.le_of_succ_le hin) with ⟨hnone, hrun⟩ | ⟨i, hi, hrun⟩
        · refine .inl ⟨fun i hlast => ?_, hrun⟩
          rcases Nat.lt_succ_iff_lt_or_eq.mp hlast with hbelow | rfl
          · exact hnone i hbelow
          · rw [List.getElem?_eq_getElem hlt]
            exact fun heq => hpt (Option.some.inj heq)
        · refine .inr ⟨i, ⟨⟨Nat.lt_succ_of_lt hi.1.1, hi.1.2⟩, ?_⟩, hrun⟩
          rintro j ⟨hlast, hget⟩
          rcases Nat.lt_succ_iff_lt_or_eq.mp hlast with hbelow | rfl
          · exact hi.2 ⟨hbelow, hget⟩
          · rw [List.getElem?_eq_getElem hlt] at hget
            exact absurd (Option.some.inj hget) hpt

/-- Where no copy is made, -1 is right; the length must be an `int`. -/
theorem returnsPlace_short (IsPlace : Set Nat → Nat → Prop)
    (loop : List Byte → Nat → Option Int) {source seopr : List Byte}
    (hshort : source.length < seopr.length) :
    ReturnsPlace IsPlace (occurrences source seopr)
      (searchCopy loop source seopr) ↔ seopr.length < 2 ^ 31 := by
  have hsome : seopr ≠ [] := by
    rintro rfl
    exact Nat.not_lt_zero _ hshort
  rw [searchCopy_eq, if_pos hshort]
  constructor
  · rintro ⟨pos, hrun, -⟩
    by_contra hlarge
    rw [if_neg hlarge] at hrun
    cases hrun
  · intro hsLen
    rw [if_pos hsLen]
    exact ⟨-1, rfl, .inl ⟨occurrences_short hsome hshort, rfl⟩⟩

/-- A copy is made only of a source whose size is an `int`. -/
theorem findsFirst_size {source seopr : List Byte}
    (hlong : ¬ source.length < seopr.length)
    (hfirst : FindsFirst source seopr) : source.length + 1 < 2 ^ 31 := by
  obtain ⟨pos, hrun, -⟩ := hfirst
  rw [findSeparatorChecked, searchCopy_eq, if_neg hlong] at hrun
  by_contra hsize
  rw [if_neg hsize] at hrun
  cases hrun

theorem findsFirst_octet {source : List Byte} {s : Byte} (hs : s ≠ 0)
    (hsome : source ≠ []) (hsize : source.length + 1 < 2 ^ 31) :
    FindsFirst source [s] := by
  have hlong : ¬ source.length < [s].length := by
    simpa using hsome
  have hlast : source.length - [s].length + 1 = source.length := by
    rw [List.length_singleton] at hlong ⊢
    omega
  have hrun : findSeparatorChecked source [s] =
      some (findSeparator source [s] []) := by
    rw [findSeparatorChecked, searchCopy_eq, if_neg hlong, if_pos hsize,
      findSeparator]
    exact (findSeparatorRounds_octet hs (by simp)).trans
      (by rw [if_neg hlong]; rfl)
  refine ⟨_, hrun, ?_⟩
  rw [findSeparator_octet [] hs]
  cases hidx : source.findIdx? (· == s) with
  | none =>
      refine .inl ⟨?_, rfl⟩
      rw [Set.eq_empty_iff_forall_notMem]
      intro i hi
      rw [List.findIdx?_eq_none_iff] at hidx
      have hne := hidx s (List.mem_of_getElem? (mem_occurrences_octet.mp hi))
      simp at hne
  | some i =>
      obtain ⟨hlt, hfound, hbefore⟩ := List.findIdx?_eq_some_iff_getElem.mp hidx
      refine .inr ⟨i, ⟨?_, ?_⟩, rfl⟩
      · rw [mem_occurrences_octet, List.getElem?_eq_getElem hlt,
          beq_iff_eq.mp hfound]
      · intro j hj
        by_contra hbelow
        rw [mem_occurrences_octet, List.getElem?_eq_some_iff] at hj
        obtain ⟨hj, heq⟩ := hj
        exact hbefore j (Nat.lt_of_not_le hbelow) (beq_iff_eq.mpr heq)

/-- `findSeparator` is right about a longer separator exactly if it never meets
the first octet of it. -/
theorem findsFirst_long {source : List Byte} (s t : Byte) (more : List Byte)
    (hlong : (s :: t :: more).length ≤ source.length) :
    FindsFirst source (s :: t :: more) ↔ source.length + 1 < 2 ^ 31 ∧
      s ∉ source.take (source.length - (s :: t :: more).length + 1) := by
  have hin : 0 + (source.length - (s :: t :: more).length + 1) ≤
      (source ++ [0]).length := by
    rw [List.length_append, List.length_singleton]
    omega
  have hwindow : ((source ++ [0]).drop 0).take
      (source.length - (s :: t :: more).length + 1) =
        source.take (source.length - (s :: t :: more).length + 1) := by
    rw [List.length_cons] at hlong ⊢
    exact List.take_append_of_le_length (by omega)
  rw [FindsFirst, findSeparatorChecked, searchCopy_eq,
    if_neg (Nat.not_lt.mpr hlong), findSeparatorRounds_long s t more hin,
    hwindow]
  constructor
  · rintro ⟨pos, hrun, -⟩
    split at hrun
    · rename_i hsize
      refine ⟨hsize, fun hmem => ?_⟩
      rw [if_pos hmem] at hrun
      cases hrun
    · cases hrun
  · rintro ⟨hsize, hfree⟩
    rw [if_pos hsize, if_neg hfree]
    refine ⟨-1, rfl, .inl ⟨?_, rfl⟩⟩
    rw [Set.eq_empty_iff_forall_notMem]
    intro i hi
    obtain ⟨hget, hroom⟩ := getElem_of_mem_occurrences hi
    refine hfree (List.mem_of_getElem? (i := i) ?_)
    rw [List.getElem?_take_of_lt (by omega), hget]

/-- `lastFindSeparator` is right about a single octet exactly if it is there. -/
theorem findsLast_octet {source : List Byte} (s : Byte)
    (hsome : source ≠ []) :
    FindsLast source [s] ↔ source.length + 1 < 2 ^ 31 ∧ s ∈ source := by
  have hlong : ¬ source.length < [s].length := by
    simpa using hsome
  have hlast : source.length - [s].length + 1 = source.length := by
    rw [List.length_singleton] at hlong ⊢
    omega
  have hget : ∀ i < source.length, (source ++ [0])[i]? = source[i]? :=
    fun i hi => List.getElem?_append_left hi
  rw [FindsLast, lastFindSeparatorChecked, searchCopy_eq, if_neg hlong, hlast]
  split
  · rename_i hsize
    rw [and_iff_right hsize]
    rcases lastFindSeparatorRounds_octet s
      (show source.length ≤ (source ++ [0]).length by simp)
      with ⟨hnone, hrun⟩ | ⟨i, hi, hrun⟩
    · rw [hrun]
      constructor
      · rintro ⟨pos, hpos, -⟩
        cases hpos
      · intro hmem
        obtain ⟨i, hlt, heq⟩ := List.getElem_of_mem hmem
        refine absurd ?_ (hnone i hlt)
        rw [hget i hlt, List.getElem?_eq_getElem hlt, heq]
    · have hplaces : {j | j < source.length ∧ (source ++ [0])[j]? = some s} =
          occurrences source [s] := by
        ext j
        rw [mem_occurrences_octet]
        constructor
        · rintro ⟨hlt, hj⟩
          rwa [hget j hlt] at hj
        · intro hj
          have hlt := (List.getElem?_eq_some_iff.mp hj).1
          exact ⟨hlt, (hget j hlt).trans hj⟩
      rw [hplaces] at hi
      rw [hrun]
      exact iff_of_true ⟨i, rfl, .inr ⟨i, hi, rfl⟩⟩
        (List.mem_of_getElem? (mem_occurrences_octet.mp hi.1))
  · rename_i hsize
    constructor
    · rintro ⟨pos, hpos, -⟩
      cases hpos
    · exact fun hmem => absurd hmem.1 hsize

/-- `lastFindSeparator` never gets through with a longer separator. -/
theorem not_findsLast_long {source : List Byte} (s t : Byte) (more : List Byte)
    (hlong : (s :: t :: more).length ≤ source.length) :
    ¬ FindsLast source (s :: t :: more) := by
  rintro ⟨pos, hrun, -⟩
  rw [lastFindSeparatorChecked, searchCopy_eq,
    if_neg (Nat.not_lt.mpr hlong), lastFindSeparatorRounds_long,
    ite_self] at hrun
  cases hrun

/-- Where both are right the last place is not in front of the first. -/
theorem FindsFirst.le_last {source seopr : List Byte}
    (hfirst : FindsFirst source seopr) (hlast : FindsLast source seopr) :
    ∃ first last, findSeparatorChecked source seopr = some first ∧
      lastFindSeparatorChecked source seopr = some last ∧ first ≤ last := by
  obtain ⟨first, hfirst, hleast⟩ := hfirst
  obtain ⟨last, hlast, hgreatest⟩ := hlast
  refine ⟨first, last, hfirst, hlast, ?_⟩
  rcases hleast with ⟨hempty, rfl⟩ | ⟨i, hi, rfl⟩
  · rcases hgreatest with ⟨-, rfl⟩ | ⟨j, hj, rfl⟩
    · exact Int.le_refl _
    · omega
  · rcases hgreatest with ⟨hempty, -⟩ | ⟨j, hj, rfl⟩
    · exact absurd hi.1 (hempty ▸ Set.notMem_empty i)
    · exact Int.ofNat_le.mpr (hi.2 hj.1)

/-- Both searches are right, and read nothing but the source and the separator,
exactly if the separator is longer than the source, or is a single octet that
occurs in it; `findSeparator` alone also if the octet is missing, and for a
longer separator as long as it never meets the first octet of it. -/
theorem findsSeparator_iff {source seopr : List Byte} (hseopr : 0 ∉ seopr)
    (hsome : seopr ≠ []) :
    (FindsFirst source seopr ∧ FindsLast source seopr ↔
      source.length < seopr.length ∧ seopr.length < 2 ^ 31 ∨
        source.length + 1 < 2 ^ 31 ∧ ∃ s ∈ source, seopr = [s]) ∧
    (FindsFirst source seopr ↔
      source.length < seopr.length ∧ seopr.length < 2 ^ 31 ∨
        seopr.length ≤ source.length ∧ source.length + 1 < 2 ^ 31 ∧
          (seopr.length = 1 ∨ seopr.head hsome ∉
            source.take (source.length - seopr.length + 1))) := by
  rcases Nat.lt_or_ge source.length seopr.length with hshort | hlong
  · have hfirst : FindsFirst source seopr ↔ seopr.length < 2 ^ 31 :=
      returnsPlace_short IsLeast _ hshort
    have hlast : FindsLast source seopr ↔ seopr.length < 2 ^ 31 :=
      returnsPlace_short IsGreatest _ hshort
    have hnot : ¬ ∃ s ∈ source, seopr = [s] := by
      rintro ⟨s, hs, rfl⟩
      have hpos := List.length_pos_of_mem hs
      rw [List.length_singleton] at hshort
      omega
    have hnotLong : ¬ seopr.length ≤ source.length := Nat.not_le.mpr hshort
    rw [hfirst, hlast]
    simp only [hshort, hnot, hnotLong, true_and, and_false, false_and, or_false,
      and_self]
  · have hnotShort : ¬ source.length < seopr.length := Nat.not_lt.mpr hlong
    simp only [hnotShort, hlong, false_and, false_or, true_and]
    obtain ⟨s, rest, rfl⟩ := List.exists_cons_of_ne_nil hsome
    have hs : s ≠ 0 := fun heq => hseopr (heq ▸ List.mem_cons_self)
    have hsource : source ≠ [] := by
      rintro rfl
      exact Nat.not_succ_le_zero _ hlong
    cases rest with
    | nil =>
        have hfirst : source.length + 1 < 2 ^ 31 → FindsFirst source [s] :=
          findsFirst_octet hs hsource
        have hsize : FindsFirst source [s] → source.length + 1 < 2 ^ 31 :=
          findsFirst_size hnotShort
        constructor
        · rw [findsLast_octet s hsource]
          constructor
          · rintro ⟨-, hsize, hmem⟩
            exact ⟨hsize, s, hmem, rfl⟩
          · rintro ⟨hsize, t, hmem, heq⟩
            obtain rfl : s = t := (List.cons.inj heq).1
            exact ⟨hfirst hsize, hsize, hmem⟩
        · exact ⟨fun h => ⟨hsize h, .inl rfl⟩, fun h => hfirst h.1⟩
    | cons t more =>
        constructor
        · refine iff_of_false ?_ ?_
          · rintro ⟨-, hlast⟩
            exact not_findsLast_long s t more hlong hlast
          · rintro ⟨-, u, -, heq⟩
            cases heq
        · rw [findsFirst_long s t more hlong]
          simp

namespace SeparatorReads

theorem findsSeparator_iff_path :
    (FindsFirst (ascii "ssdfsdf/wefw.so") (ascii "/") ∧
        FindsLast (ascii "ssdfsdf/wefw.so") (ascii "/")) ∧
      FindsFirst (ascii "/ewfwe=234") (ascii "z=") :=
  ⟨(findsSeparator_iff (by decide) (by decide)).1.mpr
      (.inr ⟨by decide, char '/', by decide, rfl⟩),
    (findsSeparator_iff (by decide) (by decide)).2.mpr
      (.inr ⟨by decide, by decide, .inr (by decide)⟩)⟩

/-- A missing octet makes `lastFindSeparator` read `c[-1]` and return -2, and a
separator of two octets makes both read behind `pt`: with a NUL there the first
of them misses the place the separator stands at. -/
theorem findsSeparator_outside :
    ¬ FindsLast (ascii "libecho.so") (ascii "/") ∧
      lastFindSeparator (ascii "libecho.so") (ascii "/") [] 0 = -2 ∧
      ¬ FindsFirst (ascii "name=log") (ascii "=l") ∧
      findSeparator (ascii "name=log") (ascii "=l") [0] = -1 ∧
      4 ∈ occurrences (ascii "name=log") (ascii "=l") := by
  refine ⟨?_, by decide, ?_, by decide, ⟨ascii "og", by decide⟩⟩
  · rintro ⟨pos, hrun, -⟩
    cases hrun
  · rintro ⟨pos, hrun, -⟩
    cases hrun

end SeparatorReads

end TgServer
