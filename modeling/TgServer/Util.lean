/-
The string helpers of `tg_util.c`.  Strings are given by their texts; `behind`
is what lies behind the single `char` the comparisons start at.
-/
import TgServer.Bytes

namespace TgServer

open Bytes

/-- `char pt = c[pos]; strncmp(&pt, seopr, sLen) == 0`. -/
def separatorAt (behind seopr : List Byte) (pt : Byte) : Bool :=
  strncmpEq ((pt :: behind).takeWhile (· != 0)) seopr seopr.length

/-- The loop of `findSeparator`, from position `pos` on. -/
def findSeparatorFrom (behind seopr : List Byte) : List Byte → Int → Int
  | [], _ => -1
  | pt :: c, pos =>
      if separatorAt behind seopr pt then pos
      else findSeparatorFrom behind seopr c (pos + 1)

def findSeparator (source seopr behind : List Byte) : Int :=
  let sLen := seopr.length
  let fLen := source.length
  if fLen < sLen then -1
  else
    findSeparatorFrom behind seopr ((source ++ [0]).take (fLen - sLen + 1)) 0

theorem separatorAt_octet (behind : List Byte) {c : Byte} (hc : c ≠ 0)
    (pt : Byte) : separatorAt behind [c] pt = (pt == c) := by
  rw [separatorAt, List.takeWhile_cons]
  by_cases hpt : pt = 0
  · subst hpt
    simp [strncmpEq, Ne.symm hc]
  · simp [strncmpEq, hpt]

/-- The loop for a single octet finds the first one there is. -/
theorem findSeparatorFrom_octet (behind : List Byte) {c : Byte} (hc : c ≠ 0)
    (source : List Byte) (pos : Int) :
    findSeparatorFrom behind [c] source pos =
      match source.findIdx? (· == c) with
      | some i => pos + i
      | none => -1 := by
  induction source generalizing pos with
  | nil => rfl
  | cons pt rest ih =>
      rw [findSeparatorFrom, separatorAt_octet behind hc, List.findIdx?_cons]
      cases pt == c with
      | true => simp
      | false =>
          simp only [Bool.false_eq_true, ↓reduceIte, ih]
          cases rest.findIdx? (· == c) with
          | none => rfl
          | some i =>
              change pos + 1 + (i : Int) = pos + ((i + 1 : Nat) : Int)
              omega

theorem findSeparator_octet (behind : List Byte) {c : Byte} (hc : c ≠ 0)
    (source : List Byte) :
    findSeparator source [c] behind =
      match source.findIdx? (· == c) with
      | some i => (i : Int)
      | none => -1 := by
  rw [findSeparator]
  cases source with
  | nil => rfl
  | cons pt rest =>
      have hlong : ¬(pt :: rest).length < [c].length := by simp
      have htake : ((pt :: rest) ++ [0]).take
          ((pt :: rest).length - [c].length + 1) = pt :: rest := by
        rw [List.length_singleton, Nat.sub_add_cancel (by simp),
          List.take_left]
      simp only [if_neg hlong, htake, findSeparatorFrom_octet behind hc]
      cases (pt :: rest).findIdx? (· == c) with
      | none => rfl
      | some i => exact Int.zero_add _

/-- In a text without the octet none is found. -/
theorem findSeparator_none (behind : List Byte) {c : Byte} (hc : c ≠ 0)
    {source : List Byte} (hsource : c ∉ source) :
    findSeparator source [c] behind = -1 := by
  have hidx : source.findIdx? (· == c) = none := by
    rw [List.findIdx?_eq_none_iff]
    intro d hd
    exact beq_eq_false_iff_ne.mpr fun heq => hsource (heq ▸ hd)
  rw [findSeparator_octet behind hc, hidx]

/-- A text is split at the first octet of a kind. -/
theorem findSeparator_split (behind : List Byte) {c : Byte} (hc : c ≠ 0)
    {front : List Byte} (hfront : c ∉ front) (back : List Byte) :
    findSeparator (front ++ c :: back) [c] behind = front.length := by
  have hidx : (front ++ c :: back).findIdx? (· == c) = some front.length := by
    have hnone : front.findIdx? (· == c) = none := by
      rw [List.findIdx?_eq_none_iff]
      intro d hd
      exact beq_eq_false_iff_ne.mpr fun heq => hfront (heq ▸ hd)
    simp [List.findIdx?_append, hnone, List.findIdx?_cons]
  rw [findSeparator_octet behind hc, hidx]

/-- The loop of `lastFindSeparator`, entered with `pos`.  Its last round looks
at the octet below the buffer and leaves -1 or -2. -/
def lastFindSeparatorFrom (source seopr behind : List Byte) (below : Byte) :
    Nat → Int
  | 0 => if separatorAt behind seopr below then -1 else -2
  | pos + 1 =>
      if separatorAt behind seopr (source.getD pos 0) then pos
      else lastFindSeparatorFrom source seopr behind below pos

def lastFindSeparator (source seopr behind : List Byte) (below : Byte) : Int :=
  let sLen := seopr.length
  let fLen := source.length
  if fLen < sLen then -1
  else lastFindSeparatorFrom source seopr behind below (fLen - sLen + 1)

/-- The backward loop for a single octet finds the last one there is. -/
theorem lastFindSeparatorFrom_split (behind : List Byte) (below : Byte)
    {c : Byte} (hc : c ≠ 0) (front : List Byte) {back : List Byte}
    (hback : c ∉ back) {n : Nat} (hn : n ≤ back.length) :
    lastFindSeparatorFrom (front ++ c :: back) [c] behind below
      (front.length + 1 + n) = front.length := by
  induction n with
  | zero =>
      have hget : (front ++ c :: back).getD front.length 0 = c := by
        rw [List.getD_append_right _ _ _ _ (Nat.le_refl _), Nat.sub_self,
          List.getD_cons_zero]
      rw [Nat.add_zero, lastFindSeparatorFrom, hget,
        separatorAt_octet behind hc, beq_self_eq_true, if_pos rfl]
  | succ n ih =>
      have hget : (front ++ c :: back).getD (front.length + 1 + n) 0 =
          back[n] := by
        rw [List.getD_append_right _ _ _ _ (by omega),
          show front.length + 1 + n - front.length = n + 1 by omega,
          List.getD_cons_succ, List.getD_eq_getElem _ _ hn]
      have hne : (back[n] == c) = false :=
        beq_eq_false_iff_ne.mpr fun heq => hback (heq ▸ List.getElem_mem hn)
      rw [← Nat.add_assoc, lastFindSeparatorFrom, hget,
        separatorAt_octet behind hc, hne]
      simpa using ih (Nat.le_of_succ_le hn)

theorem lastFindSeparator_split (behind : List Byte) (below : Byte) {c : Byte}
    (hc : c ≠ 0) (front : List Byte) {back : List Byte} (hback : c ∉ back) :
    lastFindSeparator (front ++ c :: back) [c] behind below =
      front.length := by
  have hlength : (front ++ c :: back).length =
      front.length + 1 + back.length := by
    rw [List.length_append, List.length_cons]
    omega
  have hstart : front.length + 1 + back.length - 1 + 1 =
      front.length + 1 + back.length := by omega
  have hlong : ¬ front.length + 1 + back.length < 1 := by omega
  simp only [lastFindSeparator, hlength, List.length_singleton, if_neg hlong,
    hstart]
  exact lastFindSeparatorFrom_split behind below hc front hback (Nat.le_refl _)

/-- The block `getLibName` hands out, if it finds a separator. -/
def getLibName (path behind : List Byte) (below : Byte) : Option (List Byte) :=
  let size := path.length + 1
  let pos := lastFindSeparator path (ascii "/") behind below
  if 0 ≤ pos then
    let nsize := size - pos.toNat
    some (strncpy (path.drop (pos.toNat + 1)) (nsize - 1) ++ [0])
  else none

/-- The library name is what stands behind the last separator of the path. -/
theorem getLibName_path (behind : List Byte) (below : Byte)
    (directory : List Byte) {name : List Byte} (hname : char '/' ∉ name)
    (hnul : 0 ∉ name) :
    getLibName (directory ++ char '/' :: name) behind below =
      some (name ++ 0 :: [0]) := by
  have hpos : lastFindSeparator (directory ++ char '/' :: name) (ascii "/")
      behind below = directory.length :=
    lastFindSeparator_split behind below (by decide) directory hname
  have hsize : (directory ++ char '/' :: name).length + 1 -
      directory.length - 1 = name.length + 1 := by
    rw [List.length_append, List.length_cons]
    omega
  have hdrop : (directory ++ char '/' :: name).drop (directory.length + 1) =
      name := by
    rw [List.drop_append]
    simp
  have hnonneg : (0 : Int) ≤ directory.length := Int.natCast_nonneg _
  have htake : name.take (name.length + 1) = name :=
    List.take_of_length_le (Nat.le_succ _)
  simp only [getLibName, hpos, if_pos hnonneg, Int.toNat_natCast, hdrop, hsize,
    strncpy, takeWhile_nonzero hnul, htake]
  simp

end TgServer
