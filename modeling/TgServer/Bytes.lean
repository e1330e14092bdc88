/-
Octets as a C program on a little-endian machine sees them: 32-bit words and
signed integers assembled from four bytes, memory blocks with checked stores,
and NUL-terminated strings.
-/
import Mathlib.Data.Nat.Bitwise
import Mathlib.Data.List.Basic
import Mathlib.Data.List.TakeWhile

namespace Bytes

abbrev Byte := UInt8

/-- An address that is not NULL. -/
abbrev Addr := Nat

/-- The octets of a string literal, without its terminating NUL. -/
def ascii (text : String) : List Byte :=
  text.toList.map fun c => c.toNat.toUInt8

/-- The octet of a character literal. -/
def char (c : Char) : Byte := c.toNat.toUInt8

/-- `b3 << 24 | b2 << 16 | b1 << 8 | b0` on unsigned operands. -/
def word (b0 b1 b2 b3 : Byte) : UInt32 :=
  b3.toUInt32 <<< 24 ||| b2.toUInt32 <<< 16 ||| b1.toUInt32 <<< 8 |||
    b0.toUInt32

/-- The four octets a 32-bit integer occupies in memory, low octet first. -/
def le32 (n : Nat) : List Byte :=
  [UInt8.ofNat n, UInt8.ofNat (n / 256), UInt8.ofNat (n / 65536),
    UInt8.ofNat (n / 16777216)]

/-- The word stored in the first four octets. -/
def wordAt (bytes : List Byte) : UInt32 :=
  word (bytes.getD 0 0) (bytes.getD 1 0) (bytes.getD 2 0) (bytes.getD 3 0)

/-- The same four octets read as a signed `int`. -/
def intAt (bytes : List Byte) : Int :=
  (wordAt bytes).toInt32.toInt

@[simp] theorem length_le32 (n : Nat) : (le32 n).length = 4 := rfl

theorem shiftLeft_or (a b i : Nat) (hb : b < 2 ^ i) :
    a <<< i ||| b = a * 2 ^ i + b := by
  rw [← Nat.shiftLeft_add_eq_or_of_lt hb, Nat.shiftLeft_eq]

theorem toNat_shiftLeft_byte (b : Byte) (i : UInt32) (hi : i.toNat ≤ 24) :
    (b.toUInt32 <<< i).toNat = b.toNat <<< i.toNat := by
  have hb := b.toNat_lt
  have hpow : 2 ^ i.toNat ≤ 2 ^ 24 := Nat.pow_le_pow_right (by decide) hi
  have hmod : i.toNat % 32 = i.toNat := Nat.mod_eq_of_lt (by omega)
  rw [UInt32.toNat_shiftLeft, hmod, UInt8.toNat_toUInt32, Nat.shiftLeft_eq]
  apply Nat.mod_eq_of_lt
  calc b.toNat * 2 ^ i.toNat < 2 ^ 8 * 2 ^ i.toNat :=
        Nat.mul_lt_mul_of_pos_right hb (Nat.two_pow_pos _)
    _ ≤ 2 ^ 8 * 2 ^ 24 := Nat.mul_le_mul_left _ hpow
    _ = 2 ^ 32 := by decide

/-- The shifts of `word` never overlap, so the disjunction is a sum. -/
theorem word_toNat (b0 b1 b2 b3 : Byte) :
    (word b0 b1 b2 b3).toNat =
      b0.toNat + 256 * b1.toNat + 65536 * b2.toNat + 16777216 * b3.toNat := by
  have h0 := b0.toNat_lt
  have h1 := b1.toNat_lt
  have h2 := b2.toNat_lt
  simp only [word, UInt32.toNat_or]
  rw [toNat_shiftLeft_byte b3 24 (by decide),
    toNat_shiftLeft_byte b2 16 (by decide),
    toNat_shiftLeft_byte b1 8 (by decide), UInt8.toNat_toUInt32]
  have hlow : b1.toNat <<< 8 ||| b0.toNat = b1.toNat * 2 ^ 8 + b0.toNat :=
    shiftLeft_or _ _ 8 h0
  have hmid : b2.toNat <<< 16 ||| (b1.toNat * 2 ^ 8 + b0.toNat) =
      b2.toNat * 2 ^ 16 + (b1.toNat * 2 ^ 8 + b0.toNat) :=
    shiftLeft_or _ _ 16 (by omega)
  have hhigh : b3.toNat <<< 24 |||
      (b2.toNat * 2 ^ 16 + (b1.toNat * 2 ^ 8 + b0.toNat)) =
      b3.toNat * 2 ^ 24 +
        (b2.toNat * 2 ^ 16 + (b1.toNat * 2 ^ 8 + b0.toNat)) :=
    shiftLeft_or _ _ 24 (by omega)
  change b3.toNat <<< 24 ||| b2.toNat <<< 16 ||| b1.toNat <<< 8 ||| b0.toNat = _
  rw [Nat.lor_assoc, Nat.lor_assoc, hlow, hmid, hhigh]
  omega

theorem toInt_toInt32 (w : UInt32) :
    w.toInt32.toInt =
      if w.toNat < 2 ^ 31 then (w.toNat : Int) else w.toNat - 2 ^ 32 := by
  change BitVec.toInt w.toBitVec = _
  rw [BitVec.toInt_eq_toNat_cond]
  change (if 2 * w.toNat < 2 ^ 32 then (w.toNat : Int) else w.toNat - 2 ^ 32) = _
  split <;> split <;> omega

theorem wordAt_le32_append (n : Nat) (hn : n < 2 ^ 32) (rest : List Byte) :
    (wordAt (le32 n ++ rest)).toNat = n := by
  change (word (UInt8.ofNat n) (UInt8.ofNat (n / 256))
    (UInt8.ofNat (n / 65536)) (UInt8.ofNat (n / 16777216))).toNat = n
  rw [word_toNat]
  simp only [UInt8.toNat_ofNat']
  omega

theorem intAt_le32_append (n : Nat) (hn : n < 2 ^ 31) (rest : List Byte) :
    intAt (le32 n ++ rest) = n := by
  have hword := wordAt_le32_append n (by omega) rest
  rw [intAt, toInt_toInt32, hword, if_pos hn]

/-- Only the first four octets matter. -/
theorem intAt_take {bytes : List Byte} {n : Nat} (hn : 4 ≤ n) :
    intAt (bytes.take n) = intAt bytes := by
  have hget : ∀ i < 4, (bytes.take n).getD i 0 = bytes.getD i 0 := by
    intro i hi
    rw [List.getD_eq_getElem?_getD, List.getD_eq_getElem?_getD,
      List.getElem?_take_of_lt (by omega)]
  simp only [intAt, wordAt, hget 0 (by decide), hget 1 (by decide),
    hget 2 (by decide), hget 3 (by decide)]

/-- A block fresh from `malloc`: its length is what was asked for, its content
is whatever the memory held. -/
def malloc (size : Nat) (junk : Nat → Byte) : List Byte :=
  (List.range size).map junk

/-- Copy `source` into a block from `offset` on; `none` is a store outside the
block. -/
def store (block : List Byte) (offset : Nat) (source : List Byte) :
    Option (List Byte) :=
  if offset + source.length ≤ block.length then
    some (block.take offset ++ source ++ block.drop (offset + source.length))
  else none

@[simp] theorem length_malloc (size : Nat) (junk : Nat → Byte) :
    (malloc size junk).length = size := by
  simp [malloc]

theorem length_store {block source result : List Byte} {offset : Nat}
    (hstore : store block offset source = some result) :
    result.length = block.length := by
  unfold store at hstore
  split at hstore
  · rename_i hle
    rw [Option.some.injEq] at hstore
    subst hstore
    simp only [List.length_append, List.length_take, List.length_drop]
    omega
  · cases hstore

/-- A store that continues a filled prefix extends that prefix. -/
theorem store_append (front source tail : List Byte)
    (hle : source.length ≤ tail.length) :
    store (front ++ tail) front.length source =
      some (front ++ source ++ tail.drop source.length) := by
  have hfit : front.length + source.length ≤ (front ++ tail).length := by
    rw [List.length_append]
    omega
  rw [store, if_pos hfit, List.take_left, List.drop_append]
  have hnil : List.drop (front.length + source.length) front = [] :=
    List.drop_eq_nil_of_le (by omega)
  rw [hnil, List.nil_append, Nat.add_sub_cancel_left]

/-- A store at the start of a block. -/
theorem store_zero (block source : List Byte)
    (hle : source.length ≤ block.length) :
    store block 0 source = some (source ++ block.drop source.length) := by
  simpa using store_append [] source block hle

/-- The text of a NUL-terminated string; `none` when the block holds no NUL,
so that reading it would run past its end. -/
def cString (block : List Byte) : Option (List Byte) :=
  let text := block.takeWhile (· != 0)
  if text.length < block.length then some text else none

/-- `strcmp` of the string in a block and a text returns 0; `none` when it runs
past the end of the block. -/
def strcmpEq : List Byte → List Byte → Option Bool
  | [], _ => none
  | b :: _, [] => some (b == 0)
  | b :: block, t :: text =>
      if b = t then strcmpEq block text else some false

/-- `strncmp(block, text, strlen(text))` returns 0. -/
def startsWith : List Byte → List Byte → Option Bool
  | _, [] => some true
  | [], _ :: _ => none
  | b :: block, t :: text =>
      if b = t then startsWith block text else some false

/-- `strncmp` of two strings, given by their texts, returns 0. -/
def strncmpEq (left right : List Byte) (n : Nat) : Bool :=
  left.take n == right.take n

/-- The `n` octets `strncpy` stores: the text cut at `n`, padded with NUL. -/
def strncpy (source : List Byte) (n : Nat) : List Byte :=
  let text := (source.takeWhile (· != 0)).take n
  text ++ List.replicate (n - text.length) 0

/-- A comparison with a terminated block stays inside it. -/
theorem strcmpEq_defined {block text : List Byte} (hblock : 0 ∈ block)
    (htext : 0 ∉ text) : ∃ equal, strcmpEq block text = some equal := by
  induction block generalizing text with
  | nil => cases hblock
  | cons b block ih =>
      cases text with
      | nil => exact ⟨_, rfl⟩
      | cons t text =>
          by_cases hbt : b = t
          · subst hbt
            have hb : (0 : Byte) ≠ b := fun heq =>
              htext (heq ▸ List.mem_cons_self)
            have htail : 0 ∈ block :=
              (List.mem_cons.mp hblock).resolve_left hb
            obtain ⟨equal, hequal⟩ := ih htail fun hmem =>
              htext (List.mem_cons_of_mem _ hmem)
            exact ⟨equal, by rw [strcmpEq, if_pos rfl, hequal]⟩
          · exact ⟨false, by rw [strcmpEq, if_neg hbt]⟩

/-- A comparison with a text looks for it at the start of the block. -/
theorem startsWith_true {block text : List Byte}
    (hstarts : startsWith block text = some true) : text <+: block := by
  induction text generalizing block with
  | nil => exact List.nil_prefix
  | cons t text ih =>
      cases block with
      | nil => cases hstarts
      | cons b block =>
          rw [startsWith] at hstarts
          split at hstarts
          · rename_i heq
            rw [heq]
            exact List.cons_prefix_cons.mpr ⟨rfl, ih hstarts⟩
          · cases hstarts

theorem strcmpEq_true {block text : List Byte}
    (hequal : strcmpEq block text = some true) : text <+: block := by
  induction text generalizing block with
  | nil => exact List.nil_prefix
  | cons t text ih =>
      cases block with
      | nil => cases hequal
      | cons b block =>
          rw [strcmpEq] at hequal
          split at hequal
          · rename_i heq
            rw [heq]
            exact List.cons_prefix_cons.mpr ⟨rfl, ih hequal⟩
          · cases hequal

theorem startsWith_append (text rest : List Byte) :
    startsWith (text ++ rest) text = some true := by
  induction text with
  | nil => cases rest <;> rfl
  | cons t text ih => rw [List.cons_append, startsWith, if_pos rfl, ih]

theorem takeWhile_nonzero {text : List Byte} (hnul : 0 ∉ text) :
    text.takeWhile (· != 0) = text := by
  rw [List.takeWhile_eq_self_iff]
  intro c hc
  exact bne_iff_ne.mpr fun heq => hnul (heq ▸ hc)

/-- A comparison with a terminated block is decided in front of the NUL. -/
theorem startsWith_terminated {text pattern : List Byte} (behind : List Byte)
    (hpattern : 0 ∉ pattern) :
    startsWith (text ++ 0 :: behind) pattern =
      some (decide (pattern <+: text)) := by
  induction pattern generalizing text with
  | nil => simp [startsWith]
  | cons t pattern ih =>
      have ht : (0 : Byte) ≠ t := fun heq =>
        hpattern (heq ▸ List.mem_cons_self)
      cases text with
      | nil => simp [startsWith, ht]
      | cons b text =>
          have hrest : 0 ∉ pattern := fun hmem =>
            hpattern (List.mem_cons_of_mem t hmem)
          rw [List.cons_append, startsWith]
          by_cases hbt : b = t
          · rw [if_pos hbt, ih hrest]
            simp [List.cons_prefix_cons, hbt]
          · have htb : ¬ t = b := fun heq => hbt heq.symm
            rw [if_neg hbt]
            simp [List.cons_prefix_cons, htb]

theorem cString_terminated {text : List Byte} (behind : List Byte)
    (hnul : 0 ∉ text) : cString (text ++ 0 :: behind) = some text := by
  have htext : (text ++ 0 :: behind).takeWhile (· != 0) = text := by
    rw [List.takeWhile_append_of_pos
      (List.takeWhile_eq_self_iff.mp (takeWhile_nonzero hnul)),
      List.takeWhile_cons]
    simp
  have hlt : text.length < (text ++ 0 :: behind).length := by
    rw [List.length_append, List.length_cons]
    omega
  rw [cString, htext, if_pos hlt]

theorem cString_defined {block : List Byte} (hblock : 0 ∈ block) :
    ∃ text, cString block = some text := by
  refine ⟨block.takeWhile (· != 0), ?_⟩
  rw [cString, if_pos]
  by_contra hle
  have hall := (List.takeWhile_prefix (· != 0) (l := block)).eq_of_length_le
    (Nat.le_of_not_lt hle)
  have hzero := List.takeWhile_eq_self_iff.mp hall 0 hblock
  simp at hzero

/-- A string that was read ends at the first NUL of its block. -/
theorem cString_some {block text : List Byte}
    (hread : cString block = some text) :
    ∃ behind, block = text ++ 0 :: behind ∧ 0 ∉ text := by
  have hzero : 0 ∈ block := by
    by_contra hnone
    rw [cString, takeWhile_nonzero hnone] at hread
    simp at hread
  obtain ⟨front, behind, rfl, hfront⟩ := List.eq_append_cons_of_mem hzero
  rw [cString_terminated behind hfront, Option.some.injEq] at hread
  exact ⟨behind, by rw [hread], hread ▸ hfront⟩

/-- A block without a NUL reads as itself exactly if a NUL is behind it. -/
theorem cString_behind_iff {text : List Byte} (htext : 0 ∉ text)
    (behind : List Byte) :
    cString (text ++ behind) = some text ↔ behind.head? = some 0 := by
  constructor
  · intro hread
    obtain ⟨more, hmore, -⟩ := cString_some hread
    rw [List.append_cancel_left hmore]
    rfl
  · intro hhead
    obtain ⟨more, rfl⟩ := List.head?_eq_some_iff.mp hhead
    exact cString_terminated more htext

/-- A comparison of a terminated block with a text compares the two texts. -/
theorem strcmpEq_terminated {text other : List Byte} (behind : List Byte)
    (htext : 0 ∉ text) (hother : 0 ∉ other) :
    strcmpEq (text ++ 0 :: behind) other = some (text == other) := by
  induction text generalizing other with
  | nil =>
      cases other with
      | nil => rfl
      | cons t other =>
          have ht : (0 : Byte) ≠ t := fun heq =>
            hother (heq ▸ List.mem_cons_self)
          simp [strcmpEq, ht]
  | cons b text ih =>
      have hb : ¬ b = 0 := fun heq => htext (heq ▸ List.mem_cons_self)
      cases other with
      | nil => simp [strcmpEq, hb]
      | cons t other =>
          have hrest := ih (fun hmem => htext (List.mem_cons_of_mem b hmem))
            (fun hmem => hother (List.mem_cons_of_mem t hmem))
          rw [List.cons_append, strcmpEq]
          by_cases hbt : b = t
          · rw [if_pos hbt, hrest]
            simp [hbt]
          · rw [if_neg hbt]
            simp [hbt]

/-- An octet behind a text ends it unless something in it did before. -/
theorem cString_snoc (text : List Byte) (c : Byte) :
    cString (text ++ [c]) = some (text.takeWhile (· != 0)) ↔
      0 ∈ text ∨ c = 0 := by
  induction text with
  | nil =>
      by_cases hc : c = 0
      · subst hc
        decide
      · simp [cString, hc]
  | cons b rest ih =>
      by_cases hb : b = 0
      · subst hb
        simp [cString]
      · have hne : (0 : Byte) ≠ b := fun heq => hb heq.symm
        have hbne : (b != 0) = true := bne_iff_ne.mpr hb
        rw [List.mem_cons, or_iff_right hne, ← ih]
        simp only [cString, List.cons_append, List.takeWhile_cons, hbne,
          ↓reduceIte, List.length_cons, Nat.add_lt_add_iff_right]
        split <;> simp

/-- `strncpy` looks at the first `n` octets only. -/
theorem strncpy_take (source : List Byte) (n : Nat) :
    strncpy (source.take n) n = strncpy source n := by
  have htext : ((source.take n).takeWhile (· != 0)).take n =
      (source.takeWhile (· != 0)).take n := by
    induction source generalizing n with
    | nil => simp
    | cons c rest ih =>
        cases n with
        | zero => rfl
        | succ n =>
            rw [List.take_succ_cons, List.takeWhile_cons, List.takeWhile_cons]
            split
            · rw [List.take_succ_cons, List.take_succ_cons, ih]
            · rfl
  rw [strncpy, strncpy, htext]

/-- Without a NUL in the copy, the copy is the first `n` octets as they are. -/
theorem strncpy_nonzero {source : List Byte} {n : Nat}
    (hnonzero : ∀ c ∈ strncpy source n, c ≠ 0) :
    strncpy source n = source.take n ∧ n ≤ source.length := by
  have hwhole := List.prefix_iff_eq_take.mp
    (List.takeWhile_prefix (· != 0) (l := source))
  have hle := (List.takeWhile_prefix (· != 0) (l := source)).length_le
  have hlength : n ≤ (source.takeWhile (· != 0)).length := by
    by_contra hlt
    refine hnonzero 0 ?_ rfl
    rw [strncpy]
    apply List.mem_append_right
    rw [List.mem_replicate, List.length_take]
    exact ⟨by omega, rfl⟩
  refine ⟨?_, by omega⟩
  have htext : (source.takeWhile (· != 0)).take n = source.take n := by
    rw [hwhole, List.take_take, Nat.min_eq_left hlength]
  rw [strncpy, htext, List.length_take, Nat.min_eq_left (by omega),
    Nat.sub_self, List.replicate_zero, List.append_nil]

/-- A copy of exactly a text leaves no room for its end. -/
theorem strncpy_append {text : List Byte} (hnul : 0 ∉ text)
    (rest : List Byte) : strncpy (text ++ rest) text.length = text := by
  have hall := List.takeWhile_eq_self_iff.mp (takeWhile_nonzero hnul)
  rw [strncpy, List.takeWhile_append_of_pos hall, List.take_left, Nat.sub_self,
    List.replicate_zero, List.append_nil]

theorem length_strncpy (source : List Byte) (n : Nat) :
    (strncpy source n).length = n := by
  simp only [strncpy, List.length_append, List.length_take,
    List.length_replicate]
  omega

end Bytes
