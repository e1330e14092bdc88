/-
Decimal numerals as the C library reads them.
-/
import TgServer.Bytes

namespace Decimal

open Bytes

def isSpace (c : Byte) : Bool := c == 32 || (9 ≤ c && c ≤ 13)

def isDigit (c : Byte) : Bool := 48 ≤ c && c ≤ 57

def isSign (c : Byte) : Bool := c == 43 || c == 45

/-- The number a list of digits denotes. -/
def digitsValue (digits : List Byte) : Nat :=
  digits.foldl (fun value c => value * 10 + (c.toNat - 48)) 0

/-- `strtol(text, NULL, 10)` with a 64-bit `long`: blanks, a sign, digits; out
of range values saturate. -/
def strtol (text : List Byte) : Int :=
  match text.dropWhile isSpace with
  | [] => 0
  | c :: rest =>
      if c == 45 then max (-(2 ^ 63)) (-digitsValue (rest.takeWhile isDigit))
      else if c == 43 then min (2 ^ 63 - 1) (digitsValue (rest.takeWhile isDigit))
      else min (2 ^ 63 - 1) (digitsValue ((c :: rest).takeWhile isDigit))

/-- `atoi` keeps the low 32 bits. -/
def atoi (text : List Byte) : Int := (strtol text).bmod (2 ^ 32)

/-- The digits `sprintf` writes for a natural number. -/
def natText (n : Nat) : List Byte :=
  (Nat.toDigits 10 n).map fun c => c.toNat.toUInt8

/-- The text `sprintf` writes for `%d`. -/
def text (n : Int) : List Byte :=
  if n < 0 then 45 :: natText n.natAbs else natText n.natAbs

theorem foldl_digits_lt (digits : List Byte) (start bound : Nat)
    (hdigits : ∀ c ∈ digits, isDigit c = true) (hstart : start < bound) :
    digits.foldl (fun value c => value * 10 + (c.toNat - 48)) start <
      bound * 10 ^ digits.length := by
  induction digits generalizing start bound with
  | nil => simpa using hstart
  | cons c rest ih =>
      have hc : isDigit c = true := hdigits c List.mem_cons_self
      simp only [isDigit, Bool.and_eq_true, decide_eq_true_eq,
        UInt8.le_iff_toNat_le] at hc
      have hlow : 48 ≤ c.toNat := hc.1
      have hhigh : c.toNat ≤ 57 := hc.2
      have hnext : start * 10 + (c.toNat - 48) < bound * 10 := by omega
      have htail := ih (start * 10 + (c.toNat - 48)) (bound * 10)
        (fun d hd => hdigits d (List.mem_cons_of_mem c hd)) hnext
      rw [List.foldl_cons, List.length_cons, Nat.pow_succ']
      rw [Nat.mul_assoc] at htail
      exact htail

/-- `n` digits denote a number below `10 ^ n`. -/
theorem digitsValue_lt {digits : List Byte}
    (hdigits : ∀ c ∈ digits, isDigit c = true) :
    digitsValue digits < 10 ^ digits.length := by
  simpa [digitsValue] using foldl_digits_lt digits 0 1 hdigits Nat.one_pos

theorem not_space_of_digit {c : Byte} (hc : isDigit c = true) :
    isSpace c = false := by
  simp only [isDigit, Bool.and_eq_true, decide_eq_true_eq,
    UInt8.le_iff_toNat_le] at hc
  have hlow : 48 ≤ c.toNat := hc.1
  simp only [isSpace, Bool.or_eq_false_iff, beq_eq_false_iff_ne, ne_eq,
    Bool.and_eq_false_iff, decide_eq_false_iff_not, UInt8.le_iff_toNat_le]
  constructor
  · rintro rfl
    exact absurd hlow (by decide)
  · refine Or.inr fun hle => ?_
    have hthirteen : c.toNat ≤ 13 := hle
    omega

theorem not_sign_of_digit {c : Byte} (hc : isDigit c = true) :
    isSign c = false := by
  simp only [isDigit, Bool.and_eq_true, decide_eq_true_eq,
    UInt8.le_iff_toNat_le] at hc
  have hlow : 48 ≤ c.toNat := hc.1
  simp only [isSign, Bool.or_eq_false_iff, beq_eq_false_iff_ne, ne_eq]
  constructor
  · rintro rfl
    exact absurd hlow (by decide)
  · rintro rfl
    exact absurd hlow (by decide)

/-- Behind an octet that is no digit, no digit counts. -/
theorem takeWhile_digits_stop {c : Byte} (hdigit : isDigit c = false)
    (text rest : List Byte) :
    (text ++ c :: rest).takeWhile isDigit = text.takeWhile isDigit := by
  induction text with
  | nil => rw [List.nil_append, List.takeWhile_cons, hdigit]; rfl
  | cons d text ih =>
      rw [List.cons_append, List.takeWhile_cons, List.takeWhile_cons, ih]

/-- A blank behind a numeral is not read. -/
theorem atoi_append_space (text : List Byte) {c : Byte}
    (hspace : isSpace c = true) : atoi (text ++ [c]) = atoi text := by
  have hdigit : isDigit c = false := by
    cases hdigit : isDigit c with
    | false => rfl
    | true =>
        rw [not_space_of_digit hdigit] at hspace
        cases hspace
  have hdrop : (text ++ [c]).dropWhile isSpace =
      if text.dropWhile isSpace = [] then []
      else text.dropWhile isSpace ++ [c] := by
    simp [List.dropWhile_append, hspace]
  rw [atoi, atoi, strtol, strtol, hdrop]
  cases text.dropWhile isSpace with
  | nil => rfl
  | cons d rest =>
      simp only [List.cons_ne_nil, ↓reduceIte, List.cons_append,
        List.takeWhile_cons, takeWhile_digits_stop hdigit]

/-- The NUL behind a string and what follows are not read. -/
theorem atoi_terminated (text behind : List Byte) :
    atoi (text ++ 0 :: behind) = atoi text := by
  have hdigit : isDigit 0 = false := rfl
  have hdrop : (text ++ 0 :: behind).dropWhile isSpace =
      text.dropWhile isSpace ++ 0 :: behind := by
    induction text with
    | nil => rfl
    | cons d text ih =>
        rw [List.cons_append, List.dropWhile_cons, List.dropWhile_cons, ih]
        split <;> rfl
  rw [atoi, atoi, strtol, strtol, hdrop]
  cases text.dropWhile isSpace with
  | nil => rfl
  | cons d rest =>
      simp only [List.cons_append, List.takeWhile_cons,
        takeWhile_digits_stop hdigit]

/-- A text that starts with neither a blank nor a sign is read up to its first
octet that is no digit. -/
theorem strtol_unsigned {c : Byte} {rest : List Byte}
    (hspace : isSpace c = false) (hsign : isSign c = false) :
    strtol (c :: rest) =
      min (2 ^ 63 - 1) (digitsValue ((c :: rest).takeWhile isDigit) : Int) := by
  simp only [isSign, Bool.or_eq_false_iff] at hsign
  simp [strtol, hspace, hsign.1, hsign.2]

theorem atoi_eq_of_lt {text : List Byte} {value : Nat}
    (hstrtol : strtol text = min (2 ^ 63 - 1) (value : Int))
    (hvalue : value < 2 ^ 31) : atoi text = value := by
  have hmin : min (2 ^ 63 - 1) (value : Int) = value := by omega
  rw [atoi, hstrtol, hmin]
  exact Int.bmod_eq_of_le (by omega) (by omega)

/-- Few digits followed by something that is no digit: the digits alone count,
whatever comes behind. -/
theorem atoi_stop {digits rest : List Byte} {stop : Byte}
    (hdigits : ∀ c ∈ digits, isDigit c = true) (hlength : digits.length ≤ 9)
    (hstop : isDigit stop = false)
    (hhead : digits = [] → isSpace stop = false ∧ isSign stop = false) :
    atoi (digits ++ stop :: rest) = digitsValue digits := by
  have htake : (digits ++ stop :: rest).takeWhile isDigit = digits := by
    rw [takeWhile_digits_stop hstop]
    exact List.takeWhile_eq_self_iff.mpr hdigits
  have hbound : digitsValue digits < 2 ^ 31 := by
    have hlt := digitsValue_lt hdigits
    have hpow : 10 ^ digits.length ≤ 10 ^ 9 :=
      Nat.pow_le_pow_right (by decide) hlength
    omega
  apply atoi_eq_of_lt _ hbound
  cases digits with
  | nil =>
      obtain ⟨hspace, hsign⟩ := hhead rfl
      rw [List.nil_append] at htake ⊢
      rw [strtol_unsigned hspace hsign, htake]
  | cons c tail =>
      have hc : isDigit c = true := hdigits c List.mem_cons_self
      rw [List.cons_append] at htake ⊢
      rw [strtol_unsigned (not_space_of_digit hc) (not_sign_of_digit hc),
        htake]

theorem isDigit_natText {n : Nat} {c : Byte} (hc : c ∈ natText n) :
    isDigit c = true := by
  rw [natText, List.mem_map] at hc
  obtain ⟨d, hd, rfl⟩ := hc
  have hdigit := Nat.isDigit_of_mem_toDigits (by decide) (by decide) hd
  simp only [Char.isDigit, Bool.and_eq_true, decide_eq_true_eq, ge_iff_le,
    UInt32.le_iff_toNat_le] at hdigit
  have hlow : 48 ≤ d.toNat := hdigit.1
  have hhigh : d.toNat ≤ 57 := hdigit.2
  have hmod : d.toNat % 256 = d.toNat := Nat.mod_eq_of_lt (by omega)
  simp only [isDigit, Bool.and_eq_true, decide_eq_true_eq,
    UInt8.le_iff_toNat_le, Nat.toUInt8_eq, UInt8.toNat_ofNat', hmod]
  exact ⟨hlow, hhigh⟩

/-- Reading a printed number gives the number. -/
theorem digitsValue_natText (n : Nat) : digitsValue (natText n) = n := by
  have hfold : ∀ (digits : List Char) (start : Nat),
      (∀ d ∈ digits, d.isDigit = true) →
      (digits.map fun c => c.toNat.toUInt8).foldl
          (fun value c => value * 10 + (c.toNat - 48)) start =
        Nat.ofDigitChars 10 digits start := by
    intro digits
    induction digits with
    | nil => intro start _; rfl
    | cons d rest ih =>
        intro start hdigits
        have hd := hdigits d List.mem_cons_self
        simp only [Char.isDigit, Bool.and_eq_true, decide_eq_true_eq,
          ge_iff_le, UInt32.le_iff_toNat_le] at hd
        have hhigh : d.toNat ≤ 57 := hd.2
        have hmod : d.toNat.toUInt8.toNat = d.toNat := by
          rw [Nat.toUInt8_eq, UInt8.toNat_ofNat']
          omega
        rw [List.map_cons, List.foldl_cons, hmod, Nat.ofDigitChars_cons,
          ih _ fun c hc => hdigits c (List.mem_cons_of_mem d hc),
          Nat.mul_comm]
        rfl
  rw [digitsValue, natText, hfold _ 0 fun d hd =>
    Nat.isDigit_of_mem_toDigits (by decide) (by decide) hd]
  exact Nat.ofDigitChars_toDigits (by decide) (by decide)

theorem natText_ne_nil (n : Nat) : natText n ≠ [] :=
  List.map_eq_nil_iff.not.mpr Nat.toDigits_ne_nil

theorem takeWhile_natText (n : Nat) :
    (natText n).takeWhile isDigit = natText n :=
  List.takeWhile_eq_self_iff.mpr fun _ hc => isDigit_natText hc

/-- `atoi` of a number in the range of a `long` keeps its low 32 bits. -/
theorem atoi_text {n : Int} (hlow : -2 ^ 63 ≤ n) (hhigh : n < 2 ^ 63) :
    atoi (text n) = n.bmod (2 ^ 32) := by
  have hstrtol : strtol (text n) = n := by
    rw [text]
    split
    · have hspace : isSpace 45 = false := rfl
      simp only [strtol, List.dropWhile_cons, hspace, Bool.false_eq_true,
        ↓reduceIte, beq_self_eq_true, takeWhile_natText, digitsValue_natText]
      omega
    · have hall := fun c hc => isDigit_natText (n := n.natAbs) (c := c) hc
      have hvalue := digitsValue_natText n.natAbs
      have htake := takeWhile_natText n.natAbs
      cases hdigits : natText n.natAbs with
      | nil => exact absurd hdigits (natText_ne_nil _)
      | cons c rest =>
          have hc := hall c (hdigits ▸ List.mem_cons_self)
          rw [hdigits] at hvalue htake
          rw [strtol_unsigned (not_space_of_digit hc) (not_sign_of_digit hc),
            htake, hvalue]
          omega
  rw [atoi, hstrtol]

theorem length_natText_le {n k : Nat} (hk : 0 < k) (hn : n < 10 ^ k) :
    (natText n).length ≤ k := by
  rw [natText, List.length_map]
  exact (Nat.length_toDigits_le_iff (by decide) hk).mpr hn

theorem digitsValue_append (front back : List Byte) :
    digitsValue front * 10 ^ back.length ≤ digitsValue (front ++ back) := by
  rw [digitsValue, digitsValue, List.foldl_append]
  generalize List.foldl _ 0 front = start
  induction back generalizing start with
  | nil => simp
  | cons c rest ih =>
      rw [List.foldl_cons, List.length_cons, Nat.pow_succ']
      calc start * (10 * 10 ^ rest.length)
          ≤ (start * 10 + (c.toNat - 48)) * 10 ^ rest.length := by
            rw [← Nat.mul_assoc]
            exact Nat.mul_le_mul_right _ (Nat.le_add_right _ _)
        _ ≤ _ := ih _

/-- Some of the first digits of a positive number are a smaller number. -/
theorem digitsValue_take_lt {n k : Nat} (hn : 0 < n)
    (hk : k < (natText n).length) : digitsValue ((natText n).take k) < n := by
  have hsplit := digitsValue_append ((natText n).take k) ((natText n).drop k)
  rw [List.take_append_drop, digitsValue_natText, List.length_drop] at hsplit
  have hpow : 10 ^ 1 ≤ 10 ^ ((natText n).length - k) :=
    Nat.pow_le_pow_right (by decide) (by omega)
  rcases Nat.eq_zero_or_pos (digitsValue ((natText n).take k)) with hzero | hpos
  · omega
  · have hmul := Nat.mul_le_mul_left (digitsValue ((natText n).take k)) hpow
    omega

/-- Nothing in the text ends a numeral: `atoi` reads on behind it. -/
def readsOn (text : List Byte) : Bool :=
  match text.dropWhile isSpace with
  | [] => true
  | c :: rest => (isSign c || isDigit c) && rest.all isDigit

/-- An octet that ends the numeral hides what lies behind the text. -/
theorem atoi_of_not_readsOn {text : List Byte} (hstop : readsOn text = false)
    (behind : List Byte) : atoi (text ++ behind) = atoi text := by
  have htake : ∀ part : List Byte, part.all isDigit = false →
      (part ++ behind).takeWhile isDigit = part.takeWhile isDigit := by
    intro part hpart
    induction part with
    | nil => cases hpart
    | cons d part ih =>
        rw [List.cons_append, List.takeWhile_cons, List.takeWhile_cons]
        cases hdigit : isDigit d with
        | false => rfl
        | true =>
            rw [List.all_cons, hdigit, Bool.true_and] at hpart
            simp [ih hpart]
  rw [readsOn] at hstop
  cases hdrop : text.dropWhile isSpace with
  | nil =>
      rw [hdrop] at hstop
      cases hstop
  | cons c rest =>
      have hmore : (text ++ behind).dropWhile isSpace = c :: (rest ++ behind) := by
        rw [List.dropWhile_append, hdrop]
        rfl
      simp only [hdrop, Bool.and_eq_false_iff, Bool.or_eq_false_iff] at hstop
      have hall : (isSign c = true → rest.all isDigit = false) ∧
          (c :: rest).all isDigit = false := by
        rw [List.all_cons]
        rcases hstop with ⟨hsign, hdigit⟩ | hrest
        · rw [hsign, hdigit]
          exact ⟨fun h => absurd h (by decide), rfl⟩
        · rw [hrest, Bool.and_false]
          exact ⟨fun _ => rfl, rfl⟩
      rw [atoi, atoi, strtol, strtol, hdrop, hmore]
      dsimp only
      by_cases hminus : (c == 45) = true
      · have hsign : isSign c = true := by rw [isSign, hminus, Bool.or_true]
        rw [if_pos hminus, if_pos hminus, htake rest (hall.1 hsign)]
      · rw [if_neg hminus, if_neg hminus]
        by_cases hplus : (c == 43) = true
        · have hsign : isSign c = true := by rw [isSign, hplus, Bool.true_or]
          rw [if_pos hplus, if_pos hplus, htake rest (hall.1 hsign)]
        · rw [if_neg hplus, if_neg hplus, ← List.cons_append,
            htake (c :: rest) hall.2]

theorem digitsValue_snoc (digits : List Byte) (c : Byte) :
    digitsValue (digits ++ [c]) = digitsValue digits * 10 + (c.toNat - 48) := by
  rw [digitsValue, List.foldl_append]
  rfl

/-- A digit behind digits is the last one of the numeral. -/
theorem takeWhile_digits_snoc {digits : List Byte}
    (hdigits : digits.all isDigit = true) {c : Byte} (hc : isDigit c = true) :
    (digits ++ [c]).takeWhile isDigit = digits ++ [c] := by
  rw [List.takeWhile_append_of_pos (List.all_eq_true.mp hdigits),
    List.takeWhile_cons, hc]
  rfl

theorem digitsValue_small {digits : List Byte}
    (hdigits : digits.all isDigit = true) (hlength : digits.length ≤ 16) :
    digitsValue digits < 10 ^ 16 :=
  Nat.lt_of_lt_of_le (digitsValue_lt (List.all_eq_true.mp hdigits))
    (Nat.pow_le_pow_right (by decide) hlength)

/-- Without an end the numeral goes on with the digit behind the text. -/
theorem strtol_of_readsOn {text : List Byte} (hopen : readsOn text = true)
    (hlength : text.length ≤ 16) :
    ∃ (sign : Int) (value : Nat), (sign = 1 ∨ sign = -1) ∧
      ∀ c, isDigit c = true →
        strtol (text ++ [c]) = sign * (value * 10 + (c.toNat - 48 : Nat)) := by
  have hshort := (List.dropWhile_suffix isSpace (l := text)).length_le
  have hlast : ∀ c, isDigit c = true → c.toNat - 48 ≤ 9 := by
    intro c hc
    simp only [isDigit, Bool.and_eq_true, decide_eq_true_eq,
      UInt8.le_iff_toNat_le] at hc
    have hhigh : c.toNat ≤ 57 := hc.2
    omega
  have hmore : ∀ c, isDigit c = true → (text ++ [c]).dropWhile isSpace =
      text.dropWhile isSpace ++ [c] := by
    intro c hc
    rw [List.dropWhile_append]
    split
    · rename_i hnil
      rw [List.isEmpty_iff.mp hnil, List.dropWhile_cons, not_space_of_digit hc]
      rfl
    · rfl
  rw [readsOn] at hopen
  cases hdrop : text.dropWhile isSpace with
  | nil =>
      refine ⟨1, 0, .inl rfl, fun c hc => ?_⟩
      have hsign := not_sign_of_digit hc
      have hle := hlast c hc
      have hnil : ([] : List Byte).all isDigit = true := rfl
      have hone := takeWhile_digits_snoc hnil hc
      rw [List.nil_append] at hone
      rw [strtol, hmore c hc, hdrop, List.nil_append]
      simp only [isSign, Bool.or_eq_false_iff] at hsign
      simp only [hsign.1, hsign.2, Bool.false_eq_true, ↓reduceIte, hone]
      have hvalue := digitsValue_snoc [] c
      rw [List.nil_append] at hvalue
      rw [hvalue]
      have hzero : digitsValue [] = 0 := rfl
      rw [hzero]
      omega
  | cons d rest =>
      simp only [hdrop, Bool.and_eq_true, Bool.or_eq_true] at hopen hshort
      obtain ⟨hfirst, hdigits⟩ := hopen
      rw [List.length_cons] at hshort
      have hsmall := digitsValue_small hdigits (by omega)
      by_cases hminus : (d == 45) = true
      · refine ⟨-1, digitsValue rest, .inr rfl, fun c hc => ?_⟩
        have hle := hlast c hc
        rw [strtol, hmore c hc, hdrop, List.cons_append]
        simp only [hminus, ↓reduceIte, takeWhile_digits_snoc hdigits hc,
          digitsValue_snoc]
        omega
      by_cases hplus : (d == 43) = true
      · refine ⟨1, digitsValue rest, .inl rfl, fun c hc => ?_⟩
        have hle := hlast c hc
        rw [strtol, hmore c hc, hdrop, List.cons_append]
        simp only [hminus, hplus, ↓reduceIte, takeWhile_digits_snoc hdigits hc,
          digitsValue_snoc, Bool.false_eq_true]
        omega
      have hsign : isSign d = false := by
        rw [isSign, eq_false_of_ne_true hminus, eq_false_of_ne_true hplus]
        rfl
      have hall : (d :: rest).all isDigit = true := by
        rw [List.all_cons, hdigits, Bool.and_true]
        exact hfirst.resolve_left (by rw [hsign]; decide)
      have hsmall := digitsValue_small hall (by rw [List.length_cons]; omega)
      refine ⟨1, digitsValue (d :: rest), .inl rfl, fun c hc => ?_⟩
      have hle := hlast c hc
      rw [strtol, hmore c hc, hdrop, List.cons_append]
      simp only [hminus, hplus, ↓reduceIte, Bool.false_eq_true,
        ← List.cons_append, takeWhile_digits_snoc hall hc, digitsValue_snoc]
      omega

/-- Which digit it is can be seen in the number. -/
theorem atoi_of_readsOn {text : List Byte} (hopen : readsOn text = true)
    (hlength : text.length ≤ 16) :
    atoi (text ++ [48]) ≠ atoi (text ++ [49]) := by
  obtain ⟨sign, value, hsign, hstrtol⟩ := strtol_of_readsOn hopen hlength
  intro heq
  rw [atoi, atoi, hstrtol 48 rfl, hstrtol 49 rfl] at heq
  have hmod := congrArg (· % ((2 ^ 32 : Nat) : Int)) heq
  rw [Int.bmod_emod, Int.bmod_emod] at hmod
  have hzero : (48 : Byte).toNat - 48 = 0 := rfl
  have hone : (49 : Byte).toNat - 48 = 1 := rfl
  rw [hzero, hone] at hmod
  rcases hsign with rfl | rfl <;> omega

end Decimal
