/-
The pairs of a command line by the letters of their options, and the command
lines that have the same pairs in another order.
-/
import TgServer.PluginOptions

namespace TgServer

open Bytes

def optionLetter (pair : OptionPair) : Byte := pair.1.getD 1 0

/-- The pairs with this letter. -/
def optionsOf (c : Byte) (pairs : List OptionPair) : List OptionPair :=
  pairs.filter fun pair => optionLetter pair = c

def valuesOf (c : Byte) (pairs : List OptionPair) : List (List Byte) :=
  (optionsOf c pairs).map Prod.snd

/-- A file to be read or a directory to be loaded. -/
def Moves (pair : OptionPair) : Prop :=
  optionLetter pair = char 'f' ∨ optionLetter pair = char 's'

instance (pair : OptionPair) : Decidable (Moves pair) :=
  inferInstanceAs (Decidable (_ ∨ _))

/-- The same pairs; the files, the directories and the others keep their order
among themselves. -/
structure Reordered (pairs pairs' : List OptionPair) : Prop where
  files : optionsOf (char 'f') pairs' = optionsOf (char 'f') pairs
  dirs : optionsOf (char 's') pairs' = optionsOf (char 's') pairs
  others : pairs'.filter (fun pair => ¬ Moves pair) =
    pairs.filter fun pair => ¬ Moves pair

/-- The others also keep their places. -/
structure ReorderedInPlace (pairs pairs' : List OptionPair) : Prop extends
    Reordered pairs pairs' where
  places : pairs'.map (fun pair => decide (Moves pair)) =
    pairs.map fun pair => decide (Moves pair)

def arguments (pairs : List OptionPair) : List (List Byte) :=
  pairs.flatMap fun pair => [pair.1, pair.2]

/-- The command line with other pairs in the place of those it has. -/
def withPairs (argv : List (List Byte)) (pairs pairs' : List OptionPair) :
    List (List Byte) :=
  argv.take 1 ++ arguments pairs' ++ argv.drop (2 * pairs.length + 1)

section Pairs

theorem optionsOf_cons (c : Byte) (pair : OptionPair)
    (pairs : List OptionPair) : optionsOf c (pair :: pairs) =
      if optionLetter pair = c then pair :: optionsOf c pairs
      else optionsOf c pairs := by
  simp [optionsOf, List.filter_cons]

theorem valuesOf_cons (c : Byte) (pair : OptionPair)
    (pairs : List OptionPair) :
    valuesOf c (pair :: pairs) = valuesOf c [pair] ++ valuesOf c pairs := by
  rw [valuesOf, optionsOf_cons, valuesOf, optionsOf_cons]
  split <;> rfl

theorem valuesOf_one (c : Byte) (pair : OptionPair) :
    valuesOf c [pair] = if optionLetter pair = c then [pair.2] else [] := by
  rw [valuesOf, optionsOf_cons]
  split <;> rfl

/-- The three kinds of pairs are all there are. -/
theorem perm_kinds (pairs : List OptionPair) :
    (optionsOf (char 'f') pairs ++ (optionsOf (char 's') pairs ++
      pairs.filter fun pair => ¬ Moves pair)).Perm pairs := by
  induction pairs with
  | nil => exact .nil
  | cons pair pairs ih =>
      rw [optionsOf_cons, optionsOf_cons]
      by_cases hf : optionLetter pair = char 'f'
      · have hs : ¬(optionLetter pair = char 's') := by
          rw [hf]
          decide
        have hmoves : Moves pair := Or.inl hf
        rw [if_pos hf, if_neg hs, List.filter_cons_of_neg (by simpa),
          List.cons_append]
        exact ih.cons pair
      · by_cases hs : optionLetter pair = char 's'
        · have hmoves : Moves pair := Or.inr hs
          rw [if_neg hf, if_pos hs, List.filter_cons_of_neg (by simpa),
            List.cons_append]
          exact List.perm_middle.trans (ih.cons pair)
        · have hmoves : ¬ Moves pair := fun h => h.elim hf hs
          rw [if_neg hf, if_neg hs, List.filter_cons_of_pos (by simpa),
            ← List.append_assoc]
          rw [← List.append_assoc] at ih
          exact List.perm_middle.trans (ih.cons pair)

theorem Reordered.perm {pairs pairs' : List OptionPair}
    (hmoved : Reordered pairs pairs') : pairs'.Perm pairs := by
  have hnew := perm_kinds pairs'
  rw [hmoved.files, hmoved.dirs, hmoved.others] at hnew
  exact hnew.symm.trans (perm_kinds pairs)

theorem length_arguments (pairs : List OptionPair) :
    (arguments pairs).length = 2 * pairs.length := by
  induction pairs with
  | nil => rfl
  | cons pair pairs ih =>
      rw [arguments] at ih ⊢
      rw [List.flatMap_cons, List.length_append, ih]
      simp only [List.length_cons, List.length_nil]
      omega

/-- The pairs that are taken stand in front of what is left. -/
theorem contextPairs_split {argv : List (List Byte)} {pairs : List OptionPair}
    (hpairs : contextPairs argv = some pairs) :
    2 * pairs.length ≤ argv.length ∧
      contextPairs (argv.drop (2 * pairs.length)) = some [] := by
  have htakes := contextPairs_takes hpairs
  clear hpairs
  induction htakes with
  | nil => exact ⟨Nat.le_refl 0, rfl⟩
  | empty argv => exact ⟨Nat.zero_le _, by cases argv <;> rfl⟩
  | pair hsome hgood hrest ih =>
      obtain ⟨hle, hend⟩ := ih
      refine ⟨?_, hend⟩
      simp only [List.length_cons]
      omega

theorem contextPairs_arguments {pairs : List OptionPair}
    (hgood : ∀ pair ∈ pairs, badPair pair.1 pair.2 = false)
    {rest : List (List Byte)} (hrest : contextPairs rest = some []) :
    contextPairs (arguments pairs ++ rest) = some pairs := by
  induction pairs with
  | nil => exact hrest
  | cons pair pairs ih =>
      have hfirst := hgood pair List.mem_cons_self
      have hsome : pair.1 ≠ [] := by
        intro hnil
        rw [hnil] at hfirst
        cases hfirst
      have hmore := ih fun other hother =>
        hgood other (List.mem_cons_of_mem pair hother)
      change contextPairs (pair.1 :: pair.2 :: (arguments pairs ++ rest)) = _
      rw [contextPairs, if_neg hsome, hfirst, hmore]
      rfl

/-- The pairs of a command line in which they were moved. -/
theorem contextPairs_withPairs {argv : List (List Byte)}
    {pairs pairs' : List OptionPair}
    (hpairs : contextPairs argv.tail = some pairs) (hargv : argv ≠ [])
    (hperm : pairs'.Perm pairs) :
    contextPairs (withPairs argv pairs pairs').tail = some pairs' ∧
      (withPairs argv pairs pairs').length = argv.length := by
  obtain ⟨hle, hend⟩ := contextPairs_split hpairs
  cases argv with
  | nil => exact absurd rfl hargv
  | cons tgserver argv =>
      rw [List.tail_cons] at hle hend
      constructor
      · refine contextPairs_arguments ?_ hend
        intro pair hpair
        exact contextPairs_good hpairs pair (hperm.subset hpair)
      · simp only [withPairs, List.length_append, length_arguments,
          hperm.length_eq, List.take_succ_cons, List.take_zero,
          List.drop_succ_cons, List.length_drop, List.length_cons,
          List.length_nil]
        omega

end Pairs

/-- The moved pairs one after the other in the places of those that move. -/
def refill : List OptionPair → List OptionPair → List OptionPair
  | [], _ => []
  | pair :: pairs, moved =>
      if Moves pair then moved.headD pair :: refill pairs moved.tail
      else pair :: refill pairs moved

/-- The first directories, then all files, then the other directories. -/
def filesBehind (pairs : List OptionPair) (n : Nat) : List OptionPair :=
  (optionsOf (char 's') pairs).take n ++ (optionsOf (char 'f') pairs ++
    (optionsOf (char 's') pairs).drop n)

section Refill

variable {pairs moved : List OptionPair}

theorem refill_moved (hmoves : ∀ pair ∈ moved, Moves pair)
    (hlength : moved.length = (pairs.filter fun pair => Moves pair).length) :
    (refill pairs moved).filter (fun pair => Moves pair) = moved := by
  induction pairs generalizing moved with
  | nil => exact (List.length_eq_zero_iff.mp hlength).symm
  | cons pair pairs ih =>
      rw [refill]
      by_cases hpair : Moves pair
      · rw [List.filter_cons_of_pos (by simpa)] at hlength
        rw [if_pos hpair]
        cases moved with
        | nil => cases hlength
        | cons next moved =>
            rw [List.forall_mem_cons] at hmoves
            rw [List.headD_cons, List.tail_cons,
              List.filter_cons_of_pos (by simpa using hmoves.1),
              ih hmoves.2 (Nat.succ.inj hlength)]
      · rw [List.filter_cons_of_neg (by simpa)] at hlength
        rw [if_neg hpair, List.filter_cons_of_neg (by simpa), ih hmoves hlength]

theorem refill_others (hmoves : ∀ pair ∈ moved, Moves pair) :
    (refill pairs moved).filter (fun pair => ¬ Moves pair) =
        pairs.filter (fun pair => ¬ Moves pair) ∧
      (refill pairs moved).map (fun pair => decide (Moves pair)) =
        pairs.map fun pair => decide (Moves pair) := by
  induction pairs generalizing moved with
  | nil => exact ⟨rfl, rfl⟩
  | cons pair pairs ih =>
      rw [refill]
      by_cases hpair : Moves pair
      · have hnext : Moves (moved.headD pair) := by
          cases moved with
          | nil => exact hpair
          | cons next moved => exact hmoves next List.mem_cons_self
        obtain ⟨hothers, hplaces⟩ := @ih moved.tail fun other hother =>
          hmoves other (List.mem_of_mem_tail hother)
        rw [if_pos hpair, List.filter_cons_of_neg (by simpa using hnext),
          List.filter_cons_of_neg (by simpa), List.map_cons, List.map_cons,
          hothers, hplaces, decide_eq_true hnext, decide_eq_true hpair]
        exact ⟨rfl, rfl⟩
      · obtain ⟨hothers, hplaces⟩ := ih hmoves
        rw [if_neg hpair, List.filter_cons_of_pos (by simpa),
          List.filter_cons_of_pos (by simpa), List.map_cons, List.map_cons,
          hothers, hplaces]
        exact ⟨rfl, rfl⟩

theorem optionsOf_moves {c : Byte} (hc : c = char 'f' ∨ c = char 's')
    (pairs : List OptionPair) :
    optionsOf c (pairs.filter fun pair => Moves pair) = optionsOf c pairs := by
  rw [optionsOf, List.filter_filter]
  refine List.filter_congr fun pair _ => ?_
  by_cases hpair : optionLetter pair = c
  · have hmoves : Moves pair := by
      rw [Moves, hpair]
      exact hc
    simp [hpair, hmoves]
  · simp [hpair]

theorem optionsOf_same {c : Byte} {chosen : List OptionPair}
    (hchosen : ∀ pair ∈ chosen, optionLetter pair = c) :
    optionsOf c chosen = chosen :=
  List.filter_eq_self.mpr fun pair hpair => decide_eq_true (hchosen pair hpair)

theorem optionsOf_other {c d : Byte} (hne : d ≠ c) {chosen : List OptionPair}
    (hchosen : ∀ pair ∈ chosen, optionLetter pair = d) :
    optionsOf c chosen = [] :=
  List.filter_eq_nil_iff.mpr fun pair hpair => by
    rw [decide_eq_true_eq, hchosen pair hpair]
    exact hne

theorem optionsOf_append (c : Byte) (first second : List OptionPair) :
    optionsOf c (first ++ second) = optionsOf c first ++ optionsOf c second :=
  List.filter_append ..

theorem letter_of_mem {c : Byte} {pair : OptionPair}
    (hpair : pair ∈ optionsOf c pairs) : optionLetter pair = c := by
  simpa using (List.mem_filter.mp hpair).2

variable (pairs) (n : Nat)

theorem filesBehind_moves : ∀ pair ∈ filesBehind pairs n, Moves pair := by
  intro pair hpair
  rw [filesBehind, List.mem_append, List.mem_append] at hpair
  rcases hpair with hfront | hfile | hback
  · exact Or.inr (letter_of_mem (List.mem_of_mem_take hfront))
  · exact Or.inl (letter_of_mem hfile)
  · exact Or.inr (letter_of_mem (List.mem_of_mem_drop hback))

theorem filesBehind_files :
    optionsOf (char 'f') (filesBehind pairs n) = optionsOf (char 'f') pairs ∧
      optionsOf (char 's') (filesBehind pairs n) =
        optionsOf (char 's') pairs := by
  have hfront : ∀ pair ∈ (optionsOf (char 's') pairs).take n,
      optionLetter pair = char 's' := fun pair hpair =>
    letter_of_mem (List.mem_of_mem_take hpair)
  have hback : ∀ pair ∈ (optionsOf (char 's') pairs).drop n,
      optionLetter pair = char 's' := fun pair hpair =>
    letter_of_mem (List.mem_of_mem_drop hpair)
  have hfiles : ∀ pair ∈ optionsOf (char 'f') pairs,
      optionLetter pair = char 'f' := fun pair hpair => letter_of_mem hpair
  rw [filesBehind, optionsOf_append, optionsOf_append, optionsOf_append,
    optionsOf_append, optionsOf_other (by decide) hfront,
    optionsOf_other (by decide) hback, optionsOf_same hfiles,
    optionsOf_same hfront, optionsOf_same hback,
    optionsOf_other (by decide) hfiles]
  exact ⟨List.append_nil _, List.take_append_drop n _⟩

theorem length_filesBehind : (filesBehind pairs n).length =
    (pairs.filter fun pair => Moves pair).length := by
  have hperm := perm_kinds (pairs.filter fun pair => Moves pair)
  have hothers : (pairs.filter fun pair => Moves pair).filter
      (fun pair => ¬ Moves pair) = [] := by
    rw [List.filter_eq_nil_iff]
    intro pair hpair
    simpa using (List.mem_filter.mp hpair).2
  rw [hothers, List.append_nil, optionsOf_moves (Or.inl rfl),
    optionsOf_moves (Or.inr rfl)] at hperm
  rw [← hperm.length_eq, filesBehind, List.length_append, List.length_append,
    List.length_append, List.length_take, List.length_drop]
  omega

/-- The files can be moved behind any part of the directories. -/
theorem refill_reordered :
    ReorderedInPlace pairs (refill pairs (filesBehind pairs n)) := by
  have hmoves := filesBehind_moves pairs n
  have hmoved := refill_moved hmoves (length_filesBehind pairs n)
  obtain ⟨hfiles, hdirs⟩ := filesBehind_files pairs n
  obtain ⟨hothers, hplaces⟩ := @refill_others pairs _ hmoves
  refine ⟨⟨?_, ?_, hothers⟩, hplaces⟩
  · rw [← optionsOf_moves (Or.inl rfl), hmoved, hfiles]
  · rw [← optionsOf_moves (Or.inr rfl), hmoved, hdirs]

end Refill

end TgServer
