/-
Singly linked cells in a heap: the list a pointer leads to, what leaves it
alone, and what linking a new cell to its last one does.
-/
import Mathlib.Data.List.Basic
import Mathlib.Logic.Function.Basic

namespace LinkedCells

universe u v w

variable {κ : Type u} {ν : Type v} {β : Type w}

/-- Following `next` from a pointer leads through the listed addresses, with
the listed values, to NULL. -/
def Segment (next : ν → Option κ) (value : ν → β) (cells : κ → Option ν) :
    Option κ → List (κ × β) → Prop
  | pointer, [] => pointer = none
  | pointer, (a, b) :: rest => pointer = some a ∧
      ∃ cell, cells a = some cell ∧ value cell = b ∧
        Segment next value cells (next cell) rest

variable {next : ν → Option κ} {value : ν → β} {cells cells' : κ → Option ν}

theorem Segment.nil_iff {pointer : Option κ} {content : List (κ × β)}
    (hseg : Segment next value cells pointer content) :
    pointer = none ↔ content = [] := by
  cases content with
  | nil => exact ⟨fun _ => rfl, fun _ => hseg⟩
  | cons entry rest =>
      constructor
      · intro hnone
        rw [hseg.1] at hnone
        cases hnone
      · intro hnil
        cases hnil

/-- Cells elsewhere do not matter. -/
theorem Segment.frame {pointer : Option κ} {content : List (κ × β)}
    (hseg : Segment next value cells pointer content)
    (hsame : ∀ a ∈ content.map Prod.fst, cells' a = cells a) :
    Segment next value cells' pointer content := by
  induction content generalizing pointer with
  | nil => exact hseg
  | cons entry rest ih =>
      obtain ⟨a, b⟩ := entry
      obtain ⟨hpointer, cell, hcell, hvalue, hrest⟩ := hseg
      refine ⟨hpointer, cell, ?_, hvalue, ih hrest ?_⟩
      · rw [hsame a List.mem_cons_self, hcell]
      · exact fun other hother => hsame other (List.mem_cons_of_mem _ hother)

/-- A pointer leads through one list only. -/
theorem Segment.unique {pointer : Option κ} {content other : List (κ × β)}
    (hseg : Segment next value cells pointer content)
    (hother : Segment next value cells pointer other) : content = other := by
  induction content generalizing pointer other with
  | nil => exact (hother.nil_iff.mp hseg).symm
  | cons entry rest ih =>
      obtain ⟨a, b⟩ := entry
      obtain ⟨hpointer, cell, hcell, hvalue, hrest⟩ := hseg
      cases other with
      | nil =>
          rw [hpointer] at hother
          cases hother
      | cons entry' rest' =>
          obtain ⟨a', b'⟩ := entry'
          obtain ⟨hpointer', cell', hcell', hvalue', hrest'⟩ := hother
          obtain rfl := Option.some.inj (hpointer.symm.trans hpointer')
          obtain rfl := Option.some.inj (hcell.symm.trans hcell')
          rw [← hvalue, ← hvalue', ih hrest hrest']

theorem Segment.live {pointer : Option κ} {content : List (κ × β)}
    (hseg : Segment next value cells pointer content) {a : κ}
    (ha : a ∈ content.map Prod.fst) : cells a ≠ none := by
  induction content generalizing pointer with
  | nil => cases ha
  | cons entry rest ih =>
      obtain ⟨b, v⟩ := entry
      obtain ⟨-, cell, hcell, -, hrest⟩ := hseg
      rw [List.map_cons, List.mem_cons] at ha
      rcases ha with rfl | ha
      · rw [hcell]
        exact Option.some_ne_none cell
      · exact ih hrest ha

/-- The last cell points nowhere; redirecting it to a new last cell extends
the list by that cell. -/
theorem Segment.snoc {pointer : Option κ} {front : List (κ × β)}
    {last fresh : κ} {b c : β} {lastCell freshCell : ν}
    (hseg : Segment next value cells pointer (front ++ [(last, b)]))
    (hsame : ∀ a ∈ front.map Prod.fst, cells' a = cells a)
    (hlast : cells' last = some lastCell)
    (hvalue : value lastCell = b) (hnext : next lastCell = some fresh)
    (hfresh : cells' fresh = some freshCell)
    (hfreshValue : value freshCell = c) (hend : next freshCell = none) :
    Segment next value cells' pointer
      (front ++ [(last, b)] ++ [(fresh, c)]) := by
  induction front generalizing pointer with
  | nil =>
      obtain ⟨hpointer, -⟩ := hseg
      refine ⟨hpointer, lastCell, hlast, hvalue, hnext, freshCell, hfresh,
        hfreshValue, hend⟩
  | cons entry front ih =>
      obtain ⟨a, v⟩ := entry
      obtain ⟨hpointer, cell, hcell, hcellValue, hrest⟩ := hseg
      refine ⟨hpointer, cell, ?_, hcellValue, ih hrest ?_⟩
      · rw [hsame a List.mem_cons_self, hcell]
      · exact fun other hother => hsame other (List.mem_cons_of_mem _ hother)

theorem Segment.last {pointer : Option κ} {front : List (κ × β)} {last : κ}
    {b : β}
    (hseg : Segment next value cells pointer (front ++ [(last, b)])) :
    ∃ cell, cells last = some cell ∧ value cell = b ∧ next cell = none := by
  induction front generalizing pointer with
  | nil => exact hseg.2
  | cons entry front ih =>
      obtain ⟨-, cell, -, -, hrest⟩ := hseg
      exact ih hrest

end LinkedCells
