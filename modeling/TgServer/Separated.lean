/-
Texts cut at a separator of any length.  Pieces that share no element with the
separator are found again by cutting the text from the left, and no other
pieces make the same text.
-/
import Mathlib.Data.List.Basic
import Mathlib.Data.List.Infix

namespace Separated

universe u

variable {α : Type u}

/-- The pieces between the occurrences of `sep`, taken from the left: `skip`
elements of one are still to be passed, `piece` was read since. -/
def cut [DecidableEq α] (sep : List α) : Nat → List α → List α → List (List α)
  | _, piece, [] => [piece]
  | skip + 1, piece, _ :: rest => cut sep skip piece rest
  | 0, piece, c :: rest =>
      if sep <+: c :: rest then piece :: cut sep (sep.length - 1) [] rest
      else cut sep 0 (piece ++ [c]) rest

def split [DecidableEq α] (sep text : List α) : List (List α) :=
  cut sep 0 [] text

/-- The text is these pieces with `sep` between them, and `sep` is in none of
them. -/
structure Splits (sep : List α) (pieces : List (List α)) (text : List α) :
    Prop where
  nonempty : pieces ≠ []
  joined : text = sep.intercalate pieces
  free : ∀ piece ∈ pieces, ¬ sep <:+: piece

/-- No piece shares an element with the separator, and only the last one may be
empty. -/
structure Clean (sep : List α) (pieces : List (List α)) : Prop where
  apart : ∀ piece ∈ pieces, ∀ c ∈ piece, c ∉ sep
  inner : ∀ piece ∈ pieces.dropLast, piece ≠ []

section Pieces

variable {sep : List α} {piece next : List α} {pieces : List (List α)}

theorem Clean.tail (hclean : Clean sep (piece :: next :: pieces)) :
    Clean sep (next :: pieces) where
  apart := fun other hother =>
    hclean.apart other (List.mem_cons_of_mem piece hother)
  inner := fun other hother => by
    refine hclean.inner other ?_
    rw [List.dropLast_cons_cons]
    exact List.mem_cons_of_mem piece hother

/-- The text of the pieces does not start with an element of the separator. -/
theorem Clean.head (hclean : Clean sep pieces) {c : α} {rest : List α}
    (hrest : sep.intercalate pieces = c :: rest) : c ∉ sep := by
  cases pieces with
  | nil => cases hrest
  | cons piece pieces =>
      have hapart := hclean.apart piece List.mem_cons_self
      cases pieces with
      | nil =>
          rw [List.intercalate_singleton] at hrest
          exact hapart c (hrest ▸ List.mem_cons_self)
      | cons next pieces =>
          have hsome : piece ≠ [] := hclean.inner piece (by simp)
          obtain ⟨d, more, rfl⟩ := List.exists_cons_of_ne_nil hsome
          rw [List.intercalate_cons_cons, List.cons_append, List.cons_append,
            List.cons.injEq] at hrest
          exact hrest.1 ▸ hapart d List.mem_cons_self

theorem intercalate_terminated (sep : List α) (lines : List (List α)) :
    sep.intercalate (lines ++ [[]]) = (lines.map (· ++ sep)).flatten := by
  induction lines with
  | nil => rfl
  | cons line lines ih =>
      rw [List.cons_append, List.intercalate_cons_of_ne_nil (by simp), ih,
        List.map_cons, List.flatten_cons]

end Pieces

section Cut

variable [DecidableEq α] {sep : List α}

theorem cut_skip (skip : Nat) (piece front rest : List α)
    (hlength : front.length = skip) :
    cut sep skip piece (front ++ rest) = cut sep 0 piece rest := by
  induction front generalizing skip with
  | nil =>
      obtain rfl : skip = 0 := hlength.symm
      rfl
  | cons c front ih =>
      obtain ⟨skip, rfl⟩ : ∃ n, skip = n + 1 := ⟨front.length, hlength.symm⟩
      rw [List.cons_append, cut]
      exact ih skip (Nat.succ.inj hlength)

/-- A piece that shares nothing with the separator is read to its end. -/
theorem cut_piece (piece front rest : List α) (hsep : sep ≠ [])
    (hapart : ∀ c ∈ front, c ∉ sep) :
    cut sep 0 piece (front ++ rest) = cut sep 0 (piece ++ front) rest := by
  induction front generalizing piece with
  | nil => rw [List.nil_append, List.append_nil]
  | cons c front ih =>
      obtain ⟨s, more, rfl⟩ := List.exists_cons_of_ne_nil hsep
      have hnot : ¬ s :: more <+: c :: (front ++ rest) := by
        intro hbegins
        rw [List.cons_prefix_cons] at hbegins
        exact hapart c List.mem_cons_self (hbegins.1 ▸ List.mem_cons_self)
      rw [List.cons_append, cut, if_neg hnot, ih _ fun d hd =>
        hapart d (List.mem_cons_of_mem c hd), List.append_assoc,
        List.singleton_append]

theorem cut_separator (piece rest : List α) (hsep : sep ≠ []) :
    cut sep 0 piece (sep ++ rest) = piece :: cut sep 0 [] rest := by
  obtain ⟨s, more, rfl⟩ := List.exists_cons_of_ne_nil hsep
  have hbegins : s :: more <+: s :: (more ++ rest) := List.prefix_append _ rest
  rw [List.cons_append, cut, if_pos hbegins, List.length_cons,
    Nat.add_sub_cancel, cut_skip _ _ _ _ rfl]

/-- Cutting undoes joining. -/
theorem split_intercalate (hsep : sep ≠ []) {pieces : List (List α)}
    (hsome : pieces ≠ []) (hclean : Clean sep pieces) :
    split sep (sep.intercalate pieces) = pieces := by
  induction pieces with
  | nil => exact absurd rfl hsome
  | cons piece pieces ih =>
      have hapart := hclean.apart piece List.mem_cons_self
      cases pieces with
      | nil =>
          have hread := cut_piece [] piece [] hsep hapart
          rw [List.append_nil, List.nil_append] at hread
          rw [split, List.intercalate_singleton, hread, cut]
      | cons next pieces =>
          have hrest := ih (List.cons_ne_nil next pieces) hclean.tail
          rw [split] at hrest
          rw [split, List.intercalate_cons_cons, List.append_assoc,
            cut_piece _ _ _ hsep hapart, List.nil_append,
            cut_separator _ _ hsep, hrest]

end Cut

section Unique

variable {sep : List α}

/-- A separator behind a piece that shares nothing with it is the first one,
whatever is in front of it. -/
theorem first_separator {piece front rest back : List α} (hsep : sep ≠ [])
    (hapart : ∀ c ∈ piece, c ∉ sep)
    (hrest : ∀ c more, rest = c :: more → c ∉ sep)
    (hfree : ¬ sep <:+: front)
    (hsame : piece ++ (sep ++ rest) = front ++ (sep ++ back)) :
    front = piece ∧ back = rest := by
  rcases List.append_eq_append_iff.mp hsame with
    ⟨gap, rfl, hback⟩ | ⟨gap, rfl, hback⟩
  · cases gap with
    | nil =>
        rw [List.append_nil, List.nil_append] at *
        exact ⟨rfl, (List.append_cancel_left hback).symm⟩
    | cons c gap =>
        -- the other separator would start inside this one
        exfalso
        rcases List.append_eq_append_iff.mp hback with
          ⟨late, hlate, -⟩ | ⟨late, hsep', hover⟩
        · exact hfree ⟨piece, late, by rw [hlate, List.append_assoc]⟩
        · have hshort : late.length < sep.length := by
            rw [hsep', List.length_append, List.length_cons]
            omega
          rcases List.append_eq_append_iff.mp hover with
            ⟨more, hlate, -⟩ | ⟨more, hsplit, hmore⟩
          · rw [hlate, List.length_append] at hshort
            omega
          · cases more with
            | nil =>
                rw [hsplit, List.append_nil] at hshort
                exact Nat.lt_irrefl _ hshort
            | cons d more =>
                refine hrest d (more ++ back) hmore ?_
                rw [hsplit]
                exact List.mem_append_right late List.mem_cons_self
  · cases gap with
    | nil =>
        rw [List.append_nil, List.nil_append] at *
        exact ⟨rfl, List.append_cancel_left hback⟩
    | cons c gap =>
        obtain ⟨s, more, rfl⟩ := List.exists_cons_of_ne_nil hsep
        rw [List.cons_append, List.cons_append, List.cons.injEq] at hback
        exact absurd List.mem_cons_self (hback.1 ▸ hapart c (by simp))

theorem Clean.free (hsep : sep ≠ []) {pieces : List (List α)}
    (hclean : Clean sep pieces) : ∀ piece ∈ pieces, ¬ sep <:+: piece := by
  intro piece hpiece hwithin
  obtain ⟨s, rest, rfl⟩ := List.exists_cons_of_ne_nil hsep
  exact hclean.apart piece hpiece s (hwithin.subset List.mem_cons_self)
    List.mem_cons_self

/-- The text of clean pieces is split in one way only. -/
theorem splits_intercalate_iff (hsep : sep ≠ []) {pieces : List (List α)}
    (hsome : pieces ≠ []) (hclean : Clean sep pieces)
    (others : List (List α)) :
    Splits sep others (sep.intercalate pieces) ↔ others = pieces := by
  refine ⟨fun hothers => ?_, ?_⟩
  swap
  · rintro rfl
    exact ⟨hsome, rfl, hclean.free hsep⟩
  induction pieces generalizing others with
  | nil => exact absurd rfl hsome
  | cons piece pieces ih =>
      have hapart := hclean.apart piece List.mem_cons_self
      obtain ⟨other, more, rfl⟩ := List.exists_cons_of_ne_nil hothers.nonempty
      have hfree := hothers.free other List.mem_cons_self
      have hjoined := hothers.joined
      cases pieces with
      | nil =>
          rw [List.intercalate_singleton] at hjoined
          cases more with
          | nil => rw [hjoined, List.intercalate_singleton]
          | cons next more =>
              obtain ⟨s, rest, rfl⟩ := List.exists_cons_of_ne_nil hsep
              have hs : s ∈ piece := by
                rw [hjoined, List.intercalate_cons_cons]
                simp
              exact absurd List.mem_cons_self (hapart s hs)
      | cons next pieces =>
          rw [List.intercalate_cons_cons, List.append_assoc] at hjoined
          cases more with
          | nil =>
              rw [List.intercalate_singleton] at hjoined
              refine absurd ?_ hfree
              exact ⟨piece, sep.intercalate (next :: pieces), by
                rw [← hjoined, List.append_assoc]⟩
          | cons after more =>
              rw [List.intercalate_cons_cons, List.append_assoc] at hjoined
              obtain ⟨rfl, hback⟩ := first_separator hsep hapart
                (fun c rest hrest => hclean.tail.head hrest) hfree hjoined
              have hmore : Splits sep (after :: more)
                  (sep.intercalate (next :: pieces)) :=
                ⟨List.cons_ne_nil after more, hback.symm, fun piece hpiece =>
                  hothers.free piece (List.mem_cons_of_mem _ hpiece)⟩
              rw [ih (List.cons_ne_nil next pieces) hclean.tail _ hmore]

end Unique

end Separated
