/-
A text as a list of lines.  An element ends a line and belongs to it; the last
line may go without.
-/
import Mathlib.Data.List.Basic

namespace Lines

universe u

variable {α : Type u} {stop : α}

/-- A line and its end, or some text without one. -/
def IsLine (stop : α) (line : List α) : Prop :=
  ∃ body, stop ∉ body ∧ (line = body ++ [stop] ∨ line = body ∧ body ≠ [])

/-- Lines all of which end, but for the last. -/
structure Lined (stop : α) (ls : List (List α)) : Prop where
  line : ∀ line ∈ ls, IsLine stop line
  ended : ls.Pairwise fun line _ => stop ∈ line

theorem IsLine.ne_nil {line : List α} (hline : IsLine stop line) :
    line ≠ [] := by
  obtain ⟨body, -, rfl | ⟨rfl, hsome⟩⟩ := hline
  · simp
  · exact hsome

/-- A line with its end in it has it at its end. -/
theorem IsLine.ended {line : List α} (hline : IsLine stop line)
    (hmem : stop ∈ line) : ∃ body, stop ∉ body ∧ line = body ++ [stop] := by
  obtain ⟨body, hbody, rfl | ⟨rfl, -⟩⟩ := hline
  · exact ⟨body, hbody, rfl⟩
  · exact absurd hmem hbody

theorem Lined.sublist {ls others : List (List α)} (hlined : Lined stop ls)
    (hsublist : List.Sublist others ls) : Lined stop others where
  line := fun line hline => hlined.line line (hsublist.subset hline)
  ended := hlined.ended.sublist hsublist

theorem Lined.tail {line : List α} {ls : List (List α)}
    (hlined : Lined stop (line :: ls)) : Lined stop ls :=
  hlined.sublist (List.sublist_cons_self line ls)

/-- What comes behind a line that does not end is nothing. -/
theorem Lined.cases {line : List α} {ls : List (List α)}
    (hlined : Lined stop (line :: ls)) :
    (∃ body, stop ∉ body ∧ line = body ++ [stop]) ∨
      stop ∉ line ∧ line ≠ [] ∧ ls = [] := by
  have hline := hlined.line line List.mem_cons_self
  by_cases hmem : stop ∈ line
  · exact Or.inl (hline.ended hmem)
  · refine Or.inr ⟨hmem, hline.ne_nil, ?_⟩
    cases ls with
    | nil => rfl
    | cons next ls =>
        have hended := List.rel_of_pairwise_cons hlined.ended
          (List.mem_cons_self (a := next) (l := ls))
        exact absurd hended hmem

/-- The rest of a line is a line, and its end is not in front of that. -/
theorem Lined.drop {line : List α} {ls : List (List α)}
    (hlined : Lined stop (line :: ls)) {n : Nat} (hn : n < line.length) :
    stop ∉ line.take n ∧ Lined stop (line.drop n :: ls) := by
  have hpairwise := List.pairwise_cons.mp hlined.ended
  have hrest := hlined.tail
  rcases hlined.cases with ⟨body, hbody, rfl⟩ | ⟨hfree, -, rfl⟩
  · rw [List.length_append, List.length_singleton] at hn
    have hle : n ≤ body.length := by omega
    rw [List.take_append_of_le_length hle, List.drop_append_of_le_length hle]
    refine ⟨fun hmem => hbody (List.mem_of_mem_take hmem), ?_, ?_⟩
    · intro line hline
      rcases List.mem_cons.mp hline with rfl | hline
      · exact ⟨body.drop n, fun hmem => hbody (List.mem_of_mem_drop hmem),
          Or.inl rfl⟩
      · exact hrest.line line hline
    · refine List.pairwise_cons.mpr ⟨fun _ _ => ?_, hpairwise.2⟩
      exact List.mem_append_right _ (List.mem_singleton_self stop)
  · refine ⟨fun hmem => hfree (List.mem_of_mem_take hmem), ?_,
      List.pairwise_singleton _ _⟩
    intro line hline
    obtain rfl := List.mem_singleton.mp hline
    refine ⟨_, fun hmem => hfree (List.mem_of_mem_drop hmem),
      Or.inr ⟨rfl, ?_⟩⟩
    rw [ne_eq, List.drop_eq_nil_iff]
    omega

/-- Put an element in front of the first line. -/
def pushFront (c : α) : List (List α) → List (List α)
  | [] => [[c]]
  | line :: ls => (c :: line) :: ls

theorem flatten_pushFront (c : α) (ls : List (List α)) :
    (pushFront c ls).flatten = c :: ls.flatten := by
  cases ls <;> rfl

theorem lined_pushFront {c : α} (hc : c ≠ stop) {ls : List (List α)}
    (hlined : Lined stop ls) : Lined stop (pushFront c ls) := by
  have hfree : ∀ {body}, stop ∉ body → stop ∉ c :: body := fun hbody =>
    List.not_mem_cons_of_ne_of_not_mem hc.symm hbody
  cases ls with
  | nil =>
      refine ⟨fun line hline => ?_, List.pairwise_singleton _ _⟩
      obtain rfl := List.mem_singleton.mp hline
      exact ⟨[c], hfree List.not_mem_nil, Or.inr ⟨rfl, by simp⟩⟩
  | cons first ls =>
      constructor
      · intro line hline
        rcases List.mem_cons.mp hline with rfl | hline
        · obtain ⟨body, hbody, rfl | ⟨rfl, -⟩⟩ :=
            hlined.line first List.mem_cons_self
          · exact ⟨c :: body, hfree hbody, Or.inl rfl⟩
          · exact ⟨c :: first, hfree hbody, Or.inr ⟨rfl, by simp⟩⟩
        · exact hlined.line line (List.mem_cons_of_mem first hline)
      · have hended := List.pairwise_cons.mp hlined.ended
        exact List.pairwise_cons.mpr ⟨fun line hline =>
          List.mem_cons_of_mem c (hended.1 line hline), hended.2⟩

section Split

variable [DecidableEq α]

/-- The lines of a text. -/
def lines (stop : α) : List α → List (List α)
  | [] => []
  | c :: rest =>
      if c = stop then [c] :: lines stop rest
      else pushFront c (lines stop rest)

theorem flatten_lines (stop : α) (text : List α) :
    (lines stop text).flatten = text := by
  induction text with
  | nil => rfl
  | cons c rest ih =>
      rw [lines]
      split
      · rw [List.flatten_cons, ih, List.singleton_append]
      · rw [flatten_pushFront, ih]

theorem lined_lines (stop : α) (text : List α) :
    Lined stop (lines stop text) := by
  induction text with
  | nil => exact ⟨by simp [lines], List.Pairwise.nil⟩
  | cons c rest ih =>
      rw [lines]
      split
      · next hc =>
          refine ⟨?_, List.pairwise_cons.mpr ⟨?_, ih.ended⟩⟩
          · intro line hline
            rcases List.mem_cons.mp hline with rfl | hline
            · exact ⟨[], List.not_mem_nil, Or.inl (by rw [hc]; rfl)⟩
            · exact ih.line line hline
          · intro _ _
            rw [hc]
            exact List.mem_singleton_self stop
      · next hc => exact lined_pushFront hc ih

theorem lines_ended {body : List α} (hbody : stop ∉ body) (rest : List α) :
    lines stop (body ++ [stop] ++ rest) =
      (body ++ [stop]) :: lines stop rest := by
  induction body with
  | nil => simp [lines]
  | cons c body ih =>
      rw [List.mem_cons, not_or] at hbody
      rw [List.cons_append, List.cons_append, lines,
        if_neg (Ne.symm hbody.1), ih hbody.2]
      rfl

theorem lines_unended {body : List α} (hbody : stop ∉ body)
    (hsome : body ≠ []) : lines stop body = [body] := by
  induction body with
  | nil => exact absurd rfl hsome
  | cons c body ih =>
      rw [List.mem_cons, not_or] at hbody
      rw [lines, if_neg (Ne.symm hbody.1)]
      cases body with
      | nil => rfl
      | cons d body =>
          rw [ih hbody.2 (List.cons_ne_nil d body)]
          rfl

/-- A text has no other lines. -/
theorem lines_flatten {ls : List (List α)} (hlined : Lined stop ls) :
    lines stop ls.flatten = ls := by
  induction ls with
  | nil => rfl
  | cons line ls ih =>
      rcases hlined.cases with ⟨body, hbody, rfl⟩ | ⟨hfree, hsome, rfl⟩
      · rw [List.flatten_cons, lines_ended hbody, ih hlined.tail]
      · rw [List.flatten_cons, List.flatten_nil, List.append_nil,
          lines_unended hfree hsome]

end Split

end Lines
