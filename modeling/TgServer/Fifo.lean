/-
First-in first-out queues: what may be taken, and what a history of pushing,
taking and clearing leaves in the queue.
-/
import Mathlib.Data.List.Basic

namespace Fifo

universe u

variable {α : Type u}

/-- What happens to a queue; taking from an empty one finds nothing. -/
inductive Event (α : Type u) where
  | push (a : α)
  | take (found : Option α)
  | clear
deriving Repr, DecidableEq

/-- An element is taken only if it is the first one, and nothing is found only
if there is nothing. -/
inductive Step : List α → Event α → List α → Prop
  | push (content : List α) (a : α) : Step content (.push a) (content ++ [a])
  | take (a : α) (rest : List α) : Step (a :: rest) (.take (some a)) rest
  | empty : Step [] (.take none) []
  | clear (content : List α) : Step content .clear []

/-- A history leads from the empty queue to a content. -/
inductive Leads : List (Event α) → List α → Prop
  | nil : Leads [] []
  | snoc {history : List (Event α)} {content next : List α} {event : Event α} :
      Leads history content → Step content event next →
      Leads (history ++ [event]) next

/-- The elements pushed since the queue was last cleared. -/
def pushed (history : List (Event α)) : List α :=
  history.foldl (fun elements event => match event with
    | .push a => elements ++ [a]
    | .take _ => elements
    | .clear => []) []

/-- The elements taken since the queue was last cleared. -/
def taken (history : List (Event α)) : List α :=
  history.foldl (fun elements event => match event with
    | .push _ => elements
    | .take found => elements ++ found.toList
    | .clear => []) []

/-- The elements taken at any time. -/
def everTaken (history : List (Event α)) : List α :=
  history.flatMap fun event => match event with
    | .take found => found.toList
    | _ => []

section Snoc

variable (history : List (Event α)) (a : α) (found : Option α)

@[simp] theorem pushed_push :
    pushed (history ++ [.push a]) = pushed history ++ [a] := by
  simp [pushed]

@[simp] theorem pushed_take :
    pushed (history ++ [.take found]) = pushed history := by
  simp [pushed]

@[simp] theorem pushed_clear : pushed (history ++ [.clear]) = [] := by
  simp [pushed]

@[simp] theorem taken_push :
    taken (history ++ [.push a]) = taken history := by
  simp [taken]

@[simp] theorem taken_take :
    taken (history ++ [.take found]) = taken history ++ found.toList := by
  simp [taken]

@[simp] theorem taken_clear : taken (history ++ [.clear]) = [] := by
  simp [taken]

@[simp] theorem everTaken_push :
    everTaken (history ++ [.push a]) = everTaken history := by
  simp [everTaken]

@[simp] theorem everTaken_take :
    everTaken (history ++ [.take found]) =
      everTaken history ++ found.toList := by
  simp [everTaken]

@[simp] theorem everTaken_clear :
    everTaken (history ++ [.clear]) = everTaken history := by
  simp [everTaken]

end Snoc

/-- What was pushed since the last clearing is what was taken since then,
followed by what is still there. -/
theorem Leads.pushed_eq {history : List (Event α)} {content : List α}
    (hleads : Leads history content) :
    pushed history = taken history ++ content := by
  induction hleads with
  | nil => rfl
  | snoc hleads hstep ih =>
      cases hstep with
      | push content a => rw [pushed_push, taken_push, ih, List.append_assoc]
      | take a rest => rw [pushed_take, taken_take, ih]; simp
      | empty => rw [pushed_take, taken_take, ih]; simp
      | clear content => rw [pushed_clear, taken_clear, List.append_nil]

/-- The elements still there are those pushed after the taken ones. -/
theorem Leads.content_eq {history : List (Event α)} {content : List α}
    (hleads : Leads history content) :
    content = (pushed history).drop (taken history).length := by
  rw [hleads.pushed_eq, List.drop_left]

theorem Leads.length {history : List (Event α)} {content : List α}
    (hleads : Leads history content) :
    (content.length : Int) =
      (pushed history).length - (taken history).length := by
  rw [hleads.pushed_eq, List.length_append]
  omega

/-- There is nothing left exactly when everything pushed was taken. -/
theorem Leads.eq_nil_iff {history : List (Event α)} {content : List α}
    (hleads : Leads history content) :
    content = [] ↔ taken history = pushed history := by
  rw [hleads.pushed_eq]
  constructor
  · intro hnil
    rw [hnil, List.append_nil]
  · intro hall
    exact List.self_eq_append_right.mp hall

end Fifo
