/-
Machines that take one labelled step at a time.  A label resolves every choice
the environment has, so a step is a partial function and a run is a list of
labels that can be executed; invariants, guarded runs and refinement are then
statements about all such lists.
-/
import Mathlib.Logic.Basic

namespace Transition

universe u v w

variable {S : Type u} {T : Type w} {A : Type v}

/-- What each round of a loop over a list preserves, the loop preserves; the
elements to come are part of the property. -/
theorem foldlM_preserves {P : List A → S → Prop} {step : S → A → Option S}
    (hround : ∀ x rest state next, P (x :: rest) state →
      step state x = some next → P rest next)
    {xs : List A} {state last : S} (hstart : P xs state)
    (hrun : xs.foldlM step state = some last) : P [] last := by
  induction xs generalizing state with
  | nil => exact Option.some.inj hrun ▸ hstart
  | cons x rest ih =>
      rw [List.foldlM_cons, Option.bind_eq_bind,
        Option.bind_eq_some_iff] at hrun
      obtain ⟨mid, hfirst, hrest⟩ := hrun
      exact ih (hround x rest state mid hstart hfirst) hrest

/-- A start state and a partial step function; `none` is a step that cannot be
taken. -/
structure Machine (S : Type u) (A : Type v) where
  start : S
  step : S → A → Option S

namespace Machine

variable (M : Machine S A)

/-- Execute the listed steps in order. -/
def run : S → List A → Option S
  | state, [] => some state
  | state, act :: rest => (M.step state act).bind fun next => run next rest

@[simp] theorem run_nil (state : S) : M.run state [] = some state := rfl

@[simp] theorem run_cons (state : S) (act : A) (rest : List A) :
    M.run state (act :: rest) =
      (M.step state act).bind fun next => M.run next rest := rfl

/-- A run is a loop over the labels. -/
theorem run_eq_foldlM (state : S) (acts : List A) :
    M.run state acts = acts.foldlM M.step state := by
  induction acts generalizing state with
  | nil => rfl
  | cons act rest ih =>
      rw [run_cons, List.foldlM_cons, Option.bind_eq_bind]
      exact congrArg _ (funext fun next => ih next)

theorem run_append (state : S) (first second : List A) :
    M.run state (first ++ second) =
      (M.run state first).bind fun next => M.run next second := by
  simp only [run_eq_foldlM, List.foldlM_append, Option.bind_eq_bind]

/-- The states some list of labels leads to. -/
def Reachable (state : S) : Prop :=
  ∃ acts, M.run M.start acts = some state

/-- What every step preserves, a whole run preserves. -/
theorem run_preserves {Inv : S → Prop}
    (hstep : ∀ state act next, Inv state → M.step state act = some next →
      Inv next)
    {state last : S} {acts : List A} (hinv : Inv state)
    (hrun : M.run state acts = some last) : Inv last := by
  rw [run_eq_foldlM] at hrun
  exact foldlM_preserves (P := fun _ state => Inv state)
    (fun act _ state next => hstep state act next) hinv hrun

theorem Reachable.invariant {M : Machine S A} {Inv : S → Prop}
    (hstart : Inv M.start)
    (hstep : ∀ state act next, Inv state → M.step state act = some next →
      Inv next)
    {state : S} (hreach : M.Reachable state) : Inv state := by
  obtain ⟨acts, hrun⟩ := hreach
  exact M.run_preserves hstep hstart hrun

/-- Every step of the list is taken from a state in which `Guard` allows it. -/
def Guarded (Guard : S → A → Prop) : S → List A → Prop
  | _, [] => True
  | state, act :: rest => Guard state act ∧
      ∀ next, M.step state act = some next → Guarded Guard next rest

instance decidableGuarded (Guard : S → A → Prop)
    [∀ state act, Decidable (Guard state act)] :
    ∀ state acts, Decidable (M.Guarded Guard state acts)
  | _, [] => .isTrue trivial
  | state, act :: rest =>
      have : DecidablePred fun next => M.Guarded Guard next rest :=
        fun next => decidableGuarded Guard next rest
      inferInstanceAs (Decidable (Guard state act ∧
        ∀ next ∈ M.step state act, M.Guarded Guard next rest))

/-- The states reached by runs all of whose steps are allowed by `Guard`. -/
def GuardedReachable (Guard : S → A → Prop) (state : S) : Prop :=
  ∃ acts, M.Guarded Guard M.start acts ∧ M.run M.start acts = some state

/-- An invariant of the steps taken so far and the state they led to. -/
theorem guarded_run_history {Guard : S → A → Prop} {Inv : List A → S → Prop}
    (hstep : ∀ past state act next, Inv past state → Guard state act →
      M.step state act = some next → Inv (past ++ [act]) next)
    {past acts : List A} {state last : S} (hinv : Inv past state)
    (hguard : M.Guarded Guard state acts)
    (hrun : M.run state acts = some last) : Inv (past ++ acts) last := by
  induction acts generalizing past state with
  | nil =>
      rw [run_nil, Option.some.injEq] at hrun
      rw [List.append_nil]
      exact hrun ▸ hinv
  | cons act rest ih =>
      rw [run_cons, Option.bind_eq_some_iff] at hrun
      obtain ⟨next, hnext, hrest⟩ := hrun
      have hlast := ih (hstep past state act next hinv hguard.1 hnext)
        (hguard.2 next hnext) hrest
      rwa [List.append_assoc] at hlast

theorem guarded_run_preserves {Guard : S → A → Prop} {Inv : S → Prop}
    (hstep : ∀ state act next, Inv state → Guard state act →
      M.step state act = some next → Inv next)
    {state last : S} {acts : List A} (hinv : Inv state)
    (hguard : M.Guarded Guard state acts)
    (hrun : M.run state acts = some last) : Inv last := by
  exact @guarded_run_history _ _ M Guard (fun _ state => Inv state)
    (fun _ => hstep) [] acts state last hinv hguard hrun

/-- Where the guard says exactly when a step leads to a good state, the guarded
runs are those that lead through good states only. -/
theorem guarded_iff_good {Guard : S → A → Prop} {Inv Good : S → Prop}
    (hgood : ∀ state, Inv state → Good state)
    (hguard : ∀ state act, Inv state → (Guard state act ↔
      ∃ next, M.step state act = some next ∧ Good next))
    (hstep : ∀ state act next, Inv state → Guard state act →
      M.step state act = some next → Inv next)
    {state : S} {acts : List A} (hinv : Inv state) :
    M.Guarded Guard state acts ↔ ∀ past, past <+: acts →
      ∃ last, M.run state past = some last ∧ Good last := by
  induction acts generalizing state with
  | nil =>
      refine ⟨fun _ past hpast => ?_, fun _ => trivial⟩
      rw [List.prefix_nil.mp hpast]
      exact ⟨state, rfl, hgood state hinv⟩
  | cons act rest ih =>
      constructor
      · rintro ⟨hact, hrest⟩ past hpast
        cases past with
        | nil => exact ⟨state, rfl, hgood state hinv⟩
        | cons first past =>
            obtain ⟨rfl, hbehind⟩ := List.cons_prefix_cons.mp hpast
            obtain ⟨next, hnext, -⟩ := (hguard state first hinv).mp hact
            rw [run_cons, hnext]
            exact (ih (hstep state first next hinv hact hnext)).mp
              (hrest next hnext) past hbehind
      · intro hruns
        obtain ⟨last, hrun, hlast⟩ := hruns [act] ⟨rest, rfl⟩
        rw [run_cons, Option.bind_eq_some_iff] at hrun
        obtain ⟨mid, hmid, hsame⟩ := hrun
        obtain rfl := Option.some.inj hsame
        have hact := (hguard state act hinv).mpr ⟨mid, hmid, hlast⟩
        refine ⟨hact, fun next hnext =>
          (ih (hstep state act next hinv hact hnext)).mpr fun past hpast => ?_⟩
        have hwhole := hruns (act :: past)
          (List.cons_prefix_cons.mpr ⟨rfl, hpast⟩)
        rwa [run_cons, hnext, Option.bind_some] at hwhole

theorem GuardedReachable.invariant {M : Machine S A} {Guard : S → A → Prop}
    {Inv : S → Prop} (hstart : Inv M.start)
    (hstep : ∀ state act next, Inv state → Guard state act →
      M.step state act = some next → Inv next)
    {state : S} (hreach : M.GuardedReachable Guard state) : Inv state := by
  obtain ⟨acts, hguard, hrun⟩ := hreach
  exact M.guarded_run_preserves hstep hstart hguard hrun

/-- Forward refinement: wherever the abstract machine can step, the concrete
one can take the same labelled step and stay related. -/
theorem run_refines (N : Machine T A) {Rel : S → T → Prop}
    (hstep : ∀ state spec act spec', Rel state spec →
      N.step spec act = some spec' →
      ∃ next, M.step state act = some next ∧ Rel next spec')
    {state : S} {spec spec' : T} {acts : List A} (hrel : Rel state spec)
    (hrun : N.run spec acts = some spec') :
    ∃ last, M.run state acts = some last ∧ Rel last spec' := by
  induction acts generalizing state spec with
  | nil =>
      rw [run_nil, Option.some.injEq] at hrun
      exact ⟨state, rfl, hrun ▸ hrel⟩
  | cons act rest ih =>
      rw [run_cons, Option.bind_eq_some_iff] at hrun
      obtain ⟨mid, hmid, hrest⟩ := hrun
      obtain ⟨next, hnext, hrelNext⟩ := hstep state spec act mid hrel hmid
      obtain ⟨last, hlast, hrelLast⟩ := ih hrelNext hrest
      exact ⟨last, by rw [run_cons, hnext]; exact hlast, hrelLast⟩

section Work

variable {M} {Inv : S → Prop} {Kind : A → Prop} {work : S → Nat}
  (hstep : ∀ state act next, Inv state → Kind act →
    M.step state act = some next → Inv next ∧ work next < work state)

include hstep

/-- Steps of a kind that each use up work are no more than there was work. -/
theorem run_uses_work {state last : S} {acts : List A}
    (hinv : Inv state) (hkind : ∀ act ∈ acts, Kind act)
    (hrun : M.run state acts = some last) :
    Inv last ∧ acts.length + work last ≤ work state := by
  induction acts generalizing state with
  | nil =>
      rw [run_nil, Option.some.injEq] at hrun
      subst hrun
      exact ⟨hinv, Nat.le_of_eq (Nat.zero_add _)⟩
  | cons act rest ih =>
      rw [run_cons, Option.bind_eq_some_iff] at hrun
      obtain ⟨next, hnext, hrest⟩ := hrun
      obtain ⟨hkept, hless⟩ :=
        hstep state act next hinv (hkind act List.mem_cons_self) hnext
      obtain ⟨hlast, hle⟩ := ih hkept
        (fun other hother => hkind other (List.mem_cons_of_mem _ hother)) hrest
      refine ⟨hlast, ?_⟩
      rw [List.length_cons]
      omega

/-- They can be taken until there is none left to take. -/
theorem exists_run_stuck {state : S} (hinv : Inv state) :
    ∃ acts last, (∀ act ∈ acts, Kind act) ∧
      M.run state acts = some last ∧
      ∀ act, Kind act → M.step last act = none := by
  induction hwork : work state using Nat.strongRecOn generalizing state with
  | ind n ih =>
      by_cases hstuck : ∀ act, Kind act → M.step state act = none
      · exact ⟨[], state, fun act hact => absurd hact List.not_mem_nil, rfl,
          hstuck⟩
      · simp only [not_forall] at hstuck
        obtain ⟨act, hkind, htaken⟩ := hstuck
        obtain ⟨next, hnext⟩ := Option.ne_none_iff_exists'.mp htaken
        obtain ⟨hkept, hless⟩ := hstep state act next hinv hkind hnext
        obtain ⟨acts, last, hall, hrun, hlast⟩ :=
          ih (work next) (by omega) hkept rfl
        refine ⟨act :: acts, last, ?_, ?_, hlast⟩
        · exact List.forall_mem_cons.mpr ⟨hkind, hall⟩
        · rw [run_cons, hnext, Option.bind_some, hrun]

end Work

end Machine

section Traces

variable {E : Type u} {Cause : List E → E → Prop}

/-- Every event of a trace has a cause in what happened before it. -/
def Justified (Cause : List E → E → Prop) (trace : List E) : Prop :=
  ∀ before event after, trace = before ++ event :: after → Cause before event

theorem justified_nil : Justified Cause [] := by
  intro before event after hsplit
  simp at hsplit

/-- A trace goes on with events that have causes in it and among themselves. -/
theorem Justified.append {trace events : List E}
    (hold : Justified Cause trace)
    (hnew : ∀ done event rest, events = done ++ event :: rest →
      Cause (trace ++ done) event) :
    Justified Cause (trace ++ events) := by
  intro before event after hsplit
  rcases List.append_eq_append_iff.mp hsplit with
    ⟨done, rfl, hevents⟩ | ⟨rest, rfl, hrest⟩
  · exact hnew done event after hevents
  · cases rest with
    | nil =>
        rw [List.nil_append] at hrest
        rw [List.append_nil] at hnew
        simpa using hnew [] event after hrest.symm
    | cons first rest =>
        rw [List.cons_append, List.cons.injEq] at hrest
        exact hold before event rest (by rw [hrest.1])

theorem Justified.snoc {trace : List E} {event : E}
    (hold : Justified Cause trace) (hcause : Cause trace event) :
    Justified Cause (trace ++ [event]) := by
  refine hold.append fun done other rest hsplit => ?_
  cases done with
  | nil =>
      rw [List.nil_append, List.cons.injEq] at hsplit
      rw [List.append_nil, ← hsplit.1]
      exact hcause
  | cons first done =>
      rw [List.cons_append, List.cons.injEq] at hsplit
      simp at hsplit

end Traces

end Transition
