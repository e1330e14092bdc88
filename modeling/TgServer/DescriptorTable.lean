/-
The descriptor table of a process: which numbers are open and what they refer
to, under opening, closing and other calls that need an open descriptor.
-/
import Mathlib.Data.List.Nodup
import Mathlib.Logic.Function.Basic

namespace DescriptorTable

universe u

variable {F : Type u}

/-- What each open descriptor refers to. -/
abbrev Table (F : Type u) := Int → Option F

/-- A call on a descriptor. -/
structure Use where
  fd : Int
  closes : Bool
deriving Repr, DecidableEq

namespace Use

def close (fd : Int) : Use := ⟨fd, true⟩

def keep (fd : Int) : Use := ⟨fd, false⟩

/-- The table behind the call. -/
def after (t : Table F) (use : Use) : Table F :=
  if use.closes then Function.update t use.fd none else t

end Use

/-- The table behind a list of calls. -/
def after (t : Table F) (uses : List Use) : Table F := uses.foldl Use.after t

/-- The calls on descriptors that are not open when their turn comes. -/
def misused (t : Table F) : List Use → List Use
  | [] => []
  | use :: rest =>
      (if (t use.fd).isSome then [] else [use]) ++ misused (use.after t) rest

/-- The table with descriptors opened in order. -/
def openAll (t : Table F) (opened : List (Int × F)) : Table F :=
  opened.foldl (fun t entry => Function.update t entry.1 (some entry.2)) t

/-- The kernel may return these numbers together. -/
def Fresh (t : Table F) (fds : List Int) : Prop :=
  fds.Nodup ∧ ∀ fd ∈ fds, 0 ≤ fd ∧ (t fd).isNone

instance (t : Table F) (fds : List Int) : Decidable (Fresh t fds) :=
  inferInstanceAs (Decidable (_ ∧ ∀ fd ∈ fds, 0 ≤ fd ∧ (t fd).isNone))

section After

variable (t : Table F)

@[simp] theorem after_nil : after t [] = t := rfl

@[simp] theorem misused_nil : misused t [] = [] := rfl

theorem after_append (first second : List Use) :
    after t (first ++ second) = after (after t first) second :=
  List.foldl_append

theorem misused_append (first second : List Use) :
    misused t (first ++ second) =
      misused t first ++ misused (after t first) second := by
  induction first generalizing t with
  | nil => rfl
  | cons use rest ih =>
      rw [List.cons_append, misused, misused, ih, List.append_assoc]
      rfl

theorem after_apply (uses : List Use) (fd : Int) :
    after t uses fd = if .close fd ∈ uses then none else t fd := by
  induction uses generalizing t with
  | nil => rfl
  | cons use rest ih =>
      rw [after, List.foldl_cons]
      refine (ih (use.after t)).trans ?_
      obtain ⟨other, closes⟩ := use
      by_cases hrest : .close fd ∈ rest
      · rw [if_pos hrest, if_pos (List.mem_cons_of_mem _ hrest)]
      · rw [if_neg hrest]
        cases closes with
        | false =>
            have hne : Use.close fd ∉ Use.mk other false :: rest := by
              simpa [Use.close] using hrest
            rw [if_neg hne]
            rfl
        | true =>
            by_cases hsame : fd = other
            · subst hsame
              rw [if_pos (show Use.close fd ∈ Use.mk fd true :: rest from
                List.mem_cons_self)]
              exact Function.update_self ..
            · have hne : Use.close fd ∉ Use.mk other true :: rest := by
                rw [List.mem_cons, not_or]
                exact ⟨fun heq => hsame (congrArg Use.fd heq), hrest⟩
              rw [if_neg hne]
              exact Function.update_of_ne hsame ..

theorem after_some {uses : List Use} {fd : Int} {file : F}
    (hfile : after t uses fd = some file) : t fd = some file := by
  rw [after_apply] at hfile
  split at hfile
  · cases hfile
  · exact hfile

/-- Closing each of some distinct open descriptors once is in order. -/
theorem misused_closes {fds : List Int} (hdistinct : fds.Nodup)
    (hopen : ∀ fd ∈ fds, (t fd).isSome) :
    misused t (fds.map .close) = [] := by
  induction fds generalizing t with
  | nil => rfl
  | cons fd rest ih =>
      rw [List.nodup_cons] at hdistinct
      rw [List.map_cons, misused,
        if_pos (show (t (Use.close fd).fd).isSome from
          hopen fd List.mem_cons_self), List.nil_append]
      refine ih _ hdistinct.2 fun other hother => ?_
      have hne : other ≠ fd := fun heq => hdistinct.1 (heq ▸ hother)
      change (Function.update t fd none other).isSome
      rw [Function.update_of_ne hne]
      exact hopen other (List.mem_cons_of_mem _ hother)

theorem after_closes (fds : List Int) (fd : Int) :
    after t (fds.map .close) fd = if fd ∈ fds then none else t fd := by
  rw [after_apply]
  have hmem : Use.close fd ∈ fds.map Use.close ↔ fd ∈ fds := by
    rw [List.mem_map]
    constructor
    · rintro ⟨other, hother, heq⟩
      obtain rfl : other = fd := congrArg Use.fd heq
      exact hother
    · exact fun hfd => ⟨fd, hfd, rfl⟩
  simp only [hmem]

end After

section Open

variable (t : Table F)

theorem openAll_of_not_mem {opened : List (Int × F)} {fd : Int}
    (hfd : fd ∉ opened.map Prod.fst) : openAll t opened fd = t fd := by
  induction opened generalizing t with
  | nil => rfl
  | cons entry rest ih =>
      rw [List.map_cons, List.mem_cons, not_or] at hfd
      rw [openAll, List.foldl_cons]
      refine (ih (Function.update t entry.1 (some entry.2)) hfd.2).trans ?_
      exact Function.update_of_ne hfd.1 ..

theorem openAll_of_mem {opened : List (Int × F)}
    (hdistinct : (opened.map Prod.fst).Nodup) {fd : Int} {file : F}
    (hmem : (fd, file) ∈ opened) : openAll t opened fd = some file := by
  induction opened generalizing t with
  | nil => cases hmem
  | cons entry rest ih =>
      rw [List.map_cons, List.nodup_cons] at hdistinct
      rw [openAll, List.foldl_cons]
      rcases List.mem_cons.mp hmem with rfl | hrest
      · refine (openAll_of_not_mem _ hdistinct.1).trans ?_
        exact Function.update_self ..
      · exact ih _ hdistinct.2 hrest

/-- Fresh numbers are none of those that are open. -/
theorem openAll_other {opened : List (Int × F)}
    (hfresh : Fresh t (opened.map Prod.fst)) {fd : Int} {file : F}
    (hfile : t fd = some file) : openAll t opened fd = some file := by
  rw [openAll_of_not_mem t, hfile]
  intro hin
  have hnone := (hfresh.2 fd hin).2
  rw [hfile] at hnone
  cases hnone

theorem openAll_some {opened : List (Int × F)}
    (hfresh : Fresh t (opened.map Prod.fst)) {fd : Int} {file : F}
    (hfile : openAll t opened fd = some file) :
    (fd, file) ∈ opened ∨ t fd = some file := by
  by_cases hnew : fd ∈ opened.map Prod.fst
  · obtain ⟨⟨_, other⟩, hentry, rfl⟩ := List.mem_map.mp hnew
    rw [openAll_of_mem t hfresh.1 hentry, Option.some.injEq] at hfile
    exact Or.inl (hfile ▸ hentry)
  · rw [openAll_of_not_mem t hnew] at hfile
    exact Or.inr hfile

end Open

/-- What `P` does not hold of is open under the same numbers. -/
def SameBut (P : F → Prop) (t t' : Table F) : Prop :=
  ∀ ⦃fd file⦄, ¬P file → (t' fd = some file ↔ t fd = some file)

theorem SameBut.refl (P : F → Prop) (t : Table F) : SameBut P t t :=
  fun _ _ _ => Iff.rfl

/-- Opening things `P` holds of changes nothing else. -/
theorem SameBut.openAll {P : F → Prop} (t : Table F) {opened : List (Int × F)}
    (hfresh : Fresh t (opened.map Prod.fst))
    (hP : ∀ entry ∈ opened, P entry.2) :
    SameBut P t (DescriptorTable.openAll t opened) :=
  fun _ _ hother => ⟨fun hfile => (openAll_some t hfresh hfile).resolve_left
    fun hnew => hother (hP _ hnew), openAll_other t hfresh⟩

/-- Exactly the numbers listed, each once, are open for something `P` holds
of. -/
structure Exactly (P : F → Prop) (t : Table F) (fds : List Int) : Prop where
  once : fds.Nodup
  held : ∀ fd ∈ fds, 0 ≤ fd ∧ ∃ file, t fd = some file ∧ P file
  covers : ∀ {fd file}, t fd = some file → P file → fd ∈ fds

namespace Exactly

variable {P : F → Prop} {t : Table F} {fds : List Int}

theorem perm {others : List Int} (hexact : Exactly P t fds)
    (hperm : others.Perm fds) : Exactly P t others where
  once := hperm.nodup_iff.mpr hexact.once
  held := fun fd hfd => hexact.held fd (hperm.mem_iff.mp hfd)
  covers := fun hfile hP => hperm.mem_iff.mpr (hexact.covers hfile hP)

/-- Closing some of the numbers leaves the others, and is in order. -/
theorem close {closed : List Int} (hexact : Exactly P t (closed ++ fds)) :
    Exactly P (after t (closed.map .close)) fds ∧
      misused t (closed.map .close) = [] := by
  obtain ⟨honce, hheld, hcovers⟩ := hexact
  rw [List.nodup_append'] at honce
  obtain ⟨hclosed, hfds, hapart⟩ := honce
  refine ⟨⟨hfds, ?_, ?_⟩, misused_closes t hclosed ?_⟩
  · intro fd hfd
    have hout : fd ∉ closed := fun hin => hapart hin hfd
    rw [after_closes, if_neg hout]
    exact hheld fd (List.mem_append_right _ hfd)
  · intro fd file hfile hP
    rw [after_closes] at hfile
    split at hfile
    · cases hfile
    · next hout =>
        exact (List.mem_append.mp (hcovers hfile hP)).resolve_left hout
  · intro fd hfd
    obtain ⟨-, file, hfile, -⟩ := hheld fd (List.mem_append_left _ hfd)
    rw [hfile]
    rfl

/-- The numbers left refer to what they did. -/
theorem kept {closed : List Int} (hexact : Exactly P t (closed ++ fds))
    {fd : Int} (hfd : fd ∈ fds) : after t (closed.map .close) fd = t fd := by
  have hout : fd ∉ closed := fun hin =>
    (List.nodup_append'.mp hexact.once).2.2 hin hfd
  rw [after_closes, if_neg hout]

/-- A number for something `P` does not hold of is none of these. -/
theorem not_mem (hexact : Exactly P t fds) {fd : Int} {file : F}
    (hfile : t fd = some file) (hP : ¬P file) : fd ∉ fds := by
  intro hfd
  obtain ⟨-, other, hother, hPother⟩ := hexact.held fd hfd
  obtain rfl := Option.some.inj (hfile.symm.trans hother)
  exact hP hPother

/-- Closing some of the numbers changes nothing else. -/
theorem sameBut {closed : List Int} (hexact : Exactly P t (closed ++ fds)) :
    SameBut P t (after t (closed.map .close)) := by
  intro fd file hP
  refine ⟨after_some t, fun hfile => ?_⟩
  have hout : fd ∉ closed := fun hin =>
    hexact.not_mem hfile hP (List.mem_append_left _ hin)
  rw [after_closes, if_neg hout, hfile]

/-- Fresh numbers for things `P` holds of are added. -/
theorem opens {opened : List (Int × F)} (hexact : Exactly P t fds)
    (hfresh : Fresh t (opened.map Prod.fst))
    (hP : ∀ entry ∈ opened, P entry.2) :
    Exactly P (openAll t opened) (fds ++ opened.map Prod.fst) := by
  obtain ⟨honce, hheld, hcovers⟩ := hexact
  obtain ⟨hdistinct, hfree⟩ := hfresh
  have hapart : ∀ fd ∈ fds, fd ∉ opened.map Prod.fst := by
    intro fd hfd hin
    obtain ⟨-, file, hfile, -⟩ := hheld fd hfd
    have hnone := (hfree fd hin).2
    rw [hfile] at hnone
    cases hnone
  refine ⟨?_, ?_, ?_⟩
  · rw [List.nodup_append']
    exact ⟨honce, hdistinct, fun fd hfd => hapart fd hfd⟩
  · intro fd hfd
    rcases List.mem_append.mp hfd with hold | hnew
    · rw [openAll_of_not_mem t (hapart fd hold)]
      exact hheld fd hold
    · obtain ⟨entry, hentry, rfl⟩ := List.mem_map.mp hnew
      refine ⟨(hfree _ hnew).1, entry.2, ?_, hP entry hentry⟩
      exact openAll_of_mem t hdistinct hentry
  · intro fd file hfile hPfile
    rcases openAll_some t ⟨hdistinct, hfree⟩ hfile with hnew | hold
    · exact List.mem_append_right _ (List.mem_map_of_mem hnew)
    · exact List.mem_append_left _ (hcovers hold hPfile)

/-- Numbers for something else are not added. -/
theorem opens_other {opened : List (Int × F)} (hexact : Exactly P t fds)
    (hfresh : Fresh t (opened.map Prod.fst))
    (hP : ∀ entry ∈ opened, ¬P entry.2) : Exactly P (openAll t opened) fds where
  once := hexact.once
  held := fun fd hfd => by
    obtain ⟨hnonneg, file, hfile, hPfile⟩ := hexact.held fd hfd
    exact ⟨hnonneg, file, openAll_other t hfresh hfile, hPfile⟩
  covers := fun hfile hPfile => by
    rcases openAll_some t hfresh hfile with hnew | hold
    · exact absurd hPfile (hP _ hnew)
    · exact hexact.covers hold hPfile

end Exactly

end DescriptorTable
