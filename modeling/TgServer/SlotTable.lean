/-
Fixed-size arrays of optional entries: the index loop that looks for a slot,
the pointer loop that stops at the first empty slot, and the finite map an
array with holes stands for when its entries carry distinct keys.
-/
import Mathlib.Data.List.Basic
import Mathlib.Logic.Function.Basic

namespace SlotTable

universe u v

variable {α : Type u} {κ : Type v}

/-- What stands in a list after a store is what was stored, or what stood there
before. -/
theorem set_cases {slots : List α} {i j : Nat} {stored found : α}
    (hget : (slots.set i stored)[j]? = some found) :
    j = i ∧ found = stored ∨ j ≠ i ∧ slots[j]? = some found := by
  rw [List.getElem?_set] at hget
  split at hget
  · next hsame =>
      split at hget
      · exact Or.inl ⟨hsame.symm, (Option.some.inj hget).symm⟩
      · cases hget
  · next hne => exact Or.inr ⟨Ne.symm hne, hget⟩

/-- `for (i = first; i < first + count; i++) if (p(slots[i])) break;` -- the
index found, or the end of the loop; `none` when it reads outside the block. -/
def scan (slots : List α) (p : α → Bool) : Nat → Nat → Option (Option Nat)
  | 0, _ => some none
  | count + 1, first =>
      match slots[first]? with
      | none => none
      | some slot =>
          if p slot then some (some first) else scan slots p count (first + 1)

theorem scan_eq_findIdx? (slots : List α) (p : α → Bool) (count first : Nat)
    (hle : first + count = slots.length) :
    scan slots p count first =
      some (((slots.drop first).findIdx? p).map (· + first)) := by
  induction count generalizing first with
  | zero =>
      rw [Nat.add_zero] at hle
      subst hle
      simp [scan]
  | succ n ih =>
      have hlt : first < slots.length := by omega
      rw [scan, List.getElem?_eq_getElem hlt, List.drop_eq_getElem_cons hlt,
        List.findIdx?_cons]
      by_cases hp : p slots[first] = true
      · simp [hp]
      · simp only [hp, Bool.false_eq_true, ↓reduceIte, Option.map_map]
        rw [ih (first + 1) (by omega)]
        congr 2
        funext i
        simp only [Function.comp]
        omega

/-- A loop over exactly the length of the block never leaves it and finds the
first match. -/
theorem scan_length (slots : List α) (p : α → Bool) :
    scan slots p slots.length 0 = some (slots.findIdx? p) := by
  rw [scan_eq_findIdx? slots p slots.length 0 (Nat.zero_add _)]
  simp

theorem scan_found {slots : List α} {p : α → Bool} {count first i : Nat}
    (hscan : scan slots p count first = some (some i)) :
    ∃ slot, slots[i]? = some slot ∧ p slot = true := by
  induction count generalizing first with
  | zero => simp [scan] at hscan
  | succ n ih =>
      rw [scan] at hscan
      split at hscan
      · cases hscan
      · rename_i slot hslot
        split at hscan
        · rename_i hp
          obtain rfl : first = i := by simpa using hscan
          exact ⟨slot, hslot, hp⟩
        · exact ih hscan

theorem scan_missed {slots : List α} {p : α → Bool} {count first : Nat}
    (hscan : scan slots p count first = some none) {i : Nat}
    (hfirst : first ≤ i) (hlt : i < first + count) :
    ∃ slot, slots[i]? = some slot ∧ p slot = false := by
  induction count generalizing first with
  | zero => omega
  | succ n ih =>
      rw [scan] at hscan
      split at hscan
      · cases hscan
      · rename_i slot hslot
        split at hscan
        · cases hscan
        · rename_i hp
          rcases Nat.eq_or_lt_of_le hfirst with rfl | hbehind
          · exact ⟨slot, hslot, eq_false_of_ne_true hp⟩
          · exact ih hscan hbehind (by omega)

theorem scan_defined (slots : List α) (p : α → Bool) {count first : Nat}
    (hle : first + count ≤ slots.length) :
    ∃ result, scan slots p count first = some result := by
  induction count generalizing first with
  | zero => exact ⟨none, rfl⟩
  | succ n ih =>
      have hlt : first < slots.length := by omega
      rw [scan, List.getElem?_eq_getElem hlt]
      by_cases hp : p slots[first] = true
      · exact ⟨some first, by simp [hp]⟩
      · obtain ⟨result, hresult⟩ := ih
          (show first + 1 + n ≤ slots.length by omega)
        exact ⟨result, by simp [hp, hresult]⟩

/-- A loop over the images of the slots does the same where its test says the
same. -/
theorem scan_map {β : Type v} (f : α → β) (p : β → Bool) (q : α → Bool)
    (slots : List α) (hagree : ∀ slot ∈ slots, p (f slot) = q slot)
    (count first : Nat) :
    scan (slots.map f) p count first = scan slots q count first := by
  induction count generalizing first with
  | zero => rfl
  | succ n ih =>
      rw [scan, scan, List.getElem?_map]
      cases hslot : slots[first]? with
      | none => rfl
      | some slot =>
          rw [Option.map_some]
          dsimp only
          rw [hagree slot (List.mem_of_getElem? hslot), ih]

/-- A loop whose body has a result for each entry. -/
theorem mapM_of_map {β : Type v} {l : List α} {f : α → Option β}
    {results : List β} (hmap : l.map f = results.map some) :
    l.mapM f = some results := by
  induction l generalizing results with
  | nil =>
      rw [List.map_nil, eq_comm, List.map_eq_nil_iff] at hmap
      rw [hmap]
      rfl
  | cons a rest ih =>
      rw [List.map_cons, eq_comm, List.map_eq_cons_iff] at hmap
      obtain ⟨first, more, rfl, hfirst, hmore⟩ := hmap
      rw [List.mapM_cons, ← hfirst, ih hmore.symm]
      rfl

/-- `while ((slot = *head++) != NULL)`: the entries before the first empty
slot; `none` when the block ends before one is met. -/
def walk : List (Option α) → Option (List α)
  | [] => none
  | none :: _ => some []
  | some entry :: rest => (walk rest).map (entry :: ·)

theorem walk_terminated (entries : List α) (rest : List (Option α)) :
    walk (entries.map some ++ none :: rest) = some entries := by
  induction entries with
  | nil => rfl
  | cons entry entries ih =>
      simp only [List.map_cons, List.cons_append, walk, ih, Option.map_some]

theorem walk_full (entries : List α) : walk (entries.map some) = none := by
  induction entries with
  | nil => rfl
  | cons entry entries ih =>
      simp only [List.map_cons, walk, ih, Option.map_none]

/-- A loop that ends has met a NULL slot right behind the entries. -/
theorem walk_some {slots : List (Option α)} {entries : List α}
    (hwalk : walk slots = some entries) :
    slots.take entries.length = entries.map some ∧
      slots[entries.length]? = some none := by
  induction slots generalizing entries with
  | nil => cases hwalk
  | cons slot rest ih =>
      cases slot with
      | none =>
          obtain rfl : entries = [] := (Option.some.inj hwalk).symm
          exact ⟨rfl, rfl⟩
      | some entry =>
          rw [walk, Option.map_eq_some_iff] at hwalk
          obtain ⟨more, hmore, rfl⟩ := hwalk
          obtain ⟨htake, hend⟩ := ih hmore
          rw [List.length_cons, List.take_succ_cons, htake, List.map_cons,
            List.getElem?_cons_succ]
          exact ⟨rfl, hend⟩

/-- A loop leaves the block exactly if no slot is NULL. -/
theorem walk_eq_none_iff {slots : List (Option α)} :
    walk slots = none ↔ none ∉ slots := by
  induction slots with
  | nil => simp [walk]
  | cons slot rest ih =>
      cases slot with
      | none => simp [walk]
      | some entry => simp [walk, ih]

/-- The block has a NULL slot, and no entry stands behind one. -/
def Gapless (slots : List (Option α)) : Prop :=
  none ∈ slots ∧ ∀ (i j : Nat) (entry : α), i < j → slots[i]? = some none →
    slots[j]? ≠ some (some entry)

/-- A loop counts the occupied slots exactly if they are the first ones and not
all. -/
theorem walk_count_iff (slots : List (Option α)) :
    (walk slots).map List.length = some (slots.countP Option.isSome) ↔
      Gapless slots := by
  cases hwalk : walk slots with
  | none =>
      have hfull := walk_eq_none_iff.mp hwalk
      simp [Gapless, hfull]
  | some entries =>
      obtain ⟨htake, hend⟩ := walk_some hwalk
      have hlt := (List.getElem?_eq_some_iff.mp hend).1
      have hsplit : slots.countP Option.isSome = entries.length +
          (slots.drop entries.length).countP Option.isSome := by
        conv_lhs => rw [← List.take_append_drop entries.length slots,
          List.countP_append, htake]
        simp
      rw [Option.map_some, Option.some.injEq, hsplit, Nat.left_eq_add,
        List.countP_eq_zero]
      constructor
      · intro hempty
        refine ⟨List.mem_of_getElem? hend, ?_⟩
        intro i j entry hij hnull hsome
        rcases Nat.lt_or_ge i entries.length with hi | hi
        · have hfront : (slots.take entries.length)[i]? = some none := by
            rw [List.getElem?_take_of_lt hi, hnull]
          simp [htake, hi] at hfront
        · have hmem : some entry ∈ slots.drop entries.length := by
            refine List.mem_of_getElem? (i := j - entries.length) ?_
            rw [List.getElem?_drop, Nat.add_sub_cancel' (by omega), hsome]
          exact hempty _ hmem rfl
      · rintro ⟨-, hgapless⟩ slot hmem hsome
        obtain ⟨entry, rfl⟩ := Option.isSome_iff_exists.mp hsome
        obtain ⟨j, hj⟩ := List.getElem?_of_mem hmem
        rw [List.getElem?_drop] at hj
        rcases Nat.eq_zero_or_pos j with rfl | hpos
        · rw [Nat.add_zero, hend] at hj
          cases hj
        · exact hgapless _ _ entry (by omega) hend hj

/-- What a search makes of an entry: go on, take it, or give up. -/
inductive Probe where
  | next
  | found
  | stop
deriving Repr, DecidableEq

/-- A search that stops at the first empty slot: how many slots it has read
and the entry it took; `none` when it reads outside the block or `probe`
fails. -/
def search (probe : α → Option Probe) :
    List (Option α) → Option (Nat × Option α)
  | [] => none
  | none :: _ => some (1, none)
  | some entry :: rest =>
      match probe entry with
      | none => none
      | some .stop => some (1, none)
      | some .found => some (1, some entry)
      | some .next => (search probe rest).map fun (n, found) => (n + 1, found)

/-- Behind the entries, only the empty slot matters. -/
theorem search_terminated (probe : α → Option Probe) (take : α → Bool)
    (entries : List α) (rest : List (Option α))
    (hprobe : ∀ entry ∈ entries,
      probe entry = some (if take entry then .found else .next)) :
    search probe (entries.map some ++ none :: rest) =
      some ((entries.findIdx? take).getD entries.length + 1,
        entries.find? take) := by
  induction entries with
  | nil => rfl
  | cons entry entries ih =>
      have hrest := ih fun other hother =>
        hprobe other (List.mem_cons_of_mem _ hother)
      have hentry := hprobe entry List.mem_cons_self
      rw [List.map_cons, List.cons_append, search, hentry, List.findIdx?_cons,
        List.find?_cons]
      cases take entry with
      | true => rfl
      | false =>
          simp only [Bool.false_eq_true, ↓reduceIte, hrest, Option.map_some,
            List.length_cons]
          cases entries.findIdx? take <;> rfl

/-- What a search returns at all is the first entry that passes its test, also
when nothing is free behind the entries. -/
theorem search_defined {probe : α → Option Probe} {take : α → Bool}
    {entries : List α} {spare n : Nat} {found : Option α}
    (hprobe : ∀ entry ∈ entries,
      probe entry = some (if take entry then .found else .next))
    (hsearch : search probe
      (entries.map some ++ List.replicate spare none) = some (n, found)) :
    found = entries.find? take := by
  induction entries generalizing n with
  | nil =>
      cases spare with
      | zero => cases hsearch
      | succ spare =>
          rw [List.map_nil, List.nil_append, List.replicate_succ, search,
            Option.some.injEq, Prod.mk.injEq] at hsearch
          exact hsearch.2.symm
  | cons entry entries ih =>
      have hentry := hprobe entry List.mem_cons_self
      rw [List.map_cons, List.cons_append, search, hentry] at hsearch
      rw [List.find?_cons]
      cases htake : take entry with
      | true =>
          simp only [htake, if_pos, Option.some.injEq, Prod.mk.injEq] at hsearch
          exact hsearch.2.symm
      | false =>
          simp only [htake, Bool.false_eq_true, if_false] at hsearch
          obtain ⟨⟨m, last⟩, hrest, heq⟩ := Option.map_eq_some_iff.mp hsearch
          obtain ⟨-, rfl⟩ := Prod.mk.inj heq
          exact ih (fun other hother =>
            hprobe other (List.mem_cons_of_mem _ hother)) hrest

/-- What a search takes has passed its test. -/
theorem search_found {probe : α → Option Probe} {slots : List (Option α)}
    {n : Nat} {entry : α} (hsearch : search probe slots = some (n, some entry)) :
    probe entry = some .found := by
  induction slots generalizing n with
  | nil => cases hsearch
  | cons slot rest ih =>
      cases slot with
      | none => cases hsearch
      | some first =>
          rw [search] at hsearch
          split at hsearch
          · cases hsearch
          · cases hsearch
          · next hfound =>
              simp only [Option.some.injEq, Prod.mk.injEq] at hsearch
              exact hsearch.2 ▸ hfound
          · rw [Option.map_eq_some_iff] at hsearch
            obtain ⟨⟨m, found⟩, hrest, heq⟩ := hsearch
            simp only [Prod.mk.injEq] at heq
            exact ih (heq.2 ▸ hrest)

/-- What a search takes stands behind entries it went past. -/
theorem search_split {probe : α → Option Probe} {slots : List (Option α)}
    {n : Nat} {entry : α} (hsearch : search probe slots = some (n, some entry)) :
    ∃ (front : List α) (rest : List (Option α)),
      slots = front.map some ++ some entry :: rest ∧
      ∀ other ∈ front, probe other = some .next := by
  induction slots generalizing n with
  | nil => cases hsearch
  | cons slot slots ih =>
      cases slot with
      | none => cases hsearch
      | some first =>
          rw [search] at hsearch
          split at hsearch
          · cases hsearch
          · cases hsearch
          · simp only [Option.some.injEq, Prod.mk.injEq] at hsearch
            exact ⟨[], slots, by rw [hsearch.2]; rfl, by simp⟩
          · next hnext =>
              rw [Option.map_eq_some_iff] at hsearch
              obtain ⟨⟨m, found⟩, hrest, heq⟩ := hsearch
              simp only [Prod.mk.injEq] at heq
              obtain ⟨front, rest, rfl, hfront⟩ := ih (heq.2 ▸ hrest)
              refine ⟨first :: front, rest, rfl, ?_⟩
              intro other hother
              rcases List.mem_cons.mp hother with rfl | hother
              · exact hnext
              · exact hfront other hother

/-- A search takes the entry behind those it goes past. -/
theorem search_reached {probe : α → Option Probe} {front : List α} {entry : α}
    (hfront : ∀ other ∈ front, probe other = some .next)
    (hentry : probe entry = some .found) (rest : List (Option α)) :
    search probe (front.map some ++ some entry :: rest) =
      some (front.length + 1, some entry) := by
  induction front with
  | nil => simp only [List.map_nil, List.nil_append, search, hentry,
      List.length_nil]
  | cons first front ih =>
      have hfirst := hfront first List.mem_cons_self
      have hmore := ih fun other hother =>
        hfront other (List.mem_cons_of_mem first hother)
      rw [List.map_cons, List.cons_append, search, hfirst]
      simp only [hmore, Option.map_some, List.length_cons]

/-- The slots hold exactly the entries of `content`, each at one place. -/
structure Represents (key : α → κ) (slots : List (Option α))
    (content : κ → Option α) : Prop where
  sound : ∀ {i : Nat} {entry : α}, slots[i]? = some (some entry) →
    content (key entry) = some entry
  complete : ∀ {k : κ} {entry : α}, content k = some entry →
    key entry = k ∧ ∃ i : Nat, slots[i]? = some (some entry)
  unique : ∀ {i j : Nat} {left right : α}, slots[i]? = some (some left) →
    slots[j]? = some (some right) → key left = key right → i = j

theorem represents_replicate (key : α → κ) (n : Nat) :
    Represents key (List.replicate n none) (fun _ => none) where
  sound := by
    intro i entry hslot
    have hmem := List.mem_of_getElem? hslot
    simp at hmem
  complete := by
    intro k entry hentry
    cases hentry
  unique := by
    intro i j left right hleft _ _
    have hmem := List.mem_of_getElem? hleft
    simp at hmem

/-- Growing the array by empty slots changes nothing. -/
theorem Represents.grow {key : α → κ} {slots : List (Option α)}
    {content : κ → Option α} (hrep : Represents key slots content) (n : Nat) :
    Represents key (slots ++ List.replicate n none) content := by
  have hold : ∀ {i : Nat} {entry : α},
      (slots ++ List.replicate n none)[i]? = some (some entry) →
      slots[i]? = some (some entry) := by
    intro i entry hslot
    by_cases hlt : i < slots.length
    · rwa [List.getElem?_append_left hlt] at hslot
    · rw [List.getElem?_append_right (by omega)] at hslot
      have hmem := List.mem_of_getElem? hslot
      simp at hmem
  refine ⟨fun hslot => hrep.sound (hold hslot), ?_,
    fun hleft hright => hrep.unique (hold hleft) (hold hright)⟩
  intro k entry hentry
  obtain ⟨hkey, i, hslot⟩ := hrep.complete hentry
  refine ⟨hkey, i, ?_⟩
  have hlt : i < slots.length := (List.getElem?_eq_some_iff.mp hslot).1
  rwa [List.getElem?_append_left hlt]

/-- Writing a new key into an empty slot inserts it. -/
theorem Represents.insert [DecidableEq κ] {key : α → κ}
    {slots : List (Option α)} {content : κ → Option α}
    (hrep : Represents key slots content) {i : Nat} {entry : α}
    (hfree : slots[i]? = some none) (hnew : content (key entry) = none) :
    Represents key (slots.set i (some entry))
      (Function.update content (key entry) (some entry)) := by
  have hlt : i < slots.length := (List.getElem?_eq_some_iff.mp hfree).1
  have hcases : ∀ {j : Nat} {found : α},
      (slots.set i (some entry))[j]? = some (some found) →
      (j = i ∧ found = entry) ∨ (j ≠ i ∧ slots[j]? = some (some found)) := by
    intro j found hslot
    rcases set_cases hslot with ⟨hji, hfound⟩ | hold
    · exact Or.inl ⟨hji, Option.some.inj hfound⟩
    · exact Or.inr hold
  have hother : ∀ {j : Nat} {found : α}, slots[j]? = some (some found) →
      key found ≠ key entry := by
    intro j found hslot heq
    have hfound := hrep.sound hslot
    rw [heq, hnew] at hfound
    cases hfound
  refine ⟨?_, ?_, ?_⟩
  · intro j found hslot
    rcases hcases hslot with ⟨_, rfl⟩ | ⟨_, hold⟩
    · exact Function.update_self ..
    · rw [Function.update_of_ne (hother hold)]
      exact hrep.sound hold
  · intro k found hfound
    by_cases hk : k = key entry
    · subst hk
      rw [Function.update_self, Option.some.injEq] at hfound
      subst hfound
      exact ⟨rfl, i, List.getElem?_set_self hlt⟩
    · rw [Function.update_of_ne hk] at hfound
      obtain ⟨hkey, j, hslot⟩ := hrep.complete hfound
      have hji : i ≠ j := by
        rintro rfl
        rw [hfree] at hslot
        cases hslot
      exact ⟨hkey, j, by rw [List.getElem?_set_ne hji]; exact hslot⟩
  · intro j k left right hleft hright heq
    rcases hcases hleft with ⟨rfl, rfl⟩ | ⟨_, holdLeft⟩ <;>
      rcases hcases hright with ⟨rfl, rfl⟩ | ⟨_, holdRight⟩
    · rfl
    · exact absurd heq.symm (hother holdRight)
    · exact absurd heq (hother holdLeft)
    · exact hrep.unique holdLeft holdRight heq

/-- Emptying the slot of an entry erases its key. -/
theorem Represents.erase [DecidableEq κ] {key : α → κ}
    {slots : List (Option α)} {content : κ → Option α}
    (hrep : Represents key slots content) {i : Nat} {entry : α}
    (hslot : slots[i]? = some (some entry)) :
    Represents key (slots.set i none)
      (Function.update content (key entry) none) := by
  have hlt : i < slots.length := (List.getElem?_eq_some_iff.mp hslot).1
  have hcases : ∀ {j : Nat} {found : α},
      (slots.set i none)[j]? = some (some found) →
      j ≠ i ∧ slots[j]? = some (some found) := by
    intro j found hfound
    rcases set_cases hfound with ⟨-, hnone⟩ | hold
    · cases hnone
    · exact hold
  refine ⟨?_, ?_, ?_⟩
  · intro j found hfound
    obtain ⟨hji, hold⟩ := hcases hfound
    have hkey : key found ≠ key entry :=
      fun heq => hji (hrep.unique hold hslot heq)
    rw [Function.update_of_ne hkey]
    exact hrep.sound hold
  · intro k found hfound
    have hk : k ≠ key entry := by
      rintro rfl
      rw [Function.update_self] at hfound
      cases hfound
    rw [Function.update_of_ne hk] at hfound
    obtain ⟨hkey, j, hold⟩ := hrep.complete hfound
    have hij : i ≠ j := by
      rintro rfl
      rw [hslot, Option.some.injEq, Option.some.injEq] at hold
      exact hk (hold ▸ hkey.symm)
    exact ⟨hkey, j, by rw [List.getElem?_set_ne hij]; exact hold⟩
  · intro j k left right hleft hright
    exact hrep.unique (hcases hleft).2 (hcases hright).2

/-- The test of a lookup loop: an occupied slot whose entry has this key. -/
def hasKey [DecidableEq κ] (key : α → κ) (k : κ) : Option α → Bool
  | none => false
  | some entry => key entry == k

/-- A lookup loop that finds a slot finds the entry of the key. -/
theorem Represents.lookup_some [DecidableEq κ] {key : α → κ}
    {slots : List (Option α)} {content : κ → Option α}
    (hrep : Represents key slots content) {k : κ} {i : Nat}
    (hfind : slots.findIdx? (hasKey key k) = some i) :
    ∃ entry, slots[i]? = some (some entry) ∧ key entry = k ∧
      content k = some entry := by
  obtain ⟨hlt, hp, _⟩ := List.findIdx?_eq_some_iff_getElem.mp hfind
  cases hslot : slots[i] with
  | none => simp [hslot, hasKey] at hp
  | some entry =>
      have hkey : key entry = k := by simpa [hslot, hasKey] using hp
      have hget : slots[i]? = some (some entry) := by
        rw [List.getElem?_eq_getElem hlt, hslot]
      exact ⟨entry, hget, hkey, hkey ▸ hrep.sound hget⟩

/-- A lookup loop that finds nothing shows the key is absent. -/
theorem Represents.lookup_none [DecidableEq κ] {key : α → κ}
    {slots : List (Option α)} {content : κ → Option α}
    (hrep : Represents key slots content) {k : κ}
    (hfind : slots.findIdx? (hasKey key k) = none) : content k = none := by
  cases hcontent : content k with
  | none => rfl
  | some entry =>
      obtain ⟨hkey, i, hslot⟩ := hrep.complete hcontent
      have hmiss := List.findIdx?_eq_none_iff.mp hfind (some entry)
        (List.mem_of_getElem? hslot)
      simp [hasKey, hkey] at hmiss

/-- An entry of one slot only is gone once that slot is emptied. -/
theorem notMem_erase {slots : List (Option α)} {i : Nat} {entry : α}
    (honce : ∀ j, slots[j]? = some (some entry) → j = i) :
    some entry ∉ slots.set i none := by
  intro hmem
  obtain ⟨j, hj⟩ := List.mem_iff_getElem?.mp hmem
  rcases set_cases hj with ⟨-, hnone⟩ | ⟨hji, hold⟩
  · cases hnone
  · exact hji (honce j hold)

section Contents

variable {β : Type v} {f : Option α → List β}

/-- Emptying a slot takes out what its entry holds. -/
theorem flatMap_erase (hnone : f none = []) {slots : List (Option α)} {i : Nat}
    {slot : Option α} (hslot : slots[i]? = some slot) :
    (slots.flatMap f).Perm (f slot ++ (slots.set i none).flatMap f) := by
  induction slots generalizing i with
  | nil => cases hslot
  | cons first rest ih =>
      cases i with
      | zero =>
          obtain rfl : first = slot := Option.some.inj hslot
          rw [List.set_cons_zero, List.flatMap_cons, List.flatMap_cons, hnone,
            List.nil_append]
      | succ i =>
          rw [List.set_cons_succ, List.flatMap_cons, List.flatMap_cons]
          exact ((ih hslot).append_left _).trans
            (List.perm_append_comm_assoc ..)

/-- Filling an empty slot adds what the entry holds. -/
theorem flatMap_fill (hnone : f none = []) {slots : List (Option α)} {i : Nat}
    (hslot : slots[i]? = some none) (slot : Option α) :
    ((slots.set i slot).flatMap f).Perm (f slot ++ slots.flatMap f) := by
  have hset : (slots.set i slot)[i]? = some slot :=
    List.getElem?_set_self (List.getElem?_eq_some_iff.mp hslot).1
  have hback : slots.set i none = slots := by
    obtain ⟨hlt, hget⟩ := List.getElem?_eq_some_iff.mp hslot
    rw [← hget]
    exact List.set_getElem_self hlt
  have herase := flatMap_erase hnone hset
  rwa [List.set_set, hback] at herase

end Contents

end SlotTable
