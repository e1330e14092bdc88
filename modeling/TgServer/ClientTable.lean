/-
The client table of `tg_context.c` as a finite map from process ids to
clients.
-/
import Mathlib.Data.List.Induction
import TgServer.Context

namespace TgServer

open Bytes Transition SlotTable

inductive TableOp where
  | init
  | addClient (client : TGClient)
  | closeClient (pid : TgPid)
  | closeAllClient
  | release
deriving Repr, DecidableEq

/-- The operations on the globals; `none` is an access outside the array. -/
def clientTable : Machine Globals TableOp where
  start := .initial
  step
    | g, .init => some (init g)
    | g, .addClient client => addClient g (some client)
    | g, .closeClient pid => closeClient g pid
    | g, .closeAllClient => closeAllClient g
    | g, .release => release g

/-- A finite map, or nothing before `init` and after `release`. -/
abbrev ClientMap := Option (TgPid → Option TGClient)

/-- The operations on the map; `none` is an operation that is not allowed: a
second `init`, an `addClient` outside of `init` and `release`, or one for a
process id that is taken. -/
def clientMap : Machine ClientMap TableOp where
  start := none
  step
    | none, .init => some (some fun _ => none)
    | some _, .init => none
    | none, .addClient _ => none
    | some content, .addClient client =>
        match content client.pid with
        | none => some (some (Function.update content client.pid (some client)))
        | some _ => none
    | none, .closeClient _ => some none
    | some content, .closeClient pid =>
        some (some (Function.update content pid none))
    | none, .closeAllClient => some none
    | some _, .closeAllClient => some (some fun _ => none)
    | _, .release => some none

/-- The operation takes the client of this process id out of the table. -/
def TableOp.clears (pid : TgPid) : TableOp → Bool
  | .closeClient other => other == pid
  | .closeAllClient | .release => true
  | _ => false

/-- The client was added under its process id and not taken out since. -/
def AddedSince (ops : List TableOp) (client : TGClient) : Prop :=
  ∃ before after, ops = before ++ .addClient client :: after ∧
    ∀ op ∈ after, op.clears client.pid = false

/-- The map holds exactly the clients added and not taken out since. -/
def MatchesHistory (content : ClientMap) (ops : List TableOp) : Prop :=
  ∀ client, (content.bind fun map => map client.pid) = some client ↔
    AddedSince ops client

/-- A client was added before the last operation and that one left it in, or
the last operation added it. -/
theorem addedSince_snoc (ops : List TableOp) (op : TableOp)
    (client : TGClient) :
    AddedSince (ops ++ [op]) client ↔
      op = .addClient client ∨
        AddedSince ops client ∧ op.clears client.pid = false := by
  constructor
  · rintro ⟨before, after, hops, hafter⟩
    rcases List.eq_nil_or_concat' after with rfl | ⟨after, last, rfl⟩
    · left
      exact (List.append_inj_right' hops rfl |> List.cons.inj).1
    · right
      rw [← List.cons_append, ← List.append_assoc] at hops
      obtain ⟨hfront, hlast⟩ := List.append_inj' hops rfl
      rw [List.cons.injEq] at hlast
      refine ⟨⟨before, after, hfront, ?_⟩, ?_⟩
      · exact fun other hother => hafter other (List.mem_append_left _ hother)
      · rw [hlast.1]
        exact hafter last (List.mem_append_right _ List.mem_cons_self)
  · rintro (rfl | ⟨⟨before, after, rfl, hafter⟩, hop⟩)
    · exact ⟨ops, [], rfl, fun op hop => by cases hop⟩
    · refine ⟨before, after ++ [op], by simp, ?_⟩
      intro other hother
      rcases List.mem_append.mp hother with hmem | hmem
      · exact hafter other hmem
      · rw [List.mem_singleton] at hmem
        exact hmem ▸ hop

/-- One allowed operation keeps the map in step with the history. -/
theorem matchesHistory_step {content content' : ClientMap}
    {ops : List TableOp} {op : TableOp} (hmatch : MatchesHistory content ops)
    (hstep : clientMap.step content op = some content') :
    MatchesHistory content' (ops ++ [op]) := by
  intro client
  rw [addedSince_snoc, ← hmatch client]
  cases content with
  | none =>
      cases op <;> simp [clientMap] at hstep <;> subst hstep <;> simp
  | some map =>
      cases op with
      | init => simp [clientMap] at hstep
      | addClient added =>
          cases hfree : map added.pid with
          | some taken => simp [clientMap, hfree] at hstep
          | none =>
              simp only [clientMap, hfree, Option.some.injEq] at hstep
              subst hstep
              by_cases hpid : client.pid = added.pid
              · simp [hpid, hfree, TableOp.clears]
              · have hne : added ≠ client := fun heq => hpid (by rw [heq])
                simp [Function.update_of_ne hpid, hne, TableOp.clears]
      | closeClient pid =>
          simp only [clientMap, Option.some.injEq] at hstep
          subst hstep
          by_cases hpid : client.pid = pid
          · simp [hpid, TableOp.clears]
          · simp [Function.update_of_ne hpid, TableOp.clears, Ne.symm hpid]
      | closeAllClient =>
          simp only [clientMap, Option.some.injEq] at hstep
          subst hstep
          simp [TableOp.clears]
      | release =>
          simp only [clientMap, Option.some.injEq] at hstep
          subst hstep
          simp [TableOp.clears]

/-- The map after any allowed sequence holds what the history says. -/
theorem clientMap_matchesHistory {ops : List TableOp} {content : ClientMap}
    (hrun : clientMap.run clientMap.start ops = some content) :
    MatchesHistory content ops := by
  induction ops using List.reverseRecOn generalizing content with
  | nil =>
      rw [Machine.run_nil, Option.some.injEq] at hrun
      subst hrun
      intro client
      constructor
      · intro hnone
        cases hnone
      · rintro ⟨before, after, hops, -⟩
        simp at hops
  | append_singleton ops op ih =>
      rw [Machine.run_append, Option.bind_eq_some_iff] at hrun
      obtain ⟨middle, hmiddle, hlast⟩ := hrun
      rw [Machine.run_cons, Option.bind_eq_some_iff] at hlast
      obtain ⟨last, hstep, hlast⟩ := hlast
      rw [Machine.run_nil, Option.some.injEq] at hlast
      subst hlast
      exact matchesHistory_step (ih hmiddle) hstep

/-- The array between `init` and `release` holds the map. -/
structure HoldsMap (g : Globals) (map : TgPid → Option TGClient) : Prop where
  slots : Represents TGClient.pid g.slots map
  fits : g.slots.length = g.clientsArSize
  context : g.gContext ≠ none

/-- What the globals are for each state of the map. -/
def Refines (g : Globals) : ClientMap → Prop
  | none => g.slots = [] ∧ g.clientsArSize = 0
  | some map => HoldsMap g map

/-- The array did not grow, or it was full and grew by one step. -/
def GrowsWhenFull (g g' : Globals) : Prop :=
  g'.clientsArSize ≤ g.clientsArSize ∨
    g'.clientsArSize = g.clientsArSize + defaultMaxClients ∧
      ∀ i < g.clientsArSize, ∃ client, g.slots[i]? = some (some client)

section Operations

variable {g : Globals} {map : TgPid → Option TGClient}

theorem slots_appendClient (g : Globals)
    (hfits : g.slots.length = g.clientsArSize) :
    (appendClient g).slots =
      g.slots ++ List.replicate defaultMaxClients none := by
  have htake : g.slots.take g.clientsArSize = g.slots :=
    List.take_of_length_le (Nat.le_of_eq hfits)
  rw [Globals.slots] at htake ⊢
  simp [appendClient, Globals.slots, htake]

/-- A loop over all slots finds the first one that passes the test. -/
theorem scan_slots (hfits : g.slots.length = g.clientsArSize)
    (p : Option TGClient → Bool) :
    scan g.slots p g.clientsArSize 0 = some (g.slots.findIdx? p) := by
  rw [← hfits, scan_length]

theorem findClient_eq (hholds : HoldsMap g map) (pid : TgPid) :
    findClient g pid = some (match map pid with
      | some client => (findClientSuccess, some client)
      | none => (findClientNotFound, none)) := by
  rw [findClient, scan_slots hholds.fits]
  cases hfind : g.slots.findIdx? (hasKey TGClient.pid pid) with
  | none =>
      simp [hholds.slots.lookup_none hfind]
  | some i =>
      obtain ⟨client, hslot, -, hmap⟩ := hholds.slots.lookup_some hfind
      simp [hslot, hmap]

theorem init_holds (hslots : g.slots = []) (hsize : g.clientsArSize = 0) :
    HoldsMap (init g) (fun _ => none) ∧ GrowsWhenFull g (init g) := by
  have happend := slots_appendClient g (by rw [hslots, hsize]; rfl)
  rw [hslots, List.nil_append] at happend
  refine ⟨⟨?_, ?_, Option.some_ne_none _⟩, Or.inr ⟨rfl, ?_⟩⟩
  · change Represents TGClient.pid (appendClient g).slots _
    rw [happend]
    exact represents_replicate _ _
  · change (appendClient g).slots.length = g.clientsArSize + defaultMaxClients
    rw [happend, List.length_replicate, hsize, Nat.zero_add]
  · intro i hi
    rw [hsize] at hi
    exact absurd hi (Nat.not_lt_zero i)

theorem addCounts_frame (g : Globals) (hcontext : g.gContext ≠ none)
    (delta : Int) :
    ∃ g', g.addCounts delta = some g' ∧ g'.slots = g.slots ∧
      g'.clientsArSize = g.clientsArSize ∧ g'.gContext ≠ none := by
  obtain ⟨ctx, hctx⟩ := Option.ne_none_iff_exists'.mp hcontext
  rw [Globals.addCounts, hctx]
  exact ⟨_, rfl, rfl, rfl, Option.some_ne_none _⟩

/-- A free slot takes the new client. -/
theorem addClient_free (hholds : HoldsMap g map) {client : TGClient}
    (hnew : map client.pid = none) {i : Nat}
    (hfind : g.slots.findIdx? Option.isNone = some i) :
    ∃ g', addClient g (some client) = some g' ∧
      HoldsMap g' (Function.update map client.pid (some client)) ∧
      GrowsWhenFull g g' := by
  obtain ⟨hlt, hnone, -⟩ := List.findIdx?_eq_some_iff_getElem.mp hfind
  have hslot : g.slots[i]? = some none := by
    rw [List.getElem?_eq_getElem hlt, Option.isNone_iff_eq_none.mp hnone]
  obtain ⟨g', hcounts, hslots, hsize, hcontext⟩ :=
    addCounts_frame { g with gClients := some (g.slots.set i (some client)) }
      hholds.context 1
  refine ⟨g', ?_, ⟨?_, ?_, hcontext⟩, Or.inl (Nat.le_of_eq hsize)⟩
  · simp [addClient, scan_slots hholds.fits, hfind, Globals.storeClient, hlt,
      hcounts]
  · rw [hslots]
    exact hholds.slots.insert hslot hnew
  · rw [hslots, hsize]
    exact (List.length_set ..).trans hholds.fits

/-- No slot is free: the array grows and its first new slot takes the
client. -/
theorem addClient_full (hholds : HoldsMap g map) {client : TGClient}
    (hnew : map client.pid = none)
    (hfind : g.slots.findIdx? Option.isNone = none) :
    ∃ g', addClient g (some client) = some g' ∧
      HoldsMap g' (Function.update map client.pid (some client)) ∧
      GrowsWhenFull g g' := by
  have happend := slots_appendClient g hholds.fits
  have hslot : (appendClient g).slots[g.clientsArSize]? = some none := by
    rw [happend, ← hholds.fits,
      List.getElem?_append_right (Nat.le_refl _), Nat.sub_self]
    rfl
  have hlt := (List.getElem?_eq_some_iff.mp hslot).1
  have hrep := hholds.slots.grow defaultMaxClients
  rw [← happend] at hrep
  obtain ⟨g', hcounts, hslots, hsize, hcontext⟩ :=
    addCounts_frame { appendClient g with
      gClients := some
        ((appendClient g).slots.set g.clientsArSize (some client)) }
      hholds.context 1
  refine ⟨g', ?_, ⟨?_, ?_, hcontext⟩, Or.inr ⟨hsize, ?_⟩⟩
  · simp [addClient, scan_slots hholds.fits, hfind, Globals.storeClient, hlt,
      hcounts]
  · rw [hslots]
    exact hrep.insert hslot hnew
  · rw [hslots, hsize]
    refine (List.length_set ..).trans ?_
    rw [happend, List.length_append, List.length_replicate, hholds.fits]
    rfl
  · intro i hi
    rw [← hholds.fits] at hi
    have hsome := List.findIdx?_eq_none_iff.mp hfind g.slots[i]
      (List.getElem_mem hi)
    obtain ⟨other, hother⟩ := Option.ne_none_iff_exists'.mp
      (Option.isNone_eq_false_iff.mp hsome |> Option.isSome_iff_ne_none.mp)
    exact ⟨other, by rw [List.getElem?_eq_getElem hi, hother]⟩

theorem closeClient_holds (hholds : HoldsMap g map) (pid : TgPid) :
    ∃ g', closeClient g pid = some g' ∧
      HoldsMap g' (Function.update map pid none) ∧ GrowsWhenFull g g' := by
  cases hfind : g.slots.findIdx? (hasKey TGClient.pid pid) with
  | none =>
      have habsent := hholds.slots.lookup_none hfind
      refine ⟨g, ?_, ?_, Or.inl (Nat.le_refl _)⟩
      · simp [closeClient, scan_slots hholds.fits, hfind]
      · rw [← habsent, Function.update_eq_self]
        exact hholds
  | some i =>
      obtain ⟨client, hslot, hpid, -⟩ := hholds.slots.lookup_some hfind
      obtain ⟨hlt, hget⟩ := List.getElem?_eq_some_iff.mp hslot
      obtain ⟨g', hcounts, hslots, hsize, hcontext⟩ :=
        addCounts_frame (({ g with
          gClients := some (g.slots.set i none) } : Globals).logFds
            (releaseClient client)) hholds.context (-1)
      refine ⟨g', ?_, ⟨?_, ?_, hcontext⟩, Or.inl (Nat.le_of_eq hsize)⟩
      · simp [closeClient, scan_slots hholds.fits, hfind, hget,
          Globals.storeClient, hlt, releaseSlot, hcounts]
      · rw [hslots, ← hpid]
        exact hholds.slots.erase hslot
      · rw [hslots, hsize]
        exact (List.length_set ..).trans hholds.fits

/-- The loop of `closeAllClient` empties the slots it passes. -/
theorem closeAllFrom_holds (n i : Nat) (g : Globals)
    (hfits : i + n = g.slots.length) :
    ∃ g', closeAllFrom n i g = some g' ∧
      g'.slots = g.slots.take i ++ List.replicate n none ∧
      g'.clientsArSize = g.clientsArSize ∧ g'.gContext = g.gContext := by
  induction n generalizing i g with
  | zero =>
      refine ⟨g, rfl, ?_, rfl, rfl⟩
      rw [List.take_of_length_le (by omega), List.replicate_zero,
        List.append_nil]
  | succ n ih =>
      have hlt : i < g.slots.length := by omega
      have htake : ∀ slots : List (Option TGClient), i < slots.length →
          slots[i]? = some none →
          slots.take (i + 1) ++ List.replicate n none =
            slots.take i ++ List.replicate (n + 1) none := by
        intro slots hi hslot
        rw [List.getElem?_eq_getElem hi, Option.some.injEq] at hslot
        rw [← List.take_append_getElem hi, hslot, List.append_assoc,
          List.singleton_append, List.replicate_succ]
      rw [closeAllFrom, List.getElem?_eq_getElem hlt]
      cases hslot : g.slots[i] with
      | none =>
          obtain ⟨g', hloop, hslots, hsize, hcontext⟩ :=
            ih (i + 1) g (by omega)
          refine ⟨g', hloop, ?_, hsize, hcontext⟩
          rw [hslots, htake g.slots hlt]
          rw [List.getElem?_eq_getElem hlt, hslot]
      | some client =>
          have hset : i < (g.slots.set i none).length := by
            rw [List.length_set]
            exact hlt
          obtain ⟨g', hloop, hslots, hsize, hcontext⟩ :=
            ih (i + 1) ({ g.logFds (releaseClient client) with
              gClients := some (g.slots.set i none) }) (by
              change i + 1 + n = (g.slots.set i none).length
              rw [List.length_set]
              omega)
          refine ⟨g', ?_, ?_, hsize, hcontext⟩
          · simp [Globals.storeClient, hlt, hloop]
          · rw [hslots]
            change (g.slots.set i none).take (i + 1) ++ _ = _
            rw [htake _ hset (List.getElem?_set_self hlt),
              List.take_set_of_le (Nat.le_refl i)]

end Operations

theorem closeAllClient_holds {g : Globals} {map : TgPid → Option TGClient}
    (hholds : HoldsMap g map) :
    ∃ g', closeAllClient g = some g' ∧ HoldsMap g' (fun _ => none) ∧
      GrowsWhenFull g g' := by
  obtain ⟨g', hloop, hslots, hsize, hcontext⟩ :=
    closeAllFrom_holds g.clientsArSize 0 g
      ((Nat.zero_add _).trans hholds.fits.symm)
  rw [List.take_zero, List.nil_append] at hslots
  refine ⟨g', hloop, ⟨?_, ?_, ?_⟩, Or.inl (Nat.le_of_eq hsize)⟩
  · rw [hslots]
    exact represents_replicate _ _
  · rw [hslots, List.length_replicate, hsize]
  · rw [hcontext]
    exact hholds.context

/-- Every allowed operation is carried out by the array. -/
theorem refines_step {g : Globals} {content content' : ClientMap}
    {op : TableOp} (hrel : Refines g content)
    (hstep : clientMap.step content op = some content') :
    ∃ g', clientTable.step g op = some g' ∧ Refines g' content' ∧
      GrowsWhenFull g g' := by
  have hrelease : g.slots.length = g.clientsArSize →
      ∃ g', release g = some g' ∧ Refines g' none ∧ GrowsWhenFull g g' :=
    fun hfits => ⟨_, release_eq g hfits, ⟨rfl, rfl⟩, Or.inl (Nat.zero_le _)⟩
  cases content with
  | none =>
      obtain ⟨hslots, hsize⟩ := hrel
      cases op with
      | init =>
          obtain ⟨hholds, hgrows⟩ := init_holds hslots hsize
          simp only [clientMap, Option.some.injEq] at hstep
          exact ⟨init g, rfl, hstep ▸ hholds, hgrows⟩
      | addClient client => cases hstep
      | closeClient pid =>
          simp only [clientMap, Option.some.injEq] at hstep
          refine ⟨g, ?_, hstep ▸ ⟨hslots, hsize⟩, Or.inl (Nat.le_refl _)⟩
          simp [clientTable, closeClient, hsize, scan]
      | closeAllClient =>
          simp only [clientMap, Option.some.injEq] at hstep
          refine ⟨g, ?_, hstep ▸ ⟨hslots, hsize⟩, Or.inl (Nat.le_refl _)⟩
          simp [clientTable, closeAllClient, hsize, closeAllFrom]
      | release =>
          simp only [clientMap, Option.some.injEq] at hstep
          exact hstep ▸ hrelease (by rw [hslots, hsize]; rfl)
  | some map =>
      have hholds : HoldsMap g map := hrel
      cases op with
      | init => cases hstep
      | addClient client =>
          cases hnew : map client.pid with
          | some taken => simp [clientMap, hnew] at hstep
          | none =>
              simp only [clientMap, hnew, Option.some.injEq] at hstep
              subst hstep
              cases hfind : g.slots.findIdx? Option.isNone with
              | none => exact addClient_full hholds hnew hfind
              | some i => exact addClient_free hholds hnew hfind
      | closeClient pid =>
          simp only [clientMap, Option.some.injEq] at hstep
          exact hstep ▸ closeClient_holds hholds pid
      | closeAllClient =>
          simp only [clientMap, Option.some.injEq] at hstep
          exact hstep ▸ closeAllClient_holds hholds
      | release =>
          simp only [clientMap, Option.some.injEq] at hstep
          exact hstep ▸ hrelease hholds.fits

/-- What the history says about the array and about lookups in it. -/
structure TableCorrect (g : Globals) (ops : List TableOp) : Prop where
  found : ∀ pid client,
    findClient g pid = some (findClientSuccess, some client) ↔
      client.pid = pid ∧ AddedSince ops client
  missing : ∀ pid, findClient g pid = some (findClientNotFound, none) ↔
    ¬ ∃ client, client.pid = pid ∧ AddedSince ops client
  held : ∀ client, (∃ i : Nat, g.slots[i]? = some (some client)) ↔
    AddedSince ops client
  once : ∀ (i j : Nat) (left right : TGClient), g.slots[i]? = some (some left) →
    g.slots[j]? = some (some right) → left.pid = right.pid → i = j
  fits : g.slots.length = g.clientsArSize

theorem tableCorrect_of_refines {g : Globals} {content : ClientMap}
    {ops : List TableOp} (hrel : Refines g content)
    (hmatch : MatchesHistory content ops) : TableCorrect g ops := by
  cases content with
  | none =>
      obtain ⟨hslots, hsize⟩ := hrel
      have hnever : ∀ client, ¬ AddedSince ops client := by
        intro client hadded
        have hsome := (hmatch client).mpr hadded
        cases hsome
      have hfind : ∀ pid, findClient g pid =
          some (findClientNotFound, none) := by
        intro pid
        simp [findClient, hsize, scan]
      constructor
      · intro pid client
        simp [hfind, hnever, findClientNotFound, findClientSuccess]
      · intro pid
        simp [hfind, hnever]
      · intro client
        simp [hslots, hnever]
      · intro i j left right hleft
        simp [hslots] at hleft
      · rw [hslots, hsize]
        rfl
  | some map =>
      have hholds : HoldsMap g map := hrel
      have hmap : ∀ client, map client.pid = some client ↔
          AddedSince ops client := hmatch
      have hpid : ∀ {pid client}, map pid = some client → client.pid = pid :=
        fun hclient => (hholds.slots.complete hclient).1
      constructor
      · intro pid client
        rw [findClient_eq hholds]
        constructor
        · intro hfound
          cases hclient : map pid with
          | none => simp [hclient] at hfound
          | some other =>
              simp only [hclient, Option.some.injEq, Prod.mk.injEq] at hfound
              obtain ⟨-, rfl⟩ := hfound
              have hother := hpid hclient
              refine ⟨hother, (hmap other).mp ?_⟩
              rw [hother, hclient]
        · rintro ⟨rfl, hadded⟩
          rw [(hmap client).mpr hadded]
      · intro pid
        rw [findClient_eq hholds]
        constructor
        · rintro hmissing ⟨client, rfl, hadded⟩
          rw [(hmap client).mpr hadded] at hmissing
          simp at hmissing
        · intro hnever
          cases hclient : map pid with
          | none => rfl
          | some client =>
              have hother := hpid hclient
              refine absurd ⟨client, hother, (hmap client).mp ?_⟩ hnever
              rw [hother, hclient]
      · intro client
        rw [← hmap client]
        constructor
        · rintro ⟨i, hslot⟩
          exact hholds.slots.sound hslot
        · intro hclient
          exact (hholds.slots.complete hclient).2
      · exact fun _ _ _ _ hleft hright heq =>
          hholds.slots.unique hleft hright heq
      · exact hholds.fits

/-- Each allowed sequence of operations is carried out inside the array, which
then holds, and finds, exactly the clients added and not taken out since; on
the way the array grows only when it is full. -/
theorem clientTable_refines_map {ops : List TableOp} {content : ClientMap}
    (hallowed : clientMap.run clientMap.start ops = some content) :
    ∃ g, clientTable.run clientTable.start ops = some g ∧ TableCorrect g ops ∧
      ∀ before op after, ops = before ++ op :: after →
        ∃ g₀ g₁, clientTable.run clientTable.start before = some g₀ ∧
          clientTable.step g₀ op = some g₁ ∧ GrowsWhenFull g₀ g₁ := by
  have hrefines : ∀ {ops : List TableOp} {content : ClientMap},
      clientMap.run clientMap.start ops = some content →
      ∃ g, clientTable.run clientTable.start ops = some g ∧
        Refines g content := by
    intro ops content hrun
    have hstart : Refines clientTable.start clientMap.start := ⟨rfl, rfl⟩
    refine clientTable.run_refines clientMap ?_ hstart hrun
    intro g content op content' hrel hstep
    obtain ⟨g', hnext, hrel', -⟩ := refines_step hrel hstep
    exact ⟨g', hnext, hrel'⟩
  obtain ⟨g, hrun, hrel⟩ := hrefines hallowed
  refine ⟨g, hrun,
    tableCorrect_of_refines hrel (clientMap_matchesHistory hallowed), ?_⟩
  rintro before op after rfl
  rw [Machine.run_append, Option.bind_eq_some_iff] at hallowed
  obtain ⟨middle, hbefore, hrest⟩ := hallowed
  rw [Machine.run_cons, Option.bind_eq_some_iff] at hrest
  obtain ⟨next, hstep, -⟩ := hrest
  obtain ⟨g₀, hrun₀, hrel₀⟩ := hrefines hbefore
  obtain ⟨g₁, hstep₁, -, hgrows⟩ := refines_step hrel₀ hstep
  exact ⟨g₀, g₁, hrun₀, hstep₁, hgrows⟩

namespace ClientTable

def client (pid : TgPid) : TGClient := ⟨pid, 4, 5, 6, none, 0⟩

/-- Twenty-one clients, one of them closed. -/
def ops : List TableOp :=
  .init :: (List.range 21).map (fun n => .addClient (client (n + 100))) ++
    [.closeClient 103]

theorem clientTable_refines_map_ops :
    ∃ g, clientTable.run clientTable.start ops = some g ∧ TableCorrect g ops ∧
      ∀ before op after, ops = before ++ op :: after →
        ∃ g₀ g₁, clientTable.run clientTable.start before = some g₀ ∧
          clientTable.step g₀ op = some g₁ ∧ GrowsWhenFull g₀ g₁ :=
  clientTable_refines_map
    (Option.eq_some_of_isSome (show (clientMap.run clientMap.start ops).isSome =
      true by decide))

end ClientTable

end TgServer
