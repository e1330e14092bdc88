/-
What `getCurrentClientCounts` makes of the table: it counts the slots in front
of the first NULL one, wherever that is.
-/
import TgServer.ClientCount

namespace TgServer

open Transition SlotTable

/-- `none` is a read behind the last slot. -/
def getCurrentClientCounts (g : Globals) : Option Nat :=
  match g.gClients with
  | none => some 0
  | some slots => (walk slots).map List.length

/-- The array, if there is one, has slots, and as many as `clients_ar_size`
says. -/
structure Globals.Fits (g : Globals) : Prop where
  size : g.slots.length = g.clientsArSize
  grown : g.gClients ≠ none → 0 < g.clientsArSize

section Fits

variable {g g' : Globals}

theorem Globals.Fits.addCounts (hfits : g.Fits) {delta : Int}
    (hcounts : g.addCounts delta = some g') : g'.Fits := by
  rw [Globals.addCounts, Option.map_eq_some_iff] at hcounts
  obtain ⟨ctx, -, rfl⟩ := hcounts
  exact ⟨hfits.size, hfits.grown⟩

theorem Globals.Fits.storeClient (hfits : g.Fits) {i : Nat}
    {pT : Option TGClient} (hstore : g.storeClient i pT = some g') :
    g'.Fits := by
  rw [Globals.storeClient] at hstore
  split at hstore
  · next hlt =>
      obtain rfl := Option.some.inj hstore
      refine ⟨List.length_set.trans hfits.size, fun _ => ?_⟩
      rw [hfits.size] at hlt
      exact Nat.zero_lt_of_lt hlt
  · cases hstore

theorem Globals.Fits.appendClient (hfits : g.Fits) :
    (appendClient g).Fits where
  size := by
    rw [slots_appendClient g hfits.size, List.length_append,
      List.length_replicate, hfits.size]
    rfl
  grown := fun _ => Nat.add_pos_right _ (by decide)

theorem Globals.Fits.addClient (hfits : g.Fits) {pClient : Option TGClient}
    (hadd : TgServer.addClient g pClient = some g') : g'.Fits := by
  cases pClient with
  | none => exact Option.some.inj hadd ▸ hfits
  | some pT =>
      simp only [TgServer.addClient, Option.bind_eq_bind,
        Option.bind_eq_some_iff] at hadd
      obtain ⟨found, -, hadd⟩ := hadd
      cases found with
      | some i =>
          obtain ⟨stored, hstore, hcounts⟩ := Option.bind_eq_some_iff.mp hadd
          exact (hfits.storeClient hstore).addCounts hcounts
      | none =>
          obtain ⟨stored, hstore, hcounts⟩ := Option.bind_eq_some_iff.mp hadd
          exact (hfits.appendClient.storeClient hstore).addCounts hcounts

theorem Globals.Fits.closeClient (hfits : g.Fits) {pid : TgPid}
    (hclose : TgServer.closeClient g pid = some g') : g'.Fits := by
  simp only [TgServer.closeClient, Option.bind_eq_bind,
    Option.bind_eq_some_iff] at hclose
  obtain ⟨found, -, hclose⟩ := hclose
  cases found with
  | none => exact Option.some.inj hclose ▸ hfits
  | some i =>
      simp only [Option.bind_eq_some_iff] at hclose
      obtain ⟨pC, -, stored, hstore, hcounts⟩ := hclose
      have hstored : stored.Fits := hfits.storeClient hstore
      have hlogged : (stored.logFds (releaseSlot pC)).Fits :=
        ⟨hstored.size, hstored.grown⟩
      exact hlogged.addCounts hcounts

theorem Globals.Fits.closeAllClient (hfits : g.Fits)
    (hclose : TgServer.closeAllClient g = some g') : g'.Fits := by
  obtain ⟨last, hloop, hslots, hsize, -⟩ := closeAllFrom_holds
    g.clientsArSize 0 g ((Nat.zero_add _).trans hfits.size.symm)
  obtain rfl := Option.some.inj (hclose.symm.trans hloop)
  refine ⟨?_, fun htable => ?_⟩
  · rw [hslots, hsize, List.take_zero, List.nil_append, List.length_replicate]
  · rcases Nat.eq_zero_or_pos g.clientsArSize with hzero | hpos
    · rw [hzero, closeAllFrom, Option.some.injEq] at hloop
      subst hloop
      exact hfits.grown htable
    · rw [hsize]
      exact hpos

theorem Globals.storeClient_size {i : Nat} {pT : Option TGClient}
    (hstore : g.storeClient i pT = some g') :
    g'.clientsArSize = g.clientsArSize := by
  rw [Globals.storeClient] at hstore
  split at hstore
  · exact Option.some.inj hstore ▸ rfl
  · cases hstore

theorem Globals.addCounts_size {delta : Int}
    (hcounts : g.addCounts delta = some g') :
    g'.clientsArSize = g.clientsArSize := by
  rw [Globals.addCounts, Option.map_eq_some_iff] at hcounts
  obtain ⟨ctx, -, rfl⟩ := hcounts
  rfl

/-- The array never shrinks while clients come. -/
theorem addClient_size {client : TGClient}
    (hadd : addClient g (some client) = some g') :
    g.clientsArSize ≤ g'.clientsArSize := by
  simp only [addClient, Option.bind_eq_bind, Option.bind_eq_some_iff] at hadd
  obtain ⟨found, -, hadd⟩ := hadd
  cases found with
  | some i =>
      obtain ⟨stored, hstore, hcounts⟩ := Option.bind_eq_some_iff.mp hadd
      rw [Globals.addCounts_size hcounts, Globals.storeClient_size hstore]
  | none =>
      obtain ⟨stored, hstore, hcounts⟩ := Option.bind_eq_some_iff.mp hadd
      rw [Globals.addCounts_size hcounts, Globals.storeClient_size hstore]
      exact Nat.le_add_right _ _

/-- Nor while they go. -/
theorem closeClient_size {pid : TgPid}
    (hclose : closeClient g pid = some g') :
    g'.clientsArSize = g.clientsArSize := by
  simp only [closeClient, Option.bind_eq_bind, Option.bind_eq_some_iff]
    at hclose
  obtain ⟨found, -, hclose⟩ := hclose
  cases found with
  | none => exact Option.some.inj hclose ▸ rfl
  | some i =>
      simp only [Option.bind_eq_some_iff] at hclose
      obtain ⟨pC, -, stored, hstore, hcounts⟩ := hclose
      have hstored := Globals.storeClient_size hstore
      rw [Globals.addCounts_size hcounts]
      exact hstored

/-- No operation leaves the array shorter or longer than its size says. -/
theorem fits_of_reachable (hreach : clientTable.Reachable g) : g.Fits := by
  refine Machine.Reachable.invariant
    ⟨Globals.initial_fits, fun htable => absurd rfl htable⟩ ?_ hreach
  intro state op next hfits hstep
  cases op with
  | init =>
      obtain rfl := Option.some.inj hstep
      exact ⟨hfits.appendClient.size, hfits.appendClient.grown⟩
  | addClient client =>
      have hadd : addClient state (some client) = some next := hstep
      exact hfits.addClient hadd
  | closeClient pid => exact hfits.closeClient hstep
  | closeAllClient => exact hfits.closeAllClient hstep
  | release =>
      have hrelease := release_eq state hfits.size
      obtain rfl := Option.some.inj (hstep.symm.trans hrelease)
      exact ⟨rfl, fun htable => absurd rfl htable⟩

end Fits

/-- In every table that the operations lead to, the number returned is that of
the clients, read from slots the array has, exactly if there is no array, or a
slot is NULL and no client stands behind one. -/
theorem getCurrentClientCounts_iff {g : Globals}
    (hreach : clientTable.Reachable g) :
    g.slots.length = g.clientsArSize ∧
      (getCurrentClientCounts g = some g.clientCount ↔
        g.gClients = none ∨ Gapless g.slots) := by
  refine ⟨(fits_of_reachable hreach).size, ?_⟩
  rw [getCurrentClientCounts, Globals.clientCount, Globals.slots]
  cases g.gClients with
  | none => simp
  | some slots => simpa using walk_count_iff slots

namespace CurrentCounts

open ClientTable

/-- The second of two clients is left. -/
def hole : List TableOp :=
  [.init, .addClient (client 100), .addClient (client 101), .closeClient 100]

/-- As many clients as there are slots. -/
def full : List TableOp :=
  .init :: (List.range defaultMaxClients).map fun n =>
    .addClient (client (n + 100))

theorem getCurrentClientCounts_iff_hole :
    ∃ g, clientTable.run clientTable.start hole = some g ∧
      g.slots.length = g.clientsArSize ∧
      (getCurrentClientCounts g = some g.clientCount ↔
        g.gClients = none ∨ Gapless g.slots) :=
  ⟨_, rfl, getCurrentClientCounts_iff ⟨hole, rfl⟩⟩

/-- One client behind a hole is not counted, and twenty are counted past the
end of the array. -/
theorem getCurrentClientCounts_wrong :
    (clientTable.run clientTable.start hole).map
        (fun g => (getCurrentClientCounts g, g.clientCount)) =
      some (some 0, 1) ∧
    (clientTable.run clientTable.start full).map
        (fun g => (getCurrentClientCounts g, g.clientCount)) =
      some (none, 20) := by
  decide

end CurrentCounts

end TgServer
