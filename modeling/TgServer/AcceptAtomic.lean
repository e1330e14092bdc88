/-
The steps of `do_accept` and the handler against the functions of
`tg_context.c`: left alone, the parent does what `addClient` does, and a
handler that finds the table consistent does what `closeClient` does.
-/
import TgServer.AcceptTable
import Mathlib.Logic.Relation

namespace TgServer

open Transition

namespace MainState

def Proceeds : MainState → MainState → Prop :=
  Relation.ReflTransGen fun s s' => ∃ addr, s.advance addr = some s'

section Proceeds

variable {s s' : MainState} {pT : Bytes.Addr} {i : Nat}

theorem Proceeds.step {last : MainState} (addr : Bytes.Addr)
    (hstep : s.advance addr = some s') (hrest : Proceeds s' last) :
    Proceeds s last :=
  Relation.ReflTransGen.head ⟨addr, hstep⟩ hrest

/-- The loop of `addClient` goes to the slot `scan` finds. -/
theorem proceeds_scanning {count : Nat} {found : Option Nat}
    (hscan : SlotTable.scan s.gClients Option.isNone count i = some found)
    (hsize : i + count = s.clientsArSize) (hpc : s.pc = .scanning pT i) :
    Proceeds s { s with
      pc := found.elim (Pc.appending pT) (Pc.found pT) } := by
  induction count generalizing s i with
  | zero =>
      obtain rfl : none = found := Option.some.inj hscan
      have hend : ¬ i < s.clientsArSize := by omega
      refine .step 0 ?_ .refl
      simp [advance, hpc, hend]
  | succ n ih =>
      have hlt : i < s.clientsArSize := by omega
      rw [SlotTable.scan] at hscan
      cases hslot : s.gClients[i]? with
      | none => simp [hslot] at hscan
      | some slot =>
          cases slot with
          | none =>
              obtain rfl : some i = found := by simpa [hslot] using hscan
              refine .step 0 ?_ .refl
              simp [advance, hpc, hlt, hslot]
          | some pC =>
              have hnext : s.advance 0 =
                  some { s with pc := .scanning pT (i + 1) } := by
                simp [advance, hpc, hlt, hslot]
              refine .step 0 hnext (ih ?_ ?_ rfl)
              · simpa [hslot] using hscan
              · change i + 1 + n = s.clientsArSize
                omega

theorem proceeds_copying {count copied : Nat}
    (hsize : copied + count = s.clientsArSize)
    (hlength : s.gClients.length = s.clientsArSize)
    (hpc : s.pc = .copying pT (s.gClients.take copied ++
      List.replicate (s.clientsArSize + defaultMaxClients - copied) none)
        copied) :
    Proceeds s { s with
      pc := .freed pT
        (s.gClients ++ List.replicate defaultMaxClients none) } := by
  induction count generalizing s copied with
  | zero =>
      have hend : ¬ copied < s.clientsArSize := by omega
      have hall : s.gClients.take copied = s.gClients :=
        List.take_of_length_le (by omega)
      have hpad : s.clientsArSize + defaultMaxClients - copied =
          defaultMaxClients := by omega
      rw [hall, hpad] at hpc
      refine .step 0 ?_ .refl
      simp [advance, hpc, hend]
  | succ n ih =>
      have hlt : copied < s.clientsArSize := by omega
      obtain ⟨slot, hslot⟩ : ∃ slot, s.gClients[copied]? = some slot :=
        ⟨_, List.getElem?_eq_getElem (by omega)⟩
      have hset := copy_slot hlength hlt hslot
      have hroom : copied < (s.gClients.take copied ++ List.replicate
          (s.clientsArSize + defaultMaxClients - copied)
          (none : Option Bytes.Addr)).length := by
        simp only [List.length_append, List.length_take, List.length_replicate]
        omega
      have hnext : s.advance 0 = some { s with
          pc := .copying pT
            (s.gClients.take (copied + 1) ++ List.replicate
              (s.clientsArSize + defaultMaxClients - (copied + 1)) none)
            (copied + 1) } := by
        rw [advance, hpc]
        simp only [if_pos hlt, hslot, if_pos hroom, hset]
      refine .step 0 hnext (ih ?_ hlength rfl)
      change copied + 1 + n = s.clientsArSize
      omega

/-- From the write of the slot the parent goes back to `select`. -/
theorem proceeds_insert (hpc : s.pc = .found pT i ∨ s.pc = .grown pT i)
    (hlt : i < s.gClients.length) : Proceeds s { s with
      gClients := s.gClients.set i (some pT)
      curClientCounts := s.curClientCounts + 1
      pc := .select } := by
  have hstore : s.advance 0 = some { s with
      gClients := s.gClients.set i (some pT), pc := .counting } := by
    rcases hpc with hpc | hpc <;> simp [advance, hpc, storeClient, hlt]
  exact .step 0 hstore (.step 0 rfl (.step 0 rfl .refl))

/-- Without a free slot the parent replaces the array and uses the first slot
behind the old ones. -/
theorem proceeds_append (hlength : s.gClients.length = s.clientsArSize)
    (hpc : s.pc = .appending pT) : Proceeds s { s with
      gClients := (s.gClients ++ List.replicate defaultMaxClients none).set
        s.clientsArSize (some pT)
      clientsArSize := s.clientsArSize + defaultMaxClients
      curClientCounts := s.curClientCounts + 1
      pc := .select } := by
  have hstart : s.advance 0 = some { s with
      pc := .copying pT (s.gClients.take 0 ++ List.replicate
        (s.clientsArSize + defaultMaxClients - 0) none) 0 } := by
    simp [advance, hpc]
  have hcopied := proceeds_copying (s := { s with
      pc := .copying pT (s.gClients.take 0 ++ List.replicate
        (s.clientsArSize + defaultMaxClients - 0) none) 0 })
    (Nat.zero_add s.clientsArSize) hlength rfl
  refine .step 0 hstart (Relation.ReflTransGen.trans hcopied ?_)
  refine Proceeds.step 0 rfl (Proceeds.step 0 rfl ?_)
  refine proceeds_insert (Or.inr rfl) ?_
  simp only [List.length_append, List.length_replicate, hlength]
  exact Nat.lt_add_of_pos_right (by decide)

end Proceeds

section Atomic

variable {s : MainState} (ctx : TGContext)

/-- Where no slot points to released memory the empty slots are those whose
view is empty. -/
theorem scan_view_free
    (hlive : ∀ pC, some pC ∈ s.gClients → s.records pC ≠ none)
    (count first : Nat) :
    SlotTable.scan s.view Option.isNone count first =
      SlotTable.scan s.gClients Option.isNone count first := by
  refine SlotTable.scan_map _ _ _ _ ?_ count first
  intro slot hslot
  cases slot with
  | none => rfl
  | some pC =>
      obtain ⟨pClient, hrecord⟩ := Option.ne_none_iff_exists'.mp
        (hlive pC hslot)
      simp [hrecord]

/-- Left alone, the parent comes back to `select` with the table `addClient`
makes. -/
theorem Consistent.proceeds_addClient (hcons : s.Consistent)
    {pClient : TGClient} {addr : Bytes.Addr} (hpc : s.pc = .adding pClient)
    (hfresh : s.records addr = none) :
    ∃ s', Proceeds s s' ∧ s'.pc = .select ∧
      addClient (s.globals ctx) (some pClient) = some (s'.globals ctx) := by
  have hlength : s.gClients.length = s.clientsArSize := by
    have hshape := hcons.shape
    rwa [Shape, hpc] at hshape
  have hview : s.view.length = s.clientsArSize := by
    rw [view, List.length_map, hlength]
  have hfree : some addr ∉ s.gClients := fun hmem =>
    hcons.live addr hmem hfresh
  have halloc : s.advance addr = some { s with
      records := Function.update s.records addr (some pClient)
      pc := .scanning addr 0 } := by
    simp [advance, hpc, hfresh]
  obtain ⟨found, hscan⟩ := SlotTable.scan_defined s.gClients Option.isNone
    (show 0 + s.clientsArSize ≤ s.gClients.length by omega)
  have hgo := proceeds_scanning (s := { s with
      records := Function.update s.records addr (some pClient)
      pc := .scanning addr 0 }) hscan (Nat.zero_add _) rfl
  have hsame := scan_view_free hcons.live s.clientsArSize 0
  rw [hscan] at hsame
  cases found with
  | some i =>
      obtain ⟨slot, hslot, -⟩ := SlotTable.scan_found hscan
      have hlt := (List.getElem?_eq_some_iff.mp hslot).1
      refine ⟨_, .step addr halloc (Relation.ReflTransGen.trans hgo
        (proceeds_insert (Or.inl rfl) hlt)), rfl, ?_⟩
      have hset : (s.gClients.set i (some addr)).map (fun slot => slot.bind
          (Function.update s.records addr (some pClient))) =
          s.view.set i (some pClient) := by
        rw [List.map_set, view_update hfree, Option.bind_some,
          Function.update_self]
        rfl
      have hroom : i < s.view.length := by omega
      have hadd : addClient (s.globals ctx) (some pClient) =
          some ⟨some (s.view.set i (some pClient)), s.clientsArSize,
            some { ctx with curClientCounts := s.curClientCounts + 1 },
            s.fdCalls⟩ := by
        simp [addClient, globals, Globals.slots, hsame, Globals.storeClient,
          Globals.addCounts, hroom]
      rw [hadd, ← hset]
      rfl
  | none =>
      refine ⟨_, .step addr halloc (Relation.ReflTransGen.trans hgo
        (proceeds_append hlength rfl)), rfl, ?_⟩
      have hset : ((s.gClients ++ List.replicate defaultMaxClients none).set
          s.clientsArSize (some addr)).map
            (fun slot : Option Bytes.Addr => slot.bind
              (Function.update s.records addr (some pClient))) =
          (s.view ++ List.replicate defaultMaxClients none).set
            s.clientsArSize (some pClient) := by
        rw [List.map_set, List.map_append, view_update hfree,
          List.map_replicate, Option.bind_some, Function.update_self]
        rfl
      have hall : s.view.take s.clientsArSize = s.view :=
        List.take_of_length_le (Nat.le_of_eq hview)
      have hroom : 0 < defaultMaxClients := by decide
      have hadd : addClient (s.globals ctx) (some pClient) =
          some ⟨some ((s.view ++ List.replicate defaultMaxClients none).set
              s.clientsArSize (some pClient)),
            s.clientsArSize + defaultMaxClients,
            some { ctx with curClientCounts := s.curClientCounts + 1 },
            s.fdCalls⟩ := by
        simp [addClient, globals, appendClient, Globals.slots, hsame, hall,
          hview, Globals.storeClient, Globals.addCounts, hroom]
      rw [hadd, ← hset]
      rfl

/-- What a handler does to a consistent table outside `appendClient` is what
`closeClient` does. -/
theorem Consistent.closeClient_globals (hcons : s.Consistent) (round : Reaped)
    (hlength : s.gClients.length = s.clientsArSize)
    (hfreed : ∀ pT ppNew, s.pc ≠ .freed pT ppNew) :
    (s.closeClient round).map (globals ctx) =
      TgServer.closeClient (s.globals ctx) round.pid := by
  have hread : s.slotsRead round = s.gClients := by
    rw [slotsRead]
    split
    · rename_i hpc
      exact absurd hpc (hfreed _ _)
    · rfl
  have hscan : SlotTable.scan s.view
      (SlotTable.hasKey TGClient.pid round.pid) s.clientsArSize 0 =
      SlotTable.scan s.gClients (s.isClient round) s.clientsArSize 0 := by
    refine SlotTable.scan_map _ _ _ _ ?_ _ _
    intro slot hslot
    cases slot with
    | none => rfl
    | some pC =>
        obtain ⟨pClient, hrecord⟩ := Option.ne_none_iff_exists'.mp
          (hcons.live pC hslot)
        simp [SlotTable.hasKey, isClient, deref, hrecord]
  obtain ⟨found, hfound⟩ := SlotTable.scan_defined s.gClients
    (s.isClient round) (show 0 + s.clientsArSize ≤ s.gClients.length by omega)
  rw [hfound] at hscan
  rw [MainState.closeClient, hread]
  cases found with
  | none =>
      simp [hfound, TgServer.closeClient, globals, Globals.slots, hscan]
  | some i =>
      obtain ⟨slot, hslot, hmatch⟩ := SlotTable.scan_found hfound
      cases slot with
      | none => cases hmatch
      | some pC =>
          obtain ⟨pClient, hrecord⟩ := Option.ne_none_iff_exists'.mp
            (hcons.live pC (List.mem_of_getElem? hslot))
          have hview := view_slot hslot hrecord
          obtain ⟨hroom, hget⟩ := List.getElem?_eq_some_iff.mp hview
          have hderef : s.deref round pC = pClient := by
            simp [deref, hrecord]
          have hclear : s.clearSlot i = s.gClients.set i none := by
            rw [clearSlot]
            split
            · rename_i hpc
              exact absurd hpc (hfreed _ _)
            · rfl
          have hset : (s.gClients.set i none).map (fun slot => slot.bind
              (Function.update s.records pC none)) = s.view.set i none := by
            rw [view_update (hcons.points_once hslot hrecord), List.map_set]
            rfl
          have hclose : TgServer.closeClient (s.globals ctx) round.pid =
              some ⟨some (s.view.set i none), s.clientsArSize,
                some { ctx with curClientCounts := s.curClientCounts - 1 },
                s.fdCalls ++ releaseClient pClient⟩ := by
            simp [TgServer.closeClient, globals, Globals.slots, hscan, hget,
              Globals.storeClient, hroom, Globals.logFds, releaseSlot,
              Globals.addCounts, Int.sub_eq_add_neg]
          rw [hclose, ← hset]
          simp [hfound, hslot, dropClient, globals, view, hclear, hderef]

end Atomic

end MainState

/-- In a calm run the steps between two interruptions and the handler do to
the table what the functions of `tg_context.c` do in one go. -/
theorem calm_refines_context {maxClients : Int} {s : MainState}
    (hreach : (acceptMachine maxClients).GuardedReachable CalmReaping s)
    (ctx : TGContext) :
    (∀ pClient addr, s.pc = .adding pClient → s.records addr = none →
      ∃ s', s.Proceeds s' ∧ s'.pc = .select ∧
        addClient (s.globals ctx) (some pClient) = some (s'.globals ctx)) ∧
    ∀ round, s.gClients.length = s.clientsArSize →
      (∀ pT ppNew, s.pc ≠ .freed pT ppNew) →
      (s.closeClient round).map (MainState.globals ctx) =
        closeClient (s.globals ctx) round.pid := by
  have hcons := consistent_of_calm hreach
  constructor
  · intro pClient addr hpc hfresh
    exact hcons.proceeds_addClient ctx hpc hfresh
  · intro round hlength hfreed
    exact hcons.closeClient_globals ctx round hlength hfreed

end TgServer
