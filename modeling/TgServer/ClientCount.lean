/-
The counter `curClientCounts` beside the table: `addClient` and `closeClient`
keep it, `closeAllClient` empties the slots and leaves it alone.
-/
import TgServer.ClientTable

namespace TgServer

open Transition SlotTable

/-- `init` only at the start or after `release`, `addClient` only between
`init` and `release`; `live` says whether `init` comes last so far. -/
def InOrder : Bool → List TableOp → Prop
  | _, [] => True
  | live, .init :: rest => live = false ∧ InOrder true rest
  | live, .addClient _ :: rest => live = true ∧ InOrder true rest
  | live, .closeClient _ :: rest => InOrder live rest
  | live, .closeAllClient :: rest => InOrder live rest
  | _, .release :: rest => InOrder false rest

namespace Globals

/-- The number of slots that are not NULL. -/
def clientCount (g : Globals) : Nat := g.slots.countP Option.isSome

/-- `g_context->curClientCounts` -/
def counter (g : Globals) : Option Int := g.gContext.map (·.curClientCounts)

/-- The counter, if there is one, is the number of clients. -/
def CountExact (g : Globals) : Prop :=
  ∀ counts, g.counter = some counts → counts = g.clientCount

/-- The globals between `init` and `release`. -/
structure Live (g : Globals) : Prop where
  fits : g.slots.length = g.clientsArSize
  context : g.gContext ≠ none

/-- The globals before `init` and after `release`. -/
structure Released (g : Globals) : Prop where
  slots : g.slots = []
  size : g.clientsArSize = 0
  context : g.gContext = none

/-- The globals at a place in a sequence that is in order. -/
def Stage (g : Globals) (live : Bool) : Prop :=
  if live then g.Live else g.Released

end Globals

/-- `closeAllClient` is called while there are no clients. -/
def ClosesEmpty (g : Globals) (op : TableOp) : Prop :=
  op = .closeAllClient → g.clientCount = 0

section Operations

variable {g : Globals}

theorem addCounts_counter (hcontext : g.gContext ≠ none) (delta : Int) :
    ∃ g', g.addCounts delta = some g' ∧ g'.slots = g.slots ∧
      g'.clientsArSize = g.clientsArSize ∧ g'.gContext ≠ none ∧
      g'.counter = g.counter.map (· + delta) := by
  obtain ⟨ctx, hctx⟩ := Option.ne_none_iff_exists'.mp hcontext
  rw [Globals.addCounts, Globals.counter, hctx]
  exact ⟨_, rfl, rfl, rfl, Option.some_ne_none _, rfl⟩

theorem countP_store {slots : List (Option TGClient)} {i : Nat}
    {client : TGClient} (hslot : slots[i]? = some none) :
    (slots.set i (some client)).countP Option.isSome =
      slots.countP Option.isSome + 1 := by
  obtain ⟨hlt, hget⟩ := List.getElem?_eq_some_iff.mp hslot
  rw [List.countP_set hlt, hget]
  rfl

theorem countP_clear {slots : List (Option TGClient)} {i : Nat}
    {client : TGClient} (hslot : slots[i]? = some (some client)) :
    (slots.set i none).countP Option.isSome + 1 =
      slots.countP Option.isSome := by
  obtain ⟨hlt, hget⟩ := List.getElem?_eq_some_iff.mp hslot
  have hpos : 0 < slots.countP Option.isSome :=
    List.countP_pos_iff.mpr ⟨_, List.getElem_mem hlt, by rw [hget]; rfl⟩
  rw [List.countP_set hlt, hget]
  change slots.countP Option.isSome - 1 + 0 + 1 = _
  omega

theorem init_count (hreleased : g.Released) :
    (init g).Live ∧ (init g).CountExact := by
  have happend := slots_appendClient g
    (by rw [hreleased.slots, hreleased.size]; rfl)
  rw [hreleased.slots, List.nil_append] at happend
  refine ⟨⟨?_, Option.some_ne_none _⟩, ?_⟩
  · change (appendClient g).slots.length = g.clientsArSize + defaultMaxClients
    rw [happend, List.length_replicate, hreleased.size, Nat.zero_add]
  · intro counts hcounts
    have hnone : (init g).clientCount = 0 := by
      change (appendClient g).slots.countP Option.isSome = 0
      rw [happend]
      rfl
    rw [hnone]
    exact (Option.some.inj hcounts).symm

/-- A client goes into a slot that is free or becomes free by growing. -/
theorem addClient_count (hlive : g.Live) (client : TGClient) :
    ∃ g', addClient g (some client) = some g' ∧ g'.Live ∧
      g'.clientCount = g.clientCount + 1 ∧
      g'.counter = g.counter.map (· + 1) := by
  cases hfind : g.slots.findIdx? Option.isNone with
  | some i =>
      obtain ⟨hlt, hnone, -⟩ := List.findIdx?_eq_some_iff_getElem.mp hfind
      have hslot : g.slots[i]? = some none := by
        rw [List.getElem?_eq_getElem hlt, Option.isNone_iff_eq_none.mp hnone]
      obtain ⟨g', hcounts, hslots, hsize, hcontext, hcounter⟩ :=
        addCounts_counter
          (g := { g with gClients := some (g.slots.set i (some client)) })
          hlive.context 1
      refine ⟨g', ?_, ⟨?_, hcontext⟩, ?_, hcounter⟩
      · simp [addClient, scan_slots hlive.fits, hfind, Globals.storeClient,
          hlt, hcounts]
      · rw [hslots, hsize]
        exact List.length_set.trans hlive.fits
      · rw [Globals.clientCount, hslots]
        exact countP_store hslot
  | none =>
      have happend := slots_appendClient g hlive.fits
      have hlength : g.clientsArSize < (appendClient g).slots.length := by
        rw [happend, List.length_append, List.length_replicate, hlive.fits]
        exact Nat.lt_add_of_pos_right (by decide)
      have hslot : (appendClient g).slots[g.clientsArSize]? = some none := by
        rw [happend, ← hlive.fits,
          List.getElem?_append_right (Nat.le_refl _), Nat.sub_self]
        rfl
      obtain ⟨g', hcounts, hslots, hsize, hcontext, hcounter⟩ :=
        addCounts_counter
          (g := { appendClient g with
            gClients := some
              ((appendClient g).slots.set g.clientsArSize (some client)) })
          hlive.context 1
      refine ⟨g', ?_, ⟨?_, hcontext⟩, ?_, hcounter⟩
      · simp [addClient, scan_slots hlive.fits, hfind, Globals.storeClient,
          hlength, hcounts]
      · rw [hslots, hsize]
        change ((appendClient g).slots.set _ _).length =
          g.clientsArSize + defaultMaxClients
        rw [List.length_set, happend, List.length_append,
          List.length_replicate, hlive.fits]
      · rw [Globals.clientCount, hslots]
        change ((appendClient g).slots.set _ _).countP Option.isSome = _
        rw [countP_store hslot, happend, List.countP_append]
        rfl

/-- A client is taken out and counted down, or nothing changes. -/
theorem closeClient_count (hlive : g.Live) (pid : TgPid) :
    ∃ g', closeClient g pid = some g' ∧ g'.Live ∧
      (g' = g ∨ g'.clientCount + 1 = g.clientCount ∧
        g'.counter = g.counter.map (· - 1)) := by
  cases hfind : g.slots.findIdx? (hasKey TGClient.pid pid) with
  | none =>
      refine ⟨g, ?_, hlive, Or.inl rfl⟩
      simp [closeClient, scan_slots hlive.fits, hfind]
  | some i =>
      obtain ⟨hlt, hkey, -⟩ := List.findIdx?_eq_some_iff_getElem.mp hfind
      cases hget : g.slots[i] with
      | none =>
          rw [hget] at hkey
          cases hkey
      | some client =>
          have hslot : g.slots[i]? = some (some client) := by
            rw [List.getElem?_eq_getElem hlt, hget]
          obtain ⟨g', hcounts, hslots, hsize, hcontext, hcounter⟩ :=
            addCounts_counter
              (g := ({ g with
                gClients := some (g.slots.set i none) } : Globals).logFds
                  (releaseClient client)) hlive.context (-1)
          refine ⟨g', ?_, ⟨?_, hcontext⟩, Or.inr ⟨?_, hcounter⟩⟩
          · simp [closeClient, scan_slots hlive.fits, hfind, hget,
              Globals.storeClient, hlt, releaseSlot, hcounts]
          · rw [hslots, hsize]
            exact List.length_set.trans hlive.fits
          · rw [Globals.clientCount, hslots]
            exact countP_clear hslot

/-- All clients are taken out and the counter stays as it is. -/
theorem closeAllClient_count (hlive : g.Live) :
    ∃ g', closeAllClient g = some g' ∧ g'.Live ∧ g'.clientCount = 0 ∧
      g'.counter = g.counter := by
  obtain ⟨g', hloop, hslots, hsize, hcontext⟩ :=
    closeAllFrom_holds g.clientsArSize 0 g
      ((Nat.zero_add _).trans hlive.fits.symm)
  rw [List.take_zero, List.nil_append] at hslots
  refine ⟨g', hloop, ⟨?_, ?_⟩, ?_, ?_⟩
  · rw [hslots, List.length_replicate, hsize]
  · rw [hcontext]
    exact hlive.context
  · rw [Globals.clientCount, hslots, List.countP_replicate]
    rfl
  · rw [Globals.counter, Globals.counter, hcontext]

theorem release_count {live : Bool} (hstage : g.Stage live) :
    ∃ g', release g = some g' ∧ g'.Released := by
  have hfits : g.slots.length = g.clientsArSize := by
    cases live with
    | false => rw [hstage.slots, hstage.size]; rfl
    | true => exact hstage.fits
  exact ⟨_, release_eq g hfits, rfl, rfl, rfl⟩

theorem Globals.Released.closeClient (hreleased : g.Released) (pid : TgPid) :
    TgServer.closeClient g pid = some g := by
  simp [TgServer.closeClient, hreleased.size, scan]

theorem Globals.Released.closeAllClient (hreleased : g.Released) :
    TgServer.closeAllClient g = some g := by
  simp [TgServer.closeAllClient, hreleased.size, closeAllFrom]

theorem Globals.Released.countExact (hreleased : g.Released) :
    g.CountExact := by
  intro counts hcounts
  rw [Globals.counter, hreleased.context] at hcounts
  cases hcounts

end Operations

section Runs

variable {g : Globals} {live : Bool} {ops : List TableOp}

/-- Between operations that come in order, the counter can only go wrong where
`closeAllClient` meets clients. -/
theorem clientTable_step_count {op : TableOp} {rest : List TableOp}
    (hstage : g.Stage live) (hexact : g.CountExact)
    (horder : InOrder live (op :: rest)) :
    ∃ g' live', clientTable.step g op = some g' ∧ g'.Stage live' ∧
      InOrder live' rest ∧ (g'.CountExact ↔ ClosesEmpty g op) := by
  have hfree : op ≠ .closeAllClient → ClosesEmpty g op :=
    fun hne heq => absurd heq hne
  cases op with
  | init =>
      obtain ⟨rfl, hrest⟩ := horder
      obtain ⟨hlive, hcount⟩ := init_count hstage
      exact ⟨init g, true, rfl, hlive, hrest,
        iff_of_true hcount (hfree (by simp))⟩
  | addClient client =>
      obtain ⟨rfl, hrest⟩ := horder
      obtain ⟨g', hadd, hlive, hclients, hcounter⟩ :=
        addClient_count hstage client
      refine ⟨g', true, hadd, hlive, hrest,
        iff_of_true ?_ (hfree (by simp))⟩
      intro counts hcounts
      rw [hcounter, Option.map_eq_some_iff] at hcounts
      obtain ⟨before, hbefore, rfl⟩ := hcounts
      rw [hexact before hbefore, hclients]
      rfl
  | closeClient pid =>
      cases live with
      | false =>
          exact ⟨g, false, hstage.closeClient pid, hstage, horder,
            iff_of_true hexact (hfree (by simp))⟩
      | true =>
          obtain ⟨g', hclose, hlive, hcases⟩ := closeClient_count hstage pid
          refine ⟨g', true, hclose, hlive, horder,
            iff_of_true ?_ (hfree (by simp))⟩
          rcases hcases with rfl | ⟨hclients, hcounter⟩
          · exact hexact
          · intro counts hcounts
            rw [hcounter, Option.map_eq_some_iff] at hcounts
            obtain ⟨before, hbefore, rfl⟩ := hcounts
            have hequal := hexact before hbefore
            omega
  | closeAllClient =>
      cases live with
      | false =>
          refine ⟨g, false, hstage.closeAllClient, hstage, horder,
            iff_of_true hexact fun _ => ?_⟩
          rw [Globals.clientCount, hstage.slots]
          rfl
      | true =>
          obtain ⟨g', hclose, hlive, hclients, hcounter⟩ :=
            closeAllClient_count hstage
          refine ⟨g', true, hclose, hlive, horder, ?_⟩
          obtain ⟨ctx, hctx⟩ := Option.ne_none_iff_exists'.mp hstage.context
          have hbefore : g.counter = some ctx.curClientCounts := by
            rw [Globals.counter, hctx]
            rfl
          have hequal := hexact _ hbefore
          rw [ClosesEmpty, Globals.CountExact, hcounter, hbefore, hclients]
          constructor
          · intro hafter _
            have hzero := hafter _ rfl
            omega
          · intro hempty counts hcounts
            have hzero := hempty rfl
            rw [Option.some.injEq] at hcounts
            omega
  | release =>
      obtain ⟨g', hrelease, hreleased⟩ := release_count hstage
      exact ⟨g', false, hrelease, hreleased, horder,
        iff_of_true hreleased.countExact (hfree (by simp))⟩

/-- From a state with an exact counter, all states of a sequence have one if
and only if `closeAllClient` meets no clients. -/
theorem clientTable_run_count (hstage : g.Stage live)
    (hexact : g.CountExact) (horder : InOrder live ops) :
    (∀ front, front <+: ops →
        ∃ g', clientTable.run g front = some g' ∧ g'.CountExact) ↔
      clientTable.Guarded ClosesEmpty g ops := by
  induction ops generalizing g live with
  | nil =>
      refine iff_of_true ?_ trivial
      intro front hfront
      rw [List.prefix_nil.mp hfront]
      exact ⟨g, rfl, hexact⟩
  | cons op rest ih =>
      obtain ⟨g', live', hstep, hstage', horder', hcount⟩ :=
        clientTable_step_count hstage hexact horder
      have hfirst : clientTable.run g [op] = some g' := by
        rw [Machine.run_cons, hstep]
        rfl
      have hmore : ∀ front, clientTable.run g (op :: front) =
          clientTable.run g' front := by
        intro front
        rw [Machine.run_cons, hstep]
        rfl
      constructor
      · intro hall
        obtain ⟨last, hlast, hexactLast⟩ :=
          hall [op] (List.cons_prefix_cons.mpr ⟨rfl, List.nil_prefix⟩)
        obtain rfl := Option.some.inj (hfirst.symm.trans hlast)
        refine ⟨hcount.mp hexactLast, ?_⟩
        intro next hnext
        obtain rfl := Option.some.inj (hstep.symm.trans hnext)
        refine (ih hstage' hexactLast horder').mp ?_
        intro front hfront
        rw [← hmore]
        exact hall (op :: front) (List.cons_prefix_cons.mpr ⟨rfl, hfront⟩)
      · rintro ⟨hclose, hrest⟩ front hfront
        cases front with
        | nil => exact ⟨g, rfl, hexact⟩
        | cons first front =>
            obtain ⟨rfl, htail⟩ := List.cons_prefix_cons.mp hfront
            rw [hmore]
            exact (ih hstage' (hcount.mpr hclose) horder').mpr
              (hrest g' hstep) front htail

end Runs

/-- In every state of a sequence of operations that come in order the counter
is the number of clients, if and only if `closeAllClient` is only called while
there are none. -/
theorem clientTable_count_iff {ops : List TableOp} (horder : InOrder false ops) :
    (∀ front, front <+: ops →
        ∃ g, clientTable.run clientTable.start front = some g ∧
          g.CountExact) ↔
      clientTable.Guarded ClosesEmpty clientTable.start ops :=
  have hstage : clientTable.start.Stage false := ⟨rfl, rfl, rfl⟩
  clientTable_run_count hstage
    (Globals.Released.countExact ⟨rfl, rfl, rfl⟩) horder

namespace ClientCount

def client (pid : TgPid) : TGClient := ⟨pid, -1, 5, 6, none, 0⟩

theorem clientTable_count_iff_pair :
    InOrder false [.init, .addClient (client 7), .closeClient 7] ∧
      ((∀ front, front <+: [.init, .addClient (client 7), .closeClient 7] →
          ∃ g, clientTable.run clientTable.start front = some g ∧
            g.CountExact) ↔
        clientTable.Guarded ClosesEmpty clientTable.start
          [.init, .addClient (client 7), .closeClient 7]) :=
  ⟨⟨rfl, rfl, trivial⟩, clientTable_count_iff ⟨rfl, rfl, trivial⟩⟩

/-- The counter still says one after the only client was closed with all
others. -/
theorem clientTable_count_closeAll :
    InOrder false [.init, .addClient (client 7), .closeAllClient] ∧
      ∃ g, clientTable.run clientTable.start
          [.init, .addClient (client 7), .closeAllClient] = some g ∧
        g.counter = some 1 ∧ g.clientCount = 0 ∧ ¬ g.CountExact := by
  refine ⟨⟨rfl, rfl, trivial⟩, _, rfl, by decide, by decide, ?_⟩
  intro hexact
  exact absurd (hexact 1 (by decide)) (by decide)

end ClientCount

end TgServer
