/-
`createAllServices` in its own thread beside the accept loop, the forked
client processes and the shutdown: which pointer each service function gets,
and which children start before the services have been created.
-/
import TgServer.AcceptLimit
import TgServer.ClientLife

namespace TgServer

open Bytes Transition

/-- Where the thread of `createAllServices` stands. -/
inductive CreatorPc where
  /-- Before `pS = *ppHead++`, at slot `i`. -/
  | fetch (i : Nat)
  /-- In `do_create` of the record at `a`, which slot `i` points to. -/
  | calling (i : Nat) (a : Addr)
  /-- Before `pS->pGlobalData = pData`. -/
  | storing (i : Nat) (a : Addr) (pData : Option Addr)
  | done
deriving Repr, DecidableEq

inductive LifeEvent where
  /-- `do_create` of the record at `a` returned. -/
  | created (a : Addr) (pData : Option Addr)
  | forked (pid : TgPid)
  /-- A client process calls a function of the record at `a`. -/
  | inChild (pid : TgPid) (a : Addr) (call : ServiceCall)
  | inMain (a : Addr) (call : ServiceCall)
deriving Repr, DecidableEq

/-- `copies` holds the registry each child got from `fork`. -/
structure LifeState where
  main : MainState
  registry : Registry
  creator : CreatorPc
  copies : TgPid → Registry
  trace : List LifeEvent

inductive LifeAct where
  /-- A step of the accept loop, of the handler of `SIGCHLD`, or of a child up
  to the limit check or to its end. -/
  | main (act : Act)
  /-- The next step of the thread; `pData` is what `do_create` returns. -/
  | create (pData : Option Addr)
  | init (pid : TgPid)
  | release (pid : TgPid)
  /-- `__handle_host_shutdown_signal` comes to `destroyAllServices`. -/
  | shutDown

/-- The records a loop over the registry visits, with their addresses. -/
def visits (g : Registry) : Option (List (Addr × TGService)) :=
  match g.gServices with
  | none => some []
  | some slots => do
      (← SlotTable.walk slots).mapM fun a => (g.objects[a]?).map (a, ·)

def TGService.destroyCall (pS : TGService) : ServiceCall :=
  .destroy pS.doDestroy pS.parameters

namespace LifeState

/-- The next step of `createAllServices`. -/
def create (s : LifeState) (pData : Option Addr) : Option LifeState :=
  match s.creator with
  | .fetch i =>
      match s.registry.gServices with
      | none => some { s with creator := .done }
      | some slots => do
          match ← slots[i]? with
          | none => return { s with creator := .done }
          | some a =>
              let _ ← s.registry.objects[a]?
              return { s with creator := .calling i a }
  | .calling i a =>
      some { s with
        creator := .storing i a pData
        trace := s.trace ++ [.created a pData] }
  | .storing i a pData => do
      let pS ← s.registry.objects[a]?
      let objects := s.registry.objects.set a { pS with pGlobalData := pData }
      return { s with
        registry := { s.registry with objects := objects }
        creator := .fetch (i + 1) }
  | .done => none

def forkCopies (s : LifeState) (main : MainState) : Act → LifeState
  | .fork cpid =>
      if 0 < cpid then
        { s with
          main := main
          copies := Function.update s.copies cpid s.registry
          trace := s.trace ++ [.forked cpid] }
      else { s with main := main }
  | _ => { s with main := main }

def serves (s : LifeState) (pid : TgPid) : Bool :=
  s.main.children.any fun child => child.pid == pid && child.serving

/-- A child runs a loop over its copy of the registry. -/
def inChild (s : LifeState) (pid : TgPid) (call : TGService → ServiceCall) :
    Option LifeState :=
  if s.serves pid then do
    let records ← visits (s.copies pid)
    return { s with
      trace := s.trace ++ records.map fun (a, pS) => .inChild pid a (call pS) }
  else none

def shutDown (s : LifeState) : Option LifeState := do
  let records ← visits s.registry
  return { s with
    trace := s.trace ++ records.map fun (a, pS) => .inMain a pS.destroyCall }

/-- Every service has been created and its pointer stored. -/
def prepared (s : LifeState) : Bool :=
  match s.creator, s.registry.gServices with
  | .done, _ => true
  | _, none => true
  | .fetch i, some slots => slots[i]? == some none
  | _, _ => false

end LifeState

def lifeStep (maxClients : Int) (s : LifeState) : LifeAct → Option LifeState
  | .main act =>
      (acceptStep maxClients s.main act).map fun main => s.forkCopies main act
  | .create pData => s.create pData
  | .init pid => s.inChild pid TGService.initCall
  | .release pid => s.inChild pid TGService.releaseCall
  | .shutDown => s.shutDown

/-- From the moment `init_plugin` has created the thread. -/
def lifeMachine (maxClients : Int) (registry : Registry) :
    Machine LifeState LifeAct :=
  ⟨⟨.initial, registry, .fetch 0, fun _ => .initial, []⟩, lifeStep maxClients⟩

/-- What has to happen before an event: `do_init` in a child follows its fork,
and that the return of `do_create`; `do_release` and `do_destroy` get what
`do_create` returned. -/
def LifeCause (before : List LifeEvent) : LifeEvent → Prop
  | .inChild pid a (.init _ _) => ∃ early late pData,
      before = early ++ .forked pid :: late ∧ .forked pid ∉ late ∧
        .created a pData ∈ early
  | .inChild _ a (.release _ pGlobalData) => .created a pGlobalData ∈ before
  | .inMain a (.destroy _ pointer) => .created a pointer ∈ before
  | _ => True

/-- A child that is going to be admitted is forked after all services are
prepared, and a shutdown comes to `destroyAllServices` when `do_create` of
each service has returned the pointer to its parameters. -/
def Prepared (maxClients : Int) (s : LifeState) : LifeAct → Prop
  | .main (.fork cpid) => 0 < cpid → s.main.curClientCounts < maxClients →
      s.prepared = true
  | .shutDown => ∀ record ∈ (visits s.registry).getD [],
      .created record.1 record.2.parameters ∈ s.trace
  | _ => True

instance (maxClients : Int) (s : LifeState) (act : LifeAct) :
    Decidable (Prepared maxClients s act) :=
  match act with
  | .main (.fork _) => inferInstanceAs (Decidable (_ < _ → _ < _ → _))
  | .shutDown => inferInstanceAs (Decidable (∀ record ∈ _, _))
  | .main (.accept _ _ _ _) | .main (.advance _) | .main (.check _)
  | .main (.exit _) | .main (.sigchld _) | .create _ | .init _ | .release _ =>
      .isTrue trivial

section Loops

/-- The loops of the registry are those over the records with their
addresses. -/
theorem loadedServices_visits (g : Registry) :
    loadedServices g = (visits g).map (List.map Prod.snd) := by
  have hmap : ∀ addrs : List Addr, addrs.mapM (g.objects[·]?) =
      (addrs.mapM fun a => (g.objects[a]?).map (a, ·)).map
        (List.map Prod.snd) := by
    intro addrs
    induction addrs with
    | nil => rfl
    | cons a rest ih =>
        rw [List.mapM_cons, List.mapM_cons, ih]
        cases g.objects[a]? with
        | none => rfl
        | some pS =>
            cases rest.mapM fun a => (g.objects[a]?).map (a, ·) <;> rfl
  rw [loadedServices, visits]
  cases g.gServices with
  | none => rfl
  | some slots =>
      simp only [Option.bind_eq_bind]
      cases SlotTable.walk slots with
      | none => rfl
      | some addrs => exact hmap addrs

/-- What the loops of the registry call is what the steps of a child and of the
shutdown record. -/
theorem forServices_visits {body : Registry → Addr → TGService →
      Option (List ServiceCall × Registry)} {call : TGService → ServiceCall}
    (hround : ∀ g a pS, body g a pS = some ([call pS], g)) (g : Registry) :
    (forServices body g).map Prod.fst =
      (visits g).map (List.map fun (_, pS) => call pS) := by
  rw [forServices_calls hround, loadedServices_visits]
  cases visits g with
  | none => rfl
  | some records =>
      simp only [Option.map_some, List.map_map]
      rfl

end Loops

section Records

/-- A record that is visited lies behind a slot in front of all NULL slots. -/
theorem visits_mem {g : Registry} {records : List (Addr × TGService)}
    {record : Addr × TGService} (hvisits : visits g = some records)
    (hrecord : record ∈ records) :
    ∃ i : Nat, g.slots[i]? = some (some record.1) ∧
      g.objects[record.1]? = some record.2 ∧
      ∀ k : Nat, g.slots[k]? = some none → i < k := by
  rw [visits] at hvisits
  cases hslots : g.gServices with
  | none =>
      rw [hslots, Option.some.injEq] at hvisits
      rw [← hvisits] at hrecord
      cases hrecord
  | some slots =>
      simp only [hslots, Option.bind_eq_bind, Option.bind_eq_some_iff]
        at hvisits
      obtain ⟨addrs, hwalk, hrecords⟩ := hvisits
      obtain ⟨htake, -⟩ := SlotTable.walk_some hwalk
      have hmem : record.1 ∈ addrs ∧ g.objects[record.1]? = some record.2 := by
        clear htake hwalk
        induction addrs generalizing records with
        | nil =>
            obtain rfl := Option.some.inj hrecords
            cases hrecord
        | cons a rest ih =>
            simp only [List.mapM_cons, Option.bind_eq_bind,
              Option.bind_eq_some_iff, Option.pure_def, Option.some.injEq,
              Option.map_eq_some_iff] at hrecords
            obtain ⟨first, ⟨pS, hget, rfl⟩, more, hmore, rfl⟩ := hrecords
            rcases List.mem_cons.mp hrecord with rfl | hrest
            · exact ⟨List.mem_cons_self, hget⟩
            · obtain ⟨ha, hobject⟩ := ih hrest hmore
              exact ⟨List.mem_cons_of_mem _ ha, hobject⟩
      have hbefore : ∀ i : Nat, i < addrs.length →
          slots[i]? = some addrs[i]? := by
        intro i hi
        have hget := congrArg (·[i]?) htake
        simp only [List.getElem?_take_of_lt hi, List.getElem?_map,
          List.getElem?_eq_getElem hi, Option.map_some] at hget
        rw [hget, List.getElem?_eq_getElem hi]
      obtain ⟨i, hi, hget⟩ := List.getElem_of_mem hmem.1
      rw [Registry.slots, hslots, Option.getD_some]
      refine ⟨i, ?_, hmem.2, ?_⟩
      · rw [hbefore i hi, List.getElem?_eq_getElem hi, hget]
      · intro k hk
        by_contra hle
        have hlt : k < addrs.length := by omega
        rw [hbefore k hlt, List.getElem?_eq_getElem hlt] at hk
        cases hk

end Records

namespace LifeState

/-- The records behind the first `n` slots hold what `do_create` returned. -/
def StoredTo (s : LifeState) (n : Nat) : Prop :=
  ∀ i < n, ∀ a, s.registry.slots[i]? = some (some a) →
    ∃ pS, s.registry.objects[a]? = some pS ∧
      .created a pS.pGlobalData ∈ s.trace

/-- What the thread has done so far. -/
def Stored (s : LifeState) : Prop :=
  match s.creator with
  | .fetch i => s.StoredTo i
  | .calling i a => s.StoredTo i ∧ s.registry.slots[i]? = some (some a)
  | .storing i a pData => s.StoredTo i ∧
      s.registry.slots[i]? = some (some a) ∧ .created a pData ∈ s.trace
  | .done => ∀ records, visits s.registry = some records →
      ∀ record ∈ records, .created record.1 record.2.pGlobalData ∈ s.trace

/-- The child was forked when its copy of the registry was prepared. -/
def Copied (s : LifeState) (pid : TgPid) : Prop :=
  ∃ early late, s.trace = early ++ .forked pid :: late ∧
    .forked pid ∉ late ∧
    ∀ records, visits (s.copies pid) = some records →
      ∀ record ∈ records, .created record.1 record.2.pGlobalData ∈ early

structure LifeInv (maxClients : Int) (s : LifeState) : Prop where
  caused : Justified LifeCause s.trace
  stored : s.Stored
  copied : ∀ child ∈ s.main.children, child.admitted maxClients = true →
    s.Copied child.pid

section Steps

variable {s s' : LifeState}

theorem StoredTo.visited {n : Nat} (hstored : s.StoredTo n)
    (hnull : s.registry.slots[n]? = some none)
    {records : List (Addr × TGService)}
    (hvisits : visits s.registry = some records) :
    ∀ record ∈ records, .created record.1 record.2.pGlobalData ∈ s.trace := by
  intro record hrecord
  obtain ⟨i, hslot, hobject, hfront⟩ := visits_mem hvisits hrecord
  obtain ⟨pS, hget, hcreated⟩ := hstored i (hfront n hnull) record.1 hslot
  obtain rfl := Option.some.inj (hget.symm.trans hobject)
  exact hcreated

/-- A prepared registry holds what `do_create` of its services returned. -/
theorem Stored.prepared (hstored : s.Stored) (hprepared : s.prepared = true)
    {records : List (Addr × TGService)}
    (hvisits : visits s.registry = some records) :
    ∀ record ∈ records, .created record.1 record.2.pGlobalData ∈ s.trace := by
  cases hslots : s.registry.gServices with
  | none =>
      rw [visits, hslots, Option.some.injEq] at hvisits
      rw [← hvisits]
      exact fun record hrecord => absurd hrecord List.not_mem_nil
  | some slots =>
      rw [Stored] at hstored
      rw [LifeState.prepared, hslots] at hprepared
      cases hcreator : s.creator with
      | done =>
          rw [hcreator] at hstored
          exact hstored records hvisits
      | fetch i =>
          rw [hcreator] at hstored hprepared
          refine hstored.visited ?_ hvisits
          rw [Registry.slots, hslots, Option.getD_some]
          exact beq_iff_eq.mp hprepared
      | calling i a | storing i a pData =>
          rw [hcreator] at hprepared
          cases hprepared

/-- More events do no harm to what is stored. -/
theorem Stored.extend (hstored : s.Stored)
    (hregistry : s'.registry = s.registry) (hcreator : s'.creator = s.creator)
    (htrace : s.trace ⊆ s'.trace) : s'.Stored := by
  have hto : ∀ n, s.StoredTo n → s'.StoredTo n := by
    intro n hn i hi a hslot
    rw [hregistry] at hslot ⊢
    obtain ⟨pS, hget, hcreated⟩ := hn i hi a hslot
    exact ⟨pS, hget, htrace hcreated⟩
  rw [Stored] at hstored ⊢
  rw [hcreator]
  cases hpc : s.creator with
  | fetch i =>
      rw [hpc] at hstored
      exact hto i hstored
  | calling i a =>
      rw [hpc] at hstored
      rw [hregistry]
      exact ⟨hto i hstored.1, hstored.2⟩
  | storing i a pData =>
      rw [hpc] at hstored
      rw [hregistry]
      exact ⟨hto i hstored.1, hstored.2.1, htrace hstored.2.2⟩
  | done =>
      rw [hpc] at hstored
      rw [hregistry]
      exact fun records hvisits record hrecord =>
        htrace (hstored records hvisits record hrecord)

/-- Events other than another fork of the child do no harm to its copy. -/
theorem Copied.extend {pid : TgPid} (hcopied : s.Copied pid)
    (hcopies : s'.copies pid = s.copies pid) {events : List LifeEvent}
    (htrace : s'.trace = s.trace ++ events) (hevents : .forked pid ∉ events) :
    s'.Copied pid := by
  obtain ⟨early, late, hsplit, hlate, hcreated⟩ := hcopied
  refine ⟨early, late ++ events, ?_, ?_, ?_⟩
  · rw [htrace, hsplit, List.append_assoc, List.cons_append]
  · rw [List.mem_append]
    exact fun hmem => hmem.elim hlate hevents
  · rw [hcopies]
    exact hcreated

/-- The steps of the thread. -/
inductive Created (s : LifeState) (pData : Option Addr) : LifeState → Prop where
  | finish {i : Nat} (hpc : s.creator = .fetch i)
      (hend : s.registry.gServices = none ∨
        s.registry.slots[i]? = some none) :
      Created s pData { s with creator := .done }
  | fetch {i : Nat} {a : Addr} (hpc : s.creator = .fetch i)
      (hslot : s.registry.slots[i]? = some (some a)) :
      Created s pData { s with creator := .calling i a }
  | call {i : Nat} {a : Addr} (hpc : s.creator = .calling i a) :
      Created s pData { s with
        creator := .storing i a pData
        trace := s.trace ++ [.created a pData] }
  | store {i : Nat} {a : Addr} {value : Option Addr} {pS : TGService}
      (hpc : s.creator = .storing i a value)
      (hget : s.registry.objects[a]? = some pS) :
      Created s pData { s with
        registry := { s.registry with
          objects := s.registry.objects.set a { pS with pGlobalData := value } }
        creator := .fetch (i + 1) }

theorem create_cases {pData : Option Addr}
    (hcreate : s.create pData = some s') : Created s pData s' := by
  rw [LifeState.create] at hcreate
  split at hcreate <;> rename_i hpc
  · split at hcreate <;> rename_i hslots
    · exact Option.some.inj hcreate ▸ .finish hpc (Or.inl hslots)
    · simp only [Option.bind_eq_bind, Option.bind_eq_some_iff] at hcreate
      obtain ⟨slot, hslot, hnext⟩ := hcreate
      have hread : s.registry.slots[_]? = some slot :=
        (congrArg (·[_]?) (by rw [Registry.slots, hslots]; rfl)).trans hslot
      cases slot with
      | none => exact Option.some.inj hnext ▸ .finish hpc (Or.inr hread)
      | some a =>
          simp only [Option.bind_eq_some_iff, Option.pure_def] at hnext
          obtain ⟨pS, -, hnext⟩ := hnext
          exact Option.some.inj hnext ▸ .fetch hpc hread
  · exact Option.some.inj hcreate ▸ .call hpc
  · simp only [Option.bind_eq_bind, Option.bind_eq_some_iff,
      Option.pure_def] at hcreate
    obtain ⟨pS, hget, hnext⟩ := hcreate
    exact Option.some.inj hnext ▸ .store hpc hget
  · cases hcreate

/-- A step of the thread keeps what it has stored. -/
theorem Stored.create {pData : Option Addr} (hstored : s.Stored)
    (hcreate : Created s pData s') : s'.Stored := by
  rw [Stored] at hstored
  cases hcreate with
  | @finish i hpc hend =>
      rw [hpc] at hstored
      intro records hvisits
      rcases hend with hslots | hnull
      · change visits s.registry = some records at hvisits
        rw [visits, hslots, Option.some.injEq] at hvisits
        rw [← hvisits]
        exact fun record hrecord => absurd hrecord List.not_mem_nil
      · exact hstored.visited hnull hvisits
  | fetch hpc hslot =>
      rw [hpc] at hstored
      exact ⟨hstored, hslot⟩
  | @call i a hpc =>
      rw [hpc] at hstored
      refine ⟨?_, hstored.2, List.mem_append_right _ List.mem_cons_self⟩
      intro j hj b hslot
      obtain ⟨pS, hget, hcreated⟩ := hstored.1 j hj b hslot
      exact ⟨pS, hget, List.mem_append_left _ hcreated⟩
  | @store i a value pS hpc hget =>
      rw [hpc] at hstored
      obtain ⟨hto, hslot, hcreated⟩ := hstored
      have hlt := (List.getElem?_eq_some_iff.mp hget).1
      intro j hj b hb
      change s.registry.slots[j]? = some (some b) at hb
      change ∃ pS, (s.registry.objects.set a _)[b]? = some pS ∧ _
      by_cases hsame : b = a
      · subst hsame
        exact ⟨_, List.getElem?_set_self hlt, hcreated⟩
      · rw [List.getElem?_set_ne (Ne.symm hsame)]
        refine hto j ?_ b hb
        -- slot `i` itself points to the record that is stored
        rcases Nat.lt_succ_iff_lt_or_eq.mp hj with hbefore | rfl
        · exact hbefore
        · rw [hslot, Option.some.injEq, Option.some.injEq] at hb
          exact absurd hb.symm hsame

/-- The thread touches neither the main process nor the children, and what it
adds to the trace needs no cause. -/
theorem Created.frame {pData : Option Addr} (hcreate : Created s pData s') :
    s'.main = s.main ∧ s'.copies = s.copies ∧
      ∃ events, s'.trace = s.trace ++ events ∧
        ∀ event ∈ events, ∃ a, event = .created a pData := by
  cases hcreate with
  | call hpc =>
      refine ⟨rfl, rfl, _, rfl, fun event hevent => ?_⟩
      exact ⟨_, List.mem_singleton.mp hevent⟩
  | finish | fetch | store =>
      exact ⟨rfl, rfl, [], (List.append_nil _).symm,
        fun event hevent => absurd hevent List.not_mem_nil⟩

end Steps

end LifeState

/-- An admitted child was one before the step, or the step forks it while the
counter is below the limit. -/
theorem admitted_origin {maxClients : Int} {s s' : MainState} {act : Act}
    (hstep : acceptStep maxClients s act = some s') {child : ChildProc}
    (hchild : child ∈ s'.children)
    (hadmitted : child.admitted maxClients = true) :
    ((∀ cpid, act = .fork cpid → 0 < cpid → cpid ≠ child.pid) ∧
      ∃ old ∈ s.children, old.pid = child.pid ∧
        old.admitted maxClients = true) ∨
    (act = .fork child.pid ∧ 0 < child.pid ∧
      s.curClientCounts < maxClients) := by
  cases act with
  | accept sockfd ip sinPort pipes =>
      refine Or.inl ⟨fun _ hfork => Act.noConfusion hfork, child, ?_, rfl,
        hadmitted⟩
      obtain ⟨-, rfl | rfl⟩ := accept_cases hstep <;> exact hchild
  | fork cpid =>
      obtain ⟨sockfd, pClient, pipes, -, ⟨hneg, rfl⟩ | ⟨hpos, hnew, rfl⟩⟩ :=
        MainState.fork_cases hstep
      · refine Or.inl ⟨?_, child, hchild, rfl, hadmitted⟩
        rintro other hfork hpos
        cases hfork
        exact absurd hpos (Int.lt_asymm hneg)
      · rcases List.mem_append.mp hchild with hold | hlast
        · refine Or.inl ⟨?_, child, hold, rfl, hadmitted⟩
          rintro other hfork -
          cases hfork
          rintro rfl
          exact hnew (List.mem_map_of_mem hold)
        · obtain rfl := List.mem_singleton.mp hlast
          refine Or.inr ⟨rfl, hpos, ?_⟩
          simpa [ChildProc.admitted, ChildProc.overLimit] using hadmitted
  | advance addr =>
      have hsame :=
        (MainState.countBound_advanced (MainState.advance_cases hstep)).1
      rw [hsame] at hchild
      exact Or.inl ⟨fun _ hfork => Act.noConfusion hfork, child, hchild, rfl,
        hadmitted⟩
  | check pid =>
      obtain rfl := check_eq hstep
      obtain ⟨old, hold, rfl⟩ := List.mem_map.mp hchild
      refine Or.inl ⟨fun _ hfork => Act.noConfusion hfork, old, hold, ?_, ?_⟩
      · split <;> simp
      · split at hadmitted
        · rwa [ChildProc.admitted_check] at hadmitted
        · exact hadmitted
  | exit pid =>
      obtain rfl := exit_eq hstep
      obtain ⟨old, hold, rfl⟩ := List.mem_map.mp hchild
      refine Or.inl ⟨fun _ hfork => Act.noConfusion hfork, old, hold, ?_, ?_⟩
      · split <;> simp
      · split at hadmitted
        · cases hadmitted
        · exact hadmitted
  | sigchld rounds =>
      have hsub : s'.children ⊆ s.children := by
        refine MainState.handle_preserves
          (P := fun _ now => now.children ⊆ s.children) ?_
          (fun _ hmem => hmem) hstep
        intro round rest now next hnow hreap child hmem
        rw [MainState.reap_children hreap] at hmem
        exact hnow (List.mem_of_mem_eraseP hmem)
      exact Or.inl ⟨fun _ hfork => Act.noConfusion hfork, child, hsub hchild,
        rfl, hadmitted⟩

namespace LifeState

variable {maxClients : Int} {s s' : LifeState}

/-- Only a successful `fork` makes a copy of the registry. -/
theorem forkCopies_cases (s : LifeState) (main : MainState) (act : Act) :
    (s.forkCopies main act).registry = s.registry ∧
      (s.forkCopies main act).creator = s.creator ∧
      (s.forkCopies main act).main = main ∧
      (((∀ cpid, act = .fork cpid → ¬0 < cpid) ∧
          (s.forkCopies main act).copies = s.copies ∧
          (s.forkCopies main act).trace = s.trace) ∨
        ∃ cpid, act = .fork cpid ∧ 0 < cpid ∧
          (s.forkCopies main act).copies =
            Function.update s.copies cpid s.registry ∧
          (s.forkCopies main act).trace = s.trace ++ [.forked cpid]) := by
  cases act with
  | fork cpid =>
      rw [forkCopies]
      split
      · next hpos => exact ⟨rfl, rfl, rfl, Or.inr ⟨cpid, rfl, hpos, rfl, rfl⟩⟩
      · next hpos =>
          refine ⟨rfl, rfl, rfl, Or.inl ⟨?_, rfl, rfl⟩⟩
          rintro other hfork
          cases hfork
          exact hpos
  | accept _ _ _ _ | advance _ | check _ | exit _ | sigchld _ =>
      exact ⟨rfl, rfl, rfl,
        Or.inl ⟨fun _ hfork => Act.noConfusion hfork, rfl, rfl⟩⟩

theorem LifeInv.main (hinv : s.LifeInv maxClients) {act : Act}
    {main : MainState} (hguard : Prepared maxClients s (.main act))
    (hstep : acceptStep maxClients s.main act = some main) :
    (s.forkCopies main act).LifeInv maxClients := by
  obtain ⟨hcaused, hstored, hcopied⟩ := hinv
  obtain ⟨hregistry, hcreator, hmain, hcases⟩ := forkCopies_cases s main act
  rcases hcases with ⟨hnone, hcopies, htrace⟩ | ⟨cpid, rfl, hpos, hcopies, htrace⟩
  · refine ⟨htrace ▸ hcaused, ?_, ?_⟩
    · exact hstored.extend hregistry hcreator (htrace ▸ List.Subset.refl _)
    · intro child hchild hadmitted
      rw [hmain] at hchild
      rcases admitted_origin hstep hchild hadmitted with
        ⟨-, old, hold, hpid, holdAdmitted⟩ | ⟨hfork, hpos, -⟩
      · have hbefore := hcopied old hold holdAdmitted
        rw [hpid] at hbefore
        exact hbefore.extend (congrFun hcopies _)
          (htrace.trans (List.append_nil _).symm) List.not_mem_nil
      · exact absurd hpos (hnone _ hfork)
  · refine ⟨htrace ▸ hcaused.snoc trivial, ?_, ?_⟩
    · exact hstored.extend hregistry hcreator
        (htrace ▸ List.subset_append_left _ _)
    · intro child hchild hadmitted
      rw [hmain] at hchild
      rcases admitted_origin hstep hchild hadmitted with
        ⟨hother, old, hold, hpid, holdAdmitted⟩ | ⟨hfork, -, hbelow⟩
      · have hbefore := hcopied old hold holdAdmitted
        have hne := hother cpid rfl hpos
        rw [hpid] at hbefore
        refine hbefore.extend ?_ htrace ?_
        · rw [hcopies, Function.update_of_ne hne.symm]
        · rw [List.mem_singleton, LifeEvent.forked.injEq]
          exact hne.symm
      · cases hfork
        refine ⟨s.trace, [], htrace, List.not_mem_nil, ?_⟩
        rw [hcopies, Function.update_self]
        exact fun records hvisits =>
          hstored.prepared (hguard hpos hbelow) hvisits

theorem LifeInv.create (hinv : s.LifeInv maxClients) {pData : Option Addr}
    (hcreate : Created s pData s') : s'.LifeInv maxClients := by
  obtain ⟨hmain, hcopies, events, htrace, hevents⟩ := hcreate.frame
  refine ⟨?_, hinv.stored.create hcreate, ?_⟩
  · rw [htrace]
    refine hinv.caused.append fun done event rest hsplit => ?_
    obtain ⟨a, rfl⟩ := hevents event (hsplit ▸ by simp)
    trivial
  · intro child hchild hadmitted
    rw [hmain] at hchild
    refine (hinv.copied child hchild hadmitted).extend
      (congrFun hcopies _) htrace fun hfork => ?_
    obtain ⟨a, hcreated⟩ := hevents _ hfork
    cases hcreated

/-- Calls in a child or in the main process change the trace only. -/
theorem LifeInv.calls (hinv : s.LifeInv maxClients) {events : List LifeEvent}
    (hcause : ∀ done event rest, events = done ++ event :: rest →
      LifeCause (s.trace ++ done) event)
    (hevents : ∀ pid, .forked pid ∉ events) :
    LifeInv maxClients { s with trace := s.trace ++ events } := by
  refine ⟨hinv.caused.append hcause, ?_, ?_⟩
  · exact hinv.stored.extend rfl rfl (List.subset_append_left _ _)
  · intro child hchild hadmitted
    exact (hinv.copied child hchild hadmitted).extend rfl rfl
      (hevents child.pid)

theorem serves_copied (hinv : s.LifeInv maxClients) {pid : TgPid}
    (hserves : s.serves pid = true) : s.Copied pid := by
  rw [serves, List.any_eq_true] at hserves
  obtain ⟨child, hchild, hserving⟩ := hserves
  rw [Bool.and_eq_true, beq_iff_eq] at hserving
  exact hserving.1 ▸ hinv.copied child hchild
    (child.admitted_of_serving maxClients hserving.2)

/-- A loop over the services of a child whose calls have their causes in the
fork of the child and what happened before it. -/
theorem LifeInv.inChild (hinv : s.LifeInv maxClients) {pid : TgPid}
    {call : TGService → ServiceCall}
    (hcause : ∀ early late a pS, .forked pid ∉ late →
      .created a pS.pGlobalData ∈ early →
      LifeCause (early ++ .forked pid :: late) (.inChild pid a (call pS)))
    (hcalls : s.inChild pid call = some s') : s'.LifeInv maxClients := by
  rw [LifeState.inChild] at hcalls
  split at hcalls
  · next hserves =>
      simp only [Option.bind_eq_bind, Option.bind_eq_some_iff,
        Option.pure_def, Option.some.injEq] at hcalls
      obtain ⟨records, hvisits, rfl⟩ := hcalls
      obtain ⟨early, late, hsplit, hlate, hcreated⟩ :=
        serves_copied hinv hserves
      refine hinv.calls ?_ ?_
      · intro done event rest hevents
        have hmem : event ∈ done ++ event :: rest := by simp
        rw [← hevents] at hmem
        obtain ⟨⟨a, pS⟩, hrecord, rfl⟩ := List.mem_map.mp hmem
        rw [hsplit, List.append_assoc, List.cons_append]
        refine hcause early (late ++ done) a pS ?_
          (hcreated records hvisits _ hrecord)
        rw [List.mem_append]
        rintro (hfork | hfork)
        · exact hlate hfork
        · have hin := List.mem_append_left
            (.inChild pid a (call pS) :: rest) hfork
          rw [← hevents] at hin
          obtain ⟨record, -, hrecord⟩ := List.mem_map.mp hin
          cases hrecord
      · intro other hfork
        obtain ⟨record, -, hrecord⟩ := List.mem_map.mp hfork
        cases hrecord
  · cases hcalls

theorem LifeInv.shutDown (hinv : s.LifeInv maxClients)
    (hguard : Prepared maxClients s .shutDown)
    (hdown : s.shutDown = some s') : s'.LifeInv maxClients := by
  rw [LifeState.shutDown] at hdown
  simp only [Option.bind_eq_bind, Option.bind_eq_some_iff,
    Option.pure_def, Option.some.injEq] at hdown
  obtain ⟨records, hvisits, rfl⟩ := hdown
  rw [Prepared, hvisits, Option.getD_some] at hguard
  refine hinv.calls ?_ ?_
  · intro done event rest hevents
    have hmem : event ∈ done ++ event :: rest := by simp
    rw [← hevents] at hmem
    obtain ⟨⟨a, pS⟩, hrecord, rfl⟩ := List.mem_map.mp hmem
    exact List.mem_append_left _ (hguard (a, pS) hrecord)
  · intro other hfork
    obtain ⟨record, -, hrecord⟩ := List.mem_map.mp hfork
    cases hrecord

theorem LifeInv.step (hinv : s.LifeInv maxClients) {act : LifeAct}
    (hguard : Prepared maxClients s act)
    (hstep : lifeStep maxClients s act = some s') :
    s'.LifeInv maxClients := by
  cases act with
  | main act =>
      rw [lifeStep, Option.map_eq_some_iff] at hstep
      obtain ⟨main, haccept, rfl⟩ := hstep
      exact hinv.main hguard haccept
  | create pData => exact hinv.create (create_cases hstep)
  | init pid =>
      refine hinv.inChild ?_ hstep
      intro early late a pS hlate hcreated
      exact ⟨early, late, pS.pGlobalData, rfl, hlate, hcreated⟩
  | release pid =>
      refine hinv.inChild ?_ hstep
      intro early late a pS _ hcreated
      exact List.mem_append_left _ hcreated
  | shutDown => exact hinv.shutDown hguard hstep

end LifeState

/-- In every run that forks the children it admits after the services have
been prepared, each service function is called after, and with, what it
depends on. -/
theorem lifeMachine_justified (maxClients : Int) (registry : Registry)
    {s : LifeState}
    (hreach : (lifeMachine maxClients registry).GuardedReachable
      (Prepared maxClients) s) : Justified LifeCause s.trace := by
  have hinv : s.LifeInv maxClients := by
    refine hreach.invariant ?_ ?_
    · exact ⟨justified_nil, fun i hi => absurd hi (Nat.not_lt_zero i),
        fun child hchild => absurd hchild List.not_mem_nil⟩
    · exact fun _ _ _ hinv hguard hstep => hinv.step hguard hstep
  exact hinv.caused

namespace ServiceStart

/-- Two services whose functions lie at the addresses 1 to 5 and 6 to 10; the
first has a parameter array. -/
def registry : Registry :=
  ⟨some [some 0, some 1, none], 3, 2,
    [⟨0, none, some 0, 1, 1, 2, 3, 4, 5, none⟩,
      ⟨1, none, none, 0, 6, 7, 8, 9, 10, none⟩],
    [some [some (Bytes.ascii "a")]]⟩

def pipes : Pipes := ⟨(7, 8), (9, 10)⟩

def connect (pid : TgPid) : List LifeAct :=
  [.main (.accept 6 (Bytes.ascii "10.0.0.1") 4000 pipes), .main (.fork pid),
    .main (.check pid)]

/-- Each service is created and its pointer stored. -/
def creation (first second : Option Addr) : List LifeAct :=
  [.create none, .create first, .create none, .create none, .create second,
    .create none, .create none]

/-- `do_create` of both services returns what it got. -/
def orderly : List LifeAct :=
  creation (some 0) none ++ connect 101 ++
    [.init 101, .release 101, .shutDown]

theorem lifeMachine_justified_orderly :
    ∃ s, (lifeMachine 5 registry).run (lifeMachine 5 registry).start orderly =
        some s ∧ s.trace.length = 9 ∧ Justified LifeCause s.trace := by
  have hguard : (lifeMachine 5 registry).Guarded (Prepared 5)
      (lifeMachine 5 registry).start orderly := by decide
  exact ⟨_, rfl, rfl, lifeMachine_justified 5 registry ⟨orderly, hguard, rfl⟩⟩

/-- A client that connects first is forked before its services are created; a
shutdown passes the parameters to `do_destroy` where `do_create` has returned
something else. -/
theorem lifeMachine_unjustified :
    (∃ s, (lifeMachine 5 registry).run (lifeMachine 5 registry).start
        (connect 101 ++ creation (some 7) (some 8) ++
          [.init 101, .release 101]) = some s ∧
      .inChild 101 0 (.init 2 (some 0)) ∈ s.trace ∧
      .inChild 101 0 (.release 4 none) ∈ s.trace ∧
      ¬ Justified LifeCause s.trace) ∧
    ∃ s, (lifeMachine 5 registry).run (lifeMachine 5 registry).start
        (creation (some 7) (some 8) ++ [.shutDown]) = some s ∧
      s.trace = [.created 0 (some 7), .created 1 (some 8),
        .inMain 0 (.destroy 5 (some 0)), .inMain 1 (.destroy 10 none)] ∧
      ¬ Justified LifeCause s.trace := by
  refine ⟨⟨_, rfl, by decide, by decide, fun hjustified => ?_⟩,
    ⟨_, rfl, rfl, fun hjustified => ?_⟩⟩
  · have hcause : LifeEvent.created 0 none ∈ _ := hjustified
      [.forked 101, .created 0 (some 7), .created 1 (some 8),
        .inChild 101 0 (.init 2 (some 0)), .inChild 101 1 (.init 7 none)]
      (.inChild 101 0 (.release 4 none)) _ rfl
    revert hcause
    decide
  · have hcause : LifeEvent.created 0 (some 0) ∈ _ := hjustified
      [.created 0 (some 7), .created 1 (some 8)]
      (.inMain 0 (.destroy 5 (some 0))) _ rfl
    revert hcause
    decide

end ServiceStart

end TgServer
