/-
What the main process holds open for its clients: the pipe ends in the records
its slots point to, and the locals of `do_accept`.  The calls of a step of the
parent or of the handler close just what is not held any longer.
-/
import TgServer.AcceptTable

namespace TgServer

open Bytes Transition

/-- The pipe ends of a record. -/
def TGClient.ends (pClient : TGClient) : List Int :=
  [pClient.readPipe, pClient.writePipe]

/-- A record as `do_accept` hands it to `addClient`. -/
structure TGClient.Entered (pClient : TGClient) : Prop where
  sockfd : pClient.sockfd < 0
  readPipe : 0 ≤ pClient.readPipe
  writePipe : 0 ≤ pClient.writePipe

/-- `releaseClient` closes both ends and shuts nothing down. -/
theorem TGClient.Entered.releaseClient {pClient : TGClient}
    (hentered : pClient.Entered) :
    releaseClient pClient = pClient.ends.map FdCall.close := by
  rw [TgServer.releaseClient, if_neg (Int.not_le.mpr hentered.sockfd),
    if_pos hentered.readPipe, if_pos hentered.writePipe]
  rfl

def slotEnds : Option TGClient → List Int
  | none => []
  | some pClient => pClient.ends

namespace MainState

/-- The descriptors only the locals of the parent hold. -/
def localFds (s : MainState) : List Int :=
  match s.pc with
  | .accepted sockfd _ pipes =>
      [sockfd, pipes.fd.1, pipes.fd.2, pipes.fd1.1, pipes.fd1.2]
  | .forked sockfd _ pipes _ =>
      [sockfd, pipes.fd.1, pipes.fd.2, pipes.fd1.1, pipes.fd1.2]
  | .adding pClient => pClient.ends
  | _ => slotEnds (s.newRecord.bind s.records)

def held (s : MainState) : List Int := s.view.flatMap slotEnds ++ s.localFds

/-- What the step closed was held before it, the rest is held behind it. -/
def Frees (s s' : MainState) : Prop :=
  ∃ closed : List Int, s'.fdCalls = s.fdCalls ++ closed.map FdCall.close ∧
    s.held.Perm (closed ++ s'.held)

/-- The record that will be entered is complete up to the socket, which only
the child keeps. -/
def LocalsFit (s : MainState) : Prop :=
  match s.pc with
  | .accepted _ pClient pipes =>
      pClient.sockfd < 0 ∧ 0 ≤ pipes.fd.2 ∧ 0 ≤ pipes.fd1.1
  | .forked _ pClient pipes _ =>
      pClient.sockfd < 0 ∧ 0 ≤ pipes.fd.2 ∧ 0 ≤ pipes.fd1.1
  | .adding pClient => pClient.Entered
  | _ => True

/-- The slots point to different records, all allocated, and none of them to
the record that is being added. -/
structure Pointers (s : MainState) : Prop where
  live : ∀ {pC}, some pC ∈ s.gClients →
    ∃ pClient, s.records pC = some pClient ∧ pClient.Entered
  once : ∀ {i j : Nat} {pC : Addr}, s.gClients[i]? = some (some pC) →
    s.gClients[j]? = some (some pC) → i = j
  new : ∀ {pT}, s.newRecord = some pT → some pT ∉ s.gClients ∧
    ∃ pClient, s.records pT = some pClient ∧ pClient.Entered
  locals : s.LocalsFit

section Frees

variable {s s' s'' : MainState}

theorem Frees.of_held (hcalls : s'.fdCalls = s.fdCalls)
    (hheld : s'.held = s.held) : Frees s s' :=
  ⟨[], by rw [hcalls, List.map_nil, List.append_nil],
    by rw [List.nil_append, hheld]⟩

theorem Frees.trans (hfirst : Frees s s') (hsecond : Frees s' s'') :
    Frees s s'' := by
  obtain ⟨closed, hcalls, hperm⟩ := hfirst
  obtain ⟨more, hmore, hrest⟩ := hsecond
  refine ⟨closed ++ more, ?_, ?_⟩
  · rw [hmore, hcalls, List.map_append, List.append_assoc]
  · rw [List.append_assoc]
    exact hperm.trans (hrest.append_left closed)

end Frees

section Release

variable {s : MainState}

theorem Pointers.deref {pC : Addr} (hptr : s.Pointers)
    (hmem : some pC ∈ s.gClients) (round : Reaped) :
    s.records pC = some (s.deref round pC) ∧
      (s.deref round pC).Entered := by
  obtain ⟨pClient, hrecord, hentered⟩ := hptr.live hmem
  have hderef : s.deref round pC = pClient := by
    rw [MainState.deref, hrecord]
    rfl
  rw [hderef]
  exact ⟨hrecord, hentered⟩

/-- Releasing what some of the slots point to closes the ends they hold. -/
theorem Pointers.releases (hptr : s.Pointers) (stale : Addr → TGClient)
    {slots : List (Option Addr)} (hslots : ∀ slot ∈ slots, slot ∈ s.gClients) :
    (slots.flatMap fun slot => releaseSlot (slot.map fun pC =>
        (s.records pC).getD (stale pC))) =
      ((slots.map fun slot => slot.bind s.records).flatMap slotEnds).map
        FdCall.close := by
  induction slots with
  | nil => rfl
  | cons slot rest ih =>
      have hrest := ih fun other hother =>
        hslots other (List.mem_cons_of_mem _ hother)
      rw [List.flatMap_cons, hrest, List.map_cons, List.flatMap_cons,
        List.map_append]
      cases slot with
      | none => rfl
      | some pC =>
          obtain ⟨pClient, hrecord, hentered⟩ :=
            hptr.live (hslots _ List.mem_cons_self)
          rw [Option.map_some, hrecord, Option.bind_some, hrecord]
          exact congrArg (· ++ _) hentered.releaseClient

end Release

section Drop

variable {s s' : MainState} {i : Nat} {pC : Addr} {pClient : TGClient}

/-- No other slot points to the record. -/
theorem Pointers.not_mem_set (hptr : s.Pointers)
    (hslot : s.gClients[i]? = some (some pC)) :
    some pC ∉ s.gClients.set i none := by
  apply SlotTable.notMem_erase
  exact fun j hj => hptr.once hj hslot

/-- When the record of a slot is released and the slot is emptied, its ends
are what is not held any longer. -/
theorem Pointers.drop (hptr : s.Pointers)
    (hslot : s.gClients[i]? = some (some pC))
    (hrecord : s.records pC = some pClient)
    (hslots : s'.gClients = s.gClients.set i none)
    (hrecords : s'.records = Function.update s.records pC none)
    (hpc : s'.pc = s.pc) :
    s'.Pointers ∧ s.held.Perm (pClient.ends ++ s'.held) := by
  have hfree := hptr.not_mem_set hslot
  have hnew : s'.newRecord = s.newRecord := by
    rw [newRecord, newRecord, hpc]
  have hkept : ∀ pT, s.newRecord = some pT → s'.records pT = s.records pT := by
    intro pT hpT
    have hne : pT ≠ pC := fun heq =>
      (hptr.new hpT).1 (heq ▸ List.mem_of_getElem? hslot)
    rw [hrecords, Function.update_of_ne hne]
  constructor
  · refine ⟨?_, ?_, ?_, ?_⟩
    · intro other hother
      rw [hslots] at hother
      have hne : other ≠ pC := fun heq => hfree (heq ▸ hother)
      rw [hrecords, Function.update_of_ne hne]
      rcases List.mem_or_eq_of_mem_set hother with hold | hnone
      · exact hptr.live hold
      · cases hnone
    · intro j k other hj hk
      have hback : ∀ {m : Nat}, s'.gClients[m]? = some (some other) →
          s.gClients[m]? = some (some other) := by
        intro m hm
        rw [hslots] at hm
        by_cases him : i = m
        · subst him
          rw [List.getElem?_set_self
            (List.getElem?_eq_some_iff.mp hslot).1] at hm
          cases hm
        · rwa [List.getElem?_set_ne him] at hm
      exact hptr.once (hback hj) (hback hk)
    · intro pT hpT
      rw [hnew] at hpT
      obtain ⟨hout, hentered⟩ := hptr.new hpT
      rw [hkept pT hpT, hslots]
      refine ⟨fun hmem => ?_, hentered⟩
      rcases List.mem_or_eq_of_mem_set hmem with hold | hnone
      · exact hout hold
      · cases hnone
    · rw [LocalsFit, hpc]
      exact hptr.locals
  · have hview : s'.view = s.view.set i none := by
      rw [view, hslots, hrecords, view_update hfree, List.map_set]
      rfl
    have hlocals : s'.localFds = s.localFds := by
      have hbind : s'.newRecord.bind s'.records =
          s.newRecord.bind s.records := by
        rw [hnew]
        cases hpT : s.newRecord with
        | none => rfl
        | some pT => exact hkept pT hpT
      rw [localFds, localFds, hpc, hbind]
    rw [held, held, hview, hlocals, ← List.append_assoc]
    exact (SlotTable.flatMap_erase (f := slotEnds) rfl
      (view_slot hslot hrecord)).append_right _

end Drop

section Steps

variable {s s' : MainState}

/-- A step that leaves table and records alone, and keeps the new record. -/
theorem Pointers.moved (hptr : s.Pointers) (hslots : s'.gClients = s.gClients)
    (hrecords : s'.records = s.records) (hnew : s'.newRecord = s.newRecord)
    (hlocals : s'.LocalsFit) : s'.Pointers where
  live := by rw [hslots, hrecords]; exact hptr.live
  once := by rw [hslots]; exact hptr.once
  new := by rw [hslots, hrecords, hnew]; exact hptr.new
  locals := hlocals

/-- A connection adds its socket and its four pipe ends. -/
theorem Pointers.accept (hptr : s.Pointers) (hpc : s.pc = .select)
    (sockfd sinPort : Int) (ip : List Byte) {pipes : Pipes}
    (hwrite : 0 ≤ pipes.fd.2) (hread : 0 ≤ pipes.fd1.1) :
    Pointers { s with
      pc := .accepted sockfd (setClient initClient ip sinPort) pipes } ∧
    held { s with
      pc := .accepted sockfd (setClient initClient ip sinPort) pipes } =
        s.held ++
          [sockfd, pipes.fd.1, pipes.fd.2, pipes.fd1.1, pipes.fd1.2] := by
  constructor
  · have hsock : (-1 : Int) < 0 := by decide
    refine hptr.moved rfl rfl ?_ ⟨hsock, hwrite, hread⟩
    simp [newRecord, hpc]
  · simp [held, view, localFds, newRecord, slotEnds, hpc]

/-- What the process holds before `fork`: what the child closes first, and
what it keeps. -/
theorem held_accepted {sockfd : Int} {pClient : TGClient} {pipes : Pipes}
    (hpc : s.pc = .accepted sockfd pClient pipes) :
    (([pipes.fd1.1, pipes.fd.2] ++ s.view.flatMap slotEnds) ++
      [sockfd, pipes.fd.1, pipes.fd1.2]).Perm s.held := by
  have hends : ([pipes.fd1.1, pipes.fd.2] ++ [sockfd, pipes.fd.1] ++
      [pipes.fd1.2]).Perm
      [sockfd, pipes.fd.1, pipes.fd.2, pipes.fd1.1, pipes.fd1.2] :=
    (List.perm_append_comm.append_right _).trans
      (.cons _ (.cons _ (.swap ..)))
  rw [held, localFds, hpc]
  refine (List.perm_append_comm.append_right _).trans ?_
  rw [List.append_assoc]
  exact hends.append_left _

/-- Without a child the connection is forgotten. -/
theorem Pointers.unforked {sockfd : Int} {pClient : TGClient} {pipes : Pipes}
    (hptr : s.Pointers) (hpc : s.pc = .accepted sockfd pClient pipes) :
    Pointers { s with pc := .select } ∧ s.held.Perm
      ([sockfd, pipes.fd.1, pipes.fd.2, pipes.fd1.1, pipes.fd1.2] ++
        held { s with pc := .select }) := by
  constructor
  · refine hptr.moved rfl rfl ?_ trivial
    simp [newRecord, hpc]
  · rw [held, held, localFds, localFds, hpc]
    refine List.perm_append_comm.trans (List.Perm.append_left _ ?_)
    simp [view, newRecord, slotEnds]

theorem Pointers.forked {sockfd : Int} {pClient : TGClient} {pipes : Pipes}
    (hptr : s.Pointers) (hpc : s.pc = .accepted sockfd pClient pipes)
    (children : List ChildProc) (cpid : TgPid) :
    Pointers { s with
      children := children, pc := .forked sockfd pClient pipes cpid } ∧
    held { s with
      children := children, pc := .forked sockfd pClient pipes cpid } =
        s.held := by
  have hlocals := hptr.locals
  rw [LocalsFit, hpc] at hlocals
  constructor
  · refine hptr.moved rfl rfl ?_ hlocals
    simp [newRecord, hpc]
  · simp [held, view, localFds, hpc]

/-- The parent closes what only the child needs. -/
theorem Pointers.record {sockfd : Int} {pClient : TGClient} {pipes : Pipes}
    {cpid : TgPid} (hptr : s.Pointers)
    (hpc : s.pc = .forked sockfd pClient pipes cpid) (calls : List FdCall) :
    Pointers { s with
      fdCalls := calls
      pc := .adding
        (setPipe { pClient with pid := cpid } pipes.fd1.1 pipes.fd.2) } ∧
    s.held.Perm ([sockfd, pipes.fd1.2, pipes.fd.1] ++ held { s with
      fdCalls := calls
      pc := .adding
        (setPipe { pClient with pid := cpid } pipes.fd1.1 pipes.fd.2) }) := by
  have hlocals := hptr.locals
  rw [LocalsFit, hpc] at hlocals
  obtain ⟨hsock, hwrite, hread⟩ := hlocals
  have hset : setPipe { pClient with pid := cpid } pipes.fd1.1 pipes.fd.2 =
      { pClient with
        pid := cpid, readPipe := pipes.fd1.1, writePipe := pipes.fd.2 } := by
    rw [setPipe, if_pos (by omega), if_pos (by omega)]
  rw [hset]
  constructor
  · refine hptr.moved rfl rfl ?_ ⟨hsock, hread, hwrite⟩
    simp [newRecord, hpc]
  · have hends : s.localFds.Perm ([sockfd, pipes.fd1.2, pipes.fd.1] ++
        [pipes.fd1.1, pipes.fd.2]) := by
      rw [localFds, hpc]
      refine .cons _ ?_
      have hlast : ([pipes.fd.1, pipes.fd.2, pipes.fd1.1] ++
          [pipes.fd1.2]).Perm
          ([pipes.fd1.2] ++ [pipes.fd.1, pipes.fd.2, pipes.fd1.1]) :=
        List.perm_append_comm
      exact hlast.trans (.cons _ (.cons _ (.swap ..)))
    exact (hends.append_left _).trans (List.perm_append_comm_assoc ..)

theorem Pointers.alloc {pClient : TGClient} {addr : Addr} (hptr : s.Pointers)
    (hpc : s.pc = .adding pClient) (hfresh : s.records addr = none) :
    Pointers { s with
      records := Function.update s.records addr (some pClient)
      pc := .scanning addr 0 } ∧
    held { s with
      records := Function.update s.records addr (some pClient)
      pc := .scanning addr 0 } = s.held := by
  have hentered := hptr.locals
  rw [LocalsFit, hpc] at hentered
  have hout : some addr ∉ s.gClients := by
    intro hmem
    obtain ⟨other, hother, -⟩ := hptr.live hmem
    rw [hfresh] at hother
    cases hother
  refine ⟨⟨?_, hptr.once, ?_, trivial⟩, ?_⟩
  · intro pC hmem
    have hne : pC ≠ addr := fun heq => hout (heq ▸ hmem)
    change ∃ other, Function.update s.records addr (some pClient) pC =
      some other ∧ other.Entered
    rw [Function.update_of_ne hne]
    exact hptr.live hmem
  · intro pT hpT
    obtain rfl : addr = pT := Option.some.inj hpT
    exact ⟨hout, pClient, Function.update_self .., hentered⟩
  · rw [held, held, view, view_update hout, localFds, localFds, hpc]
    simp [newRecord, slotEnds]
    rfl

/-- The slot that is written is empty. -/
theorem Pointers.insert {pT : Addr} {i : Nat} (hptr : s.Pointers)
    (hlocated : s.Located) (hpc : s.pc = .found pT i ∨ s.pc = .grown pT i) :
    Pointers { s with
      gClients := s.gClients.set i (some pT), pc := .counting } ∧
    s.held.Perm (held { s with
      gClients := s.gClients.set i (some pT), pc := .counting }) := by
  have hfree : s.gClients[i]? = some none := by
    rcases hpc with hpc | hpc <;> simpa only [Located, hpc] using hlocated
  have hnew : s.newRecord = some pT := by
    rcases hpc with hpc | hpc <;> simp [newRecord, hpc]
  have hlocals : s.localFds = slotEnds (s.records pT) := by
    rcases hpc with hpc | hpc <;> simp [localFds, newRecord, hpc]
  obtain ⟨hout, hentered⟩ := hptr.new hnew
  have hat : ∀ {j : Nat} {pC : Addr},
      (s.gClients.set i (some pT))[j]? = some (some pC) →
      (j = i ∧ pC = pT) ∨ s.gClients[j]? = some (some pC) := by
    intro j pC hj
    rcases SlotTable.set_cases hj with ⟨hji, hsame⟩ | ⟨-, hold⟩
    · exact Or.inl ⟨hji, Option.some.inj hsame⟩
    · exact Or.inr hold
  refine ⟨⟨?_, ?_, (fun hnone => by cases hnone), trivial⟩, ?_⟩
  · intro pC hmem
    rcases List.mem_or_eq_of_mem_set hmem with hold | hsame
    · exact hptr.live hold
    · exact Option.some.inj hsame ▸ hentered
  · intro j k pC hj hk
    rcases hat hj with ⟨hji, hnew⟩ | hj <;> rcases hat hk with ⟨hki, hnew⟩ | hk
    · rw [hji, hki]
    · exact absurd (hnew ▸ List.mem_of_getElem? hk) hout
    · exact absurd (hnew ▸ List.mem_of_getElem? hj) hout
    · exact hptr.once hj hk
  · have hview : s.view[i]? = some none := by rw [view_getElem?, hfree]; rfl
    have hfill : view { s with
        gClients := s.gClients.set i (some pT), pc := .counting } =
        s.view.set i (s.records pT) := by
      rw [view, List.map_set]
      rfl
    rw [held, held, hlocals, hfill]
    have hperm := SlotTable.flatMap_fill (f := slotEnds) rfl hview
      (s.records pT)
    exact (hperm.trans List.perm_append_comm).symm.trans
      (by simp [localFds, newRecord, slotEnds])

/-- The slots added to the array are empty. -/
theorem Pointers.swap {pT : Addr} {n : Nat} (hptr : s.Pointers)
    (hpc : s.pc = .freed pT (s.gClients ++ List.replicate n none)) :
    Pointers { s with
      gClients := s.gClients ++ List.replicate n none, pc := .swapped pT } ∧
    Frees s { s with
      gClients := s.gClients ++ List.replicate n none, pc := .swapped pT } := by
  have hback : ∀ {pC : Addr}, some pC ∈ s.gClients ++ List.replicate n none →
      some pC ∈ s.gClients := by
    intro pC hmem
    rcases List.mem_append.mp hmem with hold | hpad
    · exact hold
    · cases (List.mem_replicate.mp hpad).2
  have hbackAt : ∀ {j : Nat} {pC : Addr},
      (s.gClients ++ List.replicate n none)[j]? = some (some pC) →
      s.gClients[j]? = some (some pC) := by
    intro j pC hj
    rcases Nat.lt_or_ge j s.gClients.length with hlt | hge
    · rwa [List.getElem?_append_left hlt] at hj
    · rw [List.getElem?_append_right hge] at hj
      cases (List.mem_replicate.mp (List.mem_of_getElem? hj)).2
  constructor
  · refine ⟨fun hmem => hptr.live (hback hmem),
      fun hj hk => hptr.once (hbackAt hj) (hbackAt hk), ?_, trivial⟩
    intro pT' hpT
    obtain ⟨hout, hentered⟩ := hptr.new (by simpa [newRecord, hpc] using hpT)
    exact ⟨fun hmem => hout (hback hmem), hentered⟩
  · refine .of_held rfl ?_
    simp [held, view, localFds, newRecord, hpc, slotEnds]

/-- Each step of the parent. -/
theorem Pointers.advanced (hptr : s.Pointers) (hlocated : s.Located)
    (hstep : Advanced s s') : s'.Pointers ∧ Frees s s' := by
  cases hstep with
  | record hpc =>
      obtain ⟨hnext, hperm⟩ := hptr.record hpc _
      exact ⟨hnext, _, rfl, hperm⟩
  | alloc hpc hfresh =>
      obtain ⟨hnext, hheld⟩ := hptr.alloc hpc hfresh
      exact ⟨hnext, .of_held rfl hheld⟩
  | insert hpc _ =>
      obtain ⟨hnext, hperm⟩ := hptr.insert hlocated hpc
      exact ⟨hnext, [], (List.append_nil _).symm, hperm⟩
  | free hpc _ _ | next hpc | full hpc | append hpc | copy hpc _ _
  | copied hpc _ | grow hpc | load hpc | write hpc =>
      refine ⟨hptr.moved rfl rfl ?_ trivial, .of_held rfl ?_⟩ <;>
        simp [held, view, localFds, newRecord, hpc]
  | @swap pT ppNew hpc =>
      rw [Located, hpc] at hlocated
      obtain rfl := hlocated
      exact hptr.swap hpc

end Steps

/-- `g_clients` points to an array. -/
def readable (s : MainState) : Bool :=
  match s.pc with
  | .freed _ _ => false
  | _ => true

section Handler

variable {s s' : MainState} {round : Reaped} {rounds : List Reaped}

theorem readable_iff :
    s.readable = true ↔ ∀ pT ppNew, s.pc ≠ .freed pT ppNew := by
  rw [readable]
  cases s.pc <;> simp

theorem readable_of_mayDrop {pid : TgPid} (hmay : s.mayDrop pid = true) :
    s.readable = true :=
  readable_iff.mpr (mayDrop_ne_freed hmay)

/-- A round of the handler closes the ends of the record it releases. -/
theorem Pointers.reap (hptr : s.Pointers) (hread : s.readable = true)
    (hreap : s.reap round = some s') : s'.Pointers ∧ Frees s s' := by
  rcases reap_outcome (readable_iff.mp hread) hreap with
    ⟨rfl, -⟩ | ⟨i, pC, hslot, -, rfl⟩
  · exact ⟨hptr.moved rfl rfl rfl hptr.locals, .of_held rfl rfl⟩
  · obtain ⟨hrecord, hentered⟩ :=
      hptr.deref (List.mem_of_getElem? hslot) round
    have hdrop : (s.without round.pid i pC (s.deref round pC)).Pointers ∧ _ :=
      hptr.drop hslot hrecord rfl rfl rfl
    refine ⟨hdrop.1, _, ?_, hdrop.2⟩
    rw [← hentered.releaseClient]
    rfl

theorem Pointers.handle (hptr : s.Pointers)
    (hread : ∀ round ∈ rounds, s.readable = true)
    (hhandle : handleChildQuitSignal rounds s = some s') :
    s'.Pointers ∧ Frees s s' := by
  have hlast := handle_preserves (P := fun rounds mid =>
    (mid.Pointers ∧ Frees s mid) ∧ ∀ round ∈ rounds, mid.readable = true)
    ?_ ⟨⟨hptr, .of_held rfl rfl⟩, hread⟩ hhandle
  · exact hlast.1
  rintro round rest mid next ⟨⟨hptr, hfrees⟩, hread⟩ hreap
  obtain ⟨hnext, hmore⟩ := hptr.reap (hread round List.mem_cons_self) hreap
  refine ⟨⟨hnext, hfrees.trans hmore⟩, fun other hother => ?_⟩
  have hstill := hread other (List.mem_cons_of_mem _ hother)
  rwa [readable, reap_pc hreap]

/-- Any rounds of the handler. -/
theorem Pointers.reaps (hptr : s.Pointers)
    (hread : rounds = [] ∨ s.readable = true)
    (hreaps : rounds.foldlM MainState.reap s = some s') :
    s'.Pointers ∧ Frees s s' ∧ s'.pc = s.pc := by
  have hlast := foldlM_preserves (P := fun rounds mid =>
    (mid.Pointers ∧ Frees s mid ∧ mid.pc = s.pc) ∧
      (rounds = [] ∨ mid.readable = true))
    ?_ ⟨⟨hptr, .of_held rfl rfl, rfl⟩, hread⟩ hreaps
  · exact hlast.1
  rintro round rest mid next ⟨⟨hptr, hfrees, hpc⟩, hread⟩ hreap
  have hstill := hread.resolve_left (List.cons_ne_nil _ _)
  obtain ⟨hnext, hmore⟩ := hptr.reap hstill hreap
  have hsame := reap_pc hreap
  refine ⟨⟨hnext, hfrees.trans hmore, hsame.trans hpc⟩, Or.inr ?_⟩
  rwa [readable, hsame]

theorem handle_pc (hhandle : handleChildQuitSignal rounds s = some s') :
    s'.pc = s.pc :=
  handle_preserves (P := fun _ mid => mid.pc = s.pc)
    (fun _ _ _ _ hpc hreap => (reap_pc hreap).trans hpc) rfl hhandle

/-- The array being filled still agrees with the old one when a client that
may be reaped is gone. -/
theorem Located.reap (hlocated : s.Located) (hshape : s.Shape)
    (hptr : s.Pointers) (hmay : s.mayDrop round.pid = true)
    (hreap : s.reap round = some s') :
    s'.Located ∧ ∀ pid, s.mayDrop pid = true → s'.mayDrop pid = true := by
  rcases reap_outcome (mayDrop_ne_freed hmay) hreap with
    ⟨rfl, -⟩ | ⟨i, pC, hslot, hpid, rfl⟩
  · exact ⟨hlocated, fun _ hother => hother⟩
  · obtain ⟨hrecord, -⟩ := hptr.deref (List.mem_of_getElem? hslot) round
    constructor
    · exact located_without hlocated (slot_lt hshape hlocated hslot)
        (mayDrop_ne_freed hmay)
        fun _ _ _ => mayDrop_behind hmay hslot hrecord hpid
    · exact fun _ => mayDrop_without (view_without (hptr.not_mem_set hslot))

theorem Located.handle (hlocated : s.Located) (hshape : s.Shape)
    (hptr : s.Pointers) (hmay : ∀ round ∈ rounds, s.mayDrop round.pid = true)
    (hhandle : handleChildQuitSignal rounds s = some s') :
    s'.Located ∧ s'.Shape := by
  have hlast := handle_preserves (P := fun rounds mid =>
    (mid.Located ∧ mid.Shape) ∧ mid.Pointers ∧
      ∀ round ∈ rounds, mid.mayDrop round.pid = true)
    ?_ ⟨⟨hlocated, hshape⟩, hptr, hmay⟩ hhandle
  · exact hlast.1
  rintro round rest mid next ⟨⟨hlocated, hshape⟩, hptr, hmay⟩ hreap
  have hfirst := hmay round List.mem_cons_self
  obtain ⟨hnext, hstill⟩ := hlocated.reap hshape hptr hfirst hreap
  exact ⟨⟨hnext, hshape.reap hreap⟩,
    (hptr.reap (readable_of_mayDrop hfirst) hreap).1,
    fun other hother => hstill _ (hmay other (List.mem_cons_of_mem _ hother))⟩

end Handler

theorem initial_pointers : initial.Pointers where
  live := fun hmem => by cases (List.mem_replicate.mp hmem).2
  once := fun hi _ => by
    cases (List.mem_replicate.mp (List.mem_of_getElem? hi)).2
  new := fun hnew => by cases hnew
  locals := trivial

end MainState

end TgServer
