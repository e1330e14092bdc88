/-
The client table over the runs in which the handler does not come at one of
three moments: for the child that is being added, before its entry is written;
for a client whose slot `appendClient` has already copied; between the read
and the write of the counter.
-/
import TgServer.AcceptLimit

namespace TgServer

open Transition

/-- What the table should be when `do_accept` has returned: one live entry for
each child that is not reaped, nothing else, and the right count. -/
structure TableExact (s : MainState) : Prop where
  live : ∀ {i : Nat} {pC : Bytes.Addr}, s.gClients[i]? = some (some pC) →
    ∃ pClient, s.records pC = some pClient ∧
      pClient.pid ∈ s.children.map ChildProc.pid
  once : ∀ {i j : Nat} {left right : TGClient},
    s.view[i]? = some (some left) → s.view[j]? = some (some right) →
    left.pid = right.pid → i = j
  entered : ∀ child ∈ s.children, ∃ (i : Nat) (pClient : TGClient),
    s.view[i]? = some (some pClient) ∧ pClient.pid = child.pid
  counts : s.curClientCounts = s.children.length

namespace MainState

/-- The record `addClient` is about to enter. -/
def newRecord (s : MainState) : Option Bytes.Addr :=
  match s.pc with
  | .scanning pT _ => some pT
  | .found pT _ => some pT
  | .appending pT => some pT
  | .copying pT _ _ => some pT
  | .freed pT _ => some pT
  | .swapped pT => some pT
  | .grown pT _ => some pT
  | _ => none

/-- The child that is forked and not yet entered in the table. -/
def pending (s : MainState) : Option TgPid :=
  match s.pc with
  | .forked _ _ _ cpid => some cpid
  | .adding pClient => some pClient.pid
  | _ => s.newRecord.bind fun pT => (s.records pT).map TGClient.pid

/-- The handler may reap this child here. -/
def mayReap (s : MainState) (pid : TgPid) : Bool :=
  s.pending != some pid &&
    match s.pc with
    | .copying _ _ copied =>
        (s.view.take copied).all fun slot =>
          !SlotTable.hasKey TGClient.pid pid slot
    | .freed _ _ => false
    | .loaded _ => false
    | _ => true

/-- Reaping this child here releases nothing that the array being filled
already points to. -/
def mayDrop (s : MainState) (pid : TgPid) : Bool :=
  match s.pc with
  | .copying _ _ copied =>
      (s.view.take copied).all fun slot =>
        !SlotTable.hasKey TGClient.pid pid slot
  | .freed _ _ => false
  | _ => true

end MainState

/-- The handler reaps only where that does no harm. -/
def CalmReaping (s : MainState) : Act → Prop
  | .sigchld rounds => ∀ round ∈ rounds, s.mayReap round.pid = true
  | _ => True

instance (s : MainState) (act : Act) : Decidable (CalmReaping s act) :=
  match act with
  | .sigchld rounds => inferInstanceAs
      (Decidable (∀ round ∈ rounds, s.mayReap round.pid = true))
  | .accept _ _ _ _ | .fork _ | .advance _ | .check _ | .exit _ =>
      .isTrue trivial

namespace MainState

/-- What the locals of the parent say about the table. -/
def Located (s : MainState) : Prop :=
  match s.pc with
  | .found _ i => s.gClients[i]? = some none
  | .copying _ ppNew copied => copied ≤ s.clientsArSize ∧
      ppNew = s.gClients.take copied ++
        List.replicate (s.clientsArSize + defaultMaxClients - copied) none
  | .freed _ ppNew =>
      ppNew = s.gClients ++ List.replicate defaultMaxClients none
  | .swapped _ =>
      s.gClients.drop s.clientsArSize = List.replicate defaultMaxClients none
  | .grown _ currentPos => s.gClients[currentPos]? = some none
  | _ => True

/-- The entries are the children that are not reaped, but for the one that is
being added. -/
structure Consistent (s : MainState) : Prop where
  shape : s.Shape
  live : ∀ pC, some pC ∈ s.gClients → s.records pC ≠ none
  newLive : ∀ pT, s.newRecord = some pT → s.records pT ≠ none
  holds : ∃ content, SlotTable.Represents TGClient.pid s.view content ∧
    ∀ pid, (content pid).isSome ↔
      pid ∈ s.children.map ChildProc.pid ∧ s.pending ≠ some pid
  pendingIn : ∀ pid, s.pending = some pid → pid ∈ s.children.map ChildProc.pid
  distinct : (s.children.map ChildProc.pid).Nodup
  counts : s.countBound = s.children.length
  located : s.Located

section Moves

variable {s s' : MainState}

theorem view_getElem? (s : MainState) (i : Nat) :
    s.view[i]? = s.gClients[i]?.map fun slot => slot.bind s.records :=
  List.getElem?_map ..

theorem view_slot {i : Nat} {pC : Bytes.Addr} {pClient : TGClient}
    (hslot : s.gClients[i]? = some (some pC))
    (hrecord : s.records pC = some pClient) :
    s.view[i]? = some (some pClient) := by
  rw [view_getElem?, hslot]
  exact congrArg some hrecord

/-- A record no slot points to does not show. -/
theorem view_update {gClients : List (Option Bytes.Addr)} {pC : Bytes.Addr}
    (hfree : some pC ∉ gClients) (records : Bytes.Addr → Option TGClient)
    (pClient : Option TGClient) :
    gClients.map (fun slot => slot.bind (Function.update records pC pClient)) =
      gClients.map (fun slot => slot.bind records) := by
  apply List.map_congr_left
  intro slot hslot
  cases slot with
  | none => rfl
  | some other =>
      have hne : other ≠ pC := fun heq => hfree (heq ▸ hslot)
      simp [Function.update_of_ne hne]

/-- One more slot is copied. -/
theorem copy_slot {gClients : List (Option Bytes.Addr)} {size copied : Nat}
    {slot : Option Bytes.Addr} (hlength : gClients.length = size)
    (hlt : copied < size) (hslot : gClients[copied]? = some slot) :
    (gClients.take copied ++
        List.replicate (size + defaultMaxClients - copied) none).set copied slot =
      gClients.take (copied + 1) ++
        List.replicate (size + defaultMaxClients - (copied + 1)) none := by
  have hfront : (gClients.take copied).length = copied := by
    rw [List.length_take]
    omega
  have hrest : size + defaultMaxClients - copied =
      size + defaultMaxClients - (copied + 1) + 1 := by omega
  rw [List.set_append_right _ _ (by omega), hfront, Nat.sub_self, hrest,
    List.replicate_succ, List.set_cons_zero, List.take_add_one, hslot,
    List.append_assoc]
  rfl

/-- A step that leaves table, records and children alone. -/
theorem Consistent.moved (hcons : s.Consistent)
    (hslots : s'.gClients = s.gClients) (hrecords : s'.records = s.records)
    (hchildren : s'.children = s.children) (hnew : s'.newRecord = s.newRecord)
    (hpending : s'.pending = s.pending) (hcounts : s'.countBound = s.countBound)
    (hshape : s'.Shape) (hlocated : s'.Located) : s'.Consistent where
  shape := hshape
  live := by rw [hslots, hrecords]; exact hcons.live
  newLive := by rw [hnew, hrecords]; exact hcons.newLive
  holds := by
    rw [view, hslots, hrecords, hchildren, hpending]
    exact hcons.holds
  pendingIn := by rw [hpending, hchildren]; exact hcons.pendingIn
  distinct := hchildren ▸ hcons.distinct
  counts := by rw [hcounts, hchildren]; exact hcons.counts
  located := hlocated

/-- The slot written is empty, and the entry is the missing one. -/
theorem Consistent.insert {pT : Bytes.Addr} {i : Nat} (hcons : s.Consistent)
    (hpc : s.pc = .found pT i ∨ s.pc = .grown pT i)
    (hshape : Shape { s with
      gClients := s.gClients.set i (some pT), pc := .counting }) :
    Consistent { s with
      gClients := s.gClients.set i (some pT), pc := .counting } := by
  have hlocated := hcons.located
  have hfree : s.gClients[i]? = some none := by
    rcases hpc with hpc | hpc <;> simpa only [Located, hpc] using hlocated
  have hnew : s.newRecord = some pT := by
    rcases hpc with hpc | hpc <;> simp [newRecord, hpc]
  have hlive := hcons.newLive pT hnew
  obtain ⟨pClient, hrecord⟩ := Option.ne_none_iff_exists'.mp hlive
  have hpending : s.pending = some pClient.pid := by
    rcases hpc with hpc | hpc <;> simp [pending, newRecord, hpc, hrecord]
  have hbound : s.countBound = s.curClientCounts + 1 := by
    rcases hpc with hpc | hpc <;> simp [countBound, hpc]
  obtain ⟨content, hrep, hcontent⟩ := hcons.holds
  have hmissing : content pClient.pid = none := by
    cases hfound : content pClient.pid with
    | none => rfl
    | some entry =>
        have hin := (hcontent pClient.pid).mp (by simp [hfound])
        exact absurd hpending hin.2
  have hcounts := hcons.counts
  rw [hbound] at hcounts
  refine ⟨hshape, ?_, (fun _ hnone => by cases hnone), ?_,
    (fun _ hnone => by cases hnone), hcons.distinct, hcounts, trivial⟩
  · intro pC hmem
    rcases List.mem_or_eq_of_mem_set hmem with hold | hsame
    · exact hcons.live pC hold
    · exact Option.some.inj hsame ▸ hlive
  · refine ⟨Function.update content pClient.pid (some pClient), ?_, ?_⟩
    · have hview : s.view[i]? = some none := by rw [view_getElem?, hfree]; rfl
      have hset : (s.gClients.set i (some pT)).map
          (fun slot => slot.bind s.records) = s.view.set i (some pClient) := by
        rw [List.map_set, Option.bind_some, hrecord]
        rfl
      rw [view, hset]
      exact hrep.insert hview hmissing
    · intro pid
      by_cases hpid : pid = pClient.pid
      · subst hpid
        simpa [pending, newRecord] using hcons.pendingIn _ hpending
      · rw [Function.update_of_ne hpid, hcontent pid, hpending]
        have hne : pClient.pid ≠ pid := fun heq => hpid heq.symm
        simp [pending, newRecord, hne]

/-- No slot points to the record that `addClient` has just allocated. -/
theorem Consistent.alloc {pClient : TGClient} {addr : Bytes.Addr}
    (hcons : s.Consistent) (hpc : s.pc = .adding pClient)
    (hfresh : s.records addr = none) : Consistent { s with
      records := Function.update s.records addr (some pClient)
      pc := .scanning addr 0 } := by
  have hshape := hcons.shape
  have hcounts := hcons.counts
  rw [Shape, hpc] at hshape
  rw [countBound, hpc] at hcounts
  have hfree : some addr ∉ s.gClients := fun hmem =>
    hcons.live addr hmem hfresh
  have hsame : pending { s with
      records := Function.update s.records addr (some pClient)
      pc := .scanning addr 0 } = s.pending := by
    simp [pending, newRecord, hpc]
  refine ⟨hshape, ?_, ?_, ?_, ?_, hcons.distinct, hcounts, trivial⟩
  · intro pC hmem
    have hne : pC ≠ addr := fun heq => hfree (heq ▸ hmem)
    change Function.update s.records addr (some pClient) pC ≠ none
    rw [Function.update_of_ne hne]
    exact hcons.live pC hmem
  · intro pT hnew
    obtain rfl : addr = pT := Option.some.inj hnew
    change Function.update s.records addr (some pClient) addr ≠ none
    rw [Function.update_self]
    exact Option.some_ne_none pClient
  · rw [hsame, view, view_update hfree]
    exact hcons.holds
  · rw [hsame]
    exact hcons.pendingIn

/-- The new array holds the slots of the old one. -/
theorem Consistent.swap {pT : Bytes.Addr} {ppNew : List (Option Bytes.Addr)}
    (hcons : s.Consistent) (hpc : s.pc = .freed pT ppNew)
    (hswapped : Located { s with gClients := ppNew, pc := .swapped pT }) :
    Consistent { s with gClients := ppNew, pc := .swapped pT } := by
  have hshape := hcons.shape
  have hcounts := hcons.counts
  have hlocated := hcons.located
  rw [Shape, hpc] at hshape
  rw [countBound, hpc] at hcounts
  rw [Located, hpc] at hlocated
  obtain ⟨content, hrep, hcontent⟩ := hcons.holds
  have hsame : pending { s with gClients := ppNew, pc := .swapped pT } =
      s.pending := by
    simp [pending, newRecord, hpc]
  refine ⟨hshape.2, ?_, ?_, ⟨content, ?_, ?_⟩, ?_, hcons.distinct, hcounts,
    hswapped⟩
  · intro pC hmem
    rw [hlocated] at hmem
    rcases List.mem_append.mp hmem with hold | hpad
    · exact hcons.live pC hold
    · cases (List.mem_replicate.mp hpad).2
  · intro pT' hnew
    exact hcons.newLive pT' (by simpa [newRecord, hpc] using hnew)
  · rw [view, hlocated, List.map_append, List.map_replicate]
    exact hrep.grow defaultMaxClients
  · rw [hsame]
    exact hcontent
  · rw [hsame]
    exact hcons.pendingIn

/-- What the locals say stays true with each step of the parent. -/
theorem Located.advanced (hlocated : s.Located) (hshape : s.Shape)
    (hstep : Advanced s s') : s'.Located := by
  rw [Located] at hlocated
  rw [Shape] at hshape
  cases hstep with
  | record _ | alloc _ _ | next _ | full _ | insert _ _ | load _ | write _ =>
      exact trivial
  | free _ _ hslot => exact hslot
  | append _ => exact ⟨Nat.zero_le _, rfl⟩
  | copy hpc hlt hslot =>
      rw [hpc] at hshape hlocated
      obtain ⟨hle, rfl⟩ := hlocated
      exact ⟨hlt, copy_slot hshape.1 hlt hslot⟩
  | @copied pT ppNew copied hpc hle =>
      rw [hpc] at hshape hlocated
      obtain ⟨hge, rfl⟩ := hlocated
      have hall : copied = s.clientsArSize := Nat.le_antisymm hge hle
      rw [Located, List.take_of_length_le (by omega), hall,
        Nat.add_sub_cancel_left]
  | swap hpc =>
      rw [hpc] at hshape hlocated
      obtain rfl := hlocated
      exact List.drop_left' hshape.1
  | grow hpc =>
      rw [hpc] at hlocated
      have hslot : (s.gClients.drop s.clientsArSize)[0]? = some none := by
        rw [hlocated]
        rfl
      rw [List.getElem?_drop, Nat.add_zero] at hslot
      exact hslot

/-- Each step of the parent keeps the table consistent. -/
theorem Consistent.advanced (hcons : s.Consistent) (hstep : Advanced s s') :
    s'.Consistent := by
  have hshape := hcons.shape.advanced hstep
  have hcounts := (countBound_advanced hstep).2
  have hlocated := hcons.located.advanced hcons.shape hstep
  cases hstep with
  | record hpc | free hpc _ _ | next hpc | full hpc | append hpc
  | copy hpc _ _ | copied hpc _ | grow hpc | load hpc | write hpc =>
      refine hcons.moved rfl rfl rfl ?_ ?_ hcounts hshape hlocated <;>
        simp [newRecord, pending, setPipe, hpc]
  | alloc hpc hfresh => exact hcons.alloc hpc hfresh
  | insert hpc _ => exact hcons.insert hpc hshape
  | swap hpc => exact hcons.swap hpc hlocated

end Moves

section Reaping

variable {s s' : MainState} {round : Reaped} {pid : TgPid}

theorem mayReap_iff : s.mayReap pid = true ↔ s.pending ≠ some pid ∧
    s.mayDrop pid = true ∧ ∀ counts, s.pc ≠ .loaded counts := by
  rw [mayReap, mayDrop, Bool.and_eq_true, bne_iff_ne]
  cases s.pc <;> simp

theorem mayDrop_ne_freed (hmay : s.mayDrop pid = true)
    (pT : Bytes.Addr) (ppNew : List (Option Bytes.Addr)) :
    s.pc ≠ .freed pT ppNew := by
  intro heq
  simp [mayDrop, heq] at hmay

/-- The slot of a client that may be reaped is not copied yet. -/
theorem mayDrop_behind {i : Nat} {pC : Bytes.Addr} {pClient : TGClient}
    (hmay : s.mayDrop pid = true) (hslot : s.gClients[i]? = some (some pC))
    (hrecord : s.records pC = some pClient) (hpid : pClient.pid = pid)
    {pT : Bytes.Addr} {ppNew : List (Option Bytes.Addr)} {copied : Nat}
    (hpc : s.pc = .copying pT ppNew copied) : copied ≤ i := by
  by_contra hlt
  have hcopied : some pClient ∈ s.view.take copied := by
    refine List.mem_of_getElem? (?_ : (s.view.take copied)[i]? = _)
    rw [List.getElem?_take_of_lt (Nat.lt_of_not_le hlt)]
    exact view_slot hslot hrecord
  simp only [mayDrop, hpc, List.all_eq_true] at hmay
  simpa [SlotTable.hasKey, hpid] using hmay (some pClient) hcopied

/-- With distinct pids, reaping a child erases its pid. -/
theorem pids_eraseP {children : List ChildProc}
    (hdistinct : (children.map ChildProc.pid).Nodup)
    (hzombie : ∃ child ∈ children, isZombie pid child = true) :
    (children.eraseP (isZombie pid)).map ChildProc.pid =
      (children.map ChildProc.pid).erase pid := by
  induction children with
  | nil => rfl
  | cons child rest ih =>
      rw [List.map_cons, List.nodup_cons] at hdistinct
      by_cases hhead : isZombie pid child = true
      · have hpid : child.pid = pid := by
          rw [isZombie, Bool.and_eq_true, beq_iff_eq] at hhead
          exact hhead.1
        rw [List.eraseP_cons_of_pos hhead, List.map_cons, hpid,
          List.erase_cons_head]
      · obtain ⟨other, hmem, hother⟩ := hzombie
        have hrest : other ∈ rest := by
          rcases List.mem_cons.mp hmem with rfl | hrest
          · exact absurd hother hhead
          · exact hrest
        have hpid : other.pid = pid := by
          rw [isZombie, Bool.and_eq_true, beq_iff_eq] at hother
          exact hother.1
        have hne : child.pid ≠ pid := fun heq =>
          hdistinct.1 (heq ▸ hpid ▸ List.mem_map_of_mem hrest)
        rw [List.eraseP_cons_of_neg hhead, List.map_cons, List.map_cons,
          List.erase_cons_tail (by simpa using hne),
          ih hdistinct.2 ⟨other, hrest, hother⟩]

/-- The slots behind `clients_ar_size` are empty. -/
theorem slot_lt (hshape : s.Shape) (hlocated : s.Located) {i : Nat}
    {pC : Bytes.Addr} (hslot : s.gClients[i]? = some (some pC)) :
    i < s.clientsArSize := by
  have hlt := (List.getElem?_eq_some_iff.mp hslot).1
  rw [Shape] at hshape
  rw [Located] at hlocated
  by_contra hge
  cases hpc : s.pc with
  | swapped pT =>
      rw [hpc] at hlocated
      have hbehind : (s.gClients.drop s.clientsArSize)[i - s.clientsArSize]? =
          some (some pC) := by
        rw [List.getElem?_drop, Nat.add_sub_cancel' (Nat.le_of_not_lt hge)]
        exact hslot
      rw [hlocated] at hbehind
      cases (List.mem_replicate.mp (List.mem_of_getElem? hbehind)).2
  | found _ _ | copying _ _ _ | freed _ _ | grown _ _ =>
      rw [hpc] at hshape
      have hlength := hshape.1
      omega
  | select | accepted _ _ _ | forked _ _ _ _ | adding _ | scanning _ _
  | appending _ | counting | loaded _ =>
      rw [hpc] at hshape
      dsimp only at hshape
      omega

/-- Child and entry are gone. -/
def without (s : MainState) (pid : TgPid) (i : Nat) (pC : Bytes.Addr)
    (pClient : TGClient) : MainState :=
  { s with
    children := s.children.eraseP (isZombie pid)
    gClients := s.gClients.set i none
    records := Function.update s.records pC none
    curClientCounts := s.curClientCounts - 1
    fdCalls := s.fdCalls ++ releaseClient pClient }

/-- With an array to read, the handler finds no client or drops one. -/
theorem reap_outcome (hfreed : ∀ pT ppNew, s.pc ≠ .freed pT ppNew)
    (hreap : s.reap round = some s') :
    (s' = { s with children := s.children.eraseP (isZombie round.pid) } ∧
      SlotTable.scan s.gClients (s.isClient round) s.clientsArSize 0 =
        some none) ∨
    ∃ i pC, s.gClients[i]? = some (some pC) ∧
      (s.deref round pC).pid = round.pid ∧
      s' = s.without round.pid i pC (s.deref round pC) := by
  have hread : slotsRead { s with
      children := s.children.eraseP (isZombie round.pid) } round =
      s.gClients := by
    rw [slotsRead]
    split
    · rename_i hpc
      exact absurd hpc (hfreed _ _)
    · rfl
  have hclear : ∀ i, clearSlot { s with
      children := s.children.eraseP (isZombie round.pid) } i =
      s.gClients.set i none := by
    intro i
    rw [clearSlot]
    split
    · rename_i hpc
      exact absurd hpc (hfreed _ _)
    · rfl
  rcases closeClient_cases (reap_cases hreap).2 with
    ⟨hsame, hscan⟩ | ⟨i, pC, hslot, hpid, hdrop⟩
  · rw [hread] at hscan
    exact Or.inl ⟨hsame, hscan⟩
  · rw [hread] at hslot
    rw [dropClient, hclear] at hdrop
    exact Or.inr ⟨i, pC, hslot, hpid, hdrop⟩

/-- The handler finds the entry of the child it has reaped. -/
theorem Consistent.reap_entry (hcons : s.Consistent)
    (hmay : s.mayReap round.pid = true) (hreap : s.reap round = some s') :
    ∃ i pC pClient, s.gClients[i]? = some (some pC) ∧
      s.records pC = some pClient ∧ pClient.pid = round.pid ∧
      s' = s.without round.pid i pC pClient := by
  obtain ⟨hpending, hdrop, -⟩ := mayReap_iff.mp hmay
  have hfreed := mayDrop_ne_freed hdrop
  obtain ⟨⟨child, hchild, hzombie⟩, -⟩ := reap_cases hreap
  rcases reap_outcome hfreed hreap with ⟨-, hscan⟩ | ⟨i, pC, hslot, hpid, rfl⟩
  · -- an entry for the child exists, so the loop cannot miss it
    exfalso
    obtain ⟨content, hrep, hcontent⟩ := hcons.holds
    have hmember : round.pid ∈ s.children.map ChildProc.pid := by
      rw [isZombie, Bool.and_eq_true, beq_iff_eq] at hzombie
      exact hzombie.1 ▸ List.mem_map_of_mem hchild
    obtain ⟨pClient, hfound⟩ := Option.isSome_iff_exists.mp
      ((hcontent round.pid).mpr ⟨hmember, hpending⟩)
    obtain ⟨hpid, i, hview⟩ := hrep.complete hfound
    rw [view_getElem?, Option.map_eq_some_iff] at hview
    obtain ⟨slot, hslot, hbind⟩ := hview
    obtain ⟨pC, rfl, hrecord⟩ := Option.bind_eq_some_iff.mp hbind
    have hlt := slot_lt hcons.shape hcons.located hslot
    obtain ⟨missed, hget, hmiss⟩ := SlotTable.scan_missed hscan
      (Nat.zero_le i) (by rw [Nat.zero_add]; exact hlt)
    obtain rfl := Option.some.inj (hslot.symm.trans hget)
    simp [isClient, deref, hrecord, hpid] at hmiss
  · obtain ⟨pClient, hrecord⟩ := Option.ne_none_iff_exists'.mp
      (hcons.live pC (List.mem_of_getElem? hslot))
    have hderef : s.deref round pC = pClient := by simp [deref, hrecord]
    rw [hderef] at hpid ⊢
    exact ⟨i, pC, pClient, hslot, hrecord, hpid, rfl⟩

/-- The parent's new record is not the one the handler releases. -/
theorem newRecord_ne {pC pT : Bytes.Addr} {pClient : TGClient}
    (hrecord : s.records pC = some pClient)
    (hpending : s.pending ≠ some pClient.pid)
    (hnew : s.newRecord = some pT) : pT ≠ pC := by
  rintro rfl
  apply hpending
  rw [pending]
  split
  · rename_i hpc
    simp [newRecord, hpc] at hnew
  · rename_i hpc
    simp [newRecord, hpc] at hnew
  · rw [hnew, Option.bind_some, hrecord]
    rfl

theorem pending_congr (hpc : s'.pc = s.pc)
    (hrecord : ∀ pT, s.newRecord = some pT → s'.records pT = s.records pT) :
    s'.pending = s.pending := by
  have hnew : s'.newRecord = s.newRecord := by
    rw [newRecord, newRecord, hpc]
  have hpid : (s'.newRecord.bind fun pT => (s'.records pT).map TGClient.pid) =
      s.newRecord.bind fun pT => (s.records pT).map TGClient.pid := by
    rw [hnew]
    cases hrec : s.newRecord with
    | none => rfl
    | some pT => rw [Option.bind_some, Option.bind_some, hrecord pT hrec]
  rw [pending, pending, hpc, hpid]

section Without

variable {i : Nat} {pC : Bytes.Addr} {pClient : TGClient}

theorem countBound_without (hloaded : ∀ counts, s.pc ≠ .loaded counts) :
    (s.without pid i pC pClient).countBound = s.countBound - 1 := by
  cases hpc : s.pc with
  | loaded counts => exact absurd hpc (hloaded counts)
  | select | accepted _ _ _ => simp only [countBound, without, hpc]
  | forked _ _ _ _ | adding _ | scanning _ _ | found _ _ | appending _
  | copying _ _ _ | freed _ _ | swapped _ | grown _ _ | counting =>
      simp only [countBound, without, hpc]
      omega

/-- Emptying a slot that is not copied yet keeps what is known. -/
theorem located_without (hlocated : s.Located) (hlt : i < s.clientsArSize)
    (hfreed : ∀ pT ppNew, s.pc ≠ .freed pT ppNew)
    (hcopying : ∀ pT ppNew copied, s.pc = .copying pT ppNew copied →
      copied ≤ i) : (s.without pid i pC pClient).Located := by
  have hset : ∀ j : Nat, s.gClients[j]? = some none →
      (s.gClients.set i none)[j]? = some none := by
    intro j hj
    by_cases hij : i = j
    · subst hij
      exact List.getElem?_set_self (List.getElem?_eq_some_iff.mp hj).1
    · rwa [List.getElem?_set_ne hij]
  rw [Located] at hlocated ⊢
  cases hpc : s.pc with
  | found pT j =>
      rw [hpc] at hlocated
      simpa only [without, hpc] using hset j hlocated
  | copying pT ppNew copied =>
      rw [hpc] at hlocated
      have hge := hcopying pT ppNew copied hpc
      simpa only [without, hpc, List.take_set_of_le hge] using hlocated
  | freed pT ppNew => exact absurd hpc (hfreed pT ppNew)
  | swapped pT =>
      rw [hpc] at hlocated
      simpa only [without, hpc, List.drop_set_of_lt hlt] using hlocated
  | grown pT currentPos =>
      rw [hpc] at hlocated
      simpa only [without, hpc] using hset currentPos hlocated
  | select | accepted _ _ _ | forked _ _ _ _ | adding _ | scanning _ _
  | appending _ | counting | loaded _ => simp only [without, hpc]

theorem view_without (hfree : some pC ∉ s.gClients.set i none) :
    (s.without pid i pC pClient).view = s.view.set i none := by
  change (s.gClients.set i none).map (fun slot => slot.bind
    (Function.update s.records pC none)) = _
  rw [view_update hfree, List.map_set]
  rfl

/-- What the handler may reap, it may still reap when another child is gone. -/
theorem mayDrop_without (hview : (s.without pid i pC pClient).view =
      s.view.set i none) {other : TgPid} (hmay : s.mayDrop other = true) :
    (s.without pid i pC pClient).mayDrop other = true := by
  rw [mayDrop] at hmay ⊢
  rw [hview]
  change (match s.pc with
    | .copying _ _ copied => ((s.view.set i none).take copied).all fun slot =>
        !SlotTable.hasKey TGClient.pid other slot
    | .freed _ _ => false
    | _ => true) = true
  split
  · rename_i heq
    rw [heq] at hmay
    rw [List.all_eq_true] at hmay ⊢
    intro slot hslot
    rw [List.take_set] at hslot
    rcases List.mem_or_eq_of_mem_set hslot with hold | rfl
    · exact hmay slot hold
    · rfl
  · rename_i heq
    rwa [heq] at hmay
  · rfl

end Without

/-- No other slot points to the record that is released. -/
theorem Consistent.points_once {i : Nat} {pC : Bytes.Addr}
    {pClient : TGClient} (hcons : s.Consistent)
    (hslot : s.gClients[i]? = some (some pC))
    (hrecord : s.records pC = some pClient) :
    some pC ∉ s.gClients.set i none := by
  obtain ⟨content, hrep, -⟩ := hcons.holds
  apply SlotTable.notMem_erase
  intro j hj
  exact hrep.unique (view_slot hj hrecord) (view_slot hslot hrecord) rfl

/-- After a round of the handler that does no harm the entry is gone with the
child, and everything else is as it was. -/
theorem Consistent.reap (hcons : s.Consistent)
    (hmay : s.mayReap round.pid = true) (hreap : s.reap round = some s') :
    s'.Consistent ∧ ∀ pid, s.mayReap pid = true → s'.mayReap pid = true := by
  have hshape := hcons.shape.reap hreap
  obtain ⟨hpending, hdrop, hloaded⟩ := mayReap_iff.mp hmay
  obtain ⟨i, pC, pClient, hslot, hrecord, hpid, rfl⟩ :=
    hcons.reap_entry hmay hreap
  obtain ⟨⟨child, hchild, hzombie⟩, -⟩ := reap_cases hreap
  obtain ⟨content, hrep, hcontent⟩ := hcons.holds
  have hviewAt := view_slot hslot hrecord
  have hpids := pids_eraseP hcons.distinct ⟨child, hchild, hzombie⟩
  have hnewNe : ∀ pT, s.newRecord = some pT → pT ≠ pC := fun pT hnew =>
    newRecord_ne hrecord (hpid ▸ hpending) hnew
  have hfree := hcons.points_once hslot hrecord
  have hview : (s.without round.pid i pC pClient).view = s.view.set i none :=
    view_without hfree
  have hsame : (s.without round.pid i pC pClient).pending = s.pending :=
    pending_congr rfl fun pT hnew => Function.update_of_ne (hnewNe pT hnew) ..
  have hbehind : ∀ pT ppNew copied, s.pc = .copying pT ppNew copied →
      copied ≤ i := fun _ _ _ => mayDrop_behind hdrop hslot hrecord hpid
  have hlt := slot_lt hcons.shape hcons.located hslot
  refine ⟨⟨hshape, ?_, ?_, ⟨Function.update content pClient.pid none, ?_, ?_⟩,
    ?_, ?_, ?_, located_without hcons.located hlt (mayDrop_ne_freed hdrop)
      hbehind⟩, ?_⟩
  · intro pC' hmem
    have hne : pC' ≠ pC := fun heq => hfree (heq ▸ hmem)
    change Function.update s.records pC none pC' ≠ none
    rw [Function.update_of_ne hne]
    rcases List.mem_or_eq_of_mem_set hmem with hold | hnone
    · exact hcons.live pC' hold
    · cases hnone
  · intro pT hnew
    change Function.update s.records pC none pT ≠ none
    rw [Function.update_of_ne (hnewNe pT hnew)]
    exact hcons.newLive pT hnew
  · rw [hview]
    exact hrep.erase hviewAt
  · intro pid
    rw [hsame, without, hpids, hcons.distinct.mem_erase_iff, ← hpid]
    by_cases heq : pid = pClient.pid
    · simp [heq]
    · rw [Function.update_of_ne heq, hcontent pid]
      simp [heq]
  · intro pid hpendingPid
    rw [hsame] at hpendingPid
    rw [without, hpids, hcons.distinct.mem_erase_iff]
    refine ⟨?_, hcons.pendingIn pid hpendingPid⟩
    rintro rfl
    exact hpending hpendingPid
  · rw [without, hpids]
    exact hcons.distinct.erase _
  · have hlength := List.length_eraseP_of_mem hchild hzombie
    have hpos := List.length_pos_of_mem hchild
    have hcounts := hcons.counts
    rw [countBound_without hloaded, without, hlength]
    omega
  · intro other hother
    rw [mayReap_iff, hsame] at *
    exact ⟨hother.1, mayDrop_without hview hother.2.1, hother.2.2⟩

end Reaping

section Steps

variable {s s' : MainState}

/-- What children do does not concern the table. -/
theorem Consistent.relabel (hcons : s.Consistent)
    (label : ChildProc → ChildProc)
    (hpid : ∀ child, (label child).pid = child.pid) :
    Consistent { s with children := s.children.map label } := by
  have hpids : (s.children.map label).map ChildProc.pid =
      s.children.map ChildProc.pid := by
    rw [List.map_map]
    exact List.map_congr_left fun child _ => hpid child
  refine ⟨hcons.shape, hcons.live, hcons.newLive, ?_, ?_, ?_, ?_, hcons.located⟩
  · rw [hpids]
    exact hcons.holds
  · rw [hpids]
    exact hcons.pendingIn
  · rw [hpids]
    exact hcons.distinct
  · rw [List.length_map]
    exact hcons.counts

/-- The new child is the one that is missing from the table. -/
theorem Consistent.forked {sockfd : Int} {pClient : TGClient} {pipes : Pipes}
    {cpid : TgPid} (hcons : s.Consistent)
    (hpc : s.pc = .accepted sockfd pClient pipes)
    (hnew : cpid ∉ s.children.map ChildProc.pid) : Consistent { s with
      children := s.children ++ [⟨cpid, s.curClientCounts, .starting⟩]
      pc := .forked sockfd pClient pipes cpid } := by
  have hshape := hcons.shape
  have hcounts := hcons.counts
  rw [Shape, hpc] at hshape
  rw [countBound, hpc] at hcounts
  obtain ⟨content, hrep, hcontent⟩ := hcons.holds
  have hnone : s.pending = none := by simp [pending, newRecord, hpc]
  refine ⟨hshape, hcons.live, (fun _ hnone => by cases hnone),
    ⟨content, hrep, ?_⟩, ?_, ?_, ?_, trivial⟩
  · intro pid
    rw [hcontent pid, hnone]
    change _ ↔ pid ∈ (s.children ++ [_]).map ChildProc.pid ∧
      some cpid ≠ some pid
    rw [List.map_append, List.mem_append, List.map_singleton,
      List.mem_singleton]
    constructor
    · rintro ⟨hmem, -⟩
      refine ⟨Or.inl hmem, fun heq => hnew ?_⟩
      exact Option.some.inj heq ▸ hmem
    · rintro ⟨hmem | rfl, hne⟩
      · exact ⟨hmem, fun heq => by cases heq⟩
      · exact absurd rfl hne
  · intro pid hpid
    obtain rfl : cpid = pid := Option.some.inj hpid
    simp
  · rw [List.map_append, List.map_singleton, List.nodup_append]
    refine ⟨hcons.distinct, by simp, ?_⟩
    intro pid hpid other hother heq
    obtain rfl : other = cpid := List.mem_singleton.mp hother
    exact hnew (heq ▸ hpid)
  · dsimp only at hcounts
    rw [List.length_append, List.length_singleton]
    change s.curClientCounts + 1 = ((s.children.length + 1 : Nat) : Int)
    omega

theorem Consistent.step {maxClients : Int} {act : Act} (hcons : s.Consistent)
    (hcalm : CalmReaping s act)
    (hstep : acceptStep maxClients s act = some s') : s'.Consistent := by
  cases act with
  | accept sockfd ip sinPort pipes =>
      obtain ⟨hpc, rfl | rfl⟩ := accept_cases hstep
      · exact hcons
      · have hshape := hcons.shape
        rw [Shape, hpc] at hshape
        refine hcons.moved rfl rfl rfl ?_ ?_ ?_ hshape trivial <;>
          simp [newRecord, pending, countBound, hpc]
  | fork cpid =>
      obtain ⟨sockfd, pClient, pipes, hpc, ⟨_, rfl⟩ | ⟨_, hnew, rfl⟩⟩ :=
        fork_cases hstep
      · have hshape := hcons.shape
        rw [Shape, hpc] at hshape
        refine hcons.moved rfl rfl rfl ?_ ?_ ?_ hshape trivial <;>
          simp [newRecord, pending, countBound, hpc]
      · exact hcons.forked hpc hnew
  | advance addr => exact hcons.advanced (advance_cases hstep)
  | check pid =>
      obtain rfl := check_eq hstep
      refine hcons.relabel _ fun child => ?_
      split <;> simp
  | exit pid =>
      obtain rfl := exit_eq hstep
      refine hcons.relabel _ fun child => ?_
      split <;> simp
  | sigchld rounds =>
      refine (handle_preserves (P := fun rounds s => s.Consistent ∧
        ∀ round ∈ rounds, s.mayReap round.pid = true) ?_
        ⟨hcons, hcalm⟩ hstep).1
      rintro round rest s s' ⟨hcons, hcalm⟩ hreap
      obtain ⟨hnext, hmay⟩ := hcons.reap (hcalm round List.mem_cons_self) hreap
      exact ⟨hnext, fun other hother =>
        hmay _ (hcalm other (List.mem_cons_of_mem _ hother))⟩

theorem initial_consistent : initial.Consistent where
  shape := List.length_replicate
  live := fun _ hmem => by cases (List.mem_replicate.mp hmem).2
  newLive := fun _ hnew => by cases hnew
  holds := ⟨fun _ => none,
    SlotTable.represents_replicate TGClient.pid defaultMaxClients,
    by simp [initial]⟩
  pendingIn := fun _ hpid => by cases hpid
  distinct := List.nodup_nil
  counts := rfl
  located := trivial

/-- Back at `select` no child is missing and the counter is up to date. -/
theorem Consistent.tableExact (hcons : s.Consistent) (hpc : s.pc = .select) :
    TableExact s := by
  obtain ⟨content, hrep, hcontent⟩ := hcons.holds
  have hnone : s.pending = none := by simp [pending, newRecord, hpc]
  have hcounts := hcons.counts
  rw [countBound, hpc] at hcounts
  refine ⟨?_, hrep.unique, ?_, hcounts⟩
  · intro i pC hslot
    obtain ⟨pClient, hrecord⟩ := Option.ne_none_iff_exists'.mp
      (hcons.live pC (List.mem_of_getElem? hslot))
    have hfound := hrep.sound (view_slot hslot hrecord)
    exact ⟨pClient, hrecord,
      ((hcontent pClient.pid).mp (by rw [hfound]; rfl)).1⟩
  · intro child hchild
    have hmember : (content child.pid).isSome :=
      (hcontent child.pid).mpr
        ⟨List.mem_map_of_mem hchild, by simp [hnone]⟩
    obtain ⟨pClient, hfound⟩ := Option.isSome_iff_exists.mp hmember
    obtain ⟨hpid, i, hview⟩ := hrep.complete hfound
    exact ⟨i, pClient, hview, hpid⟩

end Steps

end MainState

theorem consistent_of_calm {maxClients : Int} {s : MainState}
    (hreach : (acceptMachine maxClients).GuardedReachable CalmReaping s) :
    s.Consistent := by
  refine hreach.invariant ?_ ?_
  · exact MainState.initial_consistent
  · exact fun _ _ _ hcons hcalm hstep => hcons.step hcalm hstep

/-- In a run in which the handler reaps only where that does no harm, the
table is exact whenever the parent is back at `select`. -/
theorem clients_exact_of_calm {maxClients : Int} {s : MainState}
    (hreach : (acceptMachine maxClients).GuardedReachable CalmReaping s)
    (hpc : s.pc = .select) : TableExact s :=
  (consistent_of_calm hreach).tableExact hpc

namespace AcceptTable

def pipes : Pipes := ⟨(7, 8), (9, 10)⟩

/-- `accept` and `fork` for one client. -/
def connect (cpid : TgPid) : List Act :=
  [.accept 6 (Bytes.ascii "10.0.0.1") 4000 pipes, .fork cpid]

/-- The handler reaps one child. -/
def reapOne (pid : TgPid) : Act :=
  .sigchld [⟨pid, fun _ => initClient, fun _ => none⟩]

/-- A client connects, is entered, quits, and is reaped. -/
def quietRun : List Act :=
  connect 101 ++ [.check 101] ++ List.replicate 6 (.advance 1) ++
    [.exit 101, reapOne 101]

/-- A second client is refused and reaped before its entry is written. -/
def earlyRun : List Act :=
  connect 101 ++ [.check 101] ++ List.replicate 6 (.advance 1) ++
    connect 102 ++ [.check 102, reapOne 102] ++ List.replicate 7 (.advance 2)

theorem clients_exact_of_calm_quiet :
    ∃ s, (acceptMachine 1).run .initial quietRun = some s ∧
      s.pc = .select ∧ TableExact s :=
  have hreach : ∃ s, (acceptMachine 1).run .initial quietRun = some s ∧
      s.pc = .select := ⟨_, rfl, rfl⟩
  let ⟨s, hrun, hpc⟩ := hreach
  ⟨s, hrun, hpc, clients_exact_of_calm (show
    (acceptMachine 1).GuardedReachable CalmReaping s from
      ⟨quietRun, by decide, hrun⟩) hpc⟩

/-- The entry of the refused client stays, and it is counted for good. -/
theorem clients_stale :
    ∃ s, (acceptMachine 1).run .initial earlyRun = some s ∧ s.pc = .select ∧
      s.children.map ChildProc.pid = [101] ∧ s.curClientCounts = 2 ∧
      (s.view[1]?.bind id).map TGClient.pid = some 102 ∧ ¬ TableExact s := by
  refine ⟨_, rfl, rfl, rfl, rfl, rfl, fun hexact => ?_⟩
  exact absurd hexact.counts (by decide)

end AcceptTable

end TgServer
