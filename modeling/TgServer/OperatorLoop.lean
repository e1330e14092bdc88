/-
The administrator reads a process id off the listing and sends it back in a
close command: whatever happened in between, the order goes to the client that
was listed under it, if that client is still there, and to no other.
-/
import TgServer.ClientRecord
import TgServer.MainProcess

namespace TgServer

open Bytes ByteStream Transition

namespace MainProcess

/-- A write to a pipe with a reader is accepted. -/
theorem perform_write {w : SendWorld} {s : MainProcess}
    (halive : s.alive = true) {fd : Int} (hreader : w.pipe fd = .reader)
    (octets : List Byte) :
    perform w s (.write fd octets) = some (s.append [(fd, octets)]) := by
  rw [perform, if_pos halive, write, hreader]

section Step

variable (inherited : SigNo → Disposition) {readFifo : Descriptor Nat}
variable (stack : Nat → List Byte) {s : MainProcess}

/-- The process is in the loop of `startListen`. -/
structure Listening (s : MainProcess) : Prop where
  alive : s.alive = true
  up : s.down = false

variable (hlisten : s.Listening) (pipe : Int → PipeEnd) {outFd : Int}
variable (hapart : s.Apart outFd)

include hlisten hapart

/-- A read that returns one request performs that request. -/
theorem step_request {order : AdminOrder} {offset : Nat}
    (hread : readFifo s.offset adminBufSize = (.data order.octets, offset))
    (hterminated : order.Terminated (stack s.offset)) {req : AdminRequest}
    (hreq : order.command = .request req) {effects : List AdminEffect}
    (hperform : performRequest s.globals outFd req = some effects) :
    s.step inherited readFifo stack (.admin pipe outFd) =
      effects.foldlM (perform ⟨startListenSignals inherited, pipe⟩)
        { s with
          offset := offset
          demands := s.demands ++ [.command (.request req)] } := by
  have hcommand : adminCommand order.octets (stack s.offset) =
      some (.request req) := by
    rw [(adminCommand_octets_iff order _).mpr hterminated, hreq]
  have hsome : order.octets ≠ [] := by
    apply List.ne_nil_of_length_pos
    exact Nat.lt_of_lt_of_le (by decide) order.ten_le_length
  have hadmin : doAdmin s.globals (.data order.octets) (stack s.offset) outFd =
      some (.openOutPipe outFd :: effects) := by
    rw [doAdmin_eq _ hsome, hcommand]
    simp only [hperform, Option.map_some]
  have hasks : asks order.octets (stack s.offset) =
      [.command (.request req)] := by
    rw [asks, hcommand]
    rfl
  rw [step, if_pos hlisten.alive]
  dsimp only
  rw [if_pos ⟨hlisten.up, hapart⟩, hread]
  simp only [hadmin, Option.bind_eq_bind, Option.bind_some, ReadResult.octets,
    hasks, List.foldlM_cons, perform, hlisten.alive, ↓reduceIte]

/-- A listing is written to the reply FIFO. -/
theorem step_list {offset : Nat}
    (hread : readFifo s.offset adminBufSize =
      (.data AdminOrder.listClients.octets, offset))
    (hreader : pipe outFd = .reader) {pData text : List Byte}
    (hinfo : getCurrentClientsInfo s.globals = some pData)
    (htext : cString pData = some text) :
    ∃ next, s.step inherited readFifo stack (.admin pipe outFd) = some next ∧
      next.globals = s.globals ∧
      next.contents outFd = s.contents outFd ++ text ++ ascii "\n\n" ∧
      ∀ fd ≠ outFd, next.contents fd = s.contents fd := by
  have hperform : performRequest s.globals outFd .listClients =
      some [.write outFd text, .write outFd (ascii "\n\n")] := by
    simp [performRequest, hinfo, htext]
  have hstep := step_request inherited stack hlisten pipe hapart hread trivial
    rfl hperform
  let base : MainProcess :=
    { s with
      offset := offset
      demands := s.demands ++ [.command (.request .listClients)] }
  let first := base.append [(outFd, text)]
  have hfirst := perform_write (w := ⟨startListenSignals inherited, pipe⟩)
    (s := base) hlisten.alive hreader text
  have hsecond := perform_write (w := ⟨startListenSignals inherited, pipe⟩)
    (s := first) hlisten.alive hreader (ascii "\n\n")
  rw [List.foldlM_cons, hfirst, Option.bind_eq_bind, Option.bind_some,
    List.foldlM_cons, hsecond, Option.bind_eq_bind, Option.bind_some,
    List.foldlM_nil] at hstep
  refine ⟨_, hstep, rfl, ?_, fun fd hfd => ?_⟩
  · simp [first, base, append]
  · simp [first, base, append, hfd]

/-- A close command sends one order to the client with the process id. -/
theorem step_close (hsound : s.Sound) {client : TGClient}
    (hclient : client ∈ s.globals.clients) {n : Nat} {pos : 0 < n}
    {fits : n < 2 ^ 31} (hpid : (n : Int) = client.pid) {offset : Nat}
    (hread : readFifo s.offset adminBufSize =
      (.data (AdminOrder.closeClient n pos fits).octets, offset))
    (hterminated : (AdminOrder.closeClient n pos fits).Terminated
      (stack s.offset))
    (hreader : pipe client.writePipe = .reader) :
    ∃ next, s.step inherited readFifo stack (.admin pipe outFd) = some next ∧
      next.alive = true := by
  have hpositive : 0 < client.pid := (hsound.numbers client hclient).1
  obtain ⟨map, hholds⟩ := hsound.holds
  have hfind : findClient s.globals client.pid =
      some (findClientSuccess, some client) := by
    rcases findClient_cases hholds.fits client.pid with
      ⟨other, hother, hsame, hfind⟩ | ⟨hmissing, -⟩
    · have hleft := hholds.mem_clients.mp hother
      rw [hsame, hholds.mem_clients.mp hclient] at hleft
      rwa [← Option.some.inj hleft] at hfind
    · exact absurd rfl (hmissing client hclient)
  have hperform : performRequest s.globals outFd (.closeClient n) =
      some [.write client.writePipe closeMessage] := by
    rw [hpid]
    simp [performRequest, hpositive, hfind, closeMessage]
  have hstep := step_request inherited stack hlisten pipe hapart hread
    hterminated rfl hperform
  have hwrite := perform_write (w := ⟨startListenSignals inherited, pipe⟩)
    (s := { s with
      offset := offset
      demands := s.demands ++ [.command (.request (.closeClient n))] })
    hlisten.alive hreader closeMessage
  rw [List.foldlM_cons, hwrite, Option.bind_eq_bind, Option.bind_some,
    List.foldlM_nil] at hstep
  exact ⟨_, hstep, hlisten.alive⟩

end Step

/-- A close command is an order for the client with the process id, and for no
other. -/
theorem order_close {client other : TGClient} :
    [Demand.command (.request (.closeClient client.pid))].filterMap
        (Demand.order other.pid) =
      if client.pid = other.pid then [.close] else [] := by
  by_cases hpid : client.pid = other.pid
  · simp [Demand.order, hpid]
  · simp [Demand.order, hpid]

end MainProcess

section Loop

variable {inherited : SigNo → Disposition} {readFifo : Descriptor Nat}
variable {stack : Nat → List Byte} {g : Globals}
variable (hempty : HoldsMap g fun _ => none) {s : MainProcess}

include hempty

/-- A close command that is read whole is one more order for the client with
the process id, and changes nothing for the others. -/
theorem MainProcess.closes
    (hreach : (mainProcess inherited readFifo stack g).Reachable s)
    (hlisten : s.Listening) {client : TGClient}
    (hclient : client ∈ s.globals.clients) {n : Nat} {pos : 0 < n}
    {fits : n < 2 ^ 31} (hpid : (n : Int) = client.pid)
    {pipe : Int → PipeEnd} {outFd : Int} (hapart : s.Apart outFd)
    {offset : Nat} (hread : readFifo s.offset adminBufSize =
      (.data (AdminOrder.closeClient n pos fits).octets, offset))
    (hterminated : (AdminOrder.closeClient n pos fits).Terminated
      (stack s.offset))
    (hreader : pipe client.writePipe = .reader) :
    ∃ next, s.step inherited readFifo stack (.admin pipe outFd) = some next ∧
      next.due client = s.due client ++ [.close] ∧
      next.contents client.writePipe =
        s.contents client.writePipe ++ Order.close.octets ∧
      ∀ other ∈ s.globals.clients, other ≠ client →
        next.due other = s.due other ∧
        next.contents other.writePipe = s.contents other.writePipe := by
  have hinv := inv_reachable hempty hreach
  obtain ⟨map, hholds⟩ := hinv.sound.holds
  obtain ⟨next, hstep, halive⟩ := step_close inherited stack hlisten pipe
    hapart hinv.sound hclient hpid hread hterminated hreader
  have hasked : s.asked readFifo stack =
      [.command (.request (.closeClient client.pid))] := by
    rw [asked, hread, ReadResult.octets, asks,
      (adminCommand_octets_iff _ _).mpr hterminated, AdminOrder.command, hpid]
    rfl
  have htook := (hinv.sound.step_took hstep).2
  cases htook with
  | admin _ _ hposted =>
      rw [hasked] at hposted
      have hboth : ∀ other ∈ s.globals.clients,
          next.due other = s.due other ++
            (if client.pid = other.pid then [.close] else []) ∧
          ∃ got : List Order, next.contents other.writePipe =
              s.contents other.writePipe ++ orderStream got ∧
            got.Sublist (if client.pid = other.pid then [.close] else []) ∧
            (next.alive = true → pipe other.writePipe = .reader →
              got = if client.pid = other.pid then [.close] else []) := by
        intro other hother
        have hdue := hposted.due (hinv.ordered other hother).1
        have hsends := hposted.sends other hother
        rw [order_close] at hdue hsends
        exact ⟨hdue, hsends⟩
      obtain ⟨hdue, got, hcontents, -, hall⟩ := hboth client hclient
      rw [if_pos rfl] at hdue hall
      refine ⟨next, hstep, hdue, ?_, fun other hother hne => ?_⟩
      · rw [hcontents, hall halive hreader]
        rfl
      · have hpids : client.pid ≠ other.pid := by
          intro hsame
          have hleft := hholds.mem_clients.mp hother
          rw [← hsame, hholds.mem_clients.mp hclient] at hleft
          exact hne (Option.some.inj hleft).symm
        obtain ⟨hdue, got, hcontents, hsub, -⟩ := hboth other hother
        rw [if_neg hpids] at hdue hsub
        rw [hdue, hcontents, List.sublist_nil.mp hsub]
        exact ⟨List.append_nil _, List.append_nil _⟩

/-- The slots `init` made are never taken away. -/
theorem MainProcess.grown_reachable (hgrown : 0 < g.clientsArSize)
    (hreach : (mainProcess inherited readFifo stack g).Reachable s) :
    0 < s.globals.clientsArSize := by
  have hboth : s.Sound ∧ 0 < s.globals.clientsArSize := by
    apply hreach.invariant
    · have hstart : (mainProcess inherited readFifo stack g).start.Inv
          readFifo stack := inv_start hempty
      exact ⟨hstart.sound, hgrown⟩
    · rintro state act next ⟨hsound, hslots⟩ hstep
      have htook := (hsound.step_took hstep).2
      refine ⟨hsound.took htook, ?_⟩
      cases htook with
      | accept _ hadd => exact Nat.lt_of_lt_of_le hslots (addClient_size hadd)
      | childQuit hclose =>
          rw [closeClient_size hclose]
          exact hslots
      | admin _ _ hposted | sigterm _ hposted =>
          rw [hposted.globals]
          exact hslots
  exact hboth.2

/-- A listing shows the clients in the table; and if, after anything the main
process may have done since, the process id in one of its rows comes back in a
close command while that client is still there, the client gets one order more
and nobody else gets any. -/
theorem operator_closes
    (hreach : (mainProcess inherited readFifo stack g).Reachable s)
    (hlisten : s.Listening) (hgrown : 0 < s.globals.clientsArSize)
    (hrecorded : ∀ client ∈ s.globals.clients, Recorded client)
    (replies : Int → PipeEnd) {replyFd : Int} (hapart : s.Apart replyFd)
    (hreader : replies replyFd = .reader) {offset : Nat}
    (hread : readFifo s.offset adminBufSize =
      (.data AdminOrder.listClients.octets, offset)) :
    ∃ listed text, s.step inherited readFifo stack (.admin replies replyFd) =
        some listed ∧
      listed.contents replyFd = s.contents replyFd ++ text ++ ascii "\n\n" ∧
      readRows text = some (s.globals.clients.map TGClient.row) ∧
      ∀ client ∈ s.globals.clients, ∀ acts later,
        (mainProcess inherited readFifo stack g).run listed acts =
          some later →
        later.Listening → client ∈ later.globals.clients →
        ∀ (n : Nat) pos fits, (n : Int) = client.row.pid →
        ∀ pipe outFd offset, later.Apart outFd →
          readFifo later.offset adminBufSize =
            (.data (AdminOrder.closeClient n pos fits).octets, offset) →
          (AdminOrder.closeClient n pos fits).Terminated
            (stack later.offset) →
          pipe client.writePipe = .reader →
        ∃ next, later.step inherited readFifo stack (.admin pipe outFd) =
            some next ∧
          next.due client = later.due client ++ [.close] ∧
          next.contents client.writePipe =
            later.contents client.writePipe ++ Order.close.octets ∧
          ∀ other ∈ later.globals.clients, other ≠ client →
            next.due other = later.due other ∧
            next.contents other.writePipe =
              later.contents other.writePipe := by
  obtain ⟨map, hholds⟩ := (MainProcess.inv_reachable hempty hreach).sound.holds
  obtain ⟨pData, text, hinfo, htext, hrows⟩ :=
    listing_rows hholds.fits hgrown hrecorded
  obtain ⟨listed, hstep, -, hcontents, -⟩ := MainProcess.step_list inherited
    stack hlisten replies hapart hread hreader hinfo htext
  refine ⟨listed, text, hstep, hcontents, hrows, ?_⟩
  intro client _ acts later hrun hlater hclient n pos fits hpid pipe outFd
    offset hapart hread hterminated hreader
  obtain ⟨before, hbefore⟩ := hreach
  have hreached :
      (mainProcess inherited readFifo stack g).Reachable later := by
    refine ⟨before ++ .admin replies replyFd :: acts, ?_⟩
    rw [Machine.run_append, hbefore, Option.bind_some, Machine.run_cons]
    have hlisting : (mainProcess inherited readFifo stack g).step s
        (.admin replies replyFd) = some listed := hstep
    rw [hlisting]
    exact hrun
  exact MainProcess.closes hempty hreached hlater hclient hpid hapart hread
    hterminated hreader

end Loop

namespace OperatorLoop

open MainProcess (client fifo readers server server_empty)

/-- The client is listed while it is in the table. -/
def acts : List MainAct := [.accept client]

theorem client_recorded : Recorded client where
  pidRange := by decide
  address := ⟨_, rfl, by decide, ascii "10", ascii "0", ascii "0", ascii "1",
    by decide, ClientsInfo.numbers (by decide)⟩
  portRange := by decide

theorem operator_closes_acts :
    ∃ s offset, server.run server.start acts = some s ∧ s.Listening ∧
      s.globals.clients = [client] ∧ s.Apart 5 ∧
      fifo s.offset adminBufSize =
        (.data AdminOrder.listClients.octets, offset) ∧
      ∃ listed text, s.step (fun _ => .default) fifo (fun _ => [])
          (.admin readers 5) = some listed ∧
        listed.contents 5 = s.contents 5 ++ text ++ ascii "\n\n" ∧
        readRows text = some (s.globals.clients.map TGClient.row) ∧
        ∀ client ∈ s.globals.clients, ∀ acts later,
          server.run listed acts = some later →
          later.Listening → client ∈ later.globals.clients →
          ∀ (n : Nat) pos fits, (n : Int) = client.row.pid →
          ∀ pipe outFd offset, later.Apart outFd →
            fifo later.offset adminBufSize =
              (.data (AdminOrder.closeClient n pos fits).octets, offset) →
            (AdminOrder.closeClient n pos fits).Terminated [] →
            pipe client.writePipe = .reader →
          ∃ next, later.step (fun _ => .default) fifo (fun _ => [])
              (.admin pipe outFd) = some next ∧
            next.due client = later.due client ++ [.close] ∧
            next.contents client.writePipe =
              later.contents client.writePipe ++ Order.close.octets ∧
            ∀ other ∈ later.globals.clients, other ≠ client →
              next.due other = later.due other ∧
              next.contents other.writePipe =
                later.contents other.writePipe := by
  have hcheck : (server.run server.start acts).any (fun s =>
      decide (s.alive = true ∧ s.down = false ∧ s.offset = 0 ∧
        s.globals.clients = [client])) = true := by
    decide +kernel
  obtain ⟨s, hrun, hat⟩ := (Option.any_eq_true _ _).mp hcheck
  obtain ⟨halive, hup, hoffset, hclients⟩ := of_decide_eq_true hat
  have hread : fifo s.offset adminBufSize =
      (.data AdminOrder.listClients.octets, 10) := by
    rw [hoffset]
    rfl
  have hapart : s.Apart 5 := by
    intro other hother
    rw [hclients, List.mem_singleton] at hother
    rw [hother]
    decide
  refine ⟨s, 10, hrun, ⟨halive, hup⟩, hclients, hapart, hread,
    operator_closes server_empty ⟨acts, hrun⟩ ⟨halive, hup⟩ ?_ ?_ readers
      hapart rfl hread⟩
  · exact MainProcess.grown_reachable server_empty (by decide) ⟨acts, hrun⟩
  · intro other hother
    rw [hclients, List.mem_singleton] at hother
    exact hother ▸ client_recorded

end OperatorLoop

end TgServer
