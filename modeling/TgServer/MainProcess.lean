/-
The main process in the loop of `startListen` as one machine: clients are
accepted and reaped, commands come from the FIFO, and orders go to the pipes of
the clients.  The handlers of `SIGCHLD` and `SIGTERM` are taken to come between
the calls of the loop, or while a shutdown sleeps.
-/
import TgServer.AdminRequests
import TgServer.OrderSafety
import TgServer.SendSignals

namespace TgServer

open Bytes ByteStream Transition

/-- What the main process was made to do. -/
inductive Demand where
  | command (cmd : AdminCommand)
  | sigterm
deriving Repr, DecidableEq

namespace Demand

def isCommand : Demand → Option AdminCommand
  | .command cmd => some cmd
  | .sigterm => none

/-- The order it is for the client with the process id. -/
def order (pid : TgPid) : Demand → Option Order
  | .sigterm | .command .shutDown => some .shutDown
  | .command (.request .listClients) => none
  | .command (.request (.closeClient id)) =>
      if id = pid then some .close else none

end Demand

/-- The message of `__handle_host_shutdown_signal`. -/
def shutDownMessage : List Byte := ascii "tg://1003/"

/-- `offset` is what was read from the FIFO; for the pipe behind a descriptor,
`contents` is what was written to it and `joined` says how many of the demands
came before it was opened. -/
structure MainProcess where
  globals : Globals
  offset : Nat
  demands : List Demand
  contents : Int → List Byte
  joined : Int → Nat
  terminating : Bool
  down : Bool
  alive : Bool

/-- `pipe` says what a write to each descriptor meets. -/
inductive MainAct where
  /-- `do_accept`, with the record it makes. -/
  | accept (client : TGClient)
  /-- `closeClient` in the handler of `SIGCHLD`. -/
  | childQuit (pid : TgPid)
  /-- `do_admin`, with what the `open` of the reply FIFO returns. -/
  | admin (pipe : Int → PipeEnd) (outFd : Int)
  /-- `SIGTERM` -/
  | sigterm (pipe : Int → PipeEnd)

namespace MainProcess

def append (s : MainProcess) (writes : List (Int × List Byte)) : MainProcess :=
  { s with
    contents := writes.foldl (fun contents (fd, octets) =>
      Function.update contents fd (contents fd ++ octets)) s.contents }

/-- A `write` of `write_data`. -/
def write (w : SendWorld) (s : MainProcess) (fd : Int) (octets : List Byte) :
    MainProcess :=
  match w.pipe fd with
  | .reader => s.append [(fd, octets)]
  | .noReader =>
      if w.disposition .sigpipe = .default then { s with alive := false } else s
  | .refused => s

/-- `__handle_host_shutdown_signal` up to its sleep. -/
def hostShutdown (w : SendWorld) (s : MainProcess) : Option MainProcess := do
  let sent ← sendSignalToAllClients w s.globals (some shutDownMessage)
  return { s.append sent.writes with down := true, alive := sent.alive }

/-- A process that was ended does nothing more. -/
def perform (w : SendWorld) (s : MainProcess) (effect : AdminEffect) :
    Option MainProcess :=
  if s.alive then
    match effect with
    | .unlinkPipe | .openOutPipe _ => some s
    | .hostShutdown => s.hostShutdown w
    | .write fd octets => some (s.write w fd octets)
  else some s

/-- The kernel hands out process ids and descriptors that are not in use. -/
def Unused (s : MainProcess) (client : TGClient) : Prop :=
  0 < client.pid ∧ 0 ≤ client.writePipe ∧ ∀ other ∈ s.globals.clients,
    other.pid ≠ client.pid ∧ other.writePipe ≠ client.writePipe

instance (s : MainProcess) (client : TGClient) : Decidable (s.Unused client) :=
  inferInstanceAs (Decidable (_ ∧ _ ∧ _))

/-- The descriptor is none of the pipes to the clients. -/
def Apart (s : MainProcess) (fd : Int) : Prop :=
  ∀ client ∈ s.globals.clients, client.writePipe ≠ fd

instance (s : MainProcess) (fd : Int) : Decidable (s.Apart fd) :=
  inferInstanceAs (Decidable (∀ _ ∈ _, _))

/-- A client is in the table, and a pipe without content behind its
descriptor. -/
def accepted (s : MainProcess) (client : TGClient) (globals : Globals) :
    MainProcess :=
  { s with
    globals := globals
    contents := Function.update s.contents client.writePipe []
    joined := Function.update s.joined client.writePipe s.demands.length }

/-- What a read from the FIFO asks for. -/
def asks (octets stack : List Byte) : List Demand :=
  ((adminCommand octets stack).map Demand.command).toList

section Machine

variable (inherited : SigNo → Disposition) (readFifo : Descriptor Nat)
variable (stack : Nat → List Byte)

/-- `none` is a step the process is not at, or undefined. -/
def step (s : MainProcess) (act : MainAct) : Option MainProcess :=
  if s.alive then
    match act with
    | .accept client =>
        if s.down = false ∧ s.Unused client then do
          return s.accepted client (← addClient s.globals (some client))
        else none
    | .childQuit pid => do
        return { s with globals := ← closeClient s.globals pid }
    | .admin pipe outFd =>
        if s.down = false ∧ s.Apart outFd then do
          let (result, offset) := readFifo s.offset adminBufSize
          let effects ← doAdmin s.globals result (stack s.offset) outFd
          let s := { s with
            offset := offset
            demands := s.demands ++ asks result.octets (stack s.offset) }
          effects.foldlM (perform ⟨startListenSignals inherited, pipe⟩) s
        else none
    | .sigterm pipe =>
        if s.terminating then none
        else
          hostShutdown ⟨startListenSignals inherited, pipe⟩
            { s with demands := s.demands ++ [.sigterm], terminating := true }
  else none

end Machine

/-- The commands among the demands. -/
def commands (s : MainProcess) : List AdminCommand :=
  s.demands.filterMap Demand.isCommand

/-- What was ordered of a client since its pipe was opened. -/
def due (s : MainProcess) (client : TGClient) : List Order :=
  (s.demands.drop (s.joined client.writePipe)).filterMap
    (Demand.order client.pid)

end MainProcess

/-- From a table without clients. -/
def mainProcess (inherited : SigNo → Disposition) (readFifo : Descriptor Nat)
    (stack : Nat → List Byte) (g : Globals) :
    Machine MainProcess MainAct where
  start := ⟨g, 0, [], fun _ => [], fun _ => 0, false, false, true⟩
  step := MainProcess.step inherited readFifo stack

section Table

variable {g : Globals} {map : TgPid → Option TGClient}

theorem HoldsMap.mem_clients (hholds : HoldsMap g map) {client : TGClient} :
    client ∈ g.clients ↔ map client.pid = some client := by
  rw [TgServer.mem_clients]
  constructor
  · rintro ⟨i, hslot⟩
    exact hholds.slots.sound hslot
  · intro hmap
    exact (hholds.slots.complete hmap).2

/-- The table has one client more. -/
theorem HoldsMap.accept (hholds : HoldsMap g map) {client : TGClient}
    (hnew : ∀ other ∈ g.clients, other.pid ≠ client.pid) {g' : Globals}
    (hadd : addClient g (some client) = some g') :
    (∃ map', HoldsMap g' map') ∧
      ∀ other ∈ g'.clients, other = client ∨ other ∈ g.clients := by
  have hnone : map client.pid = none := by
    by_contra hsome
    obtain ⟨other, hother⟩ := Option.ne_none_iff_exists'.mp hsome
    have hpid := (hholds.slots.complete hother).1
    exact hnew other (hholds.mem_clients.mpr (hpid.symm ▸ hother)) hpid
  have hboth : ∃ last, addClient g (some client) = some last ∧
      HoldsMap last (Function.update map client.pid (some client)) := by
    cases hfind : g.slots.findIdx? Option.isNone with
    | some i =>
        obtain ⟨last, hlast, hkept, -⟩ := addClient_free hholds hnone hfind
        exact ⟨last, hlast, hkept⟩
    | none =>
        obtain ⟨last, hlast, hkept, -⟩ := addClient_full hholds hnone hfind
        exact ⟨last, hlast, hkept⟩
  obtain ⟨last, hlast, hkept⟩ := hboth
  obtain rfl := Option.some.inj (hadd.symm.trans hlast)
  refine ⟨⟨_, hkept⟩, fun other hother => ?_⟩
  have hmap := hkept.mem_clients.mp hother
  by_cases hpid : other.pid = client.pid
  · rw [hpid, Function.update_self, Option.some.injEq] at hmap
    exact Or.inl hmap.symm
  · rw [Function.update_of_ne hpid] at hmap
    exact Or.inr (hholds.mem_clients.mpr hmap)

/-- The table has one client less, or none less. -/
theorem HoldsMap.childQuit (hholds : HoldsMap g map) {pid : TgPid}
    {g' : Globals} (hclose : closeClient g pid = some g') :
    (∃ map', HoldsMap g' map') ∧ ∀ other ∈ g'.clients, other ∈ g.clients := by
  obtain ⟨last, hlast, hkept, -⟩ := closeClient_holds hholds pid
  obtain rfl := Option.some.inj (hclose.symm.trans hlast)
  refine ⟨⟨_, hkept⟩, fun other hother => ?_⟩
  have hmap := hkept.mem_clients.mp hother
  by_cases hpid : other.pid = pid
  · rw [hpid, Function.update_self] at hmap
    cases hmap
  · rw [Function.update_of_ne hpid] at hmap
    exact hholds.mem_clients.mpr hmap

/-- Clients with pipes of their own have different ones. -/
theorem HoldsMap.pipes_nodup (hholds : HoldsMap g map)
    (hapart : ∀ left ∈ g.clients, ∀ right ∈ g.clients,
      left.writePipe = right.writePipe → left.pid = right.pid) :
    (g.clients.map TGClient.writePipe).Nodup := by
  rw [List.Nodup, List.pairwise_map, Globals.clients, List.reduceOption,
    List.pairwise_filterMap, List.pairwise_iff_getElem]
  intro i j hi hj hlt left hleft right hright hsame
  have hl : g.slots[i]? = some (some left) := by
    rw [List.getElem?_eq_getElem hi]
    exact congrArg some hleft
  have hr : g.slots[j]? = some (some right) := by
    rw [List.getElem?_eq_getElem hj]
    exact congrArg some hright
  have hpid := hapart left (TgServer.mem_clients.mpr ⟨i, hl⟩) right
    (TgServer.mem_clients.mpr ⟨j, hr⟩) hsame
  exact Nat.ne_of_lt hlt (hholds.slots.unique hl hr hpid)

end Table

section Writes

variable (w : SendWorld) (msg : List Byte)

/-- Whatever becomes of the process, some of the clients have been told, and
all that can receive if it goes on. -/
theorem sendSignalFrom_told {slots : List (Option TGClient)} {n i : Nat}
    {s last : Sending} (hfits : i + n = slots.length)
    (hsend : sendSignalFrom w slots (some msg) n i s = some last) :
    ∃ told : List TGClient, told.Sublist (slots.drop i).reduceOption ∧
      last.writes = s.writes ++ told.map (·.writePipe, msg) ∧
      (last.alive = true → ∀ client ∈ (slots.drop i).reduceOption,
        CanReceive w client = true → client ∈ told) := by
  induction n generalizing i s with
  | zero =>
      have hnil : slots.drop i = [] := List.drop_eq_nil_of_le (by omega)
      rw [sendSignalFrom, Option.some.injEq] at hsend
      rw [hnil, ← hsend]
      exact ⟨[], List.nil_sublist _, by simp, by simp [List.reduceOption]⟩
  | succ n ih =>
      have hlt : i < slots.length := by omega
      rw [List.drop_eq_getElem_cons hlt]
      rw [sendSignalFrom, List.getElem?_eq_getElem hlt] at hsend
      simp only [Option.bind_eq_bind, Option.bind_some] at hsend
      cases hslot : slots[i] with
      | none =>
          rw [hslot] at hsend
          rw [List.reduceOption_cons_of_none]
          exact ih (by omega) hsend
      | some pC =>
          rw [hslot] at hsend
          rw [List.reduceOption_cons_of_some]
          dsimp only at hsend
          by_cases hbroken : w.disposition .sigpipe = .default ∧
              BrokenPipe w pC
          · rw [sendSignalToClient_killed w msg hbroken.1 hbroken.2] at hsend
            dsimp only at hsend
            rw [Option.pure_def, Option.some.injEq] at hsend
            rw [← hsend]
            exact ⟨[], List.nil_sublist _, by simp, by simp⟩
          · rw [sendSignalToClient_returned w msg
              fun hdefault hpipe => hbroken ⟨hdefault, hpipe⟩] at hsend
            cases hreach : CanReceive w pC with
            | false =>
                simp only [hreach, Bool.false_eq_true, ↓reduceIte,
                  List.append_nil] at hsend
                obtain ⟨told, hsub, hwrites, hall⟩ := ih (by omega) hsend
                refine ⟨told, hsub.cons _, hwrites, fun halive => ?_⟩
                rw [List.forall_mem_cons]
                refine ⟨fun hcan => ?_, hall halive⟩
                rw [hreach] at hcan
                cases hcan
            | true =>
                simp only [hreach, ↓reduceIte] at hsend
                obtain ⟨told, hsub, hwrites, hall⟩ := ih (by omega) hsend
                refine ⟨pC :: told, hsub.cons_cons _, ?_, fun halive => ?_⟩
                · rw [hwrites, List.map_cons, List.append_assoc,
                    List.singleton_append]
                · rw [List.forall_mem_cons]
                  exact ⟨fun _ => List.mem_cons_self, fun client hclient hcan =>
                    List.mem_cons_of_mem _ (hall halive client hclient hcan)⟩

/-- A pipe gets the message once for each client told through it. -/
theorem MainProcess.contents_append (s : MainProcess)
    (told : List TGClient) (fd : Int) :
    (s.append (told.map (·.writePipe, msg))).contents fd =
      s.contents fd ++ (List.replicate
        ((told.map TGClient.writePipe).count fd) msg).flatten := by
  induction told generalizing s with
  | nil => exact (List.append_nil _).symm
  | cons client rest ih =>
      have hone := ih (s.append [(client.writePipe, msg)])
      have hfirst : (s.append [(client.writePipe, msg)]).contents =
          Function.update s.contents client.writePipe
            (s.contents client.writePipe ++ msg) := rfl
      have hboth :
          (s.append ((client :: rest).map (·.writePipe, msg))).contents =
            ((s.append [(client.writePipe, msg)]).append
              (rest.map (·.writePipe, msg))).contents := rfl
      rw [hboth, hone, hfirst, List.map_cons, List.count_cons]
      by_cases hfd : client.writePipe = fd
      · subst hfd
        rw [Function.update_self, beq_self_eq_true, if_pos rfl,
          List.replicate_succ, List.flatten_cons, List.append_assoc]
      · rw [Function.update_of_ne (Ne.symm hfd),
          if_neg (by simpa using hfd), Nat.add_zero]

end Writes

namespace MainProcess

/-- The clients in the table, with process ids and pipes of their own. -/
structure Sound (s : MainProcess) : Prop where
  holds : ∃ map, HoldsMap s.globals map
  numbers : ∀ client ∈ s.globals.clients,
    0 < client.pid ∧ 0 ≤ client.writePipe
  apart : ∀ left ∈ s.globals.clients, ∀ right ∈ s.globals.clients,
    left.writePipe = right.writePipe → left.pid = right.pid

/-- Nothing but pipes was written. -/
structure Frame (s next : MainProcess) : Prop where
  globals : next.globals = s.globals
  offset : next.offset = s.offset
  demands : next.demands = s.demands
  joined : next.joined = s.joined
  down : s.down = true → next.down = true

/-- The client was sent some of the orders, or all if it could be. -/
def Sends (pipe : Int → PipeEnd) (s next : MainProcess) (client : TGClient)
    (orders : List Order) : Prop :=
  ∃ got : List Order, next.contents client.writePipe =
      s.contents client.writePipe ++ orderStream got ∧
    got.Sublist orders ∧
    (next.alive = true → pipe client.writePipe = .reader → got = orders)

section Effects

variable {w : SendWorld} {s next : MainProcess}

theorem Frame.refl (s : MainProcess) : Frame s s :=
  ⟨rfl, rfl, rfl, rfl, id⟩

theorem Frame.trans {last : MainProcess} (hfirst : Frame s next)
    (hrest : Frame next last) : Frame s last where
  globals := hrest.globals.trans hfirst.globals
  offset := hrest.offset.trans hfirst.offset
  demands := hrest.demands.trans hfirst.demands
  joined := hrest.joined.trans hfirst.joined
  down := hrest.down ∘ hfirst.down

theorem Sends.none (hsame : next.contents = s.contents)
    (client : TGClient) : Sends w.pipe s next client [] := by
  refine ⟨[], ?_, List.nil_sublist _, fun _ _ => rfl⟩
  rw [hsame]
  exact (List.append_nil _).symm

theorem write_cases (w : SendWorld) (s : MainProcess) (fd : Int)
    (octets : List Byte) :
    Frame s (s.write w fd octets) ∧
      (∀ other, other ≠ fd →
        (s.write w fd octets).contents other = s.contents other) ∧
      (w.pipe fd = .reader ∧
          (s.write w fd octets).contents fd = s.contents fd ++ octets ∨
        w.pipe fd ≠ .reader ∧
          (s.write w fd octets).contents = s.contents) := by
  rw [write]
  cases hpipe : w.pipe fd with
  | reader =>
      refine ⟨⟨rfl, rfl, rfl, rfl, id⟩, fun other hne => ?_, .inl ⟨rfl, ?_⟩⟩
      · exact Function.update_of_ne hne _ _
      · exact Function.update_self _ _ _
  | refused => exact ⟨.refl s, fun _ _ => rfl, .inr ⟨by simp, rfl⟩⟩
  | noReader =>
      dsimp only
      split
      · exact ⟨⟨rfl, rfl, rfl, rfl, id⟩, fun _ _ => rfl, .inr ⟨by simp, rfl⟩⟩
      · exact ⟨.refl s, fun _ _ => rfl, .inr ⟨by simp, rfl⟩⟩

/-- What goes to the reply FIFO goes to no client. -/
theorem perform_texts {fd : Int} {texts : List (List Byte)}
    (hrun : (texts.map (AdminEffect.write fd)).foldlM (perform w) s =
      some next) :
    Frame s next ∧ ∀ other, other ≠ fd →
      next.contents other = s.contents other := by
  induction texts generalizing s with
  | nil =>
      obtain rfl := Option.some.inj hrun
      exact ⟨.refl s, fun _ _ => rfl⟩
  | cons text rest ih =>
      rw [List.map_cons, List.foldlM_cons, perform] at hrun
      split at hrun
      · obtain ⟨hframe, hother, -⟩ := write_cases w s fd text
        obtain ⟨hrest, hothers⟩ := ih hrun
        exact ⟨hframe.trans hrest, fun other hne =>
          (hothers other hne).trans (hother other hne)⟩
      · exact ih hrun

/-- The shutdown is sent to each client once at most. -/
theorem Sound.hostShutdown (hsound : s.Sound)
    (hdown : s.hostShutdown w = some next) :
    Frame s next ∧ next.down = true ∧
      ∀ client ∈ s.globals.clients,
        Sends w.pipe s next client [.shutDown] := by
  obtain ⟨sent, hsend, hnext⟩ := Option.bind_eq_some_iff.mp hdown
  rw [Option.pure_def, Option.some.injEq] at hnext
  obtain ⟨map, hholds⟩ := hsound.holds
  obtain ⟨told, hsub, hwrites, hall⟩ :=
    sendSignalFrom_told w shutDownMessage
      ((Nat.zero_add _).trans hholds.fits.symm) hsend
  rw [List.drop_zero, ← Globals.clients] at hsub hall
  refine ⟨hnext ▸ ⟨rfl, rfl, rfl, rfl, fun _ => rfl⟩, hnext ▸ rfl,
    fun client hclient => ?_⟩
  have hcontents := contents_append shutDownMessage s told client.writePipe
  have halive : next.alive = sent.alive := hnext ▸ rfl
  have hwritten : next.contents client.writePipe =
      s.contents client.writePipe ++ (List.replicate
        ((told.map TGClient.writePipe).count client.writePipe)
          shutDownMessage).flatten := by
    rw [← hcontents, ← hnext, hwrites]
    rfl
  have honce : (told.map TGClient.writePipe).Nodup :=
    (hholds.pipes_nodup hsound.apart).sublist (hsub.map _)
  by_cases htold : client.writePipe ∈ told.map TGClient.writePipe
  · refine ⟨[.shutDown], ?_, List.Sublist.refl _, fun _ _ => rfl⟩
    rw [hwritten, List.count_eq_one_of_mem honce htold]
    rfl
  · refine ⟨[], ?_, List.nil_sublist _, fun hlive hreader => ?_⟩
    · rw [hwritten, List.count_eq_zero_of_not_mem htold]
      rfl
    · have hcan : CanReceive w client = true := by
        simp [CanReceive, hreader, (hsound.numbers client hclient).2]
      exact absurd (List.mem_map_of_mem
        (hall (halive ▸ hlive) client hclient hcan)) htold

/-- A request is answered through the reply FIFO, or it is a close order for a
client in the table. -/
theorem Sound.performRequest_cases (hsound : s.Sound) {fd : Int}
    {req : AdminRequest} {effects : List AdminEffect}
    (hperform : performRequest s.globals fd req = some effects) :
    ((∃ texts : List (List Byte), effects = texts.map (AdminEffect.write fd)) ∧
      ∀ client ∈ s.globals.clients,
        Demand.order client.pid (.command (.request req)) = none) ∨
    ∃ client ∈ s.globals.clients, req = .closeClient client.pid ∧
      effects = [.write client.writePipe closeMessage] := by
  obtain ⟨map, hholds⟩ := hsound.holds
  cases req with
  | listClients =>
      left
      simp only [performRequest, Option.bind_eq_bind,
        Option.bind_eq_some_iff] at hperform
      obtain ⟨pData, -, text, -, heffects⟩ := hperform
      exact ⟨⟨[text, ascii "\n\n"], (Option.some.inj heffects).symm⟩,
        fun _ _ => rfl⟩
  | closeClient id =>
      have hother : (∀ client ∈ s.globals.clients, client.pid ≠ id) →
          ∀ client ∈ s.globals.clients, Demand.order client.pid
            (.command (.request (.closeClient id))) = none :=
        fun hne client hclient => if_neg (Ne.symm (hne client hclient))
      by_cases hpos : 0 < id
      · rcases findClient_cases hholds.fits id with
          ⟨client, hclient, hpid, hfind⟩ | ⟨hmissing, hfind⟩
        · right
          simp only [performRequest, hpos, ↓reduceIte, hfind,
            Option.bind_eq_bind, Option.bind_some] at hperform
          exact ⟨client, hclient, by rw [hpid],
            (Option.some.inj hperform).symm⟩
        · left
          simp only [performRequest, hpos, ↓reduceIte, hfind,
            Option.bind_eq_bind, Option.bind_some] at hperform
          exact ⟨⟨[unknownPid id], (Option.some.inj hperform).symm⟩,
            hother hmissing⟩
      · left
        rw [performRequest, if_neg hpos] at hperform
        refine ⟨⟨[unknownPid id], (Option.some.inj hperform).symm⟩,
          hother fun client hclient hpid => hpos ?_⟩
        exact hpid ▸ (hsound.numbers client hclient).1

/-- What the effects of a request do to the clients. -/
theorem Sound.request (hsound : s.Sound) {fd : Int} (hapart : s.Apart fd)
    {req : AdminRequest} {effects : List AdminEffect}
    (hperform : performRequest s.globals fd req = some effects)
    (hrun : effects.foldlM (perform w) s = some next) :
    Frame s next ∧ ∀ client ∈ s.globals.clients,
      Sends w.pipe s next client
        (Demand.order client.pid (.command (.request req))).toList := by
  rcases hsound.performRequest_cases hperform with
    ⟨⟨texts, rfl⟩, hnone⟩ | ⟨target, htarget, rfl, rfl⟩
  · obtain ⟨hframe, hother⟩ := perform_texts hrun
    refine ⟨hframe, fun client hclient => ?_⟩
    rw [hnone client hclient]
    refine ⟨[], ?_, List.nil_sublist _, fun _ _ => rfl⟩
    rw [hother _ (hapart client hclient)]
    exact (List.append_nil _).symm
  · simp only [List.foldlM_cons, List.foldlM_nil, Option.pure_def,
      Option.bind_eq_bind, Option.bind_fun_some, perform] at hrun
    by_cases halive : s.alive = true
    · rw [if_pos halive] at hrun
      obtain rfl := Option.some.inj hrun
      obtain ⟨hframe, hother, hcases⟩ :=
        write_cases w s target.writePipe closeMessage
      refine ⟨hframe, fun client hclient => ?_⟩
      by_cases hpid : client.pid = target.pid
      · have hsame : client = target := by
          obtain ⟨map, hholds⟩ := hsound.holds
          have hleft := hholds.mem_clients.mp hclient
          rw [hpid, hholds.mem_clients.mp htarget] at hleft
          exact (Option.some.inj hleft).symm
        subst hsame
        rw [Demand.order, if_pos rfl]
        rcases hcases with ⟨-, hwritten⟩ | ⟨hnot, hsame⟩
        · exact ⟨[.close], hwritten, List.Sublist.refl _, fun _ _ => rfl⟩
        · refine ⟨[], ?_, List.nil_sublist _,
            fun _ hreader => absurd hreader hnot⟩
          rw [hsame]
          exact (List.append_nil _).symm
      · rw [Demand.order, if_neg (Ne.symm hpid)]
        refine ⟨[], ?_, List.nil_sublist _, fun _ _ => rfl⟩
        rw [hother _ fun hpipe =>
          hpid (hsound.apart client hclient target htarget hpipe)]
        exact (List.append_nil _).symm
    · rw [if_neg halive] at hrun
      obtain rfl := Option.some.inj hrun
      refine ⟨.refl _, fun client _ => ⟨[], ?_, List.nil_sublist _,
        fun hlive => absurd hlive halive⟩⟩
      exact (List.append_nil _).symm

theorem asks_nil (stack : List Byte) : asks [] stack = [] := rfl

/-- What `do_admin` does to the clients. -/
theorem Sound.admin (hsound : s.Sound) {fd : Int} (hapart : s.Apart fd)
    (halive : s.alive = true) {result : ReadResult} {stack : List Byte}
    {effects : List AdminEffect}
    (hadmin : doAdmin s.globals result stack fd = some effects)
    (hrun : effects.foldlM (perform w) s = some next) :
    Frame s next ∧
      (.command .shutDown ∈ asks result.octets stack → next.down = true) ∧
      ∀ client ∈ s.globals.clients, Sends w.pipe s next client
        ((asks result.octets stack).filterMap (Demand.order client.pid)) := by
  have hidle : effects = [] → asks result.octets stack = [] →
      Frame s next ∧
        (.command .shutDown ∈ asks result.octets stack → next.down = true) ∧
        ∀ client ∈ s.globals.clients, Sends w.pipe s next client
          ((asks result.octets stack).filterMap
            (Demand.order client.pid)) := by
    rintro rfl hasks
    obtain rfl := Option.some.inj hrun
    rw [hasks]
    exact ⟨.refl s, fun hmem => absurd hmem List.not_mem_nil,
      fun client _ => .none rfl client⟩
  cases result with
  | failed => exact hidle (Option.some.inj hadmin).symm rfl
  | data octets =>
      by_cases hsome : octets = []
      · subst hsome
        exact hidle (Option.some.inj hadmin).symm (asks_nil stack)
      · rw [doAdmin_eq _ hsome] at hadmin
        change Frame s next ∧
          (.command .shutDown ∈ asks octets stack → next.down = true) ∧ _
        rw [ReadResult.octets, asks]
        cases hcommand : adminCommand octets stack with
        | none =>
            rw [hcommand] at hadmin
            obtain rfl := Option.some.inj hadmin
            simp only [List.foldlM_cons, List.foldlM_nil, perform, halive,
              ↓reduceIte, Option.bind_eq_bind, Option.bind_some] at hrun
            obtain rfl := Option.some.inj hrun
            exact ⟨.refl s, fun hmem => absurd hmem List.not_mem_nil,
              fun client _ => .none rfl client⟩
        | some cmd =>
            rw [hcommand] at hadmin
            cases cmd with
            | shutDown =>
                obtain rfl := Option.some.inj hadmin
                simp only [List.foldlM_cons, List.foldlM_nil, perform, halive,
                  ↓reduceIte, Option.bind_eq_bind, Option.bind_some,
                  Option.pure_def, Option.bind_fun_some] at hrun
                obtain ⟨hframe, hdown, hsends⟩ := hsound.hostShutdown hrun
                exact ⟨hframe, fun _ => hdown, hsends⟩
            | request req =>
                obtain ⟨more, hperform, rfl⟩ :=
                  Option.map_eq_some_iff.mp hadmin
                simp only [List.foldlM_cons, perform, halive, ↓reduceIte,
                  Option.bind_eq_bind, Option.bind_some] at hrun
                obtain ⟨hframe, hsends⟩ :=
                  hsound.request hapart hperform hrun
                refine ⟨hframe, fun hmem => ?_, fun client hclient => ?_⟩
                · simp at hmem
                · have hone := hsends client hclient
                  cases horder : Demand.order client.pid
                      (.command (.request req)) <;>
                    simpa [horder] using hone

end Effects

/-- The clients were sent the orders that some new demands are for them. -/
structure Posted (pipe : Int → PipeEnd) (s next : MainProcess)
    (new : List Demand) : Prop where
  globals : next.globals = s.globals
  joined : next.joined = s.joined
  demands : next.demands = s.demands ++ new
  down : s.down = true → next.down = true
  stopped : .command .shutDown ∈ new → next.down = true
  sends : ∀ client ∈ s.globals.clients, Sends pipe s next client
    (new.filterMap (Demand.order client.pid))

section Steps

variable (inherited : SigNo → Disposition) (readFifo : Descriptor Nat)
variable (stack : Nat → List Byte)

/-- What a read from the FIFO makes `do_admin` do. -/
def asked (s : MainProcess) : List Demand :=
  asks (readFifo s.offset adminBufSize).1.octets (stack s.offset)

/-- What a step does. -/
inductive Took (s : MainProcess) : MainAct → MainProcess → Prop where
  | accept {client : TGClient} {globals : Globals} (hunused : s.Unused client)
      (hadd : addClient s.globals (some client) = some globals) :
      Took s (.accept client) (s.accepted client globals)
  | childQuit {pid : TgPid} {globals : Globals}
      (hclose : closeClient s.globals pid = some globals) :
      Took s (.childQuit pid) { s with globals := globals }
  | admin {pipe : Int → PipeEnd} {outFd : Int} {next : MainProcess}
      (hup : s.down = false)
      (hoffset : next.offset = (readFifo s.offset adminBufSize).2)
      (hposted : Posted pipe s next (s.asked readFifo stack)) :
      Took s (.admin pipe outFd) next
  | sigterm {pipe : Int → PipeEnd} {next : MainProcess}
      (hoffset : next.offset = s.offset)
      (hposted : Posted pipe s next [.sigterm]) :
      Took s (.sigterm pipe) next

variable {inherited readFifo stack} {s next : MainProcess} {act : MainAct}

theorem Sound.step_took (hsound : s.Sound)
    (hstep : s.step inherited readFifo stack act = some next) :
    s.alive = true ∧ s.Took readFifo stack act next := by
  unfold step at hstep
  split at hstep
  · next halive =>
    refine ⟨halive, ?_⟩
    cases act with
    | accept client =>
        dsimp only at hstep
        split at hstep
        · next hat =>
          obtain ⟨globals, hadd, hnext⟩ := Option.bind_eq_some_iff.mp hstep
          exact Option.some.inj hnext ▸ .accept hat.2 hadd
        · cases hstep
    | childQuit pid =>
        obtain ⟨globals, hclose, hnext⟩ := Option.bind_eq_some_iff.mp hstep
        exact Option.some.inj hnext ▸ .childQuit hclose
    | admin pipe outFd =>
        dsimp only at hstep
        split at hstep
        · next hat =>
          obtain ⟨effects, hadmin, hrun⟩ := Option.bind_eq_some_iff.mp hstep
          have hbase : Sound { s with
              offset := (readFifo s.offset adminBufSize).2
              demands := s.demands ++ s.asked readFifo stack } :=
            ⟨hsound.holds, hsound.numbers, hsound.apart⟩
          obtain ⟨hframe, hstopped, hsends⟩ :=
            hbase.admin hat.2 halive hadmin hrun
          exact .admin hat.1 hframe.offset
            ⟨hframe.globals, hframe.joined, hframe.demands, hframe.down,
              hstopped, hsends⟩
        · cases hstep
    | sigterm pipe =>
        dsimp only at hstep
        split at hstep
        · cases hstep
        · have hbase : Sound { s with
              demands := s.demands ++ [.sigterm], terminating := true } :=
            ⟨hsound.holds, hsound.numbers, hsound.apart⟩
          obtain ⟨hframe, hdown, hsends⟩ := hbase.hostShutdown hstep
          exact .sigterm hframe.offset
            ⟨hframe.globals, hframe.joined, hframe.demands, hframe.down,
              fun _ => hdown, hsends⟩
  · cases hstep

/-- Every step keeps the clients apart. -/
theorem Sound.took (hsound : s.Sound)
    (htook : s.Took readFifo stack act next) : next.Sound := by
  obtain ⟨map, hholds⟩ := hsound.holds
  cases htook with
  | @accept client globals hunused hadd =>
      obtain ⟨hpid, hpipe, hother⟩ := hunused
      obtain ⟨hmap, hclients⟩ :=
        hholds.accept (fun other hmem => (hother other hmem).1) hadd
      refine ⟨hmap, fun other hmem => ?_, ?_⟩
      · rcases hclients other hmem with rfl | hold
        · exact ⟨hpid, hpipe⟩
        · exact hsound.numbers other hold
      · intro left hleft right hright hsame
        rcases hclients left hleft with rfl | hl <;>
          rcases hclients right hright with rfl | hr
        · rfl
        · exact absurd hsame.symm (hother right hr).2
        · exact absurd hsame (hother left hl).2
        · exact hsound.apart left hl right hr hsame
  | childQuit hclose =>
      obtain ⟨hmap, hclients⟩ := hholds.childQuit hclose
      exact ⟨hmap, fun other hmem => hsound.numbers other (hclients other hmem),
        fun left hleft right hright =>
          hsound.apart left (hclients left hleft) right (hclients right hright)⟩
  | admin _ _ hposted | sigterm _ hposted =>
      have hglobals := hposted.globals
      exact ⟨hglobals ▸ hsound.holds, hglobals ▸ hsound.numbers,
        hglobals ▸ hsound.apart⟩

/-- What a client is due grows by the orders the new demands are for it. -/
theorem Posted.due {pipe : Int → PipeEnd} {new : List Demand}
    (hposted : Posted pipe s next new) {client : TGClient}
    (hjoined : s.joined client.writePipe ≤ s.demands.length) :
    next.due client =
      s.due client ++ new.filterMap (Demand.order client.pid) := by
  rw [MainProcess.due, hposted.joined, hposted.demands,
    List.drop_append_of_le_length hjoined, List.filterMap_append]
  rfl

theorem orderStream_append (first rest : List Order) :
    orderStream (first ++ rest) = orderStream first ++ orderStream rest :=
  List.flatMap_append

/-- What the pipe of a client holds are orders that were for it, and that came
after it. -/
def Ordered (s : MainProcess) (client : TGClient) : Prop :=
  s.joined client.writePipe ≤ s.demands.length ∧
    ∃ orders, s.contents client.writePipe = orderStream orders ∧
      orders.Sublist (s.due client)

theorem Posted.ordered {pipe : Int → PipeEnd} {new : List Demand}
    (hposted : Posted pipe s next new) {client : TGClient}
    (hclient : client ∈ s.globals.clients) (hordered : s.Ordered client) :
    next.Ordered client := by
  obtain ⟨hjoined, orders, hcontents, hsub⟩ := hordered
  obtain ⟨got, hgot, hnew, -⟩ := hposted.sends client hclient
  refine ⟨?_, orders ++ got, ?_, ?_⟩
  · rw [hposted.joined, hposted.demands, List.length_append]
    exact Nat.le_add_right_of_le hjoined
  · rw [hgot, hcontents, orderStream_append]
  · rw [hposted.due hjoined]
    exact hsub.append hnew

/-- A new client has nothing to begin with and is due nothing. -/
theorem accepted_same (s : MainProcess) (client : TGClient)
    (globals : Globals) :
    (s.accepted client globals).joined client.writePipe = s.demands.length ∧
      (s.accepted client globals).contents client.writePipe = [] ∧
      (s.accepted client globals).due client = [] := by
  have hjoined : (s.accepted client globals).joined client.writePipe =
      s.demands.length := Function.update_self _ _ _
  refine ⟨hjoined, Function.update_self _ _ _, ?_⟩
  rw [due, hjoined]
  exact congrArg _ List.drop_length

/-- The others keep what they have. -/
theorem accepted_other (s : MainProcess) {client other : TGClient}
    (globals : Globals) (hne : other.writePipe ≠ client.writePipe) :
    (s.accepted client globals).joined other.writePipe =
        s.joined other.writePipe ∧
      (s.accepted client globals).contents other.writePipe =
        s.contents other.writePipe ∧
      (s.accepted client globals).due other = s.due other := by
  have hjoined : (s.accepted client globals).joined other.writePipe =
      s.joined other.writePipe := Function.update_of_ne hne _ _
  refine ⟨hjoined, Function.update_of_ne hne _ _, ?_⟩
  rw [due, hjoined]
  rfl

/-- A client that stays has what it had; a new one has nothing. -/
theorem ordered_took (hsound : s.Sound)
    (hordered : ∀ client ∈ s.globals.clients, s.Ordered client)
    (htook : s.Took readFifo stack act next) :
    ∀ client ∈ next.globals.clients, next.Ordered client := by
  obtain ⟨map, hholds⟩ := hsound.holds
  intro client hclient
  cases htook with
  | @accept fresh globals hunused hadd =>
      obtain ⟨-, hclients⟩ :=
        hholds.accept (fun other hmem => (hunused.2.2 other hmem).1) hadd
      rcases hclients client hclient with rfl | hold
      · obtain ⟨hjoined, hcontents, -⟩ := s.accepted_same client globals
        exact ⟨Nat.le_of_eq hjoined, [], hcontents, List.nil_sublist _⟩
      · obtain ⟨hjoined, hcontents, hdue⟩ :=
          s.accepted_other globals (hunused.2.2 client hold).2
        rw [Ordered, hjoined, hcontents, hdue]
        exact hordered client hold
  | childQuit hclose =>
      exact hordered client ((hholds.childQuit hclose).2 client hclient)
  | admin _ _ hposted | sigterm _ hposted =>
      rw [hposted.globals] at hclient
      exact hposted.ordered hclient (hordered client hclient)

/-- With a reader on its pipe the client has all the orders it is due. -/
theorem delivered_took {pid : TgPid} (hsound : s.Sound)
    (hordered : ∀ client ∈ s.globals.clients, s.Ordered client)
    (hdelivered : ∀ client ∈ s.globals.clients, client.pid = pid →
      s.contents client.writePipe = orderStream (s.due client))
    (hkept : ∀ pipe, (∃ outFd, act = .admin pipe outFd) ∨
        act = .sigterm pipe →
      ∀ client ∈ s.globals.clients, client.pid = pid →
        pipe client.writePipe = .reader)
    (htook : s.Took readFifo stack act next) (halive : next.alive = true) :
    ∀ client ∈ next.globals.clients, client.pid = pid →
      next.contents client.writePipe = orderStream (next.due client) := by
  obtain ⟨map, hholds⟩ := hsound.holds
  have hposts : ∀ {pipe new}, Posted pipe s next new →
      (∀ client ∈ s.globals.clients, client.pid = pid →
        pipe client.writePipe = .reader) →
      ∀ client ∈ next.globals.clients, client.pid = pid →
        next.contents client.writePipe = orderStream (next.due client) := by
    intro pipe new hposted hreaders client hclient hpid
    rw [hposted.globals] at hclient
    obtain ⟨got, hgot, -, hall⟩ := hposted.sends client hclient
    rw [hgot, hall halive (hreaders client hclient hpid),
      hdelivered client hclient hpid,
      hposted.due (hordered client hclient).1, orderStream_append]
  cases htook with
  | @accept fresh globals hunused hadd =>
      intro client hclient hpid
      obtain ⟨-, hclients⟩ :=
        hholds.accept (fun other hmem => (hunused.2.2 other hmem).1) hadd
      rcases hclients client hclient with rfl | hold
      · obtain ⟨-, hcontents, hdue⟩ := s.accepted_same client globals
        rw [hcontents, hdue]
        rfl
      · obtain ⟨-, hcontents, hdue⟩ :=
          s.accepted_other globals (hunused.2.2 client hold).2
        rw [hcontents, hdue]
        exact hdelivered client hold hpid
  | childQuit hclose =>
      exact fun client hclient =>
        hdelivered client ((hholds.childQuit hclose).2 client hclient)
  | @admin pipe outFd _ _ _ hposted =>
      exact hposts hposted (hkept pipe (.inl ⟨outFd, rfl⟩))
  | @sigterm pipe _ _ hposted =>
      exact hposts hposted (hkept pipe (.inr rfl))

theorem filterMap_asks (octets stack : List Byte) :
    (asks octets stack).filterMap Demand.isCommand =
      (adminCommand octets stack).toList := by
  rw [asks]
  cases adminCommand octets stack <;> rfl

/-- A call of `do_admin` comes first among those still to come. -/
theorem adminCommands_asked (m : Nat) :
    adminCommands readFifo stack (m + 1) s.offset =
      (s.asked readFifo stack).filterMap Demand.isCommand ++
        if .shutDown ∈ (s.asked readFifo stack).filterMap Demand.isCommand
        then []
        else adminCommands readFifo stack m
          (readFifo s.offset adminBufSize).2 := by
  rw [asked, filterMap_asks, adminCommands]
  obtain ⟨result, offset⟩ := readFifo s.offset adminBufSize
  cases result with
  | failed =>
      have hnone : adminCommand [] (stack s.offset) = none := rfl
      simp [ReadResult.octets, hnone]
  | data octets =>
      dsimp only [ReadResult.octets]
      split <;> rename_i hcommand <;> simp [hcommand]

/-- The commands executed are those that the calls of `do_admin` so far make of
what they read, and none comes after a shutdown. -/
def Executed (readFifo : Descriptor Nat) (stack : Nat → List Byte)
    (s : MainProcess) : Prop :=
  (∃ n, ∀ m, adminCommands readFifo stack (n + m) 0 = s.commands ++
      if .shutDown ∈ s.commands then []
      else adminCommands readFifo stack m s.offset) ∧
    (.shutDown ∈ s.commands → s.down = true)

theorem Posted.commands {pipe : Int → PipeEnd} {new : List Demand}
    (hposted : Posted pipe s next new) :
    next.commands = s.commands ++ new.filterMap Demand.isCommand := by
  rw [MainProcess.commands, hposted.demands, List.filterMap_append]
  rfl

theorem Posted.downs {pipe : Int → PipeEnd} {new : List Demand}
    (hposted : Posted pipe s next new)
    (hstopped : .shutDown ∈ s.commands → s.down = true)
    (hmem : .shutDown ∈ next.commands) : next.down = true := by
  rw [hposted.commands, List.mem_append] at hmem
  rcases hmem with hold | hnew
  · exact hposted.down (hstopped hold)
  · obtain ⟨demand, hdemand, hcommand⟩ := List.mem_filterMap.mp hnew
    cases demand with
    | sigterm => cases hcommand
    | command cmd =>
        obtain rfl := Option.some.inj hcommand
        exact hposted.stopped hdemand

theorem Executed.took (hexecuted : s.Executed readFifo stack)
    (htook : s.Took readFifo stack act next) :
    next.Executed readFifo stack := by
  obtain ⟨⟨n, hruns⟩, hstopped⟩ := hexecuted
  cases htook with
  | accept hunused hadd => exact ⟨⟨n, hruns⟩, hstopped⟩
  | childQuit hclose => exact ⟨⟨n, hruns⟩, hstopped⟩
  | admin hup hoffset hposted =>
      refine ⟨⟨n + 1, fun m => ?_⟩, hposted.downs hstopped⟩
      have hnot : .shutDown ∉ s.commands := fun hmem => by
        rw [hstopped hmem] at hup
        cases hup
      have hrun := hruns (m + 1)
      rw [if_neg hnot, adminCommands_asked, ← List.append_assoc,
        ← hposted.commands, ← hoffset] at hrun
      rw [Nat.add_right_comm, Nat.add_assoc, hrun, hposted.commands]
      simp only [List.mem_append, hnot, false_or]
  | sigterm hoffset hposted =>
      have hsame : next.commands = s.commands :=
        hposted.commands.trans (List.append_nil _)
      refine ⟨⟨n, fun m => ?_⟩, hposted.downs hstopped⟩
      rw [hsame, hoffset]
      exact hruns m

end Steps

/-- The process with the given id can be written to. -/
def KeepsReader (pid : TgPid) (s : MainProcess) : MainAct → Prop
  | .admin pipe _ | .sigterm pipe => ∀ client ∈ s.globals.clients,
      client.pid = pid → pipe client.writePipe = .reader
  | .accept _ | .childQuit _ => True

section Runs

variable {inherited : SigNo → Disposition} {readFifo : Descriptor Nat}
variable {stack : Nat → List Byte} {g : Globals}

/-- What holds in every run. -/
structure Inv (readFifo : Descriptor Nat) (stack : Nat → List Byte)
    (s : MainProcess) : Prop where
  sound : s.Sound
  ordered : ∀ client ∈ s.globals.clients, s.Ordered client
  executed : s.Executed readFifo stack

theorem inv_start (hempty : HoldsMap g fun _ => none) :
    (mainProcess inherited readFifo stack g).start.Inv readFifo stack := by
  have hnone : ∀ client, client ∉ g.clients := by
    intro client hclient
    have hmap := hempty.mem_clients.mp hclient
    cases hmap
  refine ⟨⟨⟨_, hempty⟩, ?_, ?_⟩, ?_, ⟨0, fun m => ?_⟩, ?_⟩
  · exact fun client hclient => absurd hclient (hnone client)
  · exact fun left hleft => absurd hleft (hnone left)
  · exact fun client hclient => absurd hclient (hnone client)
  · rw [Nat.zero_add]
    rfl
  · exact fun hmem => absurd hmem List.not_mem_nil

theorem Inv.step {s next : MainProcess} {act : MainAct}
    (hinv : s.Inv readFifo stack)
    (hstep : s.step inherited readFifo stack act = some next) :
    next.Inv readFifo stack := by
  have htook := (hinv.sound.step_took hstep).2
  exact ⟨hinv.sound.took htook, ordered_took hinv.sound hinv.ordered htook,
    hinv.executed.took htook⟩

theorem inv_reachable (hempty : HoldsMap g fun _ => none) {s : MainProcess}
    (hreach : (mainProcess inherited readFifo stack g).Reachable s) :
    s.Inv readFifo stack := by
  apply hreach.invariant (inv_start hempty)
  intro state act next hinv hstep
  exact hinv.step hstep

end Runs

end MainProcess

section Orders

variable {inherited : SigNo → Disposition} {stack : Nat → List Byte}
variable {g : Globals} {s : MainProcess} {client : TGClient}

/-- What a process makes of the pipe of a client, whatever its reads. -/
theorem MainProcess.Ordered.sublist (hordered : s.Ordered client) {σ : Type}
    {pCli : TGClient} (hpipe : 0 ≤ pCli.readPipe) (readSock : Descriptor σ)
    (junk : σ → Nat → Byte) (pipeAvail : Nat → Nat)
    {behind : Nat → List Byte} (hfew : ∀ offset, FewDigits (behind offset))
    (rounds : List Ready) (sock : σ) :
    ((signalsFrom .mainProcess (deamonRead pCli readSock junk
        (Source.read ⟨s.contents client.writePipe, pipeAvail⟩) behind rounds
        sock 0)).filter (dispatched ·.type)).Sublist
      ((s.due client).map Order.signal) := by
  obtain ⟨-, orders, hcontents, hsub⟩ := hordered
  have hat : At ⟨s.contents client.writePipe, pipeAvail⟩ 0 0 orders :=
    ⟨hcontents, Nat.zero_le _⟩
  rw [deamonRead_mainProcess]
  exact (pipeSignals_sublist hpipe hfew hat _).trans (hsub.map _)

variable (hempty : HoldsMap g fun _ => none)

include hempty

/-- What was sent while the pipe of the client had a reader is in it. -/
theorem MainProcess.contents_due {readFifo : Descriptor Nat}
    (hreach : (mainProcess inherited readFifo stack g).GuardedReachable
      (MainProcess.KeepsReader client.pid) s) (halive : s.alive = true)
    (hclient : client ∈ s.globals.clients) :
    s.contents client.writePipe = orderStream (s.due client) := by
  have hinv : s.Inv readFifo stack ∧ (s.alive = true →
      ∀ other ∈ s.globals.clients, other.pid = client.pid →
        s.contents other.writePipe = orderStream (s.due other)) := by
    apply hreach.invariant
    · have hstart : (mainProcess inherited readFifo stack g).start.Inv readFifo
        stack := MainProcess.inv_start hempty
      refine ⟨hstart, fun _ other hother => ?_⟩
      have hmap := hempty.mem_clients.mp hother
      cases hmap
    · rintro state act next ⟨hinv, hdelivered⟩ hkept hstep
      refine ⟨hinv.step hstep, fun hlive => ?_⟩
      obtain ⟨hbefore, htook⟩ := hinv.sound.step_took hstep
      refine MainProcess.delivered_took hinv.sound hinv.ordered
        (hdelivered hbefore) ?_ htook hlive
      rintro pipe (⟨outFd, rfl⟩ | rfl)
      · exact hkept
      · exact hkept
  exact hinv.2 halive client hclient rfl

/-- From the FIFO to the threads of the clients: whatever the FIFO returns, the
order in which clients come and go and signals arrive, and however the reads of
the client are grouped, the orders a client process handles are some of those
executed for it since it was accepted, in order; and where the FIFO holds
commands in whole writes, what is executed are some of the commands written. -/
theorem mainProcess_orders {readFifo : Descriptor Nat}
    (hreach : (mainProcess inherited readFifo stack g).Reachable s)
    (hclient : client ∈ s.globals.clients) {σ : Type} (pCli : TGClient)
    (hpipe : 0 ≤ pCli.readPipe) (readSock : Descriptor σ)
    (junk : σ → Nat → Byte) (pipeAvail : Nat → Nat)
    (behind : Nat → List Byte) (hfew : ∀ offset, FewDigits (behind offset))
    (rounds : List Ready) (sock : σ) :
    ((signalsFrom .mainProcess (deamonRead pCli readSock junk
        (Source.read ⟨s.contents client.writePipe, pipeAvail⟩) behind rounds
        sock 0)).filter (dispatched ·.type)).Sublist
      ((s.due client).map Order.signal) ∧
    ∀ (commands : List AdminOrder) (avail : Nat → Nat),
      readFifo = Source.read ⟨adminStream commands, avail⟩ →
      WholeWrites ⟨adminStream commands, avail⟩ commands →
      (∀ order ∈ commands, ∀ offset, order.Terminated (stack offset)) →
      s.commands.Sublist (commands.map AdminOrder.command) := by
  obtain ⟨-, hordered, ⟨n, hruns⟩, -⟩ :=
    MainProcess.inv_reachable hempty hreach
  constructor
  · exact (hordered client hclient).sublist hpipe readSock junk pipeAvail hfew
      rounds sock
  · rintro commands avail rfl hwhole hterminated
    have hexecuted : adminCommands (Source.read ⟨adminStream commands, avail⟩)
        stack n 0 = s.commands := by
      have hrun := hruns 0
      rw [Nat.add_zero] at hrun
      rw [hrun]
      split
      · exact List.append_nil _
      · exact List.append_nil _
    have hplace : (adminStream commands).drop 0 = [] ++ adminStream commands :=
      rfl
    rw [← hexecuted]
    exact adminCommands_sublist hwhole hterminated n List.suffix_rfl hplace
      List.not_mem_nil

/-- As long as a client process lives while orders are sent, and the main
process does, the pipe of the client holds every order executed for it since
it was accepted, and reads that respect the messages give it those orders and
no others. -/
theorem mainProcess_delivers {readFifo : Descriptor Nat}
    (hreach : (mainProcess inherited readFifo stack g).GuardedReachable
      (MainProcess.KeepsReader client.pid) s) (halive : s.alive = true)
    (hclient : client ∈ s.globals.clients) {σ : Type} (pCli : TGClient)
    (hpipe : 0 ≤ pCli.readPipe) (readSock : Descriptor σ)
    (junk : σ → Nat → Byte) (pipeAvail : Nat → Nat)
    (behind : Nat → List Byte) (rounds : List Ready) (sock : σ)
    (henough : 10 * (s.due client).length ≤
      (liveRounds pCli readSock junk rounds sock).countP Ready.mPipe) :
    s.contents client.writePipe = orderStream (s.due client) ∧
    (signalsFrom .mainProcess (deamonRead pCli readSock junk
        (Source.read ⟨s.contents client.writePipe, pipeAvail⟩) behind rounds
        sock 0) = (s.due client).map Order.signal ↔
      OrdersAligned ⟨s.contents client.writePipe, pipeAvail⟩ behind 0
        (s.due client)) := by
  have hall := MainProcess.contents_due hempty hreach halive hclient
  have hat : At ⟨s.contents client.writePipe, pipeAvail⟩ 0 0 (s.due client) :=
    ⟨hall, Nat.zero_le _⟩
  refine ⟨hall, ?_⟩
  rw [deamonRead_mainProcess]
  exact pipeSignals_orders hpipe _ behind hat henough

end Orders

namespace MainProcess

/-- A listing, a command for a client and a shutdown. -/
def written : List AdminOrder :=
  [.listClients, .closeClient 77 (Nat.le_of_ble_eq_true rfl)
    (Nat.le_of_ble_eq_true rfl), .shutDown]

/-- Each read returns the rest of one command. -/
def avail (offset : Nat) : Nat :=
  if offset < 10 then 10 - offset
  else if offset < 22 then 22 - offset
  else 20

def fifo : Descriptor Nat := Source.read ⟨adminStream written, avail⟩

def client : TGClient :=
  ⟨77, -1, 7, 8, some (ascii "10.0.0.1"), 5000⟩

def readers : Int → PipeEnd := fun _ => .reader

/-- The client is accepted behind the listing and gets both orders. -/
def acts : List MainAct :=
  [.admin readers 5, .accept client, .admin readers 5, .admin readers 5]

def server : Machine MainProcess MainAct :=
  mainProcess (fun _ => .default) fifo (fun _ => []) (init .initial)

theorem written_whole : WholeWrites ⟨adminStream written, avail⟩ written := by
  intro offset
  by_cases hlt : offset < 32
  · right
    have hall : ∀ offset < 32, ∃ k ≤ 3, (adminStream written).drop
        (offset + (Source.chunk ⟨adminStream written, avail⟩ offset
          adminBufSize).length) = adminStream (written.drop k) := by
      decide
    obtain ⟨k, -, hk⟩ := hall offset hlt
    exact ⟨k, hk⟩
  · have hlength : (adminStream written).length = 32 := rfl
    refine Or.inr ⟨3, List.drop_eq_nil_of_le ?_⟩
    rw [hlength]
    omega

theorem server_empty : HoldsMap (init .initial) fun _ => none :=
  (init_holds rfl rfl).1

theorem acts_guarded :
    server.Guarded (KeepsReader client.pid) server.start acts :=
  ⟨fun _ _ _ => rfl, fun _ _ => ⟨trivial, fun _ _ =>
    ⟨fun _ _ _ => rfl, fun _ _ => ⟨fun _ _ _ => rfl, fun _ _ => trivial⟩⟩⟩⟩

open ControlPipe (closedSock)

theorem mainProcess_orders_acts :
    ∃ s, server.run server.start acts = some s ∧
      client ∈ s.globals.clients ∧ s.due client = [.close, .shutDown] ∧
      ((signalsFrom .mainProcess (deamonRead ControlPipe.client closedSock
          (fun _ _ => 7) (Source.read ⟨s.contents client.writePipe,
            fun _ => 10⟩) (fun _ => [0]) (List.replicate 20 ⟨false, true⟩) ()
          0)).filter (dispatched ·.type)).Sublist
        ((s.due client).map Order.signal) ∧
      s.commands.Sublist (written.map AdminOrder.command) := by
  have hcheck : (server.run server.start acts).any (fun s =>
      decide (client ∈ s.globals.clients ∧
        s.due client = [.close, .shutDown])) = true := by
    decide +kernel
  obtain ⟨s, hrun, hat⟩ := (Option.any_eq_true _ _).mp hcheck
  obtain ⟨hclient, hdue⟩ := of_decide_eq_true hat
  have hterminated : ∀ order ∈ written, ∀ _offset : Nat,
      order.Terminated [] := by
    intro order horder _
    simp only [written, List.mem_cons, List.not_mem_nil, or_false] at horder
    rcases horder with rfl | rfl | rfl
    · trivial
    · exact fun hten => absurd hten (by decide)
    · trivial
  have horders := mainProcess_orders server_empty ⟨acts, hrun⟩ hclient
    ControlPipe.client (by decide) closedSock (fun _ _ => 7) (fun _ => 10)
    (fun _ => [0]) (fun _ => by decide) (List.replicate 20 ⟨false, true⟩) ()
  exact ⟨s, hrun, hclient, hdue, horders.1,
    horders.2 written avail rfl written_whole hterminated⟩

theorem mainProcess_delivers_acts :
    ∃ s, server.run server.start acts = some s ∧ s.alive = true ∧
      client ∈ s.globals.clients ∧ s.due client = [.close, .shutDown] ∧
      s.contents client.writePipe = orderStream (s.due client) ∧
      (signalsFrom .mainProcess (deamonRead ControlPipe.client closedSock
          (fun _ _ => 7) (Source.read ⟨s.contents client.writePipe,
            fun _ => 10⟩) (fun _ => [0]) (List.replicate 20 ⟨false, true⟩) ()
          0) = (s.due client).map Order.signal ↔
        OrdersAligned ⟨s.contents client.writePipe, fun _ => 10⟩
          (fun _ => [0]) 0 (s.due client)) := by
  have hcheck : (server.run server.start acts).any (fun s =>
      decide (s.alive = true ∧ client ∈ s.globals.clients ∧
        s.due client = [.close, .shutDown])) = true := by
    decide +kernel
  obtain ⟨s, hrun, hat⟩ := (Option.any_eq_true _ _).mp hcheck
  obtain ⟨halive, hclient, hdue⟩ := of_decide_eq_true hat
  have henough : 10 * (s.due client).length ≤
      (liveRounds ControlPipe.client closedSock (fun _ _ => 7)
        (List.replicate 20 ⟨false, true⟩) ()).countP Ready.mPipe := by
    rw [hdue]
    decide
  exact ⟨s, hrun, halive, hclient, hdue, mainProcess_delivers server_empty
    ⟨acts, acts_guarded, hrun⟩ halive hclient ControlPipe.client (by decide)
    closedSock (fun _ _ => 7) (fun _ => 10) (fun _ => [0])
    (List.replicate 20 ⟨false, true⟩) () henough⟩

end MainProcess

end TgServer
