/-
The message the main process writes to the pipes of all its clients, some of
which may have exited: what is attempted, what is delivered, and whether the
signal a write to a pipe without a reader raises ends the main process.
-/
import TgServer.Context

namespace TgServer

open Bytes

inductive SigNo where
  | sigchld
  | sigterm
  | sigpipe
deriving Repr, DecidableEq

inductive Disposition where
  /-- `SIG_DFL`; all three signals but `SIGCHLD` end the process. -/
  | default
  | ignored
  | handler
deriving Repr, DecidableEq

/-- The calls of `signal` in `startListen`: two signals get handlers, the others
keep the disposition the process inherited. -/
def startListenSignals (inherited : SigNo → Disposition) : SigNo → Disposition
  | .sigchld => .handler
  | .sigterm => .handler
  | signal => inherited signal

inductive PipeEnd where
  | reader
  | noReader
  /-- Anything else that makes `write` return -1. -/
  | refused
deriving Repr, DecidableEq

structure SendWorld where
  disposition : SigNo → Disposition
  pipe : Int → PipeEnd

inductive Sent where
  /-- Its result, and the writes that took place. -/
  | returned (ret : Int) (writes : List (Int × List Byte))
  | killed
deriving Repr, DecidableEq

def sendSignalToClient (w : SendWorld) (pCli : Option TGClient)
    (msg : Option (List Byte)) : Sent :=
  match pCli, msg with
  | some pCli, some msg =>
      if pCli.writePipe < 0 then .returned (-1) []
      else
        match w.pipe pCli.writePipe with
        | .reader => .returned 0 [(pCli.writePipe, msg)]
        | .noReader =>
            if w.disposition .sigpipe = .default then .killed
            else .returned (-1) []
        | .refused => .returned (-1) []
  | _, _ => .returned (-1) []

/-- What `sendSignalToAllClients` has done so far: the clients it has called
`sendSignalToClient` for, the writes that took place, its counter, and whether
the process is still there. -/
structure Sending where
  attempted : List TGClient
  writes : List (Int × List Byte)
  errCount : Nat
  alive : Bool
deriving Repr, DecidableEq

def Sending.start : Sending := ⟨[], [], 0, true⟩

def sendSignalFrom (w : SendWorld) (slots : List (Option TGClient))
    (msg : Option (List Byte)) : Nat → Nat → Sending → Option Sending
  | 0, _, s => some s
  | n + 1, i, s => do
      match ← slots[i]? with
      | none => sendSignalFrom w slots msg n (i + 1) s
      | some pC =>
          let attempted := s.attempted ++ [pC]
          match sendSignalToClient w (some pC) msg with
          | .killed => return { s with attempted := attempted, alive := false }
          | .returned ret writes =>
              sendSignalFrom w slots msg n (i + 1)
                { s with
                  attempted := attempted
                  writes := s.writes ++ writes
                  errCount := if ret ≠ 0 then s.errCount + 1
                    else s.errCount }

/-- The counter is the result. -/
def sendSignalToAllClients (w : SendWorld) (g : Globals)
    (msg : Option (List Byte)) : Option Sending :=
  sendSignalFrom w g.slots msg g.clientsArSize 0 .start

def CanReceive (w : SendWorld) (client : TGClient) : Bool :=
  decide (0 ≤ client.writePipe) && decide (w.pipe client.writePipe = .reader)

/-- The message is attempted once for each client in the table and delivered
to those that can get it, the result is the number of the others, and the
process goes on. -/
def SendsToAll (w : SendWorld) (g : Globals) (msg : List Byte) : Prop :=
  sendSignalToAllClients w g (some msg) = some
    { attempted := g.clients
      writes := (g.clients.filter (CanReceive w)).map (·.writePipe, msg)
      errCount := (g.clients.filter fun client => !CanReceive w client).length
      alive := true }

instance (w : SendWorld) (g : Globals) (msg : List Byte) :
    Decidable (SendsToAll w g msg) :=
  inferInstanceAs (Decidable (_ = _))

def BrokenPipe (w : SendWorld) (client : TGClient) : Prop :=
  0 ≤ client.writePipe ∧ w.pipe client.writePipe = .noReader

instance (w : SendWorld) (client : TGClient) : Decidable (BrokenPipe w client) :=
  inferInstanceAs (Decidable (_ ∧ _))

section Loop

variable (w : SendWorld) (msg : List Byte)

theorem sendSignalToClient_killed {client : TGClient}
    (hdefault : w.disposition .sigpipe = .default)
    (hbroken : BrokenPipe w client) :
    sendSignalToClient w (some client) (some msg) = .killed := by
  have hnot : ¬ client.writePipe < 0 := by
    have hpipe := hbroken.1
    omega
  simp [sendSignalToClient, hnot, hbroken.2, hdefault]

/-- Otherwise the call writes to a client that can get the message, and fails
for any other. -/
theorem sendSignalToClient_returned {client : TGClient}
    (hgood : w.disposition .sigpipe = .default → ¬ BrokenPipe w client) :
    sendSignalToClient w (some client) (some msg) =
      if CanReceive w client then .returned 0 [(client.writePipe, msg)]
      else .returned (-1) [] := by
  by_cases hclosed : client.writePipe < 0
  · have hnot : ¬ 0 ≤ client.writePipe := by omega
    simp [sendSignalToClient, CanReceive, hclosed, hnot]
  have hopen : 0 ≤ client.writePipe := by omega
  cases hpipe : w.pipe client.writePipe with
  | reader => simp [sendSignalToClient, CanReceive, hclosed, hopen, hpipe]
  | refused => simp [sendSignalToClient, CanReceive, hclosed, hpipe]
  | noReader =>
      have hcaught : w.disposition .sigpipe ≠ .default := fun hdefault =>
        hgood hdefault ⟨hopen, hpipe⟩
      simp [sendSignalToClient, CanReceive, hclosed, hpipe, hcaught]

def Sending.after (s : Sending) (w : SendWorld) (msg : List Byte)
    (clients : List TGClient) : Sending where
  attempted := s.attempted ++ clients
  writes := s.writes ++ (clients.filter (CanReceive w)).map (·.writePipe, msg)
  errCount := s.errCount +
    (clients.filter fun client => !CanReceive w client).length
  alive := s.alive

/-- Without a deadly signal the loop gets through all slots. -/
theorem sendSignalFrom_all (slots : List (Option TGClient)) (n i : Nat)
    (s : Sending) (hfits : i + n = slots.length)
    (hgood : ∀ client ∈ (slots.drop i).reduceOption,
      w.disposition .sigpipe = .default → ¬ BrokenPipe w client) :
    sendSignalFrom w slots (some msg) n i s =
      some (s.after w msg (slots.drop i).reduceOption) := by
  induction n generalizing i s with
  | zero =>
      have hnil : slots.drop i = [] := List.drop_eq_nil_of_le (by omega)
      simp [sendSignalFrom, hnil, Sending.after, List.reduceOption]
  | succ n ih =>
      have hlt : i < slots.length := by omega
      have hdrop := List.drop_eq_getElem_cons hlt
      rw [hdrop] at hgood ⊢
      rw [sendSignalFrom, List.getElem?_eq_getElem hlt]
      simp only [Option.bind_eq_bind, Option.bind_some]
      cases hslot : slots[i] with
      | none =>
          rw [hslot, List.reduceOption_cons_of_none] at hgood
          rw [List.reduceOption_cons_of_none]
          exact ih (i + 1) s (by omega) hgood
      | some pC =>
          rw [hslot, List.reduceOption_cons_of_some] at hgood
          rw [List.reduceOption_cons_of_some]
          have hcall := sendSignalToClient_returned w msg
            (hgood pC List.mem_cons_self)
          have hrest : ∀ client ∈ (slots.drop (i + 1)).reduceOption,
              w.disposition .sigpipe = .default → ¬ BrokenPipe w client :=
            fun client hclient => hgood client (List.mem_cons_of_mem _ hclient)
          cases hreach : CanReceive w pC with
          | true =>
              simp only [hcall, hreach, ↓reduceIte]
              rw [ih (i + 1) _ (by omega) hrest]
              simp [Sending.after, hreach]
          | false =>
              simp only [hcall, hreach, Bool.false_eq_true, ↓reduceIte]
              rw [ih (i + 1) _ (by omega) hrest]
              simp [Sending.after, hreach, Nat.add_comm, Nat.add_assoc]

/-- A broken pipe ahead ends the process if the signal is not caught. -/
theorem sendSignalFrom_killed (slots : List (Option TGClient)) (n i : Nat)
    (s : Sending) (hfits : i + n = slots.length)
    (hdefault : w.disposition .sigpipe = .default)
    (hbroken : ∃ client ∈ (slots.drop i).reduceOption, BrokenPipe w client) :
    ∃ last, sendSignalFrom w slots (some msg) n i s = some last ∧
      last.alive = false := by
  induction n generalizing i s with
  | zero =>
      have hnil : slots.drop i = [] := List.drop_eq_nil_of_le (by omega)
      obtain ⟨client, hclient, -⟩ := hbroken
      rw [hnil] at hclient
      cases hclient
  | succ n ih =>
      have hlt : i < slots.length := by omega
      rw [List.drop_eq_getElem_cons hlt] at hbroken
      rw [sendSignalFrom, List.getElem?_eq_getElem hlt]
      simp only [Option.bind_eq_bind, Option.bind_some]
      cases hslot : slots[i] with
      | none =>
          rw [hslot, List.reduceOption_cons_of_none] at hbroken
          exact ih (i + 1) s (by omega) hbroken
      | some pC =>
          rw [hslot, List.reduceOption_cons_of_some] at hbroken
          dsimp only
          by_cases hfirst : BrokenPipe w pC
          · rw [sendSignalToClient_killed w msg hdefault hfirst]
            exact ⟨_, rfl, rfl⟩
          · obtain ⟨client, hclient, hpipe⟩ := hbroken
            have hlater : client ∈ (slots.drop (i + 1)).reduceOption := by
              rcases List.mem_cons.mp hclient with rfl | hmem
              · exact absurd hpipe hfirst
              · exact hmem
            rw [sendSignalToClient_returned w msg fun _ => hfirst]
            split
            · rename_i hkilled
              split at hkilled <;> cases hkilled
            · exact ih (i + 1) _ (by omega) ⟨client, hlater, hpipe⟩

end Loop

/-- The message reaches every client that can get it, whatever has become of
the others, exactly if no pipe in the table has lost its reader or the process
was started with `SIGPIPE` ignored. -/
theorem sendsToAll_iff (g : Globals)
    (hfits : g.slots.length = g.clientsArSize)
    (inherited : SigNo → Disposition) (pipe : Int → PipeEnd)
    (msg : List Byte) :
    SendsToAll ⟨startListenSignals inherited, pipe⟩ g msg ↔
      inherited .sigpipe ≠ .default ∨
        ∀ client ∈ g.clients,
          ¬ BrokenPipe ⟨startListenSignals inherited, pipe⟩ client := by
  have hsame : startListenSignals inherited .sigpipe = inherited .sigpipe := rfl
  have hlength : 0 + g.clientsArSize = g.slots.length := by
    rw [Nat.zero_add, hfits]
  constructor
  · intro hall
    by_contra hnot
    rw [not_or, not_not] at hnot
    obtain ⟨hdefault, hbroken⟩ := hnot
    simp only [not_forall, not_not] at hbroken
    obtain ⟨client, hclient, hpipe⟩ := hbroken
    obtain ⟨last, hlast, hdead⟩ := sendSignalFrom_killed
      ⟨startListenSignals inherited, pipe⟩ msg g.slots g.clientsArSize 0 .start hlength
      (hsame.trans hdefault) ⟨client, hclient, hpipe⟩
    rw [SendsToAll, sendSignalToAllClients, hlast, Option.some.injEq] at hall
    rw [hall] at hdead
    cases hdead
  · intro hcause
    rw [SendsToAll, sendSignalToAllClients, sendSignalFrom_all _ msg g.slots
      g.clientsArSize 0 .start hlength]
    · simp [Sending.after, Sending.start, Globals.clients]
    · intro client hclient hdefault
      rcases hcause with hignored | hgood
      · exact absurd (hsame.symm.trans hdefault) hignored
      · exact hgood client hclient

namespace SendSignals

/-- Three clients, behind a hole: the first two have exited, one of them with
its pipe already closed here, the third is alive. -/
def table : Globals :=
  ⟨some [none, some ⟨101, -1, 7, 8, none, 0⟩, some ⟨102, -1, 9, -1, none, 0⟩,
    some ⟨103, -1, 11, 12, none, 0⟩], 4, none, []⟩

def pipe : Int → PipeEnd
  | 8 => .noReader
  | 12 => .reader
  | _ => .refused

/-- With `SIGPIPE` ignored the third client gets the message. -/
theorem sendsToAll_iff_table :
    SendsToAll ⟨startListenSignals fun _ => .ignored, pipe⟩ table
        (ascii "tg://1003/") ↔
      Disposition.ignored ≠ .default ∨
        ∀ client ∈ table.clients,
          ¬ BrokenPipe ⟨startListenSignals fun _ => .ignored, pipe⟩ client :=
  sendsToAll_iff table rfl (fun _ => .ignored) pipe (ascii "tg://1003/")

/-- With the dispositions a process usually inherits the main process is ended
at the first client. -/
theorem sendsToAll_broken :
    sendSignalToAllClients ⟨startListenSignals fun _ => .default, pipe⟩ table
        (some (ascii "tg://1003/")) =
      some ⟨[⟨101, -1, 7, 8, none, 0⟩], [], 0, false⟩ ∧
    ¬ SendsToAll ⟨startListenSignals fun _ => .default, pipe⟩ table
      (ascii "tg://1003/") := by
  decide

end SendSignals

end TgServer
