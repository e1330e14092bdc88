/-
The listing `getCurrentClientsInfo` hands out, read back: each line is cut into
the process id, the address and the port it was made of.
-/
import Mathlib.Data.List.Forall2
import TgServer.AdminRequests
import TgServer.CurrentCounts
import TgServer.Separated

namespace TgServer

open Bytes Separated

/-- Four decimal numbers with dots between them. -/
def DottedQuad (ip : List Byte) : Prop :=
  ip.length ≤ 15 ∧ ∃ a b c d, ip = (ascii ".").intercalate [a, b, c, d] ∧
    ∀ part ∈ [a, b, c, d], part ≠ [] ∧
      ∀ digit ∈ part, Decimal.isDigit digit = true

/-- A client as `do_accept` records it. -/
structure Recorded (client : TGClient) : Prop where
  pidRange : 0 < client.pid ∧ client.pid < 2 ^ 31
  address : ∃ ip, client.clientIP = some ip ∧ DottedQuad ip
  portRange : 0 ≤ client.port ∧ client.port < 2 ^ 16

structure ClientRow where
  pid : Int
  ip : List Byte
  port : Int
deriving Repr, DecidableEq

def TGClient.row (client : TGClient) : ClientRow :=
  ⟨client.pid, client.clientIP.getD [], client.port⟩

/-- The texts in a line. -/
def TGClient.fields (client : TGClient) : List (List Byte) :=
  [Decimal.text client.pid, client.clientIP.getD [], Decimal.text client.port]

def readRow (line : List Byte) : Option ClientRow :=
  match split (ascii "\t\t") line with
  | [pid, ip, port] => some ⟨Decimal.atoi pid, ip, Decimal.atoi port⟩
  | _ => none

/-- The lines of a listing, each of them ended. -/
def readRows (text : List Byte) : Option (List ClientRow) :=
  (split (ascii "\r\n") text).dropLast.mapM readRow

/-- The text is made of lines and these of fields, with a separator in none of
them. -/
def LaidOut (text : List Byte) (rows : List (List (List Byte))) : Prop :=
  ∃ lines, Splits (ascii "\r\n") (lines ++ [[]]) text ∧
    List.Forall₂ (Splits (ascii "\t\t")) rows lines

/-- An octet of a number or an address. -/
def isField (c : Byte) : Bool := Decimal.isDigit c || c == char '.'

section Fields

theorem isField_natText (n : Nat) : ∀ c ∈ Decimal.natText n, isField c = true := by
  intro c hc
  rw [isField, Decimal.isDigit_natText hc, Bool.true_or]

theorem text_of_nonneg {n : Int} (hn : 0 ≤ n) :
    Decimal.text n = Decimal.natText n.natAbs := by
  rw [Decimal.text, if_neg (by omega)]

theorem notMem_tab {c : Byte} (hc : isField c = true) : c ∉ ascii "\t\t" := by
  intro hmem
  have htab : c = 9 := by simpa [ascii] using hmem
  rw [htab] at hc
  cases hc

theorem notMem_line {c : Byte} (hc : isField c = true) : c ∉ ascii "\r\n" := by
  intro hmem
  have hend : c = 13 ∨ c = 10 := by simpa [ascii] using hmem
  rcases hend with rfl | rfl <;> cases hc

theorem atoi_text_int {n : Int} (hlow : 0 ≤ n) (hhigh : n < 2 ^ 31) :
    Decimal.atoi (Decimal.text n) = n := by
  rw [Decimal.atoi_text (by omega) (by omega),
    Int.bmod_eq_of_le (by omega) (by omega)]

theorem DottedQuad.ne_nil {ip : List Byte} (hquad : DottedQuad ip) :
    ip ≠ [] := by
  obtain ⟨-, a, b, c, d, rfl, hparts⟩ := hquad
  have hfirst := (hparts a List.mem_cons_self).1
  rw [List.intercalate_cons_cons, List.append_assoc]
  exact List.append_ne_nil_of_left_ne_nil hfirst _

/-- An address is made of digits and dots. -/
theorem DottedQuad.isField {ip : List Byte} (hquad : DottedQuad ip) :
    ∀ c ∈ ip, isField c = true := by
  obtain ⟨-, a, b, c, d, rfl, hparts⟩ := hquad
  have hdigits : ∀ part ∈ [a, b, c, d], ∀ c ∈ part,
      TgServer.isField c = true := by
    intro part hpart c hc
    rw [TgServer.isField, (hparts part hpart).2 c hc, Bool.true_or]
  have hdots : ∀ c ∈ ascii ".", TgServer.isField c = true :=
    List.all_eq_true.mp (by decide)
  intro e he
  simp only [List.intercalate_cons_cons, List.intercalate_singleton,
    List.mem_append] at he
  rcases he with ((he | he) | (he | he) | (he | he) | he)
  · exact hdigits a (by simp) e he
  · exact hdots e he
  · exact hdigits b (by simp) e he
  · exact hdots e he
  · exact hdigits c (by simp) e he
  · exact hdots e he
  · exact hdigits d (by simp) e he

variable {client : TGClient} (hrecorded : Recorded client)

include hrecorded

/-- The address is short and made of digits and dots. -/
theorem Recorded.ip : ∃ ip, client.clientIP = some ip ∧ ip ≠ [] ∧
    ip.length ≤ 15 ∧ ∀ c ∈ ip, isField c = true := by
  obtain ⟨ip, hip, hquad⟩ := hrecorded.address
  exact ⟨ip, hip, hquad.ne_nil, hquad.1, hquad.isField⟩

theorem Recorded.listable : Listable client where
  address := by
    obtain ⟨ip, hip, -, hlength, hfield⟩ := hrecorded.ip
    refine ⟨ip, hip, hlength, fun hnul => ?_⟩
    have hzero := hfield 0 hnul
    cases hzero
  pidRange := ⟨Int.le_trans (by decide) (Int.le_of_lt hrecorded.pidRange.1),
    hrecorded.pidRange.2⟩
  portRange := by
    have hport := hrecorded.portRange
    omega

end Fields

section Listing

variable {client : TGClient} (hrecorded : Recorded client)

/-- The line of a client without its end. -/
def lineBody (client : TGClient) : List Byte :=
  (ascii "\t\t").intercalate client.fields

include hrecorded

theorem Recorded.clientLine :
    TgServer.clientLine client = some (lineBody client ++ ascii "\r\n") := by
  obtain ⟨ip, hip, -⟩ := hrecorded.ip
  simp [TgServer.clientLine, lineBody, TGClient.fields, hip,
    List.intercalate_cons_cons]

/-- The fields of a client can be told apart. -/
theorem Recorded.fields_clean : Clean (ascii "\t\t") client.fields ∧
    ∀ field ∈ client.fields, field ≠ [] ∧ ∀ c ∈ field, isField c = true := by
  obtain ⟨ip, hip, hsome, -, hfield⟩ := hrecorded.ip
  have hpid := text_of_nonneg (Int.le_of_lt hrecorded.pidRange.1)
  have hport := text_of_nonneg hrecorded.portRange.1
  have hall : ∀ field ∈ client.fields,
      field ≠ [] ∧ ∀ c ∈ field, isField c = true := by
    intro field hmem
    rw [TGClient.fields, hip, hpid, hport, Option.getD_some] at hmem
    simp only [List.mem_cons, List.not_mem_nil, or_false] at hmem
    rcases hmem with rfl | rfl | rfl
    · exact ⟨Decimal.natText_ne_nil _, isField_natText _⟩
    · exact ⟨hsome, hfield⟩
    · exact ⟨Decimal.natText_ne_nil _, isField_natText _⟩
  refine ⟨⟨?_, ?_⟩, hall⟩
  · intro field hmem c hc
    exact notMem_tab ((hall field hmem).2 c hc)
  · intro field hmem
    exact (hall field (List.dropLast_subset _ hmem)).1

/-- A line holds no line end. -/
theorem Recorded.lineBody_clean :
    lineBody client ≠ [] ∧ ∀ c ∈ lineBody client, c ∉ ascii "\r\n" := by
  obtain ⟨-, hall⟩ := hrecorded.fields_clean
  have htabs : ∀ c ∈ ascii "\t\t", c ∉ ascii "\r\n" := by
    intro c hc
    obtain rfl : c = 9 := by simpa [ascii] using hc
    decide
  rw [TGClient.fields] at hall
  rw [lineBody, TGClient.fields]
  simp only [List.intercalate_cons_cons, List.intercalate_singleton]
  constructor
  · have hpid := (hall _ List.mem_cons_self).1
    simp [hpid]
  · intro c hc
    simp only [List.mem_append] at hc
    rcases hc with (hc | hc) | (hc | hc) | hc
    · exact notMem_line ((hall _ (by simp)).2 c hc)
    · exact htabs c hc
    · exact notMem_line ((hall _ (by simp)).2 c hc)
    · exact htabs c hc
    · exact notMem_line ((hall _ (by simp)).2 c hc)

/-- A line is read back as the client it was made of. -/
theorem Recorded.readRow :
    TgServer.readRow (lineBody client) = some client.row := by
  have hsplit := split_intercalate (by decide)
    (List.cons_ne_nil _ _) hrecorded.fields_clean.1
  have hpid := atoi_text_int (Int.le_of_lt hrecorded.pidRange.1)
    hrecorded.pidRange.2
  have hport := atoi_text_int hrecorded.portRange.1
    (Int.lt_trans hrecorded.portRange.2 (by decide))
  rw [TgServer.readRow, lineBody, TGClient.fields, hsplit, TGClient.row]
  simp only [hpid, hport]

end Listing

section Text

variable {clients : List TGClient}
variable (hrecorded : ∀ client ∈ clients, Recorded client)

include hrecorded

theorem mapM_clientLine : clients.mapM clientLine =
    some (clients.map fun client => lineBody client ++ ascii "\r\n") := by
  apply SlotTable.mapM_of_map
  rw [List.map_map]
  exact List.map_congr_left fun client hclient =>
    (hrecorded client hclient).clientLine

theorem bodies_clean :
    Clean (ascii "\r\n") (clients.map lineBody ++ [[]]) where
  apart := by
    intro line hline c hc
    rcases List.mem_append.mp hline with hline | hline
    · obtain ⟨client, hclient, rfl⟩ := List.mem_map.mp hline
      exact (hrecorded client hclient).lineBody_clean.2 c hc
    · rw [List.mem_singleton.mp hline] at hc
      cases hc
  inner := by
    intro line hline
    rw [List.dropLast_concat] at hline
    obtain ⟨client, hclient, rfl⟩ := List.mem_map.mp hline
    exact (hrecorded client hclient).lineBody_clean.1

/-- The lines of the clients are read back as the clients. -/
theorem readRows_lines :
    readRows (clients.map fun client =>
      lineBody client ++ ascii "\r\n").flatten =
        some (clients.map TGClient.row) := by
  have hsplit := split_intercalate (by decide)
    (List.append_ne_nil_of_right_ne_nil _ (List.cons_ne_nil [] []))
    (bodies_clean hrecorded)
  rw [intercalate_terminated, List.map_map] at hsplit
  rw [readRows]
  change (split (ascii "\r\n") (clients.map ((· ++ ascii "\r\n") ∘
    lineBody)).flatten).dropLast.mapM readRow = _
  rw [hsplit, List.dropLast_concat]
  apply SlotTable.mapM_of_map
  rw [List.map_map, List.map_map]
  exact List.map_congr_left fun client hclient =>
    (hrecorded client hclient).readRow

theorem forall₂_fields_iff (rows : List (List (List Byte))) :
    List.Forall₂ (Splits (ascii "\t\t")) rows (clients.map lineBody) ↔
      rows = clients.map TGClient.fields := by
  induction clients generalizing rows with
  | nil => exact List.forall₂_nil_right_iff
  | cons client clients ih =>
      have hrest := ih fun other hother =>
        hrecorded other (List.mem_cons_of_mem client hother)
      have hfirst := splits_intercalate_iff (by decide)
        (List.cons_ne_nil _ _)
        (hrecorded client List.mem_cons_self).fields_clean.1
      rw [List.map_cons, List.map_cons, List.forall₂_cons_right_iff]
      constructor
      · rintro ⟨fields, more, hfields, hmore, rfl⟩
        rw [(hfirst fields).mp hfields, (hrest more).mp hmore]
        rfl
      · rintro rfl
        exact ⟨_, _, (hfirst _).mpr rfl, (hrest _).mpr rfl, rfl⟩

/-- There is no other way to take the text apart. -/
theorem laidOut_lines_iff (rows : List (List (List Byte))) :
    LaidOut (clients.map fun client =>
      lineBody client ++ ascii "\r\n").flatten rows ↔
        rows = clients.map TGClient.fields := by
  have htext : (clients.map fun client =>
      lineBody client ++ ascii "\r\n").flatten =
        (ascii "\r\n").intercalate (clients.map lineBody ++ [[]]) := by
    rw [intercalate_terminated, List.map_map]
    rfl
  have hlines := splits_intercalate_iff (by decide)
    (List.append_ne_nil_of_right_ne_nil _ (List.cons_ne_nil [] []))
    (bodies_clean hrecorded)
  rw [LaidOut, htext, ← forall₂_fields_iff hrecorded]
  constructor
  · rintro ⟨lines, hsplits, hrows⟩
    rw [List.append_cancel_right ((hlines _).mp hsplits)] at hrows
    exact hrows
  · intro hrows
    exact ⟨_, (hlines _).mpr rfl, hrows⟩

end Text

/-- The listing of a table whose clients are recorded by `do_accept` is stored
inside its buffers and is a string, which reads as the clients in the order of
their slots and can be taken apart in no other way. -/
theorem getCurrentClientsInfo_rows {g : Globals}
    (hreach : clientTable.Reachable g) (htable : g.gClients ≠ none)
    (hrecorded : ∀ client ∈ g.clients, Recorded client) :
    ∃ pData text, getCurrentClientsInfo g = some pData ∧
      pData.length = 50 * g.clientsArSize ∧ cString pData = some text ∧
      readRows text = some (g.clients.map TGClient.row) ∧
      ∀ rows, LaidOut text rows ↔ rows = g.clients.map TGClient.fields := by
  have hfits := fits_of_reachable hreach
  have hlistable : ∀ client ∈ g.clients, Listable client :=
    fun client hclient => (hrecorded client hclient).listable
  obtain ⟨lines, pData, hlines, hinfo, hlength, htext⟩ :=
    getCurrentClientsInfo_text hfits.size (hfits.grown htable) hlistable
  refine ⟨pData, lines.flatten, hinfo, hlength, htext, ?_⟩
  obtain rfl := Option.some.inj
    (hlines.symm.trans (mapM_clientLine hrecorded))
  exact ⟨readRows_lines hrecorded, laidOut_lines_iff hrecorded⟩

namespace ClientsInfo

def client (pid port : Int) (ip : String) : TGClient :=
  ⟨pid, 4, 5, 6, some (ascii ip), port⟩

/-- Three clients, of which the one in the middle has gone. -/
def ops : List TableOp :=
  [.init, .addClient (client 100 1024 "192.168.0.1"),
    .addClient (client 101 80 "10.0.0.1"),
    .addClient (client 2147483647 65535 "255.255.255.255"), .closeClient 101]

theorem numbers {parts : List (List Byte)}
    (hparts : (parts.all fun part =>
      !part.isEmpty && part.all Decimal.isDigit) = true) :
    ∀ part ∈ parts, part ≠ [] ∧
      ∀ digit ∈ part, Decimal.isDigit digit = true := by
  simpa [List.all_eq_true] using hparts

theorem recorded_first : Recorded (client 100 1024 "192.168.0.1") where
  pidRange := by decide
  address := ⟨_, rfl, by decide, ascii "192", ascii "168", ascii "0",
    ascii "1", by decide, numbers (by decide)⟩
  portRange := by decide

theorem recorded_last :
    Recorded (client 2147483647 65535 "255.255.255.255") where
  pidRange := by decide
  address := ⟨_, rfl, by decide, ascii "255", ascii "255", ascii "255",
    ascii "255", by decide, numbers (by decide)⟩
  portRange := by decide

theorem getCurrentClientsInfo_rows_ops :
    ∃ g pData text, clientTable.run clientTable.start ops = some g ∧
      getCurrentClientsInfo g = some pData ∧
      pData.length = 50 * g.clientsArSize ∧ cString pData = some text ∧
      readRows text = some (g.clients.map TGClient.row) ∧
      ∀ rows, LaidOut text rows ↔ rows = g.clients.map TGClient.fields := by
  obtain ⟨g, hrun, htable, hclients⟩ :
      ∃ g, clientTable.run clientTable.start ops = some g ∧
        g.gClients ≠ none ∧ g.clients =
          [client 100 1024 "192.168.0.1",
            client 2147483647 65535 "255.255.255.255"] :=
    ⟨_, rfl, Option.some_ne_none _, rfl⟩
  have hrecorded : ∀ client ∈ g.clients, Recorded client := by
    rw [hclients]
    simp only [List.forall_mem_cons]
    exact ⟨recorded_first, recorded_last, fun _ hnone => by cases hnone⟩
  obtain ⟨pData, text, hresult⟩ :=
    getCurrentClientsInfo_rows ⟨ops, hrun⟩ htable hrecorded
  exact ⟨g, pData, text, hrun, hresult⟩

end ClientsInfo

end TgServer
