/-
The record of an accepted connection, from the address `accept` stores to the
line of the listing: what `setClient` writes, what `addClient` keeps of it and
what `getCurrentClientsInfo` prints.
-/
import TgServer.Accept
import TgServer.ClientsInfo

namespace TgServer

open Bytes

/-- What `accept` stores of a peer, in network order: the octets of the port
and of the address. -/
structure SockaddrIn where
  sinPort : Byte × Byte
  sinAddr : Byte × Byte × Byte × Byte
deriving Repr, DecidableEq

/-- The TCP port number of a peer. -/
def SockaddrIn.hostPort (addr : SockaddrIn) : Int :=
  256 * addr.sinPort.1.toNat + addr.sinPort.2.toNat

/-- `sin_port` as a little-endian machine reads the two octets. -/
def SockaddrIn.portField (addr : SockaddrIn) : Int :=
  addr.sinPort.1.toNat + 256 * addr.sinPort.2.toNat

/-- What `inet_ntop` writes into `str`. -/
def inetNtop (sinAddr : Byte × Byte × Byte × Byte) : List Byte :=
  (ascii ".").intercalate [Decimal.natText sinAddr.1.toNat,
    Decimal.natText sinAddr.2.1.toNat, Decimal.natText sinAddr.2.2.1.toNat,
    Decimal.natText sinAddr.2.2.2.toNat]

/-- `setClient` store by store; `none` is a store outside of the block, which
has `slack` octets more than were asked for. -/
def setClientStores (slack : Nat) (junk : Nat → Byte) (pCli : TGClient)
    (pClientAddr : SockaddrIn) : Option TGClient := do
  let str := inetNtop pClientAddr.sinAddr
  let ipSize := str.length + 1
  let buf ← store (malloc (ipSize + slack) junk) 0 (List.replicate ipSize 0)
  let buf ← store buf 0 (strncpy str (ipSize - 1))
  let buf ← store buf ipSize [0]
  return setClient pCli (← cString buf) pClientAddr.portField

/-- The record the parent hands to `addClient`. -/
def parentRecord (pClient : TGClient) (cpid : TgPid) (pipes : Pipes) :
    TGClient :=
  setPipe { pClient with pid := cpid } pipes.fd1.1 pipes.fd.2

/-- The record shows the peer, and so does a row of the listing once the record
is in the table. -/
def IdentifiesPeer (slack : Nat) (junk : Nat → Byte) (g : Globals)
    (cpid : TgPid) (pipes : Pipes) (addr : SockaddrIn) : Prop :=
  ∃ pClient g' pData text rows,
    setClientStores slack junk initClient addr = some pClient ∧
    pClient.clientIP = some (inetNtop addr.sinAddr) ∧
    pClient.port = addr.hostPort ∧
    addClient g (some (parentRecord pClient cpid pipes)) = some g' ∧
    getCurrentClientsInfo g' = some pData ∧ cString pData = some text ∧
    readRows text = some rows ∧
    ⟨cpid, inetNtop addr.sinAddr, addr.hostPort⟩ ∈ rows

/-- The two octets of a port make the same number in both orders exactly if
they are the same. -/
theorem SockaddrIn.portField_eq_iff (addr : SockaddrIn) :
    addr.portField = addr.hostPort ↔ addr.sinPort.1 = addr.sinPort.2 := by
  rw [portField, hostPort]
  constructor
  · intro heq
    exact UInt8.toNat_inj.mp (by omega)
  · intro heq
    rw [heq]
    omega

theorem SockaddrIn.portField_range (addr : SockaddrIn) :
    0 ≤ addr.portField ∧ addr.portField < 2 ^ 16 := by
  have hhigh := addr.sinPort.1.toNat_lt
  have hlow := addr.sinPort.2.toNat_lt
  rw [portField]
  omega

section Address

variable (sinAddr : Byte × Byte × Byte × Byte)

/-- An octet is printed in one to three digits. -/
theorem natText_octet (b : Byte) : Decimal.natText b.toNat ≠ [] ∧
    (Decimal.natText b.toNat).length ≤ 3 ∧
    ∀ digit ∈ Decimal.natText b.toNat, Decimal.isDigit digit = true := by
  have hb := b.toNat_lt
  exact ⟨Decimal.natText_ne_nil _,
    Decimal.length_natText_le (by decide) (by omega),
    fun digit hdigit => Decimal.isDigit_natText hdigit⟩

/-- `inet_ntop` writes a dotted quad, which `str` has room for. -/
theorem inetNtop_dottedQuad : DottedQuad (inetNtop sinAddr) := by
  obtain ⟨a, b, c, d⟩ := sinAddr
  have ha := (natText_octet a).2.1
  have hb := (natText_octet b).2.1
  have hc := (natText_octet c).2.1
  have hd := (natText_octet d).2.1
  refine ⟨?_, _, _, _, _, rfl, ?_⟩
  · have hdot : (ascii ".").length = 1 := rfl
    simp only [inetNtop, List.intercalate_cons_cons,
      List.intercalate_singleton, List.length_append, hdot]
    omega
  · intro part hpart
    have hoctet : ∃ e : Byte, part = Decimal.natText e.toNat := by
      simp only [List.mem_cons, List.not_mem_nil, or_false] at hpart
      rcases hpart with rfl | rfl | rfl | rfl
      exacts [⟨a, rfl⟩, ⟨b, rfl⟩, ⟨c, rfl⟩, ⟨d, rfl⟩]
    obtain ⟨e, rfl⟩ := hoctet
    exact ⟨(natText_octet e).1, (natText_octet e).2.2⟩

theorem nul_notMem_inetNtop : 0 ∉ inetNtop sinAddr := by
  intro hmem
  have hzero := (inetNtop_dottedQuad sinAddr).isField 0 hmem
  cases hzero

end Address

section SetClient

variable (junk : Nat → Byte) (pCli : TGClient) (addr : SockaddrIn)

/-- The block is filled as far as it was asked for, and the last store goes to
the octet behind that. -/
theorem setClientStores_block (slack : Nat) :
    ∃ behind : List Byte, behind.length = slack ∧
      setClientStores slack junk pCli addr =
        (store (inetNtop addr.sinAddr ++ 0 :: behind)
          ((inetNtop addr.sinAddr).length + 1) [0]).bind fun buf =>
            (cString buf).map (setClient pCli · addr.portField) := by
  rw [setClientStores]
  generalize hstr : inetNtop addr.sinAddr = str
  have hnul : 0 ∉ str := hstr ▸ nul_notMem_inetNtop addr.sinAddr
  have hcopy : strncpy str str.length = str := by
    simpa using strncpy_append hnul []
  refine ⟨(malloc (str.length + 1 + slack) junk).drop (str.length + 1), ?_, ?_⟩
  · rw [List.length_drop, length_malloc, Nat.add_sub_cancel_left]
  · have hclear := store_zero (malloc (str.length + 1 + slack) junk)
      (List.replicate (str.length + 1) 0) (by simp)
    have hfill := store_zero (List.replicate (str.length + 1) 0 ++
      (malloc (str.length + 1 + slack) junk).drop (str.length + 1)) str
      (by simp; omega)
    rw [List.drop_append_of_le_length (by simp), List.drop_replicate,
      Nat.add_sub_cancel_left] at hfill
    rw [List.length_replicate] at hclear
    simp only [hclear, hcopy, hfill, Nat.add_sub_cancel, Option.bind_eq_bind,
      Option.bind_some, Option.pure_def, List.replicate_one,
      List.singleton_append]
    congr 1
    funext buf
    cases cString buf <;> rfl

/-- The block that was asked for ends in front of the last store. -/
theorem setClientStores_exact :
    setClientStores 0 junk pCli addr = none := by
  obtain ⟨behind, hlength, hrun⟩ := setClientStores_block junk pCli addr 0
  obtain rfl := List.eq_nil_of_length_eq_zero hlength
  rw [hrun, store, if_neg (by simp)]
  rfl

/-- With an octet more the record holds the address as a string, and the port
as the machine reads it. -/
theorem setClientStores_slack {slack : Nat} (hslack : 0 < slack) :
    setClientStores slack junk pCli addr =
      some (setClient pCli (inetNtop addr.sinAddr) addr.portField) := by
  obtain ⟨behind, hlength, hrun⟩ := setClientStores_block junk pCli addr slack
  obtain ⟨c, rest, rfl⟩ : ∃ c rest, behind = c :: rest :=
    List.exists_cons_of_length_pos (by omega)
  have hsplit : inetNtop addr.sinAddr ++ 0 :: c :: rest =
      (inetNtop addr.sinAddr ++ [0]) ++ c :: rest := by simp
  have hlast : (inetNtop addr.sinAddr).length + 1 =
      (inetNtop addr.sinAddr ++ [0]).length := by simp
  have htext : cString (inetNtop addr.sinAddr ++ [0] ++ [0] ++ rest) =
      some (inetNtop addr.sinAddr) := by
    simpa using cString_terminated (0 :: rest) (nul_notMem_inetNtop addr.sinAddr)
  rw [hrun, hsplit, hlast, store_append _ _ _ (by simp), Option.bind_some]
  simp only [List.length_singleton, List.drop_succ_cons, List.drop_zero, htext,
    Option.map_some]

end SetClient

/-- What is stored in a slot is in the table, and the others were before. -/
theorem storeClient_clients {g stored g' : Globals} {i : Nat}
    {client : TGClient} (hstore : g.storeClient i (some client) = some stored)
    (hcounts : stored.addCounts 1 = some g') :
    client ∈ g'.clients ∧
      ∀ other ∈ g'.clients, other = client ∨ other ∈ g.clients := by
  rw [Globals.storeClient] at hstore
  rw [Globals.addCounts, Option.map_eq_some_iff] at hcounts
  obtain ⟨ctx, -, rfl⟩ := hcounts
  split at hstore
  · rename_i hlt
    obtain rfl := Option.some.inj hstore
    refine ⟨mem_clients.mpr ⟨i, List.getElem?_set_self hlt⟩, ?_⟩
    intro other hother
    obtain ⟨j, hj⟩ := mem_clients.mp hother
    change (g.slots.set i (some client))[j]? = some (some other) at hj
    rcases SlotTable.set_cases hj with ⟨-, hsame⟩ | ⟨-, hold⟩
    · exact .inl (Option.some.inj hsame)
    · exact .inr (mem_clients.mpr ⟨j, hold⟩)
  · cases hstore

/-- A client that is added is in the table, and the others were before. -/
theorem addClient_clients {g : Globals} (hlive : g.Live) (client : TGClient) :
    ∃ g', addClient g (some client) = some g' ∧ g'.Live ∧
      client ∈ g'.clients ∧
      ∀ other ∈ g'.clients, other = client ∨ other ∈ g.clients := by
  obtain ⟨g', hadd, hnext, -⟩ := addClient_count hlive client
  refine ⟨g', hadd, hnext, ?_⟩
  simp only [addClient, Option.bind_eq_bind, Option.bind_eq_some_iff] at hadd
  obtain ⟨found, -, hadd⟩ := hadd
  cases found with
  | some i =>
      obtain ⟨stored, hstore, hcounts⟩ := Option.bind_eq_some_iff.mp hadd
      exact storeClient_clients hstore hcounts
  | none =>
      obtain ⟨stored, hstore, hcounts⟩ := Option.bind_eq_some_iff.mp hadd
      have hgrown : (appendClient g).clients = g.clients := by
        rw [Globals.clients, slots_appendClient g hlive.fits,
          List.reduceOption_append, List.reduceOption_replicate_none,
          List.append_nil]
        rfl
      have hstored := storeClient_clients hstore hcounts
      rwa [hgrown] at hstored

/-- The rows of a listing are those of the clients in the table, none if it is
empty. -/
theorem listing_rows {g : Globals} (hfits : g.slots.length = g.clientsArSize)
    (hgrown : 0 < g.clientsArSize)
    (hrecorded : ∀ other ∈ g.clients, Recorded other) :
    ∃ pData text, getCurrentClientsInfo g = some pData ∧
      cString pData = some text ∧
      readRows text = some (g.clients.map TGClient.row) := by
  obtain ⟨lines, pData, hlines, hinfo, -, htext⟩ :=
    getCurrentClientsInfo_text hfits hgrown fun other hother =>
      (hrecorded other hother).listable
  obtain rfl := Option.some.inj (hlines.symm.trans (mapM_clientLine hrecorded))
  exact ⟨pData, _, hinfo, htext, readRows_lines hrecorded⟩

/-- No peer is recorded inside the block that is allocated.  With more room the
address is right in the record and in the listing, and the port is exactly if
its two octets are the same. -/
theorem identifiesPeer_iff (junk : Nat → Byte) {g : Globals} (hlive : g.Live)
    (hrecorded : ∀ client ∈ g.clients, Recorded client) {cpid : TgPid}
    (hcpid : 0 < cpid ∧ cpid < 2 ^ 31) (pipes : Pipes) (addr : SockaddrIn) :
    ¬ IdentifiesPeer 0 junk g cpid pipes addr ∧
      ∀ slack, 0 < slack → (IdentifiesPeer slack junk g cpid pipes addr ↔
        addr.sinPort.1 = addr.sinPort.2) := by
  constructor
  · rintro ⟨pClient, -, -, -, -, hset, -⟩
    rw [setClientStores_exact] at hset
    cases hset
  · intro slack hslack
    have hset := setClientStores_slack junk initClient addr hslack
    rw [← addr.portField_eq_iff]
    constructor
    · rintro ⟨pClient, -, -, -, -, hsome, -, hport, -⟩
      obtain rfl := Option.some.inj (hset.symm.trans hsome)
      exact hport
    · intro hport
      let client := parentRecord
        (setClient initClient (inetNtop addr.sinAddr) addr.portField) cpid pipes
      have hclient : Recorded client :=
        ⟨hcpid, ⟨_, rfl, inetNtop_dottedQuad addr.sinAddr⟩, addr.portField_range⟩
      obtain ⟨g', hadd, hnext, hmem, hothers⟩ := addClient_clients hlive client
      have hall : ∀ other ∈ g'.clients, Recorded other := by
        intro other hother
        rcases hothers other hother with rfl | hold
        · exact hclient
        · exact hrecorded other hold
      have hgrown : 0 < g'.clientsArSize := by
        obtain ⟨i, hi⟩ := mem_clients.mp hmem
        rw [← hnext.fits]
        exact Nat.zero_lt_of_lt (List.getElem?_eq_some_iff.mp hi).1
      obtain ⟨pData, text, hinfo, htext, hrows⟩ :=
        listing_rows hnext.fits hgrown hall
      refine ⟨_, g', pData, text, _, hset, rfl, hport, hadd, hinfo, htext, hrows,
        List.mem_map.mpr ⟨client, hmem, ?_⟩⟩
      rw [← hport]
      rfl

namespace ClientRecord

def table : Globals := init Globals.initial

theorem table_live : table.Live := ⟨rfl, Option.some_ne_none _⟩

theorem table_recorded : ∀ client ∈ table.clients, Recorded client := by
  intro client hclient
  cases hclient

def pipes : Pipes := ⟨(5, 6), (7, 8)⟩

/-- The first octet of the port comes first. -/
def peer (port : Byte × Byte) : SockaddrIn := ⟨port, 192, 168, 1, 200⟩

/-- Port 257 is the same number in both orders. -/
theorem identifiesPeer_iff_same :
    ¬ IdentifiesPeer 0 (fun _ => 7) table 100 pipes (peer (1, 1)) ∧
      IdentifiesPeer 1 (fun _ => 7) table 100 pipes (peer (1, 1)) := by
  have hcpid : (0 : TgPid) < 100 ∧ (100 : TgPid) < 2 ^ 31 := by decide
  have hboth := identifiesPeer_iff (fun _ => 7) table_live table_recorded
    hcpid pipes (peer (1, 1))
  exact ⟨hboth.1, (hboth.2 1 (by decide)).mpr rfl⟩

/-- The block for "192.168.1.200" has 14 octets and the 15th is written; the
port 51000 is stored and printed as 14535. -/
theorem identifiesPeer_wrong :
    setClientStores 0 (fun _ => 7) initClient (peer (199, 56)) = none ∧
      ¬ IdentifiesPeer 0 (fun _ => 7) table 100 pipes (peer (199, 56)) ∧
      (peer (199, 56)).hostPort = 51000 ∧
      (setClientStores 1 (fun _ => 7) initClient (peer (199, 56))).map
        TGClient.port = some 14535 := by
  refine ⟨by decide, ?_, rfl, by decide⟩
  rintro ⟨pClient, -, -, -, -, hset, -⟩
  cases hset

end ClientRecord

end TgServer
