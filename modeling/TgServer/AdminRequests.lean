/-
What `write_data` does with a request: it looks at the first ten octets only,
and a close order is written to the pipe of one client and nowhere else.
-/
import TgServer.Admin
import TgServer.ClientTable

namespace TgServer

open Bytes

/-- The first ten octets `write_data` compares a request with. -/
def listPrefix : List Byte := ascii "tg://1040/"

def closePrefix : List Byte := ascii "tg://1041/"

/-- What `write_data` writes to the pipe of a client, with its NUL. -/
def closeMessage : List Byte := ascii "tg://1005" ++ [0]

/-- A client as `setClient` and the fork leave it: an address in dotted
notation, a process id and a port. -/
structure Listable (client : TGClient) : Prop where
  address : ∃ ip, client.clientIP = some ip ∧ ip.length ≤ 15 ∧ 0 ∉ ip
  pidRange : -2 ^ 31 ≤ client.pid ∧ client.pid < 2 ^ 31
  portRange : -2 ^ 31 ≤ client.port ∧ client.port < 2 ^ 31

/-- A client table after `init`, with holes anywhere. -/
structure AdminTable (g : Globals) : Prop where
  fits : g.slots.length = g.clientsArSize
  grown : 0 < g.clientsArSize
  distinct : ∀ (i j : Nat) (left right : TGClient),
    g.slots[i]? = some (some left) → g.slots[j]? = some (some right) →
      left.pid = right.pid → i = j
  listable : ∀ client ∈ g.clients, Listable client

/-- What `write_data` has to do with the request `text`.  Nothing here touches
the table: the writes are all there is. -/
structure Performs (g : Globals) (fd : Int) (text : List Byte)
    (effects : List AdminEffect) : Prop where
  /-- A close order for a client in the table: one write, to its pipe. -/
  close : ∀ rest, text = closePrefix ++ rest → 0 < Decimal.atoi rest →
    ∀ client ∈ g.clients, client.pid = Decimal.atoi rest →
      effects = [.write client.writePipe closeMessage]
  /-- Any other close order: one line, to `fd`. -/
  unknown : ∀ rest, text = closePrefix ++ rest →
    (Decimal.atoi rest ≤ 0 ∨
      ∀ client ∈ g.clients, client.pid ≠ Decimal.atoi rest) →
      effects = [.write fd (unknownPid (Decimal.atoi rest))]
  /-- A listing: the line of each client, in the order of the slots. -/
  list : ∀ rest, text = listPrefix ++ rest →
    ∃ lines, g.clients.mapM clientLine = some lines ∧
      effects = [.write fd lines.flatten, .write fd (ascii "\n\n")]
  other : ¬ listPrefix <+: text → ¬ closePrefix <+: text → effects = []

section Lookup

variable {g : Globals}

theorem mem_clients {client : TGClient} :
    client ∈ g.clients ↔ ∃ i : Nat, g.slots[i]? = some (some client) := by
  rw [Globals.clients, List.reduceOption_mem_iff, List.mem_iff_getElem?]

/-- The client a lookup finds is in the table and has the process id. -/
theorem findClient_cases (hfits : g.slots.length = g.clientsArSize)
    (pid : TgPid) :
    (∃ client ∈ g.clients, client.pid = pid ∧
      findClient g pid = some (findClientSuccess, some client)) ∨
    (∀ client ∈ g.clients, client.pid ≠ pid) ∧
      findClient g pid = some (findClientNotFound, none) := by
  rw [findClient, ← hfits, SlotTable.scan_length]
  cases hfind : g.slots.findIdx? (SlotTable.hasKey TGClient.pid pid) with
  | none =>
      refine Or.inr ⟨?_, by simp⟩
      intro client hclient hpid
      rw [Globals.clients, List.reduceOption_mem_iff] at hclient
      have hmiss := List.findIdx?_eq_none_iff.mp hfind (some client) hclient
      simp [SlotTable.hasKey, hpid] at hmiss
  | some i =>
      obtain ⟨hlt, hp, -⟩ := List.findIdx?_eq_some_iff_getElem.mp hfind
      cases hslot : g.slots[i] with
      | none => simp [hslot, SlotTable.hasKey] at hp
      | some client =>
          have hget : g.slots[i]? = some (some client) := by
            rw [List.getElem?_eq_getElem hlt, hslot]
          have hpid : client.pid = pid := by
            simpa [hslot, SlotTable.hasKey] using hp
          exact Or.inl ⟨client, mem_clients.mpr ⟨i, hget⟩, hpid, by simp [hget]⟩

theorem AdminTable.client_unique (htable : AdminTable g)
    {left right : TGClient} (hleft : left ∈ g.clients)
    (hright : right ∈ g.clients) (hpid : left.pid = right.pid) :
    left = right := by
  obtain ⟨i, hi⟩ := mem_clients.mp hleft
  obtain ⟨j, hj⟩ := mem_clients.mp hright
  obtain rfl := htable.distinct i j left right hi hj hpid
  rw [hi, Option.some.injEq, Option.some.injEq] at hj
  exact hj

/-- Records that were well formed when they were added are a table to
administer. -/
theorem TableCorrect.adminTable {ops : List TableOp}
    (hcorrect : TableCorrect g ops) (hgrown : 0 < g.clientsArSize)
    (hlistable : ∀ client, AddedSince ops client → Listable client) :
    AdminTable g where
  fits := hcorrect.fits
  grown := hgrown
  distinct := hcorrect.once
  listable := fun client hclient =>
    hlistable client ((hcorrect.held client).mp (mem_clients.mp hclient))

end Lookup

section Listing

theorem nul_notMem_text (n : Int) : 0 ∉ Decimal.text n := by
  have hdigits : ∀ m, 0 ∉ Decimal.natText m := by
    intro m hmem
    have hdigit := Decimal.isDigit_natText hmem
    cases hdigit
  rw [Decimal.text]
  split
  · exact List.not_mem_cons_of_ne_of_not_mem (by decide) (hdigits _)
  · exact hdigits _

/-- An `int` is printed in at most eleven octets. -/
theorem length_text_le {n : Int} (hrange : -2 ^ 31 ≤ n ∧ n < 2 ^ 31) :
    (Decimal.text n).length ≤ 11 := by
  have hdigits : (Decimal.natText n.natAbs).length ≤ 10 :=
    Decimal.length_natText_le (by decide) (by omega)
  rw [Decimal.text]
  split
  · rw [List.length_cons]
    omega
  · omega

/-- The line of a client fits in `buf` and is a string. -/
theorem Listable.line {client : TGClient} (hlistable : Listable client) :
    ∃ line, clientLine client = some line ∧ line.length < 50 ∧ 0 ∉ line := by
  obtain ⟨ip, hip, hlength, hnul⟩ := hlistable.address
  have hpid := length_text_le hlistable.pidRange
  have hport := length_text_le hlistable.portRange
  refine ⟨_, by rw [clientLine, hip]; rfl, ?_, ?_⟩
  · have htab : (ascii "\t\t").length = 2 := rfl
    have hend : (ascii "\r\n").length = 2 := rfl
    simp only [List.length_append, htab, hend]
    omega
  · have htab : 0 ∉ ascii "\t\t" := by decide
    have hend : 0 ∉ ascii "\r\n" := by decide
    simp [htab, hend, hnul, nul_notMem_text]

/-- The lines of some clients, each short enough for its share of the block. -/
theorem lines_of_listable {clients : List TGClient}
    (hlistable : ∀ client ∈ clients, Listable client) :
    ∃ lines, clients.mapM clientLine = some lines ∧
      lines.flatten.length ≤ 49 * clients.length ∧ 0 ∉ lines.flatten := by
  induction clients with
  | nil => exact ⟨[], rfl, by simp, by simp⟩
  | cons client rest ih =>
      obtain ⟨line, hline, hshort, hnul⟩ :=
        (hlistable client List.mem_cons_self).line
      obtain ⟨lines, hlines, hlength, hnuls⟩ := ih fun other hother =>
        hlistable other (List.mem_cons_of_mem _ hother)
      refine ⟨line :: lines, ?_, ?_, ?_⟩
      · simp [List.mapM_cons, hline, hlines]
      · rw [List.flatten_cons, List.length_append, List.length_cons]
        omega
      · rw [List.flatten_cons, List.mem_append, not_or]
        exact ⟨hnul, hnuls⟩

/-- The loop puts the lines of the clients ahead one behind the other. -/
theorem clientsInfoFrom_eq (slots : List (Option TGClient)) (n i : Nat)
    (done : List Byte) (room : Nat) (hfits : i + n = slots.length)
    (hroom : 49 * n ≤ room)
    (hlistable : ∀ client ∈ (slots.drop i).reduceOption, Listable client) :
    ∃ lines, (slots.drop i).reduceOption.mapM clientLine = some lines ∧
      clientsInfoFrom slots n i (done ++ List.replicate room 0) done.length =
        some (done ++ lines.flatten ++
          List.replicate (room - lines.flatten.length) 0) := by
  induction n generalizing i done room with
  | zero =>
      have hnil : slots.drop i = [] := List.drop_eq_nil_of_le (by omega)
      exact ⟨[], by rw [hnil]; rfl, by simp [clientsInfoFrom]⟩
  | succ n ih =>
      have hlt : i < slots.length := by omega
      rw [List.drop_eq_getElem_cons hlt] at hlistable ⊢
      rw [clientsInfoFrom, List.getElem?_eq_getElem hlt]
      simp only [Option.bind_eq_bind, Option.bind_some]
      cases hslot : slots[i] with
      | none =>
          rw [hslot, List.reduceOption_cons_of_none] at hlistable
          rw [List.reduceOption_cons_of_none]
          exact ih (i + 1) done room (by omega) (by omega) hlistable
      | some pC =>
          rw [hslot, List.reduceOption_cons_of_some] at hlistable
          rw [List.reduceOption_cons_of_some]
          obtain ⟨line, hline, hshort, -⟩ :=
            (hlistable pC List.mem_cons_self).line
          have hstore : store (done ++ List.replicate room 0) done.length line =
              some (done ++ line ++ List.replicate (room - line.length) 0) := by
            rw [store_append _ _ _ (by rw [List.length_replicate]; omega),
              List.drop_replicate]
          obtain ⟨lines, hlines, hrest⟩ := ih (i + 1) (done ++ line)
            (room - line.length) (by omega) (by omega) fun client hclient =>
              hlistable client (List.mem_cons_of_mem _ hclient)
          refine ⟨line :: lines, by simp [List.mapM_cons, hline, hlines], ?_⟩
          rw [List.length_append] at hrest
          simp only [hline, Option.bind_some, if_pos hshort, hstore]
          rw [hrest, List.flatten_cons, List.length_append, Nat.sub_sub,
            List.append_assoc done]

/-- The block is the listing of all slots, NUL-terminated. -/
theorem getCurrentClientsInfo_text {g : Globals}
    (hfits : g.slots.length = g.clientsArSize) (hgrown : 0 < g.clientsArSize)
    (hlistable : ∀ client ∈ g.clients, Listable client) :
    ∃ lines pData, g.clients.mapM clientLine = some lines ∧
      getCurrentClientsInfo g = some pData ∧
      pData.length = 50 * g.clientsArSize ∧
      cString pData = some lines.flatten := by
  obtain ⟨lines, hlines, hlength, hnul⟩ := lines_of_listable hlistable
  obtain ⟨same, hsame, hinfo⟩ := clientsInfoFrom_eq g.slots g.clientsArSize 0
    [] (50 * g.clientsArSize) (by rw [Nat.zero_add, hfits]) (by omega) hlistable
  obtain rfl : lines = same := Option.some.inj (hlines.symm.trans hsame)
  have hcount : g.clients.length ≤ g.clientsArSize := by
    rw [← hfits]
    exact List.reduceOption_length_le _
  obtain ⟨k, hk⟩ : ∃ k,
      50 * g.clientsArSize - lines.flatten.length = k + 1 :=
    ⟨50 * g.clientsArSize - lines.flatten.length - 1, by omega⟩
  rw [hk, List.replicate_succ, List.nil_append] at hinfo
  refine ⟨lines, _, hlines, hinfo, ?_, cString_terminated _ hnul⟩
  rw [List.nil_append, List.length_append, List.length_cons,
    List.length_replicate]
  omega

theorem getCurrentClientsInfo_eq {g : Globals} (htable : AdminTable g) :
    ∃ lines pData, g.clients.mapM clientLine = some lines ∧
      getCurrentClientsInfo g = some pData ∧
      cString pData = some lines.flatten := by
  obtain ⟨lines, pData, hlines, hinfo, -, htext⟩ :=
    getCurrentClientsInfo_text htable.fits htable.grown htable.listable
  exact ⟨lines, pData, hlines, hinfo, htext⟩

end Listing

/-- What the comparisons make of a string. -/
theorem writeRequest_terminated (text behind stack : List Byte) :
    writeRequest (text ++ 0 :: behind) stack =
      if listPrefix <+: text then some .listClients
      else if closePrefix <+: text then
        some (.closeClient (Decimal.atoi (text.drop 10)))
      else none := by
  have hlist := @startsWith_terminated text listPrefix behind (by decide)
  have hclose := @startsWith_terminated text closePrefix behind (by decide)
  rw [listPrefix] at hlist ⊢
  rw [closePrefix] at hclose ⊢
  rw [writeRequest, hlist, hclose]
  simp only [Option.some.injEq, decide_eq_true_eq]
  split
  · rfl
  · split
    · rename_i hprefix
      have hlength : 10 ≤ text.length := hprefix.length_le
      rw [List.drop_append_of_le_length hlength, List.append_assoc,
        List.cons_append, Decimal.atoi_terminated]
    · rfl

theorem closePrefix_not_list {text : List Byte}
    (hclose : closePrefix <+: text) : ¬ listPrefix <+: text := by
  intro hlist
  have hone := List.prefix_of_prefix_length_le hlist hclose (by decide)
  exact absurd hone (by decide)

section Requests

variable {g : Globals} (fd : Int)

/-- A listing is one string and a line end. -/
theorem performRequest_list (htable : AdminTable g) (rest : List Byte) :
    ∃ effects, performRequest g fd .listClients = some effects ∧
      Performs g fd (listPrefix ++ rest) effects := by
  have hlist : listPrefix <+: listPrefix ++ rest := List.prefix_append _ _
  have hnot : ¬ closePrefix <+: listPrefix ++ rest := fun hclose =>
    closePrefix_not_list hclose hlist
  obtain ⟨lines, pData, hlines, hinfo, hstring⟩ :=
    getCurrentClientsInfo_eq htable
  refine ⟨[.write fd lines.flatten, .write fd (ascii "\n\n")], ?_, ?_⟩
  · simp [performRequest, hinfo, hstring]
  · constructor
    · intro order heq
      exact absurd ⟨order, heq.symm⟩ hnot
    · intro order heq
      exact absurd ⟨order, heq.symm⟩ hnot
    · intro _ _
      exact ⟨lines, hlines, rfl⟩
    · intro hother
      exact absurd hlist hother

/-- For a close order only the first two demands say something. -/
theorem performs_order {rest : List Byte} {effects : List AdminEffect}
    (hfound : 0 < Decimal.atoi rest →
      ∀ client ∈ g.clients, client.pid = Decimal.atoi rest →
        effects = [.write client.writePipe closeMessage])
    (hunknown : (Decimal.atoi rest ≤ 0 ∨
        ∀ client ∈ g.clients, client.pid ≠ Decimal.atoi rest) →
      effects = [.write fd (unknownPid (Decimal.atoi rest))]) :
    Performs g fd (closePrefix ++ rest) effects := by
  have hclose : closePrefix <+: closePrefix ++ rest := List.prefix_append _ _
  constructor
  · intro order heq
    obtain rfl := List.append_cancel_left heq
    exact hfound
  · intro order heq
    obtain rfl := List.append_cancel_left heq
    exact hunknown
  · intro order heq
    exact absurd ⟨order, heq.symm⟩ (closePrefix_not_list hclose)
  · intro _ hother
    exact absurd hclose hother

/-- A close order is one write, to the pipe of the client or to `fd`. -/
theorem performRequest_close (htable : AdminTable g) (rest : List Byte) :
    ∃ effects,
      performRequest g fd (.closeClient (Decimal.atoi rest)) = some effects ∧
      Performs g fd (closePrefix ++ rest) effects := by
  generalize hid : Decimal.atoi rest = id
  by_cases hpos : 0 < id
  · rcases findClient_cases htable.fits id with
      ⟨client, hclient, hpid, hfind⟩ | ⟨hmissing, hfind⟩
    · refine ⟨[.write client.writePipe closeMessage], ?_, ?_⟩
      · simp [performRequest, hpos, hfind, closeMessage]
      · apply performs_order <;> rw [hid]
        · intro _ other hother hsame
          rw [htable.client_unique hother hclient (hsame.trans hpid.symm)]
        · rintro (hnonpos | hnone)
          · exact absurd hpos (Int.not_lt.mpr hnonpos)
          · exact absurd hpid (hnone client hclient)
    · refine ⟨[.write fd (unknownPid id)], ?_, ?_⟩
      · simp [performRequest, hpos, hfind]
      · apply performs_order <;> rw [hid]
        · intro _ other hother hsame
          exact absurd hsame (hmissing other hother)
        · intro _
          rfl
  · refine ⟨[.write fd (unknownPid id)], ?_, ?_⟩
    · simp [performRequest, hpos]
    · apply performs_order <;> rw [hid]
      · intro hpositive
        exact absurd hpositive hpos
      · intro _
        rfl

end Requests

/-- A request is dispatched on its first ten octets: a close order for a client
in the table is one write to the pipe of that client, any other close order is
one line to `fd`, a listing goes to `fd`, and anything else writes nothing.
The number of an order is what is printed for it, to its low 32 bits. -/
theorem writeData_performs {g : Globals} (htable : AdminTable g) (fd : Int)
    (text behind stack : List Byte) :
    (∃ effects, writeData g fd (text ++ 0 :: behind) stack = some effects ∧
      Performs g fd text effects) ∧
    ∀ n : Int, -2 ^ 63 ≤ n → n < 2 ^ 63 →
      Decimal.atoi (Decimal.text n) = n.bmod (2 ^ 32) := by
  refine ⟨?_, fun n hlow hhigh => Decimal.atoi_text hlow hhigh⟩
  rw [writeData, writeRequest_terminated]
  by_cases hlist : listPrefix <+: text
  · obtain ⟨rest, rfl⟩ := hlist
    rw [if_pos (List.prefix_append _ _)]
    exact performRequest_list fd htable rest
  by_cases hclose : closePrefix <+: text
  · obtain ⟨rest, rfl⟩ := hclose
    have hdrop : (closePrefix ++ rest).drop 10 = rest :=
      List.drop_left' (by decide)
    rw [if_neg hlist, if_pos (List.prefix_append _ _), hdrop]
    exact performRequest_close fd htable rest
  · rw [if_neg hlist, if_neg hclose]
    refine ⟨[], rfl, ?_⟩
    constructor
    · intro rest heq
      exact absurd ⟨rest, heq.symm⟩ hclose
    · intro rest heq
      exact absurd ⟨rest, heq.symm⟩ hclose
    · intro rest heq
      exact absurd ⟨rest, heq.symm⟩ hlist
    · intro _ _
      rfl

namespace AdminRequests

/-- Two clients and a slot given back between them. -/
def table : Globals :=
  ⟨some [some ⟨101, -1, 7, 8, some (ascii "10.0.0.1"), 6666⟩, none,
    some ⟨103, -1, 11, 12, some (ascii "10.0.0.9"), 257⟩], 3, none, []⟩

theorem table_adminTable : AdminTable table where
  fits := rfl
  grown := by decide
  distinct := by
    have hall : ∀ i < 3, ∀ j < 3, ∀ left ∈ (table.slots[i]?).join,
        ∀ right ∈ (table.slots[j]?).join, left.pid = right.pid → i = j := by
      decide
    intro i j left right hleft hright
    exact hall i (List.getElem?_eq_some_iff.mp hleft).1 j
      (List.getElem?_eq_some_iff.mp hright).1 left (by simp [hleft]) right
      (by simp [hright])
  listable := by
    intro client hclient
    have hclients : table.clients =
        [⟨101, -1, 7, 8, some (ascii "10.0.0.1"), 6666⟩,
          ⟨103, -1, 11, 12, some (ascii "10.0.0.9"), 257⟩] := rfl
    rw [hclients, List.mem_cons, List.mem_singleton] at hclient
    rcases hclient with rfl | rfl
    · exact ⟨⟨_, rfl, by decide, by decide⟩, by decide, by decide⟩
    · exact ⟨⟨_, rfl, by decide, by decide⟩, by decide, by decide⟩

theorem writeData_performs_order :
    (∃ effects, writeData table 5 (ascii "tg://1041/103" ++ 0 :: [0]) [] =
        some effects ∧ Performs table 5 (ascii "tg://1041/103") effects) ∧
      ∀ n : Int, -2 ^ 63 ≤ n → n < 2 ^ 63 →
        Decimal.atoi (Decimal.text n) = n.bmod (2 ^ 32) :=
  writeData_performs table_adminTable 5 (ascii "tg://1041/103") [0] []

/-- A request that only starts like a listing is a listing, so not every string
but the two kinds of request writes nothing. -/
theorem writeData_beginning :
    writeData table 5 (ascii "tg://1040/x" ++ [0]) [] = some
      [.write 5 (ascii "101\t\t10.0.0.1\t\t6666\r\n103\t\t10.0.0.9\t\t257\r\n"),
        .write 5 (ascii "\n\n")] ∧
    ¬ ∀ text, text ≠ listPrefix →
      (∀ n : Int, text ≠ closePrefix ++ Decimal.text n) →
      writeData table 5 (text ++ [0]) [] = some [] := by
  refine ⟨by decide +kernel, fun hall => ?_⟩
  have hnothing := hall (ascii "tg://1040/x") (by decide) fun n heq =>
    absurd (show closePrefix <+: ascii "tg://1040/x" from ⟨_, heq.symm⟩)
      (by decide)
  exact absurd hnothing (by decide +kernel)

end AdminRequests

end TgServer
