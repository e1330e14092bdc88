/-
No order is made up on the way from the administrator to a client process:
however the kernel groups the octets, the commands `do_admin` executes and the
events `handle_response` dispatches are some of those written, in the order
written and none of them twice.
-/
import TgServer.AdminPipe
import TgServer.PipeEvents

namespace TgServer

open Bytes ByteStream

/-- `handle_response` does not reject an event of this type. -/
def dispatched (type : Int) : Bool :=
  decide (msgTypeBase ≤ type) && decide (type ≤ msgTypeMax)

theorem dispatched_iff {type : Int} :
    dispatched type = true ↔ msgTypeBase ≤ type ∧ type ≤ msgTypeMax := by
  simp [dispatched]

/-- What lies behind `no` continues its number by five digits at most. -/
def FewDigits (stack : List Byte) : Prop :=
  (stack.takeWhile Decimal.isDigit).length ≤ 5

instance (stack : List Byte) : Decidable (FewDigits stack) :=
  inferInstanceAs (Decidable (_ ≤ _))

/-- Every write to the FIFO is atomic: a read that does not fill the buffer
ends where a command does. -/
def WholeWrites (src : Source) (orders : List AdminOrder) : Prop :=
  ∀ offset, (src.chunk offset adminBufSize).length = adminBufSize ∨
    ∃ k, src.octets.drop (offset + (src.chunk offset adminBufSize).length) =
      adminStream (orders.drop k)

section Numbers

theorem Order.number_digits (order : Order) :
    ∀ c ∈ order.number, Decimal.isDigit c = true :=
  List.all_eq_true.mp (by cases order <;> rfl)

theorem Order.number_value (order : Order) :
    (Decimal.digitsValue order.number : Int) = order.type := by
  cases order <;> rfl

theorem Order.type_bounds (order : Order) :
    1003 ≤ order.type ∧ order.type ≤ 1005 := by
  cases order <;> decide

/-- A number that further digits were added to is no message type. -/
theorem Order.atoi_number (order : Order) {stack : List Byte}
    (hfew : FewDigits stack)
    (hdispatched : dispatched (Decimal.atoi (order.number ++ stack)) = true) :
    Decimal.atoi (order.number ++ stack) = order.type := by
  have htake : (order.number ++ stack).takeWhile Decimal.isDigit =
      order.number ++ stack.takeWhile Decimal.isDigit := by
    rw [List.takeWhile_append_of_pos order.number_digits]
  have hall : ∀ c ∈ order.number ++ stack.takeWhile Decimal.isDigit,
      Decimal.isDigit c = true := by
    intro c hc
    rcases List.mem_append.mp hc with hnumber | hmore
    · exact order.number_digits c hnumber
    · exact List.mem_takeWhile_imp hmore
  have hfour : order.number.length = 4 := by cases order <;> rfl
  have hlt := Decimal.digitsValue_lt hall
  have hpow : 10 ^ (order.number ++
      stack.takeWhile Decimal.isDigit).length ≤ 10 ^ 9 := by
    apply Nat.pow_le_pow_right (by decide)
    rw [List.length_append, hfour]
    rw [FewDigits] at hfew
    omega
  have hvalue : Decimal.atoi (order.number ++ stack) =
      Decimal.digitsValue (order.number ++
        stack.takeWhile Decimal.isDigit) := by
    obtain ⟨c, rest, hcons⟩ : ∃ c rest, order.number = c :: rest := by
      cases order <;> exact ⟨_, _, rfl⟩
    have hc : Decimal.isDigit c = true :=
      order.number_digits c (by rw [hcons]; exact List.mem_cons_self)
    apply Decimal.atoi_eq_of_lt _ (by omega)
    rw [← htake, hcons, List.cons_append, Decimal.strtol_unsigned
      (Decimal.not_space_of_digit hc) (Decimal.not_sign_of_digit hc)]
  rw [hvalue] at hdispatched ⊢
  have hmore := Decimal.digitsValue_append order.number
    (stack.takeWhile Decimal.isDigit)
  have hnumber := order.number_value
  have hbounds := order.type_bounds
  rw [dispatched_iff] at hdispatched
  have hmax := hdispatched.2
  rw [msgTypeMax] at hmax
  cases hdigits : stack.takeWhile Decimal.isDigit with
  | nil => rw [List.append_nil, hnumber]
  | cons c cs =>
      exfalso
      rw [hdigits, List.length_cons, Nat.pow_succ] at hmore
      rw [hdigits] at hmax
      have hone := Nat.one_le_pow cs.length 10 (by decide)
      have hten : Decimal.digitsValue order.number * 10 ≤
          Decimal.digitsValue order.number * (10 ^ cs.length * 10) :=
        Nat.mul_le_mul_left _ (by omega)
      omega

end Numbers

section Pipe

variable {src : Source} {offset i : Nat} {orders : List Order}

theorem orderStream_drop (orders : List Order) (j : Nat) :
    (orderStream orders).drop (10 * j) = orderStream (orders.drop j) := by
  induction j generalizing orders with
  | zero => rfl
  | succ j ih =>
      cases orders with
      | nil => simp [orderStream]
      | cons order rest =>
          have hten : 10 * (j + 1) = 10 + 10 * j := by omega
          rw [hten, ← List.drop_drop, orderStream, List.flatMap_cons,
            List.drop_left' order.length_octets]
          exact ih rest

/-- A read of nine octets or more at a message sees its number. -/
theorem At.numberRead_whole {order : Order} {rest : List Order}
    (hat : At src offset 0 (order :: rest))
    (hnine : 9 ≤ (src.chunk offset bufSize).length) :
    numberRead src offset = order.number := by
  have hchunk := hat.chunk
  rw [List.drop_zero, orderStream, List.flatMap_cons] at hchunk
  have hpart : ((src.chunk offset bufSize).drop 5).take 4 = order.number := by
    rw [hchunk, List.drop_take, List.take_take, Nat.min_eq_left (by omega),
      List.drop_append_of_le_length (by rw [order.length_octets]; decide),
      List.take_append_of_le_length
        (by rw [List.length_drop, order.length_octets]; decide)]
    cases order <;> rfl
  rw [numberRead, ← strncpy_take, List.drop_append_of_le_length (by omega),
    List.take_append_of_le_length (by rw [List.length_drop]; omega), hpart]
  cases order <;> rfl

/-- A read at place `i` that makes a dispatched event makes the one of the
message that stands there. -/
theorem At.dispatched_order (hat : At src offset i orders)
    {stack : List Byte} (hfew : FewDigits stack)
    (hdispatched : dispatched
      (Decimal.atoi (numberRead src offset ++ stack)) = true) :
    ∃ order rest, orders.drop (i / 10) = order :: rest ∧ i % 10 = 0 ∧
      9 ≤ (src.chunk offset bufSize).length ∧
      Decimal.atoi (numberRead src offset ++ stack) = order.type := by
  have hbase : msgTypeBase ≤ Decimal.atoi (numberRead src offset ++ stack) :=
    (dispatched_iff.mp hdispatched).1
  obtain ⟨haligned, hnine⟩ := hat.aligned stack hbase
  have hwithin := hat.length_chunk
  obtain ⟨order, rest, hdrop⟩ : ∃ order rest,
      orders.drop (i / 10) = order :: rest := by
    apply List.exists_cons_of_ne_nil
    rw [ne_eq, List.drop_eq_nil_iff]
    omega
  have hfirst : At src offset 0 (order :: rest) := by
    refine ⟨?_, Nat.zero_le _⟩
    have hten : i = 10 * (i / 10) := by omega
    rw [hat.1, List.drop_zero, ← hdrop, ← orderStream_drop, ← hten]
  have hnumber := hfirst.numberRead_whole hnine
  refine ⟨order, rest, hdrop, haligned, hnine, ?_⟩
  rw [hnumber] at hdispatched ⊢
  exact order.atoi_number hfew hdispatched

variable {client : TGClient} (hpipe : 0 ≤ client.readPipe)
variable {stack : Nat → List Byte}

include hpipe

/-- The dispatched events of the reads from place `i` on are some of the
messages from there on. -/
theorem pipeSignals_sublist (hfew : ∀ offset, FewDigits (stack offset))
    (hat : At src offset i orders) (n : Nat) :
    ((pipeSignals client src.read stack n offset).filter
        (dispatched ·.type)).Sublist
      ((orders.drop ((i + 9) / 10)).map Order.signal) := by
  induction n generalizing offset i with
  | zero => exact List.nil_sublist _
  | succ n ih =>
      by_cases hlt : offset < src.octets.length
      swap
      · rw [pipeSignals_end hpipe src stack (Nat.le_of_not_lt hlt)]
        exact List.nil_sublist _
      rw [pipeSignals_data hpipe src stack hlt, List.filter_cons]
      split
      · next hdispatched =>
        obtain ⟨order, rest, hdrop, haligned, hnine, htype⟩ :=
          hat.dispatched_order (hfew offset) hdispatched
        have hrest := ih hat.next
        have hplace : (i + 9) / 10 = i / 10 := by omega
        have hbehind : rest = orders.drop (i / 10 + 1) := by
          rw [← List.drop_drop, hdrop, List.drop_one, List.tail_cons]
        rw [hplace, hdrop, List.map_cons, htype]
        refine List.Sublist.cons_cons _ (hrest.trans ?_)
        rw [hbehind]
        apply List.Sublist.map
        apply List.drop_sublist_drop_left
        omega
      · refine (ih hat.next).trans ?_
        apply List.Sublist.map
        apply List.drop_sublist_drop_left
        omega

end Pipe

/-- Whatever the grouping of the reads and the readiness of the descriptors,
the events from the main process that `handle_response` does not reject are
some of the messages the main process wrote, in order. -/
theorem deamonRead_orders_sublist {σ : Type} (client : TGClient)
    (hpipe : 0 ≤ client.readPipe) (orders : List Order) (src : Source)
    (hsrc : src.octets = orderStream orders) (stack : Nat → List Byte)
    (hfew : ∀ offset, FewDigits (stack offset)) (readSock : Descriptor σ)
    (junk : σ → Nat → Byte) (rounds : List Ready) (s : σ) :
    ((signalsFrom .mainProcess (deamonRead client readSock junk src.read stack
        rounds s 0)).filter (dispatched ·.type)).Sublist
      (orders.map Order.signal) := by
  have hat : At src 0 0 orders := ⟨by rw [hsrc], Nat.zero_le _⟩
  rw [deamonRead_mainProcess]
  exact pipeSignals_sublist hpipe hfew hat _

section Fifo

theorem adminStream_cons (order : AdminOrder) (rest : List AdminOrder) :
    adminStream (order :: rest) = order.octets ++ adminStream rest :=
  List.flatMap_cons

/-- Commands begin with their first octet. -/
theorem adminStream_head (orders : List AdminOrder) :
    adminStream orders = [] ∨
      ∃ tail, adminStream orders = letterT :: tail := by
  cases orders with
  | nil => exact Or.inl rfl
  | cons order rest =>
      obtain ⟨tail, hoctets, -⟩ := order.octets_cons
      exact Or.inr ⟨_, by rw [adminStream_cons, hoctets, List.cons_append]⟩

/-- Behind any number of octets there is the rest of a command and then the
last ones of the commands. -/
theorem drop_adminStream_suffix (k : Nat) (tail : List Byte)
    (rest : List AdminOrder) (htail : letterT ∉ tail) :
    ∃ tail' rest', (tail ++ adminStream rest).drop k =
        tail' ++ adminStream rest' ∧ letterT ∉ tail' ∧ rest' <:+ rest := by
  induction rest generalizing k tail with
  | nil =>
      refine ⟨tail.drop k, [], ?_, ?_, List.suffix_rfl⟩
      · simp [adminStream]
      · exact fun hmem => htail (List.mem_of_mem_drop hmem)
  | cons order rest ih =>
      by_cases hinside : k ≤ tail.length
      · refine ⟨tail.drop k, order :: rest, ?_, ?_, List.suffix_rfl⟩
        · exact List.drop_append_of_le_length hinside
        · exact fun hmem => htail (List.mem_of_mem_drop hmem)
      · obtain ⟨more, hoctets, hmore⟩ := order.octets_cons
        obtain ⟨tail', rest', hdrop, htail', hsuffix⟩ :=
          ih (k - tail.length - 1) more hmore
        refine ⟨tail', rest', ?_, htail', hsuffix.trans (List.suffix_cons _ _)⟩
        have hk : k = tail.length + (k - tail.length - 1 + 1) := by omega
        rw [hk, List.drop_length_add_append, adminStream_cons, hoctets,
          List.cons_append, List.drop_succ_cons]
        exact hdrop

/-- A read that returns a whole command, and perhaps the beginning of the next
one, gives that command or none. -/
theorem adminCommand_whole (order : AdminOrder) {more stack : List Byte}
    (hmore : more = [] ∨ ∃ tail, more = letterT :: tail)
    (hlength : (order.octets ++ more).length ≤ adminBufSize)
    (hterminated : order.Terminated stack) {cmd : AdminCommand}
    (hcmd : adminCommand (order.octets ++ more) stack = some cmd) :
    cmd = order.command := by
  rcases hmore with rfl | ⟨tail, rfl⟩
  · rw [List.append_nil, (adminCommand_octets_iff order stack).mpr hterminated,
      Option.some.injEq] at hcmd
    exact hcmd.symm
  cases order with
  | shutDown =>
      have hnone : adminCommand (ascii "tg://1003/" ++ letterT :: tail) stack =
          none := rfl
      rw [AdminOrder.octets, hnone] at hcmd
      cases hcmd
  | listClients =>
      have hlist : adminCommand (ascii "tg://1040/" ++ letterT :: tail) stack =
          some (.request .listClients) := rfl
      rw [AdminOrder.octets, hlist, Option.some.injEq] at hcmd
      exact hcmd.symm
  | closeClient pid pos fits =>
      have hten : (ascii "tg://1041/").length = 10 := rfl
      rw [AdminOrder.octets, List.length_append, List.length_append, hten,
        List.length_cons, adminBufSize] at hlength
      rw [AdminOrder.octets, List.append_assoc, adminCommand_close,
        List.append_assoc, List.append_assoc, List.cons_append,
        Decimal.atoi_stop (fun c hc => Decimal.isDigit_natText hc) (by omega)
          (by decide) (fun _ => by decide), Decimal.digitsValue_natText,
        Option.some.injEq] at hcmd
      exact hcmd.symm

variable {src : Source} {orders : List AdminOrder} {offset : Nat}

/-- With atomic writes a read at a command returns all of it. -/
theorem WholeWrites.covers (hwhole : WholeWrites src orders)
    {order : AdminOrder} {rest : List AdminOrder}
    (hplace : src.octets.drop offset = adminStream (order :: rest)) :
    order.octets.length ≤ (src.chunk offset adminBufSize).length := by
  have hpos : 0 < (src.chunk offset adminBufSize).length := by
    apply src.chunk_pos (by decide)
    have hlength := congrArg List.length hplace
    rw [List.length_drop, adminStream_cons, List.length_append] at hlength
    have hten := order.ten_le_length
    omega
  rcases hwhole offset with hfull | ⟨k, hbehind⟩
  · rw [hfull]
    exact order.length_le
  by_contra hshort
  obtain ⟨tail, hoctets, htail⟩ := order.octets_cons
  obtain ⟨m, hm⟩ := Nat.exists_eq_add_of_lt hpos
  rw [Nat.zero_add] at hm
  rw [← List.drop_drop, hplace, adminStream_cons, hm, hoctets,
    List.cons_append, List.drop_succ_cons] at hbehind
  have hlong : m < tail.length := by
    rw [hm, hoctets, List.length_cons] at hshort
    omega
  rw [List.drop_append_of_le_length (Nat.le_of_lt hlong),
    List.drop_eq_getElem_cons hlong, List.cons_append] at hbehind
  -- the octet behind is in the middle of a command, so none begins there
  rcases adminStream_head (orders.drop k) with hnil | ⟨next, hnext⟩
  · rw [hnil] at hbehind
    cases hbehind
  · rw [hnext] at hbehind
    exact htail ((List.cons.inj hbehind).1 ▸ List.getElem_mem hlong)

/-- Of the commands at or behind a place those that are executed keep their
order. -/
theorem adminCommands_sublist {stack : Nat → List Byte}
    (hwhole : WholeWrites src orders)
    (hterminated : ∀ order ∈ orders, ∀ offset,
      order.Terminated (stack offset))
    (n : Nat) {tail : List Byte} {rest : List AdminOrder}
    (hrest : rest <:+ orders)
    (hplace : src.octets.drop offset = tail ++ adminStream rest)
    (htail : letterT ∉ tail) :
    (adminCommands src.read stack n offset).Sublist
      (rest.map AdminOrder.command) := by
  induction n generalizing offset tail rest with
  | zero => exact List.nil_sublist _
  | succ n ih =>
      rw [adminCommands_succ]
      cases hcmd : adminCommand (src.chunk offset adminBufSize)
          (stack offset) with
      | none =>
          obtain ⟨tail', rest', hdrop, htail', hsuffix⟩ :=
            drop_adminStream_suffix (src.chunk offset adminBufSize).length
              tail rest htail
          rw [← hplace, List.drop_drop] at hdrop
          exact (ih (hsuffix.trans hrest) hdrop htail').trans
            (hsuffix.sublist.map _)
      | some cmd =>
          obtain ⟨rfl, hsome, -⟩ := adminCommand_place hplace htail hcmd
          obtain ⟨order, rest, rfl⟩ := List.exists_cons_of_ne_nil hsome
          rw [List.nil_append] at hplace
          have hcovers := hwhole.covers hplace
          -- the read returned the command and some of what is behind it
          have hchunk : src.chunk offset adminBufSize = order.octets ++
              (adminStream rest).take
                ((src.chunk offset adminBufSize).length -
                  order.octets.length) := by
            have hsplit := src.chunk_eq_take offset adminBufSize
            rwa [hplace, adminStream_cons, List.take_append,
              List.take_of_length_le hcovers] at hsplit
          have hbehind : src.octets.drop
              (offset + (src.chunk offset adminBufSize).length) =
              (adminStream rest).drop
                ((src.chunk offset adminBufSize).length -
                  order.octets.length) := by
            rw [← List.drop_drop, hplace, adminStream_cons, List.drop_append,
              List.drop_eq_nil_of_le hcovers, List.nil_append]
          have hmem : order ∈ orders := hrest.subset List.mem_cons_self
          have hcommand : cmd = order.command := by
            have hlimit := src.chunk_length_le offset adminBufSize
            rw [hchunk] at hcmd hlimit
            refine adminCommand_whole order ?_ hlimit
              (hterminated order hmem offset) hcmd
            generalize (src.chunk offset adminBufSize).length -
              order.octets.length = k
            rcases adminStream_head rest with hnil | ⟨next, hnext⟩
            · exact Or.inl (by rw [hnil, List.take_nil])
            · cases k with
              | zero => exact Or.inl rfl
              | succ k => exact Or.inr ⟨_, by rw [hnext, List.take_succ_cons]⟩
          subst hcommand
          obtain ⟨tail', rest', hdrop, htail', hsuffix⟩ :=
            drop_adminStream_suffix ((src.chunk offset adminBufSize).length -
              order.octets.length) [] rest List.not_mem_nil
          rw [List.nil_append, ← hbehind] at hdrop
          have hlast := (ih (hsuffix.trans ((List.suffix_cons _ _).trans hrest))
            hdrop htail').trans (hsuffix.sublist.map AdminOrder.command)
          rw [List.map_cons]
          split
          · rename_i hnone
            cases hnone
          · rename_i hshut
            rw [← Option.some.inj hshut]
            exact (List.nil_sublist _).cons_cons _
          · rename_i req hreq
            rw [← Option.some.inj hreq]
            exact hlast.cons_cons _

end Fifo

/-- With atomic writes the commands the main process executes are some of
those that were written, in order. -/
theorem adminCommands_written (orders : List AdminOrder) (avail : Nat → Nat)
    (stack : Nat → List Byte)
    (hwhole : WholeWrites ⟨adminStream orders, avail⟩ orders)
    (hterminated : ∀ order ∈ orders, ∀ offset, order.Terminated (stack offset))
    (n : Nat) :
    (adminCommands (Source.read ⟨adminStream orders, avail⟩) stack n
      0).Sublist (orders.map AdminOrder.command) := by
  have hplace : (adminStream orders).drop 0 = [] ++ adminStream orders := rfl
  exact adminCommands_sublist hwhole hterminated n List.suffix_rfl hplace
    List.not_mem_nil

/-- Reads that find everything written so far meet the condition. -/
theorem wholeWrites_full (orders : List AdminOrder) {avail : Nat → Nat}
    (havail : ∀ offset, adminBufSize ≤ avail offset) :
    WholeWrites ⟨adminStream orders, avail⟩ orders := by
  intro offset
  have hlength := Source.length_chunk ⟨adminStream orders, avail⟩ offset
    adminBufSize
  have hmany := havail offset
  dsimp only at hlength
  by_cases hfull : adminBufSize ≤ (adminStream orders).length - offset
  · left
    omega
  · right
    refine ⟨orders.length, ?_⟩
    rw [List.drop_length, List.drop_eq_nil_of_le (by dsimp only; omega)]
    rfl

namespace OrderSafety

open ControlPipe (client both closedSock)

/-- Both messages in one read. -/
theorem deamonRead_orders_sublist_both :
    0 ≤ client.readPipe ∧
    (both 20).octets = orderStream [.close, .shutDown] ∧
    (∀ _offset : Nat, FewDigits [0]) ∧
    ((signalsFrom .mainProcess (deamonRead client closedSock (fun _ _ => 7)
        (both 20).read (fun _ => [0]) (List.replicate 3 ⟨false, true⟩) ()
        0)).filter (dispatched ·.type)).Sublist
      ([Order.close, .shutDown].map Order.signal) :=
  ⟨by decide, rfl, fun _ => by decide,
    deamonRead_orders_sublist client (by decide) [.close, .shutDown] (both 20)
      rfl (fun _ => [0]) (fun _ => by decide) closedSock (fun _ _ => 7)
      (List.replicate 3 ⟨false, true⟩) ()⟩

/-- A listing, a command for a client and a shutdown, all queued. -/
def commands : List AdminOrder :=
  [.listClients, .closeClient 77 (by decide) (by decide), .shutDown]

theorem adminCommands_written_queued :
    WholeWrites ⟨adminStream commands, fun _ => 20⟩ commands ∧
    (∀ order ∈ commands, ∀ _offset : Nat, order.Terminated [0]) ∧
    (adminCommands (Source.read ⟨adminStream commands, fun _ => 20⟩)
      (fun _ => [0]) 4 0).Sublist (commands.map AdminOrder.command) := by
  have hwhole : WholeWrites ⟨adminStream commands, fun _ => 20⟩ commands :=
    wholeWrites_full commands fun _ => Nat.le_refl 20
  have hterminated : ∀ order ∈ commands, ∀ _offset : Nat,
      order.Terminated [0] := by
    intro order horder _
    simp only [commands, List.mem_cons, List.not_mem_nil, or_false] at horder
    rcases horder with rfl | rfl | rfl
    · trivial
    · exact fun hten => absurd hten (by decide)
    · trivial
  exact ⟨hwhole, hterminated, adminCommands_written commands (fun _ => 20)
    (fun _ => [0]) hwhole hterminated 4⟩

end OrderSafety

end TgServer
