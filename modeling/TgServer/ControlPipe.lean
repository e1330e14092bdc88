/-
What `read_data_from_main_process` makes of the messages the main process
writes to a client's pipe when the kernel decides how much each read returns.
-/
import TgServer.Reader

namespace TgServer

open Bytes ByteStream

/-- The messages the main process writes to a pipe. -/
inductive Order where
  /-- From `sendSignalToAllClients`. -/
  | shutDown
  /-- From `write_data`. -/
  | close
deriving Repr, DecidableEq

namespace Order

/-- The octets written. -/
def octets : Order → List Byte
  | .shutDown => ascii "tg://1003/"
  | .close => ascii "tg://1005" ++ [0]

/-- The four digits of the message type. -/
def number : Order → List Byte
  | .shutDown => ascii "1003"
  | .close => ascii "1005"

def type : Order → Int
  | .shutDown => msgTypeServerShutDown
  | .close => msgTypeClientBeClosedByAdmin

/-- The event the order asks for. -/
def signal (order : Order) : Signal := ⟨order.type, none⟩

@[simp] theorem length_octets (order : Order) : order.octets.length = 10 := by
  cases order <;> rfl

end Order

/-- All that is written to the pipe. -/
def orderStream (orders : List Order) : List Byte :=
  orders.flatMap Order.octets

/-- The read issued at the first octet of each message returns that message
alone, and what lies behind `no` does not add to the number. -/
def OrdersAligned (src : Source) (stack : Nat → List Byte) :
    Nat → List Order → Prop
  | _, [] => True
  | offset, order :: rest =>
      (src.chunk offset bufSize).length = 10 ∧
      Decimal.atoi (order.number ++ stack offset) = order.type ∧
      OrdersAligned src stack (offset + 10) rest

@[simp] theorem length_orderStream (orders : List Order) :
    (orderStream orders).length = 10 * orders.length := by
  induction orders with
  | nil => rfl
  | cons order rest ih =>
      rw [orderStream, List.flatMap_cons, List.length_append]
      change _ + (orderStream rest).length = _
      rw [ih, Order.length_octets, List.length_cons]
      omega

section Octets

/-- Only the places of the number hold digits. -/
theorem Order.digit_place (order : Order) {i : Nat} {c : Byte}
    (hget : order.octets[i]? = some c) (hdigit : Decimal.isDigit c = true) :
    5 ≤ i ∧ i ≤ 8 := by
  have hlt : i < 10 := by
    have hlength := (List.getElem?_eq_some_iff.mp hget).1
    rwa [Order.length_octets] at hlength
  have hall : ∀ order : Order, ∀ i < 10,
      (order.octets[i]?.any Decimal.isDigit) = true → 5 ≤ i ∧ i ≤ 8 := by
    intro order
    cases order <;> decide
  apply hall order i hlt
  rw [hget]
  exact hdigit

/-- No octet of a message is a blank or a sign. -/
theorem Order.plain (order : Order) {c : Byte} (hmem : c ∈ order.octets) :
    Decimal.isSpace c = false ∧ Decimal.isSign c = false := by
  have hall : order.octets.all (fun c =>
      !Decimal.isSpace c && !Decimal.isSign c) = true := by
    cases order <;> rfl
  simpa using List.all_eq_true.mp hall c hmem

theorem orderStream_digit {orders : List Order} {i : Nat} {c : Byte}
    (hget : (orderStream orders)[i]? = some c)
    (hdigit : Decimal.isDigit c = true) : 5 ≤ i % 10 ∧ i % 10 ≤ 8 := by
  induction orders generalizing i with
  | nil => simp [orderStream] at hget
  | cons order rest ih =>
      rw [orderStream, List.flatMap_cons] at hget
      by_cases hlt : i < order.octets.length
      · rw [List.getElem?_append_left hlt] at hget
        have hplace := order.digit_place hget hdigit
        omega
      · rw [List.getElem?_append_right (by omega), Order.length_octets] at hget
        rw [Order.length_octets] at hlt
        have hplace := ih hget
        omega

theorem orderStream_plain {orders : List Order} {c : Byte}
    (hmem : c ∈ orderStream orders) :
    Decimal.isSpace c = false ∧ Decimal.isSign c = false := by
  rw [orderStream, List.mem_flatMap] at hmem
  obtain ⟨order, -, hc⟩ := hmem
  exact order.plain hc

end Octets

/-- A text of four octets, without blanks and signs, that are not all digits
is a small number whatever lies behind it. -/
theorem atoi_lt_of_not_digits {no : List Byte} (stack : List Byte)
    (hlength : no.length ≤ 4)
    (hplain : ∀ c ∈ no, Decimal.isSpace c = false ∧ Decimal.isSign c = false)
    (hother : ∃ c ∈ no, Decimal.isDigit c = false) :
    Decimal.atoi (no ++ stack) < msgTypeBase := by
  have hsplit := List.takeWhile_append_dropWhile (p := Decimal.isDigit) (l := no)
  have hdigits : ∀ c ∈ no.takeWhile Decimal.isDigit,
      Decimal.isDigit c = true := fun c hc => List.mem_takeWhile_imp hc
  cases hrest : no.dropWhile Decimal.isDigit with
  | nil =>
      obtain ⟨c, hc, hnot⟩ := hother
      rw [hrest, List.append_nil] at hsplit
      rw [← hsplit] at hc
      rw [hdigits c hc] at hnot
      cases hnot
  | cons stop rest =>
      have hstop : Decimal.isDigit stop = false := by
        have hnil : no.dropWhile Decimal.isDigit ≠ [] := by simp [hrest]
        have hhead := List.head_dropWhile_not Decimal.isDigit hnil
        simpa [hrest] using hhead
      have hlt : (no.takeWhile Decimal.isDigit).length ≤ 3 := by
        have hsum := congrArg List.length hsplit
        rw [hrest, List.length_append, List.length_cons] at hsum
        omega
      have hmem : stop ∈ no := by
        rw [← hsplit, hrest]
        exact List.mem_append_right _ List.mem_cons_self
      have hvalue := Decimal.digitsValue_lt hdigits
      have hpow : 10 ^ (no.takeWhile Decimal.isDigit).length ≤ 10 ^ 3 :=
        Nat.pow_le_pow_right (by decide) hlt
      rw [← hsplit, hrest, List.append_assoc, List.cons_append,
        Decimal.atoi_stop hdigits (by omega) hstop fun _ => hplain stop hmem,
        msgTypeBase]
      omega

section Calls

variable {client : TGClient} (hpipe : 0 ≤ client.readPipe)
variable (src : Source) (stack : Nat → List Byte)

/-- The four octets `no` gets from what a read at this offset returns. -/
def numberRead (src : Source) (offset : Nat) : List Byte :=
  strncpy ((src.chunk offset bufSize ++
    List.replicate (bufSize - (src.chunk offset bufSize).length) 0).drop 5) 4

include hpipe

/-- At the end of the pipe nothing is sent. -/
theorem pipeCall_end {offset : Nat} (hend : src.octets.length ≤ offset) :
    pipeCall client src.read stack offset = ([], offset) := by
  have hnot : ¬ client.readPipe < 0 := by omega
  have hchunk := src.chunk_end bufSize hend
  simp [pipeCall, readDataFromMainProcess, hnot, Source.read, hchunk, signalOf]

/-- Every other call sends one event, of the type it reads after the fifth
octet. -/
theorem pipeCall_data {offset : Nat} (hlt : offset < src.octets.length) :
    pipeCall client src.read stack offset =
      ([⟨Decimal.atoi (numberRead src offset ++ stack offset), none⟩],
        offset + (src.chunk offset bufSize).length) := by
  have hnot : ¬ client.readPipe < 0 := by omega
  have hpos := src.chunk_pos (show 0 < bufSize by decide) hlt
  rw [numberRead]
  cases hchunk : src.chunk offset bufSize with
  | nil => simp [hchunk] at hpos
  | cons c cs =>
      simp only [pipeCall, readDataFromMainProcess, hnot, ↓reduceIte,
        Source.read, hchunk]
      split <;> rfl

end Calls

section Number

variable {src : Source} {offset i : Nat} {orders : List Order}

/-- A read at place `i` of the messages `orders`. -/
def At (src : Source) (offset i : Nat) (orders : List Order) : Prop :=
  src.octets.drop offset = (orderStream orders).drop i ∧
    i ≤ 10 * orders.length

/-- What a read at place `i` returns. -/
theorem At.chunk (hat : At src offset i orders) :
    src.chunk offset bufSize = ((orderStream orders).drop i).take
        (src.chunk offset bufSize).length := by
  rw [← hat.1]
  exact src.chunk_eq_take offset bufSize

theorem At.length_chunk (hat : At src offset i orders) :
    i + (src.chunk offset bufSize).length ≤ 10 * orders.length := by
  have hlength := congrArg List.length hat.chunk
  rw [List.length_take, List.length_drop, length_orderStream] at hlength
  have hle := hat.2
  omega

/-- Where the next read stands. -/
theorem At.next (hat : At src offset i orders) :
    At src (offset + (src.chunk offset bufSize).length)
      (i + (src.chunk offset bufSize).length) orders := by
  refine ⟨?_, hat.length_chunk⟩
  rw [← List.drop_drop, hat.1, List.drop_drop]

theorem At.lt_iff (hat : At src offset i orders) :
    offset < src.octets.length ↔ i < 10 * orders.length := by
  have hlength := congrArg List.length hat.1
  rw [List.length_drop, List.length_drop, length_orderStream] at hlength
  omega

/-- `no` gets octets of the messages and NULs. -/
theorem At.numberRead_plain (hat : At src offset i orders) {c : Byte}
    (hc : c ∈ numberRead src offset) :
    Decimal.isSpace c = false ∧ Decimal.isSign c = false := by
  have hzero : Decimal.isSpace 0 = false ∧ Decimal.isSign 0 = false := by
    decide
  rw [numberRead, strncpy] at hc
  rcases List.mem_append.mp hc with htext | hfill
  · have hbuf := List.mem_of_mem_drop
      ((List.takeWhile_subset _ (List.mem_of_mem_take htext)))
    rcases List.mem_append.mp hbuf with hchunk | hpad
    · rw [hat.chunk] at hchunk
      exact orderStream_plain (List.mem_of_mem_drop (List.mem_of_mem_take hchunk))
    · rw [(List.mem_replicate.mp hpad).2]
      exact hzero
  · rw [(List.mem_replicate.mp hfill).2]
    exact hzero

/-- All four octets are digits only if they are those of a message type. -/
theorem At.aligned_of_digits (hat : At src offset i orders)
    (hdigits : ∀ c ∈ numberRead src offset, Decimal.isDigit c = true) :
    i % 10 = 0 ∧ 9 ≤ (src.chunk offset bufSize).length := by
  have hnonzero : ∀ c ∈ numberRead src offset, c ≠ 0 := by
    rintro c hc rfl
    exact absurd (hdigits 0 hc) (by decide)
  obtain ⟨htake, -⟩ := strncpy_nonzero hnonzero
  have hchunk := hat.chunk
  have hsize := src.chunk_length_le offset bufSize
  -- a digit at place `j` of the number is an octet the read returned
  have hplace : ∀ j < 4, 5 + j < (src.chunk offset bufSize).length ∧
      5 ≤ (i + 5 + j) % 10 ∧ (i + 5 + j) % 10 ≤ 8 := by
    intro j hj
    have hlt : j < (numberRead src offset).length := by
      rw [numberRead, length_strncpy]
      exact hj
    have hdigit := hdigits _ (List.getElem_mem hlt)
    have hget := List.getElem?_eq_getElem hlt
    generalize (numberRead src offset)[j] = c at hdigit hget
    rw [numberRead, htake, List.getElem?_take_of_lt hj, List.getElem?_drop]
      at hget
    by_cases hinside : 5 + j < (src.chunk offset bufSize).length
    · rw [List.getElem?_append_left hinside, hchunk,
        List.getElem?_take_of_lt hinside, List.getElem?_drop] at hget
      have hdecade := orderStream_digit hget hdigit
      rw [← Nat.add_assoc] at hdecade
      exact ⟨hinside, hdecade⟩
    · rw [List.getElem?_append_right (Nat.le_of_not_lt hinside)] at hget
      have hzero := (List.mem_replicate.mp (List.mem_of_getElem? hget)).2
      subst hzero
      exact absurd hdigit (by decide)
  have hfirst := hplace 0 (by decide)
  have hlast := hplace 3 (by decide)
  omega

/-- A read that is not at a message, or gets too little of it, makes the
reader see a type below all others. -/
theorem At.aligned (hat : At src offset i orders) (stack : List Byte)
    (htype : msgTypeBase ≤ Decimal.atoi (numberRead src offset ++ stack)) :
    i % 10 = 0 ∧ 9 ≤ (src.chunk offset bufSize).length := by
  apply hat.aligned_of_digits
  intro c hc
  by_contra hnot
  have hlt := atoi_lt_of_not_digits stack
    (Nat.le_of_eq (length_strncpy _ _)) (fun c hc => hat.numberRead_plain hc)
    ⟨c, hc, eq_false_of_ne_true hnot⟩
  rw [← numberRead] at hlt
  omega

/-- A read that returns one message gives its number. -/
theorem At.numberRead_order {order : Order} {rest : List Order}
    (hat : At src offset 0 (order :: rest))
    (hten : (src.chunk offset bufSize).length = 10) :
    numberRead src offset = order.number := by
  have hchunk := hat.chunk
  rw [hten, List.drop_zero, orderStream, List.flatMap_cons,
    List.take_left' order.length_octets] at hchunk
  rw [numberRead, hchunk, ← strncpy_take, List.drop_append_of_le_length
    (by rw [order.length_octets]; decide), List.take_append_of_le_length
    (by rw [List.length_drop, order.length_octets]; decide)]
  cases order <;> rfl

end Number

section Signals

variable {client : TGClient} (hpipe : 0 ≤ client.readPipe)
variable (src : Source) (stack : Nat → List Byte)

include hpipe

theorem pipeSignals_end {offset : Nat} (hend : src.octets.length ≤ offset)
    (n : Nat) : pipeSignals client src.read stack n offset = [] := by
  induction n with
  | zero => rfl
  | succ n ih =>
      rw [pipeSignals, pipeCall_end hpipe src stack hend]
      exact ih

theorem pipeSignals_data {offset : Nat} (hlt : offset < src.octets.length)
    (n : Nat) : pipeSignals client src.read stack (n + 1) offset =
      ⟨Decimal.atoi (numberRead src offset ++ stack offset), none⟩ ::
        pipeSignals client src.read stack n
          (offset + (src.chunk offset bufSize).length) := by
  rw [pipeSignals, pipeCall_data hpipe src stack hlt]
  rfl

/-- Events of proper types come from reads at messages, no more than one for
each message that is left. -/
theorem pipeSignals_count {offset i : Nat} {orders : List Order}
    (hat : At src offset i orders) (n : Nat)
    (htypes : ∀ signal ∈ pipeSignals client src.read stack n offset,
      msgTypeBase ≤ signal.type) :
    pipeSignals client src.read stack n offset = [] ∨
      i % 10 = 0 ∧
        10 * (pipeSignals client src.read stack n offset).length + i ≤
          10 * orders.length := by
  induction n generalizing offset i with
  | zero => exact Or.inl rfl
  | succ n ih =>
      by_cases hlt : offset < src.octets.length
      swap
      · exact Or.inl (pipeSignals_end hpipe src stack (Nat.le_of_not_lt hlt) _)
      rw [pipeSignals_data hpipe src stack hlt] at htypes ⊢
      have hfirst := htypes _ List.mem_cons_self
      dsimp only at hfirst
      obtain ⟨haligned, hnine⟩ := hat.aligned (stack offset) hfirst
      have hrest := ih hat.next fun signal hsignal =>
        htypes signal (List.mem_cons_of_mem _ hsignal)
      have hinside := hat.lt_iff.mp hlt
      refine Or.inr ⟨haligned, ?_⟩
      rw [List.length_cons]
      rcases hrest with hnone | ⟨hnext, hcount⟩
      · rw [hnone, List.length_nil]
        omega
      · omega

/-- With a call for every octet, the events are the orders exactly when the
reads respect the messages. -/
theorem pipeSignals_orders {offset : Nat} {orders : List Order}
    (hat : At src offset 0 orders) {n : Nat}
    (hn : 10 * orders.length ≤ n) :
    pipeSignals client src.read stack n offset = orders.map Order.signal ↔
      OrdersAligned src stack offset orders := by
  induction orders generalizing offset n with
  | nil =>
      have hend : src.octets.length ≤ offset :=
        Nat.le_of_not_lt fun hlt => absurd (hat.lt_iff.mp hlt) (by simp)
      exact iff_of_true (pipeSignals_end hpipe src stack hend n) trivial
  | cons order rest ih =>
      rw [List.length_cons] at hn
      obtain ⟨m, rfl⟩ : ∃ m, n = m + 1 := ⟨n - 1, by omega⟩
      have hlt : offset < src.octets.length := hat.lt_iff.mpr (by simp)
      have hwithin := hat.length_chunk
      rw [List.length_cons] at hwithin
      rw [pipeSignals_data hpipe src stack hlt, List.map_cons, List.cons.injEq,
        OrdersAligned]
      -- both sides ask for a read of one message
      by_cases hten : (src.chunk offset bufSize).length = 10
      swap
      · refine iff_of_false ?_ fun haligned => hten haligned.1
        rintro ⟨hfirst, hrest⟩
        have hproper : ∀ signal ∈ (order :: rest).map Order.signal,
            msgTypeBase ≤ signal.type := by
          intro signal hsignal
          obtain ⟨sent, -, rfl⟩ := List.mem_map.mp hsignal
          cases sent <;> decide
        rw [List.map_cons, ← hfirst] at hproper
        have hnumber := hproper _ List.mem_cons_self
        dsimp only at hnumber
        obtain ⟨-, hnine⟩ := hat.aligned (stack offset) hnumber
        have hcount := pipeSignals_count hpipe src stack hat.next m (by
          rw [hrest]
          exact fun signal hsignal =>
            hproper signal (List.mem_cons_of_mem _ hsignal))
        rcases hcount with hnone | ⟨hmod, hcount⟩
        · -- the read of nine octets leaves one for another event
          rw [hrest, List.map_eq_nil_iff] at hnone
          subst hnone
          obtain ⟨k, rfl⟩ : ∃ k, m = k + 1 := ⟨m - 1, by omega⟩
          have hinside : 0 + (src.chunk offset bufSize).length <
              10 * [order].length := by
            rw [List.length_singleton]
            rw [List.length_nil] at hwithin
            omega
          have hleft := hat.next.lt_iff.mpr hinside
          rw [pipeSignals_data hpipe src stack hleft] at hrest
          cases hrest
        · rw [hrest, List.length_map, List.length_cons] at hcount
          omega
      · have hnext : At src (offset + 10) 0 rest := by
          have hmoved := hat.next.1
          rw [hten, Nat.zero_add, orderStream, List.flatMap_cons,
            List.drop_left' order.length_octets] at hmoved
          exact ⟨hmoved, Nat.zero_le _⟩
        have htype : (⟨Decimal.atoi (order.number ++ stack offset), none⟩ :
            Signal) = order.signal ↔
            Decimal.atoi (order.number ++ stack offset) = order.type := by
          simp [Order.signal]
        rw [hat.numberRead_order hten, hten, htype, ih hnext (by omega)]
        simp

end Signals

section Rounds

variable {σ : Type} {client : TGClient} {readSock : Descriptor σ}
variable {junk : σ → Nat → Byte}

/-- Rounds without a readable socket are all got through. -/
theorem liveRounds_pipe (s : σ) (n : Nat) :
    liveRounds client readSock junk (List.replicate n ⟨false, true⟩) s =
      List.replicate n ⟨false, true⟩ := by
  induction n with
  | zero => rfl
  | succ n ih =>
      rw [List.replicate_succ, liveRounds]
      simp only [Bool.false_eq_true, ↓reduceIte, ih]

end Rounds

/-- The reader thread sends one event for each message of the main process, in
order, whatever happens on the socket, if and only if each read that starts at
a message returns just that message and the stack behind `no` does not change
the number.  The rounds are as many as the pipe may need. -/
theorem deamonRead_orders_iff {σ : Type} (client : TGClient)
    (hpipe : 0 ≤ client.readPipe) (orders : List Order) (src : Source)
    (hsrc : src.octets = orderStream orders) (stack : Nat → List Byte)
    (readSock : Descriptor σ) (junk : σ → Nat → Byte) (s : σ) :
    (∀ rounds,
      (orderStream orders).length ≤
        (liveRounds client readSock junk rounds s).countP Ready.mPipe →
      signalsFrom .mainProcess
          (deamonRead client readSock junk src.read stack rounds s 0) =
        orders.map Order.signal) ↔
    OrdersAligned src stack 0 orders := by
  have hat : At src 0 0 orders := ⟨by rw [hsrc], Nat.zero_le _⟩
  rw [length_orderStream]
  constructor
  · intro hrounds
    have hready := hrounds (List.replicate (10 * orders.length) ⟨false, true⟩)
    rw [deamonRead_mainProcess, liveRounds_pipe, List.countP_replicate,
      if_pos rfl] at hready
    exact (pipeSignals_orders hpipe src stack hat (Nat.le_refl _)).mp
      (hready (Nat.le_refl _))
  · intro haligned rounds henough
    rw [deamonRead_mainProcess]
    exact (pipeSignals_orders hpipe src stack hat henough).mpr haligned

namespace ControlPipe

/-- A client process with descriptors 4, 5 and 6. -/
def client : TGClient := ⟨100, 4, 5, 6, none, 0⟩

/-- An admin closes the client, then the server shuts down; at most `n` octets
a read. -/
def both (n : Nat) : Source :=
  ⟨orderStream [.close, .shutDown], fun _ => n⟩

/-- A client that has closed its connection. -/
def closedSock : Descriptor Unit := fun s _ => (.data [], s)

theorem deamonRead_orders_iff_both :
    (both 10).octets = orderStream [.close, .shutDown] ∧
    ∀ rounds,
      (orderStream [.close, .shutDown]).length ≤
        (liveRounds client closedSock (fun _ _ => 7) rounds ()).countP
          Ready.mPipe →
      signalsFrom .mainProcess
          (deamonRead client closedSock (fun _ _ => 7) (both 10).read
            (fun _ => [0]) rounds () 0) =
        [Order.close, .shutDown].map Order.signal :=
  ⟨rfl, (deamonRead_orders_iff client (by decide) [.close, .shutDown] (both 10)
    rfl (fun _ => [0]) closedSock (fun _ _ => 7) ()).mpr
      (by simp only [OrdersAligned]; decide)⟩

/-- Both messages in one read: the order to shut down is lost. -/
theorem deamonRead_orders_coalesced :
    (both 20).octets = orderStream [.close, .shutDown] ∧
    signalsFrom .mainProcess
        (deamonRead client closedSock (fun _ _ => 7) (both 20).read
          (fun _ => [0]) (List.replicate 20 ⟨false, true⟩) () 0) =
      [⟨msgTypeClientBeClosedByAdmin, none⟩] ∧
    ¬ ∀ rounds,
      (orderStream [.close, .shutDown]).length ≤
        (liveRounds client closedSock (fun _ _ => 7) rounds ()).countP
          Ready.mPipe →
      signalsFrom .mainProcess
          (deamonRead client closedSock (fun _ _ => 7) (both 20).read
            (fun _ => [0]) rounds () 0) =
        [Order.close, .shutDown].map Order.signal := by
  refine ⟨rfl, by decide, ?_⟩
  intro hrounds
  exact absurd (hrounds (List.replicate 20 ⟨false, true⟩) (by decide))
    (by decide)

end ControlPipe

end TgServer
