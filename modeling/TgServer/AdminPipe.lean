/-
What `do_admin` makes of the commands written to the FIFO when the kernel
decides how much each read returns.  The stream has no delimiter: a read that
does not return exactly one command loses or changes one.
-/
import TgServer.Admin

namespace TgServer

open Bytes ByteStream

universe u

/-- The commands an administrator writes. -/
inductive AdminOrder where
  | shutDown
  | listClients
  | closeClient (pid : Nat) (pos : 0 < pid) (fits : pid < 2 ^ 31)
deriving Repr, DecidableEq

namespace AdminOrder

/-- The octets written. -/
def octets : AdminOrder → List Byte
  | .shutDown => ascii "tg://1003/"
  | .listClients => ascii "tg://1040/"
  | .closeClient pid _ _ => ascii "tg://1041/" ++ Decimal.natText pid

/-- What is to be executed. -/
def command : AdminOrder → AdminCommand
  | .shutDown => .shutDown
  | .listClients => .request .listClients
  | .closeClient pid _ _ => .request (.closeClient pid)

theorem command_eq_shutDown {order : AdminOrder}
    (hcommand : order.command = .shutDown) : order = .shutDown := by
  cases order with
  | shutDown => rfl
  | listClients | closeClient pid pos fits => cases hcommand

/-- A pid of ten digits fills the buffer up; what lies behind it must not add
to the number. -/
def Terminated (stack : List Byte) : AdminOrder → Prop
  | .closeClient pid _ _ => (Decimal.natText pid).length = 10 →
      Decimal.atoi (Decimal.natText pid ++ stack) = pid
  | _ => True

end AdminOrder

/-- All that is written to the FIFO. -/
def adminStream (orders : List AdminOrder) : List Byte :=
  orders.flatMap AdminOrder.octets

/-- The commands that successive calls of `do_admin` execute; a shutdown ends
the process. -/
def adminCommands {σ : Type u} (read : Descriptor σ) (stack : σ → List Byte) :
    Nat → σ → List AdminCommand
  | 0, _ => []
  | n + 1, s =>
      match read s adminBufSize with
      | (.failed, s') => adminCommands read stack n s'
      | (.data octets, s') =>
          match adminCommand octets (stack s) with
          | none => adminCommands read stack n s'
          | some .shutDown => [.shutDown]
          | some (.request req) =>
              .request req :: adminCommands read stack n s'

/-- The read issued at the first octet of each command returns that command
alone, and nothing is written behind a shutdown. -/
def AdminAligned (src : Source) (stack : Nat → List Byte) :
    Nat → List AdminOrder → Prop
  | _, [] => True
  | offset, order :: rest =>
      (src.chunk offset adminBufSize).length = order.octets.length ∧
      order.Terminated (stack offset) ∧
      (order = .shutDown → rest = []) ∧
      AdminAligned src stack (offset + order.octets.length) rest

section Octets

/-- The octet every command starts with. -/
def letterT : Byte := 116

theorem AdminOrder.octets_cons (order : AdminOrder) :
    ∃ tail, order.octets = letterT :: tail ∧ letterT ∉ tail := by
  cases order with
  | shutDown => exact ⟨_, rfl, by decide⟩
  | listClients => exact ⟨_, rfl, by decide⟩
  | closeClient pid pos fits =>
      refine ⟨ascii "g://1041/" ++ Decimal.natText pid, rfl, ?_⟩
      rw [List.mem_append]
      rintro (hmem | hmem)
      · exact absurd hmem (by decide)
      · exact absurd (Decimal.isDigit_natText hmem) (by decide)

theorem AdminOrder.ten_le_length (order : AdminOrder) :
    10 ≤ order.octets.length := by
  cases order with
  | shutDown | listClients => exact Nat.le_refl 10
  | closeClient pid pos fits =>
      rw [AdminOrder.octets, List.length_append]
      exact Nat.le_add_right 10 _

theorem AdminOrder.length_le (order : AdminOrder) :
    order.octets.length ≤ adminBufSize := by
  cases order with
  | shutDown | listClients => decide
  | closeClient pid pos fits =>
      have hdigits := Decimal.length_natText_le (n := pid)
        (show 0 < 10 by decide) (by omega)
      rw [AdminOrder.octets, List.length_append]
      exact Nat.add_le_add_left hdigits 10

/-- Behind any number of octets there are the rest of a command and whole
commands, fewer than before if the number reaches into them. -/
theorem drop_adminStream (k : Nat) (tail : List Byte)
    (rest : List AdminOrder) (htail : letterT ∉ tail) :
    ∃ tail' rest', (tail ++ adminStream rest).drop k =
        tail' ++ adminStream rest' ∧
      letterT ∉ tail' ∧ rest'.length ≤ rest.length ∧
      (tail.length < k → rest ≠ [] → rest'.length < rest.length) := by
  induction rest generalizing k tail with
  | nil =>
      refine ⟨tail.drop k, [], ?_, ?_, Nat.le_refl 0, fun _ h => absurd rfl h⟩
      · simp [adminStream]
      · exact fun hmem => htail (List.mem_of_mem_drop hmem)
  | cons order rest ih =>
      by_cases hinside : k ≤ tail.length
      · refine ⟨tail.drop k, order :: rest, ?_, ?_, Nat.le_refl _, ?_⟩
        · exact List.drop_append_of_le_length hinside
        · exact fun hmem => htail (List.mem_of_mem_drop hmem)
        · intro hlt
          omega
      · obtain ⟨more, hoctets, hmore⟩ := order.octets_cons
        obtain ⟨tail', rest', hdrop, htail', hle, -⟩ :=
          ih (k - tail.length - 1) more hmore
        refine ⟨tail', rest', ?_, htail', ?_, ?_⟩
        · have hk : k = tail.length + (k - tail.length - 1 + 1) := by omega
          rw [hk, List.drop_length_add_append, adminStream, List.flatMap_cons,
            hoctets, List.cons_append, List.drop_succ_cons]
          exact hdrop
        · exact Nat.le_succ_of_le hle
        · intro _ _
          exact Nat.lt_succ_of_le hle

end Octets

section Commands

/-- The three texts `do_admin` and `write_data` compare with. -/
def adminTexts : List (List Byte) :=
  [ascii "tg://1003/", ascii "tg://1040/", ascii "tg://1041/"]

theorem adminCommand_some {octets stack : List Byte} {cmd : AdminCommand}
    (hcmd : adminCommand octets stack = some cmd) :
    ∃ text ∈ adminTexts, text <+: adminBuf octets := by
  rw [adminCommand] at hcmd
  split at hcmd
  · rename_i hequal
    exact ⟨_, by simp [adminTexts], strcmpEq_true hequal⟩
  · rw [writeRequest] at hcmd
    split at hcmd
    · rename_i hlist
      exact ⟨_, by simp [adminTexts], startsWith_true hlist⟩
    · split at hcmd
      · rename_i hclose
        exact ⟨_, by simp [adminTexts], startsWith_true hclose⟩
      · cases hcmd

/-- What starts a command starts with its first ten octets. -/
theorem adminCommand_length {octets stack : List Byte} {cmd : AdminCommand}
    (hcmd : adminCommand octets stack = some cmd) :
    10 ≤ octets.length ∧ octets.head? = some letterT := by
  obtain ⟨text, htext, hstart⟩ := adminCommand_some hcmd
  have hshape : text.length = 10 ∧ 0 ∉ text ∧ text.head? = some letterT := by
    simp only [adminTexts, List.mem_cons, List.not_mem_nil, or_false] at htext
    rcases htext with rfl | rfl | rfl <;> exact ⟨rfl, by decide, rfl⟩
  obtain ⟨hten, hzero, hhead⟩ := hshape
  have hlong : 10 ≤ octets.length := by
    by_contra hshort
    have hlt : octets.length < text.length := by omega
    obtain ⟨more, hmore⟩ := hstart
    have hget := congrArg (·[octets.length]?) hmore
    simp only [List.getElem?_append_left hlt] at hget
    rw [adminBuf, List.getElem?_append_right (Nat.le_refl _), Nat.sub_self,
      List.getElem?_replicate, if_pos (by rw [adminBufSize]; omega)] at hget
    exact hzero (List.mem_of_getElem? hget)
  refine ⟨hlong, ?_⟩
  cases octets with
  | nil => simp at hlong
  | cons c cs =>
      cases text with
      | nil => cases hhead
      | cons t text =>
          rw [adminBuf, List.cons_append, List.cons_prefix_cons] at hstart
          rw [List.head?_cons] at hhead ⊢
          rw [← hstart.1, hhead]

/-- A close command with some digits in front of the end of the buffer. -/
theorem adminCommand_close (digits stack : List Byte) :
    adminCommand (ascii "tg://1041/" ++ digits) stack =
      some (.request (.closeClient (Decimal.atoi
        (digits ++ List.replicate (10 - digits.length) 0 ++ stack)))) := by
  have hbuf : adminBuf (ascii "tg://1041/" ++ digits) =
      ascii "tg://1041/" ++
        (digits ++ List.replicate (10 - digits.length) 0) := by
    have hlength : (ascii "tg://1041/" ++ digits).length =
        10 + digits.length := List.length_append
    have hroom : adminBufSize - (10 + digits.length) = 10 - digits.length := by
      rw [adminBufSize]
      omega
    rw [adminBuf, hlength, hroom, List.append_assoc]
  have hrequest : ∀ text : List Byte,
      writeRequest (ascii "tg://1041/" ++ text) stack =
        some (.closeClient (Decimal.atoi (text ++ stack))) := by
    intro text
    have hlist : startsWith (ascii "tg://1041/" ++ text) (ascii "tg://1040/") =
        some false := rfl
    rw [writeRequest, hlist, startsWith_append]
    rfl
  have hshut : ∀ text : List Byte,
      strcmpEq (ascii "tg://1041/" ++ text) (ascii "tg://1003/") =
        some false := fun _ => rfl
  rw [adminCommand, hbuf, hshut, hrequest]
  rfl

/-- Some digits and the end of the buffer behind them: the number is theirs. -/
theorem atoi_padded {digits : List Byte} (stack : List Byte)
    (hdigits : ∀ c ∈ digits, Decimal.isDigit c = true)
    (hroom : digits.length < 10) :
    Decimal.atoi (digits ++ List.replicate (10 - digits.length) 0 ++ stack) =
      Decimal.digitsValue digits := by
  obtain ⟨m, hm⟩ : ∃ m, 10 - digits.length = m + 1 :=
    ⟨9 - digits.length, by omega⟩
  rw [hm, List.replicate_succ, List.append_assoc, List.cons_append]
  exact Decimal.atoi_stop hdigits (by omega) (by decide) fun _ => by decide

/-- A read that returns exactly one command gives that command, but for what
lies behind a full buffer. -/
theorem adminCommand_octets_iff (order : AdminOrder) (stack : List Byte) :
    adminCommand order.octets stack = some order.command ↔
      order.Terminated stack := by
  cases order with
  | shutDown => exact iff_of_true rfl trivial
  | listClients => exact iff_of_true rfl trivial
  | closeClient pid pos fits =>
      have hlength := Decimal.length_natText_le (n := pid)
        (show 0 < 10 by decide) (by omega)
      rw [AdminOrder.octets, adminCommand_close, AdminOrder.command,
        AdminOrder.Terminated]
      simp only [Option.some.injEq, AdminCommand.request.injEq,
        AdminRequest.closeClient.injEq]
      rcases Nat.lt_or_eq_of_le hlength with hlt | hten
      · rw [atoi_padded stack (fun c hc => Decimal.isDigit_natText hc) hlt,
          Decimal.digitsValue_natText]
        exact iff_of_true rfl fun hten => absurd hten (Nat.ne_of_lt hlt)
      · rw [hten, Nat.sub_self, List.replicate_zero, List.append_nil]
        exact ⟨fun hatoi _ => hatoi, fun hatoi => hatoi rfl⟩

/-- A read that returns less than a command does not give that command. -/
theorem adminCommand_take_ne (order : AdminOrder) (stack : List Byte) {k : Nat}
    (hk : k < order.octets.length) :
    adminCommand (order.octets.take k) stack ≠ some order.command := by
  intro hcmd
  have hten := (adminCommand_length hcmd).1
  rw [List.length_take, Nat.min_eq_left (Nat.le_of_lt hk)] at hten
  cases order with
  | shutDown | listClients => exact absurd hk (Nat.not_lt.mpr hten)
  | closeClient pid pos fits =>
      obtain ⟨j, rfl⟩ := Nat.exists_eq_add_of_le hten
      have htake : (ascii "tg://1041/" ++ Decimal.natText pid).take (10 + j) =
          ascii "tg://1041/" ++ (Decimal.natText pid).take j := by
        have hten : 10 + j = (ascii "tg://1041/").length + j := rfl
        rw [hten, List.take_length_add_append]
      have hj : j < (Decimal.natText pid).length := by
        rw [AdminOrder.octets, List.length_append] at hk
        exact Nat.lt_of_add_lt_add_left hk
      have hlength := Decimal.length_natText_le (n := pid)
        (show 0 < 10 by decide) (by omega)
      have hroom : ((Decimal.natText pid).take j).length < 10 := by
        rw [List.length_take]
        omega
      rw [AdminOrder.octets, htake, adminCommand_close,
        atoi_padded stack (fun c hc =>
          Decimal.isDigit_natText (List.mem_of_mem_take hc)) hroom] at hcmd
      simp only [AdminOrder.command, Option.some.injEq,
        AdminCommand.request.injEq, AdminRequest.closeClient.injEq] at hcmd
      have hless := Decimal.digitsValue_take_lt pos hj
      omega

end Commands

section Calls

variable (src : Source) (stack : Nat → List Byte)

/-- The commands executed from a read on. -/
theorem adminCommands_succ (n offset : Nat) :
    adminCommands src.read stack (n + 1) offset =
      match adminCommand (src.chunk offset adminBufSize) (stack offset) with
      | none => adminCommands src.read stack n
          (offset + (src.chunk offset adminBufSize).length)
      | some .shutDown => [.shutDown]
      | some (.request req) => .request req ::
          adminCommands src.read stack n
            (offset + (src.chunk offset adminBufSize).length) := rfl

/-- One read executes one command at most. -/
theorem adminCommands_succ_length (n offset : Nat) :
    (adminCommands src.read stack (n + 1) offset).length ≤
      (adminCommands src.read stack n
        (offset + (src.chunk offset adminBufSize).length)).length + 1 := by
  rw [adminCommands_succ]
  split
  · exact Nat.le_succ _
  · exact Nat.succ_le_succ (Nat.zero_le _)
  · exact Nat.le_refl _

variable {src} {offset : Nat} {tail : List Byte} {rest : List AdminOrder}

/-- Only a read at a command executes something. -/
theorem adminCommand_place
    (hplace : src.octets.drop offset = tail ++ adminStream rest)
    (htail : letterT ∉ tail) {behind : List Byte} {cmd : AdminCommand}
    (hcmd : adminCommand (src.chunk offset adminBufSize) behind = some cmd) :
    tail = [] ∧ rest ≠ [] ∧ 0 < (src.chunk offset adminBufSize).length := by
  obtain ⟨hten, hhead⟩ := adminCommand_length hcmd
  rw [src.chunk_eq_take, hplace, List.head?_take, if_neg (by omega)] at hhead
  refine ⟨?_, ?_, by omega⟩
  · cases tail with
    | nil => rfl
    | cons c cs =>
        rw [List.cons_append, List.head?_cons, Option.some.injEq] at hhead
        exact absurd (hhead ▸ List.mem_cons_self) htail
  · rintro rfl
    cases tail with
    | nil => cases hhead
    | cons c cs =>
        rw [List.cons_append, List.head?_cons, Option.some.injEq] at hhead
        exact absurd (hhead ▸ List.mem_cons_self) htail

/-- No more commands are executed than begin at or behind a place. -/
theorem adminCommands_length_le (n : Nat)
    (hplace : src.octets.drop offset = tail ++ adminStream rest)
    (htail : letterT ∉ tail) :
    (adminCommands src.read stack n offset).length ≤ rest.length := by
  induction n generalizing offset tail rest with
  | zero => exact Nat.zero_le _
  | succ n ih =>
      obtain ⟨tail', rest', hdrop, htail', hle, hless⟩ :=
        drop_adminStream (src.chunk offset adminBufSize).length tail rest htail
      rw [← hplace, List.drop_drop] at hdrop
      have hnext := ih hdrop htail'
      cases hcmd : adminCommand (src.chunk offset adminBufSize)
          (stack offset) with
      | none =>
          rw [adminCommands_succ, hcmd]
          exact Nat.le_trans hnext hle
      | some cmd =>
          obtain ⟨hnil, hrest, hpos⟩ := adminCommand_place hplace htail hcmd
          have hlt := hless (by rw [hnil]; exact hpos) hrest
          have hone := adminCommands_succ_length src stack n offset
          omega

/-- Where the reads behind this one execute less than all, this one executes
the first command. -/
theorem adminCommands_first {n : Nat} {first : AdminCommand}
    {more : List AdminCommand}
    (hrun : adminCommands src.read stack (n + 1) offset = first :: more)
    (hless : (adminCommands src.read stack n
      (offset + (src.chunk offset adminBufSize).length)).length ≤
        more.length) :
    adminCommand (src.chunk offset adminBufSize) (stack offset) =
      some first := by
  rw [adminCommands_succ] at hrun
  cases hcmd : adminCommand (src.chunk offset adminBufSize) (stack offset) with
  | none =>
      have hcount := congrArg List.length hrun
      simp only [hcmd, List.length_cons] at hcount
      omega
  | some cmd =>
      rw [hcmd] at hrun
      cases cmd with
      | shutDown => exact congrArg some (List.cons.inj hrun).1
      | request req => exact congrArg some (List.cons.inj hrun).1

/-- Behind a part of a command no other begins before the next one. -/
theorem adminCommands_short (n : Nat) {order : AdminOrder}
    (hplace : src.octets.drop offset = adminStream (order :: rest))
    (hshort : (src.chunk offset adminBufSize).length < order.octets.length) :
    (adminCommands src.read stack n
      (offset + (src.chunk offset adminBufSize).length)).length ≤
        rest.length := by
  have hsplit : adminStream (order :: rest) =
      order.octets ++ adminStream rest := List.flatMap_cons
  have hpos : 0 < (src.chunk offset adminBufSize).length := by
    apply src.chunk_pos (by decide)
    have hlen := congrArg List.length hplace
    rw [hsplit, List.length_append, List.length_drop] at hlen
    have hten := order.ten_le_length
    omega
  have hrest : src.octets.drop
      (offset + (src.chunk offset adminBufSize).length) =
      order.octets.drop (src.chunk offset adminBufSize).length ++
        adminStream rest := by
    rw [← List.drop_drop, hplace, hsplit,
      List.drop_append_of_le_length (Nat.le_of_lt hshort)]
  have hno : letterT ∉
      order.octets.drop (src.chunk offset adminBufSize).length := by
    obtain ⟨t, hoctets, ht⟩ := order.octets_cons
    obtain ⟨m, hm⟩ := Nat.exists_eq_add_of_lt hpos
    rw [hm, Nat.zero_add, hoctets, List.drop_succ_cons]
    exact fun hmem => ht (List.mem_of_mem_drop hmem)
  exact adminCommands_length_le stack n hrest hno

/-- A read that goes beyond a command takes the first octet of the next. -/
theorem adminCommands_long (n : Nat) {order : AdminOrder}
    (hplace : src.octets.drop offset = adminStream (order :: rest))
    (hlong : order.octets.length < (src.chunk offset adminBufSize).length) :
    (adminCommands src.read stack n
      (offset + (src.chunk offset adminBufSize).length)).length <
        rest.length := by
  have hsplit : adminStream (order :: rest) =
      order.octets ++ adminStream rest := List.flatMap_cons
  have hwithin := congrArg List.length (src.chunk_eq_take offset adminBufSize)
  rw [hplace, hsplit, List.length_take, List.length_append] at hwithin
  have hrest : rest ≠ [] := by
    rintro rfl
    simp only [adminStream, List.flatMap_nil, List.length_nil] at hwithin
    omega
  obtain ⟨tail', rest', hdrop, htail', -, hless⟩ := drop_adminStream
    ((src.chunk offset adminBufSize).length - order.octets.length) [] rest
    List.not_mem_nil
  have hlt := hless (by rw [List.length_nil]; omega) hrest
  have hnext : src.octets.drop
      (offset + (src.chunk offset adminBufSize).length) =
      tail' ++ adminStream rest' := by
    have hk : (src.chunk offset adminBufSize).length =
        order.octets.length +
          ((src.chunk offset adminBufSize).length - order.octets.length) := by
      omega
    rw [← List.drop_drop, hplace, hsplit, hk, List.drop_length_add_append]
    exact hdrop
  exact Nat.lt_of_le_of_lt (adminCommands_length_le stack n hnext htail') hlt

/-- A read that returns more than the first command, or less, loses one. -/
theorem adminCommands_misaligned (n : Nat) {order : AdminOrder}
    (hplace : src.octets.drop offset = adminStream (order :: rest))
    (hlength : (src.chunk offset adminBufSize).length ≠ order.octets.length) :
    adminCommands src.read stack (n + 1) offset ≠
      (order :: rest).map AdminOrder.command := by
  intro heq
  rcases Nat.lt_or_gt_of_ne hlength with hshort | hlong
  · -- the rest of the command starts no other, so this read has to give it
    have hbound := adminCommands_short stack n hplace hshort
    have hfirst := adminCommands_first stack heq
      (by rw [List.length_map]; exact hbound)
    have hchunk : src.chunk offset adminBufSize =
        order.octets.take (src.chunk offset adminBufSize).length := by
      have htake := src.chunk_eq_take offset adminBufSize
      rwa [hplace, adminStream, List.flatMap_cons,
        List.take_append_of_le_length (Nat.le_of_lt hshort)] at htake
    rw [hchunk] at hfirst
    exact adminCommand_take_ne order (stack offset) hshort hfirst
  · -- the command behind has lost its first octet
    have hbound := adminCommands_long stack n hplace hlong
    have hone := adminCommands_succ_length src stack n offset
    have hcount := congrArg List.length heq
    rw [List.length_map, List.length_cons] at hcount
    omega

/-- With a call for every octet, the commands executed are those written
exactly when the reads respect them. -/
theorem adminCommands_orders {orders : List AdminOrder}
    (hplace : src.octets.drop offset = adminStream orders) {n : Nat}
    (hn : (adminStream orders).length ≤ n) :
    adminCommands src.read stack n offset =
        orders.map AdminOrder.command ↔
      AdminAligned src stack offset orders := by
  induction orders generalizing offset n with
  | nil =>
      have hplaced : src.octets.drop offset = [] ++ adminStream [] := hplace
      have hnone : (adminCommands src.read stack n offset).length ≤
          ([] : List AdminOrder).length :=
        adminCommands_length_le stack n hplaced List.not_mem_nil
      exact iff_of_true
        (List.length_eq_zero_iff.mp (Nat.le_zero.mp hnone)) trivial
  | cons order rest ih =>
      have hsplit : adminStream (order :: rest) =
          order.octets ++ adminStream rest := List.flatMap_cons
      have hten := order.ten_le_length
      rw [hsplit, List.length_append] at hn
      obtain ⟨m, rfl⟩ : ∃ m, n = m + 1 := ⟨n - 1, by omega⟩
      by_cases hlength : (src.chunk offset adminBufSize).length =
          order.octets.length
      swap
      · exact iff_of_false (adminCommands_misaligned stack m hplace hlength)
          fun haligned => hlength haligned.1
      have hchunk : src.chunk offset adminBufSize = order.octets := by
        rw [src.chunk_eq_take, hlength, hplace, hsplit, List.take_left]
      have hnext : src.octets.drop (offset + order.octets.length) =
          adminStream rest := by
        rw [← List.drop_drop, hplace, hsplit, List.drop_left]
      have hrest := ih hnext (n := m) (by omega)
      have hterminated := adminCommand_octets_iff order (stack offset)
      have hplaced : src.octets.drop (offset + order.octets.length) =
          [] ++ adminStream rest := hnext
      have hbound := adminCommands_length_le stack m hplaced List.not_mem_nil
      rw [adminCommands_succ, AdminAligned, hchunk, List.map_cons, ← hrest,
        ← hterminated]
      cases hcmd : adminCommand order.octets (stack offset) with
      | none =>
          refine iff_of_false ?_ fun haligned => by cases haligned.2.1
          intro heq
          dsimp only at heq
          have hcount := congrArg List.length heq
          rw [List.length_cons, List.length_map] at hcount
          omega
      | some cmd =>
          cases cmd with
          | shutDown =>
              simp only [List.cons.injEq, List.nil_eq, List.map_eq_nil_iff,
                Option.some.injEq, true_and]
              constructor
              · rintro ⟨hfirst, rfl⟩
                exact ⟨hfirst, fun _ => rfl,
                  List.length_eq_zero_iff.mp (Nat.le_zero.mp hbound)⟩
              · rintro ⟨hfirst, hlast, -⟩
                exact ⟨hfirst, hlast (AdminOrder.command_eq_shutDown hfirst.symm)⟩
          | request req =>
              simp only [List.cons.injEq, Option.some.injEq, true_and]
              constructor
              · rintro ⟨hfirst, hmore⟩
                refine ⟨hfirst, ?_, hmore⟩
                rintro rfl
                cases hfirst
              · rintro ⟨hfirst, -, hmore⟩
                exact ⟨hfirst, hmore⟩

end Calls

/-- The main process executes the commands that are written, each once and in
order, exactly when each read takes one command. -/
theorem adminCommands_orders_iff (orders : List AdminOrder)
    (avail : Nat → Nat) (stack : Nat → List Byte) {n : Nat}
    (hn : (adminStream orders).length ≤ n) :
    adminCommands (Source.read ⟨adminStream orders, avail⟩) stack n 0 =
        orders.map AdminOrder.command ↔
      AdminAligned ⟨adminStream orders, avail⟩ stack 0 orders :=
  adminCommands_orders stack rfl hn

namespace AdminPipe

/-- A listing and a shutdown, read one after the other. -/
theorem adminCommands_orders_iff_apart :
    adminCommands (Source.read ⟨adminStream [.listClients, .shutDown],
          fun _ => 10⟩) (fun _ => []) 20 0 =
        [AdminOrder.listClients, .shutDown].map AdminOrder.command ↔
      AdminAligned ⟨adminStream [.listClients, .shutDown], fun _ => 10⟩
        (fun _ => []) 0 [.listClients, .shutDown] :=
  adminCommands_orders_iff [.listClients, .shutDown] (fun _ => 10)
    (fun _ => []) (by decide)

/-- A shutdown queued behind a listing is lost: the one read of twenty octets
gives the listing alone. -/
theorem adminCommands_queued :
    adminCommands (Source.read ⟨adminStream [.listClients, .shutDown],
          fun _ => 20⟩) (fun _ => []) 20 0 = [.request .listClients] ∧
      adminCommands (Source.read ⟨adminStream [.listClients, .shutDown],
          fun _ => 20⟩) (fun _ => []) 20 0 ≠
        [AdminOrder.listClients, .shutDown].map AdminOrder.command := by
  decide

end AdminPipe

end TgServer
