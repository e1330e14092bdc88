/-
What the two decoders of control messages make of the octets of one read, and
whether the memory behind them plays a part: `no[4]` and `buf[20]` can be full,
with no room left for a terminator.
-/
import TgServer.AdminRequests
import TgServer.PipeEvents

namespace TgServer

open Bytes

/-- `no` after the `strncpy`. -/
def typeBlock (octets : List Byte) : List Byte :=
  strncpy ((octets ++ List.replicate (bufSize - octets.length) 0).drop 5) 4

/-- What `read_data_from_main_process` makes of a read, with `stack` behind
`no`. -/
def decodePipe (client : TGClient) (octets stack : List Byte) (pType : Int)
    (ppData : Option (List Byte)) : ReadOutcome :=
  (readDataFromMainProcess (some client) (fun s _ => (.data octets, s))
    (fun _ => stack) () pType ppData).1

/-- The result does not depend on the memory behind `no`. -/
def PipeIndependent (client : TGClient) (octets : List Byte) : Prop :=
  ∀ stack stack' pType ppData, decodePipe client octets stack pType ppData =
    decodePipe client octets stack' pType ppData

/-- The command does not depend on the memory behind `buf`. -/
def AdminIndependent (octets : List Byte) : Prop :=
  ∀ stack stack', adminCommand octets stack = adminCommand octets stack'

/-- Of a message in the pipe of a client only what was read counts, and `atoi`
gets a string. -/
structure PipeDecoded (client : TGClient) (octets : List Byte) : Prop where
  independent : PipeIndependent client octets
  terminated : 0 ∈ typeBlock octets

/-- Of a command for the server only what was read counts, and the comparisons
and `atoi` get strings. -/
structure AdminDecoded (octets : List Byte) : Prop where
  independent : AdminIndependent octets
  compared : 0 ∈ adminBuf octets
  parsed : closePrefix <+: adminBuf octets → 0 ∈ (adminBuf octets).drop 10

/-- A text with a NUL in it hides what lies behind it. -/
theorem atoi_of_zero {text : List Byte} (hzero : 0 ∈ text)
    (behind : List Byte) :
    Decimal.atoi (text ++ behind) = Decimal.atoi text := by
  obtain ⟨front, rest, rfl⟩ := List.append_of_mem hzero
  rw [List.append_assoc, List.cons_append, Decimal.atoi_terminated,
    Decimal.atoi_terminated]

/-- The number that follows a text shows through exactly if the text is part of
a numeral to its end. -/
theorem atoi_independent_iff {text : List Byte} (hlength : text.length ≤ 16) :
    (∀ behind behind', Decimal.atoi (text ++ behind) =
      Decimal.atoi (text ++ behind')) ↔ Decimal.readsOn text = false := by
  constructor
  · intro hsame
    refine eq_false_of_ne_true fun hopen => ?_
    exact Decimal.atoi_of_readsOn hopen hlength (hsame [48] [49])
  · intro hstop behind behind'
    rw [Decimal.atoi_of_not_readsOn hstop, Decimal.atoi_of_not_readsOn hstop]

section Pipe

variable {client : TGClient} (hpipe : 0 ≤ client.readPipe)
variable {octets : List Byte} (hsome : octets ≠ [])

include hpipe hsome in
theorem decodePipe_eq (stack : List Byte) (pType : Int)
    (ppData : Option (List Byte)) :
    decodePipe client octets stack pType ppData =
      (let msgID := Decimal.atoi (typeBlock octets ++ stack)
       ⟨if msgID < msgTypeBase ∨ msgTypeMax < msgID then 1 else 0, msgID,
         ppData⟩) := by
  have hnot : ¬ client.readPipe < 0 := Int.not_lt.mpr hpipe
  obtain ⟨c, cs, rfl⟩ := List.exists_cons_of_ne_nil hsome
  have hblock : typeBlock (c :: cs) = strncpy ((c :: cs ++
    List.replicate (bufSize - (c :: cs).length) 0).drop 5) 4 := rfl
  simp only [decodePipe, readDataFromMainProcess, if_neg hnot, ← hblock]
  split <;> rfl

include hpipe hsome in
/-- The result is the number `atoi` reads. -/
theorem pipeIndependent_iff_atoi :
    PipeIndependent client octets ↔ ∀ stack stack',
      Decimal.atoi (typeBlock octets ++ stack) =
        Decimal.atoi (typeBlock octets ++ stack') := by
  constructor
  · intro hsame stack stack'
    have heq := hsame stack stack' 0 none
    rw [decodePipe_eq hpipe hsome, decodePipe_eq hpipe hsome] at heq
    exact congrArg ReadOutcome.pType heq
  · intro hsame stack stack' pType ppData
    rw [decodePipe_eq hpipe hsome, decodePipe_eq hpipe hsome,
      hsame stack stack']

/-- The octets six to nine of a read that returned that many. -/
theorem take_padded (hlong : 9 ≤ octets.length) :
    ((octets ++ List.replicate (bufSize - octets.length) 0).drop 5).take 4 =
      (octets.drop 5).take 4 := by
  rw [List.drop_append_of_le_length (by omega),
    List.take_append_of_le_length (by rw [List.length_drop]; omega)]

/-- Without a NUL `no` is full of them. -/
theorem typeBlock_full (hlong : 9 ≤ octets.length)
    (hfree : 0 ∉ (octets.drop 5).take 4) :
    typeBlock octets = (octets.drop 5).take 4 := by
  have hlength : ((octets.drop 5).take 4).length = 4 := by
    rw [List.length_take, List.length_drop]
    omega
  rw [typeBlock, ← strncpy_take, take_padded hlong]
  have hcopy := strncpy_append hfree []
  rwa [List.append_nil, hlength] at hcopy

theorem typeBlock_zero_iff :
    0 ∈ typeBlock octets ↔
      octets.length < 9 ∨ 0 ∈ (octets.drop 5).take 4 := by
  constructor
  · intro hzero
    by_contra hnot
    rw [not_or] at hnot
    rw [typeBlock_full (Nat.le_of_not_lt hnot.1) hnot.2] at hzero
    exact hnot.2 hzero
  · intro hend
    by_contra hfree
    rw [typeBlock] at hfree
    have hnonzero : ∀ c ∈ strncpy ((octets ++
        List.replicate (bufSize - octets.length) 0).drop 5) 4, c ≠ 0 := by
      rintro c hc rfl
      exact hfree hc
    rw [(strncpy_nonzero hnonzero).1] at hfree
    rcases Nat.lt_or_ge octets.length 9 with hshort | hlong
    · refine hfree (List.mem_of_getElem? (i := 3) ?_)
      rw [List.getElem?_take_of_lt (by decide), List.getElem?_drop,
        List.getElem?_append_right (by omega), List.getElem?_replicate,
        if_pos (by rw [bufSize]; omega)]
    · rw [take_padded hlong] at hfree
      exact hfree (hend.resolve_left (Nat.not_lt.mpr hlong))

include hpipe hsome

/-- The memory behind `no` shows through exactly if all four octets in it are
part of a numeral. -/
theorem pipeIndependent_iff :
    PipeIndependent client octets ↔
      (octets.length < 9 ∨ 0 ∈ (octets.drop 5).take 4) ∨
        Decimal.readsOn ((octets.drop 5).take 4) = false := by
  rw [pipeIndependent_iff_atoi hpipe hsome]
  by_cases hend : octets.length < 9 ∨ 0 ∈ (octets.drop 5).take 4
  · refine iff_of_true (fun stack stack' => ?_) (.inl hend)
    have hzero := typeBlock_zero_iff.mpr hend
    rw [atoi_of_zero hzero, atoi_of_zero hzero]
  · rw [or_iff_right hend]
    rw [not_or] at hend
    rw [typeBlock_full (Nat.le_of_not_lt hend.1) hend.2]
    exact atoi_independent_iff
      (Nat.le_trans (List.length_take_le _ _) (by decide))

theorem pipeDecoded_iff :
    PipeDecoded client octets ↔
      octets.length < 9 ∨ 0 ∈ (octets.drop 5).take 4 := by
  constructor
  · exact fun hdecoded => typeBlock_zero_iff.mp hdecoded.terminated
  · exact fun hend => ⟨(pipeIndependent_iff hpipe hsome).mpr (.inl hend),
      typeBlock_zero_iff.mpr hend⟩

end Pipe

section Admin

variable {octets : List Byte}

theorem adminBuf_zero_iff (hfits : octets.length ≤ adminBufSize) :
    0 ∈ adminBuf octets ↔ octets.length < adminBufSize ∨ 0 ∈ octets := by
  rw [adminBuf, List.mem_append, List.mem_replicate]
  constructor
  · rintro (hmem | ⟨hroom, -⟩)
    · exact .inr hmem
    · exact .inl (by omega)
  · rintro (hroom | hmem)
    · exact .inr ⟨by omega, rfl⟩
    · exact .inl hmem

/-- In a terminated buffer nothing behind it counts. -/
theorem adminIndependent_of_zero (hzero : 0 ∈ adminBuf octets) :
    AdminIndependent octets := by
  intro stack stack'
  obtain ⟨text, behind, hsplit, -⟩ := List.eq_append_cons_of_mem hzero
  rw [adminCommand, adminCommand, hsplit, writeRequest_terminated,
    writeRequest_terminated]

/-- What stands in a terminated buffer behind `tg://1041/` is a string. -/
theorem parsed_of_zero (hzero : 0 ∈ adminBuf octets)
    (hclose : closePrefix <+: adminBuf octets) :
    0 ∈ (adminBuf octets).drop 10 := by
  obtain ⟨rest, hrest⟩ := hclose
  rw [← hrest] at hzero ⊢
  rcases List.mem_append.mp hzero with hfront | hback
  · exact absurd hfront (by decide)
  · exact hback

/-- A full buffer without a NUL. -/
theorem adminBuf_full (hlength : octets.length = adminBufSize) :
    adminBuf octets = octets := by
  rw [adminBuf, hlength, Nat.sub_self, List.replicate_zero, List.append_nil]

/-- The pid of a close order in a full buffer is read past its end. -/
theorem adminCommand_full (hlength : octets.length = adminBufSize)
    (stack : List Byte) (hclose : closePrefix <+: octets) :
    adminCommand octets stack = some (.request (.closeClient
      (Decimal.atoi (octets.drop 10 ++ stack)))) := by
  obtain ⟨rest, rfl⟩ := hclose
  have hstop : strcmpEq (closePrefix ++ rest) (ascii "tg://1003/") ≠
      some true := by
    intro heq
    have hstarts := strcmpEq_true heq
    have hother := List.prefix_of_prefix_length_le hstarts
      (List.prefix_append closePrefix rest) (by decide)
    exact absurd hother (by decide)
  have hlist : startsWith (closePrefix ++ rest) (ascii "tg://1040/") ≠
      some true := by
    intro heq
    have hother := List.prefix_of_prefix_length_le (startsWith_true heq)
      (List.prefix_append closePrefix rest) (by decide)
    exact absurd hother (by decide)
  have hstarts : startsWith (closePrefix ++ rest) (ascii "tg://1041/") =
      some true := startsWith_append closePrefix rest
  rw [adminCommand, adminBuf_full hlength, if_neg hstop, writeRequest,
    if_neg hlist, if_pos hstarts, Option.map_some]

/-- Any other command is told without looking behind the buffer. -/
theorem adminIndependent_other (hother : ¬ closePrefix <+: adminBuf octets) :
    AdminIndependent octets := by
  intro stack stack'
  have hclose : startsWith (adminBuf octets) (ascii "tg://1041/") ≠
      some true := fun heq => hother (startsWith_true heq)
  rw [adminCommand, adminCommand, writeRequest, writeRequest, if_neg hclose,
    if_neg hclose]

/-- The memory behind `buf` shows through exactly if it is full and the pid of
a close order is a numeral to the end. -/
theorem adminIndependent_iff (hfits : octets.length ≤ adminBufSize) :
    AdminIndependent octets ↔
      (octets.length < adminBufSize ∨ 0 ∈ octets) ∨
        ¬ closePrefix <+: octets ∨
          Decimal.readsOn (octets.drop 10) = false := by
  by_cases hend : octets.length < adminBufSize ∨ 0 ∈ octets
  · exact iff_of_true
      (adminIndependent_of_zero ((adminBuf_zero_iff hfits).mpr hend)) (.inl hend)
  · rw [or_iff_right hend]
    have hlength : octets.length = adminBufSize := by
      rw [not_or] at hend
      omega
    by_cases hclose : closePrefix <+: octets
    · rw [or_iff_right (not_not_intro hclose), ← atoi_independent_iff
        (by rw [List.length_drop, hlength]; decide)]
      constructor
      · intro hsame stack stack'
        have heq := hsame stack stack'
        rw [adminCommand_full hlength stack hclose,
          adminCommand_full hlength stack' hclose] at heq
        simpa using heq
      · intro hsame stack stack'
        rw [adminCommand_full hlength stack hclose,
          adminCommand_full hlength stack' hclose, hsame stack stack']
    · refine iff_of_true (adminIndependent_other ?_) (.inl hclose)
      rwa [adminBuf_full hlength]

theorem adminDecoded_iff (hfits : octets.length ≤ adminBufSize) :
    AdminDecoded octets ↔ octets.length < adminBufSize ∨ 0 ∈ octets := by
  rw [← adminBuf_zero_iff hfits]
  exact ⟨AdminDecoded.compared, fun hzero =>
    ⟨adminIndependent_of_zero hzero, hzero, parsed_of_zero hzero⟩⟩

end Admin

/-- Both decoders go by what they read exactly if a NUL stands in `no` and in
`buf`: fewer octets came than fit, or one of those that fit is 0.  Without it
the result still is the same whatever the memory holds, unless the number goes
on to the end of the block. -/
theorem controlDecoders_iff {client : TGClient} (hpipe : 0 ≤ client.readPipe)
    {message command : List Byte}
    (hmessage : message ≠ [] ∧ message.length ≤ bufSize)
    (hcommand : command ≠ [] ∧ command.length ≤ adminBufSize) :
    (PipeDecoded client message ∧ AdminDecoded command ↔
      (message.length < 9 ∨ 0 ∈ (message.drop 5).take 4) ∧
        (command.length < adminBufSize ∨ 0 ∈ command)) ∧
    (PipeIndependent client message ↔
      (message.length < 9 ∨ 0 ∈ (message.drop 5).take 4) ∨
        Decimal.readsOn ((message.drop 5).take 4) = false) ∧
    (AdminIndependent command ↔
      (command.length < adminBufSize ∨ 0 ∈ command) ∨
        ¬ closePrefix <+: command ∨
          Decimal.readsOn (command.drop 10) = false) := by
  refine ⟨?_, pipeIndependent_iff hpipe hmessage.1,
    adminIndependent_iff hcommand.2⟩
  rw [pipeDecoded_iff hpipe hmessage.1, adminDecoded_iff hcommand.2]

namespace ControlDecoders

def client : TGClient := ⟨100, 4, 5, 6, none, 0⟩

/-- Short enough messages are decoded from their octets. -/
theorem controlDecoders_iff_short :
    PipeDecoded client (ascii "tg://100") ∧
      AdminDecoded (ascii "tg://1041/1234567") :=
  (controlDecoders_iff (show 0 ≤ client.readPipe by decide)
    ⟨by decide, by decide⟩ ⟨by decide, by decide⟩).1.mpr
    ⟨.inl (by decide), .inl (by decide)⟩

/-- The server's own shutdown message fills `no`, and with a digit behind it
another type is read; so it is with a pid of ten digits in `buf`. -/
theorem controlDecoders_outside :
    (decodePipe client (ascii "tg://1003/") [] 0 none).pType = 1003 ∧
      (decodePipe client (ascii "tg://1003/") (ascii "0") 0 none).pType =
        10030 ∧
      ¬ PipeDecoded client (ascii "tg://1003/") ∧
      adminCommand (ascii "tg://1041/0000000123") [] =
        some (.request (.closeClient 123)) ∧
      adminCommand (ascii "tg://1041/0000000123") (ascii "4") =
        some (.request (.closeClient 1234)) ∧
      ¬ AdminDecoded (ascii "tg://1041/0000000123") := by
  refine ⟨by decide, by decide, ?_, by decide, by decide, ?_⟩
  · intro hdecoded
    exact absurd hdecoded.terminated (by decide)
  · intro hdecoded
    exact absurd hdecoded.compared (by decide)

end ControlDecoders

end TgServer
