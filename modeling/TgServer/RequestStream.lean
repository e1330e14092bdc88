/-
What `read_data_from_cli` makes of a stream of length-prefixed requests when
the kernel decides how much each read returns.
-/
import TgServer.ReadLoop

namespace TgServer

open Bytes ByteStream

/-- A request as the client writes it. -/
def frame (request : List Byte) : List Byte :=
  le32 request.length ++ request

/-- All that a client writes before it closes the connection. -/
def wire (requests : List (List Byte)) : List Byte :=
  requests.flatMap frame

/-- The type of a signal and the text it carries: the block without the spare
octet for the terminator. -/
def Signal.carried (signal : Signal) : Int × Option (List Byte) :=
  (signal.type, signal.data.map List.dropLast)

/-- What `n` calls ought to produce: the requests, then nothing but quits. -/
def requestStream : List (List Byte) → Nat → List (Int × Option (List Byte))
  | _, 0 => []
  | [], n + 1 => (msgTypeClientQuit, none) :: requestStream [] n
  | request :: rest, n + 1 =>
      (msgTypeClientRequest, some request) :: requestStream rest n

/-- The read issued at the first octet of each frame returns the whole length
field and nothing of the next frame. -/
def FramesAligned (src : Source) : Nat → List (List Byte) → Prop
  | _, [] => True
  | offset, request :: rest =>
      4 ≤ (src.chunk offset bufSize).length ∧
      (src.chunk offset bufSize).length ≤ (frame request).length ∧
      FramesAligned src (offset + (frame request).length) rest

@[simp] theorem length_frame (request : List Byte) :
    (frame request).length = 4 + request.length := by
  simp [frame]

theorem length_wire_cons (request : List Byte) (rest : List (List Byte)) :
    (wire (request :: rest)).length =
      4 + request.length + (wire rest).length := by
  simp [wire]

/-- Enough calls produce every request and then a quit. -/
theorem requestStream_all (requests : List (List Byte)) :
    requestStream requests (requests.length + 1) =
      requests.map (fun request => (msgTypeClientRequest, some request)) ++
        [(msgTypeClientQuit, none)] := by
  induction requests with
  | nil => rfl
  | cons request rest ih =>
      simp only [List.length_cons, requestStream, ih, List.map_cons,
        List.cons_append]

section ReadRest

variable (src : Source)

/-- When the stream still holds what is missing, the loop fills the block with
it, however the reads split it. -/
theorem readRest_fill (rounds offset lastLen : Nat) (front tail : List Byte)
    (hrounds : lastLen ≤ rounds) (htail : lastLen ≤ tail.length)
    (hstream : offset + lastLen ≤ src.octets.length) :
    readRest src.read rounds offset (front ++ tail) front.length lastLen =
      some (some (front ++ (src.octets.drop offset).take lastLen ++
        tail.drop lastLen), offset + lastLen) := by
  induction rounds generalizing offset lastLen front tail with
  | zero =>
      have hzero : lastLen = 0 := Nat.eq_zero_of_le_zero hrounds
      subst hzero
      simp [readRest]
  | succ rounds ih =>
      cases lastLen with
      | zero => simp [readRest]
      | succ k =>
          have hpos : 0 < (src.chunk offset (k + 1)).length :=
            src.chunk_pos (Nat.succ_pos k) (by omega)
          have hle := src.chunk_length_le offset (k + 1)
          cases hchunk : src.chunk offset (k + 1) with
          | nil => simp [hchunk] at hpos
          | cons c cs =>
              rw [hchunk] at hpos hle
              have hstore := store_append front (c :: cs) tail (by omega)
              have hlength : front.length + (c :: cs).length =
                  (front ++ (c :: cs)).length := by simp
              simp only [readRest, Source.read, hchunk, hstore]
              rw [hlength, ih (offset + (c :: cs).length)
                (k + 1 - (c :: cs).length) (front ++ (c :: cs))
                (tail.drop (c :: cs).length) (by omega)
                (by rw [List.length_drop]; omega) (by omega)]
              -- what was read and what is read next are one piece
              have hpiece := src.chunk_append_take offset (k + 1) (k + 1)
                (src.chunk_length_le offset (k + 1))
              rw [hchunk] at hpiece
              rw [List.append_assoc front, hpiece, List.drop_drop,
                Nat.add_sub_cancel' hle, Nat.add_assoc offset,
                Nat.add_sub_cancel' hle]

/-- A filled block has kept its size and cost exactly the missing octets. -/
theorem readRest_filled {rounds offset readLen lastLen offset' : Nat}
    {block block' : List Byte}
    (hread : readRest src.read rounds offset block readLen lastLen =
      some (some block', offset')) :
    block'.length = block.length ∧ offset' = offset + lastLen := by
  induction rounds generalizing offset block readLen lastLen with
  | zero =>
      cases lastLen with
      | zero =>
          simp only [readRest, Option.some.injEq, Prod.mk.injEq] at hread
          exact ⟨by rw [hread.1], by omega⟩
      | succ k => simp [readRest] at hread
  | succ rounds ih =>
      cases lastLen with
      | zero =>
          simp only [readRest, Option.some.injEq, Prod.mk.injEq] at hread
          exact ⟨by rw [hread.1], by omega⟩
      | succ k =>
          have hle := src.chunk_length_le offset (k + 1)
          cases hchunk : src.chunk offset (k + 1) with
          | nil => simp [readRest, Source.read, hchunk] at hread
          | cons c cs =>
              rw [hchunk] at hle
              simp only [readRest, Source.read, hchunk] at hread
              cases hstore : store block readLen (c :: cs) with
              | none => simp [hstore] at hread
              | some stored =>
                  rw [hstore] at hread
                  obtain ⟨hlen, hoff⟩ := ih hread
                  exact ⟨hlen.trans (length_store hstore), by omega⟩

/-- The loop never reads past the end of the stream. -/
theorem readRest_within {rounds offset readLen lastLen offset' : Nat}
    {block : List Byte} {result : Option (List Byte)}
    (hoffset : offset ≤ src.octets.length)
    (hread : readRest src.read rounds offset block readLen lastLen =
      some (result, offset')) : offset' ≤ src.octets.length := by
  induction rounds generalizing offset block readLen lastLen with
  | zero =>
      cases lastLen with
      | zero =>
          simp only [readRest, Option.some.injEq, Prod.mk.injEq] at hread
          exact hread.2 ▸ hoffset
      | succ k => simp [readRest] at hread
  | succ rounds ih =>
      cases lastLen with
      | zero =>
          simp only [readRest, Option.some.injEq, Prod.mk.injEq] at hread
          exact hread.2 ▸ hoffset
      | succ k =>
          have hwithin := src.chunk_within (k + 1) hoffset
          cases hchunk : src.chunk offset (k + 1) with
          | nil =>
              simp only [readRest, Source.read, hchunk, List.length_nil,
                Option.some.injEq, Prod.mk.injEq] at hread
              omega
          | cons c cs =>
              rw [hchunk] at hwithin
              simp only [readRest, Source.read, hchunk] at hread
              cases hstore : store block readLen (c :: cs) with
              | none => simp [hstore] at hread
              | some stored =>
                  rw [hstore] at hread
                  exact ih hwithin hread

/-- The block `readLong` hands to the loop has one octet more than the
request. -/
theorem readLong_rest {fresh : Nat → Byte} {offset : Nat}
    {ppData : Option (List Byte)} {buf : List Byte} {size : Int}
    {called : ReadOutcome × Nat}
    (hlong : readLong src.read fresh offset ppData buf size = some called) :
    ∃ result block, readRest src.read (size - (buf.length - 4 : Nat)).toNat
        offset block (buf.length - 4) (size - (buf.length - 4 : Nat)).toNat =
          some result ∧
      block.length = size.toNat + 1 ∧ called = restOutcome ppData result := by
  simp only [readLong, mallocData, Option.bind_eq_some_iff,
    Option.map_eq_some_iff] at hlong
  obtain ⟨fresh', hfresh, clear, hclear, block, hblock, result, hrest, rfl⟩ :=
    hlong
  refine ⟨result, block, hrest, ?_, rfl⟩
  rw [length_store hblock, length_store hclear]
  split at hfresh
  · rw [← Option.some.inj hfresh, length_malloc]
  · cases hfresh

theorem readShort_block {fresh : Nat → Byte} {offset : Nat}
    {buf : List Byte} {size : Int} {called : ReadOutcome × Nat}
    (hshort : readShort fresh offset buf size = some called) :
    ∃ block, block.length = size.toNat + 1 ∧
      called = (⟨0, msgTypeClientRequest, some block⟩, offset) := by
  simp only [readShort, mallocData, Option.bind_eq_some_iff,
    Option.map_eq_some_iff] at hshort
  obtain ⟨fresh', hfresh, clear, hclear, block, hblock, rfl⟩ := hshort
  refine ⟨block, ?_, rfl⟩
  rw [length_store hblock, length_store hclear]
  split at hfresh
  · rw [← Option.some.inj hfresh, length_malloc]
  · cases hfresh

/-- The first read of a frame: the length it decodes and the octets of the
request it brings along. -/
theorem chunk_of_frame {offset : Nat} {request tail : List Byte}
    (hmax : request.length ≤ 2 ^ 31 - 2)
    (hstream : src.octets.drop offset = frame request ++ tail)
    (hfour : 4 ≤ (src.chunk offset bufSize).length) :
    intAt (src.chunk offset bufSize) = request.length ∧
      (src.chunk offset bufSize).drop 4 =
        (request ++ tail).take ((src.chunk offset bufSize).length - 4) := by
  have hchunk := src.chunk_eq_take offset bufSize
  generalize (src.chunk offset bufSize).length = n at hfour hchunk ⊢
  rw [hchunk, hstream, intAt_take hfour, frame, List.append_assoc]
  refine ⟨intAt_le32_append _ (by omega) _, ?_⟩
  rw [List.drop_take, List.drop_left' (length_le32 _)]

end ReadRest

section Calls

variable {client : TGClient} (hsock : 0 ≤ client.sockfd)
variable (src : Source) (junk : Nat → Nat → Byte)

include hsock

/-- At the end of the stream a call quits and the stream stays where it is. -/
theorem sockCall_end {offset : Nat} (hend : src.octets.length ≤ offset) :
    sockCall client src.read junk offset =
      some ([⟨msgTypeClientQuit, none⟩], offset) := by
  have hchunk := src.chunk_end bufSize hend
  have hnot : ¬ client.sockfd < 0 := by omega
  simp [sockCall, readDataFromCli, Source.read, hchunk, hnot, quitOutcome,
    signalOf]

/-- A first read that does not return the whole length field quits. -/
theorem sockCall_part {offset : Nat}
    (hpart : (src.chunk offset bufSize).length < 4) :
    ∃ offset', sockCall client src.read junk offset =
      some ([⟨msgTypeClientQuit, none⟩], offset') := by
  have hnot : ¬ client.sockfd < 0 := by omega
  simp [sockCall, readDataFromCli, Source.read, hpart, hnot, quitOutcome,
    signalOf]

/-- A first read that stays inside the frame: the call delivers the request
whole, with a terminator, and leaves the stream at the next frame. -/
theorem readDataFromCli_within {offset : Nat} {request tail : List Byte}
    (hmax : request.length ≤ 2 ^ 31 - 2)
    (hstream : src.octets.drop offset = frame request ++ tail)
    (hfour : 4 ≤ (src.chunk offset bufSize).length)
    (hlt : (src.chunk offset bufSize).length < (frame request).length)
    (pType : Int) (ppData : Option (List Byte)) :
    readDataFromCli (some client) src.read junk offset pType ppData =
      some (⟨0, msgTypeClientRequest, some (request ++ [0])⟩,
        offset + (frame request).length) := by
  obtain ⟨hint, hdrop⟩ := chunk_of_frame src hmax hstream hfour
  have hcall := readDataFromCli_long hsock junk pType ppData
    (show src.read offset bufSize = (.data (src.chunk offset bufSize), _)
      from rfl) hfour hint (by omega) (by rwa [length_frame] at hlt)
  obtain ⟨n, hn⟩ := Nat.exists_eq_add_of_le hfour
  rw [length_frame] at hlt ⊢
  have hfront : (src.chunk offset bufSize).drop 4 = request.take n := by
    rw [hdrop, hn, Nat.add_sub_cancel_left,
      List.take_append_of_le_length (by omega)]
  have hlength : n = (request.take n).length := by
    rw [List.length_take]
    omega
  have htotal : offset + (4 + request.length) ≤ src.octets.length := by
    have hlength := congrArg List.length hstream
    rw [List.length_drop, List.length_append, length_frame] at hlength
    omega
  have hrest : src.octets.drop (offset + (4 + n)) = request.drop n ++ tail := by
    rw [← List.drop_drop, hstream, ← List.drop_drop, frame, List.append_assoc,
      List.drop_left' (length_le32 _), List.drop_append_of_le_length (by omega)]
  have hfill := readRest_fill src (request.length - n) (offset + (4 + n))
    (request.length - n) (request.take n)
    (List.replicate (request.length + 1 - n) 0) (Nat.le_refl _)
    (by rw [List.length_replicate]; omega) (by omega)
  have hone : request.length + 1 - n - (request.length - n) = 1 := by omega
  have hend : offset + (4 + n) + (request.length - n) =
      offset + (4 + request.length) := by omega
  rw [hrest, List.take_left' (by rw [List.length_drop]),
    List.take_append_drop, List.drop_replicate, hone, hend, ← hlength] at hfill
  rw [hcall, RestLocals.rest, RestLocals.start, hfront]
  simp only [hn, Nat.add_sub_cancel_left, hfill]
  rfl

theorem sockCall_within {offset : Nat} {request tail : List Byte}
    (hmax : request.length ≤ 2 ^ 31 - 2)
    (hstream : src.octets.drop offset = frame request ++ tail)
    (hfour : 4 ≤ (src.chunk offset bufSize).length)
    (hlt : (src.chunk offset bufSize).length < (frame request).length) :
    sockCall client src.read junk offset =
      some ([⟨msgTypeClientRequest, some (request ++ [0])⟩],
        offset + (frame request).length) := by
  rw [sockCall, readDataFromCli_within hsock src junk hmax hstream hfour hlt]
  rfl

/-- A first read that returns the whole frame: the call delivers the request,
followed by what the memory held, and drops whatever came behind it. -/
theorem readDataFromCli_whole {offset : Nat} {request tail : List Byte}
    (hpos : 1 ≤ request.length) (hmax : request.length ≤ 2 ^ 31 - 2)
    (hstream : src.octets.drop offset = frame request ++ tail)
    (hle : (frame request).length ≤ (src.chunk offset bufSize).length)
    (pType : Int) (ppData : Option (List Byte)) :
    readDataFromCli (some client) src.read junk offset pType ppData =
      some (⟨0, msgTypeClientRequest,
          some (request ++ [junk offset request.length])⟩,
        offset + (src.chunk offset bufSize).length) := by
  rw [length_frame] at hle
  obtain ⟨hint, hdrop⟩ := chunk_of_frame src hmax hstream (by omega)
  have hfront : ((src.chunk offset bufSize).drop 4).take request.length =
      request := by
    rw [hdrop, List.take_take, Nat.min_eq_left (by omega),
      List.take_left' rfl]
  rw [readDataFromCli_short hsock junk pType ppData
    (show src.read offset bufSize = (.data (src.chunk offset bufSize), _)
      from rfl) hint hpos (by omega) hle, hfront]

theorem sockCall_whole {offset : Nat} {request tail : List Byte}
    (hpos : 1 ≤ request.length) (hmax : request.length ≤ 2 ^ 31 - 2)
    (hstream : src.octets.drop offset = frame request ++ tail)
    (hle : (frame request).length ≤ (src.chunk offset bufSize).length) :
    ∃ spare, sockCall client src.read junk offset =
      some ([⟨msgTypeClientRequest, some (request ++ [spare])⟩],
        offset + (src.chunk offset bufSize).length) := by
  refine ⟨junk offset request.length, ?_⟩
  rw [sockCall, readDataFromCli_whole hsock src junk hpos hmax hstream hle]
  rfl

/-- A call that sees the length field of a frame delivers its request; where
the stream stands afterwards depends on what the first read returned. -/
theorem sockCall_frame {offset : Nat} {request tail : List Byte}
    (hpos : 1 ≤ request.length) (hmax : request.length ≤ 2 ^ 31 - 2)
    (hstream : src.octets.drop offset = frame request ++ tail)
    (hfour : 4 ≤ (src.chunk offset bufSize).length) :
    ∃ spare, sockCall client src.read junk offset =
      some ([⟨msgTypeClientRequest, some (request ++ [spare])⟩],
        offset + max (frame request).length
          (src.chunk offset bufSize).length) := by
  by_cases hlt : (src.chunk offset bufSize).length < (frame request).length
  · refine ⟨0, ?_⟩
    rw [Nat.max_eq_left (Nat.le_of_lt hlt)]
    exact sockCall_within hsock src junk hmax hstream hfour hlt
  · rw [Nat.max_eq_right (Nat.le_of_not_lt hlt)]
    exact sockCall_whole hsock src junk hpos hmax hstream
      (Nat.le_of_not_lt hlt)

/-- Every call that is defined sends one signal; a block it sends has cost the
length field and all but one of its octets. -/
theorem sockCall_cost {offset offset' : Nat} {signals : List Signal}
    (hoffset : offset ≤ src.octets.length)
    (hcall : sockCall client src.read junk offset = some (signals, offset')) :
    offset' ≤ src.octets.length ∧ ∃ signal, signals = [signal] ∧
      ∀ block, signal.data = some block →
        0 < block.length ∧ offset + block.length + 3 ≤ offset' := by
  have hnot : ¬ client.sockfd < 0 := by omega
  have hwithin := src.chunk_within bufSize hoffset
  simp only [sockCall, readDataFromCli, Source.read, hnot, ↓reduceIte] at hcall
  split at hcall
  · -- part of a length field
    simp only [Option.map_some, Option.some.injEq, Prod.mk.injEq] at hcall
    obtain ⟨rfl, rfl⟩ := hcall
    exact ⟨hwithin, _, rfl, fun block hblock => by cases hblock⟩
  rename_i hfour
  split at hcall
  · -- a length that is not positive
    simp only [Option.map_some, Option.some.injEq, Prod.mk.injEq] at hcall
    obtain ⟨rfl, rfl⟩ := hcall
    exact ⟨hwithin, _, rfl, fun block hblock => by cases hblock⟩
  rename_i hpositive
  split at hcall
  · rename_i hmissing
    obtain ⟨called, hlong, hsignal⟩ := Option.map_eq_some_iff.mp hcall
    obtain ⟨result, pBlock, hrest, hlength, rfl⟩ := readLong_rest src hlong
    obtain ⟨rested, offset''⟩ := result
    have hend := readRest_within src hwithin hrest
    cases rested with
    | none =>
        simp only [restOutcome, Prod.mk.injEq] at hsignal
        obtain ⟨rfl, rfl⟩ := hsignal
        exact ⟨hend, _, rfl, fun block hblock => by cases hblock⟩
    | some pDataBuf =>
        obtain ⟨hsize, rfl⟩ := readRest_filled src hrest
        simp only [restOutcome, Prod.mk.injEq] at hsignal
        obtain ⟨rfl, rfl⟩ := hsignal
        refine ⟨hend, _, rfl, ?_⟩
        intro block hblock
        have hsame : pDataBuf = block := Option.some.inj hblock
        subst hsame
        omega
  · rename_i hmissing
    obtain ⟨called, hshort, hsignal⟩ := Option.map_eq_some_iff.mp hcall
    obtain ⟨pDataBuf, hlength, rfl⟩ := readShort_block hshort
    simp only [Prod.mk.injEq] at hsignal
    obtain ⟨rfl, rfl⟩ := hsignal
    refine ⟨hwithin, _, rfl, ?_⟩
    intro block hblock
    have hsame : pDataBuf = block := Option.some.inj hblock
    subst hsame
    omega

/-- Calls that deliver all of the requests have paid for all of their frames. -/
theorem sockSignals_cost {offset : Nat} {requests : List (List Byte)}
    (hoffset : offset ≤ src.octets.length)
    (hsignals : (sockSignals client src.read junk requests.length offset).map
        Signal.carried = requestStream requests requests.length) :
    offset + (wire requests).length ≤ src.octets.length := by
  induction requests generalizing offset with
  | nil => simpa [wire] using hoffset
  | cons request rest ih =>
      rw [List.length_cons, sockSignals, requestStream] at hsignals
      cases hcall : sockCall client src.read junk offset with
      | none => simp [hcall] at hsignals
      | some called =>
          obtain ⟨signals, offset'⟩ := called
          obtain ⟨hend, signal, rfl, hcost⟩ :=
            sockCall_cost hsock src junk hoffset hcall
          simp only [hcall, List.singleton_append, List.map_cons,
            List.cons.injEq] at hsignals
          obtain ⟨hhead, htail⟩ := hsignals
          have hrest := ih hend htail
          have hdata : signal.data.map List.dropLast = some request :=
            congrArg Prod.snd hhead
          obtain ⟨block, hblock, hdrop⟩ := Option.map_eq_some_iff.mp hdata
          obtain ⟨hpos, hpaid⟩ := hcost block hblock
          have hlength := congrArg List.length hdrop
          rw [List.length_dropLast] at hlength
          rw [length_wire_cons]
          omega

/-- At the end of the stream there is nothing but quits. -/
theorem sockSignals_end {offset : Nat} (hend : src.octets.length ≤ offset)
    (n : Nat) :
    (sockSignals client src.read junk n offset).map Signal.carried =
      requestStream [] n := by
  induction n with
  | zero => rfl
  | succ n ih =>
      rw [sockSignals, sockCall_end hsock src junk hend, requestStream]
      simp only [List.singleton_append, List.map_cons, ih]
      rfl

/-- The decoding is right for every number of calls exactly when the reads at
frame starts respect the frames. -/
theorem sockSignals_requests {offset : Nat} {requests : List (List Byte)}
    (hrequests : ∀ request ∈ requests,
      1 ≤ request.length ∧ request.length ≤ 2 ^ 31 - 2)
    (hoffset : offset ≤ src.octets.length)
    (hstream : src.octets.drop offset = wire requests) :
    (∀ n, (sockSignals client src.read junk n offset).map Signal.carried =
      requestStream requests n) ↔ FramesAligned src offset requests := by
  induction requests generalizing offset with
  | nil =>
      refine ⟨fun _ => trivial, fun _ n => sockSignals_end hsock src junk ?_ n⟩
      exact List.drop_eq_nil_iff.mp hstream
  | cons request rest ih =>
      obtain ⟨hpos, hmax⟩ := hrequests request List.mem_cons_self
      have hwire : src.octets.drop offset = frame request ++ wire rest := hstream
      have hlength := congrArg List.length hwire
      rw [List.length_drop, List.length_append] at hlength
      by_cases hfour : 4 ≤ (src.chunk offset bufSize).length
      swap
      · -- the first call quits instead of delivering the first request
        refine ⟨fun hsignals => ?_, fun haligned => absurd haligned.1 hfour⟩
        obtain ⟨offset', hcall⟩ :=
          sockCall_part hsock src junk (Nat.lt_of_not_le hfour)
        have hone := hsignals 1
        rw [sockSignals, hcall, requestStream] at hone
        have htype : msgTypeClientQuit = msgTypeClientRequest :=
          congrArg Prod.fst (List.cons.inj hone).1
        exact absurd htype (by decide)
      obtain ⟨spare, hcall⟩ :=
        sockCall_frame hsock src junk hpos hmax hwire hfour
      have hstep : ∀ n,
          (sockSignals client src.read junk (n + 1) offset).map Signal.carried =
            requestStream (request :: rest) (n + 1) ↔
          (sockSignals client src.read junk n
            (offset + max (frame request).length
              (src.chunk offset bufSize).length)).map Signal.carried =
            requestStream rest n := by
        intro n
        rw [sockSignals, hcall, requestStream]
        simp [Signal.carried]
      by_cases hle : (src.chunk offset bufSize).length ≤ (frame request).length
      · have hnext : src.octets.drop (offset + (frame request).length) =
            wire rest := by
          rw [← List.drop_drop, hwire, List.drop_left]
        have htail := ih
          (fun other hother => hrequests other (List.mem_cons_of_mem _ hother))
          (by omega) hnext
        rw [Nat.max_eq_left hle] at hstep
        constructor
        · intro hsignals
          exact ⟨hfour, hle,
            htail.mp fun n => (hstep n).mp (hsignals (n + 1))⟩
        · intro haligned n
          cases n with
          | zero => rfl
          | succ n => exact (hstep n).mpr (htail.mpr haligned.2.2 n)
      · -- octets of the next frame are gone, too few are left for the rest
        refine ⟨fun hsignals => ?_, fun haligned => absurd haligned.2.1 hle⟩
        have hwithin := src.chunk_within bufSize hoffset
        rw [Nat.max_eq_right (Nat.le_of_not_le hle)] at hstep
        have hpaid := sockSignals_cost hsock src junk hwithin
          ((hstep rest.length).mp (hsignals (rest.length + 1)))
        omega

end Calls

/-- The reader thread sends exactly the requests of the stream and then quits,
whatever the readiness of the descriptors, if and only if the first read of
each frame returns its length field and nothing of the next frame. -/
theorem deamonRead_requests_iff {ρ : Type} (client : TGClient)
    (hsock : 0 ≤ client.sockfd) (requests : List (List Byte))
    (hrequests : ∀ request ∈ requests,
      1 ≤ request.length ∧ request.length ≤ 2 ^ 31 - 2)
    (src : Source) (hsrc : src.octets = wire requests)
    (junk : Nat → Nat → Byte) (readPipe : Descriptor ρ)
    (stack : ρ → List Byte) (p : ρ) :
    (∀ rounds, (signalsFrom .client
        (deamonRead client src.read junk readPipe stack rounds 0 p)).map
          Signal.carried =
      requestStream requests (rounds.countP Ready.sock)) ↔
    FramesAligned src 0 requests := by
  have hdecode := sockSignals_requests hsock src junk
    hrequests (Nat.zero_le _) (by rw [List.drop_zero, hsrc])
  rw [← hdecode]
  constructor
  · intro hrounds n
    have hready := hrounds (List.replicate n ⟨true, false⟩)
    rwa [deamonRead_client, List.countP_replicate, if_pos rfl] at hready
  · intro hcalls rounds
    rw [deamonRead_client]
    exact hcalls _

namespace RequestStream

/-- A client process with descriptors 4, 5 and 6. -/
def client : TGClient := ⟨100, 4, 5, 6, none, 0⟩

/-- Two requests of one octet each, with at most `n` octets a read. -/
def pair (n : Nat) : Source := ⟨wire [ascii "a", ascii "b"], fun _ => n⟩

def closedPipe : Descriptor Unit := fun p _ => (.data [], p)

theorem deamonRead_requests_iff_pair :
    (pair 5).octets = wire [ascii "a", ascii "b"] ∧
    ∀ rounds, (signalsFrom .client
        (deamonRead client (pair 5).read (fun _ _ => 7) closedPipe
          (fun _ => []) rounds 0 ())).map Signal.carried =
      requestStream [ascii "a", ascii "b"] (rounds.countP Ready.sock) :=
  ⟨rfl, (deamonRead_requests_iff client (by decide) [ascii "a", ascii "b"]
    (by decide) (pair 5) rfl (fun _ _ => 7) closedPipe (fun _ => []) ()).mpr
      (by simp only [FramesAligned]; decide)⟩

/-- Both frames in one read: the second request is lost. -/
theorem deamonRead_requests_coalesced :
    (pair 10).octets = wire [ascii "a", ascii "b"] ∧
    (signalsFrom .client
      (deamonRead client (pair 10).read (fun _ _ => 7) closedPipe
        (fun _ => []) (List.replicate 3 ⟨true, false⟩) 0 ())).map
          Signal.carried =
      [(msgTypeClientRequest, some (ascii "a")), (msgTypeClientQuit, none),
        (msgTypeClientQuit, none)] ∧
    requestStream [ascii "a", ascii "b"] 3 =
      [(msgTypeClientRequest, some (ascii "a")),
        (msgTypeClientRequest, some (ascii "b")), (msgTypeClientQuit, none)] ∧
    ¬ ∀ rounds, (signalsFrom .client
        (deamonRead client (pair 10).read (fun _ _ => 7) closedPipe
          (fun _ => []) rounds 0 ())).map Signal.carried =
      requestStream [ascii "a", ascii "b"] (rounds.countP Ready.sock) := by
  refine ⟨rfl, by decide, by decide, ?_⟩
  intro hrounds
  exact absurd (hrounds (List.replicate 3 ⟨true, false⟩)) (by decide)

end RequestStream

end TgServer
