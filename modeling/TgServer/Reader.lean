/-
`tg_process_reader.c` and the reader thread `__deamon_read` of `tg_process.c`.
A descriptor is any state with a `read`; what uninitialised memory holds is a
function of the state the call starts in.  `none` is undefined behaviour; the
calls that log what was read are left out, and with them what they read of a
block or of `buf` where no NUL ends it.
-/
import TgServer.ByteStream
import TgServer.Context
import TgServer.Decimal
import TgServer.MessageTypes

namespace TgServer

open Bytes ByteStream

universe u v

variable {σ : Type u} {ρ : Type v}

/-- The size of `buf` in both readers. -/
def bufSize : Nat := 255

/-- What a reader leaves behind: its result, `*pType` and `*ppData`. -/
structure ReadOutcome where
  ret : Int
  pType : Int
  ppData : Option (List Byte)
deriving Repr, DecidableEq

/-- `malloc(size + 1)`.  The addition overflows for the largest `int`. -/
def mallocData (size : Int) (junk : Nat → Byte) : Option (List Byte) :=
  if size < 2 ^ 31 - 1 then some (malloc (size.toNat + 1) junk) else none

/-- The loop that reads what is missing of a request: `lastLen` octets go to
`pDataBuf[readLen]` on.  The inner `none` is the jump to `L_EXIT`.  Every read
takes at least one octet off `lastLen`, which therefore bounds the rounds. -/
def readRest (read : Descriptor σ) :
    Nat → σ → List Byte → Nat → Nat → Option (Option (List Byte) × σ)
  | _, s, pDataBuf, _, 0 => some (some pDataBuf, s)
  | 0, _, _, _, _ + 1 => none
  | rounds + 1, s, pDataBuf, readLen, lastLen + 1 =>
      match read s (lastLen + 1) with
      | (.failed, s) => some (none, s)
      | (.data [], s) => some (none, s)
      | (.data (c :: cs), s) =>
          match store pDataBuf readLen (c :: cs) with
          | none => none
          | some pDataBuf =>
              readRest read rounds s pDataBuf (readLen + (c :: cs).length)
                (lastLen + 1 - (c :: cs).length)

/-- The code at `L_EXIT`; `*ppData` keeps its value. -/
def quitOutcome (ppData : Option (List Byte)) : ReadOutcome :=
  ⟨0, msgTypeClientQuit, ppData⟩

/-- How a call ends once the loop over the missing octets is over. -/
def restOutcome (ppData : Option (List Byte)) :
    Option (List Byte) × σ → ReadOutcome × σ
  | (none, s) => (quitOutcome ppData, s)
  | (some pDataBuf, s) => (⟨0, msgTypeClientRequest, some pDataBuf⟩, s)

/-- The branch in which a first read of `buf` left `lastLen` octets missing. -/
def readLong (read : Descriptor σ) (junk : Nat → Byte) (s : σ)
    (ppData : Option (List Byte)) (buf : List Byte) (size : Int) :
    Option (ReadOutcome × σ) :=
  let readLen := buf.length - 4
  let lastLen := (size - readLen).toNat
  (mallocData size junk).bind fun pDataBuf =>
  (store pDataBuf 0 (List.replicate (size.toNat + 1) 0)).bind fun pDataBuf =>
  (store pDataBuf 0 (buf.drop 4)).bind fun pDataBuf =>
  (readRest read lastLen s pDataBuf readLen lastLen).map (restOutcome ppData)

/-- The branch in which the first read delivered the whole request: the last
octet of the block is not set. -/
def readShort (junk : Nat → Byte) (s : σ) (buf : List Byte) (size : Int) :
    Option (ReadOutcome × σ) :=
  (mallocData size junk).bind fun pDataBuf =>
  (store pDataBuf 0 (List.replicate size.toNat 0)).bind fun pDataBuf =>
  (store pDataBuf 0 ((buf.drop 4).take size.toNat)).map fun pDataBuf =>
  (⟨0, msgTypeClientRequest, some pDataBuf⟩, s)

def readDataFromCli (pClient : Option TGClient) (read : Descriptor σ)
    (junk : σ → Nat → Byte) (s : σ) (pType : Int)
    (ppData : Option (List Byte)) : Option (ReadOutcome × σ) :=
  match pClient with
  | none => some (⟨-1, pType, ppData⟩, s)
  | some client =>
      if client.sockfd < 0 then some (⟨-1, pType, ppData⟩, s)
      else
        match read s bufSize with
        | (.failed, s) => some (quitOutcome ppData, s)
        | (.data buf, s') =>
            if buf.length < 4 then some (quitOutcome ppData, s')
            else if intAt buf ≤ 0 then
              some (⟨1, msgTypeDataLengthError, ppData⟩, s')
            else if 0 < intAt buf - ((buf.length - 4 : Nat) : Int) then
              readLong read (junk s) s' ppData buf (intAt buf)
            else readShort (junk s) s' buf (intAt buf)

/-- `stack` is what lies behind `no` on the stack, which has no room for a
terminator. -/
def readDataFromMainProcess (pClient : Option TGClient) (read : Descriptor ρ)
    (stack : ρ → List Byte) (s : ρ) (pType : Int)
    (ppData : Option (List Byte)) : ReadOutcome × ρ :=
  match pClient with
  | none => (⟨-1, pType, ppData⟩, s)
  | some client =>
      if client.readPipe < 0 then (⟨-1, pType, ppData⟩, s)
      else
        match read s bufSize with
        | (.failed, s) => (⟨-1, pType, ppData⟩, s)
        | (.data [], s) => (⟨-1, pType, ppData⟩, s)
        | (.data (c :: cs), s') =>
            let buf := (c :: cs) ++ List.replicate (bufSize - (c :: cs).length) 0
            let no := strncpy (buf.drop 5) 4
            let msgID := Decimal.atoi (no ++ stack s)
            if msgID < msgTypeBase ∨ msgTypeMax < msgID then
              (⟨1, msgID, ppData⟩, s')
            else (⟨0, msgID, ppData⟩, s')

structure Signal where
  type : Int
  data : Option (List Byte)
deriving Repr, DecidableEq

/-- Every outcome but -1 is sent on. -/
def signalOf (out : ReadOutcome) : List Signal :=
  if out.ret ≠ -1 then [⟨out.pType, out.ppData⟩] else []

/-- Which descriptors `select` reports. -/
structure Ready where
  sock : Bool
  mPipe : Bool
deriving Repr, DecidableEq

/-- What made the reader thread send a signal. -/
inductive Origin where
  | start
  | client
  | mainProcess
deriving Repr, DecidableEq

section DeamonRead

variable (pClient : TGClient) (readSock : Descriptor σ)
variable (junk : σ → Nat → Byte) (readPipe : Descriptor ρ)
variable (stack : ρ → List Byte)

/-- One call of `read_data_from_cli` by `__deamon_read`. -/
def sockCall (s : σ) : Option (List Signal × σ) :=
  (readDataFromCli (some pClient) readSock junk s 0 none).map
    fun (out, s) => (signalOf out, s)

def pipeCall (p : ρ) : List Signal × ρ :=
  let (out, p) := readDataFromMainProcess (some pClient) readPipe stack p 0 none
  (signalOf out, p)

/-- The loop of `__deamon_read`, one entry for each return of `select`. -/
def deamonReadLoop : List Ready → σ → ρ → List (Origin × Signal)
  | [], _, _ => []
  | ready :: rest, s, p =>
      match if ready.sock then sockCall pClient readSock junk s
        else some ([], s) with
      | none => []
      | some (fromSock, s) =>
          let (fromPipe, p) := if ready.mPipe then
            pipeCall pClient readPipe stack p else ([], p)
          fromSock.map (.client, ·) ++ fromPipe.map (.mainProcess, ·) ++
            deamonReadLoop rest s p

/-- The signals `__deamon_read` sends, in order. -/
def deamonRead (rounds : List Ready) (s : σ) (p : ρ) :
    List (Origin × Signal) :=
  (.start, ⟨msgTypeClientInit, none⟩) ::
    deamonReadLoop pClient readSock junk readPipe stack rounds s p

/-- The signals of `n` successive calls of `read_data_from_cli`. -/
def sockSignals : Nat → σ → List Signal
  | 0, _ => []
  | n + 1, s =>
      match sockCall pClient readSock junk s with
      | none => []
      | some (signals, s) => signals ++ sockSignals n s

/-- The signals of `n` successive calls of `read_data_from_main_process`. -/
def pipeSignals : Nat → ρ → List Signal
  | 0, _ => []
  | n + 1, p =>
      let (signals, p) := pipeCall pClient readPipe stack p
      signals ++ pipeSignals n p

/-- The rounds the thread gets through before undefined behaviour, if any. -/
def liveRounds : List Ready → σ → List Ready
  | [], _ => []
  | ready :: rest, s =>
      match if ready.sock then sockCall pClient readSock junk s
        else some ([], s) with
      | none => []
      | some (_, s) => ready :: liveRounds rest s

end DeamonRead

/-- The signals with the given origin. -/
def signalsFrom (origin : Origin) (signals : List (Origin × Signal)) :
    List Signal :=
  (signals.filter (·.1 = origin)).map (·.2)

@[simp] theorem signalsFrom_append (origin : Origin)
    (first second : List (Origin × Signal)) :
    signalsFrom origin (first ++ second) =
      signalsFrom origin first ++ signalsFrom origin second := by
  simp [signalsFrom]

@[simp] theorem signalsFrom_map_self (origin : Origin)
    (signals : List Signal) :
    signalsFrom origin (signals.map (origin, ·)) = signals := by
  induction signals with
  | nil => rfl
  | cons signal rest ih =>
      simpa [signalsFrom] using ih

theorem signalsFrom_map_of_ne {origin other : Origin} (hne : other ≠ origin)
    (signals : List Signal) :
    signalsFrom origin (signals.map (other, ·)) = [] := by
  simp [signalsFrom, hne]

variable (pClient : TGClient) (readSock : Descriptor σ)
variable (junk : σ → Nat → Byte) (readPipe : Descriptor ρ)
variable (stack : ρ → List Byte)

/-- What the thread sends for the client depends on the socket alone. -/
theorem deamonRead_client (rounds : List Ready) (s : σ) (p : ρ) :
    signalsFrom .client
        (deamonRead pClient readSock junk readPipe stack rounds s p) =
      sockSignals pClient readSock junk (rounds.countP Ready.sock) s := by
  change signalsFrom .client
    (deamonReadLoop pClient readSock junk readPipe stack rounds s p) = _
  induction rounds generalizing s p with
  | nil => rfl
  | cons ready rest ih =>
      rw [deamonReadLoop, List.countP_cons]
      cases hsock : ready.sock with
      | false =>
          simp only [Bool.false_eq_true, ↓reduceIte, List.map_nil,
            List.nil_append, Nat.add_zero, signalsFrom_append]
          rw [signalsFrom_map_of_ne (by decide), List.nil_append, ih]
      | true =>
          simp only [↓reduceIte, sockSignals]
          cases sockCall pClient readSock junk s with
          | none => rfl
          | some called =>
              simp only [signalsFrom_append, signalsFrom_map_self]
              rw [signalsFrom_map_of_ne (by decide), List.append_nil, ih]

/-- What the thread sends for the main process depends on the pipe, and on
the socket only through the rounds it gets through. -/
theorem deamonRead_mainProcess (rounds : List Ready) (s : σ) (p : ρ) :
    signalsFrom .mainProcess
        (deamonRead pClient readSock junk readPipe stack rounds s p) =
      pipeSignals pClient readPipe stack
        ((liveRounds pClient readSock junk rounds s).countP Ready.mPipe) p := by
  change signalsFrom .mainProcess
    (deamonReadLoop pClient readSock junk readPipe stack rounds s p) = _
  induction rounds generalizing s p with
  | nil => rfl
  | cons ready rest ih =>
      rw [deamonReadLoop, liveRounds]
      cases (if ready.sock then sockCall pClient readSock junk s
        else some ([], s)) with
      | none => rfl
      | some called =>
          obtain ⟨fromSock, s'⟩ := called
          simp only [signalsFrom_append, signalsFrom_map_self,
            List.countP_cons]
          rw [signalsFrom_map_of_ne (by decide), List.nil_append, ih]
          cases hpipe : ready.mPipe with
          | false => simp
          | true => simp [pipeSignals]

end TgServer
