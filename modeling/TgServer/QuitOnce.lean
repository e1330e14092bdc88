/-
What the reader thread enqueues once the client is gone: a socket at its end
stays readable, and every further call on it enqueues one more event.
-/
import TgServer.PipeEvents
import TgServer.RequestStream

namespace TgServer

open Bytes ByteStream

universe u v

variable {σ : Type u} {ρ : Type v}

/-- The reads for the octets that are missing meet the end or an error. -/
def restEnds (read : Descriptor σ) : Nat → σ → Nat → Bool
  | _, _, 0 => false
  | 0, _, _ + 1 => true
  | rounds + 1, s, missing + 1 =>
      match read s (missing + 1) with
      | (.data (c :: cs), s) =>
          restEnds read rounds s (missing + 1 - (c :: cs).length)
      | _ => true

/-- The reads of a call meet the end of the socket or an error, or the first
one returns only part of a length field. -/
def socketEnds (read : Descriptor σ) (s : σ) : Bool :=
  match read s bufSize with
  | (.failed, _) => true
  | (.data buf, s) =>
      let missing := (intAt buf - ((buf.length - 4 : Nat) : Int)).toNat
      decide (buf.length < 4) ||
        (decide (0 < intAt buf) && restEnds read missing s missing)

/-- The digits a read of the pipe returned, with what lies behind them on the
stack, are the number of the quit event. -/
def quitNumber (read : Descriptor ρ) (stack : ρ → List Byte) (p : ρ) : Bool :=
  match (read p bufSize).1 with
  | .failed => false
  | .data octets => decide (octets ≠ [] ∧
      Decimal.atoi (typeText octets (stack p)) = msgTypeClientQuit)

/-- The signal tells the other thread to quit. -/
def isQuit (sent : Origin × Signal) : Prop := sent.2.type = msgTypeClientQuit

instance (sent : Origin × Signal) : Decidable (isQuit sent) :=
  inferInstanceAs (Decidable (_ = _))

/-- The signal may follow a quit: it is none, and not read from the socket. -/
def Late (sent : Origin × Signal) : Prop := ¬ isQuit sent ∧ sent.1 ≠ .client

instance (sent : Origin × Signal) : Decidable (Late sent) :=
  inferInstanceAs (Decidable (_ ∧ _))

/-- There is no second quit, and nothing read from the socket after the
first. -/
def QuitsOnce (signals : List (Origin × Signal)) : Prop :=
  signals.Pairwise fun earlier later => isQuit earlier → Late later

instance (signals : List (Origin × Signal)) : Decidable (QuitsOnce signals) :=
  inferInstanceAs (Decidable (List.Pairwise _ _))

section Rounds

variable (pClient : TGClient) (readSock : Descriptor σ)
variable (junk : σ → Nat → Byte) (readPipe : Descriptor ρ)
variable (stack : ρ → List Byte)

/-- In the rounds the thread gets through, `select` does not report the socket
once a call has met its end, and the number of the quit event is not read from
the pipe after a quit, nor anything from the socket after that number. -/
def StaysQuiet : Bool → List Ready → σ → ρ → Prop
  | _, [], _, _ => True
  | ended, ready :: rest, s, p =>
      match if ready.sock then sockCall pClient readSock junk s
        else some ([], s) with
      | none => True
      | some (_, s') =>
          let endedSock := ended || (ready.sock && socketEnds readSock s)
          let quitPipe := ready.mPipe && quitNumber readPipe stack p
          (ready.sock = true → ended = false) ∧
          (quitPipe = true → endedSock = false) ∧
          StaysQuiet (endedSock || quitPipe) rest s'
            (if ready.mPipe then (pipeCall pClient readPipe stack p).2 else p)

end Rounds

/-- A loop that is over has met the end exactly if its reads have. -/
theorem readRest_ends (read : Descriptor σ) {rounds : Nat} {s s' : σ}
    {pDataBuf : List Byte} {readLen lastLen : Nat}
    {result : Option (List Byte)}
    (hread : readRest read rounds s pDataBuf readLen lastLen =
      some (result, s')) :
    result = none ↔ restEnds read rounds s lastLen = true := by
  induction rounds generalizing s pDataBuf readLen lastLen with
  | zero =>
      cases lastLen with
      | zero =>
          simp only [readRest, Option.some.injEq, Prod.mk.injEq] at hread
          simp [restEnds, ← hread.1]
      | succ k => cases hread
  | succ rounds ih =>
      cases lastLen with
      | zero =>
          simp only [readRest, Option.some.injEq, Prod.mk.injEq] at hread
          simp [restEnds, ← hread.1]
      | succ k =>
          rw [readRest] at hread
          rw [restEnds]
          split at hread
          · rename_i fd hfailed
            simp only [Option.some.injEq, Prod.mk.injEq] at hread
            simp [hfailed, ← hread.1]
          · rename_i fd hnone
            simp only [Option.some.injEq, Prod.mk.injEq] at hread
            simp [hnone, ← hread.1]
          · rename_i c cs fd hdata
            simp only [hdata]
            split at hread
            · cases hread
            · exact ih hread

section Cut

variable (src : Source)

/-- Where the octets that are left are fewer than those missing, the reads meet
the end. -/
theorem restEnds_short {rounds offset missing : Nat}
    (hrounds : missing ≤ rounds) (hoffset : offset ≤ src.octets.length)
    (hshort : src.octets.length < offset + missing) :
    restEnds src.read rounds offset missing = true := by
  induction rounds generalizing offset missing with
  | zero => omega
  | succ rounds ih =>
      cases missing with
      | zero => omega
      | succ k =>
          have hle := src.chunk_length_le offset (k + 1)
          have hwithin := src.chunk_within (k + 1) hoffset
          cases hchunk : src.chunk offset (k + 1) with
          | nil => simp [restEnds, Source.read, hchunk]
          | cons c cs =>
              rw [hchunk] at hle hwithin
              have hpos : 0 < (c :: cs).length := Nat.succ_pos _
              simp only [restEnds, Source.read, hchunk]
              exact ih (by omega) hwithin (by omega)

theorem socketEnds_few {offset : Nat}
    (hfew : (src.chunk offset bufSize).length < 4) :
    socketEnds src.read offset = true := by
  simp [socketEnds, Source.read, hfew]

/-- A call that begins at a frame of which the stream holds a part only meets
the end. -/
theorem socketEnds_cut {offset : Nat} {request : List Byte}
    (hmax : request.length ≤ 2 ^ 31 - 2)
    (hpart : src.octets.drop offset <+: frame request)
    (hcut : (src.octets.drop offset).length < (frame request).length) :
    socketEnds src.read offset = true := by
  by_cases hfew : (src.chunk offset bufSize).length < 4
  · exact socketEnds_few src hfew
  have hchunk := src.chunk_eq_take offset bufSize
  have hread : src.read offset bufSize =
      (.data (src.chunk offset bufSize),
        offset + (src.chunk offset bufSize).length) := rfl
  have hle : (src.chunk offset bufSize).length ≤
      (src.octets.drop offset).length := by
    rw [hchunk]
    exact List.length_take_le' _ _
  generalize src.chunk offset bufSize = buf at hfew hchunk hread hle
  have hint : intAt buf = request.length := by
    obtain ⟨tail, htail⟩ := hpart
    rw [hchunk, ← List.take_append_of_le_length hle, htail,
      intAt_take (Nat.le_of_not_lt hfew), frame]
    exact intAt_le32_append _ (by omega) _
  rw [length_frame, List.length_drop] at hcut
  rw [List.length_drop] at hle
  have hrest : restEnds src.read (request.length - (buf.length - 4))
      (offset + buf.length) (request.length - (buf.length - 4)) = true :=
    restEnds_short src (Nat.le_refl _) (by omega) (by omega)
  have hmissing : ((request.length : Int) -
      ((buf.length - 4 : Nat) : Int)).toNat =
        request.length - (buf.length - 4) := by omega
  have hpos : (0 : Int) < request.length := by omega
  rw [socketEnds, hread]
  simp only [hint, hmissing, hrest, hpos, decide_true, Bool.and_self,
    Bool.or_true]

end Cut

section Calls

variable {pClient : TGClient} {readSock : Descriptor σ}
variable {junk : σ → Nat → Byte} (readPipe : Descriptor ρ)
variable (stack : ρ → List Byte)

/-- A call on the socket sends one signal, a quit exactly if it has met the
end of the socket. -/
theorem sockCall_quit (hsock : 0 ≤ pClient.sockfd) {s s' : σ}
    {signals : List Signal}
    (hcall : sockCall pClient readSock junk s = some (signals, s')) :
    ∃ signal, signals = [signal] ∧
      (signal.type = msgTypeClientQuit ↔ socketEnds readSock s = true) := by
  have hnot : ¬ pClient.sockfd < 0 := by omega
  have hrequest : msgTypeClientRequest ≠ msgTypeClientQuit := by decide
  obtain ⟨result, fd, hread⟩ :
      ∃ result fd, readSock s bufSize = (result, fd) := ⟨_, _, rfl⟩
  simp only [sockCall, readDataFromCli, hnot, ↓reduceIte, hread] at hcall
  rw [socketEnds, hread]
  cases result with
  | failed =>
      simp only [Option.map_some, Option.some.injEq, Prod.mk.injEq] at hcall
      exact ⟨_, hcall.1.symm, by simp [quitOutcome]⟩
  | data buf =>
      simp only at hcall ⊢
      by_cases hfew : buf.length < 4
      · simp only [hfew, ↓reduceIte, Option.map_some, Option.some.injEq,
          Prod.mk.injEq] at hcall
        exact ⟨_, hcall.1.symm, by simp [hfew, quitOutcome]⟩
      by_cases hpos : 0 < intAt buf
      swap
      · simp only [hfew, Int.not_lt.mp hpos, ↓reduceIte, Option.map_some,
          Option.some.injEq, Prod.mk.injEq] at hcall
        refine ⟨_, hcall.1.symm, ?_⟩
        simp only [hfew, hpos, decide_false, Bool.false_and, Bool.or_self]
        decide
      have hsome : ¬ intAt buf ≤ 0 := by omega
      simp only [hfew, hsome, ↓reduceIte] at hcall
      simp only [hfew, hpos, decide_false, decide_true, Bool.true_and,
        Bool.false_or]
      by_cases hlong : 0 < intAt buf - ((buf.length - 4 : Nat) : Int)
      · rw [if_pos hlong] at hcall
        obtain ⟨called, hcalled, hsignal⟩ := Option.map_eq_some_iff.mp hcall
        simp only [readLong, Option.bind_eq_some_iff, Option.map_eq_some_iff]
          at hcalled
        obtain ⟨-, -, -, -, block, -, ⟨result, fd'⟩, hrest, rfl⟩ := hcalled
        have hends := readRest_ends readSock hrest
        cases result with
        | none =>
            simp only [restOutcome, Prod.mk.injEq] at hsignal
            refine ⟨_, hsignal.1.symm, ?_⟩
            simp only [← hends]
            decide
        | some pDataBuf =>
            simp only [restOutcome, Prod.mk.injEq] at hsignal
            refine ⟨_, hsignal.1.symm, ?_⟩
            rw [← hends]
            exact iff_of_false hrequest (Option.some_ne_none _)
      · rw [if_neg hlong] at hcall
        obtain ⟨called, hcalled, hsignal⟩ := Option.map_eq_some_iff.mp hcall
        simp only [readShort, Option.bind_eq_some_iff, Option.map_eq_some_iff]
          at hcalled
        obtain ⟨-, -, -, -, block, -, rfl⟩ := hcalled
        have hzero : (intAt buf - ((buf.length - 4 : Nat) : Int)).toNat = 0 := by
          omega
        simp only [Prod.mk.injEq] at hsignal
        refine ⟨_, hsignal.1.symm, ?_⟩
        rw [hzero, restEnds]
        exact iff_of_false hrequest Bool.false_ne_true

/-- A call on the pipe sends at most one signal, a quit exactly if it has read
that number. -/
theorem pipeCall_quit (hpipe : 0 ≤ pClient.readPipe) (p : ρ) :
    ((pipeCall pClient readPipe stack p).1 = [] ∧
      quitNumber readPipe stack p = false) ∨
    ∃ signal, (pipeCall pClient readPipe stack p).1 = [signal] ∧
      (signal.type = msgTypeClientQuit ↔
        quitNumber readPipe stack p = true) := by
  cases hread : (readPipe p bufSize).1 with
  | failed =>
      refine .inl ⟨pipeCall_silent (.inr (.inl hread)), ?_⟩
      rw [quitNumber, hread]
  | data octets =>
      by_cases hsome : octets = []
      · subst hsome
        refine .inl ⟨pipeCall_silent (.inr (.inr hread)), ?_⟩
        rw [quitNumber, hread]
        simp
      · refine .inr ⟨_, pipeCall_octets hpipe readPipe stack p hread hsome, ?_⟩
        rw [quitNumber, hread]
        simp [hsome]

end Calls

/-- The signals are quiet, and if a quit was sent before they may all follow
it. -/
def QuietSince (ended : Bool) (signals : List (Origin × Signal)) : Prop :=
  QuitsOnce signals ∧ (ended = true → ∀ sent ∈ signals, Late sent)

theorem quietSince_nil (ended : Bool) : QuietSince ended [] :=
  ⟨List.Pairwise.nil, fun _ sent hsent => by cases hsent⟩

theorem quietSince_false (signals : List (Origin × Signal)) :
    QuietSince false signals ↔ QuitsOnce signals :=
  ⟨fun hquiet => hquiet.1, fun honce => ⟨honce, fun hended => by cases hended⟩⟩

theorem quietSince_cons (ended : Bool) (sent : Origin × Signal)
    (rest : List (Origin × Signal)) :
    QuietSince ended (sent :: rest) ↔
      (ended = true → Late sent) ∧
        QuietSince (ended || decide (isQuit sent)) rest := by
  simp only [QuietSince, QuitsOnce, List.pairwise_cons, Bool.or_eq_true,
    decide_eq_true_eq, List.mem_cons, forall_eq_or_imp]
  constructor
  · rintro ⟨⟨hsent, honce⟩, hended⟩
    refine ⟨fun h => (hended h).1, honce, ?_⟩
    rintro (h | h) other hother
    · exact (hended h).2 other hother
    · exact hsent other hother h
  · rintro ⟨hfirst, honce, hlate⟩
    exact ⟨⟨fun other hother h => hlate (.inr h) other hother, honce⟩,
      fun h => ⟨hfirst h, hlate (.inl h)⟩⟩

section Loop

variable {pClient : TGClient} (hsock : 0 ≤ pClient.sockfd)
variable (hpipe : 0 ≤ pClient.readPipe) (readSock : Descriptor σ)
variable (junk : σ → Nat → Byte) (readPipe : Descriptor ρ)
variable (stack : ρ → List Byte)

include hsock in
/-- What a round sends for the socket, before everything else. -/
theorem quietSince_sock {ready : Ready} {s s' : σ} {fromSock : List Signal}
    (hround : (if ready.sock then sockCall pClient readSock junk s
      else some ([], s)) = some (fromSock, s'))
    (ended : Bool) (later : List (Origin × Signal)) :
    QuietSince ended (fromSock.map (.client, ·) ++ later) ↔
      (ready.sock = true → ended = false) ∧
        QuietSince (ended || (ready.sock && socketEnds readSock s)) later := by
  cases hready : ready.sock with
  | false =>
      simp only [hready, Bool.false_eq_true, ↓reduceIte, Option.some.injEq,
        Prod.mk.injEq] at hround
      simp [← hround.1]
  | true =>
      rw [hready, if_pos rfl] at hround
      obtain ⟨signal, rfl, hquit⟩ := sockCall_quit hsock hround
      have hlate : ¬ Late (.client, signal) := fun hlate => hlate.2 rfl
      rw [List.map_singleton, List.singleton_append, quietSince_cons]
      simp only [isQuit, hquit, hlate, Bool.true_and]
      cases ended <;> cases socketEnds readSock s <;> simp

include hpipe in
/-- What a round sends for the pipe, before what the later rounds send. -/
theorem quietSince_pipe (ended : Bool) (ready : Ready) (p : ρ)
    (later : List (Origin × Signal)) :
    QuietSince ended
        ((if ready.mPipe then (pipeCall pClient readPipe stack p).1
          else []).map (.mainProcess, ·) ++ later) ↔
      ((ready.mPipe && quitNumber readPipe stack p) = true → ended = false) ∧
        QuietSince (ended || (ready.mPipe && quitNumber readPipe stack p))
          later := by
  cases ready.mPipe with
  | false => simp
  | true =>
      simp only [↓reduceIte, Bool.true_and]
      rcases pipeCall_quit readPipe stack hpipe p with
        ⟨hnone, hquit⟩ | ⟨signal, hone, hquit⟩
      · rw [hnone, hquit]
        simp
      · have hlate : Late (.mainProcess, signal) ↔
            ¬ signal.type = msgTypeClientQuit := by
          simp [Late, isQuit]
        rw [hone, List.map_singleton, List.singleton_append, quietSince_cons,
          hlate, hquit]
        simp only [isQuit, hquit]
        cases ended <;> cases quitNumber readPipe stack p <;> simp

include hsock hpipe

/-- The loop is quiet exactly if its rounds are. -/
theorem deamonReadLoop_quiet (ended : Bool) (rounds : List Ready) (s : σ)
    (p : ρ) :
    QuietSince ended
        (deamonReadLoop pClient readSock junk readPipe stack rounds s p) ↔
      StaysQuiet pClient readSock junk readPipe stack ended rounds s p := by
  induction rounds generalizing ended s p with
  | nil => exact iff_of_true (quietSince_nil ended) trivial
  | cons ready rest ih =>
      rw [deamonReadLoop, StaysQuiet]
      cases hround : (if ready.sock then sockCall pClient readSock junk s
        else some ([], s)) with
      | none => exact iff_of_true (quietSince_nil ended) trivial
      | some called =>
          obtain ⟨fromSock, s'⟩ := called
          have hpipes : (if ready.mPipe then pipeCall pClient readPipe stack p
              else ([], p)) =
              (if ready.mPipe then (pipeCall pClient readPipe stack p).1
                else [],
              if ready.mPipe then (pipeCall pClient readPipe stack p).2
                else p) := by
            split <;> rfl
          simp only [hpipes, List.append_assoc]
          rw [quietSince_sock hsock readSock junk hround,
            quietSince_pipe hpipe readPipe stack, ih]

/-- At most one quit is enqueued, and nothing read from the socket after it,
exactly if `select` does not report the socket after its end and the number of
the quit event is not read from the pipe once more. -/
theorem deamonRead_quitsOnce_iff (rounds : List Ready) (s : σ) (p : ρ) :
    QuitsOnce (deamonRead pClient readSock junk readPipe stack rounds s p) ↔
      StaysQuiet pClient readSock junk readPipe stack false rounds s p := by
  have hinit : isQuit (.start, ⟨msgTypeClientInit, none⟩) ↔ False := by decide
  rw [← deamonReadLoop_quiet hsock hpipe, deamonRead, ← quietSince_false,
    quietSince_cons]
  simp [hinit]

end Loop

namespace QuitOnce

open RequestStream (client closedPipe)

/-- A client that sends nothing and closes the connection. -/
def gone : Source := ⟨[], fun _ => 1⟩

/-- A client that sends one request and closes the connection. -/
def asks : Source := ⟨frame (ascii "a/b"), fun _ => bufSize⟩

/-- The pipe in which the administrator's order comes later. -/
def closes : Source := ⟨orderStream [.close], fun _ => bufSize⟩

/-- The socket, the socket at its end, and then the pipe. -/
def rounds : List Ready := [⟨true, false⟩, ⟨true, false⟩, ⟨false, true⟩]

theorem deamonRead_quitsOnce_iff_gone :
    deamonRead client asks.read (fun _ _ => 0) closes.read (fun _ => [])
        rounds 0 0 =
      [(.start, ⟨msgTypeClientInit, none⟩),
        (.client, ⟨msgTypeClientRequest, some (ascii "a/b" ++ [0])⟩),
        (.client, ⟨msgTypeClientQuit, none⟩),
        (.mainProcess, ⟨msgTypeClientBeClosedByAdmin, none⟩)] ∧
    (QuitsOnce (deamonRead client asks.read (fun _ _ => 0) closes.read
        (fun _ => []) rounds 0 0) ↔
      StaysQuiet client asks.read (fun _ _ => 0) closes.read (fun _ => [])
        false rounds 0 0) :=
  ⟨by decide, deamonRead_quitsOnce_iff (by decide) (by decide) asks.read
    (fun _ _ => 0) closes.read (fun _ => []) rounds 0 0⟩

/-- The response thread is busy while `select` reports the socket three
times. -/
theorem deamonRead_quits_again :
    deamonRead client gone.read (fun _ _ => 0) closedPipe (fun _ => [])
        (List.replicate 3 ⟨true, false⟩) 0 () =
      [(.start, ⟨msgTypeClientInit, none⟩),
        (.client, ⟨msgTypeClientQuit, none⟩),
        (.client, ⟨msgTypeClientQuit, none⟩),
        (.client, ⟨msgTypeClientQuit, none⟩)] ∧
    ¬ QuitsOnce (deamonRead client gone.read (fun _ _ => 0) closedPipe
        (fun _ => []) (List.replicate 3 ⟨true, false⟩) 0 ()) := by
  decide

end QuitOnce

end TgServer
