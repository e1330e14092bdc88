/-
The loop of `read_data_from_cli` over the octets a first read left missing,
for any descriptor: what its locals are at each round, and how it ends.
-/
import TgServer.Reader
import TgServer.Transition

namespace TgServer

open Bytes ByteStream Transition

universe u

variable {σ : Type u}

/-- The locals of the loop at its head. -/
structure RestLocals (σ : Type u) where
  fd : σ
  pDataBuf : List Byte
  readLen : Nat
  lastLen : Nat

namespace RestLocals

/-- The loop from here on. -/
def rest (read : Descriptor σ) (rounds : Nat) (l : RestLocals σ) :
    Option (Option (List Byte) × σ) :=
  readRest read rounds l.fd l.pDataBuf l.readLen l.lastLen

/-- A round that goes back to the head of the loop. -/
def round (read : Descriptor σ) (l : RestLocals σ) : Option (RestLocals σ) :=
  if l.lastLen = 0 then none
  else
    match read l.fd l.lastLen with
    | (.data (c :: cs), fd) =>
        (store l.pDataBuf l.readLen (c :: cs)).map fun pDataBuf =>
          ⟨fd, pDataBuf, l.readLen + (c :: cs).length,
            l.lastLen - (c :: cs).length⟩
    | _ => none

/-- The locals when the loop is entered: the block is cleared and what came
with the length field is copied into it. -/
def start (fd : σ) (buf : List Byte) (size : Nat) : RestLocals σ where
  fd := fd
  pDataBuf := buf.drop 4 ++ List.replicate (size + 1 - (buf.length - 4)) 0
  readLen := buf.length - 4
  lastLen := size - (buf.length - 4)

end RestLocals

/-- The rounds of the loop. -/
def restLoop (read : Descriptor σ) (l : RestLocals σ) :
    Machine (RestLocals σ) Unit where
  start := l
  step l _ := l.round read

section Branches

variable (read : Descriptor σ) (fresh : Nat → Byte) (s : σ)

theorem mallocData_eq {size : Nat} (hsize : size < 2 ^ 31 - 1) :
    mallocData size fresh = some (malloc (size + 1) fresh) := by
  rw [mallocData, if_pos (by omega)]
  rfl

/-- Setting up the block: all of it cleared, then the octets of the first
read copied in. -/
theorem readLong_eq {size : Nat} (hsize : size < 2 ^ 31 - 1)
    (ppData : Option (List Byte)) {buf : List Byte}
    (hbuf : buf.length - 4 ≤ size) :
    readLong read fresh s ppData buf size =
      ((RestLocals.start s buf size).rest read
        (size - (buf.length - 4))).map (restOutcome ppData) := by
  have hclear : store (malloc (size + 1) fresh) 0
      (List.replicate (size + 1) 0) = some (List.replicate (size + 1) 0) := by
    rw [store_zero _ _ (by simp), List.drop_eq_nil_of_le (by simp),
      List.append_nil]
  have hcopy : store (List.replicate (size + 1) 0) 0 (buf.drop 4) =
      some (buf.drop 4 ++ List.replicate (size + 1 - (buf.length - 4)) 0) := by
    rw [store_zero _ _ (by rw [List.length_replicate, List.length_drop]; omega),
      List.drop_replicate, List.length_drop]
  have hlast : ((size : Int) - ((buf.length - 4 : Nat) : Int)).toNat =
      size - (buf.length - 4) := by omega
  simp only [readLong, mallocData_eq fresh hsize, Int.toNat_natCast,
    Option.bind_some, hclear, hcopy, hlast]
  rfl

/-- Only the octets of the request are cleared and copied. -/
theorem readShort_eq {size : Nat} (hsize : size < 2 ^ 31 - 1)
    {buf : List Byte} (hbuf : size ≤ buf.length - 4) :
    readShort fresh s buf size =
      some (⟨0, msgTypeClientRequest,
        some ((buf.drop 4).take size ++ [fresh size])⟩, s) := by
  have hclear : store (malloc (size + 1) fresh) 0 (List.replicate size 0) =
      some (List.replicate size 0 ++ [fresh size]) := by
    rw [store_zero _ _ (by simp), List.length_replicate, malloc,
      List.range_succ, List.map_append, List.drop_left' (by simp),
      List.map_singleton]
  have htext : ((buf.drop 4).take size).length = size := by
    rw [List.length_take, List.length_drop]
    omega
  simp only [readShort, mallocData_eq fresh hsize, Int.toNat_natCast,
    Option.bind_some, hclear]
  rw [store_zero _ _ (by rw [htext]; simp), htext,
    List.drop_left' (by simp)]
  rfl

end Branches

/-- Logging a descriptor changes nothing but the log. -/
theorem readRest_logged (read : Descriptor σ) (rounds : Nat) (s : σ)
    (log : Log) (pDataBuf : List Byte) (readLen lastLen : Nat) :
    (readRest (logged read) rounds (s, log) pDataBuf readLen lastLen).map
        (Prod.map id Prod.fst) =
      readRest read rounds s pDataBuf readLen lastLen := by
  induction rounds generalizing s log pDataBuf readLen lastLen with
  | zero => cases lastLen <;> rfl
  | succ rounds ih =>
      cases lastLen with
      | zero => rfl
      | succ lastLen =>
          obtain ⟨result, s', hread⟩ :
              ∃ result s', read s (lastLen + 1) = (result, s') := ⟨_, _, rfl⟩
          cases result with
          | failed => simp [readRest, logged, hread]
          | data octets =>
              cases octets with
              | nil => simp [readRest, logged, hread]
              | cons c cs =>
                  simp only [readRest, logged, hread]
                  cases store pDataBuf readLen (c :: cs) with
                  | none => rfl
                  | some pDataBuf => exact ih s' _ pDataBuf _ _

/-- What holds at the head of the loop: `log` has the reads of the loop so
far, which follow the first read. -/
structure RestLocals.Inv (front : List Byte) (first : Log) (size : Nat)
    (l : RestLocals (σ × Log)) (log : Log) : Prop where
  logs : l.fd.2 = first ++ log
  data : ∀ entry ∈ log, entry.2.octets ≠ []
  sum : l.readLen + l.lastLen = size
  filled : (front ++ received log).length = l.readLen
  block : l.pDataBuf = front ++ received log ++
    List.replicate (l.lastLen + 1) 0

namespace RestLocals.Inv

variable {read : Descriptor σ} {front : List Byte} {first log : Log}
variable {size : Nat} {l : RestLocals (σ × Log)}

theorem start {fd : σ × Log} {buf : List Byte} (hfirst : fd.2 = first)
    (hbuf : buf.length - 4 ≤ size) :
    RestLocals.Inv (buf.drop 4) first size (.start fd buf size) [] where
  logs := by rw [List.append_nil]; exact hfirst
  data := fun entry hentry => by cases hentry
  sum := by simp only [RestLocals.start]; omega
  filled := by simp [RestLocals.start]
  block := by
    have hone : size + 1 - (buf.length - 4) =
        size - (buf.length - 4) + 1 := by omega
    simp [RestLocals.start, hone]

theorem length_block (hinv : l.Inv front first size log) :
    l.pDataBuf.length = size + 1 := by
  have hsum := hinv.sum
  rw [hinv.block, List.length_append, hinv.filled, List.length_replicate]
  omega

/-- What is missing fits behind what is there. -/
theorem store_within (hinv : l.Inv front first size log) {octets : List Byte}
    (hoctets : octets.length ≤ l.lastLen) :
    store l.pDataBuf l.readLen octets =
      some (front ++ received log ++ octets ++
        List.replicate (l.lastLen - octets.length + 1) 0) := by
  have hone : l.lastLen + 1 - octets.length =
      l.lastLen - octets.length + 1 := by omega
  rw [hinv.block, ← hinv.filled, store_append _ _ _
    (by rw [List.length_replicate]; omega), List.drop_replicate, hone]

/-- A round that goes on: something was read, and less is missing. -/
theorem round_data (hinv : l.Inv front first size log)
    (hwithin : ReadsWithin read) (hmissing : l.lastLen ≠ 0)
    (hdata : (read l.fd.1 l.lastLen).1.octets ≠ []) :
    ∃ next, l.round (logged read) = some next ∧
      next.lastLen < l.lastLen ∧
      next.Inv front first size
        (log ++ [(l.lastLen, (read l.fd.1 l.lastLen).1)]) := by
  have hle := hwithin l.fd.1 l.lastLen
  obtain ⟨result, s', hread⟩ :
      ∃ result s', read l.fd.1 l.lastLen = (result, s') := ⟨_, _, rfl⟩
  rw [hread] at hdata hle ⊢
  cases result with
  | failed => exact absurd rfl hdata
  | data octets =>
      cases octets with
      | nil => exact absurd rfl hdata
      | cons c cs =>
          have hstore := hinv.store_within hle
          have hpos : 0 < (c :: cs).length := List.length_pos_of_ne_nil hdata
          refine ⟨⟨(s', l.fd.2 ++ [(l.lastLen, .data (c :: cs))]),
            front ++ received log ++ (c :: cs) ++
              List.replicate (l.lastLen - (c :: cs).length + 1) 0,
            l.readLen + (c :: cs).length, l.lastLen - (c :: cs).length⟩,
            ?_, ?_, ?_⟩
          · simp only [RestLocals.round, hmissing, ↓reduceIte, logged, hread,
              ReadResult.octets] at hstore ⊢
            rw [hstore]
            rfl
          · simp only
            omega
          · constructor
            · simp only [hinv.logs, List.append_assoc]
            · intro entry hentry
              rcases List.mem_append.mp hentry with hold | hnew
              · exact hinv.data entry hold
              · rw [List.mem_singleton.mp hnew]
                exact hdata
            · have hsum := hinv.sum
              simp only [ReadResult.octets] at hle ⊢
              omega
            · have hfilled := hinv.filled
              rw [received_snoc, ← List.append_assoc, List.length_append,
                hfilled]
              rfl
            · rw [received_snoc, ← List.append_assoc]
              rfl

/-- With nothing missing the loop is over. -/
theorem rest_full (hinv : l.Inv front first size log) (hfull : l.lastLen = 0)
    (rounds : Nat) :
    l.rest (logged read) rounds =
        some (some (front ++ received log ++ [0]), l.fd.1, first ++ log) ∧
      (front ++ received log).length = size := by
  have hsum := hinv.sum
  refine ⟨?_, by rw [hinv.filled]; omega⟩
  rw [RestLocals.rest, hfull, readRest, hinv.block, hfull, ← hinv.logs]
  rfl

/-- A read that returns nothing is the end of the loop. -/
theorem rest_end (hmissing : l.lastLen ≠ 0)
    (hnone : (read l.fd.1 l.lastLen).1.octets = []) {rounds : Nat}
    (hrounds : l.lastLen ≤ rounds) :
    l.rest (logged read) rounds = some (none, (read l.fd.1 l.lastLen).2,
      l.fd.2 ++ [(l.lastLen, (read l.fd.1 l.lastLen).1)]) := by
  obtain ⟨⟨s, logs⟩, pDataBuf, readLen, lastLen⟩ := l
  obtain ⟨k, rfl⟩ := Nat.exists_eq_succ_of_ne_zero hmissing
  obtain ⟨rounds, rfl⟩ := Nat.exists_eq_succ_of_ne_zero
    (Nat.ne_of_gt (Nat.lt_of_lt_of_le (Nat.succ_pos k) hrounds))
  obtain ⟨result, s', hread⟩ :
      ∃ result s', read s (k + 1) = (result, s') := ⟨_, _, rfl⟩
  simp only [Nat.succ_eq_add_one, hread] at hnone ⊢
  cases result with
  | failed => simp [RestLocals.rest, readRest, logged, hread]
  | data octets =>
      have hnil : octets = [] := hnone
      subst hnil
      simp [RestLocals.rest, readRest, logged, hread]

end RestLocals.Inv

/-- A round that is taken has read something. -/
theorem RestLocals.data_of_round {read : Descriptor σ}
    {l next : RestLocals (σ × Log)} (hround : l.round (logged read) = some next) :
    l.lastLen ≠ 0 ∧ (read l.fd.1 l.lastLen).1.octets ≠ [] := by
  simp only [RestLocals.round] at hround
  split at hround
  · cases hround
  rename_i hmissing
  refine ⟨hmissing, ?_⟩
  split at hround
  · rename_i c cs fd hread
    have hdata : (read l.fd.1 l.lastLen).1 = .data (c :: cs) :=
      congrArg Prod.fst hread
    rw [hdata]
    exact List.cons_ne_nil c cs
  · cases hround

/-- A round of the loop is one step of the recursion. -/
theorem RestLocals.rest_round {read : Descriptor σ} {l next : RestLocals σ}
    (hround : l.round read = some next) (rounds : Nat) :
    l.rest read (rounds + 1) = next.rest read rounds := by
  obtain ⟨s, pDataBuf, readLen, lastLen⟩ := l
  simp only [RestLocals.round] at hround
  split at hround
  · cases hround
  rename_i hmissing
  obtain ⟨k, rfl⟩ := Nat.exists_eq_succ_of_ne_zero hmissing
  split at hround
  · rename_i c cs fd hread
    obtain ⟨stored, hstore, rfl⟩ := Option.map_eq_some_iff.mp hround
    simp only [RestLocals.rest, readRest, hread, hstore]
  · cases hround

theorem RestLocals.round_lastLen {read : Descriptor σ} {l next : RestLocals σ}
    (hround : l.round read = some next) : next.lastLen < l.lastLen := by
  simp only [RestLocals.round] at hround
  split at hround
  · cases hround
  split at hround
  · obtain ⟨stored, -, rfl⟩ := Option.map_eq_some_iff.mp hround
    simp only [List.length_cons]
    omega
  · cases hround

/-- The loop ends as it does from any of its rounds on. -/
theorem restLoop_rest {read : Descriptor σ} {l₀ l : RestLocals σ}
    (hreach : (restLoop read l₀).Reachable l) {rounds : Nat}
    (hrounds : l₀.lastLen ≤ rounds) :
    ∃ left, l.lastLen ≤ left ∧ l₀.rest read rounds = l.rest read left := by
  apply hreach.invariant
  · exact ⟨rounds, hrounds, rfl⟩
  · rintro l _ next ⟨left, hleft, hrest⟩ hstep
    have hround : l.round read = some next := hstep
    have hless := RestLocals.round_lastLen hround
    obtain ⟨less, rfl⟩ := Nat.exists_eq_succ_of_ne_zero
      (Nat.ne_of_gt (Nat.lt_of_lt_of_le (Nat.zero_lt_of_lt hless) hleft))
    exact ⟨less, by omega, hrest.trans (RestLocals.rest_round hround less)⟩

section Loop

variable {read : Descriptor σ} {front : List Byte} {first : Log} {size : Nat}

/-- Every round keeps the two counters and the block together. -/
theorem restLoop_inv (hwithin : ReadsWithin read)
    {l₀ : RestLocals (σ × Log)} (hstart : l₀.Inv front first size [])
    {l : RestLocals (σ × Log)}
    (hreach : (restLoop (logged read) l₀).Reachable l) :
    ∃ log, l.Inv front first size log := by
  apply hreach.invariant
  · exact ⟨[], hstart⟩
  · rintro l _ next ⟨log, hinv⟩ hround
    obtain ⟨hmissing, hdata⟩ := RestLocals.data_of_round hround
    obtain ⟨other, hother, -, hnext⟩ :=
      hinv.round_data hwithin hmissing hdata
    have hsame : other = next := Option.some.inj (hother.symm.trans hround)
    exact ⟨_, hsame ▸ hnext⟩

/-- How the loop ends: the block is full of what was read, or the last read
returned nothing. -/
theorem RestLocals.Inv.rest (hwithin : ReadsWithin read)
    {l : RestLocals (σ × Log)} {log : Log}
    (hinv : l.Inv front first size log) {rounds : Nat}
    (hrounds : l.lastLen ≤ rounds) :
    ∃ fd log', (∀ entry ∈ log', entry.2.octets ≠ []) ∧
      ((l.rest (logged read) rounds =
          some (some (front ++ received log' ++ [0]), fd, first ++ log') ∧
        (front ++ received log').length = size) ∨
      ∃ count result, l.rest (logged read) rounds =
          some (none, fd, first ++ (log' ++ [(count, result)])) ∧
        result.octets = [] ∧ (front ++ received log').length < size) := by
  induction rounds generalizing l log with
  | zero =>
      have hfull : l.lastLen = 0 := Nat.eq_zero_of_le_zero hrounds
      exact ⟨l.fd.1, log, hinv.data, .inl (hinv.rest_full hfull 0)⟩
  | succ rounds ih =>
      by_cases hmissing : l.lastLen = 0
      · exact ⟨l.fd.1, log, hinv.data, .inl (hinv.rest_full hmissing _)⟩
      by_cases hdata : (read l.fd.1 l.lastLen).1.octets = []
      · refine ⟨(read l.fd.1 l.lastLen).2, log, hinv.data,
          .inr ⟨l.lastLen, _, ?_, hdata, ?_⟩⟩
        · rw [RestLocals.Inv.rest_end hmissing hdata hrounds, hinv.logs,
            List.append_assoc]
        · have hsum := hinv.sum
          rw [hinv.filled]
          omega
      · obtain ⟨next, hround, hless, hnext⟩ :=
          hinv.round_data hwithin hmissing hdata
        rw [RestLocals.rest_round hround]
        exact ih hnext (by omega)

end Loop

section Call

variable {client : TGClient} (hsock : 0 ≤ client.sockfd)
variable {read : Descriptor σ} (junk : σ → Nat → Byte) {s s' : σ}
variable {buf : List Byte} {size : Nat} (pType : Int)
variable (ppData : Option (List Byte))

include hsock

/-- A call whose first read returned the length field, and part of the
request. -/
theorem readDataFromCli_long (hread : read s bufSize = (.data buf, s'))
    (hfour : 4 ≤ buf.length) (hlength : intAt buf = size)
    (hmax : size < 2 ^ 31 - 1) (hlt : buf.length < 4 + size) :
    readDataFromCli (some client) read junk s pType ppData =
      ((RestLocals.start s' buf size).rest read
        (size - (buf.length - 4))).map (restOutcome ppData) := by
  have hnot : ¬ client.sockfd < 0 := by omega
  have hfew : ¬ buf.length < 4 := by omega
  have hsome : ¬ (size : Int) ≤ 0 := by omega
  have hlong : (0 : Int) < size - ((buf.length - 4 : Nat) : Int) := by omega
  simp only [readDataFromCli, hread, hnot, ↓reduceIte, hfew, hlength, hsome,
    hlong]
  exact readLong_eq read (junk s) s' hmax ppData (by omega)

/-- A call whose first read returned the whole request, and what came behind
it. -/
theorem readDataFromCli_short (hread : read s bufSize = (.data buf, s'))
    (hlength : intAt buf = size) (hpos : 1 ≤ size)
    (hmax : size < 2 ^ 31 - 1) (hle : 4 + size ≤ buf.length) :
    readDataFromCli (some client) read junk s pType ppData =
      some (⟨0, msgTypeClientRequest,
        some ((buf.drop 4).take size ++ [junk s size])⟩, s') := by
  have hnot : ¬ client.sockfd < 0 := by omega
  have hfew : ¬ buf.length < 4 := by omega
  have hsome : ¬ (size : Int) ≤ 0 := by omega
  have hshort : ¬ (0 : Int) < size - ((buf.length - 4 : Nat) : Int) := by omega
  simp only [readDataFromCli, hread, hnot, ↓reduceIte, hfew, hlength, hsome,
    hshort]
  exact readShort_eq (junk s) s' hmax (by omega)

end Call

/-- Logging the socket changes nothing of a call but the log. -/
theorem readDataFromCli_logged {client : TGClient}
    (read : Descriptor σ) (junk : σ → Nat → Byte)
    (s : σ) (log : Log) (pType : Int) (ppData : Option (List Byte)) :
    (readDataFromCli (some client) (logged read) (fun fd => junk fd.1) (s, log)
        pType ppData).map (Prod.map id Prod.fst) =
      readDataFromCli (some client) read junk s pType ppData := by
  obtain ⟨result, s', hread⟩ :
      ∃ result s', read s bufSize = (result, s') := ⟨_, _, rfl⟩
  have hlog : logged read (s, log) bufSize =
      (result, s', log ++ [(bufSize, result)]) := by
    simp only [logged, hread]
  simp only [readDataFromCli, hread, hlog]
  split
  · rfl
  cases result with
  | failed => rfl
  | data buf =>
      simp only
      split
      · rfl
      split
      · rfl
      split
      · simp only [readLong]
        cases mallocData (intAt buf) (junk s) with
        | none => rfl
        | some pDataBuf =>
            simp only [Option.bind_some]
            cases store pDataBuf 0 _ with
            | none => rfl
            | some pDataBuf =>
                simp only [Option.bind_some]
                cases store pDataBuf 0 _ with
                | none => rfl
                | some pDataBuf =>
                    rw [Option.bind_some, Option.bind_some,
                      ← readRest_logged read _ s' (log ++ [(bufSize, .data buf)]),
                      Option.map_map, Option.map_map]
                    congr 1
                    funext rested
                    obtain ⟨result, fd⟩ := rested
                    cases result <;> rfl
      · simp only [readShort]
        cases mallocData (intAt buf) (junk s) with
        | none => rfl
        | some pDataBuf =>
            simp only [Option.bind_some]
            cases store pDataBuf 0 _ with
            | none => rfl
            | some pDataBuf =>
                simp only [Option.bind_some, Option.map_map]
                rfl

end TgServer
