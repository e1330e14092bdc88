/-
One call of `read_data_from_cli` on one request: what is delivered when the
reads go wrong anywhere, the arithmetic on the length field, and the text of
the block that is handed out.
-/
import TgServer.RequestStream

namespace TgServer

open Bytes ByteStream

universe u

variable {σ : Type u}

section Safety

variable {client : TGClient} (hsock : 0 ≤ client.sockfd)
variable {read : Descriptor σ} (hwithin : ReadsWithin read)
variable (junk : σ → Nat → Byte) {s s' : σ} {buf : List Byte} {size : Nat}
variable (hread : read s bufSize = (.data buf, s')) (hfour : 4 ≤ buf.length)
variable (hlength : intAt buf = size) (hpos : 1 ≤ size)
variable (hmax : size < 2 ^ 31 - 1) (pType : Int)
variable (ppData : Option (List Byte))

include hsock hwithin hread hfour hlength hpos hmax

/-- A first read of the length field and of no more than the request: the call
makes at most `size` further reads, it goes on from every round of its loop,
where the two counters add up to `size` and what is asked for fits in the block,
and it delivers the request whole or, if a read returns nothing before it is
complete, quits. -/
theorem readDataFromCli_oneFrame (hle : buf.length ≤ 4 + size) :
    (readDataFromCli (some client) (logged read) (fun fd => junk fd.1) (s, [])
        pType ppData).map (Prod.map id Prod.fst) =
      readDataFromCli (some client) read junk s pType ppData ∧
    (∀ l, (restLoop (logged read)
        (.start (s', [(bufSize, .data buf)]) buf size)).Reachable l →
      (buf.length < 4 + size → ∃ rounds, l.lastLen ≤ rounds ∧
        readDataFromCli (some client) (logged read) (fun fd => junk fd.1)
          (s, []) pType ppData =
        (l.rest (logged read) rounds).map (restOutcome ppData)) ∧
      l.readLen + l.lastLen = size ∧ l.pDataBuf.length = size + 1 ∧
      ∀ octets, octets.length ≤ l.lastLen →
        store l.pDataBuf l.readLen octets ≠ none) ∧
    ∃ fd log, log.length ≤ size ∧
      ((∃ pDataBuf,
          readDataFromCli (some client) (logged read) (fun fd => junk fd.1)
            (s, []) pType ppData =
              some (⟨0, msgTypeClientRequest, some pDataBuf⟩, fd,
                (bufSize, .data buf) :: log) ∧
          pDataBuf.length = size + 1 ∧
          pDataBuf.take size = buf.drop 4 ++ received log ∧
          ∀ entry ∈ log, entry.2.octets ≠ []) ∨
        (readDataFromCli (some client) (logged read) (fun fd => junk fd.1)
            (s, []) pType ppData =
              some (⟨0, msgTypeClientQuit, ppData⟩, fd,
                (bufSize, .data buf) :: log) ∧
          (buf.drop 4 ++ received log).length < size ∧
          ∃ before last, log = before ++ [last] ∧ last.2.octets = [] ∧
            ∀ entry ∈ before, entry.2.octets ≠ [])) := by
  have hstart : RestLocals.Inv (buf.drop 4) [(bufSize, .data buf)] size
      (.start (s', [(bufSize, .data buf)]) buf size) [] :=
    RestLocals.Inv.start rfl (by omega)
  have hlogged : logged read (s, []) bufSize =
      (.data buf, s', [(bufSize, .data buf)]) := by
    simp only [logged, hread, List.nil_append]
  refine ⟨readDataFromCli_logged read junk s [] pType ppData, ?_, ?_⟩
  · intro l hreach
    obtain ⟨log, hinv⟩ := restLoop_inv hwithin hstart hreach
    refine ⟨fun hlt => ?_, hinv.sum, hinv.length_block,
      fun octets hoctets => ?_⟩
    · obtain ⟨rounds, hrounds, hrest⟩ :=
        restLoop_rest hreach (Nat.le_refl (size - (buf.length - 4)))
      refine ⟨rounds, hrounds, ?_⟩
      rw [readDataFromCli_long hsock (fun fd => junk fd.1) pType ppData hlogged
        hfour hlength hmax hlt, hrest]
    · rw [hinv.store_within hoctets]
      exact Option.some_ne_none _
  by_cases hlt : buf.length < 4 + size
  swap
  · -- the first read returned all of the request
    have hcall := readDataFromCli_short hsock (fun fd => junk fd.1) pType
      ppData hlogged hlength hpos hmax (Nat.le_of_not_lt hlt)
    have hdrop : (buf.drop 4).length = size := by
      rw [List.length_drop]
      omega
    rw [List.take_of_length_le (Nat.le_of_eq hdrop)] at hcall
    refine ⟨s', [], Nat.zero_le _, .inl ⟨_, hcall, ?_, ?_, ?_⟩⟩
    · rw [List.length_append, hdrop, List.length_singleton]
    · rw [List.take_left' hdrop, received_nil, List.append_nil]
    · exact fun entry hentry => by cases hentry
  have hcall := readDataFromCli_long hsock (fun fd => junk fd.1) pType ppData
    hlogged hfour hlength hmax hlt
  obtain ⟨fd, log, hdata, hrest⟩ := hstart.rest hwithin (Nat.le_refl _)
  have hcost := length_le_received hdata
  rcases hrest with ⟨hfull, hsize⟩ | ⟨count, result, hstop, hnone, hsize⟩
  · rw [List.length_append] at hsize
    refine ⟨fd, log, by omega, .inl ⟨buf.drop 4 ++ received log ++ [0], ?_,
      ?_, ?_, hdata⟩⟩
    · rw [hcall]
      simp only [RestLocals.start] at hfull ⊢
      rw [hfull]
      rfl
    · rw [List.length_append, List.length_append, hsize,
        List.length_singleton]
    · rw [List.take_left' (by rw [List.length_append, hsize])]
  · have hreceived : received (log ++ [(count, result)]) = received log := by
      rw [received_snoc, hnone, List.append_nil]
    have hshort := hsize
    rw [List.length_append] at hshort
    refine ⟨fd, log ++ [(count, result)], ?_, .inr ⟨?_, ?_, log,
      (count, result), rfl, hnone, hdata⟩⟩
    · rw [List.length_append, List.length_singleton]
      omega
    · rw [hcall]
      simp only [RestLocals.start] at hstop ⊢
      rw [hstop]
      rfl
    · rw [hreceived]
      exact hsize

end Safety

/-- A value an `int` can have. -/
def FitsInt (x : Int) : Prop := -2 ^ 31 ≤ x ∧ x < 2 ^ 31

instance (x : Int) : Decidable (FitsInt x) :=
  inferInstanceAs (Decidable (_ ∧ _))

/-- What the shifts and disjunctions that decode the length field denote when
no width limits them. -/
def shiftedSize (buf : List Byte) : Int :=
  (buf.getD 3 0).toNat * 2 ^ 24 + (buf.getD 2 0).toNat * 2 ^ 16 +
    (buf.getD 1 0).toNat * 2 ^ 8 + (buf.getD 0 0).toNat

/-- Nothing overflows on the way past `size<=0`: not the decoding, not
`size-readLen`, not `size+1`. -/
def ArithmeticSafe (buf : List Byte) : Prop :=
  0 < intAt buf → FitsInt (shiftedSize buf) ∧
    FitsInt (intAt buf - ((buf.length - 4 : Nat) : Int)) ∧
    FitsInt (intAt buf + 1)

instance (buf : List Byte) : Decidable (ArithmeticSafe buf) :=
  inferInstanceAs (Decidable (_ → _))

theorem intAt_eq_shiftedSize (buf : List Byte) :
    intAt buf = if shiftedSize buf < 2 ^ 31 then shiftedSize buf
      else shiftedSize buf - 2 ^ 32 := by
  have hword := word_toNat (buf.getD 0 0) (buf.getD 1 0) (buf.getD 2 0)
    (buf.getD 3 0)
  rw [intAt, toInt_toInt32, wordAt, hword, shiftedSize]
  split <;> split <;> omega

theorem shiftedSize_nonneg (buf : List Byte) :
    0 ≤ shiftedSize buf ∧ shiftedSize buf < 2 ^ 32 := by
  have h0 := (buf.getD 0 0).toNat_lt
  have h1 := (buf.getD 1 0).toNat_lt
  have h2 := (buf.getD 2 0).toNat_lt
  have h3 := (buf.getD 3 0).toNat_lt
  rw [shiftedSize]
  omega

/-- The decoded size is the largest `int` for one length field only. -/
theorem intAt_eq_max_iff {buf : List Byte} (hfour : 4 ≤ buf.length) :
    intAt buf = 2 ^ 31 - 1 ↔ buf.take 4 = [0xff, 0xff, 0xff, 0x7f] := by
  obtain ⟨b0, b1, b2, b3, rest, rfl⟩ :
      ∃ b0 b1 b2 b3 rest, buf = b0 :: b1 :: b2 :: b3 :: rest := by
    rcases buf with _ | ⟨b0, _ | ⟨b1, _ | ⟨b2, _ | ⟨b3, rest⟩⟩⟩⟩
    · simp at hfour
    · simp at hfour
    · simp at hfour
    · simp at hfour
    · exact ⟨b0, b1, b2, b3, rest, rfl⟩
  rw [intAt_eq_shiftedSize, shiftedSize]
  simp only [List.getD_cons_zero, List.getD_cons_succ, List.take_succ_cons,
    List.take_zero, List.cons.injEq, and_true, ← UInt8.toNat_inj]
  have h0 := b0.toNat_lt
  have h1 := b1.toNat_lt
  have h2 := b2.toNat_lt
  have h3 := b3.toNat_lt
  change _ ↔ b0.toNat = 255 ∧ b1.toNat = 255 ∧ b2.toNat = 255 ∧ b3.toNat = 127
  constructor
  · intro hmax
    split at hmax <;> omega
  · rintro ⟨hb0, hb1, hb2, hb3⟩
    rw [hb0, hb1, hb2, hb3]
    decide

section Arithmetic

variable {client : TGClient} (hsock : 0 ≤ client.sockfd)
variable {read : Descriptor σ} (hwithin : ReadsWithin read)
variable (junk : σ → Nat → Byte) {s s' : σ} {buf : List Byte}
variable (hread : read s bufSize = (.data buf, s')) (hfour : 4 ≤ buf.length)
variable (pType : Int) (ppData : Option (List Byte))

include hsock hwithin hread hfour

/-- Whatever the later reads return, a call is defined unless the length field
is the largest `int`. -/
theorem readDataFromCli_defined (hmax : intAt buf < 2 ^ 31 - 1) :
    readDataFromCli (some client) read junk s pType ppData ≠ none := by
  have hnot : ¬ client.sockfd < 0 := by omega
  have hfew : ¬ buf.length < 4 := by omega
  by_cases hpos : intAt buf ≤ 0
  · simp [readDataFromCli, hread, hnot, hfew, hpos]
  obtain ⟨size, hsize⟩ := Int.eq_ofNat_of_zero_le (a := intAt buf) (by omega)
  by_cases hlt : buf.length < 4 + size
  · intro hnone
    obtain ⟨hlogged, -, fd, log, -, ⟨pDataBuf, hcall, -⟩ | ⟨hcall, -⟩⟩ :=
      readDataFromCli_oneFrame hsock hwithin junk hread hfour hsize (by omega)
        (by omega) pType ppData (Nat.le_of_lt hlt)
    · rw [hcall, hnone] at hlogged
      cases hlogged
    · rw [hcall, hnone] at hlogged
      cases hlogged
  · rw [readDataFromCli_short hsock junk pType ppData hread hsize (by omega)
      (by omega) (Nat.le_of_not_lt hlt)]
    exact Option.some_ne_none _

/-- The arithmetic on the length field is safe, and everything stored fits in
what was allocated, for every length field but the largest `int`. -/
theorem arithmeticSafe_iff :
    (ArithmeticSafe buf ∧
      readDataFromCli (some client) read junk s pType ppData ≠ none) ↔
    buf.take 4 ≠ [0xff, 0xff, 0xff, 0x7f] := by
  have hshifted := intAt_eq_shiftedSize buf
  have hrange := shiftedSize_nonneg buf
  have hbuf : buf.length ≤ bufSize := by
    have hle := hwithin s bufSize
    rwa [hread] at hle
  rw [ne_eq, ne_eq, ← intAt_eq_max_iff hfour]
  constructor
  · rintro ⟨hsafe, -⟩ hmax
    have hone := (hsafe (by rw [hmax]; decide)).2.2
    rw [hmax] at hone
    exact absurd hone (by decide)
  · intro hmax
    have hlt : intAt buf < 2 ^ 31 - 1 := by
      split at hshifted <;> omega
    refine ⟨fun hpos => ?_,
      readDataFromCli_defined hsock hwithin junk hread hfour pType ppData hlt⟩
    simp only [FitsInt, bufSize] at hbuf ⊢
    split at hshifted <;> omega

end Arithmetic

/-- The string a caller finds in the block that is handed out; `none` also if
it runs past the end of the block. -/
def deliveredText (called : Option (ReadOutcome × σ)) : Option (List Byte) :=
  called.bind fun returned => returned.1.ppData.bind cString

/-- The string that is delivered for a request with nothing behind it is the
request up to its first NUL when it takes a further read to get it; when one
read returned all of it, that depends on a NUL in the request or in the octet
that is left as `malloc` returned it. -/
theorem deliveredText_iff {client : TGClient} (hsock : 0 ≤ client.sockfd)
    {payload : List Byte} (hpos : 1 ≤ payload.length)
    (hmax : payload.length ≤ 251) {src : Source}
    (hsrc : src.octets = frame payload)
    (hfour : 4 ≤ (src.chunk 0 bufSize).length) (junk : Nat → Nat → Byte)
    (pType : Int) (ppData : Option (List Byte)) :
    deliveredText (readDataFromCli (some client) src.read junk 0 pType ppData) =
        some (payload.takeWhile (· != 0)) ↔
      (src.chunk 0 bufSize).length < (frame payload).length ∨
        0 ∈ payload ∨ junk 0 payload.length = 0 := by
  have hstream : src.octets.drop 0 = frame payload ++ [] := by
    rw [List.drop_zero, hsrc, List.append_nil]
  by_cases hlt : (src.chunk 0 bufSize).length < (frame payload).length
  · rw [readDataFromCli_within hsock src junk (by omega) hstream hfour hlt]
    refine ⟨fun _ => .inl hlt, fun _ => ?_⟩
    have hends : cString (payload ++ [0]) =
        some (payload.takeWhile (· != 0)) :=
      (cString_snoc payload 0).mpr (.inr rfl)
    exact hends
  · have hwhole := readDataFromCli_whole hsock src junk hpos (by omega) hstream
      (Nat.le_of_not_lt hlt) pType ppData
    rw [hwhole, or_iff_right hlt, ← cString_snoc]
    rfl

namespace FrameReads

open RequestStream (client)

/-- A request of three octets, at most five octets a read. -/
def source : Source := ⟨frame (ascii "a/b"), fun _ => 5⟩

theorem readDataFromCli_oneFrame_source :
    (readDataFromCli (some client) (logged source.read) (fun _ _ => 7) (0, [])
        0 none).map (Prod.map id Prod.fst) =
      readDataFromCli (some client) source.read (fun _ _ => 7) 0 0 none ∧
    (∀ l, (restLoop (logged source.read)
        (.start (5, [(bufSize, .data (le32 3 ++ ascii "a"))])
          (le32 3 ++ ascii "a") 3)).Reachable l →
      ((le32 3 ++ ascii "a").length < 4 + 3 → ∃ rounds, l.lastLen ≤ rounds ∧
        readDataFromCli (some client) (logged source.read) (fun _ _ => 7)
          (0, []) 0 none =
        (l.rest (logged source.read) rounds).map (restOutcome none)) ∧
      l.readLen + l.lastLen = 3 ∧ l.pDataBuf.length = 4 ∧
      ∀ octets, octets.length ≤ l.lastLen →
        store l.pDataBuf l.readLen octets ≠ none) ∧
    ∃ fd log, log.length ≤ 3 ∧
      ((∃ pDataBuf,
          readDataFromCli (some client) (logged source.read) (fun _ _ => 7)
            (0, []) 0 none =
              some (⟨0, msgTypeClientRequest, some pDataBuf⟩, fd,
                (bufSize, .data (le32 3 ++ ascii "a")) :: log) ∧
          pDataBuf.length = 4 ∧
          pDataBuf.take 3 = ascii "a" ++ received log ∧
          ∀ entry ∈ log, entry.2.octets ≠ []) ∨
        (readDataFromCli (some client) (logged source.read) (fun _ _ => 7)
            (0, []) 0 none =
              some (⟨0, msgTypeClientQuit, none⟩, fd,
                (bufSize, .data (le32 3 ++ ascii "a")) :: log) ∧
          (ascii "a" ++ received log).length < 3 ∧
          ∃ before last, log = before ++ [last] ∧ last.2.octets = [] ∧
            ∀ entry ∈ before, entry.2.octets ≠ [])) :=
  readDataFromCli_oneFrame (show 0 ≤ client.sockfd by decide)
    (source.readsWithin) (fun _ _ => 7) (by decide) (by decide) (by decide)
    (by decide) (by decide) 0 none (by decide)

/-- The socket of a client that sends these octets and nothing more. -/
def sends (octets : List Byte) : Source := ⟨octets, fun _ => bufSize⟩

theorem arithmeticSafe_iff_two :
    (ArithmeticSafe (le32 2) ∧
      readDataFromCli (some client) (sends (le32 2)).read (fun _ _ => 7) 0 0
        none ≠ none) ↔
    (le32 2).take 4 ≠ [0xff, 0xff, 0xff, 0x7f] :=
  arithmeticSafe_iff (show 0 ≤ client.sockfd by decide)
    (sends (le32 2)).readsWithin (fun _ _ => 7)
    (show (sends (le32 2)).read 0 bufSize = (.data (le32 2), 4) by decide)
    (by decide) 0 none

/-- The largest `int`: one octet more cannot be asked for. -/
theorem arithmeticSafe_max :
    ¬ (ArithmeticSafe [0xff, 0xff, 0xff, 0x7f] ∧
      readDataFromCli (some client) (sends [0xff, 0xff, 0xff, 0x7f]).read
        (fun _ _ => 7) 0 0 none ≠ none) ∧
    intAt [0xff, 0xff, 0xff, 0x7f] = 2 ^ 31 - 1 ∧
    ¬ FitsInt (intAt [0xff, 0xff, 0xff, 0x7f] + 1) ∧
    readDataFromCli (some client) (sends [0xff, 0xff, 0xff, 0x7f]).read
      (fun _ _ => 7) 0 0 none = none := by
  decide

theorem deliveredText_iff_split :
    deliveredText (readDataFromCli (some client) source.read (fun _ _ => 7) 0 0
        none) = some ((ascii "a/b").takeWhile (· != 0)) ↔
      (source.chunk 0 bufSize).length < (frame (ascii "a/b")).length ∨
        0 ∈ ascii "a/b" ∨ (7 : Byte) = 0 :=
  deliveredText_iff (show 0 ≤ client.sockfd by decide) (by decide) (by decide)
    rfl (by decide) (fun _ _ => 7) 0 none

/-- The same request in several reads and in one, in memory that held 7: the
string in the second block does not end. -/
theorem deliveredText_unterminated :
    deliveredText (readDataFromCli (some client) source.read (fun _ _ => 7) 0 0
        none) = some (ascii "a/b") ∧
    deliveredText (readDataFromCli (some client)
        (sends (frame (ascii "a/b"))).read (fun _ _ => 7) 0 0 none) = none ∧
    (ascii "a/b").takeWhile (· != 0) = ascii "a/b" := by
  decide

end FrameReads

end TgServer
