/-
Streams of frames that start with their own total length: what a reader that
repeatedly takes a little-endian length and then the rest makes of a stream.
-/
import TgServer.Bytes

namespace Framing

open Bytes

/-- A body behind its frame length, which counts the four octets of the length
as well. -/
def encode (body : List Byte) : List Byte :=
  le32 (4 + body.length) ++ body

/-- The first body of a stream and what comes behind it; `none` when the
stream holds no whole frame. -/
def decodeOne (stream : List Byte) : Option (List Byte × List Byte) :=
  let size := (wordAt stream).toNat
  if stream.length < 4 ∨ size < 4 ∨ stream.length < size then none
  else some ((stream.take size).drop 4, stream.drop size)

/-- The bodies of at most `rounds` frames. -/
def decodeRounds : Nat → List Byte → List (List Byte)
  | 0, _ => []
  | rounds + 1, stream =>
      match decodeOne stream with
      | none => []
      | some (body, rest) => body :: decodeRounds rounds rest

/-- The bodies of all frames; no stream holds more frames than octets. -/
def decode (stream : List Byte) : List (List Byte) :=
  decodeRounds stream.length stream

theorem decodeOne_shorter {stream body rest : List Byte}
    (hone : decodeOne stream = some (body, rest)) :
    rest.length < stream.length := by
  rw [decodeOne] at hone
  split at hone
  · cases hone
  · rw [Option.some.injEq, Prod.mk.injEq] at hone
    rw [← hone.2, List.length_drop]
    omega

/-- More rounds than octets change nothing. -/
theorem decodeRounds_eq {rounds more : Nat} {stream : List Byte}
    (hrounds : stream.length ≤ rounds) (hmore : stream.length ≤ more) :
    decodeRounds rounds stream = decodeRounds more stream := by
  induction rounds generalizing more stream with
  | zero =>
      have hnil : stream = [] := by simpa using hrounds
      subst hnil
      cases more with
      | zero => rfl
      | succ more => rfl
  | succ rounds ih =>
      cases more with
      | zero =>
          have hnil : stream = [] := by simpa using hmore
          subst hnil
          rfl
      | succ more =>
          rw [decodeRounds, decodeRounds]
          cases hone : decodeOne stream with
          | none => rfl
          | some pair =>
              have hlt := decodeOne_shorter hone
              have hsame : decodeRounds rounds pair.2 =
                  decodeRounds more pair.2 := ih (by omega) (by omega)
              simp only [hsame]

/-- A stream without a whole frame has no bodies. -/
theorem decode_none {stream : List Byte} (hone : decodeOne stream = none) :
    decode stream = [] := by
  rw [decode]
  cases stream.length with
  | zero => rfl
  | succ rounds => rw [decodeRounds, hone]

/-- The frames behind the first one are decoded from its end on. -/
theorem decode_some {stream body rest : List Byte}
    (hone : decodeOne stream = some (body, rest)) :
    decode stream = body :: decode rest := by
  have hlt := decodeOne_shorter hone
  obtain ⟨rounds, hrounds⟩ : ∃ rounds, stream.length = rounds + 1 :=
    Nat.exists_eq_succ_of_ne_zero (by omega)
  rw [decode, hrounds, decodeRounds, hone]
  simp only
  rw [decode, decodeRounds_eq (by omega) (Nat.le_refl _)]

theorem decodeOne_encode (body rest : List Byte)
    (hsize : 4 + body.length < 2 ^ 32) :
    decodeOne (encode body ++ rest) = some (body, rest) := by
  have hword : (wordAt (encode body ++ rest)).toNat = 4 + body.length := by
    rw [encode, List.append_assoc]
    exact wordAt_le32_append _ hsize _
  have hlength : (encode body).length = 4 + body.length := by simp [encode]
  rw [decodeOne, hword, if_neg]
  · rw [List.take_left' hlength, List.drop_left' hlength, encode,
      List.drop_left' (length_le32 _)]
  · rw [List.length_append, hlength]
    omega

/-- A frame at the head of a stream is recovered whatever follows it. -/
theorem decode_encode (body rest : List Byte)
    (hsize : 4 + body.length < 2 ^ 32) :
    decode (encode body ++ rest) = body :: decode rest :=
  decode_some (decodeOne_encode body rest hsize)

end Framing
