/-
What `read` may return, and finite streams whose reads return as many octets
as happen to be there.  A stream is read once at each offset at most, so how
much a read finds is given by the offset it starts at.
-/
import TgServer.Bytes

namespace ByteStream

open Bytes

universe u

/-- `failed` is the result -1; no octets is end of file. -/
inductive ReadResult where
  | failed
  | data (octets : List Byte)
deriving Repr, DecidableEq

/-- `read(fd, buf, count)` on a descriptor in some state. -/
abbrev Descriptor (σ : Type u) := σ → Nat → ReadResult × σ

/-- The octets a read stored into its buffer. -/
def ReadResult.octets : ReadResult → List Byte
  | .failed => []
  | .data octets => octets

/-- No read returns more than it was asked for. -/
def ReadsWithin {σ : Type u} (read : Descriptor σ) : Prop :=
  ∀ s count, (read s count).1.octets.length ≤ count

/-- What each read was asked for and what it returned, in order. -/
abbrev Log := List (Nat × ReadResult)

/-- A descriptor that keeps a log of its reads. -/
def logged {σ : Type u} (read : Descriptor σ) : Descriptor (σ × Log) :=
  fun (s, log) count =>
    ((read s count).1, (read s count).2, log ++ [(count, (read s count).1)])

/-- All octets that were read. -/
def received (log : Log) : List Byte :=
  log.flatMap fun entry => entry.2.octets

@[simp] theorem received_nil : received [] = [] := rfl

@[simp] theorem received_snoc (log : Log) (entry : Nat × ReadResult) :
    received (log ++ [entry]) = received log ++ entry.2.octets := by
  simp [received]

/-- Reads that return something cost at least one octet each. -/
theorem length_le_received {log : Log}
    (hdata : ∀ entry ∈ log, entry.2.octets ≠ []) :
    log.length ≤ (received log).length := by
  induction log with
  | nil => exact Nat.le_refl 0
  | cons entry rest ih =>
      have hpos := List.length_pos_iff.mpr (hdata entry List.mem_cons_self)
      have hrest := ih fun other hother =>
        hdata other (List.mem_cons_of_mem _ hother)
      simp only [received, List.flatMap_cons, List.length_append,
        List.length_cons] at hrest ⊢
      omega

/-- A stream that ends, and how many octets a read at an offset would find. -/
structure Source where
  octets : List Byte
  avail : Nat → Nat

namespace Source

/-- What the next read would return. -/
def chunk (src : Source) (offset count : Nat) : List Byte :=
  (src.octets.drop offset).take (min count (max 1 (src.avail offset)))

/-- Reading moves the offset past what was returned. -/
def read (src : Source) : Descriptor Nat := fun offset count =>
  (.data (src.chunk offset count), offset + (src.chunk offset count).length)

theorem length_chunk (src : Source) (offset count : Nat) :
    (src.chunk offset count).length =
      min (min count (max 1 (src.avail offset)))
        (src.octets.length - offset) := by
  simp [chunk]

theorem chunk_length_le (src : Source) (offset count : Nat) :
    (src.chunk offset count).length ≤ count := by
  rw [length_chunk]
  omega

theorem chunk_pos (src : Source) {offset count : Nat} (hcount : 0 < count)
    (hlt : offset < src.octets.length) :
    0 < (src.chunk offset count).length := by
  rw [length_chunk]
  omega

theorem chunk_end (src : Source) {offset : Nat} (count : Nat)
    (hle : src.octets.length ≤ offset) : src.chunk offset count = [] := by
  rw [chunk, List.drop_eq_nil_of_le hle, List.take_nil]

theorem chunk_eq_take (src : Source) (offset count : Nat) :
    src.chunk offset count =
      (src.octets.drop offset).take (src.chunk offset count).length := by
  rw [length_chunk, chunk, List.take_eq_take_iff, List.length_drop]
  omega

theorem readsWithin (src : Source) : ReadsWithin src.read :=
  fun offset count => src.chunk_length_le offset count

/-- What a read returns and what follows it are one piece of the stream. -/
theorem chunk_append_take (src : Source) (offset count total : Nat)
    (hle : (src.chunk offset count).length ≤ total) :
    src.chunk offset count ++
        (src.octets.drop (offset + (src.chunk offset count).length)).take
          (total - (src.chunk offset count).length) =
      (src.octets.drop offset).take total := by
  generalize hlength : (src.chunk offset count).length = n at hle ⊢
  have hchunk := src.chunk_eq_take offset count
  rw [hlength] at hchunk
  rw [hchunk, ← List.drop_drop, ← List.take_add, Nat.add_sub_cancel' hle]

/-- No read passes the end of the stream. -/
theorem chunk_within (src : Source) {offset : Nat} (count : Nat)
    (hle : offset ≤ src.octets.length) :
    offset + (src.chunk offset count).length ≤ src.octets.length := by
  rw [length_chunk]
  omega

end Source

end ByteStream
