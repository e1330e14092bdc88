/-
What the loop of `__read_conf_file` gets from `fgets`: the lines of the file,
but a line that does not fit the buffer in several parts.
-/
import TgServer.Configuration
import TgServer.Lines

namespace TgServer

open Bytes Lines

/-- The lines of a file. -/
def physicalLines (content : List Byte) : List (List Byte) :=
  lines (char '\n') content

theorem flatten_physicalLines (content : List Byte) :
    (physicalLines content).flatten = content :=
  flatten_lines (char '\n') content

theorem lined_physicalLines (content : List Byte) :
    Lined (char '\n') (physicalLines content) :=
  lined_lines (char '\n') content

/-- A file that can be opened is read part by part. -/
theorem readConfFile_opened {host : Host} {path content : List Byte}
    (hpath : path ≠ []) (hopen : host.fopen path = some content)
    (s : Server) : readConfFile host path s =
      (fileLines content.length content).foldlM confLine s := by
  rw [readConfFile, if_neg hpath, hopen]

/-- Within the buffer `fgets` takes a line as it is. -/
theorem fgets_line {body : List Byte} (hbody : char '\n' ∉ body) {n : Nat}
    (hn : body.length < n) (rest : List Byte) :
    fgets n (body ++ [char '\n'] ++ rest) = (body ++ [char '\n'], rest) := by
  induction body generalizing n with
  | nil =>
      cases n with
      | zero => exact absurd hn (Nat.not_lt_zero _)
      | succ n => rfl
  | cons c body ih =>
      cases n with
      | zero => exact absurd hn (Nat.not_lt_zero _)
      | succ n =>
          rw [List.mem_cons, not_or] at hbody
          have hrest := ih hbody.2 (Nat.lt_of_succ_lt_succ hn)
          rw [List.cons_append, List.cons_append, fgets,
            if_neg (Ne.symm hbody.1), hrest]

/-- Without a newline it takes what there is room for. -/
theorem fgets_part {front : List Byte} (hfront : char '\n' ∉ front) {n : Nat}
    {rest : List Byte} (hroom : front.length = n ∨ front.length ≤ n ∧ rest = []) :
    fgets n (front ++ rest) = (front, rest) := by
  induction front generalizing n with
  | nil =>
      rcases hroom with hn | ⟨-, rfl⟩
      · obtain rfl : n = 0 := hn.symm
        rfl
      · cases n <;> rfl
  | cons c front ih =>
      cases n with
      | zero => simp at hroom
      | succ n =>
          rw [List.mem_cons, not_or] at hfront
          have hrest := ih hfront.2 (hroom.imp Nat.succ.inj fun h =>
            ⟨Nat.le_of_succ_le_succ h.1, h.2⟩)
          rw [List.cons_append, fgets, if_neg (Ne.symm hfront.1), hrest]

theorem length_fgets_le (n : Nat) (stream : List Byte) :
    (fgets n stream).1.length ≤ n := by
  induction n generalizing stream with
  | zero => exact Nat.le_refl 0
  | succ n ih =>
      cases stream with
      | nil => exact Nat.zero_le _
      | cons c rest =>
          rw [fgets]
          split
          · simp
          · exact Nat.succ_le_succ (ih rest)

/-- No part is longer than the buffer has room for. -/
theorem length_fileLines_lt {reads : Nat} {stream line : List Byte}
    (hline : line ∈ fileLines reads stream) : line.length < lineBufSize := by
  induction reads generalizing stream with
  | zero => cases hline
  | succ reads ih =>
      rw [fileLines] at hline
      split at hline
      · cases hline
      · rcases List.mem_cons.mp hline with rfl | hline
        · have hle := length_fgets_le (lineBufSize - 1) stream
          rw [lineBufSize] at hle ⊢
          omega
        · exact ih hline

/-- The parts of a line are read one after the other, of which there is one if
it fits, and then what comes behind it. -/
theorem fileLines_cons {line : List Byte} {ls : List (List Byte)}
    (hlined : Lined (char '\n') (line :: ls)) {reads : Nat}
    (hreads : (line ++ ls.flatten).length ≤ reads) :
    ∃ parts more, fileLines reads (line ++ ls.flatten) =
        parts ++ fileLines more ls.flatten ∧
      ls.flatten.length ≤ more ∧ parts.flatten = line ∧
      (line.length < lineBufSize → parts = [line]) := by
  induction reads generalizing line with
  | zero =>
      have hsome := (hlined.line line List.mem_cons_self).ne_nil
      have hpos := List.length_pos_iff.mpr hsome
      rw [List.length_append] at hreads
      omega
  | succ reads ih =>
      have hsome := (hlined.line line List.mem_cons_self).ne_nil
      have hpos := List.length_pos_iff.mpr hsome
      have hstream : line ++ ls.flatten ≠ [] :=
        List.append_ne_nil_of_left_ne_nil hsome _
      rw [List.length_append] at hreads
      rw [fileLines, if_neg hstream]
      by_cases hshort : line.length < lineBufSize
      · have hget : fgets (lineBufSize - 1) (line ++ ls.flatten) =
            (line, ls.flatten) := by
          rcases hlined.cases with ⟨body, hbody, rfl⟩ | ⟨hfree, -, rfl⟩
          · rw [List.length_append, List.length_singleton] at hshort
            exact fgets_line hbody (by omega) _
          · exact fgets_part hfree (Or.inr ⟨by omega, rfl⟩)
        refine ⟨[line], reads, ?_, by omega, by simp, fun _ => rfl⟩
        rw [hget]
        rfl
      · have hlong : lineBufSize - 1 < line.length := by
          rw [lineBufSize] at hshort ⊢
          omega
        obtain ⟨hfree, hrest⟩ := hlined.drop hlong
        have hsplit := List.take_append_drop (lineBufSize - 1) line
        have hlength : (line.take (lineBufSize - 1)).length =
            lineBufSize - 1 := List.length_take_of_le (Nat.le_of_lt hlong)
        have hget : fgets (lineBufSize - 1) (line ++ ls.flatten) =
            (line.take (lineBufSize - 1),
              line.drop (lineBufSize - 1) ++ ls.flatten) := by
          have hpart := @fgets_part _ hfree (lineBufSize - 1)
            (line.drop (lineBufSize - 1) ++ ls.flatten) (Or.inl hlength)
          rwa [← List.append_assoc, hsplit] at hpart
        obtain ⟨parts, more, hread, hmore, hparts, -⟩ := ih hrest (by
          rw [List.length_append, List.length_drop, lineBufSize]
          omega)
        refine ⟨line.take (lineBufSize - 1) :: parts, more, ?_, hmore, ?_,
          fun h => absurd h hshort⟩
        · rw [hget]
          simp only [hread, List.cons_append]
        · rw [List.flatten_cons, hparts, hsplit]

/-- Lines that fit are read one at a time. -/
theorem fileLines_fit {ls : List (List Byte)} (hlined : Lined (char '\n') ls)
    (hfit : ∀ line ∈ ls, line.length < lineBufSize) {reads : Nat}
    (hreads : ls.flatten.length ≤ reads) : fileLines reads ls.flatten = ls := by
  induction ls generalizing reads with
  | nil => cases reads <;> rfl
  | cons line ls ih =>
      rw [List.flatten_cons] at hreads ⊢
      obtain ⟨parts, more, hread, hmore, -, hparts⟩ :=
        fileLines_cons hlined hreads
      rw [hread, hparts (hfit line List.mem_cons_self),
        ih hlined.tail (fun other hother =>
          hfit other (List.mem_cons_of_mem line hother)) hmore]
      rfl

theorem fileLines_physical {content : List Byte}
    (hfit : ∀ line ∈ physicalLines content, line.length < lineBufSize) :
    fileLines content.length content = physicalLines content := by
  have hread := fileLines_fit (lined_physicalLines content) hfit (Nat.le_refl _)
  rwa [flatten_physicalLines] at hread

end TgServer
