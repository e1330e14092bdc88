/-
The settings that `__read_conf_file` makes of the lines of a file: which lines
it passes over, where it stops, and which lines it takes as a whole.
-/
import TgServer.Setting
import Mathlib.Logic.Function.Basic

namespace TgServer

open Bytes Lines

def confKey (line : List Byte) : List Byte :=
  line.takeWhile (· != char '=')

def confValue (line : List Byte) : List Byte :=
  (line.dropWhile (· != char '=')).drop 1

/-- The key of a line, and the whole text behind its first '='. -/
def linePair (line : List Byte) : Option (List Byte × List Byte) :=
  if char '=' ∈ line then some (confKey line, confValue line) else none

/-- The key and the value that a round of the loop finds in its buffer. -/
def confPair (buf : List Byte) : Option (List Byte × List Byte) :=
  let line := buf.takeWhile (· != 0)
  if line = [] ∨ line.getD 0 0 = char '\n' then none else linePair line

/-- What it does with them. -/
def confStore (s : Server) (pair : List Byte × List Byte) : Option Server :=
  let (pPar, pVal) := pair
  if pPar.getD 0 0 ≠ char '[' then parseParameter s (confParameter pPar) pVal
  else if strncmpEq pPar (ascii "[D]") 3 ∧ 3 < pPar.length then
    s.setParameters (pPar.drop 3) pVal
  else some s

/-- The service and its parameter that a setting gives. -/
def serviceLine (pair : List Byte × List Byte) :
    Option (List Byte × List Byte) :=
  let (pPar, pVal) := pair
  if strncmpEq pPar (ascii "[D]") 3 ∧ 3 < pPar.length then
    some (pPar.drop 3, pVal)
  else none

/-- The pairs that are found in a file, and those that its lines are. -/
def filePairs (content : List Byte) : List (List Byte × List Byte) :=
  (fileLines content.length content).filterMap confPair

def linePairs (content : List Byte) : List (List Byte × List Byte) :=
  (physicalLines content).filterMap linePair

section Pairs

theorem split_line {line : List Byte} (hline : char '=' ∈ line) :
    confKey line ++ char '=' :: confValue line = line ∧
      char '=' ∉ confKey line :=
  split_service hline

theorem linePair_some {line key value : List Byte}
    (hpair : linePair line = some (key, value)) :
    key ++ char '=' :: value = line := by
  rw [linePair] at hpair
  split at hpair
  · next hline =>
      simp only [Option.some.injEq, Prod.mk.injEq] at hpair
      obtain ⟨rfl, rfl⟩ := hpair
      exact (split_line hline).1
  · cases hpair

theorem findSeparator_line {line : List Byte} (hline : char '=' ∈ line) :
    findSeparator line (ascii "=") [] = (confKey line).length ∧
      line.take (confKey line).length = confKey line ∧
      line.drop ((confKey line).length + 1) = confValue line :=
  findSeparator_service hline

/-- A round of the loop looks for a pair and stores it. -/
theorem confLine_eq (s : Server) (buf : List Byte) :
    confLine s buf = (confPair buf).elim (some s) (confStore s) := by
  rw [confLine, confPair]
  generalize buf.takeWhile (· != 0) = line
  by_cases hskip : line = [] ∨ line.getD 0 0 = char '\n'
  · simp only [if_pos hskip, Option.elim_none]
  · simp only [if_neg hskip]
    by_cases hline : char '=' ∈ line
    · obtain ⟨hpos, htake, hdrop⟩ := findSeparator_line hline
      have hfound : ¬(((confKey line).length : Int) = -1) := by omega
      rw [linePair, if_pos hline, Option.elim_some, confStore]
      simp only [hpos, if_neg hfound, Int.toNat_natCast, htake, hdrop]
    · have hpos : findSeparator line (ascii "=") [] = -1 :=
        findSeparator_none [] (c := char '=') (by decide) hline
      rw [linePair, if_neg hline, Option.elim_none]
      simp only [hpos, ↓reduceIte]

/-- The file does what its pairs do. -/
theorem foldlM_confLine (bufs : List (List Byte)) (s : Server) :
    bufs.foldlM confLine s = (bufs.filterMap confPair).foldlM confStore s := by
  induction bufs generalizing s with
  | nil => rfl
  | cons buf bufs ih =>
      rw [List.foldlM_cons, confLine_eq]
      cases hpair : confPair buf with
      | none =>
          rw [List.filterMap_cons_none hpair, Option.elim_none]
          exact ih s
      | some pair =>
          rw [List.filterMap_cons_some hpair, Option.elim_some,
            List.foldlM_cons]
          cases confStore s pair with
          | none => rfl
          | some next => exact ih next

theorem confPair_some {buf key value : List Byte}
    (hpair : confPair buf = some (key, value)) :
    key ++ char '=' :: value = buf.takeWhile (· != 0) := by
  rw [confPair] at hpair
  split at hpair
  · cases hpair
  · exact linePair_some hpair

/-- A line with a '=' does not start with a newline. -/
theorem head_ne_newline {c : Byte} {rest : List Byte}
    (hline : IsLine (char '\n') (c :: rest)) (hmem : char '=' ∈ c :: rest) :
    c ≠ char '\n' := by
  obtain ⟨body, hbody, hended | ⟨rfl, -⟩⟩ := hline
  · cases body with
    | nil =>
        rw [hended] at hmem
        exact absurd hmem (by decide)
    | cons d body =>
        rw [List.cons_append, List.cons.injEq] at hended
        rintro rfl
        exact hbody (hended.1 ▸ List.mem_cons_self)
  · rintro rfl
    exact hbody List.mem_cons_self

/-- In a line the loop finds the pair of the text in front of a NUL. -/
theorem confPair_text {line : List Byte} (hline : IsLine (char '\n') line)
    (hmem : char '=' ∈ line.takeWhile (· != 0)) :
    confPair line = linePair (line.takeWhile (· != 0)) := by
  have hread : ¬(line.takeWhile (· != 0) = [] ∨
      (line.takeWhile (· != 0)).getD 0 0 = char '\n') := by
    cases line with
    | nil => cases hmem
    | cons c rest =>
        have hne := head_ne_newline hline
          ((List.takeWhile_sublist _).subset hmem)
        rw [List.takeWhile_cons] at hmem ⊢
        split
        · simpa using hne
        · next hc =>
            rw [if_neg hc] at hmem
            cases hmem
  rw [confPair]
  simp only [if_neg hread]

theorem confPair_none {buf : List Byte} (hbuf : char '=' ∉ buf) :
    confPair buf = none := by
  cases hpair : confPair buf with
  | none => rfl
  | some pair =>
      have hsplit := confPair_some hpair
      have hmem : char '=' ∈ buf.takeWhile (· != 0) := by
        rw [← hsplit]
        simp
      exact absurd ((List.takeWhile_sublist _).subset hmem) hbuf

end Pairs

section WholeLines

/-- The parts of lines that are taken as a whole are their pairs. -/
theorem filterMap_fileLines {ls : List (List Byte)}
    (hlined : Lined (char '\n') ls)
    (hwhole : ∀ line ∈ ls, char '=' ∈ line →
      line.length < lineBufSize ∧ 0 ∉ line) {reads : Nat}
    (hreads : ls.flatten.length ≤ reads) :
    (fileLines reads ls.flatten).filterMap confPair =
      ls.filterMap linePair := by
  induction ls generalizing reads with
  | nil => cases reads <;> rfl
  | cons line ls ih =>
      rw [List.flatten_cons] at hreads ⊢
      obtain ⟨parts, more, hread, hmore, hparts, hone⟩ :=
        fileLines_cons hlined hreads
      have hrest := ih hlined.tail (fun other hother =>
        hwhole other (List.mem_cons_of_mem line hother)) hmore
      have hline := hlined.line line List.mem_cons_self
      rw [hread, List.filterMap_append, hrest]
      by_cases hmem : char '=' ∈ line
      · obtain ⟨hshort, hnul⟩ := hwhole line List.mem_cons_self hmem
        rw [hone hshort, List.filterMap_cons, List.filterMap_cons,
          confPair_text hline (by rwa [takeWhile_nonzero hnul]),
          takeWhile_nonzero hnul, linePair, if_pos hmem]
        rfl
      · have hnone : parts.filterMap confPair = [] := by
          rw [List.filterMap_eq_nil_iff]
          intro part hpart
          refine confPair_none fun hin => hmem ?_
          rw [← hparts]
          exact List.mem_flatten.mpr ⟨part, hpart, hin⟩
        have hskip : linePair line = none := by rw [linePair, if_neg hmem]
        rw [hnone, List.filterMap_cons_none hskip, List.nil_append]

/-- The settings of a file are those of its lines, each at most one with the
whole text behind the first '=', exactly if all lines that have a '=' fit the
buffer and hold no NUL; the settings are all there is to reading the file. -/
theorem readConfFile_lines_iff {host : Host} {path content : List Byte}
    (hpath : path ≠ []) (hopen : host.fopen path = some content) :
    (∀ s, readConfFile host path s =
      (filePairs content).foldlM confStore s) ∧
    (filePairs content = linePairs content ↔
      ∀ line ∈ physicalLines content, char '=' ∈ line →
        line.length < lineBufSize ∧ 0 ∉ line) := by
  constructor
  · intro s
    rw [readConfFile_opened hpath hopen, foldlM_confLine]
    rfl
  · constructor
    · intro hsame line hline hmem
      have hpair : linePair line = some (confKey line, confValue line) := by
        rw [linePair, if_pos hmem]
      have hfound : (confKey line, confValue line) ∈ filePairs content := by
        rw [hsame]
        exact List.mem_filterMap.mpr ⟨line, hline, hpair⟩
      obtain ⟨buf, hbuf, hread⟩ := List.mem_filterMap.mp hfound
      have htext : line = buf.takeWhile (· != 0) := by
        rw [← confPair_some hread, (split_line hmem).1]
      constructor
      · rw [htext]
        exact Nat.lt_of_le_of_lt (List.takeWhile_sublist _).length_le
          (length_fileLines_lt hbuf)
      · rw [htext]
        intro hnul
        have hne := List.mem_takeWhile_imp hnul
        simp at hne
    · intro hwhole
      have hpairs := filterMap_fileLines (lined_physicalLines content) hwhole
        (Nat.le_refl _)
      rwa [flatten_physicalLines] at hpairs

end WholeLines

/-- The keys of the settings that have a letter. -/
def confKeys : List (List Byte) :=
  [ascii "port", ascii "listen", ascii "max-clients", ascii "log-level"]

/-- A line that makes no setting. -/
def Malformed (line : List Byte) : Prop :=
  char '=' ∉ line ∨ confKey line = [] ∨
    ∀ name ∈ ascii "[D]" :: confKeys, ¬ name <+: confKey line

/-- A line whose key, read as a string, is handed to `__parse_parameter` without
a letter. -/
def Unlettered (line : List Byte) : Prop :=
  char '=' ∈ line ∧ 0 ∉ confKey line ∧ (confKey line).getD 0 0 ≠ char '[' ∧
    ∀ name ∈ confKeys, ¬ name <+: confKey line

instance (line : List Byte) : Decidable (Malformed line) :=
  inferInstanceAs (Decidable (_ ∨ _ ∨ _))

instance (line : List Byte) : Decidable (Unlettered line) :=
  inferInstanceAs (Decidable (_ ∧ _ ∧ _ ∧ _))

/-- The file without its malformed lines. -/
def wellFormed (content : List Byte) : List Byte :=
  ((physicalLines content).filter fun line => ¬ Malformed line).flatten

/-- The same host with another file at a path. -/
def Host.rewrite (host : Host) (path content : List Byte) : Host :=
  { host with fopen := Function.update host.fopen path (some content) }

theorem Host.rewrite_fopen (host : Host) (path content : List Byte) :
    (host.rewrite path content).fopen path = some content :=
  Function.update_self ..

/-- Whenever the file without its malformed lines is read to its end, so is the
file, with the same settings. -/
def Unaffected (content : List Byte) : Prop :=
  ∀ (host : Host) (path : List Byte) (s s' : Server), path ≠ [] →
    host.fopen path = some content →
    readConfFile (host.rewrite path (wellFormed content)) path s = some s' →
    readConfFile host path s = some s'

section Malformed

theorem strncmpEq_iff (left right : List Byte) :
    strncmpEq left right right.length = true ↔ right <+: left := by
  rw [strncmpEq, beq_iff_eq, List.take_length, List.prefix_iff_eq_take, eq_comm]

theorem serviceLine_begins {pair line : List Byte × List Byte}
    (hline : serviceLine pair = some line) : ascii "[D]" <+: pair.1 := by
  obtain ⟨pPar, pVal⟩ := pair
  rw [serviceLine] at hline
  split at hline
  · next hservice => exact (strncmpEq_iff pPar (ascii "[D]")).mp hservice.1
  · cases hline

/-- The parameter of a service is set. -/
theorem confStore_line {pair line : List Byte × List Byte}
    (hline : serviceLine pair = some line) (s : Server) :
    pair.1.getD 0 0 = char '[' ∧
      confStore s pair = s.setParameters line.1 line.2 := by
  have hbracket : pair.1.getD 0 0 = char '[' := by
    obtain ⟨rest, hrest⟩ := serviceLine_begins hline
    rw [← hrest]
    rfl
  refine ⟨hbracket, ?_⟩
  obtain ⟨pPar, pVal⟩ := pair
  rw [serviceLine] at hline
  split at hline
  · next hservice =>
      obtain rfl := Option.some.inj hline
      rw [confStore]
      simp only [if_neg (not_not_intro hbracket), if_pos hservice]
  · cases hline

/-- Any other setting is handed on unless its key is in brackets. -/
theorem confStore_other {pair : List Byte × List Byte}
    (hline : serviceLine pair = none) (s : Server) : confStore s pair =
      if pair.1.getD 0 0 ≠ char '[' then
        parseParameter s (confParameter pair.1) pair.2
      else some s := by
  obtain ⟨pPar, pVal⟩ := pair
  rw [serviceLine] at hline
  split at hline
  · cases hline
  · next hnot =>
      rw [confStore]
      simp only [if_neg hnot]

theorem confParameter_none_iff (key : List Byte) :
    confParameter key = none ↔ ∀ name ∈ confKeys, ¬ name <+: key := by
  have hport := strncmpEq_iff key (ascii "port")
  have hlisten := strncmpEq_iff key (ascii "listen")
  have hmax := strncmpEq_iff key (ascii "max-clients")
  have hlog := strncmpEq_iff key (ascii "log-level")
  change strncmpEq key _ 4 = true ↔ _ at hport
  change strncmpEq key _ 6 = true ↔ _ at hlisten
  change strncmpEq key _ 11 = true ↔ _ at hmax
  change strncmpEq key _ 9 = true ↔ _ at hlog
  simp only [confParameter, hport, hlisten, hmax, hlog, confKeys,
    List.forall_mem_cons]
  constructor
  · intro hnone
    split at hnone
    · cases hnone
    · split at hnone
      · cases hnone
      · split at hnone
        · cases hnone
        · split at hnone
          · cases hnone
          · exact ⟨by assumption, by assumption, by assumption, by assumption,
              fun _ hmem => by cases hmem⟩
  · rintro ⟨h1, h2, h3, h4, -⟩
    rw [if_neg h1, if_neg h2, if_neg h3, if_neg h4]

theorem confKey_split {key : List Byte} (hkey : char '=' ∉ key)
    (value : List Byte) : confKey (key ++ char '=' :: value) = key := by
  have hall : ∀ c ∈ key, (c != char '=') = true := fun c hc =>
    bne_iff_ne.mpr fun heq => hkey (heq ▸ hc)
  rw [confKey, List.takeWhile_append_of_pos hall]
  simp

/-- The key the loop finds is that of the line, and a string. -/
theorem confPair_key {line : List Byte} {pair : List Byte × List Byte}
    (hpair : confPair line = some pair) :
    pair.1 = confKey line ∧ char '=' ∈ line ∧ 0 ∉ confKey line := by
  obtain ⟨key, value⟩ := pair
  have hread := confPair_some hpair
  have hkey : char '=' ∉ key := by
    rw [confPair] at hpair
    split at hpair
    · cases hpair
    · rw [linePair] at hpair
      split at hpair
      · next hmem =>
          obtain ⟨rfl, -⟩ := Prod.mk.inj (Option.some.inj hpair)
          exact (split_line hmem).2
      · cases hpair
  have hnul : 0 ∉ key := by
    intro hmem
    have htext : (0 : Byte) ∈ line.takeWhile (· != 0) := by
      rw [← hread]
      exact List.mem_append_left _ hmem
    have hne := List.mem_takeWhile_imp htext
    simp at hne
  have hline : key ++ char '=' :: (value ++ line.dropWhile (· != 0)) =
      line := by
    rw [← List.cons_append, ← List.append_assoc, hread,
      List.takeWhile_append_dropWhile]
  have hsame := confKey_split hkey (value ++ line.dropWhile (· != 0))
  rw [hline] at hsame
  refine ⟨hsame.symm, ?_, hsame ▸ hnul⟩
  rw [← hline]
  simp

/-- The loop passes over a malformed line that does not end it. -/
theorem confLine_malformed {line : List Byte} (hmalformed : Malformed line)
    (hlettered : ¬ Unlettered line) (s : Server) :
    confLine s line = some s := by
  rw [confLine_eq]
  cases hpair : confPair line with
  | none => rfl
  | some pair =>
      obtain ⟨hkey, hmem, hnul⟩ := confPair_key hpair
      have hnames : ∀ name ∈ ascii "[D]" :: confKeys,
          ¬ name <+: confKey line := by
        rcases hmalformed with hnone | hempty | hnames
        · exact absurd hmem hnone
        · rw [hempty]
          decide
        · exact hnames
      rw [List.forall_mem_cons] at hnames
      have hbracket : (confKey line).getD 0 0 = char '[' := by
        by_contra hother
        exact hlettered ⟨hmem, hnul, hother, hnames.2⟩
      have hnone : serviceLine pair = none := by
        cases hservice : serviceLine pair with
        | none => rfl
        | some named =>
            exact absurd (hkey ▸ serviceLine_begins hservice) hnames.1
      rw [Option.elim_some, confStore_other hnone, hkey,
        if_neg (not_not_intro hbracket)]

/-- A key without a letter ends the program. -/
theorem confLine_unlettered {line : List Byte} (hline : IsLine (char '\n') line)
    (hunlettered : Unlettered line) (s : Server) : confLine s line = none := by
  obtain ⟨hmem, hnul, hbracket, hnames⟩ := hunlettered
  obtain ⟨hsplit, hkey⟩ := split_line hmem
  have htext : line.takeWhile (· != 0) = confKey line ++
      char '=' :: (confValue line).takeWhile (· != 0) := by
    conv_lhs => rw [← hsplit, List.takeWhile_append_of_pos
      (List.takeWhile_eq_self_iff.mp (takeWhile_nonzero hnul))]
    rfl
  have htextMem : char '=' ∈ line.takeWhile (· != 0) := by
    rw [htext]
    simp
  have hpair : confPair line = some (confKey line,
      confValue (line.takeWhile (· != 0))) := by
    rw [confPair_text hline htextMem, linePair, if_pos htextMem, htext,
      confKey_split hkey]
  rw [confLine_eq, hpair, Option.elim_some, confStore]
  rw [if_pos hbracket, (confParameter_none_iff _).mpr hnames]
  rfl

/-- The malformed lines can as well be left out if none ends the program. -/
theorem foldlM_wellFormed {ls : List (List Byte)}
    (hlettered : ∀ line ∈ ls, ¬ Unlettered line) (s : Server) :
    (ls.filter fun line => ¬ Malformed line).foldlM confLine s =
      ls.foldlM confLine s := by
  induction ls generalizing s with
  | nil => rfl
  | cons line ls ih =>
      have hrest := ih fun other hother =>
        hlettered other (List.mem_cons_of_mem line hother)
      by_cases hmalformed : Malformed line
      · have hpass := confLine_malformed hmalformed
          (hlettered line List.mem_cons_self) s
        rw [List.filter_cons_of_neg (by simpa using hmalformed), hrest,
          List.foldlM_cons, hpass]
        rfl
      · rw [List.filter_cons_of_pos (by simpa using hmalformed),
          List.foldlM_cons, List.foldlM_cons]
        cases confLine s line with
        | none => rfl
        | some next => exact hrest next

/-- No file is read past a key without a letter. -/
theorem foldlM_unlettered {ls : List (List Byte)}
    (hlined : ∀ line ∈ ls, IsLine (char '\n') line)
    (hunlettered : ∃ line ∈ ls, Unlettered line) (s : Server) :
    ls.foldlM confLine s = none := by
  induction ls generalizing s with
  | nil =>
      obtain ⟨line, hline, -⟩ := hunlettered
      cases hline
  | cons first ls ih =>
      rw [List.foldlM_cons]
      obtain ⟨line, hline, hkey⟩ := hunlettered
      rcases List.mem_cons.mp hline with rfl | hline
      · rw [confLine_unlettered (hlined line List.mem_cons_self) hkey]
        rfl
      · cases confLine s first with
        | none => rfl
        | some next =>
            exact ih (fun other hother =>
              hlined other (List.mem_cons_of_mem first hother))
              ⟨line, hline, hkey⟩ next

/-- A context and no services. -/
def Server.Bare (s : Server) : Prop :=
  s.globals.gContext ≠ none ∧ s.registry.gServices = none

/-- The stores through the context need it and leave the services. -/
theorem setContext_kept {s : Server} (hctx : s.globals.gContext ≠ none)
    (store : TGContext → TGContext) :
    ∃ s', s.setContext store = some s' ∧ s'.globals.gContext ≠ none ∧
      s'.registry = s.registry := by
  obtain ⟨ctx, hctx⟩ := Option.ne_none_iff_exists'.mp hctx
  rw [Server.setContext, hctx]
  exact ⟨_, rfl, Option.some_ne_none _, rfl⟩

/-- A setting with a letter is made where there is a context. -/
theorem parseParameter_kept {s : Server} (hctx : s.globals.gContext ≠ none)
    (pPar pVal : List Byte) :
    ∃ s', parseParameter s (some pPar) pVal = some s' ∧
      s'.globals.gContext ≠ none ∧ s'.registry = s.registry := by
  rcases parseParameter_cases pPar pVal with hsame | ⟨store, level, -, hstored⟩
  · exact ⟨s, hsame s, hctx, rfl⟩
  · obtain ⟨s', hset, hnext⟩ := setContext_kept hctx store
    refine ⟨{ s' with envLogLevel := level s'.envLogLevel }, ?_, hnext⟩
    rw [hstored, hset, Option.map_some]

/-- Without services a well-formed line always makes its setting. -/
theorem confLine_bare {s : Server} (hbare : s.Bare) {line : List Byte}
    (hline : ¬ Malformed line) : ∃ s', confLine s line = some s' ∧ s'.Bare := by
  rw [confLine_eq]
  cases hpair : confPair line with
  | none => exact ⟨s, rfl, hbare⟩
  | some pair =>
      obtain ⟨hkey, -, -⟩ := confPair_key hpair
      rw [Option.elim_some]
      cases hservice : serviceLine pair with
      | some named =>
          refine ⟨s, ?_, hbare⟩
          rw [(confStore_line hservice s).2, Server.setParameters,
            setServiceCreateParametersByN_eq, lookupN]
          split
          · rfl
          · rw [searchServices, hbare.2]
            rfl
      | none =>
          rw [confStore_other hservice, hkey]
          split
          · next hbracket =>
              cases hletter : confParameter (confKey line) with
              | some pPar =>
                  obtain ⟨s', hparse, hctx, hsame⟩ :=
                    parseParameter_kept hbare.1 pPar pair.2
                  exact ⟨s', hparse, hctx, hsame ▸ hbare.2⟩
              | none =>
                  have hnames := (confParameter_none_iff _).mp hletter
                  refine absurd (Or.inr (Or.inr ?_)) hline
                  rw [List.forall_mem_cons]
                  refine ⟨?_, hnames⟩
                  rintro ⟨rest, hrest⟩
                  rw [← hrest] at hbracket
                  exact hbracket rfl
          · exact ⟨s, rfl, hbare⟩

theorem foldlM_bare {ls : List (List Byte)}
    (hls : ∀ line ∈ ls, ¬ Malformed line) {s : Server} (hbare : s.Bare) :
    ∃ s', ls.foldlM confLine s = some s' := by
  induction ls generalizing s with
  | nil => exact ⟨s, rfl⟩
  | cons line ls ih =>
      obtain ⟨next, hfirst, hnext⟩ :=
        confLine_bare hbare (hls line List.mem_cons_self)
      rw [List.foldlM_cons, hfirst]
      exact ih (fun other hother => hls other (List.mem_cons_of_mem line hother))
        hnext

/-- Its other lines are the lines of the file without the malformed ones. -/
theorem physicalLines_wellFormed (content : List Byte) :
    physicalLines (wellFormed content) =
      (physicalLines content).filter fun line => ¬ Malformed line :=
  lines_flatten ((lined_physicalLines content).sublist List.filter_sublist)

/-- The malformed lines of a file whose lines fit the buffer have no effect
exactly if none of them has a key that is handed on without a letter. -/
theorem unaffected_iff {content : List Byte}
    (hfit : ∀ line ∈ physicalLines content, line.length < lineBufSize) :
    Unaffected content ↔
      ∀ line ∈ physicalLines content, ¬ Unlettered line := by
  have hread := fileLines_physical hfit
  have hlines := physicalLines_wellFormed content
  have hkept : fileLines (wellFormed content).length (wellFormed content) =
      (physicalLines content).filter fun line => ¬ Malformed line := by
    rw [← hlines]
    refine fileLines_physical fun line hline => hfit line ?_
    rw [hlines] at hline
    exact List.mem_of_mem_filter hline
  constructor
  · intro hunaffected line hline hunlettered
    let host : Host :=
      ⟨none, fun _ => none, fun _ => none, fun _ => some content, fun _ => 0,
        fun _ _ => none⟩
    let s : Server := { Server.initial with globals := init .initial }
    have hwell : ∀ line ∈ (physicalLines content).filter
        fun line => ¬ Malformed line, ¬ Malformed line := fun line hline => by
      simpa using (List.mem_filter.mp hline).2
    obtain ⟨s', hrun⟩ := @foldlM_bare _ hwell s ⟨Option.some_ne_none _, rfl⟩
    rw [← hkept] at hrun
    have hpath : ascii "f" ≠ [] := by decide
    have hwhole := hunaffected host (ascii "f") s s' hpath rfl (by
      rw [readConfFile_opened hpath (host.rewrite_fopen _ _), hrun])
    rw [readConfFile_opened hpath rfl, hread,
      foldlM_unlettered (lined_physicalLines content).line
        ⟨line, hline, hunlettered⟩] at hwhole
    cases hwhole
  · intro hlettered host path s s' hpath hopen hkeptRun
    rw [readConfFile_opened hpath (host.rewrite_fopen _ _), hkept,
      foldlM_wellFormed hlettered] at hkeptRun
    rw [readConfFile_opened hpath hopen, hread]
    exact hkeptRun

end Malformed

namespace ConfigLines

/-- A host on which every file holds this. -/
def host (content : List Byte) : Host :=
  ⟨none, fun _ => none, fun _ => none, fun _ => some content, fun _ => 0,
    fun _ _ => none⟩

/-- The state before the command line, without services. -/
def start : Server := { Server.initial with globals := init .initial }

def port (s : Server) : Option Int := s.globals.gContext.map (·.pServer.port)

theorem unaffected_iff_bracket :
    (∀ line ∈ physicalLines (ascii "[X]a=b\n# no key\nport=80\n"),
      line.length < lineBufSize) ∧
    (Unaffected (ascii "[X]a=b\n# no key\nport=80\n") ↔
      ∀ line ∈ physicalLines (ascii "[X]a=b\n# no key\nport=80\n"),
        ¬ Unlettered line) :=
  ⟨by decide, unaffected_iff (by decide)⟩

/-- A key that is not known, and a port behind it. -/
def colour : List Byte := ascii "color=red\nport=80\n"

theorem unaffected_colour :
    (∀ line ∈ physicalLines colour, line.length < lineBufSize) ∧
    (readConfFile ((host colour).rewrite (ascii "f") (wellFormed colour))
      (ascii "f") start).map port = some (some 80) ∧
    readConfFile (host colour) (ascii "f") start = none ∧
    ¬ Unaffected colour := by
  have hstop : readConfFile (host colour) (ascii "f") start = none := by
    decide
  refine ⟨by decide, by decide, hstop, fun hunaffected => ?_⟩
  obtain ⟨s', hrun⟩ : ∃ s', readConfFile ((host colour).rewrite (ascii "f")
      (wellFormed colour)) (ascii "f") start = some s' :=
    Option.isSome_iff_exists.mp (by decide)
  have hwhole := hunaffected _ _ _ _ (by decide) rfl hrun
  rw [hstop] at hwhole
  cases hwhole

/-- A parameter that fills the buffer, and a setting behind it in the same
line. -/
def long : List Byte :=
  ascii "[D]s=" ++ List.replicate 494 (char 'x') ++ ascii "port=80\n"

theorem readConfFile_lines_iff_short :
    (∀ s, readConfFile (host (ascii "port=80\n")) (ascii "f") s =
      (filePairs (ascii "port=80\n")).foldlM confStore s) ∧
    (filePairs (ascii "port=80\n") = linePairs (ascii "port=80\n") ↔
      ∀ line ∈ physicalLines (ascii "port=80\n"), char '=' ∈ line →
        line.length < lineBufSize ∧ 0 ∉ line) :=
  readConfFile_lines_iff (by decide) rfl

/-- The one line of the file is a parameter, and sets the port. -/
theorem readConfFile_lines_long :
    linePairs long = [(ascii "[D]s",
      List.replicate 494 (char 'x') ++ ascii "port=80\n")] ∧
    filePairs long = [(ascii "[D]s", List.replicate 494 (char 'x')),
      (ascii "port", ascii "80\n")] ∧
    (readConfFile (host long) (ascii "f") start).map port =
      some (some 80) := by
  decide +kernel

end ConfigLines

end TgServer
