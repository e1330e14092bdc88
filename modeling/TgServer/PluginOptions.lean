/-
The two walks over the command line: the pairs `init_context` takes, the pairs
`init_plugin` takes, and the parameters the second one sets.
-/
import TgServer.ConfigLines

namespace TgServer

open Bytes

/-- An option and its value. -/
abbrev OptionPair := List Byte × List Byte

/-- What `init_context` does with a pair it does not reject. -/
def contextStep (host : Host) (s : Server) (pair : OptionPair) :
    Option Server :=
  let (pPar, pVal) := pair
  let c := pPar.getD 1 0
  if c = char 'f' then readConfFile host pVal s
  else if c = char 's' then s.loadServices host pVal
  else if c = char 'D' then some s
  else parseParameter s (some (pPar.drop 1)) pVal

/-- The pairs the loop of `init_context` takes; `none` when it rejects one. -/
def contextPairs : List (List Byte) → Option (List OptionPair)
  | [] => some []
  | [pPar] => if pPar = [] then some [] else none
  | pPar :: pVal :: argv =>
      if pPar = [] then some []
      else if badPair pPar pVal then none
      else (contextPairs argv).map ((pPar, pVal) :: ·)

/-- The pairs the loop of `init_context` takes before it ends or rejects. -/
def goodPairs : List (List Byte) → List OptionPair
  | [] => []
  | [_] => []
  | pPar :: pVal :: argv =>
      if pPar = [] ∨ badPair pPar pVal then []
      else (pPar, pVal) :: goodPairs argv

/-- How a command line comes to its pairs: it ends at the NULL or an empty
option, and each pair in front of that is a good one. -/
inductive Takes : List (List Byte) → List OptionPair → Prop where
  | nil : Takes [] []
  | empty (argv : List (List Byte)) : Takes ([] :: argv) []
  | pair {pPar pVal : List Byte} {argv : List (List Byte)}
      {pairs : List OptionPair} (hsome : pPar ≠ [])
      (hgood : badPair pPar pVal = false) (hrest : Takes argv pairs) :
      Takes (pPar :: pVal :: argv) ((pPar, pVal) :: pairs)

/-- The pairs the loop of `init_plugin` takes; `none` when it reads behind the
NULL. -/
def pluginPairs : List (List Byte) → Option (List OptionPair)
  | [] => some []
  | [_] => none
  | pPar :: pVal :: argv => (pluginPairs argv).map ((pPar, pVal) :: ·)

/-- The call of `setServiceCreateParametersByN` the loop makes for a pair. -/
def pluginCall (pair : OptionPair) : Option (List Byte × List Byte) :=
  let (pPar, pVal) := pair
  let pos := findSeparator pVal (ascii "=") []
  if badPair pPar pVal ∨ pos = -1 then none
  else if pPar.getD 1 0 = char 'D' then
    some (pVal.take pos.toNat, pVal.drop (pos.toNat + 1))
  else none

/-- The call that a pair asks for: the option is `-D` and its value is split at
the first '='. -/
def serviceCall (pair : OptionPair) : Option (List Byte × List Byte) :=
  if ascii "-D" <+: pair.1 then linePair pair.2 else none

/-- `init_plugin` stays inside the arguments, takes the pairs `init_context`
took, and makes the calls they ask for. -/
def PluginFollows (argv : List (List Byte)) : Prop :=
  ∃ pairs, contextPairs argv = some pairs ∧ pluginPairs argv = some pairs ∧
    pairs.filterMap pluginCall = pairs.filterMap serviceCall

section Walks

theorem contextPairs_takes {argv : List (List Byte)} {pairs : List OptionPair}
    (hpairs : contextPairs argv = some pairs) : Takes argv pairs := by
  induction argv using contextPairs.induct generalizing pairs with
  | case1 =>
      obtain rfl := Option.some.inj hpairs
      exact .nil
  | case2 | case4 pVal argv =>
      obtain rfl := Option.some.inj hpairs
      exact .empty _
  | case3 pPar hsome =>
      rw [contextPairs, if_neg hsome] at hpairs
      cases hpairs
  | case5 pPar pVal argv hsome hbad =>
      rw [contextPairs, if_neg hsome, if_pos hbad] at hpairs
      cases hpairs
  | case6 pPar pVal argv hsome hgood ih =>
      rw [contextPairs, if_neg hsome, if_neg hgood,
        Option.map_eq_some_iff] at hpairs
      obtain ⟨rest, hrest, rfl⟩ := hpairs
      exact .pair hsome (eq_false_of_ne_true hgood) (ih hrest)

/-- The first loop is one step for each pair in front of its end, and the
rejection if that is a bad one. -/
theorem contextOptions_eq (host : Host) (argv : List (List Byte))
    (s : Server) : contextOptions host argv s =
      ((goodPairs argv).foldlM (contextStep host) s).bind fun s =>
        if (contextPairs argv).isSome then some (0, s) else rejectArgv s := by
  induction argv using contextPairs.induct generalizing s with
  | case1 | case2 => rfl
  | case3 pPar hsome =>
      rw [contextOptions, if_neg hsome, goodPairs, contextPairs, if_neg hsome]
      rfl
  | case4 pVal argv => rfl
  | case5 pPar pVal argv hsome hbad =>
      rw [contextOptions, if_neg hsome, if_pos hbad, goodPairs,
        if_pos (Or.inr hbad), contextPairs, if_neg hsome, if_pos hbad]
      rfl
  | case6 pPar pVal argv hsome hgood ih =>
      rw [contextOptions, if_neg hsome, if_neg hgood, goodPairs,
        if_neg (not_or.mpr ⟨hsome, hgood⟩), contextPairs, if_neg hsome,
        if_neg hgood, Option.isSome_map, List.foldlM_cons, contextStep]
      simp only [Option.bind_eq_bind, Option.bind_assoc]
      split
      · cases readConfFile host pVal s with
        | none => rfl
        | some next => exact ih next
      · split
        · cases s.loadServices host pVal with
          | none => rfl
          | some next => exact ih next
        · split
          · exact ih s
          · cases parseParameter s (some (pPar.drop 1)) pVal with
            | none => rfl
            | some next => exact ih next

theorem goodPairs_of_contextPairs {argv : List (List Byte)}
    {pairs : List OptionPair} (hpairs : contextPairs argv = some pairs) :
    goodPairs argv = pairs := by
  have htakes := contextPairs_takes hpairs
  clear hpairs
  induction htakes with
  | nil => rfl
  | empty argv => cases argv <;> rfl
  | pair hsome hgood hrest ih =>
      rw [goodPairs, if_neg (by simp [hsome, hgood]), ih]

/-- Where no pair is bad, all of them are taken. -/
theorem contextOptions_pairs (host : Host) {argv : List (List Byte)}
    {pairs : List OptionPair} (hpairs : contextPairs argv = some pairs)
    (s : Server) : contextOptions host argv s =
      (pairs.foldlM (contextStep host) s).map fun s => (0, s) := by
  rw [contextOptions_eq, goodPairs_of_contextPairs hpairs, hpairs]
  cases pairs.foldlM (contextStep host) s <;> rfl

/-- A command line that is accepted has its pairs taken. -/
theorem contextPairs_of_accepts (host : Host) {argv : List (List Byte)}
    {s s' : Server} (haccepts : contextOptions host argv s = some (0, s')) :
    ∃ pairs, contextPairs argv = some pairs := by
  rw [contextOptions_eq, Option.bind_eq_some_iff] at haccepts
  obtain ⟨mid, -, hend⟩ := haccepts
  split at hend
  · next hpairs => exact Option.isSome_iff_exists.mp hpairs
  · rw [rejectArgv, Option.map_eq_some_iff] at hend
    obtain ⟨g, -, heq⟩ := hend
    cases heq

theorem pluginOptions_cons (pPar pVal : List Byte) (argv : List (List Byte))
    (s : Server) : pluginOptions (pPar :: pVal :: argv) s =
      (pluginCall (pPar, pVal)).elim (pluginOptions argv s) fun call =>
        (s.setParameters call.1 call.2).bind (pluginOptions argv) := by
  rw [pluginOptions, pluginCall]
  split
  · rfl
  · split <;> rfl

/-- The second loop is its pairs, and of them the calls they lead to. -/
theorem pluginOptions_pairs (argv : List (List Byte)) (s : Server) :
    pluginOptions argv s = (pluginPairs argv).bind fun pairs =>
      (pairs.filterMap pluginCall).foldlM
        (fun s call => s.setParameters call.1 call.2) s := by
  induction argv using pluginPairs.induct generalizing s with
  | case1 => rfl
  | case2 pPar => rfl
  | case3 pPar pVal argv ih =>
      rw [pluginOptions_cons, pluginPairs]
      cases hcall : pluginCall (pPar, pVal) with
      | none =>
          rw [Option.elim_none, ih]
          cases pluginPairs argv with
          | none => rfl
          | some pairs =>
              simp only [Option.map_some, Option.bind_some,
                List.filterMap_cons_none hcall]
      | some call =>
          rw [Option.elim_some]
          cases hset : s.setParameters call.1 call.2 with
          | none =>
              cases pluginPairs argv with
              | none => rfl
              | some pairs =>
                  simp [List.filterMap_cons_some hcall, hset]
          | some next =>
              rw [Option.bind_some, ih]
              cases pluginPairs argv with
              | none => rfl
              | some pairs =>
                  simp [List.filterMap_cons_some hcall, hset]

/-- A pair that `init_context` has taken leads to the call it asks for. -/
theorem pluginCall_eq {pair : OptionPair}
    (hgood : badPair pair.1 pair.2 = false) :
    pluginCall pair = serviceCall pair := by
  obtain ⟨pPar, pVal⟩ := pair
  obtain ⟨c, rest, rfl⟩ : ∃ c rest, pPar = char '-' :: c :: rest := by
    simp only [badPair, Bool.or_eq_false_iff, bne_eq_false_iff_eq,
      decide_eq_false_iff_not, Nat.not_lt] at hgood
    obtain ⟨⟨hdash, hlength⟩, -⟩ := hgood
    cases pPar with
    | nil => simp at hlength
    | cons d pPar =>
        cases pPar with
        | nil => simp at hlength
        | cons c rest => exact ⟨c, rest, by rw [← hdash]; rfl⟩
  have hletter : ascii "-D" <+: char '-' :: c :: rest ↔ c = char 'D' := by
    rw [show ascii "-D" = [char '-', char 'D'] from rfl,
      List.cons_prefix_cons, List.cons_prefix_cons]
    simp [eq_comm]
  by_cases hmem : char '=' ∈ pVal
  · obtain ⟨hpos, htake, hdrop⟩ := findSeparator_line hmem
    have hfound : ¬(((confKey pVal).length : Int) = -1) := by omega
    simp only [pluginCall, serviceCall, linePair, hgood, hpos, hletter,
      htake, hdrop, if_pos hmem, if_neg hfound, Bool.false_eq_true, false_or,
      List.getD_cons_succ, List.getD_cons_zero, Int.toNat_natCast]
  · have hpos : findSeparator pVal (ascii "=") [] = -1 :=
      findSeparator_none [] (c := char '=') (by decide) hmem
    simp only [pluginCall, serviceCall, linePair, hpos, or_true, ↓reduceIte,
      if_neg hmem, ite_self]

theorem contextPairs_good {argv : List (List Byte)} {pairs : List OptionPair}
    (hpairs : contextPairs argv = some pairs) :
    ∀ pair ∈ pairs, badPair pair.1 pair.2 = false := by
  have htakes := contextPairs_takes hpairs
  clear hpairs
  induction htakes with
  | nil | empty argv => exact fun _ hmem => by cases hmem
  | pair hsome hgood hrest ih => exact List.forall_mem_cons.mpr ⟨hgood, ih⟩

/-- The second walk takes the pairs of the first one exactly if no option is
empty. -/
theorem pluginPairs_eq_iff {argv : List (List Byte)} {pairs : List OptionPair}
    (hpairs : contextPairs argv = some pairs) :
    pluginPairs argv = some pairs ↔ ∀ k : Nat, argv[2 * k]? ≠ some [] := by
  have htakes := contextPairs_takes hpairs
  clear hpairs
  induction htakes with
  | nil => simp [pluginPairs]
  | empty argv =>
      refine iff_of_false (fun hsame => ?_) fun hfree => hfree 0 rfl
      cases argv with
      | nil => cases hsame
      | cons pVal argv =>
          rw [pluginPairs, Option.map_eq_some_iff] at hsame
          obtain ⟨rest, -, hcons⟩ := hsame
          cases hcons
  | @pair pPar pVal argv pairs hsome hgood hrest ih =>
      have hcons : pluginPairs (pPar :: pVal :: argv) =
          some ((pPar, pVal) :: pairs) ↔ pluginPairs argv = some pairs := by
        rw [pluginPairs, Option.map_eq_some_iff]
        constructor
        · rintro ⟨other, hother, heq⟩
          rw [hother, (List.cons.inj heq).2]
        · exact fun hsame => ⟨pairs, hsame, rfl⟩
      refine hcons.trans (ih.trans ?_)
      constructor
      · intro hfree k
        cases k with
        | zero => simpa using hsome
        | succ k => exact hfree k
      · exact fun hfree k => hfree (k + 1)

/-- `init_context` in its three parts. -/
theorem initContext_cons (host : Host) (tgserver : List Byte)
    (argv : List (List Byte)) (s : Server) :
    initContext host (tgserver :: argv) s = ((startContext host s).bind fun s =>
      if (tgserver :: argv).length = 1 then
        (homePath host defaultConfPath).bind (readConfFile host · s)
      else some s).bind (contextOptions host argv) := by
  rw [initContext]
  cases startContext host s with
  | none => rfl
  | some started =>
      simp only [Option.bind_eq_bind, Option.bind_some]
      split
      · cases homePath host defaultConfPath <;> rfl
      · rfl

/-- `init_context` ends with the loop over the command line. -/
theorem initContext_options {host : Host} {argv : List (List Byte)}
    {s : Server} {result : Int × Server}
    (hinit : initContext host argv s = some result) :
    ∃ read, contextOptions host argv.tail read = some result := by
  cases argv with
  | nil => simp [initContext] at hinit
  | cons tgserver argv =>
      rw [initContext_cons, Option.bind_eq_some_iff] at hinit
      obtain ⟨read, -, hoptions⟩ := hinit
      exact ⟨read, hoptions⟩

/-- On a command line that `init_context` accepts, what the two functions do is
what their walks take, and the second follows the first exactly if none of the
options is an empty string. -/
theorem initPlugin_follows_iff {host : Host} {argv : List (List Byte)}
    {s s' : Server} (haccepts : initContext host argv s = some (0, s')) :
    (∃ pairs, contextPairs argv.tail = some pairs ∧ ∀ s,
      contextOptions host argv.tail s =
        (pairs.foldlM (contextStep host) s).map fun s => (0, s)) ∧
    (∀ s, initPlugin argv s = (pluginPairs argv.tail).bind fun pairs =>
      (pairs.filterMap pluginCall).foldlM
        (fun s call => s.setParameters call.1 call.2) s) ∧
    (PluginFollows argv.tail ↔
      ∀ k : Nat, argv.tail[2 * k]? ≠ some []) := by
  obtain ⟨pairs, hpairs⟩ : ∃ pairs, contextPairs argv.tail = some pairs := by
    obtain ⟨read, hoptions⟩ := initContext_options haccepts
    exact contextPairs_of_accepts host hoptions
  refine ⟨⟨pairs, hpairs, contextOptions_pairs host hpairs⟩, ?_, ?_⟩
  · intro s
    rw [← pluginOptions_pairs, initPlugin, List.drop_one]
    split
    · next hshort =>
        have hnil : argv.tail = [] := by
          rw [← List.length_eq_zero_iff, List.length_tail]
          omega
        rw [hnil]
        rfl
    · rfl
  · rw [← pluginPairs_eq_iff hpairs]
    constructor
    · rintro ⟨taken, htaken, hplugin, -⟩
      obtain rfl := Option.some.inj (hpairs.symm.trans htaken)
      exact hplugin
    · intro hplugin
      refine ⟨pairs, hpairs, hplugin, ?_⟩
      exact List.filterMap_congr fun pair hpair =>
        pluginCall_eq (contextPairs_good hpairs pair hpair)

end Walks

namespace PluginOptions

def host : Host :=
  ⟨none, fun _ => none, fun _ => none, fun _ => none, fun _ => 0,
    fun _ _ => none⟩

/-- A port and a parameter. -/
def plain : List (List Byte) :=
  [ascii "tgserver", ascii "-p", ascii "80", ascii "-D", ascii "echo=a=b"]

/-- An empty option in front of a parameter, and one at the end. -/
def empty : List (List Byte) :=
  [ascii "tgserver", [], ascii "x", ascii "-D", ascii "echo=a"]

def trailing : List (List Byte) := [ascii "tgserver", []]

theorem initPlugin_follows_iff_plain :
    ∃ s', initContext host plain .initial = some (0, s') ∧
      (∃ pairs, contextPairs plain.tail = some pairs ∧ ∀ s,
        contextOptions host plain.tail s =
          (pairs.foldlM (contextStep host) s).map fun s => (0, s)) ∧
      (∀ s, initPlugin plain s = (pluginPairs plain.tail).bind fun pairs =>
        (pairs.filterMap pluginCall).foldlM
          (fun s call => s.setParameters call.1 call.2) s) ∧
      (PluginFollows plain.tail ↔
        ∀ k : Nat, plain.tail[2 * k]? ≠ some []) := by
  obtain ⟨s', haccepts⟩ : ∃ s', initContext host plain .initial =
      some (0, s') := ⟨_, rfl⟩
  exact ⟨s', haccepts, initPlugin_follows_iff haccepts⟩

/-- Both are accepted; of the first a parameter is set that was not taken, and
behind the second the arguments are left. -/
theorem initPlugin_astray :
    ((initContext host empty .initial).map Prod.fst = some 0 ∧
      contextPairs empty.tail = some [] ∧
      (pluginPairs empty.tail).map (·.filterMap pluginCall) =
        some [(ascii "echo", ascii "a")] ∧ ¬ PluginFollows empty.tail) ∧
    (initContext host trailing .initial).map Prod.fst = some 0 ∧
      pluginPairs trailing.tail = none ∧
      initPlugin trailing .initial = none ∧ ¬ PluginFollows trailing.tail := by
  refine ⟨⟨by decide, rfl, by decide, ?_⟩, by decide, rfl, rfl, ?_⟩
  · rintro ⟨pairs, hpairs, hplugin, -⟩
    obtain rfl := Option.some.inj hpairs
    exact absurd hplugin (by decide)
  · rintro ⟨pairs, -, hplugin, -⟩
    cases hplugin

end PluginOptions

end TgServer
