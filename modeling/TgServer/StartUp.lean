/-
`main` up to `startup`: which services a start finds, which parameters the
files and the command line give to each of them, and what the functions of the
services are then called with.
-/
import TgServer.ClientLife
import TgServer.OptionOrder
import TgServer.ParameterArrays

namespace TgServer

open Bytes

/-- What `main` comes to. -/
inductive MainEnd where
  | help
  | rejected (s : Server)
  | startup (s : Server)
deriving DecidableEq

/-- `main`; the name of the program is compared with "-h" too, and a command
line that was rejected is released a second time. -/
def main (host : Host) (argv : List (List Byte)) : Option MainEnd :=
  if ascii "-h" ∈ argv then some .help
  else do
    let (ret, s) ← initContext host argv .initial
    if ret = -1 then
      return .rejected { s with globals := ← release s.globals }
    else return .startup (← initPlugin argv s)

def TGService.createCall (pS : TGService) : ServiceCall :=
  .create pS.doCreate pS.parameters

/-- The services of the default directory and of these, in load order. -/
def servicesAfter (host : Host) (done : List (List Byte)) : List TGService :=
  records (((homePath host defaultServiceDir).toList ++ done).flatMap
    host.loadCalls) 0

/-- The services of a start: the directories of its options `-s` come last. -/
def startServices (host : Host) (argv : List (List Byte)) : List TGService :=
  servicesAfter host
    (valuesOf (char 's') ((contextPairs argv.tail).getD []))

/-- The place of the earliest service of a name; the empty name has none. -/
def placeOf (services : List TGService) (name : List Byte) : Option Addr :=
  if name = [] then none
  else services.findIdx? fun pS => pS.name == some name

/-- A parameter with the name it is given under, and the directories that were
loaded in front of it. -/
abbrev GivenLine := List (List Byte) × (List Byte × List Byte)

/-- What a start is given, in order: by the default file if there is nothing on
the command line, by the files on it, and by its options `-D`. -/
def givenLines (host : Host) (argv : List (List Byte)) : List GivenLine :=
  let pairs := (contextPairs argv.tail).getD []
  let taken := (pluginPairs argv.tail).getD []
  (startSettings host argv.length).filterMap
      (fun setting => (serviceLine setting).map (([], ·))) ++
    (events host pairs []).filterMap
      (fun event => (serviceLine event.2).map ((event.1, ·))) ++
    (taken.filterMap serviceCall).map ((valuesOf (char 's') pairs, ·))

/-- What a line gives to the service at a place: its value, if the service is
the earliest of the name by then. -/
def GivenLine.textFor (host : Host) (a : Addr) :
    GivenLine → Option (List Byte)
  | (done, name, value) =>
      if placeOf (servicesAfter host done) name = some a then some value
      else none

def textsFor (host : Host) (argv : List (List Byte)) (a : Addr) :
    List (List Byte) :=
  (givenLines host argv).filterMap (GivenLine.textFor host a)

/-- The registry a start leaves for the thread of `createAllServices` and for
the client processes. -/
structure Configures (host : Host) (argv : List (List Byte))
    (g : Registry) : Prop where
  services : g.objects.map TGService.bare = startServices host argv
  texts : ∀ a pSer, g.objects[a]? = some pSer →
    HoldsTexts g pSer (textsFor host argv a)
  /-- What a function sees that reads its array up to a NULL. -/
  ends : ∀ a pSer, g.objects[a]? = some pSer → textsFor host argv a ≠ [] →
    (EndsWithin g pSer (textsFor host argv a) ↔
      (textsFor host argv a).length % serviceDefaultParaCounts ≠ 0)
  outside : ∀ pData, createAllServices pData g = none ↔
    g.objects ≠ [] ∧ g.objects.length % defaultServiceSize = 0
  calls : ∀ pData calls g', createAllServices pData g = some (calls, g') →
    calls = g.objects.map TGService.createCall ∧
      initAllServices g' = some (g.objects.map TGService.initCall, g')

section Lookups

variable {host : Host} {done : List (List Byte)}

theorem loadServices_append (junk : Nat → Nat → Option Addr)
    (first second : List LoadCall) (g : Registry) :
    loadServices junk (first ++ second) g =
      (loadServices junk first g).bind (loadServices junk second) := by
  induction first generalizing g with
  | nil => rfl
  | cons call first ih =>
      rw [List.cons_append, loadServices, loadServices]
      cases loadService junk g call with
      | none => rfl
      | some next => exact ih next

/-- The directories one after the other are all their files. -/
theorem loadDirs_calls (host : Host) (dirs : List (List Byte))
    (g : Registry) :
    loadDirs host dirs g =
      loadServices host.junk (dirs.flatMap host.loadCalls) g := by
  induction dirs generalizing g with
  | nil => rfl
  | cons dir dirs ih =>
      rw [loadDirs, List.foldlM_cons, List.flatMap_cons, loadServices_append]
      cases loadServices host.junk (host.loadCalls dir) g with
      | none => rfl
      | some next => exact ih next

theorem loadAfter_packed (hclear : ∀ n, Cleared host.junk n)
    {g : Registry} (hload : loadAfter host done = some g) :
    Packed g (servicesAfter host done) := by
  rw [loadAfter, Option.bind_eq_bind, Option.bind_eq_some_iff] at hload
  obtain ⟨dir, hdir, hload⟩ := hload
  rw [loadDirs_calls] at hload
  obtain ⟨g', hrun, hpacked⟩ := loadServices_cleared hclear
    ((dir :: done).flatMap host.loadCalls) packed_initial
  obtain rfl := Option.some.inj (hload.symm.trans hrun)
  rw [servicesAfter, hdir]
  exact hpacked

/-- A search through the places of a list is one through the list. -/
theorem find?_places {α : Type} (l : List α) (p : α → Bool) :
    (List.range l.length).find? (fun a => (l[a]?).any p) = l.findIdx? p := by
  cases hidx : l.findIdx? p with
  | none =>
      rw [List.findIdx?_eq_none_iff] at hidx
      rw [List.find?_range_eq_none]
      intro a ha
      rw [List.getElem?_eq_getElem ha, Option.any_some,
        hidx _ (List.getElem_mem ha)]
      rfl
  | some a =>
      obtain ⟨ha, htrue, hfirst⟩ := List.findIdx?_eq_some_iff_getElem.mp hidx
      rw [List.find?_range_eq_some]
      refine ⟨?_, List.mem_range.mpr ha, fun b hb => ?_⟩
      · rw [List.getElem?_eq_getElem ha, Option.any_some, htrue]
      · rw [List.getElem?_eq_getElem (hb.trans ha), Option.any_some,
          Bool.not_eq_true']
        exact eq_false_of_ne_true (hfirst b hb)

/-- A lookup that stays inside the array finds the earliest service. -/
theorem lookAfter_place (hclear : ∀ n, Cleared host.junk n)
    {name : List Byte} (hname : 0 ∉ name) {found : Option Addr}
    (hlook : lookAfter host done name = some found) :
    found = placeOf (servicesAfter host done) name := by
  rw [lookAfter, Option.bind_eq_some_iff] at hlook
  obtain ⟨g, hload, hlook⟩ := hlook
  have hpacked := loadAfter_packed hclear hload
  rw [lookupN] at hlook
  rw [placeOf]
  split at hlook
  · next hnil =>
      rw [if_pos hnil]
      exact (Option.some.inj hlook).symm
  · next hsome =>
      rw [if_neg hsome]
      obtain ⟨⟨n, last⟩, hsearch, rfl⟩ := Option.map_eq_some_iff.mp hlook
      rw [searchServices] at hsearch
      have hplaces := find?_places (servicesAfter host done)
        fun pS => pS.name == some name
      cases harray : g.gServices with
      | none =>
          rw [harray] at hsearch
          rw [hpacked.array.mp harray]
          exact (Prod.mk.inj (Option.some.inj hsearch)).2.symm
      | some slots =>
          rw [harray] at hsearch
          have hslots := hpacked.slots
          rw [Registry.slots, harray, Option.getD_some] at hslots
          subst hslots
          rw [← hplaces]
          refine SlotTable.search_defined ?_ hsearch
          intro a ha
          rw [List.mem_range] at ha
          have hget : g.objects[a]? = some (servicesAfter host done)[a] := by
            rw [hpacked.objects]
            exact List.getElem?_eq_getElem ha
          have hnamed := records_registered (List.getElem_mem ha)
          rw [probeN_name hname hget hnamed.name,
            List.getElem?_eq_getElem ha, Option.any_some]

/-- The name under which a line of a file gives a parameter is a string. -/
theorem serviceLine_string {buf : List Byte}
    {pair line : List Byte × List Byte} (hpair : confPair buf = some pair)
    (hline : serviceLine pair = some line) : 0 ∉ line.1 := by
  obtain ⟨key, value⟩ := pair
  have htext := confPair_some hpair
  rw [serviceLine] at hline
  split at hline
  · obtain rfl := Option.some.inj hline
    intro hzero
    have hmem : (0 : Byte) ∈ buf.takeWhile (· != 0) := by
      rw [← htext]
      exact List.mem_append_left _ (List.mem_of_mem_drop hzero)
    have hfalse := List.mem_takeWhile_imp hmem
    simp at hfalse
  · cases hline

theorem confPairs_string {path : List Byte} {pair line : List Byte × List Byte}
    (hpair : pair ∈ confPairs host path)
    (hline : serviceLine pair = some line) : 0 ∉ line.1 := by
  rw [confPairs] at hpair
  split at hpair
  · cases hpair
  · cases hopen : host.fopen path with
    | none =>
        rw [hopen] at hpair
        cases hpair
    | some content =>
        rw [hopen, Option.map_some, Option.getD_some, filePairs] at hpair
        obtain ⟨buf, -, hbuf⟩ := List.mem_filterMap.mp hpair
        exact serviceLine_string hbuf hline

theorem startSettings_file {argc : Nat} {pair : List Byte × List Byte}
    (hpair : pair ∈ startSettings host argc) :
    ∃ path, pair ∈ confPairs host path := by
  rw [startSettings] at hpair
  split at hpair
  · cases hpath : homePath host defaultConfPath with
    | none =>
        rw [hpath] at hpair
        cases hpair
    | some path =>
        rw [hpath] at hpair
        exact ⟨path, hpair⟩
  · cases hpair

theorem events_file {pairs : List OptionPair}
    {event : List (List Byte) × (List Byte × List Byte)}
    (hevent : event ∈ events host pairs done) :
    ∃ path, event.2 ∈ confPairs host path := by
  have hsettings : event.2 ∈ settings host pairs := by
    rw [← events_settings host pairs done]
    exact List.mem_map_of_mem hevent
  obtain ⟨path, -, hpair⟩ := List.mem_flatMap.mp hsettings
  exact ⟨path, hpair⟩

theorem placeOf_iff (hclear : ∀ n, Cleared host.junk n) {name : List Byte}
    (hname : 0 ∉ name) (hdefined : lookAfter host done name ≠ none)
    (a : Addr) : lookAfter host done name = some (some a) ↔
      placeOf (servicesAfter host done) name = some a := by
  obtain ⟨found, hlook⟩ := Option.ne_none_iff_exists'.mp hdefined
  rw [hlook, Option.some.injEq, lookAfter_place hclear hname hlook]

/-- What a line of a file leaves at a service goes by the place of its name. -/
theorem stored_place (hclear : ∀ n, Cleared host.junk n)
    {setting : List Byte × List Byte}
    (hfile : ∃ path, setting ∈ confPairs host path)
    (hready : Readable (lookAfter host done) setting) (a : Addr) :
    stored (lookAfter host done) a setting =
      ((serviceLine setting).map ((done, ·))).bind
        (GivenLine.textFor host a) := by
  obtain ⟨path, hpair⟩ := hfile
  rw [stored]
  cases hline : serviceLine setting with
  | none => rfl
  | some line =>
      have hname := confPairs_string hpair hline
      have hplace :=
        placeOf_iff hclear hname (hready.defined line hline) a
      simp only [Option.bind_some, Option.map_some, hplace,
        GivenLine.textFor]

end Lookups

section Options

theorem pluginPairs_mem {argv : List (List Byte)} {taken : List OptionPair}
    (htaken : pluginPairs argv = some taken) {pair : OptionPair}
    (hpair : pair ∈ taken) : pair.2 ∈ argv := by
  induction argv using pluginPairs.induct generalizing taken with
  | case1 =>
      obtain rfl := Option.some.inj htaken
      cases hpair
  | case2 => cases htaken
  | case3 pPar pVal argv ih =>
      rw [pluginPairs, Option.map_eq_some_iff] at htaken
      obtain ⟨rest, hrest, rfl⟩ := htaken
      rcases List.mem_cons.mp hpair with rfl | hmem
      · exact List.mem_cons_of_mem _ List.mem_cons_self
      · exact List.mem_cons_of_mem _
          (List.mem_cons_of_mem _ (ih hrest hmem))

/-- The name in an option is a string if the argument is one. -/
theorem serviceCall_string {pair : OptionPair} (hpair : 0 ∉ pair.2)
    {call : List Byte × List Byte} (hcall : serviceCall pair = some call) :
    0 ∉ call.1 := by
  rw [serviceCall] at hcall
  split at hcall
  · rw [← linePair_some hcall] at hpair
    exact fun hzero => hpair (List.mem_append_left _ hzero)
  · cases hcall

/-- The second walk makes of any pair the call that it asks for. -/
theorem pluginCall_serviceCall (pair : OptionPair) :
    pluginCall pair = serviceCall pair := by
  cases hbad : badPair pair.1 pair.2 with
  | false => exact pluginCall_eq hbad
  | true =>
      obtain ⟨pPar, pVal⟩ := pair
      have hnone : serviceCall (pPar, pVal) = none := by
        rw [serviceCall]
        split
        · next hletter =>
            obtain ⟨rest, rfl⟩ := hletter
            have hshort : rest.length + 1 + 1 < 2 ∨ pVal = [] := by
              simpa [badPair, ascii, char] using hbad
            rw [hshort.resolve_left (by omega)]
            rfl
        · rfl
      simp only [pluginCall, hnone, hbad, true_or, if_true]

/-- What the calls of `init_plugin` leave. -/
theorem setParameters_lists {host : Host} {done : List (List Byte)}
    {lists : Addr → List (List Byte)} {s s' : Server}
    (hconf : Configured host done lists s)
    {calls : List (List Byte × List Byte)}
    (hrun : calls.foldlM (fun s call => s.setParameters call.1 call.2) s =
      some s') :
    (∀ call ∈ calls, lookAfter host done call.1 ≠ none) ∧
      Configured host done (fun a => lists a ++ calls.filterMap fun call =>
        if lookAfter host done call.1 = some (some a) then some call.2
        else none) s' := by
  induction calls generalizing lists s with
  | nil =>
      obtain rfl := Option.some.inj hrun
      refine ⟨fun call hcall => (List.not_mem_nil hcall).elim, ?_⟩
      simpa using hconf
  | cons call calls ih =>
      rw [List.foldlM_cons, Option.bind_eq_bind, Option.bind_eq_some_iff]
        at hrun
      obtain ⟨mid, hset, hrun⟩ := hrun
      cases hlook : lookAfter host done call.1 with
      | none =>
          rw [Server.setParameters, setServiceCreateParametersByN_eq,
            hconf.look, hlook] at hset
          cases hset
      | some found =>
          obtain ⟨next, hnext, hmid⟩ := hconf.setParameters hlook call.2
          obtain rfl := Option.some.inj (hset.symm.trans hnext)
          obtain ⟨hdefined, hlast⟩ := ih hmid hrun
          refine ⟨List.forall_mem_cons.mpr ⟨?_, hdefined⟩, ?_⟩
          · rw [hlook]
            exact Option.some_ne_none found
          · convert hlast using 2 with a
            rw [List.append_assoc, List.filterMap_cons, hlook]
            by_cases hfound : found = some a
            · simp [hfound]
            · simp [hfound]

end Options

section Loops

/-- What `do_create` is called with does not depend on what other calls of it
returned. -/
theorem traverse_createCalls (pData : Addr → Option Addr) (addrs : List Addr)
    (g : Registry) :
    (traverse (fun g a pS =>
      some ([.create pS.doCreate pS.parameters], { g with
        objects := g.objects.set a { pS with pGlobalData := pData a } }))
      addrs g).map Prod.fst =
      (addrs.mapM (g.objects[·]?)).map (List.map TGService.createCall) := by
  have hcalls : ∀ objects : List TGService,
      (addrs.mapM (objects[·]?)).map (List.map TGService.createCall) =
        addrs.mapM fun a => (objects[a]?).map TGService.createCall := by
    intro objects
    induction addrs with
    | nil => rfl
    | cons a rest ih =>
        rw [List.mapM_cons, List.mapM_cons, ← ih]
        cases objects[a]? with
        | none => rfl
        | some pS => cases rest.mapM (objects[·]?) <;> rfl
  rw [hcalls]
  clear hcalls
  induction addrs generalizing g with
  | nil => rfl
  | cons a rest ih =>
      rw [traverse, List.mapM_cons]
      cases hget : g.objects[a]? with
      | none => rfl
      | some pS =>
          have hsame : ∀ b : Nat, ((g.objects.set a
              { pS with pGlobalData := pData a })[b]?).map
                TGService.createCall =
              (g.objects[b]?).map TGService.createCall := by
            intro b
            by_cases hb : a = b
            · subst hb
              rw [List.getElem?_set_self (List.getElem?_eq_some_iff.mp hget).1,
                hget]
              rfl
            · rw [List.getElem?_set_ne hb]
          have hrest := ih { g with
            objects := g.objects.set a { pS with pGlobalData := pData a } }
          simp only [hsame] at hrest
          simp only [Option.bind_eq_bind, Option.bind_some, Option.map_some,
            ← hrest]
          cases traverse (fun g a pS =>
            some ([.create pS.doCreate pS.parameters], { g with
              objects := g.objects.set a { pS with pGlobalData := pData a } }))
            rest { g with objects :=
              g.objects.set a { pS with pGlobalData := pData a } } <;> rfl

theorem createAllServices_calls (pData : Addr → Option Addr) (g : Registry) :
    (createAllServices pData g).map Prod.fst =
      (loadedServices g).map (List.map TGService.createCall) := by
  rw [createAllServices, forServices, loadedServices]
  cases g.gServices with
  | none => rfl
  | some slots =>
      simp only [Option.bind_eq_bind]
      cases SlotTable.walk slots with
      | none => rfl
      | some addrs => exact traverse_createCalls pData addrs g

/-- The loops over a packed array come to its end unless it is full. -/
theorem Packed.walk {g : Registry} {services : List TGService}
    (hpacked : Packed g services) {slots : List (Option Addr)}
    (harray : g.gServices = some slots) :
    services ≠ [] ∧ SlotTable.walk slots =
      if services.length % defaultServiceSize = 0 then none
      else some (List.range services.length) := by
  have hsome : services ≠ [] := by
    intro hnil
    rw [hpacked.array.mpr hnil] at harray
    cases harray
  have hslots := hpacked.slots
  rw [Registry.slots, harray, Option.getD_some] at hslots
  have hcounts := hpacked.counts
  subst hslots
  rw [defaultServiceSize] at hcounts ⊢
  refine ⟨hsome, ?_⟩
  by_cases hfull : services.length % 10 = 0
  · have hzero : g.gServicesCounts - services.length = 0 := by omega
    rw [if_pos hfull, hzero, List.replicate_zero, List.append_nil]
    exact SlotTable.walk_full _
  · obtain ⟨spare, hspare⟩ : ∃ spare,
        g.gServicesCounts - services.length = spare + 1 :=
      ⟨g.gServicesCounts - services.length - 1, by omega⟩
    rw [if_neg hfull, hspare, List.replicate_succ]
    exact SlotTable.walk_terminated _ _

theorem Packed.loadedServices {g : Registry} (hpacked : Packed g g.objects) :
    loadedServices g =
      if g.objects ≠ [] ∧ g.objects.length % defaultServiceSize = 0 then none
      else some g.objects := by
  rw [TgServer.loadedServices]
  cases harray : g.gServices with
  | none =>
      have hnil := hpacked.array.mp harray
      rw [if_neg fun hfull => hfull.1 hnil, hnil]
  | some slots =>
      obtain ⟨hsome, hwalk⟩ := hpacked.walk harray
      simp only [hwalk, Option.bind_eq_bind]
      by_cases hfull : g.objects.length % defaultServiceSize = 0
      · rw [if_pos hfull, if_pos ⟨hsome, hfull⟩]
        rfl
      · rw [if_neg hfull, if_neg fun hboth => hfull hboth.2]
        exact SlotTable.mapM_of_map hpacked.map_objects

/-- Parameters do not count for how the array is packed. -/
theorem Packed.of_bare {g g' : Registry} {services : List TGService}
    (hpacked : Packed g services) (hbare : g'.bare = g.bare) :
    Packed g' g'.objects := by
  have harray : g'.bare.gServices = g.bare.gServices := by rw [hbare]
  have hcounts : g'.bare.gServicesCounts = g.bare.gServicesCounts := by
    rw [hbare]
  have hnumber : g'.bare.sID = g.bare.sID := by rw [hbare]
  change g'.gServices = g.gServices at harray
  change g'.gServicesCounts = g.gServicesCounts at hcounts
  change g'.sID = g.sID at hnumber
  have hlength : g'.objects.length = services.length := by
    rw [← hpacked.objects, ← g'.bare_length, hbare, g.bare_length]
  have hnil : g'.objects = [] ↔ services = [] := by
    rw [← List.length_eq_zero_iff, hlength, List.length_eq_zero_iff]
  constructor
  · rfl
  · rw [hnumber, hpacked.number, hlength]
  · rw [harray, hpacked.array, hnil]
  · rw [hcounts, hpacked.counts, hlength]
  · rw [Registry.slots, harray, hcounts, hlength]
    exact hpacked.slots

/-- A loaded record has no parameters yet. -/
theorem records_bare (calls : List LoadCall) (sID : Int) :
    (records calls sID).map TGService.bare = records calls sID := by
  induction calls generalizing sID with
  | nil => rfl
  | cons call calls ih =>
      rw [records]
      cases hrecord : call.record sID with
      | none => exact ih sID
      | some pService =>
          obtain ⟨hnone, hzero⟩ := LoadCall.record_unset hrecord
          have hsame : pService.bare = pService := by
            rw [TGService.bare, ← hnone, ← hzero]
          rw [List.map_cons, hsame, ih]

end Loops

section Start

variable {host : Host} {argv : List (List Byte)} {s : Server}

/-- Before `startup` the command line was accepted and walked twice. -/
theorem main_accepts (hmain : main host argv = some (.startup s)) :
    ∃ accepted, initContext host argv .initial = some (0, accepted) ∧
      initPlugin argv accepted = some s := by
  rw [main] at hmain
  split at hmain
  · cases hmain
  · simp only [Option.bind_eq_bind, Option.bind_eq_some_iff] at hmain
    obtain ⟨⟨ret, accepted⟩, hinit, hmain⟩ := hmain
    dsimp only at hmain
    split at hmain
    · obtain ⟨g, -, hmain⟩ := Option.bind_eq_some_iff.mp hmain
      cases hmain
    · next hret =>
        obtain ⟨last, hplugin, hlast⟩ := Option.bind_eq_some_iff.mp hmain
        obtain rfl : last = s := by
          simpa using hlast
        refine ⟨accepted, ?_, hplugin⟩
        obtain ⟨read, hoptions⟩ := initContext_options hinit
        rw [contextOptions_eq, Option.bind_eq_some_iff] at hoptions
        obtain ⟨mid, -, hend⟩ := hoptions
        split at hend
        · rw [hinit, ← (Prod.mk.inj (Option.some.inj hend)).1]
        · obtain ⟨g, -, heq⟩ := Option.map_eq_some_iff.mp hend
          exact absurd (Prod.mk.inj heq).1.symm hret

theorem initPlugin_pairs (argv : List (List Byte)) (s : Server) :
    initPlugin argv s = (pluginPairs argv.tail).bind fun taken =>
      (taken.filterMap pluginCall).foldlM
        (fun s call => s.setParameters call.1 call.2) s := by
  rw [← pluginOptions_pairs, initPlugin, List.drop_one]
  split
  · next hshort =>
      have hnil : argv.tail = [] := by
        rw [← List.length_eq_zero_iff, List.length_tail]
        omega
      rw [hnil]
      rfl
  · rfl

/-- The parts of such a start. -/
theorem main_parts (hmain : main host argv = some (.startup s)) :
    ∃ pairs taken start accepted,
      contextPairs argv.tail = some pairs ∧
      pluginPairs argv.tail = some taken ∧
      contextStart host argv.length = some start ∧
      pairs.foldlM (contextStep host) start = some accepted ∧
      (taken.filterMap pluginCall).foldlM
        (fun s call => s.setParameters call.1 call.2) accepted = some s := by
  obtain ⟨accepted, hinit, hplugin⟩ := main_accepts hmain
  have hargv : argv ≠ [] := by
    rintro rfl
    simp [initContext] at hinit
  rw [initContext_start hargv, Option.bind_eq_some_iff] at hinit
  obtain ⟨start, hstart, hoptions⟩ := hinit
  obtain ⟨pairs, hpairs⟩ := contextPairs_of_accepts host hoptions
  rw [contextOptions_pairs host hpairs, Option.map_eq_some_iff] at hoptions
  obtain ⟨mid, hrun, heq⟩ := hoptions
  obtain rfl := (Prod.mk.inj heq).2
  rw [initPlugin_pairs, Option.bind_eq_some_iff] at hplugin
  obtain ⟨taken, htaken, hcalls⟩ := hplugin
  exact ⟨pairs, taken, start, mid, hpairs, htaken, hstart, hrun, hcalls⟩

variable (hclear : ∀ n, Cleared host.junk n) (hstrings : ∀ arg ∈ argv, 0 ∉ arg)

include hclear hstrings

/-- It leaves each service what it is given. -/
theorem main_configured (hmain : main host argv = some (.startup s)) :
    Configured host
      (valuesOf (char 's') ((contextPairs argv.tail).getD []))
      (textsFor host argv) s := by
  obtain ⟨pairs, taken, start, mid, hpairs, htaken, hstart, hrun, hcalls⟩ :=
    main_parts hmain
  obtain ⟨hfile, hconf⟩ := contextStart_lists hstart
  rcases contextSteps_ends hconf pairs with
    ⟨-, hnone⟩ | ⟨hevents, last, hlast, hmid⟩
  · rw [hrun] at hnone
    cases hnone
  obtain rfl := Option.some.inj (hrun.symm.trans hlast)
  obtain ⟨hdefined, hend⟩ := setParameters_lists hmid hcalls
  rw [List.nil_append] at hend
  rw [hpairs, Option.getD_some]
  convert hend using 2 with a
  have hfirst : (startSettings host argv.length).filterMap
      (stored (lookAfter host []) a) =
        ((startSettings host argv.length).filterMap fun setting =>
          (serviceLine setting).map (([], ·))).filterMap
            (GivenLine.textFor host a) := by
    rw [List.filterMap_filterMap]
    exact List.filterMap_congr fun setting hsetting =>
      stored_place hclear (startSettings_file hsetting) (hfile _ hsetting) a
  have hfiles : ((events host pairs []).filterMap fun event =>
      stored (lookAfter host event.1) a event.2) =
        ((events host pairs []).filterMap fun event =>
          (serviceLine event.2).map ((event.1, ·))).filterMap
            (GivenLine.textFor host a) := by
    rw [List.filterMap_filterMap]
    exact List.filterMap_congr fun event hevent =>
      stored_place hclear (events_file hevent) (hevents event hevent) a
  have hoptions : ((taken.filterMap pluginCall).filterMap fun call =>
      if lookAfter host (valuesOf (char 's') pairs) call.1 = some (some a)
        then some call.2 else none) =
        ((taken.filterMap serviceCall).map
          ((valuesOf (char 's') pairs, ·))).filterMap
            (GivenLine.textFor host a) := by
    rw [List.filterMap_map, funext pluginCall_serviceCall]
    rw [funext pluginCall_serviceCall] at hdefined
    refine List.filterMap_congr fun call hcall => ?_
    obtain ⟨pair, hpair, hasked⟩ := List.mem_filterMap.mp hcall
    have hname := serviceCall_string (hstrings _
      (List.mem_of_mem_tail (pluginPairs_mem htaken hpair))) hasked
    exact if_congr (placeOf_iff hclear hname (hdefined call hcall) a) rfl rfl
  rw [hfirst, hfiles, hoptions, textsFor, givenLines, hpairs, htaken,
    Option.getD_some, Option.getD_some, List.filterMap_append,
    List.filterMap_append]

omit hstrings in
theorem Configured.packed {lists : Addr → List (List Byte)}
    {done : List (List Byte)} (hconf : Configured host done lists s) :
    s.registry.objects.map TGService.bare = servicesAfter host done ∧
      Packed s.registry s.registry.objects := by
  obtain ⟨g, hload, hbare⟩ := hconf.loaded
  have hpacked := loadAfter_packed hclear hload
  refine ⟨?_, hpacked.of_bare hbare⟩
  have hobjects : s.registry.bare.objects = g.bare.objects := by rw [hbare]
  have hservices : g.bare.objects = servicesAfter host done := by
    rw [Registry.bare, hpacked.objects]
    exact records_bare _ 0
  exact hobjects.trans hservices

/-- Every start that comes to `startup` leaves the libraries it found in the
order it found them, gives each of them just what the files and the options give
under its name, in order, and calls `do_create` once for each, and a client
process `do_init`, with the array that holds this. -/
theorem main_configures (hmain : main host argv = some (.startup s)) :
    Configures host argv s.registry := by
  have hconf := main_configured hclear hstrings hmain
  obtain ⟨hservices, hpacked⟩ := hconf.packed hclear
  have howned := hconf.holding.owned
  have hloaded := hpacked.loadedServices
  refine ⟨hservices, fun a pSer hget => (howned.owner hget).holdsTexts,
    fun a pSer hget hsome => (howned.owner hget).endsWithin_iff hsome, ?_, ?_⟩
  · intro pData
    have hcalls := createAllServices_calls pData s.registry
    rw [hloaded] at hcalls
    split at hcalls
    · next hfull => simpa [hfull] using hcalls
    · next hroom =>
        refine iff_of_false (fun hnone => ?_) hroom
        rw [hnone] at hcalls
        cases hcalls
  · intro pData calls g' hcreate
    have hcalls := createAllServices_calls pData s.registry
    rw [hcreate, hloaded] at hcalls
    split at hcalls
    · cases hcalls
    · next hroom =>
        have hsame := createAllServices_same hcreate
        refine ⟨Option.some.inj hcalls, ?_⟩
        have hnew := (hsame.packed hpacked).loadedServices
        have hempty : g'.objects = [] ↔ s.registry.objects = [] := by
          rw [← List.length_eq_zero_iff, hsame.length,
            List.length_eq_zero_iff]
        have hroom' : ¬(g'.objects ≠ [] ∧
            g'.objects.length % defaultServiceSize = 0) := by
          rwa [ne_eq, hempty, hsame.length]
        rw [if_neg hroom'] at hnew
        rw [initAllServices_eq, hnew, Option.map_some]
        have hdata := congrArg (List.map TGService.initCall) hsame.records
        rw [List.map_map, List.map_map] at hdata
        exact congrArg (fun calls => some (calls, g')) hdata

end Start

namespace StartUp

/-- A host with one library in the default directory and one in any other, and
one file. -/
def host : Host :=
  ⟨none, fun dir =>
      if dir = ascii "../plugins/" then
        some [⟨ascii ".", false⟩, ⟨ascii "echo", true⟩]
      else some [⟨ascii "log", true⟩],
    fun _ => some ⟨some 1, some 2, some 3, some 4, some 5⟩,
    fun _ => some (ascii "port=80\n[D]log=a\n[D]echo=b\n"), fun _ => 0,
    fun _ _ => none⟩

/-- The file is read again once `log` is loaded. -/
def argv : List (List Byte) :=
  [ascii "tgserver", ascii "-D", ascii "echo=c=d", ascii "-f", ascii "conf",
    ascii "-s", ascii "lib", ascii "-f", ascii "conf", ascii "-Dx",
    ascii "log=e"]

theorem main_configures_argv :
    ∃ s, main host argv = some (.startup s) ∧
      Configures host argv s.registry ∧
      textsFor host argv 0 =
        [ascii "b\n", ascii "b\n", ascii "c=d"] ∧
      textsFor host argv 1 = [ascii "a\n", ascii "e"] := by
  obtain ⟨s, hmain⟩ : ∃ s, main host argv = some (.startup s) := ⟨_, rfl⟩
  exact ⟨s, hmain,
    main_configures (fun _ _ _ _ => rfl) (by decide) hmain, by decide +kernel,
    by decide +kernel⟩

end StartUp

end TgServer
