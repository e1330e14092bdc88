/-
The service a request is for: what `__check_request` makes of the text between
"tg://" and the next separator, and what it does with the buffer it copies that
text into.
-/
import TgServer.Response
import TgServer.ServiceLookup

namespace TgServer

open Bytes

/-- What is done with `name`: its declared size, the octets `strncpy` stores
from its start on, and the string `findServiceN` reads there. -/
structure NameUse where
  size : Int
  stored : List Byte
  passed : List Byte
deriving Repr, DecidableEq

/-- The result of `__check_request`, the service it hands out, and its use of
`name` if it gets that far. -/
structure RequestCheck where
  ret : Int
  pService : Option TGService
  name : Option NameUse
deriving Repr, DecidableEq

/-- `__check_request` with its buffer; `stack` is what lies behind the octets
stored. -/
def checkRequestName (registry : Registry) (pReq stack : List Byte) :
    Option RequestCheck := do
  if ← startsWith pReq header then
    let len := header.length
    let rest := pReq.drop len
    let pos := findSeparator (← cString rest) (ascii "/") []
    if pos ≠ -1 then
      let stored := strncpy rest pos.toNat
      let passed ← cString (stored ++ stack)
      let name : NameUse := ⟨pos - len, stored, passed⟩
      match ← findServiceN registry passed with
      | some pReqService => return ⟨0, some pReqService, some name⟩
      | none => return ⟨-1, none, some name⟩
    else return ⟨1, none, none⟩
  else return ⟨1, none, none⟩

/-- The same function without the record of the buffer. -/
theorem checkRequest_eq_map (registry : Registry) (pReq stack : List Byte) :
    checkRequest registry pReq stack =
      (checkRequestName registry pReq stack).map fun check =>
        (check.ret, check.pService) := by
  rw [checkRequest, checkRequestName]
  cases startsWith pReq header with
  | none => rfl
  | some starts =>
      cases starts with
      | false => rfl
      | true =>
          cases htext : cString (pReq.drop header.length) with
          | none => simp [htext]
          | some text =>
              simp only [Option.bind_eq_bind, Option.bind_some, ↓reduceIte,
                htext]
              split
              · cases cString (strncpy (pReq.drop header.length)
                  (findSeparator text (ascii "/") []).toNat ++ stack) with
                | none => rfl
                | some passed =>
                    cases hfound : findServiceN registry passed with
                    | none => simp [hfound]
                    | some found => cases found <;> simp [hfound]
              · rfl

/-- The request starts with "tg://", this name and a separator. -/
def Requests (text name : List Byte) : Prop :=
  char '/' ∉ name ∧ header ++ name ++ [char '/'] <+: text

/-- The results a request has to have. -/
structure Answers (services : List TGService) (text : List Byte)
    (check : RequestCheck) : Prop where
  illegal : check.ret = 1 ↔ ¬ ∃ name, Requests text name
  unknown : check.ret = -1 ↔ ∃ name, Requests text name ∧
    ∀ pS ∈ services, pS.name ≠ some name
  /-- A copy of the first service of the name. -/
  found : ∀ name pS, Requests text name →
    services.find? (·.name == some name) = some pS →
    check.ret = 0 ∧ check.pService = copyService pS

/-- The buffer holds the requested name and its end. -/
structure NameUse.Exact (use : NameUse) (text : List Byte) : Prop where
  passed : Requests text use.passed
  terminated : use.passed ++ [0] <+: use.stored
  inside : (use.stored.length : Int) ≤ use.size

/-- A request string is answered as it has to be, by way of a buffer that holds
the name. -/
def AddressesRequest (g : Registry) (services : List TGService)
    (text behind stack : List Byte) : Prop :=
  ∃ check, checkRequestName g (text ++ 0 :: behind) stack = some check ∧
    Answers services text check ∧ ∀ use ∈ check.name, use.Exact text

section Check

variable {text : List Byte}

theorem Requests.eq_takeWhile {name : List Byte}
    (hname : Requests text name) :
    name = (text.drop header.length).takeWhile (· != char '/') := by
  obtain ⟨hfree, back, rfl⟩ := hname
  have hall : ∀ c ∈ name, (c != char '/') = true := fun c hc =>
    bne_iff_ne.mpr fun heq => hfree (heq ▸ hc)
  rw [List.append_assoc, List.append_assoc, List.drop_left,
    List.takeWhile_append_of_pos hall]
  simp

theorem Requests.unique {first second : List Byte}
    (hfirst : Requests text first) (hsecond : Requests text second) :
    first = second :=
  hfirst.eq_takeWhile.trans hsecond.eq_takeWhile.symm

/-- A request without a name is illegal, and the buffer is not reached. -/
theorem checkRequestName_illegal (g : Registry) (htext : 0 ∉ text)
    (behind stack : List Byte) (hnone : ¬ ∃ name, Requests text name) :
    checkRequestName g (text ++ 0 :: behind) stack = some ⟨1, none, none⟩ := by
  rw [checkRequestName, startsWith_terminated behind (by decide)]
  by_cases hheader : header <+: text
  · obtain ⟨rest, rfl⟩ := hheader
    have hrest : 0 ∉ rest := fun hmem =>
      htext (List.mem_append_right header hmem)
    have hfree : char '/' ∉ rest := by
      intro hmem
      obtain ⟨name, back, rfl, hname⟩ := List.eq_append_cons_of_mem hmem
      exact hnone ⟨name, hname, back, by simp⟩
    have hpos : findSeparator rest (ascii "/") [] = -1 :=
      findSeparator_none [] (c := char '/') (by decide) hfree
    simp [cString_terminated behind hrest, hpos]
  · simp [hheader]

/-- Any other request has its name copied, and what lies behind the copy is
part of the string looked up. -/
theorem checkRequestName_named (g : Registry) (htext : 0 ∉ text)
    (behind stack : List Byte) {name : List Byte}
    (hname : Requests text name) :
    checkRequestName g (text ++ 0 :: behind) stack =
      (cString (name ++ stack)).bind fun passed =>
        (findServiceN g passed).map fun found =>
          ⟨if found.isSome then 0 else -1, found,
            some ⟨name.length - header.length, name, passed⟩⟩ := by
  obtain ⟨hfree, back, rfl⟩ := hname
  have hheader : header <+: header ++ name ++ [char '/'] ++ back :=
    ⟨name ++ [char '/'] ++ back, by simp⟩
  have hdrop : (header ++ name ++ [char '/'] ++ back ++ 0 :: behind).drop
      header.length = (name ++ char '/' :: back) ++ 0 :: behind := by
    simp
  have hrest : 0 ∉ name ++ char '/' :: back := fun hmem =>
    htext (by simpa using List.mem_append_right header hmem)
  have hpos : findSeparator (name ++ char '/' :: back) (ascii "/") [] =
      name.length :=
    findSeparator_split [] (c := char '/') (by decide) hfree back
  have hstored : strncpy ((name ++ char '/' :: back) ++ 0 :: behind)
      name.length = name := by
    rw [List.append_assoc]
    exact strncpy_append (fun hmem => hrest (List.mem_append_left _ hmem)) _
  have hsome : (name.length : Int) ≠ -1 := by omega
  rw [checkRequestName, startsWith_terminated behind (by decide)]
  simp only [hheader, decide_true, Option.bind_eq_bind, Option.bind_some,
    ↓reduceIte, hdrop, cString_terminated behind hrest, hpos, hsome, ne_eq,
    not_false_eq_true, Int.toNat_natCast, hstored]
  cases cString (name ++ stack) with
  | none => rfl
  | some passed =>
      rw [Option.bind_some, Option.bind_some]
      cases findServiceN g passed with
      | none => rfl
      | some found => cases found <;> rfl

end Check

section Address

variable {g : Registry} {services : List TGService} {text : List Byte}

/-- A request without a name is answered. -/
theorem answers_illegal (services : List TGService)
    (hnone : ¬ ∃ name, Requests text name) :
    Answers services text ⟨1, none, none⟩ where
  illegal := by simpa using hnone
  unknown := by
    constructor
    · intro hret
      cases hret
    · rintro ⟨name, hname, -⟩
      exact absurd ⟨name, hname⟩ hnone
  found := by
    intro name pS hname
    exact absurd ⟨name, hname⟩ hnone

/-- A request for a name is answered by what a search for the name finds. -/
theorem answers_named (hloaded : Loaded g services) {name : List Byte}
    (hname : Requests text name) (use : Option NameUse)
    {found : Option TGService}
    (hfound : found =
      (services.find? (·.name == some name)).bind copyService) :
    Answers services text ⟨if found.isSome then 0 else -1, found, use⟩ := by
  cases hfind : services.find? (·.name == some name) with
  | none =>
      rw [hfind, Option.bind_none] at hfound
      subst hfound
      have hmissing : ∀ pS ∈ services, pS.name ≠ some name := fun pS hpS =>
        by simpa using List.find?_eq_none.mp hfind pS hpS
      constructor
      · simpa using ⟨name, hname⟩
      · simpa using ⟨name, hname, hmissing⟩
      · intro other pS hother hfirst
        rw [hother.unique hname, hfind] at hfirst
        cases hfirst
  | some first =>
      have hmem := List.mem_of_find?_eq_some hfind
      have hnamed : first.name = some name := by
        simpa using List.find?_some hfind
      have hcopy := copyService_named (hloaded.named first hmem)
      rw [hfind, Option.bind_some, hcopy] at hfound
      subst hfound
      constructor
      · simpa using ⟨name, hname⟩
      · constructor
        · intro hret
          simp at hret
        · rintro ⟨other, hother, hmissing⟩
          rw [hother.unique hname] at hmissing
          exact absurd hnamed (hmissing first hmem)
      · intro other pS hother hfirst
        rw [hother.unique hname, hfind, Option.some.injEq] at hfirst
        exact ⟨rfl, hfirst ▸ hcopy.symm⟩

/-- The octets copied are more than the buffer is declared to hold, so no
request for a service is addressed by way of it; a request that names none is
illegal.  If the frame survives the stores and a NUL happens to follow, the
results are right. -/
theorem addressesRequest_iff (hloaded : Loaded g services) (htext : 0 ∉ text)
    (behind stack : List Byte) :
    (AddressesRequest g services text behind stack ↔
      ¬ ∃ name, Requests text name) ∧
    ∀ more, stack = 0 :: more →
      ∃ check, checkRequestName g (text ++ 0 :: behind) stack = some check ∧
        Answers services text check := by
  have hillegal := checkRequestName_illegal g htext behind stack
  refine ⟨⟨?_, ?_⟩, ?_⟩
  · rintro ⟨check, hcheck, -, huse⟩ ⟨name, hname⟩
    rw [checkRequestName_named g htext behind stack hname] at hcheck
    simp only [Option.bind_eq_some_iff, Option.map_eq_some_iff] at hcheck
    obtain ⟨passed, -, found, -, rfl⟩ := hcheck
    have hinside := (huse _ rfl).inside
    have hheader : header.length = 5 := rfl
    simp only [hheader] at hinside
    omega
  · intro hnone
    exact ⟨_, hillegal hnone, answers_illegal services hnone, by simp⟩
  · rintro more rfl
    by_cases hsome : ∃ name, Requests text name
    · obtain ⟨name, hname⟩ := hsome
      have hnul : 0 ∉ name := by
        obtain ⟨-, back, rfl⟩ := hname
        exact fun hmem => htext (by simp [hmem])
      have hcheck := checkRequestName_named g htext behind (0 :: more) hname
      rw [cString_terminated more hnul, Option.bind_some,
        findServiceN_loaded hloaded hnul, Option.map_some] at hcheck
      exact ⟨_, hcheck, answers_named hloaded hname _ rfl⟩
    · exact ⟨_, hillegal hsome, answers_illegal services hsome⟩

/-- Where the results are right, a service of the name in the request is
reached, though an earlier one of the same name may be. -/
theorem Answers.reached {check : RequestCheck}
    (hanswers : Answers services text check) {name : List Byte}
    (hname : Requests text name) {pS : TGService} (hmem : pS ∈ services)
    (hnamed : pS.name = some name) :
    check.ret = 0 ∧ ∃ first ∈ services, first.name = some name ∧
      check.pService = copyService first := by
  cases hfind : services.find? (·.name == some name) with
  | none =>
      have hmissing := List.find?_eq_none.mp hfind pS hmem
      exact absurd hnamed (by simpa using hmissing)
  | some first =>
      obtain ⟨hret, hservice⟩ := hanswers.found name first hname hfind
      have hfirst : first.name = some name := by
        simpa using List.find?_some hfind
      exact ⟨hret, first, List.mem_of_find?_eq_some hfind, hfirst, hservice⟩

/-- A service is registered under the last part of its path. -/
theorem LoadCall.record_path {call : LoadCall} {sID : Int} {pS : TGService}
    (hrecord : call.record sID = some pS) {directory name : List Byte}
    (hpath : call.path = directory ++ char '/' :: name)
    (hname : char '/' ∉ name) (hnul : 0 ∉ name) : pS.name = some name := by
  rw [TGService.name, (record_name hrecord).2, libName, hpath,
    getLibName_path [] call.below directory hname hnul, Option.getD_some,
    Option.bind_some, cString_terminated [0] hnul]

end Address

namespace RequestAddress

def service : TGService :=
  ⟨0, some (ascii "weather" ++ 0 :: [0]), none, 0, 1, 2, 3, 4, 5, none⟩

/-- One service and a NULL slot behind it. -/
def registry : Registry := ⟨some [some 0, none], 10, 1, [service], []⟩

theorem registry_loaded : Loaded registry [service] where
  slots := Or.inr ⟨[0], [], rfl, rfl⟩
  named := by
    intro pS hpS
    rw [List.mem_singleton.mp hpS]
    exact ⟨_, rfl, by decide⟩

theorem addressesRequest_iff_weather :
    (AddressesRequest registry [service] (ascii "tg://weather/today") [] [0] ↔
      ¬ ∃ name, Requests (ascii "tg://weather/today") name) ∧
    ∀ more : List Byte, [0] = 0 :: more →
      ∃ check, checkRequestName registry (ascii "tg://weather/today" ++ 0 :: [])
          [0] = some check ∧
        Answers [service] (ascii "tg://weather/today") check :=
  @addressesRequest_iff registry [service] (ascii "tg://weather/today")
    registry_loaded (by decide) [] [0]

/-- Seven octets are stored from the start of a buffer of two. -/
theorem addressesRequest_outside :
    checkRequestName registry (ascii "tg://weather/today" ++ 0 :: []) [0] =
      some ⟨0, some { service with serviceName := some (ascii "weather") },
        some ⟨2, ascii "weather", ascii "weather"⟩⟩ ∧
    ¬ AddressesRequest registry [service] (ascii "tg://weather/today") []
      [0] := by
  have hcheck :
      checkRequestName registry (ascii "tg://weather/today" ++ 0 :: []) [0] =
        some ⟨0, some { service with serviceName := some (ascii "weather") },
          some ⟨2, ascii "weather", ascii "weather"⟩⟩ := by
    decide
  refine ⟨hcheck, ?_⟩
  rintro ⟨check, hsame, -, huse⟩
  obtain rfl := Option.some.inj (hcheck.symm.trans hsame)
  exact absurd (huse _ rfl).inside (by decide)

end RequestAddress

end TgServer
