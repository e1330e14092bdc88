/-
What becomes of the events the reader thread makes of the octets in the
control pipe: the reader and `CHECK_EVENT` let all types up to `MSG_TYPE_MAX`
pass, the handler table ends long before that, and one of its handlers needs
data that no event from the pipe has.
-/
import TgServer.ControlPipe
import TgServer.Response

namespace TgServer

open Bytes ByteStream

universe u

def Signal.event (signal : Signal) : TGEvent :=
  ⟨-1, signal.type, signal.data, none⟩

def handlerIndex (type : Int) : Nat := (type - msgTypeBase).toNat

/-- The event is rejected without effect, or the table has a handler for it
that does the same whatever the data are. -/
def Dispatchable (p : Child) (stack : List Byte) (reply : Option Reply)
    (signal : Signal) : Prop :=
  (checkEvent signal.event = false ∧
    handleResponse p ⟨signal.event, stack, reply⟩ = some (-1, [])) ∨
  checkEvent signal.event = true ∧ ∃ run, ∀ data,
    (gHandleResponseFp p ⟨{ signal.event with data := data }, stack, reply⟩)[
      handlerIndex signal.type]? = some run

/-- The text `atoi` reads a message type from: the octets six to nine of what
a read returned, and what lies behind `no`. -/
def typeText (octets stack : List Byte) : List Byte :=
  strncpy ((octets ++ List.replicate (bufSize - octets.length) 0).drop 5) 4 ++
    stack

/-- A number that passes both range tests and has no place in the table, or
the place of the handler that needs data. -/
def Stray (type : Int) : Prop :=
  type = msgTypeClientRequest ∨
    msgTypeClientBeClosedByAdmin < type ∧ type ≤ msgTypeMax

section Handlers

variable (p : Child) (stack : List Byte) (reply : Option Reply)

theorem handleResponseClientRequest_data (event : TGEvent)
    (hcheck : checkEvent event = true) (run : Option (Int × List Effect)) :
    ¬ ∀ data, handleResponseClientRequest p
      ⟨{ event with data := data }, stack, reply⟩ = run := by
  intro hsame
  have hcheck' : ∀ data, checkEvent { event with data := data } = true :=
    fun _ => hcheck
  have hnull := hsame none
  have htext := hsame (some [0])
  have hother : startsWith [0] header = some false := rfl
  have hsend : send p.client responseRequireStrIllegal (1, []) =
      some (1, [.write p.client.sockfd (ascii "tg://2002/")]) := rfl
  simp [handleResponseClientRequest, hcheck'] at hnull
  simp [handleResponseClientRequest, hcheck', checkRequest, hother,
    ← hnull, hsend] at htext

/-- An event without data is dealt with exactly if its type is not stray. -/
theorem dispatchable_iff (type : Int) :
    Dispatchable p stack reply ⟨type, none⟩ ↔ ¬ Stray type := by
  have hcheck : checkEvent (Signal.event ⟨type, none⟩) = true ↔
      1000 ≤ type ∧ type ≤ 1050 := by
    rw [checkEvent, Bool.and_eq_true, decide_eq_true_eq, decide_eq_true_eq]
    rfl
  have hstray : Stray type ↔ type = 1001 ∨ 1005 < type ∧ type ≤ 1050 :=
    Iff.rfl
  have hindex : handlerIndex type = (type - 1000).toNat := rfl
  by_cases hrange : 1000 ≤ type ∧ type ≤ 1050
  swap
  · have hfalse := eq_false_of_ne_true fun htrue => hrange (hcheck.mp htrue)
    refine iff_of_true (Or.inl ⟨hfalse, ?_⟩) (by rw [hstray]; omega)
    rw [handleResponse, hfalse]
    rfl
  have htrue := hcheck.mpr hrange
  constructor
  · rintro (⟨hfalse, -⟩ | ⟨-, run, hrun⟩) hbad
    · rw [htrue] at hfalse
      cases hfalse
    · rw [hstray] at hbad
      rcases hbad with rfl | ⟨hhigh, -⟩
      · apply handleResponseClientRequest_data p stack reply _ htrue run
        intro data
        exact Option.some.inj (hrun data)
      · have hout : 6 ≤ handlerIndex type := by
          rw [hindex]
          omega
        have hnone := List.getElem?_eq_none (l := gHandleResponseFp p
          ⟨Signal.event ⟨type, none⟩, stack, reply⟩) hout
        have hsome := hrun none
        change (gHandleResponseFp p
          ⟨Signal.event ⟨type, none⟩, stack, reply⟩)[handlerIndex type]? =
            some run at hsome
        rw [hnone] at hsome
        cases hsome
  · intro hgood
    rw [hstray] at hgood
    refine Or.inr ⟨htrue, ?_⟩
    have hcases : type = 1000 ∨ type = 1002 ∨ type = 1003 ∨ type = 1004 ∨
        type = 1005 := by omega
    rcases hcases with rfl | rfl | rfl | rfl | rfl <;>
      exact ⟨_, fun _ => rfl⟩

end Handlers

theorem pipeCall_octets {ρ : Type u} {client : TGClient}
    (hpipe : 0 ≤ client.readPipe) (read : Descriptor ρ)
    (stack : ρ → List Byte) (s : ρ) {octets : List Byte}
    (hread : (read s bufSize).1 = .data octets) (hsome : octets ≠ []) :
    (pipeCall client read stack s).1 =
      [⟨Decimal.atoi (typeText octets (stack s)), none⟩] := by
  have hnot : ¬ client.readPipe < 0 := by omega
  cases hcall : read s bufSize with
  | mk result s' =>
      rw [hcall] at hread
      dsimp only at hread
      subst hread
      cases octets with
      | nil => exact absurd rfl hsome
      | cons c cs =>
          simp only [pipeCall, readDataFromMainProcess, hnot, ↓reduceIte,
            hcall, typeText]
          split <;> rfl

theorem pipeCall_silent {ρ : Type u} {client : TGClient}
    {read : Descriptor ρ} {stack : ρ → List Byte} {s : ρ}
    (hsilent : client.readPipe < 0 ∨ (read s bufSize).1 = .failed ∨
      (read s bufSize).1 = .data []) :
    (pipeCall client read stack s).1 = [] := by
  by_cases hclosed : client.readPipe < 0
  · simp [pipeCall, readDataFromMainProcess, hclosed, signalOf]
  rcases hsilent.resolve_left hclosed with hresult | hresult
  all_goals
    cases hcall : read s bufSize with
    | mk result s' =>
        rw [hcall] at hresult
        dsimp only at hresult
        subst hresult
        simp [pipeCall, readDataFromMainProcess, hclosed, hcall, signalOf]

/-- Whatever is read from the control pipe, the event that is enqueued is
rejected or handled without its data exactly if the number in the octets is
not a stray one. -/
theorem pipeCall_dispatchable_iff {ρ : Type u} (p : Child)
    (frame : List Byte) (reply : Option Reply) (read : Descriptor ρ)
    (stack : ρ → List Byte) (s : ρ) :
    (∀ signal ∈ (pipeCall p.client read stack s).1,
        Dispatchable p frame reply signal) ↔
      (0 ≤ p.client.readPipe → ∀ octets, octets ≠ [] →
        (read s bufSize).1 = .data octets →
        ¬ Stray (Decimal.atoi (typeText octets (stack s)))) := by
  constructor
  · intro hall hpipe octets hsome hread
    rw [pipeCall_octets hpipe read stack s hread hsome] at hall
    exact (dispatchable_iff p frame reply _).mp (hall _ List.mem_cons_self)
  · intro hgood signal hsignal
    by_cases hclosed : p.client.readPipe < 0
    · rw [pipeCall_silent (Or.inl hclosed)] at hsignal
      cases hsignal
    cases hresult : (read s bufSize).1 with
    | failed =>
        rw [pipeCall_silent (Or.inr (Or.inl hresult))] at hsignal
        cases hsignal
    | data octets =>
        by_cases hsome : octets = []
        · subst hsome
          rw [pipeCall_silent (Or.inr (Or.inr hresult))] at hsignal
          cases hsignal
        · have hpipe : 0 ≤ p.client.readPipe := by omega
          rw [pipeCall_octets hpipe read stack s hresult hsome,
            List.mem_singleton] at hsignal
          subst hsignal
          exact (dispatchable_iff p frame reply _).mpr
            (hgood hpipe octets hsome hresult)

namespace PipeEvents

def child : Child :=
  ⟨.initial, .initial, ⟨0, 5, 6, 7, none, 0⟩, Globals.initial_fits⟩

/-- The type 1030 passes the range tests and lies outside the table. -/
theorem dispatchable_outside :
    (pipeCall child.client (Source.read ⟨ascii "tg://1030/", fun _ => 10⟩)
        (fun _ => [0]) 0).1 = [⟨1030, none⟩] ∧
      ¬ Dispatchable child [] none ⟨1030, none⟩ := by
  refine ⟨by decide, ?_⟩
  rw [dispatchable_iff, not_not]
  exact Or.inr (by decide)

end PipeEvents

end TgServer
