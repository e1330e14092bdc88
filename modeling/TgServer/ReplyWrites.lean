/-
The octets of one reply of a service: what is handed to `write`, what a client
recovers from it, and what the socket has accepted when `write` takes fewer
octets than it is handed.
-/
import TgServer.ReplyStream

namespace TgServer

open Bytes

/-- The data a service returned. -/
def Reply.data (reply : Reply) : List Byte :=
  (reply.block.drop 4).take (intAt reply.block).toNat

/-- A client that reads the length, takes off the four octets of the length
and the ten of the header, and reads that many octets behind the header. -/
def readReply (stream : List Byte) : Option (List Byte) :=
  let size := intAt stream - 4 - 10
  if size < 0 ∨ stream.length < 14 + size.toNat then none
  else some ((stream.drop 14).take size.toNat)

/-- The reply is handed to `write` behind its length and its header, and the
client gets the data back. -/
def RoundTrips (p : Child) (turn : Turn) (reply : Reply) : Prop :=
  ∃ effects, handleResponseClientRequest p turn = some (0, effects) ∧
    written p.client.sockfd effects =
      le32 (14 + (intAt reply.block).toNat) ++ ascii "tg://2000/" ++
        reply.data ∧
    readReply (written p.client.sockfd effects) = some reply.data

/-- What the socket accepts of the octets written to it: the `i`-th call takes
`outcome i` octets, at least one and at most all it is handed. -/
def accepted (fd : Int) (outcome : Nat → Nat) : Nat → List Effect → List Byte
  | _, [] => []
  | i, .write target octets :: rest =>
      if target = fd then
        octets.take (max 1 (outcome i)) ++ accepted fd outcome (i + 1) rest
      else accepted fd outcome i rest
  | i, _ :: rest => accepted fd outcome i rest

/-- The whole message for a reply: length, header and data, or the bare notice
for a size that is not positive. -/
def Reply.message (reply : Reply) : List Byte :=
  if 0 < intAt reply.block then
    le32 (14 + (intAt reply.block).toNat) ++ ascii "tg://2000/" ++ reply.data
  else ascii "tg://2006/"

/-- When the handler returns, the socket has accepted the whole message. -/
def DeliversWhole (p : Child) (turn : Turn) (reply : Reply)
    (outcome : Nat → Nat) : Prop :=
  ∃ effects, handleResponseClientRequest p turn = some (0, effects) ∧
    accepted p.client.sockfd outcome 0 effects = reply.message

/-- Every call of `write` takes all it is handed, and the length of the message
is an `int`. -/
def AcceptsAll (reply : Reply) (outcome : Nat → Nat) : Prop :=
  if 0 < intAt reply.block then
    14 + intAt reply.block < 2 ^ 31 ∧ 14 ≤ outcome 0 ∧
      intAt reply.block ≤ max 1 (outcome 1)
  else 10 ≤ outcome 0

instance (reply : Reply) (outcome : Nat → Nat) :
    Decidable (AcceptsAll reply outcome) :=
  inferInstanceAs (Decidable (ite _ _ _))

theorem Reply.length_data (reply : Reply) :
    reply.data.length = (intAt reply.block).toNat := by
  have hcovers := reply.covers
  rw [Reply.data, List.length_take, List.length_drop]
  omega

section Handler

variable {p : Child} {turn : Turn} {pReq : List Byte} {pSer : TGService}
variable {reply : Reply} (hevent : checkEvent turn.event = true)
variable (hdata : turn.event.data = some pReq)
variable (hcheck : checkRequest p.registry pReq turn.stack =
  some (0, some pSer))
variable (hreply : turn.reply = some reply)

include hevent hdata hcheck hreply

/-- The handler calls the service and does with its reply what `replyData`
does. -/
theorem handleResponseClientRequest_replied {ret : Int} {effects : List Effect} :
    handleResponseClientRequest p turn = some (ret, effects) ↔
      ∃ sent, replyData p reply = some (ret, sent) ∧
        effects = .doRequest pSer.doRequest pReq :: sent := by
  rw [handleResponseClientRequest, hevent, hdata]
  simp only [Bool.not_true, Bool.false_eq_true, ↓reduceIte,
    Option.bind_eq_bind, Option.bind_some, hcheck, hreply]
  rw [Option.bind_eq_some_iff]
  constructor
  · rintro ⟨⟨code, sent⟩, hsent, hresult⟩
    rw [Option.pure_def, Option.some.injEq, Prod.mk.injEq] at hresult
    obtain ⟨rfl, rfl⟩ := hresult
    exact ⟨sent, hsent, rfl⟩
  · rintro ⟨sent, hsent, rfl⟩
    exact ⟨(ret, sent), hsent, rfl⟩

end Handler

section ReplyData

variable (p : Child) {reply : Reply}

/-- A reply with data takes two writes. -/
theorem replyData_pos (hpos : 0 < intAt reply.block)
    (hsize : 14 + intAt reply.block < 2 ^ 31) :
    replyData p reply = some (0,
      [.write p.client.sockfd
          (le32 (14 + (intAt reply.block).toNat) ++ ascii "tg://2000/"),
        .write p.client.sockfd reply.data]) := by
  have hnot : ¬ intAt reply.block ≤ 0 := by omega
  have hheader : (ascii "tg://2000/").length = 10 := rfl
  have hall : 4 + 10 + (intAt reply.block).toNat < 2 ^ 31 := by omega
  rw [replyData, if_neg hnot]
  simp only [gHandleResponseMsg, List.getElem?_cons_zero, Option.bind_eq_bind,
    Option.bind_some, hheader, hall, ↓reduceIte]
  rfl

/-- The sum of the sizes is computed as an `int`. -/
theorem replyData_overflow (hsize : ¬ 14 + intAt reply.block < 2 ^ 31) :
    replyData p reply = none := by
  have hnot : ¬ intAt reply.block ≤ 0 := by omega
  have hheader : (ascii "tg://2000/").length = 10 := rfl
  have hall : ¬ 4 + 10 + (intAt reply.block).toNat < 2 ^ 31 := by omega
  rw [replyData, if_neg hnot]
  simp only [gHandleResponseMsg, List.getElem?_cons_zero, Option.bind_eq_bind,
    Option.bind_some, hheader, hall, ↓reduceIte]

/-- A reply without data is answered by a notice. -/
theorem replyData_notice (hsize : ¬ 0 < intAt reply.block) :
    replyData p reply =
      some (0, [.write p.client.sockfd (ascii "tg://2006/")]) := by
  rw [replyData, if_pos (by omega),
    send_notice p.client responseReturnedDataFormatIllegal (by decide)]
  rfl

end ReplyData

/-- What the client reads is the data if the length is right. -/
theorem readReply_message {reply : Reply}
    (hsize : 14 + intAt reply.block < 2 ^ 31) :
    readReply (le32 (14 + (intAt reply.block).toNat) ++ ascii "tg://2000/" ++
      reply.data) = some reply.data := by
  have hdata := reply.length_data
  have hint : intAt (le32 (14 + (intAt reply.block).toNat) ++
      ascii "tg://2000/" ++ reply.data) = (14 + (intAt reply.block).toNat : Nat) := by
    rw [List.append_assoc]
    exact intAt_le32_append _ (by omega) _
  have hrest : ((14 + (intAt reply.block).toNat : Nat) : Int) - 4 - 10 =
      ((intAt reply.block).toNat : Int) := by omega
  have hfront : (le32 (14 + (intAt reply.block).toNat) ++
      ascii "tg://2000/").length = 14 := rfl
  have hlong : ¬ (((intAt reply.block).toNat : Int) < 0 ∨
      (le32 (14 + (intAt reply.block).toNat) ++ ascii "tg://2000/" ++
        reply.data).length < 14 + (intAt reply.block).toNat) := by
    rw [List.length_append, hfront, hdata]
    omega
  have htake : reply.data.take (intAt reply.block).toNat = reply.data :=
    List.take_of_length_le (Nat.le_of_eq hdata)
  simp only [readReply, hint, hrest, Int.toNat_natCast, if_neg hlong]
  rw [List.drop_left' hfront, htake]

section Claims

variable {p : Child} {turn : Turn} {pReq : List Byte} {pSer : TGService}
variable {reply : Reply} (hevent : checkEvent turn.event = true)
variable (hdata : turn.event.data = some pReq)
variable (hcheck : checkRequest p.registry pReq turn.stack =
  some (0, some pSer))
variable (hreply : turn.reply = some reply)

include hevent hdata hcheck hreply

/-- A reply with data makes its way to the client exactly if its size leaves
room for the length field and the header in an `int`. -/
theorem roundTrips_iff (hpos : 0 < intAt reply.block) :
    RoundTrips p turn reply ↔ intAt reply.block < 2 ^ 31 - 14 := by
  have hhandle := @handleResponseClientRequest_replied p turn pReq pSer reply
    hevent hdata hcheck hreply
  constructor
  · rintro ⟨effects, hreturns, -⟩
    obtain ⟨sent, hsent, -⟩ := hhandle.mp hreturns
    by_contra hlarge
    rw [replyData_overflow p (by omega)] at hsent
    cases hsent
  · intro hsize
    have hsum : 14 + intAt reply.block < 2 ^ 31 := by omega
    have hwritten : written p.client.sockfd
        [.doRequest pSer.doRequest pReq,
          .write p.client.sockfd
            (le32 (14 + (intAt reply.block).toNat) ++ ascii "tg://2000/"),
          .write p.client.sockfd reply.data] =
        le32 (14 + (intAt reply.block).toNat) ++ ascii "tg://2000/" ++
          reply.data := by
      simp [written]
    refine ⟨_, hhandle.mpr ⟨_, replyData_pos p hpos hsum, rfl⟩, hwritten, ?_⟩
    rw [hwritten]
    exact readReply_message hsum

theorem deliversWhole_iff_accepted {sent : List Effect}
    (hsent : replyData p reply = some (0, sent)) (outcome : Nat → Nat) :
    DeliversWhole p turn reply outcome ↔
      accepted p.client.sockfd outcome 0 sent = reply.message := by
  have hhandle := @handleResponseClientRequest_replied p turn pReq pSer reply
    hevent hdata hcheck hreply
  constructor
  · rintro ⟨effects, hreturns, haccepted⟩
    obtain ⟨other, hother, rfl⟩ := hhandle.mp hreturns
    rw [hsent, Option.some.injEq, Prod.mk.injEq] at hother
    rw [← hother.2] at haccepted
    exact haccepted
  · intro haccepted
    exact ⟨_, hhandle.mpr ⟨sent, hsent, rfl⟩, haccepted⟩

/-- The socket has accepted the whole message when the handler returns exactly
if every write took all it was handed and the length is an `int`. -/
theorem deliversWhole_iff (outcome : Nat → Nat) :
    DeliversWhole p turn reply outcome ↔ AcceptsAll reply outcome := by
  have haccepted := @deliversWhole_iff_accepted p turn pReq pSer reply
    hevent hdata hcheck hreply
  rw [AcceptsAll]
  split
  · rename_i hpos
    by_cases hsum : 14 + intAt reply.block < 2 ^ 31
    swap
    · refine iff_of_false ?_ fun hall => hsum hall.1
      rintro ⟨effects, hreturns, -⟩
      obtain ⟨sent, hsent, -⟩ := (handleResponseClientRequest_replied hevent
        hdata hcheck hreply).mp hreturns
      rw [replyData_overflow p hsum] at hsent
      cases hsent
    have hlength := reply.length_data
    have hfront : (le32 (14 + (intAt reply.block).toNat) ++
        ascii "tg://2000/").length = 14 := rfl
    rw [haccepted (replyData_pos p hpos hsum), Reply.message, if_pos hpos]
    simp only [accepted, ↓reduceIte, List.append_nil, Nat.zero_add]
    constructor
    · intro hsame
      have hcount := congrArg List.length hsame
      rw [List.length_append, List.length_append, List.length_take,
        List.length_take, hfront, hlength] at hcount
      exact ⟨hsum, by omega, by omega⟩
    · rintro ⟨-, hfirst, hsecond⟩
      rw [List.take_of_length_le (by rw [hfront]; omega),
        List.take_of_length_le (by rw [hlength]; omega)]
  · rename_i hsize
    have hnotice : (ascii "tg://2006/").length = 10 := rfl
    rw [haccepted (replyData_notice p hsize), Reply.message, if_neg hsize]
    simp only [accepted, ↓reduceIte, List.append_nil]
    constructor
    · intro hsame
      have hcount := congrArg List.length hsame
      rw [List.length_take, hnotice] at hcount
      omega
    · intro hall
      exact List.take_of_length_le (by rw [hnotice]; omega)

end Claims

namespace ReplyWrites

/-- A client process with one service, named `e`. -/
def child : Child :=
  ⟨⟨some [some 0, none], 2, 1,
      [⟨0, some (ascii "e" ++ [0]), none, 0, 1, 2, 3, 4, 5, none⟩], []⟩,
    Globals.initial, ⟨100, 4, 5, 6, none, 0⟩, Globals.initial_fits⟩

def pReq : List Byte := ascii "tg://e/" ++ [0]

/-- The service answers a request for it. -/
def turn (reply : Reply) : Turn :=
  ⟨⟨-1, msgTypeClientRequest, some pReq, none⟩, [0], some reply⟩

def service : TGService := ⟨0, some (ascii "e"), none, 0, 1, 2, 3, 4, 5, none⟩

/-- Three octets of data. -/
def small : Reply := ⟨le32 3 ++ ascii "abc", by decide, by decide⟩

theorem checkRequest_service :
    checkRequest child.registry pReq [0] = some (0, some service) := by
  decide

theorem roundTrips_iff_small :
    RoundTrips child (turn small) small ↔ intAt small.block < 2 ^ 31 - 14 :=
  @roundTrips_iff child (turn small) pReq service small rfl rfl
    checkRequest_service rfl (by decide)

/-- A reply of zeros. -/
def zeros (d : Nat) (hd : d < 2 ^ 31) : Reply where
  block := le32 d ++ List.replicate d 0
  sized := by
    rw [List.length_append, length_le32]
    omega
  covers := by
    rw [intAt_le32_append _ hd, List.length_append, length_le32,
      List.length_replicate]
    omega

theorem handle_zeros_overflow (d : Nat) (hd : d < 2 ^ 31)
    (hlarge : 2 ^ 31 ≤ 14 + d) :
    handleResponseClientRequest child (turn (zeros d hd)) = none := by
  refine Option.eq_none_iff_forall_ne_some.mpr ?_
  rintro ⟨ret, effects⟩ hreturns
  obtain ⟨sent, hsent, -⟩ := (@handleResponseClientRequest_replied child
    (turn (zeros d hd)) pReq service (zeros d hd) rfl rfl checkRequest_service
    rfl ret effects).mp hreturns
  have hint : intAt (zeros d hd).block = d := intAt_le32_append d hd _
  rw [replyData_overflow child (by rw [hint]; omega)] at hsent
  cases hsent

/-- The least size that leaves no room for the length field and the header. -/
theorem roundTrips_large :
    intAt (zeros (2 ^ 31 - 14) (by decide)).block = 2 ^ 31 - 14 ∧
      handleResponseClientRequest child
        (turn (zeros (2 ^ 31 - 14) (by decide))) = none ∧
      ¬ RoundTrips child (turn (zeros (2 ^ 31 - 14) (by decide)))
        (zeros (2 ^ 31 - 14) (by decide)) := by
  have hhandle := handle_zeros_overflow (2 ^ 31 - 14) (by decide) (by decide)
  refine ⟨intAt_le32_append _ (by decide) _, hhandle, ?_⟩
  rintro ⟨effects, hreturns, -⟩
  rw [hhandle] at hreturns
  cases hreturns

/-- Both writes take all they are handed. -/
theorem deliversWhole_iff_small :
    DeliversWhole child (turn small) small (fun _ => 14) ↔
      AcceptsAll small (fun _ => 14) :=
  @deliversWhole_iff child (turn small) pReq service small rfl rfl
    checkRequest_service rfl (fun _ => 14)

/-- The second write takes one octet of three, and nobody writes the rest. -/
theorem deliversWhole_short :
    (handleResponseClientRequest child (turn small)).map
        (fun handled => accepted 4 (fun i => if i = 0 then 14 else 1) 0
          handled.2) = some (le32 17 ++ ascii "tg://2000/a") ∧
    small.message = le32 17 ++ ascii "tg://2000/abc" ∧
    ¬ DeliversWhole child (turn small) small
      (fun i => if i = 0 then 14 else 1) := by
  refine ⟨by decide, by decide, ?_⟩
  rintro ⟨effects, hreturns, haccepted⟩
  have hhandle : handleResponseClientRequest child (turn small) =
      some (0, [.doRequest 3 pReq, .write 4 (le32 17 ++ ascii "tg://2000/"),
        .write 4 (ascii "abc")]) := by
    decide
  rw [hhandle, Option.some.injEq, Prod.mk.injEq] at hreturns
  rw [← hreturns.2] at haccepted
  exact absurd haccepted (by decide)

end ReplyWrites

end TgServer
