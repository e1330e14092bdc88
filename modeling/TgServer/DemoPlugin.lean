/-
`plugins/demo/demo.c`: the plugin that hands out the points in a segment of
shared memory.  `create` has attached the segment before the children are
forked, so that all of them share it; `char` is signed.  `none` is an access
outside a block, or the end of `do_request` without a result.
-/
import TgServer.Dialogue
import TgServer.ReplyWrites
import TgServer.RequestAddress

namespace TgServer.Demo

open Bytes

/-- The segment with the points, octet by octet. -/
abbrev Segment := Nat → Byte

/-- What `shmget` is asked for. -/
def segmentSize : Nat := 102400

/-- `sizeof(struct point)`. -/
def sizeofPoint : Nat := 8

/-- The octets `memcpy` takes from the segment. -/
def Segment.read (m : Segment) (offset n : Nat) : Option (List Byte) :=
  if offset + n ≤ segmentSize then
    some ((List.range n).map fun i => m (offset + i))
  else none

/-- The stores of an `int`, each an octet and where it goes. -/
def intStores (offset n : Nat) : List (Byte × Nat) := (le32 n).zipIdx offset

/-- The stores of `initPoint`, in order: eighteen points, then their count. -/
def initPoint : List (Byte × Nat) :=
  ((List.range 18).flatMap fun i =>
    let p := 14 + sizeofPoint * i
    intStores p ((i + 1) * 15) ++ intStores (p + 4) ((i + 1) * 15)) ++
  intStores 10 18

/-- The `char`s of the count are shifted to the right. -/
def pointSizeOf (pPointSize : List Byte) : Int32 :=
  (pPointSize.getD 3 0).toInt8.toInt32 >>> 24 |||
    (pPointSize.getD 2 0).toInt8.toInt32 >>> 16 |||
    (pPointSize.getD 1 0).toInt8.toInt32 >>> 8 |||
    (pPointSize.getD 0 0).toInt8.toInt32

/-- The only request there is a result for. -/
def allRequest : List Byte := ascii "tg://libdemo.so/all"

def doRequest (m : Segment) (req : List Byte) : Option (List Byte) := do
  if ← strcmpEq req allRequest then
    let pointSize := pointSizeOf (← m.read 10 4)
    let allSize :=
      ((pointSize.toInt + pointSize.toInt * sizeofPoint) % 2 ^ 32).toNat
    let points ← m.read 14 ((pointSize.toInt * sizeofPoint) % 2 ^ 64).toNat
    let pData := List.replicate ((allSize + 4) % 2 ^ 32) 0
    let pData ← store pData 0 (le32 allSize)
    let pData ← store pData 4 (le32 pointSize.toUInt32.toNat)
    store pData 8 points
  else none

/-- The octets of the count make a size that has its points and no other
stores behind the end of the block. -/
structure Countable (m : Segment) : Prop where
  low : 4 ≤ (m 10).toNat
  high : (m 10).toNat < 128
  rest : ∀ i, 11 ≤ i → i ≤ 13 → (m i).toNat < 128

/-- As many points as the first octet of the count says, behind that number. -/
def pointsData (m : Segment) : List Byte :=
  let n := (m 10).toNat
  le32 n ++ (List.range (sizeofPoint * n)).map (fun i => m (14 + i)) ++
    List.replicate (n - 4) 0

/-- The block for them. -/
def pointsBlock (m : Segment) : List Byte :=
  le32 (9 * (m 10).toNat) ++ pointsData m

section Request

variable {m : Segment} {req : List Byte}

theorem strcmpEq_eq_true_iff {block text : List Byte} :
    strcmpEq block text = some true ↔
      ∃ behind, block = text ++ 0 :: behind := by
  induction text generalizing block with
  | nil => cases block <;> simp [strcmpEq]
  | cons t text ih =>
      cases block with
      | nil => simp [strcmpEq]
      | cons b block =>
          rw [strcmpEq]
          split
          · next hsame => simp [ih, hsame]
          · next hother => simp [hother]

/-- What holds of the 256 octets holds of every octet. -/
theorem byte_all {property : Byte → Prop}
    (hall : ∀ n < 256, property (UInt8.ofNat n)) (b : Byte) : property b := by
  have hb := hall b.toNat b.toNat_lt
  rwa [UInt8.ofNat_toNat] at hb

/-- A `char` that is not negative vanishes, any other leaves ones. -/
theorem shifted (b : Byte) {shift : Int32}
    (hshift : shift = 24 ∨ shift = 16 ∨ shift = 8) :
    b.toInt8.toInt32 >>> shift = if b.toNat < 128 then 0 else -1 := by
  rcases hshift with rfl | rfl | rfl
  all_goals
    revert b
    exact byte_all (by decide +kernel)

theorem toInt_char (b : Byte) : b.toInt8.toInt =
    if b.toNat < 128 then (b.toNat : Int) else b.toNat - 256 := by
  revert b
  exact byte_all (by decide +kernel)

/-- Only the first octet of the count counts, unless one of them is negative
as a `char`. -/
theorem pointSizeOf_eq (b0 b1 b2 b3 : Byte) :
    (pointSizeOf [b0, b1, b2, b3]).toInt =
      if b1.toNat < 128 ∧ b2.toNat < 128 ∧ b3.toNat < 128 then
        if b0.toNat < 128 then (b0.toNat : Int) else b0.toNat - 256
      else -1 := by
  have h3 := shifted b3 (Or.inl rfl)
  have h2 := shifted b2 (Or.inr (Or.inl rfl))
  have h1 := shifted b1 (Or.inr (Or.inr rfl))
  simp only [pointSizeOf, List.getD_cons_succ, List.getD_cons_zero, h3, h2, h1]
  by_cases hb3 : b3.toNat < 128
  · by_cases hb2 : b2.toNat < 128
    · by_cases hb1 : b1.toNat < 128
      · simp [hb3, hb2, hb1, toInt_char]
      · simp [hb3, hb2, hb1]
    · simp [hb3, hb2]
  · simp [hb3]

theorem read_count (m : Segment) :
    m.read 10 4 = some [m 10, m 11, m 12, m 13] := rfl

/-- A store past the end of a block is none. -/
theorem store_outside {block source : List Byte} {offset : Nat}
    (hlt : block.length < offset + source.length) :
    store block offset source = none :=
  if_neg (Nat.not_le_of_lt hlt)

/-- The stores stay in the block from four points on. -/
theorem stores_iff {n : Nat} {points block : List Byte}
    (hlength : points.length = sizeofPoint * n) :
    (do
      let pData ← store (List.replicate (9 * n + 4) 0) 0 (le32 (9 * n))
      let pData ← store pData 4 (le32 n)
      store pData 8 points) = some block ↔
    4 ≤ n ∧ le32 (9 * n) ++ le32 n ++ points ++ List.replicate (n - 4) 0 =
      block := by
  rw [sizeofPoint] at hlength
  have hsize := store_zero (List.replicate (9 * n + 4) 0) (le32 (9 * n))
    (by simp)
  rw [length_le32, List.drop_replicate, Nat.add_sub_cancel] at hsize
  rw [Option.bind_eq_bind, hsize, Option.bind_some]
  by_cases hone : 1 ≤ n
  swap
  · rw [store_outside (by simp; omega)]
    simp
    omega
  have hcount := store_append (le32 (9 * n)) (le32 n)
    (List.replicate (9 * n) 0) (by simp; omega)
  rw [length_le32, length_le32, List.drop_replicate] at hcount
  rw [hcount, Option.bind_some]
  by_cases hfour : 4 ≤ n
  swap
  · rw [store_outside (by simp; omega)]
    simp
    omega
  have hpoints := store_append (le32 (9 * n) ++ le32 n) points
    (List.replicate (9 * n - 4) 0) (by simp; omega)
  have hrest : 9 * n - 4 - 8 * n = n - 4 := by omega
  rw [hlength, List.drop_replicate, hrest] at hpoints
  have height : (le32 (9 * n) ++ le32 n).length = 8 := rfl
  rw [← height, hpoints]
  simp [hfour]

/-- An `int` that is not negative is the same number unsigned. -/
theorem toNat_toUInt32 {v : Int32} {n : Nat} (hv : v.toInt = n) :
    v.toUInt32.toNat = n := by
  have hcond : v.toInt = if 2 * v.toUInt32.toNat < 2 ^ 32 then
      (v.toUInt32.toNat : Int) else v.toUInt32.toNat - 2 ^ 32 :=
    BitVec.toInt_eq_toNat_cond _
  have hlt := v.toUInt32.toNat_lt
  split at hcond <;> omega

theorem countable_iff : Countable m ↔ 4 ≤ (m 10).toNat ∧
    (m 10).toNat < 128 ∧ (m 11).toNat < 128 ∧ (m 12).toNat < 128 ∧
      (m 13).toNat < 128 := by
  constructor
  · rintro ⟨hlow, hhigh, hrest⟩
    exact ⟨hlow, hhigh, hrest 11 (by decide) (by decide),
      hrest 12 (by decide) (by decide), hrest 13 (by decide) (by decide)⟩
  · rintro ⟨hlow, hhigh, h11, h12, h13⟩
    refine ⟨hlow, hhigh, fun i hfirst hlast => ?_⟩
    obtain rfl | rfl | rfl : i = 11 ∨ i = 12 ∨ i = 13 := by omega
    · exact h11
    · exact h12
    · exact h13

/-- The request for all points is answered exactly while the count fits, and
any other request is not answered. -/
theorem doRequest_some_iff {block : List Byte} :
    doRequest m req = some block ↔
      (∃ behind, req = allRequest ++ 0 :: behind) ∧ Countable m ∧
        pointsBlock m = block := by
  rw [← strcmpEq_eq_true_iff, doRequest]
  cases hequal : strcmpEq req allRequest with
  | none => simp
  | some equal =>
  cases equal with
  | false => simp
  | true =>
  have hsize := pointSizeOf_eq (m 10) (m 11) (m 12) (m 13)
  simp only [Option.bind_eq_bind, Option.bind_some, ↓reduceIte, read_count,
    true_and]
  generalize pointSizeOf [m 10, m 11, m 12, m 13] = pointSize at hsize ⊢
  by_cases hnat : (m 10).toNat < 128 ∧ (m 11).toNat < 128 ∧
      (m 12).toNat < 128 ∧ (m 13).toNat < 128
  · obtain ⟨hlow, hrest⟩ := hnat
    rw [if_pos hrest, if_pos hlow] at hsize
    have hall : ((pointSize.toInt + pointSize.toInt * sizeofPoint) %
        2 ^ 32).toNat = 9 * (m 10).toNat := by
      rw [hsize, sizeofPoint]
      omega
    have hpoints : ((pointSize.toInt * sizeofPoint) % 2 ^ 64).toNat =
        sizeofPoint * (m 10).toNat := by
      rw [hsize, sizeofPoint]
      omega
    have hfour : (9 * (m 10).toNat + 4) % 2 ^ 32 = 9 * (m 10).toNat + 4 := by
      omega
    have hread : m.read 14 (sizeofPoint * (m 10).toNat) =
        some ((List.range (sizeofPoint * (m 10).toNat)).map
          fun i => m (14 + i)) := by
      rw [Segment.read, if_pos]
      rw [sizeofPoint, segmentSize]
      omega
    rw [hall, hpoints, hfour, hread, Option.bind_some, toNat_toUInt32 hsize]
    have hstores := @stores_iff (m 10).toNat
      ((List.range (sizeofPoint * (m 10).toNat)).map fun i => m (14 + i))
      block (by simp)
    rw [Option.bind_eq_bind] at hstores
    rw [hstores, countable_iff, pointsBlock, pointsData]
    simp [hlow, hrest]
  · have hnegative : pointSize.toInt < 0 ∧ -128 ≤ pointSize.toInt := by
      rw [hsize]
      split
      · next hrest =>
        have hhigh : ¬ (m 10).toNat < 128 := fun hlow => hnat ⟨hlow, hrest⟩
        have hlt := (m 10).toNat_lt
        rw [if_neg hhigh]
        omega
      · decide
    have hread : m.read 14 ((pointSize.toInt * sizeofPoint) % 2 ^ 64).toNat =
        none := by
      rw [Segment.read, if_neg]
      rw [sizeofPoint, segmentSize]
      omega
    rw [hread, countable_iff]
    simp only [Option.bind_none, reduceCtorEq, false_iff]
    exact fun hcount => hnat hcount.1.2

theorem Countable.length_pointsData (hcount : Countable m) :
    (pointsData m).length = 9 * (m 10).toNat := by
  have hlow := hcount.low
  simp only [pointsData, List.length_append, length_le32, List.length_map,
    List.length_range, List.length_replicate, sizeofPoint]
  omega

theorem Countable.intAt_pointsBlock (hcount : Countable m) :
    intAt (pointsBlock m) = (9 * (m 10).toNat : Nat) := by
  have hhigh := hcount.high
  exact intAt_le32_append _ (by omega) _

/-- The data size the block starts with is that of the rest. -/
theorem doRequest_sized {block : List Byte}
    (hdone : doRequest m req = some block) :
    4 ≤ block.length ∧ 4 + intAt block ≤ block.length := by
  obtain ⟨-, hcount, rfl⟩ := doRequest_some_iff.mp hdone
  have hlength := hcount.length_pointsData
  rw [hcount.intAt_pointsBlock, pointsBlock, List.length_append, hlength,
    length_le32]
  omega

end Request

/-- What the handler of a request gets. -/
def replyOf (m : Segment) (req : List Byte) : Option Reply :=
  match hdone : doRequest m req with
  | none => none
  | some block =>
      some ⟨block, (doRequest_sized hdone).1, (doRequest_sized hdone).2⟩

theorem replyOf_eq_some_iff {m : Segment} {req : List Byte} {reply : Reply} :
    replyOf m req = some reply ↔ doRequest m req = some reply.block := by
  rw [replyOf]
  split
  · next hnone => simp [hnone]
  · next block hblock =>
    constructor
    · intro hsame
      rw [hblock, ← Option.some.inj hsame]
    · intro hsame
      obtain rfl := Option.some.inj (hblock.symm.trans hsame)
      rfl

theorem Countable.reply {m : Segment} (hcount : Countable m) :
    ∃ reply, replyOf m (allRequest ++ [0]) = some reply ∧
      pointsBlock m = reply.block := by
  have hdone := doRequest_some_iff.mpr ⟨⟨[], rfl⟩, hcount, rfl⟩
  obtain ⟨hlow, hcovers⟩ := doRequest_sized hdone
  exact ⟨⟨_, hlow, hcovers⟩, replyOf_eq_some_iff.mpr hdone, rfl⟩

/-- The data of a reply of the plugin. -/
theorem reply_data {m : Segment} {reply : Reply} (hcount : Countable m)
    (hblock : pointsBlock m = reply.block) :
    intAt reply.block = (9 * (m 10).toNat : Nat) ∧
      reply.data = pointsData m := by
  have hsize := hcount.intAt_pointsBlock
  rw [hblock] at hsize
  refine ⟨hsize, ?_⟩
  rw [Reply.data, hsize, ← hblock, pointsBlock,
    List.drop_left' (length_le32 _), Int.toNat_natCast,
    ← hcount.length_pointsData, List.take_length]

section Requests

variable {registry : Registry} {pSer : TGService} {stack : List Byte}

/-- A request that `__check_request` gets through has a NUL behind it. -/
theorem terminated_of_checked {x : Byte} {check : Int × Option TGService}
    (hcheck : checkRequest registry (allRequest ++ [x]) stack = some check) :
    x = 0 := by
  have hsplit : allRequest ++ [x] =
      header ++ (ascii "libdemo.so/all" ++ [x]) := rfl
  rw [hsplit, checkRequest, startsWith_append, List.drop_left] at hcheck
  simp only [Option.bind_eq_bind, Option.bind_some, ↓reduceIte,
    Option.bind_eq_some_iff] at hcheck
  obtain ⟨text, htext, -⟩ := hcheck
  obtain ⟨behind, hbehind, -⟩ := cString_some htext
  have hmem : (0 : Byte) ∈ ascii "libdemo.so/all" ++ [x] := by
    rw [hbehind]
    simp
  rcases List.mem_append.mp hmem with hname | hlast
  · exact absurd hname (by decide)
  · exact (List.mem_singleton.mp hlast).symm

/-- The service is found where the buffer of the name ends with a NUL. -/
theorem checkRequest_all
    (hfound : findServiceN registry (ascii "libdemo.so") = some (some pSer))
    (hstack : stack.head? = some 0) :
    checkRequest registry (allRequest ++ [0]) stack = some (0, some pSer) := by
  have hname : Requests allRequest (ascii "libdemo.so") :=
    ⟨by decide, ascii "all", rfl⟩
  have hread := (@cString_behind_iff (ascii "libdemo.so") (by decide)
    stack).mpr hstack
  rw [checkRequest_eq_map,
    checkRequestName_named registry (by decide) [] stack hname, hread,
    Option.bind_some, hfound]
  rfl

/-- A request is handled only after `__check_request`. -/
theorem checked_of_handled {p : Child} {turn : Turn}
    (htype : turn.event.type = msgTypeClientRequest)
    (hhandle : handleResponse p turn ≠ none) :
    ∃ pReq check, turn.event.data = some pReq ∧
      checkRequest p.registry pReq turn.stack = some check := by
  have hevent : checkEvent turn.event = true := by
    rw [checkEvent, htype]
    rfl
  obtain ⟨result, hresult⟩ := Option.ne_none_iff_exists'.mp hhandle
  rw [handleResponse_eq, htype] at hresult
  change handleResponseClientRequest p turn = some result at hresult
  rw [handleResponseClientRequest, hevent] at hresult
  simp only [Bool.not_true, Bool.false_eq_true, ↓reduceIte,
    Option.bind_eq_bind, Option.bind_eq_some_iff] at hresult
  obtain ⟨pReq, hdata, check, hcheck, -⟩ := hresult
  exact ⟨pReq, check, hdata, hcheck⟩

/-- The handler of a request that gets its data takes it to the client. -/
theorem handled_reply {p : Child} {event : TGEvent} {pReq : List Byte}
    {reply : Reply} (htype : event.type = msgTypeClientRequest)
    (hdata : event.data = some pReq)
    (hcheck : checkRequest p.registry pReq stack = some (0, some pSer))
    (hpos : 0 < intAt reply.block)
    (hsize : 14 + intAt reply.block < 2 ^ 31) :
    handleResponse p ⟨event, stack, some reply⟩ =
      some (0, [.doRequest pSer.doRequest pReq,
        .write p.client.sockfd
          (le32 (14 + (intAt reply.block).toNat) ++ ascii "tg://2000/"),
        .write p.client.sockfd reply.data]) := by
  have hevent : checkEvent event = true := by
    rw [checkEvent, htype]
    rfl
  rw [handleResponse_eq, htype]
  change handleResponseClientRequest p ⟨event, stack, some reply⟩ = _
  have hsent := replyData_pos p hpos hsize
  exact (@handleResponseClientRequest_replied p ⟨event, stack, some reply⟩
    pReq pSer reply hevent hdata hcheck rfl _ _).mpr ⟨_, hsent, rfl⟩

end Requests

section Delivery

/-- `struct point`. -/
structure Point where
  x : UInt32
  y : UInt32
deriving Repr, DecidableEq

/-- The octets of an array of points. -/
def octetsOf (points : List Point) : List Byte :=
  points.flatMap fun point => le32 point.x.toNat ++ le32 point.y.toNat

/-- The segment holds the points behind their count. -/
def Holds (m : Segment) (points : List Point) : Prop :=
  m.read 10 4 = some (le32 points.length) ∧
    m.read 14 (sizeofPoint * points.length) = some (octetsOf points)

/-- The client receives the points and their count in one message. -/
def Delivers (p : Child) (m : Segment) (event : TGEvent) (stack : List Byte)
    (points : List Point) : Prop :=
  ∃ reply ret effects padding, replyOf m (allRequest ++ [0]) = some reply ∧
    handleResponse p ⟨event, stack, some reply⟩ = some (ret, effects) ∧
    receive (written p.client.sockfd effects) =
      [(ascii "tg://2000/",
        le32 points.length ++ octetsOf points ++ padding)]

variable {p : Child} {m : Segment} {points : List Point}

theorem Holds.count (hholds : Holds m points) :
    [m 10, m 11, m 12, m 13] = le32 points.length := by
  have hcount := hholds.1
  rw [read_count] at hcount
  exact Option.some.inj hcount

theorem Holds.lt (hholds : Holds m points) : points.length < 2 ^ 14 := by
  have hread := hholds.2
  rw [Segment.read] at hread
  split at hread
  · next hle =>
    rw [sizeofPoint, segmentSize] at hle
    omega
  · cases hread

/-- The octets of the count are those of the number of points. -/
theorem Holds.low (hholds : Holds m points) :
    (m 10).toNat = points.length % 256 ∧
      (m 11).toNat = points.length / 256 ∧ (m 12).toNat = 0 ∧
      (m 13).toNat = 0 := by
  have hlt := hholds.lt
  have hcount := hholds.count
  simp only [le32, List.cons.injEq] at hcount
  obtain ⟨h10, h11, h12, h13, -⟩ := hcount
  rw [h10, h11, h12, h13]
  simp only [UInt8.toNat_ofNat']
  refine ⟨trivial, ?_, ?_, ?_⟩ <;> omega

theorem Holds.data (hholds : Holds m points) (hhigh : points.length < 128) :
    (m 10).toNat = points.length ∧ pointsData m =
      le32 points.length ++ octetsOf points ++
        List.replicate (points.length - 4) 0 := by
  have hlow := hholds.low.1
  rw [Nat.mod_eq_of_lt (by omega)] at hlow
  have hread := hholds.2
  rw [Segment.read] at hread
  split at hread
  · rw [pointsData, hlow]
    simp only [Option.some.inj hread, and_self]
  · cases hread

theorem Holds.countable (hholds : Holds m points) (hlow : 4 ≤ points.length)
    (hhigh : points.length < 128) : Countable m := by
  obtain ⟨h10, h11, h12, h13⟩ := hholds.low
  exact countable_iff.mpr (by omega)

/-- What the client makes of a reply with data. -/
theorem receive_reply (fd : Int) (call : Effect)
    (hcall : written fd [call] = []) {reply : Reply}
    (hpos : 0 < intAt reply.block)
    (hsize : 14 + intAt reply.block < 2 ^ 31) :
    receive (written fd [call,
      .write fd (le32 (14 + (intAt reply.block).toNat) ++ ascii "tg://2000/"),
      .write fd reply.data]) = [(ascii "tg://2000/", reply.data)] := by
  have hlength := reply.length_data
  have hframe := receive_frame (ascii "tg://2000/", reply.data) rfl
    (by rw [hlength]; omega) []
  have hstream : written fd [call,
      .write fd (le32 (14 + (intAt reply.block).toNat) ++ ascii "tg://2000/"),
      .write fd reply.data] =
      Framing.encode (ascii "tg://2000/" ++ reply.data) ++ [] := by
    rw [← List.singleton_append, written_append, hcall, List.append_nil,
      Framing.encode, List.length_append, hlength]
    simp only [written, List.flatMap_cons, List.flatMap_nil, ↓reduceIte,
      List.nil_append, List.append_nil, List.append_assoc]
    have hten : (ascii "tg://2000/").length = 10 := rfl
    rw [hten]
    simp only [← Nat.add_assoc]
  rw [hstream, hframe]
  rfl

theorem le32_injective {k n : Nat} (hk : k < 2 ^ 32) (hn : n < 2 ^ 32)
    {first second : List Byte} (hsame : le32 k ++ first = le32 n ++ second) :
    k = n := by
  rw [← wordAt_le32_append k hk first, hsame, wordAt_le32_append n hn second]

/-- The client of a server that has loaded the plugin receives the points of
the segment if and only if they are at least four and at most 127: a block for
fewer points has no room for their count, and of more points only the first
octet of their count is looked at. -/
theorem demo_delivers_iff {pSer : TGService}
    (hfound : findServiceN p.registry (ascii "libdemo.so") = some (some pSer))
    {event : TGEvent} (htype : event.type = msgTypeClientRequest)
    (hdata : event.data = some (allRequest ++ [0])) {stack : List Byte}
    (hstack : stack.head? = some 0) (hholds : Holds m points) :
    Delivers p m event stack points ↔
      4 ≤ points.length ∧ points.length ≤ 127 := by
  have hcheck := checkRequest_all hfound hstack
  have hlt := hholds.lt
  constructor
  · rintro ⟨reply, ret, effects, padding, hreply, hhandle, hreceive⟩
    obtain ⟨-, hcount, hblock⟩ :=
      doRequest_some_iff.mp (replyOf_eq_some_iff.mp hreply)
    obtain ⟨hsize, hsame⟩ := reply_data hcount hblock
    have hlow := hcount.low
    have hhigh := hcount.high
    rw [handled_reply htype hdata hcheck (by omega) (by omega),
      Option.some.injEq, Prod.mk.injEq] at hhandle
    rw [← hhandle.2, receive_reply _ _ rfl (by omega) (by omega)] at hreceive
    have hsent := congrArg Prod.snd (List.cons.inj hreceive).1
    dsimp only at hsent
    rw [hsame, pointsData, List.append_assoc, List.append_assoc] at hsent
    have hnumber := le32_injective (by omega) (by omega) hsent
    omega
  · rintro ⟨hlow, hhigh⟩
    obtain ⟨hnumber, hpoints⟩ := hholds.data (by omega)
    have hcount := hholds.countable hlow (by omega)
    obtain ⟨reply, hreply, hblock⟩ := hcount.reply
    obtain ⟨hsize, hsame⟩ := reply_data hcount hblock
    refine ⟨reply, _, _, List.replicate (points.length - 4) 0, hreply,
      handled_reply htype hdata hcheck (by omega) (by omega), ?_⟩
    rw [receive_reply _ _ rfl (by omega) (by omega), hsame, hpoints]

end Delivery

namespace DemoPlugin

/-- A child of a server that has loaded the plugin. -/
def child : Child :=
  ⟨⟨some [some 0, none], 10, 1,
      [⟨0, some (ascii "libdemo.so" ++ [0]), none, 0, 1, 2, 3, 4, 5, none⟩],
      []⟩, .initial, ⟨0, 5, 6, 7, none, 0⟩, Globals.initial_fits⟩

def four : List Point := [⟨1, 2⟩, ⟨3, 4⟩, ⟨5, 6⟩, ⟨700, 800⟩]

/-- The segment holds four points. -/
def holding : Segment := fun offset =>
  (le32 4 ++ octetsOf four).getD (offset - 10) 0

def request : TGEvent :=
  ⟨0, msgTypeClientRequest, some (allRequest ++ [0]), none⟩

theorem demo_delivers_iff_four :
    Holds holding four ∧ (Delivers child holding request [0] four ↔
      4 ≤ four.length ∧ four.length ≤ 127) :=
  have hholds : Holds holding four :=
    ⟨by decide +kernel, by decide +kernel⟩
  have hfound : ∃ pSer, findServiceN child.registry (ascii "libdemo.so") =
      some (some pSer) := ⟨_, rfl⟩
  let ⟨_, hservice⟩ := hfound
  ⟨hholds, demo_delivers_iff hservice rfl rfl rfl hholds⟩

end DemoPlugin

end TgServer.Demo
