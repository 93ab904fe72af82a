import UBoot.Lib.Dialogue

/-!
# Bulk transfers of USB storage (`common/usb_storage.c`)

`us_one_transfer` sends chunks of 16 packets. A chunk takes as many bulk messages as the device
wants; a message that fails is repeated ten times. The device is a parameter: it answers each
message with a status and a number of bytes.

Two answers are not what the code is made for. A message that fails with all of its bytes
transferred is taken for the end of the transfer, also when chunks follow. A message that succeeds
without a byte is repeated without end. `us_one_transfer_complete`: without them all is well.
-/

namespace UBoot.Usb.Bulk

open UBoot.Lib

/-- `USB_ST_STALLED` -/
def stStalled : UInt32 := 0x2

/-- `USB_ST_NAK_REC` -/
def stNakRec : UInt32 := 0x10

/-- What `usb_bulk_msg` leaves: `dev->status`, and `dev->act_len` bytes transferred. -/
structure Reply where
  status : UInt32
  actLen : ℕ

/-- The result of `usb_bulk_msg`. -/
def Reply.result (r : Reply) : ℤ := if r.status = 0 then 0 else -1

/-- The variables of `us_one_transfer`, with `buf` as an offset, and what has been transferred: from
where on, and how much. -/
structure Xfer where
  length : ℕ
  thisXfer : ℕ
  buf : ℕ
  maxtry : ℕ
  moved : List (ℕ × ℕ)

/-- What `us_one_transfer` returns, with what has been transferred. -/
abbrev Out := ℤ × List (ℕ × ℕ)

/-- `while (length)`, up to the next message. -/
def nextChunk (maxSize length buf : ℕ) (moved : List (ℕ × ℕ)) : Next Xfer Out :=
  if length = 0 then .ret (0, moved)
  else
    let thisXfer := if length > maxSize then maxSize else length
    .more ⟨length - thisXfer, thisXfer, buf, 10, moved⟩

/-- `this_xfer -= partial; buf += partial; } while (this_xfer);` -/
def goOn (maxSize : ℕ) (x : Xfer) (actLen : ℕ) : Next Xfer Out :=
  if x.thisXfer - actLen ≠ 0 then
    .more { x with thisXfer := x.thisXfer - actLen, buf := x.buf + actLen }
  else nextChunk maxSize x.length (x.buf + actLen) x.moved

def afterMsg (maxSize : ℕ) (x : Xfer) (r : Reply) : Next Xfer Out :=
  let moved := x.moved ++ [(x.buf, r.actLen)]
  if r.status ≠ 0 then
    if r.status &&& stStalled ≠ 0 then
      -- behind usb_clear_halt
      if x.thisXfer = r.actLen then .ret (0, moved) else .ret (r.result, moved)
    else if r.status &&& stNakRec ≠ 0 then .ret (r.result, moved)
    else if x.thisXfer = r.actLen then .ret (0, moved)
    else
      match x.maxtry with
      | 0 => .ret (r.result, moved)
      | maxtry + 1 => goOn maxSize { x with maxtry, moved } r.actLen
  else goOn maxSize { x with moved } r.actLen

/-- `us_one_transfer` after some messages; message number `k` gets the answer `dev k` for the number
of bytes that are asked for. -/
def usOneTransfer (maxpacket length : ℕ) (dev : ℕ → ℕ → Reply) : ℕ → Next Xfer Out :=
  let maxSize := maxpacket * 16
  talk (afterMsg maxSize) (fun k x => dev k x.thisXfer) (nextChunk maxSize length 0 [])

/-- The bytes of the buffer that are transferred, in order. -/
def bytesOf (moved : List (ℕ × ℕ)) : List ℕ := moved.flatMap fun p => List.range' p.1 p.2

/-- The message fails, but is said to be `data ok`. -/
def DataOk (x : Xfer) (r : Reply) : Prop :=
  r.status ≠ 0 ∧ (r.status &&& stStalled ≠ 0 ∨ r.status &&& stNakRec = 0) ∧ x.thisXfer = r.actLen

structure Expected (x : Xfer) (r : Reply) : Prop where
  /-- a message that succeeds has transferred something -/
  progress : r.status = 0 → 0 < r.actLen
  /-- one that fails with its bytes transferred is the last -/
  last : DataOk x r → x.length = 0

/-- What holds in front of each message of a transfer. -/
structure Xfer.Inv (total maxSize : ℕ) (x : Xfer) : Prop where
  sum : x.buf + x.thisXfer + x.length = total
  moved : bytesOf x.moved = List.range x.buf
  maxtry : x.maxtry ≤ 10
  le : x.thisXfer ≤ maxSize

def Good (total maxSize : ℕ) : Next Xfer Out → Prop
  | .more x => x.Inv total maxSize
  | .ret r => r.1 = 0 → bytesOf r.2 = List.range total

section
variable {total maxSize length buf actLen k : ℕ} {moved : List (ℕ × ℕ)} {x x' : Xfer} {r : Reply}
  {o : Out}

theorem bytesOf_snoc (h : bytesOf moved = List.range buf) (actLen : ℕ) :
    bytesOf (moved ++ [(buf, actLen)]) = List.range (buf + actLen) := by
  rw [bytesOf, List.flatMap_append, List.flatMap_singleton, List.range_add, ← h, bytesOf,
    List.range'_eq_map_range]

theorem nextChunk_of_ne (h : length ≠ 0) : nextChunk maxSize length buf moved =
    .more ⟨length - min maxSize length, min maxSize length, buf, 10, moved⟩ := by
  have hmin : (if length > maxSize then maxSize else length) = min maxSize length := by
    split <;> omega
  rw [nextChunk, if_neg h, hmin]

theorem nextChunk_good (hsum : buf + length = total) (hmoved : bytesOf moved = List.range buf) :
    Good total maxSize (nextChunk maxSize length buf moved) := by
  rcases eq_or_ne length 0 with h | h
  · rw [nextChunk, if_pos h]
    intro _
    rw [hmoved, ← hsum, h, Nat.add_zero]
  · rw [nextChunk_of_ne h]
    refine ⟨?_, hmoved, le_rfl, ?_⟩ <;> dsimp only <;> omega

theorem goOn_good (hsum : x.buf + x.thisXfer + x.length = total) (hle : actLen ≤ x.thisXfer)
    (hmoved : bytesOf x.moved = List.range (x.buf + actLen)) (htry : x.maxtry ≤ 10)
    (hmax : x.thisXfer ≤ maxSize) : Good total maxSize (goOn maxSize x actLen) := by
  rw [goOn]
  split_ifs with h
  · refine ⟨?_, hmoved, htry, ?_⟩ <;> dsimp only <;> omega
  · exact nextChunk_good (by omega) hmoved

/-- A message keeps what holds, unless it is said to be the end though chunks follow. -/
theorem afterMsg_good (h : x.Inv total maxSize) (hle : r.actLen ≤ x.thisXfer)
    (hlast : DataOk x r → x.length = 0) : Good total maxSize (afterMsg maxSize x r) := by
  have hmoved := bytesOf_snoc h.moved r.actLen
  have hsum := h.sum
  have hfull : x.thisXfer = r.actLen → x.length = 0 →
      bytesOf (x.moved ++ [(x.buf, r.actLen)]) = List.range total := fun heq hzero => by
    rw [hmoved, ← heq, ← hsum, hzero, Nat.add_zero]
  have hfails : r.status ≠ 0 → Good total maxSize
      (.ret (r.result, x.moved ++ [(x.buf, r.actLen)])) := fun hne hres => by
    rw [Reply.result, if_neg hne] at hres
    cases hres
  rw [afterMsg]
  split_ifs with hne hstall heq hnak heq
  · exact fun _ => hfull heq (hlast ⟨hne, .inl hstall, heq⟩)
  · exact hfails hne
  · exact hfails hne
  · exact fun _ => hfull heq (hlast ⟨hne, .inr (not_not.mp hnak), heq⟩)
  · have htry := h.maxtry
    split
    · exact hfails hne
    · exact goOn_good hsum hle hmoved (by dsimp only; omega) h.le
  · exact goOn_good hsum hle hmoved h.maxtry h.le

def Xfer.measure (x : Xfer) : ℕ := x.thisXfer + x.maxtry + 12 * x.length

theorem nextChunk_measure (hpos : 0 < maxSize)
    (h : nextChunk maxSize length buf moved = .more x') : x'.measure < 12 * length := by
  rcases eq_or_ne length 0 with h0 | h0
  · rw [nextChunk, if_pos h0] at h
    cases h
  · rw [nextChunk_of_ne h0] at h
    cases h
    simp only [Xfer.measure]
    omega

theorem goOn_measure (hmax : 0 < x.thisXfer → 0 < maxSize)
    (hle : actLen ≤ x.thisXfer) (hless : 0 < actLen) (h : goOn maxSize x actLen = .more x') :
    x'.measure < x.measure := by
  rw [goOn] at h
  split_ifs at h with hrest
  · cases h
    simp only [Xfer.measure]
    omega
  · have hlt := nextChunk_measure (hmax (by omega)) h
    exact hlt.trans_le (Nat.le_add_left _ _)

theorem afterMsg_measure (h : r.status = 0 → 0 < r.actLen) (hmax : 0 < x.thisXfer → 0 < maxSize)
    (hle : r.actLen ≤ x.thisXfer) (hmore : afterMsg maxSize x r = .more x') :
    x'.measure < x.measure := by
  rw [afterMsg] at hmore
  split_ifs at hmore with hne hstall heq hnak heq
  · split at hmore
    · cases hmore
    · rename_i n hn
      -- a failure with nothing transferred costs a try
      rw [goOn, if_pos (by dsimp only; omega)] at hmore
      cases hmore
      simp only [Xfer.measure]
      omega
  · have hlt := fun hmax hle => goOn_measure hmax hle (h (not_not.mp hne)) hmore
    exact hlt hmax hle

/-- A failure with nothing transferred costs a try, or ends the transfer. -/
theorem afterMsg_maxtry (h : r.status ≠ 0) (hnone : r.actLen = 0)
    (hmore : afterMsg maxSize x r = .more x') : x'.maxtry < x.maxtry := by
  rw [afterMsg, if_pos h] at hmore
  split_ifs at hmore with hstall heq hnak heq
  split at hmore
  · cases hmore
  · rename_i n hn
    rw [goOn, if_pos (by dsimp only; omega)] at hmore
    cases hmore
    dsimp only
    omega

variable (maxSize) in
theorem afterMsg_empty (h : r.status ≠ 0) (hzero : x.thisXfer = 0) (hle : r.actLen ≤ x.thisXfer) :
    ∃ o, afterMsg maxSize x r = .ret o := by
  have heq : x.thisXfer = r.actLen := by omega
  rw [afterMsg, if_pos h, if_pos heq, if_pos heq]
  split_ifs <;> exact ⟨_, rfl⟩

/-- A message that succeeds goes on with what is left of the chunk. -/
theorem afterMsg_rest (h : r.status = 0) (hless : r.actLen < x.thisXfer) : afterMsg maxSize x r =
    .more { x with thisXfer := x.thisXfer - r.actLen, buf := x.buf + r.actLen
                   moved := x.moved ++ [(x.buf, r.actLen)] } := by
  rw [afterMsg, if_neg (not_not.mpr h), goOn, if_pos (by dsimp only; omega)]

/-- **The condition is exact for one message**: without it the transfer ends too early, or it is
where it was. -/
theorem expected_iff (h : x.Inv total maxSize) (hpos : 0 < x.thisXfer)
    (hle : r.actLen ≤ x.thisXfer) : Expected x r ↔ Good total maxSize (afterMsg maxSize x r) ∧
      ∀ x', afterMsg maxSize x r = .more x' → x'.measure < x.measure := by
  have hmoved := bytesOf_snoc h.moved r.actLen
  constructor
  · intro hexp
    exact ⟨afterMsg_good h hle hexp.last, fun x' =>
      afterMsg_measure hexp.progress (fun hx => hx.trans_le h.le) hle⟩
  · rintro ⟨hgood, hless⟩
    constructor
    · intro hok
      by_contra hzero
      have hlt := hless _ (afterMsg_rest hok (by omega))
      simp only [Xfer.measure] at hlt
      omega
    · rintro ⟨hne, hor, heq⟩
      have hret : afterMsg maxSize x r = .ret (0, x.moved ++ [(x.buf, r.actLen)]) := by
        rw [afterMsg, if_pos hne, if_pos heq, if_pos heq]
        split_ifs with hstall hnak
        · rfl
        · exact absurd (hor.resolve_left hstall) hnak
        · rfl
      rw [hret] at hgood
      have hlen := congrArg List.length ((hmoved.symm.trans (hgood rfl)))
      rw [List.length_range, List.length_range] at hlen
      have hsum := h.sum
      omega

end

section
variable {maxpacket length : ℕ} {dev : ℕ → ℕ → Reply} (hdev : ∀ k n, (dev k n).actLen ≤ n)
  (hexp : ∀ k x, usOneTransfer maxpacket length dev k = .more x → Expected x (dev k x.thisXfer))

include hdev hexp

theorem usOneTransfer_good (k : ℕ) :
    Good length (maxpacket * 16) (usOneTransfer maxpacket length dev k) :=
  talk_inv (nextChunk_good (Nat.zero_add _) rfl) (fun k x hx hinv =>
    afterMsg_good hinv (hdev k _) (hexp k x hx).last) k

theorem usOneTransfer_inv {k : ℕ} {x : Xfer}
    (hx : usOneTransfer maxpacket length dev k = .more x) : x.Inv length (maxpacket * 16) := by
  have hgood := usOneTransfer_good hdev hexp k
  rwa [hx] at hgood

theorem usOneTransfer_empty (hlen : length ≠ 0) (hzero : maxpacket = 0) :
    ∃ o, usOneTransfer maxpacket length dev 1 = .ret o := by
  subst hzero
  obtain ⟨x, hx⟩ : ∃ x, usOneTransfer 0 length dev 0 = .more x := ⟨_, nextChunk_of_ne hlen⟩
  have hzero : x.thisXfer = 0 := Nat.le_zero.mp (usOneTransfer_inv hdev hexp hx).le
  have hlen0 := hdev 0 x.thisXfer
  have hne : (dev 0 x.thisXfer).status ≠ 0 := fun h0 => by
    have := (hexp 0 x hx).progress h0
    omega
  obtain ⟨o, ho⟩ := afterMsg_empty (0 * 16) hne hzero hlen0
  exact ⟨o, (talk_succ_of_more hx).trans ho⟩

theorem usOneTransfer_returns : ∃ o, usOneTransfer maxpacket length dev (12 * length) = .ret o := by
  rcases Nat.eq_zero_or_pos length with rfl | hlen
  · exact ⟨(0, []), rfl⟩
  rcases Nat.eq_zero_or_pos maxpacket with hzero | hpos
  · obtain ⟨o, hone⟩ := usOneTransfer_empty hdev hexp (Nat.pos_iff_ne_zero.mp hlen) hzero
    obtain ⟨n, hn⟩ := Nat.exists_eq_add_of_le (show 1 ≤ 12 * length by omega)
    rw [hn]
    exact ⟨o, talk_of_ret hone n⟩
  · have hret : ∃ o, usOneTransfer maxpacket length dev (0 + 12 * length) = .ret o :=
      talk_returns (m := Xfer.measure)
        (fun x hx => nextChunk_measure (show 0 < maxpacket * 16 by omega) hx)
        fun j _ x x' hx hmore => afterMsg_measure (hexp _ x hx).progress
          (fun hx' => hx'.trans_le (usOneTransfer_inv hdev hexp hx).le) (hdev _ _) hmore
    rwa [Nat.zero_add] at hret

theorem usOneTransfer_maxtry {k : ℕ} (hnone : ∀ j < 11, ∀ x,
    usOneTransfer maxpacket length dev (k + j) = .more x →
      (dev (k + j) x.thisXfer).actLen = 0) :
    ∃ o, usOneTransfer maxpacket length dev (k + 11) = .ret o := by
  refine talk_returns (m := Xfer.maxtry) (fun x hx => ?_) fun j hj x x' hx hmore => ?_
  · exact Nat.lt_succ_of_le (usOneTransfer_inv hdev hexp hx).maxtry
  · have hzero := hnone j hj x hx
    refine afterMsg_maxtry (fun h0 => ?_) hzero hmore
    have := (hexp _ x hx).progress h0
    omega

end

/-- **A bulk transfer** that returns 0 has transferred each byte once and in order, after at most
12 messages for each byte and without 11 of them in a row that transfer nothing; for every device
all of whose answers are expected. -/
theorem us_one_transfer_complete (maxpacket length : ℕ) (dev : ℕ → ℕ → Reply)
    (hdev : ∀ k n, (dev k n).actLen ≤ n)
    (hexp : ∀ k x, usOneTransfer maxpacket length dev k = .more x →
      Expected x (dev k x.thisXfer)) :
    (∀ k moved, usOneTransfer maxpacket length dev k = .ret (0, moved) →
      bytesOf moved = List.range length) ∧
    (∃ o, usOneTransfer maxpacket length dev (12 * length) = .ret o) ∧
    ∀ k, (∀ j < 11, ∀ x, usOneTransfer maxpacket length dev (k + j) = .more x →
      (dev (k + j) x.thisXfer).actLen = 0) →
      ∃ o, usOneTransfer maxpacket length dev (k + 11) = .ret o := by
  refine ⟨fun k moved hk => ?_, usOneTransfer_returns hdev hexp,
    fun k hnone => usOneTransfer_maxtry hdev hexp hnone⟩
  have hret := usOneTransfer_good hdev hexp k
  rw [hk] at hret
  exact hret rfl

/-- A device that takes two messages for its first chunk. -/
def steady (k n : ℕ) : Reply := ⟨0, if k = 0 then n - 1 else n⟩

theorem us_one_transfer_complete_steady :
    usOneTransfer 64 1500 steady 3 = .ret (0, [(0, 1023), (1023, 1), (1024, 476)]) ∧
    bytesOf [(0, 1023), (1023, 1), (1024, 476)] = List.range 1500 := by
  have hret : usOneTransfer 64 1500 steady 3 = .ret (0, [(0, 1023), (1023, 1), (1024, 476)]) := rfl
  have hexp : ∀ k x, usOneTransfer 64 1500 steady k = .more x →
      Expected x (steady k x.thisXfer) := fun k x hx => by
    refine ⟨fun _ => ?_, fun h => absurd rfl h.1⟩
    rcases k with _ | _ | _ | k
    · cases hx
      decide
    · cases hx
      decide
    · cases hx
      decide
    · have hend : usOneTransfer 64 1500 steady (3 + k) = _ := talk_of_ret hret k
      rw [show k + 1 + 1 + 1 = 3 + k by omega, hend] at hx
      cases hx
  refine ⟨hret, (us_one_transfer_complete 64 1500 steady (fun k n => ?_) hexp).1 3 _ hret⟩
  dsimp only [steady]
  split <;> omega

/-- A chunk that fails with all of its bytes transferred ends the transfer, with half of it missing;
a device that succeeds without a byte is asked for ever. -/
theorem us_one_transfer_half :
    (usOneTransfer 64 2048 (fun _ n => ⟨0x20, n⟩) 1 = .ret (0, [(0, 1024)]) ∧
      bytesOf [(0, 1024)] ≠ List.range 2048) ∧
    ∀ k, ∃ x, usOneTransfer 64 1 (fun _ _ => ⟨0, 0⟩) k = .more x := by
  refine ⟨⟨rfl, fun h => ?_⟩, fun k => ?_⟩
  · have hlen := congrArg List.length h
    rw [bytesOf, List.flatMap_singleton, List.length_range', List.length_range] at hlen
    omega
  · have hstay : ∃ x, usOneTransfer 64 1 (fun _ _ => ⟨0, 0⟩) k = .more x ∧ x.thisXfer = 1 := by
      induction k with
      | zero => exact ⟨_, rfl, rfl⟩
      | succ k ih =>
        obtain ⟨x, hx, hone⟩ := ih
        exact ⟨_, (talk_succ_of_more hx).trans (afterMsg_rest rfl (hone ▸ one_pos)), hone⟩
    obtain ⟨x, hx, -⟩ := hstay
    exact ⟨x, hx⟩

end UBoot.Usb.Bulk
