import UBoot.Net.State
import UBoot.Lib.OnesSum

/-!
# Received frames (`NetReceive` of `net/net.c`)

`netReceive` is `NetReceive`; the call of the packet handler is its second result, so that
the handlers can be defined elsewhere. A `Frame` has a length and the memory from its first byte
on: a field behind the end of the frame is read from what the memory holds there.
-/

namespace UBoot.Net

open UBoot.Lib

/-- A received frame; lengths are `int`s. -/
structure Frame where
  bytes : Bytes
  len : Nat
  len_lt : len < 2 ^ 31

/-- A call of the packet handler: with nothing, or with a packet at an offset into the
frame, the two ports and the length. -/
inductive RxCall where
  | wake
  | packet (off dest src : Nat) (len : UInt32)
  deriving DecidableEq

abbrev etherHdrSize : Nat := 14
abbrev e802HdrSize : Nat := 22
abbrev arpHdrSize : Nat := 28
abbrev ipHdrSize : Nat := 28
abbrev protIp : Nat := 0x0800
abbrev protArp : Nat := 0x0806
abbrev protRarp : Nat := 0x8035

/-- A frame that is a list of bytes, in memory that is 0 behind it. -/
def Frame.ofBytes (l : List UInt8) (h : l.length < 2 ^ 31) : Frame := ⟨ofList l, l.length, h⟩

/-! ## The checksum -/

/-- The `ushort` at an index, in the byte order of the CPU. -/
def ushortAt (b : Board) (p : Bytes) (i : Nat) : Nat :=
  if b.bigEndian then be16 p i else (p (i + 1)).toNat * 256 + (p i).toNat

def netCksum (b : Board) (p : Bytes) (i len : Nat) : UInt32 :=
  let xsum : UInt32 := (List.range len).foldl
    (fun xsum j => xsum + UInt32.ofNat (ushortAt b p (i + 2 * j))) 0
  let xsum : UInt32 := (xsum &&& (0xffff : UInt32)) + (xsum >>> (16 : UInt32))
  let xsum : UInt32 := (xsum &&& (0xffff : UInt32)) + (xsum >>> (16 : UInt32))
  xsum &&& 0xffff

def netCksumOk (b : Board) (p : Bytes) (i len : Nat) : Bool :=
  (netCksum b p i len + 1) &&& 0xfffe == 0

/-! ## The three protocols -/

/-- The case `PROT_ARP`, for an ARP packet at `ip`. -/
def receiveArp (f : Frame) (ip : Nat) (len : Int) (s : Globals) : Globals × Option RxCall :=
  let p := f.bytes
  if len < arpHdrSize then (s, none)
  else if be16 p ip ≠ 1 then (s, none)
  else if be16 p (ip + 2) ≠ protIp then (s, none)
  else if p (ip + 4) ≠ 6 then (s, none)
  else if p (ip + 5) ≠ 4 then (s, none)
  else if s.params.netOurIP = 0 then (s, none)
  else if be32 p (ip + 24) ≠ s.params.netOurIP then (s, none)
  else if be16 p (ip + 6) = 1 then
    (netSendPacket (.arpReply (bytesAt p 6 6) (bytesAt p (ip + 8) 6) (be32 p (ip + 14))) s, none)
  else if be16 p (ip + 6) = 2 then
    ({ s with params := { s.params with netServerEther := bytesAt p (ip + 8) 6 } }, some .wake)
  else (s, none)

/-- The case `PROT_RARP` -/
def receiveRarp (f : Frame) (ip : Nat) (len : Int) (s : Globals) : Globals × Option RxCall :=
  let p := f.bytes
  if len < arpHdrSize then (s, none)
  else if be16 p (ip + 6) ≠ 4 ∨ be16 p ip ≠ 1 ∨ be16 p (ip + 2) ≠ protIp ∨ p (ip + 4) ≠ 6 ∨
      p (ip + 5) ≠ 4 then (s, none)
  else
    ({ s with params := { s.params with
        netOurIP := be32 p (ip + 24)
        netServerIP := be32 p (ip + 14)
        netServerEther := bytesAt p (ip + 8) 6 } }, some .wake)

/-- The conversion of an `int` to `size_t`. -/
def toUnsigned (n : Int) : Nat := (n % 2 ^ 32).toNat

/-- The case `PROT_IP`, for an IP packet at `ip`. -/
def receiveIp (b : Board) (f : Frame) (ip : Nat) (len : Int) (s : Globals) :
    Globals × Option RxCall :=
  let p := f.bytes
  let call : RxCall := .packet (ip + ipHdrSize) (be16 p (ip + 22)) (be16 p (ip + 20))
    (UInt32.ofNat (be16 p (ip + 24)) - 8)
  let tmp := be32 p (ip + 16)
  -- `IP_HDR_SIZE` is a `sizeof`: the comparison is unsigned, the next one is not
  if toUnsigned len < ipHdrSize then (s, none)
  else if len < be16 p (ip + 2) then (s, none)
  else if p ip &&& 0xf0 ≠ 0x40 then (s, none)
  else if be16 p (ip + 6) &&& 0x1fff ≠ 0 then (s, none)
  else if !netCksumOk b p ip 10 then (s, none)
  else if s.params.netOurIP ≠ 0 ∧ tmp ≠ s.params.netOurIP ∧ tmp ≠ 0xffffffff then (s, none)
  else if p (ip + 9) = 1 then
    if p (ip + 20) ≠ 5 then (s, none)
    else if p (ip + 21) ≠ 1 then (s, none)
    else (s, some call)
  else if p (ip + 9) ≠ 17 then (s, none)
  else (s, some call)

def netReceive (b : Board) (f : Frame) (s : Globals) : Globals × Option RxCall :=
  let x := be16 f.bytes 12
  -- an 802 packet: the other protocol field
  let (x, hdr) := if x < 1514 then (be16 f.bytes 20, e802HdrSize) else (x, etherHdrSize)
  let len : Int := f.len - hdr
  if x = protArp then receiveArp f hdr len s
  else if x = protRarp then receiveRarp f hdr len s
  else if x = protIp then receiveIp b f hdr len s
  else (s, none)

/-! ## What the checksum test says -/

/-- The words a checksum is taken over, in network byte order. -/
def wordsAt (p : Bytes) (i n : Nat) : List Nat := (List.range n).map fun j => be16 p (i + 2 * j)

/-- The ones' complement sum of `n` words is all ones. -/
def CksumRight (p : Bytes) (i n : Nat) : Prop := onesSum (wordsAt p i n) = 65535

section
variable {b : Board} {p : Bytes} {i n : Nat}

theorem toNat_foldl_add (g : Nat → Nat) (l : List Nat) (a : UInt32) :
    (l.foldl (fun x j => x + UInt32.ofNat (g j)) a).toNat = (a.toNat + (l.map g).sum) % 2 ^ 32 := by
  induction l generalizing a with
  | nil => exact (Nat.mod_eq_of_lt a.toNat_lt).symm
  | cons j l ih =>
    rw [List.foldl_cons, ih, List.map_cons, List.sum_cons, UInt32.toNat_add, UInt32.toNat_ofNat']
    omega

theorem ushortAt_lt (b : Board) (p : Bytes) (i : Nat) : ushortAt b p i < 65536 := by
  have h₁ := (p i).toNat_lt
  have h₂ := (p (i + 1)).toNat_lt
  unfold ushortAt be16
  split <;> omega

theorem ushortAt_little (h : b.bigEndian = false) (p : Bytes) (i : Nat) :
    ushortAt b p i = swap16 (be16 p i) := by
  have h₁ := (p i).toNat_lt
  have h₂ := (p (i + 1)).toNat_lt
  rw [ushortAt, if_neg (by simp [h])]
  unfold swap16 be16
  omega

theorem sum_le_of_lt {l : List Nat} (h : ∀ w ∈ l, w < 65536) : l.sum ≤ 65535 * l.length := by
  induction l with
  | nil => exact Nat.le_refl 0
  | cons w l ih =>
    obtain ⟨hw, hl⟩ := List.forall_mem_cons.mp h
    have := ih hl
    rw [List.sum_cons, List.length_cons]
    omega

theorem toNat_fold_carry (x : UInt32) :
    ((x &&& (0xffff : UInt32)) + (x >>> (16 : UInt32))).toNat = foldCarry x.toNat := by
  have h := x.toNat_lt
  simp only [UInt32.toNat_add, UInt32.toNat_and, UInt32.toNat_shiftRight, UInt32.reduceToNat,
    Nat.reduceMod, Nat.shiftRight_eq_div_pow, foldCarry]
  rw [show (65535 : Nat) = 2 ^ 16 - 1 from rfl, Nat.and_two_pow_sub_one_eq_mod]
  omega

theorem and_0xfffe_eq_zero {n : Nat} (h : n ≤ 65536) :
    n &&& 65534 = 0 ↔ n ≤ 1 ∨ n = 65536 := by
  have hhalf : (n &&& 65534) / 2 = n / 2 % 2 ^ 15 := by
    rw [Nat.and_div_two, ← Nat.and_two_pow_sub_one_eq_mod]
  have hlow : (n &&& 65534) % 2 = 0 := by
    rw [show (2 : Nat) = 2 ^ 1 from rfl, Nat.and_mod_two_pow]
    simp
  omega

theorem netCksum_rep (hn : n ≤ 65536) : (netCksum b p i n).toNat < 65536 ∧
    (netCksum b p i n).toNat % 65535 =
      ((List.range n).map fun j => ushortAt b p (i + 2 * j)).sum % 65535 := by
  have hsum : ((List.range n).map fun j => ushortAt b p (i + 2 * j)).sum < 2 ^ 32 := by
    have h := @sum_le_of_lt ((List.range n).map fun j => ushortAt b p (i + 2 * j))
      (by simp only [List.mem_map]; rintro w ⟨j, -, rfl⟩; exact ushortAt_lt ..)
    rw [List.length_map, List.length_range] at h
    omega
  have hx := toNat_foldl_add (fun j => ushortAt b p (i + 2 * j)) (List.range n) 0
  rw [UInt32.toNat_zero, Nat.zero_add, Nat.mod_eq_of_lt hsum] at hx
  obtain ⟨hlt, hmod, -⟩ := foldCarry_rep hsum
  rw [← hx, ← toNat_fold_carry, ← toNat_fold_carry] at hlt hmod
  rw [hx] at hmod
  have hand : ∀ x : UInt32, x.toNat < 65536 → (x &&& 0xffff).toNat = x.toNat := fun x hx => by
    rw [UInt32.toNat_and, show (0xffff : UInt32).toNat = 2 ^ 16 - 1 from rfl,
      Nat.and_two_pow_sub_one_eq_mod]
    exact Nat.mod_eq_of_lt hx
  simp only [netCksum]
  rw [hand _ hlt]
  exact ⟨hlt, hmod⟩

theorem cksum_test {r : UInt32} (h : r.toNat < 65536) :
    (r + 1) &&& 0xfffe = 0 ↔ r.toNat % 65535 = 0 := by
  have hmod : (r.toNat + 1) % 2 ^ 32 = r.toNat + 1 := Nat.mod_eq_of_lt (by omega)
  simp only [← UInt32.toNat_inj, UInt32.toNat_and, UInt32.toNat_add, UInt32.reduceToNat, hmod]
  rw [and_0xfffe_eq_zero (by omega)]
  omega

theorem netCksumOk_iff_sum (hn : n ≤ 65536) :
    netCksumOk b p i n = true ↔
      ((List.range n).map fun j => ushortAt b p (i + 2 * j)).sum % 65535 = 0 := by
  obtain ⟨hlt, hmod⟩ := @netCksum_rep b p i n hn
  rw [netCksumOk, beq_iff_eq, cksum_test hlt, hmod]

theorem netCksumOk_iff (hn : n ≤ 65536) :
    netCksumOk b p i n = true ↔ (wordsAt p i n).sum % 65535 = 0 := by
  rw [netCksumOk_iff_sum hn]
  cases hb : b.bigEndian with
  | true =>
    have hw : (fun j => ushortAt b p (i + 2 * j)) = fun j => be16 p (i + 2 * j) := by
      funext j
      rw [ushortAt, if_pos hb]
    rw [hw, wordsAt]
  | false =>
    have hw : (fun j => ushortAt b p (i + 2 * j)) = swap16 ∘ fun j => be16 p (i + 2 * j) := by
      funext j
      exact ushortAt_little hb p (i + 2 * j)
    rw [hw, ← List.map_map, sum_swap16_mod, wordsAt]

/-- What the right checksum is, for words that are not all 0. -/
theorem cksumRight_iff (h : be16 p i ≠ 0) (hn : n ≠ 0) :
    CksumRight p i n ↔ (wordsAt p i n).sum % 65535 = 0 := by
  have hlt : ∀ w ∈ wordsAt p i n, w < 65536 := by
    simp only [wordsAt, List.mem_map]
    rintro w ⟨j, -, rfl⟩
    exact be16_lt ..
  rw [CksumRight, (onesSum_rep hlt).eq_max_iff, and_iff_left]
  obtain ⟨n, rfl⟩ := Nat.exists_eq_succ_of_ne_zero hn
  simp only [wordsAt, List.range_succ_eq_map, List.map_cons, List.sum_cons, Nat.mul_zero,
    Nat.add_zero]
  omega

end

end UBoot.Net
