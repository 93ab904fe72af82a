import UBoot.Net.Receive

/-!
# What `NetReceive` passes on

`IpPasses` collects the tests an IP packet has to pass; `netReceive_packet_iff` says that
they are all there is between a frame and the packet handler. What they leave out gives the
exact conditions for the two things a handler relies on: that its packet lies inside the
frame (`rx_length_safe`), and that it is a whole UDP packet for this host (`rx_demux`).
-/

namespace UBoot.Net

/-! ## The fields of a frame -/

section
variable (f : Frame)

/-- The size of the Ethernet header, 802 or not. -/
def Frame.hdr : Nat := if be16 f.bytes 12 < 1514 then e802HdrSize else etherHdrSize

def Frame.prot : Nat := if be16 f.bytes 12 < 1514 then be16 f.bytes 20 else be16 f.bytes 12

/-- The number of 32-bit words of the IP header. -/
def Frame.headerLength : Nat := (f.bytes f.hdr).toNat % 16

def Frame.ipLen : Nat := be16 f.bytes (f.hdr + 2)

def Frame.ipOff : Nat := be16 f.bytes (f.hdr + 6)

def Frame.ipP : UInt8 := f.bytes (f.hdr + 9)

def Frame.ipDst : UInt32 := be32 f.bytes (f.hdr + 16)

def Frame.udpLen : Nat := be16 f.bytes (f.hdr + 24)

def Frame.MoreFragments : Prop := f.ipOff / 0x2000 % 2 = 1

/-- An ICMP message of type `ICMP_REDIRECT` and code `ICMP_REDIR_HOST`. -/
def Frame.HostRedirect : Prop :=
  f.ipP = 1 ∧ f.bytes (f.hdr + 20) = 5 ∧ f.bytes (f.hdr + 21) = 1

def Frame.udpCall : RxCall :=
  .packet (f.hdr + ipHdrSize) (be16 f.bytes (f.hdr + 22)) (be16 f.bytes (f.hdr + 20))
    (UInt32.ofNat f.udpLen - 8)

/-- A host with this address listens to that one. -/
def Listens (ourIP dst : UInt32) : Prop := ourIP = 0 ∨ dst = ourIP ∨ dst = 0xffffffff

end

structure IpPasses (b : Board) (f : Frame) (ourIP : UInt32) : Prop where
  prot : f.prot = protIp
  header : f.hdr + ipHdrSize ≤ f.len
  total : f.hdr + f.ipLen ≤ f.len
  version : f.bytes f.hdr &&& 0xf0 = 0x40
  offset : f.ipOff &&& 0x1fff = 0
  cksum : netCksumOk b f.bytes f.hdr 10 = true
  dst : Listens ourIP f.ipDst
  proto : f.HostRedirect ∨ f.ipP = 17

variable {b : Board} {f : Frame} {s : Globals}

/-- The two length tests together: a negative length passes the unsigned one only. -/
theorem lengths_iff {hdr : Nat} (ipLen : Nat) (f : Frame) (hh : hdr ≤ 22) :
    ¬ toUnsigned (f.len - hdr) < ipHdrSize ∧ ¬ (f.len - hdr : Int) < ipLen ↔
      hdr + ipHdrSize ≤ f.len ∧ hdr + ipLen ≤ f.len := by
  have hlen := f.len_lt
  unfold toUnsigned
  omega

theorem listens_iff {ourIP dst : UInt32} :
    ¬ (ourIP ≠ 0 ∧ dst ≠ ourIP ∧ dst ≠ 0xffffffff) ↔ Listens ourIP dst := by
  unfold Listens
  tauto

theorem reject_iff {c : Prop} [Decidable c] {r : Globals × Option RxCall} {a : RxCall} :
    (if c then (s, none) else r).2 = some a ↔ ¬ c ∧ r.2 = some a := by
  split <;> simp [*]

theorem netReceive_eq (b : Board) (f : Frame) (s : Globals) :
    netReceive b f s =
      if f.prot = protArp then receiveArp f f.hdr (f.len - f.hdr) s
      else if f.prot = protRarp then receiveRarp f f.hdr (f.len - f.hdr) s
      else if f.prot = protIp then receiveIp b f f.hdr (f.len - f.hdr) s
      else (s, none) := by
  by_cases h : be16 f.bytes 12 < 1514
  · simp only [netReceive, Frame.prot, Frame.hdr, if_pos h]
  · simp only [netReceive, Frame.prot, Frame.hdr, if_neg h]

theorem Frame.hdr_le (f : Frame) : f.hdr ≤ 22 := by
  unfold Frame.hdr
  split <;> decide

theorem proto_iff {c : RxCall} :
    (if f.ipP = 1 then
        if f.bytes (f.hdr + 20) ≠ 5 then (s, none)
        else if f.bytes (f.hdr + 21) ≠ 1 then (s, none)
        else (s, some f.udpCall)
      else if f.ipP ≠ 17 then (s, none)
      else (s, some f.udpCall)).2 = some c ↔
        (f.HostRedirect ∨ f.ipP = 17) ∧ c = f.udpCall := by
  unfold Frame.HostRedirect
  by_cases h : f.ipP = 1
  · rw [if_pos h, reject_iff, reject_iff, h]
    simp only [not_not, Option.some.injEq, true_and, eq_comm (a := c)]
    rw [or_iff_left (by decide), and_assoc]
  · rw [if_neg h, reject_iff, not_not, Option.some.injEq, eq_comm (a := c)]
    simp only [h, false_and, false_or]

theorem receiveIp_packet {c : RxCall} (hp : f.prot = protIp) :
    (receiveIp b f f.hdr (f.len - f.hdr) s).2 = some c ↔
      IpPasses b f s.params.netOurIP ∧ c = f.udpCall := by
  have hlen := lengths_iff f.ipLen f f.hdr_le
  rw [receiveIp, reject_iff, reject_iff, reject_iff, reject_iff, reject_iff, reject_iff]
  constructor
  · rintro ⟨h₁, h₂, hver, hoff, hck, hdst, hproto⟩
    obtain ⟨hhdr, htot⟩ := hlen.mp ⟨h₁, h₂⟩
    obtain ⟨hproto, hc⟩ := proto_iff.mp hproto
    exact ⟨⟨hp, hhdr, htot, not_not.mp hver, not_not.mp hoff, by simpa using hck,
      listens_iff.mp hdst, hproto⟩, hc⟩
  · rintro ⟨h, hc⟩
    obtain ⟨h₁, h₂⟩ := hlen.mpr ⟨h.header, h.total⟩
    exact ⟨h₁, h₂, not_not.mpr h.version, not_not.mpr h.offset, by simp [h.cksum],
      listens_iff.mpr h.dst, proto_iff.mpr ⟨h.proto, hc⟩⟩

theorem receiveArp_ne_packet {ip off dest src : Nat} {len : Int} {n : UInt32} :
    (receiveArp f ip len s).2 ≠ some (.packet off dest src n) := by
  simp only [receiveArp, ne_eq, reject_iff, not_and]
  intros
  split
  · nofun
  · nofun

theorem receiveRarp_ne_packet {ip off dest src : Nat} {len : Int} {n : UInt32} :
    (receiveRarp f ip len s).2 ≠ some (.packet off dest src n) := by
  simp only [receiveRarp, ne_eq, reject_iff, not_and]
  intros
  nofun

/-- The packet handler is called with a packet exactly if the packet passes. -/
theorem netReceive_packet_iff {off dest src : Nat} {n : UInt32} :
    (netReceive b f s).2 = some (.packet off dest src n) ↔
      IpPasses b f s.params.netOurIP ∧ .packet off dest src n = f.udpCall := by
  rw [netReceive_eq]
  by_cases hp : f.prot = protIp
  · rw [if_neg (by rw [hp]; decide), if_neg (by rw [hp]; decide), if_pos hp, receiveIp_packet hp]
  · refine iff_of_false (fun h => ?_) fun h => hp h.1.prot
    split at h
    · exact receiveArp_ne_packet h
    · split at h
      · exact receiveRarp_ne_packet h
      · cases h

/-! ## Lengths -/

/-- The `n` bytes at the offset lie inside the frame. -/
def Frame.Inside (f : Frame) (off : Nat) (n : UInt32) : Prop := off + n.toNat ≤ f.len

/-- The UDP length, and the number of bytes it gives to the handler. -/
theorem udpLen_sub (f : Frame) : (UInt32.ofNat f.udpLen - 8).toNat =
    if 8 ≤ f.udpLen then f.udpLen - 8 else 2 ^ 32 - 8 + f.udpLen := by
  have h : f.udpLen < 65536 := be16_lt ..
  simp only [UInt32.toNat_sub, UInt32.toNat_ofNat', UInt32.reduceToNat]
  split <;> omega

/-- **Received lengths.** For every frame, the bytes given to the packet handler lie inside
the frame exactly if the UDP length field of a packet that passes counts its own header and
does not run past the frame. -/
theorem rx_length_safe (b : Board) (f : Frame) (s : Globals) :
    (∀ off dest src n, (netReceive b f s).2 = some (.packet off dest src n) → f.Inside off n) ↔
      (IpPasses b f s.params.netOurIP → 8 ≤ f.udpLen ∧ f.hdr + 20 + f.udpLen ≤ f.len) := by
  have hn := udpLen_sub f
  have hlen := f.len_lt
  have hinside : f.Inside (f.hdr + ipHdrSize) (UInt32.ofNat f.udpLen - 8) ↔
      8 ≤ f.udpLen ∧ f.hdr + 20 + f.udpLen ≤ f.len := by
    have hhdr : ipHdrSize = 28 := rfl
    unfold Frame.Inside
    rw [hn]
    split <;> omega
  constructor
  · intro h hpass
    exact hinside.mp (h _ _ _ _ (netReceive_packet_iff.mpr ⟨hpass, rfl⟩))
  · intro h off dest src n hcall
    obtain ⟨hpass, heq⟩ := netReceive_packet_iff.mp hcall
    cases heq
    exact hinside.mpr (h hpass)

/-! ## Demultiplexing -/

/-- A whole IPv4 UDP packet for a host with this address, its header checksum right. -/
structure Demuxed (f : Frame) (ourIP : UInt32) : Prop where
  prot : f.prot = protIp
  version : (f.bytes f.hdr).toNat / 16 = 4
  header : 5 ≤ f.headerLength
  /-- no fragment offset, and no more fragments -/
  whole : f.ipOff % 0x4000 = 0
  udp : f.ipP = 17
  cksum : CksumRight f.bytes f.hdr (2 * f.headerLength)
  dst : Listens ourIP f.ipDst

set_option maxRecDepth 4000 in
theorem version_iff (v : UInt8) : v &&& 0xf0 = 0x40 ↔ v.toNat / 16 = 4 := by
  have h : ∀ n < 256, n &&& 240 = 64 ↔ n / 16 = 4 := by decide
  rw [← UInt8.toNat_inj, UInt8.toNat_and]
  exact h _ v.toNat_lt

theorem offset_iff (f : Frame) : f.ipOff &&& 0x1fff = 0 ↔ f.ipOff % 0x2000 = 0 := by
  rw [show 0x1fff = 2 ^ 13 - 1 from rfl, Nat.and_two_pow_sub_one_eq_mod]

/-- The checksum test looks at a header without options. -/
theorem IpPasses.cksumRight {ourIP : UInt32} (h : IpPasses b f ourIP) :
    CksumRight f.bytes f.hdr 10 := by
  have hv := (version_iff _).mp h.version
  have hw : be16 f.bytes f.hdr ≠ 0 := by unfold be16; omega
  exact (cksumRight_iff hw (by decide)).mpr ((netCksumOk_iff (by decide)).mp h.cksum)

/-- **Demultiplexing.** For every frame, a packet given to the packet handler is a whole IPv4
UDP packet for this host with the right header checksum exactly if one that passes is no
ICMP host redirect and no first fragment, and has no IP options, or has a
checksum that is right for them too. -/
theorem rx_demux (b : Board) (f : Frame) (s : Globals) :
    ((∃ off dest src n, (netReceive b f s).2 = some (.packet off dest src n)) →
        Demuxed f s.params.netOurIP) ↔
      (IpPasses b f s.params.netOurIP →
        ¬ f.HostRedirect ∧ ¬ f.MoreFragments ∧
          (f.headerLength = 5 ∨
            5 < f.headerLength ∧ CksumRight f.bytes f.hdr (2 * f.headerLength))) := by
  have hcall : (∃ off dest src n, (netReceive b f s).2 = some (.packet off dest src n)) ↔
      IpPasses b f s.params.netOurIP := by
    constructor
    · rintro ⟨off, dest, src, n, h⟩
      exact (netReceive_packet_iff.mp h).1
    · intro h
      exact ⟨_, _, _, _, netReceive_packet_iff.mpr ⟨h, rfl⟩⟩
  rw [hcall]
  refine forall_congr' fun hpass => ?_
  have hoff := (offset_iff f).mp hpass.offset
  constructor
  · intro h
    have hwhole := h.whole
    refine ⟨fun hr => ?_, fun hm => ?_, ?_⟩
    · exact absurd (hr.1.symm.trans h.udp) (by decide)
    · unfold Frame.MoreFragments at hm
      omega
    · rcases Nat.eq_or_lt_of_le h.header with h5 | h5
      · exact .inl h5.symm
      · exact .inr ⟨h5, h.cksum⟩
  · rintro ⟨hr, hm, hl⟩
    refine ⟨hpass.prot, (version_iff _).mp hpass.version, ?_, ?_, hpass.proto.resolve_left hr,
      ?_, hpass.dst⟩
    · omega
    · unfold Frame.MoreFragments at hm
      omega
    · rcases hl with h5 | ⟨-, hck⟩
      · rw [h5]
        exact hpass.cksumRight
      · exact hck

/-! ## Frames that should not pass -/

/-- An Ethernet frame to everyone with an IP packet from 0.0.0.0 to everyone: its protocol,
its header checksum and what follows the header. -/
def ipFrame (proto : UInt8) (cksum payload : List UInt8) : List UInt8 :=
  netBcastAddr ++ [2, 0, 0, 0, 0, 9, 8, 0] ++
    [0x45, 0, 0, 28, 0, 0, 0, 0, 64, proto] ++ cksum ++ [0, 0, 0, 0, 255, 255, 255, 255] ++ payload

/-- A UDP packet of 28 bytes with a UDP length of 65535. -/
def udpOversized : Frame :=
  .ofBytes (ipFrame 17 [0x7a, 0xd2] [0, 7, 4, 0, 255, 255, 0, 0]) (by decide)

theorem rx_length_oversized :
    ¬ ∀ off dest src n, (netReceive .plain udpOversized .plain).2 = some (.packet off dest src n) →
      udpOversized.Inside off n := by
  intro h
  have hin := h 42 1024 7 65527 (by decide)
  exact absurd hin (by unfold Frame.Inside; decide)

def icmpHostRedirect : Frame :=
  .ofBytes (ipFrame 1 [0x7a, 0xe2] [5, 1, 0, 0, 0, 0, 0, 0]) (by decide)

/-- An ICMP host redirect reaches the handler. -/
theorem rx_host_redirect :
    ¬ ((∃ off dest src n,
        (netReceive .plain icmpHostRedirect .plain).2 = some (.packet off dest src n)) →
      Demuxed icmpHostRedirect 0) := by
  intro h
  have hd := h ⟨42, 0, 1281, 4294967288, by decide⟩
  exact absurd hd.udp (by decide)

end UBoot.Net
