import UBoot.Net.Receive

/-!
# Outgoing IP headers (`NetSetIP` of `net/net.c`)

`netSetIP` writes the IP and UDP header field by field, the checksum last, over a field that
was zeroed first. `netCksumOk_put` says what a checksum word does: it completes the sum to a
multiple of 65535, which is what `NetCksumOk` tests, in the byte order of either CPU. A header
that passes the test fails it once one of its words is another number modulo 65535
(`netCksumOk_corrupt`).
-/

namespace UBoot.Net

open UBoot.Lib

/-- The bytes `l` written at an index. -/
def Bytes.put (p : Bytes) (i : Nat) (l : List UInt8) : Bytes := fun j =>
  if i ≤ j then l[j - i]?.getD (p j) else p j

/-- `htons` of a value, as bytes. -/
def htons (v : Nat) : List UInt8 := [UInt8.ofNat (v / 256), UInt8.ofNat v]

/-- An IP address in network byte order, as `NetCopyIP` copies it. -/
def ipBytes (ip : UInt32) : List UInt8 := htons (ip.toNat / 65536) ++ htons ip.toNat

/-- A `ushort` as the CPU stores it. -/
def ushortBytes (b : Board) (v : Nat) : List UInt8 :=
  if b.bigEndian then htons v else (htons v).reverse

/-- `NetSetIP` for the packet at index `ip`, with `NetIPID` and `NetOurIP`; the result has the
new `NetIPID`. -/
def netSetIP (b : Board) (netIPID netOurIP : UInt32) (ip : Nat) (dest : UInt32)
    (dport sport len : Nat) (p : Bytes) : Bytes × UInt32 :=
  -- the byte after an odd number of bytes
  let p := if len % 2 = 1 then p.put (ip + ipHdrSize + len) [0] else p
  let p := p.put ip [0x45]
  let p := p.put (ip + 1) [0]
  let p := p.put (ip + 2) (htons (ipHdrSize + len))
  let p := p.put (ip + 4) (htons netIPID.toNat)
  let p := p.put (ip + 6) (htons 0x4000)
  let p := p.put (ip + 8) [255]
  let p := p.put (ip + 9) [17]
  let p := p.put (ip + 10) [0, 0]
  let p := p.put (ip + 12) (ipBytes netOurIP)
  let p := p.put (ip + 16) (ipBytes dest)
  let p := p.put (ip + 20) (htons sport)
  let p := p.put (ip + 22) (htons dport)
  let p := p.put (ip + 24) (htons (8 + len))
  let p := p.put (ip + 26) [0, 0]
  (p.put (ip + 10) (ushortBytes b (65535 - (netCksum b p ip 10).toNat)), netIPID + 1)

variable {b : Board} {p q : Bytes} {i j k n w : Nat} {l l' : List UInt8}

/-! ## Writing bytes -/

theorem put_at (h : j < l.length) : p.put i l (i + j) = l[j] := by
  rw [Bytes.put, if_pos (by omega), Nat.add_sub_cancel_left, List.getElem?_eq_getElem h,
    Option.getD_some]

theorem put_outside (h : j < i ∨ i + l.length ≤ j) : p.put i l j = p j := by
  rw [Bytes.put]
  split_ifs
  · rw [List.getElem?_eq_none (by omega), Option.getD_none]
  · rfl

theorem put_put : (p.put i l).put (i + l.length) l' = p.put i (l ++ l') := by
  funext j
  rcases Nat.lt_or_ge j (i + l.length) with hlt | hge
  · rw [put_outside (.inl hlt), Bytes.put, Bytes.put]
    split_ifs
    · rw [List.getElem?_append_left (by omega)]
    · rfl
  · rw [Bytes.put, if_pos hge, put_outside (.inr hge), Bytes.put, if_pos (by omega),
      List.getElem?_append_right (by omega)]
    congr 2
    omega

theorem put_pair {a c : UInt8} : p.put i [a, c] i = a ∧ p.put i [a, c] (i + 1) = c :=
  ⟨@put_at p i 0 [a, c] Nat.two_pos, @put_at p i 1 [a, c] Nat.one_lt_two⟩

theorem ushortAt_put (h : w < 65536) : ushortAt b (p.put i (ushortBytes b w)) i = w := by
  have hhi : (UInt8.ofNat (w / 256)).toNat = w / 256 := by
    rw [UInt8.toNat_ofNat']
    omega
  have hlo : (UInt8.ofNat w).toNat = w % 256 := UInt8.toNat_ofNat'
  cases hb : b.bigEndian with
  | true =>
    have hbytes : ushortBytes b w = [UInt8.ofNat (w / 256), UInt8.ofNat w] := if_pos hb
    rw [ushortAt, if_pos hb, be16, hbytes, put_pair.1, put_pair.2, hhi, hlo]
    omega
  | false =>
    have hlittle : ¬ b.bigEndian = true := by rw [hb]; exact Bool.false_ne_true
    have hbytes : ushortBytes b w = [UInt8.ofNat w, UInt8.ofNat (w / 256)] := if_neg hlittle
    rw [ushortAt, if_neg hlittle, hbytes, put_pair.1, put_pair.2, hhi, hlo]
    omega

theorem ushortAt_congr (h₀ : p i = q i) (h₁ : p (i + 1) = q (i + 1)) :
    ushortAt b p i = ushortAt b q i := by
  rw [ushortAt, ushortAt, be16, be16, h₀, h₁]

theorem be16_congr (h₀ : p i = q i) (h₁ : p (i + 1) = q (i + 1)) : be16 p i = be16 q i := by
  rw [be16, be16, h₀, h₁]

/-! ## The checksum word -/

theorem sum_exchange {f g : Nat → Nat} (hk : k < n) (h : ∀ j, j ≠ k → f j = g j) :
    ((List.range n).map f).sum + g k = ((List.range n).map g).sum + f k := by
  induction n with
  | zero => omega
  | succ n ih =>
    rw [List.range_succ, List.map_append, List.map_append, List.sum_append, List.sum_append]
    simp only [List.map_cons, List.map_nil, List.sum_cons, List.sum_nil, Nat.add_zero]
    rcases Nat.lt_succ_iff_lt_or_eq.mp hk with hlt | rfl
    · have := ih hlt
      have := h n (by omega)
      omega
    · have hsame : (List.range k).map f = (List.range k).map g :=
        List.map_congr_left fun j hj => h j (List.mem_range.mp hj).ne
      rw [hsame]
      omega

/-- **The checksum word.** The complement of the sum taken over a zeroed word, stored there,
makes the block pass. -/
theorem netCksumOk_put (hn : n ≤ 65536) (hk : k < n) (hzero : ushortAt b p (i + 2 * k) = 0) :
    netCksumOk b (p.put (i + 2 * k) (ushortBytes b (65535 - (netCksum b p i n).toNat))) i n =
      true := by
  obtain ⟨hlt, hmod⟩ := @netCksum_rep b p i n hn
  generalize netCksum b p i n = x at hlt hmod
  rw [netCksumOk_iff_sum hn]
  have hother : ∀ j, j ≠ k →
      ushortAt b (p.put (i + 2 * k) (ushortBytes b (65535 - x.toNat))) (i + 2 * j) =
        ushortAt b p (i + 2 * j) := fun j hj => by
    have hlen : (ushortBytes b (65535 - x.toNat)).length = 2 := by
      rw [ushortBytes]
      split <;> rfl
    exact ushortAt_congr (put_outside (by omega)) (put_outside (by omega))
  have hsum := sum_exchange hk hother
  rw [hzero, ushortAt_put (by omega)] at hsum
  omega

/-- **One corrupted word is noticed**, unless it is the same number modulo 65535. -/
theorem netCksumOk_corrupt (hn : n ≤ 65536) (hk : k < n) (hok : netCksumOk b p i n = true)
    (hw : w < 65536) (hne : w % 65535 ≠ be16 p (i + 2 * k) % 65535) :
    netCksumOk b (p.put (i + 2 * k) (htons w)) i n = false := by
  rw [netCksumOk_iff hn] at hok
  refine Bool.eq_false_iff.mpr fun hok' => ?_
  rw [netCksumOk_iff hn] at hok'
  have hother : ∀ j, j ≠ k →
      be16 (p.put (i + 2 * k) (htons w)) (i + 2 * j) = be16 p (i + 2 * j) := fun j hj => by
    have hlen : (htons w).length = 2 := rfl
    exact be16_congr (put_outside (by omega)) (put_outside (by omega))
  have hword : be16 (p.put (i + 2 * k) (htons w)) (i + 2 * k) = w := by
    have h := @ushortAt_put ⟨true, false, false, none, none, none⟩ p (i + 2 * k) w hw
    exact h
  have hsum := sum_exchange hk hother
  rw [hword] at hsum
  rw [wordsAt] at hok hok'
  omega

/-! ## The header -/

section Header

variable {src dest id : UInt32} {dport sport len ip : Nat}

def hi (v : Nat) : UInt8 := UInt8.ofNat (v / 256)

def lo (v : Nat) : UInt8 := UInt8.ofNat v

def ipHeader (id src dest : UInt32) (dport sport len : Nat) : List UInt8 :=
  [0x45, 0, hi (ipHdrSize + len), lo (ipHdrSize + len), hi id.toNat, lo id.toNat,
    hi 0x4000, lo 0x4000, 255, 17, 0, 0,
    hi (src.toNat / 65536), lo (src.toNat / 65536), hi src.toNat, lo src.toNat,
    hi (dest.toNat / 65536), lo (dest.toNat / 65536), hi dest.toNat, lo dest.toNat,
    hi sport, lo sport, hi dport, lo dport, hi (8 + len), lo (8 + len), 0, 0]

theorem ipHeader_eq : ipHeader id src dest dport sport len =
    [0x45] ++ [0] ++ htons (ipHdrSize + len) ++ htons id.toNat ++ htons 0x4000 ++ [255] ++ [17] ++
      [0, 0] ++ ipBytes src ++ ipBytes dest ++ htons sport ++ htons dport ++ htons (8 + len) ++
      [0, 0] := rfl

theorem netSetIP_eq : ∃ p₀ : Bytes, (netSetIP b id src ip dest dport sport len p).1 =
    (p₀.put ip (ipHeader id src dest dport sport len)).put (ip + 10) (ushortBytes b
      (65535 - (netCksum b (p₀.put ip (ipHeader id src dest dport sport len)) ip 10).toNat)) := by
  refine ⟨if len % 2 = 1 then p.put (ip + ipHdrSize + len) [0] else p, ?_⟩
  have htons_length : ∀ v, (htons v).length = 2 := fun _ => rfl
  have ipBytes_length : ∀ x, (ipBytes x).length = 4 := fun _ => rfl
  simp only [ipHeader_eq, ← put_put, List.length_append, List.length_cons, List.length_nil,
    htons_length, ipBytes_length, Nat.reduceAdd, netSetIP]

theorem netSetIP_at {k : Nat} (hk : k < 28) (hout : k < 10 ∨ 12 ≤ k) :
    (netSetIP b id src ip dest dport sport len p).1 (ip + k) =
      (ipHeader id src dest dport sport len).getD k 0 := by
  obtain ⟨p₀, h⟩ := @netSetIP_eq b p src dest id dport sport len ip
  have hlen : (ushortBytes b (65535 - (netCksum b
      (p₀.put ip (ipHeader id src dest dport sport len)) ip 10).toNat)).length = 2 := by
    rw [ushortBytes]
    split <;> rfl
  have hk' : k < (ipHeader id src dest dport sport len).length := hk
  rw [h, put_outside (by omega), put_at hk', List.getD_eq_getElem?_getD,
    List.getElem?_eq_getElem hk', Option.getD_some]

theorem netSetIP_cksum : netCksumOk b (netSetIP b id src ip dest dport sport len p).1 ip 10 =
    true := by
  obtain ⟨p₀, h⟩ := @netSetIP_eq b p src dest id dport sport len ip
  have hzero : ushortAt b (p₀.put ip (ipHeader id src dest dport sport len)) (ip + 2 * 5) = 0 := by
    have h₀ : (p₀.put ip (ipHeader id src dest dport sport len)) (ip + 10) = 0 :=
      @put_at p₀ ip 10 (ipHeader id src dest dport sport len) (by decide : 10 < 28)
    have h₁ : (p₀.put ip (ipHeader id src dest dport sport len)) (ip + 11) = 0 :=
      @put_at p₀ ip 11 (ipHeader id src dest dport sport len) (by decide : 11 < 28)
    rw [ushortAt, be16, Nat.add_assoc, h₀, h₁]
    exact ite_self _
  rw [h]
  exact @netCksumOk_put b _ ip 5 10 (by decide) (by decide) hzero

theorem be16_of_bytes {v : Nat} (h₀ : p i = hi v) (h₁ : p (i + 1) = lo v) :
    be16 p i = v % 65536 := by
  rw [be16, h₀, h₁, hi, lo, UInt8.toNat_ofNat', UInt8.toNat_ofNat']
  omega

theorem be32_of_bytes {x : UInt32} (h₀ : p i = hi (x.toNat / 65536))
    (h₁ : p (i + 1) = lo (x.toNat / 65536)) (h₂ : p (i + 2) = hi x.toNat)
    (h₃ : p (i + 3) = lo x.toNat) : be32 p i = x := by
  have hx := x.toNat_lt
  rw [be32, be16_of_bytes h₀ h₁, be16_of_bytes h₂ h₃, ← UInt32.toNat_inj, UInt32.toNat_ofNat']
  omega

theorem header_fields {g : Bytes} (hlen : ipHdrSize + len < 2 ^ 16)
    (hat : ∀ k, k < 28 → k < 10 ∨ 12 ≤ k →
      g (i + k) = (ipHeader id src dest dport sport len).getD k 0) :
    g i = 0x45 ∧ be16 g (i + 2) = 28 + len ∧ be16 g (i + 6) = 0x4000 ∧ g (i + 9) = 17 ∧
    be32 g (i + 16) = dest ∧ be16 g (i + 20) = sport % 65536 ∧
    be16 g (i + 22) = dport % 65536 ∧ be16 g (i + 24) = 8 + len := by
  simp only [ipHdrSize] at hlen
  have hl : be16 g (i + 2) = (28 + len) % 65536 :=
    be16_of_bytes (hat 2 (by decide) (by decide)) (hat 3 (by decide) (by decide))
  have hu : be16 g (i + 24) = (8 + len) % 65536 :=
    be16_of_bytes (hat 24 (by decide) (by decide)) (hat 25 (by decide) (by decide))
  refine ⟨hat 0 (by decide) (by decide), by omega, ?_, hat 9 (by decide) (by decide), ?_, ?_, ?_,
    by omega⟩
  · exact @be16_of_bytes g (i + 6) 0x4000 (hat 6 (by decide) (by decide))
      (hat 7 (by decide) (by decide))
  · exact be32_of_bytes (hat 16 (by decide) (by decide)) (hat 17 (by decide) (by decide))
      (hat 18 (by decide) (by decide)) (hat 19 (by decide) (by decide))
  · exact be16_of_bytes (hat 20 (by decide) (by decide)) (hat 21 (by decide) (by decide))
  · exact be16_of_bytes (hat 22 (by decide) (by decide)) (hat 23 (by decide) (by decide))

/-- The frame `f` has the packet that `NetSetIP` built behind its Ethernet header. -/
structure Carries (f : Frame) (q : Bytes) (ip len : Nat) : Prop where
  type : be16 f.bytes 12 = protIp
  long : etherHdrSize + ipHdrSize + len ≤ f.len
  bytes : ∀ k < ipHdrSize + len, f.bytes (etherHdrSize + k) = q (ip + k)

theorem netReceive_of_carries {b' : Board} {f : Frame} {s : Globals}
    (hlen : ipHdrSize + len < 2 ^ 16)
    (hf : Carries f (netSetIP b id src ip dest dport sport len p).1 ip len)
    (hours : s.params.netOurIP = 0 ∨ dest = s.params.netOurIP ∨ dest = 0xffffffff) :
    netReceive b' f s = (s, some (.packet (etherHdrSize + ipHdrSize) (dport % 65536)
      (sport % 65536) (UInt32.ofNat len))) := by
  obtain ⟨htype, hlong, hbytes⟩ := hf
  simp only [ipHdrSize, etherHdrSize] at hlen hlong hbytes
  have hat : ∀ k, k < 28 → k < 10 ∨ 12 ≤ k →
      f.bytes (14 + k) = (ipHeader id src dest dport sport len).getD k 0 := fun k hk hout => by
    rw [hbytes k (by omega), netSetIP_at hk hout]
  obtain ⟨hv, htotal, hoff, hp, hdst, hsport, hdport, hudp⟩ := header_fields hlen hat
  have hcksum : netCksumOk b' f.bytes 14 10 = true := by
    have hok := @netSetIP_cksum b p src dest id dport sport len ip
    have hwords : wordsAt f.bytes 14 10 =
        wordsAt (netSetIP b id src ip dest dport sport len p).1 ip 10 :=
      List.map_congr_left fun j hj => by
        have hj := List.mem_range.mp hj
        have h₀ := hbytes (2 * j) (by omega)
        have h₁ := hbytes (2 * j + 1) (by omega)
        rw [be16, be16, h₀]
        exact congrArg (fun x : UInt8 => _ + x.toNat) h₁
    rw [netCksumOk_iff (by decide)] at hok ⊢
    rw [hwords]
    exact hok
  have hours' : ¬ (s.params.netOurIP ≠ 0 ∧ dest ≠ s.params.netOurIP ∧ dest ≠ 0xffffffff) := by
    rintro ⟨h₀, h₁, h₂⟩
    exact hours.elim h₀ fun h => h.elim h₁ h₂
  have hflen := f.len_lt
  have hunsigned : ¬ toUnsigned ((f.len : Int) - 14) < 28 := by
    rw [toUnsigned]
    omega
  have hfits : ¬ (f.len : Int) - 14 < ((28 + len : Nat) : Int) := by
    push_cast
    omega
  have hpayload : UInt32.ofNat (8 + len) - 8 = UInt32.ofNat len := by
    rw [UInt32.ofNat_add]
    grind
  have hip : receiveIp b' f 14 ((f.len : Int) - 14) s = (s, some (.packet (14 + 28)
      (dport % 65536) (sport % 65536) (UInt32.ofNat len))) := by
    simp only [receiveIp, ipHdrSize, hv, htotal, hoff, hp, hdst, hsport, hdport, hudp, hpayload]
    rw [if_neg hunsigned, if_neg hfits, if_neg (by decide), if_neg (by decide), hcksum,
      if_neg (by decide), if_neg hours', if_neg (by decide), if_neg (by decide)]
  rw [netReceive, htype]
  exact hip

end Header

/-- **Outgoing headers are accepted and corruption is caught.** What `NetSetIP` builds passes
`NetCksumOk`; a receiver that has the address, or none yet, dispatches it with its ports and its
length; and no header that passes `NetCksumOk` does so with one word changed modulo 65535. -/
theorem netSetIP_accepted {len : Nat} (hlen : ipHdrSize + len < 2 ^ 16) (b : Board)
    (id src dest : UInt32) (ip dport sport : Nat) (p : Bytes) :
    netCksumOk b (netSetIP b id src ip dest dport sport len p).1 ip 10 = true ∧
    (∀ b' f s, Carries f (netSetIP b id src ip dest dport sport len p).1 ip len →
      s.params.netOurIP = 0 ∨ dest = s.params.netOurIP ∨ dest = 0xffffffff →
      netReceive b' f s = (s, some (.packet (etherHdrSize + ipHdrSize) (dport % 65536)
        (sport % 65536) (UInt32.ofNat len)))) ∧
    ∀ (q : Bytes) i, netCksumOk b q i 10 = true → ∀ k < 10, ∀ w < 65536,
      w % 65535 ≠ be16 q (i + 2 * k) % 65535 →
      netCksumOk b (q.put (i + 2 * k) (htons w)) i 10 = false :=
  ⟨netSetIP_cksum, fun _ _ _ hf hours => netReceive_of_carries hlen hf hours,
    fun _ _ hok _ hk _ hw hne => netCksumOk_corrupt (by decide) hk hok hw hne⟩

/-- A datagram of three bytes behind an Ethernet header. -/
def threeFrame : Frame where
  bytes k := if k = 12 then 8 else if k < 14 then 0
    else (netSetIP .plain 7 0x0a000001 0 0x0a000002 69 1024 3 fun _ => 0).1 (k - 14)
  len := 60
  len_lt := by decide

theorem netSetIP_accepted_three :
    netReceive .plain threeFrame .plain = (.plain, some (.packet 42 69 1024 3)) ∧
      netCksumOk .plain ((netSetIP .plain 7 0x0a000001 0 0x0a000002 69 1024 3 fun _ => 0).1.put 18
        (htons 3)) 0 10 = false := by
  obtain ⟨hok, hreceive, hcorrupt⟩ :=
    @netSetIP_accepted 3 (by decide) .plain 7 0x0a000001 0x0a000002 0 69 1024 fun _ => 0
  refine ⟨hreceive .plain threeFrame .plain ⟨rfl, by decide, fun k _ => ?_⟩ (.inl rfl), ?_⟩
  · have h12 : etherHdrSize + k ≠ 12 := by rw [etherHdrSize]; omega
    have h14 : ¬ etherHdrSize + k < 14 := by rw [etherHdrSize]; omega
    simp only [threeFrame, if_neg h12, if_neg h14, etherHdrSize, Nat.add_sub_cancel_left,
      Nat.zero_add]
  · exact hcorrupt _ 0 hok 9 (by decide) 3 (by decide) (by decide)

end UBoot.Net
