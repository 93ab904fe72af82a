import UBoot.Net.Tftp
import UBoot.Lib.Runs

/-!
# Where TFTP blocks are stored

`tftpHandler` calls `storeBlock` for a DATA block that it takes (`Taken`), and for no other
datagram. The address is computed from the 16-bit block number alone: `tftp_store_window`
says for every sequence of datagrams when a store goes below `load_addr`, and for every
file when a loss-free transfer stores each block in its place.
-/

namespace UBoot.Net

open UBoot.Lib

/-- A UDP datagram, as `TftpHandler` gets it. -/
structure Datagram where
  pkt : List UInt8
  dest : Nat
  src : Nat

def Datagram.number (d : Datagram) : Nat := be16 (ofList d.pkt) 2

/-- `TftpHandler` on a datagram. -/
def handle (b : Board) (s : Globals) (d : Datagram × Ext) : Globals :=
  tftpHandler b d.2 (ofList d.1.pkt) d.1.dest d.1.src d.1.pkt.length s

/-- A DATA block the client takes: for its port, from the server's, not the block it had
last, and number 1 if it is the first. -/
structure Taken (s : Globals) (d : Datagram) : Prop where
  dest : d.dest = s.tftp.ourPort
  src : s.tftp.state ≠ .rrq → d.src = s.tftp.serverPort
  len : 4 ≤ d.pkt.length
  op : be16 (ofList d.pkt) 0 = 3
  first : s.tftp.state = .rrq → d.number = 1
  fresh : s.tftp.state ≠ .rrq → UInt32.ofNat d.number ≠ s.tftp.lastBlock

/-! ## What the functions leave alone -/

section
variable (b : Board) (x : Ext) (s : Globals)

@[simp] theorem netStartAgain_stores : (netStartAgain b x s).stores = s.stores := by
  unfold netStartAgain
  split
  · rfl
  · split
    · split <;> rfl
    · rfl

@[simp] theorem netStartAgain_loadAddr : (netStartAgain b x s).loadAddr = s.loadAddr := by
  unfold netStartAgain
  split
  · rfl
  · split
    · split <;> rfl
    · rfl

end

/-- What `storeBlock` leaves: memory and the transfer size, and the record of the call. -/
theorem storeBlock_eq (b : Board) (x : Ext) (block : UInt32) (src : List UInt8) (s : Globals) :
    ∃ m size st, storeBlock b x block src s = { s with
      stores := ⟨block, s.loadAddr + block * 512, src⟩ :: s.stores
      mem := m
      netBootFileXferSize := size
      netState := st } := by
  simp only [storeBlock]
  split
  · split <;> exact ⟨_, _, _, rfl⟩
  · exact ⟨_, _, _, rfl⟩

theorem tftpAccept_eq (b : Board) (x : Ext) (src : List UInt8) (s : Globals) :
    ∃ m size st, tftpAccept b x src s = { tftpSend s with
      tftp := { s.tftp with lastBlock := s.tftp.block }
      timeHandler := some .tftp
      stores := ⟨s.tftp.block - 1, s.loadAddr + (s.tftp.block - 1) * 512, src⟩ :: s.stores
      mem := m
      netBootFileXferSize := size
      netState := st } := by
  obtain ⟨m, size, st, h⟩ := storeBlock_eq b x (s.tftp.block - 1) src
    (netSetTimeout .tftp { s with tftp := { s.tftp with lastBlock := s.tftp.block } })
  rw [tftpAccept]
  simp only [netSetTimeout] at h ⊢
  rw [h]
  split <;> exact ⟨_, _, _, rfl⟩

theorem bytesAt_ofList {l : List UInt8} {i : Nat} :
    bytesAt (ofList l) i (l.length - i) = l.drop i := by
  apply List.ext_getElem
  · simp
  · intro j h₁ h₂
    simp only [List.length_drop] at h₂
    simp [bytesAt, ofList, List.getElem?_eq_getElem (show i + j < l.length by omega)]

/-! ## The handler on a datagram -/

variable {b : Board} {x : Ext} {s : Globals} {d : Datagram}

/-- The state in which a taken block is accepted. -/
def taking (s : Globals) (d : Datagram) : Globals :=
  { s with tftp := { s.tftp with
      block := UInt32.ofNat d.number
      state := if s.tftp.state = .rrq then .data else s.tftp.state
      serverPort := d.src
      lastBlock := if s.tftp.state = .rrq then 0 else s.tftp.lastBlock } }

theorem handle_taken (h : Taken s d) :
    handle b s (d, x) = tftpAccept b x (d.pkt.drop 4) (taking s d) := by
  have hsrc : ¬ (s.tftp.state ≠ .rrq ∧ d.src ≠ s.tftp.serverPort) := fun hc => hc.2 (h.src hc.1)
  have hlen := h.len
  have hnum : be16 (ofList d.pkt) 2 = d.number := rfl
  simp only [handle, tftpHandler, h.op, hnum, bytesAt_ofList]
  rw [if_neg (not_not_intro h.dest), if_neg hsrc, if_neg (by omega), if_neg (by omega)]
  simp only [tftpData]
  by_cases hr : s.tftp.state = .rrq
  · rw [if_pos hr, if_neg (not_not_intro (h.first hr))]
    simp only [taking, hr, if_true]
  · rw [if_neg hr, if_neg (h.fresh hr)]
    simp only [taking, hr, if_false, h.src hr]

/-- What becomes of a datagram that is not taken: it is dropped, it is an ERROR, it is a
first block that is not number 1, or it is the last block again. -/
inductive NotTaken (b : Board) (x : Ext) (s : Globals) (d : Datagram) : Globals → Prop where
  | dropped : NotTaken b x s d s
  | error : NotTaken b x s d (netStartAgain b x s)
  | notFirst (h : s.tftp.state = .rrq) (hop : be16 (ofList d.pkt) 0 = 3) (hne : d.number ≠ 1) :
    NotTaken b x s d (netStartAgain b x (taking s d))
  | again (h : s.tftp.state ≠ .rrq) (hop : be16 (ofList d.pkt) 0 = 3)
    (heq : UInt32.ofNat d.number = s.tftp.lastBlock) :
    NotTaken b x s d { s with tftp := { s.tftp with block := UInt32.ofNat d.number } }

theorem handle_not_taken (h : ¬ Taken s d) : NotTaken b x s d (handle b s (d, x)) := by
  simp only [handle, tftpHandler]
  split
  · exact .dropped
  · next hdest =>
    split
    · exact .dropped
    · next hsrc =>
      split
      · exact .dropped
      · split
        · next hop =>
          split
          · exact .dropped
          · next hlen =>
            have hnum : be16 (ofList d.pkt) 2 = d.number := rfl
            simp only [tftpData, hnum]
            by_cases hr : s.tftp.state = .rrq
            · rw [if_pos hr]
              split
              · next hone =>
                have ht := NotTaken.notFirst (b := b) (x := x) hr hop hone
                simpa only [taking, hr, if_true] using ht
              · next hone =>
                exact absurd ⟨not_not.mp hdest, fun hn => absurd hr hn, by omega, hop,
                  fun _ => not_not.mp hone, fun hn => absurd hr hn⟩ h
            · rw [if_neg hr]
              split
              · next heq => exact .again hr hop heq
              · next hfresh =>
                exact absurd ⟨not_not.mp hdest, fun hn => not_not.mp fun hne => hsrc ⟨hn, hne⟩,
                  by omega, hop, fun hr' => absurd hr' hr, fun _ => hfresh⟩ h
        · exact .error
        · exact .dropped

/-! ## Every sequence of datagrams -/

theorem NotTaken.stores {s' : Globals} (h : NotTaken b x s d s') : s'.stores = s.stores := by
  cases h with
  | dropped => rfl
  | error => exact netStartAgain_stores ..
  | notFirst => exact netStartAgain_stores ..
  | again => rfl

theorem NotTaken.loadAddr {s' : Globals} (h : NotTaken b x s d s') : s'.loadAddr = s.loadAddr := by
  cases h with
  | dropped => rfl
  | error => exact netStartAgain_loadAddr ..
  | notFirst => exact netStartAgain_loadAddr ..
  | again => rfl

theorem Taken.stores (h : Taken s d) : (handle b s (d, x)).stores =
    ⟨UInt32.ofNat d.number - 1, s.loadAddr + (UInt32.ofNat d.number - 1) * 512, d.pkt.drop 4⟩ ::
      s.stores := by
  obtain ⟨m, size, st, he⟩ := tftpAccept_eq b x (d.pkt.drop 4) (taking s d)
  rw [handle_taken h, he]
  rfl

theorem Taken.tftp (h : Taken s d) : (handle b s (d, x)).tftp =
    { (taking s d).tftp with lastBlock := UInt32.ofNat d.number } := by
  obtain ⟨m, size, st, he⟩ := tftpAccept_eq b x (d.pkt.drop 4) (taking s d)
  rw [handle_taken h, he]
  rfl

theorem Taken.sent (h : Taken s d) (hst : s.tftp.state = .rrq ∨ s.tftp.state = .data) :
    ∃ ether ip, (handle b s (d, x)).sent =
      .tftp ether ip d.src s.tftp.ourPort (.ack d.number) :: s.sent := by
  obtain ⟨m, size, st, he⟩ := tftpAccept_eq b x (d.pkt.drop 4) (taking s d)
  have hn : d.number < 65536 := be16_lt _ _
  have hack : (UInt32.ofNat d.number).toNat % 65536 = d.number := by
    rw [UInt32.toNat_ofNat']
    omega
  have hdata : (taking s d).tftp.state = .data := by
    rcases hst with hst | hst <;> simp [taking, hst]
  refine ⟨s.params.netServerEther, s.params.netServerIP, ?_⟩
  rw [handle_taken h, he]
  simp only [tftpSend, hdata, netSendPacket]
  simp only [taking, hack]

theorem handle_loadAddr (b : Board) (s : Globals) (d : Datagram × Ext) :
    (handle b s d).loadAddr = s.loadAddr := by
  by_cases h : Taken s d.1
  · obtain ⟨m, size, st, he⟩ := tftpAccept_eq b d.2 (d.1.pkt.drop 4) (taking s d.1)
    rw [show d = (d.1, d.2) from rfl, handle_taken h, he]
    rfl
  · exact (handle_not_taken h).loadAddr

/-- The store goes below `load_addr`: its offset, as a signed number, is negative. -/
def Store.Below (loadAddr : UInt32) (st : Store) : Prop := 2 ^ 31 ≤ (st.addr - loadAddr).toNat

/-- The offset of a 16-bit block number is negative for block 0 only. -/
theorem below_iff {loadAddr : UInt32} {n : Nat} (hn : n < 65536) (src : List UInt8) :
    Store.Below loadAddr ⟨UInt32.ofNat n - 1, loadAddr + (UInt32.ofNat n - 1) * 512, src⟩ ↔
      n = 0 := by
  have hsub : loadAddr + (UInt32.ofNat n - 1) * 512 - loadAddr = (UInt32.ofNat n - 1) * 512 := by
    grind
  rw [Store.Below, hsub]
  simp only [UInt32.toNat_mul, UInt32.toNat_sub, UInt32.toNat_ofNat', UInt32.reduceToNat]
  omega

/-- No store so far is below `load_addr`. -/
def NoneBelow (s : Globals) : Prop := ∀ st ∈ s.stores, ¬ st.Below s.loadAddr

instance (s : Globals) : Decidable (NoneBelow s) :=
  inferInstanceAs (Decidable (∀ st ∈ s.stores, ¬ 2 ^ 31 ≤ (st.addr - s.loadAddr).toNat))

/-- The step: a datagram adds a store below `load_addr` if it is a taken block 0. -/
theorem noneBelow_handle (b : Board) (s : Globals) (d : Datagram × Ext) :
    NoneBelow (handle b s d) ↔ NoneBelow s ∧ (Taken s d.1 → d.1.number ≠ 0) := by
  obtain ⟨d, x⟩ := d
  by_cases h : Taken s d
  · have hn : d.number < 65536 := be16_lt _ _
    simp only [NoneBelow, handle_loadAddr, h.stores, List.forall_mem_cons, below_iff hn]
    exact ⟨fun ⟨h₀, h₁⟩ => ⟨h₁, fun _ => h₀⟩, fun ⟨h₁, h₀⟩ => ⟨h₀ h, h₁⟩⟩
  · simp only [NoneBelow, handle_loadAddr, (handle_not_taken h).stores]
    exact ⟨fun h₁ => ⟨h₁, fun ht => absurd ht h⟩, And.left⟩

/-! ## A loss-free transfer -/

/-- The client after `TftpStart` in a new `NetLoop`, with nothing recorded. -/
def sessionStart (x : Ext) (g : Globals) : Globals :=
  tftpStart x { g with
    netBootFileXferSize := 0, netState := .continue, stores := [], sent := [] }

variable (file : List UInt8)

/-- The number of DATA blocks of a file: the full ones and a last short one. -/
def blockCount : Nat := file.length / 512 + 1

/-- The `k`-th block of a file, from 1 on. -/
def fileBlock (k : Nat) : List UInt8 := (file.drop (512 * (k - 1))).take 512

/-- The DATA packet of the `k`-th block; the number has 16 bits. -/
def dataPacket (k : Nat) : List UInt8 :=
  [0, 3, UInt8.ofNat (k / 256), UInt8.ofNat k] ++ fileBlock file k

/-- The `k`-th block on its way from the server's port to the client's. -/
def dataDatagram (port : Nat) (s : Globals) (k : Nat) : Datagram :=
  ⟨dataPacket file k, s.tftp.ourPort, port⟩

/-- The first `n` blocks handed to the client in order, each once. -/
def lossFree (b : Board) (port : Nat) (x : Nat → Ext) : Nat → Globals → Globals
  | 0, s => s
  | n + 1, s =>
    let s := lossFree b port x n s
    handle b s (dataDatagram file port s (n + 1), x (n + 1))

variable {file}

theorem number_dataPacket (port : Nat) (s : Globals) (k : Nat) :
    (dataDatagram file port s k).number = k % 65536 := by
  simp only [Datagram.number, be16, ofList, dataDatagram, dataPacket, List.cons_append,
    List.getD_cons_succ, List.getD_cons_zero, UInt8.toNat_ofNat']
  omega

theorem op_dataPacket (k : Nat) : be16 (ofList (dataPacket file k)) 0 = 3 := by
  simp [be16, ofList, dataPacket]

theorem length_dataPacket (k : Nat) : 4 ≤ (dataPacket file k).length := by
  simp [dataPacket]

theorem drop_dataPacket (k : Nat) : (dataPacket file k).drop 4 = fileBlock file k := rfl

/-- The client after the first `n` blocks of a loss-free transfer. -/
structure Received (port : Nat) (n : Nat) (s : Globals) : Prop where
  first : n = 0 → s.tftp.state = .rrq
  later : n ≠ 0 → s.tftp.state = .data ∧ s.tftp.serverPort = port ∧
    s.tftp.lastBlock = UInt32.ofNat n

/-- The last store put block `n` in its place, and it was acknowledged. -/
structure Placed (file : List UInt8) (port : Nat) (loadAddr : UInt32) (n : Nat) (s : Globals) :
    Prop where
  stored : ∃ st, s.stores.head? = some st ∧ st.addr = loadAddr + UInt32.ofNat (512 * (n - 1)) ∧
    st.src = fileBlock file n
  acked : ∃ ether ip sport, s.sent.head? = some (.tftp ether ip port sport (.ack (n % 65536)))

variable {port n : Nat}

theorem Received.taken (h : Received port n s) :
    Taken s (dataDatagram file port s (n + 1)) := by
  refine ⟨rfl, fun hr => ?_, length_dataPacket _, op_dataPacket _, fun hr => ?_, fun hr => ?_⟩
  · exact (h.later fun h0 => hr (h.first h0)).2.1.symm
  · have h0 : n = 0 := by
      by_contra h0
      rw [(h.later h0).1] at hr
      cases hr
    rw [number_dataPacket, h0]
  · have h0 : n ≠ 0 := fun h0 => hr (h.first h0)
    rw [number_dataPacket, (h.later h0).2.2]
    intro heq
    have := congrArg UInt32.toNat heq
    simp only [UInt32.toNat_ofNat'] at this
    omega

theorem Received.next (h : Received port n s) (hn : n + 1 < 65536) :
    Received port (n + 1) (handle b s (dataDatagram file port s (n + 1), x)) := by
  have htk : Taken s (dataDatagram file port s (n + 1)) := h.taken
  have ht := htk.tftp (b := b) (x := x)
  refine ⟨fun h0 => absurd h0 (Nat.succ_ne_zero n), fun _ => ?_⟩
  rw [ht]
  refine ⟨?_, rfl, ?_⟩
  · by_cases h0 : n = 0
    · simp only [taking, h.first h0, if_true]
    · simp only [taking, (h.later h0).1]
      rfl
  · rw [number_dataPacket, Nat.mod_eq_of_lt hn]

theorem Received.handle_next (file : List UInt8) (b : Board) (x : Ext)
    (h : Received port n s) :
    (handle b s (dataDatagram file port s (n + 1), x)).stores =
      ⟨UInt32.ofNat ((n + 1) % 65536) - 1,
        s.loadAddr + (UInt32.ofNat ((n + 1) % 65536) - 1) * 512, fileBlock file (n + 1)⟩ ::
        s.stores ∧
    ∃ ether ip, (handle b s (dataDatagram file port s (n + 1), x)).sent =
      .tftp ether ip port s.tftp.ourPort (.ack ((n + 1) % 65536)) :: s.sent := by
  have ht : Taken s (dataDatagram file port s (n + 1)) := h.taken
  have hst : s.tftp.state = .rrq ∨ s.tftp.state = .data := by
    by_cases h0 : n = 0
    · exact .inl (h.first h0)
    · exact .inr (h.later h0).1
  have hs := ht.sent (b := b) (x := x) hst
  rw [number_dataPacket] at hs
  refine ⟨?_, hs⟩
  rw [ht.stores, number_dataPacket]
  rfl

theorem block_offset {k : Nat} (h1 : 1 ≤ k) (h2 : k < 65536) :
    (UInt32.ofNat k - 1) * 512 = UInt32.ofNat (512 * (k - 1)) := by
  apply UInt32.toNat_inj.mp
  simp only [UInt32.toNat_mul, UInt32.toNat_sub, UInt32.toNat_ofNat', UInt32.reduceToNat]
  omega

theorem Received.placed (file : List UInt8) (b : Board) (x : Ext) (h : Received port n s)
    (hn : n + 1 < 65536) :
    Placed file port s.loadAddr (n + 1)
      (handle b s (dataDatagram file port s (n + 1), x)) := by
  obtain ⟨hst, ether, ip, hsent⟩ := h.handle_next file b x
  refine ⟨⟨_, by rw [hst]; rfl, ?_, rfl⟩, ether, ip, _, by rw [hsent]; rfl⟩
  rw [Nat.mod_eq_of_lt hn, block_offset (by omega) hn]

theorem Received.not_placed (file : List UInt8) (b : Board) (x : Ext) (h : Received port n s)
    (hn : n = 65535) :
    ¬ Placed file port s.loadAddr (n + 1)
      (handle b s (dataDatagram file port s (n + 1), x)) := by
  rintro ⟨⟨st, hhead, haddr, -⟩, -⟩
  obtain ⟨hst, -⟩ := h.handle_next file b x
  rw [hst] at hhead
  cases hhead
  have hoff := (UInt32.add_right_inj _).mp haddr
  subst hn
  exact absurd hoff (by decide)

theorem lossFree_loadAddr (file : List UInt8) (b : Board) (port : Nat) (xs : Nat → Ext) (n : Nat)
    (s : Globals) : (lossFree file b port xs n s).loadAddr = s.loadAddr := by
  induction n with
  | zero => rfl
  | succ n ih => exact (handle_loadAddr ..).trans ih

theorem lossFree_received (b : Board) (port : Nat) (xs : Nat → Ext) {n : Nat} (hn : n < 65536)
    (h : Received port 0 s) : Received port n (lossFree file b port xs n s) := by
  induction n with
  | zero => exact h
  | succ n ih => exact (ih (by omega)).next hn

theorem sessionStart_received (x : Ext) (g : Globals) : Received port 0 (sessionStart x g) :=
  ⟨fun _ => rfl, fun h => absurd rfl h⟩

/-- A loss-free transfer puts every block in its place if the file has at most 65535. -/
theorem lossFree_placed_iff (file : List UInt8) (b : Board) (port : Nat) (x : Ext)
    (xs : Nat → Ext) (g : Globals) :
    (∀ n, 1 ≤ n → n ≤ blockCount file →
      Placed file port g.loadAddr n (lossFree file b port xs n (sessionStart x g))) ↔
        blockCount file ≤ 65535 := by
  constructor
  · intro h
    by_contra hlt
    obtain ⟨n, hn⟩ : ∃ n, n = 65535 := ⟨_, rfl⟩
    have hr : Received port n (lossFree file b port xs n (sessionStart x g)) :=
      lossFree_received b port xs (by omega) (sessionStart_received x g)
    have hp := hr.not_placed file b (xs (n + 1)) hn
    rw [lossFree_loadAddr] at hp
    exact hp (h (n + 1) (by omega) (by omega))
  · intro hle n h1 hn
    obtain ⟨n, rfl⟩ : ∃ m, n = m + 1 := ⟨n - 1, by omega⟩
    have hr : Received port n (lossFree file b port xs n (sessionStart x g)) :=
      lossFree_received b port xs (by omega) (sessionStart_received x g)
    have hp := hr.placed file b (xs (n + 1)) (by omega)
    rw [lossFree_loadAddr] at hp
    exact hp

/-- **Where TFTP stores.** For every sequence of datagrams, `store_block` stays above
`load_addr` exactly if no DATA block number 0 is taken; a loss-free transfer stores the
`n`-th block at `load_addr + 512 * (n - 1)`, for all `n`, exactly if the file has at most
65535 blocks. -/
theorem tftp_store_window (b : Board) :
    (∀ (s : Globals) (ds : List (Datagram × Ext)),
      NoneBelow (ds.foldl (handle b) { s with stores := [] }) ↔
        Along (handle b) (fun s d => Taken s d.1 → d.1.number ≠ 0) { s with stores := [] } ds) ∧
    ∀ (file : List UInt8) (port : Nat) (x : Ext) (xs : Nat → Ext) (g : Globals),
      (∀ n, 1 ≤ n → n ≤ blockCount file →
        Placed file port g.loadAddr n (lossFree file b port xs n (sessionStart x g))) ↔
          blockCount file ≤ 65535 := by
  refine ⟨fun s ds => ?_, fun file port x xs g => lossFree_placed_iff file b port x xs g⟩
  rw [foldl_iff_along (noneBelow_handle b)]
  exact and_iff_right (List.forall_mem_nil _)

/-- Block 1, then a DATA packet number 0 from the same server: it is stored 512 bytes below
`load_addr`. -/
theorem tftp_block_zero_below :
    ¬ NoneBelow (List.foldl (handle .plain) (sessionStart .plain .plain)
      [(⟨[0, 3, 0, 1] ++ List.replicate 512 7, 1024, 5⟩, .plain),
        (⟨[0, 3, 0, 0, 7], 1024, 5⟩, .plain)]) := by
  decide +kernel

end UBoot.Net
