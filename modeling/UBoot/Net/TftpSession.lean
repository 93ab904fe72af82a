import UBoot.Flash.Complete
import UBoot.Net.TftpStore

/-!
# A TFTP download over a lossy network

A `Session` is the client with the DATA datagrams sent so far. A datagram once sent may be
delivered at any later time, any number of times, or never, and so may an acknowledgement:
the server may send block `k + 1` once the client has sent an acknowledgement of block `k`
to its port. Several server processes may answer, each from its own port.

The invariant (`SessionOk`): what is acknowledged is stored, with everything before it; what
the server sends is the next block after something acknowledged, or the first.
-/

namespace UBoot.Net

open UBoot.Lib

/-! ## The system -/

structure Session where
  client : Globals
  data : List (Nat × Nat)

inductive SessionEv where
  /-- a server process sends a block from its port -/
  | send (port k : Nat)
  | deliver (port k : Nat) (x : Ext)
  /-- a datagram that is not DATA -/
  | other (d : Datagram) (x : Ext)
  | timeout (x : Ext)

/-- The client has acknowledged block `k` to the port. -/
def Acked (s : Globals) (port k : Nat) : Prop :=
  ∃ ether ip sport, Out.tftp ether ip port sport (.ack k) ∈ s.sent

/-- A datagram given to the current packet handler. -/
def receive (b : Board) (s : Globals) (d : Datagram × Ext) : Globals :=
  if s.packetHandler = some .tftp then handle b s d else s

inductive SessionStep (b : Board) (file : List UInt8) : Session → SessionEv → Session → Prop where
  | send {s : Session} {port k : Nat}
    (h : k = 1 ∨ 1 < k ∧ k ≤ blockCount file ∧ Acked s.client port (k - 1)) :
    SessionStep b file s (.send port k) { s with data := (port, k) :: s.data }
  | deliver {s : Session} {port k : Nat} {x : Ext} (h : (port, k) ∈ s.data) :
    SessionStep b file s (.deliver port k x)
      { s with client := receive b s.client (dataDatagram file port s.client k, x) }
  | other {s : Session} {d : Datagram} {x : Ext} (h : be16 (ofList d.pkt) 0 ≠ 3) :
    SessionStep b file s (.other d x) { s with client := receive b s.client (d, x) }
  | timeout {s : Session} {x : Ext} (h : s.client.timeHandler = some .tftp) :
    SessionStep b file s (.timeout x)
      { s with client := tftpTimeout b x { s.client with timeHandler := none } }
  | startAgain {s : Session} {x : Ext} (h : s.client.timeHandler = some .startAgain) :
    SessionStep b file s (.timeout x)
      { s with client := { s.client with timeHandler := none, netState := .restart } }

/-- Where `store_block` calls `flash_write` for `src`, it returns 0 and has stored that at `addr`,
and nothing else. -/
def Board.Stores (b : Board) (x : Ext) (src : List UInt8) (addr : UInt32) (m : Mem32) : Prop :=
  b.inFlash addr = true →
    Flash.flashWrite (b.directFlash.getD []) x.writeBuff src addr m = (0, m.store addr src)

/-- Every `flash_write` of a step has stored its block. -/
def FlashStores (b : Board) (file : List UInt8) (s : Session) : SessionEv → Prop
  | .deliver port k x =>
    s.client.packetHandler = some .tftp → Taken s.client (dataDatagram file port s.client k) →
      b.Stores x (fileBlock file k) (s.client.loadAddr + UInt32.ofNat (512 * (k - 1))) s.client.mem
  | _ => True

/-- A block is stored if, where it goes to flash, the table leads through its range, no sector
there is protected, and `write_buff` stores what it is given. -/
theorem Board.stores_of_through {b : Board} {x : Ext} {src : List UInt8} {addr : UInt32}
    (hx : x.writeBuff = Flash.storing) (hsrc : src.length < 2 ^ 32)
    (ht : Flash.Disjoint (b.directFlash.getD []))
    (h : b.inFlash addr = true → ∃ first last,
      Flash.addr2info (b.directFlash.getD []) addr = some first ∧
      Flash.addr2info (b.directFlash.getD []) (Flash.lastAddr addr src.length) = some last ∧
      Flash.protectedHit (Flash.banksBetween (b.directFlash.getD []) first last) addr
        (Flash.lastAddr addr src.length) = false ∧
      Flash.WritesThrough (b.directFlash.getD []) first last addr src.length) (m : Mem32) :
    b.Stores x src addr m := by
  intro hin
  obtain ⟨first, last, hf, hl, hp, hw⟩ := h hin
  rw [hx]
  exact Flash.flashWrite_storing ht hsrc hf hl hp hw m

/-! ## The blocks of a file -/

section
variable {file : List UInt8} {k : Nat}

theorem length_fileBlock (file : List UInt8) (k : Nat) :
    (fileBlock file k).length = min 512 (file.length - 512 * (k - 1)) := by
  simp [fileBlock]

theorem block_start (h : k ≤ blockCount file) : 512 * (k - 1) ≤ file.length := by
  unfold blockCount at h
  omega

theorem short_iff (h1 : 1 ≤ k) (h : k ≤ blockCount file) :
    (fileBlock file k).length < 512 ↔ k = blockCount file := by
  rw [length_fileBlock]
  unfold blockCount at h ⊢
  omega

end

/-! ## What is stored -/

section
variable {file : List UInt8} {base : UInt32} {k : Nat} {s s' : Globals}

/-- The first `k` blocks are in memory, and counted. -/
structure Got (file : List UInt8) (base : UInt32) (k : Nat) (s : Globals) : Prop where
  mem : s.mem.HoldsUpTo base file (512 * k)
  size : min (512 * k) file.length ≤ s.netBootFileXferSize.toNat

def Store.Inside (file : List UInt8) (base : UInt32) (st : Store) : Prop :=
  ∃ o, o + st.src.length ≤ file.length ∧ st.addr = base + UInt32.ofNat o

theorem storeBlock_ok {b : Board} {x : Ext} {block : UInt32} {src : List UInt8} {s : Globals}
    (h : b.Stores x src (s.loadAddr + block * 512) s.mem) :
    storeBlock b x block src s = { s with
      stores := ⟨block, s.loadAddr + block * 512, src⟩ :: s.stores
      mem := s.mem.store (s.loadAddr + block * 512) src
      netBootFileXferSize :=
        if s.netBootFileXferSize < block * 512 + UInt32.ofNat src.length then
          block * 512 + UInt32.ofNat src.length
        else s.netBootFileXferSize } := by
  simp only [storeBlock]
  split
  · next hin => rw [h hin, if_neg (not_not_intro rfl)]
  · rw [if_neg (not_not_intro rfl)]

theorem tftpAccept_ok {b : Board} {x : Ext} {src : List UInt8} {s : Globals}
    (h : b.Stores x src (s.loadAddr + (s.tftp.block - 1) * 512) s.mem) :
    tftpAccept b x src s = { tftpSend s with
      tftp := { s.tftp with lastBlock := s.tftp.block }
      timeHandler := some .tftp
      stores := ⟨s.tftp.block - 1, s.loadAddr + (s.tftp.block - 1) * 512, src⟩ :: s.stores
      mem := s.mem.store (s.loadAddr + (s.tftp.block - 1) * 512) src
      netBootFileXferSize :=
        if s.netBootFileXferSize < (s.tftp.block - 1) * 512 + UInt32.ofNat src.length then
          (s.tftp.block - 1) * 512 + UInt32.ofNat src.length
        else s.netBootFileXferSize
      netState := if src.length < 512 then .success else s.netState } := by
  have hstore := storeBlock_ok
    (s := netSetTimeout .tftp { s with tftp := { s.tftp with lastBlock := s.tftp.block } }) h
  simp only [netSetTimeout] at hstore
  simp only [tftpAccept, netSetTimeout, hstore]
  split <;> rfl

/-- The state after a block of the file is stored in its place. -/
structure Stored (file : List UInt8) (base : UInt32) (k : Nat) (s s' : Globals) : Prop where
  loadAddr : s'.loadAddr = s.loadAddr
  stores : ∃ st, s'.stores = st :: s.stores ∧ st.Inside file base
  mem : s'.mem = s.mem.store (base + UInt32.ofNat (512 * (k - 1))) (fileBlock file k)
  size : s'.netBootFileXferSize.toNat =
    max s.netBootFileXferSize.toNat (min (512 * k) file.length)

theorem Stored.got (h : Stored file base k s s') (hf : file.length < 2 ^ 32)
    (hk : k ≤ blockCount file) (hg : Got file base (k - 1) s) : Got file base k s' := by
  refine ⟨?_, by rw [h.size]; omega⟩
  rw [h.mem]
  exact (Mem32.store_extends hf (block_start hk) hg.mem).mono (by omega)

theorem Stored.keeps {j : Nat} (h : Stored file base k s s') (hf : file.length < 2 ^ 32)
    (hk : k ≤ blockCount file) (hg : Got file base j s) : Got file base j s' := by
  refine ⟨?_, by have := hg.size; rw [h.size]; omega⟩
  rw [h.mem]
  exact Mem32.store_keeps hf (block_start hk) hg.mem

theorem Stored.outside {a : UInt32} (h : Stored file base k s s') (hf : file.length < 2 ^ 32)
    (hk : k ≤ blockCount file) (ha : file.length ≤ (a - base).toNat) : s'.mem a = s.mem a := by
  have hlen := length_fileBlock file k
  have hstart := block_start hk
  have hoff : (UInt32.ofNat (512 * (k - 1))).toNat = 512 * (k - 1) :=
    UInt32.toNat_ofNat_of_lt' (show 512 * (k - 1) < 2 ^ 32 by omega)
  have hle : UInt32.ofNat (512 * (k - 1)) ≤ a - base := by
    rw [UInt32.le_iff_toNat_le, hoff]
    omega
  have hsub : a - (base + UInt32.ofNat (512 * (k - 1))) =
      a - base - UInt32.ofNat (512 * (k - 1)) := by grind
  rw [h.mem]
  refine Mem32.store_behind_end ?_
  rw [hsub, UInt32.toNat_sub_of_le _ _ hle, hoff, hlen]
  omega

theorem Taken.accepted {b : Board} {x : Ext} {port : Nat}
    (hx : b.Stores x (fileBlock file k) (s.loadAddr + UInt32.ofNat (512 * (k - 1))) s.mem)
    (hf : file.length < 512 * 65535) (h1 : 1 ≤ k) (hk : k ≤ blockCount file)
    (h : Taken s (dataDatagram file port s k)) :
    Stored file s.loadAddr k s (handle b s (dataDatagram file port s k, x)) ∧
      ((handle b s (dataDatagram file port s k, x)).netState = .success →
        k = blockCount file ∨ s.netState = .success) := by
  have hk' : k < 65536 := by unfold blockCount at hk; omega
  have hn : (dataDatagram file port s k).number = k := by
    rw [number_dataPacket, Nat.mod_eq_of_lt hk']
  have hoff : (UInt32.ofNat k - 1) * 512 = UInt32.ofNat (512 * (k - 1)) := block_offset h1 hk'
  have hsrc : (dataDatagram file port s k).pkt.drop 4 = fileBlock file k := drop_dataPacket k
  have hlen := length_fileBlock file k
  have hstart := block_start hk
  have hx' : b.Stores x (fileBlock file k)
      ((taking s (dataDatagram file port s k)).loadAddr +
        ((taking s (dataDatagram file port s k)).tftp.block - 1) * 512) s.mem := by
    simpa only [taking, hn, hoff] using hx
  rw [handle_taken h, hsrc, tftpAccept_ok hx']
  simp only [taking, hn, hoff]
  refine ⟨⟨rfl, ⟨_, rfl, 512 * (k - 1), ?_, rfl⟩, rfl, ?_⟩, fun hst => ?_⟩
  · simp only [hlen]
    omega
  · have hnew : (UInt32.ofNat (512 * (k - 1)) + UInt32.ofNat (fileBlock file k).length).toNat =
        min (512 * k) file.length := by
      rw [UInt32.toNat_add, UInt32.toNat_ofNat', UInt32.toNat_ofNat', hlen]
      omega
    simp only [UInt32.lt_iff_toNat_lt, hnew]
    split
    · rw [hnew]; omega
    · omega
  · split at hst
    · next hshort => exact .inl ((short_iff h1 hk).mp hshort)
    · exact .inr hst

end

/-! ## The invariant -/

section
variable {file : List UInt8} {base : UInt32} {m : Mem32} {s s' : Globals} {b : Board} {x : Ext}

/-- The client: what it acknowledged, what it would acknowledge at a timeout, and what it
ended with is stored, and outside the image memory is as it was at the start. -/
structure ClientOk (file : List UInt8) (base : UInt32) (m : Mem32) (s : Globals) : Prop where
  loadAddr : s.loadAddr = base
  size_le : s.netBootFileXferSize.toNat ≤ file.length
  stores : ∀ st ∈ s.stores, st.Inside file base
  outside : ∀ a, file.length ≤ (a - base).toNat → s.mem a = m a
  acks : ∀ port k, Acked s port k → Got file base k s
  state : s.tftp.state = .rrq ∧ (∀ port k, ¬ Acked s port k) ∨
    s.tftp.state = .data ∧ s.tftp.block = s.tftp.lastBlock ∧
      ∃ k, k < 65536 ∧ s.tftp.block = UInt32.ofNat k ∧ Got file base k s
  success : s.netState = .success → Got file base (blockCount file) s

/-- Changes to other variables, and an end without success. -/
theorem ClientOk.frame (h : ClientOk file base m s) (hl : s'.loadAddr = s.loadAddr)
    (hz : s'.netBootFileXferSize = s.netBootFileXferSize) (hst : s'.stores = s.stores)
    (hm : s'.mem = s.mem) (hsent : s'.sent = s.sent)
    (ht : s'.tftp.state = s.tftp.state ∧ s'.tftp.block = s.tftp.block ∧
      s'.tftp.lastBlock = s.tftp.lastBlock)
    (hn : s'.netState = .success → s.netState = .success) : ClientOk file base m s' := by
  have hgot : ∀ {k}, Got file base k s → Got file base k s' := fun hg =>
    ⟨hm ▸ hg.mem, hz ▸ hg.size⟩
  have hack : ∀ {port k}, Acked s' port k → Acked s port k := by
    rintro port k ⟨ether, ip, sport, hmem⟩
    exact ⟨ether, ip, sport, hsent ▸ hmem⟩
  obtain ⟨ht₁, ht₂, ht₃⟩ := ht
  refine ⟨hl.trans h.loadAddr, hz ▸ h.size_le, hst ▸ h.stores, hm ▸ h.outside, fun port k ha =>
    hgot (h.acks port k (hack ha)), ?_, fun hs => hgot (h.success (hn hs))⟩
  rw [ht₁, ht₂, ht₃]
  rcases h.state with ⟨hr, hno⟩ | ⟨hd, hb, k, hk, hbk, hg⟩
  · exact .inl ⟨hr, fun port k ha => hno port k (hack ha)⟩
  · exact .inr ⟨hd, hb, k, hk, hbk, hgot hg⟩

theorem netStartAgain_frame (b : Board) (x : Ext) (s : Globals) :
    ∃ ph th st, (st = .success → s.netState = .success) ∧
      netStartAgain b x s = { s with packetHandler := ph, timeHandler := th, netState := st } := by
  simp only [netStartAgain]
  split
  · exact ⟨_, _, s.netState, id, rfl⟩
  · split
    · split
      · exact ⟨_, _, s.netState, id, rfl⟩
      · exact ⟨_, _, .fail, nofun, rfl⟩
    · exact ⟨_, _, .restart, nofun, rfl⟩

theorem ClientOk.startAgain (h : ClientOk file base m s) :
    ClientOk file base m (netStartAgain b x s) := by
  obtain ⟨ph, th, st, hst, he⟩ := netStartAgain_frame b x s
  rw [he]
  exact h.frame rfl rfl rfl rfl rfl ⟨rfl, rfl, rfl⟩ hst

theorem acked_tftpSend {port k : Nat} (h : Acked (tftpSend s) port k) :
    Acked s port k ∨ s.tftp.state = .data ∧ s.tftp.block.toNat % 65536 = k := by
  obtain ⟨ether, ip, sport, hmem⟩ := h
  simp only [tftpSend, netSendPacket, List.mem_cons] at hmem
  rcases hmem with heq | hmem
  · cases hst : s.tftp.state <;> rw [hst] at heq <;> cases heq
    exact .inr ⟨rfl, rfl⟩
  · exact .inl ⟨ether, ip, sport, hmem⟩

theorem ClientOk.send (h : ClientOk file base m s) : ClientOk file base m (tftpSend s) := by
  have hgot : ∀ {k}, Got file base k s → Got file base k (tftpSend s) := fun hg => ⟨hg.mem, hg.size⟩
  refine ⟨h.loadAddr, h.size_le, h.stores, h.outside, fun port k ha => hgot ?_, ?_,
    fun hn => hgot (h.success hn)⟩
  · rcases acked_tftpSend ha with ha | ⟨hd, rfl⟩
    · exact h.acks port k ha
    · rcases h.state with ⟨hr, -⟩ | ⟨-, -, k, hk, hbk, hg⟩
      · rw [hr] at hd; cases hd
      · rw [hbk, UInt32.toNat_ofNat', Nat.mod_mod_of_dvd _ (by decide), Nat.mod_eq_of_lt hk]
        exact hg
  · rcases h.state with ⟨hr, hno⟩ | ⟨hd, hb, k, hk, hbk, hg⟩
    · refine .inl ⟨hr, fun port k ha => ?_⟩
      rcases acked_tftpSend ha with ha | ⟨hd, -⟩
      · exact hno port k ha
      · rw [hr] at hd; cases hd
    · exact .inr ⟨hd, hb, k, hk, hbk, hgot hg⟩

theorem ClientOk.timeout (h : ClientOk file base m s) :
    ClientOk file base m (tftpTimeout b x { s with timeHandler := none }) := by
  simp only [tftpTimeout]
  split
  · refine ClientOk.startAgain (h.frame ?_ ?_ ?_ ?_ ?_ ⟨?_, ?_, ?_⟩ id) <;> rfl
  · refine ClientOk.send (h.frame ?_ ?_ ?_ ?_ ?_ ⟨?_, ?_, ?_⟩ id) <;> rfl

theorem ClientOk.other {d : Datagram} (h : ClientOk file base m s)
    (hop : be16 (ofList d.pkt) 0 ≠ 3) :
    ClientOk file base m (handle b s (d, x)) := by
  have hn : NotTaken b x s d (handle b s (d, x)) := handle_not_taken fun ht => hop ht.op
  generalize handle b s (d, x) = s' at hn
  cases hn with
  | dropped => exact h
  | error => exact h.startAgain
  | notFirst _ h3 => exact absurd h3 hop
  | again _ h3 => exact absurd h3 hop

theorem ClientOk.got_before {port k : Nat} (h : ClientOk file base m s)
    (hlock : k = 1 ∨ Acked s port (k - 1)) : Got file base (k - 1) s := by
  rcases hlock with rfl | ha
  · exact ⟨fun i _ hi => absurd hi (by omega), by omega⟩
  · exact h.acks port _ ha

theorem ClientOk.deliver {port k : Nat} (h : ClientOk file base m s)
    (hx : Taken s (dataDatagram file port s k) →
      b.Stores x (fileBlock file k) (s.loadAddr + UInt32.ofNat (512 * (k - 1))) s.mem)
    (hf : file.length < 512 * 65535) (h1 : 1 ≤ k) (hk : k ≤ blockCount file)
    (hlock : k = 1 ∨ Acked s port (k - 1)) :
    ClientOk file base m (handle b s (dataDatagram file port s k, x)) := by
  have hk' : k < 65536 := by unfold blockCount at hk; omega
  have hnum : (dataDatagram file port s k).number = k := by
    rw [number_dataPacket, Nat.mod_eq_of_lt hk']
  by_cases ht : Taken s (dataDatagram file port s k)
  · obtain ⟨hs, hsucc⟩ := ht.accepted (hx ht) hf h1 hk
    rw [h.loadAddr] at hs
    have hst : s.tftp.state = .rrq ∨ s.tftp.state = .data := h.state.imp And.left And.left
    obtain ⟨ether, ip, hsent⟩ := ht.sent (b := b) (x := x) hst
    have htftp := ht.tftp (b := b) (x := x)
    rw [hnum] at hsent htftp
    have hgot := hs.got (by omega) hk (h.got_before hlock)
    have hkeep : ∀ {j}, Got file base j s → Got file base j _ := fun hg => hs.keeps (by omega) hk hg
    refine ⟨hs.loadAddr.trans h.loadAddr, ?_, ?_,
      fun a ha => (hs.outside (by omega) hk ha).trans (h.outside a ha), fun port' k' ha => ?_,
      .inr ⟨?_, ?_, k, hk', ?_, hgot⟩, fun hn => ?_⟩
    · have := h.size_le
      rw [hs.size]
      omega
    · obtain ⟨st, hst, hin⟩ := hs.stores
      rw [hst]
      exact List.forall_mem_cons.mpr ⟨hin, h.stores⟩
    · obtain ⟨ether', ip', sport, hmem⟩ := ha
      rw [hsent, List.mem_cons] at hmem
      rcases hmem with heq | hmem
      · cases heq; exact hgot
      · exact hkeep (h.acks port' k' ⟨ether', ip', sport, hmem⟩)
    · rw [htftp]
      rcases hst with hst | hst <;> simp [taking, hst]
    · rw [htftp]
      simp only [taking, hnum]
    · rw [htftp]
      simp only [taking, hnum]
    · rcases hsucc hn with rfl | hn
      · exact hgot
      · exact hkeep (h.success hn)
  · have hn := handle_not_taken (b := b) (x := x) ht
    generalize handle b s (dataDatagram file port s k, x) = s' at hn
    cases hn with
    | dropped => exact h
    | error => exact h.startAgain
    | notFirst hr _ hne =>
      rw [hnum] at hne
      rcases h.state with ⟨-, hno⟩ | ⟨hd, -⟩
      · exact absurd (hlock.resolve_left hne) (hno port _)
      · rw [hr] at hd; cases hd
    | again hr _ heq =>
      rcases h.state with ⟨hr', -⟩ | ⟨-, hb, -⟩
      · exact absurd hr' hr
      · exact h.frame rfl rfl rfl rfl rfl ⟨rfl, heq.trans hb.symm, rfl⟩ id

end

/-! ## Every run -/

section
variable {b : Board} {file : List UInt8} {base : UInt32} {m : Mem32} {s s' : Session}
  {e : SessionEv}

/-- The client is right, and the server sends in lock-step. -/
structure SessionOk (file : List UInt8) (base : UInt32) (m : Mem32) (s : Session) : Prop where
  client : ClientOk file base m s.client
  lockStep : ∀ port k, (port, k) ∈ s.data →
    1 ≤ k ∧ k ≤ blockCount file ∧ (k = 1 ∨ Acked s.client port (k - 1))

theorem Acked.mono {s s' : Globals} {port k : Nat} (h : s.sent <:+ s'.sent) (ha : Acked s port k) :
    Acked s' port k := by
  obtain ⟨ether, ip, sport, hmem⟩ := ha
  exact ⟨ether, ip, sport, h.mem hmem⟩

theorem netStartAgain_sent (b : Board) (x : Ext) (s : Globals) :
    (netStartAgain b x s).sent = s.sent := by
  obtain ⟨ph, th, st, -, he⟩ := netStartAgain_frame b x s
  rw [he]

theorem sent_tftpTimeout (b : Board) (x : Ext) (s : Globals) :
    s.sent <:+ (tftpTimeout b x s).sent := by
  simp only [tftpTimeout]
  split
  · simp only [netStartAgain_sent, List.suffix_rfl]
  · exact List.suffix_cons _ _

theorem sent_handle (b : Board) (s : Globals) (d : Datagram × Ext) :
    s.sent <:+ (handle b s d).sent := by
  obtain ⟨d, x⟩ := d
  by_cases h : Taken s d
  · obtain ⟨m, size, st, he⟩ := tftpAccept_eq b x (d.pkt.drop 4) (taking s d)
    rw [handle_taken h, he]
    exact List.suffix_cons _ _
  · have hn := handle_not_taken (b := b) (x := x) h
    generalize handle b s (d, x) = s' at hn
    cases hn with
    | dropped => exact List.suffix_rfl
    | error => simp only [netStartAgain_sent, List.suffix_rfl]
    | notFirst => simp only [netStartAgain_sent, taking, List.suffix_rfl]
    | again => exact List.suffix_rfl

theorem sent_receive (b : Board) (s : Globals) (d : Datagram × Ext) :
    s.sent <:+ (receive b s d).sent := by
  unfold receive
  split
  · exact sent_handle b s d
  · exact List.suffix_rfl

theorem SessionOk.after {c : Globals} (h : SessionOk file base m s) (hc : ClientOk file base m c)
    (hsent : s.client.sent <:+ c.sent) : SessionOk file base m { s with client := c } := by
  refine ⟨hc, fun port k hmem => ?_⟩
  obtain ⟨h1, hk, hlock⟩ := h.lockStep port k hmem
  exact ⟨h1, hk, hlock.imp_right (Acked.mono hsent)⟩

theorem sessionOk_step (hf : file.length < 512 * 65535) (h : SessionOk file base m s)
    (hs : Only (FlashStores b file) (SessionStep b file) s e s') : SessionOk file base m s' := by
  obtain ⟨hx, hs⟩ := hs
  cases hs with
  | @send port k hlock =>
    refine ⟨h.client, fun port' k' hmem => ?_⟩
    rcases List.mem_cons.mp hmem with heq | hmem
    · cases heq
      rcases hlock with rfl | ⟨h1, hk, ha⟩
      · exact ⟨Nat.le_refl 1, Nat.succ_le_succ (Nat.zero_le _), .inl rfl⟩
      · exact ⟨by omega, hk, .inr ha⟩
    · exact h.lockStep port' k' hmem
  | @deliver port k x hmem =>
    refine h.after ?_ (sent_receive ..)
    obtain ⟨h1, hk, hlock⟩ := h.lockStep port k hmem
    unfold receive
    split
    · next hph => exact h.client.deliver (hx hph) hf h1 hk hlock
    · exact h.client
  | other hop =>
    refine h.after ?_ (sent_receive ..)
    unfold receive
    split
    · exact h.client.other hop
    · exact h.client
  | timeout =>
    exact h.after h.client.timeout (sent_tftpTimeout b _ { s.client with timeHandler := none })
  | startAgain =>
    refine h.after (h.client.frame ?_ ?_ ?_ ?_ ?_ ⟨?_, ?_, ?_⟩ nofun) List.suffix_rfl <;> rfl

theorem sessionOk_start (file : List UInt8) (x : Ext) (g : Globals) :
    SessionOk file g.loadAddr g.mem ⟨sessionStart x g, []⟩ where
  client := by
    have hno : ∀ port k, ¬ Acked (sessionStart x g) port k := by
      rintro port k ⟨ether, ip, sport, hmem⟩
      simp [sessionStart, tftpStart, tftpSend, netSendPacket, netSetHandler, netSetTimeout] at hmem
    refine ⟨rfl, Nat.zero_le _, fun st hst => absurd hst List.not_mem_nil, fun _ _ => rfl,
      fun port k ha => ?_, .inl ⟨rfl, hno⟩, fun hn => ?_⟩
    · exact absurd ha (hno port k)
    · cases hn
  lockStep _ _ hmem := absurd hmem List.not_mem_nil

end

/-- **A TFTP download.** For every file of at most 65534 full blocks and a short one, and
every run of the client, its servers and the network in which every `flash_write` stores its
block: every store lies inside the image, memory outside it is as it was, and when the client ends
with success, memory holds the file and `NetBootFileXferSize` is its length. -/
theorem tftp_download_correct (b : Board) (file : List UInt8) (x : Ext) (g : Globals)
    (es : List SessionEv) (s : Session) (hf : file.length / 512 ≤ 65534)
    (h : Run (Only (FlashStores b file) (SessionStep b file)) ⟨sessionStart x g, []⟩ es s) :
    (∀ st ∈ s.client.stores, st.Inside file g.loadAddr) ∧
      (∀ a, file.length ≤ (a - g.loadAddr).toNat → s.client.mem a = g.mem a) ∧
      (s.client.netState = .success →
        s.client.mem.HoldsUpTo g.loadAddr file file.length ∧
          s.client.netBootFileXferSize.toNat = file.length) := by
  have hok : SessionOk file g.loadAddr g.mem s :=
    h.invariant (fun _ _ _ => sessionOk_step (by omega)) (sessionOk_start file x g)
  refine ⟨hok.client.stores, hok.client.outside, fun hst => ?_⟩
  have hgot := hok.client.success hst
  have hsize := hok.client.size_le
  have hall : file.length ≤ 512 * blockCount file := by unfold blockCount; omega
  exact ⟨hgot.mem.mono hall, by have := hgot.size; omega⟩

def loadBank : Flash.FlashInfo := ⟨0x1000, 1, 1, fun _ => 0x100000, fun _ => 0⟩

def Board.flashTarget : Board := { Board.plain with directFlash := some [loadBank] }

/-- A file of one byte goes to flash: its block is sent, and delivered. -/
theorem tftp_download_correct_one :
    ∃ s : Session, Run (Only (FlashStores .flashTarget [7]) (SessionStep .flashTarget [7]))
        ⟨sessionStart .plain .plain, []⟩ [.send 5 1, .deliver 5 1 .plain] s ∧
      s.client.netState = .success ∧
      (∀ st ∈ s.client.stores, st.Inside [7] 0x100000) ∧
      (∀ a, 1 ≤ (a - 0x100000).toNat → s.client.mem a = Globals.plain.mem a) ∧
      s.client.mem.HoldsUpTo 0x100000 [7] 1 ∧ s.client.netBootFileXferSize.toNat = 1 := by
  have hsend : SessionStep .flashTarget [7] ⟨sessionStart .plain .plain, []⟩ (.send 5 1)
      ⟨sessionStart .plain .plain, [(5, 1)]⟩ := .send (.inl rfl)
  have hdeliver : SessionStep .flashTarget [7] ⟨sessionStart .plain .plain, [(5, 1)]⟩
      (.deliver 5 1 .plain) _ := .deliver (List.mem_singleton.mpr rfl)
  have hrun : Run (Only (FlashStores .flashTarget [7]) (SessionStep .flashTarget [7]))
      ⟨sessionStart .plain .plain, []⟩ [.send 5 1, .deliver 5 1 .plain] _ :=
    .cons ⟨trivial, hsend⟩ (.single ⟨fun _ _ _ => rfl, hdeliver⟩)
  obtain ⟨hin, hout, hdone⟩ :=
    tftp_download_correct .flashTarget [7] .plain .plain _ _ (by decide) hrun
  have hst := hdone (by decide)
  exact ⟨_, hrun, by decide, hin, hout, hst.1, hst.2⟩

/-- `write_buff` fails for the one block of a file: the client ends with success and
nothing stored. -/
theorem tftp_success_after_flash_failure :
    ∃ (s : Session) (es : List SessionEv),
      Run (SessionStep .flashTarget [7]) ⟨sessionStart .plain .plain, []⟩ es s ∧
      s.client.netState = .success ∧ s.client.mem 0x100000 ≠ 7 ∧
      s.client.netBootFileXferSize = 0 := by
  have hsend : SessionStep .flashTarget [7] ⟨sessionStart .plain .plain, []⟩ (.send 5 1)
      ⟨sessionStart .plain .plain, [(5, 1)]⟩ := .send (.inl rfl)
  have hdeliver : SessionStep .flashTarget [7] ⟨sessionStart .plain .plain, [(5, 1)]⟩
      (.deliver 5 1 { Ext.plain with writeBuff := fun _ _ _ m => (1, m) }) _ :=
    .deliver (List.mem_singleton.mpr rfl)
  refine ⟨_, _, .cons hsend (.single hdeliver), ?_, ?_, ?_⟩ <;> decide

end UBoot.Net
