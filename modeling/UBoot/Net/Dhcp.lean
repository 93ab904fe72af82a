import UBoot.Net.ArpStart

/-!
# The DHCP handshake (`net/bootp.c`)

`dhcpHandler_cases` says what `DhcpHandler` can do, and `netStep_shakes` what one event does to
the handshake: nothing, a new DHCPDISCOVER, a DHCPREQUEST, or the state `BOUND`. `Handshake` is
the history of the latest one.

While SELECTING, any packet with our id is taken for an offer if its file name has the right
prefix, and while REQUESTING any DHCPACK with our id is taken for the answer. So
`dhcp_bound_history` has for all runs that id and the request's contents, and
`dhcp_binds_another` a run in which the three packets do not fit together.
-/

namespace UBoot.Net

open UBoot.Lib

/-! ## Everything but BOOTP -/

/-- A DHCPDISCOVER (or BOOTP request), or a DHCPREQUEST. -/
def Out.IsDhcp : Out → Prop
  | .bootpRequest _ _ | .dhcpRequest _ _ _ _ _ _ => True
  | _ => False

structure KeepsDhcp (s s' : Globals) : Prop where
  bootpID : s'.bootp.bootpID = s.bootp.bootpID
  dhcpState : s'.bootp.dhcpState = s.bootp.dhcpState
  sent : ∃ l, s'.sent = l ++ s.sent ∧ ∀ o ∈ l, ¬ o.IsDhcp

section
variable {b : Board} {x : Ext} {f : Frame} {s s' s'' : Globals}

theorem KeepsDhcp.refl (s : Globals) : KeepsDhcp s s :=
  ⟨rfl, rfl, [], rfl, fun _ h => by cases h⟩

theorem KeepsDhcp.trans (h : KeepsDhcp s s') (h' : KeepsDhcp s' s'') : KeepsDhcp s s'' := by
  obtain ⟨l, hl, hl'⟩ := h.sent
  obtain ⟨m, hm, hm'⟩ := h'.sent
  refine ⟨h'.bootpID.trans h.bootpID, h'.dhcpState.trans h.dhcpState, m ++ l, ?_, ?_⟩
  · rw [hm, hl, List.append_assoc]
  · intro o ho
    rcases List.mem_append.mp ho with ho | ho
    · exact hm' o ho
    · exact hl' o ho

theorem KeepsDhcp.of_eq (hb : s'.bootp = s.bootp) (hs : s'.sent = s.sent) : KeepsDhcp s s' :=
  ⟨by rw [hb], by rw [hb], [], hs, fun _ h => by cases h⟩

/-- What comes before does not matter where it touches neither. -/
theorem KeepsDhcp.after {s₁ : Globals} (h : KeepsDhcp s₁ s') (hb : s₁.bootp = s.bootp)
    (hs : s₁.sent = s.sent) : KeepsDhcp s s' :=
  (KeepsDhcp.of_eq hb hs).trans h

theorem KeepsDhcp.of_send {o : Out} (hb : s'.bootp = s.bootp) (hs : s'.sent = o :: s.sent)
    (ho : ¬ o.IsDhcp) : KeepsDhcp s s' :=
  ⟨by rw [hb], by rw [hb], [o], hs, fun p hp => by rwa [List.mem_singleton.mp hp]⟩

theorem keepsDhcp_arpRequest (s : Globals) : KeepsDhcp s (arpRequest s) := .of_send rfl rfl id

theorem keepsDhcp_rarpRequest (s : Globals) : KeepsDhcp s (rarpRequest s) := .of_send rfl rfl id

theorem keepsDhcp_tftpSend (s : Globals) : KeepsDhcp s (tftpSend s) := .of_send rfl rfl id

theorem keepsDhcp_tftpStart (x : Ext) (s : Globals) : KeepsDhcp s (tftpStart x s) :=
  .of_send rfl rfl id

theorem keepsDhcp_arpHandler (x : Ext) (s : Globals) : KeepsDhcp s (arpHandler x s) := by
  unfold arpHandler
  split
  · exact keepsDhcp_tftpStart x s
  · exact .refl s

theorem keepsDhcp_netStartAgain (b : Board) (x : Ext) (s : Globals) :
    KeepsDhcp s (netStartAgain b x s) := by
  unfold netStartAgain
  split_ifs <;> exact .of_eq rfl rfl

theorem keepsDhcp_storeBlock (block : UInt32) (src : List UInt8) :
    KeepsDhcp s (storeBlock b x block src s) := by
  simp only [storeBlock]
  split_ifs <;> exact .of_eq rfl rfl

theorem keepsDhcp_tftpAccept (src : List UInt8) : KeepsDhcp s (tftpAccept b x src s) := by
  have hstore : KeepsDhcp s (storeBlock b x (s.tftp.block - 1) src
      (netSetTimeout .tftp { s with tftp := { s.tftp with lastBlock := s.tftp.block } })) :=
    (keepsDhcp_storeBlock _ _).after rfl rfl
  have hsend := hstore.trans (keepsDhcp_tftpSend _)
  unfold tftpAccept
  split_ifs
  · exact hsend.trans (.of_eq rfl rfl)
  · exact hsend

theorem keepsDhcp_tftpData (block src : Nat) (data : List UInt8) :
    KeepsDhcp s (tftpData b x block src data s) := by
  simp only [tftpData]
  split_ifs
  · exact (keepsDhcp_netStartAgain b x _).after rfl rfl
  · exact (keepsDhcp_tftpAccept data).after rfl rfl
  · exact .of_eq rfl rfl
  · exact (keepsDhcp_tftpAccept data).after rfl rfl

theorem keepsDhcp_tftpHandler (pkt : Bytes) (dest src len : Nat) :
    KeepsDhcp s (tftpHandler b x pkt dest src len s) := by
  unfold tftpHandler
  split
  · exact .refl s
  · split
    · exact .refl s
    · split
      · exact .refl s
      · split
        · split
          · exact .refl s
          · exact keepsDhcp_tftpData _ _ _
        · exact keepsDhcp_netStartAgain b x s
        · exact .refl s

theorem KeepsDhcp.ite {c : Prop} [Decidable c] {r r' : Globals × Option RxCall}
    (h : KeepsDhcp s r.1) (h' : KeepsDhcp s r'.1) : KeepsDhcp s (if c then r else r').1 := by
  split
  · exact h
  · exact h'

theorem keepsDhcp_receiveArp (ip : Nat) (len : Int) : KeepsDhcp s (receiveArp f ip len s).1 := by
  unfold receiveArp
  iterate 7 refine .ite (.refl s) ?_
  refine .ite (.of_send rfl rfl id) ?_
  exact .ite (.of_eq rfl rfl) (.refl s)

theorem keepsDhcp_netReceive (b : Board) (f : Frame) (s : Globals) :
    KeepsDhcp s (netReceive b f s).1 := by
  rw [netReceive_eq]
  refine .ite (keepsDhcp_receiveArp _ _) (.ite ?_ (.ite ?_ (.refl s)))
  · unfold receiveRarp
    exact .ite (.refl s) (.ite (.refl s) (.of_eq rfl rfl))
  · rw [receiveIp_fst]
    exact .refl s

theorem keepsDhcp_bootpHandler (pkt : Bytes) (dest src : Nat) (len : UInt32) :
    KeepsDhcp s (bootpHandler x f pkt dest src len s) := by
  have hend : ∀ s₁ : Globals, s₁.bootp = s.bootp → s₁.sent = s.sent →
      KeepsDhcp s
        (if x.autoloadNo then { s₁ with netState := .success } else arpRequest s₁) := by
    intro s₁ hb hs
    split_ifs
    · exact .of_eq hb hs
    · exact KeepsDhcp.trans (.of_eq hb hs) (keepsDhcp_arpRequest s₁)
  unfold bootpHandler
  split
  · exact .refl s
  · refine hend _ ?_ ?_ <;> split <;> rfl

/-! ## `DhcpHandler` -/

/-- `DhcpOptionsProcess` reads into other variables than our address and the handshake's. -/
theorem dhcpOptionsProcess_eq (b : Board) (pkt : Bytes) (popt : Nat) (s : Globals) :
    ∃ p t, dhcpOptionsProcess b pkt popt s =
      { s with params := p, bootp := { s.bootp with dhcpLeasetime := t } } := by
  unfold dhcpOptionsProcess
  generalize b.bootpHdrSize = rounds
  generalize popt + rounds = stop
  induction rounds generalizing popt s with
  | zero => exact ⟨s.params, s.bootp.dhcpLeasetime, rfl⟩
  | succ rounds ih =>
    rw [dhcpOptionsLoop]
    split
    · obtain ⟨p, t, hrest⟩ := ih (popt + (pkt (popt + 1)).toNat + 2) (dhcpOption b pkt popt s)
      obtain ⟨p', t', hone⟩ : ∃ p t, dhcpOption b pkt popt s =
          { s with params := p, bootp := { s.bootp with dhcpLeasetime := t } } := by
        unfold dhcpOption
        split <;> exact ⟨_, _, rfl⟩
      rw [hrest, hone]
      exact ⟨p, t, rfl⟩
    · exact ⟨s.params, s.bootp.dhcpLeasetime, rfl⟩

def requestFor (offer : Bytes) : Out :=
  .dhcpRequest (be32 offer 4) (be32 offer 12) (be32 offer 16) (be32 offer 20) (be32 offer 24)
    (dhcpExtended dhcpRequestType (be32 offer 20) (be32 offer 16))

def Out.options : Out → List (UInt8 × List UInt8)
  | .dhcpRequest _ _ _ _ _ options => options
  | _ => []

/-- The options of a request name a server and an address, where these are not 0. -/
structure Out.Names (o : Out) (server requested : UInt32) : Prop where
  server : ∀ v, (54, v) ∈ o.options ↔ server ≠ 0 ∧ v = beBytes server
  requested : ∀ v, (50, v) ∈ o.options ↔ requested ≠ 0 ∧ v = beBytes requested

theorem requestFor_names (offer : Bytes) :
    (requestFor offer).Names (be32 offer 20) (be32 offer 16) := by
  constructor <;> intro v <;>
    simp only [requestFor, Out.options, dhcpExtended, List.mem_append, List.mem_cons,
      List.not_mem_nil, or_false, Prod.mk.injEq]
  · split_ifs with h1 h2 h2 <;> simp_all
  · split_ifs with h1 h2 h2 <;> simp_all

/-- A DHCPACK is taken: everything up to `dhcp_state`. -/
def dhcpBind (b : Board) (f : Frame) (pkt : Bytes) (s : Globals) : Globals :=
  let s := bootpCopyNetParams f pkt (dhcpOptionsProcess b pkt (bpVend + 4) s)
  { s with bootp := { s.bootp with dhcpState := .bound } }

/-- What `DhcpHandler` does with a packet that is not filtered out. -/
inductive DhcpTakes (b : Board) (x : Ext) (f : Frame) (pkt : Bytes) (s : Globals) : Globals → Prop
  /-- an offer, while SELECTING -/
  | offer (hstate : s.bootp.dhcpState = .selecting) (hfile : b.acceptsFile pkt = true) :
    DhcpTakes b x f pkt s (netSendPacket (requestFor pkt) (netSetTimeout .bootp
      (bootpCopyNetParams f pkt { s with bootp := { s.bootp with dhcpState := .requesting } })))
  /-- a DHCPACK, while REQUESTING -/
  | ack (hstate : s.bootp.dhcpState = .requesting)
      (htype : dhcpMessageType pkt x.scan bpVend = some 5) :
    DhcpTakes b x f pkt s (if x.autoloadNo then { dhcpBind b f pkt s with netState := .success }
      else arpRequest (dhcpBind b f pkt s))

/-- A message type is found behind the magic number only. -/
theorem magic_of_type {pkt : Bytes} {scan popt : Nat} {type : Int} (hne : type ≠ -1)
    (h : dhcpMessageType pkt scan popt = some type) : be32 pkt popt = bootpVendorMagic := by
  unfold dhcpMessageType at h
  split_ifs at h with hm
  · exact absurd (Option.some.inj h).symm hne
  · exact not_not.mp hm

theorem dhcpHandler_cases {pkt : Bytes} {dest src : Nat} {len : UInt32}
    (h : dhcpHandler b x f pkt dest src len s = some s') :
    s' = s ∨ bootpCheckPkt pkt dest src len s = 0 ∧ DhcpTakes b x f pkt s s' := by
  unfold dhcpHandler at h
  split at h
  · exact Or.inl (Option.some.inj h).symm
  · next hcheck =>
    have hcheck := not_not.mp hcheck
    split at h
    · next hstate =>
      split_ifs at h with hfile
      · exact Or.inr ⟨hcheck, Option.some.inj h ▸ .offer hstate hfile⟩
      · exact Or.inl (Option.some.inj h).symm
    · next hstate =>
      cases htype : dhcpMessageType pkt x.scan bpVend with
      | none => rw [htype] at h; cases h
      | some type =>
        rw [htype, Option.bind_eq_bind, Option.bind_some] at h
        split at h
        · next hack =>
          subst hack
          have hmagic := magic_of_type (by decide) htype
          rw [if_pos hmagic] at h
          -- keeps the kernel from evaluating the copied file name
          change (fun s₁ : Globals =>
            let s := { s₁ with bootp := { s₁.bootp with dhcpState := .bound } }
            if x.autoloadNo then some { s with netState := .success } else some (arpRequest s))
              (bootpCopyNetParams f pkt (dhcpOptionsProcess b pkt (bpVend + 4) s)) = some s' at h
          have heq : s' = if x.autoloadNo then { dhcpBind b f pkt s with netState := .success }
              else arpRequest (dhcpBind b f pkt s) := by
            unfold dhcpBind
            generalize bootpCopyNetParams f pkt (dhcpOptionsProcess b pkt (bpVend + 4) s) = s₁
              at h ⊢
            dsimp only at h ⊢
            rw [← apply_ite some] at h
            exact (Option.some.inj h).symm
          rw [heq]
          exact Or.inr ⟨hcheck, .ack hstate htype⟩
        · exact Or.inl (Option.some.inj h).symm
    · exact Or.inl (Option.some.inj h).symm

/-! ## One event -/

/-- The packet that a frame brings to the packet handler. -/
def Frame.payload (f : Frame) : Bytes := fun i => f.bytes (f.hdr + ipHdrSize + i)

/-- The frame passes `BootpCheckPkt`. -/
def Passes (f : Frame) (s : Globals) : Prop :=
  ∃ dest src len, bootpCheckPkt f.payload dest src len s = 0

inductive Shakes (b : Board) (e : NetEv) (s s' : Globals) : Prop
  | keeps (h : KeepsDhcp s s')
  | discover (file : List UInt8) (hsent : s'.sent = .bootpRequest s'.bootp.bootpID file :: s.sent)
      (hstate : s'.bootp.dhcpState = if b.cmdDhcp then .selecting else s.bootp.dhcpState)
  | offer (f : Frame) (x : Ext) (he : e = .frame f x) (hpass : Passes f s)
      (hfile : b.acceptsFile f.payload = true) (hstate : s.bootp.dhcpState = .selecting)
      (hid : s'.bootp.bootpID = s.bootp.bootpID) (hstate' : s'.bootp.dhcpState = .requesting)
      (hsent : s'.sent = requestFor f.payload :: s.sent)
  | ack (f : Frame) (x : Ext) (he : e = .frame f x) (hpass : Passes f s)
      (htype : dhcpMessageType f.payload x.scan bpVend = some 5)
      (hstate : s.bootp.dhcpState = .requesting) (hid : s'.bootp.bootpID = s.bootp.bootpID)
      (hstate' : s'.bootp.dhcpState = .bound) (hip : s'.params.netOurIP = be32 f.payload 16)
      (hsent : ∃ l, s'.sent = l ++ s.sent ∧ ∀ o ∈ l, ¬ o.IsDhcp)

theorem DhcpTakes.shakes {pkt : Bytes} (h : DhcpTakes b x f pkt s s') (hpkt : pkt = f.payload)
    (hpass : Passes f s) : Shakes b (.frame f x) s s' := by
  subst hpkt
  cases h with
  | offer hstate hfile => exact .offer f x rfl hpass hfile hstate rfl rfl rfl
  | ack hstate htype =>
    obtain ⟨p, t, hopts⟩ := dhcpOptionsProcess_eq b f.payload (bpVend + 4) s
    have hbind : (dhcpBind b f f.payload s).bootp.bootpID = s.bootp.bootpID ∧
        (dhcpBind b f f.payload s).sent = s.sent := by
      simp only [dhcpBind, hopts]
      exact ⟨rfl, rfl⟩
    split_ifs
    · exact .ack f x rfl hpass htype hstate hbind.1 rfl rfl ⟨[], hbind.2, fun _ h => by cases h⟩
    · refine .ack f x rfl hpass htype hstate hbind.1 rfl rfl
        ⟨[.arpRequest _], congrArg (_ :: ·) hbind.2, fun o ho => ?_⟩
      rw [List.mem_singleton.mp ho]
      exact id

theorem bootpCheckPkt_wake (pkt : Bytes) (src : Nat) (len : UInt32) :
    bootpCheckPkt pkt 0 src len s ≠ 0 := by
  unfold bootpCheckPkt
  rw [if_pos (Or.inl (by decide))]
  decide

theorem receiveFrame_shakes (h : receiveFrame b x f s = some s') :
    Shakes b (.frame f x) s s' := by
  have hkeep := keepsDhcp_netReceive b f s
  have hreceives := netReceive_receives b f s
  have hpacket := fun off dest src n => @netReceive_packet_iff b f s off dest src n
  unfold receiveFrame at h
  generalize netReceive b f s = r at hkeep hreceives hpacket h
  obtain ⟨s₁, call⟩ := r
  cases call with
  | none =>
    obtain rfl := Option.some.inj h
    exact .keeps hkeep
  | some c =>
    obtain ⟨t, -, h⟩ := Option.bind_eq_some_iff.mp h
    have hquiet : ∀ s₂, KeepsDhcp s₁ s₂ → some s₂ = some s' → Shakes b (.frame f x) s s' :=
      fun s₂ h₂ heq => .keeps (Option.some.inj heq ▸ hkeep.trans h₂)
    cases t with
    | arp => exact hquiet _ (keepsDhcp_arpHandler x s₁) h
    | rarp => exact hquiet _ (keepsDhcp_tftpStart x s₁) h
    | bootp => exact hquiet _ (keepsDhcp_bootpHandler _ _ _ _) h
    | tftp => exact hquiet _ (keepsDhcp_tftpHandler _ _ _ _) h
    | startAgain => exact hquiet _ (.refl s₁) h
    | dhcp =>
      cases c with
      | wake =>
        rcases dhcpHandler_cases h with rfl | ⟨hcheck, -⟩
        · exact .keeps hkeep
        · exact absurd hcheck (bootpCheckPkt_wake _ _ _)
      | packet off dest src n =>
        -- only the case `PROT_IP` passes a packet on, and it changes nothing
        obtain ⟨-, hcall⟩ := (hpacket off dest src n).mp rfl
        obtain ⟨rfl, -⟩ := RxCall.packet.inj hcall
        rcases dhcpHandler_cases h with rfl | ⟨hcheck, htakes⟩
        · exact .keeps hkeep
        · cases hreceives with
          | ip _ => exact htakes.shakes rfl ⟨_, _, _, hcheck⟩

theorem callTimeout_shakes (h : callTimeout b x s = some s') : Shakes b (.timeout x) s s' := by
  obtain ⟨t, -, rfl⟩ := Option.map_eq_some_iff.mp h
  cases t with
  | arp =>
    simp only [arpTimeout]
    split_ifs
    · exact .keeps ((keepsDhcp_netStartAgain b x _).after rfl rfl)
    · exact .keeps ((keepsDhcp_arpRequest _).after rfl rfl)
  | rarp =>
    simp only [rarpTimeout]
    split_ifs
    · exact .keeps ((keepsDhcp_netStartAgain b x _).after rfl rfl)
    · exact .keeps ((keepsDhcp_rarpRequest _).after rfl rfl)
  | bootp =>
    simp only [bootpTimeout]
    split_ifs
    · exact .keeps ((keepsDhcp_netStartAgain b x _).after rfl rfl)
    · exact .discover _ rfl rfl
  | tftp =>
    simp only [tftpTimeout]
    split_ifs
    · exact .keeps ((keepsDhcp_netStartAgain b x _).after rfl rfl)
    · exact .keeps ((keepsDhcp_tftpSend _).after rfl rfl)
  | startAgain => exact .keeps (.of_eq rfl rfl)

theorem netCheckPrereq_cases (b : Board) (protocol : Proto) (cfg : NetConfig) (x : Ext)
    (s : Globals) :
    netCheckPrereq b protocol cfg x s = (s, 0) ∨ netCheckPrereq b protocol cfg x s = (s, 1) ∨
      b.netMulti = true ∧ netCheckPrereq b protocol cfg x s = (netStartAgain b x s, 2) := by
  have hether : checkEther b cfg x s = (s, 0) ∨ checkEther b cfg x s = (s, 1) ∨
      b.netMulti = true ∧ checkEther b cfg x s = (netStartAgain b x s, 2) := by
    unfold checkEther
    split_ifs with _ hmulti <;> simp [*]
  cases protocol with
  | arp => exact Or.inl rfl
  | tftp =>
    simp only [netCheckPrereq]
    split_ifs
    · exact Or.inr (Or.inl rfl)
    · exact Or.inr (Or.inl rfl)
    · exact hether
  | _ => exact hether

theorem netRequest_shakes (protocol : Proto) (e : NetEv) :
    Shakes b e s (netRequest b protocol x s) := by
  cases protocol with
  | arp => exact .keeps (.refl s)
  | tftp => exact .keeps ((keepsDhcp_arpRequest _).after rfl rfl)
  | rarp => exact .keeps ((keepsDhcp_rarpRequest _).after rfl rfl)
  | bootp => exact .discover _ rfl rfl
  | dhcp =>
    simp only [netRequest]
    split_ifs
    · exact .discover _ rfl rfl
    · exact .keeps (.refl s)

/-- What only goes on with another record than the handshake's. -/
theorem Shakes.of_eq {s₁ s₁' : Globals} {e : NetEv} (h : Shakes b e s₁ s₁')
    (hb : s₁.bootp = s.bootp) (hs : s₁.sent = s.sent) (hb' : s'.bootp = s₁'.bootp)
    (hp' : s'.params = s₁'.params) (hs' : s'.sent = s₁'.sent) : Shakes b e s s' := by
  have hpass : ∀ {f}, Passes f s₁ → Passes f s := fun ⟨dest, src, len, h⟩ =>
    ⟨dest, src, len, by unfold bootpCheckPkt at h ⊢; rwa [← hb]⟩
  cases h with
  | keeps h => exact .keeps ((h.after hb hs).trans (.of_eq hb' hs'))
  | discover file hsent hstate =>
    exact .discover file (by rw [hs', hsent, hb', hs]) (by rw [hb', hstate, hb])
  | offer f x he hp hfile hstate hid hstate' hsent =>
    exact .offer f x he (hpass hp) hfile (hb ▸ hstate) (by rw [hb', hid, hb]) (hb' ▸ hstate')
      (by rw [hs', hsent, hs])
  | ack f x he hp htype hstate hid hstate' hip hsent =>
    exact .ack f x he (hpass hp) htype (hb ▸ hstate) (by rw [hb', hid, hb]) (hb' ▸ hstate')
      (by rw [hp', hip]) (by rw [hs', ← hs]; exact hsent)

theorem restart_shakes (protocol : Proto) (cfg : NetConfig) (e : NetEv) :
    Shakes b e s (Machine.restart b protocol cfg x s).globals := by
  have hinit : (netInit protocol cfg s).bootp = s.bootp ∧ (netInit protocol cfg s).sent = s.sent :=
    ⟨rfl, rfl⟩
  unfold Machine.restart netRestart
  obtain h | h | ⟨-, h⟩ := netCheckPrereq_cases b protocol cfg x (netInit protocol cfg s) <;>
    simp only [h]
  · split_ifs
    · exact (netRequest_shakes (s := { netInit protocol cfg s with netDevExists := true })
        protocol e).of_eq hinit.1 hinit.2 rfl rfl rfl
    · exact (netRequest_shakes (s := netInit protocol cfg s) protocol e).of_eq hinit.1 hinit.2 rfl
        rfl rfl
  · exact .keeps (.of_eq rfl rfl)
  · exact .keeps ((keepsDhcp_netStartAgain b x _).after hinit.1 hinit.2)

/-- What was sent before the event, in the call that it belongs to. -/
def NetEv.sentBefore (e : NetEv) (s : Machine) : List Out :=
  match e with
  | .netLoop _ _ _ => []
  | _ => s.globals.sent

/-- What one step of the machine does to the handshake. -/
theorem netStep_shakes {m m' : Machine} {e : NetEv} (h : NetStep b m e m') :
    Shakes b e { m.globals with sent := e.sentBefore m } m'.globals := by
  obtain ⟨s, loop⟩ := m
  unfold NetStep netStep at h
  cases loop with
  | none =>
    cases e with
    | command bootFile loadAddr mem =>
      obtain rfl := Option.some.inj h
      exact .keeps (.of_eq rfl rfl)
    | netLoop protocol cfg x =>
      obtain rfl := Option.some.inj h
      refine (restart_shakes protocol cfg _).of_eq ?_ ?_ rfl rfl rfl <;> split_ifs <;> rfl
    | _ => cases h
  | some protocol =>
    cases e with
    | frame f x =>
      obtain ⟨s', hs', rfl⟩ := Option.map_eq_some_iff.mp h
      exact receiveFrame_shakes hs'
    | timeout x =>
      obtain ⟨s', hs', rfl⟩ := Option.map_eq_some_iff.mp h
      exact callTimeout_shakes hs'
    | check cfg x =>
      cases hstate : s.netState with
      | restart =>
        simp only [hstate] at h
        obtain rfl := Option.some.inj h
        exact restart_shakes protocol cfg _
      | _ =>
        simp only [hstate] at h
        obtain rfl := Option.some.inj h
        exact .keeps (.refl s)
    | abort =>
      obtain rfl := Option.some.inj h
      exact .keeps (.refl s)
    | _ => cases h

/-! ## The history of a handshake -/

structure Handshake where
  /-- the id of the latest DHCPDISCOVER -/
  discover : Option UInt32
  /-- the latest DHCPREQUEST after it, with the packet that it answers -/
  request : Option (Bytes × Out)

/-- A packet is sent on an event that brought `pkt`. -/
def Handshake.see (pkt : Bytes) (o : Out) (h : Handshake) : Handshake :=
  match o with
  | .bootpRequest id _ => ⟨some id, none⟩
  | .dhcpRequest _ _ _ _ _ _ => { h with request := some (pkt, o) }
  | _ => h

def NetEv.payload : NetEv → Bytes
  | .frame f _ => f.payload
  | _ => fun _ => 0

/-- One event: all that is sent on it, the newest first. -/
def Handshake.next (m : Machine) (e : NetEv) (m' : Machine) (h : Handshake) : Handshake :=
  (m'.globals.sent.take (m'.globals.sent.length - (e.sentBefore m).length)).foldr
    (Handshake.see e.payload) h

/-- One event of the machine, with the history. -/
def shakeStep (b : Board) (s : Machine × Handshake) (e : NetEv) : Option (Machine × Handshake) :=
  (netStep b s.1 e).map fun m => (m, s.2.next s.1 e m)

def ShakeStep (b : Board) (s : Machine × Handshake) (e : NetEv) (s' : Machine × Handshake) : Prop :=
  shakeStep b s e = some s'

def DhcpState.Started (d : DhcpState) : Prop := d = .selecting ∨ d = .requesting ∨ d = .bound

def DhcpState.Requested (d : DhcpState) : Prop := d = .requesting ∨ d = .bound

structure Handshake.Inv (b : Board) (v : BootpVars) (h : Handshake) : Prop where
  noDhcp : b.cmdDhcp = false → ¬ v.dhcpState.Started
  started : v.dhcpState.Started → h.discover = some v.bootpID
  requested : v.dhcpState.Requested → ∃ offer, h.request = some (offer, requestFor offer) ∧
    be32 offer 4 = v.bootpID ∧ b.acceptsFile offer = true

theorem Passes.id {f : Frame} (h : Passes f s) : be32 f.payload 4 = s.bootp.bootpID := by
  obtain ⟨dest, src, len, h⟩ := h
  unfold bootpCheckPkt at h
  split_ifs at h with _ _ _ _ _ hid
  exact not_not.mp hid

theorem foldr_see {pkt : Bytes} {l : List Out} (hl : ∀ o ∈ l, ¬ o.IsDhcp) (h : Handshake) :
    l.foldr (Handshake.see pkt) h = h := by
  induction l with
  | nil => rfl
  | cons o l ih =>
    rw [List.foldr_cons, ih fun o ho => hl o (List.mem_cons_of_mem _ ho)]
    cases o with
    | bootpRequest => exact absurd trivial (hl _ List.mem_cons_self)
    | dhcpRequest => exact absurd trivial (hl _ List.mem_cons_self)
    | _ => rfl

theorem Handshake.next_eq {m m' : Machine} {e : NetEv} {l : List Out} {h : Handshake}
    (hsent : m'.globals.sent = l ++ e.sentBefore m) :
    h.next m e m' = l.foldr (Handshake.see e.payload) h := by
  unfold Handshake.next
  rw [hsent, List.length_append, Nat.add_sub_cancel, List.take_left]

/-- **The step.** -/
theorem Handshake.Inv.step {m m' : Machine} {h h' : Handshake} {e : NetEv}
    (hinv : h.Inv b m.globals.bootp) (hstep : ShakeStep b (m, h) e (m', h')) :
    h'.Inv b m'.globals.bootp := by
  obtain ⟨m₁, hm, heq⟩ := Option.map_eq_some_iff.mp hstep
  obtain ⟨rfl, rfl⟩ := Prod.mk.inj heq
  cases netStep_shakes hm with
  | keeps hk =>
    obtain ⟨l, hl, hquiet⟩ := hk.sent
    rw [Handshake.next_eq hl, foldr_see hquiet]
    obtain ⟨h₁, h₂, h₃⟩ := hinv
    have hid := hk.bootpID
    have hstate := hk.dhcpState
    exact ⟨by rwa [hstate], by rwa [hstate, hid], by rwa [hstate, hid]⟩
  | discover file hsent hstate =>
    rw [Handshake.next_eq (l := [_]) hsent]
    cases hb : b.cmdDhcp with
    | false =>
      have hno := hinv.noDhcp hb
      rw [hb, if_neg Bool.false_ne_true] at hstate
      refine ⟨fun _ => by rwa [hstate], fun _ => rfl, fun hr => ?_⟩
      rw [hstate] at hr
      exact absurd (Or.inr hr) hno
    | true =>
      rw [hb, if_pos rfl] at hstate
      refine ⟨fun hf => absurd (hf.symm.trans hb) Bool.false_ne_true, fun _ => rfl, fun hr => ?_⟩
      rw [hstate] at hr
      rcases hr with hr | hr <;> cases hr
  | offer f x he hpass hfile hstate hid hstate' hsent =>
    subst he
    rw [Handshake.next_eq (l := [_]) hsent]
    have hb : b.cmdDhcp ≠ false := fun hb => hinv.noDhcp hb (Or.inl hstate)
    refine ⟨fun hf => absurd hf hb, fun _ => ?_, fun _ => ⟨f.payload, rfl, ?_, hfile⟩⟩
    · rw [hid]
      exact hinv.started (Or.inl hstate)
    · rw [hid]
      exact hpass.id
  | ack f x he hpass htype hstate hid hstate' hip hsent =>
    obtain ⟨l, hl, hquiet⟩ := hsent
    rw [Handshake.next_eq hl, foldr_see hquiet]
    have hb : b.cmdDhcp ≠ false := fun hb => hinv.noDhcp hb (Or.inr (Or.inl hstate))
    refine ⟨fun hf => absurd hf hb, fun _ => ?_, fun _ => ?_⟩
    · rw [hid]
      exact hinv.started (Or.inr (Or.inl hstate))
    · rw [hid]
      exact hinv.requested (Or.inl hstate)

/-- **What BOUND rests on.** In every run from a machine that has not begun a handshake, when
`dhcp_state` becomes `BOUND` our address is that of a DHCPACK with the id of the latest
DHCPDISCOVER. A DHCPREQUEST was sent since that, in reply to a packet with this id and the
right file name, with the address of that packet and the server in its `siaddr` if they are not
0. -/
theorem dhcp_bound_history {m₀ m m' : Machine} {h h₀ : Handshake} {es : List NetEv} {e : NetEv}
    (hinit : ¬ m₀.globals.bootp.dhcpState.Started)
    (hrun : Run (ShakeStep b) (m₀, h₀) es (m, h)) (hstep : NetStep b m e m')
    (hbefore : m.globals.bootp.dhcpState ≠ .bound) (hbound : m'.globals.bootp.dhcpState = .bound) :
    ∃ f x offer, e = .frame f x ∧ dhcpMessageType f.payload x.scan bpVend = some 5 ∧
      m'.globals.params.netOurIP = be32 f.payload 16 ∧
      h.discover = some (be32 f.payload 4) ∧
      h.request = some (offer, requestFor offer) ∧
      (requestFor offer).Names (be32 offer 20) (be32 offer 16) ∧
      be32 offer 4 = be32 f.payload 4 ∧ b.acceptsFile offer = true := by
  have hzero : h₀.Inv b m₀.globals.bootp :=
    ⟨fun _ => hinit, fun hs => absurd hs hinit, fun hr => absurd (Or.inr hr) hinit⟩
  have hinv : h.Inv b m.globals.bootp :=
    Run.invariant (I := fun s : Machine × Handshake => s.2.Inv b s.1.globals.bootp)
      (fun s e s' hs hstep => hs.step hstep) hzero hrun
  cases netStep_shakes hstep with
  | keeps hk => exact absurd (hk.dhcpState.symm.trans hbound) hbefore
  | discover file hsent hstate =>
    rw [hbound] at hstate
    split_ifs at hstate
    exact absurd hstate.symm hbefore
  | offer f x he hpass hfile hstate hid hstate' hsent => cases hbound.symm.trans hstate'
  | ack f x he hpass htype hstate hid hstate' hip hsent =>
    obtain ⟨offer, hreq, hoffer, hfile⟩ := hinv.requested (Or.inl hstate)
    refine ⟨f, x, offer, he, htype, hip, ?_, hreq, requestFor_names offer, ?_, hfile⟩
    · rw [hpass.id]
      exact hinv.started (Or.inr (Or.inl hstate))
    · rw [hoffer, hpass.id]

end

/-! ## Packets that do not fit together -/

def Board.dhcp : Board := { Board.plain with cmdDhcp := true }

/-- A BOOTP reply with id 1 from a server to everyone: the header checksum, the last bytes of
the server's address and of ours, and the message type. -/
def bootpReply (cksum : List UInt8) (server ours type : UInt8) : List UInt8 :=
  netBcastAddr ++ [2, 0, 0, 0, 0, server, 8, 0] ++
    [0x45, 0, 1, 16, 0, 0, 0, 0, 64, 17] ++ cksum ++ [10, 0, 0, server, 255, 255, 255, 255] ++
    [0, 67, 0, 68, 0, 252, 0, 0] ++
    [2, 1, 6, 0, 0, 0, 0, 1, 0, 0, 0, 0, 0, 0, 0, 0] ++
    [10, 0, 0, ours, 10, 0, 0, server, 0, 0, 0, 0] ++
    List.replicate 208 0 ++ [99, 130, 83, 99, 53, 1, type, 255]

/-- A DHCPNAK of 10.0.0.1, with the address 10.0.0.50. -/
def nakOf1 : Frame := .ofBytes (bootpReply [0x6f, 0xdd] 1 50 6) (by decide +kernel)

/-- A DHCPACK of 10.0.0.9, with the address 10.0.0.60. -/
def ackOf9 : Frame := .ofBytes (bootpReply [0x6f, 0xd5] 9 60 5) (by decide +kernel)

set_option maxRecDepth 4000 in
/-- The machine with its history after a DHCPNAK of 10.0.0.1, and after an acknowledgement of
10.0.0.9. -/
theorem bound_by_another : ∃ m m' h offer,
    Run (ShakeStep .dhcp) (⟨.plain, none⟩, ⟨none, none⟩)
      [.netLoop .dhcp .sample .plain, .frame nakOf1 .plain] (m, h) ∧
    NetStep .dhcp m (.frame ackOf9 { Ext.plain with scan := 1 }) m' ∧
    m.globals.bootp.dhcpState = .requesting ∧ m'.globals.bootp.dhcpState = .bound ∧
    m'.globals.params.netOurIP = 0x0a00003c ∧ h.request = some (offer, requestFor offer) ∧
    dhcpMessageType offer 1 bpVend = some 6 ∧ be32 offer 16 = 0x0a000032 ∧
    be32 offer 20 = 0x0a000001 := by
  have hcheck := @Run.of_check _ _ (shakeStep .dhcp)
    (fun s => s.1.globals.bootp.dhcpState = .requesting ∧ (s.2.request.any fun r =>
        decide (r.2 = requestFor r.1 ∧ dhcpMessageType r.1 1 bpVend = some 6 ∧
          be32 r.1 16 = 0x0a000032 ∧ be32 r.1 20 = 0x0a000001)) ∧
      (netStep .dhcp s.1 (.frame ackOf9 { Ext.plain with scan := 1 })).any fun m' =>
        m'.globals.bootp.dhcpState = .bound ∧ m'.globals.params.netOurIP = 0x0a00003c)
    (⟨.plain, none⟩, ⟨none, none⟩)
    [.netLoop .dhcp .sample .plain, .frame nakOf1 .plain] (by decide)
  obtain ⟨⟨m, h⟩, hrun, hs⟩ := hcheck
  simp only [Bool.decide_and, Bool.and_eq_true, decide_eq_true_eq, Option.any_eq_true] at hs
  obtain ⟨hstate, ⟨⟨offer, out⟩, hreq, hout, hoffer⟩, m', hstep, hbound, hip⟩ := hs
  obtain rfl : out = requestFor offer := hout
  exact ⟨m, m', h, offer, hrun, hstep, hstate, hbound, hip, hreq, hoffer⟩

/-- A DHCPNAK is taken for an offer, and the acknowledgement of another server, with another
address, for the answer to the request. -/
theorem dhcp_binds_another : ∃ m m' h offer x,
    Run (ShakeStep .dhcp) (⟨.plain, none⟩, ⟨none, none⟩)
      [.netLoop .dhcp .sample .plain, .frame nakOf1 .plain] (m, h) ∧
    NetStep .dhcp m (.frame ackOf9 x) m' ∧
    m.globals.bootp.dhcpState ≠ .bound ∧ m'.globals.bootp.dhcpState = .bound ∧
    h.request = some (offer, requestFor offer) ∧ dhcpMessageType offer 1 bpVend ≠ some 2 ∧
    be32 offer 16 ≠ m'.globals.params.netOurIP ∧ be32 offer 20 ≠ be32 ackOf9.payload 20 := by
  obtain ⟨m, m', h, offer, hrun, hstep, hstate, hbound, hip, hreq, htype, hours, hserver⟩ :=
    bound_by_another
  refine ⟨m, m', h, offer, _, hrun, hstep, ?_, hbound, hreq, ?_, ?_, ?_⟩
  · rw [hstate]
    decide
  · rw [htype]
    decide
  · rw [hours, hip]
    decide
  · rw [hserver]
    decide

/-- The history of that run. -/
theorem dhcp_bound_history_sample : ∃ (m m' : Machine) (h : Handshake) (offer : Bytes),
    NetStep .dhcp m (.frame ackOf9 { Ext.plain with scan := 1 }) m' ∧
    m'.globals.bootp.dhcpState = .bound ∧ h.discover = some 1 ∧
    h.request = some (offer, requestFor offer) := by
  obtain ⟨m, m', h, -, hrun, hstep, hstate, hbound, -⟩ := bound_by_another
  obtain ⟨f, x, offer, he, -, -, hid, hreq, -⟩ := dhcp_bound_history
    (fun hs => by rcases hs with hs | hs | hs <;> cases hs) hrun hstep (by rw [hstate]; decide)
    hbound
  obtain ⟨rfl, -⟩ := NetEv.frame.inj he
  exact ⟨m, m', h, offer, hstep, hbound, hid.trans (by decide), hreq⟩

end UBoot.Net
