import UBoot.Net.Loop
import UBoot.Net.Demux

/-!
# When TFTP starts

While an ARP request is pending, every frame that `NetReceive` passes on gets to
`ArpHandler`, which starts TFTP unless `NetServerEther` is the broadcast address.
`arp_starts_tftp` says in which runs of the machine TFTP starts on nothing but an answer to
the request.
-/

namespace UBoot.Net

open UBoot.Lib

/-! ## Answers -/

section
variable (f : Frame)

/-- The sender's hardware address in an ARP packet. -/
def Frame.arpSender : List UInt8 := bytesAt f.bytes (f.hdr + 8) 6

/-- The sender's protocol address in an ARP packet. -/
def Frame.arpSenderIP : UInt32 := be32 f.bytes (f.hdr + 14)

structure ArpHeader (f : Frame) : Prop where
  len : f.hdr + arpHdrSize ≤ f.len
  hrd : be16 f.bytes f.hdr = 1
  pro : be16 f.bytes (f.hdr + 2) = protIp
  hln : f.bytes (f.hdr + 4) = 6
  pln : f.bytes (f.hdr + 5) = 4

structure ArpReply (f : Frame) (ourIP : UInt32) : Prop extends ArpHeader f where
  prot : f.prot = protArp
  ours : ourIP ≠ 0
  target : be32 f.bytes (f.hdr + 24) = ourIP
  op : be16 f.bytes (f.hdr + 6) = 2

structure RarpReply (f : Frame) : Prop extends ArpHeader f where
  prot : f.prot = protRarp
  op : be16 f.bytes (f.hdr + 6) = 4

end

/-- The address we asked for: the target of the last ARP request of this `NetLoop`. -/
def asked (s : Globals) : Option UInt32 :=
  s.sent.findSome? fun
    | .arpRequest target => some target
    | _ => none

/-! ## What `NetReceive` does -/

/-- The state after a frame was looked at, and the call of the packet handler. -/
inductive Receives (b : Board) (f : Frame) (s : Globals) : Globals × Option RxCall → Prop where
  | dropped (h₁ : ¬ ArpReply f s.params.netOurIP) (h₂ : ¬ RarpReply f)
    (h₃ : ¬ IpPasses b f s.params.netOurIP) (sent : List Out) :
    Receives b f s ({ s with sent := sent }, none)
  | arpReply (h : ArpReply f s.params.netOurIP) :
    Receives b f s
      ({ s with params := { s.params with netServerEther := f.arpSender } }, some .wake)
  | rarpReply (h : RarpReply f) :
    Receives b f s ({ s with params := { s.params with
      netOurIP := be32 f.bytes (f.hdr + 24)
      netServerIP := f.arpSenderIP
      netServerEther := f.arpSender } }, some .wake)
  | ip (h : IpPasses b f s.params.netOurIP) : Receives b f s (s, some f.udpCall)

section
variable {b : Board} {f : Frame} {s : Globals}

theorem ArpReply.not_rarpReply {ourIP : UInt32} (h : ArpReply f ourIP) : ¬ RarpReply f := fun hr =>
  absurd (h.prot.symm.trans hr.prot) (by decide)

theorem ArpReply.not_ipPasses {ourIP : UInt32} (h : ArpReply f ourIP) : ¬ IpPasses b f ourIP :=
  fun hi => absurd (h.prot.symm.trans hi.prot) (by decide)

theorem RarpReply.not_ipPasses {ourIP : UInt32} (h : RarpReply f) : ¬ IpPasses b f ourIP :=
  fun hi => absurd (h.prot.symm.trans hi.prot) (by decide)

theorem receiveArp_receives (hp : f.prot = protArp) :
    Receives b f s (receiveArp f f.hdr (f.len - f.hdr) s) := by
  have drop : ∀ sent, ¬ ArpReply f s.params.netOurIP →
      Receives b f s ({ s with sent := sent }, none) :=
    fun sent h => .dropped h (fun hr => absurd (hp.symm.trans hr.prot) (by decide))
      (fun hi => absurd (hp.symm.trans hi.prot) (by decide)) sent
  have hsize : arpHdrSize = 28 := rfl
  unfold receiveArp
  dsimp only
  by_cases hlen : (f.len : Int) - f.hdr < arpHdrSize
  · rw [if_pos hlen]
    exact drop s.sent fun h => absurd h.len (by omega)
  rw [if_neg hlen]
  by_cases hrd : be16 f.bytes f.hdr ≠ 1
  · rw [if_pos hrd]
    exact drop s.sent fun h => hrd h.hrd
  rw [if_neg hrd]
  by_cases hpro : be16 f.bytes (f.hdr + 2) ≠ protIp
  · rw [if_pos hpro]
    exact drop s.sent fun h => hpro h.pro
  rw [if_neg hpro]
  by_cases hhln : f.bytes (f.hdr + 4) ≠ 6
  · rw [if_pos hhln]
    exact drop s.sent fun h => hhln h.hln
  rw [if_neg hhln]
  by_cases hpln : f.bytes (f.hdr + 5) ≠ 4
  · rw [if_pos hpln]
    exact drop s.sent fun h => hpln h.pln
  rw [if_neg hpln]
  by_cases hours : s.params.netOurIP = 0
  · rw [if_pos hours]
    exact drop s.sent fun h => h.ours hours
  rw [if_neg hours]
  by_cases htarget : be32 f.bytes (f.hdr + 24) ≠ s.params.netOurIP
  · rw [if_pos htarget]
    exact drop s.sent fun h => htarget h.target
  rw [if_neg htarget]
  by_cases hrequest : be16 f.bytes (f.hdr + 6) = 1
  · rw [if_pos hrequest]
    exact drop _ fun h => absurd (hrequest.symm.trans h.op) (by decide)
  rw [if_neg hrequest]
  by_cases hop : be16 f.bytes (f.hdr + 6) = 2
  · rw [if_pos hop]
    exact .arpReply ⟨⟨by omega, not_not.mp hrd, not_not.mp hpro, not_not.mp hhln,
      not_not.mp hpln⟩, hp, hours, not_not.mp htarget, hop⟩
  · rw [if_neg hop]
    exact drop s.sent fun h => hop h.op

theorem receiveRarp_receives (hp : f.prot = protRarp) :
    Receives b f s (receiveRarp f f.hdr (f.len - f.hdr) s) := by
  have drop : ¬ RarpReply f → Receives b f s (s, none) :=
    fun h => .dropped (fun ha => absurd (hp.symm.trans ha.prot) (by decide)) h
      (fun hi => absurd (hp.symm.trans hi.prot) (by decide)) s.sent
  have hsize : arpHdrSize = 28 := rfl
  simp only [receiveRarp]
  split
  · next hlen => exact drop fun h => absurd h.len (by omega)
  · split
    · next hne =>
      refine drop fun h => ?_
      rcases hne with hne | hne | hne | hne | hne
      · exact hne h.op
      · exact hne h.hrd
      · exact hne h.pro
      · exact hne h.hln
      · exact hne h.pln
    · next hall =>
      simp only [not_or, not_not] at hall
      obtain ⟨hop, hrd, hpro, hhln, hpln⟩ := hall
      exact .rarpReply ⟨⟨by omega, hrd, hpro, hhln, hpln⟩, hp, hop⟩

theorem receiveIp_fst (ip : Nat) (len : Int) : (receiveIp b f ip len s).1 = s := by
  simp only [receiveIp, apply_ite Prod.fst, ite_self]

theorem receiveIp_receives (hp : f.prot = protIp) :
    Receives b f s (receiveIp b f f.hdr (f.len - f.hdr) s) := by
  have hfst := receiveIp_fst (b := b) (f := f) (s := s) f.hdr (f.len - f.hdr)
  have hcall := fun c => receiveIp_packet (b := b) (f := f) (s := s) (c := c) hp
  generalize receiveIp b f f.hdr (f.len - f.hdr) s = r at hfst hcall
  obtain ⟨s', call⟩ := r
  cases hfst
  cases call with
  | some c =>
    obtain ⟨hpass, rfl⟩ := (hcall c).mp rfl
    exact .ip hpass
  | none =>
    refine .dropped (fun h => absurd (hp.symm.trans h.prot) (by decide))
      (fun h => absurd (hp.symm.trans h.prot) (by decide)) (fun h => ?_) _
    cases (hcall _).mpr ⟨h, rfl⟩

theorem netReceive_receives (b : Board) (f : Frame) (s : Globals) :
    Receives b f s (netReceive b f s) := by
  rw [netReceive_eq]
  split
  · next hp => exact receiveArp_receives hp
  · next harp =>
    split
    · next hp => exact receiveRarp_receives hp
    · next hrarp =>
      split
      · next hp => exact receiveIp_receives hp
      · next hip =>
        exact .dropped (fun h => harp h.prot) (fun h => hrarp h.prot) (fun h => hip h.prot) s.sent

end

/-! ## One frame -/

/-- The frame answers the pending request: an ARP reply to us from the address we asked for. -/
def Answers (f : Frame) (s : Globals) : Prop :=
  ArpReply f s.params.netOurIP ∧ asked s = some f.arpSenderIP

/-- TFTP is started from `ArpHandler` on an answer only, and `NetServerEther` is then the
sender's hardware address. -/
def OnAnswer (s : Machine) (e : NetEv) (s' : Machine) : Prop :=
  ∀ f x, e = .frame f x → s.globals.packetHandler = some .arp →
    s'.globals.packetHandler = some .tftp →
      Answers f s.globals ∧ s'.globals.params.netServerEther = f.arpSender

/-- No frame starts TFTP early: while an ARP request is pending, a UDP packet comes in only
with `NetServerEther` still the broadcast address, and a reply to ARP or RARP leaves it so or
is the answer to the request. -/
def Quiet (b : Board) (s : Machine) (e : NetEv) : Prop :=
  ∀ f x, e = .frame f x → s.globals.packetHandler = some .arp →
    (IpPasses b f s.globals.params.netOurIP → s.globals.params.netServerEther = netBcastAddr) ∧
    (RarpReply f → f.arpSender = netBcastAddr) ∧
    (ArpReply f s.globals.params.netOurIP →
      f.arpSender = netBcastAddr ∨ asked s.globals = some f.arpSenderIP)

section
variable {b : Board} {f : Frame} {x : Ext} {g g' : Globals}

theorem arpHandler_tftp (h : g.packetHandler = some .arp) :
    (arpHandler x g).packetHandler = some .tftp ↔ g.params.netServerEther ≠ netBcastAddr := by
  unfold arpHandler
  split
  · next hne => exact iff_of_true rfl hne
  · next heq =>
    refine iff_of_false (fun ht => ?_) heq
    rw [h] at ht
    cases ht

theorem arpHandler_netServerEther (x : Ext) (g : Globals) :
    (arpHandler x g).params.netServerEther = g.params.netServerEther := by
  unfold arpHandler
  split <;> rfl

theorem Receives.packetHandler {r : Globals × Option RxCall} (h : Receives b f g r) :
    r.1.packetHandler = g.packetHandler := by
  cases h <;> rfl

/-- While an ARP request is pending, TFTP starts if the handler is called and
`NetServerEther` is not the broadcast address. -/
theorem receiveFrame_tftp (h : g.packetHandler = some .arp) (hr : receiveFrame b x f g = some g') :
    (g'.packetHandler = some .tftp ↔
      (netReceive b f g).2 ≠ none ∧ (netReceive b f g).1.params.netServerEther ≠ netBcastAddr) ∧
    g'.params.netServerEther = (netReceive b f g).1.params.netServerEther := by
  have hph := (netReceive_receives b f g).packetHandler.trans h
  unfold receiveFrame at hr
  generalize netReceive b f g = r at hph hr
  obtain ⟨g₁, call⟩ := r
  cases call with
  | none =>
    cases hr
    refine ⟨iff_of_false (fun ht => ?_) fun hc => hc.1 rfl, rfl⟩
    rw [hph] at ht
    cases ht
  | some c =>
    have hcall : (g₁.packetHandler.bind fun h => callHandler b x f h c g₁) = some g' := hr
    rw [hph, Option.bind_some] at hcall
    cases hcall
    exact ⟨(arpHandler_tftp hph).trans (and_iff_right nofun).symm, arpHandler_netServerEther x g₁⟩

theorem receiveFrame_arp (h : g.packetHandler = some .arp) (hr : receiveFrame b x f g = some g') :
    (g'.packetHandler = some .tftp →
        Answers f g ∧ g'.params.netServerEther = f.arpSender) ↔
      (IpPasses b f g.params.netOurIP → g.params.netServerEther = netBcastAddr) ∧
      (RarpReply f → f.arpSender = netBcastAddr) ∧
      (ArpReply f g.params.netOurIP →
        f.arpSender = netBcastAddr ∨ asked g = some f.arpSenderIP) := by
  obtain ⟨htftp, hether⟩ := receiveFrame_tftp h hr
  rw [htftp, hether]
  have hcases := netReceive_receives b f g
  generalize netReceive b f g = r at hcases
  cases hcases with
  | dropped h₁ h₂ h₃ sent => simp [h₁, h₂, h₃]
  | arpReply ha =>
    constructor
    · intro h
      exact ⟨fun hi => absurd hi ha.not_ipPasses, fun hr => absurd hr ha.not_rarpReply,
        fun _ => or_iff_not_imp_left.mpr fun hne => (h ⟨nofun, hne⟩).1.2⟩
    · rintro ⟨-, -, h⟩ ⟨-, hne⟩
      exact ⟨⟨ha, (h ha).resolve_left hne⟩, rfl⟩
  | rarpReply hra =>
    have hna : ¬ ArpReply f g.params.netOurIP := fun ha => ha.not_rarpReply hra
    constructor
    · intro h
      exact ⟨fun hi => absurd hi hra.not_ipPasses,
        fun _ => by_contra fun hne => hna (h ⟨nofun, hne⟩).1.1, fun ha => absurd ha hna⟩
    · rintro ⟨-, h, -⟩ ⟨-, hne⟩
      exact absurd (h hra) hne
  | ip hi =>
    have hna : ¬ ArpReply f g.params.netOurIP := fun ha => ha.not_ipPasses hi
    constructor
    · intro h
      exact ⟨fun _ => by_contra fun hne => hna (h ⟨nofun, hne⟩).1.1,
        fun hr => absurd hi hr.not_ipPasses, fun ha => absurd ha hna⟩
    · rintro ⟨h, -, -⟩ ⟨-, hne⟩
      exact absurd (h hi) hne

end

/-! ## Every run -/

variable {b : Board} {s s' : Machine} {e : NetEv}

/-- The step: it starts TFTP on an answer only, exactly if it is quiet. -/
theorem onAnswer_iff_quiet (h : NetStep b s e s') : OnAnswer s e s' ↔ Quiet b s e := by
  refine forall_congr' fun f => forall_congr' fun x => forall_congr' fun he =>
    forall_congr' fun harp => ?_
  subst he
  obtain ⟨g, loop⟩ := s
  cases loop with
  | none => cases h
  | some protocol =>
    obtain ⟨g', hg, rfl⟩ := Option.map_eq_some_iff.mp h
    exact receiveFrame_arp harp hg

/-- **TFTP starts on an ARP answer.** For every board and every run of the network machine
from any state, TFTP is started from `ArpHandler` on nothing but an ARP reply from the
address last asked for, with `NetServerEther` its sender, exactly if all steps of the run are
quiet. -/
theorem arp_starts_tftp (b : Board) (s s' : Machine) (es : List NetEv) :
    Run (fun s e s' => OnAnswer s e s' ∧ NetStep b s e s') s es s' ↔
      Run (Only (Quiet b) (NetStep b)) s es s' := by
  constructor
  · exact Run.mono fun _ _ _ h => ⟨(onAnswer_iff_quiet h.2).mp h.1, h.2⟩
  · exact Run.mono fun _ _ _ h => ⟨(onAnswer_iff_quiet h.2).mpr h.1, h.2⟩

/-! ## A run that is not quiet -/

/-- A board at 10.0.0.2 that loads from 10.0.0.1. -/
def NetConfig.sample : NetConfig := ⟨[2, 0, 0, 0, 0, 1], 0x0a000002, 0x0a000001, 0, 0, false⟩

/-- The answer of 10.0.0.1, at 02:00:00:00:00:09. -/
def arpAnswer : Frame :=
  .ofBytes ([2, 0, 0, 0, 0, 1, 2, 0, 0, 0, 0, 9, 8, 6] ++ [0, 1, 8, 0, 6, 4, 0, 2] ++
    [2, 0, 0, 0, 0, 9, 10, 0, 0, 1] ++ [2, 0, 0, 0, 0, 1, 10, 0, 0, 2]) (by decide)

def udpToAll : Frame := .ofBytes (ipFrame 17 [0x7a, 0xd2] [0, 7, 4, 0, 0, 8, 0, 0]) (by decide)

/-- After one `NetLoop` that got an answer, the next one starts TFTP on a UDP packet that
comes before the answer to its own request. -/
theorem arp_starts_on_udp :
    ∃ s s', Run (NetStep .plain) ⟨.plain, none⟩
        [.netLoop .tftp .sample .plain, .frame arpAnswer .plain, .abort,
          .netLoop .tftp .sample .plain] s ∧
      NetStep .plain s (.frame udpToAll .plain) s' ∧
      ¬ OnAnswer s (.frame udpToAll .plain) s' := by
  have hcheck := @Run.of_check _ _ (netStep .plain)
    (fun s => s.globals.packetHandler = some .arp ∧
      (netStep .plain s (.frame udpToAll .plain)).any fun s' =>
        s'.globals.packetHandler = some .tftp)
    ⟨.plain, none⟩
    [.netLoop .tftp .sample .plain, .frame arpAnswer .plain, .abort, .netLoop .tftp .sample .plain]
    (by decide)
  obtain ⟨s, hrun, hs⟩ := hcheck
  simp only [Bool.decide_and, Bool.and_eq_true, decide_eq_true_eq] at hs
  obtain ⟨harp, hs⟩ := hs
  cases hstep : netStep .plain s (.frame udpToAll .plain) with
  | none => rw [hstep] at hs; cases hs
  | some s' =>
    rw [hstep] at hs
    have htftp : s'.globals.packetHandler = some .tftp := by simpa using hs
    refine ⟨s, s', hrun, hstep, fun h => ?_⟩
    exact absurd (h udpToAll .plain rfl harp htftp).1.1.prot (by decide)

end UBoot.Net
