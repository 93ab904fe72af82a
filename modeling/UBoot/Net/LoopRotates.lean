import UBoot.Net.Dhcp
import UBoot.Net.Rotate

/-!
# The network machine rotates

`netStep_rotates` ties `Net.Loop` to `Net.Rotate`: each step of the machine is a few steps of
the rotation, if `NetRestartWrap` is what the devices make it. A handler reaches `NetState` in
the ways `Moves` lists, and nothing but the start of a protocol sets `NetDevExists`.
-/

namespace UBoot.Net

open UBoot.Lib

/-! ## What a handler does to `NetState` -/

/-- A handler leaves `NetState`, is done, fails to store or calls `NetStartAgain`. -/
inductive Moves (b : Board) (x : Ext) (g g' : Globals) : Prop where
  | quiet (hd : g'.netDevExists = g.netDevExists) (hs : g'.netState = g.netState)
  | success (hd : g'.netDevExists = g.netDevExists) (hs : g'.netState = .success)
  | storeFail (hd : g'.netDevExists = g.netDevExists) (hs : g'.netState = .fail)
  | startAgain (hd : g'.netDevExists = g.netDevExists)
      (hs : g'.netState = (netStartAgain b x g).netState)

section
variable {b : Board} {x : Ext} {g g' : Globals} {f : Frame}

@[simp] theorem netStartAgain_netDevExists :
    (netStartAgain b x g).netDevExists = g.netDevExists := by
  unfold netStartAgain
  split_ifs <;> rfl

theorem netStartAgain_netState : (netStartAgain b x g).netState =
    if !b.netMulti then g.netState
    else if x.netRestartWrap then if g.netDevExists then g.netState else .fail
    else .restart := by
  unfold netStartAgain
  split_ifs <;> rfl

theorem moves_netStartAgain : Moves b x g (netStartAgain b x g) :=
  .startAgain netStartAgain_netDevExists rfl

/-- What comes before does not matter where it leaves both variables. -/
theorem Moves.after {g₁ : Globals} (h : Moves b x g₁ g') (hd : g₁.netDevExists = g.netDevExists)
    (hs : g₁.netState = g.netState) : Moves b x g g' := by
  cases h with
  | quiet hd' hs' => exact .quiet (hd'.trans hd) (hs'.trans hs)
  | success hd' hs' => exact .success (hd'.trans hd) hs'
  | storeFail hd' hs' => exact .storeFail (hd'.trans hd) hs'
  | startAgain hd' hs' =>
    refine .startAgain (hd'.trans hd) (hs'.trans ?_)
    rw [netStartAgain_netState, netStartAgain_netState, hd, hs]

theorem storeBlock_moves (block : UInt32) (src : List UInt8) :
    (storeBlock b x block src g).netDevExists = g.netDevExists ∧
      ((storeBlock b x block src g).netState = g.netState ∨
        (storeBlock b x block src g).netState = .fail) := by
  simp only [storeBlock]
  split_ifs <;> simp

theorem tftpAccept_moves (src : List UInt8) : Moves b x g (tftpAccept b x src g) := by
  obtain ⟨hd, hs⟩ := storeBlock_moves (b := b) (x := x)
    (g := netSetTimeout .tftp { g with tftp := { g.tftp with lastBlock := g.tftp.block } })
    (g.tftp.block - 1) src
  unfold tftpAccept
  split_ifs
  · exact .success hd rfl
  · rcases hs with hs | hs
    · exact .quiet hd hs
    · exact .storeFail hd hs

theorem tftpData_moves (block src : Nat) (data : List UInt8) :
    Moves b x g (tftpData b x block src data g) := by
  simp only [tftpData]
  split_ifs
  · exact moves_netStartAgain.after rfl rfl
  · exact (tftpAccept_moves data).after rfl rfl
  · exact .quiet rfl rfl
  · exact (tftpAccept_moves data).after rfl rfl

theorem tftpHandler_moves (pkt : Bytes) (dest src len : Nat) :
    Moves b x g (tftpHandler b x pkt dest src len g) := by
  unfold tftpHandler
  split
  · exact .quiet rfl rfl
  · split
    · exact .quiet rfl rfl
    · split
      · exact .quiet rfl rfl
      · split
        · split
          · exact .quiet rfl rfl
          · exact tftpData_moves _ _ _
        · exact moves_netStartAgain
        · exact .quiet rfl rfl

theorem arpHandler_moves : Moves b x g (arpHandler x g) := by
  unfold arpHandler
  split
  · exact .quiet rfl rfl
  · exact .quiet rfl rfl

theorem autoload_moves {g₁ : Globals} (hd : g₁.netDevExists = g.netDevExists)
    (hs : g₁.netState = g.netState) :
    Moves b x g (if x.autoloadNo then { g₁ with netState := .success } else arpRequest g₁) := by
  split
  · exact .success hd rfl
  · exact .quiet hd hs

theorem bootpHandler_moves (pkt : Bytes) (dest src : Nat) (len : UInt32) :
    Moves b x g (bootpHandler x f pkt dest src len g) := by
  unfold bootpHandler
  split
  · exact .quiet rfl rfl
  · refine autoload_moves ?_ ?_ <;> split <;> rfl

theorem dhcpHandler_moves {pkt : Bytes} {dest src : Nat} {len : UInt32}
    (h : dhcpHandler b x f pkt dest src len g = some g') : Moves b x g g' := by
  rcases dhcpHandler_cases h with rfl | ⟨-, htakes⟩
  · exact .quiet rfl rfl
  · cases htakes with
    | offer hstate hfile => exact .quiet rfl rfl
    | ack hstate htype =>
      obtain ⟨p, t, hopts⟩ := dhcpOptionsProcess_eq b pkt (bpVend + 4) g
      refine autoload_moves ?_ ?_ <;> simp only [dhcpBind, hopts] <;> rfl

theorem callHandler_moves {h : Handler} {c : RxCall} (hc : callHandler b x f h c g = some g') :
    Moves b x g g' := by
  unfold callHandler at hc
  cases h with
  | dhcp => exact dhcpHandler_moves hc
  | arp => exact Option.some.inj hc ▸ arpHandler_moves
  | rarp => exact Option.some.inj hc ▸ .quiet rfl rfl
  | bootp => exact Option.some.inj hc ▸ bootpHandler_moves _ _ _ _
  | tftp => exact Option.some.inj hc ▸ tftpHandler_moves _ _ _ _
  | startAgain => exact Option.some.inj hc ▸ .quiet rfl rfl

theorem receiveFrame_moves (h : receiveFrame b x f g = some g') : Moves b x g g' := by
  have hfirst : (netReceive b f g).1.netDevExists = g.netDevExists ∧
      (netReceive b f g).1.netState = g.netState := by
    have hcases := netReceive_receives b f g
    generalize netReceive b f g = r at hcases
    cases hcases <;> exact ⟨rfl, rfl⟩
  unfold receiveFrame at h
  generalize netReceive b f g = r at h hfirst
  obtain ⟨g₁, call⟩ := r
  cases call with
  | none =>
    obtain rfl := Option.some.inj h
    exact .quiet hfirst.1 hfirst.2
  | some c =>
    obtain ⟨t, -, h⟩ := Option.bind_eq_some_iff.mp h
    exact (callHandler_moves h).after hfirst.1 hfirst.2

theorem callTimeout_moves (h : callTimeout b x g = some g') :
    Moves b x g g' ∨ g'.netDevExists = g.netDevExists ∧ g'.netState = .restart := by
  obtain ⟨t, -, rfl⟩ := Option.map_eq_some_iff.mp h
  cases t with
  | startAgain => exact Or.inr ⟨rfl, rfl⟩
  | arp =>
    refine Or.inl ?_
    simp only [arpTimeout]
    split_ifs
    · exact moves_netStartAgain.after rfl rfl
    · exact .quiet rfl rfl
  | rarp =>
    refine Or.inl ?_
    simp only [rarpTimeout]
    split_ifs
    · exact moves_netStartAgain.after rfl rfl
    · exact .quiet rfl rfl
  | bootp =>
    refine Or.inl ?_
    simp only [bootpTimeout]
    split_ifs
    · exact moves_netStartAgain.after rfl rfl
    · exact .quiet rfl rfl
  | tftp =>
    refine Or.inl ?_
    simp only [tftpTimeout]
    split_ifs
    · exact moves_netStartAgain.after rfl rfl
    · exact .quiet rfl rfl

end

/-! ## The refinement -/

section
variable {D : Type} [DecidableEq D] [Fintype D] {R : DeviceRing D} {b : Board} {x : Ext}
  {g g' : Globals} {m m' : Machine} {r : Rotation D} {init : D → Bool}

structure Matches (m : Machine) (r : Rotation D) : Prop where
  running : r.running = m.loop.isSome
  netDevExists : r.netDevExists = m.globals.netDevExists
  netState : r.netState = m.globals.netState

/-- `NetRestartWrap` after the `eth_try_another` and the `eth_init` of `NetStartAgain`. -/
def Rotation.wraps (R : DeviceRing D) (init : D → Bool) (r : Rotation D) : Bool :=
  (ethInit R init (ethTryAnother R (!r.netRestarted) r.eth)).netRestartWrap

theorem startAgain_matches (hmulti : b.netMulti = true) (hx : x.netRestartWrap = r.wraps R init)
    (hd : r.netDevExists = g.netDevExists) (hs : r.netState = g.netState) :
    (r.startAgain R init).running = r.running ∧
      (r.startAgain R init).netDevExists = r.netDevExists ∧
      (r.startAgain R init).netState = (netStartAgain b x g).netState := by
  rw [netStartAgain_netState, hmulti, hx]
  obtain ⟨e, he, ⟨hw, heq⟩ | ⟨hw, hd', heq⟩ | ⟨hw, hd', heq⟩⟩ := r.startAgain_cases R init
  · rw [heq, Rotation.wraps, ← he, hw]
    exact ⟨rfl, rfl, rfl⟩
  · rw [heq, Rotation.wraps, ← he, hw, ← hd, hd']
    exact ⟨rfl, hd'.symm ▸ rfl, hs⟩
  · rw [heq, Rotation.wraps, ← he, hw, ← hd, hd']
    exact ⟨rfl, hd'.symm ▸ rfl, rfl⟩

theorem rotStep_running (R : DeviceRing D) (init : D → Bool) (h : r.running = true) :
    RotStep R r (.startAgain init) (r.startAgain R init) ∧
      RotStep R r .startAgainTimeout { r with netState := .restart, gaveUp := false } ∧
      RotStep R r .success { r with netState := .success, gaveUp := false } ∧
      RotStep R r .storeFail { r with netState := .fail, gaveUp := false } ∧
      RotStep R r .abort { r with running := false } := by
  obtain ⟨eth, restarted, devExists, netState, running, gaveUp⟩ := r
  obtain rfl : running = true := h
  exact ⟨rfl, rfl, rfl, rfl, rfl⟩

theorem rotStep_restart {found : Prereq D} (h : r.running = true) (hs : r.netState = .restart) :
    RotStep R r (.check found) (Rotation.restart R found { r with netRestarted := true }) := by
  obtain ⟨eth, restarted, devExists, netState, running, gaveUp⟩ := r
  obtain rfl : running = true := h
  obtain rfl : netState = .restart := hs
  rfl

theorem rotStep_idle {found : Prereq D} (h : r.running = false) :
    RotStep R r (.netLoop init found)
      (Rotation.restart R found ⟨r.opened R init, false, false, r.netState, true, false⟩) := by
  obtain ⟨eth, restarted, devExists, netState, running, gaveUp⟩ := r
  obtain rfl : running = false := h
  rfl

/-- A handler's move is one step of the rotation at most. -/
theorem Moves.rotates {protocol : Proto} (h : Moves b x g g') (hmulti : b.netMulti = true)
    (hx : x.netRestartWrap = r.wraps R init) (hm : Matches ⟨g, some protocol⟩ r) :
    ∃ evs r', Run (RotStep R) r evs r' ∧ Matches ⟨g', some protocol⟩ r' := by
  obtain ⟨hrun, hd, hs⟩ := hm
  obtain ⟨hagain, -, hsuccess, hfail, -⟩ := rotStep_running R init hrun
  cases h with
  | quiet hd' hs' => exact ⟨[], r, .nil r, hrun, hd.trans hd'.symm, hs.trans hs'.symm⟩
  | success hd' hs' => exact ⟨_, _, .single hsuccess, hrun, hd.trans hd'.symm, hs'.symm⟩
  | storeFail hd' hs' => exact ⟨_, _, .single hfail, hrun, hd.trans hd'.symm, hs'.symm⟩
  | startAgain hd' hs' =>
    obtain ⟨h₁, h₂, h₃⟩ := startAgain_matches hmulti hx hd hs
    exact ⟨_, _, .single hagain, h₁.trans hrun, h₂.trans (hd.trans hd'.symm), h₃.trans hs'.symm⟩

theorem netRequest_keeps (protocol : Proto) :
    (netRequest b protocol x g).netDevExists = g.netDevExists ∧
      (netRequest b protocol x g).netState = g.netState := by
  cases protocol with
  | dhcp =>
    simp only [netRequest]
    split_ifs <;> exact ⟨rfl, rfl⟩
  | _ => exact ⟨rfl, rfl⟩

/-- `NetLoop` from `restart` on, in the rotation and in the machine. -/
theorem restart_matches (R : DeviceRing D) (init : D → Bool) (protocol : Proto)
    (cfg : NetConfig) (hmulti : b.netMulti = true) (hx : x.netRestartWrap = r.wraps R init)
    (hrun : r.running = true)
    (hd : r.netDevExists = g.netDevExists) :
    ∃ found, Matches (Machine.restart b protocol cfg x g) (Rotation.restart R found r) := by
  unfold Machine.restart netRestart
  obtain h | h | ⟨-, h⟩ := netCheckPrereq_cases b protocol cfg x (netInit protocol cfg g) <;>
    simp only [h, hmulti, if_true]
  · obtain ⟨hd', hs'⟩ := netRequest_keeps (b := b) (x := x)
      (g := { netInit protocol cfg g with netDevExists := true }) protocol
    exact ⟨.ready, hrun, hd'.symm, hs'.symm⟩
  · exact ⟨.notConfigured, rfl, hd, rfl⟩
  · obtain ⟨h₁, h₂, h₃⟩ := startAgain_matches (g := netInit protocol cfg g)
      (r := { r with netState := .continue, gaveUp := false }) hmulti hx hd rfl
    have hkept : (netStartAgain b x (netInit protocol cfg g)).netDevExists = g.netDevExists :=
      netStartAgain_netDevExists
    exact ⟨.noAddress init, h₁.trans hrun, h₂.trans (hd.trans hkept.symm), h₃⟩

/-- What `NetRestartWrap` is in the `NetStartAgain` that an event may lead to. -/
def Rotation.wrapsOn (R : DeviceRing D) (opening init : D → Bool) (r : Rotation D) : NetEv → Bool
  | .netLoop _ _ _ =>
    Rotation.wraps R init ⟨r.opened R opening, false, false, r.netState, true, false⟩
  | .check _ _ => Rotation.wraps R init { r with netRestarted := true }
  | _ => r.wraps R init

def NetEv.ext : NetEv → Option Ext
  | .netLoop _ _ x | .frame _ x | .timeout x | .check _ x => some x
  | _ => none

/-- **The network machine rotates.** A step of the machine is a run of the rotation, for
whatever devices come up, if `NetRestartWrap` is as the devices have it. -/
theorem netStep_rotates {e : NetEv} (opening init : D → Bool) (h : NetStep b m e m')
    (hmulti : b.netMulti = true)
    (hx : ∀ x ∈ e.ext, x.netRestartWrap = r.wrapsOn R opening init e) (hm : Matches m r) :
    ∃ evs r', Run (RotStep R) r evs r' ∧ Matches m' r' := by
  obtain ⟨g, loop⟩ := m
  obtain ⟨hrun, hd, hs⟩ := id hm
  unfold NetStep netStep at h
  cases loop with
  | none =>
    have hrun : r.running = false := hrun
    cases e with
    | command bootFile loadAddr mem =>
      obtain rfl := Option.some.inj h
      exact ⟨[], r, .nil r, hrun, hd, hs⟩
    | netLoop protocol cfg x =>
      obtain rfl := Option.some.inj h
      obtain ⟨found, hfound⟩ := restart_matches R init
        (r := ⟨r.opened R opening, false, false, r.netState, true, false⟩)
        (g := { g with sent := [], stores := [], netDevExists := false })
        protocol cfg hmulti (hx x rfl) rfl rfl
      rw [if_pos hmulti]
      exact ⟨_, _, .single (rotStep_idle hrun), hfound⟩
    | _ => cases h
  | some protocol =>
    have hrun : r.running = true := hrun
    cases e with
    | frame f x =>
      obtain ⟨g', hg', rfl⟩ := Option.map_eq_some_iff.mp h
      exact (receiveFrame_moves hg').rotates hmulti (hx x rfl) hm
    | timeout x =>
      obtain ⟨g', hg', rfl⟩ := Option.map_eq_some_iff.mp h
      rcases callTimeout_moves hg' with hmoves | ⟨hd', hs'⟩
      · exact hmoves.rotates hmulti (hx x rfl) hm
      · obtain ⟨-, htimeout, -⟩ := rotStep_running R init hrun
        exact ⟨_, _, .single htimeout, hrun, hd.trans hd'.symm, hs'.symm⟩
    | check cfg x =>
      cases hstate : g.netState with
      | restart =>
        simp only [hstate] at h
        obtain rfl := Option.some.inj h
        obtain ⟨found, hfound⟩ := restart_matches R init
          (r := { r with netRestarted := true }) protocol cfg hmulti (hx x rfl) hrun hd
        exact ⟨_, _, .single (rotStep_restart hrun (hs.trans hstate)), hfound⟩
      | «continue» =>
        simp only [hstate] at h
        obtain rfl := Option.some.inj h
        exact ⟨[], r, .nil r, hrun, hd, hs⟩
      | _ =>
        simp only [hstate] at h
        obtain rfl := Option.some.inj h
        obtain ⟨-, -, -, -, habort⟩ := rotStep_running R init hrun
        exact ⟨_, _, .single habort, rfl, hd, hs⟩
    | abort =>
      obtain rfl := Option.some.inj h
      obtain ⟨-, -, -, -, habort⟩ := rotStep_running R init hrun
      exact ⟨_, _, .single habort, rfl, hd, hs⟩
    | _ => cases h

end

end UBoot.Net
