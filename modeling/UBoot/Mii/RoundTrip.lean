import UBoot.Mii.Miiphybb

/-!
# Frames and registers

Every access puts one frame of the clause on the wire and does to the registers of the PHYs
what it stands for (`Access.on`). A run of accesses is a run of the register files
(`runs_done`), so that what was written is read back.
-/

namespace UBoot.Mii

open UBoot.Lib.Bits

/-! ## What the interface is for -/

/-- The five bits of an address or register number. -/
def field (x : UInt8) : Fin 32 := Fin.ofNat 32 x.toNat

def Access.on : Access → Files → Files
  | .read _ _, f => f
  | .write addr reg v, f => fun a =>
    (f a).map fun regs => if a = field addr then Function.update regs (field reg) v else regs

/-- Preamble, start of frame, opcode, PHY address and register address. -/
def head (op : List Bool) (addr reg : UInt8) : List Bool :=
  List.replicate 32 true ++ [false, true] ++ op ++ msb 5 addr.toNat ++ msb 5 reg.toNat

/-- The frame of an access. Nobody answers for an absent PHY: turnaround and data are ones, and
15 more follow. One idle bit follows the other frames. -/
def Access.frame : Access → Files → List Sample
  | .read addr reg, f => (head [true, false] addr reg).map (⟨true, ·⟩) ++
    match f (field addr) with
    | some regs => ([true, false] ++ msb 16 (regs (field reg)).toNat ++ [true]).map (⟨false, ·⟩)
    | none => (List.replicate 33 true).map (⟨false, ·⟩)
  | .write addr reg v, _ =>
    (head [false, true] addr reg ++ [true, false] ++ msb 16 v.toNat).map (⟨true, ·⟩) ++
      [⟨false, true⟩]

def filesOf (cs : List Access) (f : Files) : Files := cs.foldl (fun f c => c.on f) f

def framesOf : List Access → Files → List Sample
  | [], _ => []
  | c :: cs, f => c.frame f ++ framesOf cs (c.on f)

/-! ## The pins -/

structure Bus.Is (b : Bus) (active : Bool) (P : Phys) (W : List Sample) : Prop where
  active : b.active = active
  phys : b.phys = P
  wire : b.wire = W

variable {b : Bus} {P : Phys} {W : List Sample} {bit : Bool}

theorem Phys.run_nil (P : Phys) : P.run [] = P := by
  funext a
  exact Option.map_id'

theorem Phys.run_cons (P : Phys) (bit : Bool) (bits : List Bool) :
    P.run (bit :: bits) = (P.clock bit).run bits := by
  funext a
  exact (Option.map_map (Phy.run a bits) (Phy.clock a bit) (P a)).symm

theorem Phys.run_append (P : Phys) (xs ys : List Bool) : P.run (xs ++ ys) = (P.run xs).run ys := by
  induction xs generalizing P with
  | nil => rw [Phys.run_nil, List.nil_append]
  | cons x xs ih => rw [List.cons_append, Phys.run_cons, Phys.run_cons, ih]

theorem Bus.Is.rise {active : Bool} (h : b.Is active P W) (hmdc : b.mdc = false) :
    (b.setMdc true).Is active (P.clock b.line) (W ++ [⟨active, b.line⟩]) := by
  obtain ⟨rfl, rfl, rfl⟩ := h
  rw [Bus.setMdc, hmdc]
  exact ⟨rfl, rfl, rfl⟩

theorem Bus.Is.fall {active : Bool} (h : b.Is active P W) : (b.setMdc false).Is active P W := by
  obtain ⟨rfl, rfl, rfl⟩ := h
  exact ⟨rfl, rfl, rfl⟩

theorem Bus.Is.out (h : b.Is true P W) (bit : Bool) :
    (b.out bit).Is true (P.clock bit) (W ++ [⟨true, bit⟩]) := by
  have hset : ((b.setMdc false).setMdio bit).Is true P W := ⟨h.active, h.phys, h.wire⟩
  have hline : ((b.setMdc false).setMdio bit).line = bit := if_pos h.active
  have hrise := hset.rise rfl
  rwa [hline] at hrise

theorem Bus.Is.line (h : b.Is false P W) : b.line = P.pulled := by
  rw [Bus.line, h.active, if_neg Bool.false_ne_true, h.phys]

theorem Bus.Is.tick (h : b.Is false P W) :
    b.tick.Is false (P.clock P.pulled) (W ++ [⟨false, P.pulled⟩]) := by
  have hrise := h.fall.rise rfl
  rwa [h.fall.line] at hrise

theorem Bus.Is.tristate {active : Bool} (h : b.Is active P W) : b.tristate.Is false P W :=
  ⟨rfl, h.phys, h.wire⟩

def Bus.outs (bits : List Bool) (b : Bus) : Bus := bits.foldl (fun b bit => b.out bit) b

theorem Bus.Is.outs (h : b.Is true P W) (bits : List Bool) :
    (b.outs bits).Is true (P.run bits) (W ++ bits.map (⟨true, ·⟩)) := by
  induction bits generalizing b P W with
  | nil => rwa [List.map_nil, List.append_nil, Phys.run_nil]
  | cons bit bits ih =>
    rw [Phys.run_cons, List.map_cons, List.append_cons]
    exact ih (h.out bit)

theorem Bus.outs_append (xs ys : List Bool) (b : Bus) : b.outs (xs ++ ys) = (b.outs xs).outs ys :=
  List.foldl_append

/-! ## The loops are lists of bits -/

theorem setMdc_mdio (b : Bus) (bit : Bool) : (b.setMdc bit).mdio = b.mdio := by
  unfold Bus.setMdc
  split_ifs <;> rfl

theorem tick_eq_out (hmdio : b.mdio = true) : b.tick = b.out true := by
  have hset : (b.setMdc false).setMdio true = b.setMdc false := by
    obtain ⟨active, mdio, mdc, phys, wire⟩ := b
    obtain rfl : mdio = true := hmdio
    rfl
  rw [Bus.tick, Bus.out, hset]

theorem ticks_eq_outs (k : ℕ) (hmdio : b.mdio = true) :
    b.ticks k = b.outs (List.replicate k true) := by
  induction k generalizing b with
  | zero => rfl
  | succ k ih =>
    rw [Bus.ticks, List.replicate_succ, tick_eq_out hmdio, ih (setMdc_mdio ..)]
    rfl

theorem sendAddr_eq (k : ℕ) (x : UInt8) (b : Bus) :
    sendAddr k x b = b.outs (shiftOut (fun x : UInt8 => !(x &&& 0x10 == 0)) (· <<< 1) k x) := by
  induction k generalizing x b with
  | zero => rfl
  | succ k ih => exact ih _ _

theorem sendData_eq (k : ℕ) (x : UInt16) (b : Bus) :
    sendData k x b = b.outs (shiftOut (fun x : UInt16 => !(x &&& 0x8000 == 0)) (· <<< 1) k x) := by
  induction k generalizing x b with
  | zero => rfl
  | succ k ih => exact ih _ _

theorem sendAddr_five (x : UInt8) (b : Bus) : sendAddr 5 x b = b.outs (msb 5 x.toNat) := by
  rw [sendAddr_eq, shiftOut_all UInt8.toNat]
  · intro x
    rw [← not_and_two_pow_eq_zero]
    congr 1
    rw [Bool.eq_iff_iff, beq_iff_eq, decide_eq_true_iff, ← UInt8.toNat_inj, UInt8.toNat_and]
    rfl
  · intro x
    have hshl : (x <<< 1).toNat = x.toNat <<< 1 % 2 ^ 8 := UInt8.toNat_shiftLeft x 1
    rw [hshl, Nat.shiftLeft_eq, Nat.pow_one, Nat.mul_comm]
    exact Nat.mod_mod_of_dvd _ (by decide)

theorem sendData_sixteen (x : UInt16) (b : Bus) : sendData 16 x b = b.outs (msb 16 x.toNat) := by
  rw [sendData_eq, shiftOut_all UInt16.toNat]
  · intro x
    rw [← not_and_two_pow_eq_zero]
    congr 1
    rw [Bool.eq_iff_iff, beq_iff_eq, decide_eq_true_iff, ← UInt16.toNat_inj, UInt16.toNat_and]
    rfl
  · intro x
    have hshl : (x <<< 1).toNat = x.toNat <<< 1 % 2 ^ 16 := UInt16.toNat_shiftLeft x 1
    rw [hshl, Nat.shiftLeft_eq, Nat.pow_one, Nat.mul_comm, Nat.mod_mod]

theorem miiphyPre_eq (read : Bool) (addr reg : UInt8) (b : Bus) :
    miiphyPre read addr reg b =
      (b.setActive.setMdio true).outs (head [read, !read] addr reg) := by
  unfold miiphyPre head
  rw [sendAddr_five, sendAddr_five, ticks_eq_outs 32 rfl]
  simp only [Bus.outs_append]
  rfl

/-! ## The PHYs during a frame -/

variable {a x : Fin 32} {p : Phy}

theorem Phy.goto_self {n : ℕ} (h : p.state = .preamble n) : p.goto (.preamble n) = p := by
  rw [← h]
  rfl

theorem field_eq (x : UInt8) (k : ℕ) : Fin.ofNat 32 (k * 32 + x.toNat % 32) = field x := by
  refine Fin.ext ?_
  show (k * 32 + x.toNat % 32) % 32 = x.toNat % 32
  omega

theorem Phy.run_head {n : ℕ} (h : p.state = .preamble n) (read : Bool) (addr reg : UInt8) :
    Phy.run a (head [read, !read] addr reg) p =
      if a = field addr then
        p.goto (if read then .turn (field reg) else .recv (field reg) 17 0)
      else p.goto (.skip 17) := by
  have hneed : p.need ≤ n + 32 := p.need_le.trans (Nat.le_add_left 32 n)
  have hlen : (read :: (!read) :: (msb 5 addr.toNat ++ msb 5 reg.toNat)).length = 11 + 1 := by
    simp
  have hhead : head [read, !read] addr reg = List.replicate 32 true ++ [false, true] ++
      read :: (!read) :: (msb 5 addr.toNat ++ msb 5 reg.toNat) := by
    simp [head]
  rw [hhead, Phy.run_append, Phy.run_append, ← Phy.goto_self h, Phy.run_preamble,
    Phy.run_start hneed, Phy.run_header hlen, shiftIn_cons, shiftIn_cons, shiftIn_append,
    shiftIn_msb, shiftIn_msb, Phy.dispatch]
  set op := 2 * (2 * 0 + read.toNat) + (!read).toNat with hopdef
  have hpow : 2 ^ 5 = 32 := rfl
  have hdiv : ((op * 32 + addr.toNat % 32) * 32 + reg.toNat % 32) / 32 =
      op * 32 + addr.toNat % 32 := by omega
  have hop : ((op * 32 + addr.toNat % 32) * 32 + reg.toNat % 32) / 1024 = op := by omega
  rw [hpow, hdiv, hop, field_eq, field_eq, hopdef]
  cases read with
  | false => rfl
  | true => rfl

theorem run_head (hP : P.Idle) (read : Bool) (addr reg : UInt8) :
    P.run (head [read, !read] addr reg) = P.during (field addr)
      (if read then .turn (field reg) else .recv (field reg) 17 0) (.skip 17) := by
  funext a
  unfold Phys.run Phys.during
  cases hp : P a with
  | none => rfl
  | some p =>
    obtain ⟨n, hn⟩ := hP a p hp
    rw [Option.map_some, Option.map_some, Phy.run_head hn]
    split_ifs <;> rfl

theorem clock_during {s t : PhyState} (s' t' : PhyState)
    (hs : ∀ p, P x = some p → (p.goto s).clock x bit = p.goto s')
    (ht : ∀ (a : Fin 32) (p : Phy), (p.goto t).clock a bit = p.goto t') :
    (P.during x s t).clock bit = P.during x s' t' := by
  funext a
  unfold Phys.clock Phys.during
  cases hp : P a with
  | none => rfl
  | some p =>
    rw [Option.map_some, Option.map_some, Option.map_some]
    split_ifs with hax
    · subst hax
      rw [hs p hp]
    · rw [ht]

/-- The level of MDIO when only one PHY can drive it. -/
theorem pulled_during {s t : PhyState} (ht : ∀ p : Phy, (p.goto t).drive = none) :
    (P.during x s t).pulled = match P x with
      | some p => (p.goto s).drive.getD true
      | none => true := by
  unfold Phys.pulled
  rw [Bool.eq_iff_iff, decide_eq_true_iff]
  constructor
  · intro h
    have hx := h x
    rw [Phys.during] at hx
    cases hp : P x with
    | none => rfl
    | some p =>
      rw [hp, Option.map_some, Option.bind_some, if_pos rfl] at hx
      dsimp only
      cases hd : (p.goto s).drive with
      | none => rfl
      | some c =>
        cases c with
        | false => exact absurd hd hx
        | true => rfl
  · intro h a
    rw [Phys.during]
    cases hp : P a with
    | none => exact fun hd => by cases hd
    | some p =>
      rw [Option.map_some, Option.bind_some]
      split_ifs with hax
      · subst hax
        rw [hp] at h
        have hlevel : (p.goto s).drive.getD true = true := h
        intro hd
        rw [hd] at hlevel
        cases hlevel
      · rw [ht]
        exact fun hd => by cases hd

def Phys.rest (P : Phys) (n : ℕ) : Phys := fun a => (P a).map fun p => p.goto (.preamble n)

theorem during_preamble (n : ℕ) :
    P.during x (.preamble n) (.preamble n) = P.rest n := by
  funext a
  unfold Phys.during Phys.rest
  simp only [ite_self]

theorem rest_clock (n : ℕ) : (P.rest n).clock true = P.rest (n + 1) := by
  rw [← during_preamble (x := 0), ← during_preamble (x := 0)]
  exact clock_during _ _ (fun _ _ => rfl) fun _ _ => rfl

theorem rest_pulled (n : ℕ) : (P.rest n).pulled = true := by
  rw [← during_preamble (x := 0), pulled_during fun _ => rfl]
  cases P 0 with
  | none => rfl
  | some p => rfl

theorem rest_idle (n : ℕ) : (P.rest n).Idle := by
  intro a p hp
  obtain ⟨q, -, rfl⟩ := Option.map_eq_some_iff.mp hp
  exact ⟨n, rfl⟩

theorem rest_files (n : ℕ) : (P.rest n).files = P.files := by
  funext a
  unfold Phys.files Phys.rest
  cases P a with
  | none => rfl
  | some p => rfl

theorem Bus.Is.idle {n : ℕ} (h : b.Is false (P.rest n) W) :
    b.tick.Is false (P.rest (n + 1)) (W ++ [⟨false, true⟩]) := by
  have htick := h.tick
  rwa [rest_pulled, rest_clock] at htick

theorem Bus.Is.idles {n : ℕ} (h : b.Is false (P.rest n) W) (k : ℕ) :
    (b.ticks k).Is false (P.rest (n + k)) (W ++ List.replicate k ⟨false, true⟩) := by
  induction k generalizing b n W with
  | zero => rwa [List.replicate_zero, List.append_nil]
  | succ k ih =>
    have hn : n + (k + 1) = n + 1 + k := by omega
    rw [List.replicate_succ, List.append_cons, hn]
    exact ih h.idle

/-- The station has let the wire go, and everybody waits for the next frame. -/
structure Bus.Done (b : Bus) (f : Files) (W : List Sample) : Prop where
  released : b.active = false
  idle : b.phys.Idle
  files : b.phys.files = f
  wire : b.wire = W

theorem Bus.Is.done {n : ℕ} (h : b.Is false (P.rest n) W) : b.Done P.files W :=
  ⟨h.active, h.phys ▸ rest_idle n, h.phys ▸ rest_files n, h.wire⟩

/-! ## Writing -/

/-- The PHY at address `x` takes a value. -/
def Phys.store (P : Phys) (x r : Fin 32) (v : UInt16) : Phys :=
  fun a => (P a).map fun p => if a = x then p.set r v else p

theorem store_files (addr reg : UInt8) (v : UInt16) :
    (P.store (field addr) (field reg) v).files = (Access.write addr reg v).on P.files := by
  funext a
  simp only [Phys.files, Phys.store, Access.on]
  cases P a with
  | none => rfl
  | some p =>
    simp only [Option.map_some]
    split_ifs <;> rfl

theorem run_write (hP : P.Idle) (addr reg : UInt8) (v : UInt16) :
    P.run (head [false, true] addr reg ++ [true, false] ++ msb 16 v.toNat) =
      (P.store (field addr) (field reg) v).rest 0 := by
  have hlen : ([true, false] ++ msb 16 v.toNat).length = 17 + 1 := by simp
  have hval : UInt16.ofNat (shiftIn 0 ([true, false] ++ msb 16 v.toNat)) = v := by
    rw [shiftIn_append, shiftIn_msb, ← UInt16.toNat_inj, UInt16.toNat_ofNat']
    have hlt := v.toNat_lt
    show ((2 * (2 * 0 + 1) + 0) * 2 ^ 16 + v.toNat % 2 ^ 16) % 2 ^ 16 = v.toNat
    omega
  have hhead : P.run (head [false, true] addr reg) =
      P.during (field addr) (.recv (field reg) 17 0) (.skip 17) := run_head hP false addr reg
  rw [List.append_assoc, Phys.run_append, hhead]
  funext a
  unfold Phys.run Phys.during Phys.rest Phys.store
  cases P a with
  | none => rfl
  | some p =>
    simp only [Option.map_some]
    split_ifs with hax
    · rw [Phy.run_recv hlen, hval]
    · rw [Phy.run_skip hlen]

theorem miiphyWrite_done (hb : b.phys.Idle) (addr reg : UInt8) (v : UInt16) :
    (miiphyWrite addr reg v b).2.Done ((Access.write addr reg v).on b.phys.files)
      (b.wire ++ (Access.write addr reg v).frame b.phys.files) := by
  have hstart : (b.setActive.setMdio true).Is true b.phys b.wire := ⟨rfl, rfl, rfl⟩
  have hsent := hstart.outs (head [false, true] addr reg ++ [true, false] ++ msb 16 v.toNat)
  rw [run_write hb] at hsent
  have hcode : (miiphyWrite addr reg v b).2 = ((b.setActive.setMdio true).outs
      (head [false, true] addr reg ++ [true, false] ++ msb 16 v.toNat)).tristate.tick := by
    rw [miiphyWrite, miiphyPre_eq, sendData_sixteen, Bus.outs_append, Bus.outs_append]
    rfl
  rw [hcode, ← store_files, Access.frame, ← List.append_assoc]
  exact hsent.tristate.idle.done

/-! ## Reading -/

theorem Bus.Is.skips {s : PhyState} {l : ℕ} (hx : P x = none)
    (h : b.Is false (P.during x s (.skip l)) W) :
    (b.ticks (l + 1)).Is false (P.rest 0) (W ++ List.replicate (l + 1) ⟨false, true⟩) := by
  have hs (s' : PhyState) : ∀ p, P x = some p → (p.goto s).clock x true = p.goto s' :=
    fun p hp => by rw [hx] at hp; cases hp
  have hpulled (l : ℕ) : (P.during x s (.skip l)).pulled = true := by
    rw [pulled_during fun _ => rfl, hx]
  induction l generalizing b W with
  | zero =>
    have htick := h.tick
    rw [hpulled, clock_during _ _ (hs (.preamble 0)) fun _ _ => rfl, during_preamble] at htick
    exact htick
  | succ l ih =>
    have htick := h.tick
    rw [hpulled, clock_during _ _ (hs s) fun _ _ => rfl] at htick
    rw [List.replicate_succ, List.append_cons]
    exact ih htick

/-- `rdreg <<= 1; rdreg |= MDIO_READ;` -/
def shiftBit (rdreg : UInt16) (bit : Bool) : UInt16 := rdreg <<< 1 ||| if bit then 1 else 0

theorem shiftBit_toNat (r : UInt16) (bit : Bool) :
    (shiftBit r bit).toNat = (2 * r.toNat + bit.toNat) % 2 ^ 16 := by
  have hshl : (r <<< 1).toNat = r.toNat <<< 1 % 2 ^ 16 := UInt16.toNat_shiftLeft r 1
  have hbit : (if bit then 1 else 0 : UInt16).toNat = bit.toNat := by cases bit <;> rfl
  have heven : r.toNat <<< 1 % 2 ^ 16 = 2 ^ 1 * (r.toNat % 2 ^ 15) := by
    rw [Nat.shiftLeft_eq]
    omega
  rw [shiftBit, UInt16.toNat_or, hshl, hbit, heven,
    ← Nat.two_pow_add_eq_or_of_lt (Bool.toNat_lt bit)]
  have hlt := Bool.toNat_lt bit
  omega

theorem foldl_shiftBit (v : UInt16) : (msb 16 v.toNat).foldl shiftBit 0 = v := by
  have hmod (bits : List Bool) (r : UInt16) (acc : ℕ) (h : r.toNat = acc % 2 ^ 16) :
      (bits.foldl shiftBit r).toNat = shiftIn acc bits % 2 ^ 16 := by
    induction bits generalizing r acc with
    | nil => exact h
    | cons bit bits ih =>
      refine ih _ (2 * acc + bit.toNat) ?_
      rw [shiftBit_toNat, h]
      omega
  rw [← UInt16.toNat_inj, hmod _ 0 0 rfl, shiftIn_msb]
  have hlt := v.toNat_lt
  omega

/-- The bits of a register come in, up to and with the edge after the last of them. -/
theorem Bus.Is.data {cs : List Bool} {c : Bool} (hx : P x ≠ none) (hmdc : b.mdc = false)
    (h : b.Is false (P.during x (.send (c :: cs)) (.skip cs.length)) W) (rdreg : UInt16) :
    (recvData cs.length rdreg b).1 = cs.foldl shiftBit rdreg ∧
    ((recvData cs.length rdreg b).2.setMdc true).Is false (P.rest 0)
      (W ++ (c :: cs).map (⟨false, ·⟩)) := by
  have hpulled (c : Bool) (cs : List Bool) (l : ℕ) :
      (P.during x (.send (c :: cs)) (.skip l)).pulled = c := by
    rw [pulled_during fun _ => rfl]
    cases hp : P x with
    | none => exact absurd hp hx
    | some p => rfl
  have hline (b : Bus) (W : List Sample) (c : Bool) (cs : List Bool) (l : ℕ)
      (h : b.Is false (P.during x (.send (c :: cs)) (.skip l)) W) : b.line = c := by
    rw [h.line, hpulled]
  induction cs generalizing b W c rdreg with
  | nil =>
    have hrise := h.rise hmdc
    rw [hline b W c [] _ h, clock_during (.preamble 0) (.preamble 0)
      (fun _ _ => rfl) fun _ _ => rfl, during_preamble] at hrise
    exact ⟨rfl, hrise⟩
  | cons d cs ih =>
    have hrise := h.rise hmdc
    rw [hline b W c _ _ h, List.length_cons, clock_during (.send (d :: cs))
      (.skip cs.length) (fun _ _ => rfl) fun _ _ => rfl] at hrise
    have hread := hline _ _ _ _ _ hrise
    have hloop : recvData (d :: cs).length rdreg b =
        recvData cs.length (shiftBit rdreg d) ((b.setMdc true).setMdc false) := by
      rw [← hread]
      rfl
    rw [hloop, List.map_cons, List.append_cons]
    exact ih rfl hrise.fall _

theorem pre_read (hb : b.phys.Idle) (addr reg : UInt8) {s : PhyState}
    (hs : ∀ p, b.phys (field addr) = some p →
      (p.goto (.turn (field reg))).clock (field addr) true = p.goto s) :
    (((miiphyPre true addr reg b).setMdc false).tristate.setMdc true).Is false
      (b.phys.during (field addr) s (.skip 16))
      (b.wire ++ (head [true, false] addr reg).map (⟨true, ·⟩) ++ [⟨false, true⟩]) := by
  have hstart : (b.setActive.setMdio true).Is true b.phys b.wire := ⟨rfl, rfl, rfl⟩
  have hhead : b.phys.run (head [true, false] addr reg) =
      b.phys.during (field addr) (.turn (field reg)) (.skip 17) := run_head hb true addr reg
  have hsent := (hstart.outs (head [true, false] addr reg)).fall.tristate
  have hpulled : (b.phys.during (field addr) (.turn (field reg)) (.skip 17)).pulled = true := by
    rw [pulled_during fun _ => rfl]
    cases b.phys (field addr) with
    | none => rfl
    | some p => rfl
  have hrise := hsent.rise rfl
  rw [hsent.line, hhead, hpulled, clock_during _ _ hs fun _ _ => rfl] at hrise
  rw [miiphyPre_eq]
  exact hrise

theorem ticks_add (m n : ℕ) (b : Bus) : b.ticks (m + n) = (b.ticks m).ticks n := by
  induction m generalizing b with
  | zero => rw [Nat.zero_add]; rfl
  | succ m ih =>
    rw [Nat.add_right_comm]
    exact ih b.tick

theorem miiphyRead_absent (hb : b.phys.Idle) {addr : UInt8} (reg : UInt8) (value : UInt16)
    (hx : b.phys (field addr) = none) :
    ∃ b', miiphyRead addr reg value b = (-1, value, b') ∧ b'.Done b.phys.files
      (b.wire ++ (Access.read addr reg).frame b.phys.files) := by
  have hpre := pre_read hb addr reg (s := .skip 16) fun p hp => by rw [hx] at hp; cases hp
  have hline := hpre.line
  rw [pulled_during fun _ => rfl, hx] at hline
  have hskip := (hpre.skips hx).idles 15
  rw [← ticks_add] at hskip
  have hfile : b.phys.files (field addr) = none := by rw [Phys.files, hx]; rfl
  refine ⟨_, by rw [miiphyRead, if_pos hline], ?_⟩
  rw [Access.frame, hfile, ← List.append_assoc]
  have hdone := hskip.done
  rw [List.append_assoc, List.append_assoc] at hdone
  exact hdone

theorem miiphyRead_present (hb : b.phys.Idle) {addr : UInt8} (reg : UInt8) (value : UInt16)
    {p : Phy} (hx : b.phys (field addr) = some p) :
    ∃ b', miiphyRead addr reg value b = (0, p.regs (field reg), b') ∧ b'.Done b.phys.files
      (b.wire ++ (Access.read addr reg).frame b.phys.files) := by
  have hpre := pre_read hb addr reg (s := .send (false :: msb 16 (p.regs (field reg)).toNat))
    fun q hq => by rw [← Option.some.inj (hx.symm.trans hq)]; rfl
  have hline := hpre.line
  rw [pulled_during fun _ => rfl, hx] at hline
  have hthere : b.phys (field addr) ≠ none := by
    rw [hx]
    exact Option.some_ne_none p
  obtain ⟨hvalue, hdata⟩ := hpre.fall.data hthere rfl 0
  rw [foldl_shiftBit, msb_length] at hvalue
  rw [msb_length] at hdata
  set b₁ := ((miiphyPre true addr reg b).setMdc false).tristate.setMdc true with hb₁
  have hcode : miiphyRead addr reg value b =
      ((0 : ℤ), (recvData 16 0 (b₁.setMdc false)).1,
        (((recvData 16 0 (b₁.setMdc false)).2.setMdc true).setMdc false).setMdc true) := by
    rw [miiphyRead, ← hb₁]
    dsimp only
    rw [hline]
    rfl
  rw [hvalue] at hcode
  have hfile : b.phys.files (field addr) = some p.regs := by rw [Phys.files, hx]; rfl
  refine ⟨_, hcode, ?_⟩
  rw [Access.frame, hfile]
  have hdone := hdata.idle.done
  simp only [List.append_assoc] at hdone ⊢
  exact hdone

/-- An access does to the registers what it stands for, with one frame on the wire. -/
theorem Access.run_done (c : Access) (hb : b.phys.Idle) :
    (c.run b).Done (c.on b.phys.files) (b.wire ++ c.frame b.phys.files) := by
  cases c with
  | write addr reg v => exact miiphyWrite_done hb addr reg v
  | read addr reg =>
    cases hx : b.phys (field addr) with
    | none =>
      obtain ⟨b', hread, hdone⟩ := miiphyRead_absent hb reg 0 hx
      rw [Access.run, hread]
      exact hdone
    | some p =>
      obtain ⟨b', hread, hdone⟩ := miiphyRead_present hb reg 0 hx
      rw [Access.run, hread]
      exact hdone

/-! ## Runs -/

/-- A run of accesses does to the registers what it stands for, frame after frame. -/
theorem runs_done (cs : List Access) (hb : b.phys.Idle) :
    (runs cs b).phys.Idle ∧ (runs cs b).phys.files = filesOf cs b.phys.files ∧
      (runs cs b).wire = b.wire ++ framesOf cs b.phys.files := by
  induction cs generalizing b with
  | nil => exact ⟨hb, rfl, (List.append_nil _).symm⟩
  | cons c cs ih =>
    have hc := c.run_done hb
    obtain ⟨hidle, hfiles, hwire⟩ := ih hc.idle
    rw [hc.files] at hfiles hwire
    rw [hc.wire, List.append_assoc] at hwire
    exact ⟨hidle, hfiles, hwire⟩

def Files.get (f : Files) (a r : Fin 32) : Option UInt16 := (f a).map (· r)

theorem on_get {c : Access} {f : Files} {r : Fin 32} (h : field c.addr ≠ a ∨ field c.reg ≠ r) :
    (c.on f).get a r = f.get a r := by
  cases c with
  | read addr reg => rfl
  | write addr reg v =>
    unfold Files.get Access.on
    rw [Option.map_map]
    congr 1
    funext regs
    show (if a = field addr then Function.update regs (field reg) v else regs) r = regs r
    split_ifs with ha
    · have hr : r ≠ field reg := fun hr => h.elim (fun h => h ha.symm) fun h => h hr.symm
      exact Function.update_of_ne hr v regs
    · rfl

theorem filesOf_get {cs : List Access} {f : Files} {r : Fin 32}
    (h : ∀ c ∈ cs, field c.addr ≠ a ∨ field c.reg ≠ r) : (filesOf cs f).get a r = f.get a r := by
  induction cs generalizing f with
  | nil => rfl
  | cons c cs ih =>
    exact (ih fun c' hc => h c' (List.mem_cons_of_mem c hc)).trans
      (on_get (h c (List.mem_cons_self ..)))

theorem filesOf_eq_none {cs : List Access} {f : Files} (h : f a = none) :
    filesOf cs f a = none := by
  induction cs generalizing f with
  | nil => exact h
  | cons c cs ih =>
    refine ih ?_
    cases c with
    | read addr reg => exact h
    | write addr reg v => exact congrArg (Option.map _) h

theorem field_inj {x y : UInt8} (hx : x < 32) (hy : y < 32) (h : field x = field y) : x = y := by
  have hx' : x.toNat < 32 := UInt8.lt_iff_toNat_lt.mp hx
  have hy' : y.toNat < 32 := UInt8.lt_iff_toNat_lt.mp hy
  have hval : x.toNat % 32 = y.toNat % 32 := congrArg Fin.val h
  rw [Nat.mod_eq_of_lt hx', Nat.mod_eq_of_lt hy'] at hval
  exact UInt8.toNat_inj.mp hval

theorem files_eq_none : P.files a = none ↔ P a = none := Option.map_eq_none_iff

/-- **What was written is read back**, every access is one frame of the clause on the wire, and
an absent PHY is reported with the value and the wire left alone. -/
theorem miiphy_round_trip (hb : b.phys.Idle) {addr reg : UInt8} (haddr : addr < 32)
    (hreg : reg < 32) (v x : UInt16) {others : List Access}
    (hothers : ∀ c ∈ others, c.addr < 32 ∧ c.reg < 32 ∧ (c.addr ≠ addr ∨ c.reg ≠ reg)) :
    (b.phys (field addr) ≠ none → (miiphyWrite addr reg v b).1 = 0 ∧
      ∃ b', miiphyRead addr reg x (runs others (miiphyWrite addr reg v b).2) = (0, v, b')) ∧
    (b.phys (field addr) = none → ∀ cs, ∃ b', miiphyRead addr reg x (runs cs b) = (-1, x, b') ∧
      b'.active = false) ∧
    ∀ cs, (runs cs b).wire = b.wire ++ framesOf cs b.phys.files := by
  refine ⟨fun hthere => ⟨rfl, ?_⟩, fun habsent cs => ?_, fun cs => (runs_done cs hb).2.2⟩
  · have hwrite := miiphyWrite_done hb addr reg v
    obtain ⟨hidle, hfiles, -⟩ := runs_done others hwrite.idle
    rw [hwrite.files] at hfiles
    have hapart : ∀ c ∈ others, field c.addr ≠ field addr ∨ field c.reg ≠ field reg := by
      intro c hc
      obtain ⟨ha, hr, hne⟩ := hothers c hc
      exact hne.imp (fun h heq => h (field_inj ha haddr heq)) fun h heq =>
        h (field_inj hr hreg heq)
    have hget := filesOf_get (f := (Access.write addr reg v).on b.phys.files) hapart
    rw [← hfiles] at hget
    obtain ⟨p, hp⟩ := Option.ne_none_iff_exists'.mp hthere
    have hset : ((Access.write addr reg v).on b.phys.files).get (field addr) (field reg) =
        some v := by
      simp [Files.get, Access.on, Phys.files, hp]
    rw [hset] at hget
    obtain ⟨regs, hregs, hv⟩ := Option.map_eq_some_iff.mp hget
    obtain ⟨q, hq, rfl⟩ := Option.map_eq_some_iff.mp hregs
    obtain ⟨b', hread, -⟩ := miiphyRead_present hidle reg x hq
    rw [hv] at hread
    exact ⟨b', hread⟩
  · obtain ⟨hidle, hfiles, -⟩ := runs_done cs hb
    have hnone : (runs cs b).phys (field addr) = none := by
      rw [← files_eq_none, hfiles]
      exact filesOf_eq_none (files_eq_none.mpr habsent)
    obtain ⟨b', hread, hdone⟩ := miiphyRead_absent hidle reg x hnone
    exact ⟨b', hread, hdone.released⟩

def samplePhy : Phy := ⟨0, Nat.zero_le 32, fun _ => 0, .preamble 0⟩

def sampleBus : Bus where
  active := false
  mdio := false
  mdc := true
  phys := fun a => if a = 1 then some samplePhy else none
  wire := []

theorem sampleBus_idle : sampleBus.phys.Idle := by
  intro a p hp
  obtain ⟨-, hp⟩ := Option.ite_none_right_eq_some.mp hp
  obtain rfl := Option.some.inj hp
  exact ⟨0, rfl⟩

theorem miiphy_round_trip_sample : (miiphyWrite 1 4 0xBEEF sampleBus).1 = 0 ∧
    ∃ b', miiphyRead 1 4 0 (runs [.read 2 3, .write 1 5 7, .write 2 4 9]
      (miiphyWrite 1 4 0xBEEF sampleBus).2) = (0, 0xBEEF, b') :=
  (miiphy_round_trip sampleBus_idle (by decide) (by decide) 0xBEEF 0 (by decide)).1
    (Option.some_ne_none _)

end UBoot.Mii
