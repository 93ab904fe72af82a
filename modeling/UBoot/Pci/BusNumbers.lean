import UBoot.Pci.Scan

/-!
# Bus numbers (`drivers/pci.c`, `drivers/pci_auto.c`)

`Numbered` is the numbering law of a tree of bridges. The bus behind a bridge gets the number of
the bridge's bus plus one, and `pci_hose_scan_bus` returns the number it was called with: no scan
passes on how many buses it found. So all bridges of a bus get the same secondary number, and a
bridge's subordinate number is its secondary number.

`scan_spec` says what the scan of a bus does to the registers above it and on it, and that cycles
go where they should throughout (`Aligned`). `pci_numbering_exact` says for which trees the law
holds.
-/

namespace UBoot.Pci

variable {α : Type}

def State.reset (a : α) : State α := ⟨fun _ _ => ⟨0, 0, 0⟩, a⟩

structure Numbered (T : Topology) (first : ℕ) (r : List ℕ → ℕ → BusRegs) : Prop where
  distinct : ∀ {p d q e}, T.isBridge p d → T.isBridge q e →
    (r p d).secondary = (r q e).secondary → p = q ∧ d = e
  ne_host : ∀ {p d}, T.isBridge p d → (r p d).secondary ≠ first
  ordered : ∀ {p d}, T.isBridge p d → (r p d).secondary ≤ (r p d).subordinate
  nested : ∀ {p d q e}, T.isBridge p d → T.isBridge q e → (d :: p) <:+ q →
    (r p d).secondary < (r q e).secondary ∧ (r q e).secondary ≤ (r p d).subordinate ∧
    (r p d).secondary < (r q e).subordinate ∧ (r q e).subordinate ≤ (r p d).subordinate
  siblings : ∀ {p d e}, T.isBridge p d → T.isBridge p e → d ≠ e →
    (r p d).subordinate < (r p e).secondary ∨ (r p e).subordinate < (r p d).secondary

/-! ## The way of a cycle -/

section
variable {r : List ℕ → ℕ → BusRegs} {p q : List ℕ} {d e : ℕ} {v : BusRegs}

@[simp] theorem Hose.setRegs_self : Hose.setRegs r p d v p d = v := if_pos ⟨rfl, rfl⟩

theorem Hose.setRegs_of_ne (h : ¬ (q = p ∧ e = d)) : Hose.setRegs r p d v q e = r q e := if_neg h

theorem Hose.setRegs_above (h : q.length < p.length) : Hose.setRegs r p d v q e = r q e := by
  refine Hose.setRegs_of_ne ?_
  rintro ⟨rfl, -⟩
  exact absurd h (Nat.lt_irrefl _)

theorem Hose.setRegs_setRegs {w : BusRegs} :
    Hose.setRegs (Hose.setRegs r p d v) p d w = Hose.setRegs r p d w := by
  funext q e
  by_cases hqe : q = p ∧ e = d
  · obtain ⟨rfl, rfl⟩ := hqe
    rw [Hose.setRegs_self, Hose.setRegs_self]
  · rw [Hose.setRegs_of_ne hqe, Hose.setRegs_of_ne hqe, Hose.setRegs_of_ne hqe]

end

namespace Hose

variable (h : Hose α) {r r' : List ℕ → ℕ → BusRegs} {p q : List ℕ} {d e k m n : ℕ} {s : State α}

/-- A bridge that leads down from fewer than `m` others is as after the reset, or its secondary
number is that of its bus plus one. -/
def Aligned (m : ℕ) (r : List ℕ → ℕ → BusRegs) : Prop :=
  ∀ ⦃p d⦄, p.length < m → h.topo.isBridge p d →
    (r p d).secondary = h.firstBusno + p.length + 1 ∨
    ((r p d).secondary = 0 ∧ (r p d).subordinate = 0)

variable {h}

theorem Aligned.mono (ha : h.Aligned n r) (hm : m ≤ n) : h.Aligned m r :=
  fun _ _ hp hb => ha (Nat.lt_of_lt_of_le hp hm) hb

theorem Aligned.congr (ha : h.Aligned m r) (hr : ∀ p d, p.length < m → r' p d = r p d) :
    h.Aligned m r' := fun p d hp hb => by
  rw [hr p d hp]
  exact ha hp hb

/-- A number is written to a bridge of the bus that it names. -/
theorem Aligned.setRegs {v : BusRegs} (ha : h.Aligned m r)
    (hv : v.secondary = h.firstBusno + p.length + 1) : h.Aligned m (setRegs r p d v) := by
  intro q e hq hqb
  by_cases hqe : q = p ∧ e = d
  · obtain ⟨rfl, rfl⟩ := hqe
    rw [setRegs_self]
    exact .inl hv
  · rw [setRegs_of_ne hqe]
    exact ha hq hqb

theorem mem_claimants : d ∈ h.claimants r p n ↔
    d < 256 ∧ h.topo.isBridge p d ∧ (r p d).secondary ≤ n ∧ n ≤ (r p d).subordinate := by
  rw [claimants, List.mem_filter, List.mem_range, Bool.and_eq_true, Bool.and_eq_true,
    decide_eq_true_eq, decide_eq_true_eq]

/-- The bridge that answers to the number of a bus farther down is set up. -/
theorem Aligned.secondary (ha : h.Aligned m r) (hp : p.length < m)
    (hn : h.firstBusno + p.length < n) (hd : h.arbiter.pick (h.claimants r p n) = some d) :
    (r p d).secondary = h.firstBusno + p.length + 1 := by
  obtain ⟨-, hb, hle, hle'⟩ := mem_claimants.mp (h.arbiter.pick_mem hd)
  rcases ha hp hb with hs | ⟨hs, hs'⟩ <;> omega

theorem forward_length (ha : h.Aligned m r) (hp : p.length < m)
    (hq : h.forward r (h.firstBusno + m) k p = some q) : q.length = m := by
  induction k generalizing p with
  | zero => cases hq
  | succ k ih =>
    rw [forward] at hq
    split at hq
    · cases hq
    · rename_i d hd
      have hs := ha.secondary hp (by omega) hd
      split at hq
      · obtain rfl := Option.some.inj hq
        rw [List.length_cons]
        omega
      · exact ih (by rw [List.length_cons]; omega) hq

/-- A cycle for the bus number `m` above the first reaches a bus `m` bridges down. -/
theorem route_length (ha : h.Aligned m r) (hq : h.route r (h.firstBusno + m) = some q) :
    q.length = m := by
  rw [route] at hq
  split at hq
  · obtain rfl := Option.some.inj hq
    rw [List.length_nil]
    omega
  · exact forward_length ha (by rw [List.length_nil]; omega) hq

theorem forward_congr (ha : h.Aligned m r) (hr : ∀ p d, p.length < m → r' p d = r p d)
    (hp : p.length < m) :
    h.forward r' (h.firstBusno + m) k p = h.forward r (h.firstBusno + m) k p := by
  induction k generalizing p with
  | zero => rfl
  | succ k ih =>
    have hc : h.claimants r' p (h.firstBusno + m) = h.claimants r p (h.firstBusno + m) :=
      List.filter_congr fun d _ => by rw [hr p d hp]
    rw [forward, forward, hc]
    cases hd : h.arbiter.pick (h.claimants r p (h.firstBusno + m)) with
    | none => rfl
    | some d =>
      have hs := ha.secondary hp (by omega) hd
      simp only [hr p d hp]
      split
      · rfl
      · exact ih (by rw [List.length_cons]; omega)

/-- The way depends only on the bridges above the bus. -/
theorem route_congr (ha : h.Aligned m r) (hr : ∀ p d, p.length < m → r' p d = r p d) :
    h.route r' (h.firstBusno + m) = h.route r (h.firstBusno + m) := by
  rw [route, route]
  split
  · rfl
  · exact forward_congr ha hr (by rw [List.length_nil]; omega)

theorem pciBus_of_le (hm : m ≤ h.topo.depth) :
    pciBus (h.firstBusno + m) = h.firstBusno + m := by
  have := h.buses
  rw [pciBus, Nat.mod_eq_of_lt (by omega)]

theorem writeRegs_of_route {u : BusRegs → BusRegs} (a : α) (hm : m ≤ h.topo.depth)
    (hroute : h.route s.regs (h.firstBusno + m) = some p) (hb : h.topo.isBridge p d) :
    (h.writeRegs ⟨s.regs, a⟩ (h.firstBusno + m) d u).regs =
      setRegs s.regs p d (u (s.regs p d)) := by
  rw [writeRegs, pciBus_of_le hm, hroute]
  simp only [if_pos hb]

theorem writeRegs_of_not_bridge {u : BusRegs → BusRegs} (a : α) (hm : m ≤ h.topo.depth)
    (hroute : h.route s.regs (h.firstBusno + m) = some p) (hb : ¬ h.topo.isBridge p d) :
    (h.writeRegs ⟨s.regs, a⟩ (h.firstBusno + m) d u).regs = s.regs := by
  rw [writeRegs, pciBus_of_le hm, hroute]
  simp only [if_neg hb]

/-! ## One function -/

/-- What the scan leaves in a bridge that leads down from `m` others. -/
def numbers (h : Hose α) (m : ℕ) : BusRegs :=
  ⟨h.firstBusno + m, h.firstBusno + m + 1, h.firstBusno + m + 1⟩

/-- What a scan of the bus `m` above the first does: cycles go where they should when it is done,
and the bridges above the bus are as they were. -/
def ScanSpec (h : Hose α) (m : ℕ) (scanBus : State α → ℕ → Option (ℕ × State α)) : Prop :=
  ∀ s, h.Aligned h.topo.depth s.regs → ∃ s',
    scanBus s (h.firstBusno + m) = some (h.firstBusno + m, s') ∧
    h.Aligned h.topo.depth s'.regs ∧ ∀ p d, p.length < m → s'.regs p d = s.regs p d

/-- What a bridge has before the scan of the bus behind it. -/
def opened (h : Hose α) (m : ℕ) : BusRegs := ⟨h.firstBusno + m, h.firstBusno + m + 1, 0xff⟩

theorem prescan_regs (ha : h.Aligned m s.regs) (hm : m < h.topo.depth)
    (hroute : h.route s.regs (h.firstBusno + m) = some p) (hb : h.topo.isBridge p d) :
    (h.pciautoPrescanSetupBridge (h.pciautoSetupDevice s (h.firstBusno + m) d)
      (h.firstBusno + m) d (h.firstBusno + m)).regs = setRegs s.regs p d (h.opened m) := by
  have hbuses := h.buses
  have hlen := route_length ha hroute
  -- the BARs, of which no cycle on the way to the bridge takes notice
  have hdev : (h.pciautoSetupDevice s (h.firstBusno + m) d).regs =
      setRegs s.regs p d (h.setupDevice s (h.firstBusno + m) d).2 :=
    writeRegs_of_route _ hm.le hroute hb
  have hroute' : h.route (h.pciautoSetupDevice s (h.firstBusno + m) d).regs (h.firstBusno + m) =
      some p := by
    rw [hdev, route_congr ha fun q e hq => setRegs_above (hlen ▸ hq), hroute]
  rw [pciautoPrescanSetupBridge, writeRegs_of_route _ hm.le hroute' hb, pciBus_of_le hm.le,
    Nat.mod_eq_of_lt (by omega)]
  simp only [hdev, setRegs_setRegs, opened]

theorem postscan_regs (hm : m < h.topo.depth)
    (hroute : h.route s.regs (h.firstBusno + m) = some p) (hb : h.topo.isBridge p d)
    (hopen : s.regs p d = h.opened m) :
    (h.pciautoPostscanSetupBridge s (h.firstBusno + m) d (h.firstBusno + m + 1)).regs =
      setRegs s.regs p d (h.numbers m) := by
  have hbuses := h.buses
  rw [pciautoPostscanSetupBridge, writeRegs_of_route _ hm.le hroute hb,
    Nat.mod_eq_of_lt (by omega)]
  simp only [hopen, opened, numbers]

theorem bridge_spec {scanBus : State α → ℕ → Option (ℕ × State α)} {f : PciFn}
    (hm : m < h.topo.depth) (hscan : h.ScanSpec (m + 1) scanBus)
    (ha : h.Aligned h.topo.depth s.regs) (hroute : h.route s.regs (h.firstBusno + m) = some p)
    (hb : h.topo.isBridge p d) (hf : f.isBridge) : ∃ s',
    h.pciautoConfigDevice scanBus s (h.firstBusno + m) d f = some s' ∧
    h.Aligned h.topo.depth s'.regs ∧
    ∀ q e, q.length ≤ m → s'.regs q e = setRegs s.regs p d (h.numbers m) q e := by
  have hlen := route_length (ha.mono hm.le) hroute
  have hpre := prescan_regs (ha.mono hm.le) hm hroute hb
  rw [pciautoConfigDevice, if_pos hf, pciBus_of_le hm.le]
  dsimp only
  generalize h.pciautoPrescanSetupBridge _ _ _ _ = s1 at hpre
  have ha1 : h.Aligned h.topo.depth s1.regs := hpre ▸ ha.setRegs (by rw [hlen, opened])
  -- the scan behind the bridge, after which a cycle still reaches it
  obtain ⟨s2, hs2, ha2, hkeep⟩ := hscan s1 ha1
  have hroute2 : h.route s2.regs (h.firstBusno + m) = some p := by
    rw [route_congr (ha.mono hm.le) fun q e hq => ?_, hroute]
    rw [hkeep q e (by omega), hpre, setRegs_above (hlen ▸ hq)]
  have hopen : s2.regs p d = h.opened m := by
    rw [hkeep p d (by omega), hpre, setRegs_self]
  have hpost := postscan_regs hm hroute2 hb hopen
  rw [← Nat.add_assoc] at hs2
  rw [hs2, Option.map_some]
  refine ⟨_, rfl, hpost ▸ ha2.setRegs (by rw [hlen, numbers]), fun q e hq => ?_⟩
  rw [hpost]
  by_cases hqe : q = p ∧ e = d
  · obtain ⟨rfl, rfl⟩ := hqe
    rw [setRegs_self, setRegs_self]
  · rw [setRegs_of_ne hqe, setRegs_of_ne hqe, hkeep q e (by omega), hpre, setRegs_of_ne hqe]

theorem config_spec {scanBus : State α → ℕ → Option (ℕ × State α)} {f : PciFn}
    (hm : m ≤ h.topo.depth) (hrec : h.topo.isBridge p d → h.ScanSpec (m + 1) scanBus)
    (ha : h.Aligned h.topo.depth s.regs) (hroute : h.route s.regs (h.firstBusno + m) = some p)
    (hf : h.topo.fn p d = some f) : ∃ s',
    h.pciautoConfigDevice scanBus s (h.firstBusno + m) d f = some s' ∧
    h.Aligned h.topo.depth s'.regs ∧
    ∀ q e, q.length ≤ m →
      s'.regs q e = if (q = p ∧ e = d) ∧ h.topo.isBridge p d then h.numbers m else s.regs q e := by
  have hiff : h.topo.isBridge p d ↔ f.isBridge := by
    rw [Topology.isBridge, hf, Option.any_some]
  by_cases hb : h.topo.isBridge p d
  · have hdepth := h.topo.bridge_depth hf (hiff.mp hb)
    rw [route_length (ha.mono hm) hroute] at hdepth
    obtain ⟨s', hs', ha', hregs⟩ := bridge_spec hdepth (hrec hb) ha hroute hb (hiff.mp hb)
    refine ⟨s', hs', ha', fun q e hq => ?_⟩
    rw [hregs q e hq, setRegs]
    exact if_congr (and_iff_left hb).symm rfl rfl
  · have hs : (h.pciautoSetupDevice s (h.firstBusno + m) d).regs = s.regs :=
      writeRegs_of_not_bridge _ hm hroute hb
    rw [pciautoConfigDevice, if_neg fun hc => hb (hiff.mpr hc)]
    refine ⟨_, rfl, by rwa [hs], fun q e _ => ?_⟩
    rw [hs, if_neg fun hc => hb hc.2]

/-! ## One bus -/

/-- An invariant of the turns of a loop over a range, none of which fails. -/
theorem exists_foldlM_range {β : Type} {f : β → ℕ → Option β} (P : ℕ → β → Prop) {b : β} {n : ℕ}
    (h0 : P 0 b) (hstep : ∀ i < n, ∀ b, P i b → ∃ b', f b i = some b' ∧ P (i + 1) b') :
    ∃ b', (List.range n).foldlM f b = some b' ∧ P n b' := by
  induction n with
  | zero => exact ⟨b, rfl, h0⟩
  | succ n ih =>
    obtain ⟨b₁, hb₁, hP₁⟩ := ih fun i hi => hstep i (by omega)
    obtain ⟨b₂, hb₂, hP₂⟩ := hstep n (by omega) b₁ hP₁
    refine ⟨b₂, ?_, hP₂⟩
    rw [List.range_succ, List.foldlM_append, hb₁]
    simp only [Option.bind_eq_bind, Option.bind_some, List.foldlM_cons, List.foldlM_nil, hb₂]
    rfl

theorem scan_spec (hm : m ≤ h.topo.depth) (hk : h.topo.depth < k + m) :
    h.ScanSpec m (h.pciHoseScanBus k) := by
  induction k generalizing m with
  | zero => omega
  | succ k ih =>
    intro s ha
    obtain ⟨st, hst, ha', hkeep⟩ := exists_foldlM_range
      (f := h.scanFn (h.pciHoseScanBus k) (h.firstBusno + m)) (b := (false, s)) (n := 31 * 8 + 7)
      (fun _ st => h.Aligned h.topo.depth st.2.regs ∧
        ∀ p d, p.length < m → st.2.regs p d = s.regs p d)
      ⟨ha, fun _ _ _ => rfl⟩ fun i _ st ⟨ha, hkeep⟩ => by
        rw [scanFn]
        split
        · exact ⟨st, rfl, ha, hkeep⟩
        split
        · exact ⟨st, rfl, ha, hkeep⟩
        split
        · rename_i f hf
          rw [fnAt, pciBus_of_le hm] at hf
          obtain ⟨p, hroute, hf⟩ := Option.bind_eq_some_iff.mp hf
          have hlen := route_length (ha.mono hm) hroute
          obtain ⟨s', hs', ha', hregs⟩ := config_spec hm (fun hb => by
            obtain ⟨g, hg, hgb⟩ := Topology.isBridge_iff.mp hb
            have := h.topo.bridge_depth hg hgb
            exact ih (by omega) (by omega)) ha hroute hf
          rw [hs']
          refine ⟨_, rfl, ha', fun q e hq => ?_⟩
          rw [hregs q e (by omega), if_neg fun hc => ?_, hkeep q e hq]
          rw [hc.1.1] at hq
          omega
        · exact ⟨st, rfl, ha, hkeep⟩
    refine ⟨st.2, ?_, ha', hkeep⟩
    rw [pciHoseScanBus, hst, Option.map_some]

/-- Function `d` of the first bus belongs to the device of the host bridge, which is skipped. -/
def OnHost (h : Hose α) (d : ℕ) : Prop := h.ppc405gp = false ∧ d < 8

/-- What the loop over the first bus knows after `i` turns: the bridges it has seen have their
numbers, and within a device it knows what function 0 says of others. -/
structure HostInv (h : Hose α) (s : State α) (i : ℕ) (st : Bool × State α) : Prop where
  aligned : h.Aligned h.topo.depth st.2.regs
  regs : ∀ d, d < i → ¬ h.OnHost d → h.topo.isBridge [] d → st.2.regs [] d = h.numbers 0
  rest : ∀ d, ¬ (d < i ∧ ¬ h.OnHost d) → st.2.regs [] d = s.regs [] d
  idle : h.OnHost i → st.1 = false
  found : ¬ h.OnHost i → i % 8 ≠ 0 → ∀ g, h.topo.fn [] (i - i % 8) = some g → st.1 = g.multi

theorem onHost_succ (hn : (n + 1) % 8 ≠ 0) : h.OnHost (n + 1) ↔ h.OnHost n :=
  and_congr_right fun _ => by omega

theorem OnHost.of_succ (hn : h.OnHost (n + 1)) : h.OnHost n := ⟨hn.1, by have := hn.2; omega⟩

/-- A turn that skips a function that is no bridge, or is on the host's device. -/
theorem HostInv.skip {st : Bool × State α} (hi : h.HostInv s n st)
    (hb : ¬ h.OnHost n → ¬ h.topo.isBridge [] n)
    (h0 : ¬ h.OnHost n → n % 8 = 0 → h.topo.fn [] n = none) : h.HostInv s (n + 1) st := by
  refine ⟨hi.aligned, fun d hd hno hbr => ?_, fun d hd => ?_, fun hon => hi.idle hon.of_succ,
    fun hno hmod g hg => ?_⟩
  · have hne : d ≠ n := fun hdn => hb (hdn ▸ hno) (hdn ▸ hbr)
    exact hi.regs d (by omega) hno hbr
  · exact hi.rest d fun hc => hd ⟨by omega, hc.2⟩
  · have hbase : n + 1 - (n + 1) % 8 = n - n % 8 := by omega
    rw [hbase] at hg
    rw [onHost_succ hmod] at hno
    by_cases hn : n % 8 = 0
    · rw [hn, Nat.sub_zero, h0 hno hn] at hg
      cases hg
    · exact hi.found hno hn g hg

theorem HostInv.config {st : Bool × State α} {s' : State α} {f : PciFn} (hi : h.HostInv s n st)
    (hno : ¬ h.OnHost n) (hf : h.topo.fn [] n = some f) (ha : h.Aligned h.topo.depth s'.regs)
    (hregs : ∀ d, s'.regs [] d =
      if d = n ∧ h.topo.isBridge [] n then h.numbers 0 else st.2.regs [] d) :
    h.HostInv s (n + 1) (if n % 8 = 0 then f.multi else st.1, s') := by
  refine ⟨ha, fun d hd hno' hbr => ?_, fun d hd => ?_, fun hon => absurd hon.of_succ hno,
    fun _ hmod g hg => ?_⟩
  · by_cases hdn : d = n
    · exact (hregs d).trans (if_pos ⟨hdn, hdn ▸ hbr⟩)
    · exact ((hregs d).trans (if_neg fun hc => hdn hc.1)).trans (hi.regs d (by omega) hno' hbr)
  · have hdn : d ≠ n := fun hdn => hd ⟨by omega, hdn ▸ hno⟩
    exact ((hregs d).trans (if_neg fun hc => hdn hc.1)).trans
      (hi.rest d fun hc => hd ⟨by omega, hc.2⟩)
  · have hbase : n + 1 - (n + 1) % 8 = n - n % 8 := by omega
    rw [hbase] at hg
    dsimp only
    split_ifs with hn
    · rw [hn, Nat.sub_zero, hf] at hg
      rw [Option.some.inj hg]
    · exact hi.found hno hn g hg

theorem HostInv.step {st : Bool × State α} (hi : h.HostInv s n st) :
    ∃ st', h.scanFn (h.pciHoseScanBus h.topo.depth) h.firstBusno st n = some st' ∧
      h.HostInv s (n + 1) st' := by
  have hroute : h.route st.2.regs (h.firstBusno + 0) = some [] := if_pos rfl
  rw [scanFn]
  split
  · -- the host bridge
    rename_i hskip
    simp only [Bool.and_eq_true, Bool.not_eq_true', beq_iff_eq] at hskip
    have hon : h.OnHost n := ⟨hskip.1.1, by omega⟩
    exact ⟨st, rfl, hi.skip (absurd hon) (absurd hon)⟩
  rename_i hhost
  simp only [Bool.and_eq_true, Bool.not_eq_true', beq_self_eq_true, and_true, beq_iff_eq,
    not_and] at hhost
  split
  · -- a function of a device that has no others
    rename_i hskip
    simp only [Bool.and_eq_true, bne_iff_ne, Bool.not_eq_true'] at hskip
    refine ⟨st, rfl, hi.skip (fun hno hb => ?_) fun _ h0 => absurd h0 hskip.1⟩
    obtain ⟨f, hf, hfb⟩ := Topology.isBridge_iff.mp hb
    obtain ⟨g, hg, hgm⟩ := h.topo.multi hf hskip.1
    have hmulti := hi.found hno hskip.1 g hg
    rw [hskip.2, hgm] at hmulti
    exact absurd hmulti Bool.false_ne_true
  rename_i hfirst
  simp only [Bool.and_eq_true, bne_iff_ne, Bool.not_eq_true', not_and] at hfirst
  have hno : ¬ h.OnHost n := fun hon => hfirst
    (fun h0 => hhost hon.1 (by have := hon.2; omega)) (hi.idle hon)
  have hfn : h.fnAt st.2 (pciBus h.firstBusno) n = h.topo.fn [] n := by
    have hbus := pciBus_of_le (h := h) (Nat.zero_le _)
    rw [Nat.add_zero] at hbus hroute
    rw [fnAt, hbus, hroute, Option.bind_some]
  rw [hfn]
  cases hf : h.topo.fn [] n with
  | none =>
    refine ⟨st, rfl, hi.skip (fun _ hb => ?_) fun _ _ => hf⟩
    obtain ⟨f, hf', -⟩ := Topology.isBridge_iff.mp hb
    rw [hf] at hf'
    cases hf'
  | some f =>
    have hrec : h.topo.isBridge [] n → h.ScanSpec (0 + 1) (h.pciHoseScanBus h.topo.depth) := by
      intro hb
      obtain ⟨g, hg, hgb⟩ := Topology.isBridge_iff.mp hb
      exact scan_spec (h.topo.bridge_depth hg hgb) (Nat.lt_succ_self _)
    obtain ⟨s', hs', ha, hregs⟩ := config_spec (Nat.zero_le _) hrec hi.aligned hroute hf
    rw [Nat.add_zero] at hs'
    simp only [hs', Option.map_some]
    refine ⟨_, rfl, hi.config hno hf ha fun d => ?_⟩
    simpa only [true_and] using hregs [] d (Nat.le_refl _)

/-- Function `d` of the first bus is left out by the scan. -/
def Skips (h : Hose α) (d : ℕ) : Prop := d = 255 ∨ h.OnHost d

structure FirstBus (h : Hose α) (r : List ℕ → ℕ → BusRegs) : Prop where
  numbered : ∀ {d}, h.topo.isBridge [] d → ¬ h.Skips d →
    (r [] d).secondary = h.firstBusno + 1 ∧ (r [] d).subordinate = h.firstBusno + 1
  skipped : ∀ {d}, h.Skips d → (r [] d).secondary = 0 ∧ (r [] d).subordinate = 0

/-- The scan from reset registers ends, and numbers every bridge of the first bus but those it
leaves out. -/
theorem pciHoseScan_spec (h : Hose α) (a : α) : ∃ s,
    h.pciHoseScan (State.reset a) = some (h.firstBusno, s) ∧ h.FirstBus s.regs := by
  obtain ⟨st, hst, hinv⟩ := exists_foldlM_range
    (f := h.scanFn (h.pciHoseScanBus h.topo.depth) h.firstBusno) (b := (false, State.reset a))
    (n := 31 * 8 + 7) (h.HostInv (State.reset a))
    ⟨fun _ _ _ _ => .inr ⟨rfl, rfl⟩, fun d hd => absurd hd (Nat.not_lt_zero d), fun _ _ => rfl,
      fun _ => rfl, fun _ hmod => absurd rfl hmod⟩
    fun _ _ _ hinv => hinv.step
  refine ⟨st.2, ?_, fun {d} hb hno => ?_, fun {d} hskip => ?_⟩
  · rw [pciHoseScan, pciHoseScanBus, hst, Option.map_some]
  · obtain ⟨f, hf, -⟩ := Topology.isBridge_iff.mp hb
    have hlt := h.topo.devfn_lt hf
    rw [Skips, not_or] at hno
    rw [hinv.regs d (by omega) hno.2 hb]
    exact ⟨rfl, rfl⟩
  · have hrest : ¬ (d < 31 * 8 + 7 ∧ ¬ h.OnHost d) := fun hc => hskip.elim (by omega) hc.2
    rw [hinv.rest d hrest]
    exact ⟨rfl, rfl⟩

end Hose

/-! ## Trees for which the law holds -/

/-- There is at most one bridge that the scan does not leave out, and at most one that it does. If
there is one of these, the first bus is not bus 0, whose number the bridge keeps from the reset,
and no bridge is behind it. -/
structure OneBridge (h : Hose α) : Prop where
  one : ∀ p d q e, h.topo.isBridge p d → h.topo.isBridge q e → ¬ (p = [] ∧ h.Skips d) →
    ¬ (q = [] ∧ h.Skips e) → p = q ∧ d = e
  skipped : ∀ d e, h.topo.isBridge [] d → h.topo.isBridge [] e → h.Skips d → h.Skips e → d = e
  alone : ∀ d, h.topo.isBridge [] d → h.Skips d → h.firstBusno ≠ 0 ∧
    ∀ q e, h.topo.isBridge q e → ¬ [d] <:+ q

/-- A bridge that is not on the first bus is behind one that is. -/
theorem exists_root {T : Topology} {p : List ℕ} {d : ℕ} (hb : T.isBridge p d) (hp : p ≠ []) :
    ∃ e, T.isBridge [] e ∧ [e] <:+ p := by
  induction p generalizing d with
  | nil => exact absurd rfl hp
  | cons x p ih =>
    obtain ⟨f, hf, -⟩ := Topology.isBridge_iff.mp hb
    have hx := Topology.isBridge_iff.mpr (T.behind hf)
    by_cases hnil : p = []
    · subst hnil
      exact ⟨x, hx, List.suffix_refl _⟩
    · obtain ⟨e, he, hsuf⟩ := ih hx hnil
      exact ⟨e, he, hsuf.trans (List.suffix_cons x p)⟩

section
variable {h : Hose α} {r : List ℕ → ℕ → BusRegs} {p : List ℕ} {d e : ℕ}

theorem Hose.FirstBus.eq (hr : h.FirstBus r) (hb : h.topo.isBridge [] d) :
    (r [] d).secondary = (r [] d).subordinate := by
  by_cases hskip : h.Skips d
  · exact (hr.skipped hskip).1.trans (hr.skipped hskip).2.symm
  · exact (hr.numbered hb hskip).1.trans (hr.numbered hb hskip).2.symm

theorem Numbered.flat (law : Numbered h.topo h.firstBusno r) (hr : h.FirstBus r)
    (hb : h.topo.isBridge p d) : p = [] := by
  by_contra hp
  obtain ⟨e, he, hsuf⟩ := exists_root hb hp
  obtain ⟨hlt, hle, -⟩ := law.nested he hb hsuf
  have heq := hr.eq he
  omega

theorem oneBridge_of_numbered (hr : h.FirstBus r) (law : Numbered h.topo h.firstBusno r) :
    OneBridge h where
  one p d q e hp hq hpd hqe := by
    obtain rfl := law.flat hr hp
    obtain rfl := law.flat hr hq
    have hd := (hr.numbered hp fun hs => hpd ⟨rfl, hs⟩).1
    have he := (hr.numbered hq fun hs => hqe ⟨rfl, hs⟩).1
    exact law.distinct hp hq (hd.trans he.symm)
  skipped d e hd he hsd hse :=
    (law.distinct hd he ((hr.skipped hsd).1.trans (hr.skipped hse).1.symm)).2
  alone d hd hsd := by
    refine ⟨fun h0 => ?_, fun q e hb hsuf => ?_⟩
    · exact law.ne_host hd ((hr.skipped hsd).1.trans h0.symm)
    · rw [law.flat hr hb] at hsuf
      exact absurd (List.suffix_nil.mp hsuf) (List.cons_ne_nil _ _)

theorem OneBridge.flat (hone : OneBridge h) (hb : h.topo.isBridge p d) : p = [] := by
  by_contra hp
  obtain ⟨e, he, hsuf⟩ := exists_root hb hp
  by_cases hskip : h.Skips e
  · exact (hone.alone e he hskip).2 p d hb hsuf
  · exact hp (hone.one [] e p d he hb (fun hc => hskip hc.2) fun hc => hp hc.1).1.symm

theorem OneBridge.cases (hone : OneBridge h) (hr : h.FirstBus r) (hb : h.topo.isBridge [] d) :
    (¬ h.Skips d ∧ (r [] d).secondary = h.firstBusno + 1 ∧
      (r [] d).subordinate = h.firstBusno + 1) ∨
    (h.Skips d ∧ h.firstBusno ≠ 0 ∧ (r [] d).secondary = 0 ∧ (r [] d).subordinate = 0) := by
  by_cases hskip : h.Skips d
  · exact .inr ⟨hskip, (hone.alone d hb hskip).1, hr.skipped hskip⟩
  · exact .inl ⟨hskip, hr.numbered hb hskip⟩

theorem OneBridge.eq_or_ne (hone : OneBridge h) (hr : h.FirstBus r) (hd : h.topo.isBridge [] d)
    (he : h.topo.isBridge [] e) : d = e ∨
      (r [] d).subordinate < (r [] e).secondary ∨ (r [] e).subordinate < (r [] d).secondary := by
  rcases hone.cases hr hd with ⟨hsd, hd1, hd2⟩ | ⟨hsd, -, hd1, hd2⟩ <;>
    rcases hone.cases hr he with ⟨hse, he1, he2⟩ | ⟨hse, -, he1, he2⟩
  · exact .inl (hone.one [] d [] e hd he (fun hc => hsd hc.2) fun hc => hse hc.2).2
  · omega
  · omega
  · exact .inl (hone.skipped d e hd he hsd hse)

theorem numbered_of_oneBridge (hr : h.FirstBus r) (hone : OneBridge h) :
    Numbered h.topo h.firstBusno r where
  distinct {p d q e} hp hq heq := by
    obtain rfl := hone.flat hp
    obtain rfl := hone.flat hq
    have hd := hr.eq hp
    have he := hr.eq hq
    exact ⟨rfl, (hone.eq_or_ne hr hp hq).resolve_right (by omega)⟩
  ne_host {p d} hb := by
    obtain rfl := hone.flat hb
    rcases hone.cases hr hb with ⟨-, hs, -⟩ | ⟨-, h0, hs, -⟩ <;> omega
  ordered {p d} hb := by
    obtain rfl := hone.flat hb
    exact (hr.eq hb).le
  nested {p d q e} hp hq hsuf := by
    rw [hone.flat hq] at hsuf
    exact absurd (List.suffix_nil.mp hsuf) (List.cons_ne_nil _ _)
  siblings {p d e} hd he hne := by
    obtain rfl := hone.flat hd
    exact (hone.eq_or_ne hr hd he).resolve_left hne

end

/-- **Which trees the scan numbers rightly.** The scan of a tree of bridges that were reset ends,
and the numbering law holds exactly for trees with at most one bridge. -/
theorem pci_numbering_exact (h : Hose α) (a : α) : ∃ s,
    h.pciHoseScan (State.reset a) = some (h.firstBusno, s) ∧
    (Numbered h.topo h.firstBusno s.regs ↔ OneBridge h) := by
  obtain ⟨s, hs, hr⟩ := h.pciHoseScan_spec a
  exact ⟨s, hs, oneBridge_of_numbered hr, numbered_of_oneBridge hr⟩

/-- Two bridges on the first bus, functions 0 of devices 1 and 2. -/
def twoBridges : Hose Unit where
  topo := {
    fn := fun p d => if p = [] ∧ (d = 8 ∨ d = 16) then some ⟨0x1011, 1, 0x0604, by decide⟩ else none
    depth := 1
    devfn_lt := fun hf => by
      have := (Option.ite_none_right_eq_some.mp hf).1
      omega
    bridge_depth := fun hf _ => by
      rw [(Option.ite_none_right_eq_some.mp hf).1.1]
      decide
    behind := fun hf => absurd (Option.ite_none_right_eq_some.mp hf).1.1 (List.cons_ne_nil _ _)
    multi := fun hf hmod => by
      have := (Option.ite_none_right_eq_some.mp hf).1
      omega }
  firstBusno := 0
  arbiter := ⟨List.head?, List.mem_of_head?, fun h => List.isSome_head?.mpr h⟩
  ppc405gp := false
  setupDevice := fun _ _ _ => ((), ⟨0xff, 0xff, 0xff⟩)
  align := id
  buses := by decide

/-- Both get the same secondary number. -/
theorem twoBridges_clash : ∃ s, twoBridges.pciHoseScan (State.reset ()) = some (0, s) ∧
    (s.regs [] 8).secondary = 1 ∧ (s.regs [] 16).secondary = 1 ∧
    ¬ Numbered twoBridges.topo 0 s.regs := by
  obtain ⟨s, hs, hr⟩ := twoBridges.pciHoseScan_spec ()
  have hb : twoBridges.topo.isBridge [] 8 ∧ twoBridges.topo.isBridge [] 16 := by decide
  have hno (d : ℕ) (hd : 8 ≤ d) (hlt : d < 255) : ¬ twoBridges.Skips d := by
    rintro (h255 | ⟨-, h8⟩) <;> omega
  have h8 := (hr.numbered hb.1 (hno 8 (by decide) (by decide))).1
  have h16 := (hr.numbered hb.2 (hno 16 (by decide) (by decide))).1
  exact ⟨s, hs, h8, h16, fun law =>
    absurd (law.distinct hb.1 hb.2 (h8.trans h16.symm)).2 (by decide)⟩

end UBoot.Pci
