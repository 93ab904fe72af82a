import UBoot.Net.Loop
import Mathlib.Dynamics.PeriodicPts.Lemmas

/-!
# Device rotation (`net/eth.c`, `net/net.c` with `CONFIG_NET_MULTI`)

The registered devices form a ring. `eth_init` and `NetStartAgain` move `eth_current` along it,
both through `eth_try_another`, which raises `NetRestartWrap` when the current device becomes
the one in `first_failed`. `Rotation` is what `NetLoop` keeps of this, and `rotStep` one step:
a handler calls `NetStartAgain`, a handler sets `NetState`, or `NetLoop` looks at it.

`first_failed` and `NetRestartWrap` outlive a call of `NetLoop`. `netLoop_gives_up` says when a
call ends in `NETLOOP_FAIL` by way of `NetStartAgain`.
-/

namespace UBoot.Net

open UBoot.Lib

/-- The ring that `eth_register` links: along `next`, every device comes after every other. -/
structure DeviceRing (D : Type) where
  next : D → D
  ring : ∀ a b, ∃ k : ℕ, next^[k] a = b

variable {D : Type}

/-- A walk of `k + 1` steps that ends where it began has met every device. -/
theorem DeviceRing.exists_le_of_back (R : DeviceRing D) {f : D} {k : ℕ} (h : R.next^[k + 1] f = f)
    (d : D) : ∃ j ≤ k, R.next^[j] f = d := by
  obtain ⟨m, rfl⟩ := R.ring f d
  refine ⟨m % (k + 1), Nat.lt_succ_iff.mp (Nat.mod_lt _ k.succ_pos), ?_⟩
  exact Function.IsPeriodicPt.iterate_mod_apply h m

theorem DeviceRing.exists_back [Fintype D] (R : DeviceRing D) (f : D) :
    ∃ k < Fintype.card D, R.next^[k + 1] f = f := by
  obtain ⟨m, hm⟩ := R.ring (R.next f) f
  have hper : Function.IsPeriodicPt R.next (m + 1) f := hm
  have hpos := hper.minimalPeriod_pos m.succ_pos
  refine ⟨Function.minimalPeriod R.next f - 1, ?_, ?_⟩
  · have := Function.minimalPeriod_le_card (f := R.next) (x := f)
    omega
  · rw [Nat.sub_add_cancel hpos]
    exact Function.iterate_minimalPeriod

/-! ## `eth.c` -/

/-- The pointers of `eth.c`, with `NetRestartWrap`. -/
structure Eth (D : Type) where
  ethCurrent : D
  firstFailed : Option D
  netRestartWrap : Bool
  /-- the devices that were current since `NetLoop` was called -/
  visited : List D

section
variable [DecidableEq D] (R : DeviceRing D)

def ethTryAnother (firstRestart : Bool) (e : Eth D) : Eth D :=
  let e := if firstRestart then { e with firstFailed := some e.ethCurrent } else e
  let e := { e with ethCurrent := R.next e.ethCurrent, visited := R.next e.ethCurrent :: e.visited }
  if e.firstFailed = some e.ethCurrent then { e with netRestartWrap := true } else e

/-- The loop of `eth_init`, for at most the given number of rounds. `init` says which devices
come up. -/
def ethInitLoop (init : D → Bool) (oldCurrent : D) : ℕ → Eth D → Eth D
  | 0, e => e
  | rounds + 1, e =>
    if init e.ethCurrent then e
    else
      let e := ethTryAnother R false e
      if oldCurrent ≠ e.ethCurrent then ethInitLoop init oldCurrent rounds e else e

/-- `eth_init`; no device is tried twice. -/
def ethInit [Fintype D] (init : D → Bool) (e : Eth D) : Eth D :=
  ethInitLoop R init e.ethCurrent (Fintype.card D) e

theorem ethTryAnother_eq (b : Bool) (e : Eth D) :
    ethTryAnother R b e =
      let failed := if b then some e.ethCurrent else e.firstFailed
      ⟨R.next e.ethCurrent, failed,
        e.netRestartWrap || decide (failed = some (R.next e.ethCurrent)),
        R.next e.ethCurrent :: e.visited⟩ := by
  obtain ⟨current, failed, wrap, visited⟩ := e
  cases b <;> simp only [ethTryAnother, Bool.false_eq_true, if_false, if_true] <;>
    split_ifs with h <;> simp [h]

variable {R}

theorem ethInitLoop_succ (init : D → Bool) (old : D) (rounds : ℕ) (e : Eth D) :
    ethInitLoop R init old (rounds + 1) e =
      if init e.ethCurrent then e
      else if old ≠ R.next e.ethCurrent then ethInitLoop R init old rounds (ethTryAnother R false e)
      else ethTryAnother R false e := by
  rw [ethInitLoop, ethTryAnother_eq]

theorem ethInit_keeps [Fintype D] {I : Eth D → Prop} (h : ∀ e, I e → I (ethTryAnother R false e))
    {init : D → Bool} {e : Eth D} (he : I e) : I (ethInit R init e) := by
  unfold ethInit
  generalize e.ethCurrent = old
  generalize Fintype.card D = rounds
  induction rounds generalizing e with
  | zero => exact he
  | succ rounds ih =>
    rw [ethInitLoop_succ]
    split_ifs
    · exact he
    · exact ih (h e he)
    · exact h e he

theorem ethInitLoop_back {init : D → Bool} {old : D} {k : ℕ} (more : ℕ) {e : Eth D}
    (h : R.next^[k + 1] e.ethCurrent = old) :
    ethInitLoop R init old (k + 1 + more) e = ethInitLoop R init old (k + 1) e := by
  induction k generalizing e with
  | zero =>
    have hnext : ¬ old ≠ R.next e.ethCurrent := not_not.mpr h.symm
    rw [Nat.add_comm, ← Nat.add_assoc, ethInitLoop_succ, ethInitLoop_succ, if_neg hnext,
      if_neg hnext]
  | succ k ih =>
    rw [Nat.add_right_comm, ethInitLoop_succ init old (k + 1 + more),
      ethInitLoop_succ init old (k + 1), ih (by rw [ethTryAnother_eq]; exact h)]

theorem ethInitLoop_returns [Fintype D] {init : D → Bool} {e : Eth D} (more : ℕ) :
    ethInitLoop R init e.ethCurrent (Fintype.card D + more) e = ethInit R init e := by
  obtain ⟨k, hk, hback⟩ := R.exists_back e.ethCurrent
  obtain ⟨spare, hspare⟩ := Nat.exists_eq_add_of_le (Nat.succ_le_of_lt hk)
  rw [ethInit, hspare, Nat.add_assoc, ethInitLoop_back _ hback, ethInitLoop_back _ hback]

/-! ## `NetLoop` -/

end

/-- What `NetLoop` keeps of the devices and of its own progress. -/
structure Rotation (D : Type) where
  eth : Eth D
  netRestarted : Bool
  netDevExists : Bool
  netState : NetLoopState
  /-- `NetLoop` has been called and has not returned -/
  running : Bool
  /-- it was `NetStartAgain` that set `netState` to `fail` -/
  gaveUp : Bool

/-- What `net_check_prereq` finds. -/
inductive Prereq (D : Type) where
  | ready
  | notConfigured
  /-- the device has no address: `NetStartAgain` is called, and `init` is what its `eth_init`
  meets -/
  | noAddress (init : D → Bool)

inductive RotEv (D : Type) where
  | netLoop (init : D → Bool) (found : Prereq D)
  /-- a handler calls `NetStartAgain` -/
  | startAgain (init : D → Bool)
  /-- `startAgainTimeout` -/
  | startAgainTimeout
  /-- a handler is done -/
  | success
  /-- `store_block` fails -/
  | storeFail
  /-- the switch at the end of a round of the loop; `found` is used on a restart -/
  | check (found : Prereq D)
  | abort

section
variable [DecidableEq D] [Fintype D] (R : DeviceRing D)

/-- `NetStartAgain`. Where devices exist it sets a timeout, which is `startAgainTimeout`. -/
def Rotation.startAgain (init : D → Bool) (r : Rotation D) : Rotation D :=
  let e := ethInit R init (ethTryAnother R (!r.netRestarted) r.eth)
  if e.netRestartWrap then
    let r := { r with eth := { e with netRestartWrap := false } }
    if r.netDevExists then r else { r with netState := .fail, gaveUp := true }
  else { r with eth := e, netState := .restart, gaveUp := false }

/-- `NetLoop` from the label `restart` up to its loop. -/
def Rotation.restart (found : Prereq D) (r : Rotation D) : Rotation D :=
  let r := { r with netState := .continue, gaveUp := false }
  match found with
  | .ready => { r with netDevExists := true }
  | .notConfigured => { r with running := false }
  | .noAddress init => r.startAgain R init

/-- The devices after the `eth_init` that `NetLoop` begins with. -/
def Rotation.opened (init : D → Bool) (r : Rotation D) : Eth D :=
  ethInit R init { r.eth with visited := [r.eth.ethCurrent] }

def rotStep (r : Rotation D) (ev : RotEv D) : Option (Rotation D) :=
  match r.running, ev with
  | false, .netLoop init found =>
    some (Rotation.restart R found
      ⟨r.opened R init, false, false, r.netState, true, false⟩)
  | true, .startAgain init => some (r.startAgain R init)
  | true, .startAgainTimeout => some { r with netState := .restart, gaveUp := false }
  | true, .success => some { r with netState := .success, gaveUp := false }
  | true, .storeFail => some { r with netState := .fail, gaveUp := false }
  | true, .check found =>
    match r.netState with
    | .continue => some r
    | .restart => some (Rotation.restart R found { r with netRestarted := true })
    | .success => some { r with running := false }
    | .fail => some { r with running := false }
  | true, .abort => some { r with running := false }
  | _, _ => none

def RotStep (r : Rotation D) (ev : RotEv D) (r' : Rotation D) : Prop := rotStep R r ev = some r'

/-- The event is not the start of another call. -/
def RotEv.InCall : RotEv D → Prop
  | .netLoop _ _ => False
  | _ => True

end

/-- Rounds of the loop that restart, with a device that has no address each time. -/
def failing (inits : ℕ → D → Bool) (m : ℕ) : List (RotEv D) :=
  (List.range m).map fun i => .check (.noAddress (inits i))

theorem failing_succ (inits : ℕ → D → Bool) (m : ℕ) :
    failing inits (m + 1) =
      .check (.noAddress (inits 0)) :: failing (fun i => inits (i + 1)) m := by
  simp [failing, List.range_succ_eq_map]

/-! ## The way around the ring -/

section
variable [DecidableEq D] {R : DeviceRing D} {e : Eth D} {init : D → Bool}

/-- The current device was visited, and a raised wrap flag means that all were. -/
structure Eth.Honest (e : Eth D) : Prop where
  current : e.ethCurrent ∈ e.visited
  wrap : e.netRestartWrap = true → ∀ d, d ∈ e.visited

/-- All devices from `first_failed` up to the current one were visited. -/
structure Eth.Walked (R : DeviceRing D) (e : Eth D) : Prop extends e.Honest where
  walk : ∃ f k, e.firstFailed = some f ∧ R.next^[k] f = e.ethCurrent ∧
    ∀ j ≤ k, R.next^[j] f ∈ e.visited

theorem Eth.Walked.tryAnother (h : e.Walked R) : (ethTryAnother R false e).Walked R := by
  obtain ⟨⟨-, hwrap⟩, f, k, hfailed, hcurrent, hvisited⟩ := h
  have hnext : R.next^[k + 1] f = R.next e.ethCurrent := by
    rw [Function.iterate_succ_apply', hcurrent]
  have hall : ∀ j ≤ k + 1, R.next^[j] f ∈ R.next e.ethCurrent :: e.visited := by
    intro j hj
    rcases Nat.le_succ_iff.mp hj with hj | rfl
    · exact List.mem_cons_of_mem _ (hvisited j hj)
    · rw [hnext]
      exact List.mem_cons_self
  rw [ethTryAnother_eq]
  refine ⟨⟨List.mem_cons_self, fun hw d => ?_⟩, f, k + 1, hfailed, hnext, hall⟩
  rcases (Bool.or_eq_true _ _).mp hw with hw | hback
  · exact List.mem_cons_of_mem _ (hwrap hw d)
  · -- back at `first_failed`: the walk has closed
    have hback : some f = some (R.next e.ethCurrent) := by
      rw [← hfailed]
      exact of_decide_eq_true hback
    obtain ⟨j, hj, rfl⟩ := R.exists_le_of_back (hnext.trans (Option.some.inj hback).symm) d
    exact hall j (Nat.le_succ_of_le hj)

theorem Eth.Honest.tryAnother (h : e.Honest) : (ethTryAnother R true e).Walked R := by
  have hfirst : Eth.Walked R { e with firstFailed := some e.ethCurrent } :=
    ⟨⟨h.current, h.wrap⟩, e.ethCurrent, 0, rfl, rfl, fun j hj => by
      rw [Nat.le_zero.mp hj]
      exact h.current⟩
  have hstep := hfirst.tryAnother
  rw [ethTryAnother_eq] at hstep ⊢
  exact hstep

/-- From the current device, `first_failed` is at most `k + 1` steps on, or has been reached. -/
def Eth.Near (R : DeviceRing D) (k : ℕ) (e : Eth D) : Prop :=
  e.netRestartWrap = true ∨ ∃ f j, e.firstFailed = some f ∧ j ≤ k ∧ R.next^[j + 1] e.ethCurrent = f

theorem Eth.Near.tryAnother_zero (h : e.Near R 0) :
    (ethTryAnother R false e).netRestartWrap = true := by
  rw [ethTryAnother_eq]
  refine (Bool.or_eq_true _ _).mpr ?_
  rcases h with h | ⟨f, j, hf, hj, hback⟩
  · exact Or.inl h
  · obtain rfl := Nat.le_zero.mp hj
    have hnext : R.next e.ethCurrent = f := hback
    exact Or.inr (decide_eq_true (hf.trans (congrArg some hnext.symm)))

theorem Eth.Near.tryAnother {k : ℕ} (h : e.Near R (k + 1)) :
    (ethTryAnother R false e).Near R k := by
  rcases h with h | ⟨f, j, hf, hj, hback⟩
  · refine Or.inl ?_
    rw [ethTryAnother_eq]
    exact (Bool.or_eq_true _ _).mpr (Or.inl h)
  · cases j with
    | zero => exact Or.inl (Eth.Near.tryAnother_zero (Or.inr ⟨f, 0, hf, le_rfl, hback⟩))
    | succ j =>
      refine Or.inr ⟨f, j, ?_, Nat.le_of_succ_le_succ hj, ?_⟩
      · rw [ethTryAnother_eq]
        exact hf
      · rw [ethTryAnother_eq]
        exact hback

theorem Eth.Near.keeps {k : ℕ} (h : e.Near R k) : (ethTryAnother R false e).Near R k := by
  cases k with
  | zero => exact Or.inl h.tryAnother_zero
  | succ k =>
    rcases h.tryAnother with hwrap | ⟨f, j, hf, hj, hback⟩
    · exact Or.inl hwrap
    · exact Or.inr ⟨f, j, hf, Nat.le_succ_of_le hj, hback⟩

end

/-! ## One step -/

section
variable [DecidableEq D] [Fintype D] {R : DeviceRing D} {r r' : Rotation D} {init : D → Bool}
  {found : Prereq D} {ev : RotEv D}

theorem Rotation.startAgain_cases (R : DeviceRing D) (init : D → Bool) (r : Rotation D) :
    ∃ e, e = ethInit R init (ethTryAnother R (!r.netRestarted) r.eth) ∧
      (e.netRestartWrap = false ∧
          r.startAgain R init = { r with eth := e, netState := .restart, gaveUp := false } ∨
        e.netRestartWrap = true ∧ r.netDevExists = true ∧
          r.startAgain R init = { r with eth := { e with netRestartWrap := false } } ∨
        e.netRestartWrap = true ∧ r.netDevExists = false ∧
          r.startAgain R init = { r with
            eth := { e with netRestartWrap := false }, netState := .fail, gaveUp := true }) := by
  refine ⟨_, rfl, ?_⟩
  unfold Rotation.startAgain
  cases hw : (ethInit R init (ethTryAnother R (!r.netRestarted) r.eth)).netRestartWrap with
  | false => exact Or.inl ⟨rfl, by simp [hw]⟩
  | true =>
    cases hd : r.netDevExists with
    | true => exact Or.inr (Or.inl ⟨rfl, rfl, by simp [hw]⟩)
    | false => exact Or.inr (Or.inr ⟨rfl, rfl, by simp [hw]⟩)

theorem rotStep_cases (h : RotStep R r ev r') (hev : ev.InCall) :
    r.running = true ∧
      ((∃ init, r' = r.startAgain R init) ∨
        (∃ s, r' = { r with netState := s, gaveUp := false }) ∨
        (∃ found, r' = Rotation.restart R found { r with netRestarted := true }) ∨
        r' = r ∨ r' = { r with running := false }) := by
  unfold RotStep rotStep at h
  cases hrun : r.running with
  | false =>
    rw [hrun] at h
    cases ev with
    | netLoop => exact hev.elim
    | _ => cases h
  | true =>
    rw [hrun] at h
    refine ⟨rfl, ?_⟩
    cases ev with
    | netLoop => exact hev.elim
    | startAgain init => exact Or.inl ⟨init, (Option.some.inj h).symm⟩
    | startAgainTimeout => exact Or.inr (Or.inl ⟨.restart, (Option.some.inj h).symm⟩)
    | success => exact Or.inr (Or.inl ⟨.success, (Option.some.inj h).symm⟩)
    | storeFail => exact Or.inr (Or.inl ⟨.fail, (Option.some.inj h).symm⟩)
    | abort => exact Or.inr (Or.inr (Or.inr (Or.inr (Option.some.inj h).symm)))
    | check found =>
      cases hs : r.netState with
      | «continue» =>
        simp only [hs] at h
        exact Or.inr (Or.inr (Or.inr (Or.inl (Option.some.inj h).symm)))
      | restart =>
        simp only [hs] at h
        exact Or.inr (Or.inr (Or.inl ⟨found, (Option.some.inj h).symm⟩))
      | success =>
        simp only [hs] at h
        exact Or.inr (Or.inr (Or.inr (Or.inr (Option.some.inj h).symm)))
      | fail =>
        simp only [hs] at h
        exact Or.inr (Or.inr (Or.inr (Or.inr (Option.some.inj h).symm)))

theorem rotStep_netLoop (h : RotStep R r (.netLoop init found) r') :
    r' = Rotation.restart R found ⟨r.opened R init, false, false, r.netState, true, false⟩ := by
  unfold RotStep rotStep at h
  cases hrun : r.running with
  | true => rw [hrun] at h; cases h
  | false =>
    rw [hrun] at h
    exact (Option.some.inj h).symm

/-! ## Giving up -/

/-- `NetStartAgain` gave up only without a configured device. -/
def Rotation.NoDevice (r : Rotation D) : Prop := r.gaveUp = true → r.netDevExists = false

theorem Rotation.NoDevice.startAgain (h : r.NoDevice) : (r.startAgain R init).NoDevice := by
  obtain ⟨e, -, h₁ | h₁ | h₁⟩ := r.startAgain_cases R init
  · rw [h₁.2]
    exact fun hg => absurd hg Bool.false_ne_true
  · rw [h₁.2.2]
    exact h
  · rw [h₁.2.2]
    exact fun _ => h₁.2.1

theorem Rotation.noDevice_restart : (Rotation.restart R found r).NoDevice := by
  cases found with
  | noAddress init =>
    exact Rotation.NoDevice.startAgain (r := { r with netState := .continue, gaveUp := false })
      fun hg => absurd hg Bool.false_ne_true
  | _ => exact fun hg => absurd hg (by simp [Rotation.restart])

theorem Rotation.NoDevice.step (h : r.NoDevice) (hev : ev.InCall) (hstep : RotStep R r ev r') :
    r'.NoDevice := by
  obtain ⟨-, ⟨init, rfl⟩ | ⟨s, rfl⟩ | ⟨found, rfl⟩ | rfl | rfl⟩ := rotStep_cases hstep hev
  · exact h.startAgain
  · exact fun hg => absurd hg Bool.false_ne_true
  · exact Rotation.noDevice_restart
  · exact h
  · exact h

/-- While no device was configured, the walk goes on; and who gave up has met every device. -/
structure Rotation.Toured (R : DeviceRing D) (r : Rotation D) : Prop where
  noDevice : r.NoDevice
  walked : r.running = true → r.netDevExists = false → r.eth.Walked R
  gaveUp : r.gaveUp = true → ∀ d, d ∈ r.eth.visited

theorem Rotation.toured_startAgain (hno : r.NoDevice)
    (h : r.netDevExists = false → r.eth.Honest ∧ (r.netRestarted = true → r.eth.Walked R)) :
    (r.startAgain R init).Toured R := by
  have hwalk : r.netDevExists = false →
      (ethInit R init (ethTryAnother R (!r.netRestarted) r.eth)).Walked R := by
    intro hd
    refine ethInit_keeps (fun e he => he.tryAnother) ?_
    cases hr : r.netRestarted with
    | true => exact ((h hd).2 hr).tryAnother
    | false => exact (h hd).1.tryAnother
  refine ⟨hno.startAgain, ?_, ?_⟩ <;>
    obtain ⟨e, rfl, ⟨hw, heq⟩ | ⟨hw, hd, heq⟩ | ⟨hw, hd, heq⟩⟩ := r.startAgain_cases R init <;>
    rw [heq]
  · exact fun _ hd => hwalk hd
  · exact fun _ hd' => absurd (hd.symm.trans hd') (by decide)
  · obtain ⟨⟨hcurrent, -⟩, hwalked⟩ := hwalk hd
    exact fun _ _ => ⟨⟨hcurrent, fun hf => absurd hf Bool.false_ne_true⟩, hwalked⟩
  · exact fun hg => absurd hg Bool.false_ne_true
  · exact fun hg => absurd (hd.symm.trans (hno hg)) (by decide)
  · exact fun _ => (hwalk hd).wrap hw

theorem Rotation.toured_restart (h : r.netDevExists = false → r.eth.Honest ∧
      (r.netRestarted = true → r.eth.Walked R)) : (Rotation.restart R found r).Toured R := by
  cases found with
  | ready =>
    exact ⟨Rotation.noDevice_restart, fun _ hd => absurd hd.symm Bool.false_ne_true,
      fun hg => absurd hg Bool.false_ne_true⟩
  | notConfigured =>
    exact ⟨Rotation.noDevice_restart, fun hr => absurd hr Bool.false_ne_true,
      fun hg => absurd hg Bool.false_ne_true⟩
  | noAddress init =>
    exact Rotation.toured_startAgain (r := { r with netState := .continue, gaveUp := false })
      (fun hg => absurd hg Bool.false_ne_true) h

theorem Rotation.Toured.step (h : r.Toured R) (hev : ev.InCall) (hstep : RotStep R r ev r') :
    r'.Toured R := by
  obtain ⟨hrun, ⟨init, rfl⟩ | ⟨s, rfl⟩ | ⟨found, rfl⟩ | rfl | rfl⟩ := rotStep_cases hstep hev
  · exact Rotation.toured_startAgain h.noDevice fun hd =>
      ⟨(h.walked hrun hd).toHonest, fun _ => h.walked hrun hd⟩
  · exact ⟨fun hg => absurd hg Bool.false_ne_true, h.walked,
      fun hg => absurd hg Bool.false_ne_true⟩
  · exact Rotation.toured_restart fun hd => ⟨(h.walked hrun hd).toHonest, fun _ => h.walked hrun hd⟩
  · exact h
  · exact ⟨h.noDevice, fun hr => absurd hr Bool.false_ne_true, h.gaveUp⟩

theorem Rotation.toured_netLoop (h : RotStep R r (.netLoop init found) r')
    (hclear : (r.opened R init).netRestartWrap = false) : r'.Toured R := by
  have hmem : (r.opened R init).ethCurrent ∈ (r.opened R init).visited := by
    refine ethInit_keeps (I := fun e => e.ethCurrent ∈ e.visited) (fun e _ => ?_)
      List.mem_cons_self
    rw [ethTryAnother_eq]
    exact List.mem_cons_self
  rw [rotStep_netLoop h]
  exact Rotation.toured_restart fun _ =>
    ⟨⟨hmem, fun hw => absurd (hclear.symm.trans hw) Bool.false_ne_true⟩,
      fun hr => absurd hr Bool.false_ne_true⟩

/-! ## Coming to an end -/

/-- With `first_failed` near, `NetStartAgain` gives up or gets nearer. -/
theorem Rotation.startAgain_near {k : ℕ} (init : D → Bool) (hd : r.netDevExists = false)
    (h : (ethTryAnother R (!r.netRestarted) r.eth).netRestartWrap = true ∨
      ∃ k' < k, (ethTryAnother R (!r.netRestarted) r.eth).Near R k') :
    (∃ e, r.startAgain R init =
        { r with eth := e, netState := .fail, gaveUp := true }) ∨
      ∃ k' < k, ∃ e, e.Near R k' ∧
        r.startAgain R init = { r with eth := e, netState := .restart, gaveUp := false } := by
  obtain ⟨e, he, ⟨hw, heq⟩ | ⟨-, hd', -⟩ | ⟨hw, -, heq⟩⟩ := r.startAgain_cases R init
  · refine Or.inr ?_
    rcases h with h | ⟨k', hk', hnear⟩
    · have hkept : e.netRestartWrap = true := by
        rw [he]
        refine ethInit_keeps (I := fun e => e.netRestartWrap = true) (fun e h => ?_) h
        rw [ethTryAnother_eq, h]
        rfl
      exact absurd (hw.symm.trans hkept) Bool.false_ne_true
    · refine ⟨k', hk', e, ?_, heq⟩
      rw [he]
      exact ethInit_keeps (fun e h => h.keeps) hnear
  · exact absurd (hd.symm.trans hd') Bool.false_ne_true
  · exact Or.inl ⟨_, heq⟩

theorem ends_of_fail (inits : ℕ → D → Bool) (hrun : r.running = true) (hs : r.netState = .fail)
    (hg : r.gaveUp = true) :
    ∃ r', Run (RotStep R) r (failing inits 1) r' ∧ r'.running = false ∧ r'.gaveUp = true := by
  refine ⟨{ r with running := false }, .single ?_, rfl, hg⟩
  unfold RotStep rotStep
  rw [hrun, hs]

/-- On a restart with `first_failed` at most `k + 1` devices on, the call ends within `k + 2`
checks. -/
theorem ends_of_near {k : ℕ} (inits : ℕ → D → Bool) (hrun : r.running = true)
    (hs : r.netState = .restart) (hd : r.netDevExists = false) (hnear : r.eth.Near R k) :
    ∃ m ≤ k + 2, ∃ r', Run (RotStep R) r (failing inits m) r' ∧ r'.running = false ∧
      r'.gaveUp = true := by
  induction k using Nat.strong_induction_on generalizing r inits with
  | _ k ih =>
    have hstep : RotStep R r (.check (.noAddress (inits 0)))
        (Rotation.startAgain R (inits 0)
          { r with netRestarted := true, netState := .continue, gaveUp := false }) := by
      unfold RotStep rotStep
      rw [hrun, hs]
      rfl
    have hmove : (ethTryAnother R false r.eth).netRestartWrap = true ∨
        ∃ k' < k, (ethTryAnother R false r.eth).Near R k' := by
      cases k with
      | zero => exact Or.inl hnear.tryAnother_zero
      | succ k => exact Or.inr ⟨k, k.lt_succ_self, hnear.tryAnother⟩
    rcases Rotation.startAgain_near (inits 0)
        (r := { r with netRestarted := true, netState := .continue, gaveUp := false }) hd hmove with
      ⟨e, heq⟩ | ⟨k', hk', e, he, heq⟩
    · rw [heq] at hstep
      obtain ⟨r', hr', hend⟩ := ends_of_fail (R := R) (fun i => inits (i + 1))
        (r := { r with eth := e, netRestarted := true, netState := .fail, gaveUp := true }) hrun
        rfl rfl
      refine ⟨2, by omega, r', ?_, hend⟩
      rw [failing_succ]
      exact .cons hstep hr'
    · rw [heq] at hstep
      obtain ⟨m, hm, r', hr', hend⟩ := ih k' hk' (fun i => inits (i + 1))
        (r := { r with eth := e, netRestarted := true, netState := .restart, gaveUp := false }) hrun
        rfl hd he
      refine ⟨m + 1, by omega, r', ?_, hend⟩
      rw [failing_succ]
      exact .cons hstep hr'

theorem ends_of_netLoop (inits : ℕ → D → Bool)
    (h : RotStep R r (.netLoop init (.noAddress (inits 0))) r') :
    ∃ m ≤ Fintype.card D, ∃ r'', Run (RotStep R) r' (failing (fun i => inits (i + 1)) m) r'' ∧
      r''.running = false ∧ r''.gaveUp = true := by
  obtain ⟨k, hk, hback⟩ := R.exists_back (r.opened R init).ethCurrent
  -- the first step makes the current device `first_failed`, a whole turn away
  have hmove : (ethTryAnother R true (r.opened R init)).netRestartWrap = true ∨
      ∃ k' < k, (ethTryAnother R true (r.opened R init)).Near R k' := by
    have hnear : Eth.Near R k
        { r.opened R init with firstFailed := some (r.opened R init).ethCurrent } :=
      Or.inr ⟨_, k, rfl, le_rfl, hback⟩
    cases k with
    | zero => exact Or.inl hnear.tryAnother_zero
    | succ k => exact Or.inr ⟨k, k.lt_succ_self, hnear.tryAnother⟩
  have hstart : r' = Rotation.startAgain R (inits 0)
      ⟨r.opened R init, false, false, .continue, true, false⟩ := rotStep_netLoop h
  rcases Rotation.startAgain_near (inits 0)
      (r := ⟨r.opened R init, false, false, .continue, true, false⟩) rfl hmove with
    ⟨e, heq⟩ | ⟨k', hk', e, he, heq⟩
  · rw [hstart, heq]
    exact ⟨1, by omega, ends_of_fail (fun i => inits (i + 1)) rfl rfl rfl⟩
  · obtain ⟨m, hm, hend⟩ := ends_of_near (R := R) (fun i => inits (i + 1))
      (r := ⟨e, false, false, .restart, true, false⟩) rfl rfl rfl he
    rw [hstart, heq]
    exact ⟨m, by omega, hend⟩

/-- **When a call gives up.** A call of `NetLoop` ends in `NETLOOP_FAIL` by way of
`NetStartAgain` only if no device that it came to was configured and, if it opened with
`NetRestartWrap` clear, only after every device was the current one. And where every device it
comes to lacks an address it ends so, in as many rounds as there are devices. -/
theorem netLoop_gives_up (h : RotStep R r (.netLoop init found) r') :
    (∀ evs r'', Run (RotStep R) r' evs r'' → (∀ ev ∈ evs, ev.InCall) → r''.gaveUp = true →
      r''.netDevExists = false ∧
        ((r.opened R init).netRestartWrap = false → ∀ d, d ∈ r''.eth.visited)) ∧
    ∀ inits : ℕ → D → Bool, found = .noAddress (inits 0) →
      ∃ m ≤ Fintype.card D, ∃ r'', Run (RotStep R) r' (failing (fun i => inits (i + 1)) m) r'' ∧
        r''.running = false ∧ r''.gaveUp = true := by
  refine ⟨fun evs r'' hrun hin hgave => ⟨?_, fun hclear => ?_⟩, ?_⟩
  · have hstart : r'.NoDevice := by
      rw [rotStep_netLoop h]
      exact Rotation.noDevice_restart
    have hkeep : ∀ s ev s', ev.InCall → s.NoDevice → RotStep R s ev s' → s'.NoDevice :=
      fun s ev s' hev hs => hs.step hev
    exact hrun.invariant_of hkeep hin hstart hgave
  · have hkeep : ∀ s ev s', ev.InCall → s.Toured R → RotStep R s ev s' → s'.Toured R :=
      fun s ev s' hev hs => hs.step hev
    exact (hrun.invariant_of hkeep hin (Rotation.toured_netLoop h hclear)).gaveUp hgave
  · rintro inits rfl
    exact ends_of_netLoop inits h

end

/-! ## What a call does not do -/

section
variable [DecidableEq D] [Fintype D] (R : DeviceRing D) (init : D → Bool) {r : Rotation D}

/-- `NetStartAgain`, ten seconds of waiting, and another start on a device that is configured. -/
def retry : List (RotEv D) := [.startAgain init, .startAgainTimeout, .check .ready]

theorem runs_retry (hrun : r.running = true) (hd : r.netDevExists = true) (k : ℕ) :
    ∃ r', Run (RotStep R) r (List.replicate k (retry init)).flatten r' ∧ r'.running = true := by
  induction k generalizing r with
  | zero => exact ⟨r, .nil r, hrun⟩
  | succ k ih =>
    obtain ⟨eth, restarted, _, netState, _, gaveUp⟩ := r
    obtain rfl : _ = true := hrun
    obtain rfl : _ = true := hd
    obtain ⟨e, s, g, hstart⟩ : ∃ e s g,
        Rotation.startAgain R init ⟨eth, restarted, true, netState, true, gaveUp⟩ =
          ⟨e, restarted, true, s, true, g⟩ := by
      obtain ⟨e, -, ⟨-, heq⟩ | ⟨-, -, heq⟩ | ⟨-, hd, -⟩⟩ :=
        Rotation.startAgain_cases R init ⟨eth, restarted, true, netState, true, gaveUp⟩
      · exact ⟨_, _, _, heq⟩
      · exact ⟨_, _, _, heq⟩
      · exact absurd hd.symm Bool.false_ne_true
    have hagain : RotStep R ⟨eth, restarted, true, netState, true, gaveUp⟩ (.startAgain init)
        ⟨e, restarted, true, s, true, g⟩ := congrArg some hstart
    have htimeout : RotStep R ⟨e, restarted, true, s, true, g⟩ .startAgainTimeout
        ⟨e, restarted, true, .restart, true, false⟩ := rfl
    have hcheck : RotStep R ⟨e, restarted, true, .restart, true, false⟩ (.check .ready)
        ⟨e, true, true, .continue, true, false⟩ := rfl
    obtain ⟨r', hr', hend⟩ := @ih ⟨e, true, true, .continue, true, false⟩ rfl rfl
    exact ⟨r', .cons hagain (.cons htimeout (.cons hcheck hr')), hend⟩

end

/-- Devices numbered from 0 on, in the order of their registration. -/
def DeviceRing.numbered (n : ℕ) : DeviceRing (Fin (n + 1)) where
  next := (· + 1)
  ring a b := by
    have hval : ∀ k : ℕ, ((· + 1)^[k] a : Fin (n + 1)).val = (a.val + k) % (n + 1) := by
      intro k
      induction k with
      | zero => exact (Nat.mod_eq_of_lt a.isLt).symm
      | succ k ih =>
        rw [Function.iterate_succ_apply', Fin.val_add, ih, Fin.val_one', Nat.mod_add_mod,
          Nat.add_mod_mod, Nat.add_assoc]
    refine ⟨n + 1 - a + b, Fin.ext ?_⟩
    have ha := a.isLt
    rw [hval, show a.val + (n + 1 - a + b) = n + 1 + b by omega, Nat.add_mod_left,
      Nat.mod_eq_of_lt b.isLt]

def Rotation.boot (current : D) : Rotation D :=
  ⟨⟨current, none, false, []⟩, false, false, .continue, false, false⟩

/-- Two devices without an address. -/
theorem netLoop_gives_up_two : ∃ m ≤ 2, ∃ r, Run (RotStep (DeviceRing.numbered 1)) (.boot 0)
    (.netLoop (fun _ => true) (.noAddress fun _ => true) :: failing (fun _ _ => true) m) r ∧
      r.running = false ∧ r.gaveUp = true := by
  have hstart : RotStep (DeviceRing.numbered 1) (.boot 0)
    (.netLoop (fun _ => true) (.noAddress fun _ => true)) _ := rfl
  obtain ⟨m, hm, r, hr, hend⟩ := (netLoop_gives_up hstart).2 (fun _ _ => true) rfl
  exact ⟨m, hm, r, .cons hstart hr, hend⟩

/-- A second call, on four devices, gives up although device 3 was never current in it: the
first one began at device 1 and ended well with device 0; then device 0 does not come up, and
`eth_init` runs into the old `first_failed`. And a single configured device that never comes up
is tried again for ever. -/
theorem netLoop_gives_up_early_or_never :
    (∃ evs r, Run (RotStep (DeviceRing.numbered 3)) (.boot 1) evs r ∧ r.gaveUp = true ∧
      3 ∉ r.eth.visited) ∧
    ∀ k, ∃ r, Run (RotStep (DeviceRing.numbered 0)) (.boot 0)
      (.netLoop (fun _ => false) .ready ::
        (List.replicate k (retry fun _ => false)).flatten) r ∧ r.running = true := by
  constructor
  · have hcheck := @Run.of_check _ _ (rotStep (DeviceRing.numbered 3))
      (fun r => decide (r.gaveUp = true ∧ 3 ∉ r.eth.visited)) (.boot 1)
      [.netLoop (fun _ => true) (.noAddress fun _ => true), .check (.noAddress fun _ => true),
        .check (.noAddress fun _ => true), .check .ready, .success, .check .ready,
        .netLoop (fun d => d ≠ 0) (.noAddress fun _ => true)] (by decide)
    obtain ⟨r, hrun, hr⟩ := hcheck
    exact ⟨_, r, hrun, of_decide_eq_true hr⟩
  · intro k
    obtain ⟨r, hr, hend⟩ := runs_retry (DeviceRing.numbered 0) (fun _ => false)
      (r := ⟨⟨0, none, false, [0, 0]⟩, false, true, .continue, true, false⟩) rfl rfl k
    exact ⟨r, .cons rfl hr, hend⟩

end UBoot.Net
