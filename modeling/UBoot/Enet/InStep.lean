import UBoot.Enet.Rx

/-!
# The driver and the MAL in step

`Inv` relates the ring to the frames that arrived: the frames `Q` that are queued and those from
`L` on that were not looked at have different descriptors and are all that is not empty.
`rx_ring_in_step` is the result for runs in which no descriptor is looked at while it is queued.
-/

namespace UBoot.Enet

open UBoot.Lib

variable {β : Type} {N L : ℕ} {s s' : Rx β} {Q : List ℕ}

def held (Q : List ℕ) (L F : ℕ) : List ℕ := Q ++ List.range' L (F - L)

/-- Where `enet_rcv` stands: what was not looked at either fits into the turns that are left, or
the end-of-buffer bit is set again. -/
def IsrOk (N : ℕ) (s : Rx β) (L : ℕ) : Prop :=
  match s.isr with
  | .idle => s.rxSlot = L % N ∧ (L < s.arrived.length → s.eob = true)
  | .loop n => s.rxSlot = L % N ∧ (s.eob = true ∨ s.arrived.length - L + n ≤ N)
  | .file i n => i = L % N ∧ s.rxSlot = (L + 1) % N ∧ L < s.arrived.length ∧
      (s.eob = true ∨ s.arrived.length - (L + 1) + n ≤ N)

structure Inv (N : ℕ) (s : Rx β) (L : ℕ) (Q : List ℕ) : Prop where
  le : L ≤ s.arrived.length
  order : ((s.arrived.take L).filter fun f => f.Good).map Frame.handedOver =
    s.handed ++ Q.map fun k => (s.rx (k % N)).frame.handedOver
  distinct : ((held Q L s.arrived.length).map (· % N)).Nodup
  holds : ∀ k ∈ held Q L s.arrived.length, ∃ f, s.arrived[k]? = some f ∧ s.rx (k % N) = ⟨false, f⟩
  occupied : ∀ d < N, (s.rx d).empty = false → ∃ k ∈ held Q L s.arrived.length, k % N = d
  mal : s.mal = s.arrived.length % N
  ready : ∀ j < N, s.rxReady ((s.rxU + j) % N) = (Q.map (· % N))[j]?
  rxU : s.rxU < N
  rxI : s.rxI = (s.rxU + Q.length) % N
  user : ∀ i, s.user = some i → ∃ k Q', Q = k :: Q' ∧ i = k % N
  once : ∀ d < N, s.freed.count d + (if (s.rx d).empty = true then 0 else 1) =
    (List.range s.arrived.length).countP fun k => k % N = d
  isr : IsrOk N s L

theorem mem_held {F k : ℕ} : k ∈ held Q L F ↔ k ∈ Q ∨ L ≤ k ∧ k < F := by
  have hrange : L ≤ k ∧ k < L + (F - L) ↔ L ≤ k ∧ k < F := by omega
  rw [held, List.mem_append, List.mem_range'_1, hrange]

theorem held_snoc {F : ℕ} (hle : L ≤ F) : held Q L (F + 1) = held Q L F ++ [F] := by
  rw [held, held, Nat.succ_sub hle, List.range'_concat, List.append_assoc, Nat.one_mul,
    Nat.add_sub_cancel' hle]

theorem held_look {F : ℕ} (hlt : L < F) : held (Q ++ [L]) (L + 1) F = held Q L F := by
  rw [held, held, List.append_assoc, ← Nat.succ_sub_succ F L, Nat.succ_sub hlt]
  rfl

/-- There are no more frames with a descriptor than there are descriptors. -/
theorem Inv.held_length (h : Inv N s L Q) : (held Q L s.arrived.length).length ≤ N := by
  have hN : 0 < N := Nat.zero_lt_of_lt h.rxU
  have hsub : (held Q L s.arrived.length).map (· % N) ⊆ List.range N := fun d hd => by
    obtain ⟨k, -, rfl⟩ := List.mem_map.mp hd
    exact List.mem_range.mpr (Nat.mod_lt k hN)
  have hle := (List.subperm_of_subset h.distinct hsub).length_le
  rwa [List.length_map, List.length_range] at hle

theorem Inv.inStep (h : Inv N s L Q) : InStepAt N s L (Q.map (· % N)) := by
  have hlen := h.held_length
  rw [held, List.length_append] at hlen
  refine ⟨h.le, by rw [h.order, List.map_map]; rfl, ?_, h.ready, fun i hi => ?_,
    fun k f hk hf => ?_, h.mal, fun hidle => ?_, fun hidle => ?_, h.once⟩
  · rw [List.length_map]
    omega
  · obtain ⟨k, hk, rfl⟩ := List.mem_map.mp hi
    obtain ⟨f, -, hrx⟩ := h.holds k (mem_held.mpr (.inl hk))
    rw [hrx]
  · have hlt := (List.getElem?_eq_some_iff.mp hf).1
    obtain ⟨f', hf', hrx⟩ := h.holds k (mem_held.mpr (.inr ⟨hk, hlt⟩))
    rw [hrx, Option.some.inj (hf'.symm.trans hf)]
  · have hisr := h.isr
    rw [IsrOk, hidle] at hisr
    exact hisr.1
  · have hisr := h.isr
    rw [IsrOk, hidle] at hisr
    exact hisr.2

theorem ethInit_inv (hN : 0 < N) (blank : Frame β) : Inv N (ethInit blank) 0 [] where
  le := le_refl 0
  order := rfl
  distinct := List.nodup_nil
  holds k hk := by cases hk
  occupied d _ hd := by cases hd
  mal := rfl
  ready j _ := rfl
  rxU := hN
  rxI := (Nat.zero_mod N).symm
  user i hi := by cases hi
  once d _ := rfl
  isr := ⟨(Nat.zero_mod N).symm, fun h => absurd h (Nat.lt_irrefl 0)⟩

theorem Inv.mal_ne (h : Inv N s L Q) (hempty : (s.rx s.mal).empty = true) {k : ℕ}
    (hk : k ∈ held Q L s.arrived.length) : k % N ≠ s.mal := fun heq => by
  obtain ⟨f, -, hrx⟩ := h.holds k hk
  rw [heq] at hrx
  rw [hrx] at hempty
  cases hempty

section
variable {f : Frame β} {d i : ℕ}

theorem fill_rx_self : (s.fill N f).rx s.mal = ⟨false, f⟩ := Function.update_self ..

theorem fill_rx_of_ne (hd : d ≠ s.mal) : (s.fill N f).rx d = s.rx d := Function.update_of_ne hd ..

@[simp] theorem fill_arrived : (s.fill N f).arrived.length = s.arrived.length + 1 :=
  List.length_append

theorem free_rx_self : ((s.free i).rx i).empty = true := by
  show (Function.update s.rx i ⟨true, (s.rx i).frame⟩ i).empty = true
  rw [Function.update_self]

theorem free_rx_of_ne (hd : d ≠ i) : (s.free i).rx d = s.rx d := Function.update_of_ne hd ..

/-- Each fill of a descriptor is given back, or the descriptor is not empty. -/
def Once (N : ℕ) (s : Rx β) : Prop :=
  ∀ d < N, s.freed.count d + (if (s.rx d).empty = true then 0 else 1) =
    (List.range s.arrived.length).countP fun k => k % N = d

theorem Once.fill (h : Once N s) (hmal : s.mal = s.arrived.length % N)
    (hempty : (s.rx s.mal).empty = true) : Once N (s.fill N f) := fun d hd => by
  have honce := h d hd
  rw [fill_arrived, List.range_succ, List.countP_append, ← honce, List.countP_singleton, ← hmal]
  by_cases heq : d = s.mal
  · subst heq
    rw [fill_rx_self, hempty]
    simp [Rx.fill]
  · rw [fill_rx_of_ne heq]
    simp [Rx.fill, Ne.symm heq]

theorem Once.free (h : Once N s) (hbusy : (s.rx i).empty = false) : Once N (s.free i) :=
  fun d hd => by
    have honce := h d hd
    rw [show (s.free i).arrived = s.arrived from rfl, ← honce,
      show (s.free i).freed = s.freed ++ [i] from rfl, List.count_append, List.count_singleton]
    by_cases heq : d = i
    · subst heq
      rw [free_rx_self, hbusy]
      simp
    · rw [free_rx_of_ne heq]
      simp [Ne.symm heq]

end

theorem Inv.fill (h : Inv N s L Q) {f : Frame β} (hempty : (s.rx s.mal).empty = true) :
    Inv N (s.fill N f) L Q := by
  have hN : 0 < N := Nat.zero_lt_of_lt h.rxU
  have hheld : held Q L (s.fill N f).arrived.length =
      held Q L s.arrived.length ++ [s.arrived.length] := by
    rw [fill_arrived, held_snoc h.le]
  have hrx {k : ℕ} (hk : k ∈ held Q L s.arrived.length) :
      (s.fill N f).rx (k % N) = s.rx (k % N) := fill_rx_of_ne (h.mal_ne hempty hk)
  constructor
  case le =>
    rw [fill_arrived]
    exact h.le.trans (Nat.le_succ _)
  case order =>
    rw [show (s.fill N f).arrived = s.arrived ++ [f] from rfl, List.take_append_of_le_length h.le,
      h.order]
    refine congrArg _ (List.map_congr_left fun k hk => ?_)
    rw [hrx (mem_held.mpr (.inl hk))]
  case distinct =>
    rw [hheld, List.map_append, List.map_singleton]
    refine List.Nodup.append h.distinct (List.nodup_singleton _) ?_
    rw [List.disjoint_singleton]
    intro hmem
    obtain ⟨k, hk, heq⟩ := List.mem_map.mp hmem
    exact h.mal_ne hempty hk (heq.trans h.mal.symm)
  case holds =>
    intro k hk
    rw [hheld, List.mem_append, List.mem_singleton] at hk
    obtain hk | rfl := hk
    · obtain ⟨f', hf', hrx'⟩ := h.holds k hk
      have hlt := (List.getElem?_eq_some_iff.mp hf').1
      exact ⟨f', (List.getElem?_append_left hlt).trans hf', (hrx hk).trans hrx'⟩
    · exact ⟨f, List.getElem?_concat_length, by rw [← h.mal, fill_rx_self]⟩
  case occupied =>
    intro d hd hne
    rw [hheld]
    by_cases hmal : d = s.mal
    · exact ⟨_, List.mem_append_right _ (List.mem_singleton_self _), h.mal.symm.trans hmal.symm⟩
    · rw [fill_rx_of_ne hmal] at hne
      obtain ⟨k, hk, heq⟩ := h.occupied d hd hne
      exact ⟨k, List.mem_append_left _ hk, heq⟩
  case mal =>
    have hnext := Ring.next_add (i := 0) (k := s.arrived.length) hN
    rw [Nat.zero_add, Nat.zero_add, ← h.mal] at hnext
    rw [fill_arrived]
    exact hnext
  case ready => exact h.ready
  case rxU => exact h.rxU
  case rxI => exact h.rxI
  case user => exact h.user
  case once => exact Once.fill h.once h.mal hempty
  case isr =>
    have hisr := h.isr
    unfold IsrOk at hisr ⊢
    rw [show (s.fill N f).isr = s.isr from rfl, fill_arrived]
    cases hs : s.isr with
    | idle =>
      rw [hs] at hisr
      exact ⟨hisr.1, fun _ => rfl⟩
    | loop n =>
      rw [hs] at hisr
      exact ⟨hisr.1, .inl rfl⟩
    | file i n =>
      rw [hs] at hisr
      exact ⟨hisr.1, hisr.2.1, Nat.lt_succ_of_lt hisr.2.2.1, .inl rfl⟩

theorem Inv.setIsr (h : Inv N s L Q) {eob : Bool} {rxSlot : ℕ} {isr : Isr}
    (hok : IsrOk N { s with eob := eob, rxSlot := rxSlot, isr := isr } L) :
    Inv N { s with eob := eob, rxSlot := rxSlot, isr := isr } L Q :=
  ⟨h.le, h.order, h.distinct, h.holds, h.occupied, h.mal, h.ready, h.rxU, h.rxI, h.user, h.once,
    hok⟩

theorem Inv.irq (h : Inv N s L Q) (hidle : s.isr = .idle) :
    Inv N { s with eob := false, isr := .loop 0 } L Q := by
  have hisr := h.isr
  have hlen := h.held_length
  rw [IsrOk, hidle] at hisr
  rw [held, List.length_append, List.length_range'] at hlen
  exact h.setIsr ⟨hisr.1, .inr (show s.arrived.length - L + 0 ≤ N by omega)⟩

/-- A descriptor that is not empty and not queued holds the next frame. -/
theorem Inv.look (h : Inv N s L Q) (hf : Fresh N s) {n : ℕ} (hisr : s.isr = .loop n) :
    Inv N (s.look N n) L Q := by
  have hN : 0 < N := Nat.zero_lt_of_lt h.rxU
  have hok := h.isr
  rw [IsrOk, hisr] at hok
  obtain ⟨hslot, hturns⟩ := hok
  rw [Rx.look]
  split_ifs with hstop
  · refine h.setIsr ⟨hslot, fun hlt => ?_⟩
    replace hlt : L < s.arrived.length := hlt
    obtain hempty | hn := hstop
    · obtain ⟨f, -, hrx⟩ := h.holds L (mem_held.mpr (.inr ⟨le_refl L, hlt⟩))
      rw [hslot, hrx] at hempty
      cases hempty
    · exact hturns.resolve_right (by omega)
  · rw [not_or, Nat.not_le] at hstop
    have hbusy : (s.rx s.rxSlot).empty = false := Bool.eq_false_of_not_eq_true hstop.1
    have hlt : L < s.arrived.length := by
      obtain ⟨k, hk, heq⟩ := h.occupied s.rxSlot (hslot ▸ Nat.mod_lt L hN) hbusy
      obtain hq | ⟨hle, hlt⟩ := mem_held.mp hk
      · obtain ⟨j, hj⟩ := List.getElem?_of_mem hq
        have hlen := h.held_length
        rw [held, List.length_append] at hlen
        have hjlt := (List.getElem?_eq_some_iff.mp hj).1
        have hready := h.ready j (by omega)
        rw [List.getElem?_map, hj, Option.map_some, heq] at hready
        exact absurd hready (hf n hstop.2 hisr hbusy _ (Nat.mod_lt _ hN))
      · omega
    refine h.setIsr ⟨hslot, ?_, hlt, hturns.imp_right fun hle => ?_⟩
    · have hnext := Ring.next_add (i := 0) (k := L) hN
      rw [Nat.zero_add, Nat.zero_add] at hnext
      rw [hslot]
      exact hnext
    · show s.arrived.length - (L + 1) + (n + 1) ≤ N
      omega

theorem checkLen_eq_zero {f : Frame β} : checkLen f = 0 ↔ ¬ f.Good := by
  unfold checkLen Frame.Good
  split_ifs with hne hmax herr
  · exact iff_of_true rfl fun hg => absurd hg.2.1 (by omega)
  · exact iff_of_true rfl fun hg => absurd (herr.symm.trans hg.2.2) Bool.false_ne_true.symm
  · exact iff_of_false hne (not_not.mpr ⟨by omega, by omega, Bool.eq_false_of_not_eq_true herr⟩)
  · exact iff_of_true rfl fun hg => hne (by omega)

theorem take_good {f : Frame β} (hf : s.arrived[L]? = some f) :
    ((s.arrived.take (L + 1)).filter fun f => f.Good).map Frame.handedOver =
      ((s.arrived.take L).filter fun f => f.Good).map Frame.handedOver ++
        if f.Good then [f.handedOver] else [] := by
  rw [List.take_add_one, hf, Option.toList_some, List.filter_append, List.map_append]
  congr 1
  by_cases hg : f.Good
  · rw [if_pos hg, List.filter_cons, if_pos (decide_eq_true hg)]
    rfl
  · rw [if_neg hg, List.filter_cons, if_neg fun h => hg (of_decide_eq_true h)]
    rfl

theorem Inv.free_rx (h : Inv N s L Q) {k : ℕ} {W : List ℕ}
    (hperm : (k :: W).Perm (held Q L s.arrived.length)) :
    (∀ k' ∈ W, (s.free (k % N)).rx (k' % N) = s.rx (k' % N)) ∧
      (W.map (· % N)).Nodup ∧
      ∀ d < N, ((s.free (k % N)).rx d).empty = false → ∃ k' ∈ W, k' % N = d := by
  have hnodup : ((k :: W).map (· % N)).Nodup := (hperm.map _).nodup_iff.mpr h.distinct
  rw [List.map_cons, List.nodup_cons] at hnodup
  refine ⟨fun k' hk' => free_rx_of_ne fun heq => hnodup.1 (heq ▸ List.mem_map_of_mem hk'),
    hnodup.2, fun d hd hbusy => ?_⟩
  have hne : d ≠ k % N := fun heq => by
    rw [heq, free_rx_self] at hbusy
    cases hbusy
  rw [free_rx_of_ne hne] at hbusy
  obtain ⟨k', hk', heq⟩ := h.occupied d hd hbusy
  obtain rfl | hmem := List.mem_cons.mp (hperm.mem_iff.mpr hk')
  · exact absurd heq.symm hne
  · exact ⟨k', hmem, heq⟩

/-- A frame that is not good is given back at once. -/
theorem Inv.file_bad (h : Inv N s L Q) {n : ℕ} (hslot : s.rxSlot = (L + 1) % N) {f : Frame β}
    (hf : s.arrived[L]? = some f) (hbad : ¬ f.Good)
    (hturns : s.eob = true ∨ s.arrived.length - (L + 1) + n ≤ N) :
    Inv N { s.free (L % N) with isr := .loop n } (L + 1) Q := by
  have hlt := (List.getElem?_eq_some_iff.mp hf).1
  have hperm : (L :: held Q (L + 1) s.arrived.length).Perm (held Q L s.arrived.length) := by
    rw [← held_look hlt, held, held, List.append_assoc]
    exact List.perm_middle.symm
  obtain ⟨hrx, hdistinct, hoccupied⟩ := h.free_rx hperm
  have hsub {k : ℕ} (hk : k ∈ held Q (L + 1) s.arrived.length) :
      k ∈ held Q L s.arrived.length := hperm.mem_iff.mp (List.mem_cons_of_mem _ hk)
  constructor
  case le => exact hlt
  case order =>
    show ((s.arrived.take (L + 1)).filter _).map _ = _
    rw [take_good hf, if_neg hbad, List.append_nil, h.order]
    refine congrArg _ (List.map_congr_left fun k hk => ?_)
    rw [← hrx k (mem_held.mpr (.inl hk))]
  case distinct => exact hdistinct
  case holds =>
    intro k hk
    obtain ⟨f', hf', hrx'⟩ := h.holds k (hsub hk)
    exact ⟨f', hf', (hrx k hk).trans hrx'⟩
  case occupied => exact hoccupied
  case mal => exact h.mal
  case ready => exact h.ready
  case rxU => exact h.rxU
  case rxI => exact h.rxI
  case user => exact h.user
  case once =>
    obtain ⟨f', -, hrx'⟩ := h.holds L (mem_held.mpr (.inr ⟨le_refl L, hlt⟩))
    exact Once.free h.once (by rw [hrx'])
  case isr => exact ⟨hslot, hturns⟩

theorem Inv.file_good (h : Inv N s L Q) {n : ℕ} (hslot : s.rxSlot = (L + 1) % N) {f : Frame β}
    (hf : s.arrived[L]? = some f) (hgood : f.Good)
    (hturns : s.eob = true ∨ s.arrived.length - (L + 1) + n ≤ N) :
    s.rxReady s.rxI = none ∧
    Inv N { s with
      rxReady := Function.update s.rxReady s.rxI (some (L % N))
      rxI := Ring.next N s.rxI
      isr := .loop n } (L + 1) (Q ++ [L]) := by
  have hN : 0 < N := Nat.zero_lt_of_lt h.rxU
  have hlt := (List.getElem?_eq_some_iff.mp hf).1
  have hheld := held_look (Q := Q) hlt
  have hroom : Q.length < N := by
    have hlen := h.held_length
    rw [held, List.length_append, List.length_range'] at hlen
    omega
  obtain ⟨f', hf', hrx⟩ := h.holds L (mem_held.mpr (.inr ⟨le_refl L, hlt⟩))
  obtain rfl := Option.some.inj (hf.symm.trans hf')
  refine ⟨?_, ?_⟩
  · rw [h.rxI, h.ready _ hroom, List.getElem?_eq_none (by rw [List.length_map])]
  constructor
  case le => exact hlt
  case order =>
    show ((s.arrived.take (L + 1)).filter _).map _ = _
    rw [take_good hf, if_pos hgood, h.order, List.map_append, List.append_assoc,
      List.map_singleton, hrx]
  case distinct =>
    rw [hheld]
    exact h.distinct
  case holds =>
    rw [hheld]
    exact h.holds
  case occupied =>
    rw [hheld]
    exact h.occupied
  case mal => exact h.mal
  case ready =>
    intro j hj
    show Function.update s.rxReady s.rxI (some (L % N)) ((s.rxU + j) % N) = _
    rw [List.map_append, List.map_singleton, h.rxI]
    rcases Nat.lt_trichotomy j Q.length with hjlt | rfl | hgt
    · rw [Function.update_of_ne (Ring.slot_ne hjlt hroom), h.ready j hj,
        List.getElem?_append_left (by rwa [List.length_map])]
    · rw [Function.update_self, List.getElem?_append_right (by rw [List.length_map]),
        List.length_map, Nat.sub_self]
      rfl
    · rw [Function.update_of_ne (Ring.slot_ne hgt hj).symm, h.ready j hj,
        List.getElem?_eq_none (by rw [List.length_map]; omega),
        List.getElem?_eq_none (by simp; omega)]
  case rxU => exact h.rxU
  case rxI =>
    show Ring.next N s.rxI = _
    rw [h.rxI, Ring.next_add hN, List.length_append, List.length_singleton]
  case user =>
    intro i hi
    obtain ⟨k, Q', rfl, hik⟩ := h.user i hi
    exact ⟨k, Q' ++ [L], rfl, hik⟩
  case once => exact h.once
  case isr => exact ⟨hslot, hturns⟩

theorem Inv.file (h : Inv N s L Q) {i n : ℕ} (hisr : s.isr = .file i n) :
    ∃ Q', Inv N (s.file N i n) (L + 1) Q' := by
  have hok := h.isr
  rw [IsrOk, hisr] at hok
  obtain ⟨rfl, hslot, hlt, hturns⟩ := hok
  obtain ⟨f, hf, hrx⟩ := h.holds L (mem_held.mpr (.inr ⟨le_refl L, hlt⟩))
  rw [Rx.file, hrx]
  by_cases hgood : f.Good
  · obtain ⟨hnone, hinv⟩ := h.file_good hslot hf hgood hturns
    have hfree : ¬ (s.rxReady s.rxI).isSome = true := by
      rw [hnone]
      exact Bool.false_ne_true
    rw [if_neg fun hz => checkLen_eq_zero.mp hz hgood, if_neg hfree]
    exact ⟨_, hinv⟩
  · rw [if_pos (checkLen_eq_zero.mpr hgood)]
    exact ⟨Q, h.file_bad hslot hf hgood hturns⟩

theorem Inv.take (h : Inv N s L Q) {i : ℕ} (hidle : s.isr = .idle) (huser : s.user = some i) :
    ∃ Q', Inv N (s.take N i) L Q' := by
  have hN : 0 < N := Nat.zero_lt_of_lt h.rxU
  obtain ⟨k, Q', rfl, rfl⟩ := h.user i huser
  have hroom : Q'.length < N := by
    have hlen := h.held_length
    rw [held, List.length_append, List.length_cons] at hlen
    omega
  obtain ⟨hrx, hdistinct, hoccupied⟩ := h.free_rx (k := k)
    (W := held Q' L s.arrived.length) (List.Perm.refl _)
  obtain ⟨f, hf, hrx_k⟩ := h.holds k (mem_held.mpr (.inl (List.mem_cons_self ..)))
  have hsub {k' : ℕ} (hk : k' ∈ held Q' L s.arrived.length) :
      k' ∈ held (k :: Q') L s.arrived.length := List.mem_cons_of_mem _ hk
  refine ⟨Q', ?_⟩
  constructor
  case le => exact h.le
  case order =>
    show ((s.arrived.take L).filter _).map _ =
      (s.handed ++ [(s.rx (k % N)).frame.handedOver]) ++
        Q'.map fun k' => ((s.free (k % N)).rx (k' % N)).frame.handedOver
    rw [h.order, List.map_cons, List.append_assoc]
    refine congrArg _ (congrArg _ (List.map_congr_left fun k' hk' => ?_))
    rw [hrx k' (mem_held.mpr (.inl hk'))]
  case distinct => exact hdistinct
  case holds =>
    intro k' hk'
    obtain ⟨f', hf', hrx'⟩ := h.holds k' (hsub hk')
    exact ⟨f', hf', (hrx k' hk').trans hrx'⟩
  case occupied => exact hoccupied
  case mal => exact h.mal
  case ready =>
    intro j hj
    show Function.update s.rxReady s.rxU none ((Ring.next N s.rxU + j) % N) = _
    have hindex : (Ring.next N s.rxU + j) % N = (s.rxU + (j + 1)) % N := by
      rw [Ring.next_eq h.rxU, Nat.mod_add_mod, Nat.add_assoc, Nat.add_comm 1]
    rw [hindex]
    rcases Nat.lt_or_ge (j + 1) N with hlt | hge
    · have hne : (s.rxU + (j + 1)) % N ≠ s.rxU := by
        have hslot := Ring.slot_ne (i := s.rxU) (Nat.succ_pos j) hlt
        rw [Nat.add_zero, Nat.mod_eq_of_lt h.rxU] at hslot
        exact hslot.symm
      rw [Function.update_of_ne hne, h.ready _ hlt, List.map_cons, List.getElem?_cons_succ]
    · obtain rfl : N = j + 1 := by omega
      rw [Ring.add_size h.rxU, Function.update_self,
        List.getElem?_eq_none (by rw [List.length_map]; omega)]
  case rxU => exact Ring.next_lt h.rxU
  case rxI =>
    show s.rxI = (Ring.next N s.rxU + Q'.length) % N
    rw [h.rxI, Ring.next_eq h.rxU, Nat.mod_add_mod, List.length_cons, Nat.add_assoc,
      Nat.add_comm 1]
  case user => exact fun i hi => by cases hi
  case once => exact Once.free h.once (by rw [hrx_k])
  case isr =>
    have hisr := h.isr
    rw [IsrOk, hidle] at hisr
    unfold IsrOk
    rw [show (s.take N (k % N)).isr = .idle from hidle]
    exact hisr

theorem Inv.peek (h : Inv N s L Q) : Inv N { s with user := s.rxReady s.rxU } L Q := by
  have hN : 0 < N := Nat.zero_lt_of_lt h.rxU
  refine ⟨h.le, h.order, h.distinct, h.holds, h.occupied, h.mal, h.ready, h.rxU, h.rxI,
    fun i hi => ?_, h.once, h.isr⟩
  have hready := h.ready 0 hN
  rw [Nat.add_zero, Nat.mod_eq_of_lt h.rxU] at hready
  rw [show s.rxReady s.rxU = some i from hi] at hready
  cases Q with
  | nil => cases hready
  | cons k Q' => exact ⟨k, Q', rfl, Option.some.inj hready⟩

/-- **A step** keeps the driver and the MAL in step. -/
theorem Inv.step (h : Inv N s L Q) {e : Event β} (hf : e = .isr → Fresh N s)
    (hs : step N s e = some s') : ∃ L' Q', Inv N s' L' Q' := by
  cases e with
  | arrive f =>
    rw [Enet.step] at hs
    split_ifs at hs with hempty
    obtain rfl := Option.some.inj hs
    exact ⟨L, Q, h.fill hempty⟩
  | irq =>
    rw [Enet.step] at hs
    split_ifs at hs with hirq
    obtain rfl := Option.some.inj hs
    exact ⟨L, Q, h.irq hirq.1⟩
  | isr =>
    rw [Enet.step] at hs
    cases hisr : s.isr with
    | idle =>
      rw [hisr] at hs
      cases hs
    | loop n =>
      rw [hisr] at hs
      obtain rfl := Option.some.inj hs
      exact ⟨L, Q, h.look (hf rfl) hisr⟩
    | file i n =>
      rw [hisr] at hs
      obtain rfl := Option.some.inj hs
      exact ⟨L + 1, h.file hisr⟩
  | peek =>
    rw [Enet.step] at hs
    split_ifs at hs
    obtain rfl := Option.some.inj hs
    exact ⟨L, Q, h.peek⟩
  | take =>
    rw [Enet.step] at hs
    split_ifs at hs with hidle
    obtain ⟨i, huser, rfl⟩ := Option.map_eq_some_iff.mp hs
    exact ⟨L, h.take hidle huser⟩

theorem Inv.run {es : List (Event β)} (h : Inv N s L Q) (hfresh : AllFresh N s es)
    (hrun : run N s es = some s') : ∃ L' Q', Inv N s' L' Q' := by
  induction es generalizing s L Q with
  | nil =>
    obtain rfl := Option.some.inj hrun
    exact ⟨L, Q, h⟩
  | cons e es ih =>
    obtain ⟨s₁, hs₁, hrest⟩ := Option.bind_eq_some_iff.mp hrun
    obtain ⟨L', Q', h'⟩ := h.step hfresh.1 hs₁
    exact ih h' (hfresh.2 s₁ hs₁) hrest

/-- **The driver and the MAL stay in step** in every run without descriptor errors in which
`enet_rcv` looks at no descriptor that is still queued. -/
theorem rx_ring_in_step (hN : 0 < N) (blank : Frame β) (es : List (Event β))
    (hfresh : AllFresh N (ethInit blank) es) (hrun : run N (ethInit blank) es = some s) :
    InStep N s := by
  obtain ⟨L, Q, h⟩ := (ethInit_inv hN blank).run hfresh hrun
  exact ⟨L, _, h.inStep⟩

def frame64 : Frame Unit := ⟨(), 64, false⟩

/-- No descriptor that `enet_rcv` looks at in a run on four descriptors is queued. -/
def readyCheck : Rx β → List (Event β) → Bool
  | _, [] => true
  | s, e :: es => ((List.range 4).all fun j => s.rxReady j != some s.rxSlot) &&
      ((step 4 s e).map fun s' => readyCheck s' es).getD true

theorem allFresh_of_check {s : Rx β} {es : List (Event β)} (h : readyCheck s es = true) :
    AllFresh 4 s es := by
  induction es generalizing s with
  | nil => trivial
  | cons e es ih =>
    rw [readyCheck, Bool.and_eq_true, List.all_eq_true] at h
    obtain ⟨hready, hrest⟩ := h
    refine ⟨fun _ _ _ _ _ j hj => bne_iff_ne.mp (hready j (List.mem_range.mpr hj)), fun s' hs =>
      ih ?_⟩
    rwa [hs] at hrest

/-- Two frames arrive and are queued, a bad one among them; one is handed over, four more arrive,
and the ring goes around. -/
def traffic : List (Event Unit) :=
  ([.arrive frame64, .arrive ⟨(), 0, false⟩, .irq, .isr, .isr, .isr, .isr, .isr, .peek, .take,
    .arrive ⟨(), 100, false⟩, .arrive ⟨(), 1500, true⟩, .arrive ⟨(), 200, false⟩, .irq] :
    List (Event Unit)) ++ List.replicate 7 Event.isr ++ ([.peek, .take] : List (Event Unit))

theorem rx_ring_sample : ∃ s, run 4 (ethInit frame64) traffic = some s ∧ s.arrived.length = 5 ∧
    s.handed.length = 2 ∧ InStep 4 s := by
  refine ⟨_, rfl, rfl, rfl, rx_ring_in_step (by decide) frame64 traffic ?_ rfl⟩
  exact allFresh_of_check (by decide)

/-- Three frames arrive while the first one is handled. The end-of-buffer bit is set again, all
four are queued in one drain, and the next call looks at the first one again. -/
def burst : List (Event Unit) :=
  ([.arrive frame64, .irq, .arrive frame64, .arrive frame64, .arrive frame64] :
    List (Event Unit)) ++ List.replicate 9 Event.isr ++ ([.irq, .isr, .isr] : List (Event Unit))

/-- The ring is full, the MAL waits at descriptor 0, and `rx_slot` is 1. -/
theorem burst_out_of_step : ∃ s, run 4 (ethInit frame64) burst = some s ∧
    s.isr = .idle ∧ s.arrived.length = 4 ∧ s.handed = [] ∧ s.mal = 0 ∧ s.rxSlot = 1 ∧
    ¬ InStep 4 s := by
  refine ⟨_, rfl, rfl, rfl, rfl, rfl, rfl, fun ⟨L, q, h⟩ => ?_⟩
  have hslot : 1 = L % 4 := h.slot rfl
  have hle : L ≤ 4 := h.le
  obtain rfl : L = 1 := by omega
  have hlen : 1 = q.length := by
    have horder := congrArg List.length h.order
    rw [List.length_map, List.length_append, List.length_map] at horder
    exact horder.trans (Nat.zero_add _)
  have hready : some 1 = q[1]? := h.ready 1 (by decide)
  rw [List.getElem?_eq_none (by omega)] at hready
  cases hready

end UBoot.Enet
