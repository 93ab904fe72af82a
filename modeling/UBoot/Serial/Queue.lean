import UBoot.Lib.Runs
import UBoot.Serial.Fifo

/-!
# Serial input as a queue

`serial_queue_iff`: in a run of the driver the input is a queue in every state reached exactly
when no interrupt finds as many bytes in the UART as the buffer has free slots. Such an
interrupt leaves `rx_put` on `rx_get`, and the full buffer counts as empty.
-/

namespace UBoot.Serial

open Lib

variable {n taken first k : Nat} {r : Isr} {s : State} {c : UInt8} {bytes : List UInt8}

theorem space_add_used {rxGet rxPut : Nat} (hg : rxGet < n) (hp : rxPut < n) :
    space n rxGet rxPut + Ring.used n rxGet rxPut = n := by
  rw [space, Ring.used]
  split_ifs <;> omega

theorem char_stored (h : r.space ≠ 0) : ∃ mcr, Isr.char n taken r c =
    ⟨Function.update r.rxBuffer r.rxPut c, Ring.next n r.rxPut, r.space - 1, mcr,
      r.accepted ++ [c], r.refusals⟩ := by
  unfold Isr.char Ring.next
  simp only [if_pos h]
  by_cases hput : r.rxPut + 1 = n <;> simp only [hput, if_true, if_false] <;> split_ifs <;>
    exact ⟨_, rfl⟩

theorem char_refused (h : r.space = 0) (hput : r.rxPut ≠ n) : ∃ mcr, Isr.char n taken r c =
    ⟨r.rxBuffer, r.rxPut, r.space, mcr, r.accepted,
      r.refusals ++ [r.accepted.length - taken]⟩ := by
  unfold Isr.char
  simp only [if_neg (not_not.mpr h), if_neg hput]
  split_ifs <;> exact ⟨_, rfl⟩

/-- **The loop of `serial_isr`.** It stores as many bytes as there is space for, behind the `k`
bytes that are in the buffer. -/
theorem foldl_char (hfirst : first < n) (hput : r.rxPut = (first + k) % n)
    (hspace : r.space + k = n) :
    (bytes.foldl (Isr.char n taken) r).rxPut = (first + (k + min bytes.length r.space)) % n ∧
    Ring.window (bytes.foldl (Isr.char n taken) r).rxBuffer n first
      (k + min bytes.length r.space) = Ring.window r.rxBuffer n first k ++ bytes.take r.space ∧
    (bytes.foldl (Isr.char n taken) r).accepted = r.accepted ++ bytes.take r.space ∧
    (bytes.length ≤ r.space → (bytes.foldl (Isr.char n taken) r).refusals = r.refusals) := by
  induction bytes generalizing r k with
  | nil =>
    rw [List.length_nil, Nat.zero_min, List.take_nil, List.append_nil, List.append_nil]
    exact ⟨hput, rfl, rfl, fun _ => rfl⟩
  | cons c bytes ih =>
    rw [List.foldl_cons, List.length_cons]
    by_cases h : r.space = 0
    · have hlt : r.rxPut ≠ n := by
        rw [hput]
        exact (Nat.mod_lt _ (by omega)).ne
      obtain ⟨mcr, hchar⟩ := @char_refused n taken r c h hlt
      obtain ⟨hp, hw, ha, -⟩ := @ih k (Isr.char n taken r c) (by rw [hchar]; exact hput)
        (by rw [hchar]; exact hspace)
      have hfields : (Isr.char n taken r c).space = 0 ∧
          (Isr.char n taken r c).rxBuffer = r.rxBuffer ∧
          (Isr.char n taken r c).accepted = r.accepted := by
        rw [hchar]
        exact ⟨h, rfl, rfl⟩
      obtain ⟨hs, hb, hacc⟩ := hfields
      rw [hs, Nat.min_zero] at hp hw
      rw [hs] at ha
      rw [h, Nat.min_zero]
      exact ⟨hp, by rw [hw, hb]; rfl, by rw [ha, hacc]; rfl, fun hle => by omega⟩
    · obtain ⟨mcr, hchar⟩ := @char_stored n taken r c h
      have hnext : Ring.next n r.rxPut = (first + (k + 1)) % n := by
        rw [hput]
        exact Ring.next_add (by omega)
      obtain ⟨hp, hw, ha, hr⟩ := @ih (k + 1) (Isr.char n taken r c)
        (by rw [hchar]; exact hnext) (by rw [hchar]; change r.space - 1 + (k + 1) = n; omega)
      rw [hchar] at hp hw ha hr ⊢
      have hmin : k + 1 + min bytes.length (r.space - 1) =
          k + min (bytes.length + 1) r.space := by omega
      have htake : (c :: bytes).take r.space = c :: bytes.take (r.space - 1) := by
        obtain ⟨m, hm⟩ := Nat.exists_eq_succ_of_ne_zero h
        rw [hm, List.take_succ_cons, Nat.succ_sub_one]
      simp only [hmin] at hp hw
      rw [htake]
      refine ⟨hp, ?_, ?_, fun hle => hr (by change bytes.length ≤ r.space - 1; omega)⟩
      · rw [hw, hput, Ring.window_push (by omega), List.append_assoc, List.singleton_append]
      · rw [ha, List.append_assoc, List.singleton_append]

/-- What `serial_buffered_getc` knows where it stands. -/
def Getc.Ok (n : Nat) (b : BufInfo) : Getc → Prop
  | .wait rxGet => rxGet = b.rxGet
  | .read rxGet => rxGet = b.rxGet ∧ b.rxGet ≠ b.rxPut
  | .store c rxGet => b.rxGet ≠ b.rxPut ∧ c = b.rxBuffer b.rxGet ∧ rxGet = Ring.next n b.rxGet
  | _ => True

/-- The invariant: the indices are in the buffer, which holds what was accepted and not taken. -/
structure Inv (n : Nat) (s : State) : Prop where
  get_lt : s.bufInfo.rxGet < n
  put_lt : s.bufInfo.rxPut < n
  order : s.returned ++ s.getc.inHand ++ s.unread n = s.accepted
  refused : s.refusals = []
  getc : s.getc.Ok n s.bufInfo

theorem unread_length : (s.unread n).length = Ring.used n s.bufInfo.rxGet s.bufInfo.rxPut :=
  Ring.window_length

theorem taken_add_used (h : s.returned ++ s.getc.inHand ++ s.unread n = s.accepted) :
    s.taken + Ring.used n s.bufInfo.rxGet s.bufInfo.rxPut = s.accepted.length := by
  rw [← h, List.length_append, List.length_append, unread_length]
  rfl

theorem Inv.isQueue (h : Inv n s) : IsQueue n s := by
  refine ⟨h.order, by rw [h.refused]; exact List.forall_mem_nil _, ?_⟩
  have htaken := taken_add_used h.order
  have hzero := @Ring.used_eq_zero n _ s.bufInfo.rxPut h.get_lt
  rw [serialBufferedTstc]
  split_ifs with hne
  · have := mt hzero.mp hne
    exact iff_of_false id (by omega)
  · have := hzero.mpr (not_not.mp hne)
    exact iff_of_true rfl (by omega)

theorem init_inv (hn : 0 < n) (rxBuffer : Nat → UInt8) (mcr : UInt8) :
    Inv n (serialBufferedInit rxBuffer mcr) :=
  ⟨hn, hn, rfl, rfl, trivial⟩

theorem serialIsr_spec (h : Inv n s) (bytes : List UInt8) :
    let u := Ring.used n s.bufInfo.rxGet s.bufInfo.rxPut
    let s' := serialIsr n bytes s
    s'.bufInfo.rxPut = (s.bufInfo.rxGet + (u + min bytes.length (n - u))) % n ∧
    Ring.window s'.bufInfo.rxBuffer n s.bufInfo.rxGet (u + min bytes.length (n - u)) =
      s.unread n ++ bytes.take (n - u) ∧
    s'.accepted = s.accepted ++ bytes.take (n - u) ∧
    (bytes.length ≤ n - u → s'.refusals = s.refusals) := by
  intro u s'
  have hspace := space_add_used h.get_lt h.put_lt
  have hfree : space n s.bufInfo.rxGet s.bufInfo.rxPut = n - u := Nat.eq_sub_of_add_eq hspace
  have hloop := @foldl_char n s.taken s.bufInfo.rxGet u ⟨s.bufInfo.rxBuffer, s.bufInfo.rxPut,
    space n s.bufInfo.rxGet s.bufInfo.rxPut, s.mcr, s.accepted, s.refusals⟩ bytes h.get_lt
    (Ring.add_used h.get_lt h.put_lt).symm hspace
  simp only [hfree] at hloop
  simp only [s', serialIsr, hfree]
  exact hloop

/-- An interrupt that leaves a slot free keeps the invariant. -/
theorem serialIsr_inv (h : Inv n s) (hspare : Spare n s (.isr bytes)) :
    Inv n (serialIsr n bytes s) := by
  obtain ⟨hput, hwindow, haccepted, hrefusals⟩ := serialIsr_spec h bytes
  generalize hu : Ring.used n s.bufInfo.rxGet s.bufInfo.rxPut = u at *
  have hlt : bytes.length + u < n := hu ▸ hspare
  have hget := h.get_lt
  rw [Nat.min_eq_left (by omega)] at hput hwindow
  rw [List.take_of_length_le (by omega)] at hwindow haccepted
  have hused : Ring.used n s.bufInfo.rxGet (serialIsr n bytes s).bufInfo.rxPut =
      u + bytes.length := by
    rw [hput, Ring.used_add hget (by omega)]
  have hunread : (serialIsr n bytes s).unread n = s.unread n ++ bytes := by
    rw [← hwindow, ← hused]
    rfl
  have hne : s.bufInfo.rxGet ≠ s.bufInfo.rxPut →
      s.bufInfo.rxGet ≠ (serialIsr n bytes s).bufInfo.rxPut := fun hne => by
    have := mt (Ring.used_eq_zero hget).mp hne
    exact mt (Ring.used_eq_zero hget).mpr (by omega)
  refine ⟨hget, hput ▸ Nat.mod_lt _ (by omega), ?_, (hrefusals (by omega)).trans h.refused, ?_⟩
  · rw [haccepted, hunread, ← h.order]
    exact (List.append_assoc ..).symm
  · have hgetc := h.getc
    change s.getc.Ok n (serialIsr n bytes s).bufInfo
    cases hs : s.getc with
    | idle => trivial
    | wait rxGet => exact (hs ▸ hgetc : Getc.Ok n _ (.wait rxGet))
    | read rxGet =>
      obtain ⟨hrx, hneq⟩ := (hs ▸ hgetc : Getc.Ok n _ (.read rxGet))
      exact ⟨hrx, hne hneq⟩
    | store c rxGet =>
      obtain ⟨hneq, hc, hrx⟩ := (hs ▸ hgetc : Getc.Ok n _ (.store c rxGet))
      refine ⟨hne hneq, ?_, hrx⟩
      -- the byte at `rx_get` is the first unread one, before and after
      have hpos := mt (Ring.used_eq_zero hget).mp hneq
      obtain ⟨m, hm⟩ := Nat.exists_eq_succ_of_ne_zero (hu ▸ hpos)
      have hold : s.unread n = _ := 
        congrArg (Ring.window s.bufInfo.rxBuffer n s.bufInfo.rxGet) (hu.trans hm)
      rw [Ring.window_cons hget] at hold
      rw [hold, show u + bytes.length = m + bytes.length + 1 by omega, Ring.window_cons hget,
        List.cons_append] at hwindow
      rw [hc]
      exact (List.cons.inj hwindow).1.symm
    | look | flow | out | done => trivial

theorem serialIsr_full (h : Inv n s) (hfull : ¬ Spare n s (.isr bytes)) :
    ¬ IsQueue n (serialIsr n bytes s) := by
  intro hqueue
  obtain ⟨hput, -, haccepted, -⟩ := serialIsr_spec h bytes
  have hlt := Ring.used_lt h.get_lt h.put_lt
  have htaken := taken_add_used h.order
  have hge := not_lt.mp hfull
  generalize Ring.used n s.bufInfo.rxGet s.bufInfo.rxPut = u at *
  rw [show u + min bytes.length (n - u) = n by omega, Ring.add_size h.get_lt] at hput
  have hempty : serialBufferedTstc (serialIsr n bytes s) = 0 :=
    if_neg (not_not.mpr hput.symm)
  have hall := hqueue.empty.mp hempty
  rw [haccepted, List.length_append, List.length_take] at hall
  have hsame : (serialIsr n bytes s).taken = s.taken := rfl
  omega

/-- A step of `serial_buffered_getc` keeps the invariant. -/
theorem serialBufferedGetc_inv (h : Inv n s) : Inv n (serialBufferedGetc n s) := by
  obtain ⟨⟨buf, put, get⟩, mcr, pc, accepted, refusals, returned⟩ := s
  obtain ⟨hget, hput, horder, hrefused, hpc⟩ := h
  cases pc with
  | idle => exact ⟨hget, hput, horder, hrefused, rfl⟩
  | wait rxGet =>
    obtain rfl : rxGet = get := hpc
    simp only [serialBufferedGetc]
    split_ifs with hne
    · exact ⟨hget, hput, horder, hrefused, rfl⟩
    · exact ⟨hget, hput, horder, hrefused, rfl, hne⟩
  | read rxGet =>
    obtain ⟨rfl, hne⟩ : rxGet = get ∧ get ≠ put := hpc
    exact ⟨hget, hput, horder, hrefused, hne, rfl, rfl⟩
  | store c rxGet =>
    obtain ⟨hne, rfl, rfl⟩ : get ≠ put ∧ c = buf get ∧ rxGet = Ring.next n get := hpc
    have hpos := mt (Ring.used_eq_zero hget).mp hne
    obtain ⟨m, hm⟩ := Nat.exists_eq_succ_of_ne_zero hpos
    refine ⟨Ring.next_lt hget, hput, ?_, hrefused, trivial⟩
    have hnext : Ring.used n (Ring.next n get) put = m := Ring.used_next hget hput hm
    have hwindow : Ring.window buf n get (Ring.used n get put) =
        buf get :: Ring.window buf n (Ring.next n get) (Ring.used n (Ring.next n get) put) := by
      rw [hm, hnext, Ring.window_cons hget]
    have horder : returned ++ [] ++ Ring.window buf n get (Ring.used n get put) = accepted := horder
    rw [hwindow, List.append_nil] at horder
    exact (List.append_assoc ..).trans horder
  | look | out => exact ⟨hget, hput, horder, hrefused, trivial⟩
  | flow c space =>
    simp only [serialBufferedGetc]
    split_ifs <;> exact ⟨hget, hput, horder, hrefused, trivial⟩
  | done c =>
    refine ⟨hget, hput, ?_, hrefused, trivial⟩
    exact (congrArg (· ++ _) (List.append_nil _)).trans horder

theorem step_inv {a : Action} (h : Inv n s) (hspare : Spare n s a) : Inv n (step n s a) := by
  cases a with
  | isr bytes => exact serialIsr_inv h hspare
  | tstc => exact h
  | getc => exact serialBufferedGetc_inv h

/-- **Serial input is a queue** in every state of a run if and only if every interrupt of the run
finds fewer bytes in the UART than the buffer has free slots. -/
theorem serial_queue_iff (hn : 0 < n) (rxBuffer : Nat → UInt8) (mcr : UInt8) (as : List Action) :
    (∀ as', as' <+: as → IsQueue n (as'.foldl (step n) (serialBufferedInit rxBuffer mcr))) ↔
      Along (step n) (Spare n) (serialBufferedInit rxBuffer mcr) as := by
  refine forall_prefix_iff_along (init_inv hn rxBuffer mcr) (fun _ => Inv.isQueue)
    (fun _ _ => step_inv) fun s a hs hfull => ?_
  cases a with
  | isr bytes => exact serialIsr_full hs hfull
  | tstc | getc => exact absurd trivial hfull

/-- Two interrupts around a read, in a buffer of four bytes. -/
theorem serial_queue_iff_four :
    0 < 4 ∧ ∀ as', as' <+: [.isr [1, 2], .getc, .getc, .getc, .getc, .isr [3], .tstc] →
      IsQueue 4 (as'.foldl (step 4) (serialBufferedInit (fun _ => 0) 0)) :=
  ⟨by decide, (serial_queue_iff (by decide) _ _ _).mpr
    ⟨by decide, trivial, trivial, trivial, trivial, by decide, trivial, trivial⟩⟩

/-- Four bytes in a buffer of four are lost: `serial_buffered_tstc` sees none of them. -/
theorem serial_queue_four_bytes :
    ¬ ∀ as', as' <+: [.isr [1, 2, 3, 4]] →
      IsQueue 4 (as'.foldl (step 4) (serialBufferedInit (fun _ => 0) 0)) := fun h =>
  absurd ((h _ (List.prefix_refl _)).empty.mp rfl) (by decide)

end UBoot.Serial
