import UBoot.Kermit.Recv
import UBoot.Lib.Runs

/-!
# What a negative acknowledgement leaves

`packet_error` restores the saved state whatever byte the error is at, but the state is saved
only behind the sequence number, and only for a new one. `nack_restores` says what the
decoder is left in; `nack_keeps_acked` says for every input in which runs of `k_recv` that is always
the state after the last packet that was acknowledged.
-/

namespace UBoot.Kermit

open UBoot.Lib

/-- The sequence number of the first packet of the input, if its length and the number itself
are legal. -/
def packetSeq (input : List UInt8) : Option Nat :=
  match input.dropWhile (· ≠ startChar) with
  | _ :: len :: seq :: _ => if legal len ∧ legal seq then some (untochar seq) else none
  | _ => none

/-- The first packet of the input comes with a new sequence number. -/
def NewSeq (s : KRecv) (input : List UInt8) : Prop :=
  ∃ n, packetSeq input = some n ∧ (n : Int) ≠ s.lastN

/-! ## One packet -/

/-- With a negative acknowledgement the decoder ends in this state. -/
def NackLeaves (d : KData) (r : Received) : Prop :=
  ∀ s' n rest, r = some (s', .nack n, rest) → s'.data = d

variable {s : KRecv} {d : KData} {sum length k : Nat} {c : UInt8} {input : List UInt8}

theorem packetError_leaves (h : s.saved = d) (input : List UInt8) :
    NackLeaves d (packetError s input) := by
  intro s' n rest heq
  cases heq
  exact h

theorem getLegal_leaves {next : UInt8 → List UInt8 → Received} (h : s.saved = d)
    (hnext : ∀ c input, NackLeaves d (next c input)) (input : List UInt8) :
    NackLeaves d (getLegal s next input) := by
  cases input with
  | nil => nofun
  | cons c input =>
    rw [getLegal]
    split
    · exact hnext c input
    · exact packetError_leaves h input

theorem saved_binDataChar (c : UInt8) (s : KRecv) : (binDataChar c s).saved = s.saved := by
  unfold binDataChar
  split <;> rfl

theorem saved_kDataChar (c : UInt8) (s : KRecv) : (kDataChar c s).saved = s.saved := by
  unfold kDataChar
  split
  · exact saved_binDataChar ..
  · split
    · rfl
    · exact saved_binDataChar ..

theorem saved_dataChar (c : UInt8) (s : KRecv) : (dataChar c s).saved = s.saved := by
  unfold dataChar
  split
  · exact saved_kDataChar c s
  · split <;> rfl

theorem recvEnd_leaves (h : s.saved = d) (input : List UInt8) : NackLeaves d (recvEnd s input) := by
  cases input with
  | nil => nofun
  | cons c input =>
    simp only [recvEnd]
    split
    · exact packetError_leaves h input
    · split <;> (intro s' n rest heq; cases heq)

theorem recvCheck_leaves (h : s.saved = d) (input : List UInt8) :
    NackLeaves d (recvCheck s sum input) := by
  refine getLegal_leaves h (fun c input => ?_) input
  split
  · exact packetError_leaves h input
  · exact recvEnd_leaves h input

theorem recvRest_leaves (h : s.saved = d) (input : List UInt8) :
    NackLeaves d (recvRest k s sum input) := by
  induction k generalizing s sum input with
  | zero => exact recvCheck_leaves h input
  | succ k ih => exact getLegal_leaves h (fun c => ih ((saved_dataChar c s).trans h)) input

theorem recvHeaderCheck_leaves (h : s.saved = d) (input : List UInt8) :
    NackLeaves d (recvHeaderCheck s sum length input) := by
  refine getLegal_leaves h (fun c input => ?_) input
  split
  · exact packetError_leaves h input
  · exact recvRest_leaves h input

theorem recvType_leaves (h : s.saved = d) (input : List UInt8) :
    NackLeaves d (recvType s sum length input) := by
  refine getLegal_leaves h (fun c input => ?_) input
  have hc : ({ s with kState := c } : KRecv).saved = d := h
  by_cases h0 : length = 0
  · simp only [h0, if_true]
    exact getLegal_leaves hc (fun c => getLegal_leaves hc fun c => recvHeaderCheck_leaves hc) input
  · simp only [h0, if_false]
    exact recvRest_leaves hc input

theorem saved_checkpoint (s : KRecv) :
    (checkpoint s).saved = if (s.n : Int) = s.lastN then s.saved else s.data := by
  unfold checkpoint
  split <;> rfl

/-- What the decoder is left in: the state at the start of a packet with a new sequence
number, and else what was saved for the packet before. -/
theorem nack_restores {s' : KRecv} {n : Nat} {rest : List UInt8}
    (h : recvPacket s input = some (s', .nack n, rest)) :
    (NewSeq s input → s'.data = s.data) ∧ (¬ NewSeq s input → s'.data = s.saved) := by
  unfold recvPacket at h
  unfold NewSeq packetSeq
  generalize input.dropWhile (· ≠ startChar) = packet at h
  rcases packet with - | ⟨start, - | ⟨len, packet⟩⟩
  · cases h
  · cases h
  simp only [recvLength, getLegal] at h
  split at h
  · next hlen =>
    cases packet with
    | nil => cases h
    | cons seq packet =>
      simp only [recvSeq, getLegal] at h
      split at h
      · next hseq =>
        have hleaves := recvType_leaves (saved_checkpoint _) packet s' n rest h
        simp only [hlen, hseq, and_self, if_true, Option.some.injEq, exists_eq_left', hleaves]
        exact ⟨fun hne => if_neg hne, fun heq => if_pos (not_not.mp heq)⟩
      · next hseq =>
        have hleaves := packetError_leaves rfl packet s' n rest h
        simp [hseq, hleaves]
  · next hlen =>
    have hleaves := packetError_leaves rfl packet s' n rest h
    cases packet <;> simp [hlen, hleaves]

/-! ## Every run -/

/-- `k_recv`, the input it has not read, and the decoder as it was after the last packet that
was acknowledged. -/
structure Session where
  recv : KRecv
  input : List UInt8
  acked : KData

/-- `k_recv` at its start. -/
def Session.init (start : UInt32) (mem : Mem32) (input : List UInt8) : Session :=
  ⟨.init start mem, input, (KRecv.init start mem).data⟩

/-- The decoder state that is compared: `k_data_escape` and `os_data_addr`. -/
def KData.decoder (d : KData) : Bool × UInt32 := (d.escape, d.osAddr)

inductive KStep : Session → Reply → Session → Prop where
  | ack {s : Session} {r : KRecv} {n : Nat} {rest : List UInt8} (hd : s.recv.done = false)
    (h : recvPacket s.recv s.input = some (r, .ack n, rest)) :
    KStep s (.ack n) ⟨r, rest, r.data⟩
  | nack {s : Session} {r : KRecv} {n : Nat} {rest : List UInt8} (hd : s.recv.done = false)
    (h : recvPacket s.recv s.input = some (r, .nack n, rest)) :
    KStep s (.nack n) ⟨r, rest, s.acked⟩

/-- A negative acknowledgement leaves the decoder as it was after the last packet that was
acknowledged. -/
def KeepsAcked (s : Session) (e : Reply) (s' : Session) : Prop :=
  ∀ n, e = .nack n → s'.recv.data.decoder = s.acked.decoder

/-- A packet that is not acknowledged comes with a new sequence number, or what is saved is
the state it comes in. -/
def SavedBefore (s : Session) (e : Reply) : Prop :=
  ∀ n, e = .nack n → NewSeq s.recv s.input ∨ s.recv.saved.decoder = s.recv.data.decoder

/-- The step, from a state in which the decoder is as it was after the last acknowledged
packet. -/
theorem keepsAcked_iff {s s' : Session} {e : Reply} (h : KStep s e s')
    (hs : s.recv.data.decoder = s.acked.decoder) : KeepsAcked s e s' ↔ SavedBefore s e := by
  cases h with
  | ack => exact iff_of_true nofun nofun
  | @nack r n rest hd h =>
    obtain ⟨hnew, hold⟩ := nack_restores h
    simp only [KeepsAcked, SavedBefore, Reply.nack.injEq, forall_eq']
    by_cases hseq : NewSeq s.recv s.input
    · rw [hnew hseq]
      exact iff_of_true hs (.inl hseq)
    · rw [hold hseq, ← hs]
      exact (or_iff_right hseq).symm

theorem KStep.keeps {s s' : Session} {e : Reply} (h : KStep s e s') (hk : KeepsAcked s e s') :
    s'.recv.data.decoder = s'.acked.decoder := by
  cases h with
  | ack => rfl
  | nack => exact hk _ rfl

/-- **Negative acknowledgements of `k_recv`.** For every input and every run of `k_recv` on it,
every negative acknowledgement leaves the decoder as it was after the last packet that was
acknowledged, exactly if each of them answers a packet with legal length and sequence bytes
and a new sequence number, or finds the state saved that the packet came in. -/
theorem nack_keeps_acked (start : UInt32) (mem : Mem32) (input : List UInt8) (rs : List Reply)
    (s : Session) :
    Run (fun s e s' => KeepsAcked s e s' ∧ KStep s e s') (.init start mem input) rs s ↔
      Run (Only SavedBefore KStep) (.init start mem input) rs s :=
  Run.congr_of_invariant (I := fun s => s.recv.data.decoder = s.acked.decoder)
    (fun _ _ _ hs => ⟨fun h => ⟨(keepsAcked_iff h.2 hs).mp h.1, h.2⟩,
      fun h => ⟨(keepsAcked_iff h.2 hs).mpr h.1, h.2⟩⟩)
    (fun _ _ _ _ h => h.2.keeps h.1) rfl

/-- A data packet of one byte, and a packet whose length byte is a control character: the
byte that was acknowledged is taken back. -/
theorem nack_takes_back :
    ∃ s s', Run KStep (.init 0x1000 (fun _ => 0)
        [0x01, 0x24, 0x20, 0x44, 0x41, 0x2c, 0x0d, 0x01, 0x00]) [.ack 0] s ∧
      KStep s (.nack 0) s' ∧ ¬ KeepsAcked s (.nack 0) s' := by
  refine ⟨_, _, .single (.ack rfl rfl), .nack rfl rfl, ?_⟩
  intro h
  exact absurd (h 0 rfl) (by decide)

end UBoot.Kermit
