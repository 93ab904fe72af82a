import Mathlib.Data.List.TakeWhile
import UBoot.Kermit.Deliver

/-!
# A Kermit transfer

A stop-and-wait sender, the line, and `k_recv`. The sender delivers a packet again and again
until it hears its acknowledgement. The line may change, drop or add bytes behind the sequence
number as long as `k_recv` does not acknowledge what comes of it, and it may lose any reply.
`Phase` says what `k_recv` may be doing while the sender is at a packet; from it
`recv_delivers` says that `k_recv` returns with the bytes that were sent.
-/

namespace UBoot.Kermit

open UBoot.Lib

/-- The sender is at packet `next`. Of what arrived `input` is left, which `k_recv` waits to be
more of. -/
structure Link where
  next : Nat
  recv : KRecv
  input : List UInt8

/-- The replies of `k_recv`, until it waits for more input or has returned. -/
inductive Answers : KRecv → List UInt8 → List Reply → KRecv → List UInt8 → Prop where
  | returned {s : KRecv} {input : List UInt8} : s.done = true → Answers s input [] s input
  | waits {s : KRecv} {input : List UInt8} : s.done = false → recvPacket s input = none →
      Answers s input [] s input
  | reply {s s₁ s' : KRecv} {input rest rest' : List UInt8} {r : Reply} {rs : List Reply} :
      s.done = false → recvPacket s input = some (s₁, r, rest) → Answers s₁ rest rs s' rest' →
      Answers s input (r :: rs) s' rest'

/-- A delivery of the packet that the sender is at: intact, with a reply that the sender hears or
that is lost, or with `tail` for the bytes behind the sequence number. -/
inductive Delivery where
  | intact (heard : Bool)
  | corrupted (tail : List UInt8)

/-- The sequence number of packet `k`. -/
def seqOf (first k : Nat) : Nat := (first + k) % 64

/-- One delivery of a transfer of the packets `ps`. -/
inductive Deliver (ps : List Packet) (first : Nat) : Link → Delivery → Link → Prop where
  | intact {l : Link} {p : Packet} {rs : List Reply} {s : KRecv} {rest : List UInt8}
      (heard : Bool) :
      ps[l.next]? = some p →
      Answers l.recv (l.input ++ p.bytes (seqOf first l.next)) rs s rest →
      Deliver ps first l (.intact heard)
        ⟨if heard ∧ .ack (seqOf first l.next) ∈ rs then l.next + 1 else l.next, s, rest⟩
  | corrupted {l : Link} {p : Packet} {rs : List Reply} {s : KRecv} {rest : List UInt8}
      (tail : List UInt8) :
      ps[l.next]? = some p →
      Answers l.recv (l.input ++ ((p.bytes (seqOf first l.next)).take 3 ++ tail)) rs s rest →
      (∀ n, .ack n ∉ rs) →
      Deliver ps first l (.corrupted tail) ⟨l.next, s, rest⟩

def Link.init (start : UInt32) (mem : Mem32) : Link := ⟨0, .init start mem, []⟩

section
variable {ps : List Packet} {first : Nat} {start : UInt32} {s s' : KRecv} {p : Packet} {k n : Nat}
  {input x rest : List UInt8} {l l' : Link} {rs : List Reply}

/-! ## Input -/

/-- The input starts with a packet that has the sequence number of packet `k`. -/
def Starts (first k : Nat) (input : List UInt8) : Prop :=
  ∃ len t, legal len = true ∧
    input.dropWhile (· ≠ startChar) = startChar :: len :: tochar (seqOf first k) :: t

/-- If the input starts a packet, it has the sequence number of packet `k`. -/
def Opens (first k : Nat) (input : List UInt8) : Prop :=
  input.dropWhile (· ≠ startChar) = [] ∨ Starts first k input

theorem seqOf_lt (first k : Nat) : seqOf first k < 64 := Nat.mod_lt _ (by decide)

theorem seqOf_succ (first k : Nat) : seqOf first k ≠ seqOf first (k + 1) := by
  rw [seqOf, seqOf]
  omega

theorem Opens.starts (h : Opens first k input)
    (hx : ∃ len t, legal len = true ∧ x = startChar :: len :: tochar (seqOf first k) :: t) :
    Starts first k (input ++ x) := by
  obtain ⟨len, t, hlen, rfl⟩ := hx
  rw [Starts, List.dropWhile_append]
  obtain h | ⟨len', t', hlen', h⟩ := h
  · rw [h, List.isEmpty_nil, if_pos rfl, List.dropWhile_cons_of_neg (by simp)]
    exact ⟨len, t, hlen, rfl⟩
  · rw [h, if_neg (by simp)]
    exact ⟨len', _, hlen', rfl⟩

theorem Starts.packetSeq (h : Starts first k input) : packetSeq input = some (seqOf first k) := by
  obtain ⟨len, t, hlen, h⟩ := h
  have hseq := seqOf_lt first k
  rw [Kermit.packetSeq, h]
  dsimp only
  rw [if_pos ⟨hlen, legal_tochar (by omega)⟩, untochar_tochar (by omega)]

theorem ne_startChar {c : UInt8} (h : legal c = true) : c ≠ startChar := by
  rintro rfl
  exact absurd h (by decide)

theorem header_legal (p : Packet) (hn : n < 64) : ∀ c ∈ p.header n, legal c = true := by
  have hroom := p.room
  have hseq : legal (tochar n) = true := legal_tochar (by omega)
  rw [Packet.header]
  cases hext : p.ext with
  | true =>
    rw [hext, if_pos rfl] at hroom
    have hcheck : ∀ sum, legal (checkChar sum) = true := fun sum => legal_tochar (by omega)
    have hzero : legal (tochar 0) = true := legal_tochar (by omega)
    have hhi := @legal_tochar ((p.fields.length + 1) / 95) (by omega)
    have hlo := @legal_tochar ((p.fields.length + 1) % 95) (by omega)
    simp [hseq, hcheck, hhi, hlo, p.type_legal, hzero]
  | false =>
    rw [hext, if_neg (by simp)] at hroom
    have hlen := @legal_tochar (p.fields.length + 3) (by omega)
    simp [hseq, hlen, p.type_legal]

theorem bytes_shape (p : Packet) (hn : n < 64) : ∃ len t, legal len = true ∧
    p.bytes n = startChar :: len :: tochar n :: t ∧
    (len :: tochar n :: t).dropWhile (· ≠ startChar) = [] := by
  have hheader := header_legal p hn
  have hplain : ∀ c ∈ p.header n ++ p.fields ++
      [checkChar (byteSum (p.header n ++ p.fields)), endChar], c ≠ startChar := by
    intro c hc
    rw [List.mem_append, List.mem_append, List.mem_pair] at hc
    rcases hc with (hc | hc) | rfl | rfl
    · exact ne_startChar (hheader c hc)
    · exact ne_startChar (p.fields_legal c hc)
    · exact ne_startChar (legal_tochar (by omega))
    · decide
  obtain ⟨len, t, hlen⟩ : ∃ len t, p.header n = len :: tochar n :: t := by
    rw [Packet.header]
    split_ifs
    · exact ⟨_, _, rfl⟩
    · exact ⟨_, _, rfl⟩
  rw [Packet.bytes]
  rw [hlen] at hheader hplain ⊢
  refine ⟨len, _, hheader len List.mem_cons_self, rfl, ?_⟩
  rw [List.dropWhile_eq_nil_iff]
  simpa using hplain

/-! ## The state -/

/-- The bytes decoded from the first `k` packets. -/
def decodedAt (ps : List Packet) (k : Nat) : Decoded := (after (ps.take k)).2

/-- The decoder behind the first `k` packets. -/
def dataAt (start : UInt32) (ps : List Packet) (k : Nat) : KData := kdata start (decodedAt ps k)

/-- The quoting character behind the first `k` packets. -/
def quoteAt (ps : List Packet) (k : Nat) : UInt8 := (after (ps.take k)).1

theorem after_succ (hp : ps[k]? = some p) :
    after (ps.take (k + 1)) = p.effect (after (ps.take k)) := by
  rw [after, List.take_add_one, hp, List.foldl_append]
  rfl

theorem decodedAt_shorter {k' : Nat} (hk : k ≤ k') :
    (decodedAt ps k).bytes <+: (decodedAt ps k').bytes := by
  have htake := List.take_append_drop k (ps.take k')
  rw [List.take_take, Nat.min_eq_left hk] at htake
  rw [decodedAt, decodedAt, ← htake]
  exact after_prefix _ _

theorem effect_again (p : Packet) (st : UInt8 × Decoded) :
    p.effect ((p.effect st).1, st.2) = p.effect st := by
  obtain ⟨quote, d⟩ := st
  simp only [Packet.effect, Packet.quote]
  by_cases hsend : p.type = sendType
  · have hdata : p.type ≠ dataType := by rw [hsend]; decide
    simp only [if_pos hsend, if_neg hdata]
  · simp only [if_neg hsend]

/-- `k_recv` is as it was before packet `k`, and so is what it has saved. -/
structure Settled (start : UInt32) (ps : List Packet) (k : Nat) (s : KRecv) : Prop where
  data : s.data = dataAt start ps k
  saved : s.saved = dataAt start ps k
  mem : MemHolds start (decodedAt ps k).bytes s
  quote : s.his.quote = quoteAt ps k ∨ s.his.quote = quoteAt ps (k + 1)
  done : s.done = false

/-- A negative acknowledgement that goes back to the state before packet `k`. -/
theorem settled_of_nack (hroom : (decodedAt ps k).bytes.length + maxChars < 2 ^ 32)
    (hmem : MemHolds start (decodedAt ps k).bytes s)
    (hquote : s.his.quote = quoteAt ps k ∨ s.his.quote = quoteAt ps (k + 1))
    (hdone : s.done = false) (hnew : NewSeq s input → s.data = dataAt start ps k)
    (hold : ¬ NewSeq s input → s.saved = dataAt start ps k)
    (h : recvPacket s input = some (s', .nack n, rest)) : Settled start ps k s' := by
  obtain ⟨hsaved, hhis, hdone', s₀, cs, hcs, hdata₀, hmem₀, hmem'⟩ := recvPacket_nack h
  have hdata : s'.data = dataAt start ps k := by
    obtain ⟨hnew', hold'⟩ := nack_restores h
    by_cases hseq : NewSeq s input
    · exact (hnew' hseq).trans (hnew hseq)
    · exact (hold' hseq).trans (hold hseq)
  have hholds : Holds start (decodedAt ps k) s₀ :=
    ⟨hdata₀.trans hdata, by rw [MemHolds, hmem₀]; exact hmem⟩
  refine ⟨hdata, hsaved.trans hdata, ?_, by rwa [hhis], hdone'.trans hdone⟩
  rw [MemHolds, hmem']
  exact memHolds_dataCharsTo hholds (by omega)

theorem Settled.answers (hroom : (decodedAt ps k).bytes.length + maxChars < 2 ^ 32)
    (hs : Settled start ps k s) (h : Answers s input rs s' rest) (hrs : ∀ n, .ack n ∉ rs) :
    Settled start ps k s' ∧ recvPacket s' rest = none := by
  induction h with
  | returned hdone =>
    rw [hs.done] at hdone
    cases hdone
  | waits _ hnone => exact ⟨hs, hnone⟩
  | @reply s s₁ s' input rest rest' r rs hdone hr _ ih =>
    have hrs' : ∀ n, .ack n ∉ rs := fun n hn => hrs n (List.mem_cons_of_mem _ hn)
    cases r with
    | ack n => exact absurd List.mem_cons_self (hrs n)
    | nack n =>
      exact ih (settled_of_nack hroom hs.mem hs.quote hs.done (fun _ => hs.data)
        (fun _ => hs.saved) hr) hrs'

/-- What `k_recv` may be doing while the sender is at packet `k`: it has gone back to the state
before it; it waits for the packet, or for more of it; or it has acknowledged the packet, and
waits, or has more of it. -/
inductive Phase (start : UInt32) (ps : List Packet) (first k : Nat) (s : KRecv)
    (input : List UInt8) : Prop where
  | settled : s.data = dataAt start ps k → s.saved = dataAt start ps k →
      Phase start ps first k s input
  | fresh : s.data = dataAt start ps k → s.lastN ≠ seqOf first k → Opens first k input →
      Phase start ps first k s input
  | accepted : s.saved = dataAt start ps k → s.lastN = seqOf first k → Opens first k input →
      Holds start (decodedAt ps (k + 1)) s → s.his.quote = quoteAt ps (k + 1) →
      Phase start ps first k s input

/-- `k_recv` waits, with the sender at a packet. -/
structure Waiting (start : UInt32) (ps : List Packet) (first : Nat) (l : Link) : Prop where
  done : l.recv.done = false
  waits : recvPacket l.recv l.input = none
  mem : MemHolds start (decodedAt ps l.next).bytes l.recv
  quote : l.recv.his.quote = quoteAt ps l.next ∨ l.recv.his.quote = quoteAt ps (l.next + 1)
  phase : Phase start ps first l.next l.recv l.input

/-- `k_recv` has returned with what was sent. -/
structure Complete (start : UInt32) (ps : List Packet) (s : KRecv) : Prop where
  done : s.done = true
  holds : Holds start (decodedAt ps ps.length) s

theorem Settled.waiting (hs : Settled start ps k s) (hnone : recvPacket s input = none) :
    Waiting start ps first ⟨k, s, input⟩ :=
  ⟨hs.done, hnone, hs.mem, hs.quote, .settled hs.data hs.saved⟩

theorem Waiting.settled_of_nack (hroom : (decodedAt ps l.next).bytes.length + maxChars < 2 ^ 32)
    (hl : Waiting start ps first l)
    (hx : ∃ len t, legal len = true ∧ x = startChar :: len :: tochar (seqOf first l.next) :: t)
    (h : recvPacket l.recv (l.input ++ x) = some (s', .nack n, rest)) :
    Settled start ps l.next s' := by
  have hnewSeq : Opens first l.next l.input →
      (NewSeq l.recv (l.input ++ x) ↔ (seqOf first l.next : Int) ≠ l.recv.lastN) := by
    intro hopens
    rw [NewSeq, (hopens.starts hx).packetSeq]
    simp
  refine Kermit.settled_of_nack hroom hl.mem hl.quote hl.done ?_ ?_ h
  · intro hnew
    cases hl.phase with
    | settled hdata _ => exact hdata
    | fresh hdata _ _ => exact hdata
    | accepted _ hlast hopens _ _ => exact absurd hlast.symm ((hnewSeq hopens).mp hnew)
  · intro hnew
    cases hl.phase with
    | settled _ hsaved => exact hsaved
    | fresh _ hlast hopens => exact absurd ((hnewSeq hopens).mpr (Ne.symm hlast)) hnew
    | accepted hsaved _ _ _ _ => exact hsaved

/-! ## A delivery -/

section
variable (hroom : ∀ k, (decodedAt ps k).bytes.length + maxChars < 2 ^ 32)
  (hbreak : ∀ k p, ps[k]? = some p → p.type = breakType → k + 1 = ps.length)
include hroom

theorem Waiting.corrupted (hl : Waiting start ps first l) (tail : List UInt8)
    (h : Answers l.recv (l.input ++ ((p.bytes (seqOf first l.next)).take 3 ++ tail)) rs s rest)
    (hrs : ∀ n, .ack n ∉ rs) : Waiting start ps first ⟨l.next, s, rest⟩ := by
  obtain ⟨len, t, hlen, hbytes, -⟩ := bytes_shape p (seqOf_lt first l.next)
  have hx : ∃ len t, legal len = true ∧ (p.bytes (seqOf first l.next)).take 3 ++ tail =
      startChar :: len :: tochar (seqOf first l.next) :: t := by
    rw [hbytes]
    exact ⟨len, tail, hlen, rfl⟩
  cases h with
  | returned hdone =>
    rw [hl.done] at hdone
    cases hdone
  | waits _ hnone =>
    refine ⟨hl.done, hnone, hl.mem, hl.quote, ?_⟩
    cases hl.phase with
    | settled hdata hsaved => exact .settled hdata hsaved
    | fresh hdata hlast hopens => exact .fresh hdata hlast (.inr (hopens.starts hx))
    | accepted hsaved hlast hopens hholds hquote =>
      exact .accepted hsaved hlast (.inr (hopens.starts hx)) hholds hquote
  | @reply _ s₁ _ _ rest₁ _ r rs hdone hr hans =>
    have hrs' : ∀ n, .ack n ∉ rs := fun n hn => hrs n (List.mem_cons_of_mem _ hn)
    cases r with
    | ack n => exact absurd List.mem_cons_self (hrs n)
    | nack n =>
      obtain ⟨hs, hnone⟩ := (hl.settled_of_nack (hroom _) hx hr).answers (hroom _) hans hrs'
      exact hs.waiting hnone

/-- Behind what was cut off: the start character ends it, and the rest of the packet is passed
over. -/
theorem Waiting.intact_cut (hl : Waiting start ps first l)
    (hcut : l.input.dropWhile (· ≠ startChar) ≠ [])
    (h : Answers l.recv (l.input ++ p.bytes (seqOf first l.next)) rs s rest) :
    (∀ n, .ack n ∉ rs) ∧ Waiting start ps first ⟨l.next, s, rest⟩ := by
  obtain ⟨len, t, hlen, hbytes, hplain⟩ := bytes_shape p (seqOf_lt first l.next)
  obtain ⟨s₁, n, hr⟩ := recvPacket_cut hl.waits hcut (len :: tochar (seqOf first l.next) :: t)
  rw [← hbytes] at hr
  have hs := hl.settled_of_nack (hroom _) ⟨len, t, hlen, hbytes⟩ hr
  have hnone : recvPacket s₁ (len :: tochar (seqOf first l.next) :: t) = none := by
    rw [recvPacket, hplain]
  cases h with
  | returned hd =>
    rw [hl.done] at hd
    cases hd
  | waits _ hnone' =>
    rw [hnone'] at hr
    cases hr
  | reply _ hr' hans =>
    rw [hr] at hr'
    cases hr'
    cases hans with
    | returned hd =>
      rw [hs.done] at hd
      cases hd
    | waits _ _ => exact ⟨by simp, hs.waiting hnone⟩
    | reply _ hr₂ _ =>
      rw [hnone] at hr₂
      cases hr₂

/-- With nothing in front of it the packet is acknowledged, and nothing is left of it. -/
theorem Waiting.recv_ack (hl : Waiting start ps first l) (hp : ps[l.next]? = some p)
    (hidle : l.input.dropWhile (· ≠ startChar) = []) :
    ∃ s₁, recvPacket l.recv (l.input ++ p.bytes (seqOf first l.next)) =
        some (s₁, .ack (seqOf first l.next), []) ∧
      s₁.lastN = seqOf first l.next ∧ s₁.saved = dataAt start ps l.next ∧
      s₁.done = decide (p.type = breakType) ∧ s₁.his.quote = quoteAt ps (l.next + 1) ∧
      Holds start (decodedAt ps (l.next + 1)) s₁ := by
  have hbase : (if (seqOf first l.next : Int) = l.recv.lastN then l.recv.saved else l.recv.data) =
      kdata start (decodedAt ps l.next) := by
    cases hl.phase with
    | settled hdata hsaved =>
      rw [hdata, hsaved, ite_self]
      rfl
    | fresh hdata hlast _ => rwa [if_neg (Ne.symm hlast)]
    | accepted hsaved hlast _ _ _ => rwa [if_pos hlast.symm]
  have hfields : p.fields.length ≤ maxChars := by
    have hp := p.room
    split_ifs at hp
    · exact hp.trans (by decide)
    · exact hp.trans (by decide)
  obtain ⟨s₁, hr, hlast, hsaved, hdone, hquote, hholds⟩ :=
    recvPacket_ack p (seqOf_lt first l.next) hidle (by have := hroom l.next; omega) hbase hl.mem []
  have heffect : p.effect (l.recv.his.quote, decodedAt ps l.next) =
      after (ps.take (l.next + 1)) := by
    rw [after_succ hp]
    obtain h | h := hl.quote
    · rw [h]
      rfl
    · rw [h, quoteAt, after_succ hp]
      exact effect_again p _
  rw [heffect] at hquote hholds
  rw [List.append_nil] at hr
  rw [hl.done, Bool.false_or] at hdone
  exact ⟨s₁, hr, hlast, hsaved, hdone, hquote, hholds⟩

include hbreak

theorem Waiting.intact (hl : Waiting start ps first l) (hp : ps[l.next]? = some p) (heard : Bool)
    (h : Answers l.recv (l.input ++ p.bytes (seqOf first l.next)) rs s rest) :
    Complete start ps s ∨ Waiting start ps first
      ⟨if heard ∧ .ack (seqOf first l.next) ∈ rs then l.next + 1 else l.next, s, rest⟩ := by
  by_cases hidle : l.input.dropWhile (· ≠ startChar) = []
  · obtain ⟨s₁, hr, hlast, hsaved, hdone, hquote, hholds⟩ := hl.recv_ack hroom hp hidle
    cases h with
    | returned hd =>
      rw [hl.done] at hd
      cases hd
    | waits _ hnone =>
      rw [hnone] at hr
      cases hr
    | reply _ hr' hans =>
      rw [hr] at hr'
      cases hr'
      cases hans with
      | returned hd =>
        rw [hdone, decide_eq_true_eq] at hd
        refine .inl ⟨by rw [hdone, hd]; simp, ?_⟩
        rw [← hbreak _ p hp hd]
        exact hholds
      | waits hd hnone =>
        right
        cases heard with
        | true =>
          rw [if_pos ⟨rfl, List.mem_singleton_self _⟩]
          refine ⟨hd, hnone, hholds.mem, .inl hquote, .fresh hholds.data ?_ (.inl rfl)⟩
          rw [hlast]
          exact fun h => seqOf_succ first l.next (Int.ofNat.inj h)
        | false =>
          rw [if_neg (by simp)]
          refine ⟨hd, hnone, ?_, .inr hquote, .accepted hsaved hlast (.inl rfl) hholds hquote⟩
          exact hholds.mem.of_prefix (decodedAt_shorter (Nat.le_succ _))
      | reply _ hr₂ _ => cases hr₂
  · obtain ⟨hrs, hw⟩ := hl.intact_cut hroom hidle h
    right
    rwa [if_neg fun hack => hrs _ hack.2]

theorem Deliver.keeps {e : Delivery} (h : Deliver ps first l e l')
    (hl : Complete start ps l.recv ∨ Waiting start ps first l) :
    Complete start ps l'.recv ∨ Waiting start ps first l' := by
  have hend : ∀ {input rs s rest}, Complete start ps l.recv → Answers l.recv input rs s rest →
      Complete start ps s := by
    intro input rs s rest hc hans
    cases hans with
    | returned _ => exact hc
    | waits hd _ => exact absurd hc.done (by rw [hd]; simp)
    | reply hd _ _ => exact absurd hc.done (by rw [hd]; simp)
  cases h with
  | intact heard hp hans =>
    obtain hc | hw := hl
    · exact .inl (hend hc hans)
    · exact hw.intact hroom hbreak hp heard hans
  | corrupted tail hp hans hrs =>
    obtain hc | hw := hl
    · exact .inl (hend hc hans)
    · exact .inr (hw.corrupted hroom tail hans hrs)

end

theorem waiting_init (start : UInt32) (mem : Mem32) (ps : List Packet) (first : Nat) :
    Waiting start ps first (.init start mem) := by
  have hdata : (KRecv.init start mem).data = dataAt start ps 0 := by
    rw [dataAt, decodedAt, List.take_zero]
    simp [KRecv.init, kdata, after]
  refine ⟨rfl, rfl, ?_, .inl ?_, .settled hdata hdata⟩
  · intro i hi
    exact absurd hi (Nat.not_lt_zero i)
  · rfl

end

/-- **`k_recv` delivers.** When it returns from a transfer of packets, the last of which is the
break packet, the bytes from the start address to `os_data_addr` are those that the data packets
carry, however often each packet was delivered and whatever came of it. -/
theorem recv_delivers (start : UInt32) (mem : Mem32) (first : Nat) {body : List Packet} {b : Packet}
    {quote : UInt8} {data : List UInt8} (hq : QuoteChar quote)
    (hbody : ∀ p ∈ body, p.type ≠ breakType) (hb : b.type = breakType)
    (hquoted : QuotedBy quote kEscape body)
    (hdata : dataChars body = data.flatMap (quoteByte quote))
    (hroom : data.length + maxChars < 2 ^ 32) {es : List Delivery} {l : Link}
    (h : Run (Deliver (body ++ [b]) first) (.init start mem) es l) (hdone : l.recv.done = true) :
    l.recv.data.osAddr - start = UInt32.ofNat data.length ∧
      l.recv.mem.HoldsUpTo start data data.length := by
  have hall : decodedAt (body ++ [b]) (body ++ [b]).length = ⟨false, data⟩ := by
    have hb' : b.type ≠ dataType := by rw [hb]; decide
    rw [decodedAt, List.take_length, after, List.foldl_append, ← after, List.foldl_cons,
      List.foldl_nil, Packet.effect, if_neg hb']
    exact after_quoted hq hquoted hdata
  have hroom' : ∀ k, (decodedAt (body ++ [b]) k).bytes.length + maxChars < 2 ^ 32 := by
    intro k
    have hmax : decodedAt (body ++ [b]) (max k (body ++ [b]).length) = ⟨false, data⟩ := by
      rw [← hall, decodedAt, decodedAt, List.take_of_length_le (le_max_right _ _), List.take_length]
    have hpre := @decodedAt_shorter (body ++ [b]) k _ (le_max_left k (body ++ [b]).length)
    rw [hmax] at hpre
    have hlen := hpre.length_le
    dsimp only at hlen
    omega
  have hbreak : ∀ k p, (body ++ [b])[k]? = some p → p.type = breakType →
      k + 1 = (body ++ [b]).length := by
    intro k p hp hbr
    have hk : k < (body ++ [b]).length := (List.getElem?_eq_some_iff.mp hp).1
    rcases Nat.lt_or_ge k body.length with hlt | hge
    · rw [List.getElem?_append_left hlt] at hp
      exact absurd hbr (hbody p (List.mem_of_getElem? hp))
    · rw [List.length_append, List.length_singleton] at hk ⊢
      omega
  have hinv := h.invariant
    (I := fun l => Complete start (body ++ [b]) l.recv ∨ Waiting start (body ++ [b]) first l)
    (fun _ _ _ hl hstep => hstep.keeps hroom' hbreak hl) (.inr (waiting_init start mem _ first))
  obtain hc | hw := hinv
  · have hholds := hc.holds
    rw [hall] at hholds
    refine ⟨?_, hholds.mem⟩
    rw [hholds.data]
    simp only [kdata, UInt32.add_comm start, UInt32.add_sub_cancel]
  · rw [hw.done] at hdone
    cases hdone

/-! ## Running a transfer -/

/-- The replies, in at most `n` rounds. -/
def answer : Nat → KRecv → List UInt8 → Option (List Reply × KRecv × List UInt8)
  | 0, _, _ => none
  | n + 1, s, input =>
    if s.done then some ([], s, input)
    else
      match recvPacket s input with
      | none => some ([], s, input)
      | some (s, r, rest) => (answer n s rest).map fun a => (r :: a.1, a.2)

theorem answers_of_answer {n : Nat} {s s' : KRecv} {input rest : List UInt8} {rs : List Reply}
    (h : answer n s input = some (rs, s', rest)) : Answers s input rs s' rest := by
  induction n generalizing s input rs with
  | zero => cases h
  | succ n ih =>
    rw [answer] at h
    split_ifs at h with hdone
    · cases h
      exact .returned hdone
    · cases hr : recvPacket s input with
      | none =>
        rw [hr] at h
        cases h
        exact .waits (by simpa using hdone) hr
      | some r =>
        rw [hr] at h
        obtain ⟨⟨rs', s₁, rest'⟩, ha, heq⟩ := Option.map_eq_some_iff.mp h
        cases heq
        exact .reply (by simpa using hdone) hr (ih ha)

def Reply.isNack : Reply → Bool
  | .ack _ => false
  | .nack _ => true

/-- A delivery, if there is a packet left and a corrupted one is refused. -/
def deliver (ps : List Packet) (first : Nat) (l : Link) (e : Delivery) : Option Link :=
  match ps[l.next]? with
  | none => none
  | some p =>
    match e with
    | .intact heard =>
      (answer 100 l.recv (l.input ++ p.bytes (seqOf first l.next))).map fun a =>
        ⟨if heard ∧ .ack (seqOf first l.next) ∈ a.1 then l.next + 1 else l.next, a.2.1, a.2.2⟩
    | .corrupted tail =>
      (answer 100 l.recv (l.input ++ ((p.bytes (seqOf first l.next)).take 3 ++ tail))).bind fun a =>
        if a.1.all Reply.isNack then some ⟨l.next, a.2.1, a.2.2⟩ else none

theorem deliver_of_deliver {ps : List Packet} {first : Nat} {l l' : Link} {e : Delivery}
    (h : deliver ps first l e = some l') : Deliver ps first l e l' := by
  rw [deliver] at h
  cases hp : ps[l.next]? with
  | none =>
    rw [hp] at h
    cases h
  | some p =>
    rw [hp] at h
    cases e with
    | intact heard =>
      obtain ⟨a, ha, rfl⟩ := Option.map_eq_some_iff.mp h
      exact .intact heard hp (answers_of_answer ha)
    | corrupted tail =>
      obtain ⟨a, ha, hif⟩ := Option.bind_eq_some_iff.mp h
      split_ifs at hif with hall
      cases hif
      refine .corrupted tail hp (answers_of_answer ha) fun n hn => ?_
      exact absurd (List.all_eq_true.mp hall _ hn) (by simp [Reply.isNack])

def dataPacket (fields : List UInt8) (hlegal : ∀ c ∈ fields, legal c = true)
    (hroom : fields.length ≤ 91) : Packet :=
  ⟨dataType, fields, false, by decide, hlegal, hroom⟩

def breakPacket : Packet := ⟨breakType, [], false, by decide, List.forall_mem_nil _, by decide⟩

/-- `A` and the control character 1 in two packets, split behind the prefix of the second. -/
def twoPackets : List Packet :=
  [dataPacket [0x41, 0x23] (by decide +kernel) (by decide),
    dataPacket [0x41] (by decide +kernel) (by decide)]

/-- The first packet is corrupted, then acknowledged unheard, then corrupted again. -/
theorem recv_delivers_two : ∃ l,
    Run (Deliver (twoPackets ++ [breakPacket]) 2) (.init 0x1000 (fun _ => 0))
      [.corrupted [0x44, 0x00], .intact false, .corrupted [0x44, 0x42, 0x00], .intact true,
        .intact true, .intact true] l ∧
    l.recv.data.osAddr - 0x1000 = UInt32.ofNat [0x41, 0x01].length ∧
    l.recv.mem.HoldsUpTo 0x1000 [0x41, 0x01] [0x41, 0x01].length := by
  have hrun : ∃ l, Run (fun l e l' => deliver (twoPackets ++ [breakPacket]) 2 l e = some l')
      (.init 0x1000 (fun _ => 0)) [.corrupted [0x44, 0x00], .intact false,
        .corrupted [0x44, 0x42, 0x00], .intact true, .intact true, .intact true] l ∧
      l.recv.done = true := Run.of_check (by decide +kernel)
  obtain ⟨l, hrun, hdone⟩ := hrun
  have h := hrun.mono fun _ _ _ h => deliver_of_deliver h
  have hq : QuoteChar kEscape := by decide
  have hquoted : QuotedBy kEscape kEscape twoPackets := ⟨fun _ => rfl, fun _ => rfl, trivial⟩
  have hdata : dataChars twoPackets = [0x41, 0x01].flatMap (quoteByte kEscape) := by decide
  exact ⟨l, h, recv_delivers 0x1000 (fun _ => 0) 2 hq (by decide) rfl hquoted hdata (by decide) h
    hdone⟩

end UBoot.Kermit
