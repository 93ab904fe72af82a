import Mathlib.Data.List.TakeWhile
import Mathlib.Tactic

/-!
# Packets of the debugger (`common/kgdb.c`)

A packet is `$`, its characters, `#` and two digits for the sum of the characters; its receiver
answers `+` or `-`. The input is the list of all characters that are still to come, and a
function is `none` while it waits for more of them.
-/

namespace UBoot.Kgdb

def BUFMAX : ℕ := 1024

abbrev dollar : UInt8 := 0x24
abbrev hash : UInt8 := 0x23
abbrev plus : UInt8 := 0x2b
abbrev minus : UInt8 := 0x2d
abbrev colon : UInt8 := 0x3a

/-- `hexchars[d]` -/
def hexchar (d : UInt8) : UInt8 := if d < 10 then 0x30 + d else 0x57 + d

/-- `hex`, -1 for what is no digit. -/
def hex (ch : UInt8) : ℤ :=
  if 0x61 ≤ ch ∧ ch ≤ 0x66 then ch.toNat - 0x61 + 10
  else if 0x30 ≤ ch ∧ ch ≤ 0x39 then ch.toNat - 0x30
  else if 0x41 ≤ ch ∧ ch ≤ 0x46 then ch.toNat - 0x41 + 10
  else -1

def byte2hex (b : UInt8) : List UInt8 := [hexchar (b >>> 4), hexchar (b &&& 0x0f)]

def checksum (data : List UInt8) : UInt8 := data.foldl (· + ·) 0

/-- `xmitcsum`: what two characters are as the digits of a byte. -/
def xmitcsum (c1 c2 : UInt8) : UInt8 := UInt8.ofInt (hex c1 * 16) ||| UInt8.ofInt (hex c2)

/-- `getDebugChar() & 0x7f` -/
def char (c : UInt8) : UInt8 := c &&& 0x7f

def str (buffer : List UInt8) : List UInt8 := buffer.takeWhile (· ≠ 0)

/-! ### `getpacket` -/

def hunt : List UInt8 → Option (List UInt8)
  | [] => none
  | c :: inp => if char c = dollar then some inp else hunt inp

/-- The characters up to a `#`, as many as there is room for; true if there was a `#`. -/
def gather : ℕ → List UInt8 → Option (List UInt8 × Bool × List UInt8)
  | 0, inp => some ([], false, inp)
  | _ + 1, [] => none
  | n + 1, c :: inp =>
    if char c = hash then some ([], true, inp)
    else (gather n inp).map fun (data, ended, inp) => (char c :: data, ended, inp)

def stored (buffer data : List UInt8) : List UInt8 := data ++ 0 :: buffer.drop (data.length + 1)

/-- A sequence character: reply the ID, and remove it from the buffer. -/
def sequence (buffer : List UInt8) : List UInt8 × List UInt8 :=
  if buffer.getD 2 0 = colon then
    let count := (str buffer).length
    ([buffer.getD 0 0, buffer.getD 1 0],
      (buffer.drop 3).take (count - 2) ++ buffer.drop (count - 2))
  else ([], buffer)

theorem hunt_length {inp rest : List UInt8} (h : hunt inp = some rest) :
    rest.length < inp.length := by
  induction inp with
  | nil => cases h
  | cons c inp ih =>
    rw [hunt] at h
    split_ifs at h
    · obtain rfl := Option.some.inj h
      exact Nat.lt_succ_self _
    · exact (ih h).trans (Nat.lt_succ_self _)

theorem gather_length {n : ℕ} {inp data rest : List UInt8} {ended : Bool}
    (h : gather n inp = some (data, ended, rest)) : rest.length ≤ inp.length := by
  induction n generalizing inp data with
  | zero =>
    obtain ⟨-, -, rfl⟩ : [] = data ∧ false = ended ∧ inp = rest := by simpa [gather] using h
    exact le_rfl
  | succ n ih =>
    cases inp with
    | nil => cases h
    | cons c inp =>
      rw [gather] at h
      split_ifs at h
      · obtain ⟨-, -, rfl⟩ : [] = data ∧ true = ended ∧ inp = rest := by simpa using h
        exact Nat.le_succ _
      · obtain ⟨⟨data', ended', rest'⟩, h', heq⟩ := Option.map_eq_some_iff.1 h
        obtain ⟨-, rfl, rfl⟩ : _ ∧ ended' = ended ∧ rest' = rest := by simpa using heq
        exact (ih h').trans (Nat.le_succ _)

/-- `getpacket`: the buffer, what is sent, and what is left of the input. A packet that fills the
buffer is left without an answer, and is the result if its sum is that of no digits. -/
def getpacket (buffer inp : List UInt8) : Option (List UInt8 × List UInt8 × List UInt8) :=
  match hstart : hunt inp with
  | none => none
  | some inp1 =>
    match hend : gather BUFMAX inp1 with
    | none => none
    | some (data, false, inp2) =>
      if checksum data = 0xff then some (data, [], inp2) else getpacket data inp2
    | some (data, true, c1 :: c2 :: inp2) =>
      if checksum data = xmitcsum (char c1) (char c2) then
        let (id, buffer) := sequence (stored buffer data)
        some (buffer, plus :: id, inp2)
      else
        (getpacket (stored buffer data) inp2).map fun (buffer, out, inp) =>
          (buffer, minus :: out, inp)
    | some (_, true, _) => none
termination_by inp.length
decreasing_by
  · exact Nat.lt_of_le_of_lt (gather_length hend) (hunt_length hstart)
  · have h1 := hunt_length hstart
    have h2 := gather_length hend
    simp only [List.length_cons] at h2
    omega

/-! ### `putpacket` -/

def frame (buffer : List UInt8) : List UInt8 :=
  dollar :: str buffer ++ hash :: byte2hex (checksum (str buffer))

/-- `putpacket`: what is sent, and what is left of the input. -/
def putpacket (buffer : List UInt8) : List UInt8 → Option (List UInt8 × List UInt8)
  | [] => none
  | recv :: inp =>
    if char recv ≠ plus then (putpacket buffer inp).map fun (out, inp) => (frame buffer ++ out, inp)
    else some (frame buffer, inp)

/-! ### Digits -/

variable {b d : UInt8} {buffer data junk inp : List UInt8}

theorem forall_lt_sixteen {P : UInt8 → Prop} (h : ∀ n < 16, P (UInt8.ofNat n)) (hd : d < 16) :
    P d := by
  have hd := h d.toNat (UInt8.lt_iff_toNat_lt.1 hd)
  rwa [UInt8.ofNat_toNat] at hd

theorem hex_hexchar (hd : d < 16) : hex (hexchar d) = d.toNat :=
  forall_lt_sixteen (P := fun d => hex (hexchar d) = d.toNat) (by decide) hd

theorem char_hexchar (hd : d < 16) : char (hexchar d) = hexchar d :=
  forall_lt_sixteen (P := fun d => char (hexchar d) = hexchar d) (by decide) hd

theorem hi_lt (b : UInt8) : b >>> 4 < 16 := by
  rw [UInt8.lt_iff_toNat_lt, UInt8.toNat_shiftRight, Nat.shiftRight_eq_div_pow]
  have := b.toNat_lt
  change b.toNat / 2 ^ 4 < 16
  omega

theorem lo_lt (b : UInt8) : b &&& 0x0f < 16 := by
  rw [UInt8.lt_iff_toNat_lt, UInt8.toNat_and]
  exact Nat.lt_succ_of_le Nat.and_le_right

theorem join_digits (b : UInt8) :
    UInt8.ofInt (hex (hexchar (b >>> 4)) * 16) ||| UInt8.ofInt (hex (hexchar (b &&& 0x0f))) =
      b := by
  have hall : ∀ hi < 16, ∀ lo < 16, UInt8.ofInt ((hi : ℕ) * 16) ||| UInt8.ofInt (lo : ℕ) =
      UInt8.ofNat (16 * hi + lo) := by decide
  have hhi : (b >>> 4).toNat = b.toNat / 16 := by
    rw [UInt8.toNat_shiftRight, Nat.shiftRight_eq_div_pow]
    rfl
  have hlo : (b &&& 0x0f).toNat = b.toNat % 16 := by
    rw [UInt8.toNat_and]
    exact Nat.and_two_pow_sub_one_eq_mod b.toNat 4
  rw [hex_hexchar (hi_lt b), hex_hexchar (lo_lt b), hhi, hlo,
    hall _ (by have := b.toNat_lt; omega) _ (Nat.mod_lt _ (by decide)), Nat.div_add_mod,
    UInt8.ofNat_toNat]

theorem xmitcsum_byte2hex (b : UInt8) :
    xmitcsum (char (hexchar (b >>> 4))) (char (hexchar (b &&& 0x0f))) = b := by
  rw [xmitcsum, char_hexchar (hi_lt b), char_hexchar (lo_lt b), join_digits]

/-! ### One packet -/

theorem hunt_junk (hjunk : ∀ c ∈ junk, char c ≠ dollar) :
    hunt (junk ++ dollar :: inp) = some inp := by
  induction junk with
  | nil => exact if_pos rfl
  | cons c junk ih =>
    rw [List.cons_append, hunt, if_neg (hjunk c List.mem_cons_self)]
    exact ih fun c hc => hjunk c (List.mem_cons_of_mem _ hc)

theorem gather_data {n : ℕ} (hdata : ∀ c ∈ data, char c ≠ hash) (hn : data.length < n) :
    gather n (data ++ hash :: inp) = some (data.map char, true, inp) := by
  induction data generalizing n with
  | nil =>
    cases n with
    | zero => exact absurd hn (Nat.lt_irrefl _)
    | succ n => exact if_pos rfl
  | cons c data ih =>
    cases n with
    | zero => exact absurd hn (Nat.not_lt_zero _)
    | succ n =>
      rw [List.cons_append, gather, if_neg (hdata c List.mem_cons_self),
        ih (fun c hc => hdata c (List.mem_cons_of_mem _ hc)) (Nat.lt_of_succ_lt_succ hn)]
      rfl

/-- The third character of the buffer is none that ends a sequence number; it may come from an
earlier packet. -/
def Plain (buffer : List UInt8) : Prop := buffer.getD 2 0 ≠ colon

theorem zero_ne_colon : (0 : UInt8) ≠ colon := by decide

theorem plain_nil : Plain [] := zero_ne_colon

theorem Plain.stored (h : Plain buffer) (hdata : Plain data) : Plain (stored buffer data) := by
  match data, hdata with
  | [], _ =>
    cases buffer with
    | nil => exact zero_ne_colon
    | cons x buffer => exact h
  | [x], _ =>
    rcases buffer with _ | ⟨y, _ | ⟨z, buffer⟩⟩
    · exact zero_ne_colon
    · exact zero_ne_colon
    · exact h
  | [x, y], _ => exact zero_ne_colon
  | x :: y :: z :: data, hdata => exact hdata

theorem sequence_plain (h : Plain buffer) : sequence buffer = ([], buffer) := if_neg h

theorem str_stored (hdata : ∀ c ∈ data, c ≠ 0) : str (stored buffer data) = data := by
  rw [str, stored, List.takeWhile_append_of_pos fun c hc => decide_eq_true (hdata c hc),
    List.takeWhile_cons_of_neg (by decide), List.append_nil]

theorem getpacket_ended {inp1 inp2 : List UInt8} {c1 c2 : UInt8} (hstart : hunt inp = some inp1)
    (hend : gather BUFMAX inp1 = some (data, true, c1 :: c2 :: inp2)) :
    getpacket buffer inp =
      if checksum data = xmitcsum (char c1) (char c2) then
        some ((sequence (stored buffer data)).2, plus :: (sequence (stored buffer data)).1, inp2)
      else
        (getpacket (stored buffer data) inp2).map fun (buffer, out, inp) =>
          (buffer, minus :: out, inp) := by
  rw [getpacket]
  split
  · next h => exact absurd (hstart.symm.trans h) (Option.some_ne_none _)
  · next h =>
    obtain rfl := Option.some.inj (hstart.symm.trans h)
    split
    · next h => exact absurd (hend.symm.trans h) (Option.some_ne_none _)
    · next h => cases hend.symm.trans h
    · next h =>
      cases hend.symm.trans h
      rfl
    · next hno h =>
      cases hend.symm.trans h
      exact absurd rfl (hno _ _ _)

theorem getpacket_frame (hjunk : ∀ c ∈ junk, char c ≠ dollar)
    (hdata : ∀ c ∈ data, char c = c ∧ c ≠ hash ∧ c ≠ 0) (hlen : data.length < BUFMAX)
    (hbuffer : Plain buffer) (hplain : Plain data) :
    getpacket buffer (junk ++ frame data ++ inp) = some (stored buffer data, [plus], inp) := by
  have hstr : str data = data := by
    rw [str, List.takeWhile_eq_self_iff]
    exact fun c hc => decide_eq_true (hdata c hc).2.2
  have hmap : data.map char = data := by
    rw [List.map_congr_left fun c hc => (hdata c hc).1, List.map_id']
  have hline : junk ++ frame data ++ inp = junk ++ dollar :: (data ++ hash ::
      (hexchar (checksum data >>> 4) :: hexchar (checksum data &&& 0x0f) :: inp)) := by
    rw [frame, hstr]
    simp only [byte2hex, List.append_assoc, List.cons_append, List.nil_append]
  rw [hline, getpacket_ended (hunt_junk hjunk) (gather_data (fun c hc => by
    rw [(hdata c hc).1]
    exact (hdata c hc).2.1) hlen), hmap, xmitcsum_byte2hex, if_pos rfl,
    sequence_plain (hbuffer.stored hplain)]

/-! ### What is refused -/

/-- A packet that reaches the receiver with another sum than its own. -/
structure Attempt where
  junk : List UInt8
  data : List UInt8
  c1 : UInt8
  c2 : UInt8

def Attempt.line (a : Attempt) : List UInt8 := a.junk ++ dollar :: (a.data ++ [hash, a.c1, a.c2])

structure Attempt.Damaged (a : Attempt) : Prop where
  junk : ∀ c ∈ a.junk, char c ≠ dollar
  data : ∀ c ∈ a.data, char c ≠ hash
  fits : a.data.length < BUFMAX
  sum : checksum (a.data.map char) ≠ xmitcsum (char a.c1) (char a.c2)
  plain : Plain (a.data.map char)

theorem getpacket_damaged {a : Attempt} (ha : a.Damaged) :
    getpacket buffer (a.line ++ inp) =
      (getpacket (stored buffer (a.data.map char)) inp).map fun (buffer, out, inp) =>
        (buffer, minus :: out, inp) := by
  have hline : a.line ++ inp = a.junk ++ dollar :: (a.data ++ hash :: a.c1 :: a.c2 :: inp) := by
    simp only [Attempt.line, List.append_assoc, List.cons_append, List.nil_append]
  rw [hline, getpacket_ended (hunt_junk ha.junk) (gather_data ha.data ha.fits), if_neg ha.sum]

/-- Damaged packets are refused one by one, and the one after them is delivered. -/
theorem getpacket_attempts (inp : List UInt8) {attempts : List Attempt}
    (hbad : ∀ a ∈ attempts, a.Damaged)
    (hjunk : ∀ c ∈ junk, char c ≠ dollar)
    (hdata : ∀ c ∈ data, char c = c ∧ c ≠ hash ∧ c ≠ 0) (hlen : data.length < BUFMAX)
    (hbuffer : Plain buffer) (hplain : Plain data) :
    ∃ buffer', Plain buffer' ∧ str buffer' = data ∧
      getpacket buffer (attempts.flatMap Attempt.line ++ (junk ++ frame data ++ inp)) =
        some (buffer', List.replicate attempts.length minus ++ [plus], inp) := by
  induction attempts generalizing buffer with
  | nil =>
    exact ⟨stored buffer data, hbuffer.stored hplain, str_stored fun c hc => (hdata c hc).2.2,
      getpacket_frame hjunk hdata hlen hbuffer hplain⟩
  | cons a attempts ih =>
    have ha := hbad a List.mem_cons_self
    obtain ⟨buffer', hplain', hstr, hrun⟩ := ih (fun a ha => hbad a (List.mem_cons_of_mem _ ha))
      (hbuffer.stored ha.plain)
    refine ⟨buffer', hplain', hstr, ?_⟩
    rw [List.flatMap_cons, List.append_assoc, getpacket_damaged ha, hrun]
    rfl

theorem putpacket_retries {retries : List UInt8} (hretries : ∀ c ∈ retries, char c ≠ plus) :
    putpacket buffer (retries ++ plus :: inp) =
      some ((List.replicate (retries.length + 1) (frame buffer)).flatten, inp) := by
  induction retries with
  | nil =>
    rw [List.nil_append, putpacket, if_neg (by decide)]
    exact congrArg (fun out => some (out, inp)) (List.append_nil _).symm
  | cons c retries ih =>
    rw [List.cons_append, putpacket, if_pos (hretries c List.mem_cons_self),
      ih fun c hc => hretries c (List.mem_cons_of_mem _ hc)]
    rfl

end UBoot.Kgdb
