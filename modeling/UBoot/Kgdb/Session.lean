import UBoot.Kgdb.Stub

/-!
# A session with the debugger

Whatever the line does to packets before it delivers one, and however often a reply is asked for
again, every request of the debugger is carried out once and in order, and its reply is the only
one: the loop of `handle_exception` is `Request.apply` over the requests (`serve_session`).
-/

namespace UBoot.Kgdb

/-! ### Digits -/

structure Numeral where
  digits : List UInt8
  ne_nil : digits ≠ []
  digit : ∀ c ∈ digits, 0 ≤ hex c

def Numeral.value (n : Numeral) : UInt32 :=
  n.digits.foldl (fun v c => v <<< 4 ||| UInt32.ofInt (hex c)) 0

def Clean (c : UInt8) : Prop := char c = c ∧ c ≠ hash ∧ c ≠ 0

variable {c b : UInt8} {bytes rest ds ptr : List UInt8} {a l r : Numeral} {v : UInt32} {k : ℕ}
  {σ : Type*} {s : σ} {store : UInt8 → σ → Option σ}

theorem clean_of_digit (h : 0 ≤ hex c) : Clean c := by
  have hrange : 0x30 ≤ c.toNat ∧ c.toNat ≤ 0x66 := by
    rw [hex] at h
    simp only [UInt8.le_iff_toNat_le, UInt8.reduceToNat] at h
    split_ifs at h <;> omega
  refine ⟨UInt8.toNat_inj.1 ?_, ?_, ?_⟩
  · rw [char, UInt8.toNat_and]
    exact (Nat.and_two_pow_sub_one_eq_mod c.toNat 7).trans (Nat.mod_eq_of_lt (by omega))
  · rintro rfl
    exact absurd hrange.1 (by decide)
  · rintro rfl
    exact absurd hrange.1 (by decide)

theorem digit_hexchar {d : UInt8} (hd : d < 16) : 0 ≤ hex (hexchar d) := by
  rw [hex_hexchar hd]
  exact Int.natCast_nonneg _

theorem digit_mem2hex : ∀ c ∈ mem2hex bytes, 0 ≤ hex c := by
  intro c hc
  obtain ⟨b, -, hb⟩ := List.mem_flatMap.1 hc
  rcases List.mem_cons.1 hb with rfl | hb
  · exact digit_hexchar (hi_lt b)
  · rw [List.mem_singleton.1 hb]
    exact digit_hexchar (lo_lt b)

theorem mem2hex_length : (mem2hex bytes).length = 2 * bytes.length := by
  rw [mem2hex, List.length_flatMap]
  change (bytes.map fun _ => 2).sum = _
  rw [List.map_const', List.sum_replicate, smul_eq_mul, Nat.mul_comm]

/-- What the digits of bytes do to what stores them. -/
def storeAll (store : UInt8 → σ → Option σ) : List UInt8 → σ → Option ℕ × σ
  | [], s => (none, s)
  | b :: bytes, s =>
    match store b s with
    | none => (some KGDBERR_MEMFAULT, s)
    | some s => storeAll store bytes s

theorem hex2mem_mem2hex (store : UInt8 → σ → Option σ) (bytes rest : List UInt8) (s : σ) :
    hex2mem store bytes.length (mem2hex bytes ++ rest) s = storeAll store bytes s := by
  induction bytes generalizing s with
  | nil => rfl
  | cons b bytes ih =>
    change hex2mem store (bytes.length + 1) (hexchar (b >>> 4) :: hexchar (b &&& 0x0f) ::
      (mem2hex bytes ++ rest)) s = _
    rw [hex2mem, if_neg (not_lt.2 (digit_hexchar (hi_lt b))),
      if_neg (not_lt.2 (digit_hexchar (lo_lt b))), join_digits, storeAll]
    cases store b s with
    | none => rfl
    | some s => exact ih s

theorem storeAll_reg {buf : List UInt8} : storeAll storeReg bytes buf = (none, buf ++ bytes) := by
  induction bytes generalizing buf with
  | nil => rw [List.append_nil]; rfl
  | cons b bytes ih =>
    change storeAll storeReg bytes (buf ++ [b]) = _
    rw [ih, List.append_assoc]
    rfl

theorem hexToInt_digits (hds : ∀ c ∈ ds, 0 ≤ hex c) (hrest : ∀ c ∈ rest.head?, hex c < 0) :
    hexToInt (ds ++ rest) k v =
      (k + ds.length, ds.foldl (fun (v : UInt32) c => v <<< 4 ||| UInt32.ofInt (hex c)) v,
        rest) := by
  induction ds generalizing k v with
  | nil =>
    cases rest with
    | nil => rfl
    | cons c rest => exact if_pos (hrest c rfl)
  | cons c ds ih =>
    rw [List.cons_append, hexToInt, if_neg (not_lt.2 (hds c List.mem_cons_self)),
      ih fun c hc => hds c (List.mem_cons_of_mem _ hc), List.length_cons, Nat.add_right_comm]
    rfl

theorem Numeral.hexToInt (a : Numeral) (rest : List UInt8) (hrest : ∀ c ∈ rest.head?, hex c < 0) :
    ∃ k, Kgdb.hexToInt (a.digits ++ rest) 0 0 = (k + 1, a.value, rest) := by
  obtain ⟨k, hk⟩ := Nat.exists_eq_succ_of_ne_zero (mt List.length_eq_zero_iff.1 a.ne_nil)
  refine ⟨k, ?_⟩
  rw [hexToInt_digits a.digit hrest, Nat.zero_add, hk]
  rfl

theorem Numeral.number {sep : UInt8} (hsep : hex sep < 0) :
    Kgdb.number sep (a.digits ++ sep :: rest) = some (a.value, rest) := by
  obtain ⟨k, hk⟩ := a.hexToInt (sep :: rest) fun c hc => by
    rwa [← Option.some.inj hc]
  rw [Kgdb.number, hk]
  exact if_pos rfl

/-! ### Requests -/

inductive Request where
  | query
  | getRegs
  | putRegs (bytes : List UInt8)
  | read (addr length : Numeral)
  | write (addr length : Numeral) (bytes : List UInt8)
  | putReg (regno : Numeral) (bytes : List UInt8)

namespace Request

def packet : Request → List UInt8
  | .query => [0x3f]
  | .getRegs => [0x67]
  | .putRegs bytes => 0x47 :: mem2hex bytes
  | .read addr length => 0x6d :: (addr.digits ++ 0x2c :: length.digits)
  | .write addr length bytes =>
    0x4d :: (addr.digits ++ 0x2c :: (length.digits ++ 0x3a :: mem2hex bytes))
  | .putReg regno bytes => 0x50 :: (regno.digits ++ 0x3d :: mem2hex bytes)

def changed (m : Machine) : Except ℕ PtRegs → List UInt8 × Machine
  | .error errnum => (errorReply errnum, m)
  | .ok regs => (okReply, { m with regs })

/-- What a request means: its reply and its effect. -/
def apply (sigval : UInt8) : Request → Machine → List UInt8 × Machine
  | .query, m => (0x53 :: byte2hex sigval, m)
  | .getRegs, m => (mem2hex (kgdbGetregs m.regs), m)
  | .putRegs bytes, m => changed m (kgdbPutregs m.regs bytes)
  | .read addr length, m =>
    match readMem m.mem (turns length.value) addr.value with
    | none => (errorReply KGDBERR_MEMFAULT, m)
    | some bytes => (mem2hex bytes, m)
  | .write addr _ bytes, m =>
    match storeAll storeMem bytes (addr.value, m.mem) with
    | (some errnum, _, mem) => (errorReply errnum, { m with mem })
    | (none, _, mem) => (okReply, { m with mem })
  | .putReg regno bytes, m => changed m (kgdbPutreg m.regs regno.value.toInt32.toInt bytes)

/-- The packet and the reply fit into their buffers, and a write has as many bytes as it says. -/
structure Valid (r : Request) : Prop where
  fits : r.packet.length < BUFMAX
  read : ∀ addr length, r = .read addr length → 2 * turns length.value < BUFMAX
  write : ∀ addr length bytes, r = .write addr length bytes → turns length.value = bytes.length

end Request

theorem mem2hex_half : (mem2hex bytes).length / 2 = bytes.length := by
  rw [mem2hex_length]
  omega

theorem hex2mem_reg : hex2mem storeReg ((mem2hex bytes).length / 2) (mem2hex bytes) [] =
    (none, bytes) := by
  have h := hex2mem_mem2hex storeReg bytes [] []
  rw [List.append_nil, storeAll_reg, List.nil_append] at h
  rwa [mem2hex_half]

theorem putReply_changed (m : Machine) (e : Except ℕ PtRegs) :
    putReply m e = .reply (Request.changed m e).1 (Request.changed m e).2 := by
  cases e <;> rfl

theorem command_packet {sigval : UInt8} {entry : PtRegs} {request : Request} (h : request.Valid)
    (m : Machine) : command sigval entry request.packet m =
      .reply (request.apply sigval m).1 (request.apply sigval m).2 := by
  cases request with
  | query => rfl
  | getRegs => rfl
  | putRegs bytes =>
    change putRegs (mem2hex bytes) m = _
    rw [putRegs, if_neg (by rw [mem2hex_length]; omega), hex2mem_reg]
    exact putReply_changed m _
  | read addr length =>
    change readMemory (addr.digits ++ 0x2c :: length.digits) m = _
    have hturns := h.read addr length rfl
    obtain ⟨k, hk⟩ := length.hexToInt [] nofun
    rw [List.append_nil] at hk
    rw [readMemory, addr.number (by decide)]
    dsimp only
    rw [hk]
    dsimp only
    rw [Nat.min_eq_left (by unfold BUFMAX at *; omega), Request.apply]
    cases readMem m.mem (turns length.value) addr.value with
    | none => rfl
    | some bytes => exact if_neg (Nat.not_le.2 hturns)
  | write addr length bytes =>
    change writeMemory (addr.digits ++ 0x2c :: (length.digits ++ 0x3a :: mem2hex bytes)) m = _
    have hstore := hex2mem_mem2hex storeMem bytes [] (addr.value, m.mem)
    rw [List.append_nil, ← h.write addr length bytes rfl] at hstore
    rw [writeMemory, addr.number (by decide)]
    dsimp only
    rw [length.number (by decide)]
    dsimp only
    rw [hstore, Request.apply]
    rcases storeAll storeMem bytes (addr.value, m.mem) with ⟨_ | errnum, addr', mem⟩ <;> rfl
  | putReg regno bytes =>
    change putReg (regno.digits ++ 0x3d :: mem2hex bytes) m = _
    rw [putReg, regno.number (by decide)]
    dsimp only
    rw [if_neg (by rw [mem2hex_length]; omega), hex2mem_reg]
    exact putReply_changed m _

/-! ### Packets -/

theorem clean_mem2hex : ∀ c ∈ mem2hex bytes, Clean c := fun c hc =>
  clean_of_digit (digit_mem2hex c hc)

theorem Numeral.clean : ∀ c ∈ a.digits, Clean c := fun c hc => clean_of_digit (a.digit c hc)

theorem Request.clean (request : Request) : ∀ c ∈ request.packet, Clean c := by
  have hcomma : Clean 0x2c := ⟨by decide, by decide, by decide⟩
  have hequal : Clean 0x3d := ⟨by decide, by decide, by decide⟩
  have hcolon : Clean 0x3a := ⟨by decide, by decide, by decide⟩
  cases request with
  | query => exact List.forall_mem_singleton.2 ⟨by decide, by decide, by decide⟩
  | getRegs => exact List.forall_mem_singleton.2 ⟨by decide, by decide, by decide⟩
  | putRegs bytes =>
    exact List.forall_mem_cons.2 ⟨⟨by decide, by decide, by decide⟩, clean_mem2hex⟩
  | read addr length =>
    refine List.forall_mem_cons.2 ⟨⟨by decide, by decide, by decide⟩, ?_⟩
    exact List.forall_mem_append.2 ⟨addr.clean, List.forall_mem_cons.2 ⟨hcomma, length.clean⟩⟩
  | write addr length bytes =>
    refine List.forall_mem_cons.2 ⟨⟨by decide, by decide, by decide⟩, ?_⟩
    refine List.forall_mem_append.2 ⟨addr.clean, List.forall_mem_cons.2 ⟨hcomma, ?_⟩⟩
    exact List.forall_mem_append.2
      ⟨length.clean, List.forall_mem_cons.2 ⟨hcolon, clean_mem2hex⟩⟩
  | putReg regno bytes =>
    refine List.forall_mem_cons.2 ⟨⟨by decide, by decide, by decide⟩, ?_⟩
    exact List.forall_mem_append.2 ⟨regno.clean, List.forall_mem_cons.2 ⟨hequal, clean_mem2hex⟩⟩

theorem ne_colon_of_digit (h : 0 ≤ hex c) : c ≠ colon := by
  rintro rfl
  exact absurd h (by decide)

/-- A number does not end a sequence number. -/
theorem Numeral.plain (hrest : rest.getD 0 0 ≠ colon) : Plain (c :: (a.digits ++ rest)) := by
  have hdigit := a.digit
  match hds : a.digits, a.ne_nil with
  | [d], _ => exact hrest
  | d :: e :: ds, _ =>
    rw [hds] at hdigit
    exact ne_colon_of_digit (hdigit e (List.mem_cons_of_mem _ List.mem_cons_self))

theorem plain_mem2hex : Plain (c :: mem2hex bytes) := by
  cases bytes with
  | nil => exact zero_ne_colon
  | cons b bytes => exact ne_colon_of_digit (digit_hexchar (lo_lt b))

theorem Request.plain (request : Request) : Plain request.packet := by
  cases request with
  | query => exact zero_ne_colon
  | getRegs => exact zero_ne_colon
  | putRegs bytes => exact plain_mem2hex
  | read addr length => exact addr.plain (by decide : (0x2c : UInt8) ≠ colon)
  | write addr length bytes => exact addr.plain (by decide : (0x2c : UInt8) ≠ colon)
  | putReg regno bytes => exact regno.plain (by decide : (0x3d : UInt8) ≠ colon)

/-! ### Sessions -/

/-- A request that the line delivers after some attempts, and whose reply is asked for again some
times. -/
structure Exchange where
  request : Request
  attempts : List Attempt
  junk : List UInt8
  retries : List UInt8

namespace Exchange

structure Fair (e : Exchange) : Prop where
  valid : e.request.Valid
  attempts : ∀ a ∈ e.attempts, a.Damaged
  junk : ∀ c ∈ e.junk, char c ≠ dollar
  retries : ∀ c ∈ e.retries, char c ≠ plus

def input (e : Exchange) : List UInt8 :=
  e.attempts.flatMap Attempt.line ++ (e.junk ++ frame e.request.packet) ++ (e.retries ++ [plus])

def answer (sigval : UInt8) (e : Exchange) (m : Machine) : List UInt8 × Machine :=
  let (reply, m) := e.request.apply sigval m
  (List.replicate e.attempts.length minus ++ [plus] ++
    (List.replicate (e.retries.length + 1) (frame reply)).flatten, m)

end Exchange

def answers (sigval : UInt8) : List Exchange → Machine → List UInt8 × Machine
  | [], m => ([], m)
  | e :: exchanges, m =>
    let (out, m) := e.answer sigval m
    let (rest, m) := answers sigval exchanges m
    (out ++ rest, m)

variable {sigval : UInt8} {entry : PtRegs} {buffer inp : List UInt8} {m : Machine}

theorem serve_reply {buffer' ack inp1 out sent inp2 : List UInt8} {m' : Machine}
    (hget : getpacket buffer inp = some (buffer', ack, inp1))
    (hcmd : command sigval entry (str buffer') m = .reply out m')
    (hput : putpacket out inp1 = some (sent, inp2)) :
    serve sigval entry buffer m inp =
      (serve sigval entry buffer' m' inp2).map fun (out, last) => (ack ++ sent ++ out, last) := by
  rw [serve]
  split
  · next h => exact absurd (hget.symm.trans h) (Option.some_ne_none _)
  · next h =>
    cases hget.symm.trans h
    split
    · next h =>
      cases hcmd.symm.trans h
      split
      · next h => exact absurd (hput.symm.trans h) (Option.some_ne_none _)
      · next h =>
        cases hput.symm.trans h
        rfl
    · next hno => exact absurd hcmd (hno _ _)

theorem serve_resume {buffer' ack inp1 : List UInt8} {m' : Machine}
    (hget : getpacket buffer inp = some (buffer', ack, inp1))
    (hcmd : command sigval entry (str buffer') m = .resume m') :
    serve sigval entry buffer m inp = some (ack, cut buffer', .resume m', inp1) := by
  rw [serve]
  split
  · next h => exact absurd (hget.symm.trans h) (Option.some_ne_none _)
  · next h =>
    cases hget.symm.trans h
    split
    · next h => cases hcmd.symm.trans h
    · rw [hcmd]

theorem serve_exchange (sigval : UInt8) (entry : PtRegs) (m : Machine) (inp : List UInt8)
    {e : Exchange} (he : e.Fair) (hbuffer : Plain buffer) :
    ∃ buffer', Plain buffer' ∧ serve sigval entry buffer m (e.input ++ inp) =
      (serve sigval entry buffer' (e.answer sigval m).2 inp).map fun (out, last) =>
        ((e.answer sigval m).1 ++ out, last) := by
  obtain ⟨buffer', hplain, hstr, hget⟩ := getpacket_attempts (e.retries ++ plus :: inp)
    he.attempts he.junk e.request.clean he.valid.fits hbuffer e.request.plain
  have hline : e.input ++ inp = e.attempts.flatMap Attempt.line ++
      (e.junk ++ frame e.request.packet ++ (e.retries ++ plus :: inp)) := by
    simp only [Exchange.input, List.append_assoc, List.singleton_append]
  have hcmd : command sigval entry (str buffer') m =
      .reply (e.request.apply sigval m).1 (e.request.apply sigval m).2 := by
    rw [hstr]
    exact command_packet he.valid m
  refine ⟨buffer', hplain, ?_⟩
  rw [hline, serve_reply hget hcmd (putpacket_retries he.retries)]
  rfl

theorem serve_session {exchanges : List Exchange} (hfair : ∀ e ∈ exchanges, e.Fair)
    (hbuffer : Plain buffer) :
    ∃ buffer', Plain buffer' ∧
      serve sigval entry buffer m (exchanges.flatMap Exchange.input ++ inp) =
        (serve sigval entry buffer' (answers sigval exchanges m).2 inp).map fun (out, last) =>
          ((answers sigval exchanges m).1 ++ out, last) := by
  induction exchanges generalizing buffer m with
  | nil =>
    refine ⟨buffer, hbuffer, ?_⟩
    change serve sigval entry buffer m inp = (serve sigval entry buffer m inp).map id
    rw [Option.map_id, id]
  | cons e exchanges ih =>
    obtain ⟨buffer1, hbuffer1, hfirst⟩ := serve_exchange sigval entry m
      (exchanges.flatMap Exchange.input ++ inp) (hfair e List.mem_cons_self) hbuffer
    obtain ⟨buffer2, hbuffer2, hrest⟩ :=
      ih (m := (e.answer sigval m).2) (fun e he => hfair e (List.mem_cons_of_mem _ he)) hbuffer1
    refine ⟨buffer2, hbuffer2, ?_⟩
    rw [List.flatMap_cons, List.append_assoc, hfirst, hrest, Option.map_map]
    refine congrArg (Option.map · _) (funext fun ⟨out, last⟩ => ?_)
    exact congrArg (·, last) (List.append_assoc _ _ _).symm

/-! ### The way back -/

inductive Resume where
  | kill
  | cont (addr : Option Numeral)
  | contSignal (signal : Numeral)
  | single (addr : Option Numeral)
  | singleSignal (signal : Numeral)

namespace Resume

def digits : Option Numeral → List UInt8
  | none => []
  | some a => a.digits

def packet : Resume → List UInt8
  | .kill => [0x6b]
  | .cont addr => 0x63 :: digits addr
  | .contSignal signal => 0x43 :: signal.digits
  | .single addr => 0x73 :: digits addr
  | .singleSignal signal => 0x53 :: signal.digits

def goto (regs : PtRegs) : Option Numeral → PtRegs
  | none => regs
  | some a => { regs with nip := a.value }

def trace (regs : PtRegs) : PtRegs := { regs with msr := regs.msr ||| MSR_SE }

/-- The registers with which the processor goes on. -/
def apply (entry regs : PtRegs) : Resume → PtRegs
  | .kill => entry
  | .cont addr => goto regs addr
  | .contSignal _ => regs
  | .single addr => trace (goto regs addr)
  | .singleSignal _ => trace regs

end Resume

theorem withAddr_digits (addr : Option Numeral) (regs : PtRegs) :
    withAddr (Resume.digits addr) regs = Resume.goto regs addr := by
  cases addr with
  | none => rfl
  | some a =>
    obtain ⟨k, hk⟩ := a.hexToInt [] nofun
    rw [List.append_nil] at hk
    rw [Resume.digits, withAddr, hk]
    rfl

theorem command_resume (resume : Resume) (m : Machine) :
    command sigval entry resume.packet m =
      .resume { m with regs := resume.apply entry m.regs } := by
  cases resume with
  | kill => rfl
  | cont addr =>
    change Outcome.resume { m with regs := withAddr (Resume.digits addr) m.regs } = _
    rw [withAddr_digits]
    rfl
  | contSignal signal => rfl
  | single addr =>
    change Outcome.resume { m with
      regs := Resume.trace (withAddr (Resume.digits addr) m.regs) } = _
    rw [withAddr_digits]
    rfl
  | singleSignal signal => rfl

theorem Resume.clean (resume : Resume) : ∀ c ∈ resume.packet, Clean c := by
  have hdigits : ∀ addr, ∀ c ∈ Resume.digits addr, Clean c := fun addr => by
    cases addr with
    | none => exact List.forall_mem_nil _
    | some a => exact a.clean
  cases resume with
  | kill => exact List.forall_mem_singleton.2 ⟨by decide, by decide, by decide⟩
  | cont addr => exact List.forall_mem_cons.2 ⟨⟨by decide, by decide, by decide⟩, hdigits addr⟩
  | contSignal signal =>
    exact List.forall_mem_cons.2 ⟨⟨by decide, by decide, by decide⟩, signal.clean⟩
  | single addr =>
    exact List.forall_mem_cons.2 ⟨⟨by decide, by decide, by decide⟩, hdigits addr⟩
  | singleSignal signal =>
    exact List.forall_mem_cons.2 ⟨⟨by decide, by decide, by decide⟩, signal.clean⟩

theorem Resume.plain (resume : Resume) : Plain resume.packet := by
  have hnumber : ∀ (cmd : UInt8) (a : Numeral), Plain (cmd :: a.digits) := fun cmd a => by
    rw [← List.append_nil a.digits]
    exact a.plain zero_ne_colon
  have hdigits : ∀ (cmd : UInt8) addr, Plain (cmd :: Resume.digits addr) := fun cmd addr => by
    cases addr with
    | none => exact zero_ne_colon
    | some a => exact hnumber cmd a
  cases resume with
  | kill => exact zero_ne_colon
  | cont addr => exact hdigits _ addr
  | contSignal signal => exact hnumber _ signal
  | single addr => exact hdigits _ addr
  | singleSignal signal => exact hnumber _ signal

/-- What ends a session, and how it gets through. -/
structure Farewell where
  resume : Resume
  attempts : List Attempt
  junk : List UInt8

structure Farewell.Fair (f : Farewell) : Prop where
  fits : f.resume.packet.length < BUFMAX
  attempts : ∀ a ∈ f.attempts, a.Damaged
  junk : ∀ c ∈ f.junk, char c ≠ dollar

def Farewell.input (f : Farewell) : List UInt8 :=
  f.attempts.flatMap Attempt.line ++ (f.junk ++ frame f.resume.packet)

theorem Plain.cut (h : Plain buffer) : Plain (cut buffer) := by
  rw [Kgdb.cut]
  split_ifs
  · rw [Plain, List.getD_eq_getElem?_getD, List.getElem?_set_ne (by decide),
      ← List.getD_eq_getElem?_getD]
    exact h
  · exact h

theorem getD_of_str {ch : UInt8} {s : List UInt8} (h : str buffer = ch :: s) :
    buffer.getD 0 0 = ch := by
  cases buffer with
  | nil => cases h
  | cons x buffer =>
    rw [str, List.takeWhile_cons] at h
    split_ifs at h
    exact (List.cons.inj h).1

theorem cut_head : (cut buffer).getD 0 0 = buffer.getD 0 0 := by
  rw [cut]
  split_ifs
  · cases buffer <;> rfl
  · rfl

/-- `entry_regs` behind a session; a killed program is entered anew. -/
def Resume.entryRegs (entry : PtRegs) : Resume → Option PtRegs
  | .kill => none
  | _ => some entry

theorem Resume.entryRegs_of_str {resume : Resume} (h : str buffer = resume.packet) :
    (if buffer.getD 0 0 = 0x6b then none else some entry) = resume.entryRegs entry := by
  cases resume with
  | kill => exact if_pos (getD_of_str h)
  | cont addr => exact if_neg (by rw [getD_of_str h]; decide)
  | contSignal signal => exact if_neg (by rw [getD_of_str h]; decide)
  | single addr => exact if_neg (by rw [getD_of_str h]; decide)
  | singleSignal signal => exact if_neg (by rw [getD_of_str h]; decide)

/-! ### From one exception to its end -/

/-- What the debugger sends from one exception on: answers to the stop packet, requests, and what
lets the processor go on. -/
structure Session where
  retries : List UInt8
  exchanges : List Exchange
  farewell : Farewell

namespace Session

structure Fair (s : Session) : Prop where
  retries : ∀ c ∈ s.retries, char c ≠ plus
  exchanges : ∀ e ∈ s.exchanges, e.Fair
  farewell : s.farewell.Fair

def input (s : Session) : List UInt8 :=
  s.retries ++ plus :: (s.exchanges.flatMap Exchange.input ++ s.farewell.input)

/-- What a session means: what is sent, `entry_regs`, and the machine that goes on. -/
def meaning (breakinst : UInt32) (entryRegs : Option PtRegs) (s : Session) (m : Machine) :
    List UInt8 × Option PtRegs × Machine :=
  let regs := kgdbEnter breakinst m.regs
  let sigval := computeSignal regs.trap
  let entry := entryRegs.getD regs
  let (out, m) := answers sigval s.exchanges { m with regs }
  ((List.replicate (s.retries.length + 1) (frame (stopPacket sigval regs))).flatten ++
      (out ++ (List.replicate s.farewell.attempts.length minus ++ [plus])),
    s.farewell.resume.entryRegs entry,
    { m with regs := s.farewell.resume.apply entry m.regs })

end Session

/-- **A session.** The stop packet is repeated until it is acknowledged; every request is carried
out once, in order, and answered with what it means; then the processor goes on with the registers
that the last packet leaves, and the stub is ready for the next exception. -/
theorem handleException_session {breakinst : UInt32} {entryRegs : Option PtRegs} {s : Session}
    (hplain : Plain buffer) (hfair : s.Fair) :
    ∃ buffer', Plain buffer' ∧
      handleException breakinst ⟨buffer, entryRegs⟩ m (s.input ++ inp) =
        some ((s.meaning breakinst entryRegs m).1,
          ⟨buffer', (s.meaning breakinst entryRegs m).2.1⟩,
          .resume (s.meaning breakinst entryRegs m).2.2, inp) := by
  obtain ⟨retries, exchanges, farewell⟩ := s
  obtain ⟨hretries, hexchanges, hfarewell⟩ := hfair
  set regs := kgdbEnter breakinst m.regs with hregs
  set sigval := computeSignal regs.trap with hsigval
  set entry := entryRegs.getD regs with hentry
  obtain ⟨buffer1, hbuffer1, hserve⟩ := @serve_session sigval entry buffer
    (farewell.input ++ inp) { m with regs } exchanges hexchanges hplain
  set m1 := (answers sigval exchanges { m with regs }).2
  obtain ⟨buffer2, hbuffer2, hstr, hget⟩ := getpacket_attempts inp hfarewell.attempts
    hfarewell.junk farewell.resume.clean hfarewell.fits hbuffer1 farewell.resume.plain
  have hline : farewell.input ++ inp = farewell.attempts.flatMap Attempt.line ++
      (farewell.junk ++ frame farewell.resume.packet ++ inp) := by
    simp only [Farewell.input, List.append_assoc]
  have hinput : Session.input ⟨retries, exchanges, farewell⟩ ++ inp = retries ++ plus ::
      (exchanges.flatMap Exchange.input ++ (farewell.input ++ inp)) := by
    simp only [Session.input, List.append_assoc, List.cons_append]
  have hlast : serve sigval entry buffer1 m1 (farewell.input ++ inp) = some
      (List.replicate farewell.attempts.length minus ++ [plus], cut buffer2,
        .resume { m1 with regs := farewell.resume.apply entry m1.regs }, inp) := by
    rw [hline]
    refine serve_resume hget ?_
    rw [hstr]
    exact command_resume farewell.resume m1
  refine ⟨cut buffer2, hbuffer2.cut, ?_⟩
  rw [handleException, hinput, ← hregs, ← hsigval, ← hentry, putpacket_retries hretries]
  dsimp only
  rw [hserve, hlast]
  refine congrArg some (Prod.ext rfl (Prod.ext ?_ rfl))
  refine congrArg (Stub.mk (cut buffer2)) ?_
  rw [cut_head]
  exact Resume.entryRegs_of_str hstr

/-- The debugger stores a byte at `10`, for which it needs two attempts, and kills the program. -/
def Session.sample : Session where
  retries := [minus]
  exchanges := [{
    request := .write ⟨[0x31, 0x30], List.cons_ne_nil _ _,
      List.forall_mem_cons.2 ⟨by decide, List.forall_mem_singleton.2 (by decide)⟩⟩
      ⟨[0x31], List.cons_ne_nil _ _, List.forall_mem_singleton.2 (by decide)⟩ [7]
    attempts := [⟨[], [0x4d], 0x30, 0x30⟩]
    junk := [plus]
    retries := [minus] }]
  farewell := ⟨.kill, [], []⟩

def Machine.zero : Machine where
  mem _ := some 0
  regs := ⟨fun _ => 0, 0, 0, 0, 0, 0, 0, 0x700⟩

theorem Session.sample_fair : Session.sample.Fair where
  retries := List.forall_mem_singleton.2 (by decide)
  exchanges := List.forall_mem_singleton.2 {
    valid := ⟨by decide, nofun, fun addr length bytes h => by cases h; decide⟩
    attempts := List.forall_mem_singleton.2 ⟨List.forall_mem_nil _,
      List.forall_mem_singleton.2 (by decide), by decide, by decide, zero_ne_colon⟩
    junk := List.forall_mem_singleton.2 (by decide)
    retries := List.forall_mem_singleton.2 (by decide) }
  farewell := ⟨by decide, List.forall_mem_nil _, List.forall_mem_nil _⟩

theorem handleException_session_sample :
    ∃ buffer', Plain buffer' ∧
      handleException 0 ⟨[], none⟩ Machine.zero (Session.sample.input ++ [plus]) =
        some ((Session.sample.meaning 0 none Machine.zero).1,
          ⟨buffer', (Session.sample.meaning 0 none Machine.zero).2.1⟩,
          .resume (Session.sample.meaning 0 none Machine.zero).2.2, [plus]) :=
  handleException_session plain_nil Session.sample_fair

example : (Session.sample.meaning 0 none Machine.zero).2.2.mem 0x10 = some 7 := by decide

end UBoot.Kgdb
