import UBoot.Common.Strings
import UBoot.Lib.BigEndian
import UBoot.Lib.Loop

/-!
# The modify commands (`common/cmd_mem.c`, `common/cmd_i2c.c`)

`mm`, `nm`, `imm` and `inm` show a value and read a line: a number is stored, an empty line goes on
to the next address, anything else ends the command. A repeated command goes on from what the last
one left in static variables. `modify_repeat_iff`: for memory it does so, for a chip almost never.
-/

namespace UBoot.Command

open UBoot.Lib UBoot.Common

/-- What `readline` returns; after a break the buffer is empty. -/
inductive Line where
  | text (s : CStr)
  | brk
  | timedOut

/-- `endp - console_buffer`: the characters of a number. -/
def converted (buffer : List UInt8) : ℕ := buffer.length - (simpleStrtoul 16 buffer).2.length

def cmdGetDataSize (arg : CStr) (defaultSize : ℕ) : ℕ :=
  match arg.bytes.reverse with
  | c :: 46 :: _ :: _ =>
    if c = 98 then 1 else if c = 119 then 2 else if c = 108 then 4 else defaultSize
  | _ => defaultSize

/-! ## `mod_mem` -/

/-- `mm_last_addr` and `mm_last_size`. -/
structure MmLast where
  addr : UInt32
  size : UInt32

/-- The bytes of a word, a half word or a byte in memory. -/
def sizeBytes (hostBE : Bool) (size i : UInt32) : List UInt8 :=
  let data := if size = 4 then beBytes i else if size = 2 then (beBytes i).drop 2
    else (beBytes i).drop 3
  if hostBE then data else data.reverse

section
variable (hostBE incrflag : Bool) (size : UInt32)

/-- One turn of the loop of `mod_mem`, with the address and memory. -/
def modMemStep (s : UInt32 × Mem32) : Line → (UInt32 × Mem32) × Bool
  | .text line =>
    if line.bytes = [] then ((if incrflag then s.1 + size else s.1, s.2), true)
    else if line.bytes = [45] then ((if incrflag then s.1 - size else s.1, s.2), true)
    else if converted line.bytes ≠ 0 then
      ((if incrflag then s.1 + size else s.1,
        s.2.store s.1 (sizeBytes hostBE size (UInt32.ofNat (simpleStrtoul 16 line.bytes).1))), true)
    else (s, false)
  | .brk | .timedOut => (s, false)

end

/-- `mod_mem`: the value it returns, what it remembers, and memory. -/
def modMem (hostBE incrflag isRepeat : Bool) (baseAddress : UInt32) (last : MmLast)
    (argv : List CStr) (m : Mem32) (lines : List Line) : Option (ℕ × MmLast × Mem32) :=
  match argv with
  | [name, arg] =>
    let size := if isRepeat then last.size else UInt32.ofNat (cmdGetDataSize name 4)
    let addr := if isRepeat then last.addr
      else UInt32.ofNat (simpleStrtoul 16 arg.bytes).1 + baseAddress
    match loop (modMemStep hostBE incrflag size) (addr, m) lines with
    | some (addr, m) => some (0, ⟨addr, size⟩, m)
    | none => none
  | _ => some (1, last, m)

/-! ## `mod_i2c_mem` -/

/-- `i2c_mm_last_chip`, `i2c_mm_last_addr` and `i2c_mm_last_alen`. -/
structure I2cLast where
  chip : UInt8
  addr : UInt32
  alen : UInt32

/-- A call of `i2c_write`, with the bytes it is given. -/
structure I2cWrite where
  chip : UInt8
  addr : UInt32
  alen : UInt32
  data : List UInt8
  deriving DecidableEq

/-- The address length behind a `.` in the first 8 characters. -/
def i2cAlen : ℕ → List UInt8 → Option UInt32
  | j + 1, c :: arg =>
    if c = 46 then
      let alen := (arg.headD 0).toUInt32 - 48
      if alen > 4 then none else some alen
    else i2cAlen j arg
  | _, _ => some 1

/-- The value in the bytes of `data`, from its first address on. -/
def i2cData (size value : UInt32) : List UInt8 :=
  let data := if size = 1 then value <<< 24 else if size = 2 then value <<< 16 else value
  (beBytes data).take size.toNat

@[ext] structure I2cPlace where
  chip : UInt8
  addr : UInt32
  alen : UInt32
  size : UInt32
  deriving DecidableEq

/-- What a new command is given; `none` is an address length of more than 4. -/
def i2cArgs (name chip addr : CStr) : Option I2cPlace :=
  (i2cAlen 8 addr.bytes).map fun alen =>
    { chip := UInt8.ofNat (simpleStrtoul 16 chip.bytes).1
      addr := UInt32.ofNat (simpleStrtoul 16 addr.bytes).1
      alen, size := UInt32.ofNat (cmdGetDataSize name 1) }

def I2cLast.place (last : I2cLast) : I2cPlace := ⟨last.chip, last.addr, last.alen, 1⟩

/-- One turn of the loop of `mod_i2c_mem`, with the address and the writes so far. -/
def modI2cMemStep (incrflag : Bool) (p : I2cPlace) (s : UInt32 × List I2cWrite) :
    Line → (UInt32 × List I2cWrite) × Bool
  | .text line =>
    if line.bytes = [] then ((if incrflag then s.1 + p.size else s.1, s.2), p.size ≠ 0)
    else if converted line.bytes ≠ 0 then
      ((if incrflag then s.1 + p.size else s.1, s.2 ++ [⟨p.chip, s.1, p.alen,
        i2cData p.size (UInt32.ofNat (simpleStrtoul 16 line.bytes).1)⟩]), true)
    else (s, false)
  | .brk | .timedOut => (s, false)

/-- `mod_i2c_mem`. The assignments at its end are to the variables of the call, from those that
should remember them. -/
def modI2cMem (incrflag isRepeat : Bool) (last : I2cLast) (argv : List CStr)
    (writes : List I2cWrite) (lines : List Line) : Option (ℕ × I2cLast × List I2cWrite) :=
  match argv with
  | [name, chip, addr] =>
    match if isRepeat then some last.place else i2cArgs name chip addr with
    | some p =>
      match loop (modI2cMemStep incrflag p) (p.addr, writes) lines with
      | some (_, writes) => some (0, last, writes)
      | none => none
    | none => some (1, last, writes)
  | _ => some (1, last, writes)

/-! ## What a repeated command should do -/

/-- The lines that end `mod_mem`. -/
def MmEnds : Line → Prop
  | .text line => line.bytes ≠ [] ∧ line.bytes ≠ [45] ∧ converted line.bytes = 0
  | .brk | .timedOut => True

/-- The lines that end `mod_i2c_mem`. -/
def I2cEnds : Line → Prop
  | .text line => line.bytes ≠ [] ∧ converted line.bytes = 0
  | .brk | .timedOut => True

def HasValue : Line → Prop
  | .text line => converted line.bytes ≠ 0
  | .brk | .timedOut => False

instance : DecidablePred MmEnds
  | .text line => inferInstanceAs (Decidable (line.bytes ≠ [] ∧ _))
  | .brk | .timedOut => isTrue trivial

instance : DecidablePred I2cEnds
  | .text line => inferInstanceAs (Decidable (line.bytes ≠ [] ∧ _))
  | .brk | .timedOut => isTrue trivial

/-- The command with the lines `xs`, ended by `t`, and then repeated with `ys`, ended by `t'`,
does what one command does with both. -/
def MmContinues (hostBE incrflag : Bool) (baseAddress : UInt32) (last : MmLast)
    (argv : List CStr) (m : Mem32) (xs : List Line) (t : Line) (ys : List Line) (t' : Line) :
    Prop :=
  ∃ last' m' r,
    modMem hostBE incrflag false baseAddress last argv m (xs ++ [t]) = some (0, last', m') ∧
    modMem hostBE incrflag true baseAddress last' argv m' (ys ++ [t']) = some r ∧
    modMem hostBE incrflag false baseAddress last argv m (xs ++ (ys ++ [t'])) = some r

def I2cContinues (incrflag : Bool) (last : I2cLast) (argv : List CStr) (writes : List I2cWrite)
    (xs : List Line) (t : Line) (ys : List Line) (t' : Line) : Prop :=
  ∃ last' writes' last₁ last₂ both,
    modI2cMem incrflag false last argv writes (xs ++ [t]) = some (0, last', writes') ∧
    modI2cMem incrflag true last' argv writes' (ys ++ [t']) = some (0, last₁, both) ∧
    modI2cMem incrflag false last argv writes (xs ++ (ys ++ [t'])) = some (0, last₂, both)

def I2cPlace.behind (incrflag : Bool) (p : I2cPlace) (lines : ℕ) : I2cPlace :=
  { p with addr := if incrflag then p.addr + UInt32.ofNat lines * p.size else p.addr }

/-! ## Memory -/

section
variable {hostBE incrflag : Bool} {size : UInt32} {l : Line}

theorem modMemStep_goesOn (h : ¬ MmEnds l) (s : UInt32 × Mem32) :
    (modMemStep hostBE incrflag size s l).2 = true := by
  cases l with
  | text line =>
    by_cases hempty : line.bytes = []
    · rw [modMemStep, if_pos hempty]
    by_cases hback : line.bytes = [45]
    · rw [modMemStep, if_neg hempty, if_pos hback]
    by_cases hvalue : converted line.bytes = 0
    · exact absurd ⟨hempty, hback, hvalue⟩ h
    · rw [modMemStep, if_neg hempty, if_neg hback, if_pos hvalue]
  | brk => exact absurd trivial h
  | timedOut => exact absurd trivial h

theorem modMemStep_ends (h : MmEnds l) (s : UInt32 × Mem32) :
    modMemStep hostBE incrflag size s l = (s, false) := by
  cases l with
  | text line =>
    obtain ⟨hempty, hback, hvalue⟩ := h
    rw [modMemStep, if_neg hempty, if_neg hback, if_neg (not_not.mpr hvalue)]
  | brk => rfl
  | timedOut => rfl

theorem mm_continues {baseAddress : UInt32} {last : MmLast} {name arg : CStr} {m : Mem32}
    {xs ys : List Line} {t t' : Line} (hxs : ∀ x ∈ xs, ¬ MmEnds x) (ht : MmEnds t)
    (hys : ∀ y ∈ ys, ¬ MmEnds y) (ht' : MmEnds t') :
    MmContinues hostBE incrflag baseAddress last [name, arg] m xs t ys t' := by
  have hgo (lines : List Line) (h : ∀ x ∈ lines, ¬ MmEnds x) (size : UInt32) : ∀ x ∈ lines,
      ∀ s, (modMemStep hostBE incrflag size s x).2 = true := fun x hx => modMemStep_goesOn (h x hx)
  obtain ⟨⟨addr, m'⟩, hfirst, hboth⟩ := loop_resume
    (s := (UInt32.ofNat (simpleStrtoul 16 arg.bytes).1 + baseAddress, m))
    (hgo xs hxs (UInt32.ofNat (cmdGetDataSize name 4))) (modMemStep_ends ht)
  obtain ⟨⟨addr', m''⟩, hsecond, -⟩ := loop_resume (s := (addr, m'))
    (hgo ys hys (UInt32.ofNat (cmdGetDataSize name 4))) (modMemStep_ends ht')
  refine ⟨⟨addr, UInt32.ofNat (cmdGetDataSize name 4)⟩, m',
    (0, ⟨addr', UInt32.ofNat (cmdGetDataSize name 4)⟩, m''), ?_, ?_, ?_⟩
  · simp only [modMem, Bool.false_eq_true, if_false, hfirst]
  · simp only [modMem, if_true, hsecond]
  · simp only [modMem, Bool.false_eq_true, if_false, hboth, hsecond]

end

/-! ## A chip -/

section
variable {incrflag : Bool} {p q : I2cPlace} {l t : Line} {xs ys : List Line}
  {writes : List I2cWrite}

def I2cPlace.next (incrflag : Bool) (p : I2cPlace) : I2cPlace :=
  { p with addr := if incrflag then p.addr + p.size else p.addr }

theorem I2cPlace.behind_zero : p.behind incrflag 0 = p := by
  simp [I2cPlace.behind]

theorem I2cPlace.behind_succ (n : ℕ) :
    p.behind incrflag (n + 1) = (p.next incrflag).behind incrflag n := by
  cases incrflag with
  | false => rfl
  | true =>
    simp only [I2cPlace.behind, I2cPlace.next, if_true, UInt32.ofNat_add, I2cPlace.mk.injEq,
      true_and, and_true]
    grind

theorem I2cPlace.next_inj (h : p.next incrflag = q.next incrflag) : p = q := by
  obtain ⟨hchip, haddr, halen, hsize⟩ := I2cPlace.mk.inj h
  refine I2cPlace.ext hchip ?_ halen hsize
  rw [hsize] at haddr
  cases incrflag with
  | false => exact haddr
  | true => exact (UInt32.add_left_inj _).mp haddr

def lineWrites (p : I2cPlace) : Line → List I2cWrite
  | .text line =>
    if converted line.bytes ≠ 0 then
      [⟨p.chip, p.addr, p.alen, i2cData p.size (UInt32.ofNat (simpleStrtoul 16 line.bytes).1)⟩]
    else []
  | .brk | .timedOut => []

def i2cWrites (incrflag : Bool) : I2cPlace → List Line → List I2cWrite
  | _, [] => []
  | p, l :: ys => lineWrites p l ++ i2cWrites incrflag (p.next incrflag) ys

theorem modI2cMemStep_ends (h : I2cEnds l) (s : UInt32 × List I2cWrite) :
    modI2cMemStep incrflag p s l = (s, false) := by
  cases l with
  | text line =>
    obtain ⟨hempty, hvalue⟩ := h
    rw [modI2cMemStep, if_neg hempty, if_neg (not_not.mpr hvalue)]
  | brk => rfl
  | timedOut => rfl

theorem modI2cMemStep_goesOn (hsize : p.size ≠ 0) (h : ¬ I2cEnds l) (s : UInt32 × List I2cWrite) :
    modI2cMemStep incrflag p s l =
      (((({ p with addr := s.1 } : I2cPlace).next incrflag).addr,
        s.2 ++ lineWrites { p with addr := s.1 } l), true) := by
  cases l with
  | text line =>
    by_cases hempty : line.bytes = []
    · have hvalue : converted line.bytes = 0 := by
        rw [hempty]
        rfl
      simp only [modI2cMemStep, if_pos hempty, lineWrites, if_neg (not_not.mpr hvalue),
        List.append_nil, hsize, ne_eq, not_false_eq_true, decide_true, I2cPlace.next]
    · by_cases hvalue : converted line.bytes = 0
      · exact absurd ⟨hempty, hvalue⟩ h
      · rw [modI2cMemStep, if_neg hempty, if_pos hvalue, lineWrites, if_pos hvalue]
        rfl
  | brk => exact absurd trivial h
  | timedOut => exact absurd trivial h

theorem foldl_modI2cMemStep (hsize : p.size ≠ 0) (h : ∀ x ∈ xs, ¬ I2cEnds x) :
    xs.foldl (fun s x => (modI2cMemStep incrflag p s x).1) (p.addr, writes) =
      ((p.behind incrflag xs.length).addr, writes ++ i2cWrites incrflag p xs) := by
  induction xs generalizing p writes with
  | nil => rw [List.foldl_nil, List.length_nil, I2cPlace.behind_zero, i2cWrites, List.append_nil]
  | cons x xs ih =>
    obtain ⟨hx, hxs⟩ := List.forall_mem_cons.mp h
    rw [List.foldl_cons, modI2cMemStep_goesOn hsize hx, List.length_cons, I2cPlace.behind_succ,
      i2cWrites, ← List.append_assoc]
    exact ih (p := p.next incrflag) hsize hxs

theorem loop_modI2cMemStep (hsize : p.size ≠ 0) (h : ∀ x ∈ xs, ¬ I2cEnds x) (ht : I2cEnds t) :
    loop (modI2cMemStep incrflag p) (p.addr, writes) (xs ++ [t]) =
      some ((p.behind incrflag xs.length).addr, writes ++ i2cWrites incrflag p xs) := by
  rw [loop_append fun x hx s => by rw [modI2cMemStep_goesOn hsize (h x hx)],
    foldl_modI2cMemStep hsize h, loop_end (modI2cMemStep_ends ht _)]

theorem i2cWrites_append : i2cWrites incrflag p (xs ++ ys) =
    i2cWrites incrflag p xs ++ i2cWrites incrflag (p.behind incrflag xs.length) ys := by
  induction xs generalizing p with
  | nil => rw [List.length_nil, I2cPlace.behind_zero, i2cWrites, List.nil_append, List.nil_append]
  | cons x xs ih =>
    rw [List.cons_append, i2cWrites, i2cWrites, ih, List.length_cons, I2cPlace.behind_succ,
      List.append_assoc]

theorem i2cArgs_size {name chip arg : CStr} (h : i2cArgs name chip arg = some p) :
    p.size = 1 ∨ p.size = 2 ∨ p.size = 4 := by
  obtain ⟨alen, -, rfl⟩ := Option.map_eq_some_iff.mp h
  unfold cmdGetDataSize
  dsimp only
  split
  · split_ifs <;> decide
  · exact .inl rfl

theorem i2cData_length {size value : UInt32} (h : size = 1 ∨ size = 2 ∨ size = 4) :
    (i2cData size value).length = size.toNat := by
  rw [i2cData, List.length_take, beBytes_length]
  rcases h with rfl | rfl | rfl <;> rfl

theorem lineWrites_of_not (h : ¬ HasValue l) : lineWrites p l = [] := by
  cases l with
  | text line => exact if_neg h
  | brk => rfl
  | timedOut => rfl

theorem lineWrites_of_hasValue (h : HasValue l) :
    ∃ value, ∀ p : I2cPlace, lineWrites p l = [⟨p.chip, p.addr, p.alen, i2cData p.size value⟩] := by
  cases l with
  | text line => exact ⟨_, fun p => if_pos h⟩
  | brk => exact absurd h id
  | timedOut => exact absurd h id

theorem i2cWrites_of_not (h : ∀ y ∈ ys, ¬ HasValue y) : i2cWrites incrflag p ys = [] := by
  induction ys generalizing p with
  | nil => rfl
  | cons y ys ih =>
    obtain ⟨hy, hys⟩ := List.forall_mem_cons.mp h
    rw [i2cWrites, lineWrites_of_not hy, ih hys, List.append_nil]

/-- Two commands write the same for some lines only without a value, or from the same place. -/
theorem i2cWrites_eq_iff (hp : p.size = 1 ∨ p.size = 2 ∨ p.size = 4) (hq : q.size = 1) :
    i2cWrites incrflag p ys = i2cWrites incrflag q ys ↔ (∀ y ∈ ys, ¬ HasValue y) ∨ p = q := by
  constructor
  · intro heq
    induction ys generalizing p q with
    | nil => exact .inl fun _ h => absurd h List.not_mem_nil
    | cons y ys ih =>
      rw [i2cWrites, i2cWrites] at heq
      by_cases hvalue : HasValue y
      · -- the first write tells the place
        obtain ⟨value, hwrites⟩ := lineWrites_of_hasValue hvalue
        rw [hwrites, hwrites, List.singleton_append, List.singleton_append] at heq
        obtain ⟨hchip, haddr, halen, hdata⟩ := I2cWrite.mk.inj (List.cons.inj heq).1
        have hsize : p.size = q.size := by
          have hlen := congrArg List.length hdata
          rw [i2cData_length hp, i2cData_length (.inl hq)] at hlen
          exact UInt32.toNat_inj.mp hlen
        exact .inr (I2cPlace.ext hchip haddr halen hsize)
      · rw [lineWrites_of_not hvalue, lineWrites_of_not hvalue, List.nil_append,
          List.nil_append] at heq
        exact (ih (p := p.next incrflag) (q := q.next incrflag) hp hq heq).imp
          (fun h => List.forall_mem_cons.mpr ⟨hvalue, h⟩) I2cPlace.next_inj
  · rintro (hnone | rfl)
    · rw [i2cWrites_of_not hnone, i2cWrites_of_not hnone]
    · rfl

/-- A repeated `mod_i2c_mem` goes on only from where it starts anyway. -/
theorem i2c_continues_iff {last : I2cLast} {name chip arg : CStr} {t' : Line}
    (hp : i2cArgs name chip arg = some p) (hxs : ∀ x ∈ xs, ¬ I2cEnds x) (ht : I2cEnds t)
    (hys : ∀ y ∈ ys, ¬ I2cEnds y) (ht' : I2cEnds t') :
    I2cContinues incrflag last [name, chip, arg] writes xs t ys t' ↔
      (∀ y ∈ ys, ¬ HasValue y) ∨ p.behind incrflag xs.length = last.place := by
  have hsize := i2cArgs_size hp
  have hne : p.size ≠ 0 := by
    rcases hsize with h | h | h <;> rw [h] <;> decide
  have hfirst : modI2cMem incrflag false last [name, chip, arg] writes (xs ++ [t]) =
      some (0, last, writes ++ i2cWrites incrflag p xs) := by
    simp only [modI2cMem, Bool.false_eq_true, if_false, hp, loop_modI2cMemStep hne hxs ht]
  have hsecond : modI2cMem incrflag true last [name, chip, arg]
      (writes ++ i2cWrites incrflag p xs) (ys ++ [t']) =
        some (0, last, writes ++ i2cWrites incrflag p xs ++ i2cWrites incrflag last.place ys) := by
    have hone : last.place.size ≠ 0 := UInt32.zero_ne_one.symm
    simp only [modI2cMem, if_true, loop_modI2cMemStep hone hys ht']
  have hboth : modI2cMem incrflag false last [name, chip, arg] writes (xs ++ (ys ++ [t'])) =
      some (0, last, writes ++ i2cWrites incrflag p xs ++
        i2cWrites incrflag (p.behind incrflag xs.length) ys) := by
    have hlines : ∀ x ∈ xs ++ ys, ¬ I2cEnds x := List.forall_mem_append.mpr ⟨hxs, hys⟩
    have hloop : loop (modI2cMemStep incrflag p) (p.addr, writes) (xs ++ ys ++ [t']) = _ :=
      loop_modI2cMemStep hne hlines ht'
    rw [List.append_assoc, i2cWrites_append, ← List.append_assoc writes] at hloop
    simp only [modI2cMem, Bool.false_eq_true, if_false, hp, hloop]
  rw [← i2cWrites_eq_iff (p := p.behind incrflag xs.length) (q := last.place) hsize rfl]
  constructor
  · rintro ⟨_, _, _, _, both, h1, h2, h3⟩
    cases hfirst.symm.trans h1
    cases hsecond.symm.trans h2
    exact List.append_cancel_left (Prod.mk.inj (Prod.mk.inj (Option.some.inj
      (hboth.symm.trans h3))).2).2
  · intro heq
    rw [heq] at hboth
    exact ⟨_, _, _, _, _, hfirst, hsecond, hboth⟩

end

/-- **Repeated modify commands.** `mm` and `nm` go on where they stopped, whatever the lines; `imm`
and `inm` do if no value follows, or if chip, address, address length and size are by chance those
of the variables that are never written. -/
theorem modify_repeat_iff (incrflag : Bool) (xs : List Line) (t : Line) (ys : List Line)
    (t' : Line) :
    (∀ hostBE baseAddress last name arg m, (∀ x ∈ xs, ¬ MmEnds x) → MmEnds t →
      (∀ y ∈ ys, ¬ MmEnds y) → MmEnds t' →
      MmContinues hostBE incrflag baseAddress last [name, arg] m xs t ys t') ∧
    ∀ (last : I2cLast) (name chip arg : CStr) (p : I2cPlace) (writes : List I2cWrite),
      i2cArgs name chip arg = some p → (∀ x ∈ xs, ¬ I2cEnds x) → I2cEnds t →
      (∀ y ∈ ys, ¬ I2cEnds y) → I2cEnds t' →
      (I2cContinues incrflag last [name, chip, arg] writes xs t ys t' ↔
        (∀ y ∈ ys, ¬ HasValue y) ∨ p.behind incrflag xs.length = last.place) :=
  ⟨fun _ _ _ _ _ _ hxs ht hys ht' => mm_continues hxs ht hys ht',
    fun _ _ _ _ _ _ hp hxs ht hys ht' => i2c_continues_iff hp hxs ht hys ht'⟩

/-- The lines `1`, `2`, and `.`, which ends a command. -/
def lineOne : Line := .text ⟨[49], by decide⟩

def lineTwo : Line := .text ⟨[50], by decide⟩

def lineDot : Line := .text ⟨[46], by decide⟩

/-- `imm.b 50 0` or `mm.b 0`. -/
def modifyArgs : CStr × CStr × CStr :=
  (⟨ascii "imm.b", by decide⟩, ⟨ascii "50", by decide⟩, ⟨ascii "0", by decide⟩)

theorem modify_repeat_iff_one :
    MmContinues true true 0 ⟨0, 0⟩ [modifyArgs.1, modifyArgs.2.2] (fun _ => 0) [lineOne] lineDot
        [lineTwo] lineDot ∧
      (I2cContinues true ⟨0, 0, 0⟩ [modifyArgs.1, modifyArgs.2.1, modifyArgs.2.2] [] [lineOne]
          lineDot [lineTwo] lineDot ↔
        (∀ y ∈ [lineTwo], ¬ HasValue y) ∨
          (⟨0x50, 0, 1, 1⟩ : I2cPlace).behind true [lineOne].length = I2cLast.place ⟨0, 0, 0⟩) :=
  ⟨(modify_repeat_iff true [lineOne] lineDot [lineTwo] lineDot).1 true 0 ⟨0, 0⟩ modifyArgs.1
      modifyArgs.2.2 (fun _ => 0) (by decide) (by decide) (by decide) (by decide),
    (modify_repeat_iff true [lineOne] lineDot [lineTwo] lineDot).2 ⟨0, 0, 0⟩ modifyArgs.1
      modifyArgs.2.1 modifyArgs.2.2 ⟨0x50, 0, 1, 1⟩ [] rfl (by decide) (by decide) (by decide)
      (by decide)⟩

/-- `imm.b 50 0` with a value, repeated with another one: that goes to chip 0. -/
theorem imm_forgets : ¬ I2cContinues true ⟨0, 0, 0⟩
    [modifyArgs.1, modifyArgs.2.1, modifyArgs.2.2] [] [lineOne] lineDot [lineTwo] lineDot := by
  rw [i2c_continues_iff (p := ⟨0x50, 0, 1, 1⟩) rfl (by decide) (by decide) (by decide) (by decide)]
  rintro (hnone | hplace)
  · exact hnone lineTwo (List.mem_singleton_self _) (by decide : converted [50] ≠ 0)
  · exact absurd hplace (by decide)

end UBoot.Command
