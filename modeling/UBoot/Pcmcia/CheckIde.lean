import UBoot.Pcmcia.Identify

/-!
# The tuples of a PC card: `check_ide_device` (`common/cmd_pcmcia.c`)

Attribute memory has a byte at every second address. The walk adds two addresses for the code and
two for the length, of the null tuple too, which has none. `check_ide_device_iff`: the walk follows
the chain and the card gets its name exactly if the chain has no null tuple that matters, and the
fields of its last version tuple are such that `identify` can join them.
-/

namespace UBoot.Pcmcia

open UBoot.Lib

abbrev maxTupelSz : ℕ := 512

abbrev maxFeatures : ℕ := 4

abbrev cistplNull : UInt8 := 0x00
abbrev cistplVers1 : UInt8 := 0x15
abbrev cistplConfig : UInt8 := 0x1a
abbrev cistplFuncid : UInt8 := 0x21
abbrev cistplFunce : UInt8 := 0x22
abbrev cistplEnd : UInt8 := 0xff

abbrev cistplFuncidFixed : UInt8 := 0x04

abbrev cistplFunceIdeIface : UInt8 := 0x01
abbrev cistplFunceIdeMaster : UInt8 := 0x02
abbrev cistplFunceIdeSlave : UInt8 := 0x03

/-- The locals of `check_ide_device`, with the tuples it has visited and the addresses it has read.
Addresses are from `CFG_PCMCIA_MEM_ADDR` on. -/
structure Cis where
  visited : List ℕ := []
  reads : List ℕ := []
  ident : Option ℕ := none
  features : List ℕ := []
  funcId : UInt8 := 0xff
  configBase : ℕ := 0

/-- The `switch` on the code of a tuple with its body at `p`. -/
def Cis.tuple (mem : ℕ → UInt8) (code : UInt8) (p : ℕ) (cis : Cis) : Cis :=
  if code = cistplVers1 then { cis with ident := some (p + 4) }
  else if code = cistplFuncid then
    -- a broken card may have the bit 0x80 set
    { cis with funcId := mem p &&& 0x7f, reads := cis.reads ++ [p] }
  else if code = cistplFunce then
    if cis.features.length < maxFeatures then { cis with features := cis.features ++ [p] } else cis
  else if code = cistplConfig then
    { cis with
      configBase := ((mem (p + 6)).toNat <<< 8) + (mem (p + 4)).toNat
      reads := cis.reads ++ [p + 6, p + 4] }
  else cis

/-- A turn of the loop for the tuple at `p`. -/
def Cis.turn (mem : ℕ → UInt8) (cis : Cis) (p : ℕ) : Cis :=
  let code := mem p
  if code = cistplEnd then
    { cis with visited := cis.visited ++ [p], reads := cis.reads ++ [p] }
  else
    Cis.tuple mem code (p + 4)
      { cis with visited := cis.visited ++ [p], reads := cis.reads ++ [p, p + 2] }

/-- The loop of `check_ide_device`. -/
def cisWalk (mem : ℕ → UInt8) (p : ℕ) (cis : Cis) : Cis :=
  if p < maxTupelSz then
    if mem p = cistplEnd then cis.turn mem p
    else cisWalk mem (p + 4 + 2 * (mem (p + 2)).toNat) (cis.turn mem p)
  else cis
termination_by maxTupelSz - p

/-- What `print_fixed` reads of the feature at `p`. -/
def printFixed (mem : ℕ → UInt8) (p : ℕ) : List ℕ :=
  if mem p = cistplFunceIdeIface then [p, p + 2]
  else if mem p = cistplFunceIdeMaster ∨ mem p = cistplFunceIdeSlave then [p, p + 2, p + 4]
  else [p]

/-- The bytes at `p`, one at every second address. -/
def fieldsAt (mem : ℕ → UInt8) (p k : ℕ) : UInt8 :=
  mem (p + 2 * k)

/-- What `identify` reads of the fields at `p`. -/
def identifyReads (mem : ℕ → UInt8) (p : ℕ) : List ℕ :=
  (List.range ((identLoop (fieldsAt mem p) (maxIdentChars + 1) 0 0 []).1 + 1)).map (p + 2 * ·)

/-- The string that is printed, where the config register is written, and the result. -/
structure Checked where
  text : List UInt8
  config : Option ℕ
  result : ℕ

/-- A call of `check_ide_device`: the walk, all that is read, and what becomes of it. -/
structure Call where
  cis : Cis
  reads : List ℕ
  outcome : Except Oob Checked

def checkIdeDevice (mem : ℕ → UInt8) : Call :=
  let cis := cisWalk mem 0 {}
  let reads := cis.reads ++ cis.ident.elim [] (identifyReads mem)
  match identify (cis.ident.map (fieldsAt mem)) with
  | .error e => ⟨cis, reads, .error e⟩
  | .ok (text, found) =>
    if cis.funcId ≠ 0xff ∧ cis.funcId ≠ cistplFuncidFixed then
      -- no disk drive
      ⟨cis, reads, .ok ⟨text, none, 1⟩⟩
    else
      let found := found || cis.funcId == cistplFuncidFixed
      let reads := reads ++ cis.features.flatMap (printFixed mem)
      if found then ⟨cis, reads, .ok ⟨text, some cis.configBase, 0⟩⟩
      else ⟨cis, reads, .ok ⟨text, none, 1⟩⟩

/-! ## The chain -/

/-- The tuples from `p` on: a null tuple is a code alone, an end tuple is the last one, and every
other has a length. -/
def chain (mem : ℕ → UInt8) (p : ℕ) : List ℕ :=
  if p < maxTupelSz then
    if mem p = cistplEnd then [p]
    else if mem p = cistplNull then p :: chain mem (p + 2)
    else p :: chain mem (p + 4 + 2 * (mem (p + 2)).toNat)
  else []
termination_by maxTupelSz - p

def lastVers1 (mem : ℕ → UInt8) (tuples : List ℕ) : Option ℕ :=
  (tuples.filter (mem · = cistplVers1)).getLast?

/-- Where the fields of the last version tuple are: behind code, length and the two bytes of the
version. -/
def lastFields (mem : ℕ → UInt8) (tuples : List ℕ) : Option ℕ :=
  (lastVers1 mem tuples).map (· + 8)

/-- The walk is the chain, stays in the window and the 255 bytes of one body, and the card has its
name. -/
structure SafelyIdentified (mem : ℕ → UInt8) : Prop where
  visited : (checkIdeDevice mem).cis.visited = chain mem 0
  features : (checkIdeDevice mem).cis.features.length ≤ maxFeatures
  reads : ∀ a ∈ (checkIdeDevice mem).reads, a < maxTupelSz + 2 * 255
  named : ∃ checked, (checkIdeDevice mem).outcome = .ok checked ∧
    ∀ p, lastFields mem (chain mem 0) = some p → checked.text = joined (fieldsAt mem p)

/-- A null tuple stands only where the window ends, and the fields fit. -/
structure Identifiable (mem : ℕ → UInt8) : Prop where
  nulls : ∀ p ∈ chain mem 0, mem p = cistplNull → maxTupelSz - 2 ≤ p
  fields : ∀ p, lastFields mem (chain mem 0) = some p → Fits (fieldsAt mem p)

/-! ## A turn of the loop -/

section
variable {mem : ℕ → UInt8} {cis : Cis} {p : ℕ}

@[simp] theorem Cis.tuple_visited (code : UInt8) :
    (cis.tuple mem code p).visited = cis.visited := by
  unfold Cis.tuple
  split_ifs <;> rfl

theorem Cis.turn_visited : (cis.turn mem p).visited = cis.visited ++ [p] := by
  unfold Cis.turn
  dsimp only
  split
  · rfl
  · rw [Cis.tuple_visited]

theorem Cis.tuple_ident (code : UInt8) :
    (cis.tuple mem code p).ident = if code = cistplVers1 then some (p + 4) else cis.ident := by
  unfold Cis.tuple
  split_ifs <;> rfl

theorem Cis.turn_ident :
    (cis.turn mem p).ident = if mem p = cistplVers1 then some (p + 8) else cis.ident := by
  unfold Cis.turn
  dsimp only
  by_cases hend : mem p = cistplEnd
  · rw [if_pos hend, hend, if_neg (by decide)]
  · rw [if_neg hend, Cis.tuple_ident]

/-- All that is remembered is in the window or right behind it, and so is all that is read. -/
structure Cis.Bounded (cis : Cis) : Prop where
  count : cis.features.length ≤ maxFeatures
  features : ∀ a ∈ cis.features, a < maxTupelSz + 4
  ident : ∀ a, cis.ident = some a → a < maxTupelSz + 8
  reads : ∀ a ∈ cis.reads, a < maxTupelSz + 10

theorem Cis.Bounded.read (h : cis.Bounded) (visited : List ℕ) {reads : List ℕ}
    (hreads : ∀ a ∈ reads, a < maxTupelSz + 10) :
    Cis.Bounded { cis with visited := visited, reads := cis.reads ++ reads } where
  count := h.count
  features := h.features
  ident := h.ident
  reads := List.forall_mem_append.mpr ⟨h.reads, hreads⟩

theorem Cis.Bounded.tuple (h : cis.Bounded) (code : UInt8) (hp : p < maxTupelSz + 4) :
    (cis.tuple mem code p).Bounded := by
  have hp : p < 516 := hp
  unfold Cis.tuple
  split_ifs with _ _ _ hroom
  · refine { h with ident := ?_ }
    intro a ha
    rw [← Option.some.inj ha]
    show p + 4 < 520
    omega
  · have hread := h.read cis.visited (show ∀ a ∈ [p], a < 522 by simp; omega)
    exact { hread with }
  · refine { h with count := ?_, features := ?_ }
    · rw [List.length_append]
      exact hroom
    · exact List.forall_mem_append.mpr ⟨h.features, by simpa using hp⟩
  · exact h
  · have hread := h.read cis.visited (show ∀ a ∈ [p + 6, p + 4], a < 522 by simp; omega)
    exact { hread with }
  · exact h

theorem Cis.Bounded.turn (h : cis.Bounded) (hp : p < maxTupelSz) : (cis.turn mem p).Bounded := by
  have hp : p < 512 := hp
  unfold Cis.turn
  dsimp only
  split
  · exact h.read _ (show ∀ a ∈ [p], a < 522 by simp; omega)
  · have hread := h.read (cis.visited ++ [p]) (show ∀ a ∈ [p, p + 2], a < 522 by simp; omega)
    exact hread.tuple _ (show p + 4 < 516 by omega)

end

/-! ## The walk -/

/-- The tuples that the loop visits from `p` on. -/
def visits (mem : ℕ → UInt8) (p : ℕ) : List ℕ :=
  if p < maxTupelSz then
    p :: if mem p = cistplEnd then [] else visits mem (p + 4 + 2 * (mem (p + 2)).toNat)
  else []
termination_by maxTupelSz - p

theorem cisWalk_eq_foldl (mem : ℕ → UInt8) (p : ℕ) (cis : Cis) :
    cisWalk mem p cis = (visits mem p).foldl (Cis.turn mem) cis := by
  induction p, cis using cisWalk.induct mem with
  | case1 p cis hp hend =>
    rw [cisWalk, visits, if_pos hp, if_pos hp, if_pos hend, if_pos hend]
    rfl
  | case2 p cis hp hend ih =>
    rw [cisWalk, visits, if_pos hp, if_pos hp, if_neg hend, if_neg hend, ih]
    rfl
  | case3 p cis hp =>
    rw [cisWalk, visits, if_neg hp, if_neg hp]
    rfl

theorem visits_lt (mem : ℕ → UInt8) (p : ℕ) : ∀ q ∈ visits mem p, q < maxTupelSz := by
  induction p using visits.induct mem with
  | case1 p hp ih =>
    rw [visits, if_pos hp, List.forall_mem_cons]
    refine ⟨hp, ?_⟩
    split
    · simp
    · exact ih
  | case2 p hp =>
    rw [visits, if_neg hp]
    simp

theorem foldl_turn_visited (mem : ℕ → UInt8) (tuples : List ℕ) (cis : Cis) :
    (tuples.foldl (Cis.turn mem) cis).visited = cis.visited ++ tuples := by
  induction tuples generalizing cis with
  | nil => simp
  | cons p tuples ih => rw [List.foldl_cons, ih, Cis.turn_visited, List.append_assoc]; rfl

theorem foldl_turn_ident (mem : ℕ → UInt8) (tuples : List ℕ) :
    (tuples.foldl (Cis.turn mem) {}).ident = lastFields mem tuples := by
  induction tuples using List.reverseRecOn with
  | nil => rfl
  | append_singleton tuples p ih =>
    rw [List.foldl_append, List.foldl_cons, List.foldl_nil, Cis.turn_ident, ih]
    unfold lastFields lastVers1
    by_cases h : mem p = cistplVers1
    · simp [h]
    · simp [h]

theorem foldl_turn_bounded (mem : ℕ → UInt8) (tuples : List ℕ)
    (h : ∀ p ∈ tuples, p < maxTupelSz) : (tuples.foldl (Cis.turn mem) {}).Bounded := by
  induction tuples using List.reverseRecOn with
  | nil => exact ⟨by simp, by simp, by simp, by simp⟩
  | append_singleton tuples p ih =>
    rw [List.forall_mem_append] at h
    rw [List.foldl_append]
    exact (ih h.1).turn (h.2 p (List.mem_singleton_self p))

theorem visits_head_le {mem : ℕ → UInt8} {p q : ℕ} {rest : List ℕ}
    (h : visits mem p = q :: rest) : q = p := by
  rw [visits] at h
  split at h
  · exact (List.cons.inj h).1.symm
  · cases h

/-- Where a null tuple is in the window with two addresses behind it, the walk leaves the chain. -/
theorem visits_eq_chain_iff (mem : ℕ → UInt8) (p : ℕ) :
    visits mem p = chain mem p ↔
      ∀ q ∈ chain mem p, mem q = cistplNull → maxTupelSz - 2 ≤ q := by
  induction p using chain.induct mem with
  | case1 p hp hend =>
    rw [visits, chain, if_pos hp, if_pos hp, if_pos hend, if_pos hend]
    have hne : mem p ≠ cistplNull := by rw [hend]; decide
    simp [hne]
  | case2 p hp hend hnull ih =>
    rw [visits, chain, if_pos hp, if_pos hp, if_neg hend, if_neg hend, if_pos hnull,
      List.cons.injEq, List.forall_mem_cons]
    by_cases hlast : maxTupelSz - 2 ≤ p
    · have hout : ¬ p + 2 < maxTupelSz := by
        have : 510 ≤ p := hlast
        show ¬ p + 2 < 512
        omega
      have hout' : ¬ p + 4 + 2 * (mem (p + 2)).toNat < maxTupelSz := by
        have : ¬ p + 2 < 512 := hout
        show ¬ p + 4 + 2 * (mem (p + 2)).toNat < 512
        omega
      rw [visits, chain, if_neg hout, if_neg hout']
      simp [hlast]
    · have hin : p + 2 < maxTupelSz := by
        have : ¬ 510 ≤ p := hlast
        show p + 2 < 512
        omega
      refine iff_of_false ?_ fun h => hlast (h.1 hnull)
      rintro ⟨-, h⟩
      obtain ⟨rest, hrest⟩ : ∃ rest, chain mem (p + 2) = (p + 2) :: rest := by
        rw [chain, if_pos hin]
        split_ifs <;> exact ⟨_, rfl⟩
      have := visits_head_le (h.trans hrest)
      omega
  | case3 p hp hend hnull ih =>
    rw [visits, chain, if_pos hp, if_pos hp, if_neg hend, if_neg hend, if_neg hnull,
      List.cons.injEq, List.forall_mem_cons, ih]
    simp [hnull]
  | case4 p hp =>
    rw [visits, chain, if_neg hp, if_neg hp]
    simp

/-! ## The card -/

theorem cisWalk_eq (mem : ℕ → UInt8) :
    (cisWalk mem 0 {}).visited = visits mem 0 ∧
      (cisWalk mem 0 {}).ident = lastFields mem (visits mem 0) ∧ (cisWalk mem 0 {}).Bounded := by
  rw [cisWalk_eq_foldl]
  exact ⟨foldl_turn_visited mem _ {}, foldl_turn_ident mem _,
    foldl_turn_bounded mem _ (visits_lt mem 0)⟩

theorem printFixed_le {mem : ℕ → UInt8} {p a : ℕ} (h : a ∈ printFixed mem p) : a ≤ p + 4 := by
  unfold printFixed at h
  split_ifs at h <;> simp at h <;> omega

theorem identifyReads_le {mem : ℕ → UInt8} {p a : ℕ} (h : a ∈ identifyReads mem p) :
    a ≤ p + 2 * maxIdentChars := by
  obtain ⟨k, hk, rfl⟩ := List.mem_map.mp h
  have hlast : (identLoop (fieldsAt mem p) (maxIdentChars + 1) 0 0 []).1 ≤ 64 :=
    identLoop_fst_le rfl (by omega)
  have hk := List.mem_range.mp hk
  show p + 2 * k ≤ p + 2 * 64
  omega

/-- The walk, the fields and the features: nothing far behind the window is read. -/
theorem checkIdeDevice_reads (mem : ℕ → UInt8) :
    ∀ a ∈ (checkIdeDevice mem).reads, a < maxTupelSz + 2 * 255 := by
  obtain ⟨-, -, bounded⟩ := cisWalk_eq mem
  have hwalk : ∀ a ∈ (cisWalk mem 0 {}).reads ++
      (cisWalk mem 0 {}).ident.elim [] (identifyReads mem), a < maxTupelSz + 2 * 255 := by
    refine List.forall_mem_append.mpr ⟨fun a ha => ?_, fun a ha => ?_⟩
    · have : a < 522 := bounded.reads a ha
      show a < 1022
      omega
    · cases hident : (cisWalk mem 0 {}).ident with
      | none => simp [hident] at ha
      | some p =>
        rw [hident] at ha
        have : a ≤ p + 2 * 64 := identifyReads_le ha
        have : p < 520 := bounded.ident p hident
        show a < 1022
        omega
  have hfeatures : ∀ a ∈ (cisWalk mem 0 {}).features.flatMap (printFixed mem),
      a < maxTupelSz + 2 * 255 := by
    intro a ha
    obtain ⟨p, hp, ha⟩ := List.mem_flatMap.mp ha
    have := printFixed_le ha
    have : p < 516 := bounded.features p hp
    show a < 1022
    omega
  unfold checkIdeDevice
  dsimp only
  split
  · exact hwalk
  · split_ifs
    · exact hwalk
    · exact List.forall_mem_append.mpr ⟨hwalk, hfeatures⟩
    · exact List.forall_mem_append.mpr ⟨hwalk, hfeatures⟩

theorem checkIdeDevice_cis (mem : ℕ → UInt8) : (checkIdeDevice mem).cis = cisWalk mem 0 {} := by
  unfold checkIdeDevice
  dsimp only
  split
  · rfl
  · split_ifs <;> rfl

theorem checkIdeDevice_text (mem : ℕ → UInt8) :
    (checkIdeDevice mem).outcome.map Checked.text =
      (identify ((cisWalk mem 0 {}).ident.map (fieldsAt mem))).map Prod.fst := by
  unfold checkIdeDevice
  dsimp only
  split
  case h_1 e h => rw [h]; rfl
  case h_2 text found h =>
    rw [h]
    split_ifs <;> rfl

theorem identify_text (raw : ℕ → UInt8) :
    (identify (some raw)).map Prod.fst = identStr raw := by
  unfold identify
  dsimp only
  cases identStr raw <;> rfl

/-- A call goes on to its end, and with the fields joined, exactly if the fields fit. -/
theorem named_iff (mem : ℕ → UInt8) (p? : Option ℕ) (h : (cisWalk mem 0 {}).ident = p?) :
    (∃ checked, (checkIdeDevice mem).outcome = .ok checked ∧
        ∀ p, p? = some p → checked.text = joined (fieldsAt mem p)) ↔
      ∀ p, p? = some p → Fits (fieldsAt mem p) := by
  have htext := checkIdeDevice_text mem
  rw [h] at htext
  cases p? with
  | none =>
    refine iff_of_true ?_ (by simp)
    cases hout : (checkIdeDevice mem).outcome with
    | error e =>
      rw [hout] at htext
      cases htext
    | ok checked => exact ⟨checked, rfl, by simp⟩
  | some p =>
    rw [Option.map_some, identify_text] at htext
    simp only [Option.some.injEq, forall_eq']
    rw [← identStr_iff, ← htext]
    cases (checkIdeDevice mem).outcome with
    | error e => exact iff_of_false (by simp) (by simp [Except.map])
    | ok checked => simp [Except.map]

/-- A card is identified safely, whatever is in its attribute memory, exactly when the chain and the
fields of the last version tuple are such. -/
theorem check_ide_device_iff (mem : ℕ → UInt8) : SafelyIdentified mem ↔ Identifiable mem := by
  obtain ⟨hvisited, hident, bounded⟩ := cisWalk_eq mem
  have hcis := checkIdeDevice_cis mem
  have hchain := visits_eq_chain_iff mem 0
  constructor
  · intro safe
    have hv : visits mem 0 = chain mem 0 := by rw [← hvisited, ← hcis, safe.visited]
    rw [hv] at hident
    exact ⟨hchain.mp hv, (named_iff mem _ hident).mp safe.named⟩
  · intro card
    have hv := hchain.mpr card.nulls
    rw [hv] at hvisited hident
    exact ⟨by rw [hcis, hvisited], by rw [hcis]; exact bounded.count, checkIdeDevice_reads mem,
      (named_iff mem _ hident).mpr card.fields⟩

/-- A version tuple alone; its first field has the 62 characters behind which a blank is the last
that fits, and another field is behind it. -/
def fullCard (a : ℕ) : UInt8 :=
  if a = 0 then cistplVers1 else if a < 8 then 0xff else if a = 132 then 0 else 0x41

/-- `identify` writes behind `id_str`. -/
theorem check_ide_device_overrun : ¬ SafelyIdentified fullCard := by
  intro safe
  have hchain : chain fullCard 0 = [0] := by
    rw [chain, if_pos (by decide), if_neg (by decide), if_neg (by decide), chain,
      if_neg (by decide)]
  have hvisits : visits fullCard 0 = [0] := by
    rw [visits, if_pos (by decide), if_neg (by decide), visits, if_neg (by decide)]
  obtain ⟨-, hident, -⟩ := cisWalk_eq fullCard
  rw [hvisits, ← hchain] at hident
  have fits : Fits (fieldsAt fullCard 8) :=
    (named_iff fullCard _ hident).mp safe.named 8 (by rw [hchain]; rfl)
  exact fits.room (by decide)

end UBoot.Pcmcia
