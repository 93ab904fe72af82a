import Mathlib.Data.List.DropRight
import UBoot.Common.Strings

/-!
# The identification of a PC card: `identify` (`common/cmd_pcmcia.c`)

The fields lie one behind the other in attribute memory, each with its NUL, up to a byte `0xFF`.
`identify` puts them into an array, with a blank for each NUL, and compares only behind a character
whether the array is full. `identStr_iff`: for which fields the array holds them joined.
-/

namespace UBoot.Pcmcia

open UBoot.Lib UBoot.Common

abbrev maxIdentChars : ℕ := 64

/-- `*t++ = c`, with the characters that are in `id_str` so far. -/
def putChar (text : List UInt8) (c : UInt8) : Except Oob (List UInt8) :=
  if text.length < maxIdentChars then .ok (text ++ [c]) else .error .write

/-- The two loops of `identify` from the byte `k` of field `i` on, and the byte they end at. Each
turn stores a character, so `fuel` of one more than the array has is never used up. -/
def identLoop (raw : ℕ → UInt8) : ℕ → ℕ → ℕ → List UInt8 → ℕ × Except Oob (List UInt8)
  | 0, _, k, text => (k, .ok text)
  | fuel + 1, i, k, text =>
    let data := raw k
    if data = 0xff then (k, .ok text)
    else if data = 0 then
      match putChar text 32 with
      | .error e => (k, .error e)
      | .ok text => if i + 1 ≤ 4 then identLoop raw fuel (i + 1) (k + 1) text else (k, .ok text)
    else
      match putChar text data with
      | .error e => (k, .error e)
      | .ok text =>
        if text.length = maxIdentChars - 1 then (k, .ok text)
        else identLoop raw fuel i (k + 1) text

/-- The blanks at the end, but not the first character. -/
def trimTail : List UInt8 → List UInt8
  | [] => []
  | c :: rest => c :: rest.rdropWhile (· = 32)

/-- What `identify` has in `id_str`. -/
def identStr (raw : ℕ → UInt8) : Except Oob (List UInt8) := do
  let text ← (identLoop raw (maxIdentChars + 1) 0 0 []).2
  let _ ← putChar text 0
  return trimTail text

def knownCards : List (List UInt8) := [ascii "ARGOSY PnPIDE D5"]

/-- `identify`; `none` is a null pointer. The result is the string that is printed, and whether the
card is known. -/
def identify (raw : Option (ℕ → UInt8)) : Except Oob (List UInt8 × Bool) :=
  match raw with
  | none => .ok ([], false)
  | some raw => do
    let idStr ← identStr raw
    return (idStr, knownCards.contains idStr)

/-! ## What the string should be -/

/-- The bytes of the fields, as many as can be in the array. -/
def identBytes (raw : ℕ → UInt8) : List UInt8 :=
  ((List.range (maxIdentChars - 1)).map raw).takeWhile (· ≠ 0xff)

/-- The fields joined by single blanks, without blanks at the end. -/
def joined (raw : ℕ → UInt8) : List UInt8 :=
  (List.intercalate [32] ((identBytes raw).splitOn 0)).rdropWhile (· = 32)

/-- What is behind the first `n` fields. -/
def behindFields : ℕ → List UInt8 → List UInt8
  | 0, l => l
  | _, [] => []
  | n + 1, c :: l => if c = 0 then behindFields n l else behindFields (n + 1) l

/-- The array is not filled up to its last byte by the NUL of one of the first four fields, with
more behind it; there is more than blanks, or nothing; and nothing but blanks behind the fifth
field. -/
structure Fits (raw : ℕ → UInt8) : Prop where
  room : ¬ ((identBytes raw).length = maxIdentChars - 1 ∧ raw (maxIdentChars - 2) = 0 ∧
    (identBytes raw).count 0 ≤ 4 ∧ raw (maxIdentChars - 1) ≠ 0xff)
  visible : identBytes raw ≠ [] → ∃ c ∈ identBytes raw, c ≠ 0 ∧ c ≠ 32
  five : ∀ c ∈ behindFields 5 (identBytes raw), c = 0 ∨ c = 32

/-! ## Blanks -/

section
variable {α : Type*} {p : α → Bool} {l x y : List α} {c : α}

theorem rdropWhile_append_of_all (h : ∀ c ∈ y, p c) : (x ++ y).rdropWhile p = x.rdropWhile p := by
  induction y using List.reverseRecOn with
  | nil => rw [List.append_nil]
  | append_singleton y c ih =>
    rw [List.forall_mem_append] at h
    rw [← List.append_assoc, List.rdropWhile_concat_pos _ _ _ (h.2 c (List.mem_singleton_self c)),
      ih h.1]

theorem rdropWhile_append_of_exists (h : ∃ c ∈ y, p c = false) :
    (x ++ y).rdropWhile p = x ++ y.rdropWhile p := by
  induction y using List.reverseRecOn with
  | nil => simp at h
  | append_singleton y c ih =>
    rw [← List.append_assoc]
    by_cases hc : p c
    · rw [List.rdropWhile_concat_pos _ _ _ hc, List.rdropWhile_concat_pos _ _ _ hc]
      refine ih ?_
      obtain ⟨d, hd, hpd⟩ := h
      rcases List.mem_append.mp hd with hd | hd
      · exact ⟨d, hd, hpd⟩
      · rw [List.mem_singleton.mp hd, hc] at hpd
        cases hpd
    · rw [List.rdropWhile_concat_neg _ _ _ hc, List.rdropWhile_concat_neg _ _ _ hc,
        List.append_assoc]

end

/-! ## The fields, a blank for each NUL -/

/-- What `identify` stores for a byte of the fields. -/
def blanked (c : UInt8) : UInt8 :=
  if c = 0 then 32 else c

/-- The first `n` fields, each with its NUL. -/
def firstFields : ℕ → List UInt8 → List UInt8
  | 0, _ => []
  | _, [] => []
  | n + 1, c :: l => if c = 0 then c :: firstFields n l else c :: firstFields (n + 1) l

@[simp] theorem firstFields_zero (l : List UInt8) : firstFields 0 l = [] := by
  cases l <;> rfl

@[simp] theorem firstFields_nil (n : ℕ) : firstFields n [] = [] := by
  cases n <;> rfl

@[simp] theorem behindFields_nil (n : ℕ) : behindFields n [] = [] := by
  cases n <;> rfl

theorem firstFields_append_behindFields (n : ℕ) (l : List UInt8) :
    firstFields n l ++ behindFields n l = l := by
  induction n, l using firstFields.induct with
  | case1 l => cases l <;> rfl
  | case2 n => simp
  | case3 n l ih => simpa [firstFields, behindFields] using ih
  | case4 n c l hc ih => simpa [firstFields, behindFields, hc] using ih

theorem firstFields_eq_nil_iff {n : ℕ} {l : List UInt8} :
    firstFields (n + 1) l = [] ↔ l = [] := by
  cases l with
  | nil => simp
  | cons c l => by_cases hc : c = 0 <;> simp [firstFields, hc]

theorem blanked_eq_blank_iff {c : UInt8} : blanked c = 32 ↔ c = 0 ∨ c = 32 := by
  unfold blanked
  split
  · simp [*]
  · simp [*]

theorem intercalate_splitOn_zero (l : List UInt8) :
    List.intercalate [32] (l.splitOn 0) = l.map blanked := by
  induction l with
  | nil => rfl
  | cons c l ih =>
    rw [List.splitOn_cons_eq_if_modifyHead, List.map_cons, ← ih]
    obtain ⟨field, fields, hf⟩ := List.exists_cons_of_ne_nil (List.splitOn_ne_nil 0 l)
    by_cases hc : c = 0
    · rw [if_pos (by simp [hc]), hf, List.intercalate_cons_cons, hc]
      rfl
    · rw [if_neg (by simp [hc]), hf, List.modifyHead_cons, blanked, if_neg hc]
      cases fields with
      | nil => simp
      | cons second fields => simp [List.intercalate_cons_cons]

theorem joined_eq (raw : ℕ → UInt8) :
    joined raw = ((identBytes raw).map blanked).rdropWhile (· = 32) := by
  rw [joined, intercalate_splitOn_zero]

/-! ## The loop -/

def closed (r : Except Oob (List UInt8)) : Except Oob (List UInt8) := do
  let text ← r
  let _ ← putChar text 0
  return text

theorem identStr_eq_closed (raw : ℕ → UInt8) :
    identStr raw = (closed (identLoop raw (maxIdentChars + 1) 0 0 []).2).map trimTail := by
  unfold identStr closed
  cases (identLoop raw (maxIdentChars + 1) 0 0 []).2 with
  | error e => rfl
  | ok text =>
    change (putChar text 0 >>= _) = Except.map trimTail (putChar text 0 >>= _)
    cases putChar text 0 with
    | error e => rfl
    | ok _ => rfl

theorem putChar_ok {text : List UInt8} (h : text.length < 64) (c : UInt8) :
    putChar text c = .ok (text ++ [c]) :=
  if_pos h

theorem putChar_error {text : List UInt8} (h : 64 ≤ text.length) (c : UInt8) :
    putChar text c = .error .write :=
  if_neg h.not_gt

theorem closed_ok {text : List UInt8} (h : text.length < 64) : closed (.ok text) = .ok text := by
  change (putChar text 0 >>= _) = _
  rw [putChar_ok h]
  rfl

theorem closed_full {text : List UInt8} (h : 64 ≤ text.length) :
    closed (.ok text) = .error .write := by
  change (putChar text 0 >>= _) = _
  rw [putChar_error h]
  rfl

/-- The bytes of the fields from `k` on. -/
def identRest (raw : ℕ → UInt8) (k : ℕ) : List UInt8 :=
  ((List.range' k (63 - k)).map raw).takeWhile (· ≠ 0xff)

theorem identBytes_eq_rest (raw : ℕ → UInt8) : identBytes raw = identRest raw 0 := by
  unfold identBytes identRest
  rw [List.range_eq_range']
  rfl

theorem identRest_end (raw : ℕ → UInt8) : identRest raw 63 = [] :=
  rfl

theorem identRest_of_lt {raw : ℕ → UInt8} {k : ℕ} (hk : k < 63) :
    identRest raw k = if raw k = 0xff then [] else raw k :: identRest raw (k + 1) := by
  have hlen : 63 - k = 63 - (k + 1) + 1 := by omega
  unfold identRest
  rw [hlen, List.range'_succ, List.map_cons, List.takeWhile_cons]
  by_cases h : raw k = 0xff
  · simp [h]
  · simp [h]

/-- From byte `k` of field `i` on the array is filled up to its last byte by the NUL of a field that
is not the fifth, and there is more behind it. -/
def Overruns (raw : ℕ → UInt8) (i k : ℕ) : Prop :=
  (identRest raw k).length = 63 - k ∧ raw 62 = 0 ∧ i + (identRest raw k).count 0 ≤ 4 ∧
    raw 63 ≠ 0xff

instance (raw : ℕ → UInt8) (i k : ℕ) : Decidable (Overruns raw i k) :=
  inferInstanceAs (Decidable (_ ∧ _))

theorem identLoop_end {raw : ℕ → UInt8} {fuel i k : ℕ} {text : List UInt8} (h : raw k = 0xff) :
    identLoop raw (fuel + 1) i k text = (k, .ok text) := by
  simp only [identLoop, if_pos h]

theorem identLoop_nul {raw : ℕ → UInt8} {fuel i k : ℕ} {text : List UInt8}
    (hroom : text.length < 64) (h : raw k = 0) :
    identLoop raw (fuel + 1) i k text =
      if i + 1 ≤ 4 then identLoop raw fuel (i + 1) (k + 1) (text ++ [32])
      else (k, .ok (text ++ [32])) := by
  have hend : raw k ≠ 0xff := by rw [h]; decide
  simp only [identLoop, if_neg hend, if_pos h, putChar_ok hroom]

theorem identLoop_char {raw : ℕ → UInt8} {fuel i k : ℕ} {text : List UInt8}
    (hroom : text.length < 64) (hend : raw k ≠ 0xff) (h : raw k ≠ 0) :
    identLoop raw (fuel + 1) i k text =
      if text.length = 62 then (k, .ok (text ++ [raw k]))
      else identLoop raw fuel i (k + 1) (text ++ [raw k]) := by
  have hlast : text.length + 1 = maxIdentChars - 1 ↔ text.length = 62 := Nat.succ_inj
  simp only [identLoop, if_neg hend, if_neg h, putChar_ok hroom, List.length_append,
    List.length_singleton, hlast]

theorem identLoop_error {raw : ℕ → UInt8} {fuel i k : ℕ} {text : List UInt8}
    (hfull : 64 ≤ text.length) (hend : raw k ≠ 0xff) :
    identLoop raw (fuel + 1) i k text = (k, .error .write) := by
  simp only [identLoop, if_neg hend, putChar_error hfull, ite_self]

/-- With the array full the loop stores nothing more that is in it. -/
theorem identLoop_full {raw : ℕ → UInt8} {fuel i k : ℕ} {text : List UInt8}
    (h : text.length = 64) : closed (identLoop raw fuel i k text).2 = .error .write := by
  cases fuel with
  | zero => exact closed_full h.ge
  | succ fuel =>
    by_cases hend : raw k = 0xff
    · rw [identLoop_end hend]
      exact closed_full h.ge
    · rw [identLoop_error h.ge hend]
      rfl

/-- The last byte of the array is reached behind a blank only; then the card has to end. -/
theorem identLoop_last {raw : ℕ → UInt8} {fuel i : ℕ} {text : List UInt8}
    (h : text.length = 63) (hi : i ≤ 4) (hnul : raw 62 = 0) :
    closed (identLoop raw (fuel + 1) i 63 text).2 =
      if Overruns raw i 63 then .error .write else .ok text := by
  have hroom : text.length < 64 := by omega
  have hlong (c : UInt8) : (text ++ [c]).length = 64 := by simp [h]
  by_cases hend : raw 63 = 0xff
  · rw [if_neg (fun hover => hover.2.2.2 hend), identLoop_end hend]
    exact closed_ok hroom
  · rw [if_pos ⟨rfl, hnul, by simpa [identRest_end] using hi, hend⟩]
    by_cases hz : raw 63 = 0
    · rw [identLoop_nul hroom hz]
      by_cases hnext : i + 1 ≤ 4
      · rw [if_pos hnext]
        exact identLoop_full (hlong 32)
      · rw [if_neg hnext]
        exact closed_full (hlong 32).ge
    · rw [identLoop_char hroom hend hz, if_neg (by omega)]
      exact identLoop_full (hlong _)

theorem overruns_of_cons {raw : ℕ → UInt8} {i k : ℕ} (hk : k < 63) (hend : raw k ≠ 0xff) :
    Overruns raw i k ↔ Overruns raw (if raw k = 0 then i + 1 else i) (k + 1) := by
  have hlen : (identRest raw (k + 1)).length + 1 = 63 - k ↔
      (identRest raw (k + 1)).length = 63 - (k + 1) := by omega
  unfold Overruns
  rw [identRest_of_lt hk, if_neg hend, List.length_cons, hlen]
  by_cases hz : raw k = 0
  · have hcount : i + ((identRest raw (k + 1)).count 0 + 1) =
        i + 1 + (identRest raw (k + 1)).count 0 := by omega
    rw [if_pos hz, hz, List.count_cons_self, hcount]
  · rw [if_neg hz, List.count_cons_of_ne hz]

theorem not_overruns_of_end {raw : ℕ → UInt8} {i k : ℕ} (hk : k < 63) (hend : raw k = 0xff) :
    ¬ Overruns raw i k := by
  intro hover
  have hlen := hover.1
  rw [identRest_of_lt hk, if_pos hend, List.length_nil] at hlen
  omega

/-- One turn after the other: the characters of the first five fields are stored, each NUL as a
blank, or the array is overrun. -/
theorem identLoop_eq (raw : ℕ → UInt8) (fuel : ℕ) : ∀ (n i k : ℕ) (text : List UInt8),
    i + n = 4 → text.length = k → k ≤ 63 → 65 ≤ fuel + k → (k = 63 → raw 62 = 0) →
    closed (identLoop raw fuel i k text).2 = if Overruns raw i k then .error .write
      else .ok (text ++ (firstFields (n + 1) (identRest raw k)).map blanked) := by
  induction fuel with
  | zero =>
    intro n i k text _ _ hk hfuel _
    omega
  | succ fuel ih =>
    intro n i k text hi htext hk hfuel hlast
    rcases hk.lt_or_eq with hlt | rfl
    swap
    · rw [identLoop_last htext (by omega) (hlast rfl), identRest_end, firstFields_nil,
        List.map_nil, List.append_nil]
    have hroom : text.length < 64 := by omega
    have hlen : ∀ c : UInt8, (text ++ [c]).length = k + 1 := by simp [htext]
    by_cases hend : raw k = 0xff
    · rw [identLoop_end hend, if_neg (not_overruns_of_end hlt hend), closed_ok hroom,
        identRest_of_lt hlt, if_pos hend, firstFields_nil, List.map_nil, List.append_nil]
    have hover := overruns_of_cons (i := i) hlt hend
    rw [identRest_of_lt hlt, if_neg hend]
    by_cases hz : raw k = 0
    · rw [if_pos hz] at hover
      rw [identLoop_nul hroom hz]
      cases n with
      | zero =>
        -- the fifth field ends the loop
        have hfew : ¬ Overruns raw (i + 1) (k + 1) := fun h => by
          have hcount := h.2.2.1
          omega
        rw [if_neg (by omega), if_neg (hover.not.mpr hfew), closed_ok (by rw [hlen]; omega),
          firstFields, if_pos hz, firstFields_zero, List.map_singleton, blanked, if_pos hz]
      | succ n =>
        have hnul : k + 1 = 63 → raw 62 = 0 := fun h => Nat.succ.inj h ▸ hz
        rw [if_pos (by omega), ih n (i + 1) (k + 1) _ (by omega) (hlen 32) hlt (by omega) hnul,
          firstFields, if_pos hz, List.map_cons, blanked, if_pos hz, List.append_assoc,
          List.singleton_append]
        exact ite_congr (propext hover.symm) (fun _ => rfl) fun _ => rfl
    · rw [if_neg hz] at hover
      rw [identLoop_char hroom hend hz, firstFields, if_neg hz, List.map_cons, blanked, if_neg hz,
        htext]
      by_cases hfull : k = 62
      · -- the character that fills the array
        have hover : ¬ Overruns raw i k := fun h => hz (hfull ▸ h.2.1)
        rw [if_pos hfull, if_neg hover, closed_ok (by rw [hlen]; omega), hfull, identRest_end,
          firstFields_nil, List.map_nil]
      · rw [if_neg hfull, ih n i (k + 1) _ hi (hlen _) hlt (by omega) (by omega),
          List.append_assoc, List.singleton_append]
        exact ite_congr (propext hover.symm) (fun _ => rfl) fun _ => rfl

/-- A byte is read for each character that is stored, and one more. -/
theorem identLoop_fst_le {raw : ℕ → UInt8} {fuel : ℕ} : ∀ {i k : ℕ} {text : List UInt8},
    text.length = k → k ≤ 64 → (identLoop raw fuel i k text).1 ≤ 64 := by
  induction fuel with
  | zero => exact fun _ hk => hk
  | succ fuel ih =>
    intro i k text htext hk
    by_cases hend : raw k = 0xff
    · rw [identLoop_end hend]
      exact hk
    rcases hk.lt_or_eq with hlt | rfl
    · have hroom : text.length < 64 := by omega
      have hnext (i : ℕ) (c : UInt8) : (identLoop raw fuel i (k + 1) (text ++ [c])).1 ≤ 64 :=
        ih (by simp [htext]) hlt
      by_cases hz : raw k = 0
      · rw [identLoop_nul hroom hz]
        split
        · exact hnext _ _
        · exact hk
      · rw [identLoop_char hroom hend hz]
        split
        · exact hk
        · exact hnext _ _
    · rw [identLoop_error htext.ge hend]

/-! ## The string -/

theorem trimTail_of_exists {text : List UInt8} (h : ∃ c ∈ text, c ≠ 32) :
    trimTail text = text.rdropWhile (· = 32) := by
  cases text with
  | nil => simp at h
  | cons c rest =>
    change c :: _ = ([c] ++ rest).rdropWhile (· = 32)
    by_cases hrest : ∃ d ∈ rest, d ≠ 32
    · obtain ⟨d, hd, hne⟩ := hrest
      rw [rdropWhile_append_of_exists ⟨d, hd, by simpa using hne⟩, List.singleton_append]
    · push Not at hrest
      have hc : c ≠ 32 := by
        obtain ⟨d, hd, hne⟩ := h
        rcases List.mem_cons.mp hd with rfl | hd
        · exact hne
        · exact absurd (hrest d hd) hne
      rw [rdropWhile_append_of_all (by simpa using hrest),
        List.rdropWhile_eq_nil_iff.mpr (by simpa using hrest), List.rdropWhile_singleton,
        if_neg (by simpa using hc)]

theorem trimTail_length_le (text : List UInt8) : (trimTail text).length ≤ text.length := by
  cases text with
  | nil => exact le_rfl
  | cons c rest => exact Nat.succ_le_succ (List.rdropWhile_prefix _ _).length_le

theorem trimTail_eq_nil_iff {text : List UInt8} : trimTail text = [] ↔ text = [] := by
  cases text <;> simp [trimTail]

theorem trimTail_eq_rdropWhile_append {s b : List UInt8} :
    trimTail s = (s ++ b).rdropWhile (· = 32) ↔
      (s ≠ [] → ∃ c ∈ s, c ≠ 32) ∧ ∀ c ∈ b, c = 32 := by
  constructor
  · intro h
    have hb : ∀ c ∈ b, c = 32 := by
      by_contra hb
      push Not at hb
      obtain ⟨c, hc, hne⟩ := hb
      rw [rdropWhile_append_of_exists ⟨c, hc, by simpa using hne⟩] at h
      have hlen := congrArg List.length h
      have hle := trimTail_length_le s
      rw [List.length_append] at hlen
      have hnil : b.rdropWhile (· = 32) = [] := List.length_eq_zero_iff.mp (by omega)
      exact hne (by simpa using List.rdropWhile_eq_nil_iff.mp hnil c hc)
    refine ⟨fun hs => ?_, hb⟩
    by_contra hall
    push Not at hall
    rw [rdropWhile_append_of_all (by simpa using hb),
      List.rdropWhile_eq_nil_iff.mpr (by simpa using hall)] at h
    exact hs (trimTail_eq_nil_iff.mp h)
  · rintro ⟨hs, hb⟩
    rw [rdropWhile_append_of_all (by simpa using hb)]
    by_cases hnil : s = []
    · rw [hnil]
      rfl
    · exact trimTail_of_exists (hs hnil)

theorem identStr_eq (raw : ℕ → UInt8) :
    identStr raw = if Overruns raw 0 0 then .error .write
      else .ok (trimTail ((firstFields 5 (identBytes raw)).map blanked)) := by
  rw [identStr_eq_closed, identLoop_eq raw _ 4 0 0 [] rfl rfl (by omega) (by decide) (by omega),
    identBytes_eq_rest]
  split
  · rfl
  · rfl

theorem overruns_iff (raw : ℕ → UInt8) :
    Overruns raw 0 0 ↔ (identBytes raw).length = maxIdentChars - 1 ∧
      raw (maxIdentChars - 2) = 0 ∧ (identBytes raw).count 0 ≤ 4 ∧
        raw (maxIdentChars - 1) ≠ 0xff := by
  rw [Overruns, identBytes_eq_rest, Nat.zero_add]
  rfl

/-- The array holds the fields joined exactly when they are in the array with their blanks. -/
theorem identStr_iff (raw : ℕ → UInt8) : identStr raw = .ok (joined raw) ↔ Fits raw := by
  have hsplit := firstFields_append_behindFields 5 (identBytes raw)
  have hjoined : joined raw = ((firstFields 5 (identBytes raw)).map blanked ++
      (behindFields 5 (identBytes raw)).map blanked).rdropWhile (· = 32) := by
    rw [joined_eq, ← List.map_append, hsplit]
  have hfirst : firstFields 5 (identBytes raw) = [] ↔ identBytes raw = [] :=
    firstFields_eq_nil_iff
  have hbehind : (∀ c ∈ (behindFields 5 (identBytes raw)).map blanked, c = 32) ↔
      ∀ c ∈ behindFields 5 (identBytes raw), c = 0 ∨ c = 32 := by
    simp only [List.forall_mem_map, blanked_eq_blank_iff]
  have hvisible (five : ∀ c ∈ behindFields 5 (identBytes raw), c = 0 ∨ c = 32) :
      (∃ c ∈ (firstFields 5 (identBytes raw)).map blanked, c ≠ 32) ↔
        ∃ c ∈ identBytes raw, c ≠ 0 ∧ c ≠ 32 := by
    constructor
    · intro ⟨d, hd, hne⟩
      obtain ⟨c, hc, rfl⟩ := List.mem_map.mp hd
      exact ⟨c, hsplit ▸ List.mem_append_left _ hc, not_or.mp (blanked_eq_blank_iff.not.mp hne)⟩
    · intro ⟨c, hc, hne⟩
      rw [← hsplit] at hc
      rcases List.mem_append.mp hc with hc | hc
      · exact ⟨_, List.mem_map_of_mem hc, blanked_eq_blank_iff.not.mpr (not_or.mpr hne)⟩
      · exact absurd (five c hc) (not_or.mpr hne)
  rw [identStr_eq, hjoined]
  by_cases hover : Overruns raw 0 0
  · rw [if_pos hover]
    exact iff_of_false (by simp) fun fits => fits.room ((overruns_iff raw).mp hover)
  · rw [if_neg hover, Except.ok.injEq, trimTail_eq_rdropWhile_append, hbehind, ne_eq,
      List.map_eq_nil_iff, hfirst]
    constructor
    · rintro ⟨visible, five⟩
      exact ⟨(overruns_iff raw).not.mp hover, fun hne => (hvisible five).mp (visible hne), five⟩
    · rintro ⟨-, visible, five⟩
      exact ⟨fun hne => (hvisible five).mpr (visible hne), five⟩

end UBoot.Pcmcia
