import UBoot.Lib.Buf

/-!
# Stopping autoboot by a key string: `abortboot` (`common/main.c`)

The build with `CONFIG_AUTOBOOT_KEYED`. The characters that were received last are in `presskey`,
as many of them as the longest key has; every turn of the loop compares their end with the keys.
`Sees` says what `presskey` holds of the characters received, `abortboot_iff` what the function
returns.
-/

namespace UBoot.Main

open UBoot.Lib

abbrev maxDelayStopStr : ℕ := 32

/-- The four strings, from the environment or else the build: unset is `none`. -/
structure DelayKeys where
  bootdelaykey : Option (List UInt8)
  bootdelaykey2 : Option (List UInt8)
  bootstopkey : Option (List UInt8)
  bootstopkey2 : Option (List UInt8)

/-- `delaykey`, with each string cut to the length that counts. -/
def DelayKeys.list (k : DelayKeys) : List (List UInt8) :=
  [k.bootdelaykey, k.bootdelaykey2, k.bootstopkey, k.bootstopkey2].map fun str =>
    (str.getD []).take maxDelayStopStr

def presskeyMax (keys : List (List UInt8)) : ℕ :=
  keys.foldl (fun n key => if n > key.length then n else key.length) 0

/-- `presskey` and `presskey_len` -/
structure Pressed where
  presskey : Buf UInt8 maxDelayStopStr
  len : ℕ

/-- Is one of the keys at the end of `presskey`? The loop over the keys does not stop early. -/
def matchKeys (p : Pressed) : List (List UInt8) → Bool → Except Oob Bool
  | [], abort => .ok abort
  | key :: keys, abort =>
    if 0 < key.length ∧ key.length ≤ p.len then do
      let bytes ← p.presskey.load (p.len - key.length) key.length
      matchKeys p keys (abort || bytes == key)
    else matchKeys p keys abort

/-- `for (; i < presskey_max - 1; i ++) presskey [i] = presskey [i + 1];` for `n` more turns: the
buffer and `i`. -/
def shiftKeys (presskey : Buf UInt8 maxDelayStopStr) (i : ℕ) :
    ℕ → Except Oob (Buf UInt8 maxDelayStopStr × ℕ)
  | 0 => .ok (presskey, i)
  | n + 1 => do
    let c ← presskey.rd (i + 1)
    let presskey ← presskey.store i [c]
    shiftKeys presskey (i + 1) n

/-- A character is received. `presskey_max - 1` is unsigned. -/
def press (max : ℕ) (p : Pressed) (c : UInt8) : Except Oob Pressed :=
  if p.len < max then do
    let presskey ← p.presskey.store p.len [c]
    return ⟨presskey, p.len + 1⟩
  else do
    let (presskey, i) ← shiftKeys p.presskey 0 (UInt32.ofNat max - 1).toNat
    let presskey ← presskey.store i [c]
    return ⟨presskey, p.len⟩

/-- `if (tstc()) { … }` -/
def pressPoll (max : ℕ) (p : Pressed) : Option UInt8 → Except Oob Pressed
  | some c => press max p c
  | none => .ok p

/-- The loop: for each turn before the timeout, the character that `tstc` finds, if there is one. -/
def abortLoop (keys : List (List UInt8)) : List (Option UInt8) → Pressed → Except Oob Bool
  | [], _ => .ok false
  | poll :: polls, p => do
    let abort ← matchKeys p keys false
    let p ← pressPoll (presskeyMax keys) p poll
    if abort then return true
    abortLoop keys polls p

def abortboot (k : DelayKeys) (polls : List (Option UInt8)) (junk : Buf UInt8 maxDelayStopStr) :
    Except Oob Bool :=
  abortLoop k.list polls ⟨junk, 0⟩

/-! ## Matching the characters received -/

/-- The characters that have been received after some turns. -/
def received (polls : List (Option UInt8)) : List UInt8 := polls.filterMap id

/-- The characters end with one of the keys that are not empty. -/
def EndsWithKey (keys : List (List UInt8)) (text : List UInt8) : Prop :=
  ∃ key ∈ keys, key ≠ [] ∧ key <:+ text

/-- `abortboot` stays in `presskey`, and sees a key exactly when one is received in time. -/
def SeesKeys (k : DelayKeys) (polls : List (Option UInt8)) (junk : Buf UInt8 maxDelayStopStr) :
    Prop :=
  ∃ abort, abortboot k polls junk = .ok abort ∧
    (abort = true ↔ ∃ n < polls.length, EndsWithKey k.list (received (polls.take n)))

/-- `presskey` holds the last of the characters received, `max` of them if there are as many. -/
structure Sees (max : ℕ) (text : List UInt8) (p : Pressed) : Prop where
  len : p.len = min text.length max
  held : p.presskey.slice 0 p.len <:+ text

section
variable {keys : List (List UInt8)} {key text : List UInt8} {p : Pressed} {max i n : ℕ}
  {abort : Bool} {c : UInt8} {buf : Buf UInt8 maxDelayStopStr}

theorem foldl_longest (keys : List (List UInt8)) (n : ℕ) :
    let m := keys.foldl (fun n key => if n > key.length then n else key.length) n
    n ≤ m ∧ (∀ key ∈ keys, key.length ≤ m) ∧
      ∀ bound, n ≤ bound → (∀ key ∈ keys, key.length ≤ bound) → m ≤ bound := by
  induction keys generalizing n with
  | nil => exact ⟨le_rfl, (fun _ h => absurd h List.not_mem_nil), fun _ h _ => h⟩
  | cons key keys ih =>
    obtain ⟨hge, hkeys, hle⟩ := ih (if n > key.length then n else key.length)
    rw [List.foldl_cons]
    dsimp only at hge hkeys hle ⊢
    have hn : n ≤ (if n > key.length then n else key.length) ∧
        key.length ≤ (if n > key.length then n else key.length) := by
      split_ifs <;> omega
    refine ⟨hn.1.trans hge, fun k hk => ?_, fun bound hbound hall => ?_⟩
    · rcases List.mem_cons.mp hk with rfl | hk
      · exact hn.2.trans hge
      · exact hkeys k hk
    · obtain ⟨hkey, hrest⟩ := List.forall_mem_cons.mp hall
      exact hle bound (by split_ifs <;> assumption) hrest

theorem le_presskeyMax (hkey : key ∈ keys) : key.length ≤ presskeyMax keys :=
  (foldl_longest keys 0).2.1 key hkey

theorem presskeyMax_le (h : ∀ key ∈ keys, key.length ≤ n) : presskeyMax keys ≤ n :=
  (foldl_longest keys 0).2.2 n (Nat.zero_le n) h

theorem presskeyMax_pos : 0 < presskeyMax keys ↔ ∃ key ∈ keys, key ≠ [] := by
  constructor
  · intro hpos
    by_contra hnone
    have hzero : presskeyMax keys ≤ 0 := presskeyMax_le fun key hkey => by
      have hnil : key = [] := not_not.mp fun hne => hnone ⟨key, hkey, hne⟩
      rw [hnil]
      exact le_rfl
    omega
  · rintro ⟨key, hkey, hne⟩
    exact (List.length_pos_iff.mpr hne).trans_le (le_presskeyMax hkey)

theorem DelayKeys.length_le (k : DelayKeys) : ∀ key ∈ k.list, key.length ≤ maxDelayStopStr := by
  intro key hkey
  obtain ⟨str, -, rfl⟩ := List.mem_map.mp hkey
  exact List.length_take_le ..

/-! ## One turn -/

/-- A key at the end of `presskey` is at the end of what was received. -/
theorem Sees.load_eq (h : Sees max text p) (hlen : key.length ≤ p.len) :
    p.presskey.slice (p.len - key.length) key.length = key ↔ key <:+ text := by
  have hsplit : p.presskey.slice 0 p.len = p.presskey.slice 0 (p.len - key.length) ++
      p.presskey.slice (p.len - key.length) key.length := by
    have happend : p.presskey.slice 0 (p.len - key.length + key.length) = _ := Buf.slice_append
    rwa [Nat.sub_add_cancel hlen, Nat.zero_add] at happend
  have hend : p.presskey.slice (p.len - key.length) key.length <:+ text := by
    refine List.IsSuffix.trans ?_ h.held
    rw [hsplit]
    exact List.suffix_append ..
  constructor
  · intro heq
    rwa [heq] at hend
  · intro hkey
    exact (List.suffix_of_suffix_length_le hend hkey (by simp)).eq_of_length (by simp)

variable (abort) in
theorem matchKeys_eq (h : Sees max text p) (hmax : max ≤ maxDelayStopStr)
    (hkeys : ∀ key ∈ keys, key.length ≤ max) :
    ∃ r, matchKeys p keys abort = .ok r ∧ (r = true ↔ abort = true ∨ EndsWithKey keys text) := by
  induction keys generalizing abort with
  | nil =>
    refine ⟨abort, rfl, (or_iff_left ?_).symm⟩
    rintro ⟨key, hkey, -⟩
    exact List.not_mem_nil hkey
  | cons key keys ih =>
    obtain ⟨hkey, hkeys⟩ := List.forall_mem_cons.mp hkeys
    have hcons : EndsWithKey (key :: keys) text ↔ (key ≠ [] ∧ key <:+ text) ∨
        EndsWithKey keys text := by
      rw [EndsWithKey, EndsWithKey, List.exists_mem_cons_iff]
    have hlen := h.len
    rw [matchKeys, hcons]
    by_cases hfits : 0 < key.length ∧ key.length ≤ p.len
    · have hload : p.presskey.load (p.len - key.length) key.length =
          .ok (p.presskey.slice (p.len - key.length) key.length) :=
        Buf.load_ok.mpr ⟨by omega, rfl⟩
      obtain ⟨r, hr, hiff⟩ := ih (abort ||
        p.presskey.slice (p.len - key.length) key.length == key) hkeys
      rw [if_pos hfits, hload]
      refine ⟨r, hr, hiff.trans ?_⟩
      rw [Bool.or_eq_true, beq_iff_eq, h.load_eq hfits.2, or_assoc,
        and_iff_right (List.length_pos_iff.mp hfits.1)]
    · obtain ⟨r, hr, hiff⟩ := ih abort hkeys
      rw [if_neg hfits]
      refine ⟨r, hr, hiff.trans (or_congr_right (or_iff_right ?_).symm)⟩
      rintro ⟨hne, hsuffix⟩
      have hpos := List.length_pos_iff.mpr hne
      have hle := hsuffix.length_le
      omega

variable (buf i n) in
theorem shiftKeys_eq (h : i + n < maxDelayStopStr) :
    ∃ buf', shiftKeys buf i n = .ok (buf', i + n) ∧
      ∀ j, buf'.get j = if i ≤ j ∧ j < i + n then buf.get (j + 1) else buf.get j := by
  induction n generalizing buf i with
  | zero => exact ⟨buf, rfl, fun j => (if_neg (by omega)).symm⟩
  | succ n ih =>
    have hrd : buf.rd (i + 1) = .ok (buf.get (i + 1)) := Buf.rd_ok.mpr ⟨by omega, rfl⟩
    have hstore : buf.store i [buf.get (i + 1)] = .ok (buf.put i [buf.get (i + 1)]) :=
      Buf.store_ok.mpr ⟨by rw [List.length_singleton]; omega, rfl⟩
    obtain ⟨buf', hbuf', hget⟩ := ih (i + 1) (buf.put i [buf.get (i + 1)]) (by omega)
    have hsum : i + 1 + n = i + (n + 1) := by omega
    rw [hsum] at hbuf' hget
    rw [shiftKeys, hrd]
    refine ⟨buf', ?_, fun j => ?_⟩
    · simp only [bind, Except.bind, hstore, hbuf']
    · rw [hget]
      rcases Nat.lt_trichotomy j i with hj | rfl | hj
      · rw [if_neg (by omega), if_neg (by omega), Buf.get_put_of_lt hj]
      · rw [if_neg (by omega), if_pos (by omega)]
        exact Buf.get_put (j := 0) (l := [buf.get (j + 1)]) Nat.one_pos
      · have hbehind (k : ℕ) (hk : i < k) : (buf.put i [buf.get (i + 1)]).get k = buf.get k :=
          Buf.get_put_of_ge hk
        rw [hbehind j hj, hbehind (j + 1) (by omega)]
        split_ifs <;> first | rfl | omega

theorem shiftKeys_oob (hi : i < maxDelayStopStr) (h : maxDelayStopStr ≤ i + n) :
    shiftKeys buf i n = .error .read := by
  induction n generalizing buf i with
  | zero => omega
  | succ n ih =>
    rw [shiftKeys]
    by_cases hlast : i + 1 < maxDelayStopStr
    · have hrd : buf.rd (i + 1) = .ok (buf.get (i + 1)) := Buf.rd_ok.mpr ⟨hlast, rfl⟩
      have hstore : buf.store i [buf.get (i + 1)] = .ok (buf.put i [buf.get (i + 1)]) :=
        Buf.store_ok.mpr ⟨by rw [List.length_singleton]; omega, rfl⟩
      simp only [bind, Except.bind, hrd, hstore]
      exact ih hlast (by omega)
    · have hrd : buf.rd (i + 1) = .error .read := if_neg hlast
      rw [hrd]
      rfl

theorem Sees.press (h : Sees max text p) (hpos : 0 < max) (hmax : max ≤ maxDelayStopStr)
    (c : UInt8) :
    ∃ p', press max p c = .ok p' ∧ Sees max (text ++ [c]) p' := by
  have hlen := h.len
  have hput (b : Buf UInt8 maxDelayStopStr) (k : ℕ) :
      (b.put k [c]).slice 0 (k + 1) = b.slice 0 k ++ [c] := by
    rw [Buf.slice_append, Buf.slice_put_of_le (by omega), Nat.zero_add]
    exact congrArg _ Buf.slice_put
  have hstore (b : Buf UInt8 maxDelayStopStr) (k : ℕ) (hk : k < maxDelayStopStr) :
      b.store k [c] = .ok (b.put k [c]) :=
    Buf.store_ok.mpr ⟨by rw [List.length_singleton]; omega, rfl⟩
  rw [Main.press]
  by_cases hroom : p.len < max
  · rw [if_pos hroom, hstore _ _ (by omega)]
    refine ⟨_, rfl, ?_, ?_⟩
    · rw [List.length_append, List.length_singleton]
      dsimp only
      omega
    · obtain ⟨before, hbefore⟩ := h.held
      dsimp only
      rw [hput, ← hbefore, List.append_assoc]
      exact List.suffix_append ..
  · have hlast : (UInt32.ofNat max - 1).toNat = max - 1 := by
      have hone : (1 : UInt32).toNat = 1 := rfl
      have hnat : (UInt32.ofNat max).toNat = max := UInt32.toNat_ofNat_of_lt'
        (show max < 2 ^ 32 by simp only [maxDelayStopStr] at hmax; omega)
      rw [UInt32.toNat_sub_of_le _ _ (UInt32.le_iff_toNat_le.mpr (by omega)), hnat, hone]
    obtain ⟨buf', hbuf', hget⟩ := shiftKeys_eq 0 (max - 1) p.presskey (by omega)
    have hfull : p.len = max - 1 + 1 := by omega
    have hshift : p.presskey.slice 0 p.len = [p.presskey.get 0] ++ buf'.slice 0 (max - 1) := by
      have hsplit : p.presskey.slice 0 (1 + (max - 1)) =
          p.presskey.slice 0 1 ++ p.presskey.slice (0 + 1) (max - 1) := Buf.slice_append
      have hmoved : p.presskey.slice (0 + 1) (max - 1) = buf'.slice 0 (max - 1) :=
        List.map_congr_left fun j hj => by
          rw [hget, if_pos ⟨Nat.zero_le _, by simpa using hj⟩]
          congr 1
          omega
      rw [hfull, Nat.add_comm, hsplit, hmoved]
      rfl
    rw [if_neg hroom, hlast, hbuf', Nat.zero_add]
    simp only [bind, Except.bind]
    rw [hstore _ _ (by omega)]
    refine ⟨_, rfl, ?_, ?_⟩
    · rw [List.length_append, List.length_singleton]
      dsimp only
      omega
    · obtain ⟨before, hbefore⟩ := h.held
      dsimp only
      rw [hfull, hput, ← hbefore, hshift, List.append_assoc, ← List.append_assoc before]
      exact ⟨before ++ [p.presskey.get 0], by simp⟩

/-! ## The loop -/

theorem exists_turn {poll : Option UInt8} {polls : List (Option UInt8)} (P : List UInt8 → Prop) :
    (∃ n < (poll :: polls).length, P (text ++ received ((poll :: polls).take n))) ↔
      P text ∨ ∃ n < polls.length, P (text ++ received [poll] ++ received (polls.take n)) := by
  have hnext (n : ℕ) : received ((poll :: polls).take (n + 1)) =
      received [poll] ++ received (polls.take n) := by
    cases poll <;> rfl
  constructor
  · rintro ⟨n, hn, h⟩
    cases n with
    | zero => exact .inl (by simpa [received] using h)
    | succ n => exact .inr ⟨n, Nat.lt_of_succ_lt_succ hn, by rwa [hnext, ← List.append_assoc] at h⟩
  · rintro (h | ⟨n, hn, h⟩)
    · exact ⟨0, Nat.succ_pos _, by simpa [received] using h⟩
    · exact ⟨n + 1, Nat.succ_lt_succ hn, by rwa [hnext, ← List.append_assoc]⟩

/-- **The loop**, when there is a key. -/
theorem abortLoop_eq (polls : List (Option UInt8)) (hpos : 0 < presskeyMax keys)
    (hkeys : ∀ key ∈ keys, key.length ≤ maxDelayStopStr) (h : Sees (presskeyMax keys) text p) :
    ∃ abort, abortLoop keys polls p = .ok abort ∧
      (abort = true ↔ ∃ n < polls.length, EndsWithKey keys (text ++ received (polls.take n))) := by
  have hmax : presskeyMax keys ≤ maxDelayStopStr := presskeyMax_le hkeys
  induction polls generalizing text p with
  | nil => exact ⟨false, rfl, iff_of_false Bool.false_ne_true fun ⟨n, hn, _⟩ => absurd hn (by simp)⟩
  | cons poll polls ih =>
    obtain ⟨hit, hhit, hiff⟩ := matchKeys_eq false h hmax fun _ => le_presskeyMax
    rw [or_iff_right Bool.false_ne_true] at hiff
    obtain ⟨p', hp', hsees⟩ : ∃ p', pressPoll (presskeyMax keys) p poll = .ok p' ∧
        Sees (presskeyMax keys) (text ++ received [poll]) p' := by
      cases poll with
      | none => exact ⟨p, rfl, by simpa [received] using h⟩
      | some c => exact h.press hpos hmax c
    obtain ⟨abort, habort, hrest⟩ := ih hsees
    rw [abortLoop, hhit]
    simp only [bind, Except.bind, hp', exists_turn]
    cases hit with
    | true => exact ⟨true, rfl, iff_of_true rfl (.inl (hiff.mp rfl))⟩
    | false =>
      have hmiss : ¬ EndsWithKey keys text := fun hkey => Bool.false_ne_true (hiff.mpr hkey)
      exact ⟨abort, habort, hrest.trans (or_iff_right hmiss).symm⟩

theorem matchKeys_none (hkeys : ∀ key ∈ keys, key = []) : matchKeys p keys abort = .ok abort := by
  induction keys with
  | nil => rfl
  | cons key keys ih =>
    obtain ⟨rfl, hrest⟩ := List.forall_mem_cons.mp hkeys
    rw [matchKeys, if_neg fun h => absurd h.1 (by decide)]
    exact ih hrest

/-- The loop without a key: the first character that is received is stored outside. -/
theorem abortLoop_none (polls : List (Option UInt8)) (hkeys : ∀ key ∈ keys, key = []) :
    (abortLoop keys polls p = .ok false ∧ ∀ poll ∈ polls, poll = none) ∨
      (abortLoop keys polls p = .error .read ∧ ∃ poll ∈ polls, poll ≠ none) := by
  induction polls with
  | nil => exact .inl ⟨rfl, fun _ h => absurd h List.not_mem_nil⟩
  | cons poll polls ih =>
    rw [abortLoop, matchKeys_none hkeys]
    cases poll with
    | none =>
      refine ih.imp (fun h => ⟨h.1, List.forall_mem_cons.mpr ⟨rfl, h.2⟩⟩)
        fun ⟨h, c, hc, hsome⟩ => ?_
      exact ⟨h, c, List.mem_cons_of_mem _ hc, hsome⟩
    | some c =>
      have hmax : presskeyMax keys = 0 := Nat.le_zero.mp (presskeyMax_le fun key hkey => by
        rw [hkeys key hkey]
        exact le_rfl)
      have hpress : pressPoll (presskeyMax keys) p (some c) = .error .read := by
        rw [hmax, pressPoll, press, if_neg (Nat.not_lt_zero _),
          shiftKeys_oob (by decide) (by decide)]
        rfl
      refine .inr ⟨?_, some c, List.mem_cons_self .., Option.some_ne_none c⟩
      simp only [bind, Except.bind, hpress]

/-- **Stopping autoboot.** It works unless no key is set and a character is received. -/
theorem abortboot_iff (k : DelayKeys) (polls : List (Option UInt8))
    (junk : Buf UInt8 maxDelayStopStr) : SeesKeys k polls junk ↔
      (∃ key ∈ k.list, key ≠ []) ∨ ∀ poll ∈ polls, poll = none := by
  by_cases hkey : ∃ key ∈ k.list, key ≠ []
  · refine iff_of_true ?_ (.inl hkey)
    have hsees : Sees (presskeyMax k.list) [] ⟨junk, 0⟩ := ⟨by simp, by simp [Buf.slice]⟩
    exact abortLoop_eq polls (presskeyMax_pos.mpr hkey) k.length_le hsees
  · rw [or_iff_right hkey]
    have hkeys : ∀ key ∈ k.list, key = [] := fun key hmem =>
      not_not.mp fun hne => hkey ⟨key, hmem, hne⟩
    obtain ⟨hloop, hnone⟩ | ⟨hloop, poll, hpoll, hsome⟩ :=
      abortLoop_none (p := ⟨junk, 0⟩) polls hkeys
    · refine iff_of_true ⟨false, hloop, iff_of_false Bool.false_ne_true ?_⟩ hnone
      rintro ⟨n, -, key, hmem, hne, -⟩
      exact hne (hkeys key hmem)
    · refine iff_of_false ?_ fun h => hsome (h poll hpoll)
      rintro ⟨abort, habort, -⟩
      rw [abortboot, hloop] at habort
      cases habort

end

/-- No key is set, and a character is received. -/
theorem abortboot_no_key :
    ¬ SeesKeys ⟨none, none, none, none⟩ [some 32] ⟨fun _ => 0⟩ := by
  rintro ⟨abort, habort, -⟩
  obtain ⟨hloop, hnone⟩ | ⟨hloop, -⟩ := abortLoop_none (p := ⟨⟨fun _ => 0⟩, 0⟩) [some 32]
    (show ∀ key ∈ (DelayKeys.mk none none none none).list, key = [] by decide)
  · exact absurd (hnone _ (List.mem_cons_self ..)) (Option.some_ne_none _)
  · rw [abortboot, hloop] at habort
    cases habort

end UBoot.Main
