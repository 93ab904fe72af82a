import UBoot.Env.Refine
import UBoot.Lib.Runs

/-!
# The environment as a format and as a finite map

`Format` is the stored form in its own terms (strings with a `=`, each with its NUL, the
list closed by a double NUL); an area has it exactly when it `Holds` some entries.
`setenv_keeps_format` carries it over every sequence of `_do_setenv` calls, with
`ScansInside`: the loops of the readers end inside the area. `setenv_map` reads one call
as an update of a map from names to values.
-/

namespace UBoot.Env

open UBoot.Lib UBoot.Common

/-! ## The format -/

/-- NUL-terminated strings, each with a `=`, and an extra NUL. -/
def Listed (bytes : List UInt8) (es : List (List UInt8)) : Prop :=
  (∀ s ∈ es, s ≠ [] ∧ (0 : UInt8) ∉ s ∧ eqCh ∈ s) ∧ es.flatMap (· ++ [0]) ++ [0] <+: bytes

/-- The end of the list is marked by a double NUL, also when the list is empty. -/
def Format (bytes : List UInt8) : Prop :=
  ∃ es, Listed bytes es ∧ (es = [] → [0, 0] <+: bytes)

def DoubleNul (bytes : List UInt8) : Prop :=
  ∃ i : Nat, bytes[i]? = some 0 ∧ bytes[i + 1]? = some 0

variable {n : Nat}

theorem Holds.format {a : Area n} {es : List Entry} (h : Holds a es) : Format a.bytes := by
  have hflat : (es.map Entry.bytes).flatMap (· ++ [0]) = flat es := by
    rw [List.flatMap_map]; rfl
  refine ⟨es.map Entry.bytes, ⟨?_, ?_⟩, ?_⟩
  · intro s hs
    obtain ⟨e, -, rfl⟩ := List.mem_map.mp hs
    exact ⟨e.bytes_ne_nil, e.nonul, by simp [Entry.bytes]⟩
  · obtain ⟨post, hb⟩ := h.split
    rw [hflat, hb]
    exact ⟨post, by simp⟩
  · intro hes
    obtain rfl : es = [] := List.map_eq_nil_iff.mp hes
    exact h

theorem exists_entries {es : List (List UInt8)}
    (h : ∀ s ∈ es, s ≠ [] ∧ (0 : UInt8) ∉ s ∧ eqCh ∈ s) :
    ∃ fs : List Entry, fs.map Entry.bytes = es := by
  induction es with
  | nil => exact ⟨[], rfl⟩
  | cons s es ih =>
    obtain ⟨⟨-, h0, heq⟩, h⟩ := List.forall_mem_cons.mp h
    obtain ⟨fs, rfl⟩ := ih h
    exact ⟨.ofBytes s h0 :: fs, by rw [List.map_cons, Entry.ofBytes_bytes h0 heq]⟩

/-- **The format is what `Holds` asks for.** -/
theorem format_iff_holds {a : Area n} : Format a.bytes ↔ ∃ es, Holds a es := by
  constructor
  · rintro ⟨es, ⟨hes, hpre⟩, hnil⟩
    obtain ⟨fs, rfl⟩ := exists_entries hes
    rw [List.flatMap_map] at hpre
    refine ⟨fs, ?_⟩
    cases fs with
    | nil => exact hnil rfl
    | cons e fs => exact hpre
  · rintro ⟨es, h⟩
    exact h.format

theorem Holds.doubleNul {a : Area n} {es : List Entry} (h : Holds a es) : DoubleNul a.bytes := by
  cases es with
  | nil =>
    obtain ⟨post, h⟩ := h
    exact ⟨0, by simp [← h, image], by simp [← h, image]⟩
  | cons e es =>
    obtain ⟨post, h⟩ := h.split
    have hlast : ∃ w, flat (e :: es) = w ++ [0] := by
      obtain ⟨fs, f, hf⟩ := List.eq_nil_or_concat' (e :: es) |>.resolve_left (List.cons_ne_nil _ _)
      exact ⟨flat fs ++ f.bytes, by rw [hf]; simp⟩
    obtain ⟨w, hw⟩ := hlast
    exact ⟨w.length, by simp [h, hw], by simp [h, hw]⟩

/-! ## The readers' loops -/

theorem printAllFrom_ok {a : Area n} (ctrlc : Nat → Bool) {es : List Entry} {p q : List UInt8}
    {k i : Nat} (h : a.bytes = p ++ (flat es ++ 0 :: q)) (hi : i = p.length)
    (hf : es.length < k) (out : List UInt8) : ∃ r, printAllFrom ctrlc a k i out = .ok r := by
  induction es generalizing p k i out with
  | nil =>
    obtain ⟨k, rfl⟩ : ∃ m, k = m + 1 := ⟨k - 1, by omega⟩
    have hr : a.rd i = .ok 0 := Area.rd_split (by rw [h]; rfl) hi
    exact ⟨(some i, out), by simp [printAllFrom, hr, bind, Except.bind, pure, Except.pure]⟩
  | cons e es ih =>
    obtain ⟨k, rfl⟩ : ∃ m, k = m + 1 := ⟨k - 1, by omega⟩
    obtain ⟨c, w, hc, hc0⟩ := flat_head e es
    have hr : a.rd i = .ok c := Area.rd_split (by rw [h, hc]; rfl) hi
    have hn : nulFrom (a.bytes.drop i) i = .ok (i + e.bytes.length) := by
      rw [h, hi, List.drop_left, flat_cons, List.append_assoc]
      exact nulFrom_append e.nonul _ _
    simp only [printAllFrom, hr, hn, bind, Except.bind, if_neg hc0]
    split
    · exact ⟨_, rfl⟩
    · exact ih (p := p ++ (e.bytes ++ [0])) (by rw [h]; simp) (by rw [hi]; simp; omega)
        (by simpa using hf) _

theorem printOne_ok {a : Area n} {es : List Entry} (h : Holds a es) (name : CStr) :
    ∃ r, printOne a name = .ok r := by
  rw [printOne, search_holds h]
  cases locate (keyOf name.bytes) es 0 <;> exact ⟨_, rfl⟩

theorem doPrintenv_ok {a : Area n} {es : List Entry} (h : Holds a es) (ctrlc : Nat → Bool)
    (names : List CStr) : ∃ r, doPrintenv ctrlc a names = .ok r := by
  cases names with
  | nil =>
    obtain ⟨post, hs⟩ := h.split
    have := length_le_flat es
    have := h.length_lt
    obtain ⟨r, hr⟩ := printAllFrom_ok ctrlc (p := []) (i := 0) hs rfl
      (show es.length < n + 1 by omega) []
    exact ⟨_, by rw [doPrintenv, hr]; rfl⟩
  | cons name names =>
    simp only [doPrintenv]
    refine exists_foldlM_ok (fun acc name => ?_) (name :: names) (0, [])
    obtain ⟨r, hr⟩ := printOne_ok h name
    cases r <;> exact ⟨_, by rw [hr]; rfl⟩

section
variable {cfg : EnvCfg} {a : Area cfg.dataSize} {es : List Entry}

theorem getenvR_ok (h : Holds a es) (name : CStr) (len : Nat) :
    ∃ r, getenvR cfg a name len = .ok r := by
  cases hf : es.find? fun e => e.key = keyOf name.bytes with
  | none => exact ⟨_, getenvR_none h hf len⟩
  | some e => exact ⟨_, getenvR_some h hf len⟩

/-- The scans over an area that holds `es` end inside it. `envmatch` at an entry ends as it
does when there is nothing behind the entry's NUL; behind the name's NUL there never is. -/
structure ScansInside (cfg : EnvCfg) (a : Area cfg.dataSize) (es : List Entry) : Prop where
  search : ∀ name, ∃ r, search a name = .ok r
  getenv : ∀ name, ∃ r, getenv cfg a name = .ok r
  getenvR : ∀ name len, ∃ r, getenvR cfg a name len = .ok r
  printenv : ∀ ctrlc names, ∃ r, doPrintenv ctrlc a names = .ok r
  envmatch : ∀ es₁ e es₂, es = es₁ ++ e :: es₂ → ∀ name : CStr, ∃ m,
    envmatch a name (flat es₁).length = .ok m ∧
      envmatchFrom name.terminated (e.bytes ++ [0]) (flat es₁).length = .ok m

theorem Holds.scansInside (h : Holds a es) : ScansInside cfg a es where
  search name := ⟨_, search_holds h name⟩
  getenv name := ⟨_, getenv_holds h name⟩
  getenvR name len := getenvR_ok h name len
  printenv ctrlc names := doPrintenv_ok h ctrlc names
  envmatch es₁ e es₂ hes name := by
    obtain ⟨post, hs⟩ := h.split
    have hs' : a.bytes = flat es₁ ++ (e.bytes ++ 0 :: (flat es₂ ++ 0 :: post)) := by
      rw [hs, hes]; simp
    refine ⟨_, envmatch_entry name hs' rfl, ?_⟩
    rw [Entry.bytes, List.append_assoc, List.cons_append]
    exact envmatchFrom_key name.nonul e.key_ok _ _

end

/-! ## Sequences of calls -/

def Build.plain : Build := ⟨false, none, false, false, []⟩

/-- Every `console_assign` succeeds; the bytes at address 0 are no number. -/
def Outside.plain : Outside := ⟨fun _ _ => true, 0⟩

/-- `ENV_SIZE` is `n`. -/
def EnvCfg.plain (n : Nat) : EnvCfg := ⟨n + 4, false, Nat.le_add_left 4 n⟩

def Globals.plain : Globals := ⟨0, [], 0, 0, [], []⟩

structure Call where
  outside : Outside
  name : CStr
  args : Args

/-- The environment in RAM and the variables that follow it. -/
structure Monitor (n : Nat) where
  env : EnvT n
  g : Globals

/-- A call of `_do_setenv` that stays inside the area. -/
def SetenvStep (b : Build) (s : Monitor n) (c : Call) (s' : Monitor n) : Prop :=
  ∃ r, doSetenv b c.outside s.env s.g c.name c.args = .ok r ∧ s' = ⟨r.env, r.g⟩

theorem setenv_run_holds (b : Build) (calls : List Call) {s : Monitor n} {es : List Entry}
    (h : Holds s.env.data es) :
    ∃ s' es', Run (SetenvStep b) s calls s' ∧ Holds s'.env.data es' := by
  induction calls generalizing s es with
  | nil => exact ⟨s, es, .nil s, h⟩
  | cons c calls ih =>
    obtain ⟨r, es₁, hr, -, h₁⟩ := doSetenv_refines h b c.outside s.g c.name c.args
    obtain ⟨s', es', hrun, h'⟩ := ih (s := ⟨r.env, r.g⟩) h₁
    exact ⟨s', es', .cons ⟨r, hr, rfl⟩ hrun, h'⟩

/-- **The stored form is an invariant.** From an area in the format, every sequence of
calls runs to its end without touching a byte outside the area, and leaves an area in the
format, with a double NUL inside it, in which every reader's scan ends inside. -/
theorem setenv_keeps_format {cfg : EnvCfg} (b : Build) (calls : List Call)
    {s : Monitor cfg.dataSize} (h : Format s.env.data.bytes) :
    ∃ s' es', Run (SetenvStep b) s calls s' ∧ Holds s'.env.data es' ∧
      Format s'.env.data.bytes ∧ DoubleNul s'.env.data.bytes ∧ ScansInside cfg s'.env.data es' := by
  obtain ⟨es, h⟩ := format_iff_holds.mp h
  obtain ⟨s', es', hrun, h'⟩ := setenv_run_holds b calls h
  exact ⟨s', es', hrun, h', h'.format, h'.doubleNul, h'.scansInside⟩

theorem setenv_keeps_format_empty :
    ∃ (s' : Monitor (EnvCfg.plain 6).dataSize) (es' : List Entry),
      Run (SetenvStep .plain) ⟨⟨0, 0, ⟨[0, 0, 7, 7, 7, 7], rfl⟩⟩, .plain⟩
        [⟨.plain, ⟨[97], by decide⟩, .words ⟨[49], by decide⟩ []⟩,
          ⟨.plain, ⟨[97], by decide⟩, .null⟩] s' ∧
      Holds s'.env.data es' ∧ Format s'.env.data.bytes ∧ DoubleNul s'.env.data.bytes ∧
      ScansInside (.plain 6) s'.env.data es' :=
  setenv_keeps_format .plain _ ⟨[], ⟨by simp, ⟨[0, 7, 7, 7, 7], rfl⟩⟩, fun _ => ⟨[7, 7, 7, 7], rfl⟩⟩

/-- An empty list closed by one NUL only is not in the format, and the search for its end
leaves the area. -/
theorem setenv_single_nul : ∃ s : Monitor 4, Listed s.env.data.bytes [] ∧
    ¬ ∃ s', Run (SetenvStep .plain) s
      [⟨.plain, ⟨[97], by decide⟩, .words ⟨[49], by decide⟩ []⟩] s' := by
  refine ⟨⟨⟨0, 0, ⟨[0, 7, 7, 7], rfl⟩⟩, .plain⟩, ⟨by simp, ⟨[7, 7, 7], rfl⟩⟩, ?_⟩
  rintro ⟨s', hrun⟩
  cases hrun with
  | cons hs _ =>
    obtain ⟨r, hr, -⟩ := hs
    cases hr

/-! ## The map -/

theorem spaced_joined (v : CStr) (vs : List CStr) (sep : UInt8) :
    spaced sep (v :: vs) = sep :: [32].intercalate ((v :: vs).map CStr.bytes) := by
  induction vs generalizing v sep with
  | nil => simp [spaced, List.intercalate]
  | cons w vs ih => rw [spaced, ih]; simp [List.intercalate]

/-- What a lookup finds after a call that returns 0: the words joined by blanks, or
nothing after a deletion. -/
def Args.value : Args → Option (List UInt8)
  | .words v vs => some ([32].intercalate ((v :: vs).map CStr.bytes))
  | _ => none

theorem newEntry_val {name : CStr} (h : eqCh ∉ name.bytes) (v : CStr) (vs : List CStr) :
    (newEntry name v vs).val = [32].intercalate ((v :: vs).map CStr.bytes) := by
  have hk : ∀ c ∈ name.bytes, decide (c ≠ eqCh) = true := fun c hc =>
    decide_eq_true fun e => h (e ▸ hc)
  show ((name.bytes ++ spaced eqCh (v :: vs)).dropWhile (· ≠ eqCh)).tail = _
  rw [List.dropWhile_append_of_pos hk, spaced_joined]
  simp

theorem keyOf_self {s : List UInt8} (h : eqCh ∉ s) : keyOf s = s :=
  List.takeWhile_eq_self_iff.mpr fun _ hc => decide_eq_true fun e => h (e ▸ hc)

theorem Args.value_eq_none {args : Args} (h : args.argv2 = none) : args.value = none := by
  cases args with
  | words v vs => cases h
  | _ => rfl

section
variable {name : CStr} {es es' : List Entry} {args : Args} {rc : Nat}

/-- A lookup of the name set, when there was at most one entry for it. -/
theorem Sets.find_self (h : Sets n name es args rc es') (hrc : rc = 0) (hname : eqCh ∉ name.bytes)
    (h1 : es.countP (fun e => e.key = name.bytes) ≤ 1) :
    (es'.find? fun e => e.key = name.bytes).map Entry.val = args.value := by
  have hkey := keyOf_self hname
  have hdrop : (dropKey (keyOf name.bytes) es).find? (fun e => e.key = name.bytes) = none := by
    rw [hkey]; exact find?_eraseP_self h1
  cases h with
  | rejected => cases hrc
  | done h =>
    cases h with
    | nothing h => rw [hdrop, Args.value_eq_none h]; rfl
    | stored =>
      rw [List.find?_append, hdrop]
      simp [newEntry_key, hkey, newEntry_val hname, Args.value]
    | overflow => cases hrc

theorem Sets.find_other {k : List UInt8} (h : Sets n name es args rc es')
    (hk : k ≠ keyOf name.bytes) :
    es'.find? (fun e => e.key = k) = es.find? fun e => e.key = k := by
  have hdrop : (dropKey (keyOf name.bytes) es).find? (fun e => e.key = k) =
      es.find? fun e => e.key = k :=
    find?_eraseP fun e he => by
      simp only [decide_eq_true_eq] at he
      simpa [he] using hk
  cases h with
  | rejected => rfl
  | done h =>
    cases h with
    | nothing => exact hdrop
    | stored =>
      rw [List.find?_append, hdrop]
      simp [newEntry_key, Ne.symm hk]
    | overflow => exact hdrop

theorem Sets.filter_other (h : Sets n name es args rc es') :
    es'.filter (fun e => e.key ≠ keyOf name.bytes) =
      es.filter fun e => e.key ≠ keyOf name.bytes := by
  have hdrop : (dropKey (keyOf name.bytes) es).filter (fun e => e.key ≠ keyOf name.bytes) =
      es.filter fun e => e.key ≠ keyOf name.bytes :=
    filter_eraseP fun e he => by simpa using he
  cases h with
  | rejected => rfl
  | done h =>
    cases h with
    | nothing => exact hdrop
    | stored =>
      rw [List.filter_append, hdrop]
      simp [newEntry_key]
    | overflow => exact hdrop

end

/-- **The environment is a finite map.** After a call that returns 0 the name, if it had at
most one entry, is bound to the joined words, or unbound after a deletion; whatever the
call returns, every other name is bound as before and the other entries keep their order. -/
theorem setenv_map {cfg : EnvCfg} {e : EnvT cfg.dataSize} {es : List Entry} (h : Holds e.data es)
    (b : Build) (o : Outside) (g : Globals) (name : CStr) (hname : eqCh ∉ name.bytes)
    (args : Args) :
    ∃ r es', doSetenv b o e g name args = .ok r ∧ Holds r.env.data es' ∧
      (r.rc = 0 → es.countP (fun e => e.key = name.bytes) ≤ 1 →
        getenvStr cfg r.env.data name = .ok args.value) ∧
      (∀ other : CStr, eqCh ∉ other.bytes → other ≠ name →
        getenvStr cfg r.env.data other = getenvStr cfg e.data other) ∧
      es'.filter (fun e => e.key ≠ name.bytes) = es.filter fun e => e.key ≠ name.bytes := by
  obtain ⟨r, es', hr, hs, h'⟩ := doSetenv_refines h b o g name args
  have hkey := keyOf_self hname
  refine ⟨r, es', hr, h', fun hrc h1 => ?_, fun other hother hne => ?_, ?_⟩
  · rw [getenvStr_holds h', hkey, hs.find_self hrc hname h1]
  · have hne' : keyOf other.bytes ≠ keyOf name.bytes := by
      rw [keyOf_self hother, hkey]
      intro e
      cases other; cases name; cases e
      exact hne rfl
    rw [getenvStr_holds h', getenvStr_holds h, hs.find_other hne']
  · have := hs.filter_other
    rwa [hkey] at this

/-- `a=1` and `bc=2`, with `a` set to `x y`. -/
theorem setenv_map_two :
    ∃ (r : Result (EnvCfg.plain 12).dataSize) (es' : List Entry),
      doSetenv .plain .plain ⟨0, 0, ⟨[97, 61, 49, 0, 98, 99, 61, 50, 0, 0, 9, 9], rfl⟩⟩ .plain
          ⟨[97], by decide⟩
          (.words ⟨[120], by decide⟩ [⟨[121], by decide⟩]) = .ok r ∧
      Holds r.env.data es' ∧
      (r.rc = 0 →
        [Entry.ofBytes [97, 61, 49] (by decide), .ofBytes [98, 99, 61, 50] (by decide)].countP
          (fun e => e.key = [97]) ≤ 1 →
        getenvStr (.plain 12) r.env.data ⟨[97], by decide⟩ = .ok (some [120, 32, 121])) ∧
      (∀ other : CStr, eqCh ∉ other.bytes → other ≠ ⟨[97], by decide⟩ →
        getenvStr (.plain 12) r.env.data other =
          getenvStr (.plain 12) ⟨[97, 61, 49, 0, 98, 99, 61, 50, 0, 0, 9, 9], rfl⟩ other) ∧
      es'.filter (fun e => e.key ≠ [97]) =
        [Entry.ofBytes [97, 61, 49] (by decide), .ofBytes [98, 99, 61, 50] (by decide)].filter
          fun e => e.key ≠ [97] :=
  setenv_map ⟨[9, 9], rfl⟩ .plain .plain .plain ⟨[97], by decide⟩ (by decide) _

/-- Of two definitions of `a` only the first is replaced: `getenv` finds the second. -/
theorem setenv_duplicate :
    ∃ r : Result (EnvCfg.plain 9).dataSize,
      doSetenv .plain .plain ⟨0, 0, ⟨[97, 61, 49, 0, 97, 61, 50, 0, 0], rfl⟩⟩ .plain
          ⟨[97], by decide⟩ (.words ⟨[51], by decide⟩ []) = .ok r ∧ r.rc = 0 ∧
      getenvStr (.plain 9) r.env.data ⟨[97], by decide⟩ = .ok (some [50]) :=
  ⟨_, rfl, rfl, rfl⟩

end UBoot.Env
