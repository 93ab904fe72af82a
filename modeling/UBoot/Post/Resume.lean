import UBoot.Post.Phase

/-!
# Resuming across resets

`post_resumes`: from power-on up to the boot that completes, every selected test is called once,
and a test that reset the board is called once more with `POST_REBOOT`, provided that at each
reset the boot word names the test and the test has no second phase behind it (`Resumable`).
-/

namespace UBoot.Post

open UBoot.Lib UBoot.Common UBoot.Env

/-! ## Runs without the environment -/

section
variable (postList : List PostTest) (testFlags : List UInt32) (β : Behaviour)

def phaseWith (b : ℕ) (ph : Phase) (word : UInt32) : Out :=
  postRunWith postList testFlags (β.resets b ph) none (ph.flag ||| bootmodeGet word) word

/-- The rest of a boot, after what a phase did. -/
def finish (b : ℕ) (ph : Phase) (o : Out) : Run :=
  match ph, o.result with
  | .rom, none => ⟨o.events b .rom, o.word, false⟩
  | .rom, some _ =>
    let ram := phaseWith postList testFlags β b .ram o.word
    ⟨o.events b .rom ++ ram.events b .ram, ram.word, ram.result.isSome⟩
  | .ram, result => ⟨o.events b .ram, o.word, result.isSome⟩

def bootWith (b : ℕ) (word : UInt32) : Run :=
  finish postList testFlags β b .rom (phaseWith postList testFlags β b .rom (bootmodeInit word))

/-- `n` more boots after what a boot did. -/
def thenBoots : ℕ → ℕ → Run → Run
  | 0, _, r => r
  | n + 1, b, r =>
    match r.completed with
    | true => r
    | false =>
      let r' := thenBoots n (b + 1) (bootWith postList testFlags β (b + 1) r.word)
      ⟨r.events ++ r'.events, r'.word, r'.completed⟩

end

section
variable {cfg : EnvCfg} {env : Area cfg.dataSize} {es : List Entry} {postList : List PostTest}
  {β : Behaviour} {word : UInt32} {b n : ℕ}

theorem boot_ok (henv : Holds env es) (hfit : VarsFit es) (b : ℕ) (word : UInt32) :
    boot cfg env postList β b word =
      .ok (bootWith postList (flagsOf es postList) β b word) := by
  have hphase (ph : Phase) (word : UInt32) : runPhase cfg env postList β b ph word =
      .ok (phaseWith postList (flagsOf es postList) β b ph word) := by
    rw [runPhase, postRun, postGetFlags_ok henv hfit]
    rfl
  rw [boot, bootWith, hphase]
  simp only [bind, Except.bind, finish]
  cases (phaseWith postList (flagsOf es postList) β b .rom (bootmodeInit word)).result with
  | none => rfl
  | some _ => rw [hphase]; rfl

theorem run_ok (henv : Holds env es) (hfit : VarsFit es) (n b : ℕ) (word : UInt32) :
    run cfg env postList β (n + 1) b word = .ok (thenBoots postList (flagsOf es postList) β n b
      (bootWith postList (flagsOf es postList) β b word)) := by
  induction n generalizing b word with
  | zero =>
    rw [run, boot_ok henv hfit]
    generalize bootWith postList (flagsOf es postList) β b word = r
    obtain ⟨events, word', completed⟩ := r
    cases completed with
    | true => rfl
    | false =>
      simp only [bind, Except.bind, run, pure, Except.pure, List.append_nil]
      rfl
  | succ n ih =>
    rw [run, boot_ok henv hfit]
    generalize bootWith postList (flagsOf es postList) β b word = r
    obtain ⟨events, word', completed⟩ := r
    cases completed with
    | true => rfl
    | false =>
      simp only [bind, Except.bind, ih]
      rfl

end

/-! ## What a run should be -/

/-- A call with `POST_REBOOT`. -/
def Event.Reboots (e : Event) : Prop := e.call.flags &&& postReboot ≠ 0

instance (e : Event) : Decidable e.Reboots := inferInstanceAs (Decidable (_ ≠ _))

/-- The calls for the tests `ps`, from boot `b` on: each is called, and once more in the next boot
if it reset the board. -/
inductive Trace : List (Phase × ℕ) → ℕ → List Event → Prop
  | nil (b : ℕ) : Trace [] b []
  | returned {ps : List (Phase × ℕ)} {b : ℕ} {es : List Event} (e : Event) :
      e.boot = b → ¬ e.Reboots → e.call.reset = false → Trace ps b es →
      Trace ((e.phase, e.call.test) :: ps) b (e :: es)
  | reset {ps : List (Phase × ℕ)} {b : ℕ} {es : List Event} (e e' : Event) :
      e.boot = b → ¬ e.Reboots → e.call.reset = true → e'.boot = b + 1 → e'.Reboots →
      e'.call.reset = false → e'.phase = e.phase → e'.call.test = e.call.test →
      Trace ps (b + 1) es → Trace ((e.phase, e.call.test) :: ps) b (e :: e' :: es)

/-- The boot word names the test that resets the board, and the test is over with its reset. -/
def Event.Resumable (testFlags : List UInt32) (e : Event) : Prop :=
  lastTest e.call.word ||| e.call.test = e.call.test ∧
    (e.phase = .ram → selected testFlags .rom e.call.test = false)

section
variable {postList : List PostTest} {testFlags : List UInt32} {β : Behaviour} {word : UInt32}
  {b i : ℕ} {ph : Phase}

def todoFrom (testFlags : List UInt32) : Phase → ℕ → List (Phase × ℕ)
  | .rom, i => (todo testFlags .rom i).map (.rom, ·) ++ (todo testFlags .ram 0).map (.ram, ·)
  | .ram, i => (todo testFlags .ram i).map (.ram, ·)

theorem Trace.prepend {flags : UInt32} {cs : List Call} {js : List ℕ} {ps : List (Phase × ℕ)}
    {es : List Event} (hflags : Plain ph flags) (hcs : Returned flags cs js) (h : Trace ps b es) :
    Trace (js.map (ph, ·) ++ ps) b (cs.map (Event.mk b ph) ++ es) := by
  induction hcs with
  | nil => exact h
  | @cons c j cs js hc _ ih =>
    obtain ⟨rfl, hcflags, hreset⟩ := hc
    have hplain : c.flags &&& postReboot = 0 := hcflags ▸ hflags.2
    exact .returned ⟨b, ph, c⟩ rfl (not_not.mpr hplain) hreset ih

/-! ## A boot -/

theorem phase_plain (hw : Mode postPoweron word) : phaseWith postList testFlags β b ph word =
    runFrom (β.resets b ph) (ph.flag ||| postPoweron) 0 testFlags word := by
  rw [phaseWith, hw.get, postRunWith, hw.get]
  exact if_neg (by decide)

theorem phase_pass (hw : Mode (postPoweron ||| postPowertest) word)
    (hsel : selected testFlags ph (lastTest word) = false) :
    phaseWith postList testFlags β b ph word = ⟨some 0, word, []⟩ := by
  rw [phaseWith, hw.get, postRunWith, hw.get]
  rw [selected] at hsel
  rw [if_pos (by decide)]
  cases hget : testFlags[lastTest word]? with
  | none => rfl
  | some f =>
    rw [hget, Option.any_some] at hsel
    dsimp only
    rw [selects_eq (plain_arg ph (.inr rfl)).1, hsel, if_neg Bool.false_ne_true]

theorem phase_resume {k : ℕ} {f : UInt32} (hw : Mode (postPoweron ||| postPowertest) word)
    (hk : lastTest word = k) (hget : testFlags[k]? = some f)
    (hsel : selected testFlags ph k = true) (hreboot : f &&& postReboot ≠ 0) :
    phaseWith postList testFlags β b ph word =
      (Out.mk (some 0) (bootmodeTestOff word) [⟨k, ph.flag ||| (postPoweron ||| postPowertest) |||
        postReboot, word, false⟩]).andThen (runFrom (β.resets b ph)
          (ph.flag ||| (postPoweron ||| postPowertest)) (k + 1) (testFlags.drop (k + 1))) := by
  subst hk
  have hflags := plain_arg ph (.inr rfl)
  rw [selected, hget, Option.any_some] at hsel
  rw [phaseWith, hw.get, postRunWith, hw.get]
  rw [if_pos (by decide), hget]
  dsimp only
  rw [selects_eq hflags.1, if_pos hsel,
    single_reboot hflags ((selects_eq hflags.1.or).trans hsel) hreboot]

theorem boot_init (hw : Mode (postPoweron ||| postPowertest) word) : bootmodeInit word = word := by
  rw [bootmodeInit, hw.get]
  exact (if_neg (by decide)).trans (if_neg (by decide))

/-! ## The rest of a run -/

def Run.after (es : List Event) (r : Run) : Run := { r with events := es ++ r.events }

@[simp]
theorem after_nil (r : Run) : r.after [] = r := rfl

theorem thenBoots_after (n : ℕ) (es : List Event) (r : Run) :
    thenBoots postList testFlags β n b (r.after es) =
      (thenBoots postList testFlags β n b r).after es := by
  obtain ⟨events, word, completed⟩ := r
  cases n with
  | zero => rfl
  | succ n =>
    cases completed with
    | true => rfl
    | false => simp only [thenBoots, Run.after, List.append_assoc]

theorem finish_calls (result : Option ℤ) (word : UInt32) (cs cs' : List Call) :
    finish postList testFlags β b ph ⟨result, word, cs ++ cs'⟩ =
      (finish postList testFlags β b ph ⟨result, word, cs'⟩).after (cs.map (Event.mk b ph)) := by
  cases ph <;> cases result <;> simp [finish, Run.after, Out.events]

theorem finish_andThen (z : ℤ) (word : UInt32) (cs : List Call) (f : UInt32 → Out) :
    finish postList testFlags β b ph ((Out.mk (some z) word cs).andThen f) =
      (finish postList testFlags β b ph (f word)).after (cs.map (Event.mk b ph)) :=
  finish_calls (f word).result (f word).word cs (f word).calls

theorem boot_resume {k : ℕ} {f : UInt32} (hw : Mode (postPoweron ||| postPowertest) word)
    (hk : lastTest word = k) (hget : testFlags[k]? = some f)
    (hsel : selected testFlags ph k = true) (hreboot : f &&& postReboot ≠ 0)
    (hram : ph = .ram → selected testFlags .rom k = false) :
    bootWith postList testFlags β b word = (finish postList testFlags β b ph
      (runFrom (β.resets b ph) (ph.flag ||| (postPoweron ||| postPowertest)) (k + 1)
        (testFlags.drop (k + 1)) (bootmodeTestOff word))).after
      [⟨b, ph, ⟨k, ph.flag ||| (postPoweron ||| postPowertest) ||| postReboot, word, false⟩⟩] := by
  rw [bootWith, boot_init hw]
  cases ph with
  | rom =>
    rw [phase_resume hw hk hget hsel hreboot, finish_andThen]
    rfl
  | ram =>
    rw [phase_pass hw (hk ▸ hram rfl)]
    have hpass : finish postList testFlags β b .rom ⟨some 0, word, []⟩ =
        finish postList testFlags β b .ram (phaseWith postList testFlags β b .ram word) := rfl
    rw [hpass, phase_resume hw hk hget hsel hreboot, finish_andThen]
    rfl

variable (postList testFlags β) in
def Safe (b : ℕ) (r : Run) : Prop :=
  ∀ n, ∀ e ∈ (thenBoots postList testFlags β n b r).events, e.call.reset = true →
    e.Resumable testFlags

variable (postList testFlags β) in
/-- The run completes, and calls the tests `ps`. -/
def Completes (ps : List (Phase × ℕ)) (b : ℕ) (r : Run) : Prop :=
  ∃ n es word, thenBoots postList testFlags β n b r = ⟨es, word, true⟩ ∧ Trace ps b es ∧
    Mode postPoweron word

theorem Safe.of_after {es : List Event} {r : Run} (h : Safe postList testFlags β b (r.after es)) :
    Safe postList testFlags β b r := fun n e he => h n e (by
  rw [thenBoots_after]
  exact List.mem_append_right es he)

theorem Completes.after {flags : UInt32} {cs : List Call} {js : List ℕ} {ps : List (Phase × ℕ)}
    {r : Run} (hflags : Plain ph flags) (hcs : Returned flags cs js)
    (h : Completes postList testFlags β ps b r) :
    Completes postList testFlags β (js.map (ph, ·) ++ ps) b
      (r.after (cs.map (Event.mk b ph))) := by
  obtain ⟨n, es, word, hrun, htrace, hw⟩ := h
  exact ⟨n, _, word, by rw [thenBoots_after, hrun]; rfl, htrace.prepend hflags hcs, hw⟩

def behind (testFlags : List UInt32) : Phase → List (Phase × ℕ)
  | .rom => todoFrom testFlags .ram 0
  | .ram => []

theorem todoFrom_eq (testFlags : List UInt32) (ph : Phase) (i : ℕ) :
    todoFrom testFlags ph i = (todo testFlags ph i).map (ph, ·) ++ behind testFlags ph := by
  cases ph with
  | rom => rfl
  | ram => exact (List.append_nil _).symm

theorem completes_of_phase (hlen : testFlags.length ≤ 32)
    (hdone : ∀ b word, Mode postPoweron word →
      Safe postList testFlags β b (finish postList testFlags β b ph ⟨some 0, word, []⟩) →
      Completes postList testFlags β (behind testFlags ph) b
        (finish postList testFlags β b ph ⟨some 0, word, []⟩))
    {flags : UInt32} (hflags : Plain ph flags) (hw : Mode postPoweron word)
    (hsafe : Safe postList testFlags β b (finish postList testFlags β b ph
      (runFrom (β.resets b ph) flags i (testFlags.drop i) word))) :
    Completes postList testFlags β (todoFrom testFlags ph i) b (finish postList testFlags β b ph
      (runFrom (β.resets b ph) flags i (testFlags.drop i) word)) := by
  induction hm : (todo testFlags ph i).length using Nat.strong_induction_on
    generalizing i b word flags with
  | _ m ih =>
    subst hm
    rw [todoFrom_eq]
    obtain ⟨word', cs, hrun, hw', hcs⟩ |
      ⟨cs, js, k, word', hrun, hw', hcs, htodo, f, hget, hreboot⟩ :=
      runFrom_cases (β.resets b ph) hflags hlen rfl hw
    · rw [hrun, ← List.append_nil cs, finish_calls] at hsafe ⊢
      exact (hdone b word' hw' hsafe.of_after).after hflags hcs
    · have hmem : k ∈ todo testFlags ph i :=
        htodo ▸ List.mem_append_right js (List.mem_cons_self ..)
      have hsel : selected testFlags ph k = true := (List.mem_filter.mp hmem).2
      have hk : k < 32 := (List.getElem?_eq_some_iff.mp hget).1.trans_le hlen
      rw [hrun, finish_calls] at hsafe ⊢
      rw [htodo, List.map_append, List.append_assoc]
      refine Completes.after hflags hcs ?_
      have hsafe := hsafe.of_after
      set e : Event := ⟨b, ph, ⟨k, flags, word', true⟩⟩
      set e' : Event := ⟨b + 1, ph, ⟨k, ph.flag ||| (postPoweron ||| postPowertest) ||| postReboot,
        bootmodeTestOn k word', false⟩⟩
      set r' := finish postList testFlags β (b + 1) ph (runFrom (β.resets (b + 1) ph)
        (ph.flag ||| (postPoweron ||| postPowertest)) (k + 1) (testFlags.drop (k + 1))
        (bootmodeTestOff (bootmodeTestOn k word')))
      have hreset : finish postList testFlags β b ph
          ⟨none, bootmodeTestOn k word', [⟨k, flags, word', true⟩]⟩ =
          ⟨[e], bootmodeTestOn k word', false⟩ := by
        cases ph <;> rfl
      rw [hreset] at hsafe ⊢
      obtain ⟨hnum, hram⟩ := hsafe 0 e (List.mem_singleton_self e) rfl
      have hboot : bootWith postList testFlags β (b + 1) (bootmodeTestOn k word') =
          r'.after [e'] :=
        boot_resume (hw'.on hk) ((lastTest_on word' hk).trans hnum) hget hsel hreboot hram
      have hthen (n : ℕ) : thenBoots postList testFlags β (n + 1) b
          ⟨[e], bootmodeTestOn k word', false⟩ =
          (thenBoots postList testFlags β n (b + 1) r').after [e, e'] := by
        simp only [thenBoots, hboot, thenBoots_after]
        rfl
      have hsafe' : Safe postList testFlags β (b + 1) r' := fun n x hx =>
        hsafe (n + 1) x (by rw [hthen]; exact List.mem_append_right [e, e'] hx)
      have hfewer : (todo testFlags ph (k + 1)).length < (todo testFlags ph i).length := by
        rw [htodo, List.length_append, List.length_cons]
        omega
      obtain ⟨n, es, word'', hrun', htrace, hw''⟩ :=
        ih _ hfewer (plain_arg ph (.inr rfl)) ((hw'.on hk).off rfl) hsafe' rfl
      rw [todoFrom_eq] at htrace
      have hplain : ¬ e.Reboots := not_not.mpr hflags.2
      have hreboots :
          (ph.flag ||| (postPoweron ||| postPowertest) ||| postReboot) &&& postReboot ≠ 0 := by
        cases ph <;> decide
      exact ⟨n + 1, [e, e'] ++ es, word'', by rw [hthen, hrun']; rfl,
        .reset e e' rfl hplain rfl rfl hreboots rfl rfl rfl htrace, hw''⟩

theorem completes_from_ram (hlen : testFlags.length ≤ 32) {flags : UInt32}
    (hflags : Plain .ram flags) (hw : Mode postPoweron word)
    (hsafe : Safe postList testFlags β b (finish postList testFlags β b .ram
      (runFrom (β.resets b .ram) flags i (testFlags.drop i) word))) :
    Completes postList testFlags β (todoFrom testFlags .ram i) b
      (finish postList testFlags β b .ram
        (runFrom (β.resets b .ram) flags i (testFlags.drop i) word)) := by
  refine completes_of_phase hlen (fun b word hw _ => ?_) hflags hw hsafe
  exact ⟨0, [], word, rfl, .nil b, hw⟩

theorem completes_from_rom (hlen : testFlags.length ≤ 32) {flags : UInt32}
    (hflags : Plain .rom flags) (hw : Mode postPoweron word)
    (hsafe : Safe postList testFlags β b (finish postList testFlags β b .rom
      (runFrom (β.resets b .rom) flags i (testFlags.drop i) word))) :
    Completes postList testFlags β (todoFrom testFlags .rom i) b
      (finish postList testFlags β b .rom
        (runFrom (β.resets b .rom) flags i (testFlags.drop i) word)) := by
  refine completes_of_phase hlen (fun b word hw hsafe => ?_) hflags hw hsafe
  have hnext : finish postList testFlags β b .rom ⟨some 0, word, []⟩ =
      finish postList testFlags β b .ram
        (runFrom (β.resets b .ram) (Phase.ram.flag ||| postPoweron) 0 (testFlags.drop 0) word) := by
    have hram : phaseWith postList testFlags β b .ram word = _ := phase_plain hw
    rw [List.drop_zero, ← hram]
    rfl
  rw [hnext] at hsafe ⊢
  exact completes_from_ram hlen (plain_arg .ram (.inl rfl)) hw hsafe

theorem completes_poweron (hlen : testFlags.length ≤ 32)
    (hword : word &&& 0xFFFF0000 ≠ bootmodeMagic)
    (hsafe : Safe postList testFlags β b (bootWith postList testFlags β b word)) :
    Completes postList testFlags β (todoFrom testFlags .rom 0) b
      (bootWith postList testFlags β b word) := by
  have hinit : bootmodeInit word = bootmodeMagic ||| postPoweron := by
    rw [bootmodeInit, bootmodeGet, if_pos hword]
    rfl
  have hw : Mode postPoweron (bootmodeMagic ||| postPoweron) := ⟨rfl, rfl⟩
  have hboot : bootWith postList testFlags β b word = finish postList testFlags β b .rom
      (runFrom (β.resets b .rom) (Phase.rom.flag ||| postPoweron) 0 (testFlags.drop 0)
        (bootmodeMagic ||| postPoweron)) := by
    rw [bootWith, hinit, phase_plain hw, List.drop_zero]
  rw [hboot] at hsafe ⊢
  exact completes_from_rom hlen (plain_arg .rom (.inl rfl)) hw hsafe

end

/-! ## What the calls of a run have in common -/

/-- A run that resumes: every selected test of a phase is called once without `POST_REBOOT`, each
reset is followed by one call of the same test with `POST_REBOOT`, and nothing else. -/
structure Resumed (testFlags : List UInt32) (r : Run) : Prop where
  once : ∀ ph i, selected testFlags ph i = true →
    r.events.countP (fun e => e.phase = ph ∧ e.call.test = i ∧ ¬ e.Reboots) = 1
  only : ∀ e ∈ r.events, selected testFlags e.phase e.call.test = true
  resumed : ∀ e ∈ r.events, e.call.reset = true →
    r.events.countP (fun e' => e.boot < e'.boot ∧ e'.call.test = e.call.test ∧ e'.Reboots) = 1
  others : ∀ e' ∈ r.events, e'.Reboots →
    ∃ e ∈ r.events, e.call.reset = true ∧ e.call.test = e'.call.test ∧ e.boot < e'.boot
  order : r.events.Pairwise fun e e' => e.phase = e'.phase → e.call.test ≤ e'.call.test
  powertest : r.word &&& postPowertest = 0

section
variable {testFlags : List UInt32} {ps : List (Phase × ℕ)} {b : ℕ} {es : List Event}

theorem Trace.mem (h : Trace ps b es) :
    ∀ e ∈ es, (e.phase, e.call.test) ∈ ps ∧ b ≤ e.boot := by
  induction h with
  | nil => exact fun e he => absurd he List.not_mem_nil
  | returned e hb _ _ _ ih =>
    refine List.forall_mem_cons.mpr ⟨⟨List.mem_cons_self .., hb.ge⟩, fun x hx => ?_⟩
    exact ⟨List.mem_cons_of_mem _ (ih x hx).1, (ih x hx).2⟩
  | reset e e' hb _ _ hb' _ _ hph htest _ ih =>
    refine List.forall_mem_cons.mpr ⟨⟨List.mem_cons_self .., hb.ge⟩,
      List.forall_mem_cons.mpr ⟨⟨?_, by omega⟩, fun x hx => ?_⟩⟩
    · rw [hph, htest]
      exact List.mem_cons_self ..
    · exact ⟨List.mem_cons_of_mem _ (ih x hx).1, by have := (ih x hx).2; omega⟩

/-- A call without `POST_REBOOT` for each test of the list. -/
theorem Trace.count_plain (h : Trace ps b es) (ph : Phase) (i : ℕ) :
    es.countP (fun e => e.phase = ph ∧ e.call.test = i ∧ ¬ e.Reboots) = ps.count (ph, i) := by
  induction h with
  | nil => rfl
  | returned e _ hplain _ _ ih =>
    rw [List.countP_cons, List.count_cons, ih]
    simp [hplain, Prod.ext_iff]
  | reset e e' _ hplain _ _ hreboots _ _ _ _ ih =>
    rw [List.countP_cons, List.countP_cons, List.count_cons, ih]
    simp [hplain, hreboots, Prod.ext_iff]

theorem Trace.count_reboots (h : Trace ps b es) (i : ℕ) :
    es.countP (fun e => e.call.test = i ∧ e.Reboots) =
      es.countP (fun e => e.call.test = i ∧ e.call.reset = true) := by
  induction h with
  | nil => rfl
  | returned e _ hplain hreset _ ih =>
    rw [List.countP_cons, List.countP_cons, ih]
    simp [hplain, hreset]
  | reset e e' _ hplain hreset _ hreboots hreset' _ htest _ ih =>
    simp only [List.countP_cons, ih]
    simp [hplain, hreset, hreboots, hreset', htest]

theorem Trace.resets_sublist (h : Trace ps b es) :
    ((es.filter fun e => e.call.reset).map fun e => (e.phase, e.call.test)).Sublist ps := by
  induction h with
  | nil => exact List.Sublist.refl []
  | returned e _ _ hreset _ ih =>
    rw [List.filter_cons_of_neg (by rw [hreset]; decide)]
    exact ih.cons _
  | reset e e' _ _ hreset _ _ hreset' _ _ _ ih =>
    rw [List.filter_cons, if_pos hreset, List.filter_cons_of_neg (by rw [hreset']; decide)]
    exact ih.cons_cons _

theorem Trace.resumed (h : Trace ps b es) : ∀ e ∈ es, e.call.reset = true →
    ∃ e' ∈ es, e.boot < e'.boot ∧ e'.call.test = e.call.test ∧ e'.Reboots := by
  induction h with
  | nil => exact fun e he => absurd he List.not_mem_nil
  | returned e _ _ hreset _ ih =>
    intro x hx hxreset
    obtain rfl | hx := List.mem_cons.mp hx
    · exact absurd (hreset.symm.trans hxreset) Bool.false_ne_true
    · obtain ⟨e', he', hrest⟩ := ih x hx hxreset
      exact ⟨e', List.mem_cons_of_mem _ he', hrest⟩
  | reset e e' hb _ _ hb' hreboots hreset' _ htest _ ih =>
    intro x hx hxreset
    obtain rfl | hx := List.mem_cons.mp hx
    · exact ⟨e', List.mem_cons_of_mem _ (List.mem_cons_self ..), by omega, htest, hreboots⟩
    obtain rfl | hx := List.mem_cons.mp hx
    · exact absurd (hreset'.symm.trans hxreset) Bool.false_ne_true
    · obtain ⟨y, hy, hrest⟩ := ih x hx hxreset
      exact ⟨y, List.mem_cons_of_mem _ (List.mem_cons_of_mem _ hy), hrest⟩

theorem Trace.others (h : Trace ps b es) : ∀ e' ∈ es, e'.Reboots →
    ∃ e ∈ es, e.call.reset = true ∧ e.call.test = e'.call.test ∧ e.boot < e'.boot := by
  induction h with
  | nil => exact fun e he => absurd he List.not_mem_nil
  | returned e _ hplain _ _ ih =>
    intro x hx hxreboots
    obtain rfl | hx := List.mem_cons.mp hx
    · exact absurd hxreboots hplain
    · obtain ⟨y, hy, hrest⟩ := ih x hx hxreboots
      exact ⟨y, List.mem_cons_of_mem _ hy, hrest⟩
  | reset e e' hb hplain hreset hb' _ _ _ htest _ ih =>
    intro x hx hxreboots
    obtain rfl | hx := List.mem_cons.mp hx
    · exact absurd hxreboots hplain
    obtain rfl | hx := List.mem_cons.mp hx
    · exact ⟨e, List.mem_cons_self .., hreset, htest.symm, by omega⟩
    · obtain ⟨y, hy, hrest⟩ := ih x hx hxreboots
      exact ⟨y, List.mem_cons_of_mem _ (List.mem_cons_of_mem _ hy), hrest⟩

theorem Trace.order (h : Trace ps b es) (hps : ps.Pairwise fun p q => p.1 = q.1 → p.2 < q.2) :
    es.Pairwise fun e e' => e.phase = e'.phase → e.call.test ≤ e'.call.test := by
  induction h with
  | nil => exact .nil
  | returned e _ _ _ hes ih =>
    obtain ⟨hhead, htail⟩ := List.pairwise_cons.mp hps
    exact .cons (fun x hx hph => (hhead _ (hes.mem x hx).1 hph).le) (ih htail)
  | @reset ps b es e e' _ _ _ _ _ _ hph htest hes ih =>
    obtain ⟨hhead, htail⟩ := List.pairwise_cons.mp hps
    have hrest : ∀ x ∈ es, e.phase = x.phase → e.call.test ≤ x.call.test := fun x hx hxph =>
      (hhead _ (hes.mem x hx).1 hxph).le
    refine .cons (List.forall_mem_cons.mpr ⟨fun _ => htest.ge, hrest⟩)
      (.cons (fun x hx hxph => ?_) (ih htail))
    rw [htest]
    exact hrest x hx (hph.symm.trans hxph)

theorem todoFrom_pairwise (testFlags : List UInt32) :
    (todoFrom testFlags .rom 0).Pairwise fun p q => p.1 = q.1 → p.2 < q.2 := by
  have hphase (ph : Phase) : ((todo testFlags ph 0).map (ph, ·)).Pairwise
      fun p q => p.1 = q.1 → p.2 < q.2 := by
    rw [List.pairwise_map]
    refine List.Pairwise.imp ?_ (List.Pairwise.filter _ List.pairwise_lt_range')
    exact fun {i j} hlt _ => hlt
  refine List.pairwise_append.mpr ⟨hphase .rom, hphase .ram, fun p hp q hq h => ?_⟩
  obtain ⟨i, -, rfl⟩ := List.mem_map.mp hp
  obtain ⟨j, -, rfl⟩ := List.mem_map.mp hq
  cases h

theorem mem_todoFrom {ph : Phase} {i : ℕ} :
    (ph, i) ∈ todoFrom testFlags .rom 0 ↔ selected testFlags ph i = true := by
  have htodo (ph : Phase) : i ∈ todo testFlags ph 0 ↔ selected testFlags ph i = true := by
    rw [todo, List.mem_filter, and_iff_right_iff_imp, List.mem_range'_1]
    intro hsel
    have hlt : i < testFlags.length := by
      by_contra hge
      rw [selected, List.getElem?_eq_none (not_lt.mp hge)] at hsel
      cases hsel
    omega
  rw [todoFrom, List.mem_append, List.mem_map, List.mem_map]
  cases ph <;> simp [htodo]

theorem todoFrom_nodup (testFlags : List UInt32) : (todoFrom testFlags .rom 0).Nodup :=
  (todoFrom_pairwise testFlags).imp fun h heq => by
    subst heq
    exact absurd (h rfl) (lt_irrefl _)

/-- One reset for each test, when no test that was over resets again. -/
theorem Trace.resets_le_one (h : Trace (todoFrom testFlags .rom 0) b es)
    (hsafe : ∀ e ∈ es, e.call.reset = true → e.Resumable testFlags) (i : ℕ) :
    es.countP (fun e => e.call.test = i ∧ e.call.reset = true) ≤ 1 := by
  obtain ⟨ph, hph⟩ : ∃ ph, ∀ e ∈ es, e.call.reset = true → e.call.test = i → e.phase = ph := by
    have hmem := fun e he => mem_todoFrom.mp (h.mem e he).1
    cases hsel : selected testFlags .rom i with
    | true =>
      refine ⟨.rom, fun e he hreset htest => ?_⟩
      cases hram : e.phase with
      | rom => rfl
      | ram =>
        have hover := (hsafe e he hreset).2 hram
        rw [htest, hsel] at hover
        cases hover
    | false =>
      refine ⟨.ram, fun e he _ htest => ?_⟩
      cases hrom : e.phase with
      | ram => rfl
      | rom =>
        have hselected := hmem e he
        rw [hrom, htest, hsel] at hselected
        cases hselected
  have hnodup := (todoFrom_nodup testFlags).sublist h.resets_sublist
  have hcount := List.nodup_iff_count_le_one.mp hnodup (ph, i)
  refine le_trans ?_ hcount
  rw [List.count, List.countP_map, List.countP_filter]
  refine List.countP_mono_left fun e he hreset => ?_
  have hreset := of_decide_eq_true hreset
  simp [hph e he hreset.2 hreset.1, hreset.1, hreset.2]

theorem Trace.resumes {word : UInt32} (h : Trace (todoFrom testFlags .rom 0) b es)
    (hw : Mode postPoweron word)
    (hsafe : ∀ e ∈ es, e.call.reset = true → e.Resumable testFlags) :
    Resumed testFlags ⟨es, word, true⟩ where
  once ph i hsel := by
    rw [h.count_plain]
    exact List.count_eq_one_of_mem (todoFrom_nodup testFlags) (mem_todoFrom.mpr hsel)
  only e he := mem_todoFrom.mp (h.mem e he).1
  resumed e he hreset := by
    obtain ⟨e', he', hboot, htest, hreboots⟩ := h.resumed e he hreset
    refine le_antisymm ?_ ?_
    · refine le_trans (List.countP_mono_left fun x _ hx => ?_)
        ((h.count_reboots e.call.test).trans_le (h.resets_le_one hsafe e.call.test))
      exact decide_eq_true (of_decide_eq_true hx).2
    · exact List.one_le_countP_iff.mpr ⟨e', he', decide_eq_true ⟨hboot, htest, hreboots⟩⟩
  others := h.others
  order := h.order (todoFrom_pairwise testFlags)
  powertest := by
    have hsub : word &&& postPowertest = word &&& 0xFF &&& postPowertest := by
      rw [UInt32.and_assoc]
      rfl
    rw [hsub, hw.mode]
    rfl

end

/-- **The self test resumes across resets** when at each reset the boot word names the test, and
no test that also runs from ROM resets the board when it runs from RAM. -/
theorem post_resumes {cfg : EnvCfg} {env : Area cfg.dataSize} {es : List Entry}
    {postList : List PostTest} {β : Behaviour} {word : UInt32} (henv : Holds env es)
    (hfit : VarsFit es) (hlen : postList.length ≤ 32)
    (hword : word &&& 0xFFFF0000 ≠ bootmodeMagic)
    (hsafe : ∀ n r, run cfg env postList β n 0 word = .ok r → ∀ e ∈ r.events,
      e.call.reset = true → e.Resumable (flagsOf es postList)) :
    ∃ n r, run cfg env postList β n 0 word = .ok r ∧ r.completed = true ∧
      Resumed (flagsOf es postList) r := by
  have hlen' : (flagsOf es postList).length ≤ 32 := (flagsOf_length es postList).trans_le hlen
  have hsafe' : Safe postList (flagsOf es postList) β 0
      (bootWith postList (flagsOf es postList) β 0 word) := fun n e he =>
    hsafe (n + 1) _ (run_ok henv hfit n 0 word) e he
  obtain ⟨n, events, word', hrun, htrace, hw⟩ := completes_poweron hlen' hword hsafe'
  refine ⟨n + 1, ⟨events, word', true⟩, by rw [run_ok henv hfit, hrun], rfl,
    htrace.resumes hw fun e he => hsafe' n e ?_⟩
  rw [hrun]
  exact he

/-- Three tests from ROM that may reset the board. -/
def threeTests : List PostTest :=
  [⟨⟨ascii "cache", by decide⟩, 0x901⟩, ⟨⟨ascii "watchdog", by decide⟩, 0x901⟩,
    ⟨⟨ascii "memory", by decide⟩, 0x901⟩]

/-- Test `i` resets the board in the first boot. -/
def resetsFirst (i : ℕ) : Behaviour := ⟨fun b _ j => b = 0 ∧ j = i, fun _ _ => []⟩

theorem empty_holds : Holds (n := 2) ⟨[0, 0], rfl⟩ [] := ⟨[], rfl⟩

theorem empty_fits : VarsFit [] := fun _ _ _ h => by cases h

/-- The second test resets the board and is resumed. -/
theorem post_resumes_sample : ∃ n r,
    run (.plain 2) ⟨[0, 0], rfl⟩ threeTests (resetsFirst 1) n 0 0 = .ok r ∧ r.completed = true ∧
      Resumed (flagsOf [] threeTests) r := by
  refine post_resumes empty_holds empty_fits (by decide) (by decide) fun n r hrun => ?_
  have hsafe : ∀ e ∈ r.events, e.call.reset = true →
      lastTest e.call.word ||| e.call.test = e.call.test ∧ e.phase = .rom := by
    match n with
    | 0 =>
      obtain rfl := Except.ok.inj hrun
      decide
    | 1 =>
      rw [run_ok empty_holds empty_fits] at hrun
      obtain rfl := Except.ok.inj hrun
      decide
    | 2 =>
      rw [run_ok empty_holds empty_fits] at hrun
      obtain rfl := Except.ok.inj hrun
      decide
    | m + 3 =>
      have hstop : thenBoots threeTests (flagsOf [] threeTests) (resetsFirst 1) (m + 2) 0
          (bootWith threeTests (flagsOf [] threeTests) (resetsFirst 1) 0 0) =
        thenBoots threeTests (flagsOf [] threeTests) (resetsFirst 1) 2 0
          (bootWith threeTests (flagsOf [] threeTests) (resetsFirst 1) 0 0) := rfl
      rw [run_ok empty_holds empty_fits, hstop] at hrun
      obtain rfl := Except.ok.inj hrun
      decide
  exact fun e he hreset => ⟨(hsafe e he hreset).1, fun hram => by
    rw [(hsafe e he hreset).2] at hram
    cases hram⟩

/-- The third test resets the board: its number and that of the second test make 3, and no test
is called in the next boot. -/
theorem reset_lost : ∃ r,
    run (.plain 2) ⟨[0, 0], rfl⟩ threeTests (resetsFirst 2) 2 0 0 = .ok r ∧ r.completed = true ∧
      r.word = 0xDEAD0309 ∧ ¬ Resumed (flagsOf [] threeTests) r := by
  refine ⟨_, run_ok empty_holds empty_fits 1 0 0, by decide, by decide, fun h => ?_⟩
  exact absurd h.powertest (by decide)

end UBoot.Post
