import UBoot.Doc.Chip

/-!
# Transfers and erasures

`doc_rw` cuts its range at the pages, and never passes `eccbuf`: the end of a page, which it
compares the offset with, lies behind the offset. `doc_erase` stops at an error and returns 0.
`doc_iff` says when both do what they should.
-/

namespace UBoot.Doc

open UBoot.Lib UBoot.Boot

def Chunk.Whole (c : Chunk) : Prop := c.ofs % 512 = 0 ∧ c.len = 512

/-- The chunks are one behind the other in the range, each in one page. -/
def Tiles : ℕ → ℕ → List Chunk → Prop
  | _, _, [] => True
  | ofs, len, c :: cs =>
    c.ofs = ofs ∧ 0 < c.len ∧ c.len ≤ len ∧ ofs % 512 + c.len ≤ 512 ∧
      Tiles (ofs + c.len) (len - c.len) cs

namespace DiskOnChip

/-- What `doc_rw` should do: the pages that are transferred, and no other chunks, go through the
ECC, and all chunks succeeded if it returns 0. -/
structure Splits (d : DiskOnChip) (ofs len : ℕ) (t : Transfer) : Prop where
  tiles : Tiles ofs len t.chunks
  ecc : ∀ c ∈ t.chunks, c.ofs < d.totlen → (c.ecc = true ↔ c.Whole)
  success : t.ret = 0 → t.retlen = len ∧ (∀ c ∈ t.chunks, c.ret = 0) ∧
    (t.chunks.map Chunk.len).sum = len

section
variable (answer : ℕ → UInt8) (d : DiskOnChip) (cmd : Bool) (ofs len asked : ℕ)

/-- A chunk is read, or the chip programs it without an error. -/
def Accepts : Prop :=
  cmd = true ∨ answer asked &&& 1 = 0 ∧ (d.len256 ofs len ≠ 0 → answer (asked + 1) &&& 1 = 0)

def page : ℕ := (ofs + 511) / 512 * 512

/-- There is a page of the device in the range, and what is in front of it is transferred. -/
def Reaches : Prop :=
  page ofs + 512 ≤ ofs + len ∧ page ofs < d.totlen ∧
    (page ofs ≠ ofs → d.Accepts answer cmd ofs (page ofs - ofs) asked)

/-- The `k`-th block of a range. -/
def block (k : ℕ) : ℕ := ofs + k * d.erasesize

/-- The range is not aligned, or all its blocks are on the device and are erased without an
error. -/
def Erases : Prop :=
  ofs &&& (d.erasesize - 1) ≠ 0 ∨ len &&& (d.erasesize - 1) ≠ 0 ∨
    ∀ k < len / d.erasesize, (∃ mychip, d.chipAt (d.block ofs k) = .ok mychip) ∧
      answer (asked + k) &&& 1 = 0

end

section
variable {answer : ℕ → UInt8} {d : DiskOnChip} {cmd : Bool} {ofs len buf : ℕ} {mychip : Nand}
  {s : State} {ops : List Op} {xtraflags : UInt8}

@[simp] theorem does_asked : (s.does ops).asked = s.asked := rfl

@[simp] theorem select_asked : (s.select mychip).asked = s.asked := by
  rw [State.select]
  split_ifs <;> rfl

@[simp] theorem status_asked : (s.status answer xtraflags).2.asked = s.asked + 1 := rfl

theorem status_eq : (s.status answer xtraflags).1 = true ↔ answer s.asked &&& 1 ≠ 0 :=
  decide_eq_true_iff

theorem chipAt_ok (h : ofs < d.totlen) : ∃ mychip, d.chipAt ofs = .ok mychip := by
  have hlt := d.totlen_lt
  have hshr : shr ofs d.chipshift = (ofs / 2 ^ d.chipshift : ℕ) := by
    rw [shr, int32_of_lt (by omega) (by unfold totlen at h; omega), ← Nat.shiftRight_eq_div_pow]
    rfl
  rw [chipAt, descriptor_ok, hshr]
  have hchip : ofs / 2 ^ d.chipshift < d.chips.length :=
    Nat.div_lt_of_lt_mul (by rwa [Nat.mul_comm])
  exact ⟨Int.natCast_nonneg _, Int.ofNat_lt.mpr hchip⟩

variable (answer d ofs len buf s) in
theorem writeFirst_spec (eccbuf : Bool) (mychip : Nand) :
    ((d.writeFirst answer ofs len buf eccbuf mychip s).1 = true ↔
      d.len256 ofs len ≠ 0 ∧ answer s.asked &&& 1 ≠ 0) ∧
    (d.writeFirst answer ofs len buf eccbuf mychip s).2.asked =
      if d.len256 ofs len = 0 then s.asked else s.asked + 1 := by
  unfold writeFirst
  by_cases h256 : d.len256 ofs len = 0
  · rw [if_pos h256]
    simp [h256]
  · rw [if_neg h256]
    dsimp only
    refine ⟨?_, ?_⟩
    · rw [status_eq]
      simp [h256]
    · rw [if_neg h256]
      split_ifs <;> simp

theorem writePage_cases (mychip : Nand) :
    (d.Accepts answer false ofs len s.asked →
      ∃ s', d.writePage answer ofs len buf false mychip s = .ok ⟨0, len, s'⟩) ∧
    (¬ d.Accepts answer false ofs len s.asked →
      ∃ s', d.writePage answer ofs len buf false mychip s = .ok ⟨docEio, 0, s'⟩) := by
  rw [writePage]
  dsimp only
  have hfirst := writeFirst_spec answer d ofs len buf s false mychip
  generalize d.writeFirst answer ofs len buf false mychip s = first at hfirst
  have hrest : (d.writeRest answer ofs len buf false first.2).1 = true ↔
      answer (if d.len256 ofs len = 0 then s.asked else s.asked + 1) &&& 1 ≠ 0 := by
    rw [← hfirst.2]
    exact status_eq
  generalize d.writeRest answer ofs len buf false first.2 = rest at hrest
  have haccepts : d.Accepts answer false ofs len s.asked ↔ ¬ first.1 = true ∧ ¬ rest.1 = true := by
    rw [hfirst.1, hrest, Accepts]
    by_cases h256 : d.len256 ofs len = 0 <;> simp [h256]
  rw [haccepts, if_neg Bool.false_ne_true]
  by_cases hbad : first.1 = true
  · rw [if_pos hbad]
    exact ⟨fun h => absurd hbad h.1, fun _ => ⟨_, rfl⟩⟩
  rw [if_neg hbad]
  by_cases hlast : rest.1 = true
  · rw [if_pos hlast]
    exact ⟨fun h => absurd hlast h.2, fun _ => ⟨_, rfl⟩⟩
  · rw [if_neg hlast]
    exact ⟨fun _ => ⟨_, rfl⟩, fun h => absurd ⟨hbad, hlast⟩ h⟩

variable (answer d cmd ofs len buf s) in
/-- The three ends of `doc_read_ecc` and `doc_write_ecc` without ECC. -/
theorem access_cases :
    (d.totlen ≤ ofs → d.access answer cmd ofs len buf false s = .ok ⟨docEinval, 0, s⟩) ∧
    (ofs < d.totlen → d.Accepts answer cmd ofs (Doc.chunk ofs len) s.asked →
      ∃ s', d.access answer cmd ofs len buf false s = .ok ⟨0, Doc.chunk ofs len, s'⟩) ∧
    (ofs < d.totlen → ¬ d.Accepts answer cmd ofs (Doc.chunk ofs len) s.asked →
      ∃ s', d.access answer cmd ofs len buf false s = .ok ⟨docEio, 0, s'⟩) := by
  rw [access, docReadEcc, docWriteEcc]
  by_cases hend : d.totlen ≤ ofs
  · rw [if_pos hend, if_pos hend, ite_self]
    exact ⟨fun _ => rfl, fun h => absurd h (by omega), fun h => absurd h (by omega)⟩
  obtain ⟨mychip, hchip⟩ := chipAt_ok (not_le.mp hend)
  rw [if_neg hend, if_neg hend, hchip]
  refine ⟨fun h => absurd h hend, fun _ => ?_, fun _ => ?_⟩
  · cases cmd
    · exact (writePage_cases mychip).1
    · exact fun _ => ⟨_, rfl⟩
  · cases cmd
    · exact (writePage_cases mychip).2
    · exact fun h => absurd (.inl rfl) h

theorem docRw_step (hlen : len ≠ 0) : d.docRw answer cmd ofs len buf s =
    d.access answer cmd ofs len buf false s >>= fun r =>
      if r.ret = 0 then
        (d.docRw answer cmd (ofs + r.retlen) (len - r.retlen) (buf + r.retlen) r.state).map fun t =>
          { t with
            retlen := r.retlen + t.retlen
            chunks := ⟨ofs, Doc.chunk ofs len, false, r.ret⟩ :: t.chunks }
      else .ok ⟨r.ret, 0, [⟨ofs, Doc.chunk ofs len, false, r.ret⟩], r.state⟩ := by
  have hbehind : ofs ≠ (ofs ||| 0x1ff) + 1 := by
    rw [Doc.or_sector]
    omega
  have hnoecc : decide (ofs ≠ (ofs ||| 0x1ff) + 1 ∨ len < 0x200) = true :=
    decide_eq_true (.inl hbehind)
  rw [docRw, dif_neg hlen]
  dsimp only
  split
  · next e he =>
    rw [hnoecc] at he
    rw [show d.access answer cmd ofs len buf false s = .error e from he]
    rfl
  · next r hr =>
    rw [hnoecc] at hr
    rw [show d.access answer cmd ofs len buf false s = .ok r from hr, hnoecc]
    rfl

variable (answer d cmd ofs buf s) in
theorem docRw_turn (hlen : len ≠ 0) :
    ((d.totlen ≤ ofs ∨ ¬ d.Accepts answer cmd ofs (Doc.chunk ofs len) s.asked) ∧
      ∃ ret s', ret ≠ 0 ∧ d.docRw answer cmd ofs len buf s =
        .ok ⟨ret, 0, [⟨ofs, Doc.chunk ofs len, false, ret⟩], s'⟩) ∨
    (ofs < d.totlen ∧ d.Accepts answer cmd ofs (Doc.chunk ofs len) s.asked) ∧
      ∃ s', d.docRw answer cmd ofs len buf s =
        (d.docRw answer cmd (ofs + Doc.chunk ofs len) (len - Doc.chunk ofs len)
          (buf + Doc.chunk ofs len) s').map fun t =>
            { t with
              retlen := Doc.chunk ofs len + t.retlen
              chunks := ⟨ofs, Doc.chunk ofs len, false, 0⟩ :: t.chunks } := by
  obtain ⟨hend, haccept, hrefuse⟩ := access_cases answer d cmd ofs len buf s
  rw [docRw_step hlen]
  by_cases hofs : d.totlen ≤ ofs
  · rw [hend hofs]
    exact .inl ⟨.inl hofs, docEinval, s, by decide, rfl⟩
  rw [not_le] at hofs
  by_cases hok : d.Accepts answer cmd ofs (Doc.chunk ofs len) s.asked
  · obtain ⟨s', hs'⟩ := haccept hofs hok
    rw [hs']
    exact .inr ⟨⟨hofs, hok⟩, s', rfl⟩
  · obtain ⟨s', hs'⟩ := hrefuse hofs hok
    rw [hs']
    exact .inl ⟨.inr hok, docEio, s', by decide, rfl⟩

variable (answer d) in
/-- What `doc_rw` does: all that it should, but without ECC. -/
theorem docRw_spec (cmd : Bool) (ofs len buf : ℕ) (s : State) :
    ∃ t, d.docRw answer cmd ofs len buf s = .ok t ∧ Tiles ofs len t.chunks ∧
      (∀ c ∈ t.chunks, c.ecc = false) ∧
      (t.ret = 0 → t.retlen = len ∧ (∀ c ∈ t.chunks, c.ret = 0) ∧
        (t.chunks.map Chunk.len).sum = len) := by
  induction hn : len using Nat.strong_induction_on generalizing ofs len buf s with
  | _ n ih =>
    subst hn
    by_cases hzero : len = 0
    · subst hzero
      refine ⟨⟨0, 0, [], s⟩, by rw [docRw, dif_pos rfl], trivial, ?_, fun _ => ⟨rfl, ?_, rfl⟩⟩ <;>
        exact fun _ hc => absurd hc List.not_mem_nil
    have hchunk := Doc.chunk_eq ofs len
    have hfirst : 0 < Doc.chunk ofs len ∧ Doc.chunk ofs len ≤ len ∧
        ofs % 512 + Doc.chunk ofs len ≤ 512 := by omega
    obtain ⟨-, ret, s', hret, hrw⟩ | ⟨-, s', hrw⟩ := docRw_turn answer d cmd ofs buf s hzero
    · refine ⟨_, hrw, ⟨rfl, hfirst.1, hfirst.2.1, hfirst.2.2, trivial⟩, fun c hc => ?_,
        fun h => absurd h hret⟩
      rw [List.mem_singleton.mp hc]
    · obtain ⟨t, ht, htiles, hecc, hsuccess⟩ := ih (len - Doc.chunk ofs len) (by omega)
        (ofs + Doc.chunk ofs len) _ (buf + Doc.chunk ofs len) s' rfl
      rw [hrw, ht]
      refine ⟨_, rfl, ⟨rfl, hfirst.1, hfirst.2.1, hfirst.2.2, htiles⟩,
        List.forall_mem_cons.mpr ⟨rfl, hecc⟩, fun hret => ?_⟩
      obtain ⟨hretlen, hall, hsum⟩ := hsuccess hret
      refine ⟨?_, List.forall_mem_cons.mpr ⟨rfl, hall⟩, ?_⟩
      · show Doc.chunk ofs len + t.retlen = len
        omega
      · rw [List.map_cons, List.sum_cons, hsum]
        show Doc.chunk ofs len + (len - Doc.chunk ofs len) = len
        omega

theorem docRw_zero : d.docRw answer cmd ofs 0 buf s = .ok ⟨0, 0, [], s⟩ := by
  rw [docRw, dif_pos rfl]

variable (d) in
/-- There is a page among the chunks that are transferred. -/
def HasPage (cs : List Chunk) : Prop := ∃ c ∈ cs, c.ofs < d.totlen ∧ c.Whole

theorem hasPage_nil : ¬ d.HasPage [] := fun ⟨_, hc, _⟩ => absurd hc List.not_mem_nil

theorem hasPage_cons {c : Chunk} {cs : List Chunk} :
    d.HasPage (c :: cs) ↔ c.ofs < d.totlen ∧ c.Whole ∨ d.HasPage cs := List.exists_mem_cons_iff ..

theorem hasPage_aligned {t : Transfer} (hofs : ofs % 512 = 0)
    (ht : d.docRw answer cmd ofs len buf s = .ok t) :
    d.HasPage t.chunks ↔ 512 ≤ len ∧ ofs < d.totlen := by
  by_cases hzero : len = 0
  · subst hzero
    cases docRw_zero.symm.trans ht
    exact iff_of_false hasPage_nil (by omega)
  have hchunk := Doc.chunk_eq ofs len
  have hwhole {ret : ℕ} : (⟨ofs, Doc.chunk ofs len, false, ret⟩ : Chunk).Whole ↔ 512 ≤ len := by
    show ofs % 512 = 0 ∧ Doc.chunk ofs len = 512 ↔ _
    omega
  obtain ⟨-, ret, s', -, hrw⟩ | ⟨⟨hlt, -⟩, s', hrw⟩ := docRw_turn answer d cmd ofs buf s hzero
  · cases hrw.symm.trans ht
    rw [hasPage_cons, or_iff_left hasPage_nil, hwhole, and_comm]
  obtain ⟨t', ht', -⟩ := docRw_spec answer d cmd (ofs + Doc.chunk ofs len)
    (len - Doc.chunk ofs len) (buf + Doc.chunk ofs len) s'
  rw [ht'] at hrw
  cases hrw.symm.trans ht
  rw [hasPage_cons, hwhole, and_comm]
  refine or_iff_left_of_imp fun hpage => ⟨?_, hlt⟩
  by_contra hshort
  -- nothing is left behind a chunk that is shorter than a page
  have hrest : len - Doc.chunk ofs len = 0 := by omega
  rw [hrest] at ht'
  cases docRw_zero.symm.trans ht'
  exact hasPage_nil hpage

theorem hasPage_iff {t : Transfer} (ht : d.docRw answer cmd ofs len buf s = .ok t) :
    d.HasPage t.chunks ↔ d.Reaches answer cmd ofs len s.asked := by
  unfold Reaches
  by_cases hofs : ofs % 512 = 0
  · have hpage : page ofs = ofs := by
      unfold page
      omega
    rw [hasPage_aligned hofs ht, hpage]
    simp
  by_cases hzero : len = 0
  · subst hzero
    cases docRw_zero.symm.trans ht
    refine iff_of_false hasPage_nil fun h => ?_
    unfold page at h
    omega
  have hpage : page ofs = ofs + (512 - ofs % 512) := by
    unfold page
    omega
  have hchunk := Doc.chunk_eq ofs len
  have hnot {ret : ℕ} : ¬ ((⟨ofs, Doc.chunk ofs len, false, ret⟩ : Chunk).ofs < d.totlen ∧
      (⟨ofs, Doc.chunk ofs len, false, ret⟩ : Chunk).Whole) := fun h => hofs h.2.1
  obtain ⟨hstop, ret, s', -, hrw⟩ | ⟨⟨hlt, haccepts⟩, s', hrw⟩ :=
    docRw_turn answer d cmd ofs buf s hzero
  · cases hrw.symm.trans ht
    rw [hasPage_cons, or_iff_left hasPage_nil]
    refine iff_of_false hnot fun ⟨hin, hdev, hlead⟩ => ?_
    have hlen : Doc.chunk ofs len = page ofs - ofs := by omega
    rw [hlen] at hstop
    exact hstop.elim (fun h => by omega) fun h => h (hlead (by omega))
  obtain ⟨t', ht', -⟩ := docRw_spec answer d cmd (ofs + Doc.chunk ofs len)
    (len - Doc.chunk ofs len) (buf + Doc.chunk ofs len) s'
  rw [ht'] at hrw
  cases hrw.symm.trans ht
  rw [hasPage_cons, or_iff_right hnot]
  by_cases hrest : len - Doc.chunk ofs len = 0
  · rw [hrest] at ht'
    cases docRw_zero.symm.trans ht'
    exact iff_of_false hasPage_nil fun h => by omega
  · have hlen : Doc.chunk ofs len = page ofs - ofs := by omega
    rw [hlen] at haccepts
    rw [hasPage_aligned (by omega) ht']
    constructor
    · exact fun h => ⟨by omega, by omega, fun _ => haccepts⟩
    · exact fun h => ⟨by omega, by omega⟩

/-- **When `doc_rw` is right.** -/
theorem docRw_iff : (∃ t, d.docRw answer cmd ofs len buf s = .ok t ∧ d.Splits ofs len t) ↔
    ¬ d.Reaches answer cmd ofs len s.asked := by
  obtain ⟨t, ht, htiles, hecc, hsuccess⟩ := docRw_spec answer d cmd ofs len buf s
  rw [← hasPage_iff ht]
  constructor
  · rintro ⟨t', ht', hsplits⟩ ⟨c, hc, hdev, hwhole⟩
    cases ht.symm.trans ht'
    have hflag := (hsplits.ecc c hc hdev).mpr hwhole
    rw [hecc c hc] at hflag
    exact Bool.false_ne_true hflag
  · intro hno
    refine ⟨t, ht, htiles, fun c hc hdev => ?_, hsuccess⟩
    rw [hecc c hc]
    exact iff_of_false Bool.false_ne_true fun hwhole => hno ⟨c, hc, hdev, hwhole⟩

variable (d) in
theorem docRw_boot (b : Boot.Doc) (hb : b.totlen = d.totlen) (addr : UInt32) (mem : Mem32)
    {t : Transfer} (ht : d.docRw answer true ofs len buf s = .ok t) :
    t.ret ≠ 0 ↔ (b.rw ofs len addr mem).1 = true := by
  induction hn : len using Nat.strong_induction_on generalizing ofs len buf s addr mem t with
  | _ n ih =>
    subst hn
    by_cases hzero : len = 0
    · subst hzero
      cases docRw_zero.symm.trans ht
      rw [Boot.Doc.rw, dif_pos rfl]
      exact iff_of_false (fun h => h rfl) Bool.false_ne_true
    rw [Boot.Doc.rw_step hzero, hb]
    have hchunk := Doc.chunk_eq ofs len
    obtain ⟨hstop, ret, s', hret, hrw⟩ | ⟨⟨hlt, -⟩, s', hrw⟩ :=
      docRw_turn answer d true ofs buf s hzero
    · cases hrw.symm.trans ht
      rw [if_pos (hstop.resolve_right fun h => h (.inl rfl))]
      exact iff_of_true hret rfl
    · obtain ⟨t', ht', -⟩ := docRw_spec answer d true (ofs + Doc.chunk ofs len)
        (len - Doc.chunk ofs len) (buf + Doc.chunk ofs len) s'
      rw [ht'] at hrw
      cases hrw.symm.trans ht
      rw [if_neg (not_le.mpr hlt)]
      have hrest := fun addr mem => ih (len - Doc.chunk ofs len) (by omega) addr mem ht' rfl
      exact hrest _ _

/-! ## Erasing -/

theorem exists_map_ok {ε α β : Type} {x : Except ε α} {f : α → β} {P : β → Prop} :
    (∃ b, x.map f = .ok b ∧ P b) ↔ ∃ a, x = .ok a ∧ P (f a) := by
  cases x with
  | error e => exact iff_of_false (fun ⟨b, hb, _⟩ => by cases hb) fun ⟨a, ha, _⟩ => by cases ha
  | ok a => exact ⟨fun ⟨b, hb, h⟩ => ⟨a, rfl, by cases hb; exact h⟩,
      fun ⟨a', ha, h⟩ => ⟨f a, rfl, by cases ha; exact h⟩⟩

variable (answer d ofs s) in
theorem eraseLoop_turn (hlen : len ≠ 0) :
    (∃ mychip, d.chipAt ofs = .ok mychip) ∧ answer s.asked &&& 1 = 0 ∧
      (∃ s', s'.asked = s.asked + 1 ∧ d.eraseLoop answer ofs len s =
        (d.eraseLoop answer (ofs + d.erasesize) (len - d.erasesize) s').map fun e =>
          { e with erased := ofs :: e.erased }) ∨
    ¬ ((∃ mychip, d.chipAt ofs = .ok mychip) ∧ answer s.asked &&& 1 = 0) ∧
      ∀ e, d.eraseLoop answer ofs len s = .ok e → e.ret = 0 ∧ e.erased = [] := by
  rw [eraseLoop, if_neg hlen]
  cases d.chipAt ofs with
  | error e =>
    refine .inr ⟨fun ⟨⟨mychip, h⟩, _⟩ => ?_, fun e h => ?_⟩
    · cases h
    · cases h
  | ok mychip =>
    by_cases hbad : answer s.asked &&& 1 = 0
    · refine .inl ⟨⟨mychip, rfl⟩, hbad, _, ?_, if_neg fun h => ?_⟩
      · simp
      · exact status_eq.mp h (by simpa using hbad)
    · refine .inr ⟨fun h => hbad h.2, fun e he => ?_⟩
      have hstop := (if_pos (status_eq.mpr (by simpa using hbad))).symm.trans he
      cases hstop
      exact ⟨rfl, rfl⟩

theorem eraseLoop_iff {n : ℕ} : (∃ e, d.eraseLoop answer ofs (n * d.erasesize) s = .ok e ∧
      (e.ret = 0 → ∀ k < n, d.block ofs k ∈ e.erased)) ↔
    ∀ k < n, (∃ mychip, d.chipAt (d.block ofs k) = .ok mychip) ∧
      answer (s.asked + k) &&& 1 = 0 := by
  induction n generalizing ofs s with
  | zero =>
    rw [Nat.zero_mul, eraseLoop, if_pos rfl]
    exact iff_of_true ⟨_, rfl, fun _ k hk => absurd hk (Nat.not_lt_zero k)⟩ fun k hk =>
      absurd hk (Nat.not_lt_zero k)
  | succ n ih =>
    have hsize : 0 < d.erasesize := Nat.two_pow_pos d.eraseshift
    have hlen : (n + 1) * d.erasesize ≠ 0 := Nat.mul_ne_zero (by omega) (by omega)
    have hrest : (n + 1) * d.erasesize - d.erasesize = n * d.erasesize := by
      rw [Nat.succ_mul, Nat.add_sub_cancel]
    have hzero : d.block ofs 0 = ofs := by rw [block, Nat.zero_mul, Nat.add_zero]
    have hnext (k : ℕ) : d.block ofs (k + 1) = d.block (ofs + d.erasesize) k := by
      rw [block, block, Nat.succ_mul]
      omega
    obtain ⟨hchip, hok, s', hasked, hturn⟩ | ⟨hbad, hstop⟩ := 
      eraseLoop_turn answer d ofs s hlen
    · rw [hrest] at hturn
      have hrun : (∃ e, d.eraseLoop answer (ofs + d.erasesize) (n * d.erasesize) s' = .ok e ∧
          (e.ret = 0 → ∀ k < n, d.block (ofs + d.erasesize) k ∈ e.erased)) ↔
          ∀ k < n, (∃ mychip, d.chipAt (d.block (ofs + d.erasesize) k) = .ok mychip) ∧
            answer (s'.asked + k) &&& 1 = 0 := ih
      have hblocks {l : List ℕ} : (∀ k < n + 1, d.block ofs k ∈ ofs :: l) ↔
          ∀ k < n, d.block (ofs + d.erasesize) k ∈ l := by
        rw [Nat.forall_lt_succ_left, hzero, and_iff_right List.mem_cons_self]
        refine forall₂_congr fun k _ => ?_
        rw [hnext, List.mem_cons, or_iff_right]
        rw [block]
        omega
      rw [hturn, exists_map_ok]
      simp only [hblocks]
      rw [hrun, hasked, Nat.forall_lt_succ_left, hzero, Nat.add_zero, and_iff_right ⟨hchip, hok⟩]
      refine forall₂_congr fun k _ => ?_
      rw [hnext, Nat.add_right_comm, Nat.add_assoc]
    · refine iff_of_false (fun ⟨e, he, herased⟩ => ?_) fun h => hbad ?_
      · obtain ⟨hret, hnil⟩ := hstop e he
        have hmem := herased hret 0 (Nat.succ_pos n)
        rw [hnil] at hmem
        exact absurd hmem List.not_mem_nil
      · have hfirst := h 0 (Nat.succ_pos n)
        rwa [hzero, Nat.add_zero] at hfirst

/-- **When `doc_erase` is right.** -/
theorem docErase_iff : (∃ e, d.docErase answer ofs len s = .ok e ∧
      (e.ret = 0 → ∀ k < len / d.erasesize, d.block ofs k ∈ e.erased)) ↔
    d.Erases answer ofs len s.asked := by
  have hsize : 0 < d.erasesize := Nat.two_pow_pos d.eraseshift
  rw [docErase, Erases]
  by_cases hbad : ofs &&& (d.erasesize - 1) ≠ 0 ∨ len &&& (d.erasesize - 1) ≠ 0
  · rw [if_pos hbad]
    exact iff_of_true ⟨_, rfl, fun h => absurd h (by decide : docEinval ≠ 0)⟩
      (or_assoc.mp (.inl hbad))
  rw [if_neg hbad, ← or_assoc, or_iff_right hbad, ← eraseLoop_iff]
  -- the length is a number of blocks
  have haligned : len % d.erasesize = 0 := by
    rw [erasesize, ← Nat.and_two_pow_sub_one_eq_mod]
    exact not_not.mp (not_or.mp hbad).2
  rw [Nat.div_mul_cancel (Nat.dvd_of_mod_eq_zero haligned)]

end

/-- **When `doc_rw` and `doc_erase` are right.** -/
theorem doc_iff (answer : ℕ → UInt8) (d : DiskOnChip) (cmd : Bool) (ofs len buf : ℕ) (s : State) :
    ((∃ t, d.docRw answer cmd ofs len buf s = .ok t ∧ d.Splits ofs len t) ↔
      ¬ d.Reaches answer cmd ofs len s.asked) ∧
    ((∃ e, d.docErase answer ofs len s = .ok e ∧
        (e.ret = 0 → ∀ k < len / d.erasesize, d.block ofs k ∈ e.erased)) ↔
      d.Erases answer ofs len s.asked) :=
  ⟨docRw_iff, docErase_iff⟩

def sample : DiskOnChip := ⟨false, false, 22, 13, [⟨0, 0⟩], Nat.le_of_ble_eq_true rfl⟩

/-- The first page is read without ECC, and a block that cannot be erased is not reported. -/
theorem doc_fails :
    ¬ (∃ t, sample.docRw (fun _ => 0) true 0 512 0 ⟨0, 0, 0, []⟩ = .ok t ∧
      sample.Splits 0 512 t) ∧
    ¬ (∃ e, sample.docErase (fun _ => 1) 0 8192 ⟨0, 0, 0, []⟩ = .ok e ∧
      (e.ret = 0 → ∀ k < 8192 / sample.erasesize, sample.block 0 k ∈ e.erased)) := by
  rw [docRw_iff, docErase_iff]
  refine ⟨not_not.mpr ⟨by decide, by decide, fun h => absurd rfl h⟩, ?_⟩
  rintro (h | h | h)
  · exact h (by decide)
  · exact h (by decide)
  · exact absurd (h 0 (by decide)).2 (show ¬ (1 : UInt8) &&& 1 = 0 by decide)

end DiskOnChip

end UBoot.Doc
