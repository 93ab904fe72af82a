import Mathlib.Logic.Relation
import UBoot.Jffs2.Scan
import UBoot.Lib.Buf

/-!
# Where the scan looks

`Step` is a turn of the loop of `jffs2_1pass_build_lists`, from the offset that it looks at to the
next one, and `Reached` are the offsets that it gets to; `Samples` are those that
`jffs2_scan_empty` looks at. Where the partition has room for a raw inode and no header that is
reached makes the offset wrap, each turn but one over a node of length 0 moves on; so the scan ends
exactly where it gets to no such node (`ends_iff`).
-/

namespace UBoot.Jffs2

open UBoot.Lib UBoot.Env

namespace Part

variable (p : Part)

def Valid (o : UInt32) : Prop :=
  p.magic (p.offset + o) = magicBitmask ∧ p.HdrCrc (p.offset + o)

def Empty (o : UInt32) : Prop :=
  p.magic (p.offset + o) = emptyBitmask ∧ p.nodetype (p.offset + o) = emptyBitmask

/-- Both words of the `struct jffs2_empty_node` at the offset are ones. -/
def Blank (o : UInt32) : Prop :=
  p.u32 (p.offset + o) 0 = 0xffffffff ∧ p.u32 (p.offset + o) 4 = 0xffffffff

instance (o : UInt32) : Decidable (p.Valid o) := inferInstanceAs (Decidable (_ ∧ _))
instance (o : UInt32) : Decidable (p.Empty o) := inferInstanceAs (Decidable (_ ∧ _))

/-- The offsets that `jffs2_scan_empty` looks at when it is called with `g`. -/
inductive Samples (g : UInt32) : UInt32 → Prop where
  | first : Samples g (g + 32)
  | hop {t : UInt32} : Samples g t → t < p.max → p.Blank t → Samples g (t + 4 + 32)

/-- `jffs2_scan_empty` "presumes that there were no nodes in between" `g` and `t`. -/
structure Hops (g t : UInt32) : Prop where
  samples : p.Samples g t
  lt_max : t < p.max
  blank : p.Blank t

/-- The length of the node at the offset, as the loop adds it. -/
def len (o : UInt32) : UInt32 := round4 (p.totlen (p.offset + o))

def turn (fuel : ℕ) (o : UInt32) : Except Stop UInt32 :=
  if p.Valid o then .ok (o + p.len o)
  else if p.Empty o then scanEmpty p fuel o
  else .ok (o + 4)

def added (o : UInt32) (pl : Lists) : Lists :=
  if p.Valid o then
    if p.nodetype (p.offset + o) = nodetypeInode ∧ p.InodeCrc (p.offset + o) then
      { pl with frags := pl.frags ++ [p.offset + o] }
    else if p.nodetype (p.offset + o) = nodetypeDirent ∧ p.DirentCrc (p.offset + o) ∧
        p.DirentNameCrc (p.offset + o) then
      { pl with dirs := pl.dirs ++ [p.offset + o] }
    else pl
  else pl

/-- A turn of the loop of `jffs2_1pass_build_lists`. -/
def Step (o o' : UInt32) : Prop := o < p.max ∧ ∃ fuel, p.turn fuel o = .ok o'

def Reached : UInt32 → Prop := Relation.ReflTransGen p.Step 0

/-- `jffs2_scan_empty` is called with the offset. -/
structure Enters (g : UInt32) : Prop where
  reached : p.Reached g
  lt_max : g < p.max
  not_valid : ¬ p.Valid g
  empty : p.Empty g

end Part

section
variable {p : Part} {fuel fuel' : ℕ} {g o o' r s t : UInt32} {pl pl' : Lists} {node : UInt32}

/-! ## The loop as steps -/

theorem buildListsFrom_of_not_lt (ho : ¬ o < p.max) {malloc : ℕ → ℕ → Bool} :
    buildListsFrom p malloc (fuel + 1) o pl = .ok pl := by
  rw [buildListsFrom]
  exact if_neg ho

theorem buildListsFrom_succ {malloc : ℕ → ℕ → Bool} (hmalloc : ∀ i j, malloc i j = true)
    (ho : o < p.max) : buildListsFrom p malloc (fuel + 1) o pl =
      p.turn fuel o >>= fun o' => buildListsFrom p malloc fuel o' (p.added o pl) := by
  rw [buildListsFrom, Part.turn, Part.added]
  simp only [if_pos ho, hmalloc, if_true]
  by_cases hvalid : p.Valid o
  · have hcond : p.magic (p.offset + o) = magicBitmask ∧ p.HdrCrc (p.offset + o) := hvalid
    rw [if_pos hcond, if_pos hvalid, if_pos hvalid]
    split
    · rfl
    · split <;> rfl
  · have hcond : ¬ (p.magic (p.offset + o) = magicBitmask ∧ p.HdrCrc (p.offset + o)) := hvalid
    rw [if_neg hcond, if_neg hvalid, if_neg hvalid]
    by_cases hempty : p.Empty o
    · have hcond : p.magic (p.offset + o) = emptyBitmask ∧
        p.nodetype (p.offset + o) = emptyBitmask := hempty
      rw [if_pos hcond, if_pos hempty]
      cases scanEmpty p fuel o <;> rfl
    · have hcond : ¬ (p.magic (p.offset + o) = emptyBitmask ∧
        p.nodetype (p.offset + o) = emptyBitmask) := hempty
      rw [if_neg hcond, if_neg hempty]
      rfl

theorem scanEmptyFrom_mono (h : scanEmptyFrom p fuel s t = .ok r) (hfuel : fuel ≤ fuel') :
    scanEmptyFrom p fuel' s t = .ok r := by
  induction fuel generalizing fuel' s t with
  | zero => cases h
  | succ fuel ih =>
    obtain ⟨k, rfl⟩ := Nat.exists_eq_add_of_le' (Nat.lt_of_lt_of_le (Nat.succ_pos fuel) hfuel)
    rw [scanEmptyFrom] at h ⊢
    split_ifs at h ⊢
    · exact ih h (by omega)
    · exact h
    · exact h

theorem turn_mono (h : p.turn fuel o = .ok o') (hfuel : fuel ≤ fuel') :
    p.turn fuel' o = .ok o' := by
  rw [Part.turn] at h ⊢
  split_ifs at h ⊢
  · exact h
  · exact scanEmptyFrom_mono h hfuel
  · exact h

theorem step_rightUnique : Relator.RightUnique p.Step := by
  rintro o a b ⟨-, fuel, ha⟩ ⟨-, fuel', hb⟩
  have ha' := turn_mono ha (Nat.le_max_left fuel fuel')
  rw [turn_mono hb (Nat.le_max_right fuel fuel')] at ha'
  exact (Except.ok.inj ha').symm

theorem ends_of_reached (ho : p.Reached o)
    (hrun : ∃ fuel pl pl', buildListsFrom p (fun _ _ => true) fuel 0 pl = .ok pl') :
    ∃ fuel pl pl', buildListsFrom p (fun _ _ => true) fuel o pl = .ok pl' := by
  induction ho with
  | refl => exact hrun
  | @tail o o' _ hstep ih =>
    obtain ⟨fuel, pl, pl', hrun⟩ := ih
    obtain ⟨hlt, fuel', hturn⟩ := hstep
    cases fuel with
    | zero => cases hrun
    | succ fuel =>
      rw [buildListsFrom_succ (fun _ _ => rfl) hlt] at hrun
      obtain ⟨o'', hturn', hrest⟩ := bind_eq_ok.mp hrun
      rw [step_rightUnique ⟨hlt, _, hturn⟩ ⟨hlt, _, hturn'⟩]
      exact ⟨fuel, _, pl', hrest⟩

theorem not_ends_of_len_zero (hlt : o < p.max) (hvalid : p.Valid o) (hlen : p.len o = 0) :
    buildListsFrom p (fun _ _ => true) fuel o pl ≠ .ok pl' := by
  induction fuel generalizing pl with
  | zero => exact fun h => by cases h
  | succ fuel ih =>
    rw [buildListsFrom_succ (fun _ _ => rfl) hlt, Part.turn, if_pos hvalid, hlen, UInt32.add_zero]
    exact ih

theorem reached_of_listed (ho : p.Reached o)
    (hrun : buildListsFrom p (fun _ _ => true) fuel o pl = .ok pl')
    (hnode : node ∈ pl'.frags ++ pl'.dirs) :
    node ∈ pl.frags ++ pl.dirs ∨ ∃ o, p.Reached o ∧ o < p.max ∧ node = p.offset + o := by
  induction fuel generalizing o pl with
  | zero => cases hrun
  | succ fuel ih =>
    by_cases hlt : o < p.max
    · rw [buildListsFrom_succ (fun _ _ => rfl) hlt] at hrun
      obtain ⟨o', hturn, hrest⟩ := bind_eq_ok.mp hrun
      rcases ih (ho.tail ⟨hlt, fuel, hturn⟩) hrest with hadded | hreached
      · have hcases : node ∈ pl.frags ++ pl.dirs ∨ node = p.offset + o := by
          rw [Part.added] at hadded
          split_ifs at hadded
          · simp only [List.mem_append, List.mem_singleton] at hadded ⊢
            rcases hadded with (hfrag | hthis) | hdir
            · exact .inl (.inl hfrag)
            · exact .inr hthis
            · exact .inl (.inr hdir)
          · simp only [List.mem_append, List.mem_singleton] at hadded ⊢
            rcases hadded with hfrag | hdir | hthis
            · exact .inl (.inl hfrag)
            · exact .inl (.inr hdir)
            · exact .inr hthis
          · exact .inl hadded
          · exact .inl hadded
        exact hcases.imp id fun h => ⟨o, ho, hlt, h⟩
      · exact .inr hreached
    · rw [buildListsFrom_of_not_lt hlt] at hrun
      cases hrun
      exact .inl hnode

/-! ## Where each turn moves on -/

theorem lt_max_iff (hsize : 68 ≤ p.size.toNat) : o < p.max ↔ o.toNat + 68 < p.size.toNat := by
  have hmax : p.max.toNat = p.size.toNat - 68 :=
    UInt32.toNat_sub_of_le _ _ (UInt32.le_iff_toNat_le.mpr hsize)
  rw [UInt32.lt_iff_toNat_lt, hmax]
  omega

theorem toNat_add_of_lt {k : UInt32} (h : o.toNat + k.toNat < 2 ^ 32) :
    (o + k).toNat = o.toNat + k.toNat := by
  rw [UInt32.toNat_add, Nat.mod_eq_of_lt h]

theorem toNat_add_ofNat {k : ℕ} (h : o.toNat + k < 2 ^ 32) :
    (o + UInt32.ofNat k).toNat = o.toNat + k := by
  have hk : (UInt32.ofNat k).toNat = k :=
    UInt32.toNat_ofNat_of_lt' (lt_of_le_of_lt (Nat.le_add_left k o.toNat) h)
  rw [toNat_add_of_lt (by rw [hk]; exact h), hk]

/-- `jffs2_scan_empty` ends, where it was or behind the place that it looks at. -/
theorem scanEmptyFrom_ends (hsize : 68 ≤ p.size.toNat) (ht : t.toNat < p.size.toNat)
    (hfuel : p.size.toNat < t.toNat + fuel) :
    ∃ r, scanEmptyFrom p fuel s t = .ok r ∧ (r = s ∨ t.toNat < r.toNat) := by
  have hlt := p.size.toNat_lt
  induction fuel generalizing s t with
  | zero => omega
  | succ fuel ih =>
    rw [scanEmptyFrom]
    by_cases hmax : t < p.max
    · rw [if_pos hmax]
      rw [lt_max_iff hsize] at hmax
      have h4 : (t + 4).toNat = t.toNat + 4 := toNat_add_ofNat (k := 4) (by omega)
      have h36 : (t + 4 + 32).toNat = (t + 4).toNat + 32 := toNat_add_ofNat (k := 32) (by omega)
      split_ifs
      · obtain ⟨r, hr, hcases⟩ := @ih (t + 4) (t + 4 + 32) (by omega) (by omega)
        refine ⟨r, hr, .inr ?_⟩
        rcases hcases with rfl | hr
        · omega
        · omega
      · exact ⟨s, rfl, .inl rfl⟩
    · exact ⟨s, if_neg hmax, .inl rfl⟩

theorem scanEmpty_ends (hsize : 68 ≤ p.size.toNat) (hg : g < p.max)
    (hfuel : p.size.toNat - g.toNat ≤ fuel) :
    ∃ r, scanEmpty p fuel g = .ok r ∧ g.toNat < r.toNat := by
  rw [lt_max_iff hsize] at hg
  have hlt := p.size.toNat_lt
  have h4 : (g + 4).toNat = g.toNat + 4 := toNat_add_ofNat (k := 4) (by omega)
  have h32 : (g + 32).toNat = g.toNat + 32 := toNat_add_ofNat (k := 32) (by omega)
  obtain ⟨r, hr, hcases⟩ :=
    @scanEmptyFrom_ends p fuel (g + 4) (g + 32) hsize (by omega) (by omega)
  refine ⟨r, hr, ?_⟩
  rcases hcases with rfl | hr
  · omega
  · omega

theorem exists_scanEmptyFrom_of_samples (ht : p.Samples g t) (hr : scanEmpty p fuel g = .ok r) :
    ∃ fuel s, scanEmptyFrom p fuel s t = .ok r := by
  induction ht with
  | first => exact ⟨fuel, _, hr⟩
  | @hop t _ hlt hblank ih =>
    obtain ⟨fuel', s, hfrom⟩ := ih
    cases fuel' with
    | zero => cases hfrom
    | succ fuel' =>
      have hcond : p.u32 (p.offset + t) 0 = 0xffffffff ∧ p.u32 (p.offset + t) 4 = 0xffffffff :=
        hblank
      rw [scanEmptyFrom, if_pos hlt, if_pos hcond] at hfrom
      exact ⟨fuel', _, hfrom⟩

theorem lt_of_hops (hsize : 68 ≤ p.size.toNat) (ht : p.Hops g t)
    (hr : scanEmpty p fuel g = .ok r) : t.toNat < r.toNat := by
  have hlt := p.size.toNat_lt
  have hmax := (lt_max_iff hsize).mp ht.lt_max
  have h4 : (t + 4).toNat = t.toNat + 4 := toNat_add_ofNat (k := 4) (by omega)
  have h36 : (t + 4 + 32).toNat = (t + 4).toNat + 32 := toNat_add_ofNat (k := 32) (by omega)
  obtain ⟨fuel', s, hfrom⟩ := exists_scanEmptyFrom_of_samples ht.samples hr
  cases fuel' with
  | zero => cases hfrom
  | succ fuel' =>
    have hcond : p.u32 (p.offset + t) 0 = 0xffffffff ∧ p.u32 (p.offset + t) 4 = 0xffffffff :=
      ht.blank
    rw [scanEmptyFrom, if_pos ht.lt_max, if_pos hcond] at hfrom
    obtain ⟨r', hr', hcases⟩ := @scanEmptyFrom_ends p (p.size.toNat + fuel') (t + 4) (t + 4 + 32)
      hsize (by omega) (by omega)
    rw [scanEmptyFrom_mono hfrom (Nat.le_add_left fuel' p.size.toNat)] at hr'
    cases hr'
    rcases hcases with rfl | hcases
    · omega
    · omega

/-- The length that a header gives does not make the offset wrap. -/
def Part.NoWrap (p : Part) : Prop :=
  ∀ o, p.Reached o → o < p.max → p.Valid o → o.toNat + (p.len o).toNat < 2 ^ 32

def Part.NoStall (p : Part) : Prop :=
  ∀ o, p.Reached o → o < p.max → p.Valid o → p.len o ≠ 0

theorem turn_ends (hsize : 68 ≤ p.size.toNat) (hwrap : p.NoWrap) (hstall : p.NoStall)
    (ho : p.Reached o) (hlt : o < p.max) (hfuel : p.size.toNat - o.toNat ≤ fuel) :
    ∃ o', p.turn fuel o = .ok o' ∧ o.toNat < o'.toNat := by
  rw [Part.turn]
  split_ifs with hvalid hempty
  · refine ⟨_, rfl, ?_⟩
    have hpos : 0 < (p.len o).toNat := by
      rw [Nat.pos_iff_ne_zero]
      exact fun hzero => hstall o ho hlt hvalid (UInt32.toNat_inj.mp hzero)
    rw [toNat_add_of_lt (hwrap o ho hlt hvalid)]
    omega
  · exact scanEmpty_ends hsize hlt hfuel
  · have hmax := (lt_max_iff hsize).mp hlt
    have hsize' := p.size.toNat_lt
    have h4 : (o + 4).toNat = o.toNat + 4 := toNat_add_ofNat (k := 4) (by omega)
    exact ⟨_, rfl, by omega⟩

theorem buildListsFrom_ends (hsize : 68 ≤ p.size.toNat) (hwrap : p.NoWrap) (hstall : p.NoStall)
    (ho : p.Reached o) (hfuel : p.size.toNat - o.toNat < fuel) :
    ∃ pl', buildListsFrom p (fun _ _ => true) fuel o pl = .ok pl' := by
  induction fuel generalizing o pl with
  | zero => omega
  | succ fuel ih =>
    by_cases hlt : o < p.max
    · obtain ⟨o', hturn, hmove⟩ := turn_ends hsize hwrap hstall ho hlt (Nat.le_of_lt_succ hfuel)
      have hmax := (lt_max_iff hsize).mp hlt
      rw [buildListsFrom_succ (fun _ _ => rfl) hlt, hturn]
      exact ih (ho.tail ⟨hlt, fuel, hturn⟩) (by omega)
    · exact ⟨pl, buildListsFrom_of_not_lt hlt⟩

/-- **The scan ends if and only if it gets to no node of length 0.** -/
theorem ends_iff (hsize : 68 ≤ p.size.toNat) (hwrap : p.NoWrap) :
    (∃ fuel pl, buildLists p (fun _ _ => true) fuel = .ok pl) ↔ p.NoStall := by
  constructor
  · rintro ⟨fuel, pl, hrun⟩ o ho hlt hvalid hlen
    obtain ⟨fuel', pl', pl'', hrun'⟩ := ends_of_reached ho ⟨fuel, _, pl, hrun⟩
    exact not_ends_of_len_zero hlt hvalid hlen hrun'
  · intro hstall
    obtain ⟨pl, hpl⟩ := @buildListsFrom_ends p (p.size.toNat + 1) 0 ⟨[], [], p.offset⟩ hsize hwrap
      hstall .refl (by omega)
    exact ⟨_, pl, hpl⟩

theorem reached_le (hsize : 68 ≤ p.size.toNat) (hwrap : p.NoWrap) (hstall : p.NoStall)
    (ho : p.Reached o) (hrun : Relation.ReflTransGen p.Step o o') : o.toNat ≤ o'.toNat := by
  induction hrun with
  | refl => exact Nat.le_refl _
  | @tail a b hoa hstep ih =>
    obtain ⟨hlt, fuel, hturn⟩ := hstep
    obtain ⟨b', hturn', hmove⟩ := @turn_ends p (p.size.toNat + fuel) a hsize hwrap hstall
      (ho.trans hoa) hlt (by omega)
    rw [turn_mono hturn (Nat.le_add_left fuel p.size.toNat)] at hturn'
    cases hturn'
    omega

/-- What lies between an offset and the one after the next turn is not reached. -/
theorem not_reached_between (hsize : 68 ≤ p.size.toNat) (hwrap : p.NoWrap) (hstall : p.NoStall)
    (hg : p.Reached g) (hstep : p.Step g r) (ho : p.Reached o) (hgo : g.toNat < o.toNat) :
    r.toNat ≤ o.toNat := by
  rcases Relation.ReflTransGen.total_of_right_unique step_rightUnique hg ho with hrun | hrun
  · rcases Relation.ReflTransGen.cases_head hrun with rfl | ⟨r', hstep', hrest⟩
    · omega
    · rw [step_rightUnique hstep hstep']
      exact reached_le hsize hwrap hstall (hg.tail hstep') hrest
  · have hle := reached_le hsize hwrap hstall ho hrun
    omega

end

end UBoot.Jffs2
