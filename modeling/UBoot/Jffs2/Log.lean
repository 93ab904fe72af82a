import UBoot.Jffs2.Walk

/-!
# What the scan finds in a well-formed log

`Log` says that from an offset on the partition holds valid nodes and erased flash, up to its end.
`buildLists_log` is the result: every inode node and every directory entry is listed, in order. Two
things can hide a node from the scan: it stops one raw inode before the end of the partition, and
behind erased flash `jffs2_scan_empty` takes two words of ones in a node for more of it. `Unskipped`
says that this does not happen, and `Scannable`, which looks at the nodes alone, rules it out.
-/

namespace UBoot.Jffs2

open UBoot.Lib UBoot.Env

/-! ## Words of ones -/

theorem beWord_ones {a b c d : UInt8} (h : beWord [a, b, c, d] = 0xffffffff) :
    a = 0xff ∧ b = 0xff ∧ c = 0xff ∧ d = 0xff := by
  have ha := a.toNat_lt
  have hb := b.toNat_lt
  have hc := c.toNat_lt
  have hd := d.toNat_lt
  have hnat := congrArg UInt32.toNat h
  simp only [beWord, UInt32.toNat_ofNat', UInt32.reduceToNat] at hnat
  simp only [← UInt8.toNat_inj, UInt8.reduceToNat]
  omega

section
variable {p : Part} {node k : UInt32} {o s t : Nat} {fs ds : List UInt32}

def Part.Ones (p : Part) (a : UInt32) : Prop := ∀ i < 4, p.mem (a + UInt32.ofNat i) = 0xff

theorem read_four (m : Mem32) (a : UInt32) : m.read a 4 = [m (a + UInt32.ofNat 0),
    m (a + UInt32.ofNat 1), m (a + UInt32.ofNat 2), m (a + UInt32.ofNat 3)] := rfl

theorem u32_ones : p.u32 node k = 0xffffffff ↔ p.Ones (node + k) := by
  rw [Part.u32, read_four]
  constructor
  · intro h i hi
    cases hcpu : p.cpu with
    | big =>
      rw [hcpu] at h
      obtain ⟨h0, h1, h2, h3⟩ := beWord_ones h
      interval_cases i <;> assumption
    | little =>
      rw [hcpu] at h
      obtain ⟨h0, h1, h2, h3⟩ := beWord_ones h
      interval_cases i <;> assumption
  · intro h
    rw [h 0 (by decide), h 1 (by decide), h 2 (by decide), h 3 (by decide)]
    cases p.cpu <;> decide

theorem u16_ones (h : ∀ i < 2, p.mem (node + k + UInt32.ofNat i) = 0xff) :
    p.u16 node k = emptyBitmask := by
  have hread : p.mem.read (node + k) 2 =
      [p.mem (node + k + UInt32.ofNat 0), p.mem (node + k + UInt32.ofNat 1)] := rfl
  rw [Part.u16, hread, h 0 (by decide), h 1 (by decide)]
  cases p.cpu <;> decide

theorem empty_of_ones (h : p.Ones node) :
    p.magic node = emptyBitmask ∧ p.nodetype node = emptyBitmask := by
  refine ⟨u16_ones fun i hi => ?_, u16_ones fun i hi => ?_⟩
  · rw [UInt32.add_zero]
    exact h i (by omega)
  · have haddr : node + 2 + UInt32.ofNat i = node + UInt32.ofNat (2 + i) := by
      rw [UInt32.ofNat_add, UInt32.add_assoc]
      rfl
    rw [haddr]
    exact h (2 + i) (by omega)

/-! ## Rounding -/

theorem round4_toNat (x : UInt32) (h : x.toNat + 3 < 2 ^ 32) :
    (round4 x).toNat = (x.toNat + 3) / 4 * 4 := by
  have hadd : (x + 3).toNat = x.toNat + 3 := by
    rw [UInt32.toNat_add]
    exact Nat.mod_eq_of_lt h
  have hmask : (~~~3 : UInt32).toNat = 2 ^ 32 - 2 ^ 2 := rfl
  rw [round4, UInt32.toNat_and, hadd, hmask]
  generalize x.toNat + 3 = n at h
  refine Nat.eq_of_testBit_eq fun i => ?_
  have hdiv : n / 4 * 4 = (n >>> 2) <<< 2 := by
    rw [Nat.shiftRight_eq_div_pow, Nat.shiftLeft_eq]
  have hconst : (2 ^ 32 - 2 ^ 2 : Nat) = (2 ^ 30 - 1) <<< 2 := by decide
  rw [hdiv, hconst, Nat.testBit_and, Nat.testBit_shiftLeft, Nat.testBit_shiftLeft,
    Nat.testBit_two_pow_sub_one, Nat.testBit_shiftRight]
  by_cases hi : 2 ≤ i
  · have hsum : 2 + (i - 2) = i := by omega
    rw [hsum]
    by_cases hlt : i - 2 < 30
    · simp [hi, hlt]
    · have hbig : n.testBit i = false :=
        Nat.testBit_lt_two_pow (h.trans_le (Nat.pow_le_pow_right (by decide) (by omega)))
      simp [hbig]
  · simp [hi]

end

/-! ## The log -/

def Part.node (p : Part) (o : Nat) : UInt32 := p.offset + UInt32.ofNat o

/-- The length of the node at `o`, up to the next word. -/
def Part.span (p : Part) (o : Nat) : Nat := ((p.totlen (p.node o)).toNat + 3) / 4 * 4

/-- A valid inode node, with its data behind it. -/
structure Part.IsInode (p : Part) (o : Nat) : Prop where
  magic : p.magic (p.node o) = magicBitmask
  hdrCrc : p.HdrCrc (p.node o)
  nodetype : p.nodetype (p.node o) = nodetypeInode
  inodeCrc : p.InodeCrc (p.node o)
  totlen : (p.totlen (p.node o)).toNat = 68 + (p.inodeAt (p.node o)).csize.toNat
  fits : o + p.span o ≤ p.size.toNat

/-- A valid directory entry, with its name behind it. -/
structure Part.IsDirent (p : Part) (o : Nat) : Prop where
  magic : p.magic (p.node o) = magicBitmask
  hdrCrc : p.HdrCrc (p.node o)
  nodetype : p.nodetype (p.node o) = nodetypeDirent
  direntCrc : p.DirentCrc (p.node o)
  nameCrc : p.DirentNameCrc (p.node o)
  totlen : (p.totlen (p.node o)).toNat = 40 + (p.nsize (p.node o)).toNat
  fits : o + p.span o ≤ p.size.toNat

structure Part.IsCleanmarker (p : Part) (o : Nat) : Prop where
  magic : p.magic (p.node o) = magicBitmask
  hdrCrc : p.HdrCrc (p.node o)
  nodetype : p.nodetype (p.node o) = nodetypeCleanmarker
  totlen : p.totlen (p.node o) = 12
  fits : o + 12 ≤ p.size.toNat

/-- From `o` to its end the partition holds nodes and erased words; the addresses of the inode nodes
and of the directory entries. -/
inductive Log (p : Part) : Nat → List UInt32 → List UInt32 → Prop where
  | stop : Log p p.size.toNat [] []
  | inode {o : Nat} {fs ds : List UInt32} : p.IsInode o → Log p (o + p.span o) fs ds →
      Log p o (p.node o :: fs) ds
  | dirent {o : Nat} {fs ds : List UInt32} : p.IsDirent o → Log p (o + p.span o) fs ds →
      Log p o fs (p.node o :: ds)
  | cleanmarker {o : Nat} {fs ds : List UInt32} : p.IsCleanmarker o → Log p (o + 12) fs ds →
      Log p o fs ds
  | erased {o : Nat} {fs ds : List UInt32} : o + 4 ≤ p.size.toNat → p.Ones (p.node o) →
      Log p (o + 4) fs ds → Log p o fs ds

/-- A node that the scan cannot miss: it starts before the last raw inode of the partition, and has
no two words of ones in a row near its start. -/
structure Part.Seen (p : Part) (node : UInt32) : Prop where
  early : (node - p.offset).toNat + 68 < p.size.toNat
  quiet : ∀ w : Nat, w ≤ 28 → w % 4 = 0 →
    ¬ (p.Ones (node + UInt32.ofNat w) ∧ p.Ones (node + UInt32.ofNat w + 4))

structure Scannable (p : Part) (fs ds : List UInt32) : Prop where
  size : 68 ≤ p.size.toNat
  seen : ∀ node ∈ fs ++ ds, p.Seen node

/-- Neither the end of the scan nor a hop over erased flash passes by a node of the log. -/
structure Unskipped (p : Part) (fs ds : List UInt32) : Prop where
  size : 68 ≤ p.size.toNat
  early : ∀ node ∈ fs ++ ds, (node - p.offset).toNat + 68 < p.size.toNat
  hops : ∀ g t, p.Enters g → p.Hops g t → ∀ node ∈ fs ++ ds,
    (node - p.offset).toNat ≤ g.toNat ∨ t.toNat < (node - p.offset).toNat

section
variable {p : Part} {o s t : Nat} {fs ds : List UInt32}

theorem Log.le (h : Log p o fs ds) : o ≤ p.size.toNat := by
  cases h with
  | stop => exact Nat.le_refl _
  | inode hn _ => exact (Nat.le_add_right ..).trans hn.fits
  | dirent hn _ => exact (Nat.le_add_right ..).trans hn.fits
  | cleanmarker hn _ => exact (Nat.le_add_right ..).trans hn.fits
  | erased ho _ _ => omega

theorem node_sub (ho : o < 2 ^ 32) : (p.node o - p.offset).toNat = o := by
  have hsub : p.node o - p.offset = UInt32.ofNat o := by
    rw [Part.node]
    grind
  rw [hsub, UInt32.toNat_ofNat_of_lt' ho]

theorem node_add (o k : Nat) : p.node o + UInt32.ofNat k = p.node (o + k) := by
  rw [Part.node, Part.node, UInt32.ofNat_add, UInt32.add_assoc]

theorem Log.behind (h : Log p o fs ds) :
    ∀ node ∈ fs ++ ds, o ≤ (node - p.offset).toNat := by
  induction h with
  | stop => exact fun node hn => absurd hn (List.not_mem_nil)
  | @inode o fs ds hn hlog ih =>
    have ho : o < 2 ^ 32 := by
      have hle := (Log.inode hn hlog).le
      have hsize := p.size.toNat_lt
      omega
    intro node hmem
    rcases List.mem_cons.mp hmem with rfl | hmem
    · rw [node_sub ho]
    · exact (Nat.le_add_right ..).trans (ih node hmem)
  | @dirent o fs ds hn hlog ih =>
    have ho : o < 2 ^ 32 := by
      have hle := (Log.dirent hn hlog).le
      have hsize := p.size.toNat_lt
      omega
    intro node hmem
    rcases List.mem_append.mp hmem with hmem | hmem
    · exact (Nat.le_add_right ..).trans (ih node (List.mem_append_left _ hmem))
    · rcases List.mem_cons.mp hmem with rfl | hmem
      · rw [node_sub ho]
      · exact (Nat.le_add_right ..).trans (ih node (List.mem_append_right _ hmem))
  | cleanmarker _ _ ih => exact fun node hmem => (Nat.le_add_right ..).trans (ih node hmem)
  | erased _ _ _ ih => exact fun node hmem => (Nat.le_add_right ..).trans (ih node hmem)

theorem not_ones_of_magic (h : p.magic (p.node o) = magicBitmask) : ¬ p.Ones (p.node o) := by
  intro hones
  rw [(empty_of_ones hones).1] at h
  exact absurd h (by decide)

theorem Log.erased_inv (h : Log p o fs ds) (ho : o < p.size.toNat) (hones : p.Ones (p.node o)) :
    Log p (o + 4) fs ds := by
  cases h with
  | stop => exact absurd ho (Nat.lt_irrefl _)
  | inode hn _ => exact absurd hones (not_ones_of_magic hn.magic)
  | dirent hn _ => exact absurd hones (not_ones_of_magic hn.magic)
  | cleanmarker hn _ => exact absurd hones (not_ones_of_magic hn.magic)
  | erased _ _ hlog => exact hlog

theorem lt_span (h : 12 ≤ (p.totlen (p.node o)).toNat) : o < o + p.span o := by
  rw [Part.span]
  omega

theorem Log.unique {fs' ds' : List UInt32} (h : Log p o fs ds) (h' : Log p o fs' ds') :
    fs' = fs ∧ ds' = ds := by
  have hinode : ∀ {o}, p.IsInode o → 12 ≤ (p.totlen (p.node o)).toNat := fun hn => by
    rw [hn.totlen]
    omega
  have hdirent : ∀ {o}, p.IsDirent o → 12 ≤ (p.totlen (p.node o)).toNat := fun hn => by
    rw [hn.totlen]
    omega
  induction h generalizing fs' ds' with
  | stop =>
    cases h' with
    | stop => exact ⟨rfl, rfl⟩
    | inode hn' _ => exact absurd hn'.fits (Nat.not_le.2 (lt_span (hinode hn')))
    | dirent hn' _ => exact absurd hn'.fits (Nat.not_le.2 (lt_span (hdirent hn')))
    | cleanmarker hn' _ => exact absurd hn'.fits (by omega)
    | erased ho' _ _ => omega
  | inode hn _ ih =>
    cases h' with
    | stop => exact absurd hn.fits (Nat.not_le.2 (lt_span (hinode hn)))
    | inode _ hlog' =>
      obtain ⟨rfl, rfl⟩ := ih hlog'
      exact ⟨rfl, rfl⟩
    | dirent hn' _ => exact absurd (hn.nodetype.symm.trans hn'.nodetype) (by decide)
    | cleanmarker hn' _ => exact absurd (hn.nodetype.symm.trans hn'.nodetype) (by decide)
    | erased _ hones' _ => exact absurd hones' (not_ones_of_magic hn.magic)
  | dirent hn _ ih =>
    cases h' with
    | stop => exact absurd hn.fits (Nat.not_le.2 (lt_span (hdirent hn)))
    | inode hn' _ => exact absurd (hn.nodetype.symm.trans hn'.nodetype) (by decide)
    | dirent _ hlog' =>
      obtain ⟨rfl, rfl⟩ := ih hlog'
      exact ⟨rfl, rfl⟩
    | cleanmarker hn' _ => exact absurd (hn.nodetype.symm.trans hn'.nodetype) (by decide)
    | erased _ hones' _ => exact absurd hones' (not_ones_of_magic hn.magic)
  | cleanmarker hn _ ih =>
    cases h' with
    | stop => exact absurd hn.fits (by omega)
    | inode hn' _ => exact absurd (hn.nodetype.symm.trans hn'.nodetype) (by decide)
    | dirent hn' _ => exact absurd (hn.nodetype.symm.trans hn'.nodetype) (by decide)
    | cleanmarker _ hlog' => exact ih hlog'
    | erased _ hones' _ => exact absurd hones' (not_ones_of_magic hn.magic)
  | erased ho hones _ ih =>
    cases h' with
    | stop => omega
    | inode hn' _ => exact absurd hones (not_ones_of_magic hn'.magic)
    | dirent hn' _ => exact absurd hones (not_ones_of_magic hn'.magic)
    | cleanmarker hn' _ => exact absurd hones (not_ones_of_magic hn'.magic)
    | erased _ _ hlog' => exact ih hlog'

/-- Two words of ones at `t`, and no node to be listed up to there. -/
theorem Log.hop (h : Log p s fs ds) (hbehind : ∀ node ∈ fs ++ ds, t < (node - p.offset).toNat)
    (hst : s ≤ t) (halign : (t - s) % 4 = 0) (ht : t < p.size.toNat)
    (hones : p.Ones (p.node t)) (hones4 : p.Ones (p.node (t + 4))) : Log p (t + 4) fs ds := by
  have hsize := p.size.toNat_lt
  induction h with
  | stop => omega
  | @inode s fs ds hn _ _ =>
    have hlt := hbehind _ (List.mem_cons_self ..)
    rw [node_sub (by omega)] at hlt
    omega
  | @dirent s fs ds hn _ _ =>
    have hlt := hbehind _ (List.mem_append_right _ (List.mem_cons_self ..))
    rw [node_sub (by omega)] at hlt
    omega
  | @cleanmarker s fs ds hn hlog ih =>
    have hfar : s + 8 ≤ t := by
      by_contra hlt
      have hcases : t = s ∨ t = s + 4 := by omega
      rcases hcases with rfl | rfl
      · exact not_ones_of_magic hn.magic hones
      · have htot : p.totlen (p.node s) = 0xffffffff := by
          refine u32_ones.mpr ?_
          have hnode : p.node s + 4 = p.node (s + 4) := node_add s 4
          rw [hnode]
          exact hones
        rw [hn.totlen] at htot
        exact absurd htot (by decide)
    rcases Nat.lt_or_ge t (s + 12) with hlt | hge
    · have heq : t + 4 = s + 12 := by omega
      rw [heq]
      exact hlog
    · exact ih hbehind hge (by omega)
  | @erased s fs ds hs hones' hlog ih =>
    rcases Nat.eq_or_lt_of_le hst with rfl | hlt
    · exact hlog
    · exact ih hbehind (by omega) (by omega)

/-! ## The scan of a log -/

theorem lt_max (hsize : 68 ≤ p.size.toNat) (ho : o < 2 ^ 32) :
    UInt32.ofNat o < p.max ↔ o + 68 < p.size.toNat := by
  rw [lt_max_iff hsize, UInt32.toNat_ofNat_of_lt' ho]

theorem blank_iff : p.Blank (UInt32.ofNat t) ↔ p.Ones (p.node t) ∧ p.Ones (p.node (t + 4)) := by
  have hnode : p.offset + UInt32.ofNat t = p.node t := rfl
  have hnode4 : p.node t + 4 = p.node (t + 4) := node_add t 4
  rw [Part.Blank, hnode, u32_ones, u32_ones, UInt32.add_zero, hnode4]

/-- `jffs2_scan_empty` does not run past a node that is to be listed. -/
theorem scanEmptyFrom_log {fuel g : Nat} (hun : Unskipped p fs ds)
    (hg : p.Enters (UInt32.ofNat g)) (hs : Log p s fs ds) (hgs : g < s) (hst : s ≤ t)
    (halign : (t - s) % 4 = 0) (ht : t < p.size.toNat)
    (hsample : p.Samples (UInt32.ofNat g) (UInt32.ofNat t)) (hfuel : p.size.toNat < t + fuel) :
    ∃ r, scanEmptyFrom p fuel (UInt32.ofNat s) (UInt32.ofNat t) = .ok (UInt32.ofNat r) ∧
      s ≤ r ∧ Log p r fs ds := by
  have hsize := p.size.toNat_lt
  induction fuel generalizing s t with
  | zero => omega
  | succ fuel ih =>
    rw [scanEmptyFrom]
    by_cases hlt : UInt32.ofNat t < p.max
    · rw [if_pos hlt]
      have hlt' := (lt_max hun.size (by omega)).mp hlt
      by_cases hblank : p.Blank (UInt32.ofNat t)
      · have hones := blank_iff.mp hblank
        have hbehind : ∀ node ∈ fs ++ ds, t < (node - p.offset).toNat := fun node hnode => by
          have hge := hs.behind node hnode
          have hhop := hun.hops _ _ hg ⟨hsample, hlt, hblank⟩ node hnode
          rw [UInt32.toNat_ofNat_of_lt' (show g < 2 ^ 32 by omega),
            UInt32.toNat_ofNat_of_lt' (show t < 2 ^ 32 by omega)] at hhop
          omega
        have h4 : UInt32.ofNat t + 4 = UInt32.ofNat (t + 4) := (UInt32.ofNat_add t 4).symm
        have h36 : UInt32.ofNat (t + 4) + 32 = UInt32.ofNat (t + 36) :=
          (UInt32.ofNat_add (t + 4) 32).symm
        have hsample' := hsample.hop hlt hblank
        rw [h4, h36] at hsample'
        obtain ⟨r, hr, hle, hlog⟩ := ih (s := t + 4) (t := t + 36)
          (hs.hop hbehind hst halign ht hones.1 hones.2) (by omega) (by omega) (by omega) (by omega)
          hsample' (by omega)
        refine ⟨r, ?_, by omega, hlog⟩
        have hcond : p.u32 (p.offset + UInt32.ofNat t) 0 = 0xffffffff ∧
            p.u32 (p.offset + UInt32.ofNat t) 4 = 0xffffffff := hblank
        rw [if_pos hcond, h4, h36, hr]
      · exact ⟨s, if_neg hblank, Nat.le_refl s, hs⟩
    · exact ⟨s, if_neg hlt, Nat.le_refl s, hs⟩

theorem scanEmpty_log {fuel : Nat} (hun : Unskipped p fs ds) (hlog : Log p o fs ds)
    (hones : p.Ones (p.node o)) (ho : o + 68 < p.size.toNat) (hg : p.Enters (UInt32.ofNat o))
    (hfuel : p.size.toNat - o ≤ fuel) :
    ∃ r, scanEmpty p fuel (UInt32.ofNat o) = .ok (UInt32.ofNat r) ∧ o < r ∧ Log p r fs ds := by
  have hnext := hlog.erased_inv (by omega) hones
  have h32 : UInt32.ofNat o + 32 = UInt32.ofNat (o + 32) := (UInt32.ofNat_add o 32).symm
  have hsample : p.Samples (UInt32.ofNat o) (UInt32.ofNat (o + 32)) := h32 ▸ .first
  obtain ⟨r, hr, hcases, hrlog⟩ :=
    @scanEmptyFrom_log p (o + 4) (o + 32) fs ds fuel o hun hg hnext
    (by omega) (by omega) (by omega) (by omega) hsample (by omega)
  refine ⟨r, ?_, by omega, hrlog⟩
  rw [← hr, scanEmpty, UInt32.ofNat_add o 4, UInt32.ofNat_add o 32]
  rfl

theorem offset_next (hfits : o + p.span o ≤ p.size.toNat) :
    UInt32.ofNat o + round4 (p.totlen (p.node o)) = UInt32.ofNat (o + p.span o) := by
  have hsize := p.size.toNat_lt
  have hround : (round4 (p.totlen (p.node o))).toNat = p.span o := by
    rw [Part.span] at hfits ⊢
    exact round4_toNat _ (by omega)
  rw [UInt32.ofNat_add, ← hround, UInt32.ofNat_toNat]

theorem turn_of_valid {fuel : Nat} (hvalid : p.Valid (UInt32.ofNat o))
    (hfits : o + p.span o ≤ p.size.toNat) :
    p.turn fuel (UInt32.ofNat o) = .ok (UInt32.ofNat (o + p.span o)) := by
  rw [Part.turn, if_pos hvalid, ← offset_next hfits]
  rfl

theorem Unskipped.of_subset {fs' ds' : List UInt32} (h : Unskipped p fs ds)
    (hsub : fs' ++ ds' ⊆ fs ++ ds) : Unskipped p fs' ds' :=
  ⟨h.size, fun node hmem => h.early node (hsub hmem),
    fun g t hg ht node hmem => h.hops g t hg ht node (hsub hmem)⟩

theorem Part.IsInode.added_eq (hn : p.IsInode o) (pl : Lists) :
    p.added (UInt32.ofNat o) pl = { pl with frags := pl.frags ++ [p.node o] } := by
  have hvalid : p.Valid (UInt32.ofNat o) := ⟨hn.magic, hn.hdrCrc⟩
  rw [Part.added, if_pos hvalid]
  exact if_pos ⟨hn.nodetype, hn.inodeCrc⟩

theorem Part.IsDirent.added_eq (hn : p.IsDirent o) (pl : Lists) :
    p.added (UInt32.ofNat o) pl = { pl with dirs := pl.dirs ++ [p.node o] } := by
  have hvalid : p.Valid (UInt32.ofNat o) := ⟨hn.magic, hn.hdrCrc⟩
  have hinode : ¬ (p.nodetype (p.node o) = nodetypeInode ∧ p.InodeCrc (p.node o)) := by
    rw [hn.nodetype]
    exact fun h => absurd h.1 (by decide)
  rw [Part.added, if_pos hvalid]
  exact (if_neg hinode).trans (if_pos ⟨hn.nodetype, hn.direntCrc, hn.nameCrc⟩)

theorem Part.IsCleanmarker.added_eq (hn : p.IsCleanmarker o) (pl : Lists) :
    p.added (UInt32.ofNat o) pl = pl := by
  have hvalid : p.Valid (UInt32.ofNat o) := ⟨hn.magic, hn.hdrCrc⟩
  have hinode : ¬ (p.nodetype (p.node o) = nodetypeInode ∧ p.InodeCrc (p.node o)) := by
    rw [hn.nodetype]
    exact fun h => absurd h.1 (by decide)
  have hdirent : ¬ (p.nodetype (p.node o) = nodetypeDirent ∧ p.DirentCrc (p.node o) ∧
      p.DirentNameCrc (p.node o)) := by
    rw [hn.nodetype]
    exact fun h => absurd h.1 (by decide)
  rw [Part.added, if_pos hvalid]
  exact (if_neg hinode).trans (if_neg hdirent)

/-- The loop of `jffs2_1pass_build_lists` from an item of the log on. -/
theorem buildListsFrom_log {malloc : Nat → Nat → Bool} (hmalloc : ∀ i j, malloc i j = true)
    {fuel : Nat} (hlog : Log p o fs ds) (hun : Unskipped p fs ds)
    (hreach : p.Reached (UInt32.ofNat o)) (hfuel : p.size.toNat - o < fuel) (pl : Lists) :
    buildListsFrom p malloc fuel (UInt32.ofNat o) pl =
      .ok { pl with frags := pl.frags ++ fs, dirs := pl.dirs ++ ds } := by
  have hsize := p.size.toNat_lt
  induction fuel generalizing o fs ds pl with
  | zero => omega
  | succ fuel ih =>
    have hle := hlog.le
    by_cases hlt : UInt32.ofNat o < p.max
    · rw [buildListsFrom_succ hmalloc hlt]
      have hlt' := (lt_max hun.size (by omega)).mp hlt
      cases hlog with
      | stop => omega
      | inode hn hnext =>
        have hspan : 68 ≤ p.span o := by
          rw [Part.span, hn.totlen]
          omega
        have hturn := @turn_of_valid p o fuel ⟨hn.magic, hn.hdrCrc⟩ hn.fits
        have hrest := ih hnext (hun.of_subset (List.subset_cons_self ..))
          (hreach.tail ⟨hlt, fuel, hturn⟩) (by omega) { pl with frags := pl.frags ++ [p.node o] }
        rw [hturn, hn.added_eq]
        exact hrest.trans (by simp only [List.append_assoc, List.singleton_append])
      | @dirent _ _ ds hn hnext =>
        have hspan : 40 ≤ p.span o := by
          rw [Part.span, hn.totlen]
          omega
        have hturn := @turn_of_valid p o fuel ⟨hn.magic, hn.hdrCrc⟩ hn.fits
        have hsub : fs ++ ds ⊆ fs ++ p.node o :: ds :=
          List.append_subset.mpr ⟨List.subset_append_left .., fun node hmem =>
            List.mem_append_right _ (List.mem_cons_of_mem _ hmem)⟩
        have hrest := ih hnext (hun.of_subset hsub) (hreach.tail ⟨hlt, fuel, hturn⟩) (by omega)
          { pl with dirs := pl.dirs ++ [p.node o] }
        rw [hturn, hn.added_eq]
        exact hrest.trans (by simp only [List.append_assoc, List.singleton_append])
      | cleanmarker hn hnext =>
        have hspan : p.span o = 12 := by
          rw [Part.span, hn.totlen]
          decide
        have hturn := @turn_of_valid p o fuel ⟨hn.magic, hn.hdrCrc⟩ (by rw [hspan]; exact hn.fits)
        rw [hspan] at hturn
        rw [hturn, hn.added_eq]
        exact ih hnext hun (hreach.tail ⟨hlt, fuel, hturn⟩) (by omega) pl
      | erased _ hones hnext =>
        obtain ⟨hmagic, hnodetype⟩ := empty_of_ones hones
        have hvalid : ¬ p.Valid (UInt32.ofNat o) := fun h => by
          have hmagic' : p.magic (p.node o) = magicBitmask := h.1
          rw [hmagic] at hmagic'
          exact absurd hmagic' (by decide)
        have hempty : p.Empty (UInt32.ofNat o) := ⟨hmagic, hnodetype⟩
        obtain ⟨r, hr, hor, hrlog⟩ := @scanEmpty_log p o fs ds fuel hun
          (.erased (by omega) hones hnext) hones hlt' ⟨hreach, hlt, hvalid, hempty⟩ (by omega)
        have hturn : p.turn fuel (UInt32.ofNat o) = .ok (UInt32.ofNat r) := by
          rw [Part.turn, if_neg hvalid, if_pos hempty, hr]
        have hadded : p.added (UInt32.ofNat o) pl = pl := if_neg hvalid
        rw [hturn, hadded]
        exact ih hrlog hun (hreach.tail ⟨hlt, fuel, hturn⟩) (by omega) pl
    · rw [buildListsFrom_of_not_lt hlt]
      rw [lt_max hun.size (by omega)] at hlt
      have hnil : fs ++ ds = [] := by
        refine List.eq_nil_iff_forall_not_mem.mpr fun node hmem => ?_
        have hbehind := hlog.behind node hmem
        have hearly := hun.early node hmem
        omega
      obtain ⟨rfl, rfl⟩ := List.append_eq_nil_iff.mp hnil
      rw [List.append_nil, List.append_nil]

/-- **Every node is listed that the scan does not pass by**, in the order in which they lie on the
flash. -/
theorem buildLists_of_unskipped {malloc : Nat → Nat → Bool} (hmalloc : ∀ i j, malloc i j = true)
    {fuel : Nat} (hlog : Log p 0 fs ds) (hun : Unskipped p fs ds) (hfuel : p.size.toNat < fuel) :
    buildLists p malloc fuel = .ok ⟨fs, ds, p.offset⟩ :=
  buildListsFrom_log hmalloc hlog hun .refl (by omega) ⟨[], [], p.offset⟩

/-! ## Scannable logs -/

theorem toNat_mod_four {x y : UInt32} (hx : x.toNat % 4 = 0) (hy : y.toNat % 4 = 0) :
    (x + y).toNat % 4 = 0 := by
  rw [UInt32.toNat_add]
  omega

theorem round4_mod_four (x : UInt32) : (round4 x).toNat % 4 = 0 := by
  have hmask : ∀ y : UInt32, (y &&& ~~~3) &&& 3 = 0 := fun y => by
    rw [UInt32.and_assoc]
    exact UInt32.and_zero
  have hand := congrArg UInt32.toNat (hmask (x + 3))
  rw [UInt32.toNat_and] at hand
  exact (Nat.and_two_pow_sub_one_eq_mod _ 2).symm.trans hand

theorem scanEmptyFrom_mod_four {fuel : Nat} {s t r : UInt32} (hs : s.toNat % 4 = 0)
    (ht : t.toNat % 4 = 0) (h : scanEmptyFrom p fuel s t = .ok r) : r.toNat % 4 = 0 := by
  induction fuel generalizing s t with
  | zero => cases h
  | succ fuel ih =>
    rw [scanEmptyFrom] at h
    split_ifs at h
    · exact ih (toNat_mod_four ht rfl) (toNat_mod_four (toNat_mod_four ht rfl) rfl) h
    · cases h
      exact hs
    · cases h
      exact hs

theorem samples_mod_four {g x : UInt32} (hg : g.toNat % 4 = 0) (h : p.Samples g x) :
    x.toNat % 4 = 0 := by
  induction h with
  | first => exact toNat_mod_four hg rfl
  | hop _ _ _ ih => exact toNat_mod_four (toNat_mod_four ih rfl) rfl

theorem reached_mod_four {o : UInt32} (h : p.Reached o) : o.toNat % 4 = 0 := by
  induction h with
  | refl => rfl
  | @tail o o' _ hstep ih =>
    obtain ⟨_, fuel, hturn⟩ := hstep
    rw [Part.turn] at hturn
    split_ifs at hturn
    · cases hturn
      exact toNat_mod_four ih (round4_mod_four _)
    · exact scanEmptyFrom_mod_four (toNat_mod_four ih rfl) (toNat_mod_four ih rfl) hturn
    · cases hturn
      exact toNat_mod_four ih rfl

/-- The nodes of a log that starts on a word do so too, and have the magic number. -/
theorem Log.node_start (h : Log p o fs ds) (ho : o % 4 = 0) : ∀ node ∈ fs ++ ds,
    ∃ k, node = p.node k ∧ k % 4 = 0 ∧ k < 2 ^ 32 ∧ p.magic (p.node k) = magicBitmask := by
  have hspan : ∀ k, p.span k % 4 = 0 := fun k => by rw [Part.span]; omega
  have hsize := p.size.toNat_lt
  induction h with
  | stop => exact fun node hn => absurd hn (List.not_mem_nil)
  | @inode o fs ds hn hlog ih =>
    have hle := (Log.inode hn hlog).le
    have hk := hspan o
    intro node hmem
    rcases List.mem_cons.mp hmem with rfl | hmem
    · exact ⟨o, rfl, ho, by omega, hn.magic⟩
    · exact ih (by omega) node hmem
  | @dirent o fs ds hn hlog ih =>
    have hle := (Log.dirent hn hlog).le
    have hk := hspan o
    intro node hmem
    rcases List.mem_append.mp hmem with hmem | hmem
    · exact ih (by omega) node (List.mem_append_left _ hmem)
    · rcases List.mem_cons.mp hmem with rfl | hmem
      · exact ⟨o, rfl, ho, by omega, hn.magic⟩
      · exact ih (by omega) node (List.mem_append_right _ hmem)
  | cleanmarker _ _ ih => exact ih (by omega)
  | erased _ _ _ ih => exact ih (by omega)

/-- Two words of ones at `t`, not far behind a node: it can be missed. -/
theorem not_seen (hst : s ≤ t) (hnear : t ≤ s + 28) (halign : (t - s) % 4 = 0)
    (hones : p.Ones (p.node t)) (hones4 : p.Ones (p.node (t + 4))) : ¬ p.Seen (p.node s) := by
  rintro ⟨-, hquiet⟩
  have hw : s + (t - s) = t := by omega
  have hnode : p.node s + UInt32.ofNat (t - s) = p.node t := by rw [node_add, hw]
  have hnode4 : p.node t + 4 = p.node (t + 4) := node_add t 4
  refine hquiet (t - s) (by omega) halign ?_
  rw [hnode, hnode4]
  exact ⟨hones, hones4⟩

/-- What `jffs2_scan_empty` hops over has no node that can be seen. -/
theorem Scannable.hops (hscan : Scannable p fs ds) (hlog : Log p 0 fs ds) {g x : UInt32}
    (hg : g.toNat % 4 = 0) (hgmax : g < p.max) (hx : p.Samples g x) (hxmax : x < p.max)
    (hblank : p.Blank x) : ∀ node ∈ fs ++ ds,
      (node - p.offset).toNat ≤ g.toNat ∨ x.toNat < (node - p.offset).toNat := by
  have hsize := p.size.toNat_lt
  have hones : ∀ {x : UInt32}, p.Blank x →
      p.Ones (p.node x.toNat) ∧ p.Ones (p.node (x.toNat + 4)) := fun {x} hblank =>
    blank_iff.mp (by rwa [UInt32.ofNat_toNat])
  intro node hnode
  obtain ⟨k, rfl, hk, hk32, hmagic⟩ := hlog.node_start rfl node hnode
  rw [node_sub hk32]
  induction hx with
  | first =>
    rw [lt_max_iff hscan.size] at hgmax
    have h32 : (g + 32).toNat = g.toNat + 32 := toNat_add_ofNat (k := 32) (by omega)
    obtain ⟨h0, h4⟩ := hones hblank
    by_contra hnot
    exact not_seen (t := (g + 32).toNat) (by omega) (by omega) (by omega) h0 h4
      (hscan.seen _ hnode)
  | @hop x hx hxmax' hblank' ih =>
    have hx4 := (lt_max_iff hscan.size).mp hxmax'
    have hadd4 : (x + 4).toNat = x.toNat + 4 := toNat_add_ofNat (k := 4) (by omega)
    have hadd36 : (x + 4 + 32).toNat = (x + 4).toNat + 32 := toNat_add_ofNat (k := 32) (by omega)
    obtain ⟨h0, h4⟩ := hones hblank
    obtain ⟨-, h4'⟩ := hones hblank'
    have hxmod := samples_mod_four hg hx
    rcases ih hxmax' hblank' with hle | hlt
    · exact .inl hle
    · by_contra hnot
      have hne : k ≠ x.toNat + 4 := fun heq =>
        not_ones_of_magic hmagic (by rw [heq]; exact h4')
      exact not_seen (t := (x + 4 + 32).toNat) (by omega) (by omega) (by omega) h0 h4
        (hscan.seen _ hnode)

theorem Scannable.unskipped (hscan : Scannable p fs ds) (hlog : Log p 0 fs ds) :
    Unskipped p fs ds where
  size := hscan.size
  early node hnode := (hscan.seen node hnode).early
  hops _ _ hg ht := hscan.hops hlog (reached_mod_four hg.reached) hg.lt_max ht.samples ht.lt_max
    ht.blank

/-- **Every node is listed**, in the order in which they lie on the flash. -/
theorem buildLists_log {malloc : Nat → Nat → Bool} (hmalloc : ∀ i j, malloc i j = true)
    {fuel : Nat} (hlog : Log p 0 fs ds) (hscan : Scannable p fs ds) (hfuel : p.size.toNat < fuel) :
    buildLists p malloc fuel = .ok ⟨fs, ds, p.offset⟩ :=
  buildLists_of_unskipped hmalloc hlog (hscan.unskipped hlog) hfuel

/-- The lists of the log, made now or, where `jffs2_1pass_rescan_needed` lets them pass, before. -/
theorem getList_log {malloc : Nat → Nat → Bool} (hmalloc : ∀ i j, malloc i j = true)
    {fuel : Nat} (hlog : Log p 0 fs ds) (hscan : Scannable p fs ds) (hfuel : p.size.toNat < fuel)
    {priv : Option Lists}
    (hpriv : ∀ pl ∈ priv, ¬ RescanNeeded p (some pl) → pl = ⟨fs, ds, p.offset⟩) :
    getList p malloc fuel priv = .ok ⟨fs, ds, p.offset⟩ := by
  have hbuild := buildLists_log hmalloc hlog hscan hfuel
  cases priv with
  | none =>
    have hneeded : RescanNeeded p none := trivial
    rw [getList, if_pos hneeded, hbuild]
  | some pl =>
    rw [getList, hbuild]
    split_ifs with hneeded
    · rfl
    · rw [hpriv pl rfl hneeded]

theorem Log.data_le (h : Log p o fs ds) :
    o + (fs.map fun node => (p.inodeAt node).csize.toNat).sum ≤ p.size.toNat := by
  induction h with
  | stop => simp
  | @inode o fs ds hn _ ih =>
    have hspan : (p.inodeAt (p.node o)).csize.toNat ≤ p.span o := by
      rw [Part.span, hn.totlen]
      omega
    rw [List.map_cons, List.sum_cons]
    omega
  | dirent _ _ ih => omega
  | cleanmarker _ _ ih => omega
  | erased _ _ _ ih => omega

end

/-! ## Logs that are computed -/

section
variable (p : Part) (o : Nat)

instance : Decidable (p.IsInode o) :=
  decidable_of_iff (p.magic (p.node o) = magicBitmask ∧ p.HdrCrc (p.node o) ∧
      p.nodetype (p.node o) = nodetypeInode ∧ p.InodeCrc (p.node o) ∧
      (p.totlen (p.node o)).toNat = 68 + (p.inodeAt (p.node o)).csize.toNat ∧
      o + p.span o ≤ p.size.toNat)
    ⟨fun ⟨h1, h2, h3, h4, h5, h6⟩ => ⟨h1, h2, h3, h4, h5, h6⟩,
      fun ⟨h1, h2, h3, h4, h5, h6⟩ => ⟨h1, h2, h3, h4, h5, h6⟩⟩

instance : Decidable (p.IsDirent o) :=
  decidable_of_iff (p.magic (p.node o) = magicBitmask ∧ p.HdrCrc (p.node o) ∧
      p.nodetype (p.node o) = nodetypeDirent ∧ p.DirentCrc (p.node o) ∧
      p.DirentNameCrc (p.node o) ∧
      (p.totlen (p.node o)).toNat = 40 + (p.nsize (p.node o)).toNat ∧
      o + p.span o ≤ p.size.toNat)
    ⟨fun ⟨h1, h2, h3, h4, h5, h6, h7⟩ => ⟨h1, h2, h3, h4, h5, h6, h7⟩,
      fun ⟨h1, h2, h3, h4, h5, h6, h7⟩ => ⟨h1, h2, h3, h4, h5, h6, h7⟩⟩

instance : Decidable (p.IsCleanmarker o) :=
  decidable_of_iff (p.magic (p.node o) = magicBitmask ∧ p.HdrCrc (p.node o) ∧
      p.nodetype (p.node o) = nodetypeCleanmarker ∧ p.totlen (p.node o) = 12 ∧
      o + 12 ≤ p.size.toNat)
    ⟨fun ⟨h1, h2, h3, h4, h5⟩ => ⟨h1, h2, h3, h4, h5⟩,
      fun ⟨h1, h2, h3, h4, h5⟩ => ⟨h1, h2, h3, h4, h5⟩⟩

instance (a : UInt32) : Decidable (p.Ones a) :=
  inferInstanceAs (Decidable (∀ i < 4, p.mem (a + UInt32.ofNat i) = 0xff))

instance (a : UInt32) : Decidable (p.Seen a) :=
  decidable_of_iff ((a - p.offset).toNat + 68 < p.size.toNat ∧ ∀ w : Nat, w ≤ 28 → w % 4 = 0 →
      ¬ (p.Ones (a + UInt32.ofNat w) ∧ p.Ones (a + UInt32.ofNat w + 4)))
    ⟨fun ⟨h1, h2⟩ => ⟨h1, h2⟩, fun ⟨h1, h2⟩ => ⟨h1, h2⟩⟩

instance (fs ds : List UInt32) : Decidable (Scannable p fs ds) :=
  have : Decidable (∀ node ∈ fs ++ ds, p.Seen node) := List.decidableBAll _ _
  decidable_of_iff (68 ≤ p.size.toNat ∧ ∀ node ∈ fs ++ ds, p.Seen node)
    ⟨fun ⟨h1, h2⟩ => ⟨h1, h2⟩, fun ⟨h1, h2⟩ => ⟨h1, h2⟩⟩

end

/-- The log from `o` on, if there is one; `fuel` bounds the number of its items. -/
def readLog (p : Part) : Nat → Nat → Option (List UInt32 × List UInt32)
  | 0, _ => none
  | fuel + 1, o =>
    if o = p.size.toNat then some ([], [])
    else if p.IsInode o then
      (readLog p fuel (o + p.span o)).map fun (fs, ds) => (p.node o :: fs, ds)
    else if p.IsDirent o then
      (readLog p fuel (o + p.span o)).map fun (fs, ds) => (fs, p.node o :: ds)
    else if p.IsCleanmarker o then readLog p fuel (o + 12)
    else if o + 4 ≤ p.size.toNat ∧ p.Ones (p.node o) then readLog p fuel (o + 4)
    else none

theorem readLog_sound {p : Part} {fuel o : Nat} {fs ds : List UInt32}
    (h : readLog p fuel o = some (fs, ds)) : Log p o fs ds := by
  induction fuel generalizing o fs ds with
  | zero => cases h
  | succ fuel ih =>
    rw [readLog] at h
    split_ifs at h with hstop hinode hdirent hclean hones
    · cases h
      rw [hstop]
      exact .stop
    · obtain ⟨⟨fs', ds'⟩, hrest, heq⟩ := Option.map_eq_some_iff.mp h
      cases heq
      exact .inode hinode (ih hrest)
    · obtain ⟨⟨fs', ds'⟩, hrest, heq⟩ := Option.map_eq_some_iff.mp h
      cases heq
      exact .dirent hdirent (ih hrest)
    · exact .cleanmarker hclean (ih h)
    · exact .erased hones.1 hones.2 (ih h)

def headerBytes (nodetype : UInt32) (totlen : Nat) : List UInt8 :=
  let raw := (beBytes magicBitmask).drop 2 ++ (beBytes nodetype).drop 2 ++
    beBytes (UInt32.ofNat totlen)
  raw ++ beBytes (crc32NoComp 0 raw)

def padBytes (bytes : List UInt8) : List UInt8 :=
  bytes ++ List.replicate ((4 - bytes.length % 4) % 4) 0

def direntBytes (pino version ino : UInt32) (type : UInt8) (name : List UInt8) : List UInt8 :=
  let raw := headerBytes nodetypeDirent (40 + name.length) ++ beBytes pino ++ beBytes version ++
    beBytes ino ++ beBytes 0 ++ [UInt8.ofNat name.length, type, 0, 0]
  padBytes (raw ++ beBytes (crc32NoComp 0 raw) ++ beBytes (crc32NoComp 0 name) ++ name)

def inodeBytes (ino version isize offset : UInt32) (data : List UInt8) : List UInt8 :=
  let raw := headerBytes nodetypeInode (68 + data.length) ++ beBytes ino ++ beBytes version ++
    beBytes 0 ++ beBytes 0 ++ beBytes isize ++ beBytes 0 ++ beBytes 0 ++ beBytes 0 ++
    beBytes offset ++ beBytes (UInt32.ofNat data.length) ++ beBytes (UInt32.ofNat data.length) ++
    [comprNone, comprNone, 0, 0]
  padBytes (raw ++ beBytes (crc32NoComp 0 data) ++ beBytes (crc32NoComp 0 raw) ++ data)

/-- A flash at address 0 with these nodes, and `erased` words behind them. -/
def samplePart (nodes : List (List UInt8)) (erased : Nat) : Part where
  cpu := .big
  mem := Mem32.store (fun _ => 0xff) 0 nodes.flatten
  offset := 0
  size := UInt32.ofNat (nodes.flatten.length + 4 * erased)

/-- Byte `a` of a dump with 16 bytes in a row. -/
def dumpByte (rows : List Nat) (a : Nat) : UInt8 :=
  UInt8.ofNat (rows.getD (a / 16) 0 >>> (8 * (15 - a % 16)))

/-- The flash with the dump of its nodes, in which a byte is found faster. -/
theorem samplePart_dump {nodes : List (List UInt8)} {rows : List Nat} {len : Nat}
    (h : nodes.flatten = (List.range len).map (dumpByte rows)) (erased : Nat) :
    samplePart nodes erased =
      ⟨.big, fun a => if a.toNat < len then dumpByte rows a.toNat else 0xff, 0,
        UInt32.ofNat (len + 4 * erased)⟩ := by
  have hmem : Mem32.store (fun _ => 0xff) 0 nodes.flatten =
      fun a => if a.toNat < len then dumpByte rows a.toNat else 0xff := by
    funext a
    rw [Mem32.store, h, UInt32.sub_zero, List.getElem?_map]
    by_cases ha : a.toNat < len
    · rw [List.getElem?_range ha, if_pos ha]
      rfl
    · rw [List.getElem?_eq_none (by rw [List.length_range]; omega), if_neg ha]
      rfl
  rw [samplePart, hmem, h, List.length_map, List.length_range]

end UBoot.Jffs2
