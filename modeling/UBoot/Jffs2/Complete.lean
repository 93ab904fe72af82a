import UBoot.Jffs2.Log

/-!
# Does the scan end, and does it find everything?

`Scans` is what is asked of the scan of a partition: it ends, looks at nothing outside, and lists
the nodes of a well-formed log. Where the partition has room for a raw inode and no length that the
scan meets makes the offset wrap, this is so exactly where it meets no length of 0 and passes by no
node (`scans_iff`).
-/

namespace UBoot.Jffs2

open UBoot.Lib UBoot.Env

section
variable (p : Part)

/-- An offset that `jffs2_1pass_build_lists` looks at, or `jffs2_scan_empty` for it. -/
def Part.Looks (o : UInt32) : Prop :=
  o < p.max ∧ (p.Reached o ∨ ∃ g, p.Enters g ∧ p.Samples g o)

/-- A log whose nodes have no magic number inside. -/
structure WellFormed (fs ds : List UInt32) : Prop where
  log : Log p 0 fs ds
  noMagic : ∀ o, p.node o ∈ fs ++ ds → ∀ w, 0 < w → w < p.span o → w % 4 = 0 →
    p.magic (p.node (o + w)) ≠ magicBitmask

/-- What is asked of the scan, with memory for all nodes. -/
structure Scans : Prop where
  ends : ∃ fuel pl, buildLists p (fun _ _ => true) fuel = .ok pl
  scanEmptyEnds : ∀ g, g < p.max → ∃ fuel r, scanEmpty p fuel g = .ok r
  inside : ∀ o, p.Looks o → o.toNat + 68 ≤ p.size.toNat
  complete : ∀ fs ds, WellFormed p fs ds → ∀ fuel pl,
    buildLists p (fun _ _ => true) fuel = .ok pl → pl = ⟨fs, ds, p.offset⟩

end

section
variable {p : Part} {fuel fuel' : ℕ} {o : UInt32} {pl pl' pl'' : Lists} {fs ds : List UInt32}

/-- More fuel does not change where the scan ends. -/
theorem buildListsFrom_unique (h : buildListsFrom p (fun _ _ => true) fuel o pl = .ok pl')
    (h' : buildListsFrom p (fun _ _ => true) fuel' o pl = .ok pl'') : pl' = pl'' := by
  induction fuel generalizing fuel' o pl with
  | zero => cases h
  | succ fuel ih =>
    cases fuel' with
    | zero => cases h'
    | succ fuel' =>
      by_cases hlt : o < p.max
      · rw [buildListsFrom_succ (fun _ _ => rfl) hlt] at h h'
        obtain ⟨a, hturn, hrest⟩ := bind_eq_ok.mp h
        obtain ⟨b, hturn', hrest'⟩ := bind_eq_ok.mp h'
        rw [step_rightUnique ⟨hlt, fuel', hturn'⟩ ⟨hlt, fuel, hturn⟩] at hrest'
        exact ih hrest hrest'
      · rw [buildListsFrom_of_not_lt hlt] at h h'
        exact Except.ok.inj (h.symm.trans h')

/-- What has been passed by is not in the lists. -/
theorem unskipped_of_listed (hsize : 68 ≤ p.size.toNat) (hwrap : p.NoWrap) (hstall : p.NoStall)
    (hrun : buildLists p (fun _ _ => true) fuel = .ok ⟨fs, ds, p.offset⟩) :
    Unskipped p fs ds := by
  have hlisted : ∀ node ∈ fs ++ ds, ∃ o, p.Reached o ∧ o < p.max ∧ node - p.offset = o := by
    intro node hnode
    rcases reached_of_listed .refl hrun hnode with hnil | ⟨o, ho, hlt, rfl⟩
    · exact absurd hnil List.not_mem_nil
    · refine ⟨o, ho, hlt, ?_⟩
      rw [UInt32.add_comm, UInt32.add_sub_cancel]
  refine ⟨hsize, fun node hnode => ?_, fun g t hg ht node hnode => ?_⟩
  · obtain ⟨o, -, hlt, heq⟩ := hlisted node hnode
    rw [heq]
    exact (lt_max_iff hsize).mp hlt
  · obtain ⟨o, ho, -, heq⟩ := hlisted node hnode
    obtain ⟨r, hr, -⟩ := scanEmpty_ends hsize hg.lt_max (Nat.sub_le p.size.toNat g.toNat)
    have hstep : p.Step g r :=
      ⟨hg.lt_max, p.size.toNat, by rw [Part.turn, if_neg hg.not_valid, if_pos hg.empty, hr]⟩
    have htr := lt_of_hops hsize ht hr
    rw [heq]
    by_contra hbetween
    have hr' := not_reached_between hsize hwrap hstall hg.reached hstep ho (by omega)
    omega

end

/-- **The scan of a partition** ends and finds everything exactly where it gets to no node of
length 0 and passes by no node of the log. -/
theorem scans_iff (p : Part) (hsize : 68 ≤ p.size.toNat) (hwrap : p.NoWrap) :
    Scans p ↔ p.NoStall ∧ ∀ fs ds, WellFormed p fs ds → Unskipped p fs ds := by
  constructor
  · intro h
    have hstall := (ends_iff hsize hwrap).mp h.ends
    obtain ⟨fuel, pl, hrun⟩ := h.ends
    refine ⟨hstall, fun fs ds hlog => ?_⟩
    have hpl := h.complete fs ds hlog fuel pl hrun
    exact unskipped_of_listed hsize hwrap hstall (hpl ▸ hrun)
  · rintro ⟨hstall, hun⟩
    refine ⟨(ends_iff hsize hwrap).mpr hstall, fun g hg => ?_, fun o ho => ?_,
      fun fs ds hlog fuel pl hrun => ?_⟩
    · obtain ⟨r, hr, -⟩ := scanEmpty_ends hsize hg (Nat.sub_le p.size.toNat g.toNat)
      exact ⟨_, r, hr⟩
    · exact ((lt_max_iff hsize).mp ho.1).le
    · exact buildListsFrom_unique hrun (buildLists_of_unskipped (fun _ _ => rfl) hlog.log
        (hun fs ds hlog) (Nat.lt_succ_self _))

theorem noWrap_noStall {p : Part} (n : ℕ) (hn : p.max.toNat ≤ 4 * n)
    (h : ∀ i < n, p.Valid (UInt32.ofNat (4 * i)) →
      p.len (UInt32.ofNat (4 * i)) ≠ 0 ∧ 4 * i + (p.len (UInt32.ofNat (4 * i))).toNat < 2 ^ 32) :
    p.NoWrap ∧ p.NoStall := by
  have hall : ∀ o, p.Reached o → o < p.max → p.Valid o →
      p.len o ≠ 0 ∧ o.toNat + (p.len o).toNat < 2 ^ 32 := fun o ho hlt hvalid => by
    have hmod := reached_mod_four ho
    have hlt := UInt32.lt_iff_toNat_lt.1 hlt
    have hword : 4 * (o.toNat / 4) = o.toNat := by omega
    have hi := h (o.toNat / 4) (by omega)
    rw [hword, UInt32.ofNat_toNat] at hi
    exact hi hvalid
  exact ⟨fun o ho hlt hvalid => (hall o ho hlt hvalid).2,
    fun o ho hlt hvalid => (hall o ho hlt hvalid).1⟩

/-- A directory entry, erased flash and the node of the file, with erased flash behind it. -/
def gapPart : Part :=
  samplePart [direntBytes 1 1 2 8 [97], List.replicate 48 0xff, inodeBytes 2 1 1 0 [98]] 20

set_option maxRecDepth 20000 in
theorem gapPart_dump :
    [direntBytes 1 1 2 8 [97], List.replicate 48 0xff, inodeBytes 2 1 1 0 [98]].flatten =
    (List.range 164).map (dumpByte
    [0x1985e00100000029d04c450b00000001, 0x00000001000000020000000001080000,
     0xba8f4bf03ab551ce61000000ffffffff, 0xffffffffffffffffffffffffffffffff,
     0xffffffffffffffffffffffffffffffff, 0xffffffffffffffffffffffff1985e002,
     0x00000045d3e812a80000000200000001, 0x00000000000000000000000100000000,
     0x00000000000000000000000000000001, 0x0000000100000000a3bc0074190ddb36,
     0x62000000000000000000000000000000]) := by
  decide

set_option maxRecDepth 20000 in
theorem gapPart_read : readLog gapPart 40 0 = some ([92], [0]) ∧ Scannable gapPart [92] [0] ∧
    gapPart.max.toNat ≤ 4 * 44 := by
  rw [gapPart, samplePart_dump gapPart_dump]
  decide

set_option maxRecDepth 20000 in
theorem gapPart_headers : ∀ i < 44, gapPart.Valid (UInt32.ofNat (4 * i)) →
    gapPart.len (UInt32.ofNat (4 * i)) ≠ 0 ∧
      4 * i + (gapPart.len (UInt32.ofNat (4 * i))).toNat < 2 ^ 32 := by
  rw [gapPart, samplePart_dump gapPart_dump]
  decide

set_option maxRecDepth 20000 in
theorem gapPart_magic : ∀ node ∈ [92, 0], ((gapPart.totlen node).toNat + 3) / 4 * 4 ≤ 4 * 18 ∧
    ∀ i < 18, 0 < i → 4 * i < ((gapPart.totlen node).toNat + 3) / 4 * 4 →
      gapPart.magic (node + UInt32.ofNat (4 * i)) ≠ magicBitmask := by
  rw [gapPart, samplePart_dump gapPart_dump]
  refine List.forall_mem_cons.mpr ⟨⟨by decide, by decide⟩, List.forall_mem_singleton.mpr
    ⟨by decide, by decide⟩⟩

theorem gapPart_wellFormed : WellFormed gapPart [92] [0] where
  log := readLog_sound gapPart_read.1
  noMagic o ho w hpos hw hmod := by
    obtain ⟨hspan, hmagic⟩ := gapPart_magic _ ho
    have hword : 4 * (w / 4) = w := by omega
    rw [Part.span] at hw
    have hi := hmagic (w / 4) (by omega) (by omega) (by omega)
    rwa [hword, node_add] at hi

/-- The scan finds the entry and, behind the gap, the node. -/
theorem scans_iff_gap : Scans gapPart ∧ WellFormed gapPart [92] [0] := by
  obtain ⟨hread, hscan, hmax⟩ := gapPart_read
  obtain ⟨hwrap, hstall⟩ := noWrap_noStall 44 hmax gapPart_headers
  have hlog : Log gapPart 0 [92] [0] := readLog_sound hread
  refine ⟨(scans_iff gapPart hscan.size hwrap).mpr ⟨hstall, fun fs ds h => ?_⟩, gapPart_wellFormed⟩
  obtain ⟨rfl, rfl⟩ := hlog.unique h.log
  exact hscan.unskipped hlog

/-- A clean marker whose length is 0, and erased flash. -/
def stalledPart : Part :=
  samplePart [[0x19, 0x85, 0x20, 0x03, 0, 0, 0, 0, 249, 214, 144, 179]] 29

/-- The scan does not get past the clean marker. -/
theorem stalled_not_scans : ¬ Scans stalledPart ∧
    ∀ fuel pl, buildLists stalledPart (fun _ _ => true) fuel ≠ .ok pl := by
  obtain ⟨hlt, hvalid, hlen⟩ :
      0 < stalledPart.max ∧ stalledPart.Valid 0 ∧ stalledPart.len 0 = 0 := by decide +kernel
  have hnever : ∀ fuel pl, buildLists stalledPart (fun _ _ => true) fuel ≠ .ok pl :=
    fun fuel pl => not_ends_of_len_zero hlt hvalid hlen
  refine ⟨fun h => ?_, hnever⟩
  obtain ⟨fuel, pl, hrun⟩ := h.ends
  exact hnever fuel pl hrun

end UBoot.Jffs2
