import UBoot.Jffs2.Path
import UBoot.Lib.Blocks

/-!
# Loading a file (`jffs2_1pass_read_inode`, `jffs2_1pass_load`)

The loader copies the nodes of an inode in the order in which they lie on the flash, and adds up
their sizes: a later node goes over an earlier one whatever their versions are, and what it
returns is the sum. It stops when it takes the length of the file for reached, and `visits` is the
nodes that it gets to. `contents` is the file: each byte from the newest node that has it.

`load_exact` says when the file is loaded: the nodes that are visited have to make it up, each
byte of it in one of them, and the newest.
-/

namespace UBoot.Jffs2

open UBoot.Lib

/-! ## The functions of the loader -/

/-- The local variables of `jffs2_1pass_read_inode`. -/
structure Progress where
  size : UInt32
  totalSize : UInt32
  oldTotalSize : UInt32
  totalSizeSet : Bool

def Progress.start : Progress := ⟨0, 1, 0, false⟩

def Progress.next (s : Progress) (n : Inode) : Progress :=
  -- two isizes in a row that are the same are taken for the length of the file
  let s := if n.isize = s.oldTotalSize ∧ s.totalSize < n.isize then
      { s with totalSize := n.isize, totalSizeSet := true }
    else if !s.totalSizeSet then { s with totalSize := s.size + n.dsize + 1 } else s
  { s with oldTotalSize := n.isize, size := s.size + n.dsize }

/-- What is written for a node, unless its compression is unknown. `unpack` is the decompression by
the methods `JFFS2_COMPR_RTIME`, `JFFS2_COMPR_DYNRUBIN` and `JFFS2_COMPR_ZLIB`. -/
def nodeData (unpack : UInt8 → List UInt8 → ℕ → List UInt8) (m : Mem32) (n : Inode) :
    Option (List UInt8) :=
  if n.compr = comprNone then some (m.read n.src n.dsize.toNat)
  else if n.compr = comprZero then some (List.replicate n.dsize.toNat 0)
  else if n.compr = 2 ∨ n.compr = 5 ∨ n.compr = 6 then
    some (unpack n.compr (m.read n.src n.csize.toNat) n.dsize.toNat)
  else none

/-- The loop of `jffs2_1pass_read_inode`, with the memory that it writes to. -/
def readFrags (unpack : UInt8 → List UInt8 → ℕ → List UInt8) (m : Mem32) (ino dest : UInt32) :
    List Inode → Progress → Mem32 → UInt32 × Mem32
  | [], s, ram => (s.size, ram)
  | n :: frags, s, ram =>
    if s.size < s.totalSize then
      if n.ino = ino then
        if dest ≠ 0 then
          match nodeData unpack m n with
          | some data => readFrags unpack m ino dest frags (s.next n)
              (ram.store (dest + n.offset) data)
          | none => (0xffffffff, ram)
        else readFrags unpack m ino dest frags (s.next n) ram
      else readFrags unpack m ino dest frags s ram
    else (s.size, ram)

/-- `jffs2_1pass_read_inode` -/
def readInode (unpack : UInt8 → List UInt8 → ℕ → List UInt8) (m : Mem32) (frags : List Inode)
    (ino dest : UInt32) (ram : Mem32) : UInt32 × Mem32 :=
  readFrags unpack m ino dest frags .start ram

/-- `jffs2_1pass_load`: the length, 0 for a failure, and the memory. -/
def load (p : Part) (malloc : Nat → Nat → Bool) (fuel : Nat) (priv : Option Lists)
    (unpack : UInt8 → List UInt8 → ℕ → List UInt8) (dest : UInt32) (fname : CStr) (ram : Mem32) :
    Except Stop (UInt32 × Mem32) :=
  match locate p malloc fuel priv fname with
  | .error e => .error e
  | .ok none => .ok (0, ram)
  | .ok (some (pl, ino)) =>
    let r := readInode unpack p.mem (pl.frags.map p.inodeAt) ino dest ram
    -- `ret` is a `long`
    .ok (if 2 ^ 31 ≤ r.1.toNat then 0 else r.1, r.2)

/-! ## The file -/

/-- The nodes of an inode, in the order in which they lie on the flash. -/
def nodesOf (frags : List Inode) (ino : UInt32) : List Inode := frags.filter fun n => n.ino = ino

/-- The length of a file: `isize` of its newest node. -/
def lengthOf (frags : List Inode) (ino : UInt32) : UInt32 :=
  match newestNode frags ino with
  | some n => n.isize
  | none => 0

/-- The newest of the nodes that have a byte for an offset in the file. -/
def newestAt (ns : List Inode) (k : ℕ) : Option Inode :=
  (ns.filter fun n => n.offset.toNat ≤ k ∧ k < n.offset.toNat + n.dsize.toNat).argmax
    fun n => n.version.toNat

def contents (m : Mem32) (ns : List Inode) (isize : UInt32) : List UInt8 :=
  (List.range isize.toNat).map fun k =>
    match newestAt ns k with
    | some n => m (n.src + UInt32.ofNat (k - n.offset.toNat))
    | none => 0

/-! ## What the loop does -/

def visits : Progress → List Inode → List Inode
  | _, [] => []
  | s, n :: ns => if s.size < s.totalSize then n :: visits (s.next n) ns else []

/-- What the loop writes for an uncompressed node. -/
def Inode.block (m : Mem32) (n : Inode) : Block := ⟨n.offset, m.read n.src n.dsize.toNat⟩

def loads (m : Mem32) (ns : List Inode) : List Block := (visits .start ns).map (Inode.block m)

section
variable {unpack : UInt8 → List UInt8 → ℕ → List UInt8} {m ram : Mem32} {frags ns : List Inode}
  {ino dest : UInt32} {s : Progress} {n : Inode}

theorem Progress.next_size : (s.next n).size = s.size + n.dsize := by
  unfold Progress.next
  split
  · rfl
  · split <;> rfl

theorem total_cons (b : Block) (bs : List Block) : total (b :: bs) = b.data.length + total bs := by
  rw [total, List.map_cons, List.sum_cons]
  rfl

/-- For an inode whose nodes are not compressed. -/
theorem readFrags_plain (s : Progress) (ram : Mem32)
    (hplain : ∀ n ∈ frags, n.ino = ino → n.compr = comprNone) :
    readFrags unpack m ino dest frags s ram =
      (s.size + UInt32.ofNat (total ((visits s (nodesOf frags ino)).map (Inode.block m))),
        if dest = 0 then ram
        else ram.storeAll dest ((visits s (nodesOf frags ino)).map (Inode.block m))) := by
  induction frags generalizing s ram with
  | nil =>
    rw [readFrags]
    refine Prod.ext (UInt32.add_zero _).symm ?_
    split <;> rfl
  | cons n frags ih =>
    have hrest := fun s ram => ih s ram fun n' hn' => hplain n' (List.mem_cons_of_mem _ hn')
    have hstop : ∀ ns, ¬ s.size < s.totalSize → visits s ns = [] := fun ns hs => by
      cases ns with
      | nil => rfl
      | cons n' ns => exact if_neg hs
    rw [readFrags]
    by_cases hs : s.size < s.totalSize
    · rw [if_pos hs]
      by_cases hino : n.ino = ino
      · have hnodes : nodesOf (n :: frags) ino = n :: nodesOf frags ino :=
          List.filter_cons_of_pos (decide_eq_true hino)
        have hdata : nodeData unpack m n = some (m.read n.src n.dsize.toNat) :=
          if_pos (hplain n List.mem_cons_self hino)
        have hsize (t : ℕ) : (s.next n).size + UInt32.ofNat t =
            s.size + UInt32.ofNat ((Inode.block m n).data.length + t) := by
          rw [Progress.next_size, Inode.block, Mem32.read_length, UInt32.ofNat_add,
            UInt32.ofNat_toNat, UInt32.add_assoc]
        rw [if_pos hino, hnodes, visits, if_pos hs, List.map_cons, total_cons, hdata]
        simp only [hrest, hsize]
        by_cases hdest : dest = 0
        · rw [if_neg (not_not.mpr hdest), if_pos hdest, if_pos hdest]
        · rw [if_pos hdest, if_neg hdest, if_neg hdest]
          rfl
      · have hnodes : nodesOf (n :: frags) ino = nodesOf frags ino :=
          List.filter_cons_of_neg (by simpa using hino)
        rw [if_neg hino, hnodes, hrest]
    · rw [if_neg hs, hstop _ hs]
      refine Prod.ext (UInt32.add_zero _).symm ?_
      split <;> rfl

theorem readInode_plain (ram : Mem32)
    (hplain : ∀ n ∈ frags, n.ino = ino → n.compr = comprNone) :
    readInode unpack m frags ino dest ram =
      (UInt32.ofNat (total (loads m (nodesOf frags ino))),
        if dest = 0 then ram else ram.storeAll dest (loads m (nodesOf frags ino))) := by
  have h := @readFrags_plain unpack m frags ino dest .start ram hplain
  have hzero : Progress.start.size = 0 := rfl
  rwa [hzero, UInt32.zero_add] at h

theorem visits_sublist : (visits s ns).Sublist ns := by
  induction ns generalizing s with
  | nil => exact List.nil_sublist _
  | cons n ns ih =>
    rw [visits]
    split
    · exact ih.cons_cons n
    · exact List.nil_sublist _

theorem length_contents {isize : UInt32} : (contents m ns isize).length = isize.toNat := by
  rw [contents, List.length_map, List.length_range]

end

/-! ## When a file is loaded -/

/-- The condition on the nodes of the file. A null pointer for `dest` makes the loader copy
nothing. -/
def LoadsRight (m : Mem32) (ns : List Inode) (isize dest : UInt32) : Prop :=
  if dest = 0 then isize = 0 ∧ (total (loads m ns) = 0 ∨ 2 ^ 31 ≤ total (loads m ns))
  else isize.toNat < 2 ^ 31 ∧ Tiles (loads m ns) (contents m ns isize)

section
variable {p : Part} {fs ds : List UInt32} {malloc : Nat → Nat → Bool} {fuel : Nat}
  {priv : Option Lists} {unpack : UInt8 → List UInt8 → ℕ → List UInt8} {fname : CStr}
  {d : Dirent} {dest : UInt32}

theorem total_loads_lt (ino : UInt32) (hlog : Log p 0 fs ds)
    (hplain : ∀ n ∈ fs.map p.inodeAt, n.ino = ino → n.csize = n.dsize) :
    total (loads p.mem (nodesOf (fs.map p.inodeAt) ino)) < 2 ^ 32 := by
  have hdata := hlog.data_le
  have hsize := p.size.toNat_lt
  have hsub : (visits .start (nodesOf (fs.map p.inodeAt) ino)).Sublist (fs.map p.inodeAt) :=
    visits_sublist.trans List.filter_sublist
  have heq : total (loads p.mem (nodesOf (fs.map p.inodeAt) ino)) =
      ((visits .start (nodesOf (fs.map p.inodeAt) ino)).map fun n => n.csize.toNat).sum := by
    rw [total, loads, List.map_map]
    refine congrArg List.sum (List.map_congr_left fun n hn => ?_)
    have hmem := visits_sublist.mem hn
    rw [nodesOf, List.mem_filter] at hmem
    rw [hplain n hmem.1 (of_decide_eq_true hmem.2)]
    exact Mem32.read_length
  have hle := (hsub.map fun n => n.csize.toNat).sum_le_sum fun _ _ => Nat.zero_le _
  rw [List.map_map] at hle
  rw [heq]
  exact (hle.trans ((Nat.le_add_left _ _).trans hdata)).trans_lt hsize

/-- The loader reads the inode of the path, or writes past the end of a buffer. -/
theorem load_eq (hmalloc : ∀ i j, malloc i j = true) (hlog : Log p 0 fs ds)
    (hscan : Scannable p fs ds) (hfuel : p.size.toNat < fuel)
    (hpriv : ∀ pl ∈ priv, ¬ RescanNeeded p (some pl) → pl = ⟨fs, ds, p.offset⟩)
    (huniq : UniqueVersions (ds.map p.direntAt)) (htypes : TypesAgree (ds.map p.direntAt))
    (hwalk : Walk (Newest (ds.map p.direntAt)) (components fname.bytes) rootIno d)
    (htype : d.type ≠ dtLnk)
    (hplain : ∀ n ∈ fs.map p.inodeAt, n.ino = d.ino → n.compr = comprNone ∧ n.csize = n.dsize)
    (ram : Mem32) :
    load p malloc fuel priv unpack dest fname ram =
      if (stripSlashes fname.bytes).length < 256 then
        let bs := loads p.mem (nodesOf (fs.map p.inodeAt) d.ino)
        .ok (if 2 ^ 31 ≤ total bs then 0 else UInt32.ofNat (total bs),
          if dest = 0 then ram else ram.storeAll dest bs)
      else .error .overflow := by
  have hlocate := @locate_eq p fs ds malloc fuel priv fname hmalloc hlog hscan hfuel hpriv
  rw [load, hlocate]
  obtain ⟨hmem, hne⟩ := hwalk.mem fun _ _ _ h => h.mem
  by_cases hlen : (stripSlashes fname.bytes).length < 256
  · have hlookup : lookup p.mem (ds.map p.direntAt) (fs.map p.inodeAt) fname = .ok d.ino := by
      rw [lookup_of_walk huniq hlen hwalk.live]
      exact resolveInode_file htypes hmem hne htype
    have hlt := total_loads_lt d.ino hlog fun n hn hino => (hplain n hn hino).2
    have hread := @readInode_plain unpack p.mem (fs.map p.inodeAt) d.ino dest ram
      fun n hn hino => (hplain n hn hino).1
    simp only [hlookup, if_neg hne, if_pos hlen, hread, UInt32.toNat_ofNat',
      Nat.mod_eq_of_lt hlt]
  · have hlong : lookup p.mem (ds.map p.direntAt) (fs.map p.inodeAt) fname = .error .overflow := by
      rw [lookup, searchInode, if_pos (Nat.le_of_not_lt hlen)]
    simp only [hlong, if_neg hlen]

/-- When the length and the memory that the loader leaves are those of a file. -/
theorem loaded_iff {bs : List Block} {c : List UInt8} {isize : UInt32} (hlt : total bs < 2 ^ 32)
    (hc : c.length = isize.toNat) :
    (∀ ram : Mem32, (if 2 ^ 31 ≤ total bs then 0 else UInt32.ofNat (total bs),
      if dest = 0 then ram else ram.storeAll dest bs) = (isize, ram.store dest c)) ↔
    if dest = 0 then isize = 0 ∧ (total bs = 0 ∨ 2 ^ 31 ≤ total bs)
    else isize.toNat < 2 ^ 31 ∧ Tiles bs c := by
  have hnil : isize = 0 → c = [] := fun h => List.eq_nil_of_length_eq_zero (by rw [hc, h]; rfl)
  -- what is returned is the length
  have hret : (if 2 ^ 31 ≤ total bs then 0 else UInt32.ofNat (total bs)) = isize ↔
      (2 ^ 31 ≤ total bs ∧ isize = 0) ∨ (total bs < 2 ^ 31 ∧ total bs = isize.toNat) := by
    split
    · rename_i h
      exact ⟨fun h0 => .inl ⟨h, h0.symm⟩, fun hor => (hor.resolve_right (by omega)).2.symm⟩
    · rename_i h
      rw [← UInt32.toNat_inj, UInt32.toNat_ofNat', Nat.mod_eq_of_lt hlt]
      exact ⟨fun h0 => .inr ⟨by omega, h0⟩, fun hor => (hor.resolve_left (by omega)).2⟩
  simp only [Prod.mk.injEq, hret, forall_and, forall_const]
  by_cases hdest : dest = 0
  · simp only [if_pos hdest]
    constructor
    · rintro ⟨hlen, hmem⟩
      have hlast := (@storeAll_eq_iff dest [] c).mp hmem 0
      have hzero : isize = 0 := by
        have := List.getElem?_eq_none_iff.mp hlast.symm
        rw [← UInt32.toNat_inj]
        exact Nat.le_zero.mp (hc ▸ this)
      refine ⟨hzero, ?_⟩
      rw [hzero] at hlen
      rcases hlen with ⟨h, -⟩ | ⟨-, h⟩
      · exact .inr h
      · exact .inl h
    · rintro ⟨hzero, hor⟩
      rw [hnil hzero]
      refine ⟨?_, fun ram => rfl⟩
      rcases hor with h | h
      · exact .inr ⟨by omega, by rw [h, hzero]; rfl⟩
      · exact .inl ⟨h, hzero⟩
  · simp only [if_neg hdest]
    constructor
    · rintro ⟨⟨hbig, hzero⟩ | ⟨hsmall, htotal⟩, hmem⟩
      · rw [hnil hzero] at hmem
        have := total_eq_zero hmem
        omega
      · have hlt' := isize.toNat_lt
        exact ⟨by omega, (tiles_iff (by omega)).mp ⟨hmem, by omega⟩⟩
    · rintro ⟨hsmall, htiles⟩
      obtain ⟨hmem, htotal⟩ := (@tiles_iff dest bs c (by omega)).mpr htiles
      exact ⟨.inr ⟨by omega, by omega⟩, hmem⟩

/-- **When a file is loaded.** For a path of directories to a file whose nodes are not compressed,
the loader writes the bytes of the file and returns its length if and only if the path fits into
a buffer of 256 bytes and the nodes that are visited make up the file. -/
theorem load_exact (hmalloc : ∀ i j, malloc i j = true) (hlog : Log p 0 fs ds)
    (hscan : Scannable p fs ds) (hfuel : p.size.toNat < fuel)
    (hpriv : ∀ pl ∈ priv, ¬ RescanNeeded p (some pl) → pl = ⟨fs, ds, p.offset⟩)
    (huniq : UniqueVersions (ds.map p.direntAt)) (htypes : TypesAgree (ds.map p.direntAt))
    (hwalk : Walk (Newest (ds.map p.direntAt)) (components fname.bytes) rootIno d)
    (htype : d.type ≠ dtLnk)
    (hplain : ∀ n ∈ fs.map p.inodeAt, n.ino = d.ino → n.compr = comprNone ∧ n.csize = n.dsize) :
    (∀ ram, load p malloc fuel priv unpack dest fname ram =
      .ok (lengthOf (fs.map p.inodeAt) d.ino, ram.store dest
        (contents p.mem (nodesOf (fs.map p.inodeAt) d.ino)
          (lengthOf (fs.map p.inodeAt) d.ino)))) ↔
    (stripSlashes fname.bytes).length < 256 ∧
      LoadsRight p.mem (nodesOf (fs.map p.inodeAt) d.ino) (lengthOf (fs.map p.inodeAt) d.ino)
        dest := by
  have hload := @load_eq p fs ds malloc fuel priv unpack fname d dest hmalloc hlog hscan hfuel
    hpriv huniq htypes hwalk htype hplain
  have hlt := total_loads_lt d.ino hlog fun n hn hino => (hplain n hn hino).2
  have hclen := @length_contents p.mem (nodesOf (fs.map p.inodeAt) d.ino)
    (lengthOf (fs.map p.inodeAt) d.ino)
  have hiff := @loaded_iff dest _ _ _ hlt hclen
  simp only [hload, LoadsRight]
  by_cases hlen : (stripSlashes fname.bytes).length < 256
  · simp only [if_pos hlen, Except.ok.injEq, hiff]
    exact (and_iff_right hlen).symm
  · refine iff_of_false (fun h => ?_) fun h => hlen h.1
    have h0 := h fun _ => 0
    rw [if_neg hlen] at h0
    cases h0

end

/-! ## Two files -/

/-- The file `a` with one byte. -/
def filePart : Part := samplePart [direntBytes 1 1 2 8 [97], inodeBytes 2 1 1 0 [98]] 20

/-- The file `a` with one byte that was written a second time. -/
def rewrittenPart : Part :=
  samplePart [direntBytes 1 1 2 8 [97], inodeBytes 2 1 1 0 [98], inodeBytes 2 2 1 0 [99]] 20

/-- A directory with the file `a`. -/
structure HoldsFile (p : Part) (fs : List UInt32) : Prop where
  log : Log p 0 fs [0]
  scan : Scannable p fs [0]
  dirs : [0].map p.direntAt = [⟨1, 1, 2, 8, [97]⟩]
  plain : ∀ n ∈ fs.map p.inodeAt, n.ino = 2 → n.compr = comprNone ∧ n.csize = n.dsize
  small : p.size.toNat < 400

theorem HoldsFile.walk {p : Part} {fs : List UInt32} (h : HoldsFile p fs) :
    UniqueVersions ([0].map p.direntAt) ∧ TypesAgree ([0].map p.direntAt) ∧
      Walk (Newest ([0].map p.direntAt)) (components [97]) rootIno ⟨1, 1, 2, 8, [97]⟩ := by
  have hnames : components [97] = [[97]] := by decide
  rw [h.dirs, hnames]
  refine ⟨by unfold UniqueVersions; decide, by unfold TypesAgree; decide, .last ?_ (by decide)⟩
  exact ⟨List.mem_singleton_self _, ⟨rfl, rfl⟩, fun d' hmem _ => by
    rw [List.mem_singleton.mp hmem]
    exact UInt32.le_refl _⟩

theorem HoldsFile.of_read {p : Part} {fs : List UInt32} (fuel : ℕ)
    (h : readLog p fuel 0 = some (fs, [0]) ∧ Scannable p fs [0] ∧
      [0].map p.direntAt = [⟨1, 1, 2, 8, [97]⟩] ∧
      (∀ n ∈ fs.map p.inodeAt, n.ino = 2 → n.compr = comprNone ∧ n.csize = n.dsize) ∧
      p.size.toNat < 400) : HoldsFile p fs :=
  ⟨readLog_sound h.1, h.2.1, h.2.2.1, h.2.2.2.1, h.2.2.2.2⟩

set_option maxRecDepth 20000 in
theorem filePart_dump : [direntBytes 1 1 2 8 [97], inodeBytes 2 1 1 0 [98]].flatten =
    (List.range 116).map (dumpByte
    [0x1985e00100000029d04c450b00000001, 0x00000001000000020000000001080000,
     0xba8f4bf03ab551ce610000001985e002, 0x00000045d3e812a80000000200000001,
     0x00000000000000000000000100000000, 0x00000000000000000000000000000001,
     0x0000000100000000a3bc0074190ddb36, 0x62000000000000000000000000000000]) := by
  decide

set_option maxRecDepth 20000 in
theorem filePart_holds : HoldsFile filePart [44] := by
  rw [filePart, samplePart_dump filePart_dump]
  exact HoldsFile.of_read 30 (by decide)

set_option maxRecDepth 20000 in
theorem rewrittenPart_dump :
    [direntBytes 1 1 2 8 [97], inodeBytes 2 1 1 0 [98], inodeBytes 2 2 1 0 [99]].flatten =
    (List.range 188).map (dumpByte
    [0x1985e00100000029d04c450b00000001, 0x00000001000000020000000001080000,
     0xba8f4bf03ab551ce610000001985e002, 0x00000045d3e812a80000000200000001,
     0x00000000000000000000000100000000, 0x00000000000000000000000000000001,
     0x0000000100000000a3bc0074190ddb36, 0x620000001985e00200000045d3e812a8,
     0x00000002000000020000000000000000, 0x00000001000000000000000000000000,
     0x00000000000000010000000100000000, 0xd4bb30e2fa446c946300000000000000]) := by
  have hlast : ∀ a b c : List UInt8, [a, b, c].flatten = [a, b].flatten ++ c := fun a b c => by
    simp only [List.flatten_cons, List.flatten_nil, List.append_nil, List.append_assoc]
  rw [hlast, filePart_dump]
  decide

set_option maxRecDepth 20000 in
theorem rewrittenPart_holds : HoldsFile rewrittenPart [44, 116] := by
  rw [rewrittenPart, samplePart_dump rewrittenPart_dump]
  exact HoldsFile.of_read 30 (by decide)

theorem load_exact_file :
    load filePart (fun _ _ => true) 400 none (fun _ _ _ => []) 4096 ⟨[97], by decide⟩
      (fun _ => 0) = .ok (1, Mem32.store (fun _ => 0) 4096 [98]) := by
  obtain ⟨huniq, htypes, hwalk⟩ := filePart_holds.walk
  have hloads : loads filePart.mem (nodesOf ([44].map filePart.inodeAt) 2) = [⟨0, [98]⟩] := by
    decide
  have hlength : lengthOf ([44].map filePart.inodeAt) 2 = 1 := by decide
  have hcontents : contents filePart.mem (nodesOf ([44].map filePart.inodeAt) 2) 1 = [98] := by
    decide
  have htiles : Tiles [⟨0, [98]⟩] [98] :=
    ⟨by unfold Below; decide, by decide, by decide⟩
  have h : ∀ ram, load filePart (fun _ _ => true) 400 none (fun _ _ _ => []) 4096
      ⟨[97], by decide⟩ ram = .ok (lengthOf ([44].map filePart.inodeAt) 2, ram.store 4096
        (contents filePart.mem (nodesOf ([44].map filePart.inodeAt) 2)
          (lengthOf ([44].map filePart.inodeAt) 2))) := by
    refine (@load_exact filePart [44] [0] (fun _ _ => true) 400 none (fun _ _ _ => [])
      ⟨[97], by decide⟩ ⟨1, 1, 2, 8, [97]⟩ 4096 (fun _ _ => rfl) filePart_holds.log
      filePart_holds.scan filePart_holds.small (fun pl h => by cases h) huniq htypes hwalk
      (by decide) filePart_holds.plain).mpr ⟨by decide, ?_⟩
    rw [LoadsRight, if_neg (by decide), hlength, hloads, hcontents]
    exact ⟨by decide, htiles⟩
  have hram := h fun _ => 0
  rw [hlength, hcontents] at hram
  exact hram

/-- The sizes of both nodes are added up. -/
theorem load_rewritten :
    HoldsFile rewrittenPart [44, 116] ∧ lengthOf ([44, 116].map rewrittenPart.inodeAt) 2 = 1 ∧
    (∀ ram, ∃ ram', load rewrittenPart (fun _ _ => true) 400 none (fun _ _ _ => []) 4096
      ⟨[97], by decide⟩ ram = .ok (2, ram')) ∧
    ¬ ∀ ram, load rewrittenPart (fun _ _ => true) 400 none (fun _ _ _ => []) 4096
      ⟨[97], by decide⟩ ram = .ok (lengthOf ([44, 116].map rewrittenPart.inodeAt) 2,
        ram.store 4096 (contents rewrittenPart.mem
          (nodesOf ([44, 116].map rewrittenPart.inodeAt) 2) 1)) := by
  obtain ⟨huniq, htypes, hwalk⟩ := rewrittenPart_holds.walk
  have hloads : loads rewrittenPart.mem (nodesOf ([44, 116].map rewrittenPart.inodeAt) 2) =
      [⟨0, [98]⟩, ⟨0, [99]⟩] := by decide
  have hlength : lengthOf ([44, 116].map rewrittenPart.inodeAt) 2 = 1 := by decide
  have hload : ∀ ram, load rewrittenPart (fun _ _ => true) 400 none (fun _ _ _ => []) 4096
      ⟨[97], by decide⟩ ram = .ok (2, ram.storeAll 4096 [⟨0, [98]⟩, ⟨0, [99]⟩]) := fun ram => by
    rw [load_eq (fun _ _ => rfl) rewrittenPart_holds.log rewrittenPart_holds.scan
      rewrittenPart_holds.small (fun pl h => by cases h) huniq htypes hwalk (by decide)
      rewrittenPart_holds.plain ram]
    simp only [hloads]
    rfl
  refine ⟨rewrittenPart_holds, hlength, fun ram => ⟨_, hload ram⟩, fun h => ?_⟩
  have h0 := (hload fun _ => 0).symm.trans (h fun _ => 0)
  rw [hlength] at h0
  exact absurd (Prod.mk.inj (Except.ok.inj h0)).1 (by decide)

end UBoot.Jffs2
