import Mathlib.Data.List.MinMax
import UBoot.Jffs2.Dir
import UBoot.Jffs2.Log

/-!
# Which inode a path leads to

`Resolves` is the file system's answer: a walk along the newest entries, and from a symbolic link at
its end on along the text of the newest node of the link. `locate` is what `jffs2_1pass_load` does
before it reads. `locate_resolves` says when the two agree: the loader does not see unlinks, and
follows one link only.
-/

namespace UBoot.Jffs2

open UBoot.Lib

def newestNode (frags : List Inode) (ino : UInt32) : Option Inode :=
  (frags.filter fun n => n.ino = ino).argmax fun n => n.version.toNat

/-- The path `names` from the directory `pino` ends at the inode `i`. -/
inductive Resolves (m : Mem32) (dirs : List Dirent) (frags : List Inode) :
    List (List UInt8) → UInt32 → UInt32 → Prop where
  | file {names : List (List UInt8)} {pino : UInt32} {d : Dirent} :
      Walk (Newest dirs) names pino d → d.type ≠ dtLnk → Resolves m dirs frags names pino d.ino
  | link {names : List (List UInt8)} {pino i : UInt32} {d : Dirent} {n : Inode} :
      Walk (Newest dirs) names pino d → d.type = dtLnk → newestNode frags d.ino = some n →
      Resolves m dirs frags (components (linkText m n)) (linkStart (linkText m n) d.pino) i →
      Resolves m dirs frags names pino i

/-- The entries of an inode agree on whether it is a symbolic link. -/
def TypesAgree (dirs : List Dirent) : Prop :=
  ∀ d ∈ dirs, ∀ d' ∈ dirs, d.ino = d'.ino → d.ino ≠ 0 → (d.type = dtLnk ↔ d'.type = dtLnk)

/-- The loader reads the link with the entry `d` as it is: its first node on the flash has the text
of its newest one, which fits into a buffer, and starts from the directory of `d`. -/
structure LinkRead (m : Mem32) (dirs : List Dirent) (frags : List Inode) (d : Dirent) (n : Inode) :
    Prop where
  newest : newestNode frags d.ino = some n
  first : ∃ n', frags.find? (fun n' => n'.ino = d.ino) = some n' ∧ n'.dsize.toNat < 256 ∧
    linkText m n' = linkText m n
  start : ∀ d', Highest (fun d' => d'.ino = d.ino) dirs d' →
    linkStart (linkText m n) d'.pino = linkStart (linkText m n) d.pino

section
variable {m : Mem32} {dirs : List Dirent} {frags : List Inode} {names : List (List UInt8)}
  {pino i : UInt32} {d d' : Dirent} {n : Inode} {fname : CStr}

/-- A path ends at an inode that is not a link. -/
theorem Resolves.mem (h : Resolves m dirs frags names pino i) :
    ∃ d ∈ dirs, d.ino = i ∧ d.ino ≠ 0 ∧ d.type ≠ dtLnk := by
  induction h with
  | @file names pino d hwalk htype =>
    obtain ⟨hmem, hne⟩ := hwalk.mem fun _ _ _ h => h.mem
    exact ⟨d, hmem, rfl, hne, htype⟩
  | link _ _ _ _ ih => exact ih

theorem scanDirs_ino (hmem : d ∈ dirs) :
    ∃ d', scanDirs (fun d' => d'.ino = d.ino) dirs = some d' ∧
      Highest (fun d' => d'.ino = d.ino) dirs d' := by
  have hscan := scanDirs_scanned (fun d' => d'.ino = d.ino) dirs
  cases hfound : scanDirs (fun d' => d'.ino = d.ino) dirs with
  | none =>
    rw [hfound] at hscan
    have hw := hscan d hmem
    simp at hw
  | some d' =>
    rw [hfound] at hscan
    exact ⟨d', rfl, hscan⟩

/-- A path that fits the buffer does so without its leading slashes. -/
theorem stripSlashes_lt {l : List UInt8} (h : l.length < 256) : (stripSlashes l).length < 256 :=
  (List.dropWhile_sublist _).length_le.trans_lt h

theorem lookup_of_walk (huniq : UniqueVersions dirs)
    (hlen : (stripSlashes fname.bytes).length < 256)
    (h : Walk (Live dirs) (components fname.bytes) rootIno d) :
    lookup m dirs frags fname = resolveInode m dirs frags d.ino := by
  have hshort := Nat.not_le.mpr hlen
  have hne := (h.mem fun _ _ _ h => h.mem).2
  simp only [lookup, searchInode, if_neg hshort, searchNames_eq huniq h, if_neg hne]

theorem lookup_of_no_walk (hlen : (stripSlashes fname.bytes).length < 256)
    (h : ¬ ∃ d, Walk (Live dirs) (components fname.bytes) rootIno d) :
    lookup m dirs frags fname = .ok 0 := by
  have hshort := Nat.not_le.mpr hlen
  have hzero : searchNames dirs (components fname.bytes) rootIno = 0 := by
    by_contra hne
    obtain ⟨d, hwalk, -⟩ := searchNames_ne_zero (components_ne_nil _) hne
    exact h ⟨d, hwalk⟩
  simp only [lookup, searchInode, if_neg hshort, hzero, if_true]

theorem resolveInode_file (htypes : TypesAgree dirs) (hmem : d ∈ dirs) (hne : d.ino ≠ 0)
    (htype : d.type ≠ dtLnk) : resolveInode m dirs frags d.ino = .ok d.ino := by
  obtain ⟨d', hfound, hhigh⟩ := scanDirs_ino hmem
  have hino : d'.ino = d.ino := of_decide_eq_true hhigh.wanted
  have htype' : d'.type ≠ dtLnk := fun h =>
    htype ((htypes d' hhigh.mem d hmem hino (hino ▸ hne)).mp h)
  simp only [resolveInode, hfound, if_pos htype', hino]

theorem resolveInode_link (htypes : TypesAgree dirs) (hmem : d ∈ dirs) (hne : d.ino ≠ 0)
    (htype : d.type = dtLnk) (hread : LinkRead m dirs frags d n) :
    resolveInode m dirs frags d.ino = .ok (searchNames dirs (components (linkText m n))
      (linkStart (linkText m n) d.pino)) := by
  obtain ⟨d', hfound, hhigh⟩ := scanDirs_ino hmem
  have hino : d'.ino = d.ino := of_decide_eq_true hhigh.wanted
  have htype' : ¬ d'.type ≠ dtLnk := not_not.mpr
    ((htypes d' hhigh.mem d hmem hino (hino ▸ hne)).mpr htype)
  obtain ⟨n', hfirst, hsmall, htext⟩ := hread.first
  have hshort : ¬ 256 ≤ (stripSlashes (linkText m n)).length := by
    have hsub : (stripSlashes (linkText m n)).length ≤ (linkText m n).length :=
      (List.dropWhile_sublist _).length_le
    have htext' : (linkText m n').length ≤ n'.dsize.toNat :=
      (List.takeWhile_sublist _).length_le.trans_eq Mem32.read_length
    rw [htext] at htext'
    omega
  simp only [resolveInode, hfound, if_neg htype', hino, hfirst, if_neg (Nat.not_le.mpr hsmall),
    htext, hread.start d' hhigh, searchInode, if_neg hshort]

theorem Resolves.walk (h : Resolves m dirs frags names pino i) :
    ∃ d, Walk (Newest dirs) names pino d ∧ (d.type ≠ dtLnk ∧ i = d.ino ∨
      d.type = dtLnk ∧ ∃ n, newestNode frags d.ino = some n ∧
        Resolves m dirs frags (components (linkText m n)) (linkStart (linkText m n) d.pino) i) := by
  cases h with
  | file hwalk htype => exact ⟨_, hwalk, .inl ⟨htype, rfl⟩⟩
  | link hwalk htype hn hrest => exact ⟨_, hwalk, .inr ⟨htype, _, hn, hrest⟩⟩

/-- What the loader finds by these names is there: no name on the way is an unlink by now, neither
in the path nor in the text of a link at its end, and the text does not lead to another link. -/
def CleanPath (m : Mem32) (dirs : List Dirent) (frags : List Inode) (names : List (List UInt8)) :
    Prop :=
  ∀ d, Walk (Live dirs) names rootIno d →
    (d.type ≠ dtLnk → Walk (Newest dirs) names rootIno d) ∧
    (d.type = dtLnk → ∀ n, newestNode frags d.ino = some n → ∀ d',
      Walk (Live dirs) (components (linkText m n)) (linkStart (linkText m n) d.pino) d' →
      Walk (Newest dirs) names rootIno d ∧
      Walk (Newest dirs) (components (linkText m n)) (linkStart (linkText m n) d.pino) d' ∧
      d'.type ≠ dtLnk)

theorem lookup_sound (huniq : UniqueVersions dirs) (htypes : TypesAgree dirs)
    (hlen : fname.bytes.length < 256)
    (hlink : ∀ d, Walk (Live dirs) (components fname.bytes) rootIno d → d.type = dtLnk →
      ∃ n, LinkRead m dirs frags d n)
    (hclean : CleanPath m dirs frags (components fname.bytes)) (hi : i ≠ 0)
    (h : lookup m dirs frags fname = .ok i) :
    Resolves m dirs frags (components fname.bytes) rootIno i := by
  by_cases hwalk : ∃ d, Walk (Live dirs) (components fname.bytes) rootIno d
  · obtain ⟨d, hwalk⟩ := hwalk
    obtain ⟨hmem, hne⟩ := hwalk.mem fun _ _ _ h => h.mem
    rw [lookup_of_walk huniq (stripSlashes_lt hlen) hwalk] at h
    by_cases htype : d.type = dtLnk
    · obtain ⟨n, hread⟩ := hlink d hwalk htype
      rw [resolveInode_link htypes hmem hne htype hread] at h
      have hi' := Except.ok.inj h
      obtain ⟨d', hwalk', hino⟩ := searchNames_ne_zero (components_ne_nil _) (hi' ▸ hi)
      obtain ⟨hnew, hnew', htype'⟩ := (hclean d hwalk).2 htype n hread.newest d' hwalk'
      refine .link hnew htype hread.newest ?_
      rw [← hi', ← hino]
      exact .file hnew' htype'
    · rw [resolveInode_file htypes hmem hne htype] at h
      rw [← Except.ok.inj h]
      exact .file ((hclean d hwalk).1 htype) htype
  · rw [lookup_of_no_walk (stripSlashes_lt hlen) hwalk] at h
    exact absurd (Except.ok.inj h).symm hi

theorem lookup_complete (huniq : UniqueVersions dirs) (htypes : TypesAgree dirs)
    (hlen : fname.bytes.length < 256)
    (hlink : ∀ d, Walk (Live dirs) (components fname.bytes) rootIno d → d.type = dtLnk →
      ∃ n, LinkRead m dirs frags d n)
    (hclean : CleanPath m dirs frags (components fname.bytes))
    (h : Resolves m dirs frags (components fname.bytes) rootIno i) :
    lookup m dirs frags fname = .ok i := by
  obtain ⟨d, hnew, hcases⟩ := h.walk
  have hwalk := hnew.live
  obtain ⟨hmem, hne⟩ := hwalk.mem fun _ _ _ h => h.mem
  rw [lookup_of_walk huniq (stripSlashes_lt hlen) hwalk]
  rcases hcases with ⟨htype, rfl⟩ | ⟨htype, n, hn, hrest⟩
  · exact resolveInode_file htypes hmem hne htype
  · obtain ⟨n', hread⟩ := hlink d hwalk htype
    have heq : n' = n := Option.some.inj (hread.newest.symm.trans hn)
    subst heq
    rw [resolveInode_link htypes hmem hne htype hread]
    obtain ⟨d', hnew', hcases'⟩ := hrest.walk
    obtain ⟨-, -, htype'⟩ := (hclean d hwalk).2 htype n' hn d' hnew'.live
    rw [searchNames_eq huniq hnew'.live]
    rcases hcases' with ⟨-, rfl⟩ | ⟨htype'', -⟩
    · rfl
    · exact absurd htype'' htype'

/-- **The loader finds what the file system says, and nothing else**, if and only if what it finds
by these names is there. -/
theorem lookup_iff (huniq : UniqueVersions dirs) (htypes : TypesAgree dirs)
    (hlen : fname.bytes.length < 256)
    (hlink : ∀ d, Walk (Live dirs) (components fname.bytes) rootIno d → d.type = dtLnk →
      ∃ n, LinkRead m dirs frags d n) :
    (∀ i, i ≠ 0 → (lookup m dirs frags fname = .ok i ↔
      Resolves m dirs frags (components fname.bytes) rootIno i)) ↔
      CleanPath m dirs frags (components fname.bytes) := by
  constructor
  · intro h d hwalk
    obtain ⟨hmem, hne⟩ := hwalk.mem fun _ _ _ h => h.mem
    have hlookup := @lookup_of_walk m dirs frags d fname huniq (stripSlashes_lt hlen) hwalk
    -- what is found is the file system's, so the walks along the newest entries exist
    have hres (i : UInt32) (hi : i ≠ 0) (heq : resolveInode m dirs frags d.ino = .ok i) :
        ∃ d', Walk (Newest dirs) (components fname.bytes) rootIno d' ∧ d' = d ∧
          (d.type = dtLnk → ∃ n, newestNode frags d.ino = some n ∧ Resolves m dirs frags
            (components (linkText m n)) (linkStart (linkText m n) d.pino) i) := by
      obtain ⟨d', hnew, hcases⟩ := ((h i hi).mp (hlookup.trans heq)).walk
      have hd := hnew.live.unique huniq hwalk
      subst hd
      refine ⟨d', hnew, rfl, fun htype => ?_⟩
      rcases hcases with ⟨hfile, -⟩ | ⟨-, hn⟩
      · exact absurd htype hfile
      · exact hn
    refine ⟨fun htype => ?_, fun htype n hn d' hwalk' => ?_⟩
    · obtain ⟨d', hnew, rfl, -⟩ := hres _ hne (resolveInode_file htypes hmem hne htype)
      exact hnew
    · obtain ⟨n', hread⟩ := hlink d hwalk htype
      have heq : n' = n := Option.some.inj (hread.newest.symm.trans hn)
      subst heq
      obtain ⟨hmem', hne'⟩ := hwalk'.mem fun _ _ _ h => h.mem
      have hfound := resolveInode_link htypes hmem hne htype hread
      rw [searchNames_eq huniq hwalk'] at hfound
      obtain ⟨d₀, hnew, rfl, hrest⟩ := hres _ hne' hfound
      obtain ⟨n'', hn'', hrest⟩ := hrest htype
      have heq := Option.some.inj (hn.symm.trans hn'')
      subst heq
      obtain ⟨d₁, hmem₁, hino₁, -, htype₁⟩ := hrest.mem
      obtain ⟨d'', hnew'', -⟩ := hrest.walk
      have hd := hnew''.live.unique huniq hwalk'
      subst hd
      exact ⟨hnew, hnew'', fun htype' =>
        htype₁ ((htypes d'' hmem' d₁ hmem₁ hino₁.symm hne').mp htype')⟩
  · exact fun hclean i hi => ⟨lookup_sound huniq htypes hlen hlink hclean hi,
      lookup_complete huniq htypes hlen hlink hclean⟩

end

/-! ## From the flash -/

/-- What `jffs2_1pass_load` does before it reads: the lists, and the inode of the path. -/
def locate (p : Part) (malloc : Nat → Nat → Bool) (fuel : Nat) (priv : Option Lists)
    (fname : CStr) : Except Stop (Option (Lists × UInt32)) :=
  match getList p malloc fuel priv with
  | .error .noMemory => .ok none
  | .error e => .error e
  | .ok pl =>
    match lookup p.mem (pl.dirs.map p.direntAt) (pl.frags.map p.inodeAt) fname with
    | .error e => .error e
    | .ok ino => if ino = 0 then .ok none else .ok (some (pl, ino))

section
variable {p : Part} {fs ds : List UInt32} {malloc : Nat → Nat → Bool} {fuel : Nat}
  {priv : Option Lists} {fname : CStr} {i : UInt32}

theorem locate_eq (hmalloc : ∀ i j, malloc i j = true) (hlog : Log p 0 fs ds)
    (hscan : Scannable p fs ds) (hfuel : p.size.toNat < fuel)
    (hpriv : ∀ pl ∈ priv, ¬ RescanNeeded p (some pl) → pl = ⟨fs, ds, p.offset⟩) :
    locate p malloc fuel priv fname =
      match lookup p.mem (ds.map p.direntAt) (fs.map p.inodeAt) fname with
      | .error e => .error e
      | .ok ino => if ino = 0 then .ok none else .ok (some (⟨fs, ds, p.offset⟩, ino)) := by
  rw [locate, getList_log hmalloc hlog hscan hfuel hpriv]

theorem locate_iff (hmalloc : ∀ i j, malloc i j = true) (hlog : Log p 0 fs ds)
    (hscan : Scannable p fs ds) (hfuel : p.size.toNat < fuel)
    (hpriv : ∀ pl ∈ priv, ¬ RescanNeeded p (some pl) → pl = ⟨fs, ds, p.offset⟩) :
    (∃ pl, locate p malloc fuel priv fname = .ok (some (pl, i))) ↔
      i ≠ 0 ∧ lookup p.mem (ds.map p.direntAt) (fs.map p.inodeAt) fname = .ok i := by
  rw [locate_eq hmalloc hlog hscan hfuel hpriv]
  cases hlookup : lookup p.mem (ds.map p.direntAt) (fs.map p.inodeAt) fname with
  | error e => simp
  | ok ino =>
    by_cases hzero : ino = 0
    · simp only [if_pos hzero, Except.ok.injEq, reduceCtorEq, exists_false, false_iff, not_and]
      rintro hi rfl
      exact hi hzero
    · simp only [if_neg hzero, Except.ok.injEq, Option.some.injEq, Prod.mk.injEq]
      constructor
      · rintro ⟨pl, -, rfl⟩
        exact ⟨hzero, rfl⟩
      · rintro ⟨-, rfl⟩
        exact ⟨_, rfl, rfl⟩

/-- **A path leads where the file system says**, on every log in which no node can be missed and
for every path whose links are read as they are, if and only if no name that is found by it has been
unlinked and no link leads to a link. -/
theorem locate_resolves (hmalloc : ∀ i j, malloc i j = true) (hlog : Log p 0 fs ds)
    (hscan : Scannable p fs ds) (hfuel : p.size.toNat < fuel)
    (hpriv : ∀ pl ∈ priv, ¬ RescanNeeded p (some pl) → pl = ⟨fs, ds, p.offset⟩)
    (huniq : UniqueVersions (ds.map p.direntAt)) (htypes : TypesAgree (ds.map p.direntAt))
    (hlen : fname.bytes.length < 256)
    (hlink : ∀ d, Walk (Live (ds.map p.direntAt)) (components fname.bytes) rootIno d →
      d.type = dtLnk → ∃ n, LinkRead p.mem (ds.map p.direntAt) (fs.map p.inodeAt) d n) :
    (∀ i, (∃ pl, locate p malloc fuel priv fname = .ok (some (pl, i))) ↔
      Resolves p.mem (ds.map p.direntAt) (fs.map p.inodeAt) (components fname.bytes) rootIno i) ↔
      CleanPath p.mem (ds.map p.direntAt) (fs.map p.inodeAt) (components fname.bytes) := by
  rw [← lookup_iff huniq htypes hlen hlink]
  refine forall_congr' fun i => ?_
  rw [locate_iff hmalloc hlog hscan hfuel hpriv]
  constructor
  · intro h hi
    rw [← h]
    exact ⟨fun hl => ⟨hi, hl⟩, And.right⟩
  · intro h
    by_cases hi : i = 0
    · refine ⟨fun hl => absurd hi hl.1, fun hres => ?_⟩
      obtain ⟨d, -, hino, hne, -⟩ := hres.mem
      exact absurd (hino.trans hi) hne
    · rw [← h hi]
      exact ⟨And.right, fun hl => ⟨hi, hl⟩⟩

end

/-! ## Two logs -/

/-- A symbolic link `a` with the text `b`, and the file `b`. -/
def linkPart : Part :=
  samplePart [direntBytes 1 1 2 dtLnk [97], inodeBytes 2 1 1 0 [98], direntBytes 1 2 3 8 [98]] 20

set_option maxRecDepth 20000 in
theorem linkPart_dump :
    [direntBytes 1 1 2 dtLnk [97], inodeBytes 2 1 1 0 [98], direntBytes 1 2 3 8 [98]].flatten =
    (List.range 160).map (dumpByte
    [0x1985e00100000029d04c450b00000001, 0x000000010000000200000000010a0000,
     0xb90b9f9e3ab551ce610000001985e002, 0x00000045d3e812a80000000200000001,
     0x00000000000000000000000100000000, 0x00000000000000000000000000000001,
     0x0000000100000000a3bc0074190ddb36, 0x620000001985e00100000029d04c450b,
     0x00000001000000020000000300000000, 0x01080000103e337da3bc007462000000]) := by
  decide

set_option maxRecDepth 20000 in
theorem linkPart_read : readLog linkPart 30 0 = some ([44], [0, 116]) ∧
    Scannable linkPart [44] [0, 116] ∧ linkPart.size.toNat < 300 := by
  rw [linkPart, samplePart_dump linkPart_dump]
  decide

theorem linkPart_log : Log linkPart 0 [44] [0, 116] := readLog_sound linkPart_read.1

theorem linkPart_dirs : [0, 116].map linkPart.direntAt =
    [⟨1, 1, 2, dtLnk, [97]⟩, ⟨1, 2, 3, 8, [98]⟩] := by decide

theorem linkPart_link : LinkRead linkPart.mem ([0, 116].map linkPart.direntAt)
    ([44].map linkPart.inodeAt) ⟨1, 1, 2, dtLnk, [97]⟩ (linkPart.inodeAt 44) := by
  refine ⟨by decide, ⟨linkPart.inodeAt 44, by decide, by decide, rfl⟩, ?_⟩
  rw [linkPart_dirs]
  rintro d' ⟨hmem, hino, -⟩
  simp only [List.mem_cons, List.not_mem_nil, or_false] at hmem
  rcases hmem with rfl | rfl
  · rfl
  · exact absurd hino (by decide)

theorem linkPart_walk {d : Dirent}
    (h : Walk (Live ([0, 116].map linkPart.direntAt)) [[97]] rootIno d) :
    d = ⟨1, 1, 2, dtLnk, [97]⟩ := by
  rw [linkPart_dirs] at h
  cases h with
  | last hlive _ =>
    have hmem := hlive.mem
    simp only [List.mem_cons, List.not_mem_nil, or_false] at hmem
    rcases hmem with rfl | rfl
    · rfl
    · exact absurd hlive.named.2 (by decide)
  | dir _ _ hwalk => cases hwalk

theorem locate_resolves_link :
    (∀ i, (∃ pl, locate linkPart (fun _ _ => true) 300 none ⟨[97], by decide⟩ =
      .ok (some (pl, i))) ↔ Resolves linkPart.mem ([0, 116].map linkPart.direntAt)
        ([44].map linkPart.inodeAt) (components [97]) rootIno i) ↔
      CleanPath linkPart.mem ([0, 116].map linkPart.direntAt) ([44].map linkPart.inodeAt)
        (components [97]) := by
  have hnames : components [97] = [[97]] := by decide
  refine locate_resolves (fun _ _ => rfl) linkPart_log linkPart_read.2.1 linkPart_read.2.2
    (fun pl h => by cases h) ?_ ?_ (by decide) fun d hwalk _ => ?_
  · rw [linkPart_dirs]
    unfold UniqueVersions
    decide
  · rw [linkPart_dirs]
    unfold TypesAgree
    decide
  · dsimp only at hwalk
    rw [hnames] at hwalk
    rw [linkPart_walk hwalk]
    exact ⟨_, linkPart_link⟩

/-- The file `a`, and its unlink. -/
def deletedPart : Part := samplePart [direntBytes 1 1 2 8 [97], direntBytes 1 2 0 0 [97]] 10

set_option maxRecDepth 20000 in
theorem deletedPart_dump : [direntBytes 1 1 2 8 [97], direntBytes 1 2 0 0 [97]].flatten =
    (List.range 88).map (dumpByte
    [0x1985e00100000029d04c450b00000001, 0x00000001000000020000000001080000,
     0xba8f4bf03ab551ce610000001985e001, 0x00000029d04c450b0000000100000002,
     0x00000000000000000100000027a05e00, 0x3ab551ce610000000000000000000000]) := by
  decide

set_option maxRecDepth 20000 in
theorem deletedPart_read : readLog deletedPart 30 0 = some ([], [0, 44]) ∧
    Scannable deletedPart [] [0, 44] ∧ deletedPart.size.toNat < 200 := by
  rw [deletedPart, samplePart_dump deletedPart_dump]
  decide

/-- A name that has been unlinked is found. -/
theorem locate_deleted :
    Log deletedPart 0 [] [0, 44] ∧ Scannable deletedPart [] [0, 44] ∧
      (∃ pl, locate deletedPart (fun _ _ => true) 200 none ⟨[97], by decide⟩ =
        .ok (some (pl, 2))) ∧
      ¬ Resolves deletedPart.mem ([0, 44].map deletedPart.direntAt) [] (components [97])
        rootIno 2 := by
  have hdirs : [0, 44].map deletedPart.direntAt = [⟨1, 1, 2, 8, [97]⟩, ⟨1, 2, 0, 0, [97]⟩] := by
    decide
  obtain ⟨hread, hscan, hsize⟩ := deletedPart_read
  have hlog : Log deletedPart 0 [] [0, 44] := readLog_sound hread
  have hnames : components [97] = [[97]] := by decide
  refine ⟨hlog, hscan, ?_, ?_⟩
  · rw [locate_iff (fun _ _ => rfl) hlog hscan hsize (fun pl h => by cases h), hdirs]
    decide
  · rw [hdirs, hnames]
    intro h
    obtain ⟨d, hwalk, -⟩ := h.walk
    cases hwalk with
    | last hnew hne =>
      have hmem := hnew.mem
      simp only [List.mem_cons, List.not_mem_nil, or_false] at hmem
      rcases hmem with rfl | rfl
      · exact absurd (hnew.newest ⟨1, 2, 0, 0, [97]⟩ (by decide) ⟨rfl, rfl⟩) (by decide)
      · exact absurd rfl hne
    | dir _ _ hwalk => cases hwalk

end UBoot.Jffs2
