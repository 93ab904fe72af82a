import UBoot.Jffs2.Scan
import UBoot.Lib.Area

/-!
# Names and paths (`jffs2_1pass_find_inode`, `_search_inode`, `_resolve_inode`)

A directory is what its entries in the log say, the newest one for each name. `Walk` is a walk
along a path with a relation that says which entry a name has in a directory: `Newest` is the one of
the file system, where an unlink is an entry as well; `Live` is the one that the loader uses, which
leaves the unlinks out.
-/

namespace UBoot.Jffs2

open UBoot.Lib

abbrev slash : UInt8 := 47

abbrev rootIno : UInt32 := 1

/-! ## The functions of the loader -/

/-- The loop of both scans of the directory entries: the last one of the highest version of those
that are wanted. -/
def scanDirs (want : Dirent → Bool) (dirs : List Dirent) : Option Dirent :=
  dirs.foldl (fun found d =>
    if want d then
      if d.version < (found.map Dirent.version).getD 0 then found else some d
    else found) none

/-- `jffs2_1pass_find_inode` -/
def findInode (dirs : List Dirent) (name : List UInt8) (pino : UInt32) : UInt32 :=
  match scanDirs (fun d => d.pino = pino && d.name = name && d.ino ≠ 0) dirs with
  | some d => d.ino
  | none => 0

/-- The loop of `jffs2_1pass_search_inode` over the names in a path. -/
def searchNames (dirs : List Dirent) : List (List UInt8) → UInt32 → UInt32
  | [], pino => pino
  | name :: names, pino =>
    let ino := findInode dirs name pino
    if ino = 0 then 0 else searchNames dirs names ino

/-- The path without leading slashes. -/
def stripSlashes (fname : List UInt8) : List UInt8 := fname.dropWhile (· = slash)

def components (fname : List UInt8) : List (List UInt8) := (stripSlashes fname).splitOn slash

/-- `jffs2_1pass_search_inode`; `tmp` has 256 bytes. -/
def searchInode (dirs : List Dirent) (fname : List UInt8) (pino : UInt32) : Except Stop UInt32 :=
  if 256 ≤ (stripSlashes fname).length then .error .overflow
  else .ok (searchNames dirs (components fname) pino)

/-- The text of a link, as far as it is a string. -/
def linkText (m : Mem32) (n : Inode) : List UInt8 :=
  (m.read n.src n.dsize.toNat).takeWhile (· ≠ 0)

/-- The directory that the text of a link starts from. -/
def linkStart (text : List UInt8) (pino : UInt32) : UInt32 :=
  if text.head? = some slash then rootIno else pino

/-- `jffs2_1pass_resolve_inode` -/
def resolveInode (m : Mem32) (dirs : List Dirent) (frags : List Inode) (ino : UInt32) :
    Except Stop UInt32 :=
  match scanDirs (fun d => d.ino = ino) dirs with
  | none => .error .noEntry
  | some d =>
    if d.type ≠ dtLnk then .ok d.ino
    else
      match frags.find? (fun n => n.ino = d.ino) with
      | none => .error .noText
      | some n =>
        if 256 ≤ n.dsize.toNat then .error .overflow
        else searchInode dirs (linkText m n) (linkStart (linkText m n) d.pino)

/-- The two as `jffs2_1pass_load` calls them; 0 is a failure. -/
def lookup (m : Mem32) (dirs : List Dirent) (frags : List Inode) (fname : CStr) :
    Except Stop UInt32 :=
  match searchInode dirs fname.bytes rootIno with
  | .error e => .error e
  | .ok ino => if ino = 0 then .ok 0 else resolveInode m dirs frags ino

/-! ## Directories -/

/-- The entry `d` is for `name` in the directory `pino`. -/
def Named (pino : UInt32) (name : List UInt8) (d : Dirent) : Prop := d.pino = pino ∧ d.name = name

structure Newest (dirs : List Dirent) (pino : UInt32) (name : List UInt8) (d : Dirent) : Prop where
  mem : d ∈ dirs
  named : Named pino name d
  newest : ∀ d' ∈ dirs, Named pino name d' → d'.version ≤ d.version

/-- The newest entry of a name that is not an unlink. -/
structure Live (dirs : List Dirent) (pino : UInt32) (name : List UInt8) (d : Dirent) : Prop where
  mem : d ∈ dirs
  named : Named pino name d
  newest : ∀ d' ∈ dirs, Named pino name d' → d'.ino ≠ 0 → d'.version ≤ d.version

/-- A walk from the directory `pino` to the entry of the last name. -/
inductive Walk (entry : UInt32 → List UInt8 → Dirent → Prop) :
    List (List UInt8) → UInt32 → Dirent → Prop where
  | last {name : List UInt8} {pino : UInt32} {d : Dirent} : entry pino name d → d.ino ≠ 0 →
      Walk entry [name] pino d
  | dir {name : List UInt8} {names : List (List UInt8)} {pino : UInt32} {d d' : Dirent} :
      entry pino name d → d.ino ≠ 0 → Walk entry names d.ino d' →
      Walk entry (name :: names) pino d'

def UniqueVersions (dirs : List Dirent) : Prop :=
  ∀ d ∈ dirs, ∀ d' ∈ dirs, d.pino = d'.pino → d.version = d'.version → d = d'

section
variable {dirs : List Dirent} {want : Dirent → Bool} {pino : UInt32} {name : List UInt8}
  {names : List (List UInt8)} {d d' : Dirent}

structure Highest (want : Dirent → Bool) (dirs : List Dirent) (d : Dirent) : Prop where
  mem : d ∈ dirs
  wanted : want d = true
  highest : ∀ d' ∈ dirs, want d' = true → d'.version ≤ d.version

def Scanned (want : Dirent → Bool) (dirs : List Dirent) : Option Dirent → Prop
  | some d => Highest want dirs d
  | none => ∀ d ∈ dirs, want d = false

theorem scanDirs_scanned (want : Dirent → Bool) (dirs : List Dirent) :
    Scanned want dirs (scanDirs want dirs) := by
  induction dirs using List.reverseRecOn with
  | nil => exact fun d h => absurd h List.not_mem_nil
  | append_singleton dirs x ih =>
    have hstep : scanDirs want (dirs ++ [x]) =
        if want x then
          if x.version < ((scanDirs want dirs).map Dirent.version).getD 0 then scanDirs want dirs
          else some x
        else scanDirs want dirs := by
      rw [scanDirs, List.foldl_append]
      rfl
    have hmem (d : Dirent) (h : d ∈ dirs ++ [x]) : d ∈ dirs ∨ d = x := by
      simpa using h
    rw [hstep]
    cases hfound : scanDirs want dirs with
    | none =>
      rw [hfound] at ih
      split_ifs with hx hlt
      · exact absurd hlt (by simp)
      · refine ⟨by simp, hx, fun d' h' hw => ?_⟩
        rcases hmem d' h' with h' | rfl
        · rw [ih d' h'] at hw
          cases hw
        · exact UInt32.le_refl _
      · intro d h
        rcases hmem d h with h | rfl
        · exact ih d h
        · exact Bool.eq_false_iff.mpr hx
    | some d =>
      rw [hfound] at ih
      split_ifs with hx hlt
      · refine ⟨List.mem_append_left _ ih.mem, ih.wanted, fun d' h' hw => ?_⟩
        rcases hmem d' h' with h' | rfl
        · exact ih.highest d' h' hw
        · exact UInt32.le_of_lt hlt
      · refine ⟨by simp, hx, fun d' h' hw => ?_⟩
        rcases hmem d' h' with h' | rfl
        · exact UInt32.le_trans (ih.highest d' h' hw) (UInt32.not_lt.mp hlt)
        · exact UInt32.le_refl _
      · refine ⟨List.mem_append_left _ ih.mem, ih.wanted, fun d' h' hw => ?_⟩
        rcases hmem d' h' with h' | rfl
        · exact ih.highest d' h' hw
        · exact absurd hw hx

theorem Newest.live (h : Newest dirs pino name d) : Live dirs pino name d :=
  ⟨h.mem, h.named, fun d' hmem hnamed _ => h.newest d' hmem hnamed⟩

theorem Live.unique (huniq : UniqueVersions dirs) (h : Live dirs pino name d)
    (h' : Live dirs pino name d') (hd : d.ino ≠ 0) (hd' : d'.ino ≠ 0) : d = d' := by
  refine huniq d h.mem d' h'.mem (h.named.1.trans h'.named.1.symm) ?_
  exact UInt32.le_antisymm (h'.newest d h.mem h.named hd) (h.newest d' h'.mem h'.named hd')

theorem findInode_ne_zero (h : findInode dirs name pino ≠ 0) :
    ∃ d, Live dirs pino name d ∧ d.ino ≠ 0 ∧ d.ino = findInode dirs name pino := by
  have hscan := scanDirs_scanned (fun d => d.pino = pino && d.name = name && d.ino ≠ 0) dirs
  rw [findInode] at h ⊢
  cases hfound : scanDirs (fun d => d.pino = pino && d.name = name && d.ino ≠ 0) dirs with
  | none =>
    rw [hfound] at h
    exact absurd rfl h
  | some d =>
    rw [hfound] at hscan
    have hw := hscan.wanted
    simp only [Bool.and_eq_true, decide_eq_true_eq] at hw
    refine ⟨d, ⟨hscan.mem, ⟨hw.1.1, hw.1.2⟩, fun d' hmem hnamed hd' => ?_⟩, hw.2, rfl⟩
    refine hscan.highest d' hmem ?_
    simp only [Bool.and_eq_true, decide_eq_true_eq]
    exact ⟨hnamed, hd'⟩

theorem findInode_eq (huniq : UniqueVersions dirs) (h : Live dirs pino name d) (hd : d.ino ≠ 0) :
    findInode dirs name pino = d.ino := by
  have hne : findInode dirs name pino ≠ 0 := by
    have hscan := scanDirs_scanned (fun d => d.pino = pino && d.name = name && d.ino ≠ 0) dirs
    rw [findInode]
    cases hfound : scanDirs (fun d => d.pino = pino && d.name = name && d.ino ≠ 0) dirs with
    | none =>
      rw [hfound] at hscan
      have hw := hscan d h.mem
      simp [h.named.1, h.named.2, hd] at hw
    | some d' =>
      rw [hfound] at hscan
      have hw := hscan.wanted
      simp only [Bool.and_eq_true, decide_eq_true_eq] at hw
      exact hw.2
  obtain ⟨d', hlive, hd', hino⟩ := findInode_ne_zero hne
  rw [← hino, h.unique huniq hlive hd hd']

/-- The loop over the names is a walk along entries that are not unlinks. -/
theorem searchNames_eq (huniq : UniqueVersions dirs) (h : Walk (Live dirs) names pino d) :
    searchNames dirs names pino = d.ino := by
  induction h with
  | last hlive hd =>
    simp only [searchNames, findInode_eq huniq hlive hd, if_neg hd]
  | dir hlive hd _ ih =>
    simp only [searchNames, findInode_eq huniq hlive hd, if_neg hd, ih]

theorem searchNames_ne_zero (hne : names ≠ []) (h : searchNames dirs names pino ≠ 0) :
    ∃ d, Walk (Live dirs) names pino d ∧ d.ino = searchNames dirs names pino := by
  induction names generalizing pino with
  | nil => exact absurd rfl hne
  | cons name names ih =>
    simp only [searchNames] at h ⊢
    split_ifs at h ⊢ with hfind
    · exact absurd rfl h
    · obtain ⟨d, hlive, hd, hino⟩ := findInode_ne_zero hfind
      cases names with
      | nil => exact ⟨d, .last hlive hd, hino⟩
      | cons name' names =>
        obtain ⟨d', hwalk, hino'⟩ := ih (List.cons_ne_nil _ _) h
        rw [← hino] at hwalk hino'
        exact ⟨d', .dir hlive hd hwalk, by rw [hino', hino]⟩

theorem components_ne_nil (fname : List UInt8) : components fname ≠ [] :=
  List.splitOnP_ne_nil _ _

theorem Walk.live (h : Walk (Newest dirs) names pino d) : Walk (Live dirs) names pino d := by
  induction h with
  | last hnew hd => exact .last hnew.live hd
  | dir hnew hd _ ih => exact .dir hnew.live hd ih

theorem Walk.unique (huniq : UniqueVersions dirs) (h : Walk (Live dirs) names pino d)
    (h' : Walk (Live dirs) names pino d') : d = d' := by
  induction h with
  | last hlive hd =>
    cases h' with
    | last hlive' hd' => exact hlive.unique huniq hlive' hd hd'
    | dir _ _ hwalk => cases hwalk
  | dir hlive hd hwalk ih =>
    cases h' with
    | last => cases hwalk
    | dir hlive' hd' hwalk' =>
      rw [hlive.unique huniq hlive' hd hd'] at ih
      exact ih hwalk'

theorem Walk.mem {entry : UInt32 → List UInt8 → Dirent → Prop}
    (hentry : ∀ pino name d, entry pino name d → d ∈ dirs) (h : Walk entry names pino d) :
    d ∈ dirs ∧ d.ino ≠ 0 := by
  induction h with
  | last hd hne => exact ⟨hentry _ _ _ hd, hne⟩
  | dir _ _ _ ih => exact ih

end

end UBoot.Jffs2
