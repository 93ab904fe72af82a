import UBoot.Disk.PartDos

/-!
# Partition numbers

`Chain` is an extended-partition chain: readable tables with valid signatures, each with one
link to the next or, in the last one, none. `entries` numbers all entries of its tables by the
rule both walks share. On a chain the listing is the filtered numbering (`print_chain`) and the
lookup its first non-empty entry with the number (`find_chain`).

The lookup does not ask what it found: `lookup_agrees_iff` says that it agrees with the listing
for a number exactly when no extended entry has that number.
-/

namespace UBoot.Disk

/-- The tables from a sector on, with their sectors. `relative` is what links are relative to. -/
inductive Chain (d : BlockDev) : UInt32 → UInt32 → List (UInt32 × List DosPartition) → Prop where
  | last {sector relative : UInt32} {pts : List DosPartition} :
      readTable d sector = .ok pts → (∀ p ∈ pts, isExtended p.sysInd = false) →
      Chain d sector relative [(sector, pts)]
  | link {sector relative : UInt32} {pre post : List DosPartition} {p : DosPartition}
      {rest : List (UInt32 × List DosPartition)} :
      readTable d sector = .ok (pre ++ p :: post) → isExtended p.sysInd = true →
      (∀ q ∈ pre ++ post, isExtended q.sysInd = false) →
      Chain d (follow sector relative p).1 (follow sector relative p).2 rest →
      Chain d sector relative ((sector, pre ++ p :: post) :: rest)

abbrev Entry := UInt32 × DosPartition

/-- The entries of the tables, in the order of the walks. -/
def flat (tables : List (UInt32 × List DosPartition)) : List Entry :=
  tables.flatMap fun t => t.2.map (t.1, ·)

/-- Entries with their numbers, counted from `num` on. -/
def number : Int → List Entry → List (Int × Entry)
  | _, [] => []
  | num, x :: xs => (num, x) :: number (nextNum x.1 x.2 num) xs

def endNum (num : Int) (xs : List Entry) : Int := xs.foldl (fun num x => nextNum x.1 x.2 num) num

/-- All numbered entries of a chain that starts at the master boot record. -/
def entries (tables : List (UInt32 × List DosPartition)) : List (Int × Entry) :=
  number 1 (flat tables)

def Listed (x : Entry) : Prop := x.2.sysInd ≠ 0 ∧ (x.1 = 0 ∨ ¬ isExtended x.2.sysInd)

instance (x : Entry) : Decidable (Listed x) := inferInstanceAs (Decidable (_ ∧ _))

def linesOf (xs : List (Int × Entry)) : List Line :=
  xs.filterMap fun x => if Listed x.2 then some (printOnePart x.2.2 x.2.1 x.1) else none

def wanted (part : Int) (x : Int × Entry) : Bool := x.2.2.sysInd ≠ 0 ∧ x.1 = part

variable {d : BlockDev} {sector relative : UInt32} {tables : List (UInt32 × List DosPartition)}
  {pts : List DosPartition} {xs ys : List Entry} {num part : Int} {fuel : Nat}

theorem number_append :
    number num (xs ++ ys) = number num xs ++ number (endNum num xs) ys := by
  induction xs generalizing num with
  | nil => rfl
  | cons x xs ih => rw [List.cons_append, number, ih]; rfl

theorem linesOf_append (xs ys : List (Int × Entry)) :
    linesOf (xs ++ ys) = linesOf xs ++ linesOf ys := List.filterMap_append

theorem linesOf_cons (x : Int × Entry) (xs : List (Int × Entry)) :
    linesOf (x :: xs) =
      if Listed x.2 then printOnePart x.2.2 x.2.1 x.1 :: linesOf xs else linesOf xs := by
  rw [linesOf, List.filterMap_cons]
  by_cases h : Listed x.2
  · rw [if_pos h, if_pos h]
    rfl
  · rw [if_neg h, if_neg h]
    rfl

theorem flat_cons (t : UInt32 × List DosPartition) (ts : List (UInt32 × List DosPartition)) :
    flat (t :: ts) = t.2.map (t.1, ·) ++ flat ts := rfl

/-! ## The loops over a table -/

theorem printSlots_eq : printSlots sector num pts =
    (linesOf (number num (pts.map (sector, ·))), endNum num (pts.map (sector, ·))) := by
  induction pts generalizing num with
  | nil => rfl
  | cons p pts ih =>
    rw [printSlots, ih, List.map_cons, number, linesOf_cons]
    by_cases h : Listed (sector, p)
    · rw [if_pos h]
      exact if_pos h
    · rw [if_neg h]
      exact if_neg h

theorem findSlot_eq : findSlot sector part num pts =
    match (number num (pts.map (sector, ·))).find? (wanted part) with
    | some x => .inl x.2.2
    | none => .inr (endNum num (pts.map (sector, ·))) := by
  induction pts generalizing num with
  | nil => rfl
  | cons p pts ih =>
    rw [findSlot, List.map_cons, number, List.find?_cons]
    by_cases h : p.sysInd ≠ 0 ∧ num = part
    · rw [if_pos h, show wanted part (num, sector, p) = true from decide_eq_true h]
    · rw [if_neg h, show wanted part (num, sector, p) = false from decide_eq_false h, ih]
      rfl

theorem sector_of_mem_number {x : Int × Entry} (hx : x ∈ number num (pts.map (sector, ·))) :
    x.2.1 = sector := by
  induction pts generalizing num with
  | nil => cases hx
  | cons p pts ih =>
    rw [List.map_cons, number] at hx
    rcases List.mem_cons.mp hx with rfl | hx
    · rfl
    · exact ih hx

/-! ## The walks -/

theorem filter_link {pre post : List DosPartition} {p : DosPartition}
    (hp : isExtended p.sysInd = true) (hother : ∀ q ∈ pre ++ post, isExtended q.sysInd = false) :
    ((pre ++ p :: post).filter fun p => isExtended p.sysInd) = [p] ∧
    ((pre ++ p :: post).find? fun p => isExtended p.sysInd) = some p := by
  have hpre : ∀ q ∈ pre, ¬ isExtended q.sysInd = true := fun q hq => by
    rw [hother q (List.mem_append_left _ hq)]
    exact Bool.false_ne_true
  have hpost : ∀ q ∈ post, ¬ isExtended q.sysInd = true := fun q hq => by
    rw [hother q (List.mem_append_right _ hq)]
    exact Bool.false_ne_true
  constructor
  · rw [List.filter_append, List.filter_eq_nil_iff.mpr hpre, List.filter_cons, if_pos hp,
      List.filter_eq_nil_iff.mpr hpost, List.nil_append]
  · rw [List.find?_append, List.find?_eq_none.mpr hpre, List.find?_cons, hp, Option.none_or]

/-- **The listing of a chain** is its numbered entries, less those that are not listed. -/
theorem print_chain (h : Chain d sector relative tables) (hfuel : tables.length ≤ fuel) :
    printPartitionExtended d fuel sector relative num =
      some (linesOf (number num (flat tables))) := by
  induction h generalizing fuel num with
  | @last sector relative pts hread hno =>
    obtain ⟨fuel, rfl⟩ := Nat.exists_eq_add_of_le' hfuel
    have hfilter : (pts.filter fun p => isExtended p.sysInd) = [] :=
      List.filter_eq_nil_iff.mpr fun p hp => by
        rw [hno p hp]
        exact Bool.false_ne_true
    simp only [List.length_cons, List.length_nil, Nat.zero_add, printPartitionExtended, hread,
      printSlots_eq, hfilter]
    rw [flat_cons, number_append, linesOf_append]
    rfl
  | @link sector relative pre post p rest hread hp hother hrest ih =>
    rw [List.length_cons] at hfuel
    obtain ⟨fuel, rfl⟩ : ∃ fuel', fuel = fuel' + 1 := ⟨fuel - 1, by omega⟩
    have hrec := @ih (endNum num ((pre ++ p :: post).map (sector, ·))) fuel (by omega)
    simp only [printPartitionExtended, hread, printSlots_eq, (filter_link hp hother).1]
    rw [List.mapM_cons, List.mapM_nil, hrec, flat_cons, number_append, linesOf_append]
    simp only [Option.pure_def, Option.bind_eq_bind, Option.bind_some, Option.map_some,
      List.flatten_cons, List.flatten_nil, List.append_nil]

/-- **A lookup in a chain** finds its first non-empty entry that has the number. -/
theorem find_chain (h : Chain d sector relative tables) (hfuel : tables.length ≤ fuel) :
    findExtended d part fuel sector relative num =
      some (((number num (flat tables)).find? (wanted part)).map Prod.snd) := by
  induction h generalizing fuel num with
  | @last sector relative pts hread hno =>
    obtain ⟨fuel, rfl⟩ := Nat.exists_eq_add_of_le' hfuel
    have hnone : (pts.find? fun p => isExtended p.sysInd) = none :=
      List.find?_eq_none.mpr fun p hp => by
        rw [hno p hp]
        exact Bool.false_ne_true
    simp only [List.length_cons, List.length_nil, Nat.zero_add, findExtended, hread, findSlot_eq,
      hnone, flat_cons, number_append, List.find?_append]
    cases hfind : (number num (pts.map (sector, ·))).find? (wanted part) with
    | none => rfl
    | some x =>
      have hx := sector_of_mem_number (List.mem_of_find?_eq_some hfind)
      simp only [Option.some_or, Option.map_some, ← hx]
  | @link sector relative pre post p rest hread hp hother hrest ih =>
    rw [List.length_cons] at hfuel
    obtain ⟨fuel, rfl⟩ : ∃ fuel', fuel = fuel' + 1 := ⟨fuel - 1, by omega⟩
    have hrec := @ih (endNum num ((pre ++ p :: post).map (sector, ·))) fuel (by omega)
    simp only [findExtended, hread, findSlot_eq, (filter_link hp hother).2, flat_cons,
      number_append, List.find?_append]
    cases hfind : (number num ((pre ++ p :: post).map (sector, ·))).find? (wanted part) with
    | none => exact hrec
    | some x =>
      have hx := sector_of_mem_number (List.mem_of_find?_eq_some hfind)
      simp only [Option.some_or, Option.map_some, ← hx]

/-! ## The numbers -/

def Counted (x : Entry) : Prop := x.1 = 0 ∨ (x.2.sysInd ≠ 0 ∧ ¬ isExtended x.2.sysInd)

theorem le_of_mem_number {x : Int × Entry} (hx : x ∈ number num xs) : num ≤ x.1 := by
  induction xs generalizing num with
  | nil => cases hx
  | cons y xs ih =>
    rcases List.mem_cons.mp hx with rfl | hx
    · exact le_rfl
    · have hle := ih hx
      rw [nextNum] at hle
      split_ifs at hle <;> omega

theorem number_pairwise (num : Int) (xs : List Entry) :
    (number num xs).Pairwise fun x y => Counted x.2 → x.1 < y.1 := by
  induction xs generalizing num with
  | nil => exact .nil
  | cons x xs ih =>
    refine List.pairwise_cons.mpr ⟨fun y hy hx => ?_, ih _⟩
    have hle := le_of_mem_number hy
    rw [show nextNum x.1 x.2 num = num + 1 from if_pos hx] at hle
    change num < y.1
    omega

theorem wanted_iff {x : Int × Entry} : wanted part x = true ↔ x.2.2.sysInd ≠ 0 ∧ x.1 = part :=
  decide_eq_true_iff

theorem eq_of_wanted {x y : Int × Entry} (hfind : (number num xs).find? (wanted part) = some y)
    (hy : Counted y.2) (hx : x ∈ number num xs) (hw : wanted part x = true) : x = y := by
  obtain ⟨hyw, as, bs, hsplit, hbefore⟩ := List.find?_eq_some_iff_append.mp hfind
  have hpw := number_pairwise num xs
  rw [hsplit] at hx hpw
  rcases List.mem_append.mp hx with hx | hx
  · have := hbefore x hx
    rw [hw] at this
    cases this
  · rcases List.mem_cons.mp hx with rfl | hx
    · rfl
    · have hlt := (List.pairwise_cons.mp (List.pairwise_append.mp hpw).2.1).1 x hx hy
      have hxn := (wanted_iff.mp hw).2
      have hyn := (wanted_iff.mp hyw).2
      omega

/-- **Listing and lookup agree** on a partition number: what is listed under it is what is looked
up, and no extended entry is looked up. -/
structure Agrees (d : BlockDev) (fuel : Nat) (part : Int) : Prop where
  same : ∃ lines r, printPartDos d fuel = some lines ∧ getPartitionInfoDos d fuel part = some r ∧
    ∀ start size, (∃ type extd, Line.part part start size type extd ∈ lines) ↔
      ∃ info, r = some info ∧ info.start = start ∧ info.size = size
  usable : ∀ x, findExtended d part fuel 0 0 1 = some (some x) → isExtended x.2.sysInd = false

theorem mem_linesOf {l : List (Int × Entry)} {line : Line} :
    line ∈ linesOf l ↔ ∃ x ∈ l, Listed x.2 ∧ printOnePart x.2.2 x.2.1 x.1 = line := by
  rw [linesOf, List.mem_filterMap]
  refine exists_congr fun x => and_congr_right fun _ => ?_
  by_cases h : Listed x.2
  · rw [if_pos h, Option.some.injEq]
    exact (and_iff_right h).symm
  · rw [if_neg h]
    exact iff_of_false (fun h => by cases h) fun hx => h hx.1

/-- **When a lookup agrees with the listing.** On every disk with a chain of extended partitions,
and for every number, exactly when no extended entry has the number. -/
theorem lookup_agrees_iff (h : Chain d 0 0 tables) (hfuel : tables.length ≤ fuel) (part : Int) :
    Agrees d fuel part ↔ ∀ x ∈ entries tables, x.1 = part → isExtended x.2.2.sysInd = false := by
  have hfind := @find_chain d 0 0 tables 1 part fuel h hfuel
  have hprint := @print_chain d 0 0 tables 1 fuel h hfuel
  have hext : ∀ x : Int × Entry, isExtended x.2.2.sysInd = true → x.2.2.sysInd ≠ 0 := by
    rintro ⟨n, s, p⟩ hx h0
    change p.sysInd = 0 at h0
    change isExtended p.sysInd = true at hx
    rw [h0] at hx
    cases hx
  have hentry : findExtended d part fuel 0 0 1 =
      some (((entries tables).find? (wanted part)).map Prod.snd) := hfind
  constructor
  · rintro ⟨-, husable⟩ x hx hnum
    by_contra hnot
    have hxe : isExtended x.2.2.sysInd = true := Bool.eq_true_of_not_eq_false hnot
    have hxw : wanted part x = true := wanted_iff.mpr ⟨hext x hxe, hnum⟩
    cases hw : (entries tables).find? (wanted part) with
    | none => exact List.find?_eq_none.mp hw x hx hxw
    | some y =>
      -- what is looked up is not extended, so nothing behind it has its number
      have hyn := husable y.2 (by rw [hentry, hw]; rfl)
      have hy0 := (wanted_iff.mp (List.find?_some hw)).1
      have hxy := eq_of_wanted hw (.inr ⟨hy0, by rw [hyn]; exact Bool.false_ne_true⟩) hx hxw
      rw [hxy, hyn] at hxe
      cases hxe
  · intro hno
    have hplain : ∀ x ∈ entries tables, wanted part x = true → Counted x.2 := fun x hx hw =>
      .inr ⟨(wanted_iff.mp hw).1, by
        rw [hno x hx (wanted_iff.mp hw).2]
        exact Bool.false_ne_true⟩
    refine ⟨⟨_, _, congrArg (Option.map _) hprint, congrArg (Option.map _) hentry,
      fun start size => ?_⟩, fun x hx => ?_⟩
    · constructor
      · rintro ⟨type, extd, hline⟩
        obtain ⟨x, hx, hlisted, heq⟩ := mem_linesOf.mp (List.mem_of_ne_of_mem (by simp) hline)
        obtain ⟨rfl, rfl, rfl, -, -⟩ := Line.part.inj heq
        have hw : wanted x.1 x = true := wanted_iff.mpr ⟨hlisted.1, rfl⟩
        cases hfindx : (entries tables).find? (wanted x.1) with
        | none => exact absurd hw (List.find?_eq_none.mp hfindx x hx)
        | some y =>
          have hyw := List.find?_some hfindx
          obtain rfl := eq_of_wanted hfindx
            (hplain y (List.mem_of_find?_eq_some hfindx) hyw) hx hw
          exact ⟨_, rfl, rfl, rfl⟩
      · rintro ⟨info, hinfo, rfl, rfl⟩
        cases hfindx : (entries tables).find? (wanted part) with
        | none => rw [hfindx] at hinfo; cases hinfo
        | some y =>
          rw [hfindx] at hinfo
          cases hinfo
          have hyw := List.find?_some hfindx
          have hmem := List.mem_of_find?_eq_some hfindx
          obtain ⟨hy0, rfl⟩ := wanted_iff.mp hyw
          have hlisted : Listed y.2 := ⟨hy0, .inr (by
            rw [hno y hmem rfl]
            exact Bool.false_ne_true)⟩
          exact ⟨_, _, List.mem_cons_of_mem _ (mem_linesOf.mpr ⟨y, hmem, hlisted, rfl⟩)⟩
    · rw [hentry] at hx
      obtain ⟨y, hfindx, rfl⟩ := Option.map_eq_some_iff.mp (Option.some.inj hx)
      exact hno y (List.mem_of_find?_eq_some hfindx)
        (wanted_iff.mp (List.find?_some hfindx)).2

/-! ## A disk with two logical partitions -/

def sectorOf (pts : List DosPartition) (o : Nat) : UInt8 :=
  let p := pts.getD ((o - dosPartTblOffset) / 16) ⟨0, 0, 0⟩
  if o = dosPartMagicOffset then 0x55
  else if o = dosPartMagicOffset + 1 then 0xaa
  else
    match (o - dosPartTblOffset) % 16 with
    | 4 => p.sysInd
    | 8 => p.start4.toUInt8
    | 12 => p.size4.toUInt8
    | _ => 0

/-- A primary partition, and two logical ones in tables at 100 and 120, each in the first slot. -/
def sampleTables : List (UInt32 × List DosPartition) :=
  [(0, [⟨0x83, 1, 50⟩, ⟨5, 100, 50⟩, ⟨0, 0, 0⟩, ⟨0, 0, 0⟩]),
   (100, [⟨0x83, 1, 9⟩, ⟨5, 20, 10⟩, ⟨0, 0, 0⟩, ⟨0, 0, 0⟩]),
   (120, [⟨0x83, 1, 9⟩, ⟨0, 0, 0⟩, ⟨0, 0, 0⟩, ⟨0, 0, 0⟩])]

def sampleDisk : BlockDev where
  ifType := .ide
  dev := 0
  blockRead sector := (sampleTables.lookup sector).map sectorOf

theorem sampleDisk_chain : Chain sampleDisk 0 0 sampleTables :=
  @Chain.link _ _ _ [⟨0x83, 1, 50⟩] _ _ _ rfl rfl (by decide)
    (@Chain.link _ _ _ [⟨0x83, 1, 9⟩] _ _ _ rfl rfl (by decide) (.last rfl (by decide)))

/-- The first logical partition has number 5 for both. -/
theorem lookup_agrees_sample : Agrees sampleDisk 3 5 :=
  (lookup_agrees_iff sampleDisk_chain (by decide) 5).mpr (by decide)

/-- The second one is listed as number 6; the lookup of 6 finds the link to its table. -/
theorem lookup_finds_link : Chain sampleDisk 0 0 sampleTables ∧ ¬ Agrees sampleDisk 3 6 :=
  ⟨sampleDisk_chain, fun h => absurd (h.usable (100, ⟨5, 20, 10⟩) (by decide)) (by decide)⟩

end UBoot.Disk
