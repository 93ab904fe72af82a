import Mathlib.Data.Finset.Dedup
import Mathlib.Data.Set.Card

/-!
# First occurrences

The elements of a list of which no equal one comes before them, for an equality that is a relation
`r`, and how many classes of equal elements there are.
-/

namespace UBoot.Lib

variable {α : Type*} (r : α → α → Prop) [DecidableRel r]

def firstOccurrences (xs : List α) : List α :=
  (xs.zipIdx.filter fun p : α × ℕ => decide (∀ y ∈ xs.take p.2, ¬ r y p.1)).map Prod.fst

omit [DecidableRel r] in
/-- The relation is an equivalence between the elements of a list. -/
structure EquivalenceOn (xs : List α) : Prop where
  refl : ∀ x ∈ xs, r x x
  symm : ∀ x ∈ xs, ∀ y ∈ xs, r x y → r y x
  trans : ∀ x ∈ xs, ∀ y ∈ xs, ∀ z ∈ xs, r x y → r y z → r x z

omit [DecidableRel r] in
/-- The elements equal to `x`. -/
def classOf (xs : List α) (x : α) : Set α := {y | y ∈ xs ∧ r x y}

omit [DecidableRel r] in
def classes (xs : List α) : Set (Set α) := {c | ∃ x ∈ xs, c = classOf r xs x}

variable {r} {pre xs ys : List α} {x : α}

omit [DecidableRel r] in
theorem EquivalenceOn.classOf_eq {y : α} (hr : EquivalenceOn r xs) (hx : x ∈ xs) (hy : y ∈ xs)
    (hxy : r x y) : classOf r xs x = classOf r xs y := by
  ext z
  refine and_congr_right fun hz => ⟨fun h => ?_, fun h => ?_⟩
  · exact hr.trans y hy x hx z hz (hr.symm x hx y hy hxy) h
  · exact hr.trans x hx y hy z hz hxy h

/-- The scan of a list from the left, with what has been passed. -/
def scanFirsts (r : α → α → Prop) [DecidableRel r] : List α → List α → List α
  | _, [] => []
  | pre, x :: xs =>
    if ∀ y ∈ pre, ¬ r y x then x :: scanFirsts r (pre ++ [x]) xs else scanFirsts r (pre ++ [x]) xs

theorem scanFirsts_eq_filter (pre xs : List α) : scanFirsts r pre xs =
    ((xs.zipIdx pre.length).filter fun p : α × ℕ =>
      decide (∀ y ∈ (pre ++ xs).take p.2, ¬ r y p.1)).map Prod.fst := by
  induction xs generalizing pre with
  | nil => rfl
  | cons x xs ih =>
    have hrec := ih (pre ++ [x])
    rw [List.length_append, List.length_singleton, List.append_assoc, List.singleton_append] at hrec
    rw [scanFirsts, hrec, List.zipIdx_cons, List.filter_cons]
    dsimp only
    rw [List.take_left' rfl]
    by_cases hfirst : ∀ y ∈ pre, ¬ r y x
    · rw [if_pos hfirst, if_pos (decide_eq_true hfirst), List.map_cons]
    · rw [if_neg hfirst, if_neg (by simpa using hfirst)]

theorem firstOccurrences_eq_scan (xs : List α) : firstOccurrences r xs = scanFirsts r [] xs :=
  (scanFirsts_eq_filter [] xs).symm

/-- With an equality that is transitive, only what stays has to be looked at. -/
theorem scanFirsts_eq_eraseDupsBy (pre xs : List α)
    (htrans : ∀ x ∈ pre ++ xs, ∀ y ∈ pre ++ xs, ∀ z ∈ pre ++ xs, r x y → r y z → r x z) :
    scanFirsts r pre xs = (xs.filter fun x => decide (∀ y ∈ pre, ¬ r y x)).eraseDupsBy
      fun b a => decide (r a b) := by
  induction xs generalizing pre with
  | nil => rfl
  | cons x xs ih =>
    have hrec := ih (pre ++ [x]) (by simpa using htrans)
    rw [scanFirsts, hrec, List.filter_cons]
    by_cases hfirst : ∀ y ∈ pre, ¬ r y x
    · rw [if_pos hfirst, if_pos (decide_eq_true hfirst), List.eraseDupsBy_cons, List.filter_filter]
      refine congrArg (fun l => x :: List.eraseDupsBy _ l) (List.filter_congr fun y _ => ?_)
      simp [or_imp, forall_and, and_comm]
    · rw [if_neg hfirst, if_neg (by simpa using hfirst)]
      refine congrArg (List.eraseDupsBy _) (List.filter_congr fun y hy => ?_)
      -- what is equal to `x` is equal to something in front of `x`
      push Not at hfirst
      obtain ⟨w, hw, hwx⟩ := hfirst
      have hwy (hxy : r x y) : r w y :=
        htrans w (by simp [hw]) x (by simp) y (by simp [hy]) hwx hxy
      simp only [List.mem_append, List.mem_singleton, decide_eq_decide]
      exact ⟨fun h v hv => h v (.inl hv), fun h v hv =>
        hv.elim (h v) fun hvx hr => h w hw (hwy (hvx ▸ hr))⟩

theorem firstOccurrences_eq (hr : EquivalenceOn r xs) :
    firstOccurrences r xs = xs.eraseDupsBy fun b a => decide (r a b) := by
  rw [firstOccurrences_eq_scan, scanFirsts_eq_eraseDupsBy [] xs (by simpa using hr.trans)]
  simp

/-- Induction along `eraseDupsBy`: what is equal to the head goes with it. -/
theorem eraseDups_induction {motive : List α → Prop} (hnil : motive [])
    (hcons : ∀ x xs, motive (xs.filter fun b => decide (r x b) = false) → motive (x :: xs))
    (xs : List α) : motive xs := by
  induction h : xs.length using Nat.strong_induction_on generalizing xs with
  | _ n ih =>
    subst h
    cases xs with
    | nil => exact hnil
    | cons x xs =>
      have hlen := List.length_filter_le (fun b => decide (decide (r x b) = false)) xs
      exact hcons x xs (ih _ (Nat.lt_succ_of_le hlen) _ rfl)

theorem eraseDupsBy_sublist (xs : List α) :
    (xs.eraseDupsBy fun b a => decide (r a b)).Sublist xs := by
  induction xs using eraseDups_induction (r := r) with
  | hnil => exact List.Sublist.refl _
  | hcons x xs ih =>
    rw [List.eraseDupsBy_cons]
    exact (ih.trans List.filter_sublist).cons_cons x

theorem eraseDupsBy_pairwise (xs : List α) :
    (xs.eraseDupsBy fun b a => decide (r a b)).Pairwise fun a b => ¬ r a b := by
  induction xs using eraseDups_induction (r := r) with
  | hnil => exact List.Pairwise.nil
  | hcons x xs ih =>
    rw [List.eraseDupsBy_cons]
    refine List.pairwise_cons.2 ⟨fun y hy => ?_, ih⟩
    simpa using (List.mem_filter.1 ((eraseDupsBy_sublist _).subset hy)).2

theorem exists_mem_eraseDupsBy (hrefl : ∀ x ∈ xs, r x x) (hx : x ∈ xs) :
    ∃ y ∈ xs.eraseDupsBy fun b a => decide (r a b), r y x := by
  induction xs using eraseDups_induction (r := r) with
  | hnil => cases hx
  | hcons a as ih =>
    rw [List.eraseDupsBy_cons]
    by_cases hax : r a x
    · exact ⟨a, List.mem_cons_self, hax⟩
    · have hmem : x ∈ as.filter fun b => decide (r a b) = false := by
        rcases List.mem_cons.1 hx with rfl | hx
        · exact absurd (hrefl x List.mem_cons_self) hax
        · exact List.mem_filter.2 ⟨hx, by simpa using hax⟩
      obtain ⟨y, hy, hyx⟩ := ih
        (fun y hy => hrefl y (List.mem_cons_of_mem a (List.mem_of_mem_filter hy))) hmem
      exact ⟨y, List.mem_cons_of_mem a hy, hyx⟩

theorem length_firstOccurrences (hr : EquivalenceOn r xs) :
    (firstOccurrences r xs).length = (classes r xs).ncard := by
  classical
  rw [firstOccurrences_eq hr]
  have hsub := eraseDupsBy_sublist (r := r) xs
  have hpair := eraseDupsBy_pairwise (r := r) xs
  set ys := xs.eraseDupsBy fun b a => decide (r a b) with hys
  have hclasses : classes r xs = ((ys.map (classOf r xs)).toFinset : Set (Set α)) := by
    ext c
    rw [List.coe_toFinset, Set.mem_ofPred_eq, List.mem_map]
    constructor
    · rintro ⟨x, hx, rfl⟩
      obtain ⟨y, hy, hyx⟩ := exists_mem_eraseDupsBy hr.refl hx
      exact ⟨y, hy, hr.classOf_eq (hsub.subset hy) hx hyx⟩
    · rintro ⟨y, hy, rfl⟩
      exact ⟨y, hsub.subset hy, rfl⟩
  have hnodup : (ys.map (classOf r xs)).Nodup := by
    refine List.pairwise_map.2 (hpair.imp_of_mem fun {a b} ha hb hab heq => hab ?_)
    have hmem : b ∈ classOf r xs b := ⟨hsub.subset hb, hr.refl b (hsub.subset hb)⟩
    rw [← heq] at hmem
    exact hmem.2
  rw [hclasses, Set.ncard_coe_finset, List.toFinset_card_of_nodup hnodup, List.length_map]

end UBoot.Lib
