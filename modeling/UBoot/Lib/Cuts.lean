import Mathlib.Tactic

/-!
# Ranges cut into pieces

A `Cutter` says how long the piece that starts at an offset may be; `cuts` is what it makes of a
range. The pieces tile the range (`tiled_cuts`). `InPage` says that a piece lies within a page.

`inPage_cuts_iff` is about a cutter whose limit is the smaller of a fixed length and a bound that
is at least the rest of the page: when none of its pieces crosses into the next page.
-/

namespace UBoot.Lib

/-- The longest piece that may start at an offset. -/
structure Cutter where
  len : ℕ → ℕ
  pos : ∀ o, 0 < len o

/-- The pieces lie one behind the other from `o` to `e`, and none is empty. -/
def Tiled (e : ℕ) : ℕ → List (ℕ × ℕ) → Prop
  | o, [] => o = e
  | o, p :: ps => p.1 = o ∧ 0 < p.2 ∧ Tiled e (o + p.2) ps

theorem Tiled.le {e o : ℕ} {ps : List (ℕ × ℕ)} (h : Tiled e o ps) : o ≤ e := by
  induction ps generalizing o with
  | nil => exact Nat.le_of_eq h
  | cons p ps ih => exact (Nat.le_add_right _ _).trans (ih h.2.2)

def InPage (page : ℕ) (p : ℕ × ℕ) : Prop := p.1 % page + p.2 ≤ page

def pageEnd (page o : ℕ) : ℕ := o + (page - o % page)

theorem inPage_of_pageEnd {page o : ℕ} {p : ℕ × ℕ} (hp : 0 < page) (h : o ≤ p.1) (hl : 0 < p.2)
    (he : p.1 + p.2 ≤ pageEnd page o) : InPage page p := by
  have hmod := Nat.mod_lt o hp
  obtain ⟨k, hk⟩ := Nat.exists_eq_add_of_le h
  simp only [pageEnd] at he
  rw [InPage, hk, Nat.add_mod, Nat.mod_eq_of_lt (by omega : k < page), Nat.mod_eq_of_lt (by omega)]
  omega

theorem pageEnd_add {page o k : ℕ} (h : o % page + k < page) :
    pageEnd page (o + k) = pageEnd page o ∧ (o + k) % page = o % page + k := by
  have hmod : (o + k) % page = o % page + k := by
    rw [Nat.add_mod, Nat.mod_eq_of_lt (by omega : k < page), Nat.mod_eq_of_lt h]
  refine ⟨?_, hmod⟩
  rw [pageEnd, pageEnd, hmod]
  omega

theorem pageEnd_mod {page : ℕ} (hp : 0 < page) (o : ℕ) : pageEnd page o % page = 0 := by
  have hdiv := Nat.div_add_mod o page
  have hmod := Nat.mod_lt o hp
  have h : pageEnd page o = page * (o / page + 1) := by
    rw [pageEnd, Nat.mul_add, Nat.mul_one]
    omega
  rw [h, Nat.mul_mod_right]

namespace Cutter

variable (c : Cutter) {e o : ℕ} {p : ℕ × ℕ}

/-- The pieces of the range from `o` to `e`. -/
def cuts (e o : ℕ) : List (ℕ × ℕ) :=
  if o < e then (o, min (c.len o) (e - o)) :: cuts e (o + min (c.len o) (e - o)) else []
termination_by e - o
decreasing_by
  have := c.pos o
  omega

theorem cuts_of_lt (h : o < e) :
    c.cuts e o = (o, min (c.len o) (e - o)) :: c.cuts e (o + min (c.len o) (e - o)) := by
  rw [cuts, if_pos h]

theorem cuts_of_le (h : e ≤ o) : c.cuts e o = [] := by rw [cuts, if_neg (by omega)]

theorem tiled_cuts (h : o ≤ e) : Tiled e o (c.cuts e o) := by
  fun_induction c.cuts e o with
  | case1 o hlt ih =>
    have := c.pos o
    exact ⟨rfl, by simp only [lt_min_iff]; omega, ih (by omega)⟩
  | case2 o hge => exact Nat.le_antisymm h (by omega)

theorem of_mem_cuts (h : p ∈ c.cuts e o) :
    o ≤ p.1 ∧ 0 < p.2 ∧ p.1 + p.2 ≤ e ∧ p.2 ≤ c.len p.1 := by
  fun_induction c.cuts e o with
  | case1 o hlt ih =>
    have hpos := c.pos o
    rcases List.mem_cons.mp h with rfl | h
    · simp only
      omega
    · have := ih h
      omega
  | case2 o hge => cases h

/-! ## Pages -/

variable {page : ℕ}

theorem inPage_of_len (h : ∀ o, c.len o ≤ page - o % page) (hp : 0 < page)
    (hm : p ∈ c.cuts e o) : InPage page p := by
  have hl := (c.of_mem_cuts hm).2.2.2
  have := h p.1
  have := Nat.mod_lt p.1 hp
  rw [InPage]
  omega

variable {r : ℕ} {m : ℕ → ℕ}

/-- A cutter whose pieces have length `r`, unless a bound `m` that is at least the rest of the
page is smaller. Where a piece of length `r` ends within the page, the bound is no cut at the
page's end that `r` would leave room for. -/
structure Overlong (page r : ℕ) (m : ℕ → ℕ) : Prop where
  page_pos : 0 < page
  len_eq : ∀ o, c.len o = min (m o) r
  rest_le : ∀ o, page - o % page ≤ m o
  late : ∀ o, o % page + r < page → m (o + r) = page - (o + r) % page →
    r < page - (o + r) % page
  periodic : ∀ o, m o = m (o % page)

/-- Pieces that start at `o` end with the page: they fit it evenly, or the bound cuts there. -/
def Meets (page r : ℕ) (m : ℕ → ℕ) (o : ℕ) : Prop :=
  r ∣ page - o % page ∨ (m o = page - o % page ∧ page - o % page ≤ r)

instance : Decidable (Meets page r m o) := inferInstanceAs (Decidable (_ ∨ _))

/-- No piece of the range crosses into the next page. -/
def CrossFree (page e o : ℕ) : Prop := ∀ p ∈ c.cuts e o, InPage page p

variable {c}

theorem crossFree_of_le (hp : 0 < page) (h : e ≤ pageEnd page o) : c.CrossFree page e o := by
  intro p hm
  obtain ⟨hle, hpos, hend, -⟩ := c.of_mem_cuts hm
  exact inPage_of_pageEnd hp hle hpos (hend.trans h)

theorem crossFree_cons (h : o < e) :
    c.CrossFree page e o ↔ InPage page (o, min (c.len o) (e - o)) ∧
      c.CrossFree page e (o + min (c.len o) (e - o)) := by
  rw [CrossFree, c.cuts_of_lt h, List.forall_mem_cons]
  rfl

namespace Overlong

variable (w : c.Overlong page r m)

include w

theorem r_pos : 0 < r := by
  have := c.pos 0
  rw [w.len_eq, lt_min_iff] at this
  exact this.2

theorem meets_mod : Meets page r m o ↔ Meets page r m (o % page) := by
  rw [Meets, Meets, w.periodic o, Nat.mod_mod]

/-- A piece of length `r` that stays short of the page's end changes nothing. -/
theorem meets_add (h : o % page + r < page) : Meets page r m (o + r) ↔ Meets page r m o := by
  have hlate := w.late o h
  have hmod := (pageEnd_add h).2
  have hsub : page - o % page = (page - (o + r) % page) + r := by omega
  constructor
  · rintro (hd | ⟨hm, hle⟩)
    · exact .inl (hsub ▸ (Nat.dvd_add_left (Nat.dvd_refl r)).mpr hd)
    · exact absurd (hlate hm) (by omega)
  · rintro (hd | ⟨-, hle⟩)
    · exact .inl ((Nat.dvd_add_left (Nat.dvd_refl r)).mp (hsub ▸ hd))
    · omega

/-- Pieces of a range that leaves the page stay within pages if they meet the page's end and
those behind it do. -/
theorem crossFree_iff {o : ℕ} (h : pageEnd page o < e) :
    c.CrossFree page e o ↔ Meets page r m o ∧ c.CrossFree page e (pageEnd page o) := by
  have hmod := Nat.mod_lt o w.page_pos
  have hr := w.r_pos
  have hrest := w.rest_le o
  have hlt : o < e := by simp only [pageEnd] at h; omega
  have hlen := w.len_eq o
  have hle : page - o % page < e - o := by simp only [pageEnd] at h; omega
  rw [crossFree_cons hlt]
  rcases Nat.lt_trichotomy (c.len o) (page - o % page) with hl | hl | hl
  · -- a full piece that ends before the page does
    have hlr : c.len o = r := by omega
    rw [Nat.min_eq_left (by omega : c.len o ≤ e - o), hlr]
    have hin : o % page + r < page := by omega
    have hend := (pageEnd_add hin).1
    rw [crossFree_iff (by omega : pageEnd page (o + r) < e), w.meets_add hin, hend, InPage]
    exact and_iff_right (by simp only; omega)
  · -- the piece ends with the page
    rw [Nat.min_eq_left (by omega : c.len o ≤ e - o), hl]
    refine and_congr_left fun _ => iff_of_true ?_ ?_
    · simp only [InPage]
      omega
    · rcases Nat.le_total r (m o) with hrm | hrm
      · exact .inl ⟨1, by omega⟩
      · exact .inr ⟨by omega, by omega⟩
  · -- the piece crosses
    refine iff_of_false (fun ⟨hin, _⟩ => ?_) fun ⟨hm, _⟩ => ?_
    · simp only [InPage] at hin
      omega
    · rcases hm with hd | ⟨hm, -⟩
      · have := Nat.le_of_dvd (by omega) hd
        omega
      · omega
termination_by page - o % page
decreasing_by
  have := (pageEnd_add hin).2
  omega

theorem crossFree_aligned {o : ℕ} (ho : o % page = 0) :
    c.CrossFree page e o ↔ e ≤ o + page ∨ Meets page r m 0 := by
  have hp := w.page_pos
  have hend : pageEnd page o = o + page := by rw [pageEnd, ho, Nat.sub_zero]
  rcases Nat.lt_or_ge (o + page) e with h | h
  · rw [w.crossFree_iff (by omega), w.meets_mod, ho, hend,
      crossFree_aligned (by rw [Nat.add_mod_right, ho] : (o + page) % page = 0)]
    constructor
    · exact fun ⟨hm, _⟩ => .inr hm
    · rintro (hle | hm)
      · omega
      · exact ⟨hm, .inr hm⟩
  · exact iff_of_true (crossFree_of_le hp (by omega)) (.inl h)
termination_by e - o

/-- **When no piece crosses into the next page.** The range ends within its first page, or the
pieces meet that page's end and either the range ends in the next page or the pieces that start
with a page meet its end. -/
theorem inPage_cuts_iff : c.CrossFree page e o ↔ e ≤ pageEnd page o ∨
    (Meets page r m o ∧ (e ≤ pageEnd page o + page ∨ Meets page r m 0)) := by
  rcases Nat.lt_or_ge (pageEnd page o) e with h | h
  · rw [w.crossFree_iff h, w.crossFree_aligned (pageEnd_mod w.page_pos o)]
    exact ⟨.inr, fun hor => hor.resolve_left (by omega)⟩
  · exact iff_of_true (crossFree_of_le w.page_pos h) (.inl h)

end Overlong

end Cutter

end UBoot.Lib
