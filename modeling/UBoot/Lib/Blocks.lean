import UBoot.Lib.Mem32
import Mathlib.Algebra.BigOperators.Group.Finset.Basic
import Mathlib.Algebra.Order.BigOperators.Group.Finset

/-!
# Blocks that are stored one after another

A `Block` is bytes for an offset; `storeAll` stores blocks from a base on, later ones over earlier
ones. `Tiles` says that blocks make up an image: none goes beyond it, every byte of it lies in
exactly one of them, and their bytes are those of the image. `tiles_iff` says when blocks that have
as many bytes as an image leave just that image in memory.
-/

namespace UBoot.Lib

structure Block where
  off : UInt32
  data : List UInt8
  deriving DecidableEq

def Block.Covers (b : Block) (k : ℕ) : Prop := b.off.toNat ≤ k ∧ k < b.off.toNat + b.data.length

instance (b : Block) (k : ℕ) : Decidable (b.Covers k) := inferInstanceAs (Decidable (_ ∧ _))

/-- The byte that a block has for an offset modulo 2^32. -/
def Block.get? (b : Block) (k : UInt32) : Option UInt8 := b.data[(k - b.off).toNat]?

/-- The byte that the last of the blocks has for an offset. -/
def lastByte (bs : List Block) (k : UInt32) : Option UInt8 :=
  bs.foldl (fun r b => (b.get? k).or r) none

def Mem32.storeAll (m : Mem32) (base : UInt32) (bs : List Block) : Mem32 :=
  bs.foldl (fun m b => m.store (base + b.off) b.data) m

def Below (bs : List Block) (n : ℕ) : Prop :=
  ∀ b ∈ bs, ∀ i < b.data.length, b.off.toNat + i < n

structure Tiles (bs : List Block) (image : List UInt8) : Prop where
  inside : Below bs image.length
  once : ∀ k < image.length, bs.countP (·.Covers k) = 1
  same : ∀ b ∈ bs, ∀ i < b.data.length, b.data[i]? = image[b.off.toNat + i]?

def total (bs : List Block) : ℕ := (bs.map (·.data.length)).sum

section
variable {m : Mem32} {base k : UInt32} {bs l l' : List Block} {b : Block} {image : List UInt8}

theorem store_apply (m : Mem32) (base off : UInt32) (data : List UInt8) :
    m.store (base + off) data (base + k) =
      (Block.get? ⟨off, data⟩ k).getD (m (base + k)) := by
  have hsub : base + k - (base + off) = k - off := by grind
  rw [Mem32.store, Block.get?, hsub]
  cases data[(k - off).toNat]? <;> rfl

theorem lastByte_snoc : lastByte (l ++ [b]) k = (b.get? k).or (lastByte l k) := by
  rw [lastByte, List.foldl_append]
  rfl

theorem storeAll_apply :
    m.storeAll base bs (base + k) = (lastByte bs k).getD (m (base + k)) := by
  induction bs using List.reverseRecOn with
  | nil => rfl
  | append_singleton bs b ih =>
    rw [Mem32.storeAll, List.foldl_append]
    refine (store_apply _ base b.off b.data).trans ?_
    rw [lastByte_snoc]
    cases hb : b.get? k with
    | none =>
      rw [Option.none_or, ← ih]
      rfl
    | some x =>
      rw [Option.some_or]
      rfl

theorem lastByte_isSome : (lastByte bs k).isSome ↔ ∃ b ∈ bs, (b.get? k).isSome := by
  induction bs using List.reverseRecOn with
  | nil => exact iff_of_false Bool.false_ne_true fun ⟨_, h, _⟩ => absurd h List.not_mem_nil
  | append_singleton bs b ih =>
    rw [lastByte_snoc, Option.isSome_or, Bool.or_eq_true, ih]
    constructor
    · rintro (h | ⟨b', hb', h⟩)
      · exact ⟨b, List.mem_append_right _ (List.mem_singleton_self b), h⟩
      · exact ⟨b', List.mem_append_left _ hb', h⟩
    · rintro ⟨b', hb', h⟩
      rcases List.mem_append.mp hb' with hb' | hb'
      · exact .inr ⟨b', hb', h⟩
      · rw [List.mem_singleton.mp hb'] at h
        exact .inl h

theorem eq_of_getD_eq {o o' : Option UInt8} (h : ∀ x, o.getD x = o'.getD x) : o = o' := by
  cases o with
  | none =>
    cases o' with
    | none => rfl
    | some y =>
      have h0 := h 0
      have h1 := h 1
      simp only [Option.getD_none, Option.getD_some] at h0 h1
      exact absurd (h0.trans h1.symm) (by decide)
  | some x =>
    cases o' with
    | none =>
      have h0 := h 0
      have h1 := h 1
      simp only [Option.getD_none, Option.getD_some] at h0 h1
      exact absurd (h0.symm.trans h1) (by decide)
    | some y => exact congrArg some (h 0)

/-- Blocks leave an image in every memory if the last of them for each offset has its byte. -/
theorem storeAll_eq_iff :
    (∀ m : Mem32, m.storeAll base bs = m.store base image) ↔
      ∀ k : UInt32, lastByte bs k = image[k.toNat]? := by
  have hstore (m : Mem32) (k : UInt32) :
      m.store base image (base + k) = (image[k.toNat]?).getD (m (base + k)) := by
    have h := store_apply (k := k) m base 0 image
    rwa [UInt32.add_zero, Block.get?, UInt32.sub_zero] at h
  constructor
  · intro h k
    refine eq_of_getD_eq fun x => ?_
    have hx := congrFun (h fun _ => x) (base + k)
    rwa [storeAll_apply, hstore] at hx
  · intro h m
    funext a
    have ha : a = base + (a - base) := by grind
    rw [ha, storeAll_apply, hstore, h]

theorem total_eq_zero (h : ∀ m : Mem32, m.storeAll base bs = m) : total bs = 0 := by
  have hlast := (@storeAll_eq_iff base bs []).mp h
  refine List.sum_eq_zero fun n hn => ?_
  obtain ⟨b, hb, rfl⟩ := List.mem_map.mp hn
  by_contra hne
  have hsome : (b.get? b.off).isSome := by
    rw [Block.get?, UInt32.sub_self, isSome_getElem?]
    exact Nat.pos_of_ne_zero hne
  have hbyte := lastByte_isSome.mpr ⟨b, hb, hsome⟩
  rw [hlast, List.getElem?_nil] at hbyte
  cases hbyte

/-! ## Tilings -/

theorem get?_off_add {i : ℕ} (h : b.off.toNat + i < 2 ^ 32) :
    b.get? (UInt32.ofNat (b.off.toNat + i)) = b.data[i]? := by
  have hk : UInt32.ofNat (b.off.toNat + i) - b.off = UInt32.ofNat i := by
    rw [UInt32.ofNat_add, UInt32.ofNat_toNat]
    grind
  rw [Block.get?, hk, UInt32.toNat_ofNat', Nat.mod_eq_of_lt (by omega)]

/-- A block that does not wrap covers the offsets it has a byte for. -/
theorem covers_iff (h : Below bs (2 ^ 32)) (hb : b ∈ bs) :
    b.Covers k.toNat ↔ (b.get? k).isSome := by
  rw [Block.get?, isSome_getElem?]
  have hk : k = b.off + (k - b.off) := by grind
  have hnat := congrArg UInt32.toNat hk
  rw [UInt32.toNat_add] at hnat
  constructor
  · rintro ⟨hle, hlt⟩
    have hlt' := k.toNat_lt
    have hsub : (k - b.off).toNat = k.toNat - b.off.toNat :=
      UInt32.toNat_sub_of_le _ _ (UInt32.le_iff_toNat_le.mpr hle)
    omega
  · intro hlt
    have := h b hb _ hlt
    rw [Nat.mod_eq_of_lt this] at hnat
    exact ⟨by omega, by omega⟩

theorem exists_of_once {n : ℕ} (h : bs.countP (·.Covers n) = 1) :
    ∃ l b l', bs = l ++ b :: l' ∧ b.Covers n ∧ ∀ b' ∈ l ++ l', ¬ b'.Covers n := by
  have hpos : 0 < bs.countP (·.Covers n) := by omega
  obtain ⟨b, hb, hc⟩ := List.countP_pos_iff.mp hpos
  obtain ⟨l, l', rfl⟩ := List.append_of_mem hb
  refine ⟨l, b, l', rfl, of_decide_eq_true hc, fun b' hb' hcov => ?_⟩
  rw [List.countP_append, List.countP_cons, if_pos hc, ← Nat.add_assoc, ← List.countP_append] at h
  have : 0 < (l ++ l').countP (·.Covers n) :=
    List.countP_pos_iff.mpr ⟨b', hb', decide_eq_true hcov⟩
  omega

theorem lastByte_append_cons (h : ∀ b' ∈ l', ¬ (b'.get? k).isSome) (hb : (b.get? k).isSome) :
    lastByte (l ++ b :: l') k = b.get? k := by
  induction l' using List.reverseRecOn with
  | nil => rw [lastByte_snoc, Option.or_of_isSome hb]
  | append_singleton l' b' ih =>
    have hb' := h b' (List.mem_append_right _ (List.mem_singleton_self b'))
    have hlist : l ++ b :: (l' ++ [b']) = (l ++ b :: l') ++ [b'] := by simp
    have hnone : b'.get? k = none := by simpa using hb'
    rw [hlist, lastByte_snoc, hnone, Option.none_or]
    exact ih fun b'' hb'' => h b'' (List.mem_append_left _ hb'')

theorem lastByte_of_once (h : Below bs (2 ^ 32)) (honce : bs.countP (·.Covers k.toNat) = 1)
    (hb : b ∈ bs) (hcov : b.Covers k.toNat) : lastByte bs k = b.get? k := by
  obtain ⟨l, b₀, l', rfl, hcov₀, hnot⟩ := exists_of_once honce
  have hb₀ : b₀ ∈ l ++ b₀ :: l' := List.mem_append_right _ List.mem_cons_self
  have heq : b = b₀ := by
    rcases List.mem_append.mp hb with hb | hb
    · exact absurd hcov (hnot b (List.mem_append_left _ hb))
    · rcases List.mem_cons.mp hb with rfl | hb
      · rfl
      · exact absurd hcov (hnot b (List.mem_append_right _ hb))
  rw [heq]
  refine lastByte_append_cons (fun b' hb' => ?_) ((covers_iff h hb₀).mp hcov₀)
  rw [← covers_iff h (List.mem_append_right _ (List.mem_cons_of_mem _ hb'))]
  exact hnot b' (List.mem_append_right _ hb')

theorem sum_covers {n : ℕ} (h : ∀ i < b.data.length, b.off.toNat + i < n) :
    (∑ k ∈ Finset.range n, if b.Covers k then 1 else 0) = b.data.length := by
  rw [Finset.sum_boole]
  have heq : (Finset.range n).filter (fun k => b.Covers k) =
      Finset.Ico b.off.toNat (b.off.toNat + b.data.length) := by
    ext k
    rw [Finset.mem_filter, Finset.mem_range, Finset.mem_Ico, Block.Covers]
    refine and_iff_right_of_imp fun ⟨hle, hlt⟩ => ?_
    have := h (k - b.off.toNat) (by omega)
    omega
  rw [heq, Nat.card_Ico, Nat.add_sub_cancel_left, Nat.cast_id]

theorem sum_countP {n : ℕ} (h : Below bs n) :
    ∑ k ∈ Finset.range n, bs.countP (·.Covers k) = total bs := by
  induction bs with
  | nil => exact Finset.sum_const_zero
  | cons b bs ih =>
    have hb := sum_covers (h b List.mem_cons_self)
    have hbs := ih fun b' hb' => h b' (List.mem_cons_of_mem _ hb')
    simp only [List.countP_cons, decide_eq_true_eq, Finset.sum_add_distrib, hb, hbs]
    rw [total, total, List.map_cons, List.sum_cons, Nat.add_comm]

theorem Tiles.total_eq (h : Tiles bs image) : total bs = image.length := by
  rw [← sum_countP h.inside, Finset.sum_congr rfl fun k hk => h.once k (Finset.mem_range.mp hk),
    Finset.sum_const, Finset.card_range, Nat.nsmul_eq_mul, Nat.mul_one]

/-- **Which blocks leave just an image.** Blocks with as many bytes as the image do so if and only
if they make it up. -/
theorem tiles_iff (hc : image.length < 2 ^ 32) :
    ((∀ m : Mem32, m.storeAll base bs = m.store base image) ∧ total bs = image.length) ↔
      Tiles bs image := by
  rw [storeAll_eq_iff]
  constructor
  · rintro ⟨hlast, htotal⟩
    have hcov : ∀ k : UInt32, (∃ b ∈ bs, (b.get? k).isSome) ↔ k.toNat < image.length := fun k => by
      rw [← lastByte_isSome, hlast k, isSome_getElem?]
    -- a block that starts in the image cannot leave it
    have hinside : Below bs image.length := by
      intro b hb
      have hstep : ∀ i, b.off.toNat + i < 2 ^ 32 → i < b.data.length →
          b.off.toNat + i < image.length := fun i hlt hi => by
        have hk := (hcov (UInt32.ofNat (b.off.toNat + i))).mp ⟨b, hb, by
          rwa [get?_off_add hlt, isSome_getElem?]⟩
        rwa [UInt32.toNat_ofNat', Nat.mod_eq_of_lt hlt] at hk
      intro i
      induction i with
      | zero => exact hstep 0 b.off.toNat_lt
      | succ i ih =>
        intro hi
        have hprev := ih (by omega)
        exact hstep (i + 1) (by omega) hi
    have hbelow : Below bs (2 ^ 32) := fun b hb i hi => (hinside b hb i hi).trans hc
    have honce : ∀ k < image.length, bs.countP (·.Covers k) = 1 := by
      have hpos : ∀ k ∈ Finset.range image.length, 1 ≤ bs.countP (·.Covers k) := fun k hk => by
        have hk := Finset.mem_range.mp hk
        have hnat : (UInt32.ofNat k).toNat = k := by
          rw [UInt32.toNat_ofNat', Nat.mod_eq_of_lt (hk.trans hc)]
        obtain ⟨b, hb, hsome⟩ := (hcov (UInt32.ofNat k)).mpr (by rwa [hnat])
        have hcover := (covers_iff hbelow hb).mpr hsome
        rw [hnat] at hcover
        exact List.countP_pos_iff.mpr ⟨b, hb, decide_eq_true hcover⟩
      have hsum : ∑ k ∈ Finset.range image.length, 1 =
          ∑ k ∈ Finset.range image.length, bs.countP (·.Covers k) := by
        rw [sum_countP hinside, htotal, Finset.sum_const, Finset.card_range, Nat.nsmul_eq_mul,
          Nat.mul_one]
      intro k hk
      exact ((Finset.sum_eq_sum_iff_of_le hpos).mp hsum k (Finset.mem_range.mpr hk)).symm
    refine ⟨hinside, honce, fun b hb i hi => ?_⟩
    have hlt := hinside b hb i hi
    have hnat : (UInt32.ofNat (b.off.toNat + i)).toNat = b.off.toNat + i := by
      rw [UInt32.toNat_ofNat', Nat.mod_eq_of_lt (hlt.trans hc)]
    have hbyte := @lastByte_of_once (UInt32.ofNat (b.off.toNat + i)) bs b hbelow
      (by rw [hnat]; exact honce _ hlt) hb
      (by rw [hnat]; exact ⟨Nat.le_add_right _ _, Nat.add_lt_add_left hi _⟩)
    rw [hlast, hnat, get?_off_add (hlt.trans hc)] at hbyte
    exact hbyte.symm
  · intro h
    have hbelow : Below bs (2 ^ 32) := fun b hb i hi => (h.inside b hb i hi).trans hc
    refine ⟨fun k => ?_, h.total_eq⟩
    by_cases hk : k.toNat < image.length
    · obtain ⟨l, b, l', rfl, hcov, -⟩ := exists_of_once (h.once _ hk)
      have hb : b ∈ l ++ b :: l' := List.mem_append_right _ List.mem_cons_self
      rw [lastByte_of_once hbelow (h.once _ hk) hb hcov]
      obtain ⟨i, hi⟩ := Nat.exists_eq_add_of_le hcov.1
      have hki : k = UInt32.ofNat (b.off.toNat + i) := by rw [← hi, UInt32.ofNat_toNat]
      have hlt := hcov.2
      rw [hki, get?_off_add (by rw [← hi]; exact k.toNat_lt), ← hki, hi]
      exact h.same b hb i (by omega)
    · rw [List.getElem?_eq_none (Nat.le_of_not_lt hk), ← Option.not_isSome_iff_eq_none,
        lastByte_isSome]
      rintro ⟨b, hb, hsome⟩
      obtain ⟨hle, hlt⟩ := (covers_iff hbelow hb).mpr hsome
      have := h.inside b hb (k.toNat - b.off.toNat) (by omega)
      omega

end

end UBoot.Lib
