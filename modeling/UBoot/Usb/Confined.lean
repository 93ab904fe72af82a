import Mathlib.Data.List.ModifyLast
import UBoot.Usb.Config

/-!
# Which descriptor sets are parsed safely

`usb_config_iff`: the configuration of a device is read without an access outside the buffer and
`dev->config`, ends, and lists the interfaces of a well-formed set, if and only if the answers of
the device fit. `Parsing` is the invariant of the loop and `Fits` is followed descriptor by
descriptor in both directions.
-/

namespace UBoot.Usb

open Lib

section
variable {n total ifs eps fuel : Nat} {buffer : Buf UInt8 n} {s : Parse} {r : Option Parse}
  {c : ConfigDesc}

/-- The invariant of the loop: what the counters in `dev->config` say. -/
structure Parsing (s : Parse) (total ifs eps : Nat) : Prop where
  total : be16 s.config 2 = total
  noOfIf : (s.config.get 9).toNat = ifs
  ifs_le : ifs ≤ usbMaxinterfaces
  ifno : s.ifno = (ifs : Int) - 1
  noOfEp : 0 < ifs → (s.config.get (10 + (ifs - 1) * ifSize + 9)).toNat = eps
  eps_le : eps ≤ usbMaxendpoints

theorem ifDesc_ok {ifno : Int} {off : Nat} :
    ifDesc ifno = .ok off ↔
      (0 ≤ ifno ∧ ifno < usbMaxinterfaces) ∧ off = 10 + ifno.toNat * ifSize := by
  rw [ifDesc]
  split_ifs with h
  · exact ⟨fun hr => ⟨h, (Except.ok.inj hr).symm⟩, fun hr => congrArg _ hr.2.symm⟩
  · exact iff_of_false (fun hr => by cases hr) fun hr => h hr.1

theorem epDesc_ok {off epno ep : Nat} :
    epDesc off epno = .ok ep ↔ epno < usbMaxendpoints ∧ ep = off + 11 + epno * epSize := by
  rw [epDesc]
  split_ifs with h
  · exact ⟨fun hr => ⟨h, (Except.ok.inj hr).symm⟩, fun hr => congrArg _ hr.2.symm⟩
  · exact iff_of_false (fun hr => by cases hr) fun hr => h hr.1

theorem get_put_one {m i j : Nat} {b : Buf UInt8 m} {x : UInt8} :
    (b.put i [x]).get j = if j = i then x else b.get j := by
  split_ifs with h
  · subst h
    exact Buf.get_put (j := 0) (by rw [List.length_singleton]; exact Nat.zero_lt_one)
  · rcases Nat.lt_or_gt_of_ne h with h | h
    · exact Buf.get_put_of_lt h
    · exact Buf.get_put_of_ge h

/-- `dev->config` after an interface descriptor. -/
def putInterface (config : ConfigDesc) (ifs : Nat) (desc : List UInt8) : ConfigDesc :=
  ((config.put 9 [UInt8.ofNat (ifs + 1)]).put (10 + ifs * ifSize) desc).put
    (10 + ifs * ifSize + 9) [0]

/-- `dev->config` after an endpoint descriptor of interface `ifs`. -/
def putEndpoint (config : ConfigDesc) (ifs eps : Nat) (desc : List UInt8) : ConfigDesc :=
  swap16At ((config.put (10 + ifs * ifSize + 9) [UInt8.ofNat (eps + 1)]).put
    (10 + ifs * ifSize + 11 + eps * epSize) desc) (10 + ifs * ifSize + 11 + eps * epSize + 4)

/-- **An interface descriptor** is copied if the next entry is there and the copy fits. -/
theorem usbParseDesc_interface (h : Parsing s total ifs eps)
    (htype : buffer.get (s.index + 1) = usbDtInterface) :
    usbParseDesc buffer s = .ok r ↔ s.index + 1 < n ∧ ifs < usbMaxinterfaces ∧
      s.index + (buffer.get s.index).toNat ≤ n ∧
      10 + ifs * ifSize + (buffer.get s.index).toNat ≤ configSize ∧
      r = some ⟨s.index + (buffer.get s.index).toNat, ifs,
        putInterface s.config ifs (buffer.slice s.index (buffer.get s.index).toNat)⟩ := by
  have hnext : s.config.get 9 + 1 = UInt8.ofNat (ifs + 1) := by
    rw [← h.noOfIf, UInt8.ofNat_add, UInt8.ofNat_toNat]
    rfl
  rw [usbParseDesc, bind_eq_ok]
  simp only [Buf.rd_ok, and_assoc, exists_and_left, bind_eq_ok, exists_eq_left, htype, if_true,
    ifDesc_ok, Buf.load_ok, Buf.store_ok, hnext, h.noOfIf, Buf.slice_length, Int.toNat_natCast,
    Nat.cast_lt, putInterface]
  constructor
  · rintro ⟨hn, -, -, hifs, hin, hcopy, hr⟩
    exact ⟨hn, hifs, hin, hcopy, (Except.ok.inj hr).symm⟩
  · rintro ⟨hn, hifs, hin, hcopy, rfl⟩
    exact ⟨hn, by omega, by omega, hifs, hin, hcopy, rfl⟩

/-- **An endpoint descriptor** is copied behind an interface with a free entry if the copy fits. -/
theorem usbParseDesc_endpoint (h : Parsing s total ifs eps)
    (htype : buffer.get (s.index + 1) = usbDtEndpoint) :
    usbParseDesc buffer s = .ok r ↔ s.index + 1 < n ∧ 0 < ifs ∧ eps < usbMaxendpoints ∧
      s.index + (buffer.get s.index).toNat ≤ n ∧
      10 + (ifs - 1) * ifSize + 11 + eps * epSize + (buffer.get s.index).toNat ≤ configSize ∧
      r = some ⟨s.index + (buffer.get s.index).toNat, s.ifno,
        putEndpoint s.config (ifs - 1) eps
          (buffer.slice s.index (buffer.get s.index).toNat)⟩ := by
  have hne : usbDtEndpoint ≠ usbDtInterface := by decide
  have hle := h.ifs_le
  rw [usbParseDesc, bind_eq_ok]
  simp only [Buf.rd_ok, and_assoc, exists_and_left, bind_eq_ok, exists_eq_left, htype, if_neg hne,
    if_true, ifDesc_ok, epDesc_ok, Buf.load_ok, Buf.store_ok, h.ifno, Buf.slice_length]
  by_cases hpos : 0 < ifs
  · have hto : ((ifs : Int) - 1).toNat = ifs - 1 := by omega
    have hnext : s.config.get (10 + (ifs - 1) * ifSize + 9) + 1 = UInt8.ofNat (eps + 1) := by
      rw [← h.noOfEp hpos, UInt8.ofNat_add, UInt8.ofNat_toNat]
      rfl
    simp only [hto, hnext, h.noOfEp hpos, putEndpoint]
    constructor
    · rintro ⟨hn, -, -, -, heps, hin, hcopy, hr⟩
      exact ⟨hn, hpos, heps, hin, hcopy, (Except.ok.inj hr).symm⟩
    · rintro ⟨hn, -, heps, hin, hcopy, rfl⟩
      exact ⟨hn, by omega, by omega, by omega, heps, hin, hcopy, rfl⟩
  · constructor
    · rintro ⟨-, -, hnonneg, -⟩
      omega
    · rintro ⟨-, hifs, -⟩
      exact absurd hifs hpos

theorem usbParseDesc_other (hif : buffer.get (s.index + 1) ≠ usbDtInterface)
    (hep : buffer.get (s.index + 1) ≠ usbDtEndpoint) :
    usbParseDesc buffer s = .ok r ↔ s.index + 1 < n ∧
      r = if buffer.get s.index = 0 then none
        else some { s with index := s.index + (buffer.get s.index).toNat } := by
  rw [usbParseDesc, bind_eq_ok]
  simp only [Buf.rd_ok, and_assoc, exists_and_left, bind_eq_ok, exists_eq_left, if_neg hif,
    if_neg hep]
  constructor
  · rintro ⟨hn, -, hr⟩
    split_ifs at hr ⊢ <;> exact ⟨hn, (Except.ok.inj hr).symm⟩
  · rintro ⟨hn, rfl⟩
    refine ⟨hn, by omega, ?_⟩
    split_ifs <;> rfl

theorem get_swap16At_of_lt {m i j : Nat} {b : Buf UInt8 m} (h : j < i) :
    (swap16At b i).get j = b.get j := Buf.get_put_of_lt h

theorem be16_congr {m i : Nat} {b b' : Buf UInt8 m} (h : b.get i = b'.get i)
    (h' : b.get (i + 1) = b'.get (i + 1)) : be16 b i = be16 b' i := by rw [be16, be16, h, h']

theorem be16_swap16At {m i : Nat} {b : Buf UInt8 m} : be16 (swap16At b i) i = le16 b i := by
  have hlow : (swap16At b i).get i = b.get (i + 1) := Buf.get_put (j := 0) (by simp)
  have hhigh : (swap16At b i).get (i + 1) = b.get i := Buf.get_put (j := 1) (by simp)
  rw [be16, hlow, hhigh, le16]
  exact Nat.add_comm _ _

/-- In front of the entries only `no_of_if` changes. -/
theorem putInterface_front {config : ConfigDesc} {desc : List UInt8} {j : Nat} (hj : j < 10) :
    (putInterface config ifs desc).get j =
      if j = 9 then UInt8.ofNat (ifs + 1) else config.get j := by
  rw [putInterface, get_put_one, if_neg (by omega), Buf.get_put_of_lt (by omega), get_put_one]

theorem putEndpoint_front {config : ConfigDesc} {desc : List UInt8} {j : Nat}
    (hj : j < 10 + ifs * ifSize + 11) : (putEndpoint config ifs eps desc).get j =
      if j = 10 + ifs * ifSize + 9 then UInt8.ofNat (eps + 1) else config.get j := by
  rw [putEndpoint, get_swap16At_of_lt (by omega), Buf.get_put_of_lt (by omega), get_put_one]

theorem Parsing.interface (h : Parsing s total ifs eps) (hifs : ifs < usbMaxinterfaces)
    (index : Nat) (desc : List UInt8) :
    Parsing ⟨index, ifs, putInterface s.config ifs desc⟩ total (ifs + 1) 0 where
  total := by
    rw [← h.total]
    exact be16_congr ((putInterface_front (by decide)).trans (if_neg (by decide)))
      ((putInterface_front (by decide)).trans (if_neg (by decide)))
  noOfIf := by
    rw [putInterface_front (by decide), if_pos rfl, UInt8.toNat_ofNat']
    exact Nat.mod_eq_of_lt (by unfold usbMaxinterfaces at hifs; omega)
  ifs_le := hifs
  ifno := by push_cast; omega
  noOfEp := fun _ => by
    rw [Nat.add_sub_cancel, putInterface, get_put_one, if_pos rfl]
    rfl
  eps_le := Nat.zero_le _

theorem Parsing.endpoint (h : Parsing s total ifs eps)
    (heps : eps < usbMaxendpoints) (index : Nat) (desc : List UInt8) :
    Parsing ⟨index, s.ifno, putEndpoint s.config (ifs - 1) eps desc⟩ total ifs (eps + 1) where
  total := by
    rw [← h.total]
    exact be16_congr ((putEndpoint_front (by omega)).trans (if_neg (by omega)))
      ((putEndpoint_front (by omega)).trans (if_neg (by omega)))
  noOfIf := by
    rw [putEndpoint_front (by omega), if_neg (by omega)]
    exact h.noOfIf
  ifs_le := h.ifs_le
  ifno := h.ifno
  noOfEp := fun _ => by
    rw [putEndpoint_front (by omega), if_pos rfl, UInt8.toNat_ofNat']
    exact Nat.mod_eq_of_lt (by unfold usbMaxendpoints at heps; omega)
  eps_le := heps

theorem usbParseLoop_succ (h : Parsing s total ifs eps) : usbParseLoop buffer (fuel + 1) s =
    if s.index + 1 < total then
      match usbParseDesc buffer s with
      | .error e => .error e
      | .ok none => .ok (some s.config)
      | .ok (some s) => usbParseLoop buffer fuel s
    else .ok (some s.config) := by rw [← h.total]; rfl

theorem Fits.pos {index : Nat} (h : Fits buffer total index ifs eps) (hlt : index + 1 < total)
    (htype : buffer.get (index + 1) = usbDtInterface ∨ buffer.get (index + 1) = usbDtEndpoint) :
    0 < (buffer.get index).toNat := by
  cases h with
  | done hle => omega
  | interface _ _ _ hpos => exact hpos
  | endpoint _ _ _ hpos => exact hpos
  | other _ _ hif hep => exact (htype.elim hif hep).elim

theorem fits_of_loop (h : Parsing s total ifs eps)
    (hloop : usbParseLoop buffer fuel s = .ok (some c)) : Fits buffer total s.index ifs eps := by
  induction fuel generalizing s ifs eps with
  | zero => cases hloop
  | succ fuel ih =>
    rw [usbParseLoop_succ h] at hloop
    by_cases hlt : s.index + 1 < total
    swap
    · exact .done (Nat.le_of_not_lt hlt)
    rw [if_pos hlt] at hloop
    cases hdesc : usbParseDesc buffer s with
    | error e => rw [hdesc] at hloop; cases hloop
    | ok r =>
      rw [hdesc] at hloop
      by_cases hif : buffer.get (s.index + 1) = usbDtInterface
      · obtain ⟨hn, hifs, hin, hcopy, rfl⟩ := (usbParseDesc_interface h hif).mp hdesc
        have hnext := ih (h.interface hifs _ _) hloop
        refine .interface hlt hn hif (Nat.pos_of_ne_zero fun hzero => ?_) hin hifs hcopy hnext
        -- an empty descriptor is followed by itself
        rw [hzero] at hnext
        exact (hnext.pos hlt (.inl hif)).ne' hzero
      by_cases hep : buffer.get (s.index + 1) = usbDtEndpoint
      · obtain ⟨hn, hpos, heps, hin, hcopy, rfl⟩ := (usbParseDesc_endpoint h hep).mp hdesc
        have hnext := ih (h.endpoint heps _ _) hloop
        obtain ⟨ifs, rfl⟩ := Nat.exists_eq_succ_of_ne_zero hpos.ne'
        refine .endpoint hlt hn hep (Nat.pos_of_ne_zero fun hzero => ?_) hin heps hcopy hnext
        rw [hzero] at hnext
        exact (hnext.pos hlt (.inr hep)).ne' hzero
      obtain ⟨hn, rfl⟩ := (usbParseDesc_other hif hep).mp hdesc
      refine .other hlt hn hif hep fun hpos => ?_
      have hne : buffer.get s.index ≠ 0 := fun hzero => by
        rw [hzero] at hpos
        exact absurd hpos (by decide)
      rw [if_neg hne] at hloop
      have hnext : Parsing { s with index := s.index + (buffer.get s.index).toNat } total ifs eps :=
        ⟨h.total, h.noOfIf, h.ifs_le, h.ifno, h.noOfEp, h.eps_le⟩
      exact ih hnext hloop

theorem loop_of_fits {index : Nat} (hfits : Fits buffer total index ifs eps)
    (h : Parsing s total ifs eps) (hindex : s.index = index) :
    ∃ fuel c, usbParseLoop buffer fuel s = .ok (some c) := by
  induction hfits generalizing s with
  | done hle => exact ⟨1, s.config, by rw [usbParseLoop_succ h, if_neg (by omega)]⟩
  | interface hlt hn htype _ hin hifs hcopy _ ih =>
    subst hindex
    obtain ⟨fuel, c, hloop⟩ := ih (h.interface hifs _ _) rfl
    refine ⟨fuel + 1, c, ?_⟩
    rw [usbParseLoop_succ h, if_pos hlt,
      (usbParseDesc_interface h htype).mpr ⟨hn, hifs, hin, hcopy, rfl⟩]
    exact hloop
  | @endpoint _ ifs _ hlt hn htype _ hin heps hcopy _ ih =>
    subst hindex
    obtain ⟨fuel, c, hloop⟩ := ih (h.endpoint heps _ _) rfl
    refine ⟨fuel + 1, c, ?_⟩
    rw [usbParseLoop_succ h, if_pos hlt,
      (usbParseDesc_endpoint h htype).mpr ⟨hn, Nat.succ_pos ifs, heps, hin, hcopy, rfl⟩]
    exact hloop
  | other hlt hn hif hep _ ih =>
    subst hindex
    have hdesc := (usbParseDesc_other (s := s) hif hep).mpr ⟨hn, rfl⟩
    by_cases hzero : buffer.get s.index = 0
    · refine ⟨1, s.config, ?_⟩
      rw [if_pos hzero] at hdesc
      rw [usbParseLoop_succ h, if_pos hlt, hdesc]
    · have hpos : 0 < (buffer.get s.index).toNat := Nat.pos_of_ne_zero fun h0 =>
        hzero (UInt8.toNat_inj.mp h0)
      have hnext : Parsing { s with index := s.index + (buffer.get s.index).toNat } total _ _ :=
        ⟨h.total, h.noOfIf, h.ifs_le, h.ifno, h.noOfEp, h.eps_le⟩
      obtain ⟨fuel, c, hloop⟩ := ih hpos hnext rfl
      refine ⟨fuel + 1, c, ?_⟩
      rw [if_neg hzero] at hdesc
      rw [usbParseLoop_succ h, if_pos hlt, hdesc]
      exact hloop

/-! ## What is listed -/

/-- An interface has no more endpoints than its entry, each of the length of an entry at most. -/
def Short (g : Desc × List Desc) : Prop :=
  g.2.length ≤ usbMaxendpoints ∧ ∀ d ∈ g.2, 6 ≤ d.encode.length ∧ d.encode.length ≤ epSize

structure Listing (config : ConfigDesc) (gs : List (Desc × List Desc)) (ifs eps : Nat) : Prop where
  entries : ∀ k g, gs[k]? = some g → HoldsIf config k g
  ifs_eq : gs.length = ifs
  eps_eq : ∀ g, gs.getLast? = some g → g.2.length = eps
  short : ∀ g ∈ gs, Short g

theorem encode_length {d : Desc} : d.encode.length = 2 + d.body.length := by
  rw [Desc.encode, List.length_cons, List.length_cons]
  omega

/-- An entry of `ep_desc` that is not written to. -/
theorem HoldsEp.congr {config config' : ConfigDesc} {off : Nat} {d : Desc}
    (h : HoldsEp config off d) (hsix : 6 ≤ d.encode.length)
    (hsame : ∀ i < d.encode.length, config'.get (off + i) = config.get (off + i)) :
    HoldsEp config' off d where
  front := by
    rw [← h.front]
    exact Buf.slice_congr fun i hi => hsame i (by omega)
  wMaxPacketSize := by rw [← h.wMaxPacketSize, hsame 5 (by omega), hsame 4 (by omega)]
  rest := by
    rw [← h.rest]
    refine Buf.slice_congr fun i hi => ?_
    rw [Nat.add_assoc]
    exact hsame (6 + i) (by omega)

/-- An entry of `ep_desc` after its descriptor is copied and swapped. -/
theorem holdsEp_put {config : ConfigDesc} {off : Nat} {d : Desc} (hsix : 6 ≤ d.encode.length) :
    HoldsEp (swap16At (config.put off d.encode) (off + 4)) off d := by
  have hget (i : Nat) (hi : i < d.encode.length) :
      (config.put off d.encode).get (off + i) = d.encode[i] := Buf.get_put hi
  have hfour : (swap16At (config.put off d.encode) (off + 4)).get (off + 4) = d.encode[5] :=
    (Buf.get_put (j := 0) (by simp)).trans (hget 5 (by omega))
  have hfive : (swap16At (config.put off d.encode) (off + 4)).get (off + 5) = d.encode[4] :=
    (Buf.get_put (j := 1) (by simp)).trans (hget 4 (by omega))
  refine ⟨?_, ?_, ?_⟩
  · rw [swap16At, Buf.slice_put_of_le (by omega)]
    exact (Buf.slice_put_part (j := 0) (by omega)).trans (by rw [List.drop_zero])
  · rw [hfour, hfive]
    refine List.ext_getElem (by simp; omega) fun i hi _ => ?_
    rw [List.getElem_take, List.getElem_drop]
    match i, hi with
    | 0, _ => rfl
    | 1, _ => rfl
  · rw [swap16At, Buf.slice_put_of_ge (by simp), Buf.slice_put_part (by omega),
      List.take_of_length_le (by rw [List.length_drop])]

/-- An entry of `if_desc` that is not written to. -/
theorem HoldsIf.congr {config config' : ConfigDesc} {k : Nat} {g : Desc × List Desc}
    (h : HoldsIf config k g) (hshort : Short g)
    (hsame : ∀ i, 10 + k * ifSize ≤ i → i < 10 + (k + 1) * ifSize →
      config'.get i = config.get i) : HoldsIf config' k g := by
  rw [Nat.add_mul, Nat.one_mul] at hsame
  have hsize : ifSize = 155 := rfl
  refine ⟨?_, ?_, fun j d hd => ?_⟩
  · rw [← h.desc]
    exact Buf.slice_congr fun i hi => hsame _ (by omega) (by omega)
  · rw [← h.noOfEp, hsame _ (by omega) (by omega)]
  · have hj := (List.getElem?_eq_some_iff.mp hd).1
    have hfew : g.2.length ≤ 16 := hshort.1
    obtain ⟨hsix, hlen⟩ := hshort.2 d (List.mem_of_getElem? hd)
    have hoff : j * epSize = j * 9 := rfl
    have hnine : d.encode.length ≤ 9 := hlen
    exact (h.endpoints j d hd).congr hsix fun i hi => hsame _ (by omega) (by omega)

theorem putInterface_other {config : ConfigDesc} {desc : List UInt8} {j : Nat}
    (hlen : desc.length = 9) (hj : 10 ≤ j)
    (hout : j < 10 + ifs * ifSize ∨ 10 + (ifs + 1) * ifSize ≤ j) :
    (putInterface config ifs desc).get j = config.get j := by
  have hsize : ifSize = 155 := rfl
  rw [Nat.add_mul, Nat.one_mul] at hout
  rw [putInterface, get_put_one, if_neg (by omega)]
  rcases hout with hout | hout
  · rw [Buf.get_put_of_lt hout, get_put_one, if_neg (by omega)]
  · rw [Buf.get_put_of_ge (by omega), get_put_one, if_neg (by omega)]

theorem of_getElem?_snoc {α : Type} {l : List α} {x y : α} {k : Nat}
    (h : (l ++ [x])[k]? = some y) : l[k]? = some y ∨ k = l.length ∧ y = x := by
  rcases Nat.lt_or_ge k l.length with hk | hk
  · exact .inl (List.getElem?_append_left hk ▸ h)
  · rw [List.getElem?_append_right hk, List.getElem?_singleton] at h
    split_ifs at h with hzero
    exact .inr ⟨by omega, (Option.some.inj h).symm⟩

/-- **An interface** gets the next entry. -/
theorem Listing.interface {config : ConfigDesc} {gs : List (Desc × List Desc)} {d : Desc}
    (h : Listing config gs ifs eps) (hlen : d.encode.length = 9) :
    Listing (putInterface config ifs d.encode) (gs ++ [(d, [])]) (ifs + 1) 0 := by
  obtain rfl := h.ifs_eq
  refine ⟨fun k g hg => ?_, by rw [List.length_append]; rfl, fun g hg => ?_, ?_⟩
  · rcases of_getElem?_snoc hg with hg | ⟨rfl, rfl⟩
    · have hk := (List.getElem?_eq_some_iff.mp hg).1
      refine (h.entries k g hg).congr (h.short g (List.mem_of_getElem? hg)) fun i hi hi' => ?_
      refine putInterface_other hlen (by omega) (.inl (Nat.lt_of_lt_of_le hi' ?_))
      exact Nat.add_le_add_left (Nat.mul_le_mul_right _ hk) 10
    · refine ⟨?_, ?_, fun j d hd => by cases hd⟩
      · rw [putInterface, Buf.slice_put_of_le (Nat.le_refl _), ← hlen, Buf.slice_put]
      · rw [putInterface, get_put_one, if_pos rfl]
        rfl
  · rw [List.getLast?_append, List.getLast?_singleton, Option.some_or] at hg
    cases hg
    rfl
  · rw [List.forall_mem_append]
    exact ⟨h.short, List.forall_mem_singleton.mpr ⟨Nat.zero_le _, List.forall_mem_nil _⟩⟩

theorem putEndpoint_other {config : ConfigDesc} {desc : List UInt8} {j : Nat}
    (hj : j ≠ 10 + ifs * ifSize + 9) (hout : j < 10 + ifs * ifSize + 11 + eps * epSize) :
    (putEndpoint config ifs eps desc).get j = config.get j := by
  rw [putEndpoint, get_swap16At_of_lt (by omega), Buf.get_put_of_lt hout, get_put_one, if_neg hj]

/-- **An endpoint** gets the next entry of the last interface. -/
theorem Listing.endpoint {config : ConfigDesc} {gs : List (Desc × List Desc)}
    {g : Desc × List Desc} {d : Desc} (h : Listing config (gs ++ [g]) (gs.length + 1) eps)
    (heps : eps < usbMaxendpoints) (hlen : 6 ≤ d.encode.length ∧ d.encode.length ≤ epSize) :
    Listing (putEndpoint config gs.length eps d.encode) (gs ++ [(g.1, g.2 ++ [d])])
      (gs.length + 1) (eps + 1) := by
  have hlast : g.2.length = eps := h.eps_eq g (by rw [List.getLast?_append]; rfl)
  have hsize : ifSize = 155 := rfl
  have hshort := h.short g (List.mem_append_right _ List.mem_cons_self)
  have hg := h.entries gs.length g (by rw [List.getElem?_append_right (le_refl _)]; simp)
  refine ⟨fun k g' hg' => ?_, by rw [List.length_append]; rfl, fun g' hg' => ?_, ?_⟩
  · rcases of_getElem?_snoc hg' with hg' | ⟨rfl, rfl⟩
    · have hk := (List.getElem?_eq_some_iff.mp hg').1
      have hold := h.entries k g' (by rw [List.getElem?_append_left hk, hg'])
      refine hold.congr (h.short g' (List.mem_append_left _ (List.mem_of_getElem? hg')))
        fun i hi hi' => ?_
      have hlt : i < 10 + gs.length * ifSize := Nat.lt_of_lt_of_le hi'
        (Nat.add_le_add_left (Nat.mul_le_mul_right _ hk) 10)
      exact putEndpoint_other (by omega) (by omega)
    · refine ⟨?_, ?_, fun j d' hd' => ?_⟩
      · rw [← hg.desc]
        exact Buf.slice_congr fun i hi => putEndpoint_other (by omega) (by omega)
      · rw [putEndpoint_front (by omega), if_pos rfl, List.length_append, hlast,
          UInt8.toNat_ofNat', Nat.mod_eq_of_lt (by unfold usbMaxendpoints at heps; omega)]
        rfl
      · rcases of_getElem?_snoc hd' with hd' | ⟨rfl, rfl⟩
        · have hj := (List.getElem?_eq_some_iff.mp hd').1
          obtain ⟨hsix, hnine⟩ := hshort.2 d' (List.mem_of_getElem? hd')
          have hmul : j * epSize + epSize ≤ eps * epSize := by
            rw [← Nat.succ_mul]
            exact Nat.mul_le_mul_right _ (by omega)
          exact (hg.endpoints j d' hd').congr hsix fun i hi =>
            putEndpoint_other (by omega) (by omega)
        · subst hlast
          exact holdsEp_put hlen.1
  · rw [List.getLast?_append, List.getLast?_singleton, Option.some_or] at hg'
    cases hg'
    rw [List.length_append, hlast]
    rfl
  · obtain ⟨hold, -⟩ := List.forall_mem_append.mp h.short
    refine List.forall_mem_append.mpr ⟨hold, List.forall_mem_singleton.mpr ⟨?_, ?_⟩⟩
    · rw [List.length_append, hlast]
      exact heps
    · exact List.forall_mem_append.mpr ⟨hshort.2, List.forall_mem_singleton.mpr hlen⟩

theorem addDesc_endpoint {gs : List (Desc × List Desc)} {g : Desc × List Desc} {d : Desc}
    (hep : d.type = usbDtEndpoint) : addDesc (gs ++ [g]) d = gs ++ [(g.1, g.2 ++ [d])] := by
  rw [addDesc, hep, if_neg (by decide), if_pos rfl, List.modifyLast_concat]

/-- **The run of the loop** over well-formed descriptors lists them behind those listed before. -/
theorem loop_lists {descs : List Desc} {gs : List (Desc × List Desc)}
    (h : Parsing s total ifs eps) (hlist : Listing s.config gs ifs eps)
    (hformed : ∀ d ∈ descs, d.Formed)
    (hbytes : buffer.slice s.index (descs.flatMap Desc.encode).length =
      descs.flatMap Desc.encode)
    (htotal : total = s.index + (descs.flatMap Desc.encode).length)
    (hloop : usbParseLoop buffer fuel s = .ok (some c)) : Lists c (descs.foldl addDesc gs) := by
  induction descs generalizing s gs ifs eps fuel with
  | nil =>
    cases fuel with
    | zero => cases hloop
    | succ fuel =>
      rw [usbParseLoop_succ h, htotal, if_neg (by simp)] at hloop
      obtain rfl := Option.some.inj (Except.ok.inj hloop)
      exact ⟨h.noOfIf.trans hlist.ifs_eq.symm, hlist.entries⟩
  | cons d descs ih =>
    obtain ⟨hd, hformed⟩ := List.forall_mem_cons.mp hformed
    rw [List.flatMap_cons, List.length_append] at hbytes htotal
    rw [Buf.slice_append] at hbytes
    obtain ⟨hfirst, hrest⟩ := List.append_inj hbytes Buf.slice_length
    have hlen : 2 + d.body.length < 256 := by
      unfold Desc.Formed at hd
      split_ifs at hd <;> omega
    have hget (i : Nat) (hi : i < d.encode.length) :
        some (buffer.get (s.index + i)) = d.encode[i]? := by
      rw [← Buf.getElem?_slice hi, hfirst]
    have hzero : buffer.get s.index = UInt8.ofNat (2 + d.body.length) :=
      Option.some.inj (hget 0 (by rw [encode_length]; omega))
    have htype : buffer.get (s.index + 1) = d.type :=
      Option.some.inj (hget 1 (by rw [encode_length]; omega))
    have hlength : (buffer.get s.index).toNat = d.encode.length := by
      rw [hzero, UInt8.toNat_ofNat', Nat.mod_eq_of_lt hlen, encode_length]
    rw [← Nat.add_assoc] at htotal
    cases fuel with
    | zero => cases hloop
    | succ fuel =>
      rw [usbParseLoop_succ h, if_pos (by rw [htotal, encode_length]; omega)] at hloop
      cases hdesc : usbParseDesc buffer s with
      | error e => rw [hdesc] at hloop; cases hloop
      | ok r =>
        rw [hdesc] at hloop
        rw [List.foldl_cons]
        by_cases hif : d.type = usbDtInterface
        · obtain ⟨-, hifs, -, -, rfl⟩ := (usbParseDesc_interface h (htype.trans hif)).mp hdesc
          have hnine : d.encode.length = 9 := by
            rw [Desc.Formed, if_pos hif] at hd
            rw [encode_length, hd]
          rw [hlength, hfirst] at hloop
          rw [addDesc, if_pos hif]
          exact ih (h.interface hifs _ _) (hlist.interface hnine) hformed hrest htotal hloop
        by_cases hep : d.type = usbDtEndpoint
        · obtain ⟨-, hpos, heps, -, -, rfl⟩ :=
            (usbParseDesc_endpoint h (htype.trans hep)).mp hdesc
          have hshort : 6 ≤ d.encode.length ∧ d.encode.length ≤ epSize := by
            rw [Desc.Formed, if_neg hif, if_pos hep] at hd
            rw [encode_length, epSize]
            omega
          have hne : gs ≠ [] := fun hnil => by
            have := hlist.ifs_eq
            rw [hnil, List.length_nil] at this
            omega
          obtain ⟨gs, g, rfl⟩ := (List.eq_nil_or_concat' gs).resolve_left hne
          have hifs : ifs = gs.length + 1 := by
            rw [← hlist.ifs_eq, List.length_append]
            rfl
          subst hifs
          rw [hlength, hfirst] at hloop
          rw [addDesc_endpoint hep]
          exact ih (h.endpoint heps _ _) (hlist.endpoint heps hshort) hformed hrest htotal hloop
        · obtain ⟨-, rfl⟩ := (usbParseDesc_other (htype ▸ hif) (htype ▸ hep)).mp hdesc
          have hne : buffer.get s.index ≠ 0 := fun h0 => by
            rw [h0, encode_length] at hlength
            change 0 = _ at hlength
            omega
          rw [if_neg hne, hlength] at hloop
          rw [addDesc, if_neg hif, if_neg hep]
          have hnext : Parsing { s with index := s.index + d.encode.length } total ifs eps :=
            ⟨h.total, h.noOfIf, h.ifs_le, h.ifno, h.noOfEp, h.eps_le⟩
          exact ih hnext hlist hformed hrest htotal hloop

end

/-! ## The configuration of a device -/

section
variable {n fuel : Nat} {buffer : Buf UInt8 n} {dev : UsbDevice} {first second : Answer}
  {set : DescSet} {cfgno : Int}

theorem header_get {config : ConfigDesc} {desc : List UInt8} {j : Nat} (hj : j < 2) :
    (usbParseHeader config desc).get j = (config.put 0 desc).get j := by
  rw [usbParseHeader, get_put_one, if_neg (by omega), get_swap16At_of_lt hj]

theorem parsing_header (config : ConfigDesc) (desc : List UInt8) (index : Nat) :
    Parsing ⟨index, -1, usbParseHeader config desc⟩ (le16 (config.put 0 desc) 2) 0 0 where
  total := by
    rw [← be16_swap16At]
    refine be16_congr ?_ ?_
    · rw [usbParseHeader, get_put_one, if_neg (by decide)]
    · rw [usbParseHeader, get_put_one, if_neg (by decide)]
  noOfIf := by
    rw [usbParseHeader, get_put_one, if_pos rfl]
    rfl
  ifs_le := Nat.zero_le _
  ifno := rfl
  noOfEp := fun h => absurd h (lt_irrefl 0)
  eps_le := Nat.zero_le _

/-- `usb_parse_config` ends without an access outside if and only if the buffer fits. -/
theorem usbParseConfig_iff :
    (∃ fuel r, usbParseConfig fuel dev buffer cfgno = .ok (some r)) ↔ ParseFits dev buffer := by
  constructor
  · rintro ⟨fuel, r, h⟩
    rw [usbParseConfig, bind_eq_ok] at h
    simp only [Buf.rd_ok, and_assoc, exists_and_left, exists_eq_left] at h
    refine ⟨h.1, fun htype => ?_⟩
    rw [if_neg (not_not.mpr htype)] at h
    simp only [bind_eq_ok, Buf.rd_ok, Buf.load_ok, and_assoc, exists_and_left, exists_eq_left,
      Nat.zero_add] at h
    obtain ⟨-, -, hlen, c, hloop, hr⟩ := h
    cases c with
    | none => cases hr
    | some c =>
      have hfits := fits_of_loop (parsing_header _ _ _) hloop
      rw [header_get (by decide)] at hfits
      exact ⟨hlen, hfits⟩
  · rintro ⟨hn, h⟩
    by_cases htype : buffer.get 1 = usbDtConfig
    · obtain ⟨hlen, hfits⟩ := h htype
      obtain ⟨fuel, c, hloop⟩ := loop_of_fits hfits (parsing_header dev.config _ _) rfl
      rw [← header_get (by decide)] at hloop
      refine ⟨fuel, (1, { dev with configno := cfgno, config := c }), ?_⟩
      rw [usbParseConfig, bind_eq_ok]
      simp only [Buf.rd_ok, and_assoc, exists_and_left, exists_eq_left,
        if_neg (not_not.mpr htype), bind_eq_ok, Buf.load_ok, Nat.zero_add]
      exact ⟨hn, by omega, hlen, some c, hloop, rfl⟩
    · refine ⟨0, (-1, { dev with configno := cfgno }), ?_⟩
      rw [usbParseConfig, bind_eq_ok]
      simp only [Buf.rd_ok, and_assoc, exists_and_left, exists_eq_left, if_pos htype]
      exact ⟨hn, rfl⟩

/-- What the buffer holds when `usb_parse_config` is called. -/
def received (buffer : Buf UInt8 n) (first second : Answer) : Buf UInt8 n :=
  let buffer := buffer.put 0 (first.data.take 8)
  if first.result < 8 then buffer else buffer.put 0 (second.data.take (le16 buffer 2))

def Transfers (buffer : Buf UInt8 n) (first second : Answer) : Prop :=
  (first.data.take 8).length ≤ n ∧ (8 ≤ first.result →
    4 ≤ n ∧ (second.data.take (le16 (buffer.put 0 (first.data.take 8)) 2)).length ≤ n)

theorem usbConfigure_eq {r : Option (Int × UsbDevice)} :
    usbConfigure fuel dev buffer first second = .ok r ↔ Transfers buffer first second ∧
      usbParseConfig fuel dev (received buffer first second) 0 = .ok r := by
  rw [usbConfigure, bind_eq_ok, usbGetConfigurationNo, Transfers, received]
  simp only [bind_eq_ok, Buf.store_ok, Nat.zero_add, and_assoc, exists_and_left, exists_eq_left]
  by_cases hshort : first.result < 8
  · simp only [if_pos hshort]
    constructor
    · rintro ⟨hfirst, out, hr, hparse⟩
      cases hr
      exact ⟨hfirst, fun h => by omega, hparse⟩
    · rintro ⟨hfirst, -, hparse⟩
      exact ⟨hfirst, (-1, _), rfl, hparse⟩
  · simp only [if_neg hshort, bind_eq_ok, Buf.load_ok, Buf.store_ok, Nat.zero_add, and_assoc,
      exists_and_left, exists_eq_left]
    constructor
    · rintro ⟨hfirst, hn, hsecond, out, hr, hparse⟩
      cases hr
      exact ⟨hfirst, fun _ => ⟨hn, hsecond⟩, hparse⟩
    · rintro ⟨hfirst, hlong, hparse⟩
      obtain ⟨hn, hsecond⟩ := hlong (not_lt.mp hshort)
      exact ⟨hfirst, hn, hsecond, (second.result, _), rfl, hparse⟩

theorem answersFit_iff : AnswersFit dev buffer first second ↔
    Transfers buffer first second ∧ ParseFits dev (received buffer first second) := by
  unfold AnswersFit Transfers received
  dsimp only
  by_cases hshort : first.result < 8
  · simp only [if_pos hshort, not_le.mpr hshort, false_implies, and_true]
  · simp only [if_neg hshort, not_lt.mp hshort, true_implies, and_assoc]

/-- **The device is configured**: its descriptors are read without an access outside, to an end, and
those of a well-formed set are listed. -/
structure Configures (dev : UsbDevice) (buffer : Buf UInt8 n) (first second : Answer) : Prop where
  ends : ∃ fuel r, usbConfigure fuel dev buffer first second = .ok (some r)
  lists : ∀ set : DescSet, set.Formed → Returns set first second → ∀ fuel r,
    usbConfigure fuel dev buffer first second = .ok (some r) →
    r.1 = 1 ∧ Lists r.2.config set.interfaces

theorem DescSet.Formed.encode_length (h : set.Formed) : set.encode.length = set.total := by
  rw [DescSet.encode, DescSet.total, List.length_append, List.length_append, h.attrs]
  rfl

/-- The word `wTotalLength` of a set, in any buffer that begins with it. -/
theorem le16_total {m : Nat} {b : Buf UInt8 m} (h : set.Formed)
    (hlow : b.get 2 = UInt8.ofNat set.total) (hhigh : b.get 3 = UInt8.ofNat (set.total / 256)) :
    le16 b 2 = set.total := by
  have htotal := h.total
  rw [le16, hlow, hhigh, UInt8.toNat_ofNat', UInt8.toNat_ofNat']
  omega

/-- A device that answers with a set puts the whole of it into the buffer. -/
theorem received_set (h : set.Formed) (hret : Returns set first second) :
    received buffer first second =
      (buffer.put 0 (set.encode.take 8)).put 0 set.encode := by
  obtain ⟨hfirst, hlong, hsecond⟩ := hret
  have hlen : (set.encode.take 8).length = 8 := by
    rw [List.length_take, h.encode_length, DescSet.total]
    omega
  have hbyte (i : Nat) (hi : i < 8) :
      some ((buffer.put 0 (set.encode.take 8)).get i) = set.encode[i]? := by
    rw [Buf.get_put_zero (by rw [hlen]; exact hi), List.getElem?_take_of_lt hi]
  have htotal : le16 (buffer.put 0 (set.encode.take 8)) 2 = set.total :=
    le16_total h (Option.some.inj (hbyte 2 (by decide))) (Option.some.inj (hbyte 3 (by decide)))
  rw [received, hfirst, hsecond, if_neg (not_lt.mpr hlong), htotal,
    List.take_of_length_le h.encode_length.le]

/-- The buffer holds the set, the loop begins behind the configuration descriptor. -/
theorem usbParseConfig_lists (h : set.Formed) {b : Buf UInt8 n} {r : Int × UsbDevice}
    (hb : b = buffer.put 0 set.encode)
    (hparse : usbParseConfig fuel dev b cfgno = .ok (some r)) :
    r.1 = 1 ∧ Lists r.2.config set.interfaces := by
  have hlen := h.encode_length
  have hlong : 9 ≤ set.encode.length := by
    rw [hlen, DescSet.total]
    omega
  have hget (i : Nat) (hi : i < 9) : some (b.get i) = set.encode[i]? := by
    rw [hb, Buf.get_put_zero (by omega)]
  have hzero : b.get 0 = 9 := Option.some.inj (hget 0 (by decide))
  have htype : b.get 1 = usbDtConfig := Option.some.inj (hget 1 (by decide))
  have hlow : b.get 2 = UInt8.ofNat set.total := Option.some.inj (hget 2 (by decide))
  have hhigh : b.get 3 = UInt8.ofNat (set.total / 256) := Option.some.inj (hget 3 (by decide))
  have hnine : (b.get 0).toNat = 9 := by
    rw [hzero]
    rfl
  rw [usbParseConfig, bind_eq_ok] at hparse
  simp only [Buf.rd_ok, and_assoc, exists_and_left, exists_eq_left, htype, ne_eq,
    not_true_eq_false, if_false, bind_eq_ok, Buf.load_ok, hnine] at hparse
  obtain ⟨-, -, -, c, hloop, hr⟩ := hparse
  cases c with
  | none => cases hr
  | some c =>
    cases hr
    refine ⟨rfl, ?_⟩
    have hheader (i : Nat) (hi : i < 9) :
        (dev.config.put 0 (b.slice 0 9)).get i = b.get i := by
      have hput := Buf.get_put_zero (b := dev.config) (l := b.slice 0 9) (j := i)
        (by rw [Buf.slice_length]; exact hi)
      rw [Buf.getElem?_slice hi, Nat.zero_add] at hput
      exact Option.some.inj hput
    have hindex : ((usbParseHeader dev.config (b.slice 0 9)).get 0).toNat = 9 := by
      rw [header_get (by decide), hheader 0 (by decide), hnine]
    have htotal : le16 (dev.config.put 0 (b.slice 0 9)) 2 = set.total :=
      le16_total h ((hheader 2 (by decide)).trans hlow) ((hheader 3 (by decide)).trans hhigh)
    have hp := parsing_header dev.config (b.slice 0 9) 9
    rw [htotal] at hp
    rw [hindex] at hloop
    have hempty : Listing (usbParseHeader dev.config (b.slice 0 9)) [] 0 0 :=
      ⟨fun _ _ hg => (by cases hg), rfl, fun _ hg => (by cases hg), List.forall_mem_nil _⟩
    refine loop_lists hp hempty h.descs ?_ rfl hloop
    have hdrop : set.encode.drop 9 = set.descs.flatMap Desc.encode := by
      rw [DescSet.encode]
      exact List.drop_left' (by rw [List.length_append, h.attrs]; rfl)
    have hpart := Buf.slice_put_part (b := buffer) (i := 0) (l := set.encode) (j := 9)
      (k := (set.descs.flatMap Desc.encode).length) (by rw [hlen, DescSet.total])
    rw [Nat.zero_add, hdrop, List.take_length, ← hb] at hpart
    exact hpart

end

/-- **A device is configured safely and exactly** if and only if what it answers fits. -/
theorem usb_config_iff {n : Nat} (dev : UsbDevice) (buffer : Buf UInt8 n)
    (first second : Answer) :
    Configures dev buffer first second ↔ AnswersFit dev buffer first second := by
  rw [answersFit_iff]
  constructor
  · rintro ⟨⟨fuel, r, hrun⟩, -⟩
    obtain ⟨htransfers, hparse⟩ := usbConfigure_eq.mp hrun
    exact ⟨htransfers, usbParseConfig_iff.mp ⟨fuel, r, hparse⟩⟩
  · rintro ⟨htransfers, hfits⟩
    refine ⟨?_, fun set hformed hret fuel r hrun => ?_⟩
    · obtain ⟨fuel, r, hparse⟩ := usbParseConfig_iff.mpr hfits
      exact ⟨fuel, r, usbConfigure_eq.mpr ⟨htransfers, hparse⟩⟩
    · exact usbParseConfig_lists hformed (received_set hformed hret)
        (usbConfigure_eq.mp hrun).2

/-- A configuration descriptor that announces 512 bytes. -/
def longHeader : List UInt8 := [9, usbDtConfig, 0, 2, 1, 1, 0, 0x80, 50]

/-- 512 bytes do not fit into the 256 bytes of `usb_new_device`. -/
theorem usb_config_overrun : ¬ ∀ dev (buffer : Buf UInt8 256) first second,
    Configures dev buffer first second := fun h => by
  have hfit := (usb_config_iff _ _ _ _).mp
    (h ⟨0, ⟨fun _ => 0⟩⟩ ⟨fun _ => 0⟩ ⟨longHeader, 8⟩ ⟨longHeader ++ List.replicate 503 0, 512⟩)
  obtain ⟨-, -, hlen, -⟩ := hfit
  have htotal : le16 ((Buf.mk fun _ => 0 : Buf UInt8 256).put 0 (longHeader.take 8)) 2 = 512 := by
    decide
  rw [htotal, List.length_take, List.length_append, List.length_replicate] at hlen
  exact absurd hlen (by decide)

end UBoot.Usb
