import UBoot.Net.Bootp
import Mathlib.Data.List.GetD

/-!
# Option lists (`net/bootp.c`)

`OptionList` is a list of options with pads before each and before the end tag, and `encode` its
bytes. `BootpVendorProcess`, `DhcpOptionsProcess` and `DhcpMessageType` walk over them, each in
its own way. `DhcpOpt.vendor` and `DhcpOpt.dhcp` are what an option has to do, whatever stands
around it.

The first walker knows pads, but `BootpVendorFieldProcess` clears `NetBootFileSize` for every
option. The other two take a pad for a tag with a length byte: two pads in a row are skipped, a
single one swallows the tag behind it. `options_seen_iff` says when each sees the list.
-/

namespace UBoot.Net

/-! ## Lists and their bytes -/

/-- The bytes that are read of an option at least. -/
def minLength (tag : UInt8) : ℕ :=
  match tag.toNat with
  | 1 | 3 | 6 | 51 | 54 => 4
  | 53 => 1
  | _ => 0

/-- An option: its tag, and as many bytes as its length byte says. -/
structure DhcpOpt where
  tag : UInt8
  data : List UInt8
  tag_ne_pad : tag ≠ 0
  tag_ne_end : tag ≠ 0xff
  length_lt : data.length < 256
  long : minLength tag ≤ data.length

/-- An option list: each option with the number of pads before it, and the pads before the end. -/
structure OptionList where
  opts : List (ℕ × DhcpOpt)
  pads : ℕ

def DhcpOpt.encode (o : DhcpOpt) : List UInt8 := o.tag :: UInt8.ofNat o.data.length :: o.data

def encodeOpts (opts : List (ℕ × DhcpOpt)) : List UInt8 :=
  opts.flatMap fun x => List.replicate x.1 0 ++ x.2.encode

def OptionList.encode (l : OptionList) : List UInt8 :=
  encodeOpts l.opts ++ List.replicate l.pads 0 ++ [0xff]

def At (pkt : Bytes) (i : ℕ) (l : List UInt8) : Prop := ∀ j < l.length, pkt (i + j) = ofList l j

section
variable {pkt : Bytes} {i : ℕ} {l m : List UInt8} {c : UInt8}

theorem At.append (h : At pkt i (l ++ m)) : At pkt i l ∧ At pkt (i + l.length) m := by
  constructor
  · intro j hj
    rw [h j (by rw [List.length_append]; omega), ofList, ofList, List.getD_append _ _ _ _ hj]
  · intro j hj
    rw [Nat.add_assoc, h (l.length + j) (by rw [List.length_append]; omega), ofList, ofList,
      List.getD_append_right _ _ _ _ (Nat.le_add_right _ _), Nat.add_sub_cancel_left]

theorem At.cons (h : At pkt i (c :: l)) : pkt i = c ∧ At pkt (i + 1) l := by
  refine ⟨h 0 (Nat.succ_pos _), fun j hj => ?_⟩
  rw [Nat.add_assoc, Nat.add_comm 1 j]
  exact h (j + 1) (Nat.succ_lt_succ hj)

theorem At.replicate {k : ℕ} (h : At pkt i (List.replicate k c)) {j : ℕ} (hj : j < k) :
    pkt (i + j) = c := by
  rw [h j (by rwa [List.length_replicate]), ofList, List.getD_replicate _ hj]

theorem At.be16 (h : At pkt i l) {j : ℕ} (hj : j + 1 < l.length) :
    be16 pkt (i + j) = Net.be16 (ofList l) j := by
  rw [Net.be16, Net.be16, Nat.add_assoc, h _ hj, h j (by omega)]

theorem At.be32 (h : At pkt i l) {j : ℕ} (hj : j + 3 < l.length) :
    be32 pkt (i + j) = Net.be32 (ofList l) j := by
  rw [Net.be32, Net.be32, Nat.add_assoc, h.be16 (by omega : j + 1 < l.length),
    h.be16 (by omega : j + 2 + 1 < l.length)]

theorem At.bytesAt (h : At pkt i l) {n : ℕ} (hn : n ≤ l.length) :
    bytesAt pkt i n = l.take n := by
  refine List.ext_getElem (by simp [hn]) fun j h₁ h₂ => ?_
  rw [length_bytesAt] at h₁
  have hj : j < l.length := by omega
  simp [Net.bytesAt, h j hj, ofList, hj]

end

/-! ## What an option does -/

def DhcpOpt.ip (o : DhcpOpt) : UInt32 := be32 (ofList o.data) 0

/-- The string that an option gives, cut to a field of `maxlen` bytes. -/
def DhcpOpt.text (maxlen : ℕ) (o : DhcpOpt) : List UInt8 :=
  o.data.take (truncateSz maxlen o.data.length)

def DhcpOpt.fileSize (o : DhcpOpt) : Option ℕ :=
  if o.tag = 13 then
    if o.data.length = 2 then some (be16 (ofList o.data) 0)
    else if o.data.length = 4 then some (be16 (ofList o.data) 2)
    else none
  else none

/-- An option of a BOOTP reply: it sets its own variable, if that is not set yet. -/
def DhcpOpt.vendor (o : DhcpOpt) (p : Params) : Params :=
  match o.tag.toNat with
  | 1 => if p.netOurSubnetMask = 0 then { p with netOurSubnetMask := o.ip } else p
  | 3 => if p.netOurGatewayIP = 0 then { p with netOurGatewayIP := o.ip } else p
  | 6 => if p.netOurDNSIP = 0 then { p with netOurDNSIP := o.ip } else p
  | 12 => if unset p.netOurHostName then { p with netOurHostName := o.text 32 } else p
  | 13 => { p with netBootFileSize := o.fileSize.getD p.netBootFileSize }
  | 17 => if unset p.netOurRootPath then { p with netOurRootPath := o.text 64 } else p
  | 40 => if unset p.netOurNISDomain then { p with netOurNISDomain := o.text 32 } else p
  | _ => p

/-- An option of a DHCPACK: it sets its own variable. -/
def DhcpOpt.dhcp (b : Board) (o : DhcpOpt) (s : Globals) : Globals :=
  match o.tag.toNat with
  | 1 => { s with params := { s.params with netOurSubnetMask := o.ip } }
  | 3 => { s with params := { s.params with netOurGatewayIP := o.ip } }
  | 6 => { s with params := { s.params with netOurDNSIP := o.ip } }
  | 12 => { s with params := { s.params with netOurHostName := o.text 32 } }
  | 17 => { s with params := { s.params with netOurRootPath := o.text 64 } }
  | 51 =>
    let time := UInt32.ofNat (ushortAt b (ofList o.data) 0 * (if b.bigEndian then 65536 else 1) +
      ushortAt b (ofList o.data) 2 * (if b.bigEndian then 1 else 65536))
    { s with bootp := { s.bootp with dhcpLeasetime := time } }
  | 54 => { s with params := { s.params with netServerIP := o.ip } }
  | _ => s

/-- The message type of a list: its first option 53. -/
def messageType (opts : List (ℕ × DhcpOpt)) : Int :=
  match opts.find? fun x => x.2.tag = 53 with
  | some x => (ofList x.2.data 0).toNat
  | none => -1

section
variable {pkt : Bytes} {i : ℕ} {o : DhcpOpt}

theorem truncateSz_le (maxlen n : ℕ) : truncateSz maxlen n ≤ n := by
  unfold truncateSz
  split <;> omega

theorem DhcpOpt.at_encode (h : At pkt i o.encode) :
    pkt i = o.tag ∧ (pkt (i + 1)).toNat = o.data.length ∧ At pkt (i + 2) o.data := by
  obtain ⟨htag, h⟩ := At.cons h
  obtain ⟨hlen, hdata⟩ := At.cons h
  refine ⟨htag, ?_, hdata⟩
  rw [hlen, UInt8.toNat_ofNat']
  exact Nat.mod_eq_of_lt o.length_lt

theorem DhcpOpt.four_le {t : ℕ} (ht : o.tag.toNat = t)
    (h : t = 1 ∨ t = 3 ∨ t = 6 ∨ t = 51 ∨ t = 54) : 4 ≤ o.data.length := by
  have hlong := o.long
  unfold minLength at hlong
  rw [ht] at hlong
  rcases h with rfl | rfl | rfl | rfl | rfl <;> exact hlong

theorem DhcpOpt.ip_eq (h : At pkt i o.encode) (hlen : 4 ≤ o.data.length) :
    be32 pkt (i + 2) = o.ip :=
  (DhcpOpt.at_encode h).2.2.be32 (j := 0) (by omega)

theorem DhcpOpt.text_eq (h : At pkt i o.encode) (maxlen : ℕ) :
    optionString pkt i maxlen = o.text maxlen := by
  obtain ⟨-, hlen, hdata⟩ := DhcpOpt.at_encode h
  rw [optionString, hlen, hdata.bytesAt (truncateSz_le _ _), DhcpOpt.text]

theorem DhcpOpt.length_eq_iff (h : At pkt i o.encode) (c : UInt8) :
    pkt (i + 1) = c ↔ o.data.length = c.toNat := by
  rw [← (DhcpOpt.at_encode h).2.1, UInt8.toNat_inj]

/-- `BootpVendorFieldProcess` does what the option has to do, after it cleared
`NetBootFileSize`. -/
theorem bootpVendorFieldProcess_eq (h : At pkt i o.encode) (p : Params) :
    bootpVendorFieldProcess pkt i p = o.vendor { p with netBootFileSize := 0 } := by
  obtain ⟨htag, hlen, hdata⟩ := DhcpOpt.at_encode h
  unfold bootpVendorFieldProcess DhcpOpt.vendor
  rw [htag]
  generalize ht : o.tag.toNat = t
  dsimp only
  split
  · simp only [DhcpOpt.ip_eq h (DhcpOpt.four_le ht (by simp))]
  · simp only [DhcpOpt.ip_eq h (DhcpOpt.four_le ht (by simp))]
  · simp only [DhcpOpt.ip_eq h (DhcpOpt.four_le ht (by simp))]
  · simp only [DhcpOpt.text_eq h]
  · have htag : o.tag = 13 := UInt8.toNat_inj.mp ht
    have htwo : pkt (i + 1) = 2 ↔ o.data.length = 2 := DhcpOpt.length_eq_iff h 2
    have hfour : pkt (i + 1) = 4 ↔ o.data.length = 4 := DhcpOpt.length_eq_iff h 4
    simp only [DhcpOpt.fileSize, htag, if_true, htwo, hfour]
    by_cases h₂ : o.data.length = 2
    · rw [if_pos h₂, if_pos h₂, ← hdata.be16 (j := 0) (by omega)]
      rfl
    · rw [if_neg h₂, if_neg h₂]
      by_cases h₄ : o.data.length = 4
      · rw [if_pos h₄, if_pos h₄, ← hdata.be16 (j := 2) (by omega)]
        rfl
      · rw [if_neg h₄, if_neg h₄]
        rfl
  · simp only [DhcpOpt.text_eq h]
  · simp only [DhcpOpt.text_eq h]
  · simp only [*]

theorem dhcpOption_eq (b : Board) (h : At pkt i o.encode) (s : Globals) :
    dhcpOption b pkt i s = o.dhcp b s := by
  obtain ⟨htag, hlen, hdata⟩ := DhcpOpt.at_encode h
  unfold dhcpOption DhcpOpt.dhcp
  rw [htag]
  generalize ht : o.tag.toNat = t
  dsimp only
  split
  · simp only [DhcpOpt.ip_eq h (DhcpOpt.four_le ht (by simp))]
  · simp only [DhcpOpt.ip_eq h (DhcpOpt.four_le ht (by simp))]
  · simp only [DhcpOpt.ip_eq h (DhcpOpt.four_le ht (by simp))]
  · simp only [DhcpOpt.text_eq h]
  · simp only [DhcpOpt.text_eq h]
  · have hlong := DhcpOpt.four_le ht (by simp)
    have hushort : ∀ j, j + 1 < o.data.length →
        ushortAt b pkt (i + 2 + j) = ushortAt b (ofList o.data) j := by
      intro j hj
      unfold ushortAt
      rw [hdata.be16 hj, Nat.add_assoc, hdata (j + 1) hj, hdata j (by omega)]
    have h₀ := hushort 0 (by omega)
    have h₂ := hushort 2 (by omega)
    rw [Nat.add_assoc] at h₀ h₂
    simp only [h₀, h₂]
  · simp only [DhcpOpt.ip_eq h (DhcpOpt.four_le ht (by simp))]
  · simp only [*]

end

/-! ## `BootpVendorProcess` -/

def starts : ℕ → List (ℕ × DhcpOpt) → List ℕ
  | _, [] => []
  | i, (k, o) :: opts => (i + k) :: starts (i + k + (o.data.length + 2)) opts

def endOf : ℕ → List (ℕ × DhcpOpt) → ℕ
  | i, [] => i
  | i, (k, o) :: opts => endOf (i + k + (o.data.length + 2)) opts

inductive Lies (pkt : Bytes) (pads : ℕ) : ℕ → List (ℕ × DhcpOpt) → Prop where
  | stop {i : ℕ} (hpads : ∀ j < pads, pkt (i + j) = 0) (hend : pkt (i + pads) = 0xff) :
    Lies pkt pads i []
  | opt {i k : ℕ} {o : DhcpOpt} {opts : List (ℕ × DhcpOpt)} (hpads : ∀ j < k, pkt (i + j) = 0)
      (ho : At pkt (i + k) o.encode) (h : Lies pkt pads (i + k + (o.data.length + 2)) opts) :
    Lies pkt pads i ((k, o) :: opts)

section
variable {pkt : Bytes} {i k pads stop rounds : ℕ} {o : DhcpOpt} {opts : List (ℕ × DhcpOpt)}
  {p : Params}

@[simp] theorem length_encode (o : DhcpOpt) : o.encode.length = o.data.length + 2 := rfl

theorem encodeOpts_cons (x : ℕ × DhcpOpt) (opts : List (ℕ × DhcpOpt)) :
    encodeOpts (x :: opts) = List.replicate x.1 0 ++ (x.2.encode ++ encodeOpts opts) := by
  simp [encodeOpts]

theorem lies_of_at (h : At pkt i (encodeOpts opts ++ List.replicate pads 0 ++ [0xff])) :
    Lies pkt pads i opts := by
  induction opts generalizing i with
  | nil =>
    obtain ⟨hpads, hend⟩ := At.append h
    rw [encodeOpts, List.flatMap_nil, List.nil_append, List.length_replicate] at hend
    exact .stop (fun j hj => At.replicate hpads hj) (At.cons hend).1
  | cons x opts ih =>
    obtain ⟨k, o⟩ := x
    rw [encodeOpts_cons, List.append_assoc, List.append_assoc, List.append_assoc,
      ← List.append_assoc (encodeOpts opts)] at h
    obtain ⟨hpads, h⟩ := At.append h
    obtain ⟨ho, h⟩ := At.append h
    rw [List.length_replicate] at ho h
    exact .opt (fun j hj => At.replicate hpads hj) ho (ih h)

theorem endOf_eq (i : ℕ) (opts : List (ℕ × DhcpOpt)) :
    endOf i opts = i + (encodeOpts opts).length := by
  induction opts generalizing i with
  | nil => rfl
  | cons x opts ih =>
    rw [endOf, ih, encodeOpts_cons, List.length_append, List.length_append,
      List.length_replicate, length_encode]
    omega

theorem bootpVendorLoop_pads (hpads : ∀ j < k, pkt (i + j) = 0) (hstop : i + k ≤ stop) :
    bootpVendorLoop pkt stop (rounds + k) i p = bootpVendorLoop pkt stop rounds (i + k) p := by
  induction k generalizing i with
  | zero => rfl
  | succ k ih =>
    have h₀ : pkt i = 0 := hpads 0 k.succ_pos
    rw [← Nat.add_assoc, bootpVendorLoop, if_pos ⟨by omega, by rw [h₀]; decide⟩, if_pos h₀,
      ih (fun j hj => ?_) (by omega), Nat.add_assoc, Nat.add_comm 1 k]
    rw [Nat.add_assoc, Nat.add_comm 1 j]
    exact hpads (j + 1) (by omega)

/-- **The first walker.** It hands each option over at its place. -/
theorem bootpVendorLoop_eq (h : Lies pkt pads i opts) (hstop : endOf i opts + pads < stop)
    (hrounds : endOf i opts + pads < i + rounds) :
    bootpVendorLoop pkt stop rounds i p =
      opts.foldl (fun p x => x.2.vendor { p with netBootFileSize := 0 }) p := by
  induction h generalizing rounds p with
  | @stop i hpads hend =>
    simp only [endOf] at hstop hrounds
    obtain ⟨r, rfl⟩ := Nat.exists_eq_add_of_lt (by omega : pads < rounds)
    rw [Nat.add_assoc, Nat.add_comm pads, bootpVendorLoop_pads hpads (by omega), bootpVendorLoop,
      if_neg fun hc => hc.2 hend]
    rfl
  | @opt i k o opts hpads ho h ih =>
    have hle : i + k + (o.data.length + 2) ≤ endOf (i + k + (o.data.length + 2)) opts := by
      rw [endOf_eq]
      omega
    simp only [endOf] at hstop hrounds
    obtain ⟨htag, hlen, -⟩ := DhcpOpt.at_encode ho
    obtain ⟨r, rfl⟩ := Nat.exists_eq_add_of_lt (by omega : k < rounds)
    have hnext : i + k + (pkt (i + k + 1)).toNat + 2 = i + k + (o.data.length + 2) := by
      rw [hlen, Nat.add_assoc]
    rw [Nat.add_assoc, Nat.add_comm k, bootpVendorLoop_pads hpads (by omega), bootpVendorLoop,
      if_pos ⟨by omega, by rw [htag]; exact o.tag_ne_end⟩,
      if_neg (by rw [htag]; exact o.tag_ne_pad)]
    simp only [hnext]
    rw [if_pos (by omega), ih hstop (by omega), bootpVendorFieldProcess_eq ho, List.foldl_cons]

theorem DhcpOpt.vendor_size (o : DhcpOpt) (p : Params) (n : ℕ) :
    o.vendor { p with netBootFileSize := n } =
      { o.vendor p with netBootFileSize := o.fileSize.getD n } := by
  have hother : o.tag.toNat ≠ 13 → o.fileSize = none := by
    intro hne
    unfold DhcpOpt.fileSize
    rw [if_neg fun h => hne (by rw [h]; rfl)]
  unfold DhcpOpt.vendor
  generalize ht : o.tag.toNat = t at hother
  split
  · rw [hother (by decide)]
    split_ifs <;> rfl
  · rw [hother (by decide)]
    split_ifs <;> rfl
  · rw [hother (by decide)]
    split_ifs <;> rfl
  · rw [hother (by decide)]
    split_ifs <;> rfl
  · rfl
  · rw [hother (by decide)]
    split_ifs <;> rfl
  · rw [hother (by decide)]
    split_ifs <;> rfl
  · rw [hother ‹_›]
    rfl

def vendorAll (opts : List (ℕ × DhcpOpt)) (p : Params) : Params :=
  opts.foldl (fun p x => x.2.vendor p) p

/-- The boot file size of a list: that of the last option with one. -/
def fileSizeOf (opts : List (ℕ × DhcpOpt)) (n : ℕ) : ℕ :=
  opts.foldl (fun n x => x.2.fileSize.getD n) n

theorem vendorAll_size (opts : List (ℕ × DhcpOpt)) (p : Params) :
    (vendorAll opts p).netBootFileSize = fileSizeOf opts p.netBootFileSize := by
  induction opts generalizing p with
  | nil => rfl
  | cons x opts ih =>
    have hone : (x.2.vendor p).netBootFileSize = x.2.fileSize.getD p.netBootFileSize :=
      congrArg Params.netBootFileSize (x.2.vendor_size p p.netBootFileSize)
    rw [vendorAll, List.foldl_cons, fileSizeOf, List.foldl_cons, ← hone]
    exact ih _

/-- With the boot file size cleared at every option, what is left of it is the last option's. -/
theorem foldl_clear (opts : List (ℕ × DhcpOpt)) (p : Params) :
    opts.foldl (fun p x => x.2.vendor { p with netBootFileSize := 0 }) p =
      { vendorAll opts p with netBootFileSize :=
        (opts.getLast?.map fun x => x.2.fileSize.getD 0).getD p.netBootFileSize } := by
  induction opts using List.reverseRecOn with
  | nil => rfl
  | append_singleton opts x ih =>
    have hspec : vendorAll (opts ++ [x]) p = x.2.vendor (vendorAll opts p) :=
      List.foldl_append
    rw [List.foldl_append, ih, hspec, List.getLast?_append]
    exact x.2.vendor_size (vendorAll opts p) 0

/-- `BootpVendorProcess` does what the list has to do exactly if the list is empty, its last
option has the boot file size, or there is none to lose. -/
theorem foldl_clear_iff (opts : List (ℕ × DhcpOpt)) (p : Params) :
    opts.foldl (fun p x => x.2.vendor { p with netBootFileSize := 0 }) p = vendorAll opts p ↔
      ∀ x ∈ opts.getLast?, x.2.fileSize = none → fileSizeOf opts p.netBootFileSize = 0 := by
  have hset : ∀ (q : Params) n, { q with netBootFileSize := n } = q ↔ n = q.netBootFileSize :=
    fun q n => ⟨fun h => congrArg Params.netBootFileSize h, fun h => by rw [h]⟩
  rw [foldl_clear, hset, vendorAll_size]
  induction opts using List.reverseRecOn with
  | nil => simp [fileSizeOf]
  | append_singleton opts x _ =>
    rw [List.getLast?_append, List.getLast?_singleton, fileSizeOf, List.foldl_append]
    cases hx : x.2.fileSize with
    | none => simp [hx, eq_comm]
    | some n => simp [hx]

end

/-! ## `DhcpOptionsProcess` -/

/-- Where the loop of `DhcpOptionsProcess` finds a tag other than 0, which it does nothing for. -/
def dhcpSeen (pkt : Bytes) (stop : ℕ) : ℕ → ℕ → List ℕ
  | 0, _ => []
  | rounds + 1, popt =>
    if popt < stop ∧ pkt popt ≠ 0xff then
      (if pkt popt = 0 then [] else [popt]) ++
        dhcpSeen pkt stop rounds (popt + (pkt (popt + 1)).toNat + 2)
    else []

section
variable {pkt : Bytes} {i k m pads stop rounds rounds' popt : ℕ} {o : DhcpOpt}
  {opts : List (ℕ × DhcpOpt)} {b : Board} {s : Globals}

theorem dhcpOptionsLoop_eq : dhcpOptionsLoop b pkt stop rounds popt s =
    (dhcpSeen pkt stop rounds popt).foldl (fun s i => dhcpOption b pkt i s) s := by
  induction rounds generalizing popt s with
  | zero => rfl
  | succ rounds ih =>
    rw [dhcpOptionsLoop, dhcpSeen]
    split_ifs with hgo hpad
    · have hnone : dhcpOption b pkt popt s = s := by
        unfold dhcpOption
        rw [hpad]
        rfl
      rw [ih, hnone, List.nil_append]
    · rw [ih, List.singleton_append, List.foldl_cons]
    · rfl

/-- A round steps on, so there are never more of them than bytes. -/
theorem dhcpSeen_enough (h : stop ≤ popt + rounds) (h' : stop ≤ popt + rounds') :
    dhcpSeen pkt stop rounds popt = dhcpSeen pkt stop rounds' popt := by
  induction rounds generalizing rounds' popt with
  | zero =>
    cases rounds' with
    | zero => rfl
    | succ rounds' => rw [dhcpSeen, dhcpSeen, if_neg fun hgo => by omega]
  | succ rounds ih =>
    cases rounds' with
    | zero => rw [dhcpSeen, dhcpSeen, if_neg fun hgo => by omega]
    | succ rounds' =>
      rw [dhcpSeen, dhcpSeen, @ih rounds' _ (by omega) (by omega)]

def Sees (pkt : Bytes) (stop popt : ℕ) : List ℕ := dhcpSeen pkt stop (stop - popt) popt

theorem dhcpSeen_eq (rounds : ℕ) (h : stop ≤ popt + rounds) :
    dhcpSeen pkt stop rounds popt = Sees pkt stop popt :=
  dhcpSeen_enough h (by omega)

theorem sees_stop (h : stop ≤ popt) : Sees pkt stop popt = [] := by
  rw [Sees, Nat.sub_eq_zero_of_le h, dhcpSeen]

theorem sees_end (h : pkt popt = 0xff) : Sees pkt stop popt = [] := by
  rw [← dhcpSeen_eq (stop + 1) (by omega), dhcpSeen, if_neg fun hgo => hgo.2 h]

theorem sees_go (h : popt < stop) (hend : pkt popt ≠ 0xff) :
    Sees pkt stop popt = (if pkt popt = 0 then [] else [popt]) ++
      Sees pkt stop (popt + (pkt (popt + 1)).toNat + 2) := by
  rw [← dhcpSeen_eq (stop + 1) (by omega), dhcpSeen, if_pos ⟨h, hend⟩,
    dhcpSeen_eq stop (by omega)]

theorem le_of_mem_sees (h : i ∈ Sees pkt stop popt) : popt ≤ i := by
  rw [Sees] at h
  generalize stop - popt = rounds at h
  induction rounds generalizing popt with
  | zero => cases h
  | succ rounds ih =>
    rw [dhcpSeen] at h
    split_ifs at h with hgo hpad
    · have hle := ih h
      omega
    · rcases List.mem_cons.mp h with rfl | h
      · exact le_rfl
      · have hle := ih h
        omega
    · cases h

/-- A pad is taken for a tag: the byte behind it says how far to go. -/
theorem sees_pad (h : pkt i = 0) (hi : i < stop) :
    Sees pkt stop i = Sees pkt stop (i + (pkt (i + 1)).toNat + 2) := by
  rw [sees_go hi (by rw [h]; decide), if_pos h, List.nil_append]

theorem sees_pads (hpads : ∀ j < 2 * m, pkt (i + j) = 0) :
    Sees pkt stop i = Sees pkt stop (i + 2 * m) := by
  induction m generalizing i with
  | zero => rfl
  | succ m ih =>
    rcases Nat.lt_or_ge i stop with hi | hi
    · have h₀ : pkt i = 0 := hpads 0 (by omega)
      have h₁ : pkt (i + 1) = 0 := hpads 1 (by omega)
      have hrest : ∀ j < 2 * m, pkt (i + 2 + j) = 0 := by
        intro j hj
        rw [Nat.add_assoc]
        exact hpads (2 + j) (by omega)
      rw [sees_pad h₀ hi, h₁]
      change Sees pkt stop (i + 2) = _
      rw [ih hrest]
      congr 1
      omega
    · rw [sees_stop hi, sees_stop (by omega)]

theorem sees_odd (hpads : ∀ j < k, pkt (i + j) = 0) (hk : ¬ Even k) :
    Sees pkt stop i =
      if i + k ≤ stop then Sees pkt stop (i + k + (pkt (i + k)).toNat + 1) else [] := by
  obtain ⟨m, rfl⟩ := Nat.not_even_iff_odd.mp hk
  rw [@sees_pads pkt i m stop fun j hj => hpads j (by omega)]
  split_ifs with hle
  · rw [sees_pad (hpads (2 * m) (by omega)) (by omega)]
    congr 1
    rw [Nat.add_assoc i (2 * m) 1]
    omega
  · exact sees_stop (by omega)

/-- **The second walker.** It sees the options of a list, each in its place, exactly if every run
of pads before an option is even, every option begins before `stop`, and the last run is even or
nothing is found where the walk goes on behind the end tag. -/
theorem sees_starts_iff (h : Lies pkt pads i opts) :
    Sees pkt stop i = starts i opts ↔
      (∀ x ∈ opts, Even x.1) ∧ (∀ j ∈ starts i opts, j < stop) ∧
        (Even pads ∨ Sees pkt stop (endOf i opts + pads + 256) = []) := by
  induction h with
  | @stop i hpads hend =>
    simp only [starts, endOf, List.not_mem_nil, false_implies, implies_true, true_and]
    by_cases hk : Even pads
    · obtain ⟨m, rfl⟩ := hk.exists_two_nsmul
      rw [smul_eq_mul] at hpads hend ⊢
      rw [sees_pads hpads, sees_end hend]
      exact iff_of_true rfl (Or.inl (even_two_mul m))
    · rw [sees_odd hpads hk, hend, or_iff_right hk]
      split_ifs with hle
      · rfl
      · exact iff_of_true rfl (sees_stop (by omega))
  | @opt i k o opts hpads ho h ih =>
    obtain ⟨htag, hlen, -⟩ := DhcpOpt.at_encode ho
    by_cases hk : Even k
    · have hgo : Sees pkt stop i = Sees pkt stop (i + k) := by
        obtain ⟨m, rfl⟩ := hk.exists_two_nsmul
        rw [smul_eq_mul] at hpads ⊢
        exact sees_pads hpads
      rw [hgo, starts, endOf, List.forall_mem_cons, List.forall_mem_cons, and_iff_right hk]
      rcases Nat.lt_or_ge (i + k) stop with hi | hi
      · rw [sees_go hi (by rw [htag]; exact o.tag_ne_end),
          if_neg (by rw [htag]; exact o.tag_ne_pad), hlen, Nat.add_assoc (i + k),
          List.singleton_append, List.cons.injEq, eq_self, true_and, ih, and_iff_right hi]
      · rw [sees_stop hi]
        exact iff_of_false (by simp) fun hc => absurd hc.2.1.1 (by omega)
    · refine iff_of_false (fun hc => ?_) fun hc => hk (hc.1 _ List.mem_cons_self)
      rw [sees_odd hpads hk, starts] at hc
      split_ifs at hc
      have hmem : i + k ∈ Sees pkt stop (i + k + (pkt (i + k)).toNat + 1) := by
        rw [hc]
        exact List.mem_cons_self
      have hle := le_of_mem_sees hmem
      omega

def dhcpAll (b : Board) (opts : List (ℕ × DhcpOpt)) (s : Globals) : Globals :=
  opts.foldl (fun s x => x.2.dhcp b s) s

theorem foldl_dhcpOption (h : Lies pkt pads i opts) :
    (starts i opts).foldl (fun s i => dhcpOption b pkt i s) s = dhcpAll b opts s := by
  induction h generalizing s with
  | stop => rfl
  | @opt i k o opts hpads ho h ih =>
    rw [starts, List.foldl_cons, dhcpAll, List.foldl_cons, dhcpOption_eq b ho]
    exact ih

end

/-! ## `DhcpMessageType` -/

/-- Where the scan of `DhcpMessageType` finds a tag other than 0. -/
def messageSeen (pkt : Bytes) : ℕ → ℕ → Option (List ℕ)
  | 0, _ => none
  | scan + 1, popt =>
    if pkt popt = 0xff then some []
    else if pkt popt = 53 then some [popt]
    else (messageSeen pkt scan (popt + (pkt (popt + 1)).toNat + 2)).map
      ((if pkt popt = 0 then [] else [popt]) ++ ·)

def untilType : List (ℕ × DhcpOpt) → List (ℕ × DhcpOpt)
  | [] => []
  | x :: opts => if x.2.tag = 53 then [x] else x :: untilType opts

/-- The type that stands at the last of the places, or -1. -/
def typeAt (pkt : Bytes) (l : List ℕ) : Int :=
  match l.getLast? with
  | some j => if pkt j = 53 then (pkt (j + 2)).toNat else -1
  | none => -1

section
variable {pkt : Bytes} {i k m pads scan popt : ℕ} {o : DhcpOpt} {opts : List (ℕ × DhcpOpt)}
  {l : List ℕ}

theorem dhcpMessageScan_eq :
    dhcpMessageScan pkt scan popt = (messageSeen pkt scan popt).map (typeAt pkt) := by
  induction scan generalizing popt with
  | zero => rfl
  | succ scan ih =>
    rw [dhcpMessageScan, messageSeen]
    split_ifs with hend htype hpad
    · rfl
    · simp [typeAt, htype]
    · rw [ih]
      simp
    · rw [ih]
      cases messageSeen pkt scan (popt + (pkt (popt + 1)).toNat + 2) with
      | none => rfl
      | some l =>
        cases l with
        | nil => simp [typeAt, htype]
        | cons j l => simp [typeAt, List.getLast?_cons_cons]

def Scans (pkt : Bytes) (popt : ℕ) (l : List ℕ) : Prop := ∃ scan, messageSeen pkt scan popt = some l

theorem scans_end (h : pkt popt = 0xff) : Scans pkt popt l ↔ l = [] := by
  constructor
  · rintro ⟨scan, hs⟩
    cases scan with
    | zero => cases hs
    | succ scan =>
      rw [messageSeen, if_pos h] at hs
      exact (Option.some.inj hs).symm
  · rintro rfl
    exact ⟨1, by rw [messageSeen, if_pos h]⟩

theorem scans_type (h : pkt popt = 53) : Scans pkt popt l ↔ l = [popt] := by
  have hend : pkt popt ≠ 0xff := by rw [h]; decide
  constructor
  · rintro ⟨scan, hs⟩
    cases scan with
    | zero => cases hs
    | succ scan =>
      rw [messageSeen, if_neg hend, if_pos h] at hs
      exact (Option.some.inj hs).symm
  · rintro rfl
    exact ⟨1, by rw [messageSeen, if_neg hend, if_pos h]⟩

theorem scans_go (h : pkt popt ≠ 0xff) (h' : pkt popt ≠ 53) : Scans pkt popt l ↔
    ∃ l', Scans pkt (popt + (pkt (popt + 1)).toNat + 2) l' ∧
      l = (if pkt popt = 0 then [] else [popt]) ++ l' := by
  constructor
  · rintro ⟨scan, hs⟩
    cases scan with
    | zero => cases hs
    | succ scan =>
      rw [messageSeen, if_neg h, if_neg h'] at hs
      obtain ⟨l', hl', rfl⟩ := Option.map_eq_some_iff.mp hs
      exact ⟨l', ⟨scan, hl'⟩, rfl⟩
  · rintro ⟨l', ⟨scan, hl'⟩, rfl⟩
    exact ⟨scan + 1, by rw [messageSeen, if_neg h, if_neg h', hl']; rfl⟩

theorem le_of_mem_scans (h : Scans pkt popt l) (hi : i ∈ l) : popt ≤ i := by
  obtain ⟨scan, h⟩ := h
  induction scan generalizing popt l with
  | zero => cases h
  | succ scan ih =>
    rw [messageSeen] at h
    split_ifs at h
    · obtain rfl := Option.some.inj h
      cases hi
    · obtain rfl := Option.some.inj h
      exact (List.mem_singleton.mp hi).ge
    · obtain ⟨l', hl', rfl⟩ := Option.map_eq_some_iff.mp h
      have hle := ih hi hl'
      omega
    · obtain ⟨l', hl', rfl⟩ := Option.map_eq_some_iff.mp h
      rcases List.mem_cons.mp hi with rfl | hi
      · exact le_rfl
      · have hle := ih hi hl'
        omega

theorem scans_pad (h : pkt i = 0) :
    Scans pkt i l ↔ Scans pkt (i + (pkt (i + 1)).toNat + 2) l := by
  rw [scans_go (by rw [h]; decide) (by rw [h]; decide), if_pos h]
  simp only [List.nil_append]
  exact ⟨fun ⟨l', hl', hl⟩ => hl ▸ hl', fun hl => ⟨l, hl, rfl⟩⟩

theorem scans_pads (hpads : ∀ j < 2 * m, pkt (i + j) = 0) :
    Scans pkt i l ↔ Scans pkt (i + 2 * m) l := by
  induction m generalizing i with
  | zero => exact Iff.rfl
  | succ m ih =>
    have h₀ : pkt i = 0 := hpads 0 (by omega)
    have h₁ : pkt (i + 1) = 0 := hpads 1 (by omega)
    have hrest : ∀ j < 2 * m, pkt (i + 2 + j) = 0 := by
      intro j hj
      rw [Nat.add_assoc]
      exact hpads (2 + j) (by omega)
    rw [scans_pad h₀, h₁]
    change Scans pkt (i + 2) l ↔ _
    rw [ih hrest, Nat.add_assoc, show 2 + 2 * m = 2 * (m + 1) by omega]

theorem scans_odd (hpads : ∀ j < k, pkt (i + j) = 0) (hk : ¬ Even k) :
    Scans pkt i l ↔ Scans pkt (i + k + (pkt (i + k)).toNat + 1) l := by
  obtain ⟨m, rfl⟩ := Nat.not_even_iff_odd.mp hk
  rw [@scans_pads pkt i m l fun j hj => hpads j (by omega),
    scans_pad (hpads (2 * m) (by omega)), Nat.add_assoc i (2 * m) 1]
  have hnext : i + 2 * m + (pkt (i + (2 * m + 1))).toNat + 2 =
      i + (2 * m + 1) + (pkt (i + (2 * m + 1))).toNat + 1 := by omega
  rw [hnext]

/-- **The third walker.** It sees the options up to the first message type, each in its place,
exactly if every run of pads before one of them is even and, where there is no message type, the
last run is even or nothing is found where the scan goes on behind the end tag. -/
theorem scans_starts_iff (h : Lies pkt pads i opts) :
    Scans pkt i (starts i (untilType opts)) ↔
      (∀ x ∈ untilType opts, Even x.1) ∧
        ((∀ x ∈ opts, x.2.tag ≠ 53) →
          Even pads ∨ Scans pkt (endOf i opts + pads + 256) []) := by
  induction h with
  | @stop i hpads hend =>
    simp only [untilType, starts, endOf, List.not_mem_nil, false_implies, implies_true, true_and,
      true_implies]
    by_cases hk : Even pads
    · obtain ⟨m, rfl⟩ := hk.exists_two_nsmul
      rw [smul_eq_mul] at hpads hend ⊢
      rw [scans_pads hpads, scans_end hend]
      exact iff_of_true rfl (Or.inl (even_two_mul m))
    · rw [scans_odd hpads hk, hend, or_iff_right hk]
      rfl
  | @opt i k o opts hpads ho h ih =>
    obtain ⟨htag, hlen, -⟩ := DhcpOpt.at_encode ho
    have hhead : (k, o) ∈ untilType ((k, o) :: opts) := by
      rw [untilType]
      split_ifs <;> exact List.mem_cons_self
    by_cases hk : Even k
    · have hgo : ∀ l, Scans pkt i l ↔ Scans pkt (i + k) l := by
        intro l
        obtain ⟨m, rfl⟩ := hk.exists_two_nsmul
        rw [smul_eq_mul] at hpads ⊢
        exact scans_pads hpads
      rw [hgo, untilType]
      by_cases htype : o.tag = 53
      · rw [if_pos htype, scans_type (htag.trans htype)]
        refine iff_of_true rfl ⟨?_, fun hno => absurd htype (hno _ List.mem_cons_self)⟩
        intro x hx
        rw [List.mem_singleton.mp hx]
        exact hk
      · rw [if_neg htype, starts, scans_go (by rw [htag]; exact o.tag_ne_end)
          (by rw [htag]; exact htype), if_neg (by rw [htag]; exact o.tag_ne_pad), hlen,
          Nat.add_assoc (i + k), endOf, List.forall_mem_cons, List.forall_mem_cons,
          and_iff_right hk, and_iff_right (show (k, o).2.tag ≠ 53 from htype), ← ih]
        simp only [List.singleton_append, List.cons.injEq, true_and]
        exact ⟨fun ⟨l', hl', hl⟩ => hl ▸ hl', fun hl => ⟨_, hl, rfl⟩⟩
    · refine iff_of_false (fun hc => ?_) fun hc => hk (hc.1 _ hhead)
      have hmem : i + k ∈ starts i (untilType ((k, o) :: opts)) := by
        rw [untilType]
        split_ifs <;> exact List.mem_cons_self
      have hle := le_of_mem_scans ((scans_odd hpads hk).mp hc) hmem
      omega

theorem typeAt_cons {j : ℕ} (h : pkt j ≠ 53) : typeAt pkt (j :: l) = typeAt pkt l := by
  cases l with
  | nil => simp [typeAt, h]
  | cons j' l => simp [typeAt, List.getLast?_cons_cons]

theorem typeAt_starts (h : Lies pkt pads i opts) :
    typeAt pkt (starts i (untilType opts)) = messageType opts := by
  induction h with
  | stop => rfl
  | @opt i k o opts hpads ho h ih =>
    obtain ⟨htag, hlen, hdata⟩ := DhcpOpt.at_encode ho
    rw [untilType]
    by_cases htype : o.tag = 53
    · have hlong : 0 < o.data.length := by
        have hlong := o.long
        rw [htype] at hlong
        exact hlong
      have htag := htag.trans htype
      rw [if_pos htype, messageType, List.find?_cons_of_pos (by simpa using htype), starts, starts]
      simp [typeAt, htag, ← hdata 0 hlong]
    · rw [if_neg htype, starts, typeAt_cons (by rw [htag]; exact htype), ih, messageType,
        messageType, List.find?_cons_of_neg (by simpa using htype)]

end

/-! ## The three walkers -/

section
variable {b : Board} {pkt : Bytes} {popt n : ℕ} {l : OptionList} {p : Params} {s : Globals}

/-- `BootpVendorProcess` does what the options of the list have to do. -/
def VendorSees (pkt : Bytes) (ext n : ℕ) (l : OptionList) (p : Params) : Prop :=
  bootpVendorProcess pkt ext (UInt32.ofNat n) p = vendorAll l.opts p

/-- `DhcpOptionsProcess` sees the options of the list, and does what they have to do. -/
def DhcpSees (b : Board) (pkt : Bytes) (popt : ℕ) (l : OptionList) (s : Globals) : Prop :=
  dhcpSeen pkt (popt + b.bootpHdrSize) b.bootpHdrSize popt = starts popt l.opts ∧
    dhcpOptionsProcess b pkt popt s = dhcpAll b l.opts s

/-- `DhcpMessageType` sees the options of the list up to the first message type, and returns
that. -/
def MessageSees (pkt : Bytes) (popt : ℕ) (l : OptionList) : Prop :=
  ∃ scan, messageSeen pkt scan (popt + 4) = some (starts (popt + 4) (untilType l.opts)) ∧
    dhcpMessageType pkt scan popt = some (messageType l.opts)

theorem endOf_add (i : ℕ) (l : OptionList) :
    endOf i l.opts + l.pads + 256 = i + l.encode.length + 255 := by
  rw [endOf_eq, OptionList.encode, List.length_append, List.length_append, List.length_replicate,
    List.length_singleton]
  omega

/-- **The three walkers.** For every list of options in an area of `n` bytes behind the magic
number: `BootpVendorProcess` sees it exactly if the last option is the boot file size or there is
no boot file size to lose; `DhcpOptionsProcess` and `DhcpMessageType` exactly if no odd run of
pads stands before an option they come to, nor an odd last run with something behind the end tag
that they take for an option; and `DhcpOptionsProcess` only if every option begins within
`BOOTP_HDR_SIZE` bytes. -/
theorem options_seen_iff (hmagic : be32 pkt popt = bootpVendorMagic)
    (hlist : At pkt (popt + 4) l.encode) (hn : l.encode.length ≤ n) (hint : n < 2 ^ 31) :
    (VendorSees pkt (popt + 4) n l p ↔
      ∀ x ∈ l.opts.getLast?, x.2.fileSize = none → fileSizeOf l.opts p.netBootFileSize = 0) ∧
    (DhcpSees b pkt (popt + 4) l s ↔
      (∀ x ∈ l.opts, Even x.1) ∧
        (∀ j ∈ starts (popt + 4) l.opts, j < popt + 4 + b.bootpHdrSize) ∧
        (Even l.pads ∨
          Sees pkt (popt + 4 + b.bootpHdrSize) (popt + 4 + l.encode.length + 255) = [])) ∧
    (MessageSees pkt popt l ↔
      (∀ x ∈ untilType l.opts, Even x.1) ∧
        ((∀ x ∈ l.opts, x.2.tag ≠ 53) →
          Even l.pads ∨ Scans pkt (popt + 4 + l.encode.length + 255) [])) := by
  have hlies : Lies pkt l.pads (popt + 4) l.opts := lies_of_at hlist
  have hend := endOf_add (popt + 4) l
  refine ⟨?_, ?_, ?_⟩
  · have hsize : (UInt32.ofNat n).toNat = n := by
      rw [UInt32.toNat_ofNat']
      exact Nat.mod_eq_of_lt (by omega)
    rw [VendorSees, bootpVendorProcess, hsize, if_pos hint,
      bootpVendorLoop_eq hlies (by omega) (by omega)]
    exact foldl_clear_iff l.opts p
  · rw [← hend, ← sees_starts_iff hlies, ← dhcpSeen_eq b.bootpHdrSize le_rfl]
    refine and_iff_left_of_imp fun hseen => ?_
    rw [dhcpOptionsProcess, dhcpOptionsLoop_eq, hseen, foldl_dhcpOption hlies]
  · rw [← hend, ← scans_starts_iff hlies]
    refine exists_congr fun scan => and_iff_left_of_imp fun hseen => ?_
    rw [dhcpMessageType, if_neg (not_not.mpr hmagic), dhcpMessageScan_eq, hseen]
    exact congrArg some (typeAt_starts hlies)

end

/-! ## Lists that are not seen -/

/-- A subnet mask, a boot file size, a host name and a message type. -/
def maskOpt : DhcpOpt := ⟨1, [255, 255, 255, 0], by decide, by decide, by decide, by decide⟩
def fileSizeOpt : DhcpOpt := ⟨13, [0, 16], by decide, by decide, by decide, by decide⟩
def hostNameOpt : DhcpOpt := ⟨12, [97], by decide, by decide, by decide, by decide⟩
def ackOpt : DhcpOpt := ⟨53, [5], by decide, by decide, by decide, by decide⟩

def vendorArea (l : OptionList) : Bytes := ofList ([99, 130, 83, 99] ++ l.encode)

theorem at_vendorArea (l : OptionList) : At (vendorArea l) 4 l.encode := by
  have h : At (vendorArea l) 0 ([99, 130, 83, 99] ++ l.encode) := fun j _ => by
    rw [Nat.zero_add]
    rfl
  exact h.append.2

/-- A list with two pads before the subnet mask and the boot file size at its end. -/
def seenList : OptionList := ⟨[(0, ackOpt), (2, maskOpt), (0, fileSizeOpt)], 0⟩

theorem options_seen_iff_sample :
    VendorSees (vendorArea seenList) 4 32 seenList Globals.plain.params ∧
      DhcpSees .plain (vendorArea seenList) 4 seenList .plain ∧
      MessageSees (vendorArea seenList) 0 seenList := by
  obtain ⟨h₁, h₂, h₃⟩ := @options_seen_iff .plain (vendorArea seenList) 0 32 seenList
    Globals.plain.params .plain (by decide) (at_vendorArea seenList) (by decide) (by decide)
  refine ⟨h₁.mpr ?_, h₂.mpr ⟨?_, ?_, Or.inl (by decide)⟩, h₃.mpr ⟨?_, fun _ => Or.inl (by decide)⟩⟩
  · decide
  · decide
  · decide
  · decide

/-- A host name behind the boot file size, and one pad before the subnet mask. -/
def sizeLost : OptionList := ⟨[(0, fileSizeOpt), (0, hostNameOpt)], 0⟩
def onePad : OptionList := ⟨[(1, maskOpt), (0, ackOpt)], 0⟩

/-- The boot file size is 0, the subnet mask is not read, and there is no message type. -/
theorem options_missed :
    (bootpVendorProcess (vendorArea sizeLost) 4 8 Globals.plain.params).netBootFileSize = 0 ∧
    (vendorAll sizeLost.opts Globals.plain.params).netBootFileSize = 16 ∧
    (dhcpOptionsProcess .plain (vendorArea onePad) 4 .plain).params.netOurSubnetMask = 0 ∧
    (dhcpAll .plain onePad.opts .plain).params.netOurSubnetMask = 0xffffff00 ∧
    dhcpMessageType (vendorArea onePad) 2 0 = some (-1) ∧ messageType onePad.opts = 5 := by
  refine ⟨by decide, by decide, by decide, by decide, by decide, by decide⟩

end UBoot.Net
