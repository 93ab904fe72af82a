import UBoot.Scsi.Command

/-!
# Reading blocks from USB storage (`common/usb_storage.c`)

`usb_stor_read` waits for the unit and reads in commands of at most 20 blocks, each of which it
tries three times. Meanwhile no asynchronous control message may be sent: `usb_disable_asynch`
switches this for the whole of USB.

The transport is a parameter: it says which of the commands sent to it work. `Follows` is what the
commands should be. `usb_stor_read_iff`: they are, and the result counts what they read, but the
messages stay switched off when the unit does not get ready.
-/

namespace UBoot.Usb.StorRead

open UBoot.Lib UBoot.Scsi

def usbMaxReadBlk : UInt32 := 20

/-- `smallblks`, the blocks of the next command. -/
def smallblks (blks : UInt32) : UInt16 :=
  if blks > usbMaxReadBlk then usbMaxReadBlk.toUInt16 else blks.toUInt16

theorem smallblks_toNat (blks : UInt32) : (smallblks blks).toNat = min 20 blks.toNat := by
  have h20 : usbMaxReadBlk.toNat = 20 := rfl
  rw [smallblks]
  split
  · rename_i h
    have hlt := UInt32.lt_iff_toNat_lt.mp h
    have hblocks : usbMaxReadBlk.toUInt16.toNat = 20 := rfl
    omega
  · rename_i h
    have hle := UInt32.le_iff_toNat_le.mp (UInt32.not_lt.mp h)
    rw [UInt32.toNat_toUInt16]
    omega

theorem rest_toNat (blks : UInt32) :
    (blks - (smallblks blks).toUInt32).toNat = blks.toNat - 20 := by
  have hsmall := smallblks_toNat blks
  have hle : (smallblks blks).toUInt32 ≤ blks := by
    rw [UInt32.le_iff_toNat_le, UInt16.toNat_toUInt32]
    omega
  rw [UInt32.toNat_sub_of_le _ _ hle, UInt16.toNat_toUInt32]
  omega

/-- The state of USB: `asynch_allowed`, `usb_ccb`, and the commands that have been sent with what
the transport said. -/
structure Host where
  asynchAllowed : Bool
  srb : Ccb
  sent : List (Ccb × Bool)

namespace Host

def usbDisableAsynch (h : Host) (disable : Bool) : Host := { h with asynchAllowed := !disable }

/-- `ss->transport (srb, ss) == USB_STOR_TRANSPORT_GOOD`; command `k` works if `good k`. -/
def transport (good : ℕ → Bool) (h : Host) : Bool × Host :=
  (good h.sent.length, { h with sent := h.sent ++ [(h.srb, good h.sent.length)] })

/-- The command of `usb_test_unit_ready`. -/
def setTestUnitReady (h : Host) : Host :=
  { h with srb :=
      { h.srb.setCmd [SCSI_TST_U_RDY, h.srb.lun <<< 5, 0, 0, 0, 0, 0, 0, 0, 0, 0, 0] 12 with
        datalen := 0 } }

/-- A command that is sent again, as it was made anew, until it works or there are no more retries:
`do ... while (retries--)`. -/
def retrying (good : ℕ → Bool) (make : Host → Host) : ℕ → Host → Bool × Host
  | retries, h =>
    let r := (make h).transport good
    if r.1 then r
    else
      match retries with
      | 0 => r
      | retries + 1 => retrying good make retries r.2

def usbTestUnitReady (good : ℕ → Bool) (h : Host) : Bool × Host :=
  h.retrying good setTestUnitReady 10

/-- The command of `usb_read_10`. -/
def setRead10 (h : Host) (start : UInt32) (blocks : UInt16) : Host :=
  { h with srb := h.srb.setCmd [SCSI_READ10, h.srb.lun <<< 5, (start >>> 24).toUInt8,
      (start >>> 16).toUInt8, (start >>> 8).toUInt8, start.toUInt8, 0, (blocks >>> 8).toUInt8,
      blocks.toUInt8, 0, 0, 0] 12 }

/-- The command of `usb_stor_read`, handed to `usb_read_10`. -/
def setRead (blksz start bufAddr : UInt32) (smallblks : UInt16) (h : Host) : Host :=
  { h with srb := { h.srb with datalen := blksz * smallblks.toUInt32, pdata := bufAddr } }.setRead10
    start smallblks

/-- From `retry_it` on. `usb_request_sense` returns before it does anything. -/
def retryIt (good : ℕ → Bool) (blksz start bufAddr : UInt32) (smallblks : UInt16) (h : Host) :
    Bool × Host :=
  h.retrying good (setRead blksz start bufAddr smallblks) 2

/-- The loop of `usb_stor_read`. -/
def readLoop (good : ℕ → Bool) (blksz blkcnt start blks bufAddr : UInt32) (h : Host) :
    UInt32 × Host :=
  let r := h.retryIt good blksz start bufAddr (smallblks blks)
  let blks' := blks - (smallblks blks).toUInt32
  if r.1 then
    if blks' ≠ 0 then
      readLoop good blksz blkcnt (start + (smallblks blks).toUInt32) blks'
        (bufAddr + r.2.srb.datalen) r.2
    else (blkcnt, r.2)
  else (blkcnt - blks, r.2)
termination_by blks.toNat
decreasing_by
  rename_i hne
  have hpos : (blks - (smallblks blks).toUInt32).toNat ≠ 0 := fun h0 =>
    hne (UInt32.toNat_inj.mp h0)
  rw [rest_toNat] at hpos ⊢
  omega

end Host

/-- The search for the device among `usb_dev`, of which the `devnum`s are given; -1 is no device.
The last one is taken without a comparison. -/
def usbDevice (target : UInt8) : List ℤ → Option ℤ
  | [] => none
  | devnum :: usbDev =>
    if devnum = -1 then none
    else if devnum = target.toNat ∨ usbDev = [] then some devnum
    else usbDevice target usbDev

/-- `usb_stor_read`; `good` may depend on the device. -/
def usbStorRead (usbDevDesc : ℕ → BlockDev) (usbDev : List ℤ) (good : ℤ → ℕ → Bool) (device : ℤ)
    (blknr blkcnt buffer : UInt32) (h : Host) : UInt32 × Host :=
  let d := usbDevDesc (device % 256).toNat
  match usbDevice d.target usbDev with
  | none => (0, h)
  | some dev =>
    let h := h.usbDisableAsynch true
    let h := { h with srb := { h.srb with lun := d.lun } }
    let ready := h.usbTestUnitReady (good dev)
    if ready.1 then
      let r := ready.2.readLoop (good dev) d.blksz blkcnt blknr blkcnt buffer
      (r.1, r.2.usbDisableAsynch false)
    else (0, ready.2)

/-! ## What the commands should be -/

/-- The command is a `READ(10)`. -/
def isRead (c : Ccb × Bool) : Bool := c.1.cmd 0 = SCSI_READ10

def got (c : Ccb × Bool) : ℕ := if c.2 then c.1.blocks else 0

def gotAll (cmds : List (Ccb × Bool)) : ℕ := (cmds.map got).sum

/-- The command asks for at most 20 blocks behind the first `n`, and puts them behind them in the
buffer. -/
structure Asks (blksz blknr buffer n : ℕ) (c : Ccb) : Prop where
  most : c.blocks ≤ 20
  lba : c.lba = (blknr + n) % 2 ^ 32
  datalen : c.datalen.toNat = blksz * c.blocks % 2 ^ 32
  pdata : c.pdata.toNat = (buffer + blksz * n) % 2 ^ 32

/-- Each command asks for what is behind the blocks that have been read; these were `n` before. -/
def Follows (blksz blknr buffer : ℕ) : ℕ → List (Ccb × Bool) → Prop
  | _, [] => True
  | n, c :: cmds =>
    Asks blksz blknr buffer n c.1 ∧ Follows blksz blknr buffer (n + got c) cmds

/-- The commands read the blocks from `blknr` on into the buffer, the result is how many blocks they
have read, and it is less than `blkcnt` only when there were none or the last one has failed three
times. -/
structure Reads (blksz blknr blkcnt buffer result : ℕ) (cmds : List (Ccb × Bool)) : Prop where
  follows : Follows blksz blknr buffer 0 cmds
  count : result = gotAll cmds
  le : result ≤ blkcnt
  short : result ≠ blkcnt → cmds = [] ∨
    ∃ before a b c, cmds = before ++ [(a, false), (b, false), (c, false)]

section
variable {good : ℕ → Bool} {blksz blknr buffer n : ℕ} {xs ys : List (Ccb × Bool)}

theorem follows_append : Follows blksz blknr buffer n (xs ++ ys) ↔
    Follows blksz blknr buffer n xs ∧ Follows blksz blknr buffer (n + gotAll xs) ys := by
  induction xs generalizing n with
  | nil => simp [Follows, gotAll]
  | cons x xs ih =>
    have hsum : n + gotAll (x :: xs) = n + got x + gotAll xs := (Nat.add_assoc ..).symm
    rw [List.cons_append, Follows, Follows, ih, and_assoc (c := Follows _ _ _ _ ys), hsum]

theorem gotAll_append : gotAll (xs ++ ys) = gotAll xs + gotAll ys := by
  rw [gotAll, List.map_append, List.sum_append, gotAll, gotAll]

/-! ## The commands that are sent -/

/-- What a retried command leaves: commands that failed, and the one that worked unless all
failed. -/
structure Tried (good : ℕ → Bool) (make : Host → Host) (retries : ℕ) (h : Host)
    (r : Bool × Host) (new : List (Ccb × Bool)) : Prop where
  sent : r.2.sent = h.sent ++ new
  asynch : r.2.asynchAllowed = h.asynchAllowed
  srb : ∃ h', r.2.srb = (make h').srb
  made : ∀ c ∈ new, ∃ h', c.1 = (make h').srb
  ok : r.1 = true → ∃ before c, new = before ++ [(c, true)] ∧ ∀ c ∈ before, c.2 = false
  failed : r.1 = false → new.length = retries + 1 ∧ ∀ c ∈ new, c.2 = false
  ok_iff : r.1 = true ↔ ∃ j ≤ retries, good (h.sent.length + j) = true

section
variable {make : Host → Host} {h : Host} {retries : ℕ}
  (hmake : ∀ h, (make h).sent = h.sent ∧ (make h).asynchAllowed = h.asynchAllowed)

include hmake

theorem tried_of_good (hgood : good h.sent.length = true) :
    Tried good make retries h (h.retrying good make retries) [((make h).srb, true)] := by
  obtain ⟨hsent, hasynch⟩ := hmake h
  have hr : h.retrying good make retries =
      (true, { make h with sent := h.sent ++ [((make h).srb, true)] }) := by
    cases retries <;> simp [Host.retrying, Host.transport, hsent, hgood]
  rw [hr]
  refine ⟨rfl, hasynch, ⟨h, rfl⟩, fun c hc => ?_, fun _ => ⟨[], _, rfl, by simp⟩,
    fun hf => absurd hf (by simp), iff_of_true rfl ⟨0, Nat.zero_le _, hgood⟩⟩
  obtain rfl := List.mem_singleton.mp hc
  exact ⟨h, rfl⟩

theorem tried_of_last (hbad : good h.sent.length = false) :
    Tried good make 0 h (h.retrying good make 0) [((make h).srb, false)] := by
  obtain ⟨hsent, hasynch⟩ := hmake h
  have hr : h.retrying good make 0 =
      (false, { make h with sent := h.sent ++ [((make h).srb, false)] }) := by
    simp [Host.retrying, Host.transport, hsent, hbad]
  rw [hr]
  refine ⟨rfl, hasynch, ⟨h, rfl⟩, fun c hc => ?_, fun hf => absurd hf (by simp),
    fun _ => ⟨rfl, by simp⟩, iff_of_false (by simp) ?_⟩
  · obtain rfl := List.mem_singleton.mp hc
    exact ⟨h, rfl⟩
  · rintro ⟨j, hj, hgood⟩
    obtain rfl := Nat.le_zero.mp hj
    rw [Nat.add_zero, hbad] at hgood
    cases hgood

theorem tried_of_retry (hbad : good h.sent.length = false) {r : Bool × Host}
    {new : List (Ccb × Bool)}
    (ht : Tried good make retries { make h with sent := h.sent ++ [((make h).srb, false)] } r new) :
    Tried good make (retries + 1) h r (((make h).srb, false) :: new) := by
  obtain ⟨hsent, hasynch⟩ := hmake h
  refine ⟨by rw [ht.sent, List.append_assoc]; rfl, ht.asynch.trans hasynch, ht.srb, fun c hc => ?_,
    fun hok => ?_, fun hf => ?_, ht.ok_iff.trans ?_⟩
  · rcases List.mem_cons.mp hc with rfl | hc
    · exact ⟨h, rfl⟩
    · exact ht.made c hc
  · obtain ⟨before, c, rfl, hbefore⟩ := ht.ok hok
    exact ⟨_ :: before, c, rfl, List.forall_mem_cons.mpr ⟨rfl, hbefore⟩⟩
  · obtain ⟨hlen, hall⟩ := ht.failed hf
    exact ⟨congrArg (· + 1) hlen, List.forall_mem_cons.mpr ⟨rfl, hall⟩⟩
  · have hk (j : ℕ) : (h.sent ++ [((make h).srb, false)]).length + j = h.sent.length + (j + 1) := by
      rw [List.length_append, List.length_singleton]
      omega
    constructor
    · rintro ⟨j, hj, hgood⟩
      exact ⟨j + 1, by omega, hk j ▸ hgood⟩
    · rintro ⟨_ | j, hj, hgood⟩
      · rw [Nat.add_zero, hbad] at hgood
        cases hgood
      · exact ⟨j, by omega, (hk j).symm ▸ hgood⟩

theorem exists_tried (retries : ℕ) (h : Host) :
    ∃ new, Tried good make retries h (h.retrying good make retries) new := by
  induction retries generalizing h with
  | zero =>
    cases hgood : good h.sent.length with
    | true => exact ⟨_, tried_of_good hmake hgood⟩
    | false => exact ⟨_, tried_of_last hmake hgood⟩
  | succ retries ih =>
    cases hgood : good h.sent.length with
    | true => exact ⟨_, tried_of_good hmake hgood⟩
    | false =>
      have hr : h.retrying good make (retries + 1) = Host.retrying good make retries
          { make h with sent := h.sent ++ [((make h).srb, false)] } := by
        rw [Host.retrying]
        simp [Host.transport, (hmake h).1, hgood]
      obtain ⟨new, hnew⟩ := ih { make h with sent := h.sent ++ [((make h).srb, false)] }
      rw [← hr] at hnew
      exact ⟨_, tried_of_retry hmake hgood hnew⟩

end

/-! ## One range -/

theorem setRead_srb (blksz start bufAddr : UInt32) (smallblks : UInt16) (h : Host) :
    (Host.setRead blksz start bufAddr smallblks h).srb.lba = start.toNat ∧
    (Host.setRead blksz start bufAddr smallblks h).srb.blocks = smallblks.toNat ∧
    (Host.setRead blksz start bufAddr smallblks h).srb.datalen = blksz * smallblks.toUInt32 ∧
    (Host.setRead blksz start bufAddr smallblks h).srb.pdata = bufAddr ∧
    (Host.setRead blksz start bufAddr smallblks h).srb.cmd 0 = SCSI_READ10 :=
  ⟨congrArg UInt32.toNat (beWord_beBytes start),
    @blocks_readExt h.srb start smallblks, rfl, rfl, rfl⟩

/-- Commands that all ask for the same range follow one another while they fail. -/
theorem follows_of_same (hsame : ∀ x ∈ xs, Asks blksz blknr buffer n x.1)
    (hfail : ∀ x ∈ xs, x.2 = false) : Follows blksz blknr buffer n xs ∧ gotAll xs = 0 := by
  induction xs with
  | nil => exact ⟨trivial, rfl⟩
  | cons x xs ih =>
    obtain ⟨hx, hsame⟩ := List.forall_mem_cons.mp hsame
    obtain ⟨hxf, hfail⟩ := List.forall_mem_cons.mp hfail
    obtain ⟨hxs, hzero⟩ := ih hsame hfail
    have hgot : got x = 0 := by
      rw [got, hxf]
      rfl
    refine ⟨⟨hx, ?_⟩, ?_⟩
    · rwa [hgot]
    · rw [gotAll, List.map_cons, List.sum_cons, hgot, Nat.zero_add]
      exact hzero

/-- Commands for one range: they read it, or fail three times. -/
structure Chunk (blksz : UInt32) (blknr buffer n blocks : ℕ) (h : Host) (r : Bool × Host)
    (new : List (Ccb × Bool)) : Prop where
  sent : r.2.sent = h.sent ++ new
  asynch : r.2.asynchAllowed = h.asynchAllowed
  reads : ∀ c ∈ new, isRead c = true
  follows : Follows blksz.toNat blknr buffer n new
  datalen : r.2.srb.datalen.toNat = blksz.toNat * blocks % 2 ^ 32
  ok : r.1 = true → gotAll new = blocks
  failed : r.1 = false → gotAll new = 0 ∧ ∃ a b c, new = [(a, false), (b, false), (c, false)]

section
variable {blksz start bufAddr : UInt32}

theorem setRead_asks (hstart : start.toNat = (blknr + n) % 2 ^ 32)
    (hbuf : bufAddr.toNat = (buffer + blksz.toNat * n) % 2 ^ 32) (blks : UInt32) (h : Host) :
    let srb := (Host.setRead blksz start bufAddr (smallblks blks) h).srb
    Asks blksz.toNat blknr buffer n srb ∧ srb.blocks = min 20 blks.toNat ∧
      srb.datalen.toNat = blksz.toNat * min 20 blks.toNat % 2 ^ 32 ∧ srb.cmd 0 = SCSI_READ10 := by
  intro srb
  have hsmall := smallblks_toNat blks
  have hdatalen : (blksz * (smallblks blks).toUInt32).toNat =
      blksz.toNat * min 20 blks.toNat % 2 ^ 32 := by
    rw [UInt32.toNat_mul, UInt16.toNat_toUInt32, hsmall]
  obtain ⟨hlba, hblocks, hlen, hpdata, hread⟩ := setRead_srb blksz start bufAddr (smallblks blks) h
  rw [hsmall] at hblocks
  have hbytes : srb.datalen.toNat = blksz.toNat * min 20 blks.toNat % 2 ^ 32 :=
    (congrArg UInt32.toNat hlen).trans hdatalen
  refine ⟨⟨?_, hlba.trans hstart, ?_, ?_⟩, hblocks, hbytes, hread⟩
  · exact hblocks.trans_le (Nat.min_le_left _ _)
  · rw [hbytes, ← hblocks]
  · exact (congrArg UInt32.toNat hpdata).trans hbuf

theorem retryIt_chunk (hstart : start.toNat = (blknr + n) % 2 ^ 32)
    (hbuf : bufAddr.toNat = (buffer + blksz.toNat * n) % 2 ^ 32) (good : ℕ → Bool) (blks : UInt32)
    (h : Host) : ∃ new, Chunk blksz blknr buffer n (min 20 blks.toNat) h
      (h.retryIt good blksz start bufAddr (smallblks blks)) new := by
  obtain ⟨new, ht⟩ := @exists_tried good
    (Host.setRead blksz start bufAddr (smallblks blks)) (fun h => ⟨rfl, rfl⟩) 2 h
  have hcmd : ∀ c ∈ new, Asks blksz.toNat blknr buffer n c.1 ∧ c.1.blocks = min 20 blks.toNat ∧
      isRead c = true := by
    intro c hc
    obtain ⟨h', hc'⟩ := ht.made c hc
    obtain ⟨hasks, hblocks, -, hread⟩ := setRead_asks hstart hbuf blks h'
    rw [← hc'] at hasks hblocks hread
    exact ⟨hasks, hblocks, decide_eq_true hread⟩
  have hasks : ∀ c ∈ new, Asks blksz.toNat blknr buffer n c.1 := fun c hc => (hcmd c hc).1
  refine ⟨new, ht.sent, ht.asynch, fun c hc => (hcmd c hc).2.2, ?_, ?_, fun hok => ?_,
    fun hf => ?_⟩
  · cases hr : (h.retrying good (Host.setRead blksz start bufAddr (smallblks blks)) 2).1 with
    | true =>
      obtain ⟨before, c, rfl, hbefore⟩ := ht.ok hr
      obtain ⟨hfirst, hzero⟩ := follows_of_same
        (fun x hx => hasks x (List.mem_append_left _ hx)) hbefore
      rw [follows_append, hzero]
      exact ⟨hfirst, hasks _ (by simp), trivial⟩
    | false => exact (follows_of_same hasks (ht.failed hr).2).1
  · obtain ⟨h', hsrb⟩ := ht.srb
    exact (congrArg (·.datalen.toNat) hsrb).trans (setRead_asks hstart hbuf blks h').2.2.1
  · obtain ⟨before, c, rfl, hbefore⟩ := ht.ok hok
    have hzero := (follows_of_same (fun x hx => hasks x (List.mem_append_left _ hx)) hbefore).2
    have hone : gotAll [(c, true)] = c.blocks := by simp [gotAll, got]
    rw [gotAll_append, hzero, Nat.zero_add, hone]
    exact (hcmd (c, true) (by simp)).2.1
  · obtain ⟨hlen, hall⟩ := ht.failed hf
    refine ⟨(follows_of_same hasks hall).2, ?_⟩
    obtain ⟨a, b, c, rfl⟩ := List.length_eq_three.mp hlen
    obtain ⟨a, a'⟩ := a
    obtain ⟨b, b'⟩ := b
    obtain ⟨c, c'⟩ := c
    simp only [List.mem_cons, List.not_mem_nil, or_false, forall_eq_or_imp, forall_eq] at hall
    obtain ⟨rfl, rfl, rfl⟩ := hall
    exact ⟨a, b, c, rfl⟩

end

/-! ## The loop -/

/-- What the loop sends when `n` blocks have been read. -/
structure Loop (blksz : UInt32) (blknr buffer n blkcnt : ℕ) (h : Host) (r : UInt32 × Host)
    (new : List (Ccb × Bool)) : Prop where
  sent : r.2.sent = h.sent ++ new
  asynch : r.2.asynchAllowed = h.asynchAllowed
  reads : ∀ c ∈ new, isRead c = true
  follows : Follows blksz.toNat blknr buffer n new
  count : r.1.toNat = n + gotAll new
  le : r.1.toNat ≤ blkcnt
  short : r.1.toNat ≠ blkcnt → ∃ before a b c,
    new = before ++ [(a, false), (b, false), (c, false)]

section
variable {blksz : UInt32} {blocks blkcnt : ℕ} {h : Host} {r : Bool × Host} {r' : UInt32 × Host}
  {new new' : List (Ccb × Bool)} {count : UInt32}

theorem loop_of_failed (hc : Chunk blksz blknr buffer n blocks h r new) (hf : r.1 = false)
    (hcount : count.toNat = n) (hle : n ≤ blkcnt) :
    Loop blksz blknr buffer n blkcnt h (count, r.2) new := by
  obtain ⟨hzero, a, b, c, hnew⟩ := hc.failed hf
  refine ⟨hc.sent, hc.asynch, hc.reads, hc.follows, ?_, hcount.trans_le hle,
    fun _ => ⟨[], a, b, c, hnew⟩⟩
  rw [hzero, Nat.add_zero]
  exact hcount

theorem loop_of_last (hc : Chunk blksz blknr buffer n blocks h r new) (hok : r.1 = true)
    (hcount : count.toNat = n + blocks) :
    Loop blksz blknr buffer n count.toNat h (count, r.2) new := by
  refine ⟨hc.sent, hc.asynch, hc.reads, hc.follows, ?_, le_rfl, fun hne => absurd rfl hne⟩
  rw [hc.ok hok]
  exact hcount

theorem loop_of_more (hc : Chunk blksz blknr buffer n blocks h r new) (hok : r.1 = true)
    (hl : Loop blksz blknr buffer (n + blocks) blkcnt r.2 r' new') :
    Loop blksz blknr buffer n blkcnt h r' (new ++ new') := by
  have hgot := hc.ok hok
  refine ⟨by rw [hl.sent, hc.sent, List.append_assoc], hl.asynch.trans hc.asynch,
    fun c hc' => ?_, ?_, ?_, hl.le, fun hne => ?_⟩
  · exact (List.mem_append.mp hc').elim (hc.reads c) (hl.reads c)
  · rw [follows_append, hgot]
    exact ⟨hc.follows, hl.follows⟩
  · rw [hl.count, gotAll_append, hgot, Nat.add_assoc]
  · obtain ⟨before, a, b, c, rfl⟩ := hl.short hne
    exact ⟨new ++ before, a, b, c, (List.append_assoc ..).symm⟩

end

theorem readLoop_loop (good : ℕ → Bool) {blksz blkcnt start blks bufAddr : UInt32}
    (hstart : start.toNat = (blknr + n) % 2 ^ 32)
    (hbuf : bufAddr.toNat = (buffer + blksz.toNat * n) % 2 ^ 32)
    (hn : n + blks.toNat = blkcnt.toNat) (h : Host) : ∃ new, Loop blksz blknr buffer n
      blkcnt.toNat h (h.readLoop good blksz blkcnt start blks bufAddr) new := by
  induction hm : blks.toNat using Nat.strong_induction_on generalizing n start blks bufAddr h with
  | _ m ih =>
    subst hm
    obtain ⟨new, hc⟩ := retryIt_chunk hstart hbuf good blks h
    have hrest := rest_toNat blks
    have hsmall := smallblks_toNat blks
    rw [Host.readLoop]
    generalize h.retryIt good blksz start bufAddr (smallblks blks) = r at hc
    obtain ⟨ok, h'⟩ := r
    cases ok with
    | false =>
      have hle : blks ≤ blkcnt := UInt32.le_iff_toNat_le.mpr (by omega)
      have hret : (blkcnt - blks).toNat = n := by
        rw [UInt32.toNat_sub_of_le _ _ hle]
        omega
      exact ⟨new, loop_of_failed hc rfl hret (by omega)⟩
    | true =>
      simp only [if_true]
      split_ifs with hmore
      · have hpos : (blks - (smallblks blks).toUInt32).toNat ≠ 0 := fun h0 =>
          hmore (UInt32.toNat_inj.mp h0)
        have h20 : min 20 blks.toNat = 20 := by omega
        rw [h20] at hc
        have hstart' : (start + (smallblks blks).toUInt32).toNat = (blknr + (n + 20)) % 2 ^ 32 := by
          rw [UInt32.toNat_add, UInt16.toNat_toUInt32, hsmall, h20, hstart]
          omega
        have hbuf' : (bufAddr + h'.srb.datalen).toNat =
            (buffer + blksz.toNat * (n + 20)) % 2 ^ 32 := by
          rw [UInt32.toNat_add, hbuf, hc.datalen, ← Nat.add_mod, Nat.mul_add, Nat.add_assoc]
        have hless : (blks - (smallblks blks).toUInt32).toNat < blks.toNat := by omega
        obtain ⟨new', hl⟩ := ih _ hless hstart' hbuf' (by omega) h' rfl
        exact ⟨new ++ new', loop_of_more hc rfl hl⟩
      · have hzero : (blks - (smallblks blks).toUInt32).toNat = 0 := by
          rw [not_not.mp hmore]
          rfl
        exact ⟨new, loop_of_last hc rfl (by omega)⟩

end

/-- The `READ(10)` commands that were sent. -/
def readsOf (h : Host) : List (Ccb × Bool) := h.sent.filter isRead

theorem usbStorRead_reads (d : BlockDev) (good : ℕ → Bool) (blknr blkcnt buffer : UInt32)
    (h : Host) (hnone : h.sent = []) :
    let ready := h.usbTestUnitReady good
    (ready.1 = true ↔ ∃ j ≤ 10, good j = true) ∧
    ready.2.asynchAllowed = h.asynchAllowed ∧ readsOf ready.2 = [] ∧
    let r := ready.2.readLoop good d.blksz blkcnt blknr blkcnt buffer
    Reads d.blksz.toNat blknr.toNat blkcnt.toNat buffer.toNat r.1.toNat (readsOf r.2) := by
  intro ready
  obtain ⟨asked, ht⟩ := @exists_tried good Host.setTestUnitReady (fun h => ⟨rfl, rfl⟩) 10 h
  have hasked : asked.filter isRead = [] := List.filter_eq_nil_iff.mpr fun c hc => by
    obtain ⟨h', hc'⟩ := ht.made c hc
    have hcmd : c.1.cmd 0 = SCSI_TST_U_RDY := by
      rw [hc']
      rfl
    rw [isRead, hcmd]
    decide
  have hsent : ready.2.sent = asked := ht.sent.trans (by rw [hnone, List.nil_append])
  refine ⟨?_, ht.asynch, by rw [readsOf, hsent, hasked], ?_⟩
  · have hok := ht.ok_iff
    simp only [hnone, List.length_nil, Nat.zero_add] at hok
    exact hok
  · intro r
    obtain ⟨new, hl⟩ : ∃ new, Loop d.blksz blknr.toNat buffer.toNat 0 blkcnt.toNat ready.2 r new :=
      readLoop_loop good (by rw [Nat.add_zero, Nat.mod_eq_of_lt blknr.toNat_lt])
      (by rw [Nat.mul_zero, Nat.add_zero, Nat.mod_eq_of_lt buffer.toNat_lt]) (Nat.zero_add _)
      ready.2
    have hreads : readsOf r.2 = new := by
      rw [readsOf, hl.sent, hsent, List.filter_append, hasked, List.nil_append]
      exact List.filter_eq_self.mpr hl.reads
    rw [hreads]
    exact ⟨hl.follows, by rw [hl.count, Nat.zero_add], hl.le, fun hne => .inr (hl.short hne)⟩

theorem reads_nil (blksz blknr blkcnt buffer : ℕ) : Reads blksz blknr blkcnt buffer 0 [] :=
  ⟨trivial, rfl, Nat.zero_le _, fun _ => .inl rfl⟩

/-- **The commands of `usb_stor_read`** read consecutive ranges, which the result counts. Messages
that were allowed are allowed again exactly if there is no such device or the unit gets ready. -/
theorem usb_stor_read_iff (usbDevDesc : ℕ → BlockDev) (usbDev : List ℤ) (good : ℤ → ℕ → Bool)
    (device : ℤ) (blknr blkcnt buffer : UInt32) (asynchAllowed : Bool) (srb : Ccb) :
    let d := usbDevDesc (device % 256).toNat
    let r := usbStorRead usbDevDesc usbDev good device blknr blkcnt buffer ⟨asynchAllowed, srb, []⟩
    (Reads d.blksz.toNat blknr.toNat blkcnt.toNat buffer.toNat r.1.toNat (readsOf r.2) ∧
      (asynchAllowed = true → r.2.asynchAllowed = true)) ↔
    (asynchAllowed = false ∨ ∀ dev, usbDevice d.target usbDev = some dev →
      ∃ j ≤ 10, good dev j = true) := by
  intro d r
  cases hdev : usbDevice d.target usbDev with
  | none =>
    have hr : r = (0, ⟨asynchAllowed, srb, []⟩) := by
      simp only [r, usbStorRead]
      rw [hdev]
    rw [hr]
    exact iff_of_true ⟨reads_nil .., id⟩ (.inr fun dev h => absurd h (by simp))
  | some dev =>
    let h : Host := ⟨false, { srb with lun := d.lun }, []⟩
    obtain ⟨hready, hasynch, hnone, hreads⟩ :=
      usbStorRead_reads d (good dev) blknr blkcnt buffer h rfl
    have hr : r = if (h.usbTestUnitReady (good dev)).1 then
        (((h.usbTestUnitReady (good dev)).2.readLoop (good dev) d.blksz blkcnt blknr blkcnt
          buffer).1, ((h.usbTestUnitReady (good dev)).2.readLoop (good dev) d.blksz blkcnt blknr
          blkcnt buffer).2.usbDisableAsynch false)
        else (0, (h.usbTestUnitReady (good dev)).2) := by
      simp only [r, usbStorRead]
      rw [hdev]
      rfl
    have hall : (∀ dev', some dev = some dev' → ∃ j ≤ 10, good dev' j = true) ↔
        (h.usbTestUnitReady (good dev)).1 = true := by
      rw [hready]
      simp
    rw [hall, hr]
    split_ifs with hok
    · exact iff_of_true ⟨hreads, fun _ => rfl⟩ (.inr hok)
    · have hoff : (h.usbTestUnitReady (good dev)).2.asynchAllowed = false := hasynch
      simp only [hnone, hoff, hok]
      simp [reads_nil]

def usbDisk : BlockDev := ⟨0, 0, 0, 1, 0, 0, 100, 512, [], [], [], false⟩

/-- Its unit does not get ready, and messages stay switched off. -/
theorem usb_stor_read_notReady :
    let r := usbStorRead (fun _ => usbDisk) [1] (fun _ _ => false) 0 0 1 0
      ⟨true, ⟨fun _ => 0, 0, 0, 0, 0, 0⟩, []⟩
    r.2.asynchAllowed = false ∧
      ¬ (Reads 512 0 1 0 r.1.toNat (readsOf r.2) ∧ (true = true → r.2.asynchAllowed = true)) := by
  intro r
  have hoff : r.2.asynchAllowed = false := rfl
  refine ⟨hoff, fun h => ?_⟩
  rw [hoff] at h
  exact Bool.false_ne_true (h.2 rfl)

end UBoot.Usb.StorRead
