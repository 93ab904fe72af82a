import UBoot.Lib.Buf

/-!
# USB configuration descriptors (`common/usb.c`)

`usb_get_configuration_no` reads the configuration descriptor set of a device into the caller's
buffer and `usb_parse_config` copies it, descriptor by descriptor, into `dev->config`. The host is
big-endian, so `swap_16` gives the little-endian words of the device. `dev->config` is modelled as
the packed bytes that it is: ten bytes of the configuration, then `USB_MAXINTERFACES` entries of an
interface, each with eleven bytes of its own and `USB_MAXENDPOINTS` entries of nine bytes.
-/

namespace UBoot.Usb

open Lib

def usbDtConfig : UInt8 := 0x02

def usbDtInterface : UInt8 := 0x04

def usbDtEndpoint : UInt8 := 0x05

def usbMaxinterfaces : Nat := 8

def usbMaxendpoints : Nat := 16

/-- `sizeof(struct usb_endpoint_descriptor)`. -/
def epSize : Nat := 9

/-- `sizeof(struct usb_interface_descriptor)`. -/
def ifSize : Nat := 11 + usbMaxendpoints * epSize

/-- `sizeof(struct usb_config_descriptor)`. -/
def configSize : Nat := 10 + usbMaxinterfaces * ifSize

abbrev ConfigDesc := Buf UInt8 configSize

/-- The part of `struct usb_device` that is filled here. -/
structure UsbDevice where
  configno : Int
  config : ConfigDesc

section
variable {n : Nat}

/-- The little-endian word in the bytes at `i`: what `swap_16` makes of the big-endian one. -/
def le16 (b : Buf UInt8 n) (i : Nat) : Nat := (b.get i).toNat + 256 * (b.get (i + 1)).toNat

def be16 (b : Buf UInt8 n) (i : Nat) : Nat := 256 * (b.get i).toNat + (b.get (i + 1)).toNat

/-- `x = swap_16(x)` for the word at `i`. -/
def swap16At (b : Buf UInt8 n) (i : Nat) : Buf UInt8 n := b.put i [b.get (i + 1), b.get i]

/-- The offset of `if_desc[ifno]`. -/
def ifDesc (ifno : Int) : Except Oob Nat :=
  if 0 ≤ ifno ∧ ifno < usbMaxinterfaces then .ok (10 + ifno.toNat * ifSize) else .error .write

/-- The offset of `ep_desc[epno]` in the interface at `off`. -/
def epDesc (off epno : Nat) : Except Oob Nat :=
  if epno < usbMaxendpoints then .ok (off + 11 + epno * epSize) else .error .write

/-- The variables of the loop in `usb_parse_config`. -/
structure Parse where
  index : Nat
  ifno : Int
  config : ConfigDesc

/-- The body of the loop; `none` for its `return 1`. -/
def usbParseDesc (buffer : Buf UInt8 n) (s : Parse) : Except Oob (Option Parse) := do
  let type ← buffer.rd (s.index + 1)
  let len ← buffer.rd s.index
  if type = usbDtInterface then
    let ifno := s.config.get 9
    let config := s.config.put 9 [ifno + 1]
    let off ← ifDesc ifno.toNat
    let desc ← buffer.load s.index len.toNat
    let config ← config.store off desc
    return some ⟨s.index + len.toNat, ifno.toNat, config.put (off + 9) [0]⟩
  else if type = usbDtEndpoint then
    let off ← ifDesc s.ifno
    let epno := s.config.get (off + 9)
    let config := s.config.put (off + 9) [epno + 1]
    let ep ← epDesc off epno.toNat
    let desc ← buffer.load s.index len.toNat
    let config ← config.store ep desc
    return some ⟨s.index + len.toNat, s.ifno, swap16At config (ep + 4)⟩
  else if len = 0 then
    return none
  else
    return some { s with index := s.index + len.toNat }

/-- The loop of `usb_parse_config`; `none` when the fuel is used up. -/
def usbParseLoop (buffer : Buf UInt8 n) : Nat → Parse → Except Oob (Option ConfigDesc)
  | 0, _ => .ok none
  | fuel + 1, s =>
    if s.index + 1 < be16 s.config 2 then
      match usbParseDesc buffer s with
      | .error e => .error e
      | .ok none => .ok (some s.config)
      | .ok (some s) => usbParseLoop buffer fuel s
    else .ok (some s.config)

/-- `dev->config` when the loop is entered. -/
def usbParseHeader (config : ConfigDesc) (desc : List UInt8) : ConfigDesc :=
  (swap16At (config.put 0 desc) 2).put 9 [0]

def usbParseConfig (fuel : Nat) (dev : UsbDevice) (buffer : Buf UInt8 n) (cfgno : Int) :
    Except Oob (Option (Int × UsbDevice)) := do
  let dev := { dev with configno := cfgno }
  let type ← buffer.rd 1
  if type ≠ usbDtConfig then
    return some (-1, dev)
  else
    let len ← buffer.rd 0
    let desc ← buffer.load 0 len.toNat
    let config := usbParseHeader dev.config desc
    let r ← usbParseLoop buffer fuel ⟨(config.get 0).toNat, -1, config⟩
    return r.map fun config => (1, { dev with config })

/-- The answer of the device to a request: what it puts into the buffer, as far as the size of the
request allows, and the length that the host controller reports, or -1. -/
structure Answer where
  data : List UInt8
  result : Int

/-- `usb_get_configuration_no`; the device is asked twice. -/
def usbGetConfigurationNo (buffer : Buf UInt8 n) (first second : Answer) :
    Except Oob (Int × Buf UInt8 n) := do
  let buffer ← buffer.store 0 (first.data.take 8)
  if first.result < 8 then
    return (-1, buffer)
  else
    let _ ← buffer.load 2 2
    let tmp := le16 buffer 2
    let buffer ← buffer.store 0 (second.data.take tmp)
    return (second.result, buffer)

/-- What `usb_new_device` does with the two; it ignores the result of the first. -/
def usbConfigure (fuel : Nat) (dev : UsbDevice) (buffer : Buf UInt8 n) (first second : Answer) :
    Except Oob (Option (Int × UsbDevice)) := do
  let (_, buffer) ← usbGetConfigurationNo buffer first second
  usbParseConfig fuel dev buffer 0

/-! ## What the device must return -/

/-- From offset `index` on the descriptors of a set of `total` bytes fit, when `ifs` interfaces have
been read and `eps` endpoints of the last: each lies in the buffer, none is empty, there are no
more of them than `dev->config` has entries, an endpoint follows an interface, and none reaches
over the end of `dev->config`. An empty descriptor of another kind ends the set. -/
inductive Fits (buffer : Buf UInt8 n) (total : Nat) : Nat → Nat → Nat → Prop where
  | done {index ifs eps : Nat} (h : total ≤ index + 1) : Fits buffer total index ifs eps
  | interface {index ifs eps : Nat} (h : index + 1 < total) (hn : index + 1 < n)
      (htype : buffer.get (index + 1) = usbDtInterface)
      (hpos : 0 < (buffer.get index).toNat) (hin : index + (buffer.get index).toNat ≤ n)
      (hifs : ifs < usbMaxinterfaces)
      (hcopy : 10 + ifs * ifSize + (buffer.get index).toNat ≤ configSize)
      (next : Fits buffer total (index + (buffer.get index).toNat) (ifs + 1) 0) :
      Fits buffer total index ifs eps
  | endpoint {index ifs eps : Nat} (h : index + 1 < total) (hn : index + 1 < n)
      (htype : buffer.get (index + 1) = usbDtEndpoint)
      (hpos : 0 < (buffer.get index).toNat) (hin : index + (buffer.get index).toNat ≤ n)
      (heps : eps < usbMaxendpoints)
      (hcopy : 10 + ifs * ifSize + 11 + eps * epSize + (buffer.get index).toNat ≤ configSize)
      (next : Fits buffer total (index + (buffer.get index).toNat) (ifs + 1) (eps + 1)) :
      Fits buffer total index (ifs + 1) eps
  | other {index ifs eps : Nat} (h : index + 1 < total) (hn : index + 1 < n)
      (hif : buffer.get (index + 1) ≠ usbDtInterface)
      (hep : buffer.get (index + 1) ≠ usbDtEndpoint)
      (next : 0 < (buffer.get index).toNat →
        Fits buffer total (index + (buffer.get index).toNat) ifs eps) :
      Fits buffer total index ifs eps

/-- The buffer holds a set that `usb_parse_config` can take, or no configuration descriptor. -/
def ParseFits (dev : UsbDevice) (buffer : Buf UInt8 n) : Prop :=
  1 < n ∧ (buffer.get 1 = usbDtConfig →
    (buffer.get 0).toNat ≤ n ∧
    let header := dev.config.put 0 (buffer.slice 0 (buffer.get 0).toNat)
    Fits buffer (le16 header 2) (header.get 0).toNat 0 0)

/-- The answers fit: each goes into the buffer, and what the buffer then holds fits. -/
def AnswersFit (dev : UsbDevice) (buffer : Buf UInt8 n) (first second : Answer) : Prop :=
  (first.data.take 8).length ≤ n ∧
  let buffer := buffer.put 0 (first.data.take 8)
  if first.result < 8 then ParseFits dev buffer
  else
    4 ≤ n ∧ (second.data.take (le16 buffer 2)).length ≤ n ∧
    ParseFits dev (buffer.put 0 (second.data.take (le16 buffer 2)))

end

/-! ## What a well-formed set lists -/

/-- A descriptor behind the configuration descriptor. -/
structure Desc where
  type : UInt8
  body : List UInt8

def Desc.encode (d : Desc) : List UInt8 := UInt8.ofNat (2 + d.body.length) :: d.type :: d.body

/-- The descriptor has the length of its kind: 9 for an interface, 7 for an endpoint, or 9 with the
audio extension. -/
def Desc.Formed (d : Desc) : Prop :=
  if d.type = usbDtInterface then d.body.length = 7
  else if d.type = usbDtEndpoint then d.body.length = 5 ∨ d.body.length = 7
  else d.body.length ≤ 253

/-- A descriptor set: the five bytes of the configuration descriptor that follow its total length,
and the other descriptors. -/
structure DescSet where
  attrs : List UInt8
  descs : List Desc

def DescSet.total (set : DescSet) : Nat := 9 + (set.descs.flatMap Desc.encode).length

def DescSet.encode (set : DescSet) : List UInt8 :=
  [9, usbDtConfig, UInt8.ofNat set.total, UInt8.ofNat (set.total / 256)] ++ set.attrs ++
    set.descs.flatMap Desc.encode

structure DescSet.Formed (set : DescSet) : Prop where
  attrs : set.attrs.length = 5
  descs : ∀ d ∈ set.descs, d.Formed
  total : set.total < 2 ^ 16

/-- The interfaces read so far, each with its endpoints, and the next descriptor. -/
def addDesc (gs : List (Desc × List Desc)) (d : Desc) : List (Desc × List Desc) :=
  if d.type = usbDtInterface then gs ++ [(d, [])]
  else if d.type = usbDtEndpoint then gs.modifyLast fun g => (g.1, g.2 ++ [d])
  else gs

/-- The interface descriptors in order, each with the endpoint descriptors that follow it. -/
def DescSet.interfaces (set : DescSet) : List (Desc × List Desc) := set.descs.foldl addDesc []

/-- An entry of `ep_desc` holds the descriptor, its word `wMaxPacketSize` in host order. -/
structure HoldsEp (config : ConfigDesc) (off : Nat) (d : Desc) : Prop where
  front : config.slice off 4 = d.encode.take 4
  wMaxPacketSize : [config.get (off + 5), config.get (off + 4)] = (d.encode.drop 4).take 2
  rest : config.slice (off + 6) (d.encode.length - 6) = d.encode.drop 6

/-- Entry `k` of `if_desc` holds an interface descriptor and its endpoint descriptors. -/
structure HoldsIf (config : ConfigDesc) (k : Nat) (g : Desc × List Desc) : Prop where
  desc : config.slice (10 + k * ifSize) 9 = g.1.encode
  noOfEp : (config.get (10 + k * ifSize + 9)).toNat = g.2.length
  endpoints : ∀ j d, g.2[j]? = some d → HoldsEp config (10 + k * ifSize + 11 + j * epSize) d

/-- **`dev->config` lists the interfaces**, each in its entry with its endpoints. -/
structure Lists (config : ConfigDesc) (gs : List (Desc × List Desc)) : Prop where
  noOfIf : (config.get 9).toNat = gs.length
  entries : ∀ k g, gs[k]? = some g → HoldsIf config k g

/-- The device answers both requests with the set. -/
def Returns (set : DescSet) (first second : Answer) : Prop :=
  first.data = set.encode ∧ 8 ≤ first.result ∧ second.data = set.encode

end UBoot.Usb
