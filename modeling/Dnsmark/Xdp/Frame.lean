import Dnsmark.Common.Slice
import Dnsmark.Dns.Response

/-!
# Query frames

`FrameHeader` of `src/transport/xdp/frame.rs`: an Ethernet (+ 802.1Q) + IPv4 + UDP header built once and
stamped in front of every DNS payload, with the two lengths and the IPv4 checksum patched in.

`wireHeader` is the layout the frames are meant to have, field by field; `writeHeader_eq` says that this
is what ends up in the buffer.  Arithmetic on `u16` wraps, as in a release build; the checksum is
summed up in a `u32` that ten 16-bit words cannot overflow.
-/

namespace Dnsmark.Xdp

def ethHdr : ℕ := 14
def ipv4Hdr : ℕ := 20
def ipv6Hdr : ℕ := 40
def udpHdr : ℕ := 8
def vlanHdr : ℕ := 4

/-- `OUTER_HDR_MAX`: the template's capacity, one tag included. -/
def outerHdrMax : ℕ := 46

/-- `[u8; 6]`. -/
abbrev Mac := Fin 6 → UInt8

/-- `Ipv4Addr::octets`. -/
abbrev Ipv4 := Fin 4 → UInt8

/-- The arguments of `FrameHeader::new_with_vlan`. -/
structure Endpoints where
  srcMac : Mac
  dstMac : Mac
  srcIp : Ipv4
  dstIp : Ipv4
  srcPort : UInt16
  dstPort : UInt16
  vlan : Option UInt16

structure FrameHeader where
  tpl : List UInt8
  outer : ℕ
  l2 : ℕ
  ipBaseSum : ℕ

namespace FrameHeader

/-- The template's layer 2: the MACs, one 802.1Q tag if a VLAN is given, and the EtherType of IPv4. -/
def writeL2 (e : Endpoints) (tpl : List UInt8) : List UInt8 :=
  let tpl := Slice.overwrite tpl 0 (List.ofFn e.dstMac)
  let tpl := Slice.overwrite tpl 6 (List.ofFn e.srcMac)
  match e.vlan with
  | some vid =>
    let tpl := Slice.overwrite tpl 12 (u16ToBeBytes 0x8100)
    let tpl := Slice.overwrite tpl 14 (u16ToBeBytes (vid &&& 0x0fff))
    Slice.overwrite tpl 16 [0x08, 0x00]
  | none => Slice.overwrite tpl 12 [0x08, 0x00]

/-- The template's IPv4 and UDP headers, from offset `l2` on; lengths and checksums are left 0. -/
def writeL3 (e : Endpoints) (l2 : ℕ) (tpl : List UInt8) : List UInt8 :=
  let tpl := tpl.set l2 0x45
  let tpl := tpl.set (l2 + 6) 0x40
  let tpl := tpl.set (l2 + 8) 64
  let tpl := tpl.set (l2 + 9) 17
  let tpl := Slice.overwrite tpl (l2 + 12) (List.ofFn e.srcIp)
  let tpl := Slice.overwrite tpl (l2 + 16) (List.ofFn e.dstIp)
  let tpl := tpl.set (l2 + ipv4Hdr) (e.srcPort >>> 8).toUInt8
  let tpl := tpl.set (l2 + ipv4Hdr + 1) e.srcPort.toUInt8
  let tpl := tpl.set (l2 + ipv4Hdr + 2) (e.dstPort >>> 8).toUInt8
  tpl.set (l2 + ipv4Hdr + 3) e.dstPort.toUInt8

/-- The sum of the ten 16-bit words of the IPv4 header at `l2`. -/
def ipSum (tpl : List UInt8) (l2 : ℕ) : ℕ :=
  ((List.range (ipv4Hdr / 2)).map fun i =>
    (u16FromBeBytes (tpl.getD (l2 + 2 * i) 0) (tpl.getD (l2 + 2 * i + 1) 0)).toNat).sum

/-- `FrameHeader::new_with_vlan`.  Every offset lies inside the 46 bytes of the template. -/
def newWithVlan (e : Endpoints) : FrameHeader :=
  let l2 := if e.vlan.isSome then ethHdr + vlanHdr else ethHdr
  let tpl := writeL3 e l2 (writeL2 e (List.replicate outerHdrMax 0))
  ⟨tpl, l2 + ipv4Hdr + udpHdr, l2, ipSum tpl l2⟩

/-- `udp_len`. -/
def udpLen (dnsLen : ℕ) : UInt16 := UInt16.ofNat (udpHdr + dnsLen)

/-- `ip_tot`. -/
def ipTot (dnsLen : ℕ) : UInt16 := UInt16.ofNat ipv4Hdr + udpLen dnsLen

/-- The checksum: the template's sum and this packet's total length, folded twice. -/
def cksum (hdr : FrameHeader) (dnsLen : ℕ) : UInt16 :=
  let sum := hdr.ipBaseSum + (ipTot dnsLen).toNat
  let sum := (sum &&& 0xffff) + (sum >>> 16)
  let sum := (sum &&& 0xffff) + (sum >>> 16)
  ~~~ UInt16.ofNat sum

/-- `write_header`: the buffer after it, and the length of the frame. -/
def writeHeader (hdr : FrameHeader) (out : List UInt8) (dnsLen : ℕ) :
    Except OutOfBounds (List UInt8 × ℕ) := do
  let out ← Slice.copyFromSlice out 0 (hdr.tpl.take hdr.outer)
  let out ← Slice.set out (hdr.l2 + 2) (ipTot dnsLen >>> 8).toUInt8
  let out ← Slice.set out (hdr.l2 + 3) (ipTot dnsLen).toUInt8
  let out ← Slice.set out (hdr.l2 + 10) (hdr.cksum dnsLen >>> 8).toUInt8
  let out ← Slice.set out (hdr.l2 + 11) (hdr.cksum dnsLen).toUInt8
  let out ← Slice.set out (hdr.l2 + ipv4Hdr + 4) (udpLen dnsLen >>> 8).toUInt8
  let out ← Slice.set out (hdr.l2 + ipv4Hdr + 5) (udpLen dnsLen).toUInt8
  return (out, hdr.outer + dnsLen)

/-- `write_frame`: the payload, and the header in front of it. -/
def writeFrame (hdr : FrameHeader) (out dns : List UInt8) : Except OutOfBounds (List UInt8 × ℕ) := do
  let out ← Slice.copyFromSlice out hdr.outer dns
  hdr.writeHeader out dns.length

/-- `set_src_port`. -/
def setSrcPort (hdr : FrameHeader) (out : List UInt8) (port : UInt16) :
    Except OutOfBounds (List UInt8) := do
  let out ← Slice.set out (hdr.l2 + ipv4Hdr) (port >>> 8).toUInt8
  Slice.set out (hdr.l2 + ipv4Hdr + 1) port.toUInt8

end FrameHeader

/-! ## The layout of a frame -/

/-- The tag of a frame on the wire. -/
def Endpoints.tag (e : Endpoints) : List UInt8 :=
  match e.vlan with
  | some vid => u16ToBeBytes 0x8100 ++ u16ToBeBytes (vid &&& 0x0fff)
  | none => []

/-- The header of a frame between two endpoints, with the source port `sport`. -/
def Endpoints.wireHeader (e : Endpoints) (ipTot cksum sport udpLen : UInt16) : List UInt8 :=
  List.ofFn e.dstMac ++ List.ofFn e.srcMac ++ e.tag ++ [0x08, 0x00] ++
    ([0x45, 0] ++ u16ToBeBytes ipTot ++ [0, 0, 0x40, 0, 64, 17] ++ u16ToBeBytes cksum ++
      List.ofFn e.srcIp ++ List.ofFn e.dstIp) ++
    (u16ToBeBytes sport ++ u16ToBeBytes e.dstPort ++ u16ToBeBytes udpLen ++ [0, 0])

namespace FrameHeader

variable (e : Endpoints)

theorem outer_eq : (newWithVlan e).outer = (newWithVlan e).l2 + 28 := rfl

theorem l2_eq : (newWithVlan e).l2 = 14 + e.tag.length := by
  unfold newWithVlan Endpoints.tag
  cases e.vlan <;> rfl

/-- The template is a header with both lengths and the checksum still 0. -/
theorem tpl_take : (newWithVlan e).tpl.take (newWithVlan e).outer = e.wireHeader 0 0 e.srcPort 0 := by
  obtain ⟨srcMac, dstMac, srcIp, dstIp, srcPort, dstPort, vlan⟩ := e
  cases vlan <;>
    simp [newWithVlan, writeL3, writeL2, Slice.overwrite, outerHdrMax, ethHdr, vlanHdr, ipv4Hdr, udpHdr,
      Endpoints.wireHeader, Endpoints.tag, u16ToBeBytes, List.replicate_succ]

/-- A header is as long as the template says. -/
theorem length_wireHeader (ipTot cksum sport udpLen : UInt16) :
    (e.wireHeader ipTot cksum sport udpLen).length = (newWithVlan e).outer := by
  rw [outer_eq, l2_eq]
  simp [Endpoints.wireHeader, u16ToBeBytes]
  omega

/-- Patching the lengths and the checksum of a header that is in place. -/
theorem patch_wireHeader (rest : List UInt8) (ipTot cksum sport udpLen : UInt16) :
    (((((((e.wireHeader 0 0 sport 0 ++ rest).set ((newWithVlan e).l2 + 2) (ipTot >>> 8).toUInt8).set
      ((newWithVlan e).l2 + 3) ipTot.toUInt8).set ((newWithVlan e).l2 + 10) (cksum >>> 8).toUInt8).set
      ((newWithVlan e).l2 + 11) cksum.toUInt8).set ((newWithVlan e).l2 + ipv4Hdr + 4)
      (udpLen >>> 8).toUInt8).set ((newWithVlan e).l2 + ipv4Hdr + 5) udpLen.toUInt8)
      = e.wireHeader ipTot cksum sport udpLen ++ rest := by
  rw [l2_eq]
  obtain ⟨srcMac, dstMac, srcIp, dstIp, srcPort, dstPort, vlan⟩ := e
  cases vlan <;> simp [Endpoints.wireHeader, Endpoints.tag, u16ToBeBytes, ipv4Hdr]

/-- `write_header` puts the header in front of the payload and touches nothing else. -/
theorem writeHeader_eq {out : List UInt8} (h : (newWithVlan e).outer ≤ out.length) (dnsLen : ℕ) :
    (newWithVlan e).writeHeader out dnsLen
      = .ok (e.wireHeader (ipTot dnsLen) ((newWithVlan e).cksum dnsLen) e.srcPort (udpLen dnsLen) ++
          out.drop (newWithVlan e).outer, (newWithVlan e).outer + dnsLen) := by
  have hlen : (e.wireHeader 0 0 e.srcPort 0).length = (newWithVlan e).outer := length_wireHeader e ..
  have hout : ∀ k, k < 28 → (newWithVlan e).l2 + k < out.length := by
    intro k hk
    rw [outer_eq] at h
    omega
  unfold writeHeader
  rw [tpl_take, Slice.copyFromSlice_eq_ok (by omega), Slice.overwrite_zero, hlen]
  have hlength : (e.wireHeader 0 0 e.srcPort 0 ++ out.drop (newWithVlan e).outer).length = out.length := by
    rw [List.length_append, List.length_drop]
    omega
  rw [← patch_wireHeader e _ (ipTot dnsLen)]
  simp only [bind, Except.bind, Slice.set, List.length_set, hlength, hout 2 (by decide),
    hout 3 (by decide), hout 10 (by decide), hout 11 (by decide), ipv4Hdr, Nat.add_assoc,
    hout 24 (by decide), hout 25 (by decide), if_true, Nat.reduceAdd]
  rfl

/-- `write_frame` on a buffer that is long enough: header, payload, and the rest of the buffer. -/
theorem writeFrame_eq {out dns : List UInt8} (h : (newWithVlan e).outer + dns.length ≤ out.length) :
    (newWithVlan e).writeFrame out dns
      = .ok (e.wireHeader (ipTot dns.length) ((newWithVlan e).cksum dns.length) e.srcPort
            (udpLen dns.length) ++ dns ++ out.drop ((newWithVlan e).outer + dns.length),
          (newWithVlan e).outer + dns.length) := by
  have hlen : (newWithVlan e).outer ≤ (Slice.overwrite out (newWithVlan e).outer dns).length := by
    simp [Slice.overwrite]
    omega
  have hdrop : (Slice.overwrite out (newWithVlan e).outer dns).drop (newWithVlan e).outer
      = dns ++ out.drop ((newWithVlan e).outer + dns.length) := by
    rw [Slice.overwrite, List.append_assoc, List.drop_append_of_le_length (by simp; omega)]
    simp
  unfold writeFrame
  simp only [Slice.copyFromSlice_eq_ok h, bind, Except.bind]
  rw [writeHeader_eq e hlen, hdrop, List.append_assoc]

/-- `set_src_port` on a stamped frame changes the source port and nothing else. -/
theorem setSrcPort_eq (rest : List UInt8) (ipTot cksum sport udpLen port : UInt16) :
    (newWithVlan e).setSrcPort (e.wireHeader ipTot cksum sport udpLen ++ rest) port
      = .ok (e.wireHeader ipTot cksum port udpLen ++ rest) := by
  have hset : ((e.wireHeader ipTot cksum sport udpLen ++ rest).set ((newWithVlan e).l2 + ipv4Hdr)
      (port >>> 8).toUInt8).set ((newWithVlan e).l2 + ipv4Hdr + 1) port.toUInt8
      = e.wireHeader ipTot cksum port udpLen ++ rest := by
    rw [l2_eq]
    obtain ⟨srcMac, dstMac, srcIp, dstIp, srcPort, dstPort, vlan⟩ := e
    cases vlan <;> simp [Endpoints.wireHeader, Endpoints.tag, u16ToBeBytes, ipv4Hdr]
  have hlen : (newWithVlan e).l2 + ipv4Hdr + 1
      < (e.wireHeader ipTot cksum sport udpLen ++ rest).length := by
    rw [List.length_append, length_wireHeader, outer_eq, ipv4Hdr]
    omega
  unfold setSrcPort
  rw [Slice.set_eq_ok (by omega)]
  simp only [bind, Except.bind]
  rw [Slice.set_eq_ok (by rwa [List.length_set]), hset]

end FrameHeader

end Dnsmark.Xdp
