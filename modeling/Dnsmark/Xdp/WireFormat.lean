import Dnsmark.Xdp.Checksum

/-!
# Query frames on the wire

Two facts about the frames of `write_frame`, each a comparison of two separately computed layouts.

The parser of received frames reads a query frame back: seen as bytes, a query is the mirror image of a
reply, so what `ReplyPath` says about mirrored frames applies to it (`wireHeader_eq_mirrorHeader`).

A VLAN tag is four bytes between the MACs and the EtherType.  Everything behind it is found by the offset
`l2`, and the checksum does not depend on it.
-/

namespace Dnsmark.Xdp

variable (e : Endpoints)

/-! ## Reading a frame back -/

/-- The endpoints seen from the other side, with the source port `sport` for the port of the server. -/
def Endpoints.swap (sport : UInt16) : Endpoints :=
  ⟨e.dstMac, e.srcMac, e.dstIp, e.srcIp, e.dstPort, sport, e.vlan⟩

/-- A query is the mirror image of a reply. -/
theorem wireHeader_eq_mirrorHeader (ipTot cksum sport udpLen : UInt16) :
    e.wireHeader ipTot cksum sport udpLen
      = (e.swap sport).mirrorHeader e.dstPort ⟨0, ipTot, 0, 0x4000, 64, cksum, udpLen, 0⟩ := by
  have htag : (e.swap sport).tag = e.tag := rfl
  have hzero : u16ToBeBytes 0 = [0, 0] := by decide
  have hdf : u16ToBeBytes 0x4000 = [0x40, 0] := by decide
  unfold Endpoints.wireHeader Endpoints.mirrorHeader
  rw [htag, hzero, hdf]
  simp only [Endpoints.swap, List.append_assoc, List.cons_append, List.nil_append]

/-- The octets of a frame are its header and its payload. -/
theorem take_frame (ipTot cksum sport udpLen : UInt16) (dns rest : List UInt8) :
    (e.wireHeader ipTot cksum sport udpLen ++ dns ++ rest).take
        ((FrameHeader.newWithVlan e).outer + dns.length)
      = e.wireHeader ipTot cksum sport udpLen ++ dns := by
  apply List.take_left'
  rw [List.length_append, FrameHeader.length_wireHeader]

/-- The parser inverts the frame builder: for all endpoints, every payload and every buffer with room for
the frame, whatever it held, parsing what `write_frame` wrote is parsing the payload. -/
theorem parse_write_frame (e : Endpoints) (out dns : List UInt8)
    (hout : (FrameHeader.newWithVlan e).outer + dns.length ≤ out.length) :
    ∃ frame n, (FrameHeader.newWithVlan e).writeFrame out dns = .ok (frame, n) ∧
      n = (FrameHeader.newWithVlan e).outer + dns.length ∧
      parseDnsFromFrame (frame.take n) = .ok ((parseResponse dns).map fun r => (r.id, r.rcode)) := by
  refine ⟨_, _, FrameHeader.writeFrame_eq e hout, rfl, ?_⟩
  rw [take_frame, wireHeader_eq_mirrorHeader, parseDnsFromFrame_mirrorHeader_eq]

/-- A reply of twelve octets, in a tagged frame over a buffer of ones. -/
theorem parse_write_frame_replyTo :
    ∃ frame n, (FrameHeader.newWithVlan allOnes).writeFrame (List.replicate 2048 0xff) (replyTo 7)
        = .ok (frame, n) ∧ n = 58 ∧ parseDnsFromFrame (frame.take n) = .ok (some (7, 0)) := by
  obtain ⟨frame, n, hwrite, hn, hparse⟩ :=
    parse_write_frame allOnes (List.replicate 2048 0xff) (replyTo 7)
      (by rw [List.length_replicate]; decide)
  exact ⟨frame, n, hwrite, hn, hparse⟩

/-! ## Tagging -/

/-- The four bytes of a VLAN tag, put behind the MACs of a frame. -/
def insertTag (vid : UInt16) (frame : List UInt8) : List UInt8 :=
  frame.take 12 ++ [0x81, 0x00] ++ u16ToBeBytes (vid % 4096) ++ frame.drop 12

theorem and_0x0fff (vid : UInt16) : vid &&& 0x0fff = vid % 4096 := by
  apply UInt16.toNat_inj.mp
  rw [UInt16.toNat_and, UInt16.toNat_mod]
  exact Nat.and_two_pow_sub_one_eq_mod vid.toNat 12

/-- Behind twelve bytes, the tag goes in between. -/
theorem insertTag_append {macs : List UInt8} (h : macs.length = 12) (vid : UInt16)
    (rest : List UInt8) :
    insertTag vid (macs ++ rest) = macs ++ u16ToBeBytes 0x8100 ++ u16ToBeBytes (vid % 4096) ++ rest := by
  unfold insertTag
  rw [List.take_left' h, List.drop_left' h]
  rfl

/-- A tagged header is the untagged one with the tag put in. -/
theorem insertTag_wireHeader (vid ipTot cksum sport udpLen : UInt16) (dns : List UInt8) :
    insertTag vid ({ e with vlan := none }.wireHeader ipTot cksum sport udpLen ++ dns)
      = { e with vlan := some vid }.wireHeader ipTot cksum sport udpLen ++ dns := by
  have hmacs : (List.ofFn e.dstMac ++ List.ofFn e.srcMac).length = 12 := by
    rw [List.length_append, List.length_ofFn, List.length_ofFn]
  unfold Endpoints.wireHeader
  simp only [Endpoints.tag, List.append_nil, and_0x0fff]
  rw [List.append_assoc, List.append_assoc, List.append_assoc, insertTag_append hmacs]
  simp only [List.append_assoc]

/-- The checksum is the same with and without a tag. -/
theorem cksum_vlan (vlan vlan' : Option UInt16) (dnsLen : ℕ) :
    (FrameHeader.newWithVlan { e with vlan := vlan }).cksum dnsLen
      = (FrameHeader.newWithVlan { e with vlan := vlan' }).cksum dnsLen := by
  rw [FrameHeader.cksum_eq, FrameHeader.cksum_eq]
  rfl

/-- `set_src_port` on a whole frame. -/
theorem setSrcPort_frame (ipTot cksum sport udpLen port : UInt16) (dns rest : List UInt8) :
    (FrameHeader.newWithVlan e).setSrcPort (e.wireHeader ipTot cksum sport udpLen ++ dns ++ rest) port
      = .ok (e.wireHeader ipTot cksum port udpLen ++ dns ++ rest) := by
  rw [List.append_assoc, FrameHeader.setSrcPort_eq, List.append_assoc]

/-- The frames of the two headers, with any source port and whatever lies behind them. -/
theorem take_tagged (vid ipTot sport udpLen : UInt16) (dns rest rest' : List UInt8) :
    ({ e with vlan := some vid }.wireHeader ipTot
        ((FrameHeader.newWithVlan { e with vlan := some vid }).cksum dns.length) sport udpLen
        ++ dns ++ rest).take (46 + dns.length)
      = insertTag vid (({ e with vlan := none }.wireHeader ipTot
        ((FrameHeader.newWithVlan { e with vlan := none }).cksum dns.length) sport udpLen
        ++ dns ++ rest').take (42 + dns.length)) := by
  have htagged := take_frame { e with vlan := some vid } ipTot
    ((FrameHeader.newWithVlan { e with vlan := some vid }).cksum dns.length) sport udpLen dns rest
  have hplain := take_frame { e with vlan := none } ipTot
    ((FrameHeader.newWithVlan { e with vlan := none }).cksum dns.length) sport udpLen dns rest'
  refine htagged.trans ?_
  rw [cksum_vlan e (some vid) none, ← insertTag_wireHeader]
  exact congrArg (insertTag vid) hplain.symm

/-- Tagging only inserts four bytes: for all endpoints, every VLAN id and every payload, the tagged header
and the untagged one write frames that differ by the tag at offset 12, and they still do once
`set_src_port` has put any port into both. -/
theorem tagging_inserts_four_bytes (e : Endpoints) (vid : UInt16) (dns tagged plain : List UInt8)
    (htagged : 46 + dns.length ≤ tagged.length) (hplain : 42 + dns.length ≤ plain.length) :
    ∃ frame frame',
      (FrameHeader.newWithVlan { e with vlan := some vid }).writeFrame tagged dns
        = .ok (frame, 46 + dns.length) ∧
      (FrameHeader.newWithVlan { e with vlan := none }).writeFrame plain dns
        = .ok (frame', 42 + dns.length) ∧
      frame.take (46 + dns.length) = insertTag vid (frame'.take (42 + dns.length)) ∧
      ∀ port, ∃ sent sent',
        (FrameHeader.newWithVlan { e with vlan := some vid }).setSrcPort frame port = .ok sent ∧
        (FrameHeader.newWithVlan { e with vlan := none }).setSrcPort frame' port = .ok sent' ∧
        sent.take (46 + dns.length) = insertTag vid (sent'.take (42 + dns.length)) := by
  refine ⟨_, _, FrameHeader.writeFrame_eq _ htagged, FrameHeader.writeFrame_eq _ hplain,
    take_tagged e vid _ _ _ dns _ _, ?_⟩
  intro port
  exact ⟨_, _, setSrcPort_frame _ _ _ _ _ port dns _, setSrcPort_frame _ _ _ _ _ port dns _,
    take_tagged e vid _ port _ dns _ _⟩

/-- Between hosts whose every byte is 255, VLAN 65535 is VLAN 4095. -/
theorem tagging_inserts_four_bytes_allOnes :
    ∃ frame frame',
      (FrameHeader.newWithVlan { allOnes with vlan := some 0xffff }).writeFrame
        (List.replicate 2048 0xff) (replyTo 7) = .ok (frame, 58) ∧
      (FrameHeader.newWithVlan { allOnes with vlan := none }).writeFrame
        (List.replicate 2048 0) (replyTo 7) = .ok (frame', 54) ∧
      frame.take 58 = insertTag 0xffff (frame'.take 54) := by
  obtain ⟨frame, frame', hwrite, hwrite', htake, -⟩ :=
    tagging_inserts_four_bytes allOnes 0xffff (replyTo 7) (List.replicate 2048 0xff)
      (List.replicate 2048 0) (by rw [List.length_replicate]; decide)
      (by rw [List.length_replicate]; decide)
  exact ⟨frame, frame', hwrite, hwrite', htake⟩

end Dnsmark.Xdp
