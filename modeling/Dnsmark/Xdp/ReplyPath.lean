import Dnsmark.Xdp.FrameParser

/-!
# The way back of a reply

A query frame goes out with a `FrameHeader`; the server answers with the mirrored frame, which has to
pass the packet filter and the parser to be counted.  `mirror` builds that frame from the bytes of the
query, with everything the server is free to choose as an argument.

The parser accepts every mirrored frame, tagged or not.  The filter does not: it compares the EtherType
right behind the MACs and the source port 53 only, so replies to tagged queries and replies from a
server on another port are left to the kernel's stack.
-/

namespace Dnsmark.Xdp

/-- The header fields that the server chooses. -/
structure ReplyFields where
  tos : UInt8
  totalLength : UInt16
  identification : UInt16
  fragment : UInt16
  ttl : UInt8
  checksum : UInt16
  udpLength : UInt16
  udpChecksum : UInt16

/-- The reply to a query frame whose IPv4 header is at `l2`: the same tag, MACs, addresses and ports
swapped, a header without options, and `payload`. -/
def mirror (l2 : ℕ) (query : List UInt8) (f : ReplyFields) (payload : List UInt8) : List UInt8 :=
  (query.drop 6).take 6 ++ query.take 6 ++ (query.drop 12).take (l2 - 12) ++
    ([0x45, f.tos] ++ u16ToBeBytes f.totalLength ++ u16ToBeBytes f.identification ++
      u16ToBeBytes f.fragment ++ [f.ttl, 17] ++ u16ToBeBytes f.checksum ++
      (query.drop (l2 + 16)).take 4 ++ (query.drop (l2 + 12)).take 4) ++
    ((query.drop (l2 + 22)).take 2 ++ (query.drop (l2 + 20)).take 2 ++ u16ToBeBytes f.udpLength ++
      u16ToBeBytes f.udpChecksum) ++ payload

/-- A query frame as the senders stamp it into a buffer: `write_frame`, and `set_src_port` where the
sender spreads its flows. -/
def FrameHeader.stamp (hdr : FrameHeader) (out dns : List UInt8) (sport : Option UInt16) :
    Except OutOfBounds (List UInt8) := do
  let (out, _) ← hdr.writeFrame out dns
  match sport with
  | some port => hdr.setSrcPort out port
  | none => return out

/-- The mirrored header, field by field. -/
def Endpoints.mirrorHeader (e : Endpoints) (sport : UInt16) (f : ReplyFields) : List UInt8 :=
  List.ofFn e.srcMac ++ List.ofFn e.dstMac ++ e.tag ++ [0x08, 0x00] ++
    ([0x45, f.tos] ++ u16ToBeBytes f.totalLength ++ u16ToBeBytes f.identification ++
      u16ToBeBytes f.fragment ++ [f.ttl, 17] ++ u16ToBeBytes f.checksum ++ List.ofFn e.dstIp ++
      List.ofFn e.srcIp) ++
    (u16ToBeBytes e.dstPort ++ u16ToBeBytes sport ++ u16ToBeBytes f.udpLength ++
      u16ToBeBytes f.udpChecksum)

variable (e : Endpoints)

/-- The mirror of a stamped frame swaps the endpoints. -/
theorem mirror_wireHeader (ipTot cksum sport udpLen : UInt16) (rest payload : List UInt8)
    (f : ReplyFields) :
    mirror (FrameHeader.newWithVlan e).l2 (e.wireHeader ipTot cksum sport udpLen ++ rest) f payload
      = e.mirrorHeader sport f ++ payload := by
  rw [FrameHeader.l2_eq]
  obtain ⟨srcMac, dstMac, srcIp, dstIp, srcPort, dstPort, vlan⟩ := e
  cases vlan <;>
    simp [mirror, Endpoints.wireHeader, Endpoints.mirrorHeader, Endpoints.tag, u16ToBeBytes]

/-- A stamped frame starts with the header between its endpoints. -/
theorem stamp_eq_ok {out dns query : List UInt8} {sport : Option UInt16}
    (h : (FrameHeader.newWithVlan e).stamp out dns sport = .ok query) :
    ∃ ipTot cksum port udpLen rest, query = e.wireHeader ipTot cksum port udpLen ++ rest := by
  by_cases hlen : (FrameHeader.newWithVlan e).outer + dns.length ≤ out.length
  · unfold FrameHeader.stamp at h
    rw [FrameHeader.writeFrame_eq e hlen] at h
    simp only [bind, Except.bind, List.append_assoc] at h
    cases sport with
    | none => exact ⟨_, _, _, _, _, (Except.ok.inj h).symm⟩
    | some port =>
      simp only [FrameHeader.setSrcPort_eq] at h
      exact ⟨_, _, _, _, _, (Except.ok.inj h).symm⟩
  · -- the buffer is too short: `copy_from_slice` panics
    unfold FrameHeader.stamp FrameHeader.writeFrame Slice.copyFromSlice at h
    rw [if_neg hlen] at h
    cases h

/-! ## The parser -/

/-- The fields of a mirrored frame that the parser looks at. -/
theorem mirrorHeader_fields (sport : UInt16) (f : ReplyFields) (payload : List UInt8) :
    (e.mirrorHeader sport f ++ payload).length = 42 + e.tag.length + payload.length ∧
      (e.mirrorHeader sport f ++ payload).getD (14 + e.tag.length + 9) 0 = 17 ∧
      (e.mirrorHeader sport f ++ payload).getD (14 + e.tag.length) 0 = 0x45 ∧
      (e.mirrorHeader sport f ++ payload).drop (14 + e.tag.length + 20 + udpHdr) = payload := by
  obtain ⟨srcMac, dstMac, srcIp, dstIp, srcPort, dstPort, vlan⟩ := e
  cases vlan
  · simp [Endpoints.mirrorHeader, Endpoints.tag, u16ToBeBytes, udpHdr]
    omega
  · simp [Endpoints.mirrorHeader, Endpoints.tag, u16ToBeBytes, udpHdr]
    omega

/-- The EtherType of an untagged frame. -/
theorem be16_untagged {e : Endpoints} (h : e.vlan = none) (sport : UInt16) (f : ReplyFields)
    (payload : List UInt8) : be16 (e.mirrorHeader sport f ++ payload) 12 = 0x0800 := by
  simp [be16, Endpoints.mirrorHeader, Endpoints.tag, u16ToBeBytes, h]
  rfl

/-- The EtherType of a tagged frame is the tag's, with IPv4's behind it. -/
theorem be16_tagged {e : Endpoints} {vid : UInt16} (h : e.vlan = some vid) (sport : UInt16)
    (f : ReplyFields) (payload : List UInt8) :
    be16 (e.mirrorHeader sport f ++ payload) 12 = 0x8100 ∧
      be16 (e.mirrorHeader sport f ++ payload) 16 = 0x0800 := by
  simp [be16, Endpoints.mirrorHeader, Endpoints.tag, u16ToBeBytes, h]
  exact ⟨rfl, rfl⟩

theorem parserL2_mirrorHeader (sport : UInt16) (f : ReplyFields) (payload : List UInt8) :
    parserL2 (e.mirrorHeader sport f ++ payload) = .ok (some (14 + e.tag.length, 0x0800)) := by
  obtain ⟨hlen, -⟩ := mirrorHeader_fields e sport f payload
  cases hvlan : e.vlan with
  | none =>
    have htype := be16_untagged hvlan sport f payload
    have htag : e.tag.length = 0 := by simp [Endpoints.tag, hvlan]
    rw [parserL2_untagged (by omega) (htype.trans_ne (by decide)), htype, htag]
    rfl
  | some vid =>
    obtain ⟨htpid, htype⟩ := be16_tagged hvlan sport f payload
    have htag : e.tag.length = 4 := by simp [Endpoints.tag, hvlan, u16ToBeBytes]
    rw [parserL2_tagged (by omega) htpid, htype, htag]
    rfl

/-- The parser reads the payload of every mirrored frame, tagged or not. -/
theorem parseDnsFromFrame_mirrorHeader_eq (sport : UInt16) (f : ReplyFields) (payload : List UInt8) :
    parseDnsFromFrame (e.mirrorHeader sport f ++ payload)
      = .ok ((parseResponse payload).map fun r => (r.id, r.rcode)) := by
  obtain ⟨hlen, hproto, hihl, hdrop⟩ := mirrorHeader_fields e sport f payload
  have hip := ipHdrLen_ipv4 (by omega) hproto (by rw [hihl]; decide)
  rw [parseDnsFromFrame_eq (parserUdpOffset_eq (parserL2_mirrorHeader e sport f payload) hip), hdrop]

/-- A response in it is found. -/
theorem parseDnsFromFrame_mirrorHeader (sport : UInt16) (f : ReplyFields) {payload : List UInt8}
    {id : QueryId} {rcode : ℕ} (h : IsResponse payload id rcode) :
    parseDnsFromFrame (e.mirrorHeader sport f ++ payload) = .ok (some (id, rcode)) := by
  rw [parseDnsFromFrame_mirrorHeader_eq, (parseResponse_eq_some_iff payload id rcode).mpr h]
  rfl

/-! ## The filter -/

/-- The filter finds no UDP header in a tagged frame. -/
theorem filterUdpOffset_tagged {e : Endpoints} {vid : UInt16} (h : e.vlan = some vid) (sport : UInt16)
    (f : ReplyFields) (payload : List UInt8) :
    filterUdpOffset (e.mirrorHeader sport f ++ payload) = none := by
  unfold filterUdpOffset
  rw [(be16_tagged h sport f payload).1]
  simp

/-- In an untagged frame it finds the UDP header, and there the server's port. -/
theorem filterUdpOffset_untagged {e : Endpoints} (h : e.vlan = none) (sport : UInt16) (f : ReplyFields)
    (payload : List UInt8) :
    filterUdpOffset (e.mirrorHeader sport f ++ payload) = some 34 ∧
      be16 (e.mirrorHeader sport f ++ payload) 34 = e.dstPort.toNat := by
  obtain ⟨hlen, hproto, hihl, -⟩ := mirrorHeader_fields e sport f payload
  have htag : e.tag.length = 0 := by simp [Endpoints.tag, h]
  rw [htag] at hproto hihl hlen
  have htype := be16_untagged h sport f payload
  have hshort : ¬ (e.mirrorHeader sport f ++ payload).length < ethHdr := by
    simp only [ethHdr]
    omega
  have hshort' : ¬ (e.mirrorHeader sport f ++ payload).length < ethHdr + ipv4Hdr := by
    simp only [ethHdr, ipv4Hdr]
    omega
  constructor
  · unfold filterUdpOffset
    rw [if_neg hshort, if_pos htype, if_neg hshort']
    simp only [ethHdr, Nat.add_zero] at hproto hihl ⊢
    simp only [hproto, hihl]
    rfl
  · simp [be16, Endpoints.mirrorHeader, Endpoints.tag, u16ToBeBytes, u16FromBeBytes_toBeBytes, h]

/-- The filter redirects a mirrored frame exactly when it is untagged, comes from port 53 and its queue
has a socket. -/
theorem dnsXdpClient_mirrorHeader (sport : UInt16) (f : ReplyFields) (payload : List UInt8)
    (xsks : XskMap) (queue : ℕ) :
    dnsXdpClient xsks queue (e.mirrorHeader sport f ++ payload) = .redirect queue ↔
      xsks.bound queue ∧ e.vlan = none ∧ e.dstPort = 53 := by
  cases hvlan : e.vlan with
  | some vid => simp [dnsXdpClient, filterUdpOffset_tagged hvlan]
  | none =>
    obtain ⟨hudp, hport⟩ := filterUdpOffset_untagged hvlan sport f payload
    obtain ⟨hlen, -⟩ := mirrorHeader_fields e sport f payload
    have hlong : ¬ (e.mirrorHeader sport f ++ payload).length < 34 + udpHdr := by
      simp only [udpHdr]
      omega
    have hport' : e.dstPort.toNat = 53 ↔ e.dstPort = 53 := by
      rw [← UInt16.toNat_inj]
      rfl
    simp only [dnsXdpClient, hudp, hlong, if_false, hport, ne_eq, hport', XskMap.redirect]
    by_cases h53 : e.dstPort = 53 <;> by_cases hbound : xsks.bound queue = true <;> simp [h53, hbound]

/-- A reply comes back through XDP exactly when its RX queue has a socket, the query was not tagged and
the server listens on port 53: for all endpoints, every frame stamped between them, every mirrored
frame and every DNS response in it. -/
theorem reply_returns_iff (e : Endpoints) (out dns : List UInt8) (sport : Option UInt16)
    (query : List UInt8) (hquery : (FrameHeader.newWithVlan e).stamp out dns sport = .ok query)
    (f : ReplyFields) (payload : List UInt8) (id : QueryId) (rcode : ℕ)
    (hpayload : IsResponse payload id rcode) (xsks : XskMap) (queue : ℕ) :
    (dnsXdpClient xsks queue (mirror (FrameHeader.newWithVlan e).l2 query f payload) = .redirect queue ∧
      parseDnsFromFrame (mirror (FrameHeader.newWithVlan e).l2 query f payload) = .ok (some (id, rcode))) ↔
    xsks.bound queue ∧ e.vlan = none ∧ e.dstPort = 53 := by
  obtain ⟨ipTot, cksum, port, udpLen, rest, rfl⟩ := stamp_eq_ok e hquery
  rw [mirror_wireHeader, parseDnsFromFrame_mirrorHeader e port f hpayload, dnsXdpClient_mirrorHeader]
  exact and_iff_left rfl

/-- A generator and a server on one link. -/
def link (dstPort : UInt16) (vlan : Option UInt16) : Endpoints where
  srcMac := ![2, 0, 0, 0, 0, 1]
  dstMac := ![2, 0, 0, 0, 0, 2]
  srcIp := ![10, 0, 0, 1]
  dstIp := ![10, 0, 0, 2]
  srcPort := 12345
  dstPort := dstPort
  vlan := vlan

/-- The header of a reply without fragmentation, checksums left out. -/
def plainReply : ReplyFields := ⟨0, 40, 0, 0, 64, 0, 20, 0⟩

/-- A buffer of 64 bytes with the frame of the shortest query (a header of zeros) over a link. -/
def linkQuery (e : Endpoints) : List UInt8 :=
  e.wireHeader 40 (FrameHeader.cksum (FrameHeader.newWithVlan e) 12) e.srcPort 20 ++
    List.replicate (22 - e.tag.length) 0

/-- Over an untagged link to port 53 the reply comes back. -/
theorem reply_returns_port53 :
    dnsXdpClient oneQueue 0 (mirror (FrameHeader.newWithVlan (link 53 none)).l2
        (linkQuery (link 53 none)) plainReply (replyTo 1)) = .redirect 0 ∧
      parseDnsFromFrame (mirror (FrameHeader.newWithVlan (link 53 none)).l2
        (linkQuery (link 53 none)) plainReply (replyTo 1)) = .ok (some (1, 0)) :=
  (reply_returns_iff (link 53 none) (List.replicate 64 0) (List.replicate 12 0) none
    (linkQuery (link 53 none)) (by decide) plainReply (replyTo 1) 1 0
    ((parseResponse_eq_some_iff _ _ _).mp (parseResponse_replyTo 1)) oneQueue 0).mpr
    ⟨rfl, rfl, rfl⟩

/-- With a tag, or from port 5353, the frames are stamped as well and their replies are DNS responses
that the parser would read, but the filter leaves them to the kernel's stack. -/
theorem tagged_reply_passed :
    (FrameHeader.newWithVlan (link 53 (some 100))).stamp (List.replicate 64 0) (List.replicate 12 0) none
        = .ok (linkQuery (link 53 (some 100))) ∧
      parseDnsFromFrame (mirror (FrameHeader.newWithVlan (link 53 (some 100))).l2
        (linkQuery (link 53 (some 100))) plainReply (replyTo 1)) = .ok (some (1, 0)) ∧
      dnsXdpClient oneQueue 0 (mirror (FrameHeader.newWithVlan (link 53 (some 100))).l2
        (linkQuery (link 53 (some 100))) plainReply (replyTo 1)) = .pass ∧
      (FrameHeader.newWithVlan (link 5353 none)).stamp (List.replicate 64 0) (List.replicate 12 0) none
        = .ok (linkQuery (link 5353 none)) ∧
      dnsXdpClient oneQueue 0 (mirror (FrameHeader.newWithVlan (link 5353 none)).l2
        (linkQuery (link 5353 none)) plainReply (replyTo 1)) = .pass := by
  refine ⟨?_, ?_, ?_, ?_, ?_⟩ <;> decide

end Dnsmark.Xdp
