import Dnsmark.Xdp.Frame

/-!
# The packet filter and the frame parser

A received frame passes two checks: `dns_xdp_client` of `ebpf/dns_xdp_client.c` decides in the driver
whether it is redirected to an AF_XDP socket, and `parse_dns_from_frame` of
`src/transport/xdp/receiver.rs` reads the response out of it.  The two walk the headers separately, the
filter with a fixed IPv4 header of 20 bytes and without VLAN tags, the parser with `IHL * 4` bytes and
one optional tag.

Each is split at the offset of the UDP header: `filterUdpOffset`, `parserUdpOffset`.
-/

namespace Dnsmark.Xdp

/-- The big-endian 16-bit word at `i`; read only inside the frame. -/
def be16 (frame : List UInt8) (i : ℕ) : ℕ := (u16FromBeBytes (frame.getD i 0) (frame.getD (i + 1) 0)).toNat

/-! ## The filter -/

/-- The verdict on a frame. -/
inductive XdpAction where
  | pass
  | redirect (queue : ℕ)
deriving DecidableEq, Repr

/-- The sockets of `XSKS`, at most 64: which RX queues have one. -/
structure XskMap where
  bound : ℕ → Bool
  lt_maxEntries : ∀ queue, bound queue → queue < 64

/-- `bpf_redirect_map(&XSKS, queue, XDP_PASS)`. -/
def XskMap.redirect (xsks : XskMap) (queue : ℕ) : XdpAction :=
  if xsks.bound queue then .redirect queue else .pass

/-- Where the filter finds the UDP header: after an IPv4 header without options, or an IPv6 header. -/
def filterUdpOffset (frame : List UInt8) : Option ℕ :=
  if frame.length < ethHdr then none
  else if be16 frame 12 = 0x0800 then
    if frame.length < ethHdr + ipv4Hdr then none
    else if frame.getD (ethHdr + 9) 0 ≠ 17 then none
    else if frame.getD ethHdr 0 &&& 0xf ≠ 5 then none
    else some (ethHdr + 20)
  else if be16 frame 12 = 0x86dd then
    if frame.length < ethHdr + ipv6Hdr then none
    else if frame.getD (ethHdr + 6) 0 ≠ 17 then none
    else some (ethHdr + ipv6Hdr)
  else none

/-- `dns_xdp_client` on a frame of RX queue `queue`: redirect what comes from UDP port 53. -/
def dnsXdpClient (xsks : XskMap) (queue : ℕ) (frame : List UInt8) : XdpAction :=
  match filterUdpOffset frame with
  | none => .pass
  | some udp =>
    if frame.length < udp + udpHdr then .pass
    else if be16 frame udp ≠ 53 then .pass
    else xsks.redirect queue

/-! ## The parser -/

/-- `u16::from_be_bytes([frame[i], frame[i + 1]])`. -/
def readBe16 (frame : List UInt8) (i : ℕ) : Except OutOfBounds ℕ := do
  let hi ← Slice.get frame i
  let lo ← Slice.get frame (i + 1)
  return (u16FromBeBytes hi lo).toNat

/-- The offset of the IP header and the EtherType, behind one 802.1Q tag if there is one. -/
def parserL2 (frame : List UInt8) : Except OutOfBounds (Option (ℕ × ℕ)) := do
  if frame.length < ethHdr + 2 then return none
  if (← readBe16 frame 12) = 0x8100 then
    if frame.length < ethHdr + 4 then return none
    return some (ethHdr + 4, ← readBe16 frame 16)
  else
    return some (ethHdr, ← readBe16 frame 12)

/-- `ip_hdr_len` of the IP header at `l2`. -/
def ipHdrLen (frame : List UInt8) (l2 ethType : ℕ) : Except OutOfBounds (Option ℕ) := do
  if ethType = 0x0800 then
    if frame.length < l2 + ipv4Hdr then return none
    if (← Slice.get frame (l2 + 9)) ≠ 17 then return none
    let ihl := ((← Slice.get frame l2) &&& 0xf).toNat * 4
    if ihl < ipv4Hdr then return none
    return some ihl
  else if ethType = 0x86dd then
    if frame.length < l2 + ipv6Hdr then return none
    if (← Slice.get frame (l2 + 6)) ≠ 17 then return none
    return some ipv6Hdr
  else return none

/-- Where the parser finds the UDP header. -/
def parserUdpOffset (frame : List UInt8) : Except OutOfBounds (Option ℕ) := do
  match ← parserL2 frame with
  | none => return none
  | some (l2, ethType) =>
    match ← ipHdrLen frame l2 ethType with
    | none => return none
    | some ipHdrLen => return some (l2 + ipHdrLen)

/-- `parse_dns_from_frame`: the id and the response code, if the frame is a DNS response. -/
def parseDnsFromFrame (frame : List UInt8) : Except OutOfBounds (Option (QueryId × ℕ)) := do
  match ← parserUdpOffset frame with
  | none => return none
  | some udp =>
    let dnsOff := udp + udpHdr
    if frame.length < dnsOff + 12 then return none
    return (parseResponse (← Slice.suffix frame dnsOff)).map fun r => (r.id, r.rcode)

/-! ## What the parser finds -/

variable {frame : List UInt8}

theorem readBe16_eq_ok {i : ℕ} (h : i + 1 < frame.length) : readBe16 frame i = .ok (be16 frame i) := by
  unfold readBe16
  rw [Slice.get_eq_ok 0 (by omega), Slice.get_eq_ok 0 h]
  rfl

theorem parserL2_untagged (hlen : 16 ≤ frame.length) (h : be16 frame 12 ≠ 0x8100) :
    parserL2 frame = .ok (some (ethHdr, be16 frame 12)) := by
  have hlong : ¬ frame.length < ethHdr + 2 := by
    simp only [ethHdr]
    omega
  unfold parserL2
  rw [if_neg hlong, readBe16_eq_ok (by omega)]
  simp only [bind, Except.bind, if_neg h]
  rfl

theorem parserL2_tagged (hlen : 18 ≤ frame.length) (h : be16 frame 12 = 0x8100) :
    parserL2 frame = .ok (some (ethHdr + 4, be16 frame 16)) := by
  have hlong : ¬ frame.length < ethHdr + 2 := by
    simp only [ethHdr]
    omega
  have hlong' : ¬ frame.length < ethHdr + 4 := by
    simp only [ethHdr]
    omega
  unfold parserL2
  rw [if_neg hlong, readBe16_eq_ok (by omega)]
  simp only [bind, Except.bind, if_pos h, if_neg hlong']
  rw [readBe16_eq_ok (by omega)]
  rfl

/-- An IPv4 header without options. -/
theorem ipHdrLen_ipv4 {l2 : ℕ} (hlen : l2 + 20 ≤ frame.length) (hproto : frame.getD (l2 + 9) 0 = 17)
    (hihl : frame.getD l2 0 &&& 0xf = 5) : ipHdrLen frame l2 0x0800 = .ok (some 20) := by
  have hlong : ¬ frame.length < l2 + ipv4Hdr := by
    simp only [ipv4Hdr]
    omega
  unfold ipHdrLen
  rw [if_pos rfl, if_neg hlong, Slice.get_eq_ok 0 (by omega), Slice.get_eq_ok 0 (by omega)]
  simp only [bind, Except.bind, hproto, hihl, ne_eq, not_true_eq_false, if_false]
  rfl

theorem ipHdrLen_ipv6 {l2 : ℕ} (hlen : l2 + 40 ≤ frame.length) (hproto : frame.getD (l2 + 6) 0 = 17) :
    ipHdrLen frame l2 0x86dd = .ok (some ipv6Hdr) := by
  have hlong : ¬ frame.length < l2 + ipv6Hdr := by
    simp only [ipv6Hdr]
    omega
  unfold ipHdrLen
  rw [if_neg (by decide), if_pos rfl, if_neg hlong, Slice.get_eq_ok 0 (by omega)]
  simp only [bind, Except.bind, hproto, ne_eq, not_true_eq_false, if_false]
  rfl

theorem parserUdpOffset_eq {l2 ethType len : ℕ} (hl2 : parserL2 frame = .ok (some (l2, ethType)))
    (hlen : ipHdrLen frame l2 ethType = .ok (some len)) :
    parserUdpOffset frame = .ok (some (l2 + len)) := by
  unfold parserUdpOffset
  simp only [hl2, bind, Except.bind, hlen]
  rfl

/-- From the UDP header on, the parser is `parse_response` of what follows it. -/
theorem parseDnsFromFrame_eq {udp : ℕ} (h : parserUdpOffset frame = .ok (some udp)) :
    parseDnsFromFrame frame
      = .ok ((parseResponse (frame.drop (udp + udpHdr))).map fun r => (r.id, r.rcode)) := by
  unfold parseDnsFromFrame
  simp only [h, bind, Except.bind]
  split
  · rename_i hshort
    have hnone : parseResponse (frame.drop (udp + udpHdr)) = none :=
      (parseResponse_eq_none_iff _).mpr (.inl (by rw [List.length_drop]; omega))
    rw [hnone]
    rfl
  · rw [Slice.suffix_eq_ok (by omega)]
    rfl

/-! ## Filter and parser agree -/

/-- What the filter accepts: IPv4 with a header of five words, or IPv6, and UDP in it. -/
theorem filterUdpOffset_cases {udp : ℕ} (h : filterUdpOffset frame = some udp) :
    (udp = 34 ∧ 34 ≤ frame.length ∧ be16 frame 12 = 0x0800 ∧ frame.getD (ethHdr + 9) 0 = 17 ∧
      frame.getD ethHdr 0 &&& 0xf = 5) ∨
    (udp = 54 ∧ 54 ≤ frame.length ∧ be16 frame 12 = 0x86dd ∧ frame.getD (ethHdr + 6) 0 = 17) := by
  unfold filterUdpOffset at h
  split at h
  · cases h
  · split at h
    · rename_i htype
      split at h
      · cases h
      · split at h
        · cases h
        · split at h
          · cases h
          · rename_i hlong hproto hihl
            exact .inl ⟨(Option.some.inj h).symm, not_lt.mp hlong, htype, not_not.mp hproto,
              not_not.mp hihl⟩
    · split at h
      · rename_i htype
        split at h
        · cases h
        · split at h
          · cases h
          · rename_i hlong hproto
            exact .inr ⟨(Option.some.inj h).symm, not_lt.mp hlong, htype, not_not.mp hproto⟩
      · cases h

/-- Where the filter finds a UDP header, the parser finds the same one. -/
theorem parserUdpOffset_of_filter {udp : ℕ} (h : filterUdpOffset frame = some udp) :
    parserUdpOffset frame = .ok (some udp) := by
  obtain ⟨rfl, hlen, htype, hproto, hihl⟩ | ⟨rfl, hlen, htype, hproto⟩ := filterUdpOffset_cases h
  · have hl2 := parserL2_untagged (by omega) (htype.trans_ne (by decide))
    rw [htype] at hl2
    exact parserUdpOffset_eq hl2 (ipHdrLen_ipv4 hlen hproto hihl)
  · have hl2 := parserL2_untagged (by omega) (htype.trans_ne (by decide))
    rw [htype] at hl2
    exact parserUdpOffset_eq hl2 (ipHdrLen_ipv6 hlen hproto)

/-- A redirected frame has a UDP header from port 53. -/
theorem filterUdpOffset_of_redirect {xsks : XskMap} {queue queue' : ℕ}
    (h : dnsXdpClient xsks queue frame = .redirect queue') :
    ∃ udp, filterUdpOffset frame = some udp ∧ udp + udpHdr ≤ frame.length ∧ be16 frame udp = 53 := by
  unfold dnsXdpClient at h
  split at h
  · cases h
  · rename_i udp hudp
    split at h
    · cases h
    · split at h
      · cases h
      · rename_i hlen hport
        exact ⟨udp, hudp, not_lt.mp hlen, not_not.mp hport⟩

/-- The filter and the parser look at the same packet: on every frame that is redirected the parser
computes the filter's UDP offset, its result is `parse_response` of the bytes behind the UDP header, and
it finds no response only when fewer than 12 bytes follow or the `QR` bit is clear. -/
theorem filter_and_parser_agree (xsks : XskMap) (queue queue' : ℕ) (frame : List UInt8)
    (h : dnsXdpClient xsks queue frame = .redirect queue') :
    ∃ udp, filterUdpOffset frame = some udp ∧ parserUdpOffset frame = .ok (some udp) ∧
      parseDnsFromFrame frame
        = .ok ((parseResponse (frame.drop (udp + udpHdr))).map fun r => (r.id, r.rcode)) ∧
      (parseDnsFromFrame frame = .ok none →
        frame.length < udp + udpHdr + 12 ∨ ¬ QrSet (frame.drop (udp + udpHdr))) := by
  obtain ⟨udp, hudp, hlen, -⟩ := filterUdpOffset_of_redirect h
  have hoffset := parserUdpOffset_of_filter hudp
  have hparse := parseDnsFromFrame_eq hoffset
  refine ⟨udp, hudp, hoffset, hparse, fun hnone => ?_⟩
  have hnone' : parseResponse (frame.drop (udp + udpHdr)) = none := by
    rw [hparse] at hnone
    exact Option.map_eq_none_iff.mp (Except.ok.inj hnone)
  rcases (parseResponse_eq_none_iff _).mp hnone' with hshort | hqr
  · rw [List.length_drop] at hshort
    exact .inl (by omega)
  · exact .inr hqr

theorem oneQueue_lt (queue : ℕ) (h : (queue == 0) = true) : queue < 64 := by
  rw [eq_of_beq h]
  decide

/-- The sockets of a run with one queue. -/
def oneQueue : XskMap := ⟨fun queue => queue == 0, oneQueue_lt⟩

/-- A reply to query 1 from port 53, over IPv4. -/
def replyFrame : List UInt8 :=
  [2, 0, 0, 0, 0, 1, 2, 0, 0, 0, 0, 2, 0x08, 0x00,
    0x45, 0, 0, 40, 0, 0, 0x40, 0, 64, 17, 0, 0, 10, 0, 0, 2, 10, 0, 0, 1,
    0, 53, 0x30, 0x39, 0, 20, 0, 0] ++ replyTo 1

/-- The reply is redirected and read as id 1 with response code 0. -/
theorem filter_and_parser_agree_replyFrame :
    dnsXdpClient oneQueue 0 replyFrame = .redirect 0 ∧
      ∃ udp, filterUdpOffset replyFrame = some udp ∧ parserUdpOffset replyFrame = .ok (some udp) := by
  have hredirect : dnsXdpClient oneQueue 0 replyFrame = .redirect 0 := by decide
  obtain ⟨udp, hfilter, hparser, -⟩ := filter_and_parser_agree oneQueue 0 0 replyFrame hredirect
  exact ⟨hredirect, udp, hfilter, hparser⟩

end Dnsmark.Xdp
