import Dnsmark.Xdp.FrameParser

/-!
# What the frame parser guarantees

The input of `parse_dns_from_frame` is whatever the network delivers.  Two questions about it are settled
by one description of its early returns (`parserL2_cases`, `ipHdrLen_cases`).

It never reads outside of the frame: each length test dominates the reads behind it.  `readDnsFromFrame`
is the parser with the reads of `parse_response` checked too.

It does not check that a frame is a real response.  The version nibble, the fragment bits and the two
length fields are not looked at, so bytes behind the datagram (the padding of a short Ethernet frame) can
be read as a response.  `HonestHeader` are the missing tests.
-/

namespace Dnsmark.Xdp

/-! ## Every read is within bounds -/

/-- `parse_response` with its four reads checked. -/
def readResponse (buf : List UInt8) : Except OutOfBounds (Option ResponseInfo) := do
  if buf.length < 12 then return none
  let id := (u16FromBeBytes (← Slice.get buf 0) (← Slice.get buf 1)).toFin
  let flags := u16FromBeBytes (← Slice.get buf 2) (← Slice.get buf 3)
  if flags &&& 0x8000 = 0 then return none
  return some ⟨id, (flags &&& 0x000f).toNat⟩

/-- `parse_dns_from_frame` with every read checked. -/
def readDnsFromFrame (frame : List UInt8) : Except OutOfBounds (Option (QueryId × ℕ)) := do
  match ← parserUdpOffset frame with
  | none => return none
  | some udp =>
    let dnsOff := udp + udpHdr
    if frame.length < dnsOff + 12 then return none
    return (← readResponse (← Slice.suffix frame dnsOff)).map fun r => (r.id, r.rcode)

/-- The reads of `parse_response` are within bounds. -/
theorem readResponse_eq (buf : List UInt8) : readResponse buf = .ok (parseResponse buf) := by
  unfold readResponse
  split
  · rename_i hshort
    have hnone : parseResponse buf = none := (parseResponse_eq_none_iff buf).mpr (.inl hshort)
    rw [hnone]
    rfl
  · rename_i hlong
    rw [Slice.get_eq_ok 0 (by omega), Slice.get_eq_ok 0 (by omega), Slice.get_eq_ok 0 (by omega),
      Slice.get_eq_ok 0 (by omega), parseResponse_of_length (by omega)]
    simp only [bind, Except.bind, qr_eq_zero_iff, rcode_eq_low]
    by_cases hqr : QrSet buf
    · have hset : ¬ buf.getD 2 0 &&& 0x80 = 0 := hqr
      rw [if_neg hset, if_pos hqr]
      rfl
    · have hclear : buf.getD 2 0 &&& 0x80 = 0 := not_not.mp hqr
      rw [if_pos hclear, if_neg hqr]
      rfl

/-- Checking them changes nothing. -/
theorem readDnsFromFrame_eq (frame : List UInt8) : readDnsFromFrame frame = parseDnsFromFrame frame := by
  unfold readDnsFromFrame parseDnsFromFrame
  simp only [readResponse_eq]
  rfl

variable (frame : List UInt8)

/-- Where the IP header of a frame starts: behind one 802.1Q tag if there is one. -/
def ipOffset : ℕ := if be16 frame 12 = 0x8100 then 18 else 14

/-- The EtherType of the packet, right in front of the IP header. -/
def etherType : ℕ := be16 frame (ipOffset frame - 2)

/-- `IHL * 4` of the IPv4 header at `ip`. -/
def ihl (ip : ℕ) : ℕ := (frame.getD ip 0 &&& 0xf).toNat * 4

/-- Layer 2 is too short, or it ends where the IP header starts. -/
theorem parserL2_cases :
    parserL2 frame = .ok none ∨ parserL2 frame = .ok (some (ipOffset frame, etherType frame)) := by
  by_cases hlen : 16 ≤ frame.length
  · by_cases htag : be16 frame 12 = 0x8100
    · have hoffset : ipOffset frame = 18 := if_pos htag
      by_cases hlen' : 18 ≤ frame.length
      · right
        rw [parserL2_tagged hlen' htag, etherType, hoffset]
        rfl
      · left
        -- a tag cut off behind its TPID
        have hlong : ¬ frame.length < ethHdr + 2 := not_lt.mpr hlen
        have hshort : frame.length < ethHdr + 4 := not_le.mp hlen'
        unfold parserL2
        rw [if_neg hlong, readBe16_eq_ok (by omega)]
        simp only [bind, Except.bind, if_pos htag, if_pos hshort]
        rfl
    · right
      have hoffset : ipOffset frame = 14 := if_neg htag
      rw [parserL2_untagged hlen htag, etherType, hoffset]
      rfl
  · left
    have hshort : frame.length < ethHdr + 2 := not_le.mp hlen
    unfold parserL2
    rw [if_pos hshort]
    rfl

/-- The IP header at `ip` that the parser takes for one of a UDP packet, and its length. -/
inductive UdpHeaderAt (ip : ℕ) : ℕ → ℕ → Prop
  | ipv4 : frame.getD (ip + 9) 0 = 17 → 20 ≤ ihl frame ip → UdpHeaderAt ip 0x0800 (ihl frame ip)
  | ipv6 : frame.getD (ip + 6) 0 = 17 → UdpHeaderAt ip 0x86dd 40

/-- The IP header is rejected, or it is one of a UDP packet. -/
theorem ipHdrLen_cases (ip ethType : ℕ) :
    ipHdrLen frame ip ethType = .ok none ∨
      ∃ len, ipHdrLen frame ip ethType = .ok (some len) ∧ UdpHeaderAt frame ip ethType len := by
  unfold ipHdrLen
  by_cases h4 : ethType = 0x0800
  · subst h4
    rw [if_pos rfl]
    split
    · exact .inl rfl
    · rename_i hlong
      have hlen : ip + 20 ≤ frame.length := not_lt.mp hlong
      rw [Slice.get_eq_ok 0 (by omega), Slice.get_eq_ok 0 (by omega)]
      simp only [bind, Except.bind]
      split
      · exact .inl rfl
      · rename_i hproto
        split
        · exact .inl rfl
        · rename_i hihl
          exact .inr ⟨_, rfl, .ipv4 (not_not.mp hproto) (not_lt.mp hihl)⟩
  · rw [if_neg h4]
    by_cases h6 : ethType = 0x86dd
    · subst h6
      rw [if_pos rfl]
      split
      · exact .inl rfl
      · rename_i hlong
        have hlen : ip + 40 ≤ frame.length := not_lt.mp hlong
        rw [Slice.get_eq_ok 0 (by omega)]
        simp only [bind, Except.bind]
        split
        · exact .inl rfl
        · rename_i hproto
          exact .inr ⟨_, rfl, .ipv6 (not_not.mp hproto)⟩
    · rw [if_neg h6]
      exact .inl rfl

/-- The parser finds no UDP header, or the one behind the IP header. -/
theorem parserUdpOffset_cases :
    parserUdpOffset frame = .ok none ∨
      ∃ len, parserUdpOffset frame = .ok (some (ipOffset frame + len)) ∧
        UdpHeaderAt frame (ipOffset frame) (etherType frame) len := by
  rcases parserL2_cases frame with hl2 | hl2
  · left
    unfold parserUdpOffset
    simp only [hl2, bind, Except.bind]
    rfl
  · rcases ipHdrLen_cases frame (ipOffset frame) (etherType frame) with hnone | ⟨len, hlen, hudp⟩
    · left
      unfold parserUdpOffset
      simp only [hl2, bind, Except.bind, hnone]
      rfl
    · exact .inr ⟨len, parserUdpOffset_eq hl2 hlen, hudp⟩

/-- The parser rejects the frame, or it reads the response behind a UDP header. -/
theorem parseDnsFromFrame_cases :
    parseDnsFromFrame frame = .ok none ∨
      ∃ len, UdpHeaderAt frame (ipOffset frame) (etherType frame) len ∧
        parseDnsFromFrame frame
          = .ok ((parseResponse (frame.drop (ipOffset frame + len + udpHdr))).map
              fun r => (r.id, r.rcode)) := by
  rcases parserUdpOffset_cases frame with hnone | ⟨len, hlen, hudp⟩
  · left
    unfold parseDnsFromFrame
    simp only [hnone, bind, Except.bind]
    rfl
  · exact .inr ⟨len, hudp, parseDnsFromFrame_eq hlen⟩

/-- No frame makes the parser read out of bounds: on every byte string it returns, with all of its reads
and those of `parse_response` checked, and the checks do not change what it returns. -/
theorem parser_reads_within_bounds (frame : List UInt8) :
    ∃ response, readDnsFromFrame frame = .ok response ∧ parseDnsFromFrame frame = .ok response := by
  rw [readDnsFromFrame_eq]
  rcases parseDnsFromFrame_cases frame with hnone | ⟨len, -, hsome⟩
  · exact ⟨_, hnone, hnone⟩
  · exact ⟨_, hsome, hsome⟩

/-! ## What it does not check -/

/-- The packet is no fragment: fragment offset 0 and `MF` clear. -/
def Unfragmented (ip : ℕ) : Prop :=
  be16 frame (ip + 6) &&& 0x1fff = 0 ∧ be16 frame (ip + 6) &&& 0x2000 = 0

instance decidableUnfragmented (ip : ℕ) : Decidable (Unfragmented frame ip) :=
  inferInstanceAs (Decidable (_ ∧ _))

/-- A whole UDP packet in a frame: its UDP header is at `udp`, and the IP length ends it at `stop`. -/
inductive UdpPacket (ip : ℕ) : ℕ → ℕ → Prop
  | ipv4 : etherType frame = 0x0800 → frame.getD ip 0 >>> 4 = 4 → 20 ≤ ihl frame ip →
      Unfragmented frame ip → frame.getD (ip + 9) 0 = 17 →
      UdpPacket ip (ip + ihl frame ip) (ip + be16 frame (ip + 2))
  | ipv6 : etherType frame = 0x86dd → frame.getD ip 0 >>> 4 = 6 → frame.getD (ip + 6) 0 = 17 →
      UdpPacket ip (ip + 40) (ip + 40 + be16 frame (ip + 4))

/-- Both lengths lie within the frame and leave 12 bytes behind the UDP header. -/
structure HonestLengths (udp stop : ℕ) : Prop where
  ip_room : udp + udpHdr + 12 ≤ stop
  ip_end : stop ≤ frame.length
  udp_room : udpHdr + 12 ≤ be16 frame (udp + 4)
  udp_end : udp + be16 frame (udp + 4) ≤ frame.length

theorem honestLengths_iff (udp stop : ℕ) :
    (udp + udpHdr + 12 ≤ stop ∧ stop ≤ frame.length ∧ udpHdr + 12 ≤ be16 frame (udp + 4) ∧
      udp + be16 frame (udp + 4) ≤ frame.length) ↔ HonestLengths frame udp stop :=
  ⟨fun ⟨hip, hstop, hudp, hend⟩ => ⟨hip, hstop, hudp, hend⟩,
    fun ⟨hip, hstop, hudp, hend⟩ => ⟨hip, hstop, hudp, hend⟩⟩

instance decidableHonestLengths (udp stop : ℕ) : Decidable (HonestLengths frame udp stop) :=
  decidable_of_iff _ (honestLengths_iff frame udp stop)

/-- The UDP payload: what is inside of both lengths. -/
def udpPayload (udp stop : ℕ) : List UInt8 :=
  (frame.drop (udp + udpHdr)).take (min stop (udp + be16 frame (udp + 4)) - (udp + udpHdr))

/-- A real DNS response in a frame: a complete, unfragmented UDP packet with a response in its payload. -/
def RealResponse (id : QueryId) (rcode : ℕ) : Prop :=
  ∃ udp stop, UdpPacket frame (ipOffset frame) udp stop ∧ HonestLengths frame udp stop ∧
    IsResponse (udpPayload frame udp stop) id rcode

/-- The tests that the parser leaves out, on the IP header at `ip`. -/
def HonestHeader (ip : ℕ) : Prop :=
  (etherType frame = 0x0800 ∧ frame.getD ip 0 >>> 4 = 4 ∧ Unfragmented frame ip ∧
    HonestLengths frame (ip + ihl frame ip) (ip + be16 frame (ip + 2))) ∨
  (etherType frame = 0x86dd ∧ frame.getD ip 0 >>> 4 = 6 ∧
    HonestLengths frame (ip + 40) (ip + 40 + be16 frame (ip + 4)))

instance decidableHonestHeader (ip : ℕ) : Decidable (HonestHeader frame ip) :=
  inferInstanceAs (Decidable (_ ∨ _))

/-- Whether a message is a response is decided by its header. -/
theorem isResponse_take {buf : List UInt8} {n : ℕ} (hn : 12 ≤ n) (hlen : n ≤ buf.length)
    (id : QueryId) (rcode : ℕ) : IsResponse (buf.take n) id rcode ↔ IsResponse buf id rcode := by
  have hget (i : ℕ) (hi : i < 12) : (buf.take n).getD i 0 = buf.getD i 0 := by
    rw [List.getD_eq_getElem?_getD, List.getD_eq_getElem?_getD, List.getElem?_take_of_lt (by omega)]
  have hqr : QrSet (buf.take n) ↔ QrSet buf := by
    unfold QrSet
    rw [hget 2 (by omega)]
  constructor
  · rintro ⟨-, hid, hset, hrcode⟩
    rw [hget 0 (by omega), hget 1 (by omega)] at hid
    rw [hget 3 (by omega)] at hrcode
    exact ⟨by omega, hid, hqr.mp hset, hrcode⟩
  · rintro ⟨-, hid, hset, hrcode⟩
    refine ⟨by rw [List.length_take]; omega, ?_, hqr.mpr hset, ?_⟩
    · rw [hget 0 (by omega), hget 1 (by omega), hid]
    · rw [hget 3 (by omega), hrcode]

/-- With honest lengths the header of the response is in the payload. -/
theorem isResponse_udpPayload {udp stop : ℕ} (h : HonestLengths frame udp stop) (id : QueryId)
    (rcode : ℕ) :
    IsResponse (udpPayload frame udp stop) id rcode ↔
      IsResponse (frame.drop (udp + udpHdr)) id rcode := by
  obtain ⟨hip, hstop, hudp, hend⟩ := h
  apply isResponse_take
  · omega
  · rw [List.length_drop]
    omega

/-- What a frame has to be for the parser to accept it. -/
theorem accepted_cases {id : QueryId} {rcode : ℕ}
    (h : parseDnsFromFrame frame = .ok (some (id, rcode))) :
    ∃ len, UdpHeaderAt frame (ipOffset frame) (etherType frame) len ∧
      IsResponse (frame.drop (ipOffset frame + len + udpHdr)) id rcode := by
  rcases parseDnsFromFrame_cases frame with hnone | ⟨len, hudp, hsome⟩
  · rw [hnone] at h
    cases h
  · rw [hsome] at h
    obtain ⟨⟨id', rcode'⟩, hresponse, hpair⟩ := Option.map_eq_some_iff.mp (Except.ok.inj h)
    obtain ⟨rfl, rfl⟩ := Prod.mk.inj hpair
    exact ⟨len, hudp, (parseResponse_eq_some_iff _ _ _).mp hresponse⟩

/-- An accepted frame is a real response exactly when it also passes the tests that the parser leaves
out: the version nibble of its EtherType, no fragment, and an IP and a UDP length that lie within the
frame and leave room for a DNS header. -/
theorem accepted_real_iff_honest (frame : List UInt8) (id : QueryId) (rcode : ℕ)
    (h : parseDnsFromFrame frame = .ok (some (id, rcode))) :
    RealResponse frame id rcode ↔ HonestHeader frame (ipOffset frame) := by
  constructor
  · rintro ⟨udp, stop, hpacket, hlengths, -⟩
    cases hpacket with
    | ipv4 htype hversion _ hfragment _ => exact .inl ⟨htype, hversion, hfragment, hlengths⟩
    | ipv6 htype hversion _ => exact .inr ⟨htype, hversion, hlengths⟩
  · -- protocol, IHL and the response itself come from the parser, the rest from the tests
    obtain ⟨len, hudp, hresponse⟩ := accepted_cases frame h
    rintro (⟨htype, hversion, hfragment, hlengths⟩ | ⟨htype, hversion, hlengths⟩)
    · rw [htype] at hudp
      cases hudp with
      | ipv4 hproto hihl =>
        exact ⟨_, _, .ipv4 htype hversion hihl hfragment hproto, hlengths,
          (isResponse_udpPayload frame hlengths id rcode).mpr hresponse⟩
    · rw [htype] at hudp
      cases hudp with
      | ipv6 hproto =>
        exact ⟨_, _, .ipv6 htype hversion hproto, hlengths,
          (isResponse_udpPayload frame hlengths id rcode).mpr hresponse⟩

/-- The reply to query 1 is a real response. -/
theorem accepted_real_replyFrame : RealResponse replyFrame 1 0 :=
  (accepted_real_iff_honest replyFrame 1 0 (by decide)).mpr (by decide)

/-- An empty UDP datagram from port 53, padded to the 60 bytes of the shortest Ethernet frame; the first
twelve bytes of the padding look like a response to query 1. -/
def paddedFrame : List UInt8 :=
  [2, 0, 0, 0, 0, 1, 2, 0, 0, 0, 0, 2, 0x08, 0x00,
    0x45, 0, 0, 28, 0, 0, 0x40, 0, 64, 17, 0x26, 0xcf, 10, 0, 0, 2, 10, 0, 0, 1,
    0, 53, 0x30, 0x39, 0, 8, 0, 0] ++ replyTo 1 ++ [0, 0, 0, 0, 0, 0]

/-- The filter lets it through and its padding is accepted as a response. -/
theorem padding_accepted :
    dnsXdpClient oneQueue 0 paddedFrame = .redirect 0 ∧
      parseDnsFromFrame paddedFrame = .ok (some (1, 0)) ∧ ¬ RealResponse paddedFrame 1 0 := by
  refine ⟨by decide, by decide, ?_⟩
  rintro ⟨udp, stop, hpacket, hlengths, -⟩
  have hroom := hlengths.ip_room
  cases hpacket with
  | ipv4 => exact absurd hroom (by decide)
  | ipv6 htype => exact absurd htype (by decide)

end Dnsmark.Xdp
