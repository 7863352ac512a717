import Dnsmark.Common.OnesComplement
import Dnsmark.Xdp.ReplyPath

/-!
# The IPv4 checksum of a query frame

`write_header` does not sum the header up for each packet.  It adds the packet's total length to the sum
of the constant words and folds twice.  `ipv4_checksum` of `src/transport/xdp/frame.rs` is the plain
computation: all ten words, folded in a loop.  The two agree (`cksum_eq`), because a sum of ten words has
no more than 32 bits and two folds are then enough.
-/

namespace Dnsmark.Xdp

/-- The sum of the 16-bit words of a header. -/
def wordSum (hdr : List UInt8) : ℕ :=
  ((List.range (hdr.length / 2)).map fun i =>
    (u16FromBeBytes (hdr.getD (2 * i) 0) (hdr.getD (2 * i + 1) 0)).toNat).sum

/-- `ipv4_checksum`. -/
def ipv4Checksum (hdr : List UInt8) : UInt16 := ~~~ UInt16.ofNat (OnesComplement.foldAll (wordSum hdr))

/-- The IPv4 header between two endpoints. -/
def Endpoints.ipHeader (e : Endpoints) (ipTot cksum : UInt16) : List UInt8 :=
  [0x45, 0] ++ u16ToBeBytes ipTot ++ [0, 0, 0x40, 0, 64, 17] ++ u16ToBeBytes cksum ++
    List.ofFn e.srcIp ++ List.ofFn e.dstIp

/-- The words of the header that are the same in all packets. -/
def Endpoints.addrSum (e : Endpoints) : ℕ :=
  (u16FromBeBytes (e.srcIp 0) (e.srcIp 1)).toNat + (u16FromBeBytes (e.srcIp 2) (e.srcIp 3)).toNat +
    (u16FromBeBytes (e.dstIp 0) (e.dstIp 1)).toNat + (u16FromBeBytes (e.dstIp 2) (e.dstIp 3)).toNat

variable (e : Endpoints)

theorem length_ipHeader (ipTot cksum : UInt16) : (e.ipHeader ipTot cksum).length = 20 := rfl

theorem wordSum_ipHeader (ipTot cksum : UInt16) :
    wordSum (e.ipHeader ipTot cksum) = 0xc511 + ipTot.toNat + cksum.toNat + e.addrSum := by
  have hconst : (u16FromBeBytes 0x45 0).toNat = 0x4500 ∧ (u16FromBeBytes 0 0).toNat = 0 ∧
      (u16FromBeBytes 0x40 0).toNat = 0x4000 ∧ (u16FromBeBytes 64 17).toNat = 0x4011 :=
    ⟨rfl, rfl, rfl, rfl⟩
  rw [wordSum, length_ipHeader]
  simp [List.range_succ, Endpoints.ipHeader, u16ToBeBytes, u16FromBeBytes_toBeBytes, Endpoints.addrSum,
    hconst]
  omega

theorem addrSum_lt : e.addrSum < 4 * 65536 := by
  have hsrc := (u16FromBeBytes (e.srcIp 0) (e.srcIp 1)).toNat_lt
  have hsrc' := (u16FromBeBytes (e.srcIp 2) (e.srcIp 3)).toNat_lt
  have hdst := (u16FromBeBytes (e.dstIp 0) (e.dstIp 1)).toNat_lt
  have hdst' := (u16FromBeBytes (e.dstIp 2) (e.dstIp 3)).toNat_lt
  unfold Endpoints.addrSum
  omega

/-- Ten words do not overflow 32 bits. -/
theorem wordSum_lt (ipTot cksum : UInt16) : wordSum (e.ipHeader ipTot cksum) < 2 ^ 32 := by
  have haddr := addrSum_lt e
  have htot := ipTot.toNat_lt
  have hcksum := cksum.toNat_lt
  rw [wordSum_ipHeader]
  omega

/-- The IPv4 header of a frame. -/
theorem take_drop_wireHeader (ipTot cksum sport udpLen : UInt16) (rest : List UInt8) :
    ((e.wireHeader ipTot cksum sport udpLen ++ rest).drop (FrameHeader.newWithVlan e).l2).take ipv4Hdr
      = e.ipHeader ipTot cksum := by
  rw [FrameHeader.l2_eq]
  obtain ⟨srcMac, dstMac, srcIp, dstIp, srcPort, dstPort, vlan⟩ := e
  cases vlan <;>
    simp [Endpoints.wireHeader, Endpoints.ipHeader, Endpoints.tag, u16ToBeBytes, ipv4Hdr]

/-! ## The sum of the template -/

/-- Summing a header up where it stands. -/
theorem ipSum_eq {buf : List UInt8} {l2 : ℕ} (h : l2 + ipv4Hdr ≤ buf.length) :
    FrameHeader.ipSum buf l2 = wordSum ((buf.drop l2).take ipv4Hdr) := by
  have hlen : ((buf.drop l2).take ipv4Hdr).length = ipv4Hdr := by
    rw [List.length_take, List.length_drop]
    omega
  have hget : ∀ k < ipv4Hdr, ((buf.drop l2).take ipv4Hdr).getD k 0 = buf.getD (l2 + k) 0 := by
    intro k hk
    rw [List.getD_eq_getElem?_getD, List.getElem?_take_of_lt hk, List.getElem?_drop,
      List.getD_eq_getElem?_getD]
  have hword : ∀ i ∈ List.range (ipv4Hdr / 2),
      (u16FromBeBytes (buf.getD (l2 + 2 * i) 0) (buf.getD (l2 + 2 * i + 1) 0)).toNat
        = (u16FromBeBytes (((buf.drop l2).take ipv4Hdr).getD (2 * i) 0)
            (((buf.drop l2).take ipv4Hdr).getD (2 * i + 1) 0)).toNat := by
    intro i hi
    have hi' : 2 * i + 1 < ipv4Hdr := by
      have := List.mem_range.mp hi
      unfold ipv4Hdr at *
      omega
    rw [hget _ (by omega), hget _ hi', Nat.add_assoc]
  rw [FrameHeader.ipSum, wordSum, hlen, List.map_congr_left hword]

theorem ipBaseSum_eq : (FrameHeader.newWithVlan e).ipBaseSum = 0xc511 + e.addrSum := by
  have htpl : (FrameHeader.newWithVlan e).tpl = e.wireHeader 0 0 e.srcPort 0 ++
      (FrameHeader.newWithVlan e).tpl.drop (FrameHeader.newWithVlan e).outer := by
    rw [← FrameHeader.tpl_take, List.take_append_drop]
  have hlen : (FrameHeader.newWithVlan e).l2 + ipv4Hdr ≤ (FrameHeader.newWithVlan e).tpl.length := by
    rw [htpl, List.length_append, FrameHeader.length_wireHeader, FrameHeader.outer_eq, ipv4Hdr]
    omega
  -- `rfl` would compute the sum on both sides
  have hsum : (FrameHeader.newWithVlan e).ipBaseSum
      = FrameHeader.ipSum (FrameHeader.newWithVlan e).tpl (FrameHeader.newWithVlan e).l2 := by
    unfold FrameHeader.newWithVlan
    dsimp only
  rw [hsum, ipSum_eq hlen, htpl, take_drop_wireHeader, wordSum_ipHeader]
  rfl

namespace FrameHeader

theorem toNat_udpLen {dnsLen : ℕ} (h : dnsLen ≤ 65507) : (udpLen dnsLen).toNat = 8 + dnsLen := by
  rw [udpLen, UInt16.toNat_ofNat', udpHdr]
  omega

theorem toNat_ipTot {dnsLen : ℕ} (h : dnsLen ≤ 65507) : (ipTot dnsLen).toNat = 28 + dnsLen := by
  rw [ipTot, UInt16.toNat_add, toNat_udpLen h, show (UInt16.ofNat ipv4Hdr).toNat = 20 from rfl]
  omega

/-- The fast path computes the checksum of the whole header. -/
theorem cksum_eq (dnsLen : ℕ) :
    (newWithVlan e).cksum dnsLen = ipv4Checksum (e.ipHeader (ipTot dnsLen) 0) := by
  have hsum : (newWithVlan e).ipBaseSum + (ipTot dnsLen).toNat
      = wordSum (e.ipHeader (ipTot dnsLen) 0) := by
    rw [ipBaseSum_eq, wordSum_ipHeader]
    change _ = _ + 0 + _
    omega
  rw [ipv4Checksum, ← OnesComplement.fold_fold_eq_foldAll (wordSum_lt e _ _), ← hsum]
  rfl

end FrameHeader

/-- A header that carries its own checksum sums up to all ones. -/
theorem ipv4Checksum_self (ipTot : UInt16) :
    ipv4Checksum (e.ipHeader ipTot (ipv4Checksum (e.ipHeader ipTot 0))) = 0 := by
  have hpos : 0 < wordSum (e.ipHeader ipTot 0) := by
    rw [wordSum_ipHeader]
    omega
  have hfold := (OnesComplement.foldAll_spec (wordSum (e.ipHeader ipTot 0))).1
  have hcksum : (ipv4Checksum (e.ipHeader ipTot 0)).toNat
      = 65535 - OnesComplement.foldAll (wordSum (e.ipHeader ipTot 0)) := by
    rw [ipv4Checksum, UInt16.toNat_not, UInt16.toNat_ofNat', Nat.mod_eq_of_lt hfold]
    rfl
  have hsum : wordSum (e.ipHeader ipTot (ipv4Checksum (e.ipHeader ipTot 0)))
      = wordSum (e.ipHeader ipTot 0)
        + (65535 - OnesComplement.foldAll (wordSum (e.ipHeader ipTot 0))) := by
    rw [← hcksum, wordSum_ipHeader, wordSum_ipHeader]
    change _ = _ + 0 + _ + _
    omega
  rw [ipv4Checksum, hsum, OnesComplement.foldAll_add_complement hpos]
  rfl

/-! ## Stamped frames -/

/-- What the headers behind `l2` say about a payload of `dnsLen` octets, and that the IPv4 header
verifies.  The sum of the verification is one of 32 bits. -/
structure HeaderSound (l2 dnsLen : ℕ) (frame : List UInt8) : Prop where
  verifies : ipv4Checksum ((frame.drop l2).take ipv4Hdr) = 0
  field_eq : be16 frame (l2 + 10)
    = (ipv4Checksum ((((frame.drop l2).take ipv4Hdr).set 10 0).set 11 0)).toNat
  totalLength : be16 frame (l2 + 2) = 28 + dnsLen
  udpLength : be16 frame (l2 + ipv4Hdr + 4) = 8 + dnsLen
  sum_lt : wordSum ((frame.drop l2).take ipv4Hdr) < 2 ^ 32

/-- `write_header` computes without overflow: the lengths in 16 bits, the sums in 32. -/
structure NoOverflow (hdr : FrameHeader) (dnsLen : ℕ) : Prop where
  udpLen : (FrameHeader.udpLen dnsLen).toNat = udpHdr + dnsLen
  ipTot : (FrameHeader.ipTot dnsLen).toNat = ipv4Hdr + (FrameHeader.udpLen dnsLen).toNat
  baseSum : hdr.ipBaseSum < 2 ^ 32
  sum : hdr.ipBaseSum + (FrameHeader.ipTot dnsLen).toNat < 2 ^ 32

/-- The words of a stamped frame that `HeaderSound` reads. -/
theorem be16_wireHeader (ipTot cksum sport udpLen : UInt16) (rest : List UInt8) :
    be16 (e.wireHeader ipTot cksum sport udpLen ++ rest) ((FrameHeader.newWithVlan e).l2 + 2)
        = ipTot.toNat ∧
      be16 (e.wireHeader ipTot cksum sport udpLen ++ rest) ((FrameHeader.newWithVlan e).l2 + 10)
        = cksum.toNat ∧
      be16 (e.wireHeader ipTot cksum sport udpLen ++ rest)
        ((FrameHeader.newWithVlan e).l2 + ipv4Hdr + 4) = udpLen.toNat := by
  rw [FrameHeader.l2_eq]
  obtain ⟨srcMac, dstMac, srcIp, dstIp, srcPort, dstPort, vlan⟩ := e
  cases vlan <;>
    simp [be16, Endpoints.wireHeader, Endpoints.tag, u16ToBeBytes, u16FromBeBytes_toBeBytes, ipv4Hdr]

theorem ipHeader_clear (ipTot cksum : UInt16) :
    ((e.ipHeader ipTot cksum).set 10 0).set 11 0 = e.ipHeader ipTot 0 := rfl

/-- Any frame that is stamped with the lengths and the checksum of `write_header`, whatever its source
port. -/
theorem headerSound_wireHeader {dnsLen : ℕ} (h : dnsLen ≤ 65507) (sport : UInt16)
    (rest : List UInt8) :
    HeaderSound (FrameHeader.newWithVlan e).l2 dnsLen
      (e.wireHeader (FrameHeader.ipTot dnsLen) ((FrameHeader.newWithVlan e).cksum dnsLen) sport
        (FrameHeader.udpLen dnsLen) ++ rest) := by
  obtain ⟨htot, hcksum, hudp⟩ := be16_wireHeader e (FrameHeader.ipTot dnsLen)
    ((FrameHeader.newWithVlan e).cksum dnsLen) sport (FrameHeader.udpLen dnsLen) rest
  constructor
  · rw [take_drop_wireHeader, FrameHeader.cksum_eq, ipv4Checksum_self]
  · rw [hcksum, take_drop_wireHeader, ipHeader_clear, FrameHeader.cksum_eq]
  · rw [htot, FrameHeader.toNat_ipTot h]
  · rw [hudp, FrameHeader.toNat_udpLen h]
  · rw [take_drop_wireHeader]
    exact wordSum_lt e _ _

theorem noOverflow {dnsLen : ℕ} (h : dnsLen ≤ 65507) :
    NoOverflow (FrameHeader.newWithVlan e) dnsLen := by
  have haddr := addrSum_lt e
  constructor
  · exact FrameHeader.toNat_udpLen h
  · rw [FrameHeader.toNat_ipTot h, FrameHeader.toNat_udpLen h, ipv4Hdr]
    omega
  · rw [ipBaseSum_eq]
    omega
  · rw [ipBaseSum_eq, FrameHeader.toNat_ipTot h]
    omega

/-- Any number of calls of `set_src_port` change the source port only. -/
theorem foldlM_setSrcPort (ports : List UInt16) (ipTot cksum sport udpLen : UInt16)
    (rest : List UInt8) :
    ∃ port, ports.foldlM (FrameHeader.newWithVlan e).setSrcPort
        (e.wireHeader ipTot cksum sport udpLen ++ rest)
      = .ok (e.wireHeader ipTot cksum port udpLen ++ rest) := by
  induction ports generalizing sport with
  | nil => exact ⟨sport, rfl⟩
  | cons port ports ih =>
    rw [List.foldlM_cons, FrameHeader.setSrcPort_eq]
    exact ih port

/-- The incremental checksum is the full one: for all endpoints, every payload that fits a UDP datagram
and every buffer with room for the header, after `write_header` and any later calls of `set_src_port`
the IPv4 header verifies, its checksum field is the complement of the folded sum of its ten words, both
lengths are right, and nothing has overflown. -/
theorem incremental_checksum_valid (e : Endpoints) (dnsLen : ℕ) (hlen : dnsLen ≤ 65507)
    (out : List UInt8) (hout : (FrameHeader.newWithVlan e).outer ≤ out.length) :
    NoOverflow (FrameHeader.newWithVlan e) dnsLen ∧
      ∃ frame, (FrameHeader.newWithVlan e).writeHeader out dnsLen
          = .ok (frame, (FrameHeader.newWithVlan e).outer + dnsLen) ∧
        HeaderSound (FrameHeader.newWithVlan e).l2 dnsLen frame ∧
        ∀ ports : List UInt16, ∃ frame',
          ports.foldlM (FrameHeader.newWithVlan e).setSrcPort frame = .ok frame' ∧
          HeaderSound (FrameHeader.newWithVlan e).l2 dnsLen frame' := by
  have hsound := headerSound_wireHeader e hlen e.srcPort (out.drop (FrameHeader.newWithVlan e).outer)
  refine ⟨noOverflow e hlen, _, FrameHeader.writeHeader_eq e hout dnsLen, hsound, ?_⟩
  -- a later port is one more way to fill the same header
  intro ports
  obtain ⟨port, hports⟩ := foldlM_setSrcPort e ports (FrameHeader.ipTot dnsLen)
    ((FrameHeader.newWithVlan e).cksum dnsLen) e.srcPort (FrameHeader.udpLen dnsLen)
    (out.drop (FrameHeader.newWithVlan e).outer)
  exact ⟨_, hports, headerSound_wireHeader e hlen port _⟩

/-- The endpoints with all address and port bits set, in a tagged VLAN. -/
def allOnes : Endpoints :=
  ⟨fun _ => 0xff, fun _ => 0xff, fun _ => 0xff, fun _ => 0xff, 0xffff, 53, some 0xfff⟩

/-- The largest datagram between them. -/
theorem incremental_checksum_allOnes :
    ∃ frame, (FrameHeader.newWithVlan allOnes).writeHeader (List.replicate 46 0xff) 65507
        = .ok (frame, 65553) ∧ be16 frame 20 = 65535 ∧
      ipv4Checksum ((frame.drop 18).take ipv4Hdr) = 0 := by
  obtain ⟨-, frame, hwrite, hsound, -⟩ := incremental_checksum_valid allOnes 65507 (by decide)
    (List.replicate 46 0xff) (by decide)
  exact ⟨frame, hwrite, hsound.totalLength, hsound.verifies⟩

end Dnsmark.Xdp
