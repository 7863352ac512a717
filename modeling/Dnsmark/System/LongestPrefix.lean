import Dnsmark.System.Routes

/-!
# Longest-prefix match

What `iface_for_ipv4` computes, said in network order.  The table's columns are the octets of an address
read as a little-endian number, and the program compares them as they stand, with the target swapped
instead.  Swapping is a permutation of the octets: it commutes with masking (`covers_iff`) and keeps the
number of set bits (`maskBits_eq`), so the comparison is the one of the addresses themselves.
-/

namespace Dnsmark.Routes

namespace Row

/-- The destination of a row, its first octet the most significant one. -/
def net (r : Row) : BitVec 32 := swapBytes r.dest

/-- The mask of a row. -/
def netmask (r : Row) : BitVec 32 := swapBytes r.mask

/-- The masked destination is the masked target. -/
def Covers (r : Row) (target : BitVec 32) : Prop := target &&& r.netmask = r.net &&& r.netmask

/-- The number of set bits of the mask. -/
def maskBits (r : Row) : ℕ := r.netmask.cpop.toNat

end Row

/-- `r` is the best route to the target: among the rows that cover it, its mask has the most bits, and
it is the first of those. -/
def BestRoute (target : BitVec 32) (rows : List Row) (r : Row) : Prop :=
  ∃ before after, rows = before ++ r :: after ∧ r.Covers target ∧
    (∀ q ∈ before, q.Covers target → q.maskBits < r.maskBits) ∧
    ∀ q ∈ after, q.Covers target → q.maskBits ≤ r.maskBits

/-! ## Byte order -/

/-- A word is its octets. -/
theorem eq_append_octets (x : BitVec 32) :
    x = x.extractLsb' 24 8 ++ x.extractLsb' 16 8 ++ x.extractLsb' 8 8 ++ x.extractLsb' 0 8 := by
  apply BitVec.eq_of_getLsbD_eq
  intro i hi
  simp only [BitVec.getLsbD_append, BitVec.getLsbD_extractLsb']
  interval_cases i <;> rfl

/-- Swapping the octets keeps the number of set bits. -/
theorem cpop_swapBytes (x : BitVec 32) : (swapBytes x).cpop.toNat = x.cpop.toNat := by
  have hsum := congrArg (fun y => y.cpop.toNat) (eq_append_octets x)
  simp only [BitVec.toNat_cpop_append] at hsum
  rw [swapBytes, BitVec.toNat_cpop_append, BitVec.toNat_cpop_append, BitVec.toNat_cpop_append, hsum]
  omega

namespace Row

theorem covers_iff (r : Row) (target : BitVec 32) : r.Covers target ↔ r.Matches target :=
  r.matches_iff target

theorem maskBits_eq (r : Row) : r.maskBits = r.prefixLen := cpop_swapBytes r.mask

end Row

theorem bestRoute_iff (target : BitVec 32) (rows : List Row) (r : Row) :
    BestRoute target rows r ↔ Longest target rows r := by
  simp only [BestRoute, Longest, Row.covers_iff, Row.maskBits_eq]

/-! ## The lookup -/

/-- For every well-formed table and every target, `iface_for_ipv4` returns the interface of the row with
the longest mask among those that cover the target, the first one on ties, and nothing exactly when no
row covers it. -/
theorem longest_prefix_match (content : Text) (rows : List Row) (hrows : rowsOf content = some rows)
    (target : BitVec 32) :
    (∀ iface, ifaceForIpv4 (some content) target = some iface ↔
        ∃ r, BestRoute target rows r ∧ r.iface = iface) ∧
      (ifaceForIpv4 (some content) target = none ↔ ∀ r ∈ rows, ¬ r.Covers target) := by
  simp only [bestRoute_iff, Row.covers_iff]
  obtain ⟨best, hipv4, htracks⟩ := ifaceForIpv4_eq hrows target
  rw [hipv4]
  cases best with
  | none =>
    -- nothing was found, and every row has been looked at
    refine ⟨fun iface => iff_of_false (Option.some_ne_none iface).symm ?_, iff_of_true rfl htracks⟩
    rintro ⟨r, ⟨before, after, rfl, hmatch, -⟩, -⟩
    exact htracks r (by simp) hmatch
  | some best =>
    obtain ⟨longest, hlongest, -, hiface⟩ := htracks
    refine ⟨fun iface => ?_, iff_of_false (Option.some_ne_none best.2) ?_⟩
    · rw [Option.map_some, Option.some.injEq, ← hiface]
      constructor
      · rintro rfl
        exact ⟨longest, hlongest, rfl⟩
      · rintro ⟨r, hr, rfl⟩
        rw [hlongest.unique hr]
    · intro hnone
      obtain ⟨before, after, rfl, hmatch, -⟩ := hlongest
      exact hnone longest (by simp) hmatch

/-- The net `10.0.0.0/8` by one NIC, and `10.1.0.0/16` inside of it by two others. -/
def equalNets : Text :=
  "Iface\n".toList ++ "eth0 0000000A 00000000 1 0 0 0 000000FF\n".toList
    ++ "eth1 0000010A 00000000 1 0 0 0 0000FFFF\neth2 0000010A 00000000 1 0 0 0 0000FFFF\n".toList

/-- The target `10.1.2.3` leaves by the first of the two longest, and `11.0.0.1` by none. -/
theorem longest_prefix_match_equalNets :
    ifaceForIpv4 (some equalNets) 0x0a010203 = some ['e', 't', 'h', '1'] ∧
      ifaceForIpv4 (some equalNets) 0x0b000001 = none := by
  have hrows : rowsOf equalNets = some [⟨['e', 't', 'h', '0'], 0x0a, 0xff⟩,
      ⟨['e', 't', 'h', '1'], 0x010a, 0xffff⟩, ⟨['e', 't', 'h', '2'], 0x010a, 0xffff⟩] := by
    decide +kernel
  constructor
  · apply ((longest_prefix_match equalNets _ hrows 0x0a010203).1 _).mpr
    refine ⟨⟨['e', 't', 'h', '1'], 0x010a, 0xffff⟩, ⟨[_], [_], rfl, ?_, ?_, ?_⟩, rfl⟩
    · unfold Row.Covers
      decide +kernel
    · unfold Row.Covers
      decide +kernel
    · unfold Row.Covers
      decide +kernel
  · apply (longest_prefix_match equalNets _ hrows 0x0b000001).2.mpr
    unfold Row.Covers
    decide +kernel

end Dnsmark.Routes
