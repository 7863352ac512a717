import Dnsmark.Common.Slice
import Dnsmark.Common.Text
import Mathlib.Logic.Function.Basic
import Mathlib.Tactic.IntervalCases

/-!
# Which interface a target is routed by

`/proc/net/route` is read twice.  `iface_for_addr` of `src/autodetect.rs` decides which NIC a target is
checked, pinned and reported with; `iface_for_ipv4` of `src/transport/xdp/socket.rs` decides which NIC
the AF_XDP sockets are bound to.  The kernel prints an address as the hexadecimal value of its four
octets in memory, so on a little-endian machine the program swaps them: one function the table's columns,
the other the target.

Of the rows that match a target `iface_for_addr` takes the first one that is not a default route, or
else the last default route.  `iface_for_ipv4` takes the first of the longest.
-/

namespace Dnsmark.Routes

/-- `u32::swap_bytes`, which is `u32::from_be` on a little-endian machine. -/
def swapBytes (x : BitVec 32) : BitVec 32 :=
  x.extractLsb' 0 8 ++ x.extractLsb' 8 8 ++ x.extractLsb' 16 8 ++ x.extractLsb' 24 8

/-- `std::net::IpAddr`, its first octet the most significant one. -/
inductive IpAddr where
  | v4 (a : BitVec 32)
  | v6 (a : BitVec 128)
deriving DecidableEq, Repr

/-- `IpAddr::is_loopback`: `127.0.0.0/8` and `::1`. -/
def IpAddr.isLoopback : IpAddr → Bool
  | v4 a => a.extractLsb' 24 8 == 127
  | v6 a => a == 1

/-- `u32::from_str_radix(_, 16)`. -/
def hexU32 (s : Text) : Option (BitVec 32) :=
  (Text.fromStrRadix 16 (2 ^ 32) s).map (BitVec.ofNat 32)

/-- The loop of `iface_for_addr`.  A line of four to seven columns is a panic. -/
def scanFirst (v4 : BitVec 32) : List Text → Option Text → Except OutOfBounds (Option Text)
  | [], defaultIface => .ok defaultIface
  | line :: lines, defaultIface =>
    let cols := Text.splitWhitespace line
    if cols.length < 4 then scanFirst v4 lines defaultIface
    else do
      let iface ← Slice.get cols 0
      let dest := swapBytes ((hexU32 (← Slice.get cols 1)).getD (BitVec.allOnes 32))
      let mask := swapBytes ((hexU32 (← Slice.get cols 7)).getD 0)
      if dest = 0 ∧ mask = 0 then scanFirst v4 lines (some iface)
      else if v4 &&& mask = dest &&& mask then .ok (some iface)
      else scanFirst v4 lines defaultIface

/-- `iface_for_addr`, with the text of `/proc/net/route` unless it could not be read. -/
def ifaceForAddr (procNetRoute : Option Text) (addr : IpAddr) : Except OutOfBounds (Option Text) :=
  match procNetRoute with
  | none => .ok none
  | some content =>
    if addr.isLoopback then .ok none
    else
      match addr with
      | .v4 a => scanFirst a (content.lines.drop 1) none
      | .v6 _ => .ok none

/-- The update of `best`: a longer prefix replaces the one found before. -/
def keepLonger (best : Option (ℕ × Text)) (prefixLen : ℕ) (iface : Text) : Option (ℕ × Text) :=
  match best with
  | none => some (prefixLen, iface)
  | some (len, _) => if prefixLen > len then some (prefixLen, iface) else best

/-- The loop of `iface_for_ipv4`.  A line it cannot parse makes it give up. -/
def scanLongest (target : BitVec 32) :
    List Text → Option (ℕ × Text) → Option (Option (ℕ × Text))
  | [], best => some best
  | line :: lines, best => do
    let cols := Text.splitWhitespace line
    let iface ← cols[0]?
    let dest ← cols[1]?.bind hexU32
    let mask ← cols[7]?.bind hexU32
    if target &&& mask = dest &&& mask then
      scanLongest target lines (keepLonger best mask.cpop.toNat iface)
    else scanLongest target lines best

/-- `iface_for_ipv4`. -/
def ifaceForIpv4 (procNetRoute : Option Text) (target : BitVec 32) : Option Text := do
  let content ← procNetRoute
  let best ← scanLongest (swapBytes target) (content.lines.drop 1) none
  best.map Prod.snd

/-! ## The table -/

/-- The columns of a line that are read, as they stand in the table. -/
structure Row where
  iface : Text
  dest : BitVec 32
  mask : BitVec 32
deriving DecidableEq, Repr

namespace Row

/-- The row of a line with all its columns. -/
def ofLine (line : Text) : Option Row :=
  match Text.splitWhitespace line with
  | iface :: dest :: _ :: _ :: _ :: _ :: _ :: mask :: _ => do
    return ⟨iface, ← hexU32 dest, ← hexU32 mask⟩
  | _ => none

/-- The row is a route to the target. -/
def Matches (r : Row) (target : BitVec 32) : Prop :=
  swapBytes target &&& r.mask = r.dest &&& r.mask

instance (r : Row) (target : BitVec 32) : Decidable (r.Matches target) :=
  inferInstanceAs (Decidable (_ = _))

/-- The row is a default route. -/
def IsDefault (r : Row) : Prop := r.dest = 0 ∧ r.mask = 0

instance (r : Row) : Decidable r.IsDefault := inferInstanceAs (Decidable (_ ∧ _))

/-- `mask.count_ones()`. -/
def prefixLen (r : Row) : ℕ := r.mask.cpop.toNat

end Row

/-- The rows of a table, if every line behind the header has all its columns. -/
def rowsOf (content : Text) : Option (List Row) := (content.lines.drop 1).mapM Row.ofLine

/-- `r` is the first row that matches and is not a default route. -/
def FirstSpecific (target : BitVec 32) (rows : List Row) (r : Row) : Prop :=
  ∃ before after, rows = before ++ r :: after ∧ r.Matches target ∧ ¬ r.IsDefault ∧
    ∀ q ∈ before, q.Matches target → q.IsDefault

/-- `r` is the first of the longest rows that match. -/
def Longest (target : BitVec 32) (rows : List Row) (r : Row) : Prop :=
  ∃ before after, rows = before ++ r :: after ∧ r.Matches target ∧
    (∀ q ∈ before, q.Matches target → q.prefixLen < r.prefixLen) ∧
    ∀ q ∈ after, q.Matches target → q.prefixLen ≤ r.prefixLen

/-- The default routes, in the order of the table. -/
def defaults (rows : List Row) : List Row := rows.filter (·.IsDefault)

/-- Row order does not matter for the target: its first specific route leaves by the interface of its
longest one, and where it has only default routes, the first and the last of them leave by the same. -/
structure OrderFree (target : BitVec 32) (rows : List Row) : Prop where
  specific : ∀ r r', FirstSpecific target rows r → Longest target rows r' → r.iface = r'.iface
  default : (∀ r ∈ rows, r.Matches target → r.IsDefault) →
    (defaults rows).head?.map Row.iface = (defaults rows).getLast?.map Row.iface

/-! ## Both loops, row by row -/

theorem swapBytes_and (x y : BitVec 32) : swapBytes (x &&& y) = swapBytes x &&& swapBytes y := by
  simp only [swapBytes, BitVec.extractLsb'_and]
  rw [← BitVec.and_append, ← BitVec.and_append, ← BitVec.and_append]

theorem getLsbD_swapBytes (x : BitVec 32) {i : ℕ} (hi : i < 32) :
    (swapBytes x).getLsbD i = x.getLsbD (24 - i / 8 * 8 + i % 8) := by
  simp only [swapBytes, BitVec.getLsbD_append, BitVec.getLsbD_extractLsb']
  interval_cases i <;> rfl

theorem swapBytes_involutive : Function.Involutive swapBytes := by
  intro x
  apply BitVec.eq_of_getLsbD_eq
  intro i hi
  rw [getLsbD_swapBytes _ hi, getLsbD_swapBytes _ (by omega)]
  congr 1
  omega

theorem swapBytes_eq_zero_iff (x : BitVec 32) : swapBytes x = 0 ↔ x = 0 :=
  swapBytes_involutive.injective.eq_iff' rfl

namespace Row

/-- Swapping the columns or swapping the target is the same test. -/
theorem matches_iff (r : Row) (target : BitVec 32) :
    target &&& swapBytes r.mask = swapBytes r.dest &&& swapBytes r.mask ↔ r.Matches target := by
  rw [Matches, ← swapBytes_involutive.injective.eq_iff, swapBytes_and, swapBytes_and,
    swapBytes_involutive, swapBytes_involutive]

theorem IsDefault.matches {r : Row} (h : r.IsDefault) (target : BitVec 32) : r.Matches target := by
  rw [Matches, h.2]
  exact BitVec.and_zero.trans BitVec.and_zero.symm

theorem IsDefault.prefixLen_eq {r : Row} (h : r.IsDefault) : r.prefixLen = 0 := by
  rw [prefixLen, h.2]
  rfl

/-- The columns of a line that has a row. -/
theorem columns_of_ofLine {line : Text} {r : Row} (h : ofLine line = some r) :
    ∃ dest mask, hexU32 dest = some r.dest ∧ hexU32 mask = some r.mask ∧
      8 ≤ (Text.splitWhitespace line).length ∧
      (Text.splitWhitespace line)[0]? = some r.iface ∧
      (Text.splitWhitespace line)[1]? = some dest ∧ (Text.splitWhitespace line)[7]? = some mask := by
  unfold ofLine at h
  split at h
  · rename_i iface dest _ _ _ _ _ mask rest hcols
    obtain ⟨d, hd, h⟩ := Option.bind_eq_some_iff.mp h
    obtain ⟨m, hm, h⟩ := Option.bind_eq_some_iff.mp h
    obtain rfl := Option.some.inj h
    rw [hcols]
    exact ⟨dest, mask, hd, hm, by simp, rfl, rfl, rfl⟩
  · exact nomatch h

end Row

section Scan

variable {target : BitVec 32} {line : Text} {lines : List Text} {r : Row} {rows : List Row}

theorem scanFirst_cons (h : Row.ofLine line = some r) (defaultIface : Option Text) :
    scanFirst target (line :: lines) defaultIface =
      if r.IsDefault then scanFirst target lines (some r.iface)
      else if r.Matches target then .ok (some r.iface)
      else scanFirst target lines defaultIface := by
  obtain ⟨dest, mask, hdest, hmask, hlen, h0, h1, h7⟩ := Row.columns_of_ofLine h
  have hwide : ¬ (Text.splitWhitespace line).length < 4 := by omega
  simp only [scanFirst, hwide, if_false, Slice.get, h0, h1, h7, bind, Except.bind, hdest, hmask,
    Option.getD_some, swapBytes_eq_zero_iff, Row.matches_iff]
  rfl

theorem scanLongest_cons (h : Row.ofLine line = some r) (best : Option (ℕ × Text)) :
    scanLongest (swapBytes target) (line :: lines) best =
      scanLongest (swapBytes target) lines
        (if r.Matches target then keepLonger best r.prefixLen r.iface else best) := by
  obtain ⟨dest, mask, hdest, hmask, -, h0, h1, h7⟩ := Row.columns_of_ofLine h
  simp only [scanLongest, h0, h1, h7, bind, Option.bind, hdest, hmask]
  exact (apply_ite (scanLongest (swapBytes target) lines) (r.Matches target) _ best).symm

/-- A table is parsed line by line. -/
theorem mapM_ofLine_cons (h : (line :: lines).mapM Row.ofLine = some rows) :
    ∃ r rest, rows = r :: rest ∧ Row.ofLine line = some r ∧ lines.mapM Row.ofLine = some rest := by
  rw [List.mapM_cons] at h
  obtain ⟨r, hr, h⟩ := Option.bind_eq_some_iff.mp h
  obtain ⟨rest, hrest, h⟩ := Option.bind_eq_some_iff.mp h
  exact ⟨r, rest, (Option.some.inj h).symm, hr, hrest⟩

/-- The first specific route, or else the last default route, or else what was there before. -/
theorem scanFirst_eq (h : lines.mapM Row.ofLine = some rows) (defaultIface : Option Text) :
    scanFirst target lines defaultIface =
      .ok (((rows.find? fun r => r.Matches target ∧ ¬ r.IsDefault).map Row.iface).or
        (((defaults rows).getLast?.map Row.iface).or defaultIface)) := by
  induction lines generalizing rows defaultIface with
  | nil =>
    obtain rfl : [] = rows := Option.some.inj h
    rfl
  | cons line lines ih =>
    obtain ⟨r, rest, rfl, hline, hrest⟩ := mapM_ofLine_cons h
    rw [scanFirst_cons hline]
    by_cases hdefault : r.IsDefault
    · rw [if_pos hdefault, ih hrest]
      simp [defaults, hdefault, List.getLast?_cons, Option.or_some]
    · rw [if_neg hdefault]
      by_cases hmatch : r.Matches target
      · simp [hmatch, hdefault]
      · rw [if_neg hmatch, ih hrest]
        simp [defaults, hdefault, hmatch]

/-- What `best` says about the rows read so far. -/
def Tracks (target : BitVec 32) (rows : List Row) : Option (ℕ × Text) → Prop
  | none => ∀ r ∈ rows, ¬ r.Matches target
  | some (len, iface) => ∃ r, Longest target rows r ∧ r.prefixLen = len ∧ r.iface = iface

/-- One more row that does not match. -/
theorem Tracks.concat_of_not_matches {best : Option (ℕ × Text)} (h : Tracks target rows best)
    (hr : ¬ r.Matches target) : Tracks target (rows ++ [r]) best := by
  cases best with
  | none =>
    intro q hq
    obtain hq | hq := List.mem_append.mp hq
    · exact h q hq
    · rwa [List.mem_singleton.mp hq]
  | some best =>
    obtain ⟨longest, ⟨before, after, rfl, hmatch, hbefore, hafter⟩, hbest⟩ := h
    refine ⟨longest, ⟨before, after ++ [r], by simp, hmatch, hbefore, ?_⟩, hbest⟩
    intro q hq hqmatch
    obtain hq | hq := List.mem_append.mp hq
    · exact hafter q hq hqmatch
    · exact absurd (List.mem_singleton.mp hq ▸ hqmatch) hr

/-- One more row that matches. -/
theorem Tracks.concat_of_matches {best : Option (ℕ × Text)} (h : Tracks target rows best)
    (hr : r.Matches target) : Tracks target (rows ++ [r]) (keepLonger best r.prefixLen r.iface) := by
  cases best with
  | none =>
    refine ⟨r, ⟨rows, [], rfl, hr, ?_, by simp⟩, rfl, rfl⟩
    intro q hq hqmatch
    exact absurd hqmatch (h q hq)
  | some best =>
    obtain ⟨longest, ⟨before, after, rfl, hmatch, hbefore, hafter⟩, hlen, hiface⟩ := h
    simp only [keepLonger]
    split
    · -- longer than the longest so far, hence than every row that matched
      refine ⟨r, ⟨_, [], rfl, hr, ?_, by simp⟩, rfl, rfl⟩
      intro q hq hqmatch
      obtain hq | hq := List.mem_append.mp hq
      · have := hbefore q hq hqmatch
        omega
      · obtain rfl | hq := List.mem_cons.mp hq
        · omega
        · have := hafter q hq hqmatch
          omega
    · refine ⟨longest, ⟨before, after ++ [r], by simp, hmatch, hbefore, ?_⟩, hlen, hiface⟩
      intro q hq hqmatch
      obtain hq | hq := List.mem_append.mp hq
      · exact hafter q hq hqmatch
      · rw [List.mem_singleton.mp hq]
        omega

/-- The loop gives up on no line, and ends with the longest of all rows. -/
theorem scanLongest_tracks (h : lines.mapM Row.ofLine = some rows) {before : List Row}
    {best : Option (ℕ × Text)} (hbest : Tracks target before best) :
    ∃ best', scanLongest (swapBytes target) lines best = some best' ∧
      Tracks target (before ++ rows) best' := by
  induction lines generalizing rows before best with
  | nil =>
    obtain rfl : [] = rows := Option.some.inj h
    exact ⟨best, rfl, by rwa [List.append_nil]⟩
  | cons line lines ih =>
    obtain ⟨r, rest, rfl, hline, hrest⟩ := mapM_ofLine_cons h
    rw [scanLongest_cons hline, List.append_cons]
    apply ih hrest
    by_cases hmatch : r.Matches target
    · rw [if_pos hmatch]
      exact hbest.concat_of_matches hmatch
    · rw [if_neg hmatch]
      exact hbest.concat_of_not_matches hmatch

end Scan

/-! ## The two lookups -/

section Lookups

variable {target : BitVec 32} {rows : List Row} {r r' : Row}

theorem firstSpecific_iff :
    FirstSpecific target rows r ↔
      rows.find? (fun r => r.Matches target ∧ ¬ r.IsDefault) = some r := by
  rw [List.find?_eq_some_iff_append]
  constructor
  · rintro ⟨before, after, hrows, hmatch, hdefault, hbefore⟩
    refine ⟨by simp [hmatch, hdefault], before, after, hrows, ?_⟩
    intro q hq
    simpa [imp_iff_not_or] using hbefore q hq
  · rintro ⟨hr, before, after, hrows, hbefore⟩
    obtain ⟨hmatch, hdefault⟩ : r.Matches target ∧ ¬ r.IsDefault := by simpa using hr
    refine ⟨before, after, hrows, hmatch, hdefault, ?_⟩
    intro q hq
    simpa [imp_iff_not_or] using hbefore q hq

theorem Longest.unique (h : Longest target rows r) (h' : Longest target rows r') : r = r' := by
  obtain ⟨before, after, rfl, hmatch, hbefore, hafter⟩ := h
  obtain ⟨before', after', heq, hmatch', hbefore', hafter'⟩ := h'
  obtain ⟨as, rfl, hright⟩ | ⟨bs, rfl, hright⟩ := List.append_eq_append_iff.mp heq
  · cases as with
    | nil => exact (List.cons.inj hright).1
    | cons a as =>
      obtain ⟨rfl, rfl⟩ := List.cons.inj hright
      have hlt := hbefore' r (by simp) hmatch
      have hle := hafter r' (by simp) hmatch'
      omega
  · cases bs with
    | nil => exact (List.cons.inj hright).1.symm
    | cons b bs =>
      obtain ⟨rfl, rfl⟩ := List.cons.inj hright
      have hlt := hbefore r' (by simp) hmatch'
      have hle := hafter' r (by simp) hmatch
      omega

/-- Without a specific route the longest one is the first default route. -/
theorem longest_of_head_defaults (hall : ∀ r ∈ rows, r.Matches target → r.IsDefault)
    (hhead : (defaults rows).head? = some r) : Longest target rows r := by
  obtain ⟨rest, hdefaults⟩ := List.head?_eq_some_iff.mp hhead
  obtain ⟨before, after, rfl, hbefore, hr, -⟩ := List.filter_eq_cons_iff.mp hdefaults
  have hdefault : r.IsDefault := by simpa using hr
  refine ⟨before, after, rfl, hdefault.matches target, ?_, ?_⟩
  · intro q hq hmatch
    have hq' := hall q (by simp [hq]) hmatch
    exact absurd hq' (by simpa using hbefore q hq)
  · intro q hq hmatch
    rw [(hall q (by simp [hq]) hmatch).prefixLen_eq]
    exact Nat.zero_le _

theorem Tracks.map_snd {best : Option (ℕ × Text)} (h : Tracks target rows best)
    (hr : Longest target rows r) : best.map Prod.snd = some r.iface := by
  cases best with
  | none =>
    obtain ⟨before, after, rfl, hmatch, -⟩ := hr
    exact absurd hmatch (h r (by simp))
  | some best =>
    obtain ⟨longest, hlongest, -, hiface⟩ := h
    rw [hr.unique hlongest, hiface]
    rfl

theorem Tracks.exists_longest {best : Option (ℕ × Text)} (h : Tracks target rows best)
    (hmem : r ∈ rows) (hmatch : r.Matches target) : ∃ r', Longest target rows r' := by
  cases best with
  | none => exact absurd hmatch (h r hmem)
  | some best =>
    obtain ⟨longest, hlongest, -⟩ := h
    exact ⟨longest, hlongest⟩

/-- Without a specific route the loop ends with the first default route. -/
theorem Tracks.map_snd_of_defaults {best : Option (ℕ × Text)} (h : Tracks target rows best)
    (hall : ∀ r ∈ rows, r.Matches target → r.IsDefault) :
    best.map Prod.snd = (defaults rows).head?.map Row.iface := by
  cases hhead : (defaults rows).head? with
  | some d => exact h.map_snd (longest_of_head_defaults hall hhead)
  | none =>
    have hnil : defaults rows = [] := List.head?_eq_none_iff.mp hhead
    cases best with
    | none => rfl
    | some best =>
      obtain ⟨longest, ⟨before, after, rfl, hmatch, -⟩, -⟩ := h
      have hdefault := hall longest (by simp) hmatch
      have hmem : longest ∈ defaults (before ++ longest :: after) := by simp [defaults, hdefault]
      rw [hnil] at hmem
      exact absurd hmem List.not_mem_nil

/-- With a specific route only the first clause says something. -/
theorem orderFree_iff_of_specific (hfirst : FirstSpecific target rows r)
    (hlongest : Longest target rows r') : OrderFree target rows ↔ r.iface = r'.iface := by
  constructor
  · intro hfree
    exact hfree.specific r r' hfirst hlongest
  · intro hiface
    constructor
    · intro q q' hq hq'
      rw [firstSpecific_iff] at hfirst hq
      obtain rfl : r = q := Option.some.inj (hfirst.symm.trans hq)
      rwa [hq'.unique hlongest]
    · intro hall
      obtain ⟨before, after, rfl, hmatch, hspecific, -⟩ := hfirst
      exact absurd (hall r (by simp) hmatch) hspecific

/-- Without one, only the second. -/
theorem orderFree_iff_of_defaults (hall : ∀ r ∈ rows, r.Matches target → r.IsDefault) :
    OrderFree target rows ↔
      (defaults rows).head?.map Row.iface = (defaults rows).getLast?.map Row.iface := by
  constructor
  · intro hfree
    exact hfree.default hall
  · intro hiface
    refine ⟨?_, fun _ => hiface⟩
    rintro r r' ⟨before, after, rfl, hmatch, hspecific, -⟩ -
    exact absurd (hall r (by simp) hmatch) hspecific

theorem ifaceForAddr_eq {content : Text} (hrows : rowsOf content = some rows)
    (hloopback : (IpAddr.v4 target).isLoopback = false) :
    ifaceForAddr (some content) (.v4 target) =
      .ok (((rows.find? fun r => r.Matches target ∧ ¬ r.IsDefault).map Row.iface).or
        ((defaults rows).getLast?.map Row.iface)) := by
  simp only [ifaceForAddr, hloopback, Bool.false_eq_true, if_false]
  rw [scanFirst_eq hrows, Option.or_none]

theorem ifaceForIpv4_eq {content : Text} (hrows : rowsOf content = some rows) (target : BitVec 32) :
    ∃ best, ifaceForIpv4 (some content) target = best.map Prod.snd ∧ Tracks target rows best := by
  obtain ⟨best, hscan, hbest⟩ := scanLongest_tracks hrows
    (show Tracks target [] none from fun r hmem => absurd hmem List.not_mem_nil)
  refine ⟨best, ?_, hbest⟩
  simp only [ifaceForIpv4, hscan, bind, Option.bind]

theorem ifaceForIpv4_of_longest {content : Text} (hrows : rowsOf content = some rows)
    (hlongest : Longest target rows r) : ifaceForIpv4 (some content) target = some r.iface := by
  obtain ⟨best, hipv4, htracks⟩ := ifaceForIpv4_eq hrows target
  rw [hipv4, htracks.map_snd hlongest]

end Lookups

/-- For every table with all its columns and every IPv4 target outside of the loopback net: the two
lookups give the same result exactly when the order of the rows does not matter for the target. -/
theorem lookups_agree_iff (content : Text) (rows : List Row) (hrows : rowsOf content = some rows)
    (target : BitVec 32) (hloopback : (IpAddr.v4 target).isLoopback = false) :
    ifaceForAddr (some content) (.v4 target) = .ok (ifaceForIpv4 (some content) target) ↔
      OrderFree target rows := by
  obtain ⟨best, hipv4, htracks⟩ := ifaceForIpv4_eq hrows target
  rw [ifaceForAddr_eq hrows hloopback, hipv4, Except.ok.injEq]
  cases hfind : rows.find? fun r => r.Matches target ∧ ¬ r.IsDefault with
  | some r =>
    have hfirst := firstSpecific_iff.mpr hfind
    obtain ⟨before, after, hsplit, hmatch, -⟩ := id hfirst
    obtain ⟨r', hlongest⟩ := htracks.exists_longest (r := r) (by simp [hsplit]) hmatch
    rw [orderFree_iff_of_specific hfirst hlongest, htracks.map_snd hlongest, Option.map_some,
      Option.some_or, Option.some.injEq]
  | none =>
    have hall : ∀ r ∈ rows, r.Matches target → r.IsDefault := by
      intro r hmem
      simpa [imp_iff_not_or] using List.find?_eq_none.mp hfind r hmem
    rw [orderFree_iff_of_defaults hall, htracks.map_snd_of_defaults hall, Option.map_none,
      Option.none_or, eq_comm]

/-- The table's first line. -/
def header : Text :=
  "Iface\tDestination\tGateway \tFlags\tRefCnt".toList
    ++ "\tUse\tMetric\tMask\t\tMTU\tWindow\tIRTT\n".toList

/-- The net `10.0.0.0/8` by one NIC and the net `10.1.0.0/16` inside of it by another. -/
def nestedNets : Text :=
  header ++ "eth0\t0000000A\t00000000\t0001\t0\t0\t0\t000000FF\t0\t0\t0\n".toList
    ++ "eth1\t0000010A\t00000000\t0001\t0\t0\t0\t0000FFFF\t0\t0\t0\n".toList

/-- The rows of `nestedNets`. -/
def nestedNetsRows : List Row :=
  [⟨['e', 't', 'h', '0'], 0x0a, 0xff⟩, ⟨['e', 't', 'h', '1'], 0x010a, 0xffff⟩]

/-- The target `10.1.2.3` is checked and pinned as one of `eth0`, and sent to by `eth1`. -/
theorem lookups_of_nestedNets :
    rowsOf nestedNets = some nestedNetsRows ∧ (IpAddr.v4 0x0a010203).isLoopback = false ∧
      ifaceForAddr (some nestedNets) (.v4 0x0a010203) = .ok (some ['e', 't', 'h', '0']) ∧
      ifaceForIpv4 (some nestedNets) 0x0a010203 = some ['e', 't', 'h', '1'] ∧
      ifaceForAddr (some nestedNets) (.v4 0x0a010203)
        ≠ .ok (ifaceForIpv4 (some nestedNets) 0x0a010203) := by
  have hrows : rowsOf nestedNets = some nestedNetsRows := by decide +kernel
  have haddr : ifaceForAddr (some nestedNets) (.v4 0x0a010203) = .ok (some ['e', 't', 'h', '0']) :=
    ifaceForAddr_eq hrows rfl
  have hlongest : Longest 0x0a010203 nestedNetsRows ⟨['e', 't', 'h', '1'], 0x010a, 0xffff⟩ :=
    ⟨[_], [], rfl, by decide, by decide +kernel, by simp⟩
  have hipv4 := ifaceForIpv4_of_longest hrows hlongest
  refine ⟨hrows, rfl, haddr, hipv4, ?_⟩
  rw [haddr, hipv4]
  decide

/-- A default route by one NIC and the net `10.0.0.0/8` by another. -/
def twoNics : Text :=
  header ++ "eth0\t00000000\t0101A8C0\t0003\t0\t0\t100\t00000000\t0\t0\t0\n".toList
    ++ "eth1\t0000000A\t00000000\t0001\t0\t0\t0\t000000FF\t0\t0\t0\n".toList

/-- The rows of `twoNics`. -/
def twoNicsRows : List Row := [⟨['e', 't', 'h', '0'], 0, 0⟩, ⟨['e', 't', 'h', '1'], 0x0a, 0xff⟩]

/-- The target `10.1.2.3` leaves by `eth1` for both. -/
theorem lookups_of_twoNics :
    ifaceForAddr (some twoNics) (.v4 0x0a010203)
        = .ok (ifaceForIpv4 (some twoNics) 0x0a010203) ∧
      ifaceForIpv4 (some twoNics) 0x0a010203 = some ['e', 't', 'h', '1'] := by
  have hrows : rowsOf twoNics = some twoNicsRows := by decide +kernel
  have hfirst : FirstSpecific 0x0a010203 twoNicsRows ⟨['e', 't', 'h', '1'], 0x0a, 0xff⟩ :=
    firstSpecific_iff.mpr (by decide +kernel)
  have hlongest : Longest 0x0a010203 twoNicsRows ⟨['e', 't', 'h', '1'], 0x0a, 0xff⟩ :=
    ⟨[_], [], rfl, by decide, by decide +kernel, by simp⟩
  refine ⟨?_, ifaceForIpv4_of_longest hrows hlongest⟩
  apply (lookups_agree_iff twoNics twoNicsRows hrows 0x0a010203 (by decide)).mpr
  exact (orderFree_iff_of_specific hfirst hlongest).mpr rfl

end Dnsmark.Routes
