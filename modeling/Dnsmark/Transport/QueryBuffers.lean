import Dnsmark.Query.Source
import Dnsmark.Xdp.Frame
import Dnsmark.Xdp.Umem

/-!
# The buffers the queries are written to

The senders copy a template to a slot of `MAX_QUERY` octets (`src/transport/udp.rs`, and the paced AF_XDP
sender), or straight into a UMEM frame behind the Ethernet, IPv4 and UDP headers
(`src/transport/xdp/receiver.rs`).  A template that is longer is an out-of-bounds slice, which aborts a
release build.

A slot is the smallest of these buffers, so everything depends on `17 + labelOctets name ≤ 512`; no step
between the query file and the slot checks that.
-/

namespace Dnsmark

open Dnsmark.Xdp

/-- `MAX_QUERY`. -/
def maxQuery : ℕ := 512

/-- The frame write of `xdp_unified_worker` and of `xdp_tx_batch`: the query behind the header, the header,
and the source port if the sender spreads it. -/
def stampFrame (pool : WireQueryPool) (hdr : FrameHeader) (tmplIdx : ℕ) (id : UInt16)
    (sport : Option UInt16) (frame : List UInt8) : Except OutOfBounds (List UInt8 × ℕ) := do
  let payload ← Slice.suffix frame hdr.outer
  let written ← pool.writeWithIndex tmplIdx id payload
  let stamped ← hdr.writeHeader (frame.take hdr.outer ++ written.1) written.2
  match sport with
  | some port =>
    let frame ← hdr.setSrcPort stamped.1 port
    return (frame, stamped.2)
  | none => return stamped

/-- The paced AF_XDP sender: the query in a slot, and from there into a frame (`xdp_tx_one`). -/
def sendOne (pool : WireQueryPool) (hdr : FrameHeader) (tmplIdx : ℕ) (id : UInt16)
    (singleBuf frame : List UInt8) : Except OutOfBounds (List UInt8 × ℕ) := do
  let written ← pool.writeWithIndex tmplIdx id singleBuf
  hdr.writeFrame frame (written.1.take written.2)

/-- Every template fits every buffer, and no write is out of bounds. -/
structure BuffersFit (pool : WireQueryPool) : Prop where
  slot : ∀ tmpl ∈ pool.templates, tmpl.length ≤ maxQuery
  frame : ∀ e, ∀ tmpl ∈ pool.templates,
    (FrameHeader.newWithVlan e).outer + tmpl.length ≤ frameSize
  writeSlot : ∀ tmplIdx id buf, buf.length = maxQuery →
    ∃ r, pool.writeWithIndex tmplIdx id buf = .ok r
  writeFrame : ∀ e tmplIdx id sport buf, buf.length = frameSize →
    ∃ r, stampFrame pool (FrameHeader.newWithVlan e) tmplIdx id sport buf = .ok r
  writeBoth : ∀ e tmplIdx id buf frame, buf.length = maxQuery → frame.length = frameSize →
    ∃ r, sendOne pool (FrameHeader.newWithVlan e) tmplIdx id buf frame = .ok r

/-- No name of the source has more octets than a slot has room for. -/
def QueryArgs.NamesFit : QueryArgs → Prop
  | file _ content => ∀ line ∈ (content.map queryLines).getD [],
      labelOctets (QueryEntry.ofLine line).name ≤ 495
  | random domain _ => labelOctets domain ≤ 462

/-! ## Writes -/

/-- A template that fits is copied, and the buffer keeps its length. -/
theorem WireQueryPool.writeWithIndex_eq_ok (pool : WireQueryPool) (tmplIdx : ℕ) (id : UInt16)
    {buf : List UInt8} (hbuf : 2 ≤ buf.length)
    (hfit : ∀ tmpl ∈ pool.templates, tmpl.length ≤ buf.length) :
    ∃ buf' tmpl, pool.writeWithIndex tmplIdx id buf = .ok (buf', tmpl.length) ∧
      buf'.length = buf.length ∧ tmpl ∈ pool.templates := by
  have hidx : tmplIdx % pool.templates.length < pool.templates.length :=
    Nat.mod_lt _ (List.length_pos_of_ne_nil pool.templates_ne_nil)
  obtain ⟨tmpl, htmpl⟩ : ∃ tmpl, pool.templates[tmplIdx % pool.templates.length]? = some tmpl :=
    ⟨_, List.getElem?_eq_getElem hidx⟩
  have hmem := List.mem_of_getElem? htmpl
  have hlen := hfit tmpl hmem
  have hget : Slice.get pool.templates (tmplIdx % pool.templates.length) = .ok tmpl := by
    rw [Slice.get, htmpl]
  have hlength : (Slice.overwrite buf 0 tmpl).length = buf.length := by
    rw [Slice.overwrite_zero, List.length_append, List.length_drop]
    omega
  refine ⟨((Slice.overwrite buf 0 tmpl).set 0 (id >>> 8).toUInt8).set 1 id.toUInt8, tmpl, ?_,
    by simp [hlength], hmem⟩
  simp only [writeWithIndex, hget, bind, Except.bind]
  rw [Slice.copyFromSlice_eq_ok (by omega)]
  simp only [Slice.set, List.length_set, hlength, show 0 < buf.length by omega,
    show 1 < buf.length by omega, if_true]
  rfl

/-- A template that does not fit is a panic. -/
theorem WireQueryPool.writeWithIndex_eq_error (pool : WireQueryPool) (tmplIdx : ℕ) (id : UInt16)
    {buf tmpl : List UInt8}
    (htmpl : pool.templates[tmplIdx % pool.templates.length]? = some tmpl)
    (hlong : buf.length < tmpl.length) :
    pool.writeWithIndex tmplIdx id buf = .error ⟨tmpl.length, buf.length⟩ := by
  have hget : Slice.get pool.templates (tmplIdx % pool.templates.length) = .ok tmpl := by
    rw [Slice.get, htmpl]
  simp only [writeWithIndex, hget, bind, Except.bind, Slice.copyFromSlice]
  rw [if_neg (by omega), Nat.zero_add]

/-- A frame's header has at most 46 octets. -/
theorem outer_le (e : Endpoints) : (FrameHeader.newWithVlan e).outer ≤ outerHdrMax := by
  rw [FrameHeader.outer_eq, FrameHeader.l2_eq, Endpoints.tag]
  cases e.vlan with
  | none => decide
  | some vid => exact Nat.le_refl 46

/-- A frame is stamped where the template fits behind the header. -/
theorem stampFrame_eq_ok (pool : WireQueryPool) (e : Endpoints) (tmplIdx : ℕ) (id : UInt16)
    (sport : Option UInt16) {frame : List UInt8} (hframe : frame.length = frameSize)
    (hfit : ∀ tmpl ∈ pool.templates, (FrameHeader.newWithVlan e).outer + tmpl.length ≤ frameSize) :
    ∃ r, stampFrame pool (FrameHeader.newWithVlan e) tmplIdx id sport frame = .ok r := by
  have houter := outer_le e
  have hroom : (FrameHeader.newWithVlan e).outer + 2 ≤ frame.length := by
    simp only [outerHdrMax, frameSize] at houter hframe
    omega
  have hsuffix : Slice.suffix frame (FrameHeader.newWithVlan e).outer
      = .ok (frame.drop (FrameHeader.newWithVlan e).outer) := Slice.suffix_eq_ok (by omega)
  have hbuf : 2 ≤ (frame.drop (FrameHeader.newWithVlan e).outer).length := by
    rw [List.length_drop]
    omega
  obtain ⟨payload, tmpl, hwrite, hpayload, -⟩ :=
    pool.writeWithIndex_eq_ok tmplIdx id hbuf fun tmpl hmem => by
      have := hfit tmpl hmem
      rw [List.length_drop]
      omega
  have hout : (FrameHeader.newWithVlan e).outer
      ≤ (frame.take (FrameHeader.newWithVlan e).outer ++ payload).length := by
    rw [List.length_append, List.length_take]
    omega
  simp only [stampFrame, hsuffix, hwrite, FrameHeader.writeHeader_eq e hout tmpl.length, bind,
    Except.bind]
  cases sport with
  | none => exact ⟨_, rfl⟩
  | some port =>
    simp only [FrameHeader.setSrcPort_eq]
    exact ⟨_, rfl⟩

/-- The paced sender needs room in the slot and in the frame. -/
theorem sendOne_eq_ok (pool : WireQueryPool) (e : Endpoints) (tmplIdx : ℕ) (id : UInt16)
    {buf frame : List UInt8} (hbuf : buf.length = maxQuery) (hframe : frame.length = frameSize)
    (hslot : ∀ tmpl ∈ pool.templates, tmpl.length ≤ maxQuery)
    (hfit : ∀ tmpl ∈ pool.templates, (FrameHeader.newWithVlan e).outer + tmpl.length ≤ frameSize) :
    ∃ r, sendOne pool (FrameHeader.newWithVlan e) tmplIdx id buf frame = .ok r := by
  obtain ⟨written, tmpl, hwrite, hlength, hmem⟩ :=
    pool.writeWithIndex_eq_ok tmplIdx id (hbuf ▸ by decide) fun tmpl hmem => hbuf ▸ hslot tmpl hmem
  have hout : (FrameHeader.newWithVlan e).outer + (written.take tmpl.length).length ≤ frame.length := by
    have := hfit tmpl hmem
    rw [List.length_take]
    omega
  simp only [sendOne, hwrite, bind, Except.bind]
  exact ⟨_, FrameHeader.writeFrame_eq e hout⟩

/-- Every buffer is large enough exactly when a slot is. -/
theorem buffersFit_iff (pool : WireQueryPool) :
    BuffersFit pool ↔ ∀ tmpl ∈ pool.templates, tmpl.length ≤ maxQuery := by
  refine ⟨BuffersFit.slot, fun hslot => ?_⟩
  have hframe : ∀ e, ∀ tmpl ∈ pool.templates,
      (FrameHeader.newWithVlan e).outer + tmpl.length ≤ frameSize := by
    intro e tmpl hmem
    have houter := outer_le e
    have hlen := hslot tmpl hmem
    simp only [outerHdrMax, maxQuery, frameSize] at *
    omega
  constructor
  · exact hslot
  · exact hframe
  · intro tmplIdx id buf hbuf
    obtain ⟨buf', tmpl, hwrite, -⟩ := pool.writeWithIndex_eq_ok tmplIdx id (hbuf ▸ by decide)
      fun tmpl hmem => hbuf ▸ hslot tmpl hmem
    exact ⟨_, hwrite⟩
  · intro e tmplIdx id sport buf hbuf
    exact stampFrame_eq_ok pool e tmplIdx id sport hbuf (hframe e)
  · intro e tmplIdx id buf frame hbuf hframe'
    exact sendOne_eq_ok pool e tmplIdx id hbuf hframe' hslot (hframe e)

/-! ## From the arguments to the buffers -/

/-- The assertion of `from_pairs` holds of every source. -/
theorem exists_pool (source : QuerySource) (rand : Fin 4096 → BitVec 128) :
    ∃ pool, WireQueryPool.fromPairs (source.allWirePairs rand) = .ok pool :=
  ⟨_, dif_pos (source.allWirePairs_ne_nil rand)⟩

/-- The templates of a pool. -/
theorem WireQueryPool.templates_of_fromPairs {entries : List (String × UInt16)} {pool : WireQueryPool}
    (h : fromPairs entries = .ok pool) :
    pool.templates = entries.map fun (name, qtype) => buildWireTemplate name qtype := by
  unfold fromPairs at h
  split at h
  · obtain rfl := Except.ok.inj h
    rfl
  · exact nomatch h

/-- The pool's templates fit a slot exactly when the names fit. -/
theorem forall_templates_iff {entries : List (String × UInt16)} {pool : WireQueryPool}
    (h : WireQueryPool.fromPairs entries = .ok pool) :
    (∀ tmpl ∈ pool.templates, tmpl.length ≤ maxQuery) ↔
      ∀ entry ∈ entries, labelOctets entry.1 ≤ 495 := by
  rw [WireQueryPool.templates_of_fromPairs h, List.forall_mem_map]
  apply forall₂_congr
  intro entry _
  rw [length_buildWireTemplate, maxQuery]
  omega

/-- The names of a source fit exactly when the arguments say so. -/
theorem forall_allWirePairs_iff {args : QueryArgs} {source : QuerySource}
    (h : args.source = .ok source) (rand : Fin 4096 → BitVec 128) :
    (∀ entry ∈ source.allWirePairs rand, labelOctets entry.1 ≤ 495) ↔ args.NamesFit := by
  cases args with
  | file path content =>
    cases content with
    | none => cases h
    | some content =>
      simp only [QueryArgs.source, FileQuerySource.load] at h
      split at h
      · obtain rfl := Except.ok.inj h
        simp only [QuerySource.allWirePairs, List.forall_mem_map]
        rfl
      · cases h
  | random domain qtype =>
    obtain rfl := Except.ok.inj h
    have hname : ∀ i, labelOctets ((RandomQuerySource.new domain qtype).name (rand i))
        = 33 + labelOctets domain := by
      intro i
      rw [RandomQuerySource.labelOctets_name, RandomQuerySource.new, labelOctets_trimEndDots]
    simp only [QuerySource.allWirePairs, List.forall_mem_ofFn_iff, hname, QueryArgs.NamesFit]
    constructor
    · intro hall
      have := hall 0
      omega
    · intro hdomain i
      omega

/-- For every query file that is accepted and every random base domain, whatever the random bits: all
templates fit all buffers, and no write is out of bounds, exactly when each name has at most 495 octets
with the length octets of its labels, a base domain at most 462. -/
theorem buffers_fit_iff_names_fit (args : QueryArgs) (source : QuerySource)
    (hsource : args.source = .ok source) (rand : Fin 4096 → BitVec 128) (pool : WireQueryPool)
    (hpool : WireQueryPool.fromPairs (source.allWirePairs rand) = .ok pool) :
    BuffersFit pool ↔ args.NamesFit := by
  rw [buffersFit_iff, forall_templates_iff hpool, forall_allWirePairs_iff hsource]

/-- A query file of one name of 495 octets. -/
def longName : Text := List.replicate 495 'a'

theorem labelOctets_longName : labelOctets (QueryEntry.ofLine longName).name = 496 := by
  have hparts : Text.splitWhitespace longName = [longName] := by decide +kernel
  have hname : (QueryEntry.ofLine longName).name = String.ofList longName := by
    simp only [QueryEntry.ofLine, hparts]
    rfl
  rw [hname, labelOctets_ofList (by decide +kernel) (by decide +kernel)]
  decide +kernel

/-- The file is accepted, its template has 513 octets, and the first write to a slot is out of bounds. -/
theorem buffers_of_longName :
    ∃ source pool, (QueryArgs.file "queries.txt" (some longName)).source = .ok source ∧
      WireQueryPool.fromPairs (source.allWirePairs fun _ => 0) = .ok pool ∧
      pool.templates.map List.length = [513] ∧ ¬ BuffersFit pool ∧
      pool.writeWithIndex 0 0 (List.replicate maxQuery 0) = .error ⟨513, 512⟩ := by
  have hlines : queryLines longName = [longName] := by decide +kernel
  have hne : queryLines longName ≠ [] := by simp [hlines]
  obtain ⟨file, hsource, hentries⟩ := QueryArgs.source_file "queries.txt" hne
  obtain ⟨pool, hpool⟩ := exists_pool (.file file) fun _ => 0
  have htemplates : pool.templates = [buildWireTemplate (QueryEntry.ofLine longName).name
      (QueryEntry.ofLine longName).qtype] := by
    rw [WireQueryPool.templates_of_fromPairs hpool, QuerySource.allWirePairs, hentries, hlines]
    rfl
  have hlength := length_buildWireTemplate (QueryEntry.ofLine longName).name
    (QueryEntry.ofLine longName).qtype
  rw [labelOctets_longName] at hlength
  refine ⟨_, pool, hsource, hpool, ?_, ?_, ?_⟩
  · rw [htemplates, List.map_singleton, hlength]
  · rw [buffersFit_iff, htemplates, List.forall_mem_singleton, hlength]
    decide
  · rw [pool.writeWithIndex_eq_error 0 0 (by rw [htemplates]; rfl)
      (by rw [hlength, List.length_replicate]; decide), hlength, List.length_replicate]
    rfl

/-- A query file of two lines and a comment. -/
def smallFile : Text := "# names\nexample.com A\nwww.example.com. aaaa\n".toList

/-- Its queries fit. -/
theorem buffers_of_smallFile :
    ∃ source pool, (QueryArgs.file "queries.txt" (some smallFile)).source = .ok source ∧
      WireQueryPool.fromPairs (source.allWirePairs fun _ => 0) = .ok pool ∧ BuffersFit pool := by
  obtain ⟨file, hsource, -⟩ := QueryArgs.source_file "queries.txt"
    (show queryLines smallFile ≠ [] by decide +kernel)
  obtain ⟨pool, hpool⟩ := exists_pool (.file file) fun _ => 0
  refine ⟨_, pool, hsource, hpool, ?_⟩
  apply (buffers_fit_iff_names_fit (.file "queries.txt" (some smallFile)) (.file file) hsource
    (fun _ => 0) pool hpool).mpr
  simp only [QueryArgs.NamesFit, Option.map_some, Option.getD_some]
  decide +kernel

end Dnsmark
