import Dnsmark.Dns.Query

/-!
# The pool of pre-built queries

`WireQueryPool` of `src/query/wire.rs`, the senders' hot path: every query is encoded once with the id 0,
and a send copies the template into a reused buffer and patches the id in.

The pool has its own encoder.  `buildWireTemplate_eq` compares it with `build_query`, and
`writeWithIndex_eq_buildQuery` the patched copy with a query that is encoded anew.
-/

namespace Dnsmark

/-- `build_wire_template`: the id is a placeholder.  Its bound of `MAX_QUERY` octets is a `debug_assert`,
which a release build does not have. -/
def buildWireTemplate (name : String) (qtype : UInt16) : List UInt8 :=
  let buf : List UInt8 := [0x00, 0x00]
  let buf := buf ++ u16ToBeBytes 0x0100 -- flags: RD
  let buf := buf ++ u16ToBeBytes 1 -- QDCOUNT
  let buf := buf ++ [0, 0, 0, 0, 0, 0]
  pushName buf name ++ u16ToBeBytes qtype ++ u16ToBeBytes 1

/-- The templates, of which there is at least one. -/
structure WireQueryPool where
  templates : List (List UInt8)
  templates_ne_nil : templates ≠ []

namespace WireQueryPool

theorem map_template_ne_nil {entries : List (String × UInt16)} (h : entries ≠ []) :
    entries.map (fun (name, qtype) => buildWireTemplate name qtype) ≠ [] :=
  mt List.map_eq_nil_iff.mp h

/-- `from_pairs`, with the message of its assertion. -/
def fromPairs (entries : List (String × UInt16)) : Except String WireQueryPool :=
  if h : entries ≠ [] then
    .ok ⟨entries.map fun (name, qtype) => buildWireTemplate name qtype, map_template_ne_nil h⟩
  else .error "WireQueryPool: empty entry list"

/-- `write_with_index`: the buffer afterwards and the length of the query in it. -/
def writeWithIndex (pool : WireQueryPool) (localIdx : ℕ) (id : UInt16) (buf : List UInt8) :
    Except OutOfBounds (List UInt8 × ℕ) := do
  let idx := localIdx % pool.templates.length
  let tmpl ← Slice.get pool.templates idx
  let len := tmpl.length
  let buf ← Slice.copyFromSlice buf 0 tmpl
  let buf ← Slice.set buf 0 (id >>> 8).toUInt8
  let buf ← Slice.set buf 1 id.toUInt8
  return (buf, len)

/-! ## The two encoders -/

/-- A query is its template behind the id instead of the placeholder. -/
theorem buildWireTemplate_eq (id : UInt16) (name : String) (qtype : UInt16) :
    ∃ question, buildWireTemplate name qtype = 0 :: 0 :: question ∧
      buildQuery id name qtype = (id >>> 8).toUInt8 :: id.toUInt8 :: question := by
  simp only [buildWireTemplate, buildQuery, pushName_eq, u16ToBeBytes, List.cons_append,
    List.nil_append, List.append_assoc]
  exact ⟨_, rfl, rfl⟩

/-- Patching the id into a copied template leaves the query and the rest of the buffer. -/
theorem patch_template (pool : WireQueryPool) (localIdx : ℕ) (id : UInt16) (name : String)
    (qtype : UInt16) {buf : List UInt8}
    (htemplate : pool.templates[localIdx % pool.templates.length]? = some (buildWireTemplate name qtype))
    (hbuf : (buildWireTemplate name qtype).length ≤ buf.length) :
    pool.writeWithIndex localIdx id buf
      = .ok (buildQuery id name qtype ++ buf.drop (buildQuery id name qtype).length,
          (buildQuery id name qtype).length) := by
  obtain ⟨question, htmpl, hquery⟩ := buildWireTemplate_eq id name qtype
  rw [htmpl] at htemplate hbuf
  rw [hquery]
  have hget : Slice.get pool.templates (localIdx % pool.templates.length)
      = .ok (0 :: 0 :: question) := by
    rw [Slice.get, htemplate]
  simp only [writeWithIndex, hget, bind, Except.bind]
  rw [Slice.copyFromSlice_eq_ok (by rwa [Nat.zero_add]), Slice.overwrite_zero]
  rfl

/-! ## The pool against the plain encoder -/

/-- The entry at a cursor. -/
def selected (entries : List (String × UInt16)) (h : entries ≠ []) (localIdx : ℕ) : String × UInt16 :=
  entries.get ⟨localIdx % entries.length, Nat.mod_lt _ (List.length_pos_of_ne_nil h)⟩

/-- The template at a cursor is the one of the entry there. -/
theorem getElem?_templates (entries : List (String × UInt16)) (h : entries ≠ []) (localIdx : ℕ) :
    (entries.map fun (name, qtype) => buildWireTemplate name qtype)[localIdx %
        (entries.map fun (name, qtype) => buildWireTemplate name qtype).length]?
      = some (buildWireTemplate (selected entries h localIdx).1 (selected entries h localIdx).2) := by
  have hlt := Nat.mod_lt localIdx (List.length_pos_of_ne_nil h)
  have hentry : entries[localIdx % entries.length]? = some (selected entries h localIdx) :=
    List.getElem?_eq_getElem hlt
  rw [List.length_map, List.getElem?_map, hentry]
  rfl

/-- The fast path is the plain encoder: whatever the buffer held, if the selected template fits, the
query of the selected entry is written to its front, its length is returned, and the rest of the buffer
stays. -/
theorem writeWithIndex_eq_buildQuery (entries : List (String × UInt16)) (hentries : entries ≠ [])
    (localIdx : ℕ) (name : String) (qtype : UInt16)
    (hselected : selected entries hentries localIdx = (name, qtype)) (id : UInt16) (buf : List UInt8)
    (hbuf : (buildWireTemplate name qtype).length ≤ buf.length) :
    ∃ pool buf', fromPairs entries = .ok pool ∧
      pool.writeWithIndex localIdx id buf = .ok (buf', (buildQuery id name qtype).length) ∧
      buf'.take (buildQuery id name qtype).length = buildQuery id name qtype ∧
      buf'.drop (buildQuery id name qtype).length = buf.drop (buildQuery id name qtype).length := by
  refine ⟨_, _, dif_pos hentries, patch_template _ localIdx id name qtype ?_ hbuf, List.take_left,
    List.drop_left⟩
  rw [getElem?_templates entries hentries localIdx, hselected]

/-- A pool of two odd names, the second one selected, into a dirty buffer. -/
theorem writeWithIndex_dirty :
    ∃ pool buf', fromPairs [("..", 1), (".a", 28)] = .ok pool ∧
      pool.writeWithIndex 3 0xbeef (List.replicate 32 0xff) = .ok (buf', 19) ∧
      buf'.take 19 = buildQuery 0xbeef ".a" 28 := by
  obtain ⟨pool, buf', hpool, hwrite, htake, -⟩ :=
    writeWithIndex_eq_buildQuery [("..", 1), (".a", 28)] (by simp) 3 ".a" 28 rfl 0xbeef
      (List.replicate 32 0xff) (by decide)
  exact ⟨pool, buf', hpool, hwrite, htake⟩

end WireQueryPool

end Dnsmark
