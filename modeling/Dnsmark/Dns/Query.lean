import Dnsmark.Common.QueryMessage
import Mathlib.Data.List.DropRight

/-!
# DNS queries

`build_query` of `src/dns/mod.rs`.  The encoder cleans the name up (it trims trailing dots and skips
empty labels) and truncates each label's length to one octet without checking it.

`buildQuery_eq` says which message it writes: the one whose labels are the non-empty parts of the name
between its dots.  Where that message is valid it is read back by a strict parser, and nowhere else.
-/

namespace Dnsmark

/-- `str::trim_end_matches('.')`. -/
def trimEndDots (name : String) : String := String.ofList (name.toList.rdropWhile (· == '.'))

/-- `str::split('.')`. -/
def splitDots (name : String) : List String := (name.toList.splitOn '.').map String.ofList

/-- `str::as_bytes`: the UTF-8 octets. -/
def asBytes (s : String) : List UInt8 := s.toByteArray.data.toList

/-- The body of the label loop: `b.len() as u8` wraps. -/
def pushLabel (buf : List UInt8) (label : String) : List UInt8 :=
  if label.isEmpty then buf else buf ++ [UInt8.ofNat (asBytes label).length] ++ asBytes label

/-- The label loop and the root label: the QNAME behind `buf`. -/
def pushName (buf : List UInt8) (name : String) : List UInt8 :=
  (splitDots (trimEndDots name)).foldl pushLabel buf ++ [0x00]

/-- `build_query`. -/
def buildQuery (id : UInt16) (name : String) (qtype : UInt16) : List UInt8 :=
  let buf := u16ToBeBytes id
  let buf := buf ++ u16ToBeBytes 0x0100 -- flags: RD
  let buf := buf ++ u16ToBeBytes 1 -- QDCOUNT
  let buf := buf ++ u16ToBeBytes 0
  let buf := buf ++ u16ToBeBytes 0
  let buf := buf ++ u16ToBeBytes 0
  pushName buf name ++ u16ToBeBytes qtype ++ u16ToBeBytes 1

/-- The non-empty parts of a name between its dots, in order. -/
def nameParts (name : String) : List String := (splitDots name).filter (· ≠ "")

/-! ## The message that is written -/

theorem asBytes_injective : Function.Injective asBytes := by
  intro s t h
  apply String.toByteArray_inj.mp
  exact ByteArray.ext (Array.toList_inj.mp h)

theorem asBytes_eq_nil_iff {s : String} : asBytes s = [] ↔ s = "" :=
  asBytes_injective.eq_iff' rfl

/-- A dot at the end only adds an empty part. -/
theorem filter_splitOn_concat (cs : List Char) :
    ((cs ++ ['.']).splitOn '.').filter (· ≠ []) = (cs.splitOn '.').filter (· ≠ []) := by
  rw [List.splitOn_append_cons_self, List.filter_append]
  simp

theorem filter_splitOn_rdropWhile (cs : List Char) :
    ((cs.rdropWhile (· == '.')).splitOn '.').filter (· ≠ []) = (cs.splitOn '.').filter (· ≠ []) := by
  -- from the last character on: a dot is dropped, anything else stays
  induction cs using List.reverseRecOn with
  | nil => rfl
  | append_singleton cs c ih =>
    rw [List.rdropWhile_concat]
    by_cases hc : c = '.'
    · subst hc
      rw [if_pos (beq_self_eq_true _), ih, filter_splitOn_concat]
    · rw [if_neg (by simpa using hc)]

/-- The parts of a name, through its characters. -/
theorem nameParts_eq (name : String) :
    nameParts name = ((name.toList.splitOn '.').filter (· ≠ [])).map String.ofList := by
  unfold nameParts splitDots
  rw [List.filter_map]
  congr 1
  apply List.filter_congr
  intro cs _
  have hempty : String.ofList cs = "" ↔ cs = [] := by
    rw [← String.toList_inj, String.toList_ofList]
    rfl
  simp [hempty]

/-- Trailing dots leave the parts of a name as they are. -/
theorem nameParts_trimEndDots (name : String) : nameParts (trimEndDots name) = nameParts name := by
  rw [nameParts_eq, nameParts_eq, trimEndDots, String.toList_ofList, filter_splitOn_rdropWhile]

/-- The label loop appends the non-empty labels. -/
theorem foldl_pushLabel (labels : List String) (buf : List UInt8) :
    labels.foldl pushLabel buf
      = buf ++ ((labels.filter (· ≠ "")).map asBytes).flatMap QueryMessage.encodeLabel := by
  induction labels generalizing buf with
  | nil => simp
  | cons label labels ih =>
    rw [List.foldl_cons, ih]
    by_cases hlabel : label = ""
    · simp [pushLabel, hlabel]
    · simp [pushLabel, hlabel, QueryMessage.encodeLabel]

theorem pushName_eq (buf : List UInt8) (name : String) :
    pushName buf name = buf ++ QueryMessage.encodeName ((nameParts name).map asBytes) := by
  rw [← nameParts_trimEndDots, nameParts, pushName, foldl_pushLabel, QueryMessage.encodeName,
    List.append_assoc]

/-- The message of a query: recursion desired, class `IN`. -/
def queryMessage (id : UInt16) (name : String) (qtype : UInt16) : QueryMessage :=
  ⟨id, 0x0100, (nameParts name).map asBytes, qtype, 1⟩

theorem buildQuery_eq (id : UInt16) (name : String) (qtype : UInt16) :
    buildQuery id name qtype = (queryMessage id name qtype).encode := by
  simp only [buildQuery, pushName_eq, queryMessage, QueryMessage.encode]

/-! ## Round trip -/

/-- The names that fit a DNS message: parts of at most 63 octets, a QNAME of at most 255. -/
def FitsMessage (name : String) : Prop :=
  (∀ part ∈ nameParts name, (asBytes part).length ≤ 63) ∧ (pushName [] name).length ≤ 255

instance (name : String) : Decidable (FitsMessage name) := inferInstanceAs (Decidable (_ ∧ _))

theorem valid_queryMessage_iff (id : UInt16) (name : String) (qtype : UInt16) :
    (queryMessage id name qtype).Valid ↔ FitsMessage name := by
  have hlength : (pushName [] name).length
      = (QueryMessage.encodeName ((nameParts name).map asBytes)).length := by
    rw [pushName_eq, List.nil_append]
  have hpos : ∀ part ∈ nameParts name, 1 ≤ (asBytes part).length := by
    intro part hmem
    have hne : part ≠ "" := by simpa using (List.mem_filter.mp hmem).2
    exact List.length_pos_of_ne_nil (mt asBytes_eq_nil_iff.mp hne)
  constructor
  · intro hvalid
    refine ⟨fun part hmem => ?_, hlength.trans_le hvalid.length_le⟩
    exact (hvalid.isLabel _ (List.mem_map_of_mem hmem)).2
  · rintro ⟨hle, hname⟩
    refine ⟨fun label hmem => ?_, hlength.ge.trans hname⟩
    obtain ⟨part, hpart, rfl⟩ := List.mem_map.mp hmem
    exact ⟨hpos part hpart, hle part hpart⟩

theorem queryMessage_inj {id id' qtype qtype' : UInt16} {name name' : String} :
    queryMessage id name qtype = queryMessage id' name' qtype' ↔
      id = id' ∧ nameParts name = nameParts name' ∧ qtype = qtype' := by
  have hparts := (List.map_injective_iff.mpr asBytes_injective).eq_iff
    (a := nameParts name) (b := nameParts name')
  simp only [queryMessage, QueryMessage.mk.injEq, hparts, true_and, and_true]

/-- Queries round-trip through a strict parser exactly on the names that fit a DNS message, and there
two queries with the same octets have the same id, type and non-empty parts. -/
theorem decode_buildQuery_iff (id : UInt16) (name : String) (qtype : UInt16) :
    (QueryMessage.decode (buildQuery id name qtype)
        = some ⟨id, 0x0100, (nameParts name).map asBytes, qtype, 1⟩ ↔ FitsMessage name) ∧
      ∀ id' name' qtype', FitsMessage name → FitsMessage name' →
        (buildQuery id name qtype = buildQuery id' name' qtype' ↔
          id = id' ∧ nameParts name = nameParts name' ∧ qtype = qtype') := by
  constructor
  · rw [buildQuery_eq, ← valid_queryMessage_iff id name qtype]
    exact QueryMessage.decode_encode_iff (queryMessage id name qtype)
  · intro id' name' qtype' h h'
    rw [buildQuery_eq, buildQuery_eq, QueryMessage.encode_inj ((valid_queryMessage_iff _ _ _).mpr h)
      ((valid_queryMessage_iff _ _ _).mpr h'), queryMessage_inj]

/-- Dots around a name do not reach the wire. -/
theorem decode_buildQuery_dots :
    FitsMessage "a.example" ∧ FitsMessage ".a..example.." ∧
      buildQuery 7 "a.example" 1 = buildQuery 7 ".a..example.." 1 := by
  have hplain : FitsMessage "a.example" := by decide
  have hdots : FitsMessage ".a..example.." := by decide
  refine ⟨hplain, hdots, ?_⟩
  exact ((decode_buildQuery_iff 7 "a.example" 1).2 7 ".a..example.." 1 hplain hdots).mpr
    ⟨rfl, by decide, rfl⟩

end Dnsmark
