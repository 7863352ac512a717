import Dnsmark.Common.Slice

/-!
# DNS query messages

The wire format of a DNS query with one question (RFC 1035, section 4.1) as a pair of functions between
messages and octets.  `decode` is strict: one question and no other record, every label of 1 to 63
octets, a name of at most 255 octets, and nothing behind the question.  `encode` writes any message, also
one whose labels are too long for their length octet.

`decode_encode_iff` is the account of where the two are inverse: exactly on the valid messages.
-/

/-- A query with one question; a label is a string of octets. -/
structure QueryMessage where
  id : UInt16
  flags : UInt16
  labels : List (List UInt8)
  qtype : UInt16
  qclass : UInt16
deriving DecidableEq, Repr

namespace QueryMessage

/-! ## Names -/

/-- One label: its length in one octet, and its octets. -/
def encodeLabel (label : List UInt8) : List UInt8 := UInt8.ofNat label.length :: label

/-- A name: its labels and the root label. -/
def encodeName (labels : List (List UInt8)) : List UInt8 := labels.flatMap encodeLabel ++ [0]

/-- The labels up to the root label, and the octets behind it.  Each label uses up one unit of fuel. -/
def decodeName : ℕ → List UInt8 → Option (List (List UInt8) × List UInt8)
  | _, [] => none
  | 0, _ => none
  | fuel + 1, len :: octets =>
    if len = 0 then some ([], octets)
    else if len.toNat ≤ 63 ∧ len.toNat ≤ octets.length then
      (decodeName fuel (octets.drop len.toNat)).map fun (labels, rest) =>
        (octets.take len.toNat :: labels, rest)
    else none

/-- What a length octet may announce. -/
def IsLabel (label : List UInt8) : Prop := 1 ≤ label.length ∧ label.length ≤ 63

theorem length_lt_encodeName {labels : List (List UInt8)} :
    labels.length < (encodeName labels).length := by
  induction labels with
  | nil => simp [encodeName]
  | cons label labels ih =>
    simp only [encodeName, List.flatMap_cons, encodeLabel, List.length_append, List.length_cons]
      at ih ⊢
    omega

/-- A name of labels decodes to its labels. -/
theorem decodeName_encodeName {labels : List (List UInt8)} (h : ∀ label ∈ labels, IsLabel label)
    (rest : List UInt8) {fuel : ℕ} (hfuel : labels.length < fuel) :
    decodeName fuel (encodeName labels ++ rest) = some (labels, rest) := by
  induction labels generalizing fuel with
  | nil =>
    obtain ⟨fuel, rfl⟩ := Nat.exists_eq_add_of_lt hfuel
    simp [encodeName, decodeName]
  | cons label labels ih =>
    obtain ⟨fuel, rfl⟩ : ∃ n, fuel = n + 1 := ⟨fuel - 1, by omega⟩
    obtain ⟨hpos, hle⟩ := h label List.mem_cons_self
    have hlen : (UInt8.ofNat label.length).toNat = label.length := by
      rw [UInt8.toNat_ofNat', Nat.mod_eq_of_lt (by omega)]
    have hne : UInt8.ofNat label.length ≠ 0 := by
      intro hzero
      rw [hzero] at hlen
      exact absurd hlen.symm (by simpa using Nat.ne_of_gt hpos)
    have hrest := ih (fun l hl => h l (List.mem_cons_of_mem _ hl)) (Nat.lt_of_succ_lt_succ hfuel)
    have hsplit : encodeName (label :: labels) ++ rest
        = UInt8.ofNat label.length :: (label ++ (encodeName labels ++ rest)) := by
      simp [encodeName, encodeLabel]
    rw [hsplit, decodeName, if_neg hne, hlen, if_pos ⟨hle, by simp⟩, List.drop_left, List.take_left,
      hrest]
    rfl

/-- Whatever decodes has labels of 1 to 63 octets. -/
theorem isLabel_of_decodeName {fuel : ℕ} {octets rest : List UInt8} {labels : List (List UInt8)}
    (h : decodeName fuel octets = some (labels, rest)) :
    ∀ label ∈ labels, IsLabel label := by
  induction fuel generalizing octets labels with
  | zero => cases octets <;> cases h
  | succ fuel ih =>
    cases octets with
    | nil => cases h
    | cons len octets =>
      unfold decodeName at h
      split at h
      · cases h
        simp
      · rename_i hne
        split at h
        · rename_i hle
          obtain ⟨⟨labels', rest'⟩, htail, heq⟩ := Option.map_eq_some_iff.mp h
          cases heq
          intro label hmem
          rcases List.mem_cons.mp hmem with rfl | hmem
          · have hpos : len.toNat ≠ 0 := fun hzero => hne (UInt8.toNat_inj.mp hzero)
            constructor
            · rw [List.length_take]
              omega
            · exact Nat.le_trans (List.length_take_le _ _) hle.1
          · exact ih htail label hmem
        · cases h

/-! ## Messages -/

/-- The octets of a message. -/
def encode (m : QueryMessage) : List UInt8 :=
  u16ToBeBytes m.id ++ u16ToBeBytes m.flags ++ u16ToBeBytes 1 ++ u16ToBeBytes 0 ++ u16ToBeBytes 0 ++
    u16ToBeBytes 0 ++ encodeName m.labels ++ u16ToBeBytes m.qtype ++ u16ToBeBytes m.qclass

/-- The question of a message with the given id and flags; it ends with the message. -/
def decodeQuestion (id flags : UInt16) (octets : List UInt8) : Option QueryMessage :=
  match decodeName octets.length octets with
  | some (labels, [t0, t1, c0, c1]) =>
    if (encodeName labels).length ≤ 255 then
      some ⟨id, flags, labels, u16FromBeBytes t0 t1, u16FromBeBytes c0 c1⟩
    else none
  | _ => none

/-- A strict parser: a header of 12 octets that counts one question and no other record, and the
question. -/
def decode : List UInt8 → Option QueryMessage
  | i0 :: i1 :: f0 :: f1 :: q0 :: q1 :: a0 :: a1 :: n0 :: n1 :: r0 :: r1 :: question =>
    if u16FromBeBytes q0 q1 = 1 ∧ u16FromBeBytes a0 a1 = 0 ∧ u16FromBeBytes n0 n1 = 0 ∧
        u16FromBeBytes r0 r1 = 0 then
      decodeQuestion (u16FromBeBytes i0 i1) (u16FromBeBytes f0 f1) question
    else none
  | _ => none

/-- Labels of 1 to 63 octets, and a name of at most 255. -/
structure Valid (m : QueryMessage) : Prop where
  isLabel : ∀ label ∈ m.labels, IsLabel label
  length_le : (encodeName m.labels).length ≤ 255

theorem decodeQuestion_eq {m : QueryMessage} (h : m.Valid) :
    decodeQuestion m.id m.flags (encodeName m.labels ++ (u16ToBeBytes m.qtype ++ u16ToBeBytes m.qclass))
      = some m := by
  have hfuel : m.labels.length <
      (encodeName m.labels ++ (u16ToBeBytes m.qtype ++ u16ToBeBytes m.qclass)).length :=
    Nat.lt_of_lt_of_le length_lt_encodeName (by simp)
  rw [decodeQuestion, decodeName_encodeName h.isLabel _ hfuel]
  simp only [u16ToBeBytes, List.cons_append, List.nil_append, if_pos h.length_le,
    u16FromBeBytes_toBeBytes]

theorem valid_of_decodeQuestion {id flags : UInt16} {octets : List UInt8} {m : QueryMessage}
    (h : decodeQuestion id flags octets = some m) : m.Valid := by
  unfold decodeQuestion at h
  split at h
  · rename_i labels t0 t1 c0 c1 hname
    split at h
    · rename_i hlen
      cases h
      exact ⟨isLabel_of_decodeName hname, hlen⟩
    · cases h
  · cases h

/-- A message is what its octets decode to exactly when it is valid. -/
theorem decode_encode_iff (m : QueryMessage) : decode m.encode = some m ↔ m.Valid := by
  have hdecode : decode m.encode
      = decodeQuestion m.id m.flags
          (encodeName m.labels ++ (u16ToBeBytes m.qtype ++ u16ToBeBytes m.qclass)) := by
    simp only [encode, u16ToBeBytes, List.cons_append, List.nil_append, List.append_assoc, decode,
      u16FromBeBytes_toBeBytes]
    rfl
  rw [hdecode]
  exact ⟨valid_of_decodeQuestion, decodeQuestion_eq⟩

/-- Valid messages have different octets. -/
theorem encode_inj {m m' : QueryMessage} (h : m.Valid) (h' : m'.Valid) :
    m.encode = m'.encode ↔ m = m' := by
  constructor
  · intro heq
    have hm := (decode_encode_iff m).mpr h
    rw [heq, (decode_encode_iff m').mpr h'] at hm
    exact (Option.some.inj hm).symm
  · intro heq
    rw [heq]

end QueryMessage
