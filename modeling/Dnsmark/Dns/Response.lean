import Dnsmark.Common.Slice
import Dnsmark.Inflight.Table
import Mathlib.Data.Nat.Bitwise

/-!
# DNS responses

`parse_response` of `src/dns/response.rs`: what every receive path reads out of a datagram.
-/

namespace Dnsmark

/-- A received UDP payload. -/
abbrev Datagram := List UInt8

/-- `MAX_MSG_SIZE`: the receive buffer of one datagram. -/
def maxMsgSize : ℕ := 512

structure ResponseInfo where
  id : QueryId
  rcode : ℕ
deriving DecidableEq, Repr

/-- `parse_response`: at least a DNS header, and the `QR` bit set. -/
def parseResponse (buf : Datagram) : Option ResponseInfo :=
  if buf.length < 12 then none
  else
    match buf with
    | b0 :: b1 :: b2 :: b3 :: _ =>
      let id := (u16FromBeBytes b0 b1).toFin
      let flags := u16FromBeBytes b2 b3
      if flags &&& 0x8000 = 0 then none else some ⟨id, (flags &&& 0x000f).toNat⟩
    | _ => none

/-- A minimal reply to the query `id`: a 12-byte header with `QR` set, response code `0`. -/
def replyTo (id : QueryId) : Datagram :=
  [UInt8.ofNat (id / 256), UInt8.ofNat (id % 256), 0x81, 0x80, 0, 1, 0, 0, 0, 0, 0, 0]

/-- The two id bytes of a reply read back as its id. -/
theorem u16FromBeBytes_ofNat (id : QueryId) :
    (u16FromBeBytes (UInt8.ofNat (id / 256)) (UInt8.ofNat (id % 256))).toFin = id := by
  apply Fin.ext
  have hid := id.isLt
  change (u16FromBeBytes _ _).toNat = id.val
  rw [toNat_u16FromBeBytes, UInt8.toNat_ofNat', UInt8.toNat_ofNat']
  omega

/-- A minimal reply parses to its id and `NOERROR`. -/
theorem parseResponse_replyTo (id : QueryId) : parseResponse (replyTo id) = some ⟨id, 0⟩ := by
  have hlen : ¬ (replyTo id).length < 12 := by simp [replyTo]
  have hflags : u16FromBeBytes 0x81 0x80 &&& 0x8000 ≠ 0 := by decide
  unfold parseResponse
  rw [if_neg hlen]
  simp only [replyTo, u16FromBeBytes_ofNat, hflags, if_false]
  rfl

/-! ## What a response is, byte by byte -/

/-- The `QR` bit of the message is set. -/
def QrSet (buf : Datagram) : Prop := buf.getD 2 0 &&& 0x80 ≠ 0

instance decidableQrSet (buf : Datagram) : Decidable (QrSet buf) :=
  inferInstanceAs (Decidable (buf.getD 2 0 &&& 0x80 ≠ 0))

/-- A DNS response: a whole header with `QR` set, this id and this response code. -/
structure IsResponse (buf : Datagram) (id : QueryId) (rcode : ℕ) : Prop where
  header : 12 ≤ buf.length
  id_eq : (u16FromBeBytes (buf.getD 0 0) (buf.getD 1 0)).toFin = id
  qr : QrSet buf
  rcode_eq : (buf.getD 3 0 &&& 0x0f).toNat = rcode

/-- `flags & 0x8000` is the top bit of the third byte. -/
theorem qr_eq_zero_iff (b2 b3 : UInt8) : u16FromBeBytes b2 b3 &&& 0x8000 = 0 ↔ b2 &&& 0x80 = 0 := by
  have h2 := b2.toNat_lt
  have h3 := b3.toNat_lt
  have hbit : (b2.toNat * 256 + b3.toNat) / 2 ^ 15 % 2 = b2.toNat / 2 ^ 7 % 2 := by omega
  rw [← UInt8.toNat_inj, UInt8.toNat_and, ← UInt16.toNat_inj, UInt16.toNat_and, toNat_u16FromBeBytes]
  change _ &&& 2 ^ 15 = 0 ↔ b2.toNat &&& 2 ^ 7 = 0
  rw [Nat.and_two_pow, Nat.and_two_pow, Nat.testBit_eq_decide_div_mod_eq,
    Nat.testBit_eq_decide_div_mod_eq, hbit]
  simp

/-- `flags & 0x000f` is the low half of the fourth byte. -/
theorem rcode_eq_low (b2 b3 : UInt8) :
    (u16FromBeBytes b2 b3 &&& 0x000f).toNat = (b3 &&& 0x0f).toNat := by
  rw [UInt8.toNat_and, UInt16.toNat_and, toNat_u16FromBeBytes]
  change _ &&& (2 ^ 4 - 1) = b3.toNat &&& (2 ^ 4 - 1)
  rw [Nat.and_two_pow_sub_one_eq_mod, Nat.and_two_pow_sub_one_eq_mod]
  omega

/-- A message with a whole header, written out. -/
theorem parseResponse_of_length {buf : Datagram} (h : 12 ≤ buf.length) :
    parseResponse buf = if QrSet buf then
      some ⟨(u16FromBeBytes (buf.getD 0 0) (buf.getD 1 0)).toFin, (buf.getD 3 0 &&& 0x0f).toNat⟩
    else none := by
  match buf, h with
  | b0 :: b1 :: b2 :: b3 :: rest, h =>
    have hlong : ¬ (b0 :: b1 :: b2 :: b3 :: rest).length < 12 := not_lt.mpr h
    have hiff : QrSet (b0 :: b1 :: b2 :: b3 :: rest) ↔ ¬ b2 &&& 0x80 = 0 := Iff.rfl
    unfold parseResponse
    rw [if_neg hlong]
    simp only [qr_eq_zero_iff, rcode_eq_low, hiff, ite_not]
    rfl

/-- `parse_response` finds exactly the responses. -/
theorem parseResponse_eq_some_iff (buf : Datagram) (id : QueryId) (rcode : ℕ) :
    parseResponse buf = some ⟨id, rcode⟩ ↔ IsResponse buf id rcode := by
  by_cases hlen : buf.length < 12
  · have hnone : parseResponse buf = none := if_pos hlen
    rw [hnone]
    exact iff_of_false nofun fun h => absurd h.header (not_le.mpr hlen)
  · rw [parseResponse_of_length (not_lt.mp hlen)]
    split
    · rename_i hqr
      constructor
      · intro heq
        obtain ⟨hid, hrcode⟩ := ResponseInfo.mk.inj (Option.some.inj heq)
        exact ⟨not_lt.mp hlen, hid, hqr, hrcode⟩
      · rintro ⟨-, rfl, -, rfl⟩
        rfl
    · rename_i hqr
      exact iff_of_false nofun fun h => hqr h.qr

/-- `parse_response` rejects a message for its length or its `QR` bit only. -/
theorem parseResponse_eq_none_iff (buf : Datagram) :
    parseResponse buf = none ↔ buf.length < 12 ∨ ¬ QrSet buf := by
  by_cases hlen : buf.length < 12
  · exact iff_of_true (if_pos hlen) (.inl hlen)
  · rw [parseResponse_of_length (not_lt.mp hlen)]
    by_cases hqr : QrSet buf <;> simp [hqr, hlen]

end Dnsmark
