import Dnsmark.Common.Slice
import Mathlib.Algebra.Ring.Nat
import Mathlib.Data.List.TakeDrop

/-!
# Messages on a stream

Messages with a length of two octets in front, in network byte order (RFC 1035, section 4.2.2).  `frame`
writes any message; the length wraps for one of 65536 octets or more, and `unframe_frame_append_iff` says
that only then it is not read back.
-/

namespace Framing

/-- A message behind its length. -/
def frame (message : List UInt8) : List UInt8 :=
  u16ToBeBytes (UInt16.ofNat message.length) ++ message

/-- The first message of a stream and what follows it. -/
def unframe : List UInt8 → Option (List UInt8 × List UInt8)
  | hi :: lo :: octets =>
    let len := (u16FromBeBytes hi lo).toNat
    if len ≤ octets.length then some (octets.take len, octets.drop len) else none
  | _ => none

variable {message message' rest rest' : List UInt8}

/-- Whatever its length, a message is read up to the length modulo 65536. -/
theorem unframe_frame_append (message rest : List UInt8) :
    unframe (frame message ++ rest) =
      some (message.take (message.length % 2 ^ 16), message.drop (message.length % 2 ^ 16) ++ rest) := by
  have hle := Nat.mod_le message.length (2 ^ 16)
  simp only [frame, u16ToBeBytes, List.cons_append, List.nil_append, unframe, u16FromBeBytes_toBeBytes,
    UInt16.toNat_ofNat', List.length_append]
  rw [if_pos (by omega), List.take_append_of_le_length hle, List.drop_append_of_le_length hle]

/-- A message is read back from a stream exactly if its length fits. -/
theorem unframe_frame_append_iff :
    unframe (frame message ++ rest) = some (message, rest) ↔ message.length < 2 ^ 16 := by
  rw [unframe_frame_append, Option.some.injEq, Prod.mk.injEq, List.take_eq_self_iff]
  constructor
  · rintro ⟨hle, -⟩
    exact Nat.lt_of_le_of_lt hle (Nat.mod_lt _ (Nat.two_pow_pos 16))
  · intro hlt
    rw [Nat.mod_eq_of_lt hlt, List.drop_length, List.nil_append]
    exact ⟨le_refl _, rfl⟩

/-- A stream starts with one message only. -/
theorem frame_append_inj (h : message.length < 2 ^ 16) (h' : message'.length < 2 ^ 16)
    (heq : frame message ++ rest = frame message' ++ rest') : message = message' ∧ rest = rest' := by
  have hread : unframe (frame message ++ rest) = some (message, rest) := unframe_frame_append_iff.mpr h
  rw [heq, unframe_frame_append_iff.mpr h', Option.some.injEq, Prod.mk.injEq] at hread
  exact ⟨hread.1.symm, hread.2.symm⟩

theorem u16ToBeBytes_fromBeBytes (hi lo : UInt8) : u16ToBeBytes (u16FromBeBytes hi lo) = [hi, lo] := by
  have hhi := hi.toNat_lt
  have hlo := lo.toNat_lt
  rw [u16ToBeBytes, List.cons_eq_cons, List.cons_eq_cons]
  refine ⟨?_, ?_, rfl⟩
  · apply UInt8.toNat_inj.mp
    rw [UInt16.toNat_toUInt8, UInt16.toNat_shiftRight, toNat_u16FromBeBytes,
      show (8 : UInt16).toNat % 16 = 8 from rfl, Nat.shiftRight_eq_div_pow]
    omega
  · apply UInt8.toNat_inj.mp
    rw [UInt16.toNat_toUInt8, toNat_u16FromBeBytes]
    omega

/-- Octets behind a length that counts them are a message. -/
theorem frame_eq {hi lo : UInt8} (h : message.length = (u16FromBeBytes hi lo).toNat) :
    frame message = hi :: lo :: message := by
  have hword : UInt16.ofNat message.length = u16FromBeBytes hi lo := by
    rw [h, UInt16.ofNat_toNat]
  rw [frame, hword, u16ToBeBytes_fromBeBytes]
  rfl

end Framing
