import Mathlib.Data.List.GetD
import Mathlib.Data.Nat.Basic

/-!
# Slices with checked access

Rust slices as lists.  Indexing, assignment and `copy_from_slice` fail outside of the slice; a failure
is the panic of the program, with the offending position.  Each operation has one lemma for the case
that it is within bounds.  Words are written to slices in network byte order.
-/

/-- `u16::to_be_bytes`. -/
def u16ToBeBytes (x : UInt16) : List UInt8 := [(x >>> 8).toUInt8, x.toUInt8]

/-- `u16::from_be_bytes`. -/
def u16FromBeBytes (hi lo : UInt8) : UInt16 := UInt16.ofNat (hi.toNat * 256 + lo.toNat)

theorem toNat_u16FromBeBytes (hi lo : UInt8) :
    (u16FromBeBytes hi lo).toNat = hi.toNat * 256 + lo.toNat := by
  have hhi := hi.toNat_lt
  have hlo := lo.toNat_lt
  rw [u16FromBeBytes, UInt16.toNat_ofNat']
  omega

theorem u16FromBeBytes_toBeBytes (x : UInt16) : u16FromBeBytes (x >>> 8).toUInt8 x.toUInt8 = x := by
  have hx := x.toNat_lt
  apply UInt16.toNat_inj.mp
  rw [toNat_u16FromBeBytes, UInt16.toNat_toUInt8, UInt16.toNat_toUInt8, UInt16.toNat_shiftRight,
    show (8 : UInt16).toNat % 16 = 8 from rfl, Nat.shiftRight_eq_div_pow]
  omega

/-- An access past the end of a slice. -/
structure OutOfBounds where
  position : ℕ
  length : ℕ
deriving DecidableEq, Repr

namespace Slice

variable {α : Type*}

/-- `buf[i]`. -/
def get (buf : List α) (i : ℕ) : Except OutOfBounds α :=
  match buf[i]? with
  | some a => .ok a
  | none => .error ⟨i, buf.length⟩

/-- `buf[i] = a`. -/
def set (buf : List α) (i : ℕ) (a : α) : Except OutOfBounds (List α) :=
  if i < buf.length then .ok (buf.set i a) else .error ⟨i, buf.length⟩

/-- `buf` with the elements from `off` on replaced by `src`. -/
def overwrite (buf : List α) (off : ℕ) (src : List α) : List α :=
  buf.take off ++ src ++ buf.drop (off + src.length)

/-- `buf[off..off + src.len()].copy_from_slice(src)`. -/
def copyFromSlice (buf : List α) (off : ℕ) (src : List α) : Except OutOfBounds (List α) :=
  if off + src.length ≤ buf.length then .ok (overwrite buf off src)
  else .error ⟨off + src.length, buf.length⟩

/-- The `n` elements from `off` on, `&buf[off..off + n]` of a slice that long. -/
def window (buf : List α) (off n : ℕ) : List α := (buf.drop off).take n

/-- `&buf[off..]`. -/
def suffix (buf : List α) (off : ℕ) : Except OutOfBounds (List α) :=
  if off ≤ buf.length then .ok (buf.drop off) else .error ⟨off, buf.length⟩

variable {buf : List α}

theorem get_eq_ok (a : α) {i : ℕ} (h : i < buf.length) : get buf i = .ok (buf.getD i a) := by
  rw [get, List.getElem?_eq_getElem h, List.getD_eq_getElem buf a h]

theorem set_eq_ok {i : ℕ} (h : i < buf.length) (a : α) : set buf i a = .ok (buf.set i a) := if_pos h

theorem copyFromSlice_eq_ok {off : ℕ} {src : List α} (h : off + src.length ≤ buf.length) :
    copyFromSlice buf off src = .ok (overwrite buf off src) := if_pos h

theorem suffix_eq_ok {off : ℕ} (h : off ≤ buf.length) : suffix buf off = .ok (buf.drop off) := if_pos h

/-- Copying to the front of a slice. -/
theorem overwrite_zero (buf src : List α) : overwrite buf 0 src = src ++ buf.drop src.length := by
  simp [overwrite]

/-- Overwriting inside of a slice keeps its length. -/
theorem length_overwrite {off : ℕ} {src : List α} (h : off + src.length ≤ buf.length) :
    (overwrite buf off src).length = buf.length := by
  simp only [overwrite, List.length_append, List.length_take, List.length_drop]
  omega

theorem length_window {off n : ℕ} (h : off + n ≤ buf.length) : (window buf off n).length = n := by
  rw [window, List.length_take, List.length_drop]
  omega

/-- What was written is read back. -/
theorem window_overwrite_self {off : ℕ} {src : List α} (h : off + src.length ≤ buf.length) :
    window (overwrite buf off src) off src.length = src := by
  have htake : (buf.take off).length = off := List.length_take_of_le (by omega)
  rw [window, overwrite, List.append_assoc, List.drop_left' htake, List.take_left]

/-- A window in front of what is written. -/
theorem window_overwrite_before {off off' n : ℕ} {src : List α} (h : off' + n ≤ off)
    (hoff : off ≤ buf.length) : window (overwrite buf off src) off' n = window buf off' n := by
  have htake : (buf.take off).length = off := List.length_take_of_le hoff
  rw [window, overwrite, List.append_assoc, List.drop_append_of_le_length (by omega),
    List.take_append_of_le_length (by rw [List.length_drop]; omega), List.drop_take, List.take_take,
    min_eq_left (by omega)]
  rfl

/-- A window behind what is written. -/
theorem window_overwrite_behind {off off' n : ℕ} {src : List α} (h : off + src.length ≤ off')
    (hoff : off ≤ buf.length) : window (overwrite buf off src) off' n = window buf off' n := by
  obtain ⟨k, rfl⟩ := Nat.exists_eq_add_of_le h
  have hlen : (buf.take off ++ src).length = off + src.length := by
    rw [List.length_append, List.length_take_of_le hoff]
  rw [window, overwrite, ← List.drop_drop, List.drop_left' hlen, List.drop_drop]
  rfl

end Slice
