import Mathlib.Algebra.Group.Nat.Defs
import Mathlib.Data.List.Basic
import Nak.Library.Outcome

/-! Slices with their bounds checked, and numbers as bytes with the lowest first. -/
namespace Nak.Library

section Slices
variable {α : Type} {items part : List α}

/-- `items[start..stop]` -/
def slice (items : List α) (start stop : Nat) : Outcome (List α) :=
  if start ≤ stop ∧ stop ≤ items.length then .ok ((items.take stop).drop start) else .error .bounds

def sliceTo (items : List α) (stop : Nat) : Outcome (List α) := slice items 0 stop

def sliceFrom (items : List α) (start : Nat) : Outcome (List α) := slice items start items.length

def itemAt (items : List α) (position : Nat) : Outcome α :=
  match items[position]? with
  | some item => .ok item
  | none => .error .bounds

theorem itemAt_append (before : List α) (item : α) (after : List α) :
    itemAt (before ++ item :: after) before.length = .ok item := by
  simp [itemAt]

theorem slice_ok {start stop : Nat} : slice items start stop = .ok part ↔
    start ≤ stop ∧ stop ≤ items.length ∧ (items.take stop).drop start = part := by
  unfold slice
  split <;> simp_all

theorem slice_splits {start stop : Nat} (sliced : slice items start stop = .ok part) :
    items.drop start = part ++ items.drop stop ∧ part.length = stop - start := by
  obtain ⟨ordered,within,rfl⟩ := slice_ok.mp sliced
  constructor
  · have whole := congrArg (List.drop start) (List.take_append_drop stop items)
    rwa [List.drop_append_of_le_length (by simpa [List.length_take,Nat.min_eq_left within] using ordered),
      eq_comm] at whole
  · simp [Nat.min_eq_left within]

theorem slice_fits {start stop : Nat} (ordered : start ≤ stop) (within : stop ≤ items.length) :
    slice items start stop = .ok ((items.take stop).drop start) := if_pos ⟨ordered,within⟩

theorem sliceTo_append (front rest : List α) : sliceTo (front ++ rest) front.length = .ok front := by
  rw [sliceTo,slice_fits (by omega) (by simp)]
  simp

theorem sliceFrom_append (front rest : List α) : sliceFrom (front ++ rest) front.length = .ok rest := by
  rw [sliceFrom,slice_fits (by simp) (by omega),List.take_length]
  simp

theorem slice_append (before middle after : List α) :
    slice (before ++ (middle ++ after)) before.length (before.length + middle.length) = .ok middle := by
  rw [slice_fits (by omega) (by simp)]
  simp [List.take_append]

theorem sliceTo_short {stop : Nat} (short : items.length < stop) : sliceTo items stop = .error .bounds := by
  apply if_neg
  omega

end Slices

section Numbers

/-- The lowest bytes of a number, as many as the width. -/
def littleEndian : Nat → Nat → List UInt8
  | 0, _ => []
  | width + 1, number => number.toUInt8 :: littleEndian width (number / 256)

def fromLittleEndian : List UInt8 → Nat
  | [] => 0
  | byte :: bytes => byte.toNat + 256 * fromLittleEndian bytes

@[simp] theorem littleEndian_length (width number : Nat) : (littleEndian width number).length = width := by
  induction width generalizing number with
  | zero => simp [littleEndian]
  | succ width ih => simp [littleEndian,ih]

theorem fromLittleEndian_lt (bytes : List UInt8) : fromLittleEndian bytes < 256 ^ bytes.length := by
  induction bytes with
  | nil => simp [fromLittleEndian]
  | cons byte bytes ih =>
    have small := byte.toNat_lt
    rw [fromLittleEndian,List.length_cons,Nat.pow_succ]
    omega

theorem from_littleEndian {width number : Nat} (fits : number < 256 ^ width) :
    fromLittleEndian (littleEndian width number) = number := by
  induction width generalizing number with
  | zero =>
    rw [Nat.pow_zero] at fits
    simp only [littleEndian,fromLittleEndian]
    omega
  | succ width ih =>
    rw [Nat.pow_succ] at fits
    have low : number.toUInt8.toNat = number % 256 := UInt8.toNat_ofNat'
    rw [littleEndian,fromLittleEndian,ih (by omega),low]
    omega

theorem littleEndian_from (bytes : List UInt8) : littleEndian bytes.length (fromLittleEndian bytes) = bytes := by
  induction bytes with
  | nil => simp [littleEndian]
  | cons byte bytes ih =>
    have small := byte.toNat_lt
    have low : (byte.toNat + 256 * fromLittleEndian bytes).toUInt8 = byte := by
      apply UInt8.toNat_inj.mp
      rw [Nat.toUInt8,UInt8.toNat_ofNat']
      omega
    have high : (byte.toNat + 256 * fromLittleEndian bytes) / 256 = fromLittleEndian bytes := by omega
    rw [fromLittleEndian,List.length_cons,littleEndian,low,high,ih]

theorem starts_with_number {width : Nat} {stream : List UInt8} (enough : width ≤ stream.length) :
    ∃ number rest, number < 256 ^ width ∧ stream = littleEndian width number ++ rest := by
  have size : (stream.take width).length = width := List.length_take_of_le enough
  have read := littleEndian_from (stream.take width)
  have bound := fromLittleEndian_lt (stream.take width)
  rw [size] at read bound
  exact ⟨_,_,bound,by rw [read,List.take_append_drop]⟩

end Numbers

end Nak.Library
