import Sunshine.Lib.Slices

/-! `concat_and_insert` of `stream.cpp`: two buffers become one, with room for a packet header in
front of every slice.

The loop walks one pointer over the first buffer and, once a slice would run past its end, over
the second. `concatAndInsert_eq` is its meaning: the slices of the concatenation, each behind
`insertSize` zero bytes. -/
namespace Sunshine.Video
open Slices
set_option autoImplicit false

abbrev Bytes := List UInt8

/-- The body of the loop for one slice: the bytes copied and what is left from `next` on. -/
def copySlice (data2 next : Bytes) (sliceSize : ℕ) : Bytes × Bytes :=
  if next.length < sliceSize then
    let copyLen := next.length
    (next ++ data2.take (sliceSize - copyLen), data2.drop (sliceSize - copyLen))
  else
    (next.take sliceSize, next.drop sliceSize)

/-- The loop of `concat_and_insert` with `left` passes to go. -/
def concatLoop (insertSize sliceSize dataSize elements : ℕ) (data2 : Bytes) : ℕ → Bytes → Bytes
  | 0, _ => []
  | left + 1, next =>
    let x := elements - (left + 1)
    -- the last pass only copies to the end of the data
    let size := if x = elements - 1 then dataSize - x * sliceSize else sliceSize
    let copied := copySlice data2 next size
    (List.replicate insertSize 0 ++ copied.1) ++
      concatLoop insertSize sliceSize dataSize elements data2 left copied.2

def concatAndInsert (insertSize sliceSize : ℕ) (data1 data2 : Bytes) : Bytes :=
  let dataSize := data1.length + data2.length
  let elements := sliceCount sliceSize dataSize
  concatLoop insertSize sliceSize dataSize elements data2 elements data1

/-- `next` still points into the first buffer, or already into the second. -/
def Remaining (data2 next rest : Bytes) : Prop := rest = next ++ data2 ∨ rest = next

theorem copySlice_spec (data2 next rest : Bytes) (size : ℕ) (h : Remaining data2 next rest)
    (hs : size ≤ rest.length) :
    (copySlice data2 next size).1 = rest.take size ∧
      Remaining data2 (copySlice data2 next size).2 (rest.drop size) := by
  unfold copySlice
  rcases h with rfl | rfl
  · by_cases hlt : next.length < size
    · rw [if_pos hlt]
      exact ⟨by rw [List.take_append, List.take_of_length_le (by omega : next.length ≤ size)],
        Or.inr (by rw [List.drop_append, List.drop_eq_nil_of_le (by omega), List.nil_append])⟩
    · rw [if_neg hlt]
      exact ⟨by rw [List.take_append_of_le_length (by omega)],
        Or.inl (by rw [List.drop_append_of_le_length (by omega)])⟩
  · rw [if_neg (by omega)]
    exact ⟨rfl, Or.inr rfl⟩

/-- The loop from slice `x` on copies the slices of what is left of the data. -/
theorem concatLoop_eq (insertSize sliceSize dataSize elements x left : ℕ) (hw : 0 < sliceSize)
    (data2 next rest : Bytes) (hrest : Remaining data2 next rest)
    (hdata : dataSize = x * sliceSize + rest.length)
    (hleft : left = sliceCount sliceSize rest.length) (hx : x + left = elements) :
    concatLoop insertSize sliceSize dataSize elements data2 left next =
      (slices sliceSize rest).flatMap (List.replicate insertSize 0 ++ ·) := by
  induction left generalizing x next rest with
  | zero =>
    have hlen : rest.length ≤ 0 * sliceSize :=
      (sliceCount_le_iff sliceSize rest.length 0 hw).mp (by omega)
    have hnil : rest = [] := List.length_eq_zero_iff.mp (by omega)
    rw [hnil, slices_nil]
    rfl
  | succ left ih =>
    have hne : rest ≠ [] := by
      rintro rfl
      rw [List.length_nil, sliceCount_zero] at hleft
      omega
    have hxe : elements - (left + 1) = x := by omega
    -- the size of the last slice is what is left, so both branches give `min sliceSize rest.length`
    have hsize : (if x = elements - 1 then dataSize - x * sliceSize else sliceSize) =
        min sliceSize rest.length := by
      by_cases hlast : x = elements - 1
      · have hone : rest.length ≤ 1 * sliceSize :=
          (sliceCount_le_iff sliceSize rest.length 1 hw).mp (by omega)
        rw [if_pos hlast]
        omega
      · have hmore : 1 * sliceSize < rest.length :=
          (lt_sliceCount_iff sliceSize rest.length 1 hw).mp (by omega)
        rw [if_neg hlast]
        omega
    obtain ⟨hcopied, hnext⟩ :=
      copySlice_spec data2 next rest (min sliceSize rest.length) hrest (Nat.min_le_right _ _)
    have hcut : rest.take (min sliceSize rest.length) = rest.take sliceSize ∧
        rest.drop (min sliceSize rest.length) = rest.drop sliceSize := by
      by_cases hle : sliceSize ≤ rest.length
      · rw [Nat.min_eq_left hle]
        exact ⟨rfl, rfl⟩
      · rw [Nat.min_eq_right (by omega), List.take_length, List.drop_length,
          List.take_of_length_le (by omega), List.drop_eq_nil_of_le (by omega)]
        exact ⟨rfl, rfl⟩
    rw [concatLoop]
    simp only [hxe, hsize]
    rw [slices_cons sliceSize hw rest hne, List.flatMap_cons, hcopied, hcut.1]
    congr 1
    rw [hcut.2] at hnext
    by_cases hlong : sliceSize < rest.length
    · refine ih (x + 1) _ _ hnext ?_ ?_ (by omega)
      · rw [List.length_drop, Nat.succ_mul]
        omega
      · have := sliceCount_sub sliceSize rest.length hw hlong
        rw [List.length_drop]
        omega
    · have hzero : left = 0 := by
        have := sliceCount_of_le sliceSize rest.length (List.length_pos_iff.mpr hne) (by omega)
        omega
      rw [hzero, List.drop_eq_nil_of_le (by omega), slices_nil]
      rfl

theorem concatAndInsert_eq (insertSize sliceSize : ℕ) (hw : 0 < sliceSize) (data1 data2 : Bytes) :
    concatAndInsert insertSize sliceSize data1 data2 =
      (slices sliceSize (data1 ++ data2)).flatMap (List.replicate insertSize 0 ++ ·) := by
  unfold concatAndInsert
  refine concatLoop_eq insertSize sliceSize _ _ 0 _ hw data2 data1 (data1 ++ data2) (Or.inl rfl)
    ?_ ?_ (Nat.zero_add _)
  · rw [Nat.zero_mul, Nat.zero_add, List.length_append]
  · rw [List.length_append]

example : concatAndInsert 1 2 [10] [20, 30] = [0, 10, 20, 0, 30] := by decide

theorem concatAndInsert_length (insertSize sliceSize : ℕ) (hw : 0 < sliceSize)
    (data1 data2 : Bytes) :
    (concatAndInsert insertSize sliceSize data1 data2).length =
      sliceCount sliceSize (data1.length + data2.length) * insertSize +
        (data1.length + data2.length) := by
  rw [concatAndInsert_eq insertSize sliceSize hw, length_flatMap_prepend, slices_length,
    flatten_slices sliceSize hw, List.length_replicate, List.length_append]

/-- Cut again at the longer width, the result gives back the slices, each with its header room. -/
theorem slices_concatAndInsert (insertSize sliceSize : ℕ) (hw : 0 < sliceSize)
    (data1 data2 : Bytes) :
    slices (insertSize + sliceSize) (concatAndInsert insertSize sliceSize data1 data2) =
      (slices sliceSize (data1 ++ data2)).map (List.replicate insertSize 0 ++ ·) := by
  have h := slices_prefixed sliceSize hw (List.replicate insertSize (0 : UInt8)) (data1 ++ data2)
  rw [List.length_replicate] at h
  rw [concatAndInsert_eq insertSize sliceSize hw, h]

end Sunshine.Video
