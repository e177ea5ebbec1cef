import Mathlib.Data.Int.ModEq
import Mathlib.Tactic.Linarith
import UniEvent.Model.ReadBuffer

/-! # Carving a read buffer

The saved string is aligned whatever the address and the capacity are, since the word size is a multiple of the size of
a pointer. It lies in the buffer exactly if the buffer is large enough for it and for the bytes that the alignment
takes: nothing checks that, and with less the subtractions wrap around.
-/

namespace UniEvent.ReadBuffer

variable (sizes : Sizes) (buf : Buffer)

/-- The string fits into the buffer behind the part for the data, is aligned, and is found again. -/
def Carved : Prop :=
  (uvxBufAlloc sizes buf).2.len.toNat + sizes.string.toNat ≤ buf.cap.toNat ∧
    sizes.pointer.toNat ∣ ((uvxBufAlloc sizes buf).2.base + (uvxBufAlloc sizes buf).2.len).toNat ∧
    uvxDetachBuf (uvxBufAlloc sizes buf).2 = some (uvxBufAlloc sizes buf).1

instance : Decidable (Carved sizes buf) := inferInstanceAs (Decidable (_ ∧ _ ∧ _))

/-- The bytes at the end of the buffer that are given up for the alignment. -/
def gap : ℕ := (buf.ptr.toNat + buf.cap.toNat) % sizes.pointer.toNat

theorem toNat_align : ((buf.ptr + buf.cap) % sizes.pointer).toNat = gap sizes buf := by
  rw [UInt64.toNat_mod, UInt64.toNat_add, Nat.mod_mod_of_dvd _ sizes.word, gap]

private theorem toNat_sub_modEq (a b : UInt64) : ((a - b).toNat : ℤ) ≡ a.toNat - b.toNat [ZMOD 2 ^ 64] := by
  have small := b.toNat_lt
  rw [UInt64.toNat_sub]
  have cast : ((2 ^ 64 - b.toNat + a.toNat : ℕ) : ℤ) = 2 ^ 64 + (a.toNat - b.toNat) := by
    omega
  rw [Int.natCast_mod, cast]
  refine (Int.mod_modEq _ _).trans ?_
  exact Int.add_modEq_left

private theorem toNat_add_modEq (a b : UInt64) : ((a + b).toNat : ℤ) ≡ a.toNat + b.toNat [ZMOD 2 ^ 64] := by
  rw [UInt64.toNat_add, Int.natCast_mod, Nat.cast_add]
  exact Int.mod_modEq _ _

/-- The saved string is aligned even where the arithmetic wraps around. -/
theorem pointer_dvd_saved :
    sizes.pointer.toNat ∣ ((uvxBufAlloc sizes buf).2.base + (uvxBufAlloc sizes buf).2.len).toNat := by
  have word : (sizes.pointer.toNat : ℤ) ∣ 2 ^ 64 := by exact_mod_cast sizes.word
  have saved : (((uvxBufAlloc sizes buf).2.base + (uvxBufAlloc sizes buf).2.len).toNat : ℤ) ≡
      buf.ptr.toNat + (buf.cap.toNat - gap sizes buf - sizes.string.toNat) [ZMOD 2 ^ 64] := by
    refine (toNat_add_modEq _ _).trans ?_
    apply Int.ModEq.add_left
    refine (toNat_sub_modEq _ _).trans ?_
    apply Int.ModEq.sub_right
    rw [← toNat_align]
    exact toNat_sub_modEq _ _
  have split := Nat.div_add_mod (buf.ptr.toNat + buf.cap.toNat) sizes.pointer.toNat
  have whole : ((buf.ptr.toNat + (buf.cap.toNat - gap sizes buf - sizes.string.toNat) : ℤ)) =
      sizes.pointer.toNat * ((buf.ptr.toNat + buf.cap.toNat) / sizes.pointer.toNat : ℕ) - sizes.string.toNat := by
    have cast := congrArg (Nat.cast : ℕ → ℤ) split
    push_cast at cast
    rw [gap]
    push_cast
    linarith
  have divides : (sizes.pointer.toNat : ℤ) ∣ buf.ptr.toNat + (buf.cap.toNat - gap sizes buf - sizes.string.toNat) := by
    rw [whole]
    exact Int.dvd_sub (Dvd.intro _ rfl) (by exact_mod_cast sizes.aligned)
  have zero := (saved.of_dvd word).trans (Int.modEq_zero_iff_dvd.mpr divides)
  exact_mod_cast Int.modEq_zero_iff_dvd.mp zero

/-- What is left for the data, if the string fits. -/
theorem toNat_len (fits : sizes.string.toNat + gap sizes buf ≤ buf.cap.toNat) :
    (uvxBufAlloc sizes buf).2.len.toNat = buf.cap.toNat - gap sizes buf - sizes.string.toNat := by
  have cut : (buf.cap - (buf.ptr + buf.cap) % sizes.pointer).toNat = buf.cap.toNat - gap sizes buf := by
    rw [UInt64.toNat_sub_of_le, toNat_align]
    rw [UInt64.le_iff_toNat_le, toNat_align]
    omega
  change (buf.cap - (buf.ptr + buf.cap) % sizes.pointer - sizes.string).toNat = _
  rw [UInt64.toNat_sub_of_le, cut]
  rw [UInt64.le_iff_toNat_le, cut]
  omega

/-- Words that add up are what was taken away, or the subtraction has wrapped around. -/
theorem toNat_len_wraps (small : buf.cap.toNat < sizes.string.toNat + gap sizes buf) :
    buf.cap.toNat < (uvxBufAlloc sizes buf).2.len.toNat + sizes.string.toNat := by
  have align := toNat_align sizes buf
  have bound := sizes.string.toNat_lt
  have cap := buf.cap.toNat_lt
  change buf.cap.toNat < (buf.cap - (buf.ptr + buf.cap) % sizes.pointer - sizes.string).toNat + _
  rw [UInt64.toNat_sub, UInt64.toNat_sub, align]
  have less : gap sizes buf < 2 ^ 64 := by
    rw [← align]
    exact UInt64.toNat_lt _
  omega

/-- A buffer is carved well exactly if it is there, and large enough for the string and the gap. -/
theorem carved_iff : Carved sizes buf ↔ sizes.string.toNat + gap sizes buf ≤ buf.cap.toNat ∧ buf.ptr ≠ 0 := by
  constructor
  · rintro ⟨inside, -, found⟩
    constructor
    · by_contra small
      have beyond := toNat_len_wraps sizes buf (by omega)
      omega
    · intro null
      rw [uvxDetachBuf, if_pos (by exact null)] at found
      cases found
  · rintro ⟨fits, present⟩
    refine ⟨?_, pointer_dvd_saved sizes buf, ?_⟩
    · rw [toNat_len sizes buf fits]
      omega
    · exact if_neg present

/-- Pointers of 8 bytes and strings of 40. -/
def wide : Sizes := ⟨8, 40, by decide, by decide⟩

/-- A callback that throws. -/
def throwing : Memory where
  bufAllocCallback := some fun _ => none
  allocate cap := ⟨4096, cap⟩
  empty := ⟨8192, 0⟩

/-- libuv asks for 64k, the callback throws, and libuv is told to read almost 2^64 bytes into an empty string. -/
theorem throwing_not_carved : (streamBufAlloc wide throwing 65536).2.len = 18446744073709551576 ∧
    ¬ Carved wide (throwing.handleBufAlloc 65536) := by
  decide

end UniEvent.ReadBuffer
