import Mathlib.Tactic.Common

/-!
# The bytes of a string

A Go string converted to a byte slice. The strings of this development are
sequences of characters, so the bytes are their UTF-8 encoding.
-/

namespace Yanta.Go

abbrev Bytes := List UInt8

/-- `[]byte(s)`. -/
def bytesOf (s : String) : Bytes :=
  s.toList.flatMap String.utf8EncodeChar

theorem bytesOf_injective : Function.Injective bytesOf := by
  intro s t h
  rw [← String.toByteArray_inj, ← String.ofList_toList (s := s),
    ← String.ofList_toList (s := t)]
  exact congrArg List.toByteArray h

/-- The encoding of a character other than NUL has no zero byte. -/
theorem zero_notMem_utf8EncodeChar {c : Char} (hc : c ≠ '\x00') :
    0 ∉ String.utf8EncodeChar c := by
  have hpos : c.toNat ≠ 0 := by
    intro hzero
    apply hc
    apply Char.ext
    exact UInt32.toNat_inj.mp hzero
  have hval : c.val.toNat = c.toNat := rfl
  intro h
  simp only [String.utf8EncodeChar] at h
  split_ifs at h
  all_goals
    simp [← UInt8.toNat_inj] at h
    omega

theorem zero_notMem_bytesOf {s : String} (h : '\x00' ∉ s.toList) : 0 ∉ bytesOf s := by
  intro hmem
  obtain ⟨c, hc, hzero⟩ := List.mem_flatMap.mp hmem
  have hne : c ≠ '\x00' := by
    intro heq
    exact h (heq ▸ hc)
  exact zero_notMem_utf8EncodeChar hne hzero

end Yanta.Go
