import Mathlib
import UiSync.SequenceNumber

/-!
# The numbers of a series

The `n`-th element of a series carries `ofNat n`, its place on the circle of 65536.  Numbers whose
places in the series lie fewer than half a turn apart compare as their places do
(`isNewerThan_ofNat`, `not_isNewerThan_ofNat`).
-/

namespace UiSync

namespace SequenceNumber

theorem next_ofNat (n : Nat) : (ofNat n).next = ofNat (n + 1) := by
  simp only [next, ofNat, mk.injEq]
  exact (UInt16.ofNat_add n 1).symm

theorem ofNat_eq_iff {m n : Nat} : ofNat m = ofNat n ↔ m % 65536 = n % 65536 := by
  simp only [ofNat, mk.injEq, ← UInt16.toNat_inj, UInt16.toNat_ofNat']

theorem exists_ofNat (s : SequenceNumber) : ∃ n < 65536, s = ofNat n :=
  ⟨s.value.toNat, s.value.toNat_lt, by rw [ofNat, UInt16.ofNat_toNat]⟩

/-- how far `a` is ahead of `b`, in steps forward on the circle -/
theorem toNat_sub_eq (a b : UInt16) :
    (a - b).toNat = (65536 - b.toNat + a.toNat) % 65536 := UInt16.toNat_sub a b

theorem isNewerThan_iff {s t : SequenceNumber} :
    s.isNewerThan t = true ↔
      (s.value - t.value).toNat ≠ 0 ∧ ((s.value - t.value).toNat < 32768 ∨
        (s.value - t.value).toNat = 32768 ∧ t.value.toNat < s.value.toNat) := by
  simp only [isNewerThan, ahead, halfTurn, Bool.and_eq_true, Bool.or_eq_true, bne_iff_ne,
    beq_iff_eq, decide_eq_true_eq, UInt16.lt_iff_toNat_lt, ← UInt16.toNat_inj, ne_eq]
  rfl

theorem isNewerThan_ofNat {m n : Nat} (h : n < m) (hd : m < n + 32768) :
    (ofNat m).isNewerThan (ofNat n) = true := by
  rw [isNewerThan_iff, toNat_sub_eq]
  simp only [ofNat, UInt16.toNat_ofNat']
  omega

example : (ofNat 65540).isNewerThan (ofNat 65535) = true := by decide

theorem not_isNewerThan_ofNat {m n : Nat} (h : m ≤ n) (hd : n < m + 32768) :
    (ofNat m).isNewerThan (ofNat n) = false := by
  rw [Bool.eq_false_iff, ne_eq, isNewerThan_iff, toNat_sub_eq]
  simp only [ofNat, UInt16.toNat_ofNat']
  omega

theorem isNewerThan_next (s : SequenceNumber) : s.next.isNewerThan s = true := by
  obtain ⟨n, -, rfl⟩ := exists_ofNat s
  rw [next_ofNat]
  exact isNewerThan_ofNat (by omega) (by omega)

/-- places apart by a positive number of steps below a whole turn have different numbers -/
theorem ofNat_ne {m n : Nat} (h : n < m) (hd : m < n + 65536) : ofNat m ≠ ofNat n := by
  rw [ne_eq, ofNat_eq_iff]
  omega

end SequenceNumber

end UiSync
