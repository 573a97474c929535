import ArenaHash.Pool.Address
import Mathlib.Algebra.GroupWithZero.Nat
import Mathlib.Order.CompletePartialOrder
import Mathlib.Order.Interval.Set.Disjoint

/-!
# Slots and their addresses

An arena that `Fits` may end right at the end of the address space. The distance of an address from
its start then tells which slot starts there, if one does: in the arena the distance does not wrap
around, and below the start a slot is never looked for. So a handle is found again from its address
(`Fits.locate_inline`, `locate_overflow`), and the slots lie side by side.
-/

namespace ArenaHash

namespace Arena

variable {a : Arena} {p : UInt64} {i j : Nat}

/-- Slots are not empty, and the last one ends within the address space. -/
structure Fits (a : Arena) : Prop where
  slotSize_pos : 0 < a.slotSize
  end_le : a.start.toNat + a.slots * a.slotSize ≤ 2 ^ 64

/-- The addresses of the bytes of the arena. -/
def extent (a : Arena) : Set Nat := Set.Ico a.start.toNat (a.start.toNat + a.slots * a.slotSize)

/-- The addresses of the bytes of a slot. -/
def slotExtent (a : Arena) (i : Nat) : Set Nat :=
  Set.Ico (a.address (.inline i)).toNat ((a.address (.inline i)).toNat + a.slotSize)

/-- From the start on, the distance does not wrap around. -/
theorem offset_eq (h : a.start ≤ p) : a.offset p = p.toNat - a.start.toNat :=
  UInt64.toNat_sub_of_le _ _ h

theorem contains_iff : a.contains p = true ↔ p.toNat ∈ a.extent := by
  rw [extent, Set.mem_Ico, contains, Bool.and_eq_true, decide_eq_true_eq, decide_eq_true_eq,
    totalSize]
  constructor
  · rintro ⟨hstart, hoffset⟩
    rw [offset_eq hstart] at hoffset
    rw [UInt64.le_iff_toNat_le] at hstart
    omega
  · rintro ⟨hstart, hend⟩
    have hle : a.start ≤ p := UInt64.le_iff_toNat_le.mpr hstart
    refine ⟨hle, ?_⟩
    rw [offset_eq hle]
    omega

theorem slotAt?_eq_some_iff (hpos : 0 < a.slotSize) :
    a.slotAt? p = some i ↔ i < a.slots ∧ p.toNat = a.start.toNat + i * a.slotSize := by
  unfold slotAt?
  simp only [Option.ite_none_right_eq_some, Bool.and_eq_true, decide_eq_true_eq, contains_iff,
    extent, Set.mem_Ico, Option.some.injEq]
  constructor
  · rintro ⟨⟨⟨hstart, hend⟩, hmod⟩, rfl⟩
    rw [offset_eq (UInt64.le_iff_toNat_le.mpr hstart)] at hmod ⊢
    have hwhole : (p.toNat - a.start.toNat) / a.slotSize * a.slotSize =
        p.toNat - a.start.toNat := Nat.div_mul_cancel (Nat.dvd_of_mod_eq_zero hmod)
    refine ⟨?_, by omega⟩
    rw [Nat.div_lt_iff_lt_mul hpos]
    omega
  · rintro ⟨hlt, hp⟩
    have hle : a.start ≤ p := UInt64.le_iff_toNat_le.mpr (by omega)
    have hoffset : a.offset p = i * a.slotSize := by rw [offset_eq hle]; omega
    have hin : i * a.slotSize < a.slots * a.slotSize := Nat.mul_lt_mul_of_pos_right hlt hpos
    rw [hoffset]
    exact ⟨⟨⟨by omega, by omega⟩, Nat.mul_mod_left _ _⟩, Nat.mul_div_cancel _ hpos⟩

/-- Outside the arena no slot starts. -/
theorem slotAt?_eq_none (h : p.toNat ∉ a.extent) : a.slotAt? p = none := by
  unfold slotAt?
  rw [Bool.eq_false_iff.mpr (mt contains_iff.mp h)]
  rfl

theorem locate_overflow {b : UInt64} (h : b.toNat ∉ a.extent) :
    a.locate (a.address (.overflow b)) = .overflow b := by
  rw [address, locate, slotAt?_eq_none h]

namespace Fits

/-- The end of a slot is no later than the end of the arena. -/
theorem slot_end_le (hi : i < a.slots) : i * a.slotSize + a.slotSize ≤ a.slots * a.slotSize := by
  rw [← Nat.succ_mul]
  exact Nat.mul_le_mul_right _ hi

variable (h : a.Fits)
include h

/-- The address of a slot does not wrap around. -/
theorem toNat_address (hi : i < a.slots) :
    (a.address (.inline i)).toNat = a.start.toNat + i * a.slotSize := by
  have hend := slot_end_le hi
  have hle := h.end_le
  have hpos := h.slotSize_pos
  rw [address, UInt64.toNat_add, UInt64.toNat_ofNat', Nat.mod_eq_of_lt (by omega),
    Nat.mod_eq_of_lt (by omega)]

theorem locate_inline (hi : i < a.slots) : a.locate (a.address (.inline i)) = .inline i := by
  rw [locate, (slotAt?_eq_some_iff h.slotSize_pos).mpr ⟨hi, h.toNat_address hi⟩]

/-- What is found at an address has this address. -/
theorem address_locate (p : UInt64) : a.address (a.locate p) = p := by
  unfold locate
  cases hp : a.slotAt? p with
  | none => rfl
  | some i =>
    obtain ⟨hi, hp⟩ := (slotAt?_eq_some_iff h.slotSize_pos).mp hp
    exact UInt64.toNat_inj.mp ((h.toNat_address hi).trans hp.symm)

theorem slotExtent_subset (hi : i < a.slots) : a.slotExtent i ⊆ a.extent := by
  have hend := slot_end_le hi
  rw [slotExtent, extent, h.toNat_address hi]
  exact Set.Ico_subset_Ico (by omega) (by omega)

theorem disjoint_slotExtent (hi : i < a.slots) (hj : j < a.slots) (hij : i ≠ j) :
    Disjoint (a.slotExtent i) (a.slotExtent j) := by
  -- The slot of the smaller index ends before the other one starts.
  rw [slotExtent, slotExtent, h.toNat_address hi, h.toNat_address hj, Set.Ico_disjoint_Ico]
  rcases Nat.lt_or_gt_of_ne hij with hlt | hlt
  · have hnext := Nat.mul_le_mul_right a.slotSize (Nat.succ_le_of_lt hlt)
    rw [Nat.succ_mul] at hnext
    omega
  · have hnext := Nat.mul_le_mul_right a.slotSize (Nat.succ_le_of_lt hlt)
    rw [Nat.succ_mul] at hnext
    omega

end Fits

/-- Which addresses are in the arena, which slot starts at one, and that handles and addresses
translate into each other. -/
structure Exact (a : Arena) : Prop where
  contains : ∀ p, a.contains p = true ↔
    a.start.toNat ≤ p.toNat ∧ p.toNat < a.start.toNat + a.slots * a.slotSize
  slotAt : ∀ p i, a.slotAt? p = some i ↔
    i < a.slots ∧ p.toNat = a.start.toNat + i * a.slotSize
  inline : ∀ i, i < a.slots → a.locate (a.address (.inline i)) = .inline i
  overflow : ∀ b : UInt64, b.toNat ∉ a.extent →
    a.locate (a.address (.overflow b)) = .overflow b
  address : ∀ p, a.address (a.locate p) = p
  within : ∀ i, i < a.slots → a.slotExtent i ⊆ a.extent
  apart : ∀ i j, i < a.slots → j < a.slots → i ≠ j →
    Disjoint (a.slotExtent i) (a.slotExtent j)

theorem addresses_exact (hsize : 0 < a.slotSize)
    (hend : a.start.toNat + a.slots * a.slotSize ≤ 2 ^ 64) : a.Exact := by
  have h : a.Fits := ⟨hsize, hend⟩
  exact
    { contains := fun _ => contains_iff
      slotAt := fun _ _ => slotAt?_eq_some_iff hsize
      inline := fun _ hi => h.locate_inline hi
      overflow := fun _ hb => locate_overflow hb
      address := h.address_locate
      within := fun _ hi => h.slotExtent_subset hi
      apart := fun _ _ hi hj hij => h.disjoint_slotExtent hi hj hij }

/-- Four slots for elements of three bytes, up to the last address there is. -/
def last : Arena := ⟨0xffffffffffffffe0, 4, (⟨3, 1⟩ : Layout).slotSize⟩

/-- The last slot is found, and neither the byte before the arena nor the first address is in it. -/
theorem addresses_exact_last :
    last.start.toNat + last.slots * last.slotSize = 2 ^ 64 ∧
      last.slotAt? 0xfffffffffffffff8 = some 3 ∧ last.contains 0xffffffffffffffdf = false ∧
      last.contains 0 = false ∧ last.Exact :=
  ⟨by decide, by decide, by decide, by decide, addresses_exact (by decide) (by decide)⟩

end Arena

end ArenaHash
