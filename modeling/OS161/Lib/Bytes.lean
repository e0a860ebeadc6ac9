import Mathlib.Data.UInt

namespace Bytes

abbrev Mem := Nat → UInt8

def load32 (m : Mem) (a : Nat) : Nat :=
  (m a).toNat * 2 ^ 24 + (m (a + 1)).toNat * 2 ^ 16 + (m (a + 2)).toNat * 2 ^ 8 +
    (m (a + 3)).toNat

def load16 (m : Mem) (a : Nat) : Nat := (m a).toNat * 2 ^ 8 + (m (a + 1)).toNat

def byteOf (v k : Nat) : UInt8 := UInt8.ofNat (v / 2 ^ (8 * k))

def store32 (m : Mem) (a v : Nat) : Mem := fun x =>
  if x = a then byteOf v 3
  else if x = a + 1 then byteOf v 2
  else if x = a + 2 then byteOf v 1
  else if x = a + 3 then byteOf v 0
  else m x

variable {m m' : Mem} {a b v x : Nat}

theorem load32_lt (m : Mem) (a : Nat) : load32 m a < 2 ^ 32 := by
  have h0 := (m a).toNat_lt
  have h1 := (m (a + 1)).toNat_lt
  have h2 := (m (a + 2)).toNat_lt
  have h3 := (m (a + 3)).toNat_lt
  unfold load32
  omega

theorem load32_congr (h : ∀ x, a ≤ x → x < a + 4 → m' x = m x) : load32 m' a = load32 m a := by
  unfold load32
  rw [h a (by omega) (by omega),h (a + 1) (by omega) (by omega),h (a + 2) (by omega) (by omega),
    h (a + 3) (by omega) (by omega)]

theorem store32_of_outside (h : x < a ∨ a + 4 ≤ x) : store32 m a v x = m x := by
  unfold store32
  rw [if_neg (by omega),if_neg (by omega),if_neg (by omega),if_neg (by omega)]

theorem load32_store32_of_disjoint (h : a + 4 ≤ b ∨ b + 4 ≤ a) :
    load32 (store32 m a v) b = load32 m b :=
  load32_congr fun x _ _ => store32_of_outside (by omega)

theorem toNat_byteOf (v k : Nat) : (byteOf v k).toNat = v / 2 ^ (8 * k) % 256 := by
  simp [byteOf]

theorem load32_of_bytes (hv : v < 2 ^ 32) (h : ∀ k < 4, m (a + k) = byteOf v (3 - k)) :
    load32 m a = v := by
  have h0 : m a = byteOf v 3 := h 0 (by decide)
  unfold load32
  rw [h0,h 1 (by decide),h 2 (by decide),h 3 (by decide)]
  simp only [toNat_byteOf]
  omega

theorem load16_of_bytes (hv : v < 2 ^ 16) (h : ∀ k < 2, m (a + k) = byteOf v (1 - k)) :
    load16 m a = v := by
  have h0 : m a = byteOf v 1 := h 0 (by decide)
  unfold load16
  rw [h0,h 1 (by decide)]
  simp only [toNat_byteOf]
  omega

theorem load32_store32 (hv : v < 2 ^ 32) : load32 (store32 m a v) a = v := by
  refine load32_of_bytes hv fun k hk => ?_
  unfold store32
  rcases (by omega : k = 0 ∨ k = 1 ∨ k = 2 ∨ k = 3) with rfl | rfl | rfl | rfl <;> simp

end Bytes
