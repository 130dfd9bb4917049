/-!
# Little-endian bytes

Ring memory stores every number with its lowest byte first.  `encode` writes a
number into a fixed count of bytes and drops what does not fit.  `decode` reads
a list of bytes back, of any length.

Reading what was written gives back the number modulo the capacity
(`decode_encode`).
-/

namespace IoRing.LittleEndian

/-- The lowest `width` bytes of `n`, lowest first. -/
def encode : (width : Nat) → (n : Nat) → List UInt8
  | 0, _ => []
  | width + 1, n => UInt8.ofNat n :: encode width (n / 256)

/-- How many numbers fit in `width` bytes. -/
def capacity : (width : Nat) → Nat
  | 0 => 1
  | width + 1 => 256 * capacity width

/-- The number that a list of bytes stands for, lowest byte first. -/
def decode : List UInt8 → Nat
  | [] => 0
  | b :: bs => b.toNat + 256 * decode bs

@[simp] theorem length_encode (width n : Nat) : (encode width n).length = width := by
  induction width generalizing n with
  | zero => rfl
  | succ width ih => simp [encode, ih]

/-- Reading back what was written loses only what the width cannot hold. -/
theorem decode_encode (width n : Nat) : decode (encode width n) = n % capacity width := by
  induction width generalizing n with
  | zero => simp [encode, decode, capacity, Nat.mod_one]
  | succ width ih =>
    rw [encode, decode, ih, capacity, Nat.mod_mul]
    simp

end IoRing.LittleEndian
