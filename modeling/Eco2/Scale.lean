/-
Self-delimiting codes, and the SCALE encodings that are made of them.

A code is `PrefixFree` when its words can be read off the front of whatever
follows them. Such codes may be put one after another: this is what lets a tuple
be read back field by field, whatever the fields are. A byte vector is not of
fixed length, but its length is written in front of it by a code that is prefix
free (`PrefixFree.framed`).

The second half is the part of SCALE that fixed-width integers, byte arrays and
byte vectors need: little-endian integers, the four modes of a compact length,
and arrays one after another with the decoder that takes them off again.
-/
import Mathlib.Data.Vector.Basic
import Mathlib.Data.Nat.Bits
import Mathlib.Tactic.Ring

set_option autoImplicit false

namespace Eco2.Scale

/-! ## Codes that are read off the front -/

section PrefixFree

variable {α κ β : Type}

/-- A word of the code is determined by any string it is in front of. -/
def PrefixFree (enc : α → List β) : Prop :=
  ∀ ⦃a b : α⦄ ⦃x y : List β⦄, enc a ++ x = enc b ++ y → a = b ∧ x = y

/-- Words of one length are read off by counting. -/
theorem prefixFree_of_length {enc : α → List β} (n : ℕ) (hlen : ∀ a, (enc a).length = n)
    (hinj : Function.Injective enc) : PrefixFree enc := by
  intro a b x y h
  obtain ⟨hword, hrest⟩ := List.append_inj h (by rw [hlen a, hlen b])
  exact ⟨hinj hword, hrest⟩

/-- A header that tells how long the body is makes the whole readable. -/
theorem PrefixFree.framed {header : κ → List β} {body : α → List β} {key : α → κ}
    (h : PrefixFree header) (hinj : Function.Injective body)
    (hlen : ∀ a b, key a = key b → (body a).length = (body b).length) :
    PrefixFree fun a => header (key a) ++ body a := by
  intro a b x y hxy
  simp only [List.append_assoc] at hxy
  obtain ⟨hkey, hrest⟩ := h hxy
  obtain ⟨hbody, hend⟩ := List.append_inj hrest (hlen a b hkey)
  exact ⟨hinj hbody, hend⟩

end PrefixFree

/-! ## Little-endian integers -/

/-- The low `width` bytes of `n`, the lowest first. -/
def le_bytes : ℕ → ℕ → List UInt8
  | 0, _ => []
  | width + 1, n => UInt8.ofNat n :: le_bytes width (n / 256)

@[simp] theorem length_le_bytes (width n : ℕ) : (le_bytes width n).length = width := by
  induction width generalizing n with
  | zero => rfl
  | succ width ih => rw [le_bytes, List.length_cons, ih]

/-- The bytes determine the integer, below what they can hold. -/
theorem le_bytes_inj {width n m : ℕ} (hn : n < 256 ^ width) (hm : m < 256 ^ width)
    (h : le_bytes width n = le_bytes width m) : n = m := by
  induction width generalizing n m with
  | zero =>
    rw [pow_zero, Nat.lt_one_iff] at hn hm
    rw [hn, hm]
  | succ width ih =>
    rw [pow_succ] at hn hm
    obtain ⟨hhead, htail⟩ := List.cons.inj h
    have hlow : n % 256 = m % 256 := by
      have htoNat := congrArg UInt8.toNat hhead
      rwa [UInt8.toNat_ofNat', UInt8.toNat_ofNat'] at htoNat
    have hhigh : n / 256 = m / 256 :=
      ih (Nat.div_lt_of_lt_mul (by rwa [Nat.mul_comm] at hn))
        (Nat.div_lt_of_lt_mul (by rwa [Nat.mul_comm] at hm)) htail
    rw [← Nat.div_add_mod n 256, ← Nat.div_add_mod m 256, hlow, hhigh]

def encode_u8 (n : UInt8) : List UInt8 := [n]

def encode_u64 (n : UInt64) : List UInt8 := le_bytes 8 n.toNat

theorem prefixFree_encode_u8 : PrefixFree encode_u8 :=
  prefixFree_of_length 1 (fun _ => rfl) fun _ _ h => (List.cons.inj h).1

theorem prefixFree_encode_u64 : PrefixFree encode_u64 := by
  refine prefixFree_of_length 8 (fun _ => length_le_bytes _ _) fun a b h => ?_
  exact UInt64.toNat_inj.mp (le_bytes_inj a.toNat_lt b.toNat_lt h)

/-! ## Compact lengths -/

/-- `Compact<u32>`: the low two bits of the first byte are the mode. -/
def encode_compact (n : UInt32) : List UInt8 :=
  if n.toNat < 2 ^ 6 then le_bytes 1 (4 * n.toNat)
  else if n.toNat < 2 ^ 14 then le_bytes 2 (4 * n.toNat + 1)
  else if n.toNat < 2 ^ 30 then le_bytes 4 (4 * n.toNat + 2)
  else 3 :: le_bytes 4 n.toNat

/-- The number of bytes in each mode. -/
def compact_width : ℕ → ℕ
  | 0 => 1
  | 1 => 2
  | 2 => 4
  | _ => 5

/-- What one unit of the length is worth in each mode. -/
def compact_unit : ℕ → ℕ
  | 3 => 256
  | _ => 4

/-- Every mode is one integer whose low two bits are the mode. -/
theorem encode_compact_eq (n : UInt32) : ∃ mode word,
    encode_compact n = le_bytes (compact_width mode) word ∧ word < 256 ^ compact_width mode
      ∧ word % 4 = mode ∧ word / compact_unit mode = n.toNat := by
  have hn := n.toNat_lt
  unfold encode_compact
  by_cases h6 : n.toNat < 2 ^ 6
  · rw [if_pos h6]
    exact ⟨0, 4 * n.toNat, rfl, by simp only [compact_width]; omega, by omega,
      by simp only [compact_unit]; omega⟩
  by_cases h14 : n.toNat < 2 ^ 14
  · rw [if_neg h6, if_pos h14]
    exact ⟨1, 4 * n.toNat + 1, rfl, by simp only [compact_width]; omega, by omega,
      by simp only [compact_unit]; omega⟩
  by_cases h30 : n.toNat < 2 ^ 30
  · rw [if_neg h6, if_neg h14, if_pos h30]
    exact ⟨2, 4 * n.toNat + 2, rfl, by simp only [compact_width]; omega, by omega,
      by simp only [compact_unit]; omega⟩
  · rw [if_neg h6, if_neg h14, if_neg h30]
    refine ⟨3, 256 * n.toNat + 3, ?_, by simp only [compact_width]; omega, by omega,
      by simp only [compact_unit]; omega⟩
    -- the last mode has a byte of its own in front of the four
    have hhead : UInt8.ofNat (256 * n.toNat + 3) = 3 := by
      rw [← UInt8.toNat_inj, UInt8.toNat_ofNat']
      exact Nat.mul_add_mod 256 n.toNat 3
    have htail : (256 * n.toNat + 3) / 256 = n.toNat := by omega
    change _ = UInt8.ofNat (256 * n.toNat + 3) :: le_bytes 4 ((256 * n.toNat + 3) / 256)
    rw [hhead, htail]

theorem compact_width_pos (mode : ℕ) : 0 < compact_width mode := by
  unfold compact_width
  split <;> decide

/-- The first byte tells the mode, and the mode how many bytes there are. -/
theorem prefixFree_encode_compact : PrefixFree encode_compact := by
  intro a b x y h
  obtain ⟨mode, word, henc, hword, hmode, hvalue⟩ := encode_compact_eq a
  obtain ⟨mode', word', henc', hword', hmode', hvalue'⟩ := encode_compact_eq b
  rw [henc, henc'] at h
  have heq : mode = mode' := by
    obtain ⟨width, hwidth⟩ := Nat.exists_eq_succ_of_ne_zero (compact_width_pos mode).ne'
    obtain ⟨width', hwidth'⟩ := Nat.exists_eq_succ_of_ne_zero (compact_width_pos mode').ne'
    rw [hwidth, hwidth', le_bytes, le_bytes] at h
    have hhead := congrArg UInt8.toNat (List.cons.inj h).1
    rw [UInt8.toNat_ofNat', UInt8.toNat_ofNat'] at hhead
    omega
  subst heq
  obtain ⟨hbytes, hrest⟩ := List.append_inj h (by rw [length_le_bytes, length_le_bytes])
  obtain rfl := le_bytes_inj hword hword' hbytes
  exact ⟨UInt32.toNat_inj.mp (hvalue.symm.trans hvalue'), hrest⟩

/-! ## Byte vectors -/

/-- `Vec<u8>`: its length, then its bytes. -/
def encode_vec (v : List UInt8) : List UInt8 := encode_compact (UInt32.ofNat v.length) ++ v

/-- Vectors whose length is a `u32`. -/
theorem prefixFree_encode_vec :
    PrefixFree fun v : {v : List UInt8 // v.length < 2 ^ 32} => encode_vec v.val := by
  refine prefixFree_encode_compact.framed Subtype.val_injective fun v w hlen => ?_
  have htoNat := congrArg UInt32.toNat hlen
  rwa [UInt32.toNat_ofNat', UInt32.toNat_ofNat', Nat.mod_eq_of_lt v.2,
    Nat.mod_eq_of_lt w.2] at htoNat

/-- A vector is read off the front of whatever follows it. -/
theorem encode_vec_append_inj {v w x y : List UInt8} (hv : v.length < 2 ^ 32)
    (hw : w.length < 2 ^ 32) (h : encode_vec v ++ x = encode_vec w ++ y) : v = w ∧ x = y := by
  obtain ⟨hvec, hrest⟩ := prefixFree_encode_vec (a := ⟨v, hv⟩) (b := ⟨w, hw⟩) h
  exact ⟨congrArg Subtype.val hvec, hrest⟩

/-! ## Byte arrays, one after another -/

section Arrays

variable {n k : ℕ}

/-- `[u8; n]`. -/
abbrev ByteArr (n : ℕ) := List.Vector UInt8 n

theorem prefixFree_toList : PrefixFree (List.Vector.toList : ByteArr n → List UInt8) :=
  prefixFree_of_length n List.Vector.toList_length List.Vector.toList_injective

/-- Arrays in order. -/
def encode_arrays (arrays : List.Vector (ByteArr n) k) : List UInt8 :=
  arrays.toList.flatMap List.Vector.toList

theorem length_encode_arrays (arrays : List.Vector (ByteArr n) k) :
    (encode_arrays arrays).length = k * n := by
  rw [encode_arrays, List.length_flatMap, List.map_congr_left fun a _ => a.toList_length,
    List.map_const', List.sum_replicate_nat, arrays.toList_length]

/-- Taking one array off the input; short input is refused. -/
def read_array (n : ℕ) (input : List UInt8) : Option (ByteArr n × List UInt8) :=
  if h : n ≤ input.length then
    some (⟨input.take n, List.length_take_of_le h⟩, input.drop n)
  else none

/-- Taking `k` arrays off the input; what is left over is not looked at. -/
def read_arrays (n : ℕ) : (k : ℕ) → List UInt8 → Option (List.Vector (ByteArr n) k × List UInt8)
  | 0, input => some (.nil, input)
  | k + 1, input => do
    let (array, rest) ← read_array n input
    let (arrays, rest) ← read_arrays n k rest
    some (array ::ᵥ arrays, rest)

theorem read_array_append (array : ByteArr n) (rest : List UInt8) :
    read_array n (array.toList ++ rest) = some (array, rest) := by
  have hle : n ≤ (array.toList ++ rest).length := by
    rw [List.length_append, array.toList_length]
    exact Nat.le_add_right n _
  have htake : (array.toList ++ rest).take n = array.toList := by
    rw [List.take_append_of_le_length array.toList_length.ge]
    exact List.take_of_length_le array.toList_length.le
  have hdrop : (array.toList ++ rest).drop n = rest :=
    List.drop_left' array.toList_length
  rw [read_array, dif_pos hle, hdrop]
  exact congrArg (fun a => some (a, rest)) (List.Vector.eq _ _ htake)

/-- **The round trip.** -/
theorem read_arrays_append (arrays : List.Vector (ByteArr n) k) (rest : List UInt8) :
    read_arrays n k (encode_arrays arrays ++ rest) = some (arrays, rest) := by
  induction k with
  | zero =>
    rw [List.Vector.eq_nil arrays]
    rfl
  | succ k ih =>
    obtain ⟨array, arrays, rfl⟩ := List.Vector.exists_eq_cons arrays
    rw [encode_arrays, List.Vector.toList_cons, List.flatMap_cons, List.append_assoc, read_arrays,
      read_array_append]
    exact congrArg (· >>= _) (ih arrays)

/-- Only short input is refused. -/
theorem read_arrays_eq_none_iff {input : List UInt8} :
    read_arrays n k input = none ↔ input.length < k * n := by
  induction k generalizing input with
  | zero => simp [read_arrays]
  | succ k ih =>
    rw [read_arrays, Nat.add_mul, Nat.one_mul]
    by_cases h : n ≤ input.length
    · -- the first array is there, and the others are looked for in what is left
      have hrest := @ih (input.drop n)
      rw [List.length_drop] at hrest
      have hbind : ((read_arrays n k (input.drop n)).bind fun p => some (⟨input.take n,
            List.length_take_of_le h⟩ ::ᵥ p.1, p.2)) = none
          ↔ read_arrays n k (input.drop n) = none := by
        cases read_arrays n k (input.drop n) <;> simp
      simp only [read_array, dif_pos h, Option.bind_eq_bind, Option.bind_some]
      rw [hbind, hrest]
      omega
    · simp only [read_array, dif_neg h, Option.bind_eq_bind, Option.bind_none, true_iff]
      omega

end Arrays

end Eco2.Scale
