/-
`Number.parseInt` of ECMAScript.

`parseInt` skips white space, reads a sign and the prefix of a hexadecimal number, and
then as many digits as there are; without any it gives `NaN`. `parseInt_toString` says
that it reads what a number prints.

Numbers from `2 ^ 53` on, which it rounds, are left out.
-/
import Mathlib.Data.Nat.Basic
import Mathlib.Tactic.NormNum

set_option autoImplicit false

namespace Eco2

/-- What `parseInt` skips: white space and line terminators. -/
def is_white_space (c : Char) : Bool :=
  c.toNat ∈ [0x9, 0xa, 0xb, 0xc, 0xd, 0x20, 0xa0, 0x1680, 0x2028, 0x2029, 0x202f, 0x205f, 0x3000,
    0xfeff] || (0x2000 ≤ c.toNat && c.toNat ≤ 0x200a)

/-- The value of a digit, and of a letter as one. -/
def digit (radix : ℕ) (c : Char) : Option ℕ :=
  let value :=
    if c.isDigit then c.toNat - '0'.toNat
    else if c.isLower then c.toNat - 'a'.toNat + 10
    else if c.isUpper then c.toNat - 'A'.toNat + 10
    else radix
  if value < radix then some value else none

/-- The digits at the beginning. -/
def digits (radix : ℕ) : List Char → List ℕ
  | [] => []
  | c :: s =>
    match digit radix c with
    | some value => value :: digits radix s
    | none => []

/-- The sign, and what follows it. -/
def split_sign : List Char → ℤ × List Char
  | '-' :: s => (-1, s)
  | '+' :: s => (1, s)
  | s => (1, s)

/-- The radix, and what follows its prefix. -/
def split_radix : List Char → ℕ × List Char
  | '0' :: 'x' :: s => (16, s)
  | '0' :: 'X' :: s => (16, s)
  | s => (10, s)

/-- `Number.parseInt(string)`; `none` is `NaN`. -/
def parseInt (string : String) : Option ℤ :=
  let (sign, s) := split_sign (string.toList.dropWhile is_white_space)
  let (radix, s) := split_radix s
  match digits radix s with
  | [] => none
  | d :: ds => some (sign * ((d :: ds).foldl (fun n d => radix * n + d) 0 : ℕ))

theorem isDigit_bounds {c : Char} (h : c.isDigit = true) : 48 ≤ c.toNat ∧ c.toNat ≤ 57 :=
  Char.isDigit_iff_toNat.mp h

theorem digit_ten {c : Char} (h : c.isDigit = true) : digit 10 c = some (c.toNat - '0'.toNat) := by
  have hbounds := isDigit_bounds h
  have hvalue : c.toNat - '0'.toNat < 10 := by
    change c.toNat - 48 < 10
    omega
  simp only [digit, if_pos h, if_pos hvalue]

theorem digits_ten {s : List Char} (h : ∀ c ∈ s, c.isDigit = true) :
    digits 10 s = s.map fun c => c.toNat - '0'.toNat := by
  induction s with
  | nil => rfl
  | cons c s ih =>
    obtain ⟨hc, hs⟩ := List.forall_mem_cons.mp h
    rw [digits, digit_ten hc, List.map_cons, ih hs]

theorem not_white_space_of_isDigit {c : Char} (h : c.isDigit = true) :
    is_white_space c = false := by
  have hbounds := isDigit_bounds h
  simp only [is_white_space, List.mem_cons, List.not_mem_nil, or_false, Bool.or_eq_false_iff,
    decide_eq_false_iff_not, Bool.and_eq_false_iff]
  omega

theorem split_sign_of_isDigit {s : List Char} (h : ∀ c ∈ s, c.isDigit = true) :
    split_sign s = (1, s) := by
  unfold split_sign
  split
  · exact absurd (h _ List.mem_cons_self) (by decide)
  · exact absurd (h _ List.mem_cons_self) (by decide)
  · rfl

theorem split_radix_of_isDigit {s : List Char} (h : ∀ c ∈ s, c.isDigit = true) :
    split_radix s = (10, s) := by
  unfold split_radix
  split
  · exact absurd (h _ (List.mem_cons_of_mem _ List.mem_cons_self)) (by decide)
  · exact absurd (h _ (List.mem_cons_of_mem _ List.mem_cons_self)) (by decide)
  · rfl

/-- A string of decimal digits is read as the number that it stands for. -/
theorem parseInt_of_isDigit {string : String} (hne : string.toList ≠ [])
    (h : ∀ c ∈ string.toList, c.isDigit = true) :
    parseInt string = some ((Nat.ofDigitChars 10 string.toList 0 : ℕ) : ℤ) := by
  obtain ⟨c, cs, hs⟩ := List.exists_cons_of_ne_nil hne
  rw [hs] at h
  have hskip : (c :: cs).dropWhile is_white_space = c :: cs := by
    rw [List.dropWhile_cons_of_neg]
    rw [not_white_space_of_isDigit (h c List.mem_cons_self)]
    exact Bool.false_ne_true
  unfold parseInt
  simp only [hs, hskip, split_sign_of_isDigit h, split_radix_of_isDigit h, digits_ten h,
    List.map_cons, one_mul]
  rw [← List.map_cons (f := fun c : Char => c.toNat - '0'.toNat), List.foldl_map,
    Nat.ofDigitChars_eq_foldl]

/-- What a client prints, the server reads. -/
theorem parseInt_toString (n : ℕ) : parseInt (toString n) = some (n : ℤ) := by
  have hdigits : (toString n).toList = Nat.toDigits 10 n := by
    rw [Nat.toString_eq_repr, Nat.toList_repr]
  rw [parseInt_of_isDigit, hdigits, Nat.ofDigitChars_ten_toDigits]
  · rw [hdigits]
    exact Nat.toDigits_ne_nil
  · rw [hdigits]
    exact fun c hc => Nat.isDigit_of_mem_toDigits (by norm_num) (by norm_num) hc

end Eco2
