/-!
# Powers

Sizes, masks and doubles are stated with powers of two and of 256. Inside the namespace,
and only there, a power of a natural number or an integer is the built-in one, also in the
modules that import a library with powers of monoids. The two are the same by definition;
fixing one of them keeps the statements alike in all modules. A literal exponent is written
with its type, since it would be the library that chooses the power otherwise.
-/
namespace RasterWkb

/-- The built-in power comes in front of the powers of monoids. -/
scoped instance (priority := 1100) builtInPow {α : Type} [NatPow α] : Pow α Nat :=
  instPowNat

/-- Powers of two are multiplied by adding their exponents. -/
theorem two_pow_mul {a b c : Nat} (h : a + b = c) : 2 ^ a * 2 ^ b = 2 ^ c := by
  rw [← Nat.pow_add, h]

end RasterWkb
