/-! Powers of naturals and integers. They are the powers of the numbers themselves everywhere in the library,
also where the theory of monoids is there to offer its own: a bound such as `2 ^ 63` then means one thing in
the programs and in the theorems about them. -/

attribute [instance (high), default_instance (high + 1)] instPowNat
