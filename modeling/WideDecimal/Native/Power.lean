-- `b ^ n` on numbers is the repeated product of the core library in every module, also where the
-- powers of a monoid are imported beside it.
attribute [instance (high), default_instance (high + 1)] instPowNat
