/-!
# Powers of numbers

The powers of natural numbers and integers are those of the core library.  They
stay so in modules that see algebraic structures with powers of their own, so that
a power means one thing in definitions and in what is proved of them.
-/

attribute [instance (20000)] instPowNat
attribute [default_instance 20000] instPowNat
