import WideDecimal.Native.Power

namespace WideDecimal

/-- A value, and the statement that every step of its computation stayed in bounds. The value does
not depend on that statement. -/
structure Guarded (α : Type) where
  value : α
  intact : Prop

namespace Guarded

instance : Monad Guarded where
  pure a := ⟨a, True⟩
  bind x f := ⟨(f x.value).value, x.intact ∧ (f x.value).intact⟩

@[simp] theorem value_pure {α : Type} (a : α) : (pure a : Guarded α).value = a := rfl

@[simp] theorem intact_pure {α : Type} (a : α) : (pure a : Guarded α).intact = True := rfl

@[simp] theorem value_bind {α β : Type} (x : Guarded α) (f : α → Guarded β) :
    (x >>= f).value = (f x.value).value := rfl

@[simp] theorem intact_bind {α β : Type} (x : Guarded α) (f : α → Guarded β) :
    (x >>= f).intact = (x.intact ∧ (f x.value).intact) := rfl

/-- A step that is in bounds exactly when `p` holds. -/
def require (p : Prop) : Guarded Unit := ⟨(), p⟩

/-- The stand-in result of a step that went out of bounds. -/
def fault {α : Type} (a : α) : Guarded α := ⟨a, False⟩

/-- Addition that must not carry out of the word. -/
def add (a b : UInt64) : Guarded UInt64 := ⟨a + b, a.toNat + b.toNat < 2 ^ 64⟩

/-- Subtraction that must not borrow. -/
def sub (a b : UInt64) : Guarded UInt64 := ⟨a - b, b.toNat ≤ a.toNat⟩

/-- Multiplication whose product must fit the word. -/
def mul (a b : UInt64) : Guarded UInt64 := ⟨a * b, a.toNat * b.toNat < 2 ^ 64⟩

/-- Division by a word that must not be zero. -/
def div (a b : UInt64) : Guarded UInt64 := ⟨a / b, b ≠ 0⟩

/-- Remainder by a word that must not be zero. -/
def mod (a b : UInt64) : Guarded UInt64 := ⟨a % b, b ≠ 0⟩

/-- A move to the left by half a word that must lose no bit. -/
def raise (a : UInt64) : Guarded UInt64 := ⟨a <<< 32, a.toNat < 2 ^ 32⟩

/-- The low half of a word that must have no other bits. -/
def narrow (a : UInt64) : Guarded UInt32 := ⟨a.toUInt32, a.toNat < 2 ^ 32⟩

/-- The signed word of an integer that one must hold. -/
def signedWord (n : Int) : Guarded Int64 := ⟨.ofInt n, -2 ^ 63 ≤ n ∧ n < 2 ^ 63⟩

end Guarded

end WideDecimal
