import WideDecimal.Bytes.Layout

namespace WideDecimal.Bytes

/-- The next word of a supply of bytes, and what is left of it. -/
def takeWord (bytes : List UInt8) : UInt64 × List UInt8 :=
  (toWord (bytes.take 8), bytes.drop 8)

def takeArbitrary (bytes : List UInt8) : Coefficient × List UInt8 :=
  let (high, bytes) := takeWord bytes
  let (low, bytes) := takeWord bytes
  (⟨high.toInt64, low⟩, bytes)

def takeArbitraries : Nat → List UInt8 → List Coefficient × List UInt8
  | 0, bytes => ([], bytes)
  | count + 1, bytes =>
    let (v, bytes) := takeArbitrary bytes
    let (vs, bytes) := takeArbitraries count bytes
    (v :: vs, bytes)

/-- The least and the greatest number of bytes that a coefficient uses up. -/
def sizeHint : Nat × Nat := (Coefficient.byteSize, Coefficient.byteSize)

end WideDecimal.Bytes
