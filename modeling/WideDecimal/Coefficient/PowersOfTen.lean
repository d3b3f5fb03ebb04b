import WideDecimal.Coefficient.Basic

namespace WideDecimal.Coefficient

/-- The powers `10^0` to `10^38`, by exponent. -/
def powersOfTen : List Coefficient :=
  [⟨0x0, 0x1⟩, ⟨0x0, 0xa⟩, ⟨0x0, 0x64⟩, ⟨0x0, 0x3e8⟩, ⟨0x0, 0x2710⟩, ⟨0x0, 0x186a0⟩,
    ⟨0x0, 0xf4240⟩, ⟨0x0, 0x989680⟩, ⟨0x0, 0x5f5e100⟩, ⟨0x0, 0x3b9aca00⟩, ⟨0x0, 0x2540be400⟩,
    ⟨0x0, 0x174876e800⟩, ⟨0x0, 0xe8d4a51000⟩, ⟨0x0, 0x9184e72a000⟩, ⟨0x0, 0x5af3107a4000⟩,
    ⟨0x0, 0x38d7ea4c68000⟩, ⟨0x0, 0x2386f26fc10000⟩, ⟨0x0, 0x16345785d8a0000⟩,
    ⟨0x0, 0xde0b6b3a7640000⟩, ⟨0x0, 0x8ac7230489e80000⟩, ⟨0x5, 0x6bc75e2d63100000⟩,
    ⟨0x36, 0x35c9adc5dea00000⟩, ⟨0x21e, 0x19e0c9bab2400000⟩, ⟨0x152d, 0x2c7e14af6800000⟩,
    ⟨0xd3c2, 0x1bcecceda1000000⟩, ⟨0x84595, 0x161401484a000000⟩, ⟨0x52b7d2, 0xdcc80cd2e4000000⟩,
    ⟨0x33b2e3c, 0x9fd0803ce8000000⟩, ⟨0x204fce5e, 0x3e25026110000000⟩,
    ⟨0x1431e0fae, 0x6d7217caa0000000⟩, ⟨0xc9f2c9cd0, 0x4674edea40000000⟩,
    ⟨0x7e37be2022, 0xc0914b2680000000⟩, ⟨0x4ee2d6d415b, 0x85acef8100000000⟩,
    ⟨0x314dc6448d93, 0x38c15b0a00000000⟩, ⟨0x1ed09bead87c0, 0x378d8e6400000000⟩,
    ⟨0x13426172c74d82, 0x2b878fe800000000⟩, ⟨0xc097ce7bc90715, 0xb34b9f1000000000⟩,
    ⟨0x785ee10d5da46d9, 0xf436a000000000⟩, ⟨0x4b3b4ca85a86c47a, 0x98a224000000000⟩]

/-- The powers `10^0` to `10^18` as words, by exponent. -/
def wordPowersOfTen : List UInt64 :=
  [0x1, 0xa, 0x64, 0x3e8, 0x2710, 0x186a0, 0xf4240, 0x989680, 0x5f5e100, 0x3b9aca00,
    0x2540be400, 0x174876e800, 0xe8d4a51000, 0x9184e72a000, 0x5af3107a4000, 0x38d7ea4c68000,
    0x2386f26fc10000, 0x16345785d8a0000, 0xde0b6b3a7640000]

/-- How many digits a word takes before another one may overflow it. -/
def chunkDigits : Nat := 18

def tenTo18 : Coefficient := ⟨0x0, 0xde0b6b3a7640000⟩

def tenTo36 : Coefficient := ⟨0xc097ce7bc90715, 0xb34b9f1000000000⟩

end WideDecimal.Coefficient
