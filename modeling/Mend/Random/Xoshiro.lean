set_option autoImplicit false

/-! # Xoshiro256++: a small pseudo-random generator

The state is four words. A seed is spread over them by SplitMix64. A number from a range is
drawn by multiplying a word with the size of the range and keeping the high half; when the low
half comes out so large that this may be one too little, a second word decides. -/

namespace Mend

/-- A step of SplitMix64: the word for a counter value. -/
def splitMix (counter : UInt64) : UInt64 :=
  let z := (counter ^^^ (counter >>> 30)) * 0xbf58476d1ce4e5b9
  let z := (z ^^^ (z >>> 27)) * 0x94d049bb133111eb
  z ^^^ (z >>> 31)

/-- The state of a generator. -/
structure Xoshiro where
  s0 : UInt64
  s1 : UInt64
  s2 : UInt64
  s3 : UInt64
deriving DecidableEq, Inhabited

namespace Xoshiro

/-- The generator for a seed. -/
def ofSeed (seed : UInt64) : Xoshiro :=
  let step : UInt64 := 0x9e3779b97f4a7c15
  ⟨splitMix (seed + step), splitMix (seed + 2 * step), splitMix (seed + 3 * step),
    splitMix (seed + 4 * step)⟩

/-- The bits of a word moved up by `k`, those moved out coming in below. -/
def rotate (x : UInt64) (k : UInt64) : UInt64 := (x <<< k) ||| (x >>> (64 - k))

/-- The next word. -/
def next (g : Xoshiro) : UInt64 × Xoshiro :=
  let word := rotate (g.s0 + g.s3) 23 + g.s0
  let t := g.s1 <<< 17
  let s2 := g.s2 ^^^ g.s0
  let s3 := g.s3 ^^^ g.s1
  (word, ⟨g.s0 ^^^ s3, g.s1 ^^^ s2, s2 ^^^ t, rotate s3 45⟩)

/-- The number of words. -/
def wordCount : Nat := 18446744073709551616

/-- Draw a number from `0` to `max`, for a `max` below 2⁶⁴ − 1. For `max = 0` nothing is drawn. -/
def draw (g : Xoshiro) (max : Nat) : Nat × Xoshiro :=
  if max = 0 then (0, g)
  else
    let range := max + 1
    let (word, g) := g.next
    let product := word.toNat * range
    let high := product / wordCount
    let low := product % wordCount
    if wordCount - range < low then
      let (word', g) := g.next
      (high + (low + word'.toNat * range / wordCount) / wordCount, g)
    else (high, g)

end Xoshiro

end Mend
