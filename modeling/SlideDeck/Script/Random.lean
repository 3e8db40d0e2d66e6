/-!
The generator of random numbers: four words of state, one word out (xoshiro256**).
-/

namespace SlideDeck.Script

structure Generator where
  a : UInt64 := 0
  b : UInt64 := 0
  c : UInt64 := 0
  d : UInt64 := 0
  deriving DecidableEq, Repr, Inhabited

namespace Generator

def rotate (x : UInt64) (k : UInt64) : UInt64 := (x <<< k) ||| (x >>> (64 - k))

def next (g : Generator) : UInt64 × Generator :=
  let c := g.c ^^^ g.a
  let d := g.d ^^^ g.b
  let word := rotate (g.b * 5) 7 * 9
  (word, { a := g.a ^^^ d, b := g.b ^^^ c, c := c ^^^ (g.b <<< 17), d := rotate d 45 })

/-- The state from a seed, the first sixteen words passed over. -/
def ofSeed (m n : UInt64) : Generator :=
  (List.range 16).foldl (fun g _ => g.next.2) { a := m, b := 0xff, c := n, d := 0 }

def fraction (word : UInt64) : Float := (word >>> 11).toFloat / 9007199254740992.0

/-- A word that is at most `limit`. Words cut down to the same number of bits are taken until one of them
is small enough. -/
def below (limit : UInt64) : Nat → UInt64 → Generator → UInt64 × Generator
  | 0, word, g => (word % (limit + 1), g)
  | fuel + 1, word, g =>
    let cut := word &&& UInt64.ofNat (2 ^ (limit.toNat.log2 + 1) - 1)
    if limit = 0 then (0, g)
    else if cut ≤ limit then (cut, g)
    else
      let (word, g) := g.next
      below limit fuel word g

end Generator

end SlideDeck.Script
