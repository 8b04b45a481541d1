/-!
A stream of random words: the ChaCha cipher with twelve rounds.

The state of the cipher is a square of four rows. The first row is a constant, the next two are the
key, the last is the number of the block. Twelve rounds scramble the square, and the sum with the
square they started from is the output.
-/

namespace LangBench

/-- A row of four words. -/
structure WordRow where
  a : UInt32
  b : UInt32
  c : UInt32
  d : UInt32
  deriving DecidableEq

namespace WordRow

def zip (f : UInt32 → UInt32 → UInt32) (x y : WordRow) : WordRow :=
  ⟨f x.a y.a, f x.b y.b, f x.c y.c, f x.d y.d⟩

def toList (x : WordRow) : List UInt32 := [x.a, x.b, x.c, x.d]

/-- Move every word one place to the front, the first to the end. -/
def turn (x : WordRow) : WordRow := ⟨x.b, x.c, x.d, x.a⟩

end WordRow

def rotateLeft (x n : UInt32) : UInt32 := (x <<< n) ||| (x >>> (32 - n))

def rotateRight (x n : UInt32) : UInt32 := (x >>> n) ||| (x <<< (32 - n))

/-- The square of words that the cipher scrambles. -/
structure WordSquare where
  top : WordRow
  upper : WordRow
  lower : WordRow
  bottom : WordRow
  deriving DecidableEq

namespace WordSquare

/-- Add one row to another, and rotate the sum with a third. -/
def mix (n : UInt32) (x y z : WordRow) : WordRow × WordRow :=
  let sum := x.zip (· + ·) y
  (sum, z.zip (fun u v ↦ rotateLeft (u ^^^ v) n) sum)

def columnRound (s : WordSquare) : WordSquare :=
  let (top, bottom) := mix 16 s.top s.upper s.bottom
  let (lower, upper) := mix 12 s.lower bottom s.upper
  let (top, bottom) := mix 8 top upper bottom
  let (lower, upper) := mix 7 lower bottom upper
  ⟨top, upper, lower, bottom⟩

def diagonalRound (s : WordSquare) : WordSquare :=
  let t := columnRound ⟨s.top, s.upper.turn, s.lower.turn.turn, s.bottom.turn.turn.turn⟩
  ⟨t.top, t.upper.turn.turn.turn, t.lower.turn.turn, t.bottom.turn⟩

def rounds : Nat → WordSquare → WordSquare
  | 0, s => s
  | n + 1, s => rounds n (diagonalRound (columnRound s))

def output (s : WordSquare) : List UInt32 :=
  let t := rounds 6 s
  (t.top.zip (· + ·) s.top).toList ++ (t.upper.zip (· + ·) s.upper).toList
    ++ (t.lower.zip (· + ·) s.lower).toList ++ (t.bottom.zip (· + ·) s.bottom).toList

end WordSquare

/-- A stream of random words. -/
structure WordStream where
  key : WordRow × WordRow
  block : UInt64
  pending : List UInt32
  deriving DecidableEq

namespace WordStream

def constant : WordRow := ⟨0x61707865, 0x3320646e, 0x79622d32, 0x6b206574⟩

def blockWords (key : WordRow × WordRow) (block : UInt64) : List UInt32 :=
  WordSquare.output ⟨constant, key.1, key.2, ⟨block.toUInt32, (block >>> 32).toUInt32, 0, 0⟩⟩

def next (s : WordStream) : UInt32 × WordStream :=
  match s.pending with
  | w :: pending => (w, { s with pending })
  | [] =>
    match blockWords s.key s.block with
    | w :: pending => (w, ⟨s.key, s.block + 1, pending⟩)
    | [] => (0, s)

/-- The state that follows in the generator that spreads a seed over a key. -/
def spread (state : UInt64) : UInt64 := state * 6364136223846793005 + 11634580027462260723

def spreadWord (state : UInt64) : UInt32 :=
  rotateRight (((state >>> 18) ^^^ state) >>> 27).toUInt32 (state >>> 59).toUInt32

/-- The words of a key that four states give, and the last state. -/
def spreadRow (state : UInt64) : WordRow × UInt64 :=
  let s₁ := spread state
  let s₂ := spread s₁
  let s₃ := spread s₂
  let s₄ := spread s₃
  (⟨spreadWord s₁, spreadWord s₂, spreadWord s₃, spreadWord s₄⟩, s₄)

def ofSeed (seed : UInt64) : WordStream :=
  let (upper, state) := spreadRow seed
  let (lower, _) := spreadRow state
  ⟨(upper, lower), 0, []⟩

end WordStream

end LangBench
