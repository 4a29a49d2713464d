import Overlay.Bytes

/-!
# The curve P-256

Points `y² = x³ - 3x + b` over the field of `p` elements, in coordinates
`(X, Y, Z)` that stand for `(X / Z², Y / Z³)`; `Z = 0` is the neutral point.
-/

namespace Overlay.Crypto.P256

/-- The size of the field. -/
def p : Nat := 0xffffffff00000001000000000000000000000000ffffffffffffffffffffffff

/-- The number of points. -/
def n : Nat := 0xffffffff00000000ffffffffffffffffbce6faada7179e84f3b9cac2fc632551

/-- The constant of the curve. -/
def b : Nat := 0x5ac635d8aa3a93e7b3ebbd55769886bc651d06b0cc53b0f63bce3c3e27d2604b

structure Point where
  x : Nat
  y : Nat
  z : Nat

def Point.zero : Point := ⟨1, 1, 0⟩

def base : Point where
  x := 0x6b17d1f2e12c4247f8bce6e563a440f277037d812deb33a0f4a13945d898c296
  y := 0x4fe342e2fe1a7f9b8ee7eb4a7c0f9e162bce33576b315ececbb6406837bf51f5
  z := 1

def sub (a b : Nat) : Nat :=
  (a + p - b) % p

def mul (a b : Nat) : Nat :=
  a * b % p

/-- `base ^ exponent` modulo `modulus`, for an exponent of so many bits. -/
def powMod (modulus base exponent : Nat) : Nat → Nat
  | 0 => 1 % modulus
  | bits + 1 =>
    let half := powMod modulus base (exponent / 2) bits
    let square := half * half % modulus
    if exponent % 2 = 1 then square * base % modulus else square

/-- The inverse modulo a prime of 256 bits. -/
def inverse (modulus a : Nat) : Nat :=
  powMod modulus a (modulus - 2) 256

def double (q : Point) : Point :=
  let delta := mul q.z q.z
  let gamma := mul q.y q.y
  let beta := mul q.x gamma
  let alpha := 3 * mul (sub q.x delta) (q.x + delta) % p
  let x := sub (mul alpha alpha) (8 * beta % p)
  let z := 2 * mul q.y q.z % p
  let y := sub (mul alpha (sub (4 * beta % p) x)) (8 * mul gamma gamma % p)
  ⟨x, y, z⟩

/-- The sum of two points. -/
def add (q r : Point) : Point :=
  if q.z = 0 then r
  else if r.z = 0 then q
  else
    let qq := mul q.z q.z
    let rr := mul r.z r.z
    let u := mul q.x rr
    let h := sub (mul r.x qq) u
    let s := mul (mul q.y r.z) rr
    let t := sub (mul (mul r.y q.z) qq) s
    if h = 0 then if t = 0 then double q else .zero
    else
      let hh := mul h h
      let hhh := mul h hh
      let v := mul u hh
      let x := sub (sub (mul t t) hhh) (2 * v % p)
      let y := sub (mul t (sub v x)) (mul s hhh)
      ⟨x, y, mul h (mul q.z r.z)⟩

/-- A multiple of a point, by a factor of 256 bits. -/
def multiply (factor : Nat) (q : Point) : Point :=
  (List.range 256).foldl
    (fun r i =>
      let r := double r
      if factor.testBit (255 - i) then add r q else r)
    .zero

/-- The plane coordinates of a point other than the neutral one. -/
def affine? (q : Point) : Option (Nat × Nat) :=
  if q.z = 0 then none
  else
    let i := inverse p q.z
    let ii := mul i i
    some (mul q.x ii, mul q.y (mul i ii))

/-- Whether plane coordinates are a point of the curve. -/
def onCurve (x y : Nat) : Bool :=
  x < p && y < p && mul y y == (mul (mul x x) x + b + 3 * (p - x)) % p

/-- The point of 65 bytes: a mark and two coordinates. -/
def decode? (bytes : Bytes) : Option Point :=
  match bytes with
  | 4 :: coordinates =>
    if coordinates.length = 64 then
      let x := Bytes.ofBigEndian (coordinates.take 32)
      let y := Bytes.ofBigEndian (coordinates.drop 32)
      if onCurve x y then some ⟨x, y, 1⟩ else none
    else none
  | _ => none

/-- The bytes of a point; the neutral one has none. -/
def encode (q : Point) : Bytes :=
  match affine? q with
  | some (x, y) => 4 :: Bytes.bigEndian 32 x ++ Bytes.bigEndian 32 y
  | none => []

end Overlay.Crypto.P256
