/-! Elliptic curves `y ^ 2 = x ^ 3 + a * x + b` over a prime field, with points in Jacobian coordinates:
`(X, Y, Z)` stands for `(X / Z ^ 2, Y / Z ^ 3)`, and `Z = 0` for the point at infinity. -/

namespace Signatory
set_option autoImplicit false

structure Curve where
  fieldPrime : Nat
  a : Nat
  b : Nat
  order : Nat
  baseX : Nat
  baseY : Nat

structure JacobianPoint where
  x : Nat
  y : Nat
  z : Nat

/-- The power modulo `m`, by squaring. -/
def powMod (m base exponent : Nat) : Nat :=
  if exponent = 0 then 1 % m
  else
    let root := powMod m base (exponent / 2)
    let square := root * root % m
    if exponent % 2 = 1 then square * base % m else square
termination_by exponent
decreasing_by omega

/-- The inverse modulo a prime. -/
def inverseMod (m n : Nat) : Nat := powMod m n (m - 2)

namespace Curve

def p256 : Curve where
  fieldPrime := 0xFFFFFFFF00000001000000000000000000000000FFFFFFFFFFFFFFFFFFFFFFFF
  a := 0xFFFFFFFF00000001000000000000000000000000FFFFFFFFFFFFFFFFFFFFFFFC
  b := 0x5AC635D8AA3A93E7B3EBBD55769886BC651D06B0CC53B0F63BCE3C3E27D2604B
  order := 0xFFFFFFFF00000000FFFFFFFFFFFFFFFFBCE6FAADA7179E84F3B9CAC2FC632551
  baseX := 0x6B17D1F2E12C4247F8BCE6E563A440F277037D812DEB33A0F4A13945D898C296
  baseY := 0x4FE342E2FE1A7F9B8EE7EB4A7C0F9E162BCE33576B315ECECBB6406837BF51F5

def secp256k1 : Curve where
  fieldPrime := 0xFFFFFFFFFFFFFFFFFFFFFFFFFFFFFFFFFFFFFFFFFFFFFFFFFFFFFFFEFFFFFC2F
  a := 0
  b := 7
  order := 0xFFFFFFFFFFFFFFFFFFFFFFFFFFFFFFFEBAAEDCE6AF48A03BBFD25E8CD0364141
  baseX := 0x79BE667EF9DCBBAC55A06295CE870B07029BFCDB2DCE28D959F2815B16F81798
  baseY := 0x483ADA7726A3C4655DA4FBFC0E1108A8FD17B448A68554199C47D08FFB10D4B8

variable (C : Curve)

/-- The difference in the field; both terms lie below the prime. -/
def minus (u v : Nat) : Nat := (u + C.fieldPrime - v) % C.fieldPrime

def isPoint (x y : Nat) : Bool :=
  x < C.fieldPrime && y < C.fieldPrime &&
    y * y % C.fieldPrime == (x * x * x + C.a * x + C.b) % C.fieldPrime

def infinity : JacobianPoint := ⟨1, 1, 0⟩

def base : JacobianPoint := ⟨C.baseX, C.baseY, 1⟩

def double (P : JacobianPoint) : JacobianPoint :=
  let m := C.fieldPrime
  if P.z = 0 ∨ P.y = 0 then infinity
  else
    let yy := P.y * P.y % m
    let s := 4 * P.x * yy % m
    let zz := P.z * P.z % m
    let slope := (3 * P.x * P.x + C.a * zz * zz) % m
    let x := C.minus (slope * slope % m) (2 * s % m)
    ⟨x, C.minus (slope * C.minus s x % m) (8 * yy * yy % m), 2 * P.y * P.z % m⟩

def add (P Q : JacobianPoint) : JacobianPoint :=
  let m := C.fieldPrime
  if P.z = 0 then Q
  else if Q.z = 0 then P
  else
    let pz2 := P.z * P.z % m
    let qz2 := Q.z * Q.z % m
    let u1 := P.x * qz2 % m
    let u2 := Q.x * pz2 % m
    let s1 := P.y * qz2 * Q.z % m
    let s2 := Q.y * pz2 * P.z % m
    if u1 = u2 then if s1 = s2 then C.double P else infinity
    else
      let h := C.minus u2 u1
      let r := C.minus s2 s1
      let h2 := h * h % m
      let h3 := h2 * h % m
      let v := u1 * h2 % m
      let x := C.minus (C.minus (r * r % m) h3) (2 * v % m)
      ⟨x, C.minus (r * C.minus v x % m) (s1 * h3 % m), h * P.z * Q.z % m⟩

def multiply (n : Nat) (P : JacobianPoint) : JacobianPoint :=
  if n = 0 then infinity
  else
    let twice := C.double (multiply (n / 2) P)
    if n % 2 = 1 then C.add twice P else twice
termination_by n
decreasing_by omega

/-- The plain coordinates of a point that is not the one at infinity. -/
def coordinates? (P : JacobianPoint) : Option (Nat × Nat) :=
  if P.z = 0 then none
  else
    let m := C.fieldPrime
    let w := inverseMod m P.z
    let w2 := w * w % m
    some (P.x * w2 % m, P.y * w2 * w % m)

end Curve

end Signatory
