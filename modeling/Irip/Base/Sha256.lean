import Mathlib.Data.List.Basic

/-!
# `Base.Sha256` — the SHA-256 digest of a text

The compression function over 32-bit words kept as natural numbers below `2 ^ 32`, the padding of a message
of bytes, and the lower-case hexadecimal digest of a text in UTF-8.
-/

namespace Sha256

/-! ## Words -/

/-- `2 ^ 32`. -/
def base : Nat := 4294967296

def rotr (n x : Nat) : Nat := (x >>> n ||| x <<< (32 - n)) % base

def smallSigma0 (x : Nat) : Nat := rotr 7 x ^^^ rotr 18 x ^^^ x >>> 3

def smallSigma1 (x : Nat) : Nat := rotr 17 x ^^^ rotr 19 x ^^^ x >>> 10

def bigSigma0 (x : Nat) : Nat := rotr 2 x ^^^ rotr 13 x ^^^ rotr 22 x

def bigSigma1 (x : Nat) : Nat := rotr 6 x ^^^ rotr 11 x ^^^ rotr 25 x

def ch (x y z : Nat) : Nat := (x &&& y) ^^^ ((x ^^^ 0xffffffff) &&& z)

def maj (x y z : Nat) : Nat := (x &&& y) ^^^ (x &&& z) ^^^ (y &&& z)

/-- The first 32 bits of the fractional parts of the cube roots of the first 64 primes. -/
def constants : List Nat :=
  [0x428a2f98, 0x71374491, 0xb5c0fbcf, 0xe9b5dba5, 0x3956c25b, 0x59f111f1, 0x923f82a4, 0xab1c5ed5,
   0xd807aa98, 0x12835b01, 0x243185be, 0x550c7dc3, 0x72be5d74, 0x80deb1fe, 0x9bdc06a7, 0xc19bf174,
   0xe49b69c1, 0xefbe4786, 0x0fc19dc6, 0x240ca1cc, 0x2de92c6f, 0x4a7484aa, 0x5cb0a9dc, 0x76f988da,
   0x983e5152, 0xa831c66d, 0xb00327c8, 0xbf597fc7, 0xc6e00bf3, 0xd5a79147, 0x06ca6351, 0x14292967,
   0x27b70a85, 0x2e1b2138, 0x4d2c6dfc, 0x53380d13, 0x650a7354, 0x766a0abb, 0x81c2c92e, 0x92722c85,
   0xa2bfe8a1, 0xa81a664b, 0xc24b8b70, 0xc76c51a3, 0xd192e819, 0xd6990624, 0xf40e3585, 0x106aa070,
   0x19a4c116, 0x1e376c08, 0x2748774c, 0x34b0bcb5, 0x391c0cb3, 0x4ed8aa4a, 0x5b9cca4f, 0x682e6ff3,
   0x748f82ee, 0x78a5636f, 0x84c87814, 0x8cc70208, 0x90befffa, 0xa4506ceb, 0xbef9a3f7, 0xc67178f2]

/-! ## Blocks -/

/-- The eight working variables. -/
structure Chain where
  a : Nat
  b : Nat
  c : Nat
  d : Nat
  e : Nat
  f : Nat
  g : Nat
  h : Nat

/-- The first 32 bits of the fractional parts of the square roots of the first 8 primes. -/
def initial : Chain :=
  ⟨0x6a09e667, 0xbb67ae85, 0x3c6ef372, 0xa54ff53a, 0x510e527f, 0x9b05688c, 0x1f83d9ab, 0x5be0cd19⟩

/-- `n` further words of the message schedule; the words so far are kept last first. -/
def schedule : Nat → List Nat → List Nat
  | 0, ws => ws
  | n + 1, ws =>
    let w := smallSigma1 (ws.getD 1 0) + ws.getD 6 0 + smallSigma0 (ws.getD 14 0) + ws.getD 15 0
    schedule n (w % base :: ws)

/-- One of the 64 rounds. -/
def mix (s : Chain) (kw : Nat × Nat) : Chain :=
  let t1 := s.h + bigSigma1 s.e + ch s.e s.f s.g + kw.1 + kw.2
  let t2 := bigSigma0 s.a + maj s.a s.b s.c
  ⟨(t1 + t2) % base, s.a, s.b, s.c, (s.d + t1) % base, s.e, s.f, s.g⟩

/-- The chaining value after one block of 16 words. -/
def compress (s : Chain) (block : List Nat) : Chain :=
  let r := (constants.zip (schedule 48 block.reverse).reverse).foldl mix s
  ⟨(s.a + r.a) % base, (s.b + r.b) % base, (s.c + r.c) % base, (s.d + r.d) % base,
   (s.e + r.e) % base, (s.f + r.f) % base, (s.g + r.g) % base, (s.h + r.h) % base⟩

/-! ## Messages -/

/-- The bytes of a character. -/
def utf8 (c : Char) : List Nat :=
  let n := c.toNat
  if n < 0x80 then [n]
  else if n < 0x800 then [0xc0 + n / 64, 0x80 + n % 64]
  else if n < 0x10000 then [0xe0 + n / 4096, 0x80 + n / 64 % 64, 0x80 + n % 64]
  else [0xf0 + n / 262144, 0x80 + n / 4096 % 64, 0x80 + n / 64 % 64, 0x80 + n % 64]

/-- The last `n` base-256 digits of `x`, most significant first. -/
def bigEndian : Nat → Nat → List Nat
  | 0, _ => []
  | n + 1, x => bigEndian n (x / 256) ++ [x % 256]

/-- The message, a 1 bit, zeros up to 8 bytes before a multiple of 64, and the length in bits. -/
def pad (bytes : List Nat) : List Nat :=
  bytes ++ 0x80 :: List.replicate ((119 - bytes.length % 64) % 64) 0 ++ bigEndian 8 (8 * bytes.length)

/-- Four bytes to a word. -/
def words : List Nat → List Nat
  | a :: b :: c :: d :: rest => (((a * 256 + b) * 256 + c) * 256 + d) :: words rest
  | _ => []

/-- The chaining value after `n` blocks. -/
def blocks : Nat → Chain → List Nat → Chain
  | 0, s, _ => s
  | n + 1, s, ws => blocks n (compress s (ws.take 16)) (ws.drop 16)

def hexDigit (n : Nat) : Char := "0123456789abcdef".toList.getD (n % 16) '0'

/-- The last `n` hexadecimal digits of `x`. -/
def hex : Nat → Nat → List Char
  | 0, _ => []
  | n + 1, x => hex n (x / 16) ++ [hexDigit x]

/-- `hashlib.sha256(text.encode("utf-8")).hexdigest()`. -/
def hexdigest (text : List Char) : String :=
  let ws := words (pad (text.flatMap utf8))
  let s := blocks (ws.length / 16) initial ws
  String.ofList ([s.a, s.b, s.c, s.d, s.e, s.f, s.g, s.h].flatMap (hex 8))

/-- `hashlib.sha256(bytes).hexdigest()`. -/
def digest (bytes : List Nat) : String :=
  let ws := words (pad bytes)
  let s := blocks (ws.length / 16) initial ws
  String.ofList ([s.a, s.b, s.c, s.d, s.e, s.f, s.g, s.h].flatMap (hex 8))

example : hexdigest "abc".toList = "ba7816bf8f01cfea414140de5dae2223b00361a396177a9cb410ff61f20015ad" := by
  decide +kernel

end Sha256
