import Mathlib.Data.List.SplitOn

/-!
# `Base.IpAddress` — addresses of both families, and their texts

`parse?` accepts what Python's `ipaddress.ip_address` accepts; an IPv6 address can stand for IPv4 addresses.
-/

namespace Ip

/-! ## Addresses -/

inductive Address where
  | v4 (n : BitVec 32)
  | v6 (n : BitVec 128)
deriving DecidableEq, Repr

/-- A range of addresses: those that agree with `base` on the first `bits` bits. -/
inductive Network where
  | v4 (base : BitVec 32) (bits : Nat)
  | v6 (base : BitVec 128) (bits : Nat)

/-- An address is never in a network of the other family. -/
def Network.contains : Network → Address → Bool
  | .v4 base bits, .v4 n => n >>> (32 - bits) == base >>> (32 - bits)
  | .v6 base bits, .v6 n => n >>> (128 - bits) == base >>> (128 - bits)
  | _, _ => false

/-- The IPv4 address of four octets. -/
def v4Of (a b c d : Nat) : BitVec 32 := .ofNat 32 (((a * 256 + b) * 256 + c) * 256 + d)

/-- The IPv6 address of eight groups. -/
def v6Of (groups : List Nat) : BitVec 128 := .ofNat 128 (groups.foldl (fun n g => n * 65536 + g) 0)

/-! ## Embedding -/

/-- The IPv4 addresses in an IPv6 address: compatible and mapped ones, those behind a translator (64:ff9b::/96), those of
6to4 (2002::/16), and the two of Teredo (2001::/32). -/
def embeddedV4 (n : BitVec 128) : List (BitVec 32) :=
  let low := n.setWidth 32
  (if n >>> 32 = 0 ∨ n >>> 32 = 0xffff ∨ n >>> 32 = 0x64ff9b0000000000000000 then [low] else []) ++
  (if n >>> 112 = 0x2002 then [(n >>> 80).setWidth 32] else []) ++
  (if n >>> 96 = 0x20010000 then [(n >>> 64).setWidth 32, ~~~ low] else [])

def Address.embedded : Address → List Address
  | .v4 _ => []
  | .v6 n => (embeddedV4 n).map .v4

/-! ## Texts -/

def digitsValue (base : Nat) (value : Char → Nat) (cs : List Char) : Nat :=
  cs.foldl (fun n c => n * base + value c) 0

/-- `_parse_octet`: no leading zeros. -/
def octet? (cs : List Char) : Option Nat :=
  let n := digitsValue 10 (fun c => c.toNat - 48) cs
  if cs = [] ∨ ¬ cs.all Char.isDigit ∨ 3 < cs.length ∨ (cs ≠ ['0'] ∧ cs.head? = some '0') ∨ 255 < n then none
  else some n

/-- The text of an IPv4 address. -/
def parseV4? (cs : List Char) : Option (BitVec 32) :=
  match (cs.splitOn '.').mapM octet? with
  | some [a, b, c, d] => some (v4Of a b c d)
  | _ => none

def isHex (c : Char) : Bool := c.isDigit || ('a' ≤ c && c ≤ 'f') || ('A' ≤ c && c ≤ 'F')

def hexValue (c : Char) : Nat :=
  if c.isDigit then c.toNat - 48 else if 'a' ≤ c then c.toNat - 87 else c.toNat - 55

/-- `_parse_hextet`. -/
def hextet? (cs : List Char) : Option Nat :=
  if cs = [] ∨ ¬ cs.all isHex ∨ 4 < cs.length then none else some (digitsValue 16 hexValue cs)

/-- The parts of an IPv6 text, an IPv4 suffix replaced by its two groups; groups are kept as numbers, and an empty part
as none. -/
def parts? (cs : List Char) : Option (List (Option Nat)) :=
  let parts := cs.splitOn ':'
  let group (part : List Char) : Option (Option Nat) := if part = [] then some none else (hextet? part).map some
  match parts.getLast? with
  | none => none
  | some last =>
    if parts.length < 3 then none
    else if '.' ∈ last then
      match parts.dropLast.mapM group, parseV4? last with
      | some groups, some n => some (groups ++ [some (n.toNat / 65536), some (n.toNat % 65536)])
      | _, _ => none
    else parts.mapM group

/-- `_ip_int_from_string`: at most one `::`, and nothing empty elsewhere. -/
def groups? (parts : List (Option Nat)) : Option (List Nat) :=
  if 9 < parts.length then none
  else
    match (List.range parts.length).filter (fun i => 0 < i && i + 1 < parts.length && parts[i]? == some none) with
    | [] => if parts.length = 8 then parts.mapM id else none
    | [skip] =>
      let hi := parts.take skip
      let lo := parts.drop (skip + 1)
      -- an empty part at an end belongs to the `::`
      let hi := if hi = [none] then [] else hi
      let lo := if lo = [none] then [] else lo
      if 8 ≤ hi.length + lo.length then none
      else
        match hi.mapM id, lo.mapM id with
        | some hi, some lo => some (hi ++ List.replicate (8 - (hi.length + lo.length)) 0 ++ lo)
        | _, _ => none
    | _ => none

/-- The text of an IPv6 address, perhaps with a zone. -/
def parseV6? (cs : List Char) : Option (BitVec 128) :=
  let address := cs.takeWhile (· ≠ '%')
  let zone := cs.drop address.length
  if '/' ∈ cs ∨ zone = ['%'] ∨ '%' ∈ zone.drop 1 then none else ((parts? address).bind groups?).map v6Of

/-- `ipaddress.ip_address`. -/
def parse? (text : String) : Option Address :=
  match parseV4? text.toList with
  | some n => some (.v4 n)
  | none => (parseV6? text.toList).map .v6

example : parse? "169.254.1.9" = some (.v4 0xa9fe0109) := by decide +kernel

example : parse? "::ffff:10.0.0.1" = some (.v6 0xffff0a000001) := by decide +kernel

end Ip
