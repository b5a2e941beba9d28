import Mathlib.Data.List.Basic

/-!
# Addresses (`ipaddress`)

IPv4 and IPv6 addresses as numbers, and `is_global` after the registries of special purpose
networks.
-/

namespace Newsintel

inductive IpAddress where
  | v4 (address : BitVec 32)
  | v6 (address : BitVec 128)
  deriving DecidableEq, Repr

namespace IpAddress

/-- `a.b.c.d`. -/
def ofOctets (a b c d : ℕ) : BitVec 32 := BitVec.ofNat 32 (((a * 256 + b) * 256 + c) * 256 + d)

/-- The address that begins with the hextets; the other ones are 0. -/
def ofHextets (hextets : List ℕ) : BitVec 128 :=
  BitVec.ofNat 128
    ((hextets ++ List.replicate (8 - hextets.length) 0).foldl (fun n h => n * 65536 + h) 0)

/-- `address in network`, of a network and the length of its prefix. -/
def inNetwork {w : ℕ} (address : BitVec w) (network : BitVec w × ℕ) : Bool :=
  address >>> (w - network.2) = network.1 >>> (w - network.2)

/-- `_IPv4Constants._private_networks`. -/
def privateNetworks4 : List (BitVec 32 × ℕ) :=
  [(ofOctets 0 0 0 0, 8), (ofOctets 10 0 0 0, 8), (ofOctets 127 0 0 0, 8),
    (ofOctets 169 254 0 0, 16), (ofOctets 172 16 0 0, 12), (ofOctets 192 0 0 0, 24),
    (ofOctets 192 0 0 170, 31), (ofOctets 192 0 2 0, 24), (ofOctets 192 168 0 0, 16),
    (ofOctets 198 18 0 0, 15), (ofOctets 198 51 100 0, 24), (ofOctets 203 0 113 0, 24),
    (ofOctets 240 0 0 0, 4), (ofOctets 255 255 255 255, 32)]

def privateExceptions4 : List (BitVec 32 × ℕ) :=
  [(ofOctets 192 0 0 9, 32), (ofOctets 192 0 0 10, 32)]

/-- `100.64.0.0/10` is neither private nor global. -/
def sharedNetwork : BitVec 32 × ℕ := (ofOctets 100 64 0 0, 10)

/-- `_IPv6Constants._private_networks`. -/
def privateNetworks6 : List (BitVec 128 × ℕ) :=
  [(ofHextets [0, 0, 0, 0, 0, 0, 0, 1], 128), (ofHextets [], 128),
    (ofHextets [0, 0, 0, 0, 0, 0xffff], 96), (ofHextets [0x64, 0xff9b, 1], 48),
    (ofHextets [0x100], 64), (ofHextets [0x2001], 23), (ofHextets [0x2001, 0xdb8], 32),
    (ofHextets [0x2002], 16), (ofHextets [0xfc00], 7), (ofHextets [0xfe80], 10)]

def privateExceptions6 : List (BitVec 128 × ℕ) :=
  [(ofHextets [0x2001, 1, 0, 0, 0, 0, 0, 1], 128), (ofHextets [0x2001, 1, 0, 0, 0, 0, 0, 2], 128),
    (ofHextets [0x2001, 3], 32), (ofHextets [0x2001, 4, 0x112], 48), (ofHextets [0x2001, 0x20], 28),
    (ofHextets [0x2001, 0x30], 28)]

/-- `ipv4_mapped`, of `::ffff:0:0/96`. -/
def ipv4Mapped (address : BitVec 128) : Option (BitVec 32) :=
  if address >>> 32 = 0xffff then some (address.truncate 32) else none

def isPrivate4 (address : BitVec 32) : Bool :=
  privateNetworks4.any (inNetwork address) && !privateExceptions4.any (inNetwork address)

def isGlobal4 (address : BitVec 32) : Bool :=
  !inNetwork address sharedNetwork && !isPrivate4 address

/-- `address.is_global`; an IPv4-mapped address is as global as the address in it. -/
def isGlobal : IpAddress → Bool
  | v4 address => isGlobal4 address
  | v6 address =>
    match ipv4Mapped address with
    | some mapped => isGlobal4 mapped
    | none =>
      !(privateNetworks6.any (inNetwork address) && !privateExceptions6.any (inNetwork address))

example : isGlobal (v4 (ofOctets 127 0 0 1)) = false ∧
    isGlobal (v4 (ofOctets 93 184 216 34)) = true ∧
    isGlobal (v6 (ofHextets [0, 0, 0, 0, 0, 0xffff, 0xa00, 1])) = false := by decide

end IpAddress

end Newsintel
