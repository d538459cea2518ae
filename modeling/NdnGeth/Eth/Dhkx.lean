/-
The key exchange (`dhkx`) as the peers use it: the group that `GetGroup(0)`
returns, the public value of a private key, and the secret that a peer makes
of the other side's public value (`peer.makesecret`).

A private key is its exponent; a number is sent in the bytes of the group's
size, with zeros in front. The secret is the first 32 bytes of the shared
number.
-/
import NdnGeth.Lib.Rlp

namespace NdnGeth.Eth

open Lib.Rlp (Bytes toBytes ofBytes)

structure DHGroup where
  p : Nat
  g : Nat

/-- `GetGroup(0)`, which is group 14. -/
def group14 : DHGroup where
  p := 0xFFFFFFFFFFFFFFFFC90FDAA22168C234C4C6628B80DC1CD129024E088A67CC74020BBEA63B139B22514A08798E3404DDEF9519B3CD3A431B302B0A6DF25F14374FE1356D6D51C245E485B576625E7EC6F44C42E9A637ED6B0BFF5CB6F406B7EDEE386BFB5A899FA5AE9F24117C4B1FE649286651ECE45B3DC2007CB8A163BF0598DA48361C55D39A69163FA8FD24CF5F83655D23DCA3AD961C62F356208552BB9ED529077096966D670C354E4ABC9804F1746C08CA18217C32905E462E36CE3BE39E772C180E86039B2783A2EC07A28FB5C55DF06F4C52C9DE2BCBF6955817183995497CEA956AE515D2261898FA051015728E5A8AACAA68FFFFFFFFFFFFFFFF
  g := 2

namespace DHGroup

/-- The bytes of a number below the modulus: `blen` in `DHKey.Bytes`. -/
def blen (grp : DHGroup) : Nat := (grp.p.log2 + 1 + 7) / 8

/-- `DHKey.Bytes`, with `copyWithLeftPad`. -/
def bytes (grp : DHGroup) (y : Nat) : Bytes :=
  List.replicate (grp.blen - (toBytes y).length) 0 ++ toBytes y

/-- The public value of a private key, as `GeneratePrivateKey` makes it. -/
def pub (grp : DHGroup) (x : Nat) : Nat := grp.g ^ x % grp.p

def computeKey (grp : DHGroup) (y x : Nat) : Option Nat :=
  if y = 0 ∨ grp.p ≤ y then none else some (y ^ x % grp.p)

end DHGroup

/-- The 32 bytes that a peer signs with. -/
abbrev Secret := Vector UInt8 32

/-- `copy(secret[:], b)`. -/
def copySecret (secret : Secret) (b : Bytes) : Secret := Vector.ofFn fun i => b.getD i (secret.get i)

/-- `p.dhprv.Bytes()`: the public value of a peer's key. -/
def dhPub (x : Nat) : Bytes := group14.bytes (group14.pub x)

/-- `makesecret`; the program comes down on a value that `ComputeKey` refuses. -/
def makesecret (secret : Secret) (dhpub : Bytes) (x : Nat) : Option Secret :=
  (group14.computeKey (ofBytes dhpub) x).map fun k => copySecret secret (group14.bytes k)

end NdnGeth.Eth
