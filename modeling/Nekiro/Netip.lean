import Nekiro.JsonDecode
import Nekiro.Url

/-!
# Addresses and their texts

`net/netip` and `net.IP`: an address is read from a text, and written as
its canonical text. `Url.parseAddr` says which texts are read; here are the
numbers that they stand for (`parse`) and the text that an address is
written as (`Addr.text`, `ipText`). An IPv6 address is eight groups, of
which the first longest run of two or more zeros is left out. It names no
program.
-/

namespace Nekiro

open Json Strings

namespace Netip

inductive Addr where
  | v4 (octets : List Nat)
  | v6 (groups : List Nat) (zone : Bytes)
deriving Repr, DecidableEq

/-! ## Reading -/

/-- The parts between the separators. -/
def splitOn (sep : UInt8) (s : Bytes) : List Bytes :=
  s.foldr (fun c parts => if c = sep then [] :: parts
    else match parts with
      | part :: rest => (c :: part) :: rest
      | [] => [[c]]) [[]]

def octets (s : Bytes) : List Nat := (splitOn (byte '.') s).map natValue

def hexNat (s : Bytes) : Nat := s.foldl (fun n c => n * 16 + hexValue c) 0

/-- The groups of a text without `::`; the last may be an IPv4 address,
which stands for two. -/
def groupsOf (s : Bytes) : List Nat :=
  if s = [] then []
  else (splitOn (byte ':') s).flatMap fun part =>
    if part.contains (byte '.') then
      match octets part with
      | [a, b, c, d] => [a * 256 + b, c * 256 + d]
      | _ => []
    else [hexNat part]

/-- The text in front of `::` and behind it. -/
def cutEllipsis : Bytes → Option (Bytes × Bytes)
  | c :: d :: rest =>
      if c = byte ':' && d = byte ':' then some ([], rest)
      else (cutEllipsis (d :: rest)).map fun (before, after) => (c :: before, after)
  | _ => none

def groups (s : Bytes) : List Nat :=
  match cutEllipsis s with
  | none => groupsOf s
  | some (before, after) =>
      groupsOf before ++ List.replicate (8 - (groupsOf before).length - (groupsOf after).length) 0
        ++ groupsOf after

/-- `netip.ParseAddr`. -/
def parse (s : Bytes) : Option Addr :=
  match Url.parseAddr s with
  | none => none
  | some .ipv4 => some (.v4 (octets s))
  | some (.ipv6 zone) => some (.v6 (groups (s.takeWhile (· ≠ byte '%'))) zone)

/-! ## Writing -/

def hexDigit (n : Nat) : UInt8 := UInt8.ofNat (if n < 10 then 0x30 + n else 0x57 + n)

/-- A group, without leading zeros. -/
def hexText (n : Nat) : Bytes :=
  let digits := [n / 4096 % 16, n / 256 % 16, n / 16 % 16].dropWhile (· = 0)
  (digits ++ [n % 16]).map hexDigit

def joinWith (sep : UInt8) (parts : List Bytes) : Bytes := (parts.intersperse [sep]).flatten

/-- Where the first longest run of zeros is, and its length; runs of one are
not taken. -/
def zeroRun (groups : List Nat) : Nat × Nat :=
  (List.range groups.length).foldl (fun best i =>
    let length := ((groups.drop i).takeWhile (· = 0)).length
    if 2 ≤ length ∧ best.2 < length then (i, length) else best) (0, 0)

def octetsText (octets : List Nat) : Bytes := joinWith (byte '.') (octets.map fun n => decimal n)

def groupsText (groups : List Nat) : Bytes :=
  match zeroRun groups with
  | (_, 0) => joinWith (byte ':') (groups.map hexText)
  | (start, length) =>
      joinWith (byte ':') ((groups.take start).map hexText) ++ [byte ':', byte ':']
        ++ joinWith (byte ':') ((groups.drop (start + length)).map hexText)

/-- The IPv4 address in the last two groups. -/
def embedded : List Nat → Option (List Nat)
  | [0, 0, 0, 0, 0, 0xFFFF, high, low] => some [high / 256, high % 256, low / 256, low % 256]
  | _ => none

namespace Addr

def is4 : Addr → Bool
  | v4 _ => true
  | v6 _ _ => false

def is6 : Addr → Bool
  | v4 _ => false
  | v6 _ _ => true

def is4In6 : Addr → Bool
  | v4 _ => false
  | v6 groups _ => (embedded groups).isSome

/-- `netip.Addr.String`. -/
def text : Addr → Bytes
  | v4 octets => octetsText octets
  | v6 groups zone =>
      (match embedded groups with
        | some octets => utf8 "::ffff:" ++ octetsText octets
        | none => groupsText groups) ++ if zone = [] then [] else byte '%' :: zone

end Addr

/-! ## `net.IP` -/

/-- `net.ParseIP`, which reads no zones. -/
def parseIP (s : Bytes) : Option Addr :=
  match parse s with
  | some (.v6 groups zone) => if zone = [] then some (.v6 groups []) else none
  | other => other

/-- `IP.To4`. -/
def to4 : Addr → Option (List Nat)
  | .v4 octets => some octets
  | .v6 groups _ => embedded groups

/-- `IP.String`, which writes an embedded IPv4 address as such. -/
def ipText (ip : Addr) : Bytes :=
  match to4 ip with
  | some octets => octetsText octets
  | none => ip.text

example : (parse (utf8 "2001:db8:0:0:1::")).map Addr.text = some (utf8 "2001:db8:0:0:1::") := by
  decide +kernel

example : (parse (utf8 "2001:DB8::0:1")).map Addr.text = some (utf8 "2001:db8::1") := by
  decide +kernel

example : (parseIP (utf8 "::ffff:10.0.0.1")).map ipText = some (utf8 "10.0.0.1") := by
  decide +kernel

end Netip

end Nekiro
