import Nekiro.CatalogStore
import Nekiro.Endpoint

/-!
# Where a proof may be fetched

`EndpointPolicy.ResolveDestination`, over the addresses that a resolver
answers, and what `fetchVerificationProof` makes of an exchange with the
endpoint. A `net.IP` is its bytes; 4 of them, or 16 that may hold an IPv4
address, and a resolver can answer any others.
-/

namespace Nekiro

open Guard
open Strings (UnicodeCase toLower)

/-- `net.IP`. -/
abbrev IP := Json.Bytes

namespace IP

def v4InV6 : Json.Bytes := [0, 0, 0, 0, 0, 0, 0, 0, 0, 0, 0xff, 0xff]

def to4 (ip : IP) : Option Json.Bytes :=
  if ip.length = 4 then some ip
  else if ip.length = 16 && ip.take 12 = v4InV6 then some (ip.drop 12)
  else none

/-- A predicate that has one test for an IPv4 address and one for the 16
bytes of another. -/
def byVersion (v4 v6 : Json.Bytes → Bool) (ip : IP) : Bool :=
  match ip.to4 with
  | some bytes => v4 bytes
  | none => ip.length = 16 && v6 ip

def isUnspecified (ip : IP) : Bool :=
  ip.byVersion (fun b => b = [0, 0, 0, 0]) fun b => b = List.replicate 16 0

def isLoopback (ip : IP) : Bool :=
  ip.byVersion (fun b => b.getD 0 0 = 127) fun b => b = List.replicate 15 0 ++ [1]

def isPrivate (ip : IP) : Bool :=
  ip.byVersion
    (fun b => b.getD 0 0 = 10 || (b.getD 0 0 = 172 && b.getD 1 0 &&& 0xf0 = 16)
      || (b.getD 0 0 = 192 && b.getD 1 0 = 168))
    fun b => b.getD 0 0 &&& 0xfe = 0xfc

def isMulticast (ip : IP) : Bool :=
  ip.byVersion (fun b => b.getD 0 0 &&& 0xf0 = 0xe0) fun b => b.getD 0 0 = 0xff

def isLinkLocalMulticast (ip : IP) : Bool :=
  ip.byVersion (fun b => b.getD 0 0 = 224 && b.getD 1 0 = 0 && b.getD 2 0 = 0)
    fun b => b.getD 0 0 = 0xff && b.getD 1 0 &&& 0x0f = 0x02

def isLinkLocalUnicast (ip : IP) : Bool :=
  ip.byVersion (fun b => b.getD 0 0 = 169 && b.getD 1 0 = 254)
    fun b => b.getD 0 0 = 0xfe && b.getD 1 0 &&& 0xc0 = 0x80

def isBroadcast (ip : IP) : Bool := ip.to4 = some [255, 255, 255, 255]

def isGlobalUnicast (ip : IP) : Bool :=
  (ip.length = 4 || ip.length = 16) && !ip.isBroadcast && !ip.isUnspecified && !ip.isLoopback
    && !ip.isMulticast && !ip.isLinkLocalUnicast

end IP

/-- `net.IPNet`: the address of a network and the bits that it fixes. -/
structure IPNet where
  number : Json.Bytes
  bits : Nat

namespace IPNet

def bitsOf (bytes : Json.Bytes) : List Bool :=
  bytes.flatMap fun b => (List.range 8).map fun i => b.toNat.testBit (7 - i)

def contains (network : IPNet) (ip : IP) : Bool :=
  let bytes := ip.to4.getD ip
  bytes.length = network.number.length
    && (bitsOf bytes).take network.bits = (bitsOf network.number).take network.bits

/-- The first bytes of an IPv6 network; the others are zero. -/
def v6 (start : Json.Bytes) (bits : Nat) : IPNet :=
  ⟨start ++ List.replicate (16 - start.length) 0, bits⟩

end IPNet

def reservedTrustNetworks : List IPNet :=
  [⟨[0, 0, 0, 0], 8⟩, ⟨[100, 64, 0, 0], 10⟩, ⟨[192, 0, 0, 0], 24⟩, ⟨[192, 0, 2, 0], 24⟩,
    ⟨[192, 31, 196, 0], 24⟩, ⟨[192, 52, 193, 0], 24⟩, ⟨[192, 88, 99, 0], 24⟩,
    ⟨[192, 175, 48, 0], 24⟩, ⟨[198, 18, 0, 0], 15⟩, ⟨[198, 51, 100, 0], 24⟩,
    ⟨[203, 0, 113, 0], 24⟩, ⟨[240, 0, 0, 0], 4⟩, .v6 [0x01, 0x00] 64,
    .v6 [0x20, 0x01, 0x00, 0x01] 48, .v6 [0x20, 0x01, 0x00, 0x02] 48,
    .v6 [0x20, 0x01, 0x00, 0x10] 28, .v6 [0x20, 0x01, 0x00, 0x20] 28,
    .v6 [0x20, 0x01, 0x0d, 0xb8] 32]

def isReservedIP (ip : IP) : Bool := reservedTrustNetworks.any fun network => network.contains ip

/-- A `nil` address has no bytes. -/
def isDisallowedIP (ip : IP) : Bool :=
  ip.isEmpty || !ip.isGlobalUnicast || ip.isPrivate || ip.isLoopback || ip.isLinkLocalUnicast
    || ip.isLinkLocalMulticast || ip.isUnspecified || ip.isMulticast || isReservedIP ip

def isAlwaysDisallowedIP (ip : IP) : Bool :=
  ip.isEmpty || ip.isUnspecified || ip.isMulticast || ip.isLinkLocalMulticast || isReservedIP ip
    || (!ip.isGlobalUnicast && !ip.isLoopback && !ip.isLinkLocalUnicast)

structure EndpointPolicy where
  allowedPrivateHosts : List Json.Bytes

variable [UnicodeCase]

/-- `NewEndpointPolicy`. -/
def newEndpointPolicy (allowedPrivateHosts : List Json.Bytes) : EndpointPolicy :=
  ⟨(allowedPrivateHosts.filter (· ≠ [])).map fun host => trimDot (toLower host)⟩

/-- `ResolveDestination` of an endpoint with a host, once the resolver has
answered; none if the lookup failed, as it does without a resolver. -/
def EndpointPolicy.admit (policy : EndpointPolicy) (endpoint : Endpoint) :
    Option (List IP) → Except CatalogError (List IP)
  | none => .error (.trustDependency "lookup endpoint destination" .network)
  | some ips => do
      require (ips ≠ []) .endpointUnavailable
      if trimDot (toLower endpoint.host) ∈ policy.allowedPrivateHosts then do
        require (ips.any isAlwaysDisallowedIP = false) .disallowedNetwork
        require (¬(ips.any isDisallowedIP = true ∧ ips.any (fun ip => !isDisallowedIP ip) = true))
          .disallowedNetwork
        pure ips
      else do
        require (ips.any isDisallowedIP = false) .disallowedNetwork
        pure ips

/-! ## The exchange -/

/-- What comes of the request for a proof. -/
inductive Exchange where
  | unsent (error : CatalogError)
  | failed
  | response (status : Nat) (body : Option Json.Bytes) (closes : Bool)

/-- `fetchVerificationProof`, once its exchange took place. At most 4096
bytes are read of a body. -/
def Exchange.proof : Exchange → Except CatalogError Json.Bytes
  | unsent error => .error error
  | failed => .error .endpointUnavailable
  | response status body closes => do
      require (status = 200)
        (if 300 ≤ status ∧ status < 400 then .redirectNotAllowed else .wrongProof)
      match body with
      | none => .error .wrongProof
      | some bytes => do
          require (bytes.length ≤ 4096) .wrongProof
          require (closes = true) .endpointUnavailable
          pure bytes

/-- `verificationFailureCode`. -/
def verificationFailureCode : CatalogError → Option String
  | .wrongProof => some "wrong_proof"
  | .redirectNotAllowed => some "redirect_not_allowed"
  | .challengeExpired => some "challenge_expired"
  | .endpointUnavailable => some "endpoint_unavailable"
  | .disallowedNetwork => some "disallowed_network"
  | .endpointInvalid => some "invalid_endpoint"
  | .trustDependency _ _ => some "dependency_failure"
  | _ => none

end Nekiro
