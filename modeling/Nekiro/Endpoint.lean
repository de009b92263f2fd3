import Nekiro.JsonDecode
import Nekiro.Url

/-!
# Canonical endpoints

The URL of an Agent is brought into a canonical form in four places:
`catalog.ParseEndpoint`, `contracts.canonicalHTTPOrigin`,
`registry.canonicalHTTPValue` and `routing.canonicalEndpoint`. The first
three compute the authority the same way (`canonicalHost`); the last only
writes the URL again. Under the condition that the authority is already
written canonically (`Endpoint.SpelledIn`), all four agree.
-/

namespace Nekiro

open Json (Bytes utf8 decimalNat)
open Strings (byte trimmed toLower runes isASCII UnicodeCase)
open Url (URL isHTTP)

section Canonical

variable [UnicodeCase]

/-! ## The authority -/

/-- `strings.TrimSuffix(s, ".")`. -/
def trimDot (s : Bytes) : Bytes := if s.getLast? = some (byte '.') then s.dropLast else s

/-- The port of the URL, 0 if there is none. The text has only digits. -/
def portNumber (text : Bytes) : Option Nat :=
  if text = [] then some 0
  else
    let n := Json.natValue text
    if 1 ≤ n ∧ n ≤ 65535 then some n else none

def bracketed (host : Bytes) : Bytes := byte '[' :: host ++ [byte ']']

/-- `net.JoinHostPort`. -/
def joinHostPort (host port : Bytes) : Bytes :=
  (if host.contains (byte ':') then bracketed host else host) ++ byte ':' :: port

/-- The authority of a host and a port. -/
def canonicalHostPort (scheme host : Bytes) (port : Nat) : Bytes :=
  let bare := if host.contains (byte ':') then bracketed host else host
  if (scheme = utf8 "http" ∧ port = 80) ∨ (scheme = utf8 "https" ∧ port = 443) then bare
  else if Url.isIP host then
    if port ≠ 0 then joinHostPort host (decimalNat port) else bare
  else if port ≠ 0 then host ++ byte ':' :: decimalNat port
  else host

/-- The host in lower case and the authority made of it. -/
def canonicalHost (u : URL) : Option (Bytes × Bytes) :=
  let host := trimDot (toLower u.hostname)
  if host = [] || host.contains (byte '%') then none
  else if u.port = [] && u.host.getLast? = some (byte ':') then none
  else (portNumber u.port).map fun port => (host, canonicalHostPort u.scheme host port)

/-- An absolute HTTP(S) URL with nothing but a host and a path. -/
def plainURL (u : URL) : Bool :=
  u.opaquePart = [] && u.host ≠ [] && !u.hasUser && u.rawQuery = [] && !u.forceQuery
    && u.fragment = [] && u.rawFragment = [] && isHTTP u.scheme

def hasLineBreak (s : Bytes) : Bool := s.any fun c => c == 0x0D || c == 0x0A

def hasDotSegment (path : Bytes) : Bool :=
  (path.splitOn (byte '/')).any fun segment => segment = utf8 "." || segment = utf8 ".."

/-- The path of a canonical endpoint, if the URL has one. -/
def canonicalPath (u : URL) : Option Bytes :=
  let path := if u.escapedPath = [] then utf8 "/" else u.escapedPath
  if path.contains (byte '%') || u.path.any (fun c => c == byte '\\' || c == 0x0D || c == 0x0A)
      || hasDotSegment u.path then none
  else some path

/-! ## The catalog -/

/-- `catalog.Endpoint`. -/
structure Endpoint where
  canonical : Bytes
  origin : Bytes
  path : Bytes
  host : Bytes
deriving Repr, DecidableEq

/-- `catalog.ParseEndpoint`. -/
def parseEndpoint (raw : Bytes) : Option Endpoint := do
  if !trimmed raw || hasLineBreak raw then none
  else do
    let u ← Url.parse raw
    if !plainURL u || u.rawPath ≠ [] then none
    else do
      let (host, hostPort) ← canonicalHost u
      if hasLineBreak host then none
      else do
        let path ← canonicalPath u
        let origin := u.scheme ++ utf8 "://" ++ hostPort
        some ⟨origin ++ path, origin, path, host⟩

/-! ## The contracts -/

/-- `contracts.canonicalHTTPOrigin`. -/
def canonicalHTTPOrigin (value : Bytes) (allowPath : Bool) : Option Bytes := do
  if value = [] || !trimmed value || hasLineBreak value || 2048 < value.length then none
  else do
    let u ← Url.parse value
    if !plainURL u || u.rawPath ≠ [] then none
    else if !allowPath && u.path ≠ [] then none
    else do
      let (_, hostPort) ← canonicalHost u
      some (u.scheme ++ utf8 "://" ++ hostPort)

def canonicalRouterAgentAudience (endpoint : Bytes) : Option Bytes :=
  canonicalHTTPOrigin endpoint true

/-! ## The registry -/

/-- `registry.validExactText`. -/
def validExactText (value : Bytes) : Bool :=
  value ≠ [] && trimmed value && (runes value).all fun r => !(r.toNat < 0x20 || r.toNat == 0x7F)

/-- `registry.canonicalHTTPValue`. -/
def canonicalHTTPValue (raw : Bytes) (allowPath : Bool) : Option Bytes := do
  if !validExactText raw || 2048 < raw.length then none
  else do
    let u ← Url.parse raw
    if !plainURL u || u.rawPath ≠ [] then none
    else if !allowPath && u.path ≠ [] then none
    else do
      let (_, hostPort) ← canonicalHost u
      let canonical := u.scheme ++ utf8 "://" ++ hostPort
      if !allowPath then some canonical
      else do
        let path ← canonicalPath u
        some (canonical ++ path)

def validCanonicalEndpoint (raw : Bytes) : Bool := canonicalHTTPValue raw true = some raw

def validAudienceOrigin (raw : Bytes) : Bool := canonicalHTTPValue raw false = some raw

def audienceForCanonicalEndpoint (endpoint : Bytes) : Option Bytes := do
  let u ← Url.parse endpoint
  canonicalHTTPValue (u.scheme ++ utf8 "://" ++ u.host) false

end Canonical

/-! ## The router -/

/-- `routing.canonicalEndpoint`. -/
def canonicalEndpoint (raw : Bytes) : Option Bytes := do
  let u ← Url.parse raw
  some (if u.path = [] then { u with path := utf8 "/" } else u).text

/-! ## The four, compared -/

open Url (Plain Rooted parseHost)

theorem decimalNat_no_percent (n : Nat) : byte '%' ∉ decimalNat n := by
  intro h
  exact absurd (List.all_eq_true.mp (Json.all_isDigit_decimalNat n) _ h) (by decide)

variable {scheme hostPort path s : Bytes} {u : URL}

theorem canonicalHostPort_no_percent {host : Bytes} {port : Nat} (h : byte '%' ∉ host) :
    byte '%' ∉ canonicalHostPort scheme host port := by
  have hport := decimalNat_no_percent port
  have hbracketed : byte '%' ∉ bracketed host := by
    simp only [bracketed, List.cons_append, List.mem_cons, List.mem_append, List.not_mem_nil,
      or_false, not_or]
    exact ⟨by decide, h, by decide⟩
  have hcolon : byte '%' ∉ byte ':' :: decimalNat port := by
    rw [List.mem_cons, not_or]
    exact ⟨by decide, hport⟩
  unfold canonicalHostPort joinHostPort
  dsimp only
  split_ifs
  all_goals simp only [List.mem_append, h, hbracketed, hcolon, or_self, not_false_eq_true]

theorem plainURL_iff :
    plainURL u = true ↔ u.opaquePart = [] ∧ u.host ≠ [] ∧ u.hasUser = false ∧ u.rawQuery = []
      ∧ u.forceQuery = false ∧ u.fragment = [] ∧ u.rawFragment = [] ∧ isHTTP u.scheme = true := by
  simp [plainURL, and_assoc]

theorem canonicalHost_eq_some [UnicodeCase] {host : Bytes}
    (h : canonicalHost u = some (host, hostPort)) : byte '%' ∉ hostPort := by
  simp only [canonicalHost] at h
  split_ifs at h with hhost hcolon
  obtain ⟨port, -, heq⟩ := Option.map_eq_some_iff.mp h
  cases heq
  simp only [Bool.or_eq_true, decide_eq_true_eq, List.contains_iff_mem, not_or] at hhost
  exact canonicalHostPort_no_percent hhost.2

/-- The host and the scheme decide the canonical authority. -/
theorem canonicalHost_congr [UnicodeCase] {v : URL} (hscheme : u.scheme = v.scheme)
    (hhost : u.host = v.host) : canonicalHost u = canonicalHost v := by
  rw [canonicalHost, canonicalHost, URL.hostname, URL.hostname, URL.port, URL.port, hscheme, hhost]

/-- The authority and the path that a canonicalizer finds in a URL. -/
structure Found [UnicodeCase] (raw : Bytes) (u : URL) (host hostPort path : Bytes) : Prop where
  trimmed : trimmed raw = true
  lineBreak : hasLineBreak raw = false
  parse : Url.parse raw = some u
  plain : plainURL u = true
  host : canonicalHost u = some (host, hostPort)
  path : canonicalPath u = some path
  rawPath : u.rawPath = []

theorem parseEndpoint_eq_some [UnicodeCase] {raw : Bytes} {e : Endpoint}
    (h : parseEndpoint raw = some e) : ∃ u hostPort, Found raw u e.host hostPort e.path
      ∧ e.origin = u.scheme ++ utf8 "://" ++ hostPort ∧ e.canonical = e.origin ++ e.path := by
  simp only [parseEndpoint, Option.bind_eq_bind] at h
  split_ifs at h with hraw
  obtain ⟨u, hu, h⟩ := Option.bind_eq_some_iff.mp h
  split_ifs at h with hplain
  obtain ⟨⟨host, hostPort⟩, hhost, h⟩ := Option.bind_eq_some_iff.mp h
  split_ifs at h with hbreak
  obtain ⟨path, hpath, h⟩ := Option.bind_eq_some_iff.mp h
  cases h
  simp only [Bool.or_eq_true, Bool.not_eq_true', not_or, Bool.not_eq_false, Bool.not_eq_true,
    decide_eq_true_eq, not_not, ne_eq] at hraw hplain
  exact ⟨u, hostPort, ⟨hraw.1, hraw.2, hu, hplain.1, hhost, hpath, hplain.2⟩, rfl, rfl⟩

/-- The path of an endpoint needs no escape. -/
theorem canonicalPath_eq_some (h : canonicalPath u = some path) (hraw : u.rawPath = [])
    (hrooted : Rooted u.path) :
    Plain .path u.path ∧ path = if u.path = [] then utf8 "/" else u.path := by
  simp only [canonicalPath, URL.escapedPath_eq hraw hrooted] at h
  rcases hrooted with hnil | ⟨t, ht⟩
  · rw [hnil] at h ⊢
    refine ⟨fun c hc => absurd hc List.not_mem_nil, ?_⟩
    have hescape : Url.escape .path [] = [] := rfl
    rw [hescape, if_pos rfl] at h
    split_ifs at h
    cases h
    rfl
  · have hescape : Url.escape .path u.path ≠ [] := by
      rw [ht]
      exact List.cons_ne_nil _ _
    rw [if_neg hescape] at h
    split_ifs at h with hbad
    simp only [Bool.or_eq_true, not_or, List.contains_iff_mem] at hbad
    have hplain := Url.plain_of_escape hbad.1.1
    cases h
    refine ⟨hplain, ?_⟩
    rw [hplain.escape_eq, if_neg (by rw [ht]; exact List.cons_ne_nil _ _)]

/-- The slash of an empty path changes nothing else. -/
theorem canonicalPath_slash {v : URL} (h : canonicalPath u = some path) (hraw : u.rawPath = [])
    (hrooted : Rooted u.path) (hpath : v.path = path) (hvraw : v.rawPath = []) :
    canonicalPath v = some path := by
  obtain ⟨hplain, hslash⟩ := canonicalPath_eq_some h hraw hrooted
  by_cases hnil : u.path = []
  · rw [if_pos hnil] at hslash
    rw [hslash] at hpath ⊢
    have hv : v.escapedPath = utf8 "/" := by
      rw [URL.escapedPath_eq hvraw (by rw [hpath]; exact .inr ⟨[], rfl⟩), hpath]
      decide
    rw [canonicalPath, hv, hpath]
    decide +kernel
  · rw [if_neg hnil] at hslash
    subst hslash
    rw [canonicalPath, URL.escapedPath, hvraw, hpath]
    rwa [canonicalPath, URL.escapedPath, hraw] at h

/-- A URL of plain parts, and what the canonicalizers find in it. -/
def plainText (scheme hostPort path : Bytes) : Bytes := scheme ++ utf8 "://" ++ hostPort ++ path

theorem isGraphic_plainText (hscheme : isHTTP scheme = true) (hhost : Plain .host hostPort)
    (hpath : Plain .path path) : ∀ c ∈ plainText scheme hostPort path, Url.isGraphic c = true := by
  intro c hc
  simp only [plainText, List.mem_append] at hc
  rcases hc with ((hc | hc) | hc) | hc
  · have hall : scheme.all Url.isGraphic = true := by
      rcases Url.isHTTP_cases hscheme with rfl | rfl
      · decide
      · decide
    exact List.all_eq_true.mp hall c hc
  · have hall : (utf8 "://").all Url.isGraphic = true := by decide
    exact List.all_eq_true.mp hall c hc
  · exact Url.isGraphic_of_not_shouldEscape (hhost c hc)
  · exact Url.isGraphic_of_not_shouldEscape (hpath c hc)

theorem validExactText_of_runes (hne : s ≠ [])
    (h : ∀ r ∈ runes s, 0x20 < r.toNat ∧ r.toNat < 0x7F) :
    validExactText s = true := by
  have hspace : ∀ r ∈ runes s, Strings.isSpace r = false := by
    intro r hr
    have hr := h r hr
    simp only [Strings.isSpace, Bool.or_eq_false_iff, Bool.and_eq_false_iff, beq_eq_false_iff_ne,
      decide_eq_false_iff_not]
    omega
  have htrimmed : trimmed s = true := by
    simp only [trimmed, Bool.and_eq_true, Bool.not_eq_true', Option.any_eq_false]
    exact ⟨fun r hr => hspace r (List.mem_of_mem_head? hr),
      fun r hr => hspace r (List.mem_of_mem_getLast? hr)⟩
  rw [validExactText, htrimmed, Bool.and_true, Bool.and_eq_true, decide_eq_true_eq,
    List.all_eq_true]
  refine ⟨hne, fun r hr => ?_⟩
  have hr := h r hr
  simp only [Bool.not_eq_true', Bool.or_eq_false_iff, decide_eq_false_iff_not, beq_eq_false_iff_ne]
  omega

theorem validExactText_of_graphic (hne : s ≠ []) (h : ∀ c ∈ s, Url.isGraphic c = true) :
    validExactText s = true := by
  refine validExactText_of_runes hne fun r hr => ?_
  have hascii : ∀ c ∈ s, c < 0x80 := by
    intro c hc
    have hc := Url.isGraphic_iff.mp (h c hc)
    rw [UInt8.lt_iff_toNat_lt]
    show c.toNat < 128
    omega
  rw [Strings.runes_of_ascii hascii] at hr
  obtain ⟨c, hc, rfl⟩ := List.mem_map.mp hr
  have hc := Url.isGraphic_iff.mp (h c hc)
  have hnat : ∀ n < 0x7F, (Char.ofNat n).toNat = n := by decide
  rw [hnat c.toNat hc.2]
  exact hc

/-- The URL of a plain text. -/
def plainRecord (scheme hostPort path : Bytes) : URL :=
  ⟨scheme, [], false, hostPort, path, [], false, false, [], [], []⟩

theorem plainURL_plainRecord (hscheme : isHTTP scheme = true) (hhost : hostPort ≠ []) :
    plainURL (plainRecord scheme hostPort path) = true :=
  plainURL_iff.mpr ⟨rfl, hhost, rfl, rfl, rfl, rfl, rfl, hscheme⟩

section Plain

variable [UnicodeCase] {scheme hostPort : Bytes}

/-- An authority that is its own canonical form. -/
structure Canonical (scheme hostPort : Bytes) : Prop where
  http : isHTTP scheme = true
  ne_nil : hostPort ≠ []
  parse : parseHost scheme hostPort = some hostPort
  plain : Plain .host hostPort
  canonical : ∃ host, canonicalHost (plainRecord scheme hostPort []) = some (host, hostPort)

section Canonical

variable (h : Canonical scheme hostPort)

include h

theorem Canonical.parse_plainText {path : Bytes} (hpath : Plain .path path)
    (hrooted : Rooted path) :
    Url.parse (plainText scheme hostPort path) = some (plainRecord scheme hostPort path) :=
  Url.parse_plain h.http h.parse h.plain hpath hrooted

theorem Canonical.exact {path : Bytes} (hpath : Plain .path path) :
    validExactText (plainText scheme hostPort path) = true := by
  refine validExactText_of_graphic ?_ (isGraphic_plainText h.http h.plain hpath)
  simp [plainText, h.ne_nil]

/-- Its origin is its own canonical form. -/
theorem Canonical.origin (hlength : (plainText scheme hostPort []).length ≤ 2048) :
    canonicalHTTPValue (plainText scheme hostPort []) false =
      some (plainText scheme hostPort []) := by
  have hnil : Plain .path [] := fun c hc => absurd hc List.not_mem_nil
  obtain ⟨host, hhost⟩ := h.canonical
  rw [canonicalHTTPValue, h.exact hnil, if_neg (by simpa using hlength),
    h.parse_plainText hnil (.inl rfl)]
  simp only [Option.bind_eq_bind, Option.bind_some, plainURL_plainRecord h.http h.ne_nil, hhost]
  simp [plainRecord, plainText]

/-- And so is an endpoint with it. -/
theorem Canonical.endpoint {path : Bytes}
    (hpath : canonicalPath (plainRecord scheme hostPort path) = some path)
    (hplain : Plain .path path) (hrooted : Rooted path)
    (hlength : (plainText scheme hostPort path).length ≤ 2048) :
    canonicalHTTPValue (plainText scheme hostPort path) true =
      some (plainText scheme hostPort path) := by
  obtain ⟨host, hhost⟩ := h.canonical
  replace hhost : canonicalHost (plainRecord scheme hostPort path) = some (host, hostPort) :=
    (canonicalHost_congr rfl rfl).trans hhost
  rw [canonicalHTTPValue, h.exact hplain, if_neg (by simpa using hlength),
    h.parse_plainText hplain hrooted]
  simp only [Option.bind_eq_bind, Option.bind_some, plainURL_plainRecord h.http h.ne_nil, hhost,
    hpath]
  simp [plainRecord, plainText]

theorem Canonical.audience {path : Bytes} (hplain : Plain .path path) (hrooted : Rooted path)
    (hlength : (plainText scheme hostPort []).length ≤ 2048) :
    audienceForCanonicalEndpoint (plainText scheme hostPort path) =
      some (plainText scheme hostPort []) := by
  have horigin : (plainRecord scheme hostPort path).scheme ++ utf8 "://"
      ++ (plainRecord scheme hostPort path).host = plainText scheme hostPort [] := by
    rw [plainText, List.append_nil]
    rfl
  rw [audienceForCanonicalEndpoint, h.parse_plainText hplain hrooted]
  simp only [Option.bind_eq_bind, Option.bind_some]
  rw [horigin, h.origin hlength]

end Canonical

end Plain

theorem isASCII_of_plain {mode : Url.Encoding} (h : Plain mode s) : isASCII s = true := by
  refine List.all_eq_true.mpr fun c hc => ?_
  have hc := Url.isGraphic_iff.mp (Url.isGraphic_of_not_shouldEscape (h c hc))
  rw [decide_eq_true_eq, UInt8.lt_iff_toNat_lt]
  show c.toNat < 128
  omega

/-- The authority of the URL is written as in the canonical endpoint, in
ASCII, and that endpoint is not too long. -/
def Endpoint.SpelledIn (e : Endpoint) (raw : Bytes) : Prop :=
  (∃ parts ∈ Url.split raw, ∃ authority ∈ parts.authority, isASCII authority = true
      ∧ e.origin = parts.scheme ++ utf8 "://" ++ authority)
    ∧ e.canonical.length ≤ 2048

section Agreement

variable [UnicodeCase] {raw : Bytes} {e : Endpoint}

/-- What the router writes for an endpoint of the catalog. -/
theorem canonicalEndpoint_eq {u : URL} {host hostPort path : Bytes}
    (h : Found raw u host hostPort path) (hrooted : Rooted u.path) :
    canonicalEndpoint raw =
      some (u.scheme ++ utf8 "://" ++ Url.escape .host u.host ++ path) := by
  obtain ⟨hbody, hhost, -, hquery, hforce, hfragment, -, hscheme⟩ := plainURL_iff.mp h.plain
  obtain ⟨hplain, hslash⟩ := canonicalPath_eq_some h.path h.rawPath hrooted
  rw [canonicalEndpoint, h.parse]
  simp only [Option.bind_eq_bind, Option.bind_some]
  rw [hslash]
  split_ifs
  · rw [URL.text_eq (u := { u with path := utf8 "/" }) hscheme hbody hhost hquery hforce
      hfragment h.rawPath (.inr ⟨[], rfl⟩)]
    rfl
  · rw [URL.text_eq hscheme hbody hhost hquery hforce hfragment h.rawPath hrooted,
      hplain.escape_eq]

/-- The authority that was read is the canonical one. -/
theorem spelled_iff {u : URL} {hostPort : Bytes} (h : Found raw u e.host hostPort e.path)
    (horigin : e.origin = u.scheme ++ utf8 "://" ++ hostPort) :
    (∃ parts ∈ Url.split raw, ∃ authority ∈ parts.authority, isASCII authority = true
        ∧ e.origin = parts.scheme ++ utf8 "://" ++ authority) ↔
      Plain .host u.host ∧ u.host = hostPort := by
  obtain ⟨-, hhost, huser, -⟩ := plainURL_iff.mp h.plain
  obtain ⟨parts, authority, hsplit, hscheme, hauthority, hparse, -⟩ :=
    Url.parse_eq_some h.parse hhost huser
  constructor
  · rintro ⟨parts', hparts', authority', hauthority', hascii, heq⟩
    obtain rfl : parts = parts' := Option.some.inj (hsplit.symm.trans hparts')
    obtain rfl : authority = authority' := Option.some.inj (hauthority.symm.trans hauthority')
    have hsame : authority = hostPort := by
      rw [horigin, hscheme] at heq
      exact (List.append_cancel_left heq).symm
    have hpercent := canonicalHost_eq_some h.host
    rw [← hsame] at hpercent
    obtain ⟨hread, hplain⟩ := Url.parseHost_of_no_percent hpercent hparse
    rw [hread]
    exact ⟨fun c hc => hplain c hc (by simpa using List.all_eq_true.mp hascii c hc), hsame⟩
  · rintro ⟨hplain, hsame⟩
    have hread := Url.parseHost_of_plain hplain hparse
    refine ⟨parts, hsplit, authority, hauthority, ?_, ?_⟩
    · rw [← hread]
      exact isASCII_of_plain hplain
    · rw [horigin, hscheme, ← hread, hsame]

/-- The router writes the authority as it found it, so it agrees with the
catalog exactly if that was canonical. -/
theorem canonicalEndpoint_eq_iff (h : parseEndpoint raw = some e) :
    canonicalEndpoint raw = some e.canonical ↔
      ∃ parts ∈ Url.split raw, ∃ authority ∈ parts.authority, isASCII authority = true
        ∧ e.origin = parts.scheme ++ utf8 "://" ++ authority := by
  obtain ⟨u, hostPort, hfound, horigin, hcanonical⟩ := parseEndpoint_eq_some h
  obtain ⟨-, hhost, huser, -⟩ := plainURL_iff.mp hfound.plain
  obtain ⟨-, -, -, -, -, -, hrooted⟩ := Url.parse_eq_some hfound.parse hhost huser
  rw [spelled_iff hfound horigin, canonicalEndpoint_eq hfound hrooted, hcanonical, horigin]
  constructor
  · intro heq
    have hescape : Url.escape .host u.host = hostPort :=
      List.append_cancel_left (List.append_cancel_right (Option.some.inj heq))
    have hplain : Plain .host u.host := by
      refine Url.plain_of_escape ?_
      rw [hescape]
      exact canonicalHost_eq_some hfound.host
    rw [hplain.escape_eq] at hescape
    exact ⟨hplain, hescape⟩
  · rintro ⟨hplain, hsame⟩
    rw [hplain.escape_eq, hsame]

/-- The contracts find the origin of the catalog. -/
theorem canonicalRouterAgentAudience_eq (h : parseEndpoint raw = some e)
    (hlength : raw.length ≤ 2048) : canonicalRouterAgentAudience raw = some e.origin := by
  obtain ⟨u, hostPort, hfound, horigin, -⟩ := parseEndpoint_eq_some h
  have hne : raw ≠ [] := by
    rintro rfl
    have hparse := hfound.parse
    obtain ⟨-, hhost, -⟩ := plainURL_iff.mp hfound.plain
    cases hparse
    exact hhost rfl
  rw [canonicalRouterAgentAudience, canonicalHTTPOrigin, hfound.trimmed, hfound.lineBreak,
    if_neg (by simpa [hne] using hlength), hfound.parse]
  simp only [Option.bind_eq_bind, Option.bind_some, hfound.plain, hfound.rawPath, hfound.host]
  rw [horigin]
  rfl

/-- The registry takes a canonical endpoint, with the origin as its
audience. -/
theorem valid_of_spelledIn (h : parseEndpoint raw = some e) (hspelled : e.SpelledIn raw) :
    validCanonicalEndpoint e.canonical = true ∧ validAudienceOrigin e.origin = true
      ∧ audienceForCanonicalEndpoint e.canonical = some e.origin := by
  obtain ⟨hauthority, hlength⟩ := hspelled
  obtain ⟨u, hostPort, hfound, horigin, hcanonical⟩ := parseEndpoint_eq_some h
  obtain ⟨hplain, rfl⟩ := (spelled_iff hfound horigin).mp hauthority
  obtain ⟨-, hhost, huser, -, -, -, -, hscheme⟩ := plainURL_iff.mp hfound.plain
  obtain ⟨-, authority, -, -, -, hparse, hrooted⟩ := Url.parse_eq_some hfound.parse hhost huser
  obtain rfl := Url.parseHost_of_plain hplain hparse
  obtain ⟨hpath, hslash⟩ := canonicalPath_eq_some hfound.path hfound.rawPath hrooted
  have hcanon : Canonical u.scheme u.host :=
    ⟨hscheme, hhost, hparse, hplain, e.host, (canonicalHost_congr rfl rfl).trans hfound.host⟩
  have hpath' : Plain .path e.path ∧ Rooted e.path := by
    rw [hslash]
    split_ifs
    · exact ⟨Url.plain_slash, .inr ⟨[], rfl⟩⟩
    · exact ⟨hpath, hrooted⟩
  have htext : e.canonical = plainText u.scheme u.host e.path := by
    rw [hcanonical, horigin]
    rfl
  have horigin' : e.origin = plainText u.scheme u.host [] := by
    rw [horigin, plainText, List.append_nil]
  have hlength' : (plainText u.scheme u.host []).length ≤ 2048 := by
    rw [hcanonical, List.length_append, horigin'] at hlength
    omega
  have hfoundPath := canonicalPath_slash (v := plainRecord u.scheme u.host e.path) hfound.path
    hfound.rawPath hrooted rfl rfl
  rw [htext] at hlength ⊢
  rw [horigin', validCanonicalEndpoint, validAudienceOrigin, decide_eq_true_eq, decide_eq_true_eq]
  exact ⟨hcanon.endpoint hfoundPath hpath'.1 hpath'.2 hlength, hcanon.origin hlength',
    hcanon.audience hpath'.1 hpath'.2 hlength'⟩

end Agreement

end Nekiro
