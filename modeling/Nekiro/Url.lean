import Nekiro.Strings

/-!
# URLs

The part of Go's `net/url` that splits a URL and writes it again, with the
addresses of `net/netip` that it lets into brackets. Text is a list of
bytes, since an escape in a host stands for a byte. It names no program.

`split` only cuts the text; `parse` then decodes its parts. What a URL with
a host and a plain path is written as, it is read from (`parse_plain`).
The text of a user is not kept: only that there is one.
-/

namespace Nekiro

namespace Url

open Json (Bytes utf8 isHex hexValue)
open Strings (byte lowerByte)

def isLetter (c : UInt8) : Bool :=
  (byte 'a' ≤ c && c ≤ byte 'z') || (byte 'A' ≤ c && c ≤ byte 'Z')

/-! ## Cutting -/

/-- `strings.Cut` at one byte; no second part if it is not there. -/
def cut (sep : UInt8) : Bytes → Bytes × Option Bytes
  | [] => ([], none)
  | c :: s => if c = sep then ([], some s) else (c :: (cut sep s).1, (cut sep s).2)

/-- Around the last occurrence of a byte. -/
def cutLast (sep : UInt8) : Bytes → Option (Bytes × Bytes)
  | [] => none
  | c :: s =>
      match cutLast sep s with
      | some (before, after) => some (c :: before, after)
      | none => if c = sep then some ([], s) else none

/-- Before the first `%25`, and from there on. -/
def cutZone : Bytes → Bytes × Bytes
  | [] => ([], [])
  | c :: s =>
      if utf8 "%25" <+: c :: s then ([], c :: s) else (c :: (cutZone s).1, (cutZone s).2)

/-! ## Escapes -/

inductive Encoding where
  | path
  | host
  | zone
  | fragment
deriving Repr, DecidableEq

def Encoding.inHost (mode : Encoding) : Bool := mode = .host || mode = .zone

/-- `shouldEscape`. -/
def shouldEscape (mode : Encoding) (c : UInt8) : Bool :=
  if isLetter c || Json.isDigit c then false
  else if mode.inHost && (utf8 "!$&'()*+,;=:[]<>\"").contains c then false
  else if (utf8 "-_.~").contains c then false
  else if mode = .path && (utf8 "$&+,/:;=@").contains c then false
  else if mode = .fragment && (utf8 "$&+,/:;=?@!()*").contains c then false
  else true

def upperHex (n : Nat) : UInt8 := UInt8.ofNat (if n < 10 then 0x30 + n else 0x37 + n)

def escapeByte (mode : Encoding) (c : UInt8) : Bytes :=
  if shouldEscape mode c then [byte '%', upperHex (c.toNat / 16), upperHex (c.toNat % 16)] else [c]

def escape (mode : Encoding) (s : Bytes) : Bytes := s.flatMap (escapeByte mode)

/-- The escapes a host or a zone may have: bytes beyond ASCII, the percent
sign, and in a zone what may stand there anyway. -/
def escapeAllowed (mode : Encoding) (high low : UInt8) : Bool :=
  let value := UInt8.ofNat (hexValue high * 16 + hexValue low)
  let percent := high == byte '2' && low == byte '5'
  match mode with
  | .host => 8 ≤ hexValue high || percent
  | .zone => percent || value == byte ' ' || !shouldEscape .host value
  | _ => true

def unescape (mode : Encoding) : Bytes → Option Bytes
  | [] => some []
  | c :: s =>
      if c = byte '%' then
        match s with
        | high :: low :: rest =>
            if isHex high && isHex low && escapeAllowed mode high low then
              (unescape mode rest).map
                (UInt8.ofNat (hexValue high * 16 + hexValue low) :: ·)
            else none
        | _ => none
      else if mode.inHost && c < 0x80 && shouldEscape mode c then none
      else (unescape mode s).map (c :: ·)

/-! ## Addresses -/

/-- The four numbers of an IPv4 address, one byte after the other: the
number read so far, its digits, and how many dots there were. -/
def isIPv4From (value digits dots : Nat) : Bytes → Bool
  | [] => dots = 3 && digits ≠ 0
  | c :: s =>
      if Json.isDigit c then
        !(digits = 1 && value = 0) && value * 10 + (c.toNat - 0x30) ≤ 255
          && isIPv4From (value * 10 + (c.toNat - 0x30)) (digits + 1) dots s
      else c = byte '.' && digits ≠ 0 && dots < 3 && isIPv4From 0 0 (dots + 1) s

def isIPv4 (s : Bytes) : Bool := isIPv4From 0 0 0 s

/-- The groups of an IPv6 address from here on, with room for `room` of
them; `ellipsis` if there was a `::`. -/
def isIPv6From : (room : Nat) → (ellipsis : Bool) → Bytes → Bool
  | 0, ellipsis, s => s = [] && !ellipsis
  | room + 1, ellipsis, s =>
      let digits := s.takeWhile isHex
      let rest := s.dropWhile isHex
      if digits = [] || 4 < digits.length then false
      else
        match rest with
        | [] => if room = 0 then !ellipsis else ellipsis
        | c :: rest =>
            if c = byte '.' then
              (ellipsis || room = 1) && 1 ≤ room && isIPv4 s
                && (if room = 1 then !ellipsis else true)
            else if c = byte ':' then
              match rest with
              | [] => false
              | d :: rest' =>
                  if d = byte ':' then
                    !ellipsis && (if rest' = [] then room ≠ 0 else isIPv6From room true rest')
                  else isIPv6From room ellipsis (d :: rest')
            else false

def isIPv6 (s : Bytes) : Bool :=
  match s with
  | c :: d :: rest =>
      if c = byte ':' && d = byte ':' then rest = [] || isIPv6From 8 true rest
      else isIPv6From 8 false s
  | _ => isIPv6From 8 false s

inductive Address where
  | ipv4
  | ipv6 (zone : Bytes)
deriving Repr, DecidableEq

/-- `netip.ParseAddr`, without the bits of the address. -/
def parseAddr (s : Bytes) : Option Address :=
  match s.find? fun c => c = byte '.' || c = byte ':' || c = byte '%' with
  | none => none
  | some c =>
      if c = byte '.' then if isIPv4 s then some .ipv4 else none
      else if c = byte ':' then
        match cut (byte '%') s with
        | (s, none) => if isIPv6 s then some (.ipv6 []) else none
        | (s, some zone) => if zone ≠ [] && isIPv6 s then some (.ipv6 zone) else none
      else none

/-- `net.ParseIP(s) != nil`. -/
def isIP (s : Bytes) : Bool := parseAddr s = some .ipv4 || parseAddr s = some (.ipv6 [])

/-! ## Splitting -/

/-- Where the parts of a URL are in its text. -/
structure Split where
  scheme : Bytes
  opaquePart : Bytes
  authority : Option Bytes
  path : Bytes
  omitHost : Bool
  forceQuery : Bool
  rawQuery : Bytes
  fragment : Bytes
deriving Repr, DecidableEq

def isSchemeByte (c : UInt8) : Bool := isLetter c || Json.isDigit c || (utf8 "+-.").contains c

/-- `getScheme`. -/
def getScheme (raw : Bytes) : Option (Bytes × Bytes) :=
  let name := raw.takeWhile isSchemeByte
  match raw.dropWhile isSchemeByte with
  | c :: rest =>
      if c = byte ':' then
        match name with
        | [] => none
        | first :: _ => if isLetter first then some (name, rest) else some ([], raw)
      else some ([], raw)
  | [] => some ([], raw)

/-- The query, with the mark of an empty one. -/
def cutQuery (rest : Bytes) : Bytes × Bool × Bytes :=
  match cut (byte '?') rest with
  | (before, some []) => (before, true, [])
  | (before, some query) => (before, false, query)
  | (before, none) => (before, false, [])

def isControl (c : UInt8) : Bool := c < 0x20 || c == 0x7F

/-- What follows the scheme, without the query: a rootless text, an
authority and a path, or a path. -/
def splitRest (scheme rest : Bytes) (forceQuery : Bool) (rawQuery fragment : Bytes) :
    Option Split :=
  match rest with
  | [] => some ⟨scheme, [], none, [], false, forceQuery, rawQuery, fragment⟩
  | c :: tail =>
      if c ≠ byte '/' then
        if scheme ≠ [] then some ⟨scheme, rest, none, [], false, forceQuery, rawQuery, fragment⟩
        else if (cut (byte '/') rest).1.contains (byte ':') then none
        else some ⟨scheme, [], none, rest, false, forceQuery, rawQuery, fragment⟩
      else if tail.head? = some (byte '/') && (scheme ≠ [] || !(utf8 "///").isPrefixOf rest) then
        let authority := (cut (byte '/') (tail.drop 1)).1
        some ⟨scheme, [], some authority, (tail.drop 1).drop authority.length, false, forceQuery,
          rawQuery, fragment⟩
      else some ⟨scheme, [], none, rest, scheme ≠ [], forceQuery, rawQuery, fragment⟩

/-- `Parse`, before anything is decoded. -/
def split (raw : Bytes) : Option Split :=
  let u := (cut (byte '#') raw).1
  let fragment := (cut (byte '#') raw).2.getD []
  if u.any isControl then none
  else if u = utf8 "*" then some ⟨[], [], none, u, false, false, [], fragment⟩
  else
    match getScheme u with
    | none => none
    | some (name, rest) =>
        let (rest, forceQuery, rawQuery) := cutQuery rest
        splitRest (name.map lowerByte) rest forceQuery rawQuery fragment

/-! ## Hosts -/

/-- `validOptionalPort`. -/
def validOptionalPort : Bytes → Bool
  | [] => true
  | c :: digits => c = byte ':' && digits.all Json.isDigit

def isHTTP (scheme : Bytes) : Bool := scheme = utf8 "http" || scheme = utf8 "https"

/-- What follows the host of `host`, from the colon on: the first one for
HTTP, where a host has none, else the last. -/
def colonPort (scheme host : Bytes) : Bytes :=
  if isHTTP scheme then
    match cut (byte ':') host with
    | (_, some port) => byte ':' :: port
    | (_, none) => []
  else
    match cutLast (byte ':') host with
    | some (_, port) => byte ':' :: port
    | none => []

/-- An address in brackets, from after the first one. -/
def parseBracketed (inside : Bytes) : Option Bytes := do
  let (name, port) ← cutLast (byte ']') inside
  if validOptionalPort port then do
    let port ← unescape .host port
    let address ← unescape .host (cutZone name).1
    let zone ← unescape .zone (cutZone name).2
    match parseAddr (address ++ zone) with
    | some (.ipv6 _) => some (byte '[' :: (address ++ zone) ++ byte ']' :: port)
    | _ => none
  else none

/-- `parseHost`. -/
def parseHost (scheme host : Bytes) : Option Bytes :=
  match cutLast (byte '[') host with
  | some ([], inside) => parseBracketed inside
  | some (_ :: _, _) => none
  | none => if validOptionalPort (colonPort scheme host) then unescape .host host else none

structure URL where
  scheme : Bytes
  opaquePart : Bytes
  hasUser : Bool
  host : Bytes
  path : Bytes
  rawPath : Bytes
  omitHost : Bool
  forceQuery : Bool
  rawQuery : Bytes
  fragment : Bytes
  rawFragment : Bytes
deriving Repr, DecidableEq

/-- A part that is kept as it was written only if writing it again would
not give that. -/
def decodePart (mode : Encoding) (s : Bytes) : Option (Bytes × Bytes) :=
  (unescape mode s).map fun part => (part, if escape mode part = s then [] else s)

def validUserinfo (s : Bytes) : Bool :=
  s.all fun c => isLetter c || Json.isDigit c || (utf8 "-._:~!$&'()*+,;=%@").contains c

/-- The host and whether there is a user. -/
def parseAuthority (scheme authority : Bytes) : Option (Bool × Bytes) :=
  match cutLast (byte '@') authority with
  | some (user, host) =>
      -- no escape reaches over the colon between name and password
      if validUserinfo user && (unescape .path user).isSome then
        (parseHost scheme host).map (true, ·)
      else none
  | none => (parseHost scheme authority).map (false, ·)

def Split.userHost (parts : Split) : Option (Bool × Bytes) :=
  match parts.authority with
  | some authority => parseAuthority parts.scheme authority
  | none => some (false, [])

def parse (raw : Bytes) : Option URL := do
  let parts ← split raw
  let (hasUser, host) ← parts.userHost
  let (path, rawPath) ← decodePart .path parts.path
  let (fragment, rawFragment) ← decodePart .fragment parts.fragment
  some ⟨parts.scheme, parts.opaquePart, hasUser, host, path, rawPath, parts.omitHost,
    parts.forceQuery, parts.rawQuery, fragment, rawFragment⟩

namespace URL

/-- `validEncoded`. -/
def validEncoded (mode : Encoding) (s : Bytes) : Bool :=
  s.all fun c => (utf8 "!$&'()*+,;=:@[]%").contains c || !shouldEscape mode c

/-- A part as it was written, if that is still what it means. -/
def written (mode : Encoding) (part raw : Bytes) : Bytes :=
  if raw ≠ [] && validEncoded mode raw && unescape mode raw = some part then raw
  else if part = utf8 "*" && mode = .path then part
  else escape mode part

def escapedPath (u : URL) : Bytes := written .path u.path u.rawPath

/-- `splitHostPort`. -/
def splitHostPort (hostPort : Bytes) : Bytes × Bytes :=
  let (host, port) := match cutLast (byte ':') hostPort with
    | some (host, port) => if port.all Json.isDigit then (host, port) else (hostPort, [])
    | none => (hostPort, [])
  match host with
  | c :: rest =>
      if c = byte '[' && rest.getLast? = some (byte ']') then (rest.dropLast, port)
      else (host, port)
  | [] => (host, port)

def hostname (u : URL) : Bytes := (splitHostPort u.host).1

def port (u : URL) : Bytes := (splitHostPort u.host).2

/-- `URL.String`, of a URL without a user. -/
def text (u : URL) : Bytes :=
  let start := if u.scheme = [] then [] else u.scheme ++ [byte ':']
  let query := if u.forceQuery || u.rawQuery ≠ [] then byte '?' :: u.rawQuery else []
  let fragment :=
    if u.fragment = [] then [] else byte '#' :: written .fragment u.fragment u.rawFragment
  if u.opaquePart ≠ [] then start ++ u.opaquePart ++ query ++ fragment
  else
    let slashes :=
      if (u.scheme ≠ [] || u.host ≠ []) && !(u.omitHost && u.host = [])
          && (u.host ≠ [] || u.path ≠ []) then utf8 "//"
      else []
    let host := escape .host u.host
    let path := u.escapedPath
    let path := if path ≠ [] && path.head? ≠ some (byte '/') && u.host ≠ [] then byte '/' :: path
      else path
    let path := if start ++ slashes ++ host = [] && (cut (byte '/') path).1.contains (byte ':') then
        utf8 "./" ++ path
      else path
    start ++ slashes ++ host ++ path ++ query ++ fragment

end URL

/-! ## Cutting, as lemmas -/

variable {sep c : UInt8} {s t h scheme host authority path : Bytes} {mode : Encoding} {u : URL}

theorem cut_append {a : Bytes} (h : sep ∉ a) (s : Bytes) :
    cut sep (a ++ s) = (a ++ (cut sep s).1, (cut sep s).2) := by
  induction a with
  | nil => rfl
  | cons c a ih =>
      have hc := List.ne_of_not_mem_cons h
      rw [List.cons_append, cut, if_neg (Ne.symm hc), ih (List.not_mem_of_not_mem_cons h)]
      rfl

theorem cut_of_not_mem {a : Bytes} (h : sep ∉ a) : cut sep a = (a, none) := by
  have hcut := cut_append h []
  rwa [List.append_nil, cut, List.append_nil] at hcut

/-- What is left after the first part starts with the separator. -/
theorem drop_cut (sep : UInt8) (s : Bytes) :
    s.drop (cut sep s).1.length = [] ∨ ∃ t, s.drop (cut sep s).1.length = sep :: t := by
  induction s with
  | nil => exact .inl rfl
  | cons c s ih =>
      rw [cut]
      split_ifs with hc
      · exact .inr ⟨s, by rw [hc]; rfl⟩
      · exact ih

theorem cutLast_eq_some {before after : Bytes} (h : cutLast sep s = some (before, after)) :
    s = before ++ sep :: after := by
  induction s generalizing before with
  | nil => cases h
  | cons c s ih =>
      rw [cutLast] at h
      split at h
      · rename_i before' after' hlast
        cases h
        rw [List.cons_append, ← ih hlast]
      · split_ifs at h with hc
        cases h
        rw [hc, List.nil_append]

theorem cutLast_of_not_mem (h : sep ∉ s) : cutLast sep s = none := by
  cases hlast : cutLast sep s with
  | none => rfl
  | some parts =>
      refine absurd ?_ h
      rw [cutLast_eq_some hlast]
      exact List.mem_append_right _ List.mem_cons_self

theorem cutZone_append (s : Bytes) : (cutZone s).1 ++ (cutZone s).2 = s := by
  induction s with
  | nil => rfl
  | cons c s ih =>
      rw [cutZone]
      split_ifs
      · rfl
      · rw [List.cons_append, ih]

/-- What is left after the cut starts with the escape. -/
theorem cutZone_snd (s : Bytes) :
    (cutZone s).2 = [] ∨ ∃ t, (cutZone s).2 = utf8 "%25" ++ t := by
  induction s with
  | nil => exact .inl rfl
  | cons c s ih =>
      rw [cutZone]
      split_ifs with hzone
      · obtain ⟨t, ht⟩ := hzone
        exact .inr ⟨t, ht.symm⟩
      · exact ih

/-! ## Escapes, as lemmas -/

/-- Every byte may stand as it is. -/
def Plain (mode : Encoding) (s : Bytes) : Prop := ∀ c ∈ s, shouldEscape mode c = false

theorem shouldEscape_percent (mode : Encoding) : shouldEscape mode (byte '%') = true := by
  cases mode <;> decide

theorem plain_slash : Plain .path (utf8 "/") := by
  intro c hc
  have hslash : c ∈ [byte '/'] := hc
  obtain rfl := List.mem_singleton.mp hslash
  decide

theorem Plain.not_mem (h : Plain mode s) (hc : shouldEscape mode c = true) : c ∉ s := by
  intro hmem
  rw [h c hmem] at hc
  cases hc

theorem Plain.escape_eq (h : Plain mode s) : escape mode s = s := by
  rw [escape, List.flatMap_congr (g := fun c => [c]), List.flatMap_singleton']
  intro c hc
  rw [escapeByte, h c hc]
  rfl

/-- An escaped byte leaves its percent sign. -/
theorem plain_of_escape (h : byte '%' ∉ escape mode s) : Plain mode s := by
  intro c hc
  by_contra hescape
  rw [Bool.not_eq_false] at hescape
  refine h (List.mem_flatMap.mpr ⟨c, hc, ?_⟩)
  rw [escapeByte, if_pos hescape]
  exact List.mem_cons_self

theorem unescape_cons (hc : c ≠ byte '%') (s : Bytes) :
    unescape mode (c :: s) =
      if mode.inHost && c < 0x80 && shouldEscape mode c then none
      else (unescape mode s).map (c :: ·) := by
  conv_lhs => unfold unescape
  rw [if_neg hc]

theorem unescape_of_plain (h : Plain mode s) : unescape mode s = some s := by
  induction s with
  | nil => rfl
  | cons c s ih =>
      obtain ⟨hc, hs⟩ := List.forall_mem_cons.mp h
      have hpercent : c ≠ byte '%' := by
        rintro rfl
        rw [shouldEscape_percent] at hc
        cases hc
      rw [unescape_cons hpercent, hc, Bool.and_false, ih hs]
      rfl

/-- Without an escape the text stays, and in a host its ASCII is plain. -/
theorem unescape_of_no_percent (hs : byte '%' ∉ s) (h : unescape mode s = some t) :
    t = s ∧ (mode.inHost = true → ∀ c ∈ s, c < 0x80 → shouldEscape mode c = false) := by
  induction s generalizing t with
  | nil =>
      cases h
      exact ⟨rfl, fun _ c hc => absurd hc List.not_mem_nil⟩
  | cons c s ih =>
      rw [unescape_cons (Ne.symm (List.ne_of_not_mem_cons hs))] at h
      split_ifs at h with hbad
      obtain ⟨t', ht', rfl⟩ := Option.map_eq_some_iff.mp h
      obtain ⟨rfl, hplain⟩ := ih (List.not_mem_of_not_mem_cons hs) ht'
      refine ⟨rfl, fun hmode d hd hlt => ?_⟩
      rcases List.mem_cons.mp hd with rfl | hd
      · by_contra hescape
        rw [Bool.not_eq_false] at hescape
        exact hbad (by simp [hmode, hlt, hescape])
      · exact hplain hmode d hd hlt

theorem hexValue_lt (h : isHex c = true) : hexValue c < 16 := by
  refine Strings.forall_byte (P := fun c => isHex c = true → hexValue c < 16) ?_ c h
  decide +kernel

/-- A byte of ASCII that is seen. -/
def isGraphic (c : UInt8) : Bool := 0x20 < c && c < 0x7F

theorem isGraphic_of_not_shouldEscape (h : shouldEscape mode c = false) : isGraphic c = true := by
  refine Strings.forall_byte (P := fun c => shouldEscape mode c = false → isGraphic c = true) ?_ c h
  cases mode <;> decide +kernel

theorem isGraphic_iff : isGraphic c = true ↔ 0x20 < c.toNat ∧ c.toNat < 0x7F := by
  rw [isGraphic, Bool.and_eq_true, decide_eq_true_eq, decide_eq_true_eq]
  rfl

theorem shouldEscape_of_not_graphic (h : isGraphic c = false) : shouldEscape mode c = true := by
  by_contra hescape
  rw [isGraphic_of_not_shouldEscape (Bool.not_eq_true _ ▸ hescape)] at h
  cases h

/-- An escape in a host stands for a byte beyond ASCII or for a percent
sign. -/
theorem shouldEscape_unhex {high low : UInt8}
    (h : (isHex high = true ∧ isHex low = true) ∧ escapeAllowed .host high low = true) :
    shouldEscape .host (UInt8.ofNat (hexValue high * 16 + hexValue low)) = true := by
  obtain ⟨⟨hhigh, hlow⟩, hallowed⟩ := h
  rw [escapeAllowed, Bool.or_eq_true, Bool.and_eq_true, decide_eq_true_eq, beq_iff_eq,
    beq_iff_eq] at hallowed
  rcases hallowed with hbig | ⟨rfl, rfl⟩
  · refine shouldEscape_of_not_graphic ?_
    have h₁ := hexValue_lt hhigh
    have h₂ := hexValue_lt hlow
    have hsize : hexValue high * 16 + hexValue low < UInt8.size := by
      show _ < 256
      omega
    rw [← Bool.not_eq_true, isGraphic_iff, UInt8.toNat_ofNat_of_lt' hsize]
    omega
  · decide

theorem unescape_host_percent (hs : byte '%' ∈ s) (h : unescape .host s = some t) :
    ∃ c ∈ t, shouldEscape .host c = true := by
  fun_induction unescape .host s generalizing t with
  | case1 => cases hs
  | case2 high low rest hok ih =>
      obtain ⟨t', -, rfl⟩ := Option.map_eq_some_iff.mp h
      exact ⟨_, List.mem_cons_self, shouldEscape_unhex (by simpa using hok)⟩
  | case3 => cases h
  | case4 => cases h
  | case5 => cases h
  | case6 c s hc hbad ih =>
      obtain ⟨t', ht', rfl⟩ := Option.map_eq_some_iff.mp h
      rcases List.mem_cons.mp hs with hc' | hs
      · exact absurd hc'.symm hc
      · obtain ⟨d, hd, hescape⟩ := ih hs ht'
        exact ⟨d, List.mem_cons_of_mem _ hd, hescape⟩

/-! ## Hosts, as lemmas -/

theorem validOptionalPort_no_percent {port : Bytes} (h : validOptionalPort port = true) :
    byte '%' ∉ port := by
  cases port with
  | nil => exact List.not_mem_nil
  | cons c digits =>
      rw [validOptionalPort, Bool.and_eq_true, decide_eq_true_eq, List.all_eq_true] at h
      obtain ⟨rfl, hdigits⟩ := h
      intro hmem
      rcases List.mem_cons.mp hmem with hc | hmem
      · exact absurd hc (by decide)
      · exact absurd (hdigits _ hmem) (by decide)

theorem unescape_zone_percent (t : Bytes) :
    unescape .zone (utf8 "%25" ++ t) = (unescape .zone t).map (byte '%' :: ·) := rfl

theorem parseBracketed_eq_some {inside : Bytes} (hparse : parseBracketed inside = some h) :
    ∃ name port address zone, inside = name ++ byte ']' :: port ∧ byte '%' ∉ port
      ∧ unescape .host (cutZone name).1 = some address
      ∧ unescape .zone (cutZone name).2 = some zone
      ∧ (∀ c ∈ port, c < 0x80 → shouldEscape .host c = false)
      ∧ h = byte '[' :: (address ++ zone) ++ byte ']' :: port := by
  simp only [parseBracketed, Option.bind_eq_bind, Option.bind_eq_some_iff] at hparse
  obtain ⟨⟨name, port⟩, hclose, hparse⟩ := hparse
  split_ifs at hparse with hport
  simp only [Option.bind_eq_some_iff] at hparse
  obtain ⟨port', hport', address, haddress, zone, hzone, hparse⟩ := hparse
  have hpercent := validOptionalPort_no_percent hport
  obtain ⟨rfl, hplain⟩ := unescape_of_no_percent hpercent hport'
  split at hparse
  · cases hparse
    exact ⟨name, port', address, zone, cutLast_eq_some hclose, hpercent, haddress, hzone,
      hplain rfl, rfl⟩
  · cases hparse

/-- A host without escapes is read as it is. -/
theorem parseHost_of_no_percent (hhost : byte '%' ∉ host)
    (hparse : parseHost scheme host = some h) :
    h = host ∧ ∀ c ∈ host, c < 0x80 → shouldEscape .host c = false := by
  rw [parseHost] at hparse
  split at hparse
  · rename_i inside hlast
    obtain rfl := cutLast_eq_some hlast
    obtain ⟨name, port, address, zone, rfl, -, haddress, hzone, hport, rfl⟩ :=
      parseBracketed_eq_some hparse
    simp only [List.nil_append, List.mem_cons, List.mem_append, not_or] at hhost
    obtain ⟨-, hname, -⟩ := hhost
    -- no percent sign, no zone
    have hnozone : (cutZone name).2 = [] := by
      rcases cutZone_snd name with h | ⟨t, ht⟩
      · exact h
      · refine absurd ?_ hname
        rw [← cutZone_append name, ht]
        exact List.mem_append_right _ (List.mem_append_left _ (by decide))
    have hwhole := cutZone_append name
    rw [hnozone, List.append_nil] at hwhole
    rw [hwhole] at haddress
    rw [hnozone] at hzone
    cases hzone
    obtain ⟨rfl, haddress⟩ := unescape_of_no_percent hname haddress
    rw [List.append_nil]
    refine ⟨rfl, fun c hc hlt => ?_⟩
    simp only [List.nil_append, List.mem_cons, List.mem_append] at hc
    rcases hc with rfl | hc | rfl | hc
    · decide
    · exact haddress rfl c hc hlt
    · decide
    · exact hport c hc hlt
  · cases hparse
  · split_ifs at hparse
    obtain ⟨rfl, hplain⟩ := unescape_of_no_percent hhost hparse
    exact ⟨rfl, hplain rfl⟩

theorem parseHost_percent (hhost : byte '%' ∈ host) (hparse : parseHost scheme host = some h) :
    ∃ c ∈ h, shouldEscape .host c = true := by
  rw [parseHost] at hparse
  split at hparse
  · rename_i inside hlast
    obtain rfl := cutLast_eq_some hlast
    obtain ⟨name, port, address, zone, rfl, hport, haddress, hzone, -, rfl⟩ :=
      parseBracketed_eq_some hparse
    rcases cutZone_snd name with hnozone | ⟨t, ht⟩
    · have hname : byte '%' ∈ (cutZone name).1 := by
        have hwhole := cutZone_append name
        rw [hnozone, List.append_nil] at hwhole
        rw [hwhole]
        simp only [List.nil_append, List.mem_cons, List.mem_append] at hhost
        rcases hhost with hc | hname | hc | hmem
        · exact absurd hc (by decide)
        · exact hname
        · exact absurd hc (by decide)
        · exact absurd hmem hport
      obtain ⟨c, hc, hescape⟩ := unescape_host_percent hname haddress
      exact ⟨c, by simp [hc], hescape⟩
    · rw [ht, unescape_zone_percent] at hzone
      obtain ⟨zone', -, rfl⟩ := Option.map_eq_some_iff.mp hzone
      exact ⟨byte '%', by simp, shouldEscape_percent .host⟩
  · cases hparse
  · split_ifs at hparse
    exact unescape_host_percent hhost hparse

/-- A host that needs no escape was read from itself. -/
theorem parseHost_of_plain (hplain : Plain .host h) (hparse : parseHost scheme host = some h) :
    h = host := by
  by_cases hpercent : byte '%' ∈ host
  · obtain ⟨c, hc, hescape⟩ := parseHost_percent hpercent hparse
    exact absurd hc (hplain.not_mem hescape)
  · exact (parseHost_of_no_percent hpercent hparse).1

/-! ## Splitting, as lemmas -/

theorem Plain.no_control (h : Plain mode s) : s.any isControl = false := by
  rw [List.any_eq_false]
  intro c hc hcontrol
  have hgraphic := isGraphic_iff.mp (isGraphic_of_not_shouldEscape (h c hc))
  rw [isControl, Bool.or_eq_true, decide_eq_true_eq, beq_iff_eq, UInt8.lt_iff_toNat_lt] at hcontrol
  rcases hcontrol with hlt | rfl
  · exact absurd hlt (by simp; omega)
  · exact absurd hgraphic (by decide)

theorem isHTTP_cases (h : isHTTP scheme = true) : scheme = utf8 "http" ∨ scheme = utf8 "https" := by
  rw [isHTTP, Bool.or_eq_true, decide_eq_true_eq, decide_eq_true_eq] at h
  exact h

theorem getScheme_http (h : isHTTP scheme = true) (rest : Bytes) :
    getScheme (scheme ++ byte ':' :: rest) = some (scheme, rest) := by
  rcases isHTTP_cases h with rfl | rfl
  · rfl
  · rfl

/-- A path as a URL with a host has it. -/
def Rooted (path : Bytes) : Prop := path = [] ∨ ∃ t, path = byte '/' :: t

theorem splitRest_rooted {rest rawQuery fragment : Bytes} {forceQuery : Bool} {parts : Split}
    (h : splitRest scheme rest forceQuery rawQuery fragment = some parts)
    (hauthority : parts.authority = some authority) : Rooted parts.path := by
  unfold splitRest at h
  split at h
  · cases h
    cases hauthority
  · rename_i c tail
    split_ifs at h
    · cases h
      cases hauthority
    · cases h
      cases hauthority
    · cases h
      exact drop_cut (byte '/') (tail.drop 1)
    · cases h
      cases hauthority

theorem split_rooted {raw : Bytes} {parts : Split} (h : split raw = some parts)
    (hauthority : parts.authority = some authority) : Rooted parts.path := by
  simp only [split] at h
  split_ifs at h
  · cases h
    cases hauthority
  split at h
  · cases h
  · exact splitRest_rooted h hauthority

theorem splitRest_authority (hscheme : scheme ≠ []) (hauthority : byte '/' ∉ authority)
    (hrooted : Rooted path) :
    splitRest scheme (utf8 "//" ++ (authority ++ path)) false [] [] =
      some ⟨scheme, [], some authority, path, false, false, [], []⟩ := by
  have hcut : (cut (byte '/') (authority ++ path)).1 = authority := by
    rw [cut_append hauthority]
    rcases hrooted with rfl | ⟨t, rfl⟩
    · exact List.append_nil authority
    · rw [cut, if_pos rfl]
      exact List.append_nil authority
  show splitRest scheme (byte '/' :: byte '/' :: (authority ++ path)) false [] [] = _
  rw [splitRest, if_neg (fun h => h rfl), List.head?_cons]
  simp only [hscheme, ne_eq, not_false_eq_true, decide_true, Bool.true_or, Bool.and_true, if_true,
    List.drop_succ_cons, List.drop_zero, hcut, List.drop_left]

theorem split_plain (hscheme : isHTTP scheme = true) (hauthority : Plain .host authority)
    (hpath : Plain .path path) (hrooted : Rooted path) :
    split (scheme ++ utf8 "://" ++ authority ++ path) =
      some ⟨scheme, [], some authority, path, false, false, [], []⟩ := by
  have htext : scheme ++ utf8 "://" ++ authority ++ path =
      scheme ++ byte ':' :: (utf8 "//" ++ (authority ++ path)) := by
    rw [List.append_assoc, List.append_assoc]
    rfl
  -- a byte that only delimits is in none of the parts
  have hnot : ∀ c, c ∉ scheme → c ∉ utf8 "://" → shouldEscape .host c = true →
      shouldEscape .path c = true → c ∉ scheme ++ utf8 "://" ++ authority ++ path := by
    intro c h₁ h₂ h₃ h₄ hmem
    simp only [List.mem_append] at hmem
    rcases hmem with ((hmem | hmem) | hmem) | hmem
    · exact h₁ hmem
    · exact h₂ hmem
    · exact hauthority.not_mem h₃ hmem
    · exact hpath.not_mem h₄ hmem
  have hhttp : byte '#' ∉ scheme ∧ byte '?' ∉ scheme ∧ scheme.any isControl = false
      ∧ scheme.map lowerByte = scheme ∧ scheme ≠ [] := by
    rcases isHTTP_cases hscheme with rfl | rfl
    · decide
    · decide
  obtain ⟨hhash, hquestion, hscheme_control, hlower, hne⟩ := hhttp
  have hfragment := cut_of_not_mem (hnot (byte '#') hhash (by decide) (by decide) (by decide))
  have hquery : cutQuery (utf8 "//" ++ (authority ++ path)) =
      (utf8 "//" ++ (authority ++ path), false, []) := by
    have hmem := hnot (byte '?') hquestion (by decide) (by decide) (by decide)
    rw [htext, List.mem_append, List.mem_cons, not_or, not_or] at hmem
    rw [cutQuery, cut_of_not_mem hmem.2.2]
  have hcontrol : (scheme ++ utf8 "://" ++ authority ++ path).any isControl = false := by
    rw [List.any_append, List.any_append, List.any_append, hscheme_control, hauthority.no_control,
      hpath.no_control]
    rfl
  have hstar : scheme ++ utf8 "://" ++ authority ++ path ≠ utf8 "*" := by
    intro h
    have hmem : byte ':' ∈ utf8 "*" := by
      rw [← h, htext]
      exact List.mem_append_right _ List.mem_cons_self
    exact absurd hmem (by decide)
  rw [split, hfragment]
  simp only [hcontrol, Bool.false_eq_true, if_false, if_neg hstar]
  rw [htext, getScheme_http hscheme]
  simp only [hquery, hlower]
  exact splitRest_authority hne (hauthority.not_mem (by decide)) hrooted

/-! ## Reading what was written -/

theorem decodePart_of_plain (h : Plain mode s) : decodePart mode s = some (s, []) := by
  rw [decodePart, unescape_of_plain h, Option.map_some, h.escape_eq, if_pos rfl]

/-- **A plain URL is read as it is written.** -/
theorem parse_plain (hscheme : isHTTP scheme = true)
    (hparse : parseHost scheme authority = some authority) (hauthority : Plain .host authority)
    (hpath : Plain .path path) (hrooted : Rooted path) :
    parse (scheme ++ utf8 "://" ++ authority ++ path) =
      some ⟨scheme, [], false, authority, path, [], false, false, [], [], []⟩ := by
  have huser : parseAuthority scheme authority = some (false, authority) := by
    rw [parseAuthority, cutLast_of_not_mem (hauthority.not_mem (by decide)), hparse]
    rfl
  rw [parse, split_plain hscheme hauthority hpath hrooted]
  simp only [Option.bind_eq_bind, Option.bind_some, Split.userHost, huser,
    decodePart_of_plain hpath]
  rfl

theorem unescape_rooted (h : unescape .path s = some t) (hs : Rooted s) : Rooted t := by
  rcases hs with rfl | ⟨s, rfl⟩
  · cases h
    exact .inl rfl
  · rw [unescape_cons (by decide)] at h
    obtain ⟨t', -, rfl⟩ := Option.map_eq_some_iff.mp h
    exact .inr ⟨t', rfl⟩

/-- Where the host of a URL without a user was read from. -/
theorem parse_eq_some {raw : Bytes} (h : parse raw = some u) (hhost : u.host ≠ [])
    (huser : u.hasUser = false) : ∃ parts authority, split raw = some parts
      ∧ parts.scheme = u.scheme ∧ parts.authority = some authority
      ∧ parseHost u.scheme authority = some u.host ∧ Rooted u.path := by
  simp only [parse, Option.bind_eq_bind, Option.bind_eq_some_iff] at h
  obtain ⟨parts, hsplit, ⟨hasUser, host⟩, hauthority, ⟨path, rawPath⟩, hpath,
    ⟨fragment, rawFragment⟩, -, heq⟩ := h
  cases heq
  obtain rfl : hasUser = false := huser
  rw [Split.userHost] at hauthority
  split at hauthority
  · rename_i authority hsome
    refine ⟨parts, authority, hsplit, rfl, hsome, ?_, ?_⟩
    · rw [parseAuthority] at hauthority
      split at hauthority
      · split_ifs at hauthority
        obtain ⟨host', -, heq⟩ := Option.map_eq_some_iff.mp hauthority
        cases heq
      · obtain ⟨host', hparse, heq⟩ := Option.map_eq_some_iff.mp hauthority
        cases heq
        exact hparse
    · obtain ⟨part, hpart, heq⟩ := Option.map_eq_some_iff.mp hpath
      cases heq
      exact unescape_rooted hpart (split_rooted hsplit hsome)
  · cases hauthority
    exact absurd rfl hhost

theorem Rooted.ne_star (h : Rooted path) : path ≠ utf8 "*" := by
  rcases h with rfl | ⟨t, rfl⟩
  · decide
  · intro h
    exact absurd (List.cons.inj h).1 (by decide)

theorem Rooted.escape (h : Rooted path) : Rooted (Url.escape .path path) := by
  rcases h with rfl | ⟨t, rfl⟩
  · exact .inl rfl
  · exact .inr ⟨Url.escape .path t, rfl⟩

theorem URL.escapedPath_eq (hraw : u.rawPath = []) (hrooted : Rooted u.path) :
    u.escapedPath = Url.escape .path u.path := by
  rw [URL.escapedPath, URL.written, hraw]
  simp [hrooted.ne_star]

/-- How such a URL is written. -/
theorem URL.text_eq (hscheme : isHTTP u.scheme = true) (hbody : u.opaquePart = [])
    (hhost : u.host ≠ []) (hquery : u.rawQuery = []) (hforce : u.forceQuery = false)
    (hfragment : u.fragment = []) (hraw : u.rawPath = []) (hrooted : Rooted u.path) :
    u.text = u.scheme ++ utf8 "://" ++ Url.escape .host u.host ++ Url.escape .path u.path := by
  have hne : u.scheme ≠ [] := by
    rcases isHTTP_cases hscheme with h | h <;> rw [h] <;> decide
  have hslash : Url.escape .path u.path = [] ∨
      (Url.escape .path u.path).head? = some (byte '/') := by
    rcases hrooted.escape with h | ⟨t, h⟩
    · exact .inl h
    · exact .inr (by rw [h, List.head?_cons])
  have hpath : (if (Url.escape .path u.path ≠ [] && (Url.escape .path u.path).head? ≠
      some (byte '/') && u.host ≠ []) = true then byte '/' :: Url.escape .path u.path
      else Url.escape .path u.path) = Url.escape .path u.path := by
    rcases hslash with h | h
    · simp [h]
    · simp [h]
  have hcolon : utf8 "://" = [byte ':'] ++ utf8 "//" := rfl
  simp only [URL.text, hbody, hquery, hforce, hfragment, URL.escapedPath_eq hraw hrooted, hpath]
  simp [hne, hhost, hcolon]

end Url

end Nekiro
