import Mathlib.Algebra.Group.Nat.Defs
import Nekiro.Civil

/-!
# RFC 3339 timestamps

Instants, their canonical UTC spelling, and the two readers a text has
to pass before it becomes an instant: the `date-time` format of JSON
Schema and Go's `time.Parse` for the `RFC3339Nano` layout. Nothing here
refers to a particular program.

The readers share one scanner (`scan`) for the RFC 3339 shape and
differ in what they make of it: the format admits lower-case `t` and
`z` and a leap second, `time.Parse` does not. The canonical spelling
(`format`) is `time.Time.UTC().Format(time.RFC3339Nano)`.

The law (`parse_format`, `dateTime_format`) is a round trip with a
condition: the spelling of an instant reads back as that instant when
its UTC year has four digits. RFC 3339 has no spelling for the other
years, although a text with a zone offset can denote an instant in one.
-/

namespace Nekiro

/-- An instant: nanoseconds since 0001-01-01T00:00:00Z, the zero value
of Go's `time.Time`. -/
abbrev Time := Int

namespace Time

def microsecond : Time := 1000

def millisecond : Time := 1000000

def second : Time := 1000000000

/-- `time.Time.Truncate(time.Microsecond)`: rounding is towards the
zero time's past, so it is a floor also for negative instants. -/
def truncateMicro (t : Time) : Time := t - t % 1000

/-- `time.Time.IsZero`. -/
def isZero (t : Time) : Bool := t == 0

/-- The UTC day number of an instant. -/
def utcDay (t : Time) : Int := t / second / 86400

/-- The UTC calendar year of an instant. -/
def utcYear (t : Time) : Int := (Civil.ofDays t.utcDay).year

theorem utcDay_mono {t u : Time} (h : t ≤ u) : t.utcDay ≤ u.utcDay :=
  Int.ediv_le_ediv (by decide) (Int.ediv_le_ediv (by decide) h)

theorem utcYear_mono {t u : Time} (h : t ≤ u) : t.utcYear ≤ u.utcYear :=
  Civil.ofDays_year_mono (utcDay_mono h)

theorem truncateMicro_le (t : Time) : t.truncateMicro ≤ t := by
  have hle : ∀ t : Int, t - t % 1000 ≤ t := by omega
  exact hle t

/-- Truncation does not leave the second. -/
theorem utcYear_truncateMicro (t : Time) : t.truncateMicro.utcYear = t.utcYear := by
  have hday : ∀ t : Int, (t - t % 1000) / 1000000000 = t / 1000000000 := by omega
  unfold utcYear utcDay truncateMicro second
  rw [hday]

end Time

namespace Rfc3339

/-! ## Digits -/

def digit (n : Nat) : Char := Char.ofNat ('0'.toNat + n)

def digit? (c : Char) : Option Nat :=
  if '0' ≤ c ∧ c ≤ '9' then some (c.toNat - '0'.toNat) else none

variable {n : Nat} {ds : List Nat} {t : Time} {text : String}

theorem digit?_digit (hn : n < 10) : digit? (digit n) = some n := by
  revert n
  decide

def pad2 (n : Nat) : List Char := [digit (n / 10), digit (n % 10)]

def pad4 (n : Nat) : List Char :=
  [digit (n / 1000), digit (n / 100 % 10), digit (n / 10 % 10), digit (n % 10)]

/-- The nine decimal digits of a nanosecond count. -/
def digits9 (n : Nat) : List Nat :=
  [n / 100000000, n / 10000000 % 10, n / 1000000 % 10, n / 100000 % 10, n / 10000 % 10,
    n / 1000 % 10, n / 100 % 10, n / 10 % 10, n % 10]

def ofDigits (ds : List Nat) : Nat := ds.foldl (fun n d => 10 * n + d) 0

theorem ofDigits_digits9 (hn : n < 1000000000) : ofDigits (digits9 n) = n := by
  simp only [ofDigits, digits9, List.foldl_cons, List.foldl_nil]
  omega

theorem digits9_lt (hn : n < 1000000000) : ∀ d ∈ digits9 n, d < 10 := by
  intro d hd
  simp only [digits9, List.mem_cons, List.not_mem_nil, or_false] at hd
  omega

/-! ## Reading -/

/-- Read `w` decimal digits. -/
def number (w : Nat) (cs : List Char) : Option (Nat × List Char) :=
  match (cs.take w).mapM digit? with
  | some ds => if ds.length = w then some (ofDigits ds, cs.drop w) else none
  | none => none

def expect (c : Char) : List Char → Option (List Char)
  | [] => none
  | c' :: cs => if c' = c then some cs else none

/-- The zone of a timestamp: the UTC mark (in either case) or a signed
offset. -/
inductive Zone where
  | utc (lower : Bool)
  | offset (west : Bool) (hours minutes : Nat)
deriving Repr, DecidableEq

/-- The lexical content of an RFC 3339 timestamp. -/
structure Fields where
  date : Civil.Date
  lowerT : Bool
  hour : Nat
  minute : Nat
  second : Nat
  frac : List Nat
  zone : Zone
deriving Repr, DecidableEq

/-- Read the `T` between date and time. -/
def scanT : List Char → Option (Bool × List Char)
  | [] => none
  | c :: cs => if c = 'T' then some (false, cs) else if c = 't' then some (true, cs) else none

/-- Read an optional fraction: a period and at least one digit. -/
def scanFrac : List Char → Option (List Nat × List Char)
  | [] => some ([], [])
  | c :: cs =>
      if c = '.' then
        match (cs.takeWhile fun c => (digit? c).isSome).filterMap digit? with
        | [] => none
        | d :: ds => some (d :: ds, cs.dropWhile fun c => (digit? c).isSome)
      else some ([], c :: cs)

def scanZone : List Char → Option Zone
  | [] => none
  | c :: cs =>
      if c = 'Z' then if cs = [] then some (.utc false) else none
      else if c = 'z' then if cs = [] then some (.utc true) else none
      else if c = '+' ∨ c = '-' then do
        let (h, cs) ← number 2 cs
        let cs ← expect ':' cs
        let (m, cs) ← number 2 cs
        if cs = [] then some (.offset (c = '-') h m) else none
      else none

/-- Read the RFC 3339 shape. -/
def scan (text : String) : Option Fields := do
  let (year, cs) ← number 4 text.toList
  let cs ← expect '-' cs
  let (month, cs) ← number 2 cs
  let cs ← expect '-' cs
  let (day, cs) ← number 2 cs
  let (lowerT, cs) ← scanT cs
  let (hour, cs) ← number 2 cs
  let cs ← expect ':' cs
  let (minute, cs) ← number 2 cs
  let cs ← expect ':' cs
  let (second, cs) ← number 2 cs
  let (frac, cs) ← scanFrac cs
  let zone ← scanZone cs
  some ⟨⟨year, month, day⟩, lowerT, hour, minute, second, frac, zone⟩

/-- Seconds east of UTC. -/
def Zone.east : Zone → Int
  | .utc _ => 0
  | .offset west h m => if west then -(3600 * h + 60 * m : Int) else 3600 * h + 60 * m

def Zone.inRange : Zone → Bool
  | .utc _ => true
  | .offset _ h m => h ≤ 23 && m ≤ 59

def Zone.lower : Zone → Bool
  | .utc lower => lower
  | .offset _ _ _ => false

/-- Everything but the seconds is in range. -/
def Fields.inRange (f : Fields) : Bool :=
  f.date.valid && f.hour ≤ 23 && f.minute ≤ 59 && f.zone.inRange

/-- A leap second is the last second of a UTC day. -/
def Fields.leapSecond (f : Fields) : Bool :=
  f.second == 60 && (60 * f.hour + f.minute - f.zone.east / 60) % 1440 == 1439

/-- The fraction as nanoseconds; digits past the ninth are dropped. -/
def Fields.nanos (f : Fields) : Nat := ofDigits ((f.frac ++ List.replicate 9 0).take 9)

def Fields.instant (f : Fields) : Time :=
  (Civil.toDays f.date * 86400 + (3600 * f.hour + 60 * f.minute + f.second : Nat)
    - f.zone.east) * Time.second + f.nanos

/-- The `date-time` format of JSON Schema. -/
def dateTime (text : String) : Bool :=
  match scan text with
  | some f => f.inRange && (f.second ≤ 59 || f.leapSecond)
  | none => false

/-- `time.Parse(time.RFC3339Nano, text)` on texts of the RFC 3339
shape. -/
def parse (text : String) : Option Time :=
  match scan text with
  | some f =>
      if f.inRange && f.second ≤ 59 && !f.lowerT && !f.zone.lower then some f.instant else none
  | none => none

/-! ## Writing -/

/-- Drop the zeros at the end. -/
def trimZeros : List Nat → List Nat
  | [] => []
  | d :: ds =>
      match trimZeros ds with
      | [] => if d = 0 then [] else [d]
      | d' :: ds' => d :: d' :: ds'

def fracText (ns : Nat) : List Char :=
  match trimZeros (digits9 ns) with
  | [] => []
  | d :: ds => '.' :: (d :: ds).map digit

/-- A year in at least four digits, with a sign when negative. -/
def yearText (y : Int) : List Char :=
  let digits := fun n : Nat => if n < 10000 then pad4 n else Nat.toDigits 10 n
  if y < 0 then '-' :: digits y.natAbs else digits y.toNat

/-- `t.UTC().Format(time.RFC3339Nano)`. -/
def format (t : Time) : String :=
  let d := Civil.ofDays t.utcDay
  let s := (t / Time.second % 86400).toNat
  String.ofList
    (yearText d.year ++ '-' :: pad2 d.month ++ '-' :: pad2 d.day ++ 'T' :: pad2 (s / 3600)
      ++ ':' :: pad2 (s / 60 % 60) ++ ':' :: pad2 (s % 60)
      ++ fracText (t % Time.second).toNat ++ ['Z'])

/-! ## Reading what was written -/

theorem number_pad2 (hn : n < 100) (cs : List Char) : number 2 (pad2 n ++ cs) = some (n, cs) := by
  have h1 : digit? (digit (n / 10)) = some (n / 10) := digit?_digit (by omega)
  have h2 : digit? (digit (n % 10)) = some (n % 10) := digit?_digit (by omega)
  simp [number, pad2, List.mapM_cons, h1, h2, ofDigits]
  omega

theorem number_pad4 (hn : n < 10000) (cs : List Char) : number 4 (pad4 n ++ cs) = some (n, cs) := by
  have h1 : digit? (digit (n / 1000)) = some (n / 1000) := digit?_digit (by omega)
  have h2 : digit? (digit (n / 100 % 10)) = some (n / 100 % 10) := digit?_digit (by omega)
  have h3 : digit? (digit (n / 10 % 10)) = some (n / 10 % 10) := digit?_digit (by omega)
  have h4 : digit? (digit (n % 10)) = some (n % 10) := digit?_digit (by omega)
  simp [number, pad4, List.mapM_cons, h1, h2, h3, h4, ofDigits]
  omega

theorem trimZeros_append : ∀ ds : List Nat,
    ∃ k, ds = trimZeros ds ++ List.replicate k 0
  | [] => ⟨0, rfl⟩
  | d :: ds => by
      obtain ⟨k, hk⟩ := trimZeros_append ds
      unfold trimZeros
      cases ht : trimZeros ds with
      | nil =>
          rw [ht, List.nil_append] at hk
          by_cases hd : d = 0
          · exact ⟨k + 1, by simp [hd, hk, List.replicate_succ]⟩
          · exact ⟨k, by simp [hd, hk]⟩
      | cons d' ds' =>
          rw [ht] at hk
          exact ⟨k, by simp [hk]⟩

/-- Padding a trimmed digit list with zeros restores it. -/
theorem take_trimZeros (hlen : ds.length = n) :
    (trimZeros ds ++ List.replicate n 0).take n = ds := by
  obtain ⟨k, hk⟩ := trimZeros_append ds
  have hkn : (trimZeros ds).length + k = n := by
    have := congrArg List.length hk
    simp only [List.length_append, List.length_replicate] at this
    omega
  obtain ⟨j, hj⟩ : ∃ j, n = k + j := ⟨(trimZeros ds).length, by omega⟩
  rw [hj, ← List.replicate_append_replicate, ← List.append_assoc, ← hk,
    List.take_append_of_le_length (by omega)]
  exact List.take_of_length_le (by omega)

theorem takeWhile_digits (hds : ∀ d ∈ ds, d < 10) (c : Char) (hc : digit? c = none)
    (cs : List Char) :
    ((ds.map digit ++ c :: cs).takeWhile fun c => (digit? c).isSome) = ds.map digit
      ∧ ((ds.map digit ++ c :: cs).dropWhile fun c => (digit? c).isSome) = c :: cs := by
  induction ds with
  | nil => simp [hc]
  | cons d ds ih =>
      have hd : digit? (digit d) = some d := digit?_digit (hds d (List.mem_cons_self ..))
      have := ih fun d' hd' => hds d' (List.mem_cons_of_mem _ hd')
      simp only [List.map_cons, List.cons_append, List.takeWhile_cons, List.dropWhile_cons, hd,
        Option.isSome_some, if_true, this, and_self]

theorem filterMap_digits (hds : ∀ d ∈ ds, d < 10) : (ds.map digit).filterMap digit? = ds := by
  induction ds with
  | nil => rfl
  | cons d ds ih =>
      have hd : digit? (digit d) = some d := digit?_digit (hds d (List.mem_cons_self ..))
      rw [List.map_cons, List.filterMap_cons_some hd,
        ih fun d' hd' => hds d' (List.mem_cons_of_mem _ hd')]

theorem scanFrac_fracText (hn : n < 1000000000) :
    scanFrac (fracText n ++ ['Z']) = some (trimZeros (digits9 n), ['Z']) := by
  unfold fracText
  cases ht : trimZeros (digits9 n) with
  | nil => simp [scanFrac]
  | cons d ds =>
      have hlt : ∀ x ∈ d :: ds, x < 10 := by
        intro x hx
        obtain ⟨k, hk⟩ := trimZeros_append (digits9 n)
        refine digits9_lt hn x ?_
        rw [hk, ht]
        exact List.mem_append_left _ hx
      have hZ : digit? 'Z' = none := by decide
      obtain ⟨htake, hdrop⟩ := takeWhile_digits hlt 'Z' hZ []
      simp only [scanFrac, List.cons_append, if_true, htake, hdrop, filterMap_digits hlt]

/-- The fields of a canonical spelling. -/
def formatFields (t : Time) : Fields :=
  let s := (t / Time.second % 86400).toNat
  ⟨Civil.ofDays t.utcDay, false, s / 3600, s / 60 % 60, s % 60,
    trimZeros (digits9 (t % Time.second).toNat), .utc false⟩

theorem yearText_eq {y : Int} (h0 : 0 ≤ y) (h1 : y ≤ 9999) : yearText y = pad4 y.toNat := by
  have hlt : ¬y < 0 := by omega
  have hsmall : y.toNat < 10000 := by omega
  simp only [yearText, if_neg hlt, if_pos hsmall]

theorem scan_format (h0 : 0 ≤ t.utcYear) (h1 : t.utcYear ≤ 9999) :
    scan (format t) = some (formatFields t) := by
  have hvalid := Civil.ofDays_valid t.utcDay
  unfold Civil.Date.valid at hvalid
  rw [decide_eq_true_iff] at hvalid
  have hday := Civil.daysIn_le (Civil.isLeap (Civil.ofDays t.utcDay).year)
    hvalid.2.1
  have hfrac : (t % Time.second).toNat < 1000000000 := by
    unfold Time.second
    omega
  unfold Time.utcYear at h0 h1
  simp only [scan, format, String.toList_ofList, yearText_eq h0 h1, List.append_assoc,
    List.cons_append]
  rw [number_pad4 (by omega)]
  simp only [Option.bind_eq_bind, Option.bind_some, expect, if_true]
  rw [number_pad2 (by omega)]
  simp only [Option.bind_some, if_true]
  rw [number_pad2 (by omega)]
  simp only [Option.bind_some, scanT, if_true]
  rw [number_pad2 (by omega)]
  simp only [Option.bind_some, if_true]
  rw [number_pad2 (by omega)]
  simp only [Option.bind_some, if_true]
  rw [number_pad2 (by omega)]
  simp only [Option.bind_some, scanFrac_fracText hfrac, scanZone, if_true]
  simp only [formatFields, Int.toNat_of_nonneg h0]

theorem formatFields_inRange (t : Time) : (formatFields t).inRange = true := by
  have hvalid := Civil.ofDays_valid t.utcDay
  have hs : (t / Time.second % 86400).toNat < 86400 := by omega
  simp only [Fields.inRange, formatFields, hvalid, Zone.inRange, Bool.and_true, Bool.true_and,
    Bool.and_eq_true]
  exact ⟨decide_eq_true (by omega), decide_eq_true (by omega)⟩

/-- An instant is its days, its clock time and its nanoseconds. -/
theorem join_clock (t : Int) :
    (t / 1000000000 / 86400 * 86400
        + ((3600 * ((t / 1000000000 % 86400).toNat / 3600)
            + 60 * ((t / 1000000000 % 86400).toNat / 60 % 60)
            + (t / 1000000000 % 86400).toNat % 60 : Nat) : Int) - 0) * 1000000000
      + ((t % 1000000000).toNat : Int) = t := by
  omega

theorem formatFields_instant (t : Time) : (formatFields t).instant = t := by
  have hfrac : (t % Time.second).toNat < 1000000000 := by
    unfold Time.second
    omega
  have hnanos : (formatFields t).nanos = (t % Time.second).toNat := by
    simp only [Fields.nanos, formatFields]
    rw [take_trimZeros (by rfl), ofDigits_digits9 hfrac]
  simp only [Fields.instant, hnanos]
  simp only [formatFields, Civil.toDays_ofDays, Zone.east]
  exact join_clock t

/-- **The timestamp round trip.** A spelling with a four-digit year
reads back as the instant it spells. -/
theorem parse_format (h0 : 0 ≤ t.utcYear) (h1 : t.utcYear ≤ 9999) : parse (format t) = some t := by
  have hsec : (formatFields t).second ≤ 59 := by
    simp only [formatFields]
    omega
  simp [parse, scan_format h0 h1, formatFields_inRange, hsec, formatFields_instant]
  simp [formatFields, Zone.lower]

theorem dateTime_format (h0 : 0 ≤ t.utcYear) (h1 : t.utcYear ≤ 9999) :
    dateTime (format t) = true := by
  have hsec : (formatFields t).second ≤ 59 := by
    simp only [formatFields]
    omega
  simp [dateTime, scan_format h0 h1, formatFields_inRange, hsec]

/-! ## The characters of a spelling -/

/-- The characters a spelling is made of. -/
def spells (c : Char) : Bool := (digit? c).isSome || ['-', ':', '.', 'T', 'Z'].contains c

theorem spells_digit (h : n < 10) : spells (digit n) = true := by
  rw [spells, digit?_digit h]
  rfl

theorem spells_pad2 (h : n < 100) : ∀ c ∈ pad2 n, spells c = true := by
  simp only [pad2, List.forall_mem_singleton, List.forall_mem_cons]
  exact ⟨spells_digit (by omega), spells_digit (by omega)⟩

theorem spells_fracText (h : n < 1000000000) : ∀ c ∈ fracText n, spells c = true := by
  have hsub : ∀ d ∈ trimZeros (digits9 n), d < 10 := fun d hd =>
    digits9_lt h d (by
      obtain ⟨k, hk⟩ := trimZeros_append (digits9 n)
      rw [hk]
      exact List.mem_append_left _ hd)
  unfold fracText
  split
  · simp
  · rename_i d ds heq
    rw [heq] at hsub
    simp only [List.map_cons, List.forall_mem_cons, List.forall_mem_map] at hsub ⊢
    exact ⟨by decide, spells_digit hsub.1, fun e he => spells_digit (hsub.2 e he)⟩

theorem spells_format (h0 : 0 ≤ t.utcYear) (h1 : t.utcYear ≤ 9999) :
    ∀ c ∈ (format t).toList, spells c = true := by
  have hvalid := Civil.ofDays_valid t.utcDay
  unfold Civil.Date.valid at hvalid
  rw [decide_eq_true_iff] at hvalid
  have hday := Civil.daysIn_le (Civil.isLeap (Civil.ofDays t.utcDay).year) hvalid.2.1
  have hyear : ∀ c ∈ yearText (Civil.ofDays t.utcDay).year, spells c = true := by
    unfold Time.utcYear at h0 h1
    rw [yearText_eq h0 h1]
    simp only [pad4, List.forall_mem_singleton, List.forall_mem_cons]
    exact ⟨spells_digit (by omega), spells_digit (by omega), spells_digit (by omega),
      spells_digit (by omega)⟩
  have hfrac : (t % Time.second).toNat < 1000000000 := by
    unfold Time.second
    omega
  simp only [format, String.toList_ofList, List.forall_mem_append, List.forall_mem_singleton,
    List.forall_mem_cons]
  have hmark : ['-', ':', '.', 'T', 'Z'].all spells = true := by decide
  simp only [List.all_cons, Bool.and_eq_true] at hmark
  obtain ⟨hdash, hcolon, -, hT, hZ, -⟩ := hmark
  exact ⟨⟨⟨⟨⟨⟨⟨hyear, hdash, spells_pad2 (by omega)⟩, hdash, spells_pad2 (by omega)⟩, hT,
    spells_pad2 (by omega)⟩, hcolon, spells_pad2 (by omega)⟩, hcolon, spells_pad2 (by omega)⟩,
    spells_fracText hfrac⟩, hZ⟩

/-! ## Which instants a text can denote

The year of a text has four digits and the zone moves it by less than a
day, so the UTC year is at most one off the written range. -/

theorem digit?_lt {c : Char} {d : Nat} (h : digit? c = some d) : d < 10 := by
  unfold digit? at h
  split_ifs at h with hc
  have h9 : c.toNat ≤ 57 := hc.2
  have h0 : '0'.toNat = 48 := rfl
  rw [Option.some.injEq] at h
  omega

theorem foldl_digits_lt : ∀ (ds : List Nat) (n : Nat), (∀ d ∈ ds, d < 10) →
    ds.foldl (fun n d => 10 * n + d) n < (n + 1) * 10 ^ ds.length
  | [], n, _ => by simp
  | d :: ds, n, hds => by
      have hd := hds d (List.mem_cons_self ..)
      have ih := foldl_digits_lt ds (10 * n + d) fun x hx => hds x (List.mem_cons_of_mem _ hx)
      rw [List.foldl_cons, List.length_cons, Nat.pow_succ]
      calc ds.foldl (fun n d => 10 * n + d) (10 * n + d)
          < (10 * n + d + 1) * 10 ^ ds.length := ih
        _ ≤ (10 * (n + 1)) * 10 ^ ds.length := Nat.mul_le_mul_right _ (by omega)
        _ = (n + 1) * (10 ^ ds.length * 10) := by
            rw [Nat.mul_comm 10, Nat.mul_assoc, Nat.mul_comm 10]

theorem ofDigits_lt (hds : ∀ d ∈ ds, d < 10) : ofDigits ds < 10 ^ ds.length := by
  simpa [ofDigits] using foldl_digits_lt ds 0 hds

theorem mapM_digit?_lt : ∀ (cs : List Char) (ds : List Nat), cs.mapM digit? = some ds →
    ∀ d ∈ ds, d < 10
  | [], ds, h, d, hd => by
      obtain rfl : [] = ds := by simpa using h
      simp at hd
  | c :: cs, ds, h, d, hd => by
      rw [List.mapM_cons] at h
      cases hc : digit? c with
      | none => simp [hc] at h
      | some d0 =>
          cases hcs : cs.mapM digit? with
          | none => simp [hc, hcs] at h
          | some ds0 =>
              obtain rfl : d0 :: ds0 = ds := by simpa [hc, hcs] using h
              rcases List.mem_cons.mp hd with rfl | hmem
              · exact digit?_lt hc
              · exact mapM_digit?_lt cs ds0 hcs d hmem

theorem number_lt {w : Nat} {cs rest : List Char} (h : number w cs = some (n, rest)) :
    n < 10 ^ w := by
  unfold number at h
  cases hm : (cs.take w).mapM digit? with
  | none => simp [hm] at h
  | some ds =>
      simp only [hm] at h
      split_ifs at h with hlen
      rw [Option.some.injEq, Prod.mk.injEq] at h
      rw [← h.1, ← hlen]
      exact ofDigits_lt (mapM_digit?_lt _ ds hm)

theorem scanFrac_lt {cs rest : List Char} (h : scanFrac cs = some (ds, rest)) :
    ∀ d ∈ ds, d < 10 := by
  cases cs with
  | nil =>
      simp only [scanFrac, Option.some.injEq, Prod.mk.injEq] at h
      simp [← h.1]
  | cons c cs =>
      simp only [scanFrac] at h
      split_ifs at h with hc
      · cases hf : (cs.takeWhile fun c => (digit? c).isSome).filterMap digit? with
        | nil => simp [hf] at h
        | cons d0 ds0 =>
            simp only [hf, Option.some.injEq, Prod.mk.injEq] at h
            rw [← h.1, ← hf]
            intro d hd
            obtain ⟨c', -, hc'⟩ := List.mem_filterMap.mp hd
            exact digit?_lt hc'
      · simp only [Option.some.injEq, Prod.mk.injEq] at h
        simp [← h.1]

theorem scan_digits {f : Fields} (h : scan text = some f) :
    0 ≤ f.date.year ∧ f.date.year ≤ 9999 ∧ ∀ d ∈ f.frac, d < 10 := by
  unfold scan at h
  simp only [Option.bind_eq_bind, Option.bind_eq_some_iff] at h
  obtain ⟨⟨year, cs⟩, hyear, h⟩ := h
  have hlt := number_lt hyear
  obtain ⟨_, _, ⟨month, _⟩, _, _, _, ⟨day, _⟩, _, ⟨lowerT, _⟩, _, ⟨hour, _⟩, _, _, _,
    ⟨minute, _⟩, _, _, _, ⟨second, _⟩, _, ⟨frac, _⟩, hfrac, zone, _, heq⟩ := h
  cases heq
  refine ⟨?_, ?_, scanFrac_lt hfrac⟩
  · exact Int.natCast_nonneg year
  · simp only
    omega

theorem nanos_lt {f : Fields} (h : ∀ d ∈ f.frac, d < 10) : f.nanos < 1000000000 := by
  have hall : ∀ d ∈ (f.frac ++ List.replicate 9 0).take 9, d < 10 := by
    intro d hd
    rcases List.mem_append.mp (List.mem_of_mem_take hd) with hf | hz
    · exact h d hf
    · rw [List.eq_of_mem_replicate hz]
      decide
  have hlen : ((f.frac ++ List.replicate 9 0).take 9).length = 9 := by simp
  have := ofDigits_lt hall
  rw [hlen] at this
  exact this

theorem east_bounds {z : Zone} (h : z.inRange = true) : -86400 < z.east ∧ z.east < 86400 := by
  cases z with
  | utc lower => simp [Zone.east]
  | offset west hours minutes =>
      simp only [Zone.inRange, Bool.and_eq_true, decide_eq_true_eq] at h
      simp only [Zone.east]
      split_ifs <;> omega

/-- Less than a day of clock time and of offset moves a day number by at
most one. -/
theorem day_of_clock {day east : Int} {clock nanos : Nat} (hclock : clock < 86400)
    (h1 : -86400 < east) (h2 : east < 86400) (hn : nanos < 1000000000) :
    day - 1 ≤ ((day * 86400 + clock - east) * 1000000000 + nanos) / 1000000000 / 86400
      ∧ ((day * 86400 + clock - east) * 1000000000 + nanos) / 1000000000 / 86400 ≤ day + 1 := by
  omega

/-- The UTC day of a parsed text is next to its written date. -/
theorem parse_day (h : parse text = some t) :
    ∃ d : Civil.Date, d.valid = true ∧ 0 ≤ d.year ∧ d.year ≤ 9999
      ∧ Civil.toDays d - 1 ≤ t.utcDay ∧ t.utcDay ≤ Civil.toDays d + 1 := by
  unfold parse at h
  cases hs : scan text with
  | none => simp [hs] at h
  | some f =>
      simp only [hs] at h
      split_ifs at h with hc
      cases h
      simp only [Fields.inRange, Bool.and_eq_true, decide_eq_true_eq] at hc
      obtain ⟨h0, h9, hfrac⟩ := scan_digits hs
      have hn := nanos_lt hfrac
      have he := east_bounds hc.1.1.1.2
      refine ⟨f.date, hc.1.1.1.1.1.1, h0, h9, ?_⟩
      exact day_of_clock (by omega) he.1 he.2 hn

/-- The UTC year of a parsed text. -/
theorem parse_utcYear (h : parse text = some t) : -1 ≤ t.utcYear ∧ t.utcYear ≤ 10000 := by
  obtain ⟨d, hvalid, h0, h9, hlo, hhi⟩ := parse_day h
  have hb := Civil.toDays_bounds hvalid
  have hlow := Civil.daysBeforeYear_mono h0
  have hhigh := Civil.daysBeforeYear_mono (y := d.year + 1) (z := 10000) (by omega)
  have hbelow : Civil.daysBeforeYear (-1) + 1 ≤ Civil.daysBeforeYear 0 := by decide
  have habove : Civil.daysBeforeYear 10000 + 1 < Civil.daysBeforeYear (10000 + 1) := by decide
  have hlo : Civil.daysBeforeYear (-1) ≤ t.utcDay := by omega
  have hhi : t.utcDay < Civil.daysBeforeYear (10000 + 1) := by omega
  exact Civil.ofDays_year_bounds hlo hhi

/-- The spelling of a parsed instant outside the four-digit years is no
`date-time`: it has a sign or a fifth digit. -/
theorem dateTime_format_eq_false (h : parse text = some t)
    (hyear : ¬(0 ≤ t.utcYear ∧ t.utcYear ≤ 9999)) : dateTime (format t) = false := by
  obtain ⟨hlo, hhi⟩ := parse_utcYear h
  have hcases : t.utcYear = -1 ∨ t.utcYear = 10000 := by omega
  have hscan : scan (format t) = none := by
    unfold Time.utcYear at hcases
    rcases hcases with hy | hy
    · simp only [scan, format, String.toList_ofList, hy]
      rfl
    · simp only [scan, format, String.toList_ofList, hy]
      rfl
  simp [dateTime, hscan]

-- Only the laws above are used of the spelling from here on.
attribute [irreducible] format

end Rfc3339

end Nekiro
