import Nekiro.Base64
import Nekiro.JsonDecode
import Nekiro.Keyset
import Nekiro.WorkspaceLifecycle

/-!
# Listing installations

`Service.ListInstallations`: one page of the installations of a workspace
in the order of `(installed_at, installation_id)`, and a cursor that names
the last row shown. The query is keyset pagination (`Keyset`), the cursor a
JSON object in base64, and a client that follows the cursors while others
write (`follow`) walks over one table for each page.

`EncodeInstallationCursor` has no name for every position: it refuses the
zero time, and `json.Marshal` a year of more than four digits. Both can be
stored, so a page that ends at such a row fails.
-/

namespace Nekiro

open Guard WorkspaceTables

/-! ## Cursors -/

/-- `workspace.ValidIdentifier`. -/
def workspaceIdentifier (value : String) : Prop := safeIdentifierPattern.matchText value = true

instance (value : String) : Decidable (workspaceIdentifier value) :=
  inferInstanceAs (Decidable (_ = true))

structure InstallationPosition where
  installedAt : Time
  installationID : String
deriving Repr, DecidableEq

/-- `installationCursor`, the payload of a cursor. -/
structure InstallationCursor where
  version : Int
  workspaceID : String
  limit : Int
  installedAt : Time
  installationID : String
deriving Repr, DecidableEq

namespace InstallationCursor

def zero : InstallationCursor := ⟨0, "", 0, 0, ""⟩

def installationCursorVersion : Int := 1

def fields : List (Json.Field InstallationCursor) :=
  [.of "version" version (fun c v => { c with version := v }) Json.decodeInt64,
    .of "workspaceId" workspaceID (fun c v => { c with workspaceID := v }) Json.decodeString,
    .of "limit" limit (fun c v => { c with limit := v }) Json.decodeInt64,
    .of "installedAt" installedAt (fun c v => { c with installedAt := v }) Json.decodeTime,
    .of "installationId" installationID (fun c v => { c with installationID := v })
      Json.decodeString]

/-- The value that `json.Marshal` writes. -/
def value (c : InstallationCursor) : Option Json.Value :=
  (Json.ofTime c.installedAt).map fun installedAt => Json.objectOf
    [("version", Json.ofInt c.version), ("workspaceId", Json.ofString c.workspaceID),
      ("limit", Json.ofInt c.limit), ("installedAt", installedAt),
      ("installationId", Json.ofString c.installationID)]

/-- `EncodeInstallationCursor`. Its caller replaces whatever error. -/
def encode (workspaceID : String) (limit : Int) (position : InstallationPosition) :
    Option String :=
  if workspaceIdentifier workspaceID ∧ 1 ≤ limit ∧ limit ≤ 100
      ∧ workspaceIdentifier position.installationID ∧ position.installedAt.isZero = false then
    (value ⟨installationCursorVersion, workspaceID, limit, position.installedAt,
      position.installationID⟩).map fun payload => Base64.encode payload.text
  else none

/-- The object that both passes over the data read: distinct names, no
unknown ones, nothing behind it. -/
def parse (data : Json.Bytes) : Option InstallationCursor := do
  let v ← Json.read Json.maxNestingDepth data
  let names ← Json.memberNames v
  if names.Nodup then Json.decodeStruct true fields v zero else none

/-- `DecodeInstallationCursor`. -/
def decode (text workspaceID : String) (limit : Int) :
    Except WorkspaceError InstallationPosition := do
  require (text ≠ "" ∧ workspaceIdentifier workspaceID ∧ 1 ≤ limit ∧ limit ≤ 100) .invalid
  match Base64.decode text >>= parse with
  | none => throw .invalid
  | some c => do
      require (c.version = installationCursorVersion ∧ c.workspaceID = workspaceID
        ∧ c.limit = limit ∧ workspaceIdentifier c.installationID
        ∧ c.installedAt.isZero = false) .invalid
      pure ⟨c.installedAt, c.installationID⟩

/-! ### Round trip -/

/-- The times that a cursor can name. -/
def nameable (t : Time) : Prop := t ≠ 0 ∧ 0 ≤ t.utcYear ∧ t.utcYear ≤ 9999

instance (t : Time) : Decidable (nameable t) := inferInstanceAs (Decidable (_ ∧ _ ∧ _))

variable {c : InstallationCursor} {v : Json.Value}

theorem wellFormed_value (h : c.value = some v) : v.WellFormed 1 := by
  obtain ⟨installedAt, htime, rfl⟩ := Option.map_eq_some_iff.mp h
  obtain ⟨-, rfl⟩ := Json.ofTime_eq_some_iff.mp htime
  refine Json.wellFormed_objectOf fun m hm => ?_
  simp only [List.mem_cons, List.not_mem_nil, or_false] at hm
  rcases hm with rfl | rfl | rfl | rfl | rfl
  · exact Json.wellFormed_ofInt 0 _
  · exact Json.wellFormed_ofString 0 _
  · exact Json.wellFormed_ofInt 0 _
  · exact Json.wellFormed_ofString 0 _
  · exact Json.wellFormed_ofString 0 _

theorem decodeStruct_value (h : c.value = some v) (hversion : Json.int64 c.version = some c.version)
    (hlimit : Json.int64 c.limit = some c.limit) :
    Json.decodeStruct true fields v zero = some c := by
  obtain ⟨installedAt, htime, rfl⟩ := Option.map_eq_some_iff.mp h
  simp only [Json.decodeStruct_objectOf, List.foldlM_cons, List.foldlM_nil]
  simp [Json.decodeMember, Json.findField, fields, Json.Field.of, Json.decodeInt64_ofInt hversion,
    Json.decodeInt64_ofInt hlimit, Json.decodeString_ofString, Json.decodeTime_ofTime htime]

theorem parse_value (h : c.value = some v) (hversion : Json.int64 c.version = some c.version)
    (hlimit : Json.int64 c.limit = some c.limit) : parse v.text = some c := by
  have hwell := (wellFormed_value h).mono (by decide : 1 ≤ Json.maxNestingDepth)
  have hread : Json.read Json.maxNestingDepth v.text = some v := by
    have hread := @Json.read_text _ _ hwell [] (by simp)
    rwa [List.append_nil] at hread
  have hnames : Json.memberNames v =
      some ["version", "workspaceId", "limit", "installedAt", "installationId"] := by
    obtain ⟨installedAt, -, rfl⟩ := Option.map_eq_some_iff.mp h
    rw [Json.memberNames_objectOf]
    rfl
  simp only [parse, hread, hnames, Option.bind_eq_bind, Option.bind_some,
    decodeStruct_value h hversion hlimit]
  exact if_pos (by decide)

theorem text_ne_nil (h : c.value = some v) : v.text ≠ [] := by
  obtain ⟨installedAt, -, rfl⟩ := Option.map_eq_some_iff.mp h
  simp [Json.objectOf, Json.Value.text, Json.Value.tokens, Json.Token.source]

theorem encode_ne_empty {bytes : List UInt8} (h : bytes ≠ []) : Base64.encode bytes ≠ "" := by
  intro hempty
  have hdecode := Base64.decode_encode bytes
  rw [hempty] at hdecode
  exact h (Option.some.inj hdecode.symm)

/-- `DecodeInstallationCursor` accepts what `EncodeInstallationCursor`
makes, for the same workspace and limit. -/
theorem decode_encode {workspaceID text : String} {limit : Int} {position : InstallationPosition}
    (h : encode workspaceID limit position = some text) :
    decode text workspaceID limit = .ok position := by
  rw [encode, Option.ite_none_right_eq_some, Option.map_eq_some_iff] at h
  obtain ⟨⟨hworkspace, hlow, hhigh, hid, htime⟩, v, hv, rfl⟩ := h
  have hversion : Json.int64 installationCursorVersion = some installationCursorVersion := rfl
  have hint : Json.int64 limit = some limit := if_pos ⟨by omega, by omega⟩
  have hparse := parse_value hv hversion hint
  have hguard : Base64.encode v.text ≠ "" ∧ workspaceIdentifier workspaceID ∧ 1 ≤ limit
      ∧ limit ≤ 100 :=
    ⟨encode_ne_empty (text_ne_nil hv), hworkspace, hlow, hhigh⟩
  rw [decode, require_ok_iff.mpr hguard, ok_bind, Base64.decode_encode, Option.bind_eq_bind,
    Option.bind_some, hparse]
  exact (congrArg (· >>= _) (require_ok_iff.mpr ⟨rfl, rfl, rfl, hid, htime⟩)).trans rfl

theorem encode_isSome_iff {workspaceID : String} {limit : Int} {position : InstallationPosition}
    (hworkspace : workspaceIdentifier workspaceID) (hlow : 1 ≤ limit) (hhigh : limit ≤ 100)
    (hid : workspaceIdentifier position.installationID) :
    (encode workspaceID limit position).isSome = true ↔ nameable position.installedAt := by
  simp only [encode, value, Json.ofTime, Time.isZero, nameable, hworkspace, hlow, hhigh, hid,
    true_and]
  split_ifs with hzero hyear <;> simp_all

end InstallationCursor

/-! ## The page -/

/-- `OwnerPolicy.Authorize`. -/
def authorizeOwner (ownerID callerID : String) : Except WorkspaceError Unit :=
  require (ownerID ≠ "" ∧ callerID ≠ "" ∧ ownerID = callerID) .forbidden

structure InstallationList where
  items : List Installation
  nextCursor : Option String
deriving Repr, DecidableEq

namespace Workspaces

/-- `ORDER BY installed_at ASC, installation_id ASC`, both in the order
of their bytes. -/
def listKey (r : InstallationRow) : Time ×ₗ String := toLex (r.installedAt, r.installationID)

def installationsOf (s : Workspaces) (workspaceID : String) : List InstallationRow :=
  s.installations.filter fun r => r.workspaceID = workspaceID

/-- `Store.ListInstallations`. The driver cuts the time of the position
to microseconds. -/
def listPage (s : Workspaces) (workspaceID : String) (limit : Nat)
    (after : Option InstallationPosition) : Keyset.Page InstallationRow :=
  Keyset.page listKey (s.installationsOf workspaceID)
    (after.map fun p => toLex (p.installedAt.truncateMicro, p.installationID)) limit

/-- `Service.ListInstallations`. -/
def listInstallations (s : Workspaces) (callerID workspaceID : String) (limit : Int)
    (cursor : Option String) : Except WorkspaceError InstallationList := do
  require (workspaceIdentifier workspaceID ∧ workspaceIdentifier callerID
    ∧ 1 ≤ limit ∧ limit ≤ 100) .invalid
  let after ← match cursor with
    | none => pure none
    | some text => some <$> InstallationCursor.decode text workspaceID limit
  let w ← s.getWorkspace workspaceID
  authorizeOwner w.ownerID callerID
  let page := s.listPage workspaceID limit.toNat after
  let items := page.items.map InstallationRow.scan
  match page.hasMore, page.items.getLast? with
  | true, some last =>
      match InstallationCursor.encode workspaceID limit ⟨last.installedAt, last.installationID⟩ with
      | none => throw (.dependency "encode installation cursor")
      | some text => pure ⟨items, some text⟩
  | _, _ => pure ⟨items, none⟩

/-! ## Following the cursors -/

/-- What a client has got: the pages, and whether they end the list, or
the error that stopped it. -/
structure Listing where
  pages : List (List Installation)
  outcome : Except WorkspaceError Bool

/-- Read a page, let others write, read the next one. `writes` are the
calls committed between two reads; the client stops when it is used up. -/
def follow (callerID workspaceID : String) (limit : Int) (s : Workspaces)
    (cursor : Option String) (writes : List (List Call)) : Listing :=
  match s.listInstallations callerID workspaceID limit cursor with
  | .error e => ⟨[], .error e⟩
  | .ok page =>
      match page.nextCursor, writes with
      | none, _ => ⟨[page.items], .ok true⟩
      | some _, [] => ⟨[page.items], .ok false⟩
      | some text, calls :: writes =>
          let rest := follow callerID workspaceID limit (s.run calls) (some text) writes
          ⟨page.items :: rest.pages, rest.outcome⟩

/-! ## Rows that a cursor can name -/

/-- The installation that the call adds, if any, can be named. -/
def Call.nameable : Call → Prop
  | .createInstallation _ value => InstallationCursor.nameable value.installedAt.truncateMicro
  | .createWorkspace _ | .changeInstallationStatus _ _ _ _ | .uninstallInstallation _ _ _ => True

instance : (call : Call) → Decidable call.nameable
  | .createInstallation _ value =>
      inferInstanceAs (Decidable (InstallationCursor.nameable value.installedAt.truncateMicro))
  | .createWorkspace _ => .isTrue trivial
  | .changeInstallationStatus _ _ _ _ => .isTrue trivial
  | .uninstallInstallation _ _ _ => .isTrue trivial

/-- Every stored position is one that the cursor carries unchanged. -/
structure Listable (s : Workspaces) : Prop where
  tables : s.Tables
  micros : ∀ r ∈ s.installations, r.installedAt.truncateMicro = r.installedAt
  nameable : ∀ r ∈ s.installations, InstallationCursor.nameable r.installedAt

theorem listable_empty : Listable empty where
  tables := tables_empty
  micros := by simp [empty]
  nameable := by simp [empty]

theorem truncateMicro_idem (t : Time) : t.truncateMicro.truncateMicro = t.truncateMicro := by
  have hInt : ∀ n : Int, n - n % 1000 - (n - n % 1000) % 1000 = n - n % 1000 := by
    intro n
    omega
  exact hInt t

theorem insertedRow_installedAt {value : Installation} {row : InstallationRow}
    (h : insertedRow value = some row) : row.installedAt = value.installedAt.truncateMicro := by
  obtain ⟨status, -, rfl⟩ := Option.map_eq_some_iff.mp h
  rfl

variable {s : Workspaces} {workspaceID : String} {r : InstallationRow}

theorem Changed.listable {s' : Workspaces} {call : Call} (h : Changed s call s') (hs : s.Listable)
    (hcall : call.nameable) : s'.Listable := by
  have ht := h.tables hs.tables
  cases h with
  | workspace => exact ⟨ht, hs.micros, hs.nameable⟩
  | installation hrow =>
      have hat := insertedRow_installedAt hrow
      refine ⟨ht, Table.forall_concat hs.micros ?_, Table.forall_concat hs.nameable ?_⟩
      · rw [hat, truncateMicro_idem]
      · rw [hat]
        exact hcall
  | status hbefore hmoves =>
      have hat := congrArg Pin.installedAt hmoves.pin
      refine ⟨ht, fun r hr => ?_, fun r hr => ?_⟩
      · rcases mem_moved hr with hr | rfl
        · exact hs.micros r hr
        · rw [hat]
          exact hs.micros _ hbefore
      · rcases mem_moved hr with hr | rfl
        · exact hs.nameable r hr
        · rw [hat]
          exact hs.nameable _ hbefore

theorem run_listable {calls : List Call} (hcalls : ∀ call ∈ calls, call.nameable)
    (hs : s.Listable) :
    (s.run calls).Listable := by
  induction calls generalizing s with
  | nil => exact hs
  | cons call calls ih =>
      obtain ⟨hcall, hcalls⟩ := List.forall_mem_cons.mp hcalls
      refine ih hcalls ?_
      rcases Transact.commit_cases step s call with h | h
      · rw [h]
        exact hs
      · exact (step_changed hs.tables h).listable hs hcall

/-! ## The walk -/

/-- The tables that the pages are read from. -/
def reads (workspaceID : String) (s : Workspaces) : List (List Call) → List (List InstallationRow)
  | [] => [s.installationsOf workspaceID]
  | calls :: writes => s.installationsOf workspaceID :: reads workspaceID (s.run calls) writes

theorem run_run (s : Workspaces) (calls more : List Call) :
    (s.run calls).run more = s.run (calls ++ more) :=
  (Transact.run_append step s calls more).symm

theorem length_reads (workspaceID : String) (s : Workspaces) (writes : List (List Call)) :
    (reads workspaceID s writes).length = writes.length + 1 := by
  induction writes generalizing s with
  | nil => rfl
  | cons calls writes ih => rw [reads, List.length_cons, ih, List.length_cons]

/-- A table that is read is that of a state on the way. -/
theorem mem_reads {writes : List (List Call)} {rows : List InstallationRow}
    (h : rows ∈ reads workspaceID s writes) :
    ∃ before after, writes.flatten = before ++ after
      ∧ rows = (s.run before).installationsOf workspaceID := by
  induction writes generalizing s with
  | nil =>
      rw [reads, List.mem_singleton] at h
      exact ⟨[], [], rfl, h⟩
  | cons calls writes ih =>
      rcases List.mem_cons.mp h with h | h
      · exact ⟨[], _, rfl, h⟩
      · obtain ⟨before, after, hwrites, hrows⟩ := ih h
        refine ⟨calls ++ before, after, ?_, ?_⟩
        · rw [List.flatten_cons, hwrites, List.append_assoc]
        · rw [hrows, run_run]

theorem listKey_nodup (ht : s.Tables) (workspaceID : String) :
    ((s.installationsOf workspaceID).map listKey).Nodup := by
  have hids : (((s.installationsOf workspaceID).map listKey).map fun k => (ofLex k).2).Nodup := by
    rw [List.map_map]
    exact ht.installationIDs.sublist (List.filter_sublist.map _)
  exact hids.of_map

theorem mem_installationsOf :
    r ∈ s.installationsOf workspaceID ↔ r ∈ s.installations ∧ r.workspaceID = workspaceID := by
  rw [installationsOf, List.mem_filter, decide_eq_true_iff]

/-- What is listed in one state is listed, under the same key, in every
later one. -/
theorem installationsOf_run (ht : s.Tables) (calls : List Call)
    (hr : r ∈ s.installationsOf workspaceID) :
    ∃ r' ∈ (s.run calls).installationsOf workspaceID, r'.toPin = r.toPin := by
  obtain ⟨hmem, hworkspace⟩ := mem_installationsOf.mp hr
  obtain ⟨r', hr', hpin, -⟩ := run_persists ht calls hmem
  exact ⟨r', mem_installationsOf.mpr ⟨hr', (congrArg Pin.workspaceID hpin).trans hworkspace⟩, hpin⟩

theorem listKey_of_pin {r' : InstallationRow} (h : r'.toPin = r.toPin) :
    listKey r' = listKey r := by
  have hat := congrArg Pin.installedAt h
  have hid := congrArg Pin.installationID h
  rw [listKey, listKey, hat, hid]

/-! ### The service on such a state -/

section Pages

variable {s : Workspaces} {w : Workspace} {limit : Int} {cursor : Option String}
  {after : Option InstallationPosition}

/-- The position that the cursor names, or the start of the list. -/
inductive Names (workspaceID : String) (limit : Int) :
    Option String → Option InstallationPosition → Prop
  | start : Names workspaceID limit none none
  | position {text : String} {p : InstallationPosition}
      (h : InstallationCursor.decode text workspaceID limit = .ok p) :
      Names workspaceID limit (some text) (some p)

theorem workspaceIdentifier_of_checks (h : WorkspaceChecks w) :
    workspaceIdentifier w.workspaceID ∧ workspaceIdentifier w.ownerID ∧ w.ownerID ≠ "" :=
  ⟨h.workspaceID, h.ownerID, safeIdentifier_ne_empty (safeIdentifier_iff.mpr h.ownerID)⟩

/-- The guards of the service let the owner through. -/
theorem listInstallations_eq (ht : s.Tables) (hw : w ∈ s.workspaces) (hlow : 1 ≤ limit)
    (hhigh : limit ≤ 100) (hnames : Names w.workspaceID limit cursor after) :
    s.listInstallations w.ownerID w.workspaceID limit cursor =
      (let page := s.listPage w.workspaceID limit.toNat after
      match page.hasMore, page.items.getLast? with
      | true, some last =>
          match InstallationCursor.encode w.workspaceID limit
              ⟨last.installedAt, last.installationID⟩ with
          | none => .error (.dependency "encode installation cursor")
          | some text => .ok ⟨page.items.map InstallationRow.scan, some text⟩
      | _, _ => .ok ⟨page.items.map InstallationRow.scan, none⟩) := by
  obtain ⟨hworkspace, howner, hne⟩ := workspaceIdentifier_of_checks (ht.workspaceChecks w hw)
  have hguard : workspaceIdentifier w.workspaceID ∧ workspaceIdentifier w.ownerID
      ∧ 1 ≤ limit ∧ limit ≤ 100 := ⟨hworkspace, howner, hlow, hhigh⟩
  have hauth : authorizeOwner w.ownerID w.ownerID = .ok () :=
    require_ok_iff.mpr ⟨hne, hne, rfl⟩
  rw [listInstallations, require_ok_iff.mpr hguard, ok_bind]
  cases hnames with
  | start =>
      simp only [pure_bind, ht.getWorkspace_eq hw, ok_bind, hauth]
      rfl
  | position h =>
      simp only [h, Functor.map, Except.map, ht.getWorkspace_eq hw, ok_bind, hauth]
      rfl

/-- The page that a read gives, and what its cursor says. -/
theorem listInstallations_ok (hs : s.Listable) (hw : w ∈ s.workspaces) (hlow : 1 ≤ limit)
    (hhigh : limit ≤ 100) (hnames : Names w.workspaceID limit cursor after) :
    let page := s.listPage w.workspaceID limit.toNat after
    (page.hasMore = false ∧ s.listInstallations w.ownerID w.workspaceID limit cursor =
        .ok ⟨page.items.map InstallationRow.scan, none⟩) ∨
      ∃ last text, page.hasMore = true ∧ page.items.getLast? = some last
        ∧ last ∈ s.installations
        ∧ Names w.workspaceID limit (some text) (some ⟨last.installedAt, last.installationID⟩)
        ∧ s.listInstallations w.ownerID w.workspaceID limit cursor =
          .ok ⟨page.items.map InstallationRow.scan, some text⟩ := by
  intro page
  have heq := listInstallations_eq hs.tables hw hlow hhigh hnames
  cases hmore : page.hasMore with
  | false =>
      refine .inl ⟨rfl, heq.trans ?_⟩
      simp only [page] at hmore ⊢
      rw [hmore]
  | true =>
      cases hlast : page.items.getLast? with
      | none =>
          -- the page shows at least one row, since the limit is positive
          rw [List.getLast?_eq_none_iff] at hlast
          have hlen := Keyset.page_hasMore.mp hmore
          have hitems := congrArg List.length (Keyset.page_items.symm.trans hlast)
          rw [List.length_take, List.length_nil] at hitems
          omega
      | some last =>
          have hmem := (mem_installationsOf.mp (Keyset.mem_page (List.mem_of_getLast? hlast)).1).1
          have hid : workspaceIdentifier last.installationID :=
            (hs.tables.checks last hmem).pin.installationID
          have hsome := (@InstallationCursor.encode_isSome_iff _ _
            ⟨last.installedAt, last.installationID⟩
            (hs.tables.workspaceChecks w hw).workspaceID hlow hhigh hid).mpr
            (hs.nameable last hmem)
          obtain ⟨text, htext⟩ := Option.isSome_iff_exists.mp hsome
          refine .inr ⟨last, text, rfl, rfl, hmem,
            .position (InstallationCursor.decode_encode htext), heq.trans ?_⟩
          simp only [page] at hmore hlast ⊢
          rw [hmore, hlast]
          simp only [htext]

/-- The position of the query, as a key. -/
def positionKey (p : InstallationPosition) : Time ×ₗ String :=
  toLex (p.installedAt.truncateMicro, p.installationID)

theorem follow_walk {writes : List (List Call)}
    (hwrites : ∀ calls ∈ writes, ∀ c ∈ calls, c.nameable)
    (hs : s.Listable) (hw : w ∈ s.workspaces) (hlow : 1 ≤ limit) (hhigh : limit ≤ 100)
    (hnames : Names w.workspaceID limit cursor after) :
    ∃ pages done, Keyset.Walk listKey limit.toNat (after.map positionKey)
        (reads w.workspaceID s writes) pages done
      ∧ follow w.ownerID w.workspaceID limit s cursor writes =
        ⟨pages.map (List.map InstallationRow.scan), .ok done⟩ := by
  induction writes generalizing s cursor after with
  | nil =>
      rcases listInstallations_ok hs hw hlow hhigh hnames with
        ⟨hmore, hpage⟩ | ⟨last, text, hmore, hlast, -, -, hpage⟩
      · exact ⟨_, true, .last [] hmore, by rw [follow, hpage]; rfl⟩
      · exact ⟨_, false, .next hmore hlast (.stop _), by rw [follow, hpage]; rfl⟩
  | cons calls writes ih =>
      obtain ⟨hcalls, hwrites⟩ := List.forall_mem_cons.mp hwrites
      rcases listInstallations_ok hs hw hlow hhigh hnames with
        ⟨hmore, hpage⟩ | ⟨last, text, hmore, hlast, hmem, hnext, hpage⟩
      · exact ⟨_, true, .last _ hmore, by rw [follow, hpage]; rfl⟩
      · obtain ⟨pages, done, hwalk, hfollow⟩ := ih hwrites (run_listable hcalls hs)
          (run_workspaces hs.tables calls hw) hnext
        have hkey : positionKey ⟨last.installedAt, last.installationID⟩ = listKey last := by
          rw [positionKey, hs.micros last hmem, listKey]
        rw [Option.map_some, hkey] at hwalk
        refine ⟨_, done, .next hmore hlast hwalk, ?_⟩
        rw [follow, hpage]
        simp only [hfollow, List.map_cons]
        rfl

end Pages

/-! ## What the client gets -/

/-- The property of a client that follows the cursors from the first page
on, read in the state `s`. -/
structure Listing.Complete (listing : Listing) (s : Workspaces) (workspaceID : String) : Prop where
  /-- No read fails. -/
  outcome : ∃ done, listing.outcome = .ok done
  sorted : listing.pages.flatten.Pairwise fun i j =>
    toLex (i.installedAt, i.installationID) < toLex (j.installedAt, j.installationID)
  distinct : (listing.pages.flatten.map Installation.installationID).Nodup
  /-- What was there at the first page has been returned by the last. -/
  complete : listing.outcome = .ok true → ∀ r ∈ s.installations, r.workspaceID = workspaceID →
    (listing.pages.flatten.map Installation.installationID).count r.installationID = 1

section Complete

variable {s : Workspaces} {w : Workspace} {limit : Int} {writes : List (List Call)}

theorem nodup_of_mem_reads (ht : s.Tables) {workspaceID : String} :
    ∀ rows ∈ reads workspaceID s writes, (rows.map listKey).Nodup := by
  intro rows hrows
  obtain ⟨before, -, -, rfl⟩ := mem_reads hrows
  exact listKey_nodup (run_tables ht before) workspaceID

/-- The last state has the pin of every row that was read. -/
theorem exists_pin_of_mem_reads (ht : s.Tables) {workspaceID : String}
    {rows : List InstallationRow} (hrows : rows ∈ reads workspaceID s writes)
    {r : InstallationRow} (hr : r ∈ rows) :
    ∃ r' ∈ (s.run writes.flatten).installationsOf workspaceID, r'.toPin = r.toPin := by
  obtain ⟨before, after, hwrites, rfl⟩ := mem_reads hrows
  rw [hwrites, ← run_run]
  exact installationsOf_run (run_tables ht before) after hr

/-- A listed key determines the installation. -/
theorem installationID_nodup_of_sorted (ht : s.Tables) {workspaceID : String}
    {rows : List InstallationRow}
    (hread : ∀ r ∈ rows, ∃ table ∈ reads workspaceID s writes, r ∈ table)
    (hsorted : rows.Pairwise fun r r' => listKey r < listKey r') :
    (rows.map fun r => r.installationID).Nodup := by
  rw [List.nodup_iff_pairwise_ne, List.pairwise_map]
  refine hsorted.imp_of_mem fun {r r'} hr hr' hlt hid => hlt.ne ?_
  obtain ⟨table, htable, hr⟩ := hread r hr
  obtain ⟨table', htable', hr'⟩ := hread r' hr'
  obtain ⟨q, hq, hpin⟩ := exists_pin_of_mem_reads ht htable hr
  obtain ⟨q', hq', hpin'⟩ := exists_pin_of_mem_reads ht htable' hr'
  have hqid : q.installationID = q'.installationID :=
    (congrArg Pin.installationID hpin).trans (hid.trans (congrArg Pin.installationID hpin').symm)
  obtain rfl := (run_tables ht writes.flatten).eq_of_installationID
    (mem_installationsOf.mp hq).1 (mem_installationsOf.mp hq').1 hqid
  exact listKey_of_pin (hpin.symm.trans hpin')

theorem follow_complete (hwrites : ∀ calls ∈ writes, ∀ c ∈ calls, c.nameable) (hs : s.Listable)
    (hw : w ∈ s.workspaces) (hlow : 1 ≤ limit) (hhigh : limit ≤ 100) :
    (follow w.ownerID w.workspaceID limit s none writes).Complete s w.workspaceID := by
  obtain ⟨pages, done, hwalk, hfollow⟩ := follow_walk hwrites hs hw hlow hhigh .start
  have hnodup := @nodup_of_mem_reads s writes hs.tables w.workspaceID
  have hsorted := (hwalk.sorted hnodup).1
  have hflat : (pages.map (List.map InstallationRow.scan)).flatten =
      pages.flatten.map InstallationRow.scan := List.map_flatten.symm
  have hids : pages.flatten.map (Installation.installationID ∘ InstallationRow.scan) =
      pages.flatten.map fun r => r.installationID := rfl
  have hdistinct := installationID_nodup_of_sorted hs.tables (fun r hr => hwalk.mem hr) hsorted
  rw [hfollow]
  refine ⟨⟨done, rfl⟩, ?_, ?_, ?_⟩
  · rw [hflat, List.pairwise_map]
    exact hsorted
  · rw [hflat, List.map_map, hids]
    exact hdistinct
  · rintro hdone r hr hworkspace
    have hkey := hwalk.complete (Except.ok.inj hdone) hnodup
      (fun rows hrows => ?_) (Keyset.beyond_none (listKey r))
    · obtain ⟨q, hq, hqkey⟩ := List.mem_map.mp hkey
      have hqid : q.installationID = r.installationID := congrArg (fun k => (ofLex k).2) hqkey
      rw [hflat, List.map_map, hids]
      exact List.count_eq_one_of_mem hdistinct (List.mem_map.mpr ⟨q, hq, hqid⟩)
    · obtain ⟨before, -, -, rfl⟩ := mem_reads hrows
      obtain ⟨r', hr', hpin⟩ := installationsOf_run hs.tables before
        (mem_installationsOf.mpr ⟨hr, hworkspace⟩)
      exact List.mem_map.mpr ⟨r', hr', listKey_of_pin hpin⟩

/-- More reads than there are installations in the end come to the end. -/
theorem follow_ends (hwrites : ∀ calls ∈ writes, ∀ c ∈ calls, c.nameable) (hs : s.Listable)
    (hw : w ∈ s.workspaces) (hlow : 1 ≤ limit) (hhigh : limit ≤ 100)
    (hlen : (s.run writes.flatten).installations.length < writes.length) :
    (follow w.ownerID w.workspaceID limit s none writes).outcome = .ok true := by
  obtain ⟨pages, done, hwalk, hfollow⟩ := follow_walk hwrites hs hw hlow hhigh .start
  rw [hfollow]
  cases hdone : done with
  | true => rfl
  | false =>
      let base := ((s.run writes.flatten).installationsOf w.workspaceID).map listKey
      have hbase : ∀ rows ∈ reads w.workspaceID s writes, rows.map listKey ⊆ base := by
        intro rows hrows k hk
        obtain ⟨r, hr, rfl⟩ := List.mem_map.mp hk
        obtain ⟨r', hr', hpin⟩ := exists_pin_of_mem_reads hs.tables hrows hr
        exact List.mem_map.mpr ⟨r', hr', listKey_of_pin hpin⟩
      have hpages := hwalk.length_le (nodup_of_mem_reads hs.tables) hbase
      have hreads := hwalk.length_eq hdone
      have hle : base.length ≤ (s.run writes.flatten).installations.length := by
        rw [List.length_map]
        exact List.length_filter_le _ _
      rw [length_reads] at hreads
      omega

end Complete

/-- **Installations over every run of the store.** At most one
installation of an agent in a workspace is not uninstalled; a call leaves
a row as it was or moves it to its next status, later than before; the pin
never changes, and nothing of an uninstalled row does, whose end is its
last update. If every installation that was added can be named by a cursor,
then a client that follows the cursors gets all of them, in order and once,
whatever is written between its reads. -/
theorem installations_over_runs (calls : List Call) :
    let s := empty.run calls
    (∀ workspaceID agentID, (s.installations.filter fun r => r.workspaceID = workspaceID
        ∧ r.agentID = agentID ∧ r.status ≠ .uninstalled).length ≤ 1)
      ∧ (s.installations.map fun r => r.installationID).Nodup
      ∧ (∀ r ∈ s.installations,
        (∀ call, ∃ r' ∈ (s.run [call]).installations, r' = r ∨ Moves r r')
          ∧ (∀ more, ∃ r' ∈ (s.run more).installations, r'.toPin = r.toPin
            ∧ (r.status = .uninstalled → r' = r))
          ∧ (r.status = .uninstalled → r.uninstalledAt = some r.updatedAt))
      ∧ ((∀ call ∈ calls, call.nameable) → ∀ w ∈ s.workspaces, ∀ limit : Int, 1 ≤ limit →
        limit ≤ 100 → ∀ writes : List (List Call), (∀ more ∈ writes, ∀ c ∈ more, c.nameable) →
          let listing := follow w.ownerID w.workspaceID limit s none writes
          listing.Complete s w.workspaceID
            ∧ ((s.run writes.flatten).installations.length < writes.length →
              listing.outcome = .ok true)) := by
  intro s
  have ht : s.Tables := run_tables tables_empty calls
  refine ⟨ht.current_le_one, ht.installationIDs, fun r hr => ⟨?_, ?_, fun hstatus => ?_⟩, ?_⟩
  · exact fun call => commit_evolves ht call hr
  · exact fun more => run_persists ht more hr
  · rcases (ht.checks r hr).stateTimestamps with ⟨hs | hs, -⟩ | ⟨-, h⟩
    · exact absurd (hs.symm.trans hstatus) (by decide)
    · exact absurd (hs.symm.trans hstatus) (by decide)
    · exact h
  · intro hcalls w hw limit hlow hhigh writes hwrites
    have hs : s.Listable := run_listable hcalls listable_empty
    exact ⟨follow_complete hwrites hs hw hlow hhigh, follow_ends hwrites hs hw hlow hhigh⟩

/-- A workspace with two installations, both made at `t`. -/
def twoInstallations (t : Time) : List Call :=
  let installation := fun installationID agentID : String => Call.createInstallation "owner"
    ⟨installationID, "workspace", agentID, "*", "1.0.0", "", [], "enabled", t, t, none⟩
  [.createWorkspace ⟨"workspace", "owner", t, t⟩, installation "i1" "a1", installation "i2" "a2"]

/-- The first page of one is full and there is a second, but no cursor can
name a row that was installed at the zero time. -/
theorem listing_stops_at_zero_time :
    let s := empty.run (twoInstallations 0)
    let listing := follow "owner" "workspace" 1 s none [[]]
    s.installations.length = 2
      ∧ listing.outcome = .error (.dependency "encode installation cursor")
      ∧ ¬listing.Complete s "workspace" := by
  intro s listing
  have houtcome : listing.outcome = .error (.dependency "encode installation cursor") := by
    rfl
  refine ⟨by decide +kernel, houtcome, fun h => ?_⟩
  obtain ⟨done, hdone⟩ := h.outcome
  exact absurd (houtcome.symm.trans hdone) (by simp)

theorem installations_over_runs_two :
    let s := empty.run (twoInstallations Time.second)
    let listing := follow "owner" "workspace" 1 s none [[], [], []]
    listing.outcome = .ok true
      ∧ (listing.pages.flatten.map Installation.installationID).count "i2" = 1 := by
  intro s listing
  obtain ⟨-, -, -, hlist⟩ := installations_over_runs (twoInstallations Time.second)
  obtain ⟨hcomplete, hends⟩ := hlist (by decide +kernel)
    ⟨"workspace", "owner", Time.second, Time.second⟩ (by decide +kernel) 1 (by decide) (by decide)
    [[], [], []] (by decide)
  have houtcome := hends (by decide +kernel)
  refine ⟨houtcome, ?_⟩
  have hrow : ∃ r ∈ s.installations, r.workspaceID = "workspace" ∧ r.installationID = "i2" := by
    decide +kernel
  obtain ⟨r, hr, hworkspace, hid⟩ := hrow
  rw [← hid]
  exact hcomplete.complete houtcome r hr hworkspace

end Workspaces

end Nekiro
