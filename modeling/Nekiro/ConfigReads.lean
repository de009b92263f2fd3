import Mathlib.Data.Int.Basic
import Nekiro.ConfigKey

/-!
# Bounded reads of configuration

How the two readers get the state of a key from its source, with the limit
on its size in a machine integer. The file reader reads up to the limit and
then looks for one byte more (`readBounded`); the Nacos reader reads up to
one byte more than the limit, and that sum wraps around at the largest one
(`limitReader_maxValue`). So the first is exact for every limit, the second
for all but that one (`bounded_reads`).

What the operating system and the server answer is data: a read may fail in
any way. The branch that only Windows takes is left out.
-/

namespace Nekiro

open Json (Bytes utf8)
open Guard

namespace ConfigCenter

/-! ## States and snapshots -/

/-- The state of a key: its content, or none if it is missing. -/
abbrev SourceState : Type := Option Bytes

/-- A revision in the scope of one observation, or in none. -/
structure Revision where
  scope : Option Nat
  order : UInt64
deriving Repr, DecidableEq

def unscopedRevision : Revision := ⟨none, 0⟩

structure Snapshot where
  key : Key
  state : SourceState
  revision : Revision
deriving Repr, DecidableEq

def snapshotForState (k : Key) (state : SourceState) (revision : Revision) :
    Except ConfigError Snapshot := do
  require (k.valid = true) (configError .invalid k.value .get)
  pure ⟨k, state, revision⟩

/-- `io.ReadAll(io.LimitReader(r, limit))` of a reader with this content;
nothing is read if the limit is not positive. -/
def limitReader (content : Bytes) (limit : Int64) : Bytes := content.take limit.toInt.toNat

/-- `int64(len(content))`. -/
def int64Length (content : Bytes) : Int64 := Int64.ofNat content.length

/-- What a reader itself reports. -/
inductive Lifecycle where
  | live
  | closed
  | interrupted
deriving Repr, DecidableEq

def lifecycleError (k : Key) (operation : Operation) : Lifecycle → Except ConfigError Unit
  | .live => .ok ()
  | .closed => .error (configError .readerClosed k.value operation)
  | .interrupted => .error (configError .watchInterrupted k.value operation)

/-- Whether the context has ended. -/
def contextCheck (k : Key) (operation : Operation) (ended : Bool) : Except ConfigError Unit :=
  require (ended = false) (configError .canceled k.value operation)

/-- The end of `Get`. A missing key is an error, although with a
snapshot. -/
def finishGet (k : Key) (state : SourceState) : Except ConfigError Snapshot := do
  require (state ≠ none) (configError .missing k.value .get)
  snapshotForState k state unscopedRevision

/-! ## The file reader -/

/-- What the error of a file operation is. -/
inductive FsFailure where
  | notExist
  | permission
  | other
deriving Repr, DecidableEq

def mapLeafFilesystemError (k : Key) (operation : Operation) : FsFailure → ConfigError
  | .permission => configError .unauthorized k.value operation
  | .notExist | .other => configError .unavailable k.value operation

structure LeafInfo where
  regular : Bool
  size : Int64

/-- The answers of the file operations, in their order: the look at the
leaf, the opening, the content or why it cannot be read, the error of the
read after the last byte, and that of closing the file. -/
structure LeafAnswers where
  info : Except FsFailure LeafInfo
  opened : Except FsFailure Unit
  content : Except FsFailure Bytes
  probeError : Option FsFailure
  closeError : Option FsFailure

/-- The content and whether there is more of it. -/
def readBounded (answers : LeafAnswers) (maximum : Int64) : Except FsFailure (Bytes × Bool) := do
  let whole ← answers.content
  let content := limitReader whole maximum
  if int64Length content ≠ maximum then pure (content, false)
  else if content.length < whole.length then pure ([], true)
  else match answers.probeError with
    | some err => .error err
    | none => pure (content, false)

/-- `readStateLocked`. -/
def fileReadState (maxPayloadBytes : Int64) (k : Key) (operation : Operation)
    (answers : LeafAnswers) : Except ConfigError SourceState := do
  match mapKey k with
  | .error _ => .error (configError .invalid k.value operation)
  | .ok _ =>
      match answers.info with
      | .error .notExist => pure none
      | .error err => .error (mapLeafFilesystemError k operation err)
      | .ok info => do
          require (info.regular = true) (configError .unsafeState k.value operation)
          require (info.size ≤ maxPayloadBytes) (configError .payloadTooLarge k.value operation)
          match answers.opened with
          | .error .notExist => pure none
          | .error err => .error (mapLeafFilesystemError k operation err)
          | .ok () =>
              match readBounded answers maxPayloadBytes, answers.closeError with
              | .error err, _ => .error (mapLeafFilesystemError k operation err)
              | .ok _, some err => .error (mapLeafFilesystemError k operation err)
              | .ok (content, oversized), none => do
                  require (oversized = false) (configError .payloadTooLarge k.value operation)
                  pure (some content)

/-- `Get`; the context is looked at before and after the read. -/
def fileGet (maxPayloadBytes : Int64) (k : Key) (lifecycle : Lifecycle)
    (endedBefore endedAfter : Bool) (answers : LeafAnswers) : Except ConfigError Snapshot := do
  contextCheck k .get endedBefore
  require (k.valid = true) (configError .invalid k.value .get)
  lifecycleError k .get lifecycle
  let state ← fileReadState maxPayloadBytes k .get answers
  contextCheck k .get endedAfter
  finishGet k state

/-- The snapshot that `Observe` returns, in a new scope. -/
def fileObserve (maxPayloadBytes : Int64) (k : Key) (lifecycle : Lifecycle)
    (endedBefore endedAfter endedLast : Bool) (scope : Nat) (answers : LeafAnswers) :
    Except ConfigError Snapshot := do
  contextCheck k .observe endedBefore
  require (k.valid = true) (configError .invalid k.value .observe)
  lifecycleError k .observe lifecycle
  let state ← fileReadState maxPayloadBytes k .observe answers
  contextCheck k .observe endedAfter
  let initial ← snapshotForState k state ⟨some scope, 0⟩
  contextCheck k .observe endedLast
  pure initial

/-! ## The Nacos reader -/

/-- One exchange with the server: whether there is a response, its status
and the body or that it cannot be read, and what the context and the reader
report after the response and after the body. -/
structure Exchange where
  responded : Bool
  status : Int
  body : Option Bytes
  endedBefore : Bool
  lifecycleBefore : Lifecycle
  endedAfter : Bool
  lifecycleAfter : Lifecycle

/-- `readState`. -/
def nacosReadState (maxPayloadBytes : Int64) (k : Key) (operation : Operation)
    (exchange : Exchange) :
    Except ConfigError SourceState := do
  if exchange.responded = false then
    contextCheck k operation exchange.endedBefore
    .error (configError .unavailable k.value operation)
  else do
    contextCheck k operation exchange.endedBefore
    lifecycleError k operation exchange.lifecycleBefore
    if exchange.status = 404 then pure none
    else do
      require (exchange.status ≠ 401 ∧ exchange.status ≠ 403)
        (configError .unauthorized k.value operation)
      require (exchange.status = 200) (configError .unavailable k.value operation)
      match exchange.body with
      | none => .error (configError .unavailable k.value operation)
      | some body => do
          let content := limitReader body (maxPayloadBytes + 1)
          require (int64Length content ≤ maxPayloadBytes)
            (configError .payloadTooLarge k.value operation)
          contextCheck k operation exchange.endedAfter
          lifecycleError k operation exchange.lifecycleAfter
          pure (some content)

def nacosGet (maxPayloadBytes : Int64) (k : Key) (endedBefore : Bool) (lifecycle : Lifecycle)
    (exchange : Exchange) : Except ConfigError Snapshot := do
  require (k.valid = true) (configError .invalid k.value .get)
  contextCheck k .get endedBefore
  lifecycleError k .get lifecycle
  let state ← nacosReadState maxPayloadBytes k .get exchange
  finishGet k state

def nacosObserve (maxPayloadBytes : Int64) (k : Key) (endedBefore endedLast watchEnabled : Bool)
    (lifecycle lifecycleLast : Lifecycle) (scope : Nat) (exchange : Exchange) :
    Except ConfigError Snapshot := do
  require (k.valid = true) (configError .invalid k.value .observe)
  contextCheck k .observe endedBefore
  lifecycleError k .observe lifecycle
  require (watchEnabled = true) (configError .unsupported k.value .observe)
  let state ← nacosReadState maxPayloadBytes k .observe exchange
  let initial ← snapshotForState k state ⟨some scope, 0⟩
  lifecycleError k .observe lifecycleLast
  contextCheck k .observe endedLast
  pure initial

/-! ## Exactness -/

section Limits

variable {content : Bytes} {limit : Int64}

theorem toInt_int64Length (h : content.length < 2 ^ 63) :
    (int64Length content).toInt = content.length :=
  Int64.toInt_ofNat_of_lt h

theorem length_limitReader (content : Bytes) (limit : Int64) :
    (limitReader content limit).length = min limit.toInt.toNat content.length :=
  List.length_take

theorem toInt_length_limitReader (content : Bytes) (limit : Int64) :
    (int64Length (limitReader content limit)).toInt = min limit.toInt.toNat content.length := by
  have hlimit := limit.toInt_lt
  have hlength := length_limitReader content limit
  rw [toInt_int64Length (by omega), hlength]

theorem limitReader_of_le (h : (content.length : Int) ≤ limit.toInt) :
    limitReader content limit = content :=
  List.take_of_length_le (by omega)

theorem toInt_add_one (h : limit ≠ Int64.maxValue) : (limit + 1).toInt = limit.toInt + 1 := by
  have hne : limit.toInt ≠ Int64.maxValue.toInt := fun heq => h (Int64.toInt_inj.mp heq)
  have hlt := limit.toInt_lt
  have hle := limit.le_toInt
  have hmax : Int64.maxValue.toInt = 2 ^ 63 - 1 := rfl
  have hone : (1 : Int64).toInt = 1 := rfl
  rw [Int64.toInt_add, hone]
  exact Int.bmod_eq_of_le (by omega) (by omega)

end Limits

section FileReader

variable {limit : Int64} {answers : LeafAnswers} {whole : Bytes}

theorem readBounded_of_le (h : answers.content = .ok whole)
    (hle : (whole.length : Int) ≤ limit.toInt)
    (hprobe : answers.probeError = none) : readBounded answers limit = .ok (whole, false) := by
  simp only [readBounded, h, ok_bind, limitReader_of_le hle, lt_self_iff_false, if_false, hprobe]
  split_ifs <;> rfl

theorem readBounded_of_lt (h : answers.content = .ok whole) (hpos : 0 < limit)
    (hlt : limit.toInt < whole.length) : readBounded answers limit = .ok ([], true) := by
  have hlength := toInt_length_limitReader whole limit
  have hread := length_limitReader whole limit
  have hpos : 0 < limit.toInt := Int64.lt_iff_toInt_lt.mp hpos
  have hfull : int64Length (limitReader whole limit) = limit := Int64.toInt_inj.mp (by omega)
  simp only [readBounded, h, ok_bind, hfull, ne_eq, not_true_eq_false, if_false]
  rw [if_pos (by omega)]
  rfl

/-- What is read without more to come is the whole. -/
theorem eq_of_readBounded {content : Bytes} (h : answers.content = .ok whole) (hpos : 0 < limit)
    (hread : readBounded answers limit = .ok (content, false)) : content = whole := by
  rcases le_or_gt (whole.length : Int) limit.toInt with hle | hlt
  · simp only [readBounded, h, ok_bind, limitReader_of_le hle, lt_self_iff_false, if_false] at hread
    split_ifs at hread
    · cases hread
      rfl
    · split at hread <;> cases hread
      rfl
  · rw [readBounded_of_lt h hpos hlt] at hread
    cases hread

/-- What `readStateLocked` finds is the content. -/
theorem eq_of_fileReadState {k : Key} {operation : Operation} {content : Bytes}
    (h : answers.content = .ok whole) (hpos : 0 < limit)
    (hread : fileReadState limit k operation answers = .ok (some content)) : content = whole := by
  unfold fileReadState at hread
  split at hread
  · cases hread
  split at hread
  · cases hread
  · cases hread
  obtain ⟨-, hread⟩ := check_bind_ok_iff.mp hread
  obtain ⟨-, hread⟩ := check_bind_ok_iff.mp hread
  split at hread
  · cases hread
  · cases hread
  split at hread
  · cases hread
  · cases hread
  · rename_i oversized hbounded _
    obtain ⟨hall, hread⟩ := check_bind_ok_iff.mp hread
    obtain rfl := require_ok_iff.mp hall
    cases hread
    exact eq_of_readBounded h hpos hbounded

/-- The answers for a regular file with this content. -/
def LeafAnswers.plain (content : Bytes) : LeafAnswers :=
  ⟨.ok ⟨true, int64Length content⟩, .ok (), .ok content, none, none⟩

theorem fileReadState_plain (k : ValidKey) (operation : Operation) (hpos : 0 < limit)
    (content : Bytes) :
    fileReadState limit k.key operation (.plain content) =
      if (content.length : Int) ≤ limit.toInt then .ok (some content)
      else .error (configError .payloadTooLarge k.key.value operation) := by
  have hmap := mapKey_ok_iff.mpr ⟨k.valid, rfl⟩
  unfold fileReadState
  rw [hmap]
  simp only [LeafAnswers.plain]
  rw [require_ok_iff.mpr trivial, ok_bind]
  split_ifs with hle
  · have hsize : int64Length content ≤ limit := by
      have hlimit := limit.toInt_lt
      rw [Int64.le_iff_toInt_le, toInt_int64Length (by omega)]
      exact hle
    rw [require_ok_iff.mpr hsize, ok_bind, readBounded_of_le rfl hle rfl]
    rfl
  · by_cases hsize : int64Length content ≤ limit
    · rw [require_ok_iff.mpr hsize, ok_bind, readBounded_of_lt rfl hpos (by omega)]
      rfl
    · rw [require_of_not hsize]
      rfl

end FileReader

section NacosReader

variable {limit : Int64}

/-- The exchange in which the server has this content. -/
def Exchange.plain (content : Bytes) : Exchange :=
  ⟨true, 200, some content, false, .live, false, .live⟩

theorem nacosReadState_plain (k : Key) (operation : Operation) (content : Bytes) :
    nacosReadState limit k operation (.plain content) =
      (require (int64Length (limitReader content (limit + 1)) ≤ limit)
        (configError .payloadTooLarge k.value operation)
        >>= fun _ => pure (some (limitReader content (limit + 1)))) :=
  rfl

/-- What passes the check is the whole, where the sum does not wrap. -/
theorem int64Length_limitReader_le_iff (hlimit : limit ≠ Int64.maxValue) (hpos : 0 < limit)
    {content : Bytes} :
    int64Length (limitReader content (limit + 1)) ≤ limit ↔ (content.length : Int) ≤
      limit.toInt := by
  have hpos : 0 < limit.toInt := Int64.lt_iff_toInt_lt.mp hpos
  have hsum := toInt_add_one hlimit
  rw [Int64.le_iff_toInt_le, toInt_length_limitReader, hsum]
  omega

theorem limitReader_add_one_of_le (hlimit : limit ≠ Int64.maxValue) {content : Bytes}
    (h : (content.length : Int) ≤ limit.toInt) : limitReader content (limit + 1) = content := by
  have hsum := toInt_add_one hlimit
  exact limitReader_of_le (by omega)

theorem eq_of_nacosReadState (hlimit : limit ≠ Int64.maxValue) (hpos : 0 < limit) {k : Key}
    {operation : Operation} {exchange : Exchange} {body content : Bytes}
    (hbody : exchange.body = some body)
    (hread : nacosReadState limit k operation exchange = .ok (some content)) : content = body := by
  unfold nacosReadState at hread
  split at hread
  · obtain ⟨-, hread⟩ := check_bind_ok_iff.mp hread
    cases hread
  obtain ⟨-, hread⟩ := check_bind_ok_iff.mp hread
  obtain ⟨-, hread⟩ := check_bind_ok_iff.mp hread
  split at hread
  · cases hread
  obtain ⟨-, hread⟩ := check_bind_ok_iff.mp hread
  obtain ⟨-, hread⟩ := check_bind_ok_iff.mp hread
  rw [hbody] at hread
  obtain ⟨hle, hread⟩ := check_bind_ok_iff.mp hread
  obtain ⟨-, hread⟩ := check_bind_ok_iff.mp hread
  obtain ⟨-, hread⟩ := check_bind_ok_iff.mp hread
  cases hread
  exact limitReader_add_one_of_le hlimit
    ((int64Length_limitReader_le_iff hlimit hpos).mp (require_ok_iff.mp hle))

end NacosReader

/-! ## Snapshots -/

theorem snapshotForState_ok_iff {k : Key} {state : SourceState} {revision : Revision}
    {snapshot : Snapshot} :
    snapshotForState k state revision = .ok snapshot ↔
      k.valid = true ∧ snapshot = ⟨k, state, revision⟩ := by
  simp only [snapshotForState, check_bind_ok_iff, require_ok_iff]
  exact and_congr_right fun _ => ⟨fun h => (Except.ok.inj h).symm, fun h => h ▸ rfl⟩

theorem finishGet_ok {k : Key} {state : SourceState} {snapshot : Snapshot}
    (h : finishGet k state = .ok snapshot) : state ≠ none ∧ snapshot.state = state := by
  obtain ⟨hpresent, hsnapshot⟩ := check_bind_ok_iff.mp h
  obtain ⟨-, rfl⟩ := snapshotForState_ok_iff.mp hsnapshot
  exact ⟨require_ok_iff.mp hpresent, rfl⟩

/-- Reads of a file are exact at this limit: of a file with this content,
and by `Get` and `Observe` whatever else happens. -/
structure FileExact (limit : Int64) : Prop where
  complete : ∀ (k : ValidKey) (operation : Operation) (content : Bytes),
    fileReadState limit k.key operation (.plain content) = .ok (some content) ↔
      (content.length : Int) ≤ limit.toInt
  tooLarge : ∀ (k : ValidKey) (operation : Operation) (content : Bytes),
    fileReadState limit k.key operation (.plain content) =
      .error (configError .payloadTooLarge k.key.value operation) ↔ limit.toInt < content.length
  get : ∀ k lifecycle endedBefore endedAfter answers content snapshot,
    answers.content = .ok content →
    fileGet limit k lifecycle endedBefore endedAfter answers = .ok snapshot →
    snapshot.state = some content
  observe : ∀ k lifecycle endedBefore endedAfter endedLast scope answers content snapshot,
    answers.content = .ok content →
    fileObserve limit k lifecycle endedBefore endedAfter endedLast scope answers = .ok snapshot →
    ∀ c ∈ snapshot.state, c = content

structure NacosExact (limit : Int64) : Prop where
  complete : ∀ (k : ValidKey) (operation : Operation) (content : Bytes),
    nacosReadState limit k.key operation (.plain content) = .ok (some content) ↔
      (content.length : Int) ≤ limit.toInt
  tooLarge : ∀ (k : ValidKey) (operation : Operation) (content : Bytes),
    nacosReadState limit k.key operation (.plain content) =
      .error (configError .payloadTooLarge k.key.value operation) ↔ limit.toInt < content.length
  get : ∀ k endedBefore lifecycle exchange content snapshot,
    exchange.body = some content →
    nacosGet limit k endedBefore lifecycle exchange = .ok snapshot → snapshot.state = some content
  observe : ∀ k endedBefore endedLast watchEnabled lifecycle lifecycleLast scope exchange content
    snapshot, exchange.body = some content →
    nacosObserve limit k endedBefore endedLast watchEnabled lifecycle lifecycleLast scope exchange =
      .ok snapshot →
    ∀ c ∈ snapshot.state, c = content

theorem ite_ok_iff {p : Prop} [Decidable p] {content : Bytes} {err : ConfigError} :
    ((if p then .ok (some content) else .error err : Except ConfigError SourceState) =
      .ok (some content) ↔ p)
    ∧ ((if p then .ok (some content) else .error err : Except ConfigError SourceState) =
      .error err ↔ ¬p) := by
  split_ifs with h <;> simp [h]

theorem fileExact {limit : Int64} (hpos : 0 < limit) : FileExact limit where
  complete k operation content := by
    rw [fileReadState_plain k operation hpos]
    exact ite_ok_iff.1
  tooLarge k operation content := by
    rw [fileReadState_plain k operation hpos, ← not_le]
    exact ite_ok_iff.2
  get k lifecycle endedBefore endedAfter answers content snapshot hcontent h := by
    obtain ⟨-, h⟩ := check_bind_ok_iff.mp h
    obtain ⟨-, h⟩ := check_bind_ok_iff.mp h
    obtain ⟨-, h⟩ := check_bind_ok_iff.mp h
    obtain ⟨state, hread, h⟩ := bind_ok_iff.mp h
    obtain ⟨-, h⟩ := check_bind_ok_iff.mp h
    obtain ⟨hpresent, hstate⟩ := finishGet_ok h
    obtain ⟨found, rfl⟩ := Option.ne_none_iff_exists'.mp hpresent
    rw [hstate, eq_of_fileReadState hcontent hpos hread]
  observe k lifecycle endedBefore endedAfter endedLast scope answers content snapshot
    hcontent h := by
    obtain ⟨-, h⟩ := check_bind_ok_iff.mp h
    obtain ⟨-, h⟩ := check_bind_ok_iff.mp h
    obtain ⟨-, h⟩ := check_bind_ok_iff.mp h
    obtain ⟨state, hread, h⟩ := bind_ok_iff.mp h
    obtain ⟨-, h⟩ := check_bind_ok_iff.mp h
    obtain ⟨initial, hinitial, h⟩ := bind_ok_iff.mp h
    obtain ⟨-, h⟩ := check_bind_ok_iff.mp h
    cases h
    obtain ⟨-, rfl⟩ := snapshotForState_ok_iff.mp hinitial
    rintro c rfl
    exact eq_of_fileReadState hcontent hpos hread

theorem nacosExact {limit : Int64} (hlimit : limit ≠ Int64.maxValue) (hpos : 0 < limit) :
    NacosExact limit where
  complete k operation content := by
    rw [nacosReadState_plain, check_bind_ok_iff, require_ok_iff,
      int64Length_limitReader_le_iff hlimit hpos, and_iff_left_iff_imp]
    intro hle
    rw [limitReader_add_one_of_le hlimit hle]
    rfl
  tooLarge k operation content := by
    rw [nacosReadState_plain, ← not_le, ← int64Length_limitReader_le_iff hlimit hpos]
    unfold require
    split_ifs with hle
    · exact iff_of_false nofun (not_not_intro hle)
    · exact iff_of_true rfl hle
  get k endedBefore lifecycle exchange content snapshot hbody h := by
    obtain ⟨-, h⟩ := check_bind_ok_iff.mp h
    obtain ⟨-, h⟩ := check_bind_ok_iff.mp h
    obtain ⟨-, h⟩ := check_bind_ok_iff.mp h
    obtain ⟨state, hread, h⟩ := bind_ok_iff.mp h
    obtain ⟨hpresent, hstate⟩ := finishGet_ok h
    obtain ⟨found, rfl⟩ := Option.ne_none_iff_exists'.mp hpresent
    rw [hstate, eq_of_nacosReadState hlimit hpos hbody hread]
  observe k endedBefore endedLast watchEnabled lifecycle lifecycleLast scope exchange content
      snapshot hbody h := by
    obtain ⟨-, h⟩ := check_bind_ok_iff.mp h
    obtain ⟨-, h⟩ := check_bind_ok_iff.mp h
    obtain ⟨-, h⟩ := check_bind_ok_iff.mp h
    obtain ⟨-, h⟩ := check_bind_ok_iff.mp h
    obtain ⟨state, hread, h⟩ := bind_ok_iff.mp h
    obtain ⟨initial, hinitial, h⟩ := bind_ok_iff.mp h
    obtain ⟨-, h⟩ := check_bind_ok_iff.mp h
    obtain ⟨-, h⟩ := check_bind_ok_iff.mp h
    cases h
    obtain ⟨-, rfl⟩ := snapshotForState_ok_iff.mp hinitial
    rintro c rfl
    exact eq_of_nacosReadState hlimit hpos hbody hread

def exampleKey : ValidKey := ⟨⟨utf8 "a"⟩, by decide⟩

/-- At the largest limit nothing is read. -/
theorem nacosReadState_maxValue (k : Key) (operation : Operation) (content : Bytes) :
    nacosReadState Int64.maxValue k operation (.plain content) = .ok (some []) := rfl

/-- **Reads are exact** at every limit of the file reader, and at every
limit but the largest of the Nacos reader. -/
theorem bounded_reads {limit : Int64} (hpos : 0 < limit) :
    FileExact limit ∧ (NacosExact limit ↔ limit ≠ Int64.maxValue) := by
  refine ⟨fileExact hpos, fun h hmax => ?_, fun hlimit => nacosExact hlimit hpos⟩
  subst hmax
  have hread := (h.complete exampleKey .get [0]).mpr (by decide)
  rw [nacosReadState_maxValue] at hread
  cases hread

theorem bounded_reads_largest : FileExact Int64.maxValue ∧ ¬NacosExact Int64.maxValue := by
  have h := bounded_reads (by decide : (0 : Int64) < Int64.maxValue)
  exact ⟨h.1, fun hexact => h.2.mp hexact rfl⟩

/-- A value of one byte is read as empty. -/
theorem truncated_at_maxValue :
    nacosGet Int64.maxValue exampleKey.key false .live (.plain [0]) =
      .ok ⟨exampleKey.key, some [], unscopedRevision⟩ := by
  decide

end ConfigCenter

end Nekiro
