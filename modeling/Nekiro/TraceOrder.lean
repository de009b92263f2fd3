import Mathlib.Logic.Relation
import Nekiro.LedgerTrace
import Nekiro.Slices

/-!
# The ordering of a trace, in memory

`orderTraceProjections` once more, on slices: `remaining` is a copy of the
input, `next := remaining[:0]` is a second window on that copy, and every
`append` goes through the memory. `LedgerTrace` has the pass as it is on
one array (`TracePass`); here that array is a window of a memory which
also holds the caller's list and everything the caller has besides.

`Layout` is what the loop keeps: the arrays that were there before are
untouched, and the two slices of the loop lie on arrays of their own.
`iterate_spec` is one round of the loop under it, as a pass of
`ParentOrder`; termination, success, the order of the output and the frame
follow from there.
-/

namespace Nekiro

namespace Ledger

open ParentOrder

namespace InMemory

variable (grow : Nat → Nat) (zero : InvocationRecordV1)

/-- The inner loop in progress. -/
structure Pass where
  memory : Memory InvocationRecordV1
  ordered : Slice
  emitted : List String
  next : Slice
  progress : Bool

def Pass.emit (st : Pass) (value : InvocationRecordV1) : Pass :=
  let appended := st.memory.append grow zero st.ordered [value]
  { st with
    memory := appended.1
    ordered := appended.2
    emitted := value.invocationID :: st.emitted
    progress := true }

def Pass.keep (st : Pass) (value : InvocationRecordV1) : Pass :=
  let appended := st.memory.append grow zero st.next [value]
  { st with memory := appended.1, next := appended.2 }

/-- The body of the inner loop at index `i`; the element is read when its
turn comes. -/
def Pass.visit (remaining : Slice) (st : Pass) (i : Nat) : Pass :=
  match (st.memory.read remaining)[i]? with
  | none => st
  | some value =>
      if value.parentInvocationID = "" then st.emit grow zero value
      else if value.parentInvocationID ∈ st.emitted then st.emit grow zero value
      else st.keep grow zero value

/-- The variables of the outer loop. -/
structure Loop where
  memory : Memory InvocationRecordV1
  ordered : Slice
  emitted : List String
  remaining : Slice

def Loop.pass (l : Loop) : Pass :=
  (List.range l.remaining.len).foldl (Pass.visit grow zero l.remaining)
    ⟨l.memory, l.ordered, l.emitted, l.remaining.take 0, false⟩

/-- A result and the memory it leaves behind. -/
abbrev Outcome := Except String Slice × Memory InvocationRecordV1

/-- One round of the outer loop: it returns or goes on. -/
def Loop.iterate (l : Loop) : Outcome ⊕ Loop :=
  if l.remaining.len = 0 then .inl (.ok l.ordered, l.memory)
  else
    let st := l.pass grow zero
    if st.progress then .inr ⟨st.memory, st.ordered, st.emitted, st.next⟩
    else .inl (.error "trace contains missing or cyclic parent lineage", st.memory)

/-- At most `fuel` rounds; `none` when they are not enough. -/
def Loop.run : Nat → Loop → Option Outcome
  | 0, _ => none
  | fuel + 1, l =>
      match l.iterate grow zero with
      | .inl outcome => some outcome
      | .inr l => Loop.run fuel l

/-- The variables before the loop. -/
def Loop.start (memory : Memory InvocationRecordV1) (values : Slice) : Loop :=
  let made := memory.make zero values.len
  let copied := made.1.append grow zero .empty (made.1.read values)
  ⟨copied.1, made.2, [], copied.2⟩

def orderTraceProjections (memory : Memory InvocationRecordV1) (values : Slice) : Option Outcome :=
  (Loop.start grow zero memory values).run grow zero (values.len + 1)

/-! ## The inner loop -/

/-- The arrays of `before` are untouched, and the loop's own two slices are
on different arrays. -/
structure Layout (before memory : Memory InvocationRecordV1) (ordered remaining : Slice) :
    Prop where
  frame : ∀ array < before.length, memory.cells array = before.cells array
  grows : before.length ≤ memory.length
  orderedNew : before.length ≤ ordered.array
  orderedMade : ordered.array < memory.length
  orderedValid : memory.Valid ordered
  remainingValid : memory.Valid remaining
  remainingNew : 0 < remaining.len → before.length ≤ remaining.array
  remainingMade : 0 < remaining.len → remaining.array < memory.length
  apart : 0 < remaining.len → ordered.array ≠ remaining.array

/-- The inner loop against the pass on one array. -/
structure Holds (before : Memory InvocationRecordV1) (remaining : Slice) (st : Pass)
    (tp : TracePass) : Prop where
  layout : Layout before st.memory st.ordered remaining
  array : st.memory.read remaining = tp.array
  next : st.next = remaining.take tp.written
  ordered : st.memory.read st.ordered = tp.ordered
  emitted : st.emitted = tp.emitted
  progress : st.progress = tp.progress

section Append

variable {before memory : Memory InvocationRecordV1} {ordered remaining : Slice}

/-- Appending to `ordered` keeps the layout and does not reach `remaining`. -/
theorem Layout.emit (value : InvocationRecordV1) (h : Layout before memory ordered remaining)
    (hlen : 0 < remaining.len) :
    Layout before (memory.append grow zero ordered [value]).1
        (memory.append grow zero ordered [value]).2 remaining
      ∧ (memory.append grow zero ordered [value]).1.read remaining = memory.read remaining := by
  have hcells : (memory.append grow zero ordered [value]).1.cells remaining.array =
      memory.cells remaining.array :=
    Memory.cells_append grow zero (h.remainingMade hlen) (h.apart hlen).symm
  have hlength : memory.length ≤ (memory.append grow zero ordered [value]).1.length :=
    Memory.length_le_append grow zero
  have hmade := h.remainingMade hlen
  have hgrows := h.grows
  have hnew := h.orderedNew
  have hordered := h.orderedMade
  refine ⟨⟨fun array ha => ?_, hgrows.trans hlength, ?_, ?_,
    Memory.valid_append grow zero [value] h.orderedValid hordered, h.remainingValid.congr hcells,
    h.remainingNew,
    fun _ => hmade.trans_le hlength, fun _ => ?_⟩, Memory.read_congr hcells⟩
  · rw [← h.frame array ha]
    exact Memory.cells_append grow zero (ha.trans_le hgrows) (by omega)
  · rcases Memory.array_append grow zero memory ordered [value] with harray | ⟨harray, -⟩
    · rw [harray]
      exact hnew
    · rw [harray]
      exact hgrows
  · rcases Memory.array_append grow zero memory ordered [value]
      with harray | ⟨harray, hlt⟩
    · rw [harray]
      exact hordered.trans_le hlength
    · rw [harray]
      exact hlt
  · rcases Memory.array_append grow zero memory ordered [value] with harray | ⟨harray, -⟩
    · rw [harray]
      exact h.apart hlen
    · rw [harray]
      exact hmade.ne'

/-- Writing through `next` is writing into `remaining`. -/
theorem Layout.keep (value : InvocationRecordV1) (h : Layout before memory ordered remaining)
    {written : Nat} (hlt : written < remaining.len) :
    (memory.append grow zero (remaining.take written) [value]).2 = remaining.take (written + 1)
      ∧ Layout before (memory.append grow zero (remaining.take written) [value]).1 ordered remaining
      ∧ (memory.append grow zero (remaining.take written) [value]).1.read remaining =
        (memory.read remaining).set written value
      ∧ (memory.append grow zero (remaining.take written) [value]).1.read ordered =
        memory.read ordered := by
  have hlen : 0 < remaining.len := Nat.zero_lt_of_lt hlt
  have hmade := h.remainingMade hlen
  have hcap := h.remainingValid.len
  have hroom : (remaining.take written).len + [value].length ≤ (remaining.take written).cap :=
    Nat.succ_le_of_lt (hlt.trans_le hcap)
  have hvalid : memory.Valid (remaining.take written) :=
    h.remainingValid.take (hlt.le.trans hcap)
  have hcells : (memory.append grow zero (remaining.take written) [value]).1.cells ordered.array =
      memory.cells ordered.array := Memory.cells_append grow zero h.orderedMade (h.apart hlen)
  have hread := Memory.read_append_of_shared grow zero value hvalid hmade
    hcap hlt
  have hlength : memory.length ≤
      (memory.append grow zero (remaining.take written) [value]).1.length :=
        Memory.length_le_append grow zero
  have happended : (memory.append grow zero (remaining.take written) [value]).2 =
      remaining.take (written + 1) := by
    rw [Memory.append_of_le grow zero hroom]
    rfl
  have hwindow := Memory.valid_append grow zero [value] hvalid hmade
  rw [happended] at hwindow
  refine ⟨happended, ⟨fun array ha => ?_, h.grows.trans hlength, h.orderedNew,
    h.orderedMade.trans_le hlength, h.orderedValid.congr hcells, ⟨hcap, hwindow.cap⟩,
    h.remainingNew, fun _ => hmade.trans_le hlength, h.apart⟩, hread, Memory.read_congr hcells⟩
  · rw [← h.frame array ha]
    refine Memory.cells_append grow zero (ha.trans_le h.grows) ?_
    have hnew := h.remainingNew hlen
    exact (ha.trans_le hnew).ne

end Append

section Passes

variable {before : Memory InvocationRecordV1} {remaining : Slice}

theorem Holds.emit {st : Pass} {tp : TracePass} (value : InvocationRecordV1)
    (h : Holds before remaining st tp) (hlen : 0 < remaining.len) :
    Holds before remaining (st.emit grow zero value) (tp.emit value) := by
  obtain ⟨hlayout, hread⟩ := h.layout.emit grow zero value hlen
  refine ⟨hlayout, hread.trans h.array, h.next, ?_, congrArg (value.invocationID :: ·) h.emitted,
    rfl⟩
  rw [TracePass.emit, ← h.ordered]
  exact Memory.read_append grow zero [value] h.layout.orderedValid h.layout.orderedMade

theorem Holds.keep {st : Pass} {tp : TracePass} (value : InvocationRecordV1)
    (h : Holds before remaining st tp) (hwritten : tp.written < remaining.len) :
    Holds before remaining (st.keep grow zero value)
      { tp with array := tp.array.set tp.written value, written := tp.written + 1 } := by
  obtain ⟨happended, hlayout, hread, hordered⟩ :=
    h.layout.keep grow zero value hwritten
  unfold Pass.keep
  rw [h.next]
  exact ⟨hlayout, by rw [hread, h.array], happended, hordered.trans h.ordered, h.emitted,
    h.progress⟩

theorem Holds.visit {st : Pass} {tp : TracePass} {i : Nat} (h : Holds before remaining st tp)
    (hi : i < remaining.len) (hwritten : tp.written ≤ i) :
    Holds before remaining (st.visit grow zero remaining i) (tp.visit i) := by
  have hlen : 0 < remaining.len := Nat.zero_lt_of_lt hi
  unfold Pass.visit TracePass.visit
  rw [h.array, h.emitted]
  cases tp.array[i]? with
  | none => exact h
  | some value =>
      dsimp only
      split_ifs
      · exact h.emit grow zero value hlen
      · exact h.emit grow zero value hlen
      · exact h.keep grow zero value (hwritten.trans_lt hi)

/-- The inner loop is the pass on the array of `remaining`. -/
theorem Loop.holds_pass {l : Loop} (h : Layout before l.memory l.ordered l.remaining) :
    Holds before l.remaining (l.pass grow zero)
      (tracePass (l.memory.read l.remaining) (l.memory.read l.ordered) l.emitted) := by
  have hlength := h.remainingValid.length_read
  -- by induction on the number of elements visited
  have hpart : ∀ k ≤ l.remaining.len, Holds before l.remaining
      ((List.range k).foldl (Pass.visit grow zero l.remaining)
        ⟨l.memory, l.ordered, l.emitted, l.remaining.take 0, false⟩)
      ((List.range k).foldl TracePass.visit
        ⟨l.memory.read l.remaining, 0, l.memory.read l.ordered, l.emitted, false⟩) := by
    intro k
    induction k with
    | zero => exact fun _ => ⟨h, rfl, rfl, rfl, rfl, rfl⟩
    | succ k ih =>
        intro hk
        have hwritten :=
          (inStep_foldl (l.memory.read l.remaining) (l.memory.read l.ordered) l.emitted k
          (by omega)).written
        rw [List.range_succ, List.foldl_concat, List.foldl_concat]
        exact (ih (Nat.le_of_succ_le hk)).visit grow zero hk hwritten
  unfold Loop.pass tracePass
  rw [hlength]
  exact hpart _ (le_refl _)

end Passes

/-! ## The outer loop -/

section Loops

variable {before : Memory InvocationRecordV1} {l : Loop}

/-- The pass of `ParentOrder` that a round makes. -/
def Loop.reference (l : Loop) : ParentOrder.Pass InvocationRecordV1 String :=
  ParentOrder.pass (·.invocationID) InvocationRecordV1.parent (l.memory.read l.remaining)
    (l.memory.read l.ordered) l.emitted

/-- One round that does not find `remaining` empty. -/
theorem Loop.iterate_spec (h : Layout before l.memory l.ordered l.remaining)
    (hne : l.remaining.len ≠ 0) :
    (l.reference.progress = false ∧ ∃ memory,
        (∀ array < before.length, memory.cells array = before.cells array)
          ∧ l.iterate grow zero =
            .inl (.error "trace contains missing or cyclic parent lineage", memory))
      ∨ (l.reference.progress = true ∧ ∃ l',
        Layout before l'.memory l'.ordered l'.remaining
          ∧ l'.memory.read l'.ordered = l.reference.ordered
          ∧ l'.memory.read l'.remaining = l.reference.next ∧ l'.emitted = l.reference.emitted
          ∧ l.iterate grow zero = .inr l') := by
  have hholds := Loop.holds_pass grow zero h
  have hstep := tracePass_inStep (l.memory.read l.remaining) (l.memory.read l.ordered) l.emitted
  rw [h.remainingValid.length_read] at hstep
  generalize htp : tracePass (l.memory.read l.remaining) (l.memory.read l.ordered) l.emitted = tp
    at hholds hstep
  have hreference : l.reference = ParentOrder.pass (·.invocationID) InvocationRecordV1.parent
    (l.memory.read l.remaining) (l.memory.read l.ordered) l.emitted := rfl
  rw [← hreference] at hstep
  have hprogress : (l.pass grow zero).progress = l.reference.progress :=
    hholds.progress.trans hstep.progress
  unfold Loop.iterate
  dsimp only
  rw [if_neg hne, hprogress]
  cases hp : l.reference.progress with
  | false => exact .inl ⟨rfl, (l.pass grow zero).memory, hholds.layout.frame, rfl⟩
  | true =>
      refine .inr ⟨rfl, ⟨(l.pass grow zero).memory, (l.pass grow zero).ordered,
        (l.pass grow zero).emitted, (l.pass grow zero).next⟩, ?_,
        hholds.ordered.trans hstep.ordered,
        ?_, hholds.emitted.trans hstep.emitted, rfl⟩
      · have hnext := hholds.next
        have hlayout := hholds.layout
        have hpos : 0 < l.remaining.len := Nat.pos_of_ne_zero hne
        dsimp only
        rw [hnext]
        exact ⟨hlayout.frame, hlayout.grows, hlayout.orderedNew, hlayout.orderedMade,
          hlayout.orderedValid,
          hlayout.remainingValid.take (hstep.written.trans hlayout.remainingValid.len),
          fun _ => hlayout.remainingNew hpos, fun _ => hlayout.remainingMade hpos,
          fun _ => hlayout.apart hpos⟩
      · dsimp only
        rw [hholds.next, Memory.read_take hstep.written, hholds.array, hstep.next]

/-- What every round begins with, for the input `values`. -/
structure Loop.Ok (before : Memory InvocationRecordV1) (values : List InvocationRecordV1)
    (l : Loop) :
    Prop where
  layout : Layout before l.memory l.ordered l.remaining
  sublist : (l.memory.read l.remaining).Sublist values
  parents : ParentsFirst (·.invocationID) InvocationRecordV1.parent (l.memory.read l.ordered)
  emitted : ∀ k, k ∈ l.emitted ↔ k ∈ (l.memory.read l.ordered).map (·.invocationID)

variable {values : List InvocationRecordV1}

theorem Loop.Ok.reference_ok (h : l.Ok before values) :
    Pass.Ok (·.invocationID) InvocationRecordV1.parent
      (l.memory.read l.ordered ++ l.memory.read l.remaining) (l.memory.read l.ordered) []
      l.reference :=
  pass_ok (.refl _) h.parents h.emitted

theorem Loop.len_ne_zero_of_iterate {l' : Loop} (hiterate : l.iterate grow zero = .inr l') :
    l.remaining.len ≠ 0 := by
  intro hzero
  unfold Loop.iterate at hiterate
  rw [if_pos hzero] at hiterate
  cases hiterate

/-- A round that goes on emits a part of the input, in its order. -/
theorem Loop.Ok.iterate (h : l.Ok before values) {l' : Loop}
    (hiterate : l.iterate grow zero = .inr l') :
    l'.Ok before values ∧ ∃ block, l'.memory.read l'.ordered = l.memory.read l.ordered ++ block
      ∧ block.Sublist values := by
  rcases Loop.iterate_spec grow zero h.layout (Loop.len_ne_zero_of_iterate grow zero hiterate)
    with ⟨-, _, -, hstop⟩ | ⟨-, next, hlayout, hordered, hremaining, hemitted, hgoes⟩
  · rw [hiterate] at hstop
    cases hstop
  · obtain rfl := Sum.inr.inj (hiterate.symm.trans hgoes)
    obtain ⟨block, kept, hblock, hkept, hbsub, hksub⟩ := foldl_visit_sublist (·.invocationID)
      InvocationRecordV1.parent (l.memory.read l.remaining)
      ⟨l.memory.read l.ordered, l.emitted, [], false⟩
    have hok := h.reference_ok
    refine ⟨⟨hlayout, ?_, hordered ▸ hok.ordered, ?_⟩, block, hordered.trans hblock,
      hbsub.trans h.sublist⟩
    · rw [hremaining]
      exact (hkept ▸ hksub : l.reference.next.Sublist _).trans h.sublist
    · rw [hemitted, hordered]
      exact hok.emitted

/-- The loop returns, with what the passes give. -/
theorem Loop.Ok.run : ∀ (fuel : Nat) {l : Loop}, l.Ok before values → l.remaining.len < fuel →
    ∃ result memory, l.run grow zero fuel = some (result, memory)
      ∧ (∀ array < before.length, memory.cells array = before.cells array)
      ∧ ∀ n, l.remaining.len ≤ n →
        order (·.invocationID) InvocationRecordV1.parent n (l.memory.read l.remaining)
            (l.memory.read l.ordered) l.emitted =
          result.toOption.map memory.read
  | fuel + 1, l, h, hfuel => by
      have hlength := h.layout.remainingValid.length_read
      unfold Loop.run
      by_cases hzero : l.remaining.len = 0
      · have hstop : l.iterate grow zero = .inl (.ok l.ordered, l.memory) := if_pos hzero
        rw [hstop]
        refine ⟨_, _, rfl, h.layout.frame, fun n _ => ?_⟩
        rw [List.eq_nil_of_length_eq_zero (hlength.trans hzero)]
        cases n <;> rfl
      · have hcons : ∃ r rest, l.memory.read l.remaining = r :: rest :=
          List.exists_cons_of_length_pos (by omega)
        obtain ⟨r, rest, hcons⟩ := hcons
        rcases Loop.iterate_spec grow zero h.layout hzero
          with ⟨hprogress, memory, hframe, hstop⟩
            | ⟨hprogress, l', hlayout, hordered, hremaining, hemitted, hgoes⟩
        · rw [hstop]
          refine ⟨_, _, rfl, hframe, fun n hn => ?_⟩
          obtain ⟨n, rfl⟩ := Nat.exists_eq_succ_of_ne_zero (by omega : n ≠ 0)
          unfold Loop.reference at hprogress
          rw [hcons] at hprogress ⊢
          rw [order, hprogress]
          rfl
        · rw [hgoes]
          have hshorter : l'.remaining.len < l.remaining.len := by
            rw [← hlayout.remainingValid.length_read, hremaining, ← hlength]
            exact length_next_lt h.parents h.emitted hprogress
          obtain ⟨result, memory, hrun, hframe, horder⟩ :=
            Loop.Ok.run fuel (h.iterate grow zero hgoes).1 (by omega)
          refine ⟨result, memory, hrun, hframe, fun n hn => ?_⟩
          obtain ⟨n, rfl⟩ := Nat.exists_eq_succ_of_ne_zero (by omega : n ≠ 0)
          rw [← horder n (by omega), hremaining, hordered, hemitted]
          unfold Loop.reference at hprogress ⊢
          rw [hcons] at hprogress ⊢
          rw [order, if_pos hprogress]

end Loops

/-! ## The whole function -/

/-- The variables before the loop: an empty slice with room for all, and a
copy of the input. -/
theorem Loop.start_ok {memory : Memory InvocationRecordV1} {values : Slice}
    (h : memory.Valid values) :
    (Loop.start grow zero memory values).Ok memory (memory.read values)
      ∧ (Loop.start grow zero memory values).memory.read
          (Loop.start grow zero memory values).remaining = memory.read values
      ∧ (Loop.start grow zero memory values).memory.read
          (Loop.start grow zero memory values).ordered = [] := by
  unfold Loop.start Memory.make
  dsimp only
  rw [h.read_concat]
  generalize hmade : memory ++ [List.replicate values.len zero] = made
  have hlength : made.length = memory.length + 1 := by rw [← hmade]; simp
  have hzero : Slice.empty.array < made.length := by rw [hlength]; exact Nat.succ_pos _
  have hframe : ∀ array < made.length,
      (made.append grow zero .empty (memory.read values)).1.cells array = made.cells array :=
    fun array ha => Memory.cells_append_empty grow zero ha
  have hread : (made.append grow zero .empty (memory.read values)).1.read
      (made.append grow zero .empty (memory.read values)).2 = memory.read values := by
    rw [Memory.read_append grow zero _ (made.valid_empty) hzero, Memory.read_empty, List.nil_append]
  have hremaining := Memory.valid_append grow zero (memory.read values) (made.valid_empty) hzero
  have hgrows : made.length ≤ (made.append grow zero .empty (memory.read values)).1.length :=
    Memory.length_le_append grow zero
  have hordered : (made.append grow zero .empty (memory.read values)).1.cells memory.length =
      List.replicate values.len zero := by
    rw [hframe _ (by omega), ← hmade, Memory.cells_concat_length]
  have hnew : 0 < (made.append grow zero .empty (memory.read values)).2.len →
      (made.append grow zero .empty (memory.read values)).2.array = made.length
        ∧ made.length < (made.append grow zero .empty (memory.read values)).1.length := by
    intro hpos
    refine Memory.array_append_empty grow zero ?_
    rw [← hremaining.length_read, hread] at hpos
    exact List.ne_nil_of_length_pos hpos
  have hlonger : memory.length < (made.append grow zero .empty (memory.read values)).1.length := by
    omega
  refine ⟨⟨⟨fun array ha => ?_, hlonger.le, le_refl _, hlonger, ⟨Nat.zero_le _, ?_⟩, hremaining,
    fun hpos => ?_, fun hpos => ?_, fun hpos => ?_⟩, ?_, ?_, ?_⟩, hread, List.take_zero⟩
  · rw [hframe array (by omega), ← hmade]
    exact Memory.cells_concat_of_lt ha
  · rw [hordered, List.length_replicate, Nat.zero_add]
  · rw [(hnew hpos).1]
    omega
  · rw [(hnew hpos).1]
    exact (hnew hpos).2
  · rw [(hnew hpos).1, hlength]
    exact Nat.ne_of_lt (Nat.lt_succ_self _)
  · rw [hread]
  · exact parentsFirst_nil
  · intro k
    exact iff_of_false List.not_mem_nil
      (by rw [Memory.read, List.take_zero]; exact List.not_mem_nil)

/-- The function on slices returns what the one on lists does. -/
theorem orderTraceProjections_refines {memory : Memory InvocationRecordV1} {values : Slice}
    (h : memory.Valid values) :
    ∃ result memory', orderTraceProjections grow zero memory values = some (result, memory')
      ∧ (∀ array < memory.length, memory'.cells array = memory.cells array)
      ∧ Ledger.orderTraceProjections (memory.read values) = result.toOption.map memory'.read := by
  obtain ⟨hstart, hremaining, hordered⟩ := Loop.start_ok grow zero h
  have hlen : (Loop.start grow zero memory values).remaining.len = (memory.read values).length := by
    rw [← hstart.layout.remainingValid.length_read, hremaining]
  obtain ⟨result, memory', hrun, hframe, horder⟩ :=
    hstart.run grow zero (values.len + 1) (by rw [hlen, h.length_read]; exact Nat.lt_succ_self _)
  refine ⟨result, memory', hrun, hframe, ?_⟩
  have hpasses := horder (memory.read values).length (le_of_eq hlen)
  rw [hremaining, hordered] at hpasses
  exact (orderLoop_eq ..).trans hpasses

/-- **The ordering.** For every slice of records the function returns; it
changes no array the caller has; it succeeds when parents lead from every
record to a root in the slice; and then the records come in parent order,
those of one round in the order of the input. -/
theorem orderTraceProjections_spec {memory : Memory InvocationRecordV1} {values : Slice}
    (h : memory.Valid values) :
    ∃ result memory', orderTraceProjections grow zero memory values = some (result, memory')
      ∧ (∀ s : Slice, s.array < memory.length → memory'.read s = memory.read s)
      ∧ ((∃ ordered, result = .ok ordered) ↔
        ∀ r ∈ memory.read values,
          ReachesRoot (·.invocationID) InvocationRecordV1.parent (memory.read values) r)
      ∧ (∀ ordered, result = .ok ordered → (memory'.read ordered).Perm (memory.read values)
        ∧ ParentsFirst (·.invocationID) InvocationRecordV1.parent (memory'.read ordered))
      ∧ ∀ l l', Relation.ReflTransGen (fun l l' => Loop.iterate grow zero l = .inr l')
          (Loop.start grow zero memory values) l → l.iterate grow zero = .inr l' →
        ∃ block, l'.memory.read l'.ordered = l.memory.read l.ordered ++ block
          ∧ block.Sublist (memory.read values) := by
  obtain ⟨result, memory', hrun, hframe, hrefines⟩ := orderTraceProjections_refines grow zero h
  have horder := (orderLoop_eq ..).symm.trans hrefines
  refine ⟨result, memory', hrun, fun s hs => Memory.read_congr (hframe s.array hs), ?_, ?_, ?_⟩
  · rw [← order_isSome_iff, horder, Option.isSome_map]
    cases result with
    | ok ordered => exact iff_of_true ⟨ordered, rfl⟩ rfl
    | error message => exact iff_of_false (fun ⟨_, hok⟩ => by cases hok) (by simp [Except.toOption])
  · rintro ordered rfl
    exact order_sound _ _ _ _ horder (.refl _) parentsFirst_nil (by simp)
  · intro l l' hreach hiterate
    have hok : l.Ok memory (memory.read values) := by
      clear hiterate
      induction hreach with
      | refl => exact (Loop.start_ok grow zero h).1
      | tail _ hstep ih => exact (ih.iterate grow zero hstep).1
    exact (hok.iterate grow zero hiterate).2

/-- A record of one invocation. -/
def pairRecord (invocationID parentInvocationID : String) : InvocationRecordV1 where
  invocationID := invocationID
  rootTaskID := "task-1"
  parentInvocationID := parentInvocationID
  traceID := "trace-1"
  caller := ⟨.user, "user-1"⟩
  workspaceID := "workspace-1"
  targetAgentID := "agent-1"
  agentCardVersion := "1.0.0"
  agentReleaseID := ""
  agentCardDigest := ""
  capability := "echo"
  status := .running
  latencyMS := none
  errorCode := none
  createdAt := 1
  updatedAt := 1

/-- A child in front of its parent is no obstacle. -/
theorem orderTraceProjections_spec_pair :
    let memory : Memory InvocationRecordV1 := [[pairRecord "inv-2" "inv-1", pairRecord "inv-1" ""]]
    memory.Valid ⟨0, 0, 2, 2⟩
      ∧ ∃ ordered memory',
        orderTraceProjections (fun _ => 0) (pairRecord "" "") memory ⟨0, 0, 2, 2⟩ =
            some (.ok ordered, memory')
          ∧ (memory'.read ordered).Perm (memory.read ⟨0, 0, 2, 2⟩)
          ∧ memory'.read ⟨0, 0, 2, 2⟩ = memory.read ⟨0, 0, 2, 2⟩ := by
  intro memory
  have hvalid : memory.Valid ⟨0, 0, 2, 2⟩ := ⟨le_refl _, le_refl _⟩
  obtain ⟨result, memory', hrun, hframe, hsucceeds, hordered, -⟩ :=
    orderTraceProjections_spec (fun _ => 0) (pairRecord "" "") hvalid
  have hread : memory.read ⟨0, 0, 2, 2⟩ = [pairRecord "inv-2" "inv-1", pairRecord "inv-1" ""] := rfl
  have hroot : ReachesRoot (·.invocationID) InvocationRecordV1.parent (memory.read ⟨0, 0, 2, 2⟩)
      (pairRecord "inv-1" "") := .root (by simp [hread]) rfl
  obtain ⟨ordered, rfl⟩ := hsucceeds.mpr (by
    intro r hr
    rw [hread, List.mem_cons, List.mem_singleton] at hr
    rcases hr with rfl | rfl
    · exact .child (by simp [hread]) rfl hroot
    · exact hroot)
  exact ⟨hvalid, ordered, memory', hrun, (hordered ordered rfl).1, hframe _ (by decide)⟩

end InMemory

end Ledger

end Nekiro
