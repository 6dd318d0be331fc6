import IocpRuntime.Lib.Runs
import IocpRuntime.Proofs.HpackTable

namespace IocpRuntime.Proofs.HpackRuns
open Lib Lib.BoundedTable Http Http2 HpackTable

inductive Call where
  | decode (data : Octets)
  | encode (headers : List HttpHeader)
  | setDynamicTableSize (newSize : Nat)

def step (codec : HpackCodec) : Call → HpackCodec
  | .decode data => (codec.decode data).1
  | .encode headers => (codec.encode headers).1
  | .setDynamicTableSize newSize => (codec.setDynamicTableSize newSize).toOption.getD codec

inductive Change where
  | add (e : TableEntry)
  | resize (newSize : Nat)
  | announce

namespace Change

def apply (codec : HpackCodec) : Change → HpackCodec
  | .add e => codec.addDynamicEntry e.name e.value
  | .resize newSize => (codec.setDynamicTableSize newSize).toOption.getD codec
  | .announce => { codec with pendingTableSizeUpdate := none }

/-- The entries added since the table was last cleared, newest first. -/
def since (added : List TableEntry) (codec : HpackCodec) : Change → List TableEntry
  | .add e => if entrySize e > codec.currentDynamicTableLimit then [] else e :: added
  | .resize _ | .announce => added

end Change

/-- The entries that the loop of `EvictDynamicTable` pops, each with the counter it is
subtracted from. -/
def popped (limit : Nat) : Nat → List TableEntry → Nat → List (TableEntry × Nat)
  | 0, _, _ => []
  | rounds + 1, table, size =>
    if size > limit then
      match table.getLast? with
      | some e => (e, size) :: popped limit rounds table.dropLast (size - entrySize e)
      | none => []
    else []

def Change.evictions (codec : HpackCodec) : Change → List (TableEntry × Nat)
  | .add e =>
    if entrySize e > codec.currentDynamicTableLimit then []
    else popped codec.currentDynamicTableLimit (codec.dynamicTable.length + 1)
      (e :: codec.dynamicTable) (codec.dynamicTableSize + entrySize e)
  | .resize newSize =>
    if newSize > codec.options.maximumDynamicTableSize then []
    else popped newSize codec.dynamicTable.length codec.dynamicTable codec.dynamicTableSize
  | .announce => []

def readChange (s : HpackCodec.Decoding) (firstByte : UInt8) : List Change :=
  if firstByte &&& 0x80 ≠ 0 then []
  else if firstByte &&& 0xc0 = 0x40 then s.headers.getLast?.toList.map .add
  else if firstByte &&& 0xf0 = 0x00 then []
  else [.resize s.codec.currentDynamicTableLimit]

def decodeChanges : Nat → HpackCodec.Decoding → List Change
  | 0, _ => []
  | rounds + 1, s =>
    match s.data with
    | [] => []
    | firstByte :: _ =>
      match HpackCodec.decodeRepresentation s firstByte with
      | .error _ => []
      | .ok s =>
        readChange s firstByte ++
          if s.headerListSize > s.codec.options.maximumHeaderListSize then []
          else decodeChanges rounds s

def encodeChanges : HpackCodec → List HttpHeader → List Change
  | _, [] => []
  | codec, header :: headers =>
    if codec.findIndex (· == header) ≠ 0 then encodeChanges codec headers
    else .add header :: encodeChanges (codec.addDynamicEntry header.name header.value) headers

def changes (codec : HpackCodec) : Call → List Change
  | .decode data => decodeChanges data.length { codec := codec, data := data }
  | .encode headers =>
    .announce :: encodeChanges { codec with pendingTableSizeUpdate := none } headers
  | .setDynamicTableSize newSize => [.resize newSize]

section Operations

/-- What was read of a representation is one operation of the table, or none. -/
theorem read_change (h : HpackCodec.decodeRepresentation s firstByte = .ok t) :
    t.codec = Runs.final Change.apply s.codec (readChange t firstByte) := by
  unfold HpackCodec.decodeRepresentation at h
  unfold readChange
  split at h
  · rename_i hin
    rw [if_pos hin]
    obtain ⟨⟨index, data⟩, -, h⟩ := bind_ok h
    dsimp only at h
    split at h
    · cases h
    obtain ⟨e, -, h⟩ := bind_ok h
    cases h
    rfl
  rename_i hl
  rw [if_neg hl]
  split at h
  · rename_i hi
    rw [if_pos hi]
    obtain ⟨_, -, h⟩ := bind_ok h
    obtain ⟨⟨name, _⟩, -, h⟩ := bind_ok h
    obtain ⟨⟨value, _⟩, -, h⟩ := bind_ok h
    cases h
    simp [HpackCodec.emit, Runs.final, Change.apply]
  rename_i hwi
  rw [if_neg hwi]
  split at h
  · rename_i hp
    rw [if_pos hp]
    obtain ⟨_, -, h⟩ := bind_ok h
    obtain ⟨_, -, h⟩ := bind_ok h
    obtain ⟨_, -, h⟩ := bind_ok h
    cases h
    rfl
  rename_i hp
  rw [if_neg hp]
  split at h
  · obtain ⟨⟨newSize, _⟩, -, h⟩ := bind_ok h
    obtain ⟨next, hset, h⟩ := bind_ok h
    cases h
    change next = (s.codec.setDynamicTableSize next.currentDynamicTableLimit).toOption.getD s.codec
    have hli : next.currentDynamicTableLimit = newSize := by
      unfold HpackCodec.setDynamicTableSize at hset
      split at hset
      · cases hset
      · cases hset
        rfl
    rw [hli, hset]
    rfl
  · cases h

/-- `Decode` does to the codec what its operations do, one after the other. -/
theorem decode_changes : (HpackCodec.decodeLoop rounds s).1 =
      Runs.final Change.apply s.codec (decodeChanges rounds s) := by
  induction rounds generalizing s with
  | zero => rfl
  | succ rounds ih =>
    rw [HpackCodec.decodeLoop, decodeChanges]
    cases hd : s.data with
    | nil => rfl
    | cons firstByte data =>
      dsimp only
      cases hr : HpackCodec.decodeRepresentation s firstByte with
      | error e => rfl
      | ok next =>
        dsimp only
        rw [Runs.final_append, ← read_change hr]
        split
        · rfl
        · exact ih

theorem encode_changes : (codec.encodeHeaders result headers).1 =
      Runs.final Change.apply codec (encodeChanges codec headers) := by
  induction headers generalizing codec result with
  | nil => rfl
  | cons header headers ih =>
    rw [HpackCodec.encodeHeaders, encodeChanges, ih]
    unfold HpackCodec.encodeHeader
    dsimp only
    split
    · rfl
    · rfl

theorem step_changes : step codec call = Runs.final Change.apply codec (changes codec call) := by
  cases call with
  | decode data => exact decode_changes
  | encode headers =>
    change (codec.encode headers).1 = Runs.final Change.apply
      { codec with pendingTableSizeUpdate := none } (encodeChanges _ headers)
    unfold HpackCodec.encode
    split
    · exact encode_changes
    · rename_i hn
      rw [encode_changes, ← hn]
  | setDynamicTableSize newSize => rfl

/-- The counter is the sum of the table, so each eviction subtracts what is in it. -/
theorem popped_le (h : eviction ∈ popped limit rounds table (total entrySize table)) :
    entrySize eviction.1 ≤ eviction.2 := by
  induction rounds generalizing table with
  | zero => cases h
  | succ rounds ih =>
    rw [popped] at h
    split at h
    · cases hl : table.getLast? with
      | none =>
        rw [hl] at h
        cases h
      | some e =>
        have ht := total_dropLast hl
        rw [hl] at h
        dsimp only at h
        rw [show total entrySize table - entrySize e = total entrySize table.dropLast by omega] at h
        rcases List.mem_cons.mp h with rfl | h
        · dsimp only
          omega
        · exact ih h
    · cases h

end Operations

section Log

abbrev TableEvent := Runs.Event HpackCodec Change

def addedSince (log : List TableEvent) : List TableEntry :=
  log.foldl (fun added event => event.input.since added event.before) []

structure Kept (options : HpackOptions) (log : List TableEvent) (codec : HpackCodec) : Prop where
  sized : Sized codec
  configured : codec.options = options
  newest : codec.dynamicTable <+: addedSince log
  exact : ∀ event ∈ log, ∀ eviction ∈ event.input.evictions event.before,
    entrySize eviction.1 ≤ eviction.2

theorem evictions_le (h : Sized codec) (change : Change) :
    ∀ eviction ∈ change.evictions codec, entrySize eviction.1 ≤ eviction.2 := by
  intro eviction he
  cases change with
  | add e =>
    rw [Change.evictions] at he
    split at he
    · cases he
    · rw [h.counter, Nat.add_comm (total _ _), ← total_cons] at he
      exact popped_le he
  | resize newSize =>
    rw [Change.evictions] at he
    split at he
    · cases he
    · rw [h.counter] at he
      exact popped_le he
  | announce => cases he

/-- One operation keeps the table a prefix of what was added. -/
theorem Kept.change (h : Kept options log codec) (change : Change) :
    Kept options (log ++ [⟨codec, change⟩]) (change.apply codec) := by
  have hs : addedSince (log ++ [⟨codec, change⟩]) =
      change.since (addedSince log) codec := by
    simp [addedSince]
  have hexa : ∀ event ∈ log ++ [⟨codec, change⟩],
      ∀ eviction ∈ event.input.evictions event.before, entrySize eviction.1 ≤ eviction.2 := by
    intro event he
    rcases List.mem_append.mp he with he | he
    · exact h.exact event he
    · rw [List.mem_singleton.mp he]
      exact evictions_le h.sized change
  cases change with
  | add e =>
    refine ⟨add_sized h.sized, ?_, ?_, hexa⟩
    · exact (HpackCodec.addDynamicEntry_options _ _ _).trans h.configured
    · rw [hs, Change.apply, add_eq h.sized, Change.since]
      unfold push
      dsimp only
      split
      · exact List.nil_prefix
      · exact (trim_prefix_self _ _ _).trans (List.cons_prefix_cons.mpr ⟨rfl, h.newest⟩)
  | resize newSize =>
    rw [Change.apply]
    by_cases hsi : newSize ≤ codec.options.maximumDynamicTableSize
    · have hset := set_size_eq h.sized hsi
      have hsz := set_size_sized h.sized hset
      rw [hset]
      refine ⟨hsz, h.configured, ?_, hexa⟩
      rw [hs]
      exact (trim_prefix_self _ _ _).trans h.newest
    · have hset : codec.setDynamicTableSize newSize = .error _ :=
        if_pos (Nat.lt_of_not_le hsi)
      rw [hset]
      exact ⟨h.sized, h.configured, hs ▸ h.newest, hexa⟩
  | announce =>
    exact ⟨⟨h.sized.counter, h.sized.within, h.sized.allowed⟩, h.configured, hs ▸ h.newest, hexa⟩

def tableLog (options : HpackOptions) (calls : List Call) : List TableEvent :=
  Runs.history Change.apply (HpackCodec.create options)
    ((Runs.history step (HpackCodec.create options) calls).flatMap
      (fun event => changes event.before event.input))

theorem final_changes : Runs.final step codec calls = Runs.final Change.apply codec
      ((Runs.history step codec calls).flatMap
        (fun event => changes event.before event.input)) := by
  induction calls generalizing codec with
  | nil => rfl
  | cons call calls ih =>
    rw [Runs.final_cons, ih, Runs.history, List.flatMap_cons, Runs.final_append, ← step_changes]

/-- After any calls the counter is the size of the table and within the limits, and the table is the
newest part of what was added since it was cleared. -/
theorem dynamic_table_invariant (options : HpackOptions) (calls : List Call) :
    let codec := Runs.final step (HpackCodec.create options) calls
    let log := tableLog options calls
    Runs.final Change.apply (HpackCodec.create options) (log.map (·.input)) = codec ∧
    codec.dynamicTableSize =
      (codec.dynamicTable.map (fun e => e.name.length + e.value.length + 32)).sum ∧
    codec.dynamicTableSize ≤ codec.currentDynamicTableLimit ∧
    codec.currentDynamicTableLimit ≤ options.maximumDynamicTableSize ∧
    (∀ event ∈ log, ∀ eviction ∈ event.input.evictions event.before,
      entrySize eviction.1 ≤ eviction.2) ∧
    codec.dynamicTable <+: addedSince log := by
  have hstart : Kept options [] (HpackCodec.create options) :=
    ⟨create_sized, rfl, List.nil_prefix, nofun⟩
  have hrun : Kept options (tableLog options calls)
      (Runs.final step (HpackCodec.create options) calls) := by
    rw [final_changes]
    unfold tableLog
    refine Runs.run_induction hstart ?_ (fun _ _ => trivial)
    intro log event h _
    exact h.change event.input
  refine ⟨?_, hrun.sized.counter, ?_, ?_, hrun.exact, hrun.newest⟩
  · rw [final_changes, tableLog, Runs.history_inputs]
  · rw [hrun.sized.counter]
    exact hrun.sized.within
  · have hallowed := hrun.sized.allowed
    rwa [hrun.configured] at hallowed

end Log

end IocpRuntime.Proofs.HpackRuns
