import Buzzer.Proofs.Song.Reading

/-!
The bytes of a song that a track looks at. An indexed cursor keeps places in the song instead of the
bytes from there on, and gets every byte through a log. As long as its log stays within bounds it takes
the steps of a cursor that holds no other bytes, so that cursor is read to its end exactly if the whole
log is within the bounds.
-/
namespace Buzzer

/-- The places from `first` up to, but not including, `past`. -/
structure Extent where
  first : Nat
  past : Nat

/-- Where the note array and the duration array of a track are. -/
structure Bounds where
  notes : Extent
  durations : Extent

namespace Extent

def Contains (extent : Extent) (place : Nat) : Prop := extent.first ≤ place ∧ place < extent.past

def bytesFrom (extent : Extent) (bytes : List UInt8) (place : Nat) : List UInt8 :=
  (bytes.take extent.past).drop place

theorem bytesFrom_of_lt {extent : Extent} {bytes : List UInt8} {place : Nat}
    (fits : extent.past ≤ bytes.length) (before : place < extent.past) :
    ∃ byte, bytes[place]? = some byte ∧
      extent.bytesFrom bytes place = byte :: extent.bytesFrom bytes (place + 1) := by
  have inside : place < bytes.length := Nat.lt_of_lt_of_le before fits
  refine ⟨bytes[place], List.getElem?_eq_getElem inside, ?_⟩
  unfold bytesFrom
  rw [List.drop_eq_getElem_cons (by simp only [List.length_take]; omega), List.getElem_take]

theorem bytesFrom_of_le {extent : Extent} (bytes : List UInt8) {place : Nat}
    (after : extent.past ≤ place) : extent.bytesFrom bytes place = [] :=
  List.drop_eq_nil_of_le (Nat.le_trans (List.length_take_le _ _) after)

end Extent

namespace Bounds

def ofSong (bytes : List UInt8) : Bounds := ⟨⟨0, bytes.length⟩, ⟨0, bytes.length⟩⟩

def ofBlock (offset : Nat) (header : Header) : Bounds :=
  ⟨⟨offset + headerLength, offset + header.durationOffset⟩,
    ⟨offset + header.durationOffset, offset + header.length⟩⟩

def Fit (bounds : Bounds) (bytes : List UInt8) : Prop :=
  bounds.notes.past ≤ bytes.length ∧ bounds.durations.past ≤ bytes.length

theorem fit_ofSong (bytes : List UInt8) : (ofSong bytes).Fit bytes := ⟨Nat.le_refl _, Nat.le_refl _⟩

end Bounds

/-- A byte that a track asks for, by its place in the song. -/
inductive Access where
  | note (place : Nat)
  | duration (place : Nat)
  deriving DecidableEq

namespace Access

def place : Access → Nat
  | note place => place
  | duration place => place

def Inside (bounds : Bounds) : Access → Prop
  | note place => bounds.notes.Contains place
  | duration place => bounds.durations.Contains place

theorem inside_ofSong (bytes : List UInt8) (access : Access) :
    access.Inside (.ofSong bytes) ↔ access.place < bytes.length := by
  cases access <;> simp [Inside, Bounds.ofSong, Extent.Contains, place]

end Access

/-- What was asked for, in order, and the result unless one of the bytes is past the end of the
song. -/
structure Logged (α : Type) where
  accesses : List Access
  result : Option α

namespace Logged

instance : Monad Logged where
  pure value := ⟨[], some value⟩
  bind first next :=
    match first.result with
    | none => ⟨first.accesses, none⟩
    | some value => ⟨first.accesses ++ (next value).accesses, (next value).result⟩

def look (bytes : List UInt8) (access : Access) : Logged UInt8 := ⟨[access], bytes[access.place]?⟩

theorem pure_def {α : Type} (value : α) : (pure value : Logged α) = ⟨[], some value⟩ := rfl

theorem bind_some {α β : Type} {first : Logged α} {value : α} (next : α → Logged β)
    (found : first.result = some value) :
    first >>= next = ⟨first.accesses ++ (next value).accesses, (next value).result⟩ := by
  simp only [bind, found]

theorem bind_none {α β : Type} {first : Logged α} (next : α → Logged β)
    (missing : first.result = none) : first >>= next = ⟨first.accesses, none⟩ := by
  simp only [bind, missing]

theorem look_bind {α : Type} {bytes : List UInt8} {access : Access} {byte : UInt8}
    (next : UInt8 → Logged α) (found : bytes[access.place]? = some byte) :
    look bytes access >>= next = ⟨access :: (next byte).accesses, (next byte).result⟩ :=
  bind_some next (show (look bytes access).result = some byte from found)

theorem mem_look_bind {α : Type} (bytes : List UInt8) (access : Access) (next : UInt8 → Logged α) :
    access ∈ (look bytes access >>= next).accesses := by
  cases found : (look bytes access).result with
  | none =>
    rw [bind_none next found]
    exact List.mem_singleton_self access
  | some byte =>
    rw [bind_some next found]
    exact List.mem_append_left _ (List.mem_singleton_self access)

/-- Whether a result is missing exactly if a byte past the end of the song was asked for. -/
def Founded {α : Type} (bytes : List UInt8) (logged : Logged α) : Prop :=
  logged.result = none ↔ ∃ access ∈ logged.accesses, bytes.length ≤ access.place

theorem founded_pure {α : Type} (bytes : List UInt8) (value : α) :
    (pure value : Logged α).Founded bytes := by
  simp [Founded, pure_def]

theorem founded_look (bytes : List UInt8) (access : Access) : (look bytes access).Founded bytes := by
  simp [Founded, look]

theorem founded_bind {α β : Type} {bytes : List UInt8} {first : Logged α} {next : α → Logged β}
    (founded : first.Founded bytes) (later : ∀ value, (next value).Founded bytes) :
    (first >>= next).Founded bytes := by
  unfold Founded at founded later ⊢
  cases found : first.result with
  | none =>
    rw [bind_none next found]
    simpa only [found] using founded
  | some value =>
    rw [bind_some next found]
    simp only [found, reduceCtorEq, false_iff] at founded
    constructor
    · intro missing
      obtain ⟨access, member, past⟩ := (later value).mp missing
      exact ⟨access, List.mem_append_right _ member, past⟩
    · rintro ⟨access, member, past⟩
      rcases List.mem_append.mp member with early | late
      · exact (founded ⟨access, early, past⟩).elim
      · exact (later value).mpr ⟨access, late, past⟩

end Logged

/-- A duration array being read that keeps the place of its next byte. -/
structure IndexedDurations where
  place : Nat
  running : Nat
  repeats : Nat

namespace IndexedDurations
open Logged

/-- The reader that holds the bytes from the same place to the end of an extent. -/
def toReader (bytes : List UInt8) (extent : Extent) (durations : IndexedDurations) : DurationReader :=
  ⟨extent.bytesFrom bytes durations.place, durations.running, durations.repeats⟩

def next (bytes : List UInt8) (durations : IndexedDurations) : Logged IndexedDurations :=
  if 0 < durations.repeats then pure { durations with repeats := durations.repeats - 1 }
  else do
    let first ← look bytes (.duration durations.place)
    let value := first.toNat
    if longBase ≤ value then do
      let low ← look bytes (.duration (durations.place + 1))
      pure { durations with
        place := durations.place + 2, running := value % 0x40 * 0x100 + low.toNat }
    else if repeatBase ≤ value then
      pure { durations with place := durations.place + 1, repeats := value - repeatBase }
    else pure { durations with place := durations.place + 1, running := value }

theorem founded_next (bytes : List UInt8) (durations : IndexedDurations) :
    (durations.next bytes).Founded bytes := by
  unfold next
  split
  · exact founded_pure bytes _
  · apply founded_bind (founded_look bytes _)
    intro first
    simp only
    split
    · exact founded_bind (founded_look bytes _) fun low => founded_pure bytes _
    · split <;> exact founded_pure bytes _

theorem next_toReader {bytes : List UInt8} {bounds : Bounds} (fit : bounds.Fit bytes)
    (durations : IndexedDurations) (started : bounds.durations.first ≤ durations.place) :
    (∃ after, (durations.next bytes).result = some after ∧
        (∀ access ∈ (durations.next bytes).accesses, access.Inside bounds) ∧
        bounds.durations.first ≤ after.place ∧
        (durations.toReader bytes bounds.durations).next? =
          some (after.toReader bytes bounds.durations)) ∨
      ((∃ access ∈ (durations.next bytes).accesses, ¬access.Inside bounds) ∧
        (durations.toReader bytes bounds.durations).next? = none) := by
  unfold next DurationReader.next? toReader
  by_cases repeating : 0 < durations.repeats
  · simp only [repeating, if_true]
    exact .inl ⟨_, rfl, by simp [pure_def], started, rfl⟩
  simp only [repeating, if_false]
  by_cases before : durations.place < bounds.durations.past
  · obtain ⟨first, found, split⟩ := Extent.bytesFrom_of_lt fit.2 before
    have inside : Access.Inside bounds (.duration durations.place) := ⟨started, before⟩
    rw [split, look_bind _ found]
    by_cases long : longBase ≤ first.toNat
    · simp only [long, if_true]
      by_cases beforeLow : durations.place + 1 < bounds.durations.past
      · obtain ⟨low, foundLow, splitLow⟩ := Extent.bytesFrom_of_lt fit.2 beforeLow
        have insideLow : Access.Inside bounds (.duration (durations.place + 1)) :=
          ⟨by omega, beforeLow⟩
        rw [splitLow, look_bind _ foundLow]
        exact .inl ⟨_, rfl, by simp [pure_def, inside, insideLow], by simp only; omega, rfl⟩
      · rw [Extent.bytesFrom_of_le bytes (Nat.le_of_not_lt beforeLow)]
        refine .inr ⟨⟨.duration (durations.place + 1), ?_, fun outside => beforeLow outside.2⟩, rfl⟩
        exact List.mem_cons_of_mem _ (mem_look_bind bytes _ _)
    · simp only [long, if_false]
      by_cases marks : repeatBase ≤ first.toNat
      · simp only [marks, if_true]
        exact .inl ⟨_, rfl, by simp [pure_def, inside], by simp only; omega, rfl⟩
      · simp only [marks, if_false]
        exact .inl ⟨_, rfl, by simp [pure_def, inside], by simp only; omega, rfl⟩
  · rw [Extent.bytesFrom_of_le bytes (Nat.le_of_not_lt before)]
    exact .inr ⟨⟨.duration durations.place, mem_look_bind bytes _ _, fun outside => before outside.2⟩,
      rfl⟩

end IndexedDurations

/-- A cursor that keeps the places in the song of its next note byte and its next duration byte. -/
structure IndexedCursor where
  notes : Option Nat
  durations : IndexedDurations
  pause : Nat
  note : Note
  left : Nat

namespace IndexedCursor
open Logged

def load (offset : Nat) (header : Header) : IndexedCursor :=
  { notes := some (offset + headerLength)
    durations := ⟨offset + header.durationOffset, 0, 0⟩
    pause := header.pause
    note := .rest
    left := 0 }

/-- The cursor that holds the bytes from the same places to the ends of some bounds. -/
def toCursor (bytes : List UInt8) (bounds : Bounds) (cursor : IndexedCursor) : Cursor :=
  { notes := cursor.notes.map fun place => bounds.notes.bytesFrom bytes place
    durations := cursor.durations.toReader bytes bounds.durations
    pause := cursor.pause
    note := cursor.note
    left := cursor.left }

/-- Whether a cursor has not yet to come to the start of some bounds. -/
def From (bounds : Bounds) (cursor : IndexedCursor) : Prop :=
  (∀ place ∈ cursor.notes, bounds.notes.first ≤ place) ∧
    bounds.durations.first ≤ cursor.durations.place

def begin (cursor : IndexedCursor) : Option Event × IndexedCursor :=
  (some ⟨cursor.note, cursor.left + 1⟩, cursor)

def playTimed (cursor : IndexedCursor) (place : Nat) (note : Note) (pauses : Bool)
    (durations : IndexedDurations) : IndexedCursor :=
  { cursor with
    notes := some place
    durations := { durations with
      running := if pauses then durations.running ||| pauseMark else durations.running }
    note
    left := durations.running }

def next (bytes : List UInt8) (cursor : IndexedCursor) : Logged (Option Event × IndexedCursor) :=
  match cursor.notes with
  | none => pure (none, cursor)
  | some place =>
    if cursor.durations.running.testBit pauseBit then
      pure (begin { cursor with
        durations.running := cursor.durations.running % pauseMark
        note := .rest
        left := cursor.pause })
    else do
      let byte ← look bytes (.note place)
      match NoteCode.ofByte byte with
      | .stop => pure (none, { cursor with notes := none, note := .rest })
      | .pause ticks =>
        pure (begin { cursor with notes := some (place + 1), note := .rest, left := ticks - 1 })
      | .timed note pauses => do
        let durations ← cursor.durations.next bytes
        pure (begin (cursor.playTimed (place + 1) note pauses durations))

theorem founded_next (bytes : List UInt8) (cursor : IndexedCursor) :
    (cursor.next bytes).Founded bytes := by
  unfold next
  split
  · exact founded_pure bytes _
  · split
    · exact founded_pure bytes _
    · apply founded_bind (founded_look bytes _)
      intro byte
      split
      · exact founded_pure bytes _
      · exact founded_pure bytes _
      · exact founded_bind (IndexedDurations.founded_next bytes _) fun _ => founded_pure bytes _

def toStep (bytes : List UInt8) (bounds : Bounds) : Option Event × IndexedCursor → Cursor.Step
  | (some event, after) => .event event (after.toCursor bytes bounds)
  | (none, after) => .finish (after.toCursor bytes bounds)

/-- Either the cursor within the bounds takes the same step, or a byte out of bounds is asked for and
the cursor runs out of bytes. -/
theorem next_toCursor {bytes : List UInt8} {bounds : Bounds} (fit : bounds.Fit bytes)
    (cursor : IndexedCursor) (started : cursor.From bounds) :
    (∃ result, (cursor.next bytes).result = some result ∧
        (∀ access ∈ (cursor.next bytes).accesses, access.Inside bounds) ∧
        result.2.From bounds ∧
        (cursor.toCursor bytes bounds).next = toStep bytes bounds result) ∨
      ((∃ access ∈ (cursor.next bytes).accesses, ¬access.Inside bounds) ∧
        (cursor.toCursor bytes bounds).next = .overrun) := by
  unfold next Cursor.next toCursor
  cases here : cursor.notes with
  | none => exact .inl ⟨_, rfl, by simp [pure_def], started, by simp [toStep, toCursor, here]⟩
  | some place =>
    have startedNotes : bounds.notes.first ≤ place := started.1 place here
    simp only [Option.map_some, IndexedDurations.toReader]
    by_cases pausing : cursor.durations.running.testBit pauseBit = true
    · simp only [pausing, if_true]
      refine .inl ⟨_, rfl, by simp [pure_def], ⟨by simpa [begin] using startedNotes, started.2⟩, ?_⟩
      simp [toStep, begin, toCursor, Cursor.begin, IndexedDurations.toReader]
    simp only [pausing, Bool.false_eq_true, if_false]
    by_cases before : place < bounds.notes.past
    · obtain ⟨byte, found, split⟩ := Extent.bytesFrom_of_lt fit.1 before
      have inside : Access.Inside bounds (.note place) := ⟨startedNotes, before⟩
      rw [split, look_bind _ found]
      simp only
      cases NoteCode.ofByte byte with
      | stop => exact .inl ⟨_, rfl, by simp [pure_def, inside], ⟨by simp, started.2⟩, rfl⟩
      | pause ticks =>
        refine .inl ⟨_, rfl, by simp [pure_def, inside], ⟨?_, started.2⟩, rfl⟩
        simp only [begin, Option.mem_some_iff, forall_eq']
        omega
      | timed note pauses =>
        simp only
        rcases IndexedDurations.next_toReader fit cursor.durations started.2 with
          ⟨after, result, insideDurations, startedAfter, same⟩ | ⟨⟨access, member, outside⟩, same⟩
        · simp only [IndexedDurations.toReader] at same
          rw [same, bind_some _ result]
          refine .inl ⟨_, rfl, ?_, ⟨?_, startedAfter⟩, rfl⟩
          · simp only [pure_def, List.append_nil, List.mem_cons, forall_eq_or_imp]
            exact ⟨inside, insideDurations⟩
          · simp only [begin, playTimed, Option.mem_some_iff, forall_eq']
            omega
        · simp only [IndexedDurations.toReader] at same
          rw [same]
          refine .inr ⟨⟨access, List.mem_cons_of_mem _ ?_, outside⟩, rfl⟩
          cases result : (cursor.durations.next bytes).result with
          | none => simpa only [bind_none _ result] using member
          | some after => simpa only [bind_some _ result] using List.mem_append_left _ member
    · rw [Extent.bytesFrom_of_le bytes (Nat.le_of_not_lt before)]
      exact .inr ⟨⟨.note place, mem_look_bind bytes _ _, fun outside => before outside.2⟩, rfl⟩

theorem next_toCursor_ofSong {bytes : List UInt8} {cursor : IndexedCursor}
    {result : Option Event × IndexedCursor} (found : (cursor.next bytes).result = some result) :
    (cursor.toCursor bytes (.ofSong bytes)).next = toStep bytes (.ofSong bytes) result := by
  have started : cursor.From (.ofSong bytes) := ⟨fun _ _ => Nat.zero_le _, Nat.zero_le _⟩
  rcases next_toCursor (Bounds.fit_ofSong bytes) cursor started with
    ⟨other, same, -, -, step⟩ | ⟨⟨access, member, outside⟩, -⟩
  · rw [found, Option.some.injEq] at same
    rw [same, step]
  · rw [Access.inside_ofSong, Nat.not_lt] at outside
    have missing := (founded_next bytes cursor).mpr ⟨access, member, outside⟩
    rw [found] at missing
    cases missing

theorem budget_after {bytes : List UInt8} {log : List Access} {cursor after : IndexedCursor}
    {event : Event} (step : cursor.next bytes = ⟨log, some (some event, after)⟩) :
    (after.toCursor bytes (.ofSong bytes)).budget < (cursor.toCursor bytes (.ofSong bytes)).budget := by
  have found : (cursor.next bytes).result = some (some event, after) := by rw [step]
  exact Cursor.budget_next (next_toCursor_ofSong found)

/-- The bytes that are asked for from here until the track ends, or until a byte is missing. -/
def accesses (bytes : List UInt8) (cursor : IndexedCursor) : List Access :=
  match _step : cursor.next bytes with
  | ⟨log, some (some _, after)⟩ => log ++ after.accesses bytes
  | ⟨log, _⟩ => log
termination_by (cursor.toCursor bytes (.ofSong bytes)).budget
decreasing_by exact budget_after _step

theorem accesses_event {bytes : List UInt8} {log : List Access} {cursor after : IndexedCursor}
    {event : Event} (step : cursor.next bytes = ⟨log, some (some event, after)⟩) :
    cursor.accesses bytes = log ++ after.accesses bytes := by
  rw [accesses]
  split
  next same =>
    rw [step] at same
    cases same
    rfl
  next different same =>
    rw [step] at same
    cases same
    exact (different _ _ rfl).elim

theorem accesses_last {bytes : List UInt8} {log : List Access} {cursor : IndexedCursor}
    {result : Option (Option Event × IndexedCursor)} (step : cursor.next bytes = ⟨log, result⟩)
    (last : ∀ event after, result = some (some event, after) → False) :
    cursor.accesses bytes = log := by
  rw [accesses]
  split
  next same =>
    rw [step] at same
    cases same
    exact (last _ _ rfl).elim
  next same =>
    rw [step] at same
    cases same
    rfl

/-- A cursor that holds only the bytes within some bounds is read to its end exactly if reading the
song itself never leaves the bounds. -/
theorem complete_iff_inside {bytes : List UInt8} {bounds : Bounds} (fit : bounds.Fit bytes)
    (cursor : IndexedCursor) (started : cursor.From bounds) :
    (cursor.toCursor bytes bounds).reading.complete = true ↔
      ∀ access ∈ cursor.accesses bytes, access.Inside bounds := by
  induction cursor using accesses.induct bytes with
  | case1 cursor log event after step ih =>
    rw [accesses_event step]
    have simulation := next_toCursor fit cursor started
    rw [step] at simulation
    rcases simulation with ⟨result, same, inside, startedAfter, next⟩ | ⟨⟨access, member, outside⟩, next⟩
    · cases same
      rw [Cursor.reading_event next, ih startedAfter]
      rw [List.forall_mem_append]
      exact (and_iff_right inside).symm
    · rw [Cursor.reading_overrun next]
      simp only [Bool.false_eq_true, false_iff]
      intro inside
      exact outside (inside access (List.mem_append_left _ member))
  | case2 cursor log result last step =>
    rw [accesses_last step last]
    have simulation := next_toCursor fit cursor started
    rw [step] at simulation
    rcases simulation with ⟨⟨_ | event, after⟩, same, inside, -, next⟩ | ⟨⟨access, member, outside⟩, next⟩
    · rw [Cursor.reading_finish next]
      simp only [true_iff]
      exact inside
    · exact (last event after same).elim
    · rw [Cursor.reading_overrun next]
      simp only [Bool.false_eq_true, false_iff]
      intro inside
      exact outside (inside access member)

end IndexedCursor

end Buzzer
