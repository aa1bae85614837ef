import Buzzer.Proofs.Song.Playable

/-!
Songs that have not been checked. Whatever the bytes are, the walk over the blocks moves on with every block,
and a track comes to a stop byte or to the end of the bytes after at most two events for every byte. What it
plays until then are events that a track can hold.
-/
namespace Buzzer

namespace Cursor

/-- Steps that lead from one cursor to another, with the events that they come to. -/
inductive Run : Cursor → List Event → Cursor → Prop where
  | nil (cursor) : Run cursor [] cursor
  | cons {cursor after last event later} (step : cursor.next = .event event after)
      (rest : Run after later last) : Run cursor (event :: later) last

/-- Whether the next byte of a track is its stop byte, and the track ends with it. -/
def AtStop (cursor : Cursor) : Prop :=
  ∃ rest after, cursor.notes = some (0xff :: rest) ∧ cursor.next = .finish after

section Runs

variable {cursor last : Cursor} {events : List Event}

/-- Every event of a run is paid for by the bytes that are left. -/
theorem Run.length_le (run : Run cursor events last) : events.length + last.budget ≤ cursor.budget := by
  induction run with
  | nil cursor => exact Nat.le_of_eq (Nat.zero_add _)
  | cons step _ ih =>
    have paid := budget_next step
    rw [List.length_cons]
    omega

/-- A run comes to nothing but events that a track can hold, and leaves the running duration in range. -/
theorem Run.playable (run : Run cursor events last) (bounded : cursor.Bounded) :
    (∀ event ∈ events, event.Playable) ∧ last.Bounded := by
  induction run with
  | nil cursor => exact ⟨nofun, bounded⟩
  | cons step _ ih =>
    obtain ⟨playable, boundedAfter⟩ := playable_next bounded step
    obtain ⟨others, boundedLast⟩ := ih boundedAfter
    exact ⟨List.forall_mem_cons.mpr ⟨playable, others⟩, boundedLast⟩

theorem atStop_of_finish {after : Cursor} (playing : cursor.isEnded = false)
    (step : cursor.next = .finish after) : cursor.AtStop := by
  have takes := cursor.takes_next
  rw [step] at takes
  cases takes with
  | ended here => simp [isEnded, here] at playing
  | @stop byte rest here _ code =>
    have same : byte = 0xff := by
      rw [← NoteCode.toByte_ofByte byte, code]
      rfl
    exact ⟨rest, _, by rw [here, same], step⟩

/-- The events of a reading come from a run up to the place where nothing more can be read. -/
theorem run_reading (cursor : Cursor) (playing : cursor.isEnded = false) :
    ∃ last, Run cursor cursor.reading.events last ∧
      (cursor.reading.complete = true ∧ last.AtStop ∨
        cursor.reading.complete = false ∧ last.next = .overrun) := by
  induction cursor using reading.induct with
  | case1 cursor event after step ih =>
    obtain ⟨last, run, ends⟩ := ih (event_of_next step).1
    rw [reading_event step]
    exact ⟨last, .cons step run, ends⟩
  | case2 cursor after step =>
    rw [reading_finish step]
    exact ⟨cursor, .nil cursor, .inl ⟨rfl, atStop_of_finish playing step⟩⟩
  | case3 cursor step =>
    rw [reading_overrun step]
    exact ⟨cursor, .nil cursor, .inr ⟨rfl, step⟩⟩

end Runs

theorem budget_of_cursor? {block : Block} {cursor : Cursor} (loads : block.cursor? = some cursor) :
    cursor.budget ≤ 2 * block.bytes.length := by
  obtain ⟨header, -, rfl⟩ := Option.map_eq_some_iff.mp loads
  simp only [budget, List.length_drop, Nat.zero_testBit, Bool.toNat_false]
  omega

end Cursor

namespace Song

/-- The walk over the blocks moves on with every block, and ends with the bytes at the latest. -/
theorem walk_blocksFrom (bytes : List UInt8) (offset : Nat) :
    (blocksFrom offset (bytes.drop offset)).length ≤ bytes.length - offset ∧
      ((blocksFrom offset (bytes.drop offset)).map Block.offset).Pairwise (· < ·) ∧
      ∀ block ∈ blocksFrom offset (bytes.drop offset), offset ≤ block.offset ∧
        block.offset < bytes.length ∧ block.bytes = bytes.drop block.offset := by
  generalize here : bytes.drop offset = rest
  induction offset, rest using blocksFrom.induct with
  | case1 offset low high tail =>
    rw [blocksFrom_songEnd]
    exact ⟨Nat.zero_le _, .nil, nofun⟩
  | case2 offset channel low high tail opens length none =>
    rw [blocksFrom, if_neg opens, dif_pos none]
    exact ⟨Nat.zero_le _, .nil, nofun⟩
  | case3 offset channel low high tail opens length some ih =>
    have inside : offset < bytes.length := by
      have sizes := congrArg List.length here
      rw [List.length_drop, List.length_cons] at sizes
      omega
    obtain ⟨few, ordered, later⟩ := ih (by rw [← here, List.drop_drop])
    have moved : length = word low high := rfl
    rw [blocksFrom, if_neg opens, dif_neg some, ← moved]
    refine ⟨?_, ?_, ?_⟩
    · rw [List.length_cons]
      omega
    · rw [List.map_cons, List.pairwise_cons]
      refine ⟨?_, ordered⟩
      intro other member
      obtain ⟨block, among, rfl⟩ := List.mem_map.mp member
      have after := (later block among).1
      show offset < block.offset
      omega
    · rw [List.forall_mem_cons]
      refine ⟨⟨Nat.le_refl _, inside, here.symm⟩, ?_⟩
      intro block among
      obtain ⟨after, others⟩ := later block among
      exact ⟨by omega, others⟩
  | case4 offset rest short =>
    rw [blocksFrom]
    · exact ⟨Nat.zero_le _, .nil, nofun⟩
    · exact short

/-- Whatever its bytes are, a song has no more blocks than bytes, one behind the other. A block whose header is
within the bytes is read up to a stop byte or up to a byte past the end. By then it has come to at most two
events for every byte of the song, each of which a track can hold, and the mark of a pause has stayed out of
their lengths. -/
theorem unchecked_tracks_stop (bytes : List UInt8) :
    (⟨bytes⟩ : Song).blocks.length ≤ bytes.length ∧
      ((⟨bytes⟩ : Song).blocks.map Block.offset).Pairwise (· < ·) ∧
      ∀ block ∈ (⟨bytes⟩ : Song).blocks, block.offset < bytes.length ∧
        block.bytes = bytes.drop block.offset ∧
        (block.cursor? = none ↔ bytes.length < block.offset + headerLength) ∧
        ∀ cursor, block.cursor? = some cursor →
          (∃ last, cursor.Run cursor.reading.events last ∧
            (cursor.reading.complete = true ∧ last.AtStop ∨
              cursor.reading.complete = false ∧ last.next = .overrun)) ∧
          (∀ header, Header.read? block.bytes = some header →
            (cursor.reading.complete = false ↔
              ∃ access ∈ (IndexedCursor.load block.offset header).accesses bytes,
                bytes.length ≤ access.place)) ∧
          ∀ events last, cursor.Run events last → events.length ≤ 2 * bytes.length ∧
            (∀ event ∈ events, event.Playable) ∧ last.Bounded := by
  obtain ⟨few, ordered, placed⟩ := walk_blocksFrom bytes 1
  refine ⟨Nat.le_trans few (Nat.sub_le _ _), ordered, ?_⟩
  rintro ⟨channel, offset, rest⟩ member
  obtain ⟨-, inside, same⟩ := placed _ member
  simp only at inside same
  subst same
  refine ⟨inside, rfl, ?_, ?_⟩
  · rw [Block.cursor?, Option.map_eq_none_iff, Header.read?_eq_none_iff, List.length_drop]
    simp only
    omega
  · intro cursor loads
    have bounded := Cursor.bounded_of_cursor? loads
    obtain ⟨header, read, start⟩ := Option.map_eq_some_iff.mp loads
    refine ⟨cursor.run_reading (start ▸ rfl), ?_, ?_⟩
    · intro other found
      cases read.symm.trans found
      have same := (IndexedCursor.cursor?_of_read? read channel).symm.trans loads
      rw [← Option.some.inj same, ← Bool.not_eq_true, IndexedCursor.complete_ofSong_iff]
      simp only [Classical.not_forall, Nat.not_lt, exists_prop]
    · intro events last run
      obtain ⟨playable, boundedLast⟩ := run.playable bounded
      have paid := run.length_le
      have budget := Cursor.budget_of_cursor? loads
      rw [List.length_drop] at budget
      exact ⟨by omega, playable, boundedLast⟩

/-- Two blocks of which the second starts within the first. Its note array is its duration array as well, and has
no end. -/
def overlapping : List UInt8 := [0, 0, 3, 0, 1, 8, 0, 7, 0, 4, 0x59, 0xab, 5]

theorem overlapping_runs_out :
    (⟨overlapping⟩ : Song).blocks.map Block.offset = [1, 4] ∧
      ∃ cursor last, Block.cursor? ⟨1, 4, overlapping.drop 4⟩ = some cursor ∧
        cursor.Run [⟨.tone 4, 1⟩, ⟨.rest, 5⟩, ⟨.rest, 2⟩, ⟨.tone 5, 1⟩] last ∧ last.next = .overrun := by
  have blocks : (⟨overlapping⟩ : Song).blocks =
      [⟨0, 1, overlapping.drop 1⟩, ⟨1, 4, overlapping.drop 4⟩] := by
    cbv
  have member : ⟨1, 4, overlapping.drop 4⟩ ∈ (⟨overlapping⟩ : Song).blocks := by
    rw [blocks]
    exact List.mem_cons_of_mem _ List.mem_cons_self
  obtain ⟨-, -, stops⟩ := unchecked_tracks_stop overlapping
  obtain ⟨-, -, -, tracks⟩ := stops _ member
  obtain ⟨cursor, loads⟩ : ∃ cursor, Block.cursor? ⟨1, 4, overlapping.drop 4⟩ = some cursor := ⟨_, rfl⟩
  have reads : cursor.reading = ⟨[⟨.tone 4, 1⟩, ⟨.rest, 5⟩, ⟨.rest, 2⟩, ⟨.tone 5, 1⟩], false⟩ := by
    cases loads
    cbv
  obtain ⟨⟨last, run, ends⟩, -, -⟩ := tracks cursor loads
  rw [reads] at run ends
  refine ⟨by rw [blocks]; rfl, cursor, last, loads, run, ?_⟩
  rcases ends with ⟨complete, -⟩ | ⟨-, overruns⟩
  · cases complete
  · exact overruns

end Song

end Buzzer
