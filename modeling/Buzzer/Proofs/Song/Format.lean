import Buzzer.Proofs.Draft.Written
import Buzzer.Proofs.Song.Loading

/-!
What a block says when its two arrays are read apart. The duration array is expanded into one duration
for every note that takes one, and the note array is walked with that list at hand. A cursor reads both
arrays side by side and comes to the same events.
-/
namespace Buzzer

namespace Format

/-- The durations of a duration array in ticks, where `last` is the one before it. An entry that is cut
off gives nothing. -/
def durations (last : Nat) : List UInt8 → List Nat
  | [] => []
  | byte :: rest =>
    let value := byte.toNat
    if value < 0x80 then (value + 1) :: durations (value + 1) rest
    else if value < 0xc0 then List.replicate (value - 0x80 + 1) last ++ durations last rest
    else
      match rest with
      | [] => []
      | low :: rest =>
        let ticks := value % 0x40 * 0x100 + low.toNat + 1
        ticks :: durations ticks rest

/-- The note of a byte that takes a duration. -/
def noteOf (value : Nat) : Note :=
  if value = 0x54 ∨ value = 0xa9 then .rest
  else if value < 0x55 then .tone value
  else .tone (value - 0x55)

/-- The events of a note array whose notes take durations in order, in a block with a pause. There are
none if the durations run out or the array does not end. -/
def events? (pause : Nat) : (notes : List UInt8) → (durations : List Nat) → Option (List Event)
  | [], _ => none
  | byte :: notes, durations =>
    let value := byte.toNat
    if value = 0xff then some []
    else if 0xaa ≤ value then (events? pause notes durations).map (⟨.rest, value - 0xa9⟩ :: ·)
    else
      match durations with
      | [] => none
      | ticks :: durations =>
        let now :=
          if value < 0x55 then [⟨noteOf value, ticks⟩] else [⟨noteOf value, ticks⟩, ⟨.rest, pause⟩]
        (events? pause notes durations).map (now ++ ·)

/-- The events of the block that `rest` starts with. -/
def read? (header : Header) (rest : List UInt8) : Option (List Event) :=
  let block := rest.take header.length
  events? (header.pause + 1) ((block.take header.durationOffset).drop headerLength)
    (durations 1 (block.drop header.durationOffset))

end Format

namespace DurationReader

/-- The durations that a reader still has for the notes to come. -/
def remaining (reader : DurationReader) : List Nat :=
  List.replicate reader.repeats (reader.running + 1) ++
    Format.durations (reader.running + 1) reader.bytes

/-- A reader takes the remaining durations one by one, until none are left. -/
theorem remaining_next (reader : DurationReader) :
    match reader.next? with
    | none => reader.remaining = []
    | some after => reader.remaining = (after.running + 1) :: after.remaining := by
  obtain ⟨bytes, running, repeats⟩ := reader
  unfold next? remaining
  cases repeats with
  | succ repeats => simp [List.replicate_succ]
  | zero =>
    simp only [Nat.lt_irrefl, if_false, List.replicate_zero, List.nil_append]
    cases bytes with
    | nil => rfl
    | cons byte rest =>
      rw [Format.durations.eq_def]
      simp only [longBase, repeatBase]
      by_cases long : 0xc0 ≤ byte.toNat
      · have notShort : ¬byte.toNat < 0x80 := by omega
        have notMark : ¬byte.toNat < 0xc0 := by omega
        simp only [long, notShort, notMark, if_true, if_false]
        cases rest with
        | nil => rfl
        | cons low rest => rfl
      · by_cases marks : 0x80 ≤ byte.toNat
        · have notShort : ¬byte.toNat < 0x80 := by omega
          have mark : byte.toNat < 0xc0 := by omega
          simp only [long, marks, notShort, mark, if_true, if_false]
          rfl
        · have short : byte.toNat < 0x80 := by omega
          simp only [long, marks, short, if_true, if_false]
          rfl

/-- Durations leave room for the mark of a pause. -/
theorem running_next {reader after : DurationReader} (small : reader.running < maxDuration)
    (step : reader.next? = some after) : after.running < maxDuration := by
  unfold next? at step
  split at step
  · cases step
    exact small
  · split at step
    · cases step
    next first others _ =>
      simp only at step
      split at step
      · split at step
        · cases step
        next low _ _ =>
          cases step
          have lowSmall := low.toNat_lt
          simp only [maxDuration]
          omega
      next notLong =>
        split at step
        · cases step
          exact small
        next notMark =>
          cases step
          simp only [repeatBase, maxDuration] at notMark ⊢
          omega

end DurationReader

/-- A byte stands for the code that the format gives it. -/
theorem NoteCode.ofByte_eq (byte : UInt8) :
    ofByte byte =
      if byte.toNat = 0xff then stop
      else if 0xaa ≤ byte.toNat then pause (byte.toNat - 0xaa + 1)
      else timed (Format.noteOf byte.toNat) (0x55 ≤ byte.toNat) := by
  unfold ofByte Format.noteOf noteAt
  simp only [stopByte, pauseBase, pausesBase, restIndex]
  by_cases stops : byte.toNat = 0xff
  · simp only [stops, if_true]
  by_cases inline : 0xaa ≤ byte.toNat
  · simp only [stops, inline, if_false, if_true]
  simp only [stops, inline, if_false]
  by_cases plain : byte.toNat < 0x55
  · have notPauses : ¬0x55 ≤ byte.toNat := by omega
    have notLast : byte.toNat ≠ 0xa9 := by omega
    by_cases silent : byte.toNat = 0x54
    · simp [silent]
    · simp [silent, plain, notPauses, notLast]
  · have pauses : 0x55 ≤ byte.toNat := by omega
    have notFirst : byte.toNat ≠ 0x54 := by omega
    by_cases silent : byte.toNat = 0xa9
    · simp [silent]
    · have tone : byte.toNat - 0x55 ≠ 0x54 := by omega
      simp [silent, plain, pauses, notFirst, tone]

theorem lt_pauseMark {running : Nat} (small : running < maxDuration) : running < pauseMark :=
  Nat.lt_trans small (by decide)

namespace Cursor

/-- The events of a reading that came to the end of the track. -/
def Reading.whole? (reading : Reading) : Option (List Event) :=
  if reading.complete then some reading.events else none

theorem whole?_event {cursor after : Cursor} {event : Event} (step : cursor.next = .event event after) :
    cursor.reading.whole? = after.reading.whole?.map (event :: ·) := by
  rw [reading_event step]
  unfold Reading.whole?
  cases after.reading.complete <;> rfl

theorem whole?_overrun {cursor : Cursor} (step : cursor.next = .overrun) :
    cursor.reading.whole? = none := by
  rw [reading_overrun step]
  rfl

section

variable (cursor : Cursor) (rest : List UInt8) (note : Note)

theorem testBit_inNote (after : DurationReader) :
    (cursor.inNote rest note true after).durations.running.testBit pauseBit = true :=
  testBit_or_pauseMark after.running

/-- The pause after a note takes its mark out of the running duration. -/
theorem durations_inPause {after : DurationReader} (small : after.running < maxDuration) :
    (cursor.inNote rest note true after).inPause.durations = after := by
  simp only [inPause, inNote, if_true, or_pauseMark_mod (lt_pauseMark small)]

end

/-- A cursor that holds nothing but its two arrays reads what they say apart. -/
theorem whole?_eq_events? (notes : List UInt8) {cursor : Cursor} (here : cursor.notes = some notes)
    (small : cursor.durations.running < maxDuration) :
    cursor.reading.whole? = Format.events? (cursor.pause + 1) notes cursor.durations.remaining := by
  induction notes generalizing cursor with
  | nil =>
    rw [whole?_overrun (next_nil here (testBit_of_lt_pauseMark (lt_pauseMark small)))]
    rfl
  | cons byte rest ih =>
    have playing := testBit_of_lt_pauseMark (lt_pauseMark small)
    have code := NoteCode.ofByte_eq byte
    rw [Format.events?.eq_def]
    simp only
    by_cases stops : byte.toNat = 0xff
    · rw [if_pos stops] at code
      rw [reading_finish (next_stop here playing code), if_pos stops]
      rfl
    rw [if_neg stops] at code ⊢
    by_cases inline : 0xaa ≤ byte.toNat
    · rw [if_pos inline] at code
      rw [whole?_event (next_pause here playing code), if_pos inline,
        @ih (cursor.inRest rest _) rfl small]
      have ticks : byte.toNat - 0xaa + 1 - 1 + 1 = byte.toNat - 0xa9 := by omega
      rw [ticks]
      rfl
    rw [if_neg inline] at code ⊢
    have taken := cursor.durations.remaining_next
    cases found : cursor.durations.next? with
    | none =>
      rw [found] at taken
      rw [whole?_overrun (next_starved here playing code found), taken]
    | some after =>
      rw [found] at taken
      simp only at taken
      have smallAfter := DurationReader.running_next small found
      rw [whole?_event (next_timed here playing code found), taken]
      by_cases plain : byte.toNat < 0x55
      · have pauses : decide (0x55 ≤ byte.toNat) = false := by simpa using plain
        rw [pauses, @ih (cursor.inNote rest _ false after) rfl smallAfter]
        simp only [plain, if_true]
        rfl
      · have pauses : decide (0x55 ≤ byte.toNat) = true := by simpa using plain
        have restored := cursor.durations_inPause rest (Format.noteOf byte.toNat) smallAfter
        rw [pauses, whole?_event (next_pausing rfl (cursor.testBit_inNote rest _ after)),
          @ih (inPause _) rfl (by rwa [restored]), restored, Option.map_map]
        simp only [plain, if_false]
        rfl

end Cursor

namespace IndexedCursor

variable {bytes : List UInt8} {cursor : IndexedCursor}

theorem next_of_inside {bounds : Bounds} (fit : bounds.Fit bytes) (started : cursor.From bounds)
    (inside : ∀ access ∈ (cursor.next bytes).accesses, access.Inside bounds) :
    ∃ result, (cursor.next bytes).result = some result ∧ result.2.From bounds ∧
      (cursor.toCursor bytes bounds).next = toStep bytes bounds result := by
  rcases next_toCursor fit cursor started with
    ⟨result, found, -, startedAfter, step⟩ | ⟨⟨access, member, outside⟩, -⟩
  · exact ⟨result, found, startedAfter, step⟩
  · exact (outside (inside access member)).elim

/-- Bounds that a track is never read outside make no difference to its reading. -/
theorem reading_of_inside {first second : Bounds} (fitFirst : first.Fit bytes)
    (fitSecond : second.Fit bytes) (cursor : IndexedCursor) (startedFirst : cursor.From first)
    (startedSecond : cursor.From second)
    (insideFirst : ∀ access ∈ cursor.accesses bytes, access.Inside first)
    (insideSecond : ∀ access ∈ cursor.accesses bytes, access.Inside second) :
    (cursor.toCursor bytes first).reading = (cursor.toCursor bytes second).reading := by
  induction cursor using accesses.induct bytes with
  | case1 cursor log event after step ih =>
    rw [accesses_event step, List.forall_mem_append] at insideFirst insideSecond
    obtain ⟨result, found, laterFirst, nextFirst⟩ :=
      next_of_inside fitFirst startedFirst (by rw [step]; exact insideFirst.1)
    obtain ⟨other, same, laterSecond, nextSecond⟩ :=
      next_of_inside fitSecond startedSecond (by rw [step]; exact insideSecond.1)
    rw [step] at found same
    cases found
    cases same
    rw [Cursor.reading_event nextFirst, Cursor.reading_event nextSecond,
      ih laterFirst laterSecond insideFirst.2 insideSecond.2]
  | case2 cursor log result last step =>
    rw [accesses_last step last] at insideFirst insideSecond
    obtain ⟨⟨event, after⟩, found, -, nextFirst⟩ :=
      next_of_inside fitFirst startedFirst (by rw [step]; exact insideFirst)
    obtain ⟨other, same, -, nextSecond⟩ :=
      next_of_inside fitSecond startedSecond (by rw [step]; exact insideSecond)
    rw [step] at found same
    cases found
    cases same
    cases event with
    | none => rw [Cursor.reading_finish nextFirst, Cursor.reading_finish nextSecond]
    | some event => exact (last event after rfl).elim

end IndexedCursor

namespace SoundBlock

variable {bytes : List UInt8} {offset : Nat} {header : Header}

/-- A sound block says what is read from it when the song is played. -/
theorem read?_eq_reading (block : SoundBlock bytes offset header) :
    Format.read? header (bytes.drop offset) =
      some ((IndexedCursor.load offset header).toCursor bytes (.ofSong bytes)).reading.events := by
  have started := from_load offset header
  have startedSong : (IndexedCursor.load offset header).From (.ofSong bytes) :=
    ⟨fun _ _ => Nat.zero_le _, Nat.zero_le _⟩
  have fits := fit block.fits block.ordered
  have insideSong : ∀ access ∈ (IndexedCursor.load offset header).accesses bytes,
      access.Inside (.ofSong bytes) :=
    fun access member => (Access.inside_ofSong bytes access).mpr (block.place_lt access member)
  have complete := (IndexedCursor.complete_iff_inside fits _ started).mpr block.confined
  have fresh : ((IndexedCursor.load offset header).toCursor bytes
      (.ofBlock offset header)).durations.running < maxDuration := Nat.zero_lt_of_ne_zero (by decide)
  have whole := Cursor.whole?_eq_events? _ rfl fresh
  rw [← IndexedCursor.reading_of_inside fits (Bounds.fit_ofSong bytes) _ started startedSong
    block.confined insideSong]
  rw [Cursor.Reading.whole?, if_pos complete] at whole
  rw [whole, Format.read?, (bytesFrom_ofBlock bytes offset header block.ordered).1,
    (bytesFrom_ofBlock bytes offset header block.ordered).2]
  rfl

end SoundBlock

namespace Song

theorem read?_of_mem {bytes : List UInt8} {song : Song} (loaded : ofBytes bytes = .ok song)
    {block : Block} (member : block ∈ song.blocks) {header : Header}
    (sound : SoundBlock bytes block.offset header)
    (same : block = ⟨header.channel, block.offset, bytes.drop block.offset⟩) :
    Format.read? header block.bytes = some (song.reading block.channel).events := by
  have loads := sound.cursor?_eq_load
  rw [← same] at loads
  rw [reading_of_mem loaded member loads, same]
  exact sound.read?_eq_reading

/-- The events of a channel of a loaded song are what its block says when the duration array is expanded
on its own and the notes take the durations in order. -/
theorem events_eq_format {bytes : List UInt8} {song : Song} (loaded : ofBytes bytes = .ok song) :
    ∀ block ∈ song.blocks, ∃ header, Header.read? block.bytes = some header ∧
      Format.read? header block.bytes = some (song.reading block.channel).events := by
  intro block member
  obtain ⟨-, -, -, all⟩ := blocks_of_loaded loaded
  obtain ⟨header, sound, same⟩ := all block member
  refine ⟨header, ?_, read?_of_mem loaded member sound same⟩
  rw [same]
  exact sound.read

/-- A song with one track that has every kind of entry in both arrays, and one duration cut off. -/
def everyEntry : List UInt8 :=
  [0x10, 0x00, 0x11, 0x00, 0x0c, 0x00, 0x02, 0x05, 0xab, 0x71, 0x54, 0xa9, 0xff,
    0x03, 0x81, 0xc1, 0x00, 0xc0]

theorem events_of_everyEntry :
    ofBytes everyEntry = .ok ⟨everyEntry⟩ ∧ ((⟨everyEntry⟩ : Song).reading 0).events =
      [⟨.tone 5, 4⟩, ⟨.rest, 2⟩, ⟨.tone 28, 4⟩, ⟨.rest, 3⟩, ⟨.rest, 4⟩, ⟨.rest, 257⟩, ⟨.rest, 3⟩] := by
  have loaded : ofBytes everyEntry = .ok ⟨everyEntry⟩ := by cbv
  have member : ⟨0, 1, everyEntry.drop 1⟩ ∈ (⟨everyEntry⟩ : Song).blocks := by
    have blocks : (⟨everyEntry⟩ : Song).blocks = [⟨0, 1, everyEntry.drop 1⟩] := by cbv
    rw [blocks]
    exact List.mem_singleton_self _
  refine ⟨loaded, ?_⟩
  obtain ⟨header, read, meaning⟩ := events_eq_format loaded _ member
  cases read
  exact Option.some.inj (meaning.symm.trans (by decide))

end Song

end Buzzer
