import Mathlib
import Buzzer.Proofs.Playback.Schedule

/-!
Playing a loaded song for any number of ticks. Every channel stays in time with its own events, so a
tick tells a listener what is scheduled for it on every channel, and it always finds the bytes it needs.
-/
namespace Buzzer

namespace Song

/-- The events of the channel of a number, if it has a block. -/
def part? (song : Song) (channel : Nat) : Option (List Event) :=
  (song.channels.find? (·.toNat = channel)).map fun channel => (song.reading channel).events

theorem part?_of_mem {song : Song} {channel : UInt8} (present : channel ∈ song.channels) :
    song.part? channel.toNat = some (song.reading channel).events := by
  unfold part?
  cases found : song.channels.find? (·.toNat = channel.toNat) with
  | none =>
    have absent := List.find?_eq_none.mp found channel present
    simp at absent
  | some other =>
    have same : other.toNat = channel.toNat := by simpa using List.find?_some found
    rw [UInt8.toNat_inj.mp same, Option.map_some]

theorem part?_of_not_mem {song : Song} {number : Nat}
    (absent : ∀ channel ∈ song.channels, channel.toNat ≠ number) : song.part? number = none := by
  have none : song.channels.find? (·.toNat = number) = none := by
    rw [List.find?_eq_none]
    intro channel member
    simpa using absent channel member
  rw [part?, none, Option.map_none]

theorem mem_of_part? {song : Song} {number : Nat} {events : List Event}
    (part : song.part? number = some events) :
    ∃ channel ∈ song.channels, channel.toNat = number ∧ (song.reading channel).events = events := by
  obtain ⟨channel, found, reads⟩ := Option.map_eq_some_iff.mp part
  have same : channel.toNat = number := by simpa using List.find?_some found
  exact ⟨channel, List.mem_of_find?_eq_some found, same, reads⟩

end Song

namespace Playback

/-- The playback after some ticks, unless one of them needs a byte past the end of the song. -/
def after (playback : Playback) : (ticks : Nat) → Option Playback
  | 0 => some playback
  | ticks + 1 => do
    let before ← playback.after ticks
    return (← before.tick).next

def InTime (part : Option (List Event)) (elapsed : Nat) (cursor : Cursor) : Prop :=
  match part with
  | none => cursor.isEnded = true
  | some events => (∀ event ∈ events, 0 < event.ticks) ∧ cursor.Due events elapsed

def IsScheduled (parts : Nat → Option (List Event)) (tick : Nat) (change : Change) : Prop :=
  ∃ events, parts change.channel = some events ∧ change.Scheduled events tick

theorem tick_inTime {parts : Nat → Option (List Event)} {channel elapsed : Nat} {cursor : Cursor}
    (seated : InTime (parts channel) elapsed cursor) :
    ∃ next changes, cursor.tick channel = some (next, changes) ∧
      InTime (parts channel) (elapsed + 1) next ∧ changes.length ≤ 1 ∧
      ∀ change, change ∈ changes ↔ change.channel = channel ∧ IsScheduled parts elapsed change := by
  unfold InTime at seated ⊢
  cases part : parts channel with
  | none =>
    simp only [part] at seated ⊢
    refine ⟨cursor, [], by simp only [Cursor.tick, seated, if_true], seated, Nat.zero_le _, ?_⟩
    intro change
    simp only [List.not_mem_nil, false_iff]
    rintro ⟨rfl, events, found, -⟩
    rw [part] at found
    cases found
  | some events =>
    simp only [part] at seated ⊢
    obtain ⟨lasting, due⟩ := seated
    obtain ⟨next, changes, step, later, told⟩ := Cursor.tick_due lasting due channel
    refine ⟨next, changes, step, ⟨lasting, later⟩, told.few, ?_⟩
    intro change
    rw [told.scheduled change]
    constructor
    · rintro ⟨rfl, scheduled⟩
      exact ⟨rfl, events, part, scheduled⟩
    · rintro ⟨rfl, other, found, scheduled⟩
      rw [part, Option.some.injEq] at found
      exact ⟨rfl, found ▸ scheduled⟩

private theorem pairwise_of_length_le_one {changes : List Change} (few : changes.length ≤ 1) :
    (changes.map Change.channel).Pairwise (· < ·) := by
  match changes, few with
  | [], _ => exact List.Pairwise.nil
  | [change], _ => exact List.pairwise_singleton _ _

theorem forall_cursor_cons {P : Nat → Cursor → Prop} {first : Nat} {cursor : Cursor}
    {cursors : List Cursor} (start : P first cursor)
    (others : ∀ index other, cursors[index]? = some other → P (first + 1 + index) other) :
    ∀ index other, (cursor :: cursors)[index]? = some other → P (first + index) other := by
  intro index other here
  cases index with
  | zero =>
    cases here
    exact start
  | succ index =>
    rw [Nat.add_comm index 1, ← Nat.add_assoc]
    exact others index other here

/-- A tick of the channels from `first` on tells what is scheduled for them, in their order. -/
theorem tickFrom_inTime {parts : Nat → Option (List Event)} {elapsed : Nat} (cursors : List Cursor)
    (first : Nat)
    (seated : ∀ index cursor, cursors[index]? = some cursor →
      InTime (parts (first + index)) elapsed cursor) :
    ∃ nexts changes, tickFrom first cursors = some (nexts, changes) ∧
      nexts.length = cursors.length ∧
      (∀ index next, nexts[index]? = some next → InTime (parts (first + index)) (elapsed + 1) next) ∧
      (changes.map Change.channel).Pairwise (· < ·) ∧
      ∀ change, change ∈ changes ↔
        (first ≤ change.channel ∧ change.channel < first + cursors.length) ∧
          IsScheduled parts elapsed change := by
  induction cursors generalizing first with
  | nil =>
    refine ⟨[], [], rfl, rfl, by simp, List.Pairwise.nil, ?_⟩
    intro change
    simp only [List.not_mem_nil, List.length_nil, false_iff]
    omega
  | cons cursor cursors ih =>
    obtain ⟨next, now, step, later, few, toldNow⟩ :=
      @tick_inTime parts first elapsed cursor (seated 0 cursor rfl)
    obtain ⟨nexts, others, steps, length, laters, ordered, told⟩ := ih (first + 1) (by
      intro index other found
      rw [Nat.add_right_comm, Nat.add_assoc]
      exact seated (index + 1) other found)
    refine ⟨next :: nexts, now ++ others, ?_, by simp [length], ?_, ?_, ?_⟩
    · simp only [tickFrom, step, steps, Option.bind_eq_bind, Option.bind_some, Option.pure_def]
    · exact forall_cursor_cons (P := fun number => InTime (parts number) (elapsed + 1)) later laters
    · rw [List.map_append, List.pairwise_append]
      refine ⟨pairwise_of_length_le_one few, ordered, ?_⟩
      intro before memberBefore after memberAfter
      obtain ⟨change, member, rfl⟩ := List.mem_map.mp memberBefore
      obtain ⟨other, among, rfl⟩ := List.mem_map.mp memberAfter
      have here := ((toldNow change).mp member).1
      have there := ((told other).mp among).1.1
      omega
    · intro change
      rw [List.mem_append, toldNow change, told change, List.length_cons]
      constructor
      · rintro (⟨here, scheduled⟩ | ⟨there, scheduled⟩)
        · exact ⟨by omega, scheduled⟩
        · exact ⟨by omega, scheduled⟩
      · rintro ⟨inside, scheduled⟩
        by_cases here : change.channel = first
        · exact .inl ⟨here, scheduled⟩
        · exact .inr ⟨by omega, scheduled⟩

/-- Whether every channel of a playback stands where it has to after some ticks. -/
structure OnTime (parts : Nat → Option (List Event)) (count elapsed : Nat) (playback : Playback) :
    Prop where
  length : playback.tracks.length = count
  inTime : ∀ channel cursor, playback.tracks[channel]? = some cursor →
    InTime (parts channel) elapsed cursor

theorem isPlaying_iff {parts : Nat → Option (List Event)} {count elapsed : Nat} {playback : Playback}
    (onTime : OnTime parts count elapsed playback) :
    playback.isPlaying = true ↔
      ∃ channel < count, ∃ events, parts channel = some events ∧ elapsed ≤ Event.total events := by
  unfold isPlaying
  rw [List.any_eq_true]
  constructor
  · rintro ⟨cursor, member, plays⟩
    obtain ⟨channel, inside, here⟩ := List.getElem_of_mem member
    have seated := onTime.inTime channel cursor (by rw [List.getElem?_eq_getElem inside, here])
    refine ⟨channel, onTime.length ▸ inside, ?_⟩
    unfold InTime at seated
    cases part : parts channel with
    | none =>
      simp only [part] at seated
      simp [seated] at plays
    | some events =>
      simp only [part] at seated
      refine ⟨events, rfl, ?_⟩
      cases seated.2 with
      | playing begun within _ _ time _ =>
        have := Event.onset_le_total within
        omega
      | done ended _ => simp [ended] at plays
  · rintro ⟨channel, inside, events, part, before⟩
    have within : channel < playback.tracks.length := onTime.length ▸ inside
    have seated := onTime.inTime channel _ (List.getElem?_eq_getElem within)
    simp only [InTime, part] at seated
    refine ⟨_, List.getElem_mem within, ?_⟩
    cases seated.2 with
    | playing _ _ playing _ _ _ => simp [playing]
    | done _ past => omega

theorem tick_onTime {parts : Nat → Option (List Event)} {count elapsed : Nat} {playback : Playback}
    (onTime : OnTime parts count elapsed playback) :
    ∃ tick, playback.tick = some tick ∧ OnTime parts count (elapsed + 1) tick.next ∧
      tick.played = playback.isPlaying ∧ (tick.changes.map Change.channel).Pairwise (· < ·) ∧
      ∀ change, change ∈ tick.changes ↔
        change.channel < count ∧ IsScheduled parts elapsed change := by
  obtain ⟨nexts, changes, step, length, later, ordered, told⟩ :=
    tickFrom_inTime playback.tracks 0 (by simpa using onTime.inTime)
  refine ⟨⟨{ playback with tracks := nexts }, changes, playback.isPlaying⟩, ?_, ?_, rfl, ordered, ?_⟩
  · simp only [tick, step]
    rfl
  · exact ⟨length.trans onTime.length, by simpa using later⟩
  · intro change
    simpa [onTime.length] using told change

theorem after_onTime {parts : Nat → Option (List Event)} {count : Nat} {playback : Playback}
    (onTime : OnTime parts count 0 playback) (ticks : Nat) :
    ∃ later, playback.after ticks = some later ∧ OnTime parts count ticks later := by
  induction ticks with
  | zero => exact ⟨playback, rfl, onTime⟩
  | succ ticks ih =>
    obtain ⟨before, reached, inTime⟩ := ih
    obtain ⟨tick, step, later, -⟩ := tick_onTime inTime
    exact ⟨tick.next, by simp [after, reached, step], later⟩

/-- Whether a cursor is at the start of the block of a channel, or has ended if there is none. -/
def Fills (blocks : List Block) (channel : Nat) (cursor : Cursor) : Prop :=
  (∃ block ∈ blocks, block.channel.toNat = channel ∧ block.cursor? = some cursor) ∨
    ((∀ block ∈ blocks, block.channel.toNat ≠ channel) ∧ cursor = .ended)

section Seats

variable {block : Block} {blocks later : List Block} {channel : Nat} {cursor : Cursor}

theorem fills_cons (different : block.channel.toNat ≠ channel) (fills : Fills later channel cursor) :
    Fills (block :: later) channel cursor := by
  rcases fills with ⟨found, member, same, loads⟩ | ⟨absent, ended⟩
  · exact .inl ⟨found, List.mem_cons_of_mem _ member, same, loads⟩
  · refine .inr ⟨?_, ended⟩
    intro found member
    rcases List.mem_cons.mp member with rfl | among
    · exact different
    · exact absent found among

theorem fills_ended (absent : ∀ block ∈ blocks, block.channel.toNat ≠ channel) :
    Fills blocks channel .ended :=
  .inr ⟨absent, rfl⟩

end Seats

theorem seat_blocks (count first : Nat) (blocks : List Block)
    (ordered : (blocks.map Block.channel).Pairwise (· < ·))
    (above : ∀ block ∈ blocks, first ≤ block.channel.toNat)
    (loads : ∀ block ∈ blocks, ∃ cursor, block.cursor? = some cursor) :
    ∃ cursors, seat first blocks count = some cursors ∧ cursors.length = count ∧
      ∀ index cursor, cursors[index]? = some cursor → Fills blocks (first + index) cursor := by
  induction count generalizing first blocks with
  | zero => exact ⟨[], rfl, rfl, by simp⟩
  | succ count ih =>
    cases blocks with
    | nil =>
      obtain ⟨cursors, seats, length, all⟩ := ih (first + 1) [] List.Pairwise.nil (by simp) (by simp)
      refine ⟨.ended :: cursors, by simp [seat, seats], by simp [length], ?_⟩
      exact forall_cursor_cons (P := Fills []) (fills_ended (by simp)) all
    | cons block later =>
      rw [List.map_cons, List.pairwise_cons] at ordered
      rw [List.forall_mem_cons] at above loads
      have laterAbove : ∀ other ∈ later, block.channel.toNat < other.channel.toNat := by
        intro other member
        exact UInt8.lt_iff_toNat_lt.mp (ordered.1 _ (List.mem_map_of_mem member))
      by_cases mine : block.channel.toNat = first
      · obtain ⟨cursors, seats, length, all⟩ := ih (first + 1) later ordered.2
          (fun other member => by have := laterAbove other member; omega) loads.2
        obtain ⟨cursor, loaded⟩ := loads.1
        refine ⟨cursor :: cursors, by simp [seat, mine, loaded, seats], by simp [length], ?_⟩
        apply forall_cursor_cons (P := Fills (block :: later))
        · exact .inl ⟨block, List.mem_cons_self, mine, loaded⟩
        · intro index other here
          exact fills_cons (by omega) (all index other here)
      · have next : ∀ other ∈ block :: later, first + 1 ≤ other.channel.toNat := by
          rw [List.forall_mem_cons]
          have first := above.1
          refine ⟨by omega, ?_⟩
          intro other member
          have := laterAbove other member
          omega
        obtain ⟨cursors, seats, length, all⟩ := ih (first + 1) (block :: later)
          (List.pairwise_cons.mpr ordered) next (List.forall_mem_cons.mpr loads)
        refine ⟨.ended :: cursors, by simp [seat, mine, seats], by simp [length], ?_⟩
        apply forall_cursor_cons (P := Fills (block :: later))
        · apply fills_ended
          intro other member
          have := next other member
          omega
        · exact all

/-- Every track of a loaded song that starts to play is at the start of its own block. -/
theorem start_fills {bytes : List UInt8} {song : Song} (loaded : Song.ofBytes bytes = .ok song)
    (count : Nat) :
    ∃ playback, start song count = some playback ∧ playback.tracks.length = count ∧
      ∀ channel cursor, playback.tracks[channel]? = some cursor → Fills song.blocks channel cursor := by
  obtain ⟨same, full, ordered, -⟩ := Song.blocks_of_loaded loaded
  have loads := Song.cursor?_of_loaded loaded
  obtain ⟨cursors, seats, length, all⟩ := seat_blocks count 0 song.blocks ordered
    (fun _ _ => Nat.zero_le _) (fun block member => (loads block member).imp fun _ both => both.1)
  obtain ⟨tempo, rest, rfl⟩ := List.exists_cons_of_ne_nil full
  refine ⟨⟨tempo, cursors⟩, by simp [start, seats, Song.tempo?, same], length, ?_⟩
  intro channel cursor here
  have fills := all channel cursor here
  rwa [Nat.zero_add] at fills

theorem start_onTime {bytes : List UInt8} {song : Song} (loaded : Song.ofBytes bytes = .ok song)
    (count : Nat) :
    ∃ playback, start song count = some playback ∧ OnTime song.part? count 0 playback := by
  obtain ⟨playback, started, length, all⟩ := start_fills loaded count
  refine ⟨playback, started, length, ?_⟩
  intro channel cursor here
  rcases all channel cursor here with ⟨block, member, rfl, isLoaded⟩ | ⟨absent, rfl⟩
  · obtain ⟨other, found, playing, left, complete⟩ := Song.cursor?_of_loaded loaded block member
    rw [isLoaded, Option.some.injEq] at found
    subst found
    have part : song.part? block.channel.toNat = some cursor.reading.events := by
      rw [← Song.reading_of_mem loaded member isLoaded, ← Song.part?_of_mem (List.mem_map_of_mem member)]
    simp only [InTime, part]
    refine ⟨cursor.ticks_pos_of_reading, Cursor.due_start playing left ?_⟩
    rw [← complete]
  · have part : song.part? channel = none := by
      apply Song.part?_of_not_mem
      intro found member
      obtain ⟨block, among, rfl⟩ := List.mem_map.mp member
      exact absent block among
    simp only [InTime, part]
    rfl

end Playback

/-- A song is loaded exactly if it is a row of sound blocks after its tempo. Then every byte that its
tracks ask for is within the song, so all its events can be read and it can be played for ever. -/
theorem Song.loads_iff_sound (bytes : List UInt8) :
    ((∃ song, ofBytes bytes = .ok song) ↔ bytes ≠ [] ∧ SoundFrom bytes none 1) ∧
      ∀ song, ofBytes bytes = .ok song →
        (∀ block ∈ song.blocks, ∃ header, SoundBlock bytes block.offset header ∧
          block.cursor? =
            some ((IndexedCursor.load block.offset header).toCursor bytes (.ofSong bytes)) ∧
          ∀ access ∈ (IndexedCursor.load block.offset header).accesses bytes,
            access.place < bytes.length) ∧
        (∀ channel, (song.reading channel).complete = true) ∧
        ∀ count, ∃ playback, Playback.start song count = some playback ∧
          ∀ ticks, ∃ later tick, playback.after ticks = some later ∧ later.tick = some tick := by
  constructor
  · simp only [ofBytes_iff_sound, exists_eq_left]
  · intro song loaded
    obtain ⟨-, -, -, all⟩ := blocks_of_loaded loaded
    refine ⟨?_, reading_complete loaded, ?_⟩
    · intro block member
      obtain ⟨header, sound, same⟩ := all block member
      refine ⟨header, sound, ?_, sound.place_lt⟩
      rw [same]
      exact sound.cursor?_eq_load
    · intro count
      obtain ⟨playback, started, onTime⟩ := Playback.start_onTime loaded count
      refine ⟨playback, started, ?_⟩
      intro ticks
      obtain ⟨later, reached, inTime⟩ := Playback.after_onTime onTime ticks
      obtain ⟨tick, step, -⟩ := Playback.tick_onTime inTime
      exact ⟨later, tick, reached, step⟩

/-- A song with two tracks. The tone of the second one takes the block's pause after it. -/
def Song.twoTracks : List UInt8 :=
  [0x10, 0x01, 0x09, 0x00, 0x08, 0x00, 0x00, 0x05, 0xff, 0x03,
    0x02, 0x09, 0x00, 0x08, 0x00, 0x01, 0x71, 0xff, 0x00, 0xff]

theorem Song.ofBytes_twoTracks : ofBytes twoTracks = .ok ⟨twoTracks⟩ := by
  cbv

theorem Song.twoTracks_sound :
    SoundFrom twoTracks none 1 ∧ ((⟨twoTracks⟩ : Song).reading 2).complete = true := by
  have loads := loads_iff_sound twoTracks
  exact ⟨(loads.1.mp ⟨_, ofBytes_twoTracks⟩).2, (loads.2 _ ofBytes_twoTracks).2.1 2⟩

/-- Whether a cursor shows what the events of its track call for after a tick: the event that the tick
falls into and the ticks left of it, or that the track has ended. -/
def Cursor.Shows (events : List Event) (tick : Nat) (cursor : Cursor) : Prop :=
  (tick < Event.total events → cursor.isEnded = false ∧
    ∃ index event, events[index]? = some event ∧ Event.onset events index ≤ tick ∧
      tick < Event.onset events index + event.ticks ∧ cursor.note = event.note ∧
      cursor.left = Event.onset events index + event.ticks - (tick + 1)) ∧
  (Event.total events ≤ tick → cursor.isEnded = true)

theorem Cursor.shows_of_due {events : List Event} {tick : Nat} {cursor : Cursor}
    (due : cursor.Due events (tick + 1)) : cursor.Shows events tick := by
  cases due with
  | done ended past =>
    exact ⟨fun before => by omega, fun _ => ended⟩
  | playing begun within playing _ time current =>
    have bound := Event.onset_le_total within
    refine ⟨fun _ => ⟨playing, ?_⟩, fun past => by omega⟩
    cases begun with
    | zero =>
      have start : Event.onset events 0 = 0 := rfl
      omega
    | succ index =>
      have here : events[index]? = some events[index] := List.getElem?_eq_getElem within
      have stays := current index _ rfl here
      have next := Event.onset_succ here
      exact ⟨index, _, here, by omega, by omega, stays.1, by omega⟩

namespace Playback

theorem shows_of_onTime {parts : Nat → Option (List Event)} {count tick : Nat} {playback : Playback}
    (onTime : OnTime parts count (tick + 1) playback) {channel : Nat} {cursor : Cursor}
    (here : playback.tracks[channel]? = some cursor) : cursor.Shows ((parts channel).getD []) tick := by
  have seated := onTime.inTime channel cursor here
  unfold InTime at seated
  cases part : parts channel with
  | none =>
    rw [part] at seated
    exact ⟨fun impossible => (Nat.not_lt_zero _ impossible).elim, fun _ => seated⟩
  | some events =>
    rw [part] at seated
    exact Cursor.shows_of_due seated.2

/-- What a listener is told at a tick, whether the tick was played, and what the tracks show after it all
follow from the events of the channels. -/
theorem tick_follows_events {bytes : List UInt8} {song : Song} (loaded : Song.ofBytes bytes = .ok song)
    (count ticks : Nat) :
    ∃ playback before tick, start song count = some playback ∧ playback.after ticks = some before ∧
      before.tick = some tick ∧
      (tick.changes.map Change.channel).Pairwise (· < ·) ∧
      (∀ channel note, .note channel note ∈ tick.changes ↔
        channel < count ∧ ∃ events, song.part? channel = some events ∧
          ∃ index event, events[index]? = some event ∧ event.note = note ∧
            ticks = Event.onset events index) ∧
      (∀ channel, .trackEnd channel ∈ tick.changes ↔
        channel < count ∧ ∃ events, song.part? channel = some events ∧ ticks = Event.total events) ∧
      (tick.played = true ↔
        ∃ channel < count, ∃ events, song.part? channel = some events ∧ ticks ≤ Event.total events) ∧
      tick.next.tracks.length = count ∧
      ∀ channel (cursor : Cursor), tick.next.tracks[channel]? = some cursor →
        cursor.Shows ((song.part? channel).getD []) ticks := by
  obtain ⟨playback, started, onTime⟩ := start_onTime loaded count
  obtain ⟨before, reached, inTime⟩ := after_onTime onTime ticks
  obtain ⟨tick, step, later, played, ordered, told⟩ := tick_onTime inTime
  refine ⟨playback, before, tick, started, reached, step, ordered, ?_, ?_, ?_, later.length, ?_⟩
  · exact fun channel note => told (.note channel note)
  · exact fun channel => told (.trackEnd channel)
  · rw [played]
    exact isPlaying_iff inTime
  · exact fun channel cursor here => shows_of_onTime later here

theorem twoTracks_at_three :
    ∃ playback before tick, start ⟨Song.twoTracks⟩ 3 = some playback ∧
      playback.after 3 = some before ∧ before.tick = some tick ∧
      .trackEnd 2 ∈ tick.changes ∧ tick.played = true := by
  have events : Song.part? ⟨Song.twoTracks⟩ 2 = some [⟨.tone 28, 1⟩, ⟨.rest, 2⟩] := by
    cbv
  obtain ⟨playback, before, tick, started, reached, step, -, -, ends, plays, -⟩ :=
    tick_follows_events Song.ofBytes_twoTracks 3 3
  refine ⟨playback, before, tick, started, reached, step, ?_, ?_⟩
  · exact (ends 2).mpr ⟨by decide, _, events, by decide⟩
  · exact plays.mpr ⟨2, by decide, _, events, by decide⟩

end Playback

end Buzzer
