import Mathlib
import Buzzer.Proofs.Draft.RoundTrip
import Buzzer.Proofs.Draft.Sounding
import Buzzer.Proofs.Playback.Ticks
import Buzzer.Proofs.Song.Playable

/-!
Songs that are written again from what is read from them. Their bytes can differ from those of the song,
which need not have been written by a draft, but nothing that is heard does.
-/
namespace Buzzer

/-! What sounds while a song is played. -/

/-- What a channel plays: its current note until its track has ended. -/
def Cursor.sounding (cursor : Cursor) : Note := if cursor.isEnded then .rest else cursor.note

theorem Cursor.sounding_of_shows {events : List Event} {tick : Nat} {cursor : Cursor}
    (shows : cursor.Shows events tick) : cursor.sounding = Event.noteAt events tick := by
  by_cases before : tick < Event.total events
  · obtain ⟨playing, index, event, here, begun, within, note, -⟩ := shows.1 before
    rw [sounding, playing, if_neg Bool.false_ne_true, note, Event.noteAt_of_onset here begun within]
  · have past := Nat.le_of_not_lt before
    rw [sounding, shows.2 past, if_pos rfl, Event.noteAt_past past]

namespace Song

/-- What the channels play at a tick of a song that is played on `count` channels. -/
def sounding? (song : Song) (count tick : Nat) : Option (List Note) := do
  let playback ← Playback.start song count
  let later ← playback.after (tick + 1)
  return later.tracks.map Cursor.sounding

theorem sounding?_of_loaded {bytes : List UInt8} {song : Song} (loaded : ofBytes bytes = .ok song)
    (count tick : Nat) :
    song.sounding? count tick =
      some ((List.range count).map fun channel => Event.noteAt ((song.part? channel).getD []) tick) := by
  obtain ⟨playback, started, onTime⟩ := Playback.start_onTime loaded count
  obtain ⟨later, reached, inTime⟩ := Playback.after_onTime onTime (tick + 1)
  simp only [sounding?, started, reached, Option.bind_eq_bind, Option.bind_some, Option.pure_def]
  refine congrArg some (List.ext_getElem ?_ ?_)
  · simp [inTime.length]
  · intro channel inside _
    rw [List.length_map] at inside
    have shows := Playback.shows_of_onTime inTime (List.getElem?_eq_getElem inside)
    simpa using Cursor.sounding_of_shows shows

section Alike

variable {song again : Song}

theorem noteAt_part?_congr (channels : again.channels = song.channels)
    (sounds : ∀ channel, Event.spread (again.reading channel).events =
      Event.spread (song.reading channel).events) (number tick : Nat) :
    Event.noteAt ((again.part? number).getD []) tick = Event.noteAt ((song.part? number).getD []) tick := by
  rw [part?, part?, channels]
  cases song.channels.find? (·.toNat = number) with
  | none => rfl
  | some channel => exact congrArg (·[tick]?.getD .rest) (sounds channel)

theorem durationTicks_congr (channels : again.channels = song.channels)
    (sounds : ∀ channel, Event.spread (again.reading channel).events =
      Event.spread (song.reading channel).events) : again.durationTicks = song.durationTicks := by
  have lengths (channel : UInt8) : Event.total (again.reading channel).events =
      Event.total (song.reading channel).events := by
    rw [← Event.length_spread, sounds channel, Event.length_spread]
  rw [durationTicks_eq, durationTicks_eq, channels]
  simp only [lengths]

end Alike

end Song

/-! Tracks that are put together from what is read. -/

namespace TrackDraft

theorem addAll_eq_ofCalls (channel : UInt8) (events : List Event) :
    addAll { channel } events = ofCalls channel (events.map .note) := by
  rw [ofCalls, List.foldl_map]
  rfl

theorem writable_rests (lengths : List Nat) : ∀ event ∈ Event.rests lengths, Writable event := by
  intro event member
  obtain ⟨ticks, -, rfl⟩ := List.mem_map.mp member
  intro pitch impossible
  cases impossible

/-- Joining rests leaves the tones as they are. -/
theorem writable_joinFrom {events : List Event} (writable : ∀ event ∈ events, Writable event)
    (resting : Nat) : ∀ event ∈ Event.joinFrom resting events, Writable event := by
  induction events generalizing resting with
  | nil => exact writable_rests _
  | cons first later ih =>
    rw [List.forall_mem_cons] at writable
    obtain ⟨note, ticks⟩ := first
    cases note with
    | rest => exact ih writable.2 (resting + ticks)
    | tone pitch =>
      rw [Event.joinFrom]
      split
      · exact ih writable.2 resting
      · rw [List.forall_mem_append, List.forall_mem_cons]
        exact ⟨writable_rests _, writable.1, ih writable.2 0⟩

end TrackDraft

namespace SongDraft

/-- The draft that a song is written again from: a track for each of its channels, put together from the
events that are read from it. -/
def ofSong (song : Song) (tempo : UInt8) : SongDraft where
  tempo
  tracks := song.channels.map fun channel =>
    TrackDraft.addAll { channel } (song.reading channel).events

section OfSong

variable {bytes : List UInt8} {song : Song}

/-- The track of a channel that is read. -/
structure Retells (song : Song) (channel : UInt8) (track : TrackDraft) : Prop where
  onChannel : track.channel = channel
  events : track.events = Event.joinFrom 0 (song.reading channel).events
  ready : track.Ready
  writable : ∀ event ∈ track.events, TrackDraft.Writable event

theorem retells_addAll (song : Song) (channel : UInt8) :
    Retells song channel (TrackDraft.addAll { channel } (song.reading channel).events) := by
  have playable := song.playable_of_reading channel
  have calls := TrackCall.events_map_note (song.reading channel).events
  have short : ∀ event ∈ TrackCall.events ((song.reading channel).events.map .note),
      event.ticks ≤ maxTicks := by
    rw [calls]
    intro event member
    exact Nat.le_trans (playable event member).most (by decide)
  have events := TrackDraft.events_ofCalls channel short
  rw [calls] at events
  rw [TrackDraft.addAll_eq_ofCalls]
  refine ⟨TrackDraft.channel_ofCalls _ _, events, TrackDraft.ready_ofCalls channel short, ?_⟩
  rw [events]
  refine TrackDraft.writable_joinFrom ?_ 0
  intro event member pitch same
  exact ⟨(playable event member).inRange pitch same, (playable event member).most⟩

theorem channels_ofSong (song : Song) (tempo : UInt8) :
    (ofSong song tempo).tracks.map TrackDraft.channel = song.channels := by
  rw [ofSong, List.map_map]
  exact (List.map_congr_left fun channel _ => (retells_addAll song channel).onChannel).trans
    (List.map_id _)

theorem retells_of_mem {tempo : UInt8} {track : TrackDraft} (member : track ∈ (ofSong song tempo).tracks) :
    ∃ channel ∈ song.channels, Retells song channel track := by
  obtain ⟨channel, among, rfl⟩ := List.mem_map.mp member
  exact ⟨channel, among, retells_addAll song channel⟩

theorem songEnd_not_mem_channels (loaded : Song.ofBytes bytes = .ok song) : songEnd ∉ song.channels := by
  obtain ⟨-, -, -, all⟩ := Song.blocks_of_loaded loaded
  intro member
  obtain ⟨block, among, same⟩ := List.mem_map.mp member
  obtain ⟨header, sound, whole⟩ := all block among
  rw [whole] at same
  exact sound.opens same

/-- What is written from a song sounds like the song. -/
theorem spread_of_encode_ofSong (loaded : Song.ofBytes bytes = .ok song) {tempo : UInt8}
    {data : List UInt8} (encoded : (ofSong song tempo).encode = .ok data) :
    ∃ again, Song.ofBytes data = .ok again ∧ again.tempo? = some tempo ∧
      again.channels = song.channels ∧
      ∀ channel, Event.spread (again.reading channel).events =
        Event.spread (song.reading channel).events := by
  have ready : ∀ track ∈ (ofSong song tempo).tracks, track.Ready := by
    intro track member
    obtain ⟨channel, -, retells⟩ := retells_of_mem member
    exact retells.ready
  obtain ⟨again, loadedAgain, tempos, perm, ordered, plays⟩ := loads_of_encode ready encoded
  rw [channels_ofSong] at perm
  obtain ⟨-, -, increasing, -⟩ := Song.blocks_of_loaded loaded
  have channels : again.channels = song.channels := by
    refine (List.Perm.eq_of_pairwise ?_ increasing ordered perm).symm
    intro first second _ _ below above
    exact (UInt8.lt_asymm below above).elim
  refine ⟨again, loadedAgain, tempos, channels, ?_⟩
  intro channel
  by_cases present : channel ∈ song.channels
  · have retells := retells_addAll song channel
    have reads := plays _ (List.mem_map_of_mem present)
    rw [retells.onChannel, retells.events] at reads
    rw [reads]
    exact Event.spread_normalForm _
  · rw [Song.reading_of_not_mem present, Song.reading_of_not_mem (channels ▸ present)]

/-- A loaded song, however it was written, is written again with nothing that is heard changed, unless one
of its tracks gets too long. -/
theorem rewritten_song_sounds_alike (loaded : Song.ofBytes bytes = .ok song) :
    ∃ tempo, song.tempo? = some tempo ∧
      ((∃ channel ∈ song.channels, (ofSong song tempo).encode = .error (.trackTooLong channel)) ∨
        ∃ data again, (ofSong song tempo).encode = .ok data ∧ Song.ofBytes data = .ok again ∧
          again.tempo? = some tempo ∧ again.channels = song.channels ∧
          (∀ count tick, ∃ notes, song.sounding? count tick = some notes ∧
            again.sounding? count tick = some notes) ∧
          (∀ channel, Event.spread (again.reading channel).events =
            Event.spread (song.reading channel).events) ∧
          again.durationTicks = song.durationTicks) := by
  obtain ⟨same, full, increasing, -⟩ := Song.blocks_of_loaded loaded
  obtain ⟨tempo, rest, rfl⟩ := List.exists_cons_of_ne_nil full
  refine ⟨tempo, by rw [Song.tempo?, same, List.head?_cons], ?_⟩
  have distinct : ((ofSong song tempo).tracks.map TrackDraft.channel).Nodup := by
    rw [channels_ofSong]
    exact increasing.imp UInt8.ne_of_lt
  have opens : ∀ track ∈ (ofSong song tempo).tracks, track.channel ≠ songEnd := by
    intro track member ends
    obtain ⟨channel, among, retells⟩ := retells_of_mem member
    exact songEnd_not_mem_channels loaded (ends ▸ retells.onChannel ▸ among)
  have writable : ∀ track ∈ (ofSong song tempo).tracks, ∀ event ∈ track.events,
      TrackDraft.Writable event := by
    intro track member
    obtain ⟨channel, -, retells⟩ := retells_of_mem member
    exact retells.writable
  rcases encode_of_writable distinct opens writable with ⟨track, member, refused⟩ | ⟨data, encoded⟩
  · obtain ⟨channel, among, retells⟩ := retells_of_mem member
    exact .inl ⟨channel, among, retells.onChannel ▸ refused⟩
  · obtain ⟨again, loadedAgain, tempos, channels, sounds⟩ := spread_of_encode_ofSong loaded encoded
    refine .inr ⟨data, again, encoded, loadedAgain, tempos, channels, ?_, sounds,
      Song.durationTicks_congr channels sounds⟩
    intro count tick
    refine ⟨_, Song.sounding?_of_loaded loaded count tick, ?_⟩
    rw [Song.sounding?_of_loaded loadedAgain]
    simp only [Song.noteAt_part?_congr channels sounds]

end OfSong

set_option maxRecDepth 8192 in
/-- Four rests in a row, two of them pauses after a note, are written again as one. -/
theorem everyEntry_sounds_alike :
    ∃ again, Song.ofBytes [16, 0, 14, 0, 10, 0, 1, 90, 28, 84, 255, 3, 128, 193, 10, 255] = .ok again ∧
      again.durationTicks = (⟨Song.everyEntry⟩ : Song).durationTicks ∧
      ∀ tick, again.sounding? 1 tick = (⟨Song.everyEntry⟩ : Song).sounding? 1 tick := by
  have loaded : Song.ofBytes Song.everyEntry = .ok ⟨Song.everyEntry⟩ := by cbv
  have encoded : (ofSong ⟨Song.everyEntry⟩ 0x10).encode =
      .ok [16, 0, 14, 0, 10, 0, 1, 90, 28, 84, 255, 3, 128, 193, 10, 255] := by cbv
  obtain ⟨tempo, first, ⟨channel, -, refused⟩ | ⟨data, again, written, loads, -, -, sounds, -, lasts⟩⟩ :=
    rewritten_song_sounds_alike loaded
  · cases first
    rw [encoded] at refused
    cases refused
  · cases first
    rw [encoded] at written
    cases written
    refine ⟨again, loads, lasts, ?_⟩
    intro tick
    obtain ⟨notes, before, after⟩ := sounds 1 tick
    rw [before, after]

end SongDraft

end Buzzer
