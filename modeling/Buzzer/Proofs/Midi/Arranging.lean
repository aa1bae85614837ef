import Buzzer.Elementary
import Buzzer.Midi.Arranger
import Buzzer.Midi.Chunk
import Buzzer.Proofs.Device.Tuning
import Buzzer.Proofs.Except
import Buzzer.Proofs.Midi.Assignment
import Buzzer.Proofs.Target.Fitting
import Buzzer.Target.Shipped

/-!
Files that are arranged for a target. The notes that are accepted have pitches of a song, a channel is given
only notes of its own range, and whatever the strategy is, the song is one of those that the strategies which
pick channels themselves come to. So the tracks suit the target that the file was arranged for.
-/
namespace Buzzer

namespace Event

/-- Joining rests adds no tones. -/
theorem mem_of_mem_joinFrom {events : List Event} {resting pitch ticks : Nat}
    (member : ⟨.tone pitch, ticks⟩ ∈ joinFrom resting events) : ⟨.tone pitch, ticks⟩ ∈ events := by
  have notRest : ∀ lengths, (⟨.tone pitch, ticks⟩ : Event) ∉ rests lengths := by
    intro lengths among
    obtain ⟨_, -, same⟩ := List.mem_map.mp among
    cases same
  induction events generalizing resting with
  | nil => exact (notRest _ member).elim
  | cons first later ih =>
    obtain ⟨note, length⟩ := first
    cases note with
    | rest => exact List.mem_cons_of_mem _ (ih member)
    | tone other =>
      rw [joinFrom] at member
      split at member
      · exact List.mem_cons_of_mem _ (ih member)
      · rcases List.mem_append.mp member with among | among
        · exact (notRest _ among).elim
        · rcases List.mem_cons.mp among with same | among
          · exact same ▸ List.mem_cons_self
          · exact List.mem_cons_of_mem _ (ih among)

theorem note_mem_spread {events : List Event} {event : Event} (member : event ∈ events)
    (lasting : 0 < event.ticks) : event.note ∈ spread events :=
  List.mem_flatMap.mpr ⟨event, member, List.mem_replicate.mpr ⟨Nat.ne_of_gt lasting, rfl⟩⟩

end Event

namespace Midi

/-! The notes that are accepted. -/

/-- Whether all notes of some frames are pitches of a song. -/
def InSong (frames : List (Frame Nat)) : Prop :=
  ∀ frame ∈ frames, ∀ note ∈ notesFrom 0 frame, note.2 < playablePitches

theorem mem_notesFrom {frame : Frame Nat} {track : Nat} {note : Nat × Nat}
    (member : note ∈ notesFrom track frame) :
    ∃ index pitches, frame[index]? = some pitches ∧ note.1 = track + index ∧ note.2 ∈ pitches := by
  induction frame generalizing track with
  | nil => cases member
  | cons pitches later ih =>
    rcases List.mem_append.mp member with here | there
    · obtain ⟨pitch, among, rfl⟩ := List.mem_map.mp here
      exact ⟨0, pitches, rfl, rfl, among⟩
    · obtain ⟨index, others, found, same, inside⟩ := ih there
      exact ⟨index + 1, others, found, by omega, inside⟩

/-- What a track has in a frame comes from its own part. -/
theorem exists_part_of_framesOf {α : Type} {parts : List (Part α)} {frame : Frame α}
    (member : frame ∈ framesOf parts) {track : Nat} {pitches : List α}
    (here : frame[track]? = some pitches) : ∃ part, parts[track]? = some part ∧ pitches ∈ part := by
  unfold framesOf at member
  generalize frameCount parts = count at member
  induction parts generalizing frame track with
  | nil =>
    rw [List.eq_of_mem_replicate member] at here
    cases here
  | cons part later ih =>
    obtain ⟨index, found⟩ := List.getElem?_of_mem member
    obtain ⟨first, others, inPart, inLater, rfl⟩ := List.getElem?_zipWith_eq_some.mp found
    cases track with
    | zero =>
      cases here
      exact ⟨part, rfl, List.mem_of_getElem? inPart⟩
    | succ track => exact ih here (List.mem_of_getElem? inLater)

theorem isPlayable_inSong {channels : List Channel} {pitch : Int}
    (playable : isPlayable channels pitch = true) : pitch.toNat < playablePitches := by
  simp only [isPlayable, Bool.and_eq_true, decide_eq_true_eq] at playable
  exact playable.1.2

theorem isPlayable_of_firstUnplayable? {channels : List Channel} {part : Part Int}
    (none : firstUnplayable? channels part = none) :
    ∀ pitches ∈ part, ∀ pitch ∈ pitches, isPlayable channels pitch = true := by
  intro pitches member pitch among
  obtain ⟨frame, here⟩ := List.getElem?_of_mem member
  have all := List.findSome?_eq_none_iff.mp none (pitches, frame) (List.mem_zipIdx_iff_getElem?.mpr here)
  have playable := List.find?_eq_none.mp (Option.map_eq_none_iff.mp all) pitch among
  simpa using playable

/-- Notes that are accepted are never more than there are channels, and all of them can be played. -/
theorem checkNotes_eq_ok {channels : List Channel} {beatMicros : Float} {transpose : Int}
    {parts : List (Part Int)} {accepted : List (Part Nat)}
    (checked : checkNotes channels beatMicros transpose parts = .ok accepted) :
    mostNotes (framesOf parts) ≤ channels.length ∧
      (∀ part ∈ parts, firstUnplayable? channels part = none) ∧
      accepted = parts.map (·.map (·.map Int.toNat)) := by
  unfold checkNotes at checked
  simp only at checked
  split at checked
  · cases checked
  next few =>
    cases found : parts.findSome? (firstUnplayable? channels) with
    | some unplayable =>
      rw [found] at checked
      cases checked
    | none =>
      rw [found] at checked
      cases checked
      exact ⟨Nat.le_of_not_lt few, List.findSome?_eq_none_iff.mp found, rfl⟩

theorem playable_of_checkNotes {channels : List Channel} {beatMicros : Float} {transpose : Int}
    {parts : List (Part Int)} {accepted : List (Part Nat)}
    (checked : checkNotes channels beatMicros transpose parts = .ok accepted) :
    ∀ frame ∈ framesOf accepted, ∀ note ∈ notesFrom 0 frame,
      ∃ pitch : Int, isPlayable channels pitch = true ∧ pitch.toNat = note.2 := by
  obtain ⟨-, none, rfl⟩ := checkNotes_eq_ok checked
  intro frame member note among
  obtain ⟨track, narrowed, inFrame, -, inside⟩ := mem_notesFrom among
  obtain ⟨row, inParts, inRow⟩ := exists_part_of_framesOf member inFrame
  obtain ⟨part, inFile, rfl⟩ := List.mem_map.mp (List.mem_of_getElem? inParts)
  obtain ⟨pitches, inPart, rfl⟩ := List.mem_map.mp inRow
  obtain ⟨pitch, inPitches, same⟩ := List.mem_map.mp inside
  exact ⟨pitch, isPlayable_of_firstUnplayable? (none part inFile) pitches inPart pitch inPitches, same⟩

theorem inSong_of_checkNotes {channels : List Channel} {beatMicros : Float} {transpose : Int}
    {parts : List (Part Int)} {accepted : List (Part Nat)}
    (checked : checkNotes channels beatMicros transpose parts = .ok accepted) :
    InSong (framesOf accepted) := by
  intro frame member note among
  obtain ⟨pitch, playable, same⟩ := playable_of_checkNotes checked frame member note among
  rw [← same]
  exact isPlayable_inSong playable

/-! The tracks that the notes are given to. -/

theorem Placement.exists_of_heard {placed : List Placement} {number pitch : Nat}
    (sounds : heard placed number = .tone pitch) :
    ∃ placement ∈ placed, placement.number = number ∧ placement.pitch = pitch := by
  unfold heard at sounds
  cases found : placed.find? (·.number = number) with
  | none =>
    rw [found] at sounds
    cases sounds
  | some placement =>
    rw [found, Option.elim_some] at sounds
    cases sounds
    have same := List.find?_some found
    exact ⟨placement, List.mem_of_find?_eq_some found, of_decide_eq_true same, rfl⟩

theorem nodup_channels_draftTracks {voices : List Voice} (few : voices.length ≤ 255) :
    ((draftTracks voices).map TrackDraft.channel).Nodup := by
  have ascending : voices.zipIdx.Pairwise fun first second => first.2 < second.2 := by
    rw [← List.pairwise_map, List.zipIdx_map_snd]
    exact List.pairwise_lt_range'
  rw [draftTracks_eq, List.Nodup, List.pairwise_map, List.pairwise_filterMap]
  apply ascending.imp_of_mem
  intro first second before after below track found other foundOther same
  have inside := (List.getElem?_eq_some_iff.mp (List.mem_zipIdx_iff_getElem?.mp before)).1
  have insideOther := (List.getElem?_eq_some_iff.mp (List.mem_zipIdx_iff_getElem?.mp after)).1
  rw [(track?_eq_some found).2, (track?_eq_some foundOther).2, TrackDraft.channel_ofCalls,
    TrackDraft.channel_ofCalls] at same
  -- the numbers are below 256, so as bytes they differ too
  have numbers := congrArg UInt8.toNat same
  rw [UInt8.toNat_ofNat', UInt8.toNat_ofNat'] at numbers
  omega

/-- A tone of the track of a channel is a note that the channel has been given, and it lasts no longer than a
run. -/
theorem Voice.sung_of_track {voice : Voice} (short : ∀ run ∈ voice.runs, run.ticks ≤ maxDuration)
    {channel : UInt8} {event : Event}
    (member : event ∈ (TrackDraft.ofCalls channel (voice.stripped.map .note)).events) {pitch : Nat}
    (sounds : event.note = .tone pitch) : event.ticks ≤ maxDuration ∧ .tone pitch ∈ voice.sung := by
  have lasting := (TrackDraft.ready_ofCalls channel (short_stripped short)).lasting event member
  rw [TrackDraft.events_ofCalls channel (short_stripped short), TrackCall.events_map_note] at member
  obtain ⟨note, ticks⟩ := event
  cases sounds
  have inRuns : ⟨.tone pitch, ticks⟩ ∈ voice.runs :=
    (List.dropWhile_sublist _).subset (List.mem_reverse.mp (Event.mem_of_mem_joinFrom member))
  exact ⟨short _ inRuns, Event.note_mem_spread (List.mem_reverse.mpr inRuns) lasting⟩

section Assigned

variable {channels : List Channel} {target : Target} {strategy : Strategy} {merge : Bool}
  {frames : List (Frame Nat)} {table : List (List Placement)} {seats : List Seat}
  {tracks : List TrackDraft}

/-- A tone that a channel plays is a note that it was given in some frame, and in the channel's range. -/
theorem Seated.placement_of_sung (seated : Seated channels merge table [] seats) {number : Nat} {seat : Seat}
    (here : seats[number]? = some seat) {pitch : Nat} (sounds : .tone pitch ∈ seat.voice.sung) :
    seat.voice.range.contains pitch = true ∧ ∃ placed ∈ table, ∃ placement ∈ placed,
      placement.pitch = pitch := by
  have free : seat.free = true := (seated.free number seat here).mpr List.not_mem_nil
  rw [seated.sung number seat here, if_pos free, List.append_nil] at sounds
  obtain ⟨placed, inTable, heard⟩ := List.mem_map.mp sounds
  obtain ⟨placement, member, rfl, rfl⟩ := Placement.exists_of_heard heard
  obtain ⟨other, there, contains, -⟩ := (seated.earlier placed inTable).playable placement member
  rw [here] at there
  cases there
  exact ⟨contains, placed, inTable, placement, member, rfl⟩

theorem Seated.channel_of_seat (seated : Seated channels merge table [] seats) {number : Nat} {seat : Seat}
    (here : seats[number]? = some seat) :
    ∃ channel, channels[number]? = some channel ∧ channel.range = seat.voice.range := by
  have range : (seats.map (·.voice.range))[number]? = some seat.voice.range := by
    rw [List.getElem?_map, here, Option.map_some]
  rw [seated.ranges, List.getElem?_map] at range
  exact Option.map_eq_some_iff.mp range

theorem suits_of_seated (seated : Seated target.channels merge table [] seats)
    (few : target.channels.length ≤ 255) (tuned : ∀ channel ∈ target.channels, channel.EndsInByte)
    (inSong : ∀ placed ∈ table, ∀ placement ∈ placed, placement.pitch < playablePitches) (tempo : UInt8) :
    SongDraft.Suits ⟨tempo, draftTracks (seats.map Seat.voice)⟩ target := by
  have size : seats.length = target.channels.length := by
    have lengths := congrArg List.length seated.ranges
    rwa [List.length_map, List.length_map] at lengths
  refine ⟨nodup_channels_draftTracks (by rwa [List.length_map, size]), ?_⟩
  intro track member
  obtain ⟨number, voice, found, plays⟩ := mem_draftTracks.mp member
  rw [List.getElem?_map] at found
  obtain ⟨seat, here, rfl⟩ := Option.map_eq_some_iff.mp found
  obtain ⟨-, rfl⟩ := track?_eq_some plays
  obtain ⟨settings, there, range⟩ := seated.channel_of_seat here
  have byte : (UInt8.ofNat number).toNat = number := by
    have inside := (List.getElem?_eq_some_iff.mp there).1
    rw [UInt8.toNat_ofNat']
    omega
  have short := seated.short seat (List.mem_of_getElem? here)
  refine ⟨settings, by rw [TrackDraft.channel_ofCalls, byte, there],
    TrackDraft.ready_ofCalls _ (short_stripped short), ?_, ?_⟩
  · intro event among pitch sounds
    obtain ⟨most, sung⟩ := Voice.sung_of_track short among sounds
    obtain ⟨-, placed, inTable, placement, inPlaced, rfl⟩ := seated.placement_of_sung here sung
    exact ⟨inSong placed inTable placement inPlaced, most⟩
  · intro event among pitch sounds
    obtain ⟨-, sung⟩ := Voice.sung_of_track short among sounds
    obtain ⟨contains, -⟩ := seated.placement_of_sung here sung
    rw [← range] at contains
    exact (tuned settings (List.mem_of_getElem? there)).isSome_of_contains contains

theorem suits_of_assign (few : target.channels.length ≤ 255)
    (tuned : ∀ channel ∈ target.channels, channel.EndsInByte) (inSong : InSong frames)
    (assigned : assign? strategy target.channels merge frames = some tracks) (tempo : UInt8) :
    SongDraft.Suits ⟨tempo, tracks⟩ target := by
  unfold assign? at assigned
  obtain ⟨seats, steps, last⟩ := Option.bind_eq_some_iff.mp assigned
  cases last
  obtain ⟨table, notes, seated⟩ := seated_frames (seated_start target.channels merge) steps
  apply suits_of_seated seated few tuned
  intro placed inTable placement member
  have row : placed.map Placement.note ∈ frames.map (notesFrom 0) := notes ▸ List.mem_map_of_mem inTable
  obtain ⟨frame, inFrames, same⟩ := List.mem_map.mp row
  exact inSong frame inFrames placement.note (same ▸ List.mem_map_of_mem member)

/-! The strategies that compare what others come to. -/

theorem lowestRank_mem {rank : List TrackDraft → Except SongError (Nat × Nat)} {best : Option Ranked}
    {candidates : List (List TrackDraft)} {lowest : Ranked}
    (found : lowestRank rank best candidates = .ok (some lowest)) :
    best = some lowest ∨ lowest.tracks ∈ candidates := by
  induction candidates generalizing best with
  | nil =>
    cases found
    exact .inl rfl
  | cons tracks later ih =>
    rw [lowestRank] at found
    -- the tracks that are kept so far are either those of `best` or these
    obtain ⟨value, -, found⟩ := exists_of_bind_eq_ok found
    cases best with
    | none =>
      rcases ih found with same | among
      · cases same
        exact .inr List.mem_cons_self
      · exact .inr (List.mem_cons_of_mem _ among)
    | some held =>
      rcases ih found with same | among
      · split at same
        · cases same
          exact .inr List.mem_cons_self
        · exact .inl same
      · exact .inr (List.mem_cons_of_mem _ among)

theorem assign?_of_bestTracks? {rank : List TrackDraft → Except SongError (Nat × Nat)}
    (found : bestTracks? rank channels merge frames = .ok (some tracks)) :
    ∃ strategy, assign? strategy channels merge frames = some tracks := by
  unfold bestTracks? at found
  cases lowest : lowestRank rank none (candidateTracks channels merge frames) with
  | error error =>
    rw [lowest] at found
    cases found
  | ok best =>
    rw [lowest] at found
    obtain ⟨ranked, rfl, rfl⟩ := Option.map_eq_some_iff.mp (Except.ok.inj found)
    rcases lowestRank_mem lowest with absurd | member
    · cases absurd
    · obtain ⟨strategy, -, same⟩ := List.mem_filterMap.mp member
      exact ⟨strategy, same⟩

/-- Whatever strategy is wished for, the notes are assigned by one that picks channels itself. -/
theorem assign?_of_assignChannels (assigned : assignChannels strategy channels merge frames = .ok tracks) :
    ∃ strategy, assign? strategy channels merge frames = some tracks := by
  unfold assignChannels at assigned
  simp only at assigned
  split at assigned
  · cases assigned
  · cases assigned
  next found =>
    cases assigned
    cases strategy with
    | auto =>
      obtain ⟨strategy, -, same⟩ := List.exists_of_findSome?_eq_some (Except.ok.inj found)
      exact ⟨strategy, same⟩
    | smallest => exact assign?_of_bestTracks? found
    | fewestChannels => exact assign?_of_bestTracks? found
    | closest => exact ⟨_, Except.ok.inj found⟩
    | closestAverage => exact ⟨_, Except.ok.inj found⟩
    | firstFit => exact ⟨_, Except.ok.inj found⟩
    | firstFitNarrowest => exact ⟨_, Except.ok.inj found⟩

end Assigned

/-! Whole files. -/

namespace Arranger

section Libraries

variable [FloatLibrary] {arranger : Arranger} {target : Target} {draft : SongDraft}

theorem suits_of_arrangeFrames (few : target.channels.length ≤ 255)
    (tuned : ∀ channel ∈ target.channels, channel.EndsInByte)
    (forTarget : arranger.channels = target.channels) {beatMicros : Float} {bounds : List Nat}
    {notes : List (List NoteEvent)}
    (arranged : arranger.arrangeFrames beatMicros bounds notes = .ok draft) : draft.Suits target := by
  unfold arrangeFrames at arranged
  rw [forTarget] at arranged
  obtain ⟨parts, checked, others⟩ := exists_of_bind_eq_ok arranged
  obtain ⟨tracks, assigned, same⟩ := exists_of_bind_eq_ok others
  cases same
  obtain ⟨strategy, assigned⟩ := assign?_of_assignChannels assigned
  exact suits_of_assign few tuned (inSong_of_checkNotes checked) assigned _

/-- A file is arranged by arranging the notes of its tracks, whatever the bounds of its frames are. -/
theorem arrangeFrames_of_arrange [Reader] {bytes : List UInt8} (arranged : arranger.arrange bytes = .ok draft) :
    ∃ beatMicros bounds notes, arranger.arrangeFrames beatMicros bounds notes = .ok draft := by
  unfold arrange at arranged
  cases read : Reader.file? bytes with
  | none =>
    rw [read] at arranged
    cases arranged
  | some file =>
    simp only [read] at arranged
    split at arranged
    · split at arranged
      · cases arranged
      · exact ⟨_, _, _, arranged⟩
    · cases arranged

/-- What is arranged for a target fits it, whatever the strategy, the tempo and the octave are, whether tracks
share channels or not, and wherever the frames of the file end. It does not matter how the file is read. Only
the length of a track can keep it from being written, and the song that is written passes the check of the
target. -/
theorem arranged_song_fits [Reader] (few : target.channels.length ≤ 255)
    (tuned : ∀ channel ∈ target.channels, channel.EndsInByte) (arranger : Arranger)
    (forTarget : arranger.channels = target.channels) :
    (∀ beatMicros bounds notes draft,
      arranger.arrangeFrames beatMicros bounds notes = .ok draft → draft.Fits target) ∧
    ∀ bytes draft, arranger.arrange bytes = .ok draft → draft.Fits target := by
  have framed : ∀ beatMicros bounds notes draft,
      arranger.arrangeFrames beatMicros bounds notes = .ok draft → draft.Fits target := by
    intro beatMicros bounds notes draft arranged
    exact (suits_of_arrangeFrames few tuned forTarget arranged).fits few
  refine ⟨framed, ?_⟩
  intro bytes draft arranged
  obtain ⟨beatMicros, bounds, notes, same⟩ := arrangeFrames_of_arrange arranged
  exact framed beatMicros bounds notes draft same

end Libraries

set_option maxRecDepth 8192 in
/-- A pitch above those of the first channel of the smaller microcontroller, and beside it in the second frame
one that either channel can play. -/
theorem two_frames_fit :
    ∃ tempo song,
      (ofTarget .atmega328p).arrangeFrames 500000 [0, 6, 12] [[⟨0, 106, true⟩, ⟨6, 60, true⟩]] =
        .ok ⟨tempo, [{ channel := 0, latest := [⟨.tone 24, 1⟩, ⟨.rest, 1⟩] },
          { channel := 1, latest := [⟨.tone 70, 2⟩] }]⟩ ∧
      Song.ofBytes [tempo, 0, 10, 0, 9, 0, 0, 170, 24, 255, 128, 1, 9, 0, 8, 0, 0, 70, 255, 1, 255] =
        .ok song ∧
      Target.atmega328p.check song = .ok () := by
  have checked : checkNotes Target.atmega328p.channels 500000 (0 * 12)
      ([[⟨0, 106, true⟩, ⟨6, 60, true⟩]].map (pitchPart [0, 6, 12] (0 * 12))) = .ok [[[70], [70, 24]]] := by
    cbv
  have assigned : assignChannels .auto Target.atmega328p.channels false (framesOf [[[70], [70, 24]]]) =
      .ok [{ channel := 0, latest := [⟨.tone 24, 1⟩, ⟨.rest, 1⟩] },
        { channel := 1, latest := [⟨.tone 70, 2⟩] }] := by
    cbv
  have arranged : (ofTarget .atmega328p).arrangeFrames 500000 [0, 6, 12]
      [[⟨0, 106, true⟩, ⟨6, 60, true⟩]] =
        .ok ⟨Tempo.ofBpm (60000000 / 500000),
          [{ channel := 0, latest := [⟨.tone 24, 1⟩, ⟨.rest, 1⟩] },
            { channel := 1, latest := [⟨.tone 70, 2⟩] }]⟩ := by
    simp only [arrangeFrames, ofTarget, checked, assigned, bind, Except.bind, pure, Except.pure,
      Option.getD_none]
  have encoded : ∀ tempo, SongDraft.encode ⟨tempo, [{ channel := 0, latest := [⟨.tone 24, 1⟩, ⟨.rest, 1⟩] },
      { channel := 1, latest := [⟨.tone 70, 2⟩] }]⟩ =
        .ok [tempo, 0, 10, 0, 9, 0, 0, 170, 24, 255, 128, 1, 9, 0, 8, 0, 0, 70, 255, 1, 255] := by
    intro tempo
    cbv
  obtain ⟨few, tuned⟩ := @Target.endsInByte_of_named? "atmega328p" _ rfl
  have fits := (arranged_song_fits few tuned (ofTarget .atmega328p) rfl).1 _ _ _ _ arranged
  obtain ⟨song, loaded, passes⟩ := fits.accepted _ (encoded _)
  exact ⟨_, song, arranged, loaded, passes⟩

end Arranger

end Midi

end Buzzer
