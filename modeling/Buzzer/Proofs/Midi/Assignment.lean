import Mathlib
import Buzzer.Proofs.Draft.RoundTrip
import Buzzer.Proofs.Midi.Seating

/-!
The song that comes of giving the notes of MIDI tracks to channels. At every tick the channels that sound
are matched with the notes of the frame, and the others rest.
-/
namespace Buzzer

namespace Event

theorem noteAt_append_rest (events : List Event) (ticks tick : Nat) :
    noteAt (events ++ [⟨.rest, ticks⟩]) tick = noteAt events tick := by
  unfold noteAt
  rw [spread_append, spread_singleton]
  by_cases within : tick < (spread events).length
  · rw [List.getElem?_append_left within]
  · have past := Nat.le_of_not_lt within
    rw [List.getElem?_append_right past, List.getElem?_eq_none past, List.getElem?_replicate]
    by_cases resting : tick - (spread events).length < ticks
    · rw [if_pos resting]
      rfl
    · rw [if_neg resting]

/-- Rests at the end of a track are as good as none. -/
theorem noteAt_dropWhile_rest (runs : List Event) (tick : Nat) :
    noteAt (runs.dropWhile (·.note.isRest)).reverse tick = noteAt runs.reverse tick := by
  induction runs with
  | nil => rfl
  | cons last earlier ih =>
    obtain ⟨note, ticks⟩ := last
    cases note with
    | tone pitch => rfl
    | rest =>
      rw [List.reverse_cons, noteAt_append_rest, ← ih]
      rfl

end Event

namespace Midi

/-! The frames of several tracks. -/

def frameAt (parts : List (Part Nat)) (frame : Nat) : Frame Nat := parts.map (·.getD frame [])

theorem getElem?_framesOf {parts : List (Part Nat)}
    (even : ∀ part ∈ parts, part.length = frameCount parts) (frame : Nat) :
    (framesOf parts)[frame]? =
      if frame < frameCount parts then some (frameAt parts frame) else none := by
  unfold framesOf
  generalize frameCount parts = count at even
  induction parts with
  | nil => simp [frameAt, List.getElem?_replicate]
  | cons part later ih =>
    rw [List.forall_mem_cons] at even
    rw [List.foldr_cons, List.getElem?_zipWith, ih even.2]
    by_cases within : frame < count
    · obtain ⟨pitches, here⟩ : ∃ pitches, part[frame]? = some pitches :=
        ⟨_, List.getElem?_eq_getElem (even.1.symm ▸ within)⟩
      simp [within, here, frameAt, List.getD]
    · have none : part[frame]? = Option.none :=
        List.getElem?_eq_none (by rw [even.1]; exact Nat.le_of_not_lt within)
      simp [within, none]

theorem notesFrom_past {parts : List (Part Nat)} {frame : Nat}
    (past : ∀ part ∈ parts, part.length ≤ frame) (track : Nat) :
    notesFrom track (frameAt parts frame) = [] := by
  induction parts generalizing track with
  | nil => rfl
  | cons part later ih =>
    rw [List.forall_mem_cons] at past
    have none : part.getD frame [] = [] := by
      rw [List.getD, List.getElem?_eq_none past.1]
      rfl
    have split : frameAt (part :: later) frame = part.getD frame [] :: frameAt later frame := rfl
    rw [split, notesFrom, none, ih past.2]
    rfl

/-! The tracks of the channels. -/

def Voice.stripped (voice : Voice) : List Event := (voice.runs.dropWhile (·.note.isRest)).reverse

/-- The track of a channel, if it plays anything. -/
def Voice.track? (voice : Voice) (number : Nat) : Option TrackDraft :=
  if voice.stripped = [] then none
  else some (.ofCalls (UInt8.ofNat number) (voice.stripped.map .note))

theorem draftTracks_eq (voices : List Voice) :
    draftTracks voices = voices.zipIdx.filterMap fun numbered => numbered.1.track? numbered.2 := by
  unfold draftTracks
  congr 1
  funext ⟨voice, number⟩
  have calls : ({ channel := UInt8.ofNat number } : TrackDraft).addAll voice.stripped =
      .ofCalls (UInt8.ofNat number) (voice.stripped.map .note) := by
    rw [TrackDraft.ofCalls, List.foldl_map]
    rfl
  rw [Voice.track?, ← calls]
  by_cases silent : voice.stripped = []
  · rw [if_pos silent]
    exact if_pos (List.isEmpty_iff.mpr silent)
  · rw [if_neg silent]
    exact if_neg (mt List.isEmpty_iff.mp silent)

theorem mem_draftTracks {voices : List Voice} {track : TrackDraft} :
    track ∈ draftTracks voices ↔
      ∃ (number : Nat) (voice : Voice), voices[number]? = some voice ∧
        voice.track? number = some track := by
  rw [draftTracks_eq, List.mem_filterMap]
  constructor
  · intro ⟨⟨voice, number⟩, member, found⟩
    exact ⟨number, voice, List.mem_zipIdx_iff_getElem?.mp member, found⟩
  · intro ⟨number, voice, here, found⟩
    exact ⟨(voice, number), List.mem_zipIdx_iff_getElem?.mpr here, found⟩

theorem track?_eq_some {voice : Voice} {number : Nat} {track : TrackDraft}
    (found : voice.track? number = some track) :
    voice.stripped ≠ [] ∧ track = .ofCalls (UInt8.ofNat number) (voice.stripped.map .note) := by
  unfold Voice.track? at found
  split at found
  · cases found
  next sounds => exact ⟨sounds, (Option.some.inj found).symm⟩

def Voice.noteAt (voices : List Voice) (number frame : Nat) : Note :=
  voices[number]?.elim .rest fun voice => voice.sung[frame]?.getD .rest

theorem noteAt_stripped (voice : Voice) (frame : Nat) :
    Event.noteAt voice.stripped frame = voice.sung[frame]?.getD .rest :=
  Event.noteAt_dropWhile_rest voice.runs frame

theorem short_stripped {voice : Voice} (short : ∀ run ∈ voice.runs, run.ticks ≤ maxDuration) :
    ∀ event ∈ TrackCall.events (voice.stripped.map .note), event.ticks ≤ maxTicks := by
  intro event member
  rw [TrackCall.events_map_note] at member
  have inRuns : event ∈ voice.runs := (List.dropWhile_sublist _).subset (List.mem_reverse.mp member)
  have limit : maxDuration ≤ maxTicks := by decide
  exact Nat.le_trans (short event inRuns) limit

/-- Every channel of the song sounds in each frame as it was given notes. -/
theorem song_of_voices {voices : List Voice} {tempo : UInt8} {data : List UInt8}
    (few : voices.length ≤ 255)
    (short : ∀ voice ∈ voices, ∀ run ∈ voice.runs, run.ticks ≤ maxDuration)
    (encoded : SongDraft.encode ⟨tempo, draftTracks voices⟩ = .ok data) :
    ∃ song, Song.ofBytes data = .ok song ∧ ∀ channel frame,
      Event.noteAt (song.reading channel).events frame = Voice.noteAt voices channel.toNat frame := by
  have ready : ∀ track ∈ draftTracks voices, track.Ready := by
    intro track member
    obtain ⟨number, voice, here, found⟩ := mem_draftTracks.mp member
    rw [(track?_eq_some found).2]
    exact TrackDraft.ready_ofCalls _ (short_stripped (short voice (List.mem_of_getElem? here)))
  obtain ⟨song, loaded, -, channels, -, plays⟩ := SongDraft.loads_of_encode ready encoded
  refine ⟨song, loaded, ?_⟩
  intro channel frame
  have silence : (∀ voice, voices[channel.toNat]? = some voice → voice.stripped = []) →
      Event.noteAt (song.reading channel).events frame = .rest := by
    intro silent
    have absent : channel ∉ song.channels := by
      intro present
      obtain ⟨track, member, same⟩ := List.mem_map.mp (channels.mem_iff.mpr present)
      obtain ⟨number, voice, here, found⟩ := mem_draftTracks.mp member
      obtain ⟨sounds, rfl⟩ := track?_eq_some found
      have inside : number < voices.length := (List.getElem?_eq_some_iff.mp here).1
      rw [TrackDraft.channel_ofCalls] at same
      have byte : channel.toNat = number := by
        rw [← same, UInt8.toNat_ofNat']
        omega
      exact sounds (silent voice (by rw [byte, here]))
    rw [Song.reading_of_not_mem absent]
    rfl
  unfold Voice.noteAt
  cases here : voices[channel.toNat]? with
  | none => exact silence (fun voice found => by rw [here] at found; cases found)
  | some voice =>
    rw [Option.elim_some, ← noteAt_stripped]
    by_cases silent : voice.stripped = []
    · rw [silent]
      apply silence
      intro other found
      rw [here] at found
      cases found
      exact silent
    · have found : voice.track? channel.toNat =
          some (.ofCalls (UInt8.ofNat channel.toNat) (voice.stripped.map .note)) := if_neg silent
      have reads := plays _ (mem_draftTracks.mpr ⟨_, voice, here, found⟩)
      have fits := short_stripped (short voice (List.mem_of_getElem? here))
      rw [TrackDraft.channel_ofCalls, TrackDraft.events_ofCalls _ fits, UInt8.ofNat_toNat] at reads
      have sounds := Event.spread_normalForm (TrackCall.events (voice.stripped.map .note))
      rw [reads, Event.noteAt, Event.noteAt]
      rw [Event.normalForm] at sounds
      rw [sounds, TrackCall.events_map_note]

def ownerOf (seats : List Seat) (number : Nat) : Nat :=
  (seats[number]?.bind (·.voice.owner)).getD 0

section Table

variable {channels : List Channel} {merge : Bool} {table : List (List Placement)} {seats : List Seat}

theorem Seated.placed (seated : Seated channels merge table [] seats) (frame : Nat) :
    Placed merge (table.getD frame []) seats := by
  rw [List.getD]
  cases here : table[frame]? with
  | none => exact seated.current
  | some placed => exact seated.earlier placed (List.mem_of_getElem? here)

theorem Seated.noteAt (seated : Seated channels merge table [] seats) (number frame : Nat) :
    Voice.noteAt (seats.map Seat.voice) number frame =
      Placement.heard (table.getD frame []) number := by
  unfold Voice.noteAt
  rw [List.getElem?_map]
  cases here : seats[number]? with
  | none =>
    have absent : number ∉ (table.getD frame []).map Placement.number := by
      intro present
      obtain ⟨placement, member, rfl⟩ := List.mem_map.mp present
      obtain ⟨seat, found, -⟩ := (seated.placed frame).playable placement member
      rw [here] at found
      cases found
    exact (Placement.heard_of_not_mem absent).symm
  | some seat =>
    have free : seat.free = true := (seated.free number seat here).mpr List.not_mem_nil
    have sung := seated.sung number seat here
    rw [if_pos free, List.append_nil] at sung
    rw [Option.map_some, Option.elim_some, sung, List.getElem?_map, List.getD]
    cases table[frame]? with
    | none => rfl
    | some placed => rfl

end Table

theorem notes_of_table {parts : List (Part Nat)} {table : List (List Placement)}
    (even : ∀ part ∈ parts, part.length = frameCount parts)
    (notes : table.map (·.map Placement.note) = (framesOf parts).map (notesFrom 0)) (frame : Nat) :
    (table.getD frame []).map Placement.note = notesFrom 0 (frameAt parts frame) := by
  have here := congrArg (·[frame]?) notes
  simp only [List.getElem?_map, getElem?_framesOf even] at here
  rw [List.getD]
  by_cases within : frame < frameCount parts
  · rw [if_pos within, Option.map_some] at here
    obtain ⟨placed, found, same⟩ := Option.map_eq_some_iff.mp here
    rw [found, Option.getD_some, same]
  · rw [if_neg within] at here
    have none := Option.map_eq_none_iff.mp here
    have past : ∀ part ∈ parts, part.length ≤ frame :=
      fun part member => by rw [even part member]; exact Nat.le_of_not_lt within
    rw [none, notesFrom_past past]
    rfl

/-- Notes that were given channels sound on them. In every frame the notes are matched with the channels
that sound, each of which plays its note within its range, and unless tracks are merged every channel
keeps to the notes of one track. -/
theorem assigned_notes_sound {strategy : Strategy} {channels : List Channel} {merge : Bool}
    {parts : List (Part Nat)} {tracks : List TrackDraft} {tempo : UInt8} {data : List UInt8}
    (few : channels.length ≤ 255) (even : ∀ part ∈ parts, part.length = frameCount parts)
    (assigned : assign? strategy channels merge (framesOf parts) = some tracks)
    (encoded : SongDraft.encode ⟨tempo, tracks⟩ = .ok data) :
    ∃ song, Song.ofBytes data = .ok song ∧ ∃ owner : Nat → Nat, ∀ frame, ∃ placed : List Placement,
      placed.map Placement.note = notesFrom 0 (frameAt parts frame) ∧
      (placed.map Placement.number).Nodup ∧
      (∀ placement ∈ placed,
        (∃ channel, channels[placement.number]? = some channel ∧
          channel.range.contains placement.pitch = true) ∧
        Event.noteAt (song.reading (UInt8.ofNat placement.number)).events frame =
          .tone placement.pitch ∧
        (merge = false → owner placement.number = placement.track)) ∧
      ∀ channel : UInt8, channel.toNat ∉ placed.map Placement.number →
        Event.noteAt (song.reading channel).events frame = .rest := by
  unfold assign? at assigned
  obtain ⟨seats, steps, last⟩ := Option.bind_eq_some_iff.mp assigned
  cases last
  obtain ⟨table, notes, seated⟩ := seated_frames (seated_start channels merge) steps
  rw [List.nil_append] at seated
  have size : seats.length = channels.length := by
    have lengths := congrArg List.length seated.ranges
    rwa [List.length_map, List.length_map] at lengths
  have short : ∀ voice ∈ seats.map Seat.voice, ∀ run ∈ voice.runs, run.ticks ≤ maxDuration := by
    intro voice member
    obtain ⟨seat, among, rfl⟩ := List.mem_map.mp member
    exact seated.short seat among
  obtain ⟨song, loaded, sounds⟩ :=
    song_of_voices (by rw [List.length_map, size]; exact few) short encoded
  refine ⟨song, loaded, ownerOf seats, ?_⟩
  intro frame
  have holds := seated.placed frame
  have heard : ∀ channel : UInt8, Event.noteAt (song.reading channel).events frame =
      Placement.heard (table.getD frame []) channel.toNat := by
    intro channel
    rw [sounds, seated.noteAt]
  refine ⟨table.getD frame [], ?_, holds.distinct, ?_, ?_⟩
  · exact notes_of_table even notes frame
  · intro placement member
    obtain ⟨seat, here, contains, owned⟩ := holds.playable placement member
    have inside : placement.number < seats.length := (List.getElem?_eq_some_iff.mp here).1
    refine ⟨?_, ?_, ?_⟩
    · have range : (seats.map (·.voice.range))[placement.number]? = some seat.voice.range := by
        rw [List.getElem?_map, here, Option.map_some]
      rw [seated.ranges, List.getElem?_map] at range
      obtain ⟨channel, found, same⟩ := Option.map_eq_some_iff.mp range
      exact ⟨channel, found, by rw [same, contains]⟩
    · have byte : (UInt8.ofNat placement.number).toNat = placement.number := by
        rw [UInt8.toNat_ofNat']
        omega
      rw [heard, byte]
      exact Placement.heard_of_mem holds.distinct member
    · intro single
      rw [ownerOf, here, Option.bind_some, owned single, Option.getD_some]
  · intro channel absent
    rw [heard]
    exact Placement.heard_of_not_mem absent

set_option maxRecDepth 8192 in
/-- Two tracks on two channels. In the last frame only the second track has a note. -/
theorem assigned_notes_sound_two :
    ∃ song, Song.ofBytes [16, 0, 9, 0, 8, 0, 0, 1, 255, 1, 1, 10, 0, 9, 0, 0, 88, 5, 255, 129, 255] =
      .ok song ∧ ∃ placed : List Placement, placed.map Placement.note = [(1, 5)] ∧
        ∀ placement ∈ placed,
          Event.noteAt (song.reading (UInt8.ofNat placement.number)).events 2 =
            .tone placement.pitch := by
  have assigned : assign? .closest [⟨0, #[1, 2, 3, 4], 0⟩, ⟨0, #[1, 2, 3, 4, 5, 6], 0⟩] false
      (framesOf [[[1], [1], []], [[3], [], [5]]]) =
        some [{ channel := 0, latest := [⟨.tone 1, 2⟩] },
          { channel := 1, latest := [⟨.tone 5, 1⟩, ⟨.rest, 1⟩, ⟨.tone 3, 1⟩] }] := by
    cbv
  have encoded : SongDraft.encode ⟨16, [{ channel := 0, latest := [⟨.tone 1, 2⟩] },
      { channel := 1, latest := [⟨.tone 5, 1⟩, ⟨.rest, 1⟩, ⟨.tone 3, 1⟩] }]⟩ =
        .ok [16, 0, 9, 0, 8, 0, 0, 1, 255, 1, 1, 10, 0, 9, 0, 0, 88, 5, 255, 129, 255] := by
    cbv
  obtain ⟨song, loaded, owner, frames⟩ := assigned_notes_sound (by decide) (by decide) assigned encoded
  obtain ⟨placed, same, -, plays, -⟩ := frames 2
  exact ⟨song, loaded, placed, same, fun placement member => (plays placement member).2.1⟩

end Midi

end Buzzer
