import Buzzer.Proofs.Draft.Rewriting
import Buzzer.Proofs.Target.Checking

/-!
Songs that are put together for a target. A draft suits a target if its tracks are for different channels
of the target, and have only tones that can be written and that their channels can play. Nothing but the
length of a track can keep such a draft from being written, and what is written passes the check of the
target.
-/
namespace Buzzer

/-- Writing an event changes nothing about a tone. -/
theorem Event.eq_of_mem_pieces {event piece : Event} {pitch : Nat} (member : piece ∈ event.pieces)
    (sounds : piece.note = .tone pitch) : piece = event := by
  obtain ⟨note, ticks⟩ := event
  cases note with
  | tone _ => exact List.mem_singleton.mp member
  | rest =>
    obtain ⟨_, -, rfl⟩ := List.mem_map.mp member
    cases sounds

namespace Target

/-- A track passes the check if it ends within the song and its channel can play every tone of it. -/
theorem checkChannel_eq_ok {target : Target} {song : Song} {channel : UInt8} {settings : Channel}
    (here : target.channels[channel.toNat]? = some settings)
    (complete : (song.reading channel).complete = true)
    (plays : ∀ event ∈ (song.reading channel).events, ∀ pitch, event.note = .tone pitch →
      (settings.period? pitch).isSome = true) : target.checkChannel song channel = .ok () := by
  have playable : ((song.reading channel).events.filterMap (·.note.pitch?)).find?
      (fun pitch => (settings.period? pitch).isNone) = none := by
    rw [List.find?_eq_none]
    intro pitch member unplayable
    obtain ⟨⟨note, ticks⟩, among, same⟩ := List.mem_filterMap.mp member
    cases note with
    | rest => cases same
    | tone other =>
      cases same
      have plays := plays _ among pitch rfl
      rw [Option.isNone_iff_eq_none.mp unplayable] at plays
      cases plays
  simp only [checkChannel, here, playable, complete, if_true]

end Target

/-- Whether a track can be written and read again, and a channel can play it. -/
structure TrackDraft.Suits (track : TrackDraft) (settings : Channel) : Prop where
  ready : track.Ready
  writable : ∀ event ∈ track.events, Writable event
  plays : ∀ event ∈ track.events, ∀ pitch, event.note = .tone pitch →
    (settings.period? pitch).isSome = true

namespace SongDraft

/-- Whether the tracks of a draft are for different channels of a target, which can play them. -/
structure Suits (draft : SongDraft) (target : Target) : Prop where
  distinct : (draft.tracks.map TrackDraft.channel).Nodup
  tracks : ∀ track ∈ draft.tracks, ∃ settings,
    target.channels[track.channel.toNat]? = some settings ∧ track.Suits settings

/-- Whether a draft is written unless one of its tracks is too long, and what is written is a song that a
target can play. -/
structure Fits (draft : SongDraft) (target : Target) : Prop where
  refused : ∀ error, draft.encode = .error error →
    ∃ track ∈ draft.tracks, error = .trackTooLong track.channel
  accepted : ∀ data, draft.encode = .ok data →
    ∃ song, Song.ofBytes data = .ok song ∧ target.check song = .ok ()

section Suits

variable {draft : SongDraft} {target : Target}

theorem Suits.check_of_encode (suits : draft.Suits target) {data : List UInt8}
    (encoded : draft.encode = .ok data) :
    ∃ song, Song.ofBytes data = .ok song ∧ target.check song = .ok () := by
  have ready : ∀ track ∈ draft.tracks, track.Ready := by
    intro track member
    obtain ⟨_, -, track⟩ := suits.tracks track member
    exact track.ready
  obtain ⟨song, loaded, -, channels, -, reads⟩ := loads_of_encode ready encoded
  refine ⟨song, loaded, ?_⟩
  rw [Target.check, forM_eq_ok_iff]
  intro channel present
  obtain ⟨track, member, rfl⟩ := List.mem_map.mp (channels.mem_iff.mpr present)
  obtain ⟨settings, here, suited⟩ := suits.tracks track member
  have reading := reads track member
  apply Target.checkChannel_eq_ok here
  · rw [reading]
  · rw [reading]
    intro piece among pitch sounds
    obtain ⟨event, inTrack, part⟩ := List.mem_flatMap.mp among
    rw [Event.eq_of_mem_pieces part sounds] at sounds
    exact suited.plays event inTrack pitch sounds

theorem Suits.fits (suits : draft.Suits target) (few : target.channels.length ≤ 255) :
    draft.Fits target := by
  refine ⟨?_, fun data => suits.check_of_encode⟩
  intro error failed
  have opens : ∀ track ∈ draft.tracks, track.channel ≠ songEnd := by
    intro track member ends
    obtain ⟨_, here, -⟩ := suits.tracks track member
    have inside := (List.getElem?_eq_some_iff.mp here).1
    rw [ends] at inside
    exact Nat.not_lt_of_le few inside
  have writable : ∀ track ∈ draft.tracks, ∀ event ∈ track.events, TrackDraft.Writable event := by
    intro track member
    obtain ⟨_, -, suited⟩ := suits.tracks track member
    exact suited.writable
  rcases encode_of_writable suits.distinct opens writable with ⟨track, member, long⟩ | ⟨data, encoded⟩
  · rw [long] at failed
    cases failed
    exact ⟨track, member, rfl⟩
  · rw [encoded] at failed
    cases failed

end Suits

end SongDraft

end Buzzer
