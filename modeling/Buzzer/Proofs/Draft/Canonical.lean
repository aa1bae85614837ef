import Mathlib
import Buzzer.Proofs.Draft.Rewriting

/-!
What has been written once is written in the same way again. The pieces that a rest is read back in are
joined to the rest that was written, so a track that is put together from what it plays holds the events of
the track that was written, and nothing else of a track decides about its bytes but its channel and its
pause.
-/
namespace Buzzer

namespace Event

theorem joinFrom_rests (lengths : List Nat) (later : List Event) (resting : Nat) :
    joinFrom resting (rests lengths ++ later) = joinFrom (resting + total (rests lengths)) later := by
  induction lengths generalizing resting with
  | nil => rfl
  | cons length lengths ih =>
    calc
      joinFrom resting (rests (length :: lengths) ++ later)
      _ = joinFrom (resting + length) (rests lengths ++ later) := rfl
      _ = joinFrom (resting + length + total (rests lengths)) later := ih _
      _ = joinFrom (resting + total (rests (length :: lengths))) later := by
        rw [Nat.add_assoc]
        rfl

theorem flatMap_pieces_rests (lengths : List Nat) :
    (rests lengths).flatMap pieces = rests (lengths.flatMap (cut maxDuration)) := by
  rw [rests, rests, List.flatMap_map, List.map_flatMap]
  rfl

theorem total_pieces (events : List Event) : total (events.flatMap pieces) = total events := by
  rw [← length_spread, spread_pieces, length_spread]

/-- The pieces of some rests are joined to as many ticks as the rests. -/
theorem joinFrom_pieces_rests (lengths : List Nat) (later : List Event) (resting : Nat) :
    joinFrom resting ((rests lengths).flatMap pieces ++ later) =
      joinFrom (resting + total (rests lengths)) later := by
  rw [← total_pieces (rests lengths), flatMap_pieces_rests, joinFrom_rests]

/-- Joining rests again undoes both ways of cutting them. -/
theorem joinFrom_pieces_joinFrom (events : List Event) (before resting : Nat) :
    joinFrom before ((joinFrom resting events).flatMap pieces) = joinFrom (before + resting) events := by
  induction events generalizing before resting with
  | nil =>
    have joined := joinFrom_pieces_rests (cut maxTicks resting) [] before
    rwa [List.append_nil, total_cut] at joined
  | cons first later ih =>
    obtain ⟨note, ticks⟩ := first
    cases note with
    | rest =>
      rw [joinFrom, joinFrom, ih, Nat.add_assoc]
    | tone pitch =>
      by_cases silent : ticks = 0
      · rw [joinFrom, joinFrom, if_pos silent, if_pos silent, ih]
      · have sounding : (⟨.tone pitch, ticks⟩ :: joinFrom 0 later).flatMap pieces =
            ⟨.tone pitch, ticks⟩ :: (joinFrom 0 later).flatMap pieces := rfl
        rw [joinFrom, if_neg silent, List.flatMap_append, joinFrom_pieces_rests, total_cut, sounding,
          joinFrom, if_neg silent, ih, Nat.zero_add, joinFrom, if_neg silent]

theorem joinFrom_normalForm (events : List Event) : joinFrom 0 (normalForm events) = joinFrom 0 events :=
  joinFrom_pieces_joinFrom events 0 0

end Event

namespace TrackCall

/-- Whether a call chooses a pause. -/
def isPause : TrackCall → Bool
  | note _ => false
  | pause _ => true

theorem events_filter_isPause (calls : List TrackCall) : events (calls.filter isPause) = [] := by
  rw [events, List.filterMap_eq_nil_iff]
  intro call member
  cases call with
  | note event => cases (List.mem_filter.mp member).2
  | pause ticks => rfl

theorem filter_isPause_map_note (notes : List Event) : (notes.map note).filter isPause = [] := by
  rw [List.filter_map]
  simp [Function.comp_def, isPause]

/-- The calls that put a track together again from what it plays: the pauses that were chosen for it, then
its notes. -/
def again (calls : List TrackCall) (notes : List Event) : List TrackCall :=
  calls.filter isPause ++ notes.map note

theorem events_again (calls : List TrackCall) (notes : List Event) : events (again calls notes) = notes := by
  rw [again, events, List.filterMap_append]
  exact (congrArg₂ (· ++ ·) (events_filter_isPause calls) (events_map_note notes)).trans (List.nil_append _)

theorem filter_isPause_again (calls : List TrackCall) (notes : List Event) :
    (again calls notes).filter isPause = calls.filter isPause := by
  rw [again, List.filter_append, List.filter_filter, filter_isPause_map_note, List.append_nil]
  simp only [Bool.and_self]

end TrackCall

namespace TrackDraft

theorem eq_of_events {first second : TrackDraft} (channel : first.channel = second.channel)
    (events : first.events = second.events) (pause : first.pause = second.pause) : first = second := by
  obtain ⟨firstChannel, firstLatest, firstPause⟩ := first
  obtain ⟨secondChannel, secondLatest, secondPause⟩ := second
  have latest : firstLatest = secondLatest := List.reverse_injective events
  cases channel
  cases pause
  rw [latest]

/-- The pause of a track depends on nothing but the calls that choose one. -/
theorem pause_foldl_call (calls : List TrackCall) {draft other : TrackDraft}
    (same : draft.pause = other.pause) :
    (calls.foldl call draft).pause = ((calls.filter TrackCall.isPause).foldl call other).pause := by
  induction calls generalizing draft other with
  | nil => exact same
  | cons first later ih =>
    cases first with
    | note event =>
      obtain ⟨latest, added⟩ := add_keeps_rest_of_draft draft event.note event.ticks
      have kept : (draft.call (.note event)).pause = other.pause := by
        rw [call, added]
        exact same
      exact ih kept
    | pause ticks =>
      have chosen : (draft.call (.pause ticks)).pause = (other.call (.pause ticks)).pause := rfl
      exact ih chosen

/-- A track that is put together again from the normal form of its calls is the same track. -/
theorem ofCalls_again (channel : UInt8) {calls : List TrackCall}
    (short : ∀ event ∈ TrackCall.events calls, event.ticks ≤ maxTicks)
    (shortAgain : ∀ event ∈ Event.normalForm (TrackCall.events calls), event.ticks ≤ maxTicks) :
    ofCalls channel (TrackCall.again calls (Event.normalForm (TrackCall.events calls))) =
      ofCalls channel calls := by
  have notes := TrackCall.events_again calls (Event.normalForm (TrackCall.events calls))
  refine eq_of_events ?_ ?_ ?_
  · rw [channel_ofCalls, channel_ofCalls]
  · rw [events_ofCalls channel (by rwa [notes]), notes, Event.joinFrom_normalForm,
      events_ofCalls channel short]
  · rw [ofCalls, pause_foldl_call _ rfl, TrackCall.filter_isPause_again, ofCalls]
    exact (pause_foldl_call calls rfl).symm

end TrackDraft

namespace SongDraft

theorem pairwise_sorted (draft : SongDraft) :
    draft.sorted.Pairwise fun first second => decide (first.channel ≤ second.channel) = true :=
  (List.pairwise_map.mp (sorted_channels draft)).imp decide_eq_true

/-- Writing a song takes its tracks in the order of their channels, so they can be in that order before. -/
theorem encode_sorted (draft : SongDraft) : encode ⟨draft.tempo, draft.sorted⟩ = draft.encode := by
  have sorted : sorted ⟨draft.tempo, draft.sorted⟩ = draft.sorted :=
    List.mergeSort_of_pairwise (pairwise_sorted draft)
  rw [encode_eq, encode_eq, sorted]

/-- The calls for a channel, none if it has no track. -/
def callsFor (tracks : List (UInt8 × List TrackCall)) (channel : UInt8) : List TrackCall :=
  (tracks.lookup channel).getD []

theorem callsFor_of_mem {tracks : List (UInt8 × List TrackCall)} (distinct : (tracks.map Prod.fst).Nodup)
    {track : UInt8 × List TrackCall} (member : track ∈ tracks) : callsFor tracks track.1 = track.2 := by
  obtain ⟨before, after, rfl⟩ := List.append_of_mem member
  have absent : ∀ other ∈ before, (track.1 != other.1) = true := by
    intro other among
    rw [List.map_append, List.map_cons, List.nodup_append] at distinct
    rw [bne_iff_ne]
    exact (distinct.2.2 _ (List.mem_map_of_mem among) _ List.mem_cons_self).symm
  have found : (before ++ track :: after).lookup track.1 = some track.2 :=
    List.lookup_eq_some_iff.mpr ⟨before, after, rfl, absent⟩
  rw [callsFor, found, Option.getD_some]

/-- The draft that a song which has been written from some tracks is put together in again: for each of its
channels, the pauses chosen for the track and the events that are read from the song. -/
def rebuilt (song : Song) (tempo : UInt8) (tracks : List (UInt8 × List TrackCall)) : SongDraft where
  tempo
  tracks := song.channels.map fun channel =>
    TrackDraft.ofCalls channel
      (TrackCall.again (callsFor tracks channel) (song.reading channel).events)

section Rebuilt

variable {tempo : UInt8} {tracks : List (UInt8 × List TrackCall)} {song : Song}

/-- The track of a written channel is put together again as it was. -/
theorem ofCalls_of_reading (distinct : (tracks.map Prod.fst).Nodup) {track : UInt8 × List TrackCall}
    (member : track ∈ tracks) (short : ∀ event ∈ TrackCall.events track.2, event.ticks ≤ maxTicks)
    (reads : (song.reading track.1).events = Event.normalForm (TrackCall.events track.2)) :
    TrackDraft.ofCalls track.1
        (TrackCall.again (callsFor tracks track.1) (song.reading track.1).events) =
      TrackDraft.ofCalls track.1 track.2 := by
  have shortAgain : ∀ event ∈ Event.normalForm (TrackCall.events track.2), event.ticks ≤ maxTicks := by
    intro event among
    have playable := song.playable_of_reading track.1 event (reads ▸ among)
    exact Nat.le_trans playable.most (by decide)
  rw [callsFor_of_mem distinct member, reads, TrackDraft.ofCalls_again track.1 short shortAgain]

/-- A song that has been written, loaded and put together again is written with the same bytes. -/
theorem encode_rebuilt {data : List UInt8}
    (short : ∀ track ∈ tracks, ∀ event ∈ TrackCall.events track.2, event.ticks ≤ maxTicks)
    (encoded : (ofCalls tempo tracks).encode = .ok data) :
    ∃ song, Song.ofBytes data = .ok song ∧ song.tempo? = some tempo ∧
      (∀ channel ∈ song.channels, (song.reading channel).complete = true) ∧
      (rebuilt song tempo tracks).encode = .ok data := by
  obtain ⟨song, loaded, tempos, perm, ordered, plays⟩ :=
    loads_of_encode (ready_ofCalls tempo short) encoded
  refine ⟨song, loaded, tempos, ?_, ?_⟩
  · intro channel present
    obtain ⟨track, member, rfl⟩ := List.mem_map.mp (perm.mem_iff.mpr present)
    rw [plays track member]
  have sorted := (ofCalls tempo tracks).sorted_perm
  have channels : song.channels = (ofCalls tempo tracks).sorted.map TrackDraft.channel := by
    refine List.Perm.eq_of_pairwise ?_ ordered (encode_eq_ok encoded).1
      (perm.symm.trans (sorted.map TrackDraft.channel).symm)
    intro first second _ _ below above
    exact (UInt8.lt_asymm below above).elim
  have distinct : (tracks.map Prod.fst).Nodup := by
    rw [← channels_ofCalls tempo]
    exact perm.nodup_iff.mpr (ordered.imp UInt8.ne_of_lt)
  have same : (rebuilt song tempo tracks).tracks = (ofCalls tempo tracks).sorted := by
    rw [rebuilt, channels, List.map_map]
    refine (List.map_congr_left ?_).trans (List.map_id _)
    intro draft member
    have among := sorted.mem_iff.mp member
    have reads := plays draft among
    obtain ⟨track, present, rfl⟩ := List.mem_map.mp among
    rw [TrackDraft.channel_ofCalls, TrackDraft.events_ofCalls track.1 (short track present)] at reads
    have again := ofCalls_of_reading distinct present (short track present)
      (congrArg Cursor.Reading.events reads)
    rwa [Function.comp_apply, TrackDraft.channel_ofCalls]
  calc
    (rebuilt song tempo tracks).encode
    _ = encode ⟨tempo, (ofCalls tempo tracks).sorted⟩ := by rw [← same]; rfl
    _ = (ofCalls tempo tracks).encode := encode_sorted _
    _ = .ok data := encoded

end Rebuilt

/-- The rests of the first track are read back in other pieces than they were put together from. The default
pause of the second one is folded into both of its tones. -/
def longRest : List (UInt8 × List TrackCall) :=
  [(3, [.note ⟨.tone 7, 3⟩, .note ⟨.rest, 16000⟩, .note ⟨.rest, 500⟩, .pause 5]),
    (1, [.note ⟨.tone 4, 1⟩, .note ⟨.rest, 2⟩, .note ⟨.tone 5, 1⟩, .note ⟨.rest, 2⟩])]

def longRestBytes : List UInt8 :=
  [121, 1, 10, 0, 9, 0, 1, 89, 90, 255, 129, 3, 14, 0, 10, 0, 4, 7, 84, 84, 255, 2, 255, 255, 115, 255]

set_option maxRecDepth 8192 in
theorem longRest_rebuilt :
    ∃ song, Song.ofBytes longRestBytes = .ok song ∧
      (rebuilt song 0x79 longRest).encode = .ok longRestBytes := by
  have encoded : (ofCalls 0x79 longRest).encode = .ok longRestBytes := by cbv
  have short : ∀ track ∈ longRest, ∀ event ∈ TrackCall.events track.2, event.ticks ≤ maxTicks := by decide
  obtain ⟨song, loaded, -, -, again⟩ := encode_rebuilt short encoded
  exact ⟨song, loaded, again⟩

end SongDraft

end Buzzer
