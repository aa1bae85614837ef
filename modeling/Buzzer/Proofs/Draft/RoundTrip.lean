import Mathlib
import Buzzer.Proofs.Draft.Encoding
import Buzzer.Proofs.Song.Loading

/-!
Songs that have been written are loaded, and every channel plays the normal form of what its track was
put together from.
-/
namespace Buzzer

theorem word_wordBytes {value : Nat} (small : value ≤ maxBlock) :
    word (UInt8.ofNat value) (UInt8.ofNat (value / 0x100)) = value := by
  have limit : value ≤ 0xffff := small
  rw [word, UInt8.toNat_ofNat', UInt8.toNat_ofNat']
  omega

namespace TrackDraft

theorem commonPause_foldable (pauses : List Nat) :
    0 < commonPause pauses ∧ commonPause pauses ≤ maxFoldedPause := by
  unfold commonPause
  refine List.foldlRecOn _ _ (motive := fun best => 0 < best ∧ best ≤ maxFoldedPause) (by decide) ?_
  intro best found ticks member
  have range : 1 ≤ ticks ∧ ticks < 1 + maxFoldedPause := List.mem_range'_1.mp member
  by_cases more : pauses.count best < pauses.count ticks
  · rw [if_pos more]
    omega
  · rw [if_neg more]
    exact found

theorem foldedPause_foldable {draft : TrackDraft} (ready : draft.Ready) :
    0 < draft.foldedPause ∧ draft.foldedPause ≤ maxFoldedPause := by
  unfold foldedPause
  cases chosen : draft.pause with
  | none =>
    rw [Option.getD_none]
    exact commonPause_foldable _
  | some pause =>
    rw [Option.getD_some]
    exact ready.foldable pause chosen

theorem values_small {written : List Written} (sound : ∀ note ∈ written, note.Sound) :
    ∀ value ∈ values written, value < maxDuration := by
  intro value member
  obtain ⟨ticks, among, rfl⟩ := List.mem_map.mp member
  obtain ⟨note, inside, holds⟩ := List.mem_filterMap.mp among
  cases sound note inside with
  | timed _ lasting most =>
    cases holds
    omega
  | pause _ => cases holds

section Encoded

variable {draft : TrackDraft} {block bytes rest : List UInt8} {offset : Nat}

theorem reading_arrays (ready : draft.Ready) (writable : ∀ event ∈ draft.events, Writable event)
    (noteJunk durationJunk : List UInt8) {cursor : Cursor}
    (notes : cursor.notes = some (noteBytes draft.notes ++ noteJunk))
    (durations : cursor.durations = ⟨durationBytes draft.notes ++ durationJunk, 0, 0⟩)
    (pause : cursor.pause = draft.foldedPause - 1) :
    cursor.reading = ⟨draft.events.flatMap Event.pieces, true⟩ := by
  have foldable := foldedPause_foldable ready
  have gives : Gives draft.foldedPause draft.notes draft.events :=
    gives_written foldable draft.events ready.lasting writable
  have yields : cursor.durations.Yields (values draft.notes)
      ⟨durationJunk, (values draft.notes).getLastD 0, 0⟩ := by
    rw [durations]
    exact DurationReader.yields_encode (values_small gives.sound) durationJunk
  have fresh : cursor.durations.running < pauseMark := by
    rw [durations]
    exact Nat.zero_lt_of_ne_zero (by decide)
  have whole : cursor.pause + 1 = draft.foldedPause := by
    rw [pause]
    exact Nat.sub_add_cancel foldable.1
  rw [reading_written draft.notes gives.sound noteJunk notes fresh yields, whole, gives.played]

theorem read?_headerBytes (ready : draft.Ready) (fits : draft.header.length ≤ maxBlock)
    (rest : List UInt8) : Header.read? (draft.headerBytes ++ rest) = some draft.header := by
  have foldable := foldedPause_foldable ready
  have most : draft.foldedPause ≤ 0x100 := foldable.2
  have ordered : draft.header.durationOffset ≤ draft.header.length := Nat.le_add_right _ _
  have pause : (UInt8.ofNat (draft.foldedPause - 1)).toNat = draft.foldedPause - 1 := by
    rw [UInt8.toNat_ofNat']
    omega
  have length := word_wordBytes fits
  have durationOffset := word_wordBytes (Nat.le_trans ordered fits)
  simp only [headerBytes, wordBytes, List.cons_append, List.nil_append, Header.read?, length,
    durationOffset, pause]
  rfl

/-- The block of a track is sound wherever it stands in a song. -/
theorem sound_of_encode (ready : draft.Ready) (encoded : draft.encode = .ok block)
    (here : bytes.drop offset = block ++ rest) : SoundBlock bytes offset draft.header := by
  have size := length_of_encode encoded
  obtain ⟨opens, writable, fits, same⟩ := encode_eq_ok encoded
  have hasNotes : headerLength < draft.header.durationOffset := by
    have stops : 0 < (noteBytes draft.notes).length := by
      rw [noteBytes, List.length_append]
      exact Nat.succ_pos _
    exact Nat.lt_add_of_pos_right stops
  have ordered : draft.header.durationOffset ≤ draft.header.length := Nat.le_add_right _ _
  have inside : offset + draft.header.length ≤ bytes.length := by
    have lengths := congrArg List.length here
    rw [List.length_drop, List.length_append] at lengths
    omega
  have whole : (bytes.drop offset).take draft.header.length = block := by
    rw [here, ← size, List.take_left']
    rfl
  have notes : (block.take draft.header.durationOffset).drop headerLength = noteBytes draft.notes := by
    rw [same, ← List.append_assoc, List.take_left' (by rw [List.length_append]; rfl)]
    exact List.drop_left' rfl
  have durations : block.drop draft.header.durationOffset = durationBytes draft.notes := by
    rw [same, ← List.append_assoc]
    exact List.drop_left' (by rw [List.length_append]; rfl)
  refine ⟨?_, opens, Nat.lt_of_lt_of_le hasNotes ordered, inside, hasNotes, ordered, ?_⟩
  · rw [here, same, List.append_assoc]
    exact read?_headerBytes ready fits _
  · rw [← SoundBlock.checkTrack_iff_confined draft.channel inside ordered, whole, notes, durations]
    let cursor : Cursor :=
      { notes := some (noteBytes draft.notes)
        durations := ⟨durationBytes draft.notes, 0, 0⟩
        pause := draft.foldedPause - 1
        note := .rest
        left := 0 }
    have complete : cursor.reading.complete = true := by
      rw [reading_arrays ready writable [] [] (by rw [List.append_nil]) (by rw [List.append_nil]) rfl]
    exact (Song.checkTrack_iff_complete draft.channel cursor _ rfl).mpr complete

theorem reading_of_encode (ready : draft.Ready) (encoded : draft.encode = .ok block)
    (here : bytes.drop offset = block ++ rest) :
    ∃ cursor, Block.cursor? ⟨draft.channel, offset, bytes.drop offset⟩ = some cursor ∧
      cursor.reading = ⟨draft.events.flatMap Event.pieces, true⟩ := by
  have sound := sound_of_encode ready encoded here
  obtain ⟨-, writable, -, rfl⟩ := encode_eq_ok encoded
  have notes : (bytes.drop offset).drop headerLength =
      noteBytes draft.notes ++ (durationBytes draft.notes ++ rest) := by
    rw [here, List.append_assoc, List.append_assoc]
    exact List.drop_left' rfl
  have durations : (bytes.drop offset).drop draft.header.durationOffset =
      durationBytes draft.notes ++ rest := by
    rw [here, ← List.append_assoc, List.append_assoc]
    exact List.drop_left' (by rw [List.length_append]; rfl)
  refine ⟨_, by rw [Block.cursor?, sound.read, Option.map_some], ?_⟩
  have reader : DurationReader.mk ((bytes.drop offset).drop draft.header.durationOffset) 0 0 =
      ⟨durationBytes draft.notes ++ rest, 0, 0⟩ := by
    rw [durations]
  exact reading_arrays ready writable _ rest (congrArg some notes) reader rfl

end Encoded

end TrackDraft

namespace SongDraft

theorem blocks_of_encode {tracks : List TrackDraft} {blocks : List (List UInt8)} {bytes : List UInt8}
    {previous : Option UInt8} {offset : Nat} (ready : ∀ track ∈ tracks, track.Ready)
    (encoded : List.Forall₂ (fun track block => track.encode = .ok block) tracks blocks)
    (ordered : (tracks.map TrackDraft.channel).Pairwise (· < ·))
    (above : ∀ before ∈ previous, ∀ track ∈ tracks, before < track.channel)
    (here : bytes.drop offset = blocks.flatten ++ [songEnd]) :
    SoundFrom bytes previous offset ∧
      (Song.blocksFrom offset (bytes.drop offset)).map Block.channel = tracks.map TrackDraft.channel ∧
      ∀ track ∈ tracks, ∃ block ∈ Song.blocksFrom offset (bytes.drop offset),
        block.channel = track.channel ∧ ∃ cursor, block.cursor? = some cursor ∧
          cursor.reading = ⟨track.events.flatMap Event.pieces, true⟩ := by
  induction encoded generalizing previous offset with
  | nil =>
    have stop : bytes[offset]? = some songEnd := by
      rw [← List.head?_drop, here]
      rfl
    refine ⟨.stop stop, ?_, fun track member => (by cases member)⟩
    rw [here]
    exact congrArg (List.map Block.channel) (Song.blocksFrom_songEnd offset [])
  | @cons track block later laterBlocks first others ih =>
    rw [List.map_cons, List.pairwise_cons] at ordered
    rw [List.flatten_cons, List.append_assoc] at here
    have readyTrack := ready track List.mem_cons_self
    have sound := TrackDraft.sound_of_encode readyTrack first here
    have plays := TrackDraft.reading_of_encode readyTrack first here
    have size := TrackDraft.length_of_encode first
    have hereLater : bytes.drop (offset + track.header.length) =
        laterBlocks.flatten ++ [songEnd] := by
      rw [← List.drop_drop, here, ← size]
      exact List.drop_left' rfl
    have aboveLater : ∀ before ∈ some track.channel, ∀ other ∈ later, before < other.channel := by
      intro before same other member
      cases same
      exact ordered.1 _ (List.mem_map_of_mem member)
    obtain ⟨row, channels, playsLater⟩ :=
      ih (fun other member => ready other (List.mem_cons_of_mem _ member)) ordered.2
        aboveLater hereLater
    rw [Song.blocksFrom_block sound]
    refine ⟨.block sound (fun before same => above before same track List.mem_cons_self) row, ?_, ?_⟩
    · rw [List.map_cons, List.map_cons, channels]
      rfl
    · intro other member
      rcases List.mem_cons.mp member with rfl | member
      · exact ⟨_, List.mem_cons_self, rfl, plays⟩
      · obtain ⟨found, among, reads⟩ := playsLater other member
        exact ⟨found, List.mem_cons_of_mem _ among, reads⟩

/-- A song that has been written is loaded, and its channels play the pieces of what their tracks
hold. -/
theorem loads_of_encode {draft : SongDraft} {data : List UInt8}
    (ready : ∀ track ∈ draft.tracks, track.Ready) (encoded : draft.encode = .ok data) :
    ∃ song, Song.ofBytes data = .ok song ∧ song.tempo? = some draft.tempo ∧
      (draft.tracks.map TrackDraft.channel).Perm song.channels ∧ song.channels.Pairwise (· < ·) ∧
      ∀ track ∈ draft.tracks,
        song.reading track.channel = ⟨track.events.flatMap Event.pieces, true⟩ := by
  have sorted := draft.sorted_perm
  obtain ⟨increasing, blocks, written, rfl⟩ := encode_eq_ok encoded
  have readySorted : ∀ track ∈ draft.sorted, track.Ready :=
    fun track member => ready track (sorted.mem_iff.mp member)
  obtain ⟨row, channels, plays⟩ :=
    @blocks_of_encode draft.sorted blocks (draft.tempo :: (blocks.flatten ++ [songEnd])) none 1
      readySorted written increasing (fun before absurd => by cases absurd) rfl
  have loaded := (Song.ofBytes_iff_sound _ _).mpr ⟨rfl, List.cons_ne_nil _ _, row⟩
  refine ⟨_, loaded, rfl, ?_, ?_, ?_⟩
  · have same := (sorted.map TrackDraft.channel).symm
    rwa [← channels] at same
  · exact (Song.blocks_of_loaded loaded).2.2.1
  · intro track member
    obtain ⟨block, among, same, cursor, loads, reads⟩ := plays track (sorted.mem_iff.mpr member)
    rw [← same, Song.reading_of_mem loaded among loads, reads]

/-- The song of some channels whose tracks are put together by calls. -/
def ofCalls (tempo : UInt8) (tracks : List (UInt8 × List TrackCall)) : SongDraft :=
  ⟨tempo, tracks.map fun track => TrackDraft.ofCalls track.1 track.2⟩

section OfCalls

variable {tracks : List (UInt8 × List TrackCall)}

theorem channels_ofCalls (tempo : UInt8) (tracks : List (UInt8 × List TrackCall)) :
    (ofCalls tempo tracks).tracks.map TrackDraft.channel = tracks.map Prod.fst := by
  rw [ofCalls, List.map_map]
  exact List.map_congr_left fun track _ => TrackDraft.channel_ofCalls track.1 track.2

theorem ready_ofCalls (tempo : UInt8)
    (short : ∀ track ∈ tracks, ∀ event ∈ TrackCall.events track.2, event.ticks ≤ maxTicks) :
    ∀ draft ∈ (ofCalls tempo tracks).tracks, draft.Ready := by
  intro draft member
  obtain ⟨track, among, rfl⟩ := List.mem_map.mp member
  exact TrackDraft.ready_ofCalls track.1 (short track among)

end OfCalls

/-- Every channel of a song that has been written and loaded plays the normal form of the events that
its track was put together from, whatever pauses were chosen. -/
theorem plays_normalForm (tempo : UInt8) (tracks : List (UInt8 × List TrackCall)) {data : List UInt8}
    (short : ∀ track ∈ tracks, ∀ event ∈ TrackCall.events track.2, event.ticks ≤ maxTicks)
    (encoded :
      encode ⟨tempo, tracks.map fun track => TrackDraft.ofCalls track.1 track.2⟩ = .ok data) :
    ∃ song, Song.ofBytes data = .ok song ∧ song.tempo? = some tempo ∧
      (tracks.map Prod.fst).Perm song.channels ∧ song.channels.Pairwise (· < ·) ∧
      ∀ track ∈ tracks,
        song.reading track.1 = ⟨Event.normalForm (TrackCall.events track.2), true⟩ := by
  have ready : ∀ draft ∈ tracks.map fun track => TrackDraft.ofCalls track.1 track.2, draft.Ready := by
    intro draft member
    obtain ⟨track, among, rfl⟩ := List.mem_map.mp member
    exact TrackDraft.ready_ofCalls track.1 (short track among)
  obtain ⟨song, loaded, tempos, channels, ordered, plays⟩ := loads_of_encode ready encoded
  refine ⟨song, loaded, tempos, ?_, ordered, ?_⟩
  · have names : (tracks.map fun track => TrackDraft.ofCalls track.1 track.2).map TrackDraft.channel =
        tracks.map Prod.fst := by
      rw [List.map_map]
      exact List.map_congr_left fun track _ => TrackDraft.channel_ofCalls track.1 track.2
    rwa [← names]
  · intro track member
    have reads := plays _ (List.mem_map_of_mem member)
    rw [TrackDraft.channel_ofCalls, TrackDraft.events_ofCalls track.1 (short track member)] at reads
    exact reads

set_option maxRecDepth 8192 in
/-- Two rests around a tone without a length are joined, and they are folded into the tone before. -/
theorem plays_normalForm_folded :
    ∃ song, Song.ofBytes [0x79, 2, 9, 0, 8, 0, 4, 0x59, 0xff, 2, 0xff] = .ok song ∧
      song.reading 2 = ⟨[⟨.tone 4, 3⟩, ⟨.rest, 5⟩], true⟩ := by
  have encoded : encode ⟨0x79, [(2, [.note ⟨.tone 4, 3⟩, .pause 5, .note ⟨.rest, 2⟩, .note ⟨.tone 6, 0⟩,
      .note ⟨.rest, 3⟩])].map fun track => TrackDraft.ofCalls track.1 track.2⟩ =
        .ok [0x79, 2, 9, 0, 8, 0, 4, 0x59, 0xff, 2, 0xff] := by
    cbv
  obtain ⟨song, loaded, -, -, -, plays⟩ := plays_normalForm _ _ (by decide) encoded
  exact ⟨song, loaded, plays _ List.mem_cons_self⟩

end SongDraft

end Buzzer
