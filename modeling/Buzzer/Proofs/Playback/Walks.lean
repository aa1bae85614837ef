import Buzzer.Proofs.Playback.Ticks
import Buzzer.Proofs.Song.Truncation

/-!
The walks over the headers of a song. Loading a song goes from block to block to check them, listing its
channels only follows the lengths in the headers, and starting to play it takes at most one block for each
channel in turn. On a loaded song all three find the same blocks.
-/
namespace Buzzer

namespace Song

/-- The blocks that the check of a song goes through, unless it refuses one of them. -/
def checkedBlocks (previous : Option UInt8) (offset : Nat) (rest : List UInt8) :
    Except SongError (List Block) :=
  match _here : rest with
  | [] => .ok []
  | channel :: _ =>
    if channel = songEnd then .ok []
    else
      match _checked : checkBlock previous offset channel rest with
      | .error error => .error error
      | .ok header =>
        (checkedBlocks (some channel) (offset + header.length) (rest.drop header.length)).map
          (⟨channel, offset, rest⟩ :: ·)
termination_by rest.length
decreasing_by
  have := headerLength_lt_of_checkBlock _checked
  simp only [_here, List.length_drop, List.length_cons]
  omega

section Check

variable {previous : Option UInt8} {offset : Nat} {channel : UInt8} {tail : List UInt8}

theorem checkedBlocks_of_accepted {header : Header} (opens : channel ≠ songEnd)
    (accepted : checkBlock previous offset channel (channel :: tail) = .ok header) :
    checkedBlocks previous offset (channel :: tail) =
      (checkedBlocks (some channel) (offset + header.length) ((channel :: tail).drop header.length)).map
        (⟨channel, offset, channel :: tail⟩ :: ·) := by
  rw [checkedBlocks, if_neg opens]
  split
  next error refused =>
    rw [accepted] at refused
    cases refused
  next found checked =>
    rw [accepted, Except.ok.injEq] at checked
    rw [checked]

theorem checkedBlocks_of_refused {error : SongError} (opens : channel ≠ songEnd)
    (refused : checkBlock previous offset channel (channel :: tail) = .error error) :
    checkedBlocks previous offset (channel :: tail) = .error error := by
  rw [checkedBlocks, if_neg opens]
  split
  next found same =>
    rw [refused, Except.error.injEq] at same
    rw [same]
  next header accepted =>
    rw [refused] at accepted
    cases accepted

/-- Keeping the blocks does not change what the check comes to. -/
theorem checkBlocks_eq_map (previous : Option UInt8) (offset : Nat) (rest : List UInt8) :
    checkBlocks previous offset rest = (checkedBlocks previous offset rest).map fun _ => () := by
  induction previous, offset, rest using checkedBlocks.induct with
  | case1 previous offset =>
    rw [checkBlocks, checkedBlocks]
    rfl
  | case2 previous offset tail =>
    rw [checkBlocks, checkedBlocks, if_pos rfl, if_pos rfl]
    rfl
  | case3 previous offset channel tail opens error refused =>
    rw [checkBlocks_of_refused opens refused, checkedBlocks_of_refused opens refused]
    rfl
  | case4 previous offset channel tail opens header accepted ih =>
    rw [checkBlocks_of_accepted opens accepted, checkedBlocks_of_accepted opens accepted, ih]
    cases checkedBlocks (some channel) (offset + header.length) ((channel :: tail).drop header.length) <;>
      rfl

/-- The walk that only follows the lengths in the headers finds the blocks that are checked. -/
theorem blocksFrom_of_checked {bytes : List UInt8} {blocks : List Block}
    (checked : checkedBlocks previous offset (bytes.drop offset) = .ok blocks) :
    blocksFrom offset (bytes.drop offset) = blocks := by
  generalize rest : bytes.drop offset = data at checked ⊢
  induction previous, offset, data using checkedBlocks.induct generalizing blocks with
  | case1 previous offset =>
    rw [checkedBlocks] at checked
    rw [blocksFrom_nil, Except.ok.inj checked]
  | case2 previous offset tail =>
    rw [checkedBlocks, if_pos rfl] at checked
    rw [blocksFrom_songEnd, Except.ok.inj checked]
  | case3 previous offset channel tail opens error refused =>
    rw [checkedBlocks_of_refused opens refused] at checked
    cases checked
  | case4 previous offset channel tail opens header accepted ih =>
    rw [checkedBlocks_of_accepted opens accepted] at checked
    have block := ((checkBlock_iff_sound rest opens previous header).mp (rest ▸ accepted)).2
    have same : header.channel = channel := Header.channel_of_read? (rest ▸ block.read)
    cases later : checkedBlocks (some channel) (offset + header.length)
        ((channel :: tail).drop header.length) with
    | error error =>
      rw [later] at checked
      cases checked
    | ok found =>
      rw [later] at checked
      have follows := ih (by rw [← rest, List.drop_drop]) later
      rw [← rest, blocksFrom_block block, rest, same, ← List.drop_drop, rest, follows]
      exact Except.ok.inj checked

end Check

theorem ofBytes_eq_checked {bytes : List UInt8} (full : bytes ≠ []) :
    ofBytes bytes = (checkedBlocks none 1 (bytes.drop 1)).map fun _ => ⟨bytes⟩ := by
  rw [ofBytes, if_neg (mt List.isEmpty_iff.mp full), checkBlocks_eq_map]
  cases checkedBlocks none 1 (bytes.drop 1) <;> rfl

theorem checked_of_loaded {bytes : List UInt8} {song : Song} (loaded : ofBytes bytes = .ok song) :
    checkedBlocks none 1 (bytes.drop 1) = .ok song.blocks := by
  obtain ⟨same, full, -⟩ := blocks_of_loaded loaded
  rw [ofBytes_eq_checked full] at loaded
  cases checked : checkedBlocks none 1 (bytes.drop 1) with
  | error error =>
    rw [checked] at loaded
    cases loaded
  | ok found => rw [Song.blocks, same, blocksFrom_of_checked checked]

/-- A channel is looked up at the start of its own block. -/
theorem seek?_of_loaded {bytes : List UInt8} {song : Song} (loaded : ofBytes bytes = .ok song)
    {block : Block} (member : block ∈ song.blocks) :
    Block.seek? song.blocks block.channel = block.cursor? := by
  obtain ⟨-, -, ordered, -⟩ := blocks_of_loaded loaded
  simp only [Block.seek?, find?_channel ordered member]

end Song

namespace Playback

theorem fills_of_mem {blocks : List Block} (ordered : (blocks.map Block.channel).Pairwise (· < ·))
    {block : Block} (member : block ∈ blocks) {cursor : Cursor}
    (fills : Fills blocks block.channel.toNat cursor) : block.cursor? = some cursor := by
  have distinct : (blocks.map Block.channel).Nodup := ordered.imp UInt8.ne_of_lt
  rcases fills with ⟨other, among, same, loads⟩ | ⟨absent, -⟩
  · rwa [List.inj_on_of_nodup_map distinct member among (UInt8.toNat_inj.mp same).symm]
  · exact (absent block member rfl).elim

end Playback

/-- The blocks that are checked, listed and played are the same. On any number of channels, a channel that has
a block starts to play at the place where its events are read from, and any other channel has ended. -/
theorem Song.walks_agree {bytes : List UInt8} {song : Song} (loaded : ofBytes bytes = .ok song) :
    checkedBlocks none 1 (bytes.drop 1) = .ok song.blocks ∧
      song.channels.Pairwise (· < ·) ∧
      ∀ count, ∃ playback, Playback.start song count = some playback ∧
        playback.tracks.length = count ∧
        (∀ block ∈ song.blocks, ∃ header cursor, SoundBlock bytes block.offset header ∧
          header.channel = block.channel ∧
          cursor = (IndexedCursor.load block.offset header).toCursor bytes (.ofSong bytes) ∧
          Block.seek? song.blocks block.channel = some cursor ∧
          song.reading block.channel = cursor.reading ∧
          (block.channel.toNat < count → playback.tracks[block.channel.toNat]? = some cursor)) ∧
        ∀ channel < count, (∀ used ∈ song.channels, used.toNat ≠ channel) →
          playback.tracks[channel]? = some .ended := by
  obtain ⟨-, -, ordered, all⟩ := blocks_of_loaded loaded
  refine ⟨checked_of_loaded loaded, ordered, ?_⟩
  intro count
  obtain ⟨playback, started, length, fills⟩ := Playback.start_fills loaded count
  have filled : ∀ channel < count, ∃ cursor, playback.tracks[channel]? = some cursor ∧
      Playback.Fills song.blocks channel cursor := by
    intro channel inside
    have here := List.getElem?_eq_getElem (length.symm ▸ inside)
    exact ⟨_, here, fills channel _ here⟩
  refine ⟨playback, started, length, ?_, ?_⟩
  · intro block member
    obtain ⟨header, sound, same⟩ := all block member
    have loads : block.cursor? =
        some ((IndexedCursor.load block.offset header).toCursor bytes (.ofSong bytes)) := by
      rw [same]
      exact sound.cursor?_eq_load
    refine ⟨header, _, sound, (congrArg Block.channel same).symm, rfl, ?_,
      reading_of_mem loaded member loads, ?_⟩
    · rw [seek?_of_loaded loaded member, loads]
    · intro inside
      obtain ⟨cursor, here, fills⟩ := filled _ inside
      rw [here, ← Playback.fills_of_mem ordered member fills, loads]
  · intro channel inside unused
    obtain ⟨cursor, here, ⟨block, member, same, -⟩ | ⟨-, rfl⟩⟩ := filled channel inside
    · exact (unused _ (List.mem_map_of_mem member) same).elim
    · exact here

/-- On two channels the first one has nothing to play, and the track of channel 2 is left out. -/
theorem Song.twoTracks_on_two_channels :
    checkedBlocks none 1 (twoTracks.drop 1) =
        .ok [⟨1, 1, twoTracks.drop 1⟩, ⟨2, 10, twoTracks.drop 10⟩] ∧
      ∃ playback cursor, Playback.start ⟨twoTracks⟩ 2 = some playback ∧
        playback.tracks = [.ended, cursor] ∧ (⟨twoTracks⟩ : Song).reading 1 = cursor.reading := by
  have blocks : (⟨twoTracks⟩ : Song).blocks =
      [⟨1, 1, twoTracks.drop 1⟩, ⟨2, 10, twoTracks.drop 10⟩] := by cbv
  have channels : (⟨twoTracks⟩ : Song).channels = [1, 2] := by cbv
  obtain ⟨checked, -, plays⟩ := walks_agree ofBytes_twoTracks
  obtain ⟨playback, started, length, used, unused⟩ := plays 2
  obtain ⟨header, cursor, -, -, -, -, reads, here⟩ := used ⟨1, 1, twoTracks.drop 1⟩ (by simp [blocks])
  have first := unused 0 (by decide) (by simp [channels])
  have second := here (by decide)
  refine ⟨blocks ▸ checked, playback, cursor, started, ?_, reads⟩
  apply List.ext_getElem?
  intro channel
  cases channel with
  | zero => exact first
  | succ channel =>
    cases channel with
    | zero => exact second
    | succ channel => rw [List.getElem?_eq_none (by omega), List.getElem?_eq_none (by simp)]

end Buzzer
