import Buzzer.Proofs.Song.Format

/-!
Blocks do not depend on where they stand. The bytes of a block alone decide whether it is sound and what
is read from it, so a song from which one of its blocks is cut out is loaded as well, and keeps the
other blocks as they are.
-/
namespace Buzzer

namespace Header

theorem read?_take {length : Nat} (long : headerLength ≤ length) (rest : List UInt8) :
    read? (rest.take length) = read? rest := by
  obtain ⟨more, rfl⟩ := Nat.exists_eq_add_of_le' long
  match rest with
  | [] => rfl
  | [_] => rfl
  | [_, _] => rfl
  | [_, _, _] => rfl
  | [_, _, _, _] => rfl
  | [_, _, _, _, _] => rfl
  | _ :: _ :: _ :: _ :: _ :: _ :: _ => rfl

end Header

theorem Format.read?_take (header : Header) (rest : List UInt8) :
    read? header (rest.take header.length) = read? header rest := by
  simp only [read?, List.take_take, Nat.min_self]

namespace Block

/-- The bytes of a block, from its header to the end of its duration array. -/
def own (block : Block) : List UInt8 :=
  match Header.read? block.bytes with
  | none => []
  | some header => block.bytes.take header.length

def content (block : Block) : UInt8 × List UInt8 := (block.channel, block.own)

end Block

namespace SoundBlock

variable {bytes first second : List UInt8} {offset here there : Nat} {header : Header}

theorem own_eq (block : SoundBlock bytes offset header) (channel : UInt8) (place : Nat) :
    Block.own ⟨channel, place, bytes.drop offset⟩ = (bytes.drop offset).take header.length := by
  rw [Block.own, block.read]

theorem length_own (block : SoundBlock bytes offset header) (channel : UInt8) (place : Nat) :
    (Block.own ⟨channel, place, bytes.drop offset⟩).length = header.length := by
  have fits := block.fits
  rw [block.own_eq, List.length_take, List.length_drop]
  omega

/-- The bytes of a sound block make a sound block wherever they stand. -/
theorem moved (block : SoundBlock first here header)
    (same : (second.drop there).take header.length = (first.drop here).take header.length) :
    SoundBlock second there header := by
  have long := block.long
  have sizes := congrArg List.length same
  simp only [List.length_take, List.length_drop] at sizes
  have fitsFirst := block.fits
  have fits : there + header.length ≤ second.length := by omega
  have read : Header.read? (second.drop there) = some header := by
    rw [← Header.read?_take (Nat.le_of_lt long), same, Header.read?_take (Nat.le_of_lt long)]
    exact block.read
  have checked := (checkTrack_iff_confined header.channel fitsFirst block.ordered).mpr block.confined
  rw [← same] at checked
  exact { read, fits, long, opens := block.opens, hasNotes := block.hasNotes, ordered := block.ordered
          confined := (checkTrack_iff_confined header.channel fits block.ordered).mp checked }

end SoundBlock

namespace SoundFrom

variable {bytes first second : List UInt8} {previous lower : Option UInt8} {offset here there : Nat}

/-- A row of sound blocks is one wherever it stands, and the walk over it finds the same blocks. -/
theorem moved (sound : SoundFrom first previous here) (same : second.drop there = first.drop here) :
    SoundFrom second previous there ∧
      (Song.blocksFrom there (second.drop there)).map Block.content =
        (Song.blocksFrom here (first.drop here)).map Block.content := by
  induction sound generalizing there with
  | @past previous here past =>
    rw [same, List.drop_eq_nil_of_le past, Song.blocksFrom_nil, Song.blocksFrom_nil]
    exact ⟨.past (List.drop_eq_nil_iff.mp (same.trans (List.drop_eq_nil_of_le past))), rfl⟩
  | @stop previous here stop =>
    constructor
    · rw [← List.head?_drop, ← same, List.head?_drop] at stop
      exact .stop stop
    · rw [same, List.drop_eq_getElem?_toList_append, stop, Option.toList_some, List.singleton_append,
        Song.blocksFrom_songEnd, Song.blocksFrom_songEnd]
  | @block previous here header block above _ ih =>
    have other : SoundBlock second there header := block.moved (by rw [same])
    obtain ⟨later, contents⟩ := @ih (there + header.length) (by
      rw [← List.drop_drop, ← List.drop_drop, same])
    refine ⟨.block other above later, ?_⟩
    rw [Song.blocksFrom_block other, Song.blocksFrom_block block, List.map_cons, List.map_cons, contents,
      Block.content, Block.content, other.own_eq, block.own_eq, same]

theorem lowered (sound : SoundFrom bytes previous offset)
    (below : ∀ channel, (∀ before ∈ previous, before < channel) → ∀ before ∈ lower, before < channel) :
    SoundFrom bytes lower offset := by
  cases sound with
  | past past => exact .past past
  | stop stop => exact .stop stop
  | block block above later => exact .block block (below _ above) later

end SoundFrom

namespace Song

variable {bytes : List UInt8} {previous : Option UInt8} {offset : Nat} {block : Block}

/-- The bytes of a song from which a block is cut out. -/
def without (bytes : List UInt8) (block : Block) : List UInt8 :=
  bytes.take block.offset ++ bytes.drop (block.offset + block.own.length)

theorem drop_without (inside : block.offset ≤ bytes.length) :
    (without bytes block).drop block.offset = bytes.drop (block.offset + block.own.length) := by
  have size : (bytes.take block.offset).length = block.offset := List.length_take_of_le inside
  rw [without, List.drop_append_of_le_length (by omega), List.drop_eq_nil_of_le (by omega),
    List.nil_append]

theorem take_drop_without (inside : block.offset ≤ bytes.length) {length : Nat}
    (before : offset + length ≤ block.offset) :
    ((without bytes block).drop offset).take length = (bytes.drop offset).take length := by
  rw [without, List.drop_append_of_le_length (by simp; omega),
    List.take_append_of_le_length (by simp; omega), List.drop_take, List.take_take,
    Nat.min_eq_left (by omega)]

/-- A row of sound blocks without one of them is a row of the others. -/
theorem soundFrom_without (sound : SoundFrom bytes previous offset)
    (member : block ∈ blocksFrom offset (bytes.drop offset)) :
    offset ≤ block.offset ∧ SoundFrom (without bytes block) previous offset ∧
      (blocksFrom offset ((without bytes block).drop offset)).map Block.content =
        ((blocksFrom offset (bytes.drop offset)).filter (·.channel ≠ block.channel)).map Block.content := by
  induction sound with
  | past past => simp [List.drop_eq_nil_of_le past, blocksFrom_nil] at member
  | stop stop =>
    rw [List.drop_eq_getElem?_toList_append, stop] at member
    simp [blocksFrom_songEnd] at member
  | @block previous offset header here above later ih =>
    have fits := here.fits
    have long := here.long
    obtain ⟨-, others⟩ := blocksFrom_sound later
    rw [blocksFrom_block here] at member ⊢
    rcases List.mem_cons.mp member with rfl | among
    -- this block is the one that is cut out, so the later ones move up to where it was
    · have same : (without bytes ⟨header.channel, offset, bytes.drop offset⟩).drop offset =
          bytes.drop (offset + header.length) := by
        have inside : offset ≤ bytes.length := by omega
        rw [← here.length_own header.channel offset]
        exact @drop_without bytes ⟨header.channel, offset, bytes.drop offset⟩ inside
      obtain ⟨moved, contents⟩ := later.moved same
      refine ⟨Nat.le_refl _, moved.lowered ?_, ?_⟩
      · intro channel lower before mem
        exact UInt8.lt_trans (above before mem) (lower _ rfl)
      · rw [contents, List.filter_cons_of_neg (by simp), List.filter_eq_self.mpr]
        intro other among
        have higher := (others other among).1 _ rfl
        simpa using (UInt8.ne_of_lt higher).symm
    -- a later block is cut out, so this one stays where it is
    · obtain ⟨after, sound, contents⟩ := ih among
      obtain ⟨higher, _, other, -⟩ := others block among
      have inside : block.offset ≤ bytes.length := by
        have := other.fits
        omega
      have same := take_drop_without inside after
      have kept := here.moved same
      refine ⟨by omega, .block kept above sound, ?_⟩
      have different : header.channel ≠ block.channel := UInt8.ne_of_lt (higher _ rfl)
      rw [blocksFrom_block kept, List.filter_cons_of_pos (by simpa using different), List.map_cons,
        List.map_cons, contents, Block.content, Block.content, kept.own_eq, here.own_eq, same]

/-- A loaded song is loaded without one of its blocks as well, and has the others as they were. -/
theorem ofBytes_without {song : Song} (loaded : ofBytes bytes = .ok song) (member : block ∈ song.blocks) :
    ofBytes (without bytes block) = .ok ⟨without bytes block⟩ ∧
      (⟨without bytes block⟩ : Song).blocks.map Block.content =
        (song.blocks.filter (·.channel ≠ block.channel)).map Block.content := by
  obtain ⟨rfl, full, sound⟩ := (ofBytes_iff_sound bytes song).mp loaded
  obtain ⟨after, others, contents⟩ := soundFrom_without sound member
  refine ⟨(ofBytes_iff_sound _ _).mpr ⟨rfl, ?_, others⟩, contents⟩
  intro empty
  have none := congrArg List.length (List.append_eq_nil_iff.mp empty).1
  rw [List.length_take, List.length_nil] at none
  have some := List.length_pos_iff.mpr full
  omega

/-- The bytes of a block say what is read from it. -/
theorem events_eq_own {song : Song} (loaded : ofBytes bytes = .ok song) (member : block ∈ song.blocks) :
    ∃ header, Header.read? block.own = some header ∧ header.channel = block.channel ∧
      Format.read? header block.own = some (song.reading block.channel).events := by
  obtain ⟨-, -, -, all⟩ := blocks_of_loaded loaded
  obtain ⟨header, sound, same⟩ := all block member
  have meaning := read?_of_mem loaded member sound same
  have read : Header.read? block.bytes = some header := by
    rw [same]
    exact sound.read
  have own : block.own = block.bytes.take header.length := by rw [Block.own, read]
  refine ⟨header, ?_, ?_, ?_⟩
  · rw [own, Header.read?_take (Nat.le_of_lt sound.long), read]
  · rw [same]
  · rw [own, Format.read?_take, meaning]

theorem reading_of_loaded {song : Song} (loaded : ofBytes bytes = .ok song) (channel : UInt8) :
    song.reading channel = ⟨(song.reading channel).events, true⟩ := by
  rw [← reading_complete loaded channel]

/-- Blocks of the same bytes are read the same. -/
theorem reading_of_own {bytes others : List UInt8} {song other : Song} (loaded : ofBytes bytes = .ok song)
    (loadedOther : ofBytes others = .ok other) {block twin : Block} (member : block ∈ song.blocks)
    (among : twin ∈ other.blocks) (same : twin.own = block.own) :
    twin.channel = block.channel ∧ other.reading block.channel = song.reading block.channel := by
  obtain ⟨header, read, channel, meaning⟩ := events_eq_own loaded member
  obtain ⟨found, readTwin, channelTwin, meaningTwin⟩ := events_eq_own loadedOther among
  rw [same, read, Option.some.injEq] at readTwin
  subst readTwin
  have channels : twin.channel = block.channel := channelTwin.symm.trans channel
  rw [same, meaning, Option.some.injEq, channels] at meaningTwin
  refine ⟨channels, ?_⟩
  rw [reading_of_loaded loadedOther, ← meaningTwin, ← reading_of_loaded loaded]

end Song

end Buzzer
