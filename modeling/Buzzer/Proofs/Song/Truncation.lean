import Buzzer.Proofs.Song.Cutting

/-!
Songs that are cut off. A song can be cut off between its blocks without notice, since the byte that ends it
can be left out. Within a block it cannot: what is loaded before the cut is checked as it was, and the block
that is cut is refused for its header or for its length, whatever its bytes are.
-/
namespace Buzzer

namespace Block

/-- Where a block ends in its song. -/
def past (block : Block) : Nat := block.offset + block.own.length

/-- A block without the bytes that follow it. -/
def placed (block : Block) : Nat × UInt8 × List UInt8 := (block.offset, block.content)

end Block

theorem SoundBlock.past_eq {bytes : List UInt8} {offset : Nat} {header : Header}
    (block : SoundBlock bytes offset header) (channel : UInt8) :
    Block.past ⟨channel, offset, bytes.drop offset⟩ = offset + header.length := by
  rw [Block.past, block.length_own]

namespace Song

/-- Where the last of some blocks ends. They start at `offset`, and end there if there are none. -/
def pastBlocks (offset : Nat) (blocks : List Block) : Nat := blocks.getLast?.elim offset Block.past

theorem pastBlocks_cons (offset : Nat) (block : Block) (blocks : List Block) :
    pastBlocks offset (block :: blocks) = pastBlocks block.past blocks := by
  rw [pastBlocks, pastBlocks, List.getLast?_cons]
  cases blocks.getLast? <;> rfl

section Rows

variable {bytes : List UInt8} {previous : Option UInt8} {offset size : Nat} {block : Block}

theorem blocksFrom_of_stop (stop : bytes[offset]? = some songEnd) :
    blocksFrom offset (bytes.drop offset) = [] := by
  rw [List.drop_eq_getElem?_toList_append, stop]
  exact blocksFrom_songEnd offset _

theorem blocksFrom_of_past (past : bytes.length ≤ offset) : blocksFrom offset (bytes.drop offset) = [] := by
  rw [List.drop_eq_nil_of_le past, blocksFrom_nil]

/-- The walk over a row only goes forward. -/
theorem le_offset_of_mem (sound : SoundFrom bytes previous offset)
    (member : block ∈ blocksFrom offset (bytes.drop offset)) : offset ≤ block.offset := by
  induction sound with
  | past past =>
    rw [blocksFrom_of_past past] at member
    cases member
  | stop stop =>
    rw [blocksFrom_of_stop stop] at member
    cases member
  | block here _ _ ih =>
    rw [blocksFrom_block here] at member
    rcases List.mem_cons.mp member with rfl | among
    · exact Nat.le_refl _
    · exact Nat.le_trans (Nat.le_add_right _ _) (ih among)

/-- The blocks of a row leave no gap: a place before the end of the last one lies in one of them. -/
theorem exists_block_at (sound : SoundFrom bytes previous offset) (begun : offset ≤ size)
    (short : size < pastBlocks offset (blocksFrom offset (bytes.drop offset))) :
    ∃ block ∈ blocksFrom offset (bytes.drop offset), block.offset ≤ size ∧ size < block.past := by
  induction sound with
  | past past =>
    rw [blocksFrom_of_past past] at short
    exact absurd short (Nat.not_lt_of_le begun)
  | stop stop =>
    rw [blocksFrom_of_stop stop] at short
    exact absurd short (Nat.not_lt_of_le begun)
  | @block previous offset header here _ _ ih =>
    have ends := here.past_eq header.channel
    rw [blocksFrom_block here] at short ⊢
    rw [pastBlocks_cons, ends] at short
    by_cases within : size < offset + header.length
    · exact ⟨_, List.mem_cons_self, begun, ends.symm ▸ within⟩
    · obtain ⟨block, among, inside⟩ := ih (Nat.le_of_not_lt within) short
      exact ⟨block, List.mem_cons_of_mem _ among, inside⟩

theorem take_drop_take (bytes : List UInt8) {start length : Nat} (before : start + length ≤ size) :
    ((bytes.take size).drop start).take length = (bytes.drop start).take length := by
  rw [List.drop_take, List.take_take, Nat.min_eq_left (by omega)]

/-- A row that is cut off where one of its blocks starts is the row of the blocks before. -/
theorem soundFrom_take (sound : SoundFrom bytes previous offset)
    (member : block ∈ blocksFrom offset (bytes.drop offset)) :
    SoundFrom (bytes.take block.offset) previous offset ∧
      (blocksFrom offset ((bytes.take block.offset).drop offset)).map Block.placed =
        ((blocksFrom offset (bytes.drop offset)).filter (·.offset < block.offset)).map Block.placed := by
  induction sound with
  | past past =>
    rw [blocksFrom_of_past past] at member
    cases member
  | stop stop =>
    rw [blocksFrom_of_stop stop] at member
    cases member
  | @block previous offset header here above later ih =>
    have long := here.long
    rw [blocksFrom_block here] at member ⊢
    rcases List.mem_cons.mp member with rfl | among
    -- the cut is at the start of this block, so nothing of the row is left
    · have none : (bytes.take offset).length ≤ offset := List.length_take_le _ _
      refine ⟨.past none, ?_⟩
      rw [blocksFrom_of_past none, List.filter_cons_of_neg (by simp), List.filter_eq_nil_iff.mpr]
      intro other among
      have after := le_offset_of_mem later among
      rw [decide_eq_true_eq, Nat.not_lt]
      exact Nat.le_trans (Nat.le_add_right _ _) after
    · have after := le_offset_of_mem later among
      have same := take_drop_take bytes after
      have kept := here.moved same
      obtain ⟨sound, blocks⟩ := ih among
      refine ⟨.block kept above sound, ?_⟩
      rw [blocksFrom_block kept, List.filter_cons_of_pos (by simp only [decide_eq_true_eq]; omega),
        List.map_cons, List.map_cons, blocks, Block.placed, Block.placed, Block.content, Block.content,
        kept.own_eq, here.own_eq, same]

/-! Checking a row that is cut off. -/

theorem checkBlocks_of_accepted {channel : UInt8} {tail : List UInt8} {header : Header}
    (opens : channel ≠ songEnd)
    (accepted : checkBlock previous offset channel (channel :: tail) = .ok header) :
    checkBlocks previous offset (channel :: tail) =
      checkBlocks (some channel) (offset + header.length) ((channel :: tail).drop header.length) := by
  rw [checkBlocks, if_neg opens]
  split
  next error refused =>
    rw [accepted] at refused
    cases refused
  next found checked =>
    rw [accepted, Except.ok.injEq] at checked
    rw [checked]

theorem checkBlocks_of_refused {channel : UInt8} {tail : List UInt8} {error : SongError}
    (opens : channel ≠ songEnd)
    (refused : checkBlock previous offset channel (channel :: tail) = .error error) :
    checkBlocks previous offset (channel :: tail) = .error error := by
  rw [checkBlocks, if_neg opens]
  split
  next found same =>
    rw [refused, Except.error.injEq] at same
    rw [same]
  next header accepted =>
    rw [refused] at accepted
    cases accepted

/-- The check passes a sound block and goes on behind it. -/
theorem checkBlocks_block {header : Header} (here : SoundBlock bytes offset header)
    (above : ∀ before ∈ previous, before < header.channel) :
    checkBlocks previous offset (bytes.drop offset) =
      checkBlocks (some header.channel) (offset + header.length)
        (bytes.drop (offset + header.length)) := by
  obtain ⟨_, _, _, _, _, tail, same, -⟩ := Header.read?_eq_some here.read
  have accepted := (checkBlock_iff_sound same here.opens previous header).mpr ⟨above, here⟩
  rw [same] at accepted
  rw [← List.drop_drop, same, checkBlocks_of_accepted here.opens accepted]

theorem read?_take_eq_none {rest : List UInt8} {length : Nat} (short : length < headerLength) :
    Header.read? (rest.take length) = none :=
  (Header.read?_eq_none_iff _).mpr (Nat.lt_of_le_of_lt (List.length_take_le _ _) short)

/-- A block that is cut off is refused for its header if that is not whole, and else for its length. -/
theorem checkBlock_cut {header : Header} (here : SoundBlock bytes offset header)
    (above : ∀ before ∈ previous, before < header.channel) {left : Nat} (short : left < header.length) :
    checkBlock previous offset header.channel ((bytes.drop offset).take left) =
      .error (if left < headerLength then .truncated offset else .trackLength header.channel) := by
  have early : ¬previous.any (header.channel ≤ ·) = true := by
    cases previous with
    | none => exact Bool.false_ne_true
    | some before => simpa using above before rfl
  unfold checkBlock
  rw [if_neg early]
  by_cases headless : left < headerLength
  · rw [read?_take_eq_none headless, if_pos headless]
  · have cut : ((bytes.drop offset).take left).length < header.length :=
      Nat.lt_of_le_of_lt (List.length_take_le _ _) short
    rw [Header.read?_take (Nat.le_of_not_lt headless), here.read, if_neg headless]
    exact if_pos (.inl cut)

theorem checkBlocks_first_cut {header : Header} (here : SoundBlock bytes offset header)
    (above : ∀ before ∈ previous, before < header.channel) (begun : offset < size)
    (short : size < offset + header.length) :
    checkBlocks previous offset ((bytes.take size).drop offset) =
      .error (if size - offset < headerLength then .truncated offset
        else .trackLength header.channel) := by
  have refused := checkBlock_cut here above (show size - offset < header.length by omega)
  obtain ⟨_, _, _, _, _, tail, same, -⟩ := Header.read?_eq_some here.read
  obtain ⟨more, left⟩ : ∃ more, size - offset = more + 1 := Nat.exists_eq_add_one.mpr (by omega)
  rw [same, left, List.take_succ_cons] at refused
  rw [List.drop_take, same, left, List.take_succ_cons]
  exact checkBlocks_of_refused here.opens refused

/-- A row that is cut off within one of its blocks is refused for that block. -/
theorem checkBlocks_cut (sound : SoundFrom bytes previous offset)
    (member : block ∈ blocksFrom offset (bytes.drop offset)) (begun : block.offset < size)
    (short : size < block.past) :
    checkBlocks previous offset ((bytes.take size).drop offset) =
      .error (if size - block.offset < headerLength then .truncated block.offset
        else .trackLength block.channel) := by
  induction sound with
  | past past =>
    rw [blocksFrom_of_past past] at member
    cases member
  | stop stop =>
    rw [blocksFrom_of_stop stop] at member
    cases member
  | @block previous offset header here above later ih =>
    rw [blocksFrom_block here] at member
    rcases List.mem_cons.mp member with rfl | among
    · rw [here.past_eq] at short
      exact checkBlocks_first_cut here above begun short
    · have after := Nat.le_trans (le_offset_of_mem later among) (Nat.le_of_lt begun)
      have kept := here.moved (take_drop_take bytes after)
      rw [checkBlocks_block kept above]
      exact ih among

end Rows

section Loaded

variable {bytes : List UInt8} {song cut : Song} {size : Nat}

theorem ofBytes_of_pos {bytes : List UInt8} (some : 0 < bytes.length) :
    ofBytes bytes = (checkBlocks none 1 (bytes.drop 1)).map fun _ => ⟨bytes⟩ := by
  have full : bytes.isEmpty = false := by
    rw [List.isEmpty_eq_false_iff]
    exact List.length_pos_iff.mp some
  rw [ofBytes, full, if_neg Bool.false_ne_true]

/-- A song that is cut off where a block starts is loaded, with the blocks before. -/
theorem ofBytes_take_start (loaded : ofBytes bytes = .ok song) {block : Block}
    (member : block ∈ song.blocks) :
    ofBytes (bytes.take block.offset) = .ok ⟨bytes.take block.offset⟩ ∧
      (⟨bytes.take block.offset⟩ : Song).blocks.map Block.placed =
        (song.blocks.filter (·.offset < block.offset)).map Block.placed := by
  obtain ⟨rfl, full, sound⟩ := (ofBytes_iff_sound bytes song).mp loaded
  obtain ⟨row, blocks⟩ := soundFrom_take sound member
  have start := le_offset_of_mem sound member
  refine ⟨(ofBytes_iff_sound _ _).mpr ⟨rfl, ?_, row⟩, blocks⟩
  rw [ne_eq, List.take_eq_nil_iff]
  rintro (none | empty)
  · omega
  · exact full empty

theorem ofBytes_take_within (loaded : ofBytes bytes = .ok song) {block : Block}
    (member : block ∈ song.blocks) (begun : block.offset < size) (short : size < block.past) :
    ofBytes (bytes.take size) =
      .error (if size - block.offset < headerLength then .truncated block.offset
        else .trackLength block.channel) := by
  obtain ⟨rfl, full, sound⟩ := (ofBytes_iff_sound bytes song).mp loaded
  have some : 0 < (bytes.take size).length := by
    have positive := List.length_pos_iff.mpr full
    rw [List.length_take]
    omega
  rw [ofBytes_of_pos some, checkBlocks_cut sound member begun short]
  rfl

/-- A song that is loaded although it is cut off is cut off where a block starts. -/
theorem start_of_ofBytes_take (loaded : ofBytes bytes = .ok song) (short : size < pastBlocks 1 song.blocks)
    (loadedCut : ofBytes (bytes.take size) = .ok cut) :
    1 ≤ size ∧ ∃ block ∈ song.blocks, block.offset = size := by
  obtain ⟨rfl, full, sound⟩ := (ofBytes_iff_sound bytes song).mp loaded
  have some : 1 ≤ size := by
    rcases Nat.eq_zero_or_pos size with rfl | positive
    · cases loadedCut
    · exact positive
  obtain ⟨block, member, begun, within⟩ := exists_block_at sound some short
  refine ⟨some, block, member, ?_⟩
  rcases Nat.eq_or_lt_of_le begun with start | inside
  · exact start
  · rw [ofBytes_take_within loaded member inside within] at loadedCut
    cases loadedCut

theorem tempo?_take (some : 1 ≤ size) : (⟨bytes.take size⟩ : Song).tempo? = (⟨bytes⟩ : Song).tempo? := by
  obtain ⟨more, rfl⟩ := Nat.exists_eq_add_one.mpr some
  cases bytes <;> rfl

/-- Blocks that are the same but for the bytes after them are read the same. -/
theorem reading_of_placed (loaded : ofBytes bytes = .ok song) {others : List UInt8}
    (loadedOther : ofBytes others = .ok cut)
    (blocks : ∀ block ∈ cut.blocks, ∃ twin ∈ song.blocks, twin.placed = block.placed) :
    ∀ channel ∈ cut.channels, cut.reading channel = song.reading channel := by
  intro channel present
  obtain ⟨block, among, rfl⟩ := List.mem_map.mp present
  obtain ⟨twin, member, same⟩ := blocks block among
  rw [Block.placed, Block.placed, Prod.mk.injEq] at same
  obtain ⟨channels, own⟩ := Prod.mk.inj same.2
  have reads := reading_of_own loaded loadedOther member among own.symm
  rw [← channels, reads.2]

end Loaded

/-- A song that is cut off before the end of its last block is loaded exactly if a block starts at the cut. It
has the blocks before the cut then, at their places and with their events. Within a block the cut is noticed,
and only an empty song is refused for nothing but that. -/
theorem truncation_detected {bytes : List UInt8} {song : Song} (loaded : ofBytes bytes = .ok song)
    {size : Nat} (short : size < pastBlocks 1 song.blocks) :
    ((∃ cut, ofBytes (bytes.take size) = .ok cut) ↔ 1 ≤ size ∧ ∃ block ∈ song.blocks, block.offset = size) ∧
      (∀ cut, ofBytes (bytes.take size) = .ok cut →
        cut.tempo? = song.tempo? ∧
        cut.blocks.map Block.placed = (song.blocks.filter (·.offset < size)).map Block.placed ∧
        ∀ channel ∈ cut.channels, cut.reading channel = song.reading channel) ∧
      (∀ block ∈ song.blocks, block.offset < size → size < block.past →
        ofBytes (bytes.take size) =
          .error (if size - block.offset < headerLength then .truncated block.offset
            else .trackLength block.channel)) ∧
      (size = 0 → ofBytes (bytes.take size) = .error .empty) := by
  obtain ⟨same, -, sound⟩ := (ofBytes_iff_sound bytes song).mp loaded
  refine ⟨⟨fun ⟨cut, loadedCut⟩ => start_of_ofBytes_take loaded short loadedCut, ?_⟩, ?_,
    fun block member begun within => ofBytes_take_within loaded member begun within, ?_⟩
  · rintro ⟨-, block, member, rfl⟩
    exact ⟨_, (ofBytes_take_start loaded member).1⟩
  · intro cut loadedCut
    obtain ⟨some, block, member, rfl⟩ := start_of_ofBytes_take loaded short loadedCut
    obtain ⟨loadedStart, blocks⟩ := ofBytes_take_start loaded member
    rw [loadedStart, Except.ok.injEq] at loadedCut
    subst loadedCut
    refine ⟨by rw [same, tempo?_take some], blocks, reading_of_placed loaded loadedStart ?_⟩
    intro other among
    have placed := List.mem_map_of_mem (f := Block.placed) among
    rw [blocks] at placed
    obtain ⟨twin, kept, twinPlaced⟩ := List.mem_map.mp placed
    exact ⟨twin, (List.mem_filter.mp kept).1, twinPlaced⟩
  · rintro rfl
    rfl

/-- A track of one tone on channel 1 and an empty one on channel 2. -/
def toneAndNothing : List UInt8 :=
  [0x79, 1, 9, 0, 8, 0, 4, 0x18, 0xff, 3, 2, 7, 0, 7, 0, 0, 0xff, 0xff]

/-- Two bytes of the second block are left. -/
theorem toneAndNothing_cut_in_header :
    ofBytes toneAndNothing = .ok ⟨toneAndNothing⟩ ∧
      12 < pastBlocks 1 (⟨toneAndNothing⟩ : Song).blocks ∧
      ofBytes (toneAndNothing.take 12) = .error (.truncated 10) := by
  have loaded : ofBytes toneAndNothing = .ok ⟨toneAndNothing⟩ := by cbv
  have blocks : (⟨toneAndNothing⟩ : Song).blocks =
      [⟨1, 1, toneAndNothing.drop 1⟩, ⟨2, 10, toneAndNothing.drop 10⟩] := by cbv
  have short : 12 < pastBlocks 1 (⟨toneAndNothing⟩ : Song).blocks := by
    rw [blocks]
    decide
  obtain ⟨-, -, within, -⟩ := truncation_detected loaded short
  have refused := within ⟨2, 10, toneAndNothing.drop 10⟩ (by simp [blocks]) (by decide) (by decide)
  exact ⟨loaded, short, refused⟩

end Song

end Buzzer
