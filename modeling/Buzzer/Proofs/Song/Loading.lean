import Buzzer.Proofs.Song.Checking

/-!
Songs that are loaded. Loading accepts exactly the rows of sound blocks: whole blocks in the order of
their channels, none of which is read outside its arrays when it is played. So no track of a loaded
song runs past the end of it.
-/
namespace Buzzer

/-- A whole block at `offset`. Playing it reads no note byte and no duration byte outside its arrays. -/
structure SoundBlock (bytes : List UInt8) (offset : Nat) (header : Header) : Prop where
  read : Header.read? (bytes.drop offset) = some header
  opens : header.channel ≠ songEnd
  long : headerLength < header.length
  fits : offset + header.length ≤ bytes.length
  hasNotes : headerLength < header.durationOffset
  ordered : header.durationOffset ≤ header.length
  confined : ∀ access ∈ (IndexedCursor.load offset header).accesses bytes,
    access.Inside (.ofBlock offset header)

/-- A row of sound blocks from `offset` to the byte that ends a song or to the end of the bytes. The
channels increase and are above `previous`. -/
inductive SoundFrom (bytes : List UInt8) : (previous : Option UInt8) → (offset : Nat) → Prop where
  | past {previous offset} (past : bytes.length ≤ offset) : SoundFrom bytes previous offset
  | stop {previous offset} (stop : bytes[offset]? = some songEnd) : SoundFrom bytes previous offset
  | block {previous offset header} (block : SoundBlock bytes offset header)
      (above : ∀ before ∈ previous, before < header.channel)
      (later : SoundFrom bytes (some header.channel) (offset + header.length)) :
      SoundFrom bytes previous offset

namespace Header

theorem read?_eq_some {rest : List UInt8} {header : Header} (read : read? rest = some header) :
    ∃ lengthLow lengthHigh offsetLow offsetHigh pause tail,
      rest = header.channel :: lengthLow :: lengthHigh :: offsetLow :: offsetHigh :: pause :: tail ∧
        header = ⟨header.channel, word lengthLow lengthHigh, word offsetLow offsetHigh, pause.toNat⟩ := by
  unfold read? at read
  split at read
  · cases read
    exact ⟨_, _, _, _, _, _, rfl, rfl⟩
  · cases read

/-- A header is missing exactly if the bytes end within it. -/
theorem read?_eq_none_iff (rest : List UInt8) : read? rest = none ↔ rest.length < headerLength := by
  rcases rest with _ | ⟨_, _ | ⟨_, _ | ⟨_, _ | ⟨_, _ | ⟨_, _ | ⟨_, _⟩⟩⟩⟩⟩⟩ <;> simp [read?, headerLength]

theorem channel_of_read? {channel : UInt8} {rest : List UInt8} {header : Header}
    (read : read? (channel :: rest) = some header) : header.channel = channel := by
  obtain ⟨_, _, _, _, _, _, same, -⟩ := read?_eq_some read
  exact (List.cons_eq_cons.mp same).1.symm

end Header

namespace SoundBlock

variable {bytes : List UInt8} {offset : Nat} {header : Header}

theorem bytesFrom_ofBlock (bytes : List UInt8) (offset : Nat) (header : Header)
    (ordered : header.durationOffset ≤ header.length) :
    ((((bytes.drop offset).take header.length).take header.durationOffset).drop headerLength =
        (Bounds.ofBlock offset header).notes.bytesFrom bytes (offset + headerLength)) ∧
      (((bytes.drop offset).take header.length).drop header.durationOffset =
        (Bounds.ofBlock offset header).durations.bytesFrom bytes (offset + header.durationOffset)) := by
  simp only [Bounds.ofBlock, Extent.bytesFrom, List.take_take, Nat.min_eq_left ordered,
    List.drop_take, List.drop_drop]
  constructor <;> congr 1 <;> omega

theorem fit (fits : offset + header.length ≤ bytes.length)
    (ordered : header.durationOffset ≤ header.length) : (Bounds.ofBlock offset header).Fit bytes := by
  constructor <;> simp only [Bounds.ofBlock] <;> omega

theorem from_load (offset : Nat) (header : Header) :
    (IndexedCursor.load offset header).From (.ofBlock offset header) := by
  simp [IndexedCursor.From, IndexedCursor.load, Bounds.ofBlock]

/-- The check of a track is about what is read when the track is played. -/
theorem checkTrack_iff_confined (channel : UInt8) (fits : offset + header.length ≤ bytes.length)
    (ordered : header.durationOffset ≤ header.length) :
    Song.checkTrack channel 0
        ((((bytes.drop offset).take header.length).take header.durationOffset).drop headerLength)
        (((bytes.drop offset).take header.length).drop header.durationOffset) = .ok () ↔
      ∀ access ∈ (IndexedCursor.load offset header).accesses bytes,
        access.Inside (.ofBlock offset header) := by
  rw [← IndexedCursor.complete_iff_inside (fit fits ordered) _ (from_load offset header),
    (bytesFrom_ofBlock bytes offset header ordered).1,
    (bytesFrom_ofBlock bytes offset header ordered).2]
  exact Song.checkTrack_iff_complete channel
    ((IndexedCursor.load offset header).toCursor bytes (.ofBlock offset header)) _ rfl

end SoundBlock

namespace Song

private theorem any_le_iff (previous : Option UInt8) (channel : UInt8) :
    previous.any (channel ≤ ·) = true ↔ ¬∀ before ∈ previous, before < channel := by
  cases previous <;> simp

theorem checkBlock_iff_sound {bytes tail : List UInt8} {offset : Nat} {channel : UInt8}
    (here : bytes.drop offset = channel :: tail) (opens : channel ≠ songEnd)
    (previous : Option UInt8) (header : Header) :
    checkBlock previous offset channel (bytes.drop offset) = .ok header ↔
      (∀ before ∈ previous, before < header.channel) ∧ SoundBlock bytes offset header := by
  have size : (bytes.drop offset).length = bytes.length - offset := List.length_drop
  have inside : offset < bytes.length := by
    rw [here, List.length_cons] at size
    omega
  unfold checkBlock
  by_cases above : ∀ before ∈ previous, before < channel
  · have early := mt (any_le_iff previous channel).mp (not_not_intro above)
    simp only [early, Bool.false_eq_true, if_false]
    cases read : Header.read? (bytes.drop offset) with
    | none =>
      simp only [reduceCtorEq, false_iff]
      rintro ⟨-, block⟩
      have found := block.read
      simp [read] at found
    | some found =>
      have same := Header.channel_of_read? (here ▸ read)
      simp only [size]
      constructor
      · intro checked
        split at checked
        · cases checked
        next whole =>
          split at checked
          · cases checked
          next arrays =>
            have fits : offset + found.length ≤ bytes.length := by omega
            have ordered : found.durationOffset ≤ found.length := by omega
            cases track : checkTrack channel 0
                ((((bytes.drop offset).take found.length).take found.durationOffset).drop headerLength)
                (((bytes.drop offset).take found.length).drop found.durationOffset) with
            | error error => simp [track, Except.map] at checked
            | ok _ =>
              simp only [track, Except.map, Except.ok.injEq] at checked
              subst checked
              exact ⟨same ▸ above,
                { read, opens := same ▸ opens, long := by omega, fits, hasNotes := by omega, ordered
                  confined := (SoundBlock.checkTrack_iff_confined channel fits ordered).mp track }⟩
      · rintro ⟨-, block⟩
        have unique := block.read
        rw [read, Option.some.injEq] at unique
        subst unique
        have fits := block.fits
        have long := block.long
        have hasNotes := block.hasNotes
        have ordered := block.ordered
        rw [if_neg (by omega), if_neg (by omega)]
        simp only [(SoundBlock.checkTrack_iff_confined channel fits ordered).mpr block.confined, Except.map]
  · simp only [(any_le_iff previous channel).mpr above, if_true, reduceCtorEq, false_iff]
    rintro ⟨lower, block⟩
    rw [Header.channel_of_read? (here ▸ block.read)] at lower
    exact above lower

theorem checkBlocks_iff_sound (bytes : List UInt8) (previous : Option UInt8) (offset : Nat) :
    checkBlocks previous offset (bytes.drop offset) = .ok () ↔ SoundFrom bytes previous offset := by
  induction size : bytes.length - offset using Nat.strongRecOn generalizing previous offset with
  | ind size ih =>
    cases here : bytes.drop offset with
    | nil =>
      have past := List.drop_eq_nil_iff.mp here
      rw [checkBlocks]
      exact ⟨fun _ => .past past, fun _ => rfl⟩
    | cons channel tail =>
      have head : bytes[offset]? = some channel := by
        rw [← List.head?_drop, here, List.head?_cons]
      have inside := (List.getElem?_eq_some_iff.mp head).1
      rw [checkBlocks]
      by_cases stops : channel = songEnd
      · simp only [stops, if_true, true_iff]
        exact .stop (stops ▸ head)
      simp only [stops, if_false]
      rw [← here]
      have checks := checkBlock_iff_sound here stops previous
      split
      next error refused =>
        simp only [reduceCtorEq, false_iff]
        intro sound
        cases sound with
        | past past => omega
        | stop stop => exact stops (Option.some.inj (head.symm.trans stop))
        | block block above _ =>
          have accepted := (checks _).mpr ⟨above, block⟩
          rw [refused] at accepted
          cases accepted
      next header accepted =>
        obtain ⟨above, block⟩ := (checks header).mp accepted
        have same := Header.channel_of_read? (here ▸ block.read)
        have long := block.long
        rw [List.drop_drop, ← same, ih _ (by omega) _ _ rfl]
        constructor
        · exact fun later => .block block above later
        · intro sound
          cases sound with
          | past past => omega
          | stop stop => exact (stops (Option.some.inj (head.symm.trans stop))).elim
          | block other _ later =>
            have unique := block.read.symm.trans other.read
            cases unique
            exact later

/-- Loading accepts exactly the rows of sound blocks after a tempo. -/
theorem ofBytes_iff_sound (bytes : List UInt8) (song : Song) :
    ofBytes bytes = .ok song ↔ song = ⟨bytes⟩ ∧ bytes ≠ [] ∧ SoundFrom bytes none 1 := by
  unfold ofBytes
  rw [← checkBlocks_iff_sound]
  cases bytes with
  | nil => simp
  | cons tempo rest =>
    cases checked : checkBlocks none 1 ((tempo :: rest).drop 1) with
    | error error => simp [Except.map]
    | ok _ => simp [Except.map, eq_comm]

/-! The blocks of a loaded song. -/

theorem blocksFrom_nil (offset : Nat) : blocksFrom offset [] = [] := by
  rw [blocksFrom]
  rintro _ _ _ _ ⟨⟩

theorem blocksFrom_songEnd (offset : Nat) (rest : List UInt8) :
    blocksFrom offset (songEnd :: rest) = [] := by
  rw [blocksFrom.eq_def]
  split
  next same =>
    cases same
    rfl
  next => rfl

theorem blocksFrom_block {bytes : List UInt8} {offset : Nat} {header : Header}
    (block : SoundBlock bytes offset header) :
    blocksFrom offset (bytes.drop offset) =
      ⟨header.channel, offset, bytes.drop offset⟩ ::
        blocksFrom (offset + header.length) (bytes.drop (offset + header.length)) := by
  obtain ⟨low, high, _, _, _, tail, same, fields⟩ := Header.read?_eq_some block.read
  have long := block.long
  have length : header.length = word low high := by rw [fields]
  rw [← List.drop_drop, blocksFrom.eq_def]
  split
  next here =>
    rw [same] at here
    cases here
    rw [if_neg block.opens, dif_neg (by omega), length]
  next different => exact (different _ _ _ _ same).elim

/-- The walk over a sound row gives its blocks in the order of their channels. -/
theorem blocksFrom_sound {bytes : List UInt8} {previous : Option UInt8} {offset : Nat}
    (sound : SoundFrom bytes previous offset) :
    ((blocksFrom offset (bytes.drop offset)).map Block.channel).Pairwise (· < ·) ∧
      ∀ block ∈ blocksFrom offset (bytes.drop offset), (∀ before ∈ previous, before < block.channel) ∧
        ∃ header, SoundBlock bytes block.offset header ∧
          block = ⟨header.channel, block.offset, bytes.drop block.offset⟩ := by
  induction sound with
  | past past => simp [List.drop_eq_nil_of_le past, blocksFrom_nil]
  | stop stop =>
    rw [List.drop_eq_getElem?_toList_append, stop]
    simp [blocksFrom_songEnd]
  | block block above _ ih =>
    rw [blocksFrom_block block]
    obtain ⟨ordered, later⟩ := ih
    constructor
    · rw [List.map_cons, List.pairwise_cons]
      refine ⟨?_, ordered⟩
      intro channel member
      obtain ⟨other, among, rfl⟩ := List.mem_map.mp member
      exact (later other among).1 _ rfl
    · intro other member
      rcases List.mem_cons.mp member with rfl | among
      · exact ⟨above, _, block, rfl⟩
      · refine ⟨?_, (later other among).2⟩
        intro before mem
        exact UInt8.lt_trans (above before mem) ((later other among).1 _ rfl)

end Song

namespace IndexedCursor

/-- A track that holds the bytes to the end of the song starts where its header says. -/
theorem cursor?_of_read? {bytes : List UInt8} {offset : Nat} {header : Header}
    (read : Header.read? (bytes.drop offset) = some header) (channel : UInt8) :
    Block.cursor? ⟨channel, offset, bytes.drop offset⟩ =
      some ((load offset header).toCursor bytes (.ofSong bytes)) := by
  simp only [Block.cursor?, read, Option.map_some, toCursor, load, IndexedDurations.toReader,
    Bounds.ofSong, Extent.bytesFrom, List.take_length, List.drop_drop]

/-- A track is read to its end exactly if that never needs a byte past the end of the song. -/
theorem complete_ofSong_iff (bytes : List UInt8) (offset : Nat) (header : Header) :
    ((load offset header).toCursor bytes (.ofSong bytes)).reading.complete = true ↔
      ∀ access ∈ (load offset header).accesses bytes, access.place < bytes.length := by
  have started : (load offset header).From (.ofSong bytes) := ⟨fun _ _ => Nat.zero_le _, Nat.zero_le _⟩
  rw [complete_iff_inside (Bounds.fit_ofSong bytes) _ started]
  simp only [Access.inside_ofSong]

end IndexedCursor

namespace SoundBlock

variable {bytes : List UInt8} {offset : Nat} {header : Header}

theorem place_lt (block : SoundBlock bytes offset header) :
    ∀ access ∈ (IndexedCursor.load offset header).accesses bytes, access.place < bytes.length := by
  intro access member
  have inside := block.confined access member
  have fits := block.fits
  have ordered := block.ordered
  cases access with
  | note place =>
    have past : place < offset + header.durationOffset := inside.2
    simp only [Access.place]
    omega
  | duration place =>
    have past : place < offset + header.length := inside.2
    simp only [Access.place]
    omega

theorem cursor?_eq_load (block : SoundBlock bytes offset header) :
    Block.cursor? ⟨header.channel, offset, bytes.drop offset⟩ =
      some ((IndexedCursor.load offset header).toCursor bytes (.ofSong bytes)) :=
  IndexedCursor.cursor?_of_read? block.read header.channel

theorem cursor?_complete (block : SoundBlock bytes offset header) :
    ∃ cursor, Block.cursor? ⟨header.channel, offset, bytes.drop offset⟩ = some cursor ∧
      cursor.isEnded = false ∧ cursor.left = 0 ∧ cursor.reading.complete = true := by
  refine ⟨_, block.cursor?_eq_load, rfl, rfl, ?_⟩
  exact (IndexedCursor.complete_ofSong_iff bytes offset header).mpr block.place_lt

end SoundBlock

namespace Song

theorem blocks_of_loaded {bytes : List UInt8} {song : Song} (loaded : ofBytes bytes = .ok song) :
    song.bytes = bytes ∧ bytes ≠ [] ∧ (song.blocks.map Block.channel).Pairwise (· < ·) ∧
      ∀ block ∈ song.blocks, ∃ header, SoundBlock bytes block.offset header ∧
        block = ⟨header.channel, block.offset, bytes.drop block.offset⟩ := by
  obtain ⟨rfl, full, sound⟩ := (ofBytes_iff_sound bytes song).mp loaded
  obtain ⟨ordered, all⟩ := blocksFrom_sound sound
  exact ⟨rfl, full, ordered, fun block member => (all block member).2⟩

theorem cursor?_of_loaded {bytes : List UInt8} {song : Song} (loaded : ofBytes bytes = .ok song) :
    ∀ block ∈ song.blocks, ∃ cursor, block.cursor? = some cursor ∧
      cursor.isEnded = false ∧ cursor.left = 0 ∧ cursor.reading.complete = true := by
  intro block member
  obtain ⟨-, -, -, all⟩ := blocks_of_loaded loaded
  obtain ⟨header, sound, same⟩ := all block member
  rw [same]
  exact sound.cursor?_complete

theorem durationTicks_eq (song : Song) :
    song.durationTicks =
      (song.channels.map fun channel => Event.total (song.reading channel).events).foldl max 0 := by
  rw [durationTicks, channels, List.map_map]
  rfl

theorem reading_of_not_mem {song : Song} {channel : UInt8} (absent : channel ∉ song.channels) :
    song.reading channel = ⟨[], true⟩ := by
  have none : song.blocks.find? (·.channel = channel) = none := by
    rw [List.find?_eq_none]
    intro block member same
    exact absent (of_decide_eq_true same ▸ List.mem_map_of_mem member)
  simp only [reading, Block.readingOf, Block.seek?, none]
  exact Cursor.reading_ended rfl

/-- In the order of their channels, blocks are found by them. -/
theorem find?_channel {blocks : List Block} {block : Block}
    (ordered : (blocks.map Block.channel).Pairwise (· < ·)) (member : block ∈ blocks) :
    blocks.find? (·.channel = block.channel) = some block := by
  induction blocks with
  | nil => cases member
  | cons first blocks ih =>
    rw [List.map_cons, List.pairwise_cons] at ordered
    rcases List.mem_cons.mp member with rfl | later
    · simp
    · have below := ordered.1 _ (List.mem_map_of_mem later)
      rw [List.find?_cons_of_neg (by simpa using UInt8.ne_of_lt below)]
      exact ih ordered.2 later

theorem reading_of_mem {bytes : List UInt8} {song : Song} (loaded : ofBytes bytes = .ok song)
    {block : Block} (member : block ∈ song.blocks) {cursor : Cursor}
    (loads : block.cursor? = some cursor) : song.reading block.channel = cursor.reading := by
  obtain ⟨-, -, ordered, -⟩ := blocks_of_loaded loaded
  simp only [reading, Block.readingOf, Block.seek?, find?_channel ordered member, loads]

theorem reading_complete {bytes : List UInt8} {song : Song} (loaded : ofBytes bytes = .ok song)
    (channel : UInt8) : (song.reading channel).complete = true := by
  by_cases present : channel ∈ song.channels
  · obtain ⟨block, member, rfl⟩ := List.mem_map.mp present
    obtain ⟨cursor, loads, -, -, complete⟩ := cursor?_of_loaded loaded block member
    rw [reading_of_mem loaded member loads]
    exact complete
  · rw [reading_of_not_mem present]

end Song

end Buzzer
