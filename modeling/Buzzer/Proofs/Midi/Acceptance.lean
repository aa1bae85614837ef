import Mathlib.Data.Prod.Lex
import Buzzer.Proofs.Midi.Vacancies

/-!
Which tables of notes are accepted. A table is refused for its fullest frame if that has more notes than there
are channels, and otherwise for the first note that no channel can play, by the key that the note had in the
file. Any other table is accepted as it is.
-/
namespace Buzzer

/-- What is found in a list comes from the first entry that has something to find. -/
theorem exists_first_of_findSome? {α β : Type} {find : α → Option β} {entries : List α} {found : β}
    (finds : entries.findSome? find = some found) :
    ∃ (index : Nat) (entry : α), entries[index]? = some entry ∧ find entry = some found ∧
      ∀ earlier < index, ∀ other, entries[earlier]? = some other → find other = none := by
  obtain ⟨before, entry, later, rfl, here, none⟩ := List.findSome?_eq_some_iff.mp finds
  refine ⟨before.length, entry, by simp, here, ?_⟩
  intro earlier less other there
  rw [List.getElem?_append_left less] at there
  exact none other (List.mem_of_getElem? there)

namespace Midi

/-! The notes of a table in their order. -/

/-- Where a note stands in a table. -/
structure Place where
  track : Nat
  frame : Nat
  /-- The place of the note among those of its frame. -/
  index : Nat

/-- The order of the notes of a table: by their tracks, then by their frames. -/
def Place.rank (place : Place) : Nat ×ₗ Nat ×ₗ Nat :=
  toLex (place.track, toLex (place.frame, place.index))

theorem Place.rank_lt_iff {first second : Place} : first.rank < second.rank ↔
    first.track < second.track ∨ first.track = second.track ∧
      (first.frame < second.frame ∨ first.frame = second.frame ∧ first.index < second.index) := by
  simp only [rank, Prod.Lex.toLex_lt_toLex]

section Table

variable {α β : Type}

/-- The note at a place of a table, if there is one. -/
def noteAt? (table : List (Part α)) (place : Place) : Option α := do
  let part ← table[place.track]?
  let notes ← part[place.frame]?
  notes[place.index]?

/-- How many notes all tracks of a table have in a frame. -/
def notesIn (table : List (Part α)) (frame : Nat) : Nat :=
  (table.map fun part => (part.getD frame []).length).sum

/-- Whether the note at a place is the first of a table for which something holds. -/
structure IsFirst (holds : α → Prop) (table : List (Part α)) (place : Place) (note : α) : Prop where
  here : noteAt? table place = some note
  met : holds note
  earlier : ∀ other value, other.rank < place.rank → noteAt? table other = some value → ¬holds value

theorem noteAt?_eq_some_iff {table : List (Part α)} {place : Place} {note : α} :
    noteAt? table place = some note ↔ ∃ part, table[place.track]? = some part ∧
      ∃ notes, part[place.frame]? = some notes ∧ notes[place.index]? = some note := by
  simp only [noteAt?, Option.bind_eq_bind, Option.bind_eq_some_iff]

theorem forall_noteAt? {holds : α → Prop} {table : List (Part α)}
    (all : ∀ part ∈ table, ∀ notes ∈ part, ∀ note ∈ notes, holds note) {place : Place} {note : α}
    (here : noteAt? table place = some note) : holds note := by
  obtain ⟨part, inTable, notes, inPart, inFrame⟩ := noteAt?_eq_some_iff.mp here
  exact all part (List.mem_of_getElem? inTable) notes (List.mem_of_getElem? inPart) note
    (List.mem_of_getElem? inFrame)

theorem noteAt?_map (change : α → β) (table : List (Part α)) (place : Place) :
    noteAt? (table.map (·.map (·.map change))) place = (noteAt? table place).map change := by
  unfold noteAt?
  rw [List.getElem?_map]
  cases table[place.track]? with
  | none => rfl
  | some part =>
    simp only [Option.map_some, Option.bind_eq_bind, Option.bind_some, List.getElem?_map]
    cases part[place.frame]? with
    | none => rfl
    | some notes => exact List.getElem?_map

theorem IsFirst.of_map {change : α → β} {holds : β → Prop} {table : List (Part α)} {place : Place} {note : β}
    (first : IsFirst holds (table.map (·.map (·.map change))) place note) :
    ∃ before, change before = note ∧ IsFirst (fun value => holds (change value)) table place before := by
  obtain ⟨before, here, same⟩ := Option.map_eq_some_iff.mp (noteAt?_map change table place ▸ first.here)
  refine ⟨before, same, here, same ▸ first.met, ?_⟩
  intro other value less there
  refine first.earlier other (change value) less ?_
  rw [noteAt?_map, there]
  rfl

end Table

/-! The fullest frame. -/

section Keys

variable {keys : List (Part Nat)}

theorem framesOf_eq_map (even : ∀ part ∈ keys, part.length = frameCount keys) :
    framesOf keys = (List.range (frameCount keys)).map (frameAt keys) := by
  apply List.ext_getElem?
  intro frame
  rw [getElem?_framesOf even, List.getElem?_map]
  split
  next within => rw [List.getElem?_range within, Option.map_some]
  next past => rw [List.getElem?_eq_none (by simpa using past), Option.map_none]

theorem mostNotes_eq (even : ∀ part ∈ keys, part.length = frameCount keys) (change : Nat → Int) :
    mostNotes (framesOf (keys.map (·.map (·.map change)))) =
      ((List.range (frameCount keys)).map (notesIn keys)).foldl max 0 := by
  have notes (frame : Nat) : ((frameAt keys frame).map (·.map change)).flatten.length = notesIn keys frame := by
    rw [← List.map_flatten, List.length_map, List.length_flatten, frameAt, List.map_map]
    rfl
  rw [mostNotes, framesOf_map, framesOf_eq_map even, List.map_map, List.map_map]
  exact congrArg (List.foldl max 0) (List.map_congr_left fun frame _ => notes frame)

theorem isGreatest_mostNotes (even : ∀ part ∈ keys, part.length = frameCount keys) (change : Nat → Int)
    (some : 0 < mostNotes (framesOf (keys.map (·.map (·.map change))))) :
    IsGreatest (notesIn keys '' Set.Iio (frameCount keys))
      (mostNotes (framesOf (keys.map (·.map (·.map change))))) := by
  rw [mostNotes_eq even] at some ⊢
  have full : (List.range (frameCount keys)).map (notesIn keys) ≠ [] := by
    intro none
    rw [none] at some
    exact Nat.lt_irrefl 0 some
  obtain ⟨frame, within, same⟩ := List.mem_map.mp (foldl_max_mem full)
  refine ⟨⟨frame, List.mem_range.mp within, same⟩, ?_⟩
  rintro _ ⟨other, within, rfl⟩
  exact le_foldl_max (List.mem_map_of_mem (List.mem_range.mpr within))

theorem notesIn_le_mostNotes (even : ∀ part ∈ keys, part.length = frameCount keys) (change : Nat → Int) :
    ∀ frame < frameCount keys, notesIn keys frame ≤ mostNotes (framesOf (keys.map (·.map (·.map change)))) := by
  intro frame within
  rw [mostNotes_eq even]
  exact le_foldl_max (List.mem_map_of_mem (List.mem_range.mpr within))

end Keys

/-! The first note that cannot be played. -/

/-- Whether a pitch is none of a song, or none that a channel can play. -/
def OutOfRange (channels : List Channel) (pitch : Int) : Prop :=
  pitch < 0 ∨ 84 ≤ pitch ∨ ∀ channel ∈ channels, channel.range.contains pitch.toNat = false

section Unplayable

variable {channels : List Channel}

theorem isPlayable_eq_false_iff {pitch : Int} :
    isPlayable channels pitch = false ↔ OutOfRange channels pitch := by
  have bounds : (0 ≤ pitch && decide (pitch.toNat < playablePitches)) = false ↔ pitch < 0 ∨ 84 ≤ pitch := by
    rw [Bool.and_eq_false_iff, decide_eq_false_iff_not, decide_eq_false_iff_not, playablePitches]
    omega
  rw [isPlayable, Bool.and_eq_false_iff, bounds, or_assoc, List.any_eq_false, OutOfRange]
  simp only [Bool.not_eq_true]

theorem not_outOfRange_of_isPlayable {pitch : Int} (playable : isPlayable channels pitch = true) :
    ¬OutOfRange channels pitch := by
  rw [← isPlayable_eq_false_iff, playable]
  exact Bool.false_ne_true.symm

theorem not_outOfRange_of_part {part : Part Int} (none : firstUnplayable? channels part = none) :
    ∀ notes ∈ part, ∀ pitch ∈ notes, ¬OutOfRange channels pitch :=
  fun notes inPart pitch inFrame =>
    not_outOfRange_of_isPlayable (isPlayable_of_firstUnplayable? none notes inPart pitch inFrame)

/-- The note that is found in a track is out of range, and none is in the frames before its own, or before it in
its frame. -/
theorem firstUnplayable?_eq_some {part : Part Int} {unplayable : Unplayable}
    (found : firstUnplayable? channels part = some unplayable) :
    ∃ (notes : List Int) (index : Nat), part[unplayable.frame]? = some notes ∧
      notes[index]? = some unplayable.pitch ∧ OutOfRange channels unplayable.pitch ∧
      (∀ earlier < unplayable.frame, ∀ others, part[earlier]? = some others →
        ∀ pitch ∈ others, ¬OutOfRange channels pitch) ∧
      ∀ earlier < index, ∀ pitch, notes[earlier]? = some pitch → ¬OutOfRange channels pitch := by
  obtain ⟨frame, ⟨notes, number⟩, numbered, inFrame, frames⟩ := exists_first_of_findSome? found
  rw [List.getElem?_zipIdx, Nat.zero_add] at numbered
  obtain ⟨_, inPart, same⟩ := Option.map_eq_some_iff.mp numbered
  cases same
  obtain ⟨pitch, first, rfl⟩ := Option.map_eq_some_iff.mp inFrame
  obtain ⟨out, index, inside, here, indices⟩ := List.find?_eq_some_iff_getElem.mp first
  refine ⟨notes, index, inPart, List.getElem?_eq_some_iff.mpr ⟨inside, here⟩, ?_, ?_, ?_⟩
  · exact isPlayable_eq_false_iff.mp (by simpa using out)
  · intro earlier before others there pitch among
    have none := frames earlier before (others, earlier) (by rw [List.getElem?_zipIdx, there, Nat.zero_add]; rfl)
    have playable := List.find?_eq_none.mp (Option.map_eq_none_iff.mp none) pitch among
    exact not_outOfRange_of_isPlayable (by simpa using playable)
  · intro earlier before pitch there
    obtain ⟨within, there⟩ := List.getElem?_eq_some_iff.mp there
    have playable := indices earlier before
    rw [there] at playable
    exact not_outOfRange_of_isPlayable (by simpa using playable)

/-- What is found track by track is the first note of the whole table that is out of range. -/
theorem isFirst_of_findSome? {table : List (Part Int)} {unplayable : Unplayable}
    (found : table.findSome? (firstUnplayable? channels) = some unplayable) :
    ∃ place, place.frame = unplayable.frame ∧
      IsFirst (OutOfRange channels) table place unplayable.pitch := by
  obtain ⟨track, part, inTable, inTrack, tracks⟩ := exists_first_of_findSome? found
  obtain ⟨notes, index, inPart, inFrame, out, frames, indices⟩ := firstUnplayable?_eq_some inTrack
  refine ⟨⟨track, unplayable.frame, index⟩, rfl,
    noteAt?_eq_some_iff.mpr ⟨part, inTable, notes, inPart, inFrame⟩, out, ?_⟩
  intro other value less there
  obtain ⟨otherPart, otherTrack, others, otherFrame, otherNote⟩ := noteAt?_eq_some_iff.mp there
  -- the other note is in an earlier track, or in this one in an earlier frame, or in this one before the note
  rcases Place.rank_lt_iff.mp less with before | ⟨sameTrack, before⟩
  · exact not_outOfRange_of_part (tracks _ before _ otherTrack) others (List.mem_of_getElem? otherFrame) value
      (List.mem_of_getElem? otherNote)
  cases inTable.symm.trans (sameTrack ▸ otherTrack)
  rcases before with before | ⟨sameFrame, before⟩
  · exact frames _ before others otherFrame value (List.mem_of_getElem? otherNote)
  cases inPart.symm.trans (sameFrame ▸ otherFrame)
  exact indices _ before value otherNote

end Unplayable

/-! The check as a whole. -/

theorem keyOf_pitchOf (transpose : Int) {key : Nat} (byte : key < 0x100) :
    keyOf transpose (pitchOf transpose key) = key := by
  rw [keyOf, pitchOf]
  omega

/-- By however many octaves the keys of a file are shifted, their pitches are signed words of 16 bits. -/
theorem pitchOf_in_word {octave : Int} (low : -128 ≤ octave) (high : octave < 128) {key : Nat}
    (midi : key < 128) :
    -0x8000 ≤ pitchOf (octave * 12) key ∧ pitchOf (octave * 12) key + lowestKey < 0x8000 := by
  rw [pitchOf, lowestKey]
  omega

/-- Playable pitches are narrowed without a change. -/
theorem ofNat_toNat_of_playable {channels : List Channel} {table : List (Part Int)}
    (none : ∀ part ∈ table, firstUnplayable? channels part = none) :
    (table.map (·.map (·.map Int.toNat))).map (·.map (·.map Int.ofNat)) = table := by
  rw [List.map_map]
  refine (List.map_congr_left fun part inTable => ?_).trans (List.map_id table)
  rw [Function.comp_apply, List.map_map]
  refine (List.map_congr_left fun notes inPart => ?_).trans (List.map_id part)
  rw [Function.comp_apply, List.map_map]
  refine (List.map_congr_left fun pitch inFrame => ?_).trans (List.map_id notes)
  have playable := isPlayable_of_firstUnplayable? (none part inTable) notes inPart pitch inFrame
  simp only [isPlayable, Bool.and_eq_true, decide_eq_true_eq] at playable
  exact Int.toNat_of_nonneg playable.1.1

/-- A table of keys that are shifted by octaves is refused if its fullest frame has more notes than there are
channels, and otherwise for its first note that is out of range, by the key that the note had before. A table
without such a note is accepted as it is. -/
theorem checkNotes_of_keys (channels : List Channel) (beatMicros : Float) (octave : Int)
    {keys : List (Part Nat)} (even : ∀ part ∈ keys, part.length = frameCount keys)
    (midi : ∀ part ∈ keys, ∀ notes ∈ part, ∀ key ∈ notes, key < 128) :
    let shifted := keys.map (·.map (·.map (pitchOf (octave * 12))))
    let result := checkNotes channels beatMicros (octave * 12) shifted
    (-128 ≤ octave → octave < 128 → ∀ place pitch, noteAt? shifted place = some pitch →
        -0x8000 ≤ pitch ∧ pitch + lowestKey < 0x8000) ∧
      ((∃ most, IsGreatest (notesIn keys '' Set.Iio (frameCount keys)) most ∧ channels.length < most ∧
          result = .error (.tooManyNotes most channels.length)) ∨
        (∀ frame < frameCount keys, notesIn keys frame ≤ channels.length) ∧
          ((∃ place key, IsFirst (fun key => OutOfRange channels (pitchOf (octave * 12) key)) keys place key ∧
              result = .error (.noteOutOfRange key (frameSeconds beatMicros place.frame))) ∨
            (∀ place key, noteAt? keys place = some key →
              ¬OutOfRange channels (pitchOf (octave * 12) key)) ∧
            ∃ accepted, result = .ok accepted ∧ accepted.map (·.map (·.map Int.ofNat)) = shifted)) := by
  intro shifted result
  constructor
  · intro low high place pitch here
    rw [noteAt?_map] at here
    obtain ⟨key, before, rfl⟩ := Option.map_eq_some_iff.mp here
    exact pitchOf_in_word low high (forall_noteAt? midi before)
  by_cases many : channels.length < mostNotes (framesOf shifted)
  · left
    exact ⟨_, isGreatest_mostNotes even _ (Nat.zero_lt_of_lt many), many, if_pos many⟩
  right
  refine ⟨fun frame within => (notesIn_le_mostNotes even _ frame within).trans (Nat.le_of_not_lt many), ?_⟩
  cases found : shifted.findSome? (firstUnplayable? channels) with
  | some unplayable =>
    obtain ⟨place, sameFrame, first⟩ := isFirst_of_findSome? found
    obtain ⟨key, shift, first⟩ := first.of_map
    have original := keyOf_pitchOf (octave * 12) (Nat.lt_trans (forall_noteAt? midi first.here) (by decide))
    refine .inl ⟨place, key, first, ?_⟩
    simp only [result, checkNotes, if_neg many, found]
    rw [sameFrame, ← shift, original]
  | none =>
    have passes := List.findSome?_eq_none_iff.mp found
    have inRange : ∀ part ∈ shifted, ∀ notes ∈ part, ∀ pitch ∈ notes, ¬OutOfRange channels pitch :=
      fun part inTable => not_outOfRange_of_part (passes part inTable)
    refine .inr ⟨?_, _, ?_, ofNat_toNat_of_playable passes⟩
    · intro place key here
      have shift : noteAt? shifted place = some (pitchOf (octave * 12) key) := by
        rw [noteAt?_map, here]
        rfl
      exact forall_noteAt? inRange shift
    · simp only [result, checkNotes, if_neg many, found]

/-- Two octaves down, the last of four keys is too low for the larger microcontroller. -/
theorem too_low_by_one :
    ∃ place, IsFirst (fun key => OutOfRange Target.atmega3208.channels (pitchOf (-2 * 12) key))
        [[[60], [64]], [[67], [59]]] place 59 ∧
      checkNotes Target.atmega3208.channels 500000 (-2 * 12) [[[0], [4]], [[7], [-1]]] =
        .error (.noteOutOfRange 59 (frameSeconds 500000 place.frame)) := by
  have checked : checkNotes Target.atmega3208.channels 500000 (-2 * 12) [[[0], [4]], [[7], [-1]]] =
      .error (.noteOutOfRange 59 (frameSeconds 500000 1)) := by rfl
  obtain ⟨-, ⟨most, -, -, refused⟩ | ⟨-, ⟨place, key, first, refused⟩ | ⟨-, accepted, passes, -⟩⟩⟩ :=
    @checkNotes_of_keys Target.atmega3208.channels 500000 (-2) [[[60], [64]], [[67], [59]]] (by decide)
      (by decide)
  · cases checked.symm.trans refused
  · obtain ⟨rfl, -⟩ := ArrangeError.noteOutOfRange.inj (Except.error.inj (checked.symm.trans refused))
    exact ⟨place, first, refused⟩
  · cases checked.symm.trans passes

end Midi

end Buzzer
