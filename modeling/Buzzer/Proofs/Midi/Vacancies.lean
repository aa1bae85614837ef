import Buzzer.Proofs.Midi.Arranging
import Buzzer.Proofs.Playback.Passes

/-!
Channels that are all alike. While any of them is as good as another, every note takes just one of the free
ones, whichever the strategy picks. So as long as no frame has more notes than there are channels, every note
finds one. Channels stay alike if tracks are merged, and also if there is only one track.
-/
namespace Buzzer

namespace Midi

/-- The number of channels that have no note in the frame yet. -/
def vacancies (seats : List Seat) : Nat := seats.countP Seat.free

/-- Whether the channels all have one range, and unless tracks are merged are owned by no track but one. -/
structure Alike (merge : Bool) (track : Nat) (range : PitchRange) (seats : List Seat) : Prop where
  ranges : ∀ seat ∈ seats, seat.voice.range = range
  owners : merge = false → ∀ seat ∈ seats, ∀ owner ∈ seat.voice.owner, owner = track

/-- Whether a note is in a range, and unless tracks are merged is a note of a track. -/
structure Suited (merge : Bool) (track : Nat) (range : PitchRange) (note : Nat × Nat) : Prop where
  inRange : range.contains note.2 = true
  mine : merge = false → note.1 = track

section Notes

variable {strategy : Strategy} {merge : Bool} {track : Nat} {range : PitchRange} {seats after : List Seat}
  {note : Nat × Nat}

theorem Seat.mem_sing {seats : List Seat} {track pitch number : Nat} {seat : Seat}
    (member : seat ∈ sing track pitch number seats) :
    seat ∈ seats ∨ ∃ before ∈ seats, seat = before.give track pitch := by
  obtain ⟨index, here⟩ := List.getElem?_of_mem member
  rw [getElem?_sing] at here
  by_cases same : index = number
  · rw [if_pos same] at here
    obtain ⟨before, found, gives⟩ := Option.map_eq_some_iff.mp here
    exact .inr ⟨before, List.mem_of_getElem? found, gives.symm⟩
  · rw [if_neg same] at here
    exact .inl (List.mem_of_getElem? here)

theorem Seat.length_sing (track pitch number : Nat) (seats : List Seat) :
    (sing track pitch number seats).length = seats.length := by
  have ranges := congrArg List.length (ranges_sing track pitch number seats)
  rwa [List.length_map, List.length_map] at ranges

/-- A note takes one of the free channels. -/
theorem vacancies_sing {number : Nat} {seat : Seat} (here : seats[number]? = some seat)
    (free : seat.free = true) (track pitch : Nat) :
    vacancies (Seat.sing track pitch number seats) + 1 = vacancies seats := by
  induction seats generalizing number with
  | nil => cases here
  | cons first others ih =>
    unfold vacancies at ih ⊢
    cases number with
    | zero =>
      cases here
      rw [Seat.sing, List.countP_cons_of_pos free, List.countP_cons_of_neg Bool.false_ne_true]
    | succ number =>
      have taken := ih here
      rw [Seat.sing, List.countP_cons, List.countP_cons]
      omega

theorem Seat.exists_free {merge : Bool} {track pitch : Nat} (first : Nat) {seats : List Seat} {seat : Seat}
    (member : seat ∈ seats) (free : seat.free = true)
    (takes : seat.voice.takes merge track pitch = true) : candidates merge track pitch first seats ≠ [] := by
  induction seats generalizing first with
  | nil => cases member
  | cons other others ih =>
    rw [candidates]
    split
    · exact List.cons_ne_nil _ _
    next unable =>
      rcases List.mem_cons.mp member with rfl | among
      · exact (unable (by rw [free, takes]; rfl)).elim
      · exact ih (first + 1) among

theorem Alike.takes (alike : Alike merge track range seats) (suited : Suited merge track range note)
    {seat : Seat} (member : seat ∈ seats) : seat.voice.takes merge note.1 note.2 = true := by
  rw [Voice.takes, alike.ranges seat member, suited.inRange, Bool.true_and]
  cases merges : merge with
  | true => rfl
  | false =>
    rw [Bool.false_or, suited.mine merges, Option.all_eq_true]
    exact fun owner owns => decide_eq_true (alike.owners merges seat member owner owns)

theorem Alike.sing (alike : Alike merge track range seats) (suited : Suited merge track range note)
    (number : Nat) : Alike merge track range (Seat.sing note.1 note.2 number seats) := by
  constructor
  · intro seat member
    rcases Seat.mem_sing member with before | ⟨before, among, rfl⟩
    · exact alike.ranges seat before
    · exact alike.ranges before among
  · intro single seat member owner owns
    rcases Seat.mem_sing member with before | ⟨before, among, rfl⟩
    · exact alike.owners single seat before owner owns
    · have given : before.voice.owner.or (some note.1) = some owner := owns
      cases owned : before.voice.owner with
      | none =>
        rw [owned, Option.none_or, Option.some.injEq] at given
        rw [← given, suited.mine single]
      | some first =>
        rw [owned, Option.some_or, Option.some.injEq] at given
        exact given ▸ alike.owners single before among first owned

/-- A note finds a channel if there is one left, and takes no more than that one. -/
theorem seatNote?_of_alike (strategy : Strategy) (alike : Alike merge track range seats)
    (suited : Suited merge track range note) (room : 0 < vacancies seats) :
    ∃ after, seatNote? strategy merge note.1 seats note.2 = some after ∧
      Alike merge track range after ∧ after.length = seats.length ∧
      vacancies after + 1 = vacancies seats := by
  obtain ⟨seat, member, free⟩ := List.countP_pos_iff.mp room
  have able := Seat.exists_free 0 member free (alike.takes suited member)
  obtain ⟨first, others, found⟩ := List.exists_cons_of_ne_nil able
  have step : ∃ after, seatNote? strategy merge note.1 seats note.2 = some after := by
    rw [seatNote?, found]
    exact ⟨_, rfl⟩
  obtain ⟨after, done⟩ := step
  obtain ⟨number, chosen, here, vacant, -, rfl⟩ := seatNote?_eq_some done
  exact ⟨_, done, alike.sing suited number, Seat.length_sing _ _ _ _, vacancies_sing here vacant _ _⟩

theorem seatNotes_of_alike (strategy : Strategy) {notes : List (Nat × Nat)}
    (alike : Alike merge track range seats) (suited : ∀ note ∈ notes, Suited merge track range note)
    (room : notes.length ≤ vacancies seats) :
    ∃ after, notes.foldlM (fun seats note => seatNote? strategy merge note.1 seats note.2) seats =
        some after ∧
      Alike merge track range after ∧ after.length = seats.length := by
  induction notes generalizing seats with
  | nil => exact ⟨seats, rfl, alike, rfl⟩
  | cons note later ih =>
    rw [List.length_cons] at room
    obtain ⟨here, others⟩ := List.forall_mem_cons.mp suited
    -- one channel less is free, and one note less is to come
    obtain ⟨between, step, alikeBetween, size, taken⟩ :=
      seatNote?_of_alike strategy alike here (by omega)
    obtain ⟨after, steps, alikeAfter, sizeAfter⟩ := ih alikeBetween others (by omega)
    refine ⟨after, ?_, alikeAfter, sizeAfter.trans size⟩
    rw [List.foldlM_cons, step]
    exact steps

end Notes

section Frames

variable {strategy : Strategy} {merge : Bool} {track : Nat} {range : PitchRange} {seats : List Seat}

theorem vacancies_of_free (free : ∀ seat ∈ seats, seat.free = true) : vacancies seats = seats.length :=
  List.countP_eq_length.mpr free

theorem Alike.next (alike : Alike merge track range seats) :
    Alike merge track range (seats.map Seat.next) := by
  constructor
  · intro later member
    obtain ⟨seat, among, rfl⟩ := List.mem_map.mp member
    rw [seat.range_next]
    exact alike.ranges seat among
  · intro single later member owner owns
    obtain ⟨seat, among, rfl⟩ := List.mem_map.mp member
    rw [seat.owner_next] at owns
    exact alike.owners single seat among owner owns

/-- Every note of a frame finds a channel, and all channels are free again for the frame after. -/
theorem seatFrame?_of_alike (strategy : Strategy) {frame : Frame Nat}
    (alike : Alike merge track range seats) (free : ∀ seat ∈ seats, seat.free = true)
    (suited : ∀ note ∈ notesFrom 0 frame, Suited merge track range note)
    (few : (notesFrom 0 frame).length ≤ seats.length) :
    ∃ after, seatFrame? strategy merge seats frame = some after ∧ Alike merge track range after ∧
      (∀ seat ∈ after, seat.free = true) ∧ after.length = seats.length := by
  obtain ⟨between, steps, alikeBetween, size⟩ :=
    seatNotes_of_alike strategy alike suited (by rwa [vacancies_of_free free])
  refine ⟨between.map Seat.next, ?_, alikeBetween.next, ?_, by rw [List.length_map, size]⟩
  · rw [seatFrame?, seatNotes?_eq_foldlM, steps]
    rfl
  · intro later member
    obtain ⟨seat, -, rfl⟩ := List.mem_map.mp member
    rfl

theorem seatFrames_of_alike (strategy : Strategy) {frames : List (Frame Nat)}
    (alike : Alike merge track range seats) (free : ∀ seat ∈ seats, seat.free = true)
    (suited : ∀ frame ∈ frames, ∀ note ∈ notesFrom 0 frame, Suited merge track range note)
    (few : ∀ frame ∈ frames, (notesFrom 0 frame).length ≤ seats.length) :
    ∃ after, frames.foldlM (seatFrame? strategy merge) seats = some after := by
  induction frames generalizing seats with
  | nil => exact ⟨seats, rfl⟩
  | cons frame later ih =>
    obtain ⟨suitedHere, suitedLater⟩ := List.forall_mem_cons.mp suited
    obtain ⟨fewHere, fewLater⟩ := List.forall_mem_cons.mp few
    obtain ⟨between, step, alikeBetween, freeBetween, size⟩ :=
      seatFrame?_of_alike strategy alike free suitedHere fewHere
    obtain ⟨after, steps⟩ := ih alikeBetween freeBetween suitedLater (by rwa [size])
    exact ⟨after, by rw [List.foldlM_cons, step]; exact steps⟩

end Frames

/-! The notes that are accepted for channels that are all alike. -/

/-- Whether a track has a note in any of its frames. -/
def PlaysIn {α : Type} (parts : List (Part α)) (track : Nat) : Prop :=
  ∃ part, parts[track]? = some part ∧ ∃ pitches ∈ part, pitches ≠ []

/-- Whether no two tracks have notes. -/
def OnePlays {α : Type} (parts : List (Part α)) : Prop :=
  ∀ first second, PlaysIn parts first → PlaysIn parts second → first = second

theorem PlaysIn.of_map {α β : Type} {change : α → β} {parts : List (Part α)} {track : Nat}
    (plays : PlaysIn (parts.map (·.map (·.map change))) track) : PlaysIn parts track := by
  obtain ⟨row, here, changed, inRow, some⟩ := plays
  rw [List.getElem?_map] at here
  obtain ⟨part, found, rfl⟩ := Option.map_eq_some_iff.mp here
  obtain ⟨pitches, inPart, rfl⟩ := List.mem_map.mp inRow
  exact ⟨part, found, pitches, inPart, fun none => some (by rw [none, List.map_nil])⟩

/-- A track that has a note in a frame plays. -/
theorem playsIn_of_note {parts : List (Part Nat)} {frame : Frame Nat} (member : frame ∈ framesOf parts)
    {note : Nat × Nat} (among : note ∈ notesFrom 0 frame) : PlaysIn parts note.1 := by
  obtain ⟨track, pitches, inFrame, same, inside⟩ := mem_notesFrom among
  obtain ⟨part, inParts, inPart⟩ := exists_part_of_framesOf member inFrame
  rw [same, Nat.zero_add]
  exact ⟨part, inParts, pitches, inPart, List.ne_nil_of_mem inside⟩

theorem framesOf_map {α β : Type} (change : α → β) (parts : List (Part α)) :
    framesOf (parts.map (·.map (·.map change))) = (framesOf parts).map (·.map (·.map change)) := by
  have count : frameCount (parts.map (·.map (·.map change))) = frameCount parts := by
    cases parts with
    | nil => rfl
    | cons part later => exact List.length_map ..
  unfold framesOf
  rw [count]
  clear count
  generalize frameCount parts = count
  induction parts with
  | nil =>
    rw [List.map_nil, List.foldr_nil, List.foldr_nil, List.map_replicate]
    rfl
  | cons part later ih =>
    rw [List.map_cons, List.foldr_cons, List.foldr_cons, ih, List.zipWith_map, List.map_zipWith]
    rfl

theorem length_notesFrom (track : Nat) (frame : Frame Nat) :
    (notesFrom track frame).length = frame.flatten.length := by
  induction frame generalizing track with
  | nil => rfl
  | cons pitches later ih =>
    rw [notesFrom, List.length_append, List.length_map, ih, List.flatten_cons, List.length_append]

section Accepted

variable {channels : List Channel} {beatMicros : Float} {transpose : Int} {parts : List (Part Int)}
  {accepted : List (Part Nat)}

/-- No frame that is accepted has more notes than there are channels. -/
theorem length_notesFrom_le (checked : checkNotes channels beatMicros transpose parts = .ok accepted) :
    ∀ frame ∈ framesOf accepted, (notesFrom 0 frame).length ≤ channels.length := by
  obtain ⟨few, -, rfl⟩ := checkNotes_eq_ok checked
  intro frame member
  rw [framesOf_map] at member
  obtain ⟨before, among, rfl⟩ := List.mem_map.mp member
  rw [length_notesFrom, ← List.map_flatten, List.length_map]
  exact (le_foldl_max (List.mem_map_of_mem among)).trans few

theorem onePlays_of_checkNotes
    (checked : checkNotes channels beatMicros transpose parts = .ok accepted) (one : OnePlays parts) :
    OnePlays accepted := by
  obtain ⟨-, -, rfl⟩ := checkNotes_eq_ok checked
  exact fun first second plays other => one first second plays.of_map other.of_map

/-- Every note that is accepted is in the one range that all channels have. -/
theorem contains_of_checkNotes {range : PitchRange} (ranges : ∀ channel ∈ channels, channel.range = range)
    (checked : checkNotes channels beatMicros transpose parts = .ok accepted) :
    ∀ frame ∈ framesOf accepted, ∀ note ∈ notesFrom 0 frame, range.contains note.2 = true := by
  intro frame member note among
  obtain ⟨pitch, playable, same⟩ := playable_of_checkNotes checked frame member note among
  rw [isPlayable, Bool.and_eq_true] at playable
  obtain ⟨channel, inside, contains⟩ := List.any_eq_true.mp playable.2
  rwa [ranges channel inside, same] at contains

/-- If tracks are merged, or if no two of them play, then there is a track whose notes are all notes. -/
theorem exists_suited {range : PitchRange} (ranges : ∀ channel ∈ channels, channel.range = range)
    (checked : checkNotes channels beatMicros transpose parts = .ok accepted) {merge : Bool}
    (one : merge = true ∨ OnePlays parts) :
    ∃ track, ∀ frame ∈ framesOf accepted, ∀ note ∈ notesFrom 0 frame, Suited merge track range note := by
  have inRange := contains_of_checkNotes ranges checked
  by_cases plays : merge = false ∧ ∃ track, PlaysIn accepted track
  · obtain ⟨single, track, plays⟩ := plays
    have alone := onePlays_of_checkNotes checked (one.resolve_left (by rw [single]; exact nofun))
    refine ⟨track, fun frame member note among => ⟨inRange frame member note among, fun _ => ?_⟩⟩
    exact alone _ _ (playsIn_of_note member among) plays
  · refine ⟨0, fun frame member note among => ⟨inRange frame member note among, fun single => ?_⟩⟩
    exact (plays ⟨single, _, playsIn_of_note member among⟩).elim

end Accepted

theorem alike_emptySeats {channels : List Channel} {range : PitchRange}
    (ranges : ∀ channel ∈ channels, channel.range = range) (merge : Bool) (track : Nat) :
    Alike merge track range (emptySeats channels) := by
  constructor
  · intro seat member
    obtain ⟨channel, among, rfl⟩ := List.mem_map.mp member
    exact ranges channel among
  · intro _ seat member owner owns
    obtain ⟨channel, -, rfl⟩ := List.mem_map.mp member
    cases owns

/-- Whether all channels have one range. -/
def EqualRanges (channels : List Channel) : Prop :=
  ∀ first ∈ channels, ∀ second ∈ channels, first.range = second.range

theorem EqualRanges.exists_range {channels : List Channel} (equal : EqualRanges channels) :
    ∃ range, ∀ channel ∈ channels, channel.range = range := by
  cases channels with
  | nil => exact ⟨⟨0, 0⟩, nofun⟩
  | cons first others =>
    exact ⟨first.range, fun channel member => equal channel member first List.mem_cons_self⟩

theorem equalRanges_replicate (count : Nat) (channel : Channel) :
    EqualRanges (List.replicate count channel) := by
  intro first member second other
  rw [List.eq_of_mem_replicate member, List.eq_of_mem_replicate other]

theorem assign?_of_equalRanges {channels : List Channel} (equal : EqualRanges channels)
    {beatMicros : Float} {transpose : Int} {parts : List (Part Int)} {accepted : List (Part Nat)}
    (checked : checkNotes channels beatMicros transpose parts = .ok accepted) {merge : Bool}
    (one : merge = true ∨ OnePlays parts) (strategy : Strategy) :
    ∃ tracks, assign? strategy channels merge (framesOf accepted) = some tracks := by
  obtain ⟨range, ranges⟩ := equal.exists_range
  obtain ⟨track, suited⟩ := exists_suited ranges checked one
  have free : ∀ seat ∈ emptySeats channels, seat.free = true := by
    intro seat member
    obtain ⟨channel, -, rfl⟩ := List.mem_map.mp member
    rfl
  have few : ∀ frame ∈ framesOf accepted, (notesFrom 0 frame).length ≤ (emptySeats channels).length := by
    rw [emptySeats, List.length_map]
    exact length_notesFrom_le checked
  obtain ⟨after, steps⟩ :=
    seatFrames_of_alike strategy (alike_emptySeats ranges merge track) free suited few
  exact ⟨draftTracks (after.map Seat.voice), by rw [assign?, steps]; rfl⟩

/-! A strategy that tries others fails only if all of them do. -/

theorem lowestRank_ne_none {rank : List TrackDraft → Except SongError (Nat × Nat)} {best : Option Ranked}
    {candidates : List (List TrackDraft)} (some : best ≠ none ∨ candidates ≠ []) :
    lowestRank rank best candidates ≠ .ok none := by
  induction candidates generalizing best with
  | nil => exact fun none => some.elim (· (Except.ok.inj none)) (· rfl)
  | cons tracks later ih =>
    intro none
    rw [lowestRank] at none
    obtain ⟨value, -, none⟩ := exists_of_bind_eq_ok none
    cases best with
    | none => exact ih (.inl (Option.some_ne_none _)) none
    | some held => exact ih (.inl (Option.some_ne_none _)) none

theorem assignChannels_ne_unassignable {channels : List Channel} {merge : Bool} {frames : List (Frame Nat)}
    (assigned : ∀ strategy, ∃ tracks, assign? strategy channels merge frames = some tracks)
    (strategy failing : Strategy) :
    assignChannels strategy channels merge frames ≠ .error (.unassignable failing) := by
  obtain ⟨tracks, first⟩ := assigned .closest
  have candidates : candidateTracks channels merge frames ≠ [] := by
    apply List.ne_nil_of_mem
    exact List.mem_filterMap.mpr ⟨.closest, List.mem_cons_self, first⟩
  have best : ∀ rank, bestTracks? rank channels merge frames ≠ .ok none := by
    intro rank none
    rw [bestTracks?] at none
    cases lowest : lowestRank rank .none (candidateTracks channels merge frames) with
    | error error =>
      rw [lowest] at none
      cases none
    | ok ranked =>
      rw [lowest] at none
      rw [Option.map_eq_none_iff.mp (Except.ok.inj none)] at lowest
      exact lowestRank_ne_none (.inr candidates) lowest
  have direct : ∀ strategy, assign? strategy channels merge frames ≠ none := by
    intro strategy
    obtain ⟨tracks, found⟩ := assigned strategy
    rw [found]
    exact Option.some_ne_none _
  intro fails
  unfold assignChannels at fails
  simp only at fails
  split at fails
  · cases fails
  next none =>
    cases strategy with
    | auto =>
      exact direct .closest (List.findSome?_eq_none_iff.mp (Except.ok.inj none) _ List.mem_cons_self)
    | smallest => exact best _ none
    | fewestChannels => exact best _ none
    | closest => exact direct _ (Except.ok.inj none)
    | closestAverage => exact direct _ (Except.ok.inj none)
    | firstFit => exact direct _ (Except.ok.inj none)
    | firstFitNarrowest => exact direct _ (Except.ok.inj none)
  · cases fails

theorem checkNotes_ne_unassignable (channels : List Channel) (beatMicros : Float) (transpose : Int)
    (parts : List (Part Int)) (failing : Strategy) :
    checkNotes channels beatMicros transpose parts ≠ .error (.unassignable failing) := by
  intro fails
  unfold checkNotes at fails
  simp only at fails
  split at fails
  · cases fails
  · split at fails <;> cases fails

section Libraries

variable [FloatLibrary]

namespace Arranger

/-- The notes of a file that are checked before they are given to channels. -/
def table (arranger : Arranger) (file : File) (units : Nat) : List (Part Int) :=
  let timeline := Timeline.ofFile file
  let beatMicros := timeline.tempos.average timeline.duration
  let bounds := timeline.tempos.frameBounds beatMicros units timeline.duration
  timeline.notes.map (pitchPart bounds (arranger.octave * 12))

theorem arrangeFrames_ne_unassignable {arranger : Arranger} (equal : EqualRanges arranger.channels)
    {bounds : List Nat} {notes : List (List NoteEvent)}
    (one : arranger.mergeTracks = true ∨ OnePlays (notes.map (pitchPart bounds (arranger.octave * 12))))
    (beatMicros : Float) (failing : Strategy) :
    arranger.arrangeFrames beatMicros bounds notes ≠ .error (.unassignable failing) := by
  intro fails
  unfold arrangeFrames at fails
  simp only at fails
  cases checked : checkNotes arranger.channels beatMicros (arranger.octave * 12)
      (notes.map (pitchPart bounds (arranger.octave * 12))) with
  | error error =>
    rw [checked] at fails
    cases fails
    exact checkNotes_ne_unassignable _ _ _ _ _ checked
  | ok accepted =>
    rw [checked] at fails
    have found := assign?_of_equalRanges equal checked one
    cases assigned : assignChannels arranger.strategy arranger.channels arranger.mergeTracks
        (framesOf accepted) with
    | error error =>
      simp only [bind, Except.bind, assigned] at fails
      cases fails
      exact assignChannels_ne_unassignable found _ _ assigned
    | ok tracks =>
      simp only [bind, Except.bind, assigned] at fails
      cases fails

theorem arrange_ne_unassignable [Reader] {arranger : Arranger} (equal : EqualRanges arranger.channels)
    {bytes : List UInt8}
    (one : arranger.mergeTracks = true ∨
      ∀ file units, Reader.file? bytes = some file → file.timing = .ticksPerBeat units →
        OnePlays (arranger.table file units)) (failing : Strategy) :
    arranger.arrange bytes ≠ .error (.unassignable failing) := by
  intro fails
  unfold arrange at fails
  cases read : Reader.file? bytes with
  | none =>
    rw [read] at fails
    cases fails
  | some file =>
    simp only [read] at fails
    split at fails
    next units timing =>
      split at fails
      · cases fails
      · exact arrangeFrames_ne_unassignable equal (one.imp_right (· file units read timing)) _ _ fails
    · cases fails

end Arranger

/-- On channels that all have one range, every strategy finds channels for the notes that are accepted, as long
as tracks are merged or no two of them have notes. So arranging notes or a file never fails for the lack of a
channel, however the file is read. -/
theorem equal_channels_assignable [Reader] {channels : List Channel} (equal : EqualRanges channels) :
    (∀ beatMicros transpose parts accepted merge,
      checkNotes channels beatMicros transpose parts = .ok accepted → merge = true ∨ OnePlays parts →
        (∀ strategy ∈ Strategy.simple,
          ∃ tracks, assign? strategy channels merge (framesOf accepted) = some tracks) ∧
        ∀ strategy failing,
          assignChannels strategy channels merge (framesOf accepted) ≠ .error (.unassignable failing)) ∧
      ∀ arranger : Arranger, arranger.channels = channels →
        (∀ beatMicros bounds notes,
          arranger.mergeTracks = true ∨
              OnePlays (notes.map (pitchPart bounds (arranger.octave * 12))) →
            ∀ failing, arranger.arrangeFrames beatMicros bounds notes ≠ .error (.unassignable failing)) ∧
        ∀ bytes,
          (arranger.mergeTracks = true ∨
              ∀ file units, Reader.file? bytes = some file → file.timing = .ticksPerBeat units →
                OnePlays (arranger.table file units)) →
            ∀ failing, arranger.arrange bytes ≠ .error (.unassignable failing) := by
  constructor
  · intro beatMicros transpose parts accepted merge checked one
    have found := assign?_of_equalRanges equal checked one
    exact ⟨fun strategy _ => found strategy, assignChannels_ne_unassignable found⟩
  · rintro arranger rfl
    exact ⟨fun beatMicros bounds notes one => arranger.arrangeFrames_ne_unassignable equal one beatMicros,
      fun bytes one => arranger.arrange_ne_unassignable equal one⟩

end Libraries

set_option maxRecDepth 8192 in
/-- Two tracks that take turns with two notes and one on the larger microcontroller. Merged they are assigned
by every strategy, but when each keeps its channels the first fit runs out of them. -/
theorem turns_on_equal_channels :
    EqualRanges Target.atmega3208.channels ∧
      ∃ accepted,
        checkNotes Target.atmega3208.channels 500000 0 [[[24, 28], [31]], [[31], [24, 28]]] =
          .ok accepted ∧
        (∀ strategy ∈ Strategy.simple, ∃ tracks,
          assign? strategy Target.atmega3208.channels true (framesOf accepted) = some tracks) ∧
        assign? .firstFit Target.atmega3208.channels false (framesOf accepted) = none := by
  have equal : EqualRanges Target.atmega3208.channels := equalRanges_replicate 3 _
  have checked : checkNotes Target.atmega3208.channels 500000 0 [[[24, 28], [31]], [[31], [24, 28]]] =
      .ok [[[24, 28], [31]], [[31], [24, 28]]] := by
    cbv
  refine ⟨equal, _, checked, ((equal_channels_assignable equal).1 _ _ _ _ true checked (.inl rfl)).1, ?_⟩
  cbv

end Midi

end Buzzer
