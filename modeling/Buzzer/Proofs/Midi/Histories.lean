import Mathlib.Data.List.Induction
import Buzzer.Proofs.Midi.Seating

/-!
What is left of the notes that a channel was given. The runs of a channel end with the rest since its last
tone, and before that rest with the tone. The last pitch is looked up behind one run of a rest. A rest of more
frames than a run can hold takes several runs, and the pitch before it is lost.
-/
namespace Buzzer

namespace Midi

/-! Channels that are given notes frame by frame. -/

/-- What every channel is given in a frame, by its number: a pitch of a MIDI track, or nothing. -/
abbrev Row : Type := Nat → Option (Nat × Nat)

/-- A frame in which no channel is given a note. -/
def silence : Row := fun _ => none

namespace Voice

def perform (voice : Voice) : Option (Nat × Nat) → Voice
  | some (track, pitch) => voice.sing track pitch
  | none => voice.rest

/-- A whole frame, in which every channel is given something. -/
def performFrame (voices : List Voice) (row : Row) : List Voice :=
  voices.mapIdx fun number voice => voice.perform (row number)

/-- The channels of some ranges after whole frames. -/
def performed (ranges : List PitchRange) (rows : List Row) : List Voice :=
  rows.foldl performFrame (ranges.map fun range => { range })

end Voice

/-- What a channel has played, frame by frame. -/
def column (rows : List Row) (number : Nat) : List Note :=
  rows.map fun row => (row number).elim .rest fun given => .tone given.2

/-- The last tone among some notes, however long ago. -/
def lastTone? (notes : List Note) : Option Nat := notes.reverse.findSome? Note.pitch?

/-- The frames since the last tone. -/
def resting (notes : List Note) : Nat := (notes.reverse.takeWhile Note.isRest).length

/-- The runs of some notes, the latest first. -/
def runsOf (notes : List Note) : List Event := notes.foldl (fun runs note => Voice.extend note runs) []

section Runs

variable {notes : List Note} {note : Note} {pitch : Nat}

theorem lastTone?_tone (notes : List Note) (pitch : Nat) :
    lastTone? (notes ++ [.tone pitch]) = some pitch := by
  rw [lastTone?, List.reverse_append]
  rfl

theorem lastTone?_rest (notes : List Note) : lastTone? (notes ++ [.rest]) = lastTone? notes := by
  rw [lastTone?, List.reverse_append]
  rfl

theorem resting_tone (notes : List Note) (pitch : Nat) : resting (notes ++ [.tone pitch]) = 0 := by
  rw [resting, List.reverse_append]
  rfl

theorem resting_rest (notes : List Note) : resting (notes ++ [.rest]) = resting notes + 1 := by
  rw [resting, List.reverse_append]
  rfl

theorem resting_append_rests (notes : List Note) (count : Nat) :
    resting (notes ++ List.replicate count .rest) = resting notes + count := by
  induction count with
  | zero => rw [List.replicate_zero, List.append_nil, Nat.add_zero]
  | succ count ih => rw [List.replicate_succ', ← List.append_assoc, resting_rest, ih, Nat.add_assoc]

theorem lastTone?_append_rests (notes : List Note) (count : Nat) :
    lastTone? (notes ++ List.replicate count .rest) = lastTone? notes := by
  induction count with
  | zero => rw [List.replicate_zero, List.append_nil]
  | succ count ih => rw [List.replicate_succ', ← List.append_assoc, lastTone?_rest, ih]

theorem runsOf_concat (notes : List Note) (note : Note) :
    runsOf (notes ++ [note]) = Voice.extend note (runsOf notes) := by
  rw [runsOf, List.foldl_append]
  rfl

/-- Whether runs end with a rest of some frames, after others that do not end with a rest. -/
structure Trails (runs : List Event) (resting : Nat) (earlier : List Event) : Prop where
  runs_eq : runs = (Event.rests (cut maxDuration resting)).reverse ++ earlier
  sounds : ∀ last ∈ earlier.head?, last.note.isRest = false

variable {runs earlier : List Event} {frames : Nat}

theorem Trails.rest (trails : Trails runs frames earlier) :
    Trails (Voice.extend .rest runs) (frames + 1) earlier := by
  refine ⟨?_, trails.sounds⟩
  rw [trails.runs_eq]
  rcases Nat.eq_zero_or_pos frames with rfl | some
  · rw [cut_zero, cut_part (by decide) (by decide)]
    cases earlier with
    | nil => rfl
    | cons last before =>
      have sounds := trails.sounds last rfl
      have different : last.note ≠ .rest := by
        intro same
        rw [same] at sounds
        cases sounds
      exact if_neg fun both => different both.1
  · obtain ⟨count, part, positive, most, rfl⟩ := @exists_last_part maxDuration _ (by decide) some
    rw [cut_last count positive most, Event.reverse_rests, List.cons_append, Voice.extend]
    by_cases full : part < maxDuration
    · rw [if_pos ⟨rfl, full⟩, Nat.add_assoc, cut_last count (Nat.succ_pos _) full, Event.reverse_rests,
        List.cons_append]
    · have whole : count * maxDuration + part + 1 = (count + 1) * maxDuration + 1 := by
        rw [Nat.succ_mul]
        omega
      have same : part = maxDuration := by omega
      rw [if_neg fun both => full both.2, whole, cut_last (count + 1) (by decide) (by decide),
        List.replicate_succ', Event.reverse_rests, Event.reverse_rests, List.cons_append,
        List.cons_append, same]

theorem Trails.rests (trails : Trails runs frames earlier) (count : Nat) :
    Trails ((List.replicate count Note.rest).foldl (fun runs note => Voice.extend note runs) runs)
      (frames + count) earlier := by
  induction count generalizing runs frames with
  | zero => exact trails
  | succ count ih =>
    have later := ih trails.rest
    rwa [Nat.add_assoc, Nat.add_comm 1] at later

theorem head?_extend (note : Note) (runs : List Event) :
    (Voice.extend note runs).head?.map Event.note = some note := by
  cases runs with
  | nil => rfl
  | cons last before =>
    rw [Voice.extend]
    by_cases longer : last.note = note ∧ last.ticks < maxDuration
    · rw [if_pos longer, List.head?_cons, Option.map_some, longer.1]
    · rw [if_neg longer]
      rfl

theorem runsOf_eq_nil_iff : runsOf notes = [] ↔ notes = [] := by
  induction notes using List.reverseRecOn with
  | nil => exact iff_of_true rfl rfl
  | append_singleton notes note _ =>
    refine iff_of_false ?_ (List.append_ne_nil_of_right_ne_nil _ (List.cons_ne_nil _ _))
    rw [runsOf_concat]
    intro none
    have head := head?_extend note (runsOf notes)
    rw [none] at head
    cases head

theorem Trails.tone (runs : List Event) (pitch : Nat) :
    Trails (Voice.extend (.tone pitch) runs) 0 (Voice.extend (.tone pitch) runs) := by
  refine ⟨by rw [cut_zero]; rfl, ?_⟩
  intro last head
  have note := head?_extend (.tone pitch) runs
  rw [Option.mem_def.mp head, Option.map_some, Option.some.injEq] at note
  rw [note]
  rfl

/-- The runs of notes end with the rest since their last tone, and before it with that tone. -/
theorem trails_runsOf (notes : List Note) :
    ∃ earlier, Trails (runsOf notes) (resting notes) earlier ∧
      earlier.head?.bind (·.note.pitch?) = lastTone? notes := by
  induction notes using List.reverseRecOn with
  | nil => exact ⟨[], ⟨rfl, nofun⟩, rfl⟩
  | append_singleton notes note ih =>
    rw [runsOf_concat]
    cases note with
    | tone pitch =>
      rw [resting_tone, lastTone?_tone]
      refine ⟨_, Trails.tone _ pitch, ?_⟩
      have note := head?_extend (.tone pitch) (runsOf notes)
      obtain ⟨last, head, same⟩ := Option.map_eq_some_iff.mp note
      rw [head, Option.bind_some, same]
      rfl
    | rest =>
      obtain ⟨earlier, trails, last⟩ := ih
      rw [resting_rest, lastTone?_rest]
      exact ⟨earlier, trails.rest, last⟩

/-- The last pitch of a channel is found behind a rest of one run, and behind no longer one. -/
theorem Trails.lastPitch? {voice : Voice} (trails : Trails voice.runs frames earlier) :
    voice.lastPitch? =
      if frames ≤ maxDuration then earlier.head?.bind (·.note.pitch?) else none := by
  have runs := trails.runs_eq
  have sounds := trails.sounds
  unfold Voice.lastPitch?
  rcases Nat.eq_zero_or_pos frames with rfl | some
  · rw [runs, cut_zero, if_pos (Nat.zero_le _)]
    cases earlier with
    | nil => rfl
    | cons last before =>
      obtain ⟨note, ticks⟩ := last
      cases note with
      | tone pitch => rfl
      | rest => exact absurd (sounds _ rfl) Bool.noConfusion
  · by_cases single : frames ≤ maxDuration
    · rw [runs, cut_part some single, if_pos single]
      cases earlier with
      | nil => rfl
      | cons last before => rfl
    · obtain ⟨count, part, positive, most, same⟩ := @exists_last_part maxDuration _ (by decide) some
      obtain ⟨more, rfl⟩ : ∃ more, count = more + 1 := by
        refine Nat.exists_eq_add_one.mpr (Nat.pos_of_ne_zero ?_)
        rintro rfl
        omega
      rw [runs, same, cut_last _ positive most, List.replicate_succ', Event.reverse_rests,
        Event.reverse_rests, if_neg (same ▸ single)]
      rfl

end Runs

/-! The channels as they are performed. -/

section Performed

variable {ranges : List PitchRange} {rows : List Row} {number : Nat} {voice : Voice}

theorem Voice.runs_perform (voice : Voice) (given : Option (Nat × Nat)) :
    (voice.perform given).runs =
      extend (given.elim .rest fun given => .tone given.2) voice.runs := by
  cases given <;> rfl

theorem runs_foldl_rows (rows : List Row) (voices : List Voice) (number : Nat) :
    ((rows.foldl Voice.performFrame voices)[number]?).map Voice.runs =
      voices[number]?.map fun voice =>
        (column rows number).foldl (fun runs note => Voice.extend note runs) voice.runs := by
  induction rows generalizing voices with
  | nil => rfl
  | cons row rows ih =>
    rw [List.foldl_cons, ih, Voice.performFrame, List.getElem?_mapIdx, Option.map_map]
    congr 1
    funext voice
    simp only [Function.comp_apply, Voice.runs_perform]
    rfl

theorem Voice.length_performed (ranges : List PitchRange) (rows : List Row) :
    (performed ranges rows).length = ranges.length := by
  refine List.foldlRecOn rows _ (motive := fun voices : List Voice => voices.length = ranges.length)
    (List.length_map _) ?_
  intro voices same row _
  rw [performFrame, List.length_mapIdx, same]

/-- The runs of a channel are those of the notes that it was given. -/
theorem runs_of_performed (here : (Voice.performed ranges rows)[number]? = some voice) :
    voice.runs = runsOf (column rows number) := by
  have runs := runs_foldl_rows rows (ranges.map fun range => { range }) number
  rw [Voice.performed] at here
  rw [here, Option.map_some, List.getElem?_map] at runs
  cases found : ranges[number]? with
  | none =>
    rw [found] at runs
    cases runs
  | some range =>
    rw [found] at runs
    exact Option.some.inj runs

theorem lastPitch?_of_performed (here : (Voice.performed ranges rows)[number]? = some voice) :
    voice.lastPitch? =
      if resting (column rows number) ≤ maxDuration then lastTone? (column rows number) else none := by
  obtain ⟨earlier, trails, last⟩ := trails_runsOf (column rows number)
  rw [← runs_of_performed here] at trails
  rw [trails.lastPitch?, last]

theorem runs_eq_nil_iff (here : (Voice.performed ranges rows)[number]? = some voice) :
    voice.runs = [] ↔ rows = [] := by
  rw [runs_of_performed here, runsOf_eq_nil_iff, column, List.map_eq_nil_iff]

/-- Whether the strategy knows what a channel has played last: the channel has not been resting for longer
than a run can last, unless it has not played anything. -/
def Recalls (rows : List Row) (number : Nat) : Prop :=
  resting (column rows number) ≤ maxDuration ∨ lastTone? (column rows number) = none

theorem lastPitch?_of_recalls {number : Nat} {voice : Voice}
    (here : (Voice.performed ranges rows)[number]? = some voice) (recalls : Recalls rows number) :
    voice.lastPitch? = lastTone? (column rows number) := by
  rw [lastPitch?_of_performed here]
  rcases recalls with short | silent
  · rw [if_pos short]
  · rw [silent, ite_self]

/-- A channel that rests for longer than a run can last counts as one that has never played. -/
theorem forgotten_after_long_rest {number : Nat} {voice : Voice}
    (here : (Voice.performed ranges rows)[number]? = some voice)
    (long : maxDuration < resting (column rows number)) : voice.lastPitch? = none := by
  rw [lastPitch?_of_performed here, if_neg (Nat.not_le_of_lt long)]

end Performed

/-! Giving the notes of a file to channels leads to no other channels than these. -/

/-- A channel in the course of a frame, which has been given what is given so far. -/
def Seat.given (voice : Voice) : Option (Nat × Nat) → Seat
  | some (track, pitch) => { voice := voice.sing track pitch, free := false }
  | none => { voice, free := true }

/-- The channels in the course of a frame. -/
def Seat.during (voices : List Voice) (row : Row) : List Seat :=
  voices.mapIdx fun number voice => given voice (row number)

section Course

variable {strategy : Strategy} {merge : Bool} {voices : List Voice} {row : Row} {after : List Seat}

theorem Seat.getElem?_during (voices : List Voice) (row : Row) (number : Nat) :
    (during voices row)[number]? = voices[number]?.map fun voice => given voice (row number) :=
  List.getElem?_mapIdx

theorem Seat.next_given (voice : Voice) (note : Option (Nat × Nat)) :
    (given voice note).next = { voice := voice.perform note, free := true } := by
  cases note <;> rfl

theorem Seat.given_free {voice : Voice} {note : Option (Nat × Nat)} (free : (given voice note).free = true) :
    note = none := by
  cases note with
  | none => rfl
  | some note => cases free

theorem Seat.next_during (voices : List Voice) (row : Row) :
    (during voices row).map next = during (Voice.performFrame voices row) silence := by
  apply List.ext_getElem?
  intro number
  rw [List.getElem?_map, getElem?_during, getElem?_during, Voice.performFrame, List.getElem?_mapIdx,
    Option.map_map, Option.map_map]
  congr 1
  funext voice
  exact next_given voice (row number)

theorem Seat.emptySeats_eq (channels : List Channel) :
    emptySeats channels = during (Voice.performed (channels.map Channel.range) []) silence := by
  apply List.ext_getElem?
  intro number
  rw [emptySeats, getElem?_during, Voice.performed, List.foldl_nil, List.map_map, List.getElem?_map,
    List.getElem?_map, Option.map_map]
  rfl

/-- A note is given to one of the channels that have not been given any. -/
theorem seatNote?_during {track pitch : Nat}
    (step : seatNote? strategy merge track (Seat.during voices row) pitch = some after) :
    ∃ more, after = Seat.during voices more := by
  obtain ⟨number, seat, here, free, -, rfl⟩ := seatNote?_eq_some step
  rw [Seat.getElem?_during] at here
  obtain ⟨voice, found, rfl⟩ := Option.map_eq_some_iff.mp here
  have none := Seat.given_free free
  refine ⟨fun other => if other = number then some (track, pitch) else row other, ?_⟩
  apply List.ext_getElem?
  intro other
  rw [Seat.getElem?_sing, Seat.getElem?_during, Seat.getElem?_during]
  by_cases same : other = number
  · subst same
    rw [if_pos rfl, if_pos rfl, found, none]
    rfl
  · rw [if_neg same, if_neg same]

theorem seatNotes_during {notes : List (Nat × Nat)}
    (steps : notes.foldlM (fun seats note => seatNote? strategy merge note.1 seats note.2)
      (Seat.during voices row) = some after) : ∃ more, after = Seat.during voices more := by
  induction notes generalizing row with
  | nil =>
    cases steps
    exact ⟨row, rfl⟩
  | cons note later ih =>
    rw [List.foldlM_cons] at steps
    obtain ⟨between, step, others⟩ := Option.bind_eq_some_iff.mp steps
    obtain ⟨more, rfl⟩ := seatNote?_during step
    exact ih others

theorem seatFrame?_during {frame : Frame Nat}
    (step : seatFrame? strategy merge (Seat.during voices silence) frame = some after) :
    ∃ more, after = Seat.during (Voice.performFrame voices more) silence := by
  unfold seatFrame? at step
  obtain ⟨between, notes, last⟩ := Option.bind_eq_some_iff.mp step
  cases last
  rw [seatNotes?_eq_foldlM] at notes
  obtain ⟨more, rfl⟩ := seatNotes_during notes
  exact ⟨more, Seat.next_during voices more⟩

theorem seatFrames_during {frames : List (Frame Nat)}
    (steps : frames.foldlM (seatFrame? strategy merge) (Seat.during voices silence) = some after) :
    ∃ rows : List Row, rows.length = frames.length ∧
      after = Seat.during (rows.foldl Voice.performFrame voices) silence := by
  induction frames generalizing voices with
  | nil =>
    cases steps
    exact ⟨[], rfl, rfl⟩
  | cons frame later ih =>
    rw [List.foldlM_cons] at steps
    obtain ⟨between, step, others⟩ := Option.bind_eq_some_iff.mp steps
    obtain ⟨row, rfl⟩ := seatFrame?_during step
    obtain ⟨rows, length, same⟩ := ih others
    exact ⟨row :: rows, congrArg Nat.succ length, same⟩

/-- Whatever notes are given to channels, after as many frames they are channels that were given something in
each of them. -/
theorem performed_of_frames {channels : List Channel} {frames : List (Frame Nat)}
    (steps : frames.foldlM (seatFrame? strategy merge) (emptySeats channels) = some after) :
    ∃ rows : List Row, rows.length = frames.length ∧
      after = Seat.during (Voice.performed (channels.map Channel.range) rows) silence := by
  rw [Seat.emptySeats_eq] at steps
  exact seatFrames_during steps

/-- The channels that can take a note in the course of a frame are as they were after the frames before. -/
theorem voice_of_candidate {track pitch : Nat} {candidate : Candidate}
    (member : candidate ∈ Seat.candidates merge track pitch 0 (Seat.during voices row)) :
    voices[candidate.number]? = some candidate.voice := by
  obtain ⟨number, seat, rfl, here, free, -⟩ := Seat.mem_candidates member
  rw [Seat.getElem?_during] at here
  obtain ⟨voice, found, rfl⟩ := Option.map_eq_some_iff.mp here
  rw [Seat.given_free free, Nat.zero_add]
  exact found

theorem number_le_of_candidate {seats : List Seat} {track pitch first : Nat} {candidate : Candidate}
    (member : candidate ∈ Seat.candidates merge track pitch first seats) : first ≤ candidate.number := by
  obtain ⟨index, seat, rfl, -⟩ := Seat.mem_candidates member
  exact Nat.le_add_right _ _

theorem candidates_ascending (seats : List Seat) (track pitch first : Nat) :
    ((Seat.candidates merge track pitch first seats).map Candidate.number).Pairwise (· < ·) := by
  induction seats generalizing first with
  | nil => exact List.Pairwise.nil
  | cons seat seats ih =>
    rw [Seat.candidates]
    split
    · rw [List.map_cons, List.pairwise_cons]
      refine ⟨?_, ih (first + 1)⟩
      intro number member
      obtain ⟨candidate, among, rfl⟩ := List.mem_map.mp member
      exact number_le_of_candidate among
    · exact ih (first + 1)

end Course

end Midi

end Buzzer
