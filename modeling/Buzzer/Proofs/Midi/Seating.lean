import Buzzer.Midi.Seating
import Buzzer.Proofs.Draft.Sounding

/-!
Giving the notes of frames to channels. A table keeps which channel took which note in every frame so
far. Whatever channel a strategy picks, the runs of every channel expand to the notes that it took, with a
rest for each frame in which it took none.
-/
namespace Buzzer

namespace Midi

/-- A note of a frame and the number of the channel that takes it. -/
structure Placement where
  track : Nat
  pitch : Nat
  number : Nat

namespace Placement

def note (placement : Placement) : Nat × Nat := (placement.track, placement.pitch)

/-- What a channel plays in a frame with these placements. -/
def heard (placed : List Placement) (number : Nat) : Note :=
  (placed.find? (·.number = number)).elim .rest fun placement => .tone placement.pitch

theorem heard_of_not_mem {placed : List Placement} {number : Nat}
    (absent : number ∉ placed.map Placement.number) : heard placed number = .rest := by
  have none : placed.find? (·.number = number) = none := by
    rw [List.find?_eq_none]
    intro placement member same
    apply absent
    rw [← of_decide_eq_true same]
    exact List.mem_map_of_mem member
  rw [heard, none]
  rfl

theorem heard_append_of_mem {placed : List Placement} {number : Nat}
    (present : number ∈ placed.map Placement.number) (more : List Placement) :
    heard (placed ++ more) number = heard placed number := by
  obtain ⟨placement, member, same⟩ := List.mem_map.mp present
  unfold heard
  rw [List.find?_append]
  cases found : placed.find? (·.number = number) with
  | none =>
    have different := List.find?_eq_none.mp found placement member
    rw [same] at different
    simp at different
  | some first => rfl

theorem heard_append_self {placed : List Placement} {placement : Placement}
    (absent : placement.number ∉ placed.map Placement.number) :
    heard (placed ++ [placement]) placement.number = .tone placement.pitch := by
  have none : placed.find? (·.number = placement.number) = none := by
    rw [List.find?_eq_none]
    intro other member same
    apply absent
    rw [← of_decide_eq_true same]
    exact List.mem_map_of_mem member
  rw [heard, List.find?_append, none]
  simp

theorem heard_of_mem {placed : List Placement} (distinct : (placed.map Placement.number).Nodup)
    {placement : Placement} (member : placement ∈ placed) :
    heard placed placement.number = .tone placement.pitch := by
  induction placed with
  | nil => cases member
  | cons first later ih =>
    rw [List.map_cons, List.nodup_cons] at distinct
    unfold heard
    by_cases same : first.number = placement.number
    · rcases List.mem_cons.mp member with rfl | among
      · simp
      · exact (distinct.1 (same ▸ List.mem_map_of_mem among)).elim
    · rcases List.mem_cons.mp member with rfl | among
      · exact (same rfl).elim
      · rw [List.find?_cons_of_neg (by simpa using same)]
        exact ih distinct.2 among

end Placement

namespace Voice

def sung (voice : Voice) : List Note := Event.spread voice.runs.reverse

/-- A frame is appended to the runs without changing the frames before it. -/
theorem spread_extend (note : Note) (runs : List Event) :
    Event.spread (extend note runs).reverse = Event.spread runs.reverse ++ [note] := by
  cases runs with
  | nil => rfl
  | cons last earlier =>
    rw [extend]
    by_cases longer : last.note = note ∧ last.ticks < maxDuration
    · rw [if_pos longer, List.reverse_cons, List.reverse_cons, Event.spread_append,
        Event.spread_append, Event.spread_singleton, Event.spread_singleton, List.replicate_succ',
        ← longer.1, List.append_assoc]
    · rw [if_neg longer, List.reverse_cons, Event.spread_append, Event.spread_singleton]
      rfl

theorem extend_short {note : Note} {runs : List Event}
    (short : ∀ run ∈ runs, run.ticks ≤ maxDuration) :
    ∀ run ∈ extend note runs, run.ticks ≤ maxDuration := by
  have one : 1 ≤ maxDuration := by decide
  cases runs with
  | nil =>
    intro run member
    rw [List.mem_singleton.mp member]
    exact one
  | cons last earlier =>
    rw [extend]
    by_cases longer : last.note = note ∧ last.ticks < maxDuration
    · rw [if_pos longer]
      intro run member
      rcases List.mem_cons.mp member with rfl | among
      · exact longer.2
      · exact short run (List.mem_cons_of_mem _ among)
    · rw [if_neg longer]
      intro run member
      rcases List.mem_cons.mp member with rfl | among
      · exact one
      · exact short run among

theorem sung_sing (voice : Voice) (track pitch : Nat) :
    (voice.sing track pitch).sung = voice.sung ++ [.tone pitch] :=
  spread_extend (.tone pitch) voice.runs

theorem sung_rest (voice : Voice) : voice.rest.sung = voice.sung ++ [.rest] :=
  spread_extend .rest voice.runs

end Voice

theorem Strategy.choose_mem (strategy : Strategy) (pitch : Nat) (first : Candidate)
    (others : List Candidate) : strategy.choose pitch first others ∈ first :: others := by
  have head : first ∈ first :: others := List.mem_cons_self
  have tail : ∀ next ∈ others, next ∈ first :: others := fun next member => List.mem_cons_of_mem _ member
  unfold choose
  cases strategy with
  | closest =>
    simp only
    split
    · apply List.foldlRecOn (motive := fun best => best ∈ first :: others) others _ head
      intro best found next member
      split
      · exact found
      · exact tail next member
    · exact head
  | closestAverage =>
    simp only
    split
    · apply List.foldlRecOn (motive := fun best : Candidate × Float => best.1 ∈ first :: others) others _ head
      intro best found next member
      split
      · exact tail next member
      · exact found
    · exact head
  | firstFitNarrowest =>
    apply List.foldlRecOn (motive := fun best => best ∈ first :: others) others _ head
    intro best found next member
    split
    · exact tail next member
    · exact found
  | firstFit => exact head
  | auto => exact head
  | smallest => exact head
  | fewestChannels => exact head

namespace Seat

def give (seat : Seat) (track pitch : Nat) : Seat :=
  { voice := seat.voice.sing track pitch, free := false }

theorem getElem?_sing (track pitch number : Nat) (seats : List Seat) (index : Nat) :
    (sing track pitch number seats)[index]? =
      if index = number then seats[index]?.map (·.give track pitch) else seats[index]? := by
  induction seats generalizing number index with
  | nil => simp [sing]
  | cons seat seats ih =>
    cases number with
    | zero => cases index <;> simp [sing, give]
    | succ number =>
      cases index with
      | zero => simp [sing]
      | succ index => simp [sing, ih]

theorem mem_candidates {merge : Bool} {track pitch first : Nat} {seats : List Seat}
    {candidate : Candidate} (member : candidate ∈ candidates merge track pitch first seats) :
    ∃ index seat, candidate = ⟨first + index, seat.voice⟩ ∧ seats[index]? = some seat ∧
      seat.free = true ∧ seat.voice.takes merge track pitch = true := by
  induction seats generalizing first with
  | nil => cases member
  | cons seat seats ih =>
    have others : candidate ∈ candidates merge track pitch (first + 1) seats →
        ∃ index other, candidate = ⟨first + index, other.voice⟩ ∧ (seat :: seats)[index]? = some other ∧
          other.free = true ∧ other.voice.takes merge track pitch = true := by
      intro among
      obtain ⟨index, other, same, here, able⟩ := ih among
      refine ⟨index + 1, other, ?_, here, able⟩
      rw [same, Nat.add_assoc, Nat.add_comm 1]
    rw [candidates] at member
    by_cases able : (seat.free && seat.voice.takes merge track pitch) = true
    · rw [if_pos able] at member
      rcases List.mem_cons.mp member with rfl | among
      · rw [Bool.and_eq_true] at able
        exact ⟨0, seat, rfl, rfl, able⟩
      · exact others among
    · rw [if_neg able] at member
      exact others member

end Seat

/-- A note goes to a free channel that can take it, and the other channels stay as they are. -/
theorem seatNote?_eq_some {strategy : Strategy} {merge : Bool} {track pitch : Nat}
    {seats after : List Seat} (step : seatNote? strategy merge track seats pitch = some after) :
    ∃ number seat, seats[number]? = some seat ∧ seat.free = true ∧
      seat.voice.takes merge track pitch = true ∧ after = Seat.sing track pitch number seats := by
  unfold seatNote? at step
  cases found : Seat.candidates merge track pitch 0 seats with
  | nil =>
    rw [found] at step
    cases step
  | cons first others =>
    rw [found] at step
    cases step
    have chosen := Strategy.choose_mem strategy pitch first others
    rw [← found] at chosen
    obtain ⟨index, seat, same, here, free, takes⟩ := Seat.mem_candidates chosen
    refine ⟨index, seat, here, free, takes, ?_⟩
    simp only [same, Nat.zero_add]

/-- Whether the placements of a frame give every channel at most one note, which it can play, and of the
track that owns it. -/
structure Placed (merge : Bool) (placed : List Placement) (seats : List Seat) : Prop where
  distinct : (placed.map Placement.number).Nodup
  playable : ∀ placement ∈ placed, ∃ seat, seats[placement.number]? = some seat ∧
    seat.voice.range.contains placement.pitch = true ∧
    (merge = false → seat.voice.owner = some placement.track)

def Seat.Kept (before after : List Seat) : Prop :=
  ∀ (number : Nat) (seat : Seat), before[number]? = some seat → ∃ later : Seat, after[number]? = some later ∧
    later.voice.range = seat.voice.range ∧
    ∀ track, seat.voice.owner = some track → later.voice.owner = some track

theorem Seat.plays_give {merge : Bool} {track pitch : Nat} {seat : Seat}
    (takes : seat.voice.takes merge track pitch = true) :
    (seat.give track pitch).voice.range.contains pitch = true ∧
      (merge = false → (seat.give track pitch).voice.owner = some track) := by
  rw [Voice.takes, Bool.and_eq_true] at takes
  refine ⟨takes.1, ?_⟩
  intro single
  have owned := takes.2
  rw [single, Bool.false_or] at owned
  cases owner : seat.voice.owner with
  | none => simp [give, Voice.sing, owner]
  | some other =>
    rw [owner] at owned
    have same : other = track := of_decide_eq_true owned
    simp [give, Voice.sing, owner, same]

theorem Seat.kept_sing (track pitch number : Nat) (seats : List Seat) :
    Seat.Kept seats (Seat.sing track pitch number seats) := by
  intro index other found
  rw [Seat.getElem?_sing]
  by_cases same : index = number
  · rw [if_pos same, found, Option.map_some]
    refine ⟨_, rfl, rfl, ?_⟩
    intro track owner
    simp [give, Voice.sing, owner]
  · rw [if_neg same]
    exact ⟨other, found, rfl, fun track owner => owner⟩

theorem Seat.ranges_sing (track pitch number : Nat) (seats : List Seat) :
    (Seat.sing track pitch number seats).map (·.voice.range) = seats.map (·.voice.range) := by
  apply List.ext_getElem?
  intro index
  rw [List.getElem?_map, List.getElem?_map, Seat.getElem?_sing]
  by_cases same : index = number
  · rw [if_pos same, Option.map_map]
    rfl
  · rw [if_neg same]

theorem Seat.range_next (seat : Seat) : seat.next.voice.range = seat.voice.range := by
  unfold next
  split <;> rfl

theorem Seat.owner_next (seat : Seat) : seat.next.voice.owner = seat.voice.owner := by
  unfold next
  split <;> rfl

theorem Seat.sung_next (seat : Seat) :
    seat.next.voice.sung = seat.voice.sung ++ if seat.free then [.rest] else [] := by
  unfold next
  by_cases free : seat.free = true
  · rw [if_pos free, if_pos free, Voice.sung_rest]
  · rw [if_neg free, if_neg free, List.append_nil]

theorem Placed.kept {merge : Bool} {placed : List Placement} {before after : List Seat}
    (holds : Placed merge placed before) (kept : Seat.Kept before after) : Placed merge placed after := by
  refine ⟨holds.distinct, ?_⟩
  intro placement member
  obtain ⟨seat, here, contains, owned⟩ := holds.playable placement member
  obtain ⟨later, there, range, owner⟩ := kept _ seat here
  refine ⟨later, there, by rw [range, contains], ?_⟩
  intro single
  exact owner _ (owned single)

/-- The channels in the course of a frame, where `table` has the placements of the frames before and
`placed` those of this one. -/
structure Seated (channels : List Channel) (merge : Bool) (table : List (List Placement))
    (placed : List Placement) (seats : List Seat) : Prop where
  ranges : seats.map (·.voice.range) = channels.map Channel.range
  free : ∀ (number : Nat) (seat : Seat), seats[number]? = some seat →
    (seat.free = true ↔ number ∉ placed.map Placement.number)
  sung : ∀ (number : Nat) (seat : Seat), seats[number]? = some seat →
    seat.voice.sung = table.map (Placement.heard · number) ++
      if seat.free then [] else [Placement.heard placed number]
  short : ∀ seat ∈ seats, ∀ run ∈ seat.voice.runs, run.ticks ≤ maxDuration
  earlier : ∀ before ∈ table, Placed merge before seats
  current : Placed merge placed seats

section Frames

variable {channels : List Channel} {strategy : Strategy} {merge : Bool}
  {table : List (List Placement)} {placed : List Placement} {seats after : List Seat}

theorem seated_start (channels : List Channel) (merge : Bool) :
    Seated channels merge [] [] (emptySeats channels) := by
  have start : ∀ (number : Nat) (seat : Seat), (emptySeats channels)[number]? = some seat →
      seat.free = true ∧ seat.voice.runs = [] := by
    intro number seat here
    rw [emptySeats, List.getElem?_map] at here
    obtain ⟨channel, -, rfl⟩ := Option.map_eq_some_iff.mp here
    exact ⟨rfl, rfl⟩
  refine ⟨?_, ?_, ?_, ?_, ?_, ?_⟩
  · rw [emptySeats, List.map_map]
    rfl
  · intro number seat here
    simp [(start number seat here).1]
  · intro number seat here
    rw [Voice.sung, (start number seat here).2, if_pos (start number seat here).1]
    rfl
  · intro seat member run among
    obtain ⟨number, inside, rfl⟩ := List.getElem_of_mem member
    rw [(start number _ (List.getElem?_eq_getElem inside)).2] at among
    cases among
  · intro before member
    cases member
  · exact ⟨List.Pairwise.nil, fun placement member => by cases member⟩

theorem seated_note (seated : Seated channels merge table placed seats) {track pitch : Nat}
    (step : seatNote? strategy merge track seats pitch = some after) :
    ∃ number, Seated channels merge table (placed ++ [⟨track, pitch, number⟩]) after := by
  obtain ⟨number, seat, here, free, takes, rfl⟩ := seatNote?_eq_some step
  have absent : number ∉ placed.map Placement.number := (seated.free number seat here).mp free
  have given : (Seat.sing track pitch number seats)[number]? = some (seat.give track pitch) := by
    rw [Seat.getElem?_sing, if_pos rfl, here, Option.map_some]
  have others : ∀ {index}, index ≠ number →
      (Seat.sing track pitch number seats)[index]? = seats[index]? := by
    intro index different
    rw [Seat.getElem?_sing, if_neg different]
  have kept := Seat.kept_sing track pitch number seats
  refine ⟨number, ?_, ?_, ?_, ?_, fun before member => (seated.earlier before member).kept kept, ?_⟩
  · rw [Seat.ranges_sing, seated.ranges]
  · intro index other found
    rw [List.map_append, List.mem_append]
    by_cases same : index = number
    · subst same
      rw [given] at found
      cases found
      simp [Seat.give]
    · rw [others same] at found
      rw [seated.free index other found]
      simp [same]
  · intro index other found
    by_cases same : index = number
    · subst same
      rw [given] at found
      cases found
      have before := seated.sung index seat here
      rw [if_pos free, List.append_nil] at before
      have heard := @Placement.heard_append_self placed ⟨track, pitch, index⟩ absent
      simp only [Seat.give, Voice.sung_sing, before, heard, Bool.false_eq_true, if_false]
    · rw [others same] at found
      rw [seated.sung index other found]
      by_cases waits : other.free = true
      · rw [if_pos waits, if_pos waits]
      · have present : index ∈ placed.map Placement.number :=
          Classical.not_not.mp (mt (seated.free index other found).mpr waits)
        rw [if_neg waits, if_neg waits, Placement.heard_append_of_mem present]
  · intro other member
    obtain ⟨index, found⟩ := List.getElem?_of_mem member
    by_cases same : index = number
    · subst same
      rw [given] at found
      cases found
      exact Voice.extend_short (seated.short seat (List.mem_of_getElem? here))
    · rw [others same] at found
      exact seated.short other (List.mem_of_getElem? found)
  · have before := seated.current.kept kept
    constructor
    · rw [List.map_append, List.nodup_append]
      refine ⟨before.distinct, List.pairwise_singleton _ _, ?_⟩
      intro first member second single same
      rw [List.mem_singleton.mp single] at same
      subst same
      exact absent member
    · intro placement member
      rcases List.mem_append.mp member with early | late
      · exact before.playable placement early
      · rw [List.mem_singleton.mp late]
        exact ⟨_, given, Seat.plays_give takes⟩

theorem seated_notes {notes : List (Nat × Nat)} (seated : Seated channels merge table placed seats)
    (steps : notes.foldlM (fun seats note => seatNote? strategy merge note.1 seats note.2) seats =
      some after) :
    ∃ more, more.map Placement.note = notes ∧ Seated channels merge table (placed ++ more) after := by
  induction notes generalizing placed seats with
  | nil =>
    cases steps
    refine ⟨[], rfl, ?_⟩
    rwa [List.append_nil]
  | cons note later ih =>
    rw [List.foldlM_cons] at steps
    obtain ⟨between, step, others⟩ := Option.bind_eq_some_iff.mp steps
    obtain ⟨number, one⟩ := seated_note seated step
    obtain ⟨more, same, all⟩ := ih one others
    rw [List.append_assoc] at all
    refine ⟨⟨note.1, note.2, number⟩ :: more, ?_, all⟩
    rw [List.map_cons, same]
    rfl

/-- The notes of a frame and their tracks, where the first track has the given number. -/
def notesFrom (track : Nat) : Frame Nat → List (Nat × Nat)
  | [] => []
  | pitches :: later => pitches.map (track, ·) ++ notesFrom (track + 1) later

theorem seatNotes?_eq_foldlM (frame : Frame Nat) (track : Nat) (seats : List Seat) :
    seatNotes? strategy merge track seats frame =
      (notesFrom track frame).foldlM
        (fun seats note => seatNote? strategy merge note.1 seats note.2) seats := by
  induction frame generalizing track seats with
  | nil => rfl
  | cons pitches later ih =>
    rw [notesFrom, List.foldlM_append, List.foldlM_map, seatNotes?]
    congr 1
    funext between
    exact ih (track + 1) between

theorem seated_next (seated : Seated channels merge table placed seats) :
    Seated channels merge (table ++ [placed]) [] (seats.map Seat.next) := by
  have comes : ∀ {number : Nat} {later : Seat}, (seats.map Seat.next)[number]? = some later →
      ∃ seat, seats[number]? = some seat ∧ later = seat.next := by
    intro number later here
    rw [List.getElem?_map] at here
    obtain ⟨seat, found, same⟩ := Option.map_eq_some_iff.mp here
    exact ⟨seat, found, same.symm⟩
  have kept : Seat.Kept seats (seats.map Seat.next) := by
    intro number seat here
    refine ⟨seat.next, by rw [List.getElem?_map, here, Option.map_some], seat.range_next, ?_⟩
    intro track owner
    rw [seat.owner_next, owner]
  refine ⟨?_, ?_, ?_, ?_, ?_, ?_⟩
  · rw [← seated.ranges, List.map_map]
    exact List.map_congr_left fun seat _ => seat.range_next
  · intro number later here
    obtain ⟨seat, -, rfl⟩ := comes here
    simp [Seat.next]
  · intro number later here
    obtain ⟨seat, found, rfl⟩ := comes here
    have before := seated.sung number seat found
    rw [List.map_append, seat.sung_next, before]
    by_cases free : seat.free = true
    · have absent := (seated.free number seat found).mp free
      simp [free, Seat.next, Placement.heard_of_not_mem absent]
    · simp [free, Seat.next]
  · intro later member
    obtain ⟨seat, among, rfl⟩ := List.mem_map.mp member
    unfold Seat.next
    split
    · exact Voice.extend_short (seated.short seat among)
    · exact seated.short seat among
  · intro before member
    rcases List.mem_append.mp member with early | late
    · exact (seated.earlier before early).kept kept
    · rw [List.mem_singleton.mp late]
      exact seated.current.kept kept
  · exact ⟨List.Pairwise.nil, fun placement member => by cases member⟩

theorem seated_frame {frame : Frame Nat} (seated : Seated channels merge table [] seats)
    (step : seatFrame? strategy merge seats frame = some after) :
    ∃ placed, placed.map Placement.note = notesFrom 0 frame ∧
      Seated channels merge (table ++ [placed]) [] after := by
  unfold seatFrame? at step
  obtain ⟨between, notes, last⟩ := Option.bind_eq_some_iff.mp step
  cases last
  rw [seatNotes?_eq_foldlM] at notes
  obtain ⟨placed, same, full⟩ := seated_notes seated notes
  exact ⟨placed, same, seated_next full⟩

theorem seated_frames {frames : List (Frame Nat)} (seated : Seated channels merge table [] seats)
    (steps : frames.foldlM (seatFrame? strategy merge) seats = some after) :
    ∃ more, more.map (·.map Placement.note) = frames.map (notesFrom 0) ∧
      Seated channels merge (table ++ more) [] after := by
  induction frames generalizing table seats with
  | nil =>
    cases steps
    refine ⟨[], rfl, ?_⟩
    rwa [List.append_nil]
  | cons frame later ih =>
    rw [List.foldlM_cons] at steps
    obtain ⟨between, step, others⟩ := Option.bind_eq_some_iff.mp steps
    obtain ⟨placed, same, one⟩ := seated_frame seated step
    obtain ⟨more, sames, all⟩ := ih one others
    rw [List.append_assoc] at all
    refine ⟨placed :: more, ?_, all⟩
    rw [List.map_cons, List.map_cons, same, sames]

end Frames

end Midi

end Buzzer
