import Buzzer.Playback
import Buzzer.Proofs.Song.Loading

/-!
The schedule of a song. Every tick of a playback falls into one event of each track, or past the end of
the track, and what a listener is told at that tick follows from the events alone. One tick keeps a cursor
in time with the events of its track, so any number of ticks does.
-/
namespace Buzzer

namespace Event

/-- The tick at which an event begins, where the first begins at 0. -/
def onset (events : List Event) (index : Nat) : Nat := total (events.take index)

theorem onset_succ {events : List Event} {index : Nat} {event : Event}
    (here : events[index]? = some event) : onset events (index + 1) = onset events index + event.ticks := by
  rw [onset, List.take_add_one, here, total_append, onset]
  rfl

theorem onset_length (events : List Event) : onset events events.length = total events := by
  rw [onset, List.take_length]

theorem onset_mono (events : List Event) {first second : Nat} (ordered : first ≤ second) :
    onset events first ≤ onset events second := by
  induction ordered with
  | refl => exact Nat.le_refl _
  | @step second _ ih =>
    apply Nat.le_trans ih
    cases here : events[second]? with
    | none => simp [onset, List.take_add_one, here]
    | some event =>
      rw [onset_succ here]
      exact Nat.le_add_right _ _

theorem onset_lt {events : List Event} (lasting : ∀ event ∈ events, 0 < event.ticks)
    {first second : Nat} (ordered : first < second) (within : first < events.length) :
    onset events first < onset events second := by
  have here : events[first]? = some events[first] := List.getElem?_eq_getElem within
  have ticks := lasting _ (List.getElem_mem within)
  have next := onset_mono events (show first + 1 ≤ second from ordered)
  rw [onset_succ here] at next
  omega

theorem onset_lt_total {events : List Event} (lasting : ∀ event ∈ events, 0 < event.ticks)
    {index : Nat} (within : index < events.length) : onset events index < total events := by
  rw [← onset_length]
  exact onset_lt lasting within within

theorem onset_le_total {events : List Event} {index : Nat} (within : index ≤ events.length) :
    onset events index ≤ total events := by
  rw [← onset_length]
  exact onset_mono events within

theorem onset_inj {events : List Event} (lasting : ∀ event ∈ events, 0 < event.ticks)
    {first second : Nat} (same : onset events first = onset events second)
    (withinFirst : first < events.length) (withinSecond : second < events.length) : first = second := by
  rcases Nat.lt_trichotomy first second with before | equal | after
  · have := onset_lt lasting before withinFirst
    omega
  · exact equal
  · have := onset_lt lasting after withinSecond
    omega

end Event

namespace Change

variable {events : List Event} {tick : Nat}

/-- Whether a listener is told of a change at a tick, on the channel of the change, if these are the
events of the channel. -/
def Scheduled (events : List Event) (tick : Nat) : Change → Prop
  | note _ sound =>
    ∃ index event, events[index]? = some event ∧ event.note = sound ∧ tick = Event.onset events index
  | trackEnd _ => tick = Event.total events

theorem not_scheduled_between {index : Nat} (after : Event.onset events index < tick)
    (before : tick < Event.onset events (index + 1)) (within : index < events.length)
    (change : Change) : ¬change.Scheduled events tick := by
  cases change with
  | note channel note =>
    intro ⟨other, event, here, _, same⟩
    rcases Nat.lt_or_ge index other with later | earlier
    · have := Event.onset_mono events (show index + 1 ≤ other from later)
      omega
    · have := Event.onset_mono events earlier
      omega
  | trackEnd channel =>
    intro same
    have last : Event.onset events (index + 1) ≤ Event.total events := Event.onset_le_total within
    have now : tick = Event.total events := same
    omega

theorem not_scheduled_past (past : Event.total events < tick) (change : Change) :
    ¬change.Scheduled events tick := by
  cases change with
  | note channel note =>
    intro ⟨index, event, here, _, same⟩
    have within := (List.getElem?_eq_some_iff.mp here).1
    have := Event.onset_le_total (Nat.le_of_lt within)
    omega
  | trackEnd channel =>
    intro same
    have now : tick = Event.total events := same
    omega

/-- An event that begins is all that is scheduled. -/
theorem scheduled_onset (lasting : ∀ event ∈ events, 0 < event.ticks) {index : Nat} {event : Event}
    (here : events[index]? = some event) (change : Change) :
    change.Scheduled events (Event.onset events index) ↔ change = .note change.channel event.note := by
  have inside := (List.getElem?_eq_some_iff.mp here).1
  cases change with
  | note channel sound =>
    constructor
    · intro ⟨other, found, there, plays, same⟩
      have only : index = other := Event.onset_inj lasting same inside
        (List.getElem?_eq_some_iff.mp there).1
      rw [← only, here, Option.some.injEq] at there
      rw [there, plays]
      rfl
    · intro same
      cases same
      exact ⟨index, event, here, rfl, rfl⟩
  | trackEnd channel =>
    have before := Event.onset_lt_total lasting inside
    constructor
    · intro same
      exact (Nat.ne_of_lt before same).elim
    · intro same
      cases same

theorem scheduled_total (lasting : ∀ event ∈ events, 0 < event.ticks) (change : Change) :
    change.Scheduled events (Event.total events) ↔ change = .trackEnd change.channel := by
  cases change with
  | note channel sound =>
    constructor
    · intro ⟨index, event, here, _, same⟩
      have before := Event.onset_lt_total lasting (List.getElem?_eq_some_iff.mp here).1
      exact (Nat.ne_of_gt before same).elim
    · intro same
      cases same
  | trackEnd channel =>
    constructor
    · intro
      rfl
    · intro
      rfl

/-- Whether some changes are what is scheduled for a channel. -/
structure Tell (events : List Event) (tick channel : Nat) (changes : List Change) : Prop where
  few : changes.length ≤ 1
  scheduled : ∀ change, change ∈ changes ↔ change.channel = channel ∧ change.Scheduled events tick

theorem tell_nil (none : ∀ change : Change, ¬change.Scheduled events tick) (channel : Nat) :
    Tell events tick channel [] := by
  refine ⟨Nat.zero_le _, ?_⟩
  intro change
  simp [none change]

theorem tell_note (lasting : ∀ event ∈ events, 0 < event.ticks) {index : Nat} {event : Event}
    (here : events[index]? = some event) (channel : Nat) :
    Tell events (Event.onset events index) channel [.note channel event.note] := by
  refine ⟨Nat.le_refl _, ?_⟩
  intro change
  rw [List.mem_singleton, scheduled_onset lasting here]
  constructor
  · intro same
    rw [same]
    exact ⟨rfl, rfl⟩
  · intro ⟨mine, same⟩
    rw [← mine, ← same]

theorem tell_trackEnd (lasting : ∀ event ∈ events, 0 < event.ticks) (channel : Nat) :
    Tell events (Event.total events) channel [.trackEnd channel] := by
  refine ⟨Nat.le_refl _, ?_⟩
  intro change
  rw [List.mem_singleton, scheduled_total lasting]
  constructor
  · intro same
    rw [same]
    exact ⟨rfl, rfl⟩
  · intro ⟨mine, same⟩
    rw [← mine, ← same]

end Change

namespace Cursor

/-- Whether a cursor stands where it has to after a number of ticks. Until the track has ended, the
current event is the one before `begun`, and what is left of it lasts until the next one begins. -/
inductive Due (events : List Event) (elapsed : Nat) (cursor : Cursor) : Prop where
  | playing (begun : Nat) (within : begun ≤ events.length) (playing : cursor.isEnded = false)
      (reading : cursor.reading = ⟨events.drop begun, true⟩)
      (time : cursor.left + elapsed = Event.onset events begun)
      (current : ∀ index event, begun = index + 1 → events[index]? = some event →
        cursor.note = event.note ∧ cursor.left < event.ticks)
  | done (ended : cursor.isEnded = true) (past : Event.total events < elapsed)

theorem due_start {cursor : Cursor} {events : List Event} (playing : cursor.isEnded = false)
    (start : cursor.left = 0) (reading : cursor.reading = ⟨events, true⟩) : cursor.Due events 0 := by
  refine .playing 0 (Nat.zero_le _) playing reading ?_ ?_
  · rw [start]
    rfl
  · intro index event impossible
    omega

section Tick

variable {events : List Event} {elapsed begun : Nat} {cursor after : Cursor}

theorem tick_within {index : Nat} (within : index < events.length) (playing : cursor.isEnded = false)
    (reading : cursor.reading = ⟨events.drop (index + 1), true⟩)
    (time : cursor.left + elapsed = Event.onset events (index + 1))
    (current : ∀ event, events[index]? = some event → cursor.note = event.note ∧
      cursor.left < event.ticks)
    (left : 0 < cursor.left) (channel : Nat) :
    ∃ next changes, cursor.tick channel = some (next, changes) ∧ next.Due events (elapsed + 1) ∧
      Change.Tell events elapsed channel changes := by
  have here : events[index]? = some events[index] := List.getElem?_eq_getElem within
  have stays := current _ here
  have length := Event.onset_succ here
  refine ⟨{ cursor with left := cursor.left - 1 }, [], ?_, ?_, ?_⟩
  · simp only [tick, playing, left, Bool.false_eq_true, if_false, if_true]
  · refine .playing (index + 1) within playing ?_ (by simp only; omega) ?_
    · rw [reading_left, reading]
    · intro other event same found
      have only : index = other := by omega
      subst only
      have holds := current event found
      exact ⟨holds.1, by simp only; omega⟩
  · apply Change.tell_nil
    exact Change.not_scheduled_between (by omega) (by omega) within

theorem tick_begins (lasting : ∀ event ∈ events, 0 < event.ticks) {event : Event}
    (playing : cursor.isEnded = false) (reading : cursor.reading = ⟨events.drop begun, true⟩)
    (time : elapsed = Event.onset events begun) (left : ¬0 < cursor.left)
    (step : cursor.next = .event event after) (channel : Nat) :
    ∃ next changes, cursor.tick channel = some (next, changes) ∧ next.Due events (elapsed + 1) ∧
      Change.Tell events elapsed channel changes := by
  rw [reading_event step, Reading.mk.injEq] at reading
  obtain ⟨split, complete⟩ := reading
  have here : events[begun]? = some event := by
    rw [← List.head?_drop, ← split, List.head?_cons]
  have inside := (List.getElem?_eq_some_iff.mp here).1
  obtain ⟨playingAfter, note, ticks⟩ := event_of_next step
  refine ⟨after, [.note channel event.note], ?_, ?_, ?_⟩
  · simp only [tick, playing, left, step, Bool.false_eq_true, if_false]
  · refine .playing (begun + 1) inside playingAfter ?_ ?_ ?_
    · rw [← List.drop_drop, ← split, ← complete]
      rfl
    · rw [Event.onset_succ here]
      omega
    · intro index other same found
      have only : begun = index := by omega
      subst only
      rw [here, Option.some.injEq] at found
      subst found
      exact ⟨note, by omega⟩
  · rw [time]
    exact Change.tell_note lasting here channel

theorem tick_ends (lasting : ∀ event ∈ events, 0 < event.ticks) (within : begun ≤ events.length)
    (playing : cursor.isEnded = false) (reading : cursor.reading = ⟨events.drop begun, true⟩)
    (time : elapsed = Event.onset events begun) (left : ¬0 < cursor.left)
    (step : cursor.next = .finish after) (channel : Nat) :
    ∃ next changes, cursor.tick channel = some (next, changes) ∧ next.Due events (elapsed + 1) ∧
      Change.Tell events elapsed channel changes := by
  rw [reading_finish step, Reading.mk.injEq] at reading
  have all : events.length ≤ begun := List.drop_eq_nil_iff.mp reading.1.symm
  have now : elapsed = Event.total events := by
    rw [time, Nat.le_antisymm within all, Event.onset_length]
  refine ⟨after, [.trackEnd channel], ?_, .done (isEnded_of_finish step) (by omega), ?_⟩
  · simp only [tick, playing, left, step, Bool.false_eq_true, if_false]
  · rw [now]
    exact Change.tell_trackEnd lasting channel

/-- One tick keeps a cursor in time, and tells a listener what is scheduled for it. -/
theorem tick_due (lasting : ∀ event ∈ events, 0 < event.ticks) (due : cursor.Due events elapsed)
    (channel : Nat) :
    ∃ next changes, cursor.tick channel = some (next, changes) ∧ next.Due events (elapsed + 1) ∧
      Change.Tell events elapsed channel changes := by
  cases due with
  | done ended past =>
    refine ⟨cursor, [], ?_, .done ended (by omega), ?_⟩
    · simp only [tick, ended, if_true]
    · exact Change.tell_nil (Change.not_scheduled_past past) channel
  | playing begun within playing reading time current =>
    by_cases left : 0 < cursor.left
    · cases begun with
      | zero =>
        have start : Event.onset events 0 = 0 := rfl
        omega
      | succ index =>
        exact tick_within within playing reading time (fun event => current index event rfl) left channel
    · have now : elapsed = Event.onset events begun := by omega
      cases step : cursor.next with
      | event event after => exact tick_begins lasting playing reading now left step channel
      | finish after => exact tick_ends lasting within playing reading now left step channel
      | overrun =>
        rw [reading_overrun step, Reading.mk.injEq] at reading
        cases reading.2

end Tick

end Cursor

end Buzzer
