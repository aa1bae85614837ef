import Mathlib.Data.List.Nodup
import Mathlib.Data.List.TakeDrop
import Buzzer.Midi.Frame

/-!
Which keys the frames of a MIDI file hold. Whether a key sounds follows from the events of its track alone,
whatever the frames are. A frame holds the keys that sound at its end and those that started in its
course. A key that starts twice in a frame and sounds at its end is taken for one that is over, so from the
next frame on it is lost.
-/
namespace Buzzer

namespace Midi

/-! What a key does, by the events of its track alone. -/

namespace NoteEvent

/-- Whether an event starts a key that was sounding before it or not. -/
def starts (event : NoteEvent) (key : Nat) (sounding : Bool) : Bool :=
  event.key = key && event.on && !sounding

/-- Whether a key sounds after an event. Every event of a sounding key ends it. -/
def leaves (event : NoteEvent) (key : Nat) (sounding : Bool) : Bool :=
  if event.key = key then event.on && !sounding else sounding

end NoteEvent

/-- Whether a key sounds after some events. -/
def soundsFrom (key : Nat) (sounding : Bool) (events : List NoteEvent) : Bool :=
  events.foldl (fun sounding event => event.leaves key sounding) sounding

/-- The events through which a key starts to sound. -/
def startsFrom (key : Nat) : Bool → List NoteEvent → List NoteEvent
  | _, [] => []
  | sounding, event :: later =>
    let started := startsFrom key (event.leaves key sounding) later
    if event.starts key sounding then event :: started else started

theorem soundsFrom_append (key : Nat) (sounding : Bool) (events more : List NoteEvent) :
    soundsFrom key sounding (events ++ more) =
      soundsFrom key (soundsFrom key sounding events) more :=
  List.foldl_append

theorem startsFrom_append (key : Nat) (sounding : Bool) (events more : List NoteEvent) :
    startsFrom key sounding (events ++ more) =
      startsFrom key sounding events ++ startsFrom key (soundsFrom key sounding events) more := by
  induction events generalizing sounding with
  | nil => rfl
  | cons event later ih =>
    simp only [List.cons_append, startsFrom, ih]
    split <;> rfl

theorem startsFrom_sublist (key : Nat) (sounding : Bool) (events : List NoteEvent) :
    (startsFrom key sounding events).Sublist events := by
  induction events generalizing sounding with
  | nil => exact List.Sublist.refl []
  | cons event later ih =>
    simp only [startsFrom]
    split
    · exact (ih _).cons_cons event
    · exact (ih _).cons event

/-- A key does nothing while the events are those of other keys. -/
theorem startsFrom_of_absent {key : Nat} {events : List NoteEvent}
    (absent : ∀ event ∈ events, event.key ≠ key) (sounding : Bool) :
    startsFrom key sounding events = [] ∧ soundsFrom key sounding events = sounding := by
  induction events with
  | nil => exact ⟨rfl, rfl⟩
  | cons event later ih =>
    rw [List.forall_mem_cons] at absent
    have leaves : event.leaves key sounding = sounding := if_neg absent.1
    simp only [startsFrom, soundsFrom, List.foldl_cons, leaves, NoteEvent.starts, absent.1,
      decide_false, Bool.false_and, Bool.false_eq_true, if_false]
    exact ih absent.2

theorem soundsFrom_concat (sounding : Bool) (heard : List NoteEvent) (event : NoteEvent) :
    soundsFrom event.key sounding (heard ++ [event]) =
      (event.on && !soundsFrom event.key sounding heard) := by
  rw [soundsFrom_append]
  exact if_pos rfl

theorem startsFrom_concat (sounding : Bool) (heard : List NoteEvent) (event : NoteEvent) :
    startsFrom event.key sounding (heard ++ [event]) = startsFrom event.key sounding heard ++
      if event.on && !soundsFrom event.key sounding heard then [event] else [] := by
  rw [startsFrom_append]
  simp only [startsFrom, NoteEvent.starts, decide_true, Bool.true_and]

/-! What the keys of a track know of one of them in the course of a frame. -/

namespace Keys

/-- The keys of a frame agree with what a key did, sounding or not before it, in the events so far. -/
structure Tells (keys : Keys) (key : Nat) (sounding : Bool) (heard : List NoteEvent) : Prop where
  down : key ∈ keys.down ↔
    soundsFrom key sounding heard = true ∨ startsFrom key sounding heard ≠ []
  struck : key ∈ keys.struck ↔ startsFrom key sounding heard ≠ []
  finished : key ∈ keys.finished ↔ startsFrom key sounding heard ≠ [] ∧
    ¬(soundsFrom key sounding heard = true ∧ (startsFrom key sounding heard).length = 1)

theorem nodup_hear {keys : Keys} (distinct : keys.down.Nodup) (event : NoteEvent) :
    (keys.hear event).down.Nodup := by
  unfold hear
  split
  · split
    · exact distinct
    · exact distinct.erase _
  next up =>
    split
    · rw [List.contains_iff_mem] at up
      exact List.concat_eq_append ▸ distinct.concat up
    · exact distinct

theorem hear_of_ne (keys : Keys) {event : NoteEvent} {key : Nat} (other : event.key ≠ key) :
    (key ∈ (keys.hear event).down ↔ key ∈ keys.down) ∧
      (key ∈ (keys.hear event).struck ↔ key ∈ keys.struck) ∧
      (key ∈ (keys.hear event).finished ↔ key ∈ keys.finished) := by
  have different := Ne.symm other
  unfold hear
  split
  · split
    · simp [different]
    · simp [List.mem_erase_of_ne different]
  · split
    · simp [different]
    · simp

section

variable {keys : Keys} {sounding : Bool} {heard : List NoteEvent} {event : NoteEvent}

/-- A key that started in the frame stays down, and no later start can undo that it is over. -/
theorem Tells.hear_struck (tells : keys.Tells event.key sounding heard)
    (isDown : event.key ∈ keys.down) (isStruck : event.key ∈ keys.struck) :
    (keys.hear event).Tells event.key sounding (heard ++ [event]) := by
  have sounds := soundsFrom_concat sounding heard event
  have starts := startsFrom_concat sounding heard event
  have some := tells.struck.mp isStruck
  have ended : ¬(soundsFrom event.key sounding (heard ++ [event]) = true ∧
      (startsFrom event.key sounding (heard ++ [event])).length = 1) := by
    rintro ⟨again, once⟩
    rw [sounds] at again
    rw [starts, again] at once
    simp [some] at once
  rw [Keys.hear, if_pos (List.contains_iff_mem.mpr isDown),
    if_pos (List.contains_iff_mem.mpr isStruck)]
  refine ⟨?_, ?_, ?_⟩
  · simp [isDown, starts, some]
  · simp [isStruck, starts, some]
  · exact iff_of_true (List.mem_insert_self ..) ⟨by simp [starts, some], ended⟩

/-- A key that was down before the frame goes up. -/
theorem Tells.hear_down (tells : keys.Tells event.key sounding heard) (distinct : keys.down.Nodup)
    (isDown : event.key ∈ keys.down) (notStruck : event.key ∉ keys.struck) :
    (keys.hear event).Tells event.key sounding (heard ++ [event]) := by
  have none : startsFrom event.key sounding heard = [] := by
    simpa using fun some => notStruck (tells.struck.mpr some)
  have sounded : soundsFrom event.key sounding heard = true := by
    simpa [none] using tells.down.mp isDown
  have sounds := soundsFrom_concat sounding heard event
  have starts := startsFrom_concat sounding heard event
  have finished := tells.finished
  rw [none, sounded] at starts
  rw [sounded] at sounds
  have gone : event.key ∉ keys.down.erase event.key := distinct.not_mem_erase
  rw [Keys.hear, if_pos (List.contains_iff_mem.mpr isDown), if_neg (by simpa using notStruck)]
  refine ⟨?_, ?_, ?_⟩
  · simp [gone, sounds, starts]
  · simp [notStruck, starts]
  · simp [finished, starts, none]

/-- A key that is up goes down when it is struck. -/
theorem Tells.hear_up (tells : keys.Tells event.key sounding heard)
    (isUp : event.key ∉ keys.down) :
    (keys.hear event).Tells event.key sounding (heard ++ [event]) := by
  obtain ⟨silent, none⟩ : soundsFrom event.key sounding heard = false ∧
      startsFrom event.key sounding heard = [] := by
    simpa using fun some => isUp (tells.down.mpr some)
  have sounds := soundsFrom_concat sounding heard event
  have starts := startsFrom_concat sounding heard event
  have notStruck : event.key ∉ keys.struck := fun struck => tells.struck.mp struck none
  have unfinished : event.key ∉ keys.finished := fun ended => (tells.finished.mp ended).1 none
  rw [silent] at sounds starts
  rw [none] at starts
  rw [Keys.hear, if_neg (by simpa using isUp)]
  cases on : event.on with
  | false =>
    rw [on] at sounds starts
    exact ⟨by simp [isUp, sounds, starts], by simp [notStruck, starts],
      by simp [unfinished, starts]⟩
  | true =>
    rw [on] at sounds starts
    exact ⟨by simp [starts], by simp [starts], by simp [unfinished, sounds, starts]⟩

theorem Tells.hear_other {key : Nat} (tells : keys.Tells key sounding heard)
    (other : event.key ≠ key) : (keys.hear event).Tells key sounding (heard ++ [event]) := by
  obtain ⟨down, struck, finished⟩ := hear_of_ne keys other
  have absent : ∀ event' ∈ [event], event'.key ≠ key := by simpa using other
  obtain ⟨starts, sounds⟩ := startsFrom_of_absent absent (soundsFrom key sounding heard)
  refine ⟨?_, ?_, ?_⟩
  all_goals rw [startsFrom_append, starts, List.append_nil]
  · rw [down, soundsFrom_append, sounds, tells.down]
  · rw [struck, tells.struck]
  · rw [finished, soundsFrom_append, sounds, tells.finished]

theorem Tells.hear {key : Nat} (tells : keys.Tells key sounding heard)
    (distinct : keys.down.Nodup) (event : NoteEvent) :
    (keys.hear event).Tells key sounding (heard ++ [event]) := by
  by_cases same : event.key = key
  · subst same
    by_cases isDown : event.key ∈ keys.down
    · by_cases isStruck : event.key ∈ keys.struck
      · exact tells.hear_struck isDown isStruck
      · exact tells.hear_down distinct isDown isStruck
    · exact tells.hear_up isDown
  · exact tells.hear_other same

end

theorem Tells.hearAll {keys : Keys} {key : Nat} {sounding : Bool} {heard : List NoteEvent}
    (tells : keys.Tells key sounding heard) (distinct : keys.down.Nodup) (events : List NoteEvent) :
    (events.foldl Keys.hear keys).Tells key sounding (heard ++ events) := by
  induction events generalizing keys heard with
  | nil => rwa [List.append_nil]
  | cons event later ih =>
    rw [← List.singleton_append, ← List.append_assoc]
    exact ih (tells.hear distinct event) (nodup_hear distinct event)

theorem nodup_hearAll {keys : Keys} (distinct : keys.down.Nodup) (events : List NoteEvent) :
    (events.foldl hear keys).down.Nodup := by
  induction events generalizing keys with
  | nil => exact distinct
  | cons event later ih => exact ih (nodup_hear distinct event)

/-- The keys of a track after the events of a frame. -/
def ofFrame (down : List Nat) (now : List NoteEvent) : Keys := now.foldl hear ⟨down, [], []⟩

theorem nodup_ofFrame {down : List Nat} (distinct : down.Nodup) (now : List NoteEvent) :
    (ofFrame down now).down.Nodup :=
  nodup_hearAll distinct now

theorem nodup_released {down : List Nat} (distinct : down.Nodup) (now : List NoteEvent) :
    (ofFrame down now).released.Nodup :=
  (nodup_ofFrame distinct now).filter _

theorem ofFrame_tells {down : List Nat} (distinct : down.Nodup) {key : Nat} {sounding : Bool}
    (agrees : key ∈ down ↔ sounding = true) (now : List NoteEvent) :
    (ofFrame down now).Tells key sounding now := by
  have start : Tells ⟨down, [], []⟩ key sounding [] :=
    ⟨by simp [soundsFrom, startsFrom, agrees], by simp [startsFrom], by simp [startsFrom]⟩
  exact start.hearAll distinct now

/-- A key is down after a frame if it sounds then, unless it started twice in the frame. -/
theorem mem_released {down : List Nat} (distinct : down.Nodup) {key : Nat} {sounding : Bool}
    (agrees : key ∈ down ↔ sounding = true) (now : List NoteEvent) :
    key ∈ (ofFrame down now).released ↔
      soundsFrom key sounding now = true ∧ (startsFrom key sounding now).length ≤ 1 := by
  have tells := ofFrame_tells distinct agrees now
  rw [released, List.mem_filter, Bool.not_eq_true', List.contains_eq_mem, decide_eq_false_iff_not,
    tells.down, tells.finished]
  cases started : startsFrom key sounding now with
  | nil => simp
  | cons first later => simp

end Keys

/-! One frame after the other. -/

theorem framesFrom_append (earlier : Part Nat) (down : List Nat) (events : List NoteEvent)
    (bounds : List Nat) :
    framesFrom earlier down events bounds =
      earlier.reverse ++ framesFrom [] down events bounds := by
  induction bounds generalizing earlier down events with
  | nil => rw [framesFrom, framesFrom, List.reverse_nil, List.append_nil]
  | cons bound bounds ih =>
    simp only [framesFrom]
    rw [ih, ih [_], List.reverse_cons, List.reverse_singleton, List.append_assoc]

theorem framesFrom_cons (down : List Nat) (events : List NoteEvent) (bound : Nat)
    (bounds : List Nat) :
    framesFrom [] down events (bound :: bounds) =
      let (now, later) := events.span (·.time < bound)
      (Keys.ofFrame down now).down :: framesFrom [] (Keys.ofFrame down now).released later bounds := by
  simp only [framesFrom]
  rw [framesFrom_append]
  rfl

theorem length_framesFrom (down : List Nat) (events : List NoteEvent) (bounds : List Nat) :
    (framesFrom [] down events bounds).length = bounds.length := by
  induction bounds generalizing down events with
  | nil => rfl
  | cons bound bounds ih => rw [framesFrom_cons, List.length_cons, ih, List.length_cons]

theorem nodup_framesFrom {down : List Nat} (distinct : down.Nodup) (events : List NoteEvent)
    (bounds : List Nat) : ∀ keys ∈ framesFrom [] down events bounds, keys.Nodup := by
  induction bounds generalizing down events with
  | nil => exact List.forall_mem_nil _
  | cons bound bounds ih =>
    rw [framesFrom_cons, List.forall_mem_cons]
    exact ⟨Keys.nodup_ofFrame distinct _, ih (Keys.nodup_released distinct _) _⟩

/-! The events of a track by their times. -/

/-- The events are in the order of their times. -/
def Ordered (events : List NoteEvent) : Prop :=
  events.Pairwise fun event later => event.time ≤ later.time

instance (events : List NoteEvent) : Decidable (Ordered events) :=
  inferInstanceAs (Decidable (events.Pairwise _))

def before (time : Nat) (events : List NoteEvent) : List NoteEvent := events.filter (·.time < time)

def since (time : Nat) (events : List NoteEvent) : List NoteEvent := events.filter (time ≤ ·.time)

theorem mem_before {time : Nat} {events : List NoteEvent} {event : NoteEvent} :
    event ∈ before time events ↔ event ∈ events ∧ event.time < time := by
  rw [before, List.mem_filter, decide_eq_true_eq]

theorem mem_since {time : Nat} {events : List NoteEvent} {event : NoteEvent} :
    event ∈ since time events ↔ event ∈ events ∧ time ≤ event.time := by
  rw [since, List.mem_filter, decide_eq_true_eq]

theorem since_zero (events : List NoteEvent) : since 0 events = events :=
  List.filter_eq_self.mpr fun _ _ => decide_eq_true (Nat.zero_le _)

theorem since_since {low high : Nat} (rising : low ≤ high) (events : List NoteEvent) :
    since high (since low events) = since high events := by
  rw [since, since, List.filter_filter]
  apply List.filter_congr
  intro event _
  rw [← Bool.decide_and, decide_eq_decide]
  exact and_iff_left_of_imp (Nat.le_trans rising)

namespace Ordered

variable {events : List NoteEvent}

theorem keep_since (ordered : Ordered events) (time : Nat) : Ordered (since time events) :=
  List.Pairwise.filter _ ordered

theorem span_eq (ordered : Ordered events) (time : Nat) :
    events.span (·.time < time) = (before time events, since time events) := by
  rw [List.span_eq_takeWhile_dropWhile]
  induction ordered with
  | nil => rfl
  | @cons first later follow ordered ih =>
    obtain ⟨taken, left⟩ := Prod.mk.inj ih
    by_cases early : first.time < time
    · have taking : decide (first.time < time) = true := decide_eq_true early
      have more : before time (first :: later) = first :: before time later :=
        List.filter_cons_of_pos (decide_eq_true early)
      have same : since time (first :: later) = since time later :=
        List.filter_cons_of_neg (by simpa using early)
      rw [List.takeWhile_cons_of_pos (by exact taking), taken,
        List.dropWhile_cons_of_pos (by exact taking), left, more, same]
    · have late : ∀ event ∈ first :: later, time ≤ event.time :=
        List.forall_mem_cons.mpr ⟨Nat.le_of_not_lt early, fun event member =>
          Nat.le_trans (Nat.le_of_not_lt early) (follow event member)⟩
      have none : before time (first :: later) = [] :=
        List.filter_eq_nil_iff.mpr fun event member => by simpa using late event member
      have all : since time (first :: later) = first :: later :=
        List.filter_eq_self.mpr fun event member => decide_eq_true (late event member)
      rw [List.takeWhile_cons_of_neg (by simpa using early),
        List.dropWhile_cons_of_neg (by simpa using early), none, all]

theorem before_append_since (ordered : Ordered events) (time : Nat) :
    before time events ++ since time events = events := by
  obtain ⟨taken, left⟩ := Prod.mk.inj
    ((List.span_eq_takeWhile_dropWhile ..).symm.trans (ordered.span_eq time))
  rw [← taken, ← left, List.takeWhile_append_dropWhile]

/-- The events before a frame ends are those before it begins and its own. -/
theorem before_append_frame (ordered : Ordered events) {low high : Nat} (rising : low ≤ high) :
    before high events = before low events ++ before high (since low events) := by
  have early : before high (before low events) = before low events :=
    List.filter_eq_self.mpr fun event member =>
      decide_eq_true (Nat.lt_of_lt_of_le (mem_before.mp member).2 rising)
  calc
    before high events = before high (before low events ++ since low events) := by
      rw [ordered.before_append_since]
    _ = _ := by rw [before, List.filter_append, ← before, ← before, early]

end Ordered

/-! What is in a frame. -/

/-- Whether a time lies in a frame. -/
def inFrame (bounds : List Nat) (frame time : Nat) : Bool :=
  bounds.getD frame 0 ≤ time && time < bounds.getD (frame + 1) 0

/-- Whether a key sounds after all events before the end of a frame. -/
def soundsAtEnd (bounds : List Nat) (frame : Nat) (events : List NoteEvent) (key : Nat) : Bool :=
  soundsFrom key false (before (bounds.getD (frame + 1) 0) events)

/-- The events of a frame through which a key starts to sound. -/
def startsIn (bounds : List Nat) (frame : Nat) (events : List NoteEvent) (key : Nat) :
    List NoteEvent :=
  (startsFrom key false events).filter (inFrame bounds frame ·.time)

/-- A key that sounds in the course of a frame. -/
def SoundsIn (bounds : List Nat) (frame : Nat) (events : List NoteEvent) (key : Nat) : Prop :=
  soundsAtEnd bounds frame events key = true ∨ startsIn bounds frame events key ≠ []

/-- A key that starts more than once in a frame and sounds at its end. -/
def Restarts (bounds : List Nat) (frame : Nat) (events : List NoteEvent) (key : Nat) : Prop :=
  soundsAtEnd bounds frame events key = true ∧ 1 < (startsIn bounds frame events key).length

instance (bounds : List Nat) (frame : Nat) (events : List NoteEvent) (key : Nat) :
    Decidable (SoundsIn bounds frame events key) :=
  inferInstanceAs (Decidable (_ ∨ _))

instance (bounds : List Nat) (frame : Nat) (events : List NoteEvent) (key : Nat) :
    Decidable (Restarts bounds frame events key) :=
  inferInstanceAs (Decidable (_ ∧ _))

/-- The starts of a key that lie between two times are those of the events between them. -/
theorem Ordered.startsFrom_between {events : List NoteEvent} (ordered : Ordered events)
    (low high key : Nat) :
    (startsFrom key false events).filter (fun event => low ≤ event.time && event.time < high) =
      startsFrom key (soundsFrom key false (before low events)) (before high (since low events)) := by
  have parts : events =
      before low events ++ (before high (since low events) ++ since high (since low events)) := by
    rw [(ordered.keep_since low).before_append_since, ordered.before_append_since]
  have starts := congrArg (startsFrom key false) parts
  rw [startsFrom_append, startsFrom_append] at starts
  rw [starts, List.filter_append, List.filter_append]
  have early : ∀ event ∈ startsFrom key false (before low events), event.time < low :=
    fun event member => (mem_before.mp ((startsFrom_sublist ..).mem member)).2
  have late : ∀ sounding, ∀ event ∈ startsFrom key sounding (since high (since low events)),
      high ≤ event.time :=
    fun sounding event member => (mem_since.mp ((startsFrom_sublist ..).mem member)).2
  have within : ∀ sounding, ∀ event ∈ startsFrom key sounding (before high (since low events)),
      low ≤ event.time ∧ event.time < high := by
    intro sounding event member
    obtain ⟨member, soon⟩ := mem_before.mp ((startsFrom_sublist ..).mem member)
    exact ⟨(mem_since.mp member).2, soon⟩
  rw [List.filter_eq_nil_iff.mpr, List.filter_eq_self.mpr, List.filter_eq_nil_iff.mpr,
    List.nil_append, List.append_nil]
  · intro event member between
    rw [Bool.and_eq_true, decide_eq_true_eq, decide_eq_true_eq] at between
    exact Nat.not_lt_of_le (late _ event member) between.2
  · intro event member
    rw [Bool.and_eq_true, decide_eq_true_eq, decide_eq_true_eq]
    exact within _ event member
  · intro event member between
    rw [Bool.and_eq_true, decide_eq_true_eq, decide_eq_true_eq] at between
    exact Nat.not_le_of_lt (early event member) between.1

theorem Ordered.framesFrom_cons {events : List NoteEvent} (ordered : Ordered events)
    {low bound : Nat} (rising : low ≤ bound) (down bounds : List Nat) :
    framesFrom [] down (since low events) (bound :: bounds) =
      (Keys.ofFrame down (before bound (since low events))).down ::
        framesFrom [] (Keys.ofFrame down (before bound (since low events))).released
          (since bound events) bounds := by
  rw [Midi.framesFrom_cons, (ordered.keep_since low).span_eq, since_since rising]

/-- The first of several frames, where `down` tells whether a key sounds before it. -/
theorem Ordered.first_frame {events : List NoteEvent} (ordered : Ordered events) {low bound : Nat}
    (rising : low ≤ bound) (later : List Nat) {down : List Nat} (distinct : down.Nodup) {key : Nat}
    (agrees : key ∈ down ↔ soundsFrom key false (before low events) = true) :
    let keys := Keys.ofFrame down (before bound (since low events))
    (key ∈ keys.down ↔ SoundsIn (low :: bound :: later) 0 events key) ∧
      (key ∈ keys.released ↔ soundsFrom key false (before bound events) = true ∧
        ¬Restarts (low :: bound :: later) 0 events key) := by
  have starts : startsIn (low :: bound :: later) 0 events key =
      startsFrom key (soundsFrom key false (before low events)) (before bound (since low events)) :=
    ordered.startsFrom_between low bound key
  have sounds : soundsAtEnd (low :: bound :: later) 0 events key =
      soundsFrom key (soundsFrom key false (before low events)) (before bound (since low events)) := by
    rw [← soundsFrom_append, ← ordered.before_append_frame rising]
    rfl
  have atEnd : soundsFrom key false (before bound events) =
      soundsAtEnd (low :: bound :: later) 0 events key := rfl
  constructor
  · rw [(Keys.ofFrame_tells distinct agrees _).down, SoundsIn, sounds, starts]
  · rw [Keys.mem_released distinct agrees, Restarts, atEnd, sounds, starts, ← Nat.not_lt]
    tauto

/-- A key that did not restart in an earlier frame is in a frame if and only if it sounds there. -/
theorem Ordered.mem_framesFrom {events : List NoteEvent} (ordered : Ordered events) (key : Nat)
    {low : Nat} {bounds : List Nat} (rising : (low :: bounds).Pairwise (· ≤ ·)) {down : List Nat}
    (distinct : down.Nodup)
    (agrees : key ∈ down ↔ soundsFrom key false (before low events) = true) {frame : Nat}
    {keys : List Nat} (held : (framesFrom [] down (since low events) bounds)[frame]? = some keys)
    (steady : ∀ earlier < frame, ¬Restarts (low :: bounds) earlier events key) :
    key ∈ keys ↔ SoundsIn (low :: bounds) frame events key := by
  induction bounds generalizing low down frame with
  | nil => simp [framesFrom] at held
  | cons bound bounds ih =>
    rw [List.pairwise_cons, List.forall_mem_cons] at rising
    obtain ⟨here, next⟩ := ordered.first_frame rising.1.1 bounds distinct agrees
    rw [ordered.framesFrom_cons rising.1.1] at held
    cases frame with
    | zero =>
      obtain rfl := Option.some.inj held
      exact here
    | succ frame =>
      have whole := next.trans (and_iff_left (steady 0 (Nat.succ_pos frame)))
      exact ih rising.2 (Keys.nodup_released distinct _) whole held
        fun earlier sooner => steady (earlier + 1) (by omega)

theorem absent_of_still {bounds : List Nat} {frame key : Nat} {events : List NoteEvent}
    (still : ∀ event ∈ events, inFrame bounds frame event.time → event.key ≠ key) :
    ∀ event ∈ before (bounds.getD (frame + 1) 0) (since (bounds.getD frame 0) events),
      event.key ≠ key := by
  intro event member
  obtain ⟨member, soon⟩ := mem_before.mp member
  obtain ⟨member, begun⟩ := mem_since.mp member
  exact still event member (by rw [inFrame, decide_eq_true begun, decide_eq_true soon]; rfl)

/-- A key that restarts is not down after the frame, and stays up while it has no event. -/
theorem Ordered.not_mem_framesFrom {events : List NoteEvent} (ordered : Ordered events) (key : Nat)
    {low : Nat} {bounds : List Nat} (rising : (low :: bounds).Pairwise (· ≤ ·)) {down : List Nat}
    (distinct : down.Nodup)
    (agrees : key ∈ down ↔ soundsFrom key false (before low events) = true) {frame : Nat}
    {keys : List Nat} (held : (framesFrom [] down (since low events) bounds)[frame + 1]? = some keys)
    (steady : ∀ earlier < frame, ¬Restarts (low :: bounds) earlier events key)
    (restarts : Restarts (low :: bounds) frame events key)
    (still : ∀ event ∈ events, inFrame (low :: bounds) (frame + 1) event.time → event.key ≠ key) :
    key ∉ keys := by
  induction bounds generalizing low down frame with
  | nil => simp [framesFrom] at held
  | cons bound bounds ih =>
    rw [List.pairwise_cons, List.forall_mem_cons] at rising
    obtain ⟨-, next⟩ := ordered.first_frame rising.1.1 bounds distinct agrees
    rw [ordered.framesFrom_cons rising.1.1] at held
    have left := Keys.nodup_released distinct (before bound (since low events))
    cases frame with
    | zero =>
      have up : key ∈ (Keys.ofFrame down (before bound (since low events))).released ↔
          false = true := by
        rw [next]
        simp [restarts]
      cases bounds with
      | nil => simp [framesFrom] at held
      | cons later bounds =>
        have onward := (List.pairwise_cons.mp rising.2).1 later List.mem_cons_self
        rw [List.getElem?_cons_succ, ordered.framesFrom_cons onward] at held
        obtain rfl := Option.some.inj held
        have absent : ∀ event ∈ before later (since bound events), event.key ≠ key :=
          absent_of_still still
        obtain ⟨starts, sounds⟩ := startsFrom_of_absent absent false
        rw [(Keys.ofFrame_tells left up _).down, sounds, starts]
        simp
    | succ frame =>
      have whole := next.trans (and_iff_left (steady 0 (Nat.succ_pos frame)))
      exact ih rising.2 left whole held (fun earlier sooner => steady (earlier + 1) (by omega))
        restarts still

theorem silent_at_zero (key : Nat) (events : List NoteEvent) :
    key ∈ ([] : List Nat) ↔ soundsFrom key false (before 0 events) = true := by
  simp [before, soundsFrom]

theorem pitchPart_eq (low : Nat) (bounds : List Nat) (transpose : Int) (events : List NoteEvent) :
    pitchPart (low :: bounds) transpose events =
      (framesFrom [] [] events bounds).map (·.map (pitchOf transpose)) :=
  rfl

/-- Every frame of every track holds the keys that sound in it, each once and transposed, as far as
they did not restart in an earlier frame. -/
theorem frames_hold_sounding (notes : List (List NoteEvent)) (bounds : List Nat) (transpose : Int)
    (ordered : ∀ events ∈ notes, Ordered events) (rising : bounds.Pairwise (· ≤ ·))
    (fromZero : bounds.head? = some 0) :
    ∀ (track : Nat) (within : track < notes.length),
      ∃ part, (notes.map (pitchPart bounds transpose))[track]? = some part ∧
        part.length + 1 = bounds.length ∧
        ∀ (frame : Nat) (pitches : List Int), part[frame]? = some pitches →
          ∃ keys : List Nat, pitches = keys.map (fun key : Nat => (key : Int) - 36 + transpose) ∧
            keys.Nodup ∧
            ∀ key, (∀ earlier < frame, ¬Restarts bounds earlier notes[track] key) →
              (key ∈ keys ↔ SoundsIn bounds frame notes[track] key) := by
  obtain ⟨later, rfl⟩ := List.head?_eq_some_iff.mp fromZero
  intro track within
  have order := ordered _ (List.getElem_mem within)
  generalize here : notes[track] = events at order
  refine ⟨_, by rw [List.getElem?_map, List.getElem?_eq_getElem within, Option.map_some], ?_, ?_⟩
  · rw [here, pitchPart_eq, List.length_map, length_framesFrom, List.length_cons]
  · intro frame pitches held
    rw [here, pitchPart_eq, List.getElem?_map, Option.map_eq_some_iff] at held
    obtain ⟨keys, held, rfl⟩ := held
    refine ⟨keys, rfl, nodup_framesFrom List.nodup_nil _ _ _ (List.mem_of_getElem? held), ?_⟩
    intro key steady
    rw [← since_zero events] at held
    exact order.mem_framesFrom key rising List.nodup_nil (silent_at_zero key events) held steady

/-- A note that is over within the first frame, and one that begins in the second. -/
theorem two_frames_hold_sounding :
    ∃ part, ([[⟨0, 60, true⟩, ⟨2, 60, false⟩, ⟨7, 62, true⟩]].map (pitchPart [0, 6, 12] 12))[0]? =
      some part ∧ part.length = 2 ∧ ∀ pitches, part[1]? = some pitches →
        ∃ keys : List Nat, pitches = keys.map (fun key : Nat => (key : Int) - 36 + 12) ∧
          keys.Nodup ∧ 62 ∈ keys ∧ 60 ∉ keys := by
  obtain ⟨part, here, length, frames⟩ := frames_hold_sounding
    [[⟨0, 60, true⟩, ⟨2, 60, false⟩, ⟨7, 62, true⟩]] [0, 6, 12] 12 (by decide) (by decide) rfl 0
    (by decide)
  refine ⟨part, here, Nat.succ.inj length, ?_⟩
  intro pitches held
  obtain ⟨keys, same, distinct, sounding⟩ := frames 1 pitches held
  exact ⟨keys, same, distinct, (sounding 62 (by decide)).mpr (by decide),
    fun member => absurd ((sounding 60 (by decide)).mp member) (by decide)⟩

/-- In the frame after the first in which it restarts a key sounds on, but the frame does not hold it. -/
theorem restarted_key_is_lost {events : List NoteEvent} (ordered : Ordered events)
    {bounds : List Nat} (rising : bounds.Pairwise (· ≤ ·)) (fromZero : bounds.head? = some 0)
    {key frame : Nat} (steady : ∀ earlier < frame, ¬Restarts bounds earlier events key)
    (restarts : Restarts bounds frame events key)
    (still : ∀ event ∈ events, inFrame bounds (frame + 1) event.time → event.key ≠ key)
    {keys : List Nat} (held : (keyPart bounds events)[frame + 1]? = some keys) :
    SoundsIn bounds (frame + 1) events key ∧ key ∉ keys := by
  obtain ⟨later, rfl⟩ := List.head?_eq_some_iff.mp fromZero
  change (framesFrom [] [] events later)[frame + 1]? = some keys at held
  constructor
  · left
    have within : frame + 1 < later.length := by
      rw [← length_framesFrom [] events later]
      exact (List.getElem?_eq_some_iff.mp held).1
    have inOrder : (0 :: later).getD (frame + 1) 0 ≤ (0 :: later).getD (frame + 2) 0 := by
      have length : (0 :: later).length = later.length + 1 := List.length_cons
      rw [← List.getElem_eq_getD (h := by omega), ← List.getElem_eq_getD (h := by omega)]
      exact List.pairwise_iff_getElem.mp rising _ _ _ _ (Nat.lt_succ_self _)
    obtain ⟨-, sounds⟩ := startsFrom_of_absent (absent_of_still still) true
    rw [soundsAtEnd, ordered.before_append_frame inOrder, soundsFrom_append]
    have atEnd : soundsFrom key false (before ((0 :: later).getD (frame + 1) 0) events) = true :=
      restarts.1
    rw [atEnd]
    exact sounds
  · rw [← since_zero events] at held
    exact ordered.not_mem_framesFrom key rising List.nodup_nil (silent_at_zero key events) held
      steady restarts still

/-- A key that is struck, lifted and struck again in the first of sixteen frames sounds to the end of the
last, but only the first frame holds it. -/
theorem key_restarted_at_once :
    let notes : List (List NoteEvent) :=
      [[⟨0, 60, true⟩, ⟨2, 60, false⟩, ⟨4, 60, true⟩, ⟨96, 60, false⟩]]
    let bounds := (List.range 17).map (6 * ·)
    (∀ events ∈ notes, Ordered events) ∧ bounds.Pairwise (· ≤ ·) ∧ bounds.head? = some 0 ∧
      notes.map (pitchPart bounds 0) = [[24] :: List.replicate 15 []] ∧
      ∀ frame < 16, ∀ events ∈ notes, SoundsIn bounds frame events 60 := by
  decide

end Midi

end Buzzer
