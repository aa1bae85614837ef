import Buzzer.Draft.Track

/-!
The normal form of a track. Events without a length are left out, and rests in a row are joined, then
cut twice: into as many ticks as an event can hold while a track is put together, and each of these
into as many ticks as a duration can be written for.
-/
namespace Buzzer

/-- The parts that a total is cut into: as many of a size as there are, and what is left. -/
def cut (size total : Nat) : List Nat :=
  List.replicate (total / size) size ++ if total % size = 0 then [] else [total % size]

theorem cut_zero (size : Nat) : cut size 0 = [] := by
  rw [cut, Nat.zero_div, Nat.zero_mod]
  rfl

theorem cut_last {size part : Nat} (count : Nat) (some : 0 < part) (most : part ≤ size) :
    cut size (count * size + part) = List.replicate count size ++ [part] := by
  have positive : 0 < size := Nat.lt_of_lt_of_le some most
  unfold cut
  rcases Nat.eq_or_lt_of_le most with rfl | less
  · have quotient : (count * part + part) / part = count + 1 := by
      rw [← Nat.succ_mul, Nat.mul_div_cancel _ positive]
    have remainder : (count * part + part) % part = 0 := by
      rw [← Nat.succ_mul, Nat.mul_mod_left]
    rw [quotient, remainder, if_pos rfl, List.append_nil, List.replicate_succ']
  · have quotient : (count * size + part) / size = count := by
      rw [Nat.mul_comm, Nat.mul_add_div positive, Nat.div_eq_of_lt less, Nat.add_zero]
    have remainder : (count * size + part) % size = part := by
      rw [Nat.mul_comm, Nat.mul_add_mod, Nat.mod_eq_of_lt less]
    rw [quotient, remainder, if_neg (Nat.ne_of_gt some)]

theorem cut_part {size part : Nat} (some : 0 < part) (most : part ≤ size) : cut size part = [part] := by
  have whole := cut_last 0 some most
  rwa [Nat.zero_mul, Nat.zero_add] at whole

theorem cut_first {size total : Nat} (positive : 0 < size) (some : 0 < total) :
    cut size total = min total size :: cut size (total - min total size) := by
  by_cases most : total ≤ size
  · rw [Nat.min_eq_left most, Nat.sub_self, cut_zero, cut_part some most]
  · have enough : size ≤ total := Nat.le_of_not_le most
    rw [Nat.min_eq_right enough, cut, cut, Nat.div_eq_sub_div positive enough,
      Nat.mod_eq_sub_mod enough, List.replicate_succ, List.cons_append]

theorem exists_last_part {size total : Nat} (positive : 0 < size) (some : 0 < total) :
    ∃ count part, 0 < part ∧ part ≤ size ∧ total = count * size + part := by
  have split : size * ((total - 1) / size) + (total - 1) % size = total - 1 := Nat.div_add_mod _ _
  have below : (total - 1) % size < size := Nat.mod_lt _ positive
  refine ⟨(total - 1) / size, (total - 1) % size + 1, by omega, below, ?_⟩
  rw [Nat.mul_comm]
  omega

theorem pos_of_mem_cut {size total part : Nat} (positive : 0 < size) (member : part ∈ cut size total) :
    0 < part := by
  rcases List.mem_append.mp member with whole | left
  · rw [List.eq_of_mem_replicate whole]
    exact positive
  · by_cases even : total % size = 0
    · simp [even] at left
    · rw [if_neg even, List.mem_singleton] at left
      omega

namespace Event

def rests (lengths : List Nat) : List Event := lengths.map (⟨.rest, ·⟩)

theorem reverse_rests (lengths : List Nat) (last : Nat) :
    (rests (lengths ++ [last])).reverse = ⟨.rest, last⟩ :: (rests lengths).reverse := by
  rw [rests, List.map_append, List.reverse_append]
  rfl

theorem total_replicate (count size : Nat) :
    total (rests (List.replicate count size)) = count * size := by
  induction count with
  | zero => exact (Nat.zero_mul size).symm
  | succ count ih =>
    have split : total (rests (List.replicate (count + 1) size)) =
        size + total (rests (List.replicate count size)) := rfl
    rw [split, ih, Nat.succ_mul, Nat.add_comm]

theorem total_cut (size length : Nat) : total (rests (cut size length)) = length := by
  have split : size * (length / size) + length % size = length := Nat.div_add_mod _ _
  have parts : rests (cut size length) = rests (List.replicate (length / size) size) ++
      rests (if length % size = 0 then [] else [length % size]) := List.map_append
  rw [parts, total_append, total_replicate, Nat.mul_comm]
  by_cases even : length % size = 0
  · rw [if_pos even]
    exact (Nat.add_zero _).trans (by omega)
  · rw [if_neg even]
    exact split

/-- Events that follow a rest, where rests in a row are joined. -/
def joinFrom (resting : Nat) : List Event → List Event
  | [] => rests (cut maxTicks resting)
  | ⟨.rest, ticks⟩ :: later => joinFrom (resting + ticks) later
  | ⟨.tone pitch, ticks⟩ :: later =>
    if ticks = 0 then joinFrom resting later
    else rests (cut maxTicks resting) ++ ⟨.tone pitch, ticks⟩ :: joinFrom 0 later

/-- The events that one event is written as. -/
def pieces : Event → List Event
  | ⟨.rest, ticks⟩ => rests (cut maxDuration ticks)
  | ⟨.tone pitch, ticks⟩ => [⟨.tone pitch, ticks⟩]

/-- What is left of the events of a track once it has been written. -/
def normalForm (events : List Event) : List Event := (joinFrom 0 events).flatMap pieces

theorem pos_of_mem_joinFrom {event : Event} (events : List Event) {resting : Nat}
    (member : event ∈ joinFrom resting events) : 0 < event.ticks := by
  have ofRests : ∀ {resting}, event ∈ rests (cut maxTicks resting) → 0 < event.ticks := by
    intro resting member
    obtain ⟨part, among, rfl⟩ := List.mem_map.mp member
    exact pos_of_mem_cut (by decide) among
  induction events generalizing resting with
  | nil => exact ofRests member
  | cons first later ih =>
    obtain ⟨note, ticks⟩ := first
    cases note with
    | rest => exact ih member
    | tone pitch =>
      rw [joinFrom] at member
      split at member
      · exact ih member
      · rcases List.mem_append.mp member with before | after
        · exact ofRests before
        · rcases List.mem_cons.mp after with rfl | after
          · simp only
            omega
          · exact ih after

end Event

/-- A call in the course of putting a track together. -/
inductive TrackCall where
  | note (event : Event)
  /-- Chooses the pause that is folded into the tone before it. -/
  | pause (ticks : Nat)

namespace TrackCall

def event? : TrackCall → Option Event
  | note event => some event
  | pause _ => none

def events (calls : List TrackCall) : List Event := calls.filterMap event?

theorem events_map_note (notes : List Event) : events (notes.map .note) = notes := by
  rw [events, List.filterMap_map]
  exact List.filterMap_some

end TrackCall

namespace TrackDraft

def call (draft : TrackDraft) : TrackCall → TrackDraft
  | .note event => draft.add event.note event.ticks
  | .pause ticks => draft.withPause ticks

/-- The track of a channel that is put together by some calls. -/
def ofCalls (channel : UInt8) (calls : List TrackCall) : TrackDraft :=
  calls.foldl call { channel := channel }

/-- Whether a track ends with a rest of some length, cut into events, after others that do not end
with a rest. -/
structure EndsWith (draft : TrackDraft) (resting : Nat) (earlier : List Event) : Prop where
  latest : draft.latest = (Event.rests (cut maxTicks resting)).reverse ++ earlier
  sounds : ∀ last ∈ earlier.head?, last.note.isRest = false

variable {draft : TrackDraft} {resting : Nat} {earlier : List Event}

theorem latest_push (draft : TrackDraft) (note : Note) (ticks : Nat) :
    (draft.push note ticks).latest =
      if ticks = 0 then draft.latest else ⟨note, ticks⟩ :: draft.latest := by
  unfold push
  split <;> rfl

theorem add_after_sound (sounds : ∀ last ∈ draft.latest.head?, last.note.isRest = false) (note : Note)
    (ticks : Nat) : draft.add note ticks = draft.push note ticks := by
  unfold add
  cases latest : draft.latest with
  | nil => rfl
  | cons last earlier =>
    have sounding : last.note.isRest = false := sounds last (by rw [latest, List.head?_cons]; rfl)
    simp only [sounding, Bool.false_and, Bool.false_eq_true, if_false]

theorem latest_add_after_rest {part : Nat} {before : List Event}
    (latest : draft.latest = ⟨.rest, part⟩ :: before) (ticks : Nat) :
    (draft.add .rest ticks).latest =
      if ticks - min ticks (maxTicks - part) = 0 then ⟨.rest, part + ticks⟩ :: before
      else ⟨.rest, ticks - (maxTicks - part)⟩ :: ⟨.rest, part + (maxTicks - part)⟩ :: before := by
  simp only [add, latest, Note.isRest, Bool.and_self, if_true, latest_push]
  by_cases fits : ticks ≤ maxTicks - part
  · rw [Nat.min_eq_left fits, Nat.sub_self, if_pos rfl, if_pos rfl]
  · rw [Nat.min_eq_right (by omega), if_neg (by omega), if_neg (by omega)]

/-- A rest fills up the last of the events that the rest before it is cut into. -/
theorem add_rest (ends : EndsWith draft resting earlier) {ticks : Nat} (short : ticks ≤ maxTicks) :
    EndsWith (draft.add .rest ticks) (resting + ticks) earlier := by
  refine ⟨?_, ends.sounds⟩
  have latest := ends.latest
  by_cases none : resting = 0
  · subst none
    rw [cut_zero] at latest
    have same : draft.latest = earlier := latest
    rw [add_after_sound (same ▸ ends.sounds), latest_push, same, Nat.zero_add]
    by_cases silent : ticks = 0
    · rw [if_pos silent, silent, cut_zero]
      rfl
    · rw [if_neg silent, cut_part (Nat.pos_of_ne_zero silent) short]
      rfl
  · obtain ⟨count, part, some, most, rfl⟩ :=
      @exists_last_part maxTicks _ (by decide) (Nat.pos_of_ne_zero none)
    rw [cut_last count some most, Event.reverse_rests, List.cons_append] at latest
    rw [latest_add_after_rest latest]
    by_cases fits : ticks ≤ maxTicks - part
    · rw [Nat.min_eq_left fits, Nat.sub_self, if_pos rfl, Nat.add_assoc,
        cut_last count (by omega) (by omega), Event.reverse_rests, List.cons_append]
    · have whole : part + (maxTicks - part) = maxTicks := by omega
      have further : count * maxTicks + part + ticks =
          (count + 1) * maxTicks + (ticks - (maxTicks - part)) := by
        rw [Nat.succ_mul]
        omega
      rw [Nat.min_eq_right (by omega), if_neg (by omega), whole, further,
        cut_last (count + 1) (by omega) (by omega), List.replicate_succ', Event.reverse_rests,
        Event.reverse_rests, List.cons_append, List.cons_append]

theorem add_tone_eq_push (draft : TrackDraft) (pitch ticks : Nat) :
    draft.add (.tone pitch) ticks = draft.push (.tone pitch) ticks := by
  unfold add
  cases draft.latest with
  | nil => rfl
  | cons last earlier => simp only [Note.isRest, Bool.and_false, Bool.false_eq_true, if_false]

theorem add_tone_zero (draft : TrackDraft) (pitch : Nat) : draft.add (.tone pitch) 0 = draft := by
  rw [add_tone_eq_push, push, if_pos rfl]

theorem add_tone {pitch ticks : Nat} (some : ticks ≠ 0) :
    EndsWith (draft.add (.tone pitch) ticks) 0 (⟨.tone pitch, ticks⟩ :: draft.latest) := by
  rw [add_tone_eq_push, push, if_neg some]
  constructor
  · rw [cut_zero]
    rfl
  · intro last member
    cases member
    rfl

theorem events_calls (calls : List TrackCall) (ends : EndsWith draft resting earlier)
    (short : ∀ event ∈ TrackCall.events calls, event.ticks ≤ maxTicks) :
    (calls.foldl call draft).events =
      earlier.reverse ++ Event.joinFrom resting (TrackCall.events calls) := by
  induction calls generalizing draft resting earlier with
  | nil =>
    rw [List.foldl_nil, events, ends.latest, List.reverse_append, List.reverse_reverse]
    rfl
  | cons first later ih =>
    rw [List.foldl_cons]
    cases first with
    | pause ticks => exact ih ⟨ends.latest, ends.sounds⟩ short
    | note event =>
      have shortLater : ∀ other ∈ TrackCall.events later, other.ticks ≤ maxTicks :=
        fun other member => short other (List.mem_cons_of_mem _ member)
      obtain ⟨note, ticks⟩ := event
      cases note with
      | rest => exact ih (add_rest ends (short _ List.mem_cons_self)) shortLater
      | tone pitch =>
        have split : TrackCall.events (.note ⟨.tone pitch, ticks⟩ :: later) =
            ⟨.tone pitch, ticks⟩ :: TrackCall.events later := rfl
        rw [split, Event.joinFrom]
        by_cases silent : ticks = 0
        · rw [if_pos silent]
          have same : draft.call (.note ⟨.tone pitch, ticks⟩) = draft := by
            rw [call, silent]
            exact add_tone_zero draft pitch
          rw [same]
          exact ih ends shortLater
        · rw [if_neg silent]
          rw [call, ih (add_tone silent) shortLater, ends.latest, List.reverse_cons,
            List.reverse_append, List.reverse_reverse]
          simp only [List.append_assoc, List.singleton_append]

/-- Whether a track holds no event without a length and chooses no pause that cannot be folded. -/
structure Ready (draft : TrackDraft) : Prop where
  lasting : ∀ event ∈ draft.events, 0 < event.ticks
  foldable : ∀ pause ∈ draft.pause, 0 < pause ∧ pause ≤ maxFoldedPause

theorem add_keeps_rest_of_draft (draft : TrackDraft) (note : Note) (ticks : Nat) :
    ∃ latest, draft.add note ticks = { draft with latest := latest } := by
  have pushes : ∀ draft : TrackDraft, ∀ ticks : Nat,
      ∃ latest, draft.push note ticks = { draft with latest := latest } := by
    intro draft ticks
    unfold push
    split
    · exact ⟨draft.latest, rfl⟩
    · exact ⟨_, rfl⟩
  unfold add
  split
  · split
    · exact (pushes _ _).imp fun latest same => by rw [same]
    · exact pushes draft ticks
  · exact pushes draft ticks

theorem withPause_foldable (draft : TrackDraft) (ticks : Nat) :
    ∀ pause ∈ (draft.withPause ticks).pause, 0 < pause ∧ pause ≤ maxFoldedPause := by
  intro pause member
  cases member
  have positive : 0 < maxFoldedPause := by decide
  omega

theorem calls_keep_channel (calls : List TrackCall) (draft : TrackDraft)
    (foldable : ∀ pause ∈ draft.pause, 0 < pause ∧ pause ≤ maxFoldedPause) :
    (calls.foldl call draft).channel = draft.channel ∧
      ∀ pause ∈ (calls.foldl call draft).pause, 0 < pause ∧ pause ≤ maxFoldedPause := by
  induction calls generalizing draft with
  | nil => exact ⟨rfl, foldable⟩
  | cons first later ih =>
    rw [List.foldl_cons]
    cases first with
    | note event =>
      obtain ⟨latest, same⟩ := add_keeps_rest_of_draft draft event.note event.ticks
      rw [call, same]
      exact ih { draft with latest := latest } foldable
    | pause ticks => exact ih (draft.withPause ticks) (withPause_foldable draft ticks)

theorem channel_ofCalls (channel : UInt8) (calls : List TrackCall) :
    (ofCalls channel calls).channel = channel :=
  (calls_keep_channel calls { channel } (fun pause member => by cases member)).1

theorem events_ofCalls (channel : UInt8) {calls : List TrackCall}
    (short : ∀ event ∈ TrackCall.events calls, event.ticks ≤ maxTicks) :
    (ofCalls channel calls).events = Event.joinFrom 0 (TrackCall.events calls) := by
  have fresh : EndsWith { channel } 0 [] := ⟨rfl, fun last member => by cases member⟩
  exact events_calls calls fresh short

theorem ready_ofCalls (channel : UInt8) {calls : List TrackCall}
    (short : ∀ event ∈ TrackCall.events calls, event.ticks ≤ maxTicks) :
    (ofCalls channel calls).Ready := by
  refine ⟨?_, (calls_keep_channel calls { channel } (fun pause member => by cases member)).2⟩
  intro event member
  rw [events_ofCalls channel short] at member
  exact Event.pos_of_mem_joinFrom _ member

end TrackDraft

end Buzzer
