import Buzzer.Proofs.Draft.Durations
import Buzzer.Proofs.Draft.Normal
import Buzzer.Proofs.Song.Reading

/-!
A track as it is written. The notes are written next to their durations, a cursor takes them up again
one by one, and what it plays are the pieces of the events.
-/
namespace Buzzer

namespace NoteCode

/-- Whether a code has a byte of its own. -/
def Writable : NoteCode → Prop
  | timed note _ => ∀ pitch, note = .tone pitch → pitch < playablePitches
  | pause ticks => 0 < ticks ∧ ticks ≤ maxPause
  | stop => True

theorem noteAt_index {note : Note} (inRange : ∀ pitch, note = .tone pitch → pitch < playablePitches) :
    noteAt (index note) = note ∧ index note ≤ restIndex := by
  cases note with
  | rest => exact ⟨rfl, Nat.le_refl _⟩
  | tone pitch =>
    have below : pitch < 0x54 := inRange pitch rfl
    refine ⟨?_, Nat.le_of_lt below⟩
    rw [index, noteAt, restIndex, if_neg (Nat.ne_of_lt below)]

theorem ofByte_toByte {code : NoteCode} (writable : code.Writable) : ofByte code.toByte = code := by
  cases code with
  | stop => decide
  | pause ticks =>
    obtain ⟨some, most⟩ := writable
    have short : ticks ≤ 0x55 := most
    have value : (UInt8.ofNat (pauseBase + (ticks - 1))).toNat = pauseBase + (ticks - 1) := by
      rw [UInt8.toNat_ofNat', pauseBase]
      omega
    have notStop : pauseBase + (ticks - 1) ≠ stopByte := by
      rw [pauseBase, stopByte]
      omega
    have same : pauseBase + (ticks - 1) - pauseBase + 1 = ticks := by omega
    simp only [toByte, ofByte, value, notStop, if_false, Nat.le_add_right, if_true, same]
  | timed note pauses =>
    obtain ⟨same, most⟩ := noteAt_index writable
    have small : index note ≤ 0x54 := most
    cases pauses with
    | false =>
      have value : (UInt8.ofNat (index note)).toNat = index note := by
        rw [UInt8.toNat_ofNat']
        omega
      have notStop : index note ≠ stopByte := by
        rw [stopByte]
        omega
      have notPause : ¬pauseBase ≤ index note := by
        rw [pauseBase]
        omega
      have notFollowed : ¬pausesBase ≤ index note := by
        rw [pausesBase]
        omega
      simp only [toByte, ofByte, value, notStop, notPause, notFollowed, if_false, same]
    | true =>
      have value : (UInt8.ofNat (pausesBase + index note)).toNat = pausesBase + index note := by
        rw [UInt8.toNat_ofNat', pausesBase]
        omega
      have notStop : pausesBase + index note ≠ stopByte := by
        rw [pausesBase, stopByte]
        omega
      have notPause : ¬pauseBase ≤ pausesBase + index note := by
        rw [pauseBase, pausesBase]
        omega
      simp only [toByte, ofByte, value, notStop, notPause, if_false, Nat.le_add_right, if_true,
        Nat.add_sub_cancel_left, same]

end NoteCode

theorem testBit_or_pauseMark (running : Nat) : (running ||| pauseMark).testBit pauseBit = true := by
  rw [pauseMark, Nat.one_shiftLeft, Nat.testBit_or, Nat.testBit_two_pow_self, Bool.or_true]

theorem testBit_of_lt_pauseMark {running : Nat} (small : running < pauseMark) :
    running.testBit pauseBit = false := by
  rw [pauseMark, Nat.one_shiftLeft] at small
  exact Nat.testBit_lt_two_pow small

theorem or_pauseMark_mod {running : Nat} (small : running < pauseMark) :
    (running ||| pauseMark) % pauseMark = running := by
  rw [pauseMark, Nat.one_shiftLeft] at small ⊢
  apply Nat.eq_of_testBit_eq
  intro bit
  rw [Nat.testBit_mod_two_pow, Nat.testBit_or]
  by_cases low : bit < pauseBit
  · rw [Nat.testBit_two_pow_of_ne (Nat.ne_of_gt low)]
    simp [low]
  · have high : running < 2 ^ bit :=
      Nat.lt_of_lt_of_le small (Nat.pow_le_pow_right (by decide) (Nat.le_of_not_lt low))
    rw [Nat.testBit_lt_two_pow high]
    simp [low]

namespace TrackDraft

/-- Whether a written note can be read again. -/
inductive Written.Sound : Written → Prop where
  | timed {note pauses ticks} (writable : (NoteCode.timed note pauses).Writable) (lasting : 0 < ticks)
      (most : ticks ≤ maxDuration) : Sound ⟨.timed note pauses, some ticks⟩
  | pause {ticks} (writable : (NoteCode.pause ticks).Writable) : Sound ⟨.pause ticks, none⟩

/-- What a written note plays in a block with a pause. -/
def Written.played (pause : Nat) : Written → List Event
  | ⟨.timed note pauses, some ticks⟩ => ⟨note, ticks⟩ :: if pauses then [⟨.rest, pause⟩] else []
  | ⟨.pause ticks, _⟩ => [⟨.rest, ticks⟩]
  | _ => []

def values (written : List Written) : List Nat := (written.filterMap Written.ticks).map (· - 1)

theorem reading_written (written : List Written) (sound : ∀ note ∈ written, note.Sound)
    (junk : List UInt8) {cursor : Cursor} (notes : cursor.notes = some (noteBytes written ++ junk))
    (playing : cursor.durations.running < pauseMark) {last : DurationReader}
    (yields : cursor.durations.Yields (values written) last) :
    cursor.reading = ⟨written.flatMap (Written.played (cursor.pause + 1)), true⟩ := by
  induction written generalizing cursor with
  | nil =>
    have silent := testBit_of_lt_pauseMark playing
    have code : NoteCode.ofByte NoteCode.stop.toByte = .stop := by decide
    exact Cursor.reading_finish (Cursor.next_stop notes silent code)
  | cons first later ih =>
    have silent := testBit_of_lt_pauseMark playing
    have soundLater : ∀ note ∈ later, note.Sound :=
      fun note member => sound note (List.mem_cons_of_mem _ member)
    have here : cursor.notes = some (first.code.toByte :: (noteBytes later ++ junk)) := notes
    rw [List.flatMap_cons]
    cases sound first List.mem_cons_self with
    | @pause ticks writable =>
      rw [Cursor.reading_event (Cursor.next_pause here silent (NoteCode.ofByte_toByte writable))]
      rw [@ih soundLater (cursor.inRest _ ticks) rfl playing yields]
      have whole : ticks - 1 + 1 = ticks := Nat.sub_add_cancel writable.1
      rw [whole]
      rfl
    | @timed note pauses ticks writable lasting most =>
      have split : values (⟨.timed note pauses, some ticks⟩ :: later) =
          (ticks - 1) :: values later := rfl
      rw [split] at yields
      cases yields with
      | @cons _ after _ _ _ step running yieldsLater =>
        have whole : ticks - 1 + 1 = ticks := Nat.sub_add_cancel lasting
        have small : after.running < pauseMark := by
          have bound : ticks ≤ 0x4000 := most
          have limit : pauseMark = 0x8000 := by decide
          omega
        rw [Cursor.reading_event (Cursor.next_timed here silent (NoteCode.ofByte_toByte writable) step),
          running, whole]
        cases pauses with
        | false =>
          rw [@ih soundLater (cursor.inNote _ note false after) rfl small yieldsLater]
          rfl
        | true =>
          have pausing : (cursor.inNote (noteBytes later ++ junk) note true after).durations.running.testBit
              pauseBit = true := testBit_or_pauseMark after.running
          have restored : (cursor.inNote (noteBytes later ++ junk) note true after).inPause.durations =
              after := by
            simp only [Cursor.inPause, Cursor.inNote, if_true, or_pauseMark_mod small]
          rw [Cursor.reading_event (Cursor.next_pausing rfl pausing)]
          rw [@ih soundLater (Cursor.inPause _) rfl (by rwa [restored]) (by rwa [restored])]
          rfl

/-- Whether an event can be written. -/
def Writable (event : Event) : Prop :=
  ∀ pitch, event.note = .tone pitch → pitch < playablePitches ∧ event.ticks ≤ maxDuration

theorem checkEvents_eq_ok (channel : UInt8) (events : List Event) :
    checkEvents channel events = .ok () ↔ ∀ event ∈ events, Writable event := by
  induction events with
  | nil => simp [checkEvents]
  | cons first later ih =>
    obtain ⟨note, ticks⟩ := first
    rw [List.forall_mem_cons]
    cases note with
    | rest =>
      have writable : Writable ⟨.rest, ticks⟩ := fun pitch absurd => by cases absurd
      rw [checkEvents, ih, and_iff_right writable]
    | tone pitch =>
      have meaning : Writable ⟨.tone pitch, ticks⟩ ↔ pitch < playablePitches ∧ ticks ≤ maxDuration := by
        constructor
        · exact fun writable => writable pitch rfl
        · intro both other same
          cases same
          exact both
      rw [checkEvents, meaning]
      by_cases high : playablePitches ≤ pitch
      · rw [if_pos high]
        simp only [reduceCtorEq, false_iff]
        omega
      · rw [if_neg high]
        by_cases long : maxDuration < ticks
        · rw [if_pos long]
          simp only [reduceCtorEq, false_iff]
          omega
        · rw [if_neg long, ih]
          simp only [Nat.lt_of_not_le high, Nat.le_of_not_lt long, and_self, true_and]

/-- Whether written notes can be read again and play some events, piece by piece. -/
structure Gives (pause : Nat) (written : List Written) (events : List Event) : Prop where
  sound : ∀ note ∈ written, note.Sound
  played : written.flatMap (Written.played pause) = events.flatMap Event.pieces

variable {pause : Nat} {first second : List Written} {before after : List Event}

theorem gives_append (gives : Gives pause first before) (givesAfter : Gives pause second after) :
    Gives pause (first ++ second) (before ++ after) := by
  constructor
  · intro note member
    rcases List.mem_append.mp member with early | late
    · exact gives.sound note early
    · exact givesAfter.sound note late
  · rw [List.flatMap_append, List.flatMap_append, gives.played, givesAfter.played]

theorem gives_rest (pause ticks : Nat) : Gives pause (writtenRest ticks) [⟨.rest, ticks⟩] := by
  have pieces : [(⟨.rest, ticks⟩ : Event)].flatMap Event.pieces = Event.rests (cut maxDuration ticks) :=
    List.append_nil _
  induction ticks using writtenRest.induct with
  | case1 ticks long part ih =>
    have lasting : 0 < ticks := Nat.zero_lt_of_lt long
    have others := ih (List.append_nil _)
    rw [writtenRest, dif_pos long]
    constructor
    · intro note member
      rcases List.mem_cons.mp member with rfl | later
      · refine .timed (fun pitch absurd => by cases absurd) ?_ (Nat.min_le_right _ _)
        have positive : 0 < maxDuration := by decide
        omega
      · exact others.sound note later
    · rw [pieces, cut_first (by decide) lasting, List.flatMap_cons, others.played]
      exact congrArg _ (List.append_nil _)
  | case2 ticks short lasting =>
    have fits : ticks ≤ NoteCode.maxPause := Nat.le_of_not_lt short
    have limit : NoteCode.maxPause ≤ maxDuration := by decide
    rw [writtenRest, dif_neg short, if_pos lasting]
    constructor
    · intro note member
      rw [List.mem_singleton.mp member]
      exact .pause ⟨lasting, fits⟩
    · rw [pieces, cut_part lasting (Nat.le_trans fits limit)]
      rfl
  | case3 ticks short none =>
    have zero : ticks = 0 := Nat.eq_zero_of_not_pos none
    rw [writtenRest, dif_neg short, if_neg none]
    refine ⟨fun note member => (by cases member), ?_⟩
    rw [pieces, zero, cut_zero]
    rfl

theorem pieces_of_sounding {event : Event} (sounds : event.note ≠ .rest) : event.pieces = [event] := by
  obtain ⟨note, ticks⟩ := event
  cases note with
  | rest => exact (sounds rfl).elim
  | tone pitch => rfl

theorem sound_of_writable {event : Event} (lasting : 0 < event.ticks) (sounds : event.note ≠ .rest)
    (writable : Writable event) (pauses : Bool) :
    Written.Sound ⟨.timed event.note pauses, some event.ticks⟩ := by
  refine .timed (fun pitch same => (writable pitch same).1) lasting ?_
  cases same : event.note with
  | rest => exact (sounds same).elim
  | tone pitch => exact (writable pitch same).2

theorem gives_tone {event : Event} (lasting : 0 < event.ticks) (sounds : event.note ≠ .rest)
    (writable : Writable event) (pause : Nat) :
    Gives pause [⟨.timed event.note false, some event.ticks⟩] [event] := by
  constructor
  · intro note member
    rw [List.mem_singleton.mp member]
    exact sound_of_writable lasting sounds writable false
  · rw [List.flatMap_singleton, List.flatMap_singleton, pieces_of_sounding sounds]
    rfl

/-- A rest that is folded into the tone before it is short enough to be a piece of its own. -/
theorem gives_folded {event : Event} (lasting : 0 < event.ticks) (sounds : event.note ≠ .rest)
    (writable : Writable event) (chosen : 0 < pause ∧ pause ≤ maxFoldedPause) :
    Gives pause [⟨.timed event.note true, some event.ticks⟩] [event, ⟨.rest, pause⟩] := by
  have limit : maxFoldedPause ≤ maxDuration := by decide
  constructor
  · intro note member
    rw [List.mem_singleton.mp member]
    exact sound_of_writable lasting sounds writable true
  · rw [List.flatMap_singleton, List.flatMap_cons, List.flatMap_singleton, pieces_of_sounding sounds,
      Event.pieces, cut_part chosen.1 (Nat.le_trans chosen.2 limit)]
    rfl

theorem gives_written (chosen : 0 < pause ∧ pause ≤ maxFoldedPause) (events : List Event)
    (lasting : ∀ event ∈ events, 0 < event.ticks) (writable : ∀ event ∈ events, Writable event) :
    Gives pause (written pause events) events := by
  induction events using written.induct pause with
  | case1 => exact ⟨fun note member => (by cases member), rfl⟩
  | case2 ticks later ih =>
    rw [List.forall_mem_cons] at lasting writable
    rw [written]
    exact gives_append (gives_rest pause ticks) (ih lasting.2 writable.2)
  | case3 note ticks later sounds ih =>
    rw [List.forall_mem_cons, List.forall_mem_cons] at lasting writable
    have later := ih lasting.2.2 writable.2.2
    have folded := gives_folded lasting.1 sounds writable.1 chosen
    rw [written, if_pos rfl]
    · exact gives_append folded later
    · exact sounds
  | case4 note ticks resting later sounds different ih =>
    rw [List.forall_mem_cons] at lasting writable
    have tone := gives_tone lasting.1 sounds writable.1 pause
    rw [written, if_neg different]
    · exact gives_append tone (ih lasting.2 writable.2)
    · exact sounds
  | case5 note ticks later sounds alone ih =>
    rw [List.forall_mem_cons] at lasting writable
    have tone := gives_tone lasting.1 sounds writable.1 pause
    rw [written]
    · exact gives_append tone (ih lasting.2 writable.2)
    · exact sounds
    · exact alone

end TrackDraft

end Buzzer
