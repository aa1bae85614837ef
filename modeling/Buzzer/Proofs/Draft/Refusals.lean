import Mathlib
import Buzzer.Proofs.Draft.Rewriting

/-!
The songs that cannot be written, and what each of them is refused for. Channels come first, then the tracks
in the order of their channels; a track is refused for its channel, for the first of its tones that cannot
be written, or for its length. Rests are never at fault.
-/
namespace Buzzer

namespace TrackDraft

/-- Whether an event is at fault. Only a tone can be, by its pitch or else by its length. -/
inductive Fault (channel : UInt8) : Event → SongError → Prop where
  | pitch {pitch ticks} (lasting : 0 < ticks) (high : playablePitches ≤ pitch) :
    Fault channel ⟨.tone pitch, ticks⟩ (.noteOutOfRange channel pitch)
  | length {pitch ticks} (inRange : pitch < playablePitches) (long : maxDuration < ticks) :
    Fault channel ⟨.tone pitch, ticks⟩ (.durationTooLong ticks)

/-- The fault of the first event that has one. -/
inductive FirstFault (channel : UInt8) : List Event → SongError → Prop where
  | here {event error} (fault : Fault channel event error) (later : List Event) :
    FirstFault channel (event :: later) error
  | later {event events error} (sound : ∀ other, ¬Fault channel event other)
      (first : FirstFault channel events error) : FirstFault channel (event :: events) error

/-- What the track of a channel is refused for. -/
inductive Refused (channel : UInt8) (calls : List TrackCall) : SongError → Prop where
  | channel (ends : channel = songEnd) : Refused channel calls (.channelOutOfRange channel)
  | event {error} (opens : channel ≠ songEnd)
      (fault : FirstFault channel (TrackCall.events calls) error) : Refused channel calls error
  | size (opens : channel ≠ songEnd)
      (sound : ∀ error, ¬FirstFault channel (TrackCall.events calls) error)
      (long : maxBlock < headerLength + (noteBytes (ofCalls channel calls).notes).length +
        (durationBytes (ofCalls channel calls).notes).length) :
    Refused channel calls (.trackTooLong channel)

section Faults

variable {channel : UInt8} {event : Event} {events : List Event} {error other : SongError}

theorem Fault.unique (fault : Fault channel event error) (another : Fault channel event other) :
    other = error := by
  cases fault with
  | pitch lasting high =>
    cases another with
    | pitch _ _ => rfl
    | length inRange _ => exact (Nat.not_lt_of_le high inRange).elim
  | length inRange long =>
    cases another with
    | pitch _ high => exact (Nat.not_lt_of_le high inRange).elim
    | length _ _ => rfl

theorem firstFault_cons_of_fault (fault : Fault channel event error) (later : List Event) :
    FirstFault channel (event :: later) other ↔ other = error := by
  constructor
  · intro first
    cases first with
    | here another => exact fault.unique another
    | later sound _ => exact (sound error fault).elim
  · rintro rfl
    exact .here fault later

theorem firstFault_cons_of_sound (sound : ∀ other, ¬Fault channel event other) :
    FirstFault channel (event :: events) error ↔ FirstFault channel events error := by
  constructor
  · intro first
    cases first with
    | here fault => exact (sound error fault).elim
    | later _ first => exact first
  · exact .later sound

theorem FirstFault.unique (first : FirstFault channel events error)
    (another : FirstFault channel events other) : other = error := by
  induction first with
  | here fault later => exact (firstFault_cons_of_fault fault later).mp another
  | later sound _ ih => exact ih ((firstFault_cons_of_sound sound).mp another)

theorem FirstFault.exists_fault (first : FirstFault channel events error) :
    ∃ event ∈ events, Fault channel event error := by
  induction first with
  | here fault later => exact ⟨_, List.mem_cons_self, fault⟩
  | later sound first ih =>
    obtain ⟨event, member, fault⟩ := ih
    exact ⟨event, List.mem_cons_of_mem _ member, fault⟩

theorem checkEvents_rests (channel : UInt8) (lengths : List Nat) (later : List Event) :
    checkEvents channel (Event.rests lengths ++ later) = checkEvents channel later := by
  induction lengths with
  | nil => rfl
  | cons length lengths ih => exact ih

/-- Joining rests does not change which event is the first at fault. -/
theorem checkEvents_joinFrom (channel : UInt8) (events : List Event) (resting : Nat) (error : SongError) :
    checkEvents channel (Event.joinFrom resting events) = .error error ↔
      FirstFault channel events error := by
  induction events generalizing resting with
  | nil =>
    have accepted := checkEvents_rests channel (cut maxTicks resting) []
    rw [List.append_nil] at accepted
    rw [Event.joinFrom, accepted]
    exact ⟨fun refused => (by cases refused), fun first => (by cases first)⟩
  | cons first later ih =>
    obtain ⟨note, ticks⟩ := first
    cases note with
    | rest =>
      have sound : ∀ other, ¬Fault channel ⟨.rest, ticks⟩ other := fun _ fault => by cases fault
      rw [Event.joinFrom, ih, firstFault_cons_of_sound sound]
    | tone pitch =>
      rw [Event.joinFrom]
      by_cases silent : ticks = 0
      · have sound : ∀ other, ¬Fault channel ⟨.tone pitch, ticks⟩ other := by
          intro other fault
          cases fault with
          | pitch lasting _ => omega
          | length _ long => omega
        rw [if_pos silent, ih, firstFault_cons_of_sound sound]
      rw [if_neg silent, checkEvents_rests, checkEvents]
      by_cases high : playablePitches ≤ pitch
      · rw [if_pos high, Except.error.injEq,
          firstFault_cons_of_fault (.pitch (Nat.pos_of_ne_zero silent) high), eq_comm]
      rw [if_neg high]
      by_cases long : maxDuration < ticks
      · rw [if_pos long, Except.error.injEq,
          firstFault_cons_of_fault (.length (Nat.lt_of_not_le high) long), eq_comm]
      · have sound : ∀ other, ¬Fault channel ⟨.tone pitch, ticks⟩ other := by
          intro other fault
          cases fault with
          | pitch _ above => exact high above
          | length _ above => exact long above
        rw [if_neg long, ih, firstFault_cons_of_sound sound]

end Faults

section Refusal

variable {channel : UInt8} {calls : List TrackCall} {fault : SongError}

theorem refused_iff_of_ends (ends : channel = songEnd) (error : SongError) :
    Refused channel calls error ↔ .channelOutOfRange channel = error := by
  constructor
  · intro refused
    cases refused with
    | channel _ => rfl
    | event opens _ => exact (opens ends).elim
    | size opens _ _ => exact (opens ends).elim
  · rintro rfl
    exact .channel ends

theorem refused_iff_of_fault (opens : channel ≠ songEnd)
    (first : FirstFault channel (TrackCall.events calls) fault) (error : SongError) :
    Refused channel calls error ↔ fault = error := by
  constructor
  · intro refused
    cases refused with
    | channel ends => exact (opens ends).elim
    | event _ another => exact another.unique first
    | size _ sound _ => exact (sound fault first).elim
  · rintro rfl
    exact .event opens first

theorem refused_iff_of_sound (opens : channel ≠ songEnd)
    (sound : ∀ fault, ¬FirstFault channel (TrackCall.events calls) fault) (error : SongError) :
    Refused channel calls error ↔
      maxBlock < (ofCalls channel calls).header.length ∧ .trackTooLong channel = error := by
  constructor
  · intro refused
    cases refused with
    | channel ends => exact (opens ends).elim
    | event _ first => exact (sound error first).elim
    | size _ _ long => exact ⟨long, rfl⟩
  · rintro ⟨long, rfl⟩
    exact .size opens sound long

/-- Without a fault, only the length of a track is in the way. -/
theorem Refused.eq_trackTooLong (refused : Refused channel calls fault) (opens : channel ≠ songEnd)
    (faultless : ∀ event ∈ TrackCall.events calls, ∀ error, ¬Fault channel event error) :
    fault = .trackTooLong channel := by
  cases refused with
  | channel ends => exact (opens ends).elim
  | event _ first =>
    obtain ⟨event, among, here⟩ := first.exists_fault
    exact (faultless event among fault here).elim
  | size _ _ _ => rfl

/-- A track is refused exactly for the reasons above, and otherwise written. -/
theorem encode_ofCalls_eq_error (short : ∀ event ∈ TrackCall.events calls, event.ticks ≤ maxTicks)
    (error : SongError) :
    (ofCalls channel calls).encode = .error error ↔ Refused channel calls error := by
  have faults := checkEvents_joinFrom channel (TrackCall.events calls) 0
  rw [← events_ofCalls channel short] at faults
  rw [encode_eq, channel_ofCalls]
  by_cases ends : channel = songEnd
  · rw [if_pos ends, refused_iff_of_ends ends, Except.error.injEq]
  rw [if_neg ends]
  cases checked : checkEvents channel (ofCalls channel calls).events with
  | error fault =>
    rw [refused_iff_of_fault ends ((faults fault).mp checked)]
    simp only [Except.error.injEq]
  | ok _ =>
    have sound : ∀ fault, ¬FirstFault channel (TrackCall.events calls) fault := by
      intro fault first
      have refused := (faults fault).mpr first
      rw [checked] at refused
      cases refused
    rw [refused_iff_of_sound ends sound]
    by_cases long : maxBlock < (ofCalls channel calls).header.length
    · simp only [long, if_true, true_and, Except.error.injEq]
    · simp only [long, if_false, false_and, reduceCtorEq]

end Refusal

/-- Whether a block is framed by its header: the arrays of a track follow each other up to the end of the
block, and the header holds the place where they meet and the length of the block. -/
structure Frames (draft : TrackDraft) (block : List UInt8) : Prop where
  header : Header.read? block = some
    { channel := draft.channel
      length := block.length
      durationOffset := headerLength + (noteBytes draft.notes).length
      pause := draft.foldedPause - 1 }
  notes : (block.take (headerLength + (noteBytes draft.notes).length)).drop headerLength =
    noteBytes draft.notes
  durations : block.drop (headerLength + (noteBytes draft.notes).length) = durationBytes draft.notes

theorem frames_of_encode {draft : TrackDraft} {block : List UInt8} (ready : draft.Ready)
    (encoded : draft.encode = .ok block) : draft.Frames block := by
  have size := length_of_encode encoded
  obtain ⟨-, -, fits, same⟩ := encode_eq_ok encoded
  have front : (draft.headerBytes ++ noteBytes draft.notes).length =
      headerLength + (noteBytes draft.notes).length := List.length_append
  refine ⟨?_, ?_, ?_⟩
  · rw [size, same, read?_headerBytes ready fits]
    rfl
  · rw [same, ← List.append_assoc, List.take_left' front]
    exact List.drop_left' rfl
  · rw [same, ← List.append_assoc, List.drop_left' front]

end TrackDraft

namespace SongDraft

/-- What a song is refused for, by the calls that its tracks are put together by. -/
inductive Refused (tracks : List (UInt8 × List TrackCall)) : SongError → Prop where
  | channels {channel} (twice : (tracks.map Prod.fst).Duplicate channel)
      (lowest : ∀ other, (tracks.map Prod.fst).Duplicate other → channel ≤ other) :
    Refused tracks (.channelOrder channel)
  | track {track error} (distinct : (tracks.map Prod.fst).Nodup) (member : track ∈ tracks)
      (refused : TrackDraft.Refused track.1 track.2 error)
      (accepted : ∀ other ∈ tracks, other.1 < track.1 →
        ∀ failure, ¬TrackDraft.Refused other.1 other.2 failure) :
    Refused tracks error

/-- The channel that comes twice in a row in an ordered list is the lowest one that comes twice. -/
theorem lowest_of_repeated? {channels : List UInt8} (sorted : channels.Pairwise (· ≤ ·)) {channel : UInt8}
    (found : repeated? channels = some channel) :
    channels.Duplicate channel ∧ ∀ other, channels.Duplicate other → channel ≤ other := by
  induction channels with
  | nil => cases found
  | cons first later ih =>
    cases later with
    | nil => cases found
    | cons second later =>
      rw [repeated?] at found
      rw [List.pairwise_cons] at sorted
      by_cases same : first = second
      · rw [if_pos same, Option.some.injEq] at found
        subst found
        subst same
        refine ⟨.cons_mem List.mem_cons_self, ?_⟩
        intro other twice
        rcases List.duplicate_cons_iff.mp twice with ⟨rfl, -⟩ | twice
        · exact UInt8.le_refl _
        · exact sorted.1 other twice.mem
      · rw [if_neg same] at found
        obtain ⟨twice, lowest⟩ := ih sorted.2 found
        refine ⟨.cons_duplicate twice, ?_⟩
        intro other again
        rcases List.duplicate_cons_iff.mp again with ⟨rfl, among⟩ | again
        · -- the first channel is below the second, and so below all that come after it
          have below : second ≤ first := by
            rcases List.mem_cons.mp among with rfl | among
            · exact UInt8.le_refl _
            · exact (List.pairwise_cons.mp sorted.2).1 first among
          exact (same (UInt8.le_antisymm (sorted.1 second List.mem_cons_self) below)).elim
        · exact lowest other again

/-- With a channel that comes twice, it is the lowest such channel that a song is refused for. -/
theorem encode_eq_error_of_not_nodup {draft : SongDraft}
    (shared : ¬(draft.tracks.map TrackDraft.channel).Nodup) (error : SongError) :
    draft.encode = .error error ↔ ∃ channel,
      (draft.tracks.map TrackDraft.channel).Duplicate channel ∧
        (∀ other, (draft.tracks.map TrackDraft.channel).Duplicate other → channel ≤ other) ∧
        .channelOrder channel = error := by
  have sorted := sorted_channels draft
  have reordered := draft.sorted_perm.map TrackDraft.channel
  have twice (channel : UInt8) : (draft.sorted.map TrackDraft.channel).Duplicate channel ↔
      (draft.tracks.map TrackDraft.channel).Duplicate channel := by
    rw [List.duplicate_iff_two_le_count, List.duplicate_iff_two_le_count, reordered.count_eq]
  rw [encode_eq]
  cases found : repeated? (draft.sorted.map TrackDraft.channel) with
  | none =>
    have increasing := increasing_of_repeated? sorted found
    exact (shared (reordered.nodup_iff.mp (increasing.imp UInt8.ne_of_lt))).elim
  | some channel =>
    have lowest := lowest_of_repeated? sorted found
    simp only [twice] at lowest
    simp only [Except.error.injEq]
    constructor
    · rintro rfl
      exact ⟨channel, lowest.1, lowest.2, rfl⟩
    · rintro ⟨other, again, least, rfl⟩
      rw [UInt8.le_antisymm (least channel lowest.1) (lowest.2 other again)]

section OfCalls

variable {tempo : UInt8} {tracks : List (UInt8 × List TrackCall)}

/-- The refusals of tracks on channels of their own are those of the tracks that are put together. -/
theorem encode_ofCalls_eq_error (distinct : (tracks.map Prod.fst).Nodup)
    (short : ∀ track ∈ tracks, ∀ event ∈ TrackCall.events track.2, event.ticks ≤ maxTicks)
    (error : SongError) :
    (ofCalls tempo tracks).encode = .error error ↔ ∃ track ∈ tracks,
      TrackDraft.Refused track.1 track.2 error ∧ ∀ other ∈ tracks, other.1 < track.1 →
        ∀ failure, ¬TrackDraft.Refused other.1 other.2 failure := by
  have encodes : ∀ track ∈ tracks, (∃ block, (TrackDraft.ofCalls track.1 track.2).encode = .ok block) ↔
      ∀ failure, ¬TrackDraft.Refused track.1 track.2 failure := by
    intro track member
    simp only [← TrackDraft.encode_ofCalls_eq_error (short track member)]
    cases (TrackDraft.ofCalls track.1 track.2).encode with
    | error failure => simp
    | ok block => simp
  rw [← channels_ofCalls tempo] at distinct
  rw [encode_eq_error_of_nodup distinct]
  simp only [ofCalls, List.mem_map, exists_exists_and_eq_and, forall_exists_index, and_imp,
    forall_apply_eq_imp_iff₂, TrackDraft.channel_ofCalls]
  refine exists_congr fun track => and_congr_right fun member => ?_
  rw [TrackDraft.encode_ofCalls_eq_error (short track member)]
  refine and_congr_right fun _ => forall₂_congr fun other present => ?_
  rw [encodes other present]

theorem encode_ofCalls_iff_refused
    (short : ∀ track ∈ tracks, ∀ event ∈ TrackCall.events track.2, event.ticks ≤ maxTicks)
    (error : SongError) : (ofCalls tempo tracks).encode = .error error ↔ Refused tracks error := by
  by_cases distinct : (tracks.map Prod.fst).Nodup
  · rw [encode_ofCalls_eq_error distinct short]
    constructor
    · rintro ⟨track, member, refused, accepted⟩
      exact .track distinct member refused accepted
    · intro refused
      cases refused with
      | channels twice _ => exact (twice.not_nodup distinct).elim
      | track _ member refused accepted => exact ⟨_, member, refused, accepted⟩
  · rw [encode_eq_error_of_not_nodup (by rwa [channels_ofCalls]), channels_ofCalls]
    constructor
    · rintro ⟨channel, twice, lowest, rfl⟩
      exact .channels twice lowest
    · intro refused
      cases refused with
      | channels twice lowest => exact ⟨_, twice, lowest, rfl⟩
      | track different _ _ _ => exact (distinct different).elim

theorem frames_of_encode
    (short : ∀ track ∈ tracks, ∀ event ∈ TrackCall.events track.2, event.ticks ≤ maxTicks)
    {data : List UInt8} (encoded : (ofCalls tempo tracks).encode = .ok data) :
    ∃ blocks, data = tempo :: (blocks.flatten ++ [songEnd]) ∧
      List.Forall₂ TrackDraft.Frames (ofCalls tempo tracks).sorted blocks := by
  obtain ⟨-, blocks, written, same⟩ := encode_eq_ok encoded
  have ready : ∀ draft ∈ (ofCalls tempo tracks).sorted, draft.Ready := fun draft member =>
    ready_ofCalls tempo short draft ((ofCalls tempo tracks).sorted_perm.mem_iff.mp member)
  have both := (List.forall₂_and_left _ _).mpr ⟨ready, written⟩
  exact ⟨blocks, same, both.imp fun _ _ whole => TrackDraft.frames_of_encode whole.1 whole.2⟩

/-- A song is refused for the lowest channel that comes twice, or else for what the lowest channel that is
refused is refused for, and written if there is neither. Without a fault in a channel or in a tone, nothing
but the length of a track is in the way, whatever the rests are. In a song that is written, every header
holds the length of its block and the place of its durations. -/
theorem encode_refuses_first_fault (tempo : UInt8)
    (short : ∀ track ∈ tracks, ∀ event ∈ TrackCall.events track.2, event.ticks ≤ maxTicks) :
    (∀ error, (ofCalls tempo tracks).encode = .error error ↔ Refused tracks error) ∧
      ((∀ error, ¬Refused tracks error) → ∃ data, (ofCalls tempo tracks).encode = .ok data) ∧
      ((tracks.map Prod.fst).Nodup →
        (∀ track ∈ tracks, track.1 ≠ songEnd ∧
          ∀ event ∈ TrackCall.events track.2, ∀ error, ¬TrackDraft.Fault track.1 event error) →
        ∀ error, Refused tracks error → ∃ track ∈ tracks, error = .trackTooLong track.1) ∧
      ∀ data, (ofCalls tempo tracks).encode = .ok data →
        ∃ blocks, data = tempo :: (blocks.flatten ++ [songEnd]) ∧
          List.Forall₂ TrackDraft.Frames (ofCalls tempo tracks).sorted blocks := by
  refine ⟨encode_ofCalls_iff_refused short, ?_, ?_, fun data => frames_of_encode short⟩
  · intro accepted
    cases encoded : (ofCalls tempo tracks).encode with
    | error error => exact (accepted error ((encode_ofCalls_iff_refused short error).mp encoded)).elim
    | ok data => exact ⟨data, rfl⟩
  · intro distinct sound error refused
    cases refused with
    | channels twice _ => exact (twice.not_nodup distinct).elim
    | @track track _ _ member refused _ =>
      obtain ⟨opens, faultless⟩ := sound track member
      exact ⟨track, member, refused.eq_trackTooLong opens faultless⟩

/-- Both tracks have faults. In the one on the lower channel, the tone without a length and the long rest are
none, and the long tone comes before the high one. -/
def twoFaults : List (UInt8 × List TrackCall) :=
  [(3, [.note ⟨.tone 84, 1⟩]),
    (1, [.note ⟨.tone 90, 0⟩, .note ⟨.rest, 60000⟩, .note ⟨.tone 83, 16385⟩, .note ⟨.tone 84, 1⟩])]

theorem twoFaults_refused : (ofCalls 0x79 twoFaults).encode = .error (.durationTooLong 16385) := by
  have silent : ∀ other, ¬TrackDraft.Fault 1 ⟨.tone 90, 0⟩ other := by
    intro other fault
    cases fault with
    | pitch lasting _ => exact Nat.lt_irrefl 0 lasting
    | length inRange _ => exact absurd inRange (by decide)
  have rests : ∀ other, ¬TrackDraft.Fault 1 ⟨.rest, 60000⟩ other := fun _ fault => by cases fault
  have long : TrackDraft.Fault 1 ⟨.tone 83, 16385⟩ (.durationTooLong 16385) :=
    .length (by decide) (by decide)
  have short : ∀ track ∈ twoFaults, ∀ event ∈ TrackCall.events track.2, event.ticks ≤ maxTicks := by
    decide
  obtain ⟨refuses, -⟩ := encode_refuses_first_fault 0x79 short
  refine (refuses _).mpr (.track (by decide) (List.mem_cons_of_mem _ List.mem_cons_self)
    (.event (by decide) (.later silent (.later rests (.here long _)))) ?_)
  intro other member below
  rcases List.mem_cons.mp member with rfl | member
  · exact absurd below (by decide)
  · rw [List.mem_singleton.mp member] at below
    exact absurd below (by decide)

end OfCalls

end SongDraft

end Buzzer
