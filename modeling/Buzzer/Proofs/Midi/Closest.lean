import Mathlib.Data.Prod.Lex
import Mathlib.Order.WithBot
import Buzzer.Proofs.Midi.Histories

/-!
The strategy that takes the closest channel. While the channels know what they have played last, it takes the
one whose last tone is the closest, however long ago that was played.
-/
namespace Buzzer

namespace Midi

/-! The order in which channels are taken. -/

/-- How far a pitch is from the last one of a channel. A channel without one is farther than any other. -/
def remoteness (pitch : Nat) (last : Option Nat) : WithTop Nat :=
  last.elim ⊤ fun tone => WithTop.some (Voice.distance pitch tone)

/-- The rank of a channel for a pitch, where the lowest is taken: by how far the pitch is from the last one of
the channel, then by the most runs, then by the lowest number. -/
def Candidate.rank (pitch : Nat) (last : Option Nat) (candidate : Candidate) :
    WithTop Nat ×ₗ Natᵒᵈ ×ₗ Nat :=
  toLex (remoteness pitch last,
    toLex (OrderDual.toDual candidate.voice.runs.length, candidate.number))

section Ranks

variable {pitch : Nat} {first second : Candidate} {last other : Option Nat}

theorem isNearer_iff : Candidate.isNearer (last.map (Voice.distance pitch))
    (other.map (Voice.distance pitch)) = true ↔ remoteness pitch last < remoteness pitch other := by
  cases last <;> cases other <;> simp [Candidate.isNearer, remoteness]

theorem remoteness_eq_iff : last.map (Voice.distance pitch) = other.map (Voice.distance pitch) ↔
    remoteness pitch last = remoteness pitch other := by
  cases last <;> cases other <;> simp [remoteness]

theorem rank_lt_iff : first.rank pitch last < second.rank pitch other ↔
    remoteness pitch last < remoteness pitch other ∨
      remoteness pitch last = remoteness pitch other ∧
        (second.voice.runs.length < first.voice.runs.length ∨
          first.voice.runs.length = second.voice.runs.length ∧ first.number < second.number) := by
  simp only [Candidate.rank, Prod.Lex.toLex_lt_toLex, OrderDual.toDual_lt_toDual,
    EmbeddingLike.apply_eq_iff_eq]

/-- A channel is kept exactly if it comes before a later one. -/
theorem keeps_iff (ordered : first.number < second.number) :
    first.keeps pitch second = true ↔
      first.rank pitch first.voice.lastPitch? < second.rank pitch second.voice.lastPitch? := by
  rw [rank_lt_iff, ← isNearer_iff, ← remoteness_eq_iff]
  have keeps : first.keeps pitch second = true ↔
      Candidate.isNearer (first.distance? pitch) (second.distance? pitch) = true ∨
        first.distance? pitch = second.distance? pitch ∧
          second.voice.runs.length ≤ first.voice.runs.length := by
    simp only [Candidate.keeps, Bool.or_eq_true, Bool.and_eq_true, decide_eq_true_eq]
  refine keeps.trans (or_congr_right (and_congr_right fun _ => ?_))
  omega

def Candidate.better (pitch : Nat) (best next : Candidate) : Candidate :=
  if best.keeps pitch next then best else next

/-- The rank of a channel as the strategy sees it. -/
def Candidate.ownRank (pitch : Nat) (candidate : Candidate) : WithTop Nat ×ₗ Natᵒᵈ ×ₗ Nat :=
  candidate.rank pitch candidate.voice.lastPitch?

theorem better_eq (pitch : Nat) (first second : Candidate) :
    first.better pitch second = first ∨ first.better pitch second = second :=
  ite_eq_or_eq ..

theorem ownRank_better_le (pitch : Nat) (ordered : first.number < second.number) :
    (first.better pitch second).ownRank pitch ≤ first.ownRank pitch ∧
      (first.better pitch second).ownRank pitch ≤ second.ownRank pitch := by
  unfold Candidate.better
  by_cases keeps : first.keeps pitch second = true
  · rw [if_pos keeps]
    exact ⟨le_rfl, ((keeps_iff ordered).mp keeps).le⟩
  · rw [if_neg keeps]
    exact ⟨not_lt.mp (mt (keeps_iff ordered).mpr keeps), le_rfl⟩

/-- Of channels in the order of their numbers the one of the lowest rank is left. -/
theorem ownRank_foldl_le (pitch : Nat) {others : List Candidate}
    (ascending : ((first :: others).map Candidate.number).Pairwise (· < ·)) :
    ∀ candidate ∈ first :: others,
      (others.foldl (Candidate.better pitch) first).ownRank pitch ≤ candidate.ownRank pitch := by
  induction others generalizing first with
  | nil =>
    intro candidate member
    rw [List.mem_singleton.mp member]
    exact le_rfl
  | cons next later ih =>
    obtain ⟨below, rest⟩ := List.pairwise_cons.mp ascending
    have after := (List.pairwise_cons.mp rest).1
    have ordered : first.number < next.number := below _ List.mem_cons_self
    have kept : (((first.better pitch next) :: later).map Candidate.number).Pairwise (· < ·) := by
      rw [List.map_cons, List.pairwise_cons]
      refine ⟨?_, (List.pairwise_cons.mp rest).2⟩
      intro number member
      rcases better_eq pitch first next with same | same
      · rw [same]
        exact below number (List.mem_cons_of_mem _ member)
      · rw [same]
        exact after number member
    have least := ih kept
    have lowest := least _ List.mem_cons_self
    have step := ownRank_better_le pitch ordered
    rw [List.foldl_cons]
    intro candidate member
    rcases List.mem_cons.mp member with rfl | member
    · exact lowest.trans step.1
    rcases List.mem_cons.mp member with rfl | among
    · exact lowest.trans step.2
    · exact least candidate (List.mem_cons_of_mem _ among)

theorem choose_closest_start (fresh : first.voice.runs = []) (others : List Candidate) :
    Strategy.closest.choose pitch first others = first := by
  simp [Strategy.choose, fresh]

theorem choose_closest_started (started : first.voice.runs ≠ []) (others : List Candidate) :
    Strategy.closest.choose pitch first others = others.foldl (Candidate.better pitch) first := by
  have full : (!first.voice.runs.isEmpty) = true := by simpa using started
  exact if_pos full

end Ranks

/-! What the strategy takes. -/

def Candidate.rankAfter (rows : List Row) (pitch : Nat) (candidate : Candidate) :
    WithTop Nat ×ₗ Natᵒᵈ ×ₗ Nat :=
  candidate.rank pitch (lastTone? (column rows candidate.number))

section Closest

variable {ranges : List PitchRange} {rows : List Row} {pitch : Nat} {first : Candidate}
  {others : List Candidate}

theorem rankAfter_choose_le
    (legal : ∀ candidate ∈ first :: others,
      (Voice.performed ranges rows)[candidate.number]? = some candidate.voice)
    (ascending : ((first :: others).map Candidate.number).Pairwise (· < ·))
    (recalls : ∀ candidate ∈ first :: others, Recalls rows candidate.number) (started : rows ≠ []) :
    ∀ candidate ∈ first :: others,
      (Strategy.closest.choose pitch first others).rankAfter rows pitch ≤
        candidate.rankAfter rows pitch := by
  have ranks : ∀ candidate ∈ first :: others,
      candidate.ownRank pitch = candidate.rankAfter rows pitch := by
    intro candidate among
    rw [Candidate.ownRank, Candidate.rankAfter,
      lastPitch?_of_recalls (legal candidate among) (recalls candidate among)]
  have begun : first.voice.runs ≠ [] :=
    mt (runs_eq_nil_iff (legal first List.mem_cons_self)).mp started
  have least := ownRank_foldl_le pitch ascending
  rw [← choose_closest_started begun] at least
  intro candidate among
  rw [← ranks _ (Strategy.choose_mem .closest pitch first others), ← ranks candidate among]
  exact least candidate among

/-- In the course of a frame a note goes to the channel of the lowest rank of those that can take it. -/
theorem seatNote?_closest {merge : Bool} {track : Nat} {row : Row} {after : List Seat}
    (step : seatNote? .closest merge track (Seat.during (Voice.performed ranges rows) row) pitch =
      some after) (started : rows ≠ []) :
    let able := Seat.candidates merge track pitch 0 (Seat.during (Voice.performed ranges rows) row)
    (∀ candidate ∈ able, Recalls rows candidate.number) →
      ∃ taken ∈ able, (∀ candidate ∈ able,
          taken.rankAfter rows pitch ≤ candidate.rankAfter rows pitch) ∧
        after = Seat.sing track pitch taken.number (Seat.during (Voice.performed ranges rows) row) := by
  intro able recalls
  have legal : ∀ candidate ∈ able,
      (Voice.performed ranges rows)[candidate.number]? = some candidate.voice :=
    fun candidate among => voice_of_candidate among
  have ascending : (able.map Candidate.number).Pairwise (· < ·) := candidates_ascending _ _ _ _
  unfold seatNote? at step
  cases found : able with
  | nil =>
    simp only [able] at found
    rw [found] at step
    cases step
  | cons first others =>
    rw [found] at legal ascending recalls
    simp only [able] at found
    rw [found] at step
    cases step
    exact ⟨_, Strategy.choose_mem .closest pitch first others,
      rankAfter_choose_le legal ascending recalls started, rfl⟩

/-- While the notes of a file are given to channels, every note goes to the closest channel that can take
it. -/
theorem notes_go_to_closest {channels : List Channel} {merge : Bool} {frames : List (Frame Nat)}
    {notes : List (Nat × Nat)} {before during after : List Seat} {track : Nat}
    (whole : frames.foldlM (seatFrame? .closest merge) (emptySeats channels) = some before)
    (course : notes.foldlM (fun seats note => seatNote? .closest merge note.1 seats note.2) before =
      some during)
    (step : seatNote? .closest merge track during pitch = some after) (started : frames ≠ []) :
    ∃ rows : List Row, rows.length = frames.length ∧
      before = Seat.during (Voice.performed (channels.map Channel.range) rows) silence ∧
      ((∀ candidate ∈ Seat.candidates merge track pitch 0 during, Recalls rows candidate.number) →
        ∃ taken ∈ Seat.candidates merge track pitch 0 during,
          (∀ candidate ∈ Seat.candidates merge track pitch 0 during,
            taken.rankAfter rows pitch ≤ candidate.rankAfter rows pitch) ∧
          after = Seat.sing track pitch taken.number during) := by
  obtain ⟨rows, length, rfl⟩ := performed_of_frames whole
  obtain ⟨row, rfl⟩ := seatNotes_during course
  have full : rows ≠ [] := by
    rw [ne_eq, ← List.length_eq_zero_iff, length, List.length_eq_zero_iff]
    exact started
  exact ⟨rows, length, rfl, seatNote?_closest step full⟩

/-- Until the first frame is complete the first channel is taken, and then the one whose last tone is the
closest, however long ago it was played. Of channels as close it is the one with the most runs, and then the
one with the lowest number. -/
theorem closest_follows_last_tone
    (legal : ∀ candidate ∈ first :: others,
      (Voice.performed ranges rows)[candidate.number]? = some candidate.voice)
    (ascending : ((first :: others).map Candidate.number).Pairwise (· < ·))
    (recalls : ∀ candidate ∈ first :: others, Recalls rows candidate.number) :
    (rows = [] → Strategy.closest.choose pitch first others = first) ∧
      (rows ≠ [] → ∃ taken ∈ first :: others, Strategy.closest.choose pitch first others = taken ∧
        ∀ candidate ∈ first :: others,
          taken.rankAfter rows pitch ≤ candidate.rankAfter rows pitch) := by
  constructor
  · intro start
    have fresh := (runs_eq_nil_iff (legal first List.mem_cons_self)).mpr start
    exact choose_closest_start fresh others
  · intro started
    exact ⟨_, Strategy.choose_mem .closest pitch first others, rfl,
      rankAfter_choose_le legal ascending recalls started⟩

end Closest

def plucked : Row := fun number => some (0, 10 + 40 * number)

/-- Two channels that have played one frame and rested for another. -/
theorem closest_after_rest :
    let voice (pitch : Nat) := (Voice.sing { range := ⟨0, playablePitches⟩ } 0 pitch).rest
    Recalls [plucked, silence] 1 ∧
      ∃ taken ∈ [⟨0, voice 10⟩, ⟨1, voice 50⟩],
        Strategy.closest.choose 45 ⟨0, voice 10⟩ [⟨1, voice 50⟩] = taken ∧
          taken.rankAfter [plucked, silence] 45 ≤ Candidate.rank 45 (some 50) ⟨1, voice 50⟩ := by
  intro voice
  have recalls : ∀ number, Recalls [plucked, silence] number := fun number =>
    .inl (show 1 ≤ maxDuration by decide)
  have legal : ∀ candidate ∈ [(⟨0, voice 10⟩ : Candidate), ⟨1, voice 50⟩],
      (Voice.performed [⟨0, playablePitches⟩, ⟨0, playablePitches⟩] [plucked, silence])[candidate.number]? =
        some candidate.voice := by
    rw [List.forall_mem_cons, List.forall_mem_singleton]
    exact ⟨rfl, rfl⟩
  have result := @closest_follows_last_tone [⟨0, playablePitches⟩, ⟨0, playablePitches⟩]
    [plucked, silence] 45 ⟨0, voice 10⟩ [⟨1, voice 50⟩] legal (by decide)
    (fun candidate _ => recalls candidate.number)
  obtain ⟨taken, member, same, least⟩ := result.2 (List.cons_ne_nil _ _)
  exact ⟨recalls 1, taken, member, same, least _ (List.mem_cons_of_mem _ List.mem_cons_self)⟩

theorem column_append_silence (rows : List Row) (count number : Nat) :
    column (rows ++ List.replicate count silence) number =
      column rows number ++ List.replicate count .rest := by
  rw [column, List.map_append, List.map_replicate]
  rfl

section LongRest

variable {ranges : List PitchRange} {count : Nat}

def pluckedOnce (count : Nat) : List Row := [plucked] ++ List.replicate count silence

theorem column_pluckedOnce (count number : Nat) : column (pluckedOnce count) number =
    [.tone (10 + 40 * number)] ++ List.replicate count .rest :=
  column_append_silence [plucked] count number

theorem lastTone?_pluckedOnce (count number : Nat) :
    lastTone? (column (pluckedOnce count) number) = some (10 + 40 * number) := by
  rw [column_pluckedOnce, lastTone?_append_rests]
  rfl

theorem lost_after_pluckedOnce (long : maxDuration < count) {number : Nat} {voice : Voice}
    (here : (Voice.performed ranges (pluckedOnce count))[number]? = some voice) :
    voice.lastPitch? = none := by
  apply forgotten_after_long_rest here
  rw [column_pluckedOnce, resting_append_rests]
  exact Nat.lt_add_left _ long

/-- All channels have rested in as many runs. -/
theorem length_runs_pluckedOnce {number : Nat} {voice : Voice}
    (here : (Voice.performed ranges (pluckedOnce count))[number]? = some voice) :
    voice.runs.length = (Event.rests (cut maxDuration count)).length + 1 := by
  have struck : Trails (runsOf [.tone (10 + 40 * number)]) 0 [⟨.tone (10 + 40 * number), 1⟩] :=
    Trails.tone [] _
  have trails := struck.rests count
  rw [Nat.zero_add, runsOf, ← List.foldl_append, ← column_pluckedOnce] at trails
  have runs := trails.runs_eq
  rw [← runsOf, ← runs_of_performed here] at runs
  rw [runs, List.length_append, List.length_reverse]
  rfl

theorem first_taken_after_pluckedOnce (long : maxDuration < count) {first second : Voice}
    (hereFirst : (Voice.performed ranges (pluckedOnce count))[0]? = some first)
    (hereSecond : (Voice.performed ranges (pluckedOnce count))[1]? = some second) (pitch : Nat) :
    Strategy.closest.choose pitch ⟨0, first⟩ [⟨1, second⟩] = ⟨0, first⟩ := by
  have runs := length_runs_pluckedOnce hereFirst
  have started : first.runs ≠ [] := by
    rw [← List.length_pos_iff, runs]
    exact Nat.succ_pos _
  have keeps : Candidate.keeps pitch ⟨0, first⟩ ⟨1, second⟩ = true := by
    simp [Candidate.keeps, Candidate.distance?, lost_after_pluckedOnce long hereFirst,
      lost_after_pluckedOnce long hereSecond, runs, length_runs_pluckedOnce hereSecond]
  rw [choose_closest_started started]
  exact if_pos keeps

end LongRest

/-- After a rest that takes two runs neither of two channels is known to have played anything, and the first
one is taken for the last tone of the second. -/
theorem tone_before_long_rest_lost :
    ¬∀ (ranges : List PitchRange) (rows : List Row) (pitch : Nat) (first : Candidate)
      (others : List Candidate),
      (∀ candidate ∈ first :: others,
        (Voice.performed ranges rows)[candidate.number]? = some candidate.voice) →
      ((first :: others).map Candidate.number).Pairwise (· < ·) → rows ≠ [] →
      ∃ taken ∈ first :: others, Strategy.closest.choose pitch first others = taken ∧
        ∀ candidate ∈ first :: others,
          taken.rankAfter rows pitch ≤ candidate.rankAfter rows pitch := by
  intro claim
  obtain ⟨count, long⟩ : ∃ count, maxDuration < count := ⟨_, Nat.lt_succ_self _⟩
  let ranges : List PitchRange := [⟨0, playablePitches⟩, ⟨0, playablePitches⟩]
  have size : (Voice.performed ranges (pluckedOnce count)).length = 2 := Voice.length_performed _ _
  obtain ⟨first, hereFirst⟩ : ∃ voice, (Voice.performed ranges (pluckedOnce count))[0]? = some voice :=
    ⟨_, List.getElem?_eq_getElem (by rw [size]; decide)⟩
  obtain ⟨second, hereSecond⟩ : ∃ voice, (Voice.performed ranges (pluckedOnce count))[1]? = some voice :=
    ⟨_, List.getElem?_eq_getElem (by rw [size]; decide)⟩
  obtain ⟨taken, -, same, least⟩ := claim ranges (pluckedOnce count) 50 ⟨0, first⟩ [⟨1, second⟩]
    (by simp [hereFirst, hereSecond]) (by simp) (List.cons_ne_nil _ _)
  rw [first_taken_after_pluckedOnce long hereFirst hereSecond] at same
  have below := least ⟨1, second⟩ (List.mem_cons_of_mem _ List.mem_cons_self)
  rw [← same, Candidate.rankAfter, Candidate.rankAfter, lastTone?_pluckedOnce, lastTone?_pluckedOnce,
    ← not_lt, rank_lt_iff] at below
  exact below (.inl (by simp [remoteness, Voice.distance]))

end Midi

end Buzzer
