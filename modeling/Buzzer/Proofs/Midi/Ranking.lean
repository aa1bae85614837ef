import Mathlib
import Buzzer.Midi.Arranger
import Buzzer.Proofs.Draft.Encoding
import Buzzer.Target.Shipped

/-!
The strategies that compare what the others come to. One of them takes the first tracks there are, and two
take the smallest or the fewest, the earliest of several. Comparing needs the size of every candidate, so the
first one that cannot be written is an error, whatever comes before and after it.
-/
namespace Buzzer

/-- The bytes of the block of a track that can be written. -/
def TrackDraft.blockSize (track : TrackDraft) : Nat :=
  match track.encode with
  | .ok block => block.length
  | .error _ => 0

namespace Midi

/-- Whether every one of some tracks can be written. -/
def Encodable (tracks : List TrackDraft) : Prop := ∀ track ∈ tracks, ∃ block, track.encode = .ok block

/-- Whether the first of some tracks that cannot be written is refused with an error. -/
def RefusedWith (tracks : List TrackDraft) (error : SongError) : Prop :=
  ∃ before track after, tracks = before ++ track :: after ∧ Encodable before ∧ track.encode = .error error

/-- The bytes of the blocks of some tracks. -/
def blockSizes (tracks : List TrackDraft) : Nat := (tracks.map TrackDraft.blockSize).sum

/-- Tracks are ranked by their bytes, then by their number. -/
def sizeFirst (tracks : List TrackDraft) : Nat × Nat := (blockSizes tracks, tracks.length)

/-- Tracks are ranked by their number, then by their bytes. -/
def countFirst (tracks : List TrackDraft) : Nat × Nat := (tracks.length, blockSizes tracks)

/-- Whether some tracks have the lowest rank of all candidates, and no earlier ones have the same. -/
def FirstLowest (rank : List TrackDraft → Nat × Nat) (candidates : List (List TrackDraft))
    (best : List TrackDraft) : Prop :=
  ∃ earlier later, candidates = earlier ++ best :: later ∧
    (∀ other ∈ earlier, toLex (rank best) < toLex (rank other)) ∧
    ∀ other ∈ later, toLex (rank best) ≤ toLex (rank other)

/-! The size of some tracks. -/

section Sizes

variable {tracks : List TrackDraft}

theorem mapM_of_encodable (encodable : Encodable tracks) :
    ∃ blocks, tracks.mapM TrackDraft.encode = .ok blocks ∧ blocks.flatten.length = blockSizes tracks := by
  induction tracks with
  | nil => exact ⟨[], rfl, rfl⟩
  | cons track later ih =>
    obtain ⟨⟨block, written⟩, others⟩ := List.forall_mem_cons.mp encodable
    obtain ⟨blocks, done, sizes⟩ := ih others
    refine ⟨block :: blocks, ?_, ?_⟩
    · rw [List.mapM_cons, written, done]
      rfl
    · have first : track.blockSize = block.length := by rw [TrackDraft.blockSize, written]
      rw [List.flatten_cons, List.length_append, sizes, ← first]
      rfl

theorem encodedSize_of_encodable (encodable : Encodable tracks) :
    encodedSize tracks = .ok (blockSizes tracks) := by
  obtain ⟨blocks, done, sizes⟩ := mapM_of_encodable encodable
  rw [encodedSize, done, ← sizes]
  rfl

theorem encodedSize_of_refused {error : SongError} (refused : RefusedWith tracks error) :
    encodedSize tracks = .error error := by
  obtain ⟨before, track, after, rfl, passes, fails⟩ := refused
  rw [encodedSize, mapM_append_eq_error passes fails after]
  rfl

theorem encodable_or_refused (tracks : List TrackDraft) :
    Encodable tracks ∨ ∃ error, RefusedWith tracks error := by
  induction tracks with
  | nil => exact .inl nofun
  | cons track later ih =>
    cases written : track.encode with
    | error error => exact .inr ⟨error, [], track, later, rfl, nofun, written⟩
    | ok block =>
      rcases ih with encodable | ⟨error, before, other, after, rfl, passes, fails⟩
      · exact .inl (List.forall_mem_cons.mpr ⟨⟨block, written⟩, encodable⟩)
      · exact .inr ⟨error, track :: before, other, after, rfl,
          List.forall_mem_cons.mpr ⟨⟨block, written⟩, passes⟩, fails⟩

end Sizes

/-! The lowest rank. -/

theorem precedes_iff (first second : Nat × Nat) :
    precedes first second = true ↔ toLex first < toLex second := by
  simp only [precedes, Bool.or_eq_true, Bool.and_eq_true, decide_eq_true_eq, Prod.Lex.toLex_lt_toLex]

section Lowest

variable {value : List TrackDraft → Nat × Nat} {held best tracks : List TrackDraft}
  {candidates later : List (List TrackDraft)}

/-- Tracks that are taken instead of others before them have a lower rank than those. -/
theorem FirstLowest.replace (lowest : FirstLowest value (tracks :: later) best)
    (lower : toLex (value tracks) < toLex (value held)) :
    FirstLowest value (held :: tracks :: later) best := by
  obtain ⟨earlier, others, split, before, after⟩ := lowest
  have most : toLex (value best) ≤ toLex (value tracks) := by
    cases earlier with
    | nil => exact (congrArg (toLex ∘ value) (List.cons_eq_cons.mp split).1).ge
    | cons first earlier =>
      rw [(List.cons_eq_cons.mp split).1]
      exact (before first List.mem_cons_self).le
  refine ⟨held :: earlier, others, by rw [split, List.cons_append], ?_, after⟩
  exact List.forall_mem_cons.mpr ⟨most.trans_lt lower, before⟩

/-- Tracks that others before them are kept for have the same rank as those or a higher one. -/
theorem FirstLowest.keep (lowest : FirstLowest value (held :: later) best)
    (higher : toLex (value held) ≤ toLex (value tracks)) :
    FirstLowest value (held :: tracks :: later) best := by
  obtain ⟨earlier, others, split, before, after⟩ := lowest
  cases earlier with
  | nil =>
    obtain ⟨rfl, rfl⟩ := List.cons_eq_cons.mp split
    exact ⟨[], tracks :: later, rfl, nofun, List.forall_mem_cons.mpr ⟨higher, after⟩⟩
  | cons first earlier =>
    obtain ⟨rfl, rfl⟩ := List.cons_eq_cons.mp split
    obtain ⟨lower, among⟩ := List.forall_mem_cons.mp before
    refine ⟨held :: tracks :: earlier, others, rfl, ?_, after⟩
    exact List.forall_mem_cons.mpr ⟨lower, List.forall_mem_cons.mpr ⟨lower.trans_le higher, among⟩⟩

variable {rank : List TrackDraft → Except SongError (Nat × Nat)}

theorem lowestRank_of_held (ranked : ∀ tracks ∈ candidates, rank tracks = .ok (value tracks)) :
    ∃ best, lowestRank rank (some ⟨held, value held⟩) candidates = .ok (some ⟨best, value best⟩) ∧
      FirstLowest value (held :: candidates) best := by
  induction candidates generalizing held with
  | nil => exact ⟨held, rfl, [], [], rfl, nofun, nofun⟩
  | cons tracks later ih =>
    obtain ⟨here, others⟩ := List.forall_mem_cons.mp ranked
    have step : lowestRank rank (some ⟨held, value held⟩) (tracks :: later) =
        lowestRank rank (some (if precedes (value tracks) (value held) then ⟨tracks, value tracks⟩
          else ⟨held, value held⟩)) later := by
      rw [lowestRank, here]
      rfl
    rw [step]
    by_cases lower : precedes (value tracks) (value held) = true
    · rw [if_pos lower]
      obtain ⟨best, found, lowest⟩ := @ih tracks others
      exact ⟨best, found, lowest.replace ((precedes_iff _ _).mp lower)⟩
    · rw [if_neg lower]
      obtain ⟨best, found, lowest⟩ := @ih held others
      exact ⟨best, found, lowest.keep (not_lt.mp (mt (precedes_iff _ _).mpr lower))⟩

theorem lowestRank_of_ranked (some : candidates ≠ [])
    (ranked : ∀ tracks ∈ candidates, rank tracks = .ok (value tracks)) :
    ∃ best, lowestRank rank none candidates = .ok (.some ⟨best, value best⟩) ∧
      FirstLowest value candidates best := by
  obtain ⟨first, later, rfl⟩ := List.exists_cons_of_ne_nil some
  obtain ⟨here, others⟩ := List.forall_mem_cons.mp ranked
  obtain ⟨best, found, lowest⟩ := @lowestRank_of_held value first later rank others
  refine ⟨best, ?_, lowest⟩
  rw [lowestRank, here]
  exact found

/-- The first tracks that cannot be ranked decide. -/
theorem lowestRank_of_refused {earlier : List (List TrackDraft)} {error : SongError}
    (ranked : ∀ other ∈ earlier, ∃ value, rank other = .ok value) (refused : rank tracks = .error error)
    (held : Option Ranked) : lowestRank rank held (earlier ++ tracks :: later) = .error error := by
  induction earlier generalizing held with
  | nil =>
    rw [List.nil_append, lowestRank, refused]
    rfl
  | cons first earlier ih =>
    obtain ⟨⟨value, here⟩, others⟩ := List.forall_mem_cons.mp ranked
    rw [List.cons_append, lowestRank, here]
    cases held with
    | none => exact ih others _
    | some held => exact ih others _

end Lowest

/-! The strategies. -/

/-- Whether a ranking has the given value for tracks that can be written, and else fails as writing them
does. -/
structure RanksBy (rank : List TrackDraft → Except SongError (Nat × Nat))
    (value : List TrackDraft → Nat × Nat) : Prop where
  encodable : ∀ tracks, Encodable tracks → rank tracks = .ok (value tracks)
  refused : ∀ tracks error, RefusedWith tracks error → rank tracks = .error error

theorem smallestRank_ranksBy : RanksBy smallestRank sizeFirst := by
  constructor
  · intro tracks encodable
    rw [smallestRank, encodedSize_of_encodable encodable]
    rfl
  · intro tracks error refused
    rw [smallestRank, encodedSize_of_refused refused]
    rfl

theorem fewestChannelsRank_ranksBy : RanksBy fewestChannelsRank countFirst := by
  constructor
  · intro tracks encodable
    rw [fewestChannelsRank, encodedSize_of_encodable encodable]
    rfl
  · intro tracks error refused
    rw [fewestChannelsRank, encodedSize_of_refused refused]
    rfl

section Strategies

variable {channels : List Channel} {merge : Bool} {frames : List (Frame Nat)}
  {rank : List TrackDraft → Except SongError (Nat × Nat)} {value : List TrackDraft → Nat × Nat}

theorem bestTracks?_of_none (none : candidateTracks channels merge frames = []) :
    bestTracks? rank channels merge frames = .ok .none := by
  rw [bestTracks?, none]
  rfl

theorem RanksBy.bestTracks?_of_encodable (ranks : RanksBy rank value)
    (some : candidateTracks channels merge frames ≠ [])
    (encodable : ∀ tracks ∈ candidateTracks channels merge frames, Encodable tracks) :
    ∃ best, bestTracks? rank channels merge frames = .ok (.some best) ∧
      FirstLowest value (candidateTracks channels merge frames) best := by
  obtain ⟨best, found, lowest⟩ := lowestRank_of_ranked some fun tracks member =>
    ranks.encodable tracks (encodable tracks member)
  refine ⟨best, ?_, lowest⟩
  rw [bestTracks?, found]
  rfl

theorem RanksBy.bestTracks?_of_refused (ranks : RanksBy rank value)
    {earlier later : List (List TrackDraft)} {tracks : List TrackDraft} {error : SongError}
    (split : candidateTracks channels merge frames = earlier ++ tracks :: later)
    (encodable : ∀ other ∈ earlier, Encodable other) (refused : RefusedWith tracks error) :
    bestTracks? rank channels merge frames = .error error := by
  have ranked : ∀ other ∈ earlier, ∃ value, rank other = .ok value :=
    fun other member => ⟨_, ranks.encodable other (encodable other member)⟩
  have fails : lowestRank rank .none (earlier ++ tracks :: later) = .error error :=
    lowestRank_of_refused ranked (ranks.refused tracks error refused) .none
  rw [bestTracks?, split, fails]
  rfl

/-- Either all of some candidates can be written, or there is a first one that cannot. -/
theorem encodable_or_first_refused (candidates : List (List TrackDraft)) :
    (∀ tracks ∈ candidates, Encodable tracks) ∨
      ∃ earlier tracks later error, candidates = earlier ++ tracks :: later ∧
        (∀ other ∈ earlier, Encodable other) ∧ RefusedWith tracks error := by
  induction candidates with
  | nil => exact .inl nofun
  | cons first later ih =>
    rcases encodable_or_refused first with encodable | ⟨error, refused⟩
    · rcases ih with all | ⟨earlier, tracks, others, error, rfl, before, refused⟩
      · exact .inl (List.forall_mem_cons.mpr ⟨encodable, all⟩)
      · exact .inr ⟨first :: earlier, tracks, others, error, rfl,
          List.forall_mem_cons.mpr ⟨encodable, before⟩, refused⟩
    · exact .inr ⟨[], first, later, error, rfl, nofun, refused⟩

theorem findSome?_eq_head? (channels : List Channel) (merge : Bool) (frames : List (Frame Nat)) :
    Strategy.simple.findSome? (assign? · channels merge frames) =
      (candidateTracks channels merge frames).head? :=
  List.head?_filterMap.symm

end Strategies

/-- What the strategies come to that try the others in turn. Without a candidate all of them fail. Otherwise
one takes the first candidate, and two take the lowest rank, the earliest of several, unless there is a
candidate that cannot be written: then they fail as the first such candidate does. -/
theorem candidates_compared (channels : List Channel) (merge : Bool) (frames : List (Frame Nat)) :
    candidateTracks channels merge frames =
        [.closest, .closestAverage, .firstFitNarrowest, .firstFit].filterMap
          (fun strategy => assign? strategy channels merge frames) ∧
      (candidateTracks channels merge frames = [] →
        ∀ strategy ∈ [Strategy.auto, .smallest, .fewestChannels],
          assignChannels strategy channels merge frames = .error (.unassignable strategy)) ∧
      (∀ first later, candidateTracks channels merge frames = first :: later →
        assignChannels .auto channels merge frames = .ok first) ∧
      (candidateTracks channels merge frames ≠ [] →
        (∀ tracks ∈ candidateTracks channels merge frames, Encodable tracks) →
          (∃ best, assignChannels .smallest channels merge frames = .ok best ∧
            FirstLowest sizeFirst (candidateTracks channels merge frames) best) ∧
          ∃ best, assignChannels .fewestChannels channels merge frames = .ok best ∧
            FirstLowest countFirst (candidateTracks channels merge frames) best) ∧
      ((∃ tracks ∈ candidateTracks channels merge frames, ¬Encodable tracks) →
        ∃ earlier tracks later error,
          candidateTracks channels merge frames = earlier ++ tracks :: later ∧
            (∀ other ∈ earlier, Encodable other) ∧ RefusedWith tracks error ∧
            ∀ strategy ∈ [Strategy.smallest, .fewestChannels],
              assignChannels strategy channels merge frames = .error (.song error)) := by
  refine ⟨rfl, ?_, ?_, ?_, ?_⟩
  · intro none strategy member
    simp only [List.mem_cons, List.not_mem_nil, or_false] at member
    rcases member with rfl | rfl | rfl
    · simp only [assignChannels, findSome?_eq_head?, none, List.head?_nil]
    · simp only [assignChannels, bestTracks?_of_none none]
    · simp only [assignChannels, bestTracks?_of_none none]
  · intro first later split
    simp only [assignChannels, findSome?_eq_head?, split, List.head?_cons]
  · intro some encodable
    obtain ⟨smallest, foundSmallest, leastSize⟩ :=
      smallestRank_ranksBy.bestTracks?_of_encodable some encodable
    obtain ⟨fewest, foundFewest, leastCount⟩ :=
      fewestChannelsRank_ranksBy.bestTracks?_of_encodable some encodable
    refine ⟨⟨smallest, ?_, leastSize⟩, fewest, ?_, leastCount⟩
    · simp only [assignChannels, foundSmallest]
    · simp only [assignChannels, foundFewest]
  · rintro ⟨unwritten, member, fails⟩
    rcases encodable_or_first_refused (candidateTracks channels merge frames) with
      all | ⟨earlier, tracks, later, error, split, before, refused⟩
    · exact (fails (all unwritten member)).elim
    refine ⟨earlier, tracks, later, error, split, before, refused, ?_⟩
    intro strategy member
    simp only [List.mem_cons, List.not_mem_nil, or_false] at member
    rcases member with rfl | rfl
    · simp only [assignChannels, smallestRank_ranksBy.bestTracks?_of_refused split before refused]
    · simp only [assignChannels, fewestChannelsRank_ranksBy.bestTracks?_of_refused split before refused]

set_option maxRecDepth 8192 in
/-- The channels of the smaller microcontroller in the other order. Only the strategy that keeps the wide
channel for the high note finds a channel for both. -/
theorem narrowest_is_only_candidate :
    candidateTracks Target.atmega328p.channels.reverse false [[[24, 70]]] =
        [[{ channel := 0, latest := [⟨.tone 70, 1⟩] }, { channel := 1, latest := [⟨.tone 24, 1⟩] }]] ∧
      assignChannels .auto Target.atmega328p.channels.reverse false [[[24, 70]]] =
        .ok [{ channel := 0, latest := [⟨.tone 70, 1⟩] }, { channel := 1, latest := [⟨.tone 24, 1⟩] }] ∧
      (∃ best, assignChannels .fewestChannels Target.atmega328p.channels.reverse false [[[24, 70]]] =
        .ok best ∧ countFirst best = (2, 18)) ∧
      assignChannels .smallest Target.atmega328p.channels.reverse false [[[24, 70, 24]]] =
        .error (.unassignable .smallest) := by
  have candidates : candidateTracks Target.atmega328p.channels.reverse false [[[24, 70]]] =
      [[{ channel := 0, latest := [⟨.tone 70, 1⟩] }, { channel := 1, latest := [⟨.tone 24, 1⟩] }]] := by
    cbv
  have none : candidateTracks Target.atmega328p.channels.reverse false [[[24, 70, 24]]] = [] := by
    cbv
  obtain ⟨-, -, first, lowest, -⟩ :=
    candidates_compared Target.atmega328p.channels.reverse false [[[24, 70]]]
  obtain ⟨-, fails, -⟩ := candidates_compared Target.atmega328p.channels.reverse false [[[24, 70, 24]]]
  refine ⟨candidates, first _ [] candidates, ?_, fails none _ (by simp)⟩
  have high : TrackDraft.encode { channel := 0, latest := [⟨.tone 70, 1⟩] } =
      .ok [0, 9, 0, 8, 0, 0, 70, 255, 128] := by cbv
  have low : TrackDraft.encode { channel := 1, latest := [⟨.tone 24, 1⟩] } =
      .ok [1, 9, 0, 8, 0, 0, 24, 255, 128] := by cbv
  have encodable : ∀ tracks ∈ candidateTracks Target.atmega328p.channels.reverse false [[[24, 70]]],
      Encodable tracks := by
    rw [candidates, List.forall_mem_singleton]
    exact List.forall_mem_cons.mpr ⟨⟨_, high⟩, List.forall_mem_singleton.mpr ⟨_, low⟩⟩
  obtain ⟨-, best, found, earlier, later, split, -, -⟩ := lowest (by simp [candidates]) encodable
  have only : best ∈ candidateTracks Target.atmega328p.channels.reverse false [[[24, 70]]] := by
    rw [split]
    exact List.mem_append_right _ List.mem_cons_self
  rw [candidates, List.mem_singleton] at only
  refine ⟨best, found, ?_⟩
  rw [only]
  cbv

end Midi

end Buzzer
