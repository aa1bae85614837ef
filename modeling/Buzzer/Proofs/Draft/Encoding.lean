import Buzzer.Draft.Song
import Buzzer.Proofs.Draft.Written
import Buzzer.Proofs.Except

/-!
What writing a draft comes to, check after check. A track is refused or becomes a block. A song is refused
for a channel that comes twice, or else for the track on the lowest channel that is refused, or becomes the
blocks of its tracks.
-/
namespace Buzzer

namespace TrackDraft

def notes (draft : TrackDraft) : List Written := written draft.foldedPause draft.events

def header (draft : TrackDraft) : Header where
  channel := draft.channel
  length := headerLength + (noteBytes draft.notes).length + (durationBytes draft.notes).length
  durationOffset := headerLength + (noteBytes draft.notes).length
  pause := draft.foldedPause - 1

def headerBytes (draft : TrackDraft) : List UInt8 :=
  draft.channel :: wordBytes draft.header.length ++ wordBytes draft.header.durationOffset ++
    [UInt8.ofNat (draft.foldedPause - 1)]

/-- What writing a track comes to, check after check. -/
theorem encode_eq (draft : TrackDraft) :
    draft.encode =
      if draft.channel = songEnd then .error (.channelOutOfRange draft.channel)
      else match checkEvents draft.channel draft.events with
        | .error error => .error error
        | .ok _ =>
          if maxBlock < draft.header.length then .error (.trackTooLong draft.channel)
          else .ok (draft.headerBytes ++ (noteBytes draft.notes ++ durationBytes draft.notes)) := by
  unfold encode
  by_cases ends : draft.channel = songEnd
  · rw [if_pos ends, if_pos ends]
    rfl
  rw [if_neg ends, if_neg ends]
  cases checkEvents draft.channel draft.events with
  | error error => rfl
  | ok _ =>
    by_cases long : maxBlock < draft.header.length
    · simp only [if_pos long]
      exact if_pos long
    · simp only [if_neg long, headerBytes, List.append_assoc, List.cons_append, List.nil_append]
      exact if_neg long

theorem encode_eq_ok {draft : TrackDraft} {block : List UInt8} (encoded : draft.encode = .ok block) :
    draft.channel ≠ songEnd ∧ (∀ event ∈ draft.events, Writable event) ∧
      draft.header.length ≤ maxBlock ∧
      block = draft.headerBytes ++ (noteBytes draft.notes ++ durationBytes draft.notes) := by
  rw [encode_eq] at encoded
  split at encoded
  · cases encoded
  next opens =>
    split at encoded
    · cases encoded
    next checked =>
      split at encoded
      · cases encoded
      next short =>
        cases encoded
        exact ⟨opens, (checkEvents_eq_ok _ _).mp checked, Nat.le_of_not_lt short, rfl⟩

theorem length_of_encode {draft : TrackDraft} {block : List UInt8} (encoded : draft.encode = .ok block) :
    block.length = draft.header.length := by
  obtain ⟨-, -, -, rfl⟩ := encode_eq_ok encoded
  rw [List.length_append, List.length_append, ← Nat.add_assoc]
  rfl

theorem encode_of_writable {draft : TrackDraft} (opens : draft.channel ≠ songEnd)
    (writable : ∀ event ∈ draft.events, Writable event) :
    draft.encode = .error (.trackTooLong draft.channel) ∨ ∃ block, draft.encode = .ok block := by
  have checked := (checkEvents_eq_ok draft.channel draft.events).mpr writable
  rw [encode_eq, if_neg opens, checked]
  by_cases long : maxBlock < draft.header.length
  · exact .inl (if_pos long)
  · exact .inr ⟨_, if_neg long⟩

end TrackDraft

namespace SongDraft

theorem increasing_of_repeated? {channels : List UInt8} (sorted : channels.Pairwise (· ≤ ·))
    (distinct : repeated? channels = none) : channels.Pairwise (· < ·) := by
  induction channels with
  | nil => exact List.Pairwise.nil
  | cons first later ih =>
    cases later with
    | nil => exact List.pairwise_singleton _ _
    | cons second later =>
      rw [repeated?] at distinct
      by_cases same : first = second
      · rw [if_pos same] at distinct
        cases distinct
      · rw [if_neg same] at distinct
        rw [List.pairwise_cons] at sorted
        have increasing := ih sorted.2 distinct
        have below : first < second :=
          UInt8.lt_of_le_of_ne (sorted.1 second List.mem_cons_self) same
        rw [List.pairwise_cons]
        refine ⟨?_, increasing⟩
        intro channel member
        rcases List.mem_cons.mp member with rfl | member
        · exact below
        · exact UInt8.lt_trans below ((List.pairwise_cons.mp increasing).1 channel member)

theorem repeated?_of_nodup {channels : List UInt8} (distinct : channels.Nodup) :
    repeated? channels = none := by
  induction channels with
  | nil => rfl
  | cons first later ih =>
    cases later with
    | nil => rfl
    | cons second later =>
      rw [List.nodup_cons] at distinct
      have different : first ≠ second := fun same => distinct.1 (same ▸ List.mem_cons_self)
      rw [repeated?, if_neg different]
      exact ih distinct.2

theorem sorted_perm (draft : SongDraft) : draft.sorted.Perm draft.tracks := List.mergeSort_perm _ _

theorem sorted_channels (draft : SongDraft) :
    (draft.sorted.map TrackDraft.channel).Pairwise (· ≤ ·) := by
  have ordered : draft.sorted.Pairwise fun first second => decide (first.channel ≤ second.channel) := by
    apply List.pairwise_mergeSort
    · intro first second third below above
      exact decide_eq_true (UInt8.le_trans (of_decide_eq_true below) (of_decide_eq_true above))
    · intro first second
      rw [Bool.or_eq_true, decide_eq_true_iff, decide_eq_true_iff]
      exact UInt8.le_total first.channel second.channel
  rw [List.pairwise_map]
  exact ordered.imp fun below => of_decide_eq_true below

/-- What writing a song comes to, check after check. -/
theorem encode_eq (draft : SongDraft) :
    draft.encode = match repeated? (draft.sorted.map TrackDraft.channel) with
      | some channel => .error (.channelOrder channel)
      | none => (draft.sorted.mapM TrackDraft.encode).map fun blocks =>
          draft.tempo :: blocks.flatten ++ [songEnd] := by
  unfold encode
  cases distinct : repeated? (draft.sorted.map TrackDraft.channel) with
  | some channel =>
    simp only [distinct]
    rfl
  | none =>
    simp only [distinct]
    cases draft.sorted.mapM TrackDraft.encode with
    | error error => rfl
    | ok blocks => rfl

theorem encode_eq_ok {draft : SongDraft} {data : List UInt8} (encoded : draft.encode = .ok data) :
    (draft.sorted.map TrackDraft.channel).Pairwise (· < ·) ∧ ∃ blocks,
      List.Forall₂ (fun track block => track.encode = .ok block) draft.sorted blocks ∧
        data = draft.tempo :: (blocks.flatten ++ [songEnd]) := by
  rw [encode_eq] at encoded
  split at encoded
  · cases encoded
  next distinct =>
    cases written : draft.sorted.mapM TrackDraft.encode with
    | error error =>
      rw [written] at encoded
      cases encoded
    | ok blocks =>
      rw [written] at encoded
      cases encoded
      exact ⟨increasing_of_repeated? (sorted_channels draft) distinct, blocks,
        forall₂_of_mapM written, rfl⟩

/-- In the order of their channels, the tracks before another one are those on lower channels. -/
theorem mem_before_iff {before after : List TrackDraft} {track other : TrackDraft}
    (increasing : ((before ++ track :: after).map TrackDraft.channel).Pairwise (· < ·)) :
    other ∈ before ↔ other ∈ before ++ track :: after ∧ other.channel < track.channel := by
  rw [List.pairwise_map, List.pairwise_append, List.pairwise_cons] at increasing
  obtain ⟨-, ⟨above, -⟩, below⟩ := increasing
  constructor
  · intro among
    exact ⟨List.mem_append_left _ among, below other among track List.mem_cons_self⟩
  · rintro ⟨member, lower⟩
    rcases List.mem_append.mp member with among | member
    · exact among
    · rcases List.mem_cons.mp member with rfl | after
      · exact (UInt8.lt_irrefl _ lower).elim
      · exact (UInt8.lt_asymm lower (above other after)).elim

section Distinct

variable {draft : SongDraft} (distinct : (draft.tracks.map TrackDraft.channel).Nodup)

include distinct

theorem repeated?_sorted : repeated? (draft.sorted.map TrackDraft.channel) = none :=
  repeated?_of_nodup ((draft.sorted_perm.map TrackDraft.channel).nodup_iff.mpr distinct)

theorem sorted_increasing : (draft.sorted.map TrackDraft.channel).Pairwise (· < ·) :=
  increasing_of_repeated? (sorted_channels draft) (repeated?_sorted distinct)

theorem encode_eq_error_iff_mapM (error : SongError) :
    draft.encode = .error error ↔ draft.sorted.mapM TrackDraft.encode = .error error := by
  rw [encode_eq, repeated?_sorted distinct]
  cases draft.sorted.mapM TrackDraft.encode with
  | error failure => simp only [Except.map, Except.error.injEq]
  | ok blocks => simp only [Except.map, reduceCtorEq]

/-- Without a channel that comes twice, what a song is refused for is the refusal of the track on the lowest
channel that is refused. -/
theorem encode_eq_error_of_nodup (error : SongError) :
    draft.encode = .error error ↔ ∃ track ∈ draft.tracks, track.encode = .error error ∧
      ∀ other ∈ draft.tracks, other.channel < track.channel → ∃ block, other.encode = .ok block := by
  have increasing := sorted_increasing distinct
  rw [encode_eq_error_iff_mapM distinct]
  simp only [← draft.sorted_perm.mem_iff]
  constructor
  · intro failed
    obtain ⟨before, track, after, whole, refused, accepted⟩ := exists_of_mapM_eq_error failed
    rw [whole] at increasing ⊢
    refine ⟨track, List.mem_append_right _ List.mem_cons_self, refused, ?_⟩
    intro other member below
    exact accepted other ((mem_before_iff increasing).mpr ⟨member, below⟩)
  · rintro ⟨track, member, refused, accepted⟩
    obtain ⟨before, after, whole⟩ := List.append_of_mem member
    rw [whole] at increasing accepted ⊢
    refine mapM_append_eq_error ?_ refused after
    intro other among
    obtain ⟨present, below⟩ := (mem_before_iff increasing).mp among
    exact accepted other present below

/-- A draft of tracks that can be written, on channels of their own, is refused only if one of them is
too long. -/
theorem encode_of_writable (opens : ∀ track ∈ draft.tracks, track.channel ≠ songEnd)
    (writable : ∀ track ∈ draft.tracks, ∀ event ∈ track.events, TrackDraft.Writable event) :
    (∃ track ∈ draft.tracks, draft.encode = .error (.trackTooLong track.channel)) ∨
      ∃ data, draft.encode = .ok data := by
  cases encoded : draft.encode with
  | ok data => exact .inr ⟨data, rfl⟩
  | error error =>
    obtain ⟨track, member, refused, -⟩ := (encode_eq_error_of_nodup distinct error).mp encoded
    rcases TrackDraft.encode_of_writable (opens track member) (writable track member) with
      long | ⟨block, written⟩
    · rw [refused] at long
      cases long
      exact .inl ⟨track, member, rfl⟩
    · rw [refused] at written
      cases written

end Distinct

end SongDraft

end Buzzer
