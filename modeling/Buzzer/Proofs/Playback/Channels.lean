import Buzzer.Proofs.Playback.Passes
import Buzzer.Proofs.Song.Cutting

/-!
Channels do not depend on each other. What is played on a channel, tick by tick, is up to the bytes of its
own block, whatever the tempo and the other blocks of the song are and wherever the block stands.
-/
namespace Buzzer

/-- Changes in the order of their channels are given by which they are. -/
theorem eq_of_pairwise_channel {first second : List Change}
    (ordered : first.Pairwise (·.channel < ·.channel)) (orderedSecond : second.Pairwise (·.channel < ·.channel))
    (same : ∀ change, change ∈ first ↔ change ∈ second) : first = second := by
  have distinct {changes : List Change} (ordered : changes.Pairwise (·.channel < ·.channel)) :
      changes.Nodup := ordered.imp fun below equal => Nat.ne_of_lt below (congrArg Change.channel equal)
  refine List.Perm.eq_of_pairwise ?_ ordered orderedSecond ?_
  · intro before after _ _ below above
    exact (Nat.lt_asymm below above).elim
  · exact (List.perm_ext_iff_of_nodup (distinct ordered) (distinct orderedSecond)).mpr same

namespace Song

/-- What a listener is told about one channel at a tick of a song that is played on `count` channels. -/
def calls? (song : Song) (count tick channel : Nat) : Option (List Change) := do
  let playback ← Playback.start song count
  let before ← playback.after tick
  let now ← before.tick
  return now.changes.filter (·.channel = channel)

/-- Whether two songs have the same events on a channel and tell a listener the same about it at every
tick, on any number of channels. -/
structure AgreeOn (first second : Song) (channel : UInt8) : Prop where
  events : second.reading channel = first.reading channel
  calls : ∀ count tick, ∃ changes, first.calls? count tick channel.toNat = some changes ∧
    second.calls? count tick channel.toNat = some changes

theorem calls?_of_loaded {bytes : List UInt8} {song : Song} (loaded : ofBytes bytes = .ok song)
    (count tick channel : Nat) :
    ∃ changes, song.calls? count tick channel = some changes ∧
      changes.Pairwise (·.channel < ·.channel) ∧
      ∀ change, change ∈ changes ↔ change.channel = channel ∧ change.channel < count ∧
        ∃ events, song.part? channel = some events ∧ change.Scheduled events tick := by
  obtain ⟨playback, started, onTime⟩ := Playback.start_onTime loaded count
  obtain ⟨before, reached, inTime⟩ := Playback.after_onTime onTime tick
  obtain ⟨now, step, -, -, ordered, told⟩ := Playback.tick_onTime inTime
  refine ⟨now.changes.filter (·.channel = channel), ?_, ?_, ?_⟩
  · simp [calls?, started, reached, step]
  · exact (List.pairwise_map.mp ordered).filter _
  · intro change
    rw [List.mem_filter, told change, decide_eq_true_eq, and_comm]
    constructor
    · rintro ⟨rfl, inside, scheduled⟩
      exact ⟨rfl, inside, scheduled⟩
    · rintro ⟨rfl, inside, scheduled⟩
      exact ⟨rfl, inside, scheduled⟩

section Agree

variable {bytes others : List UInt8} {song other : Song} {channel : UInt8}

theorem part?_congr (present : channel ∈ other.channels ↔ channel ∈ song.channels)
    (reads : other.reading channel = song.reading channel) :
    other.part? channel.toNat = song.part? channel.toNat := by
  by_cases here : channel ∈ song.channels
  · rw [part?_of_mem here, part?_of_mem (present.mpr here), reads]
  · have absent (first : Song) (missing : channel ∉ first.channels) :
        first.part? channel.toNat = none := by
      apply part?_of_not_mem
      intro found member same
      exact missing (UInt8.toNat_inj.mp same ▸ member)
    rw [absent song here, absent other (mt present.mp here)]

/-- Songs agree on a channel that both have or neither has, if they have the same events on it. -/
theorem agreeOn_of_reading (loaded : ofBytes bytes = .ok song) (loadedOther : ofBytes others = .ok other)
    (present : channel ∈ other.channels ↔ channel ∈ song.channels)
    (reads : other.reading channel = song.reading channel) : song.AgreeOn other channel := by
  refine ⟨reads, ?_⟩
  intro count tick
  obtain ⟨changes, calls, ordered, told⟩ := calls?_of_loaded loaded count tick channel.toNat
  obtain ⟨twins, callsOther, orderedOther, toldOther⟩ :=
    calls?_of_loaded loadedOther count tick channel.toNat
  rw [part?_congr present reads] at toldOther
  have same := eq_of_pairwise_channel ordered orderedOther fun change =>
    (told change).trans (toldOther change).symm
  exact ⟨changes, calls, same ▸ callsOther⟩

/-- Blocks of the same bytes are played the same. -/
theorem agreeOn_of_own (loaded : ofBytes bytes = .ok song) (loadedOther : ofBytes others = .ok other)
    {block twin : Block} (member : block ∈ song.blocks) (among : twin ∈ other.blocks)
    (same : twin.own = block.own) :
    twin.channel = block.channel ∧ song.AgreeOn other block.channel := by
  obtain ⟨channels, reads⟩ := reading_of_own loaded loadedOther member among same
  refine ⟨channels, agreeOn_of_reading loaded loadedOther ?_ reads⟩
  exact iff_of_true (List.mem_map.mpr ⟨twin, among, channels⟩) (List.mem_map_of_mem member)

end Agree

/-- A song without one of its blocks is loaded as well and is the same on every other channel. Songs that
have a block of the same bytes are the same on its channel. -/
theorem channels_independent {bytes : List UInt8} {song : Song} (loaded : ofBytes bytes = .ok song) :
    (∀ block ∈ song.blocks, ∃ cut, ofBytes (without bytes block) = .ok cut ∧
      cut.channels = song.channels.filter (· ≠ block.channel) ∧
      ∀ channel ≠ block.channel, song.AgreeOn cut channel) ∧
    ∀ others other, ofBytes others = .ok other → ∀ block ∈ song.blocks, ∀ twin ∈ other.blocks,
      twin.own = block.own → twin.channel = block.channel ∧ song.AgreeOn other block.channel := by
  constructor
  · intro block member
    obtain ⟨loadedCut, contents⟩ := ofBytes_without loaded member
    have channels : (⟨without bytes block⟩ : Song).channels =
        song.channels.filter (· ≠ block.channel) := by
      have firsts := congrArg (List.map Prod.fst) contents
      rw [List.map_map, List.map_map] at firsts
      rw [channels, channels, List.filter_map]
      exact firsts
    refine ⟨_, loadedCut, channels, ?_⟩
    intro channel different
    by_cases present : channel ∈ song.channels
    · obtain ⟨other, among, rfl⟩ := List.mem_map.mp present
      have kept : other.content ∈ (⟨without bytes block⟩ : Song).blocks.map Block.content := by
        rw [contents]
        exact List.mem_map_of_mem (List.mem_filter.mpr ⟨among, by simpa using different⟩)
      obtain ⟨twin, found, same⟩ := List.mem_map.mp kept
      exact (agreeOn_of_own loaded loadedCut among found (congrArg Prod.snd same)).2
    · have missing : channel ∉ (⟨without bytes block⟩ : Song).channels := by
        rw [channels]
        exact fun found => present (List.mem_filter.mp found).1
      apply agreeOn_of_reading loaded loadedCut (iff_of_false missing present)
      rw [reading_of_not_mem missing, reading_of_not_mem present]
  · intro others other loadedOther block member twin among same
    exact agreeOn_of_own loaded loadedOther member among same

/-- The second track of the two, with another tempo and nothing else. -/
def secondTrack : List UInt8 := [0x80, 0x02, 0x09, 0x00, 0x08, 0x00, 0x01, 0x71, 0xff, 0x00]

theorem twoTracks_without_first :
    (∃ cut, ofBytes [0x10, 0x02, 0x09, 0x00, 0x08, 0x00, 0x01, 0x71, 0xff, 0x00, 0xff] = .ok cut ∧
      cut.channels = [2] ∧ (⟨twoTracks⟩ : Song).AgreeOn cut 2) ∧
    (⟨twoTracks⟩ : Song).AgreeOn ⟨secondTrack⟩ 2 := by
  have blocks : (⟨twoTracks⟩ : Song).blocks =
      [⟨1, 1, twoTracks.drop 1⟩, ⟨2, 10, twoTracks.drop 10⟩] := by cbv
  have block : (⟨secondTrack⟩ : Song).blocks = [⟨2, 1, secondTrack.drop 1⟩] := by cbv
  obtain ⟨cuts, same⟩ := channels_independent ofBytes_twoTracks
  constructor
  · obtain ⟨cut, loaded, channels, agree⟩ := cuts ⟨1, 1, twoTracks.drop 1⟩ (by simp [blocks])
    refine ⟨cut, loaded, ?_, agree 2 (by decide)⟩
    rw [channels, Song.channels, blocks]
    decide
  · have loaded : ofBytes secondTrack = .ok ⟨secondTrack⟩ := by cbv
    exact (same _ _ loaded ⟨2, 10, twoTracks.drop 10⟩ (by simp [blocks]) ⟨2, 1, secondTrack.drop 1⟩
      (by simp [block]) (by decide)).2

end Song

end Buzzer
