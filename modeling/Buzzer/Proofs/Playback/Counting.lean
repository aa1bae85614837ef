import Mathlib.Data.UInt
import Buzzer.Command.Listing
import Buzzer.Proofs.Playback.Longest

/-!
Ticks that are counted in words of 32 bits, for the length of a song and for the list of its events. A count
of checked additions comes to the exact sum whenever the sum is a word, and those of a loaded song are.
-/
namespace Buzzer

namespace Event

/-- A count of ticks after one more event, unless the word overflows. -/
def countOn? (count : UInt32) (event : Event) : Option UInt32 :=
  if count.toNat + event.ticks < UInt32.size then some (count + .ofNat event.ticks) else none

/-- The length of consecutive events, added up in a word. -/
def wordTotal? (events : List Event) : Option UInt32 := events.foldlM countOn? 0

end Event

/-- The length of the longest track, computed in words. -/
def Song.wordTicks? (song : Song) : Option UInt32 := do
  let totals ← song.channels.mapM fun channel => Event.wordTotal? (song.reading channel).events
  return totals.foldl max 0

namespace Command

/-- The lines of a track whose ticks are counted in a word. -/
def wordLines? (tick : UInt32) : List Event → Option (List String)
  | [] => some []
  | event :: later => do
    let next ← event.countOn? tick
    let lines ← wordLines? next later
    return s!"  {alignRight 6 (toString tick)}  {alignLeft 4 event.note.name} {event.ticks}" :: lines

/-- The lines of a song whose ticks are counted in words. -/
def wordSongLines? (song : Song) : Option (List String) := do
  let tempo := song.tempo?.getD 0
  let ticks ← song.wordTicks?
  let tracks ← song.channels.mapM fun channel => do
    let lines ← wordLines? 0 (song.reading channel).events
    return s!"channel {channel}" :: lines
  return s!"tempo {tempo} ({bpmText song} BPM), {ticks} ticks" :: tracks.flatten

end Command

namespace Event

section Words

variable {count sum : UInt32} {event : Event} {events : List Event}

theorem countOn?_of_fits (fits : count.toNat + event.ticks < UInt32.size) :
    ∃ next, event.countOn? count = some next ∧ next.toNat = count.toNat + event.ticks := by
  have small : event.ticks < UInt32.size := Nat.lt_of_le_of_lt (Nat.le_add_left _ _) fits
  refine ⟨count + .ofNat event.ticks, ?_, ?_⟩
  · rw [countOn?, if_pos fits]
  · rw [UInt32.toNat_add, UInt32.toNat_ofNat_of_lt' small]
    exact Nat.mod_eq_of_lt fits

theorem countOn?_eq_some_iff : event.countOn? count = some sum ↔ sum.toNat = count.toNat + event.ticks := by
  by_cases fits : count.toNat + event.ticks < UInt32.size
  · obtain ⟨next, counted, exact⟩ := countOn?_of_fits fits
    rw [counted, Option.some.injEq, ← exact, UInt32.toNat_inj, eq_comm]
  · rw [countOn?, if_neg fits]
    refine iff_of_false (Option.some_ne_none sum).symm ?_
    intro same
    exact fits (same ▸ sum.toNat_lt_size)

/-- A count succeeds exactly if the whole sum is a word, and then comes to that sum. -/
theorem foldlM_countOn?_eq_some_iff :
    events.foldlM countOn? count = some sum ↔ sum.toNat = count.toNat + total events := by
  induction events generalizing count with
  | nil =>
    rw [List.foldlM_nil, Option.pure_def, Option.some.injEq, total, Nat.add_zero, eq_comm]
    exact UInt32.toNat_inj.symm
  | cons event later ih =>
    rw [List.foldlM_cons, Option.bind_eq_bind, Option.bind_eq_some_iff, total, ← Nat.add_assoc]
    constructor
    · rintro ⟨next, counted, rest⟩
      rw [← countOn?_eq_some_iff.mp counted]
      exact ih.mp rest
    · intro whole
      have fits : count.toNat + event.ticks < UInt32.size :=
        Nat.lt_of_le_of_lt (Nat.le_add_right _ (total later)) (whole ▸ sum.toNat_lt_size)
      obtain ⟨next, counted, exact⟩ := countOn?_of_fits fits
      rw [← exact] at whole
      exact ⟨next, counted, ih.mpr whole⟩

theorem wordTotal?_eq_some_iff : wordTotal? events = some sum ↔ sum.toNat = total events := by
  rw [wordTotal?, foldlM_countOn?_eq_some_iff, UInt32.toNat_zero, Nat.zero_add]

end Words

end Event

theorem Command.wordLines?_of_fits {events : List Event} {tick : UInt32}
    (fits : tick.toNat + Event.total events < UInt32.size) :
    wordLines? tick events = some (eventLines tick.toNat events) := by
  induction events generalizing tick with
  | nil => rfl
  | cons event later ih =>
    rw [Event.total, ← Nat.add_assoc] at fits
    obtain ⟨next, counted, exact⟩ := Event.countOn?_of_fits (Nat.lt_of_le_of_lt (Nat.le_add_right _ _) fits)
    rw [← exact] at fits
    rw [wordLines?, counted, Option.bind_eq_bind, Option.bind_some, ih fits, exact]
    rfl

theorem toNat_foldl_max (words : List UInt32) (start : UInt32) :
    (words.foldl max start).toNat = (words.map UInt32.toNat).foldl max start.toNat := by
  rw [List.foldl_map]
  exact (List.foldl_hom UInt32.toNat fun word other => (UInt32.toNat_max word other).symm).symm

namespace Song

variable {song : Song}

/-- No track of a song lasts for longer than the song, and one of them lasts for as long. -/
theorem durationTicks_longest (song : Song) :
    (∀ channel, Event.total (song.reading channel).events ≤ song.durationTicks) ∧
      (song.channels = [] ∧ song.durationTicks = 0 ∨
        ∃ channel ∈ song.channels, Event.total (song.reading channel).events = song.durationTicks) := by
  rw [durationTicks_eq]
  constructor
  · intro channel
    by_cases present : channel ∈ song.channels
    · exact le_foldl_max (List.mem_map_of_mem present)
    · rw [reading_of_not_mem present]
      exact Nat.zero_le _
  · by_cases empty : song.channels = []
    · exact .inl ⟨empty, by rw [empty]; rfl⟩
    · right
      exact List.mem_map.mp (foldl_max_mem fun none => empty (List.map_eq_nil_iff.mp none))

section Fits

variable (fits : ∀ channel, Event.total (song.reading channel).events < UInt32.size)

include fits

theorem wordTicks?_of_fits :
    ∃ ticks, song.wordTicks? = some ticks ∧ ticks.toNat = song.durationTicks := by
  have exact (channel : UInt8) : (UInt32.ofNat (Event.total (song.reading channel).events)).toNat =
      Event.total (song.reading channel).events := UInt32.toNat_ofNat_of_lt' (fits channel)
  have words : (fun channel => Event.wordTotal? (song.reading channel).events) =
      fun channel => pure (UInt32.ofNat (Event.total (song.reading channel).events)) := by
    funext channel
    exact Event.wordTotal?_eq_some_iff.mpr (exact channel)
  have counted : song.wordTicks? =
      some ((song.channels.map fun channel =>
        UInt32.ofNat (Event.total (song.reading channel).events)).foldl max 0) := by
    rw [wordTicks?, words, List.mapM_pure]
    rfl
  refine ⟨_, counted, ?_⟩
  rw [toNat_foldl_max, List.map_map, durationTicks_eq]
  simp only [Function.comp_def, exact]
  rfl

theorem wordSongLines?_of_fits : Command.wordSongLines? song = some (Command.songLines song) := by
  obtain ⟨ticks, counted, same⟩ := wordTicks?_of_fits fits
  have tracks : (fun channel => do
      let lines ← Command.wordLines? 0 (song.reading channel).events
      return s!"channel {channel}" :: lines) =
      fun channel => pure (s!"channel {channel}" :: Command.eventLines 0 (song.reading channel).events) := by
    funext channel
    have short : (0 : UInt32).toNat + Event.total (song.reading channel).events < UInt32.size := by
      rw [UInt32.toNat_zero, Nat.zero_add]
      exact fits channel
    rw [Command.wordLines?_of_fits short]
    rfl
  rw [Command.wordSongLines?, counted, tracks, List.mapM_pure, Command.songLines, List.flatMap_def, ← same]
  rfl

end Fits

variable {bytes : List UInt8}

/-- The ticks of a loaded song are counted in words without an overflow. The events of a track are those
that the bytes of its notes stand for, of which a block has too few to last for longer than a word counts.
So the words tell the length of every track, that of the longest, and when each event starts. -/
theorem words_count_ticks (loaded : ofBytes bytes = .ok song) :
    (∀ block ∈ song.blocks, ∃ header parts, Header.read? block.bytes = some header ∧
      (Format.playable (Format.notesOf header block.bytes)).length ≤ 65528 ∧
      List.Forall₂ (Format.Plays (header.pause + 1)) (Format.playable (Format.notesOf header block.bytes))
        parts ∧
      parts.flatten = (song.reading block.channel).events ∧
      ∀ part ∈ parts, Event.total part ≤ 0x4000 + 256) ∧
    (∀ channel, ∃ sum, Event.wordTotal? (song.reading channel).events = some sum ∧
      sum.toNat = Event.total (song.reading channel).events) ∧
    (∃ ticks, song.wordTicks? = some ticks ∧ ticks.toNat = song.durationTicks) ∧
    Command.wordSongLines? song = some (Command.songLines song) ∧
    (∀ channel, Event.total (song.reading channel).events ≤ song.durationTicks) ∧
    (song.channels = [] ∧ song.durationTicks = 0 ∨
      ∃ channel ∈ song.channels, Event.total (song.reading channel).events = song.durationTicks) := by
  have fits (channel : UInt8) : Event.total (song.reading channel).events < UInt32.size :=
    Nat.lt_of_le_of_lt (total_le_of_loaded loaded channel) (by decide)
  refine ⟨fun block member => parts_of_loaded loaded member, ?_, wordTicks?_of_fits fits,
    wordSongLines?_of_fits fits, durationTicks_longest song⟩
  intro channel
  have exact := UInt32.toNat_ofNat_of_lt' (fits channel)
  exact ⟨_, Event.wordTotal?_eq_some_iff.mpr exact, exact⟩

theorem everyEntry_in_words :
    (⟨everyEntry⟩ : Song).wordTicks? = some 277 ∧
      Command.wordSongLines? ⟨everyEntry⟩ = some (Command.songLines ⟨everyEntry⟩) := by
  have loaded : ofBytes everyEntry = .ok ⟨everyEntry⟩ := by cbv
  have ticks : (⟨everyEntry⟩ : Song).durationTicks = 277 := by cbv
  obtain ⟨-, -, ⟨words, counted, same⟩, lines, -⟩ := words_count_ticks loaded
  rw [ticks] at same
  rw [counted, UInt32.toNat_inj.mp (same.trans (by decide : 277 = (277 : UInt32).toNat))]
  exact ⟨rfl, lines⟩

end Song

end Buzzer
