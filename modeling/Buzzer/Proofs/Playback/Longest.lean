import Buzzer.Proofs.Playback.Passes
import Buzzer.Proofs.Song.Playable

/-!
How long a song can be. The length of a block is a word, and each byte of its notes stands for a pause or for
a note and the block's pause at most. So a track of a loaded song has a bound, however many bytes the song
has.
-/
namespace Buzzer

theorem word_le (low high : UInt8) : word low high ≤ 0xffff := by
  have first := low.toNat_lt
  have second := high.toNat_lt
  rw [word]
  omega

theorem Event.total_flatten_le {parts : List (List Event)} {most : Nat}
    (short : ∀ part ∈ parts, total part ≤ most) : total parts.flatten ≤ parts.length * most := by
  induction parts with
  | nil => exact Nat.zero_le _
  | cons part later ih =>
    obtain ⟨here, others⟩ := List.forall_mem_cons.mp short
    rw [List.flatten_cons, total_append, List.length_cons, Nat.succ_mul, Nat.add_comm]
    exact Nat.add_le_add (ih others) here

namespace Format

/-- The events that a byte of a note array stands for in a block with a pause. -/
inductive Plays (pause : Nat) (byte : UInt8) : List Event → Prop where
  | inline (high : 0xaa ≤ byte.toNat) : Plays pause byte [⟨.rest, byte.toNat - 0xa9⟩]
  | alone (ticks : Nat) (low : byte.toNat < 0x55) : Plays pause byte [⟨noteOf byte.toNat, ticks⟩]
  | pausing (ticks : Nat) (notLow : 0x55 ≤ byte.toNat) (notHigh : byte.toNat < 0xaa) :
      Plays pause byte [⟨noteOf byte.toNat, ticks⟩, ⟨.rest, pause⟩]

/-- The bytes of a note array up to the one that ends it. -/
def playable (notes : List UInt8) : List UInt8 := notes.takeWhile fun byte => byte.toNat ≠ 0xff

/-- The note array of the block that `rest` starts with. -/
def notesOf (header : Header) (rest : List UInt8) : List UInt8 :=
  ((rest.take header.length).take header.durationOffset).drop headerLength

section Parts

variable {pause : Nat}

theorem Plays.total_le {byte : UInt8} {part : List Event} (plays : Plays pause byte part)
    (short : ∀ event ∈ part, event.ticks ≤ maxDuration) (brief : pause ≤ 0x100) :
    Event.total part ≤ maxDuration + 0x100 := by
  cases plays with
  | inline _ | alone _ _ =>
    rw [Event.total, Event.total, Nat.add_zero]
    exact Nat.le_add_right_of_le (short _ List.mem_cons_self)
  | pausing _ _ _ =>
    rw [Event.total, Event.total, Event.total, Nat.add_zero]
    exact Nat.add_le_add (short _ List.mem_cons_self) brief

theorem total_le_of_plays {bytes : List UInt8} {parts : List (List Event)}
    (plays : List.Forall₂ (Plays pause) bytes parts)
    (short : ∀ event ∈ parts.flatten, event.ticks ≤ maxDuration) (brief : pause ≤ 0x100) :
    ∀ part ∈ parts, Event.total part ≤ maxDuration + 0x100 := by
  induction plays with
  | nil => exact List.forall_mem_nil _
  | cons here _ ih =>
    rw [List.flatten_cons, List.forall_mem_append] at short
    exact List.forall_mem_cons.mpr ⟨here.total_le short.1 brief, ih short.2⟩

/-- A track is what its playable bytes stand for, one after the other. One more byte ends it. -/
theorem parts_of_events? {notes : List UInt8} {durations : List Nat} {events : List Event}
    (read : events? pause notes durations = some events) :
    (playable notes).length < notes.length ∧
      ∃ parts, List.Forall₂ (Plays pause) (playable notes) parts ∧ parts.flatten = events := by
  induction notes generalizing durations events with
  | nil => cases read
  | cons byte notes ih =>
    unfold events? at read
    simp only at read
    rw [playable, List.length_cons]
    split at read
    next stops =>
      cases read
      rw [List.takeWhile_cons_of_neg (by simpa using stops)]
      exact ⟨Nat.succ_pos _, [], .nil, rfl⟩
    next goesOn =>
      rw [List.takeWhile_cons_of_pos (by simpa using goesOn), List.length_cons]
      split at read
      next high =>
        obtain ⟨later, found, rfl⟩ := Option.map_eq_some_iff.mp read
        obtain ⟨fewer, parts, plays, rfl⟩ := ih found
        exact ⟨Nat.succ_lt_succ fewer, _ :: parts, .cons (.inline high) plays, rfl⟩
      next notHigh =>
        split at read
        · cases read
        next ticks _ =>
          obtain ⟨later, found, rfl⟩ := Option.map_eq_some_iff.mp read
          obtain ⟨fewer, parts, plays, rfl⟩ := ih found
          refine ⟨Nat.succ_lt_succ fewer, _ :: parts, .cons ?_ plays, List.flatten_cons⟩
          split
          next low => exact .alone ticks low
          next notLow => exact .pausing ticks (Nat.le_of_not_lt notLow) (Nat.lt_of_not_le notHigh)

end Parts

end Format

namespace Song

variable {bytes : List UInt8} {song : Song}

/-- What the playable bytes of a block stand for. A header and the byte that ends the track are in the
block beside them. -/
theorem parts_of_loaded (loaded : ofBytes bytes = .ok song) {block : Block} (member : block ∈ song.blocks) :
    ∃ header parts, Header.read? block.bytes = some header ∧
      (Format.playable (Format.notesOf header block.bytes)).length ≤ 65528 ∧
      List.Forall₂ (Format.Plays (header.pause + 1)) (Format.playable (Format.notesOf header block.bytes))
        parts ∧
      parts.flatten = (song.reading block.channel).events ∧
      ∀ part ∈ parts, Event.total part ≤ maxDuration + 0x100 := by
  obtain ⟨header, read, meaning⟩ := events_eq_format loaded block member
  obtain ⟨low, high, _, _, pause, _, -, fields⟩ := Header.read?_eq_some read
  obtain ⟨fewer, parts, plays, whole⟩ :=
    @Format.parts_of_events? _ (Format.notesOf header block.bytes) _ _ meaning
  have length : header.length ≤ 0xffff := by
    rw [fields]
    exact word_le low high
  have brief : header.pause + 1 ≤ 0x100 := by
    rw [fields]
    exact pause.toNat_lt
  have array : (Format.notesOf header block.bytes).length ≤ header.length - headerLength := by
    rw [Format.notesOf, List.length_drop, List.length_take, List.length_take]
    omega
  refine ⟨header, parts, read, ?_, plays, whole, Format.total_le_of_plays plays ?_ brief⟩
  · rw [headerLength] at array
    exact Nat.le_of_lt_succ (Nat.lt_of_lt_of_le fewer (by omega))
  · rw [whole]
    exact fun event among => (song.playable_of_reading _ event among).most

theorem total_le_of_loaded (loaded : ofBytes bytes = .ok song) (channel : UInt8) :
    Event.total (song.reading channel).events ≤ 65528 * (maxDuration + 0x100) := by
  by_cases present : channel ∈ song.channels
  · obtain ⟨block, member, rfl⟩ := List.mem_map.mp present
    obtain ⟨header, parts, -, few, plays, whole, short⟩ := parts_of_loaded loaded member
    calc Event.total (song.reading block.channel).events
        = Event.total parts.flatten := by rw [whole]
      _ ≤ parts.length * (maxDuration + 0x100) := Event.total_flatten_le short
      _ ≤ 65528 * (maxDuration + 0x100) := Nat.mul_le_mul_right _ (plays.length_eq ▸ few)
  · rw [reading_of_not_mem present]
    exact Nat.zero_le _

/-- The longest track of a loaded song lasts for less than 2³¹ ticks. -/
theorem passTicks_lt (loaded : ofBytes bytes = .ok song) (count : Nat) : song.passTicks count < 2 ^ 31 := by
  have parts : ∀ channel, partTicks (song.part? channel) ≤ 65528 * (maxDuration + 0x100) + 1 := by
    intro channel
    cases part : song.part? channel with
    | none => exact Nat.zero_le _
    | some events =>
      obtain ⟨byte, -, rfl⟩ := Option.map_eq_some_iff.mp part
      exact Nat.succ_le_succ (total_le_of_loaded loaded byte)
  have most : song.passTicks count ≤ 65528 * (maxDuration + 0x100) + 1 := by
    rw [passTicks, List.foldl_eq_foldr]
    apply List.max_le_of_forall_le
    intro ticks member
    obtain ⟨channel, -, rfl⟩ := List.mem_map.mp member
    exact parts channel
  exact Nat.lt_of_le_of_lt most (by decide)

end Song

end Buzzer
