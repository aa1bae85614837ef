import Buzzer.Error
import Buzzer.Song.Basic

/-!
Checking a song once, when it is loaded, so that playing it never needs a byte past its end.
-/
namespace Buzzer

namespace Song

/-- Follows a note array and its duration array without decoding them. The note array has to end,
and every note that takes a duration has to find one; `repeats` notes still reuse the last one. -/
def checkTrack (channel : UInt8) (repeats : Nat) (notes durations : List UInt8) :
    Except SongError Unit :=
  match notes with
  | [] => .error (.missingTrackEnd channel)
  | note :: notes =>
    if note.toNat = NoteCode.stopByte then .ok ()
    else if NoteCode.pauseBase ≤ note.toNat then checkTrack channel repeats notes durations
    else if 0 < repeats then checkTrack channel (repeats - 1) notes durations
    else
      match durations with
      | [] => .error (.durationOverrun channel)
      | duration :: durations =>
        if longBase ≤ duration.toNat then
          match durations with
          | [] => .error (.durationOverrun channel)
          | _ :: durations => checkTrack channel 0 notes durations
        else if repeatBase ≤ duration.toNat then
          checkTrack channel (duration.toNat - repeatBase) notes durations
        else checkTrack channel 0 notes durations

/-- Checks a block on its own, where `rest` is the song from its header on. -/
def checkBlock (previous : Option UInt8) (offset : Nat) (channel : UInt8) (rest : List UInt8) :
    Except SongError Header :=
  if previous.any (channel ≤ ·) then .error (.channelOrder channel)
  else
    match Header.read? rest with
    | none => .error (.truncated offset)
    | some header =>
      if rest.length < header.length ∨ header.length ≤ headerLength then
        .error (.trackLength channel)
      else if header.durationOffset ≤ headerLength ∨ header.length < header.durationOffset then
        .error (.durationOffset channel)
      else
        let block := rest.take header.length
        let notes := (block.take header.durationOffset).drop headerLength
        (checkTrack channel 0 notes (block.drop header.durationOffset)).map fun _ => header

theorem headerLength_lt_of_checkBlock {previous : Option UInt8} {offset : Nat} {channel : UInt8}
    {rest : List UInt8} {header : Header}
    (checked : checkBlock previous offset channel rest = .ok header) :
    headerLength < header.length := by
  unfold checkBlock at checked
  split at checked
  · cases checked
  split at checked
  · cases checked
  next read _ =>
    split at checked
    · cases checked
    next fits =>
      split at checked
      · cases checked
      · simp only at checked
        cases track : checkTrack channel 0 ((List.take read.durationOffset
            (List.take read.length rest)).drop headerLength)
            ((List.take read.length rest).drop read.durationOffset) with
        | error _ => simp [track, Except.map] at checked
        | ok _ =>
          simp only [track, Except.map, Except.ok.injEq] at checked
          subst checked
          omega

/-- Checks the blocks from `offset` on. Channels have to increase. -/
def checkBlocks (previous : Option UInt8) (offset : Nat) (rest : List UInt8) :
    Except SongError Unit :=
  match _here : rest with
  | [] => .ok ()
  | channel :: _ =>
    if channel = songEnd then .ok ()
    else
      match _checked : checkBlock previous offset channel rest with
      | .error error => .error error
      | .ok header => checkBlocks (some channel) (offset + header.length) (rest.drop header.length)
termination_by rest.length
decreasing_by
  have := headerLength_lt_of_checkBlock _checked
  simp only [_here, List.length_drop, List.length_cons]
  omega

/-- Loads a song, checking every track block. -/
def ofBytes (bytes : List UInt8) : Except SongError Song :=
  if bytes.isEmpty then .error .empty
  else (checkBlocks none 1 (bytes.drop 1)).map fun _ => ⟨bytes⟩

end Song

end Buzzer
