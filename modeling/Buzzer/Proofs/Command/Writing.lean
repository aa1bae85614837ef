import Buzzer.Command.Run
import Buzzer.Proofs.Command.ArrayText
import Buzzer.Proofs.Command.Making
import Buzzer.Proofs.Command.Riff
import Buzzer.Proofs.Device.Levels
import Buzzer.Proofs.Midi.Arranging
import Buzzer.Proofs.Simulation.Length

/-!
What the commands that write leave in the files. They make their file after everything that can go wrong. Only
the samples of a recording are taken when there is already a file, and taking them never fails for a song that
has been loaded and a table of levels that has the right size, nor does adding them to the file, if the library
for that does what is known of it. So a run that fails leaves all files as they were, and a run that does not
fail leaves one file more, or another one in the place of the old.
-/
namespace Buzzer

namespace Command

/-! Commands at work. -/

/-- What the rest of a command comes to: a failure, if it may fail, with no file made, or a success with
those made that it is to make. -/
def Ends (work : Work String) (made : Made) (mayFail : Prop) (good : Made → Prop) : Prop :=
  match work.run.run made with
  | (.error _, left) => mayFail ∧ left = []
  | (.ok _, left) => good left

section Ends

variable {α : Type} {mayFail : Prop} {good : Made → Prop} {files : Files} {path : String}
  {bytes : List UInt8}

/-- As long as no file has been made, anything may fail. -/
theorem ends_ask {answer : Except CommandError α} {rest : α → Work String}
    (later : ∀ value, answer = .ok value → Ends (rest value) [] True good) :
    Ends (liftM answer >>= rest) [] True good := by
  cases answer with
  | error error => exact ⟨trivial, rfl⟩
  | ok value => exact later value rfl

theorem ends_sure {answer : Except CommandError α} {rest : α → Work String} {made : Made} {value : α}
    (sure : answer = .ok value) (later : Ends (rest value) made mayFail good) :
    Ends (liftM answer >>= rest) made mayFail good := by
  rw [sure]
  exact later

theorem ends_create {rest : Unit → Work String}
    (later : files.checkMake path = .ok () → Ends (rest ()) [(path, [])] True good) :
    Ends (create files path >>= rest) [] True good := by
  rw [create, bind_assoc]
  exact ends_ask fun _ asked => later (mapError_eq_ok.mp asked)

theorem ends_create_sure {rest : Unit → Work String} (sure : files.checkMake path = .ok ())
    (later : Ends (rest ()) [(path, [])] mayFail good) :
    Ends (create files path >>= rest) [] mayFail good := by
  rw [create, bind_assoc]
  exact ends_sure (mapError_eq_ok.mpr sure) later

theorem ends_write {rest : Unit → Work String} {old : List UInt8}
    (later : Ends (rest ()) [(path, bytes)] mayFail good) :
    Ends (write path bytes >>= rest) [(path, old)] mayFail good := by
  have replaced : [(path, old)].filter (·.1 ≠ path) = [] :=
    List.filter_cons_of_neg (Bool.not_eq_true _ ▸ decide_eq_false (not_not_intro rfl))
  change Ends (rest ()) ((path, bytes) :: [(path, old)].filter (·.1 ≠ path)) mayFail good
  rw [replaced]
  exact later

theorem ends_done {text : String} {made : Made} (reached : good made) :
    Ends (pure text) made mayFail good := reached

/-- A command that is sure to succeed under some condition fails only without it. -/
theorem exists_of_ends [FloatLibrary] [Midi.Reader] [Wave.Writer] {name : String}
    {command : List String → Files → Work String}
    (named : named? name = some command) {arguments : List String} {ready : Prop}
    (ends : Ends (command arguments files) [] True good)
    (sure : ready → Ends (command arguments files) [] False fun _ => True) :
    ∃ outcome, run? name arguments files = some outcome ∧
      (outcome.code ≠ 0 ∧ outcome.made = [] ∧ ¬ready ∨ outcome.code = 0 ∧ good outcome.made) := by
  refine ⟨.ofResult ((command arguments files).run.run []), congrArg (Option.map _) named, ?_⟩
  unfold Ends at ends sure
  split at ends
  next failed =>
    rw [failed] at sure ⊢
    exact .inl ⟨Nat.one_ne_zero, ends.2, fun isReady => (sure isReady).1⟩
  next succeeded =>
    rw [succeeded]
    exact .inr ⟨rfl, ends⟩

end Ends

section Commands

variable {arguments : List String} {files : Files}

theorem argument_eq_ok {position : Nat} {name usage value : String} :
    argument arguments position name usage = .ok value ↔ arguments[position]? = some value := by
  unfold argument
  cases arguments[position]? with
  | none => simp only [reduceCtorEq]
  | some found => simp only [Except.ok.injEq, Option.some.injEq]

theorem named?_of_target {name : Option String} {chosen : Target} (found : target name = .ok chosen) :
    ∃ name, Target.named? name = some chosen := by
  unfold target at found
  split at found
  next => exact ⟨"atmega3208", congrArg some (Except.ok.inj found)⟩
  next name =>
    split at found
    next named => exact ⟨name, named.trans (congrArg some (Except.ok.inj found))⟩
    next => cases found

theorem levels_of_named? {name : String} {chosen : Target} (named : Target.named? name = some chosen) :
    chosen.checkLevels = .ok () ∧ chosen.levels.size = 4 <<< chosen.channels.length := by
  unfold Target.named? at named
  split at named
  · cases named
    decide
  · cases named
    decide
  · cases named

/-! Arrangements. -/

section Arrangements

variable [FloatLibrary] [Midi.Reader]

/-- Whether bytes are the song that the MIDI file among some arguments is arranged as, and the target among
them takes that song. -/
def IsArranged (arguments : List String) (files : Files) (bytes : List UInt8) : Prop :=
  ∃ source midi strategy target draft song,
    arguments[0]? = some source ∧ files.read source = .ok midi ∧
    Command.strategy arguments[3]? = .ok strategy ∧ Command.target arguments[2]? = .ok target ∧
    Midi.Arranger.arrange { Midi.Arranger.ofTarget target with strategy } midi = .ok draft ∧
    draft.encode = .ok bytes ∧ Song.ofBytes bytes = .ok song ∧ target.check song = .ok ()

/-- No two songs are what the same arguments come to. -/
theorem IsArranged.unique {bytes others : List UInt8} (arranged : IsArranged arguments files bytes)
    (again : IsArranged arguments files others) : bytes = others := by
  obtain ⟨source, midi, strategy, target, draft, song, isSource, isRead, chosen, found, drafted, encoded, -⟩ :=
    arranged
  obtain ⟨source, midi, strategy, target, draft, song, isSource', isRead', chosen', found', drafted', encoded',
    -⟩ := again
  cases isSource.symm.trans isSource'
  cases isRead.symm.trans isRead'
  cases chosen.symm.trans chosen'
  cases found.symm.trans found'
  cases drafted.symm.trans drafted'
  cases encoded.symm.trans encoded'
  rfl

theorem ends_arrange : Ends (arrange arguments files) [] True fun made =>
    ∃ path bytes, arguments[1]? = some path ∧ IsArranged arguments files bytes ∧
      files.checkMake path = .ok () ∧ made = [(path, songFile path bytes)] := by
  unfold arrange
  refine ends_ask fun source isSource => ?_
  refine ends_ask fun path isPath => ?_
  refine ends_ask fun strategy chosen => ?_
  refine ends_ask fun target found => ?_
  refine ends_ask fun midi isRead => ?_
  refine ends_ask fun draft arranged => ?_
  refine ends_ask fun bytes encoded => ?_
  refine ends_ask fun song loaded => ?_
  refine ends_create fun makes => ?_
  refine ends_write (ends_done ?_)
  have arranged := mapError_eq_ok.mp arranged
  have encoded := mapError_eq_ok.mp encoded
  -- No check for the target is made: what is arranged for it passes that in any case.
  obtain ⟨name, named⟩ := named?_of_target found
  obtain ⟨few, tuned⟩ := Target.endsInByte_of_named? named
  obtain ⟨beatMicros, bounds, notes, framed⟩ := Midi.Arranger.arrangeFrames_of_arrange arranged
  obtain ⟨song, loads, accepted⟩ :=
    (Midi.Arranger.suits_of_arrangeFrames few tuned rfl framed).check_of_encode encoded
  exact ⟨path, bytes, argument_eq_ok.mp isPath,
    ⟨source, midi, strategy, target, draft, song, argument_eq_ok.mp isSource, mapError_eq_ok.mp isRead, chosen,
      found, arranged, encoded, loads, accepted⟩, makes, rfl⟩

theorem arrange_succeeds (ready : ∃ path bytes, arguments[1]? = some path ∧
      IsArranged arguments files bytes ∧ files.checkMake path = .ok ()) :
    Ends (arrange arguments files) [] False fun _ => True := by
  obtain ⟨path, bytes, isPath, isArranged, makes⟩ := ready
  obtain ⟨source, midi, strategy, target, draft, song, isSource, isRead, chosen, found, arranged, encoded,
    loaded, -⟩ := isArranged
  unfold arrange
  refine ends_sure (argument_eq_ok.mpr isSource) ?_
  refine ends_sure (argument_eq_ok.mpr isPath) ?_
  refine ends_sure chosen ?_
  refine ends_sure found ?_
  refine ends_sure (mapError_eq_ok.mpr isRead) ?_
  refine ends_sure (mapError_eq_ok.mpr arranged) ?_
  refine ends_sure (mapError_eq_ok.mpr encoded) ?_
  refine ends_sure (mapError_eq_ok.mpr loaded) ?_
  exact ends_create_sure makes (ends_write (ends_done trivial))

end Arrangements

/-! Recordings. -/

/-- Whether samples are those that the song among some arguments comes to on the target among them, which
takes it. -/
def IsRecorded (arguments : List String) (files : Files) (samples : List UInt8) : Prop :=
  ∃ source bytes song target simulation,
    arguments[0]? = some source ∧ files.read source = .ok bytes ∧ Song.ofBytes bytes = .ok song ∧
    Command.target arguments[2]? = .ok target ∧ target.check song = .ok () ∧
    Simulation.start song target recordingRate = .ok simulation ∧ simulation.Renders samples

theorem IsRecorded.unique {samples others : List UInt8} (recorded : IsRecorded arguments files samples)
    (again : IsRecorded arguments files others) : samples = others := by
  obtain ⟨source, bytes, song, target, simulation, isSource, isRead, loaded, found, -, started, renders⟩ :=
    recorded
  obtain ⟨source, bytes, song, target, simulation, isSource', isRead', loaded', found', -, started',
    renders'⟩ := again
  cases isSource.symm.trans isSource'
  cases isRead.symm.trans isRead'
  cases loaded.symm.trans loaded'
  cases found.symm.trans found'
  cases started.symm.trans started'
  exact renders.unique renders'

section Recordings

variable [Wave.Writer] {Holds : Wave.Writer.State → Wave.Sound → Prop}
  {read? : List UInt8 → Option Wave.Sound} (documented : Wave.Writer.Documented Holds read?)

/-- Whether a file is what the library has written when some samples, and no others, have been added in their
order. -/
def Saved (samples written : List UInt8) : Prop :=
  ∃ state last, Wave.Writer.start 1 recordingRate 8 = .ok state ∧
    samples.foldlM Wave.Writer.add state = .ok last ∧ written = Wave.Writer.bytes last

include documented

/-- A file that can hold every sample is filled with those that a simulation comes to. -/
theorem fill_of_renders {simulation : Simulation} {samples : List UInt8}
    (renders : simulation.Renders samples) {limit : Nat} (enough : samples.length < limit)
    {state : Wave.Writer.State} {sound : Wave.Sound} (holds : Holds state sound) :
    ∃ last, fill simulation state limit = (last, .ok ()) ∧
      samples.foldlM Wave.Writer.add state = .ok last ∧
      Holds last { sound with samples := sound.samples ++ samples } := by
  induction renders generalizing limit state sound with
  | finished ended =>
    obtain ⟨others, rfl⟩ := Nat.exists_eq_add_of_lt enough
    refine ⟨state, ?_, rfl, ?_⟩
    · simp only [fill, ended]
    · rwa [List.append_nil]
  | @sample simulation next value later taken renders ih =>
    cases limit with
    | zero => exact (Nat.not_lt_zero _ enough).elim
    | succ limit =>
      obtain ⟨added, adds, holdsAdded⟩ := documented.add state sound value holds
      obtain ⟨last, filled, folded, holdsLast⟩ := ih (Nat.lt_of_succ_lt_succ enough) holdsAdded
      refine ⟨last, ?_, ?_, ?_⟩
      · simp only [fill, taken, adds, filled]
      · rw [List.foldlM_cons, adds]
        exact folded
      · rwa [List.append_assoc] at holdsLast

/-- Nothing fails after the checks. -/
theorem exists_filled {bytes : List UInt8} {song : Song} {target : Target}
    (loaded : Song.ofBytes bytes = .ok song) (size : target.levels.size = 4 <<< target.channels.length) :
    ∃ state simulation samples last, Wave.Writer.start 1 recordingRate 8 = .ok state ∧
      Simulation.start song target recordingRate = .ok simulation ∧ simulation.Renders samples ∧
      fill simulation state (simulation.length + 1) = (last, .ok ()) ∧
      Saved samples (Wave.Writer.bytes last) ∧
      read? (Wave.Writer.bytes last) = some ⟨recordingRate, samples⟩ := by
  have positive : 0 < recordingRate := by decide
  obtain ⟨state, begun, holds⟩ := documented.start recordingRate (by decide)
  obtain ⟨simulation, samples, started, renders, length, -⟩ :=
    Simulation.renders_of_loaded loaded size positive
  have enough : samples.length < simulation.length + 1 := Nat.lt_succ_of_le (Nat.le_of_eq length)
  obtain ⟨last, filled, folded, holdsLast⟩ := fill_of_renders documented renders enough holds
  exact ⟨state, simulation, samples, last, begun, started, renders, filled, ⟨state, last, begun, folded, rfl⟩,
    documented.bytes last _ holdsLast⟩

theorem ends_record : Ends (record arguments files) [] True fun made =>
    ∃ path samples written, arguments[1]? = some path ∧ IsRecorded arguments files samples ∧
      files.checkMake path = .ok () ∧ made = [(path, written)] ∧ Saved samples written ∧
      read? written = some ⟨recordingRate, samples⟩ := by
  unfold record
  refine ends_ask fun source isSource => ?_
  refine ends_ask fun path isPath => ?_
  refine ends_ask fun bytes isRead => ?_
  refine ends_ask fun song loaded => ?_
  refine ends_ask fun target found => ?_
  refine ends_ask fun _ leveled => ?_
  refine ends_ask fun _ accepted => ?_
  refine ends_create fun makes => ?_
  -- There is a file from here on, so nothing may fail any more.
  have loaded := mapError_eq_ok.mp loaded
  obtain ⟨name, named⟩ := named?_of_target found
  obtain ⟨state, simulation, samples, last, begun, started, renders, filled, saved, reads⟩ :=
    exists_filled documented loaded (levels_of_named? named).2
  refine ends_sure (mapError_eq_ok.mpr begun) (ends_write ?_)
  refine ends_sure (mapError_eq_ok.mpr started) ?_
  simp only [filled]
  refine ends_write (ends_sure rfl (ends_done ?_))
  exact ⟨path, samples, _, argument_eq_ok.mp isPath,
    ⟨source, bytes, song, target, simulation, argument_eq_ok.mp isSource, mapError_eq_ok.mp isRead, loaded,
      found, mapError_eq_ok.mp accepted, started, renders⟩, makes, rfl, saved, reads⟩

theorem record_succeeds (ready : ∃ path samples, arguments[1]? = some path ∧
      IsRecorded arguments files samples ∧ files.checkMake path = .ok ()) :
    Ends (record arguments files) [] False fun _ => True := by
  obtain ⟨path, samples, isPath, isRecorded, makes⟩ := ready
  obtain ⟨source, bytes, song, target, _, isSource, isRead, loaded, found, accepted, -⟩ := isRecorded
  obtain ⟨name, named⟩ := named?_of_target found
  obtain ⟨leveled, size⟩ := levels_of_named? named
  obtain ⟨state, simulation, _, last, begun, started, -, filled, -⟩ := exists_filled documented loaded size
  unfold record
  refine ends_sure (argument_eq_ok.mpr isSource) ?_
  refine ends_sure (argument_eq_ok.mpr isPath) ?_
  refine ends_sure (mapError_eq_ok.mpr isRead) ?_
  refine ends_sure (mapError_eq_ok.mpr loaded) ?_
  refine ends_sure found ?_
  refine ends_sure (mapError_eq_ok.mpr leveled) ?_
  refine ends_sure (mapError_eq_ok.mpr accepted) ?_
  refine ends_create_sure makes ?_
  refine ends_sure (mapError_eq_ok.mpr begun) (ends_write ?_)
  refine ends_sure (mapError_eq_ok.mpr started) ?_
  simp only [filled]
  exact ends_write (ends_sure rfl (ends_done trivial))

end Recordings

end Commands

/-! Whole runs. -/

/-- A library whose rounding is right for numbers that are not below zero. There are no others in what
follows. -/
@[reducible]
def floats : FloatLibrary where
  round := fun x => Float.ofNat (x + 0.5).toUInt32.toNat
  power := Elementary.power
  log2 := Elementary.log2

/-- A MIDI file in which a second note begins while the first is held. -/
def twoNotes : List UInt8 :=
  [0x4d, 0x54, 0x68, 0x64, 0x00, 0x00, 0x00, 0x06, 0x00, 0x00, 0x00, 0x01, 0x00, 0x60,
    0x4d, 0x54, 0x72, 0x6b, 0x00, 0x00, 0x00, 0x0b,
    0x00, 0x90, 0x6a, 0x64, 0x06, 0x3c, 0x64, 0x06, 0x80, 0x3c, 0x40]

/-- The first channel can play only the second note, which is the lower one. -/
def twoNotesDraft : SongDraft :=
  ⟨0x79, [{ channel := 0, latest := [⟨.tone 24, 1⟩, ⟨.rest, 1⟩] }, { channel := 1, latest := [⟨.tone 70, 2⟩] }]⟩

def twoNotesSong : List UInt8 :=
  [0x79, 0x00, 0x0a, 0x00, 0x09, 0x00, 0x00, 0xaa, 0x18, 0xff, 0x80,
    0x01, 0x09, 0x00, 0x08, 0x00, 0x00, 0x46, 0xff, 0x01, 0xff]

/-- A MIDI file and a song. -/
def given : Files := { contents := [("m", twoNotes), ("s", Song.twoTracks)] }

theorem read_twoNotes : Midi.File.ofBytes? twoNotes =
    some ⟨.ticksPerBeat 96, [[⟨0, .noteOn 106 100⟩, ⟨6, .noteOn 60 100⟩, ⟨6, .noteOff 60⟩]]⟩ := by
  cbv

/-- The file is played at 120 beats per minute, with a sixteenth of a beat for each of the notes. -/
theorem arrange_twoNotes :
    @Midi.Arranger.arrange floats Midi.reader { Midi.Arranger.ofTarget .atmega328p with strategy := .auto }
      twoNotes = .ok twoNotesDraft := by
  have timeline : Midi.Timeline.ofFile ⟨.ticksPerBeat 96,
      [[⟨0, .noteOn 106 100⟩, ⟨6, .noteOn 60 100⟩, ⟨6, .noteOff 60⟩]]⟩ =
        ⟨[[⟨0, 106, true⟩, ⟨6, 60, true⟩, ⟨12, 60, false⟩]], .ofChanges [], 12⟩ := rfl
  have bounds : @Midi.TempoMap.frameBounds floats (.ofChanges []) ((Midi.TempoMap.ofChanges []).average 12) 96
      12 = [0, 6, 12] := by
    decide +kernel
  have tempo : @Tempo.ofBpm floats (60000000 / (Midi.TempoMap.ofChanges []).average 12) = 0x79 := by
    decide +kernel
  have checked (beatMicros : Float) : Midi.checkNotes Target.atmega328p.channels beatMicros (0 * 12)
      ([[⟨0, 106, true⟩, ⟨6, 60, true⟩, ⟨12, 60, false⟩]].map (Midi.pitchPart [0, 6, 12] (0 * 12))) =
        .ok [[[70], [70, 24]]] := by
    cbv
  have assigned : Midi.assignChannels .auto Target.atmega328p.channels false
      (Midi.framesOf [[[70], [70, 24]]]) = .ok twoNotesDraft.tracks := by
    cbv
  simp only [Midi.Arranger.arrange, Midi.Reader.file?, read_twoNotes, timeline, bounds,
    Midi.Arranger.arrangeFrames, Midi.Arranger.ofTarget, checked, assigned, tempo, bind, Except.bind, pure,
    Except.pure, Option.getD_none]
  rfl

set_option maxRecDepth 8192 in
theorem twoNotes_isArranged :
    @IsArranged floats Midi.reader ["m", "s.h", "atmega328p"] given twoNotesSong := by
  have isRead : given.read "m" = .ok twoNotes := by cbv
  have encoded : twoNotesDraft.encode = .ok twoNotesSong := by cbv
  have loaded : Song.ofBytes twoNotesSong = .ok ⟨twoNotesSong⟩ := by cbv
  have accepted : Target.atmega328p.check ⟨twoNotesSong⟩ = .ok () := by cbv
  exact ⟨_, _, _, _, _, _, rfl, isRead, rfl, rfl, arrange_twoNotes, encoded, loaded, accepted⟩

/-- Five ticks of 4352 µs take 960 samples. -/
theorem exists_isRecorded_twoTracks :
    ∃ samples, IsRecorded ["s", "w"] given samples ∧ samples.length = 960 := by
  have isRead : given.read "s" = .ok Song.twoTracks := by cbv
  have accepted : Target.atmega3208.check ⟨Song.twoTracks⟩ = .ok () := by cbv
  have ticks : (⟨Song.twoTracks⟩ : Song).passTicks Target.atmega3208.channels.length = 5 := by cbv
  obtain ⟨simulation, tempo, tempos, started, going, left⟩ :=
    @Simulation.going_start Target.atmega3208 rfl _ _ Song.ofBytes_twoTracks recordingRate (by decide)
  have first : tempo = 0x10 := by
    rw [← Option.some.injEq, ← tempos]
    rfl
  rw [first, ticks, Simulation.ceilDiv_sampleLength] at left
  obtain ⟨samples, renders, length⟩ := going.renders rfl
  exact ⟨samples,
    ⟨_, _, _, _, simulation, rfl, isRead, Song.ofBytes_twoTracks, rfl, accepted, started, renders⟩,
    length.trans (left.trans (by decide))⟩

end Command

end Buzzer
